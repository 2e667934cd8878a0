import FlowTypes.Proofs.Ty.Acyclic

namespace FlowTypes.Ty

def isTag : Ty → Bool
  | .tag _ => true
  | _ => false

@[simp] theorem admits_nil (name : String) (value : Option Json) :
    Validators.admits [] name value = true := rfl

variable {env : Env} {t : Ty}

theorem holds_null_of_isNullable (h : t.isNullable) : holds [] env t (some .null) := by
  induction t with
  | literal l =>
    simp only [isNullable, beq_iff_eq] at h
    subst h
    rfl
  | named name t ih => simpa [holds] using ih h
  | nullable t ih => rfl
  | inter s t ihs iht =>
    simp only [isNullable, Bool.and_eq_true] at h
    simp [holds, ihs h.1, iht h.2]
  | union s t ihs iht =>
    simp only [isNullable, Bool.or_eq_true] at h
    obtain h | h := h
    · simp [holds, ihs h]
    · simp [holds, iht h]
  | _ => simp [isNullable] at h

theorem holds_null_eq_isNullable (hg : t.generics = []) (ht : t.every fun s ↦ !s.isTag) :
    holds [] env t (some .null) = t.isNullable := by
  induction t with
  | literal l => cases l <;> rfl
  | primitive p => cases p <;> rfl
  | generic name | bounded name t ih => simp [generics] at hg
  | tag name => simp [every, isTag] at ht
  | named name t ih =>
    have hi := ih hg (every_of_mem_parts ht (by simp [parts]))
    simp [holds, isNullable, hi]
  | inter s t ihs iht | union s t ihs iht =>
    simp only [generics, List.append_eq_nil_iff] at hg
    have hs := ihs hg.1 (every_of_mem_parts ht (by simp [parts]))
    have ht := iht hg.2 (every_of_mem_parts ht (by simp [parts]))
    simp [holds, isNullable, hs, ht]
  | _ => rfl

/-- If no binding leads back to itself, `null` conforms to each type that is found to be nullable.
Without generics and tags it conforms to no other type. -/
theorem check?_null (σ : Option Bindings) (t : Ty) :
    ((∀ ρ ∈ σ, ρ.Acyclic) → t.isNullable → check? (σ.getD []) [] t (some .null) = some true) ∧
    (t.generics = [] → (t.every fun s ↦ !s.isTag) →
      check? (σ.getD []) [] t (some .null) = some t.isNullable) := by
  constructor
  · intro hσ h
    rw [check?_of_acyclic (acyclic_getD hσ), holds_null_of_isNullable h]
  · intro hg ht
    rw [check?_of_generics_eq_nil hg _ .empty, holds_null_eq_isNullable hg ht]

theorem check?_null_linked :
    let ρ : Bindings := [("T", .bounded "U" (.primitive .bool)), ("U", .primitive .int)]
    let s : Ty := .union (.generic "T") (.named "color" (.nullable (.primitive .string)))
    let t : Ty := .inter (.nullable (.struct [⟨"key", false, .primitive .string⟩])) .openStruct
    ρ.Acyclic ∧ s.isNullable ∧ check? ρ [] s (some .null) = some true ∧
      t.generics = [] ∧ (t.every fun s ↦ !s.isTag) ∧
      check? ρ [] t (some .null) = some t.isNullable ∧ t.isNullable = false := by
  intro ρ s t
  have hρ : ρ.Acyclic :=
    Bindings.acyclic_of_entries (fun name ↦ if name = "T" then 3 else 1) (by decide)
  have hs := (check?_null (some ρ) s).1 (by rintro _ ⟨⟩; exact hρ) rfl
  have ht := (check?_null (some ρ) t).2 rfl rfl
  exact ⟨hρ, rfl, hs, rfl, rfl, ht, rfl⟩

/-- A binding that leads back to itself leaves the union without a verdict. -/
example :
    let s : Ty := .union (.generic "T") (.nullable (.primitive .int))
    s.isNullable ∧ check? [("T", .generic "T")] [] s (some .null) = none := ⟨rfl, rfl⟩

end FlowTypes.Ty
