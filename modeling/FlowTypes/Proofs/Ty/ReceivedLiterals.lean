import FlowTypes.Proofs.Ty.Acyclic
import FlowTypes.Proofs.Ty.Reflexivity

namespace FlowTypes

namespace Literal

variable {k l : Literal}

theorem toJson_ne_null (hl : l ≠ .null) (hx : ∀ x, l = .number x → x.isFinite) :
    l.toJson ≠ .null := by
  cases l with
  | null => exact absurd rfl hl
  | number x => simp [toJson, hx x rfl]
  | bool b | string s => simp [toJson]

theorem same_eq_is_toJson (hl : l.toJson ≠ .null) : k.same l = k.is l.toJson := by
  cases l with
  | null => exact absurd rfl hl
  | number y =>
    have hy : y.isFinite := by
      by_contra hy
      exact hl (by simp [toJson, hy])
    have hnan : y.isNaN = false := by
      simp only [Double.isFinite, Double.isNaN, decide_eq_true_eq, decide_eq_false_iff_not] at hy ⊢
      omega
    cases k <;> simp [same, is, toJson, Json.toDouble?, Double.same, hy, hnan]
  | bool b | string s => cases k <;> simp [same, is, toJson, Json.toDouble?]

end Literal

namespace Ty

open Session

section

variable {σ τ : Option Bindings} {n c : Bool} {a : Ty} {l : Literal}

theorem lookup_getD (σ : Option Bindings) (name : String) :
    (σ.getD []).lookup name = σ.bind (·.lookup name) := by
  cases σ <;> rfl

theorem admits_any {v : Json} (hv : v ≠ .null) : Primitive.any.admits (some v) = true := by
  cases v with
  | null => exact absurd rfl hv
  | _ => rfl

theorem checkWithin_of_shape {go : Mode → Ty → Ty → Session Bool} {fuel : Nat}
    (hl : l.toJson ≠ .null) (ha : a.isShape)
    (h : receive go (checkInSession fuel) ⟨n, false⟩ a (.literal l) σ = some (c, τ)) :
    checkWithin (σ.getD []) [] (fuel + 1) a (some l.toJson) = some c := by
  have hshape : receive go (checkInSession fuel) ⟨n, false⟩ a (.literal l) =
      receiveByShape go (checkInSession fuel) ⟨n, false⟩ a (.literal l) ∨ _ :=
    receive_of_isShape ha _ _
  obtain he | ⟨rfl, -, he⟩ := hshape <;> rw [he] at h
  · cases a with
    | literal k =>
      have hc : k.same l = c := by simpa [receiveByShape] using congrArg (Option.map Prod.fst) h
      rw [Literal.same_eq_is_toJson hl] at hc
      simpa [checkWithin] using hc
    | _ =>
      have hflag : ¬(n && l == .null) = true := by
        rintro hn
        obtain rfl : l = .null := by simpa using (Bool.and_eq_true_iff.1 hn).2
        exact hl rfl
      rw [receiveByShape_literal rfl, if_neg hflag] at h
      exact checkWithin_mono (Nat.le_succ fuel) (checkInSession_eq_some.1 h).2
  · obtain rfl : true = c := by simpa using congrArg (Option.map Prod.fst) h
    rw [checkWithin, admits_any hl]

theorem checkWithin_of_acceptWithin (hl : l.toJson ≠ .null) {fuel : Nat}
    (h : acceptWithin fuel ⟨n, false⟩ a (.literal l) σ = some (c, τ)) :
    checkWithin (σ.getD []) [] fuel a (some l.toJson) = some c := by
  induction fuel generalizing n a c σ τ with
  | zero => exact absurd h (by simp)
  | succ fuel ih =>
    have hr {n a c σ τ} (h : acceptWithin fuel ⟨n, false⟩ a (.literal l) σ = some (c, τ)) : τ = σ :=
      acceptWithin_readsOnly fuel n a _ _ _ _ h
    rw [acceptWithin, receiveParts_of_not_splits rfl] at h
    cases a with
    | generic name =>
      rw [receive, receiveGeneric_reading] at h
      rw [checkWithin, lookup_getD]
      generalize σ.bind (·.lookup name) = found at h ⊢
      cases found with
      | some old => exact ih h
      | none => exact congrArg (Option.map Prod.fst) h
    | bounded name t =>
      rw [receive, receiveGeneric_reading] at h
      rw [checkWithin, lookup_getD]
      generalize σ.bind (·.lookup name) = found at h ⊢
      cases found with
      | some old => exact ih h
      | none => exact ih h
    | nullable t =>
      have hc := ih h
      cases hv : l.toJson with
      | null => exact absurd hv hl
      | _ => rwa [hv] at hc
    | inter s t =>
      rw [checkWithin]
      obtain ⟨ρ, h₁, h₂⟩ | ⟨h₁, rfl⟩ := both_eq_some.1 h
      · obtain rfl := hr h₁
        simp [ih h₁, ih h₂]
      · simp [ih h₁]
    | union s t =>
      rw [receive_union] at h
      rw [checkWithin]
      obtain ⟨ρ, h₁, h₂⟩ | ⟨h₁, rfl⟩ := either_eq_some.1 h
      · obtain rfl := hr h₁
        simp [ih h₁, ih h₂]
      · simp [ih h₁]
    | _ => exact checkWithin_of_shape hl rfl h

/-- On literals that have a value of their own, matching is checking. -/
theorem accept?_literal (hσ : ∀ ρ ∈ σ, ρ.Acyclic) (n : Bool) (a : Ty) (hl : l ≠ .null)
    (hx : ∀ x, l = .number x → x.isFinite) :
    ∃ c, accept? ⟨n, false⟩ a (.literal l) σ = some (c, σ) ∧
      check? (σ.getD []) [] a (some l.toJson) = some c := by
  obtain ⟨c, hc, -⟩ := accept?_reading_verdict hσ n a (.literal l)
  have hwithin := checkWithin_of_acceptWithin (Literal.toJson_ne_null hl hx) hc
  have hcheck := check?_of_acyclic (acyclic_getD hσ) [] a (some l.toJson)
  refine ⟨c, hc, ?_⟩
  rw [hcheck, checkWithin_unique hwithin hcheck]

theorem accept?_literal_zero :
    let ρ : Bindings := [("S", .nullable (.generic "T")), ("T", .literal (.number ⟨false, 0⟩))]
    let a : Ty := .inter (.bounded "S" (.primitive .string)) (.primitive .float)
    ρ.Acyclic ∧ check? ρ [] a (some (.double ⟨true, 0⟩)) = some true ∧
      accept? ⟨true, false⟩ a (.literal (.number ⟨true, 0⟩)) (some ρ) = some (true, some ρ) := by
  intro ρ a
  have hρ : ρ.Acyclic :=
    Bindings.acyclic_of_entries (fun name ↦ if name = "T" then 1 else 3) (by decide)
  have hcheck : check? ρ [] a (some (.double ⟨true, 0⟩)) = some true := rfl
  obtain ⟨c, hc, hcheck'⟩ := accept?_literal (σ := some ρ) (l := .number ⟨true, 0⟩)
    (by rintro _ ⟨⟩; exact hρ) true a (by simp) (by rintro _ ⟨⟩; decide)
  obtain rfl : true = c := Option.some_inj.1 (hcheck.symm.trans hcheck')
  exact ⟨hρ, hcheck, hc⟩

end

variable {t : Ty}

/-- Does the type take `null` where it is welcome? A generic takes what its bound takes, and a
literal only itself. -/
def takesNull : Ty → Bool
  | .literal l => l == .null
  | .bounded _ t | .nullable t => takesNull t
  | .inter l r => takesNull l && takesNull r
  | .union l r => takesNull l || takesNull r
  | _ => true

theorem receives_null_iff : Receives none true t (.literal .null) ↔ t.takesNull := by
  induction t with
  | literal k =>
    constructor
    · intro h
      cases h with
      | literal hk => cases k <;> simp_all [Literal.same, takesNull]
      | null _ hl | checked _ _ hl _ => simp [isLiteral] at hl
    · intro h
      obtain rfl : k = .null := by simpa [takesNull] using h
      exact .literal rfl
  | generic name => exact iff_of_true (.generic rfl rfl) rfl
  | bounded name t ih => exact ⟨fun h ↦ ih.1 (h.of_bounded rfl), fun h ↦ .bounded rfl rfl (ih.2 h)⟩
  | nullable t ih => exact ⟨fun h ↦ ih.1 (h.of_nullable rfl), fun h ↦ .nullable rfl (ih.2 h)⟩
  | inter l r ihl ihr =>
    simp only [takesNull, Bool.and_eq_true, ← ihl, ← ihr]
    exact ⟨Receives.of_inter rfl, fun h ↦ .inter rfl h.1 h.2⟩
  | union l r ihl ihr =>
    simp only [takesNull, Bool.or_eq_true, ← ihl, ← ihr]
    constructor
    · exact Receives.of_union rfl
    · rintro (h | h)
      · exact h.inLeft r
      · exact h.inRight l
  | _ => exact iff_of_true (.null rfl rfl) rfl

/-- A nullable type accepts `null` unless it comes down to literals of other values. -/
theorem accept?_nullable_null (t : Ty) :
    accept? .reading (.nullable t) (.literal .null) none = some (t.takesNull, none) := by
  obtain ⟨c, hc, hr⟩ :=
    accept?_reading_verdict (σ := none) (by simp) false (.nullable t) (.literal .null)
  have hnull : Receives none false (.nullable t) (.literal .null) ↔ t.takesNull :=
    ⟨fun h ↦ receives_null_iff.1 (h.of_nullable rfl), fun h ↦ .nullable rfl (receives_null_iff.2 h)⟩
  obtain rfl : c = t.takesNull := Bool.eq_iff_iff.2 (hr.trans hnull)
  exact hc

/-- A literal under a nullable does not accept `null`, although it describes `null`. -/
theorem accept?_nullable_null_fails :
    accept? .reading (.nullable (.literal (.string "x"))) (.literal .null) none =
        some (false, none) ∧
      check? [] [] (.nullable (.literal (.string "x"))) (some .null) = some true :=
  ⟨rfl, rfl⟩

end Ty

end FlowTypes
