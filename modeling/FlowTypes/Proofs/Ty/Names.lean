import FlowTypes.Proofs.Ty.Acyclic
import FlowTypes.Proofs.Ty.Reflexivity

namespace FlowTypes.Ty

variable {n : Bool} {a b t : Ty} {name : String}

def acceptsAt (n : Bool) (a b : Ty) : Bool := (accept? ⟨n, false⟩ a b none).any (·.1)

theorem acceptsAt_iff : acceptsAt n a b ↔ Receives none n a b := by
  obtain ⟨c, hc, hr⟩ := accept?_reading_verdict (σ := none) (by simp) n a b
  rw [acceptsAt, hc, ← hr]
  rfl

/-- Does the type accept another one that this name is put on? -/
def takesNamed (name : String) (b : Ty) : Bool → Ty → Bool
  | _, .generic _ => true
  | n, .bounded _ t => takesNamed name b n t
  | _, .nullable t => takesNamed name b true t
  | n, .inter l r => takesNamed name b n l && takesNamed name b n r
  | n, .union l r => takesNamed name b (n || (l.isNullable || r.isNullable)) l ||
      takesNamed name b (n || (l.isNullable || r.isNullable)) r
  | n, .named other t => other == name && acceptsAt n t b
  | _, .tag _ => false
  | n, t => acceptsAt n t b

theorem Receives.of_named {other : String} (h : Receives none n (.named other t) (.named name b)) :
    other = name ∧ Receives none n t b := by
  cases h with
  | named _ h => exact ⟨rfl, h⟩
  | unnamed _ hn _ => simp [isNominal] at hn

theorem Receives.of_receivedNamed (hs : a.isShape) (ha : a.isNominal = false)
    (h : Receives none n a (.named name b)) : Receives none n a b := by
  cases h with
  | unnamed _ _ h => exact h
  | named => simp [isNominal] at ha
  | any _ hm => simp [mayHideNull] at hm
  | openStruct hb | struct hb _ _ _ => simp [fields?] at hb
  | _ => simp [isShape] at hs

theorem receives_named_iff : Receives none n a (.named name b) ↔ takesNamed name b n a := by
  induction a generalizing n with
  | generic other => exact iff_of_true (.generic rfl rfl) rfl
  | bounded other t ih =>
    exact ⟨fun h ↦ ih.1 (h.of_bounded rfl), fun h ↦ .bounded rfl rfl (ih.2 h)⟩
  | nullable t ih => exact ⟨fun h ↦ ih.1 (h.of_nullable rfl), fun h ↦ .nullable rfl (ih.2 h)⟩
  | inter l r ihl ihr =>
    simp only [takesNamed, Bool.and_eq_true, ← ihl, ← ihr]
    exact ⟨Receives.of_inter rfl, fun h ↦ .inter rfl h.1 h.2⟩
  | union l r ihl ihr =>
    simp only [takesNamed, Bool.or_eq_true, ← ihl, ← ihr]
    exact ⟨Receives.of_union rfl, fun h ↦ h.elim (.unionLeft rfl) (.unionRight rfl)⟩
  | named other t =>
    simp only [takesNamed, Bool.and_eq_true, beq_iff_eq, acceptsAt_iff]
    refine ⟨Receives.of_named, ?_⟩
    rintro ⟨rfl, h⟩
    exact .named other h
  | tag other =>
    refine iff_of_false (fun h ↦ ?_) (by simp [takesNamed])
    cases h with
    | unnamed _ hn _ => simp [isNominal] at hn
  | _ => exact ⟨fun h ↦ acceptsAt_iff.2 (h.of_receivedNamed rfl rfl),
      fun h ↦ .unnamed rfl rfl (acceptsAt_iff.1 h)⟩

/-- Neither a union nor a named type comes out when nullables and intersections are taken off. -/
def isOpen : Ty → Bool
  | .union .. | .tag _ | .named .. => false
  | .bounded _ t | .nullable t => isOpen t
  | .inter l r => isOpen l && isOpen r
  | _ => true

theorem Receives.inNamed (ha : a.isOpen) (h : Receives none n a b) (name : String) :
    Receives none n a (.named name b) := by
  induction a generalizing n with
  | generic other => exact .generic rfl rfl
  | bounded other t ih => exact .bounded rfl rfl (ih ha (h.of_pieces fun _ hb h ↦ h.of_bounded hb))
  | nullable t ih => exact .nullable rfl (ih ha (h.of_pieces fun _ hb h ↦ h.of_nullable hb))
  | inter l r ihl ihr =>
    obtain ⟨hl, hr⟩ : l.isOpen ∧ r.isOpen := by simpa [isOpen] using ha
    exact .inter rfl (ihl hl (h.of_pieces fun _ hb h ↦ (h.of_inter hb).1))
      (ihr hr (h.of_pieces fun _ hb h ↦ (h.of_inter hb).2))
  | union | tag | named => simp [isOpen] at ha
  | _ => exact .unnamed rfl rfl h

/-- The verdict on a type that a name is put on. Open types look through the name. -/
theorem accept?_named (name : String) (n : Bool) (a b : Ty) :
    accept? ⟨n, false⟩ a (.named name b) none = some (takesNamed name b n a, none) ∧
    (a.isOpen → accept? ⟨n, false⟩ a b none = some (true, none) →
      accept? ⟨n, false⟩ a (.named name b) none = some (true, none)) := by
  refine ⟨accept?_reading_eq (by simp) receives_named_iff, fun ha h ↦ ?_⟩
  exact accept?_of_receives (by simp) ((receives_of_acceptWithin h).inNamed ha name)

theorem accept?_named_twice :
    let t : Ty := .inter (.nullable (.struct [⟨"a", true, .list (.primitive .int)⟩])) .openStruct
    accept? .reading t t none = some (true, none) ∧
      accept? .reading t (.named "x" (.named "y" t)) none = some (true, none) := by
  intro t
  have h : accept? .reading t t none = some (true, none) := rfl
  have hy := (accept?_named "y" false t t).2 rfl h
  exact ⟨h, (accept?_named "x" false t (.named "y" t)).2 rfl hy⟩

/-- A union, and a nullable named type, accept themselves, but not once a name is put on them. -/
theorem accept?_named_fails :
    let alternatives : Ty := .union (.primitive .int) (.primitive .string)
    let date : Ty := .nullable (.named "date" (.primitive .int))
    accept? .reading alternatives alternatives none = some (true, none) ∧
      accept? .reading alternatives (.named "tag" alternatives) none = some (false, none) ∧
    accept? .reading date date none = some (true, none) ∧
      accept? .reading date (.named "tag" date) none = some (false, none) :=
  ⟨rfl, rfl, rfl, rfl⟩

end FlowTypes.Ty
