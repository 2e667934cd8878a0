import FlowTypes.Proofs.Ty.Acyclic
import FlowTypes.Proofs.Ty.Nullability
import FlowTypes.Proofs.Ty.Reflexivity

namespace FlowTypes.Ty

def isCalled (name : String) : Ty → Bool
  | .tag other | .named other _ => other == name
  | _ => false

/-- Do the literals that a received type comes down to pass a test? Those of all alternatives have
to, and of an intersection those of one operand. Where `null` is welcome, it passes untested. -/
def literalsPass (test : Literal → Bool) : Bool → Ty → Bool
  | n, .literal l => n && l == .null || test l
  | n, .bounded _ t => literalsPass test n t
  | n, .nullable t => n && literalsPass test n t
  | n, .inter l r => literalsPass test (n || (l.isNullable != r.isNullable)) l ||
      literalsPass test (n || (l.isNullable != r.isNullable)) r
  | n, .union l r => literalsPass test n l && literalsPass test n r
  | _, _ => false

/-- Does a literal come out of each alternative, when bounds, nullables and intersections are taken
off? -/
def hasLiterals : Ty → Bool
  | .literal _ => true
  | .bounded _ t | .nullable t => hasLiterals t
  | .inter l r => hasLiterals l || hasLiterals r
  | .union l r => hasLiterals l && hasLiterals r
  | _ => false

variable {n : Bool} {name : String} {a s t : Ty} {test : Literal → Bool}

theorem hasLiterals_of_literalsPass (h : t.literalsPass test n) : t.hasLiterals := by
  induction t generalizing n with
  | literal l => rfl
  | bounded _ t ih => exact ih h
  | nullable t ih => exact ih (Bool.and_eq_true_iff.1 h).2
  | inter l r ihl ihr =>
    simp only [hasLiterals, Bool.or_eq_true]
    exact (Bool.or_eq_true_iff.1 h).imp ihl ihr
  | union l r ihl ihr =>
    simp only [hasLiterals, Bool.and_eq_true]
    exact (Bool.and_eq_true_iff.1 h).imp ihl ihr
  | _ => exact absurd h (by simp [literalsPass])

theorem receives_inter_iff {l r : Ty} (ha : a.isShape) : Receives none n a (.inter l r) ↔
    Receives none (n || (l.isNullable != r.isNullable)) a l ∨
      Receives none (n || (l.isNullable != r.isNullable)) a r := by
  constructor
  · intro h
    cases h with
    | ofInterLeft _ h => exact .inl h
    | ofInterRight _ h => exact .inr h
    | _ => simp_all [isShape, mayHideNull, fields?]
  · rintro (h | h)
    · exact .ofInterLeft ha h
    · exact .ofInterRight ha h

theorem receives_nullable_iff (ha : a.isShape) (ht : (Ty.nullable t).splits = false) :
    Receives none n a (.nullable t) ↔ n ∧ Receives none n a t := by
  constructor
  · intro h
    cases h with
    | ofNullable _ _ h => exact ⟨rfl, h⟩
    | _ => simp_all [isShape, splits, mayHideNull, fields?]
  · rintro ⟨rfl, h⟩
    exact .ofNullable ha ht h

theorem receives_literal_iff (l : Literal) : Receives none n (.named name s) (.literal l) ↔
    n && l == .null || check? [] [] s (some l.toJson) == some true := by
  have hnamed : check? [] [] (.named name s) (some l.toJson) =
      check? [] [] s (some l.toJson) := by simp [check?_eq_holds, holds]
  rw [← hnamed, Bool.or_eq_true, Bool.and_eq_true, beq_iff_eq, beq_iff_eq]
  constructor
  · intro h
    cases h with
    | null => exact .inl ⟨rfl, rfl⟩
    | checked fuel _ _ hc =>
      have hv : check? [] [] (.named name s) (some l.toJson) =
          some (holds [] .empty (.named name s) (some l.toJson)) := check?_eq_holds _ _
      rw [hv, checkWithin_unique hv hc]
      exact .inr rfl
  · rintro (⟨rfl, rfl⟩ | h)
    · exact .null rfl rfl
    · exact .checked _ rfl rfl h

theorem not_receives_generic (other : String) :
    ¬Receives none n (.named name s) (.generic other) := by
  intro h
  cases h with
  | ofGeneric _ h =>
    obtain ⟨-, h⟩ := (receives_nullable_iff rfl rfl).1 h
    cases h

theorem not_receives_called (ht : t.isNominal) (hname : t.isCalled name = false) :
    ¬Receives none n (.named name s) t := by
  intro h
  cases h with
  | named => simp [isCalled] at hname
  | unnamed _ hn _ => simp [isNominal] at hn
  | _ => simp [isNominal] at ht

theorem receives_iff_literalsPass (ht : t.every fun u ↦ !u.isCalled name) :
    Receives none n (.named name s) t ↔
      t.literalsPass (fun l ↦ check? [] [] s (some l.toJson) == some true) n := by
  generalize htest : (fun l : Literal ↦ check? [] [] s (some l.toJson) == some true) = test
  suffices h : (Receives none n (.named name s) t ↔ t.literalsPass test n) ∧
      (Receives none n (.named name s) (.nullable t) ↔ n ∧ t.literalsPass test n) from h.1
  have whole {u : Ty} {n : Bool} (hs : (Ty.nullable u).splits = false)
      (h : ∀ m, Receives none m (.named name s) u ↔ u.literalsPass test m) :
      (Receives none n (.named name s) u ↔ u.literalsPass test n) ∧
        (Receives none n (.named name s) (.nullable u) ↔ n ∧ u.literalsPass test n) :=
    ⟨h n, by rw [receives_nullable_iff rfl hs, h n]⟩
  induction t generalizing n with
  | literal l =>
    refine whole rfl fun m ↦ ?_
    rw [receives_literal_iff, literalsPass, ← htest]
  | bounded other u ih =>
    refine whole rfl fun m ↦ ?_
    rw [literalsPass, ← (ih (every_of_mem_parts ht (by simp [parts]))).1]
    refine ⟨fun h ↦ ?_, .ofBounded rfl⟩
    cases h with
    | ofBounded _ h => exact h
  | nullable u ih =>
    refine whole rfl fun m ↦ ?_
    rw [literalsPass, Bool.and_eq_true]
    exact (ih (every_of_mem_parts ht (by simp [parts]))).2
  | union l r ihl ihr =>
    obtain ⟨hl, hl'⟩ := ihl (n := n) (every_of_mem_parts ht (by simp [parts]))
    obtain ⟨hr, hr'⟩ := ihr (n := n) (every_of_mem_parts ht (by simp [parts]))
    simp only [literalsPass, Bool.and_eq_true]
    rw [← hl, ← hr]
    refine ⟨⟨Receives.of_receivedUnion, fun h ↦ .union h.1 h.2⟩, fun h ↦ ?_, fun h ↦ ?_⟩
    · obtain ⟨h₁, h₂⟩ := h.of_receivedNullableUnion
      exact ⟨(hl'.1 h₁).1, hl.2 (hl'.1 h₁).2, hr.2 (hr'.1 h₂).2⟩
    · exact .nullableUnion (hl'.2 ⟨h.1, hl.1 h.2.1⟩) (hr'.2 ⟨h.1, hr.1 h.2.2⟩)
  | inter l r ihl ihr =>
    have hl {m : Bool} := ihl (n := m) (every_of_mem_parts ht (by simp [parts]))
    have hr {m : Bool} := ihr (n := m) (every_of_mem_parts ht (by simp [parts]))
    simp only [literalsPass, Bool.or_eq_true]
    refine ⟨by rw [receives_inter_iff rfl, hl.1, hr.1], fun h ↦ ?_, ?_⟩
    · rcases h.of_receivedNullableInter with h | h
      · obtain ⟨rfl, h⟩ := hl.2.1 h
        exact ⟨rfl, .inl h⟩
      · obtain ⟨rfl, h⟩ := hr.2.1 h
        exact ⟨rfl, .inr h⟩
    · rintro ⟨rfl, h | h⟩
      · exact .nullableInterLeft r (hl.2.2 ⟨rfl, h⟩)
      · exact .nullableInterRight l (hr.2.2 ⟨rfl, h⟩)
  | generic other =>
    exact whole rfl fun m ↦ iff_of_false (not_receives_generic other) (by simp [literalsPass])
  | tag | named =>
    refine whole rfl fun m ↦ iff_of_false (not_receives_called rfl ?_) (by simp [literalsPass])
    simpa using every_self ht
  | _ =>
    refine whole rfl fun m ↦ iff_of_false (fun h ↦ ?_) (by simp [literalsPass])
    cases h

/-- The verdict of a named type on one in which its name does not occur: whether the literals of
that one pass. It is negative if there is an alternative that none comes out of. -/
theorem accept?_nominal (name : String) (n : Bool) (s : Ty) {t : Ty}
    (ht : t.every fun u ↦ !u.isCalled name) :
    accept? ⟨n, false⟩ (.named name s) t none = some
      (t.literalsPass (fun l ↦ check? [] [] s (some l.toJson) == some true) n, none) ∧
    (t.hasLiterals = false → accept? ⟨n, false⟩ (.named name s) t none = some (false, none)) := by
  refine ⟨accept?_reading_eq (by simp) (receives_iff_literalsPass ht), fun hl ↦ ?_⟩
  refine accept?_reading_eq (by simp) (iff_of_false (fun h ↦ ?_) Bool.false_ne_true)
  have hpass := (receives_iff_literalsPass ht).1 h
  exact Bool.false_ne_true (hl.symm.trans (hasLiterals_of_literalsPass hpass))

theorem accept?_nominal_other_name :
    let t : Ty := .union (.inter (.literal (.string "#fff")) (.primitive .string))
      (.named "tint" (.literal (.string "#fff")))
    (t.every fun u ↦ !u.isCalled "color") ∧
      accept? .reading (.named "color" t) t none = some (false, none) := by
  intro t
  have ht : t.every fun u ↦ !u.isCalled "color" := rfl
  exact ⟨ht, (accept?_nominal "color" false t ht).2 rfl⟩

/-- A literal gets past a name that is put on it. -/
theorem accept?_nominal_literal :
    let t : Ty := .literal (.string "#fff")
    t.generics = [] ∧ (t.every fun u ↦ !u.isCalled "color") ∧
      accept? .reading (.named "color" t) t none = some (true, none) :=
  ⟨rfl, rfl, rfl⟩

end FlowTypes.Ty
