import FlowTypes.Json.Basic
import FlowTypes.Proofs.Entries
import FlowTypes.Proofs.Number.Rounding

namespace FlowTypes.Json

@[elab_as_elim, induction_eliminator]
theorem induct {P : Json → Prop} (null : P .null) (bool : ∀ b, P (.bool b))
    (int : ∀ n, P (.int n)) (double : ∀ x, P (.double x)) (string : ∀ s, P (.string s))
    (array : ∀ xs, (∀ x ∈ xs, P x) → P (.array xs))
    (object : ∀ members, (∀ m ∈ members, P m.2) → P (.object members)) (v : Json) : P v := by
  refine @Json.rec P (fun xs ↦ ∀ x ∈ xs, P x) (fun ms ↦ ∀ m ∈ ms, P m.2) (fun m ↦ P m.2)
    null bool int double string array object ?_ ?_ ?_ ?_ ?_ v
  · simp
  · intro x xs hx hxs y hy
    cases hy with
    | head => exact hx
    | tail _ hy => exact hxs y hy
  · simp
  · intro m ms hm hms m' hm'
    cases hm' with
    | head => exact hm
    | tail _ hm' => exact hms m' hm'
  · exact fun _ _ h ↦ h

mutual

/-- Do integers fit 64 bits, are doubles finite, and are the names of members distinct? -/
def wellFormed : Json → Bool
  | .int n => -(twoPow 63 : Int) ≤ n && n < twoPow 64
  | .double x => x.isFinite
  | .array xs => wellFormedItems xs
  | .object members => decide (members.map (·.1)).Nodup && wellFormedMembers members
  | _ => true

def wellFormedItems : List Json → Bool
  | [] => true
  | x :: xs => wellFormed x && wellFormedItems xs

def wellFormedMembers : List (String × Json) → Bool
  | [] => true
  | (_, v) :: members => wellFormed v && wellFormedMembers members

end

@[simp] theorem wellFormed_array (xs : List Json) :
    wellFormed (.array xs) = xs.all wellFormed := by
  rw [wellFormed]
  induction xs with
  | nil => rfl
  | cons x xs ih => simp [wellFormedItems, ih]

@[simp] theorem wellFormed_object (members : List (String × Json)) :
    wellFormed (.object members) =
      (decide (members.map (·.1)).Nodup && members.all fun m ↦ wellFormed m.2) := by
  rw [wellFormed]
  congr 1
  induction members with
  | nil => rfl
  | cons m members ih => simp [wellFormedMembers, ih]

theorem wellFormed_of_get? {v w : Json} (hv : v.wellFormed) {name : String}
    (h : v.get? name = some w) : w.wellFormed := by
  cases v with
  | object members =>
    rw [wellFormed_object, Bool.and_eq_true, List.all_eq_true] at hv
    exact hv.2 _ (mem_of_lookup h)
  | _ => cases h

theorem toDouble?_isFinite {v : Json} (hv : v.wellFormed) {x : Double}
    (hx : v.toDouble? = some x) : x.isFinite := by
  cases v with
  | int n =>
    simp only [toDouble?, Option.some.injEq] at hx
    subst hx
    simp only [wellFormed, Bool.and_eq_true, decide_eq_true_eq] at hv
    apply Double.ofInt_isFinite
    have h63 : twoPow 65 = 4 * twoPow 63 := rfl
    have h64 : twoPow 64 = 2 * twoPow 63 := rfl
    have hpos := Double.twoPow_pos 63
    omega
  | double y =>
    simp only [toDouble?, Option.some.injEq] at hx
    subst hx
    exact hv
  | _ => simp [toDouble?] at hx

end FlowTypes.Json
