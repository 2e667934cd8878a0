import Mathlib.Data.List.Range
import Mathlib.Data.Prod.Lex

namespace FlowTypes

variable {ι α : Type}

/-- The values are those that are found at places of some kind, in the order of the places. -/
def Enumerates [LT ι] (at? : ι → Option α) (values : List α) : Prop :=
  ∃ places : List ι, places.Pairwise (· < ·) ∧ (∀ i, i ∈ places ↔ (at? i).isSome) ∧
    places.map at? = values.map some

theorem enumerates_getElem? (values : List α) : Enumerates (fun i : Nat ↦ values[i]?) values := by
  refine ⟨List.range values.length, List.pairwise_lt_range, fun i ↦ by simp, ?_⟩
  apply List.ext_getElem
  · simp
  · intro i hi hj
    simp

theorem enumerates_nil [LT ι] {at? : ι → Option α} (h : ∀ i, at? i = none) : Enumerates at? [] :=
  ⟨[], .nil, fun i ↦ by simp [h], rfl⟩

def later (p : Nat ×ₗ ι) : Nat ×ₗ ι := toLex ((ofLex p).1 + 1, (ofLex p).2)

theorem Enumerates.cons [LT ι] {at? : Nat ×ₗ ι → Option α} {group values : List α}
    (hfirst : Enumerates (fun i ↦ at? (toLex (0, i))) group)
    (hrest : Enumerates (fun p ↦ at? (later p)) values) : Enumerates at? (group ++ values) := by
  obtain ⟨first, hfirst, hmem, hmap⟩ := hfirst
  obtain ⟨rest, hrest, hmem', hmap'⟩ := hrest
  refine ⟨first.map (fun i ↦ toLex (0, i)) ++ rest.map later, ?_, ?_, ?_⟩
  · refine List.pairwise_append.2 ⟨?_, ?_, ?_⟩
    · exact List.pairwise_map.2 (hfirst.imp fun h ↦ by simpa [Prod.Lex.toLex_lt_toLex] using h)
    · refine List.pairwise_map.2 (hrest.imp fun h ↦ ?_)
      simpa [later, Prod.Lex.toLex_lt_toLex, Prod.Lex.lt_iff] using h
    · intro p hp q hq
      obtain ⟨i, -, rfl⟩ := List.mem_map.1 hp
      obtain ⟨r, -, rfl⟩ := List.mem_map.1 hq
      exact Prod.Lex.toLex_lt_toLex.2 (.inl (Nat.succ_pos _))
  · intro p
    obtain ⟨⟨n, i⟩, rfl⟩ := toLex.surjective p
    cases n with
    | zero => simp [later, hmem]
    | succ n =>
      have h : toLex (n, i) ∈ rest ↔ (at? (toLex (n + 1, i))).isSome := hmem' (toLex (n, i))
      simp [later, ← h]
  · rw [List.map_append, List.map_map, List.map_map, List.map_append, ← hmap, ← hmap']
    rfl

theorem enumerates_flatten [LT ι] {groups : List (List α)} {at? : Nat ×ₗ ι → Option α}
    (hgroup : ∀ n group, groups[n]? = some group → Enumerates (fun i ↦ at? (toLex (n, i))) group)
    (hnone : ∀ n i, groups[n]? = none → at? (toLex (n, i)) = none) :
    Enumerates at? groups.flatten := by
  induction groups generalizing at? with
  | nil => exact enumerates_nil fun p ↦ hnone (ofLex p).1 (ofLex p).2 rfl
  | cons group groups ih =>
    exact (hgroup 0 group rfl).cons (ih (fun n ↦ hgroup (n + 1)) fun n ↦ hnone (n + 1))

end FlowTypes
