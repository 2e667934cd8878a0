import FlowTypes.Proofs.Ty.Verdicts

namespace FlowTypes.Ty

open Session

theorem receptive_ground : Receptive fun _ t ↦ t.generics = [] where
  part ht _ hs := generics_eq_nil_of_mem_parts ht hs
  reading ht _ hs := generics_eq_nil_of_mem_parts ht hs

/-- A receiving type without generics has nothing to resolve. -/
theorem refines_of_ground {a : Ty} (ha : a.generics = []) (fuel : Nat) (n res res' : Bool)
    (b : Ty) : Refines (acceptWithin fuel ⟨n, res⟩ a b) (acceptWithin fuel ⟨n, res'⟩ a b) := by
  rw [refines_iff_simulates]
  induction fuel generalizing n res res' a b with
  | zero => exact simulates_exhausted _ _ _ _
  | succ fuel ih =>
    apply simulates_receiveParts rfl receptive_ground
    · exact fun n a b ha ↦ ih ha n res res' b
    · exact fun a b ha ↦ ih ha false false false b
    · exact fun a _ _ l ↦ refines_iff_simulates.1 (.refl _)
    · exact ha
    · rintro _ _ (_ | _) _ rfl
      · simp [generics] at ha
      · simp [generics] at ha

theorem checkWithin_rebind {ρ τ : Bindings} {validators : Validators} {fuel : Nat} {t : Ty}
    {value : Option Json} {c : Bool} (ht : t.generics = [])
    (h : checkWithin ρ validators fuel t value = some c) :
    checkWithin τ validators t.size t value = some c := by
  rw [checkWithin_of_generics_eq_nil ht _ .empty (Nat.le_refl _), holds_of_checkWithin ht .empty h]

theorem Receives.rebind {σ τ : Option Bindings} {n : Bool} {a b : Ty} (ha : a.generics = [])
    (h : Receives σ n a b) : Receives τ n a b := by
  have hpart {s t : Ty} (ht : t.generics = []) (hs : s ∈ t.parts) : s.generics = [] :=
    generics_eq_nil_of_mem_parts ht hs
  induction h generalizing τ with
  | union _ _ ihl ihr => exact .union (ihl ha) (ihr ha)
  | nullableUnion _ _ ihl ihr => exact .nullableUnion (ihl ha) (ihr ha)
  | nullableInterLeft r _ ih => exact .nullableInterLeft r (ih ha)
  | nullableInterRight l _ ih => exact .nullableInterRight l (ih ha)
  | any hb hm => exact .any hb hm
  | generic | genericBinding | bounded | boundedBinding => simp [generics] at ha
  | nullable hb _ ih => exact .nullable hb (ih ha)
  | inter hb _ _ ihl ihr =>
    exact .inter hb (ihl (hpart ha (by simp [parts]))) (ihr (hpart ha (by simp [parts])))
  | unionLeft hb _ ih => exact .unionLeft hb (ih (hpart ha (by simp [parts])))
  | unionRight hb _ ih => exact .unionRight hb (ih (hpart ha (by simp [parts])))
  | literal h => exact .literal h
  | null hs hl => exact .null hs hl
  | checked fuel hs hl hc => exact .checked _ hs hl (checkWithin_rebind ha hc)
  | primitive p => exact .primitive p
  | ofGeneric hs _ ih => exact .ofGeneric hs (ih ha)
  | ofBounded hs _ ih => exact .ofBounded hs (ih ha)
  | emptyTuple => exact .emptyTuple
  | tuple hl h _ => exact .tuple hl h
  | array _ ih => exact .array (ih ha)
  | list _ ih => exact .list (ih ha)
  | openStruct hb => exact .openStruct hb
  | struct hb hnone hopt _ ih =>
    exact .struct hb hnone hopt fun f hf g hg ↦
      ih f hf g hg (hpart ha (List.mem_map_of_mem hf))
  | map _ _ ihk iht =>
    exact .map (ihk (hpart ha (by simp [parts]))) (iht (hpart ha (by simp [parts])))
  | tag name => exact .tag name
  | named name _ ih => exact .named name (ih ha)
  | unnamed hs hn _ ih => exact .unnamed hs hn (ih ha)
  | ofNullable hs hb _ ih => exact .ofNullable hs hb (ih ha)
  | ofInterLeft hs _ ih => exact .ofInterLeft hs (ih ha)
  | ofInterRight hs _ ih => exact .ofInterRight hs (ih ha)

theorem receives_of_ground {σ τ φ : Option Bindings} {mode : Mode} {a b : Ty} {fuel : Nat}
    (ha : a.generics = []) (h : acceptWithin fuel mode a b σ = some (true, τ)) :
    Receives φ mode.nullable a b := by
  have h' := refines_of_ground ha fuel mode.nullable mode.resolving false b _ _ h
  exact (receives_of_acceptWithin h').rebind ha

end FlowTypes.Ty
