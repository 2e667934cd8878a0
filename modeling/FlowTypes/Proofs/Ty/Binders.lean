import FlowTypes.Proofs.Ty.Failure
import FlowTypes.Proofs.Ty.Growth

namespace FlowTypes.Ty

open Session

mutual

/-- The names of the generics in a type, those in tuples, arrays, lists and maps left out. -/
def binders : Ty → List String
  | .generic name => [name]
  | .bounded name t => name :: binders t
  | .named _ t | .nullable t => binders t
  | .struct fs => bindersOfFields fs
  | .inter s t | .union s t => binders s ++ binders t
  | _ => []

def bindersOfFields : List (Field Ty) → List String
  | [] => []
  | ⟨_, _, t⟩ :: fs => binders t ++ bindersOfFields fs

end

variable {s t : Ty}

theorem binders_struct (fs : List (Field Ty)) :
    binders (.struct fs) = fs.flatMap fun f ↦ binders f.type := by
  change bindersOfFields fs = _
  induction fs with
  | nil => rfl
  | cons f fs ih => exact congrArg (binders f.type ++ ·) ih

theorem binders_subset_of_mem_parts (ht : t.readsParts = false) (hs : s ∈ t.parts) :
    s.binders ⊆ t.binders := by
  cases t with
  | struct fs =>
    obtain ⟨f, hf, rfl⟩ := List.mem_map.1 hs
    rw [binders_struct]
    exact fun name hn ↦ List.mem_flatMap.2 ⟨f, hf, hn⟩
  | bounded name t =>
    obtain rfl := List.mem_singleton.1 hs
    exact List.subset_cons_self _ _
  | named _ t | nullable t =>
    obtain rfl := List.mem_singleton.1 hs
    exact List.Subset.refl _
  | inter l r | union l r =>
    obtain rfl | rfl := eq_or_eq_of_mem hs
    · exact List.subset_append_left _ _
    · exact List.subset_append_right _ _
  | tuple | array | list | map => simp [readsParts] at ht
  | _ => exact absurd hs List.not_mem_nil

theorem binders_subset_generics (t : Ty) : t.binders ⊆ t.generics := by
  induction t with
  | struct fs ih =>
    rw [binders_struct, generics_struct]
    intro name hn
    obtain ⟨f, hf, hn⟩ := List.mem_flatMap.1 hn
    exact List.mem_flatMap.2 ⟨f, hf, ih f hf hn⟩
  | bounded name t ih => exact List.cons_subset_cons name ih
  | named _ t ih | nullable t ih => exact ih
  | inter l r ihl ihr | union l r ihl ihr =>
    exact List.append_subset.2 ⟨List.subset_append_of_subset_left _ ihl,
      List.subset_append_of_subset_right _ ihr⟩
  | generic name => exact List.Subset.refl _
  | _ => exact List.nil_subset _

theorem binders_of_readsParts (ht : t.readsParts) : t.binders = [] := by
  cases t <;> simp_all [readsParts, binders]

/-- All that the type can bind while generics are resolved has one of these names. -/
def BindsOnly (names : List String) (res : Bool) (t : Ty) : Prop := res → t.binders ⊆ names

theorem receptive_bindsOnly (names : List String) : Receptive (BindsOnly names) where
  part h ht hs hres := List.Subset.trans (binders_subset_of_mem_parts ht hs) (h hres)
  reading _ _ _ hres := by simp at hres

theorem BindsOnly.mem {names : List String} {name : String} {bound : Option Ty}
    (h : BindsOnly names true (bound.elim (.generic name) (.bounded name))) : name ∈ names := by
  apply h rfl
  cases bound <;> simp [binders]

/-- What is bound to any other name stays as it is, and no type with generics comes in. -/
def Rebinds (names : List String) (σ τ : Option Bindings) : Prop :=
  ∀ ρ ∈ σ, ρ.Closed → ∃ υ ∈ τ, υ.Closed ∧ ∀ name ∉ names, υ.lookup name = ρ.lookup name

variable {names : List String}

theorem along_rebinds (names : List String) : Along (Rebinds names) where
  refl σ ρ hρ hc := ⟨ρ, hρ, hc, fun _ _ ↦ rfl⟩
  trans h h' ρ hρ hc := by
    obtain ⟨υ, hυ, hc, he⟩ := h ρ hρ hc
    obtain ⟨φ, hφ, hc, he'⟩ := h' υ hυ hc
    exact ⟨φ, hφ, hc, fun name hn ↦ (he' name hn).trans (he name hn)⟩

theorem rebinds_assign {name : String} (hname : name ∈ names) (ht : t.generics = []) :
    Moves (Rebinds names) (assign name t) := by
  rintro σ c τ h ρ hρ hc
  obtain rfl : σ = some ρ := hρ
  obtain rfl : some (ρ.put name t) = τ := congrArg Prod.snd (Option.some_inj.1 h)
  refine ⟨_, rfl, hc.put ht name, fun other ho ↦ ?_⟩
  apply lookup_put_of_ne
  rintro rfl
  exact ho hname

theorem rebinds_receiveGeneric {go : Mode → Ty → Ty → Session Bool} {b : Ty} (hb : b.generics = [])
    (hgo : ∀ n a, BindsOnly names true a → Moves (Rebinds names) (go ⟨n, true⟩ a b)) (n : Bool)
    (name : String) (bound : Option Ty)
    (ha : BindsOnly names true (bound.elim (.generic name) (.bounded name))) :
    Moves (Rebinds names) (receiveGeneric go ⟨n, true⟩ name bound b) := by
  have hname : name ∈ names := ha.mem
  have hbound : Moves (Rebinds names) (receiveBound go ⟨n, true⟩ bound b) := by
    refine moves_receiveBound (along_rebinds names) fun t ht ↦ hgo n t fun _ ↦ ?_
    obtain rfl : bound = some t := ht
    exact List.Subset.trans (List.subset_cons_self name t.binders) (ha rfl)
  rintro σ c τ h ρ hρ hc
  obtain rfl : σ = some ρ := hρ
  have hbind : Moves (Rebinds names) (bindOrWiden go n name b (ρ.lookup name)) := by
    cases hl : ρ.lookup name with
    | none => exact rebinds_assign hname hb
    | some old =>
      have hold : old.generics = [] := hc _ (mem_of_lookup hl)
      have hground : old.binders = [] := List.subset_nil.1 (hold ▸ binders_subset_generics old)
      have hgo := hgo n old fun _ ↦ by simp [hground]
      exact hgo.either (along_rebinds names) (rebinds_assign hname (by simp [generics, hold, hb]))
  rw [receiveGeneric_resolving] at h
  exact Moves.both (along_rebinds names) hbound hbind _ _ _ h ρ rfl hc

theorem rebinds_acceptWithin {mode : Mode} {a b : Ty} (ha : BindsOnly names mode.resolving a)
    (hb : b.generics = []) (fuel : Nat) : Moves (Rebinds names) (acceptWithin fuel mode a b) :=
  moves_acceptWithin (along_rebinds names) (receptive_bindsOnly names) hereditary_ground
    rebinds_receiveGeneric fuel mode ha hb

theorem readsOnly_of_binders {a : Ty} (ha : a.binders = []) (fuel : Nat) (mode : Mode) (b : Ty) :
    ReadsOnly (acceptWithin fuel mode a b) := by
  have ha : BindsOnly [] mode.resolving a := fun _ ↦ by simp [ha]
  apply moves_acceptWithin along_eq (receptive_bindsOnly []) hereditary_true ?_ fuel mode ha trivial
  intro go b _ _ n name bound hname
  exact absurd hname.mem List.not_mem_nil

/-- Whatever verdict a match reaches, and at whatever depth, it binds nothing if it only reads, and
else only the generics of the receiving type that it can bind: so none that stand in the parts of
tuples, arrays, lists and maps. -/
theorem acceptWithin_binds_only (fuel : Nat) (n c : Bool) (a b : Ty) :
    (∀ σ τ, acceptWithin fuel ⟨n, false⟩ a b σ = some (c, τ) → τ = σ) ∧
    (∀ ρ τ, b.generics = [] → ρ.Closed →
      acceptWithin fuel ⟨n, true⟩ a b (some ρ) = some (c, τ) →
      ∃ υ, τ = some υ ∧ ∀ name, υ.lookup name ≠ ρ.lookup name → name ∈ a.binders) ∧
    ∀ σ τ, a.readsParts → acceptWithin fuel ⟨n, true⟩ a b σ = some (c, τ) → τ = σ := by
  refine ⟨fun σ τ h ↦ ?_, fun ρ τ hb hρ h ↦ ?_, fun σ τ ha h ↦ ?_⟩
  · exact acceptWithin_readsOnly fuel n a b σ c τ h
  · have hself : BindsOnly a.binders true a := fun _ ↦ List.Subset.refl _
    obtain ⟨υ, hυ, -, hkept⟩ := rebinds_acceptWithin hself hb fuel _ c τ h ρ rfl hρ
    refine ⟨υ, hυ, fun name hne ↦ ?_⟩
    by_contra hn
    exact hne (hkept name hn)
  · exact readsOnly_of_binders (binders_of_readsParts ha) fuel _ b σ c τ h

theorem acceptWithin_binds_only_fields :
    let receiving : Ty := .struct [⟨"a", false, .bounded "T" (.named "x" (.generic "U"))⟩,
      ⟨"b", false, .tuple [.generic "V"]⟩, ⟨"c", true, .list (.generic "W")⟩]
    let received : Ty := .struct [⟨"a", false, .named "x" (.primitive .int)⟩,
      ⟨"b", false, .tuple [.primitive .bool]⟩, ⟨"c", false, .list (.primitive .char)⟩]
    let before : Bindings := [("T", .primitive .string), ("V", .primitive .void)]
    let after : Bindings := [("T", .union (.primitive .string) (.named "x" (.primitive .int))),
      ("V", .primitive .void), ("U", .primitive .int)]
    accept? .resolve receiving received (some before) = some (true, some after) ∧
      ∀ name, after.lookup name ≠ before.lookup name → name ∈ ["T", "U"] := by
  intro receiving received before after
  have h : accept? .resolve receiving received (some before) = some (true, some after) := rfl
  have hbefore : before.Closed := by simp [before, Bindings.Closed, generics]
  obtain ⟨υ, hυ, hbinds⟩ :=
    (acceptWithin_binds_only _ false true receiving received).2.1 before _ rfl hbefore h
  obtain rfl := Option.some_inj.1 hυ
  exact ⟨h, hbinds⟩

end FlowTypes.Ty
