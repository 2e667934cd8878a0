import FlowTypes.Proofs.Ty.Acyclic

namespace FlowTypes

namespace Ty

section

variable (θ : String → Option Ty)

mutual

/-- The type with its generics replaced by what stands for them. A bound is dropped with the generic
that it belongs to. -/
def subst : Ty → Ty
  | .generic name => (θ name).getD (.generic name)
  | .bounded name t => (θ name).getD (.bounded name (subst t))
  | .tuple ts => .tuple (substItems ts)
  | .array t size => .array (subst t) size
  | .list t => .list (subst t)
  | .struct fs => .struct (substFields fs)
  | .map k t => .map (subst k) (subst t)
  | .named name t => .named name (subst t)
  | .nullable t => .nullable (subst t)
  | .inter s t => .inter (subst s) (subst t)
  | .union s t => .union (subst s) (subst t)
  | t => t

def substItems : List Ty → List Ty
  | [] => []
  | t :: ts => subst t :: substItems ts

def substFields : List (Field Ty) → List (Field Ty)
  | [] => []
  | ⟨name, optional, t⟩ :: fs => ⟨name, optional, subst t⟩ :: substFields fs

end

end

end Ty

/-- What stands for the names of generics, where no more than so many bindings follow each other. -/
def Bindings.standsForWithin (bindings : Bindings) : Nat → String → Option Ty
  | 0, _ => none
  | k + 1, name => (bindings.lookup name).map (Ty.subst (bindings.standsForWithin k))

/-- What stands for the names of generics. Each binding on the way has a node at least. -/
def Bindings.standsFor (bindings : Bindings) : String → Option Ty :=
  bindings.standsForWithin bindings.size

def Ty.instantiate (bindings : Bindings) : Ty → Ty := Ty.subst bindings.standsFor

namespace Ty

variable {θ θ' : String → Option Ty} {t : Ty}

theorem substItems_eq (ts : List Ty) : substItems θ ts = ts.map (subst θ) := by
  induction ts with
  | nil => rfl
  | cons t ts ih => exact congrArg (subst θ t :: ·) ih

theorem substFields_eq (fs : List (Field Ty)) :
    substFields θ fs = fs.map fun f ↦ { f with type := subst θ f.type } := by
  induction fs with
  | nil => rfl
  | cons f fs ih => exact congrArg (_ :: ·) ih

theorem subst_congr (h : ∀ name ∈ t.generics, θ name = θ' name) : subst θ t = subst θ' t := by
  induction t with
  | generic name => simp only [subst, h name (by simp [generics])]
  | bounded name t ih =>
    simp only [subst, h name (by simp [generics]), ih fun n hn ↦ h n (by simp [generics, hn])]
  | tuple ts ih =>
    simp only [subst, substItems_eq]
    congr 1
    refine List.map_congr_left fun t ht ↦ ih t ht fun n hn ↦ h n ?_
    rw [generics_tuple]
    exact List.mem_flatMap.2 ⟨t, ht, hn⟩
  | struct fs ih =>
    simp only [subst, substFields_eq]
    congr 1
    refine List.map_congr_left fun f hf ↦ ?_
    rw [ih f hf fun n hn ↦ h n ?_]
    rw [generics_struct]
    exact List.mem_flatMap.2 ⟨f, hf, hn⟩
  | array t _ ih | list t ih | named _ t ih | nullable t ih => simp only [subst, ih h]
  | map s t ihs iht | inter s t ihs iht | union s t ihs iht =>
    simp only [subst, ihs fun n hn ↦ h n (by simp [generics, hn]),
      iht fun n hn ↦ h n (by simp [generics, hn])]
  | _ => rfl

theorem exists_of_mem_generics_subst {name : String} (h : name ∈ (subst θ t).generics) :
    ∃ other ∈ t.generics, name ∈ ((θ other).getD (.generic other)).generics := by
  induction t with
  | generic other => exact ⟨other, by simp [generics], h⟩
  | bounded other t ih =>
    simp only [subst] at h
    cases hs : θ other with
    | none =>
      rw [hs, Option.getD_none, generics] at h
      obtain rfl | h := List.mem_cons.1 h
      · exact ⟨name, by simp [generics], by simp [hs, generics]⟩
      · obtain ⟨first, hf, h⟩ := ih h
        exact ⟨first, by simp [generics, hf], h⟩
    | some s => exact ⟨other, by simp [generics], by rwa [hs] at h ⊢⟩
  | tuple ts ih =>
    rw [subst, substItems_eq, generics_tuple, List.flatMap_map, List.mem_flatMap] at h
    obtain ⟨t, ht, h⟩ := h
    obtain ⟨other, ho, h⟩ := ih t ht h
    exact ⟨other, by rw [generics_tuple]; exact List.mem_flatMap.2 ⟨t, ht, ho⟩, h⟩
  | struct fs ih =>
    rw [subst, substFields_eq, generics_struct, List.flatMap_map, List.mem_flatMap] at h
    obtain ⟨f, hf, h⟩ := h
    obtain ⟨other, ho, h⟩ := ih f hf h
    exact ⟨other, by rw [generics_struct]; exact List.mem_flatMap.2 ⟨f, hf, ho⟩, h⟩
  | array t _ ih | list t ih | named _ t ih | nullable t ih => exact ih h
  | map s t ihs iht | inter s t ihs iht | union s t ihs iht =>
    simp only [subst, generics, List.mem_append] at h ⊢
    obtain h | h := h
    · obtain ⟨other, ho, h⟩ := ihs h
      exact ⟨other, .inl ho, h⟩
    · obtain ⟨other, ho, h⟩ := iht h
      exact ⟨other, .inr ho, h⟩
  | _ => simp [subst, generics] at h

theorem all_congr {α : Type} {p q : α → Bool} {xs : List α} (h : ∀ x ∈ xs, p x = q x) :
    xs.all p = xs.all q := by
  rw [Bool.eq_iff_iff, List.all_eq_true, List.all_eq_true]
  exact forall₂_congr fun x hx ↦ by rw [h x hx]

theorem holds_subst (validators : Validators) (t : Ty) (value : Option Json) :
    holds validators .empty (subst θ t) value =
      holds validators (fun name ↦ (θ name).map (holds validators .empty)) t value := by
  induction t generalizing value with
  | generic name => simp only [subst, holds]; cases θ name <;> simp [holds, Env.empty]
  | bounded name t ih => simp only [subst, holds]; cases θ name <;> simp [holds, Env.empty, ih]
  | tuple ts ih =>
    simp only [subst, holds, substItems_eq]
    congr 1
    funext xs
    rw [holdsItems_eq, holdsItems_eq, List.length_map, List.zip_map_left, List.all_map]
    congr 1
    exact all_congr fun p hp ↦ ih p.1 (List.of_mem_zip hp).1 _
  | struct fs ih =>
    simp only [subst, holds, substFields_eq]
    congr 1
    funext members
    rw [holdsFields_eq, holdsFields_eq, List.all_map]
    exact all_congr fun f hf ↦ by simp only [Function.comp_apply, ih f hf]
  | array t size ih | list t ih | named name t ih | nullable t ih => simp only [subst, holds, ih]
  | map s t ihs iht | inter s t ihs iht | union s t ihs iht => simp only [subst, holds, ihs, iht]
  | _ => rfl

end Ty

namespace Bindings

open Ty

variable {ρ : Bindings} {name : String}

theorem depth_pos {depth : String → Nat} (h : Layered depth (some ρ)) {t : Ty}
    (hl : ρ.lookup name = some t) : 0 < depth name :=
  Nat.lt_of_lt_of_le (Nat.add_pos_left t.size_pos _) (h name t hl)

theorem depth_lt {depth : String → Nat} (h : Layered depth (some ρ)) {t : Ty} {other : String}
    (hl : ρ.lookup name = some t) (ho : other ∈ t.generics) : depth other < depth name := by
  have hb := le_beyond depth ho
  have hr : t.size + t.beyond depth ≤ depth name := h name t hl
  have hs := t.size_pos
  omega

theorem standsForWithin_of_unbound (h : ρ.lookup name = none) (k : Nat) :
    ρ.standsForWithin k name = none := by
  cases k with
  | zero => rfl
  | succ k => simp [standsForWithin, h]

theorem standsForWithin_eq {depth : String → Nat} (h : Layered depth (some ρ)) {k m : Nat}
    (hk : depth name ≤ k) (hm : depth name ≤ m) :
    ρ.standsForWithin k name = ρ.standsForWithin m name := by
  induction hd : depth name using Nat.strongRecOn generalizing name k m with
  | _ d ih =>
    cases hl : ρ.lookup name with
    | none => rw [standsForWithin_of_unbound hl, standsForWithin_of_unbound hl]
    | some t =>
      have hpos := depth_pos h hl
      obtain ⟨k, rfl⟩ : ∃ i, k = i + 1 := ⟨k - 1, by omega⟩
      obtain ⟨m, rfl⟩ : ∃ i, m = i + 1 := ⟨m - 1, by omega⟩
      rw [standsForWithin, standsForWithin, hl, Option.map_some, Option.map_some, subst_congr]
      intro other ho
      have hless := depth_lt h hl ho
      exact ih _ (by omega) (by omega) (by omega) rfl

/-- What stands for a name is what is bound to it, with all bound generics replaced. -/
theorem standsFor_eq (hρ : ρ.Acyclic) (name : String) :
    ρ.standsFor name = (ρ.lookup name).map (instantiate ρ) := by
  have hle := ρ.depth_le_size name
  calc ρ.standsFor name = ρ.standsForWithin (ρ.size + 1) name :=
        standsForWithin_eq hρ.layered hle (Nat.le_succ_of_le hle)
    _ = (ρ.lookup name).map (instantiate ρ) := rfl

end Bindings

namespace Ty

variable {ρ : Bindings} {validators : Validators}

theorem lookup_of_mem_generics_standsFor (hρ : ρ.Acyclic) {other name : String}
    (h : name ∈ ((ρ.standsFor other).getD (.generic other)).generics) : ρ.lookup name = none := by
  induction hd : ρ.depth other using Nat.strongRecOn generalizing other with
  | _ d ih =>
    rw [Bindings.standsFor_eq hρ] at h
    cases hl : ρ.lookup other with
    | none =>
      obtain rfl : name = other := by simpa [hl, generics] using h
      exact hl
    | some s =>
      rw [hl, Option.map_some, Option.getD_some] at h
      obtain ⟨first, hf, h⟩ := exists_of_mem_generics_subst h
      exact ih _ (hd ▸ Bindings.depth_lt hρ.layered hl hf) h rfl

theorem lookup_of_mem_generics (hρ : ρ.Acyclic) {name : String}
    (h : name ∈ (instantiate ρ t).generics) : ρ.lookup name = none := by
  obtain ⟨other, -, h⟩ := exists_of_mem_generics_subst h
  exact lookup_of_mem_generics_standsFor hρ h

theorem agrees_standsFor (hρ : ρ.Acyclic) (validators : Validators) (name : String) :
    Agrees ρ validators (fun other ↦ (ρ.standsFor other).map (holds validators .empty))
      (ρ.depth name) name := by
  induction hd : ρ.depth name using Nat.strongRecOn generalizing name with
  | _ d ih =>
    subst hd
    unfold Agrees
    split
    · next hl => simp [Bindings.standsFor_eq hρ, hl]
    · next t hl =>
      refine ⟨holds validators .empty (instantiate ρ t), by simp [Bindings.standsFor_eq hρ, hl], ?_⟩
      intro fuel value hf
      rw [instantiate, holds_subst]
      have hr : t.reach ρ.depth ≤ ρ.depth name := hρ.layered name t hl
      refine checkWithin_eq_holds ρ _ (t.beyond ρ.depth) (fun m hm ↦ ?_) (Nat.le_trans hr hf) value
      exact (ih _ (Bindings.depth_lt hρ.layered hl hm) m rfl).mono (le_beyond ρ.depth hm)

theorem check?_eq_holds_instantiate (hρ : ρ.Acyclic) (validators : Validators) (t : Ty)
    (value : Option Json) :
    check? ρ validators t value = some (holds validators .empty (instantiate ρ t) value) := by
  rw [instantiate, holds_subst]
  refine checkWithin_eq_holds ρ _ (t.beyond ρ.depth) (fun m hm ↦ ?_) ?_ value
  · exact (agrees_standsFor hρ validators m).mono (le_beyond ρ.depth hm)
  · have hbeyond : t.beyond ρ.depth ≤ ρ.size := beyond_le_iff.2 fun name _ ↦ ρ.depth_le_size name
    exact Nat.le_trans (Nat.add_le_add_left hbeyond _) (le_checkDepth ρ t value)

/-- To check under bindings is to check the type in which all bound generics are replaced: what
stands for a generic is its binding, in which they are replaced as well, and none is left. -/
theorem check?_instantiate (hρ : ρ.Acyclic) (validators : Validators) (t : Ty)
    (value : Option Json) :
    (∃ c, check? ρ validators t value = some c ∧
      check? [] validators (instantiate ρ t) value = some c) ∧
    (∀ name, ρ.standsFor name = (ρ.lookup name).map (instantiate ρ)) ∧
    ∀ name ∈ (instantiate ρ t).generics, ρ.lookup name = none := by
  refine ⟨⟨_, check?_eq_holds_instantiate hρ validators t value, ?_⟩, Bindings.standsFor_eq hρ,
    fun _ ↦ lookup_of_mem_generics hρ⟩
  exact check?_eq_holds _ _

theorem check?_instantiate_chain :
    let ρ : Bindings := [("T", .list (.bounded "U" (.primitive .string))),
      ("U", .bounded "V" (.generic "W")), ("W", .named "yes" (.primitive .bool))]
    let t : Ty := .bounded "T" (.primitive .bool)
    let t' : Ty := .list (.bounded "V" (.named "yes" (.primitive .bool)))
    let validators : Validators := [("yes", fun value ↦ value.any (Json.equal (.bool true)))]
    ρ.Acyclic ∧ instantiate ρ t = t' ∧
      check? ρ validators t (some (.array [.bool true, .bool false])) = some false ∧
      check? [] validators t' (some (.array [.bool true, .bool false])) = some false := by
  intro ρ t t' validators
  have hρ : ρ.Acyclic := Bindings.acyclic_of_entries
    (fun name ↦ if name = "T" then 8 else if name = "U" then 5 else if name = "W" then 2 else 0)
    (by decide)
  have hv : check? ρ validators t (some (.array [.bool true, .bool false])) = some false := rfl
  obtain ⟨c, hc, hc'⟩ :=
    (check?_instantiate hρ validators t (some (.array [.bool true, .bool false]))).1
  obtain rfl : false = c := Option.some_inj.1 (hv.symm.trans hc)
  exact ⟨hρ, rfl, hv, hc'⟩

end Ty

end FlowTypes
