import FlowTypes.Ty.Basic

namespace FlowTypes.Ty

/-- Induction over types, where the parts of a tuple or a struct are those in its list. -/
@[elab_as_elim, induction_eliminator]
theorem induct {P : Ty → Prop}
    (literal : ∀ l, P (.literal l))
    (primitive : ∀ p, P (.primitive p))
    (generic : ∀ name, P (.generic name))
    (bounded : ∀ name t, P t → P (.bounded name t))
    (emptyTuple : P .emptyTuple)
    (tuple : ∀ ts, (∀ t ∈ ts, P t) → P (.tuple ts))
    (array : ∀ t n, P t → P (.array t n))
    (list : ∀ t, P t → P (.list t))
    (openStruct : P .openStruct)
    (struct : ∀ fs, (∀ f ∈ fs, P f.type) → P (.struct fs))
    (map : ∀ k t, P k → P t → P (.map k t))
    (tag : ∀ name, P (.tag name))
    (named : ∀ name t, P t → P (.named name t))
    (nullable : ∀ t, P t → P (.nullable t))
    (inter : ∀ s t, P s → P t → P (.inter s t))
    (union : ∀ s t, P s → P t → P (.union s t)) (t : Ty) : P t := by
  refine @Ty.rec P (fun ts ↦ ∀ t ∈ ts, P t) (fun fs ↦ ∀ f ∈ fs, P f.type) (fun f ↦ P f.type)
    literal primitive generic bounded emptyTuple tuple array list openStruct struct map tag named
    nullable inter union ?_ ?_ ?_ ?_ ?_ t
  · simp
  · intro t ts ht hts s hs
    cases hs with
    | head => exact ht
    | tail _ hs => exact hts s hs
  · simp
  · intro f fs hf hfs g hg
    cases hg with
    | head => exact hf
    | tail _ hg => exact hfs g hg
  · exact fun _ _ _ h ↦ h

section

variable (p : Ty → Bool)

mutual

def every (t : Ty) : Bool :=
  p t && match t with
    | .bounded _ s | .array s _ | .list s | .named _ s | .nullable s => every s
    | .tuple ts => everyItem ts
    | .struct fs => everyField fs
    | .map a b | .inter a b | .union a b => every a && every b
    | _ => true

def everyItem : List Ty → Bool
  | [] => true
  | t :: ts => every t && everyItem ts

def everyField : List (Field Ty) → Bool
  | [] => true
  | ⟨_, _, t⟩ :: fs => every t && everyField fs

end

end

variable {p : Ty → Bool}

theorem everyItem_eq (ts : List Ty) : everyItem p ts = ts.all (every p) := by
  induction ts with
  | nil => rfl
  | cons t ts ih => exact congrArg (every p t && ·) ih

theorem everyField_eq (fs : List (Field Ty)) : everyField p fs = fs.all fun f ↦ every p f.type := by
  induction fs with
  | nil => rfl
  | cons f fs ih => exact congrArg (every p f.type && ·) ih

theorem every_self {t : Ty} (h : every p t) : p t := by
  cases t <;> exact (Bool.and_eq_true_iff.1 h).1

@[simp] theorem every_bounded (name : String) (t : Ty) :
    every p (.bounded name t) = (p (.bounded name t) && every p t) := rfl

@[simp] theorem every_tuple (ts : List Ty) :
    every p (.tuple ts) = (p (.tuple ts) && ts.all (every p)) :=
  congrArg (p (.tuple ts) && ·) (everyItem_eq ts)

@[simp] theorem every_array (t : Ty) (n : Nat) :
    every p (.array t n) = (p (.array t n) && every p t) := rfl

@[simp] theorem every_list (t : Ty) : every p (.list t) = (p (.list t) && every p t) := rfl

@[simp] theorem every_struct (fs : List (Field Ty)) :
    every p (.struct fs) = (p (.struct fs) && fs.all fun f ↦ every p f.type) :=
  congrArg (p (.struct fs) && ·) (everyField_eq fs)

@[simp] theorem every_map (k t : Ty) :
    every p (.map k t) = (p (.map k t) && (every p k && every p t)) := rfl

@[simp] theorem every_named (name : String) (t : Ty) :
    every p (.named name t) = (p (.named name t) && every p t) := rfl

@[simp] theorem every_nullable (t : Ty) :
    every p (.nullable t) = (p (.nullable t) && every p t) := rfl

@[simp] theorem every_inter (s t : Ty) :
    every p (.inter s t) = (p (.inter s t) && (every p s && every p t)) := rfl

@[simp] theorem every_union (s t : Ty) :
    every p (.union s t) = (p (.union s t) && (every p s && every p t)) := rfl

mutual

/-- The names of the generics in a type, those in bounds included. -/
def generics : Ty → List String
  | .generic name => [name]
  | .bounded name t => name :: generics t
  | .array t _ | .list t | .named _ t | .nullable t => generics t
  | .tuple ts => genericsOfItems ts
  | .struct fs => genericsOfFields fs
  | .map a b | .inter a b | .union a b => generics a ++ generics b
  | _ => []

def genericsOfItems : List Ty → List String
  | [] => []
  | t :: ts => generics t ++ genericsOfItems ts

def genericsOfFields : List (Field Ty) → List String
  | [] => []
  | ⟨_, _, t⟩ :: fs => generics t ++ genericsOfFields fs

end

theorem generics_tuple (ts : List Ty) : generics (.tuple ts) = ts.flatMap generics := by
  change genericsOfItems ts = _
  induction ts with
  | nil => rfl
  | cons t ts ih => exact congrArg (generics t ++ ·) ih

theorem generics_struct (fs : List (Field Ty)) :
    generics (.struct fs) = fs.flatMap fun f ↦ generics f.type := by
  change genericsOfFields fs = _
  induction fs with
  | nil => rfl
  | cons f fs ih => exact congrArg (generics f.type ++ ·) ih

theorem size_mem_tuple {t : Ty} {ts : List Ty} (h : t ∈ ts) : t.size < (Ty.tuple ts).size := by
  induction h with
  | head ts => exact Nat.lt_succ_of_le (Nat.le_add_right _ _)
  | tail s _ ih =>
    exact Nat.lt_of_lt_of_le ih (Nat.succ_le_succ (Nat.le_add_left _ _))

theorem size_mem_struct {f : Field Ty} {fs : List (Field Ty)} (h : f ∈ fs) :
    f.type.size < (Ty.struct fs).size := by
  induction h with
  | head fs => exact Nat.lt_succ_of_le (Nat.le_add_right _ _)
  | tail g _ ih =>
    exact Nat.lt_of_lt_of_le ih (Nat.succ_le_succ (Nat.le_add_left _ _))

theorem size_pos (t : Ty) : 0 < t.size := by cases t <;> exact Nat.succ_pos _

def parts : Ty → List Ty
  | .bounded _ t | .array t _ | .list t | .named _ t | .nullable t => [t]
  | .tuple ts => ts
  | .struct fs => fs.map (·.type)
  | .map s t | .inter s t | .union s t => [s, t]
  | _ => []

theorem eq_or_eq_of_mem {s k t : Ty} (h : s ∈ [k, t]) : s = k ∨ s = t := by simpa using h

theorem every_iff {p : Ty → Bool} {t : Ty} : every p t ↔ p t ∧ ∀ s ∈ t.parts, every p s := by
  cases t with
  | tuple ts => simp [parts]
  | struct fs => simp [parts]
  | bounded | array | list | named | nullable | map | inter | union => simp [parts]
  | _ =>
    refine ⟨fun h ↦ ⟨every_self h, fun s hs ↦ absurd hs List.not_mem_nil⟩, fun h ↦ ?_⟩
    exact Bool.and_eq_true_iff.2 ⟨h.1, rfl⟩

theorem every_of_mem_parts {p : Ty → Bool} {s t : Ty} (ht : every p t) (h : s ∈ t.parts) :
    every p s := (every_iff.1 ht).2 s h

theorem every_mono {p q : Ty → Bool} (h : ∀ t, every p t → q t) {t : Ty} (ht : every p t) :
    every q t := by
  induction t with
  | tuple ts ih => exact every_iff.2 ⟨h _ ht, fun s hs ↦ ih s hs (every_of_mem_parts ht hs)⟩
  | struct fs ih =>
    refine every_iff.2 ⟨h _ ht, fun s hs ↦ ?_⟩
    obtain ⟨f, hf, rfl⟩ := List.mem_map.1 hs
    exact ih f hf (every_of_mem_parts ht hs)
  | bounded _ t ih | array t _ ih | list t ih | named _ t ih | nullable t ih =>
    refine every_iff.2 ⟨h _ ht, fun s hs ↦ ?_⟩
    obtain rfl := List.mem_singleton.1 hs
    exact ih (every_of_mem_parts ht hs)
  | map s t ihs iht | inter s t ihs iht | union s t ihs iht =>
    refine every_iff.2 ⟨h _ ht, fun u hu ↦ ?_⟩
    obtain rfl | rfl := eq_or_eq_of_mem hu
    · exact ihs (every_of_mem_parts ht hu)
    · exact iht (every_of_mem_parts ht hu)
  | _ => exact every_iff.2 ⟨h _ ht, fun s hs ↦ absurd hs List.not_mem_nil⟩

theorem size_lt_of_mem_parts {s t : Ty} (h : s ∈ t.parts) : s.size < t.size := by
  cases t with
  | tuple ts => exact size_mem_tuple h
  | struct fs =>
    obtain ⟨f, hf, rfl⟩ := List.mem_map.1 h
    exact size_mem_struct hf
  | bounded _ t | array t _ | list t | named _ t | nullable t =>
    obtain rfl := List.mem_singleton.1 h
    exact Nat.lt_succ_self _
  | map k t | inter k t | union k t =>
    obtain rfl | rfl := eq_or_eq_of_mem h
    · exact Nat.lt_succ_of_le (Nat.le_add_right _ _)
    · exact Nat.lt_succ_of_le (Nat.le_add_left _ _)
  | _ => exact absurd h List.not_mem_nil

theorem generics_sublist_of_mem_parts {s t : Ty} (h : s ∈ t.parts) :
    s.generics.Sublist t.generics := by
  cases t with
  | tuple ts =>
    rw [generics_tuple]
    exact List.sublist_flatten_of_mem (List.mem_map_of_mem h)
  | struct fs =>
    obtain ⟨f, hf, rfl⟩ := List.mem_map.1 h
    rw [generics_struct]
    exact List.sublist_flatten_of_mem (List.mem_map_of_mem hf)
  | bounded name t =>
    obtain rfl := List.mem_singleton.1 h
    exact List.sublist_cons_self _ _
  | map k t | inter k t | union k t =>
    obtain rfl | rfl := eq_or_eq_of_mem h
    · exact List.sublist_append_left _ _
    · exact List.sublist_append_right _ _
  | array t _ | list t | named _ t | nullable t =>
    obtain rfl := List.mem_singleton.1 h
    exact List.Sublist.refl _
  | _ => exact absurd h List.not_mem_nil

theorem generics_eq_nil_of_mem_parts {s t : Ty} (ht : t.generics = []) (h : s ∈ t.parts) :
    s.generics = [] := List.sublist_nil.1 (ht ▸ generics_sublist_of_mem_parts h)

mutual

def height : Ty → Nat
  | .literal _ | .primitive _ | .generic _ | .emptyTuple | .openStruct | .tag _ => 1
  | .bounded _ t | .array t _ | .list t | .named _ t | .nullable t => height t + 1
  | .tuple ts => heightOfItems ts + 1
  | .struct fs => heightOfFields fs + 1
  | .map a b | .inter a b | .union a b => max (height a) (height b) + 1

def heightOfItems : List Ty → Nat
  | [] => 0
  | t :: ts => max (height t) (heightOfItems ts)

def heightOfFields : List (Field Ty) → Nat
  | [] => 0
  | ⟨_, _, t⟩ :: fs => max (height t) (heightOfFields fs)

end

theorem height_pos (t : Ty) : 0 < t.height := by cases t <;> exact Nat.succ_pos _

theorem height_le_of_mem_items {t : Ty} {ts : List Ty} (h : t ∈ ts) :
    t.height ≤ heightOfItems ts := by
  induction h with
  | head ts => exact Nat.le_max_left _ _
  | tail s _ ih => exact Nat.le_trans ih (Nat.le_max_right _ _)

theorem height_le_of_mem_fields {f : Field Ty} {fs : List (Field Ty)} (h : f ∈ fs) :
    f.type.height ≤ heightOfFields fs := by
  induction h with
  | head fs => exact Nat.le_max_left _ _
  | tail g _ ih => exact Nat.le_trans ih (Nat.le_max_right _ _)

theorem height_lt_of_mem_parts {s t : Ty} (h : s ∈ t.parts) : s.height < t.height := by
  cases t with
  | tuple ts => exact Nat.lt_succ_of_le (height_le_of_mem_items h)
  | struct fs =>
    obtain ⟨f, hf, rfl⟩ := List.mem_map.1 h
    exact Nat.lt_succ_of_le (height_le_of_mem_fields hf)
  | bounded _ t | array t _ | list t | named _ t | nullable t =>
    obtain rfl := List.mem_singleton.1 h
    exact Nat.lt_succ_self _
  | map k t | inter k t | union k t =>
    obtain rfl | rfl := eq_or_eq_of_mem h
    · exact Nat.lt_succ_of_le (Nat.le_max_left _ _)
    · exact Nat.lt_succ_of_le (Nat.le_max_right _ _)
  | _ => exact absurd h List.not_mem_nil

end FlowTypes.Ty
