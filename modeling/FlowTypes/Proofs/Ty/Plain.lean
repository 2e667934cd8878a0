import FlowTypes.Proofs.Ty.Reflexivity

namespace FlowTypes.Ty

/-- A node of a plain type. The fields of a struct have distinct names. -/
def isPlain : Ty → Bool
  | .generic _ | .bounded .. | .nullable _ | .inter .. => false
  | .struct fs => decide (fs.map (·.name)).Nodup
  | _ => true

variable {σ : Option Bindings} {n : Bool} {a b t : Ty}

/-- A node of a simple type. The fields of a struct have distinct names. -/
def isSimple : Ty → Bool
  | .generic _ | .bounded .. | .inter .. => false
  | .nullable t => t.isShape
  | .struct fs => decide (fs.map (·.name)).Nodup
  | _ => true

theorem isSimple_of_isPlain (h : t.every isPlain) : t.every isSimple := by
  refine every_mono (fun s hs ↦ ?_) h
  have hs := every_self hs
  cases s <;> simp_all [isPlain, isSimple]

theorem generics_of_isSimple (h : t.every isSimple) : t.generics = [] := by
  induction t with
  | tuple ts ih =>
    rw [generics_tuple, List.flatMap_eq_nil_iff]
    exact fun s hs ↦ ih s hs (every_of_mem_parts h hs)
  | struct fs ih =>
    rw [generics_struct, List.flatMap_eq_nil_iff]
    exact fun f hf ↦ ih f hf (every_of_mem_parts h (List.mem_map_of_mem hf))
  | array t _ ih | list t ih | named _ t ih | nullable t ih =>
    exact ih (every_of_mem_parts h (by simp [parts]))
  | map s t ihs iht | union s t ihs iht =>
    have hs := ihs (every_of_mem_parts h (by simp [parts]))
    have ht := iht (every_of_mem_parts h (by simp [parts]))
    simp [generics, hs, ht]
  | generic | bounded | inter => simpa [isSimple] using every_self h
  | _ => rfl

theorem generics_of_isPlain (h : t.every isPlain) : t.generics = [] :=
  generics_of_isSimple (isSimple_of_isPlain h)

theorem hereditary_isPlain : Hereditary fun t ↦ t.every isPlain where
  part := every_of_mem_parts
  union h := by simpa [isPlain] using every_self h
  inter h := by simpa [isPlain] using every_self h
  generic h := by simpa [isPlain] using every_self h

theorem hereditary_isSimple : Hereditary fun t ↦ t.every isSimple where
  part := every_of_mem_parts
  union h := by simpa [isSimple, isShape] using every_self h
  inter h := by simpa [isSimple, isShape] using every_self h
  generic h := by simpa [isSimple] using every_self h

theorem isAligned_of_isSimple (h : t.every isSimple) : isAligned false t := by
  induction t with
  | union l r ihl ihr =>
    have hl := ihl (every_of_mem_parts h (by simp [parts]))
    have hr := ihr (every_of_mem_parts h (by simp [parts]))
    simp [isAligned, hl, hr]
  | nullable t =>
    have ht : isSimple (.nullable t) := every_self h
    cases t <;> simp_all [isSimple, isShape, isAligned]
  | inter => simpa [isSimple] using every_self h
  | _ => rfl

theorem regular_of_isSimple (h : t.every isSimple) : Regular t where
  ground := generics_of_isSimple h
  distinct := by
    refine every_mono (fun s hs ↦ ?_) h
    have hs := every_self hs
    cases s <;> simp_all [isSimple, hasDistinctFields]
  aligned := by
    refine every_mono (fun s hs ↦ ?_) h
    rw [hasAlignedParts, Bool.or_eq_true, List.all_eq_true]
    exact .inr fun u hu ↦ isAligned_of_isSimple (every_of_mem_parts hs hu)

theorem Receives.refl_of_isSimple (h : t.every isSimple) (σ : Option Bindings) (n : Bool) :
    Receives σ n t t := (regular_of_isSimple h).selfsame.whole (isAligned_of_isSimple h) σ n

theorem Receives.refl (h : t.every isPlain) (σ : Option Bindings) (n : Bool) :
    Receives σ n t t := .refl_of_isSimple (isSimple_of_isPlain h) σ n

inductive Widens (t : Ty) : Ty → Prop
  | refl : Widens t t
  | union {t' : Ty} (s : Ty) : Widens t t' → Widens t (.union t' s)

theorem Widens.trans {s t u : Ty} (h : Widens s t) (h' : Widens t u) : Widens s u := by
  induction h' with
  | refl => exact h
  | union r _ ih => exact .union r ih

theorem Widens.generics {s t : Ty} (h : Widens s t) (ht : t.generics = []) : s.generics = [] := by
  induction h with
  | refl => exact ht
  | union r _ ih => exact ih (List.append_eq_nil_iff.1 ht).1

theorem Widens.receives {a' : Ty} (hw : Widens a a') (h : Receives σ n a b) :
    Receives σ n a' b := by
  induction hw with
  | refl => exact h
  | union r _ ih => exact ih.inLeft r

theorem Widens.holds {s t : Ty} (hw : Widens s t) {env : Env} {value : Option Json}
    (h : holds [] env s value) : holds [] env t value := by
  induction hw with
  | refl => exact h
  | union r _ ih => simp [Ty.holds, ih]

end FlowTypes.Ty
