import FlowTypes.Proofs.Ty.Parts
import FlowTypes.Ty.Conformance

namespace FlowTypes

/-- What the names of generics stand for. -/
abbrev Env := String → Option (Option Json → Bool)

def Env.empty : Env := fun _ ↦ none

/-- A property of the items of an array, which no other value has. -/
def Json.isArrayWith (p : List Json → Bool) : Option Json → Bool
  | some (.array xs) => p xs
  | _ => false

def Json.isObjectWith (p : List (String × Json) → Bool) : Option Json → Bool
  | some (.object members) => p members
  | _ => false

theorem Json.isArrayWith_mono {p q : List Json → Bool} {value : Option Json}
    (h : ∀ xs, p xs → q xs) (hv : isArrayWith p value) : isArrayWith q value := by
  unfold isArrayWith at hv
  split at hv
  · next xs => exact h xs hv
  · simp at hv

theorem Json.isObjectWith_mono {p q : List (String × Json) → Bool} {value : Option Json}
    (h : ∀ members, p members → q members) (hv : isObjectWith p value) : isObjectWith q value := by
  unfold isObjectWith at hv
  split at hv
  · next members => exact h members hv
  · simp at hv

def Json.isNull : Option Json → Bool
  | some .null => true
  | _ => false

namespace Ty

section

variable (validators : Validators) (env : Env)

mutual

/-- Does a value conform to a type? -/
def holds : Ty → Option Json → Bool
  | .literal l, value => value.any l.is
  | .primitive p, value => p.admits value
  | .generic name, value => ((env name).map (· value)).getD true
  | .bounded name t, value => ((env name).map (· value)).getD (holds t value)
  | .emptyTuple, value => Json.isArrayWith List.isEmpty value
  | .tuple ts, value => Json.isArrayWith (holdsItems ts) value
  | .array t size, value =>
    Json.isArrayWith (fun xs ↦ xs.length == size && xs.all fun x ↦ holds t (some x)) value
  | .list t, value => Json.isArrayWith (fun xs ↦ xs.all fun x ↦ holds t (some x)) value
  | .openStruct, value => Json.isObjectWith (fun _ ↦ true) value
  | .struct fs, value => Json.isObjectWith (holdsFields fs) value
  | .map k t, value =>
    Json.isObjectWith
      (fun members ↦ members.all fun m ↦ holds k (some (.string m.1)) && holds t (some m.2)) value
  | .tag name, value => validators.admits name value
  | .named name t, value => holds t value && validators.admits name value
  | .nullable t, value => Json.isNull value || holds t value
  | .inter s t, value => holds s value && holds t value
  | .union s t, value => holds s value || holds t value

def holdsItems : List Ty → List Json → Bool
  | [], [] => true
  | t :: ts, x :: xs => holds t (some x) && holdsItems ts xs
  | _, _ => false

def holdsFields : List (Field Ty) → List (String × Json) → Bool
  | [], _ => true
  | ⟨name, optional, t⟩ :: fs, members =>
    (optional && (members.lookup name).isNone || holds t (members.lookup name)) &&
      holdsFields fs members

end

end

variable {validators : Validators} {env : Env}

theorem holdsItems_eq (ts : List Ty) (xs : List Json) :
    holdsItems validators env ts xs =
      (xs.length == ts.length && (ts.zip xs).all fun p ↦ holds validators env p.1 (some p.2)) := by
  induction ts generalizing xs with
  | nil => cases xs <;> rfl
  | cons t ts ih =>
    cases xs with
    | nil => rfl
    | cons x xs => simp [holdsItems, ih, Bool.and_left_comm]

theorem holdsFields_eq (fs : List (Field Ty)) (members : List (String × Json)) :
    holdsFields validators env fs members = fs.all fun f ↦
      f.optional && (members.lookup f.name).isNone ||
        holds validators env f.type (members.lookup f.name) := by
  induction fs with
  | nil => rfl
  | cons f fs ih => simp [holdsFields, ih]

theorem allM_some {α : Type} {f : α → Option Bool} {p : α → Bool} {xs : List α}
    (h : ∀ x ∈ xs, f x = some (p x)) : xs.allM f = some (xs.all p) := by
  induction xs with
  | nil => rfl
  | cons x xs ih =>
    have hx := h x (by simp)
    have hxs := ih (fun y hy ↦ h y (by simp [hy]))
    rw [List.allM, hx, List.all_cons]
    cases p x
    · rfl
    · exact hxs

theorem match_array {f : List Json → Option Bool} {p : List Json → Bool}
    (h : ∀ xs, f xs = some (p xs)) (value : Option Json) :
    (match value with
      | some (.array xs) => f xs
      | _ => some false) = some (Json.isArrayWith p value) := by
  unfold Json.isArrayWith
  split
  · exact h _
  · rfl

theorem match_object {f : List (String × Json) → Option Bool} {p : List (String × Json) → Bool}
    (h : ∀ members, f members = some (p members)) (value : Option Json) :
    (match value with
      | some (.object members) => f members
      | _ => some false) = some (Json.isObjectWith p value) := by
  unfold Json.isObjectWith
  split
  · exact h _
  · rfl

theorem match_null {value : Option Json} {f : Option Bool} {b : Bool} (h : f = some b) :
    (match value with
      | some .null => some true
      | _ => f) = some (Json.isNull value || b) := by
  subst h
  cases value with
  | none => rfl
  | some v => cases v <;> rfl

/-- The environment gives a name the meaning of what is bound to it, and the test of what is bound
has a verdict once the fuel reaches `depth`. -/
def Agrees (bindings : Bindings) (validators : Validators) (env : Env) (depth : Nat)
    (name : String) : Prop :=
  match bindings.lookup name with
  | none => env name = none
  | some t => ∃ q, env name = some q ∧
      ∀ fuel value, depth ≤ fuel → checkWithin bindings validators fuel t value = some (q value)

theorem fuel_succ {t : Ty} {depth fuel : Nat} (hf : t.size + depth ≤ fuel) :
    ∃ n, fuel = n + 1 := by
  have := t.size_pos
  exact ⟨fuel - 1, by omega⟩

theorem checkWithin_eq_holds (bindings : Bindings) (env : Env) (depth : Nat) {t : Ty}
    (ha : ∀ name ∈ t.generics, Agrees bindings validators env depth name)
    {fuel : Nat} (hf : t.size + depth ≤ fuel) (value : Option Json) :
    checkWithin bindings validators fuel t value = some (holds validators env t value) := by
  induction t generalizing fuel value with
  | literal l | primitive p | tag name =>
    obtain ⟨fuel, rfl⟩ := fuel_succ hf
    simp only [checkWithin, holds]
  | emptyTuple =>
    obtain ⟨fuel, rfl⟩ := fuel_succ hf
    exact match_array (fun _ ↦ rfl) value
  | openStruct =>
    obtain ⟨fuel, rfl⟩ := fuel_succ hf
    exact match_object (fun _ ↦ rfl) value
  | generic name =>
    obtain ⟨fuel, rfl⟩ := fuel_succ hf
    have hname := ha name (by simp [generics])
    simp only [size] at hf
    unfold checkWithin holds
    unfold Agrees at hname
    split at hname
    · next hl => simp [hl, hname]
    · next t hl =>
      obtain ⟨q, hq, hc⟩ := hname
      simp [hl, hq, hc fuel value (by omega)]
  | bounded name t ih =>
    obtain ⟨fuel, rfl⟩ := fuel_succ hf
    have hname := ha name (by simp [generics])
    simp only [size] at hf
    have ht := ih (fun n hn ↦ ha n (by simp [generics, hn])) (show t.size + depth ≤ fuel by omega)
    unfold checkWithin holds
    unfold Agrees at hname
    split at hname
    · next hl => simp [hl, hname, ht]
    · next s hl =>
      obtain ⟨q, hq, hc⟩ := hname
      simp [hl, hq, hc fuel value (by omega)]
  | tuple ts ih =>
    obtain ⟨fuel, rfl⟩ := fuel_succ hf
    refine match_array (fun xs ↦ ?_) value
    rw [holdsItems_eq]
    split
    · next h =>
      simp only [h, beq_self_eq_true, Bool.true_and]
      apply allM_some
      intro p hp
      have hp := (List.of_mem_zip hp).1
      have hs := size_mem_tuple hp
      refine ih _ hp (fun n hn ↦ ha n ?_) (by omega) _
      rw [generics_tuple]
      exact List.mem_flatMap.2 ⟨_, hp, hn⟩
    · next h => simp [h]
  | array t n ih =>
    obtain ⟨fuel, rfl⟩ := fuel_succ hf
    simp only [size] at hf
    refine match_array (fun xs ↦ ?_) value
    split
    · next h =>
      simp only [h, beq_self_eq_true, Bool.true_and]
      exact allM_some fun x _ ↦ ih ha (by omega) _
    · next h => simp [h]
  | list t ih =>
    obtain ⟨fuel, rfl⟩ := fuel_succ hf
    simp only [size] at hf
    exact match_array (fun xs ↦ allM_some fun x _ ↦ ih ha (by omega) _) value
  | struct fs ih =>
    obtain ⟨fuel, rfl⟩ := fuel_succ hf
    refine match_object (fun members ↦ ?_) value
    rw [holdsFields_eq]
    apply allM_some
    intro f hm
    have hs := size_mem_struct hm
    have hf' (v : Option Json) :
        checkWithin bindings validators fuel f.type v = some (holds validators env f.type v) := by
      refine ih f hm (fun n hn ↦ ha n ?_) (by omega) v
      rw [generics_struct]
      exact List.mem_flatMap.2 ⟨_, hm, hn⟩
    split
    · next hl =>
      rw [hl, hf']
      cases f.optional <;> simp
    · next v hl => simp [hl, hf']
  | map k t ihk iht =>
    obtain ⟨fuel, rfl⟩ := fuel_succ hf
    simp only [size] at hf
    refine match_object (fun members ↦ allM_some fun m _ ↦ ?_) value
    rw [ihk (fun n hn ↦ ha n (by simp [generics, hn])) (show _ ≤ fuel by omega),
      iht (fun n hn ↦ ha n (by simp [generics, hn])) (show _ ≤ fuel by omega)]
    cases holds validators env k (some (.string m.1)) <;> rfl
  | named name t ih =>
    obtain ⟨fuel, rfl⟩ := fuel_succ hf
    simp only [size] at hf
    simp only [checkWithin, holds]
    rw [ih ha (show _ ≤ fuel by omega)]
    cases holds validators env t value <;> rfl
  | nullable t ih =>
    obtain ⟨fuel, rfl⟩ := fuel_succ hf
    simp only [size] at hf
    exact match_null (ih ha (by omega) value)
  | inter s t ihs iht =>
    obtain ⟨fuel, rfl⟩ := fuel_succ hf
    simp only [size] at hf
    simp only [checkWithin, holds]
    rw [ihs (fun n hn ↦ ha n (by simp [generics, hn])) (show _ ≤ fuel by omega),
      iht (fun n hn ↦ ha n (by simp [generics, hn])) (show _ ≤ fuel by omega)]
    cases holds validators env s value <;> rfl
  | union s t ihs iht =>
    obtain ⟨fuel, rfl⟩ := fuel_succ hf
    simp only [size] at hf
    simp only [checkWithin, holds]
    rw [ihs (fun n hn ↦ ha n (by simp [generics, hn])) (show _ ≤ fuel by omega),
      iht (fun n hn ↦ ha n (by simp [generics, hn])) (show _ ≤ fuel by omega)]
    cases holds validators env s value <;> rfl

theorem checkWithin_of_generics_eq_nil {t : Ty} (ht : t.generics = []) (bindings : Bindings)
    (env : Env) {fuel : Nat} (hf : t.size ≤ fuel) (value : Option Json) :
    checkWithin bindings validators fuel t value = some (holds validators env t value) :=
  checkWithin_eq_holds bindings env 0 (by simp [ht]) hf value

/-- Two environments give a name no meaning, or the second one a wider one. -/
def WidensAt (env env' : Env) (name : String) : Prop :=
  match env name, env' name with
  | none, none => True
  | some q, some q' => ∀ value, q value → q' value
  | _, _ => False

theorem holds_mono {env env' : Env} {t : Ty} (h : ∀ name ∈ t.generics, WidensAt env env' name)
    {value : Option Json} (hv : holds validators env t value) : holds validators env' t value := by
  induction t generalizing value with
  | literal | primitive | tag | emptyTuple | openStruct => exact hv
  | generic name =>
    have hname := h name (by simp [generics])
    unfold WidensAt at hname
    simp only [holds] at hv ⊢
    split at hname
    · next h₁ h₂ => simp [h₂]
    · next q q' h₁ h₂ =>
      simp only [h₁, Option.map_some, Option.getD_some] at hv
      simp [h₂, hname value hv]
    · exact hname.elim
  | bounded name t ih =>
    have hname := h name (by simp [generics])
    unfold WidensAt at hname
    simp only [holds] at hv ⊢
    split at hname
    · next h₁ h₂ =>
      simp only [h₁, h₂, Option.map_none, Option.getD_none] at hv ⊢
      exact ih (fun n hn ↦ h n (by simp [generics, hn])) hv
    · next q q' h₁ h₂ =>
      simp only [h₁, Option.map_some, Option.getD_some] at hv
      simp [h₂, hname value hv]
    · exact hname.elim
  | tuple ts ih =>
    refine Json.isArrayWith_mono (fun xs hxs ↦ ?_) hv
    simp only [holdsItems_eq, Bool.and_eq_true, List.all_eq_true] at hxs ⊢
    refine ⟨hxs.1, fun p hp ↦ ih p.1 (List.of_mem_zip hp).1 (fun n hn ↦ h n ?_) (hxs.2 p hp)⟩
    rw [generics_tuple]
    exact List.mem_flatMap.2 ⟨p.1, (List.of_mem_zip hp).1, hn⟩
  | array t m ih =>
    refine Json.isArrayWith_mono (fun xs hxs ↦ ?_) hv
    simp only [Bool.and_eq_true, List.all_eq_true] at hxs ⊢
    exact ⟨hxs.1, fun x hx ↦ ih h (hxs.2 x hx)⟩
  | list t ih =>
    refine Json.isArrayWith_mono (fun xs hxs ↦ ?_) hv
    simp only [List.all_eq_true] at hxs ⊢
    exact fun x hx ↦ ih h (hxs x hx)
  | struct fs ih =>
    refine Json.isObjectWith_mono (fun members hm ↦ ?_) hv
    simp only [holdsFields_eq, List.all_eq_true, Bool.or_eq_true] at hm ⊢
    refine fun f hf ↦ (hm f hf).imp_right (ih f hf fun n hn ↦ h n ?_)
    rw [generics_struct]
    exact List.mem_flatMap.2 ⟨f, hf, hn⟩
  | map k t ihk iht =>
    refine Json.isObjectWith_mono (fun members hms ↦ ?_) hv
    simp only [List.all_eq_true, Bool.and_eq_true] at hms ⊢
    exact fun m hm ↦ ⟨ihk (fun n hn ↦ h n (by simp [generics, hn])) (hms m hm).1,
      iht (fun n hn ↦ h n (by simp [generics, hn])) (hms m hm).2⟩
  | named name t ih =>
    simp only [holds, Bool.and_eq_true] at hv ⊢
    exact ⟨ih h hv.1, hv.2⟩
  | nullable t ih =>
    simp only [holds, Bool.or_eq_true] at hv ⊢
    exact hv.imp_right (ih h)
  | inter s t ihs iht =>
    simp only [holds, Bool.and_eq_true] at hv ⊢
    exact ⟨ihs (fun n hn ↦ h n (by simp [generics, hn])) hv.1,
      iht (fun n hn ↦ h n (by simp [generics, hn])) hv.2⟩
  | union s t ihs iht =>
    simp only [holds, Bool.or_eq_true] at hv ⊢
    exact hv.imp (ihs fun n hn ↦ h n (by simp [generics, hn]))
      (iht fun n hn ↦ h n (by simp [generics, hn]))

theorem le_checkDepth (bindings : Bindings) (t : Ty) (value : Option Json) :
    t.size + bindings.size ≤ checkDepth bindings t value := by
  have h := Nat.le_mul_of_pos_left (t.size + bindings.size + 1)
    (show 0 < (value.map Json.size).getD 0 + 1 by omega)
  unfold checkDepth
  omega

theorem check?_eq_holds (t : Ty) (value : Option Json) :
    check? [] validators t value = some (holds validators .empty t value) := by
  apply checkWithin_eq_holds [] .empty 0
  · intro name _
    exact rfl
  · exact le_checkDepth [] t value

theorem check?_of_generics_eq_nil {t : Ty} (ht : t.generics = []) (bindings : Bindings)
    (env : Env) (value : Option Json) :
    check? bindings validators t value = some (holds validators env t value) :=
  checkWithin_of_generics_eq_nil ht bindings env
    (Nat.le_of_add_right_le (le_checkDepth bindings t value)) value

theorem allM_mono {α : Type} {f g : α → Option Bool} {xs : List α} {b : Bool}
    (hfg : ∀ x ∈ xs, ∀ b, f x = some b → g x = some b) (h : xs.allM f = some b) :
    xs.allM g = some b := by
  induction xs with
  | nil => exact h
  | cons x xs ih =>
    rw [List.allM] at h ⊢
    cases hx : f x with
    | none => simp [hx] at h
    | some c =>
      rw [hx] at h
      rw [hfg x (by simp) c hx]
      cases c with
      | false => exact h
      | true => exact ih (fun y hy ↦ hfg y (by simp [hy])) h

theorem bind_mono {f g : Option Bool} {x y : Bool → Option Bool} {b : Bool}
    (hfg : ∀ c, f = some c → g = some c) (hxy : ∀ c, x c = some b → y c = some b)
    (h : f.bind x = some b) : g.bind y = some b := by
  obtain ⟨c, hf, hx⟩ := Option.bind_eq_some_iff.1 h
  exact Option.bind_eq_some_iff.2 ⟨c, hfg c hf, hxy c hx⟩

theorem match_array_mono {f g : List Json → Option Bool} {value : Option Json} {b : Bool}
    (hfg : ∀ xs, f xs = some b → g xs = some b) :
    (match value with
      | some (.array xs) => f xs
      | _ => some false) = some b →
    (match value with
      | some (.array xs) => g xs
      | _ => some false) = some b := by
  split
  · exact hfg _
  · exact id

theorem match_object_mono {f g : List (String × Json) → Option Bool} {value : Option Json}
    {b : Bool} (hfg : ∀ members, f members = some b → g members = some b) :
    (match value with
      | some (.object members) => f members
      | _ => some false) = some b →
    (match value with
      | some (.object members) => g members
      | _ => some false) = some b := by
  split
  · exact hfg _
  · exact id

theorem checkWithin_succ {bindings : Bindings} {fuel : Nat} {t : Ty} {value : Option Json}
    {b : Bool} (h : checkWithin bindings validators fuel t value = some b) :
    checkWithin bindings validators (fuel + 1) t value = some b := by
  induction fuel generalizing t value b with
  | zero => simp [checkWithin] at h
  | succ fuel ih =>
    unfold checkWithin at h ⊢
    cases t with
    | literal l | primitive p | tag name | emptyTuple | openStruct => exact h
    | generic name =>
      dsimp only at h ⊢
      split
      · next t hl =>
        simp only [hl] at h
        exact ih h
      · next hl => simpa [hl] using h
    | bounded name t => exact ih h
    | tuple ts =>
      refine match_array_mono (fun xs h ↦ ?_) h
      split at h
      · next hl =>
        rw [if_pos hl]
        exact allM_mono (fun p _ b ↦ ih) h
      · next hl => rwa [if_neg hl]
    | array t n =>
      refine match_array_mono (fun xs h ↦ ?_) h
      split at h
      · next hl =>
        rw [if_pos hl]
        exact allM_mono (fun p _ b ↦ ih) h
      · next hl => rwa [if_neg hl]
    | list t => exact match_array_mono (fun xs ↦ allM_mono fun x _ b ↦ ih) h
    | struct fs =>
      refine match_object_mono (fun members ↦ allM_mono fun f _ b h ↦ ?_) h
      split
      · next hl =>
        simp only [hl] at h
        split at h
        · next ho => rwa [if_pos ho]
        · next ho =>
          rw [if_neg ho]
          exact ih h
      · next v hl =>
        simp only [hl] at h
        exact ih h
    | map k t =>
      refine match_object_mono (fun members ↦ allM_mono fun m _ b h ↦ ?_) h
      refine bind_mono (fun c ↦ ih) (fun c h ↦ ?_) h
      cases c with
      | false => exact h
      | true => exact ih h
    | named name t => exact bind_mono (fun c ↦ ih) (fun c h ↦ h) h
    | nullable t =>
      cases value with
      | none => exact ih h
      | some v =>
        cases v with
        | null => exact h
        | _ => exact ih h
    | inter l r =>
      refine bind_mono (fun c ↦ ih) (fun c h ↦ ?_) h
      cases c with
      | false => exact h
      | true => exact ih h
    | union l r =>
      refine bind_mono (fun c ↦ ih) (fun c h ↦ ?_) h
      cases c with
      | false => exact ih h
      | true => exact h

theorem checkWithin_mono {bindings : Bindings} {fuel fuel' : Nat} {t : Ty} {value : Option Json}
    {b : Bool} (hf : fuel ≤ fuel') (h : checkWithin bindings validators fuel t value = some b) :
    checkWithin bindings validators fuel' t value = some b := by
  induction hf with
  | refl => exact h
  | step _ ih => exact checkWithin_succ ih

theorem checkWithin_unique {bindings : Bindings} {fuel fuel' : Nat} {t : Ty}
    {value : Option Json} {b b' : Bool} (h : checkWithin bindings validators fuel t value = some b)
    (h' : checkWithin bindings validators fuel' t value = some b') : b = b' := by
  have h₁ := checkWithin_mono (Nat.le_max_left fuel fuel') h
  have h₂ := checkWithin_mono (Nat.le_max_right fuel fuel') h'
  exact Option.some_inj.1 (h₁.symm.trans h₂)

theorem holds_of_checkWithin {bindings : Bindings} {fuel : Nat} {t : Ty} {value : Option Json}
    {b : Bool} (ht : t.generics = []) (env : Env)
    (h : checkWithin bindings validators fuel t value = some b) :
    holds validators env t value = b :=
  checkWithin_unique (checkWithin_of_generics_eq_nil ht bindings env (Nat.le_refl _) value) h

end Ty

end FlowTypes
