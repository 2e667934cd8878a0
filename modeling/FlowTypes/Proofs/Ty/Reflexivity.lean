import FlowTypes.Proofs.Ty.Verdicts

namespace FlowTypes.Ty

variable {σ : Option Bindings} {n : Bool} {a b l r s t : Ty}

@[elab_as_elim]
theorem splitInduct {P : Ty → Prop} (piece : ∀ b, b.splits = false → P b)
    (union : ∀ l r, P l → P r → P (.union l r))
    (nullableUnion : ∀ l r, P (.nullable l) → P (.nullable r) → P (.nullable (.union l r)))
    (nullableInter : ∀ l r, P (.nullable l) → P (.nullable r) → P (.nullable (.inter l r)))
    (b : Ty) : P b := by
  suffices h : P b ∧ P (.nullable b) from h.1
  induction b with
  | union l r ihl ihr => exact ⟨union l r ihl.1 ihr.1, nullableUnion l r ihl.2 ihr.2⟩
  | inter l r ihl ihr => exact ⟨piece _ rfl, nullableInter l r ihl.2 ihr.2⟩
  | nullable t ih => exact ⟨ih.2, piece _ rfl⟩
  | _ => exact ⟨piece _ rfl, piece _ rfl⟩

namespace Receives

theorem welcome (h : Receives σ n a b) : Receives σ true a b := by
  induction h with
  | union _ _ ihl ihr => exact .union ihl ihr
  | nullableUnion _ _ ihl ihr => exact .nullableUnion ihl ihr
  | nullableInterLeft r _ ih => exact .nullableInterLeft r ih
  | nullableInterRight l _ ih => exact .nullableInterRight l ih
  | any hs hm => exact .any hs hm
  | generic hs hl => exact .generic hs hl
  | genericBinding hs hl _ ih => exact .genericBinding hs hl ih
  | bounded hs hl _ ih => exact .bounded hs hl ih
  | boundedBinding hs hl _ ih => exact .boundedBinding hs hl ih
  | nullable hs h _ => exact .nullable hs h
  | inter hs _ _ ihl ihr => exact .inter hs ihl ihr
  | unionLeft hs _ ih => exact .unionLeft hs (by simpa using ih)
  | unionRight hs _ ih => exact .unionRight hs (by simpa using ih)
  | literal h => exact .literal h
  | null ha hl => exact .null ha hl
  | checked fuel ha hl hc => exact .checked fuel ha hl hc
  | primitive p => exact .primitive p
  | ofGeneric ha _ ih => exact .ofGeneric ha ih
  | ofBounded ha _ ih => exact .ofBounded ha ih
  | emptyTuple => exact .emptyTuple
  | tuple hl h _ => exact .tuple hl h
  | array h _ => exact .array h
  | list h _ => exact .list h
  | openStruct hb => exact .openStruct hb
  | struct hb hnone hopt _ ih => exact .struct hb hnone hopt ih
  | map hk ht _ _ => exact .map hk ht
  | tag name => exact .tag name
  | named name _ ih => exact .named name ih
  | unnamed ha hn _ ih => exact .unnamed ha hn ih
  | ofNullable ha hs _ ih => exact .ofNullable ha hs ih
  | ofInterLeft ha _ ih => exact .ofInterLeft ha (by simpa using ih)
  | ofInterRight ha _ ih => exact .ofInterRight ha (by simpa using ih)

theorem welcome_of {m : Bool} (h : Receives σ n a b) (hm : n → m) : Receives σ m a b := by
  cases m with
  | false =>
    obtain rfl : n = false := by simpa using hm
    exact h
  | true => exact h.welcome

theorem welcome_or (h : Receives σ n a b) (c : Bool) : Receives σ (n || c) a b :=
  h.welcome_of (by simp_all)

theorem of_receivedUnion (h : Receives σ n a (.union l r)) :
    Receives σ n a l ∧ Receives σ n a r := by
  cases h with
  | union hl hr => exact ⟨hl, hr⟩
  | _ => simp_all [splits, fields?]

theorem of_receivedNullableUnion (h : Receives σ n a (.nullable (.union l r))) :
    Receives σ n a (.nullable l) ∧ Receives σ n a (.nullable r) := by
  cases h with
  | nullableUnion hl hr => exact ⟨hl, hr⟩
  | _ => simp_all [splits, fields?]

theorem of_receivedNullableInter (h : Receives σ n a (.nullable (.inter l r))) :
    Receives σ n a (.nullable l) ∨ Receives σ n a (.nullable r) := by
  cases h with
  | nullableInterLeft _ h => exact .inl h
  | nullableInterRight _ h => exact .inr h
  | _ => simp_all [splits, fields?]

theorem of_bounded {name : String} (hb : b.splits = false)
    (h : Receives none n (.bounded name t) b) : Receives none n t b := by
  cases h with
  | bounded _ _ h => exact h
  | boundedBinding _ hl _ => cases hl
  | _ => simp_all [splits, isShape]

theorem of_nullable (hb : b.splits = false) (h : Receives σ n (.nullable a) b) :
    Receives σ true a b := by
  cases h with
  | nullable _ h => exact h
  | _ => simp_all [splits, isShape]

theorem of_inter (hb : b.splits = false) (h : Receives σ n (.inter l r) b) :
    Receives σ n l b ∧ Receives σ n r b := by
  cases h with
  | inter _ hl hr => exact ⟨hl, hr⟩
  | _ => simp_all [isShape, splits]

theorem of_union (hb : b.splits = false) (h : Receives σ n (.union l r) b) :
    Receives σ (n || (l.isNullable || r.isNullable)) l b ∨
      Receives σ (n || (l.isNullable || r.isNullable)) r b := by
  cases h with
  | unionLeft _ h => exact .inl h
  | unionRight _ h => exact .inr h
  | _ => simp_all [isShape, splits]

theorem of_pieces {τ : Option Bindings} {m : Bool} {c : Ty}
    (piece : ∀ b, b.splits = false → Receives σ n a b → Receives τ m c b)
    (h : Receives σ n a b) : Receives τ m c b := by
  induction b using splitInduct with
  | piece b hb => exact piece b hb h
  | union l r ihl ihr =>
    obtain ⟨hl, hr⟩ := h.of_receivedUnion
    exact .union (ihl hl) (ihr hr)
  | nullableUnion l r ihl ihr =>
    obtain ⟨hl, hr⟩ := h.of_receivedNullableUnion
    exact .nullableUnion (ihl hl) (ihr hr)
  | nullableInter l r ihl ihr =>
    rcases h.of_receivedNullableInter with hl | hr
    · exact .nullableInterLeft r (ihl hl)
    · exact .nullableInterRight l (ihr hr)

theorem inLeft (h : Receives σ n a b) (s : Ty) : Receives σ n (.union a s) b :=
  h.of_pieces fun _ hb h ↦ .unionLeft hb (h.welcome_or _)

theorem inRight (h : Receives σ n a b) (s : Ty) : Receives σ n (.union s a) b :=
  h.of_pieces fun _ hb h ↦ .unionRight hb (h.welcome_or _)

theorem inNullable (h : Receives σ n a b) : Receives σ n (.nullable a) b :=
  h.of_pieces fun _ hb h ↦ .nullable hb h.welcome

theorem inNullableLeft (h : Receives σ n (.nullable a) b) (s : Ty) :
    Receives σ n (.nullable (.union a s)) b := by
  apply h.of_pieces
  intro b hb h
  exact .nullable hb ((h.of_nullable hb).inLeft s)

theorem inNullableRight (h : Receives σ n (.nullable a) b) (s : Ty) :
    Receives σ n (.nullable (.union s a)) b := by
  apply h.of_pieces
  intro b hb h
  exact .nullable hb ((h.of_nullable hb).inRight s)

end Receives

def isFirm : Ty → Bool
  | .union .. => false
  | .nullable t => isFirm t
  | .inter l r => isFirm l && isFirm r
  | _ => true

/-- Does the type come apart alike on both sides? The flag tells that it stands under a nullable.
An intersection is whole when it is received, and each operand receives it; below one nullable it is
taken apart, below two it is not, and neither is a union. -/
def isAligned : Bool → Ty → Bool
  | n, .union l r => isAligned n l && isAligned n r
  | false, .nullable t => isAligned true t
  | true, .nullable t => isFirm t
  | false, .inter l r => isFirm l && isFirm r
  | true, .inter _ _ => false
  | _, _ => true

/-- The types in which a type ends when nullables and intersections are taken off. -/
def cores : Ty → List Ty
  | .nullable t => cores t
  | .inter l r => cores l ++ cores r
  | t => [t]

def conjuncts : Ty → List Ty
  | .inter l r => conjuncts l ++ conjuncts r
  | t => [t]

theorem cores_subset_of_mem_conjuncts (hs : s ∈ t.conjuncts) : s.cores ⊆ t.cores := by
  induction t with
  | inter l r ihl ihr =>
    rcases List.mem_append.1 hs with hs | hs
    · exact List.subset_append_of_subset_left _ (ihl hs)
    · exact List.subset_append_of_subset_right _ (ihr hs)
  | _ =>
    obtain rfl := List.mem_singleton.1 hs
    exact List.Subset.refl _

section

variable (hs : s.isShape) (hself : ∀ n, Receives σ n s s)
include hs hself

theorem receives_of_mem_cores (h : s ∈ b.cores) :
    Receives σ true s b ∧ Receives σ true s (.nullable b) := by
  induction b with
  | nullable t ih =>
    obtain ⟨-, ht⟩ := ih h
    exact ⟨ht, .ofNullable hs rfl ht⟩
  | inter l r ihl ihr =>
    rcases List.mem_append.1 h with h | h
    · obtain ⟨hl, hl'⟩ := ihl h
      exact ⟨.ofInterLeft hs hl, .nullableInterLeft r hl'⟩
    · obtain ⟨hr, hr'⟩ := ihr h
      exact ⟨.ofInterRight hs hr, .nullableInterRight l hr'⟩
  | union l r =>
    obtain rfl := List.mem_singleton.1 h
    simp [isShape] at hs
  | _ =>
    obtain rfl := List.mem_singleton.1 h
    exact ⟨hself true, .ofNullable hs rfl (hself true)⟩

theorem receives_of_mem_conjuncts (h : s ∈ b.conjuncts) (n : Bool) : Receives σ n s b := by
  induction b generalizing n with
  | inter l r ihl ihr =>
    rcases List.mem_append.1 h with h | h
    · exact .ofInterLeft hs (ihl h _)
    · exact .ofInterRight hs (ihr h _)
  | _ =>
    obtain rfl := List.mem_singleton.1 h
    exact hself n

end

theorem receives_of_cores (hb : b.splits = false) (ha : a.isFirm)
    (h : ∀ s ∈ a.cores, Receives σ true s b) : Receives σ true a b := by
  induction a with
  | nullable t ih => exact .nullable hb (ih ha h)
  | inter l r ihl ihr =>
    obtain ⟨hl, hr⟩ : l.isFirm ∧ r.isFirm := by simpa [isFirm] using ha
    obtain ⟨hcl, hcr⟩ := List.forall_mem_append.1 h
    exact .inter hb (ihl hl hcl) (ihr hr hcr)
  | union => simp [isFirm] at ha
  | _ => exact h _ (List.mem_singleton_self _)

theorem receives_of_conjuncts (hs : ∀ s ∈ t.cores, s.isShape ∧ ∀ n, Receives σ n s s)
    (ht : t.splits = false) (ha : a.isFirm) (hsub : a.conjuncts ⊆ t.conjuncts) :
    Receives σ n a t := by
  induction a with
  | inter l r ihl ihr =>
    obtain ⟨hl, hr⟩ : l.isFirm ∧ r.isFirm := by simpa [isFirm] using ha
    obtain ⟨hsl, hsr⟩ := List.append_subset.1 hsub
    exact .inter ht (ihl hl hsl) (ihr hr hsr)
  | nullable u =>
    have hcores := cores_subset_of_mem_conjuncts (hsub (List.mem_singleton_self _))
    refine .nullable ht (receives_of_cores ht ha fun c hc ↦ ?_)
    obtain ⟨hshape, hself⟩ := hs c (hcores hc)
    exact (receives_of_mem_cores hshape hself (hcores hc)).1
  | union => simp [isFirm] at ha
  | _ =>
    have hm := hsub (List.mem_singleton_self _)
    have hc := cores_subset_of_mem_conjuncts hm (List.mem_singleton_self _)
    exact receives_of_mem_conjuncts (hs _ hc).1 (hs _ hc).2 hm n

def hasDistinctFields : Ty → Bool
  | .struct fs => decide (fs.map (·.name)).Nodup
  | _ => true

def hasAlignedParts (t : Ty) : Bool := !t.isShape || t.parts.all (isAligned false)

/-- What a type must be, part by part, to accept itself. -/
structure Regular (t : Ty) : Prop where
  ground : t.generics = []
  distinct : t.every hasDistinctFields
  aligned : t.every hasAlignedParts

theorem Regular.part (ht : Regular t) (hs : s ∈ t.parts) : Regular s where
  ground := generics_eq_nil_of_mem_parts ht.ground hs
  distinct := every_of_mem_parts ht.distinct hs
  aligned := every_of_mem_parts ht.aligned hs

theorem Regular.isAligned (ht : Regular t) (hshape : t.isShape) (hs : s ∈ t.parts) :
    isAligned false s := by
  have h := every_self ht.aligned
  simp only [hasAlignedParts, hshape, Bool.not_true, Bool.false_or, List.all_eq_true] at h
  exact h s hs

theorem field?_eq_some {fs : List (Field Ty)} (hd : (fs.map (·.name)).Nodup) {f : Field Ty}
    (hf : f ∈ fs) : field? f.name fs = some f := by
  induction fs with
  | nil => simp at hf
  | cons g fs ih =>
    simp only [List.map_cons, List.nodup_cons] at hd
    rw [field?, List.find?_cons]
    cases hf with
    | head => simp
    | tail _ hf =>
      have hne : (g.name == f.name) = false := by
        rw [beq_eq_false_iff_ne]
        intro he
        exact hd.1 (he ▸ List.mem_map_of_mem hf)
      simp only [hne]
      exact ih hd.2 hf

theorem same_self (l : Literal) : l.same l := by
  cases l with
  | number x =>
    have h : x.same x = true := by
      unfold Double.same Double.equal
      cases x.isNaN <;> simp
    exact h
  | _ => simp [Literal.same]

theorem Receives.self_of_parts (ht : Regular t) (hshape : t.isShape)
    (h : ∀ s ∈ t.parts, ∀ (σ : Option Bindings) n, Receives σ n s s) (σ : Option Bindings)
    (n : Bool) : Receives σ n t t := by
  cases t with
  | literal l => exact .literal (same_self l)
  | primitive p => exact .primitive p
  | emptyTuple => exact .emptyTuple
  | openStruct => exact .openStruct rfl
  | tag name => exact .tag name
  | tuple ts =>
    refine .tuple rfl fun p hp ↦ ?_
    obtain ⟨s, hs, rfl⟩ : ∃ s ∈ ts, (s, s) = p := by
      simpa [List.zip, List.zipWith_self] using hp
    exact h s hs none false
  | array t m => exact .array (h t (by simp [parts]) σ false)
  | list t => exact .list (h t (by simp [parts]) σ false)
  | map k t => exact .map (h k (by simp [parts]) σ false) (h t (by simp [parts]) σ false)
  | named name t => exact .named name (h t (by simp [parts]) σ n)
  | struct fs =>
    have hd : (fs.map (·.name)).Nodup := by simpa [hasDistinctFields] using every_self ht.distinct
    have hfield {f g : Field Ty} (hf : f ∈ fs) (hg : field? f.name fs = some g) : f = g := by
      simpa [field?_eq_some hd hf] using hg
    refine .struct rfl (fun f hf hg ↦ ?_) (fun f hf g hg ↦ ?_) (fun f hf g hg ↦ ?_)
    · simp [field?_eq_some hd hf] at hg
    · obtain rfl := hfield hf hg
      simp
    · obtain rfl := hfield hf hg
      exact h f.type (List.mem_map_of_mem hf) σ n
  | generic | bounded | nullable | inter | union => simp [isShape] at hshape

theorem Regular.isShape_of_mem_cores (ht : Regular t) (hf : t.isFirm) (hs : s ∈ t.cores) :
    s.isShape := by
  induction t with
  | nullable t ih => exact ih (ht.part (by simp [parts])) hf hs
  | inter l r ihl ihr =>
    obtain ⟨hl, hr⟩ : l.isFirm ∧ r.isFirm := by simpa [isFirm] using hf
    rcases List.mem_append.1 hs with hs | hs
    · exact ihl (ht.part (by simp [parts])) hl hs
    · exact ihr (ht.part (by simp [parts])) hr hs
  | union => simp [isFirm] at hf
  | generic | bounded => simpa [generics] using ht.ground
  | _ =>
    obtain rfl := List.mem_singleton.1 hs
    rfl

/-- How a type accepts itself: as it stands, under a nullable, and in its cores. -/
structure Selfsame (t : Ty) : Prop where
  whole : isAligned false t → ∀ (σ : Option Bindings) n, Receives σ n t t
  nullable : isAligned true t → ∀ (σ : Option Bindings) n, Receives σ n (.nullable t) (.nullable t)
  cores : ∀ s ∈ t.cores, s.isShape → ∀ (σ : Option Bindings) n, Receives σ n s s

theorem Selfsame.of_shape (hs : t.isShape) (h : ∀ (σ : Option Bindings) n, Receives σ n t t) :
    Selfsame t where
  whole _ := h
  nullable _ σ n := by
    have hn : (Ty.nullable t).splits = false := by cases t <;> simp_all [splits, isShape]
    exact .nullable hn (.ofNullable hs hn (h σ true))
  cores s hc _ := by
    obtain rfl : s = t := by cases t <;> simp_all [Ty.cores, isShape]
    exact h

theorem Selfsame.union (hl : Selfsame l) (hr : Selfsame r) : Selfsame (.union l r) where
  whole h σ n := by
    obtain ⟨hal, har⟩ : l.isAligned false ∧ r.isAligned false := by simpa [isAligned] using h
    exact .union ((hl.whole hal σ n).inLeft r) ((hr.whole har σ n).inRight l)
  nullable h σ n := by
    obtain ⟨hal, har⟩ : l.isAligned true ∧ r.isAligned true := by simpa [isAligned] using h
    exact .nullableUnion ((hl.nullable hal σ n).inNullableLeft r)
      ((hr.nullable har σ n).inNullableRight l)
  cores s hc hs := by
    obtain rfl := List.mem_singleton.1 hc
    simp [isShape] at hs

theorem Selfsame.ofNullable (ht : Regular t) (h : Selfsame t) : Selfsame (.nullable t) where
  whole ha := h.nullable ha
  nullable hf σ n := by
    -- Under two nullables nothing is taken apart until the receiving type is down to its cores.
    refine .nullable rfl (.nullable rfl (receives_of_cores rfl hf fun s hs ↦ ?_))
    have hshape := ht.isShape_of_mem_cores hf hs
    exact (receives_of_mem_cores hshape (h.cores s hs hshape σ) (b := .nullable t) hs).2
  cores := h.cores

theorem Selfsame.inter (ht : Regular (.inter l r)) (hl : Selfsame l) (hr : Selfsame r) :
    Selfsame (.inter l r) := by
  have hcores : ∀ s ∈ (Ty.inter l r).cores, s.isShape →
      ∀ (σ : Option Bindings) n, Receives σ n s s := List.forall_mem_append.2 ⟨hl.cores, hr.cores⟩
  refine ⟨fun hf σ n ↦ ?_, fun h ↦ by simp [isAligned] at h, hcores⟩
  refine receives_of_conjuncts (fun s hs ↦ ?_) rfl hf (List.Subset.refl _)
  have hshape := ht.isShape_of_mem_cores hf hs
  exact ⟨hshape, hcores s hs hshape σ⟩

theorem Regular.selfsame (ht : Regular t) : Selfsame t := by
  induction t with
  | literal | primitive | emptyTuple | openStruct | tag =>
    exact .of_shape rfl (.self_of_parts ht rfl (by simp [parts]))
  | tuple ts ih =>
    refine .of_shape rfl (.self_of_parts ht rfl fun s hs ↦ ?_)
    exact (ih s hs (ht.part hs)).whole (ht.isAligned rfl hs)
  | struct fs ih =>
    refine .of_shape rfl (.self_of_parts ht rfl fun s hs ↦ ?_)
    obtain ⟨f, hf, rfl⟩ := List.mem_map.1 hs
    exact (ih f hf (ht.part hs)).whole (ht.isAligned rfl hs)
  | array t _ ih | list t ih | named _ t ih =>
    refine .of_shape rfl (.self_of_parts ht rfl fun s hs ↦ ?_)
    obtain rfl := List.mem_singleton.1 hs
    exact (ih (ht.part hs)).whole (ht.isAligned rfl hs)
  | map k t ihk iht =>
    refine .of_shape rfl (.self_of_parts ht rfl fun s hs ↦ ?_)
    obtain rfl | rfl : s = k ∨ s = t := by simpa [parts] using hs
    · exact (ihk (ht.part hs)).whole (ht.isAligned rfl hs)
    · exact (iht (ht.part hs)).whole (ht.isAligned rfl hs)
  | nullable t ih =>
    have hp := ht.part (List.mem_singleton_self t)
    exact .ofNullable hp (ih hp)
  | inter l r ihl ihr =>
    exact .inter ht (ihl (ht.part (by simp [parts]))) (ihr (ht.part (by simp [parts])))
  | union l r ihl ihr =>
    exact .union (ihl (ht.part (by simp [parts]))) (ihr (ht.part (by simp [parts])))
  | generic | bounded => simpa [generics] using ht.ground

/-- A type without generics accepts itself if it and all its parts come apart alike on both sides:
if unions stand neither in intersections nor under two nullables, and intersections not under
just one. -/
theorem accept?_self (hg : t.generics = []) (hd : t.every hasDistinctFields)
    (ha : t.isAligned false) (hp : t.every hasAlignedParts) :
    accept? .reading t t none = some (true, none) := by
  have hself := (Regular.selfsame ⟨hg, hd, hp⟩).whole ha none false
  exact (accept?_reading_iff (by simp) false t t).2 hself

theorem accept?_self_mixed :
    accept? .reading
      (.union (.inter (.primitive .bool)
          (.nullable (.inter (.tag "a") (.struct [⟨"b", true, .list (.tag "c")⟩]))))
        (.nullable (.union (.literal .null) (.nullable (.tuple [.primitive .any])))))
      (.union (.inter (.primitive .bool)
          (.nullable (.inter (.tag "a") (.struct [⟨"b", true, .list (.tag "c")⟩]))))
        (.nullable (.union (.literal .null) (.nullable (.tuple [.primitive .any]))))) none =
    some (true, none) :=
  accept?_self rfl rfl rfl rfl

/-- A union under two nullables, an intersection under one, and a union in an intersection. -/
theorem accept?_self_fails :
    accept? .reading
      (.nullable (.nullable (.union (.primitive .int) (.primitive .string))))
      (.nullable (.nullable (.union (.primitive .int) (.primitive .string)))) none =
        some (false, none) ∧
    accept? .reading
      (.nullable (.inter (.struct [⟨"a", false, .primitive .int⟩])
        (.struct [⟨"b", false, .primitive .int⟩])))
      (.nullable (.inter (.struct [⟨"a", false, .primitive .int⟩])
        (.struct [⟨"b", false, .primitive .int⟩]))) none = some (false, none) ∧
    accept? .reading
      (.inter (.union (.primitive .int) (.primitive .string)) (.primitive .any))
      (.inter (.union (.primitive .int) (.primitive .string)) (.primitive .any)) none =
        some (false, none) :=
  ⟨rfl, rfl, rfl⟩

end FlowTypes.Ty
