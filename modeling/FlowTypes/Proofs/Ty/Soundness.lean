import FlowTypes.Proofs.Pairs
import FlowTypes.Proofs.Ty.Literals
import FlowTypes.Proofs.Ty.Verdicts

namespace FlowTypes.Ty

/-- A struct declares no optional field. -/
def requiresFields : Ty → Bool
  | .struct fs => fs.all fun f ↦ !f.optional
  | _ => true

/-- The fields of a struct have types that do not accept the absent value. -/
def wantsMembers : Ty → Bool
  | .struct fs => fs.all fun f ↦ check? [] [] f.type none == some false
  | _ => true

/-- The fields of a struct have types that do not accept `null`. -/
def refusesNulls : Ty → Bool
  | .struct fs => fs.all fun f ↦ check? [] [] f.type (some .null) == some false
  | _ => true

/-- No tag occurs inside an intersection. -/
def keepsTagsOut : Ty → Bool
  | .inter l r => (l.every fun t ↦ !t.isTag) && r.every fun t ↦ !t.isTag
  | _ => true

/-- Types that a match does not take apart with a flag of their own. -/
def isFlagless : Ty → Bool
  | .nullable _ | .inter .. | .union .. => false
  | _ => true

mutual

/-- Does no field that is reached through fields alone accept `null`? -/
def nullFree : Ty → Bool
  | .named _ t => nullFree t
  | .struct fs => nullFreeFields fs
  | _ => true

def nullFreeFields : List (Field Ty) → Bool
  | [] => true
  | ⟨_, _, t⟩ :: fs =>
    check? [] [] t (some .null) == some false && nullFree t && nullFreeFields fs

end

theorem nullFree_struct (fs : List (Field Ty)) : nullFree (.struct fs) =
    fs.all fun f ↦ check? [] [] f.type (some .null) == some false && nullFree f.type := by
  rw [nullFree]
  induction fs with
  | nil => rfl
  | cons f fs ih => simp [nullFreeFields, ih]

/-- What a match has to assume of its types to be sound. The flag may reach the fields of a struct
only if these refuse `null`, be it everywhere, or where the match itself never raises the flag. -/
structure Sound (n : Bool) (a b : Ty) : Prop where
  closed : a.generics = [] ∧ b.generics = []
  required : a.every requiresFields
  present : b.every wantsMembers
  tags : b.every keepsTagsOut
  nulls : b.every refusesNulls ∨ a.every isFlagless ∧ b.every isFlagless ∧ (n → b.nullFree)

namespace Sound

variable {n m : Bool} {a b a' b' : Ty} {fs : List (Field Ty)} {env : Env}

theorem receiving (h : Sound n a b) (ha : a.isFlagless = false) (hp : a' ∈ a.parts) :
    Sound m a' b where
  closed := ⟨generics_eq_nil_of_mem_parts h.closed.1 hp, h.closed.2⟩
  required := every_of_mem_parts h.required hp
  present := h.present
  tags := h.tags
  nulls := by
    obtain hn | ⟨hn, -⟩ := h.nulls
    · exact .inl hn
    · simp [every_self hn] at ha

theorem received (h : Sound n a b) (hb : b.isFlagless = false) (hp : b' ∈ b.parts) :
    Sound m a b' where
  closed := ⟨h.closed.1, generics_eq_nil_of_mem_parts h.closed.2 hp⟩
  required := h.required
  present := every_of_mem_parts h.present hp
  tags := every_of_mem_parts h.tags hp
  nulls := by
    obtain hn | ⟨-, hn, -⟩ := h.nulls
    · exact .inl (every_of_mem_parts hn hp)
    · simp [every_self hn] at hb

theorem nullable (h : Sound n a (.nullable b)) (hp : b' ∈ b.parts) : Sound m a (.nullable b') where
  closed := ⟨h.closed.1, generics_eq_nil_of_mem_parts (s := b') (t := b) h.closed.2 hp⟩
  required := h.required
  present := every_of_mem_parts (s := b') (t := b) h.present hp
  tags := every_of_mem_parts (s := b') (t := b) h.tags hp
  nulls := by
    obtain hn | ⟨-, hn, -⟩ := h.nulls
    · exact .inl (every_of_mem_parts (s := b') (t := b) hn hp)
    · exact absurd (every_self hn) (by simp [isFlagless])

theorem part (h : Sound n a b) (ha : a' = a ∨ a' ∈ a.parts) (hb : b' ∈ b.parts)
    (hm : m → n ∧ (b.nullFree → b'.nullFree)) : Sound m a' b' where
  closed := by
    refine ⟨?_, generics_eq_nil_of_mem_parts h.closed.2 hb⟩
    obtain rfl | ha := ha
    · exact h.closed.1
    · exact generics_eq_nil_of_mem_parts h.closed.1 ha
  required := by
    obtain rfl | ha := ha
    · exact h.required
    · exact every_of_mem_parts h.required ha
  present := every_of_mem_parts h.present hb
  tags := every_of_mem_parts h.tags hb
  nulls := by
    refine h.nulls.imp (every_of_mem_parts · hb) fun hn ↦
      ⟨?_, every_of_mem_parts hn.2.1 hb, fun h ↦ (hm h).2 (hn.2.2 (hm h).1)⟩
    obtain rfl | ha := ha
    · exact hn.1
    · exact every_of_mem_parts hn.1 ha

section

variable {gs : List (Field Ty)} (hb : b.fields? = some gs) {g : Field Ty} (hg : g ∈ gs)
include hb hg

theorem refuses_null (h : Sound true a b) : holds [] env g.type (some .null) = false := by
  have hc : check? [] [] g.type (some .null) = some false := by
    cases b with
    | openStruct => simp_all [fields?]
    | struct gs' =>
      cases hb
      obtain hn | ⟨-, -, hn⟩ := h.nulls
      · have hs := every_self hn
        simp only [refusesNulls, List.all_eq_true, beq_iff_eq] at hs
        exact hs g hg
      · have hs := hn rfl
        simp only [nullFree_struct, List.all_eq_true, Bool.and_eq_true, beq_iff_eq] at hs
        exact (hs g hg).1
    | _ => simp [fields?] at hb
  have hcl := generics_eq_nil_of_mem_parts h.closed.2 (mem_parts_of_fields? hb hg)
  exact holds_of_checkWithin hcl env hc

theorem refuses_absent (h : Sound n a b) : holds [] env g.type none = false := by
  have hc : check? [] [] g.type none = some false := by
    cases b with
    | openStruct => simp_all [fields?]
    | struct gs' =>
      cases hb
      have hs := every_self h.present
      simp only [wantsMembers, List.all_eq_true, beq_iff_eq] at hs
      exact hs g hg
    | _ => simp [fields?] at hb
  have hcl := generics_eq_nil_of_mem_parts h.closed.2 (mem_parts_of_fields? hb hg)
  exact holds_of_checkWithin hcl env hc

theorem field (h : Sound n (.struct fs) b) {f : Field Ty} (hf : f ∈ fs) :
    Sound n f.type g.type := by
  refine h.part (.inr (List.mem_map_of_mem hf)) (mem_parts_of_fields? hb hg) fun hn ↦ ⟨hn, ?_⟩
  cases b with
  | openStruct => simp_all [fields?]
  | struct gs' =>
    cases hb
    intro hs
    simp only [nullFree_struct, List.all_eq_true, Bool.and_eq_true] at hs
    exact (hs g hg).2
  | _ => simp [fields?] at hb

end

theorem flag_of_inter {l r : Ty} (h : Sound n a (.inter l r))
    (hb : holds [] env (.inter l r) (some .null))
    (hn : n || (l.isNullable != r.isNullable)) : n := by
  have ht := every_self h.tags
  have hg := List.append_eq_nil_iff.1 h.closed.2
  simp only [keepsTagsOut, Bool.and_eq_true] at ht
  simp only [holds, holds_null_eq_isNullable hg.1 ht.1, holds_null_eq_isNullable hg.2 ht.2,
    Bool.and_eq_true] at hb
  simpa [hb.1, hb.2] using hn

end Sound

variable {σ : Option Bindings} {env : Env} {n : Bool} {a b : Ty} {v : Json}

theorem holds_any (hs : b.splits = false) (hm : b.mayHideNull = false)
    (hb : holds [] env b (some v)) : holds [] env (.primitive .any) (some v) := by
  cases v with
  | null =>
    cases b with
    | literal l => cases l <;> simp_all [holds, Literal.is, mayHideNull, Json.toDouble?]
    | primitive p => cases p <;> simp_all [holds, Primitive.admits, Json.toDouble?]
    | union l r => simp [splits] at hs
    | generic | bounded | tag | named | nullable | inter => simp [mayHideNull] at hm
    | _ => simp [holds, Json.isArrayWith, Json.isObjectWith] at hb
  | _ => rfl

theorem holds_of_fields? {gs : List (Field Ty)} (hb : b.fields? = some gs) (value : Option Json) :
    holds [] env b value = Json.isObjectWith (holdsFields [] env gs) value := by
  cases b with
  | openStruct | struct gs' =>
    cases hb
    rfl
  | _ => simp [fields?] at hb

theorem holds_struct {fs gs : List (Field Ty)} (hb : b.fields? = some gs)
    (hs : Sound n (.struct fs) b) (hnone : ∀ f ∈ fs, field? f.name gs = none → f.optional)
    (hopt : ∀ f ∈ fs, ∀ g, field? f.name gs = some g → f.optional || !g.optional)
    (ih : ∀ f ∈ fs, ∀ g, field? f.name gs = some g → ∀ v : Json, v.wellFormed →
      holds [] env g.type (some v) → holds [] env f.type (some v) ∨ n = true ∧ v = .null)
    (hv : v.wellFormed) (h : holds [] env b (some v)) : holds [] env (.struct fs) (some v) := by
  rw [holds_of_fields? hb] at h
  cases v with
  | object members =>
    simp only [holds, Json.isObjectWith, holdsFields_eq, List.all_eq_true] at h ⊢
    intro f hf
    have hreq : f.optional = false := by
      have hr := every_self hs.required
      simp only [requiresFields, List.all_eq_true, Bool.not_eq_true'] at hr
      exact hr f hf
    cases hg : field? f.name gs with
    | none => exact absurd (hnone f hf hg) (by simp [hreq])
    | some g =>
      have hm : g ∈ gs := List.mem_of_find?_eq_some hg
      have hname : g.name = f.name := by simpa using List.find?_some hg
      have hgo : g.optional = false := by simpa [hreq] using hopt f hf g hg
      have hgh := h g hm
      simp only [hgo, Bool.false_and, Bool.false_or, hname] at hgh
      cases hl : members.lookup f.name with
      | none =>
        rw [hl, hs.refuses_absent hb hm] at hgh
        simp at hgh
      | some w =>
        rw [hl] at hgh
        obtain hw | ⟨rfl, rfl⟩ := ih f hf g hg w (Json.wellFormed_of_get? hv hl) hgh
        · simp [hw]
        · rw [hs.refuses_null hb hm] at hgh
          simp at hgh
  | _ => simp [Json.isObjectWith] at h

theorem holds_of_receives (h : Receives σ n a b) (hs : Sound n a b) (hv : v.wellFormed)
    (hb : holds [] env b (some v)) : holds [] env a (some v) ∨ n = true ∧ v = .null := by
  induction h generalizing v with
  | union _ _ ihl ihr =>
    simp only [holds, Bool.or_eq_true] at hb
    obtain hb | hb := hb
    · exact ihl (hs.received rfl (by simp [parts])) hv hb
    · exact ihr (hs.received rfl (by simp [parts])) hv hb
  | @nullableUnion _ _ _ l r _ _ ihl ihr =>
    simp only [holds, Bool.or_eq_true] at hb
    have hl := ihl (hs.nullable (by simp [parts])) hv
    have hr := ihr (hs.nullable (by simp [parts])) hv
    simp only [holds, Bool.or_eq_true] at hl hr
    obtain hb | hb | hb := hb
    · exact hl (.inl hb)
    · exact hl (.inr hb)
    · exact hr (.inr hb)
  | nullableInterLeft r _ ih =>
    refine ih (hs.nullable (by simp [parts])) hv ?_
    simp only [holds, Bool.or_eq_true, Bool.and_eq_true] at hb ⊢
    exact hb.imp_right And.left
  | nullableInterRight l _ ih =>
    refine ih (hs.nullable (by simp [parts])) hv ?_
    simp only [holds, Bool.or_eq_true, Bool.and_eq_true] at hb ⊢
    exact hb.imp_right And.right
  | any hb' hm => exact .inl (holds_any hb' hm hb)
  | generic | genericBinding | bounded | boundedBinding =>
    exact absurd hs.closed.1 (by simp [generics])
  | nullable hb' _ ih =>
    obtain h | ⟨-, rfl⟩ := ih (hs.receiving rfl (by simp [parts])) hv hb
    · simp [holds, h]
    · exact .inl rfl
  | inter hb' _ _ ihl ihr =>
    have hl := ihl (hs.receiving rfl (by simp [parts])) hv hb
    have hr := ihr (hs.receiving rfl (by simp [parts])) hv hb
    simp only [holds, Bool.and_eq_true]
    grind
  | @unionLeft _ _ l r _ _ _ ih | @unionRight _ _ l r _ _ _ ih =>
    obtain h | ⟨hn, rfl⟩ := ih (hs.receiving rfl (by simp [parts])) hv hb
    · simp [holds, h]
    · rw [Bool.or_eq_true] at hn
      exact hn.symm.imp (holds_null_of_isNullable (t := .union l r)) fun hn ↦ ⟨hn, rfl⟩
  | literal hkl => exact .inl (Literal.is_of_same hkl hb)
  | null ha hl =>
    cases v with
    | null => exact .inr ⟨rfl, rfl⟩
    | _ => simp [holds, Literal.is] at hb
  | @checked _ _ a l fuel ha hl hc =>
    exact .inl (holds_of_is hs.closed.1 hv hb (holds_of_checkWithin hs.closed.1 env hc))
  | primitive p | emptyTuple => exact .inl hb
  | ofGeneric | ofBounded => exact absurd hs.closed.2 (by simp [generics])
  | @tuple _ _ ss ts hl _ ih =>
    refine .inl ?_
    cases v with
    | array xs =>
      simp only [holds, Json.isArrayWith, holdsItems_eq, Bool.and_eq_true, beq_iff_eq,
        List.all_eq_true] at hb ⊢
      rw [Json.wellFormed_array, List.all_eq_true] at hv
      refine ⟨hb.1.trans hl.symm, ?_⟩
      rintro ⟨s, x⟩ hp
      obtain ⟨t, hst, htx⟩ := exists_mem_zip hl hp
      obtain ⟨hsm, htm⟩ := List.of_mem_zip hst
      have hx := (List.of_mem_zip htx).2
      have h := ih (s, t) hst (hs.part (.inr hsm) htm (by simp)) (hv x hx) (hb.2 (t, x) htx)
      simpa using h
    | _ => simp [holds, Json.isArrayWith] at hb
  | array _ ih =>
    refine .inl ?_
    cases v with
    | array xs =>
      simp only [holds, Json.isArrayWith, Bool.and_eq_true, List.all_eq_true] at hb ⊢
      rw [Json.wellFormed_array, List.all_eq_true] at hv
      refine ⟨hb.1, fun x hx ↦ ?_⟩
      have h := ih (hs.part (.inr (by simp [parts])) (by simp [parts]) (by simp)) (hv x hx) (hb.2 x hx)
      simpa using h
    | _ => simp [holds, Json.isArrayWith] at hb
  | list _ ih =>
    refine .inl ?_
    cases v with
    | array xs =>
      simp only [holds, Json.isArrayWith, List.all_eq_true] at hb ⊢
      rw [Json.wellFormed_array, List.all_eq_true] at hv
      intro x hx
      have h := ih (hs.part (.inr (by simp [parts])) (by simp [parts]) (by simp)) (hv x hx) (hb x hx)
      simpa using h
    | _ => simp [holds, Json.isArrayWith] at hb
  | @openStruct _ _ b hb' =>
    refine .inl ?_
    cases v with
    | object members => rfl
    | _ => cases b <;> simp_all [holds, Json.isObjectWith, fields?]
  | @struct _ n fs b gs hb' hnone hopt _ ih =>
    refine .inl (holds_struct hb' hs hnone hopt (fun f hf g hg w hw ↦ ?_) hv hb)
    exact ih f hf g hg (hs.field hb' (List.mem_of_find?_eq_some hg) hf) hw
  | map _ _ ihk iht =>
    refine .inl ?_
    cases v with
    | object members =>
      simp only [holds, Json.isObjectWith, Bool.and_eq_true, List.all_eq_true] at hb ⊢
      rw [Json.wellFormed_object, Bool.and_eq_true, List.all_eq_true] at hv
      intro m hm
      have hk := ihk (hs.part (.inr (by simp [parts])) (by simp [parts]) (by simp)) (v := .string m.1) rfl (hb m hm).1
      have ht := iht (hs.part (.inr (by simp [parts])) (by simp [parts]) (by simp)) (hv.2 m hm) (hb m hm).2
      exact ⟨by simpa using hk, by simpa using ht⟩
    | _ => simp [holds, Json.isObjectWith] at hb
  | tag name => exact .inl rfl
  | named name _ ih =>
    simp only [holds, admits_nil, Bool.and_true] at hb ⊢
    exact ih (hs.part (.inr (by simp [parts])) (by simp [parts]) fun h ↦ ⟨h, id⟩) hv hb
  | unnamed ha hn _ ih =>
    simp only [holds, admits_nil, Bool.and_true] at hb
    exact ih (hs.part (.inl rfl) (by simp [parts]) fun h ↦ ⟨h, id⟩) hv hb
  | ofNullable ha hb' _ ih =>
    cases v with
    | null => exact .inr ⟨rfl, rfl⟩
    | _ => exact ih (hs.received rfl (by simp [parts])) hv hb
  | ofInterLeft ha _ ih =>
    obtain ⟨hl, hr⟩ := Bool.and_eq_true_iff.1 hb
    obtain h | ⟨hn, rfl⟩ := ih (hs.received rfl (by simp [parts])) hv hl
    · exact .inl h
    · exact .inr ⟨hs.flag_of_inter hb hn, rfl⟩
  | ofInterRight ha _ ih =>
    obtain ⟨hl, hr⟩ := Bool.and_eq_true_iff.1 hb
    obtain h | ⟨hn, rfl⟩ := ih (hs.received rfl (by simp [parts])) hv hr
    · exact .inl h
    · exact .inr ⟨hs.flag_of_inter hb hn, rfl⟩

/-- Matching is sound for conformance. Without the flag, each value of the received type conforms to
the receiving type; with it, each value but `null` does. -/
theorem check?_of_accept? (ha : a.generics = []) (hb : b.generics = [])
    (hrequired : a.every requiresFields) (hpresent : b.every wantsMembers)
    (hnulls : b.every refusesNulls) (htags : b.every keepsTagsOut)
    (h : accept? ⟨n, false⟩ a b none = some (true, none)) (hv : v.wellFormed)
    (hc : check? [] [] b (some v) = some true) :
    check? [] [] a (some v) = some true ∨ n = true ∧ v = .null := by
  rw [check?_eq_holds, Option.some_inj] at hc ⊢
  have hr := (accept?_reading_iff (by simp) n a b).1 h
  exact holds_of_receives hr ⟨⟨ha, hb⟩, hrequired, hpresent, htags, .inl hnulls⟩ hv hc

theorem check?_of_accept?_switch :
    accept? .reading (.union (.struct [⟨"on", false, .primitive .bool⟩]) (.literal .null))
      (.inter (.nullable (.struct [⟨"on", false, .literal (.bool true)⟩])) (.named "Switch"
        (.struct [⟨"on", false, .primitive .bool⟩, ⟨"log", true, .list (.primitive .string)⟩])))
      none = some (true, none) ∧
    check? [] [] (.union (.struct [⟨"on", false, .primitive .bool⟩]) (.literal .null))
      (some (.object [("on", .bool true)])) = some true := by
  refine ⟨rfl, ?_⟩
  have h := check?_of_accept? (n := false)
    (a := .union (.struct [⟨"on", false, .primitive .bool⟩]) (.literal .null))
    (b := .inter (.nullable (.struct [⟨"on", false, .literal (.bool true)⟩])) (.named "Switch"
      (.struct [⟨"on", false, .primitive .bool⟩, ⟨"log", true, .list (.primitive .string)⟩])))
    (v := .object [("on", .bool true)]) rfl rfl rfl rfl rfl rfl rfl rfl rfl
  simpa using h

end FlowTypes.Ty
