import FlowTypes.Proofs.Pairs
import FlowTypes.Proofs.Ty.Acyclic
import FlowTypes.Proofs.Ty.Reflexivity
import Mathlib.Data.Option.Basic

namespace FlowTypes.Ty

open Relation

/-- One change of order, at any depth: the operands of a union or an intersection are swapped, a
union is grouped the other way, or the fields of a struct, no two of one name, are permuted. -/
inductive Reorders : Ty → Ty → Prop
  | swapUnion (l r : Ty) : Reorders (.union l r) (.union r l)
  | swapInter (l r : Ty) : Reorders (.inter l r) (.inter r l)
  | regroup (r s t : Ty) : Reorders (.union (.union r s) t) (.union r (.union s t))
  | permute {fs gs : List (Field Ty)} : (fs.map (·.name)).Nodup → fs.Perm gs →
      Reorders (.struct fs) (.struct gs)
  | bounded {s s' : Ty} (name : String) : Reorders s s' →
      Reorders (.bounded name s) (.bounded name s')
  | item {s s' : Ty} (before after : List Ty) : Reorders s s' →
      Reorders (.tuple (before ++ s :: after)) (.tuple (before ++ s' :: after))
  | array {s s' : Ty} (size : Nat) : Reorders s s' → Reorders (.array s size) (.array s' size)
  | list {s s' : Ty} : Reorders s s' → Reorders (.list s) (.list s')
  | field {s s' : Ty} (before after : List (Field Ty)) (name : String) (optional : Bool) :
      Reorders s s' → Reorders (.struct (before ++ ⟨name, optional, s⟩ :: after))
        (.struct (before ++ ⟨name, optional, s'⟩ :: after))
  | key {k k' : Ty} (t : Ty) : Reorders k k' → Reorders (.map k t) (.map k' t)
  | value {t t' : Ty} (k : Ty) : Reorders t t' → Reorders (.map k t) (.map k t')
  | named {s s' : Ty} (name : String) : Reorders s s' → Reorders (.named name s) (.named name s')
  | nullable {s s' : Ty} : Reorders s s' → Reorders (.nullable s) (.nullable s')
  | interLeft {l l' : Ty} (r : Ty) : Reorders l l' → Reorders (.inter l r) (.inter l' r)
  | interRight {r r' : Ty} (l : Ty) : Reorders r r' → Reorders (.inter l r) (.inter l r')
  | unionLeft {l l' : Ty} (r : Ty) : Reorders l l' → Reorders (.union l r) (.union l' r)
  | unionRight {r r' : Ty} (l : Ty) : Reorders r r' → Reorders (.union l r) (.union l r')

variable {σ : Option Bindings} {n : Bool} {a a' b b' l l' r r' s s' t : Ty}

/-- The first type may be replaced by the second one: what is accepted with the first, on either
side of a match, is accepted with the second, and so are the values. A received type that stands
right under a nullable is taken apart in another way, so that is a case of its own. -/
structure Replaceable (a a' : Ty) : Prop where
  isNullable : a'.isNullable = a.isNullable
  holds (validators : Validators) (env : Env) (value : Option Json) :
    holds validators env a value → Ty.holds validators env a' value
  receiving {σ : Option Bindings} {n : Bool} {b : Ty} : (∀ ρ ∈ σ, ρ.Acyclic) →
    Receives σ n a b → Receives σ n a' b
  received {σ : Option Bindings} {n : Bool} {c : Ty} : Receives σ n c a → Receives σ n c a'
  underNullable {σ : Option Bindings} {n : Bool} {c : Ty} :
    Receives σ n c (.nullable a) → Receives σ n c (.nullable a')

theorem Replaceable.refl (a : Ty) : Replaceable a a :=
  ⟨rfl, fun _ _ _ ↦ id, fun _ ↦ id, id, id⟩

theorem Replaceable.trans {a'' : Ty} (h : Replaceable a a') (h' : Replaceable a' a'') :
    Replaceable a a'' where
  isNullable := h'.isNullable.trans h.isNullable
  holds validators env value hv := h'.holds validators env value (h.holds validators env value hv)
  receiving hσ hr := h'.receiving hσ (h.receiving hσ hr)
  received hr := h'.received (h.received hr)
  underNullable hr := h'.underNullable (h.underNullable hr)

instance : Std.Refl Replaceable := ⟨.refl⟩

instance : Trans Replaceable Replaceable Replaceable := ⟨.trans⟩

structure ReplaceableFields (fs gs : List (Field Ty)) : Prop where
  declared : ∀ g ∈ gs, ∃ f ∈ fs, f.name = g.name ∧ f.optional = g.optional ∧
    Replaceable f.type g.type
  found (name : String) : Option.Rel (fun f g ↦ f.optional = g.optional ∧ Replaceable f.type g.type)
    (field? name fs) (field? name gs)

theorem field?_perm {fs gs : List (Field Ty)} (hd : (fs.map (·.name)).Nodup) (h : fs.Perm gs)
    (name : String) : field? name fs = field? name gs := by
  cases hg : field? name gs with
  | none =>
    rw [field?, List.find?_eq_none] at hg ⊢
    exact fun f hf ↦ hg f (h.mem_iff.1 hf)
  | some g =>
    obtain rfl : g.name = name := by simpa using List.find?_some hg
    exact field?_eq_some hd (h.mem_iff.2 (List.mem_of_find?_eq_some hg))

theorem ReplaceableFields.of_perm {fs gs : List (Field Ty)} (hd : (fs.map (·.name)).Nodup)
    (h : fs.Perm gs) : ReplaceableFields fs gs where
  declared g hg := ⟨g, h.mem_iff.2 hg, rfl, rfl, .refl _⟩
  found name := by
    rw [field?_perm hd h]
    cases field? name gs with
    | none => exact .none
    | some g => exact .some ⟨rfl, .refl _⟩

theorem ReplaceableFields.middle (h : Replaceable s s') (before after : List (Field Ty))
    (name : String) (optional : Bool) :
    ReplaceableFields (before ++ ⟨name, optional, s⟩ :: after)
      (before ++ ⟨name, optional, s'⟩ :: after) where
  declared g hg := by
    obtain hg | hg := List.mem_append.1 hg
    · exact ⟨g, by simp [hg], rfl, rfl, .refl _⟩
    · obtain rfl | hg := List.mem_cons.1 hg
      · exact ⟨⟨name, optional, s⟩, by simp, rfl, rfl, h⟩
      · exact ⟨g, by simp [hg], rfl, rfl, .refl _⟩
  found other := by
    have hsame (f : Option (Field Ty)) : Option.Rel
        (fun f g : Field Ty ↦ f.optional = g.optional ∧ Replaceable f.type g.type) f f := by
      cases f with
      | none => exact .none
      | some f => exact .some ⟨rfl, .refl _⟩
    simp only [field?, List.find?_append, List.find?_cons]
    cases before.find? (·.name == other) with
    | some f => exact hsame _
    | none =>
      cases name == other with
      | true => exact .some ⟨rfl, h⟩
      | false => exact hsame _

theorem ReplaceableFields.of_none {fs gs : List (Field Ty)} (h : ReplaceableFields fs gs)
    {name : String} (hg : field? name gs = none) : field? name fs = none := by
  have hf := h.found name
  rw [hg] at hf
  generalize field? name fs = f at hf ⊢
  cases hf
  rfl

theorem ReplaceableFields.of_some {fs gs : List (Field Ty)} (h : ReplaceableFields fs gs)
    {name : String} {g : Field Ty} (hg : field? name gs = some g) :
    ∃ f, field? name fs = some f ∧ f.optional = g.optional ∧ Replaceable f.type g.type := by
  have hf := h.found name
  rw [hg] at hf
  generalize field? name fs = f at hf ⊢
  cases hf with
  | some hf => exact ⟨_, rfl, hf⟩

/-- The same node, with parts that may be replaced. -/
inductive Alters : Ty → Ty → Prop
  | bounded {s s' : Ty} (name : String) : Replaceable s s' →
      Alters (.bounded name s) (.bounded name s')
  | tuple {ss ss' : List Ty} : List.Forall₂ Replaceable ss ss' → Alters (.tuple ss) (.tuple ss')
  | array {s s' : Ty} (size : Nat) : Replaceable s s' → Alters (.array s size) (.array s' size)
  | list {s s' : Ty} : Replaceable s s' → Alters (.list s) (.list s')
  | struct {fs gs : List (Field Ty)} : ReplaceableFields fs gs → Alters (.struct fs) (.struct gs)
  | map {k k' t t' : Ty} : Replaceable k k' → Replaceable t t' → Alters (.map k t) (.map k' t')
  | named {s s' : Ty} (name : String) : Replaceable s s' → Alters (.named name s) (.named name s')
  | nullable {s s' : Ty} : Replaceable s s' → Alters (.nullable s) (.nullable s')
  | inter {l l' r r' : Ty} : Replaceable l l' → Replaceable r r' →
      Alters (.inter l r) (.inter l' r')
  | union {l l' r r' : Ty} : Replaceable l l' → Replaceable r r' →
      Alters (.union l r) (.union l' r')

namespace Alters

theorem isNullable (h : Alters a a') : a'.isNullable = a.isNullable := by
  cases h with
  | named _ h => exact h.isNullable
  | inter hl hr | union hl hr => simp only [Ty.isNullable, hl.isNullable, hr.isNullable]
  | _ => rfl

theorem isShape (h : Alters a a') (ha : a.isShape) : a'.isShape := by cases h <;> exact ha

theorem isLiteral (h : Alters a a') : a'.isLiteral = false := by cases h <;> rfl

theorem isNominal (h : Alters a a') (ha : a.isNominal = false) : a'.isNominal = false := by
  cases h <;> exact ha

theorem holds (h : Alters a a') (validators : Validators) (env : Env) (value : Option Json)
    (hv : Ty.holds validators env a value) : Ty.holds validators env a' value := by
  cases h with
  | bounded name h =>
    simp only [Ty.holds] at hv ⊢
    cases hn : env name with
    | none =>
      rw [hn] at hv
      exact h.holds validators env value hv
    | some q => rwa [hn] at hv
  | tuple h =>
    refine Json.isArrayWith_mono (fun xs hxs ↦ ?_) hv
    simp only [holdsItems_eq, Bool.and_eq_true, List.all_eq_true, h.length_eq] at hxs ⊢
    refine ⟨hxs.1, fun p hp ↦ ?_⟩
    obtain ⟨s, hs, hr⟩ := exists_mem_zip_left h hp
    exact hr.holds validators env _ (hxs.2 _ hs)
  | array size h =>
    refine Json.isArrayWith_mono (fun xs hxs ↦ ?_) hv
    simp only [Bool.and_eq_true, List.all_eq_true] at hxs ⊢
    exact ⟨hxs.1, fun x hx ↦ h.holds validators env _ (hxs.2 x hx)⟩
  | list h =>
    refine Json.isArrayWith_mono (fun xs hxs ↦ ?_) hv
    simp only [List.all_eq_true] at hxs ⊢
    exact fun x hx ↦ h.holds validators env _ (hxs x hx)
  | struct h =>
    refine Json.isObjectWith_mono (fun members hms ↦ ?_) hv
    simp only [holdsFields_eq, List.all_eq_true, Bool.or_eq_true] at hms ⊢
    intro g hg
    obtain ⟨f, hf, hname, hoptional, hr⟩ := h.declared g hg
    have hfield := hms f hf
    rw [hname, hoptional] at hfield
    exact hfield.imp_right (hr.holds validators env _)
  | map hk ht =>
    refine Json.isObjectWith_mono (fun members hms ↦ ?_) hv
    simp only [List.all_eq_true, Bool.and_eq_true] at hms ⊢
    intro m hm
    exact ⟨hk.holds validators env _ (hms m hm).1, ht.holds validators env _ (hms m hm).2⟩
  | named name h =>
    simp only [Ty.holds, Bool.and_eq_true] at hv ⊢
    exact ⟨h.holds validators env value hv.1, hv.2⟩
  | nullable h =>
    simp only [Ty.holds, Bool.or_eq_true] at hv ⊢
    exact hv.imp_right (h.holds validators env value)
  | inter hl hr =>
    simp only [Ty.holds, Bool.and_eq_true] at hv ⊢
    exact ⟨hl.holds validators env value hv.1, hr.holds validators env value hv.2⟩
  | union hl hr =>
    simp only [Ty.holds, Bool.or_eq_true] at hv ⊢
    exact hv.imp (hl.holds validators env value) (hr.holds validators env value)

end Alters

theorem checkWithin_of_holds {ρ : Bindings} (hρ : ρ.Acyclic) {validators : Validators} {fuel : Nat}
    {value : Option Json} (h : ∀ env, holds validators env a value → holds validators env a' value)
    (hc : checkWithin ρ validators fuel a value = some true) :
    check? ρ validators a' value = some true := by
  have ha := checkWithin_unique (check?_of_acyclic hρ validators a value) hc
  rw [check?_of_acyclic hρ, h _ ha]

namespace Alters

theorem receiving (h : Alters a a') (hσ : ∀ ρ ∈ σ, ρ.Acyclic) (hr : Receives σ n a b) :
    Receives σ n a' b := by
  induction hr with
  | union _ _ ihl ihr => exact .union (ihl h hσ) (ihr h hσ)
  | nullableUnion _ _ ihl ihr => exact .nullableUnion (ihl h hσ) (ihr h hσ)
  | nullableInterLeft r _ ih => exact .nullableInterLeft r (ih h hσ)
  | nullableInterRight l _ ih => exact .nullableInterRight l (ih h hσ)
  | bounded hs hl hr =>
    cases h with
    | bounded name h => exact .bounded hs hl (h.receiving hσ hr)
  | boundedBinding hs hl hr =>
    cases h with
    | bounded name h => exact .boundedBinding hs hl hr
  | nullable hs hr =>
    cases h with
    | nullable h => exact .nullable hs (h.receiving hσ hr)
  | inter hs hl hr =>
    cases h with
    | inter hl' hr' => exact .inter hs (hl'.receiving hσ hl) (hr'.receiving hσ hr)
  | unionLeft hs hr =>
    cases h with
    | union hl' hr' =>
      refine .unionLeft hs ?_
      rw [hl'.isNullable, hr'.isNullable]
      exact hl'.receiving hσ hr
  | unionRight hs hr =>
    cases h with
    | union hl' hr' =>
      refine .unionRight hs ?_
      rw [hl'.isNullable, hr'.isNullable]
      exact hr'.receiving hσ hr
  | null ha hl => exact .null (h.isShape ha) h.isLiteral
  | @checked σ _ _ l fuel ha hl hc =>
    exact .checked _ (h.isShape ha) h.isLiteral
      (checkWithin_of_holds (acyclic_getD hσ) (fun env ↦ h.holds [] env _) hc)
  | ofGeneric ha _ ih => exact .ofGeneric (h.isShape ha) (ih h hσ)
  | ofBounded ha _ ih => exact .ofBounded (h.isShape ha) (ih h hσ)
  | tuple hl hr =>
    cases h with
    | tuple h =>
      refine .tuple (h.length_eq ▸ hl) fun p hp ↦ ?_
      obtain ⟨s, hs, hrep⟩ := exists_mem_zip_left h hp
      exact hrep.receiving (by simp) (hr _ hs)
  | array hr =>
    cases h with
    | array size h => exact .array (h.receiving hσ hr)
  | list hr =>
    cases h with
    | list h => exact .list (h.receiving hσ hr)
  | struct hb hnone hopt hr =>
    cases h with
    | struct h =>
      refine .struct hb (fun g hg hf ↦ ?_) (fun g hg g' hg' ↦ ?_) (fun g hg g' hg' ↦ ?_) <;>
        obtain ⟨f, hf, hname, hoptional, hrep⟩ := h.declared g hg
      · rw [← hoptional]
        exact hnone f hf (by rwa [hname])
      · rw [← hoptional]
        exact hopt f hf g' (by rwa [hname])
      · exact hrep.receiving hσ (hr f hf g' (by rwa [hname]))
  | map hk ht =>
    cases h with
    | map hk' ht' => exact .map (hk'.receiving hσ hk) (ht'.receiving hσ ht)
  | named name hr =>
    cases h with
    | named name h => exact .named name (h.receiving hσ hr)
  | unnamed ha hn _ ih => exact .unnamed (h.isShape ha) (h.isNominal hn) (ih h hσ)
  | ofNullable ha hs _ ih => exact .ofNullable (h.isShape ha) hs (ih h hσ)
  | ofInterLeft ha _ ih => exact .ofInterLeft (h.isShape ha) (ih h hσ)
  | ofInterRight ha _ ih => exact .ofInterRight (h.isShape ha) (ih h hσ)
  | _ => cases h

end Alters

theorem Receives.of_shapes (hb' : b'.splits = false)
    (h : ∀ n a, a.isShape → Receives σ n a b → Receives σ n a b') (hb : b.splits = false)
    (hr : Receives σ n a b) : Receives σ n a b' := by
  have hwhole := hr
  induction hr with
  | union | nullableUnion | nullableInterLeft | nullableInterRight => simp [splits] at hb
  | generic _ hl => exact .generic hb' hl
  | genericBinding _ hl hr ih => exact .genericBinding hb' hl (ih h hb hr)
  | bounded _ hl hr ih => exact .bounded hb' hl (ih h hb hr)
  | boundedBinding _ hl hr ih => exact .boundedBinding hb' hl (ih h hb hr)
  | nullable _ hr ih => exact .nullable hb' (ih h hb hr)
  | inter _ hl hr ihl ihr => exact .inter hb' (ihl h hb hl) (ihr h hb hr)
  | unionLeft _ hr ih => exact .unionLeft hb' (ih h hb hr)
  | unionRight _ hr ih => exact .unionRight hb' (ih h hb hr)
  | null ha | checked _ ha | ofGeneric ha | ofBounded ha | unnamed ha | ofNullable ha
  | ofInterLeft ha | ofInterRight ha => exact h _ _ ha hwhole
  | _ => exact h _ _ rfl hwhole

namespace Alters

theorem byShape (h : Alters b b') (hb : b.splits = false) (hb' : b'.splits = false) (ha : a.isShape)
    (hr : Receives σ n a b) : Receives σ n a b' := by
  cases h with
  | bounded name h =>
    cases hr with
    | ofBounded _ hr => exact .ofBounded ha (h.received hr)
    | _ => simp_all [Ty.isShape, mayHideNull, fields?]
  | tuple h =>
    cases hr with
    | any => exact .any rfl rfl
    | tuple hl hr =>
      refine .tuple (hl.trans h.length_eq) fun p hp ↦ ?_
      obtain ⟨t, ht, hrep⟩ := exists_mem_zip_right h hp
      exact hrep.received (hr _ ht)
    | _ => simp_all [Ty.isShape, fields?]
  | array size h =>
    cases hr with
    | any => exact .any rfl rfl
    | array hr => exact .array (h.received hr)
    | _ => simp_all [Ty.isShape, fields?]
  | list h =>
    cases hr with
    | any => exact .any rfl rfl
    | list hr => exact .list (h.received hr)
    | _ => simp_all [Ty.isShape, fields?]
  | struct h =>
    cases hr with
    | any => exact .any rfl rfl
    | openStruct => exact .openStruct rfl
    | struct hs hnone hopt hr =>
      obtain rfl := Option.some_inj.1 hs
      refine .struct rfl (fun f hf hg ↦ hnone f hf (h.of_none hg)) (fun f hf g hg ↦ ?_)
        (fun f hf g hg ↦ ?_) <;> obtain ⟨g', hg', hoptional, hrep⟩ := h.of_some hg
      · rw [← hoptional]
        exact hopt f hf g' hg'
      · exact hrep.received (hr f hf g' hg')
    | _ => simp_all [Ty.isShape]
  | map hk ht =>
    cases hr with
    | any => exact .any rfl rfl
    | map hk' ht' => exact .map (hk.received hk') (ht.received ht')
    | _ => simp_all [Ty.isShape, fields?]
  | named name h =>
    cases hr with
    | named _ hr => exact .named name (h.received hr)
    | unnamed _ hn hr => exact .unnamed ha hn (h.received hr)
    | _ => simp_all [Ty.isShape, mayHideNull, fields?]
  | nullable h =>
    cases hr with
    | ofNullable _ _ hr => exact .ofNullable ha hb' (h.received hr)
    | _ => simp_all [Ty.isShape, splits, mayHideNull, fields?]
  | inter hl hr' =>
    cases hr with
    | ofInterLeft _ hr =>
      refine .ofInterLeft ha ?_
      rw [hl.isNullable, hr'.isNullable]
      exact hl.received hr
    | ofInterRight _ hr =>
      refine .ofInterRight ha ?_
      rw [hl.isNullable, hr'.isNullable]
      exact hr'.received hr
    | _ => simp_all [Ty.isShape, mayHideNull, fields?]
  | union => simp [splits] at hb

theorem received (h : Alters b b') (hr : Receives σ n a b) : Receives σ n a b' := by
  have hwhole := h
  cases h with
  | nullable h => exact h.underNullable hr
  | union hl hr' =>
    obtain ⟨h₁, h₂⟩ := hr.of_receivedUnion
    exact .union (hl.received h₁) (hr'.received h₂)
  | _ => exact hr.of_shapes rfl (fun _ _ ↦ hwhole.byShape rfl rfl) rfl

theorem underNullable (h : Alters b b') (hr : Receives σ n a (.nullable b)) :
    Receives σ n a (.nullable b') := by
  have hwhole := h
  cases h with
  | union hl hr' =>
    obtain ⟨h₁, h₂⟩ := hr.of_receivedNullableUnion
    exact .nullableUnion (hl.underNullable h₁) (hr'.underNullable h₂)
  | inter hl hr' =>
    rcases hr.of_receivedNullableInter with hr | hr
    · exact .nullableInterLeft _ (hl.underNullable hr)
    · exact .nullableInterRight _ (hr'.underNullable hr)
  | _ =>
    refine hr.of_shapes rfl (fun n a ha hr ↦ ?_) rfl
    cases hr with
    | ofNullable _ _ hr => exact .ofNullable ha rfl (hwhole.received hr)
    | _ => simp_all [Ty.isShape, mayHideNull, fields?]

theorem replaceable (h : Alters a a') : Replaceable a a' :=
  ⟨h.isNullable, h.holds, h.receiving, h.received, h.underNullable⟩

end Alters

theorem Replaceable.swapUnion (l r : Ty) : Replaceable (.union l r) (.union r l) where
  isNullable := Bool.or_comm _ _
  holds validators env value hv := by
    simp only [Ty.holds, Bool.or_eq_true] at hv ⊢
    exact hv.symm
  receiving _ hr := hr.of_pieces fun b hb hr ↦ by
    rcases hr.of_union hb with hr | hr <;> rw [Bool.or_comm l.isNullable] at hr
    · exact .unionRight hb hr
    · exact .unionLeft hb hr
  received hr := .union hr.of_receivedUnion.2 hr.of_receivedUnion.1
  underNullable hr :=
    .nullableUnion hr.of_receivedNullableUnion.2 hr.of_receivedNullableUnion.1

theorem Replaceable.swapInter (l r : Ty) : Replaceable (.inter l r) (.inter r l) where
  isNullable := Bool.and_comm _ _
  holds validators env value hv := by
    simp only [Ty.holds, Bool.and_eq_true] at hv ⊢
    exact hv.symm
  receiving _ hr := hr.of_pieces fun b hb hr ↦ by
    obtain ⟨hl, hr⟩ := hr.of_inter hb
    exact .inter hb hr hl
  received hr := hr.of_shapes rfl (fun n a ha hr ↦ by
    have hflag : (l.isNullable != r.isNullable) = (r.isNullable != l.isNullable) :=
      Bool.xor_comm _ _
    cases hr with
    | ofInterLeft _ hr => exact .ofInterRight ha (hflag ▸ hr)
    | ofInterRight _ hr => exact .ofInterLeft ha (hflag ▸ hr)
    | _ => simp_all [isShape, mayHideNull, fields?]) rfl
  underNullable hr := by
    rcases hr.of_receivedNullableInter with hr | hr
    · exact .nullableInterRight r hr
    · exact .nullableInterLeft l hr

theorem Replaceable.regroup (r s t : Ty) :
    Replaceable (.union (.union r s) t) (.union r (.union s t)) where
  isNullable := (Bool.or_assoc _ _ _).symm
  holds validators env value hv := by
    simp only [Ty.holds, Bool.or_eq_true] at hv ⊢
    exact or_assoc.1 hv
  receiving _ hr := hr.of_pieces fun b hb hr ↦ by
    rcases hr.of_union hb with hr | hr
    · rcases hr.of_union hb with hr | hr
      · exact .unionLeft hb (hr.welcome_of (by grind [Ty.isNullable]))
      · exact .unionRight hb ((hr.welcome_of (by grind [Ty.isNullable])).inLeft t)
    · exact .unionRight hb ((hr.welcome_of (by grind [Ty.isNullable])).inRight s)
  received hr := by
    obtain ⟨hrs, ht⟩ := hr.of_receivedUnion
    obtain ⟨hr, hs⟩ := hrs.of_receivedUnion
    exact .union hr (.union hs ht)
  underNullable hr := by
    obtain ⟨hrs, ht⟩ := hr.of_receivedNullableUnion
    obtain ⟨hr, hs⟩ := hrs.of_receivedNullableUnion
    exact .nullableUnion hr (.nullableUnion hs ht)

theorem Replaceable.ungroup (r s t : Ty) :
    Replaceable (.union r (.union s t)) (.union (.union r s) t) :=
  calc
    Replaceable (.union r (.union s t)) (.union (.union s t) r) := .swapUnion _ _
    Replaceable _ (.union s (.union t r)) := .regroup _ _ _
    Replaceable _ (.union (.union t r) s) := .swapUnion _ _
    Replaceable _ (.union t (.union r s)) := .regroup _ _ _
    Replaceable _ (.union (.union r s) t) := .swapUnion _ _

theorem forall₂_middle (h : Replaceable s s') (before after : List Ty) :
    List.Forall₂ Replaceable (before ++ s :: after) (before ++ s' :: after) :=
  List.rel_append (List.forall₂_refl before) (.cons h (List.forall₂_refl after))

theorem Reorders.replaceable (h : Reorders a a') : Replaceable a a' ∧ Replaceable a' a := by
  induction h with
  | swapUnion l r => exact ⟨.swapUnion l r, .swapUnion r l⟩
  | swapInter l r => exact ⟨.swapInter l r, .swapInter r l⟩
  | regroup r s t => exact ⟨.regroup r s t, .ungroup r s t⟩
  | permute hd hp =>
    have hd' := (hp.map (·.name)).nodup_iff.1 hd
    exact ⟨(Alters.struct (.of_perm hd hp)).replaceable,
      (Alters.struct (.of_perm hd' hp.symm)).replaceable⟩
  | bounded name _ ih =>
    exact ⟨(Alters.bounded name ih.1).replaceable, (Alters.bounded name ih.2).replaceable⟩
  | item before after _ ih =>
    exact ⟨(Alters.tuple (forall₂_middle ih.1 before after)).replaceable,
      (Alters.tuple (forall₂_middle ih.2 before after)).replaceable⟩
  | array size _ ih =>
    exact ⟨(Alters.array size ih.1).replaceable, (Alters.array size ih.2).replaceable⟩
  | list _ ih => exact ⟨(Alters.list ih.1).replaceable, (Alters.list ih.2).replaceable⟩
  | field before after name optional _ ih =>
    exact ⟨(Alters.struct (.middle ih.1 before after name optional)).replaceable,
      (Alters.struct (.middle ih.2 before after name optional)).replaceable⟩
  | key t _ ih =>
    exact ⟨(Alters.map ih.1 (.refl t)).replaceable, (Alters.map ih.2 (.refl t)).replaceable⟩
  | value k _ ih =>
    exact ⟨(Alters.map (.refl k) ih.1).replaceable, (Alters.map (.refl k) ih.2).replaceable⟩
  | named name _ ih =>
    exact ⟨(Alters.named name ih.1).replaceable, (Alters.named name ih.2).replaceable⟩
  | nullable _ ih => exact ⟨(Alters.nullable ih.1).replaceable, (Alters.nullable ih.2).replaceable⟩
  | interLeft r _ ih =>
    exact ⟨(Alters.inter ih.1 (.refl r)).replaceable, (Alters.inter ih.2 (.refl r)).replaceable⟩
  | interRight l _ ih =>
    exact ⟨(Alters.inter (.refl l) ih.1).replaceable, (Alters.inter (.refl l) ih.2).replaceable⟩
  | unionLeft r _ ih =>
    exact ⟨(Alters.union ih.1 (.refl r)).replaceable, (Alters.union ih.2 (.refl r)).replaceable⟩
  | unionRight l _ ih =>
    exact ⟨(Alters.union (.refl l) ih.1).replaceable, (Alters.union (.refl l) ih.2).replaceable⟩

theorem replaceable_of_eqvGen (h : EqvGen Reorders a a') :
    Replaceable a a' ∧ Replaceable a' a := by
  induction h with
  | rel _ _ h => exact h.replaceable
  | refl a => exact ⟨.refl a, .refl a⟩
  | symm _ _ _ ih => exact ih.symm
  | trans _ _ _ _ _ ih ih' => exact ⟨ih.1.trans ih'.1, ih'.2.trans ih.2⟩

/-- The order of alternatives, operands and fields matters neither to a match that only reads nor to
a check, whatever is bound, as long as no binding leads back to itself. -/
theorem verdicts_of_reorders (hσ : ∀ ρ ∈ σ, ρ.Acyclic) (ha : EqvGen Reorders a a')
    (hb : EqvGen Reorders b b') :
    (∀ n, ∃ c, accept? ⟨n, false⟩ a b σ = some (c, σ) ∧ accept? ⟨n, false⟩ a' b' σ = some (c, σ)) ∧
    ∀ validators value, ∃ c, check? (σ.getD []) validators a value = some c ∧
      check? (σ.getD []) validators a' value = some c := by
  obtain ⟨hto, hfrom⟩ := replaceable_of_eqvGen ha
  obtain ⟨hto', hfrom'⟩ := replaceable_of_eqvGen hb
  constructor
  · intro n
    obtain ⟨c, hc, hiff⟩ := accept?_reading_verdict hσ n a b
    obtain ⟨c', hc', hiff'⟩ := accept?_reading_verdict hσ n a' b'
    have hsame : c = c' := by
      rw [Bool.eq_iff_iff, hiff, hiff']
      exact ⟨fun h ↦ hto'.received (hto.receiving hσ h),
        fun h ↦ hfrom'.received (hfrom.receiving hσ h)⟩
    exact ⟨c, hc, hsame ▸ hc'⟩
  · intro validators value
    have hρ := acyclic_getD hσ
    refine ⟨_, check?_of_acyclic hρ validators a value, ?_⟩
    rw [check?_of_acyclic hρ, Option.some_inj, Bool.eq_iff_iff]
    exact ⟨hfrom.holds validators _ value, hto.holds validators _ value⟩

theorem verdicts_of_reorders_fields :
    let bindings : Bindings := [("T", .primitive .int)]
    let x : Field Ty := ⟨"x", false,
      .union (.union (.generic "T") (.primitive .bool)) (.literal .null)⟩
    let x' : Field Ty := ⟨"x", false,
      .union (.generic "T") (.union (.literal .null) (.primitive .bool))⟩
    let y : Field Ty := ⟨"y", true, .inter (.primitive .any) (.primitive .int)⟩
    let y' : Field Ty := ⟨"y", true, .inter (.primitive .int) (.primitive .any)⟩
    let b : Ty := .struct [⟨"y", false, .primitive .int⟩,
      ⟨"x", false, .union (.nullable (.literal (.bool true))) (.primitive .int)⟩]
    let b' : Ty := .struct [⟨"y", false, .primitive .int⟩,
      ⟨"x", false, .union (.primitive .int) (.nullable (.literal (.bool true)))⟩]
    accept? .reading (.struct [x, y]) b (some bindings) = some (true, some bindings) ∧
      accept? .reading (.struct [y', x']) b' (some bindings) = some (true, some bindings) := by
  intro bindings x x' y y' b b'
  have hσ : ∀ ρ ∈ some bindings, ρ.Acyclic := by
    rintro _ ⟨⟩
    exact Bindings.Closed.acyclic (by simp [Bindings.Closed, bindings, generics])
  have ha : EqvGen Reorders (.struct [x, y]) (.struct [y', x']) :=
    .trans _ (.struct [x', y]) _
      (.trans _ _ _ (.rel _ _ (.field [] [y] _ _ (.regroup _ _ _)))
        (.rel _ _ (.field [] [y] _ _ (.unionRight _ (.swapUnion _ _)))))
      (.trans _ (.struct [x', y']) _ (.rel _ _ (.field [x'] [] _ _ (.swapInter _ _)))
        (.rel _ _ (.permute (by decide) (.swap _ _ _))))
  have hb : EqvGen Reorders b b' := .rel _ _ (.field [_] [] _ _ (.swapUnion _ _))
  have h : accept? .reading (.struct [x, y]) b (some bindings) = some (true, some bindings) := rfl
  obtain ⟨c, hc, hc'⟩ := (verdicts_of_reorders hσ ha hb).1 false
  obtain ⟨rfl, -⟩ := Prod.mk.inj (Option.some_inj.1 (hc.symm.trans h))
  exact ⟨h, hc'⟩

end FlowTypes.Ty
