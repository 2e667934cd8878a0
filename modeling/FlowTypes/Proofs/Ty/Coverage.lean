import FlowTypes.Proofs.Ty.Ground
import FlowTypes.Proofs.Ty.Inferred

namespace FlowTypes

namespace Json

mutual

/-- Is a member `null`, or a member of an object that is itself a member, and so on? -/
def hasNullMember : Json → Bool
  | .object members => hasNullMembers members
  | _ => false

def hasNullMembers : List (String × Json) → Bool
  | [] => false
  | (_, v) :: members => isNull (some v) || hasNullMember v || hasNullMembers members

end

theorem hasNullMember_object (members : List (String × Json)) :
    hasNullMember (.object members) =
      members.any fun m ↦ isNull (some m.2) || hasNullMember m.2 := by
  rw [hasNullMember]
  induction members with
  | nil => rfl
  | cons m members ih => simp [hasNullMembers, ih]

theorem isNull_iff {v : Json} : isNull (some v) ↔ v = .null := by
  cases v <;> simp [isNull]

mutual

/-- The value with `true` in place of each `null` that is reached through members alone. -/
def fillNulls : Json → Json
  | .null => .bool true
  | .object members => .object (fillMembers members)
  | v => v

def fillMembers : List (String × Json) → List (String × Json)
  | [] => []
  | (name, v) :: members => (name, fillNulls v) :: fillMembers members

end

theorem fillMembers_eq (members : List (String × Json)) :
    fillMembers members = members.map fun m ↦ (m.1, fillNulls m.2) := by
  induction members with
  | nil => rfl
  | cons m members ih => simp [fillMembers, ih]

theorem wellFormed_fillNulls {v : Json} (hv : v.wellFormed) : v.fillNulls.wellFormed := by
  induction v with
  | object members ih =>
    rw [wellFormed_object, Bool.and_eq_true, decide_eq_true_eq, List.all_eq_true] at hv
    simp only [fillNulls, fillMembers_eq, wellFormed_object, List.map_map, Function.comp_def,
      List.all_map, Bool.and_eq_true, decide_eq_true_eq, List.all_eq_true]
    exact ⟨hv.1, fun m hm ↦ ih m hm (hv.2 m hm)⟩
  | null => rfl
  | _ => exact hv

end Json

namespace Ty

variable {env : Env} {t u : Ty} {v : Json}

theorem holds_null_ofJson (env : Env) (v : Json) :
    holds [] env (ofJson v) (some .null) = Json.isNull (some v) := by
  cases v with
  | array xs =>
    rw [ofJson]
    obtain ⟨h, -⟩ | ⟨first, -, h, -⟩ | h := ofSamples_cases (ofItemsJson xs) <;> rw [h] <;> rfl
  | object members => rw [ofJson, holds_of_fields? (fields?_ofFields _)]; rfl
  | _ => rfl

theorem isNullable_ofJson (v : Json) : (ofJson v).isNullable = Json.isNull (some v) := by
  cases v with
  | array xs =>
    rw [ofJson]
    obtain ⟨h, -⟩ | ⟨first, -, h, -⟩ | h := ofSamples_cases (ofItemsJson xs) <;> rw [h] <;> rfl
  | object members =>
    rw [ofJson]
    cases ofMembersJson members <;> rfl
  | _ => rfl

theorem nullFree_ofFields (fs : List (Field Ty)) : nullFree (ofFields fs) =
    fs.all fun f ↦ check? [] [] f.type (some .null) == some false && nullFree f.type := by
  cases fs with
  | nil => rfl
  | cons f fs => exact nullFree_struct _

theorem nullFree_ofJson (v : Json) : (ofJson v).nullFree = !v.hasNullMember := by
  induction v with
  | array xs ih =>
    rw [ofJson]
    obtain ⟨h, -⟩ | ⟨first, -, h, -⟩ | h := ofSamples_cases (ofItemsJson xs) <;> rw [h] <;> rfl
  | object members ih =>
    rw [ofJson, ofMembersJson_eq, Json.hasNullMember_object]
    rw [nullFree_ofFields, List.all_map, List.not_any_eq_all_not, Bool.eq_iff_iff,
      List.all_eq_true, List.all_eq_true]
    refine forall_congr' fun m ↦ imp_congr_right fun hm ↦ ?_
    simp [check?_eq_holds, holds_null_ofJson, ih m hm]
  | _ => rfl

/-- The alternatives of a union. -/
def arms : Ty → List Ty
  | .union s t => arms s ++ arms t
  | t => [t]

theorem holds_eq_any_arms (value : Option Json) :
    holds [] env t value = t.arms.any fun s ↦ holds [] env s value := by
  induction t with
  | union s t ihs iht => simp [holds, arms, ihs, iht]
  | _ => simp [arms]

theorem generics_of_arms (h : ∀ s ∈ t.arms, s.every isInferred) : t.generics = [] := by
  induction t with
  | union s t ihs iht =>
    simp only [arms, List.mem_append] at h
    have hs := ihs fun u hu ↦ h u (.inl hu)
    have ht := iht fun u hu ↦ h u (.inr hu)
    simp [generics, hs, ht]
  | _ => exact generics_of_isInferred (h _ (by simp [arms]))

theorem Receives.arm (hu : u.splits = false) {n : Bool} (h : Receives none n t u) :
    ∃ s ∈ t.arms, ∃ m, Receives none m s u ∧ (m → n ∨ t.isNullable) := by
  induction t generalizing n with
  | union l r ihl ihr =>
    simp only [arms, List.mem_append, isNullable]
    obtain h | h := h.of_union hu
    · obtain ⟨s, hs, m, hr, hn⟩ := ihl h
      exact ⟨s, .inl hs, m, hr, by grind⟩
    · obtain ⟨s, hs, m, hr, hn⟩ := ihr h
      exact ⟨s, .inr hs, m, hr, by grind⟩
  | _ => exact ⟨_, by simp [arms], n, h, .inl⟩

theorem arms_of_isInferred (h : t.every isInferred) : t.arms = [t] := by
  have ht := every_self h
  cases t <;> simp_all [isInferred, arms]

def widen (t : Ty) (v : Json) : Ty := if accepts t (ofJson v) then t else .union t (ofJson v)

theorem holds_widen (v : Json) {value : Option Json} (h : holds [] env t value) :
    holds [] env (widen t v) value := by
  unfold widen
  split
  · exact h
  · simp [holds, h]

theorem arms_widen (ht : ∀ s ∈ t.arms, s.every isInferred) (hv : v.wellFormed) :
    ∀ s ∈ (widen t v).arms, s.every isInferred := by
  unfold widen
  split
  · exact ht
  · have hi := isInferred_ofJson hv
    intro s hs
    rw [arms, arms_of_isInferred hi, List.mem_append, List.mem_singleton] at hs
    obtain hs | rfl := hs
    · exact ht s hs
    · exact hi

theorem isNullable_widen (h : (widen t v).isNullable) : t.isNullable ∨ v = .null := by
  unfold widen at h
  split at h
  · exact .inl h
  · simpa [isNullable, isNullable_ofJson, Json.isNull_iff] using h

theorem holds_widen_sample (ht : ∀ s ∈ t.arms, s.every isInferred) (hv : v.wellFormed)
    (hn : t.isNullable → v.hasNullMember = false) : holds [] env (widen t v) (some v) := by
  have hi := isInferred_ofJson hv
  unfold widen
  split
  · next ha =>
    obtain ⟨s, hs, m, hr, hm⟩ := (accepts_iff.1 ha).arm (splits_of_isInferred hi)
    have hm' : m → t.isNullable := by simpa using hm
    have hsound : Sound m s (ofJson v) := by
      refine sound_of_isInferred (ht s hs) hi fun h ↦ ?_
      rw [nullFree_ofJson, hn (hm' h)]
      rfl
    obtain h | ⟨rfl, rfl⟩ := holds_of_receives hr hsound hv (holds_ofJson env hv)
    · rw [holds_eq_any_arms, List.any_eq_true]
      exact ⟨s, hs, h⟩
    · exact holds_null_of_isNullable (hm' rfl)
  · simp [holds, holds_ofJson env hv]

theorem holds_foldl_widen (vs : List Json) {value : Option Json} (h : holds [] env t value) :
    holds [] env (vs.foldl widen t) value := by
  induction vs generalizing t with
  | nil => exact h
  | cons v vs ih => exact ih (holds_widen v h)

theorem arms_foldl_widen {vs : List Json} (ht : ∀ s ∈ t.arms, s.every isInferred)
    (hvs : ∀ v ∈ vs, v.wellFormed) : ∀ s ∈ (vs.foldl widen t).arms, s.every isInferred := by
  induction vs generalizing t with
  | nil => exact ht
  | cons v vs ih =>
    exact ih (arms_widen ht (hvs v (by simp))) fun w hw ↦ hvs w (by simp [hw])

theorem isNullable_foldl_widen {vs : List Json} (h : (vs.foldl widen t).isNullable) :
    t.isNullable ∨ .null ∈ vs := by
  induction vs generalizing t with
  | nil => exact .inl h
  | cons v vs ih =>
    obtain h | h := ih h
    · obtain h | rfl := isNullable_widen h
      · exact .inl h
      · exact .inr (by simp)
    · exact .inr (by simp [h])

theorem arms_ofJson (hv : v.wellFormed) : ∀ s ∈ (ofJson v).arms, s.every isInferred := by
  have hi := isInferred_ofJson hv
  rw [arms_of_isInferred hi]
  simpa using hi

theorem Receives.ofFields {σ : Option Bindings} {n : Bool} {fs gs : List (Field Ty)}
    (h : ∀ f ∈ fs, ∃ g, field? f.name gs = some g ∧ g.optional = false ∧
      Receives σ n f.type g.type) : Receives σ n (ofFields fs) (ofFields gs) := by
  cases fs with
  | nil => exact .openStruct (by simp [fields?_ofFields])
  | cons f fs =>
    refine .struct (fields?_ofFields gs) (fun f' hf hg ↦ ?_) (fun f' hf g hg ↦ ?_)
      (fun f' hf g hg ↦ ?_) <;> obtain ⟨g', hg', ho, hr⟩ := h f' hf
    · simp [hg'] at hg
    · obtain rfl : g' = g := by simpa [hg'] using hg
      simp [ho]
    · obtain rfl : g' = g := by simpa [hg'] using hg
      exact hr

theorem receives_fillNulls (hv : v.wellFormed) :
    Receives none true (ofJson v.fillNulls) (ofJson v) := by
  induction v with
  | null => exact .null rfl rfl
  | object members ih =>
    rw [Json.wellFormed_object, Bool.and_eq_true, decide_eq_true_eq, List.all_eq_true] at hv
    rw [Json.fillNulls, ofJson, ofJson, ofMembersJson_eq, ofMembersJson_eq, Json.fillMembers_eq]
    apply Receives.ofFields
    intro f hf
    rw [List.map_map, List.mem_map] at hf
    obtain ⟨m, hm, rfl⟩ := hf
    refine ⟨⟨m.1, false, ofJson m.2⟩, ?_, rfl, ih m hm (hv.2 m hm)⟩
    apply field?_eq_some (f := ⟨m.1, false, ofJson m.2⟩)
    · simpa [Function.comp_def] using hv.1
    · exact List.mem_map_of_mem hm
  | _ => exact .refl (isPlain_of_isInferred (isInferred_ofJson hv)) none true

theorem holds_fillNulls (env : Env) (hv : v.wellFormed) (hn : v.hasNullMember) :
    holds [] env (ofJson v.fillNulls) (some v) = false := by
  induction v with
  | object members ih =>
    rw [Json.wellFormed_object, Bool.and_eq_true, decide_eq_true_eq, List.all_eq_true] at hv
    rw [Json.hasNullMember_object, List.any_eq_true] at hn
    obtain ⟨m, hm, hn⟩ := hn
    rw [Json.fillNulls, ofJson, ofMembersJson_eq, Json.fillMembers_eq,
      holds_of_fields? (fields?_ofFields _), Json.isObjectWith, holdsFields_eq, List.map_map,
      List.all_map, List.all_eq_false]
    refine ⟨m, hm, ?_⟩
    have hfield : holds [] env (ofJson m.2.fillNulls) (some m.2) = false := by
      cases hm2 : Json.isNull (some m.2) with
      | true =>
        rw [Json.isNull_iff.1 hm2]
        rfl
      | false => exact ih m hm (hv.2 m hm) (by simpa [hm2] using hn)
    simp [lookup_of_mem hv.1 hm, hfield]
  | _ => simp [Json.hasNullMember] at hn

end Ty

namespace Inference

open Session Ty

variable {t : Ty} {v : Json} {vs : List Json}

def covering (t : Ty) : Inference := ⟨[(sample, t)]⟩

theorem accept?_generic (mode : Mode) (name : String) {u : Ty} (hu : u.splits = false)
    (σ : Option Bindings) : ∃ fuel, (σ.getD []).size + u.load ≤ fuel ∧
      accept? mode (.generic name) u σ =
        receiveGeneric (acceptWithin fuel) mode name none u σ := by
  have hd := le_acceptDepth (.generic name) u σ fun _ ↦ Nat.le_refl _
  have hr : (σ.getD []).size < (Ty.generic name).reach fun _ ↦ (σ.getD []).size :=
    depth_lt_reach (fun _ ↦ (σ.getD []).size) name none
  refine ⟨acceptDepth (.generic name) u σ - 1, by omega, ?_⟩
  have hs : acceptDepth (.generic name) u σ = acceptDepth (.generic name) u σ - 1 + 1 := by omega
  unfold accept?
  rw [hs, acceptWithin, receiveParts_of_not_splits hu]
  rfl

theorem observe_start (hv : v.wellFormed) : start.observe v = covering (ofJson v) := by
  have hu := splits_of_isInferred (isInferred_ofJson hv)
  obtain ⟨fuel, -, h⟩ := accept?_generic .resolve sample hu (some [])
  unfold observe start
  rw [h]
  rfl

theorem accepts_of_covering {fuel : Nat} {u : Ty} (ht : t.generics = [])
    (hf : (covering t).seen.size + u.load ≤ fuel) :
    acceptWithin fuel .resolve t u (some (covering t).seen) =
      some (accepts t u, some (covering t).seen) := by
  have hc : (covering t).seen.Closed := by simpa [Bindings.Closed, covering] using ht
  have hs : t.size ≤ (covering t).seen.size := by simp [covering, Bindings.size]
  have hr : (t.reach fun _ ↦ (covering t).seen.size) = t.size := reach_of_ground ht
  have hd : Decides (acceptWithin fuel ⟨false, false⟩ t u) (some (covering t).seen) :=
    decides_acceptWithin (shallow_of_closed hc).layered (by omega)
  obtain ⟨c, hc⟩ := hd
  rw [Mode.resolve, refines_of_ground ht fuel false false true u _ _ hc]
  congr 2
  rw [Bool.eq_iff_iff, accepts_iff]
  refine ⟨fun h ↦ ?_, fun h ↦ affirms_of_receives (h.rebind ht) _ _ _ hc⟩
  subst h
  exact (receives_of_acceptWithin hc).rebind ht

theorem observe_covering (ht : t.generics = []) (hv : v.wellFormed) :
    (covering t).observe v = covering (widen t v) := by
  have hu := splits_of_isInferred (isInferred_ofJson hv)
  obtain ⟨fuel, hf, h⟩ := accept?_generic .resolve sample hu (some (covering t).seen)
  unfold observe
  rw [h]
  have hg : receiveGeneric (acceptWithin fuel) .resolve sample none (ofJson v)
      (some (covering t).seen) = both (pure true) (either (acceptWithin fuel .resolve t (ofJson v))
        (assign sample (.union t (ofJson v)))) (some (covering t).seen) := rfl
  rw [hg, both_apply, pure_apply, Option.bind_some, if_pos rfl, either_apply,
    accepts_of_covering ht hf]
  unfold widen
  cases accepts t (ofJson v) <;> rfl

theorem foldl_observe (ht : ∀ s ∈ t.arms, s.every isInferred) (hvs : ∀ v ∈ vs, v.wellFormed) :
    vs.foldl observe (covering t) = covering (vs.foldl widen t) := by
  induction vs generalizing t with
  | nil => rfl
  | cons v vs ih =>
    have hv := hvs v (by simp)
    rw [List.foldl_cons, List.foldl_cons, observe_covering (generics_of_arms ht) hv]
    exact ih (arms_widen ht hv) fun w hw ↦ hvs w (by simp [hw])

theorem ofValues_cons (hv : v.wellFormed) (hvs : ∀ v ∈ vs, v.wellFormed) :
    ofValues (v :: vs) = some (vs.foldl widen (ofJson v)) := by
  rw [ofValues, List.foldl_cons, observe_start hv, foldl_observe (arms_ofJson hv) hvs]
  simp [covering, solve]

/-- A sample is covered, whatever comes before and after it, unless a `null` comes before it and one
of its members is `null`. -/
theorem holds_ofValues {before after : List Json} (hb : ∀ w ∈ before, w.wellFormed)
    (hv : v.wellFormed) (ha : ∀ w ∈ after, w.wellFormed)
    (hn : .null ∈ before → v.hasNullMember = false) {t : Ty}
    (ht : ofValues (before ++ v :: after) = some t) : holds [] .empty t (some v) := by
  cases before with
  | nil =>
    rw [List.nil_append, ofValues_cons hv ha, Option.some_inj] at ht
    rw [← ht]
    exact holds_foldl_widen after (holds_ofJson .empty hv)
  | cons w before =>
    have hw := hb w (by simp)
    have hbefore : ∀ u ∈ before, u.wellFormed := fun u hu ↦ hb u (by simp [hu])
    rw [List.cons_append, ofValues_cons hw (by grind), Option.some_inj, List.foldl_append,
      List.foldl_cons] at ht
    rw [← ht]
    apply holds_foldl_widen
    apply holds_widen_sample (arms_foldl_widen (arms_ofJson hw) hbefore) hv
    intro h
    apply hn
    obtain h | h := isNullable_foldl_widen h
    · rw [isNullable_ofJson, Json.isNull_iff] at h
      simp [h]
    · simp [h]

theorem ofValues_fillNulls (hv : v.wellFormed) (hn : v.hasNullMember) :
    ofValues [v.fillNulls, .null, v] = some (.union (ofJson v.fillNulls) (.literal .null)) := by
  have hw := Json.wellFormed_fillNulls hv
  have hi := isInferred_ofJson hw
  have hnull : widen (ofJson v.fillNulls) .null = .union (ofJson v.fillNulls) (.literal .null) := by
    refine if_neg fun h ↦ ?_
    have hs : Sound false (ofJson v.fillNulls) (ofJson .null) :=
      sound_of_isInferred hi rfl (by simp)
    have hh : holds [] .empty (ofJson v.fillNulls) (some .null) ∨ _ :=
      holds_of_receives (accepts_iff.1 h) hs rfl rfl
    rw [holds_null_ofJson] at hh
    cases v <;> simp_all [Json.fillNulls, Json.isNull, Json.hasNullMember]
  rw [ofValues_cons hw (by simp [hv, Json.wellFormed]), List.foldl_cons, List.foldl_cons,
    List.foldl_nil, hnull, Option.some_inj]
  refine if_pos (accepts_iff.2 ?_)
  apply Receives.unionLeft (splits_of_isInferred (isInferred_ofJson hv))
  simpa [isNullable] using receives_fillNulls hv

/-- The type inferred from samples covers each of them, unless a `null` comes before it and one of
its members is `null`. Every sample with such a member is lost after some samples. -/
theorem ofValues_covers (hvs : ∀ v ∈ vs, v.wellFormed) (hne : vs ≠ []) :
    (∃ t, ofValues vs = some t ∧ ∀ before v after, vs = before ++ v :: after →
      (.null ∈ before → v.hasNullMember = false) → check? [] [] t (some v) = some true) ∧
    ∀ v : Json, v.wellFormed → v.hasNullMember → ∃ w t, w.wellFormed ∧
      ofValues [w, .null, v] = some t ∧ check? [] [] t (some v) = some false := by
  constructor
  · obtain ⟨w, ws, rfl⟩ := List.exists_cons_of_ne_nil hne
    have ht := ofValues_cons (hvs w (by simp)) fun v (hv : v ∈ ws) ↦ hvs v (by simp [hv])
    refine ⟨_, ht, fun before v after he hn ↦ ?_⟩
    rw [he] at hvs ht
    rw [check?_eq_holds, holds_ofValues _ _ _ hn ht]
    all_goals grind
  · intro v hv hn
    refine ⟨v.fillNulls, _, Json.wellFormed_fillNulls hv, ofValues_fillNulls hv hn, ?_⟩
    have hnull : Literal.null.is v = false := by
      cases v <;> simp_all [Literal.is, Json.hasNullMember]
    simp [check?_eq_holds, holds, holds_fillNulls .empty hv hn, hnull]

theorem ofValues_covers_before_null :
    ∃ t, ofValues [.object [("a", .null)], .null, .array [.null]] = some t ∧
      check? [] [] t (some (.object [("a", .null)])) = some true ∧
      check? [] [] t (some (.array [.null])) = some true := by
  obtain ⟨⟨t, ht, h⟩, -⟩ := @ofValues_covers [.object [("a", .null)], .null, .array [.null]]
    (by decide) (by simp)
  exact ⟨t, ht, h [] _ _ rfl (by simp), h [_, _] _ [] rfl (fun _ ↦ rfl)⟩

/-- A sample is lost: its member is `null`, and a `null` was seen before it. -/
theorem ofValues_loses_sample :
    ofValues [.object [("a", .int 1)], .null, .object [("a", .null)]] =
      some (.union (.struct [⟨"a", false, .primitive .float⟩]) (.literal .null)) ∧
    check? [] [] (.union (.struct [⟨"a", false, .primitive .float⟩]) (.literal .null))
      (some (.object [("a", .null)])) = some false := ⟨rfl, rfl⟩

end Inference

end FlowTypes
