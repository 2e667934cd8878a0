import FlowTypes.Proofs.Ty.InferredOrder
import FlowTypes.Proofs.Ty.Literals
import FlowTypes.Proofs.Ty.Substitution

namespace FlowTypes

theorem Double.equal_symm {x y : Double} (h : x.equal y) : y.equal x := by
  rw [equal_iff] at h ⊢
  exact ⟨h.2.1, h.1, h.2.2.imp Eq.symm And.symm⟩

namespace Json

/-- Both values are one value, written in two ways. -/
inductive Alike : Json → Json → Prop
  | null : Alike .null .null
  | bool (b : Bool) : Alike (.bool b) (.bool b)
  | string (s : String) : Alike (.string s) (.string s)
  | number {v w : Json} {x y : Double} : v.toDouble? = some x → w.toDouble? = some y →
      x.equal y → Alike v w
  | array {xs ys : List Json} : xs.length = ys.length → (∀ p ∈ xs.zip ys, Alike p.1 p.2) →
      Alike (.array xs) (.array ys)
  | object {ms ns : List (String × Json)} : (ms.map (·.1)).Perm (ns.map (·.1)) →
      (∀ m ∈ ms, ∀ n ∈ ns, m.1 = n.1 → Alike m.2 n.2) → Alike (.object ms) (.object ns)

namespace Alike

variable {v w : Json} {value value' : Option Json}

theorem symm (h : Alike v w) : Alike w v := by
  induction h with
  | null => exact .null
  | bool b => exact .bool b
  | string s => exact .string s
  | number hx hy h => exact .number hy hx (Double.equal_symm h)
  | array hl _ ih => exact .array hl.symm fun p hp ↦ ih (p.2, p.1) (mem_zip_comm.1 hp)
  | object hperm _ ih => exact .object hperm.symm fun n hn m hm he ↦ ih m hm n hn he.symm

theorem lookup {ms ns : List (String × Json)} (hperm : (ms.map (·.1)).Perm (ns.map (·.1)))
    (h : ∀ m ∈ ms, ∀ n ∈ ns, m.1 = n.1 → Alike m.2 n.2) (name : String) :
    Option.Rel Alike (ms.lookup name) (ns.lookup name) := by
  have hmem : name ∈ Entries.names ms ↔ name ∈ Entries.names ns := hperm.mem_iff
  cases hm : ms.lookup name with
  | none =>
    rw [Entries.lookup_eq_none_iff_names, hmem, ← Entries.lookup_eq_none_iff_names] at hm
    rw [hm]
    exact .none
  | some x =>
    have hn : ns.lookup name ≠ none := by
      rw [Ne, Entries.lookup_eq_none_iff_names, not_not, ← hmem]
      exact Entries.mem_names_of_lookup hm
    obtain ⟨y, hy⟩ := Option.ne_none_iff_exists'.1 hn
    rw [hy]
    exact .some (h _ (mem_of_lookup hm) _ (mem_of_lookup hy) rfl)

theorem isNone (h : Option.Rel Alike value value') : value.isNone = value'.isNone := by
  cases h <;> rfl

theorem is (h : Alike v w) {l : Literal} (hl : l.is v) : l.is w := by
  cases h with
  | @number _ _ x y hx hy hxy =>
    cases l with
    | number z =>
      obtain ⟨x', hx', hzx⟩ := Literal.is_number hl
      obtain rfl : x = x' := by simpa [hx] using hx'
      have hzy := Double.equal_trans hzx hxy
      cases w <;> simp_all [Literal.is, toDouble?]
    | _ => cases v <;> simp [Literal.is, toDouble?] at hl hx
  | array | object => cases l <;> simp [Literal.is, toDouble?] at hl
  | _ => exact hl

theorem admits (h : Alike v w) {p : Primitive} (hp : p.admits (some v)) : p.admits (some w) := by
  cases h with
  | @number _ _ x y hx hy hxy =>
    have hint : x.isInt32 → y.isInt32 := Double.isInt32_of_equal hxy
    cases p <;> cases v <;> cases w <;> simp_all [Primitive.admits, toDouble?]
  | array | object => cases p <;> simp_all [Primitive.admits, toDouble?]
  | _ => exact hp

theorem isNull (h : Alike v w) (hv : Json.isNull (some v)) : Json.isNull (some w) := by
  cases h with
  | number hx => cases v <;> simp [Json.isNull, toDouble?] at hv hx
  | array | object => simp [Json.isNull] at hv
  | _ => exact hv

theorem isArrayWith (h : Option.Rel Alike value value') {p : List Json → Bool}
    (hp : ∀ xs ys, List.Forall₂ Alike xs ys → p xs → p ys) (hv : Json.isArrayWith p value) :
    Json.isArrayWith p value' := by
  cases h with
  | none => simp [Json.isArrayWith] at hv
  | @some v w h =>
    cases h with
    | array hl h => exact hp _ _ (List.forall₂_iff_zip.2 ⟨hl, fun hz ↦ h _ hz⟩) hv
    | number hx => cases v <;> simp [Json.isArrayWith, toDouble?] at hv hx
    | _ => simp [Json.isArrayWith] at hv

theorem isObjectWith (h : Option.Rel Alike value value') {p : List (String × Json) → Bool}
    (hp : ∀ ms ns, (ms.map (·.1)).Perm (ns.map (·.1)) →
      (∀ m ∈ ms, ∀ n ∈ ns, m.1 = n.1 → Alike m.2 n.2) → p ms → p ns)
    (hv : Json.isObjectWith p value) : Json.isObjectWith p value' := by
  cases h with
  | none => simp [Json.isObjectWith] at hv
  | @some v w h =>
    cases h with
    | object hperm h => exact hp _ _ hperm h hv
    | number hx => cases v <;> simp [Json.isObjectWith, toDouble?] at hv hx
    | _ => simp [Json.isObjectWith] at hv

end Alike

end Json

namespace Ty

open Json

variable {v w : Json} {value value' : Option Json} {a b t : Ty}

theorem holds_of_alike (h : Option.Rel Alike value value') (ht : holds [] .empty t value) :
    holds [] .empty t value' := by
  induction t generalizing value value' with
  | literal l =>
    cases h with
    | none => exact ht
    | some h => simpa [holds] using h.is (by simpa [holds] using ht)
  | primitive p =>
    cases h with
    | none => exact ht
    | some h => simpa [holds] using h.admits (by simpa [holds] using ht)
  | generic name => simp [holds, Env.empty]
  | bounded name t ih => simpa [holds, Env.empty] using ih h (by simpa [holds, Env.empty] using ht)
  | emptyTuple =>
    refine Alike.isArrayWith h (fun xs ys hxy hx ↦ ?_) ht
    rw [List.isEmpty_iff] at hx ⊢
    exact List.forall₂_nil_left_iff.1 (hx ▸ hxy)
  | tuple ts ih =>
    refine Alike.isArrayWith h (fun xs ys hxy hx ↦ ?_) ht
    simp only [holdsItems_eq, Bool.and_eq_true, beq_iff_eq, List.all_eq_true] at hx ⊢
    refine ⟨hxy.length_eq ▸ hx.1, fun p hp ↦ ?_⟩
    obtain ⟨x, hm, hx'⟩ := exists_mem_zip_right hxy hp
    exact ih p.1 (List.of_mem_zip hp).1 (.some hx') (hx.2 _ hm)
  | array t size ih =>
    refine Alike.isArrayWith h (fun xs ys hxy hx ↦ ?_) ht
    simp only [Bool.and_eq_true, beq_iff_eq, List.all_eq_true] at hx ⊢
    refine ⟨hxy.length_eq ▸ hx.1, fun y hy ↦ ?_⟩
    obtain ⟨x, hm, hx'⟩ := exists_of_mem_forall₂ hxy hy
    exact ih (.some hx') (hx.2 x hm)
  | list t ih =>
    refine Alike.isArrayWith h (fun xs ys hxy hx ↦ ?_) ht
    rw [List.all_eq_true] at hx ⊢
    intro y hy
    obtain ⟨x, hm, hx'⟩ := exists_of_mem_forall₂ hxy hy
    exact ih (.some hx') (hx x hm)
  | openStruct => exact Alike.isObjectWith h (fun _ _ _ _ _ ↦ rfl) ht
  | struct fs ih =>
    refine Alike.isObjectWith h (fun ms ns hperm hmn hm ↦ ?_) ht
    simp only [holdsFields_eq, List.all_eq_true, Bool.or_eq_true, Bool.and_eq_true] at hm ⊢
    intro f hf
    have hl := Alike.lookup hperm hmn f.name
    exact (hm f hf).imp (And.imp_right fun hnone ↦ Alike.isNone hl ▸ hnone) (ih f hf hl)
  | map k t _ ih =>
    refine Alike.isObjectWith h (fun ms ns hperm hmn hm ↦ ?_) ht
    simp only [List.all_eq_true, Bool.and_eq_true] at hm ⊢
    intro n hn
    obtain ⟨m, hm', hname⟩ := List.mem_map.1 (hperm.mem_iff.2 (List.mem_map_of_mem hn))
    obtain ⟨hkey, hvalue⟩ := hm m hm'
    exact ⟨hname ▸ hkey, ih (.some (hmn m hm' n hn hname)) hvalue⟩
  | tag name => simp [holds, Validators.admits]
  | named name t ih =>
    simp only [holds, Bool.and_eq_true] at ht ⊢
    exact ⟨ih h ht.1, by simp [Validators.admits]⟩
  | nullable t ih =>
    simp only [holds, Bool.or_eq_true] at ht ⊢
    refine ht.imp (fun hv ↦ ?_) (ih h)
    cases h with
    | none => exact hv
    | some h => exact h.isNull hv
  | inter s t ihs iht =>
    simp only [holds, Bool.and_eq_true] at ht ⊢
    exact ht.imp (ihs h) (iht h)
  | union s t ihs iht =>
    simp only [holds, Bool.or_eq_true] at ht ⊢
    exact ht.imp (ihs h) (iht h)

theorem holds_eq_of_alike (h : Alike v w) (t : Ty) :
    holds [] .empty t (some v) = holds [] .empty t (some w) :=
  Bool.eq_iff_iff.2 ⟨holds_of_alike (.some h), holds_of_alike (.some h.symm)⟩

theorem same_of_forall₂ {ss ts : List Ty} (hs : ∀ s ∈ ss, s.every isExact)
    (ht : ∀ t ∈ ts, t.every isExact) (h : List.Forall₂ (fun s t ↦ same s t) ss ts)
    (hss : ∀ s ∈ ss, ∀ s' ∈ ss, same s s') : ∀ t ∈ ts, ∀ t' ∈ ts, same t t' := by
  intro t hm t' hm'
  obtain ⟨s, hsm, hst⟩ := exists_of_mem_forall₂ h hm
  obtain ⟨s', hsm', hst'⟩ := exists_of_mem_forall₂ h hm'
  have hback : same t s := same_symm (hs s hsm) (ht t hm) hst
  have hacross : same t s' := same_trans (ht t hm) (hs s hsm) (hs s' hsm') hback (hss s hsm s' hsm')
  exact same_trans (ht t hm) (hs s' hsm') (ht t' hm') hacross hst'

theorem ofSamples_same {ss ts : List Ty} (hs : ∀ s ∈ ss, s.every isExact)
    (ht : ∀ t ∈ ts, t.every isExact) (h : List.Forall₂ (fun s t ↦ same s t) ss ts) :
    same (ofSamples ss) (ofSamples ts) := by
  have hback : List.Forall₂ (fun t s ↦ same t s) ts ss := by
    refine List.forall₂_iff_zip.2 ⟨h.length_eq.symm, fun {t s} hm ↦ ?_⟩
    have hzip := mem_zip_comm.1 hm
    exact same_symm (hs s (List.of_mem_zip hzip).1) (ht t (List.of_mem_zip hzip).2)
      ((List.forall₂_iff_zip.1 h).2 hzip)
  obtain _ | ⟨hfirst, hrest⟩ := id h
  · rfl
  · next s t ss ts =>
    have hiff := (ofSamples_eq_array_iff hs).trans <|
      Iff.trans ⟨same_of_forall₂ hs ht h, same_of_forall₂ ht hs hback⟩
        (ofSamples_eq_array_iff ht).symm
    by_cases hss : ofSamples (s :: ss) = .array s (ss.length + 1)
    · rw [hss, hiff.1 hss, hrest.length_eq]
      simp [same, hfirst]
    · rw [ofSamples_eq_tuple hss, ofSamples_eq_tuple (mt hiff.2 hss), same_tuple_iff]
      exact ⟨h.length_eq, fun p hp ↦ (List.forall₂_iff_zip.1 h).2 hp⟩

theorem ofJson_of_toDouble? {x : Double} (h : v.toDouble? = some x) :
    ofJson v = .primitive .float := by
  cases v <;> simp_all [toDouble?, ofJson]

theorem ofJson_same_of_alike (h : Alike v w) (hv : v.wellFormed) (hw : w.wellFormed) :
    (ofJson v).same (ofJson w) := by
  induction h with
  | null | bool | string => rfl
  | number hx hy =>
    rw [ofJson_of_toDouble? hx, ofJson_of_toDouble? hy]
    rfl
  | @array xs ys hl _ ih =>
    rw [wellFormed_array, List.all_eq_true] at hv hw
    rw [ofJson, ofJson, ofItemsJson_eq, ofItemsJson_eq]
    refine ofSamples_same ?_ ?_ ?_
    · simpa using fun x hx ↦ isExact_ofJson (hv x hx)
    · simpa using fun y hy ↦ isExact_ofJson (hw y hy)
    · rw [List.forall₂_map_left_iff, List.forall₂_map_right_iff, List.forall₂_iff_zip]
      refine ⟨hl, fun {x y} hm ↦ ?_⟩
      obtain ⟨hx, hy⟩ := List.of_mem_zip hm
      exact ih (x, y) hm (hv x hx) (hw y hy)
  | @object ms ns hperm _ ih =>
    rw [wellFormed_object, Bool.and_eq_true, decide_eq_true_eq, List.all_eq_true] at hv hw
    rw [ofJson, ofJson, ofMembersJson_eq, ofMembersJson_eq, same_ofFields_iff]
    refine ⟨by simpa using hperm.length_eq, fun f hf ↦ ?_⟩
    obtain ⟨m, hm, rfl⟩ := List.mem_map.1 hf
    obtain ⟨n, hn, hname⟩ := List.mem_map.1 (hperm.mem_iff.1 (List.mem_map_of_mem hm))
    refine ⟨⟨n.1, false, ofJson n.2⟩, ?_, rfl, ih m hm n hn hname.symm (hv.2 m hm) (hw.2 n hn)⟩
    have hd : ((ns.map fun n ↦ (⟨n.1, false, ofJson n.2⟩ : Field Ty)).map (·.name)).Nodup := by
      simpa [Function.comp_def] using hw.1
    exact hname ▸ field?_eq_some hd (List.mem_map_of_mem hn)

/-- Values that are one value, written in two ways, conform to the same types, whatever is bound,
and the types inferred from them are equal, but for the order of fields. -/
theorem check?_infer_of_alike (h : Alike v w) (hv : v.wellFormed) (hw : w.wellFormed) :
    (∀ ρ : Bindings, ρ.Acyclic → ∀ t, ∃ c, check? ρ [] t (some v) = some c ∧
      check? ρ [] t (some w) = some c) ∧
    (infer (some v)).same (infer (some w)) := by
  refine ⟨fun ρ hρ t ↦ ⟨_, check?_eq_holds_instantiate hρ [] t (some v), ?_⟩,
    ofJson_same_of_alike h hv hw⟩
  rw [check?_eq_holds_instantiate hρ, holds_eq_of_alike h]

theorem check?_infer_of_alike_numbers :
    let v : Json := .object [("n", .array [.int 0, .int 9007199254740993]), ("s", .string "x")]
    let w : Json := .object [("s", .string "x"),
      ("n", .array [.double ⟨true, 0⟩, .double ⟨false, 4845873199050653696⟩])]
    let ρ : Bindings := [("T", .list (.generic "U")), ("U", .primitive .float)]
    let t : Ty := .struct [⟨"n", false, .generic "T"⟩, ⟨"s", true, .primitive .char⟩]
    v.Alike w ∧ v.wellFormed ∧ w.wellFormed ∧ ρ.Acyclic ∧
      check? ρ [] t (some v) = some true ∧ check? ρ [] t (some w) = some true ∧
      (infer (some v)).same (infer (some w)) := by
  intro v w ρ t
  have hzero : Alike (.int 0) (.double ⟨true, 0⟩) := .number rfl rfl (by decide +kernel)
  have hbig : Alike (.int 9007199254740993) (.double ⟨false, 4845873199050653696⟩) :=
    .number rfl rfl (by decide +kernel)
  have hitems : Alike (.array [.int 0, .int 9007199254740993])
      (.array [.double ⟨true, 0⟩, .double ⟨false, 4845873199050653696⟩]) :=
    .array rfl (by simp [hzero, hbig])
  have h : v.Alike w := .object (.swap _ _ _) (by simp [hitems, Alike.string])
  have hv : v.wellFormed := by decide +kernel
  have hw : w.wellFormed := by decide +kernel
  have hρ : ρ.Acyclic := Bindings.acyclic_of_entries
    (fun name ↦ if name = "T" then 5 else if name = "U" then 2 else 0) (by decide)
  obtain ⟨hcheck, hinfer⟩ := check?_infer_of_alike h hv hw
  have ht : check? ρ [] t (some v) = some true := rfl
  obtain ⟨c, hc, hc'⟩ := hcheck ρ hρ t
  obtain rfl : true = c := Option.some_inj.1 (ht.symm.trans hc)
  exact ⟨h, hv, hw, hρ, ht, hc', hinfer⟩

end Ty

end FlowTypes
