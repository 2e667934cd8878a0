import FlowTypes.Proofs.Ty.Inferred
import FlowTypes.Proofs.Ty.Order
import Mathlib.Data.List.Perm.Subperm

namespace FlowTypes.Ty

variable {a b c t : Ty} {fs gs : List (Field Ty)}

/-- The second type has the nodes of the first one, and structs that may have further fields. -/
inductive Fits : Ty → Ty → Prop
  | null : Fits (.literal .null) (.literal .null)
  | primitive (p : Primitive) : Fits (.primitive p) (.primitive p)
  | emptyTuple : Fits .emptyTuple .emptyTuple
  | tuple {ss ts : List Ty} : ss.length = ts.length → (∀ p ∈ ss.zip ts, Fits p.1 p.2) →
      Fits (.tuple ss) (.tuple ts)
  | array {s t : Ty} (size : Nat) : Fits s t → Fits (.array s size) (.array t size)
  | fields {a b : Ty} {fs gs : List (Field Ty)} : a.fields? = some fs → b.fields? = some gs →
      (∀ f ∈ fs, ∃ g, field? f.name gs = some g ∧ g.optional = false) →
      (∀ f ∈ fs, ∀ g, field? f.name gs = some g → Fits f.type g.type) → Fits a b

theorem Fits.found (h : Fits a b) (hfs : a.fields? = some fs) (hgs : b.fields? = some gs) :
    (∀ f ∈ fs, ∃ g, field? f.name gs = some g) ∧
      ∀ f ∈ fs, ∀ g, field? f.name gs = some g → Fits f.type g.type := by
  cases h with
  | @fields _ _ fs' gs' hfs' hgs' hfound h =>
    obtain rfl : fs = fs' := by simpa [hfs] using hfs'
    obtain rfl : gs = gs' := by simpa [hgs] using hgs'
    exact ⟨fun f hf ↦ (hfound f hf).imp fun _ h ↦ h.1, h⟩
  | _ => simp [fields?] at hfs

theorem Fits.receives {σ : Option Bindings} {n : Bool} (h : Fits a b) : Receives σ n a b := by
  induction h generalizing σ n with
  | null => exact .literal rfl
  | primitive p => exact .primitive p
  | emptyTuple => exact .emptyTuple
  | tuple hl _ ih => exact .tuple hl fun p hp ↦ ih p hp
  | array size _ ih => exact .array ih
  | @fields a b fs gs ha hb hfound _ ih =>
    cases a with
    | openStruct => exact .openStruct (by simp [hb])
    | struct fs' =>
      obtain rfl := Option.some_inj.1 ha
      refine .struct hb (fun f hf hg ↦ ?_) (fun f hf g hg ↦ ?_) fun f hf g hg ↦ ih f hf g hg
      · obtain ⟨g, hg', -⟩ := hfound f hf
        simp [hg] at hg'
      · obtain ⟨g', hg', ho⟩ := hfound f hf
        obtain rfl : g' = g := by simpa [hg'] using hg
        simp [ho]
    | _ => simp [fields?] at ha

theorem isLiteral_of_checkWithin_null (ha : a.every isInferred) {fuel : Nat}
    (h : checkWithin [] [] fuel a (some .null) = some true) : a.isLiteral := by
  have hn : holds [] .empty a (some .null) = true :=
    checkWithin_unique (check?_eq_holds a (some .null)) h
  have ha := every_self ha
  cases a with
  | literal => rfl
  | primitive p => cases p <;> simp_all [holds, Primitive.admits, Json.toDouble?]
  | _ => simp_all [isInferred, holds, Json.isArrayWith, Json.isObjectWith]

theorem every_of_fields? {p : Ty → Bool} (ha : a.every p) (h : a.fields? = some fs) {f : Field Ty}
    (hf : f ∈ fs) : f.type.every p := by
  cases a with
  | openStruct =>
    obtain rfl := Option.some_inj.1 h
    simp at hf
  | struct =>
    obtain rfl := Option.some_inj.1 h
    exact every_of_mem_parts ha (List.mem_map_of_mem hf)
  | _ => simp [fields?] at h

theorem fields_of_isInferred (ha : a.every isInferred) (h : a.fields? = some fs) :
    (fs.map (·.name)).Nodup ∧ ∀ f ∈ fs, f.optional = false := by
  have hself := every_self ha
  cases a with
  | openStruct =>
    obtain rfl := Option.some_inj.1 h
    simp
  | struct =>
    obtain rfl := Option.some_inj.1 h
    simpa [isInferred] using hself
  | _ => simp [fields?] at h

/-- On inferred types, that is all that a match asks for. -/
theorem fits_of_receives (ha : a.every isInferred) (hb : b.every isInferred)
    (h : Receives none false a b) : Fits a b := by
  generalize hσ : (none : Option Bindings) = σ, hn : false = n at h
  induction h with
  | @literal _ _ k l _ =>
    obtain rfl : k = .null := by simpa [isInferred] using every_self ha
    obtain rfl : l = .null := by simpa [isInferred] using every_self hb
    exact .null
  | primitive p => exact .primitive p
  | null => cases hn
  | @checked _ _ a l fuel _ hl hc =>
    obtain rfl : l = .null := by simpa [isInferred] using every_self hb
    subst hσ
    exact absurd (isLiteral_of_checkWithin_null ha hc) (by simp [hl])
  | emptyTuple => exact .emptyTuple
  | tuple hl _ ih =>
    refine .tuple hl fun p hp ↦ ?_
    obtain ⟨hs, ht⟩ := List.of_mem_zip hp
    exact ih p hp (every_of_mem_parts ha hs) (every_of_mem_parts hb ht) rfl rfl
  | array _ ih =>
    exact .array _ (ih (every_of_mem_parts ha (by simp [parts]))
      (every_of_mem_parts hb (by simp [parts])) hσ rfl)
  | openStruct h =>
    obtain ⟨gs, hgs⟩ := Option.isSome_iff_exists.1 h
    exact .fields rfl hgs (by simp) (by simp)
  | @struct _ _ fs b gs hgs hnone _ _ ih =>
    have hfs : (Ty.struct fs).fields? = some fs := rfl
    obtain ⟨-, hrequired⟩ := fields_of_isInferred ha hfs
    obtain ⟨-, hpresent⟩ := fields_of_isInferred hb hgs
    refine .fields hfs hgs (fun f hf ↦ ?_) fun f hf g hg ↦ ?_
    · cases hg : field? f.name gs with
      | none => exact absurd (hnone f hf hg) (by simp [hrequired f hf])
      | some g => exact ⟨g, rfl, hpresent g (List.mem_of_find?_eq_some hg)⟩
    · exact ih f hf g hg (every_of_fields? ha hfs hf)
        (every_of_fields? hb hgs (List.mem_of_find?_eq_some hg)) hσ hn
  | any | generic | genericBinding | bounded | boundedBinding | nullable | inter | unionLeft
    | unionRight => exact absurd (every_self ha) (by simp [isInferred])
  | _ => exact absurd (every_self hb) (by simp [isInferred])

theorem accepts_iff_fits (ha : a.every isInferred) (hb : b.every isInferred) :
    accepts a b ↔ Fits a b :=
  accepts_iff.trans ⟨fits_of_receives ha hb, Fits.receives⟩

theorem Fits.trans (h : Fits a b) (h' : Fits b c) : Fits a c := by
  induction h generalizing c with
  | null | primitive | emptyTuple => exact h'
  | tuple hl _ ih =>
    cases h' with
    | tuple hl' h' =>
      refine .tuple (hl.trans hl') fun p hp ↦ ?_
      have hfits := List.forall₂_iff_zip.2 ⟨hl', fun hq ↦ h' _ hq⟩
      obtain ⟨t, ht, hr⟩ := exists_mem_zip_right hfits hp
      exact ih _ ht hr
    | fields hb => simp [fields?] at hb
  | array size _ ih =>
    cases h' with
    | array _ h' => exact .array size (ih h')
    | fields hb => simp [fields?] at hb
  | @fields a b fs gs ha hb hfound _ ih =>
    cases h' with
    | @fields _ _ gs' hs hb' hc hfound' h' =>
      obtain rfl : gs = gs' := by simpa [hb] using hb'
      have hnext : ∀ f ∈ fs, ∃ g ∈ gs, field? f.name gs = some g ∧ g.name = f.name := by
        intro f hf
        obtain ⟨g, hg, -⟩ := hfound f hf
        exact ⟨g, List.mem_of_find?_eq_some hg, hg, by simpa using List.find?_some hg⟩
      refine .fields ha hc (fun f hf ↦ ?_) fun f hf u hu ↦ ?_ <;>
        obtain ⟨g, hmem, hg, hname⟩ := hnext f hf
      · exact hname ▸ hfound' g hmem
      · exact ih f hf g hg (h' g hmem u (hname ▸ hu))
    | _ => simp [fields?] at hb

theorem sameItems_eq (ss ts : List Ty) :
    sameItems ss ts = (ss.length == ts.length && (ss.zip ts).all fun p ↦ same p.1 p.2) := by
  induction ss generalizing ts with
  | nil => cases ts <;> rfl
  | cons s ss ih =>
    cases ts with
    | nil => rfl
    | cons t ts => simp [sameItems, ih, Bool.and_left_comm]

theorem sameFields_eq (fs gs : List (Field Ty)) :
    sameFields fs gs = fs.all fun f ↦
      (field? f.name gs).any fun g ↦ f.optional == g.optional && same f.type g.type := by
  induction fs with
  | nil => rfl
  | cons f fs ih =>
    rw [sameFields, ih, List.all_cons]
    cases field? f.name gs <;> rfl

theorem same_tuple_iff {ss ts : List Ty} : same (.tuple ss) (.tuple ts) ↔
    ss.length = ts.length ∧ ∀ p ∈ ss.zip ts, same p.1 p.2 := by
  rw [same, sameItems_eq, Bool.and_eq_true, beq_iff_eq, List.all_eq_true]

theorem same_struct_iff : same (.struct fs) (.struct gs) ↔ fs.length = gs.length ∧
    ∀ f ∈ fs, ∃ g, field? f.name gs = some g ∧ f.optional = g.optional ∧ same f.type g.type := by
  rw [same, sameFields_eq, Bool.and_eq_true, beq_iff_eq, List.all_eq_true]
  simp only [Option.any_eq_true, Bool.and_eq_true, beq_iff_eq]

theorem name_of_field? {name : String} {g : Field Ty} (h : field? name gs = some g) :
    g.name = name := by
  simpa using List.find?_some h

theorem names_subset_of_found (h : ∀ f ∈ fs, ∃ g, field? f.name gs = some g) :
    fs.map (·.name) ⊆ gs.map (·.name) := by
  intro name hm
  obtain ⟨f, hf, rfl⟩ := List.mem_map.1 hm
  obtain ⟨g, hg⟩ := h f hf
  exact name_of_field? hg ▸ List.mem_map_of_mem (List.mem_of_find?_eq_some hg)

theorem found_comm (hfs : (fs.map (·.name)).Nodup) (hgs : (gs.map (·.name)).Nodup)
    (hl : fs.length = gs.length) (h : ∀ f ∈ fs, ∃ g, field? f.name gs = some g) {g : Field Ty}
    (hg : g ∈ gs) : ∃ f ∈ fs, field? g.name fs = some f ∧ field? f.name gs = some g := by
  have hperm : (fs.map (·.name)).Perm (gs.map (·.name)) :=
    (hfs.subperm (names_subset_of_found h)).perm_of_length_le (by simp [hl])
  obtain ⟨f, hf, hname⟩ := List.mem_map.1 (hperm.mem_iff.2 (List.mem_map_of_mem hg))
  exact ⟨f, hf, hname ▸ field?_eq_some hfs hf, hname ▸ field?_eq_some hgs hg⟩

theorem eq_ofFields_of_isExact (ha : a.every isExact) (h : a.fields? = some fs) :
    a = ofFields fs := by
  have hself := every_self ha
  cases a with
  | openStruct =>
    obtain rfl := Option.some_inj.1 h
    rfl
  | struct fs' =>
    obtain rfl := Option.some_inj.1 h
    cases fs' with
    | nil => simp [isExact] at hself
    | cons => rfl
  | _ => simp [fields?] at h

theorem same_ofFields_iff : same (ofFields fs) (ofFields gs) ↔ fs.length = gs.length ∧
    ∀ f ∈ fs, ∃ g, field? f.name gs = some g ∧ f.optional = g.optional ∧ same f.type g.type := by
  cases fs <;> cases gs
  · simp [ofFields, same]
  · simp [ofFields, same]
  · simp [ofFields, same]
  · exact same_struct_iff

theorem fits_both_iff (ha : a.every isInferred) (hb : b.every isInferred)
    (hfs : a.fields? = some fs) (hgs : b.fields? = some gs) :
    Fits a b ∧ Fits b a ↔ fs.length = gs.length ∧
      ∀ f ∈ fs, ∃ g, field? f.name gs = some g ∧ Fits f.type g.type ∧ Fits g.type f.type := by
  obtain ⟨hdf, hof⟩ := fields_of_isInferred ha hfs
  obtain ⟨hdg, hog⟩ := fields_of_isInferred hb hgs
  constructor
  · rintro ⟨h, h'⟩
    obtain ⟨hfound, hfits⟩ := h.found hfs hgs
    obtain ⟨hfound', hfits'⟩ := h'.found hgs hfs
    have hsub := (hdf.subperm (names_subset_of_found hfound)).length_le
    have hsub' := (hdg.subperm (names_subset_of_found hfound')).length_le
    refine ⟨by simpa using Nat.le_antisymm hsub hsub', fun f hf ↦ ?_⟩
    obtain ⟨g, hg⟩ := hfound f hf
    have hback : field? g.name fs = some f := name_of_field? hg ▸ field?_eq_some hdf hf
    exact ⟨g, hg, hfits f hf g hg, hfits' g (List.mem_of_find?_eq_some hg) f hback⟩
  · rintro ⟨hl, hboth⟩
    have hfound : ∀ f ∈ fs, ∃ g, field? f.name gs = some g := fun f hf ↦
      (hboth f hf).imp fun _ h ↦ h.1
    have hfits : ∀ f ∈ fs, ∀ g, field? f.name gs = some g →
        Fits f.type g.type ∧ Fits g.type f.type := by
      intro f hf g hg
      obtain ⟨g', hg', h⟩ := hboth f hf
      obtain rfl : g = g' := by simpa [hg] using hg'
      exact h
    refine ⟨.fields hfs hgs (fun f hf ↦ ?_) fun f hf g hg ↦ (hfits f hf g hg).1,
      .fields hgs hfs (fun g hg ↦ ?_) fun g hg f hf ↦ ?_⟩
    · obtain ⟨g, hg⟩ := hfound f hf
      exact ⟨g, hg, hog g (List.mem_of_find?_eq_some hg)⟩
    all_goals obtain ⟨f', hf', hback, hforth⟩ := found_comm hdf hdg hl hfound hg
    · exact ⟨f', hback, hof f' hf'⟩
    · obtain rfl : f = f' := by simpa [hf] using hback
      exact (hfits f hf' g hforth).2

theorem Fits.same (ha : a.every isExact) (hb : b.every isExact) (h : Fits a b) (h' : Fits b a) :
    Ty.same a b := by
  induction h with
  | null => rfl
  | primitive p => simp [Ty.same]
  | emptyTuple => rfl
  | tuple hl _ ih =>
    cases h' with
    | tuple _ h' =>
      refine same_tuple_iff.2 ⟨hl, fun p hp ↦ ?_⟩
      obtain ⟨hs, ht⟩ := List.of_mem_zip hp
      exact ih p hp (every_of_mem_parts ha hs) (every_of_mem_parts hb ht)
        (h' (p.2, p.1) (mem_zip_comm.1 hp))
    | fields hb => simp [fields?] at hb
  | array size _ ih =>
    cases h' with
    | array _ h' =>
      have hs := ih (every_of_mem_parts ha (by simp [parts]))
        (every_of_mem_parts hb (by simp [parts])) h'
      simp [Ty.same, hs]
    | fields hb => simp [fields?] at hb
  | @fields a b fs gs hfs hgs hfound hfits ih =>
    have hi := isInferred_of_isExact ha
    have hi' := isInferred_of_isExact hb
    obtain ⟨hl, hboth⟩ := (fits_both_iff hi hi' hfs hgs).1 ⟨.fields hfs hgs hfound hfits, h'⟩
    rw [eq_ofFields_of_isExact ha hfs, eq_ofFields_of_isExact hb hgs, same_ofFields_iff]
    refine ⟨hl, fun f hf ↦ ?_⟩
    obtain ⟨g, hg, -, hback⟩ := hboth f hf
    have hmem := List.mem_of_find?_eq_some hg
    have ho := (fields_of_isInferred hi hfs).2 f hf
    have ho' := (fields_of_isInferred hi' hgs).2 g hmem
    exact ⟨g, hg, ho.trans ho'.symm, ih f hf g hg (every_of_fields? ha hfs hf)
      (every_of_fields? hb hgs hmem) hback⟩

theorem fits_of_same (ha : a.every isExact) (hb : b.every isExact) (h : Ty.same a b) :
    Fits a b ∧ Fits b a := by
  induction a generalizing b with
  | literal l =>
    obtain rfl : l = .null := by simpa [isExact, isInferred] using every_self ha
    cases b with
    | literal l' =>
      obtain rfl : l' = .null := by simpa [isExact, isInferred] using every_self hb
      exact ⟨.null, .null⟩
    | _ => simp [Ty.same] at h
  | primitive p =>
    cases b with
    | primitive q =>
      obtain rfl : p = q := by simpa [Ty.same] using h
      exact ⟨.primitive p, .primitive p⟩
    | _ => simp [Ty.same] at h
  | emptyTuple =>
    cases b with
    | emptyTuple => exact ⟨.emptyTuple, .emptyTuple⟩
    | _ => simp [Ty.same] at h
  | openStruct =>
    cases b with
    | openStruct => exact (fits_both_iff rfl rfl rfl rfl).2 ⟨rfl, by simp⟩
    | _ => simp [Ty.same] at h
  | array t size ih =>
    cases b with
    | array t' size' =>
      obtain ⟨hs, rfl⟩ : Ty.same t t' ∧ size = size' := by simpa [Ty.same] using h
      have ht := ih (every_of_mem_parts ha (by simp [parts]))
        (every_of_mem_parts hb (by simp [parts])) hs
      exact ⟨.array size ht.1, .array size ht.2⟩
    | _ => simp [Ty.same] at h
  | tuple ts ih =>
    cases b with
    | tuple ts' =>
      obtain ⟨hl, hs⟩ := same_tuple_iff.1 h
      have hall : ∀ p ∈ ts.zip ts', Fits p.1 p.2 ∧ Fits p.2 p.1 := fun p hp ↦ by
        obtain ⟨hm, hm'⟩ := List.of_mem_zip hp
        exact ih p.1 hm (every_of_mem_parts ha hm) (every_of_mem_parts hb hm') (hs p hp)
      exact ⟨.tuple hl fun p hp ↦ (hall p hp).1,
        .tuple hl.symm fun p hp ↦ (hall (p.2, p.1) (mem_zip_comm.1 hp)).2⟩
    | _ => simp [Ty.same] at h
  | struct fs ih =>
    cases b with
    | struct gs =>
      obtain ⟨hl, hfound⟩ := same_struct_iff.1 h
      refine (fits_both_iff (isInferred_of_isExact ha) (isInferred_of_isExact hb) rfl rfl).2
        ⟨hl, fun f hf ↦ ?_⟩
      obtain ⟨g, hg, -, hs⟩ := hfound f hf
      exact ⟨g, hg, ih f hf (every_of_fields? ha rfl hf)
        (every_of_fields? hb rfl (List.mem_of_find?_eq_some hg)) hs⟩
    | _ => simp [Ty.same] at h
  | _ => exact absurd (every_self ha) (by simp [isExact, isInferred])

theorem same_iff_fits (ha : a.every isExact) (hb : b.every isExact) :
    Ty.same a b ↔ Fits a b ∧ Fits b a :=
  ⟨fits_of_same ha hb, fun h ↦ h.1.same ha hb h.2⟩

theorem same_iff_accepts (ha : a.every isExact) (hb : b.every isExact) :
    Ty.same a b ↔ accepts a b ∧ accepts b a := by
  have hi := isInferred_of_isExact ha
  have hi' := isInferred_of_isExact hb
  rw [same_iff_fits ha hb, accepts_iff_fits hi hi', accepts_iff_fits hi' hi]

theorem same_symm (ha : a.every isExact) (hb : b.every isExact) (h : Ty.same a b) :
    Ty.same b a :=
  (same_iff_fits hb ha).2 ((same_iff_fits ha hb).1 h).symm

theorem same_trans (ha : a.every isExact) (hb : b.every isExact) (hc : c.every isExact)
    (h : Ty.same a b) (h' : Ty.same b c) : Ty.same a c := by
  obtain ⟨hab, hba⟩ := (same_iff_fits ha hb).1 h
  obtain ⟨hbc, hcb⟩ := (same_iff_fits hb hc).1 h'
  exact (same_iff_fits ha hc).2 ⟨hab.trans hbc, hcb.trans hba⟩

theorem ofSamples_eq_array_iff {first : Ty} {rest : List Ty}
    (h : ∀ t ∈ first :: rest, t.every isExact) :
    ofSamples (first :: rest) = .array first (rest.length + 1) ↔
      ∀ s ∈ first :: rest, ∀ t ∈ first :: rest, Ty.same s t := by
  have hfirst := h first List.mem_cons_self
  rw [ofSamples]
  split
  · next hall =>
    refine iff_of_true rfl fun s hs t ht ↦ ?_
    have hsame : ∀ u ∈ first :: rest, Ty.same first u := fun u hu ↦
      (same_iff_accepts hfirst (h u hu)).2 (by simpa using List.all_eq_true.1 hall u hu)
    exact same_trans (h s hs) hfirst (h t ht) (same_symm hfirst (h s hs) (hsame s hs)) (hsame t ht)
  · next hall =>
    refine iff_of_false (by simp) fun hsame ↦ hall (List.all_eq_true.2 fun t ht ↦ ?_)
    simpa using (same_iff_accepts hfirst (h t ht)).1 (hsame first List.mem_cons_self t ht)

theorem ofSamples_eq_tuple {first : Ty} {rest : List Ty}
    (h : ofSamples (first :: rest) ≠ .array first (rest.length + 1)) :
    ofSamples (first :: rest) = .tuple (first :: rest) := by
  rw [ofSamples] at h ⊢
  split
  · next hall => exact absurd (if_pos hall) h
  · rfl

theorem infer_array_iff {x : Json} {rest : List Json} (h : (Json.array (x :: rest)).wellFormed) :
    infer (some (.array (x :: rest))) = .array (infer (some x)) (rest.length + 1) ↔
      ∀ y ∈ x :: rest, ∀ z ∈ x :: rest, (infer (some y)).same (infer (some z)) := by
  rw [Json.wellFormed_array, List.all_eq_true] at h
  have hexact : ∀ t ∈ (x :: rest).map ofJson, t.every isExact := by
    intro t ht
    obtain ⟨y, hy, rfl⟩ := List.mem_map.1 ht
    exact isExact_ofJson (h y hy)
  have hiff := ofSamples_eq_array_iff hexact
  simp only [← List.map_cons, List.forall_mem_map, List.length_map] at hiff
  rwa [infer, ofJson, ofItemsJson_eq]

theorem infer_array_perm {items items' : List Json} (hperm : items.Perm items')
    (h : (Json.array items).wellFormed) {size : Nat}
    (he : infer (some (.array items)) = .array t size) :
    ∃ t', infer (some (.array items')) = .array t' size ∧ t.same t' := by
  have h' : (Json.array items').wellFormed := by
    rw [Json.wellFormed_array, List.all_eq_true] at h ⊢
    exact fun x hx ↦ h x (hperm.mem_iff.2 hx)
  obtain _ | ⟨x, rest⟩ := items
  · simp [infer, ofJson, ofItemsJson_eq, ofSamples] at he
  obtain _ | ⟨y, rest'⟩ := items'
  · exact absurd hperm.length_eq (by simp)
  obtain ⟨rfl, rfl⟩ : infer (some x) = t ∧ rest.length + 1 = size := by
    rw [infer, ofJson, ofItemsJson_eq] at he
    simpa [eq_comm, infer] using ofSamples_eq_array he
  have hsame := (infer_array_iff h).1 he
  rw [(infer_array_iff h').2 fun y hy z hz ↦ hsame y (hperm.mem_iff.2 hy) z (hperm.mem_iff.2 hz)]
  refine ⟨infer (some y), by simpa using hperm.length_eq.symm, ?_⟩
  exact hsame x List.mem_cons_self y (hperm.mem_iff.2 List.mem_cons_self)

/-- On inferred types, to accept is a partial order, whose equality leaves the order of fields free.
A non-empty array is taken for items of one type if the types of all its items are equal, and then
it is taken so in any order of its items. -/
theorem accept?_inferred_order {u v w : Json} (hu : u.wellFormed) (hv : v.wellFormed)
    (hw : w.wellFormed) :
    let a := infer (some u)
    let b := infer (some v)
    let c := infer (some w)
    accept? .reading a a none = some (true, none) ∧
      (accept? .reading a b none = some (true, none) →
        accept? .reading b c none = some (true, none) →
          accept? .reading a c none = some (true, none)) ∧
      (accept? .reading a b none = some (true, none) ∧
        accept? .reading b a none = some (true, none) ↔ a.same b) ∧
      ∀ x rest, (Json.array (x :: rest)).wellFormed →
        (infer (some (.array (x :: rest))) = .array (infer (some x)) (rest.length + 1) ↔
          ∀ y ∈ x :: rest, ∀ z ∈ x :: rest, (infer (some y)).same (infer (some z))) ∧
        ∀ items, (x :: rest).Perm items → ∀ t size,
          infer (some (.array (x :: rest))) = .array t size →
            ∃ t', infer (some (.array items)) = .array t' size ∧ t.same t' := by
  intro a b c
  have ha : a.every isExact := isExact_ofJson hu
  have hb : b.every isExact := isExact_ofJson hv
  have hi := isInferred_of_isExact ha
  have hi' := isInferred_of_isExact hb
  have hi'' : c.every isInferred := isInferred_ofJson hw
  simp only [accept?_eq_accepts, Option.some.injEq, Prod.mk.injEq, and_true]
  refine ⟨accepts_iff.2 (.refl (isPlain_of_isInferred hi) none false), fun hab hbc ↦ ?_,
    (same_iff_accepts ha hb).symm, fun x rest h ↦ ⟨infer_array_iff h, fun items hp t size he ↦
      infer_array_perm hp h he⟩⟩
  exact (accepts_iff_fits hi hi'').2
    (((accepts_iff_fits hi hi').1 hab).trans ((accepts_iff_fits hi' hi'').1 hbc))

theorem accept?_inferred_order_objects :
    let u : Json := .object [("a", .array [])]
    let v : Json := .object [("a", .array []), ("b", .null)]
    let v' : Json := .object [("b", .null), ("a", .array [])]
    let w : Json := .object [("b", .null), ("c", .array [.null, .bool true]), ("a", .array [])]
    (u.wellFormed ∧ v.wellFormed ∧ w.wellFormed) ∧
      accept? .reading (infer (some u)) (infer (some w)) none = some (true, none) ∧
      (Json.array [v, v']).wellFormed ∧ [v, v'].Perm [v', v] ∧
      infer (some (.array [v, v'])) = .array (infer (some v)) 2 ∧
      ∃ t, infer (some (.array [v', v])) = .array t 2 ∧ (infer (some v)).same t := by
  intro u v v' w
  have hu : u.wellFormed := by decide
  have hv : v.wellFormed := by decide
  have hw : w.wellFormed := by decide
  have hitems : (Json.array [v, v']).wellFormed := by decide
  have hperm : [v, v'].Perm [v', v] := .swap v' v []
  obtain ⟨-, htrans, -, harray⟩ := accept?_inferred_order hu hv hw
  obtain ⟨hiff, hfree⟩ := harray v [v'] hitems
  have he : infer (some (.array [v, v'])) = .array (infer (some v)) 2 :=
    hiff.2 (by simpa using ⟨⟨rfl, rfl⟩, rfl, rfl⟩)
  exact ⟨⟨hu, hv, hw⟩, htrans rfl rfl, hitems, hperm, he, hfree _ hperm _ _ he⟩

end FlowTypes.Ty
