import FlowTypes.Proofs.Ty.Plain
import FlowTypes.Proofs.Ty.Soundness
import FlowTypes.Ty.Inference

namespace FlowTypes.Ty

/-- The nodes that inferred types are made of. -/
def isInferred : Ty → Bool
  | .literal l => l == .null
  | .primitive p => p == .bool || p == .float || p == .string
  | .emptyTuple | .tuple _ | .array .. | .openStruct => true
  | .struct fs => decide (fs.map (·.name)).Nodup && fs.all fun f ↦ !f.optional
  | _ => false

/-- A node of a type as it is inferred, where a struct without fields is open. -/
def isExact : Ty → Bool
  | .struct [] => false
  | t => t.isInferred

variable {t : Ty}

theorem isInferred_of_isExact (h : t.every isExact) : t.every isInferred := by
  refine every_mono (fun s hs ↦ ?_) h
  have hs := every_self hs
  unfold isExact at hs
  split at hs
  · simp at hs
  · exact hs

theorem isPlain_of_isInferred (h : t.every isInferred) : t.every isPlain := by
  refine every_mono (fun s hs ↦ ?_) h
  have hs := every_self hs
  cases s with
  | struct fs => exact (Bool.and_eq_true_iff.1 hs).1
  | _ => first | rfl | exact absurd hs Bool.false_ne_true

theorem generics_of_isInferred (h : t.every isInferred) : t.generics = [] :=
  generics_of_isPlain (isPlain_of_isInferred h)

theorem isFlagless_of_isInferred (h : t.every isInferred) : t.isFlagless := by
  have ht := every_self h
  cases t <;> first | rfl | exact absurd ht Bool.false_ne_true

theorem splits_of_isInferred (h : t.every isInferred) : t.splits = false := by
  have ht := every_self h
  cases t <;> first | rfl | exact absurd ht Bool.false_ne_true

theorem holds_none_of_isInferred (env : Env) (h : t.every isInferred) :
    holds [] env t none = false := by
  have ht := every_self h
  cases t with
  | primitive p => cases p <;> simp_all [isInferred, holds, Primitive.admits]
  | literal | emptyTuple | tuple | array | openStruct | struct =>
    simp [holds, Json.isArrayWith, Json.isObjectWith]
  | _ => exact absurd ht Bool.false_ne_true

theorem wantsMembers_of_isInferred (h : t.every isInferred) : t.wantsMembers := by
  cases t with
  | struct fs =>
    simp only [wantsMembers, List.all_eq_true, beq_iff_eq]
    intro f hf
    rw [check?_eq_holds, holds_none_of_isInferred]
    exact every_of_mem_parts h (List.mem_map_of_mem hf)
  | _ => rfl

theorem requiresFields_of_isInferred (h : t.every isInferred) : t.requiresFields := by
  have ht := every_self h
  cases t with
  | struct fs =>
    exact (Bool.and_eq_true_iff.1 ht).2
  | _ => rfl

theorem keepsTagsOut_of_isInferred (h : t.every isInferred) : t.keepsTagsOut := by
  have ht := every_self h
  cases t <;> first | rfl | exact absurd ht Bool.false_ne_true

/-- Matches between inferred types are sound, unless `null` is welcome and meets a field. -/
theorem sound_of_isInferred {a b : Ty} (ha : a.every isInferred) (hb : b.every isInferred)
    {n : Bool} (hn : n → b.nullFree) : Sound n a b where
  closed := ⟨generics_of_isInferred ha, generics_of_isInferred hb⟩
  required := every_mono (fun _ ↦ requiresFields_of_isInferred) ha
  present := every_mono (fun _ ↦ wantsMembers_of_isInferred) hb
  tags := every_mono (fun _ ↦ keepsTagsOut_of_isInferred) hb
  nulls := .inr ⟨every_mono (fun _ ↦ isFlagless_of_isInferred) ha,
    every_mono (fun _ ↦ isFlagless_of_isInferred) hb, hn⟩

theorem accept?_eq_accepts (a b : Ty) : accept? .reading a b none = some (accepts a b, none) := by
  obtain ⟨c, hc⟩ := decides_acceptWithin (n := false) (layered_none fun _ ↦ 0)
    (le_acceptDepth a b none fun _ ↦ Nat.zero_le _)
  have hc : accept? .reading a b none = some (c, none) := hc
  unfold accepts
  rw [hc]

theorem accepts_iff {a b : Ty} : accepts a b ↔ Receives none false a b := by
  have hr : accept? .reading a b none = some (true, none) ↔ Receives none false a b :=
    accept?_reading_iff (by simp) false a b
  rw [← hr, accept?_eq_accepts]
  simp

theorem ofItemsJson_eq (xs : List Json) : ofItemsJson xs = xs.map ofJson := by
  induction xs with
  | nil => rfl
  | cons x xs ih => simp [ofItemsJson, ih]

theorem ofMembersJson_eq (members : List (String × Json)) :
    ofMembersJson members = members.map fun m ↦ ⟨m.1, false, ofJson m.2⟩ := by
  induction members with
  | nil => rfl
  | cons m members ih => simp [ofMembersJson, ih]

theorem ofSamples_cases (ts : List Ty) : (ofSamples ts = .emptyTuple ∧ ts = []) ∨
    (∃ first ∈ ts, ofSamples ts = .array first ts.length ∧ ∀ t ∈ ts, accepts first t) ∨
    ofSamples ts = .tuple ts := by
  cases ts with
  | nil => exact .inl ⟨rfl, rfl⟩
  | cons first rest =>
    rw [ofSamples]
    split
    · next h =>
      simp only [List.all_eq_true, Bool.and_eq_true] at h
      exact .inr (.inl ⟨first, by simp, by simp, fun t ht ↦ (h t ht).1⟩)
    · exact .inr (.inr rfl)

theorem fields?_ofFields (fs : List (Field Ty)) : (ofFields fs).fields? = some fs := by
  cases fs <;> rfl

theorem isExact_ofFields {fs : List (Field Ty)} (hd : (fs.map (·.name)).Nodup)
    (ho : ∀ f ∈ fs, f.optional = false) (h : ∀ f ∈ fs, f.type.every isExact) :
    (ofFields fs).every isExact := by
  cases fs with
  | nil => rfl
  | cons f fs =>
    simp only [ofFields, every_struct, isExact, isInferred, Bool.and_eq_true, decide_eq_true_eq,
      List.all_eq_true, Bool.not_eq_true']
    exact ⟨⟨hd, ho⟩, h⟩

theorem isExact_ofJson {v : Json} (hv : v.wellFormed) : (ofJson v).every isExact := by
  induction v with
  | array xs ih =>
    rw [Json.wellFormed_array, List.all_eq_true] at hv
    have hall : ∀ t ∈ ofItemsJson xs, t.every isExact := by
      rw [ofItemsJson_eq]
      intro t ht
      obtain ⟨x, hx, rfl⟩ := List.mem_map.1 ht
      exact ih x hx (hv x hx)
    rw [ofJson]
    obtain ⟨h, -⟩ | ⟨first, hf, h, -⟩ | h := ofSamples_cases (ofItemsJson xs)
    · rw [h]
      rfl
    · rw [h, every_array, hall first hf]
      rfl
    · rw [h, every_tuple, List.all_eq_true.2 hall]
      rfl
  | object members ih =>
    rw [Json.wellFormed_object, Bool.and_eq_true, decide_eq_true_eq, List.all_eq_true] at hv
    rw [ofJson, ofMembersJson_eq]
    apply isExact_ofFields
    · simpa [Function.comp_def] using hv.1
    · intro f hf
      obtain ⟨m, hm, rfl⟩ := List.mem_map.1 hf
      rfl
    · intro f hf
      obtain ⟨m, hm, rfl⟩ := List.mem_map.1 hf
      exact ih m hm (hv.2 m hm)
  | _ => rfl

theorem isInferred_ofJson {v : Json} (hv : v.wellFormed) : (ofJson v).every isInferred :=
  isInferred_of_isExact (isExact_ofJson hv)

theorem holds_ofJson (env : Env) {v : Json} (hv : v.wellFormed) :
    holds [] env (ofJson v) (some v) := by
  induction v with
  | array xs ih =>
    rw [Json.wellFormed_array, List.all_eq_true] at hv
    rw [ofJson, ofItemsJson_eq]
    obtain ⟨h, hxs⟩ | ⟨first, hf, h, hall⟩ | h := ofSamples_cases (xs.map ofJson)
    · rw [h]
      obtain rfl := List.map_eq_nil_iff.1 hxs
      rfl
    · rw [h]
      simp only [holds, Json.isArrayWith, List.length_map, beq_self_eq_true, Bool.true_and,
        List.all_eq_true]
      intro x hx
      obtain ⟨y, hy, rfl⟩ := List.mem_map.1 hf
      have hr := accepts_iff.1 (hall (ofJson x) (List.mem_map_of_mem hx))
      have hs : Sound false (ofJson y) (ofJson x) :=
        sound_of_isInferred (isInferred_ofJson (hv y hy)) (isInferred_ofJson (hv x hx)) (by simp)
      simpa using holds_of_receives hr hs (hv x hx) (ih x hx (hv x hx))
    · rw [h]
      simp only [holds, Json.isArrayWith, holdsItems_eq, List.length_map, beq_self_eq_true,
        Bool.true_and, List.all_eq_true]
      intro p hp
      obtain ⟨x, hx, rfl⟩ : ∃ x ∈ xs, (ofJson x, x) = p := by
        simpa [List.zip, List.zipWith_map_left, List.zipWith_self] using hp
      exact ih x hx (hv x hx)
  | object members ih =>
    rw [Json.wellFormed_object, Bool.and_eq_true, decide_eq_true_eq, List.all_eq_true] at hv
    rw [ofJson, ofMembersJson_eq, holds_of_fields? (fields?_ofFields _)]
    simp only [Json.isObjectWith, holdsFields_eq, List.all_map, List.all_eq_true]
    intro m hm
    simp [lookup_of_mem hv.1 hm, ih m hm (hv.2 m hm)]
  | null | bool | int | double | string => rfl

theorem ofSamples_eq_array {ts : List Ty} {t : Ty} {size : Nat} (h : ofSamples ts = .array t size) :
    ts.head? = some t ∧ size = ts.length := by
  cases ts with
  | nil => simp [ofSamples] at h
  | cons first rest =>
    rw [ofSamples] at h
    split at h
    · obtain ⟨rfl, rfl⟩ := Ty.array.inj h
      exact ⟨rfl, rfl⟩
    · simp at h

/-- A value, which may be absent, conforms to the type inferred from it, and all items of an array
conform to the type that was inferred from its first one. -/
theorem check?_infer :
    (∀ value : Option Json, (∀ v ∈ value, v.wellFormed) →
      check? [] [] (infer value) value = some true) ∧
    ∀ (items : List Json) (t : Ty) (size : Nat), (Json.array items).wellFormed →
      infer (some (.array items)) = .array t size →
        items.head?.map ofJson = some t ∧ size = items.length ∧
          ∀ item ∈ items, check? [] [] t (some item) = some true := by
  constructor
  · intro value hv
    rw [check?_eq_holds]
    cases value with
    | none => rfl
    | some v => rw [infer, holds_ofJson .empty (hv v rfl)]
  · intro items t size hv he
    have hitems : holds [] .empty (ofJson (.array items)) (some (.array items)) :=
      holds_ofJson .empty hv
    rw [infer] at he
    rw [he] at hitems
    rw [ofJson, ofItemsJson_eq] at he
    obtain ⟨hhead, hsize⟩ := ofSamples_eq_array he
    rw [List.head?_map] at hhead
    refine ⟨hhead, by simpa using hsize, fun item hm ↦ ?_⟩
    simp only [holds, Json.isArrayWith, Bool.and_eq_true, List.all_eq_true] at hitems
    rw [check?_eq_holds, hitems.2 item hm]

theorem check?_infer_rows :
    let items : List Json :=
      [.array [.object [("a", .int 1)], .object [("a", .double ⟨false, 0⟩)]],
        .array [.object [("a", .int (-2))], .object [("a", .int 3)]]]
    let row : Ty := .array (.struct [⟨"a", false, .primitive .float⟩]) 2
    infer (some (.array items)) = .array row 2 ∧
      check? [] [] (.array row 2) (some (.array items)) = some true ∧
      ∀ item ∈ items, check? [] [] row (some item) = some true := by
  intro items row
  have hv : (Json.array items).wellFormed := by decide
  have he : infer (some (.array items)) = .array row 2 := rfl
  refine ⟨he, ?_, (check?_infer.2 items row 2 hv he).2.2⟩
  rw [← he]
  exact check?_infer.1 (some (.array items)) (by rintro _ ⟨⟩; exact hv)

end FlowTypes.Ty
