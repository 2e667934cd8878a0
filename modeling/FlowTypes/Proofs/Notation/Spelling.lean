import FlowTypes.Proofs.Notation.Canonical

namespace FlowTypes.Notation

variable {rest : List Piece}

theorem legible_mark {m : Mark} : Legible (mark m :: rest) ↔ Legible rest := by
  simp [mark, Legible, Token.isLegible, Token.needsBreak]

theorem legible_word {w : String} (hw : Text.isWord w.toList) (hb : breaks rest)
    (hr : Legible rest) : Legible (word w :: rest) := ⟨hw, fun _ ↦ hb, hr⟩

theorem legible_inPlace {position : Position} {t : Ty}
    (h : ∀ rest, breaks rest → Legible rest → Legible (spell t rest)) (hb : breaks rest)
    (hr : Legible rest) : Legible (inPlace position t (spell t) rest) := by
  unfold inPlace
  split
  · exact legible_mark.2 (h _ rfl (legible_mark.2 hr))
  · exact h rest hb hr

theorem legible_literal {l : Literal} (h : isSpellable (.literal l)) (hb : breaks rest)
    (hr : Legible rest) : Legible (.token (spellLiteral l) :: rest) := by
  refine ⟨?_, fun _ ↦ hb, hr⟩
  cases l with
  | null => exact (rfl : Text.isWord ['n', 'u', 'l', 'l'] = true)
  | bool b => cases b <;> rfl
  | number x =>
    have hx : x.isFinite := h
    rw [spellLiteral, if_pos hx, Token.isLegible, String.toList_ofList]
    exact reads_writeNumber hx
  | string s => trivial

theorem legible_label {name : String} {optional : Bool} (hr : Legible rest) :
    Legible (spellLabel name optional rest) := by
  refine ⟨?_, ?_, ?_⟩
  · unfold spellName
    split
    · next hw => exact hw
    · trivial
  · intro _
    cases optional <;> rfl
  · cases optional with
    | true => exact legible_mark.2 (legible_mark.2 hr)
    | false => exact legible_mark.2 hr

theorem legible_items {ts : List Ty}
    (h : ∀ t ∈ ts, ∀ rest, breaks rest → Legible rest → Legible (spell t rest))
    (hb : breaks rest) (hr : Legible rest) : Legible (spellItems ts rest) := by
  induction ts with
  | nil => rwa [spellItems]
  | cons t ts ih =>
    obtain ⟨ht, hts⟩ := List.forall_mem_cons.1 h
    cases ts with
    | nil =>
      rw [spellItems]
      exact ht rest hb hr
    | cons u us =>
      rw [spellItems]
      · exact ht _ rfl (legible_mark.2 (ih hts))
      · simp

theorem legible_fields {fs : List (Field Ty)}
    (h : ∀ f ∈ fs, ∀ rest, breaks rest → Legible rest → Legible (spell f.type rest))
    (hb : breaks rest) (hr : Legible rest) : Legible (spellFields fs rest) := by
  induction fs with
  | nil => rwa [spellFields]
  | cons f fs ih =>
    obtain ⟨hf, hfs⟩ := List.forall_mem_cons.1 h
    cases fs with
    | nil =>
      rw [spellFields]
      exact legible_label (hf rest hb hr)
    | cons g gs =>
      rw [spellFields]
      · exact legible_label (hf _ rfl (legible_mark.2 (ih hfs)))
      · simp

/-- A canonical type is spelled legibly before anything that ends a word. -/
theorem legible_spell (t : Ty) (hc : isCanonical t) :
    ∀ rest, breaks rest → Legible rest → Legible (spell t rest) := by
  induction t with
  | literal l =>
    intro rest hb hr
    rw [spell]
    exact legible_literal (Ty.every_self hc) hb hr
  | primitive p =>
    intro rest hb hr
    rw [spell]
    exact legible_word (by cases p <;> rfl) hb hr
  | generic name =>
    intro rest hb hr
    obtain ⟨hw, -⟩ : Text.isWord name.toList ∧ _ := by simpa [isSpellable] using Ty.every_self hc
    rw [spell]
    exact legible_word hw hb hr
  | bounded name t ih =>
    intro rest hb hr
    obtain ⟨hw, -⟩ : Text.isWord name.toList ∧ _ := by simpa [isSpellable] using Ty.every_self hc
    have ht := ih (Ty.every_of_mem_parts hc (List.mem_singleton_self t))
    rw [spell]
    exact legible_word hw rfl (legible_word rfl rfl (legible_inPlace ht hb hr))
  | emptyTuple | openStruct =>
    intro rest _ hr
    rw [spell]
    exact legible_mark.2 (legible_mark.2 hr)
  | tuple ts ih =>
    intro rest _ hr
    rw [spell]
    refine legible_mark.2 (legible_items ?_ rfl (legible_mark.2 hr))
    exact fun t ht ↦ ih t ht (Ty.every_of_mem_parts hc ht)
  | array t size ih =>
    intro rest _ hr
    have hsize : size < twoPow 64 := by simpa [isSpellable] using Ty.every_self hc
    have ht := ih (Ty.every_of_mem_parts hc (List.mem_singleton_self t))
    rw [spell]
    refine legible_inPlace ht rfl (legible_mark.2 ⟨reads_size hsize, fun _ ↦ rfl, ?_⟩)
    exact legible_mark.2 hr
  | list t ih =>
    intro rest _ hr
    have ht := ih (Ty.every_of_mem_parts hc (List.mem_singleton_self t))
    rw [spell]
    exact legible_inPlace ht rfl (legible_mark.2 (legible_mark.2 hr))
  | struct fs ih =>
    intro rest _ hr
    obtain ⟨hne, -⟩ : fs ≠ [] ∧ _ := by simpa [isSpellable] using Ty.every_self hc
    rw [spell]
    · refine legible_mark.2 (legible_fields ?_ rfl (legible_mark.2 hr))
      exact fun f hf ↦ ih f hf (Ty.every_of_mem_parts hc (List.mem_map.2 ⟨f, hf, rfl⟩))
    · exact hne
  | map k t ihk iht =>
    intro rest _ hr
    have hk := ihk (Ty.every_of_mem_parts hc (by simp [Ty.parts]))
    have ht := iht (Ty.every_of_mem_parts hc (by simp [Ty.parts]))
    rw [spell]
    refine legible_mark.2 (legible_mark.2 (hk _ rfl (legible_mark.2 (legible_mark.2 ?_))))
    exact ht _ rfl (legible_mark.2 hr)
  | tag name =>
    intro rest _ hr
    obtain ⟨hw, -⟩ : Text.isWord name.toList ∧ _ := by simpa [isSpellable] using Ty.every_self hc
    rw [spell]
    exact legible_word hw rfl (legible_mark.2 (legible_mark.2 hr))
  | named name t ih =>
    intro rest _ hr
    obtain ⟨hw, -⟩ : Text.isWord name.toList ∧ _ := by simpa [isSpellable] using Ty.every_self hc
    have ht := ih (Ty.every_of_mem_parts hc (List.mem_singleton_self t))
    rw [spell]
    exact legible_word hw rfl (legible_mark.2 (ht _ rfl (legible_mark.2 hr)))
  | nullable t ih =>
    intro rest hb hr
    have ht := ih (Ty.every_of_mem_parts hc (List.mem_singleton_self t))
    rw [spell]
    exact legible_mark.2 (legible_inPlace ht hb hr)
  | inter s t ihs iht =>
    intro rest hb hr
    have hs := ihs (Ty.every_of_mem_parts hc (by simp [Ty.parts]))
    have ht := iht (Ty.every_of_mem_parts hc (by simp [Ty.parts]))
    rw [spell]
    exact legible_inPlace hs rfl (legible_mark.2 (legible_inPlace ht hb hr))
  | union s t ihs iht =>
    intro rest hb hr
    have hs := ihs (Ty.every_of_mem_parts hc (by simp [Ty.parts]))
    have ht := iht (Ty.every_of_mem_parts hc (by simp [Ty.parts]))
    rw [spell]
    exact hs _ rfl (legible_mark.2 (legible_inPlace ht hb hr))

end FlowTypes.Notation
