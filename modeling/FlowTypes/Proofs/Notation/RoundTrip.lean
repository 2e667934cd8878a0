import FlowTypes.Proofs.Notation.Parsing
import FlowTypes.Proofs.Notation.Spelling

namespace FlowTypes.Notation

section

variable {rank n : Nat} {t : Ty}

theorem readsAt_token {token : Token} (hq : token ≠ .mark .question)
    (h : ∀ stop depth offset slice ls,
      primary stop (term stop depth) (⟨token, offset, slice⟩ :: ls) = .ok (t, ls)) :
    ReadsAt 1 t (fun rest ↦ .token token :: rest) 3 := by
  refine Reads.bare hq ?_
  intro stop depth rest ls hr hs
  obtain ⟨offset, slice, ls', rfl, hs'⟩ := hs.token
  exact ⟨ls', hs', by simp, .inl (h stop depth offset slice ls')⟩

theorem readsAt_reserved {w : String} (h : reserved? w = some t) :
    ReadsAt 1 t (fun rest ↦ word w :: rest) 3 := by
  apply readsAt_token (by simp)
  intro stop depth offset slice ls
  simp only [primary, h]

theorem readsAt_literal {l : Literal} (h : isSpellable (.literal l)) :
    ReadsAt 1 (.literal l) (spell (.literal l)) 3 := by
  have hs : spell (.literal l) = fun rest ↦ .token (spellLiteral l) :: rest := by
    funext rest
    rw [spell]
  rw [hs]
  cases l with
  | null => exact readsAt_reserved rfl
  | bool b => cases b <;> exact readsAt_reserved rfl
  | number x =>
    have hx : x.isFinite := h
    rw [spellLiteral, if_pos hx]
    exact readsAt_token (by simp) fun _ _ _ _ _ ↦ rfl
  | string s => exact readsAt_token (by simp [spellLiteral]) fun _ _ _ _ _ ↦ rfl

theorem readsAt_primitive (p : Primitive) :
    ReadsAt 1 (.primitive p) (spell (.primitive p)) 3 := by
  have hs : spell (.primitive p) = fun rest ↦ word p.name :: rest := by
    funext rest
    rw [spell]
  rw [hs]
  exact readsAt_reserved (by cases p <;> rfl)

theorem primary_word {w : String} (h : isReserved w = false) (stop : Nat) (term : Parser Ty)
    (offset : Nat) (slice : List Char) (ls : List Lexeme) :
    primary stop term (⟨.word w, offset, slice⟩ :: ls) = afterWord stop term w offset ls := by
  obtain ⟨hr, hx⟩ : reserved? w = none ∧ w ≠ extendsWord := by simpa [isReserved] using h
  simp only [primary, hr, if_neg hx]

theorem leads_word (spelled : List Piece → List Piece) {w : String} (hw : isReserved w = false)
    (h : ∀ stop depth offset ⦃rest ls⦄, stops rank rest → Spells ls (spelled rest) →
      ∃ ls', Spells ls' rest ∧ ls'.length ≤ ls.length ∧
        Reaches (n ≤ depth) (afterWord stop (term stop depth) w offset ls) (.ok (t, ls'))) :
    Leads rank (n + 1) (fun rest ↦ word w :: spelled rest) term
      fun stop _ fuel ↦ brackets stop fuel t := by
  refine Reads.bare (by simp) ?_
  intro stop depth rest ls hr hs
  obtain ⟨offset, slice, ls₁, rfl, hs₁⟩ := hs.word
  obtain ⟨ls', hs', hle, hreach⟩ := h stop depth offset hr hs₁
  refine ⟨ls', hs', by simpa using Nat.lt_succ_of_le hle, ?_⟩
  dsimp only
  rw [primary_word hw]
  exact hreach

theorem readsAt_generic {name : String} (hu : startsUppercase name) :
    ReadsAt 1 (.generic name) (spell (.generic name)) 3 := by
  have hs : spell (.generic name) = fun rest ↦ word name :: rest := by
    funext rest
    rw [spell]
  rw [hs]
  refine leads_word id (isReserved_of_startsUppercase hu) ?_
  intro stop depth offset rest ls hr hs
  refine ⟨ls, hs, Nat.le_refl _, .inl ?_⟩
  unfold afterWord
  rw [after?_of_stops (by decide) hr hs, if_pos hu]
  obtain rfl | ⟨m, offset, slice, ls', rfl, -⟩ := head_of_stops hr hs
  · rfl
  · rfl

theorem readsAt_tag {name : String} (hr : isReserved name = false) :
    ReadsAt 1 (.tag name) (spell (.tag name)) 3 := by
  have hs : spell (.tag name) =
      fun rest ↦ word name :: mark .openBrace :: mark .closeBrace :: rest := by
    funext rest
    rw [spell]
  rw [hs]
  refine leads_word (fun rest ↦ mark .openBrace :: mark .closeBrace :: rest) hr ?_
  intro stop depth offset rest ls _ hs
  obtain ⟨_, _, ls₁, rfl, hs₁⟩ := hs.mark
  obtain ⟨_, _, ls₂, rfl, hs₂⟩ := hs₁.mark
  exact ⟨ls₂, hs₂, by simp only [List.length_cons]; omega, .inl (by simp [afterWord])⟩

theorem readsAt_named {name : String} (hr : isReserved name = false)
    (h : Reads 0 n (spell t) whole t) :
    ReadsAt (n + 1) (.named name t) (spell (.named name t)) 3 := by
  have hs : spell (.named name t) =
      fun rest ↦ word name :: mark .openBrace :: spell t (mark .closeBrace :: rest) := by
    funext rest
    rw [spell]
  rw [hs]
  refine leads_word (fun rest ↦ mark .openBrace :: spell t (mark .closeBrace :: rest)) hr ?_
  intro stop depth offset rest ls _ hs
  obtain ⟨_, _, ls₁, rfl, hs₁⟩ := hs.mark
  obtain ⟨ls₂, hs₂, hlt, hreach⟩ := h stop depth (by simp [Mark.rank]) hs₁
  obtain ⟨_, _, ls₃, rfl, hs₃⟩ := hs₂.mark
  simp only [List.length_cons] at hlt ⊢
  refine ⟨ls₃, hs₃, by omega, ?_⟩
  have hinner : after? .closeBrace ls₁ = none := after?_spell rfl hs₁
  unfold afterWord
  simp only [after?_cons, if_true, hinner]
  refine hreach.bind ?_
  dsimp only
  rw [expect_mark]
  exact .refl

theorem readsAt_bounded {name : String} (hu : startsUppercase name)
    (h : Reads 2 n (inPlace .bound t (spell t)) term t) :
    ReadsAt (n + 1) (.bounded name t) (spell (.bounded name t)) 2 := by
  have hs : spell (.bounded name t) = fun rest ↦
      word name :: .space :: word extendsWord :: .space :: inPlace .bound t (spell t) rest := by
    funext rest
    rw [spell, extendsWord]
  rw [hs]
  refine Leads.term (?_ : Leads 2 _ _ _ _) (Nat.le_refl 2)
  refine leads_word (fun rest ↦ .space :: word extendsWord :: .space ::
    inPlace .bound t (spell t) rest) (isReserved_of_startsUppercase hu) ?_
  intro stop depth offset rest ls hr hs
  obtain ⟨_, _, ls₁, rfl, hs₁⟩ := Spells.word hs
  obtain ⟨ls₂, hs₂, hlt, hreach⟩ := h stop depth hr hs₁
  refine ⟨ls₂, hs₂, Nat.le_of_lt (Nat.lt_succ_of_lt hlt), ?_⟩
  unfold afterWord
  rw [after?_cons, if_neg (by simp)]
  dsimp only
  rw [if_pos hu, if_pos rfl]
  exact hreach.bind .refl

theorem readsAt_nullable (h : Reads 2 n (inPlace .bound t (spell t)) term t) :
    ReadsAt (n + 1) (.nullable t) (spell (.nullable t)) 2 := by
  have hs : spell (.nullable t) = fun rest ↦
      mark .question :: inPlace .bound t (spell t) rest := by
    funext rest
    rw [spell]
  rw [hs]
  intro stop depth rest ls hr hs
  obtain ⟨offset, slice, ls₁, rfl, hs₁⟩ := Spells.mark hs
  cases depth with
  | zero =>
    obtain ⟨ls₂, hs₂, hlt, -⟩ := h stop 0 hr hs₁
    exact ⟨ls₂, hs₂, Nat.lt_succ_of_lt hlt, .inr ⟨by omega, offset, rfl⟩⟩
  | succ depth =>
    obtain ⟨ls₂, hs₂, hlt, hreach⟩ := h stop depth hr hs₁
    refine ⟨ls₂, hs₂, Nat.lt_succ_of_lt hlt, ?_⟩
    rw [term, after?_cons, if_pos rfl]
    exact (hreach.mono Nat.le_of_succ_le_succ).bind .refl

theorem readsAt_list (h : ReadsAt n t (inPlace .element t (spell t)) 3) :
    ReadsAt n (.list t) (spell (.list t)) 3 := by
  have hs : spell (.list t) = fun rest ↦
      inPlace .element t (spell t) (mark .openBracket :: mark .closeBracket :: rest) := by
    funext rest
    rw [spell]
  rw [hs]
  intro stop depth rest ls hr hs
  obtain ⟨ls₁, fuel, hs₁, hlt, hf, hreach⟩ := h stop depth (by simp [Mark.rank]) hs
  obtain ⟨_, _, ls₂, rfl, hs₂⟩ := hs₁.mark
  obtain ⟨_, _, ls₃, rfl, hs₃⟩ := hs₂.mark
  simp only [List.length_cons] at hlt hf
  obtain ⟨fuel, rfl⟩ : ∃ f, fuel = f + 1 := Nat.exists_eq_add_one.2 (by omega)
  refine ⟨ls₃, fuel, hs₃, by omega, by omega, hreach.trans (.inl ?_)⟩
  simp only [brackets, after?_cons, if_true]

theorem sizeOf?_repr {size : Nat} (h : size < twoPow 64) : sizeOf? size.repr = some size := by
  unfold sizeOf?
  simp only [Nat.toList_repr, Text.all_isDigit_toDigits, Text.digitsValue_toDigits, Bool.true_and]
  exact if_pos (decide_eq_true h)

theorem readsAt_array {size : Nat} (hsize : size < twoPow 64)
    (h : ReadsAt n t (inPlace .element t (spell t)) 3) :
    ReadsAt n (.array t size) (spell (.array t size)) 3 := by
  have hs : spell (.array t size) = fun rest ↦ inPlace .element t (spell t)
      (mark .openBracket :: .token (spellSize size) :: mark .closeBracket :: rest) := by
    funext rest
    rw [spell]
  rw [hs]
  intro stop depth rest ls hr hs
  obtain ⟨ls₁, fuel, hs₁, hlt, hf, hreach⟩ := h stop depth (by simp [Mark.rank]) hs
  obtain ⟨_, _, ls₂, rfl, hs₂⟩ := hs₁.mark
  obtain ⟨_, _, ls₃, rfl, hs₃⟩ := hs₂.token
  obtain ⟨_, _, ls₄, rfl, hs₄⟩ := hs₃.mark
  simp only [List.length_cons] at hlt hf
  obtain ⟨fuel, rfl⟩ : ∃ f, fuel = f + 1 := Nat.exists_eq_add_one.2 (by omega)
  refine ⟨ls₄, fuel, hs₄, by omega, by omega, hreach.trans (.inl ?_)⟩
  simp only [brackets, after?_cons, if_true, spellSize, reduceCtorEq, if_false, sizeOf?_repr hsize,
    expect_mark]
  rfl

theorem readsAt_emptyTuple : ReadsAt 1 .emptyTuple (spell .emptyTuple) 3 := by
  have hs : spell .emptyTuple = fun rest ↦ mark .openBracket :: mark .closeBracket :: rest := by
    funext rest
    rw [spell]
  rw [hs]
  refine Reads.bare (by simp) ?_
  intro stop depth rest ls _ hs
  obtain ⟨_, _, ls₁, rfl, hs₁⟩ := Spells.mark hs
  obtain ⟨_, _, ls₂, rfl, hs₂⟩ := hs₁.mark
  refine ⟨ls₂, hs₂, by simp only [List.length_cons]; omega, .inl ?_⟩
  simp only [primary, items, after?_cons, if_true, bind, Except.bind, expect_mark]
  rfl

theorem readsAt_openStruct : ReadsAt 1 .openStruct (spell .openStruct) 3 := by
  have hs : spell .openStruct = fun rest ↦ mark .openBrace :: mark .closeBrace :: rest := by
    funext rest
    rw [spell]
  rw [hs]
  refine Reads.bare (by simp) ?_
  intro stop depth rest ls _ hs
  obtain ⟨_, _, ls₁, rfl, hs₁⟩ := Spells.mark hs
  obtain ⟨_, _, ls₂, rfl, hs₂⟩ := hs₁.mark
  exact ⟨ls₂, hs₂, by simp only [List.length_cons]; omega, .inl (by simp [primary, braced])⟩

theorem items_spellItems {ts : List Ty} (hne : ts ≠ [])
    (h : ∀ t ∈ ts, Reads 0 n (spell t) whole t)
    (stop depth : Nat) {rest : List Piece} {ls : List Lexeme} {fuel : Nat}
    (hs : Spells ls (spellItems ts (mark .closeBracket :: rest))) (hf : ls.length < fuel) :
    ∃ ls', Spells ls' (mark .closeBracket :: rest) ∧ ls'.length < ls.length ∧
      Reaches (n ≤ depth) (items (term stop depth) fuel ls) (.ok (ts, ls')) := by
  induction ts generalizing ls fuel with
  | nil => exact absurd rfl hne
  | cons t ts ih =>
    obtain ⟨fuel, rfl⟩ : ∃ f, fuel = f + 1 := Nat.exists_eq_add_one.2 (by omega)
    obtain ⟨ht, hts⟩ := List.forall_mem_cons.1 h
    cases ts with
    | nil =>
      rw [spellItems] at hs
      have hfirst : after? .closeBracket ls = none := after?_spell rfl hs
      obtain ⟨ls₁, hs₁, hlt₁, hreach₁⟩ := ht stop depth (by simp [Mark.rank]) hs
      refine ⟨ls₁, hs₁, hlt₁, ?_⟩
      obtain ⟨_, _, ls₂, rfl, -⟩ := hs₁.mark
      rw [items, hfirst]
      exact hreach₁.bind .refl
    | cons u us =>
      rw [spellItems] at hs
      · have hfirst : after? .closeBracket ls = none := after?_spell rfl hs
        obtain ⟨ls₁, hs₁, hlt₁, hreach₁⟩ := ht stop depth (by simp [Mark.rank]) hs
        obtain ⟨_, _, ls₂, rfl, hs₂⟩ := hs₁.mark
        rw [List.length_cons] at hlt₁
        have hfuel : ls₂.length < fuel := by omega
        obtain ⟨ls₃, hs₃, hlt₃, hreach₃⟩ := ih (by simp) hts hs₂ hfuel
        refine ⟨ls₃, hs₃, by omega, ?_⟩
        rw [items, hfirst]
        refine hreach₁.bind ?_
        exact hreach₃.bind .refl
      · simp

theorem readsAt_tuple {ts : List Ty} (hne : ts ≠ [])
    (h : ∀ t ∈ ts, Reads 0 n (spell t) whole t) :
    ReadsAt (n + 1) (.tuple ts) (spell (.tuple ts)) 3 := by
  have hs : spell (.tuple ts) =
      fun rest ↦ mark .openBracket :: spellItems ts (mark .closeBracket :: rest) := by
    funext rest
    rw [spell]
  rw [hs]
  refine Reads.bare (by simp) ?_
  intro stop depth rest ls _ hs
  obtain ⟨_, _, ls₁, rfl, hs₁⟩ := Spells.mark hs
  obtain ⟨ls₂, hs₂, hlt, hreach⟩ := items_spellItems hne h stop depth hs₁ (Nat.lt_succ_self _)
  obtain ⟨_, _, ls₃, rfl, hs₃⟩ := hs₂.mark
  simp only [List.length_cons] at hlt ⊢
  refine ⟨ls₃, hs₃, by omega, hreach.bind ?_⟩
  dsimp only
  rw [expect_mark]
  obtain ⟨t, ts, rfl⟩ := List.exists_cons_of_ne_nil hne
  exact .refl

theorem after?_spellName {m : Mark} {name : String} {ps : List Piece} {ls : List Lexeme}
    (hs : Spells ls (.token (spellName name) :: ps)) : after? m ls = none := by
  obtain ⟨_, _, ls', rfl, -⟩ := hs.token
  unfold spellName
  split <;> rfl

theorem spellFields_eq {fs : List (Field Ty)} (hne : fs ≠ []) (rest : List Piece) :
    ∃ name ps, spellFields fs rest = .token (spellName name) :: ps := by
  obtain ⟨⟨name, optional, t⟩, gs, rfl⟩ := List.exists_cons_of_ne_nil hne
  cases gs with
  | nil =>
    rw [spellFields]
    exact ⟨name, _, rfl⟩
  | cons g gs =>
    rw [spellFields]
    · exact ⟨name, _, rfl⟩
    · simp

theorem field_spellLabel (name : String) (optional : Bool)
    (h : Reads 0 n (spell t) whole t) (stop depth : Nat) {rest : List Piece} {ls : List Lexeme} (hr : stops 0 rest)
    (hs : Spells ls (spellLabel name optional (spell t rest))) :
    ∃ ls', Spells ls' rest ∧ ls'.length < ls.length ∧
      Reaches (n ≤ depth) (field stop (term stop depth) ls) (.ok (⟨name, optional, t⟩, ls')) := by
  obtain ⟨offset, slice, ls₁, rfl, hs₁⟩ := Spells.token hs
  have hname : fieldName stop (⟨spellName name, offset, slice⟩ :: ls₁) = .ok (name, ls₁) := by
    unfold spellName
    split <;> rfl
  cases optional with
  | true =>
    obtain ⟨_, _, ls₂, rfl, hs₂⟩ := hs₁.mark
    obtain ⟨_, _, ls₃, rfl, hs₃⟩ := hs₂.mark
    obtain ⟨ls₄, hs₄, hlt, hreach⟩ := h stop depth hr hs₃
    refine ⟨ls₄, hs₄, by simp only [List.length_cons]; omega, ?_⟩
    unfold field
    simp only [hname, bind, Except.bind, after?_cons, if_true, expect_mark]
    exact hreach.bind .refl
  | false =>
    obtain ⟨_, _, ls₂, rfl, hs₂⟩ := hs₁.mark
    obtain ⟨ls₃, hs₃, hlt, hreach⟩ := h stop depth hr hs₂
    refine ⟨ls₃, hs₃, by simp only [List.length_cons]; omega, ?_⟩
    unfold field
    simp only [hname, bind, Except.bind, after?_cons, Token.mark.injEq, reduceCtorEq, if_false,
      expect_mark]
    exact hreach.bind .refl

theorem fields_spellFields {fs : List (Field Ty)} (hne : fs ≠ [])
    (h : ∀ f ∈ fs, Reads 0 n (spell f.type) whole f.type)
    (hnodup : (fs.map (·.name)).Nodup) (stop depth : Nat) {rest : List Piece} {ls : List Lexeme}
    {fuel : Nat} {seen : List String} (hseen : ∀ f ∈ fs, f.name ∉ seen)
    (hs : Spells ls (spellFields fs (.space :: mark .closeBrace :: rest)))
    (hf : ls.length < fuel) :
    ∃ ls', Spells ls' (mark .closeBrace :: rest) ∧ ls'.length < ls.length ∧
      Reaches (n ≤ depth) (fields stop (term stop depth) fuel seen ls) (.ok (fs, ls')) := by
  induction fs generalizing ls fuel seen with
  | nil => exact absurd rfl hne
  | cons f fs ih =>
    obtain ⟨fuel, rfl⟩ : ∃ g, fuel = g + 1 := Nat.exists_eq_add_one.2 (by omega)
    obtain ⟨name, optional, t⟩ := f
    obtain ⟨ht, hts⟩ := List.forall_mem_cons.1 h
    obtain ⟨hname, hnames⟩ := List.forall_mem_cons.1 hseen
    rw [List.map_cons, List.nodup_cons] at hnodup
    dsimp only at hname
    cases fs with
    | nil =>
      rw [spellFields] at hs
      obtain ⟨ls₁, hs₁, hlt₁, hreach₁⟩ :=
        field_spellLabel name optional ht stop depth (by simp [Mark.rank]) hs
      refine ⟨ls₁, hs₁, hlt₁, ?_⟩
      obtain ⟨_, _, ls₂, rfl, -⟩ := Spells.mark hs₁
      rw [fields, after?_spellName hs]
      refine hreach₁.bind ?_
      dsimp only
      rw [if_neg hname]
      exact .refl
    | cons g gs =>
      rw [spellFields] at hs
      · obtain ⟨ls₁, hs₁, hlt₁, hreach₁⟩ :=
          field_spellLabel name optional ht stop depth (by simp [Mark.rank]) hs
        obtain ⟨_, _, ls₂, rfl, hs₂⟩ := hs₁.mark
        rw [List.length_cons] at hlt₁
        have hfuel : ls₂.length < fuel := by omega
        have hfresh : ∀ g' ∈ g :: gs, g'.name ∉ name :: seen := by
          intro g' hg' hmem
          obtain heq | hmem := List.mem_cons.1 hmem
          · exact hnodup.1 (List.mem_map.2 ⟨g', hg', heq⟩)
          · exact hnames g' hg' hmem
        obtain ⟨ls₃, hs₃, hlt₃, hreach₃⟩ := ih (by simp) hts hnodup.2 hfresh hs₂ hfuel
        refine ⟨ls₃, hs₃, by omega, ?_⟩
        rw [fields, after?_spellName hs]
        refine hreach₁.bind ?_
        dsimp only
        rw [if_neg hname]
        exact hreach₃.bind .refl
      · simp

theorem readsAt_struct {fs : List (Field Ty)} (hne : fs ≠ [])
    (h : ∀ f ∈ fs, Reads 0 n (spell f.type) whole f.type)
    (hnodup : (fs.map (·.name)).Nodup) :
    ReadsAt (n + 1) (.struct fs) (spell (.struct fs)) 3 := by
  have hs : spell (.struct fs) = fun rest ↦
      mark .openBrace :: .space :: spellFields fs (.space :: mark .closeBrace :: rest) := by
    funext rest
    rw [spell]
    exact hne
  rw [hs]
  refine Reads.bare (by simp) ?_
  intro stop depth rest ls _ hs
  obtain ⟨_, _, ls₁, rfl, hs₁⟩ := Spells.mark hs
  have hs₁ : Spells ls₁ (spellFields fs (.space :: mark .closeBrace :: rest)) := hs₁
  have hseen : ∀ f ∈ fs, f.name ∉ ([] : List String) := by simp
  obtain ⟨ls₂, hs₂, hlt, hreach⟩ :=
    fields_spellFields hne h hnodup stop depth hseen hs₁ (Nat.lt_succ_self _)
  obtain ⟨_, _, ls₃, rfl, hs₃⟩ := hs₂.mark
  simp only [List.length_cons] at hlt ⊢
  refine ⟨ls₃, hs₃, by omega, ?_⟩
  have hfirst (m : Mark) : after? m ls₁ = none := by
    obtain ⟨name, ps, hps⟩ := spellFields_eq hne (.space :: mark .closeBrace :: rest)
    rw [hps] at hs₁
    exact after?_spellName hs₁
  simp only [primary, braced, hfirst]
  refine hreach.bind ?_
  dsimp only
  rw [expect_mark]
  exact .refl

theorem readsAt_map {k : Ty} (hk : Reads 0 n (spell k) whole k)
    (ht : Reads 0 n (spell t) whole t) : ReadsAt (n + 1) (.map k t) (spell (.map k t)) 3 := by
  have hs : spell (.map k t) = fun rest ↦ mark .openBrace :: .space :: mark .openBracket ::
      spell k (mark .closeBracket :: mark .colon :: .space ::
        spell t (.space :: mark .closeBrace :: rest)) := by
    funext rest
    rw [spell]
  rw [hs]
  refine Reads.bare (by simp) ?_
  intro stop depth rest ls _ hs
  obtain ⟨_, _, ls₁, rfl, hs₁⟩ := Spells.mark hs
  obtain ⟨_, _, ls₂, rfl, hs₂⟩ := Spells.mark hs₁
  obtain ⟨ls₃, hs₃, hlt₃, hreach₃⟩ := hk stop depth (by simp [Mark.rank]) hs₂
  obtain ⟨_, _, ls₄, rfl, hs₄⟩ := hs₃.mark
  obtain ⟨_, _, ls₅, rfl, hs₅⟩ := hs₄.mark
  obtain ⟨ls₆, hs₆, hlt₆, hreach₆⟩ := ht stop depth (by simp [Mark.rank]) hs₅
  obtain ⟨_, _, ls₇, rfl, hs₇⟩ := Spells.mark hs₆
  simp only [List.length_cons] at hlt₃ hlt₆ ⊢
  refine ⟨ls₇, hs₇, by omega, ?_⟩
  simp only [primary, braced, after?_cons, Token.mark.injEq, reduceCtorEq, if_false, if_true]
  refine hreach₃.bind ?_
  dsimp only
  simp only [expect_mark, bind, Except.bind]
  refine hreach₆.bind ?_
  dsimp only
  rw [expect_mark]
  exact .refl

theorem ReadsAt.reads (h : ReadsAt n t (spell t) (level t)) : Reads 0 n (spell t) whole t :=
  (h.of_le (Nat.zero_le _) (level_le_three t)).union

theorem readsAt_inter {s : Ty} (hs : ReadsAt n s (inPlace .interLeft s (spell s)) 1)
    (ht : Reads 2 n (inPlace .interRight t (spell t)) term t) :
    ReadsAt n (.inter s t) (spell (.inter s t)) 1 := by
  have heq : spell (.inter s t) = fun rest ↦ inPlace .interLeft s (spell s)
      (.space :: mark .ampersand :: .space :: inPlace .interRight t (spell t) rest) := by
    funext rest
    rw [spell]
  rw [heq]
  exact Leads.operand (m := .ampersand) hs ht

theorem readsAt_union {s : Ty} (hs : ReadsAt n s (spell s) 0)
    (ht : ReadsAt n t (inPlace .unionRight t (spell t)) 1) :
    ReadsAt n (.union s t) (spell (.union s t)) 0 := by
  have heq : spell (.union s t) = fun rest ↦
      spell s (.space :: mark .bar :: .space :: inPlace .unionRight t (spell t) rest) := by
    funext rest
    rw [spell]
  rw [heq]
  exact Leads.operand (m := .bar) hs ht.inter

end

section

variable {s t : Ty}

theorem two_mul_height (t : Ty) : 2 * t.height - 2 + 1 = 2 * t.height - 1 := by
  have hpos := t.height_pos
  omega

theorem ReadsAt.part (h : ReadsAt (2 * s.height - 1) s (spell s) (level s)) (hs : s ∈ t.parts) :
    Reads 0 (2 * t.height - 2) (spell s) whole s := by
  have hlt := Ty.height_lt_of_mem_parts hs
  exact h.reads.mono (by omega)

theorem ReadsAt.place (position : Position)
    (h : ReadsAt (2 * s.height - 1) s (spell s) (level s)) (hs : s ∈ t.parts) :
    ReadsAt (2 * t.height - 2) s (inPlace position s (spell s)) position.level := by
  have hlt := Ty.height_lt_of_mem_parts hs
  have hpos := s.height_pos
  exact (readsAt_inPlace position h).mono (by omega)

end

/-- A canonical type is read back, where each node takes up at most two levels of depth. -/
theorem readsAt_spell (t : Ty) (hc : isCanonical t) :
    ReadsAt (2 * t.height - 1) t (spell t) (level t) := by
  induction t with
  | literal l => exact readsAt_literal (Ty.every_self hc)
  | primitive p => exact readsAt_primitive p
  | generic name =>
    obtain ⟨-, hu⟩ : _ ∧ startsUppercase name := by simpa [isSpellable] using Ty.every_self hc
    exact readsAt_generic hu
  | emptyTuple => exact readsAt_emptyTuple
  | openStruct => exact readsAt_openStruct
  | tag name =>
    obtain ⟨-, hr⟩ : _ ∧ isReserved name = false := by simpa [isSpellable] using Ty.every_self hc
    exact readsAt_tag hr
  | bounded name t ih =>
    obtain ⟨-, hu⟩ : _ ∧ startsUppercase name := by simpa [isSpellable] using Ty.every_self hc
    have hmem : t ∈ (Ty.bounded name t).parts := List.mem_singleton_self t
    rw [← two_mul_height]
    exact readsAt_bounded hu ((ih (Ty.every_of_mem_parts hc hmem)).place .bound hmem)
  | nullable t ih =>
    have hmem : t ∈ (Ty.nullable t).parts := List.mem_singleton_self t
    rw [← two_mul_height]
    exact readsAt_nullable ((ih (Ty.every_of_mem_parts hc hmem)).place .bound hmem)
  | list t ih =>
    have hmem : t ∈ (Ty.list t).parts := List.mem_singleton_self t
    have ht := (ih (Ty.every_of_mem_parts hc hmem)).place .element hmem
    exact (readsAt_list ht).mono (by omega)
  | array t size ih =>
    have hsize : size < twoPow 64 := by simpa [isSpellable] using Ty.every_self hc
    have hmem : t ∈ (Ty.array t size).parts := List.mem_singleton_self t
    have ht := (ih (Ty.every_of_mem_parts hc hmem)).place .element hmem
    exact (readsAt_array hsize ht).mono (by omega)
  | named name t ih =>
    obtain ⟨-, hr⟩ : _ ∧ isReserved name = false := by simpa [isSpellable] using Ty.every_self hc
    have hmem : t ∈ (Ty.named name t).parts := List.mem_singleton_self t
    rw [← two_mul_height]
    exact readsAt_named hr ((ih (Ty.every_of_mem_parts hc hmem)).part hmem)
  | tuple ts ih =>
    have hne : ts ≠ [] := by simpa [isSpellable] using Ty.every_self hc
    rw [← two_mul_height]
    refine readsAt_tuple hne fun t ht ↦ ?_
    exact (ih t ht (Ty.every_of_mem_parts hc ht)).part ht
  | struct fs ih =>
    obtain ⟨hne, hnodup⟩ : fs ≠ [] ∧ (fs.map (·.name)).Nodup := by
      simpa [isSpellable] using Ty.every_self hc
    rw [← two_mul_height]
    refine readsAt_struct hne (fun f hf ↦ ?_) hnodup
    have hmem : f.type ∈ (Ty.struct fs).parts := List.mem_map.2 ⟨f, hf, rfl⟩
    exact (ih f hf (Ty.every_of_mem_parts hc hmem)).part hmem
  | map k t ihk iht =>
    have hk : k ∈ (Ty.map k t).parts := by simp [Ty.parts]
    have ht : t ∈ (Ty.map k t).parts := by simp [Ty.parts]
    rw [← two_mul_height]
    exact readsAt_map ((ihk (Ty.every_of_mem_parts hc hk)).part hk)
      ((iht (Ty.every_of_mem_parts hc ht)).part ht)
  | inter s t ihs iht =>
    have hs : s ∈ (Ty.inter s t).parts := by simp [Ty.parts]
    have ht : t ∈ (Ty.inter s t).parts := by simp [Ty.parts]
    have hleft := (ihs (Ty.every_of_mem_parts hc hs)).place .interLeft hs
    have hright := (iht (Ty.every_of_mem_parts hc ht)).place .interRight ht
    exact (readsAt_inter hleft hright).mono (by omega)
  | union s t ihs iht =>
    have hs : s ∈ (Ty.union s t).parts := by simp [Ty.parts]
    have ht : t ∈ (Ty.union s t).parts := by simp [Ty.parts]
    have hlt := Ty.height_lt_of_mem_parts hs
    have hleft := (ihs (Ty.every_of_mem_parts hc hs)).of_le (Nat.zero_le _) (level_le_three s)
    have hright := (iht (Ty.every_of_mem_parts hc ht)).place .unionRight ht
    exact readsAt_union (hleft.mono (by omega)) (hright.mono (by omega))

theorem parseTokens_of_spells {t : Ty} (hc : isCanonical t) (stop : Nat) {ls : List Lexeme}
    (hs : Spells ls (spell t [])) : Reaches (t.height ≤ 128) (parseTokens stop ls) (.ok t) := by
  obtain ⟨ls', hs', hlt, hreach⟩ := (readsAt_spell t hc).reads stop maxDepth rfl hs
  obtain rfl : ls' = [] := by simpa [Spells] using hs'
  have hdepth : t.height ≤ 128 → 2 * t.height - 1 ≤ maxDepth := by
    intro h
    have hmax : maxDepth = 256 := rfl
    omega
  unfold parseTokens
  rw [if_neg (by simpa using List.ne_nil_of_length_pos hlt)]
  refine (hreach.mono hdepth).bind ?_
  exact .refl

theorem parse_of_print {t : Ty} (hc : isCanonical t) :
    Reaches (t.height ≤ 128) (parse (print t)) (.ok t) := by
  obtain ⟨ls, hlex, hs⟩ := lex_of_legible (legible_spell t hc [] rfl trivial)
  have hlex : lex (print t) = .ok ls := hlex
  unfold parse
  rw [hlex]
  exact parseTokens_of_spells hc _ hs

/-- Printing and parsing are inverse on canonical types. The parser gives no other types, and it
reads a printed one back unless that is nested too deeply, which takes more than 128 nodes on one
path. -/
theorem parse_print :
    (∀ text t, parse text = .ok t → isCanonical t) ∧
    ∀ t, isCanonical t →
      (parse (print t) = .ok t ∨ ∃ offset, parse (print t) = .error (.tooDeep offset)) ∧
      (t.height ≤ 128 → parse (print t) = .ok t) := by
  refine ⟨fun text t h ↦ isCanonical_of_parse h, fun t hc ↦ ?_⟩
  obtain h | ⟨hdeep, ho⟩ := parse_of_print hc
  · exact ⟨.inl h, fun _ ↦ h⟩
  · exact ⟨.inr ho, fun hle ↦ absurd hle hdeep⟩

theorem parse_print_places :
    parse (print (.union (.list (.bounded "T" (.union (.primitive .int) (.nullable (.tag "b")))))
      (.inter (.nullable (.nullable (.tuple [.literal .null, .array (.primitive .char) 3])))
        (.struct [⟨"a b", true, .map (.primitive .string) (.named "c" (.generic "U"))⟩])))) =
    .ok (.union (.list (.bounded "T" (.union (.primitive .int) (.nullable (.tag "b")))))
      (.inter (.nullable (.nullable (.tuple [.literal .null, .array (.primitive .char) 3])))
        (.struct [⟨"a b", true, .map (.primitive .string) (.named "c" (.generic "U"))⟩]))) :=
  (parse_print.2 _ (by decide)).2 (by decide)

end FlowTypes.Notation
