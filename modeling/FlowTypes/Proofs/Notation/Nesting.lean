import FlowTypes.Proofs.Notation.Derivation

namespace FlowTypes.Notation

def placed (position : Position) (t : Ty) (n : Nat) : Nat :=
  if needsParens t position then n + 1 else n

mutual

/-- How many terms are inside each other in the printed type. -/
def printDepth : Ty → Nat
  | .literal _ | .primitive _ | .generic _ | .emptyTuple | .openStruct | .tag _ => 1
  | .bounded _ t | .nullable t => placed .bound t (printDepth t) + 1
  | .array t _ | .list t => placed .element t (printDepth t)
  | .tuple ts => printDepthOfItems ts + 1
  | .struct fs => printDepthOfFields fs + 1
  | .map k t => max (printDepth k) (printDepth t) + 1
  | .named _ t => printDepth t + 1
  | .inter s t => max (placed .interLeft s (printDepth s)) (placed .interRight t (printDepth t))
  | .union s t => max (printDepth s) (placed .unionRight t (printDepth t))

def printDepthOfItems : List Ty → Nat
  | [] => 0
  | t :: ts => max (printDepth t) (printDepthOfItems ts)

def printDepthOfFields : List (Field Ty) → Nat
  | [] => 0
  | ⟨_, _, t⟩ :: fs => max (printDepth t) (printDepthOfFields fs)

end

variable {k : Category} {op : Operator} {e : Element} {n m : Nat}

namespace Phrase

variable {ts us vs : List Token}

theorem Spans.mono {p : Phrase k} (h : p.Spans n ts us) (hn : n ≤ m) : p.Spans m ts us where
  tokens := h.tokens
  fits := ⟨h.fits.distinct, h.fits.leaves, Nat.le_trans h.fits.nesting hn⟩

/-- The tokens before the others spell a phrase that fits and is just so deep. -/
structure Writes (n : Nat) (p : Phrase k) (ts us : List Token) : Prop where
  spans : p.Spans n ts us
  nesting : p.nesting = n

namespace Writes

theorem chain {first : Phrase (.operand op)} {rest : Phrase (.operands op)}
    (hf : first.Writes n ts us) (hr : rest.Writes m us vs) :
    (Phrase.chain first rest).Writes (max n m) ts vs where
  spans := (hf.spans.mono (Nat.le_max_left n m)).chain (hr.spans.mono (Nat.le_max_right n m))
  nesting := by rw [Phrase.nesting, hf.nesting, hr.nesting]

theorem operand {next : Phrase (.operand op)} {rest : Phrase (.operands op)}
    (hn : next.Writes n ts us) (hr : rest.Writes m us vs) :
    (Phrase.operand next rest).Writes (max n m) (.mark op.mark :: ts) vs where
  spans := (hn.spans.mono (Nat.le_max_left n m)).operand (hr.spans.mono (Nat.le_max_right n m))
  nesting := by rw [Phrase.nesting, hn.nesting, hr.nesting]

theorem nullable {inner : Phrase .term} (h : inner.Writes n ts us) :
    inner.nullable.Writes (n + 1) (.mark .question :: ts) us :=
  ⟨h.spans.nullable, by rw [Phrase.nesting, h.nesting]⟩

theorem bare {base : Phrase .primary} {rest : Phrase .brackets} (hb : base.Writes n ts us)
    (hr : rest.Writes 0 us vs) (hl : leavesBrackets (.bare base rest)) :
    (Phrase.bare base rest).Writes (n + 1) ts vs :=
  ⟨hb.spans.bare (hr.spans.mono (Nat.zero_le n)) hl, by rw [Phrase.nesting, hb.nesting]⟩

theorem map {key value : Phrase .type}
    (hk : key.Writes n ts (.mark .closeBracket :: .mark .colon :: us))
    (hv : value.Writes m us (.mark .closeBrace :: vs)) :
    (Phrase.map key value).Writes (max n m) (.mark .openBrace :: .mark .openBracket :: ts) vs where
  spans := (hk.spans.mono (Nat.le_max_left n m)).map (hv.spans.mono (Nat.le_max_right n m))
  nesting := by rw [Phrase.nesting, hk.nesting, hv.nesting]

theorem last {x : Phrase (.element e)} (h : x.Writes n ts us) :
    (Phrase.last x false).Writes n ts us :=
  ⟨h.spans.last, h.nesting⟩

theorem more {x : Phrase (.element e)} {rest : Phrase (.list e)}
    (hx : x.Writes n ts (.mark .comma :: us)) (hr : rest.Writes m us vs) :
    (Phrase.more x rest).Writes (max n m) ts vs where
  spans := (hx.spans.mono (Nat.le_max_left n m)).more (hr.spans.mono (Nat.le_max_right n m))
  nesting := by rw [Phrase.nesting, hx.nesting, hr.nesting]

end Writes

end Phrase

open Phrase (Writes)

def tokensOf (ps : List Piece) : List Token := ps.filterMap Piece.token?

section

variable {s t : Ty} {spelled spelled' : List Piece → List Piece}

/-- The spelled type is derived as a chain, with whatever operands come after it. -/
def WrittenChain (op : Operator) (n : Nat) (t : Ty) (spelled : List Piece → List Piece) : Prop :=
  ∀ (more : Phrase (.operands op)) rest ⦃m us⦄, more.Writes m (tokensOf rest) us →
    ∃ p : Phrase (.chain op), p.value = more.value t ∧
      p.Writes (max n m) (tokensOf (spelled rest)) us

/-- How a type is derived where it is spelled at some level. -/
def WrittenAt (n : Nat) (t : Ty) (spelled : List Piece → List Piece) : Nat → Prop
  | 0 => WrittenChain .union n t spelled
  | 1 => WrittenChain .inter n t spelled
  | 2 => ∀ rest, ∃ p : Phrase .term, p.value = t ∧
      p.Writes n (tokensOf (spelled rest)) (tokensOf rest)
  | _ => ∀ (more : Phrase .brackets) rest ⦃us⦄, more.Writes 0 (tokensOf rest) us →
      ∃ p : Phrase .term, p.value = more.value t ∧ p.Writes n (tokensOf (spelled rest)) us

theorem WrittenChain.phrase (h : WrittenChain op n t spelled) (rest : List Piece) :
    ∃ p : Phrase (.chain op), p.value = t ∧
      p.Writes n (tokensOf (spelled rest)) (tokensOf rest) := by
  obtain ⟨p, hp, hw⟩ := h .noOperand rest ⟨.noOperand, rfl⟩
  exact ⟨p, hp, (Nat.max_zero n) ▸ hw⟩

theorem WrittenChain.operand (hs : WrittenChain op n s spelled)
    (ht : ∀ rest, ∃ q : Phrase (.operand op), op.value q.value = t ∧
      q.Writes m (tokensOf (spelled' rest)) (tokensOf rest)) :
    WrittenChain op (max n m) (op.join s t)
      fun rest ↦ spelled (.space :: mark op.mark :: .space :: spelled' rest) := by
  intro more rest l us hmore
  obtain ⟨q, rfl, hq⟩ := ht rest
  obtain ⟨p, hp, hw⟩ := hs (.operand q more) (.space :: mark op.mark :: .space :: spelled' rest)
    (hq.operand hmore)
  exact ⟨p, hp, by rwa [← Nat.max_assoc] at hw⟩

theorem WrittenAt.of_le {i j : Nat} (h : WrittenAt n t spelled j) (hij : i ≤ j) (hj : j ≤ 3) :
    WrittenAt n t spelled i := by
  have h₂ (h : WrittenAt n t spelled 3) : WrittenAt n t spelled 2 :=
    fun rest ↦ h .noBrackets rest ⟨.noBrackets, rfl⟩
  have h₁ (h : WrittenAt n t spelled 2) : WrittenAt n t spelled 1 := by
    intro more rest m us hmore
    obtain ⟨p, rfl, hw⟩ := h rest
    exact ⟨.chain p more, rfl, hw.chain hmore⟩
  have h₀ (h : WrittenAt n t spelled 1) : WrittenAt n t spelled 0 := by
    intro more rest m us hmore
    obtain ⟨p, rfl, hw⟩ := WrittenChain.phrase h rest
    exact ⟨.chain p more, rfl, hw.chain hmore⟩
  match j, i with
  | 0, 0 | 1, 1 | 2, 2 | 3, 3 => exact h
  | 1, 0 => exact h₀ h
  | 2, 1 => exact h₁ h
  | 2, 0 => exact h₀ (h₁ h)
  | 3, 2 => exact h₂ h
  | 3, 1 => exact h₁ (h₂ h)
  | 3, 0 => exact h₀ (h₁ (h₂ h))

theorem WrittenAt.phrase (h : WrittenAt n t spelled (level t)) (rest : List Piece) :
    ∃ p : Phrase .type, p.value = t ∧ p.Writes n (tokensOf (spelled rest)) (tokensOf rest) :=
  WrittenChain.phrase (h.of_le (Nat.zero_le _) (level_le_three t)) rest

theorem writtenAt_primary
    (h : ∀ rest, ∃ p : Phrase .primary, p.value = t ∧ (∀ q, Phrase.leavesBrackets (.bare p q)) ∧
      p.Writes n (tokensOf (spelled rest)) (tokensOf rest)) :
    WrittenAt (n + 1) t spelled 3 := by
  intro more rest us hmore
  obtain ⟨p, rfl, hl, hw⟩ := h rest
  exact ⟨.bare p more, rfl, hw.bare hmore (hl more)⟩

theorem writtenAt_inPlace (position : Position) (h : WrittenAt n t (spell t) (level t)) :
    WrittenAt (placed position t n) t (inPlace position t (spell t)) position.level := by
  unfold inPlace placed
  cases hp : needsParens t position with
  | true =>
    have hparens : WrittenAt (n + 1) t
        (fun rest ↦ mark .openParen :: spell t (mark .closeParen :: rest)) 3 := by
      apply writtenAt_primary
      intro rest
      obtain ⟨p, hp, hw⟩ := h.phrase (mark .closeParen :: rest)
      exact ⟨.group p, hp, fun _ ↦ rfl, hw.spans.group, hw.nesting⟩
    exact hparens.of_le (by cases position <;> decide) (Nat.le_refl 3)
  | false => exact h.of_le (level_le_of_needsParens hp) (level_le_three t)

theorem writtenAt_atom {token : Token} (h : atom? token = some t) :
    WrittenAt 1 t (fun rest ↦ .token token :: rest) 3 :=
  writtenAt_primary fun _ ↦ ⟨.atom token t h, rfl, fun _ ↦ rfl, .atom h, rfl⟩

theorem writtenAt_list (h : WrittenAt n t spelled 3) :
    WrittenAt n (.list t) (fun rest ↦ spelled (mark .openBracket :: mark .closeBracket :: rest))
      3 := by
  intro more rest us hmore
  exact h more.list (mark .openBracket :: mark .closeBracket :: rest) ⟨hmore.spans.list, rfl⟩

theorem writtenAt_array {size : Nat} (hsize : size < twoPow 64) (h : WrittenAt n t spelled 3) :
    WrittenAt n (.array t size) (fun rest ↦ spelled
      (mark .openBracket :: .token (spellSize size) :: mark .closeBracket :: rest)) 3 := by
  intro more rest us hmore
  exact h (.array _ _ size (sizeOf?_repr hsize) more)
    (mark .openBracket :: .token (spellSize size) :: mark .closeBracket :: rest)
    ⟨hmore.spans.array _, rfl⟩

theorem exists_items {ts : List Ty} (hne : ts ≠ [])
    (h : ∀ t ∈ ts, WrittenAt (printDepth t) t (spell t) (level t)) (rest : List Piece) :
    ∃ p : Phrase (.list .item), p.value = ts ∧
      p.Writes (printDepthOfItems ts) (tokensOf (spellItems ts rest)) (tokensOf rest) := by
  induction ts with
  | nil => exact absurd rfl hne
  | cons t ts ih =>
    obtain ⟨ht, hts⟩ := List.forall_mem_cons.1 h
    cases ts with
    | nil =>
      rw [spellItems]
      obtain ⟨p, rfl, hw⟩ := ht.phrase rest
      rw [printDepthOfItems, printDepthOfItems, Nat.max_zero]
      exact ⟨.last (e := .item) p false, rfl, hw.last⟩
    | cons u us =>
      rw [spellItems]
      · obtain ⟨q, hq, hw'⟩ := ih (by simp) hts
        obtain ⟨p, rfl, hw⟩ := ht.phrase (mark .comma :: .space :: spellItems (u :: us) rest)
        exact ⟨.more (e := .item) p q, by rw [← hq]; rfl, hw.more hw'⟩
      · simp

def labelOf (name : String) (optional : Bool) : Label :=
  ⟨!Text.isWord name.toList, name, optional⟩

theorem tokensOf_spellLabel (name : String) (optional : Bool) (rest : List Piece) :
    tokensOf (spellLabel name optional rest) = (labelOf name optional).tokens ++ tokensOf rest := by
  unfold spellLabel spellName labelOf Label.tokens
  cases Text.isWord name.toList <;> cases optional <;> rfl

theorem exists_fields {fs : List (Field Ty)} (hne : fs ≠ [])
    (h : ∀ f ∈ fs, WrittenAt (printDepth f.type) f.type (spell f.type) (level f.type))
    (rest : List Piece) :
    ∃ p : Phrase (.list .field), p.value = fs ∧
      p.Writes (printDepthOfFields fs) (tokensOf (spellFields fs rest)) (tokensOf rest) := by
  induction fs with
  | nil => exact absurd rfl hne
  | cons f fs ih =>
    obtain ⟨name, optional, t⟩ := f
    obtain ⟨ht, hfs⟩ := List.forall_mem_cons.1 h
    have hfield (rest : List Piece) : ∃ p : Phrase .field, p.value = ⟨name, optional, t⟩ ∧
        p.Writes (printDepth t) (tokensOf (spellLabel name optional (spell t rest)))
          (tokensOf rest) := by
      obtain ⟨p, rfl, hw⟩ := ht.phrase rest
      rw [tokensOf_spellLabel]
      exact ⟨.field (labelOf name optional) p, rfl, hw.spans.field, hw.nesting⟩
    cases fs with
    | nil =>
      rw [spellFields]
      obtain ⟨p, hp, hw⟩ := hfield rest
      rw [printDepthOfFields, printDepthOfFields, Nat.max_zero]
      exact ⟨.last (e := .field) p false, congrArg ([·]) hp, hw.last⟩
    | cons g gs =>
      rw [spellFields]
      · obtain ⟨q, hq, hw'⟩ := ih (by simp) hfs
        obtain ⟨p, hp, hw⟩ := hfield (mark .comma :: .space :: spellFields (g :: gs) rest)
        exact ⟨.more (e := .field) p q, by rw [← hq, ← hp]; rfl, hw.more hw'⟩
      · simp

end

theorem writtenAt_spell (t : Ty) (hc : isCanonical t) :
    WrittenAt (printDepth t) t (spell t) (level t) := by
  induction t with
  | literal l =>
    have hs : spell (.literal l) = fun rest ↦ .token (spellLiteral l) :: rest := by
      funext rest
      rw [spell]
    rw [hs]
    apply writtenAt_atom
    cases l with
    | null => rfl
    | bool b => cases b <;> rfl
    | number x =>
      have hx : x.isFinite := Ty.every_self hc
      rw [spellLiteral, if_pos hx]
      rfl
    | string s => rfl
  | primitive p =>
    have hs : spell (.primitive p) = fun rest ↦ word p.name :: rest := by
      funext rest
      rw [spell]
    rw [hs]
    exact writtenAt_atom (by cases p <;> rfl)
  | generic name =>
    obtain ⟨-, hu⟩ : _ ∧ startsUppercase name := by simpa [isSpellable] using Ty.every_self hc
    refine writtenAt_primary fun rest ↦ ?_
    rw [spell]
    exact ⟨.generic name hu, rfl, fun _ ↦ rfl, .generic hu, rfl⟩
  | emptyTuple =>
    refine writtenAt_primary fun rest ↦ ?_
    rw [spell]
    exact ⟨.emptyTuple, rfl, fun _ ↦ rfl, .emptyTuple, rfl⟩
  | openStruct =>
    refine writtenAt_primary fun rest ↦ ?_
    rw [spell]
    exact ⟨.openStruct, rfl, fun _ ↦ rfl, .openStruct, rfl⟩
  | tag name =>
    obtain ⟨-, hr⟩ : _ ∧ isReserved name = false := by simpa [isSpellable] using Ty.every_self hc
    refine writtenAt_primary fun rest ↦ ?_
    rw [spell]
    exact ⟨.tag name hr, rfl, fun _ ↦ rfl, .tag hr, rfl⟩
  | bounded name t ih =>
    obtain ⟨-, hu⟩ : _ ∧ startsUppercase name := by simpa [isSpellable] using Ty.every_self hc
    have ht := writtenAt_inPlace .bound
      (ih (Ty.every_of_mem_parts hc (List.mem_singleton_self t)))
    intro rest
    rw [spell]
    obtain ⟨p, rfl, hw⟩ := ht rest
    have hb : (Phrase.bounded name hu p).Writes _ _ _ := ⟨hw.spans.bounded hu, hw.nesting⟩
    exact ⟨.bare (.bounded name hu p) .noBrackets, rfl, hb.bare ⟨.noBrackets, rfl⟩ rfl⟩
  | nullable t ih =>
    have ht := writtenAt_inPlace .bound
      (ih (Ty.every_of_mem_parts hc (List.mem_singleton_self t)))
    intro rest
    rw [spell]
    obtain ⟨p, rfl, hw⟩ := ht rest
    exact ⟨p.nullable, rfl, hw.nullable⟩
  | list t ih =>
    have ht := writtenAt_inPlace .element
      (ih (Ty.every_of_mem_parts hc (List.mem_singleton_self t)))
    intro more rest us hmore
    rw [spell]
    exact writtenAt_list ht more rest hmore
  | array t size ih =>
    have hsize : size < twoPow 64 := by simpa [isSpellable] using Ty.every_self hc
    have ht := writtenAt_inPlace .element
      (ih (Ty.every_of_mem_parts hc (List.mem_singleton_self t)))
    intro more rest us hmore
    rw [spell]
    exact writtenAt_array hsize ht more rest hmore
  | named name t ih =>
    obtain ⟨-, hr⟩ : _ ∧ isReserved name = false := by simpa [isSpellable] using Ty.every_self hc
    have ht := ih (Ty.every_of_mem_parts hc (List.mem_singleton_self t))
    refine writtenAt_primary fun rest ↦ ?_
    rw [spell]
    obtain ⟨p, rfl, hw⟩ := ht.phrase (mark .closeBrace :: rest)
    exact ⟨.named name hr p, rfl, fun _ ↦ rfl, hw.spans.named hr, hw.nesting⟩
  | tuple ts ih =>
    have hne : ts ≠ [] := by simpa [isSpellable] using Ty.every_self hc
    have hts : ∀ t ∈ ts, WrittenAt (printDepth t) t (spell t) (level t) :=
      fun t ht ↦ ih t ht (Ty.every_of_mem_parts hc ht)
    refine writtenAt_primary fun rest ↦ ?_
    rw [spell]
    obtain ⟨p, rfl, hw⟩ := exists_items hne hts (mark .closeBracket :: rest)
    exact ⟨.tuple p, rfl, fun _ ↦ rfl, hw.spans.tuple, hw.nesting⟩
  | struct fs ih =>
    obtain ⟨hne, hnodup⟩ : fs ≠ [] ∧ (fs.map (·.name)).Nodup := by
      simpa [isSpellable] using Ty.every_self hc
    have hfs : ∀ f ∈ fs, WrittenAt (printDepth f.type) f.type (spell f.type) (level f.type) :=
      fun f hf ↦ ih f hf (Ty.every_of_mem_parts hc (List.mem_map.2 ⟨f, hf, rfl⟩))
    refine writtenAt_primary fun rest ↦ ?_
    rw [spell]
    · obtain ⟨p, rfl, hw⟩ := exists_fields hne hfs (.space :: mark .closeBrace :: rest)
      exact ⟨.struct p, rfl, fun _ ↦ rfl, hw.spans.struct hnodup, hw.nesting⟩
    · exact hne
  | map k t ihk iht =>
    have hk := ihk (Ty.every_of_mem_parts hc (by simp [Ty.parts]))
    have ht := iht (Ty.every_of_mem_parts hc (by simp [Ty.parts]))
    refine writtenAt_primary fun rest ↦ ?_
    rw [spell]
    obtain ⟨q, rfl, hw'⟩ := ht.phrase (.space :: mark .closeBrace :: rest)
    obtain ⟨p, rfl, hw⟩ := hk.phrase (mark .closeBracket :: mark .colon :: .space ::
      spell q.value (.space :: mark .closeBrace :: rest))
    exact ⟨.map p q, rfl, fun _ ↦ rfl, hw.map hw'⟩
  | inter s t ihs iht =>
    have hs := writtenAt_inPlace .interLeft (ihs (Ty.every_of_mem_parts hc (by simp [Ty.parts])))
    have ht := writtenAt_inPlace .interRight (iht (Ty.every_of_mem_parts hc (by simp [Ty.parts])))
    have h : WrittenChain .inter _ (.inter s t) _ := WrittenChain.operand hs ht
    intro more rest m us hmore
    rw [spell]
    exact h more rest hmore
  | union s t ihs iht =>
    have hs := ihs (Ty.every_of_mem_parts hc (by simp [Ty.parts]))
    have ht := writtenAt_inPlace .unionRight (iht (Ty.every_of_mem_parts hc (by simp [Ty.parts])))
    have h : WrittenChain .union _ (.union s t) _ := WrittenChain.operand
      (hs.of_le (Nat.zero_le _) (level_le_three s)) (WrittenChain.phrase ht)
    intro more rest m us hmore
    rw [spell]
    exact h more rest hmore

section

variable {text : String} {s t : Ty}

theorem exists_phrase_of_parse (h : parse text = .ok t) :
    ∃ ls, lex text = .ok ls ∧ ∃ p : Phrase .type, p.value = t ∧
      p.Spans maxDepth (ls.map (·.token)) [] := by
  obtain ⟨ls, hlex, h⟩ := ok_of_bind h
  exact ⟨ls, hlex, sound_union (sound_term maxDepth) (parseTokens_eq_ok.1 h)⟩

theorem parse_print_iff_depth (hc : isCanonical t) :
    parse (print t) = .ok t ↔ printDepth t ≤ maxDepth := by
  obtain ⟨p, hp, hw⟩ := (writtenAt_spell t hc).phrase []
  obtain ⟨ls, hlex, hs⟩ := lex_of_legible (legible_spell t hc [] rfl trivial)
  have htokens : ls.map (·.token) = p.tokens ++ [] := hs.trans hw.spans.tokens
  have hlex : lex (print t) = .ok ls := hlex
  obtain ⟨hdistinct, hleaves, -⟩ := hw.spans.fits
  rw [← hw.nesting]
  constructor
  · intro h
    -- whatever was read has a derivation of its own, which is the same one
    obtain ⟨ls', hlex', q, -, hq⟩ := exists_phrase_of_parse h
    obtain rfl : ls = ls' := Except.ok.inj (hlex.symm.trans hlex')
    obtain ⟨rfl, -⟩ := Phrase.determined hleaves hq.fits.leaves rfl rfl
      (htokens.symm.trans hq.tokens)
    exact hq.fits.nesting
  · intro hn
    obtain ⟨ls', hls', hu⟩ :=
      (Phrase.readable hdistinct hleaves hn).union (print t).utf8ByteSize htokens rfl
    obtain rfl := List.map_eq_nil_iff.1 hls'
    rw [hp] at hu
    rw [parse, hlex]
    exact parseTokens_eq_ok.2 hu

theorem parse_print_of_depth (hc : isCanonical t) (hd : maxDepth < printDepth t) :
    ∃ offset, parse (print t) = .error (.tooDeep offset) := by
  obtain hok | ⟨-, ho⟩ := parse_of_print hc
  · exact absurd ((parse_print_iff_depth hc).1 hok) (Nat.not_le.2 hd)
  · exact ho

/-- The depth of a type at some level, with parentheses just where the level is too low. -/
def depthAt (i : Nat) (t : Ty) : Nat := if level t < i then printDepth t + 1 else printDepth t

theorem depthAt_mono {i j : Nat} (h : i ≤ j) (t : Ty) : depthAt i t ≤ depthAt j t := by
  unfold depthAt
  split <;> split <;> omega

theorem depthAt_le (i : Nat) (t : Ty) : depthAt i t ≤ printDepth t + 1 := by
  unfold depthAt
  split <;> omega

theorem depthAt_of_le {i : Nat} (h : i ≤ level t) : depthAt i t = printDepth t :=
  if_neg (Nat.not_lt.2 h)

theorem level_lt_of_needsParens {position : Position} (h : needsParens t position) :
    level t < position.level ∨ (∃ s, t = .nullable s ∧ position = .bound) ∨
      ∃ l r, t = .inter l r ∧ position = .unionRight := by
  cases t with
  | union | inter | nullable | bounded =>
    cases position <;> simp_all [needsParens, level, Position.level]
  | _ => simp [needsParens] at h

/-- Has a node no part that parentheses are set around without need? -/
def isTight : Ty → Bool
  | .bounded _ (.nullable _) | .nullable (.nullable _) | .union _ (.inter ..) => false
  | _ => true

theorem placed_eq_depthAt {position : Position} (hn : ∀ s, t = .nullable s → position ≠ .bound)
    (hi : ∀ l r, t = .inter l r → position ≠ .unionRight) :
    placed position t (printDepth t) = depthAt position.level t := by
  unfold placed depthAt
  cases hp : needsParens t position with
  | true =>
    have hlt : level t < position.level := by
      obtain h | ⟨s, rfl, rfl⟩ | ⟨l, r, rfl, rfl⟩ := level_lt_of_needsParens hp
      · exact h
      · exact absurd rfl (hn s rfl)
      · exact absurd rfl (hi l r rfl)
    simp [hlt]
  | false =>
    have hle := level_le_of_needsParens hp
    simp [Nat.not_lt.2 hle]

def Operator.level : Operator → Nat
  | .union => 0
  | .inter => 1

theorem depthAt_join (h : (op.join s t).every isTight) :
    depthAt op.level (op.join s t) = max (depthAt op.level s) (depthAt (op.level + 1) t) := by
  cases op with
  | union =>
    have ht : ∀ l r, t ≠ .inter l r := by
      rintro l r rfl
      simp [Operator.join, isTight] at h
    have hplaced : placed .unionRight t (printDepth t) = depthAt 1 t :=
      placed_eq_depthAt (fun _ _ ↦ by decide) fun l r he ↦ absurd he (ht l r)
    rw [Operator.join, Operator.level, depthAt_of_le (Nat.zero_le _), printDepth,
      depthAt_of_le (Nat.zero_le _), hplaced]
  | inter =>
    have hl : Operator.level .inter ≤ level (.inter s t) := Nat.le_refl 1
    have hleft : placed .interLeft s (printDepth s) = depthAt 1 s :=
      placed_eq_depthAt (fun _ _ ↦ by decide) fun _ _ _ ↦ by decide
    have hright : placed .interRight t (printDepth t) = depthAt 2 t :=
      placed_eq_depthAt (fun _ _ ↦ by decide) fun _ _ _ ↦ by decide
    rw [Operator.join, depthAt_of_le hl, printDepth, hleft, hright, Operator.level]

theorem every_of_join (h : (op.join s t).every isTight) : s.every isTight ∧ t.every isTight := by
  cases op <;> simp_all [Operator.join]

theorem placed_bound (h : ∀ s, t ≠ .nullable s) : placed .bound t (printDepth t) = depthAt 2 t :=
  placed_eq_depthAt (fun s he ↦ absurd he (h s)) fun _ _ _ ↦ by decide

theorem placed_element (t : Ty) : placed .element t (printDepth t) = depthAt 3 t :=
  placed_eq_depthAt (fun _ _ ↦ by decide) fun _ _ _ ↦ by decide

theorem depthAt_nullable (h : (Ty.nullable t).every isTight) :
    depthAt 2 (.nullable t) = depthAt 2 t + 1 := by
  rw [depthAt_of_le (Nat.le_refl 2), printDepth, placed_bound]
  rintro s rfl
  simp [isTight] at h

theorem depthAt_bounded {name : String} (h : (Ty.bounded name t).every isTight) :
    depthAt 2 (.bounded name t) = depthAt 2 t + 1 := by
  rw [depthAt_of_le (Nat.le_refl 2), printDepth, placed_bound]
  rintro s rfl
  simp [isTight] at h

theorem depthAt_list (t : Ty) : depthAt 3 (.list t) = depthAt 3 t := by
  rw [depthAt_of_le (Nat.le_refl 3), printDepth, placed_element]

theorem depthAt_array (t : Ty) (size : Nat) : depthAt 3 (.array t size) = depthAt 3 t := by
  rw [depthAt_of_le (Nat.le_refl 3), printDepth, placed_element]

theorem depthAt_atom {token : Token} (h : atom? token = some t) : depthAt 3 t = 1 := by
  cases token with
  | word w =>
    rw [atom?] at h
    unfold reserved? at h
    split at h
    · obtain rfl := Option.some_inj.1 h
      rfl
    · obtain rfl := Option.some_inj.1 h
      rfl
    · obtain rfl := Option.some_inj.1 h
      rfl
    · obtain ⟨p, -, rfl⟩ := Option.map_eq_some_iff.1 h
      rfl
  | number | string =>
    obtain rfl := Option.some_inj.1 h
    rfl
  | mark m => simp [atom?] at h

end

namespace Phrase

/-- A phrase is as deep as what it stands for is printed, if that has no parentheses without need.
What goes on from a type is so if the type is. -/
def Covers : {k : Category} → Phrase k → Prop
  | .chain op, p => p.value.every isTight → depthAt op.level p.value ≤ p.nesting
  | .operands op, p => ∀ t, (p.value t).every isTight → t.every isTight ∧
      depthAt op.level (p.value t) ≤ max (depthAt op.level t) p.nesting
  | .term, p => p.value.every isTight → depthAt 2 p.value ≤ p.nesting
  | .brackets, p => ∀ t, (p.value t).every isTight → t.every isTight ∧
      depthAt 3 (p.value t) ≤ depthAt 3 t
  | .primary, p => p.value.every isTight → depthAt (p.rank - 1) p.value ≤ p.nesting + 1
  | .field, p => p.value.type.every isTight → printDepth p.value.type ≤ p.nesting
  | .list .item, p => (∀ t ∈ p.value, t.every isTight) → printDepthOfItems p.value ≤ p.nesting
  | .list .field, p => (∀ f ∈ p.value, f.type.every isTight) →
      printDepthOfFields p.value ≤ p.nesting

theorem Covers.operand {p : Phrase (.operand op)} (h : p.Covers)
    (ht : (op.value p.value).every isTight) :
    depthAt (op.level + 1) (op.value p.value) ≤ p.nesting := by
  cases op <;> exact h ht

theorem Covers.whole {p : Phrase .type} (h : p.Covers) (ht : p.value.every isTight) :
    printDepth p.value ≤ p.nesting := by
  rw [← depthAt_of_le (Nat.zero_le _)]
  exact h ht

theorem covers {p : Phrase k} (hl : p.every leavesBrackets) : p.Covers := by
  induction p with
  | @chain op first rest ihf ihr =>
    simp only [every_chain, Bool.and_eq_true] at hl
    intro ht
    obtain ⟨hfirst, hle⟩ := ihr hl.2.2 _ ht
    have hf := (ihf hl.2.1).operand hfirst
    have hmono := depthAt_mono (Nat.le_add_right op.level 1) (op.value first.value)
    exact Nat.le_trans hle (by rw [nesting]; omega)
  | noOperand => exact fun t ht ↦ ⟨ht, Nat.le_max_left _ _⟩
  | @operand op next rest ihn ihr =>
    simp only [every_operand, Bool.and_eq_true] at hl
    intro t ht
    obtain ⟨hjoin, hle⟩ := ihr hl.2.2 _ ht
    obtain ⟨hleft, hnext⟩ := every_of_join hjoin
    have hn := (ihn hl.2.1).operand hnext
    rw [depthAt_join hjoin] at hle
    exact ⟨hleft, Nat.le_trans hle (by rw [nesting]; omega)⟩
  | nullable inner ih =>
    simp only [every_nullable, Bool.and_eq_true] at hl
    intro ht
    have hinner : inner.value.every isTight := Ty.every_of_mem_parts ht (List.mem_singleton_self _)
    exact depthAt_nullable ht ▸ Nat.succ_le_succ (ih hl.2 hinner)
  | bare base rest ihb ihr =>
    simp only [every_bare, Bool.and_eq_true] at hl
    intro ht
    obtain ⟨hbase, hle⟩ := ihr hl.2.2 _ ht
    have hb := ihb hl.2.1 hbase
    cases rest with
    | noBrackets => exact Nat.le_trans (depthAt_mono (by cases base <;> simp [rank]) _) hb
    | list | array =>
      have hrank : base.rank = 4 := by
        cases base <;> first | rfl | simp [leavesBrackets, tokens] at hl
      rw [hrank] at hb
      exact Nat.le_trans (depthAt_mono (by decide) _) (Nat.le_trans hle hb)
  | noBrackets => exact fun t ht ↦ ⟨ht, Nat.le_refl _⟩
  | list rest ih =>
    simp only [every_list, Bool.and_eq_true] at hl
    intro t ht
    obtain ⟨hlist, hle⟩ := ih hl.2 _ ht
    rw [depthAt_list] at hle
    exact ⟨Ty.every_of_mem_parts hlist (List.mem_singleton_self t), hle⟩
  | array _ _ size _ rest ih =>
    simp only [every_array, Bool.and_eq_true] at hl
    intro t ht
    obtain ⟨harray, hle⟩ := ih hl.2 _ ht
    rw [depthAt_array] at hle
    exact ⟨Ty.every_of_mem_parts harray (List.mem_singleton_self t), hle⟩
  | atom _ _ h => exact fun _ ↦ Nat.le_of_eq (depthAt_atom h)
  | bounded name _ bound ih =>
    simp only [every_bounded, Bool.and_eq_true] at hl
    intro ht
    have hbound : bound.value.every isTight := Ty.every_of_mem_parts ht (List.mem_singleton_self _)
    exact depthAt_bounded ht ▸ Nat.succ_le_succ (ih hl.2 hbound)
  | generic | tag | emptyTuple | openStruct => exact fun _ ↦ Nat.le_refl 1
  | named _ _ inner ih =>
    simp only [every_named, Bool.and_eq_true] at hl
    intro ht
    have hinner : inner.value.every isTight := Ty.every_of_mem_parts ht (List.mem_singleton_self _)
    exact Nat.succ_le_succ ((ih hl.2).whole hinner)
  | tuple items ih =>
    simp only [every_tuple, Bool.and_eq_true] at hl
    intro ht
    exact Nat.succ_le_succ (ih hl.2 fun t hm ↦ Ty.every_of_mem_parts ht hm)
  | struct fields ih =>
    simp only [every_struct, Bool.and_eq_true] at hl
    intro ht
    exact Nat.succ_le_succ (ih hl.2 fun f hm ↦ Ty.every_of_mem_parts ht (List.mem_map_of_mem hm))
  | map key value ihk ihv =>
    simp only [every_map, Bool.and_eq_true] at hl
    intro ht
    have hkey : key.value.every isTight := Ty.every_of_mem_parts ht List.mem_cons_self
    have hvalue : value.value.every isTight :=
      Ty.every_of_mem_parts ht (List.mem_cons_of_mem _ List.mem_cons_self)
    have hk := (ihk hl.2.1).whole hkey
    have hv := (ihv hl.2.2).whole hvalue
    exact Nat.succ_le_succ (Nat.max_le.2 ⟨Nat.le_trans hk (Nat.le_max_left _ _),
      Nat.le_trans hv (Nat.le_max_right _ _)⟩)
  | group inner ih =>
    simp only [every_group, Bool.and_eq_true] at hl
    intro ht
    exact Nat.le_trans (depthAt_le 3 _) (Nat.succ_le_succ ((ih hl.2).whole ht))
  | field label t ih =>
    simp only [every_field, Bool.and_eq_true] at hl
    exact (ih hl.2).whole
  | @last e x comma ih =>
    simp only [every_last, Bool.and_eq_true] at hl
    cases e with
    | item =>
      intro ht
      exact Nat.max_le.2 ⟨(ih hl.2).whole (ht _ List.mem_cons_self), Nat.zero_le _⟩
    | field =>
      intro ht
      exact Nat.max_le.2 ⟨ih hl.2 (ht _ List.mem_cons_self), Nat.zero_le _⟩
  | @more e x rest ihx ihr =>
    simp only [every_more, Bool.and_eq_true] at hl
    cases e with
    | item =>
      intro ht
      have hx := (ihx hl.2.1).whole (ht _ List.mem_cons_self)
      have hr := ihr hl.2.2 fun t hm ↦ ht t (List.mem_cons_of_mem _ hm)
      exact Nat.max_le.2 ⟨Nat.le_trans hx (Nat.le_max_left _ _),
        Nat.le_trans hr (Nat.le_max_right _ _)⟩
    | field =>
      intro ht
      have hx := ihx hl.2.1 (ht _ List.mem_cons_self)
      have hr := ihr hl.2.2 fun f hm ↦ ht f (List.mem_cons_of_mem _ hm)
      exact Nat.max_le.2 ⟨Nat.le_trans hx (Nat.le_max_left _ _),
        Nat.le_trans hr (Nat.le_max_right _ _)⟩

end Phrase

/-- A type that was read is read back from its printed form just if this is not nested too deeply.
It never is, if the printer sets no parentheses without need. -/
theorem parse_print_of_parse {text : String} {t : Ty} (h : parse text = .ok t) :
    (parse (print t) = .ok t ↔ printDepth t ≤ maxDepth) ∧
    (maxDepth < printDepth t → ∃ offset, parse (print t) = .error (.tooDeep offset)) ∧
    (t.every isTight → parse (print t) = .ok t) := by
  have hc := isCanonical_of_parse h
  have hiff := parse_print_iff_depth hc
  refine ⟨hiff, parse_print_of_depth hc, fun ht ↦ ?_⟩
  obtain ⟨ls, -, p, rfl, hs⟩ := exists_phrase_of_parse h
  exact hiff.2 (Nat.le_trans ((Phrase.covers hs.fits.leaves).whole ht) hs.fits.nesting)

theorem parse_print_of_parse_tight :
    let t : Ty := .inter (.nullable (.list (.union (.primitive .int) (.primitive .string))))
      (.struct [⟨"a", false, .bounded "T" (.list (.primitive .bool))⟩])
    parse "(?(int | (string))[]) & {a: T extends (bool[])}" = .ok t ∧ parse (print t) = .ok t := by
  intro t
  have h : parse "(?(int | (string))[]) & {a: T extends (bool[])}" = .ok t := rfl
  exact ⟨h, (parse_print_of_parse h).2.2 rfl⟩

set_option maxRecDepth 20000 in
/-- Nullable types in each other are read without parentheses, and are printed with a pair for each
but the last. -/
theorem parse_print_too_deep :
    parse (String.ofList (List.replicate 129 '?' ++ ['i', 'n', 't'])) =
      .ok (Nat.repeat Ty.nullable 129 (.primitive .int)) ∧
    ∃ offset, parse (print (Nat.repeat Ty.nullable 129 (.primitive .int))) =
      .error (.tooDeep offset) := by
  have h : parse (String.ofList (List.replicate 129 '?' ++ ['i', 'n', 't'])) =
      .ok (Nat.repeat Ty.nullable 129 (.primitive .int)) := rfl
  exact ⟨h, parse_print_of_depth (isCanonical_of_parse h) (by decide)⟩

end FlowTypes.Notation
