import FlowTypes.Proofs.Notation.Canonical

namespace FlowTypes.Notation

section

variable {α β : Type} {fits : Prop} {r s u : Except Error α}

/-- One result is the other, or it is that of a text nested too deeply, unless this one fits. -/
def Reaches (fits : Prop) (r s : Except Error α) : Prop :=
  r = s ∨ ¬fits ∧ ∃ offset, r = .error (.tooDeep offset)

theorem Reaches.refl : Reaches fits r r := .inl rfl

theorem Reaches.trans (h₁ : Reaches fits r s) (h₂ : Reaches fits s u) : Reaches fits r u := by
  obtain rfl | h := h₁
  · exact h₂
  · exact .inr h

theorem Reaches.mono {fits' : Prop} (h : Reaches fits r s) (hf : fits' → fits) :
    Reaches fits' r s := by
  obtain h | ⟨hn, ho⟩ := h
  · exact .inl h
  · exact .inr ⟨fun h ↦ hn (hf h), ho⟩

theorem Reaches.bind {a : α} {f : α → Except Error β} {b : Except Error β}
    (h : Reaches fits r (.ok a)) (hf : Reaches fits (f a) b) : Reaches fits (r >>= f) b := by
  obtain rfl | ⟨hn, offset, rfl⟩ := h
  · exact hf
  · exact .inr ⟨hn, offset, rfl⟩

end

section

variable {ls : List Lexeme} {ps : List Piece} {t : Token}

theorem Spells.token (h : Spells ls (.token t :: ps)) :
    ∃ offset slice ls', ls = ⟨t, offset, slice⟩ :: ls' ∧ Spells ls' ps := by
  cases ls with
  | nil => simp [Spells, Piece.token?] at h
  | cons l ls =>
    obtain ⟨token, offset, slice⟩ := l
    have h : token :: ls.map (·.token) = t :: ps.filterMap Piece.token? := h
    obtain ⟨rfl, hs⟩ := List.cons.inj h
    exact ⟨offset, slice, ls, rfl, hs⟩

theorem Spells.mark {m : Mark} (h : Spells ls (mark m :: ps)) :
    ∃ offset slice ls', ls = ⟨.mark m, offset, slice⟩ :: ls' ∧ Spells ls' ps := h.token

theorem Spells.word {w : String} (h : Spells ls (word w :: ps)) :
    ∃ offset slice ls', ls = ⟨.word w, offset, slice⟩ :: ls' ∧ Spells ls' ps := h.token

@[simp] theorem after?_cons (m : Mark) (t : Token) (offset : Nat) (slice : List Char) :
    after? m (⟨t, offset, slice⟩ :: ls) = if t = .mark m then some ls else none := rfl

theorem expect_mark (stop : Nat) (m : Mark) (e : Expected) (offset : Nat) (slice : List Char) :
    expect stop m e (⟨.mark m, offset, slice⟩ :: ls) = .ok ls := by simp [expect]

end

def Mark.rank : Mark → Nat
  | .closeParen | .closeBracket | .closeBrace | .comma => 0
  | .bar => 1
  | .ampersand => 2
  | .openBracket => 3
  | .openParen | .openBrace | .question | .colon => 4

/-- The first token, if there is one, is a mark of at most this rank. -/
def stops (rank : Nat) : List Piece → Bool
  | [] => true
  | .space :: ps => stops rank ps
  | .token (.mark m) :: _ => m.rank ≤ rank
  | .token _ :: _ => false

@[simp] theorem stops_space (rank : Nat) (ps : List Piece) :
    stops rank (.space :: ps) = stops rank ps := rfl

@[simp] theorem stops_mark (rank : Nat) (m : Mark) (ps : List Piece) :
    stops rank (mark m :: ps) = (m.rank ≤ rank) := by simp [mark, stops]

section

variable {rank : Nat} {rest : List Piece} {ls : List Lexeme}

theorem stops_mono {rank' : Nat} (hr : rank ≤ rank') (h : stops rank rest) : stops rank' rest := by
  induction rest with
  | nil => rfl
  | cons p rest ih =>
    match p with
    | .space => exact ih h
    | .token (.mark m) =>
      simp only [stops, decide_eq_true_eq] at h ⊢
      omega

theorem head_of_stops (h : stops rank rest) (hs : Spells ls rest) :
    ls = [] ∨ ∃ m offset slice ls', ls = ⟨.mark m, offset, slice⟩ :: ls' ∧ m.rank ≤ rank := by
  induction rest with
  | nil => exact .inl (by simpa [Spells] using hs)
  | cons p rest ih =>
    match p with
    | .space => exact ih h hs
    | .token (.mark m) =>
      obtain ⟨offset, slice, ls', rfl, -⟩ := hs.token
      exact .inr ⟨m, offset, slice, ls', rfl, by simpa [stops] using h⟩

theorem after?_of_stops {m : Mark} (hr : rank < m.rank) (h : stops rank rest)
    (hs : Spells ls rest) : after? m ls = none := by
  obtain rfl | ⟨m', offset, slice, ls', rfl, hm⟩ := head_of_stops h hs
  · rfl
  · have hne : m' ≠ m := by
      rintro rfl
      omega
    simp [hne]

end

theorem operands_of_none {m : Mark} {join : Ty → Ty → Ty} {operand : Parser Ty} {t : Ty}
    {ls : List Lexeme} (h : after? m ls = none) (fuel : Nat) :
    operands m join operand fuel t ls = .ok (t, ls) := by
  cases fuel with
  | zero => rfl
  | succ fuel => rw [operands, h]

theorem brackets_of_none {stop : Nat} {t : Ty} {ls : List Lexeme}
    (h : after? .openBracket ls = none) (fuel : Nat) :
    brackets stop fuel t ls = .ok (t, ls) := by
  cases fuel with
  | zero => rfl
  | succ fuel => rw [brackets, h]

theorem chain_eq (m : Mark) (join : Ty → Ty → Ty) (operand : Parser Ty) (ls : List Lexeme) :
    chain m join operand ls =
      operand ls >>= fun x ↦ operands m join operand x.2.length x.1 x.2 := by
  unfold chain
  apply congrArg
  funext x
  obtain ⟨left, rest⟩ := x
  cases h : after? m rest with
  | none =>
    simp only [h, operands_of_none h]
    rfl
  | some _ => simp only [h]

theorem term_succ {stop depth : Nat} {ls : List Lexeme} (h : after? .question ls = none) :
    term stop (depth + 1) ls =
      primary stop (term stop depth) ls >>= fun x ↦ brackets stop x.2.length x.1 x.2 := by
  rw [term, h]
  dsimp only
  apply congrArg
  funext x
  obtain ⟨base, rest⟩ := x
  cases h : after? .openBracket rest with
  | none =>
    rw [brackets_of_none h]
    rfl
  | some _ => rfl

def whole (stop depth : Nat) : Parser Ty := union (term stop depth)

/-- After the spelled pieces, the one parser goes on like the other, if a mark of at most this rank
comes next. Depth `n` is enough, and the fuel it goes on with covers what is left. -/
def Leads (rank n : Nat) (spelled : List Piece → List Piece) (p : Nat → Nat → Parser Ty)
    (q : Nat → Nat → Nat → Parser Ty) : Prop :=
  ∀ stop depth ⦃rest ls⦄, stops rank rest → Spells ls (spelled rest) →
    ∃ ls' fuel, Spells ls' rest ∧ ls'.length < ls.length ∧ ls'.length ≤ fuel ∧
      Reaches (n ≤ depth) (p stop depth ls) (q stop depth fuel ls')

/-- After the spelled pieces, the parser has read this type. -/
def Reads (rank n : Nat) (spelled : List Piece → List Piece) (p : Nat → Nat → Parser Ty)
    (t : Ty) : Prop :=
  ∀ stop depth ⦃rest ls⦄, stops rank rest → Spells ls (spelled rest) →
    ∃ ls', Spells ls' rest ∧ ls'.length < ls.length ∧
      Reaches (n ≤ depth) (p stop depth ls) (.ok (t, ls'))

/-- How a type is read where it is spelled at some level. -/
def ReadsAt (n : Nat) (t : Ty) (spelled : List Piece → List Piece) : Nat → Prop
  | 0 => Leads 1 n spelled whole fun stop depth fuel ↦
      operands .bar .union (chain .ampersand .inter (term stop depth)) fuel t
  | 1 => Leads 2 n spelled (fun stop depth ↦ chain .ampersand .inter (term stop depth))
      fun stop depth fuel ↦ operands .ampersand .inter (term stop depth) fuel t
  | 2 => Reads 2 n spelled term t
  | _ => Leads 3 n spelled term fun stop _ fuel ↦ brackets stop fuel t

section

variable {rank n : Nat} {spelled : List Piece → List Piece} {t : Ty}

theorem Leads.mono {n' : Nat} {p : Nat → Nat → Parser Ty} {q : Nat → Nat → Nat → Parser Ty}
    (h : Leads rank n spelled p q) (hn : n ≤ n') : Leads rank n' spelled p q := by
  intro stop depth rest ls hr hs
  obtain ⟨ls', fuel, hs', hlt, hf, hreach⟩ := h stop depth hr hs
  exact ⟨ls', fuel, hs', hlt, hf, hreach.mono (Nat.le_trans hn)⟩

theorem Reads.mono {n' : Nat} {p : Nat → Nat → Parser Ty} (h : Reads rank n spelled p t)
    (hn : n ≤ n') : Reads rank n' spelled p t := by
  intro stop depth rest ls hr hs
  obtain ⟨ls', hs', hlt, hreach⟩ := h stop depth hr hs
  exact ⟨ls', hs', hlt, hreach.mono (Nat.le_trans hn)⟩

theorem Leads.reads {p : Nat → Nat → Parser Ty} {q : Nat → Nat → Nat → Parser Ty} {m : Mark}
    {rank' : Nat} (h : Leads rank' n spelled p q)
    (hq : ∀ stop depth fuel ls, after? m ls = none → q stop depth fuel ls = .ok (t, ls))
    (hle : rank ≤ rank') (hr : rank < m.rank) : Reads rank n spelled p t := by
  intro stop depth rest ls hstop hs
  obtain ⟨ls', fuel, hs', hlt, hf, hreach⟩ := h stop depth (stops_mono hle hstop) hs
  rw [hq _ _ _ _ (after?_of_stops hr hstop hs')] at hreach
  exact ⟨ls', hs', hlt, hreach⟩

theorem Leads.term (h : Leads rank n spelled term fun stop _ fuel ↦ brackets stop fuel t)
    (hr : 2 ≤ rank) : Reads 2 n spelled term t :=
  h.reads (m := .openBracket) (fun _ _ fuel _ ha ↦ brackets_of_none ha fuel) hr (by decide)

theorem ReadsAt.inter (h : ReadsAt n t spelled 1) :
    Reads 1 n spelled (fun stop depth ↦ chain .ampersand .inter (Notation.term stop depth)) t :=
  Leads.reads (m := .ampersand) h (fun _ _ fuel _ ha ↦ operands_of_none ha fuel) (by decide)
    (by decide)

theorem ReadsAt.union (h : ReadsAt n t spelled 0) : Reads 0 n spelled whole t :=
  Leads.reads (m := .bar) h (fun _ _ fuel _ ha ↦ operands_of_none ha fuel) (by decide)
    (by decide)

theorem Reads.chain {m : Mark} {join : Ty → Ty → Ty} {p : Nat → Nat → Parser Ty}
    (h : Reads rank n spelled p t) :
    Leads rank n spelled (fun stop depth ↦ chain m join (p stop depth))
      fun stop depth fuel ↦ operands m join (p stop depth) fuel t := by
  intro stop depth rest ls hr hs
  obtain ⟨ls', hs', hlt, hreach⟩ := h stop depth hr hs
  refine ⟨ls', ls'.length, hs', hlt, Nat.le_refl _, ?_⟩
  dsimp only
  rw [chain_eq]
  exact hreach.bind .refl

theorem ReadsAt.of_le {i j : Nat} (h : ReadsAt n t spelled j) (hij : i ≤ j) (hj : j ≤ 3) :
    ReadsAt n t spelled i := by
  have h₂ (h : ReadsAt n t spelled 3) : ReadsAt n t spelled 2 := Leads.term h (by decide)
  have h₁ (h : ReadsAt n t spelled 2) : ReadsAt n t spelled 1 := Reads.chain h
  have h₀ (h : ReadsAt n t spelled 1) : ReadsAt n t spelled 0 := Reads.chain h.inter
  match j, i with
  | 0, 0 | 1, 1 | 2, 2 | 3, 3 => exact h
  | 1, 0 => exact h₀ h
  | 2, 1 => exact h₁ h
  | 2, 0 => exact h₀ (h₁ h)
  | 3, 2 => exact h₂ h
  | 3, 1 => exact h₁ (h₂ h)
  | 3, 0 => exact h₀ (h₁ (h₂ h))

theorem ReadsAt.mono {n' i : Nat} (h : ReadsAt n t spelled i) (hn : n ≤ n') :
    ReadsAt n' t spelled i := by
  match i with
  | 0 | 1 | i + 3 => exact Leads.mono h hn
  | 2 => exact Reads.mono h hn

theorem Leads.operand {m : Mark} {join : Ty → Ty → Ty} {p : Nat → Nat → Parser Ty}
    {spelled' : List Piece → List Piece} {s : Ty}
    (h : Leads m.rank n spelled (fun stop depth ↦ Notation.chain m join (p stop depth))
      fun stop depth fuel ↦ operands m join (p stop depth) fuel s)
    (ht : Reads m.rank n spelled' p t) :
    Leads m.rank n (fun rest ↦ spelled (.space :: mark m :: .space :: spelled' rest))
      (fun stop depth ↦ Notation.chain m join (p stop depth))
      fun stop depth fuel ↦ operands m join (p stop depth) fuel (join s t) := by
  intro stop depth rest ls hr hs
  obtain ⟨ls₁, fuel, hs₁, hlt₁, hf, hreach₁⟩ := h stop depth (by simp) hs
  obtain ⟨offset, slice, ls₂, rfl, hs₂⟩ := Spells.mark hs₁
  obtain ⟨ls₃, hs₃, hlt₃, hreach₃⟩ := ht stop depth hr hs₂
  rw [List.length_cons] at hlt₁ hf
  obtain ⟨fuel, rfl⟩ : ∃ f, fuel = f + 1 := Nat.exists_eq_add_one.2 (by omega)
  refine ⟨ls₃, fuel, hs₃, by omega, by omega, hreach₁.trans ?_⟩
  dsimp only
  rw [operands, after?_cons, if_pos rfl]
  exact hreach₃.bind .refl

end

/-- The level at which a type is spelled. A loop at this level takes up what follows, up to a mark
of lower rank. -/
def level : Ty → Nat
  | .union .. => 0
  | .inter .. => 1
  | .nullable _ | .bounded .. => 2
  | _ => 3

def Position.level : Position → Nat
  | .unionRight | .interLeft => 1
  | .bound | .interRight => 2
  | .element => 3

theorem level_le_three (t : Ty) : level t ≤ 3 := by cases t <;> simp [level]

theorem level_le_of_needsParens {t : Ty} {position : Position}
    (h : needsParens t position = false) : position.level ≤ level t := by
  cases t with
  | union => simp [needsParens] at h
  | inter | nullable | bounded =>
    cases position <;> simp_all [needsParens, level, Position.level]
  | _ => cases position <;> simp [level, Position.level]

def Token.opens : Token → Bool
  | .mark m => m == .question || m == .openBracket || m == .openBrace || m == .openParen
  | _ => true

theorem opens_inPlace {position : Position} {t : Ty}
    (h : ∀ rest, ∃ token ps, spell t rest = .token token :: ps ∧ token.opens)
    (rest : List Piece) :
    ∃ token ps, inPlace position t (spell t) rest = .token token :: ps ∧ token.opens := by
  unfold inPlace
  split
  · exact ⟨_, _, rfl, rfl⟩
  · exact h rest

theorem opens_spell (t : Ty) (rest : List Piece) :
    ∃ token ps, spell t rest = .token token :: ps ∧ token.opens := by
  induction t generalizing rest with
  | literal l =>
    refine ⟨spellLiteral l, rest, by rw [spell], ?_⟩
    cases l with
    | number x => rw [spellLiteral]; split <;> rfl
    | _ => rfl
  | array t _ ih | list t ih | inter t _ ih _ =>
    rw [spell]
    exact opens_inPlace ih _
  | union s _ ih =>
    rw [spell]
    exact ih _
  | struct fs =>
    cases fs <;> rw [spell] <;> first | exact ⟨_, _, rfl, rfl⟩ | simp
  | _ =>
    rw [spell]
    exact ⟨_, _, rfl, rfl⟩

section

variable {rest : List Piece} {ls : List Lexeme} {rank n : Nat} {t : Ty}
  {spelled : List Piece → List Piece}

theorem after?_spell {m : Mark} (hm : (Token.mark m).opens = false)
    (hs : Spells ls (spell t rest)) : after? m ls = none := by
  obtain ⟨token, ps, hps, ho⟩ := opens_spell t rest
  rw [hps] at hs
  obtain ⟨offset, slice, ls', rfl, -⟩ := hs.token
  have hne : token ≠ .mark m := by
    rintro rfl
    rw [hm] at ho
    exact Bool.noConfusion ho
  simp [hne]

theorem Reads.bare {token : Token} (hq : token ≠ .mark .question)
    (h : Reads rank n (fun rest ↦ .token token :: spelled rest)
      (fun stop depth ↦ primary stop (term stop depth)) t) :
    Leads rank (n + 1) (fun rest ↦ .token token :: spelled rest) term
      fun stop _ fuel ↦ brackets stop fuel t := by
  intro stop depth rest ls hr hs
  cases depth with
  | zero =>
    obtain ⟨ls', hs', hlt, -⟩ := h stop 0 hr hs
    refine ⟨ls', ls'.length, hs', hlt, Nat.le_refl _, .inr ⟨by omega, ?_⟩⟩
    exact ⟨_, rfl⟩
  | succ depth =>
    obtain ⟨ls', hs', hlt, hreach⟩ := h stop depth hr hs
    obtain ⟨offset, slice, ls₁, rfl, -⟩ := hs.token
    refine ⟨ls', ls'.length, hs', hlt, Nat.le_refl _, ?_⟩
    dsimp only
    rw [term_succ (by simp [hq])]
    exact (hreach.mono Nat.le_of_succ_le_succ).bind .refl

theorem Reads.parens (h : Reads 0 n spelled whole t) :
    ReadsAt (n + 1) t (fun rest ↦ mark .openParen :: spelled (mark .closeParen :: rest)) 3 := by
  refine Reads.bare (by simp) ?_
  intro stop depth rest ls hr hs
  obtain ⟨offset, slice, ls₁, rfl, hs₁⟩ := hs.mark
  obtain ⟨ls₂, hs₂, hlt, hreach⟩ := h stop depth (by simp [Mark.rank]) hs₁
  obtain ⟨offset₂, slice₂, ls₃, rfl, hs₃⟩ := hs₂.mark
  simp only [List.length_cons] at hlt ⊢
  refine ⟨ls₃, hs₃, by omega, hreach.bind ?_⟩
  dsimp only
  rw [expect_mark]
  exact .refl

theorem readsAt_inPlace (position : Position) (h : ReadsAt n t (spell t) (level t)) :
    ReadsAt (n + 1) t (inPlace position t (spell t)) position.level := by
  unfold inPlace
  cases hp : needsParens t position with
  | true =>
    have hunion := (h.of_le (Nat.zero_le _) (level_le_three t)).union
    exact hunion.parens.of_le (by cases position <;> decide) (Nat.le_refl 3)
  | false => exact (h.of_le (level_le_of_needsParens hp) (level_le_three t)).mono (Nat.le_succ n)

end

end FlowTypes.Notation
