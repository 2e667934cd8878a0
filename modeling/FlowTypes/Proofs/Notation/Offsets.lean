import FlowTypes.Proofs.Notation.Canonical

namespace FlowTypes.Notation

section

variable {stop : Nat} {α β : Type} {ls tokens rest : List Lexeme}

/-- The error points to where the parser stands among the lexemes, be it after the last of them. -/
def Error.Points (stop : Nat) (ls : List Lexeme) (e : Error) : Prop :=
  ∃ tokens, tokens <:+ ls ∧ e.offset? = some (offsetOf stop tokens) ∧
    ∀ expected found offset, e = .unexpectedToken expected found offset →
      found = tokens.head?.map (·.token)

def Within (stop : Nat) (ls : List Lexeme) : Except Error (α × List Lexeme) → Prop
  | .ok (_, rest) => rest <:+ ls
  | .error e => e.Points stop ls

theorem Within.bind {r : Except Error (α × List Lexeme)}
    {f : α × List Lexeme → Except Error (β × List Lexeme)} (h : Within stop ls r)
    (hf : ∀ a rest, rest <:+ ls → Within stop ls (f (a, rest))) : Within stop ls (r >>= f) := by
  cases r with
  | ok r => exact hf r.1 r.2 h
  | error e => exact h

theorem points_unexpected (expected : Expected) (hs : tokens <:+ ls) :
    (unexpected stop expected tokens).Points stop ls := by
  refine ⟨tokens, hs, rfl, fun expected' found offset h ↦ ?_⟩
  cases h
  rfl

theorem points_of_offset {e : Error} (hs : tokens <:+ ls)
    (ho : e.offset? = some (offsetOf stop tokens))
    (hne : ∀ expected found offset, e ≠ .unexpectedToken expected found offset) :
    e.Points stop ls :=
  ⟨tokens, hs, ho, fun expected found offset h ↦ absurd h (hne expected found offset)⟩

theorem suffix_of_after? {m : Mark} (h : after? m tokens = some rest) (hs : tokens <:+ ls) :
    rest <:+ ls := by
  obtain ⟨l, rfl, -⟩ := after?_eq_some.1 h
  exact (List.suffix_cons l rest).trans hs

theorem Within.expect {m : Mark} {expected : Expected}
    {f : List Lexeme → Except Error (β × List Lexeme)} (hs : tokens <:+ ls)
    (hf : ∀ rest, rest <:+ ls → Within stop ls (f rest)) :
    Within stop ls (expect stop m expected tokens >>= f) := by
  unfold Notation.expect
  split
  · next rest h => exact hf rest (suffix_of_after? h hs)
  · exact points_unexpected expected hs

/-- Wherever it stands, the parser leaves the last of the lexemes or points to one of them. -/
def Keeps (stop : Nat) (p : Parser α) : Prop :=
  ∀ ls tokens, tokens <:+ ls → Within stop ls (p tokens)

theorem keeps_operands {m : Mark} {join : Ty → Ty → Ty} {operand : Parser Ty}
    (ho : Keeps stop operand) (fuel : Nat) (left : Ty) :
    Keeps stop (operands m join operand fuel left) := by
  induction fuel generalizing left with
  | zero => exact fun ls tokens hs ↦ hs
  | succ fuel ih =>
    intro ls tokens hs
    unfold operands
    split
    · exact hs
    · next ha =>
      exact (ho ls _ (suffix_of_after? ha hs)).bind fun right rest hr ↦ ih _ ls rest hr

theorem keeps_chain {m : Mark} {join : Ty → Ty → Ty} {operand : Parser Ty}
    (ho : Keeps stop operand) : Keeps stop (chain m join operand) := by
  intro ls tokens hs
  refine (ho ls tokens hs).bind fun left rest hr ↦ ?_
  dsimp only
  split
  · exact hr
  · exact keeps_operands ho _ left ls rest hr

theorem keeps_brackets (fuel : Nat) (base : Ty) : Keeps stop (brackets stop fuel base) := by
  induction fuel generalizing base with
  | zero => exact fun ls tokens hs ↦ hs
  | succ fuel ih =>
    intro ls tokens hs
    unfold brackets
    split
    · exact hs
    · next ho =>
      have hopen := suffix_of_after? ho hs
      split
      · next hc => exact ih _ ls _ (suffix_of_after? hc hopen)
      · split
        · next x text offset slice rest =>
          split
          · exact points_of_offset hopen rfl (by simp)
          · exact Within.expect ((List.suffix_cons _ _).trans hopen) fun rest' hr ↦ ih _ ls rest' hr
        · exact points_unexpected _ hopen

section

variable {term : Parser Ty} (ht : Keeps stop term)

include ht

theorem keeps_union : Keeps stop (union term) := keeps_chain (keeps_chain ht)

theorem within_afterWord {l : Lexeme} (word : String) (hs : l :: tokens <:+ ls) :
    Within stop ls (afterWord stop term word l.offset tokens) := by
  have hafter := (List.suffix_cons l tokens).trans hs
  unfold afterWord
  split
  · next ho =>
    have hopen := suffix_of_after? ho hafter
    split
    · next hc => exact suffix_of_after? hc hopen
    · exact (keeps_union ht ls _ hopen).bind fun inner rest hr ↦
        Within.expect hr fun rest' hr' ↦ hr'
  · split
    · split
      · have hrest := (List.suffix_cons _ _).trans hafter
        split
        · exact (ht ls _ hrest).bind fun bound rest' hr ↦ hr
        · exact hafter
      · exact hafter
    · exact points_of_offset hs rfl (by simp)

theorem keeps_items (fuel : Nat) : Keeps stop (items term fuel) := by
  induction fuel with
  | zero => exact fun ls tokens hs ↦ hs
  | succ fuel ih =>
    intro ls tokens hs
    unfold items
    split
    · exact hs
    · refine (keeps_union ht ls tokens hs).bind fun item rest hr ↦ ?_
      dsimp only
      split
      · exact hr
      · next hc => exact (ih ls _ (suffix_of_after? hc hr)).bind fun more rest' hr' ↦ hr'

omit ht in
theorem keeps_fieldName : Keeps stop (fieldName stop) := by
  intro ls tokens hs
  unfold fieldName
  split
  · exact (List.suffix_cons _ _).trans hs
  · exact (List.suffix_cons _ _).trans hs
  · exact points_unexpected _ hs

theorem keeps_field : Keeps stop (field stop term) := by
  intro ls tokens hs
  have hcolon {tokens : List Lexeme} (name : String) (optional : Bool) (hs : tokens <:+ ls) :
      Within stop ls (expect stop .colon .colon tokens >>= fun rest ↦
        union term rest >>= fun r ↦ .ok ((⟨name, optional, r.1⟩ : Field Ty), r.2)) :=
    Within.expect hs fun rest hr ↦ (keeps_union ht ls rest hr).bind fun type rest hr ↦ hr
  refine (keeps_fieldName ls tokens hs).bind fun name rest hr ↦ ?_
  dsimp only
  cases hq : after? .question rest with
  | none => exact hcolon name false hr
  | some more => exact hcolon name true (suffix_of_after? hq hr)

theorem keeps_fields (fuel : Nat) (seen : List String) :
    Keeps stop (fields stop term fuel seen) := by
  induction fuel generalizing seen with
  | zero => exact fun ls tokens hs ↦ hs
  | succ fuel ih =>
    intro ls tokens hs
    unfold fields
    split
    · exact hs
    · refine (keeps_field ht ls tokens hs).bind fun f rest hr ↦ ?_
      dsimp only
      split
      · exact points_of_offset hs rfl (by simp)
      · split
        · exact hr
        · next hc => exact (ih _ ls _ (suffix_of_after? hc hr)).bind fun more rest' hr' ↦ hr'

theorem keeps_braced : Keeps stop (braced stop term) := by
  intro ls tokens hs
  unfold braced
  split
  · next hc => exact suffix_of_after? hc hs
  · split
    · next ho =>
      refine (keeps_union ht ls _ (suffix_of_after? ho hs)).bind fun key rest hr ↦ ?_
      refine Within.expect hr fun rest hr ↦ Within.expect hr fun rest hr ↦ ?_
      refine (keeps_union ht ls rest hr).bind fun value rest hr ↦ ?_
      exact Within.expect hr fun rest hr ↦ hr
    · refine (keeps_fields ht _ _ ls tokens hs).bind fun fs rest hr ↦ ?_
      exact Within.expect hr fun rest hr ↦ hr

theorem keeps_primary : Keeps stop (primary stop term) := by
  intro ls tokens hs
  unfold primary
  split
  · next word offset slice rest =>
    split
    · exact (List.suffix_cons _ _).trans hs
    · split
      · exact points_unexpected _ hs
      · exact within_afterWord ht word hs
  · exact (List.suffix_cons _ _).trans hs
  · exact (List.suffix_cons _ _).trans hs
  · refine (keeps_items ht _ ls _ ((List.suffix_cons _ _).trans hs)).bind fun ts rest hr ↦ ?_
    exact Within.expect hr fun rest hr ↦ hr
  · exact keeps_braced ht ls _ ((List.suffix_cons _ _).trans hs)
  · refine (keeps_union ht ls _ ((List.suffix_cons _ _).trans hs)).bind fun ty rest hr ↦ ?_
    exact Within.expect hr fun rest hr ↦ hr
  · exact points_unexpected _ hs

end

theorem keeps_term (depth : Nat) : Keeps stop (term stop depth) := by
  induction depth with
  | zero =>
    intro ls tokens hs
    exact points_of_offset hs rfl (by simp)
  | succ depth ih =>
    intro ls tokens hs
    unfold term
    split
    · next hq => exact (ih ls _ (suffix_of_after? hq hs)).bind fun inner rest hr ↦ hr
    · refine (keeps_primary ih ls tokens hs).bind fun base rest hr ↦ ?_
      dsimp only
      split
      · exact hr
      · exact keeps_brackets _ base ls rest hr

theorem points_of_parseTokens {e : Error} (h : parseTokens stop ls = .error e) :
    e = .empty ∨ e.Points stop ls := by
  unfold parseTokens at h
  split at h
  · cases h
    exact .inl rfl
  · right
    have hunion : Within stop ls (union (term stop maxDepth) ls) :=
      keeps_union (keeps_term maxDepth) ls ls List.suffix_rfl
    obtain h | ⟨⟨ty, rest⟩, hty, h⟩ := error_of_bind h
    · rw [h] at hunion
      exact hunion
    · rw [hty] at hunion
      dsimp only at h
      split at h
      · cases h
      · cases h
        exact points_unexpected _ hunion

end

theorem isValid_of_append {text : String} {passed rest : List Char}
    (h : text.toList = passed ++ rest) :
    String.Pos.Raw.IsValid text ⟨Text.Quoted.byteCount passed⟩ := by
  rw [String.Pos.Raw.isValid_iff_exists_take_toList]
  refine ⟨passed.length, ?_⟩
  rw [h, List.take_left, Text.utf8ByteSize_ofList]

theorem Error.Points.isValid {text : String} {ls : List Lexeme} {e : Error}
    (h : e.Points text.utf8ByteSize ls) (ht : Tiles [] text.toList ls) {o : Nat}
    (ho : e.offset? = some o) : String.Pos.Raw.IsValid text ⟨o⟩ := by
  obtain ⟨tokens, hs, hoffset, -⟩ := h
  obtain rfl : offsetOf text.utf8ByteSize tokens = o := Option.some.inj (hoffset.symm.trans ho)
  cases tokens with
  | nil => exact String.Pos.Raw.isValid_rawEndPos
  | cons l tokens =>
    obtain ⟨passed, rest, htext, hp⟩ := ht.passed_of_mem (hs.mem List.mem_cons_self)
    rw [List.nil_append] at hp
    rw [offsetOf, hp]
    exact isValid_of_append htext

theorem points_of_parse {text : String} {ls : List Lexeme} {e : Error} (hl : lex text = .ok ls)
    (h : parse text = .error e) : e = .empty ∨ e.Points text.utf8ByteSize ls := by
  rw [parse, hl, ok_bind] at h
  exact points_of_parseTokens h

theorem isValid_of_lex {text : String} {e : Error} (h : lex text = .error e) {o : Nat}
    (ho : e.offset? = some o) : String.Pos.Raw.IsValid text ⟨o⟩ := by
  obtain ⟨passed, rest, htext, he⟩ : ∃ passed rest, text.toList = passed ++ rest ∧
      e.offset? = some (Text.Quoted.byteCount ([] ++ passed)) := offset?_of_lexFrom h
  obtain rfl := Option.some.inj (he.symm.trans ho)
  exact isValid_of_append htext

/-- The lexer cuts a text into its tokens and the blanks between them, each token at its offset and
the end after all of them. Wherever the lexer or the parser finds an error, it points to a boundary
between characters. -/
theorem lex_tiles (text : String) :
    (∀ ls, lex text = .ok ls → Tiles [] text.toList ls ∧
      (ls.map (·.offset) ++ [text.utf8ByteSize]).Pairwise (· < ·) ∧
      ∀ expected o, parse text = .error (.unexpectedToken expected none o) →
        o = text.utf8ByteSize) ∧
    ∀ e o, lex text = .error e ∨ parse text = .error e → e.offset? = some o →
      String.Pos.Raw.IsValid text ⟨o⟩ := by
  refine ⟨fun ls hl ↦ ⟨lex_eq_ok_iff.1 hl, ?_, fun expected o h ↦ ?_⟩, fun e o h ho ↦ ?_⟩
  · have hpairs := (lex_eq_ok_iff.1 hl).pairwise_offset
    rwa [List.nil_append, ← Text.utf8ByteSize_ofList, String.ofList_toList] at hpairs
  · obtain he | ⟨tokens, -, hoffset, hfound⟩ := points_of_parse hl h
    · cases he
    · have hnone := hfound expected none o rfl
      obtain rfl : offsetOf text.utf8ByteSize tokens = o := Option.some.inj hoffset.symm
      cases tokens with
      | nil => rfl
      | cons l tokens => cases hnone
  · obtain h | h := h
    · exact isValid_of_lex h ho
    · obtain hl | ⟨ls, hl, -⟩ := error_of_bind h
      · exact isValid_of_lex hl ho
      · obtain rfl | hp := points_of_parse hl h
        · cases ho
        · exact hp.isValid (lex_eq_ok_iff.1 hl) ho

theorem lex_tiles_accents :
    let text := "é\x7b\"ü\\\"\" | -1.50e3\x7d"
    let wrong := "int | \"\\é\""
    ∃ ls, lex text = .ok ls ∧ ls.map (·.offset) = [0, 2, 3, 10, 12, 19] ∧
      Tiles [] text.toList ls ∧ lex wrong = .error (.invalidString 6) ∧
      String.Pos.Raw.IsValid wrong ⟨6⟩ := by
  intro text wrong
  have hoffsets : (lex text).toOption.map (fun ls ↦ ls.map (·.offset)) =
      some [0, 2, 3, 10, 12, 19] := by decide +kernel
  obtain ⟨ls, hl, ho⟩ := Option.map_eq_some_iff.1 hoffsets
  rw [toOption_eq_some_iff] at hl
  have hwrong : lex "int | \"\\é\"" = .error (.invalidString 6) := rfl
  exact ⟨ls, hl, ho, ((lex_tiles text).1 ls hl).1, hwrong,
    (lex_tiles wrong).2 _ 6 (.inl hwrong) rfl⟩

end FlowTypes.Notation
