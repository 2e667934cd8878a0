import FlowTypes.Proofs.Notation.Numerals
import FlowTypes.Proofs.Results
import FlowTypes.Proofs.Text.Bytes
import FlowTypes.Proofs.Text.CharClass

namespace FlowTypes.Notation

open Text (bytesOf bytesOf_cons byteCount_append byteCount_cons byteCount_le_append byteCount_pos
  utf8ByteSize_ofList)
open Text.Quoted (byteCount)

/-- The number of bytes up to the first quote, that one included. A backslash takes the byte after
it along, whether that is a character or only the first byte of one. -/
def closingQuote? : Bool → List UInt8 → Option Nat
  | _, [] => none
  | true, _ :: bytes => (closingQuote? false bytes).map (· + 1)
  | false, b :: bytes =>
    if b = 0x22 then some 1 else (closingQuote? (b = 0x5c) bytes).map (· + 1)

theorem closingQuote?_slash (b : UInt8) (bytes : List UInt8) :
    closingQuote? false (0x5c :: b :: bytes) = (closingQuote? false bytes).map (· + 2) := by
  rw [closingQuote?, if_neg (by decide), decide_eq_true (rfl : (0x5c : UInt8) = 0x5c),
    closingQuote?, Option.map_map]
  rfl

def isOrdinary (b : UInt8) : Prop := b ≠ 0x22 ∧ b ≠ 0x5c

theorem isOrdinary_of_le {b : UInt8} (h : 128 ≤ b.toNat) : isOrdinary b := by
  constructor <;> rintro rfl <;> exact absurd h (by decide)

theorem isOrdinary_of_mem {c : Char} (hquote : c ≠ '"') (hslash : c ≠ '\\') {b : UInt8}
    (hb : b ∈ String.utf8EncodeChar c) : isOrdinary b := by
  by_cases h : c.toNat < 128
  · rw [Text.utf8EncodeChar_of_lt h, List.mem_singleton] at hb
    have hne {d : Char} (hd : c ≠ d) (hlt : d.toNat < 128) : b ≠ UInt8.ofNat d.toNat := by
      intro heq
      have hn := congrArg UInt8.toNat (hb.symm.trans heq)
      rw [UInt8.toNat_ofNat', UInt8.toNat_ofNat', Nat.mod_eq_of_lt (by omega),
        Nat.mod_eq_of_lt (by omega)] at hn
      exact hd (Char.toNat_inj.1 hn)
    exact ⟨hne hquote (by decide), hne hslash (by decide)⟩
  · exact isOrdinary_of_le (Text.le_of_mem_utf8EncodeChar (Nat.le_of_not_lt h) hb)

theorem closingQuote?_append {bs : List UInt8} (h : ∀ b ∈ bs, isOrdinary b) (rest : List UInt8) :
    closingQuote? false (bs ++ rest) = (closingQuote? false rest).map (· + bs.length) := by
  induction bs with
  | nil => simp
  | cons b bs ih =>
    obtain ⟨⟨hquote, hslash⟩, hbs⟩ := List.forall_mem_cons.1 h
    rw [List.cons_append, closingQuote?, if_neg hquote, decide_eq_false hslash, ih hbs,
      Option.map_map]
    rfl

theorem closingQuote?_bytesOf (text : List Char) :
    closingQuote? false (bytesOf text) = (scanString text).map fun s ↦ byteCount s.1 + 1 := by
  have hslash : String.utf8EncodeChar '\\' = [0x5c] := rfl
  have hquote : String.utf8EncodeChar '"' = [0x22] := rfl
  fun_induction scanString text with
  | case1 => rfl
  | case2 rest =>
    rw [bytesOf_cons, hquote]
    rfl
  | case3 =>
    rw [bytesOf_cons, hslash]
    rfl
  | case4 c rest ih =>
    obtain ⟨b, bs, he, hbs⟩ := Text.exists_utf8EncodeChar c
    have hlength : bs.length + 1 = c.utf8Size := by
      rw [← String.length_utf8EncodeChar, he]
      rfl
    have hone : '\\'.utf8Size = 1 := rfl
    rw [bytesOf_cons, bytesOf_cons, hslash, he, List.singleton_append, List.cons_append,
      closingQuote?_slash, closingQuote?_append fun x hx ↦ isOrdinary_of_le (hbs x hx), ih]
    simp only [Option.map_map]
    congr 1
    funext s
    simp only [Function.comp_apply, byteCount_cons]
    omega
  | case5 c rest hq h₂ h₃ ih =>
    have hs : c ≠ '\\' := by
      rintro rfl
      cases rest with
      | nil => exact h₂ rfl rfl
      | cons d rest => exact h₃ d rest rfl rfl
    rw [bytesOf_cons, closingQuote?_append fun b hb ↦ isOrdinary_of_mem hq hs hb, ih]
    simp only [Option.map_map]
    congr 1
    funext s
    simp only [Function.comp_apply, byteCount_cons, String.length_utf8EncodeChar]
    omega

inductive Unquoted : List Char → Prop
  | nil : Unquoted []
  | plain {c : Char} {cs : List Char} (hquote : c ≠ '"') (hslash : c ≠ '\\') (h : Unquoted cs) :
      Unquoted (c :: cs)
  | escaped (c : Char) {cs : List Char} (h : Unquoted cs) : Unquoted ('\\' :: c :: cs)

theorem scanString_spec {text raw rest : List Char} (h : scanString text = some (raw, rest)) :
    text = raw ++ '"' :: rest ∧ Unquoted raw := by
  fun_induction scanString text generalizing raw rest with
  | case1 => cases h
  | case2 rest =>
    cases h
    exact ⟨rfl, .nil⟩
  | case3 => cases h
  | case4 c text ih =>
    obtain ⟨⟨raw', rest'⟩, hs, he⟩ := Option.map_eq_some_iff.1 h
    cases he
    obtain ⟨rfl, hraw⟩ := ih hs
    exact ⟨rfl, .escaped c hraw⟩
  | case5 c text hq h₂ h₃ ih =>
    obtain ⟨⟨raw', rest'⟩, hs, he⟩ := Option.map_eq_some_iff.1 h
    cases he
    obtain ⟨rfl, hraw⟩ := ih hs
    refine ⟨rfl, .plain hq (fun hc ↦ ?_) hraw⟩
    cases raw' with
    | nil => exact h₃ _ _ hc rfl
    | cons d raw' => exact h₃ _ _ hc rfl

namespace Unquoted

variable {raw : List Char}

theorem scanString (h : Unquoted raw) (rest : List Char) :
    scanString (raw ++ '"' :: rest) = some (raw, rest) := by
  induction h with
  | nil => rfl
  | @plain c cs hquote hslash h ih =>
    rw [List.cons_append]
    unfold Notation.scanString
    split
    · next he => cases he
    · next he => exact absurd (List.cons.inj he).1 hquote
    · next he => exact absurd (List.cons.inj he).1 hslash
    · next he => exact absurd (List.cons.inj he).1 hslash
    · next he =>
      obtain ⟨rfl, rfl⟩ := List.cons.inj he
      rw [ih]
      rfl
  | escaped c h ih =>
    rw [List.cons_append, List.cons_append, Notation.scanString, ih]
    rfl

theorem append {more : List Char} (h : Unquoted raw) (hmore : Unquoted more) :
    Unquoted (raw ++ more) := by
  induction h with
  | nil => exact hmore
  | plain hquote hslash h ih => exact .plain hquote hslash ih
  | escaped c h ih => exact .escaped c ih

end Unquoted

/-- The slice of a token, before what comes after it. -/
inductive Cut : Token → List Char → List Char → Prop
  | mark (m : Mark) (rest : List Char) : Cut (.mark m) [m.char] rest
  | word {slice rest : List Char} (h : Text.isWord slice)
      (hend : rest.head?.all (!Text.continuesWord ·)) : Cut (.word (String.ofList slice)) slice rest
  | number {n : Numeral} {rest : List Char} (h : n.Matches) (hfinite : n.value.isFinite)
      (hend : ∀ m : Numeral, m.Matches → m.text <+: n.text ++ rest →
        m.text.length ≤ n.text.length) : Cut (.number n.value (String.ofList n.text)) n.text rest
  | string {s : String} {raw rest : List Char} (h : Unquoted raw)
      (hread : Text.Quoted.read (raw ++ ['"']) = .ok (s, []))
      (hend : closingQuote? false (bytesOf (raw ++ '"' :: rest)) =
        some (String.ofList (raw ++ ['"'])).utf8ByteSize) :
      Cut (.string s) ('"' :: raw ++ ['"']) rest

theorem cut_string {s : String} {raw : List Char} (h : Unquoted raw)
    (hread : Text.Quoted.read (raw ++ ['"']) = .ok (s, [])) (rest : List Char) :
    Cut (.string s) ('"' :: raw ++ ['"']) rest := by
  refine .string h hread ?_
  rw [closingQuote?_bytesOf, h.scanString, utf8ByteSize_ofList, byteCount_append]
  rfl

theorem cut_number {n : Numeral} {text rest : List Char} (h : Numeral.scan? text = some (n, rest))
    (hfinite : n.value.isFinite) :
    text = n.text ++ rest ∧ Cut (.number n.value (String.ofList n.text)) n.text rest := by
  obtain ⟨hn, htext⟩ := Numeral.matches_of_scan? h
  refine ⟨htext, .number hn hfinite fun m hm hprefix ↦ ?_⟩
  obtain ⟨more, hmore⟩ := hprefix
  exact Numeral.length_le_of_scan? h hm (htext.trans hmore.symm)

theorem Cut.ne_nil {t : Token} {slice rest : List Char} (h : Cut t slice rest) : slice ≠ [] := by
  cases h with
  | mark => simp
  | word h =>
    rintro rfl
    cases h
  | number h =>
    obtain ⟨-, hw | ⟨c, cs, hw, -⟩⟩ := h.whole <;> simp [Numeral.text, hw]
  | string => simp

def Token.isGenuine : Token → Bool
  | .word w => Text.isWord w.toList
  | .number x _ => x.isFinite
  | .string _ | .mark _ => true

theorem Cut.isGenuine {t : Token} {slice rest : List Char} (h : Cut t slice rest) :
    t.isGenuine := by
  cases h with
  | mark => rfl
  | word h => rwa [Token.isGenuine, String.toList_ofList]
  | number h hfinite => exact hfinite
  | string => rfl

/-- After what comes before it, the text consists of the slices of the lexemes, each at its offset,
and of blanks. -/
def Tiles (before text : List Char) : List Lexeme → Prop
  | [] => text.all Text.isBlank
  | l :: ls => ∃ gap rest, text = gap ++ l.slice ++ rest ∧ gap.all Text.isBlank ∧
      l.offset = (String.ofList (before ++ gap)).utf8ByteSize ∧ Cut l.token l.slice rest ∧
      Tiles (before ++ gap ++ l.slice) rest ls

section

variable {fuel offset : Nat} {c : Char} {before text rest slice more : List Char} {t : Token}
  {e : Error} {ls : List Lexeme}

/-- What is at the front of a text: a blank, a token, or neither. -/
inductive Next (offset : Nat) (c : Char) (rest : List Char) :
    Except Error (Option Token × List Char × List Char) → Prop
  | blank (h : Text.isBlank c) : Next offset c rest (.ok (none, [c], rest))
  | token {t : Token} {slice more : List Char} (htext : c :: rest = slice ++ more)
      (hcut : Cut t slice more) : Next offset c rest (.ok (some t, slice, more))
  | error {e : Error} (h : e.offset? = some offset) : Next offset c rest (.error e)

theorem next_string (offset : Nat) (rest : List Char) :
    Next offset '"' rest (match scanString rest with
      | none => .error (.unterminatedString offset)
      | some (raw, rest) =>
        match Text.Quoted.read (raw ++ ['"']) with
        | .ok (s, []) => .ok (some (.string s), '"' :: raw ++ ['"'], rest)
        | _ => .error (.invalidString offset)) := by
  split
  · exact .error rfl
  · next raw more hscan =>
    split
    · next s hread =>
      obtain ⟨htext, hraw⟩ := scanString_spec hscan
      exact .token (by simp [htext]) (cut_string hraw hread more)
    · exact .error rfl

theorem next_number (offset : Nat) (c : Char) (rest : List Char) :
    Next offset c rest (match Numeral.scan? (c :: rest) with
      | none => .error (.unexpectedChar c offset)
      | some (n, rest) =>
        let text := String.ofList n.text
        if n.value.isFinite then .ok (some (.number n.value text), n.text, rest)
        else .error (.invalidNumber text offset)) := by
  split
  · exact .error rfl
  · next n more hscan =>
    dsimp only
    split
    · next hfinite =>
      obtain ⟨htext, hcut⟩ := cut_number hscan hfinite
      exact .token htext hcut
    · exact .error rfl

theorem cut_word {c : Char} (hc : Text.startsWord c) (rest : List Char) :
    Cut (.word (String.ofList (c :: rest.takeWhile Text.continuesWord)))
      (c :: rest.takeWhile Text.continuesWord) (rest.dropWhile Text.continuesWord) := by
  refine .word ?_ ?_
  · rw [Text.isWord, hc, Bool.true_and]
    exact List.all_takeWhile
  · have hend := List.head?_dropWhile_not Text.continuesWord rest
    cases hhead : (rest.dropWhile Text.continuesWord).head? with
    | none => rfl
    | some d =>
      rw [hhead] at hend
      simpa using hend

theorem next_nextToken (offset : Nat) (c : Char) (rest : List Char) :
    Next offset c rest (nextToken offset c rest) := by
  unfold nextToken
  split
  · next m hm =>
    obtain rfl : m.char = c := by simpa using List.find?_some hm
    exact .token rfl (.mark m rest)
  · split
    · next hblank => exact .blank hblank
    split
    · next hquote =>
      rw [hquote]
      exact next_string offset rest
    split
    · exact next_number offset c rest
    split
    · next hc =>
      rw [List.span_eq_takeWhile_dropWhile]
      exact .token (by simp) (cut_word hc rest)
    · exact .error rfl

theorem ofChar?_char (m : Mark) : Mark.ofChar? m.char = some m := by cases m <;> rfl

theorem ofChar?_eq_none {c : Char} (h : ∀ m : Mark, m.char ≠ c) : Mark.ofChar? c = none := by
  simp [Mark.ofChar?, h]

theorem nextToken_of_blank {c : Char} (hc : Text.isBlank c) (offset : Nat) (rest : List Char) :
    nextToken offset c rest = .ok (none, [c], rest) := by
  have hmark : Mark.ofChar? c = none := by
    apply ofChar?_eq_none
    rintro m rfl
    cases m <;> cases hc
  unfold nextToken
  simp only [hmark, hc, if_true]

theorem nextToken_of_startsWord {c : Char} (hc : Text.startsWord c) (offset : Nat)
    (rest : List Char) : nextToken offset c rest =
      .ok (some (.word (String.ofList (c :: rest.takeWhile Text.continuesWord))),
        c :: rest.takeWhile Text.continuesWord, rest.dropWhile Text.continuesWord) := by
  have hmark : Mark.ofChar? c = none := by
    apply ofChar?_eq_none
    rintro m rfl
    cases m <;> cases hc
  have hquote : c ≠ '"' := by
    rintro rfl
    exact absurd hc (by decide)
  have hminus : ¬(c = '-' ∨ c.isDigit) := by
    rintro (rfl | hd)
    · exact absurd hc (by decide)
    · rw [Text.isDigit_of_startsWord hc] at hd
      cases hd
  unfold nextToken
  simp only [hmark, Text.isBlank_of_startsWord hc, Bool.false_eq_true, if_false, if_neg hquote,
    if_neg hminus, hc, if_true, List.span_eq_takeWhile_dropWhile]

theorem nextToken_of_scan? {c : Char} {rest more : List Char} {n : Numeral}
    (hc : c = '-' ∨ c.isDigit) (hscan : Numeral.scan? (c :: rest) = some (n, more))
    (hfinite : n.value.isFinite) (offset : Nat) : nextToken offset c rest =
      .ok (some (.number n.value (String.ofList n.text)), n.text, more) := by
  have hrange : c.toNat = 45 ∨ 48 ≤ c.toNat ∧ c.toNat ≤ 57 := by
    obtain rfl | hd := hc
    · exact .inl rfl
    · simp only [Char.isDigit, Bool.and_eq_true, decide_eq_true_eq, ge_iff_le,
        UInt32.le_iff_toNat_le] at hd
      exact .inr hd
  have hmark : Mark.ofChar? c = none := by
    apply ofChar?_eq_none
    rintro m rfl
    revert hrange
    cases m <;> decide
  have hblank : Text.isBlank c = false := by
    rw [← Bool.not_eq_true]
    intro hblank
    obtain ⟨r, hr, h₁, h₂⟩ := Text.inRanges_iff.1 hblank
    have hout : ∀ r ∈ Text.blankRanges, r.2 < 45 ∨ 57 < r.1 := by decide
    have := hout r hr
    omega
  have hquote : c ≠ '"' := by
    rintro rfl
    exact absurd hrange (by decide)
  unfold nextToken
  simp only [hmark, hblank, Bool.false_eq_true, if_false, if_neg hquote, if_pos hc, hscan,
    hfinite, if_true]

theorem nextToken_of_cut {t : Token} {c : Char} {cs rest : List Char} (h : Cut t (c :: cs) rest)
    (offset : Nat) : nextToken offset c (cs ++ rest) = .ok (some t, c :: cs, rest) := by
  generalize hslice : c :: cs = slice at h
  cases h with
  | mark m =>
    obtain ⟨rfl, rfl⟩ := List.cons.inj hslice
    unfold nextToken
    rw [ofChar?_char]
    rfl
  | word h hend =>
    obtain rfl := hslice
    obtain ⟨hc, hcs⟩ : Text.startsWord c ∧ ∀ d ∈ cs, Text.continuesWord d := by
      simpa [Text.isWord] using h
    have hstop : rest.takeWhile Text.continuesWord = [] ∧
        rest.dropWhile Text.continuesWord = rest := by
      cases rest with
      | nil => exact ⟨rfl, rfl⟩
      | cons d rest =>
        have hd : Text.continuesWord d = false := by simpa using hend
        simp [hd]
    rw [nextToken_of_startsWord hc, List.takeWhile_append_of_pos hcs,
      List.dropWhile_append_of_pos hcs, hstop.1, hstop.2, List.append_nil]
  | @number n _ h hfinite hend =>
    obtain ⟨d, ds, htext, hd⟩ := h.head
    have hscan := Numeral.scan?_of_longest h hend
    obtain ⟨rfl, rfl⟩ := List.cons.inj (hslice.trans htext)
    rw [htext, List.cons_append] at hscan
    rw [nextToken_of_scan? hd hscan hfinite, htext]
  | @string _ raw _ h hread hend =>
    obtain rfl : c = '"' := (List.cons.inj hslice).1
    have htail : cs ++ rest = raw ++ '"' :: rest := by
      rw [show cs = raw ++ ['"'] from (List.cons.inj hslice).2, List.append_assoc]
      rfl
    have hmark : Mark.ofChar? '"' = none := rfl
    have hblank : Text.isBlank '"' = false := rfl
    rw [htail]
    unfold nextToken
    simp only [hmark, hblank, Bool.false_eq_true, if_false, if_true, h.scanString, hread]

theorem tiles_of_blank (hc : Text.isBlank c) (h : Tiles (before ++ [c]) rest ls) :
    Tiles before (c :: rest) ls := by
  cases ls with
  | nil => simpa [Tiles, hc] using h
  | cons l ls =>
    obtain ⟨gap, rest', rfl, hgap, hoffset, hcut, hrest⟩ := h
    refine ⟨c :: gap, rest', rfl, by simp [hc, hgap], ?_, hcut, ?_⟩
    · simpa using hoffset
    · simpa using hrest

theorem Tiles.eq_nil (h : Tiles before [] ls) : ls = [] := by
  cases ls with
  | nil => rfl
  | cons l ls =>
    obtain ⟨gap, rest, htext, -, -, hcut, -⟩ := h
    have hslice : l.slice = [] := by simp_all
    exact absurd hslice hcut.ne_nil

/-- A text that is tiled begins with a blank or with a slice. -/
theorem Tiles.cases_cons (h : Tiles before (c :: rest) ls) :
    Text.isBlank c ∧ Tiles (before ++ [c]) rest ls ∨
      ∃ l more cs after, ls = l :: more ∧ l.slice = c :: cs ∧ rest = cs ++ after ∧
        l.offset = byteCount before ∧ Cut l.token l.slice after ∧
        Tiles (before ++ l.slice) after more := by
  cases ls with
  | nil =>
    obtain ⟨hc, hrest⟩ : Text.isBlank c ∧ rest.all Text.isBlank := by simpa [Tiles] using h
    exact .inl ⟨hc, hrest⟩
  | cons l more =>
    obtain ⟨gap, after, htext, hgap, hoffset, hcut, hmore⟩ := h
    cases gap with
    | nil =>
      obtain ⟨d, cs, hslice⟩ := List.exists_cons_of_ne_nil hcut.ne_nil
      rw [hslice] at htext
      obtain ⟨rfl, rfl⟩ := List.cons.inj htext
      rw [List.append_nil] at hoffset hmore
      rw [utf8ByteSize_ofList] at hoffset
      exact .inr ⟨l, more, cs, after, rfl, hslice, rfl, hoffset, hcut, hmore⟩
    | cons d gap =>
      obtain ⟨rfl, rfl⟩ := List.cons.inj htext
      obtain ⟨hc, hgap⟩ : Text.isBlank c ∧ gap.all Text.isBlank := by simpa using hgap
      refine .inl ⟨hc, gap, after, rfl, hgap, ?_, hcut, ?_⟩
      · simpa using hoffset
      · simpa using hmore

theorem tiles_of_lexFrom (hf : text.length ≤ fuel)
    (h : lexFrom fuel (byteCount before) text = .ok ls) : Tiles before text ls := by
  induction fuel generalizing before text ls with
  | zero =>
    obtain rfl := List.length_eq_zero_iff.1 (Nat.le_zero.1 hf)
    cases h
    rfl
  | succ fuel ih =>
    cases text with
    | nil =>
      cases h
      rfl
    | cons c rest =>
      obtain ⟨⟨token, slice, more⟩, hnext, hstep⟩ := ok_of_bind h
      obtain ⟨lexemes, hmore, hls⟩ := ok_of_bind hstep
      rw [← byteCount_append] at hmore
      rw [List.length_cons] at hf
      have hn := next_nextToken (byteCount before) c rest
      rw [hnext] at hn
      cases hn with
      | blank hblank =>
        cases hls
        exact tiles_of_blank hblank (ih (Nat.le_of_succ_le_succ hf) hmore)
      | token htext hcut =>
        cases hls
        have hpos := List.length_pos_of_ne_nil hcut.ne_nil
        have hlength := congrArg List.length htext
        rw [List.length_cons, List.length_append] at hlength
        refine ⟨[], more, htext, rfl, ?_, hcut, ?_⟩
        · rw [List.append_nil, utf8ByteSize_ofList]
        · rw [List.append_nil]
          exact ih (by omega) hmore

theorem lexFrom_of_tiles (h : Tiles before text ls) (hf : text.length ≤ fuel) :
    lexFrom fuel (byteCount before) text = .ok ls := by
  induction fuel generalizing before text ls with
  | zero =>
    obtain rfl := List.length_eq_zero_iff.1 (Nat.le_zero.1 hf)
    rw [h.eq_nil]
    rfl
  | succ fuel ih =>
    cases text with
    | nil =>
      rw [h.eq_nil]
      rfl
    | cons c rest =>
      rw [List.length_cons] at hf
      obtain ⟨hc, h⟩ | ⟨l, ls, cs, more, rfl, hslice, rfl, hoffset, hcut, h⟩ := h.cases_cons
      · rw [lexFrom, nextToken_of_blank hc, ok_bind]
        dsimp only
        rw [← byteCount_append, ih h (Nat.le_of_succ_le_succ hf)]
        rfl
      · rw [hslice] at hcut h
        have hlength : more.length ≤ fuel := by
          rw [List.length_append] at hf
          omega
        rw [lexFrom, nextToken_of_cut hcut, ok_bind]
        dsimp only
        rw [← byteCount_append, ih h hlength, ← hoffset, ← hslice]
        rfl

theorem offset?_of_lexFrom (h : lexFrom fuel (byteCount before) text = .error e) :
    ∃ passed rest, text = passed ++ rest ∧ e.offset? = some (byteCount (before ++ passed)) := by
  induction fuel generalizing before text with
  | zero => cases h
  | succ fuel ih =>
    cases text with
    | nil => cases h
    | cons c rest =>
      have hn := next_nextToken (byteCount before) c rest
      obtain h | ⟨⟨token, slice, more⟩, hnext, h⟩ := error_of_bind h
      · rw [h] at hn
        obtain ⟨he⟩ := hn
        exact ⟨[], c :: rest, rfl, by rwa [List.append_nil]⟩
      · rw [hnext] at hn
        have htext : c :: rest = slice ++ more := by
          cases hn with
          | blank => rfl
          | token htext => exact htext
        obtain h | ⟨lexemes, -, h⟩ := error_of_bind h
        · rw [← byteCount_append] at h
          obtain ⟨passed, rest', rfl, he⟩ := ih h
          refine ⟨slice ++ passed, rest', ?_, ?_⟩
          · rw [htext, List.append_assoc]
          · rw [he, List.append_assoc]
        · cases h

theorem Tiles.isGenuine (h : Tiles before text ls) : ∀ l ∈ ls, l.token.isGenuine := by
  induction ls generalizing before text with
  | nil => simp
  | cons l ls ih =>
    obtain ⟨gap, rest, -, -, -, hcut, hrest⟩ := h
    exact List.forall_mem_cons.2 ⟨hcut.isGenuine, ih hrest⟩

theorem Tiles.passed_of_mem (h : Tiles before text ls) {l : Lexeme} (hl : l ∈ ls) :
    ∃ passed rest, text = passed ++ rest ∧ l.offset = byteCount (before ++ passed) := by
  induction ls generalizing before text with
  | nil => cases hl
  | cons l' ls ih =>
    obtain ⟨gap, rest, rfl, -, hoffset, -, hrest⟩ := h
    cases hl with
    | head =>
      refine ⟨gap, l.slice ++ rest, List.append_assoc .., ?_⟩
      rw [hoffset, utf8ByteSize_ofList]
    | tail _ hl =>
      obtain ⟨passed, rest', rfl, hp⟩ := ih hrest hl
      refine ⟨gap ++ l'.slice ++ passed, rest', by simp, ?_⟩
      rw [hp]
      simp only [List.append_assoc]

theorem Tiles.pairwise_offset (h : Tiles before text ls) :
    (ls.map (·.offset) ++ [byteCount (before ++ text)]).Pairwise (· < ·) := by
  induction ls generalizing before text with
  | nil => exact List.pairwise_singleton _ _
  | cons l ls ih =>
    obtain ⟨gap, rest, rfl, -, hoffset, hcut, hrest⟩ := h
    have hpos := byteCount_pos hcut.ne_nil
    rw [utf8ByteSize_ofList] at hoffset
    have hlater := ih hrest
    have hend : before ++ (gap ++ l.slice ++ rest) = before ++ gap ++ l.slice ++ rest := by simp
    rw [hend, List.map_cons, List.cons_append, List.pairwise_cons]
    refine ⟨fun o ho ↦ ?_, hlater⟩
    suffices hle : byteCount (before ++ gap ++ l.slice) ≤ o by
      rw [byteCount_append] at hle
      omega
    obtain ho | ho := List.mem_append.1 ho
    · obtain ⟨l', hl', rfl⟩ := List.mem_map.1 ho
      obtain ⟨passed, rest', -, hp⟩ := hrest.passed_of_mem hl'
      rw [hp]
      exact byteCount_le_append _ _
    · rw [List.mem_singleton.1 ho]
      exact byteCount_le_append _ _

end

theorem lex_eq_ok_iff {text : String} {ls : List Lexeme} :
    lex text = .ok ls ↔ Tiles [] text.toList ls :=
  ⟨fun h ↦ tiles_of_lexFrom (Nat.le_refl _) h, fun h ↦ lexFrom_of_tiles h (Nat.le_refl _)⟩

end FlowTypes.Notation
