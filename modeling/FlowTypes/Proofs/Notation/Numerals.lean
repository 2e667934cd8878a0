import FlowTypes.Notation.Lexer
import FlowTypes.Proofs.Number.ReadBack
import Mathlib.Data.List.TakeDrop

namespace FlowTypes.Notation

namespace Numeral

/-- The text cannot go on with a number that ends before it. -/
def ends (rest : List Char) : Bool :=
  rest.head?.all fun c ↦ !c.isDigit && c != '.' && c != 'e' && c != 'E'

def isWhole (digits : List Char) : Prop :=
  digits.all Char.isDigit ∧ (digits = ['0'] ∨ ∃ c cs, digits = c :: cs ∧ c ≠ '0')

def isFraction (text : List Char) : Prop :=
  text = [] ∨ ∃ digits, text = '.' :: digits ∧ digits ≠ [] ∧ digits.all Char.isDigit

def isExponent (text : List Char) : Prop :=
  text = [] ∨ ∃ mark sign digits, text = mark :: sign ++ digits ∧ (mark = 'e' ∨ mark = 'E') ∧
    (sign = [] ∨ sign = ['+'] ∨ sign = ['-']) ∧ digits ≠ [] ∧ digits.all Char.isDigit

/-- The pattern of a number. -/
structure Matches (n : Numeral) : Prop where
  sign : n.sign = [] ∨ n.sign = ['-']
  whole : isWhole n.whole
  fraction : isFraction n.fraction
  exponent : isExponent n.exponent

theorem isWhole.ne_nil {digits : List Char} (h : isWhole digits) : digits ≠ [] := by
  obtain ⟨-, rfl | ⟨c, cs, rfl, -⟩⟩ := h <;> simp

theorem span_append {digits : List Char} (hd : digits.all Char.isDigit) (rest : List Char) :
    (digits ++ rest).span Char.isDigit =
      (digits ++ rest.takeWhile Char.isDigit, rest.dropWhile Char.isDigit) := by
  rw [List.all_eq_true] at hd
  rw [List.span_eq_takeWhile_dropWhile, List.takeWhile_append_of_pos hd,
    List.dropWhile_append_of_pos hd]

section

variable {text taken rest digits more : List Char}

theorem scanSign_spec (h : scanSign text = (taken, rest)) :
    text = taken ++ rest ∧ (taken = [] ∨ taken = ['-']) := by
  unfold scanSign at h
  split at h <;> obtain ⟨rfl, rfl⟩ := Prod.mk.inj h
  · exact ⟨rfl, .inr rfl⟩
  · exact ⟨rfl, .inl rfl⟩

theorem scanPowerSign_spec (h : scanPowerSign text = (taken, rest)) :
    text = taken ++ rest ∧ (taken = [] ∨ taken = ['+'] ∨ taken = ['-']) := by
  unfold scanPowerSign at h
  split at h <;> obtain ⟨rfl, rfl⟩ := Prod.mk.inj h
  · exact ⟨rfl, .inr (.inl rfl)⟩
  · exact ⟨rfl, .inr (.inr rfl)⟩
  · exact ⟨rfl, .inl rfl⟩

theorem span_spec (h : text.span Char.isDigit = (taken, rest)) :
    text = taken ++ rest ∧ taken.all Char.isDigit := by
  rw [List.span_eq_takeWhile_dropWhile] at h
  obtain ⟨rfl, rfl⟩ := Prod.mk.inj h
  exact ⟨List.takeWhile_append_dropWhile.symm, List.all_takeWhile⟩

theorem scanWhole_spec (h : scanWhole text = (taken, rest)) :
    text = taken ++ rest ∧ (taken = [] ∨ isWhole taken) := by
  unfold scanWhole at h
  split at h
  · obtain ⟨rfl, rfl⟩ := Prod.mk.inj h
    exact ⟨rfl, .inr ⟨rfl, .inl rfl⟩⟩
  · next hzero =>
    obtain ⟨rfl, hdigits⟩ := span_spec h
    refine ⟨rfl, ?_⟩
    cases taken with
    | nil => exact .inl rfl
    | cons c cs => exact .inr ⟨hdigits, .inr ⟨c, cs, rfl, fun hc ↦ hzero _ (by rw [hc]; rfl)⟩⟩

theorem scanFraction_spec (h : scanFraction text = (taken, rest)) :
    text = taken ++ rest ∧ isFraction taken := by
  unfold scanFraction at h
  split at h
  · split at h
    · obtain ⟨rfl, rfl⟩ := Prod.mk.inj h
      exact ⟨rfl, .inl rfl⟩
    · next digits rest' hne hspan =>
      obtain ⟨rfl, rfl⟩ := Prod.mk.inj h
      obtain ⟨rfl, hdigits⟩ := span_spec hspan
      exact ⟨rfl, .inr ⟨digits, rfl, hne, hdigits⟩⟩
  · obtain ⟨rfl, rfl⟩ := Prod.mk.inj h
    exact ⟨rfl, .inl rfl⟩

theorem scanExponent_spec (h : scanExponent text = (taken, rest)) :
    text = taken ++ rest ∧ isExponent taken := by
  unfold scanExponent at h
  split at h
  · obtain ⟨rfl, rfl⟩ := Prod.mk.inj h
    exact ⟨rfl, .inl rfl⟩
  · next c rest' =>
    split at h
    · next hmark =>
      cases hsign : scanPowerSign rest' with
      | mk sign after =>
        simp only [hsign] at h
        obtain ⟨rfl, hs⟩ := scanPowerSign_spec hsign
        split at h
        · obtain ⟨rfl, rfl⟩ := Prod.mk.inj h
          exact ⟨rfl, .inl rfl⟩
        · next digits after' hne hspan =>
          obtain ⟨rfl, rfl⟩ := Prod.mk.inj h
          obtain ⟨rfl, hdigits⟩ := span_spec hspan
          exact ⟨by simp, .inr ⟨c, sign, digits, rfl, hmark, hs, hne, hdigits⟩⟩
    · obtain ⟨rfl, rfl⟩ := Prod.mk.inj h
      exact ⟨rfl, .inl rfl⟩

end

theorem matches_of_scan? {text rest : List Char} {n : Numeral} (h : scan? text = some (n, rest)) :
    n.Matches ∧ text = n.text ++ rest := by
  unfold scan? at h
  cases hsign : scanSign text with
  | mk sign rest₁ =>
  cases hwhole : scanWhole rest₁ with
  | mk whole rest₂ =>
  cases hfraction : scanFraction rest₂ with
  | mk fraction rest₃ =>
  cases hexponent : scanExponent rest₃ with
  | mk exponent rest₄ =>
  simp only [hsign, hwhole, hfraction, hexponent] at h
  split at h
  · cases h
  · next hne =>
    obtain ⟨rfl, rfl⟩ := Prod.mk.inj (Option.some.inj h)
    obtain ⟨rfl, hs⟩ := scanSign_spec hsign
    obtain ⟨rfl, hw⟩ := scanWhole_spec hwhole
    obtain ⟨rfl, hf⟩ := scanFraction_spec hfraction
    obtain ⟨rfl, he⟩ := scanExponent_spec hexponent
    refine ⟨⟨hs, ?_, hf, he⟩, by simp [Numeral.text]⟩
    exact hw.resolve_left (by simpa using hne)

/-- A part of a number is taken as it is, or more is taken, which goes on with one of these
characters. -/
def Covers (scan : List Char → List Char × List Char) (goesOn : Char → Prop)
    (part more : List Char) : Prop :=
  scan (part ++ more) = (part, more) ∨
    part.length < (scan (part ++ more)).1.length ∧ ∃ c cs, more = c :: cs ∧ goesOn c

theorem covers_span {digits : List Char} (hd : digits.all Char.isDigit) (more : List Char) :
    Covers (List.span Char.isDigit) (Char.isDigit · = true) digits more := by
  unfold Covers
  rw [span_append hd]
  cases more with
  | nil => exact .inl (by simp)
  | cons c cs =>
    by_cases hc : c.isDigit
    · exact .inr ⟨by simp [hc], c, cs, rfl, hc⟩
    · exact .inl (by simp [hc])

theorem covers_scanWhole {whole : List Char} (hw : isWhole whole) (more : List Char) :
    Covers scanWhole (Char.isDigit · = true) whole more := by
  obtain ⟨hd, rfl | ⟨c, cs, rfl, hc⟩⟩ := hw
  · exact .inl rfl
  · have hscan : scanWhole (c :: cs ++ more) = (c :: cs ++ more).span Char.isDigit := by
      rw [List.cons_append]
      unfold scanWhole
      split
      · next h => exact absurd (List.cons.inj h).1 hc
      · rfl
    unfold Covers
    rw [hscan]
    exact covers_span hd more

theorem covers_scanFraction {fraction : List Char} (hf : isFraction fraction) (more : List Char) :
    Covers scanFraction (fun c ↦ c = '.' ∨ c.isDigit) fraction more := by
  unfold Covers
  obtain rfl | ⟨digits, rfl, hne, hd⟩ := hf
  · rw [List.nil_append]
    unfold scanFraction
    split
    · split
      · exact .inl rfl
      · exact .inr ⟨Nat.succ_pos _, '.', _, rfl, .inl rfl⟩
    · exact .inl rfl
  · have hscan : scanFraction ('.' :: digits ++ more) =
        ((digits ++ more).span Char.isDigit).map ('.' :: ·) id := by
      obtain ⟨c, cs, rfl⟩ := List.exists_cons_of_ne_nil hne
      simp only [List.cons_append, scanFraction]
      rw [← List.cons_append, span_append hd]
      rfl
    rw [hscan]
    obtain h | ⟨hlt, c, cs, rfl, hc⟩ := covers_span hd more
    · exact .inl (by rw [h, Prod.map_apply, id])
    · exact .inr ⟨Nat.succ_lt_succ hlt, c, cs, rfl, .inr hc⟩

theorem scanSign_append {sign whole : List Char} (hs : sign = [] ∨ sign = ['-'])
    (hw : isWhole whole) (rest : List Char) :
    scanSign (sign ++ (whole ++ rest)) = (sign, whole ++ rest) := by
  obtain rfl | rfl := hs
  · obtain ⟨hd, rfl | ⟨c, cs, rfl, -⟩⟩ := hw
    · rfl
    · have hc : c ≠ '-' := by
        rintro rfl
        simp at hd
      rw [List.nil_append, List.cons_append]
      unfold scanSign
      split
      · next h => exact absurd (List.cons.inj h).1 hc
      · rfl
  · rfl

theorem scanPowerSign_append {sign digits : List Char}
    (hs : sign = [] ∨ sign = ['+'] ∨ sign = ['-']) (hne : digits ≠ [])
    (hd : digits.all Char.isDigit) (rest : List Char) :
    scanPowerSign (sign ++ (digits ++ rest)) = (sign, digits ++ rest) := by
  obtain ⟨c, cs, rfl⟩ := List.exists_cons_of_ne_nil hne
  have hplus : c ≠ '+' := by
    rintro rfl
    simp at hd
  have hminus : c ≠ '-' := by
    rintro rfl
    simp at hd
  obtain rfl | rfl | rfl := hs
  · rw [List.nil_append, List.cons_append]
    unfold scanPowerSign
    split
    · next h => exact absurd (List.cons.inj h).1 hplus
    · next h => exact absurd (List.cons.inj h).1 hminus
    · rfl
  · rfl
  · rfl

theorem covers_scanExponent {exponent : List Char} (he : isExponent exponent)
    (more : List Char) :
    Covers scanExponent (fun c ↦ c = 'e' ∨ c = 'E' ∨ c.isDigit) exponent more := by
  unfold Covers
  obtain rfl | ⟨mark, sign, digits, rfl, hmark, hs, hne, hd⟩ := he
  · rw [List.nil_append]
    unfold scanExponent
    split
    · exact .inl rfl
    · next c cs =>
      split
      · next hmark =>
        dsimp only
        split
        · exact .inl rfl
        · exact .inr ⟨Nat.succ_pos _, c, cs, rfl, hmark.imp_right .inl⟩
      · exact .inl rfl
  · have hscan : scanExponent (mark :: sign ++ digits ++ more) =
        ((digits ++ more).span Char.isDigit).map (mark :: sign ++ ·) id := by
      have hsign := scanPowerSign_append hs hne hd more
      obtain ⟨c, cs, rfl⟩ := List.exists_cons_of_ne_nil hne
      rw [List.append_assoc, List.cons_append]
      unfold scanExponent
      simp only [if_pos hmark, hsign, span_append hd]
      rfl
    rw [hscan]
    obtain h | ⟨hlt, c, cs, rfl, hc⟩ := covers_span hd more
    · exact .inl (by rw [h, Prod.map_apply, id])
    · refine .inr ⟨?_, c, cs, rfl, .inr (.inr hc)⟩
      rw [Prod.map_fst, List.length_append, List.length_append]
      exact Nat.add_lt_add_left hlt _

/-- A number at the front of a text is scanned, or else a longer one is, and what comes next goes
on with it. -/
theorem scan?_of_matches {n : Numeral} (hn : n.Matches) (rest : List Char) :
    ∃ m more, scan? (n.text ++ rest) = some (m, more) ∧
      (m = n ∧ more = rest ∨ n.text.length < m.text.length ∧ ends rest = false) := by
  have hfraction {c : Char} {cs : List Char} (hc : c.isDigit)
      (hnext : n.fraction ++ (n.exponent ++ rest) = c :: cs) : n.fraction = [] := by
    refine hn.fraction.resolve_right ?_
    rintro ⟨digits, hf, -⟩
    rw [hf] at hnext
    cases (List.cons.inj hnext).1
    cases hc
  have hexponent {c : Char} {cs : List Char} (hc : c = '.' ∨ c.isDigit)
      (hnext : n.exponent ++ rest = c :: cs) : n.exponent = [] := by
    refine hn.exponent.resolve_right ?_
    rintro ⟨mark, sign, digits, he, hmark, -⟩
    rw [he] at hnext
    cases (List.cons.inj hnext).1
    obtain rfl | rfl := hmark <;> simp at hc
  have hends {c : Char} {cs : List Char} (hc : c = '.' ∨ c = 'e' ∨ c = 'E' ∨ c.isDigit)
      (hnext : rest = c :: cs) : ends rest = false := by
    rw [hnext]
    obtain rfl | rfl | rfl | hc := hc <;> simp [ends, *]
  have hsign : scanSign (n.text ++ rest) =
      (n.sign, n.whole ++ (n.fraction ++ (n.exponent ++ rest))) := by
    rw [← scanSign_append hn.sign hn.whole]
    simp [text]
  have hw := covers_scanWhole hn.whole (n.fraction ++ (n.exponent ++ rest))
  have hf := covers_scanFraction hn.fraction (n.exponent ++ rest)
  have he := covers_scanExponent hn.exponent rest
  unfold Covers at hw hf he
  cases hwhole : scanWhole (n.whole ++ (n.fraction ++ (n.exponent ++ rest))) with
  | mk whole rest₁ =>
  cases hfrac : scanFraction rest₁ with
  | mk fraction rest₂ =>
  cases hexp : scanExponent rest₂ with
  | mk exponent rest₃ =>
  rw [hwhole] at hw
  refine ⟨⟨n.sign, whole, fraction, exponent⟩, rest₃, ?_, ?_⟩
  · have hne : whole.isEmpty = false := by
      rw [List.isEmpty_eq_false_iff]
      obtain h | ⟨hlt, -⟩ := hw
      · rw [(Prod.mk.inj h).1]
        exact hn.whole.ne_nil
      · exact List.ne_nil_of_length_pos (Nat.zero_lt_of_lt hlt)
    unfold scan?
    simp only [hsign, hwhole, hfrac, hexp, hne]
    rfl
  · -- The first part that more is taken for is the last part of the number.
    simp only [text, List.length_append]
    obtain h | ⟨hlt, c, cs, hnext, hc⟩ := hw
    · obtain ⟨rfl, rfl⟩ := Prod.mk.inj h
      rw [hfrac] at hf
      obtain h | ⟨hlt, c, cs, hnext, hc⟩ := hf
      · obtain ⟨rfl, rfl⟩ := Prod.mk.inj h
        rw [hexp] at he
        obtain h | ⟨hlt, c, cs, hnext, hc⟩ := he
        · obtain ⟨rfl, rfl⟩ := Prod.mk.inj h
          exact .inl ⟨rfl, rfl⟩
        · exact .inr ⟨Nat.add_lt_add_left hlt _, hends (.inr hc) hnext⟩
      · have henil := hexponent hc hnext
        rw [henil, List.nil_append] at hnext
        rw [henil, List.length_nil]
        refine .inr ⟨?_, hends (hc.imp_right fun h ↦ .inr (.inr h)) hnext⟩
        dsimp only at hlt
        omega
    · have hfnil := hfraction hc hnext
      rw [hfnil, List.nil_append] at hnext
      have henil := hexponent (.inr hc) hnext
      rw [henil, List.nil_append] at hnext
      rw [hfnil, henil, List.length_nil]
      refine .inr ⟨?_, hends (.inr (.inr (.inr hc))) hnext⟩
      dsimp only at hlt
      omega

theorem scan?_of_ends {n : Numeral} (hn : n.Matches) {rest : List Char} (hr : ends rest) :
    scan? (n.text ++ rest) = some (n, rest) := by
  obtain ⟨m, more, h, ⟨rfl, rfl⟩ | ⟨-, hends⟩⟩ := scan?_of_matches hn rest
  · exact h
  · rw [hr] at hends
    cases hends

theorem length_le_of_scan? {n m : Numeral} {text rest more : List Char}
    (h : scan? text = some (n, rest)) (hm : m.Matches) (htext : text = m.text ++ more) :
    m.text.length ≤ n.text.length := by
  obtain ⟨n', rest', h', hn'⟩ := scan?_of_matches hm more
  rw [← htext, h] at h'
  obtain ⟨rfl, -⟩ := Prod.mk.inj (Option.some.inj h')
  obtain ⟨rfl, -⟩ | ⟨hlt, -⟩ := hn'
  · exact Nat.le_refl _
  · exact Nat.le_of_lt hlt

theorem scan?_of_longest {n : Numeral} (hn : n.Matches) {rest : List Char}
    (hend : ∀ m : Numeral, m.Matches → m.text <+: n.text ++ rest →
      m.text.length ≤ n.text.length) : scan? (n.text ++ rest) = some (n, rest) := by
  obtain ⟨m, more, h, ⟨rfl, rfl⟩ | ⟨hlt, -⟩⟩ := scan?_of_matches hn rest
  · exact h
  · obtain ⟨hm, htext⟩ := matches_of_scan? h
    exact absurd (hend m hm ⟨more, htext.symm⟩) (Nat.not_le.2 hlt)

/-- The text is a number that begins with a minus sign or a digit, and it is scanned whole, with
this value. -/
structure Reads (text : List Char) (x : Double) : Prop where
  finite : x.isFinite
  head : ∃ c cs, text = c :: cs ∧ (c = '-' ∨ c.isDigit)
  scan : ∀ rest, ends rest →
    ∃ n, scan? (text ++ rest) = some (n, rest) ∧ n.text = text ∧ n.value = x

theorem Matches.head {n : Numeral} (hn : n.Matches) :
    ∃ c cs, n.text = c :: cs ∧ (c = '-' ∨ c.isDigit) := by
  obtain hs | hs := hn.sign
  · obtain ⟨c, cs, hw⟩ := List.exists_cons_of_ne_nil hn.whole.ne_nil
    have hd := hn.whole.1
    rw [hw, List.all_cons, Bool.and_eq_true] at hd
    exact ⟨c, cs ++ n.fraction ++ n.exponent, by simp [text, hs, hw], .inr hd.1⟩
  · exact ⟨'-', n.whole ++ n.fraction ++ n.exponent, by simp [text, hs], .inl rfl⟩

theorem reads_of_matches {n : Numeral} (hn : n.Matches) (hx : n.value.isFinite) :
    Reads n.text n.value where
  finite := hx
  head := hn.head
  scan _ hr := ⟨n, scan?_of_ends hn hr, rfl, rfl⟩

theorem sign_cases (negative : Bool) : (if negative then ['-'] else ([] : List Char)) = [] ∨
    (if negative then ['-'] else ([] : List Char)) = ['-'] := by
  cases negative with
  | true => exact .inr rfl
  | false => exact .inl rfl

theorem isEmpty_sign (negative : Bool) :
    (!(if negative then ['-'] else ([] : List Char)).isEmpty) = negative := by
  cases negative <;> rfl

theorem reads_whole (negative : Bool) {whole : List Char} {x : Double} (hw : isWhole whole)
    (hx : x.isFinite) (hv : Double.ofDecimal negative (Text.digitsValue whole) 0 = x) :
    Reads ((if negative then ['-'] else []) ++ whole) x := by
  have hn : Matches ⟨if negative then ['-'] else [], whole, [], []⟩ :=
    ⟨sign_cases negative, hw, .inl rfl, .inl rfl⟩
  have hvalue : value ⟨if negative then ['-'] else [], whole, [], []⟩ = x := by
    simp only [value, isEmpty_sign, List.drop_nil, List.append_nil]
    exact hv
  have hreads := reads_of_matches hn (by rwa [hvalue])
  rw [hvalue] at hreads
  simpa [text] using hreads

theorem reads_fraction (negative : Bool) {whole places : List Char} {x : Double}
    (hw : isWhole whole) (hp : places.all Char.isDigit) (hne : places ≠ []) (hx : x.isFinite)
    (hv : Double.ofDecimal negative (Text.digitsValue (whole ++ places)) (-places.length) = x) :
    Reads ((if negative then ['-'] else []) ++ (whole ++ '.' :: places)) x := by
  have hn : Matches ⟨if negative then ['-'] else [], whole, '.' :: places, []⟩ :=
    ⟨sign_cases negative, hw, .inr ⟨places, rfl, hne, hp⟩, .inl rfl⟩
  have hvalue : value ⟨if negative then ['-'] else [], whole, '.' :: places, []⟩ = x := by
    simp only [value, isEmpty_sign, List.drop_one, List.tail_cons, power, Int.zero_sub]
    exact hv
  have hreads := reads_of_matches hn (by rwa [hvalue])
  rw [hvalue] at hreads
  simpa [text] using hreads

theorem isWhole_toDigits (n : Nat) : isWhole (Nat.toDigits 10 n) := by
  refine ⟨Text.all_isDigit_toDigits n, ?_⟩
  by_cases hn : n = 0
  · exact .inl (by rw [hn]; rfl)
  · exact .inr (Text.exists_toDigits (by omega))

end Numeral

section

variable {x : Double} {d : Decimal}

open Numeral

theorem ofDecimal_mul_tenPow {digits k : Nat}
    (hf : (Double.ofDecimal false digits (.ofNat k)).isFinite) :
    Double.ofDecimal false (digits * tenPow k) (.ofNat 0) =
      Double.ofDecimal false digits (.ofNat k) := by
  by_cases hz : digits = 0
  · simp [Double.ofDecimal, hz]
  · have hk : k < 309 := Double.le_of_tenPow_le hz (Double.scale_le_of_isFinite hz hf)
    have hpos : digits * tenPow k ≠ 0 :=
      Nat.mul_ne_zero hz (Nat.ne_of_gt (Nat.pow_pos (by omega)))
    have hone : tenPow 0 = 1 := rfl
    rw [Double.ofDecimal_of_lt hz (by omega), Double.ofDecimal_of_lt hpos (by omega), hone,
      Nat.mul_one]

theorem reads_integer (hx : x.isFinite) {k : Nat}
    (hd : Double.ofDecimal false d.digits (.ofNat k) = x.abs) :
    Reads ((if x.negative then ['-'] else []) ++
      (Nat.toDigits 10 d.digits ++ if d.digits = 0 then [] else Decimal.zeros k)) x := by
  have hfinite : (Double.ofDecimal false d.digits (.ofNat k)).isFinite := by
    rw [hd]
    exact hx
  have hread := ofDecimal_mul_tenPow hfinite
  have hsigned (digits : Nat) (h : Double.ofDecimal false digits (.ofNat 0) = x.abs) :
      Double.ofDecimal x.negative digits 0 = x := by
    rw [Double.ofDecimal_negative]
    exact congrArg (fun y : Double ↦ { y with negative := x.negative }) h
  rw [hd] at hread
  by_cases hz : d.digits = 0
  · rw [if_pos hz, List.append_nil]
    refine reads_whole _ (isWhole_toDigits _) hx (hsigned _ ?_)
    rw [Text.digitsValue_toDigits, ← hread, hz, Nat.zero_mul]
  · rw [if_neg hz]
    refine reads_whole _ ⟨?_, .inr ?_⟩ hx (hsigned _ ?_)
    · rw [List.all_append, Text.all_isDigit_toDigits]
      simp [Decimal.zeros]
    · obtain ⟨c, cs, hc, hne⟩ := Text.exists_toDigits (Nat.pos_of_ne_zero hz)
      exact ⟨c, cs ++ Decimal.zeros k, by rw [hc]; rfl, hne⟩
    · rw [Decimal.zeros, Text.digitsValue_append_zeros, Text.digitsValue_toDigits, hread]

theorem reads_places (hx : x.isFinite) {k : Nat}
    (hd : Double.ofDecimal false d.digits (.negSucc k) = x.abs) {padded : List Char}
    (hp : padded = Decimal.zeros (k + 2 - (Nat.toDigits 10 d.digits).length) ++
      Nat.toDigits 10 d.digits) :
    Reads ((if x.negative then ['-'] else []) ++ (padded.take (padded.length - (k + 1)) ++
      '.' :: padded.drop (padded.length - (k + 1)))) x := by
  have hlen : padded.length =
      k + 2 - (Nat.toDigits 10 d.digits).length + (Nat.toDigits 10 d.digits).length := by
    simp [hp, Decimal.zeros]
  have hdigits : padded.all Char.isDigit := by
    rw [hp, List.all_append, Text.all_isDigit_toDigits]
    simp [Decimal.zeros]
  have hplaces : (padded.drop (padded.length - (k + 1))).length = k + 1 := by
    rw [List.length_drop]
    omega
  rw [List.all_eq_true] at hdigits
  refine reads_fraction _ ⟨?_, ?_⟩ ?_ ?_ hx ?_
  · rw [List.all_eq_true]
    exact fun c hc ↦ hdigits c (List.mem_of_mem_take hc)
  · by_cases hfew : (Nat.toDigits 10 d.digits).length < k + 2
    · left
      obtain ⟨m, hm⟩ : ∃ m, k + 2 - (Nat.toDigits 10 d.digits).length = m + 1 :=
        ⟨k + 1 - (Nat.toDigits 10 d.digits).length, by omega⟩
      have hone : padded.length - (k + 1) = 1 := by omega
      rw [hone, hp, hm, Decimal.zeros, List.replicate_succ]
      rfl
    · right
      have hpos : 0 < d.digits := by
        apply Nat.pos_of_ne_zero
        intro hz
        simp [hz] at hfew
      obtain ⟨c, cs, hc, hne⟩ := Text.exists_toDigits hpos
      obtain ⟨m, hm⟩ : ∃ m, padded.length - (k + 1) = m + 1 := ⟨padded.length - (k + 2), by omega⟩
      have hzero : k + 2 - (Nat.toDigits 10 d.digits).length = 0 := by omega
      refine ⟨c, cs.take m, ?_, hne⟩
      rw [hm, hp, hzero, hc]
      rfl
  · rw [List.all_eq_true]
    exact fun c hc ↦ hdigits c (List.mem_of_mem_drop hc)
  · intro hnil
    simp [hnil] at hplaces
  · rw [List.take_append_drop, hplaces, hp, Decimal.zeros, Text.digitsValue_zeros_append,
      Text.digitsValue_toDigits, Double.ofDecimal_negative]
    exact congrArg (fun y : Double ↦ { y with negative := x.negative }) hd

theorem reads_writeNumber (hx : x.isFinite) : Reads (writeNumber x) x := by
  have hd := Decimal.ofDecimal_shortest .up hx
  unfold writeNumber Decimal.positional
  generalize Decimal.shortest .up x = d at hd ⊢
  obtain ⟨digits, scale⟩ := d
  cases scale with
  | ofNat k => exact reads_integer (d := ⟨digits, k⟩) hx hd
  | negSucc k => exact reads_places (d := ⟨digits, .negSucc k⟩) hx hd rfl

theorem reads_size {size : Nat} (h : size < twoPow 64) :
    Reads size.repr.toList (.ofInt size) := by
  have hlt : twoPow 64 < twoPow 65 := by decide
  have hfinite : (Double.ofInt size).isFinite := Double.ofInt_isFinite (Nat.lt_trans h hlt)
  have hread : Double.ofDecimal false size 0 = .ofInt size := by
    by_cases hz : size = 0
    · subst hz
      decide +kernel
    · have hleft := Double.ofDecimal_of_lt hz (Nat.zero_le 310)
      have hone : tenPow 0 = 1 := rfl
      rw [hone, Nat.mul_one] at hleft
      exact hleft
  have hdigits : Double.ofDecimal false (Text.digitsValue (Nat.toDigits 10 size)) 0 =
      .ofInt size := by
    rw [Text.digitsValue_toDigits, hread]
  rw [Nat.toList_repr]
  exact reads_whole false (isWhole_toDigits size) hfinite hdigits

end

end FlowTypes.Notation
