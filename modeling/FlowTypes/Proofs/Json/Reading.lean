import FlowTypes.Json.Reader
import FlowTypes.Proofs.Text.Quoted

namespace FlowTypes.Json

open Text

theorem length_skipSpace (text : List Char) : (skipSpace text).length ≤ text.length :=
  (List.dropWhile_suffix _).length_le

theorem length_of_skipSpace {text rest : List Char} {c : Char} (h : skipSpace text = c :: rest) :
    rest.length < text.length := by
  have hl := length_skipSpace text
  rw [h] at hl
  exact hl

theorem toDouble?_of_readNumber {text rest : List Char} {v : Json}
    (h : readNumber text = .ok (v, rest)) : v.toDouble?.isSome := by
  have hu (negative : Bool) (text : List Char) (h : readUnsigned negative text = .ok (v, rest)) :
      v.toDouble?.isSome := by
    obtain ⟨⟨whole, rest₁⟩, -, h⟩ := ok_of_bind h
    obtain ⟨⟨fraction, rest₂⟩, -, h⟩ := ok_of_bind h
    obtain ⟨⟨power, rest₃⟩, -, h⟩ := ok_of_bind h
    dsimp only at h
    split at h
    · cases h
      simp [toDouble?]
    · split at h
      · cases h
        simp [toDouble?]
      · obtain ⟨x, -, h⟩ := ok_of_bind h
        cases h
        simp [toDouble?]
  unfold readNumber at h
  split at h
  · exact hu _ _ h
  · exact hu _ _ h

theorem readScalar_cases {text rest : List Char} {v : Json} (h : readScalar text = .ok (v, rest)) :
    v = .null ∨ (∃ b, v = .bool b) ∨ v.toDouble?.isSome ∨
      ∃ s more, v = .string s ∧ text = '"' :: more ∧ Quoted.read more = .ok (s, rest) := by
  unfold readScalar at h
  split at h
  case h_1 => cases h
  case h_2 =>
    obtain ⟨rest', -, h⟩ := ok_of_bind h
    cases h
    exact .inl rfl
  case h_5 more =>
    obtain ⟨⟨s', rest'⟩, hread, h⟩ := ok_of_bind h
    cases h
    exact .inr (.inr (.inr ⟨s', more, rfl, rfl, hread⟩))
  case h_6 =>
    split at h
    · exact .inr (.inr (.inl (toDouble?_of_readNumber h)))
    · cases h
  all_goals
    obtain ⟨rest', -, h⟩ := ok_of_bind h
    cases h
    exact .inr (.inl ⟨_, rfl⟩)

theorem readValue_eq_string_iff {depth : Nat} {text rest : List Char} {s : String} :
    readValue depth text = .ok (.string s, rest) ↔
      ∃ more, text = '"' :: more ∧ Text.Quoted.read more = .ok (s, rest) := by
  constructor
  · intro h
    unfold readValue at h
    split at h
    · split at h
      · cases h
      · cases h
      · obtain ⟨items, -, h⟩ := ok_of_bind h
        cases h
    · split at h
      · cases h
      · cases h
      · obtain ⟨members, -, h⟩ := ok_of_bind h
        cases h
    · simpa [toDouble?] using readScalar_cases h
  · rintro ⟨more, rfl, h⟩
    have hscalar : readValue depth ('"' :: more) =
        Text.Quoted.read more >>= fun r ↦ .ok (.string r.1, r.2) := by
      unfold readValue
      rfl
    rw [hscalar, h]
    rfl

theorem readValue_eq_object_iff {depth : Nat} {text rest : List Char}
    {members : List (String × Json)} :
    readValue (depth + 1) text = .ok (.object members, rest) ↔ ∃ opened, text = '{' :: opened ∧
      (members = [] ∧ skipSpace opened = '}' :: rest ∨
        readMembers (readValue depth) (skipSpace opened) (skipSpace opened) =
          .ok (members, rest)) := by
  have hempty {opened rest : List Char} (hclose : skipSpace opened = '}' :: rest) :
      readValue (depth + 1) ('{' :: opened) = .ok (.object [], rest) :=
    readValue.eq_5 opened (depth + 1) rest (Nat.succ_ne_zero depth) hclose
  have hfull {opened : List Char} (hopen : ∀ rest, skipSpace opened ≠ '}' :: rest) :
      readValue (depth + 1) ('{' :: opened) =
        readMembers (readValue depth) (skipSpace opened) (skipSpace opened) >>=
          fun r ↦ .ok (.object r.1, r.2) :=
    readValue.eq_6 opened depth hopen
  constructor
  · intro h
    by_cases hbrace : ∃ opened, text = '{' :: opened
    · obtain ⟨opened, rfl⟩ := hbrace
      refine ⟨opened, rfl, ?_⟩
      by_cases hclose : ∃ rest, skipSpace opened = '}' :: rest
      · obtain ⟨rest', hclose⟩ := hclose
        rw [hempty hclose] at h
        obtain ⟨hm, rfl⟩ := Prod.mk.inj (Except.ok.inj h)
        exact .inl ⟨(Json.object.inj hm).symm, hclose⟩
      · rw [hfull (not_exists.1 hclose)] at h
        obtain ⟨⟨members', rest'⟩, hmembers, h⟩ := ok_of_bind h
        cases h
        exact .inr hmembers
    · unfold readValue at h
      split at h
      · split at h
        · cases h
        · cases h
        · obtain ⟨items, -, h⟩ := ok_of_bind h
          cases h
      · exact absurd ⟨_, rfl⟩ hbrace
      · simpa [toDouble?] using readScalar_cases h
  · rintro ⟨opened, rfl, ⟨rfl, hclose⟩ | hmembers⟩
    · exact hempty hclose
    · -- A brace is no name, so the object is not closed where its members are read.
      have hopen (rest' : List Char) : skipSpace opened ≠ '}' :: rest' := by
        intro hclose
        rw [hclose] at hmembers
        cases hmembers
      rw [hfull hopen, hmembers]
      rfl

/-- A string comes next, after spaces, and then the rest. -/
def Quotes (text : List Char) (s : String) (rest : List Char) : Prop :=
  ∃ more, skipSpace text = '"' :: more ∧ Quoted.read more = .ok (s, rest)

variable {text rest : List Char} {name s : String}

theorem Quotes.length_lt (h : Quotes text s rest) : rest.length < text.length := by
  obtain ⟨more, hquote, hread⟩ := h
  exact Nat.lt_trans (Quoted.length_of_read hread) (length_of_skipSpace hquote)

theorem readName_eq_ok_iff : readName text = .ok (name, rest) ↔
    ∃ after, Quotes text name after ∧ skipSpace after = ':' :: rest := by
  unfold readName Quotes
  constructor
  · intro h
    split at h
    · cases h
    · next more hquote =>
      obtain ⟨⟨name', after⟩, hread, h⟩ := ok_of_bind h
      dsimp only at h
      split at h
      · cases h
      · next hcolon =>
        cases h
        exact ⟨after, ⟨more, hquote, hread⟩, hcolon⟩
      · cases h
    · cases h
  · rintro ⟨after, ⟨more, hquote, hread⟩, hcolon⟩
    simp only [hquote, hread, ok_bind, hcolon]
    rfl

theorem readFirst_eq_ok_iff {text : String} {v : Json} : readFirst text = .ok v ↔
    ∃ rest, readValue maxDepth (skipSpace text.toList) = .ok (v, rest) := by
  unfold readFirst
  constructor
  · intro h
    obtain ⟨⟨v', rest⟩, hvalue, h⟩ := ok_of_bind h
    obtain rfl := Except.ok.inj h
    exact ⟨rest, hvalue⟩
  · rintro ⟨rest, hvalue⟩
    rw [hvalue]
    rfl

end FlowTypes.Json
