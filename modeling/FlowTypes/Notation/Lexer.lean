import FlowTypes.Notation.Error

namespace FlowTypes.Notation

/-- A number as it is written: a sign, the digits before the point, a point with digits, and an
exponent mark with its sign and digits. The last two may be empty. -/
structure Numeral where
  sign : List Char
  whole : List Char
  fraction : List Char
  exponent : List Char

namespace Numeral

def text (n : Numeral) : List Char := n.sign ++ n.whole ++ n.fraction ++ n.exponent

def power : List Char → Int
  | _ :: '-' :: digits => -Text.digitsValue digits
  | _ :: '+' :: digits => Text.digitsValue digits
  | _ :: digits => Text.digitsValue digits
  | [] => 0

def value (n : Numeral) : Double :=
  let places := n.fraction.drop 1
  Double.ofDecimal (!n.sign.isEmpty) (Text.digitsValue (n.whole ++ places))
    (power n.exponent - places.length)

def scanSign : List Char → List Char × List Char
  | '-' :: rest => (['-'], rest)
  | text => ([], text)

def scanWhole : List Char → List Char × List Char
  | '0' :: rest => (['0'], rest)
  | text => text.span Char.isDigit

def scanFraction : List Char → List Char × List Char
  | '.' :: rest =>
    match rest.span Char.isDigit with
    | ([], _) => ([], '.' :: rest)
    | (digits, rest) => ('.' :: digits, rest)
  | text => ([], text)

def scanPowerSign : List Char → List Char × List Char
  | '+' :: rest => (['+'], rest)
  | '-' :: rest => (['-'], rest)
  | text => ([], text)

def scanExponent : List Char → List Char × List Char
  | [] => ([], [])
  | c :: rest =>
    if c = 'e' ∨ c = 'E' then
      let (sign, after) := scanPowerSign rest
      match after.span Char.isDigit with
      | ([], _) => ([], c :: rest)
      | (digits, after) => (c :: sign ++ digits, after)
    else ([], c :: rest)

def scan? (text : List Char) : Option (Numeral × List Char) :=
  let (sign, rest) := scanSign text
  let (whole, rest) := scanWhole rest
  let (fraction, rest) := scanFraction rest
  let (exponent, rest) := scanExponent rest
  if whole.isEmpty then none else some (⟨sign, whole, fraction, exponent⟩, rest)

end Numeral

/-- Splits what follows an opening quote at the first quote that no backslash precedes. -/
def scanString : List Char → Option (List Char × List Char)
  | [] => none
  | '"' :: rest => some ([], rest)
  | ['\\'] => none
  | '\\' :: c :: rest => (scanString rest).map fun s ↦ ('\\' :: c :: s.1, s.2)
  | c :: rest => (scanString rest).map fun s ↦ (c :: s.1, s.2)

def nextToken (offset : Nat) (c : Char) (rest : List Char) :
    Except Error (Option Token × List Char × List Char) :=
  match Mark.ofChar? c with
  | some mark => .ok (some (.mark mark), [c], rest)
  | none =>
    if Text.isBlank c then .ok (none, [c], rest)
    else if c = '"' then
      match scanString rest with
      | none => .error (.unterminatedString offset)
      | some (raw, rest) =>
        match Text.Quoted.read (raw ++ ['"']) with
        | .ok (s, []) => .ok (some (.string s), '"' :: raw ++ ['"'], rest)
        | _ => .error (.invalidString offset)
    else if c = '-' ∨ c.isDigit then
      match Numeral.scan? (c :: rest) with
      | none => .error (.unexpectedChar c offset)
      | some (n, rest) =>
        let text := String.ofList n.text
        if n.value.isFinite then .ok (some (.number n.value text), n.text, rest)
        else .error (.invalidNumber text offset)
    else if Text.startsWord c then
      let (word, rest) := rest.span Text.continuesWord
      .ok (some (.word (String.ofList (c :: word))), c :: word, rest)
    else .error (.unexpectedChar c offset)

def lexFrom : Nat → Nat → List Char → Except Error (List Lexeme)
  | 0, _, _ | _, _, [] => .ok []
  | fuel + 1, offset, c :: rest => do
    let (token, slice, rest) ← nextToken offset c rest
    let lexemes ← lexFrom fuel (offset + Text.Quoted.byteCount slice) rest
    return match token with
      | some token => ⟨token, offset, slice⟩ :: lexemes
      | none => lexemes

/-- The tokens of a text, each the longest that begins where it does. Blanks are dropped. -/
def lex (text : String) : Except Error (List Lexeme) := lexFrom text.toList.length 0 text.toList

end FlowTypes.Notation
