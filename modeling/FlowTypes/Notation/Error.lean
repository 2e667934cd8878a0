import FlowTypes.Notation.Token
import FlowTypes.Text.CharClass

namespace FlowTypes.Text.Visible

/-- In messages the quote in use, a backslash and every character that does not show are escaped. -/
def escape (quote c : Char) : List Char :=
  if c = '\x00' then ['\\', '0']
  else if c = '\t' then ['\\', 't']
  else if c = '\r' then ['\\', 'r']
  else if c = '\n' then ['\\', 'n']
  else if c = quote ∨ c = '\\' then ['\\', c]
  else if isCombining c || isHidden c then
    ['\\', 'u', '{'] ++ Nat.toDigits 16 c.toNat ++ ['}']
  else [c]

def ofChar (c : Char) : String := String.ofList ('\'' :: escape '\'' c ++ ['\''])

def ofString (s : String) : String := String.ofList ('"' :: s.toList.flatMap (escape '"') ++ ['"'])

end FlowTypes.Text.Visible

namespace FlowTypes.Notation

inductive Expected
  | type
  | endOfInput
  | sizeOrBracket
  | closeBracket
  | closeParen
  | closeBrace
  | commaOrBracket
  | commaOrBrace
  | colon
  | fieldName
deriving DecidableEq

/-- Why a text is no type. Offsets count bytes from the start of the text. Why a string is invalid
is left out of the message, as it is worded by the reader of quoted text. -/
inductive Error
  | empty
  | unexpectedChar (char : Char) (offset : Nat)
  | unterminatedString (offset : Nat)
  | invalidString (offset : Nat)
  | unexpectedToken (expected : Expected) (found : Option Token) (offset : Nat)
  | invalidNumber (text : String) (offset : Nat)
  | tooDeep (offset : Nat)
  | invalidSize (text : String) (offset : Nat)
  | unknownName (name : String) (offset : Nat)
  | duplicateField (name : String) (offset : Nat)
deriving DecidableEq

def Expected.describe : Expected → String
  | .type => "type"
  | .endOfInput => "end of input"
  | .sizeOrBracket => "array size or `]`"
  | .closeBracket => "`]`"
  | .closeParen => "`)`"
  | .closeBrace => "`\x7d`"
  | .commaOrBracket => "`,` or `]`"
  | .commaOrBrace => "`,` or `\x7d`"
  | .colon => "`:`"
  | .fieldName => "field name"

def Token.describe : Token → String
  | .string s => Text.Visible.ofString s
  | token => "`" ++ String.ofList token.text ++ "`"

namespace Error

def message : Error → String
  | .empty => "empty type expression"
  | .unexpectedChar c offset =>
    "unexpected character " ++ Text.Visible.ofChar c ++ " at offset " ++ offset.repr
  | .unterminatedString offset => "unterminated string literal at offset " ++ offset.repr
  | .invalidString offset => "invalid string literal at offset " ++ offset.repr
  | .unexpectedToken expected found offset =>
    "expected " ++ expected.describe ++ ", found " ++
      (found.map Token.describe).getD "end of input" ++ " at offset " ++ offset.repr
  | .invalidNumber text offset =>
    "number `" ++ text ++ "` at offset " ++ offset.repr ++ " is out of range"
  | .tooDeep offset => "type nested too deeply at offset " ++ offset.repr
  | .invalidSize text offset => "invalid size `" ++ text ++ "` at offset " ++ offset.repr
  | .unknownName name offset => "unknown type name `" ++ name ++ "` at offset " ++ offset.repr
  | .duplicateField name offset => "duplicate field `" ++ name ++ "` at offset " ++ offset.repr

def offset? : Error → Option Nat
  | .empty => none
  | .unexpectedChar _ offset | .unterminatedString offset | .invalidString offset
  | .unexpectedToken _ _ offset | .invalidNumber _ offset | .tooDeep offset
  | .invalidSize _ offset | .unknownName _ offset | .duplicateField _ offset => some offset

end Error

end FlowTypes.Notation
