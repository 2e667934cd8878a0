import FlowTypes.Number.Decimal
import FlowTypes.Text.CharClass
import FlowTypes.Text.Quoted

namespace FlowTypes.Notation

inductive Mark
  | question
  | bar
  | ampersand
  | openParen
  | closeParen
  | openBracket
  | closeBracket
  | openBrace
  | closeBrace
  | comma
  | colon
deriving DecidableEq

namespace Mark

def char : Mark → Char
  | .question => '?'
  | .bar => '|'
  | .ampersand => '&'
  | .openParen => '('
  | .closeParen => ')'
  | .openBracket => '['
  | .closeBracket => ']'
  | .openBrace => '{'
  | .closeBrace => '}'
  | .comma => ','
  | .colon => ':'

def all : List Mark :=
  [.question, .bar, .ampersand, .openParen, .closeParen, .openBracket, .closeBracket, .openBrace,
    .closeBrace, .comma, .colon]

def ofChar? (c : Char) : Option Mark := all.find? (·.char == c)

end Mark

/-- A token. A number keeps the text it was written as beside its value. -/
inductive Token
  | word (text : String)
  | number (value : Double) (text : String)
  | string (value : String)
  | mark (mark : Mark)
deriving DecidableEq

namespace Token

def text : Token → List Char
  | .word w => w.toList
  | .number _ t => t.toList
  | .string s => Text.Quoted.write s.toList
  | .mark m => [m.char]

end Token

/-- A token, the characters it was written with, and the number of bytes before them. -/
structure Lexeme where
  token : Token
  offset : Nat
  slice : List Char

/-- The fewest digits that read back, without an exponent and without a point for an integer. A
value midway between two decimals takes the upper one. -/
def writeNumber (x : Double) : List Char :=
  (if x.negative then ['-'] else []) ++ (Decimal.shortest .up x).positional

end FlowTypes.Notation
