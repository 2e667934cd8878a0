import FlowTypes.Notation.Token
import FlowTypes.Ty.Basic

namespace FlowTypes.Notation

inductive Piece
  | token (token : Token)
  | space

def Piece.text : Piece → List Char
  | .token t => t.text
  | .space => [' ']

inductive Position
  | bound
  | element
  | interLeft
  | interRight
  | unionRight
deriving DecidableEq

/-- Does a part need parentheses where it stands? -/
def needsParens : Ty → Position → Bool
  | .union .., _ => true
  | .inter .., position => position != .interLeft
  | .nullable _, position => position == .bound || position == .element
  | .bounded .., position => position == .element
  | _, _ => false

def mark (m : Mark) : Piece := .token (.mark m)

def word (w : String) : Piece := .token (.word w)

def inPlace (position : Position) (ty : Ty) (spelled : List Piece → List Piece)
    (rest : List Piece) : List Piece :=
  if needsParens ty position then mark .openParen :: spelled (mark .closeParen :: rest)
  else spelled rest

/-- A number that is not finite is spelled `null`. -/
def spellLiteral : Literal → Token
  | .null => .word "null"
  | .bool b => .word (if b then "true" else "false")
  | .number x => if x.isFinite then .number x (String.ofList (writeNumber x)) else .word "null"
  | .string s => .string s

/-- A field name is quoted unless it is a word. -/
def spellName (name : String) : Token :=
  if Text.isWord name.toList then .word name else .string name

def spellSize (size : Nat) : Token := .number (.ofInt size) size.repr

def spellLabel (name : String) (optional : Bool) (rest : List Piece) : List Piece :=
  .token (spellName name) ::
    (if optional then mark .question :: mark .colon :: .space :: rest
    else mark .colon :: .space :: rest)

mutual

/-- A type, and then the rest. -/
def spell : Ty → List Piece → List Piece
  | .literal l, rest => .token (spellLiteral l) :: rest
  | .primitive p, rest => word p.name :: rest
  | .generic name, rest => word name :: rest
  | .bounded name t, rest =>
    word name :: .space :: word "extends" :: .space :: inPlace .bound t (spell t) rest
  | .emptyTuple, rest => mark .openBracket :: mark .closeBracket :: rest
  | .tuple ts, rest => mark .openBracket :: spellItems ts (mark .closeBracket :: rest)
  | .array t size, rest =>
    inPlace .element t (spell t)
      (mark .openBracket :: .token (spellSize size) :: mark .closeBracket :: rest)
  | .list t, rest =>
    inPlace .element t (spell t) (mark .openBracket :: mark .closeBracket :: rest)
  | .openStruct, rest | .struct [], rest => mark .openBrace :: mark .closeBrace :: rest
  | .struct fs, rest =>
    mark .openBrace :: .space :: spellFields fs (.space :: mark .closeBrace :: rest)
  | .map k t, rest =>
    mark .openBrace :: .space :: mark .openBracket ::
      spell k (mark .closeBracket :: mark .colon :: .space ::
        spell t (.space :: mark .closeBrace :: rest))
  | .tag name, rest => word name :: mark .openBrace :: mark .closeBrace :: rest
  | .named name t, rest => word name :: mark .openBrace :: spell t (mark .closeBrace :: rest)
  | .nullable t, rest => mark .question :: inPlace .bound t (spell t) rest
  | .inter s t, rest =>
    inPlace .interLeft s (spell s)
      (.space :: mark .ampersand :: .space :: inPlace .interRight t (spell t) rest)
  | .union s t, rest =>
    spell s (.space :: mark .bar :: .space :: inPlace .unionRight t (spell t) rest)

def spellItems : List Ty → List Piece → List Piece
  | [], rest => rest
  | [t], rest => spell t rest
  | t :: ts, rest => spell t (mark .comma :: .space :: spellItems ts rest)

def spellFields : List (Field Ty) → List Piece → List Piece
  | [], rest => rest
  | [⟨name, optional, t⟩], rest => spellLabel name optional (spell t rest)
  | ⟨name, optional, t⟩ :: fs, rest =>
    spellLabel name optional (spell t (mark .comma :: .space :: spellFields fs rest))

end

def print (ty : Ty) : String := String.ofList ((spell ty []).flatMap Piece.text)

end FlowTypes.Notation
