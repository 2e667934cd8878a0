import FlowTypes.Notation.Lexer
import FlowTypes.Ty.Basic

namespace FlowTypes.Notation

/-- A parser takes something off the front of a list of tokens. -/
abbrev Parser (α : Type) := List Lexeme → Except Error (α × List Lexeme)

section

-- `stop` is the number of bytes of the text, which is where its end is.
variable (stop : Nat)

def offsetOf : List Lexeme → Nat
  | [] => stop
  | t :: _ => t.offset

def unexpected (expected : Expected) (tokens : List Lexeme) : Error :=
  .unexpectedToken expected (tokens.head?.map (·.token)) (offsetOf stop tokens)

def after? (mark : Mark) : List Lexeme → Option (List Lexeme)
  | [] => none
  | t :: rest => if t.token = .mark mark then some rest else none

def expect (mark : Mark) (expected : Expected) (tokens : List Lexeme) :
    Except Error (List Lexeme) :=
  match after? mark tokens with
  | some rest => .ok rest
  | none => .error (unexpected stop expected tokens)

/-- Further operands, joined to the left; the fuel bounds their number. -/
def operands (mark : Mark) (join : Ty → Ty → Ty) (operand : Parser Ty) : Nat → Ty → Parser Ty
  | 0, left, tokens => .ok (left, tokens)
  | fuel + 1, left, tokens =>
    match after? mark tokens with
    | none => .ok (left, tokens)
    | some rest => do
      let (right, rest) ← operand rest
      operands mark join operand fuel (join left right) rest

def chain (mark : Mark) (join : Ty → Ty → Ty) (operand : Parser Ty) : Parser Ty := fun tokens ↦ do
  let (left, rest) ← operand tokens
  match after? mark rest with
  | none => return (left, rest)
  | some _ => operands mark join operand rest.length left rest

def sizeOf? (text : String) : Option Nat :=
  let digits := text.toList
  if digits.all Char.isDigit && Text.digitsValue digits < twoPow 64 then
    some (Text.digitsValue digits)
  else none

def brackets : Nat → Ty → Parser Ty
  | 0, base, tokens => .ok (base, tokens)
  | fuel + 1, base, tokens =>
    match after? .openBracket tokens with
    | none => .ok (base, tokens)
    | some rest =>
      match after? .closeBracket rest with
      | some rest => brackets fuel (.list base) rest
      | none =>
        match rest with
        | ⟨.number _ text, offset, _⟩ :: rest =>
          match sizeOf? text with
          | none => .error (.invalidSize text offset)
          | some size => do
            let rest ← expect stop .closeBracket .closeBracket rest
            brackets fuel (.array base size) rest
        | _ => .error (unexpected stop .sizeOrBracket rest)

def reserved? : String → Option Ty
  | "null" => some (.literal .null)
  | "true" => some (.literal (.bool true))
  | "false" => some (.literal (.bool false))
  | word => (Primitive.ofName? word).map .primitive

def extendsWord : String := "extends"

/-- A word that no type, generic or named type may be called otherwise. -/
def isReserved (word : String) : Bool := (reserved? word).isSome || word == extendsWord

def startsUppercase (word : String) : Bool := word.toList.head?.any Text.isUppercase

variable (term : Parser Ty)

def union : Parser Ty := chain .bar .union (chain .ampersand .inter term)

def afterWord (word : String) (offset : Nat) (tokens : List Lexeme) :
    Except Error (Ty × List Lexeme) :=
  match after? .openBrace tokens with
  | some rest =>
    match after? .closeBrace rest with
    | some rest => .ok (.tag word, rest)
    | none => do
      let (inner, rest) ← union term rest
      let rest ← expect stop .closeBrace .closeBrace rest
      return (.named word inner, rest)
  | none =>
    if startsUppercase word then
      match tokens with
      | ⟨.word next, _, _⟩ :: rest =>
        if next = extendsWord then do
          let (bound, rest) ← term rest
          return (.bounded word bound, rest)
        else .ok (.generic word, tokens)
      | _ => .ok (.generic word, tokens)
    else .error (.unknownName word offset)

def items : Nat → Parser (List Ty)
  | 0, tokens => .ok ([], tokens)
  | fuel + 1, tokens =>
    match after? .closeBracket tokens with
    | some _ => .ok ([], tokens)
    | none => do
      let (item, rest) ← union term tokens
      match after? .comma rest with
      | none => return ([item], rest)
      | some rest =>
        let (more, rest) ← items fuel rest
        return (item :: more, rest)

def fieldName : Parser String
  | ⟨.word name, _, _⟩ :: rest | ⟨.string name, _, _⟩ :: rest => .ok (name, rest)
  | tokens => .error (unexpected stop .fieldName tokens)

def field : Parser (Field Ty) := fun tokens ↦ do
  let (name, rest) ← fieldName stop tokens
  let (optional, rest) := match after? .question rest with
    | some rest => (true, rest)
    | none => (false, rest)
  let rest ← expect stop .colon .colon rest
  let (type, rest) ← union term rest
  return (⟨name, optional, type⟩, rest)

/-- The fields of a struct, none of a name seen before, with a comma after each but perhaps the
last; the fuel bounds their number. -/
def fields : Nat → List String → Parser (List (Field Ty))
  | 0, _, tokens => .ok ([], tokens)
  | fuel + 1, seen, tokens =>
    match after? .closeBrace tokens with
    | some _ => .ok ([], tokens)
    | none => do
      let (f, rest) ← field stop term tokens
      if f.name ∈ seen then throw (.duplicateField f.name (offsetOf stop tokens))
      match after? .comma rest with
      | none => return ([f], rest)
      | some rest =>
        let (more, rest) ← fields fuel (f.name :: seen) rest
        return (f :: more, rest)

def braced (tokens : List Lexeme) : Except Error (Ty × List Lexeme) :=
  match after? .closeBrace tokens with
  | some rest => .ok (.openStruct, rest)
  | none =>
    match after? .openBracket tokens with
    | some rest => do
      let (key, rest) ← union term rest
      let rest ← expect stop .closeBracket .closeBracket rest
      let rest ← expect stop .colon .colon rest
      let (value, rest) ← union term rest
      let rest ← expect stop .closeBrace .closeBrace rest
      return (.map key value, rest)
    | none => do
      let (fs, rest) ← fields stop term (tokens.length + 1) [] tokens
      let rest ← expect stop .closeBrace .commaOrBrace rest
      return (.struct fs, rest)

/-- A term without prefix and brackets. -/
def primary : Parser Ty
  | ⟨.word word, offset, slice⟩ :: rest =>
    match reserved? word with
    | some ty => .ok (ty, rest)
    | none =>
      if word = extendsWord then
        .error (unexpected stop .type (⟨.word word, offset, slice⟩ :: rest))
      else afterWord stop term word offset rest
  | ⟨.number x _, _, _⟩ :: rest => .ok (.literal (.number x), rest)
  | ⟨.string s, _, _⟩ :: rest => .ok (.literal (.string s), rest)
  | ⟨.mark .openBracket, _, _⟩ :: rest => do
    let (ts, rest) ← items term (rest.length + 1) rest
    let rest ← expect stop .closeBracket .commaOrBracket rest
    return (.ofItems ts, rest)
  | ⟨.mark .openBrace, _, _⟩ :: rest => braced stop term rest
  | ⟨.mark .openParen, _, _⟩ :: rest => do
    let (ty, rest) ← union term rest
    let rest ← expect stop .closeParen .closeParen rest
    return (ty, rest)
  | tokens => .error (unexpected stop .type tokens)

end

/-- A term, with at most `depth` terms inside each other. -/
def term (stop : Nat) : Nat → Parser Ty
  | 0, tokens => .error (.tooDeep (offsetOf stop tokens))
  | depth + 1, tokens =>
    match after? .question tokens with
    | some rest => do
      let (inner, rest) ← term stop depth rest
      return (.nullable inner, rest)
    | none => do
      let (base, rest) ← primary stop (term stop depth) tokens
      match after? .openBracket rest with
      | none => return (base, rest)
      | some _ => brackets stop rest.length base rest

/-- How many terms may be inside each other. -/
def maxDepth : Nat := 256

def parseTokens (stop : Nat) (tokens : List Lexeme) : Except Error Ty := do
  if tokens.isEmpty then throw .empty
  let (ty, rest) ← union (term stop maxDepth) tokens
  if rest.isEmpty then return ty else throw (unexpected stop .endOfInput rest)

/-- The type that a text spells. `|` binds less than `&`, both to the left; `?` goes before a term
and array brackets after it, and the brackets bind more. -/
def parse (text : String) : Except Error Ty := do
  parseTokens text.utf8ByteSize (← lex text)

end FlowTypes.Notation
