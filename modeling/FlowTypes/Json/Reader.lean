import FlowTypes.Json.Number

namespace FlowTypes.Json

/-- A reader takes a value off the front of a text. -/
abbrev Reader (α : Type) := List Char → Except Fault (α × List Char)

def isSpace (c : Char) : Bool := c == ' ' || c == '\t' || c == '\n' || c == '\r'

def skipSpace (text : List Char) : List Char := text.dropWhile isSpace

def readWord : List Char → List Char → Except Fault (List Char)
  | [], text => .ok text
  | c :: cs, text => do readWord cs (← Text.Quoted.readChar c text)

/-- The items of an array up to its end. The first text bounds their number by its length. -/
def readItems (value : Reader Json) : List Char → Reader (List Json)
  | [], _ => .error .eof
  | _ :: fuel, text => do
    let (item, rest) ← value (skipSpace text)
    match skipSpace rest with
    | [] => throw .eof
    | ',' :: rest =>
      let (items, rest) ← readItems value fuel rest
      return (item :: items, rest)
    | ']' :: rest => return ([item], rest)
    | _ => throw .syntactic

def readName (text : List Char) : Except Fault (String × List Char) :=
  match skipSpace text with
  | [] => .error .eof
  | '"' :: rest => do
    let (name, rest) ← Text.Quoted.read rest
    match skipSpace rest with
    | [] => throw .eof
    | ':' :: rest => return (name, rest)
    | _ => throw .syntactic
  | _ => .error .syntactic

def readMembers (value : Reader Json) : List Char → Reader (List (String × Json))
  | [], _ => .error .eof
  | _ :: fuel, text => do
    let (name, rest) ← readName text
    let (item, rest) ← value (skipSpace rest)
    match skipSpace rest with
    | [] => throw .eof
    | ',' :: rest =>
      let (members, rest) ← readMembers value fuel rest
      return ((name, item) :: members, rest)
    | '}' :: rest => return ([(name, item)], rest)
    | _ => throw .syntactic

def readScalar (text : List Char) : Except Fault (Json × List Char) :=
  match text with
  | [] => .error .eof
  | 'n' :: rest => do return (.null, ← readWord ['u', 'l', 'l'] rest)
  | 't' :: rest => do return (.bool true, ← readWord ['r', 'u', 'e'] rest)
  | 'f' :: rest => do return (.bool false, ← readWord ['a', 'l', 's', 'e'] rest)
  | '"' :: rest => do
    let (s, rest) ← Text.Quoted.read rest
    return (.string s, rest)
  | c :: _ => if c == '-' || c.isDigit then readNumber text else .error .syntactic

/-- A value at the front of the text, with at most `depth` arrays and objects inside each other. -/
def readValue : Nat → Reader Json
  | depth, '[' :: text =>
    match depth, skipSpace text with
    | 0, _ => .error .syntactic
    | _, ']' :: rest => .ok (.array [], rest)
    | depth + 1, text => do
      let (items, rest) ← readItems (readValue depth) text text
      return (.array items, rest)
  | depth, '{' :: text =>
    match depth, skipSpace text with
    | 0, _ => .error .syntactic
    | _, '}' :: rest => .ok (.object [], rest)
    | depth + 1, text => do
      let (members, rest) ← readMembers (readValue depth) text text
      return (.object members, rest)
  | _, text => readScalar text

def maxDepth : Nat := 127

/-- The value at the front of a text; what follows it is not looked at. -/
def readFirst (text : String) : Except Fault Json := do
  let (value, _) ← readValue maxDepth (skipSpace text.toList)
  return value

/-- A text that is one value, in which a name given twice keeps its first place and last value. -/
def read (text : String) : Except Fault Json := do
  let (value, rest) ← readValue maxDepth (skipSpace text.toList)
  if (skipSpace rest).isEmpty then return value.dedup else throw .syntactic

end FlowTypes.Json
