import FlowTypes.Json.Query
import FlowTypes.Text.CharClass

namespace FlowTypes.Json.Query

/-- A token of a query. A name that follows a point at once is one token with it, and a number that
is too large for an index has none. -/
inductive Token
  | point
  | member (name : String)
  | word (name : String)
  | text (value : String)
  | number (index : Option Nat)
  | minus
  | bar
  | comma
  | openBracket
  | closeBracket
deriving DecidableEq

def startsName (c : Char) : Bool := c.isAlpha || c == '_'

def continuesName (c : Char) : Bool := c.isAlphanum || c == '_'

def unescape? (c : Char) : Option Char :=
  [('"', '"'), ('\\', '\\'), ('/', '/'), ('b', '\x08'), ('f', '\x0c'), ('n', '\n'), ('r', '\r'),
    ('t', '\t')].lookup c

def scalar? (unit : Nat) : Option Char :=
  if 0xD800 ≤ unit ∧ unit ≤ 0xDFFF then none else some (Char.ofNat unit)

def readEscape : List Char → Option (Char × List Char)
  | 'u' :: rest => do
    let (unit, rest) ← (Text.Quoted.readUnit rest).toOption
    return (← scalar? unit, rest)
  | c :: rest => do return (← unescape? c, rest)
  | [] => none

/-- The text up to the closing quote and what follows it; the fuel bounds the characters read. Every
character may stand for itself but a quote and a backslash. -/
def readText : Nat → List Char → Option (List Char × List Char)
  | 0, _ | _, [] => none
  | fuel + 1, c :: rest =>
    if c = '"' then some ([], rest)
    else if c = '\\' then do
      let (c, rest) ← readEscape rest
      let (cs, rest) ← readText fuel rest
      return (c :: cs, rest)
    else do
      let (cs, rest) ← readText fuel rest
      return (c :: cs, rest)

def index? (digits : List Char) : Option Nat :=
  let n := Text.digitsValue digits
  if n < twoPow 63 then some n else none

def isOperator (c : Char) : Bool := "|=!<>+-*/%".toList.contains c

def operator? (text : List Char) : Option Token := [(['|'], .bar), (['-'], .minus)].lookup text

def nextToken : List Char → Option (Token × List Char)
  | '.' :: '.' :: _ => none
  | '.' :: rest =>
    match rest.span continuesName with
    | (c :: name, after) =>
      if startsName c then some (.member (String.ofList (c :: name)), after)
      else some (.point, rest)
    | ([], _) => some (.point, rest)
  | ',' :: rest => some (.comma, rest)
  | '[' :: rest => some (.openBracket, rest)
  | ']' :: rest => some (.closeBracket, rest)
  | '"' :: rest => do
    let (cs, rest) ← readText rest.length rest
    return (.text (String.ofList cs), rest)
  | [] => none
  | c :: rest =>
    if startsName c then
      let (name, rest) := rest.span continuesName
      some (.word (String.ofList (c :: name)), rest)
    else if c.isDigit then
      let (digits, rest) := rest.span Char.isDigit
      some (.number (index? (c :: digits)), rest)
    else if isOperator c then
      let (more, rest) := rest.span isOperator
      do return (← operator? (c :: more), rest)
    else none

def lexWithin : Nat → List Char → Option (List Token)
  | fuel, text =>
    match text.dropWhile Text.isBlank with
    | [] => some []
    | c :: rest =>
      match fuel with
      | 0 => none
      | fuel + 1 => do
        let (token, rest) ← nextToken (c :: rest)
        return token :: (← lexWithin fuel rest)

def lex (text : String) : Option (List Token) := lexWithin text.toList.length text.toList

def steps? (query : Query) : List Token → Option Query
  | [] => some query
  | .member name :: rest => steps? (.member query name) rest
  | .point :: .text name :: rest => steps? (.member query name) rest
  | .openBracket :: .closeBracket :: rest => steps? (.each query) rest
  | .openBracket :: .text name :: .closeBracket :: rest => steps? (.member query name) rest
  | .openBracket :: .number n :: .closeBracket :: rest =>
    steps? (.item query (n.map Int.ofNat)) rest
  | .openBracket :: .minus :: .number n :: .closeBracket :: rest =>
    steps? (.item query (n.map fun n ↦ -Int.ofNat n)) rest
  | _ => none

def path? : List Token → Option Query
  | .point :: .text name :: rest => steps? (.member .identity name) rest
  | .point :: rest => steps? .identity rest
  | .member name :: rest => steps? (.member .identity name) rest
  | .word name :: rest => if name = "empty" then steps? .nothing rest else none
  | _ => none

def joined? (mark : Token) (join : Query → Query → Query) (part? : List Token → Option Query)
    (tokens : List Token) : Option Query := do
  match ← (tokens.splitOn mark).mapM part? with
  | [] => none
  | first :: rest => return rest.foldl join first

def parse? (text : String) : Option Query := do
  joined? .bar .pipe (joined? .comma .also path?) (← lex text)

end FlowTypes.Json.Query
