namespace FlowTypes

/-- What is wrong with a JSON text: it ends too early, it is malformed, or it is well formed and of
the wrong kind. -/
inductive Json.Fault
  | eof
  | syntactic
  | data
deriving DecidableEq

namespace Text.Quoted

def hexDigit (n : Nat) : Char := Nat.digitChar n

def escape (c : Char) : List Char :=
  if c = '"' then ['\\', '"']
  else if c = '\\' then ['\\', '\\']
  else if c = '\x08' then ['\\', 'b']
  else if c = '\x0c' then ['\\', 'f']
  else if c = '\n' then ['\\', 'n']
  else if c = '\r' then ['\\', 'r']
  else if c = '\t' then ['\\', 't']
  else if c.toNat < 32 then
    ['\\', 'u', '0', '0', hexDigit (c.toNat / 16), hexDigit (c.toNat % 16)]
  else [c]

def write (text : List Char) : List Char := '"' :: text.flatMap escape ++ ['"']

def hexValue? (c : Char) : Option Nat :=
  if c.isDigit then some (c.toNat - 48)
  else if 'a' ≤ c ∧ c ≤ 'f' then some (c.toNat - 87)
  else if 'A' ≤ c ∧ c ≤ 'F' then some (c.toNat - 55)
  else none

def byteCount (text : List Char) : Nat := text.foldr (fun c n ↦ c.utf8Size + n) 0

/-- Four hexadecimal digits. Fewer than four bytes are a text that ends too early. -/
def readUnit : List Char → Except Json.Fault (Nat × List Char)
  | a :: b :: c :: d :: rest =>
    match hexValue? a, hexValue? b, hexValue? c, hexValue? d with
    | some a, some b, some c, some d => .ok (((a * 16 + b) * 16 + c) * 16 + d, rest)
    | _, _, _, _ => .error .syntactic
  | short => .error (if byteCount short < 4 then .eof else .syntactic)

def readChar (expected : Char) : List Char → Except Json.Fault (List Char)
  | [] => .error .eof
  | c :: rest => if c = expected then .ok rest else .error .syntactic

def readScalar (text : List Char) : Except Json.Fault (Char × List Char) := do
  let (high, rest) ← readUnit text
  if high < 0xD800 ∨ 0xDFFF < high then return (Char.ofNat high, rest)
  if 0xDC00 ≤ high then throw .syntactic
  let rest ← readChar '\\' rest
  let rest ← readChar 'u' rest
  let (low, rest) ← readUnit rest
  if low < 0xDC00 ∨ 0xDFFF < low then throw .syntactic
  return (Char.ofNat ((high - 0xD800) * 0x400 + (low - 0xDC00) + 0x10000), rest)

def readEscape : List Char → Except Json.Fault (Char × List Char)
  | [] => .error .eof
  | '"' :: rest => .ok ('"', rest)
  | '\\' :: rest => .ok ('\\', rest)
  | '/' :: rest => .ok ('/', rest)
  | 'b' :: rest => .ok ('\x08', rest)
  | 'f' :: rest => .ok ('\x0c', rest)
  | 'n' :: rest => .ok ('\n', rest)
  | 'r' :: rest => .ok ('\r', rest)
  | 't' :: rest => .ok ('\t', rest)
  | 'u' :: rest => readScalar rest
  | _ :: _ => .error .syntactic

/-- The text up to the closing quote and what follows it. The first argument bounds the characters
read by its length, so that the text itself can be given as its bound. -/
def readUpTo : List Char → List Char → Except Json.Fault (List Char × List Char)
  | [], _ | _, [] => .error .eof
  | _ :: fuel, c :: rest =>
    if c = '"' then .ok ([], rest)
    else if c = '\\' then do
      let (c, rest) ← readEscape rest
      let (cs, rest) ← readUpTo fuel rest
      return (c :: cs, rest)
    else if c.toNat < 32 then .error .syntactic
    else do
      let (cs, rest) ← readUpTo fuel rest
      return (c :: cs, rest)

def read (text : List Char) : Except Json.Fault (String × List Char) := do
  let (cs, rest) ← readUpTo text text
  return (String.ofList cs, rest)

end Text.Quoted

end FlowTypes
