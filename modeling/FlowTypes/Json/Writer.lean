import FlowTypes.Json.Basic
import FlowTypes.Number.Decimal
import FlowTypes.Text.Quoted

namespace FlowTypes.Json

/-- Orders of magnitude from `-5` to `15` are written positionally, with at least one decimal; all
others as a power of ten. A value midway between two decimals takes the even one. What is not
finite is `null`. -/
def writeDouble (x : Double) : List Char :=
  if !x.isFinite then "null".toList
  else
    let d := Decimal.shortest .even x
    let whole := if d.scale < 0 then [] else ['.', '0']
    (if x.negative then ['-'] else []) ++
      if x.isZero ∨ -5 ≤ d.order ∧ d.order < 16 then d.positional ++ whole else d.scientific

def writeString (s : String) : List Char := Text.Quoted.write s.toList

def writeInt (n : Int) : List Char :=
  (if n < 0 then ['-'] else []) ++ Nat.toDigits 10 n.natAbs

/-- Where the parts of an array or object go: a line break before each at the given depth, or
nothing. -/
structure Layout where
  newline : Nat → List Char
  colon : List Char

def Layout.compact : Layout := ⟨fun _ ↦ [], [':']⟩

def Layout.indented : Layout :=
  ⟨fun depth ↦ '\n' :: List.replicate (2 * depth) ' ', [':', ' ']⟩

variable (layout : Layout)

mutual

def write (depth : Nat) : Json → List Char → List Char
  | .null, rest => "null".toList ++ rest
  | .bool b, rest => (if b then "true".toList else "false".toList) ++ rest
  | .int n, rest => writeInt n ++ rest
  | .double x, rest => writeDouble x ++ rest
  | .string s, rest => writeString s ++ rest
  | .array [], rest => '[' :: ']' :: rest
  | .array items, rest =>
    '[' :: writeItems (depth + 1) items (layout.newline depth ++ ']' :: rest)
  | .object [], rest => '{' :: '}' :: rest
  | .object members, rest =>
    '{' :: writeMembers (depth + 1) members (layout.newline depth ++ '}' :: rest)

def writeItems (depth : Nat) : List Json → List Char → List Char
  | [], rest => rest
  | [item], rest => layout.newline depth ++ write depth item rest
  | item :: items, rest =>
    layout.newline depth ++ write depth item (',' :: writeItems depth items rest)

def writeMembers (depth : Nat) : List (String × Json) → List Char → List Char
  | [], rest => rest
  | [(name, value)], rest =>
    layout.newline depth ++ writeString name ++ layout.colon ++ write depth value rest
  | (name, value) :: members, rest =>
    layout.newline depth ++ writeString name ++ layout.colon ++
      write depth value (',' :: writeMembers depth members rest)

end

def compact (value : Json) : String := String.ofList (write .compact 0 value [])

def pretty (value : Json) : String := String.ofList (write .indented 0 value [])

end FlowTypes.Json
