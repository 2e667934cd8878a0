import FlowTypes.Json.Basic
import FlowTypes.Text.CharClass

namespace FlowTypes.Json

/-- In a step of a pointer, `~1` stands for a slash and `~0` for a tilde. -/
def unescapeStep : List Char → List Char
  | [] => []
  | '~' :: '1' :: rest => '/' :: unescapeStep rest
  | '~' :: '0' :: rest => '~' :: unescapeStep rest
  | c :: rest => c :: unescapeStep rest

def index? (step : List Char) : Option Nat :=
  if step.isEmpty || !step.all Char.isDigit || step.head? == some '0' && step != ['0'] then none
  else some (Text.digitsValue step)

def follow? (value : Json) (step : List Char) : Option Json :=
  match value with
  | .object members => members.lookup (String.ofList step)
  | .array items => do items[← index? step]?
  | _ => none

/-- The part of a value that a pointer selects. The empty pointer selects it all, and every other
one begins with a slash. -/
def pointer? (pointer : String) (value : Json) : Option Json :=
  match pointer.toList with
  | [] => some value
  | '/' :: steps => ((steps.splitOn '/').map unescapeStep).foldlM follow? value
  | _ => none

end FlowTypes.Json
