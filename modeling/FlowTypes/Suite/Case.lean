import FlowTypes.Json.Reader
import FlowTypes.Json.Writer

namespace FlowTypes

/-- A check of a value, or of none, against a type. -/
structure Suite.CheckCase where
  name : Option String
  type : String
  value : Json
  absent : Bool
  bindings : Entries String
  expect : Bool

/-- A match of two types, perhaps with the bindings it is expected to end with. -/
structure Suite.MatchCase where
  name : Option String
  receiving : String
  received : String
  resolve : Bool
  bindings : Entries String
  result : Option (Entries String)
  expect : Bool

structure Suite where
  checks : List Suite.CheckCase
  matchings : List Suite.MatchCase

namespace Suite

def CheckCase.label (case : CheckCase) : String :=
  case.name.getD ("check " ++ case.type ++ " <- " ++
    if case.absent then "(absent)" else case.value.compact)

def MatchCase.label (case : MatchCase) : String :=
  case.name.getD ("match " ++ case.receiving ++ " <- " ++ case.received)

def string? : Json → Option String
  | .string s => some s
  | _ => none

def bool? : Json → Option Bool
  | .bool b => some b
  | _ => none

def list? : Json → Option (List Json)
  | .array items => some items
  | _ => none

def orNull? {α : Type} (read : Json → Option α) : Json → Option (Option α)
  | .null => some none
  | value => (read value).map some

def texts? : Json → Option (Entries String)
  | .object members => do
    let texts ← members.mapM fun m ↦ do return (m.1, ← string? m.2)
    return (Entries.collect texts).mergeSort fun a b ↦ a.1 ≤ b.1
  | _ => none

/-- The members of an object, or the items of an array under the names in their order. Every name
is known and given once. -/
def record? (names : List String) : Json → Option (Entries Json)
  | .object members =>
    if members.all (fun m ↦ names.contains m.1) && (Entries.names members).Nodup then some members
    else none
  | .array items => if items.length ≤ names.length then some (names.zip items) else none
  | _ => none

variable {α : Type}

def required? (members : Entries Json) (name : String) (read : Json → Option α) : Option α := do
  read (← members.lookup name)

def default? (members : Entries Json) (name : String) (read : Json → Option α) (value : α) :
    Option α :=
  match members.lookup name with
  | none => some value
  | some member => read member

def checkCase? (json : Json) : Option CheckCase := do
  let members ← record? ["name", "type", "value", "absent", "generics", "expect"] json
  return {
    name := ← default? members "name" (orNull? string?) none
    type := ← required? members "type" string?
    value := ← default? members "value" (fun v ↦ some v.dedup) .null
    absent := ← default? members "absent" bool? false
    bindings := ← default? members "generics" texts? []
    expect := ← required? members "expect" bool? }

def matchCase? (json : Json) : Option MatchCase := do
  let members ← record?
    ["name", "receiving", "received", "resolve", "generics", "bindings", "expect"] json
  return {
    name := ← default? members "name" (orNull? string?) none
    receiving := ← required? members "receiving" string?
    received := ← required? members "received" string?
    resolve := ← default? members "resolve" bool? false
    bindings := ← default? members "generics" texts? []
    result := ← default? members "bindings" (orNull? texts?) none
    expect := ← required? members "expect" bool? }

def ofJson? (json : Json) : Option Suite := do
  let members ← record? ["check", "match"] json
  let checks ← default? members "check" list? []
  let matchings ← default? members "match" list? []
  return ⟨← checks.mapM checkCase?, ← matchings.mapM matchCase?⟩

def read? (text : String) : Option Suite := do
  match Json.readFirst text with
  | .ok json => ofJson? json
  | .error _ => none

end Suite

end FlowTypes
