import FlowTypes.Json.Reader
import FlowTypes.Json.Writer

namespace FlowTypes.Json

/-- An item without an index is one whose index fits no array. -/
inductive Query
  | identity
  | nothing
  | member (of : Query) (name : String)
  | item (of : Query) (index : Option Int)
  | each (of : Query)
  | pipe (first second : Query)
  | also (first second : Query)

def member? (name : String) : Json → Option Json
  | .object members => some ((members.lookup name).getD .null)
  | _ => none

/-- A missing item is `null`; only an array has items. A negative index counts from the end. -/
def item? (index : Option Int) : Json → Option Json
  | .array items => do
    let index ← index
    let place := if index < 0 then index + items.length else index
    return if place < 0 then .null else (items[place.toNat]?).getD .null
  | _ => none

def each? : Json → Option (List Json)
  | .array items => some items
  | .object members => some (members.map (·.2))
  | _ => none

/-- The value as its text reads. Only numbers can differ from what was written. -/
def reread? (value : Json) : Option Json := (read value.compact).toOption

namespace Query

def run : Query → Json → Option (List Json)
  | .identity, value => some [value]
  | .nothing, _ => some []
  | .member of name, value => do (← run of value).mapM (member? name)
  | .item of index, value => do (← run of value).mapM (item? index)
  | .each of, value => do return (← (← run of value).mapM each?).flatten
  | .pipe first second, value => do return (← (← run first value).mapM (run second)).flatten
  | .also first second, value => do return (← run first value) ++ (← run second value)

def results? (query : Query) (value : Json) : Option (List Json) := do
  (← query.run value).mapM reread?

end Query

end FlowTypes.Json
