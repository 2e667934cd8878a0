import FlowTypes.Ty.Basic

namespace FlowTypes.Ty

def node (kind : String) (data : Json) : Json := .object [("type", .string kind), ("data", data)]

mutual

def toTree : Ty → Json
  | .literal l => node "literal" l.toJson
  | .primitive p => node "primitive" (.string p.name)
  | .generic name => node "generic" (.object [("name", .string name)])
  | .bounded name bound =>
    node "generic" (.object [("name", .string name), ("extends", toTree bound)])
  | .emptyTuple => node "tuple" .null
  | .tuple items => node "tuple" (.array (itemTrees items))
  | .array item size => node "array" (.object [("element", toTree item), ("size", .int size)])
  | .list item => node "list" (toTree item)
  | .openStruct => node "struct" .null
  | .struct fields => node "struct" (.object (fieldTrees fields))
  | .map key value => node "map" (.object [("key", toTree key), ("value", toTree value)])
  | .tag name => node "named" (.object [("name", .string name)])
  | .named name inner => node "named" (.object [("name", .string name), ("inner", toTree inner)])
  | .nullable inner => node "nullable" (toTree inner)
  | .inter left right =>
    node "intersection" (.object [("left", toTree left), ("right", toTree right)])
  | .union left right => node "union" (.object [("left", toTree left), ("right", toTree right)])

def itemTrees : List Ty → List Json
  | [] => []
  | item :: items => toTree item :: itemTrees items

def fieldTrees : List (Field Ty) → List (String × Json)
  | [] => []
  | ⟨name, optional, type⟩ :: fields =>
    (name, .object [("type", toTree type), ("optional", .bool optional)]) :: fieldTrees fields

end

def literalOfTree? : Json → Option Literal
  | .null => some .null
  | .bool b => some (.bool b)
  | .string s => some (.string s)
  | value => value.toDouble?.map .number

def string? : Json → Option String
  | .string s => some s
  | _ => none

/-- A word out of a fixed list. It may also be the one name of an object, over `null`, or over an
empty object in parts that are read late. -/
def word? (late : Bool) : Json → Option String
  | .string s => some s
  | .object [(name, .null)] => some name
  | .object [(name, .object [])] => if late then some name else none
  | _ => none

/-- Do the parts of a node stand before its kind? They are then read late, once that is known. -/
def partsFirst : Json → Bool
  | .object members => (Entries.names members).find? (["type", "data"].contains ·) == some "data"
  | _ => false

def size? : Json → Option Nat
  | .int (.ofNat n) => some n
  | _ => none

def flag? : Option Json → Option Bool
  | none => some false
  | some (.bool b) => some b
  | _ => none

variable (late : Bool) (go : Json → Option Ty)

def part? (data : Option Json) (name : String) : Option Ty := do go (← (← data).get? name)

def namedOfTree? (bare : String → Ty) (full : String → Ty → Ty) (inner : String)
    (data : Option Json) : Option Ty := do
  let data ← data
  let name ← string? (← data.get? "name")
  match data.get? inner with
  | none | some .null => return bare name
  | some t => return full name (← go t)

def fieldOfTree? (member : String × Json) : Option (Field Ty) := do
  let type ← go (← member.2.get? "type")
  let optional ← flag? (member.2.get? "optional")
  return ⟨member.1, optional, type⟩

/-- A type by its kind and its parts. Only a tuple and a struct may leave out their parts. -/
def ofNode? (kind : String) (data : Option Json) : Option Ty :=
  match kind with
  | "literal" => do return .literal (← literalOfTree? (← data))
  | "primitive" => do return .primitive (← Primitive.ofName? (← word? late (← data)))
  | "generic" => namedOfTree? go .generic .bounded "extends" data
  | "tuple" =>
    match data with
    | none | some .null => some .emptyTuple
    | some (.array items) => do return .tuple (← items.mapM go)
    | _ => none
  | "array" => do
    let item ← part? go data "element"
    let size ← size? (← (← data).get? "size")
    return .array item size
  | "list" => do return .list (← go (← data))
  | "struct" =>
    match data with
    | none | some .null => some .openStruct
    | some (.object members) => do return .struct (← members.mapM (fieldOfTree? go))
    | _ => none
  | "map" => do return .map (← part? go data "key") (← part? go data "value")
  | "named" => namedOfTree? go .tag .named "inner" data
  | "nullable" => do return .nullable (← go (← data))
  | "intersection" => do return .inter (← part? go data "left") (← part? go data "right")
  | "union" => do return .union (← part? go data "left") (← part? go data "right")
  | _ => none

def ofTreeWithin : Nat → Bool → Json → Option Ty
  | 0, _, _ => none
  | fuel + 1, late, tree => do
    let kind ← word? late (← tree.get? "type")
    let late := late || partsFirst tree
    ofNode? late (ofTreeWithin fuel late) kind (tree.get? "data")

def ofTree? (tree : Json) : Option Ty := ofTreeWithin tree.size false tree

end FlowTypes.Ty
