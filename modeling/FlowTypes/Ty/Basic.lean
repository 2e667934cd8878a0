import FlowTypes.Json.Basic

namespace FlowTypes

inductive Primitive
  | any
  | void
  | bool
  | char
  | int
  | float
  | string
deriving DecidableEq

namespace Primitive

def all : List Primitive := [.any, .void, .bool, .char, .int, .float, .string]

def name : Primitive → String
  | .any => "any"
  | .void => "void"
  | .bool => "bool"
  | .char => "char"
  | .int => "int"
  | .float => "float"
  | .string => "string"

def ofName? (word : String) : Option Primitive := all.find? (·.name == word)

end Primitive

inductive Literal
  | null
  | bool (value : Bool)
  | number (value : Double)
  | string (value : String)
deriving DecidableEq

namespace Literal

def same : Literal → Literal → Bool
  | .null, .null => true
  | .bool a, .bool b => a == b
  | .number a, .number b => a.same b
  | .string a, .string b => a == b
  | _, _ => false

def is : Literal → Json → Bool
  | .null, .null => true
  | .bool a, .bool b => a == b
  | .number a, value => value.toDouble?.any a.equal
  | .string a, .string b => a == b
  | _, _ => false

/-- The literal as a JSON value. A number that is not finite has none and becomes `null`. -/
def toJson : Literal → Json
  | .null => .null
  | .bool b => .bool b
  | .number x => if x.isFinite then .double x else .null
  | .string s => .string s

end Literal

structure Field (α : Type) where
  name : String
  optional : Bool
  type : α

/-- A type. A generic stands for a type bound elsewhere and may have a bound of its own; a tag is
a named type without inner type. The empty tuple is not the tuple of no items, nor is the open
struct the struct of no fields, although each pair is written alike. -/
inductive Ty
  | literal (value : Literal)
  | primitive (kind : Primitive)
  | generic (name : String)
  | bounded (name : String) (bound : Ty)
  | emptyTuple
  | tuple (items : List Ty)
  | array (item : Ty) (size : Nat)
  | list (item : Ty)
  | openStruct
  | struct (fields : List (Field Ty))
  | map (key value : Ty)
  | tag (name : String)
  | named (name : String) (inner : Ty)
  | nullable (inner : Ty)
  | inter (left right : Ty)
  | union (left right : Ty)

abbrev Bindings := Entries Ty

namespace Ty

def ofItems : List Ty → Ty
  | [] => .emptyTuple
  | items => .tuple items

/-- A struct of these fields, the open struct if there are none. -/
def ofFields : List (Field Ty) → Ty
  | [] => .openStruct
  | fields => .struct fields

def field? (name : String) (fields : List (Field Ty)) : Option (Field Ty) :=
  fields.find? (·.name == name)

/-- What a type of unknown shape may turn out to be. -/
def anything : Ty := .nullable (.primitive .any)

mutual

def size : Ty → Nat
  | .literal _ | .primitive _ | .generic _ | .emptyTuple | .openStruct | .tag _ => 1
  | .bounded _ t | .array t _ | .list t | .named _ t | .nullable t => size t + 1
  | .tuple ts => sizeItems ts + 1
  | .struct fs => sizeFields fs + 1
  | .map a b | .inter a b | .union a b => size a + size b + 1

def sizeItems : List Ty → Nat
  | [] => 0
  | t :: ts => size t + sizeItems ts

def sizeFields : List (Field Ty) → Nat
  | [] => 0
  | ⟨_, _, t⟩ :: fs => size t + sizeFields fs

end

mutual

/-- Equality of types. The order of a struct's fields is free, and number literals are the same
if they are numerically equal. -/
def same : Ty → Ty → Bool
  | .literal a, .literal b => a.same b
  | .primitive a, .primitive b => a == b
  | .generic a, .generic b => a == b
  | .bounded a s, .bounded b t => a == b && same s t
  | .emptyTuple, .emptyTuple => true
  | .tuple ss, .tuple ts => sameItems ss ts
  | .array s m, .array t n => same s t && m == n
  | .list s, .list t => same s t
  | .openStruct, .openStruct => true
  | .struct fs, .struct gs => fs.length == gs.length && sameFields fs gs
  | .map k s, .map l t => same k l && same s t
  | .tag a, .tag b => a == b
  | .named a s, .named b t => a == b && same s t
  | .nullable s, .nullable t => same s t
  | .inter s s', .inter t t' => same s t && same s' t'
  | .union s s', .union t t' => same s t && same s' t'
  | _, _ => false

def sameItems : List Ty → List Ty → Bool
  | [], [] => true
  | s :: ss, t :: ts => same s t && sameItems ss ts
  | _, _ => false

def sameFields : List (Field Ty) → List (Field Ty) → Bool
  | [], _ => true
  | ⟨name, optional, s⟩ :: fs, gs =>
    (match field? name gs with
      | some g => optional == g.optional && same s g.type
      | none => false) && sameFields fs gs

end

def isNullable : Ty → Bool
  | .nullable _ => true
  | .literal l => l == .null
  | .named _ t => isNullable t
  | .inter s t => isNullable s && isNullable t
  | .union s t => isNullable s || isNullable t
  | _ => false

end Ty

def Bindings.size (bindings : Bindings) : Nat := bindings.foldr (fun b n ↦ b.2.size + n) 0

end FlowTypes
