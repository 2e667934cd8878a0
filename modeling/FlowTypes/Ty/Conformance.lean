import FlowTypes.Ty.Basic

namespace FlowTypes

abbrev Validator := Option Json → Bool

abbrev Validators := Entries Validator

def Validators.admits (validators : Validators) (name : String) (value : Option Json) : Bool :=
  match validators.lookup name with
  | some validator => validator value
  | none => true

/-- Every primitive type but `void` wants a value, and `any` one that is not `null`. A character is
a text of one code point. -/
def Primitive.admits : Primitive → Option Json → Bool
  | .void, value => value.isNone
  | _, none => false
  | .any, some .null => false
  | .any, some _ => true
  | .bool, some (.bool _) => true
  | .char, some (.string s) => s.length == 1
  | .int, some value => value.toDouble?.any Double.isInt32
  | .float, some value => value.toDouble?.isSome
  | .string, some (.string _) => true
  | _, some _ => false

namespace Ty

variable (bindings : Bindings) (validators : Validators)

/-- Does the value conform to the type? A generic stands for the type bound to it, else for its
bound, else for every type. There is no verdict if types have to be followed deeper than the fuel
allows. -/
def checkWithin : Nat → Ty → Option Json → Option Bool
  | 0, _, _ => none
  | fuel + 1, ty, value =>
    match ty with
    | .literal l => some (value.any l.is)
    | .primitive p => some (p.admits value)
    | .generic name =>
      match bindings.lookup name with
      | some t => checkWithin fuel t value
      | none => some true
    | .bounded name bound => checkWithin fuel ((bindings.lookup name).getD bound) value
    | .emptyTuple =>
      match value with
      | some (.array xs) => some xs.isEmpty
      | _ => some false
    | .tuple ts =>
      match value with
      | some (.array xs) =>
        if xs.length = ts.length then
          (ts.zip xs).allM fun p ↦ checkWithin fuel p.1 (some p.2)
        else some false
      | _ => some false
    | .array t size =>
      match value with
      | some (.array xs) =>
        if xs.length = size then xs.allM fun x ↦ checkWithin fuel t (some x) else some false
      | _ => some false
    | .list t =>
      match value with
      | some (.array xs) => xs.allM fun x ↦ checkWithin fuel t (some x)
      | _ => some false
    | .openStruct =>
      match value with
      | some (.object _) => some true
      | _ => some false
    | .struct fields =>
      match value with
      | some (.object members) =>
        fields.allM fun f ↦
          match members.lookup f.name with
          | none => if f.optional then some true else checkWithin fuel f.type none
          | some v => checkWithin fuel f.type (some v)
      | _ => some false
    | .map key t =>
      match value with
      | some (.object members) =>
        members.allM fun m ↦ do
          if ← checkWithin fuel key (some (.string m.1)) then checkWithin fuel t (some m.2)
          else return false
      | _ => some false
    | .tag name => some (validators.admits name value)
    | .named name inner => do
      if ← checkWithin fuel inner value then return validators.admits name value
      else return false
    | .nullable inner =>
      match value with
      | some .null => some true
      | _ => checkWithin fuel inner value
    | .inter left right => do
      if ← checkWithin fuel left value then checkWithin fuel right value else return false
    | .union left right => do
      if ← checkWithin fuel left value then return true else checkWithin fuel right value

/-- A depth that every check with a verdict stays within: no type can come up twice against one
part of the value, or it would come up without end. -/
def checkDepth (ty : Ty) (value : Option Json) : Nat :=
  ((value.map Json.size).getD 0 + 1) * (ty.size + bindings.size + 1)

def check? (ty : Ty) (value : Option Json) : Option Bool :=
  checkWithin bindings validators (checkDepth bindings ty value) ty value

end Ty

end FlowTypes
