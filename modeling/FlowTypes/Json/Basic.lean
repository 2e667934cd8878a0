import FlowTypes.Entries
import FlowTypes.Number.Double

namespace FlowTypes

/-- JSON values. A number is an integer if it was written as one that fits 64 bits, else a double.
-/
inductive Json
  | null
  | bool (value : Bool)
  | int (value : Int)
  | double (value : Double)
  | string (value : String)
  | array (items : List Json)
  | object (members : List (String × Json))

namespace Json

def toDouble? : Json → Option Double
  | .int n => some (.ofInt n)
  | .double x => some x
  | _ => none

def orNull (value : Option Json) : Json := value.getD .null

def get? (name : String) : Json → Option Json
  | .object members => members.lookup name
  | _ => none

mutual

/-- Equality of values as written: an integer is no double, and the order of members is free. -/
def equal : Json → Json → Bool
  | .null, .null => true
  | .bool a, .bool b => a == b
  | .int a, .int b => a == b
  | .double a, .double b => a.equal b
  | .string a, .string b => a == b
  | .array as, .array bs => equalItems as bs
  | .object as, .object bs => as.length == bs.length && equalMembers as bs
  | _, _ => false

def equalItems : List Json → List Json → Bool
  | [], [] => true
  | a :: as, b :: bs => equal a b && equalItems as bs
  | _, _ => false

def equalMembers : List (String × Json) → List (String × Json) → Bool
  | [], _ => true
  | (name, a) :: as, bs =>
    (match bs.lookup name with
      | some b => equal a b
      | none => false) && equalMembers as bs

end

mutual

/-- Within each object, a name given twice keeps its first place and its last value. -/
def dedup : Json → Json
  | .array items => .array (dedupItems items)
  | .object members => .object (Entries.collect (dedupMembers members))
  | value => value

def dedupItems : List Json → List Json
  | [] => []
  | item :: items => dedup item :: dedupItems items

def dedupMembers : List (String × Json) → List (String × Json)
  | [] => []
  | (name, value) :: members => (name, dedup value) :: dedupMembers members

end

mutual

def size : Json → Nat
  | .array items => sizeItems items + 1
  | .object members => sizeMembers members + 1
  | _ => 1

def sizeItems : List Json → Nat
  | [] => 0
  | item :: items => size item + sizeItems items

def sizeMembers : List (String × Json) → Nat
  | [] => 0
  | (_, value) :: members => size value + sizeMembers members

end

end Json

end FlowTypes
