import FlowTypes.Ty.Matching

namespace FlowTypes

namespace Ty

/-- Items whose types accept the first one and are accepted by it make an array, others a tuple. -/
def ofSamples : List Ty → Ty
  | [] => .emptyTuple
  | first :: rest =>
    if (first :: rest).all fun t ↦ accepts first t && accepts t first then
      .array first (rest.length + 1)
    else .tuple (first :: rest)

mutual

def ofJson : Json → Ty
  | .null => .literal .null
  | .bool _ => .primitive .bool
  | .int _ | .double _ => .primitive .float
  | .string _ => .primitive .string
  | .array items => ofSamples (ofItemsJson items)
  | .object members => ofFields (ofMembersJson members)

def ofItemsJson : List Json → List Ty
  | [] => []
  | item :: items => ofJson item :: ofItemsJson items

def ofMembersJson : List (String × Json) → List (Field Ty)
  | [] => []
  | (name, value) :: members => ⟨name, false, ofJson value⟩ :: ofMembersJson members

end

def infer : Option Json → Ty
  | none => .primitive .void
  | some value => ofJson value

end Ty

/-- The type that covers the samples seen so far, as what one generic is bound to. -/
structure Inference where
  seen : Bindings

namespace Inference

def sample : String := "T"

def start : Inference := ⟨[]⟩

def observe (inference : Inference) (value : Json) : Inference :=
  match Ty.accept? .resolve (.generic sample) (.ofJson value) (some inference.seen) with
  | some (_, some bindings) => ⟨bindings⟩
  | _ => inference

def solve (inference : Inference) : Option Ty := inference.seen.lookup sample

def ofValues (values : List Json) : Option Ty := (values.foldl observe start).solve

end Inference

end FlowTypes
