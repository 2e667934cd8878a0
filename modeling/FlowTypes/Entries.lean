namespace FlowTypes

abbrev Entries (α : Type) := List (String × α)

namespace Entries

variable {α : Type}

/-- A new name goes to the end; a known one keeps its place and takes the new value. -/
def put (name : String) (value : α) : Entries α → Entries α
  | [] => [(name, value)]
  | (other, old) :: rest =>
    if other == name then (other, value) :: rest else (other, old) :: put name value rest

/-- A name given twice keeps its first place and its last value. -/
def collect (pairs : List (String × α)) : Entries α :=
  pairs.foldl (fun entries p ↦ put p.1 p.2 entries) []

def names (entries : Entries α) : List String := entries.map (·.1)

end Entries

end FlowTypes
