namespace FlowTypes.Suite

inductive Atom
  | start
  | stop
  | any
  | char (c : Char)
deriving DecidableEq

/-- A label is picked if one of the alternatives occurs in it. -/
abbrev Filter := List (List Atom)

namespace Filter

def isSpecial (c : Char) : Bool := "()[\x7b*+?\\".toList.contains c

def atom? (c : Char) : Option Atom :=
  if c = '^' then some .start
  else if c = '$' then some .stop
  else if c = '.' then some .any
  else if isSpecial c then none
  else some (.char c)

def parse? (pattern : String) : Option Filter :=
  (pattern.toList.splitOn '|').mapM (·.mapM atom?)

def begins : List Atom → Bool → List Char → Bool
  | [], _, _ => true
  | .start :: atoms, atStart, text => atStart && begins atoms atStart text
  | .stop :: atoms, atStart, text => text.isEmpty && begins atoms atStart text
  | .any :: atoms, _, c :: text => c != '\n' && begins atoms false text
  | .char a :: atoms, _, c :: text => a == c && begins atoms false text
  | _ :: _, _, [] => false

def occurs (atoms : List Atom) : Bool → List Char → Bool
  | atStart, [] => begins atoms atStart []
  | atStart, c :: text => begins atoms atStart (c :: text) || occurs atoms false text

def picks (filter : Filter) (label : String) : Bool :=
  filter.any fun atoms ↦ occurs atoms true label.toList

end Filter

end FlowTypes.Suite
