import FlowTypes.Command.Disk

namespace FlowTypes.Glob

abbrev CharSet := List (Char × Char)

inductive Part
  | char (c : Char)
  | one
  | many
  | within (set : CharSet)
  | outside (set : CharSet)
deriving DecidableEq

/-- A step of a pattern: any number of folders, as `**` stands for, or a name, in which `?` stands
for one character and `*` for many. -/
inductive Step
  | folders
  | name (parts : List Part)
deriving DecidableEq

def CharSet.contains (set : CharSet) (c : Char) : Bool := set.any fun r ↦ r.1 ≤ c && c ≤ r.2

def parseSet : List Char → CharSet
  | a :: '-' :: b :: rest => (a, b) :: parseSet rest
  | a :: rest => (a, a) :: parseSet rest
  | [] => []

/-- The members of a set up to its closing bracket. The first one may be a closing bracket. -/
def splitSet : List Char → Option (CharSet × List Char)
  | [] => none
  | first :: rest =>
    match rest.span (· != ']') with
    | (more, _ :: rest) => some (parseSet (first :: more), rest)
    | (_, []) => none

/-- The parts of a name; the fuel bounds their number. A set that is not closed is an error, and so
are two stars in a row. -/
def parseParts : Nat → List Char → Option (List Part)
  | _, [] => some []
  | 0, _ :: _ => none
  | fuel + 1, c :: rest =>
    match c, rest with
    | '?', _ => (parseParts fuel rest).map (.one :: ·)
    | '*', '*' :: _ => none
    | '*', _ => (parseParts fuel rest).map (.many :: ·)
    | '[', '!' :: rest => do
      let (set, rest) ← splitSet rest
      return .outside set :: (← parseParts fuel rest)
    | '[', _ => do
      let (set, rest) ← splitSet rest
      return .within set :: (← parseParts fuel rest)
    | _, _ => (parseParts fuel rest).map (.char c :: ·)

def parseStep (step : List Char) : Option Step :=
  if step = ['*', '*'] then some .folders else (parseParts step.length step).map .name

/-- The steps of a pattern, and whether it ends in a slash and so means folders only. A double slash
makes an empty step. -/
def parse? (pattern : String) : Option (List Step × Bool) := do
  let parts := pattern.toList.splitOn '/'
  let ended := pattern.toList.getLast? == some '/'
  return (← (if ended then parts.dropLast else parts).mapM parseStep, ended)

def suffixes {α : Type} : List α → List (List α)
  | [] => [[]]
  | a :: as => (a :: as) :: suffixes as

def matchesName : List Part → List Char → Bool
  | [], name => name.isEmpty
  | .many :: parts, name => (suffixes name).any fun rest ↦ matchesName parts rest
  | _ :: _, [] => false
  | .char a :: parts, c :: name => a == c && matchesName parts name
  | .one :: parts, _ :: name => matchesName parts name
  | .within set :: parts, c :: name => set.contains c && matchesName parts name
  | .outside set :: parts, c :: name => !set.contains c && matchesName parts name

def literal? : List Part → Option (List Char)
  | [] => some []
  | .char c :: parts => (literal? parts).map (c :: ·)
  | _ :: _ => none

def isHere (path : String) : Bool := path.front == '.' && (Disk.steps path).all (· == ".")

def attach (path name : String) : String :=
  if path.toList.getLast? = some '/' then path ++ name else path ++ "/" ++ name

def join (path name : String) : String := if isHere path then name else attach path name

section

variable (disk : Disk) (foldersOnly : Bool)

def isFolder (path : String) : Bool := (disk.list? path).isSome

def result (path : String) : List String :=
  if foldersOnly && !isFolder disk path then [] else [path]

def children (path : String) : Option (List String) :=
  (disk.list? path).map fun entries ↦ (Entries.names entries).mergeSort (· ≤ ·)

/-- The names of a folder itself and of the one above it, which only a step that begins with a dot
stands for. -/
def dotNames (parts : List Part) : List String :=
  if parts.head? = some (.char '.') then
    ["..", "."].filter fun name ↦ matchesName parts name.toList
  else []

/-- The paths that steps lead to from a folder, entries in the order of their names and each before
what is inside it; the fuel bounds the depth. -/
def expand : Nat → List Step → String → List String
  | 0, _, _ => []
  | _, [], path => result disk foldersOnly path
  | fuel + 1, .name parts :: steps, path =>
    match literal? parts with
    | some name =>
      let name := String.ofList name
      let next := join path name
      let isThere :=
        if name = "." ∨ name = ".." then isFolder disk path else (disk.find next).toBool
      if isThere then expand fuel steps next else []
    | none =>
      match children disk path with
      | none => []
      | some names =>
        ((dotNames parts).flatMap fun name ↦ expand fuel steps (attach path name)) ++
          names.flatMap fun name ↦
            if matchesName parts name.toList then expand fuel steps (join path name) else []
  | fuel + 1, .folders :: steps, path =>
    match children disk path with
    | none => []
    | some names =>
      let steps := steps.dropWhile (· == .folders)
      names.flatMap fun name ↦
        let next := join path name
        let here := match steps with
          | [] => if isFolder disk next then [next] else []
          | .name parts :: steps =>
            if matchesName parts name.toList then expand fuel steps next else []
          | .folders :: _ => []
        here ++ expand fuel (.folders :: steps) next

end

/-- The paths that a pattern stands for; none if it is malformed. Nothing is known of patterns from
the root of the file system. -/
def paths? (disk : Disk) (pattern : String) : Option (List String) := do
  let (steps, foldersOnly) ← parse? pattern
  if pattern.front == '/' then return []
  return expand disk foldersOnly ((steps.length + 1) * (Disk.size disk + 2)) steps "."

def isPattern (argument : String) : Bool :=
  argument.toList.any fun c ↦ c == '*' || c == '?' || c == '[' || c == '{'

end FlowTypes.Glob
