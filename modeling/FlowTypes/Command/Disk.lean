import FlowTypes.Entries

namespace FlowTypes

inductive Node
  | file (content : String)
  | folder (entries : List (String × Node))

/-- The entries of the working folder. -/
abbrev Disk := List (String × Node)

namespace Disk

inductive Fault
  | notFound
  | isDirectory
  | alreadyExists
  | notDirectory
deriving DecidableEq

def Fault.name : Fault → String
  | .notFound => "NotFound"
  | .isDirectory => "IsADirectory"
  | .alreadyExists => "AlreadyExists"
  | .notDirectory => "NotADirectory"

def Fault.message (fault : Fault) : String := "io error: " ++ fault.name

/-- The steps of a path. An empty step, as a double or trailing slash makes it, stays where it
is. -/
def steps (path : String) : List String :=
  (path.toList.splitOn '/').map fun s ↦ if s.isEmpty then "." else String.ofList s

def names (path : String) : List String :=
  ((path.toList.splitOn '/').filter (!·.isEmpty)).map String.ofList

def isDots (name : String) : Bool := name == "." || name == ".."

def get? : List String → Disk → Option Node
  | [], disk => some (.folder disk)
  | name :: names, disk =>
    match disk.lookup name with
    | some (.folder entries) => get? names entries
    | some (.file content) => if names.isEmpty then some (.file content) else none
    | none => none

def put (node : Node) : List String → Disk → Disk
  | [], disk => disk
  | [name], disk => Entries.put name node disk
  | name :: names, disk =>
    match disk.lookup name with
    | some (.folder entries) => Entries.put name (.folder (put node names entries)) disk
    | _ => disk

/-- Where a path leads: below the working folder, by the names on the way with the last one first;
to a folder above it; or elsewhere, of which nothing is known. -/
inductive Place
  | inside (trail : List String)
  | above
  | elsewhere
deriving DecidableEq

namespace Place

def start (path : String) : Place := if path.front == '/' then .above else .inside []

def up : List String → Place
  | [] => .above
  | _ :: trail => .inside trail

def node? (disk : Disk) : Place → Option Node
  | .inside trail => disk.get? trail.reverse
  | .above => some (.folder [])
  | .elsewhere => none

def step (disk : Disk) (place : Place) (name : String) : Except Fault Place :=
  match place with
  | .elsewhere => .ok .elsewhere
  | .above => .ok (if isDots name then .above else .elsewhere)
  | .inside trail =>
    match node? disk place with
    | some (.folder entries) =>
      if name = "." then .ok place
      else if name = ".." then .ok (up trail)
      else if (entries.lookup name).isSome then .ok (.inside (name :: trail))
      else .error .notFound
    | _ => .error .notDirectory

def follow (disk : Disk) (place : Place) (names : List String) : Except Fault Place :=
  names.foldlM (step disk) place

end Place

def find (disk : Disk) (path : String) : Except Fault Node := do
  if path.isEmpty then throw .notFound
  match (← Place.follow disk (.start path) (steps path)).node? disk with
  | some node => return node
  | none => throw .notFound

def read (disk : Disk) (path : String) : Except Fault String := do
  match ← find disk path with
  | .file content => return content
  | .folder _ => throw .isDirectory

def list? (disk : Disk) (path : String) : Option (List (String × Node)) :=
  match find disk path with
  | .ok (.folder entries) => some entries
  | _ => none

/-- A change of files and folders. What has been done before a fault stays done. -/
abbrev Change := ExceptT Fault (StateM Disk)

/-- Makes the folders along a path that are not there yet. A file in the way is no folder, unless it
stands where a folder would be made: at the end of the path, or beyond a folder just made. What is
outside of the working folder is left alone. -/
def makeFolders : Bool → Place → List String → Change Unit
  | made, .inside trail, name :: rest =>
    if name = ".." then makeFolders made (.up trail) rest
    else do
      match (← get).get? (name :: trail).reverse with
      | some (.folder _) => makeFolders made (.inside (name :: trail)) rest
      | some (.file _) => throw (if made || rest.isEmpty then .alreadyExists else .notDirectory)
      | none =>
        modify (put (.folder []) (name :: trail).reverse)
        makeFolders true (.inside (name :: trail)) rest
  | _, _, _ => return ()

def makeParent (path : String) : Change Unit :=
  makeFolders false (.start path) ((names path).filter (· != ".")).dropLast

/-- Writes a file to a place where its folder is. A path that ends in a slash or in dots can only
name a folder. What is outside of the working folder is not kept. -/
def writeAt (place : Place) (name : String) (onlyFolder : Bool) (content : String) :
    Change Unit := do
  match place.node? (← get), place with
  | some (.file _), _ => throw .notDirectory
  | some (.folder entries), .inside trail =>
    match onlyFolder, entries.lookup name with
    | true, _ | _, some (.folder _) => throw .isDirectory
    | false, _ => modify (put (.file content) (name :: trail).reverse)
  | _, _ => if onlyFolder then throw .isDirectory else return ()

def write (path content : String) : Change Unit := do
  match (names path).getLast? with
  | none => throw (if path.isEmpty then .notFound else .isDirectory)
  | some name =>
    let place ← Place.follow (← get) (.start path) (names path).dropLast
    writeAt place name (isDots name || path.toList.getLast? == some '/') content

mutual

/-- All files by their paths; `base` goes in front of each. -/
def filesUnder (base : String) : List (String × Node) → List (String × String)
  | [] => []
  | (name, node) :: entries => nodeFiles (base ++ name) node ++ filesUnder base entries

def nodeFiles (path : String) : Node → List (String × String)
  | .file content => [(path, content)]
  | .folder entries => filesUnder (path ++ "/") entries

end

def files (disk : Disk) : List (String × String) := filesUnder "" disk

/-- The files of `after` that `before` does not have, or has with another content. -/
def changes (before after : Disk) : List (String × String) :=
  (files after).filter fun f ↦ (files before).lookup f.1 != some f.2

/-- Adds files, with the folders they need. Paths that clash are left out. -/
def ofFiles (files : List (String × String)) : Disk :=
  files.foldl (fun disk f ↦
    match (makeParent f.1 *> write f.1 f.2).run disk with
    | (.ok (), disk) => disk
    | (.error _, _) => disk) []

mutual

/-- The number of files and folders. -/
def size : List (String × Node) → Nat
  | [] => 0
  | (_, node) :: entries => nodeSize node + size entries

def nodeSize : Node → Nat
  | .file _ => 1
  | .folder entries => size entries + 1

end

end Disk

end FlowTypes
