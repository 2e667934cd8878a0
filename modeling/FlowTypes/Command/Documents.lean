import FlowTypes.Bindings.File
import FlowTypes.Command.Glob
import FlowTypes.Command.Request
import FlowTypes.Json.Pointer
import FlowTypes.Json.Query.Parser

namespace FlowTypes.Command

/-- Why a command cannot be carried out. -/
inductive Failure
  | badType (text : String) (error : Notation.Error)
  | unreadableBindings (path : String) (fault : Disk.Fault)
  | badBindings (path : String) (error : Bindings.LoadError)
  | badPattern
  | noMatch (pattern : String)
  | unreadableSource (path : String) (fault : Disk.Fault)
  | badDocument (label : String) (fault : Json.Fault)
  | badLine (label : String) (fault : Json.Fault)
  | nothingSelected (pointer label : String)
  | badQuery (label : String)
  | noDocuments
  | noFolder (fault : Disk.Fault)
  | unwritable (path : String) (fault : Disk.Fault)
  | noVerdict

def Failure.causes : Failure → List String
  | .badType text error => ["invalid type expression `" ++ text ++ "`", error.message]
  | .unreadableBindings path fault => ["failed to read generics file " ++ path, fault.message]
  | .badBindings path error => ["invalid generics file " ++ path, error.message, error.source]
  | .badPattern => ["failed to resolve input file paths", "glob error"]
  | .noMatch pattern =>
    ["failed to resolve input file paths", "glob pattern matched no files: " ++ pattern]
  | .unreadableSource path fault => ["failed to read source file " ++ path, fault.message]
  | .badDocument label fault =>
    ["failed to parse JSON source file (" ++ label ++ ")", fault.message]
  | .badLine label fault => ["failed to parse NDJSON line (" ++ label ++ ")", fault.message]
  | .nothingSelected pointer label =>
    ["JSON pointer " ++ pointer ++ " selects nothing in " ++ label]
  | .badQuery label => ["failed to apply jq expression to source file (" ++ label ++ ")"]
  | .noDocuments => ["no input documents"]
  | .noFolder fault => [fault.message]
  | .unwritable path fault => ["failed to write " ++ path, fault.message]
  | .noVerdict => ["the bindings refer to each other without end"]

structure Document where
  label : String
  value : Json

def trimReturn (line : List Char) : List Char :=
  if line.getLast? = some '\r' then line.dropLast else line

/-- The lines of a text without their ends. An end is a line feed, perhaps after a carriage return,
and the last line needs none. -/
def lines (text : String) : List String :=
  let pieces := text.toList.splitOn '\n'
  let ended := pieces.dropLast.map trimReturn
  let last := pieces.getLast?.filter (!·.isEmpty)
  (ended ++ last.toList).map String.ofList

def isBlankLine (line : String) : Bool := line.toList.all Text.isBlank

/-- The values that a query selects are documents of their own, numbered if there are several. -/
def numbered (label : String) (values : List Json) : List Document :=
  match values with
  | [] => []
  | [value] => [⟨label, value⟩]
  | _ => values.zipIdx.map fun v ↦ ⟨label ++ "#" ++ v.2.repr, v.1⟩

namespace Inputs

variable (inputs : Inputs)

def pointed (label : String) (value : Json) : Except Failure Json :=
  match inputs.pointer with
  | none => .ok value
  | some pointer =>
    match value.pointer? pointer with
    | some part => .ok part
    | none => .error (.nothingSelected pointer label)

def queried (label : String) (value : Json) : Except Failure (List Json) :=
  match inputs.query with
  | none => .ok [value]
  | some query =>
    match Json.Query.parse? query >>= (·.results? value) with
    | some values => .ok values
    | none => .error (.badQuery label)

def select (label : String) (value : Json) : Except Failure (List Document) := do
  return numbered label (← inputs.queried label (← inputs.pointed label value))

def ofLine (label : String) (line : String × Nat) : Except Failure (List Document) :=
  if isBlankLine line.1 then .ok []
  else do
    let label := label ++ ":" ++ (line.2 + 1).repr
    let value ← (Json.read line.1).mapError (.badLine label)
    inputs.select label value

def ofSource (label text : String) : Except Failure (List Document) :=
  if inputs.byLine then do
    return (← (lines text).zipIdx.mapM (inputs.ofLine label)).flatten
  else do
    let value ← (Json.read text).mapError (.badDocument label)
    inputs.select label value

def pathsOf (disk : Disk) (argument : String) : Except Failure (List String) :=
  if Glob.isPattern argument then
    match Glob.paths? disk argument with
    | none => .error .badPattern
    | some [] => .error (.noMatch argument)
    | some paths => .ok paths
  else .ok [argument]

def paths (disk : Disk) : Except Failure (List String) := do
  return (← inputs.sources.mapM (pathsOf disk)).flatten

/-- A dash stands for the standard input, also with a slash after it. -/
def isStandard (path : String) : Bool :=
  match Disk.steps path with
  | "-" :: rest => rest.all (· == ".")
  | _ => false

/-- The documents of all paths. The standard input can be read once and is empty after that. -/
def ofPaths (disk : Disk) : String → List String → Except Failure (List Document)
  | _, [] => .ok []
  | stdin, path :: paths =>
    if isStandard path then do
      let here ← inputs.ofSource "<stdin>" stdin
      return here ++ (← ofPaths disk "" paths)
    else do
      let text ← (disk.read path).mapError (.unreadableSource path)
      let here ← inputs.ofSource path text
      return here ++ (← ofPaths disk stdin paths)

def load (disk : Disk) (stdin : String) : Except Failure (List Document) := do
  inputs.ofPaths disk stdin (← inputs.paths disk)

end Inputs

end FlowTypes.Command
