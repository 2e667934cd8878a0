import FlowTypes.Command.Run
import FlowTypes.Suite.Run

namespace FlowTypes

/-- The files and folders of a folder, to a depth that folders do not reach in practice. What cannot
be read as text is left out. -/
def snapshot : Nat → List IO.FS.DirEntry → IO Disk
  | 0, _ | _, [] => return []
  | depth + 1, entry :: entries => do
    let here ← try
        if ← entry.path.isDir then
          let inner ← snapshot depth (← entry.path.readDir).toList
          pure [(entry.fileName, Node.folder inner)]
        else pure [(entry.fileName, Node.file (← IO.FS.readFile entry.path))]
      catch _ => pure []
    return here ++ (← snapshot (depth + 1) entries)

def workingFolder : IO Disk := do snapshot 64 (← (← IO.currentDir).readDir).toList

def Command.Request.readsFiles : Command.Request → Bool
  | .check .. | .infer .. => true
  | .accept _ _ _ bindings => bindings.isSome
  | .format .. => false

def Command.Request.readsInput (disk : Disk) : Command.Request → Bool
  | .check inputs .. | .infer inputs .. =>
    match inputs.paths disk with
    | .ok paths => paths.any Command.Inputs.isStandard
    | .error _ => false
  | _ => false

def putFile (path content : String) : IO Unit := do
  let target := (← IO.currentDir) / path
  if let some folder := target.parent then IO.FS.createDirAll folder
  IO.FS.writeFile target content

def usageText (usage : Command.Usage) : String :=
  match usage with
  | .help | .helpForNothing => "commands: check, match, infer, fmt"
  | .unknownArgument => "error: unexpected argument"
  | .unknownCommand => "error: unrecognized subcommand"
  | .repeatedArgument => "error: an argument cannot be used multiple times"
  | .missingValue => "error: a value is required"
  | .unwantedValue => "error: unexpected value"
  | .missingArgument => "error: a required argument was not provided"

def rejected (usage : Command.Usage) : IO UInt32 := do
  IO.eprintln (usageText usage)
  return usage.exit.toUInt32

def runCommand (words : List String) : IO UInt32 := do
  match Command.Request.ofWords words with
  | .error usage => rejected usage
  | .ok request =>
    let disk ← if request.readsFiles then workingFolder else pure []
    let input ← if request.readsInput disk then (← IO.getStdin).readToEnd else pure ""
    let report := Command.run request disk input
    if let some failure := report.failure then
      IO.eprintln ("Error: " ++ "\n  ".intercalate failure.causes)
    for (path, content) in Disk.changes disk report.disk do putFile path content
    IO.print report.stdout
    IO.eprint report.stderr
    return report.exit.toUInt32

def runSuites (words : List String) : IO UInt32 := do
  match Suite.run words (← workingFolder) with
  | .error usage => rejected usage
  | .ok report =>
    IO.print report.stdout
    if let some trouble := report.trouble then IO.eprintln trouble.message
    return report.exit.toUInt32

end FlowTypes

def main (words : List String) : IO UInt32 := FlowTypes.runCommand words
