import FlowTypes.Command.Documents
import FlowTypes.Json.Writer
import FlowTypes.Notation.Printer
import FlowTypes.Ty.Inference
import FlowTypes.Ty.Tree

namespace FlowTypes.Command

/-- What has been printed so far, and the files as they are. -/
structure World where
  stdout : String
  stderr : String
  disk : Disk

/-- A step of a run. What it has printed and written before it fails stays. -/
abbrev Action := ExceptT Failure (StateM World)

namespace Action

def say (line : String) : Action Unit :=
  modify fun world ↦ { world with stdout := world.stdout ++ (line ++ "\n") }

def remark (line : String) : Action Unit :=
  modify fun world ↦ { world with stderr := world.stderr ++ (line ++ "\n") }

def change (step : Disk.Change Unit) (failure : Disk.Fault → Failure) : Action Unit := fun world ↦
  let (result, disk) := step world.disk
  (result.mapError failure, { world with disk })

end Action

open FlowTypes.Command.Action

def parseType (text : String) : Except Failure Ty :=
  (Notation.parse text).mapError (.badType text)

def loadBindings (disk : Disk) (path : String) : Except Failure Bindings := do
  let text ← (disk.read path).mapError (.unreadableBindings path)
  (Bindings.load text).mapError (.badBindings path)

def loadBindings? (disk : Disk) : Option String → Except Failure Bindings
  | none => .ok []
  | some path => loadBindings disk path

def render (asTree : Bool) (ty : Ty) : String :=
  if asTree then ty.toTree.pretty else Notation.print ty

def exitCode (success : Bool) : Nat := if success then 0 else 1

def judge (bindings : Bindings) (ty : Ty) (documents : List Document) :
    Except Failure (List Bool) :=
  documents.mapM fun document ↦
    match ty.check? bindings [] (some document.value) with
    | some verdict => .ok verdict
    | none => .error .noVerdict

def sayVerdict (quiet : Bool) (failed : Nat) (judged : Document × Bool) : Action Nat := do
  if judged.2 then
    unless quiet do say ("pass " ++ judged.1.label)
    return failed
  else
    say ("fail " ++ judged.1.label)
    return failed + 1

/-- Judges every document by a type, and then says all verdicts. -/
def runCheck (inputs : Inputs) (type : String) (bindings : Option String) (quiet : Bool)
    (stdin : String) : Action Nat := do
  let ty ← parseType type
  let bindings ← loadBindings? (← get).disk bindings
  let documents ← inputs.load (← get).disk stdin
  let verdicts ← judge bindings ty documents
  let failed ← (documents.zip verdicts).foldlM (sayVerdict quiet) 0
  remark ((documents.length - failed).repr ++ " of " ++ documents.length.repr ++
    " documents conform to " ++ Notation.print ty)
  return exitCode (failed = 0)

def bindingLine (binding : String × Ty) : String :=
  binding.1 ++ " = " ++ Notation.print binding.2

def runAccept (receiving received : String) (resolve : Bool) (bindings : Option String) :
    Action Nat := do
  let receiving ← parseType receiving
  let received ← parseType received
  let bindings ← loadBindings? (← get).disk bindings
  match Ty.accept? ⟨false, resolve⟩ receiving received (some bindings) with
  | none => throw .noVerdict
  | some (verdict, after) =>
    say (if verdict then "true" else "false")
    if resolve then (after.getD []).forM fun binding ↦ say (bindingLine binding)
    return exitCode verdict

def deliver (out : Option String) (text : String) : Action Unit :=
  match out with
  | none => say text
  | some path => do
    change (Disk.makeParent path) .noFolder
    change (Disk.write path text) (.unwritable path)

def runInfer (inputs : Inputs) (asTree : Bool) (out : Option String) (stdin : String) :
    Action Nat := do
  let documents ← inputs.load (← get).disk stdin
  match Inference.ofValues (documents.map (·.value)) with
  | none => throw .noDocuments
  | some ty =>
    deliver out (render asTree ty)
    return 0

def runFormat (type : String) (asTree : Bool) : Action Nat := do
  let ty ← parseType type
  say (render asTree ty)
  return 0

def carryOut (request : Request) (stdin : String) : Action Nat :=
  match request with
  | .check inputs type bindings quiet => runCheck inputs type bindings quiet stdin
  | .accept receiving received resolve bindings => runAccept receiving received resolve bindings
  | .infer inputs asTree out => runInfer inputs asTree out stdin
  | .format type asTree => runFormat type asTree

structure Report extends World where
  failure : Option Failure
  exit : Nat

def run (request : Request) (disk : Disk) (stdin : String) : Report :=
  match (carryOut request stdin).run ⟨"", "", disk⟩ with
  | (.ok exit, world) => ⟨world, none, exit⟩
  | (.error failure, world) => ⟨world, some failure, 1⟩

end FlowTypes.Command
