import FlowTypes.Command.Arguments
import FlowTypes.Command.Disk
import FlowTypes.Notation.Parser
import FlowTypes.Notation.Printer
import FlowTypes.Suite.Case
import FlowTypes.Suite.Filter
import FlowTypes.Ty.Matching

namespace FlowTypes.Suite

/-- Why a run ends before its last case. -/
inductive Trouble
  | badFilter
  | unlistable (folder : String)
  | unreadable (path : String)
  | invalid (path : String)
  | badType (text : String)
  | noVerdict

def Trouble.message : Trouble → String
  | .badFilter => "Error: invalid --filter"
  | .unlistable folder => "Error: failed to list " ++ folder
  | .unreadable path => "Error: failed to read suite " ++ path
  | .invalid path => "Error: invalid suite " ++ path
  | .badType text => "Error: fixture type `" ++ text ++ "` does not parse"
  | .noVerdict => "Error: the bindings refer to each other without end"

/-- How many cases had the expected outcome, had another one, and were not picked. -/
structure Tally where
  passed : Nat
  failed : Nat
  skipped : Nat

structure Log where
  lines : List String
  tally : Tally

/-- A step of a run. What was logged before trouble stays. -/
abbrev Runner := ExceptT Trouble (StateM Log)

def parseType (text : String) : Except Trouble Ty :=
  (Notation.parse text).mapError fun _ ↦ .badType text

def parseBindings (texts : Entries String) : Except Trouble Bindings :=
  texts.mapM fun t ↦ do return (t.1, ← parseType t.2)

def verdictText (verdict : Bool) : String := if verdict then "true" else "false"

def unexpected (expected got : Bool) : String :=
  "expected " ++ verdictText expected ++ ", got " ++ verdictText got

def CheckCase.run (case : CheckCase) : Except Trouble (Option String) := do
  let ty ← parseType case.type
  let bindings ← parseBindings case.bindings
  match ty.check? bindings [] (if case.absent then none else some case.value) with
  | none => throw .noVerdict
  | some got => return if got = case.expect then none else some (unexpected case.expect got)

def misbound (bindings : Bindings) (expected : String × Ty) : Option String :=
  match bindings.lookup expected.1 with
  | none => some (expected.1 ++ " left unbound")
  | some ty =>
    if ty.same expected.2 then none
    else some (expected.1 ++ " bound to " ++ Notation.print ty ++ ", expected " ++
      Notation.print expected.2)

def differs (bindings expected : Bindings) : Option String :=
  if bindings.length = expected.length then expected.findSome? (misbound bindings)
  else some ("expected " ++ expected.length.repr ++ " bindings, got " ++ bindings.length.repr)

/-- What is wrong with the outcome of a match, if anything. The bindings are looked at only if the
verdict is as expected. -/
def MatchCase.run (case : MatchCase) : Except Trouble (Option String) := do
  let receiving ← parseType case.receiving
  let received ← parseType case.received
  let bindings ← parseBindings case.bindings
  match Ty.accept? ⟨false, case.resolve⟩ receiving received (some bindings) with
  | none => throw .noVerdict
  | some (got, after) =>
    if got = case.expect then
      match case.result with
      | none => return none
      | some texts => return differs (after.getD []) (← parseBindings texts)
    else return some (unexpected case.expect got)

def Log.skip (log : Log) : Log :=
  { log with tally := { log.tally with skipped := log.tally.skipped + 1 } }

def Log.print (line : String) (log : Log) : Log := { log with lines := log.lines ++ [line] }

def Log.report (label : String) (wrong : Option String) (log : Log) : Log :=
  match wrong with
  | none =>
    { log.print ("ok   " ++ label) with
      tally := { log.tally with passed := log.tally.passed + 1 } }
  | some reason =>
    { log.print ("FAIL " ++ label ++ ": " ++ reason) with
      tally := { log.tally with failed := log.tally.failed + 1 } }

abbrev Case := String × Except Trouble (Option String)

def cases (suite : Suite) : List Case :=
  suite.checks.map (fun c ↦ (c.label, c.run)) ++ suite.matchings.map fun c ↦ (c.label, c.run)

def runCase (picks : String → Bool) (case : Case) : Runner Unit := do
  if picks case.1 then
    match case.2 with
    | .ok wrong => modify (Log.report case.1 wrong)
    | .error trouble => throw trouble
  else modify Log.skip

def loadSuite (disk : Disk) (path : String) : Except Trouble Suite :=
  match disk.read path with
  | .error _ => .error (.unreadable path)
  | .ok text =>
    match read? text with
    | some suite => .ok suite
    | none => .error (.invalid path)

def runSuite (picks : String → Bool) (disk : Disk) (path : String) : Runner Unit := do
  match loadSuite disk path with
  | .error trouble => throw trouble
  | .ok suite =>
    modify (Log.print ("# " ++ path))
    suite.cases.forM (runCase picks)

def runSuites (picks : String → Bool) (disk : Disk) (paths : List String) : Runner Unit :=
  paths.forM (runSuite picks disk)

def Tally.line (tally : Tally) : String :=
  "\n" ++ tally.passed.repr ++ " passed, " ++ tally.failed.repr ++ " failed, " ++
    tally.skipped.repr ++ " filtered out"

structure Report where
  trouble : Option Trouble
  exit : Nat
  stdout : String

def unlines (lines : List String) : String := String.join (lines.map (· ++ "\n"))

/-- A run succeeds if it comes to its end and no case has failed. -/
def report (picks : String → Bool) (disk : Disk) (paths : List String) : Report :=
  match (runSuites picks disk paths).run ⟨[], ⟨0, 0, 0⟩⟩ with
  | (.error trouble, log) => ⟨some trouble, 1, unlines log.lines⟩
  | (.ok (), log) =>
    ⟨none, if log.tally.failed = 0 then 0 else 1, unlines (log.lines ++ [log.tally.line])⟩

def grammar : Command.Grammar where
  switches := [⟨"filter", none, .text⟩]
  required := []
  operands := .many

def arguments (words : List String) : Except Command.Usage (Option String × List String) := do
  let given ← Command.Given.read grammar words
  if "" ∈ given.operands then throw .missingValue
  return (given.text? "filter", given.operands)

/-- The folder of the suites to run if a command line names none, seen from the working folder. -/
def fixtures : String := "fixtures"

/-- Does a name have the extension `json`? A name has no extension if its only dot comes first. -/
def isSuiteName (name : String) : Bool :=
  ".json".toList.isSuffixOf name.toList && name != ".json"

def suitesIn (disk : Disk) (folder : String) : Except Trouble (List String) :=
  match disk.list? folder with
  | none => .error (.unlistable folder)
  | some entries =>
    let names := (Entries.names entries).filter isSuiteName
    .ok ((names.mergeSort (· ≤ ·)).map (folder ++ "/" ++ ·))

def picks? : Option String → Option (String → Bool)
  | none => some fun _ ↦ true
  | some pattern => (Filter.parse? pattern).map Filter.picks

/-- Runs what a command line asks for: the suites that it names, or those in `fixtures`. -/
def run (words : List String) (disk : Disk) : Except Command.Usage Report := do
  let (filter, paths) ← arguments words
  match picks? filter, if paths.isEmpty then suitesIn disk fixtures else .ok paths with
  | none, _ => return ⟨some .badFilter, 1, ""⟩
  | _, .error trouble => return ⟨some trouble, 1, ""⟩
  | some picks, .ok paths => return report picks disk paths

end FlowTypes.Suite
