import FlowTypes.Command.Arguments

namespace FlowTypes.Command

/-- Which documents to load, and what to take from each. -/
structure Inputs where
  byLine : Bool
  pointer : Option String
  query : Option String
  sources : List String

inductive Request
  | check (inputs : Inputs) (type : String) (bindings : Option String) (quiet : Bool)
  | accept (receiving received : String) (resolve : Bool) (bindings : Option String)
  | infer (inputs : Inputs) (asTree : Bool) (out : Option String)
  | format (type : String) (asTree : Bool)

namespace Request

def inputSwitches : List Switch :=
  [⟨"ndjson", none, .nothing⟩, ⟨"json-pointer", none, .text⟩, ⟨"jq-expr", none, .text⟩,
    ⟨"input", some 'i', .texts⟩]

def checkGrammar : Grammar where
  switches := inputSwitches ++
    [⟨"type", some 't', .text⟩, ⟨"generics", none, .path⟩, ⟨"quiet", some 'q', .nothing⟩]
  required := ["input", "type"]
  operands := .none

def matchGrammar : Grammar where
  switches :=
    [⟨"receiving", none, .text⟩, ⟨"received", none, .text⟩, ⟨"resolve", none, .nothing⟩,
      ⟨"generics", none, .path⟩]
  required := ["receiving", "received"]
  operands := .none

def inferGrammar : Grammar where
  switches := inputSwitches ++ [⟨"json", none, .nothing⟩, ⟨"out", some 'o', .path⟩]
  required := ["input"]
  operands := .none

def formatGrammar : Grammar where
  switches := [⟨"json", none, .nothing⟩]
  required := []
  operands := .one

def inputsOf (given : Given) : Inputs where
  byLine := given.has "ndjson"
  pointer := given.text? "json-pointer"
  query := given.text? "jq-expr"
  sources := given.texts "input"

def commands : List String := ["check", "match", "infer", "fmt", "help"]

def ofCommand (command : String) (words : List String) : Except Usage Request :=
  match command with
  | "check" => do
    let given ← Given.read checkGrammar words
    return .check (inputsOf given) ((given.text? "type").getD "") (given.text? "generics")
      (given.has "quiet")
  | "match" => do
    let given ← Given.read matchGrammar words
    return .accept ((given.text? "receiving").getD "") ((given.text? "received").getD "")
      (given.has "resolve") (given.text? "generics")
  | "infer" => do
    let given ← Given.read inferGrammar words
    return .infer (inputsOf given) (given.has "json") (given.text? "out")
  | "fmt" => do
    let given ← Given.read formatGrammar words
    return .format (given.operands.headD "") (given.has "json")
  | "help" =>
    match words with
    | [] => .error .help
    | [command] => .error (if command ∈ commands then .help else .unknownCommand)
    | _ => .error .unknownCommand
  | _ => .error .unknownCommand

def ofWords (words : List String) : Except Usage Request :=
  match words with
  | [] | ["--"] => .error .helpForNothing
  | "--" :: word :: _ => .error (if word ∈ commands then .unknownArgument else .unknownCommand)
  | word :: rest =>
    match word.toList with
    | '-' :: _ :: _ => do
      let _ ← Given.take ⟨[], [], .none⟩ .nothing word
      .error .unknownArgument
    | _ => ofCommand word rest

end Request

end FlowTypes.Command
