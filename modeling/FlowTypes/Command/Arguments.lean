import FlowTypes.Entries

namespace FlowTypes.Command

inductive Usage
  | help
  | helpForNothing
  | unknownArgument
  | unknownCommand
  | repeatedArgument
  | missingValue
  | unwantedValue
  | missingArgument
deriving DecidableEq

def Usage.exit : Usage → Nat
  | .help => 0
  | _ => 2

/-- What a switch is followed by: nothing, a text, a path that is not empty, or any number of
texts. Only the last kind may be given more than once. -/
inductive Takes
  | nothing
  | text
  | path
  | texts
deriving DecidableEq

structure Switch where
  long : String
  short : Option Char
  takes : Takes

def helpSwitch : Switch := ⟨"help", some 'h', .nothing⟩

inductive Operands
  | none
  | one
  | many
deriving DecidableEq

structure Grammar where
  switches : List Switch
  required : List String
  operands : Operands

/-- What has been given so far. The last switch may still be waiting for values. -/
structure Given where
  values : Entries (List String)
  pending : Option (Switch × List String)
  operands : List String
  operandsOnly : Bool

namespace Given

def nothing : Given := ⟨[], .none, [], false⟩

def note (given : Given) (switch : Switch) (values : List String) : Except Usage Given :=
  let old := given.values.lookup switch.long
  if switch.long = helpSwitch.long then .error .help
  else if switch.takes = .texts then
    .ok { given with values := Entries.put switch.long (old.getD [] ++ values) given.values }
  else if old.isSome then .error .repeatedArgument
  else if switch.takes = .path ∧ "" ∈ values then .error .missingValue
  else .ok { given with values := Entries.put switch.long values given.values }

def settle (given : Given) : Except Usage Given :=
  match given.pending with
  | .none => .ok given
  | some (_, []) => .error .missingValue
  | some (switch, values) => note { given with pending := .none } switch values

def begin (given : Given) (switch : Switch) : Except Usage Given := do
  let given ← given.settle
  if switch.takes = .nothing then given.note switch []
  else return { given with pending := some (switch, []) }

def attach (given : Given) (switch : Switch) (value : String) : Except Usage Given := do
  if switch.takes = .nothing then throw .unwantedValue
  (← given.settle).note switch [value]

variable (grammar : Grammar)

def switchNamed? (name : String) : Option Switch :=
  (helpSwitch :: grammar.switches).find? (·.long == name)

def switchOf? (letter : Char) : Option Switch :=
  (helpSwitch :: grammar.switches).find? (·.short == some letter)

def long (given : Given) (text : List Char) : Except Usage Given :=
  let (name, rest) := text.span (· != '=')
  match switchNamed? grammar (String.ofList name), rest with
  | .none, _ => .error .unknownArgument
  | some switch, [] => given.begin switch
  | some switch, _ :: value => given.attach switch (String.ofList value)

/-- What follows one dash: letters of switches; what follows the letter of one that takes a value is
its value. -/
def shorts : List Char → Given → Except Usage Given
  | [], given => .ok given
  | letter :: rest, given =>
    match switchOf? grammar letter with
    | .none => .error .unknownArgument
    | some switch =>
      if switch.takes = .nothing then do shorts rest (← given.begin switch)
      else match rest with
        | [] => given.begin switch
        | '=' :: value => given.attach switch (String.ofList value)
        | value => given.attach switch (String.ofList value)

def operand (given : Given) (word : String) : Except Usage Given := do
  if grammar.operands = .none ∨ grammar.operands = .one ∧ given.operands ≠ [] then
    throw .unknownArgument
  let given ← given.settle
  return { given with operands := given.operands ++ [word] }

def plain (given : Given) (word : String) : Except Usage Given :=
  match given.pending with
  | some (switch, values) =>
    if switch.takes = .texts ∨ values = [] then
      .ok { given with pending := some (switch, values ++ [word]) }
    else given.operand grammar word
  | .none => given.operand grammar word

/-- Takes one more word. Two dashes alone end the switches, one dash alone is a plain word. -/
def take (given : Given) (word : String) : Except Usage Given :=
  if given.operandsOnly then given.operand grammar word
  else match word.toList with
    | ['-', '-'] => .ok { given with operandsOnly := true }
    | '-' :: '-' :: text => given.long grammar text
    | ['-'] => given.plain grammar word
    | '-' :: letters => shorts grammar letters given
    | _ => given.plain grammar word

def read (words : List String) : Except Usage Given := do
  let given ← (← words.foldlM (take grammar) nothing).settle
  if grammar.required.any fun name ↦ (given.values.lookup name).isNone then
    throw .missingArgument
  if grammar.operands = .one ∧ given.operands = [] then throw .missingArgument
  return given

end Given

namespace Given

variable (given : Given)

def has (name : String) : Bool := (given.values.lookup name).isSome

def texts (name : String) : List String := (given.values.lookup name).getD []

def text? (name : String) : Option String := (given.texts name).head?

end Given

end FlowTypes.Command
