import FlowTypes.Json.Reader
import FlowTypes.Notation.Parser

namespace FlowTypes

def Json.Fault.name : Json.Fault → String
  | .eof => "Eof"
  | .syntactic => "Syntax"
  | .data => "Data"

def Json.Fault.message (fault : Json.Fault) : String := "json error: " ++ fault.name

namespace Bindings

/-- Where in the object a fault was found: before its first name or at a missing colon, where a
name, a comma or the end was due, or in the value of a name. -/
inductive Place
  | top
  | between
  | value (name : String)
deriving DecidableEq

def Place.path : Place → String
  | .top => "."
  | .between => "?"
  | .value name => name

inductive LoadError
  | json (place : Place) (fault : Json.Fault)
  | type (name : String) (error : Notation.Error)
deriving DecidableEq

namespace LoadError

def source : LoadError → String
  | .json _ fault => fault.message
  | .type _ error => error.message

def message : LoadError → String
  | .json place fault => "at JSON path " ++ place.path ++ " → " ++ fault.message
  | .type name error => "generic `" ++ name ++ "` → " ++ error.message

end LoadError

/-- The fault of a value of the wrong kind. A malformed scalar is that before it is anything
else. -/
def wrongKind : List Char → Json.Fault
  | '[' :: _ | '{' :: _ => .data
  | text =>
    match Json.readScalar text with
    | .ok _ => .data
    | .error fault => fault

def readString (text : List Char) : Except Json.Fault (String × List Char) :=
  match Json.skipSpace text with
  | '"' :: rest => Text.Quoted.read rest
  | text => .error (wrongKind text)

def readColon (text : List Char) : Except Json.Fault (List Char) :=
  match Json.skipSpace text with
  | [] => .error .eof
  | ':' :: rest => .ok rest
  | _ => .error .syntactic

def readKey (text : List Char) : Except Json.Fault (String × List Char) :=
  match Json.skipSpace text with
  | [] => .error .eof
  | '"' :: rest => Text.Quoted.read rest
  | _ => .error .syntactic

def readPairs : Nat → List Char → Except LoadError (List (String × String))
  | 0, _ => .error (.json .between .eof)
  | fuel + 1, text => do
    let (name, rest) ← (readKey text).mapError (.json .between)
    let rest ← (readColon rest).mapError (.json .top)
    let (value, rest) ← (readString rest).mapError (.json (.value name))
    match Json.skipSpace rest with
    | [] => throw (.json .between .eof)
    | ',' :: rest =>
      let pairs ← readPairs fuel rest
      return (name, value) :: pairs
    | '}' :: _ => return [(name, value)]
    | _ => throw (.json .between .syntactic)

def readTexts (text : String) : Except LoadError (Entries String) := do
  match Json.skipSpace text.toList with
  | '{' :: rest =>
    match Json.skipSpace rest with
    | '}' :: _ => return []
    | rest => return Entries.collect (← readPairs (rest.length + 1) rest)
  | text => throw (.json .top (wrongKind text))

def parseEntry (entry : String × String) : Except LoadError (String × Ty) :=
  match Notation.parse entry.2 with
  | .ok ty => .ok (entry.1, ty)
  | .error error => .error (.type entry.1 error)

/-- The bindings that a text holds. The object is read whole before any type is parsed, and what
follows it is not looked at. -/
def load (text : String) : Except LoadError Bindings := do
  (← readTexts text).mapM parseEntry

end Bindings

end FlowTypes
