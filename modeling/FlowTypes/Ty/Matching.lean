import FlowTypes.Ty.Conformance

namespace FlowTypes

/-- How a match is done: whether `null` is already welcome, and whether the generics of the
receiving type are bound to what they receive. -/
structure Mode where
  nullable : Bool
  resolving : Bool
deriving DecidableEq

namespace Mode

def reading : Mode := ⟨false, false⟩

def resolve : Mode := ⟨false, true⟩

def welcomeNull (mode : Mode) : Mode := { mode with nullable := true }

end Mode

/-- A step that reads and writes bindings, if the session has any, and may have no verdict. -/
abbrev Session := StateT (Option Bindings) Option

namespace Session

def both (first second : Session Bool) : Session Bool := do
  if ← first then second else return false

def either (first second : Session Bool) : Session Bool := do
  if ← first then return true else second

def isolated (step : Session Bool) : Session Bool := fun bindings ↦ do
  let (verdict, _) ← step none
  return (verdict, bindings)

def assign (name : String) (ty : Ty) : Session Bool := do
  modify (·.map (Entries.put name ty))
  return true

end Session

namespace Ty

open Session

/-- Types that `any` does not receive at once, since they may describe `null`. -/
def mayHideNull : Ty → Bool
  | .generic _ | .bounded .. | .tag _ | .named .. | .nullable _ | .inter .. => true
  | .literal l => l == .null
  | _ => false

variable (go : Mode → Ty → Ty → Session Bool)

def receiveBound (mode : Mode) (bound : Option Ty) (received : Ty) : Session Bool :=
  match bound with
  | some t => go mode t received
  | none => return true

/-- A generic receives what the type bound to it does, else what its bound does. If it is being
resolved, it takes what its bound receives, and is bound to it or widened by it. -/
def receiveGeneric (mode : Mode) (name : String) (bound : Option Ty) (received : Ty) :
    Session Bool := do
  let viaBound := receiveBound go mode bound received
  match (← get).map (·.lookup name), mode.resolving with
  | none, _ | some none, false => viaBound
  | some none, true => both viaBound (assign name received)
  | some (some old), false => go mode old received
  | some (some old), true =>
    both viaBound (either (go mode old received) (assign name (.union old received)))

def receiveFields (mode : Mode) (fields others : List (Field Ty)) : Session Bool :=
  fields.allM fun f ↦
    match field? f.name others with
    | some g => if f.optional || !g.optional then go mode f.type g.type else return false
    | none => return f.optional

def receiveByShape (check : Ty → Json → Session Bool) (mode : Mode) (receiving : Ty) :
    Ty → Session Bool
  | .literal l =>
    match receiving with
    | .literal k => return k.same l
    | _ => if mode.nullable && l == .null then return true else check receiving l.toJson
  | .primitive q =>
    match receiving with
    | .primitive p => return p == q
    | _ => return false
  | .generic _ => go mode receiving anything
  | .bounded _ bound => go mode receiving bound
  | .emptyTuple =>
    match receiving with
    | .emptyTuple => return true
    | _ => return false
  | .tuple ts =>
    match receiving with
    | .tuple ss =>
      if ss.length = ts.length then
        (ss.zip ts).allM fun p ↦ isolated (go .reading p.1 p.2)
      else return false
    | _ => return false
  | .array t n =>
    match receiving with
    | .array s m => if m = n then go .reading s t else return false
    | _ => return false
  | .list t =>
    match receiving with
    | .list s => go .reading s t
    | _ => return false
  | .openStruct =>
    match receiving with
    | .openStruct => return true
    | .struct fields => receiveFields go mode fields []
    | _ => return false
  | .struct others =>
    match receiving with
    | .openStruct => return true
    | .struct fields => receiveFields go mode fields others
    | _ => return false
  | .map l t =>
    match receiving with
    | .map k s => both (go .reading k l) (go .reading s t)
    | _ => return false
  | .tag b =>
    match receiving with
    | .tag a => return a == b
    | _ => return false
  | .named b t =>
    match receiving with
    | .named a s => if a = b then go mode s t else return false
    | .tag _ => return false
    | _ => go mode receiving t
  | .nullable t => if mode.nullable then go mode receiving t else return false
  | .inter l r =>
    let mode := if l.isNullable != r.isNullable then mode.welcomeNull else mode
    either (go mode receiving l) (go mode receiving r)
  | .union _ _ => return false

def receive (check : Ty → Json → Session Bool) (mode : Mode) (receiving received : Ty) :
    Session Bool :=
  match receiving with
  | .primitive .any =>
    if received.mayHideNull then receiveByShape go check mode receiving received else return true
  | .generic name => receiveGeneric go mode name none received
  | .bounded name bound => receiveGeneric go mode name (some bound) received
  | .nullable t => go mode.welcomeNull t received
  | .inter l r => both (go mode l received) (go mode r received)
  | .union l r =>
    let mode := if l.isNullable || r.isNullable then mode.welcomeNull else mode
    either (go mode l received) (go mode r received)
  | _ => receiveByShape go check mode receiving received

/-- Each alternative of a received union has to be received. A nullable union or intersection is
taken apart into nullable parts. -/
def receiveParts (check : Ty → Json → Session Bool) (mode : Mode) (receiving : Ty) :
    Ty → Session Bool
  | .nullable (.union l r) =>
    both (go mode receiving (.nullable l)) (go mode receiving (.nullable r))
  | .nullable (.inter l r) =>
    either (go mode receiving (.nullable l)) (go mode receiving (.nullable r))
  | .union l r => both (go mode receiving l) (go mode receiving r)
  | received => receive go check mode receiving received

def checkInSession (fuel : Nat) (ty : Ty) (value : Json) : Session Bool := fun bindings ↦ do
  let verdict ← checkWithin (bindings.getD []) [] fuel ty (some value)
  return (verdict, bindings)

def acceptWithin : Nat → Mode → Ty → Ty → Session Bool
  | 0, _, _, _ => failure
  | fuel + 1, mode, receiving, received =>
    receiveParts (acceptWithin fuel) (checkInSession fuel) mode receiving received

/-- A depth that matches are given to reach their verdict. What is bound may lead to other bindings
in many ways, and on each of them a generic may be widened once more. -/
def acceptDepth (receiving received : Ty) (bindings : Option Bindings) : Nat :=
  let bound := (bindings.getD []).size
  let size := receiving.size + received.size + bound + 4
  size * size * size * twoPow (2 * bound)

/-- Does the receiving type accept the received one? Gives the verdict and the bindings after it.
There is none if bindings refer to each other without end. -/
def accept? (mode : Mode) (receiving received : Ty) (bindings : Option Bindings) :
    Option (Bool × Option Bindings) :=
  (acceptWithin (acceptDepth receiving received bindings) mode receiving received).run bindings

def accepts (receiving received : Ty) : Bool :=
  match accept? .reading receiving received none with
  | some (verdict, _) => verdict
  | none => false

end Ty

end FlowTypes
