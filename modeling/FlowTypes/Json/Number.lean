import FlowTypes.Json.Basic
import FlowTypes.Text.CharClass
import FlowTypes.Text.Quoted

namespace FlowTypes.Json

/-- Appends digits to a significand while it stays below `2 ^ 64`; also gives the number of digits
appended. -/
def gather (significand : Nat) : List Char → Nat × Nat
  | [] => (significand, 0)
  | c :: cs =>
    let next := significand * 10 + Text.digitValue c
    if next < twoPow 64 then
      let (all, count) := gather next cs
      (all, count + 1)
    else (significand, 0)

def powerOfTen (k : Nat) : Double := Double.ofDecimal false 1 k

/-- The significand times a power of ten. Powers below the smallest are taken in two steps, and a
third step would leave nothing. -/
def scale (significand : Nat) : Int → Except Fault Double
  | .ofNat k =>
    let x := Double.ofInt significand
    if x.isZero then .ok x
    else if 308 < k then .error .syntactic
    else
      let y := x.mul (powerOfTen k)
      if y.isFinite then .ok y else .error .syntactic
  | .negSucc k =>
    let x := Double.ofInt significand
    if k < 308 then .ok (x.div (powerOfTen (k + 1)))
    else if k < 616 then .ok ((x.div (powerOfTen 308)).div (powerOfTen (k - 307)))
    else .ok .zero

def readDigits (text : List Char) : Except Fault (List Char × List Char) :=
  match text.span Char.isDigit with
  | ([], []) => .error .eof
  | ([], _) => .error .syntactic
  | found => .ok found

def readWhole (text : List Char) : Except Fault (List Char × List Char) := do
  let (digits, rest) ← readDigits text
  if digits.head? = some '0' ∧ 1 < digits.length then throw .syntactic
  return (digits, rest)

def readFraction : List Char → Except Fault (Option (List Char) × List Char)
  | '.' :: rest => do
    let (digits, rest) ← readDigits rest
    return (some digits, rest)
  | rest => .ok (none, rest)

def readPower (text : List Char) : Except Fault (Int × List Char) := do
  let (negative, rest) := match text with
    | '+' :: rest => (false, rest)
    | '-' :: rest => (true, rest)
    | rest => (false, rest)
  let (digits, rest) ← readDigits rest
  let n : Int := Text.digitsValue digits
  return (if negative then -n else n, rest)

def readExponent : List Char → Except Fault (Option Int × List Char)
  | 'e' :: rest | 'E' :: rest => do
    let (n, rest) ← readPower rest
    return (some n, rest)
  | rest => .ok (none, rest)

/-- A number without a sign, negated if `negative`. An integer that fits 64 bits stays one; every
other number is its significand as a double, scaled by powers of ten, and is rounded at each step.
-/
def readUnsigned (negative : Bool) (text : List Char) : Except Fault (Json × List Char) := do
  let (whole, rest) ← readWhole text
  let (fraction, rest) ← readFraction rest
  let (power, rest) ← readExponent rest
  let (significand, gathered) := gather 0 whole
  let fits := gathered = whole.length ∧ fraction.isNone ∧ power.isNone
  if fits ∧ ¬ negative then return (.int significand, rest)
  if fits ∧ significand ≠ 0 ∧ significand ≤ twoPow 63 then return (.int (-significand), rest)
  let (significand, places) := gather significand (fraction.getD [])
  let x ← scale significand (whole.length - gathered - places + power.getD 0)
  return (.double { x with negative }, rest)

def readNumber : List Char → Except Fault (Json × List Char)
  | '-' :: rest => readUnsigned true rest
  | text => readUnsigned false text

end FlowTypes.Json
