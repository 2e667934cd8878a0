import FlowTypes.Number.Double

namespace FlowTypes

/-- The number `digits * 10 ^ scale`. -/
structure Decimal where
  digits : Nat
  scale : Int
deriving DecidableEq

namespace Decimal

/-- Which neighbour a value takes that lies midway between two decimals. -/
inductive Tie
  | up
  | even
deriving DecidableEq

def exact (x : Double) : Decimal := ⟨x.units * Nat.pow 5 1074, -1074⟩

/-- The value of a positive double cut after 342 decimal places. It has at least 18 digits, since
the least positive double is above `10 ^ (-324)`. -/
def cut (x : Double) : Nat := x.units * tenPow 342 / twoPow 1074

/-- A decimal of `n` digits next to the double that reads back to its absolute value, the nearer of
two. -/
def withDigits? (tie : Tie) (x : Double) (n : Nat) : Option Decimal :=
  let drop := (Nat.toDigits 10 (cut x)).length - n
  let low := cut x / tenPow drop
  let scale : Int := drop - 342
  let hits (d : Nat) : Bool := Double.ofDecimal false d scale == x.abs
  let den := twoPow 1074 * tenPow drop
  let rest := 2 * (x.units * tenPow 342 % den)
  let takesLow := rest < den || rest == den && tie == .even && low % 2 == 0
  if hits low && (takesLow || !hits (low + 1)) then some ⟨low, scale⟩
  else if hits (low + 1) then some ⟨low + 1, scale⟩
  else none

def trim : Nat → Decimal → Decimal
  | 0, d => d
  | fuel + 1, d =>
    if d.digits % 10 = 0 ∧ d.digits ≠ 0 then trim fuel ⟨d.digits / 10, d.scale + 1⟩ else d

/-- The fewest digits that read back to the absolute value of a finite double. -/
def shortest (tie : Tie) (x : Double) : Decimal :=
  if x.isZero then ⟨0, 0⟩
  else trim 20 (((List.range 17).findSome? fun n ↦ withDigits? tie x (n + 1)).getD (exact x))

def zeros (n : Nat) : List Char := List.replicate n '0'

def positional (d : Decimal) : List Char :=
  let digits := Nat.toDigits 10 d.digits
  match d.scale with
  | .ofNat k => digits ++ if d.digits = 0 then [] else zeros k
  | .negSucc k =>
    let padded := zeros (k + 2 - digits.length) ++ digits
    padded.take (padded.length - (k + 1)) ++ '.' :: padded.drop (padded.length - (k + 1))

def order (d : Decimal) : Int := (Nat.toDigits 10 d.digits).length + d.scale - 1

def scientific (d : Decimal) : List Char :=
  let fraction := (Nat.toDigits 10 d.digits).drop 1
  (Nat.toDigits 10 d.digits).take 1 ++
    (if fraction.isEmpty then [] else '.' :: fraction) ++
    'e' :: (if d.order < 0 then '-' else '+') :: Nat.toDigits 10 d.order.natAbs

end Decimal

end FlowTypes
