namespace FlowTypes

def twoPow (n : Nat) : Nat := Nat.pow 2 n

def tenPow (n : Nat) : Nat := Nat.pow 10 n

/-- A double-precision number. The nonnegative doubles are numbered upwards from zero, so
neighbouring magnitudes are neighbouring doubles. -/
structure Double where
  negative : Bool
  magnitude : Nat
deriving DecidableEq

namespace Double

def limit : Nat := 2047 * twoPow 52

def isFinite (x : Double) : Bool := x.magnitude < limit

def isNaN (x : Double) : Bool := limit < x.magnitude

def isZero (x : Double) : Bool := x.magnitude == 0

def abs (x : Double) : Double := { x with negative := false }

def zero : Double := ⟨false, 0⟩

def ofBits (word : Nat) : Double := ⟨twoPow 63 ≤ word, word % twoPow 63⟩

def exponent (x : Double) : Nat := x.magnitude / twoPow 52 - 1

def significand (x : Double) : Nat := x.magnitude - x.exponent * twoPow 52

/-- The absolute value of a finite double is this many times `2 ^ (-1074)`. -/
def units (x : Double) : Nat := x.significand * twoPow x.exponent

def roundDiv (num den : Nat) : Nat :=
  let q := num / den
  let r := num % den
  if 2 * r < den then q else if den < 2 * r then q + 1 else q + q % 2

/-- The double nearest to `num / den`, infinity if that is beyond the largest finite one. -/
def ofRatio (negative : Bool) (num den : Nat) : Double :=
  let scaled := num * twoPow 1074
  let e := (scaled / den).log2 - 52
  ⟨negative, min limit (e * twoPow 52 + roundDiv scaled (den * twoPow e))⟩

def ofInt (n : Int) : Double := ofRatio (n < 0) n.natAbs 1

def mul (x y : Double) : Double :=
  ofRatio (x.negative != y.negative) (x.units * y.units) (twoPow 2148)

def div (x y : Double) : Double :=
  ofRatio (x.negative != y.negative) x.units y.units

/-- The double nearest to `digits * 10 ^ scale`. Scales that lead beyond every finite double, or
below every positive one, are not worked out. -/
def ofDecimal (negative : Bool) (digits : Nat) (scale : Int) : Double :=
  if digits = 0 then ⟨negative, 0⟩
  else match scale with
    | .ofNat k => if 310 < k then ⟨negative, limit⟩ else ofRatio negative (digits * tenPow k) 1
    | .negSucc k =>
      if (Nat.toDigits 10 digits).length + 330 < k + 1 then ⟨negative, 0⟩
      else ofRatio negative digits (tenPow (k + 1))

def equal (x y : Double) : Bool :=
  !x.isNaN && !y.isNaN && (x == y || x.isZero && y.isZero)

/-- Equality of literals: numeric equality, and whatever is not a number is one value. -/
def same (x y : Double) : Bool := x.isNaN && y.isNaN || x.equal y

def isInt32 (x : Double) : Bool :=
  x.isFinite && x.units % twoPow 1074 == 0 &&
    x.units / twoPow 1074 ≤ (if x.negative then twoPow 31 else twoPow 31 - 1)

end Double

end FlowTypes
