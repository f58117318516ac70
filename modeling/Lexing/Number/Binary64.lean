/-!
Binary floating-point numbers of 64 bits, computed in natural numbers.
-/

namespace Lexing

/-- A number that is not NaN: its sign, and its exponent and fraction bits read as one number. -/
structure Binary64 where
  negative : Bool
  magnitude : Nat
deriving DecidableEq

namespace Binary64

/-- The least magnitude whose fraction bits follow a leading bit. -/
def leading : Nat := 0x10000000000000

/-- The magnitude of infinity; it counts for rounding as the power of two after the finite ones. -/
def infinity : Nat := 0x7FF * leading

def isFinite (x : Binary64) : Bool :=
  x.magnitude < infinity

/-- The bit pattern. -/
def bits (x : Binary64) : Nat :=
  (if x.negative then 0x8000000000000000 else 0) + x.magnitude

/-- What a magnitude stands for, in units of the least positive number. -/
def units (magnitude : Nat) : Nat :=
  if magnitude < leading then magnitude
  else (leading + magnitude % leading) <<< (magnitude / leading - 1)

/-- The nearest whole number to a quotient; a half goes to the even neighbour. -/
def divRound (num den : Nat) : Nat :=
  let q := num / den
  let r := num % den
  if 2 * r < den then q
  else if den < 2 * r then q + 1
  else q + q % 2

/-- The nearest magnitude to a quotient of units; a half goes to the even neighbour. -/
def roundUnits (num den : Nat) : Nat :=
  let shift := Nat.log2 (num / den) - 52
  min infinity (shift * leading + divRound num (den <<< shift))

/-- The nearest magnitude to a quotient; one is the unit shifted by 1074 places. -/
def ofRatio (num den : Nat) : Nat :=
  roundUnits (num <<< 1074) den

def ofNat (n : Nat) : Nat :=
  ofRatio n 1

def add (a b : Nat) : Nat :=
  roundUnits (units a + units b) 1

def mul (a b : Nat) : Nat :=
  roundUnits (units a * units b) (1 <<< 1074)

end Binary64

end Lexing
