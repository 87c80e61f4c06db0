/-!
# Binary floating-point numbers as exact quantities

A 64-bit number is a signed zero, an infinity, not a number, or a positive
significand times a power of two with a sign. The exact quantity and the
interval of reals that round to it are kept as naturals and integers, so that
every question about decimal text is settled by exact arithmetic.
-/

namespace Scriptlet.Decimal

/-- A power of two. -/
def twoTo (n : Nat) : Nat := Nat.pow 2 n

/-- A power of ten. -/
def tenTo (n : Nat) : Nat := Nat.pow 10 n

/-- A positive finite magnitude: `significand * 2 ^ exponent`. -/
structure Magnitude where
  /-- The integer significand; positive for a number other than zero. -/
  significand : Nat
  /-- The power of two. -/
  exponent : Int
  /-- Whether the next smaller number is only half a unit away. -/
  narrowBelow : Bool
deriving DecidableEq, Repr

/-- What the 64 bits of a number stand for. -/
inductive Reading where
  | notANumber
  | infinite (negative : Bool)
  | zero (negative : Bool)
  | finite (negative : Bool) (size : Magnitude)
deriving DecidableEq, Repr

/-- Take a bit pattern apart into sign, exponent field and fraction field. -/
def Reading.ofBits (bits : Nat) : Reading :=
  let negative := bits / twoTo 63 % 2 == 1
  let field : Nat := bits / twoTo 52 % twoTo 11
  let fraction : Nat := bits % twoTo 52
  if field = 2047 then
    if fraction = 0 then .infinite negative else .notANumber
  else if field = 0 then
    if fraction = 0 then .zero negative else .finite negative ⟨fraction, -1074, false⟩
  else
    .finite negative ⟨twoTo 52 + fraction, (field : Int) - 1075, fraction == 0 && field > 1⟩

/-- Read a number. -/
def Reading.ofFloat (x : Float) : Reading := .ofBits x.toBits.toNat

/-- The magnitude as a quotient of naturals. -/
def Magnitude.fraction (m : Magnitude) : Nat × Nat :=
  if 0 ≤ m.exponent then (m.significand * twoTo m.exponent.toNat, 1)
  else (m.significand, twoTo (-m.exponent).toNat)

/-- Whether the magnitude is a whole number. -/
def Magnitude.isWhole (m : Magnitude) : Bool := m.fraction.1 % m.fraction.2 == 0

/-- The whole part of the magnitude. -/
def Magnitude.whole (m : Magnitude) : Nat := m.fraction.1 / m.fraction.2

end Scriptlet.Decimal
