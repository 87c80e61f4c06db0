import Scriptlet.Decimal.Shortest

/-!
# Written forms of numbers

Four forms are in use. The plain form is what a program prints: the shortest
digits, always positional. The literal form marks small whole numbers with
`.0`. The tree form writes every whole number out exactly. The interchange form
is that of JSON and turns to powers of ten outside a fixed range. Each decision
of a form is a field of a `Layout`.
-/

namespace Scriptlet.Decimal

/-- The decisions behind a written form of shortest digits. -/
structure Layout where
  /-- Which of two equally near shortest decimals is taken. -/
  tie : Tie
  /-- Powers of ten of the first digit that are written positionally; all when absent. -/
  positional : Option (Int × Int)
  /-- Whether a whole number written positionally ends in `.0`. -/
  pointZero : Bool
  /-- The text of a quantity that is not a number. -/
  notANumber : String
  /-- The text of an infinite quantity, from its sign. -/
  infinite : Bool → String

/-- A minus sign for a negative quantity. -/
def signed (negative : Bool) (text : String) : String := if negative then "-" ++ text else text

/-- The digits of a natural in base ten. -/
def digitChars (n : Nat) : List Char := Nat.toDigits 10 n

/-- A run of zeros. -/
def zeros (count : Nat) : List Char := List.replicate count '0'

/-- Digits with the point in its place; a whole number gets `.0` on request. -/
def Scientific.positional (d : Scientific) (pointZero : Bool) : List Char :=
  let digits := digitChars d.digits
  if 0 ≤ d.exponent then
    digits ++ zeros d.exponent.toNat ++ (if pointZero then ['.', '0'] else [])
  else
    let places := (-d.exponent).toNat
    if places < digits.length then
      digits.take (digits.length - places) ++ '.' :: digits.drop (digits.length - places)
    else
      '0' :: '.' :: zeros (places - digits.length) ++ digits

/-- The power of ten of the first digit. -/
def Scientific.leading (d : Scientific) : Int :=
  d.exponent + ((digitChars d.digits).length - 1 : Nat)

/-- One digit, the rest behind a point, and the signed power of ten. -/
def Scientific.powerForm (d : Scientific) : List Char :=
  let power := d.leading
  let mantissa := match digitChars d.digits with
    | [] => []
    | [c] => [c]
    | c :: rest => c :: '.' :: rest
  mantissa ++ 'e' :: (if power < 0 then '-' else '+') :: digitChars power.natAbs

/-- Whether a layout writes this decimal positionally. -/
def Layout.isPositional (layout : Layout) (d : Scientific) : Bool :=
  match layout.positional with
  | none => true
  | some (low, high) => low ≤ d.leading && d.leading < high

/-- Write the shortest decimal of a positive magnitude. -/
def Layout.magnitude (layout : Layout) (m : Magnitude) : String :=
  let d := m.shortest layout.tie
  String.ofList (if layout.isPositional d then d.positional layout.pointZero else d.powerForm)

/-- Write a number. -/
def Layout.write (layout : Layout) (x : Float) : String :=
  match Reading.ofFloat x with
  | .notANumber => layout.notANumber
  | .infinite negative => layout.infinite negative
  | .zero negative => signed negative (if layout.pointZero then "0.0" else "0")
  | .finite negative m => signed negative (layout.magnitude m)

/-- The form of printed values: never an exponent, never a point for a whole number. -/
def Layout.plain : Layout where
  tie := .upward
  positional := none
  pointZero := false
  notANumber := "NaN"
  infinite negative := signed negative "inf"

/-- The form of JSON numbers: positional from `1e-5` up to below `1e16`, and no
number at all for what JSON cannot write. -/
def Layout.interchange : Layout where
  tie := .toEven
  positional := some (-5, 16)
  pointZero := true
  notANumber := "null"
  infinite _ := "null"

/-- The plain form. -/
def plain (x : Float) : String := Layout.plain.write x

/-- The interchange form. -/
def interchange (x : Float) : String := Layout.interchange.write x

/-- The form of token literals: whole numbers below `1e15` end in `.0`, and zero
has no sign. -/
def literal (x : Float) : String :=
  match Reading.ofFloat x with
  | .zero _ => "0.0"
  | .finite negative m =>
    if m.isWhole && m.whole < tenTo 15 then
      signed negative (String.ofList (digitChars m.whole) ++ ".0")
    else plain x
  | _ => plain x

/-- The form of numbers in trees: a whole number is written out exactly with `.0`. -/
def tree (x : Float) : String :=
  match Reading.ofFloat x with
  | .zero negative => signed negative "0.0"
  | .finite negative m =>
    if m.isWhole then signed negative (String.ofList (digitChars m.whole) ++ ".0") else plain x
  | _ => plain x

end Scriptlet.Decimal
