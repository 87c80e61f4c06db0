import Scriptlet.Decimal.Binary

/-!
# The fewest digits that read back

A decimal reads back as a magnitude when it lies in the interval of reals that
round to that magnitude; the ends belong to the interval exactly when the
significand is even. The search tries one digit, then two, and so on up to
seventeen. On each grid only the two neighbours of the magnitude are tested:
the first grid with a hit wins, of two hits the nearer one, and the caller says
which way an exact tie goes.
-/

namespace Scriptlet.Decimal

/-- The decimal `digits * 10 ^ exponent`. -/
structure Scientific where
  /-- The digits, read as one natural. -/
  digits : Nat
  /-- The power of ten of the last digit. -/
  exponent : Int
deriving DecidableEq, Repr

/-- Which of two equally near decimals is taken. -/
inductive Tie where
  | upward
  | toEven
deriving DecidableEq, Repr

/-- Four times the quantity, its lower and its upper end, over one common
denominator that also clears the grid `10 ^ exponent`. -/
structure Scaled where
  /-- Four times the magnitude. -/
  value : Nat
  /-- Four times the lower end. -/
  lower : Nat
  /-- Four times the upper end. -/
  upper : Nat
  /-- Four times one step of the grid. -/
  step : Nat

/-- Bring a magnitude and a decimal grid to one denominator. -/
def Magnitude.scaled (m : Magnitude) (exponent : Int) : Scaled :=
  let twos := twoTo m.exponent.toNat
  let tens := tenTo (-exponent).toNat
  let unit := twos * tens
  let value := 4 * m.significand * unit
  { value
    lower := value - (if m.narrowBelow then unit else 2 * unit)
    upper := value + 2 * unit
    step := 4 * tenTo exponent.toNat * twoTo (-m.exponent).toNat }

/-- Whether the grid point `count * step` reads back as the magnitude. -/
def Scaled.reads (s : Scaled) (closed : Bool) (count : Nat) : Bool :=
  let point := count * s.step
  if closed then s.lower ≤ point && point ≤ s.upper else s.lower < point && point < s.upper

/-- The grid point that reads back and lies nearest to the magnitude. -/
def Scaled.nearest? (s : Scaled) (closed : Bool) (tie : Tie) : Option Nat :=
  let below := s.value / s.step
  let above := below + 1
  match s.reads closed below, s.reads closed above with
  | false, false => none
  | true, false => some below
  | false, true => some above
  | true, true =>
    let down := s.value - below * s.step
    let up := above * s.step - s.value
    if down < up then some below
    else if up < down then some above
    else match tie with
      | .upward => some above
      | .toEven => if below % 2 = 0 then some below else some above

/-- The number of decimal digits of a natural, at least one. -/
def digitCount (n : Nat) : Nat := (Nat.toDigits 10 n).length

/-- The least `k` with `magnitude < 10 ^ k`, found from an estimate at most one too low. -/
def Magnitude.order (m : Magnitude) : Int :=
  let (num, den) := m.fraction
  if den ≤ num then (digitCount (num / den) : Int)
  else
    let lead : Int := (digitCount num : Int) - digitCount den
    -- num / den lies in [10 ^ (lead - 1), 10 ^ (lead + 1))
    if num * tenTo (-lead).toNat < den * tenTo lead.toNat then lead else lead + 1

/-- Remove trailing zeros, at most `fuel` of them. -/
def Scientific.trim (d : Scientific) : Nat → Scientific
  | 0 => d
  | fuel + 1 =>
    if d.digits ≠ 0 ∧ d.digits % 10 = 0 then
      trim ⟨d.digits / 10, d.exponent + 1⟩ fuel
    else d

/-- Try grids of growing fineness: `count` digits first, then more, `fuel` grids in all. -/
def Magnitude.search (m : Magnitude) (tie : Tie) (order : Int) : Nat → Nat → Option Scientific
  | 0, _ => none
  | fuel + 1, count =>
    let exponent := order - count
    match (m.scaled exponent).nearest? (m.significand % 2 == 0) tie with
    | some digits => some (Scientific.trim ⟨digits, exponent⟩ 20)
    | none => m.search tie order fuel (count + 1)

/-- The shortest decimal that reads back as the magnitude, the nearest of those. -/
def Magnitude.shortest (m : Magnitude) (tie : Tie) : Scientific :=
  (m.search tie m.order 17 1).getD ⟨m.whole, 0⟩

end Scriptlet.Decimal
