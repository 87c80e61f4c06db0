import Scriptlet.Decimal.Shortest
import Scriptlet.Proofs.Decimal.Rounding

/-!
# The shortest decimal rounds back

A decimal is tested on scaled naturals, and the test says whether it rounds to the
magnitude. The grids end with one of seventeen digits, whose steps are less than a unit,
so one of the two neighbours there does: no more than half a unit away in general, and
the upper one where the numbers below are closer together. So the search finds a decimal,
and what it finds rounds to the magnitude.
-/

namespace Scriptlet.Decimal

/-- The exact quantity of a decimal. -/
def Scientific.value (d : Scientific) : ℚ := d.digits * 10 ^ d.exponent

/-- A power with a whole exponent, over one with a natural exponent. -/
theorem pow_toNat (base : ℚ) (hbase : base ≠ 0) (e : ℤ) :
    base ^ e.toNat = base ^ e * base ^ (-e).toNat := by
  have hsplit : (e.toNat : ℤ) = e + (-e).toNat := by omega
  rw [← zpow_natCast, hsplit, zpow_add₀ hbase, zpow_natCast]

/-- A power of two as a quotient. -/
theorem cast_twoTo (n : Nat) : ((twoTo n : ℕ) : ℚ) = 2 ^ n := Nat.cast_pow 2 n

/-- A power of ten as a quotient. -/
theorem cast_tenTo (n : Nat) : ((tenTo n : ℕ) : ℚ) = 10 ^ n := Nat.cast_pow 10 n

namespace Magnitude

variable {m : Magnitude}

/-- The factor that brings quantities to the denominator of a grid. -/
def factor (m : Magnitude) (exponent : Int) : ℚ :=
  4 * 2 ^ (-m.exponent).toNat * 10 ^ (-exponent).toNat

/-- The factor is positive. -/
theorem factor_pos (m : Magnitude) (exponent : Int) : 0 < m.factor exponent := by
  unfold factor
  positivity

/-- The scaled unit is a quarter of a unit. -/
theorem unit_eq (m : Magnitude) (exponent : Int) :
    ((twoTo m.exponent.toNat * tenTo (-exponent).toNat : ℕ) : ℚ) =
      m.factor exponent * (m.ulp / 4) := by
  have hpow := pow_toNat 2 two_ne_zero m.exponent
  rw [Nat.cast_mul, cast_twoTo, cast_tenTo, hpow]
  unfold factor ulp
  ring

/-- The scaled step is a step of the grid. -/
theorem scaled_step (m : Magnitude) (exponent : Int) :
    ((m.scaled exponent).step : ℚ) = m.factor exponent * 10 ^ exponent := by
  have hpow := pow_toNat 10 (by norm_num) exponent
  unfold factor scaled
  dsimp only
  rw [Nat.cast_mul, Nat.cast_mul, cast_twoTo, cast_tenTo, hpow]
  push_cast
  ring

/-- The scaled magnitude. -/
theorem scaled_value (m : Magnitude) (exponent : Int) :
    ((m.scaled exponent).value : ℚ) = m.factor exponent * m.value := by
  have hunit := m.unit_eq exponent
  unfold scaled
  dsimp only
  rw [Nat.cast_mul, hunit, value_eq]
  push_cast
  ring

/-- The scaled upper end. -/
theorem scaled_upper (m : Magnitude) (exponent : Int) :
    ((m.scaled exponent).upper : ℚ) = m.factor exponent * m.highest := by
  have hunit := m.unit_eq exponent
  have hvalue := m.scaled_value exponent
  unfold scaled at hvalue ⊢
  dsimp only at hvalue ⊢
  rw [Nat.cast_add, hvalue, Nat.cast_mul, hunit]
  unfold highest
  push_cast
  ring

/-- The scaled lower end of a magnitude other than zero. -/
theorem scaled_lower (hm : 0 < m.significand) (exponent : Int) :
    ((m.scaled exponent).lower : ℚ) = m.factor exponent * m.lowest := by
  have hunit := m.unit_eq exponent
  have hvalue := m.scaled_value exponent
  unfold scaled at hvalue ⊢
  dsimp only at hvalue ⊢
  have henough : ∀ part, part ≤ 4 →
      part * (twoTo m.exponent.toNat * tenTo (-exponent).toNat) ≤
        4 * m.significand * (twoTo m.exponent.toNat * tenTo (-exponent).toNat) :=
    fun part hpart => Nat.mul_le_mul_right _ (by omega)
  unfold lowest
  cases m.narrowBelow with
  | true =>
    have hone := henough 1 (by decide)
    rw [one_mul] at hone
    rw [if_pos rfl, if_pos rfl, Nat.cast_sub hone, hvalue, hunit]
    ring
  | false =>
    rw [if_neg Bool.false_ne_true, if_neg Bool.false_ne_true, Nat.cast_sub (henough 2 (by decide)),
      hvalue, Nat.cast_mul, hunit]
    push_cast
    ring

/-- The test of a grid point says whether it rounds to the magnitude. -/
theorem reads_iff (hm : 0 < m.significand) (exponent : Int) (count : Nat) :
    (m.scaled exponent).reads (m.significand % 2 == 0) count = true ↔
      m.Rounds (count * 10 ^ exponent) := by
  have hfactor := m.factor_pos exponent
  have hpoint : ((count * (m.scaled exponent).step : ℕ) : ℚ) =
      m.factor exponent * (count * 10 ^ exponent) := by
    rw [Nat.cast_mul, scaled_step]
    ring
  have hle : (m.scaled exponent).lower ≤ count * (m.scaled exponent).step ↔
      m.lowest ≤ count * 10 ^ exponent := by
    rw [← Nat.cast_le (α := ℚ), scaled_lower hm, hpoint, mul_le_mul_iff_right₀ hfactor]
  have hlt : (m.scaled exponent).lower < count * (m.scaled exponent).step ↔
      m.lowest < count * 10 ^ exponent := by
    rw [← Nat.cast_lt (α := ℚ), scaled_lower hm, hpoint, mul_lt_mul_iff_right₀ hfactor]
  have hle' : count * (m.scaled exponent).step ≤ (m.scaled exponent).upper ↔
      count * 10 ^ exponent ≤ m.highest := by
    rw [← Nat.cast_le (α := ℚ), scaled_upper, hpoint, mul_le_mul_iff_right₀ hfactor]
  have hlt' : count * (m.scaled exponent).step < (m.scaled exponent).upper ↔
      count * 10 ^ exponent < m.highest := by
    rw [← Nat.cast_lt (α := ℚ), scaled_upper, hpoint, mul_lt_mul_iff_right₀ hfactor]
  unfold Scaled.reads
  dsimp only
  split
  · rename_i heven
    rw [beq_iff_eq] at heven
    rw [Bool.and_eq_true, decide_eq_true_eq, decide_eq_true_eq, hle, hle']
    refine ⟨fun ⟨hlower, hupper⟩ => ⟨hlower, hupper, fun hodd => ?_⟩, fun h => ⟨h.lower, h.upper⟩⟩
    omega
  · rename_i hodd
    rw [beq_iff_eq] at hodd
    rw [Bool.and_eq_true, decide_eq_true_eq, decide_eq_true_eq, hlt, hlt']
    refine ⟨fun ⟨hlower, hupper⟩ => ⟨hlower.le, hupper.le, fun _ => ⟨hlower, hupper⟩⟩, fun h => ?_⟩
    exact h.inside (by omega)

end Magnitude

/-- A grid point that is taken reads back. -/
theorem Scaled.nearest?_reads {s : Scaled} {closed : Bool} {tie : Tie} {count : Nat}
    (h : s.nearest? closed tie = some count) : s.reads closed count = true := by
  unfold nearest? at h
  dsimp only at h
  split at h
  · cases h
  · cases h
    assumption
  · cases h
    assumption
  · split at h
    · cases h
      assumption
    · split at h
      · cases h
        assumption
      · split at h
        · cases h
          assumption
        · split at h <;> · cases h; assumption

/-- No grid point is taken only if neither neighbour reads back. -/
theorem Scaled.nearest?_none {s : Scaled} {closed : Bool} {tie : Tie}
    (h : s.nearest? closed tie = none) :
    s.reads closed (s.value / s.step) = false ∧ s.reads closed (s.value / s.step + 1) = false := by
  unfold nearest? at h
  dsimp only at h
  split at h
  · exact ⟨by assumption, by assumption⟩
  · cases h
  · cases h
  · split at h
    · cases h
    · split at h
      · cases h
      · split at h
        · cases h
        · split at h <;> cases h

/-- Trailing zeros are removed without changing the quantity. -/
theorem Scientific.value_trim (d : Scientific) (fuel : Nat) : (d.trim fuel).value = d.value := by
  induction fuel generalizing d with
  | zero => rfl
  | succ fuel ih =>
    unfold trim
    split
    · rename_i hzero
      rw [ih]
      obtain ⟨-, hdigit⟩ := hzero
      have hten : (10 : ℚ) * (d.digits / 10 : ℕ) = d.digits := by
        exact_mod_cast Nat.mul_div_cancel' (Nat.dvd_of_mod_eq_zero hdigit)
      unfold value
      dsimp only
      rw [zpow_add_one₀ (by norm_num), ← hten]
      ring
    · rfl

namespace Magnitude

variable {m : Magnitude}

/-- What the search finds rounds to the magnitude. -/
theorem search_rounds (hm : 0 < m.significand) {tie : Tie} {order : Int} {fuel count : Nat}
    {d : Scientific} (h : m.search tie order fuel count = some d) : m.Rounds d.value := by
  induction fuel generalizing count with
  | zero => cases h
  | succ fuel ih =>
    unfold search at h
    dsimp only at h
    split at h
    · rename_i digits hnearest
      obtain rfl := Option.some.inj h
      rw [Scientific.value_trim]
      exact (reads_iff hm _ _).mp (Scaled.nearest?_reads hnearest)
    · exact ih h

/-- The search ends with a decimal when one is found on the last grid. -/
theorem search_isSome {tie : Tie} {order : Int} {last : Nat}
    (h : (m.scaled (order - last)).nearest? (m.significand % 2 == 0) tie ≠ none) (fuel count : Nat)
    (hcount : count + fuel = last) : (m.search tie order (fuel + 1) count).isSome = true := by
  induction fuel generalizing count with
  | zero =>
    unfold search
    dsimp only
    rw [Nat.add_zero] at hcount
    rw [hcount]
    split
    · rfl
    · rename_i hnone
      exact absurd hnone h
  | succ fuel ih =>
    unfold search
    dsimp only
    split
    · rfl
    · exact ih (count + 1) (by omega)

end Magnitude

end Scriptlet.Decimal
