import Mathlib.Data.Nat.Cast.Order.Field
import Scriptlet.Proofs.Decimal.Search

/-!
# The search of the shortest decimal succeeds

A magnitude has a power of ten that is not above it and by which the first digit is found.
So the steps of the grid of seventeen digits are less than a unit in the last place, and
less than half of one where the significand is least. One of the two neighbours on that
grid is near enough.
-/

namespace Scriptlet.Decimal

/-- A natural is below the power of ten of its digits. -/
theorem lt_tenTo_digitCount (n : Nat) : n < 10 ^ digitCount n :=
  (Nat.length_toDigits_le_iff (by decide) Nat.length_toDigits_pos).mp (Nat.le_refl _)

/-- A positive natural is not below the power of ten of its first digit. -/
theorem tenTo_le {n : Nat} (h : 0 < n) : 10 ^ (digitCount n - 1) ≤ n := by
  rcases Nat.eq_zero_or_pos (digitCount n - 1) with hone | hmore
  · rw [hone]
    exact h
  · by_contra hlt
    have hfew := (Nat.length_toDigits_le_iff (by decide) hmore).mpr (Nat.not_le.mp hlt)
    unfold digitCount at hfew hmore
    omega

/-- A natural has a digit. -/
theorem digitCount_pos (n : Nat) : 0 < digitCount n := Nat.length_toDigits_pos

variable {num den : Nat}

/-- The digits of the whole part of a quotient give a power of ten that is not above it. -/
theorem whole_le (hden : 0 < den) (h : den ≤ num) :
    (10 : ℚ) ^ ((digitCount (num / den) : ℤ) - 1) ≤ (num : ℚ) / den := by
  have hcount := digitCount_pos (num / den)
  have hexp : (digitCount (num / den) : ℤ) - 1 = ((digitCount (num / den) - 1 : ℕ) : ℤ) := by
    omega
  rw [hexp, zpow_natCast]
  calc (10 : ℚ) ^ (digitCount (num / den) - 1) ≤ (num / den : ℕ) := by
        exact_mod_cast tenTo_le (Nat.div_pos h hden)
    _ ≤ num / den := Nat.cast_div_le

/-- The digits of numerator and denominator give a power of ten that is not above a quotient. -/
theorem lead_le (hnum : 0 < num) (hden : 0 < den) :
    (10 : ℚ) ^ ((digitCount num : ℤ) - digitCount den - 1) ≤ (num : ℚ) / den := by
  have hcount := digitCount_pos num
  have hpos : (0 : ℚ) < den := by exact_mod_cast hden
  have hbelow : (den : ℚ) ≤ 10 ^ digitCount den := by exact_mod_cast (lt_tenTo_digitCount den).le
  have habove : (10 : ℚ) ^ (digitCount num - 1) ≤ num := by exact_mod_cast tenTo_le hnum
  have hexp : (digitCount num : ℤ) - digitCount den - 1 =
      ((digitCount num - 1 : ℕ) : ℤ) - digitCount den := by
    omega
  rw [hexp, zpow_sub₀ (by norm_num), zpow_natCast, zpow_natCast]
  exact div_le_div₀ (Nat.cast_nonneg num) habove hpos hbelow

/-- A power of ten is not above a quotient when the scaled numerator is not below the scaled
denominator. -/
theorem tenTo_le_of_scaled (hden : 0 < den) {lead : ℤ}
    (h : den * tenTo lead.toNat ≤ num * tenTo (-lead).toNat) :
    (10 : ℚ) ^ lead ≤ (num : ℚ) / den := by
  have hpos : (0 : ℚ) < den := by exact_mod_cast hden
  have hcast : (den : ℚ) * tenTo lead.toNat ≤ num * tenTo (-lead).toNat := by exact_mod_cast h
  rw [cast_tenTo, cast_tenTo, pow_toNat 10 (by norm_num) lead] at hcast
  have hfactor : (0 : ℚ) < 10 ^ (-lead).toNat := by positivity
  rw [le_div_iff₀ hpos]
  refine le_of_mul_le_mul_right ?_ hfactor
  linarith

namespace Magnitude

variable {m : Magnitude}

/-- The quotient of naturals is the magnitude. -/
theorem fraction_value (m : Magnitude) :
    0 < m.fraction.2 ∧ (m.fraction.1 : ℚ) = m.value * m.fraction.2 := by
  unfold fraction value
  split
  · rename_i hexp
    refine ⟨Nat.one_pos, ?_⟩
    have hpow : ((m.exponent.toNat : ℕ) : ℤ) = m.exponent := Int.toNat_of_nonneg hexp
    dsimp only
    rw [Nat.cast_mul, cast_twoTo, ← zpow_natCast, hpow]
    push_cast
    ring
  · rename_i hexp
    refine ⟨Nat.pow_pos (by decide), ?_⟩
    have hpow : (((-m.exponent).toNat : ℕ) : ℤ) = -m.exponent := by omega
    dsimp only
    rw [cast_twoTo, ← zpow_natCast, hpow, mul_assoc, ← zpow_add₀ two_ne_zero, add_neg_cancel,
      zpow_zero, mul_one]

/-- The first digit of a magnitude stands at a power of ten that is not above it. -/
theorem order_le (hm : 0 < m.significand) : (10 : ℚ) ^ (m.order - 1) ≤ m.value := by
  obtain ⟨hden, hfraction⟩ := m.fraction_value
  have hvalue : 0 < m.value := by
    rw [value_eq]
    have hulp := m.ulp_pos
    positivity
  unfold order
  rcases hparts : m.fraction with ⟨num, den⟩
  rw [hparts] at hden hfraction
  dsimp only at hden hfraction ⊢
  have hpos : (0 : ℚ) < den := by exact_mod_cast hden
  have hquotient : (num : ℚ) / den = m.value := by
    rw [hfraction, mul_div_cancel_right₀ _ hpos.ne']
  have hnum : 0 < num := by
    have hcast : (0 : ℚ) < num := by
      rw [hfraction]
      positivity
    exact_mod_cast hcast
  rw [← hquotient]
  split
  · rename_i hle
    exact whole_le hden hle
  · split
    · exact lead_le hnum hden
    · rename_i hge
      rw [add_sub_cancel_right]
      exact tenTo_le_of_scaled hden (Nat.not_lt.mp hge)

/-- One of the two neighbours on a grid is near enough when the steps are less than a unit, and less
than half of one below the least significand of all its bits. -/
theorem neighbour_rounds {w : ℚ} {below : Nat} (hlow : below * w ≤ m.value)
    (hhigh : m.value < (below + 1 : ℕ) * w) (hstep : w < m.ulp)
    (hnarrow : m.narrowBelow = true → w < m.ulp / 2) :
    m.Rounds (below * w) ∨ m.Rounds ((below + 1 : ℕ) * w) := by
  have hulp := m.ulp_pos
  have hnext : ((below + 1 : ℕ) : ℚ) * w = below * w + w := by
    push_cast
    ring
  have hlowest := m.lowest_le
  rw [hnext] at hhigh ⊢
  have habove : below * w + w < m.highest →
      m.Rounds (below * w) ∨ m.Rounds (below * w + w) := by
    intro hlt
    have hlower : m.lowest < below * w + w := by linarith
    exact Or.inr ⟨hlower.le, hlt.le, fun _ => ⟨hlower, hlt⟩⟩
  cases hwide : m.narrowBelow with
  | true =>
    refine habove ?_
    have hsmall := hnarrow hwide
    unfold highest
    linarith
  | false =>
    rcases lt_or_ge (m.value - below * w) (m.ulp / 2) with hnear | hfar
    · left
      have hlower : m.lowest < below * w := by
        unfold lowest
        rw [hwide, if_neg Bool.false_ne_true]
        linarith
      have hupper : below * w < m.highest := by
        unfold highest
        linarith
      exact ⟨hlower.le, hupper.le, fun _ => ⟨hlower, hupper⟩⟩
    · refine habove ?_
      unfold highest
      linarith

/-- The magnitude lies between the two neighbours on a grid that the search tests. -/
theorem grid_neighbours (m : Magnitude) (exponent : Int) :
    (((m.scaled exponent).value / (m.scaled exponent).step : ℕ) : ℚ) * 10 ^ exponent ≤ m.value ∧
      m.value <
        (((m.scaled exponent).value / (m.scaled exponent).step + 1 : ℕ) : ℚ) * 10 ^ exponent := by
  have hfactor := m.factor_pos exponent
  have hsteps := m.scaled_step exponent
  have hvalue := m.scaled_value exponent
  generalize m.scaled exponent = grid at hsteps hvalue
  have hpos : 0 < grid.step := by
    have hcast : (0 : ℚ) < grid.step := by
      rw [hsteps]
      positivity
    exact_mod_cast hcast
  constructor
  · have hcast : ((grid.value / grid.step * grid.step : ℕ) : ℚ) ≤ grid.value := by
      exact_mod_cast Nat.div_mul_le_self _ _
    rw [Nat.cast_mul, hsteps, hvalue] at hcast
    refine le_of_mul_le_mul_left ?_ hfactor
    linarith
  · have hcast : (grid.value : ℚ) < ((grid.value / grid.step + 1) * grid.step : ℕ) := by
      exact_mod_cast (Nat.div_lt_iff_lt_mul hpos).mp (Nat.lt_succ_self _)
    rw [Nat.cast_mul, hsteps, hvalue] at hcast
    refine lt_of_mul_lt_mul_left ?_ hfactor.le
    linarith

/-- A step of the grid of seventeen digits is less than a unit, and less than half of one below the
least significand of all its bits. -/
theorem step_seventeen (h : m.Canonical) :
    (10 : ℚ) ^ (m.order - (17 : Nat)) < m.ulp ∧
      (m.narrowBelow = true → (10 : ℚ) ^ (m.order - (17 : Nat)) < m.ulp / 2) := by
  have hulp := m.ulp_pos
  have hstep : (10 : ℚ) ^ (m.order - (17 : Nat)) * 10 ^ 16 ≤ m.significand * m.ulp := by
    have hexp : m.order - (17 : Nat) + (16 : Nat) = m.order - 1 := by omega
    rw [← zpow_natCast, ← zpow_add₀ (by norm_num), hexp, ← value_eq]
    exact order_le h.positive
  constructor
  · have hbits : (m.significand : ℚ) ≤ 2 ^ 53 := by exact_mod_cast h.bits.le
    have hall : (m.significand : ℚ) * m.ulp ≤ 2 ^ 53 * m.ulp :=
      mul_le_mul_of_nonneg_right hbits hulp.le
    linarith
  · intro hnarrow
    rw [(h.narrow.mp hnarrow).1] at hstep
    push_cast at hstep
    linarith

/-- On the grid of seventeen digits a neighbour is near enough. -/
theorem nearest?_seventeen (h : m.Canonical) (tie : Tie) :
    (m.scaled (m.order - (17 : Nat))).nearest? (m.significand % 2 == 0) tie ≠ none := by
  intro hnone
  obtain ⟨hbelow, habove⟩ := Scaled.nearest?_none hnone
  obtain ⟨hlow, hhigh⟩ := m.grid_neighbours (m.order - (17 : Nat))
  obtain ⟨hstep, hnarrow⟩ := step_seventeen h
  rcases neighbour_rounds hlow hhigh hstep hnarrow with hrounds | hrounds
  · rw [(reads_iff h.positive _ _).mpr hrounds] at hbelow
    cases hbelow
  · rw [(reads_iff h.positive _ _).mpr hrounds] at habove
    cases habove

/-- The shortest decimal of a magnitude rounds to it. -/
theorem shortest_rounds (h : m.Canonical) (tie : Tie) : m.Rounds (m.shortest tie).value := by
  have hfound := search_isSome (nearest?_seventeen h tie) 16 1 rfl
  obtain ⟨d, hd⟩ := Option.isSome_iff_exists.mp hfound
  unfold shortest
  rw [hd, Option.getD_some]
  exact search_rounds h.positive hd

end Magnitude

end Scriptlet.Decimal
