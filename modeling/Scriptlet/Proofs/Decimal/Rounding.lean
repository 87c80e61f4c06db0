import Mathlib.Algebra.Order.Field.Power
import Mathlib.Data.Rat.Cast.Order
import Mathlib.Tactic.Linarith
import Mathlib.Tactic.NormNum
import Mathlib.Tactic.Positivity
import Mathlib.Tactic.Ring
import Scriptlet.Decimal.Binary

/-!
# Which quantities round to a number

A finite number other than zero is a significand times a power of two, and a quantity
rounds to it when it is not more than half a unit away, or a quarter of one below the
least significand of all its bits. At these ends it does so just when the significand is
even. The magnitudes that bits stand for have a canonical significand, so a quantity
rounds to at most one of them, and zero to none.
-/

namespace Scriptlet.Decimal

namespace Magnitude

/-- The exact quantity. -/
def value (m : Magnitude) : ℚ := m.significand * 2 ^ m.exponent

/-- One unit in the last place. -/
def ulp (m : Magnitude) : ℚ := 2 ^ m.exponent

/-- The lower end of what rounds to a magnitude. -/
def lowest (m : Magnitude) : ℚ := m.value - if m.narrowBelow then m.ulp / 4 else m.ulp / 2

/-- The upper end of what rounds to a magnitude. -/
def highest (m : Magnitude) : ℚ := m.value + m.ulp / 2

/-- A quantity that rounds to a magnitude. -/
structure Rounds (m : Magnitude) (q : ℚ) : Prop where
  lower : m.lowest ≤ q
  upper : q ≤ m.highest
  /-- The ends round to an even significand. -/
  inside : m.significand % 2 = 1 → m.lowest < q ∧ q < m.highest

/-- A magnitude that bits stand for. -/
structure Canonical (m : Magnitude) : Prop where
  positive : 0 < m.significand
  bits : m.significand < 2 ^ 53
  least : -1074 ≤ m.exponent
  /-- Above the least exponent the significand has all its bits. -/
  full : -1074 < m.exponent → 2 ^ 52 ≤ m.significand
  /-- The next smaller number is nearer where its exponent is smaller. -/
  narrow : m.narrowBelow = true ↔ m.significand = 2 ^ 52 ∧ -1074 < m.exponent

variable {m m' : Magnitude} {q : ℚ}

/-- Units are positive. -/
theorem ulp_pos (m : Magnitude) : 0 < m.ulp := by
  unfold ulp
  positivity

/-- A magnitude is a number of units. -/
theorem value_eq (m : Magnitude) : m.value = m.significand * m.ulp := rfl

/-- The lower end is not more than half a unit away. -/
theorem half_le_lowest (m : Magnitude) : m.value - m.ulp / 2 ≤ m.lowest := by
  have hulp := m.ulp_pos
  unfold lowest
  split <;> linarith

/-- The lower end is at least a quarter of a unit away. -/
theorem lowest_le (m : Magnitude) : m.lowest ≤ m.value - m.ulp / 4 := by
  have hulp := m.ulp_pos
  unfold lowest
  split <;> linarith

/-- A magnitude rounds to itself. -/
theorem rounds_value (m : Magnitude) : m.Rounds m.value := by
  have hulp := m.ulp_pos
  have hlowest := m.lowest_le
  have hlower : m.lowest < m.value := by linarith
  have hupper : m.value < m.highest := by
    unfold highest
    linarith
  exact ⟨hlower.le, hupper.le, fun _ => ⟨hlower, hupper⟩⟩

/-- Only positive quantities round to a magnitude other than zero. -/
theorem Rounds.pos (h : m.Rounds q) (hm : 0 < m.significand) : 0 < q := by
  have hulp := m.ulp_pos
  have hlowest := m.half_le_lowest
  have hlower := h.lower
  have hunit : m.ulp ≤ m.value := by
    have hone : (1 : ℚ) ≤ m.significand := by exact_mod_cast hm
    rw [value_eq]
    nlinarith
  linarith

/-- Two magnitudes are apart when what rounds to the first one is below what rounds to the second
one, up to an end that does not belong to both. -/
def Apart (m m' : Magnitude) : Prop :=
  m.highest < m'.lowest ∨
    m.highest ≤ m'.lowest ∧ (m.significand % 2 = 1 ∨ m'.significand % 2 = 1)

/-- Nothing rounds to two magnitudes that are apart. -/
theorem Apart.disjoint (h : Apart m m') (hq : m.Rounds q) (hq' : m'.Rounds q) : False := by
  have hupper := hq.upper
  have hlower := hq'.lower
  rcases h with hlt | ⟨hle, hodd | hodd⟩
  · linarith
  · have hinside := (hq.inside hodd).2
    linarith
  · have hinside := (hq'.inside hodd).1
    linarith

/-- Magnitudes of one exponent are apart. -/
theorem apart_of_significand (h : m.Canonical) (h' : m'.Canonical) (hexp : m.exponent = m'.exponent)
    (hlt : m.significand < m'.significand) : Apart m m' := by
  have hulp := m.ulp_pos
  have hsame : m'.ulp = m.ulp := by
    unfold ulp
    rw [hexp]
  have hwide : m'.narrowBelow = false := by
    rw [Bool.eq_false_iff]
    intro hnarrow
    obtain ⟨hleast, habove⟩ := h'.narrow.mp hnarrow
    have hfull := h.full (hexp ▸ habove)
    omega
  have hlowest : m'.lowest = m'.significand * m.ulp - m.ulp / 2 := by
    unfold lowest
    rw [hwide, value_eq, hsame]
    rfl
  have hhighest : m.highest = m.significand * m.ulp + m.ulp / 2 := rfl
  rcases Nat.lt_or_ge (m.significand + 1) m'.significand with hfar | hnear
  · left
    have hcast : (m.significand : ℚ) + 2 ≤ m'.significand := by exact_mod_cast hfar
    rw [hlowest, hhighest]
    nlinarith
  · right
    have hnext : m'.significand = m.significand + 1 := by omega
    refine ⟨?_, by omega⟩
    rw [hlowest, hhighest, hnext]
    push_cast
    linarith

/-- Magnitudes of different exponents are apart. -/
theorem apart_of_exponent (h : m.Canonical) (h' : m'.Canonical) (hlt : m.exponent < m'.exponent) :
    Apart m m' := by
  have hulp := m.ulp_pos
  have habove : -1074 < m'.exponent := by
    have hleast := h.least
    omega
  have hdouble : 2 * m.ulp ≤ m'.ulp := by
    have hpow : (2 : ℚ) ^ (m.exponent + 1) ≤ 2 ^ m'.exponent :=
      zpow_le_zpow_right₀ (by norm_num) (by omega)
    rw [zpow_add_one₀ (by norm_num)] at hpow
    unfold ulp
    linarith
  have hhighest : m.highest = m.significand * m.ulp + m.ulp / 2 := rfl
  have hfull := h'.full habove
  cases hnarrow : m'.narrowBelow with
  | true =>
    obtain ⟨hleast, -⟩ := h'.narrow.mp hnarrow
    have hlowest : m'.lowest = 2 ^ 52 * m'.ulp - m'.ulp / 4 := by
      unfold lowest
      rw [hnarrow, value_eq, hleast]
      norm_num
    rcases Nat.lt_or_ge (m.significand + 1) (2 ^ 53) with hfar | hnear
    · left
      have hcast : (m.significand : ℚ) + 2 ≤ 2 ^ 53 := by exact_mod_cast hfar
      rw [hlowest, hhighest]
      nlinarith
    · right
      have hbits := h.bits
      have hlast : m.significand = 2 ^ 53 - 1 := by omega
      refine ⟨?_, Or.inl (by omega)⟩
      have hcast : (m.significand : ℚ) = 2 ^ 53 - 1 := by
        rw [hlast]
        norm_num
      rw [hlowest, hhighest, hcast]
      linarith
  | false =>
    left
    have hmore : 2 ^ 52 + 1 ≤ m'.significand := by
      have hne : m'.significand ≠ 2 ^ 52 := by
        intro heq
        rw [h'.narrow.mpr ⟨heq, habove⟩] at hnarrow
        cases hnarrow
      omega
    have hcast' : (2 : ℚ) ^ 52 + 1 ≤ m'.significand := by exact_mod_cast hmore
    have hcast : (m.significand : ℚ) + 1 ≤ 2 ^ 53 := by exact_mod_cast h.bits
    have hlowest : m'.lowest = m'.significand * m'.ulp - m'.ulp / 2 := by
      unfold lowest
      rw [hnarrow, value_eq]
      rfl
    have hunits : (2 ^ 52 + 1 - 1 / 2) * m'.ulp ≤ (m'.significand - 1 / 2) * m'.ulp :=
      mul_le_mul_of_nonneg_right (by linarith) m'.ulp_pos.le
    have hunits' : (m.significand + 1 / 2) * m.ulp ≤ (2 ^ 53 - 1 / 2) * m.ulp :=
      mul_le_mul_of_nonneg_right (by linarith) hulp.le
    rw [hlowest, hhighest]
    linarith

/-- A quantity rounds to at most one magnitude. -/
theorem Rounds.unique (h : m.Canonical) (h' : m'.Canonical) (hq : m.Rounds q) (hq' : m'.Rounds q) :
    m = m' := by
  rcases lt_trichotomy m.exponent m'.exponent with hlt | hexp | hgt
  · exact ((apart_of_exponent h h' hlt).disjoint hq hq').elim
  · rcases lt_trichotomy m.significand m'.significand with hlt | hsig | hgt
    · exact ((apart_of_significand h h' hexp hlt).disjoint hq hq').elim
    · have hnarrow : m.narrowBelow = m'.narrowBelow := by
        rw [Bool.eq_iff_iff, h.narrow, h'.narrow, hexp, hsig]
      cases m
      cases m'
      simp_all
    · exact ((apart_of_significand h' h hexp.symm hgt).disjoint hq' hq).elim
  · exact ((apart_of_exponent h' h hgt).disjoint hq' hq).elim

end Magnitude

/-- Bits of a finite number stand for a canonical magnitude. -/
theorem Reading.canonical_of_finite {bits : Nat} {negative : Bool} {m : Magnitude}
    (h : ofBits bits = .finite negative m) : m.Canonical := by
  have hfraction : bits % twoTo 52 < 2 ^ 52 := Nat.mod_lt _ (by decide)
  have htwo : twoTo 52 = 2 ^ 52 := rfl
  unfold ofBits at h
  dsimp only at h
  split at h
  · split at h <;> cases h
  · split at h
    · split at h
      · cases h
      · cases h
        exact ⟨by dsimp only; omega, by dsimp only; omega, Int.le_refl _,
          fun habove => absurd habove (Int.lt_irrefl _), by simp⟩
    · cases h
      refine ⟨by dsimp only; omega, by dsimp only; omega, by dsimp only; omega, ?_, ?_⟩
      · intro
        dsimp only
        omega
      · simp only [Bool.and_eq_true, beq_iff_eq, decide_eq_true_eq]
        omega

/-- A number that is neither infinite nor no number at all. -/
def Reading.Finite : Reading → Prop
  | .notANumber => False
  | .infinite _ => False
  | .zero _ => True
  | .finite _ _ => True

/-- What is not infinite and a number is finite. -/
theorem Reading.finite_of {reading : Reading} (h : ∀ negative, reading ≠ .infinite negative)
    (h' : reading ≠ .notANumber) : reading.Finite := by
  cases reading with
  | notANumber => exact h' rfl
  | infinite negative => exact h negative rfl
  | zero negative => trivial
  | finite negative m => trivial

/-- The bits of a sign. -/
def signBits (negative : Bool) : Nat := if negative then 2 ^ 63 else 0

/-- The bits that stand for a finite number. -/
def Reading.bits : Reading → Nat
  | .notANumber => 0
  | .infinite _ => 0
  | .zero negative => signBits negative
  | .finite negative m =>
    if m.significand < 2 ^ 52 then signBits negative + m.significand
    else signBits negative + ((m.exponent + 1075).toNat * 2 ^ 52 + (m.significand - 2 ^ 52))

/-- The bits of a finite number are known from what they stand for. -/
theorem Reading.bits_ofBits {bits : Nat} (h : bits < 2 ^ 64) (hfinite : (ofBits bits).Finite) :
    (ofBits bits).bits = bits := by
  have hsign : signBits (bits / 2 ^ 63 % 2 == 1) = bits / 2 ^ 63 * 2 ^ 63 := by
    unfold signBits
    split
    · rename_i heq
      rw [beq_iff_eq] at heq
      omega
    · rename_i hne
      rw [beq_iff_eq] at hne
      omega
  have htwo : twoTo 52 = 2 ^ 52 := rfl
  have htwo' : twoTo 63 = 2 ^ 63 := rfl
  have htwo'' : twoTo 11 = 2 ^ 11 := rfl
  unfold ofBits at hfinite ⊢
  rw [htwo, htwo', htwo''] at hfinite ⊢
  dsimp only at hfinite ⊢
  split at hfinite
  · split at hfinite <;> exact hfinite.elim
  · rename_i hfield
    rw [if_neg hfield]
    split
    · split
      · change signBits _ = bits
        omega
      · unfold Reading.bits
        dsimp only
        rw [if_pos (Nat.mod_lt _ (by decide))]
        omega
    · unfold Reading.bits
      dsimp only
      rw [if_neg (Nat.not_lt.mpr (Nat.le_add_right _ _))]
      omega

end Scriptlet.Decimal
