import Mathlib.Data.List.TakeWhile
import Scriptlet.Decimal.Notation
import Scriptlet.Proofs.Decimal.Search
import Scriptlet.Source.Scan

/-!
# The quantity of a numeral

A numeral is digits, or digits with a point and more digits behind it. Its quantity is
that of all the digits, with a power of ten for those behind the point. A decimal is
written as a numeral of its quantity, wherever the point comes to stand.
-/

namespace Scriptlet.Decimal

/-- A numeral and its quantity. -/
inductive Spells : List Char → ℚ → Prop where
  | whole {digits : List Char} (hne : digits ≠ []) (h : ∀ d ∈ digits, d.isDigit = true) :
    Spells digits (digitsValue digits)
  | pointed {digits places : List Char} (hne : digits ≠ []) (h : ∀ d ∈ digits, d.isDigit = true)
    (hplaces : ∀ d ∈ places, d.isDigit = true) :
    Spells (digits ++ '.' :: places) (digitsValue (digits ++ places) / 10 ^ places.length)

/-- The quantity of a text of digits with at most one point. -/
def quantity (text : List Char) : ℚ :=
  digitsValue (text.takeWhile Char.isDigit ++ (text.dropWhile Char.isDigit).drop 1) /
    10 ^ ((text.dropWhile Char.isDigit).drop 1).length

variable {text : List Char} {q q' : ℚ}

/-- The quantity of a numeral is read off it. -/
theorem Spells.eq_quantity (h : Spells text q) : q = quantity text := by
  unfold quantity
  cases h with
  | whole hne h =>
    rw [List.takeWhile_eq_self_iff.mpr h, List.dropWhile_eq_nil_iff.mpr h, List.drop_nil,
      List.append_nil, List.length_nil, pow_zero, div_one]
  | pointed hne h hplaces =>
    have hpoint : ¬ ('.' : Char).isDigit = true := by decide
    rw [List.takeWhile_append_of_pos h, List.takeWhile_cons_of_neg hpoint, List.append_nil,
      List.dropWhile_append_of_pos h, List.dropWhile_cons_of_neg hpoint, List.drop_one,
      List.tail_cons]

/-- A numeral has one quantity. -/
theorem Spells.unique (h : Spells text q) (h' : Spells text q') : q = q' :=
  h.eq_quantity.trans h'.eq_quantity.symm

/-- A numeral begins with a digit, and digits and points follow. -/
theorem Spells.begins (h : Spells text q) :
    ∃ c rest, text = c :: rest ∧ c.isDigit = true ∧ ∀ d ∈ rest, d.isDigit = true ∨ d = '.' := by
  cases h with
  | whole hne h =>
    obtain ⟨c, rest, rfl⟩ := List.exists_cons_of_ne_nil hne
    obtain ⟨hc, hrest⟩ := List.forall_mem_cons.mp h
    exact ⟨c, rest, rfl, hc, fun d hd => Or.inl (hrest d hd)⟩
  | @pointed digits places hne h hplaces =>
    obtain ⟨c, rest, rfl⟩ := List.exists_cons_of_ne_nil hne
    obtain ⟨hc, hrest⟩ := List.forall_mem_cons.mp h
    refine ⟨c, rest ++ '.' :: places, rfl, hc, fun d hd => ?_⟩
    rcases List.mem_append.mp hd with hd | hd
    · exact Or.inl (hrest d hd)
    · exact (List.mem_cons.mp hd).symm.imp_left (hplaces d)

/-- The digits of a natural are digits, and there is at least one. -/
theorem digitChars_digits (n : Nat) :
    digitChars n ≠ [] ∧ ∀ d ∈ digitChars n, d.isDigit = true :=
  ⟨Nat.toDigits_ne_nil, fun _ hd => Nat.isDigit_of_mem_toDigits (by decide) (by decide) hd⟩

/-- Zeros are digits. -/
theorem zeros_digits (count : Nat) : ∀ d ∈ zeros count, d.isDigit = true := by
  intro d hd
  rw [List.eq_of_mem_replicate hd]
  rfl

/-- Some digits before others. -/
theorem digitsValue_append (front back : List Char) :
    digitsValue (front ++ back) = 10 ^ back.length * digitsValue front + digitsValue back := by
  have hback : Nat.ofDigitChars 10 back (digitsValue front) =
      10 ^ back.length * digitsValue front + digitsValue back :=
    Nat.ofDigitChars_eq_ofDigitChars_zero
  exact (Nat.ofDigitChars_append 0).trans hback

/-- Zeros have no quantity. -/
theorem digitsValue_zeros (count : Nat) : digitsValue (zeros count) = 0 :=
  Nat.ofDigitChars_replicate_zero.trans (Nat.mul_zero _)

/-- The digits of a natural stand for it. -/
theorem digitsValue_digitChars (n : Nat) : digitsValue (digitChars n) = n :=
  Nat.ofDigitChars_ten_toDigits

/-- A whole number with a zero behind the point. -/
theorem spells_pointZero (n : Nat) : Spells (digitChars n ++ ['.', '0']) n := by
  obtain ⟨hne, hdigits⟩ := digitChars_digits n
  have hspells := Spells.pointed hne hdigits (zeros_digits 1)
  have hvalue : (digitsValue (digitChars n ++ zeros 1) : ℚ) / 10 ^ (zeros 1).length = n := by
    rw [digitsValue_append, digitsValue_digitChars, digitsValue_zeros]
    unfold zeros
    rw [List.length_replicate]
    push_cast
    ring
  rw [hvalue] at hspells
  exact hspells

/-- Zeros behind the digits of a natural multiply it by a power of ten. -/
theorem spells_zerosBehind (n count : Nat) :
    Spells (digitChars n ++ zeros count) (n * 10 ^ count : ℕ) := by
  obtain ⟨hne, hdigits⟩ := digitChars_digits n
  have hspells := Spells.whole (List.append_ne_nil_of_left_ne_nil hne (zeros count))
    (List.forall_mem_append.mpr ⟨hdigits, zeros_digits count⟩)
  have hvalue : digitsValue (digitChars n ++ zeros count) = n * 10 ^ count := by
    rw [digitsValue_append, digitsValue_digitChars, digitsValue_zeros, Nat.add_zero]
    unfold zeros
    rw [List.length_replicate, Nat.mul_comm]
  rwa [hvalue] at hspells

/-- A point among the digits of a natural divides it by a power of ten. -/
theorem spells_pointAmong {n places : Nat} (h : places < (digitChars n).length) :
    Spells ((digitChars n).take ((digitChars n).length - places) ++
      '.' :: (digitChars n).drop ((digitChars n).length - places)) (n / 10 ^ places) := by
  obtain ⟨-, hdigits⟩ := digitChars_digits n
  generalize hfront : (digitChars n).length - places = front
  have htake : (digitChars n).take front ≠ [] := by
    rw [← List.length_pos_iff, List.length_take]
    omega
  have hback : ∀ c ∈ (digitChars n).drop front, c.isDigit = true :=
    fun c hc => hdigits c (List.mem_of_mem_drop hc)
  have hspells := Spells.pointed htake (fun c hc => hdigits c (List.mem_of_mem_take hc)) hback
  have hlength : ((digitChars n).drop front).length = places := by
    rw [List.length_drop]
    omega
  rwa [List.take_append_drop, digitsValue_digitChars, hlength] at hspells

/-- A point and zeros before the digits of a natural divide it by a power of ten. -/
theorem spells_zerosBefore {n places : Nat} (h : (digitChars n).length ≤ places) :
    Spells ('0' :: '.' :: zeros (places - (digitChars n).length) ++ digitChars n)
      (n / 10 ^ places) := by
  obtain ⟨-, hdigits⟩ := digitChars_digits n
  generalize hmissing : places - (digitChars n).length = missing
  have hzero : zeros 1 ≠ [] := List.cons_ne_nil _ _
  have hspells := Spells.pointed hzero (zeros_digits 1)
    (List.forall_mem_append.mpr ⟨zeros_digits missing, hdigits⟩)
  have hlength : (zeros missing ++ digitChars n).length = places := by
    unfold zeros
    rw [List.length_append, List.length_replicate]
    omega
  rw [digitsValue_append, digitsValue_append, digitsValue_zeros, digitsValue_zeros,
    digitsValue_digitChars, Nat.mul_zero, Nat.mul_zero, Nat.zero_add, Nat.zero_add,
    hlength] at hspells
  exact hspells

/-- A decimal with its power of ten written out is a numeral of its quantity. -/
theorem Scientific.positional_spells (d : Scientific) : Spells (d.positional false) d.value := by
  unfold positional value
  dsimp only
  split
  · rename_i hexp
    have hpow : (d.digits : ℚ) * 10 ^ d.exponent = (d.digits * 10 ^ d.exponent.toNat : ℕ) := by
      rw [← Int.toNat_of_nonneg hexp, zpow_natCast, Int.toNat_natCast]
      push_cast
      rfl
    rw [if_neg Bool.false_ne_true, List.append_nil, hpow]
    exact spells_zerosBehind _ _
  · rename_i hexp
    have hpow : (d.digits : ℚ) * 10 ^ d.exponent = d.digits / 10 ^ (-d.exponent).toNat := by
      have hneg : d.exponent = -((-d.exponent).toNat : ℤ) := by omega
      conv_lhs => rw [hneg, zpow_neg, zpow_natCast]
      rw [div_eq_mul_inv]
    rw [hpow]
    split
    · rename_i hplaces
      exact spells_pointAmong hplaces
    · rename_i hplaces
      exact spells_zerosBefore (Nat.not_lt.mp hplaces)

end Scriptlet.Decimal
