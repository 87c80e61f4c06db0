import Mathlib.Data.Nat.Cast.Field
import Mathlib.Data.Set.Function
import Scriptlet.Proofs.Decimal.Digits
import Scriptlet.Proofs.Decimal.Shortest

/-!
# Numbers in trees are known from their text

A finite number is written in a tree as a numeral whose quantity rounds to it, the exact
one if it is whole and a shortest one if not. So no two finite numbers have one text.
-/

namespace Scriptlet.Decimal

/-- A number other than an infinite one and what is no number. -/
def IsFinite (x : Float) : Prop := (Reading.ofFloat x).Finite

/-- The texts that stand for finite numbers: digits, perhaps with a point among them, perhaps behind
a minus sign. -/
inductive Numeric : List Char → Prop where
  | unsigned {c : Char} {rest : List Char} (h : c.isDigit = true)
    (hrest : ∀ d ∈ rest, d.isDigit = true ∨ d = '.') : Numeric (c :: rest)
  | signed {c : Char} {rest : List Char} (h : c.isDigit = true)
    (hrest : ∀ d ∈ rest, d.isDigit = true ∨ d = '.') : Numeric ('-' :: c :: rest)

/-- A quantity of which a number is the nearest one. -/
def Reading.Nearest (reading : Reading) (q : ℚ) : Prop :=
  match reading with
  | .notANumber => False
  | .infinite _ => False
  | .zero _ => q = 0
  | .finite _ m => m.Canonical ∧ m.Rounds q

/-- Whether a number is written with a minus sign. -/
def Reading.negative : Reading → Bool
  | .notANumber => false
  | .infinite negative => negative
  | .zero negative => negative
  | .finite negative _ => negative

/-- The characters of a text with a sign. -/
theorem toList_signed (negative : Bool) (text : List Char) :
    (signed negative (String.ofList text)).toList = if negative then '-' :: text else text := by
  cases negative with
  | true => simp [signed]
  | false => simp [signed]

/-- A whole magnitude is its whole part. -/
theorem Magnitude.value_of_isWhole {m : Magnitude} (h : m.isWhole = true) :
    (m.whole : ℚ) = m.value := by
  obtain ⟨hden, hfraction⟩ := m.fraction_value
  have hdvd : m.fraction.2 ∣ m.fraction.1 := Nat.dvd_of_mod_eq_zero (beq_iff_eq.mp h)
  have hne : (m.fraction.2 : ℚ) ≠ 0 := by exact_mod_cast hden.ne'
  unfold whole
  rw [Nat.cast_div hdvd hne, hfraction, mul_div_cancel_right₀ _ hne]

/-- A finite number is written in a tree as its sign and a numeral that rounds to it. -/
theorem tree_spells {x : Float} (h : IsFinite x) : ∃ text q,
    (tree x).toList = (if (Reading.ofFloat x).negative then '-' :: text else text) ∧
      Spells text q ∧ (Reading.ofFloat x).Nearest q := by
  unfold IsFinite at h
  cases hreading : Reading.ofFloat x with
  | notANumber =>
    rw [hreading] at h
    exact h.elim
  | infinite negative =>
    rw [hreading] at h
    exact h.elim
  | zero negative =>
    have hspells := spells_pointZero 0
    rw [Nat.cast_zero] at hspells
    refine ⟨_, 0, ?_, hspells, rfl⟩
    unfold tree
    rw [hreading]
    exact toList_signed negative _
  | finite negative m =>
    have hcanonical : m.Canonical := Reading.canonical_of_finite hreading
    unfold tree
    rw [hreading]
    dsimp only
    split
    · rename_i hwhole
      have hspells := spells_pointZero m.whole
      rw [Magnitude.value_of_isWhole hwhole] at hspells
      refine ⟨_, _, ?_, hspells, hcanonical, m.rounds_value⟩
      rw [← toList_signed, String.ofList_append]
      rfl
    · refine ⟨_, _, ?_, (m.shortest .upward).positional_spells, hcanonical,
        Magnitude.shortest_rounds hcanonical .upward⟩
      rw [← toList_signed]
      unfold plain Layout.write
      rw [hreading]
      rfl

/-- A finite number is written in a tree in digits, with a point and a minus sign where they
belong. -/
theorem tree_numeric {x : Float} (h : IsFinite x) : Numeric (tree x).toList := by
  obtain ⟨text, q, htext, hspells, -⟩ := tree_spells h
  obtain ⟨c, rest, rfl, hdigit, hrest⟩ := hspells.begins
  rw [htext]
  cases (Reading.ofFloat x).negative with
  | true => exact .signed hdigit hrest
  | false => exact .unsigned hdigit hrest

/-- Two finite numbers of one sign to which one quantity rounds stand for the same. -/
theorem Reading.Nearest.unique {reading reading' : Reading} {q : ℚ} (h : reading.Nearest q)
    (h' : reading'.Nearest q) (hsign : reading.negative = reading'.negative) :
    reading = reading' := by
  cases reading with
  | notANumber => exact h.elim
  | infinite _ => exact h.elim
  | zero negative =>
    cases reading' with
    | notANumber => exact h'.elim
    | infinite _ => exact h'.elim
    | zero negative' => exact congrArg Reading.zero hsign
    | finite negative' m' =>
      have hzero : q = 0 := h
      exact absurd hzero (h'.2.pos h'.1.positive).ne'
  | finite negative m =>
    cases reading' with
    | notANumber => exact h'.elim
    | infinite _ => exact h'.elim
    | zero negative' =>
      have hzero : q = 0 := h'
      exact absurd hzero (h.2.pos h.1.positive).ne'
    | finite negative' m' =>
      exact congrArg₂ Reading.finite hsign (h.2.unique h.1 h'.1 h'.2)

/-- A finite number is known from what it stands for. -/
theorem ofFloat_inj {x y : Float} (hx : IsFinite x) (h : Reading.ofFloat x = Reading.ofFloat y) :
    x = y := by
  have hy : IsFinite y := by
    unfold IsFinite
    rw [← h]
    exact hx
  have hbits : x.toBits.toNat = y.toBits.toNat := by
    rw [← Reading.bits_ofBits x.toBits.toNat_lt hx, ← Reading.bits_ofBits y.toBits.toNat_lt hy]
    exact congrArg Reading.bits h
  have hmodel : x.toModel.toBits = y.toModel.toBits := UInt64.toNat_inj.mp hbits
  obtain ⟨⟨bits, valid⟩⟩ := x
  obtain ⟨⟨bits', valid'⟩⟩ := y
  obtain rfl : bits = bits' := hmodel
  rfl

/-- A sign and a text that begins with a digit are known from the characters of both. -/
theorem signed_inj {negative negative' : Bool} {c c' : Char} {rest rest' : List Char}
    (h : c.isDigit = true) (h' : c'.isDigit = true)
    (heq : (if negative then '-' :: c :: rest else c :: rest) =
      if negative' then '-' :: c' :: rest' else c' :: rest') :
    negative = negative' ∧ c :: rest = c' :: rest' := by
  have hminus : ¬ ('-' : Char).isDigit = true := by decide
  cases negative with
  | true =>
    cases negative' with
    | true => exact ⟨rfl, (List.cons.inj heq).2⟩
    | false => exact absurd ((List.cons.inj heq).1 ▸ h') hminus
  | false =>
    cases negative' with
    | true => exact absurd ((List.cons.inj heq).1 ▸ h) hminus
    | false => exact ⟨rfl, heq⟩

/-- No two finite numbers are written in the same way in trees. -/
theorem tree_injOn : Set.InjOn tree {x | IsFinite x} := by
  intro x hx y hy h
  obtain ⟨text, q, htext, hspells, hnearest⟩ := tree_spells hx
  obtain ⟨text', q', htext', hspells', hnearest'⟩ := tree_spells hy
  rw [h, htext'] at htext
  obtain ⟨c, rest, rfl, hdigit, -⟩ := hspells.begins
  obtain ⟨c', rest', rfl, hdigit', -⟩ := hspells'.begins
  obtain ⟨hsign, hsame⟩ := signed_inj hdigit' hdigit htext
  rw [← hsame] at hspells
  rw [hspells.unique hspells'] at hnearest
  exact ofFloat_inj hx (hnearest.unique hnearest' hsign.symm)

end Scriptlet.Decimal
