import Scriptlet.Proofs.Decimal.Rounding
import Scriptlet.Source.Scan

/-!
# Numerals are numbers

A numeral of few digits is a quotient of two finite numbers, and any other is packed from
a quantity that is zero, finite or infinite. Rounding makes no such quantity into what is
no number, nor does dividing one by a finite number, and packing keeps it one. So no
numeral stands for what is no number.
-/

namespace Scriptlet.Decimal

open Float.Model Float.Model.UnpackedFloat

/-- An unpacked quantity that is a number, perhaps an infinite one. -/
def IsNumber : UnpackedFloat → Prop
  | .infinity _ => True
  | .notANumber => False
  | .zero _ => True
  | .finite _ _ _ _ => True

/-- A choice between numbers is a number. -/
theorem isNumber_dite {c : Prop} [Decidable c] {yes : c → UnpackedFloat} {no : ¬c → UnpackedFloat}
    (hyes : ∀ h, IsNumber (yes h)) (hno : ∀ h, IsNumber (no h)) : IsNumber (dite c yes no) := by
  by_cases h : c
  · rw [dif_pos h]
    exact hyes h
  · rw [dif_neg h]
    exact hno h

/-- Bits that stand for no number: the exponent is that of infinite ones and the mantissa is not. -/
def Unnumbered (b : BitVec Format.binary64.numBits) : Prop :=
  unpackExponent b = -1#_ ∧ unpackMantissa b ≠ 0#_

/-- Components without a mantissa are bits of a number. -/
theorem not_unnumbered_of_mantissa (sign : Sign) (exponent : BitVec 11) :
    ¬ Unnumbered (packComponents Format.binary64 sign exponent 0#_) := by
  rintro ⟨-, hmantissa⟩
  rw [unpackMantissa_packComponents] at hmantissa
  exact hmantissa rfl

/-- Components whose exponent is not the last one are bits of a number. -/
theorem not_unnumbered_of_exponent (sign : Sign) {exponent : BitVec 11} (mantissa : BitVec 52)
    (h : exponent ≠ -1#_) :
    ¬ Unnumbered (packComponents Format.binary64 sign exponent mantissa) := by
  rintro ⟨hexponent, -⟩
  rw [unpackExponent_packComponents] at hexponent
  exact h hexponent

/-- A number is packed into the bits of one. -/
theorem not_unnumbered_pack {u : UnpackedFloat} (h : IsNumber u) :
    ¬ Unnumbered (UnpackedFloat.pack Format.binary64 u) := by
  cases u with
  | infinity sign => exact not_unnumbered_of_mantissa sign _
  | notANumber => exact h.elim
  | zero sign => exact not_unnumbered_of_mantissa sign _
  | finite sign mantissa exponent hpos =>
    delta UnpackedFloat.pack
    dsimp only
    split
    · exact not_unnumbered_of_mantissa sign _
    · rename_i hfits
      split
      · refine not_unnumbered_of_exponent sign _ fun heq => ?_
        have hvalue := congrArg BitVec.toNat heq
        rw [BitVec.toNat_ofNat] at hvalue
        have hlast : (-1#11).toNat = 2047 := by decide
        omega
      · exact not_unnumbered_of_exponent sign _ (by decide)

/-- Bits of a number are unpacked to one. -/
theorem isNumber_unpack {b : BitVec Format.binary64.numBits} (h : ¬ Unnumbered b) :
    IsNumber (UnpackedFloat.unpack Format.binary64 b) := by
  delta UnpackedFloat.unpack
  dsimp only
  refine isNumber_dite (fun hexponent => ?_) fun _ => ?_
  · exact isNumber_dite (fun _ => trivial) fun hmantissa => h ⟨hexponent, hmantissa⟩
  · refine isNumber_dite (fun _ => ?_) fun _ => trivial
    exact isNumber_dite (fun _ => trivial) fun _ => trivial

/-- The exponent field of bits. -/
theorem toNat_unpackExponent (b : BitVec Format.binary64.numBits) :
    (unpackExponent b).toNat = b.toNat / 2 ^ 52 % 2 ^ 11 := by
  show ((b.extractLsb 62 52).cast _).toNat = _
  rw [BitVec.toNat_cast, BitVec.extractLsb_toNat, Nat.shiftRight_eq_div_pow]

/-- The fraction field of bits. -/
theorem toNat_unpackMantissa (b : BitVec Format.binary64.numBits) :
    (unpackMantissa b).toNat = b.toNat % 2 ^ 52 := by
  show ((b.extractLsb 51 0).cast _).toNat = _
  rw [BitVec.toNat_cast, BitVec.extractLsb_toNat, Nat.shiftRight_zero]

/-- What is read of bits of a number is one. -/
theorem ofBits_isNumber {b : BitVec Format.binary64.numBits} (h : ¬ Unnumbered b) :
    Reading.ofBits b.toNat ≠ .notANumber := by
  intro hreading
  unfold Reading.ofBits at hreading
  dsimp only at hreading
  split at hreading
  · rename_i hfield
    split at hreading
    · cases hreading
    · rename_i hfraction
      refine h ⟨BitVec.eq_of_toNat_eq ?_, fun hzero => hfraction ?_⟩
      · rw [toNat_unpackExponent]
        exact hfield
      · have hvalue := congrArg BitVec.toNat hzero
        rw [toNat_unpackMantissa] at hvalue
        exact hvalue
  · split at hreading
    · split at hreading <;> cases hreading
    · cases hreading

/-- Rounding gives a number. -/
theorem isNumber_round (sign : Sign) (mantissa : Nat) (exponent : Int) (accuracy : Accuracy) :
    IsNumber (roundWithAccuracy Format.binary64 sign mantissa exponent accuracy) := by
  delta roundWithAccuracy
  exact isNumber_dite (fun _ => trivial) fun _ => trivial

/-- A whole number is rounded to a number. -/
theorem isNumber_ofUInt64 (n : UInt64) : IsNumber (UnpackedFloat.ofUInt64 Format.binary64 n) := by
  show IsNumber (UnpackedFloat.normalize Format.binary64 n.toNat 0 .positive)
  delta UnpackedFloat.normalize
  split
  · exact isNumber_round _ _ _ _
  · trivial
  · exact isNumber_round _ _ _ _

/-- An unpacked quantity that is a finite number other than zero. -/
def isNonzero : UnpackedFloat → Bool
  | .infinity _ => false
  | .notANumber => false
  | .zero _ => false
  | .finite _ _ _ _ => true

/-- A number over a finite one other than zero is a number. -/
theorem isNumber_div {u v : UnpackedFloat} (hu : IsNumber u) (hv : isNonzero v = true) :
    IsNumber (UnpackedFloat.div Format.binary64 u v) := by
  cases v with
  | infinity sign => cases hv
  | notANumber => cases hv
  | zero sign => cases hv
  | finite sign' mantissa' exponent' hpos' =>
    cases u with
    | infinity sign => trivial
    | notANumber => exact hu.elim
    | zero sign => trivial
    | finite sign mantissa exponent hpos => exact isNumber_round _ _ _ _

/-- A finite number times a finite one is a number. -/
theorem isNumber_mul (sign sign' : Sign) {mantissa mantissa' : Nat} (exponent exponent' : Int)
    (hpos : 0 < mantissa) (hpos' : 0 < mantissa') :
    IsNumber (UnpackedFloat.mul Format.binary64 (.finite sign mantissa exponent hpos)
      (.finite sign' mantissa' exponent' hpos')) :=
  isNumber_round _ _ _ _

/-- A natural with a power of ten is a number. -/
theorem isNumber_ofScientific (n : Nat) (e : Int) :
    IsNumber (UnpackedFloat.ofScientific Format.binary64 n e) := by
  delta UnpackedFloat.ofScientific
  refine isNumber_dite (fun _ => trivial) fun _ => ?_
  refine isNumber_dite (fun _ => trivial) fun _ => ?_
  refine isNumber_dite (fun _ => trivial) fun _ => ?_
  exact isNumber_dite (fun _ => isNumber_mul _ _ _ _ _ _) fun _ => isNumber_div trivial rfl

/-- Every power of ten of the table is a finite number. -/
theorem powersOfTen_nonzero :
    Float.exactlyRepresentablePowersOfTen.all (fun p => isNonzero p.toModel.unpack) = true := by
  decide +kernel

/-- A number in decimal notation is a number. -/
theorem ofScientific_isNumber (n : Nat) (e : Nat) :
    Reading.ofFloat (Float.ofScientific n true e) ≠ .notANumber := by
  have hpacked : ∀ u : UnpackedFloat, IsNumber u →
      Reading.ofFloat (Float.ofModel (Float.Model.pack u)) ≠ .notANumber :=
    fun u hu => ofBits_isNumber (not_unnumbered_pack hu)
  delta Float.ofScientific
  dsimp only
  split
  · rename_i hsmall
    rw [if_pos rfl]
    refine hpacked _ (isNumber_div (isNumber_unpack (not_unnumbered_pack ?_)) ?_)
    · exact isNumber_ofUInt64 _
    · exact Array.all_eq_true_iff_forall_mem.mp powersOfTen_nonzero _ (Array.getElem_mem _)
  · exact hpacked _ (isNumber_ofScientific _ _)

/-- No numeral stands for what is no number. -/
theorem numeral_isNumber (lexeme : List Char) :
    Reading.ofFloat (numeral lexeme) ≠ .notANumber :=
  ofScientific_isNumber _ _

end Scriptlet.Decimal
