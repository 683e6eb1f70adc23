import Milp.Proofs.Number.Addition
/-!
# Differences of doubles

A double with the other sign is read as the same number with the other sign
(`unpack_negate`), so a difference of two numbers is the sum of the first and the
second with the other sign (`sub_eq_add_negate`). What is known of sums is then
known of differences: taking a finite double from a number leaves a number
(`isNaN_sub`).
-/

namespace Milp

namespace Double

open Float.Model (Format UnpackedFloat)
open Float.Model.UnpackedFloat

variable {x y : Double}

theorem sign_negate (x : Double) : x.negate.sign = -x.sign := by
  rw [sign, sign, isNegative_negate]
  cases x.isNegative <;> rfl

/-- **The other sign is read** as the other sign: the exponent and the fraction are
those of the magnitude. -/
theorem unpack_negate (x : Double) : unpack Format.binary64 x.negate.bits.toBitVec =
    (unpack Format.binary64 x.bits.toBitVec).neg := by
  obtain ⟨hexponent, hfraction⟩ := toNat_fields x
  obtain ⟨hexponent', hfraction'⟩ := toNat_fields x.negate
  rw [magnitude_negate] at hexponent' hfraction'
  have hsameExponent := BitVec.eq_of_toNat_eq (hexponent'.trans hexponent.symm)
  have hsameFraction := BitVec.eq_of_toNat_eq (hfraction'.trans hfraction.symm)
  unfold unpack
  simp only [unpackSign_eq, sign_negate, hsameExponent, hsameFraction]
  split
  · -- infinite, or no number
    split <;> rfl
  · split
    · split <;> rfl
    · rfl

/-- Unpacked numbers are subtracted as one with the other sign is added. -/
theorem sub_unpacked (f : Format) (u v : UnpackedFloat) :
    UnpackedFloat.sub f u v = UnpackedFloat.add f u v.neg := by
  cases v with
  | finite s m e hm =>
    cases u with
    | finite => cases s <;> simp [UnpackedFloat.sub, UnpackedFloat.add, UnpackedFloat.neg,
        Sign.apply, Int.sub_eq_add_neg]
    | _ => rfl
  | _ => cases u <;> rfl

/-- **A difference of numbers is a sum.** -/
theorem sub_eq_add_negate (hx : x.isNaN = false) (hy : y.isNaN = false) :
    x - y = x + y.negate := by
  have hdifference : ofFloat (Float.sub x.toFloat y.toFloat) =
      ofFloat (Float.add x.toFloat y.negate.toFloat) := by
    refine eq_of_bits_eq (UInt64.toBitVec_inj.1 ?_)
    show pack Format.binary64 (UnpackedFloat.sub Format.binary64
      (unpack Format.binary64 (pack Format.binary64 (unpack Format.binary64 x.bits.toBitVec)))
      (unpack Format.binary64 (pack Format.binary64 (unpack Format.binary64 y.bits.toBitVec)))) =
      pack Format.binary64 (UnpackedFloat.add Format.binary64
        (unpack Format.binary64 (pack Format.binary64 (unpack Format.binary64 x.bits.toBitVec)))
        (unpack Format.binary64
          (pack Format.binary64 (unpack Format.binary64 y.negate.bits.toBitVec))))
    rw [pack_unpack_bits hx, pack_unpack_bits hy,
      pack_unpack_bits ((isNaN_negate y).trans hy), unpack_negate, sub_unpacked]
  show combine Float.sub x y = combine Float.add x y.negate
  unfold combine
  rw [isNaN_negate, hx, hy, hdifference]
  rfl

/-- **What is left of a number** when a finite double is taken from it is a
number. -/
theorem isNaN_sub (hx : x.isNaN = false) (hy : y.magnitude.toNat < infinityBits.toNat) :
    (x - y).isNaN = false := by
  rw [sub_eq_add_negate hx (isNaN_eq_false_iff.2 hy.le)]
  exact isNaN_add hx ((magnitude_negate y).symm ▸ hy)

end Double

end Milp
