import Mathlib
import Milp.Proofs.Number.Bits
/-!
# The difference of a double and itself

The arithmetic of doubles is that of `Float`, whose model reads a word as an
unpacked number, operates on it, and writes the result back. A word with an
exponent that is not the largest is read as a finite number, also after it
has been written back once; and the difference of a finite number and itself
is written as zero.
-/

namespace Milp

namespace Double

open Float.Model (Format UnpackedFloat)
open Float.Model.UnpackedFloat (unpackExponent)

variable {x : Double} {b : BitVec Format.binary64.numBits}

/-- Whether an unpacked number is finite. -/
def IsFiniteUnpacked : UnpackedFloat → Prop
  | .zero _ => True
  | .finite _ _ _ _ => True
  | _ => False

/-- **A word is read as a finite number** unless it has the largest exponent. -/
theorem isFinite_unpack (h : unpackExponent b ≠ -1#_) :
    IsFiniteUnpacked (UnpackedFloat.unpack Format.binary64 b) := by
  unfold UnpackedFloat.unpack
  simp only [if_neg h]
  split
  · split <;> trivial
  · trivial

/-- What was read is written back without the largest exponent. -/
theorem unpackExponent_pack_unpack (h : unpackExponent b ≠ -1#_) :
    unpackExponent (UnpackedFloat.pack Format.binary64 (UnpackedFloat.unpack Format.binary64 b)) ≠
      -1#_ := by
  have hnum : ¬ UnpackedFloat.isNaNBits b = true := by
    rw [UnpackedFloat.isNaNBits, decide_eq_true_iff]
    exact fun hnan => h hnan.1
  rw [UnpackedFloat.pack_unpack, if_neg hnum]
  exact h

/-- **A finite number minus itself** is zero. -/
theorem sub_self_unpacked {u : UnpackedFloat} (h : IsFiniteUnpacked u) :
    UnpackedFloat.sub Format.binary64 u u = .zero .positive := by
  cases u with
  | notANumber => exact h.elim
  | infinity s => exact h.elim
  | zero s => cases s <;> rfl
  | finite s m e hm =>
    simp only [UnpackedFloat.sub, Int.sub_self, Float.Model.UnpackedFloat.normalize]
    rfl

/-- The exponent of a finite double is not the largest. -/
theorem unpackExponent_bits (h : x.magnitude.toNat < infinityBits.toNat) :
    @unpackExponent Format.binary64 x.bits.toBitVec ≠ -1#_ := by
  intro heq
  have hnat := congrArg BitVec.toNat heq
  have hlast : (-1#11).toNat = 2047 := by decide
  have hinf : infinityBits.toNat = 2047 * 2 ^ 52 := by decide
  rw [toNat_magnitude, hinf] at h
  rw [hlast, unpackExponent, BitVec.toNat_cast, BitVec.extractLsb_toNat] at hnat
  have hfield : x.bits.toNat / 2 ^ 52 % 2 ^ 11 = 2047 := by
    rw [← Nat.shiftRight_eq_div_pow]
    exact hnat
  omega

/-- **A finite double minus itself is zero.** -/
theorem sub_self (h : x.magnitude.toNat < infinityBits.toNat) :
    combine Float.sub x x = ⟨0⟩ := by
  have hnum : x.isNaN = false := isNaN_eq_false_iff.2 h.le
  have hread : IsFiniteUnpacked (Float.Model.ofBits x.bits).unpack :=
    isFinite_unpack (unpackExponent_pack_unpack (unpackExponent_bits h))
  have hzero : ofFloat (Float.sub x.toFloat x.toFloat) = ⟨0⟩ := by
    have hmodel : Float.sub x.toFloat x.toFloat = .ofModel (Float.Model.pack
        (UnpackedFloat.sub Format.binary64 (Float.Model.ofBits x.bits).unpack
          (Float.Model.ofBits x.bits).unpack)) := rfl
    rw [hmodel, sub_self_unpacked hread]
    rfl
  unfold combine
  rw [hnum, if_neg Bool.false_ne_true, if_neg Bool.false_ne_true, hzero]
  rfl

end Double

end Milp
