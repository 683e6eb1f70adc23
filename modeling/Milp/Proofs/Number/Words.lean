import Milp.Proofs.Number.Difference
import Milp.Proofs.Number.Nearest
/-!
# Writing and reading doubles

The model of `Float` has unpacked numbers, with a mantissa and an exponent. A
mantissa with more than fifty-three bits is shifted right until it has that
many, by as many bits as the spacing of its units says, and what is written is
the magnitude nearest to them (`hasMagnitude_round`, `toNat_pack`). A finite
double is read with the magnitude that it has (`hasMagnitude_unpack`).
-/

namespace Milp

namespace Double

open Float.Model (Format UnpackedFloat totalExponent)
open Float.Model.UnpackedFloat

variable {x : Double} {n k m r : ℕ} {s : Sign} {u : UnpackedFloat}

/-! ## Shifting -/

/-- **What is left of `n` after `k` shifts to the right**: the quotient by
`2 ^ k`, with one bit for the half and one for whether there is more. -/
def IsShifted (n k : ℕ) (em : ExtendedMantissa) : Prop :=
  ∃ d < 2 ^ k, 2 * n = 2 * (em.mantissa * 2 ^ k) + (if em.roundBit then 2 ^ k else 0) + d ∧
    (em.stickyBit = true ↔ 0 < d)

theorem IsShifted.shiftRightOne {em : ExtendedMantissa} (h : IsShifted n k em) :
    IsShifted n (k + 1) em.shiftRightOne := by
  obtain ⟨d, hd, heq, hsticky⟩ := h
  have hsplit : em.mantissa * 2 ^ k = em.mantissa / 2 * 2 ^ (k + 1) + em.mantissa % 2 * 2 ^ k := by
    have hdiv := Nat.div_add_mod em.mantissa 2
    rw [pow_succ]
    nth_rewrite 1 [← hdiv]
    ring
  have hpow : 2 ^ (k + 1) = 2 * 2 ^ k := by ring
  refine ⟨(if em.roundBit then 2 ^ k else 0) + d, ?_, ?_, ?_⟩
  · split <;> omega
  · show 2 * n = 2 * (em.mantissa / 2 * 2 ^ (k + 1)) +
      (if (em.mantissa % 2 != 0) = true then 2 ^ (k + 1) else 0) + _
    rcases Nat.mod_two_eq_zero_or_one em.mantissa with hmod | hmod <;>
      rw [hmod] at hsplit ⊢ <;> simp <;> omega
  · show (em.roundBit || em.stickyBit) = true ↔ _
    have := Nat.two_pow_pos k
    rw [Bool.or_eq_true, hsticky]
    split <;> simp_all

theorem isShifted_shiftRight (n k : ℕ) :
    IsShifted n k (ExtendedMantissa.ofMantissaAndAccuracy n .exact >>> k) := by
  induction k with
  | zero =>
    refine ⟨0, by decide, ?_, iff_of_false Bool.false_ne_true (lt_irrefl 0)⟩
    show 2 * n = 2 * (n * 2 ^ 0) + 0 + 0
    omega
  | succ k ih => exact ih.shiftRightOne

/-- **The rounded mantissa is the rounded quotient.** -/
theorem IsShifted.roundedMantissa {em : ExtendedMantissa} (h : IsShifted n k em) :
    em.roundedMantissa = roundedQuotient n k := by
  obtain ⟨d, hd, heq, hsticky⟩ := h
  -- twice the remainder is what the two bits stand for
  obtain ⟨c, hc, hn⟩ : ∃ c < 2 ^ k, n = c + em.mantissa * 2 ^ k := by
    refine ⟨n - em.mantissa * 2 ^ k, ?_, ?_⟩ <;> split at heq <;> omega
  have hdiv : n / 2 ^ k = em.mantissa := by
    rw [hn, Nat.add_mul_div_right _ _ (Nat.two_pow_pos k), Nat.div_eq_of_lt hc, Nat.zero_add]
  have hmod : n % 2 ^ k = c := by
    rw [hn, Nat.add_mul_mod_self_right, Nat.mod_eq_of_lt hc]
  have htwice : 2 * c = (if em.roundBit then 2 ^ k else 0) + d := by omega
  rw [roundedQuotient, hdiv, hmod, htwice]
  obtain ⟨mantissa, roundBit, stickyBit⟩ := em
  cases roundBit <;> cases stickyBit <;>
    simp [ExtendedMantissa.roundedMantissa, ExtendedMantissa.accuracy,
      Accuracy.roundToNearestEven] at hsticky ⊢ <;> omega

/-! ## Rounding -/

/-- A number of units is written with the exponent of its spacing. -/
theorem targetExponent_eq (hm : m ≠ 0) (a : ℕ) :
    Format.binary64.targetExponent (totalExponent m (a - 1074)) = spacing (m * 2 ^ a) - 1074 := by
  have hlog : (m * 2 ^ a).log2 = m.log2 + a := by
    rw [Nat.log2_eq_iff (Nat.mul_ne_zero hm (Nat.two_pow_pos a).ne')]
    have hpos := Nat.two_pow_pos a
    refine ⟨?_, ?_⟩
    · rw [pow_add]
      exact Nat.mul_le_mul_right _ (Nat.log2_self_le hm)
    · rw [show m.log2 + a + 1 = m.log2 + 1 + a by omega, pow_add]
      exact Nat.mul_lt_mul_of_pos_right Nat.lt_log2_self hpos
  rw [spacing, hlog]
  simp only [Format.targetExponent, totalExponent, Format.mantissaBits, Format.minExponent]
  omega

/-- **Shifting to the exponent of the spacing** rounds. -/
theorem shiftToTargetExponent_eq (hm : m ≠ 0) {a : ℕ} (ha : a ≤ spacing (m * 2 ^ a)) :
    (shiftToTargetExponent Format.binary64 m (a - 1074) .exact).1.roundedMantissa =
        roundedQuotient (m * 2 ^ a) (spacing (m * 2 ^ a)) ∧
      (shiftToTargetExponent Format.binary64 m (a - 1074) .exact).2 =
        spacing (m * 2 ^ a) - 1074 := by
  obtain ⟨j, hj⟩ := Nat.exists_eq_add_of_le' ha
  have hshift : ((spacing (m * 2 ^ a) : ℤ) - 1074 - (a - 1074)).toNat = j := by omega
  simp only [shiftToTargetExponent, targetExponent_eq hm, shiftToExponent, hshift]
  refine ⟨?_, by omega⟩
  rw [(isShifted_shiftRight m j).roundedMantissa, hj, roundedQuotient_scale]

/-- The mantissa and the exponent of a magnitude `m`, whose spacing is `k`. -/
structure IsScientific (m r k : ℕ) : Prop where
  /-- The mantissa has at most fifty-three bits. -/
  lt : r < 2 ^ 53
  /-- It has less only with the least exponent. -/
  le : 2 ^ 52 ≤ r ∨ k = 0
  /-- Together they are the bits of the magnitude. -/
  eq : k * 2 ^ 52 + r = m

/-- **An unpacked number with a magnitude.** -/
def HasMagnitude (u : UnpackedFloat) (s : Sign) (m : ℕ) : Prop :=
  ∃ r k h, u = .finite s r ((k : ℕ) - 1074) h ∧ IsScientific m r k

/-- A mantissa that is written as it is. -/
theorem shiftToTargetExponent_of_lt (hr : 0 < r) (hlt : r < 2 ^ 53) (hk : 2 ^ 52 ≤ r ∨ k = 0) :
    shiftToTargetExponent Format.binary64 r (k - 1074) .exact =
      (ExtendedMantissa.ofMantissaAndAccuracy r .exact, (k : ℤ) - 1074) := by
  have hspacing : spacing (r * 2 ^ k) = k := by
    rcases hk with hle | rfl
    · exact spacing_eq (Nat.mul_le_mul_right _ hle)
        (Nat.mul_lt_mul_of_pos_right hlt (Nat.two_pow_pos k))
    · rw [pow_zero, Nat.mul_one, spacing, Nat.sub_eq_zero_iff_le]
      exact Nat.le_of_lt_succ ((Nat.log2_lt hr.ne').2 hlt)
  have hzero : ((k : ℤ) - 1074 - (k - 1074)).toNat = 0 := by omega
  simp only [shiftToTargetExponent, targetExponent_eq hr.ne', shiftToExponent, hspacing, hzero]
  exact Prod.ext rfl (add_zero ((k : ℤ) - 1074))

/-- One that has a bit too much, because it was rounded up. -/
theorem shiftToTargetExponent_carry (k : ℕ) :
    shiftToTargetExponent Format.binary64 (2 ^ 53) (k - 1074) .exact =
      (ExtendedMantissa.ofMantissaAndAccuracy (2 ^ 52) .exact, ((k + 1 : ℕ) : ℤ) - 1074) := by
  have hspacing : spacing (2 ^ 53 * 2 ^ k) = k + 1 :=
    spacing_eq (by rw [pow_succ]; omega) (by rw [pow_succ]; have := Nat.two_pow_pos k; omega)
  have hone : (((k + 1 : ℕ) : ℤ) - 1074 - (k - 1074)).toNat = 1 := by omega
  simp only [shiftToTargetExponent, targetExponent_eq (by decide : (2 : ℕ) ^ 53 ≠ 0),
    shiftToExponent, hspacing, hone]
  refine Prod.ext rfl ?_
  push_cast
  ring

/-- **An exact mantissa is rounded** to the nearest magnitude. -/
theorem hasMagnitude_roundWithAccuracy (hm : m ≠ 0) {a : ℕ} (ha : a ≤ spacing (m * 2 ^ a)) :
    HasMagnitude (roundWithAccuracy Format.binary64 s m (a - 1074) .exact) s
      (nearest (m * 2 ^ a)) := by
  obtain ⟨hmantissa, hexponent⟩ := shiftToTargetExponent_eq hm ha
  have hle := roundedQuotient_le (m * 2 ^ a)
  have hk : 2 ^ 52 ≤ roundedQuotient (m * 2 ^ a) (spacing (m * 2 ^ a)) ∨
      spacing (m * 2 ^ a) = 0 := by
    rcases Nat.eq_zero_or_pos (spacing (m * 2 ^ a)) with hzero | hpos
    · exact .inr hzero
    · exact .inl (le_roundedQuotient hpos)
  have hpos : 0 < roundedQuotient (m * 2 ^ a) (spacing (m * 2 ^ a)) := by
    rcases hk with hle | hzero
    · omega
    · have hunits := roundedQuotient_mul (m * 2 ^ a) 0
      rw [pow_zero, Nat.mul_one] at hunits
      rw [hzero, hunits]
      exact Nat.mul_pos (Nat.pos_of_ne_zero hm) (Nat.two_pow_pos a)
  unfold roundWithAccuracy
  simp only [hmantissa, hexponent]
  unfold nearest
  generalize spacing (m * 2 ^ a) = k at *
  generalize roundedQuotient (m * 2 ^ a) k = r at *
  rcases Nat.lt_or_eq_of_le hle with hlt | rfl
  · simp only [shiftToTargetExponent_of_lt hpos hlt hk]
    exact ⟨r, k, hpos, dif_neg hpos.ne', hlt, hk, rfl⟩
  · simp only [shiftToTargetExponent_carry]
    refine ⟨2 ^ 52, k + 1, by decide, dif_neg (by decide), by decide, .inl (le_refl _), ?_⟩
    ring

/-- **A sum of units is rounded** to the nearest magnitude. -/
theorem hasMagnitude_round (hm : m ≠ 0) (a : ℕ) :
    HasMagnitude (UnpackedFloat.round Format.binary64 s m (a - 1074)) s (nearest (m * 2 ^ a)) := by
  have hsame : m * 2 ^ (a - spacing (m * 2 ^ a)) * 2 ^ min a (spacing (m * 2 ^ a)) = m * 2 ^ a := by
    rw [Nat.mul_assoc, ← pow_add]
    congr 2
    omega
  have hround : UnpackedFloat.round Format.binary64 s m (a - 1074) =
      roundWithAccuracy Format.binary64 s (m * 2 ^ (a - spacing (m * 2 ^ a)))
        (min a (spacing (m * 2 ^ a)) - 1074) .exact := by
    have hshift : ((a : ℤ) - 1074 - (spacing (m * 2 ^ a) - 1074)).toNat =
        a - spacing (m * 2 ^ a) := by omega
    simp only [UnpackedFloat.round, targetExponent_eq hm, decreaseExponent, hshift,
      Nat.shiftLeft_eq]
    congr 1
    omega
  have hle : min a (spacing (m * 2 ^ a)) ≤
      spacing (m * 2 ^ (a - spacing (m * 2 ^ a)) * 2 ^ min a (spacing (m * 2 ^ a))) := by
    rw [hsame]
    exact Nat.min_le_right _ _
  have hrounded := hasMagnitude_roundWithAccuracy (s := s)
    (Nat.mul_ne_zero hm (Nat.two_pow_pos (a - spacing (m * 2 ^ a))).ne') hle
  rw [hsame] at hrounded
  rw [hround]
  exact_mod_cast hrounded

/-! ## Words -/

theorem toNat_packComponents (s : Sign) (exponent : BitVec 11) (fraction : BitVec 52) :
    (packComponents Format.binary64 s exponent fraction).toNat =
      s.toBitVec.toNat * 2 ^ 63 + (exponent.toNat * 2 ^ 52 + fraction.toNat) := by
  have happend : (packComponents Format.binary64 s exponent fraction).toNat =
      (s.toBitVec.toNat <<< 11 ||| exponent.toNat) <<< 52 ||| fraction.toNat := by
    rw [packComponents, BitVec.toNat_append, BitVec.toNat_append]
  rw [happend, ← Nat.shiftLeft_add_eq_or_of_lt exponent.isLt,
    ← Nat.shiftLeft_add_eq_or_of_lt fraction.isLt, Nat.shiftLeft_eq, Nat.shiftLeft_eq]
  ring

/-- **A magnitude is written** up to infinity. -/
theorem toNat_pack (h : HasMagnitude u s m) : (pack Format.binary64 u).toNat =
    s.toBitVec.toNat * 2 ^ 63 + min infinityBits.toNat m := by
  obtain ⟨r, k, hr, rfl, hlt, hle, heq⟩ := h
  have hinf : infinityBits.toNat = 2047 * 2 ^ 52 := by decide
  have hbiased : ((k : ℤ) - 1074 + Format.binary64.exponentBias +
      Format.binary64.mantissaBitsWithoutImplicit).toNat = k + 1 := by
    show ((k : ℤ) - 1074 + 1023 + 52).toNat = k + 1
    omega
  simp only [pack, hbiased]
  clear hbiased
  show BitVec.toNat (if 2048 ≤ k + 1 + 1 then packComponents Format.binary64 s (-1#11) 0
    else if r.log2 + 1 = 53 then
      packComponents Format.binary64 s (BitVec.ofNat 11 (k + 1)) (BitVec.ofNat 52 r)
    else packComponents Format.binary64 s 0#11 (BitVec.ofNat 52 r)) = _
  split
  · rename_i hover
    have hlast : (-1#11).toNat = 2047 := by decide
    rw [toNat_packComponents, hlast, hinf, Nat.min_eq_left (by omega)]
    rfl
  · rename_i hfits
    have hfull : r.log2 + 1 = 53 ↔ 2 ^ 52 ≤ r := by
      rw [Nat.succ_inj, Nat.log2_eq_iff hr.ne']
      exact ⟨fun h => h.1, fun h => ⟨h, hlt⟩⟩
    rw [hinf, Nat.min_eq_right (by omega)]
    split
    · rename_i hlog
      rw [hfull] at hlog
      have hfraction : r % 2 ^ 52 = r - 2 ^ 52 := by
        rw [Nat.mod_eq_sub_mod hlog, Nat.mod_eq_of_lt (by omega)]
      rw [toNat_packComponents, BitVec.toNat_ofNat, BitVec.toNat_ofNat, hfraction,
        Nat.mod_eq_of_lt (by omega : k + 1 < 2 ^ 11), Nat.succ_mul, Nat.add_assoc (k * 2 ^ 52),
        Nat.add_sub_cancel' hlog, heq]
    · rename_i hlog
      rw [hfull] at hlog
      obtain rfl : k = 0 := hle.resolve_left hlog
      rw [toNat_packComponents, BitVec.toNat_ofNat, BitVec.toNat_ofNat,
        Nat.mod_eq_of_lt (not_le.1 hlog), ← heq, Nat.zero_mod]

section Fields

variable {b : BitVec Format.binary64.numBits}

theorem toNat_unpackExponent : (unpackExponent b).toNat = b.toNat / 2 ^ 52 % 2 ^ 11 := by
  rw [unpackExponent, BitVec.toNat_cast, BitVec.extractLsb_toNat, Nat.shiftRight_eq_div_pow]
  rfl

theorem toNat_unpackMantissa : (unpackMantissa b).toNat = b.toNat % 2 ^ 52 := by
  rw [unpackMantissa, BitVec.toNat_cast, BitVec.extractLsb_toNat]
  rfl

theorem toNat_unpackSign : (unpackSign b).toNat = b.toNat / 2 ^ 63 % 2 := by
  rw [unpackSign, BitVec.toNat_cast, BitVec.extractLsb_toNat, Nat.shiftRight_eq_div_pow]
  rfl

end Fields

/-! ## Reading -/

/-- The sign of a double. -/
def sign (x : Double) : Sign := if x.isNegative then .negative else .positive

theorem unpackSign_eq (x : Double) :
    Sign.ofBitVec (@unpackSign Format.binary64 x.bits.toBitVec) = x.sign := by
  have hbit := toNat_unpackSign (b := x.bits.toBitVec)
  have hbits : x.bits.toBitVec.toNat = x.bits.toNat := rfl
  have hlt : x.bits.toNat < 2 ^ 64 := x.bits.toNat_lt
  have hzero : (0#1).toNat = 0 := rfl
  rw [hbits] at hbit
  rw [sign, isNegative_eq, Sign.ofBitVec]
  by_cases hneg : 2 ^ 63 ≤ x.bits.toNat
  · rw [if_pos (decide_eq_true hneg), if_neg]
    intro hpositive
    rw [hpositive] at hbit
    omega
  · rw [if_pos (BitVec.eq_of_toNat_eq (hbit.trans (by omega))), if_neg (by simpa using hneg)]

/-- The fields of the word of a double are those of its magnitude. -/
theorem toNat_fields (x : Double) :
    (@unpackExponent Format.binary64 x.bits.toBitVec).toNat =
        x.magnitude.toNat / 2 ^ 52 ∧
      (@unpackMantissa Format.binary64 x.bits.toBitVec).toNat =
        x.magnitude.toNat % 2 ^ 52 := by
  have hmag := toNat_magnitude x
  have hbits : x.bits.toBitVec.toNat = x.bits.toNat := rfl
  rw [toNat_unpackExponent, toNat_unpackMantissa, hbits]
  omega

/-- **A finite double is read** as zero, or with its magnitude. -/
theorem hasMagnitude_unpack (h : x.magnitude.toNat < infinityBits.toNat) :
    (x.magnitude.toNat = 0 ∧ unpack Format.binary64 x.bits.toBitVec = .zero x.sign) ∨
      HasMagnitude (unpack Format.binary64 x.bits.toBitVec) x.sign x.magnitude.toNat := by
  obtain ⟨hexponent, hfraction⟩ := toNat_fields x
  have hinf : infinityBits.toNat = 2047 * 2 ^ 52 := by decide
  unfold unpack
  simp only [if_neg (unpackExponent_bits h), unpackSign_eq]
  split
  · -- the least exponent
    rename_i hleast
    have hsmall : x.magnitude.toNat < 2 ^ 52 := by
      rw [hleast] at hexponent
      have hzero : (0#11).toNat = 0 := rfl
      omega
    rw [Nat.mod_eq_of_lt hsmall] at hfraction
    split
    · rename_i hnone
      rw [hnone] at hfraction
      exact .inl ⟨hfraction.symm, rfl⟩
    · rename_i hsome
      refine .inr ⟨x.magnitude.toNat, 0, ?_, ?_, by omega, .inr rfl, ?_⟩
      · rw [← hfraction, Nat.pos_iff_ne_zero]
        exact fun hzero => hsome (BitVec.eq_of_toNat_eq hzero)
      · simp only [hfraction, hleast]
        rfl
      · rw [Nat.zero_mul, Nat.zero_add]
  · rename_i hmore
    have hlarge : 1 ≤ x.magnitude.toNat / 2 ^ 52 := by
      rw [← hexponent, Nat.one_le_iff_ne_zero]
      exact fun hzero => hmore (BitVec.eq_of_toNat_eq hzero)
    have hmantissa : (1#1 ++ @unpackMantissa Format.binary64 x.bits.toBitVec).toNat =
        2 ^ 52 + x.magnitude.toNat % 2 ^ 52 := by
      rw [BitVec.toNat_append, ← Nat.shiftLeft_add_eq_or_of_lt (BitVec.isLt _), hfraction]
      rfl
    refine .inr ⟨2 ^ 52 + x.magnitude.toNat % 2 ^ 52, x.magnitude.toNat / 2 ^ 52 - 1, by omega, ?_,
      by omega, .inl (by omega), by omega⟩
    simp only [hmantissa, hexponent]
    congr 1
    show (_ : ℤ) - (1023 + 52) = _
    omega

end Double

end Milp
