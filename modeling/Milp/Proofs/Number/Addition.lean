import Milp.Proofs.Number.Words
/-!
# Sums of doubles

The sum of two finite doubles is the double nearest to the sum of their units
(`rank_add`): the exponents are aligned, the mantissas are added, and the sum
is rounded. As rounding keeps the order, adding the same finite double on both
sides keeps it too (`add_le_add_of_finite`), also where a side is infinite.
-/

namespace Milp

namespace Double

open Float.Model (Format UnpackedFloat)
open Float.Model.UnpackedFloat

variable {x y t : Double} {k m r : ℕ} {s : Sign} {u : UnpackedFloat}

/-! ## Adding -/

/-- The units of a mantissa and an exponent. -/
theorem IsScientific.units_eq (h : IsScientific m r k) : units m = r * 2 ^ k := by
  obtain ⟨hlt, hle, rfl⟩ := h
  by_cases hlarge : 2 ^ 52 ≤ r
  · have hbits : k * 2 ^ 52 + r = (k + 1) * 2 ^ 52 + (r - 2 ^ 52) := by omega
    rw [hbits, units_line (by omega) (by omega), Nat.add_sub_cancel' hlarge, Nat.add_sub_cancel]
  · obtain rfl : k = 0 := hle.resolve_left hlarge
    have hsmall : 0 * 2 ^ 52 + r < 2 ^ 52 := by omega
    rw [units, if_pos hsmall, pow_zero]
    omega

/-- How many units a finite double stands for. -/
def signedUnits (x : Double) : ℤ := x.sign.apply (units x.magnitude.toNat)

/-- **An unpacked number that some units are rounded to.** -/
def RoundsTo (u : UnpackedFloat) (z : ℤ) : Prop :=
  (z = 0 ∧ ∃ s, u = .zero s) ∨
    (z ≠ 0 ∧ HasMagnitude u (if z < 0 then .negative else .positive) (nearest z.natAbs))

/-- **Units are rounded.** -/
theorem roundsTo_normalize (z : ℤ) (a : ℕ) :
    RoundsTo (UnpackedFloat.normalize Format.binary64 z (a - 1074) .positive) (z * 2 ^ a) := by
  have hpos : (0 : ℤ) < 2 ^ a := by positivity
  unfold UnpackedFloat.normalize
  split
  · rename_i hlt
    have hneg : z < 0 := compare_lt_iff_lt.1 hlt
    have hprod : z * 2 ^ a < 0 := mul_neg_of_neg_of_pos hneg hpos
    have habs : (z * 2 ^ a).natAbs = (-z).toNat * 2 ^ a := by
      rw [Int.natAbs_mul, Int.natAbs_pow]
      congr 1
      omega
    refine .inr ⟨hprod.ne, ?_⟩
    rw [if_pos hprod, habs]
    exact hasMagnitude_round (by omega) a
  · rename_i heq
    obtain rfl : z = 0 := compare_eq_iff_eq.1 heq
    exact .inl ⟨zero_mul _, _, rfl⟩
  · rename_i hgt
    have hz : 0 < z := compare_gt_iff_gt.1 hgt
    have hprod : 0 < z * 2 ^ a := mul_pos hz hpos
    have habs : (z * 2 ^ a).natAbs = z.toNat * 2 ^ a := by
      rw [Int.natAbs_mul, Int.natAbs_pow]
      congr 1
      omega
    refine .inr ⟨hprod.ne', ?_⟩
    rw [if_neg hprod.not_gt, habs]
    exact hasMagnitude_round (by omega) a

theorem units_eq_zero_iff : units m = 0 ↔ m = 0 := by
  have hzero : units 0 = 0 := rfl
  rw [← hzero]
  exact strictMono_units.injective.eq_iff

theorem signedUnits_eq_zero_iff : x.signedUnits = 0 ↔ x.magnitude.toNat = 0 := by
  rw [signedUnits, ← units_eq_zero_iff, ← Int.natCast_eq_zero]
  cases x.sign
  · exact neg_eq_zero
  · exact Iff.rfl

/-- **A finite double is its own rounding.** -/
theorem roundsTo_unpack (h : x.magnitude.toNat < infinityBits.toNat) :
    RoundsTo (unpack Format.binary64 x.bits.toBitVec) x.signedUnits := by
  rcases hasMagnitude_unpack h with ⟨hzero, hread⟩ | hread
  · exact .inl ⟨signedUnits_eq_zero_iff.2 hzero, _, hread⟩
  · by_cases hzero : x.magnitude.toNat = 0
    · obtain ⟨r, k, hr, -, hscientific⟩ := hread
      rw [hzero] at hscientific
      have := hscientific.eq
      omega
    have hpos : 0 < units x.magnitude.toNat :=
      Nat.pos_of_ne_zero fun h => hzero (units_eq_zero_iff.1 h)
    refine .inr ⟨fun h => hzero (signedUnits_eq_zero_iff.1 h), ?_⟩
    have hsign : (if x.signedUnits < 0 then .negative else .positive : Sign) = x.sign := by
      unfold signedUnits
      cases x.sign
      · exact if_pos (by show -(units x.magnitude.toNat : ℤ) < 0; omega)
      · exact if_neg (by show ¬ (units x.magnitude.toNat : ℤ) < 0; omega)
    have habs : x.signedUnits.natAbs = units x.magnitude.toNat := by
      unfold signedUnits
      cases x.sign
      · exact (Int.natAbs_neg _).trans (Int.natAbs_natCast _)
      · exact Int.natAbs_natCast _
    rw [hsign, habs, nearest_units]
    exact hread

/-- The mantissa of a number at a smaller exponent. -/
theorem decreaseExponent_eq (r : ℕ) {a b : ℕ} (h : b ≤ a) :
    decreaseExponent r (a - 1074) (b - 1074) = (r * 2 ^ (a - b), (b : ℤ) - 1074) := by
  have hshift : ((a : ℤ) - 1074 - (b - 1074)).toNat = a - b := by omega
  simp only [decreaseExponent, hshift, Nat.shiftLeft_eq]
  congr 1
  omega

/-- The units of a mantissa at a smaller exponent. -/
theorem signedUnits_eq {a : ℕ} (h : IsScientific x.magnitude.toNat r k) (ha : a ≤ k) :
    x.signedUnits = x.sign.apply (r * 2 ^ (k - a) : ℕ) * 2 ^ a := by
  have hunits : units x.magnitude.toNat = r * 2 ^ (k - a) * 2 ^ a := by
    rw [h.units_eq, Nat.mul_assoc, ← pow_add, Nat.sub_add_cancel ha]
  rw [signedUnits, hunits]
  cases x.sign
  · show -((_ : ℕ) : ℤ) = -((_ : ℕ) : ℤ) * 2 ^ a
    push_cast
    ring
  · exact_mod_cast rfl

/-- **The sum of two finite doubles is rounded** from the sum of their units. -/
theorem roundsTo_add (hx : x.magnitude.toNat < infinityBits.toNat)
    (hy : y.magnitude.toNat < infinityBits.toNat) :
    RoundsTo (UnpackedFloat.add Format.binary64 (unpack Format.binary64 x.bits.toBitVec)
      (unpack Format.binary64 y.bits.toBitVec)) (x.signedUnits + y.signedUnits) := by
  have hroundx := roundsTo_unpack hx
  have hroundy := roundsTo_unpack hy
  rcases hasMagnitude_unpack hx with ⟨hzerox, hreadx⟩ | ⟨r, k, hr, hreadx, hscix⟩
  · have hunits : x.signedUnits = 0 := signedUnits_eq_zero_iff.2 hzerox
    rcases hasMagnitude_unpack hy with ⟨hzeroy, hready⟩ | ⟨r', k', hr', hready, hsciy⟩
    · rw [hreadx, hready, hunits, signedUnits_eq_zero_iff.2 hzeroy]
      simp only [UnpackedFloat.add]
      split <;> exact .inl ⟨rfl, _, rfl⟩
    · rw [hunits, zero_add, hreadx]
      rw [hready] at hroundy ⊢
      exact hroundy
  · rcases hasMagnitude_unpack hy with ⟨hzeroy, hready⟩ | ⟨r', k', hr', hready, hsciy⟩
    · rw [signedUnits_eq_zero_iff.2 hzeroy, add_zero, hready]
      rw [hreadx] at hroundx ⊢
      exact hroundx
    · have hmin : min ((k : ℤ) - 1074) (k' - 1074) = (min k k' : ℕ) - 1074 := by omega
      have hsum : x.signedUnits + y.signedUnits =
          (x.sign.apply (r * 2 ^ (k - min k k') : ℕ) +
            y.sign.apply (r' * 2 ^ (k' - min k k') : ℕ)) * 2 ^ min k k' := by
        rw [add_mul, ← signedUnits_eq hscix (Nat.min_le_left k k'),
          ← signedUnits_eq hsciy (Nat.min_le_right k k')]
      rw [hreadx, hready, hsum]
      simp only [UnpackedFloat.add, hmin, decreaseExponent_eq _ (Nat.min_le_left k k'),
        decreaseExponent_eq _ (Nat.min_le_right k k')]
      exact roundsTo_normalize _ _

/-! ## Ranks -/

/-- The place among the numbers of what some units are rounded to. -/
def nearestRank (z : ℤ) : ℕ :=
  if z < 0 then 2 ^ 63 - min infinityBits.toNat (nearest z.natAbs)
  else 2 ^ 63 + min infinityBits.toNat (nearest z.natAbs)

/-- **Rounding keeps the order.** -/
theorem nearestRank_mono : Monotone nearestRank := by
  intro z w h
  unfold nearestRank
  split
  · split
    · have := nearest_mono (by omega : w.natAbs ≤ z.natAbs)
      omega
    · omega
  · have := nearest_mono (by omega : z.natAbs ≤ w.natAbs)
    rw [if_neg (by omega)]
    omega

/-- The double that a word holds, by its sign and its magnitude. -/
theorem of_toNat_bits (hbits : x.bits.toNat = s.toBitVec.toNat * 2 ^ 63 + m) (hm : m < 2 ^ 63) :
    x.magnitude.toNat = m ∧ (x.isNegative = true ↔ s = .negative) := by
  rw [toNat_magnitude, isNegative_eq, decide_eq_true_eq, hbits]
  cases s with
  | negative =>
    show (1 * 2 ^ 63 + m) % 2 ^ 63 = m ∧ (2 ^ 63 ≤ 1 * 2 ^ 63 + m ↔ _)
    exact ⟨by omega, iff_of_true (by omega) rfl⟩
  | positive =>
    show (0 * 2 ^ 63 + m) % 2 ^ 63 = m ∧ (2 ^ 63 ≤ 0 * 2 ^ 63 + m ↔ _)
    exact ⟨by omega, iff_of_false (by omega) nofun⟩

/-- **What is written has the rank** of what it was rounded from, and is a
number. -/
theorem rank_of_roundsTo {z : ℤ} (h : RoundsTo u z)
    (hbits : x.bits.toBitVec = pack Format.binary64 u) :
    x.isNaN = false ∧ x.rank.toNat = nearestRank z := by
  have hnat : x.bits.toNat = (pack Format.binary64 u).toNat := congrArg BitVec.toNat hbits
  have hinf : infinityBits.toNat < 2 ^ 63 := by decide
  rw [isNaN_eq_false_iff, toNat_rank]
  rcases h with ⟨rfl, s, rfl⟩ | ⟨hne, hmag⟩
  · have hword : x.bits.toNat = s.toBitVec.toNat * 2 ^ 63 + 0 := by
      rw [hnat]
      exact toNat_packComponents s 0 0
    obtain ⟨hmagnitude, -⟩ := of_toNat_bits hword (by decide)
    rw [hmagnitude]
    refine ⟨Nat.zero_le _, ?_⟩
    split <;> rfl
  · obtain ⟨hmagnitude, hsign⟩ := of_toNat_bits (hnat.trans (toNat_pack hmag)) (by omega)
    rw [hmagnitude, nearestRank]
    refine ⟨Nat.min_le_left _ _, ?_⟩
    by_cases hneg : z < 0
    · rw [if_pos hneg, if_pos (hsign.2 (if_pos hneg))]
    · rw [if_neg hneg, if_neg]
      rw [hsign, if_neg hneg]
      exact nofun

/-! ## Sums -/

/-- A number is written back as it was read. -/
theorem pack_unpack_bits (h : x.isNaN = false) :
    pack Format.binary64 (unpack Format.binary64 x.bits.toBitVec) = x.bits.toBitVec := by
  have hnum : ¬ @isNaNBits Format.binary64 x.bits.toBitVec = true := by
    rw [isNaNBits, decide_eq_true_iff]
    rintro ⟨hlast, hsome⟩
    obtain ⟨hexponent, hfraction⟩ := toNat_fields x
    have hfield : (-1#11).toNat = x.magnitude.toNat / 2 ^ 52 := hlast ▸ hexponent
    have hnat : (-1#11).toNat = 2047 := by decide
    have hinf : infinityBits.toNat = 2047 * 2 ^ 52 := by decide
    rw [isNaN_eq_false_iff] at h
    have hnone : x.magnitude.toNat % 2 ^ 52 = 0 := by omega
    exact hsome (BitVec.eq_of_toNat_eq (hfraction.trans hnone))
  rw [pack_unpack, if_neg hnum]

/-- The sum of two numbers, by what is read of them. -/
theorem add_eq (hx : x.isNaN = false) (hy : y.isNaN = false) {z : Double}
    (hz : z.bits.toBitVec = pack Format.binary64
      (UnpackedFloat.add Format.binary64 (unpack Format.binary64 x.bits.toBitVec)
        (unpack Format.binary64 y.bits.toBitVec))) (hnum : z.isNaN = false) : x + y = z := by
  have hsum : ofFloat (Float.add x.toFloat y.toFloat) = z := by
    refine eq_of_bits_eq (UInt64.toBitVec_inj.1 ?_)
    rw [hz]
    show pack Format.binary64 (UnpackedFloat.add Format.binary64
      (unpack Format.binary64 (pack Format.binary64 (unpack Format.binary64 x.bits.toBitVec)))
      (unpack Format.binary64 (pack Format.binary64 (unpack Format.binary64 y.bits.toBitVec)))) = _
    rw [pack_unpack_bits hx, pack_unpack_bits hy]
  show combine Float.add x y = z
  unfold combine
  simp only [hx, hy, hsum, hnum, Bool.false_eq_true, if_false]

/-- **The sum of two finite doubles** is the double nearest to the sum of
their units. -/
theorem rank_add (hx : x.magnitude.toNat < infinityBits.toNat)
    (hy : y.magnitude.toNat < infinityBits.toNat) :
    (x + y).isNaN = false ∧ (x + y).rank.toNat = nearestRank (x.signedUnits + y.signedUnits) := by
  obtain ⟨hnum, hrank⟩ := rank_of_roundsTo (x := ⟨⟨pack Format.binary64 _⟩⟩)
    (roundsTo_add hx hy) rfl
  rw [add_eq (isNaN_eq_false_iff.2 hx.le) (isNaN_eq_false_iff.2 hy.le) rfl hnum]
  exact ⟨hnum, hrank⟩

/-- **An infinite double stays** when a finite one is added. -/
theorem add_of_infinite (hx : x.magnitude.toNat = infinityBits.toNat)
    (ht : t.magnitude.toNat < infinityBits.toNat) : x + t = x := by
  have hnum : x.isNaN = false := isNaN_eq_false_iff.2 hx.le
  have hread : unpack Format.binary64 x.bits.toBitVec = .infinity x.sign := by
    obtain ⟨hexponent, hfraction⟩ := toNat_fields x
    have hinf : infinityBits.toNat = 2047 * 2 ^ 52 := by decide
    have hlast : x.magnitude.toNat / 2 ^ 52 = (-1#11).toNat := by
      have : (-1#11).toNat = 2047 := by decide
      omega
    have hnone : x.magnitude.toNat % 2 ^ 52 = (0#52).toNat := by
      have : (0#52).toNat = 0 := rfl
      omega
    unfold unpack
    simp only [unpackSign_eq]
    rw [if_pos (BitVec.eq_of_toNat_eq (hexponent.trans hlast)),
      if_pos (BitVec.eq_of_toNat_eq (hfraction.trans hnone))]
  have hwritten := pack_unpack_bits hnum
  rw [hread] at hwritten
  refine add_eq hnum (isNaN_eq_false_iff.2 ht.le) ?_ hnum
  -- zero is added, or another finite number
  rw [hread, ← hwritten]
  rcases hasMagnitude_unpack ht with ⟨-, hreadt⟩ | ⟨r, k, hr, hreadt, -⟩ <;> rw [hreadt] <;> rfl

/-! ## Order -/

/-- The value of a double is its units. -/
theorem value_eq_signedUnits (x : Double) : x.value = x.signedUnits / unitsPerOne := by
  rw [value, signedUnits, sign, absValue]
  cases x.isNegative with
  | false =>
    show (units x.magnitude.toNat : ℚ) / unitsPerOne = ((units x.magnitude.toNat : ℤ) : ℚ) / _
    rw [Int.cast_natCast]
  | true =>
    show -((units x.magnitude.toNat : ℚ) / unitsPerOne) =
      ((-(units x.magnitude.toNat : ℤ) : ℤ) : ℚ) / _
    rw [Int.cast_neg, Int.cast_natCast, neg_div]

theorem signedUnits_le_of_le (h : x ≤ y) : x.signedUnits ≤ y.signedUnits := by
  obtain ⟨-, -, hvalue⟩ := le_iff_value.1 h
  rw [value_eq_signedUnits, value_eq_signedUnits,
    div_le_div_iff_of_pos_right unitsPerOne_pos_rat] at hvalue
  exact Int.cast_le.1 hvalue

/-- What is added to a finite double is a number if it was one. -/
theorem isNaN_add (hx : x.isNaN = false) (ht : t.magnitude.toNat < infinityBits.toNat) :
    (x + t).isNaN = false := by
  rcases Nat.lt_or_eq_of_le (isNaN_eq_false_iff.1 hx) with hfin | hinf
  · exact (rank_add hfin ht).1
  · rw [add_of_infinite hinf ht]
    exact hx

/-- No number has a rank beyond those of the infinities. -/
theorem rank_bounds (hx : x.isNaN = false) : 2 ^ 63 - infinityBits.toNat ≤ x.rank.toNat ∧
    x.rank.toNat ≤ 2 ^ 63 + infinityBits.toNat := by
  rw [isNaN_eq_false_iff] at hx
  rw [toNat_rank]
  split <;> omega

/-- The ranks of finite numbers are strictly between those. -/
theorem rank_bounds_of_finite (hx : x.magnitude.toNat < infinityBits.toNat) :
    2 ^ 63 - infinityBits.toNat < x.rank.toNat ∧ x.rank.toNat < 2 ^ 63 + infinityBits.toNat := by
  have hinf : infinityBits.toNat < 2 ^ 63 := by decide
  rw [toNat_rank]
  split <;> omega

theorem rank_of_infinite (hx : x.magnitude.toNat = infinityBits.toNat) :
    x.rank.toNat = 2 ^ 63 - infinityBits.toNat ∨ x.rank.toNat = 2 ^ 63 + infinityBits.toNat := by
  rw [toNat_rank, hx]
  split
  · exact .inl rfl
  · exact .inr rfl

/-- **Adding a finite double keeps the order**, infinite sides included. -/
theorem add_le_add_of_finite (h : x ≤ y) (ht : t.magnitude.toNat < infinityBits.toNat) :
    x + t ≤ y + t := by
  obtain ⟨hx, hy, hrank⟩ := le_iff.1 h
  rw [UInt64.le_iff_toNat_le] at hrank
  have hboundsx := rank_bounds (isNaN_add hx ht)
  have hboundsy := rank_bounds (isNaN_add hy ht)
  refine le_iff.2 ⟨isNaN_add hx ht, isNaN_add hy ht, UInt64.le_iff_toNat_le.2 ?_⟩
  rcases Nat.lt_or_eq_of_le (isNaN_eq_false_iff.1 hx) with hxfin | hxinf
  · rcases Nat.lt_or_eq_of_le (isNaN_eq_false_iff.1 hy) with hyfin | hyinf
    · rw [(rank_add hxfin ht).2, (rank_add hyfin ht).2]
      exact nearestRank_mono (Int.add_le_add_right (signedUnits_le_of_le h) _)
    · -- an infinite double above a finite one is above every number
      have hbelow := rank_bounds_of_finite hxfin
      have hends := rank_of_infinite hyinf
      rw [add_of_infinite hyinf ht]
      omega
  · rw [add_of_infinite hxinf ht]
    rcases Nat.lt_or_eq_of_le (isNaN_eq_false_iff.1 hy) with hyfin | hyinf
    · have hbelow := rank_bounds_of_finite hyfin
      have hends := rank_of_infinite hxinf
      omega
    · rw [add_of_infinite hyinf ht]
      exact hrank

end Double

end Milp
