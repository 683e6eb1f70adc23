import Mathlib.Algebra.Order.Field.Basic
import Mathlib.Data.Rat.Floor
import Mathlib.Tactic.Linarith
import Mathlib.Tactic.Positivity
import Mathlib.Tactic.Ring
import Milp.Proofs.Number.Order
/-!
# The values of doubles

A finite magnitude is a whole number of units of `2 ^ -1074`, the least
distance between two doubles, and its value is their number divided by
`2 ^ 1074`. More bits are more units, so doubles are in the order of their
values (`le_iff_value`). The integer part of a magnitude is found on its bits
(`exists_wholePart`), from which the floor and the ceiling of a double are
those of its value (`value?_floor`, `value?_ceil`), and a double whose value
is an integer is its own rounding (`round_of_int`).
-/

namespace Milp

namespace Double

variable {x y : Double} {m : ℕ}

/-! ## Signs and magnitudes -/

theorem toNat_magnitude (x : Double) : x.magnitude.toNat = x.bits.toNat % 2 ^ 63 := by
  rw [magnitude, UInt64.toNat_and]
  exact Nat.and_two_pow_sub_one_eq_mod _ 63

theorem magnitude_lt (x : Double) : x.magnitude.toNat < 2 ^ 63 := by
  rw [toNat_magnitude]
  exact Nat.mod_lt _ (by decide)

theorem isNegative_eq (x : Double) : x.isNegative = decide (2 ^ 63 ≤ x.bits.toNat) := rfl

/-- Changing the sign changes the highest bit alone. -/
theorem toNat_bits_negate (x : Double) : x.negate.bits.toNat =
    x.bits.toNat % 2 ^ 63 + if x.isNegative then 0 else 2 ^ 63 := by
  have hlt : x.bits.toNat < 2 ^ 64 := x.bits.toNat_lt
  have hxor : x.negate.bits.toNat = x.bits.toNat ^^^ 2 ^ 63 := UInt64.toNat_xor _ _
  -- the two parts of the word, apart from each other
  have hlow : x.negate.bits.toNat % 2 ^ 63 = x.bits.toNat % 2 ^ 63 := by
    rw [hxor, Nat.xor_mod_two_pow, Nat.mod_self, Nat.xor_zero]
  have hhigh : x.negate.bits.toNat / 2 ^ 63 = x.bits.toNat / 2 ^ 63 ^^^ 1 := by
    rw [hxor, Nat.xor_div_two_pow, Nat.div_self (by decide)]
  rw [isNegative_eq]
  by_cases hneg : 2 ^ 63 ≤ x.bits.toNat
  · have hone : x.bits.toNat / 2 ^ 63 = 1 := by omega
    rw [hone, Nat.xor_self] at hhigh
    rw [if_pos (decide_eq_true hneg)]
    omega
  · have hzero : x.bits.toNat / 2 ^ 63 = 0 := by omega
    rw [hzero, Nat.zero_xor] at hhigh
    rw [if_neg (by simpa using hneg)]
    omega

@[simp] theorem magnitude_negate (x : Double) : x.negate.magnitude = x.magnitude := by
  refine UInt64.toNat_inj.1 ?_
  rw [toNat_magnitude, toNat_magnitude, toNat_bits_negate]
  split <;> omega

@[simp] theorem isNegative_negate (x : Double) : x.negate.isNegative = !x.isNegative := by
  have hlt : x.bits.toNat < 2 ^ 64 := x.bits.toNat_lt
  rw [isNegative_eq x.negate, toNat_bits_negate]
  cases x.isNegative with
  | false =>
    rw [if_neg Bool.false_ne_true]
    exact decide_eq_true (by omega)
  | true =>
    rw [if_pos rfl]
    exact decide_eq_false (by omega)

/-- **A double is its sign and its magnitude.** -/
theorem eq_of_magnitude_eq (hm : x.magnitude = y.magnitude) (hn : x.isNegative = y.isNegative) :
    x = y := by
  refine eq_of_bits_eq (UInt64.toNat_inj.1 ?_)
  have hxlt : x.bits.toNat < 2 ^ 64 := x.bits.toNat_lt
  have hylt : y.bits.toNat < 2 ^ 64 := y.bits.toNat_lt
  have hlow : x.bits.toNat % 2 ^ 63 = y.bits.toNat % 2 ^ 63 := by
    rw [← toNat_magnitude, ← toNat_magnitude, hm]
  have hhigh : 2 ^ 63 ≤ x.bits.toNat ↔ 2 ^ 63 ≤ y.bits.toNat := by
    rwa [isNegative_eq, isNegative_eq, decide_eq_decide] at hn
  omega

theorem negate_negate (x : Double) : x.negate.negate = x := by
  refine eq_of_bits_eq (UInt64.toNat_inj.1 ?_)
  have hlt : x.bits.toNat < 2 ^ 64 := x.bits.toNat_lt
  rw [toNat_bits_negate, toNat_bits_negate, isNegative_negate]
  cases hneg : x.isNegative with
  | false =>
    have hsmall : ¬ 2 ^ 63 ≤ x.bits.toNat := of_decide_eq_false hneg
    rw [Bool.not_false, if_pos rfl, if_neg Bool.false_ne_true]
    omega
  | true =>
    have hlarge : 2 ^ 63 ≤ x.bits.toNat := of_decide_eq_true hneg
    rw [Bool.not_true, if_neg Bool.false_ne_true, if_pos rfl]
    omega

section WithSign

variable (h : m < 2 ^ 63)

include h

theorem toNat_ofNat_bits : (UInt64.ofNat m).toNat = m := by
  rw [UInt64.toNat_ofNat']
  omega

theorem magnitude_withSignOf (x : Double) : (x.withSignOf m).magnitude.toNat = m := by
  have hmag : (⟨UInt64.ofNat m⟩ : Double).magnitude.toNat = m := by
    rw [toNat_magnitude, toNat_ofNat_bits h, Nat.mod_eq_of_lt h]
  unfold withSignOf
  split
  · rw [magnitude_negate, hmag]
  · exact hmag

theorem isNegative_withSignOf (x : Double) : (x.withSignOf m).isNegative = x.isNegative := by
  have hpos : (⟨UInt64.ofNat m⟩ : Double).isNegative = false := by
    rw [isNegative_eq, toNat_ofNat_bits h]
    exact decide_eq_false (by omega)
  unfold withSignOf
  split
  · rename_i hneg
    rw [isNegative_negate, hpos, hneg]
    rfl
  · rename_i hneg
    rw [hpos, Bool.eq_false_of_not_eq_true hneg]

end WithSign

/-! ## Units -/

/-- How many units make one. -/
def unitsPerOne : ℕ := 2 ^ 1074

theorem unitsPerOne_pos : 0 < unitsPerOne := by
  unfold unitsPerOne
  positivity

/-- How many units a magnitude stands for. Below the first power of two the
bits count them; from there on the fraction goes on from `2 ^ 52`, in steps
that double with the exponent. -/
def units (m : ℕ) : ℕ :=
  if m < 2 ^ 52 then m else (2 ^ 52 + m % 2 ^ 52) * 2 ^ (m / 2 ^ 52 - 1)

/-- **With one exponent** the units go on evenly, the next power of two
included. -/
theorem units_line {e g : ℕ} (he : 1 ≤ e) (hg : g ≤ 2 ^ 52) :
    units (e * 2 ^ 52 + g) = (2 ^ 52 + g) * 2 ^ (e - 1) := by
  have hlarge : ¬ e * 2 ^ 52 + g < 2 ^ 52 := by omega
  rw [units, if_neg hlarge]
  rcases Nat.lt_or_eq_of_le hg with hlt | rfl
  · have hmod : (e * 2 ^ 52 + g) % 2 ^ 52 = g := by omega
    have hdiv : (e * 2 ^ 52 + g) / 2 ^ 52 = e := by omega
    rw [hmod, hdiv]
  · have hmod : (e * 2 ^ 52 + 2 ^ 52) % 2 ^ 52 = 0 := by omega
    have hdiv : (e * 2 ^ 52 + 2 ^ 52) / 2 ^ 52 - 1 = e - 1 + 1 := by omega
    rw [hmod, hdiv, pow_succ]
    ring

theorem units_lt_succ (m : ℕ) : units m < units (m + 1) := by
  by_cases hsmall : m < 2 ^ 52
  · rw [units, if_pos hsmall]
    rcases Nat.lt_or_eq_of_le (Nat.succ_le_of_lt hsmall) with hlt | heq
    · rw [units, if_pos hlt]
      omega
    · have hline : units (1 * 2 ^ 52 + 0) = (2 ^ 52 + 0) * 2 ^ (1 - 1) :=
        units_line (le_refl 1) (Nat.zero_le _)
      have hm : m + 1 = 1 * 2 ^ 52 + 0 := by omega
      rw [hm, hline]
      omega
  · -- one step further on the line of the exponent
    have he : 1 ≤ m / 2 ^ 52 := by omega
    have hg : m % 2 ^ 52 + 1 ≤ 2 ^ 52 := by omega
    have hm : m = m / 2 ^ 52 * 2 ^ 52 + m % 2 ^ 52 := by omega
    have hsucc : m + 1 = m / 2 ^ 52 * 2 ^ 52 + (m % 2 ^ 52 + 1) := by omega
    calc units m = (2 ^ 52 + m % 2 ^ 52) * 2 ^ (m / 2 ^ 52 - 1) := if_neg hsmall
      _ < (2 ^ 52 + (m % 2 ^ 52 + 1)) * 2 ^ (m / 2 ^ 52 - 1) :=
        Nat.mul_lt_mul_of_pos_right (by omega) (Nat.two_pow_pos _)
      _ = units (m + 1) := by rw [hsucc, units_line he hg]

/-- **More bits are more units.** -/
theorem strictMono_units : StrictMono units := strictMono_nat_of_lt_succ units_lt_succ

/-! ## Integer parts -/

theorem fractionBits_eq (m : ℕ) : fractionBits m = 1075 - m / 2 ^ 52 := by
  rw [fractionBits, Nat.shiftRight_eq_div_pow]

/-- From one on the integer part is what is left of the lowest bits. -/
theorem wholePart_of_one_le (h : ¬ m < oneBits) :
    wholePart m = m / 2 ^ fractionBits m * 2 ^ fractionBits m := by
  rw [wholePart, if_neg h, Nat.shiftLeft_eq, Nat.shiftRight_eq_div_pow]

theorem nextWhole_of_one_le (h : ¬ m < oneBits) :
    nextWhole m = wholePart m + 2 ^ fractionBits m := by
  rw [nextWhole, if_neg h, Nat.one_shiftLeft]

/-- What the integer part `n` of a magnitude is, and what comes next. -/
structure WholePart (m n : ℕ) : Prop where
  /-- The part that is kept. -/
  whole_eq : units (wholePart m) = n * unitsPerOne
  /-- It is not above the magnitude. -/
  whole_le : wholePart m ≤ m
  /-- What is cut off is less than one. -/
  lt : units m < (n + 1) * unitsPerOne
  /-- If something is cut off, the next integer is a finite magnitude. -/
  next : wholePart m ≠ m →
    units (nextWhole m) = (n + 1) * unitsPerOne ∧ nextWhole m < infinityBits.toNat

/-- Below one the integer part is zero. -/
theorem wholePart_of_lt_one (h : m < oneBits) : WholePart m 0 := by
  have hone : units oneBits = (0 + 1) * unitsPerOne := by
    have hline : units (1023 * 2 ^ 52 + 0) = (2 ^ 52 + 0) * 2 ^ (1023 - 1) :=
      units_line (by decide) (Nat.zero_le _)
    have hbits : oneBits = 1023 * 2 ^ 52 + 0 := by decide
    rw [hbits, hline, unitsPerOne, Nat.add_zero, ← pow_add, Nat.zero_add, Nat.one_mul]
  have hwhole : wholePart m = 0 := if_pos h
  have hnext : nextWhole m = oneBits := if_pos h
  refine ⟨?_, ?_, ?_, fun _ => ?_⟩
  · rw [hwhole, Nat.zero_mul]
    rfl
  · rw [hwhole]
    exact Nat.zero_le m
  · rw [← hone]
    exact strictMono_units h
  · rw [hnext]
    exact ⟨hone, by decide⟩

/-- From `2 ^ 52` on every magnitude is an integer. -/
theorem wholePart_of_large (h : 1075 * 2 ^ 52 ≤ m) : ∃ n, WholePart m n := by
  have he : 1075 ≤ m / 2 ^ 52 := by omega
  have hnone : fractionBits m = 0 := by
    rw [fractionBits_eq]
    exact Nat.sub_eq_zero_of_le he
  have hwhole : wholePart m = m := by
    have hone : ¬ m < oneBits := by
      have : oneBits ≤ 1075 * 2 ^ 52 := by decide
      omega
    rw [wholePart_of_one_le hone, hnone, pow_zero, Nat.div_one, Nat.mul_one]
  have hsmall : ¬ m < 2 ^ 52 := by omega
  have hunits : units m = (2 ^ 52 + m % 2 ^ 52) * 2 ^ (m / 2 ^ 52 - 1075) * unitsPerOne := by
    have hexp : m / 2 ^ 52 - 1 = (m / 2 ^ 52 - 1075) + 1074 := by omega
    rw [units, if_neg hsmall, hexp, pow_add, Nat.mul_assoc, unitsPerOne]
  refine ⟨(2 ^ 52 + m % 2 ^ 52) * 2 ^ (m / 2 ^ 52 - 1075), ?_, hwhole.le, ?_,
    fun hne => absurd hwhole hne⟩
  · rw [hwhole]
    exact hunits
  · rw [hunits]
    exact Nat.mul_lt_mul_of_pos_right (Nat.lt_succ_self _) unitsPerOne_pos

theorem two_pow_split {k : ℕ} (hk : k ≤ 52) : 2 ^ 52 = 2 ^ (52 - k) * 2 ^ k := by
  rw [← pow_add, Nat.sub_add_cancel hk]

/-- **In steps of `2 ^ k`**, which are steps of one at the exponent `e`, the
units go on evenly. -/
theorem units_step {e k d : ℕ} (hek : e + k = 1075) (hk : k ≤ 52) (hd : d * 2 ^ k ≤ 2 ^ 52) :
    units (e * 2 ^ 52 + d * 2 ^ k) = (2 ^ (52 - k) + d) * unitsPerOne := by
  have hunit : 2 ^ k * 2 ^ (e - 1) = unitsPerOne := by
    rw [← pow_add, unitsPerOne]
    congr 1
    omega
  rw [units_line (by omega) hd, ← hunit]
  nth_rewrite 1 [two_pow_split hk]
  ring

/-- The lowest `k` bits of a fraction are cut off, and the next step does not
pass the fraction's end. -/
theorem exists_steps {f k : ℕ} (hf : f < 2 ^ 52) (hk : k ≤ 52) :
    f / 2 ^ k * 2 ^ k ≤ f ∧ f < (f / 2 ^ k + 1) * 2 ^ k ∧ (f / 2 ^ k + 1) * 2 ^ k ≤ 2 ^ 52 := by
  have hkpos : 0 < 2 ^ k := Nat.two_pow_pos k
  have hlt : f / 2 ^ k < 2 ^ (52 - k) := by
    rw [Nat.div_lt_iff_lt_mul hkpos, ← two_pow_split hk]
    exact hf
  refine ⟨Nat.div_mul_le_self f (2 ^ k), ?_, ?_⟩
  · rw [Nat.mul_comm]
    exact Nat.lt_mul_div_succ f hkpos
  · rw [two_pow_split hk]
    exact Nat.mul_le_mul_right _ hlt

/-- The bits of the integer part, with the exponent and the fraction apart. -/
theorem wholePart_eq {e f k : ℕ} (hek : e + k = 1075) (hk : k ≤ 52) (hf : f < 2 ^ 52) :
    fractionBits (e * 2 ^ 52 + f) = k ∧
      wholePart (e * 2 ^ 52 + f) = e * 2 ^ 52 + f / 2 ^ k * 2 ^ k := by
  have hdiv : (e * 2 ^ 52 + f) / 2 ^ 52 = e := by omega
  have hfrac : fractionBits (e * 2 ^ 52 + f) = k := by
    rw [fractionBits_eq, hdiv]
    omega
  have hlarge : ¬ e * 2 ^ 52 + f < oneBits := by
    have hbits : oneBits = 1023 * 2 ^ 52 := by decide
    omega
  have hquot : (e * 2 ^ 52 + f) / 2 ^ k = e * 2 ^ (52 - k) + f / 2 ^ k := by
    have hsum : e * 2 ^ 52 + f = f + 2 ^ k * (e * 2 ^ (52 - k)) := by
      rw [two_pow_split hk]
      ring
    rw [hsum, Nat.add_mul_div_left _ _ (Nat.two_pow_pos k), Nat.add_comm]
  refine ⟨hfrac, ?_⟩
  rw [wholePart_of_one_le hlarge, hfrac, hquot, two_pow_split hk]
  ring

/-- In between, the lowest bits are cut off. -/
theorem wholePart_of_between (h : oneBits ≤ m) (hlt : m < 1075 * 2 ^ 52) :
    ∃ n, WholePart m n := by
  have hbits : oneBits = 1023 * 2 ^ 52 := by decide
  -- the exponent `e`, the fraction `f`, and the number `k` of bits that are cut off
  obtain ⟨e, f, rfl, hf⟩ : ∃ e f, m = e * 2 ^ 52 + f ∧ f < 2 ^ 52 :=
    ⟨m / 2 ^ 52, m % 2 ^ 52, by omega, by omega⟩
  obtain ⟨k, hek⟩ : ∃ k, e + k = 1075 := ⟨1075 - e, by omega⟩
  have hk : k ≤ 52 := by omega
  obtain ⟨hfrac, hwhole⟩ := wholePart_eq hek hk hf
  obtain ⟨hle, hgt, hend⟩ := exists_steps hf hk
  have hnext : nextWhole (e * 2 ^ 52 + f) = e * 2 ^ 52 + (f / 2 ^ k + 1) * 2 ^ k := by
    rw [nextWhole_of_one_le (not_lt.2 h), hwhole, hfrac]
    ring
  have hstep := units_step hek hk hend
  refine ⟨2 ^ (52 - k) + f / 2 ^ k, ?_, ?_, ?_, fun _ => ⟨?_, ?_⟩⟩
  · rw [hwhole, units_step hek hk (by omega)]
  · omega
  · rw [Nat.add_assoc, ← hstep]
    exact strictMono_units (by omega)
  · rw [hnext, hstep, Nat.add_assoc]
  · have hinf : infinityBits.toNat = 2047 * 2 ^ 52 := by decide
    rw [hnext]
    omega

/-- **Every magnitude has an integer part.** -/
theorem exists_wholePart (m : ℕ) : ∃ n, WholePart m n := by
  rcases Nat.lt_or_ge m oneBits with hone | hone
  · exact ⟨0, wholePart_of_lt_one hone⟩
  · rcases Nat.lt_or_ge m (1075 * 2 ^ 52) with hlt | hge
    · exact wholePart_of_between hone hlt
    · exact wholePart_of_large hge

/-! ## Values -/

/-- What the bits of a magnitude say, without a bound on the exponent. -/
def absValue (m : ℕ) : ℚ := units m / unitsPerOne

/-- What the bits say, without a bound on the exponent. -/
def value (x : Double) : ℚ :=
  if x.isNegative then -absValue x.magnitude.toNat else absValue x.magnitude.toNat

/-- The value of a finite double. -/
def value? (x : Double) : Option ℚ := if x.magnitude < infinityBits then some x.value else none

theorem value?_eq_some_iff {v : ℚ} :
    x.value? = some v ↔ x.magnitude.toNat < infinityBits.toNat ∧ x.value = v := by
  unfold value?
  split
  · rename_i hfin
    exact ⟨fun h => ⟨hfin, Option.some.inj h⟩, fun h => congrArg some h.2⟩
  · rename_i hinf
    exact ⟨nofun, fun h => absurd h.1 hinf⟩

@[simp] theorem isNaN_negate (x : Double) : x.negate.isNaN = x.isNaN := by
  rw [isNaN, magnitude_negate, isNaN]

@[simp] theorem isNaN_abs (x : Double) : x.abs.isNaN = x.isNaN := by
  have hmagnitude : x.abs.magnitude = x.magnitude := by
    refine UInt64.toNat_inj.1 ?_
    rw [toNat_magnitude, abs, Nat.mod_eq_of_lt (magnitude_lt x)]
  rw [isNaN, hmagnitude, isNaN]

theorem isNaN_eq_false_iff : x.isNaN = false ↔ x.magnitude.toNat ≤ infinityBits.toNat :=
  decide_eq_false_iff_not.trans UInt64.not_lt

theorem unitsPerOne_pos_rat : (0 : ℚ) < unitsPerOne := Nat.cast_pos.2 unitsPerOne_pos

theorem strictMono_absValue : StrictMono absValue := fun _ _ h =>
  div_lt_div_of_pos_right (Nat.cast_lt.2 (strictMono_units h)) unitsPerOne_pos_rat

theorem absValue_zero : absValue 0 = 0 := by
  rw [absValue, units, if_pos (by decide), Nat.cast_zero, zero_div]

theorem absValue_nonneg (m : ℕ) : 0 ≤ absValue m :=
  absValue_zero ▸ strictMono_absValue.monotone (Nat.zero_le m)

theorem absValue_eq_of_units {n : ℕ} (h : units m = n * unitsPerOne) : absValue m = n := by
  rw [absValue, h, Nat.cast_mul, mul_div_assoc, div_self unitsPerOne_pos_rat.ne', mul_one]

@[simp] theorem value_negate (x : Double) : x.negate.value = -x.value := by
  rw [value, value, magnitude_negate, isNegative_negate]
  cases x.isNegative
  · rfl
  · exact (neg_neg _).symm

theorem value_withSignOf (x : Double) (h : m < 2 ^ 63) :
    (x.withSignOf m).value = if x.isNegative then -absValue m else absValue m := by
  rw [value, magnitude_withSignOf h, isNegative_withSignOf h]

/-! ## Order -/

theorem toNat_rank (x : Double) : x.rank.toNat =
    if x.isNegative then 2 ^ 63 - x.magnitude.toNat else 2 ^ 63 + x.magnitude.toNat := by
  have hlt := magnitude_lt x
  have hsign : signBit.toNat = 2 ^ 63 := rfl
  unfold rank
  split
  · rw [UInt64.toNat_sub_of_le _ _ (UInt64.le_iff_toNat_le.2 (by omega)), hsign]
  · rw [UInt64.toNat_add, hsign, Nat.mod_eq_of_lt (by omega)]

/-- **Ranks are in the order of the values.** -/
theorem rank_le_iff : x.rank ≤ y.rank ↔ x.value ≤ y.value := by
  have hx := magnitude_lt x
  have hy := magnitude_lt y
  have hle : ∀ {a b : ℕ}, absValue a ≤ absValue b ↔ a ≤ b := strictMono_absValue.le_iff_le
  have hx0 := absValue_nonneg x.magnitude.toNat
  have hy0 := absValue_nonneg y.magnitude.toNat
  rw [UInt64.le_iff_toNat_le, toNat_rank, toNat_rank, value, value]
  cases x.isNegative <;> cases y.isNegative <;>
    simp only [Bool.false_eq_true, if_false, if_true]
  · rw [hle]
    omega
  · -- a magnitude is at most a negative value only when both are zero
    constructor
    · intro hrank
      have hxz : x.magnitude.toNat = 0 := by omega
      have hyz : y.magnitude.toNat = 0 := by omega
      rw [hxz, hyz, absValue_zero, neg_zero]
    · intro hval
      have hxz : absValue x.magnitude.toNat ≤ absValue 0 := by
        rw [absValue_zero]
        linarith
      have hyz : absValue y.magnitude.toNat ≤ absValue 0 := by
        rw [absValue_zero]
        linarith
      have hxm := hle.1 hxz
      have hym := hle.1 hyz
      omega
  · refine iff_of_true ?_ ?_
    · omega
    · linarith
  · rw [neg_le_neg_iff, hle]
    omega

/-- **Doubles are in order** when both are numbers and their values are. -/
theorem le_iff_value : x ≤ y ↔ x.isNaN = false ∧ y.isNaN = false ∧ x.value ≤ y.value := by
  rw [le_iff, rank_le_iff]

/-- So they are in strict order. -/
theorem lt_iff_value : x < y ↔ x.isNaN = false ∧ y.isNaN = false ∧ x.value < y.value := by
  show x.below y = true ↔ _
  rw [below, Bool.and_eq_true, Bool.and_eq_true, Bool.not_eq_true', Bool.not_eq_true',
    decide_eq_true_eq, ← UInt64.not_le, rank_le_iff, not_le, and_assoc]

protected theorem le_of_lt (h : x < y) : x ≤ y := by
  rw [lt_iff_value] at h
  exact le_iff_value.2 ⟨h.1, h.2.1, h.2.2.le⟩

protected theorem lt_of_lt_of_le {z : Double} (hxy : x < y) (hyz : y ≤ z) : x < z := by
  rw [lt_iff_value] at hxy
  rw [le_iff_value] at hyz
  exact lt_iff_value.2 ⟨hxy.1, hyz.2.1, hxy.2.2.trans_le hyz.2.2⟩

/-- Numbers are comparable. -/
protected theorem le_of_not_lt (hx : x.isNaN = false) (hy : y.isNaN = false) (h : ¬ x < y) : y ≤ x :=
  le_iff_value.2 ⟨hy, hx, not_lt.1 fun hlt => h (lt_iff_value.2 ⟨hx, hy, hlt⟩)⟩

protected theorem lt_irrefl (x : Double) : ¬ x < x := fun h => (lt_iff_value.1 h).2.2.ne rfl

/-! ## Rounding -/

section Rounding

variable {away : ℕ → Bool} {v : ℚ} {n : ℕ}

/-- **How a double is rounded**: not at all when its magnitude is an integer,
otherwise to the integer before or the one after it. -/
theorem roundBy_cases (away : ℕ → Bool) (x : Double) :
    (wholePart x.magnitude.toNat = x.magnitude.toNat ∧ roundBy away x = x) ∨
    (wholePart x.magnitude.toNat ≠ x.magnitude.toNat ∧ roundBy away x = x.withSignOf
      (if away x.magnitude.toNat then nextWhole x.magnitude.toNat
        else wholePart x.magnitude.toNat)) := by
  unfold roundBy
  by_cases h : wholePart x.magnitude.toNat = x.magnitude.toNat
  · exact .inl ⟨h, if_pos h⟩
  · exact .inr ⟨h, if_neg h⟩

/-- A number rounded is a number. -/
theorem isNaN_roundBy (h : x.isNaN = false) : (roundBy away x).isNaN = false := by
  rcases roundBy_cases away x with ⟨-, heq⟩ | ⟨hne, heq⟩
  · rw [heq, h]
  · rw [isNaN_eq_false_iff] at h
    obtain ⟨n, hn⟩ := exists_wholePart x.magnitude.toNat
    have hnext := (hn.next hne).2
    have hwhole := hn.whole_le
    have hinf : infinityBits.toNat < 2 ^ 63 := by decide
    rw [heq, isNaN_eq_false_iff]
    split
    · rw [magnitude_withSignOf (by omega)]
      omega
    · rw [magnitude_withSignOf (by omega)]
      omega

/-- A magnitude of which something is cut off is strictly between two
integers. -/
theorem absValue_between {m : ℕ} (hn : WholePart m n) (hne : wholePart m ≠ m) :
    (n : ℚ) < absValue m ∧ absValue m < n + 1 := by
  have hwhole : absValue (wholePart m) = n := absValue_eq_of_units hn.whole_eq
  have hnext : absValue (nextWhole m) = (n + 1 : ℕ) := absValue_eq_of_units (hn.next hne).1
  have hgt : m < nextWhole m := strictMono_units.lt_iff_lt.1 ((hn.next hne).1 ▸ hn.lt)
  refine ⟨hwhole ▸ strictMono_absValue (lt_of_le_of_ne hn.whole_le hne), ?_⟩
  rw [← Nat.cast_succ, ← hnext]
  exact strictMono_absValue hgt

/-- Its rounded value has the magnitude of one of them, and the sign stays. -/
theorem value?_roundBy_of_ne (away : ℕ → Bool) (hfin : x.magnitude.toNat < infinityBits.toNat)
    (hn : WholePart x.magnitude.toNat n) (hne : wholePart x.magnitude.toNat ≠ x.magnitude.toNat) :
    (roundBy away x).value? = some (if x.isNegative
      then -(if away x.magnitude.toNat then (n + 1 : ℕ) else n : ℚ)
      else (if away x.magnitude.toNat then (n + 1 : ℕ) else n : ℚ)) := by
  have hround : roundBy away x = x.withSignOf (if away x.magnitude.toNat then
      nextWhole x.magnitude.toNat else wholePart x.magnitude.toNat) :=
    ((roundBy_cases away x).resolve_left fun h => hne h.1).2
  obtain ⟨hunits, hnextfin⟩ := hn.next hne
  have hwholele := hn.whole_le
  have hinf : infinityBits.toNat < 2 ^ 63 := by decide
  rw [value?_eq_some_iff, hround]
  cases away x.magnitude.toNat with
  | true =>
    rw [if_pos rfl, if_pos rfl, magnitude_withSignOf (by omega), value_withSignOf x (by omega),
      absValue_eq_of_units hunits]
    exact ⟨hnextfin, rfl⟩
  | false =>
    rw [if_neg Bool.false_ne_true, if_neg Bool.false_ne_true, magnitude_withSignOf (by omega),
      value_withSignOf x (by omega), absValue_eq_of_units hn.whole_eq]
    exact ⟨by omega, rfl⟩

/-- **The value of a rounded double.** A value `v` that is an integer stays;
any other one goes to the integer `k` below it or to the one above it. -/
theorem value?_roundBy (away : ℕ → Bool) (h : x.value? = some v) :
    (∃ k : ℤ, v = k ∧ roundBy away x = x) ∨
    ∃ k : ℤ, k < v ∧ v < k + 1 ∧ (roundBy away x).value? =
      some (if away x.magnitude.toNat = x.isNegative then (k : ℚ) else k + 1) := by
  obtain ⟨hfin, rfl⟩ := value?_eq_some_iff.1 h
  obtain ⟨n, hn⟩ := exists_wholePart x.magnitude.toNat
  rcases roundBy_cases away x with ⟨heq, hround⟩ | ⟨hne, -⟩
  · have hwhole := absValue_eq_of_units hn.whole_eq
    rw [heq] at hwhole
    refine .inl ⟨if x.isNegative then -n else n, ?_, hround⟩
    rw [value, hwhole]
    split
    · rw [Int.cast_neg, Int.cast_natCast]
    · rw [Int.cast_natCast]
  · obtain ⟨hlo, hhi⟩ := absValue_between hn hne
    right
    rw [value?_roundBy_of_ne away hfin hn hne, value]
    -- below zero the integer before the value has the larger magnitude
    cases x.isNegative with
    | false =>
      refine ⟨n, ?_, ?_, ?_⟩
      · simpa using hlo
      · simpa using hhi
      · cases away x.magnitude.toNat <;> simp
    | true =>
      refine ⟨-(n + 1), ?_, ?_, ?_⟩
      · simpa using hhi
      · simpa using hlo
      · cases away x.magnitude.toNat <;> simp

/-- **The floor of a double is that of its value.** -/
theorem value?_floor (h : x.value? = some v) : x.floor.value? = some (⌊v⌋ : ℚ) := by
  rcases value?_roundBy (fun _ => x.isNegative) h with ⟨k, rfl, heq⟩ | ⟨k, hlt, hgt, heq⟩
  · rw [floor, heq, h, Int.floor_intCast]
  · rw [floor, heq, if_pos rfl, Int.floor_eq_iff.2 ⟨hlt.le, hgt⟩]

/-- **The ceiling of a double is that of its value.** -/
theorem value?_ceil (h : x.value? = some v) : x.ceil.value? = some (⌈v⌉ : ℚ) := by
  rcases value?_roundBy (fun _ => !x.isNegative) h with ⟨k, rfl, heq⟩ | ⟨k, hlt, hgt, heq⟩
  · rw [ceil, heq, h, Int.ceil_intCast]
  · have hceil : ⌈v⌉ = k + 1 := by
      rw [Int.ceil_eq_iff, Int.cast_add, Int.cast_one, add_sub_cancel_right]
      exact ⟨hlt, hgt.le⟩
    rw [ceil, heq, if_neg (by cases x.isNegative <;> decide), hceil, Int.cast_add, Int.cast_one]

/-- **An integer is its own rounding.** -/
theorem round_of_int {k : ℤ} (h : x.value? = some (k : ℚ)) : x.round = x := by
  rcases value?_roundBy isHalfOrMore h with ⟨-, -, heq⟩ | ⟨l, hlt, hgt, -⟩
  · exact heq
  · -- there is no integer between two consecutive ones
    have hlt' : l < k := Int.cast_lt.1 hlt
    have hgt' : k < l + 1 := by exact_mod_cast hgt
    omega

end Rounding

end Double

end Milp
