import Mathlib.Algebra.BigOperators.Group.List.Basic
import Mathlib.Algebra.Order.BigOperators.Group.List
import Mathlib.Order.Lattice.Nat
import Milp.Proofs.Problem.Rows
import Milp.Proofs.Search.Branching
/-!
# Boxes

The unit rows of a problem bound its integer variables. A `Box` has a lower
and an upper bound for each of them, and a problem is `Boxed` when every
finite value that respects its unit rows lies in the box. Splitting a problem
at a value that is no integer splits the box into two: the lower one ends at
the floor of the value, the upper one begins at the ceiling, and no integral
point of the box is in both (`exists_split`). So the cells of the box, which
are its integral points, are shared out between the two children.
-/

namespace Milp

variable {α : Type} [Scalar α]

/-! ## Respecting bounds -/

/-- **A value respects the unit rows of a variable.** -/
structure Problem.Respects (q : Problem α) (j : ℕ) (v : α) : Prop where
  /-- It is not negative. -/
  nonneg : (0 : α) ≤ v
  /-- It is at most every upper bound. -/
  upper : ∀ r ∈ q.rows, r.coefficients = Scalar.unitList q.numVariables j 1 → v ≤ r.rhs
  /-- It is at least every lower bound. -/
  lower : ∀ r ∈ q.rows, r.coefficients = Scalar.unitList q.numVariables j (-1) → -r.rhs ≤ v

instance (q : Problem α) (j : ℕ) (v : α) : Decidable (q.Respects j v) :=
  decidable_of_iff ((0 : α) ≤ v ∧
      (∀ r ∈ q.rows, Scalar.sameList r.coefficients (Scalar.unitList q.numVariables j 1) = true →
        v ≤ r.rhs) ∧
      ∀ r ∈ q.rows, Scalar.sameList r.coefficients (Scalar.unitList q.numVariables j (-1)) = true →
        -r.rhs ≤ v) (by
    simp only [Scalar.sameList_iff]
    exact ⟨fun h => ⟨h.1, h.2.1, h.2.2⟩, fun h => ⟨h.nonneg, h.upper, h.lower⟩⟩)

section Rows

variable [Scalar.Rounding α] {rows : List (Row α)} {c : List α} {b : α}

/-- **Where a row is added, every row stays, or gets sharper.** -/
theorem Row.exists_sharper (hnum : ∀ r ∈ rows, r.coefficients = c → Scalar.IsNumber r.rhs)
    (hb : Scalar.IsNumber b) {r : Row α} (hr : r ∈ rows) :
    ∃ s ∈ Row.addTo rows c b, s.coefficients = r.coefficients ∧ (s.rhs = r.rhs ∨ s.rhs ≤ r.rhs) := by
  obtain ⟨s, hs, hcoef, rfl | ⟨hc, hrhs⟩⟩ := Row.exists_mem_addTo c b hr
  · exact ⟨s, hs, rfl, .inl rfl⟩
  · exact ⟨s, hs, hcoef, .inr (hrhs ▸ (Scalar.Rounding.lesser_le (hnum r hr hc) hb).1)⟩

/-- **There is a row as sharp as the one that is added.** -/
theorem Row.exists_added (hnum : ∀ r ∈ rows, r.coefficients = c → Scalar.IsNumber r.rhs)
    (hb : Scalar.IsNumber b) : ∃ s ∈ Row.addTo rows c b, s.coefficients = c ∧ s.rhs ≤ b := by
  rcases Row.addTo_cases rows c b with ⟨-, heq⟩ | ⟨i, t, ht, hc, heq⟩
  · rw [heq]
    exact ⟨⟨c, b⟩, List.mem_append_right _ (List.mem_singleton_self _), rfl, hb⟩
  · obtain ⟨hi, -⟩ := List.getElem?_eq_some_iff.1 ht
    have hmem : t ∈ rows := List.mem_of_getElem? ht
    rw [heq]
    exact ⟨_, List.mem_set hi _, hc, (Scalar.Rounding.lesser_le (hnum t hmem hc) hb).2⟩

end Rows

namespace Problem

section Bound

variable [Scalar.Rounding α] {q : Problem α} {j i : ℕ} {c b v w : α}

/-- What respects the rows with a bound more respects those before. -/
theorem respects_of_bound (hb : Scalar.IsNumber b)
    (hnum : ∀ r ∈ q.rows, r.coefficients = Scalar.unitList q.numVariables j c →
      Scalar.IsNumber r.rhs) (h : (q.bound j c b).Respects i w) : q.Respects i w := by
  refine ⟨h.nonneg, fun r hr hcoef => ?_, fun r hr hcoef => ?_⟩
  · obtain ⟨s, hs, hsame, heq | hle⟩ := Row.exists_sharper hnum hb hr
    · exact heq ▸ h.upper s hs (hsame.trans hcoef)
    · exact Scalar.Ordered.le_trans (h.upper s hs (hsame.trans hcoef)) hle
  · obtain ⟨s, hs, hsame, heq | hle⟩ := Row.exists_sharper hnum hb hr
    · exact heq ▸ h.lower s hs (hsame.trans hcoef)
    · exact Scalar.Ordered.le_trans (Scalar.Rounding.neg_le_neg hle)
        (h.lower s hs (hsame.trans hcoef))

variable (hv : q.Respects j v)

include hv

/-- A value that respects an upper bound shows that it is a number. -/
theorem Respects.isNumber_upper : ∀ r ∈ q.rows,
    r.coefficients = Scalar.unitList q.numVariables j 1 → Scalar.IsNumber r.rhs :=
  fun r hr hcoef => Scalar.Ordered.isNumber_right (hv.upper r hr hcoef)

/-- So it does for a lower bound. -/
theorem Respects.isNumber_lower : ∀ r ∈ q.rows,
    r.coefficients = Scalar.unitList q.numVariables j (-1) → Scalar.IsNumber r.rhs := by
  intro r hr hcoef
  have hneg : Scalar.IsNumber (-r.rhs) := Scalar.Ordered.isNumber_left (hv.lower r hr hcoef)
  rw [← Scalar.Rounding.neg_neg r.rhs]
  exact Scalar.Rounding.neg_le_neg hneg

/-- **With one more upper bound** at a variable that had a value. -/
theorem Respects.of_atMost (hb : Scalar.IsNumber b) (h : (q.atMost j b).Respects i w) :
    q.Respects i w ∧ (i = j → w ≤ b) := by
  refine ⟨respects_of_bound hb hv.isNumber_upper h, fun hij => ?_⟩
  obtain ⟨s, hs, hcoef, hle⟩ := Row.exists_added hv.isNumber_upper hb
  exact Scalar.Ordered.le_trans (h.upper s hs (hij ▸ hcoef)) hle

/-- **With one more lower bound** at a variable that had a value. -/
theorem Respects.of_atLeast (hb : Scalar.IsNumber b) (h : (q.atLeast j b).Respects i w) :
    q.Respects i w ∧ (i = j → b ≤ w) := by
  have hneg : Scalar.IsNumber (-b) := Scalar.Rounding.neg_le_neg hb
  refine ⟨respects_of_bound hneg hv.isNumber_lower h, fun hij => ?_⟩
  obtain ⟨s, hs, hcoef, hle⟩ := Row.exists_added hv.isNumber_lower hneg
  have hback : b ≤ -s.rhs := by
    rw [← Scalar.Rounding.neg_neg b]
    exact Scalar.Rounding.neg_le_neg hle
  exact Scalar.Ordered.le_trans hback (h.lower s hs (hij ▸ hcoef))

end Bound

/-! ## Boxes -/

/-- A lower and an upper bound for every variable. -/
structure Box where
  /-- The lower bounds. -/
  low : ℕ → ℕ
  /-- The upper bounds. -/
  high : ℕ → ℕ

/-- How many integers there are between the bounds of a variable. -/
def Box.width (B : Box) (j : ℕ) : ℕ := B.high j + 1 - B.low j

/-- **How many integral points** the integer variables of a problem have in a
box. -/
def cells (p : Problem α) (B : Box) : ℕ := (p.integerVariables.map B.width).prod

/-- The part of a box in which a variable is at most `k`. -/
def Box.upTo (B : Box) (j k : ℕ) : Box := { B with high := Function.update B.high j k }

/-- The part of a box in which a variable is at least `k`. -/
def Box.startingAt (B : Box) (j k : ℕ) : Box := { B with low := Function.update B.low j k }

@[simp] theorem Box.low_upTo (B : Box) (j k : ℕ) : (B.upTo j k).low = B.low := rfl

@[simp] theorem Box.high_startingAt (B : Box) (j k : ℕ) : (B.startingAt j k).high = B.high := rfl

theorem Box.high_upTo (B : Box) (j k i : ℕ) :
    (B.upTo j k).high i = if i = j then k else B.high i := Function.update_apply ..

theorem Box.low_startingAt (B : Box) (j k i : ℕ) :
    (B.startingAt j k).low i = if i = j then k else B.low i := Function.update_apply ..

/-- A box that differs from another one in one variable only. -/
def Box.AgreesOff (B C : Box) (j : ℕ) : Prop := ∀ i, i ≠ j → B.width i = C.width i

omit [Scalar α] in
/-- **The cells of a box** are those of one variable, as often as the other
variables have any. -/
theorem exists_cells_eq {p : Problem α} (B : Box) {j : ℕ} (hj : p.isInteger j = true) :
    ∃ k, ∀ C : Box, C.AgreesOff B j → p.cells C = k * C.width j := by
  have hmem : j ∈ p.integerVariables := mem_integerVariables.2 hj
  have hnodup : p.integerVariables.Nodup := List.nodup_range.filter _
  obtain ⟨before, after, hsplit⟩ := List.append_of_mem hmem
  rw [hsplit] at hnodup
  obtain ⟨hbefore, hafter⟩ : j ∉ before ∧ j ∉ after := by
    obtain ⟨-, hright, hdisj⟩ := List.nodup_append.1 hnodup
    exact ⟨fun h => hdisj j h j List.mem_cons_self rfl, (List.nodup_cons.1 hright).1⟩
  refine ⟨(before.map B.width).prod * (after.map B.width).prod, fun C hC => ?_⟩
  have hmap : ∀ l : List ℕ, j ∉ l → l.map C.width = l.map B.width := by
    intro l hl
    exact List.map_congr_left fun i hi => hC i fun heq => hl (heq ▸ hi)
  rw [cells, hsplit, List.map_append, List.map_cons, List.prod_append, List.prod_cons,
    hmap before hbefore, hmap after hafter]
  ring

omit [Scalar α] in
/-- **The two parts of a box share out its cells.** -/
theorem cells_upTo_add_cells_startingAt {p : Problem α} {B : Box} {j k : ℕ}
    (hj : p.isInteger j = true) (hlow : B.low j ≤ k) (hhigh : k + 1 ≤ B.high j) :
    p.cells (B.upTo j k) + p.cells (B.startingAt j (k + 1)) = p.cells B := by
  obtain ⟨m, hm⟩ := exists_cells_eq B hj
  have hupTo : (B.upTo j k).AgreesOff B j := by
    intro i hi
    rw [Box.width, Box.width, Box.low_upTo, Box.high_upTo, if_neg hi]
  have hstartingAt : (B.startingAt j (k + 1)).AgreesOff B j := by
    intro i hi
    rw [Box.width, Box.width, Box.high_startingAt, Box.low_startingAt, if_neg hi]
  -- the other variables agree, and for this one the widths add up
  have hwidth : (B.upTo j k).width j + (B.startingAt j (k + 1)).width j = B.width j := by
    rw [Box.width, Box.width, Box.width, Box.low_upTo, Box.high_startingAt, Box.high_upTo,
      Box.low_startingAt, if_pos rfl, if_pos rfl]
    omega
  rw [hm _ hupTo, hm _ hstartingAt, hm B fun _ _ => rfl, ← Nat.mul_add, hwidth]

variable [Scalar.Valued α]

/-- **A problem with its integer variables in a box.** -/
structure Boxed (p q : Problem α) (B : Box) : Prop where
  /-- The integer variables are those of another problem. -/
  integer_eq : q.integer = p.integer
  /-- The box has a cell. -/
  low_le_high : ∀ j, p.isInteger j = true → B.low j ≤ B.high j
  /-- Finite values that respect the unit rows are in the box. -/
  mem : ∀ j v x, p.isInteger j = true → Scalar.Valued.value? v = some x → q.Respects j v →
    (B.low j : ℚ) ≤ x ∧ x ≤ (B.high j : ℚ)

variable {p q : Problem α} {B : Box} {j : ℕ} {v epsilon : α} {x : ℚ}

theorem Boxed.cells_pos (h : Boxed p q B) : 0 < p.cells B := by
  refine Nat.pos_of_ne_zero fun hzero => ?_
  obtain ⟨j, hj, hwidth⟩ := List.mem_map.1 (List.prod_eq_zero_iff.1 hzero)
  have hle := h.low_le_high j (mem_integerVariables.1 hj)
  unfold Box.width at hwidth
  omega

/-- What does not count as an integer is none. -/
theorem ne_intCast_of_isIntegral (heps : (0 : α) ≤ epsilon) (hx : Scalar.Valued.value? v = some x)
    (h : Search.isIntegral epsilon v = false) (k : ℤ) : x ≠ k := by
  rintro rfl
  have hzero : Scalar.abs (v - Scalar.round v) = 0 := Scalar.Valued.abs_sub_round hx
  rw [Search.isIntegral, hzero, decide_eq_true heps] at h
  cases h

/-- **A value in the box that is no integer** has an integer `k` of the box
below it and the next one above it. -/
theorem exists_nat_between {low high : ℕ} (hlow : (low : ℚ) ≤ x) (hhigh : x ≤ (high : ℚ))
    (hx : ∀ k : ℤ, x ≠ k) :
    ∃ k : ℕ, low ≤ k ∧ k + 1 ≤ high ∧ (⌊x⌋ : ℚ) = k ∧ (⌈x⌉ : ℚ) = (k + 1 : ℕ) := by
  have hnonneg : (0 : ℤ) ≤ ⌊x⌋ := Int.floor_nonneg.2 (le_trans (Nat.cast_nonneg low) hlow)
  obtain ⟨k, hk⟩ := Int.eq_ofNat_of_zero_le hnonneg
  have hfloor : (⌊x⌋ : ℚ) = k := by rw [hk]; rfl
  have hlt : (k : ℚ) < x :=
    lt_of_le_of_ne (hfloor ▸ Int.floor_le x) fun heq => hx k (by rw [← heq]; rfl)
  have hgt : x < k + 1 := hfloor ▸ Int.lt_floor_add_one x
  have hceil : ⌈x⌉ = (k : ℤ) + 1 := by
    rw [Int.ceil_eq_iff]
    push_cast
    exact ⟨by linarith, hgt.le⟩
  refine ⟨k, ?_, ?_, hfloor, ?_⟩
  · have hlow' : ((low : ℤ) : ℚ) ≤ x := hlow
    have hle : (low : ℤ) ≤ ⌊x⌋ := Int.le_floor.2 hlow'
    omega
  · have hlt' : (k : ℚ) < high := hlt.trans_le hhigh
    exact Nat.cast_lt.1 hlt'
  · rw [hceil]
    push_cast
    rfl

section Parts

variable {k : ℕ} {b : α} (h : Boxed p q B) (hv : q.Respects j v)
variable (hb : Scalar.Valued.value? b = some (k : ℚ))

include h hv hb

/-- **One more upper bound** leaves a part of the box. -/
theorem Boxed.atMost (hk : B.low j ≤ k) : Boxed p (q.atMost j b) (B.upTo j k) := by
  refine ⟨h.integer_eq, fun i hi => ?_, fun i w y hi hy hw => ?_⟩
  · rw [Box.low_upTo, Box.high_upTo]
    split
    · rename_i hij
      rwa [hij]
    · exact h.low_le_high i hi
  · obtain ⟨hold, hnew⟩ := hv.of_atMost (Scalar.isNumber_of_value? hb) hw
    obtain ⟨hlo, hhi⟩ := h.mem i w y hi hy hold
    rw [Box.low_upTo, Box.high_upTo]
    refine ⟨hlo, ?_⟩
    split
    · rename_i hij
      exact (Scalar.Valued.le_iff hy hb).1 (hnew hij)
    · exact hhi

/-- **So does one more lower bound.** -/
theorem Boxed.atLeast (hk : k ≤ B.high j) : Boxed p (q.atLeast j b) (B.startingAt j k) := by
  refine ⟨h.integer_eq, fun i hi => ?_, fun i w y hi hy hw => ?_⟩
  · rw [Box.high_startingAt, Box.low_startingAt]
    split
    · rename_i hij
      rwa [hij]
    · exact h.low_le_high i hi
  · obtain ⟨hold, hnew⟩ := hv.of_atLeast (Scalar.isNumber_of_value? hb) hw
    obtain ⟨hlo, hhi⟩ := h.mem i w y hi hy hold
    rw [Box.high_startingAt, Box.low_startingAt]
    refine ⟨?_, hhi⟩
    split
    · rename_i hij
      exact (Scalar.Valued.le_iff hb hy).1 (hnew hij)
    · exact hlo

end Parts

/-- **Splitting a problem splits its box**, and shares out the cells. -/
theorem Boxed.exists_split (h : Boxed p q B) (heps : (0 : α) ≤ epsilon) {f : Search.Fractional α}
    (hj : p.isInteger f.index = true) (hx : Scalar.Valued.value? f.value = some x)
    (hv : q.Respects f.index f.value) (hfrac : Search.isIntegral epsilon f.value = false) :
    ∃ C D, Boxed p (Search.floorChild q f) C ∧ Boxed p (Search.ceilChild q f) D ∧
      p.cells C + p.cells D = p.cells B := by
  obtain ⟨hlow, hhigh⟩ := h.mem f.index f.value x hj hx hv
  -- the lower part ends at the integer `k` below the value, the upper one begins at `k + 1`
  obtain ⟨k, hlk, hkh, hfloor, hceil⟩ :=
    exists_nat_between hlow hhigh (ne_intCast_of_isIntegral heps hx hfrac)
  have hfval : Scalar.Valued.value? (Scalar.floor f.value) = some (k : ℚ) :=
    hfloor ▸ Scalar.Valued.value?_floor hx
  have hcval : Scalar.Valued.value? (Scalar.ceil f.value) = some ((k + 1 : ℕ) : ℚ) :=
    hceil ▸ Scalar.Valued.value?_ceil hx
  exact ⟨B.upTo f.index k, B.startingAt f.index (k + 1), h.atMost hv hfval hlk,
    h.atLeast hv hcval hkh, cells_upTo_add_cells_startingAt hj hlk hkh⟩

/-! ## Weights -/

/-- The least number of cells of a box around a problem. -/
noncomputable def weight (p q : Problem α) : ℕ := sInf {n | ∃ B, Boxed p q B ∧ p.cells B = n}

theorem weight_le (h : Boxed p q B) : weight p q ≤ p.cells B := Nat.sInf_le ⟨B, h, rfl⟩

/-- Whether there is a box around a problem. -/
def IsBoxed (p q : Problem α) : Prop := ∃ B, Boxed p q B

/-- There is a box of that weight. -/
theorem IsBoxed.exists_weight (h : IsBoxed p q) : ∃ B, Boxed p q B ∧ p.cells B = weight p q := by
  obtain ⟨B, hB⟩ := h
  have hne : Set.Nonempty {n | ∃ B, Boxed p q B ∧ p.cells B = n} := ⟨p.cells B, B, hB, rfl⟩
  exact Nat.sInf_mem hne

theorem IsBoxed.weight_pos (h : IsBoxed p q) : 0 < weight p q := by
  obtain ⟨B, hB, heq⟩ := h.exists_weight
  exact heq ▸ hB.cells_pos

/-- **The two children of a problem share its weight.** -/
theorem IsBoxed.children (h : IsBoxed p q) (heps : (0 : α) ≤ epsilon) {f : Search.Fractional α}
    (hj : p.isInteger f.index = true) (hx : Scalar.Valued.value? f.value = some x)
    (hv : q.Respects f.index f.value) (hfrac : Search.isIntegral epsilon f.value = false) :
    IsBoxed p (Search.floorChild q f) ∧ IsBoxed p (Search.ceilChild q f) ∧
      weight p (Search.floorChild q f) + weight p (Search.ceilChild q f) ≤ weight p q := by
  obtain ⟨B, hB, hweight⟩ := h.exists_weight
  obtain ⟨C, D, hC, hD, hcells⟩ := hB.exists_split heps hj hx hv hfrac
  have hlow := weight_le hC
  have hhigh := weight_le hD
  exact ⟨⟨C, hC⟩, ⟨D, hD⟩, by omega⟩

/-! ## The first box -/

/-- The box up to the least integers that are not below the bounds `u`. -/
def firstBox (u : ℕ → ℚ) : Box := ⟨fun _ => 0, fun j => ⌈max (u j) 0⌉.toNat⟩

/-- **How many integral points there are** up to upper bounds `u` of the
integer variables. -/
def boxSize (p : Problem α) (u : ℕ → ℚ) : ℕ :=
  (p.integerVariables.map fun j => ⌈max (u j) 0⌉.toNat + 1).prod

omit [Scalar α] [Scalar.Valued α] in
theorem cells_firstBox (p : Problem α) (u : ℕ → ℚ) : p.cells (firstBox u) = p.boxSize u := rfl

/-- **A problem with finite upper bounds** on its integer variables is in the
box up to them. -/
theorem boxed_firstBox {u : ℕ → ℚ} (hu : ∀ j, p.isInteger j = true → ∃ r ∈ p.rows,
    r.coefficients = Scalar.unitList p.numVariables j 1 ∧
      Scalar.Valued.value? r.rhs = some (u j)) : Boxed p p (firstBox u) := by
  refine ⟨rfl, fun j _ => Nat.zero_le _, fun j v x hj hx hv => ⟨?_, ?_⟩⟩
  · rw [firstBox, Nat.cast_zero]
    exact (Scalar.Valued.le_iff Scalar.Valued.value?_zero hx).1 hv.nonneg
  · obtain ⟨r, hr, hcoef, hrhs⟩ := hu j hj
    have hle : x ≤ u j := (Scalar.Valued.le_iff hx hrhs).1 (hv.upper r hr hcoef)
    have hnonneg : (0 : ℤ) ≤ ⌈max (u j) 0⌉ := Int.ceil_nonneg (le_max_right _ _)
    have hcast : ((⌈max (u j) 0⌉.toNat : ℕ) : ℚ) = (⌈max (u j) 0⌉ : ℚ) := by
      rw [← Int.cast_natCast, Int.toNat_of_nonneg hnonneg]
    calc x ≤ max (u j) 0 := hle.trans (le_max_left _ _)
      _ ≤ (⌈max (u j) 0⌉ : ℚ) := Int.le_ceil _
      _ = ((firstBox u).high j : ℚ) := hcast.symm

end Problem

end Milp
