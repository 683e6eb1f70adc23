import Milp.Proofs.Tableau.Canonical
import Milp.Tableau.Standard
/-!
# What the first tableau says

The equations of a problem, one by one (`getElem?_rows_ofProblem`): the
slack of a row is in a column of its own, and a negated row has an artificial
variable besides, in the column after those of the negated rows before it.
So the tableau is canonical (`canonical_ofProblem`) with no negative
right-hand side (`feasible_ofProblem`). Where the artificial variables are
zero it is solved exactly by the points of the problem with their slacks
(`solves_ofProblem_iff`), and the column of every artificial variable is
minus that of a slack (`mirrored_ofProblem`).
-/

namespace Milp

namespace Tableau

/-! ## The equations, one by one -/

section Equations

variable {α : Type} [Scalar α] {p : Problem α}

/-- The equation of the `i`-th of `m` rows over `n` variables, where `a` of
the `k` flipped rows come before it. -/
def equation (n m k i a : ℕ) (r : Row α) : BasicRow α :=
  if isFlipped r then
    { coefficients := r.coefficients.map (-1 * ·) ++ Scalar.unitList m i (-1) ++
        Scalar.unitList k a 1
      rhs := -1 * r.rhs
      basic := n + m + a }
  else
    { coefficients := r.coefficients.map (1 * ·) ++ Scalar.unitList m i 1 ++
        List.replicate k 0
      rhs := 1 * r.rhs
      basic := n + i }

/-- How many of the rows before a place are flipped. -/
def flippedBefore (rows : List (Row α)) (d : ℕ) : ℕ := (rows.take d).countP isFlipped

theorem flippedBefore_succ (rows : List (Row α)) (r : Row α) (d : ℕ) :
    flippedBefore (r :: rows) (d + 1) =
      flippedBefore rows d + if isFlipped r then 1 else 0 := by
  rw [flippedBefore, List.take_succ_cons, List.countP_cons, flippedBefore]

theorem getElem?_equations (n m k : ℕ) (rows : List (Row α)) (i a d : ℕ) :
    (equations n m k i a rows)[d]? =
      rows[d]?.map fun r => equation n m k (i + d) (a + flippedBefore rows d) r := by
  induction rows generalizing i a d with
  | nil => rfl
  | cons r rows ih =>
    rw [equations]
    cases d with
    | zero =>
      have h0 : flippedBefore (r :: rows) 0 = 0 := rfl
      rw [h0, List.getElem?_cons_zero, Option.map_some, equation]
      split <;> rfl
    | succ d =>
      rw [flippedBefore_succ, List.getElem?_cons_succ]
      split <;> rw [List.getElem?_cons_succ, ih]
      · rw [Nat.add_right_comm i, Nat.add_assoc i, Nat.add_right_comm a, Nat.add_assoc a]
      · rw [Nat.add_right_comm i, Nat.add_assoc i]
        rfl

theorem length_equations (n m k : ℕ) (rows : List (Row α)) (i a : ℕ) :
    (equations n m k i a rows).length = rows.length := by
  induction rows generalizing i a with
  | nil => rfl
  | cons r rows ih =>
    rw [equations]
    split <;> rw [List.length_cons, List.length_cons, ih]

/-- Right after a row it is counted, if it is flipped. -/
theorem flippedBefore_add_one {rows : List (Row α)} {d : ℕ} {r : Row α} (hr : rows[d]? = some r) :
    flippedBefore rows (d + 1) = flippedBefore rows d + if isFlipped r then 1 else 0 := by
  rw [flippedBefore, List.take_add_one, hr, Option.toList_some, List.countP_append,
    List.countP_singleton, flippedBefore]

/-- Rows that are flipped are counted one further on. -/
theorem flippedBefore_lt {rows : List (Row α)} {d e : ℕ} {r : Row α} (hr : rows[d]? = some r)
    (hf : isFlipped r = true) (hde : d < e) : flippedBefore rows d < flippedBefore rows e := by
  have hsucc := flippedBefore_add_one hr
  rw [if_pos hf] at hsucc
  have hle : flippedBefore rows (d + 1) ≤ flippedBefore rows e :=
    (List.take_sublist_take_left (Nat.succ_le_of_lt hde)).countP_le
  omega

/-- The sign that makes a right-hand side nonnegative. -/
def sign (r : Row α) : α := if isFlipped r then -1 else 1

section Entries

variable {n m k i a : ℕ} {r : Row α}

theorem coefficients_equation :
    (equation n m k i a r).coefficients =
      r.coefficients.map (sign r * ·) ++ Scalar.unitList m i (sign r) ++
        (if isFlipped r then Scalar.unitList k a 1 else List.replicate k 0) := by
  unfold equation sign
  split <;> rfl

theorem rhs_equation : (equation n m k i a r).rhs = sign r * r.rhs := by
  unfold equation sign
  split <;> rfl

theorem basic_equation :
    (equation n m k i a r).basic = if isFlipped r then n + m + a else n + i := by
  unfold equation
  split <;> rfl

theorem length_equation (hn : r.coefficients.length = n) :
    (equation n m k i a r).coefficients.length = n + m + k := by
  rw [coefficients_equation, List.length_append, List.length_append, List.length_map,
    Scalar.length_unitList, hn]
  split <;> simp

end Entries

@[simp] theorem structural_ofProblem (p : Problem α) :
    (ofProblem p).structural = p.numVariables + p.numRows := rfl

theorem artificials_ofProblem (p : Problem α) :
    (ofProblem p).artificials = p.rows.countP isFlipped := List.countP_eq_length_filter.symm

theorem length_rows_ofProblem (p : Problem α) : (ofProblem p).rows.length = p.numRows :=
  length_equations _ _ _ _ _ _

theorem getElem?_rows_ofProblem (p : Problem α) (d : ℕ) :
    (ofProblem p).rows[d]? = p.rows[d]?.map fun r =>
      equation p.numVariables p.numRows (ofProblem p).artificials d
        (flippedBefore p.rows d) r := by
  show (equations _ _ _ 0 0 p.rows)[d]? = _
  rw [getElem?_equations]
  simp only [Nat.zero_add]
  rfl

/-- What an equation of the tableau is, with the bounds of its numbers. -/
theorem exists_of_mem_rows_ofProblem {d : ℕ} {e : BasicRow α}
    (he : (ofProblem p).rows[d]? = some e) :
    ∃ r, p.rows[d]? = some r ∧ r.coefficients.length = p.numVariables ∧ d < p.numRows ∧
      (isFlipped r = true → flippedBefore p.rows d < (ofProblem p).artificials) ∧
      e = equation p.numVariables p.numRows (ofProblem p).artificials d
        (flippedBefore p.rows d) r := by
  rw [getElem?_rows_ofProblem] at he
  obtain ⟨r, hr, rfl⟩ := Option.map_eq_some_iff.1 he
  have hd : d < p.rows.length := (List.getElem?_eq_some_iff.1 hr).1
  refine ⟨r, hr, p.length_coefficients r (List.mem_of_getElem? hr), hd, fun hf => ?_, rfl⟩
  have hall : flippedBefore p.rows p.rows.length = p.rows.countP isFlipped := by
    rw [flippedBefore, List.take_length]
  rw [artificials_ofProblem, ← hall]
  exact flippedBefore_lt hr hf hd

/-- **The first tableau has the shape of one.** -/
theorem shaped_ofProblem (p : Problem α) : (ofProblem p).Shaped := by
  refine ⟨fun e he => ?_, List.length_replicate, fun e he => ?_⟩
  · obtain ⟨d, hd⟩ := List.mem_iff_getElem?.1 he
    obtain ⟨r, -, hn, -, -, rfl⟩ := exists_of_mem_rows_ofProblem hd
    exact length_equation hn
  · obtain ⟨d, hd⟩ := List.mem_iff_getElem?.1 he
    obtain ⟨r, -, -, hlt, ha, rfl⟩ := exists_of_mem_rows_ofProblem hd
    rw [basic_equation, width, structural_ofProblem]
    split
    · rename_i hf
      have := ha hf
      omega
    · omega

end Equations

/-- The flipped row with a number is somewhere. -/
theorem exists_flippedBefore_eq {rows : List (Row ℚ)} {q : ℕ} (hq : q < rows.countP isFlipped) :
    ∃ d r, rows[d]? = some r ∧ isFlipped r = true ∧ flippedBefore rows d = q := by
  induction rows generalizing q with
  | nil => simp at hq
  | cons r rows ih =>
    rw [List.countP_cons] at hq
    by_cases hf : isFlipped r = true
    · rw [if_pos hf] at hq
      cases q with
      | zero => exact ⟨0, r, rfl, hf, rfl⟩
      | succ q =>
        obtain ⟨d, s, hs, hsf, hd⟩ := ih (Nat.lt_of_succ_lt_succ hq)
        exact ⟨d + 1, s, hs, hsf, by rw [flippedBefore_succ, hd, if_pos hf]⟩
    · rw [if_neg hf] at hq
      obtain ⟨d, s, hs, hsf, hd⟩ := ih hq
      exact ⟨d + 1, s, hs, hsf, by rw [flippedBefore_succ, hd, if_neg hf, Nat.add_zero]⟩

/-! ## Entries of an equation -/

section Entries

variable {n m k i a : ℕ} {r : Row ℚ}

/-- A slack column meets its own row with the sign of the row. -/
theorem entry_slack (hn : r.coefficients.length = n) (hi : i < m) {q : ℕ} (hq : q < m) :
    (equation n m k i a r).entry (n + q) = if q = i then sign r else 0 := by
  rw [Row.entry, coefficients_equation, List.getD_append _ _ _ _ (by simp; omega),
    List.getD_append_right _ _ _ _ (by simp; omega), List.length_map, hn,
    Nat.add_sub_cancel_left, getD_unitList hi]

/-- An artificial column meets its own row with a one. -/
theorem entry_artificial (hn : r.coefficients.length = n) (ha : isFlipped r = true → a < k)
    (q : ℕ) :
    (equation n m k i a r).entry (n + m + q) = if isFlipped r ∧ q = a then 1 else 0 := by
  rw [Row.entry, coefficients_equation, List.getD_append_right _ _ _ _ (by simp; omega),
    List.length_append, List.length_map, Scalar.length_unitList, hn, Nat.add_sub_cancel_left]
  by_cases hf : isFlipped r = true
  · rw [if_pos hf, getD_unitList (ha hf)]
    simp [hf]
  · rw [if_neg hf, if_neg fun h => hf h.1]
    exact List.getElem?_getD_replicate_default_eq 0 k q

/-- **What an equation says**: the row with its slack, up to the sign, and
the artificial variable if there is one. -/
theorem gap_equation (hn : r.coefficients.length = n) (hi : i < m)
    (ha : isFlipped r = true → a < k) (x : ℕ → ℚ) (h : ℚ) :
    (equation n m k i a r).gap x h =
      sign r * (r.value x + x (n + i) - h * r.rhs) + if isFlipped r then x (n + m + a) else 0 := by
  rw [Row.gap, rhs_equation, Row.value, coefficients_equation, dot_append, dot_append,
    dot_map_mul, dot_unitList hi, List.length_append, List.length_map, Scalar.length_unitList, hn]
  by_cases hf : isFlipped r = true
  · rw [if_pos hf, if_pos hf, dot_unitList (ha hf), Row.value]
    ring
  · rw [if_neg hf, if_neg hf, dot_replicate_zero, Row.value]
    ring

end Entries

/-- The sign is not zero. -/
theorem sign_ne_zero (r : Row ℚ) : sign r ≠ 0 := by
  unfold sign
  split <;> norm_num

/-- With its sign a right-hand side is not negative. -/
theorem sign_mul_rhs_nonneg (r : Row ℚ) : 0 ≤ sign r * r.rhs := by
  unfold sign isFlipped
  split
  · rename_i h
    have := of_decide_eq_true h
    linarith
  · rename_i h
    have := not_lt.1 fun hlt => h (decide_eq_true hlt)
    linarith

/-! ## The first tableau -/

variable {p : Problem ℚ}

/-- **The first tableau is canonical.** -/
theorem canonical_ofProblem (p : Problem ℚ) : (ofProblem p).Canonical := by
  refine { shaped_ofProblem p with entry_basic := fun {d d' e e'} he he' => ?_ }
  obtain ⟨r, hr, hn, hd, ha, rfl⟩ := exists_of_mem_rows_ofProblem he
  obtain ⟨r', hr', -, hd', -, rfl⟩ := exists_of_mem_rows_ofProblem he'
  rw [basic_equation]
  by_cases hf' : isFlipped r' = true
  · rw [if_pos hf', entry_artificial hn ha]
    refine if_congr ⟨?_, fun heq => ?_⟩ rfl rfl
    · -- two flipped rows with the same number are the same row
      rintro ⟨hf, heq⟩
      rcases Nat.lt_trichotomy d d' with hlt | rfl | hlt
      · exact absurd heq (flippedBefore_lt hr hf hlt).ne'
      · rfl
      · exact absurd heq (flippedBefore_lt hr' hf' hlt).ne
    · subst heq
      cases hr.symm.trans hr'
      exact ⟨hf', rfl⟩
  · rw [if_neg hf', entry_slack hn hd hd']
    by_cases hdd : d = d'
    · subst hdd
      cases hr.symm.trans hr'
      rw [if_pos rfl, if_pos rfl, sign, if_neg hf']
    · rw [if_neg (Ne.symm hdd), if_neg hdd]

/-- The first tableau has no negative right-hand side. -/
theorem feasible_ofProblem (p : Problem ℚ) : (ofProblem p).Feasible := by
  intro e he
  obtain ⟨d, hd⟩ := List.mem_iff_getElem?.1 he
  obtain ⟨r, -, -, -, -, rfl⟩ := exists_of_mem_rows_ofProblem hd
  rw [rhs_equation]
  exact sign_mul_rhs_nonneg r

/-- The assignment gives every row of the problem its slack, in the columns
after those of the variables. -/
def Slacked (p : Problem ℚ) (x : ℕ → ℚ) (h : ℚ) : Prop :=
  ∀ i r, p.rows[i]? = some r → r.value x + x (p.numVariables + i) = h * r.rhs

/-- **Without artificial variables the first tableau says what the rows
say**, with their slacks. -/
theorem solves_ofProblem_iff {x : ℕ → ℚ} (hx : ∀ j, p.numVariables + p.numRows ≤ j → x j = 0)
    (h : ℚ) : (ofProblem p).Solves x h ↔ Slacked p x h := by
  have hart : ∀ a, x (p.numVariables + p.numRows + a) = 0 := fun a => hx _ (by omega)
  constructor
  · intro hsol d r hr
    have he : (ofProblem p).rows[d]? = some (equation p.numVariables p.numRows
        (ofProblem p).artificials d (flippedBefore p.rows d) r) := by
      rw [getElem?_rows_ofProblem, hr, Option.map_some]
    obtain ⟨r', hr', hn, hd, ha, -⟩ := exists_of_mem_rows_ofProblem he
    cases hr.symm.trans hr'
    have hgap := hsol _ (List.mem_of_getElem? he)
    rw [gap_equation hn hd ha, hart, ite_self, add_zero, mul_eq_zero] at hgap
    exact sub_eq_zero.1 (hgap.resolve_left (sign_ne_zero r))
  · intro hsl e he
    obtain ⟨d, hd⟩ := List.mem_iff_getElem?.1 he
    obtain ⟨r, hr, hn, hlt, ha, rfl⟩ := exists_of_mem_rows_ofProblem hd
    rw [gap_equation hn hlt ha, hart, ite_self, add_zero, hsl d r hr, sub_self, mul_zero]

/-! ## Artificial variables mirror slacks -/

/-- The column of every artificial variable is minus another column. -/
def Mirrored (t : Tableau ℚ) : Prop :=
  ∀ c, t.structural ≤ c → c < t.width → ∃ j < t.structural, ∀ r ∈ t.rows, r.entry j = -r.entry c

/-- **An artificial variable mirrors the slack of its row.** -/
theorem mirrored_ofProblem (p : Problem ℚ) : (ofProblem p).Mirrored := by
  intro c hc hcw
  obtain ⟨q, rfl⟩ := Nat.exists_eq_add_of_le hc
  have hq : q < p.rows.countP isFlipped := by
    rw [← artificials_ofProblem]
    rw [width] at hcw
    omega
  obtain ⟨d, r, hr, hf, rfl⟩ := exists_flippedBefore_eq hq
  have hd : d < p.numRows := (List.getElem?_eq_some_iff.1 hr).1
  refine ⟨p.numVariables + d, by rw [structural_ofProblem]; omega, fun e he => ?_⟩
  obtain ⟨d', hd'⟩ := List.mem_iff_getElem?.1 he
  obtain ⟨r', hr', hn, hlt, ha, rfl⟩ := exists_of_mem_rows_ofProblem hd'
  rw [structural_ofProblem, entry_slack hn hlt hd, entry_artificial hn ha]
  by_cases hdd : d = d'
  · subst hdd
    cases hr.symm.trans hr'
    rw [if_pos rfl, if_pos ⟨hf, rfl⟩, sign, if_pos hf]
  · rw [if_neg hdd, if_neg, neg_zero]
    rintro ⟨hf', heq⟩
    rcases Nat.lt_or_gt_of_ne hdd with h | h
    · exact (flippedBefore_lt hr hf h).ne heq
    · exact (flippedBefore_lt hr' hf' h).ne' heq

/-- A pivot keeps columns that mirror each other. -/
theorem Mirrored.pivot {t : Tableau ℚ} (hm : t.Mirrored) (ht : t.Shaped) {row col : ℕ}
    {r : BasicRow ℚ} (hr : t.rows[row]? = some r) : (t.pivot row col).Mirrored := by
  intro c hc hcw
  rw [structural_pivot] at hc ⊢
  rw [width_pivot] at hcw
  obtain ⟨j, hj, heq⟩ := hm c hc hcw
  refine ⟨j, hj, fun s hs => ?_⟩
  have hdiv : (r.toRow.divide (r.entry col)).entry j =
      -(r.toRow.divide (r.entry col)).entry c := by
    rw [Row.entry_divide, Row.entry_divide, heq r (List.mem_of_getElem? hr), neg_div]
  rcases mem_rows_pivot hr hs with rfl | ⟨q, hq, rfl⟩
  · exact hdiv
  · rw [Row.entry_eliminate _ (ht.length_pivotRow hr hq),
      Row.entry_eliminate _ (ht.length_pivotRow hr hq), hdiv, heq q hq]
    ring

end Tableau

end Milp
