import Milp.Storage.Tableau
import Milp.Proofs.Simplex.Shapes
import Milp.Proofs.Storage.Problems
/-!
# Stored tableaus hold tableaus

`Tableau.stored` is a tableau as it is kept. Finding a move and making a pivot are
the same on it, without a fault, where the tableau has the right shape: all
indices that are taken are those of rows and columns that there are
(`pivot_stored`, `move_stored`). No law of arithmetic or of the order is used.
-/

namespace Milp

open Storage

/-! ## Entries of rows -/

namespace Storage

variable {α : Type} {data : List (List α)} {row other : List α} {i j k cols : ℕ} {v : α}

theorem readEntry_of_getElem? (hrow : data[i]? = some row) (hv : row[j]? = some v) :
    readEntry data i j = .ok v := by
  rw [readEntry, read_of_getElem? hrow, ok_bind, read_of_getElem? hv]

theorem writeEntry_of_lt (hrow : data[i]? = some row) (hj : j < row.length) (v : α) :
    writeEntry data i j v = .ok (data.set i (row.set j v)) := by
  rw [writeEntry, read_of_getElem? hrow, ok_bind, write_of_lt hj, ok_bind,
    write_of_lt (List.getElem?_eq_some_iff.1 hrow).1]

/-- **A row is changed entry by entry**: at each turn the entries from there on
are as they were. -/
theorem changeRow_eq {f : List (List α) → ℕ → Run α} {g : ℕ → α → α} (hrow : data[i]? = some row)
    (hcols : row.length = cols)
    (h : ∀ (ys : List α) (j : ℕ) (v : α), row[j]? = some v → ys[j]? = some v →
      f (data.set i ys) j = .ok (g j v)) :
    changeRow i cols f data = .ok (data.set i (row.mapIdx g)) := by
  have hi : i < data.length := (List.getElem?_eq_some_iff.1 hrow).1
  have hloop := foldlM_range_mapIdx (g := g) (k := fun ys => data.set i ys) (l := row)
    (f := fun data j => do
      let v ← f data j
      writeEntry data i j v) fun ys j v hv hlen _ hrest => by
    have hj : j < ys.length := hlen.symm ▸ (List.getElem?_eq_some_iff.1 hv).1
    rw [h ys j v hv ((hrest j le_rfl).trans hv), ok_bind,
      writeEntry_of_lt (List.getElem?_set_self hi) hj, List.set_set]
  have hself : data.set i row = data := by
    obtain ⟨-, rfl⟩ := List.getElem?_eq_some_iff.1 hrow
    exact List.set_getElem_self hi
  rw [hself, hcols] at hloop
  exact hloop

/-- **A row is combined with another one.** -/
theorem combineRow_eq (f : α → α → α) (hrow : data[i]? = some row) (hother : data[k]? = some other)
    (hne : i ≠ k) (hcols : row.length = cols) (hlen : other.length = cols) :
    combineRow f i k cols data = .ok (data.set i (List.zipWith f row other)) := by
  have hi : i < data.length := (List.getElem?_eq_some_iff.1 hrow).1
  have hchange := changeRow_eq (g := fun j v => (other[j]?.map (f v)).getD v) hrow hcols
    (f := fun data j => do
      let v ← readEntry data i j
      let w ← readEntry data k j
      pure (f v w)) fun ys j v hv hys => by
    have hj : j < other.length := by
      rw [hlen, ← hcols]
      exact (List.getElem?_eq_some_iff.1 hv).1
    have hw := List.getElem?_eq_getElem hj
    rw [readEntry_of_getElem? (List.getElem?_set_self hi) hys, ok_bind,
      readEntry_of_getElem? (by rw [List.getElem?_set_ne hne, hother]) hw, ok_bind, hw]
    rfl
  refine hchange.trans (congrArg (fun ys => Except.ok (data.set i ys)) ?_)
  refine List.ext_getElem (by simp [hcols, hlen]) fun j hj hj' => ?_
  rw [List.length_mapIdx, hcols, ← hlen] at hj
  rw [List.getElem_mapIdx, List.getElem_zipWith, List.getElem?_eq_getElem hj]
  rfl

end Storage

/-! ## Rows as they are kept -/

namespace Row

variable {α : Type}

/-- A row as it is kept. -/
def stored (r : Row α) : List α := r.coefficients ++ [r.rhs]

@[simp] theorem length_stored (r : Row α) : r.stored.length = r.coefficients.length + 1 := by
  simp [stored]

/-- The right-hand side comes after the coefficients. -/
theorem getElem?_stored_length (r : Row α) : r.stored[r.coefficients.length]? = some r.rhs := by
  simp [stored]

variable [Scalar α]

theorem getElem?_stored {r : Row α} {j : ℕ} (hj : j < r.coefficients.length) :
    r.stored[j]? = some (r.entry j) := by
  rw [stored, List.getElem?_append_left hj, List.getElem?_eq_getElem hj, entry,
    List.getD_eq_getElem _ _ hj]

/-- A row of zeros. -/
theorem stored_zero (n : ℕ) : stored (⟨List.replicate n 0, 0⟩ : Row α) = List.replicate (n + 1) 0 :=
  List.replicate_succ'.symm

theorem stored_divide (r : Row α) (c : α) : (r.divide c).stored = r.stored.map (· / c) := by
  simp [stored, divide]

theorem stored_minus {r s : Row α} (h : r.coefficients.length = s.coefficients.length) :
    (r.minus s).stored = List.zipWith (fun v w => v - w) r.stored s.stored := by
  rw [stored, stored, stored, List.zipWith_append h]
  rfl

theorem stored_minusTimes {r s : Row α} (c : α)
    (h : r.coefficients.length = s.coefficients.length) :
    (r.minusTimes c s).stored = List.zipWith (fun v w => v - c * w) r.stored s.stored := by
  rw [stored, stored, stored, List.zipWith_append h]
  rfl

end Row

namespace Tableau

variable {α : Type} {t : Tableau α} {r : BasicRow α} {q z : Row α} {b : Build}
variable {n m i j row col : ℕ}

/-! ## Tableaus as they are kept -/

/-- All rows, the objective last. -/
def lines (t : Tableau α) : List (Row α) := t.rows.map (·.toRow) ++ [t.objective]

/-- A tableau for `n` decision and `m` slack variables as it is kept. -/
def stored (t : Tableau α) (n m : ℕ) : StoredTableau α where
  data := t.lines.map Row.stored
  basicVars := t.basis
  numVars := n
  numSlacks := m
  numArtificials := t.artificials

@[simp] theorem length_lines (t : Tableau α) : t.lines.length = t.rows.length + 1 := by
  simp [lines]

theorem getElem?_lines (hr : t.rows[i]? = some r) : t.lines[i]? = some r.toRow := by
  rw [lines, List.getElem?_append_left (by simpa using (List.getElem?_eq_some_iff.1 hr).1),
    List.getElem?_map, hr, Option.map_some]

theorem getElem?_lines_length (t : Tableau α) : t.lines[t.rows.length]? = some t.objective := by
  simp [lines]

/-- Another objective is another last row. -/
theorem lines_set_length (t : Tableau α) (z : Row α) :
    t.lines.set t.rows.length z = lines { t with objective := z } := by
  rw [lines, List.set_append_right _ _ (by simp)]
  simp [lines]

theorem getElem?_basis (hr : t.rows[i]? = some r) : t.basis[i]? = some r.basic := by
  rw [basis, List.getElem?_map, hr, Option.map_some]

/-- **A tableau that can be kept**: it has the right shape, its columns are
counted right, and memory can hold a row. -/
structure Storable (n m : ℕ) (t : Tableau α) : Prop extends t.Shaped where
  /-- The decision variables come before the slacks. -/
  structural_eq : t.structural = n + m
  /-- A row has room for its right-hand side too. -/
  width_lt : t.width < capacity

theorem Shaped.length_of_mem_lines (ht : t.Shaped) (hq : q ∈ t.lines) :
    q.coefficients.length = t.width := by
  rcases List.mem_append.1 hq with hq | hq
  · obtain ⟨r, hr, rfl⟩ := List.mem_map.1 hq
    exact ht.length_coefficients r hr
  · rw [List.mem_singleton.1 hq]
    exact ht.length_objective

/-! ## Places -/

theorem length_data_stored (t : Tableau α) (n m : ℕ) :
    (t.stored n m).data.length = t.rows.length + 1 := by
  simp [stored]

theorem length_rows_lt_data (t : Tableau α) (n m : ℕ) :
    t.rows.length < (t.stored n m).data.length := by
  rw [length_data_stored]
  exact Nat.lt_succ_self _

theorem objectiveRow_stored (t : Tableau α) (n m : ℕ) :
    (t.stored n m).objectiveRow b = .ok t.rows.length := by
  rw [StoredTableau.objectiveRow, length_data_stored,
    difference_of_le (Nat.le_add_left 1 t.rows.length), Nat.add_sub_cancel]

theorem width_stored (ht : t.Shaped) (n m : ℕ) : (t.stored n m).width = .ok (t.width + 1) := by
  have hpos : 0 < t.lines.length := by simp
  have hget : (t.stored n m).data[0]? = some t.lines[0].stored := by
    rw [stored, List.getElem?_map, List.getElem?_eq_getElem hpos, Option.map_some]
  rw [StoredTableau.width, read_of_getElem? hget, ok_bind, Row.length_stored,
    ht.length_of_mem_lines (List.getElem_mem hpos)]
  rfl

theorem Storable.artificialStart_stored (ht : Storable n m t) :
    (t.stored n m).artificialStart b = .ok t.structural := by
  have hle : t.structural ≤ t.width := Nat.le_add_right _ _
  rw [ht.structural_eq] at hle ⊢
  exact word_of_le_capacity (hle.trans ht.width_lt.le)

/-- The last column is that of the right-hand sides. -/
theorem getElem?_stored_width (hz : q.coefficients.length = t.width) :
    q.stored[t.width]? = some q.rhs := hz ▸ q.getElem?_stored_length

section Operations

variable [Scalar α]

/-- A coefficient of one of the lines. -/
theorem readEntry_lines {lines : List (Row α)} (hq : lines[i]? = some q)
    (hj : j < q.coefficients.length) :
    readEntry (lines.map Row.stored) i j = .ok (q.entry j) :=
  readEntry_of_getElem? (by rw [List.getElem?_map, hq, Option.map_some]) (Row.getElem?_stored hj)

omit [Scalar α] in
/-- The right-hand side of one of the lines. -/
theorem readEntry_lines_width {lines : List (Row α)} (hq : lines[i]? = some q)
    (hlen : q.coefficients.length = t.width) :
    readEntry (lines.map Row.stored) i t.width = .ok q.rhs :=
  readEntry_of_getElem? (by rw [List.getElem?_map, hq, Option.map_some])
    (getElem?_stored_width hlen)

/-! ## Pivots -/

/-- What a pivot makes of the row at a place. -/
def pivotLine (row col : ℕ) (d : Row α) (i : ℕ) (q : Row α) : Row α :=
  if i = row then q else q.eliminate col d

theorem lines_pivot (hr : t.rows[row]? = some r) :
    (t.pivot row col).lines =
      (t.lines.set row (r.toRow.divide (r.entry col))).mapIdx
        (pivotLine row col (r.toRow.divide (r.entry col))) := by
  have hrow : row < t.rows.length := (List.getElem?_eq_some_iff.1 hr).1
  refine List.ext_getElem? fun i => ?_
  rw [List.getElem?_mapIdx, List.getElem?_set, length_lines]
  rcases Nat.lt_trichotomy i t.rows.length with hi | rfl | hi
  · have hs := List.getElem?_eq_getElem hi
    by_cases heq : row = i
    · subst heq
      rw [if_pos rfl, if_pos (by omega),
        getElem?_lines (by rw [getElem?_rows_pivot hr, if_pos rfl])]
      simp [pivotLine]
    · rw [if_neg heq, getElem?_lines hs, getElem?_lines
        (by rw [getElem?_rows_pivot hr, if_neg (Ne.symm heq), hs, Option.map_some])]
      simp [pivotLine, Ne.symm heq]
  · have hlast := getElem?_lines_length (t.pivot row col)
    rw [length_rows_pivot, objective_pivot hr] at hlast
    rw [if_neg hrow.ne, getElem?_lines_length, hlast]
    simp [pivotLine, hrow.ne']
  · rw [if_neg (hrow.trans hi).ne, List.getElem?_eq_none (by simp; omega),
      List.getElem?_eq_none (by simp; omega)]
    rfl

/-- **One turn of a pivot** changes one row. -/
theorem eliminateRow_lines {lines : List (Row α)} {d : Row α} (hd : lines[row]? = some d)
    (hq : lines[i]? = some q) (hlen : q.coefficients.length = d.coefficients.length)
    (hcol : col < d.coefficients.length) :
    StoredTableau.eliminateRow row col (d.coefficients.length + 1) (lines.map Row.stored) i =
      .ok ((lines.set i (pivotLine row col d i q)).map Row.stored) := by
  have hself : lines.set i q = lines := by
    obtain ⟨hi, rfl⟩ := List.getElem?_eq_some_iff.1 hq
    exact List.set_getElem_self hi
  rw [StoredTableau.eliminateRow, pivotLine]
  split
  · rw [hself]
    rfl
  · rename_i hne
    rw [readEntry_lines hq (hlen.symm ▸ hcol), ok_bind, Row.eliminate]
    split
    · rw [hself]
      rfl
    · rw [combineRow_eq _ (by rw [List.getElem?_map, hq, Option.map_some])
        (by rw [List.getElem?_map, hd, Option.map_some]) hne (by rw [Row.length_stored, hlen])
        (Row.length_stored d), ← Row.stored_minusTimes _ hlen, List.map_set]

/-- **The rows of a pivot**, one after the other: `d` is in the pivot row at each
turn, whether that has been passed or not. -/
theorem eliminateRows_lines {lines : List (Row α)} {d : Row α} (hd : lines[row]? = some d)
    (hlen : ∀ q ∈ lines, q.coefficients.length = d.coefficients.length)
    (hcol : col < d.coefficients.length) :
    (List.range lines.length).foldlM
        (StoredTableau.eliminateRow row col (d.coefficients.length + 1)) (lines.map Row.stored) =
      .ok ((lines.mapIdx (pivotLine row col d)).map Row.stored) := by
  refine foldlM_range_mapIdx (k := List.map Row.stored) fun ys i q hq _ hbefore hrest => ?_
  have hturn : ys[row]? = some d := by
    rcases Nat.lt_or_ge row i with hlt | hge
    · rw [hbefore row hlt, hd, Option.map_some, pivotLine, if_pos rfl]
    · rw [hrest row hge, hd]
  exact eliminateRow_lines hturn ((hrest i le_rfl).trans hq)
    (hlen q (List.mem_of_getElem? hq)) hcol

/-- The pivot row is divided. -/
theorem divideRow_lines {lines : List (Row α)} (hq : lines[row]? = some q) (c : α) :
    StoredTableau.divideRow row (q.coefficients.length + 1) c (lines.map Row.stored) =
      .ok ((lines.set row (q.divide c)).map Row.stored) := by
  have hget : (lines.map Row.stored)[row]? = some q.stored := by
    rw [List.getElem?_map, hq, Option.map_some]
  have hmap : q.stored.mapIdx (fun _ v => v / c) = (q.divide c).stored := by
    rw [Row.stored_divide]
    refine List.ext_getElem (by simp) fun j _ _ => ?_
    rw [List.getElem_mapIdx, List.getElem_map]
  rw [StoredTableau.divideRow, changeRow_eq (g := fun _ v => v / c) hget (Row.length_stored q),
    hmap, List.map_set]
  intro ys j v _ hys
  rw [readEntry_of_getElem?
    (List.getElem?_set_self (List.getElem?_eq_some_iff.1 hget).1) hys]
  rfl

/-- **A pivot** in one of the columns has no fault. -/
theorem pivot_stored (ht : t.Shaped) (hr : t.rows[row]? = some r) (hcol : col < t.width)
    (n m : ℕ) : (t.stored n m).pivot row col = .ok ((t.pivot row col).stored n m) := by
  have hrow : row < t.rows.length := (List.getElem?_eq_some_iff.1 hr).1
  have hlen : r.coefficients.length = t.width :=
    ht.length_coefficients r (List.mem_of_getElem? hr)
  have hdlen : (r.toRow.divide (r.entry col)).coefficients.length = t.width :=
    (Row.length_divide _ _).trans hlen
  have hbasic : write (t.stored n m).basicVars row col = .ok (t.pivot row col).basis := by
    rw [basis_pivot hr]
    exact write_of_lt (by simpa [stored, basis] using hrow)
  have hentry : readEntry (t.stored n m).data row col = .ok (r.entry col) :=
    readEntry_lines (getElem?_lines hr) (hlen.symm ▸ hcol)
  have hdivide := divideRow_lines (getElem?_lines hr) (r.entry col)
  rw [hlen] at hdivide
  -- the other rows are eliminated with the divided one in its place
  have hset : (t.lines.set row (r.toRow.divide (r.entry col)))[row]? =
      some (r.toRow.divide (r.entry col)) :=
    List.getElem?_set_self (length_lines t ▸ hrow.trans (Nat.lt_succ_self _))
  have hloop := eliminateRows_lines hset (fun q hq => by
    rw [hdlen]
    rcases List.mem_or_eq_of_mem_set hq with hmem | rfl
    · exact ht.length_of_mem_lines hmem
    · exact hdlen) (hdlen.symm ▸ hcol)
  rw [← lines_pivot hr, List.length_set, hdlen] at hloop
  rw [StoredTableau.pivot, width_stored ht, ok_bind, hbasic, ok_bind, hentry, ok_bind]
  have hrows : (t.stored n m).data.length = t.lines.length := List.length_map _
  rw [hrows, show (t.stored n m).data = t.lines.map Row.stored from rfl, hdivide, ok_bind, hloop,
    ok_bind]
  simp [stored, pure, Except.pure]

/-! ## Moves -/

variable {tolerance : α} {rule : PivotRule}

/-- **The entering column** is found without a fault. -/
theorem entering_stored (t : Tableau α) (n m : ℕ) (tolerance : α) (rule : PivotRule) :
    (t.stored n m).entering b tolerance rule = .ok (t.entering tolerance rule) := by
  have hget : (t.stored n m).data[t.rows.length]? = some t.objective.stored := by
    rw [stored, List.getElem?_map, getElem?_lines_length, Option.map_some]
  have hslice : slice t.objective.stored 0 t.objective.coefficients.length =
      .ok t.objective.coefficients := by
    rw [slice, if_pos ⟨Nat.zero_le _, by simp⟩, Row.stored, List.take_left' rfl, List.drop_zero]
  rw [StoredTableau.entering, objectiveRow_stored, ok_bind, read_of_getElem? hget, ok_bind,
    Row.length_stored, difference_of_le (Nat.le_add_left 1 _), ok_bind, Nat.add_sub_cancel, hslice,
    ok_bind]
  cases rule <;> rfl

/-- What is kept of a candidate: its row and its ratio. -/
def Candidate.kept (c : Candidate α) : ℕ × α := (c.row, c.ratio)

/-- **One turn of the ratio test** keeps the candidate that is expected. -/
theorem testRow_stored (ht : t.Shaped) (hr : t.rows[i]? = some r) (hcol : col < t.width)
    {best : Option (Candidate α)}
    (hbest : ∀ c, best = some c → ∃ s, t.rows[c.row]? = some s ∧ s.basic = c.basic) :
    (t.stored n m).testRow tolerance rule col t.width (best.map Candidate.kept) i =
      .ok ((keep tolerance rule best (candidate? tolerance col i r)).map Candidate.kept) := by
  have hlen : r.coefficients.length = t.width :=
    ht.length_coefficients r (List.mem_of_getElem? hr)
  have hentry : readEntry (t.stored n m).data i col = .ok (r.entry col) :=
    readEntry_lines (getElem?_lines hr) (hlen.symm ▸ hcol)
  have hbound : readEntry (t.stored n m).data i t.width = .ok r.rhs :=
    readEntry_lines_width (getElem?_lines hr) hlen
  have hbasic : read (t.stored n m).basicVars i = .ok r.basic :=
    read_of_getElem? (getElem?_basis hr)
  rw [StoredTableau.testRow, hentry, ok_bind, candidate?]
  by_cases hsmall : r.entry col ≤ tolerance
  · rw [if_pos hsmall, if_pos hsmall]
    rfl
  rw [if_neg hsmall, if_neg hsmall, hbound, ok_bind]
  cases best with
  | none => rfl
  | some c =>
    obtain ⟨s, hs, hsc⟩ := hbest c rfl
    have hother : read (t.stored n m).basicVars c.row = .ok c.basic :=
      hsc ▸ read_of_getElem? (getElem?_basis hs)
    simp only [Option.map_some, Candidate.kept, keep]
    by_cases hless : Scalar.greater r.rhs 0 / r.entry col < c.ratio - tolerance
    · rw [if_pos hless, if_pos (Candidate.beats_eq_true_iff.2 (.inl hless))]
      rfl
    rw [if_neg hless]
    by_cases hclose : rule = .lowestIndex ∧
        Scalar.abs (Scalar.greater r.rhs 0 / r.entry col - c.ratio) ≤ tolerance
    · rw [if_pos hclose, hbasic, ok_bind, hother, ok_bind]
      by_cases hlt : r.basic < c.basic
      · rw [if_pos hlt, if_pos (Candidate.beats_eq_true_iff.2 (.inr ⟨hclose.1, hclose.2, hlt⟩))]
        rfl
      · rw [if_neg hlt, if_neg]
        · rfl
        · exact fun h => (Candidate.beats_eq_true_iff.1 h).elim hless fun h => hlt h.2.2
    · rw [if_neg hclose, if_neg]
      · rfl
      · exact fun h => (Candidate.beats_eq_true_iff.1 h).elim hless fun h => hclose ⟨h.1, h.2.1⟩

/-- **The leaving row** is found without a fault. -/
theorem leaving_stored (ht : t.Shaped) (hcol : col < t.width) (n m : ℕ) (tolerance : α)
    (rule : PivotRule) :
    (t.stored n m).leaving b tolerance rule col = .ok (t.leaving tolerance rule col) := by
  have hloop := foldlM_range_eq (f := (t.stored n m).testRow tolerance rule col t.width)
    (n := t.rows.length)
    (s := fun i => (ratioTest tolerance rule col 0 none (t.rows.take i)).map Candidate.kept)
    fun i hi => by
      have hr := List.getElem?_eq_getElem hi
      have hlast : (t.rows.take i).length = i := by
        rw [List.length_take, Nat.min_eq_left hi.le]
      rw [testRow_stored ht hr hcol, List.take_succ_eq_append_getElem hi, ratioTest_concat, hlast,
        Nat.zero_add]
      intro c hc
      obtain ⟨s, hs, hsc⟩ := exists_of_ratioTest hc
      rw [List.getElem?_take] at hs
      split at hs
      · exact ⟨s, hs, hsc⟩
      · cases hs
  rw [List.take_length] at hloop
  have hstart : (ratioTest tolerance rule col 0 none (t.rows.take 0)).map Candidate.kept = none :=
    rfl
  rw [hstart] at hloop
  rw [StoredTableau.leaving, width_stored ht, ok_bind, difference_of_le (Nat.le_add_left 1 _),
    ok_bind, Nat.add_sub_cancel, objectiveRow_stored, ok_bind, hloop, ok_bind, leaving,
    Option.map_map]
  rfl

/-- **A move** is found without a fault. -/
theorem move_stored (ht : t.Shaped) (n m : ℕ) (tolerance : α) (rule : PivotRule) :
    (t.stored n m).move b tolerance rule = .ok (Simplex.move tolerance rule t) := by
  rw [StoredTableau.move, entering_stored, ok_bind, Simplex.move]
  cases hcol : t.entering tolerance rule with
  | none => rfl
  | some col =>
    have hlt : col < t.width := ht.length_objective ▸ entering_lt hcol
    dsimp only
    rw [leaving_stored ht hlt, ok_bind]
    cases t.leaving tolerance rule col <;> rfl

end Operations

end Tableau

end Milp
