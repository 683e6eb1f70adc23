import Milp.Proofs.Simplex.Optimize
import Milp.Proofs.Tableau.Standard
import Milp.Simplex.TwoPhase
/-!
# What keeps the shape of a tableau

The rows of a tableau are equally long and its basic columns are columns, at
every point of the method and over every scalar: no law of arithmetic or of the
order is used, so it does not matter where comparisons with what is no number
lead. The rows that driving out leaves with an artificial variable are `Swept`
up, the last first, so that the places of those that are still to be dropped
stay right; when all are dropped no artificial variable is basic and their
columns can go. The values at a basis have a place for each variable and at most
one entry for each row.
-/

namespace Milp

namespace Simplex

variable {α : Type} [Scalar α] {t : Tableau α} {r : BasicRow α} {acc : Tableau α × List ℕ}
variable {tolerance : α} {rule : PivotRule} {n row col : ℕ}

/-! ## Pivoting -/

/-- Two tableaus have as many rows and as many columns of each kind. -/
structure SameSize (s t : Tableau α) : Prop where
  /-- As many equations. -/
  length_rows_eq : t.rows.length = s.rows.length
  /-- As many decision and slack variables. -/
  structural_eq : t.structural = s.structural
  /-- As many artificial variables. -/
  artificials_eq : t.artificials = s.artificials

namespace SameSize

variable {s u : Tableau α}

omit [Scalar α] in
theorem refl (t : Tableau α) : SameSize t t := ⟨rfl, rfl, rfl⟩

omit [Scalar α] in
theorem trans (h : SameSize s t) (h' : SameSize t u) : SameSize s u :=
  ⟨h'.length_rows_eq.trans h.length_rows_eq, h'.structural_eq.trans h.structural_eq,
    h'.artificials_eq.trans h.artificials_eq⟩

theorem pivot (t : Tableau α) (row col : ℕ) : SameSize t (t.pivot row col) :=
  ⟨Tableau.length_rows_pivot, Tableau.structural_pivot, Tableau.artificials_pivot⟩

end SameSize

/-- **A pivot of any rule keeps the shape.** -/
theorem shaped_of_move (ht : t.Shaped) (h : move tolerance rule t = .pivot row col) :
    (t.pivot row col).Shaped := by
  obtain ⟨hcol, hrow⟩ := move_eq_pivot h
  obtain ⟨r, hr⟩ := Tableau.exists_of_leaving hrow
  exact ht.pivot hr (ht.length_objective ▸ Tableau.entering_lt hcol)

/-! ## Pricing -/

theorem length_minus {z s : Row α} (h : z.coefficients.length = s.coefficients.length) :
    (z.minus s).coefficients.length = z.coefficients.length := by
  rw [Row.minus, List.length_zipWith, h, Nat.min_self]

omit [Scalar α] in
/-- What is subtracted from an objective row leaves it as long as it is. -/
theorem length_foldl_rows {rows : List (BasicRow α)} {f : Row α → BasicRow α → Row α}
    (hf : ∀ z, z.coefficients.length = n → ∀ r ∈ rows, (f z r).coefficients.length = n)
    {z : Row α} (hz : z.coefficients.length = n) :
    (rows.foldl f z).coefficients.length = n := by
  induction rows generalizing z with
  | nil => exact hz
  | cons r rows ih =>
    exact ih (fun w hw s hs => hf w hw s (List.mem_cons_of_mem _ hs))
      (hf z hz r List.mem_cons_self)

/-- **The objective of the first phase keeps the shape.** -/
theorem shaped_priceArtificials (ht : t.Shaped) : (priceArtificials t).Shaped where
  length_coefficients := ht.length_coefficients
  length_objective := by
    have hstart : (List.replicate t.structural (0 : α) ++ List.replicate t.artificials 1).length =
        t.width := by
      simp [Tableau.width]
    refine length_foldl_rows (fun z hz r hr => ?_) hstart
    split
    · rw [length_minus (hz.trans (ht.length_coefficients r hr).symm), hz]
    · exact hz
  basic_lt := ht.basic_lt

/-- **The objective of a problem keeps the shape.** -/
theorem shaped_priceObjective (ht : t.Shaped) {c : List α} (hc : c.length ≤ t.width) :
    (priceObjective t c).Shaped where
  length_coefficients := ht.length_coefficients
  length_objective := by
    have hstart : (c.map (- ·) ++ List.replicate (t.width - c.length) 0).length = t.width := by
      rw [List.length_append, List.length_map, List.length_replicate]
      omega
    refine length_foldl_rows (fun z hz r hr => ?_) hstart
    rw [Row.length_eliminate _ (hz.trans (ht.length_coefficients r hr).symm), hz]
  basic_lt := ht.basic_lt

/-! ## Driving out -/

/-- What is done with one row and those found redundant so far. -/
def driveOutRow (tolerance : α) (acc : Tableau α × List ℕ) (i : ℕ) : Tableau α × List ℕ :=
  if (acc.1.basis[i]?.getD 0) < acc.1.structural then acc
  else match replacement? tolerance acc.1 i with
    | some col => (acc.1.pivot i col, acc.2)
    | none => (acc.1, i :: acc.2)

theorem driveOut_eq_foldl (tolerance : α) (t : Tableau α) (rows : List ℕ) :
    driveOut tolerance t rows = rows.foldl (driveOutRow tolerance) (t, []) := rfl

/-- Rows are driven out one after another. -/
theorem driveOut_range_succ (tolerance : α) (s : Tableau α) (n : ℕ) :
    driveOut tolerance s (List.range (n + 1)) =
      driveOutRow tolerance (driveOut tolerance s (List.range n)) n := by
  rw [driveOut_eq_foldl, List.range_succ, List.foldl_concat, ← driveOut_eq_foldl]

omit [Scalar α] in
theorem getD_basis (hr : t.rows[row]? = some r) : t.basis[row]?.getD 0 = r.basic := by
  rw [Tableau.basis, List.getElem?_map, hr]
  rfl

/-- The column that is found is none of an artificial variable. -/
theorem replacement?_lt (h : replacement? tolerance t row = some col) : col < t.structural :=
  List.mem_range.1 (List.mem_of_find?_eq_some h)

/-- **Driving out a row** does nothing, pivots in it, or finds it redundant. -/
theorem driveOutRow_cases (tolerance : α) (hr : acc.1.rows[n]? = some r) :
    (r.basic < acc.1.structural ∧ driveOutRow tolerance acc n = acc) ∨
    (∃ col < acc.1.structural, replacement? tolerance acc.1 n = some col ∧
      driveOutRow tolerance acc n = (acc.1.pivot n col, acc.2)) ∨
    driveOutRow tolerance acc n = (acc.1, n :: acc.2) := by
  unfold driveOutRow
  rw [getD_basis hr]
  split
  · exact .inl ⟨by assumption, rfl⟩
  · cases hcol : replacement? tolerance acc.1 n with
    | some col => exact .inr (.inl ⟨col, replacement?_lt hcol, rfl, rfl⟩)
    | none => exact .inr (.inr rfl)

/-- **Driving out keeps the shape** and the size. -/
theorem shaped_driveOutRow (tolerance : α) (ht : acc.1.Shaped) (hr : acc.1.rows[n]? = some r) :
    (driveOutRow tolerance acc n).1.Shaped ∧ SameSize acc.1 (driveOutRow tolerance acc n).1 := by
  obtain ⟨-, heq⟩ | ⟨col, hcol, -, heq⟩ | heq := driveOutRow_cases tolerance hr
  · rw [heq]
    exact ⟨ht, .refl _⟩
  · rw [heq]
    exact ⟨ht.pivot hr (hcol.trans_le (Nat.le_add_right _ _)), .pivot _ _ _⟩
  · rw [heq]
    exact ⟨ht, .refl _⟩

/-- What sweeping the first `n` rows leaves: artificial variables are basic only
in those of them that are listed. -/
structure Swept (n : ℕ) (acc : Tableau α × List ℕ) : Prop where
  /-- The listed rows go from the last to the first. -/
  descending : acc.2.Pairwise (· > ·)
  /-- They are among the first rows. -/
  lt : ∀ i ∈ acc.2, i < n
  /-- In the others no artificial variable is basic. -/
  basic_lt : ∀ i r, i < n → i ∉ acc.2 → acc.1.rows[i]? = some r → r.basic < acc.1.structural

omit [Scalar α] in
theorem Swept.zero (t : Tableau α) : Swept 0 (t, []) := ⟨.nil, nofun, nofun⟩

/-- **Driving out the next row.** -/
theorem Swept.driveOutRow (h : Swept n acc) (hr : acc.1.rows[n]? = some r) :
    Swept (n + 1) (driveOutRow tolerance acc n) := by
  obtain ⟨hdesc, hlt, hbasic⟩ := h
  have hlt' : ∀ i ∈ acc.2, i < n + 1 := fun i hi => (hlt i hi).trans n.lt_succ_self
  obtain ⟨hb, heq⟩ | ⟨col, hcol, -, heq⟩ | heq := driveOutRow_cases tolerance hr
  · rw [heq]
    refine ⟨hdesc, hlt', fun i q hi hnot hq => ?_⟩
    rcases Nat.lt_succ_iff_lt_or_eq.1 hi with hi | rfl
    · exact hbasic i q hi hnot hq
    · cases hr.symm.trans hq
      exact hb
  · rw [heq]
    refine ⟨hdesc, hlt', fun i q hi hnot hq => ?_⟩
    -- the row has a new basic column, all others keep theirs
    rw [Tableau.getElem?_rows_pivot hr] at hq
    rw [Tableau.structural_pivot]
    split at hq
    · cases hq
      exact hcol
    · obtain ⟨v, hv, rfl⟩ := Option.map_eq_some_iff.1 hq
      exact hbasic i v (by omega) hnot hv
  · rw [heq]
    refine ⟨List.pairwise_cons.2 ⟨hlt, hdesc⟩,
      List.forall_mem_cons.2 ⟨n.lt_succ_self, hlt'⟩, fun i q hi hnot hq => ?_⟩
    have hne : i ≠ n := fun heq => hnot (heq ▸ List.mem_cons_self)
    exact hbasic i q (by omega) (fun hmem => hnot (List.mem_cons_of_mem _ hmem)) hq

omit [Scalar α] in
/-- **Dropping the first of the listed rows** leaves the places of the others
right. -/
theorem Swept.eraseIdx {i : ℕ} {places : List ℕ} (h : Swept t.rows.length (t, i :: places)) :
    Swept (t.rows.eraseIdx i).length ({ t with rows := t.rows.eraseIdx i }, places) := by
  obtain ⟨hdesc, hlt, hbasic⟩ := h
  obtain ⟨hi, hdesc⟩ := List.pairwise_cons.1 hdesc
  have hlast : i < t.rows.length := hlt i List.mem_cons_self
  refine ⟨hdesc, fun k hk => ?_, fun k q hk hnot hq => ?_⟩
  · have hki : k < i := hi k hk
    rw [List.length_eraseIdx_of_lt hlast]
    omega
  · rw [List.length_eraseIdx_of_lt hlast] at hk
    dsimp only at hq
    rw [List.getElem?_eraseIdx] at hq
    split at hq
    · rename_i hki
      exact hbasic k q (by omega) (List.not_mem_cons_of_ne_of_not_mem hki.ne hnot) hq
    · rename_i hki
      refine hbasic (k + 1) q (by omega) (List.not_mem_cons_of_ne_of_not_mem (by omega) ?_) hq
      exact fun hmem => hki ((Nat.lt_succ_self k).trans (hi _ hmem))

omit [Scalar α] in
theorem Swept.basic_lt_of_nil (h : Swept t.rows.length (t, [])) :
    ∀ r ∈ t.rows, r.basic < t.structural := by
  intro r hr
  obtain ⟨i, hi⟩ := List.mem_iff_getElem?.1 hr
  exact h.basic_lt i r (List.getElem?_eq_some_iff.1 hi).1 List.not_mem_nil hi

omit [Scalar α] in
/-- **When all listed rows are dropped** no artificial variable is basic. -/
theorem Swept.basic_lt_dropRows {places : List ℕ} (h : Swept t.rows.length (t, places)) :
    ∀ r ∈ (dropRows t places).rows, r.basic < t.structural := by
  induction places generalizing t with
  | nil => exact h.basic_lt_of_nil
  | cons i places ih => exact ih (t := { t with rows := t.rows.eraseIdx i }) h.eraseIdx

/-- **Driving out the first `n` rows sweeps them.** -/
theorem swept_driveOut (tolerance : α) {s : Tableau α} (hs : s.Shaped) (hn : n ≤ s.rows.length) :
    Swept n (driveOut tolerance s (List.range n)) ∧
      (driveOut tolerance s (List.range n)).1.Shaped ∧
      SameSize s (driveOut tolerance s (List.range n)).1 := by
  induction n with
  | zero => exact ⟨.zero s, hs, .refl s⟩
  | succ n ih =>
    obtain ⟨hswept, hshaped, hsame⟩ := ih (Nat.le_of_succ_le hn)
    have hr := List.getElem?_eq_getElem (hsame.length_rows_eq.symm ▸ hn)
    rw [driveOut_range_succ]
    obtain ⟨hshaped', hsame'⟩ := shaped_driveOutRow tolerance hshaped hr
    exact ⟨hswept.driveOutRow hr, hshaped', hsame.trans hsame'⟩

/-! ## Dropping rows and columns -/

theorem foldl_eraseIdx_sublist {β : Type} (places : List ℕ) (xs : List β) :
    (places.foldl List.eraseIdx xs).Sublist xs := by
  induction places generalizing xs with
  | nil => exact .refl xs
  | cons k places ih => exact (ih _).trans (List.eraseIdx_sublist xs k)

omit [Scalar α] in
/-- **Some of the rows** of a tableau have its shape. -/
theorem shaped_of_sublist (ht : t.Shaped) {rows : List (BasicRow α)} (h : rows.Sublist t.rows) :
    Tableau.Shaped { t with rows } :=
  ⟨fun q hq => ht.length_coefficients q (h.subset hq), ht.length_objective,
    fun q hq => ht.basic_lt q (h.subset hq)⟩

omit [Scalar α] in
theorem mem_rows_dropArtificials {q : BasicRow α} (hq : q ∈ (dropArtificials t).rows) :
    ∃ r ∈ t.rows, q = ⟨r.toRow.take t.structural, r.basic⟩ := by
  obtain ⟨r, hr, rfl⟩ := List.mem_map.1 hq
  exact ⟨r, hr, rfl⟩

omit [Scalar α] in
/-- **Where no artificial variable is basic their columns can go.** -/
theorem shaped_dropArtificials (ht : t.Shaped) (hb : ∀ r ∈ t.rows, r.basic < t.structural) :
    (dropArtificials t).Shaped where
  length_coefficients q hq := by
    obtain ⟨r, hr, rfl⟩ := mem_rows_dropArtificials hq
    show (r.coefficients.take t.structural).length = t.structural
    rw [List.length_take, ht.length_coefficients r hr, Tableau.width]
    omega
  length_objective := by
    show (t.objective.coefficients.take t.structural).length = t.structural
    rw [List.length_take, ht.length_objective, Tableau.width]
    omega
  basic_lt q hq := by
    obtain ⟨r, hr, rfl⟩ := mem_rows_dropArtificials hq
    exact hb r hr

/-- What the first phase leaves, if anything. -/
theorem tableau?_concludeFirst {o : Optimized α}
    (h : (concludeFirst tolerance o).tableau? = some t) :
    ∃ acc, acc = driveOut tolerance o.tableau (List.range o.tableau.rows.length) ∧
      t = dropArtificials (dropRows acc.1 acc.2) := by
  unfold concludeFirst at h
  split at h
  · cases h
  dsimp only at h
  split at h
  · cases h
  exact ⟨_, rfl, (Option.some.inj h).symm⟩

/-! ## The values at a basis -/

/-- The values with the right-hand side of one row written in. -/
def writeValue (tolerance : α) (n : ℕ) (values : List α) (r : BasicRow α) : List α :=
  if r.basic < n then values.set r.basic (snap tolerance r.rhs) else values

theorem basicValues_eq_foldl (tolerance : α) (t : Tableau α) (n : ℕ) :
    basicValues tolerance t n = t.rows.foldl (writeValue tolerance n) (List.replicate n 0) := rfl

theorem length_writeValue (values : List α) (r : BasicRow α) :
    (writeValue tolerance n values r).length = values.length := by
  unfold writeValue
  split
  · exact List.length_set
  · rfl

theorem length_foldl_writeValue (rows : List (BasicRow α)) (values : List α) :
    (rows.foldl (writeValue tolerance n) values).length = values.length := by
  induction rows generalizing values with
  | nil => rfl
  | cons r rows ih => rw [List.foldl_cons, ih, length_writeValue]

/-- There is a value for each variable. -/
theorem length_basicValues (tolerance : α) (t : Tableau α) (n : ℕ) :
    (basicValues tolerance t n).length = n := by
  rw [basicValues_eq_foldl, length_foldl_writeValue, List.length_replicate]

/-- A row makes at most one value other than it was. -/
theorem countP_writeValue_le (tolerance : α) (n : ℕ) (q : α → Bool) (values : List α)
    (r : BasicRow α) :
    (writeValue tolerance n values r).countP q ≤ values.countP q + 1 := by
  unfold writeValue
  split
  · rcases Nat.lt_or_ge r.basic values.length with hlt | hge
    · rw [List.countP_set hlt]
      split <;> split <;> omega
    · rw [List.set_eq_of_length_le hge]
      exact Nat.le_succ _
  · exact Nat.le_succ _

/-- **At most one value for each row is other than zero.** -/
theorem countP_basicValues_le (tolerance : α) (t : Tableau α) (n : ℕ) :
    (basicValues tolerance t n).countP (fun v => !Scalar.same v 0) ≤ t.rows.length := by
  have hfold : ∀ (rows : List (BasicRow α)) (values : List α),
      (rows.foldl (writeValue tolerance n) values).countP (fun v => !Scalar.same v 0) ≤
        values.countP (fun v => !Scalar.same v 0) + rows.length := by
    intro rows
    induction rows with
    | nil => exact fun values => le_rfl
    | cons r rows ih =>
      intro values
      have hstep := countP_writeValue_le tolerance n (fun v => !Scalar.same v 0) values r
      have hrest := ih (writeValue tolerance n values r)
      rw [List.foldl_cons, List.length_cons]
      omega
  have hzero : (List.replicate n (0 : α)).countP (fun v => !Scalar.same v 0) = 0 :=
    List.countP_eq_zero.2 fun v hv => by simp [List.eq_of_mem_replicate hv]
  have hle := hfold t.rows (List.replicate n 0)
  rw [hzero, Nat.zero_add] at hle
  exact hle

/-- The values of an answer are those at the basis, however pivoting ended. -/
theorem values_extract (tolerance : α) (n : ℕ) (o : Optimized α) :
    (extract tolerance n o).values = basicValues tolerance o.tableau n := by
  unfold extract
  cases o.ending <;> rfl

/-! ## The phases of a run -/

/-- **A run ends after the first phase**, where that leaves no tableau, or with
the end of the second. -/
theorem solve_cases {cfg : Config α} {limit : ℕ} {p : Problem α} {run : Run α}
    (h : solve cfg limit p = some run) :
    ∃ f, feasibleTableau cfg limit (Tableau.ofProblem p) = some f ∧
      ((f.tableau? = none ∧ run.solution = Solution.infeasible p.numVariables ∧
          run.events = .solvingRelaxation p.numVariables p.numRows
            (Tableau.ofProblem p).artificials :: f.events) ∨
        ∃ t o, f.tableau? = some t ∧
          optimize cfg limit 0 (priceObjective t p.objective) = some o ∧
          run.solution = extract cfg.tolerance p.numVariables o ∧
          run.events = .solvingRelaxation p.numVariables p.numRows
            (Tableau.ofProblem p).artificials :: f.events ++ o.events) := by
  obtain ⟨f, hf, h⟩ := Option.bind_eq_some_iff.1 h
  refine ⟨f, hf, ?_⟩
  cases ht : f.tableau? with
  | none =>
    rw [ht] at h
    cases h
    exact .inl ⟨rfl, rfl, rfl⟩
  | some t =>
    rw [ht] at h
    obtain ⟨o, ho, h⟩ := Option.bind_eq_some_iff.1 h
    cases h
    exact .inr ⟨t, o, rfl, ho, rfl, rfl⟩

end Simplex

end Milp
