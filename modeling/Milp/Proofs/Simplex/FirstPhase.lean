import Milp.Proofs.Simplex.Pricing
/-!
# The first phase

The first phase ends with the artificial variables at zero or shows that
they cannot all be zero. In the first case a row whose basic variable is
artificial has right-hand side zero, and an entry of minus one in the column
that mirrors it; so it is always driven out (`driveOut_spec`) and no row is
ever redundant. What the second phase starts from then `Represents` the
problem: it is canonical, and its solutions are the points of the problem
with their slacks (`feasibleTableau_spec`).
-/

namespace Milp

namespace Simplex

variable {s t : Tableau ℚ} {r : BasicRow ℚ} {row col : ℕ} {tolerance : ℚ}

/-! ## Driving artificial variables out -/

/-- No right-hand side is negative, and artificial variables are basic at
zero only. -/
def Settled (t : Tableau ℚ) : Prop :=
  t.Feasible ∧ ∀ r ∈ t.rows, t.structural ≤ r.basic → r.rhs = 0

/-- What driving out makes of a tableau: one that says the same, in which
the rows keep the basic variables that are not artificial. -/
structure Driven (s t : Tableau ℚ) : Prop extends Equivalent s t where
  /-- It is canonical. -/
  canonical : t.Canonical
  /-- Artificial columns mirror others. -/
  mirrored : t.Mirrored
  /-- It is settled if it was. -/
  settled : Settled s → Settled t
  /-- Basic variables that are not artificial stay so. -/
  stays : ∀ (i : ℕ) (r : BasicRow ℚ), s.rows[i]? = some r → r.basic < s.structural →
    ∃ q : BasicRow ℚ, t.rows[i]? = some q ∧ q.basic < s.structural

theorem Driven.refl (ht : t.Canonical) (hm : t.Mirrored) : Driven t t :=
  { Equivalent.refl t with
    canonical := ht
    mirrored := hm
    settled := id
    stays := fun _ r hr hb => ⟨r, hr, hb⟩ }

theorem Driven.trans {u : Tableau ℚ} (h : Driven s t) (h' : Driven t u) : Driven s u :=
  { h.toEquivalent.trans h'.toEquivalent with
    canonical := h'.canonical
    mirrored := h'.mirrored
    settled := fun hs => h'.settled (h.settled hs)
    stays := fun i r hr hb => by
      obtain ⟨q, hq, hqb⟩ := h.stays i r hr hb
      rw [← h.structural_eq] at hqb ⊢
      exact h'.stays i q hq hqb }

/-- A pivot in a row with right-hand side zero changes no other. -/
theorem Settled.pivot (hs : Settled t) (ht : t.Shaped) (hr : t.rows[row]? = some r)
    (h0 : r.rhs = 0) : Settled (t.pivot row col) := by
  have hdiv : (r.toRow.divide (r.entry col)).rhs = 0 := by
    show r.rhs / r.entry col = 0
    rw [h0, zero_div]
  -- every row of the new tableau has the right-hand side of an old one
  have hrhs : ∀ q ∈ t.rows, (q.toRow.eliminate col (r.toRow.divide (r.entry col))).rhs = q.rhs := by
    intro q hq
    rw [Row.rhs_eliminate _ (ht.length_pivotRow hr hq), hdiv, mul_zero, sub_zero]
  refine ⟨fun q hq => ?_, fun q hq hb => ?_⟩
  · rcases Tableau.mem_rows_pivot hr hq with rfl | ⟨u, hu, rfl⟩
    · exact hdiv.ge
    · exact (hs.1 u hu).trans_eq (hrhs u hu).symm
  · rcases Tableau.mem_rows_pivot hr hq with rfl | ⟨u, hu, rfl⟩
    · exact hdiv
    · rw [Tableau.structural_pivot] at hb
      exact (hrhs u hu).trans (hs.2 u hu hb)

/-- **A row whose basic variable is artificial has another column**: the one
that mirrors it, where its entry is minus one. -/
theorem exists_replacement? (ht : t.Canonical) (hm : t.Mirrored) (htol : tolerance < 1)
    (hr : t.rows[row]? = some r) (hb : t.structural ≤ r.basic) :
    ∃ col, replacement? tolerance t row = some col := by
  have hmem := List.mem_of_getElem? hr
  obtain ⟨j, hj, hmir⟩ := hm r.basic hb (ht.basic_lt r hmem)
  have hentry : t.entry row j = -1 := by
    rw [Tableau.entry, hr]
    show r.entry j = -1
    rw [hmir r hmem, ht.entry_self hmem]
  refine Option.isSome_iff_exists.1 (List.find?_isSome.2 ⟨j, List.mem_range.2 hj, ?_⟩)
  rw [decide_eq_true_eq, Scalar.abs_rat, hentry, abs_neg, abs_one]
  exact htol

/-- The column that is found has an entry above the tolerance. -/
theorem replacement?_eq_some (h : replacement? tolerance t row = some col)
    (hr : t.rows[row]? = some r) : col < t.structural ∧ tolerance < |r.entry col| := by
  have hcol := List.find?_some h
  rw [decide_eq_true_eq, Scalar.abs_rat, Tableau.entry, hr] at hcol
  exact ⟨List.mem_range.1 (List.mem_of_find?_eq_some h), hcol⟩

/-- Driving one row out. -/
theorem driven_pivot (ht : t.Canonical) (hm : t.Mirrored) (htol : 0 ≤ tolerance)
    (hr : t.rows[row]? = some r) (hb : t.structural ≤ r.basic)
    (hcol : replacement? tolerance t row = some col) : Driven t (t.pivot row col) := by
  obtain ⟨hlt, hentry⟩ := replacement?_eq_some hcol hr
  have hne : r.entry col ≠ 0 := abs_pos.1 (htol.trans_lt hentry)
  have hw : col < t.width := hlt.trans_le (Nat.le_add_right _ _)
  refine { Equivalent.pivot ht.toShaped hr hne with
    canonical := Tableau.canonical_pivot ht hr hw hne
    mirrored := hm.pivot ht.toShaped hr
    settled := fun hs => hs.pivot ht.toShaped hr (hs.2 r (List.mem_of_getElem? hr) hb)
    stays := fun i q hq hqb => ?_ }
  rw [Tableau.getElem?_rows_pivot hr]
  split
  · exact ⟨_, rfl, hlt⟩
  · rw [hq]
    exact ⟨_, rfl, hqb⟩

/-- One row is driven out, or was not artificial, and none is redundant. -/
theorem driveOutRow_spec (ht : t.Canonical) (hm : t.Mirrored) (h0 : 0 ≤ tolerance)
    (h1 : tolerance < 1) (hr : t.rows[row]? = some r) (redundant : List ℕ) :
    ∃ u q, driveOutRow tolerance (t, redundant) row = (u, redundant) ∧ Driven t u ∧
      u.rows[row]? = some q ∧ q.basic < t.structural := by
  unfold driveOutRow
  rw [getD_basis hr]
  split
  · rename_i hb
    exact ⟨t, r, rfl, .refl ht hm, hr, hb⟩
  · rename_i hb
    obtain ⟨col, hcol⟩ := exists_replacement? ht hm h1 hr (not_lt.1 hb)
    refine ⟨t.pivot row col, _, by rw [hcol], driven_pivot ht hm h0 hr (not_lt.1 hb) hcol,
      by rw [Tableau.getElem?_rows_pivot hr, if_pos rfl], ?_⟩
    exact (replacement?_eq_some hcol hr).1

/-- **Driving out finds no row redundant** and leaves no artificial variable
basic in the rows it went through. -/
theorem driveOut_spec (ht : t.Canonical) (hm : t.Mirrored) (h0 : 0 ≤ tolerance)
    (h1 : tolerance < 1) {rows : List ℕ} (hrows : ∀ i ∈ rows, i < t.rows.length) :
    ∃ u, driveOut tolerance t rows = (u, []) ∧ Driven t u ∧
      ∀ i ∈ rows, ∃ q, u.rows[i]? = some q ∧ q.basic < t.structural := by
  rw [driveOut_eq_foldl]
  induction rows generalizing t with
  | nil => exact ⟨t, rfl, .refl ht hm, by simp⟩
  | cons i rows ih =>
    have hi := List.getElem?_eq_getElem (hrows i List.mem_cons_self)
    obtain ⟨u, q, hu, hdriven, hq, hqb⟩ := driveOutRow_spec ht hm h0 h1 hi []
    obtain ⟨v, hv, hdriven', hall⟩ := ih hdriven.canonical hdriven.mirrored fun k hk =>
      hdriven.length_rows_eq ▸ hrows k (List.mem_cons_of_mem _ hk)
    refine ⟨v, by rw [List.foldl_cons, hu, hv], hdriven.trans hdriven', fun k hk => ?_⟩
    rw [← hdriven.structural_eq] at hqb ⊢
    rcases List.mem_cons.1 hk with rfl | hk
    · exact hdriven'.stays k q hq hqb
    · exact hall k hk

/-! ## Dropping the artificial columns -/

/-- The assignment with zeros from a column on. -/
def truncate (n : ℕ) (x : ℕ → ℚ) (j : ℕ) : ℚ := if j < n then x j else 0

theorem entry_take {q : Row ℚ} {n j : ℕ} (hj : j < n) : (q.take n).entry j = q.entry j := by
  show (q.coefficients.take n).getD j 0 = q.coefficients.getD j 0
  rw [List.getD_eq_getElem?_getD, List.getElem?_take_of_lt hj, ← List.getD_eq_getElem?_getD]

/-- A shorter row says what the row says of shorter assignments. -/
theorem gap_take (q : Row ℚ) (n : ℕ) (x : ℕ → ℚ) (h : ℚ) :
    (q.take n).gap x h = q.gap (truncate n x) h := by
  have hzero : dot (q.coefficients.drop n)
      (fun j => truncate n x ((q.coefficients.take n).length + j)) = 0 := by
    rw [dot_eq_sum]
    refine Finset.sum_eq_zero fun j hj => ?_
    have := Finset.mem_range.1 hj
    rw [List.length_drop] at this
    rw [truncate, if_neg (by rw [List.length_take]; omega), mul_zero]
  show dot (q.coefficients.take n) x - h * q.rhs = dot q.coefficients (truncate n x) - h * q.rhs
  conv_rhs => rw [← List.take_append_drop n q.coefficients, dot_append, hzero, add_zero]
  congr 1
  refine dot_congr fun j hj => ?_
  rw [List.length_take] at hj
  rw [truncate, if_pos (by omega)]

/-- Where no artificial variable is basic the form stays without their columns. -/
theorem canonical_dropArtificials (ht : t.Canonical)
    (hb : ∀ r ∈ t.rows, r.basic < t.structural) : (dropArtificials t).Canonical where
  toShaped := shaped_dropArtificials ht.toShaped hb
  entry_basic {i k q q'} hq hq' := by
    simp only [dropArtificials, List.getElem?_map, Option.map_eq_some_iff] at hq hq'
    obtain ⟨r, hr, rfl⟩ := hq
    obtain ⟨r', hr', rfl⟩ := hq'
    show (r.toRow.take t.structural).entry r'.basic = _
    rw [entry_take (hb r' (List.mem_of_getElem? hr')), ht.entry_basic hr hr']

theorem solves_dropArtificials_iff (x : ℕ → ℚ) (h : ℚ) :
    (dropArtificials t).Solves x h ↔ t.Solves (truncate t.structural x) h := by
  constructor
  · intro hx r hr
    rw [← gap_take]
    exact hx ⟨r.toRow.take t.structural, r.basic⟩ (List.mem_map_of_mem hr)
  · intro hx q hq
    obtain ⟨r, hr, rfl⟩ := mem_rows_dropArtificials hq
    rw [gap_take]
    exact hx r hr

/-! ## The end of the first phase -/

variable {p : Problem ℚ} {maxIterations limit : ℕ} {o : Optimized ℚ}

/-- The tableau describes the problem: it is canonical without artificial
variables, and its solutions are the points with their slacks. -/
structure Describes (p : Problem ℚ) (t : Tableau ℚ) : Prop extends t.Canonical where
  /-- A column for each variable and each slack. -/
  structural_eq : t.structural = p.numVariables + p.numRows
  /-- None for artificial variables. -/
  artificials_eq : t.artificials = 0
  /-- An equation for each row. -/
  length_rows_eq : t.rows.length = p.numRows
  /-- The solutions are the points with their slacks. -/
  solves_iff : ∀ x h, t.Solves x h ↔ Tableau.Slacked p x h

/-- The tableau represents the problem: it has the form in which the second
phase starts, and its solutions are the points with their slacks. -/
structure Represents (p : Problem ℚ) (t : Tableau ℚ) : Prop extends t.Canonical where
  /-- No right-hand side is negative. -/
  feasible : t.Feasible
  /-- A column for each variable and each slack. -/
  structural_eq : t.structural = p.numVariables + p.numRows
  /-- None for artificial variables. -/
  artificials_eq : t.artificials = 0
  /-- An equation for each row. -/
  length_rows_eq : t.rows.length = p.numRows
  /-- The solutions are the points with their slacks. -/
  solves_iff : ∀ x h, t.Solves x h ↔ Tableau.Slacked p x h

/-- Points and slacks are in the first columns. -/
theorem slacked_truncate_iff (x : ℕ → ℚ) (h : ℚ) :
    Tableau.Slacked p (truncate (p.numVariables + p.numRows) x) h ↔ Tableau.Slacked p x h := by
  refine forall₂_congr fun i r => imp_congr_right fun hr => ?_
  have hi : i < p.numRows := (List.getElem?_eq_some_iff.1 hr).1
  have hlen := p.length_coefficients r (List.mem_of_getElem? hr)
  have hval : r.value (truncate (p.numVariables + p.numRows) x) = r.value x := by
    refine dot_congr fun j hj => if_pos ?_
    rw [hlen] at hj
    exact hj.trans_le (Nat.le_add_right _ _)
  rw [hval, truncate, if_pos (by omega)]

theorem solves_ofProblem_truncate_iff (x : ℕ → ℚ) (h : ℚ) :
    (Tableau.ofProblem p).Solves (truncate (p.numVariables + p.numRows) x) h ↔
      Tableau.Slacked p x h :=
  (Tableau.solves_ofProblem_iff (fun _ hj => if_neg (not_lt.2 hj)) h).trans
    (slacked_truncate_iff x h)

/-- Without artificial variables the first tableau describes the problem. -/
theorem describes_ofProblem (h0 : (Tableau.ofProblem p).artificials = 0) :
    Describes p (Tableau.ofProblem p) := by
  have hcan := Tableau.canonical_ofProblem p
  refine { hcan with
    structural_eq := rfl
    artificials_eq := h0
    length_rows_eq := Tableau.length_rows_ofProblem p
    solves_iff := fun x h => Iff.trans ?_ (solves_ofProblem_truncate_iff x h) }
  -- all columns are in the part that truncation keeps
  refine forall₂_congr fun r hr => ?_
  have hlen : r.coefficients.length = p.numVariables + p.numRows := by
    rw [hcan.length_coefficients r hr, Tableau.width, h0]
    rfl
  have hval : r.value (truncate (p.numVariables + p.numRows) x) = r.value x :=
    dot_congr fun j hj => if_pos (hlen ▸ hj)
  rw [Row.gap, Row.gap, hval]

/-- And represents it. -/
theorem represents_ofProblem (h0 : (Tableau.ofProblem p).artificials = 0) :
    Represents p (Tableau.ofProblem p) :=
  { describes_ofProblem h0 with feasible := Tableau.feasible_ofProblem p }

/-- Nonnegative solutions make the artificial variables amount to something
nonnegative. -/
theorem gap_first_nonneg (ht : t.Canonical) {x : ℕ → ℚ} {h : ℚ} (hsol : t.Solves x h)
    (hx : ∀ j, 0 ≤ x j) : 0 ≤ (priceArtificials t).objective.gap x h := by
  rw [gap_priceArtificials ht hsol]
  exact Finset.sum_nonneg fun i _ => hx _

/-- **No pivot of the first phase finds that it grows without end.** -/
theorem move_first_ne_unbounded {rule : PivotRule} (ht : t.Canonical) (hs : Ready s)
    (heq : Equivalent (priceArtificials t) s) : move 0 rule s ≠ .unbounded col := by
  intro hm
  obtain ⟨d, hd, hsol, hneg⟩ := heq.exists_ray hs hm
  exact absurd (gap_first_nonneg ht hsol hd) (not_le.2 hneg)

/-- **The first phase does not grow without end.** -/
theorem ending_first (ht : t.Canonical) (hf : t.Feasible)
    (h : optimize ⟨maxIterations, 0⟩ limit 0 (priceArtificials t) = some o) :
    o.ending = .optimal := by
  cases ho : o.ending with
  | optimal => rfl
  | unbounded =>
    obtain ⟨d, hd, hsol, hneg⟩ := optimize_unbounded (ready_priceArtificials ht hf) h ho
    exact absurd (gap_first_nonneg ht hsol hd) (not_le.2 hneg)

/-- **Artificial variables that remain cannot all be zero.** -/
theorem not_solves_of_corner_neg (ht : t.Canonical) (hf : t.Feasible)
    (h : optimize ⟨maxIterations, 0⟩ limit 0 (priceArtificials t) = some o)
    (hcorner : 0 < -o.tableau.corner) {x : ℕ → ℚ} (hx : ∀ j, 0 ≤ x j)
    (hart : ∀ j, t.structural ≤ j → x j = 0) : ¬ t.Solves x 1 := by
  intro hsol
  have hle := optimize_optimal (ready_priceArtificials ht hf) h (ending_first ht hf h) hx hsol
  rw [gap_priceArtificials ht hsol, Finset.sum_eq_zero fun i _ => hart _ (Nat.le_add_right _ _)]
    at hle
  exact absurd hle (not_le.2 hcorner)

/-- **A tableau of the first phase whose corner is not negative is settled.** -/
theorem settled_of_ready (ht : t.Canonical) (hs : Ready s)
    (heq : Equivalent (priceArtificials t) s) (hcorner : -s.corner ≤ 0) : Settled s := by
  obtain ⟨hnonneg, hsol, hgap⟩ := heq.gap_vertex hs
  have hsum : ∑ i ∈ Finset.range t.artificials, s.vertex (t.structural + i) = 0 := by
    rw [← gap_priceArtificials ht hsol, hgap]
    exact le_antisymm hcorner (hgap ▸ gap_first_nonneg ht hsol hnonneg)
  refine ⟨hs.feasible, fun r hr hb => ?_⟩
  -- the right-hand side is the vertex in an artificial column
  have hlt := hs.basic_lt r hr
  have hst : s.structural = t.structural := heq.structural_eq
  rw [heq.width_eq] at hlt
  rw [hst] at hb
  obtain ⟨i, hi⟩ := Nat.exists_eq_add_of_le hb
  have hi' : i ∈ Finset.range t.artificials := by
    change r.basic < t.structural + t.artificials at hlt
    rw [Finset.mem_range]
    omega
  have hzero := (Finset.sum_eq_zero_iff_of_nonneg fun i _ => hnonneg _).1 hsum i hi'
  rw [← hi, Tableau.vertex, hs.toCanonical.atBasis_basic hr] at hzero
  exact hzero

/-- **Otherwise the last tableau is settled.** -/
theorem settled_of_corner_nonneg (ht : t.Canonical) (hf : t.Feasible)
    (h : optimize ⟨maxIterations, 0⟩ limit 0 (priceArtificials t) = some o)
    (hcorner : -o.tableau.corner ≤ 0) : Settled o.tableau := by
  obtain ⟨hend, heq⟩ := ready_optimize (ready_priceArtificials ht hf) h
  exact settled_of_ready ht hend heq hcorner

/-- Artificial columns mirror others all through the first phase. -/
theorem mirrored_optimize (ht : t.Canonical) (hf : t.Feasible) (hm : t.Mirrored)
    (h : optimize ⟨maxIterations, 0⟩ limit 0 (priceArtificials t) = some o) :
    o.tableau.Mirrored := by
  refine (optimize_induction (fun s => Ready s ∧ s.Mirrored) ?_ h
    ⟨ready_priceArtificials ht hf, hm⟩).1.2
  rintro s rule row col ⟨hs, hsm⟩ hmove
  obtain ⟨r, hp⟩ := hs.pivots hmove
  exact ⟨hp.ready hs, hsm.pivot hs.toShaped hp.row_eq⟩

/-- **Without artificial columns** a tableau of the first phase describes the
problem, where no artificial variable is basic. -/
theorem describes_dropArtificials {u : Tableau ℚ} (hu : u.Canonical)
    (heq : Equivalent (priceArtificials (Tableau.ofProblem p)) u)
    (hb : ∀ r ∈ u.rows, r.basic < u.structural) : Describes p (dropArtificials u) := by
  have hst : u.structural = p.numVariables + p.numRows := heq.structural_eq
  refine { canonical_dropArtificials hu hb with
    structural_eq := hst
    artificials_eq := rfl
    length_rows_eq := ?_
    solves_iff := fun x k => ?_ }
  · show (u.rows.map _).length = p.numRows
    rw [List.length_map, heq.length_rows_eq]
    exact Tableau.length_rows_ofProblem p
  · rw [solves_dropArtificials_iff, hst, heq.solves_iff]
    exact solves_ofProblem_truncate_iff x k

/-- It represents the problem if it was settled. -/
theorem represents_dropArtificials {u : Tableau ℚ}
    (heq : Equivalent (priceArtificials (Tableau.ofProblem p)) t) (hset : Settled t)
    (hdriven : Driven t u) (hb : ∀ r ∈ u.rows, r.basic < u.structural) :
    Represents p (dropArtificials u) := by
  refine { describes_dropArtificials hdriven.canonical (heq.trans hdriven.toEquivalent) hb with
    feasible := fun q hq => ?_ }
  obtain ⟨r, hr, rfl⟩ := mem_rows_dropArtificials hq
  exact (hdriven.settled hset).1 r hr

/-- Driving out all rows leaves no artificial variable basic. -/
theorem exists_driven (ht : t.Canonical) (hm : t.Mirrored) (h0 : 0 ≤ tolerance)
    (h1 : tolerance < 1) :
    ∃ u, driveOut tolerance t (List.range t.rows.length) = (u, []) ∧ Driven t u ∧
      ∀ r ∈ u.rows, r.basic < u.structural := by
  obtain ⟨u, hu, hdriven, hall⟩ := driveOut_spec ht hm h0 h1 fun i hi => List.mem_range.1 hi
  refine ⟨u, hu, hdriven, fun r hr => ?_⟩
  obtain ⟨i, hi⟩ := List.mem_iff_getElem?.1 hr
  have hlt := (List.getElem?_eq_some_iff.1 hi).1
  obtain ⟨q, hq, hqb⟩ := hall i (List.mem_range.2 (hdriven.length_rows_eq ▸ hlt))
  cases hi.symm.trans hq
  exact hdriven.structural_eq.symm ▸ hqb

/-- **The first phase answers whether the problem has a point**, and if so
its tableau represents the problem. -/
theorem feasibleTableau_spec {f : Feasible ℚ}
    (h : feasibleTableau ⟨maxIterations, 0⟩ limit (Tableau.ofProblem p) = some f) :
    (∃ t, f.tableau? = some t ∧ Represents p t) ∨
      (f.tableau? = none ∧ ∀ x, (∀ j, 0 ≤ x j) → ¬ Tableau.Slacked p x 1) := by
  have hcan := Tableau.canonical_ofProblem p
  have hfeas := Tableau.feasible_ofProblem p
  unfold feasibleTableau at h
  split at h
  · rename_i h0
    cases h
    exact .inl ⟨_, rfl, represents_ofProblem h0⟩
  obtain ⟨o, ho, rfl⟩ := Option.map_eq_some_iff.1 h
  rw [concludeFirst, ending_first hcan hfeas ho]
  by_cases hcorner : 0 < -o.tableau.corner
  · -- the artificial variables cannot all be zero
    refine .inr ⟨by rw [if_pos hcorner], fun x hx hsl => ?_⟩
    rw [← solves_ofProblem_truncate_iff] at hsl
    refine not_solves_of_corner_neg hcan hfeas ho hcorner (fun j => ?_) (fun j hj => ?_) hsl
    · unfold truncate
      split
      · exact hx j
      · exact le_rfl
    · exact if_neg (not_lt.2 hj)
  · -- they are zero, and are driven out
    obtain ⟨hready, heq⟩ := ready_optimize (ready_priceArtificials hcan hfeas) ho
    have hset := settled_of_corner_nonneg hcan hfeas ho (not_lt.1 hcorner)
    have hmir := mirrored_optimize hcan hfeas (Tableau.mirrored_ofProblem p) ho
    obtain ⟨u, hu, hdriven, hb⟩ := exists_driven hready.toCanonical hmir le_rfl zero_lt_one
    refine .inl ⟨dropArtificials u, ?_, represents_dropArtificials heq hset hdriven hb⟩
    rw [if_neg hcorner, hu]
    rfl

end Simplex

end Milp
