import Milp.Proofs.Tableau.Rules
import Milp.Simplex.Optimize
/-!
# Where pivoting leads

Whatever every pivot keeps holds of the last tableau (`optimize_induction`),
where the last move is no pivot. With tolerance zero every pivot keeps a
tableau `Ready`, that is canonical, priced and without negative right-hand
sides, and `Equivalent` to the first one: the same assignments solve it and
the objective row says the same of them. So at the end the vertex is optimal
for the first tableau (`optimize_optimal`), or the ray of some column shows
that there is no optimum (`optimize_unbounded`).
-/

namespace Milp

/-- Whether an event reports a pivot. -/
def Event.isPivot {α : Type} : Event α → Bool
  | pivot _ _ => true
  | _ => false

namespace Simplex

/-! ## Moves and runs -/

section Runs

variable {α : Type} [Scalar α] {cfg : Config α} {tolerance : α} {rule : PivotRule}
variable {s t : Tableau α} {row col : ℕ}

theorem move_eq_stop (h : move tolerance rule t = .stop) : t.entering tolerance rule = none := by
  unfold move at h
  split at h
  · assumption
  · split at h <;> cases h

theorem move_eq_unbounded (h : move tolerance rule t = .unbounded col) :
    t.entering tolerance rule = some col ∧ t.leaving tolerance rule col = none := by
  unfold move at h
  split at h
  · cases h
  · rename_i c hc
    split at h
    · cases h
      exact ⟨hc, by assumption⟩
    · cases h

theorem move_eq_pivot (h : move tolerance rule t = .pivot row col) :
    t.entering tolerance rule = some col ∧ t.leaving tolerance rule col = some row := by
  unfold move at h
  split at h
  · cases h
  · rename_i c hc
    split at h
    · cases h
    · cases h
      exact ⟨hc, by assumption⟩

/-- **One step of pivoting**: it ends where the move is no pivot, or goes on
from the tableau after the pivot. -/
theorem optimize_cases {limit k : ℕ} {o : Optimized α} (h : optimize cfg limit k t = some o) :
    (o.tableau = t ∧ o.events = moveEvents cfg k (move cfg.tolerance (ruleAfter cfg k) t) ∧
      ((o.ending = .optimal ∧ move cfg.tolerance (ruleAfter cfg k) t = .stop) ∨
        (o.ending = .unbounded ∧
          ∃ col, move cfg.tolerance (ruleAfter cfg k) t = .unbounded col))) ∨
    ∃ row col limit' o', limit = limit' + 1 ∧
      move cfg.tolerance (ruleAfter cfg k) t = .pivot row col ∧
      optimize cfg limit' (k + 1) (t.pivot row col) = some o' ∧ o.tableau = o'.tableau ∧
      o.ending = o'.ending ∧ o.events = moveEvents cfg k (.pivot row col) ++ o'.events := by
  unfold optimize at h
  cases hm : move cfg.tolerance (ruleAfter cfg k) t with
  | stop =>
    simp only [hm, Option.some.injEq] at h
    subst h
    exact .inl ⟨rfl, rfl, .inl ⟨rfl, rfl⟩⟩
  | unbounded c =>
    simp only [hm, Option.some.injEq] at h
    subst h
    exact .inl ⟨rfl, rfl, .inr ⟨rfl, c, rfl⟩⟩
  | pivot row col =>
    cases limit with
    | zero => simp [hm] at h
    | succ limit =>
      simp only [hm] at h
      obtain ⟨o', ho', rfl⟩ := Option.map_eq_some_iff.1 h
      exact .inr ⟨row, col, limit, o', rfl, rfl, ho', rfl, rfl, rfl⟩

/-- Where no column can enter, pivoting is over. -/
theorem optimize_of_stop {limit k : ℕ} (h : move cfg.tolerance (ruleAfter cfg k) t = .stop) :
    optimize cfg limit k t = some ⟨.optimal, t, moveEvents cfg k .stop⟩ := by
  unfold optimize
  simp only [h]

/-- Where there is a pivot, pivoting goes on after it. -/
theorem optimize_of_pivot {limit k : ℕ} {o : Optimized α}
    (h : move cfg.tolerance (ruleAfter cfg k) t = .pivot row col)
    (ho : optimize cfg limit (k + 1) (t.pivot row col) = some o) :
    optimize cfg (limit + 1) k t =
      some ⟨o.ending, o.tableau, moveEvents cfg k (.pivot row col) ++ o.events⟩ := by
  unfold optimize
  simp only [h, ho, Option.map_some]

/-- The number of pivots of a run, read off its events. -/
def Optimized.pivots (o : Optimized α) : ℕ := o.events.countP Event.isPivot

omit [Scalar α] in
/-- The events of a move report a pivot if it is one. -/
theorem countP_moveEvents (k : ℕ) (m : Move) :
    (moveEvents cfg k m).countP Event.isPivot = match m with
      | .pivot _ _ => 1
      | _ => 0 := by
  unfold moveEvents
  cases m <;> split <;> rfl

omit [Scalar α] in
/-- A run without a pivot has none. -/
theorem pivots_eq_zero {k : ℕ} {m : Move} {o : Optimized α} (hev : o.events = moveEvents cfg k m)
    (hm : ∀ row col, m ≠ .pivot row col) : o.pivots = 0 := by
  rw [Optimized.pivots, hev, countP_moveEvents]
  cases m with
  | stop => rfl
  | unbounded col => rfl
  | pivot row col => exact absurd rfl (hm row col)

/-- **What every pivot keeps, pivoting keeps**, where the pivots are counted. The
last move is by the rule after all of them, and is no pivot. -/
theorem optimize_counted (Inv : ℕ → Tableau α → Prop)
    (hstep : ∀ k s row col, Inv k s → move cfg.tolerance (ruleAfter cfg k) s = .pivot row col →
      Inv (k + 1) (s.pivot row col)) {limit k : ℕ} {o : Optimized α}
    (h : optimize cfg limit k t = some o) (ht : Inv k t) :
    Inv (k + o.pivots) o.tableau ∧
      ((o.ending = .optimal ∧
          move cfg.tolerance (ruleAfter cfg (k + o.pivots)) o.tableau = .stop) ∨
        (o.ending = .unbounded ∧ ∃ col,
          move cfg.tolerance (ruleAfter cfg (k + o.pivots)) o.tableau = .unbounded col)) := by
  induction limit using Nat.strong_induction_on generalizing k t o with
  | h limit ih =>
    rcases optimize_cases h with ⟨htab, hev, hlast⟩ | ⟨row, col, limit, o', rfl, hm, ho', htab,
      hending, hev⟩
    · have hnone : o.pivots = 0 :=
        pivots_eq_zero hev (by rcases hlast with ⟨-, hm⟩ | ⟨-, c, hm⟩ <;> simp [hm])
      rw [hnone, htab]
      exact ⟨ht, hlast⟩
    · have hone : o.pivots = 1 + o'.pivots := by
        rw [Optimized.pivots, hev, List.countP_append, countP_moveEvents]
        rfl
      rw [hone, ← Nat.add_assoc, htab, hending]
      exact ih limit (Nat.lt_succ_self limit) ho' (hstep k t row col ht hm)

/-- **What every pivot keeps, pivoting keeps**, and its last move is no
pivot. -/
theorem optimize_induction (Inv : Tableau α → Prop)
    (hstep : ∀ s rule row col, Inv s → move cfg.tolerance rule s = .pivot row col →
      Inv (s.pivot row col)) {limit k : ℕ} {o : Optimized α}
    (h : optimize cfg limit k t = some o) (ht : Inv t) :
    Inv o.tableau ∧ ∃ rule, (o.ending = .optimal ∧ move cfg.tolerance rule o.tableau = .stop) ∨
      (o.ending = .unbounded ∧ ∃ col, move cfg.tolerance rule o.tableau = .unbounded col) := by
  obtain ⟨hinv, hlast⟩ := optimize_counted (fun _ s => Inv s)
    (fun _ s row col hs hm => hstep s _ row col hs hm) h ht
  exact ⟨hinv, _, hlast⟩

/-- The last move is no pivot. -/
theorem last_move {limit k : ℕ} {o : Optimized α} (h : optimize cfg limit k t = some o) :
    ∃ rule, (o.ending = .optimal ∧ move cfg.tolerance rule o.tableau = .stop) ∨
      (o.ending = .unbounded ∧ ∃ col, move cfg.tolerance rule o.tableau = .unbounded col) :=
  (optimize_induction (fun _ => True) (fun _ _ _ _ _ _ => trivial) h trivial).2

/-- **Settings by which the same moves are made lead the same way.** -/
theorem optimize_congr {cfg' : Config α} (hiter : cfg.maxIterations = cfg'.maxIterations)
    (Inv : Tableau α → Prop)
    (hmove : ∀ s rule, Inv s → move cfg.tolerance rule s = move cfg'.tolerance rule s)
    (hstep : ∀ s rule row col, Inv s → move cfg'.tolerance rule s = .pivot row col →
      Inv (s.pivot row col)) {limit k : ℕ} (ht : Inv t) :
    optimize cfg limit k t = optimize cfg' limit k t := by
  have hrule : ∀ k, ruleAfter cfg k = ruleAfter cfg' k := by
    intro k
    rw [ruleAfter, ruleAfter, hiter]
  have hevents : ∀ k m, moveEvents cfg k m = moveEvents cfg' k m := by
    intro k m
    simp only [moveEvents, hiter]
  induction limit generalizing k t with
  | zero =>
    unfold optimize
    simp only [hmove t _ ht, hrule, hevents]
    cases move cfg'.tolerance (ruleAfter cfg' k) t <;> rfl
  | succ limit ih =>
    unfold optimize
    simp only [hmove t _ ht, hrule, hevents]
    cases hm : move cfg'.tolerance (ruleAfter cfg' k) t with
    | stop => rfl
    | unbounded col => rfl
    | pivot row col =>
      dsimp only
      rw [ih (hstep t _ row col ht hm)]

/-- The tableau after some pivots, where so many are made. -/
def after (cfg : Config α) (t : Tableau α) : ℕ → Option (Tableau α)
  | 0 => some t
  | k + 1 => (after cfg t k).bind fun s =>
    match move cfg.tolerance (ruleAfter cfg k) s with
    | .pivot row col => some (s.pivot row col)
    | _ => none

/-- One more pivot is made by the rule for that pivot. -/
theorem after_succ_eq_some {k : ℕ} (h : after cfg t (k + 1) = some s) :
    ∃ u row col, after cfg t k = some u ∧
      move cfg.tolerance (ruleAfter cfg k) u = .pivot row col ∧ s = u.pivot row col := by
  obtain ⟨u, hu, h⟩ := Option.bind_eq_some_iff.1 h
  split at h
  · rename_i row col hm
    exact ⟨u, row, col, hu, hm, (Option.some.inj h).symm⟩
  · cases h

/-- What every pivot keeps holds after any number of them. -/
theorem after_induction (Inv : Tableau α → Prop)
    (hstep : ∀ s rule row col, Inv s → move cfg.tolerance rule s = .pivot row col →
      Inv (s.pivot row col)) (ht : Inv t) {k : ℕ} (h : after cfg t k = some s) : Inv s := by
  induction k generalizing s with
  | zero =>
    cases h
    exact ht
  | succ k ih =>
    obtain ⟨u, row, col, hu, hm, rfl⟩ := after_succ_eq_some h
    exact hstep u _ row col (ih hu) hm

/-- Before a pivot that is made, all others are. -/
theorem after_of_le {k l : ℕ} (hkl : k ≤ l) (h : after cfg t l = some s) :
    ∃ u, after cfg t k = some u := by
  induction l generalizing s with
  | zero => exact ⟨s, Nat.le_zero.1 hkl ▸ h⟩
  | succ l ih =>
    rcases Nat.lt_or_ge l k with hlt | hle
    · exact ⟨s, by rwa [show k = l + 1 by omega]⟩
    · obtain ⟨u, -, -, hu, -⟩ := after_succ_eq_some h
      exact ih hle hu

/-- **The end of a run** is the tableau after all its pivots. -/
theorem after_pivots {limit k : ℕ} {o : Optimized α} (hk : after cfg t k = some s)
    (h : optimize cfg limit k s = some o) : after cfg t (k + o.pivots) = some o.tableau :=
  (optimize_counted (fun k s => after cfg t k = some s)
    (fun _ _ _ _ hs hm => by simp [after, hs, hm]) h hk).1

/-- **The last move** is made by the rule after all the pivots. -/
theorem last_move_after_pivots {limit k : ℕ} {o : Optimized α}
    (h : optimize cfg limit k t = some o) :
    (o.ending = .optimal ∧
      move cfg.tolerance (ruleAfter cfg (k + o.pivots)) o.tableau = .stop) ∨
    (o.ending = .unbounded ∧
      ∃ col, move cfg.tolerance (ruleAfter cfg (k + o.pivots)) o.tableau = .unbounded col) :=
  (optimize_counted (fun _ _ => True) (fun _ _ _ _ _ _ => trivial) h trivial).2

/-- **Pivoting ends** within a limit after which no pivot is made. -/
theorem optimize_isSome {limit k : ℕ} (hk : after cfg t k = some s)
    (hnone : after cfg t (k + limit + 1) = none) : ∃ o, optimize cfg limit k s = some o := by
  induction limit generalizing k s with
  | zero =>
    unfold optimize
    cases hm : move cfg.tolerance (ruleAfter cfg k) s with
    | stop => exact ⟨_, rfl⟩
    | unbounded c => exact ⟨_, rfl⟩
    | pivot row col => simp [after, hk, hm] at hnone
  | succ limit ih =>
    unfold optimize
    cases hm : move cfg.tolerance (ruleAfter cfg k) s with
    | stop => exact ⟨_, rfl⟩
    | unbounded c => exact ⟨_, rfl⟩
    | pivot row col =>
      have hk' : after cfg t (k + 1) = some (s.pivot row col) := by simp [after, hk, hm]
      obtain ⟨o, ho⟩ := ih hk' (by rwa [show k + 1 + limit + 1 = k + (limit + 1) + 1 by omega])
      exact ⟨_, by simp only [ho]; rfl⟩

end Runs

/-! ## Equivalent tableaus -/

/-- Two tableaus that say the same: of the same size, solved by the same
assignments, with objective rows that agree on those. -/
structure Equivalent (s t : Tableau ℚ) : Prop where
  /-- As many decision and slack variables. -/
  structural_eq : t.structural = s.structural
  /-- As many artificial variables. -/
  artificials_eq : t.artificials = s.artificials
  /-- As many equations. -/
  length_rows_eq : t.rows.length = s.rows.length
  /-- The same assignments solve them. -/
  solves_iff : ∀ x h, t.Solves x h ↔ s.Solves x h
  /-- On those the objective rows have the same gap. -/
  gap_objective : ∀ x h, s.Solves x h → t.objective.gap x h = s.objective.gap x h

variable {s t u : Tableau ℚ} {r : BasicRow ℚ} {row col : ℕ}

namespace Equivalent

theorem refl (t : Tableau ℚ) : Equivalent t t :=
  ⟨rfl, rfl, rfl, fun _ _ => Iff.rfl, fun _ _ _ => rfl⟩

theorem trans (h : Equivalent s t) (h' : Equivalent t u) : Equivalent s u where
  structural_eq := h'.structural_eq.trans h.structural_eq
  artificials_eq := h'.artificials_eq.trans h.artificials_eq
  length_rows_eq := h'.length_rows_eq.trans h.length_rows_eq
  solves_iff x k := (h'.solves_iff x k).trans (h.solves_iff x k)
  gap_objective x k hx :=
    (h'.gap_objective x k ((h.solves_iff x k).2 hx)).trans (h.gap_objective x k hx)

theorem symm (h : Equivalent s t) : Equivalent t s where
  structural_eq := h.structural_eq.symm
  artificials_eq := h.artificials_eq.symm
  length_rows_eq := h.length_rows_eq.symm
  solves_iff x k := (h.solves_iff x k).symm
  gap_objective x k hx := (h.gap_objective x k ((h.solves_iff x k).1 hx)).symm

theorem width_eq (h : Equivalent s t) : t.width = s.width := by
  rw [Tableau.width, Tableau.width, h.structural_eq, h.artificials_eq]

/-- A pivot on any entry but zero says the same. -/
theorem pivot (ht : t.Shaped) (hr : t.rows[row]? = some r) (hne : r.entry col ≠ 0) :
    Equivalent t (t.pivot row col) where
  structural_eq := Tableau.structural_pivot
  artificials_eq := Tableau.artificials_pivot
  length_rows_eq := Tableau.length_rows_pivot
  solves_iff := Tableau.solves_pivot_iff ht hr hne
  gap_objective _ _ hx := Tableau.gap_objective_pivot ht hr hx

end Equivalent

/-- **A pivot on the least ratio keeps all right-hand sides nonnegative.** -/
theorem feasible_pivot (ht : t.Shaped) (hf : t.Feasible) (hr : t.rows[row]? = some r)
    (hpos : 0 < r.entry col)
    (hle : ∀ s ∈ t.rows, 0 < s.entry col → r.rhs / r.entry col ≤ s.rhs / s.entry col) :
    (t.pivot row col).Feasible := by
  have hratio : 0 ≤ r.rhs / r.entry col := div_nonneg (hf r (List.mem_of_getElem? hr)) hpos.le
  intro s hs
  rcases Tableau.mem_rows_pivot hr hs with rfl | ⟨q, hq, rfl⟩
  · exact hratio
  · show 0 ≤ (q.toRow.eliminate col (r.toRow.divide (r.entry col))).rhs
    rw [Row.rhs_eliminate _ (ht.length_pivotRow hr hq)]
    show 0 ≤ q.rhs - q.entry col * (r.rhs / r.entry col)
    -- a row with a positive entry has no lesser ratio, any other only gains
    rcases lt_or_ge 0 (q.entry col) with hlt | hneg
    · have hmin := hle q hq hlt
      rw [le_div_iff₀ hlt] at hmin
      linarith
    · have hgain := mul_nonpos_of_nonpos_of_nonneg hneg hratio
      linarith [hf q hq]

/-! ## Pivots with tolerance zero -/

/-- A tableau in which pivoting can start: canonical, priced, and without
negative right-hand sides. -/
structure Ready (t : Tableau ℚ) : Prop extends t.Canonical where
  /-- The objective row is zero in the basic columns. -/
  priced : t.Priced
  /-- No right-hand side is negative. -/
  feasible : t.Feasible

/-- What a pivot with tolerance zero is done on. -/
structure Pivots (rule : PivotRule) (t : Tableau ℚ) (row col : ℕ) (r : BasicRow ℚ) : Prop where
  /-- The row. -/
  row_eq : t.rows[row]? = some r
  /-- The column is one. -/
  col_lt : col < t.width
  /-- It improves the objective. -/
  cost_neg : t.objective.entry col < 0
  /-- By the lowest-index rule no column before it does. -/
  cost_nonneg : rule = .lowestIndex → ∀ j < col, 0 ≤ t.objective.entry j
  /-- The entry is positive. -/
  entry_pos : 0 < r.entry col
  /-- The ratio is least, and by the lowest-index rule so is then the basic
  column. -/
  ratio_le : ∀ s ∈ t.rows, 0 < s.entry col → r.rhs / r.entry col ≤ s.rhs / s.entry col ∧
    (rule = .lowestIndex → r.rhs / r.entry col = s.rhs / s.entry col → r.basic ≤ s.basic)

theorem Ready.pivots {rule : PivotRule} (ht : Ready t) (h : move 0 rule t = .pivot row col) :
    ∃ r, Pivots rule t row col r := by
  obtain ⟨hcol, hrow⟩ := move_eq_pivot h
  obtain ⟨hlt, hneg⟩ := Tableau.entering_eq_some hcol
  obtain ⟨r, hr, hpos, hratio⟩ := Tableau.ratio_le_of_leaving ht.feasible hrow
  refine ⟨r, hr, ht.length_objective ▸ hlt, by simpa using hneg, ?_, hpos, hratio⟩
  rintro rfl j hj
  simpa using Tableau.le_entry_of_lt_entering hcol hj

namespace Pivots

variable {rule : PivotRule} (hp : Pivots rule t row col r)

include hp

/-- The ratio is not negative. -/
theorem ratio_nonneg (ht : Ready t) : 0 ≤ r.rhs / r.entry col :=
  div_nonneg (ht.feasible r (List.mem_of_getElem? hp.row_eq)) hp.entry_pos.le

theorem feasible (ht : Ready t) : (t.pivot row col).Feasible :=
  feasible_pivot ht.toShaped ht.feasible hp.row_eq hp.entry_pos fun s hs hpos =>
    (hp.ratio_le s hs hpos).1

/-- **A pivot leaves a tableau ready.** -/
theorem ready (ht : Ready t) : Ready (t.pivot row col) where
  toCanonical := Tableau.canonical_pivot ht.toCanonical hp.row_eq hp.col_lt hp.entry_pos.ne'
  priced := Tableau.priced_pivot ht.toCanonical ht.priced hp.row_eq hp.entry_pos.ne'
  feasible := hp.feasible ht

theorem equivalent (ht : Ready t) : Equivalent t (t.pivot row col) :=
  .pivot ht.toShaped hp.row_eq hp.entry_pos.ne'

end Pivots

/-- **Pivoting with tolerance zero** keeps a tableau ready and equivalent. -/
theorem ready_of_move {rule : PivotRule} (ht : Ready t) (h : move 0 rule t = .pivot row col) :
    Ready (t.pivot row col) ∧ Equivalent t (t.pivot row col) := by
  obtain ⟨r, hp⟩ := ht.pivots h
  exact ⟨hp.ready ht, hp.equivalent ht⟩

/-! ## The end of pivoting -/

/-- **The vertex of a ready tableau** is a nonnegative solution of every tableau
that says the same, and its gap in the objective row there is minus the corner. -/
theorem Equivalent.gap_vertex (heq : Equivalent t s) (hs : Ready s) :
    (∀ j, 0 ≤ s.vertex j) ∧ t.Solves s.vertex 1 ∧ t.objective.gap s.vertex 1 = -s.corner := by
  have hsol : t.Solves s.vertex 1 := (heq.solves_iff _ _).1 hs.toCanonical.solves_vertex
  refine ⟨hs.feasible.vertex_nonneg, hsol, ?_⟩
  rw [← heq.gap_objective _ _ hsol, hs.priced.gap_vertex]

/-- **Where a column can enter and no row can leave there is a ray**: a
nonnegative direction of every tableau that says the same, along which its
objective row has a negative gap. -/
theorem Equivalent.exists_ray {rule : PivotRule} (heq : Equivalent t s) (hs : Ready s)
    (hm : move 0 rule s = .unbounded col) :
    ∃ d : ℕ → ℚ, (∀ j, 0 ≤ d j) ∧ t.Solves d 0 ∧ t.objective.gap d 0 < 0 := by
  obtain ⟨hcol, hrow⟩ := move_eq_unbounded hm
  have hsol : t.Solves (s.ray col) 0 := (heq.solves_iff _ _).1 (hs.toCanonical.solves_ray col)
  refine ⟨s.ray col, Tableau.ray_nonneg fun r hr => Tableau.leaving_eq_none hrow hr, hsol, ?_⟩
  rw [← heq.gap_objective _ _ hsol, Row.gap, zero_mul, sub_zero, hs.priced.value_ray]
  simpa using (Tableau.entering_eq_some hcol).2

variable {maxIterations limit : ℕ} {o : Optimized ℚ}

/-- The last tableau is ready and equivalent to the first. -/
theorem ready_optimize (ht : Ready t) (h : optimize ⟨maxIterations, 0⟩ limit 0 t = some o) :
    Ready o.tableau ∧ Equivalent t o.tableau := by
  refine (optimize_induction (fun s => Ready s ∧ Equivalent t s) ?_ h ⟨ht, .refl t⟩).1
  rintro s rule row col ⟨hs, heq⟩ hm
  exact ⟨(ready_of_move hs hm).1, heq.trans (ready_of_move hs hm).2⟩

/-- **The vertex at an optimal end is optimal.** Its gap in the objective
row is the least among all nonnegative solutions of the first tableau. -/
theorem optimize_optimal (ht : Ready t) (h : optimize ⟨maxIterations, 0⟩ limit 0 t = some o)
    (ho : o.ending = .optimal) {x : ℕ → ℚ} (hx : ∀ j, 0 ≤ x j) (hsol : t.Solves x 1) :
    -o.tableau.corner ≤ t.objective.gap x 1 := by
  obtain ⟨hready, heq⟩ := ready_optimize ht h
  obtain ⟨rule, ⟨-, hm⟩ | ⟨hu, -⟩⟩ := last_move h
  · -- no entry of the last objective row is negative
    have hnonneg : 0 ≤ o.tableau.objective.value x := by
      refine dot_nonneg fun j hj => mul_nonneg ?_ (hx j)
      have hle : -(0 : ℚ) ≤ o.tableau.objective.entry j :=
        Tableau.entering_eq_none (move_eq_stop hm) hj
      rwa [neg_zero] at hle
    rw [← heq.gap_objective x 1 hsol, Row.gap, one_mul]
    show -o.tableau.objective.rhs ≤ _
    linarith
  · rw [ho] at hu
    cases hu

/-- **An unbounded end has a ray**: a nonnegative direction of the first
tableau along which its objective row has a negative gap. -/
theorem optimize_unbounded (ht : Ready t) (h : optimize ⟨maxIterations, 0⟩ limit 0 t = some o)
    (ho : o.ending = .unbounded) :
    ∃ d : ℕ → ℚ, (∀ j, 0 ≤ d j) ∧ t.Solves d 0 ∧ t.objective.gap d 0 < 0 := by
  obtain ⟨hready, heq⟩ := ready_optimize ht h
  obtain ⟨rule, ⟨hs, -⟩ | ⟨-, col, hm⟩⟩ := last_move h
  · rw [ho] at hs
    cases hs
  · exact heq.exists_ray hready hm

/-- The vertex at the end is a nonnegative solution of the first tableau,
and its gap in the objective row is minus the corner. -/
theorem vertex_optimize (ht : Ready t) (h : optimize ⟨maxIterations, 0⟩ limit 0 t = some o) :
    (∀ j, 0 ≤ o.tableau.vertex j) ∧ t.Solves o.tableau.vertex 1 ∧
      t.objective.gap o.tableau.vertex 1 = -o.tableau.corner := by
  obtain ⟨hready, heq⟩ := ready_optimize ht h
  exact heq.gap_vertex hready

end Simplex

end Milp
