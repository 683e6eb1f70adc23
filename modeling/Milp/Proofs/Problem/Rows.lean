import Mathlib.Data.List.Perm.Subperm
import Milp.Problem.Basic
import Milp.Proofs.Number.Rounding
/-!
# Rows, whatever the numbers

A row that is added goes to the end, or lowers the right-hand side of the
first row with its coefficients (`Row.addTo_cases`). So a problem that has
been given bounds on its variables has its own rows first, and after them
unit rows, each of them once (`Extends`).
-/

namespace Milp

variable {α : Type} [Scalar α]

/-- **What adding a row does**: it is appended where no row has its
coefficients, and sharpens the right-hand side of one that has them
otherwise. -/
theorem Row.addTo_cases (rows : List (Row α)) (c : List α) (b : α) :
    (c ∉ rows.map (·.coefficients) ∧ Row.addTo rows c b = rows ++ [⟨c, b⟩]) ∨
    ∃ i r, rows[i]? = some r ∧ r.coefficients = c ∧
      Row.addTo rows c b = rows.set i { r with rhs := Scalar.lesser r.rhs b } := by
  induction rows with
  | nil => exact .inl ⟨List.not_mem_nil, rfl⟩
  | cons head rows ih =>
    rw [Row.addTo]
    by_cases hsame : Scalar.sameList head.coefficients c = true
    · rw [if_pos hsame]
      exact .inr ⟨0, head, rfl, (Scalar.sameList_iff _ _).1 hsame, rfl⟩
    rw [if_neg hsame]
    rcases ih with ⟨hnew, heq⟩ | ⟨i, r, hr, hc, heq⟩
    · refine .inl ⟨fun hmem => ?_, by rw [heq, List.cons_append]⟩
      rcases List.mem_cons.1 hmem with hhead | hmem
      · exact hsame ((Scalar.sameList_iff _ _).2 hhead.symm)
      · exact hnew hmem
    · exact .inr ⟨i + 1, r, hr, hc, by rw [heq, List.set_cons_succ]⟩

/-- **Every row stays**, if only with a lesser right-hand side. -/
theorem Row.exists_mem_addTo {rows : List (Row α)} (c : List α) (b : α) {r : Row α}
    (hr : r ∈ rows) : ∃ s ∈ Row.addTo rows c b, s.coefficients = r.coefficients ∧
      (s = r ∨ r.coefficients = c ∧ s.rhs = Scalar.lesser r.rhs b) := by
  induction rows with
  | nil => exact absurd hr List.not_mem_nil
  | cons head rows ih =>
    rw [Row.addTo]
    split
    · rename_i hsame
      rcases List.mem_cons.1 hr with rfl | hr
      · exact ⟨_, List.mem_cons_self, rfl, .inr ⟨(Scalar.sameList_iff _ _).1 hsame, rfl⟩⟩
      · exact ⟨r, List.mem_cons_of_mem _ hr, rfl, .inl rfl⟩
    · rcases List.mem_cons.1 hr with rfl | hr
      · exact ⟨r, List.mem_cons_self, rfl, .inl rfl⟩
      · obtain ⟨s, hs, hcoef, hrhs⟩ := ih hr
        exact ⟨s, List.mem_cons_of_mem _ hs, hcoef, hrhs⟩

namespace Problem

variable {p q : Problem α} {j : ℕ} {c b : α}

omit [Scalar α] in
/-- Only variables have to be integers. -/
theorem lt_of_isInteger (hj : p.isInteger j = true) : j < p.numVariables := by
  by_contra hge
  rw [isInteger, List.getD_eq_default _ _ (p.length_integer ▸ not_lt.1 hge)] at hj
  exact Bool.false_ne_true hj

omit [Scalar α] in
theorem mem_integerVariables : j ∈ p.integerVariables ↔ p.isInteger j = true := by
  rw [integerVariables, List.mem_filter, List.mem_range]
  exact ⟨fun h => h.2, fun h => ⟨lt_of_isInteger h, h⟩⟩

/-! ## One bound more -/

/-- **Two problems differ in one place**: the second one has one row more at
the end, or the same coefficients with at most one other right-hand side. -/
def DiffersInOne (p q : Problem α) : Prop :=
  (∃ r, q.rows = p.rows ++ [r]) ∨
  (q.coefficients = p.coefficients ∧ ∃ i, ∀ k : ℕ, k ≠ i → q.rhs[k]? = p.rhs[k]?)

/-- **No right-hand side is larger** in the second problem. -/
def NotLooser (p q : Problem α) : Prop :=
  ∀ (i : ℕ) (a b : α), p.rhs[i]? = some a → q.rhs[i]? = some b → b ≤ a

/-- Every right-hand side is a number. -/
def HasNumbers (p : Problem α) : Prop := ∀ a ∈ p.rhs, Scalar.IsNumber a

instance (p : Problem α) : Decidable p.HasNumbers :=
  inferInstanceAs (Decidable (∀ a ∈ p.rhs, Scalar.IsNumber a))

/-- **What a row does** to the coefficients and the right-hand sides. -/
theorem addRow_cases (p : Problem α) {e : List α} (b : α) (h : e.length = p.numVariables) :
    (e ∉ p.coefficients ∧ (p.addRow e b h).rows = p.rows ++ [⟨e, b⟩]) ∨
    ((p.addRow e b h).coefficients = p.coefficients ∧
      ∃ (i : ℕ) (a : α), p.coefficients[i]? = some e ∧ p.rhs[i]? = some a ∧
        (p.addRow e b h).rhs = p.rhs.set i (Scalar.lesser a b)) := by
  have hrows : (p.addRow e b h).rows = Row.addTo p.rows e b := rfl
  rcases Row.addTo_cases p.rows e b with ⟨hnew, heq⟩ | ⟨i, r, hr, hc, heq⟩
  · exact .inl ⟨hnew, hrows.trans heq⟩
  · have hcoef : p.coefficients[i]? = some r.coefficients := by
      rw [coefficients, List.getElem?_map, hr]
      rfl
    obtain ⟨hi, hget⟩ := List.getElem?_eq_some_iff.1 hcoef
    refine .inr ⟨?_, i, r.rhs, hc ▸ hcoef, ?_, ?_⟩
    · -- the row that is written has the coefficients that stand there
      rw [coefficients, hrows, heq, List.map_set, ← coefficients, ← hget, List.set_getElem_self]
    · rw [rhs, List.getElem?_map, hr]
      rfl
    · rw [rhs, hrows, heq, List.map_set, rhs]

/-- **What a bound does** to the coefficients and the right-hand sides. -/
theorem bound_cases (p : Problem α) (j : ℕ) (c b : α) :
    (Scalar.unitList p.numVariables j c ∉ p.coefficients ∧
      (p.bound j c b).rows = p.rows ++ [⟨Scalar.unitList p.numVariables j c, b⟩]) ∨
    ((p.bound j c b).coefficients = p.coefficients ∧
      ∃ (i : ℕ) (a : α), p.rhs[i]? = some a ∧
        (p.bound j c b).rhs = p.rhs.set i (Scalar.lesser a b)) :=
  (p.addRow_cases b (Scalar.length_unitList _ _ _)).imp_right
    fun ⟨hcoef, i, a, _, ha, hrhs⟩ => ⟨hcoef, i, a, ha, hrhs⟩

/-- **A bound changes one place.** -/
theorem differsInOne_bound (p : Problem α) (j : ℕ) (c b : α) : p.DiffersInOne (p.bound j c b) := by
  rcases bound_cases p j c b with ⟨-, hrows⟩ | ⟨hcoef, i, a, -, hrhs⟩
  · exact .inl ⟨_, hrows⟩
  · refine .inr ⟨hcoef, i, fun k hk => ?_⟩
    rw [hrhs, List.getElem?_set_ne (Ne.symm hk)]

section Numbers

variable [Scalar.Rounding α] (hp : p.HasNumbers) (hb : Scalar.IsNumber b)

include hp

/-- **Among numbers a bound raises no right-hand side.** -/
theorem notLooser_bound (hb : Scalar.IsNumber b) : p.NotLooser (p.bound j c b) := by
  intro i a a' ha ha'
  have hnum : Scalar.IsNumber a := hp a (List.mem_of_getElem? ha)
  rcases bound_cases p j c b with ⟨-, hrows⟩ | ⟨-, k, d, hd, hrhs⟩
  · have hrhs : (p.bound j c b).rhs = p.rhs ++ [b] := by
      rw [rhs, hrows, List.map_append]
      rfl
    obtain ⟨hi, -⟩ := List.getElem?_eq_some_iff.1 ha
    rw [hrhs, List.getElem?_append_left hi, ha] at ha'
    cases ha'
    exact hnum
  · rw [hrhs] at ha'
    by_cases hk : k = i
    · subst hk
      obtain ⟨hi, -⟩ := List.getElem?_eq_some_iff.1 ha
      rw [ha] at hd
      rw [List.getElem?_set_self hi] at ha'
      cases hd
      cases ha'
      exact (Scalar.Rounding.lesser_le hnum hb).1
    · rw [List.getElem?_set_ne hk, ha] at ha'
      cases ha'
      exact hnum

/-- Nor does a row make one that is no number. -/
theorem hasNumbers_addRow {e : List α} (h : e.length = p.numVariables) (hb : Scalar.IsNumber b) :
    (p.addRow e b h).HasNumbers := by
  intro a ha
  rcases p.addRow_cases b h with ⟨-, hrows⟩ | ⟨-, i, d, -, hd, hrhs⟩
  · rw [rhs, hrows, List.map_append] at ha
    rcases List.mem_append.1 ha with ha | ha
    · exact hp a ha
    · rw [List.mem_singleton.1 ha]
      exact hb
  · rw [hrhs] at ha
    rcases List.mem_or_eq_of_mem_set ha with ha | rfl
    · exact hp a ha
    · have hnum : Scalar.IsNumber d := hp d (List.mem_of_getElem? hd)
      exact Scalar.Ordered.isNumber_left (Scalar.Rounding.lesser_le hnum hb).1

theorem hasNumbers_bound (hb : Scalar.IsNumber b) : (p.bound j c b).HasNumbers :=
  hasNumbers_addRow hp (Scalar.length_unitList _ _ _) hb

end Numbers

/-! ## Bounds on integer variables -/

/-- The coefficients of a bound on an integer variable. -/
def IsUnitRow (p : Problem α) (e : List α) : Prop :=
  ∃ j, p.isInteger j = true ∧
    (e = Scalar.unitList p.numVariables j 1 ∨ e = Scalar.unitList p.numVariables j (-1))

/-- All coefficients of bounds on integer variables. -/
def unitRows (p : Problem α) : List (List α) :=
  p.integerVariables.flatMap fun j =>
    [Scalar.unitList p.numVariables j 1, Scalar.unitList p.numVariables j (-1)]

theorem mem_unitRows {e : List α} : e ∈ p.unitRows ↔ p.IsUnitRow e := by
  simp only [unitRows, IsUnitRow, List.mem_flatMap, mem_integerVariables, List.mem_cons,
    List.not_mem_nil, or_false]

theorem length_unitRows (p : Problem α) : p.unitRows.length = 2 * p.integerVariables.length := by
  rw [unitRows, List.length_flatMap]
  show (p.integerVariables.map fun _ => 2).sum = _
  rw [List.map_const', List.sum_replicate_nat, Nat.mul_comm]

/-- **A problem with bounds added to it**: same objective, same integer
variables, its own coefficients first, and after them unit rows that are not
among them, each of them once. -/
structure Extends (p q : Problem α) : Prop where
  /-- The objective is the same. -/
  objective_eq : q.objective = p.objective
  /-- So are the integer variables. -/
  integer_eq : q.integer = p.integer
  /-- Unit rows are added. -/
  coefficients_eq : ∃ added, q.coefficients = p.coefficients ++ added ∧ added.Nodup ∧
    ∀ e ∈ added, e ∉ p.coefficients ∧ p.IsUnitRow e

theorem Extends.refl (p : Problem α) : p.Extends p :=
  ⟨rfl, rfl, [], (List.append_nil _).symm, List.nodup_nil, nofun⟩

theorem Extends.isInteger_eq (h : p.Extends q) (j : ℕ) : q.isInteger j = p.isInteger j := by
  rw [isInteger, isInteger, h.integer_eq]

theorem Extends.numVariables_eq (h : p.Extends q) : q.numVariables = p.numVariables := by
  rw [numVariables, numVariables, h.objective_eq]

/-- **One bound more** on an integer variable. -/
theorem Extends.bound (h : p.Extends q) (hj : p.isInteger j = true) (hc : c = 1 ∨ c = -1) :
    p.Extends (q.bound j c b) := by
  refine ⟨h.objective_eq, h.integer_eq, ?_⟩
  obtain ⟨added, heq, hnodup, hadded⟩ := h.coefficients_eq
  rcases bound_cases q j c b with ⟨hnew, hrows⟩ | ⟨hsame, -⟩
  · have hcoef : (q.bound j c b).coefficients =
        q.coefficients ++ [Scalar.unitList q.numVariables j c] := by
      rw [coefficients, hrows, List.map_append]
      rfl
    rw [h.numVariables_eq, heq] at hnew
    obtain ⟨hnotp, hnotadded⟩ := not_or.1 (fun hmem => hnew (List.mem_append.2 hmem))
    refine ⟨added ++ [Scalar.unitList p.numVariables j c], ?_, ?_, fun e he => ?_⟩
    · rw [hcoef, heq, List.append_assoc, h.numVariables_eq]
    · exact List.nodup_append.2 ⟨hnodup, List.nodup_singleton _,
        fun a ha a' ha' haa' => hnotadded (List.mem_singleton.1 ha' ▸ haa' ▸ ha)⟩
    · rcases List.mem_append.1 he with he | he
      · exact hadded e he
      · rw [List.mem_singleton.1 he]
        refine ⟨hnotp, j, hj, ?_⟩
        rcases hc with rfl | rfl
        · exact .inl rfl
        · exact .inr rfl
  · exact ⟨added, hsame.trans heq, hnodup, hadded⟩

/-- **There are at most two rows more for each integer variable.** -/
theorem Extends.numRows_le (h : p.Extends q) :
    q.numRows ≤ p.numRows + 2 * p.integerVariables.length := by
  obtain ⟨added, heq, hnodup, hadded⟩ := h.coefficients_eq
  have hsub : added ⊆ p.unitRows := fun e he => mem_unitRows.2 (hadded e he).2
  have hlen : added.length ≤ p.unitRows.length := (List.subperm_of_subset hnodup hsub).length_le
  have hrows : q.coefficients.length = p.coefficients.length + added.length := by
    rw [heq, List.length_append]
  rw [coefficients, coefficients, List.length_map, List.length_map] at hrows
  rw [length_unitRows] at hlen
  unfold numRows
  omega

end Problem

end Milp
