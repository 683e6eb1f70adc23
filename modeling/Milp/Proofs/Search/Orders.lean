import Milp.Proofs.Search.Correctness
import Milp.Proofs.Simplex.Termination
/-!
# Both orders agree

A search prunes, and which nodes it prunes depends on the order in which it
takes them. Over a pure solver whose answers to children are at most the
answer to their parent, the result does not (`search_orders_agree`): in both
orders it is the best among the leaves of the whole tree, in which nothing
is pruned and which may be infinite. The targets of the search are these
leaves. Exact answers are such answers (`objective_le_of_refines`).
-/

namespace Milp

namespace Search

variable {α : Type} [Scalar α] {answer : Problem α → Solution α} {epsilon : α}
variable {p q r : Problem α}

/-! ## The tree -/

/-- The problem is split at a variable: it has a point, and that variable is
to be branched on. -/
structure Splits (answer : Problem α → Solution α) (epsilon : α) (q : Problem α)
    (f : Fractional α) : Prop where
  /-- Something is feasible. -/
  feasible : (answer q).isInfeasible = false
  /-- The variable is branched on. -/
  fractional : branching q epsilon (answer q).values = some f

/-- **The tree without pruning**, from a root. -/
inductive InTree (answer : Problem α → Solution α) (epsilon : α) (p : Problem α) :
    Problem α → Prop
  /-- The root. -/
  | root : InTree answer epsilon p p
  /-- The child below the value. -/
  | floor {q : Problem α} {f : Fractional α} : InTree answer epsilon p q →
    Splits answer epsilon q f → InTree answer epsilon p (floorChild q f)
  /-- The child above the value. -/
  | ceil {q : Problem α} {f : Fractional α} : InTree answer epsilon p q →
    Splits answer epsilon q f → InTree answer epsilon p (ceilChild q f)

/-- Which of the two children. -/
inductive Side where
  /-- The one below the value. -/
  | floor
  /-- The one above it. -/
  | ceil
deriving DecidableEq, Repr

/-- The child on a side. -/
def Side.child (side : Side) (q : Problem α) (f : Fractional α) : Problem α :=
  match side with
  | floor => floorChild q f
  | ceil => ceilChild q f

/-- **An integral leaf**: it has a point, and there is nothing to branch
on. -/
structure IsLeaf (answer : Problem α → Solution α) (epsilon : α) (q : Problem α) : Prop where
  /-- Something is feasible. -/
  feasible : (answer q).isInfeasible = false
  /-- The integer variables are integral. -/
  integral : IntegralUpTo q epsilon (answer q).values

theorem Splits.unique {f g : Fractional α} (h : Splits answer epsilon q f)
    (h' : Splits answer epsilon q g) : f = g :=
  Option.some.inj (h.fractional.symm.trans h'.fractional)

theorem IsLeaf.not_splits {f : Fractional α} (h : IsLeaf answer epsilon q) :
    ¬ Splits answer epsilon q f := by
  intro hs
  cases (branching_eq_none_iff.2 h.integral).symm.trans hs.fractional

namespace InTree

theorem child {f : Fractional α} (h : InTree answer epsilon p q) (hs : Splits answer epsilon q f)
    (side : Side) : InTree answer epsilon p (side.child q f) := by
  cases side with
  | floor => exact h.floor hs
  | ceil => exact h.ceil hs

/-- Induction from every problem to both children at once. -/
theorem child_induction {motive : (r : Problem α) → InTree answer epsilon p r → Prop}
    (root : motive p .root)
    (child : ∀ {q f} (side : Side) (h : InTree answer epsilon p q)
      (hs : Splits answer epsilon q f), motive q h → motive (side.child q f) (h.child hs side))
    (h : InTree answer epsilon p r) : motive r h := by
  induction h with
  | root => exact root
  | floor h hs ih => exact child .floor h hs ih
  | ceil h hs ih => exact child .ceil h hs ih

theorem trans (h : InTree answer epsilon p q) (h' : InTree answer epsilon q r) :
    InTree answer epsilon p r := by
  induction h' using child_induction with
  | root => exact h
  | child side _ hs ih => exact ih.child hs side

/-- **Below a problem that is split** there is the problem itself and what is
below its children. -/
theorem eq_or_child {f : Fractional α} (h : InTree answer epsilon q r)
    (hf : Splits answer epsilon q f) :
    r = q ∨ InTree answer epsilon (floorChild q f) r ∨ InTree answer epsilon (ceilChild q f) r := by
  induction h using child_induction with
  | root => exact .inl rfl
  | child side _ hs ih =>
    rcases ih with rfl | h | h
    · cases hf.unique hs
      cases side with
      | floor => exact .inr (.inl .root)
      | ceil => exact .inr (.inr .root)
    · exact .inr (.inl (h.child hs side))
    · exact .inr (.inr (h.child hs side))

end InTree

/-- **Monotone under branching**: in the tree every answer is ordered, and
those to children are at most the one to their parent. -/
structure MonotoneBranching (answer : Problem α → Solution α) (epsilon : α) (p : Problem α) :
    Prop where
  /-- The levels of the answers are ordered. -/
  isNumber : ∀ q, InTree answer epsilon p q → (answer q).objective.IsNumber
  /-- The child below the value is not better. -/
  floor_le : ∀ q f, InTree answer epsilon p q → Splits answer epsilon q f →
    (answer (floorChild q f)).objective ≤ (answer q).objective
  /-- Nor is the one above it. -/
  ceil_le : ∀ q f, InTree answer epsilon p q → Splits answer epsilon q f →
    (answer (ceilChild q f)).objective ≤ (answer q).objective

/-- **The best of the leaves**: a level at least that of every leaf, and the
level of one; or the lowest where there is no leaf. -/
structure IsBest (answer : Problem α → Solution α) (epsilon : α) (p : Problem α)
    (z : Level α) : Prop where
  /-- No leaf is better. -/
  le : ∀ q, InTree answer epsilon p q → IsLeaf answer epsilon q → (answer q).objective ≤ z
  /-- A leaf is as good, unless there is none. -/
  attained : (∃ q, InTree answer epsilon p q ∧ IsLeaf answer epsilon q ∧
      z = (answer q).objective) ∨
    z = .bottom ∧ ∀ q, InTree answer epsilon p q → ¬ IsLeaf answer epsilon q

/-- Neither child has a better answer. -/
theorem MonotoneBranching.child_le {f : Fractional α} (hmono : MonotoneBranching answer epsilon p)
    (hq : InTree answer epsilon p q) (hs : Splits answer epsilon q f) (side : Side) :
    (answer (side.child q f)).objective ≤ (answer q).objective := by
  cases side with
  | floor => exact hmono.floor_le q f hq hs
  | ceil => exact hmono.ceil_le q f hq hs

variable [Scalar.Ordered α]

/-- All the way down answers are at most the first. -/
theorem MonotoneBranching.le (hmono : MonotoneBranching answer epsilon p)
    (hq : InTree answer epsilon p q) (h : InTree answer epsilon q r) :
    (answer r).objective ≤ (answer q).objective := by
  induction h using InTree.child_induction with
  | root => exact hmono.isNumber q hq
  | child side h hs ih => exact Level.le_trans (hmono.child_le (hq.trans h) hs side) ih

/-! ## Leaves as targets -/

omit [Scalar α] [Scalar.Ordered α] in
theorem run_pure {q : Problem α} {reply : Reply Unit α}
    (h : (Solver.pure answer).run () q = some reply) : reply.solution = answer q := by
  cases h
  rfl

/-- **Answers that are monotone bound the leaves below a problem.** -/
theorem covering_of_monotone (hmono : MonotoneBranching answer epsilon p) :
    Covering (Solver.pure answer) epsilon (InTree answer epsilon p)
      (fun r q => InTree answer epsilon q r ∧ IsLeaf answer epsilon r)
      (fun r => (answer r).objective) where
  closed _ q reply f hq hrun hinf hb := by
    rw [run_pure hrun] at hinf hb
    exact ⟨.floor hq ⟨hinf, hb⟩, .ceil hq ⟨hinf, hb⟩⟩
  isNumber hq hrun := by
    rw [run_pure hrun]
    exact hmono.isNumber _ hq
  le hq hrun hr := by
    rw [run_pure hrun]
    exact hmono.le hq hr.1
  holds_iff {_ q reply f r} hq hrun hinf hb := by
    rw [run_pure hrun] at hinf hb
    have hs : Splits answer epsilon q f := ⟨hinf, hb⟩
    rw [← or_and_right]
    -- a leaf is not split itself, so it is below a child
    refine and_congr_left fun hleaf => ⟨fun h => ?_, ?_⟩
    · rcases h.eq_or_child hs with rfl | h
      · exact absurd hs hleaf.not_splits
      · exact h
    · rintro (h | h)
      · exact (InTree.floor .root hs).trans h
      · exact (InTree.ceil .root hs).trans h

variable {cfg : Config α} {limit limit' : ℕ} {outcome outcome' : Outcome Unit α}

/-- **What a search comes to is the best of the leaves**, in any order. -/
theorem isBest_of_search (hmono : MonotoneBranching answer cfg.epsilon p)
    (h : search (Solver.pure answer) cfg limit () p = some outcome) :
    IsBest answer cfg.epsilon p outcome.report.solution.objective := by
  have hcov := covering_of_monotone hmono
  have hle : ∀ q, InTree answer cfg.epsilon p q → IsLeaf answer cfg.epsilon q →
      (answer q).objective ≤ outcome.report.solution.objective :=
    fun q hq hleaf => hcov.le_of_search .root h ⟨hq, hleaf⟩
  refine ⟨hle, ?_⟩
  rcases solution_of_search hcov.closed .root h with hbot | ⟨q, hq, hleaf⟩
  · refine .inr ⟨hbot, fun q hq hleaf => ?_⟩
    -- a leaf would be infeasible
    have hq := hle q hq hleaf
    rw [hbot, Level.le_bottom_iff] at hq
    have hinf := hleaf.feasible
    rw [Solution.isInfeasible, hq] at hinf
    cases hinf
  · obtain ⟨_, reply, hrun, hsol⟩ := hleaf.run_eq
    rw [run_pure hrun] at hsol
    refine .inl ⟨q, hq, ⟨?_, ?_⟩, congrArg Solution.objective hsol.symm⟩
    · rw [hsol]
      exact hleaf.feasible
    · rw [hsol]
      exact hleaf.integral

/-- Two best levels are numerically equal. -/
theorem IsBest.beq {z w : Level α} (h : IsBest answer epsilon p z)
    (h' : IsBest answer epsilon p w) : (z == w) = true := by
  rcases h.attained with ⟨q, hq, hleaf, rfl⟩ | ⟨rfl, hnone⟩
  · rcases h'.attained with ⟨r, hr, hleaf', rfl⟩ | ⟨-, hnone⟩
    · exact Level.beq_of_le_of_le (h'.le q hq hleaf) (h.le r hr hleaf')
    · exact absurd hleaf (hnone q hq)
  · rcases h'.attained with ⟨r, hr, hleaf', -⟩ | ⟨rfl, -⟩
    · exact absurd hleaf' (hnone r hr)
    · rfl

/-- **Both orders agree** over a pure solver that is monotone under
branching, for doubles as for rational numbers: the two results are
numerically equal, and both are the best of the leaves of the tree without
pruning. -/
theorem search_orders_agree (hmono : MonotoneBranching answer epsilon p)
    (h : search (Solver.pure answer) ⟨epsilon, .depthFirst⟩ limit () p = some outcome)
    (h' : search (Solver.pure answer) ⟨epsilon, .bestFirst⟩ limit' () p = some outcome') :
    (outcome.report.solution.objective == outcome'.report.solution.objective) = true ∧
    IsBest answer epsilon p outcome.report.solution.objective ∧
    IsBest answer epsilon p outcome'.report.solution.objective := by
  have hbest : IsBest answer epsilon p outcome.report.solution.objective :=
    isBest_of_search hmono h
  have hbest' : IsBest answer epsilon p outcome'.report.solution.objective :=
    isBest_of_search hmono h'
  exact ⟨hbest.beq hbest', hbest, hbest'⟩

/-! ## Exact answers -/

/-- **Exact answers are monotone**: what refines a problem has no better
one. -/
theorem objective_le_of_refines {p q : Problem ℚ} {s t : Solution ℚ} (hs : p.ExactAnswer s)
    (ht : q.ExactAnswer t) (hpq : p.Refines q) : t.objective ≤ s.objective := by
  unfold Problem.ExactAnswer at hs ht
  split at ht
  · rename_i hbot
    rw [hbot]
    exact Level.bottom_le (isNumber_rat _)
  · rename_i w hw
    obtain ⟨hfeas, rfl, -⟩ := ht
    split at hs
    · exact absurd (hpq.feasible _ hfeas) (hs _)
    · rename_i z hz
      rw [hz, hw, Level.number_le_number, hpq.evaluate_eq]
      exact hs.2.2 _ (hpq.feasible _ hfeas)
    · rename_i htop
      rw [htop, hw, Level.number_le_top]
      exact le_refl (q.evaluate t.values)
  · rename_i htop
    obtain ⟨hfeas, d, hd, hpos⟩ := ht
    rw [hpq.evaluate_eq] at hpos
    split at hs
    · exact absurd (hpq.feasible _ hfeas) (hs _)
    · -- there is no optimum where the objective grows without end
      rename_i z hz
      obtain ⟨y, hy, hlt⟩ :=
        (hpq.feasible _ hfeas).exists_evaluate_gt (hpq.recedes d hd) hpos z
      exact absurd (hs.2.2 y hy) (not_le.2 hlt)
    · rename_i htop'
      rw [htop, htop']
      exact Level.top_le_top

/-- So they are monotone under branching. -/
theorem monotoneBranching_of_exact {answer : Problem ℚ → Solution ℚ}
    (hexact : ∀ q : Problem ℚ, q.ExactAnswer (answer q)) (epsilon : ℚ) (p : Problem ℚ) :
    MonotoneBranching answer epsilon p where
  isNumber _ _ := isNumber_rat _
  floor_le q f _ _ := objective_le_of_refines (hexact q) (hexact _) (refines_floorChild q f)
  ceil_le q f _ _ := objective_le_of_refines (hexact q) (hexact _) (refines_ceilChild q f)

/-- The continuous relaxation of a problem, solved by the simplex method
with as many pivots as it can need. -/
def relaxation (p : Problem ℚ) : Solution ℚ :=
  match Simplex.solve ⟨0, 0⟩ (Simplex.pivotBound 0 (Tableau.ofProblem p)) p with
  | some run => run.solution
  | none => Solution.infeasible p.numVariables

theorem exactAnswer_relaxation (p : Problem ℚ) : p.ExactAnswer (relaxation p) := by
  obtain ⟨run, hrun⟩ := Simplex.exists_solve (le_refl (Simplex.pivotBound 0 (Tableau.ofProblem p)))
  rw [relaxation, hrun]
  exact Simplex.exactAnswer_solve hrun

/-- Over the relaxation both orders find the same on `fractionalRoot`. -/
theorem search_orders_agree_fractionalRoot :
    ∃ o o', search (Solver.pure relaxation) ⟨0, .depthFirst⟩ 20 () fractionalRoot = some o ∧
      search (Solver.pure relaxation) ⟨0, .bestFirst⟩ 20 () fractionalRoot = some o' ∧
      MonotoneBranching relaxation 0 fractionalRoot ∧
      (o.report.solution.objective == o'.report.solution.objective) = true ∧
      IsBest relaxation 0 fractionalRoot o.report.solution.objective := by
  obtain ⟨o, ho⟩ : ∃ o, search (Solver.pure relaxation) ⟨0, .depthFirst⟩ 20 () fractionalRoot =
      some o := Option.isSome_iff_exists.1 (by decide +kernel)
  obtain ⟨o', ho'⟩ : ∃ o, search (Solver.pure relaxation) ⟨0, .bestFirst⟩ 20 () fractionalRoot =
      some o := Option.isSome_iff_exists.1 (by decide +kernel)
  have hmono := monotoneBranching_of_exact exactAnswer_relaxation 0 fractionalRoot
  obtain ⟨heq, hbest, -⟩ := search_orders_agree hmono ho ho'
  exact ⟨o, o', ho, ho', hmono, heq, hbest⟩

end Search

end Milp
