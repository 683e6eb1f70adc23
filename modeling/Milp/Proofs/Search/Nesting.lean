import Milp.Proofs.Search.Incumbents
/-!
# A search around a search

A search is itself a solver, and another search can be around it. What the
inner one comes to is infeasible, or the answer to a problem with the integer
variables of the first one, on which that problem was not split
(`integralUpTo_of_search`). So the outer one, unless its tolerance is smaller,
has nothing to branch on: it solves its root and is done (`search_search`).
-/

namespace Milp

namespace Search

variable {σ α : Type} [Scalar α] {wrapped : Solver σ α} {cfg inner outer : Config α}
variable {p : Problem α} {limit : ℕ} {memory : σ} {o : Outcome σ α} {s : State σ α}

/-! ## Integral answers -/

/-- **What a search comes to** is infeasible or has integral values, whatever
the wrapped solver answers. -/
theorem integralUpTo_of_search (h : search wrapped cfg limit memory p = some o) :
    o.report.solution.objective = .bottom ∨
      IntegralUpTo p cfg.epsilon o.report.solution.values := by
  -- children have the integer variables of their node
  have hclosed : Closed wrapped cfg.epsilon fun q => q.integer = p.integer :=
    fun _ _ _ _ hq _ _ _ => ⟨hq, hq⟩
  refine (solution_of_search hclosed rfl h).imp_right ?_
  rintro ⟨q, hq, hleaf⟩
  exact (integralUpTo_congr hq).1 hleaf.integral

/-- A larger tolerance takes no fewer values for integral. -/
theorem IntegralUpTo.mono [Scalar.Ordered α] {epsilon epsilon' : α} {values : List α}
    (h : IntegralUpTo p epsilon values) (hle : epsilon ≤ epsilon') :
    IntegralUpTo p epsilon' values :=
  fun j v hv hj => Scalar.Ordered.le_trans (h j v hv hj) hle

/-! ## One node -/

/-- Where no node waits an exploration is over. -/
theorem explore_of_pop_eq_none {epsilon : α} (h : s.frontier.pop = none) :
    explore wrapped epsilon limit s = some s := by
  unfold explore
  rw [h]

/-- **A root with integral values is the only node**, and its answer the only
incumbent. -/
theorem search_of_integral_root (limit : ℕ) {root : Reply σ α}
    (hrun : wrapped.run memory p = some root)
    (hfeas : root.solution.objective ≠ .bottom)
    (hint : IntegralUpTo p cfg.epsilon root.solution.values) :
    ∃ o, search wrapped cfg limit memory p = some o ∧
      o.report = ⟨root.solution, 1, 0, [root.solution.objective]⟩ ∧
      o.calls = [⟨p, root.solution⟩] ∧ o.memory = root.memory := by
  have hinf : root.solution.isInfeasible = false :=
    Bool.eq_false_iff.2 fun h => hfeas (Level.isBottom_iff.1 h)
  -- before the root nothing is known to be feasible, and no other level is below that
  have hbetter : ¬ (root.solution.isInfeasible = true ∨
      root.solution.objective ≤ (solvedRoot cfg memory p root).incumbent) := by
    rintro (h | h)
    · exact Bool.false_ne_true (hinf.symm.trans h)
    · exact hfeas (Level.le_bottom_iff.1 h)
  have hvisit : (solvedRoot cfg memory p root).visit cfg.epsilon p root.solution =
      (((solvedRoot cfg memory p root).look p root.solution).note
        (.newIncumbent root.solution.objective)).accept root.solution := by
    rw [visit_eq, judge_eq_accept hbetter (branching_eq_none_iff.2 hint)]
  have hpop : ((solvedRoot cfg memory p root).visit cfg.epsilon p root.solution).frontier.pop =
      none := by
    rw [hvisit]
    rfl
  refine ⟨_, search_eq_of_explore hrun hinf (explore_of_pop_eq_none hpop), ?_⟩
  rw [hvisit]
  exact ⟨rfl, rfl, rfl⟩

/-- **A search around a search is a single node.** Whatever the wrapped solver
answers, and in whatever orders the two searches take their nodes: where the
inner one ends, the outer one with no smaller a tolerance gives the same
solution, after one call and without pruning. Its only incumbent is that
solution, unless it is infeasible. -/
theorem search_search [Scalar.Ordered α] (hle : inner.epsilon ≤ outer.epsilon)
    (h : search wrapped inner limit memory p = some o) (limit' : ℕ) :
    ∃ o', search (solver wrapped inner limit) outer limit' memory p = some o' ∧
      o'.report = ⟨o.report.solution, 1, 0,
        if o.report.solution.isInfeasible then [] else [o.report.solution.objective]⟩ ∧
      o'.calls = [⟨p, o.report.solution⟩] ∧ o'.memory = o.memory := by
  have hrun : (solver wrapped inner limit).run memory p =
      some ⟨o.report.solution, o.events, o.memory⟩ :=
    Option.map_eq_some_iff.2 ⟨o, h, rfl⟩
  by_cases hbot : o.report.solution.objective = .bottom
  · have hinf : o.report.solution.isInfeasible = true := Level.isBottom_iff.2 hbot
    rw [if_pos hinf]
    exact search_of_isInfeasible outer limit' hrun hinf
  · have hfeas : ¬ o.report.solution.isInfeasible = true := fun h => hbot (Level.isBottom_iff.1 h)
    have hint := ((integralUpTo_of_search h).resolve_left hbot).mono hle
    rw [if_neg hfeas]
    exact search_of_integral_root limit' hrun hbot hint

/-- A fractional answer and two integral ones, the second of which has a level
that is no number. -/
def unorderedLast : List (Solution Double) :=
  [⟨.number 5.0, [2.5]⟩, ⟨.number 3.0, [2.0]⟩, ⟨.number ⟨0x7ff8000000000000⟩, [3.0]⟩]

/-- The inner search solves three nodes best first and comes to the level that is
no number. The outer one solves one node. -/
theorem search_search_unorderedLast :
    ∃ o o', search Method.scripted ⟨0.25, .bestFirst⟩ 5 unorderedLast oneInteger = some o ∧
      search (solver Method.scripted ⟨0.25, .bestFirst⟩ 5) ⟨0.375, .depthFirst⟩ 0 unorderedLast
        oneInteger = some o' ∧
      o.report.nodesSolved = 3 ∧ o.report.solution.values.length = 1 ∧
      ¬ o.report.solution.objective.IsNumber ∧
      o'.report.solution = o.report.solution ∧ o'.report.nodesSolved = 1 ∧
      o'.report.incumbents = [o.report.solution.objective] := by
  have hrun : (search Method.scripted ⟨0.25, .bestFirst⟩ 5 unorderedLast oneInteger).map
      (fun o => (o.report.nodesSolved, o.report.solution.values.length,
        decide (o.report.solution.objective ≤ o.report.solution.objective),
        o.report.solution.isInfeasible)) = some (3, 1, false, false) := by
    decide +kernel
  obtain ⟨o, hrun, heq⟩ := Option.map_eq_some_iff.1 hrun
  obtain ⟨hsolved, heq⟩ := Prod.mk.inj heq
  obtain ⟨hvalues, heq⟩ := Prod.mk.inj heq
  obtain ⟨hnumber, hfeas⟩ := Prod.mk.inj heq
  have hle : (⟨0.25, .bestFirst⟩ : Config Double).epsilon ≤
      (⟨0.375, .depthFirst⟩ : Config Double).epsilon := by decide +kernel
  have hnot : ¬ o.report.solution.objective ≤ o.report.solution.objective :=
    of_decide_eq_false hnumber
  obtain ⟨o', hsearch, hreport, -⟩ := search_search hle hrun 0
  rw [hfeas] at hreport
  refine ⟨o, o', hrun, hsearch, hsolved, hvalues, hnot, ?_, ?_, ?_⟩ <;> rw [hreport]
  rfl

end Search

end Milp
