import Milp.Proofs.Problem.Boxes
import Milp.Proofs.Search.Passage
/-!
# Searches that end

When the integer variables have finite upper bounds, and the wrapped solver
keeps to the unit rows of the problems that it is given, a search ends. Each
pending problem has a box with a number of cells, its weight, and a split
shares that out between the children. A problem of weight `w` is the root of
at most `2 * w - 1` nodes, so this is its `load`; with every node that is
solved the load of all pending problems falls by one at least
(`load_visit`).
-/

namespace Milp

namespace Search

open Problem (IsBoxed weight)

variable {σ α : Type} [Scalar α] [Scalar.Valued α] {solver : Solver σ α}
variable {s : State σ α} {p q : Problem α} {reply : Reply σ α} {epsilon : α}
variable {node : Node α} {frontier : Frontier α}
variable {cfg : Config α} {limit : ℕ} {memory : σ}

/-! ## Answers that keep to the bounds -/

/-- **An answer keeps to the bounds of a problem**: nothing is feasible, or
every integer variable has a finite value that respects its unit rows. -/
def KeepsTo (q : Problem α) (answer : Solution α) : Prop :=
  answer.isInfeasible = true ∨ ∀ j, q.isInteger j = true → ∃ v x,
    answer.values[j]? = some v ∧ Scalar.Valued.value? v = some x ∧ q.Respects j v

/-- **The children of such an answer** share the weight of the problem. -/
theorem KeepsTo.children (h : KeepsTo q reply.solution) (hq : IsBoxed p q)
    (heps : (0 : α) ≤ epsilon) (hfeas : reply.solution.isInfeasible = false) {f : Fractional α}
    (hf : branching q epsilon reply.solution.values = some f) :
    IsBoxed p (floorChild q f) ∧ IsBoxed p (ceilChild q f) ∧
      weight p (floorChild q f) + weight p (ceilChild q f) ≤ weight p q := by
  obtain ⟨hvalue, hj, hfrac⟩ := branching_eq_some hf
  have hinteger : p.isInteger f.index = true := by
    obtain ⟨B, hB⟩ := hq
    rw [Problem.isInteger, ← hB.integer_eq]
    exact hj
  rcases h with hinf | hkeeps
  · rw [hfeas] at hinf
    cases hinf
  obtain ⟨v, x, hv, hx, hrespects⟩ := hkeeps f.index hj
  rw [hvalue] at hv
  cases hv
  exact hq.children heps hinteger hx hrespects hfrac

/-! ## Loads -/

/-- How many nodes there can be at and below a problem. -/
noncomputable def nodeLoad (p q : Problem α) : ℕ := 2 * weight p q - 1

/-- **How many nodes there can still be.** -/
noncomputable def load (p : Problem α) (f : Frontier α) : ℕ :=
  ((f.nodes.map (·.problem)).map (nodeLoad p)).sum

theorem load_pushChildren (p : Problem α) (f : Frontier α) (first second : Problem α)
    (bound : Level α) : load p (f.pushChildren first second bound) =
      nodeLoad p first + (nodeLoad p second + load p f) := by
  have hperm : ((f.pushChildren first second bound).nodes.map (·.problem)).Perm _ :=
    Frontier.problems_pushChildren_perm
  rw [load, (hperm.map (nodeLoad p)).sum_eq]
  rfl

theorem load_of_pop (h : s.frontier.pop = some (node, frontier)) :
    load p s.frontier = nodeLoad p node.problem + load p frontier := by
  rw [load, Frontier.problems_of_pop h]
  rfl

theorem nodeLoad_pos (h : IsBoxed p q) : 0 < nodeLoad p q := by
  have hpos := h.weight_pos
  unfold nodeLoad
  omega

/-- Every pending problem is boxed. -/
def AllBoxed (p : Problem α) (f : Frontier α) : Prop := ∀ q b, f.Pending q b → IsBoxed p q

theorem AllBoxed.pop (h : AllBoxed p s.frontier) (hpop : s.frontier.pop = some (node, frontier)) :
    AllBoxed p frontier ∧ IsBoxed p node.problem :=
  ⟨fun q b hq => h q b ((Frontier.pending_of_pop hpop).2 (.inr hq)),
    h _ _ ((Frontier.pending_of_pop hpop).2 (.inl ⟨rfl, rfl⟩))⟩

/-- **Visiting a solved node leaves less than the node's load**, and one more
node is solved. -/
theorem load_visit (hs : AllBoxed p s.frontier) (hq : IsBoxed p q) (heps : (0 : α) ≤ epsilon)
    (hkeeps : KeepsTo q reply.solution) :
    AllBoxed p ((s.record q reply).visit epsilon q reply.solution).frontier ∧
    ((s.record q reply).visit epsilon q reply.solution).report.nodesSolved =
      s.report.nodesSolved + 1 ∧
    load p ((s.record q reply).visit epsilon q reply.solution).frontier <
      nodeLoad p q + load p s.frontier := by
  have hload := nodeLoad_pos hq
  rcases visit_cases epsilon q reply.solution (s.record q reply) with
    ⟨-, heq⟩ | ⟨-, -, -, heq⟩ | ⟨f, hfeas, -, hf, heq⟩ <;> rw [heq]
  · exact ⟨hs, rfl, Nat.lt_add_of_pos_left hload⟩
  · exact ⟨hs, rfl, Nat.lt_add_of_pos_left hload⟩
  · obtain ⟨hfloor, hceil, hle⟩ := hkeeps.children hq heps hfeas hf
    refine ⟨fun q' b hp => ?_, rfl, ?_⟩
    · rcases Frontier.pending_pushChildren.1 hp with ⟨rfl | rfl, -⟩ | hp
      · exact hfloor
      · exact hceil
      · exact hs q' b hp
    · -- two children with weights `v` and `w` have `2 * (v + w) - 2` nodes
      have hpos := hq.weight_pos
      have hfpos := hfloor.weight_pos
      have hcpos := hceil.weight_pos
      have hsplit : load p (s.frontier.pushChildren (floorChild q f) (ceilChild q f)
          reply.solution.objective) < nodeLoad p q + load p s.frontier := by
        rw [load_pushChildren]
        unfold nodeLoad
        omega
      exact hsplit

/-! ## Runs -/

/-- **What is known of a state**, with a bound on all nodes. -/
structure Ending (solver : Solver σ α) (cfg : Config α) (memory : σ) (p : Problem α) (bound : ℕ)
    (s : State σ α) : Prop where
  /-- The search passes through it. -/
  passes : Passes solver cfg memory p s
  /-- Pending problems are boxed. -/
  boxed : AllBoxed p s.frontier
  /-- The nodes solved, and those that there can still be, are within the bound. -/
  le : s.report.nodesSolved + load p s.frontier ≤ bound

variable {bound : ℕ}

/-- **Every step can be made**, and lowers the load. -/
theorem Ending.exists_step (h : Ending solver cfg memory p bound s) (heps : (0 : α) ≤ cfg.epsilon)
    (hsolver : ∀ s q, Given solver cfg memory p s q →
      ∃ reply, solver.run s.memory q = some reply ∧ KeepsTo q reply.solution)
    (hpop : s.frontier.pop = some (node, frontier)) :
    ∃ s', step solver cfg.epsilon node { s with frontier } = some s' ∧
      Ending solver cfg memory p bound s' ∧ load p s'.frontier < load p s.frontier := by
  obtain ⟨hboxed, hnode⟩ := h.boxed.pop hpop
  have hload := load_of_pop (p := p) hpop
  have hle := h.le
  by_cases hskip : node.bound ≤ s.incumbent
  · have hnodeLoad := nodeLoad_pos hnode
    have hstep : step solver cfg.epsilon node { s with frontier } = some _ := step_skip hskip
    refine ⟨_, hstep, ⟨h.passes.step hpop hstep, hboxed, ?_⟩, ?_⟩
    · have hrest : s.report.nodesSolved + load p frontier ≤ bound := by omega
      exact hrest
    · have hrest : load p frontier < load p s.frontier := by omega
      exact hrest
  · obtain ⟨reply, hrun, hkeeps⟩ := hsolver _ _ (.node h.passes hpop hskip)
    have hstep : step solver cfg.epsilon node { s with frontier } = some _ :=
      step_solve hskip hrun
    have hrest : AllBoxed p ({ s with frontier } : State σ α).frontier := hboxed
    obtain ⟨hboxed', hsolved, hlt⟩ := load_visit hrest hnode heps hkeeps
    have hsolved' : ({ s with frontier } : State σ α).report.nodesSolved =
        s.report.nodesSolved := rfl
    have hload' : load p ({ s with frontier } : State σ α).frontier = load p frontier := rfl
    exact ⟨_, hstep, ⟨h.passes.step hpop hstep, hboxed', by omega⟩, by omega⟩

/-- **A search over boxed integer variables ends**, in both orders.

Every integer variable `j` has a unit row with the finite right-hand side
`u j`, and the wrapped solver keeps to the unit rows of the problems that it
is given; otherwise it may answer anything. Then the search ends after at
most `2 * N - 1` nodes, where `N` is the number of integral points up to the
upper bounds. -/
theorem search_ends {u : ℕ → ℚ} (hu : ∀ j, p.isInteger j = true → ∃ r ∈ p.rows,
      r.coefficients = Scalar.unitList p.numVariables j 1 ∧
        Scalar.Valued.value? r.rhs = some (u j))
    (heps : (0 : α) ≤ cfg.epsilon)
    (hsolver : ∀ s q, Given solver cfg memory p s q →
      ∃ reply, solver.run s.memory q = some reply ∧ KeepsTo q reply.solution)
    (hlimit : 2 * p.boxSize u - 1 ≤ limit) :
    ∃ outcome, search solver cfg limit memory p = some outcome ∧
      outcome.report.nodesSolved ≤ 2 * p.boxSize u - 1 := by
  have hbox := Problem.boxed_firstBox hu
  have hp : IsBoxed p p := ⟨_, hbox⟩
  have hweight : weight p p ≤ p.boxSize u :=
    (Problem.weight_le hbox).trans_eq (Problem.cells_firstBox p u)
  have hpos := hp.weight_pos
  obtain ⟨root, hrun, hkeeps⟩ := hsolver _ _ .root
  have hrun' : solver.run memory p = some root := hrun
  by_cases hinf : root.solution.isInfeasible = true
  · obtain ⟨outcome, hsearch, hone⟩ := exists_search_of_isInfeasible cfg hrun hinf
    exact ⟨outcome, hsearch, by omega⟩
  · -- the root leaves less than its own load, which is that of the whole box
    have hfeas : root.solution.isInfeasible = false := Bool.eq_false_of_not_eq_true hinf
    have hempty : AllBoxed p (State.initial cfg memory p).frontier :=
      fun q b hq => absurd hq (Frontier.not_pending_empty _)
    obtain ⟨hboxed, hsolved, hlt⟩ := load_visit hempty hp heps hkeeps
    have hsolved' : (State.initial cfg memory p).report.nodesSolved = 0 := rfl
    have hload' : load p (State.initial cfg memory p).frontier = 0 := rfl
    have hnodeLoad : nodeLoad p p = 2 * weight p p - 1 := rfl
    have hstart : Ending solver cfg memory p (2 * p.boxSize u - 1)
        ((solvedRoot cfg memory p root).visit cfg.epsilon p root.solution) :=
      ⟨.root hrun hfeas, hboxed, by unfold solvedRoot; omega⟩
    have henough : load p
        ((solvedRoot cfg memory p root).visit cfg.epsilon p root.solution).frontier ≤ limit := by
      unfold solvedRoot
      omega
    obtain ⟨s, hs, hend⟩ := explore_isSome (Ending solver cfg memory p (2 * p.boxSize u - 1))
      (fun s => load p s.frontier) (fun hs hpop => hs.exists_step heps hsolver hpop) hstart henough
    refine ⟨_, search_eq_of_explore hrun hfeas hs, ?_⟩
    have hle := hend.le
    have hcount : s.finish.outcome.report.nodesSolved = s.report.nodesSolved := rfl
    omega

/-- Whether the values of all integer variables respect the unit rows. -/
def respectsAll (q : Problem α) (values : List α) : Bool :=
  q.integerVariables.all fun j => (values[j]?).any fun v => decide (q.Respects j v)

/-- Gives the first of some answers that respects the unit rows of a problem. -/
def firstRespecting (answers : List (Solution α)) (q : Problem α) : Solution α :=
  ((answers.find? fun a => respectsAll q a.values)).getD (Solution.infeasible q.numVariables)

/-- Such an answer keeps to the bounds. -/
theorem keepsTo_firstRespecting {answers : List (Solution α)}
    (h : ∀ a ∈ answers, ∀ v ∈ a.values, (Scalar.Valued.value? v).isSome = true) (q : Problem α) :
    KeepsTo q (firstRespecting answers q) := by
  unfold firstRespecting
  cases hfind : answers.find? fun a => respectsAll q a.values with
  | none => exact .inl rfl
  | some a =>
    have hmem : a ∈ answers := List.mem_of_find?_eq_some hfind
    have hall : respectsAll q a.values = true := by
      have hfound := List.find?_some hfind
      exact hfound
    refine .inr fun j hj => ?_
    have hany := List.all_eq_true.1 hall j (Problem.mem_integerVariables.2 hj)
    obtain ⟨v, hv, hrespects⟩ := (Option.any_eq_true _ _).1 hany
    have hsome := h a hmem v (List.mem_of_getElem? hv)
    obtain ⟨x, hx⟩ := Option.isSome_iff_exists.1 hsome
    exact ⟨v, x, hv, hx, of_decide_eq_true hrespects⟩

/-- Two integer variables with upper bounds between integers. -/
def twoBoxed : Problem Double where
  objective := [2.0, 1.0]
  rows := [⟨[1, 0], 1.5⟩, ⟨[0, 1], 0.5⟩]
  integer := [true, true]
  objective_ne_nil := List.cons_ne_nil _ _
  rows_ne_nil := List.cons_ne_nil _ _
  length_coefficients := List.forall_mem_cons.2 ⟨rfl, List.forall_mem_singleton.2 rfl⟩
  length_integer := by decide

/-- Points of the box, of which only the last is integral. -/
def boxedAnswers : List (Solution Double) :=
  [⟨.number 3.5, [1.5, 0.5]⟩, ⟨.number 2.5, [1.0, 0.5]⟩, ⟨.number 2.0, [1.0, 0.0]⟩]

/-- Over these points the search ends within the bound, in both orders, after
two splits. -/
theorem search_ends_twoBoxed :
    (∃ o, search (Solver.pure (firstRespecting boxedAnswers)) ⟨0, .depthFirst⟩ 11 () twoBoxed =
      some o ∧ o.report.nodesSolved = 5 ∧ o.report.nodesSolved ≤ 11) ∧
    ∃ o, search (Solver.pure (firstRespecting boxedAnswers)) ⟨0, .bestFirst⟩ 11 () twoBoxed =
      some o ∧ o.report.nodesSolved = 5 ∧ o.report.nodesSolved ≤ 11 := by
  have hbounds : ∀ j, twoBoxed.isInteger j = true → ∃ r ∈ twoBoxed.rows,
      r.coefficients = Scalar.unitList twoBoxed.numVariables j 1 ∧
        Scalar.Valued.value? r.rhs = some (if j = 0 then 3 / 2 else 1 / 2) := by
    intro j hj
    have hlt : j < 2 := Problem.lt_of_isInteger hj
    obtain rfl | rfl : j = 0 ∨ j = 1 := by omega
    · exact ⟨⟨[1, 0], 1.5⟩, List.mem_cons_self, rfl, by decide +kernel⟩
    · exact ⟨⟨[0, 1], 0.5⟩, List.mem_cons_of_mem _ List.mem_cons_self, rfl, by decide +kernel⟩
  have hfinite : ∀ a ∈ boxedAnswers, ∀ v ∈ a.values,
      (Scalar.Valued.value? v).isSome = true := by decide +kernel
  have hsize : twoBoxed.boxSize (fun j => if j = 0 then 3 / 2 else 1 / 2) = 6 := by decide +kernel
  have hends : ∀ order, ∃ o, search (Solver.pure (firstRespecting boxedAnswers)) ⟨0, order⟩ 11 ()
      twoBoxed = some o ∧ o.report.nodesSolved = 5 ∧ o.report.nodesSolved ≤ 11 := by
    intro order
    have hsolved : ((search (Solver.pure (firstRespecting boxedAnswers)) ⟨0, order⟩ 11 ()
        twoBoxed).map (·.report.nodesSolved)) = some 5 := by
      cases order <;> decide +kernel
    have hzero : (0 : Double) ≤ (⟨0, order⟩ : Config Double).epsilon := by
      show (0 : Double) ≤ 0
      decide +kernel
    obtain ⟨o, ho, hle⟩ : ∃ o, search (Solver.pure (firstRespecting boxedAnswers)) ⟨0, order⟩ 11
        () twoBoxed = some o ∧ o.report.nodesSolved ≤
          2 * twoBoxed.boxSize (fun j => if j = 0 then 3 / 2 else 1 / 2) - 1 :=
      search_ends hbounds hzero
        (fun s q _ => ⟨⟨firstRespecting boxedAnswers q, [], ()⟩, rfl,
          keepsTo_firstRespecting hfinite q⟩) (by rw [hsize])
    rw [ho, Option.map_some, Option.some.injEq] at hsolved
    exact ⟨o, ho, hsolved, by omega⟩
  exact ⟨hends .depthFirst, hends .bestFirst⟩

end Search

end Milp
