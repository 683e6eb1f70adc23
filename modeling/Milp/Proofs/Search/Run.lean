import Milp.Proofs.Search.Branching
import Milp.Proofs.Search.Frontier
import Milp.Search.Run
/-!
# What a search does step by step

A solved node is visited in one of three ways (`Visited`), and a pending
node is skipped or solved and visited (`step_cases`). Whatever every step
keeps holds at the end, where no node waits (`explore_induction`). In
particular what a search comes to is the answer to a problem that it reached
and did not split (`solution_of_search`).
-/

namespace Milp

namespace Search

variable {σ α : Type} [Scalar α] {epsilon : α} {solver : Solver σ α}

/-! ## Steps -/

/-- **How a solved node is visited**: from the state `s` to the state `s'`,
given the answer to the problem `q`. -/
inductive Visited (epsilon : α) (q : Problem α) (answer : Solution α) (s s' : State σ α) : Prop
  /-- It cannot beat the incumbent. -/
  | pruned (worse : answer.isInfeasible = true ∨ answer.objective ≤ s.incumbent)
      (frontier_eq : s'.frontier = s.frontier)
      (solution_eq : s'.report.solution = s.report.solution)
  /-- It is the new incumbent. -/
  | accepted (feasible : answer.isInfeasible = false) (better : ¬ answer.objective ≤ s.incumbent)
      (integral : branching q epsilon answer.values = none)
      (frontier_eq : s'.frontier = s.frontier) (solution_eq : s'.report.solution = answer)
  /-- It is split at a variable. -/
  | split (f : Fractional α) (feasible : answer.isInfeasible = false)
      (fractional : branching q epsilon answer.values = some f)
      (frontier_eq : s'.frontier =
        s.frontier.pushChildren (floorChild q f) (ceilChild q f) answer.objective)
      (solution_eq : s'.report.solution = s.report.solution)

variable {s s' rest : State σ α} {node : Node α} {p q : Problem α} {answer : Solution α}

theorem judge_eq_prune {incumbent : Level α}
    (h : answer.isInfeasible = true ∨ answer.objective ≤ incumbent) :
    judge epsilon incumbent q answer = .prune :=
  if_pos (by simpa using h)

theorem judge_eq_accept {incumbent : Level α}
    (h : ¬ (answer.isInfeasible = true ∨ answer.objective ≤ incumbent))
    (hb : branching q epsilon answer.values = none) :
    judge epsilon incumbent q answer = .accept := by
  rw [judge, if_neg (by simpa using h), hb]

theorem judge_eq_branch {incumbent : Level α} {f : Fractional α}
    (h : ¬ (answer.isInfeasible = true ∨ answer.objective ≤ incumbent))
    (hb : branching q epsilon answer.values = some f) :
    judge epsilon incumbent q answer = .branch f := by
  rw [judge, if_neg (by simpa using h), hb]

/-- **Visiting** is one of the three. -/
theorem visited_visit (epsilon : α) (q : Problem α) (answer : Solution α) (s : State σ α) :
    Visited epsilon q answer s (s.visit epsilon q answer) := by
  have hincumbent : ∀ e, (s.note e).incumbent = s.incumbent := fun _ => rfl
  by_cases hworse : answer.isInfeasible = true ∨ answer.objective ≤ s.incumbent
  · simp only [State.visit, hincumbent, judge_eq_prune hworse]
    exact .pruned hworse rfl rfl
  · obtain ⟨hinf, hle⟩ := not_or.1 hworse
    rw [Bool.not_eq_true] at hinf
    cases hb : branching q epsilon answer.values with
    | none =>
      simp only [State.visit, hincumbent, judge_eq_accept hworse hb]
      exact .accepted hinf hle hb rfl rfl
    | some f =>
      simp only [State.visit, hincumbent, judge_eq_branch hworse hb]
      exact .split f hinf hb rfl rfl

/-- **A step** skips the node or solves and visits it. -/
theorem step_cases (h : step solver epsilon node rest = some s') :
    (node.bound ≤ rest.incumbent ∧ s'.frontier = rest.frontier ∧
      s'.report.solution = rest.report.solution) ∨
    ∃ reply, solver.run rest.memory node.problem = some reply ∧
      Visited epsilon node.problem reply.solution (rest.record node.problem reply) s' := by
  unfold step at h
  split at h
  · rename_i hle
    cases h
    exact .inl ⟨hle, rfl, rfl⟩
  · obtain ⟨reply, hreply, rfl⟩ := Option.map_eq_some_iff.1 h
    exact .inr ⟨reply, hreply, visited_visit _ _ _ _⟩

/-! ## Runs -/

/-- **What every step keeps holds at the end**, where no node waits. -/
theorem explore_induction (Inv : State σ α → Prop)
    (hstep : ∀ s node frontier s', Inv s → s.frontier.pop = some (node, frontier) →
      step solver epsilon node { s with frontier } = some s' → Inv s') {limit : ℕ}
    (h : explore solver epsilon limit s = some s') (hs : Inv s) :
    Inv s' ∧ s'.frontier.pop = none := by
  induction limit generalizing s with
  | zero =>
    unfold explore at h
    cases hpop : s.frontier.pop with
    | none =>
      simp only [hpop, Option.some.injEq] at h
      exact h ▸ ⟨hs, hpop⟩
    | some next => simp [hpop] at h
  | succ limit ih =>
    unfold explore at h
    cases hpop : s.frontier.pop with
    | none =>
      simp only [hpop, Option.some.injEq] at h
      exact h ▸ ⟨hs, hpop⟩
    | some next =>
      obtain ⟨node, frontier⟩ := next
      simp only [hpop] at h
      obtain ⟨u, hu, h⟩ := Option.bind_eq_some_iff.1 h
      exact ih h (hstep s node frontier u hs hpop hu)

variable {cfg : Config α} {limit : ℕ} {memory : σ} {outcome : Outcome σ α}

/-- The state right after the root is solved. -/
def solvedRoot (cfg : Config α) (memory : σ) (p : Problem α) (root : Reply σ α) : State σ α :=
  (State.initial cfg memory p).record p root

/-- **A search** solves the root and, unless that is infeasible, visits it and
explores. -/
theorem search_cases (h : search solver cfg limit memory p = some outcome) :
    ∃ root, solver.run memory p = some root ∧
      ((root.solution.isInfeasible = true ∧ outcome.report.solution = root.solution) ∨
      (root.solution.isInfeasible = false ∧ ∃ s, explore solver cfg.epsilon limit
        ((solvedRoot cfg memory p root).visit cfg.epsilon p root.solution) = some s ∧
        outcome = s.finish.outcome)) := by
  obtain ⟨root, hroot, h⟩ := Option.bind_eq_some_iff.1 h
  refine ⟨root, hroot, ?_⟩
  split at h
  · rename_i hinf
    cases h
    exact .inl ⟨hinf, rfl⟩
  · rename_i hinf
    obtain ⟨s, hs, h⟩ := Option.bind_eq_some_iff.1 h
    cases h
    exact .inr ⟨Bool.not_eq_true _ ▸ hinf, s, hs, rfl⟩

/-! ## What is reached -/

/-- **A property of problems that splitting keeps.** -/
def Closed (solver : Solver σ α) (epsilon : α) (Reach : Problem α → Prop) : Prop :=
  ∀ memory q reply f, Reach q → solver.run memory q = some reply →
    reply.solution.isInfeasible = false → branching q epsilon reply.solution.values = some f →
    Reach (floorChild q f) ∧ Reach (ceilChild q f)

/-- The answer to a problem that is not split: it has a point, and there is
nothing to branch on. -/
structure Leaf (solver : Solver σ α) (epsilon : α) (q : Problem α) (answer : Solution α) :
    Prop where
  /-- The wrapped solver gave it. -/
  run_eq : ∃ memory reply, solver.run memory q = some reply ∧ reply.solution = answer
  /-- Something is feasible. -/
  feasible : answer.isInfeasible = false
  /-- The integer variables are integral. -/
  integral : IntegralUpTo q epsilon answer.values

variable {Reach : Problem α → Prop}

/-- What a state has reached: pending problems, and a leaf as the incumbent
unless there is none. -/
structure Reached (solver : Solver σ α) (epsilon : α) (Reach : Problem α → Prop)
    (s : State σ α) : Prop where
  /-- Pending problems are reached. -/
  pending : ∀ q b, s.frontier.Pending q b → Reach q
  /-- The incumbent is a leaf. -/
  incumbent : s.incumbent = .bottom ∨
    ∃ q, Reach q ∧ Leaf solver epsilon q s.report.solution

/-- A state with the same frontier and solution has reached the same. -/
theorem Reached.congr (hs : Reached solver epsilon Reach s) (hf : s'.frontier = s.frontier)
    (hsol : s'.report.solution = s.report.solution) : Reached solver epsilon Reach s' := by
  refine ⟨hf ▸ hs.pending, ?_⟩
  rw [State.incumbent, hsol]
  exact hs.incumbent

/-- Visiting a problem that is reached keeps to what is reached. -/
theorem Reached.visited (hclosed : Closed solver epsilon Reach) {memory : σ} {reply : Reply σ α}
    (hs : Reached solver epsilon Reach s) (hq : Reach q) (hrun : solver.run memory q = some reply)
    (h : Visited epsilon q reply.solution s s') : Reached solver epsilon Reach s' := by
  cases h with
  | pruned _ hf hsol => exact hs.congr hf hsol
  | accepted hfeas _ hint hf hsol =>
    refine ⟨hf ▸ hs.pending, .inr ⟨q, hq, ?_⟩⟩
    rw [hsol]
    exact ⟨⟨memory, reply, hrun, rfl⟩, hfeas, branching_eq_none_iff.1 hint⟩
  | split f hfeas hfrac hf hsol =>
    obtain ⟨hfloor, hceil⟩ := hclosed memory q reply f hq hrun hfeas hfrac
    refine ⟨fun q' b hp => ?_, ?_⟩
    · rw [hf, Frontier.pending_pushChildren] at hp
      rcases hp with ⟨rfl | rfl, -⟩ | hp
      · exact hfloor
      · exact hceil
      · exact hs.pending q' b hp
    · rw [State.incumbent, hsol]
      exact hs.incumbent

/-- Every step keeps to what is reached. -/
theorem Reached.step (hclosed : Closed solver epsilon Reach) {frontier : Frontier α}
    (hs : Reached solver epsilon Reach s) (hpop : s.frontier.pop = some (node, frontier))
    (h : Search.step solver epsilon node { s with frontier } = some s') :
    Reached solver epsilon Reach s' := by
  -- the node is reached, and so are those that still wait
  have hnode : Reach node.problem :=
    hs.pending _ _ ((Frontier.pending_of_pop hpop).2 (.inl ⟨rfl, rfl⟩))
  have hrest : Reached solver epsilon Reach { s with frontier } :=
    ⟨fun q b hp => hs.pending q b ((Frontier.pending_of_pop hpop).2 (.inr hp)), hs.incumbent⟩
  rcases step_cases h with ⟨-, hf, hsol⟩ | ⟨reply, hrun, hv⟩
  · exact hrest.congr hf hsol
  · have hrecord : Reached solver epsilon Reach
        (State.record { s with frontier } node.problem reply) := hrest.congr rfl rfl
    exact hrecord.visited hclosed hnode hrun hv

/-- Before the root is visited nothing is pending. -/
theorem reached_solvedRoot {root : Reply σ α} :
    Reached solver epsilon Reach (solvedRoot cfg memory p root) :=
  ⟨fun _ _ hq => absurd hq (Frontier.not_pending_empty _), .inl rfl⟩

/-- **What a search comes to** is a leaf that it reached, or that nothing is
feasible. -/
theorem solution_of_search (hclosed : Closed solver cfg.epsilon Reach) (hp : Reach p)
    (h : search solver cfg limit memory p = some outcome) :
    outcome.report.solution.objective = .bottom ∨
      ∃ q, Reach q ∧ Leaf solver cfg.epsilon q outcome.report.solution := by
  obtain ⟨root, hroot, ⟨hinf, hsol⟩ | ⟨-, s, hs, rfl⟩⟩ := search_cases h
  · rw [hsol]
    exact .inl (Level.isBottom_iff.1 hinf)
  · exact (explore_induction (Reached solver cfg.epsilon Reach)
      (fun s node frontier s' hs => hs.step hclosed) hs
      (reached_solvedRoot.visited hclosed hp hroot (visited_visit _ _ _ _))).1.incumbent

end Search

end Milp
