import Mathlib.Logic.Relation
import Milp.Proofs.Search.Run
/-!
# The states that a search passes through

A search that does not end has no outcome, but it passes through states all
the same (`Passes`): the one in which its root has been visited, and from
there one for every pending node it takes. The states are given by equations
(`visit_cases`, `step_eq_some`), so that every part of them can be read off.
What holds of all states that are passed through holds of the last one of a
search that ends (`exists_passes_of_search`); and a search ends when every
step lowers some measure (`explore_isSome`).
-/

namespace Milp

namespace Search

variable {σ α : Type} [Scalar α] {epsilon : α} {solver : Solver σ α}
variable {s s' rest : State σ α} {node : Node α} {frontier : Frontier α} {p q : Problem α}
variable {answer : Solution α} {cfg : Config α} {limit : ℕ} {memory : σ} {outcome : Outcome σ α}

/-! ## Steps -/

/-- The state in which a solved node is looked at. -/
def State.look (s : State σ α) (q : Problem α) (answer : Solution α) : State σ α :=
  s.note (.visitingNode q.numRows answer.objective)

/-- **Visiting follows the verdict** on the solved node. -/
theorem visit_eq (epsilon : α) (q : Problem α) (answer : Solution α) (s : State σ α) :
    s.visit epsilon q answer =
      match judge epsilon s.incumbent q answer with
      | .prune => (s.look q answer).prune
      | .accept => ((s.look q answer).note (.newIncumbent answer.objective)).accept answer
      | .branch f =>
        ((s.look q answer).note (.branching f.index f.value)).split q f answer.objective := rfl

/-- **What visiting makes of a state**: nothing but one more pruned node, a
new incumbent, or two pending children. -/
theorem visit_cases (epsilon : α) (q : Problem α) (answer : Solution α) (s : State σ α) :
    ((answer.isInfeasible = true ∨ answer.objective ≤ s.incumbent) ∧
      s.visit epsilon q answer = (s.look q answer).prune) ∨
    (answer.isInfeasible = false ∧ ¬ answer.objective ≤ s.incumbent ∧
      branching q epsilon answer.values = none ∧
      s.visit epsilon q answer =
        ((s.look q answer).note (.newIncumbent answer.objective)).accept answer) ∨
    ∃ f, answer.isInfeasible = false ∧ ¬ answer.objective ≤ s.incumbent ∧
      branching q epsilon answer.values = some f ∧
      s.visit epsilon q answer =
        ((s.look q answer).note (.branching f.index f.value)).split q f answer.objective := by
  by_cases hworse : answer.isInfeasible = true ∨ answer.objective ≤ s.incumbent
  · exact .inl ⟨hworse, by rw [visit_eq, judge_eq_prune hworse]⟩
  obtain ⟨hinf, hbetter⟩ := not_or.1 hworse
  have hfeas : answer.isInfeasible = false := Bool.not_eq_true _ ▸ hinf
  cases hb : branching q epsilon answer.values with
  | none => exact .inr (.inl ⟨hfeas, hbetter, rfl, by rw [visit_eq, judge_eq_accept hworse hb]⟩)
  | some f =>
    exact .inr (.inr ⟨f, hfeas, hbetter, rfl, by rw [visit_eq, judge_eq_branch hworse hb]⟩)

/-- Visiting calls no solver. -/
@[simp] theorem calls_visit (epsilon : α) (q : Problem α) (answer : Solution α) (s : State σ α) :
    (s.visit epsilon q answer).calls = s.calls := by
  rcases visit_cases epsilon q answer s with ⟨-, h⟩ | ⟨-, -, -, h⟩ | ⟨f, -, -, -, h⟩ <;> rw [h] <;>
    rfl

/-- The wrapped solver remembers what it did. -/
@[simp] theorem memory_visit (epsilon : α) (q : Problem α) (answer : Solution α)
    (s : State σ α) : (s.visit epsilon q answer).memory = s.memory := by
  rcases visit_cases epsilon q answer s with ⟨-, h⟩ | ⟨-, -, -, h⟩ | ⟨f, -, -, -, h⟩ <;> rw [h] <;>
    rfl

/-- **What a step makes of a state** without the node that is taken. -/
theorem step_eq_some (h : step solver epsilon node rest = some s') :
    (node.bound ≤ rest.incumbent ∧ s' = (rest.note (.skippingNode node.bound)).prune) ∨
    (¬ node.bound ≤ rest.incumbent ∧ ∃ reply, solver.run rest.memory node.problem = some reply ∧
      s' = (rest.record node.problem reply).visit epsilon node.problem reply.solution) := by
  unfold step at h
  split at h
  · rename_i hle
    exact .inl ⟨hle, (Option.some.inj h).symm⟩
  · rename_i hlt
    obtain ⟨reply, hrun, hs⟩ := Option.map_eq_some_iff.1 h
    exact .inr ⟨hlt, reply, hrun, hs.symm⟩

/-- A node that cannot beat the incumbent is skipped. -/
theorem step_skip (h : node.bound ≤ rest.incumbent) :
    step solver epsilon node rest = some (rest.note (.skippingNode node.bound)).prune :=
  if_pos h

/-- Every other one is solved and visited. -/
theorem step_solve {reply : Reply σ α} (h : ¬ node.bound ≤ rest.incumbent)
    (hrun : solver.run rest.memory node.problem = some reply) :
    step solver epsilon node rest =
      some ((rest.record node.problem reply).visit epsilon node.problem reply.solution) := by
  rw [step, if_neg h, hrun, Option.map_some]

/-- **One step of an exploration**: the node that waits first is taken. -/
def Steps (solver : Solver σ α) (epsilon : α) (s s' : State σ α) : Prop :=
  ∃ node frontier, s.frontier.pop = some (node, frontier) ∧
    step solver epsilon node { s with frontier } = some s'

/-- **An exploration that ends** makes steps until no node waits. -/
theorem steps_of_explore (h : explore solver epsilon limit s = some s') :
    Relation.ReflTransGen (Steps solver epsilon) s s' ∧ s'.frontier.pop = none :=
  explore_induction (Relation.ReflTransGen (Steps solver epsilon) s)
    (fun _ node frontier _ hs hpop hstep => hs.tail ⟨node, frontier, hpop, hstep⟩) h .refl

/-- Steps until no node waits are an exploration that ends. -/
theorem exists_explore_of_steps (h : Relation.ReflTransGen (Steps solver epsilon) s s')
    (hnone : s'.frontier.pop = none) : ∃ limit, explore solver epsilon limit s = some s' := by
  induction h using Relation.ReflTransGen.head_induction_on with
  | refl =>
    refine ⟨0, ?_⟩
    unfold explore
    rw [hnone]
  | head hstep _ ih =>
    obtain ⟨node, frontier, hpop, hstep⟩ := hstep
    obtain ⟨limit, hlimit⟩ := ih
    refine ⟨limit + 1, ?_⟩
    unfold explore
    simp only [hpop, hstep, Option.bind_some, hlimit]

/-! ## Passing through -/

/-- **The states that a search passes through** once its root is visited. -/
inductive Passes (solver : Solver σ α) (cfg : Config α) (memory : σ) (p : Problem α) :
    State σ α → Prop
  /-- The root is solved, has a point, and is visited. -/
  | root {root : Reply σ α} : solver.run memory p = some root →
    root.solution.isInfeasible = false →
    Passes solver cfg memory p
      ((solvedRoot cfg memory p root).visit cfg.epsilon p root.solution)
  /-- A pending node is taken. -/
  | step {s s' : State σ α} {node : Node α} {frontier : Frontier α} :
    Passes solver cfg memory p s → s.frontier.pop = some (node, frontier) →
    Search.step solver cfg.epsilon node { s with frontier } = some s' →
    Passes solver cfg memory p s'

/-- Steps from a state that is passed through lead to such states. -/
theorem Passes.steps (h : Passes solver cfg memory p s)
    (hsteps : Relation.ReflTransGen (Steps solver cfg.epsilon) s s') :
    Passes solver cfg memory p s' := by
  induction hsteps with
  | refl => exact h
  | tail _ hstep ih =>
    obtain ⟨node, frontier, hpop, hstep⟩ := hstep
    exact ih.step hpop hstep

/-- **A search that ends** ends at its root, which is infeasible, or in a
state that it passes through and in which no node waits. -/
theorem exists_passes_of_search (h : search solver cfg limit memory p = some outcome) :
    (∃ root, solver.run memory p = some root ∧ root.solution.isInfeasible = true ∧
      outcome.report = ⟨root.solution, 1, 0, []⟩ ∧ outcome.calls = [⟨p, root.solution⟩]) ∨
    ∃ s, Passes solver cfg memory p s ∧ s.frontier.pop = none ∧ outcome = s.finish.outcome := by
  obtain ⟨root, hroot, h⟩ := Option.bind_eq_some_iff.1 h
  split at h
  · rename_i hinf
    cases h
    exact .inl ⟨root, hroot, hinf, rfl, rfl⟩
  · rename_i hfeas
    obtain ⟨s, hs, h⟩ := Option.bind_eq_some_iff.1 h
    cases h
    have hfirst : Passes solver cfg memory p
        ((solvedRoot cfg memory p root).visit cfg.epsilon p root.solution) :=
      .root hroot (Bool.not_eq_true _ ▸ hfeas)
    obtain ⟨hsteps, hnone⟩ := steps_of_explore hs
    exact .inr ⟨s, hfirst.steps hsteps, hnone, rfl⟩

/-- **What solving, visiting and skipping keep holds all the way.** `Inv`
holds of the state before the root is solved; `Node` says what is known of a
problem that is taken. -/
theorem Passes.induction (hpass : Passes solver cfg memory p s) (Inv : State σ α → Prop)
    (Node : State σ α → Problem α → Prop) (hinit : Inv (State.initial cfg memory p))
    (hroot : Node (State.initial cfg memory p) p)
    (hpop : ∀ {s node frontier}, Inv s → s.frontier.pop = some (node, frontier) →
      Inv { s with frontier } ∧ Node { s with frontier } node.problem)
    (hskip : ∀ {s bound}, Inv s → bound ≤ s.incumbent →
      Inv (s.note (.skippingNode bound)).prune)
    (hvisit : ∀ {s q reply}, Inv s → Node s q → solver.run s.memory q = some reply →
      Inv ((s.record q reply).visit cfg.epsilon q reply.solution)) : Inv s := by
  induction hpass with
  | root hrun hfeas => exact hvisit hinit hroot hrun
  | step hs hnode hstep ih =>
    obtain ⟨hrest, hproblem⟩ := hpop ih hnode
    rcases step_eq_some hstep with ⟨hle, rfl⟩ | ⟨hlt, reply, hrun, rfl⟩
    · exact hskip hrest hle
    · exact hvisit hrest hproblem hrun

/-- **The problems that the wrapped solver is given**, each with the state in
which it is. -/
inductive Given (solver : Solver σ α) (cfg : Config α) (memory : σ) (p : Problem α) :
    State σ α → Problem α → Prop
  /-- The first one is the root. -/
  | root : Given solver cfg memory p (State.initial cfg memory p) p
  /-- After it, nodes are taken that are not skipped. -/
  | node {s : State σ α} {node : Node α} {frontier : Frontier α} :
    Passes solver cfg memory p s → s.frontier.pop = some (node, frontier) →
    ¬ node.bound ≤ s.incumbent → Given solver cfg memory p { s with frontier } node.problem

/-- **Every call on record** was given to the wrapped solver. -/
theorem Passes.exists_given (hpass : Passes solver cfg memory p s) {c : Call α}
    (hc : c ∈ s.calls) : ∃ s', Given solver cfg memory p s' c.problem := by
  induction hpass with
  | root hrun hfeas =>
    rw [calls_visit] at hc
    rw [List.mem_singleton.1 hc]
    exact ⟨_, .root⟩
  | step hs hpop hstep ih =>
    rcases step_eq_some hstep with ⟨-, rfl⟩ | ⟨hlt, reply, -, rfl⟩
    · exact ih hc
    · rw [calls_visit] at hc
      rcases List.mem_cons.1 hc with rfl | hc
      · exact ⟨_, .node hs hpop hlt⟩
      · exact ih hc

/-- So were the calls of a search that ends. -/
theorem exists_given_of_search (h : search solver cfg limit memory p = some outcome) {c : Call α}
    (hc : c ∈ outcome.calls) : ∃ s, Given solver cfg memory p s c.problem := by
  rcases exists_passes_of_search h with ⟨root, -, -, -, hcalls⟩ | ⟨s, hpass, -, rfl⟩
  · rw [hcalls] at hc
    rw [List.mem_singleton.1 hc]
    exact ⟨_, .root⟩
  · exact hpass.exists_given (List.mem_reverse.1 hc)

/-! ## Ending -/

/-- A search whose root is infeasible has its outcome at once. -/
theorem search_of_isInfeasible (cfg : Config α) (limit : ℕ) {root : Reply σ α}
    (hrun : solver.run memory p = some root) (hinf : root.solution.isInfeasible = true) :
    ∃ outcome, search solver cfg limit memory p = some outcome ∧
      outcome.report = ⟨root.solution, 1, 0, []⟩ ∧ outcome.calls = [⟨p, root.solution⟩] ∧
      outcome.memory = root.memory := by
  let ended := (solvedRoot cfg memory p root).note .rootInfeasible
  let last : State σ α := { ended with report := { ended.report with solution := root.solution } }
  refine ⟨last.outcome, ?_, rfl, rfl, rfl⟩
  rw [search, hrun, Option.bind_eq_bind, Option.bind_some, if_pos hinf]
  rfl

/-- So it ends with one node. -/
theorem exists_search_of_isInfeasible (cfg : Config α) {root : Reply σ α}
    (hrun : solver.run memory p = some root) (hinf : root.solution.isInfeasible = true) :
    ∃ outcome, search solver cfg limit memory p = some outcome ∧
      outcome.report.nodesSolved = 1 := by
  obtain ⟨outcome, hsearch, hreport, -⟩ := search_of_isInfeasible cfg limit hrun hinf
  exact ⟨outcome, hsearch, congrArg Report.nodesSolved hreport⟩

/-- Any other one comes to the state in which its exploration ends. -/
theorem search_eq_of_explore {root : Reply σ α} (hrun : solver.run memory p = some root)
    (hfeas : root.solution.isInfeasible = false)
    (hs : explore solver cfg.epsilon limit
      ((solvedRoot cfg memory p root).visit cfg.epsilon p root.solution) = some s) :
    search solver cfg limit memory p = some s.finish.outcome := by
  have hexplore : explore solver cfg.epsilon limit
      (((State.initial cfg memory p).record p root).visit cfg.epsilon p root.solution) =
      some s := hs
  rw [search, hrun, Option.bind_eq_bind, Option.bind_some, hfeas, if_neg Bool.false_ne_true,
    hexplore]
  rfl

/-- **A search ends** when every step can be made and lowers a measure, and
what every step keeps holds then. -/
theorem explore_isSome (Inv : State σ α → Prop) (load : State σ α → ℕ)
    (hstep : ∀ {s node frontier}, Inv s → s.frontier.pop = some (node, frontier) →
      ∃ s', step solver epsilon node { s with frontier } = some s' ∧ Inv s' ∧ load s' < load s)
    (hs : Inv s) (hlimit : load s ≤ limit) :
    ∃ s', explore solver epsilon limit s = some s' ∧ Inv s' := by
  induction limit generalizing s with
  | zero =>
    unfold explore
    cases hpop : s.frontier.pop with
    | none => exact ⟨s, rfl, hs⟩
    | some next =>
      -- there is a step that lowers the measure, which is zero
      obtain ⟨node, frontier⟩ := next
      obtain ⟨u, -, -, hlt⟩ := hstep hs hpop
      omega
  | succ limit ih =>
    unfold explore
    cases hpop : s.frontier.pop with
    | none => exact ⟨s, rfl, hs⟩
    | some next =>
      obtain ⟨node, frontier⟩ := next
      obtain ⟨u, hu, hinv, hlt⟩ := hstep hs hpop
      obtain ⟨s', hs', hinv'⟩ := ih hinv (by omega)
      exact ⟨s', by simp only [hu, Option.bind_some, hs'], hinv'⟩

end Search

end Milp
