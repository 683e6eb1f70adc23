import Milp.Proofs.Number.Order
import Milp.Proofs.Search.Passage
/-!
# Nothing better is missed

A search is to find the best of some targets, each of which has a level and
lies in some problems. Where a target that lies in a problem is at most the
level of the answer to it, and lies in one of the two children when the
problem is split (`Covering`), every target is at most the level of the
incumbent or lies in a pending problem (`Covered`), whatever the order of
the nodes. So at the end no target is above the incumbent
(`Covering.le_of_search`).
-/

namespace Milp

namespace Search

variable {σ α ι : Type} [Scalar α] {solver : Solver σ α} {epsilon : α}
variable {Reach : Problem α → Prop} {Holds : ι → Problem α → Prop} {level : ι → Level α}

/-- **The answers bound the targets, and splitting keeps them.** -/
structure Covering (solver : Solver σ α) (epsilon : α) (Reach : Problem α → Prop)
    (Holds : ι → Problem α → Prop) (level : ι → Level α) : Prop where
  /-- Splitting a problem that is reached gives problems that are. -/
  closed : Closed solver epsilon Reach
  /-- The levels of the answers are ordered. -/
  isNumber : ∀ {memory q reply}, Reach q → solver.run memory q = some reply →
    reply.solution.objective.IsNumber
  /-- Targets in a problem are at most the level of its answer. -/
  le : ∀ {memory q reply i}, Reach q → solver.run memory q = some reply → Holds i q →
    level i ≤ reply.solution.objective
  /-- The targets in a problem that is split are those in its children. -/
  holds_iff : ∀ {memory q reply f i}, Reach q → solver.run memory q = some reply →
    reply.solution.isInfeasible = false → branching q epsilon reply.solution.values = some f →
    (Holds i q ↔ Holds i (floorChild q f) ∨ Holds i (ceilChild q f))

/-- **Every target is at most the incumbent or waits to be found.** -/
structure Covered (Holds : ι → Problem α → Prop) (level : ι → Level α) (Target : ι → Prop)
    (s : State σ α) : Prop where
  /-- The level of the incumbent is ordered. -/
  isNumber : s.incumbent.IsNumber
  /-- Targets in a pending problem are at most its bound. -/
  le_bound : ∀ q b, s.frontier.Pending q b → ∀ i, Holds i q → level i ≤ b
  /-- Targets are at most the incumbent or in a pending problem. -/
  cover : ∀ i, Target i → level i ≤ s.incumbent ∨ ∃ q b, s.frontier.Pending q b ∧ Holds i q

variable {Target : ι → Prop} {s s' : State σ α} {p q : Problem α} {node : Node α}
variable {frontier : Frontier α} {cfg : Config α} {limit : ℕ} {memory : σ} {reply : Reply σ α}
variable {outcome : Outcome σ α}

/-- A state with the same frontier and incumbent covers the same targets. -/
theorem Covered.congr (h : Covered Holds level Target s) (hf : s'.frontier = s.frontier)
    (hi : s'.incumbent = s.incumbent) : Covered Holds level Target s' where
  isNumber := hi ▸ h.isNumber
  le_bound := hf ▸ h.le_bound
  cover := by
    rw [hf, hi]
    exact h.cover

/-- Without the next node, targets that are not in it are covered. -/
theorem Covered.pop (h : Covered Holds level Target s)
    (hpop : s.frontier.pop = some (node, frontier)) :
    Covered Holds level (fun i => Target i ∧ ¬ Holds i node.problem) { s with frontier } where
  isNumber := h.isNumber
  le_bound q b hq := h.le_bound q b ((Frontier.pending_of_pop hpop).2 (.inr hq))
  cover i hi := by
    refine (h.cover i hi.1).imp_right ?_
    rintro ⟨q, b, hq, hold⟩
    rcases (Frontier.pending_of_pop hpop).1 hq with ⟨rfl, -⟩ | hq
    · exact absurd hold hi.2
    · exact ⟨q, b, hq, hold⟩

/-- Targets in the next node that are at most the incumbent are covered as
well. -/
theorem Covered.of_le (h : Covered Holds level (fun i => Target i ∧ ¬ Holds i q) s)
    (hle : ∀ i, Holds i q → level i ≤ s.incumbent) : Covered Holds level Target s where
  isNumber := h.isNumber
  le_bound := h.le_bound
  cover i hi := by
    by_cases hold : Holds i q
    · exact .inl (hle i hold)
    · exact h.cover i ⟨hi, hold⟩

/-- Two children that hold the targets of their node cover them, with a bound
on those targets. -/
theorem Covered.split {first second : Problem α} {bound : Level α}
    (h : Covered Holds level (fun i => Target i ∧ ¬ Holds i q) s)
    (hiff : ∀ i, Holds i q ↔ Holds i first ∨ Holds i second)
    (hle : ∀ i, Holds i q → level i ≤ bound)
    (hf : s'.frontier = s.frontier.pushChildren first second bound)
    (hi : s'.incumbent = s.incumbent) : Covered Holds level Target s' := by
  have hpending : ∀ q' b, s'.frontier.Pending q' b ↔
      (first = q' ∨ second = q') ∧ bound = b ∨ s.frontier.Pending q' b := by
    intro q' b
    rw [hf]
    exact Frontier.pending_pushChildren
  refine ⟨hi ▸ h.isNumber, fun q' b hp i hold => ?_, fun i htarget => ?_⟩
  · rcases (hpending q' b).1 hp with ⟨rfl | rfl, rfl⟩ | hp
    · exact hle i ((hiff i).2 (.inl hold))
    · exact hle i ((hiff i).2 (.inr hold))
    · exact h.le_bound q' b hp i hold
  · rw [hi]
    by_cases hold : Holds i q
    · rcases (hiff i).1 hold with hold | hold
      · exact .inr ⟨first, bound, (hpending _ _).2 (.inl ⟨.inl rfl, rfl⟩), hold⟩
      · exact .inr ⟨second, bound, (hpending _ _).2 (.inl ⟨.inr rfl, rfl⟩), hold⟩
    · refine (h.cover i ⟨htarget, hold⟩).imp_right ?_
      rintro ⟨q', b, hp, hold⟩
      exact ⟨q', b, (hpending _ _).2 (.inr hp), hold⟩

variable [Scalar.Ordered α]

/-- A new incumbent that is at least the targets in its node covers them, and
what the old one covered. -/
theorem Covered.accept (h : Covered Holds level (fun i => Target i ∧ ¬ Holds i q) s)
    (hle : ∀ i, Holds i q → level i ≤ s'.incumbent) (hmono : s.incumbent ≤ s'.incumbent)
    (hf : s'.frontier = s.frontier) : Covered Holds level Target s' := by
  refine ⟨Level.isNumber_right hmono, hf ▸ h.le_bound, fun i hi => ?_⟩
  by_cases hold : Holds i q
  · exact .inl (hle i hold)
  · rw [hf]
    exact (h.cover i ⟨hi, hold⟩).imp_left fun hi => Level.le_trans hi hmono

/-- **Visiting a node covers the targets in it.** -/
theorem Covered.visited (hcov : Covering solver epsilon Reach Holds level)
    (h : Covered Holds level (fun i => Target i ∧ ¬ Holds i q) s) (hq : Reach q)
    (hrun : solver.run memory q = some reply) (hv : Visited epsilon q reply.solution s s') :
    Covered Holds level Target s' := by
  have hle : ∀ i, Holds i q → level i ≤ reply.solution.objective := fun i => hcov.le hq hrun
  cases hv with
  | pruned hworse hf hsol =>
    -- what is infeasible holds no target above the incumbent either
    refine (h.of_le fun i hold => Level.le_trans (hle i hold) ?_).congr hf
      (congrArg Solution.objective hsol)
    rcases hworse with hinf | hworse
    · rw [Level.isBottom_iff.1 hinf]
      exact Level.bottom_le h.isNumber
    · exact hworse
  | accepted hfeas hbetter hint hf hsol =>
    have hinc : s'.incumbent = reply.solution.objective := congrArg Solution.objective hsol
    exact h.accept (hinc ▸ hle)
      (hinc ▸ Level.le_of_not_le (hcov.isNumber hq hrun) h.isNumber hbetter) hf
  | split f hfeas hfrac hf hsol =>
    exact h.split (fun i => hcov.holds_iff hq hrun hfeas hfrac) hle hf
      (congrArg Solution.objective hsol)

/-- **Every step covers the targets.** A node that is skipped holds none
above the incumbent. -/
theorem Covered.step (hcov : Covering solver epsilon Reach Holds level)
    (hreached : Reached solver epsilon Reach s) (h : Covered Holds level Target s)
    (hpop : s.frontier.pop = some (node, frontier))
    (hstep : Search.step solver epsilon node { s with frontier } = some s') :
    Covered Holds level Target s' := by
  have hnode : s.frontier.Pending node.problem node.bound :=
    (Frontier.pending_of_pop hpop).2 (.inl ⟨rfl, rfl⟩)
  rcases step_cases hstep with ⟨hskip, hf, hsol⟩ | ⟨reply, hrun, hv⟩
  · refine ((h.pop hpop).of_le fun i hold => ?_).congr hf (congrArg Solution.objective hsol)
    exact Level.le_trans (h.le_bound _ _ hnode i hold) hskip
  · have hrecord : Covered Holds level (fun i => Target i ∧ ¬ Holds i node.problem)
        (State.record { s with frontier } node.problem reply) := (h.pop hpop).congr rfl rfl
    exact hrecord.visited hcov (hreached.pending _ _ hnode) hrun hv

/-- **All the way targets are covered.** -/
theorem Covering.covered_of_passes (hcov : Covering solver cfg.epsilon Reach Holds level)
    (hp : Reach p) (h : Passes solver cfg memory p s) :
    Covered Holds level (fun i => Holds i p) s := by
  suffices hs : Reached solver cfg.epsilon Reach s ∧ Covered Holds level (fun i => Holds i p) s from
    hs.2
  induction h with
  | @root root hroot =>
    -- before the root is visited, only the targets in it are not covered
    have hinit : Covered Holds level (fun i => Holds i p ∧ ¬ Holds i p)
        (solvedRoot cfg memory p root) :=
      ⟨Level.bottom_le_bottom, fun q b hq => absurd hq (Frontier.not_pending_empty _),
        fun i hi => absurd hi.1 hi.2⟩
    have hvisit := visited_visit cfg.epsilon p root.solution (solvedRoot cfg memory p root)
    exact ⟨reached_solvedRoot.visited hcov.closed hp hroot hvisit,
      hinit.visited hcov hp hroot hvisit⟩
  | step _ hpop hstep ih =>
    exact ⟨ih.1.step hcov.closed hpop hstep, ih.2.step hcov ih.1 hpop hstep⟩

/-- **No target is above what a search comes to.** -/
theorem Covering.le_of_search (hcov : Covering solver cfg.epsilon Reach Holds level) (hp : Reach p)
    (h : search solver cfg limit memory p = some outcome) {i : ι} (hi : Holds i p) :
    level i ≤ outcome.report.solution.objective := by
  rcases exists_passes_of_search h with ⟨root, hroot, -, hreport, -⟩ | ⟨s, hs, hnone, rfl⟩
  · rw [hreport]
    exact hcov.le hp hroot hi
  · rcases (hcov.covered_of_passes hp hs).cover i hi with hle | ⟨q, b, hq, -⟩
    · exact hle
    · exact absurd hq (Frontier.not_pending_of_pop_eq_none hnone)

end Search

end Milp
