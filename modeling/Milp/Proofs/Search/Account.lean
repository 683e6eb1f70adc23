import Milp.Proofs.Search.Incumbents
/-!
# The account of a search

Whatever the wrapped solver answers, no node is lost and none is counted
twice. A node that is taken is skipped or solved, and one that is solved is
pruned, accepted or split into two that wait. So the counts of a state, the
events that the search itself has reported and the nodes that wait balance
(`Balanced`), and in the course of a search the nodes that were queued are
those that were taken and those that wait (`Course.perm`). At the end none
waits (`search_accounts`). Every split takes an answer that has a point, so
few such answers make a search end.
-/

namespace Milp

namespace Search

variable {σ α : Type}

/-! ## What the search itself reports -/

/-- The events that a search reports itself, without those of the wrapped
solver. -/
def ownEvents (log : List (Source × Event α)) : List (Event α) :=
  (log.filter fun entry => entry.1 == .search).map Prod.snd

/-- How often a search itself reports a message. -/
def reported (log : List (Source × Event α)) (message : String) : ℕ :=
  (ownEvents log).countP fun e => e.message == message

/-- The level of a new incumbent, where an event is about one. -/
def newIncumbent? : Event α → Option (Level α)
  | .newIncumbent z => some z
  | _ => none

/-- The levels of the new incumbents that a search itself reports. -/
def reportedIncumbents (log : List (Source × Event α)) : List (Level α) :=
  (ownEvents log).filterMap newIncumbent?

theorem ownEvents_search (e : Event α) (log : List (Source × Event α)) :
    ownEvents ((.search, e) :: log) = e :: ownEvents log := rfl

theorem ownEvents_wrapped (events : List (Event α)) (log : List (Source × Event α)) :
    ownEvents (events.reverse.map (Prod.mk .wrapped) ++ log) = ownEvents log := by
  have hnone : (events.reverse.map (Prod.mk Source.wrapped)).filter
      (fun entry => entry.1 == .search) = [] := by
    rw [List.filter_eq_nil_iff]
    intro entry hentry
    obtain ⟨e, -, rfl⟩ := List.mem_map.1 hentry
    exact Bool.false_ne_true
  rw [ownEvents, List.filter_append, hnone]
  rfl

theorem ownEvents_reverse (log : List (Source × Event α)) :
    ownEvents log.reverse = (ownEvents log).reverse := by
  rw [ownEvents, List.filter_reverse, List.map_reverse]
  rfl

/-- The order of a log does not matter for how often something is reported. -/
theorem reported_reverse (log : List (Source × Event α)) (message : String) :
    reported log.reverse message = reported log message := by
  rw [reported, ownEvents_reverse, List.countP_reverse]
  rfl

theorem reportedIncumbents_reverse (log : List (Source × Event α)) :
    reportedIncumbents log.reverse = (reportedIncumbents log).reverse := by
  rw [reportedIncumbents, ownEvents_reverse, List.filterMap_reverse]
  rfl

/-- What the search notes is reported. -/
theorem reported_search (e : Event α) (log : List (Source × Event α)) (message : String) :
    reported ((.search, e) :: log) message =
      reported log message + if e.message = message then 1 else 0 := by
  rw [reported, ownEvents_search, List.countP_cons]
  simp only [beq_iff_eq]
  rfl

/-- What the wrapped solver does is not. -/
theorem reported_wrapped (events : List (Event α)) (log : List (Source × Event α))
    (message : String) :
    reported (events.reverse.map (Prod.mk .wrapped) ++ log) message = reported log message := by
  rw [reported, ownEvents_wrapped]
  rfl

theorem reportedIncumbents_search (e : Event α) (log : List (Source × Event α)) :
    reportedIncumbents ((.search, e) :: log) =
      (newIncumbent? e).toList ++ reportedIncumbents log := by
  rw [reportedIncumbents, ownEvents_search, List.filterMap_cons]
  cases newIncumbent? e <;> rfl

theorem reportedIncumbents_wrapped (events : List (Event α)) (log : List (Source × Event α)) :
    reportedIncumbents (events.reverse.map (Prod.mk .wrapped) ++ log) = reportedIncumbents log := by
  rw [reportedIncumbents, ownEvents_wrapped]
  rfl

/-! ## Balance -/

variable {s : State σ α} {node : Node α} {frontier : Frontier α}

/-- How many answers have a point. -/
def feasibleAnswers (calls : List (Call α)) : ℕ :=
  calls.countP fun c => !c.answer.isInfeasible

/-- **The books of a state balance**, with nodes that are taken and neither
skipped nor solved yet, and nodes that are solved and not dealt with yet. -/
structure Balanced (taken solved : ℕ) (s : State σ α) : Prop where
  /-- Every call is a node that is solved. -/
  calls_eq : s.calls.length = s.report.nodesSolved
  /-- Every node that is solved is visited. -/
  visits_eq : reported s.log "visiting node" = s.report.nodesSolved
  /-- There are the root and two nodes for every split. -/
  nodes_eq : s.report.nodesSolved + reported s.log "skipping node bounded by incumbent" +
    s.frontier.nodes.length + taken = 2 * reported s.log "branching" + 1
  /-- Every node comes to be pruned, accepted or split. -/
  pruned_eq : s.report.nodesPruned + s.report.incumbents.length + s.frontier.nodes.length +
    taken + solved = reported s.log "branching" + 1
  /-- The incumbents are reported, the newest first. -/
  incumbents_eq : reportedIncumbents s.log = s.report.incumbents.reverse
  /-- A split queues two nodes. -/
  queued_eq : s.frontier.queued = 2 * reported s.log "branching"
  /-- A split takes an answer that has a point. -/
  branchings_le : reported s.log "branching" ≤ feasibleAnswers s.calls

/-- **The books of a finished search balance.** -/
structure Outcome.Balanced (o : Outcome σ α) : Prop where
  /-- The wrapped solver is called once for every node that is solved. -/
  calls_eq : o.calls.length = o.report.nodesSolved
  /-- Every node that is solved is visited. -/
  visits_eq : reported o.log "visiting node" = o.report.nodesSolved
  /-- The root and two nodes for every split are solved or skipped. -/
  nodes_eq : o.report.nodesSolved + reported o.log "skipping node bounded by incumbent" =
    2 * reported o.log "branching" + 1
  /-- They are pruned, accepted or split. -/
  pruned_eq : o.report.nodesPruned + o.report.incumbents.length = reported o.log "branching" + 1
  /-- The incumbents are reported in order. -/
  incumbents_eq : reportedIncumbents o.log = o.report.incumbents

/-- The last event is not counted. -/
theorem reported_finish (s : State σ α) {message : String}
    (h : "branch and bound finished" ≠ message) :
    reported s.finish.outcome.log message = reported s.log message := by
  rw [State.outcome, reported_reverse, State.finish, State.note, reported_search, Event.message,
    if_neg h, Nat.add_zero]

namespace Balanced

/-- The node that waited first is taken. -/
theorem pop (h : Balanced 0 0 s) (hpop : s.frontier.pop = some (node, frontier)) :
    Balanced 1 0 { s with frontier } := by
  obtain ⟨hwaited, hqueued, -⟩ := Frontier.nodes_of_pop hpop
  have hlength : s.frontier.nodes.length = frontier.nodes.length + 1 := by
    rw [hwaited, List.length_cons]
  have hnodes := h.nodes_eq
  have hpruned := h.pruned_eq
  refine ⟨h.calls_eq, h.visits_eq, ?_, ?_, h.incumbents_eq, hqueued.trans h.queued_eq,
    h.branchings_le⟩ <;> dsimp only <;> omega

/-- A node that is skipped is pruned. -/
theorem skip (h : Balanced 1 0 s) (bound : Level α) :
    Balanced 0 0 (s.note (.skippingNode bound)).prune := by
  have hnodes := h.nodes_eq
  have hpruned := h.pruned_eq
  refine ⟨h.calls_eq, ?_, ?_, ?_, h.incumbents_eq, ?_, ?_⟩ <;>
    simp only [State.prune, State.note, reported_search, Event.message, String.reduceEq, if_false,
      if_true]
  · exact h.visits_eq
  · omega
  · omega
  · exact h.queued_eq
  · exact h.branchings_le

/-- A node that is solved is visited. -/
theorem look (h : Balanced 1 0 s) (q : Problem α) (reply : Reply σ α) :
    Balanced 0 1 ((s.record q reply).look q reply.solution) := by
  have hnodes := h.nodes_eq
  have hpruned := h.pruned_eq
  constructor <;>
    simp only [State.look, State.note, State.record, reported_search, reported_wrapped,
      reportedIncumbents_search, reportedIncumbents_wrapped, newIncumbent?, Event.message,
      String.reduceEq, if_false, if_true]
  · rw [List.length_cons, h.calls_eq]
  · rw [h.visits_eq]
  · omega
  · omega
  · exact h.incumbents_eq
  · exact h.queued_eq
  · exact Nat.le_trans h.branchings_le (List.Sublist.countP_le (List.sublist_cons_self _ _))

/-- A node that is solved may be pruned. -/
theorem prune (h : Balanced 0 1 s) : Balanced 0 0 s.prune := by
  have hpruned := h.pruned_eq
  refine ⟨h.calls_eq, h.visits_eq, h.nodes_eq, ?_, h.incumbents_eq, h.queued_eq,
    h.branchings_le⟩
  simp only [State.prune]
  omega

/-- Or its answer is the new incumbent. -/
theorem accept (h : Balanced 0 1 s) (answer : Solution α) :
    Balanced 0 0 ((s.note (.newIncumbent answer.objective)).accept answer) := by
  have hpruned := h.pruned_eq
  refine ⟨h.calls_eq, ?_, ?_, ?_, ?_, ?_, ?_⟩ <;>
    simp only [State.accept, State.note, reported_search, reportedIncumbents_search, newIncumbent?,
      Event.message, String.reduceEq, if_false]
  · exact h.visits_eq
  · exact h.nodes_eq
  · rw [List.length_append, List.length_singleton]
    omega
  · rw [h.incumbents_eq, List.reverse_append]
    rfl
  · exact h.queued_eq
  · exact h.branchings_le

/-- Where no node waits any more the books of the outcome balance. -/
theorem finish (h : Balanced 0 0 s) (hnone : s.frontier.pop = none) :
    s.finish.outcome.Balanced := by
  have hnodes := h.nodes_eq
  have hpruned := h.pruned_eq
  rw [Frontier.nodes_of_pop_eq_none hnone, List.length_nil] at hnodes hpruned
  refine ⟨?_, ?_, ?_, ?_, ?_⟩
  · exact List.length_reverse.trans h.calls_eq
  · rw [reported_finish s (by simp)]
    exact h.visits_eq
  · rw [reported_finish s (by simp), reported_finish s (by simp)]
    exact hnodes
  · rw [reported_finish s (by simp)]
    exact hpruned
  · rw [State.outcome, reportedIncumbents_reverse, State.finish, State.note,
      reportedIncumbents_search, h.incumbents_eq]
    exact List.reverse_reverse _

end Balanced

variable [Scalar α] {solver : Solver σ α} {p q : Problem α} {reply : Reply σ α} {epsilon : α}
variable {cfg : Config α} {limit : ℕ} {memory : σ} {outcome : Outcome σ α}
variable {queued taken : List (Node α)}

/-- Before the root is solved it is taken. -/
theorem balanced_initial : Balanced 1 0 (State.initial cfg memory p) := by
  constructor <;>
    simp only [State.initial, reported_search, Event.message, String.reduceEq, if_false] <;> rfl

namespace Balanced

/-- Or it is split, if its answer has a point. -/
theorem split (h : Balanced 0 1 s) (hlt : reported s.log "branching" < feasibleAnswers s.calls)
    (q : Problem α) (f : Fractional α) (bound : Level α) :
    Balanced 0 0 ((s.note (.branching f.index f.value)).split q f bound) := by
  have hnodes := h.nodes_eq
  have hpruned := h.pruned_eq
  refine ⟨h.calls_eq, ?_, ?_, ?_, h.incumbents_eq, ?_, ?_⟩ <;>
    simp only [State.split, State.note, reported_search, Event.message, String.reduceEq, if_false,
      if_true, Frontier.length_nodes_pushChildren, Frontier.queued_pushChildren]
  · exact h.visits_eq
  · omega
  · omega
  · rw [h.queued_eq, Nat.mul_add_one]
  · exact hlt

/-- **A node that is solved** is pruned, accepted or split. -/
theorem visit (h : Balanced 1 0 s) (q : Problem α) (reply : Reply σ α) :
    Balanced 0 0 ((s.record q reply).visit epsilon q reply.solution) := by
  have hlook := h.look q reply
  rcases visit_cases epsilon q reply.solution (s.record q reply) with
    ⟨-, heq⟩ | ⟨-, -, -, heq⟩ | ⟨f, hfeas, -, -, heq⟩ <;> rw [heq]
  · exact hlook.prune
  · exact hlook.accept reply.solution
  · -- the last answer has a point and was not split before
    refine hlook.split ?_ q f reply.solution.objective
    have hle := h.branchings_le
    have hreported : reported ((s.record q reply).look q reply.solution).log "branching" =
        reported s.log "branching" := by
      simp only [State.look, State.note, State.record, reported_search, reported_wrapped,
        Event.message, String.reduceEq, if_false, Nat.add_zero]
    have hcount : feasibleAnswers ((s.record q reply).look q reply.solution).calls =
        feasibleAnswers s.calls + 1 := by
      simp only [State.look, State.note, State.record, feasibleAnswers, List.countP_cons, hfeas,
        Bool.not_false, if_true]
    omega

end Balanced

/-- **Every state on the way balances.** -/
theorem balanced_of_passes (h : Passes solver cfg memory p s) : Balanced 0 0 s := by
  induction h with
  | root hrun hfeas => exact balanced_initial.visit p _
  | step hs hpop hstep ih =>
    rcases step_eq_some hstep with ⟨-, rfl⟩ | ⟨-, reply, -, rfl⟩
    · exact (ih.pop hpop).skip _
    · exact (ih.pop hpop).visit _ reply

/-! ## The course of a search -/

/-- The nodes that visiting a solved node queues. -/
def State.queuedBy (s : State σ α) (epsilon : α) (q : Problem α) (answer : Solution α) :
    List (Node α) :=
  match judge epsilon s.incumbent q answer with
  | .branch f => s.frontier.children (floorChild q f) (ceilChild q f) answer.objective
  | _ => []

/-- **The course of a search**: a state that it passes through, the nodes
that were queued up to there and those that were taken, the oldest first. -/
inductive Course (solver : Solver σ α) (cfg : Config α) (memory : σ) (p : Problem α) :
    State σ α → List (Node α) → List (Node α) → Prop
  /-- The root is visited, without having been queued. -/
  | root {root : Reply σ α} : solver.run memory p = some root →
    root.solution.isInfeasible = false →
    Course solver cfg memory p
      ((solvedRoot cfg memory p root).visit cfg.epsilon p root.solution)
      ((solvedRoot cfg memory p root).queuedBy cfg.epsilon p root.solution) []
  /-- A node is taken and skipped. -/
  | skip {s : State σ α} {node : Node α} {frontier : Frontier α} {queued taken : List (Node α)} :
    Course solver cfg memory p s queued taken → s.frontier.pop = some (node, frontier) →
    node.bound ≤ s.incumbent →
    Course solver cfg memory p
      (({ s with frontier } : State σ α).note (.skippingNode node.bound)).prune
      queued (taken ++ [node])
  /-- A node is taken, solved and visited. -/
  | solve {s : State σ α} {node : Node α} {frontier : Frontier α} {queued taken : List (Node α)}
    {reply : Reply σ α} :
    Course solver cfg memory p s queued taken → s.frontier.pop = some (node, frontier) →
    ¬ node.bound ≤ s.incumbent → solver.run s.memory node.problem = some reply →
    Course solver cfg memory p
      ((({ s with frontier } : State σ α).record node.problem reply).visit cfg.epsilon
        node.problem reply.solution)
      (queued ++ (({ s with frontier } : State σ α).record node.problem reply).queuedBy cfg.epsilon
        node.problem reply.solution)
      (taken ++ [node])

/-- **What a visit queues** waits from then on, and has the next numbers. -/
theorem frontier_visit (epsilon : α) (q : Problem α) (answer : Solution α) (s : State σ α) :
    (s.visit epsilon q answer).frontier.nodes.Perm
      (s.queuedBy epsilon q answer ++ s.frontier.nodes) ∧
    List.range s.frontier.queued ++ (s.queuedBy epsilon q answer).map (·.seq) =
      List.range (s.visit epsilon q answer).frontier.queued := by
  rw [visit_eq, State.queuedBy]
  cases judge epsilon s.incumbent q answer with
  | prune => exact ⟨.refl _, List.append_nil _⟩
  | accept => exact ⟨.refl _, List.append_nil _⟩
  | branch f =>
    refine ⟨Frontier.nodes_pushChildren_perm, ?_⟩
    simp only [State.split, State.note, State.look, Frontier.queued_pushChildren,
      Frontier.map_seq_children, List.range_succ, List.append_assoc, List.singleton_append]

/-- **Every state on the way has its course.** -/
theorem Passes.exists_course (h : Passes solver cfg memory p s) :
    ∃ queued taken, Course solver cfg memory p s queued taken := by
  induction h with
  | root hrun hfeas => exact ⟨_, _, .root hrun hfeas⟩
  | step hs hpop hstep ih =>
    obtain ⟨queued, taken, hcourse⟩ := ih
    rcases step_eq_some hstep with ⟨hle, rfl⟩ | ⟨hlt, reply, hrun, rfl⟩
    · exact ⟨_, _, hcourse.skip hpop hle⟩
    · exact ⟨_, _, hcourse.solve hpop hlt hrun⟩

/-- **The nodes that were queued** are those that were taken and those that
wait. -/
theorem Course.perm (h : Course solver cfg memory p s queued taken) :
    (taken ++ s.frontier.nodes).Perm queued := by
  induction h with
  | @root root hrun hfeas =>
    have hnodes := (frontier_visit cfg.epsilon p root.solution (solvedRoot cfg memory p root)).1
    exact hnodes.trans (List.Perm.of_eq (List.append_nil _))
  | skip hs hpop hle ih =>
    rw [(Frontier.nodes_of_pop hpop).1] at ih
    rwa [List.append_assoc]
  | @solve s node frontier queued taken reply hs hpop hlt hrun ih =>
    rw [(Frontier.nodes_of_pop hpop).1] at ih
    rw [List.append_assoc]
    -- the new nodes go to the end
    have hnodes := (frontier_visit cfg.epsilon node.problem reply.solution
      (({ s with frontier } : State σ α).record node.problem reply)).1
    refine (((hnodes.trans List.perm_append_comm).cons node).append_left taken).trans ?_
    rw [← List.cons_append, ← List.append_assoc]
    exact ih.append_right _

/-- They are numbered in the order in which they were queued. -/
theorem Course.map_seq (h : Course solver cfg memory p s queued taken) :
    queued.map (·.seq) = List.range s.frontier.queued := by
  induction h with
  | root hrun hfeas => exact (frontier_visit cfg.epsilon p _ (solvedRoot cfg memory p _)).2
  | skip hs hpop hle ih => exact ih.trans (congrArg List.range (Frontier.nodes_of_pop hpop).2.1.symm)
  | @solve s node frontier queued taken reply hs hpop hlt hrun ih =>
    have hnumbers := (frontier_visit cfg.epsilon node.problem reply.solution
      (({ s with frontier } : State σ α).record node.problem reply)).2
    rw [List.map_append, ih, ← (Frontier.nodes_of_pop hpop).2.1]
    exact hnumbers

/-! ## Few answers that have a point -/

/-- How many nodes are dealt with: solved or skipped. -/
def dealt (s : State σ α) : ℕ :=
  s.report.nodesSolved + reported s.log "skipping node bounded by incumbent"

/-- Visiting solves and skips nothing. -/
theorem dealt_visit (epsilon : α) (q : Problem α) (answer : Solution α) (s : State σ α) :
    dealt (s.visit epsilon q answer) = dealt s := by
  rcases visit_cases epsilon q answer s with ⟨-, heq⟩ | ⟨-, -, -, heq⟩ | ⟨f, -, -, -, heq⟩ <;>
    simp only [heq, dealt, State.prune, State.accept, State.split, State.look, State.note,
      reported_search, Event.message, String.reduceEq, if_false, Nat.add_zero]

omit [Scalar α] in
/-- A reply solves one node. -/
theorem dealt_record (s : State σ α) (q : Problem α) (reply : Reply σ α) :
    dealt (s.record q reply) = dealt s + 1 := by
  simp only [dealt, State.record, reported_wrapped]
  omega

/-- **With every step one more node is dealt with.** -/
theorem dealt_step {s' : State σ α}
    (h : step solver epsilon node { s with frontier } = some s') : dealt s' = dealt s + 1 := by
  rcases step_eq_some h with ⟨-, rfl⟩ | ⟨-, reply, -, rfl⟩
  · simp only [dealt, State.prune, State.note, reported_search, Event.message, if_true]
    omega
  · rw [dealt_visit, dealt_record]
    rfl

omit [Scalar α] in
/-- Nodes that are dealt with come from splits, each of which takes an answer
that has a point. -/
theorem dealt_le (h : Balanced 0 0 s) :
    dealt s + s.frontier.nodes.length ≤ 2 * feasibleAnswers s.calls + 1 := by
  have hnodes := h.nodes_eq
  have hle := h.branchings_le
  unfold dealt
  omega

/-- **A search ends** if the wrapped solver always answers, and gives at most
`bound` answers that have a point. -/
theorem exists_explore_of_feasibleAnswers {bound : ℕ} (hs : Passes solver cfg memory p s)
    (hsolver : ∀ s q, Given solver cfg memory p s q → ∃ reply, solver.run s.memory q = some reply)
    (hbound : ∀ s, Passes solver cfg memory p s → feasibleAnswers s.calls ≤ bound)
    (hlimit : 2 * bound + 1 - dealt s ≤ limit) :
    ∃ s', explore solver cfg.epsilon limit s = some s' ∧ Passes solver cfg memory p s' := by
  refine explore_isSome (Passes solver cfg memory p) (fun s => 2 * bound + 1 - dealt s)
    (fun {s node frontier} hs hpop => ?_) hs hlimit
  -- a node waits, so not all are dealt with
  have hle := dealt_le (balanced_of_passes hs)
  have hfeasible := hbound s hs
  rw [(Frontier.nodes_of_pop hpop).1, List.length_cons] at hle
  have hfewer : ∀ s', step solver cfg.epsilon node { s with frontier } = some s' →
      Passes solver cfg memory p s' ∧ 2 * bound + 1 - dealt s' < 2 * bound + 1 - dealt s := by
    intro s' hstep
    have hdealt := dealt_step hstep
    exact ⟨hs.step hpop hstep, by omega⟩
  by_cases hskip : node.bound ≤ s.incumbent
  · have hstep : step solver cfg.epsilon node { s with frontier } = some _ := step_skip hskip
    exact ⟨_, hstep, hfewer _ hstep⟩
  · obtain ⟨reply, hrun⟩ := hsolver _ _ (.node hs hpop hskip)
    have hstep : step solver cfg.epsilon node { s with frontier } = some _ :=
      step_solve hskip hrun
    exact ⟨_, hstep, hfewer _ hstep⟩

/-! ## Searches -/

/-- **No node is lost or counted twice**, whatever the wrapped solver answers.

A search whose root is infeasible ends with it. When any other one ends, its
books balance, counting only what the search itself reports, and in its course
exactly the nodes that were queued were taken, each of which has its own
number. If the wrapped solver always answers, and gives at most `bound` answers
that have a point, the search ends with at most `2 * bound + 1` nodes solved. -/
theorem search_accounts {root : Reply σ α} (hroot : solver.run memory p = some root) :
    (root.solution.isInfeasible = true → ∃ outcome,
      search solver cfg limit memory p = some outcome ∧
      outcome.report = ⟨root.solution, 1, 0, []⟩ ∧ outcome.calls = [⟨p, root.solution⟩]) ∧
    (root.solution.isInfeasible = false → ∀ outcome,
      search solver cfg limit memory p = some outcome →
      outcome.Balanced ∧ ∃ s queued taken, Course solver cfg memory p s queued taken ∧
        s.frontier.nodes = [] ∧ outcome = s.finish.outcome ∧ taken.Perm queued ∧
        queued.map (·.seq) = List.range (2 * reported outcome.log "branching")) ∧
    ∀ bound,
      (∀ s q, Given solver cfg memory p s q → ∃ reply, solver.run s.memory q = some reply) →
      (∀ s, Passes solver cfg memory p s → feasibleAnswers s.calls ≤ bound) →
      2 * bound ≤ limit → ∃ outcome, search solver cfg limit memory p = some outcome ∧
        outcome.report.nodesSolved ≤ 2 * bound + 1 := by
  refine ⟨fun hinf => ?_, fun hfeas outcome h => ?_, fun bound hsolver hbound hlimit => ?_⟩
  · obtain ⟨outcome, hsearch, hreport, hcalls, -⟩ := search_of_isInfeasible cfg limit hroot hinf
    exact ⟨outcome, hsearch, hreport, hcalls⟩
  · rcases exists_passes_of_search h with ⟨root', hroot', hinf, -⟩ | ⟨s, hpass, hnone, rfl⟩
    · -- the root has a point
      rw [hroot] at hroot'
      cases hroot'
      rw [hfeas] at hinf
      cases hinf
    · have hbalanced := balanced_of_passes hpass
      have hempty := Frontier.nodes_of_pop_eq_none hnone
      obtain ⟨queued, taken, hcourse⟩ := hpass.exists_course
      refine ⟨hbalanced.finish hnone, s, queued, taken, hcourse, hempty, rfl, ?_, ?_⟩
      · have hperm := hcourse.perm
        rwa [hempty, List.append_nil] at hperm
      · rw [reported_finish s (by simp), ← hbalanced.queued_eq]
        exact hcourse.map_seq
  · cases hinf : root.solution.isInfeasible with
    | true =>
      obtain ⟨outcome, hsearch, hreport, -⟩ := search_of_isInfeasible cfg limit hroot hinf
      refine ⟨outcome, hsearch, ?_⟩
      rw [hreport]
      exact Nat.le_add_left _ _
    | false =>
      have hfirst : Passes solver cfg memory p _ := .root hroot hinf
      -- the root is dealt with
      have hone : dealt ((solvedRoot cfg memory p root).visit cfg.epsilon p root.solution) = 1 := by
        rw [dealt_visit, solvedRoot, dealt_record]
        simp only [dealt, State.initial, reported_search, Event.message, String.reduceEq, if_false]
        rfl
      obtain ⟨s, hs, hpass⟩ := exists_explore_of_feasibleAnswers hfirst hsolver hbound
        (by omega : _ ≤ limit)
      refine ⟨_, search_eq_of_explore hroot hinf hs, ?_⟩
      have hle := dealt_le (balanced_of_passes hpass)
      have hfeasible := hbound s hpass
      have hsolved : s.finish.outcome.report.nodesSolved ≤ dealt s := Nat.le_add_right _ _
      omega

/-- Answers given in turn that have a point are used up. -/
theorem feasibleAnswers_scripted {answers : List (Solution α)}
    {s : State (List (Solution α)) α} (h : Passes Method.scripted cfg answers p s) :
    feasibleAnswers s.calls ≤ answers.countP fun a => !a.isInfeasible := by
  have hinv : feasibleAnswers s.calls + (s.memory.countP fun a => !a.isInfeasible) ≤
      answers.countP fun a => !a.isInfeasible := by
    refine h.induction (fun s => feasibleAnswers s.calls +
        (s.memory.countP fun a => !a.isInfeasible) ≤ answers.countP fun a => !a.isInfeasible)
      (fun _ _ => True) (Nat.le_of_eq (Nat.zero_add _)) trivial (fun hs _ => ⟨hs, trivial⟩)
      (fun hs _ => hs) fun {s q reply} hs _ hrun => ?_
    rw [calls_visit, memory_visit]
    simp only [State.record, feasibleAnswers, List.countP_cons] at hs ⊢
    cases hmemory : s.memory with
    | nil =>
      rw [hmemory] at hrun hs
      cases hrun
      exact hs
    | cons answer rest =>
      rw [hmemory] at hrun hs
      cases hrun
      rw [List.countP_cons] at hs
      dsimp only
      omega
  omega

/-- A fractional answer and an integral one that is as good. -/
def equalAnswers : List (Solution Double) :=
  [⟨.number 5.0, [2.5]⟩, ⟨.number 5.0, [2.0]⟩]

/-- Over them a search splits its root, solves one child and skips the other. -/
theorem search_accounts_equalAnswers :
    ∃ root o, Method.scripted.run equalAnswers oneInteger = some root ∧
      root.solution.isInfeasible = false ∧
      search Method.scripted ⟨0.25, .bestFirst⟩ 4 equalAnswers oneInteger = some o ∧
      reported o.log "branching" = 1 ∧
      reported o.log "skipping node bounded by incumbent" = 1 ∧ o.Balanced ∧
      o.report.nodesSolved ≤ 5 := by
  have hrun : (search Method.scripted ⟨0.25, .bestFirst⟩ 4 equalAnswers oneInteger).map
      (fun o => (reported o.log "branching",
        reported o.log "skipping node bounded by incumbent")) = some (1, 1) := by decide +kernel
  obtain ⟨o, hrun, heq⟩ := Option.map_eq_some_iff.1 hrun
  obtain ⟨hbranchings, hskipped⟩ := Prod.mk.inj heq
  have hroot : Method.scripted.run equalAnswers oneInteger =
      some ⟨⟨.number 5.0, [2.5]⟩, [], [⟨.number 5.0, [2.0]⟩]⟩ := rfl
  obtain ⟨-, hbalanced, hends⟩ :=
    @search_accounts _ _ _ _ _ ⟨0.25, .bestFirst⟩ 4 _ _ hroot
  obtain ⟨o', hrun', hle⟩ := hends 2
    (fun s q _ => by cases s.memory <;> exact ⟨_, rfl⟩)
    (fun s hs => (feasibleAnswers_scripted hs).trans (by decide +kernel)) (Nat.le_refl 4)
  rw [hrun] at hrun'
  cases hrun'
  exact ⟨_, o, rfl, rfl, hrun, hbranchings, hskipped, (hbalanced rfl o hrun).1, hle⟩

end Search

end Milp
