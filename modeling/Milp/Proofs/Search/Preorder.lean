import Milp.Proofs.Search.Nodes
/-!
# Depth first is preorder

A search that takes the newest node works off a stack. The same can be said by
recursion (`preorder`): a problem is skipped or solved, and when it is split
everything below the child with the floor is explored before the child with
the ceiling. The two children are explored with different incumbents, so the
recursion hands a `Thread` on. A stack stands for the explorations that are
still to come, one after the other (`follow`), and a visit puts its own on top
of them (`exists_children`). So the worklist ends where the recursion does, with
the same calls and the same report (`search_eq_preorder`).
-/

namespace Milp

namespace Search

variable {σ α : Type}

/-! ## The recursion -/

/-- **What the recursion hands on.** -/
structure Thread (σ α : Type) where
  /-- The report so far. -/
  report : Report α
  /-- What the wrapped solver remembers. -/
  memory : σ
  /-- The calls of the wrapped solver, the oldest first. -/
  calls : List (Call α)

namespace Thread

/-- The level of the incumbent. -/
def incumbent (t : Thread σ α) : Level α := t.report.solution.objective

/-- With one more pruned node. -/
def prune (t : Thread σ α) : Thread σ α :=
  { t with report := { t.report with nodesPruned := t.report.nodesPruned + 1 } }

/-- With a new incumbent. -/
def accept (t : Thread σ α) (answer : Solution α) : Thread σ α :=
  { t with report := { t.report with
      solution := answer
      incumbents := t.report.incumbents ++ [answer.objective] } }

/-- With one more call of the wrapped solver. -/
def record (t : Thread σ α) (q : Problem α) (reply : Reply σ α) : Thread σ α where
  report := { t.report with nodesSolved := t.report.nodesSolved + 1 }
  memory := reply.memory
  calls := t.calls ++ [⟨q, reply.solution⟩]

end Thread

/-- The thread of a state. -/
def State.thread (s : State σ α) : Thread σ α := ⟨s.report, s.memory, s.calls.reverse⟩

/-- The thread at the end. -/
def Outcome.thread (o : Outcome σ α) : Thread σ α := ⟨o.report, o.memory, o.calls⟩

theorem thread_record (s : State σ α) (q : Problem α) (reply : Reply σ α) :
    (s.record q reply).thread = s.thread.record q reply := by
  simp only [State.thread, State.record, Thread.record, List.reverse_cons]

variable [Scalar α] {solver : Solver σ α} {epsilon : α} {s s' : State σ α} {p q : Problem α}
variable {answer : Solution α} {bound : Level α} {node : Node α} {nodes rest : List (Node α)}
variable {t t' : Thread σ α} {memory : σ} {depth depth' limit : ℕ} {reply : Reply σ α}

/-- A solved problem is pruned, accepted or split, and a split explores both
children, first the one with the floor. -/
def settle (exploreNext : Problem α → Level α → Thread σ α → Option (Thread σ α)) (epsilon : α)
    (q : Problem α) (answer : Solution α) (t : Thread σ α) : Option (Thread σ α) :=
  match judge epsilon t.incumbent q answer with
  | .prune => some t.prune
  | .accept => some (t.accept answer)
  | .branch f =>
    (exploreNext (floorChild q f) answer.objective t).bind
      (exploreNext (ceilChild q f) answer.objective)

/-- **The recursive exploration** of a problem under a bound. It ends if it
ends within some depth. -/
def preorder (solver : Solver σ α) (epsilon : α) :
    (depth : ℕ) → Problem α → Level α → Thread σ α → Option (Thread σ α)
  | 0, _, _, _ => none
  | depth + 1, q, bound, t =>
    if bound ≤ t.incumbent then some t.prune
    else (solver.run t.memory q).bind fun reply =>
      settle (preorder solver epsilon depth) epsilon q reply.solution (t.record q reply)

/-- **The recursive search.** The root is solved in any case. -/
def preorderSearch (solver : Solver σ α) (epsilon : α) (depth : ℕ) (memory : σ) (p : Problem α) :
    Option (Thread σ α) :=
  (solver.run memory p).bind fun root =>
    let solved : Thread σ α :=
      ⟨⟨Solution.infeasible p.numVariables, 1, 0, []⟩, root.memory, [⟨p, root.solution⟩]⟩
    if root.solution.isInfeasible then
      some { solved with report := { solved.report with solution := root.solution } }
    else settle (preorder solver epsilon depth) epsilon p root.solution solved

/-! ## Depth -/

theorem settle_mono {explore₁ explore₂ : Problem α → Level α → Thread σ α → Option (Thread σ α)}
    (hmono : ∀ q b t t', explore₁ q b t = some t' → explore₂ q b t = some t')
    (h : settle explore₁ epsilon q answer t = some t') :
    settle explore₂ epsilon q answer t = some t' := by
  unfold settle at h ⊢
  cases hj : judge epsilon t.incumbent q answer with
  | prune => simpa only [hj] using h
  | accept => simpa only [hj] using h
  | branch f =>
    simp only [hj] at h ⊢
    obtain ⟨u, hfloor, hceil⟩ := Option.bind_eq_some_iff.1 h
    rw [hmono _ _ _ _ hfloor]
    exact hmono _ _ _ _ hceil

/-- **More depth** changes nothing where the exploration has ended. -/
theorem preorder_mono (h : preorder solver epsilon depth q bound t = some t')
    (hle : depth ≤ depth') : preorder solver epsilon depth' q bound t = some t' := by
  induction depth generalizing depth' q bound t t' with
  | zero => cases h
  | succ depth ih =>
    obtain ⟨more, rfl⟩ := Nat.exists_eq_add_of_le' (Nat.le_trans (Nat.le_add_left 1 depth) hle)
    rw [preorder] at h ⊢
    split at h
    · rename_i hskip
      rw [if_pos hskip]
      exact h
    · rename_i hskip
      rw [if_neg hskip]
      obtain ⟨reply, hrun, hsettle⟩ := Option.bind_eq_some_iff.1 h
      rw [hrun]
      exact settle_mono (fun _ _ _ _ h => ih h (Nat.le_of_succ_le_succ hle)) hsettle

/-! ## Stacks -/

/-- **What a stack stands for**: its nodes are explored one after the other. -/
def follow (solver : Solver σ α) (epsilon : α) (depth : ℕ) (nodes : List (Node α))
    (t : Thread σ α) : Option (Thread σ α) :=
  nodes.foldlM (fun t n => preorder solver epsilon depth n.problem n.bound t) t

theorem follow_cons :
    follow solver epsilon depth (node :: rest) t =
      (preorder solver epsilon depth node.problem node.bound t).bind
        (follow solver epsilon depth rest) := List.foldlM_cons

/-- Two nodes are explored one after the other. -/
theorem follow_pair {other : Node α} :
    follow solver epsilon depth [node, other] t =
      (preorder solver epsilon depth node.problem node.bound t).bind
        (preorder solver epsilon depth other.problem other.bound) := by
  have hlast : follow solver epsilon depth [other] =
      preorder solver epsilon depth other.problem other.bound := by
    funext u
    rw [follow_cons]
    exact Option.bind_fun_some _
  rw [follow_cons, hlast]

theorem follow_append :
    follow solver epsilon depth (nodes ++ rest) t =
      (follow solver epsilon depth nodes t).bind (follow solver epsilon depth rest) :=
  List.foldlM_append

theorem follow_mono (h : follow solver epsilon depth nodes t = some t') (hle : depth ≤ depth') :
    follow solver epsilon depth' nodes t = some t' := by
  induction nodes generalizing t with
  | nil => exact h
  | cons node rest ih =>
    rw [follow_cons] at h ⊢
    obtain ⟨u, hnode, hrest⟩ := Option.bind_eq_some_iff.1 h
    rw [preorder_mono hnode hle]
    exact ih hrest

/-- **A visit puts children on the stack**, and to settle its problem is to
follow them. -/
theorem exists_children (solver : Solver σ α) (epsilon : α) (q : Problem α) (answer : Solution α)
    (horder : s.frontier.order = .depthFirst) :
    (s.visit epsilon q answer).frontier.order = .depthFirst ∧
    ∃ children, (s.visit epsilon q answer).frontier.nodes = children ++ s.frontier.nodes ∧
      ∀ depth, settle (preorder solver epsilon depth) epsilon q answer s.thread =
        follow solver epsilon depth children (s.visit epsilon q answer).thread := by
  have hsettle : ∀ depth, settle (preorder solver epsilon depth) epsilon q answer s.thread =
      match judge epsilon s.incumbent q answer with
      | .prune => some s.thread.prune
      | .accept => some (s.thread.accept answer)
      | .branch f => (preorder solver epsilon depth (floorChild q f) answer.objective s.thread).bind
          (preorder solver epsilon depth (ceilChild q f) answer.objective) := fun _ => rfl
  rw [visit_eq]
  simp only [hsettle]
  cases judge epsilon s.incumbent q answer with
  | prune => exact ⟨horder, [], rfl, fun depth => rfl⟩
  | accept => exact ⟨horder, [], rfl, fun depth => rfl⟩
  | branch f =>
    refine ⟨Frontier.order_pushChildren.trans horder, _,
      Frontier.nodes_pushChildren_depthFirst horder, fun depth => ?_⟩
    have hfollow : ∀ u : Thread σ α, follow solver epsilon depth (s.frontier.children
        (floorChild q f) (ceilChild q f) answer.objective).reverse u =
          (preorder solver epsilon depth (floorChild q f) answer.objective u).bind
            (preorder solver epsilon depth (ceilChild q f) answer.objective) := by
      intro u
      rw [Frontier.children, horder]
      exact follow_pair
    exact (hfollow s.thread).symm

/-- **A search that takes the newest node follows its stack.** -/
theorem exists_follow_of_steps (h : Relation.ReflTransGen (Steps solver epsilon) s s')
    (hnone : s'.frontier.pop = none) (horder : s.frontier.order = .depthFirst) :
    ∃ depth, follow solver epsilon depth s.frontier.nodes s.thread = some s'.thread := by
  induction h using Relation.ReflTransGen.head_induction_on with
  | refl => exact ⟨0, by rw [Frontier.nodes_of_pop_eq_none hnone]; rfl⟩
  | @head s u hstep _ ih =>
    obtain ⟨node, frontier, hpop, hstep⟩ := hstep
    obtain ⟨hnodes, -, horder'⟩ := Frontier.nodes_of_pop hpop
    have hrest : ({ s with frontier } : State σ α).frontier.order = .depthFirst :=
      horder'.trans horder
    rcases step_eq_some hstep with ⟨hskip, rfl⟩ | ⟨hskip, reply, hrun, rfl⟩
    · obtain ⟨depth, hdepth⟩ := ih hrest
      refine ⟨depth + 1, ?_⟩
      have hnode : preorder solver epsilon (depth + 1) node.problem node.bound s.thread =
          some s.thread.prune := if_pos hskip
      rw [hnodes, follow_cons, hnode]
      exact follow_mono hdepth (Nat.le_succ depth)
    · obtain ⟨hkeep, children, hpushed, hsettle⟩ := exists_children solver epsilon node.problem
        reply.solution (s := ({ s with frontier } : State σ α).record node.problem reply) hrest
      obtain ⟨depth, hdepth⟩ := ih hkeep
      -- first the children of the node are followed, then the rest of the stack
      rw [hpushed, follow_append, ← hsettle, thread_record] at hdepth
      obtain ⟨t, hchildren, hfollow⟩ := Option.bind_eq_some_iff.1 hdepth
      refine ⟨depth + 1, ?_⟩
      have hnode : preorder solver epsilon (depth + 1) node.problem node.bound s.thread =
          some t := by
        rw [preorder, if_neg (show ¬ node.bound ≤ s.thread.incumbent from hskip)]
        have hreply : solver.run s.thread.memory node.problem = some reply := hrun
        rw [hreply]
        exact hchildren
      rw [hnodes, follow_cons, hnode]
      exact follow_mono hfollow (Nat.le_succ depth)

/-- **What a stack stands for, the search does**: it takes the nodes at the
front of its frontier, with everything below them, and nothing else. -/
theorem exists_steps_of_follow (h : follow solver epsilon depth nodes s.thread = some t)
    (horder : s.frontier.order = .depthFirst) (hnodes : s.frontier.nodes = nodes ++ rest) :
    ∃ s', Relation.ReflTransGen (Steps solver epsilon) s s' ∧ s'.thread = t ∧
      s'.frontier.order = .depthFirst ∧ s'.frontier.nodes = rest := by
  induction depth generalizing s nodes rest t with
  | zero =>
    cases nodes with
    | nil => exact ⟨s, .refl, Option.some.inj h, horder, hnodes⟩
    | cons node nodes => cases h
  | succ depth ih =>
    induction nodes generalizing s with
    | nil => exact ⟨s, .refl, Option.some.inj h, horder, hnodes⟩
    | cons node nodes ihnodes =>
      rw [follow_cons] at h
      obtain ⟨u, hnode, hfollow⟩ := Option.bind_eq_some_iff.1 h
      have hpop := Frontier.pop_of_nodes (List.cons_append ▸ hnodes)
      -- it is enough to come to the rest of the stack
      suffices hstep : ∃ s', Relation.ReflTransGen (Steps solver epsilon) s s' ∧ s'.thread = u ∧
          s'.frontier.order = .depthFirst ∧ s'.frontier.nodes = nodes ++ rest by
        obtain ⟨s₁, hsteps, rfl, horder₁, hnodes₁⟩ := hstep
        obtain ⟨s', hsteps', hrest⟩ := ihnodes hfollow horder₁ hnodes₁
        exact ⟨s', hsteps.trans hsteps', hrest⟩
      rw [preorder] at hnode
      split at hnode
      · rename_i hskip
        exact ⟨_, .single ⟨node, _, hpop, step_skip hskip⟩, Option.some.inj hnode, horder, rfl⟩
      · rename_i hskip
        obtain ⟨reply, hrun, hsettle⟩ := Option.bind_eq_some_iff.1 hnode
        obtain ⟨hkeep, children, hpushed, hchildren⟩ := exists_children solver epsilon node.problem
          reply.solution (s := ({ s with frontier := { s.frontier with nodes := nodes ++ rest } } :
            State σ α).record node.problem reply) horder
        rw [thread_record] at hchildren
        obtain ⟨s', hsteps, hrest⟩ := ih ((hchildren depth).symm.trans hsettle) hkeep hpushed
        exact ⟨s', .head ⟨node, _, hpop, step_solve hskip hrun⟩ hsteps, hrest⟩

/-! ## Searches -/

/-- The recursive search ends with a root that is infeasible. -/
theorem preorderSearch_of_isInfeasible {root : Reply σ α}
    (hroot : solver.run memory p = some root) (hinf : root.solution.isInfeasible = true) :
    preorderSearch solver epsilon depth memory p =
      some ⟨⟨root.solution, 1, 0, []⟩, root.memory, [⟨p, root.solution⟩]⟩ := by
  rw [preorderSearch, hroot, Option.bind_some]
  exact if_pos hinf

/-- Any other root it settles, as a search visits it. -/
theorem preorderSearch_of_feasible {root : Reply σ α} (hroot : solver.run memory p = some root)
    (hfeas : root.solution.isInfeasible = false) :
    preorderSearch solver epsilon depth memory p =
      settle (preorder solver epsilon depth) epsilon p root.solution
        (solvedRoot ⟨epsilon, .depthFirst⟩ memory p root).thread := by
  rw [preorderSearch, hroot, Option.bind_some]
  exact if_neg (Bool.not_eq_true _ ▸ hfeas)

theorem preorderSearch_mono (h : preorderSearch solver epsilon depth memory p = some t)
    (hle : depth ≤ depth') : preorderSearch solver epsilon depth' memory p = some t := by
  obtain ⟨root, hroot, -⟩ := Option.bind_eq_some_iff.1 h
  cases hinf : root.solution.isInfeasible with
  | true =>
    rw [preorderSearch_of_isInfeasible hroot hinf] at h ⊢
    exact h
  | false =>
    rw [preorderSearch_of_feasible hroot hinf] at h ⊢
    exact settle_mono (fun _ _ _ _ h => preorder_mono h hle) h

/-- **Where the search ends the recursion does**, with the same thread. -/
theorem exists_preorderSearch_of_search {outcome : Outcome σ α}
    (h : search solver ⟨epsilon, .depthFirst⟩ limit memory p = some outcome) :
    ∃ depth, preorderSearch solver epsilon depth memory p = some outcome.thread := by
  obtain ⟨root, hroot, hcases⟩ := search_cases h
  rcases hcases with ⟨hinf, -⟩ | ⟨hfeas, s, hs, rfl⟩
  · obtain ⟨outcome', hsearch, hreport, hcalls, hmemory⟩ :=
      search_of_isInfeasible ⟨epsilon, .depthFirst⟩ limit hroot hinf
    rw [h] at hsearch
    cases hsearch
    refine ⟨0, ?_⟩
    rw [preorderSearch_of_isInfeasible hroot hinf, Outcome.thread, hreport, hcalls, hmemory]
  · obtain ⟨hsteps, hnone⟩ := steps_of_explore hs
    obtain ⟨horder, children, hpushed, hsettle⟩ := exists_children solver epsilon p root.solution
      (s := solvedRoot ⟨epsilon, .depthFirst⟩ memory p root) rfl
    obtain ⟨depth, hdepth⟩ := exists_follow_of_steps hsteps hnone horder
    refine ⟨depth, ?_⟩
    -- before the root is visited the stack is empty
    have hnodes : children ++ [] = children := List.append_nil _
    have hempty : (solvedRoot ⟨epsilon, .depthFirst⟩ memory p root).frontier.nodes = [] := rfl
    rw [hempty, hnodes] at hpushed
    rw [preorderSearch_of_feasible hroot hfeas, hsettle, ← hpushed]
    exact hdepth

/-- **Where the recursion ends the search does**, with the same thread. -/
theorem exists_search_of_preorderSearch
    (h : preorderSearch solver epsilon depth memory p = some t) :
    ∃ limit outcome, search solver ⟨epsilon, .depthFirst⟩ limit memory p = some outcome ∧
      outcome.thread = t := by
  obtain ⟨root, hroot, -⟩ := Option.bind_eq_some_iff.1 h
  cases hinf : root.solution.isInfeasible with
  | true =>
    obtain ⟨outcome, hsearch, hreport, hcalls, hmemory⟩ :=
      search_of_isInfeasible ⟨epsilon, .depthFirst⟩ 0 hroot hinf
    refine ⟨0, outcome, hsearch, ?_⟩
    rw [preorderSearch_of_isInfeasible hroot hinf] at h
    rw [Outcome.thread, hreport, hcalls, hmemory]
    exact Option.some.inj h
  | false =>
    obtain ⟨horder, children, hpushed, hsettle⟩ := exists_children solver epsilon p root.solution
      (s := solvedRoot ⟨epsilon, .depthFirst⟩ memory p root) rfl
    rw [preorderSearch_of_feasible hroot hinf, hsettle] at h
    obtain ⟨s, hsteps, rfl, -, hnodes⟩ := exists_steps_of_follow h horder hpushed
    have hnone : s.frontier.pop = none := Frontier.pop_of_nodes_eq_nil hnodes
    obtain ⟨limit, hlimit⟩ := exists_explore_of_steps hsteps hnone
    exact ⟨limit, _, search_eq_of_explore hroot hinf hlimit, rfl⟩

/-- **The depth-first worklist is the recursive preorder search**, whatever the
wrapped solver answers: the search ends if and only if the recursion does, and
then both have made the same calls, in the same order, and come to the same
report. -/
theorem search_eq_preorder (solver : Solver σ α) (epsilon : α) (memory : σ) (p : Problem α) :
    ((∃ limit outcome, search solver ⟨epsilon, .depthFirst⟩ limit memory p = some outcome) ↔
      ∃ depth t, preorderSearch solver epsilon depth memory p = some t) ∧
    ∀ limit outcome depth t,
      search solver ⟨epsilon, .depthFirst⟩ limit memory p = some outcome →
      preorderSearch solver epsilon depth memory p = some t →
      outcome.calls = t.calls ∧ outcome.report = t.report ∧ outcome.memory = t.memory := by
  refine ⟨⟨?_, ?_⟩, fun limit outcome depth t hsearch hrecursion => ?_⟩
  · rintro ⟨limit, outcome, h⟩
    obtain ⟨depth, hdepth⟩ := exists_preorderSearch_of_search h
    exact ⟨depth, _, hdepth⟩
  · rintro ⟨depth, t, h⟩
    obtain ⟨limit, outcome, hsearch, -⟩ := exists_search_of_preorderSearch h
    exact ⟨limit, outcome, hsearch⟩
  · -- both depths come to the same thread
    obtain ⟨depth', hdepth'⟩ := exists_preorderSearch_of_search hsearch
    have hmax := preorderSearch_mono hdepth' (Nat.le_max_left depth' depth)
    rw [preorderSearch_mono hrecursion (Nat.le_max_right depth' depth)] at hmax
    cases hmax
    exact ⟨rfl, rfl, rfl⟩

/-- Over answers given in turn both make five calls on `boundedPair`. -/
theorem search_eq_preorder_boundedPair :
    ∃ o t, search Method.scripted ⟨0, .depthFirst⟩ 9 fractionalAnswers boundedPair = some o ∧
      preorderSearch Method.scripted 0 4 fractionalAnswers boundedPair = some t ∧
      t.calls.length = 5 ∧ o.calls = t.calls ∧ o.report = t.report ∧ o.memory = t.memory := by
  obtain ⟨o, ho⟩ : ∃ o, search Method.scripted ⟨0, .depthFirst⟩ 9 fractionalAnswers boundedPair =
      some o := Option.isSome_iff_exists.1 (by decide +kernel)
  have hrun : (preorderSearch Method.scripted 0 4 fractionalAnswers boundedPair).map
      (fun t => t.calls.length) = some 5 := by decide +kernel
  obtain ⟨t, ht, hlength⟩ := Option.map_eq_some_iff.1 hrun
  exact ⟨o, t, ho, ht, hlength,
    (search_eq_preorder Method.scripted 0 fractionalAnswers boundedPair).2 9 o 4 t ho ht⟩

end Search

end Milp
