import Milp.Proofs.Number.Ranking
import Milp.Proofs.Search.Positions
/-!
# Best first

The frontier of a best-first search is sorted, so the node that is taken is
the only greatest one (`Frontier.Sorted.forall_isLE_iff`). Once that one
cannot beat the incumbent no other can, and the search only skips from there
on (`Beaten.steps`). Over a pure solver that is monotone under branching the
node that is taken bounds what is still to be found, so no node is solved
whose parent has an answer below the result (`le_bound_of_passes`): up to
ties, a best-first search solves only what every search has to solve.
-/

namespace Milp

namespace Search

variable {σ α : Type} [Scalar α]

/-! ## The order of nodes -/

section Rank

variable [Scalar.Ranked α] {a b : Node α}

/-- **Nodes are totally ordered**, by their bounds first. -/
instance : Std.TransCmp (Node.rank : Node α → Node α → Ordering) :=
  have : Std.TransCmp fun a b : Node α => Scalar.order a.bound b.bound :=
    { eq_swap := Std.OrientedCmp.eq_swap, isLE_trans := Std.TransCmp.isLE_trans }
  have : Std.TransCmp fun a b : Node α => compare b.seq a.seq :=
    { eq_swap := Std.OrientedCmp.eq_swap
      isLE_trans := fun hab hbc => Std.TransCmp.isLE_trans hbc hab }
  inferInstanceAs (Std.TransCmp (compareLex (fun a b : Node α => Scalar.order a.bound b.bound)
    (fun a b => compare b.seq a.seq)))

omit [Scalar.Ranked α] in
/-- Only nodes with one number are at one place. -/
theorem seq_eq_of_rank_eq (h : a.rank b = .eq) : a.seq = b.seq :=
  (compare_eq_iff_eq.1 (Ordering.then_eq_eq.1 h).2).symm

omit [Scalar.Ranked α] in
/-- A greater node has no lower bound. -/
theorem isLE_order_of_rank (h : (a.rank b).isLE = true) :
    (Scalar.order a.bound b.bound).isLE = true := by
  rcases Ordering.isLE_then_iff_or.1 h with h | ⟨h, -⟩ <;> rw [h] <;> rfl

end Rank

namespace Frontier

variable {f rest : Frontier α} {node n : Node α} {nodes : List (Node α)}

/-- **The frontier of a best-first search.** -/
structure Sorted (f : Frontier α) : Prop where
  /-- The node with the highest bound is taken next. -/
  order_eq : f.order = .bestFirst
  /-- Every node is greater than those after it. -/
  pairwise : f.nodes.Pairwise fun a b => a.rank b = .gt
  /-- The nodes were queued before. -/
  lt_queued : ∀ n ∈ f.nodes, n.seq < f.queued

theorem sorted_empty : (empty .bestFirst : Frontier α).Sorted :=
  ⟨rfl, .nil, fun _ hn => absurd hn List.not_mem_nil⟩

theorem Sorted.pop (h : f.Sorted) (hpop : f.pop = some (node, rest)) : rest.Sorted := by
  obtain ⟨hnodes, hqueued, horder⟩ := nodes_of_pop hpop
  refine ⟨horder.trans h.order_eq, ?_, fun n hn => ?_⟩
  · have hpairwise := h.pairwise
    rw [hnodes] at hpairwise
    exact hpairwise.of_cons
  · exact hqueued ▸ h.lt_queued n ((mem_nodes_of_pop hpop).2 (.inr hn))

variable [Scalar.Ranked α]

/-- **A node is put in at its place.** -/
theorem pairwise_insert (h : nodes.Pairwise fun a b => a.rank b = .gt)
    (hseq : ∀ n ∈ nodes, n.seq ≠ node.seq) :
    (insert node nodes).Pairwise fun a b => a.rank b = .gt := by
  induction nodes with
  | nil => exact List.pairwise_singleton _ _
  | cons head tail ih =>
    obtain ⟨hhead, htail⟩ := List.pairwise_cons.1 h
    rw [insert]
    split
    · rename_i hgt
      have hgt : node.rank head = .gt := eq_of_beq hgt
      refine List.pairwise_cons.2 ⟨fun n hn => ?_, h⟩
      rcases List.mem_cons.1 hn with rfl | hn
      · exact hgt
      · exact Std.TransCmp.gt_trans hgt (hhead n hn)
    · rename_i hngt
      refine List.pairwise_cons.2 ⟨fun n hn => ?_, ih htail fun n hn => hseq n (.tail _ hn)⟩
      rcases mem_insert.1 hn with rfl | hn
      · -- the two have different numbers
        refine Std.OrientedCmp.gt_iff_lt.2 ?_
        cases hrank : n.rank head with
        | lt => rfl
        | eq => exact absurd (seq_eq_of_rank_eq hrank).symm (hseq head List.mem_cons_self)
        | gt => exact absurd (beq_iff_eq.2 hrank) hngt
      · exact hhead n hn

theorem Sorted.push (h : f.Sorted) (q : Problem α) (bound : Level α) :
    (f.push q bound).Sorted := by
  obtain ⟨order, nodes, queued⟩ := f
  obtain ⟨rfl, hpairwise, hlt⟩ := h
  refine ⟨rfl, pairwise_insert hpairwise fun n hn => (hlt n hn).ne, fun n hn => ?_⟩
  rcases mem_insert.1 hn with rfl | hn
  · exact Nat.lt_succ_self _
  · exact (hlt n hn).trans (Nat.lt_succ_self _)

theorem Sorted.pushChildren (h : f.Sorted) (first second : Problem α) (bound : Level α) :
    (f.pushChildren first second bound).Sorted := by
  rw [Frontier.pushChildren, h.order_eq]
  exact (h.push first bound).push second bound

/-- **The node that is taken is the only greatest one.** -/
theorem Sorted.forall_isLE_iff (h : f.Sorted) (hpop : f.pop = some (node, rest))
    (hn : n ∈ f.nodes) : (∀ m ∈ f.nodes, (m.rank n).isLE = true) ↔ n = node := by
  have hpairwise := h.pairwise
  rw [(nodes_of_pop hpop).1] at hpairwise
  obtain ⟨hgt, -⟩ := List.pairwise_cons.1 hpairwise
  constructor
  · intro hgreatest
    refine ((mem_nodes_of_pop hpop).1 hn).resolve_right fun hrest => ?_
    have hle := hgreatest node ((mem_nodes_of_pop hpop).2 (.inl rfl))
    exact Ordering.isLE_iff_ne_gt.1 hle (hgt n hrest)
  · rintro rfl m hm
    rcases (mem_nodes_of_pop hpop).1 hm with rfl | hrest
    · exact Std.ReflCmp.isLE_rfl
    · rw [Std.OrientedCmp.gt_iff_lt.1 (hgt m hrest)]
      rfl

/-- No other node has a higher bound. -/
theorem Sorted.isLE_order (h : f.Sorted) (hpop : f.pop = some (node, rest)) (hn : n ∈ f.nodes) :
    (Scalar.order n.bound node.bound).isLE = true := by
  have hnode : node ∈ f.nodes := (mem_nodes_of_pop hpop).2 (.inl rfl)
  exact isLE_order_of_rank ((h.forall_isLE_iff hpop hnode).2 rfl n hn)

end Frontier

variable {solver : Solver σ α} {epsilon : α} {memory : σ} {p : Problem α} {s s' : State σ α}
variable {node : Node α} {frontier : Frontier α}

/-- **All the way the frontier is sorted.** -/
theorem sorted_of_passes [Scalar.Ranked α]
    (h : Passes solver ⟨epsilon, .bestFirst⟩ memory p s) : s.frontier.Sorted := by
  refine h.induction (fun s => s.frontier.Sorted) (fun _ _ => True) Frontier.sorted_empty trivial
    (fun hs hpop => ⟨hs.pop hpop, trivial⟩) (fun hs _ => hs) fun {s q reply} hs _ _ => ?_
  rcases visit_cases epsilon q reply.solution (s.record q reply) with
    ⟨-, heq⟩ | ⟨-, -, -, heq⟩ | ⟨f, -, -, -, heq⟩ <;> rw [heq]
  · exact hs
  · exact hs
  · exact hs.pushChildren _ _ _

/-! ## Skipping -/

/-- **Every bound is an answer.** -/
theorem exists_call_of_pending {cfg : Config α} (h : Passes solver cfg memory p s)
    {q : Problem α} {b : Level α} (hq : s.frontier.Pending q b) :
    ∃ c ∈ s.calls, b = c.answer.objective := by
  refine h.induction
    (fun s => ∀ q b, s.frontier.Pending q b → ∃ c ∈ s.calls, b = c.answer.objective)
    (fun _ _ => True) (fun q b hq => absurd hq (Frontier.not_pending_empty _)) trivial
    (fun hs hpop => ⟨fun q b hq => hs q b ((Frontier.pending_of_pop hpop).2 (.inr hq)), trivial⟩)
    (fun hs _ => hs) (fun {s q reply} hs _ _ => ?_) q b hq
  have hrecord : ∀ r b, s.frontier.Pending r b →
      ∃ c ∈ (s.record q reply).calls, b = c.answer.objective := by
    intro r b hr
    obtain ⟨c, hc, hb⟩ := hs r b hr
    exact ⟨c, List.mem_cons_of_mem _ hc, hb⟩
  rw [calls_visit]
  rcases visit_cases cfg.epsilon q reply.solution (s.record q reply) with
    ⟨-, heq⟩ | ⟨-, -, -, heq⟩ | ⟨f, -, -, -, heq⟩ <;> rw [heq]
  · exact hrecord
  · exact hrecord
  · intro r b hr
    rcases Frontier.pending_pushChildren.1 hr with ⟨-, rfl⟩ | hr
    · exact ⟨_, List.mem_cons_self, rfl⟩
    · exact hrecord r b hr

/-- **No node that waits can beat the incumbent.** -/
def Beaten (s : State σ α) : Prop := ∀ q b, s.frontier.Pending q b → b ≤ s.incumbent

/-- From there on nodes are skipped and no problem is solved. -/
theorem Beaten.steps (h : Beaten s) (hsteps : Relation.ReflTransGen (Steps solver epsilon) s s') :
    Beaten s' ∧ s'.calls = s.calls := by
  induction hsteps with
  | refl => exact ⟨h, rfl⟩
  | @tail u u' _ hstep ih =>
    obtain ⟨hbeaten, hcalls⟩ := ih
    obtain ⟨node, frontier, hpop, hstep⟩ := hstep
    have hpending := fun q b => Frontier.pending_of_pop hpop (q := q) (b := b)
    rcases step_eq_some hstep with ⟨-, rfl⟩ | ⟨hlt, -⟩
    · exact ⟨fun q b hq => hbeaten q b ((hpending q b).2 (.inr hq)), hcalls⟩
    · exact absurd (hbeaten _ _ ((hpending _ _).2 (.inl ⟨rfl, rfl⟩))) hlt

/-- The next node is skipped. -/
theorem Beaten.bound_le (h : Beaten s) (hpop : s.frontier.pop = some (node, frontier)) :
    node.bound ≤ s.incumbent :=
  h _ _ ((Frontier.pending_of_pop hpop).2 (.inl ⟨rfl, rfl⟩))

variable [Scalar.Ranked α]

/-- **The next node has the highest bound.** -/
theorem le_bound_of_pending (h : Passes solver ⟨epsilon, .bestFirst⟩ memory p s)
    (hpop : s.frontier.pop = some (node, frontier))
    (hproper : ∀ q b, s.frontier.Pending q b → b.IsProper) {q : Problem α} {b : Level α}
    (hq : s.frontier.Pending q b) : b ≤ node.bound := by
  have hnode : s.frontier.Pending node.problem node.bound :=
    (Frontier.pending_of_pop hpop).2 (.inl ⟨rfl, rfl⟩)
  have hb := hproper q b hq
  obtain ⟨n, hn, -, rfl⟩ := hq
  exact Scalar.Ranked.le_of_isLE hb (hproper _ _ hnode) ((sorted_of_passes h).isLE_order hpop hn)

/-- **When the next node cannot beat the incumbent, none can.** -/
theorem beaten_of_bound_le (h : Passes solver ⟨epsilon, .bestFirst⟩ memory p s)
    (hpop : s.frontier.pop = some (node, frontier))
    (hproper : ∀ c ∈ s.calls, c.answer.objective.IsProper) (hle : node.bound ≤ s.incumbent) :
    Beaten s := by
  intro q b hq
  refine Level.le_trans (le_bound_of_pending h hpop (fun r b hr => ?_) hq) hle
  obtain ⟨c, hc, rfl⟩ := exists_call_of_pending h hr
  exact hproper c hc

/-! ## Over a pure solver -/

variable {answer : Problem α → Solution α} {u : State Unit α} {z : Level α}

/-- **What is still to be found is below the next node**, so that one is not
solved when its bound is below the best of the leaves. -/
theorem le_bound_of_passes (hmono : MonotoneBranching answer epsilon p)
    (hproper : ∀ q, InTree answer epsilon p q → (answer q).objective.IsProper)
    (hbest : IsBest answer epsilon p z)
    (h : Passes (Solver.pure answer) ⟨epsilon, .bestFirst⟩ () p u)
    (hpop : u.frontier.pop = some (node, frontier)) (hlt : ¬ node.bound ≤ u.incumbent) :
    z ≤ node.bound := by
  have hbound : ∀ q b, u.frontier.Pending q b → b.IsProper := by
    intro q b hq
    obtain ⟨r, hr, rfl⟩ := exists_parent_of_pending hmono h hq
    exact hproper r hr
  have hnode : node.bound.IsNumber :=
    (hbound _ _ ((Frontier.pending_of_pop hpop).2 (.inl ⟨rfl, rfl⟩))).isNumber
  rcases hbest.attained with ⟨r, hr, hleaf, rfl⟩ | ⟨rfl, -⟩
  · have hcov := (covering_of_monotone hmono).covered_of_passes .root h
    rcases hcov.cover r ⟨hr, hleaf⟩ with hle | ⟨q, b, hq, hold⟩
    · -- the best leaf is found, and the node is above the incumbent
      exact Level.le_trans hle (Level.le_of_not_le hnode hcov.isNumber hlt)
    · exact Level.le_trans (hcov.le_bound q b hq r hold) (le_bound_of_pending h hpop hbound hq)
  · exact Level.bottom_le hnode

/-- **A best-first search takes the best node, and solves no more than it
has to.**

Whatever the wrapped solver answers, the node that is taken is the only
greatest one among those that wait. If no answer so far has an objective that
is no number (`Level.IsProper`), and that node is skipped, then all nodes from
there on are skipped and the wrapped solver is not called again. Over a pure
solver that is monotone under branching, every node of the tree without pruning
whose parent has an answer above the result of a search that ends is solved by
it, in both orders; a best-first search solves none whose parent has an answer
below the result. -/
theorem search_bestFirst (solver : Solver σ α) (epsilon : α) (memory : σ) (p : Problem α) :
    (∀ (s : State σ α) (node : Node α) (frontier : Frontier α),
      Passes solver ⟨epsilon, .bestFirst⟩ memory p s → s.frontier.pop = some (node, frontier) →
        node ∈ s.frontier.nodes ∧
        (∀ n ∈ s.frontier.nodes,
          (∀ m ∈ s.frontier.nodes, (m.rank n).isLE = true) ↔ n = node) ∧
        ((∀ c ∈ s.calls, c.answer.objective.IsProper) → node.bound ≤ s.incumbent →
          ∀ s', Relation.ReflTransGen (Steps solver epsilon) s s' → s'.calls = s.calls ∧
            ∀ node' frontier', s'.frontier.pop = some (node', frontier') →
              node'.bound ≤ s'.incumbent)) ∧
    ∀ (answer : Problem α → Solution α) (order : Order) (limit : ℕ) (outcome : Outcome Unit α),
      MonotoneBranching answer epsilon p →
      search (Solver.pure answer) ⟨epsilon, order⟩ limit () p = some outcome →
        ∃ solved, Solved answer epsilon p outcome.calls solved ∧
          (∀ side path q, problemAt answer epsilon p path = some q →
            (problemAt answer epsilon p (side :: path)).isSome = true →
            outcome.report.solution.objective < (answer q).objective → side :: path ∈ solved) ∧
          (order = .bestFirst →
            (∀ q, InTree answer epsilon p q → (answer q).objective.IsProper) →
            ∀ side path q, side :: path ∈ solved → problemAt answer epsilon p path = some q →
              ¬ (answer q).objective < outcome.report.solution.objective) := by
  refine ⟨fun s node frontier hs hpop => ⟨(Frontier.mem_nodes_of_pop hpop).2 (.inl rfl),
    fun n hn => (sorted_of_passes hs).forall_isLE_iff hpop hn, fun hproper hle s' hsteps => ?_⟩,
    fun answer order limit outcome hmono h => ?_⟩
  · obtain ⟨hbeaten, hcalls⟩ := (beaten_of_bound_le hs hpop hproper hle).steps hsteps
    exact ⟨hcalls, fun node' frontier' hpop' => hbeaten.bound_le hpop'⟩
  · have hbest : IsBest answer epsilon p outcome.report.solution.objective :=
      isBest_of_search hmono h
    -- what is known of the bounds under which nodes are solved depends on the order
    have hbound : ∀ s node frontier, Passes (Solver.pure answer) ⟨epsilon, order⟩ () p s →
        s.frontier.pop = some (node, frontier) → ¬ node.bound ≤ s.incumbent →
        order = .bestFirst → (∀ q, InTree answer epsilon p q → (answer q).objective.IsProper) →
          outcome.report.solution.objective ≤ node.bound := by
      rintro s node frontier hs hpop hlt rfl hproper
      exact le_bound_of_passes hmono hproper hbest hs hpop hlt
    obtain ⟨solved, hsolved, habove, hbelow⟩ := exists_solved_of_search ⟨epsilon, order⟩
      (fun b => order = .bestFirst →
        (∀ q, InTree answer epsilon p q → (answer q).objective.IsProper) →
          outcome.report.solution.objective ≤ b) hmono hbound h
    exact ⟨solved, hsolved, habove, fun horder hproper side path q hx hq hlt =>
      hlt.2 (hbelow side path q hx hq horder hproper)⟩

/-- Every level of rational numbers is proper. -/
theorem isProper_rat (a : Level ℚ) : a.IsProper :=
  ⟨isNumber_rat a, fun _ h => h ▸ rfl⟩

/-- A problem whose root has one child that is split and one that is not. -/
def unevenRoot : Problem ℚ where
  objective := [5, 6]
  rows := [⟨[6, 4], 25⟩, ⟨[1, 2], 5⟩]
  integer := [true, true]
  objective_ne_nil := List.cons_ne_nil _ _
  rows_ne_nil := List.cons_ne_nil _ _
  length_coefficients := List.forall_mem_cons.2 ⟨rfl, List.forall_mem_singleton.2 rfl⟩
  length_integer := by decide

/-- After three nodes the best-first search of `unevenRoot` skips. -/
theorem exists_skipped_unevenRoot :
    ∃ s node frontier, Passes (Solver.pure relaxation) ⟨0, .bestFirst⟩ () unevenRoot s ∧
      s.frontier.pop = some (node, frontier) ∧ node.bound ≤ s.incumbent := by
  let root : Reply Unit ℚ := ⟨relaxation unevenRoot, [], ()⟩
  let advance (s : State Unit ℚ) : Option (State Unit ℚ) :=
    s.frontier.pop.bind fun x => step (Solver.pure relaxation) 0 x.1 { s with frontier := x.2 }
  have hadvance : ∀ {s s'}, Passes (Solver.pure relaxation) ⟨0, .bestFirst⟩ () unevenRoot s →
      advance s = some s' → Passes (Solver.pure relaxation) ⟨0, .bestFirst⟩ () unevenRoot s' := by
    intro s s' hs h
    obtain ⟨x, hpop, hstep⟩ := Option.bind_eq_some_iff.1 h
    exact hs.step hpop hstep
  have hskip : (((advance ((solvedRoot ⟨0, .bestFirst⟩ () unevenRoot root).visit 0 unevenRoot
      root.solution)).bind advance).bind fun s => s.frontier.pop.map fun x =>
        decide (x.1.bound ≤ s.incumbent)) = some true := by decide +kernel
  obtain ⟨s, hs, hpop⟩ := Option.bind_eq_some_iff.1 hskip
  obtain ⟨s₁, hs₁, hs⟩ := Option.bind_eq_some_iff.1 hs
  obtain ⟨⟨node, frontier⟩, hpop, hle⟩ := Option.map_eq_some_iff.1 hpop
  have hroot : root.solution.isInfeasible = false := by decide +kernel
  exact ⟨s, node, frontier, hadvance (hadvance (.root rfl hroot) hs₁) hs, hpop,
    of_decide_eq_true hle⟩

/-- On `unevenRoot` both children of the root are solved, since their parent has
45/2 and the result is 21. Those of the child that was split are skipped, since
that one has 125/6. -/
theorem search_bestFirst_unevenRoot :
    ∃ s node frontier o, Passes (Solver.pure relaxation) ⟨0, .bestFirst⟩ () unevenRoot s ∧
      s.frontier.pop = some (node, frontier) ∧ node.bound ≤ s.incumbent ∧
      (∀ s', Relation.ReflTransGen (Steps (Solver.pure relaxation) 0) s s' → s'.calls = s.calls) ∧
      search (Solver.pure relaxation) ⟨0, .bestFirst⟩ 20 () unevenRoot = some o ∧
      o.report.solution.objective = .number 21 ∧
      MonotoneBranching relaxation 0 unevenRoot ∧
      ∃ solved, Solved relaxation 0 unevenRoot o.calls solved ∧ [.ceil] ∈ solved ∧
        (problemAt relaxation 0 unevenRoot [.floor, .floor]).isSome = true ∧
        [.floor, .floor] ∉ solved := by
  have hmono := monotoneBranching_of_exact exactAnswer_relaxation 0 unevenRoot
  obtain ⟨hpops, hsolves⟩ := search_bestFirst (Solver.pure relaxation) 0 () unevenRoot
  obtain ⟨s, node, frontier, hpass, hpop, hle⟩ := exists_skipped_unevenRoot
  have hrun : (search (Solver.pure relaxation) ⟨0, .bestFirst⟩ 20 () unevenRoot).map
      (fun o => o.report.solution.objective.number?) = some (some 21) := by decide +kernel
  obtain ⟨o, ho, hobj⟩ := Option.map_eq_some_iff.1 hrun
  have hobj : o.report.solution.objective = .number 21 := by
    cases hlevel : o.report.solution.objective <;> rw [hlevel] at hobj <;> cases hobj
    rfl
  obtain ⟨solved, hsolved, habove, hbelow⟩ := hsolves relaxation .bestFirst 20 o hmono ho
  rw [hobj] at habove hbelow
  have hfloor : (problemAt relaxation 0 unevenRoot [.floor]).any (fun q =>
      decide ((relaxation q).objective ≤ .number 21) &&
        !decide (.number 21 ≤ (relaxation q).objective)) = true := by decide +kernel
  obtain ⟨q, hq, hlt⟩ := (Option.any_eq_true _ _).1 hfloor
  refine ⟨s, node, frontier, o, hpass, hpop, hle, fun s' hsteps => ?_, ho, hobj, hmono, solved,
    hsolved, ?_, by decide +kernel, fun hmem => ?_⟩
  · exact ((hpops s node frontier hpass hpop).2.2 (fun c _ => isProper_rat _) hle s' hsteps).1
  · exact habove .ceil [] unevenRoot rfl (by decide +kernel) ⟨by decide +kernel, by decide +kernel⟩
  · refine hbelow rfl (fun r _ => isProper_rat _) .floor [.floor] q hmem hq ?_
    rw [Bool.and_eq_true, Bool.not_eq_true'] at hlt
    exact ⟨of_decide_eq_true hlt.1, of_decide_eq_false hlt.2⟩

end Search

end Milp
