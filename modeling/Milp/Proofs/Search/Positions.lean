import Mathlib.Data.List.Perm.Basic
import Milp.Proofs.Search.Orders
/-!
# Which nodes of the tree are solved

A node of the tree without pruning is known by its position, the sides that
were taken on the way to it. Over a pure solver every call of a search is a
call for one position, and no two are for the same (`Located`). A child of a
node that was solved is solved or waits, unless the answer to the node cannot
beat the incumbent. So at the end, whatever the order, every node is solved
whose parent has an answer above the result (`exists_solved_of_search`).
-/

namespace Milp

namespace Search

variable {α : Type} [Scalar α]

/-! ## Positions -/

/-- What a problem is split at, where it is split. -/
def splitting (answer : Problem α → Solution α) (epsilon : α) (q : Problem α) :
    Option (Fractional α) :=
  if (answer q).isInfeasible then none else branching q epsilon (answer q).values

/-- **The problem at a position** of the tree without pruning, where there is
one. A position is the list of the sides from the root on, the last one
first. -/
def problemAt (answer : Problem α → Solution α) (epsilon : α) (p : Problem α) :
    List Side → Option (Problem α)
  | [] => some p
  | side :: path => (problemAt answer epsilon p path).bind fun q =>
    (splitting answer epsilon q).map (side.child q)

variable {answer : Problem α → Solution α} {epsilon : α} {p q r : Problem α} {f : Fractional α}
variable {side : Side} {path : List Side}

/-- A problem is split at what it is said to be split at. -/
theorem splitting_eq_some_iff :
    splitting answer epsilon q = some f ↔ Splits answer epsilon q f := by
  unfold splitting
  split
  · rename_i hinf
    refine iff_of_false nofun fun h => ?_
    rw [h.feasible] at hinf
    cases hinf
  · rename_i hfeas
    exact ⟨fun h => ⟨Bool.not_eq_true _ ▸ hfeas, h⟩, Splits.fractional⟩

theorem problemAt_cons_eq_some_iff : problemAt answer epsilon p (side :: path) = some r ↔
    ∃ q f, problemAt answer epsilon p path = some q ∧ Splits answer epsilon q f ∧
      side.child q f = r := by
  simp only [problemAt, Option.bind_eq_some_iff, Option.map_eq_some_iff, splitting_eq_some_iff]
  exact exists_congr fun q => ⟨fun ⟨hq, f, hf⟩ => ⟨f, hq, hf⟩, fun ⟨f, hq, hf⟩ => ⟨hq, f, hf⟩⟩

theorem problemAt_child (hq : problemAt answer epsilon p path = some q)
    (hs : Splits answer epsilon q f) (side : Side) :
    problemAt answer epsilon p (side :: path) = some (side.child q f) :=
  problemAt_cons_eq_some_iff.2 ⟨q, f, hq, hs, rfl⟩

/-- **The problems at positions** are those of the tree. -/
theorem inTree_iff : InTree answer epsilon p q ↔
    ∃ path, problemAt answer epsilon p path = some q := by
  constructor
  · intro h
    induction h using InTree.child_induction with
    | root => exact ⟨[], rfl⟩
    | child side _ hs ih =>
      obtain ⟨path, hq⟩ := ih
      exact ⟨side :: path, problemAt_child hq hs side⟩
  · rintro ⟨path, hq⟩
    induction path generalizing q with
    | nil =>
      cases hq
      exact .root
    | cons side path ih =>
      obtain ⟨parent, f, hparent, hs, rfl⟩ := problemAt_cons_eq_some_iff.1 hq
      exact (ih hparent).child hs side

/-! ## Solved and waiting positions -/

/-- The answer to the parent of a position is as said, unless that is the
root. -/
def ParentAnswer (answer : Problem α → Solution α) (epsilon : α) (p : Problem α)
    (Bound : Level α → Prop) (path : List Side) : Prop :=
  ∀ side parent q, path = side :: parent → problemAt answer epsilon p parent = some q →
    Bound (answer q).objective

/-- **How much of the tree a search knows**: the positions of the nodes that
were solved and of those that wait. `Bound` holds of the answers under which
nodes were solved. -/
structure Known (answer : Problem α → Solution α) (epsilon : α) (p : Problem α)
    (Bound : Level α → Prop) (incumbent : Level α) (solved waiting : List (List Side)) :
    Prop where
  /-- The root is one of them. -/
  root : [] ∈ solved ++ waiting
  /-- No position is there twice. -/
  nodup : (solved ++ waiting).Nodup
  /-- The parent of every other one was solved. -/
  parent : ∀ side path, side :: path ∈ solved ++ waiting → path ∈ solved
  /-- The answer to the parent of a node that was solved. -/
  bound : ∀ path ∈ solved, ParentAnswer answer epsilon p Bound path
  /-- A child of a node that was solved is there, unless it cannot beat the
  incumbent. -/
  child : ∀ side path q f, path ∈ solved → problemAt answer epsilon p path = some q →
    Splits answer epsilon q f →
      side :: path ∈ solved ++ waiting ∨ (answer q).objective ≤ incumbent

namespace Known

variable {Bound : Level α → Prop} {incumbent incumbent' : Level α}
variable {solved waiting waiting' : List (List Side)}

/-- Before the root is solved it waits. -/
theorem initial : Known answer epsilon p Bound incumbent [] [[]] where
  root := List.mem_singleton_self _
  nodup := List.nodup_singleton _
  parent side path h := by simp at h
  bound path h := absurd h List.not_mem_nil
  child side path q f h := absurd h List.not_mem_nil

theorem perm (h : Known answer epsilon p Bound incumbent solved waiting)
    (hperm : waiting.Perm waiting') : Known answer epsilon p Bound incumbent solved waiting' := by
  have hmem : ∀ {x}, x ∈ solved ++ waiting ↔ x ∈ solved ++ waiting' :=
    (hperm.append_left solved).mem_iff
  exact ⟨hmem.1 h.root, (hperm.append_left solved).nodup_iff.1 h.nodup,
    fun side path hx => h.parent side path (hmem.2 hx), h.bound,
    fun side path q f hpath hq hs => (h.child side path q f hpath hq hs).imp_left hmem.1⟩

/-- A node that cannot beat the incumbent is skipped. -/
theorem skip (h : Known answer epsilon p Bound incumbent solved ((side :: path) :: waiting))
    (hskip : ParentAnswer answer epsilon p (· ≤ incumbent) (side :: path)) :
    Known answer epsilon p Bound incumbent solved waiting := by
  have hmem : ∀ {x}, x ∈ solved ++ (side :: path) :: waiting ↔
      x = side :: path ∨ x ∈ solved ++ waiting :=
    List.perm_middle.mem_iff.trans List.mem_cons
  refine ⟨(hmem.1 h.root).resolve_left nofun, (List.nodup_middle.1 h.nodup).of_cons,
    fun side path hx => h.parent side path (hmem.2 (.inr hx)), h.bound,
    fun side' path' q f hpath hq hs => ?_⟩
  rcases h.child side' path' q f hpath hq hs with hx | hle
  · refine (hmem.1 hx).symm.imp_right fun heq => ?_
    cases heq
    exact hskip side path q rfl hq
  · exact .inr hle

variable [Scalar.Ordered α]

/-- **A node that is solved** has no children there yet, and then has those
that are queued. -/
theorem solve (h : Known answer epsilon p Bound incumbent solved (path :: waiting))
    (hq : problemAt answer epsilon p path = some q)
    (hbound : ParentAnswer answer epsilon p Bound path)
    (hincumbent : incumbent ≤ incumbent') {queued : List (List Side)} (hnodup : queued.Nodup)
    (hqueued : ∀ x ∈ queued, ∃ side, x = side :: path)
    (hchild : ∀ side f, Splits answer epsilon q f →
      side :: path ∈ queued ∨ (answer q).objective ≤ incumbent') :
    Known answer epsilon p Bound incumbent' (path :: solved) (queued ++ waiting) := by
  have hperm : (path :: solved ++ (queued ++ waiting)).Perm
      (queued ++ (solved ++ path :: waiting)) :=
    (List.perm_append_comm_assoc _ _ _).trans (List.perm_middle.symm.append_left queued)
  have hmem : ∀ {x}, x ∈ path :: solved ++ (queued ++ waiting) ↔
      x ∈ queued ∨ x ∈ solved ++ path :: waiting := hperm.mem_iff.trans List.mem_append
  have hfresh : path ∉ solved := fun hx =>
    (List.nodup_cons.1 (List.nodup_middle.1 h.nodup)).1 (List.mem_append_left _ hx)
  refine ⟨hmem.2 (.inr h.root), hperm.nodup_iff.2 (List.Nodup.append hnodup h.nodup ?_), ?_, ?_, ?_⟩
  · -- a child that is there has a parent that was solved
    intro x hx hx'
    obtain ⟨side, rfl⟩ := hqueued x hx
    exact hfresh (h.parent side path hx')
  · intro side parent hx
    rcases hmem.1 hx with hx | hx
    · obtain ⟨side', heq⟩ := hqueued _ hx
      cases heq
      exact List.mem_cons_self
    · exact List.mem_cons_of_mem _ (h.parent side parent hx)
  · intro x hx
    rcases List.mem_cons.1 hx with rfl | hx
    · exact hbound
    · exact h.bound x hx
  · intro side parent r f hx hr hs
    rcases List.mem_cons.1 hx with rfl | hx
    · cases hq.symm.trans hr
      exact (hchild side f hs).imp_left fun hx => hmem.2 (.inl hx)
    · rcases h.child side parent r f hx hr hs with hx | hle
      · exact .inl (hmem.2 (.inr hx))
      · exact .inr (Level.le_trans hle hincumbent)

end Known

/-! ## A search over a pure solver -/

/-- A problem was solved at a position. -/
structure SolvedAt (answer : Problem α → Solution α) (epsilon : α) (p : Problem α)
    (path : List Side) (c : Call α) : Prop where
  /-- It is the one that is there. -/
  problem_eq : problemAt answer epsilon p path = some c.problem
  /-- The solver gave its answer. -/
  answer_eq : c.answer = answer c.problem

/-- A node waits at a position. -/
structure WaitsAt (answer : Problem α → Solution α) (epsilon : α) (p : Problem α)
    (path : List Side) (node : Node α) : Prop where
  /-- It has the problem that is there. -/
  problem_eq : problemAt answer epsilon p path = some node.problem
  /-- It is bounded by the answer to its parent. -/
  bound_eq : ∃ side parent q, path = side :: parent ∧
    problemAt answer epsilon p parent = some q ∧ node.bound = (answer q).objective

/-- What holds of its bound holds of that answer. -/
theorem WaitsAt.parentAnswer {node : Node α} {Bound : Level α → Prop}
    (h : WaitsAt answer epsilon p path node) (hbound : Bound node.bound) :
    ParentAnswer answer epsilon p Bound path := by
  obtain ⟨side, parent, q, rfl, hq, hb⟩ := h.bound_eq
  rintro _ _ r ⟨⟩ hr
  cases hq.symm.trans hr
  exact hb ▸ hbound

/-- **Where a search is in the tree**: the solved positions are those of its
calls, and the waiting ones those of its pending nodes. -/
structure Located (answer : Problem α → Solution α) (epsilon : α) (p : Problem α)
    (Bound : Level α → Prop) (s : State Unit α) (solved waiting : List (List Side)) : Prop where
  /-- Both are part of the tree. -/
  known : Known answer epsilon p Bound s.incumbent solved waiting
  /-- A call for each solved position. -/
  calls : List.Forall₂ (SolvedAt answer epsilon p) solved s.calls
  /-- A pending node for each other one. -/
  nodes : List.Forall₂ (WaitsAt answer epsilon p) waiting s.frontier.nodes

variable {Bound : Level α → Prop} {s s' : State Unit α} {solved waiting : List (List Side)}

variable [Scalar.Ordered α]

/-- **Solving and visiting a node** adds its position to the solved ones, and
the positions of its children to those that wait. -/
theorem exists_located_visit
    (hknown : Known answer epsilon p Bound s.incumbent solved (path :: waiting))
    (hcalls : List.Forall₂ (SolvedAt answer epsilon p) solved s.calls)
    (hnodes : List.Forall₂ (WaitsAt answer epsilon p) waiting s.frontier.nodes)
    (hq : problemAt answer epsilon p path = some q)
    (hbound : ParentAnswer answer epsilon p Bound path)
    (hincumbent : s.incumbent.IsNumber) (hnumber : (answer q).objective.IsNumber)
    {reply : Reply Unit α} (hrun : (Solver.pure answer).run s.memory q = some reply) :
    ∃ waiting', Located answer epsilon p Bound
      ((s.record q reply).visit epsilon q reply.solution) (path :: solved) waiting' := by
  cases hrun
  rcases visit_cases epsilon q (answer q) (s.record q ⟨answer q, [], ()⟩) with
    ⟨hworse, heq⟩ | ⟨-, hbetter, hintegral, heq⟩ | ⟨f, hfeas, -, hfrac, heq⟩ <;> rw [heq]
  · -- what is pruned has no children or cannot beat the incumbent
    refine ⟨waiting, ⟨hknown.solve hq hbound hincumbent List.nodup_nil (by simp) ?_, ?_, hnodes⟩⟩
    · intro side f hs
      exact .inr (hworse.resolve_left fun hinf => Bool.false_ne_true (hs.feasible.symm.trans hinf))
    · exact .cons ⟨hq, rfl⟩ hcalls
  · have hle : s.incumbent ≤ (answer q).objective :=
      Level.le_of_not_le hnumber hincumbent hbetter
    refine ⟨waiting, ⟨hknown.solve hq hbound hle List.nodup_nil (by simp) ?_, ?_, hnodes⟩⟩
    · intro side f hs
      cases hintegral.symm.trans hs.fractional
    · exact .cons ⟨hq, rfl⟩ hcalls
  · have hs : Splits answer epsilon q f := ⟨hfeas, hfrac⟩
    obtain ⟨i, j, hperm⟩ := Frontier.exists_nodes_pushChildren_perm (f := s.frontier)
    have hsolved : Known answer epsilon p Bound s.incumbent (path :: solved)
        ([.floor :: path, .ceil :: path] ++ waiting) :=
      hknown.solve hq hbound hincumbent (by simp) (by simp) fun side _ _ =>
        .inl (by cases side <;> simp)
    have hqueued : List.Forall₂ (WaitsAt answer epsilon p)
        ([.floor :: path, .ceil :: path] ++ waiting)
        (⟨floorChild q f, (answer q).objective, i⟩ :: ⟨ceilChild q f, (answer q).objective, j⟩ ::
          s.frontier.nodes) :=
      .cons ⟨problemAt_child hq hs .floor, .floor, path, q, rfl, hq, rfl⟩
        (.cons ⟨problemAt_child hq hs .ceil, .ceil, path, q, rfl, hq, rfl⟩ hnodes)
    -- the positions wait in the order in which the frontier keeps the nodes
    obtain ⟨waiting', hnodes', hperm'⟩ := List.perm_comp_forall₂ hperm hqueued.flip
    exact ⟨waiting', hsolved.perm hperm'.symm, .cons ⟨hq, rfl⟩ hcalls, hnodes'.flip⟩

variable {cfg : Config α} {limit : ℕ} {outcome : Outcome Unit α}

/-- **All the way a search is somewhere in the tree**, if the bounds under
which it solves nodes are as said. -/
theorem exists_located_of_passes (hmono : MonotoneBranching answer cfg.epsilon p)
    (hbound : ∀ s node frontier, Passes (Solver.pure answer) cfg () p s →
      s.frontier.pop = some (node, frontier) → ¬ node.bound ≤ s.incumbent → Bound node.bound)
    (h : Passes (Solver.pure answer) cfg () p s) :
    ∃ solved waiting, Located answer cfg.epsilon p Bound s solved waiting := by
  induction h with
  | @root root hroot hfeas =>
    obtain ⟨waiting, h⟩ := exists_located_visit (s := State.initial cfg () p) Known.initial
      .nil .nil rfl nofun Level.bottom_le_bottom (hmono.isNumber p .root) hroot
    exact ⟨_, waiting, h⟩
  | @step s s' node frontier hs hpop hstep ih =>
    obtain ⟨solved, waiting, hknown, hcalls, hnodes⟩ := ih
    rw [(Frontier.nodes_of_pop hpop).1] at hnodes
    obtain ⟨path, waiting, hnode, hrest, rfl⟩ := List.forall₂_cons_right_iff.1 hnodes
    rcases step_eq_some hstep with ⟨hskip, rfl⟩ | ⟨hlt, reply, hrun, rfl⟩
    · obtain ⟨side, parent, q, rfl, -⟩ := hnode.bound_eq
      exact ⟨solved, waiting, hknown.skip (hnode.parentAnswer hskip), hcalls, hrest⟩
    · have hparent := hnode.parentAnswer (hbound s node frontier hs hpop hlt)
      have hnumber := hmono.isNumber _ (inTree_iff.2 ⟨_, hnode.problem_eq⟩)
      have hcov := (covering_of_monotone hmono).covered_of_passes .root hs
      obtain ⟨waiting', h⟩ := exists_located_visit (s := { s with frontier }) hknown hcalls hrest
        hnode.problem_eq hparent hcov.isNumber hnumber hrun
      exact ⟨_, waiting', h⟩

/-- So every bound is the answer to a problem of the tree. -/
theorem exists_parent_of_pending (hmono : MonotoneBranching answer cfg.epsilon p)
    (h : Passes (Solver.pure answer) cfg () p s) {b : Level α} (hq : s.frontier.Pending q b) :
    ∃ r, InTree answer cfg.epsilon p r ∧ b = (answer r).objective := by
  have hlocated : ∃ solved waiting, Located answer cfg.epsilon p (fun _ => True) s solved waiting :=
    exists_located_of_passes hmono (fun _ _ _ _ _ _ => trivial) h
  obtain ⟨solved, waiting, -, -, hnodes⟩ := hlocated
  obtain ⟨n, hn, rfl, rfl⟩ := hq
  obtain ⟨i, hi, rfl⟩ := List.mem_iff_getElem.1 hn
  obtain ⟨-, side, parent, r, -, hr, hb⟩ := hnodes.get (hnodes.length_eq ▸ hi) hi
  exact ⟨r, inTree_iff.2 ⟨parent, hr⟩, hb⟩

/-! ## At the end -/

/-- **Where the calls of a search were in the tree**: a position for each of
them, and no position twice. -/
structure Solved (answer : Problem α → Solution α) (epsilon : α) (p : Problem α)
    (calls : List (Call α)) (solved : List (List Side)) : Prop where
  /-- Every node is solved at most once. -/
  nodup : solved.Nodup
  /-- The calls are those for the problems at their positions. -/
  calls : List.Forall₂ (SolvedAt answer epsilon p) solved calls

namespace Known

variable {z : Level α}

/-- When nothing waits, a node whose answer is above the incumbent was
solved. -/
theorem mem_of_not_le (h : Known answer epsilon p Bound z solved [])
    (hmono : MonotoneBranching answer epsilon p)
    (hq : problemAt answer epsilon p path = some q) (hlt : ¬ (answer q).objective ≤ z) :
    path ∈ solved := by
  induction path generalizing q with
  | nil => simpa using h.root
  | cons side path ih =>
    obtain ⟨r, f, hr, hs, rfl⟩ := problemAt_cons_eq_some_iff.1 hq
    have hle := hmono.child_le (inTree_iff.2 ⟨path, hr⟩) hs side
    have hlt' : ¬ (answer r).objective ≤ z := fun hrz => hlt (Level.le_trans hle hrz)
    simpa using (h.child side path r f (ih hr hlt') hr hs).resolve_right hlt'

/-- So were its children. -/
theorem child_mem_of_not_le (h : Known answer epsilon p Bound z solved [])
    (hmono : MonotoneBranching answer epsilon p)
    (hq : problemAt answer epsilon p path = some q)
    (hchild : (problemAt answer epsilon p (side :: path)).isSome = true)
    (hlt : ¬ (answer q).objective ≤ z) : side :: path ∈ solved := by
  obtain ⟨r, hr⟩ := Option.isSome_iff_exists.1 hchild
  obtain ⟨parent, f, hparent, hs, -⟩ := problemAt_cons_eq_some_iff.1 hr
  cases hq.symm.trans hparent
  simpa using (h.child side path q f (h.mem_of_not_le hmono hq hlt) hq hs).resolve_right hlt

end Known

/-- A search that has ended knows the tree as far as it has to. -/
theorem exists_known_of_search (hmono : MonotoneBranching answer cfg.epsilon p)
    (hbound : ∀ s node frontier, Passes (Solver.pure answer) cfg () p s →
      s.frontier.pop = some (node, frontier) → ¬ node.bound ≤ s.incumbent → Bound node.bound)
    (h : search (Solver.pure answer) cfg limit () p = some outcome) :
    ∃ solved, Known answer cfg.epsilon p Bound outcome.report.solution.objective solved [] ∧
      Solved answer cfg.epsilon p outcome.calls solved.reverse := by
  rcases exists_passes_of_search h with ⟨root, hroot, hinf, hreport, hcalls⟩ | ⟨s, hs, hnone, rfl⟩
  · -- a root that is infeasible has no children
    cases hroot
    rw [hreport, hcalls]
    have hbot : (answer p).objective = .bottom := Level.isBottom_iff.1 hinf
    have hknown : Known answer cfg.epsilon p Bound (answer p).objective [[]] [] :=
      Known.initial.solve rfl nofun (hmono.isNumber p .root) List.nodup_nil (by simp)
        fun side f hs => absurd (hs.feasible.symm.trans hinf) Bool.false_ne_true
    exact ⟨[[]], hknown, List.nodup_singleton _, .cons ⟨rfl, rfl⟩ .nil⟩
  · obtain ⟨solved, waiting, hknown, hcalls, hnodes⟩ := exists_located_of_passes hmono hbound hs
    rw [Frontier.nodes_of_pop_eq_none hnone, List.forall₂_nil_right_iff] at hnodes
    subst hnodes
    refine ⟨solved, hknown, ?_, List.rel_reverse hcalls⟩
    simpa using hknown.nodup

/-- **Which nodes are solved**, in any order: each at most once, and every
one whose parent has an answer above the result. -/
theorem exists_solved_of_search (cfg : Config α) (Bound : Level α → Prop)
    (hmono : MonotoneBranching answer cfg.epsilon p)
    (hbound : ∀ s node frontier, Passes (Solver.pure answer) cfg () p s →
      s.frontier.pop = some (node, frontier) → ¬ node.bound ≤ s.incumbent → Bound node.bound)
    (h : search (Solver.pure answer) cfg limit () p = some outcome) :
    ∃ solved, Solved answer cfg.epsilon p outcome.calls solved ∧
      (∀ side path q, problemAt answer cfg.epsilon p path = some q →
        (problemAt answer cfg.epsilon p (side :: path)).isSome = true →
        outcome.report.solution.objective < (answer q).objective → side :: path ∈ solved) ∧
      ∀ side path q, side :: path ∈ solved → problemAt answer cfg.epsilon p path = some q →
        Bound (answer q).objective := by
  obtain ⟨solved, hknown, hsolved⟩ := exists_known_of_search hmono hbound h
  refine ⟨solved.reverse, hsolved, fun side path q hq hchild hlt => ?_, fun side path q hx hq => ?_⟩
  · exact List.mem_reverse.2 (hknown.child_mem_of_not_le hmono hq hchild hlt.2)
  · exact hknown.bound _ (List.mem_reverse.1 hx) side path q rfl hq

end Search

end Milp
