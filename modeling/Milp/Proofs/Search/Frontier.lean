import Mathlib.Tactic.Common
import Milp.Search.Frontier
/-!
# What waits in a frontier

In which order nodes wait does not matter for what a search finds, only
which ones do: a problem is `Pending` with a bound. Both orders put the same
nodes into the frontier and take one of them out.
-/

namespace Milp

namespace Search

namespace Frontier

variable {α : Type} [Scalar α] {f rest : Frontier α} {node other : Node α}
variable {p q first second : Problem α} {bound b : Level α}

theorem mem_insert {nodes : List (Node α)} :
    other ∈ insert node nodes ↔ other = node ∨ other ∈ nodes := by
  induction nodes with
  | nil => exact List.mem_singleton.trans (or_iff_left List.not_mem_nil).symm
  | cons head tail ih =>
    rw [insert]
    split
    · exact List.mem_cons
    · rw [List.mem_cons, List.mem_cons, ih]
      exact or_left_comm

/-- One more node waits after a push. -/
theorem mem_nodes_push :
    other ∈ (f.push p bound).nodes ↔ other = ⟨p, bound, f.queued⟩ ∨ other ∈ f.nodes := by
  rcases f with ⟨order, nodes, queued⟩
  cases order
  · exact List.mem_cons
  · exact mem_insert

omit [Scalar α] in
/-- The node that is taken was the first to wait, and no node is queued. -/
theorem nodes_of_pop (h : f.pop = some (node, rest)) :
    f.nodes = node :: rest.nodes ∧ rest.queued = f.queued ∧ rest.order = f.order := by
  unfold pop at h
  split at h
  · cases h
  · rename_i head tail hnodes
    cases h
    exact ⟨hnodes, rfl, rfl⟩

omit [Scalar α] in
/-- A node that is the first to wait is taken. -/
theorem pop_of_nodes {nodes : List (Node α)} (h : f.nodes = node :: nodes) :
    f.pop = some (node, { f with nodes }) := by
  unfold pop
  rw [h]

omit [Scalar α] in
/-- The node that is taken waited, and the others stay. -/
theorem mem_nodes_of_pop (h : f.pop = some (node, rest)) :
    other ∈ f.nodes ↔ other = node ∨ other ∈ rest.nodes := by
  rw [(nodes_of_pop h).1]
  exact List.mem_cons

/-- Where a node is put in does not matter for what there is. -/
theorem insert_perm (node : Node α) (nodes : List (Node α)) :
    (insert node nodes).Perm (node :: nodes) := by
  induction nodes with
  | nil => exact .refl _
  | cons head tail ih =>
    rw [insert]
    split
    · exact .refl _
    · exact (ih.cons head).trans (.swap node head tail)

theorem nodes_push_perm : (f.push p bound).nodes.Perm (⟨p, bound, f.queued⟩ :: f.nodes) := by
  rcases f with ⟨order, nodes, queued⟩
  cases order
  · exact .refl _
  · exact insert_perm _ _

/-- The two nodes that a split queues, in the order of their numbers. -/
def children (f : Frontier α) (first second : Problem α) (bound : Level α) : List (Node α) :=
  match f.order with
  | .depthFirst => [⟨second, bound, f.queued⟩, ⟨first, bound, f.queued + 1⟩]
  | .bestFirst => [⟨first, bound, f.queued⟩, ⟨second, bound, f.queued + 1⟩]

omit [Scalar α] in
/-- They have the next two numbers. -/
theorem map_seq_children :
    (f.children first second bound).map (·.seq) = [f.queued, f.queued + 1] := by
  unfold children
  split <;> rfl

/-- **The nodes that wait** after a split are its two children and those
before, in some order. -/
theorem nodes_pushChildren_perm :
    (f.pushChildren first second bound).nodes.Perm (f.children first second bound ++ f.nodes) := by
  rcases f with ⟨order, nodes, queued⟩
  cases order
  · exact (nodes_push_perm.trans (nodes_push_perm.cons _)).trans (.swap _ _ _)
  · exact (nodes_push_perm.trans (nodes_push_perm.cons _)).trans (.swap _ _ _)

@[simp] theorem order_pushChildren : (f.pushChildren first second bound).order = f.order := by
  unfold pushChildren
  split <;> rfl

/-- Depth first they go to the front, the second one below the first. -/
theorem nodes_pushChildren_depthFirst (h : f.order = .depthFirst) :
    (f.pushChildren first second bound).nodes =
      (f.children first second bound).reverse ++ f.nodes := by
  rcases f with ⟨order, nodes, queued⟩
  cases h
  rfl

@[simp] theorem queued_pushChildren : (f.pushChildren first second bound).queued = f.queued + 2 := by
  unfold pushChildren
  split <;> rfl

@[simp] theorem length_nodes_pushChildren :
    (f.pushChildren first second bound).nodes.length = f.nodes.length + 2 := by
  rw [nodes_pushChildren_perm.length_eq, List.length_append, ← List.length_map (·.seq),
    map_seq_children, Nat.add_comm]
  rfl

/-- Both orders put in a node for each child, with the bound of the split. -/
theorem exists_nodes_pushChildren_perm :
    ∃ i j, (f.pushChildren first second bound).nodes.Perm
      (⟨first, bound, i⟩ :: ⟨second, bound, j⟩ :: f.nodes) := by
  have hperm : (f.pushChildren first second bound).nodes.Perm
      (f.children first second bound ++ f.nodes) := nodes_pushChildren_perm
  unfold children at hperm
  split at hperm
  · exact ⟨_, _, hperm.trans (.swap _ _ _)⟩
  · exact ⟨_, _, hperm⟩

/-- **The problems that wait** after a split are the two children and those
before, in some order. -/
theorem problems_pushChildren_perm :
    ((f.pushChildren first second bound).nodes.map (·.problem)).Perm
      (first :: second :: f.nodes.map (·.problem)) := by
  obtain ⟨i, j, hperm⟩ := exists_nodes_pushChildren_perm (f := f)
  exact hperm.map _

omit [Scalar α] in
/-- The problem that is taken was the first to wait. -/
theorem problems_of_pop (h : f.pop = some (node, rest)) :
    f.nodes.map (·.problem) = node.problem :: rest.nodes.map (·.problem) := by
  rw [(nodes_of_pop h).1, List.map_cons]

omit [Scalar α] in
theorem nodes_of_pop_eq_none (h : f.pop = none) : f.nodes = [] := by
  unfold pop at h
  split at h
  · assumption
  · cases h

omit [Scalar α] in
theorem pop_of_nodes_eq_nil (h : f.nodes = []) : f.pop = none := by
  unfold pop
  rw [h]

/-- The problem waits, with a bound. -/
def Pending (f : Frontier α) (q : Problem α) (b : Level α) : Prop :=
  ∃ n ∈ f.nodes, n.problem = q ∧ n.bound = b

omit [Scalar α] in
theorem not_pending_empty (order : Order) : ¬ (empty order).Pending q b := by
  rintro ⟨n, hn, -⟩
  exact absurd hn List.not_mem_nil

theorem pending_push : (f.push p bound).Pending q b ↔ p = q ∧ bound = b ∨ f.Pending q b := by
  constructor
  · rintro ⟨n, hn, hq, hb⟩
    rcases mem_nodes_push.1 hn with rfl | hn
    · exact .inl ⟨hq, hb⟩
    · exact .inr ⟨n, hn, hq, hb⟩
  · rintro (⟨hq, hb⟩ | ⟨n, hn, hq⟩)
    · exact ⟨_, mem_nodes_push.2 (.inl rfl), hq, hb⟩
    · exact ⟨n, mem_nodes_push.2 (.inr hn), hq⟩

/-- **Both children wait, in either order.** -/
theorem pending_pushChildren :
    (f.pushChildren first second bound).Pending q b ↔
      (first = q ∨ second = q) ∧ bound = b ∨ f.Pending q b := by
  unfold pushChildren
  split <;> rw [pending_push, pending_push] <;> tauto

omit [Scalar α] in
/-- **What waits** is the node that is taken or waits after that. -/
theorem pending_of_pop (h : f.pop = some (node, rest)) :
    f.Pending q b ↔ node.problem = q ∧ node.bound = b ∨ rest.Pending q b := by
  constructor
  · rintro ⟨n, hn, hq⟩
    rcases (mem_nodes_of_pop h).1 hn with rfl | hn
    · exact .inl hq
    · exact .inr ⟨n, hn, hq⟩
  · rintro (hq | ⟨n, hn, hq⟩)
    · exact ⟨node, (mem_nodes_of_pop h).2 (.inl rfl), hq⟩
    · exact ⟨n, (mem_nodes_of_pop h).2 (.inr hn), hq⟩

omit [Scalar α] in
theorem not_pending_of_pop_eq_none (h : f.pop = none) : ¬ f.Pending q b := by
  rintro ⟨n, hn, -⟩
  rw [nodes_of_pop_eq_none h] at hn
  exact absurd hn List.not_mem_nil

end Frontier

end Search

end Milp
