import Milp.Problem.Basic
/-!
# The frontier

The nodes that wait to be solved. Depth-first order takes the newest node;
best-first order takes the node with the highest bound, the oldest of them
when there are several. In both orders the nodes are kept in the order in
which they will be taken, so that the next one is always the head.
-/

namespace Milp

namespace Search

/-- Which pending node is taken next. -/
inductive Order where
  /-- The newest. -/
  | depthFirst
  /-- The one with the highest bound. -/
  | bestFirst
deriving DecidableEq, Repr

/-- A problem that waits to be solved. -/
structure Node (α : Type) where
  /-- The problem. -/
  problem : Problem α
  /-- The level of the parent's answer, which bounds this one's. -/
  bound : Level α
  /-- How many nodes were queued before. -/
  seq : Nat

/-- The pending nodes of a search. -/
structure Frontier (α : Type) where
  /-- Which node is taken next. -/
  order : Order
  /-- The nodes, in the order in which they will be taken. -/
  nodes : List (Node α) := []
  /-- How many nodes have been queued so far. -/
  queued : Nat := 0

/-- The frontier without nodes. -/
def Frontier.empty {α : Type} (order : Order) : Frontier α where
  order

variable {α : Type} [Scalar α]

/-- **The best-first order of two nodes**: by bound, and the older one is
the greater among equal bounds. -/
def Node.rank (a b : Node α) : Ordering :=
  (Scalar.order a.bound b.bound).then (compare b.seq a.seq)

namespace Frontier

/-- Puts a node before the first one that it precedes in best-first order. -/
def insert (node : Node α) : List (Node α) → List (Node α)
  | [] => [node]
  | other :: rest =>
    if node.rank other == .gt then node :: other :: rest else other :: insert node rest

/-- The frontier with one more node. -/
def push (f : Frontier α) (problem : Problem α) (bound : Level α) : Frontier α :=
  let node : Node α := ⟨problem, bound, f.queued⟩
  { f with
    nodes := match f.order with
      | .depthFirst => node :: f.nodes
      | .bestFirst => insert node f.nodes
    queued := f.queued + 1 }

/-- The frontier with both children of a node, such that the first is taken
before the second. -/
def pushChildren (f : Frontier α) (first second : Problem α) (bound : Level α) : Frontier α :=
  match f.order with
  | .depthFirst => (f.push second bound).push first bound
  | .bestFirst => (f.push first bound).push second bound

/-- The next node and the frontier without it. -/
def pop (f : Frontier α) : Option (Node α × Frontier α) :=
  match f.nodes with
  | [] => none
  | node :: rest => some (node, { f with nodes := rest })

end Frontier

end Search

end Milp
