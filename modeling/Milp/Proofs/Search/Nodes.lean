import Milp.Method
import Milp.Proofs.Problem.Rows
import Milp.Proofs.Search.Branching
import Milp.Proofs.Search.Passage
/-!
# The problems of the nodes

Every problem that the wrapped solver is given extends the problem of the
search by unit rows, and is the child of a problem that it was given before
(`Grown`). A child differs from its parent in one place, and as long as all
numbers are numbers it is nowhere looser. This is an invariant of the pending
nodes, whatever the wrapped solver answers (`shape_of_given`).
-/

namespace Milp

namespace Search

variable {σ α : Type} [Scalar α] {epsilon : α} {solver : Solver σ α}
variable {s : State σ α} {p q : Problem α} {reply : Reply σ α} {c : Call α}
variable {node : Node α} {frontier : Frontier α} {f : Fractional α}
variable {cfg : Config α} {limit : ℕ} {memory : σ} {calls : List (Call α)}

/-! ## Children -/

/-- **A problem is a child of a call**: one of the two problems that its
answer splits the problem of the call into. -/
def IsChild (epsilon : α) (c : Call α) (q : Problem α) : Prop :=
  ∃ f, branching c.problem epsilon c.answer.values = some f ∧
    (q = floorChild c.problem f ∨ q = ceilChild c.problem f)

/-- **A child has one bound more**, on an integer variable, at the floor or
the ceiling of a value that was answered. -/
theorem IsChild.exists_bound (h : IsChild epsilon c q) : ∃ j d b,
    c.problem.isInteger j = true ∧ (d = 1 ∨ d = -1) ∧ q = c.problem.bound j d b ∧
      ∃ v ∈ c.answer.values, b = Scalar.floor v ∨ b = -Scalar.ceil v := by
  obtain ⟨f, hf, hq⟩ := h
  obtain ⟨hvalue, hj, -⟩ := branching_eq_some hf
  have hmem : f.value ∈ c.answer.values := List.mem_of_getElem? hvalue
  rcases hq with rfl | rfl
  · exact ⟨f.index, 1, _, hj, .inl rfl, rfl, f.value, hmem, .inl rfl⟩
  · exact ⟨f.index, -1, _, hj, .inr rfl, rfl, f.value, hmem, .inr rfl⟩

theorem IsChild.differsInOne (h : IsChild epsilon c q) : c.problem.DiffersInOne q := by
  obtain ⟨j, d, b, -, -, rfl, -⟩ := h.exists_bound
  exact c.problem.differsInOne_bound j d b

theorem IsChild.extends (h : IsChild epsilon c q) (hc : p.Extends c.problem) : p.Extends q := by
  obtain ⟨j, d, b, hj, hd, rfl, -⟩ := h.exists_bound
  rw [hc.isInteger_eq] at hj
  exact hc.bound hj hd

/-- Every value that was answered is a number. -/
def HasNumbers (calls : List (Call α)) : Prop :=
  ∀ c ∈ calls, ∀ v ∈ c.answer.values, Scalar.IsNumber v

section Numbers

variable [Scalar.Rounding α]

/-- **Among numbers** a child has numbers, and is nowhere looser than its
parent. -/
theorem IsChild.numbers (h : IsChild epsilon c q) (hc : c.problem.HasNumbers)
    (hv : ∀ v ∈ c.answer.values, Scalar.IsNumber v) :
    q.HasNumbers ∧ c.problem.NotLooser q := by
  obtain ⟨j, d, b, -, -, rfl, v, hmem, hb⟩ := h.exists_bound
  have hnum : Scalar.IsNumber b := by
    rcases hb with rfl | rfl
    · exact Scalar.Rounding.isNumber_floor (hv v hmem)
    · exact Scalar.Rounding.neg_le_neg (Scalar.Rounding.isNumber_ceil (hv v hmem))
  exact ⟨Problem.hasNumbers_bound hc hnum, Problem.notLooser_bound hc hnum⟩

end Numbers

/-! ## Growing -/

/-- **What a problem has grown to**: the problem of the search with unit rows
added, and with numbers only if the problem and the answers have no others. -/
structure Grown (p : Problem α) (calls : List (Call α)) (q : Problem α) : Prop where
  /-- Unit rows are added. -/
  extends_eq : p.Extends q
  /-- Numbers stay numbers. -/
  numbers : p.HasNumbers → HasNumbers calls → q.HasNumbers

/-- More calls may only answer more. -/
theorem Grown.cons (h : Grown p calls q) : Grown p (c :: calls) q :=
  ⟨h.extends_eq, fun hp hcalls => h.numbers hp fun d hd => hcalls d (List.mem_cons_of_mem _ hd)⟩

/-- What the problem of a call has grown to, its children have, once the call
is on record. -/
theorem Grown.child [Scalar.Rounding α] (h : Grown p calls c.problem) (hq : IsChild epsilon c q) :
    Grown p (c :: calls) q where
  extends_eq := hq.extends h.extends_eq
  numbers hp hcalls := by
    obtain ⟨hanswer, hcalls⟩ := List.forall_mem_cons.1 hcalls
    exact (hq.numbers (h.numbers hp hcalls) hanswer).1

/-- **What is known of a problem that is taken**, given the calls before. -/
structure Taken (p : Problem α) (epsilon : α) (calls : List (Call α)) (q : Problem α) : Prop where
  /-- It has grown from the problem of the search. -/
  grown : Grown p calls q
  /-- It is the root, or a child. -/
  origin : calls = [] ∧ q = p ∨ ∃ c ∈ calls, IsChild epsilon c q

/-- **What is known of a state**: its pending problems are children, and those
of its calls have grown from the problem of the search as well. -/
structure Tree (p : Problem α) (epsilon : α) (s : State σ α) : Prop where
  /-- Pending problems are children. -/
  pending : ∀ q b, s.frontier.Pending q b →
    Grown p s.calls q ∧ ∃ c ∈ s.calls, IsChild epsilon c q
  /-- The problems of calls have grown. -/
  called : ∀ c ∈ s.calls, Grown p s.calls c.problem

theorem tree_initial : Tree p epsilon (State.initial cfg memory p) :=
  ⟨fun _ _ hq => absurd hq (Frontier.not_pending_empty _), nofun⟩

theorem taken_initial : Taken p epsilon (State.initial cfg memory p).calls p :=
  ⟨⟨.refl p, fun hp _ => hp⟩, .inl ⟨rfl, rfl⟩⟩

namespace Tree

variable (h : Tree p epsilon s)

include h

theorem pop (hpop : s.frontier.pop = some (node, frontier)) :
    Tree p epsilon { s with frontier } ∧ Taken p epsilon s.calls node.problem := by
  obtain ⟨hgrown, hchild⟩ := h.pending _ _ ((Frontier.pending_of_pop hpop).2 (.inl ⟨rfl, rfl⟩))
  exact ⟨⟨fun q b hq => h.pending q b ((Frontier.pending_of_pop hpop).2 (.inr hq)), h.called⟩,
    hgrown, .inr hchild⟩

/-- **Visiting keeps the tree**, whatever the answer is. -/
theorem visit [Scalar.Rounding α] (hq : Grown p s.calls q) (reply : Reply σ α) :
    Tree p epsilon ((s.record q reply).visit epsilon q reply.solution) := by
  -- what is pending stays so, with one call more
  have hold : ∀ q' b, s.frontier.Pending q' b → Grown p (⟨q, reply.solution⟩ :: s.calls) q' ∧
      ∃ c ∈ (⟨q, reply.solution⟩ :: s.calls : List (Call α)), IsChild epsilon c q' := by
    intro q' b hp
    obtain ⟨hgrown, c, hc, hchild⟩ := h.pending q' b hp
    exact ⟨hgrown.cons, c, List.mem_cons_of_mem _ hc, hchild⟩
  have hcalled : ∀ c ∈ (⟨q, reply.solution⟩ :: s.calls : List (Call α)),
      Grown p (⟨q, reply.solution⟩ :: s.calls) c.problem :=
    List.forall_mem_cons.2 ⟨hq.cons, fun c hc => (h.called c hc).cons⟩
  rcases visit_cases epsilon q reply.solution (s.record q reply) with
    ⟨-, heq⟩ | ⟨-, -, -, heq⟩ | ⟨f, -, -, hf, heq⟩ <;> rw [heq]
  · exact ⟨hold, hcalled⟩
  · exact ⟨hold, hcalled⟩
  · refine ⟨fun q' b hp => ?_, hcalled⟩
    rcases Frontier.pending_pushChildren.1 hp with ⟨hside, -⟩ | hp
    · have hchild : IsChild epsilon ⟨q, reply.solution⟩ q' :=
        ⟨f, hf, hside.imp Eq.symm Eq.symm⟩
      exact ⟨Grown.child hq hchild, _, List.mem_cons_self, hchild⟩
    · exact hold q' b hp

end Tree

variable [Scalar.Rounding α]

/-- **Every state on the way is a tree.** -/
theorem tree_of_passes (h : Passes solver cfg memory p s) : Tree p cfg.epsilon s :=
  h.induction (Tree p cfg.epsilon) (fun s q => Taken p cfg.epsilon s.calls q) tree_initial
    taken_initial (fun hs => hs.pop) (fun hs _ => ⟨hs.pending, hs.called⟩)
    (fun hs hq _ => hs.visit hq.grown _)

/-- So the problems that the wrapped solver is given are those of a tree. -/
theorem taken_of_given (h : Given solver cfg memory p s q) :
    Taken p cfg.epsilon s.calls q ∧ ∀ c ∈ s.calls, Grown p s.calls c.problem := by
  cases h with
  | root => exact ⟨taken_initial, nofun⟩
  | node hpass hpop hlt =>
    have htree := tree_of_passes hpass
    exact ⟨(htree.pop hpop).2, htree.called⟩

/-- **The shape of every problem that the wrapped solver is given**, whatever
it answers.

The objective and the integer variables are those of the problem `p` of the
search. The coefficients are those of `p`, followed by unit rows of integer
variables; these are different from each other and from the rows of `p`, so
there are at most two of them for each integer variable. Every such problem
but the root is the child of a problem that was given before. From that one
it differs in one place, and no right-hand side is larger if the right-hand
sides of `p` and all values that were answered are numbers. -/
theorem shape_of_given (h : Given solver cfg memory p s q) :
    q.objective = p.objective ∧ q.integer = p.integer ∧
    (∃ added, q.coefficients = p.coefficients ++ added ∧ added.Nodup ∧
      ∀ e ∈ added, e ∉ p.coefficients ∧ p.IsUnitRow e) ∧
    q.numRows ≤ p.numRows + 2 * p.integerVariables.length ∧
    (s.calls = [] ∧ q = p ∨ ∃ c ∈ s.calls, IsChild cfg.epsilon c q) ∧
    ∀ c ∈ s.calls, IsChild cfg.epsilon c q → c.problem.DiffersInOne q ∧
      (p.HasNumbers → HasNumbers s.calls → c.problem.NotLooser q) := by
  obtain ⟨htaken, hcalled⟩ := taken_of_given h
  have hext := htaken.grown.extends_eq
  refine ⟨hext.objective_eq, hext.integer_eq, hext.coefficients_eq, hext.numRows_le,
    htaken.origin, fun c hc hchild => ⟨hchild.differsInOne, fun hp hcalls => ?_⟩⟩
  have hparent : c.problem.HasNumbers := (hcalled c hc).numbers hp hcalls
  exact (hchild.numbers hparent (hcalls c hc)).2

/-- Two integer variables, one of them with an upper bound already. -/
def boundedPair : Problem Double where
  objective := [1, 1]
  rows := [⟨[1, 1], 5.5⟩, ⟨[1, 0], 4.5⟩]
  integer := [true, true]
  objective_ne_nil := List.cons_ne_nil _ _
  rows_ne_nil := List.cons_ne_nil _ _
  length_coefficients := List.forall_mem_cons.2 ⟨rfl, List.forall_mem_singleton.2 rfl⟩
  length_integer := by decide

/-- Answers with one or two values that are not integers. -/
def fractionalAnswers : List (Solution Double) :=
  [⟨.number 5.5, [4.5, 1.0]⟩, ⟨.number 5.25, [4.0, 1.25]⟩, ⟨.number 5.0, [4.0, 1.0]⟩]

/-- Below `boundedPair` a problem with one row more is reached. -/
theorem shape_of_given_boundedPair :
    ∃ s q, Given Method.scripted ⟨0, .depthFirst⟩ fractionalAnswers boundedPair s q ∧
      q.numRows = 3 ∧ q.numRows ≤ 2 + 2 * 2 ∧
      (s.calls = [] ∧ q = boundedPair ∨ ∃ c ∈ s.calls, IsChild 0 c q) := by
  have hrun : (search Method.scripted ⟨0, .depthFirst⟩ 9 fractionalAnswers boundedPair).map
      (fun o => o.calls.any fun c => c.problem.numRows == 3) = some true := by decide +kernel
  obtain ⟨o, hrun, hany⟩ := Option.map_eq_some_iff.1 hrun
  obtain ⟨c, hc, hrows⟩ := List.any_eq_true.1 hany
  obtain ⟨s, hgiven⟩ := exists_given_of_search hrun hc
  obtain ⟨-, -, -, hle, horigin, -⟩ := shape_of_given hgiven
  exact ⟨s, c.problem, hgiven, eq_of_beq hrows, hle, horigin⟩

end Search

end Milp
