import Mathlib.Data.List.Chain
import Milp.Method
import Milp.Number.Double
import Milp.Proofs.Number.Order
import Milp.Proofs.Search.Branching
import Milp.Proofs.Search.Passage
/-!
# The incumbents of a search

Whatever the wrapped solver answers, the incumbents are the levels of some
of its answers, in the order in which they were given, and the solution is
the last one that was accepted (`Recorded`). No incumbent is at most the one
before it. As long as all levels are ordered no integral answer is above the
incumbent either: one that is pruned is at most the incumbent of that time,
and incumbents only rise. So what a search comes to is the best integral
answer that it was given (`search_incumbents`).
-/

namespace Milp

namespace Search

variable {σ α : Type} [Scalar α] {epsilon : α} {solver : Solver σ α}
variable {s : State σ α} {p q : Problem α} {reply : Reply σ α} {answer : Solution α}
variable {node : Node α} {frontier : Frontier α}
variable {cfg : Config α} {limit : ℕ} {memory : σ} {outcome : Outcome σ α}

/-! ## What is recorded -/

/-- An answer that may be accepted: it has a point, and its values are
integral. -/
structure Acceptable (p : Problem α) (epsilon : α) (answer : Solution α) : Prop where
  /-- Something is feasible. -/
  ne_bottom : answer.objective ≠ .bottom
  /-- The integer variables are integral. -/
  integral : IntegralUpTo p epsilon answer.values

/-- **The calls whose answers were accepted**: some of all calls, in order,
with the incumbents as their levels and the solution as the last answer. -/
structure Accepted (p : Problem α) (epsilon : α) (calls : List (Call α)) (report : Report α)
    (accepted : List (Call α)) : Prop where
  /-- They are among the calls, in the same order. -/
  sublist : accepted.Sublist calls
  /-- Their answers could be accepted. -/
  acceptable : ∀ c ∈ accepted, Acceptable p epsilon c.answer
  /-- The incumbents are their levels. -/
  incumbents_eq : report.incumbents = accepted.map (·.answer.objective)
  /-- The solution is the last answer. -/
  solution_eq : ∀ c, accepted.getLast? = some c → report.solution = c.answer

/-- **What a state has on record.** -/
structure Recorded (p : Problem α) (epsilon : α) (s : State σ α) : Prop where
  /-- All problems that wait have the same integer variables. -/
  integer_eq : ∀ q b, s.frontier.Pending q b → q.integer = p.integer
  /-- The incumbents are accepted answers. -/
  accepted : ∃ accepted, Accepted p epsilon s.calls.reverse s.report accepted
  /-- Before the first one nothing is known to be feasible. -/
  solution_eq : s.report.incumbents = [] → s.report.solution = Solution.infeasible p.numVariables
  /-- No incumbent is at most the one before it. -/
  rising : s.report.incumbents.IsChain fun a b => ¬ b ≤ a

theorem recorded_initial : Recorded p epsilon (State.initial cfg memory p) where
  integer_eq _ _ hq := absurd hq (Frontier.not_pending_empty _)
  accepted := ⟨[], .slnil, nofun, rfl, nofun⟩
  solution_eq _ := rfl
  rising := .nil

namespace Recorded

variable (h : Recorded p epsilon s)

include h

/-- A state with other pending nodes, and another count of pruned ones, has the
same on record. -/
theorem congr {s' : State σ α} (hinteger : ∀ q b, s'.frontier.Pending q b → q.integer = p.integer)
    (hcalls : s'.calls = s.calls) (hsol : s'.report.solution = s.report.solution)
    (hinc : s'.report.incumbents = s.report.incumbents) : Recorded p epsilon s' := by
  refine ⟨hinteger, ?_, ?_, ?_⟩
  · obtain ⟨accepted, hacc⟩ := h.accepted
    rw [hcalls]
    exact ⟨accepted, hacc.sublist, hacc.acceptable, hinc.trans hacc.incumbents_eq,
      fun c hc => hsol.trans (hacc.solution_eq c hc)⟩
  · rw [hinc, hsol]
    exact h.solution_eq
  · rw [hinc]
    exact h.rising

/-- Skipping a node changes nothing on record. -/
theorem skip (bound : Level α) : Recorded p epsilon (s.note (.skippingNode bound)).prune :=
  h.congr h.integer_eq rfl rfl rfl

/-- Without the node that is taken. -/
theorem pop (hpop : s.frontier.pop = some (node, frontier)) :
    Recorded p epsilon { s with frontier } ∧ node.problem.integer = p.integer :=
  ⟨{ h with integer_eq := fun q b hq => h.integer_eq q b ((Frontier.pending_of_pop hpop).2 (.inr hq)) },
    h.integer_eq _ _ ((Frontier.pending_of_pop hpop).2 (.inl ⟨rfl, rfl⟩))⟩

/-- **The incumbent is the last of the incumbents**, if there are any. -/
theorem getLast?_incumbents {a : Level α} (ha : s.report.incumbents.getLast? = some a) :
    s.incumbent = a := by
  obtain ⟨accepted, hacc⟩ := h.accepted
  rw [hacc.incumbents_eq, List.getLast?_map] at ha
  obtain ⟨c, hc, rfl⟩ := Option.map_eq_some_iff.1 ha
  rw [State.incumbent, hacc.solution_eq c hc]

/-- One more call changes nothing of what is accepted. -/
theorem record (q : Problem α) (reply : Reply σ α) : Recorded p epsilon (s.record q reply) := by
  obtain ⟨accepted, hacc⟩ := h.accepted
  refine { h with accepted := ⟨accepted, { hacc with sublist := ?_ }⟩ }
  have hcalls : (s.record q reply).calls.reverse = s.calls.reverse ++ [⟨q, reply.solution⟩] :=
    List.reverse_cons
  rw [hcalls]
  exact hacc.sublist.trans (List.sublist_append_left _ _)

/-- **A new incumbent** is the answer to the last call, and is not at most the
one before it. -/
theorem accept (hq : q.integer = p.integer) (hfeas : answer.isInfeasible = false)
    (hbetter : ¬ answer.objective ≤ s.incumbent) (hint : branching q epsilon answer.values = none)
    (reply : Reply σ α) (hans : reply.solution = answer) (e e' : Event α) :
    Recorded p epsilon ((((s.record q reply).note e).note e').accept answer) where
  integer_eq := h.integer_eq
  solution_eq hnil := by simp [State.accept] at hnil
  accepted := by
    obtain ⟨accepted, hacc⟩ := h.accepted
    refine ⟨accepted ++ [⟨q, answer⟩], ?_, fun c hc => ?_, ?_, fun c hc => ?_⟩
    · have hcalls : ((((s.record q reply).note e).note e').accept answer).calls.reverse =
          s.calls.reverse ++ [⟨q, answer⟩] := by
        rw [← hans]
        exact List.reverse_cons
      rw [hcalls]
      exact hacc.sublist.append (List.Sublist.refl _)
    · rcases List.mem_append.1 hc with hc | hc
      · exact hacc.acceptable c hc
      · rw [List.mem_singleton.1 hc]
        refine ⟨fun hbot => ?_, (integralUpTo_congr hq).1 (branching_eq_none_iff.1 hint)⟩
        rw [Solution.isInfeasible, hbot] at hfeas
        cases hfeas
    · have hinc : s.report.incumbents = accepted.map (·.answer.objective) := hacc.incumbents_eq
      rw [List.map_append, ← hinc]
      rfl
    · rw [List.getLast?_concat] at hc
      cases hc
      rfl
  rising := by
    refine List.isChain_append.2 ⟨h.rising, .singleton _, fun a ha b hb => ?_⟩
    cases hb
    rw [← h.getLast?_incumbents ha]
    exact hbetter

/-- **Visiting keeps the record.** -/
theorem visit (hq : q.integer = p.integer) (reply : Reply σ α) :
    Recorded p epsilon ((s.record q reply).visit epsilon q reply.solution) := by
  have hrec := h.record q reply
  rcases visit_cases epsilon q reply.solution (s.record q reply) with
    ⟨-, heq⟩ | ⟨hfeas, hbetter, hint, heq⟩ | ⟨f, -, -, -, heq⟩
  · rw [heq]
    exact hrec.congr hrec.integer_eq rfl rfl rfl
  · rw [heq]
    exact h.accept hq hfeas hbetter hint reply rfl _ _
  · rw [heq]
    refine hrec.congr (fun q' b hp => ?_) rfl rfl rfl
    -- the children have the flags of their node
    rcases Frontier.pending_pushChildren.1 hp with ⟨rfl | rfl, -⟩ | hp
    · exact hq
    · exact hq
    · exact h.integer_eq q' b hp

end Recorded

/-- **Every state on the way has a record.** -/
theorem recorded_of_passes (h : Passes solver cfg memory p s) : Recorded p cfg.epsilon s :=
  h.induction (Recorded p cfg.epsilon) (fun _ q => q.integer = p.integer) recorded_initial rfl
    (fun hs => hs.pop) (fun hs _ => hs.skip _) (fun hs hq _ => hs.visit hq _)

/-- **The oldest call** is that for the root, which has a point. -/
theorem exists_root_of_passes (h : Passes solver cfg memory p s) :
    ∃ root, s.calls.getLast? = some root ∧ root.problem = p ∧ root.answer.isInfeasible = false := by
  induction h with
  | root hrun hfeas =>
    rw [calls_visit]
    exact ⟨_, rfl, rfl, hfeas⟩
  | step hs hpop hstep ih =>
    rcases step_eq_some hstep with ⟨-, rfl⟩ | ⟨-, reply, -, rfl⟩
    · exact ih
    · obtain ⟨root, hroot, hp⟩ := ih
      rw [calls_visit]
      refine ⟨root, ?_, hp⟩
      -- the newest call is not the oldest
      rw [State.record, List.getLast?_cons, hroot]
      rfl

/-! ## Ordered levels -/

/-- All levels that were answered are ordered. -/
def Ordered (calls : List (Call α)) : Prop := ∀ c ∈ calls, c.answer.objective.IsNumber

/-- **A level is the best integral answer**: none is above it, and it is the
level of one of them, or there is none and it is the lowest level. -/
structure BestAnswer (p : Problem α) (epsilon : α) (calls : List (Call α)) (level : Level α) :
    Prop where
  /-- No integral answer is above it. -/
  le : ∀ c ∈ calls, IntegralUpTo p epsilon c.answer.values → c.answer.objective ≤ level
  /-- It is the level of one, unless there is none. -/
  attained : (∃ c ∈ calls, IntegralUpTo p epsilon c.answer.values ∧ c.answer.objective = level) ∨
    level = .bottom ∧ ∀ c ∈ calls, ¬ IntegralUpTo p epsilon c.answer.values

/-- **The incumbent is the best so far**: it is ordered, and no integral
answer is above it. -/
structure Best (p : Problem α) (epsilon : α) (s : State σ α) : Prop where
  /-- The incumbent is ordered. -/
  isNumber : s.incumbent.IsNumber
  /-- No integral answer is above it. -/
  le : ∀ c ∈ s.calls, IntegralUpTo p epsilon c.answer.values → c.answer.objective ≤ s.incumbent

variable [Scalar.Ordered α]

/-- **Visiting keeps the incumbent the best**, if the answer has an ordered
level. -/
theorem Best.visit (h : Best p epsilon s) (hq : q.integer = p.integer)
    (hnum : reply.solution.objective.IsNumber) :
    Best p epsilon ((s.record q reply).visit epsilon q reply.solution) := by
  rcases visit_cases epsilon q reply.solution (s.record q reply) with
    ⟨hworse, heq⟩ | ⟨-, hbetter, -, heq⟩ | ⟨f, -, -, hfrac, heq⟩ <;> rw [heq]
  · -- a pruned answer is at most the incumbent
    refine ⟨h.isNumber, List.forall_mem_cons.2 ⟨fun _ => ?_, h.le⟩⟩
    rcases hworse with hinf | hle
    · rw [Level.isBottom_iff.1 hinf]
      exact Level.bottom_le h.isNumber
    · exact hle
  · -- an accepted one is above the old incumbent
    refine ⟨hnum, List.forall_mem_cons.2 ⟨fun _ => hnum, fun c hc hint => ?_⟩⟩
    exact Level.le_trans (h.le c hc hint) (Level.le_of_not_le hnum h.isNumber hbetter)
  · -- one that is split is not integral
    refine ⟨h.isNumber, List.forall_mem_cons.2 ⟨fun hint => ?_, h.le⟩⟩
    rw [branching_eq_none_iff.2 ((integralUpTo_congr hq).2 hint)] at hfrac
    cases hfrac

/-- **While all levels are ordered the incumbent is the best so far.** -/
theorem best_of_passes (h : Passes solver cfg memory p s) (hordered : Ordered s.calls) :
    Best p cfg.epsilon s := by
  have hinv : Recorded p cfg.epsilon s ∧ (Ordered s.calls → Best p cfg.epsilon s) := by
    refine h.induction (fun s => Recorded p cfg.epsilon s ∧ (Ordered s.calls → Best p cfg.epsilon s))
      (fun _ q => q.integer = p.integer)
      ⟨recorded_initial, fun _ => ⟨Level.bottom_le_bottom, nofun⟩⟩ rfl ?_ ?_ ?_
    · intro s node frontier hs hpop
      obtain ⟨hrec, hnode⟩ := hs.1.pop hpop
      exact ⟨⟨hrec, fun hcalls => ⟨(hs.2 hcalls).isNumber, (hs.2 hcalls).le⟩⟩, hnode⟩
    · intro s bound hs hle
      exact ⟨hs.1.skip _, fun hcalls => ⟨(hs.2 hcalls).isNumber, (hs.2 hcalls).le⟩⟩
    · intro s q reply hs hq hrun
      refine ⟨hs.1.visit hq _, fun hcalls => ?_⟩
      rw [Ordered, calls_visit] at hcalls
      obtain ⟨hnum, hcalls⟩ := List.forall_mem_cons.1 hcalls
      exact (hs.2 hcalls).visit hq hnum
  exact hinv.2 hordered

omit [Scalar.Ordered α] in
/-- What is accepted, and the best so far, make the best answer. -/
theorem Best.bestAnswer (h : Best p epsilon s) (hrec : Recorded p epsilon s) :
    BestAnswer p epsilon s.calls.reverse s.incumbent where
  le c hc := h.le c (List.mem_reverse.1 hc)
  attained := by
    obtain ⟨accepted, hacc⟩ := hrec.accepted
    cases hlast : accepted.getLast? with
    | some c =>
      have hmem : c ∈ accepted := List.mem_of_getLast? hlast
      refine .inl ⟨c, hacc.sublist.subset hmem, (hacc.acceptable c hmem).integral, ?_⟩
      rw [State.incumbent, hacc.solution_eq c hlast]
    | none =>
      have hnil : s.report.incumbents = [] := by
        rw [hacc.incumbents_eq, List.getLast?_eq_none_iff.1 hlast, List.map_nil]
      have hbot : s.incumbent = .bottom := by
        rw [State.incumbent, hrec.solution_eq hnil]
        rfl
      -- an integral answer is the lowest level too
      by_cases hnone : ∃ c ∈ s.calls, IntegralUpTo p epsilon c.answer.values
      · obtain ⟨c, hc, hint⟩ := hnone
        have hle := h.le c hc hint
        rw [hbot, Level.le_bottom_iff] at hle
        exact .inl ⟨c, List.mem_reverse.2 hc, hint, hle.trans hbot.symm⟩
      · exact .inr ⟨hbot, fun c hc hint => hnone ⟨c, List.mem_reverse.1 hc, hint⟩⟩

/-- **Ordered incumbents rise strictly.** -/
theorem Recorded.pairwise_lt (h : Recorded p epsilon s) (hordered : Ordered s.calls) :
    s.report.incumbents.Pairwise (· < ·) := by
  have hnum : ∀ a ∈ s.report.incumbents, a.IsNumber := by
    intro a ha
    obtain ⟨accepted, hacc⟩ := h.accepted
    rw [hacc.incumbents_eq] at ha
    obtain ⟨c, hc, rfl⟩ := List.mem_map.1 ha
    exact hordered c (List.mem_reverse.1 (hacc.sublist.subset hc))
  have hchain : s.report.incumbents.IsChain (· < ·) :=
    h.rising.imp_of_mem_imp fun a b ha hb hba => Level.lt_of_not_le (hnum a ha) (hnum b hb) hba
  exact List.isChain_iff_pairwise.1 hchain

/-! ## Searches -/

/-- **The incumbents of a search**, whatever the wrapped solver answers.

They are the levels of answers that were accepted, in order, each with a
point and integral values, and the solution is the last of these answers.
Without any the solution is the root's answer if that is infeasible, and the
infeasible solution otherwise. No incumbent is at most the one before it. If
all levels that were answered are ordered, the incumbents rise strictly, and
the level of the solution is that of the best integral answer. -/
theorem search_incumbents (h : search solver cfg limit memory p = some outcome) :
    (∃ accepted, Accepted p cfg.epsilon outcome.calls outcome.report accepted) ∧
    (outcome.report.incumbents = [] → ∃ root, outcome.calls.head? = some root ∧
      root.problem = p ∧ outcome.report.solution =
        if root.answer.isInfeasible then root.answer else Solution.infeasible p.numVariables) ∧
    (outcome.report.incumbents.IsChain fun a b => ¬ b ≤ a) ∧
    (Ordered outcome.calls → outcome.report.incumbents.Pairwise (· < ·) ∧
      BestAnswer p cfg.epsilon outcome.calls outcome.report.solution.objective) := by
  rcases exists_passes_of_search h with ⟨root, -, hinf, hreport, hcalls⟩ | ⟨s, hpass, -, rfl⟩
  · -- the root is infeasible: its answer is the only one, and is the solution
    have hbot : root.solution.objective = .bottom := Level.isBottom_iff.1 hinf
    rw [hreport, hcalls]
    refine ⟨⟨[], List.nil_sublist _, nofun, rfl, nofun⟩,
      fun _ => ⟨⟨p, root.solution⟩, rfl, rfl, (if_pos hinf).symm⟩, .nil, fun _ => ⟨.nil, ?_, ?_⟩⟩
    · intro c hc _
      rw [List.mem_singleton.1 hc, hbot]
      exact Level.bottom_le_bottom
    · by_cases hint : IntegralUpTo p cfg.epsilon root.solution.values
      · exact .inl ⟨_, List.mem_singleton_self _, hint, rfl⟩
      · exact .inr ⟨hbot, fun c hc => by rwa [List.mem_singleton.1 hc]⟩
  · have hrec := recorded_of_passes hpass
    refine ⟨hrec.accepted, fun hnil => ?_, hrec.rising, fun hordered => ?_⟩
    · obtain ⟨root, hroot, hp, hfeas⟩ := exists_root_of_passes hpass
      refine ⟨root, List.head?_reverse.trans hroot, hp, ?_⟩
      rw [hfeas]
      exact hrec.solution_eq hnil
    · have hcalls : Ordered s.calls := fun c hc => hordered c (List.mem_reverse.2 hc)
      exact ⟨hrec.pairwise_lt hcalls, (best_of_passes hpass hcalls).bestAnswer hrec⟩

/-- One integer variable, with doubles. -/
def oneInteger : Problem Double where
  objective := [1]
  rows := [⟨[1], 3.5⟩]
  integer := [true]
  objective_ne_nil := List.cons_ne_nil _ _
  rows_ne_nil := List.cons_ne_nil _ _
  length_coefficients := List.forall_mem_singleton.2 rfl
  length_integer := rfl

/-- A fractional answer, and two integral ones of which the second is better. -/
def risingAnswers : List (Solution Double) :=
  [⟨.number 5.0, [2.5]⟩, ⟨.number 3.0, [2.0]⟩, ⟨.number 4.0, [3.0]⟩]

/-- Both integral answers become incumbents, and the second one is the best. -/
theorem search_incumbents_risingAnswers :
    ∃ o, search Method.scripted ⟨0.25, .depthFirst⟩ 5 risingAnswers oneInteger = some o ∧
      o.report.incumbents.length = 2 ∧
      (∃ accepted, Accepted oneInteger 0.25 o.calls o.report accepted) ∧
      o.report.incumbents.Pairwise (· < ·) ∧
      BestAnswer oneInteger 0.25 o.calls o.report.solution.objective := by
  have hrun : (search Method.scripted ⟨0.25, .depthFirst⟩ 5 risingAnswers oneInteger).map
      (fun o => (o.report.incumbents.length,
        o.calls.all fun c => decide (c.answer.objective ≤ c.answer.objective))) =
      some (2, true) := by decide +kernel
  obtain ⟨o, hrun, heq⟩ := Option.map_eq_some_iff.1 hrun
  obtain ⟨hlength, hall⟩ := Prod.mk.inj heq
  have hordered : Ordered o.calls := by
    intro c hc
    have hle : c.answer.objective ≤ c.answer.objective :=
      of_decide_eq_true (List.all_eq_true.1 hall c hc)
    exact hle
  obtain ⟨haccepted, -, -, hbest⟩ := search_incumbents hrun
  exact ⟨o, hrun, hlength, haccepted, hbest hordered⟩

end Search

end Milp
