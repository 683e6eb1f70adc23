import Milp.Proofs.Problem.Boxes
import Milp.Proofs.Search.Correctness
/-!
# A split is a partition

The two problems that a split makes of a node share its points with an
integral value there: each is in one of the two and in no more than one, since
the value that was split at is no integer (`floor_lt_of_fractional`) and so the
two bounds leave a gap. In the gap lie the answer itself and every other point
between the two integers around it. How the bounds are kept does not matter, as
rows of their own or in rows that the problem has already, once or several
times (`visit_partitions`).
-/

namespace Milp

namespace Search

variable {σ : Type} {epsilon v : ℚ} {q : Problem ℚ} {answer : Solution ℚ} {f : Fractional ℚ}
variable {y : List ℚ}

/-! ## The variable that is split at -/

/-- What a verdict to branch says of the answer. -/
theorem branching_of_judge {α : Type} [Scalar α] {epsilon : α} {incumbent : Level α}
    {q : Problem α} {answer : Solution α} {f : Fractional α}
    (h : judge epsilon incumbent q answer = .branch f) :
    branching q epsilon answer.values = some f := by
  unfold judge at h
  split at h
  · cases h
  · split at h
    · cases h
    · rename_i hf
      cases h
      exact hf

/-- **A value that is split at lies between two integers**, above the floor
and below the ceiling. -/
theorem floor_lt_of_fractional (h0 : 0 ≤ epsilon) (h : isIntegral epsilon v = false) :
    (⌊v⌋ : ℚ) < v ∧ v < ⌈v⌉ := by
  have hne : ∀ k : ℤ, v ≠ k := fun k => Problem.ne_intCast_of_isIntegral h0 rfl h k
  exact ⟨lt_of_le_of_ne (Int.floor_le v) (hne _).symm, lt_of_le_of_ne (Int.le_ceil v) (hne _)⟩

/-! ## The points of the two children -/

/-- **Two problems partition a third** at a value of one of its variables. -/
structure Partitions (q down up : Problem ℚ) (j : ℕ) (v : ℚ) : Prop where
  /-- A point with an integral value there is in exactly one of the two. -/
  xor_iff : ∀ y : List ℚ, (∃ k : ℤ, y.getD j 0 = k) →
    (q.isFeasible y 0 = true ↔ Xor (down.isFeasible y 0 = true) (up.isFeasible y 0 = true))
  /-- The two have no other points. -/
  feasible_of_or : ∀ y : List ℚ, down.isFeasible y 0 = true ∨ up.isFeasible y 0 = true →
    q.isFeasible y 0 = true
  /-- And none between the two integers around the value. -/
  gap : ∀ y : List ℚ, (⌊v⌋ : ℚ) < y.getD j 0 → y.getD j 0 < (⌈v⌉ : ℚ) →
    down.isFeasible y 0 = false ∧ up.isFeasible y 0 = false

/-- The points of the child below. -/
theorem isFeasible_floorChild_iff (hf : q.isInteger f.index = true) :
    (floorChild q f).isFeasible y 0 = true ↔
      q.isFeasible y 0 = true ∧ y.getD f.index 0 ≤ (⌊f.value⌋ : ℚ) := by
  rw [Problem.isFeasible_zero_iff, Problem.isFeasible_zero_iff, floorChild,
    Problem.feasible_atMost_iff (Problem.lt_of_isInteger hf), Scalar.floor_rat]

/-- The points of the child above. -/
theorem isFeasible_ceilChild_iff (hf : q.isInteger f.index = true) :
    (ceilChild q f).isFeasible y 0 = true ↔
      q.isFeasible y 0 = true ∧ (⌈f.value⌉ : ℚ) ≤ y.getD f.index 0 := by
  rw [Problem.isFeasible_zero_iff, Problem.isFeasible_zero_iff, ceilChild,
    Problem.feasible_atLeast_iff (Problem.lt_of_isInteger hf), Scalar.ceil_rat]

/-- **The children partition their node**, where the value that is split at is
no integer. -/
theorem partitions_children (hf : q.isInteger f.index = true)
    (hgap : (⌊f.value⌋ : ℚ) < (⌈f.value⌉ : ℚ)) :
    Partitions q (floorChild q f) (ceilChild q f) f.index f.value where
  xor_iff y hy := by
    obtain ⟨k, hk⟩ := hy
    rw [isFeasible_floorChild_iff hf, isFeasible_ceilChild_iff hf, hk]
    constructor
    · intro hfeas
      rcases Problem.le_floor_or_ceil_le k f.value with hle | hle
      · exact .inl ⟨⟨hfeas, hle⟩, fun h => not_le.2 hgap (h.2.trans hle)⟩
      · exact .inr ⟨⟨hfeas, hle⟩, fun h => not_le.2 hgap (hle.trans h.2)⟩
    · rintro (⟨h, -⟩ | ⟨h, -⟩)
      · exact h.1
      · exact h.1
  feasible_of_or y hy := by
    rw [isFeasible_floorChild_iff hf, isFeasible_ceilChild_iff hf] at hy
    exact hy.elim And.left And.left
  gap y hlower hupper := by
    rw [← Bool.not_eq_true, ← Bool.not_eq_true, isFeasible_floorChild_iff hf,
      isFeasible_ceilChild_iff hf]
    exact ⟨fun h => not_le.2 hlower h.2, fun h => not_le.2 hupper h.2⟩

/-! ## Visiting a node -/

/-- **A split is a partition** of the points with an integral value in the
variable that is split at, whatever rows the problem has. The two problems that
are queued are its parts; the answer lies in the gap between them and is in
neither. -/
theorem visit_partitions {s : State σ ℚ} (h0 : 0 ≤ epsilon)
    (h : judge epsilon s.incumbent q answer = .branch f) :
    (∀ r b, (s.visit epsilon q answer).frontier.Pending r b ↔
      (floorChild q f = r ∨ ceilChild q f = r) ∧ answer.objective = b ∨ s.frontier.Pending r b) ∧
    Partitions q (floorChild q f) (ceilChild q f) f.index f.value ∧
    answer.values[f.index]? = some f.value ∧ (⌊f.value⌋ : ℚ) < f.value ∧ f.value < (⌈f.value⌉ : ℚ) ∧
    (floorChild q f).isFeasible answer.values 0 = false ∧
    (ceilChild q f).isFeasible answer.values 0 = false := by
  obtain ⟨hvalue, hf, hfrac⟩ := branching_eq_some (branching_of_judge h)
  obtain ⟨hlower, hupper⟩ := floor_lt_of_fractional h0 hfrac
  have hget : answer.values.getD f.index 0 = f.value := by
    rw [List.getD_eq_getElem?_getD, hvalue, Option.getD_some]
  have hparts := partitions_children hf (hlower.trans hupper)
  refine ⟨fun r b => ?_, hparts, hvalue, hlower, hupper,
    hparts.gap answer.values (hget ▸ hlower) (hget ▸ hupper)⟩
  rw [visit_eq, h]
  exact Frontier.pending_pushChildren

/-- A variable with two upper bounds already, and a lower one. -/
def boundedTwice : Problem ℚ where
  objective := [1]
  rows := [⟨[1], 5⟩, ⟨[-1], 0⟩, ⟨[1], 4⟩]
  integer := [true]
  objective_ne_nil := List.cons_ne_nil _ _
  rows_ne_nil := List.cons_ne_nil _ _
  length_coefficients := List.forall_mem_cons.2
    ⟨rfl, List.forall_mem_cons.2 ⟨rfl, List.forall_mem_singleton.2 rfl⟩⟩
  length_integer := by decide

/-- Split at five halves, where no row is added: the first upper bound and the
lower one are sharpened. Three is a point of the child above only. -/
theorem visit_partitions_boundedTwice :
    ∃ f : Fractional ℚ, judge (1 / 4) .bottom boundedTwice ⟨.number 3, [5 / 2]⟩ = .branch f ∧
      (floorChild boundedTwice f).rhs = [2, 0, 4] ∧ (ceilChild boundedTwice f).rhs = [5, -3, 4] ∧
      Partitions boundedTwice (floorChild boundedTwice f) (ceilChild boundedTwice f) 0 (5 / 2) ∧
      (floorChild boundedTwice f).isFeasible [5 / 2] 0 = false ∧
      (floorChild boundedTwice f).isFeasible [3] 0 = false ∧
      (ceilChild boundedTwice f).isFeasible [3] 0 = true := by
  obtain ⟨⟨j, v⟩, hbranch, heq⟩ := Option.map_eq_some_iff.1
    (show (branching boundedTwice (1 / 4) [5 / 2]).map (fun f => (f.index, f.value)) =
      some (0, 5 / 2) by decide +kernel)
  obtain ⟨rfl, rfl⟩ := Prod.mk.inj heq
  have hjudge : judge (1 / 4)
      (State.initial (σ := Unit) ⟨1 / 4, .depthFirst⟩ () boundedTwice).incumbent boundedTwice
      ⟨.number 3, [5 / 2]⟩ = .branch ⟨0, 5 / 2⟩ :=
    judge_eq_branch (not_or.2 ⟨Bool.false_ne_true, Level.not_number_le_bottom⟩) hbranch
  obtain ⟨-, hparts, -, -, -, hfloor, -⟩ := visit_partitions (by norm_num) hjudge
  exact ⟨⟨0, 5 / 2⟩, hjudge, by decide +kernel, by decide +kernel, hparts, hfloor,
    by decide +kernel, by decide +kernel⟩

end Search

end Milp
