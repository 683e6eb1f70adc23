import Milp.Proofs.Search.Orders
/-!
# A larger tolerance truncates the tree

How far a value is from a half and how far it is from the nearest integer
add up to a half (`distanceToHalf_add_offset`). So the variable closest to a
half is the one that is furthest from an integer, and it is the last that a
growing tolerance takes for integral: while there is a variable to branch on,
it stays the same one (`truncates_of_le`). The tree without pruning loses
what is below some of its nodes, which become leaves
(`InTree.below_truncated`), and where answers are monotone the best of the
leaves does not fall.
-/

namespace Milp

namespace Search

/-! ## Values -/

/-- How far a value is from the nearest integer. -/
def offset {α : Type} [Scalar α] (v : α) : α := Scalar.abs (v - Scalar.round v)

/-- No integer is further than a half from the value that it is rounded from. -/
theorem abs_sub_round_le (v : ℚ) : |v - Rational.round v| ≤ 1 / 2 := by
  rw [abs_le, Rational.round]
  split
  · have hle : ((-v + 1 / 2).floor : ℚ) ≤ -v + 1 / 2 := Int.floor_le _
    have hlt : -v + 1 / 2 < ((-v + 1 / 2).floor : ℚ) + 1 := Int.lt_floor_add_one _
    push_cast
    constructor <;> linarith
  · have hle : ((v + 1 / 2).floor : ℚ) ≤ v + 1 / 2 := Int.floor_le _
    have hlt : v + 1 / 2 < ((v + 1 / 2).floor : ℚ) + 1 := Int.lt_floor_add_one _
    constructor <;> linarith

/-- **The two distances add up to a half.** -/
theorem distanceToHalf_add_offset (v : ℚ) : distanceToHalf v + offset v = 1 / 2 := by
  show Scalar.abs (v - Scalar.floor v - 1 / 2) + Scalar.abs (v - (Rational.round v : ℚ)) = 1 / 2
  rw [Scalar.abs_rat, Scalar.abs_rat, Scalar.floor_rat]
  have hfloor := Int.floor_le v
  have hceil := Int.lt_floor_add_one v
  obtain ⟨hlower, hupper⟩ := abs_le.1 (abs_sub_round_le v)
  -- the nearest integer is next to the value
  have hround : Rational.round v = ⌊v⌋ ∨ Rational.round v = ⌊v⌋ + 1 := by
    have hge : ((⌊v⌋ - 1 : ℤ) : ℚ) < Rational.round v := by push_cast; linarith
    have hle : (Rational.round v : ℚ) < ((⌊v⌋ + 2 : ℤ) : ℚ) := by push_cast; linarith
    have hge := Int.cast_lt.1 hge
    have hle := Int.cast_lt.1 hle
    omega
  rcases hround with h | h <;> rw [h] at hlower hupper ⊢ <;> push_cast at hlower hupper ⊢
  · rw [abs_of_nonpos (by linarith), abs_of_nonneg (by linarith)]
    ring
  · rw [abs_of_nonneg (by linarith), abs_of_nonpos (by linarith)]
    ring

/-- The closer a value is to a half, the further it is from an integer. -/
theorem distanceToHalf_lt_iff {v w : ℚ} :
    distanceToHalf v < distanceToHalf w ↔ offset w < offset v := by
  have hv := distanceToHalf_add_offset v
  have hw := distanceToHalf_add_offset w
  constructor <;> intro h <;> linarith


/-! ## The variable to branch on -/

variable {epsilon epsilon' : ℚ} {q : Problem ℚ} {j : ℕ} {v : ℚ}

theorem isFractional_iff :
    isFractional q epsilon j v = true ↔ q.isInteger j = true ∧ epsilon < offset v := by
  rw [isFractional, isIntegral, Bool.and_eq_true, Bool.not_eq_true', decide_eq_false_iff_not]
  exact and_congr_right fun _ => not_le

/-- A larger tolerance takes fewer values for fractional. -/
theorem isFractional_mono (hepsilon : epsilon ≤ epsilon')
    (h : isFractional q epsilon' j v = true) : isFractional q epsilon j v = true := by
  rw [isFractional_iff] at *
  exact ⟨h.1, hepsilon.trans_lt h.2⟩

/-- **What a scan of the values keeps under two tolerances**: `best` under
the smaller one and `best'` under the larger one. The larger one keeps the
same variable; or it keeps none, and the smaller one none that is beyond the
larger. -/
def Agree (epsilon' : ℚ) (best best' : Option (Fractional ℚ)) : Prop :=
  match best' with
  | some b => best = some b ∧ epsilon' < offset b.value
  | none => ∀ b, best = some b → offset b.value ≤ epsilon'

/-- A value beyond both tolerances is kept by both or by none. -/
theorem Agree.beyond {best best' : Option (Fractional ℚ)} (h : Agree epsilon' best best')
    {f : Fractional ℚ} (hf : epsilon' < offset f.value) :
    Agree epsilon' (some (closer best f)) (some (closer best' f)) := by
  cases best' with
  | some b =>
    obtain ⟨rfl, hb⟩ := h
    refine ⟨rfl, ?_⟩
    rw [closer]
    split <;> assumption
  | none =>
    refine ⟨?_, hf⟩
    cases best with
    | none => rfl
    | some b =>
      -- the larger tolerance takes what was kept so far for integral
      exact congrArg some (if_pos (distanceToHalf_lt_iff.2 ((h b rfl).trans_lt hf)))

/-- A value between the two tolerances does not replace one that is beyond
both. -/
theorem Agree.between {best best' : Option (Fractional ℚ)} (h : Agree epsilon' best best')
    {f : Fractional ℚ} (hf : offset f.value ≤ epsilon') :
    Agree epsilon' (some (closer best f)) best' := by
  cases best' with
  | some b =>
    obtain ⟨rfl, hb⟩ := h
    refine ⟨congrArg some (if_neg fun hlt => ?_), hb⟩
    exact absurd (distanceToHalf_lt_iff.1 hlt) (not_lt.2 (hf.trans hb.le))
  | none =>
    intro b hb
    cases hb
    rcases closer_cases best f with hcloser | hcloser
    · rw [hcloser]
      exact hf
    · exact h _ hcloser

/-- **A scan under two tolerances** ends as it began. -/
theorem Agree.mostFractional (hepsilon : epsilon ≤ epsilon') {values : List ℚ}
    {best best' : Option (Fractional ℚ)} (h : Agree epsilon' best best') :
    Agree epsilon' (mostFractional q epsilon j best values)
      (mostFractional q epsilon' j best' values) := by
  induction values generalizing j best best' with
  | nil => exact h
  | cons v rest ih =>
    rw [mostFractional_cons, mostFractional_cons]
    refine ih ?_
    by_cases hlarge : isFractional q epsilon' j v = true
    · rw [if_pos hlarge, if_pos (isFractional_mono hepsilon hlarge)]
      exact h.beyond (isFractional_iff.1 hlarge).2
    · rw [if_neg hlarge]
      by_cases hsmall : isFractional q epsilon j v = true
      · rw [if_pos hsmall]
        refine h.between (not_lt.1 fun hlt => hlarge ?_)
        exact isFractional_iff.2 ⟨(isFractional_iff.1 hsmall).1, hlt⟩
      · rwa [if_neg hsmall]

/-! ## Trees -/

variable {α : Type} [Scalar α]

/-- **One tolerance truncates the trees of another one**: while it branches,
it branches on the same variable. -/
def Truncates (epsilon epsilon' : α) : Prop :=
  ∀ (q : Problem α) (values : List α) (f : Fractional α),
    branching q epsilon' values = some f → branching q epsilon values = some f

/-- **A larger tolerance truncates.** -/
theorem truncates_of_le (hepsilon : epsilon ≤ epsilon') : Truncates epsilon epsilon' := by
  intro q values f hf
  have hagree : Agree epsilon' (branching q epsilon values) (branching q epsilon' values) :=
    Agree.mostFractional hepsilon nofun
  rw [hf] at hagree
  exact hagree.1

section Trees

variable {answer : Problem α → Solution α} {epsilon epsilon' : α} {p q r : Problem α}
variable {f : Fractional α} (h : Truncates epsilon epsilon')

include h

theorem Splits.of_truncated (hs : Splits answer epsilon' q f) : Splits answer epsilon q f :=
  ⟨hs.feasible, h q _ f hs.fractional⟩

/-- The truncated tree is part of the other one. -/
theorem InTree.of_truncated (hq : InTree answer epsilon' p q) : InTree answer epsilon p q := by
  induction hq using InTree.child_induction with
  | root => exact .root
  | child side _ hs ih => exact ih.child (hs.of_truncated h) side

/-- So what is monotone in the other one is in the truncated tree. -/
theorem MonotoneBranching.of_truncated (hmono : MonotoneBranching answer epsilon p) :
    MonotoneBranching answer epsilon' p where
  isNumber q hq := hmono.isNumber q (hq.of_truncated h)
  floor_le q f hq hs := hmono.floor_le q f (hq.of_truncated h) (hs.of_truncated h)
  ceil_le q f hq hs := hmono.ceil_le q f (hq.of_truncated h) (hs.of_truncated h)

/-- A problem of the truncated tree that is split in the other one is split
in the same way or is a leaf. -/
theorem Splits.truncated (hs : Splits answer epsilon q f) :
    Splits answer epsilon' q f ∨ IsLeaf answer epsilon' q := by
  cases hb : branching q epsilon' (answer q).values with
  | none => exact .inr ⟨hs.feasible, branching_eq_none_iff.1 hb⟩
  | some g =>
    have hg : Splits answer epsilon' q g := ⟨hs.feasible, hb⟩
    cases hs.unique (hg.of_truncated h)
    exact .inl hg

/-- **What the truncated tree loses** is below its leaves. -/
theorem InTree.below_truncated (hr : InTree answer epsilon p r) :
    InTree answer epsilon' p r ∨
      ∃ q, InTree answer epsilon' p q ∧ IsLeaf answer epsilon' q ∧ InTree answer epsilon q r := by
  induction hr using InTree.child_induction with
  | root => exact .inl .root
  | child side _ hs ih =>
    rcases ih with hq | ⟨q, hq, hleaf, hbelow⟩
    · rcases hs.truncated h with hs' | hleaf
      · exact .inl (hq.child hs' side)
      · exact .inr ⟨_, hq, hleaf, InTree.root.child hs side⟩
    · exact .inr ⟨q, hq, hleaf, hbelow.child hs side⟩

/-- A leaf is not split by the tolerance that truncates. -/
theorem IsLeaf.truncated (hleaf : IsLeaf answer epsilon q) : IsLeaf answer epsilon' q := by
  refine ⟨hleaf.feasible, branching_eq_none_iff.1 ?_⟩
  cases hb : branching q epsilon' (answer q).values with
  | none => rfl
  | some f => exact absurd (Splits.of_truncated h ⟨hleaf.feasible, hb⟩) hleaf.not_splits

variable [Scalar.Ordered α]

/-- **Truncating does not lower the best of the leaves.** -/
theorem IsBest.le_of_truncated (hmono : MonotoneBranching answer epsilon p) {z z' : Level α}
    (hbest : IsBest answer epsilon p z) (hbest' : IsBest answer epsilon' p z') : z ≤ z' := by
  rcases hbest.attained with ⟨r, hr, hleaf, rfl⟩ | ⟨rfl, -⟩
  · rcases hr.below_truncated h with hr' | ⟨q, hq, hleaf', hbelow⟩
    · exact hbest'.le r hr' (hleaf.truncated h)
    · exact Level.le_trans (hmono.le (hq.of_truncated h) hbelow) (hbest'.le q hq hleaf')
  · refine Level.bottom_le ?_
    rcases hbest'.attained with ⟨q, hq, -, rfl⟩ | ⟨rfl, -⟩
    · exact hmono.isNumber q (hq.of_truncated h)
    · exact Level.bottom_le_bottom

end Trees

/-- **The result is monotone in the tolerance.** Over rational numbers a
larger tolerance branches on the same variable or on none, so that its tree
is part of that of the smaller one. Over every pure solver that is monotone
under branching, and in any two orders, searches that end come to at least
as much under the larger tolerance. -/
theorem search_mono_epsilon (hepsilon : epsilon ≤ epsilon') :
    (∀ (q : Problem ℚ) (values : List ℚ) (j : ℕ),
      branchingVariable q epsilon' values = some j →
        branchingVariable q epsilon values = some j) ∧
    (∀ (answer : Problem ℚ → Solution ℚ) (p q : Problem ℚ),
      InTree answer epsilon' p q → InTree answer epsilon p q) ∧
    ∀ (answer : Problem ℚ → Solution ℚ) (p : Problem ℚ) (order order' : Order)
      (limit limit' : ℕ) (outcome outcome' : Outcome Unit ℚ),
      MonotoneBranching answer epsilon p →
      search (Solver.pure answer) ⟨epsilon, order⟩ limit () p = some outcome →
      search (Solver.pure answer) ⟨epsilon', order'⟩ limit' () p = some outcome' →
        outcome.report.solution.objective ≤ outcome'.report.solution.objective := by
  have htrunc : Truncates epsilon epsilon' := truncates_of_le hepsilon
  refine ⟨fun q values j hj => ?_, fun answer p q hq => hq.of_truncated htrunc,
    fun answer p order order' limit limit' outcome outcome' hmono h h' => ?_⟩
  · obtain ⟨f, hf, rfl⟩ := Option.map_eq_some_iff.1 hj
    exact Option.map_eq_some_iff.2 ⟨f, htrunc q values f hf, rfl⟩
  · have hbest : IsBest answer epsilon p outcome.report.solution.objective :=
      isBest_of_search hmono h
    have hbest' : IsBest answer epsilon' p outcome'.report.solution.objective :=
      isBest_of_search (hmono.of_truncated htrunc) h'
    exact hbest.le_of_truncated htrunc hmono hbest'

/-- With tolerance one half the root of `fractionalRoot` is a leaf, whose
objective is 21; without tolerance the best leaf has 20. -/
theorem search_mono_epsilon_fractionalRoot :
    ∃ o o', search (Solver.pure relaxation) ⟨0, .depthFirst⟩ 20 () fractionalRoot = some o ∧
      search (Solver.pure relaxation) ⟨1 / 2, .bestFirst⟩ 20 () fractionalRoot = some o' ∧
      o.report.solution.objective.number? = some 20 ∧
      o'.report.solution.objective.number? = some 21 ∧
      MonotoneBranching relaxation 0 fractionalRoot ∧
      o.report.solution.objective ≤ o'.report.solution.objective := by
  have hrun : (search (Solver.pure relaxation) ⟨0, .depthFirst⟩ 20 () fractionalRoot).map
      (fun o => o.report.solution.objective.number?) = some (some 20) := by decide +kernel
  have hrun' : (search (Solver.pure relaxation) ⟨1 / 2, .bestFirst⟩ 20 () fractionalRoot).map
      (fun o => o.report.solution.objective.number?) = some (some 21) := by decide +kernel
  obtain ⟨o, ho, hobj⟩ := Option.map_eq_some_iff.1 hrun
  obtain ⟨o', ho', hobj'⟩ := Option.map_eq_some_iff.1 hrun'
  have hmono := monotoneBranching_of_exact exactAnswer_relaxation 0 fractionalRoot
  have hepsilon : (0 : ℚ) ≤ 1 / 2 := by norm_num
  obtain ⟨-, -, hle⟩ := search_mono_epsilon hepsilon
  exact ⟨o, o', ho, ho', hobj, hobj', hmono, hle _ _ _ _ _ _ _ _ hmono ho ho'⟩

end Search

end Milp
