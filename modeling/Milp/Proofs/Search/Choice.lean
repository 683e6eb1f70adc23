import Milp.Proofs.Number.Subtraction
import Milp.Proofs.Problem.Rows
import Milp.Proofs.Search.Incumbents
import Milp.Proofs.Storage.Problems
import Milp.Storage.Branching
/-!
# The choice of the variable to branch on

A value can be branched on when its variable has to be an integer and it is too
far from one (`Eligible`). The scan of the values keeps the first of those that
are closest to a half (`IsChoice`): with one more value (`branching_concat`) the
choice stays or is that value (`Chosen.concat`), as long as all distances are
numbers, which those of finite doubles are (`isNaN_distanceToHalf`). Nothing else
is read, so values that cannot be branched on may be anything, or not be there
(`branching_congr`). Over doubles that is the whole of it
(`branchingVariable_choice`).
-/

namespace Milp

namespace Search

/-! ## The scan -/

section Scan

variable {α : Type} [Scalar α] {p : Problem α} {epsilon v w : α} {values : List α} {j k : ℕ}

/-- **The scan with one more value.** -/
theorem mostFractional_concat (j : ℕ) (best : Option (Fractional α)) (values : List α) (v : α) :
    mostFractional p epsilon j best (values ++ [v]) =
      if isFractional p epsilon (j + values.length) v then
        some (closer (mostFractional p epsilon j best values) ⟨j + values.length, v⟩)
      else mostFractional p epsilon j best values := by
  induction values generalizing j best with
  | nil =>
    rw [List.nil_append, mostFractional_cons]
    rfl
  | cons w values ih =>
    rw [List.cons_append, mostFractional_cons, ih, mostFractional_cons, List.length_cons,
      Nat.add_assoc, Nat.add_comm 1]

theorem branching_concat (values : List α) (v : α) :
    branching p epsilon (values ++ [v]) = if isFractional p epsilon values.length v then
      some (closer (branching p epsilon values) ⟨values.length, v⟩)
        else branching p epsilon values := by
  rw [branching, mostFractional_concat, Nat.zero_add]
  rfl

/-- **One turn of the scan**, which reads the `j`-th value if there is one. -/
def turn (p : Problem α) (epsilon : α) (values : List α) (best : Option (Fractional α)) (j : ℕ) :
    Option (Fractional α) :=
  match values[j]? with
  | none => best
  | some v => if isFractional p epsilon j v then some (closer best ⟨j, v⟩) else best

/-- The scan of the first values, turn by turn. -/
theorem branching_take (p : Problem α) (epsilon : α) (values : List α) (n : ℕ) :
    branching p epsilon (values.take n) =
      (List.range n).foldl (turn p epsilon values) none := by
  induction n with
  | zero => rfl
  | succ n ih =>
    rw [List.range_succ, List.foldl_append, ← ih, List.foldl_cons, List.foldl_nil,
      List.take_add_one, turn]
    cases hv : values[n]? with
    | none => rw [Option.toList_none, List.append_nil]
    | some v =>
      have hn : n ≤ values.length := (List.getElem?_eq_some_iff.1 hv).1.le
      rw [Option.toList_some, branching_concat, List.length_take_of_le hn]

/-- **Only values of variables that have to be integers are read.** -/
theorem branching_congr {values' : List α}
    (h : ∀ j, p.isInteger j = true → values'[j]? = values[j]?) :
    branching p epsilon values' = branching p epsilon values := by
  have hturn : turn p epsilon values' = turn p epsilon values := by
    funext best j
    cases hj : p.isInteger j with
    | true => rw [turn, turn, h j hj]
    | false =>
      -- nothing is kept of any other value
      have hskip : ∀ v, isFractional p epsilon j v = false := fun v => by
        rw [isFractional, hj, Bool.false_and]
      unfold turn
      simp only [hskip, Bool.false_eq_true, if_false]
      cases values'[j]? <;> cases values[j]? <;> rfl
  have htake := branching_take p epsilon values' (max values'.length values.length)
  rw [hturn, ← branching_take, List.take_of_length_le (Nat.le_max_left _ _),
    List.take_of_length_le (Nat.le_max_right _ _)] at htake
  exact htake

/-! ## The choice -/

/-- **A value that can be branched on**: that of a variable that has to be an
integer, further than the tolerance from the integer it is rounded to. -/
structure Eligible (p : Problem α) (epsilon : α) (values : List α) (j : ℕ) (v : α) : Prop where
  /-- The variable has that value. -/
  getElem?_eq : values[j]? = some v
  /-- It has to be an integer. -/
  isInteger : p.isInteger j = true
  /-- Its value is none. -/
  not_le : ¬ Scalar.abs (v - Scalar.round v) ≤ epsilon

/-- **The first of the values closest to a half**, among those that can be branched
on. -/
structure IsChoice (p : Problem α) (epsilon : α) (values : List α) (j : ℕ) (v : α) : Prop
    extends Eligible p epsilon values j v where
  /-- None is closer. -/
  le : ∀ k w, Eligible p epsilon values k w → distanceToHalf v ≤ distanceToHalf w
  /-- None before it is as close. -/
  lt : ∀ k w, Eligible p epsilon values k w → k < j → distanceToHalf v < distanceToHalf w

theorem isFractional_eq_true_iff : isFractional p epsilon j v = true ↔
    p.isInteger j = true ∧ ¬ Scalar.abs (v - Scalar.round v) ≤ epsilon := by
  rw [isFractional, isIntegral, Bool.and_eq_true, Bool.not_eq_true', decide_eq_false_iff_not]

theorem Eligible.lt_length (h : Eligible p epsilon values j v) : j < values.length :=
  (List.getElem?_eq_some_iff.1 h.getElem?_eq).1

/-- What can be branched on when there is one more value. -/
theorem eligible_concat_iff : Eligible p epsilon (values ++ [v]) k w ↔
    Eligible p epsilon values k w ∨
      k = values.length ∧ w = v ∧ isFractional p epsilon values.length v = true := by
  rw [isFractional_eq_true_iff]
  constructor
  · rintro ⟨hget, hk, hoff⟩
    rcases Nat.lt_or_ge k values.length with hlt | hge
    · rw [List.getElem?_append_left hlt] at hget
      exact .inl ⟨hget, hk, hoff⟩
    · rw [List.getElem?_append_right hge] at hget
      obtain ⟨hlast, rfl⟩ := List.getElem?_eq_some_iff.1 hget
      obtain rfl : k = values.length := by
        rw [List.length_singleton] at hlast
        omega
      rw [List.getElem_singleton] at hoff ⊢
      exact .inr ⟨rfl, rfl, hk, hoff⟩
  · rintro (⟨hget, hk, hoff⟩ | ⟨rfl, rfl, hk, hoff⟩)
    · have hlt := (List.getElem?_eq_some_iff.1 hget).1
      exact ⟨(List.getElem?_append_left hlt).trans hget, hk, hoff⟩
    · exact ⟨List.getElem?_concat_length, hk, hoff⟩

/-- **What a scan comes to**: the choice, if something can be branched on. -/
def Chosen (p : Problem α) (epsilon : α) (values : List α) : Option (Fractional α) → Prop
  | none => ∀ k w, ¬ Eligible p epsilon values k w
  | some f => IsChoice p epsilon values f.index f.value

/-! ## Storage -/

/-- What the stored scan keeps. -/
def scanned (f : Fractional α) : ℕ × α := (f.index, distanceToHalf f.value)

/-- One turn of the stored scan. -/
theorem scanValue_stored (p : Problem α) (epsilon : α) (best : Option (Fractional α)) (v : α)
    (j : ℕ) : p.stored.scanValue epsilon (best.map scanned) v j =
      (if isFractional p epsilon j v then some (closer best ⟨j, v⟩) else best).map scanned := by
  have hflag : (!p.stored.isInteger j || decide (Scalar.abs (v - Scalar.round v) ≤ epsilon)) =
      !isFractional p epsilon j v := by
    rw [isFractional, isIntegral, Bool.not_and, Bool.not_not]
    rfl
  rw [StoredProblem.scanValue, hflag]
  cases isFractional p epsilon j v with
  | false => rfl
  | true =>
    cases best with
    | none => rfl
    | some b =>
      show (if distanceToHalf v < distanceToHalf b.value then some (j, distanceToHalf v)
        else some (scanned b)) = some (scanned (closer (some b) ⟨j, v⟩))
      rw [closer, apply_ite scanned, apply_ite some]
      rfl

/-- **The stored scan** goes as the scan does. -/
theorem scan_stored (p : Problem α) (epsilon : α) (values : List α) (j : ℕ)
    (best : Option (Fractional α)) :
    (values.zipIdx j).foldl (fun best (v, j) => p.stored.scanValue epsilon best v j)
      (best.map scanned) = (mostFractional p epsilon j best values).map scanned := by
  induction values generalizing j best with
  | nil => rfl
  | cons v values ih =>
    rw [List.zipIdx_cons, List.foldl_cons, mostFractional_cons, ← ih]
    exact congrArg (List.foldl _ · _) (scanValue_stored p epsilon best v j)

theorem branchingVariable_stored (p : Problem α) (epsilon : α) (values : List α) :
    p.stored.branchingVariable epsilon values = branchingVariable p epsilon values := by
  have hscan := scan_stored p epsilon values 0 none
  rw [Option.map_none] at hscan
  rw [StoredProblem.branchingVariable, hscan, Option.map_map]
  rfl

/-- **Both children are made** without a fault of a variable and a value that are
there, when memory can hold one row more. -/
theorem children_stored (hroom : p.HasRoom) (b : Storage.Build) {f : Fractional α}
    (hvalue : values[f.index]? = some f.value) (hj : f.index < p.numVariables) :
    p.stored.children b values f.index =
      .ok ((floorChild p f).stored, (ceilChild p f).stored) := by
  have hzeros : f.index < (List.replicate p.numVariables (0 : α)).length := by
    rwa [List.length_replicate]
  have hrow : f.index < (Scalar.unitList p.numVariables f.index (1 : α)).length := by
    rwa [Scalar.length_unitList]
  have hagain : (Scalar.unitList p.numVariables f.index (1 : α)).set f.index (-1) =
      Scalar.unitList p.numVariables f.index (-1) := List.set_set ..
  rw [StoredProblem.children, Storage.read_of_getElem? hvalue, Storage.ok_bind,
    Problem.numVariables_stored, Storage.reserve_of_le hroom.fits.numVariables_le, Storage.ok_bind,
    Storage.write_of_lt hzeros, Storage.ok_bind, ← Scalar.unitList,
    Problem.pushConstraint_stored _ (Scalar.length_unitList _ _ _) hroom, Storage.ok_bind,
    Storage.write_of_lt hrow, Storage.ok_bind, hagain,
    Problem.pushConstraint_stored _ (Scalar.length_unitList _ _ _) hroom]
  rfl

/-- **An answer splits a stored problem** without a fault. -/
theorem split_stored (hroom : p.HasRoom) (b : Storage.Build) (epsilon : α) (values : List α) :
    p.stored.split b epsilon values = .ok ((branching p epsilon values).map fun f =>
      ((floorChild p f).stored, (ceilChild p f).stored)) := by
  rw [StoredProblem.split, branchingVariable_stored, branchingVariable]
  cases hf : branching p epsilon values with
  | none => rfl
  | some f =>
    obtain ⟨hvalue, hinteger, -⟩ := branching_eq_some hf
    simp only [Option.map_some]
    rw [children_stored hroom b hvalue (Problem.lt_of_isInteger hinteger)]
    rfl

end Scan

/-! ## Doubles -/

section Doubles

variable {p : Problem Double} {epsilon v : Double} {values : List Double} {j k : ℕ}

/-- The distance of a finite double is a number. -/
theorem isNaN_distanceToHalf (hnum : v.isNaN = false) (hfin : v.isInfinite = false) :
    (distanceToHalf v).isNaN = false := by
  have hmagnitude : v.magnitude.toNat < Double.infinityBits.toNat := by
    refine lt_of_le_of_ne (Double.isNaN_eq_false_iff.1 hnum) fun heq => ?_
    rw [Double.isInfinite, UInt64.toNat_inj.1 heq, beq_self_eq_true] at hfin
    cases hfin
  have hfloor : (Double.floor v).value? = some (⌊v.value⌋ : ℚ) :=
    Double.value?_floor (Double.value?_eq_some_iff.2 ⟨hmagnitude, rfl⟩)
  have hfraction := Double.isNaN_sub hnum (Double.value?_eq_some_iff.1 hfloor).1
  have hhalf : (Scalar.half : Double).magnitude.toNat < Double.infinityBits.toNat := by decide
  exact (Double.isNaN_abs _).trans (Double.isNaN_sub hfraction hhalf)

/-- Of two choices the first is the second. -/
theorem IsChoice.unique {w : Double} (h : IsChoice p epsilon values j v)
    (h' : IsChoice p epsilon values k w) : j = k := by
  rcases Nat.lt_trichotomy j k with hlt | heq | hgt
  · have hless := h'.lt j v h.toEligible hlt
    exact absurd (Double.lt_of_lt_of_le hless (h.le k w h'.toEligible)) (Double.lt_irrefl _)
  · exact heq
  · have hless := h.lt k w h'.toEligible hgt
    exact absurd (Double.lt_of_lt_of_le hless (h'.le j v h.toEligible)) (Double.lt_irrefl _)

/-- **A value that is added** is chosen or leaves the choice as it is. -/
theorem Chosen.concat (hnum : ∀ k w, Eligible p epsilon (values ++ [v]) k w →
      (distanceToHalf w).isNaN = false) {best : Option (Fractional Double)}
    (h : Chosen p epsilon values best) :
    Chosen p epsilon (values ++ [v])
      (if isFractional p epsilon values.length v then some (closer best ⟨values.length, v⟩)
        else best) := by
  by_cases hfrac : isFractional p epsilon values.length v = true
  swap
  · -- nothing more can be branched on
    have hsame : ∀ k w, Eligible p epsilon (values ++ [v]) k w → Eligible p epsilon values k w :=
      fun k w hw => (eligible_concat_iff.1 hw).resolve_right fun hnew => hfrac hnew.2.2
    rw [if_neg hfrac]
    cases best with
    | none => exact fun k w hw => h k w (hsame k w hw)
    | some b =>
      exact ⟨eligible_concat_iff.2 (.inl h.toEligible), fun k w hw => h.le k w (hsame k w hw),
        fun k w hw => h.lt k w (hsame k w hw)⟩
  have hadded : Eligible p epsilon (values ++ [v]) values.length v :=
    eligible_concat_iff.2 (.inr ⟨rfl, rfl, hfrac⟩)
  have hself : distanceToHalf v ≤ distanceToHalf v :=
    Double.le_iff_value.2 ⟨hnum _ _ hadded, hnum _ _ hadded, le_rfl⟩
  rw [if_pos hfrac]
  cases best with
  | none =>
    have honly : ∀ k w, Eligible p epsilon (values ++ [v]) k w → k = values.length ∧ w = v :=
      fun k w hw => ((eligible_concat_iff.1 hw).resolve_left (h k w)).imp_right And.left
    refine ⟨hadded, fun k w hw => ?_, fun k w hw hlt => ?_⟩
    · obtain ⟨-, rfl⟩ := honly k w hw
      exact hself
    · exact absurd (honly k w hw).1 hlt.ne
  | some b =>
    have hkept : Eligible p epsilon (values ++ [v]) b.index b.value :=
      eligible_concat_iff.2 (.inl h.toEligible)
    rw [closer]
    split
    · -- it is closer than the choice so far, and so than everything before it
      rename_i hlt
      have hless : ∀ k w, Eligible p epsilon values k w → distanceToHalf v < distanceToHalf w :=
        fun k w hw => Double.lt_of_lt_of_le hlt (h.le k w hw)
      refine ⟨hadded, fun k w hw => ?_, fun k w hw hk => ?_⟩
      · rcases eligible_concat_iff.1 hw with hw | ⟨-, rfl, -⟩
        · exact Double.le_of_lt (hless k w hw)
        · exact hself
      · exact hless k w ((eligible_concat_iff.1 hw).resolve_right fun hnew => hk.ne hnew.1)
    · rename_i hge
      refine ⟨hkept, fun k w hw => ?_, fun k w hw hk => ?_⟩
      · rcases eligible_concat_iff.1 hw with hw | ⟨-, rfl, -⟩
        · exact h.le k w hw
        · exact Double.le_of_not_lt (hnum _ _ hadded) (hnum _ _ hkept) hge
      · refine h.lt k w ((eligible_concat_iff.1 hw).resolve_right fun hnew => ?_) hk
        exact absurd (hnew.1 ▸ hk) (Nat.lt_asymm h.toEligible.lt_length)

/-- **The scan comes to the choice**, when all distances are numbers. -/
theorem chosen_branching (hnum : ∀ k w, Eligible p epsilon values k w →
    (distanceToHalf w).isNaN = false) : Chosen p epsilon values (branching p epsilon values) := by
  induction values using List.reverseRecOn with
  | nil => exact fun k w hw => absurd hw.lt_length (Nat.not_lt_zero k)
  | append_singleton values v ih =>
    rw [branching_concat]
    exact (ih fun k w hw => hnum k w (eligible_concat_iff.2 (.inl hw))).concat hnum

/-- **Which variable is branched on**, over doubles, for values of any number. It
has to be an integer and has a value, so that the answer is split without a fault
when memory can hold one row more. There is none exactly when all variables that
have to be integers are, up to the tolerance. Otherwise, as long as their values
are finite, it is the first of those that are not whose value is closest to a half.
Other values do not matter. -/
theorem branchingVariable_choice (p : Problem Double) (epsilon : Double) (values : List Double) :
    (∀ j, branchingVariable p epsilon values = some j →
      j < values.length ∧ j < p.numVariables ∧ p.isInteger j = true) ∧
    (p.HasRoom → ∀ b, p.stored.split b epsilon values =
      .ok ((branching p epsilon values).map fun f =>
        ((floorChild p f).stored, (ceilChild p f).stored))) ∧
    (branchingVariable p epsilon values = none ↔ ∀ j v, values[j]? = some v →
      p.isInteger j = true → Scalar.abs (v - Scalar.round v) ≤ epsilon) ∧
    ((∀ j v, values[j]? = some v → p.isInteger j = true →
        v.isNaN = false ∧ v.isInfinite = false) →
      ∀ j, branchingVariable p epsilon values = some j ↔ ∃ v, IsChoice p epsilon values j v) ∧
    ∀ values' : List Double, (∀ j, p.isInteger j = true → values'[j]? = values[j]?) →
      branchingVariable p epsilon values' = branchingVariable p epsilon values := by
  refine ⟨fun j hj => ?_, fun hroom b => split_stored hroom b epsilon values, ?_,
    fun hfin j => ?_, fun values' h => ?_⟩
  · obtain ⟨f, hf, rfl⟩ := Option.map_eq_some_iff.1 hj
    obtain ⟨hvalue, hinteger, -⟩ := branching_eq_some hf
    exact ⟨(List.getElem?_eq_some_iff.1 hvalue).1, Problem.lt_of_isInteger hinteger, hinteger⟩
  · exact Option.map_eq_none_iff.trans branching_eq_none_iff
  · have hchosen : Chosen p epsilon values (branching p epsilon values) :=
      chosen_branching fun k w hw =>
        isNaN_distanceToHalf (hfin k w hw.getElem?_eq hw.isInteger).1
          (hfin k w hw.getElem?_eq hw.isInteger).2
    rw [branchingVariable]
    constructor
    · intro hj
      obtain ⟨f, hf, rfl⟩ := Option.map_eq_some_iff.1 hj
      rw [hf] at hchosen
      exact ⟨f.value, hchosen⟩
    · rintro ⟨v, hv⟩
      cases hf : branching p epsilon values with
      | none =>
        rw [hf] at hchosen
        exact absurd hv.toEligible (hchosen j v)
      | some f =>
        rw [hf] at hchosen
        exact congrArg some (hchosen.unique hv)
  · rw [branchingVariable, branching_congr h, branchingVariable]

/-- Four variables, of which the second need not be an integer. -/
def oneFree : Problem Double where
  objective := [1.0, 1.0, 1.0, 1.0]
  rows := [⟨[1.0, 1.0, 1.0, 1.0], 2.0⟩]
  integer := [true, false, true, true]
  objective_ne_nil := List.cons_ne_nil _ _
  rows_ne_nil := List.cons_ne_nil _ _
  length_coefficients := List.forall_mem_singleton.2 rfl
  length_integer := by decide

/-- A quarter and three quarters are as close to a half, and the first of them is
chosen. The second value is no number and the last one, which is a half, belongs to
no variable: both may as well be others, or not be there. -/
theorem branchingVariable_choice_oneFree :
    branchingVariable oneFree 0.125 [1.0, .nan, 0.25, 0.75, 0.5] = some 2 ∧
      IsChoice oneFree 0.125 [1.0, .nan, 0.25, 0.75, 0.5] 2 0.25 ∧
      branchingVariable oneFree 0.125 [1.0, 0.5, 0.25, 0.75] = some 2 ∧
      ∃ down up, oneFree.stored.split .checked 0.125 [1.0, .nan, 0.25, 0.75, 0.5] =
        .ok (some (down, up)) := by
  obtain ⟨-, hsplit, -, hchoice, hcongr⟩ :=
    branchingVariable_choice oneFree 0.125 [1.0, .nan, 0.25, 0.75, 0.5]
  have hfin : ∀ (j : ℕ) (v : Double), [1.0, .nan, 0.25, 0.75, 0.5][j]? = some v →
      oneFree.isInteger j = true → v.isNaN = false ∧ v.isInfinite = false := by
    intro j v hv hj
    have hlt : j < 4 := Problem.lt_of_isInteger hj
    interval_cases j <;> cases hv
    · decide +kernel
    · cases hj
    · decide +kernel
    · decide +kernel
  have hsame : ∀ j, oneFree.isInteger j = true →
      ([1.0, 0.5, 0.25, 0.75] : List Double)[j]? = [1.0, .nan, 0.25, 0.75, 0.5][j]? := by
    intro j hj
    have hlt : j < 4 := Problem.lt_of_isInteger hj
    interval_cases j
    · rfl
    · cases hj
    · rfl
    · rfl
  have htwo : branchingVariable oneFree 0.125 [1.0, .nan, 0.25, 0.75, 0.5] = some 2 := by
    decide +kernel
  obtain ⟨v, hv⟩ := (hchoice hfin 2).1 htwo
  cases hv.getElem?_eq
  obtain ⟨f, hf, -⟩ := Option.map_eq_some_iff.1 htwo
  have hroom : oneFree.HasRoom := show 2 * 4 ≤ Storage.capacity by decide
  refine ⟨htwo, hv, (hcongr _ hsame).trans htwo, ?_⟩
  rw [hsplit hroom .checked, hf]
  exact ⟨_, _, rfl⟩

end Doubles

end Search

end Milp
