import Mathlib.Tactic.Common
import Milp.Search.Branching
/-!
# The variable to branch on

Branching takes a variable whose value is fractional (`branching_eq_some`),
and takes none exactly where the values are integral up to the tolerance
(`branching_eq_none_iff`).
-/

namespace Milp

namespace Search

variable {α : Type} [Scalar α] {p q : Problem α} {epsilon : α}

/-- What is kept of the variable so far and a fractional one after it. -/
def closer (best : Option (Fractional α)) (f : Fractional α) : Fractional α :=
  match best with
  | none => f
  | some b => if distanceToHalf f.value < distanceToHalf b.value then f else b

theorem closer_cases (best : Option (Fractional α)) (f : Fractional α) :
    closer best f = f ∨ best = some (closer best f) := by
  cases best with
  | none => exact .inl rfl
  | some b =>
    rw [closer]
    split
    · exact .inl rfl
    · exact .inr rfl

theorem mostFractional_cons (j : ℕ) (best : Option (Fractional α)) (v : α) (rest : List α) :
    mostFractional p epsilon j best (v :: rest) = mostFractional p epsilon (j + 1)
      (if isFractional p epsilon j v then some (closer best ⟨j, v⟩) else best) rest := by
  cases best <;> rw [mostFractional] <;> split <;> rfl

/-- What is taken was taken before or is a fractional value further on. -/
theorem mostFractional_eq_some {values : List α} {j : ℕ} {best : Option (Fractional α)}
    {f : Fractional α} (h : mostFractional p epsilon j best values = some f) :
    best = some f ∨ ∃ k, values[k]? = some f.value ∧ f.index = j + k ∧
      isFractional p epsilon f.index f.value = true := by
  induction values generalizing j best with
  | nil => exact .inl h
  | cons v rest ih =>
    rw [mostFractional_cons] at h
    rcases ih h with hbest | ⟨k, hk, hidx, hfrac⟩
    · split at hbest
      · rename_i hfrac
        rcases closer_cases best ⟨j, v⟩ with hv | hb
        · cases hv.symm.trans (Option.some.inj hbest)
          exact .inr ⟨0, rfl, rfl, hfrac⟩
        · exact .inl (hb.trans hbest)
      · exact .inl hbest
    · exact .inr ⟨k + 1, hk, by omega, hfrac⟩

/-- Where nothing is taken no value is fractional. -/
theorem mostFractional_eq_none {values : List α} {j : ℕ} {best : Option (Fractional α)}
    (h : mostFractional p epsilon j best values = none) :
    best = none ∧ ∀ k v, values[k]? = some v → isFractional p epsilon (j + k) v = false := by
  induction values generalizing j best with
  | nil => exact ⟨h, fun k v hv => by simp at hv⟩
  | cons v rest ih =>
    rw [mostFractional_cons] at h
    obtain ⟨hbest, hrest⟩ := ih h
    split at hbest
    · cases hbest
    · rename_i hfrac
      refine ⟨hbest, fun k w hw => ?_⟩
      cases k with
      | zero =>
        cases hw
        exact Bool.not_eq_true _ ▸ hfrac
      | succ k =>
        have hk := hrest k w hw
        rwa [Nat.add_right_comm, Nat.add_assoc] at hk

/-- **The variable to branch on** has to be an integer, and its value is
none. -/
theorem branching_eq_some {values : List α} {f : Fractional α}
    (h : branching p epsilon values = some f) :
    values[f.index]? = some f.value ∧ p.isInteger f.index = true ∧
      isIntegral epsilon f.value = false := by
  rcases mostFractional_eq_some h with hbest | ⟨k, hk, hidx, hfrac⟩
  · cases hbest
  · rw [Nat.zero_add] at hidx
    rw [isFractional, Bool.and_eq_true, Bool.not_eq_true'] at hfrac
    exact ⟨hidx ▸ hk, hfrac⟩

/-- **Without one**, every variable that has to be an integer is one. -/
theorem branching_eq_none {values : List α} (h : branching p epsilon values = none) {j : ℕ}
    {v : α} (hv : values[j]? = some v) (hj : p.isInteger j = true) :
    isIntegral epsilon v = true := by
  have hfrac := (mostFractional_eq_none h).2 j v hv
  rw [Nat.zero_add, isFractional, hj, Bool.true_and, Bool.not_eq_false'] at hfrac
  exact hfrac

/-! ## Integral values -/

/-- The values that there are of variables that have to be integers are
integers, up to a tolerance. -/
def IntegralUpTo (p : Problem α) (epsilon : α) (values : List α) : Prop :=
  ∀ j v, values[j]? = some v → p.isInteger j = true → Scalar.abs (v - Scalar.round v) ≤ epsilon

/-- **There is nothing to branch on** exactly when the values are integral. -/
theorem branching_eq_none_iff {values : List α} :
    branching p epsilon values = none ↔ IntegralUpTo p epsilon values := by
  constructor
  · intro hnone j v hv hj
    exact of_decide_eq_true (branching_eq_none hnone hv hj)
  · intro hint
    cases hb : branching p epsilon values with
    | none => rfl
    | some f =>
      obtain ⟨hv, hj, hfrac⟩ := branching_eq_some hb
      have hle : isIntegral epsilon f.value = true := decide_eq_true (hint _ _ hv hj)
      rw [hfrac] at hle
      cases hle

/-- Only the flags of a problem matter for that. -/
theorem integralUpTo_congr (h : q.integer = p.integer) {values : List α} :
    IntegralUpTo q epsilon values ↔ IntegralUpTo p epsilon values := by
  unfold IntegralUpTo Problem.isInteger
  rw [h]

end Search

end Milp
