import Mathlib.Data.Set.Card
import Milp.Proofs.Number.Addition
import Milp.Proofs.Problem.Rows
/-!
# Rows and bounds, one after the other

A `Cut` is what can be added to a problem: a row, or a bound on a variable.
However many cuts are added, and in whichever order, the points that are
accepted are those that the problem accepted and that satisfy the row of each
cut (`exists_withCuts_tightens`). A cut whose coefficients are there already only
lowers a right-hand side. That this cuts off the same points as a row of its
own does rests on addition, which keeps the order of what the tolerance is
added to.
-/

namespace Milp

variable {α : Type} [Scalar α]

/-! ## The lesser of two bounds -/

namespace Double

variable {x y z t : Double}

/-- A tolerance is finite when it is a number and not infinite. -/
theorem magnitude_lt_iff :
    x.magnitude.toNat < infinityBits.toNat ↔ x.isNaN = false ∧ x.isInfinite = false := by
  rw [isNaN_eq_false_iff, isInfinite, beq_eq_false_iff_ne, Ne, ← UInt64.toNat_inj]
  omega

theorem lesser_eq_or (x y : Double) : Scalar.lesser x y = x ∨ Scalar.lesser x y = y := by
  show x.lesser y = x ∨ x.lesser y = y
  unfold lesser
  split
  · exact .inl rfl
  · split
    · exact .inl rfl
    · exact .inr rfl

/-- **Below the lesser of two numbers** is below both, also after something
that keeps the order. -/
theorem le_map_lesser_iff {f : Double → Double} (hf : ∀ {a b}, a ≤ b → f a ≤ f b)
    (hx : Scalar.IsNumber x) (hy : Scalar.IsNumber y) :
    z ≤ f (Scalar.lesser x y) ↔ z ≤ f x ∧ z ≤ f y := by
  obtain ⟨hlex, hley⟩ := Scalar.Rounding.lesser_le hx hy
  refine ⟨fun h => ⟨Scalar.Ordered.le_trans h (hf hlex), Scalar.Ordered.le_trans h (hf hley)⟩,
    fun h => ?_⟩
  rcases lesser_eq_or x y with heq | heq
  · rw [heq]
    exact h.1
  · rw [heq]
    exact h.2

theorem le_lesser_iff (hx : Scalar.IsNumber x) (hy : Scalar.IsNumber y) :
    z ≤ Scalar.lesser x y ↔ z ≤ x ∧ z ≤ y :=
  le_map_lesser_iff (f := id) id hx hy

/-- The lesser of three numbers, numerically. -/
theorem lesser_assoc (hx : Scalar.IsNumber x) (hy : Scalar.IsNumber y) (hz : Scalar.IsNumber z) :
    (Scalar.lesser (Scalar.lesser x y) z == Scalar.lesser x (Scalar.lesser y z)) = true := by
  have hnumxy := Scalar.Ordered.isNumber_left (Scalar.Rounding.lesser_le hx hy).1
  have hnumyz := Scalar.Ordered.isNumber_left (Scalar.Rounding.lesser_le hy hz).1
  have hiff : ∀ w, w ≤ Scalar.lesser (Scalar.lesser x y) z ↔
      w ≤ Scalar.lesser x (Scalar.lesser y z) := by
    intro w
    rw [le_lesser_iff hnumxy hz, le_lesser_iff hx hy, le_lesser_iff hx hnumyz, le_lesser_iff hy hz,
      and_assoc]
  have hleft := Scalar.Ordered.isNumber_left (Scalar.Rounding.lesser_le hnumxy hz).1
  have hright := Scalar.Ordered.isNumber_left (Scalar.Rounding.lesser_le hx hnumyz).1
  exact Scalar.Ordered.beq_of_le_of_le ((hiff _).1 hleft) ((hiff _).2 hright)

end Double

namespace Row

theorem admits_iff {r : Row α} {x : List α} {t : α} :
    r.admits x t = true ↔ r.lhs x ≤ r.rhs + t :=
  decide_eq_true_iff

variable {rows : List (Row Double)} {c x : List Double} {b b' t : Double}

/-- **An added row is satisfied beside the others**, whether it is appended or
sharpens one of them. -/
theorem all_admits_addTo (hrows : ∀ r ∈ rows, Scalar.IsNumber r.rhs) (hb : Scalar.IsNumber b)
    (ht : t.magnitude.toNat < Double.infinityBits.toNat) :
    (addTo rows c b).all (·.admits x t) = true ↔
      rows.all (·.admits x t) = true ∧ (⟨c, b⟩ : Row Double).admits x t = true := by
  induction rows with
  | nil => simp [addTo]
  | cons r rows ih =>
    obtain ⟨hr, hrows⟩ := List.forall_mem_cons.1 hrows
    rw [addTo]
    split
    · -- the row is there already, and a sum with the lesser bound is the lesser sum
      rename_i hsame
      have hcoef : r.coefficients = c := (Scalar.sameList_iff _ _).1 hsame
      have hlesser : ({ r with rhs := Scalar.lesser r.rhs b } : Row Double).admits x t = true ↔
          r.admits x t = true ∧ (⟨c, b⟩ : Row Double).admits x t = true := by
        simp only [admits_iff, lhs, hcoef]
        exact Double.le_map_lesser_iff (f := (· + t))
          (fun h => Double.add_le_add_of_finite h ht) hr hb
      simp only [List.all_cons, Bool.and_eq_true, hlesser]
      exact and_right_comm
    · simp only [List.all_cons, Bool.and_eq_true, ih hrows, and_assoc]

/-- **Adding a row twice** is adding it with the lesser of the two bounds, up
to the sign of a zero. -/
theorem addTo_addTo (hrows : ∀ r ∈ rows, Scalar.IsNumber r.rhs) (hb : Scalar.IsNumber b)
    (hb' : Scalar.IsNumber b') :
    List.Forall₂ (fun r s => r.coefficients = s.coefficients ∧ (r.rhs == s.rhs) = true)
      (addTo (addTo rows c b) c b') (addTo rows c (Scalar.lesser b b')) := by
  have hself : ∀ {v : Double}, Scalar.IsNumber v → (v == v) = true :=
    fun h => Scalar.Ordered.beq_of_le_of_le h h
  have hsame : Scalar.sameList c c = true := (Scalar.sameList_iff _ _).2 rfl
  induction rows with
  | nil =>
    have hnum := Scalar.Ordered.isNumber_left (Scalar.Rounding.lesser_le hb hb').1
    simp only [addTo, hsame, if_true]
    exact .cons ⟨rfl, hself hnum⟩ .nil
  | cons r rows ih =>
    obtain ⟨hr, hrows⟩ := List.forall_mem_cons.1 hrows
    simp only [addTo]
    split
    · rename_i hthere
      simp only [addTo, if_pos hthere]
      refine .cons ⟨rfl, Double.lesser_assoc hr hb hb'⟩ ?_
      exact List.forall₂_same.2 fun s hs => ⟨rfl, hself (hrows s hs)⟩
    · rename_i hother
      simp only [addTo, if_neg hother]
      exact .cons ⟨rfl, hself hr⟩ (ih hrows)

end Row

namespace Problem

/-! ## Cuts -/

/-- **What can be added to a problem.** -/
inductive Cut (α : Type) where
  /-- A row. -/
  | row (coefficients : List α) (rhs : α)
  /-- An upper bound on a variable. -/
  | atMost (j : ℕ) (value : α)
  /-- A lower bound on a variable. -/
  | atLeast (j : ℕ) (value : α)

/-- The row that a cut adds to a problem with `n` variables. -/
def Cut.toRow (n : ℕ) : Cut α → Row α
  | row coefficients rhs => ⟨coefficients, rhs⟩
  | atMost j value => ⟨Scalar.unitList n j 1, value⟩
  | atLeast j value => ⟨Scalar.unitList n j (-1), -value⟩

omit [Scalar α] in
/-- A cut fits when it has a coefficient for each of `n` variables, or is
about one of them. -/
def Cut.Fits (n : ℕ) : Cut α → Prop
  | row coefficients _ => coefficients.length = n
  | atMost j _ => j < n
  | atLeast j _ => j < n

instance (n : ℕ) : (c : Cut α) → Decidable (c.Fits n)
  | .row coefficients _ => inferInstanceAs (Decidable (coefficients.length = n))
  | .atMost j _ => inferInstanceAs (Decidable (j < n))
  | .atLeast j _ => inferInstanceAs (Decidable (j < n))

/-- The problem with a cut. -/
def withCut (p : Problem α) : Cut α → Except Refusal (Problem α)
  | .row coefficients rhs => p.withRow coefficients rhs
  | .atMost j value => p.withUpperBound j value
  | .atLeast j value => p.withLowerBound j value

/-- The problem with several cuts, one after the other. -/
def withCuts (p : Problem α) (cuts : List (Cut α)) : Except Refusal (Problem α) :=
  cuts.foldlM withCut p

theorem withCuts_cons (p : Problem α) (c : Cut α) (cuts : List (Cut α)) :
    p.withCuts (c :: cuts) = p.withCut c >>= (·.withCuts cuts) :=
  List.foldlM_cons

/-- **A cut that fits adds its row.** -/
theorem exists_withCut (p : Problem α) {c : Cut α} (h : c.Fits p.numVariables) :
    ∃ hlen, p.withCut c =
      .ok (p.addRow (c.toRow p.numVariables).coefficients (c.toRow p.numVariables).rhs hlen) := by
  cases c with
  | row coefficients rhs => exact ⟨h, dif_pos h⟩
  | atMost j value => exact ⟨Scalar.length_unitList _ _ _, if_pos h⟩
  | atLeast j value => exact ⟨Scalar.length_unitList _ _ _, if_pos h⟩

/-- The coefficients that cuts add: theirs, unless the problem has them. -/
def newRows (p : Problem α) (cuts : List (Cut α)) : Set (List α) :=
  {e | e ∉ p.coefficients ∧ ∃ c ∈ cuts, (c.toRow p.numVariables).coefficients = e}

theorem mem_newRows {p : Problem α} {cuts : List (Cut α)} {e : List α} : e ∈ p.newRows cuts ↔
    e ∉ p.coefficients ∧ ∃ c ∈ cuts, (c.toRow p.numVariables).coefficients = e :=
  Iff.rfl

/-- **The coefficients after a cut**: those before it, with those of the cut at
the end if they were not there. -/
theorem exists_added_of_cons {p : Problem α} {c : Cut α} {cuts : List (Cut α)} (b : α)
    (hlen : (c.toRow p.numVariables).coefficients.length = p.numVariables) {added : List (List α)}
    (hnodup : added.Nodup)
    (hmem : ∀ e, e ∈ added ↔ e ∈ (p.addRow _ b hlen).newRows cuts) :
    ∃ added', (p.addRow _ b hlen).coefficients ++ added = p.coefficients ++ added' ∧
      added'.Nodup ∧ ∀ e, e ∈ added' ↔ e ∈ p.newRows (c :: cuts) := by
  rcases p.addRow_cases b hlen with ⟨hnew, hrows⟩ | ⟨hsame, i, -, hthere, -⟩
  · have hcoef : (p.addRow _ b hlen).coefficients =
        p.coefficients ++ [(c.toRow p.numVariables).coefficients] := by
      rw [coefficients, hrows, List.map_append]
      rfl
    have hmem' : ∀ e, e ∈ added ↔
        (e ∉ p.coefficients ∧ e ≠ (c.toRow p.numVariables).coefficients) ∧
          ∃ c ∈ cuts, (c.toRow p.numVariables).coefficients = e := by
      intro e
      rw [hmem, mem_newRows, hcoef, List.mem_append, List.mem_singleton, not_or]
      rfl
    refine ⟨(c.toRow p.numVariables).coefficients :: added, ?_, ?_, fun e => ?_⟩
    · rw [hcoef, List.append_assoc, List.singleton_append]
    · exact List.nodup_cons.2 ⟨fun h => ((hmem' _).1 h).1.2 rfl, hnodup⟩
    · rw [List.mem_cons, hmem', mem_newRows, List.exists_mem_cons_iff]
      by_cases he : e = (c.toRow p.numVariables).coefficients
      · exact iff_of_true (.inl he) ⟨he ▸ hnew, .inl he.symm⟩
      · simp only [he, Ne.symm he, false_or, ne_eq, not_false_eq_true, and_true]
  · refine ⟨added, by rw [hsame], hnodup, fun e => (hmem e).trans ?_⟩
    rw [mem_newRows, mem_newRows, hsame, List.exists_mem_cons_iff]
    -- the coefficients of the cut are not new
    refine and_congr_right fun he => (or_iff_right fun heq => he ?_).symm
    exact heq ▸ List.mem_of_getElem? hthere

variable {p q : Problem Double} {c : Cut Double} {cuts : List (Cut Double)}

/-- **The points that are accepted with a row more.** -/
theorem isFeasible_addRow {e x : List Double} {b t : Double} (hp : p.HasNumbers)
    (h : e.length = p.numVariables) (hb : Scalar.IsNumber b) (ht : t.isNaN = false)
    (ht' : t.isInfinite = false) : (p.addRow e b h).isFeasible x t = true ↔
      p.isFeasible x t = true ∧ (⟨e, b⟩ : Row Double).lhs x ≤ b + t := by
  have hrows : ∀ r ∈ p.rows, Scalar.IsNumber r.rhs := fun r hr => hp _ (List.mem_map_of_mem hr)
  have hadd := Row.all_admits_addTo (c := e) (x := x) hrows hb (Double.magnitude_lt_iff.2 ⟨ht, ht'⟩)
  rw [isFeasible, isFeasible, Bool.and_eq_true, Bool.and_eq_true _ (p.rows.all _), and_assoc,
    ← Row.admits_iff (r := ⟨e, b⟩)]
  exact and_congr_right fun _ => hadd

/-- **A problem with cuts**: the same objective and integer variables, its own
rows where they were and the new ones after them, each of them once, and the
points that satisfy the row of every cut as well. -/
structure Tightens (p : Problem Double) (cuts : List (Cut Double)) (q : Problem Double) :
    Prop where
  /-- The objective is the same. -/
  objective_eq : q.objective = p.objective
  /-- So are the integer variables. -/
  integer_eq : q.integer = p.integer
  /-- The new rows come last. -/
  coefficients_eq : ∃ added, q.coefficients = p.coefficients ++ added ∧ added.Nodup ∧
    ∀ e, e ∈ added ↔ e ∈ p.newRows cuts
  /-- The points that are accepted. -/
  isFeasible_iff : ∀ x t, t.isNaN = false → t.isInfinite = false →
    (q.isFeasible x t = true ↔ p.isFeasible x t = true ∧
      ∀ c ∈ cuts, (c.toRow p.numVariables).lhs x ≤ (c.toRow p.numVariables).rhs + t)

theorem Tightens.refl (p : Problem Double) : p.Tightens [] p where
  objective_eq := rfl
  integer_eq := rfl
  coefficients_eq := ⟨[], (List.append_nil _).symm, List.nodup_nil, by simp [newRows]⟩
  isFeasible_iff _ _ _ _ := by simp

/-- **One cut more**, before the others. -/
theorem Tightens.cons (hp : p.HasNumbers)
    (hlen : (c.toRow p.numVariables).coefficients.length = p.numVariables)
    (hnum : Scalar.IsNumber (c.toRow p.numVariables).rhs)
    (h : (p.addRow (c.toRow p.numVariables).coefficients (c.toRow p.numVariables).rhs
      hlen).Tightens cuts q) : p.Tightens (c :: cuts) q where
  objective_eq := h.objective_eq
  integer_eq := h.integer_eq
  coefficients_eq := by
    obtain ⟨added, heq, hnodup, hmem⟩ := h.coefficients_eq
    rw [heq]
    exact exists_added_of_cons _ hlen hnodup hmem
  isFeasible_iff x t ht ht' := by
    rw [h.isFeasible_iff x t ht ht', isFeasible_addRow hp hlen hnum ht ht', List.forall_mem_cons,
      and_assoc]
    rfl

/-- **Cuts that fit can be added** one after the other. -/
theorem exists_withCuts (cuts : List (Cut Double)) : ∀ {p : Problem Double}, p.HasNumbers →
    (∀ c ∈ cuts, c.Fits p.numVariables) →
    (∀ c ∈ cuts, Scalar.IsNumber (c.toRow p.numVariables).rhs) →
    ∃ q, p.withCuts cuts = .ok q ∧ p.Tightens cuts q := by
  induction cuts with
  | nil => exact fun {p} _ _ _ => ⟨p, rfl, Tightens.refl p⟩
  | cons c cuts ih =>
    intro p hp hfits hnum
    obtain ⟨hfitsc, hfits⟩ := List.forall_mem_cons.1 hfits
    obtain ⟨hnumc, hnum⟩ := List.forall_mem_cons.1 hnum
    obtain ⟨hlen, heq⟩ := exists_withCut p hfitsc
    obtain ⟨q, hq, htightens⟩ := ih (hasNumbers_addRow hp hlen hnumc) hfits hnum
    refine ⟨q, ?_, htightens.cons hp hlen hnumc⟩
    rw [withCuts_cons, heq]
    exact hq

/-- The number of rows grows by the new ones. -/
theorem Tightens.numRows_eq (h : p.Tightens cuts q) :
    q.numRows = p.numRows + (p.newRows cuts).ncard := by
  obtain ⟨added, heq, hnodup, hmem⟩ := h.coefficients_eq
  have hlen := congrArg List.length heq
  rw [coefficients, coefficients, List.length_append, List.length_map, List.length_map] at hlen
  classical
  have hset : p.newRows cuts = (added.toFinset : Set (List Double)) :=
    Set.ext fun e => (hmem e).symm.trans (by rw [Finset.mem_coe, List.mem_toFinset])
  rw [numRows, numRows, hlen, hset, Set.ncard_coe_finset, List.toFinset_card_of_nodup hnodup]

/-- **A row that is added twice** sharpens once more what was added first. -/
theorem exists_withRow_withRow {a : List Double} {b b' : Double} (hp : p.HasNumbers)
    (ha : a.length = p.numVariables) (hb : Scalar.IsNumber b) (hb' : Scalar.IsNumber b') :
    ∃ q₁ q₂, (p.withRow a b >>= (·.withRow a b')) = .ok q₁ ∧
      p.withRow a (Scalar.lesser b b') = .ok q₂ ∧ q₁.coefficients = q₂.coefficients ∧
      List.Forall₂ (fun v w => (v == w) = true) q₁.rhs q₂.rhs := by
  have hrows : ∀ r ∈ p.rows, Scalar.IsNumber r.rhs := fun r hr => hp _ (List.mem_map_of_mem hr)
  have htwice := Row.addTo_addTo (c := a) hrows hb hb'
  refine ⟨(p.addRow a b ha).addRow a b' ha, p.addRow a (Scalar.lesser b b') ha, ?_, dif_pos ha,
    ?_, ?_⟩
  · rw [withRow, dif_pos ha]
    exact dif_pos ha
  · rw [coefficients, coefficients, ← List.forall₂_eq_eq_eq, List.forall₂_map_left_iff,
      List.forall₂_map_right_iff]
    exact htwice.imp fun _ _ h => h.1
  · rw [rhs, rhs, List.forall₂_map_left_iff, List.forall₂_map_right_iff]
    exact htwice.imp fun _ _ h => h.2

/-- **Adding cuts, one after the other, in any order.** -/
theorem exists_withCuts_tightens (hp : p.HasNumbers) (hfits : ∀ c ∈ cuts, c.Fits p.numVariables)
    (hnum : ∀ c ∈ cuts, Scalar.IsNumber (c.toRow p.numVariables).rhs) :
    ∃ q, p.withCuts cuts = .ok q ∧ q.objective = p.objective ∧ q.integer = p.integer ∧
      -- the points that are accepted
      (∀ x t, t.isNaN = false → t.isInfinite = false →
        (q.isFeasible x t = true ↔ p.isFeasible x t = true ∧
          ∀ c ∈ cuts, (c.toRow p.numVariables).lhs x ≤ (c.toRow p.numVariables).rhs + t)) ∧
      -- are the same in every order
      (∀ cuts', cuts'.Perm cuts → ∃ q', p.withCuts cuts' = .ok q' ∧
        ∀ x t, t.isNaN = false → t.isInfinite = false →
          q'.isFeasible x t = q.isFeasible x t) ∧
      -- the rows stay where they were, and there is one more for each new list of coefficients
      (∃ added, q.coefficients = p.coefficients ++ added ∧ added.Nodup ∧
        ∀ e, e ∈ added ↔
          e ∉ p.coefficients ∧ ∃ c ∈ cuts, (c.toRow p.numVariables).coefficients = e) ∧
      q.numRows = p.numRows + (p.newRows cuts).ncard ∧
      -- and the same row twice is the row with the lesser bound
      ∀ a b b', a.length = p.numVariables → Scalar.IsNumber b → Scalar.IsNumber b' →
        ∃ q₁ q₂, (p.withRow a b >>= (·.withRow a b')) = .ok q₁ ∧
          p.withRow a (Scalar.lesser b b') = .ok q₂ ∧ q₁.coefficients = q₂.coefficients ∧
          List.Forall₂ (fun v w => (v == w) = true) q₁.rhs q₂.rhs := by
  obtain ⟨q, hq, h⟩ := exists_withCuts cuts hp hfits hnum
  refine ⟨q, hq, h.objective_eq, h.integer_eq, h.isFeasible_iff, ?_, h.coefficients_eq,
    h.numRows_eq, ?_⟩
  · intro cuts' hperm
    obtain ⟨q', hq', h'⟩ := exists_withCuts cuts' hp (fun c hc => hfits c (hperm.mem_iff.1 hc))
      fun c hc => hnum c (hperm.mem_iff.1 hc)
    refine ⟨q', hq', fun x t ht ht' => Bool.eq_iff_iff.2 ?_⟩
    rw [h'.isFeasible_iff x t ht ht', h.isFeasible_iff x t ht ht']
    simp only [hperm.mem_iff]
  · intro a b b' ha hb hb'
    exact exists_withRow_withRow hp ha hb hb'

/-- A problem with two rows alike and one that differs from a bound in the sign
of a zero, and no bound on the second variable. -/
def rowsAlike : Problem Double where
  objective := [1, -1]
  rows := [⟨[1, 0], Double.infinity⟩, ⟨[1, 0], 1⟩, ⟨[-0, 1], Double.infinity⟩]
  integer := [true, false]
  objective_ne_nil := List.cons_ne_nil _ _
  rows_ne_nil := List.cons_ne_nil _ _
  length_coefficients := by
    simp only [List.forall_mem_cons, List.length_cons, List.length_nil, true_and]
    exact nofun
  length_integer := rfl

/-- Three cuts: the first lowers a right-hand side, and the others are new. -/
theorem exists_withCuts_tightens_rowsAlike :
    rowsAlike.HasNumbers ∧
      ∃ q, rowsAlike.withCuts [.row [1, 0] 0, .atMost 1 1, .atLeast 1 (-0)] = .ok q ∧
        q.isFeasible [0, 1] 0 = true ∧ q.isFeasible [1, 1] 0 = false ∧
        ∃ q', rowsAlike.withCuts [.atLeast 1 (-0), .row [1, 0] 0, .atMost 1 1] = .ok q' ∧
          q'.isFeasible [1, 1] 0 = false := by
  have hp : rowsAlike.HasNumbers := by decide +kernel
  have hfits : ∀ c ∈ [Cut.row [1, 0] (0 : Double), .atMost 1 1, .atLeast 1 (-0)],
      c.Fits rowsAlike.numVariables := by decide +kernel
  have hperm : [Cut.atLeast 1 (-0), .row [1, 0] (0 : Double), .atMost 1 1].Perm
      [.row [1, 0] 0, .atMost 1 1, .atLeast 1 (-0)] :=
    @List.perm_append_comm _ [_] [_, _]
  obtain ⟨q, hq, -, -, hpoints, horder, -⟩ := exists_withCuts_tightens hp hfits (by decide +kernel)
  obtain ⟨q', hq', hsame⟩ := horder _ hperm
  have hout : q.isFeasible [1, 1] 0 = false := by
    rw [Bool.eq_false_iff, Ne, hpoints _ _ (by decide) (by decide)]
    decide +kernel
  refine ⟨hp, q, hq, ?_, hout, q', hq', (hsame _ _ (by decide) (by decide)).trans hout⟩
  rw [hpoints _ _ (by decide) (by decide)]
  decide +kernel

end Problem

end Milp
