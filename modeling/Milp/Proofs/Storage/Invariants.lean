import Milp.Storage.Documents
import Milp.Proofs.Storage.Problems
/-!
# What every sequence of operations keeps

A stored matrix is `Obtained` when operations on stored matrices make it, in any
order, and so is a stored problem. Each of them holds a matrix or a problem
(`Store.Obtained.exists_matrix`, `StoredProblem.Obtained.exists_problem`), because
every single operation keeps that. So the sizes always fit the entries, and
reading, changing and bounding never end with a fault (`Storage.operations_sound`).
-/

namespace Milp

open Storage

/-! ## Documents -/

section Documents

open Json

variable {b : Build}

/-- What is expected of data that was read. -/
def Storage.expected {γ : Type} (made : Except Refusal γ) (rest : List Token) :
    Except ReadError γ :=
  match made, rest with
  | .error r, _ => .error (.unfit (.refused r))
  | .ok v, [] => .ok v
  | .ok _, _ :: _ => .error .malformed

theorem Storage.follows_checkRead {γ β : Type} {keep : γ → β} {small : γ → Prop}
    {r : Run (Except Refusal β)} {e : Except Refusal γ} (h : Follows keep small r e)
    (rest : List Token) : Follows keep small (checkRead r rest) (expected e rest) := by
  rcases h with ⟨f, rfl⟩ | ⟨rfl, hsmall⟩
  · exact .fault
  · cases e with
    | error x => exact .refused
    | ok v =>
      cases rest with
      | nil => exact .kept (hsmall v rfl)
      | cons t ts => exact .refused

/-- A text whose value is checked once it has ended. -/
theorem Storage.whole_accepted {β γ : Type} (reader : Reader β) (make : β → Except Refusal γ)
    (text : String) : whole (fun ts => do
      let (v, rest) ← reader ts
      .ok (← accepted (make v), rest)) text =
    match reader (tokens text.toList) with
    | .error e => .error e
    | .ok (v, rest) => expected (make v) rest := by
  rw [whole]
  cases reader (tokens text.toList) with
  | error e => rfl
  | ok r =>
    obtain ⟨v, rest⟩ := r
    cases hmake : make v <;> cases rest <;>
      simp [bind, Except.bind, hmake, accepted, Except.mapError, expected]

/-- **A text is kept as the matrix that it holds.** -/
theorem Store.follows_ofJson (text : String) :
    Follows Matrix.store Matrix.Fits (Store.ofJson b text) (Matrix.ofJson text) := by
  have hread := Storage.whole_accepted (Json.list (Json.list double)) Matrix.ofRows text
  rw [show Matrix.ofJson text = _ from hread, Store.ofJson]
  cases Json.list (Json.list double) (tokens text.toList) with
  | error e => exact .refused
  | ok r => exact Storage.follows_checkRead (Matrix.follows_ofRows r.1) r.2

/-- **A text is kept as the problem that it holds.** -/
theorem StoredProblem.follows_ofJson (text : String) :
    Follows Problem.stored Problem.Fits (StoredProblem.ofJson b text) (Problem.ofJson text) := by
  have hread := Storage.whole_accepted Draft.reader Problem.ofDraft text
  rw [show Problem.ofJson text = _ from hread, StoredProblem.ofJson]
  cases Draft.reader (tokens text.toList) with
  | error e => exact .refused
  | ok r => exact Storage.follows_checkRead (Problem.follows_ofDraft r.1) r.2

/-- **The values of a solution** are kept as a matrix. -/
theorem Store.exists_of_ofSolution {x : Solution Double} {s : Store Double}
    (h : Store.ofSolution x = .ok (some s)) : ∃ m : Matrix Double, m.Fits ∧ s = m.store := by
  have hfollows := Matrix.follows_ofVector x.values
  rw [Store.ofSolution] at h
  cases hmade : Store.ofVector x.values with
  | error f =>
    rw [hmade] at h
    cases h
  | ok made =>
    rw [hmade, ok_bind] at h
    cases made with
    | error e => cases h
    | ok t =>
      cases h
      exact hfollows.exists_kept hmade

end Documents

/-! ## Sequences of operations -/

/-- **A stored matrix that operations make**, in any order. -/
inductive Store.Obtained (b : Build) : Store Double → Prop where
  | zeros {rows cols : ℕ} {s : Store Double} (h : Store.zeros rows cols = .ok (.ok s)) :
      Obtained b s
  | ofVector {values : List Double} {s : Store Double} (h : Store.ofVector values = .ok (.ok s)) :
      Obtained b s
  | ofRows {rows : List (List Double)} {s : Store Double} (h : Store.ofRows b rows = .ok (.ok s)) :
      Obtained b s
  | ofJson {text : String} {s : Store Double} (h : Store.ofJson b text = .ok (.ok s)) :
      Obtained b s
  | ofSolution {x : Solution Double} {s : Store Double} (h : Store.ofSolution x = .ok (some s)) :
      Obtained b s
  | set {s t : Store Double} {i j : ℕ} {v : Double} (hs : Obtained b s)
      (h : s.set b i j v = .ok (.ok t)) : Obtained b t
  | addRow {s t : Store Double} {values : List Double} (hs : Obtained b s)
      (h : s.addRow b values = .ok (.ok t)) : Obtained b t
  | addColumn {s t : Store Double} {values : List Double} (hs : Obtained b s)
      (h : s.addColumn b values = .ok (.ok t)) : Obtained b t
  | transpose {s t : Store Double} (hs : Obtained b s) (h : s.transpose = .ok t) : Obtained b t
  | plus {s t u : Store Double} (hs : Obtained b s) (ht : Obtained b t)
      (h : s.plus t = .ok (.ok u)) : Obtained b u
  | minus {s t u : Store Double} (hs : Obtained b s) (ht : Obtained b t)
      (h : s.minus t = .ok (.ok u)) : Obtained b u
  | timesEntrywise {s t u : Store Double} (hs : Obtained b s) (ht : Obtained b t)
      (h : s.timesEntrywise t = .ok (.ok u)) : Obtained b u
  | dot {s t u : Store Double} (hs : Obtained b s) (ht : Obtained b t)
      (h : s.dot b t = .ok (.ok u)) : Obtained b u
  | multiply {s t u : Store Double} (hs : Obtained b s) (ht : Obtained b t)
      (h : s.multiply b t = .ok (.ok u)) : Obtained b u

/-- **A stored problem that operations make**, in any order. -/
inductive StoredProblem.Obtained (b : Build) : StoredProblem Double → Prop where
  | new {o c r : Store Double} {p : StoredProblem Double} (ho : Store.Obtained b o)
      (hc : Store.Obtained b c) (hr : Store.Obtained b r)
      (h : StoredProblem.new o c r = .ok (.ok p)) : Obtained b p
  | ofDraft {d : Draft Double} {p : StoredProblem Double}
      (h : StoredProblem.ofDraft b d = .ok (.ok p)) : Obtained b p
  | ofJson {text : String} {p : StoredProblem Double}
      (h : StoredProblem.ofJson b text = .ok (.ok p)) : Obtained b p
  | restrictTo {p q : StoredProblem Double} {js : List ℕ} (hp : Obtained b p)
      (h : p.restrictTo b js = .ok (.ok q)) : Obtained b q
  | withConstraint {p q : StoredProblem Double} {values : List Double} {v : Double}
      (hp : Obtained b p) (h : p.withConstraint b values v = .ok (.ok q)) : Obtained b q
  | withUpperBound {p q : StoredProblem Double} {j : ℕ} {v : Double} (hp : Obtained b p)
      (h : p.withUpperBound b j v = .ok (.ok q)) : Obtained b q
  | withLowerBound {p q : StoredProblem Double} {j : ℕ} {v : Double} (hp : Obtained b p)
      (h : p.withLowerBound b j v = .ok (.ok q)) : Obtained b q

variable {b : Build}

/-- **Every stored matrix holds a matrix.** -/
theorem Store.Obtained.exists_matrix {s : Store Double} (h : Store.Obtained b s) :
    ∃ m : Matrix Double, m.Fits ∧ s = m.store := by
  induction h with
  | zeros h => exact (Matrix.follows_zeros _ _).exists_kept h
  | ofVector h => exact (Matrix.follows_ofVector _).exists_kept h
  | ofRows h => exact (Matrix.follows_ofRows _).exists_kept h
  | ofJson h => exact (Store.follows_ofJson _).exists_kept h
  | ofSolution h => exact Store.exists_of_ofSolution h
  | set _ h ih =>
    obtain ⟨m, hfits, rfl⟩ := ih
    exact (Matrix.follows_set hfits _ _ _).exists_kept h
  | addRow _ h ih =>
    obtain ⟨m, hfits, rfl⟩ := ih
    exact (Matrix.follows_addRow _).exists_kept h
  | addColumn _ h ih =>
    obtain ⟨m, hfits, rfl⟩ := ih
    exact (Matrix.follows_addColumn hfits _).exists_kept h
  | transpose _ h ih =>
    obtain ⟨m, hfits, rfl⟩ := ih
    rw [Matrix.transpose_store hfits] at h
    exact ⟨m.transpose, Matrix.fits_transpose hfits, (Except.ok.inj h).symm⟩
  | plus _ _ h ihs iht =>
    obtain ⟨m, -, rfl⟩ := ihs
    obtain ⟨n, -, rfl⟩ := iht
    exact (Matrix.follows_zipWith _ m n).exists_kept h
  | minus _ _ h ihs iht =>
    obtain ⟨m, -, rfl⟩ := ihs
    obtain ⟨n, -, rfl⟩ := iht
    exact (Matrix.follows_zipWith _ m n).exists_kept h
  | timesEntrywise _ _ h ihs iht =>
    obtain ⟨m, -, rfl⟩ := ihs
    obtain ⟨n, -, rfl⟩ := iht
    exact (Matrix.follows_zipWith _ m n).exists_kept h
  | dot _ _ h ihs iht =>
    obtain ⟨m, hm, rfl⟩ := ihs
    obtain ⟨n, hn, rfl⟩ := iht
    exact (Matrix.follows_dot hm hn).exists_kept h
  | multiply _ _ h ihs iht =>
    obtain ⟨m, hm, rfl⟩ := ihs
    obtain ⟨n, hn, rfl⟩ := iht
    exact (Matrix.follows_multiply hm hn).exists_kept h

/-- **Every stored problem holds a problem.** -/
theorem StoredProblem.Obtained.exists_problem {p : StoredProblem Double}
    (h : StoredProblem.Obtained b p) : ∃ q : Problem Double, q.Fits ∧ p = q.stored := by
  induction h with
  | new ho hc hr h =>
    obtain ⟨o, -, rfl⟩ := ho.exists_matrix
    obtain ⟨c, hfitsc, rfl⟩ := hc.exists_matrix
    obtain ⟨r, hfitsr, rfl⟩ := hr.exists_matrix
    exact (Problem.follows_new hfitsc hfitsr).exists_kept h
  | ofDraft h => exact (Problem.follows_ofDraft _).exists_kept h
  | ofJson h => exact (StoredProblem.follows_ofJson _).exists_kept h
  | restrictTo _ h ih =>
    obtain ⟨p, hfits, rfl⟩ := ih
    exact (Problem.follows_restrictTo hfits _).exists_kept h
  | withConstraint _ h ih =>
    obtain ⟨p, hfits, rfl⟩ := ih
    exact (Problem.follows_withConstraint hfits _ _).exists_kept h
  | withUpperBound _ h ih =>
    obtain ⟨p, hfits, rfl⟩ := ih
    exact (Problem.follows_bound hfits _ _ _).exists_kept h
  | withLowerBound _ h ih =>
    obtain ⟨p, hfits, rfl⟩ := ih
    exact (Problem.follows_bound hfits _ _ _).exists_kept h

/-! ## Shapes -/

/-- **The sizes of a stored matrix fit its entries.** -/
structure Store.Shaped {α : Type} (s : Store α) : Prop where
  /-- There is a row. -/
  rows_pos : 0 < s.rows
  /-- There is a column. -/
  cols_pos : 0 < s.cols
  /-- There is an entry for each row and column. -/
  length_data : s.data.length = s.rows * s.cols

/-- **The matrices of a stored problem fit together.** -/
structure StoredProblem.Shaped {α : Type} (p : StoredProblem α) : Prop where
  /-- The objective is a matrix. -/
  objective : p.objective.Shaped
  /-- So are the coefficients. -/
  constraints : p.constraints.Shaped
  /-- So are the right-hand sides. -/
  rhs : p.rhs.Shaped
  /-- The objective is one row. -/
  rows_objective : p.objective.rows = 1
  /-- The right-hand sides are one row. -/
  rows_rhs : p.rhs.rows = 1
  /-- There is a coefficient for each variable. -/
  cols_constraints : p.constraints.cols = p.objective.cols
  /-- There is a flag for each variable. -/
  length_integer : p.integer.length = p.objective.cols
  /-- There is a right-hand side for each constraint. -/
  cols_rhs : p.rhs.cols = p.constraints.rows

theorem Matrix.shaped_store {α : Type} (m : Matrix α) : m.store.Shaped :=
  ⟨m.height_pos, m.cols_pos, length_data_store m⟩

theorem Problem.shaped_stored {α : Type} (p : Problem α) : p.stored.Shaped where
  objective := p.objectiveMatrix.shaped_store
  constraints := p.coefficientMatrix.shaped_store
  rhs := p.rhsMatrix.shaped_store
  rows_objective := rfl
  rows_rhs := rfl
  cols_constraints := rfl
  length_integer := p.length_integer
  cols_rhs := p.height_coefficientMatrix.symm

/-! ## Operations without a fault -/

/-- **A run without a fault** that succeeds under a condition, and only then. -/
def Storage.SucceedsIff {β : Type} (r : Run (Except Refusal β)) (p : Prop) : Prop :=
  ∃ e, r = .ok e ∧ ((∃ v, e = .ok v) ↔ p)

theorem Storage.succeedsIff_of_eq {β : Type} {r : Run (Except Refusal β)} {e : Except Refusal β}
    {p : Prop} (h : r = .ok e) (hiff : (∃ v, e = .ok v) ↔ p) : SucceedsIff r p := ⟨e, h, hiff⟩

theorem Storage.exists_map_eq_ok_iff {γ β : Type} {e : Except Refusal γ} {keep : γ → β} :
    (∃ v, e.map keep = .ok v) ↔ ∃ v, e = .ok v := by
  cases e with
  | error x => exact iff_of_false nofun nofun
  | ok v => exact iff_of_true ⟨_, rfl⟩ ⟨v, rfl⟩

/-- Memory can hold one constraint more. -/
def StoredProblem.HasRoom {α : Type} (p : StoredProblem α) : Prop :=
  (p.constraints.rows + 1) * p.constraints.cols ≤ capacity

/-- **Reading and changing a stored matrix**: what succeeds, and what a change
changes. -/
structure Store.Accessible {α : Type} (b : Build) (s : Store α) : Prop where
  /-- An entry can be read when there is one. -/
  get : ∀ i j, SucceedsIff (s.get b i j) (i < s.rows ∧ j < s.cols)
  /-- An entry can be changed when there is one. -/
  set : ∀ i j v, SucceedsIff (s.set b i j v) (i < s.rows ∧ j < s.cols)
  /-- A row can be read when there is one. -/
  row : ∀ i, SucceedsIff (s.row b i) (i < s.rows)
  /-- A column can be read when there is one. -/
  column : ∀ j, SucceedsIff (s.column b j) (j < s.cols)
  /-- What is changed is one entry, and neither another one nor the shape. -/
  changed : ∀ i j v t, s.set b i j v = .ok (.ok t) →
    t.rows = s.rows ∧ t.cols = s.cols ∧ t.get b i j = .ok (.ok v) ∧
      ∀ i' j', (i', j') ≠ (i, j) → t.get b i' j' = s.get b i' j'

/-- **What holds a matrix can be read and changed.** -/
theorem Matrix.accessible_store {α : Type} [Scalar α] {m : Matrix α} (b : Build) (h : m.Fits) :
    m.store.Accessible b where
  get i j := succeedsIff_of_eq (get_store h i j) get_eq_ok_iff
  set i j v := succeedsIff_of_eq (set_store h i j v) (exists_map_eq_ok_iff.trans set_eq_ok_iff)
  row i := succeedsIff_of_eq (row_store h i) row_eq_ok_iff
  column j := succeedsIff_of_eq (column_store j) column_eq_ok_iff
  changed i j v t ht := by
    obtain ⟨n, hn, hfits, rfl⟩ := (follows_set h i j v).exists_eq ht
    obtain ⟨-, hheight, hcols⟩ := rows_of_set hn
    refine ⟨hheight, hcols, ?_, fun i' j' hne => ?_⟩
    · rw [get_store hfits, get_set_self hn]
    · rw [get_store hfits, get_store h, get_set_of_ne hn hne]

/-- **Bounds on the variables of a stored problem.** -/
structure StoredProblem.Boundable {α : Type} [Scalar α] (b : Build) (p : StoredProblem α) :
    Prop where
  /-- A variable that exists has an upper bound when memory can hold it. -/
  upper : p.HasRoom → ∀ j v, SucceedsIff (p.withUpperBound b j v) (j < p.numVariables)
  /-- And a lower one. -/
  lower : p.HasRoom → ∀ j v, SucceedsIff (p.withLowerBound b j v) (j < p.numVariables)
  /-- A variable that does not exist is no integer. -/
  integer : ∀ j, p.numVariables ≤ j → p.isInteger j = false

/-- **The variables of a problem can be bounded.** -/
theorem Problem.boundable_stored {α : Type} [Scalar α] (b : Build) (p : Problem α) :
    p.stored.Boundable b := by
  have hsucceeds : p.stored.HasRoom → ∀ (j : ℕ) (c v : α), SucceedsIff
      (andThen (p.stored.unitRow b j c) fun row => p.stored.withConstraint b row v)
      (j < p.numVariables) := by
    intro hroom j c v
    have hroom : p.HasRoom := by
      rw [HasRoom, ← height_coefficientMatrix]
      exact hroom
    refine succeedsIff_of_eq (bound_stored hroom j c v) ?_
    split
    · rename_i hj
      exact iff_of_true ⟨_, rfl⟩ hj
    · rename_i hj
      exact iff_of_false nofun hj
  refine ⟨fun h j v => hsucceeds h j 1 v, fun h j v => hsucceeds h j (-1) (-v), fun j hj => ?_⟩
  have hlength : p.integer.length ≤ j := p.length_integer.symm ▸ hj
  show p.integer.getD j false = false
  rw [List.getD_eq_getElem?_getD, List.getElem?_eq_none hlength, Option.getD_none]

/-- **Every sequence of operations** on stored matrices and problems keeps a
matrix or a problem, and with it the sizes that the next operation relies on. So
reading, changing and bounding have no fault, in either build: no index is past
the end, and no number leaves its word. They succeed where the index is in
range. -/
theorem Storage.operations_sound (b b' : Build) :
    (∀ s, Store.Obtained b s →
      s.Shaped ∧ s.Accessible b' ∧ ∃ m : Matrix Double, s = m.store) ∧
    (∀ p, StoredProblem.Obtained b p →
      p.Shaped ∧ p.Boundable b' ∧ ∃ q : Problem Double, p = q.stored) := by
  constructor
  · intro s hs
    obtain ⟨m, hfits, rfl⟩ := hs.exists_matrix
    exact ⟨m.shaped_store, Matrix.accessible_store b' hfits, m, rfl⟩
  · intro p hp
    obtain ⟨q, -, rfl⟩ := hp.exists_problem
    exact ⟨q.shaped_stored, q.boundable_stored b', q, rfl⟩

/-- A column of two entries. -/
def Storage.twoEntries : Store Double := ⟨2, 1, [⟨0x3ff0000000000000⟩, ⟨0x4000000000000000⟩]⟩

/-- One variable and one constraint. -/
def Storage.oneVariable : Draft Double where
  objective := [⟨0x3ff0000000000000⟩]
  constraints := [[⟨0x3ff0000000000000⟩]]
  rhs := [⟨0x4000000000000000⟩]

theorem Storage.operations_sound_twoEntries :
    (Store.Obtained .checked twoEntries ∧ twoEntries.Shaped ∧
      SucceedsIff (twoEntries.get .checked 1 7) (1 < 2 ∧ 7 < 1)) ∧
    ∃ p, StoredProblem.ofDraft .checked oneVariable = .ok (.ok p) ∧ p.Shaped ∧ p.HasRoom ∧
      SucceedsIff (p.withUpperBound .checked 0 ⟨0⟩) (0 < 1) ∧ p.isInteger 1 = false := by
  have hvector : Store.ofVector [(⟨0x3ff0000000000000⟩ : Double)] = .ok (.ok ⟨1, 1, _⟩) := rfl
  have hrow : Store.addRow .checked ⟨1, 1, [(⟨0x3ff0000000000000⟩ : Double)]⟩
      [⟨0x4000000000000000⟩] = .ok (.ok twoEntries) := rfl
  have hentries : Store.Obtained .checked twoEntries := .addRow (.ofVector hvector) hrow
  have hproblem : StoredProblem.ofDraft .checked oneVariable = .ok (.ok _) := rfl
  obtain ⟨hshaped, haccess, -⟩ := (operations_sound .checked .checked).1 _ hentries
  obtain ⟨hfits, hbound, -⟩ := (operations_sound .checked .checked).2 _ (.ofDraft hproblem)
  have hroom : (1 + 1) * 1 ≤ capacity := by decide
  exact ⟨⟨hentries, hshaped, haccess.get 1 7⟩, _, hproblem, hfits, hroom,
    hbound.upper hroom 0 ⟨0⟩, hbound.integer 1 (Nat.le_refl 1)⟩

end Milp
