import Mathlib.Data.List.GetD
import Mathlib.Data.List.Induction
import Milp.Storage.Problem
import Milp.Proofs.Problem.Drafts
import Milp.Proofs.Storage.Products
/-!
# Stored problems hold problems

`Problem.stored` is a problem as it is kept. What makes a problem, restricts its
integer variables or adds a row keeps the problem that is expected, or ends with
a fault (`follows_new`, `follows_ofDraft`, `follows_withConstraint`). A bound on a
variable has no fault when memory can hold one row more (`bound_stored`), and
taking the draft of a problem never has one (`toDraft_stored`).
-/

namespace Milp

open Storage

/-! ## Finding a row -/

section Rows

variable {α : Type} [Scalar α]

/-- Lists of one length are the same when one starts like the other. -/
theorem Store.samePrefix_eq : ∀ {vs ws : List α}, vs.length = ws.length →
    Store.samePrefix vs ws = Scalar.sameList vs ws
  | [], [], _ => rfl
  | v :: vs, w :: ws, h => by
    have htail : Store.samePrefix vs ws = Scalar.sameList vs ws :=
      Store.samePrefix_eq (Nat.succ.inj h)
    rw [samePrefix] at htail
    rw [samePrefix, List.zip_cons_cons, List.all_cons, htail, Scalar.sameList]

/-- A search without a fault. -/
theorem Storage.findM?_eq {p : ℕ → Run Bool} {q : ℕ → Bool} : ∀ {is : List ℕ},
    (∀ i ∈ is, p i = .ok (q i)) → is.findM? p = .ok (is.find? q)
  | [], _ => rfl
  | i :: is, h => by
    obtain ⟨hi, his⟩ := List.forall_mem_cons.1 h
    rw [List.findM?, hi, ok_bind, List.find?_cons]
    cases q i with
    | true => rfl
    | false => exact Storage.findM?_eq his

/-- The first place is found by counting. -/
theorem Storage.find?_range_eq_findIdx? {β : Type} {xs : List β} {q : β → Bool} {f : ℕ → Bool}
    (h : ∀ (i : ℕ) (hi : i < xs.length), f i = q xs[i]) :
    (List.range xs.length).find? f = xs.findIdx? q := by
  cases hfind : xs.findIdx? q with
  | none =>
    refine List.find?_eq_none.2 fun i hi => ?_
    have hlt := List.mem_range.1 hi
    rw [h i hlt, List.findIdx?_eq_none_iff.1 hfind _ (List.getElem_mem hlt)]
    exact Bool.false_ne_true
  | some i =>
    obtain ⟨hi, hq, hbefore⟩ := List.findIdx?_eq_some_iff_getElem.1 hfind
    refine List.find?_range_eq_some.2 ⟨by rw [h i hi]; exact hq, List.mem_range.2 hi, fun j hj => ?_⟩
    rw [h j (Nat.lt_trans hj hi)]
    simpa using hbefore j hj

/-- **The first row with the given values** is found without a fault. -/
theorem Matrix.positionOfRow_store {m : Matrix α} {b : Build} {values : List α} (h : m.Fits)
    (hlength : values.length = m.cols) : m.store.positionOfRow b values =
      .ok (m.rows.findIdx? (Scalar.sameList · values)) := by
  have hturn : ∀ i ∈ List.range m.height, (do
      let row ← m.store.rowAt b i
      pure (Store.samePrefix row values)) =
      .ok (Scalar.sameList (m.rows.getD i []) values) := by
    intro i hi
    have hi := List.mem_range.1 hi
    have hget : m.rows.getD i [] = m.rows[i] := by
      rw [List.getD_eq_getElem?_getD, List.getElem?_eq_getElem hi, Option.getD_some]
    rw [Matrix.rowAt_store h hi, ok_bind, hget,
      Store.samePrefix_eq ((Matrix.length_getElem hi).trans hlength.symm)]
    rfl
  rw [Store.positionOfRow, Matrix.rows_store, Storage.findM?_eq hturn]
  refine congrArg _ (Storage.find?_range_eq_findIdx? fun i hi => ?_)
  rw [List.getD_eq_getElem?_getD, List.getElem?_eq_getElem hi, Option.getD_some]

/-- **Where a row is added.** -/
theorem Row.addTo_eq (rows : List (Row α)) (c : List α) (v : α) :
    Row.addTo rows c v =
      match rows.findIdx? (Scalar.sameList ·.coefficients c) with
      | some i => rows.modify i fun r => { r with rhs := Scalar.lesser r.rhs v }
      | none => rows ++ [⟨c, v⟩] := by
  induction rows with
  | nil => rfl
  | cons r rows ih =>
    rw [Row.addTo, List.findIdx?_cons]
    by_cases hsame : Scalar.sameList r.coefficients c = true
    · rw [if_pos hsame, if_pos hsame]
      rfl
    · rw [if_neg hsame, if_neg hsame, ih]
      cases rows.findIdx? (Scalar.sameList ·.coefficients c) <;> rfl

end Rows

namespace Problem

variable {α : Type} {p q : Problem α} {b : Build} {j : ℕ}

/-! ## Problems as they are kept -/

/-- The objective as a matrix. -/
def objectiveMatrix (p : Problem α) : Matrix α where
  rows := [p.objective]
  cols := p.numVariables
  rows_ne_nil := List.cons_ne_nil _ _
  cols_pos := p.numVariables_pos
  length_of_mem _ hr := by rw [List.mem_singleton.1 hr, numVariables]

/-- The coefficients as a matrix. -/
def coefficientMatrix (p : Problem α) : Matrix α where
  rows := p.coefficients
  cols := p.numVariables
  rows_ne_nil h := p.rows_ne_nil (List.map_eq_nil_iff.1 h)
  cols_pos := p.numVariables_pos
  length_of_mem r hr := by
    obtain ⟨row, hrow, rfl⟩ := List.mem_map.1 hr
    exact p.length_coefficients row hrow

/-- The right-hand sides as a matrix. -/
def rhsMatrix (p : Problem α) : Matrix α where
  rows := [p.rhs]
  cols := p.numRows
  rows_ne_nil := List.cons_ne_nil _ _
  cols_pos := p.numRows_pos
  length_of_mem _ hr := by rw [List.mem_singleton.1 hr, rhs, List.length_map, numRows]

/-- A problem as it is kept. -/
def stored (p : Problem α) : StoredProblem α where
  objective := p.objectiveMatrix.store
  constraints := p.coefficientMatrix.store
  rhs := p.rhsMatrix.store
  integer := p.integer

/-- Memory can hold the problem. -/
def Fits (p : Problem α) : Prop := p.numRows * p.numVariables ≤ capacity

@[simp] theorem numVariables_stored (p : Problem α) : p.stored.numVariables = p.numVariables := rfl

theorem height_coefficientMatrix (p : Problem α) : p.coefficientMatrix.height = p.numRows :=
  List.length_map _

theorem fits_coefficientMatrix (h : p.Fits) : p.coefficientMatrix.Fits := by
  rw [Matrix.Fits, height_coefficientMatrix]
  exact h

theorem data_objectiveMatrix (p : Problem α) : p.objectiveMatrix.store.data = p.objective :=
  List.append_nil _

theorem data_rhsMatrix (p : Problem α) : p.rhsMatrix.store.data = p.rhs := List.append_nil _

/-- What is kept of a problem with the given data. -/
theorem stored_eq {o c : Matrix α} {bs : List α} {flags : List Bool} (ho : o.rows = [p.objective])
    (hc : c.rows = p.coefficients) (hbs : bs = p.rhs) (hflags : flags = p.integer) :
    p.stored = ⟨o.store, c.store, ⟨1, bs.length, bs⟩, flags⟩ := by
  obtain rfl : o = p.objectiveMatrix := Matrix.ext_rows ho
  obtain rfl : c = p.coefficientMatrix := Matrix.ext_rows hc
  subst hbs hflags
  have hrhs : p.rhsMatrix.store = ⟨1, p.rhs.length, p.rhs⟩ := by
    rw [show p.rhs.length = p.numRows from List.length_map _, ← data_rhsMatrix p]
    rfl
  rw [stored, hrhs]

theorem Fits.numVariables_le (h : p.Fits) : p.numVariables ≤ capacity :=
  (fits_coefficientMatrix h).cols_le

/-! ## Making a problem -/

/-- Rows of one entry, one after the other, are a column. -/
theorem map_getD_eq_flatten {rows : List (List α)} (h : ∀ r ∈ rows, r.length = 1) (d : α) :
    rows.map (·.getD 0 d) = rows.flatten := by
  induction rows with
  | nil => rfl
  | cons r rows ih =>
    obtain ⟨hr, hrows⟩ := List.forall_mem_cons.1 h
    obtain ⟨v, rfl⟩ := List.length_eq_one_iff.1 hr
    rw [List.map_cons, ih hrows]
    rfl

section Making

variable [Scalar α]

/-- A vector is kept as one row, whichever way it was given. -/
theorem asRow_store {m : Matrix α} (h : m.Fits) (hvector : m.isVector = true) :
    m.store.asRow = .ok ⟨1, m.rows.flatten.length, m.rows.flatten⟩ := by
  have hlen : m.rows.flatten.length = m.height * m.cols := length_flatten m.length_of_mem
  rw [Store.asRow, Matrix.rows_store, hlen]
  by_cases hrow : m.height = 1
  · rw [if_pos hrow, hrow, Nat.one_mul, Matrix.store, hrow]
    rfl
  · have hcol : m.cols = 1 := by simpa [Matrix.isVector, hrow] using hvector
    have hdata : m.columnAt 0 = m.rows.flatten :=
      map_getD_eq_flatten (fun r hr => (m.length_of_mem r hr).trans hcol) 0
    rw [if_neg hrow, Matrix.transpose_store h, hcol, Nat.mul_one]
    simp only [Matrix.store, Matrix.transpose, Matrix.height, hcol, List.range_one, List.map_cons,
      List.map_nil, List.flatten_cons, List.flatten_nil, List.append_nil, hdata,
      List.length_singleton]

/-- **Three matrices are kept as a problem.** -/
theorem follows_new {o c r : Matrix α} (hc : c.Fits) (hr : r.Fits) :
    Follows stored Fits (StoredProblem.new o.store c.store r.store) (ofMatrices o c r) := by
  rw [StoredProblem.new, ofMatrices, Matrix.rows_store, Matrix.cols_store, Matrix.cols_store,
    Matrix.isVector_store]
  by_cases ho : o.height = 1
  swap
  · rw [if_pos ho, if_pos ho]
    exact .refused
  rw [if_neg (not_not.2 ho), if_neg (not_not.2 ho)]
  by_cases hcols : c.cols = o.cols
  swap
  · rw [if_pos hcols, dif_pos hcols]
    exact .refused
  rw [if_neg (not_not.2 hcols), dif_neg (not_not.2 hcols)]
  by_cases hvector : r.isVector = true
  swap
  · rw [if_pos hvector, if_pos hvector]
    exact .refused
  rw [if_neg (not_not.2 hvector), if_neg (not_not.2 hvector), asRow_store hr hvector, ok_bind]
  by_cases hsize : r.rows.flatten.length = c.height
  swap
  · have hsize' : (⟨1, r.rows.flatten.length, r.rows.flatten⟩ : Store α).cols ≠ c.store.rows :=
      hsize
    rw [if_pos hsize', dif_pos hsize]
    exact .refused
  have hsize' : ¬ (⟨1, r.rows.flatten.length, r.rows.flatten⟩ : Store α).cols ≠ c.store.rows :=
    not_not.2 hsize
  rw [if_neg hsize', dif_neg (not_not.2 hsize)]
  have hobjective : o.rows = [o.rows.head o.rows_ne_nil] := by
    obtain ⟨first, hfirst⟩ := List.length_eq_one_iff.1 ho
    simp [hfirst]
  have hfirst : (o.rows.head o.rows_ne_nil).length = o.cols :=
    o.length_of_mem _ (List.head_mem o.rows_ne_nil)
  have hcoefficients : (Row.ofLists c.rows r.rows.flatten).map (·.coefficients) = c.rows :=
    Row.map_coefficients_ofLists hsize
  have hrhs : (Row.ofLists c.rows r.rows.flatten).map (·.rhs) = r.rows.flatten :=
    Row.map_rhs_ofLists hsize
  have hrows : (Row.ofLists c.rows r.rows.flatten).length = c.height := Row.length_ofLists hsize
  refine .inr ⟨?_, fun v hv => ?_⟩
  · exact congrArg (fun q => Except.ok (Except.ok q))
      (stored_eq hobjective hcoefficients.symm hrhs.symm
        (congrArg (List.replicate · true) hfirst.symm)).symm
  · cases hv
    rw [Fits, numRows, numVariables]
    show (Row.ofLists c.rows r.rows.flatten).length * (o.rows.head o.rows_ne_nil).length ≤ capacity
    rw [hrows, hfirst, ← hcols]
    exact hc

end Making

/-! ## Integer variables -/

theorem refuseVariable_stored (p : Problem α) (j : ℕ) :
    p.stored.refuseVariable b j = .ok (p.refuseVariable j) := by
  rw [StoredProblem.refuseVariable, numVariables_stored, difference_of_le p.numVariables_pos]
  rfl

/-- The flags of the given variables are set, on top of those that are. -/
theorem setFlags_stored : ∀ {js : List ℕ} {flags : List Bool}, flags.length = p.numVariables →
    p.stored.setFlags b flags js = .ok (match js.find? (p.numVariables ≤ ·) with
      | some j => .error (p.refuseVariable j)
      | none => .ok ((List.range p.numVariables).map fun i => flags.getD i false || js.contains i))
  | [], flags, h => by
    have hflags : (List.range p.numVariables).map (fun i => flags.getD i false || false) = flags := by
      refine List.ext_getElem (by simp [h]) fun i hi hi' => ?_
      simp [List.getD_eq_getElem?_getD, hi']
    rw [StoredProblem.setFlags, List.find?_nil]
    simp only [List.contains_nil, hflags]
    rfl
  | j :: js, flags, h => by
    rw [StoredProblem.setFlags, numVariables_stored, List.find?_cons]
    by_cases hj : p.numVariables ≤ j
    · rw [if_pos hj, refuseVariable_stored, ok_bind, decide_eq_true hj]
      rfl
    · have hlt : j < flags.length := by omega
      have hset : ∀ i < p.numVariables, ((flags.set j true).getD i false || js.contains i) =
          (flags.getD i false || (j :: js).contains i) := by
        intro i hi
        have hif : i < flags.length := h.symm ▸ hi
        by_cases heq : i = j
        · subst heq
          simp [List.getD_eq_getElem?_getD, hif]
        · have hne : ¬ j = i := fun h => heq h.symm
          simp [List.getD_eq_getElem?_getD, hne, heq]
      rw [if_neg hj, write_of_lt hlt, ok_bind,
        setFlags_stored (by rw [List.length_set, h]), decide_eq_false hj]
      simp only
      cases js.find? (p.numVariables ≤ ·) with
      | some i => rfl
      | none =>
        exact congrArg (fun fs => Except.ok (Except.ok fs))
          (List.map_congr_left fun i hi => hset i (List.mem_range.1 hi))

/-- **The integer variables are restricted** without a fault. -/
theorem restrictTo_stored (p : Problem α) (js : List ℕ) :
    p.stored.restrictTo b js = .ok ((p.restrictTo js).map stored) := by
  rw [StoredProblem.restrictTo, numVariables_stored, setFlags_stored List.length_replicate,
    restrictTo]
  cases js.find? (p.numVariables ≤ ·) with
  | some j => rfl
  | none =>
    have hflags : (List.range p.numVariables).map
        (fun i => (List.replicate p.numVariables false).getD i false || js.contains i) =
        (List.range p.numVariables).map js.contains := by
      refine List.map_congr_left fun i hi => ?_
      simp [List.getD_eq_getElem?_getD, List.mem_range.1 hi]
    simp only [andThen_ok, hflags]
    rfl

theorem follows_restrictTo (h : p.Fits) (js : List ℕ) :
    Follows stored Fits (p.stored.restrictTo b js) (p.restrictTo js) := by
  refine .inr ⟨restrictTo_stored p js, fun q hq => ?_⟩
  obtain ⟨-, hobjective, hrows, -⟩ := restrictTo_eq_ok_iff.1 hq
  rw [Fits, numRows, numVariables, hobjective, hrows]
  exact h

/-- **A draft is kept as the problem it describes.** -/
theorem follows_ofDraft [Scalar α] (d : Draft α) :
    Follows stored Fits (StoredProblem.ofDraft b d) (ofDraft d) := by
  refine (Matrix.follows_ofVector d.objective).andThen fun o _ => ?_
  refine (Matrix.follows_ofRows d.constraints).andThen fun c hc => ?_
  refine (Matrix.follows_ofVector d.rhs).andThen fun r hr => ?_
  refine (follows_new hc hr).andThen fun p hp => ?_
  cases d.integerVariables with
  | none => exact .kept hp
  | some js => exact follows_restrictTo hp js

/-! ## Taking a problem apart -/

/-- The places of the flags that are set, by counting. -/
theorem zipIdx_filterMap_eq_filter (flags : List Bool) :
    (flags.zipIdx.filterMap fun (flag, j) => if flag then some j else none) =
      (List.range flags.length).filter fun j => flags.getD j false := by
  induction flags using List.reverseRecOn with
  | nil => rfl
  | append_singleton flags flag ih =>
    have hfront : (List.range flags.length).filter (fun j => (flags ++ [flag]).getD j false) =
        (List.range flags.length).filter fun j => flags.getD j false :=
      List.filter_congr fun j hj => List.getD_append _ _ _ _ (List.mem_range.1 hj)
    rw [List.zipIdx_append, List.filterMap_append, ih, List.length_append, List.length_singleton,
      List.range_succ, List.filter_append, hfront]
    cases flag <;> simp

theorem integerVariables_stored (p : Problem α) :
    p.stored.integerVariables = p.integerVariables := by
  rw [integerVariables, numVariables, ← p.length_integer]
  exact zipIdx_filterMap_eq_filter p.integer

/-- **The draft is that of the problem that is kept**, and taken without a fault. -/
theorem toDraft_stored [Scalar α] (p : Problem α) : p.stored.toDraft = .ok p.toDraft := by
  have hrows : p.stored.constraints.toRows = .ok p.coefficients :=
    Matrix.toRows_store p.coefficientMatrix
  rw [StoredProblem.toDraft, hrows, ok_bind, integerVariables_stored]
  show Except.ok (Draft.mk p.objectiveMatrix.store.data p.coefficients p.rhsMatrix.store.data _) = _
  rw [data_objectiveMatrix, data_rhsMatrix]
  rfl

/-! ## Adding rows -/

section Adding

variable [Scalar α]

/-- Memory can hold the problem with one row more. -/
def HasRoom (p : Problem α) : Prop := (p.numRows + 1) * p.numVariables ≤ capacity

omit [Scalar α] in
theorem HasRoom.fits (h : p.HasRoom) : p.Fits :=
  Nat.le_trans (Nat.mul_le_mul_right _ (Nat.le_succ _)) h

/-- A row that is there takes the lesser right-hand side. -/
theorem stored_addRow_of_some {values : List α} (v : α) (hlength : values.length = p.numVariables)
    {i : ℕ} (hfind : p.rows.findIdx? (Scalar.sameList ·.coefficients values) = some i)
    (hi : i < p.rows.length) :
    (p.addRow values v hlength).stored =
      ⟨p.objectiveMatrix.store, p.coefficientMatrix.store,
        ⟨1, p.rhs.length, p.rhs.set i (Scalar.lesser p.rows[i].rhs v)⟩, p.integer⟩ := by
  have hrows : (p.addRow values v hlength).rows =
      p.rows.modify i fun r => { r with rhs := Scalar.lesser r.rhs v } := by
    show Row.addTo p.rows values v = _
    rw [Row.addTo_eq, hfind]
  have hcoefficients : (p.addRow values v hlength).coefficients = p.coefficients := by
    rw [coefficients, hrows]
    refine List.ext_getElem (by simp [coefficients]) fun k hk hk' => ?_
    simp only [coefficients, List.getElem_map, List.getElem_modify]
    split <;> rfl
  have hrhs : (p.addRow values v hlength).rhs = p.rhs.set i (Scalar.lesser p.rows[i].rhs v) := by
    rw [rhs, hrows]
    refine List.ext_getElem (by simp [rhs]) fun k hk hk' => ?_
    simp only [rhs, List.getElem_map, List.getElem_modify, List.getElem_set]
    split
    · rename_i heq
      subst heq
      rfl
    · rfl
  have heq := stored_eq (p := p.addRow values v hlength) (o := p.objectiveMatrix)
    (c := p.coefficientMatrix) rfl hcoefficients.symm hrhs.symm rfl
  rwa [List.length_set] at heq

/-- The search for the row. -/
theorem position_stored {values : List α} (hlength : values.length = p.numVariables)
    (h : p.Fits) : p.stored.constraints.positionOfRow b values =
      .ok (p.rows.findIdx? (Scalar.sameList ·.coefficients values)) := by
  have hposition := Matrix.positionOfRow_store (b := b) (fits_coefficientMatrix h) hlength
  exact hposition.trans (congrArg _ List.findIdx?_map)

/-- A row that is there is not added again, so that memory can hold it. -/
theorem pushConstraint_of_some {values : List α} (v : α)
    (hlength : values.length = p.numVariables) (h : p.Fits) {i : ℕ}
    (hfind : p.rows.findIdx? (Scalar.sameList ·.coefficients values) = some i) :
    p.stored.pushConstraint b values v = .ok (p.addRow values v hlength).stored := by
  have hlen : p.rhs.length = p.numRows := List.length_map _
  have hpos := p.numRows_pos
  obtain ⟨hi, -⟩ := List.findIdx?_eq_some_iff_getElem.1 hfind
  have hirhs : i < p.rhs.length := hlen ▸ hi
  have hget : p.rhs[i]? = some p.rows[i].rhs := by
    rw [List.getElem?_eq_getElem hirhs]
    simp [rhs]
  have hread : read p.stored.rhs.data i = .ok p.rows[i].rhs := by
    rw [show p.stored.rhs.data = p.rhs from data_rhsMatrix p, read_of_getElem? hget]
  have hwrite : ∀ w, write p.stored.rhs.data i w = .ok (p.rhs.set i w) := by
    intro w
    rw [show p.stored.rhs.data = p.rhs from data_rhsMatrix p, write_of_lt hirhs]
  rw [StoredProblem.pushConstraint, position_stored hlength h, ok_bind, hfind]
  simp only
  rw [hread, ok_bind, hwrite, ok_bind, Store.ofRaw, assert_of (by rw [List.length_set]; omega),
    ok_bind, stored_addRow_of_some v hlength hfind hi, List.length_set]
  rfl

/-- **A new row is added** to what is kept, when memory can hold it. -/
theorem pushConstraint_of_none {values : List α} (v : α)
    (hlength : values.length = p.numVariables) (hroom : p.HasRoom)
    (hfind : p.rows.findIdx? (Scalar.sameList ·.coefficients values) = none) :
    p.stored.pushConstraint b values v = .ok (p.addRow values v hlength).stored := by
  have hlen : p.rhs.length = p.numRows := List.length_map _
  have hrows : (p.addRow values v hlength).rows = p.rows ++ [⟨values, v⟩] := by
    show Row.addTo p.rows values v = _
    rw [Row.addTo_eq, hfind]
  have hmore : p.numRows + 1 ≤ capacity :=
    Nat.le_trans (Nat.le_mul_of_pos_right _ p.numVariables_pos) hroom
  have hextend : extend p.stored.rhs.data [v] = .ok (p.rhs ++ [v]) := by
    rw [show p.stored.rhs.data = p.rhs from data_rhsMatrix p,
      extend_of_le (by rw [hlen, List.length_singleton]; exact hmore)]
  have happend : p.stored.constraints.appendRow b values =
      .ok (p.addRow values v hlength).coefficientMatrix.store := by
    have hheight := p.height_coefficientMatrix
    refine (Matrix.appendRow_store hlength (by rw [hheight]; exact hroom)).trans ?_
    simp only [Matrix.store, Matrix.height, coefficientMatrix, coefficients, hrows, List.map_append,
      List.length_append, List.flatten_append]
    simp [addRow, numVariables]
  have hrhs : (p.addRow values v hlength).rhs = p.rhs ++ [v] := by
    rw [rhs, hrows, List.map_append]
    rfl
  rw [StoredProblem.pushConstraint, position_stored hlength hroom.fits, ok_bind, hfind]
  simp only
  rw [hextend, ok_bind, happend, ok_bind, Store.ofRaw,
    assert_of (by rw [List.length_append, List.length_singleton]; omega), ok_bind,
    stored_eq (p := p.addRow values v hlength) (o := p.objectiveMatrix)
      (c := (p.addRow values v hlength).coefficientMatrix) rfl rfl hrhs.symm rfl]
  rfl

/-- A new row that memory cannot hold ends the run. -/
theorem pushConstraint_fault {values : List α} (v : α)
    (hlength : values.length = p.numVariables) (h : p.Fits) (hroom : ¬ p.HasRoom)
    (hfind : p.rows.findIdx? (Scalar.sameList ·.coefficients values) = none) :
    ∃ f, p.stored.pushConstraint b values v = .error f := by
  have hheight := p.height_coefficientMatrix
  obtain ⟨f, hf⟩ := Matrix.appendRow_store_fault (m := p.coefficientMatrix) (b := b) hlength
    (by rw [hheight]; exact Nat.lt_of_not_le hroom)
  have hfault : p.stored.constraints.appendRow b values = .error f := hf
  rw [StoredProblem.pushConstraint, position_stored hlength h, ok_bind, hfind]
  simp only
  rw [hfault]
  cases extend p.stored.rhs.data [v] with
  | error g => exact ⟨g, rfl⟩
  | ok data => exact ⟨f, rfl⟩

/-- **A row is added** without a fault when memory can hold one row more. -/
theorem pushConstraint_stored {values : List α} (v : α) (hlength : values.length = p.numVariables)
    (hroom : p.HasRoom) :
    p.stored.pushConstraint b values v = .ok (p.addRow values v hlength).stored := by
  cases hfind : p.rows.findIdx? (Scalar.sameList ·.coefficients values) with
  | some i => exact pushConstraint_of_some v hlength hroom.fits hfind
  | none => exact pushConstraint_of_none v hlength hroom hfind

/-- Memory can hold what was added. -/
theorem fits_addRow {values : List α} (v : α) (hlength : values.length = p.numVariables)
    (h : p.Fits) (hroom : p.rows.findIdx? (Scalar.sameList ·.coefficients values) = none →
      p.HasRoom) : (p.addRow values v hlength).Fits := by
  have hrows : (p.addRow values v hlength).rows = Row.addTo p.rows values v := rfl
  rw [Fits, numRows, hrows, Row.addTo_eq]
  cases hfind : p.rows.findIdx? (Scalar.sameList ·.coefficients values) with
  | some i =>
    simp only [List.length_modify]
    exact h
  | none =>
    simp only [List.length_append, List.length_singleton]
    exact hroom hfind

/-- **A row is added, or memory cannot hold it.** -/
theorem follows_withConstraint (h : p.Fits) (values : List α) (v : α) :
    Follows stored Fits (p.stored.withConstraint b values v) (p.withRow values v) := by
  rw [StoredProblem.withConstraint, withRow, numVariables_stored]
  by_cases hlength : values.length = p.numVariables
  swap
  · rw [if_pos hlength, dif_neg hlength]
    exact .refused
  rw [if_neg (not_not.2 hlength), dif_pos hlength]
  cases hfind : p.rows.findIdx? (Scalar.sameList ·.coefficients values) with
  | some i =>
    rw [pushConstraint_of_some v hlength h hfind, ok_bind]
    exact .kept (fits_addRow v hlength h fun hnone => by rw [hfind] at hnone; cases hnone)
  | none =>
    by_cases hroom : p.HasRoom
    · rw [pushConstraint_of_none v hlength hroom hfind, ok_bind]
      exact .kept (fits_addRow v hlength h fun _ => hroom)
    · obtain ⟨f, hf⟩ := pushConstraint_fault (b := b) v hlength h hroom hfind
      rw [hf]
      exact .fault

/-! ## Bounds -/

/-- The row of a bound is made without a fault. -/
theorem unitRow_stored (h : p.Fits) (j : ℕ) (c : α) :
    p.stored.unitRow b j c = .ok (if j < p.numVariables then .ok (Scalar.unitList p.numVariables j c)
      else .error (p.refuseVariable j)) := by
  rw [StoredProblem.unitRow, numVariables_stored]
  by_cases hj : j < p.numVariables
  · rw [if_neg (Nat.not_le.2 hj), reserve_of_le h.numVariables_le, ok_bind,
      write_of_lt (by rw [List.length_replicate]; exact hj), ok_bind, if_pos hj]
    rfl
  · rw [if_pos (Nat.le_of_not_lt hj), refuseVariable_stored, ok_bind, if_neg hj]
    rfl

/-- A bound as it is made: its row, and then that row with a right-hand side. -/
theorem withRow_unitList (p : Problem α) (j : ℕ) (c v : α) :
    p.withRow (Scalar.unitList p.numVariables j c) v = .ok (p.bound j c v) := by
  rw [withRow, dif_pos (Scalar.length_unitList _ _ _)]
  rfl

/-- **A bound on one variable**, or memory cannot hold it. -/
theorem follows_bound (h : p.Fits) (j : ℕ) (c v : α) :
    Follows stored Fits (andThen (p.stored.unitRow b j c) fun row => p.stored.withConstraint b row v)
      (if j < p.numVariables then .ok (p.bound j c v) else .error (p.refuseVariable j)) := by
  rw [unitRow_stored h]
  by_cases hj : j < p.numVariables
  · rw [if_pos hj, if_pos hj, andThen_ok, ← withRow_unitList]
    exact follows_withConstraint h _ _
  · rw [if_neg hj, if_neg hj, andThen_refused]
    exact .refused

/-- **A bound on one variable** without a fault. -/
theorem bound_stored (hroom : p.HasRoom) (j : ℕ) (c v : α) :
    (andThen (p.stored.unitRow b j c) fun row => p.stored.withConstraint b row v) =
      .ok (if j < p.numVariables then .ok (p.bound j c v).stored
        else .error (p.refuseVariable j)) := by
  rw [unitRow_stored hroom.fits]
  by_cases hj : j < p.numVariables
  · have hlength : (Scalar.unitList p.numVariables j c).length = p.numVariables :=
      Scalar.length_unitList _ _ _
    rw [if_pos hj, if_pos hj, andThen_ok, StoredProblem.withConstraint, numVariables_stored,
      if_neg (not_not.2 hlength), pushConstraint_stored v hlength hroom, ok_bind]
    rfl
  · rw [if_neg hj, if_neg hj, andThen_refused]

end Adding

end Problem

end Milp
