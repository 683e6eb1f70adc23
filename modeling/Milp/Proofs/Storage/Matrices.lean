import Milp.Matrix.Arithmetic
import Milp.Storage.Matrix
import Milp.Proofs.Storage.Vectors
/-!
# Stored matrices hold matrices

`Matrix.store` is a matrix as it is kept. Reading and changing entries of what
is kept is reading and changing entries of the matrix, without a fault
(`get_store`, `set_store`, `row_store`, `column_store`), and only the entry that
is meant is changed (`get_set_self`, `get_set_of_ne`). What makes a matrix or
changes its shape either ends with a fault or keeps the matrix that is expected,
and then memory can hold it (`Storage.Follows`).
-/

namespace Milp

open Storage

/-! ## Runs that follow what is expected -/

namespace Storage

variable {ε β γ δ η : Type} {keep : γ → β} {small : γ → Prop} {r : Run (Except ε β)}
  {e : Except ε γ}

/-- **A run that ends with a fault, or keeps what is expected**, when memory can
hold it. -/
def Follows (keep : γ → β) (small : γ → Prop) (r : Run (Except ε β)) (e : Except ε γ) : Prop :=
  (∃ f, r = .error f) ∨ (r = .ok (e.map keep) ∧ ∀ v, e = .ok v → small v)

theorem Follows.fault {f : Fault} : Follows keep small (.error f) e := .inl ⟨f, rfl⟩

theorem Follows.refused {x : ε} : Follows keep small (pure (.error x)) (.error x) :=
  .inr ⟨rfl, nofun⟩

theorem Follows.kept {v : γ} (h : small v) :
    Follows keep small (pure (.ok (keep v)) : Run (Except ε β)) (.ok v) :=
  .inr ⟨rfl, fun _ hv => Except.ok.inj hv ▸ h⟩

/-- What is kept is what was expected. -/
theorem Follows.exists_eq (h : Follows keep small r e) {x : β} (hx : r = .ok (.ok x)) :
    ∃ v, e = .ok v ∧ small v ∧ x = keep v := by
  rcases h with ⟨f, hf⟩ | ⟨hr, hsmall⟩
  · rw [hf] at hx
    cases hx
  · rw [hr] at hx
    cases e with
    | error y => cases Except.ok.inj hx
    | ok v => exact ⟨v, rfl, hsmall v rfl, (Except.ok.inj (Except.ok.inj hx)).symm⟩

/-- So it keeps something that memory can hold. -/
theorem Follows.exists_kept (h : Follows keep small r e) {x : β} (hx : r = .ok (.ok x)) :
    ∃ v, small v ∧ x = keep v := by
  obtain ⟨v, -, hv⟩ := h.exists_eq hx
  exact ⟨v, hv⟩

/-- A first step that may end with a fault. -/
theorem Follows.bind {x : Run δ} {g : δ → Run (Except ε β)}
    (h : ∀ v, x = .ok v → Follows keep small (g v) e) : Follows keep small (x >>= g) e := by
  cases x with
  | error f => exact .inl ⟨f, rfl⟩
  | ok v => exact h v rfl

/-- **One run after the other.** -/
theorem Follows.andThen {keep' : δ → η} {small' : δ → Prop} {g : β → Run (Except ε η)}
    {g' : γ → Except ε δ} (h : Follows keep small r e)
    (hg : ∀ v, small v → Follows keep' small' (g (keep v)) (g' v)) :
    Follows keep' small' (andThen r g) (e >>= g') := by
  rcases h with ⟨f, rfl⟩ | ⟨rfl, hsmall⟩
  · exact .inl ⟨f, rfl⟩
  · cases e with
    | error x => exact .refused
    | ok v => exact hg v (hsmall v rfl)

end Storage

namespace Matrix

variable {α : Type} {m n : Matrix α} {b : Build} {i j : ℕ}

/-- A matrix as it is kept. -/
def store (m : Matrix α) : Store α := ⟨m.height, m.cols, m.rows.flatten⟩

/-- Memory can hold the matrix. -/
def Fits (m : Matrix α) : Prop := m.height * m.cols ≤ capacity

@[simp] theorem rows_store (m : Matrix α) : m.store.rows = m.height := rfl

@[simp] theorem cols_store (m : Matrix α) : m.store.cols = m.cols := rfl

@[simp] theorem length_data_store (m : Matrix α) : m.store.data.length = m.height * m.cols :=
  length_flatten m.length_of_mem

theorem isVector_store (m : Matrix α) : m.store.isVector = m.isVector := rfl

theorem length_getElem (hi : i < m.height) : m.rows[i].length = m.cols :=
  m.length_of_mem _ (List.getElem_mem hi)

/-! ## Entries -/

theorem mul_add_lt {k l : ℕ} (hi : i < k) (hj : j < l) : i * l + j < k * l := by
  have hnext : (i + 1) * l ≤ k * l := Nat.mul_le_mul_right l hi
  rw [Nat.succ_mul] at hnext
  omega

/-- A matrix that memory can hold has as many rows and columns as it can hold. -/
theorem Fits.height_le (h : m.Fits) : m.height ≤ capacity :=
  Nat.le_trans (Nat.le_mul_of_pos_right _ m.cols_pos) h

theorem Fits.cols_le (h : m.Fits) : m.cols ≤ capacity :=
  Nat.le_trans (Nat.le_mul_of_pos_left _ m.height_pos) h

end Matrix

namespace Store

variable {α : Type} {s : Store α} {b : Build} {i j : ℕ}

/-- The place of an entry is a word. -/
theorem place_eq (h : i * s.cols + j ≤ capacity) : s.place b i j = .ok (i * s.cols + j) := by
  have hstart : word b (i * s.cols) = .ok (i * s.cols) := word_of_le_capacity (by omega)
  rw [place, hstart, ok_bind, word_of_le_capacity h]

theorem checkIndex_of_lt (hi : i < s.rows) (hj : j < s.cols) :
    s.checkIndex b i j = .ok (.ok ()) := if_neg (by omega)

theorem checkIndex_of_not_lt (hrows : 0 < s.rows) (hcols : 0 < s.cols)
    (h : ¬ (i < s.rows ∧ j < s.cols)) :
    s.checkIndex b i j = .ok (.error (.entryIndex i j (s.rows - 1) (s.cols - 1))) := by
  rw [checkIndex, if_pos (by omega), difference_of_le hrows, difference_of_le hcols]
  rfl

end Store

namespace Matrix

variable {α : Type} {m n : Matrix α} {b : Build} {i j : ℕ} {v : α}

theorem getElem?_rows (hi : i < m.height) (hj : j < m.cols) :
    ∃ v, m.rows[i]?.bind (·[j]?) = some v := by
  have hrow : j < m.rows[i].length := (length_getElem hi).symm ▸ hj
  exact ⟨_, by rw [List.getElem?_eq_getElem hi, Option.bind_some, List.getElem?_eq_getElem hrow]⟩

theorem getElem?_rows_of_not_lt (h : ¬ (i < m.height ∧ j < m.cols)) :
    m.rows[i]?.bind (·[j]?) = none := by
  by_cases hi : i < m.height
  · rw [List.getElem?_eq_getElem hi, Option.bind_some]
    exact List.getElem?_eq_none (by rw [length_getElem hi]; omega)
  · rw [List.getElem?_eq_none (Nat.le_of_not_lt hi)]
    rfl

/-- The place of an entry. -/
theorem place_store (h : m.Fits) (hi : i < m.height) (hj : j < m.cols) :
    m.store.place b i j = .ok (i * m.cols + j) :=
  Store.place_eq (s := m.store) (Nat.le_trans (Nat.le_of_lt (mul_add_lt hi hj)) h)

/-- **An entry is read without a fault.** -/
theorem get_store (h : m.Fits) (i j : ℕ) : m.store.get b i j = .ok (m.get i j) := by
  rw [Store.get]
  by_cases hin : i < m.height ∧ j < m.cols
  · obtain ⟨v, hv⟩ := getElem?_rows hin.1 hin.2
    have hread : read m.store.data (i * m.cols + j) = .ok v :=
      read_of_getElem? ((getElem?_flatten m.length_of_mem hin.2).trans hv)
    rw [Store.checkIndex_of_lt (s := m.store) hin.1 hin.2, andThen_ok, place_store h hin.1 hin.2,
      ok_bind, hread, ok_bind, get, hv]
    rfl
  · rw [Store.checkIndex_of_not_lt (s := m.store) m.height_pos m.cols_pos hin, get,
      getElem?_rows_of_not_lt hin]
    rfl

/-- **An entry is replaced without a fault.** -/
theorem set_store (h : m.Fits) (i j : ℕ) (v : α) :
    m.store.set b i j v = .ok ((m.set i j v).map store) := by
  rw [Store.set]
  by_cases hin : i < m.height ∧ j < m.cols
  · have hwrite : write m.store.data (i * m.cols + j) v =
        .ok (m.store.data.set (i * m.cols + j) v) :=
      write_of_lt ((length_data_store m).symm ▸ mul_add_lt hin.1 hin.2)
    rw [Store.checkIndex_of_lt (s := m.store) hin.1 hin.2, andThen_ok, place_store h hin.1 hin.2,
      ok_bind, hwrite, ok_bind, set, if_pos hin]
    have hdata := set_flatten m.length_of_mem hin.2 v (i := i)
    simp only [store, Except.map, height, List.length_modify, ← hdata]
    rfl
  · rw [Store.checkIndex_of_not_lt (s := m.store) m.height_pos m.cols_pos hin, set, if_neg hin]
    rfl

/-! ## Rows and columns -/

theorem rowAt_store (h : m.Fits) (hi : i < m.height) :
    m.store.rowAt b i = .ok m.rows[i] := by
  have hstop : (i + 1) * m.cols ≤ m.height * m.cols := Nat.mul_le_mul_right _ hi
  have hstart : i * m.cols ≤ (i + 1) * m.cols := Nat.mul_le_mul_right _ (Nat.le_succ i)
  have hheight := h.height_le
  rw [Fits] at h
  rw [Store.rowAt, cols_store, word_of_le_capacity (by omega : i * m.cols ≤ capacity), ok_bind,
    word_of_le_capacity (by omega : i + 1 ≤ capacity), ok_bind, word_of_le_capacity (by omega),
    ok_bind, slice, if_pos ⟨hstart, by rw [length_data_store]; exact hstop⟩]
  exact congrArg _ (slice_flatten m.length_of_mem hi)

/-- **A row is read without a fault.** -/
theorem row_store (h : m.Fits) (i : ℕ) : m.store.row b i = .ok (m.row i) := by
  rw [Store.row, row, rows_store]
  by_cases hi : i < m.height
  · rw [if_neg (Nat.not_le.2 hi), rowAt_store h hi, List.getElem?_eq_getElem hi]
    rfl
  · have hnone : m.rows[i]? = none := List.getElem?_eq_none (Nat.le_of_not_lt hi)
    rw [if_pos (Nat.le_of_not_lt hi), difference_of_le m.height_pos, hnone]
    rfl

/-- **The rows are read** without a fault. -/
theorem toRows_store (m : Matrix α) : m.store.toRows = .ok m.rows := by
  rw [Store.toRows, cols_store, chunks, if_neg (Nat.ne_of_gt m.cols_pos)]
  exact congrArg _ (pieces_flatten m.length_of_mem m.cols_pos)

section Columns

variable [Scalar α]

theorem columnAt_store (hj : j < m.cols) : m.store.columnAt j = .ok (m.columnAt j) := by
  rw [Store.columnAt, cols_store, stepBy, if_neg (Nat.ne_of_gt m.cols_pos)]
  exact congrArg _ (every_flatten m.length_of_mem hj 0)

/-- **A column is read without a fault.** -/
theorem column_store (j : ℕ) : m.store.column b j = .ok (m.column j) := by
  rw [Store.column, column, cols_store]
  by_cases hj : j < m.cols
  · rw [if_neg (Nat.not_le.2 hj), columnAt_store hj, if_pos hj]
    rfl
  · rw [if_pos (Nat.le_of_not_lt hj), difference_of_le m.cols_pos, if_neg hj]
    rfl

/-- **The transpose is made without a fault.** -/
theorem transpose_store (h : m.Fits) : m.store.transpose = .ok m.transpose.store := by
  have hflatten : ((List.range m.cols).map m.columnAt).flatten.length = m.cols * m.height := by
    rw [length_flatten (c := m.height) (by simp), List.length_map, List.length_range]
  have hloop : (List.range m.cols).foldlM (fun data j => do
      let values ← m.store.columnAt j
      extend data values) [] = .ok ((List.range m.cols).map m.columnAt).flatten := by
    rw [foldlM_extend (g := m.columnAt) _ (Nat.zero_le _), extend_of_le, List.nil_append]
    · rw [hflatten, List.length_nil, Nat.zero_add, Nat.mul_comm]
      exact h
    · intro data j hj
      rw [columnAt_store (List.mem_range.1 hj)]
      rfl
  rw [Store.transpose, length_data_store, reserve_of_le h, ok_bind, cols_store, hloop, ok_bind]
  simp [store, transpose, height]
  rfl

end Columns

/-- A row is appended when memory can hold it. -/
theorem appendRow_store {values : List α} (hlength : values.length = m.cols)
    (hfits : (m.height + 1) * m.cols ≤ capacity) :
    m.store.appendRow b values = .ok ⟨m.height + 1, m.cols, m.rows.flatten ++ values⟩ := by
  have hheight : m.height + 1 ≤ capacity :=
    Nat.le_trans (Nat.le_mul_of_pos_right _ m.cols_pos) hfits
  rw [Nat.succ_mul] at hfits
  have hlen := length_data_store m
  rw [Store.appendRow, cols_store, assert_of hlength, ok_bind, hlen, word_of_le_capacity hfits,
    ok_bind, reserve_of_le hfits, ok_bind, extend_of_le (by rw [hlen, hlength]; exact hfits),
    ok_bind, rows_store, word_of_le_capacity hheight, ok_bind]
  rfl

/-- Otherwise the run ends with a fault. -/
theorem appendRow_store_fault {values : List α} (hlength : values.length = m.cols)
    (hfits : capacity < (m.height + 1) * m.cols) :
    ∃ f, m.store.appendRow b values = .error f := by
  rw [Nat.succ_mul] at hfits
  have hextend : extend m.store.data values = .error .capacity :=
    extend_of_lt (by rw [length_data_store, hlength]; exact hfits)
  rw [Store.appendRow, cols_store, assert_of hlength, ok_bind, hextend]
  cases word b (m.store.data.length + m.cols) with
  | error f => exact ⟨f, rfl⟩
  | ok k =>
    rw [ok_bind]
    cases reserve k with
    | error f => exact ⟨f, rfl⟩
    | ok _ => exact ⟨_, rfl⟩

/-- **A new matrix is kept without a fault** when memory can hold it. -/
theorem new_store {rows cols : ℕ} {data : List α} (hfits : m.Fits) (hrows : rows = m.height)
    (hcols : cols = m.cols) (hdata : data = m.rows.flatten) :
    (extend [] data >>= fun data => pure (.ok ⟨rows, cols, data⟩) :
      Run (Except Refusal (Store α))) = .ok (.ok m.store) := by
  subst hrows hcols hdata
  have hlen : m.rows.flatten.length = m.height * m.cols := length_data_store m
  rw [extend_of_le (by rw [hlen, List.length_nil, Nat.zero_add]; exact hfits), ok_bind]
  rfl

/-- A new matrix is kept when memory can hold it. -/
theorem follows_new {rows cols : ℕ} {data : List α} (hrows : rows = m.height) (hcols : cols = m.cols)
    (hdata : data = m.rows.flatten) :
    Follows store Fits (extend [] data >>= fun data => pure (.ok ⟨rows, cols, data⟩))
      (.ok m : Except Refusal (Matrix α)) := by
  by_cases hfits : m.Fits
  · rw [new_store hfits hrows hcols hdata]
    exact .kept hfits
  · have hlen : m.rows.flatten.length = m.height * m.cols := length_data_store m
    rw [Fits] at hfits
    rw [extend_of_lt (by rw [hdata, hlen, List.length_nil]; omega)]
    exact .fault

/-- **A row is added without a fault** when memory can hold it. -/
theorem addRow_store (hfits : (m.height + 1) * m.cols ≤ capacity) (values : List α) :
    m.store.addRow b values = .ok ((m.addRow values).map store) := by
  rw [Store.addRow, addRow, cols_store]
  by_cases hlength : values.length = m.cols
  · rw [if_neg (not_not.2 hlength), dif_pos hlength, appendRow_store hlength hfits, ok_bind]
    simp [store, height, Except.map]
    rfl
  · rw [if_pos hlength, dif_neg hlength]
    rfl

/-- **A row is added** at the end. -/
theorem follows_addRow (values : List α) :
    Follows store Fits (m.store.addRow b values) (m.addRow values) := by
  by_cases hfits : (m.height + 1) * m.cols ≤ capacity
  · refine .inr ⟨addRow_store hfits values, fun n hn => ?_⟩
    rw [addRow] at hn
    split at hn
    · cases hn
      simpa [Fits, height] using hfits
    · cases hn
  · rw [Store.addRow, addRow, cols_store]
    by_cases hlength : values.length = m.cols
    · obtain ⟨f, hf⟩ := appendRow_store_fault (b := b) hlength (Nat.lt_of_not_le hfits)
      rw [if_neg (not_not.2 hlength), hf]
      exact .fault
    · rw [if_pos hlength, dif_neg hlength]
      exact .refused

/-- Each row with its new last element is put after those before it. -/
theorem extend_addColumn (values : List α) :
    (chunks m.cols m.store.data >>= fun rows => (rows.zip values).foldlM (fun data (row, v) => do
      let data ← extend data row
      extend data [v]) []) =
    extend [] (List.zipWith (fun r v => r ++ [v]) m.rows values).flatten := by
  have hchunks : chunks m.cols m.store.data = .ok m.rows := toRows_store m
  have hstep : ∀ (data : List α), ∀ p ∈ m.rows.zip values,
      (extend data p.1 >>= fun data => extend data [p.2]) = extend data (p.1 ++ [p.2]) :=
    fun data p _ => extend_extend data p.1 [p.2]
  rw [hchunks, ok_bind, foldlM_extend hstep (Nat.zero_le _)]
  exact congrArg (fun rows => extend [] (List.flatten rows)) List.map_zip_eq_zipWith

/-- A longer row is a word. -/
theorem Fits.word_succ_cols (h : m.Fits) : word b (m.cols + 1) = .ok (m.cols + 1) := by
  have hcols := h.cols_le
  have hword : capacity + 1 < wordSize := by decide
  exact word_of_lt (by omega)

/-- **A column is added without a fault** when memory can hold it. -/
theorem addColumn_store (hfits : m.height * (m.cols + 1) ≤ capacity) (values : List α) :
    m.store.addColumn b values = .ok ((m.addColumn values).map store) := by
  have hm : m.Fits := Nat.le_trans (Nat.mul_le_mul_left _ (Nat.le_succ _)) hfits
  rw [Store.addColumn, addColumn, rows_store, cols_store]
  by_cases hlength : values.length = m.height
  · have hrows : m.height = (List.zipWith (fun r v => r ++ [v]) m.rows values).length := by
      rw [List.length_zipWith, hlength]
      exact (Nat.min_self _).symm
    rw [if_neg (not_not.2 hlength), dif_pos hlength, hm.word_succ_cols, ok_bind,
      word_of_le_capacity hfits, ok_bind, reserve_of_le hfits, ok_bind]
    rw [← bind_assoc, extend_addColumn]
    refine new_store ?_ hrows rfl rfl
    rw [Fits, height, ← hrows]
    exact hfits
  · rw [if_pos hlength, dif_neg hlength]
    rfl

/-- **A column is added** at the end. -/
theorem follows_addColumn (h : m.Fits) (values : List α) :
    Follows store Fits (m.store.addColumn b values) (m.addColumn values) := by
  rw [Store.addColumn, addColumn, rows_store, cols_store]
  by_cases hlength : values.length = m.height
  · rw [if_neg (not_not.2 hlength), dif_pos hlength, h.word_succ_cols, ok_bind]
    refine .bind fun k _ => .bind fun _ _ => ?_
    rw [← bind_assoc, extend_addColumn]
    refine follows_new ?_ rfl rfl
    rw [height, height, List.length_zipWith, hlength]
    exact (Nat.min_self _).symm
  · rw [if_pos hlength, dif_neg hlength]
    exact .refused

/-! ## Making a matrix -/

/-- **A vector is kept.** -/
theorem follows_ofVector (values : List α) :
    Follows store Fits (Store.ofVector values) (ofVector values) := by
  rw [Store.ofVector, ofVector]
  split
  · exact .refused
  · exact follows_new rfl rfl (List.append_nil values).symm

/-- Rows of one length are added one after the other. -/
theorem extendRows_eq {c : ℕ} : ∀ {rows : List (List α)} {i : ℕ} {data : List α},
    (∀ r ∈ rows, r.length = c) → data.length ≤ capacity →
      Store.extendRows c i data rows =
        (extend data rows.flatten >>= fun data => pure (.ok data)) := by
  intro rows
  induction rows with
  | nil =>
    intro i data _ hdata
    rw [List.flatten_nil, extend_of_le (by simpa using hdata), List.append_nil]
    rfl
  | cons r rows ih =>
    intro i data h hdata
    obtain ⟨hr, hrows⟩ := List.forall_mem_cons.1 h
    rw [Store.extendRows, if_neg (not_not.2 hr), List.flatten_cons, ← extend_extend]
    by_cases hlong : data.length + r.length ≤ capacity
    · rw [extend_of_le hlong, ok_bind, ok_bind]
      exact ih hrows (by rwa [List.length_append])
    · rw [extend_of_lt (by omega), error_bind, error_bind, error_bind]

/-- The first row of another length is refused. -/
theorem extendRows_ragged {c : ℕ} : ∀ {rows : List (List α)} (i : ℕ) (data : List α),
    ¬ (∀ r ∈ rows, r.length = c) →
      (∃ f, Store.extendRows c i data rows = .error f) ∨
      Store.extendRows c i data rows = .ok (.error (.raggedRow
        (i + rows.findIdx (·.length != c))
        ((rows[rows.findIdx (·.length != c)]?.map List.length).getD 0) c)) := by
  intro rows
  induction rows with
  | nil => exact fun _ _ h => absurd nofun h
  | cons r rows ih =>
    intro i data h
    rw [Store.extendRows, List.findIdx_cons]
    by_cases hr : r.length = c
    · have hrest : ¬ ∀ r ∈ rows, r.length = c := fun hrows =>
        h (List.forall_mem_cons.2 ⟨hr, hrows⟩)
      rw [if_neg (not_not.2 hr)]
      have hbool : (r.length != c) = false := by simp [hr]
      rw [hbool, cond_false]
      cases extend data r with
      | error f => exact .inl ⟨f, rfl⟩
      | ok data =>
        rw [ok_bind]
        rcases ih (i + 1) data hrest with hfault | heq
        · exact .inl hfault
        · refine .inr (heq.trans ?_)
          rw [List.getElem?_cons_succ]
          congr 3
          omega
    · have hbool : (r.length != c) = true := by simp [hr]
      rw [if_pos hr, hbool, cond_true]
      exact .inr rfl

/-- **Rows are kept** when they have one length. -/
theorem follows_ofRows (rows : List (List α)) :
    Follows store Fits (Store.ofRows b rows) (ofRows rows) := by
  cases rows with
  | nil => exact .refused
  | cons first rest =>
    simp only [Store.ofRows, ofRows]
    by_cases hzero : first.length = 0
    · rw [if_pos hzero, dif_pos hzero]
      exact .refused
    rw [if_neg hzero, dif_neg hzero]
    refine .bind fun k _ => .bind fun _ _ => ?_
    by_cases h : ∀ r ∈ first :: rest, r.length = first.length
    · rw [dif_pos h, extendRows_eq h (Nat.zero_le _), andThen_bind_ok]
      exact follows_new rfl rfl rfl
    · rw [dif_neg h]
      rcases extendRows_ragged 0 [] h with ⟨f, hf⟩ | heq
      · rw [hf]
        exact .fault
      · rw [heq, andThen_refused, Nat.zero_add]
        exact .refused

/-- **The rows of a matrix are kept without a fault** when memory can hold them. -/
theorem ofRows_store (h : m.Fits) : Store.ofRows b m.rows = .ok (.ok m.store) := by
  have hlength := m.length_of_mem
  have hne := m.rows_ne_nil
  have hfits : m.rows.length * m.cols ≤ capacity := h
  cases hrows : m.rows with
  | nil => exact absurd hrows hne
  | cons first rest =>
    rw [hrows] at hlength hfits
    have hfirst : first.length = m.cols := hlength first List.mem_cons_self
    have hzero : first.length ≠ 0 := hfirst.symm ▸ Nat.ne_of_gt m.cols_pos
    rw [Store.ofRows, if_neg hzero, hfirst, word_of_le_capacity hfits, ok_bind,
      reserve_of_le hfits, ok_bind, extendRows_eq hlength (Nat.zero_le _), andThen_bind_ok]
    exact new_store h (congrArg List.length hrows.symm) rfl (congrArg List.flatten hrows.symm)

/-- **Zeros are kept.** -/
theorem follows_zeros [Zero α] (rows cols : ℕ) :
    Follows store Fits (Store.zeros rows cols : Run (Except Refusal (Store α)))
      (zeros rows cols) := by
  rw [Store.zeros, zeros]
  by_cases hzero : rows = 0 ∨ cols = 0
  · rw [if_pos hzero, dif_pos hzero]
    exact .refused
  rw [if_neg hzero, dif_neg hzero]
  by_cases hhuge : wordSize ≤ rows * cols
  · rw [if_pos hhuge, if_pos (c := entryLimit ≤ rows * cols) hhuge]
    exact .refused
  rw [if_neg hhuge, if_neg (c := entryLimit ≤ rows * cols) hhuge]
  refine .bind fun _ hreserve => ?_
  have hfits : rows * cols ≤ capacity := le_of_reserve_eq_ok hreserve
  refine .inr ⟨?_, fun v hv => ?_⟩
  · simp [store, height, Except.map]
    rfl
  · cases hv
    simpa [Fits, height] using hfits

/-! ## Entry by entry -/

theorem zipWith_flatten (f : α → α → α) {c : ℕ} : ∀ {rows rows' : List (List α)},
    (∀ r ∈ rows, r.length = c) → (∀ r ∈ rows', r.length = c) →
      List.zipWith f rows.flatten rows'.flatten =
        (List.zipWith (List.zipWith f) rows rows').flatten
  | [], _, _, _ => rfl
  | r :: rows, [], _, _ => by simp
  | r :: rows, r' :: rows', h, h' => by
    obtain ⟨hr, hrows⟩ := List.forall_mem_cons.1 h
    obtain ⟨hr', hrows'⟩ := List.forall_mem_cons.1 h'
    rw [List.flatten_cons, List.flatten_cons, List.zipWith_append (hr.trans hr'.symm),
      zipWith_flatten f hrows hrows']
    rfl

/-- **Two matrices are combined** entry by entry. -/
theorem follows_zipWith (f : α → α → α) (m n : Matrix α) :
    Follows store Fits (Store.zipWith f m.store n.store) (zipWith f m n) := by
  rw [Store.zipWith, zipWith]
  by_cases hsize : m.height = n.height ∧ m.cols = n.cols
  · have hsize' : ¬ (m.store.rows ≠ n.store.rows ∨ m.store.cols ≠ n.store.cols) := by
      rw [rows_store, rows_store, cols_store, cols_store]
      omega
    rw [if_neg hsize', dif_pos hsize]
    refine follows_new ?_ rfl ?_
    · have hheight := hsize.1
      simp only [height] at hheight
      simp [height, hheight]
    · exact zipWith_flatten f m.length_of_mem fun r hr =>
        (n.length_of_mem r hr).trans hsize.2.symm
  · have hsize' : m.store.rows ≠ n.store.rows ∨ m.store.cols ≠ n.store.cols := by
      rw [rows_store, rows_store, cols_store, cols_store]
      omega
    rw [if_pos hsize', dif_neg hsize]
    exact .refused

end Matrix

/-! ## Entries that are changed -/

namespace Matrix

variable {α : Type} {m n : Matrix α} {i j i' j' : ℕ} {v : α}

theorem set_eq_ok_iff : (∃ n, m.set i j v = .ok n) ↔ i < m.height ∧ j < m.cols := by
  rw [set]
  split
  · rename_i h
    exact iff_of_true ⟨_, rfl⟩ h
  · rename_i h
    refine iff_of_false ?_ h
    rintro ⟨n, hn⟩
    cases hn

/-- A changed matrix has the same shape. -/
theorem rows_of_set (h : m.set i j v = .ok n) :
    n.rows = m.rows.modify i (·.set j v) ∧ n.height = m.height ∧ n.cols = m.cols := by
  rw [set] at h
  split at h
  · cases h
    exact ⟨rfl, by simp [height], rfl⟩
  · cases h

/-- **The changed entry.** -/
theorem get_set_self (h : m.set i j v = .ok n) : n.get i j = .ok v := by
  obtain ⟨hi, hj⟩ := set_eq_ok_iff.1 ⟨n, h⟩
  obtain ⟨hrows, -⟩ := rows_of_set h
  have hrow : j < m.rows[i].length := (length_getElem hi).symm ▸ hj
  rw [get, hrows, List.getElem?_modify_eq, List.getElem?_eq_getElem hi]
  simp [hrow]

/-- **The other entries.** -/
theorem get_set_of_ne (h : m.set i j v = .ok n) (hne : (i', j') ≠ (i, j)) :
    n.get i' j' = m.get i' j' := by
  obtain ⟨hrows, hheight, hcols⟩ := rows_of_set h
  have hentry : (m.rows.modify i (·.set j v))[i']?.bind (·[j']?) = m.rows[i']?.bind (·[j']?) := by
    by_cases hi : i = i'
    · subst hi
      have hj : j ≠ j' := fun hj => hne (by rw [hj])
      rw [List.getElem?_modify_eq]
      cases m.rows[i]? with
      | none => rfl
      | some r => exact List.getElem?_set_ne hj
    · simp [hi]
  rw [get, get, hrows, hentry, refuseEntry, refuseEntry, hheight, hcols]

/-- Memory can hold the changed matrix. -/
theorem fits_of_set (h : m.Fits) (hn : m.set i j v = .ok n) : n.Fits := by
  obtain ⟨-, hheight, hcols⟩ := rows_of_set hn
  rw [Fits, hheight, hcols]
  exact h

theorem fits_transpose [Scalar α] (h : m.Fits) : m.transpose.Fits := by
  have hheight : m.transpose.height = m.cols := by simp [transpose, height]
  rw [Fits, hheight, Nat.mul_comm]
  exact h

/-- **An entry is changed.** -/
theorem follows_set {b : Build} (h : m.Fits) (i j : ℕ) (v : α) :
    Follows store Fits (m.store.set b i j v) (m.set i j v) :=
  .inr ⟨set_store h i j v, fun _ => fits_of_set h⟩

theorem get_eq_ok_iff : (∃ v, m.get i j = .ok v) ↔ i < m.height ∧ j < m.cols := by
  rw [get]
  constructor
  · rintro ⟨v, hv⟩
    by_contra hout
    rw [getElem?_rows_of_not_lt hout] at hv
    cases hv
  · rintro ⟨hi, hj⟩
    obtain ⟨v, hv⟩ := getElem?_rows hi hj
    exact ⟨v, by rw [hv]⟩

theorem row_eq_ok_iff : (∃ r, m.row i = .ok r) ↔ i < m.height := by
  rw [row]
  constructor
  · rintro ⟨r, hr⟩
    by_contra hout
    rw [List.getElem?_eq_none (Nat.le_of_not_lt hout)] at hr
    cases hr
  · intro hi
    exact ⟨_, by rw [List.getElem?_eq_getElem hi]⟩

theorem column_eq_ok_iff [Scalar α] : (∃ c, m.column j = .ok c) ↔ j < m.cols := by
  rw [column]
  split
  · rename_i h
    exact iff_of_true ⟨_, rfl⟩ h
  · rename_i h
    refine iff_of_false ?_ h
    rintro ⟨n, hn⟩
    cases hn

end Matrix

end Milp
