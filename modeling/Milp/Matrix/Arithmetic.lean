import Milp.Matrix.Lines
/-!
# Matrix arithmetic

Entry by entry operations, the product, and the inner product. The order of
the additions is part of each definition: it decides how doubles round.
-/

namespace Milp

namespace Matrix

variable {α : Type} [Scalar α]

/-- Refuses two matrices that do not fit together. -/
def refuseSizes (m n : Matrix α) : Refusal :=
  .sizeMismatch m.height m.cols n.height n.cols

omit [Scalar α] in
/-- Two matrices of one height are combined into one with a row. -/
theorem rows_ne_nil_of_zipWith (f : α → α → α) {m n : Matrix α} (h : m.height = n.height) :
    List.zipWith (List.zipWith f) m.rows n.rows ≠ [] := by
  have hpos := m.height_pos
  intro hnil
  have hlen := congrArg List.length hnil
  rw [List.length_zipWith, List.length_nil] at hlen
  unfold height at h hpos
  omega

omit [Scalar α] in
/-- Two matrices of one width are combined into one of that width. -/
theorem length_of_mem_zipWith (f : α → α → α) {m n : Matrix α} (h : m.cols = n.cols)
    {r : List α} (hr : r ∈ List.zipWith (List.zipWith f) m.rows n.rows) : r.length = m.cols := by
  obtain ⟨i, hi, rfl⟩ := List.mem_iff_getElem.1 hr
  rw [List.length_zipWith] at hi
  rw [List.getElem_zipWith, List.length_zipWith,
    m.length_of_mem _ (List.getElem_mem (by omega)),
    n.length_of_mem _ (List.getElem_mem (by omega)), h, Nat.min_self]

/-- Combines two matrices of one shape entry by entry. -/
def zipWith (f : α → α → α) (m n : Matrix α) : Except Refusal (Matrix α) :=
  if h : m.height = n.height ∧ m.cols = n.cols then .ok {
    rows := List.zipWith (List.zipWith f) m.rows n.rows
    cols := m.cols
    rows_ne_nil := rows_ne_nil_of_zipWith f h.1
    cols_pos := m.cols_pos
    length_of_mem := fun _ => length_of_mem_zipWith f h.2 }
  else .error (m.refuseSizes n)

/-- The sum. -/
def plus (m n : Matrix α) : Except Refusal (Matrix α) := zipWith (· + ·) m n

/-- The difference. -/
def minus (m n : Matrix α) : Except Refusal (Matrix α) := zipWith (· - ·) m n

/-- The product of corresponding entries. -/
def timesEntrywise (m n : Matrix α) : Except Refusal (Matrix α) := zipWith (· * ·) m n

/-- **The inner product** of an `r × c` and a `c × r` matrix, as a matrix
with one entry: the sum of `m i j * n j i`, row by row of `m`. -/
def dot (m n : Matrix α) : Except Refusal (Matrix α) :=
  if m.cols = n.height ∧ m.height = n.cols then
    let products := List.zipWith (List.zipWith (· * ·)) m.rows n.transpose.rows
    ofVector [products.flatten.foldl (· + ·) 0]
  else .error (m.refuseSizes n)

/-- Adds `a` times a row to a row of sums. -/
def accumulate (sums : List α) (a : α) (row : List α) : List α :=
  List.zipWith (fun s b => s + a * b) sums row

/-- One row of a product: the rows of the second matrix, each times the
entry of the first that meets it, added up from zero in their order. -/
def productRow (n : Matrix α) (entries : List α) : List α :=
  (entries.zip n.rows).foldl (fun sums p => accumulate sums p.1 p.2) (List.replicate n.cols 0)

/-- Adding rows of one length to a row of sums keeps its length. -/
theorem length_foldl_accumulate {c : Nat} :
    ∀ (ps : List (α × List α)) (sums : List α), sums.length = c →
      (∀ p ∈ ps, p.2.length = c) →
      (ps.foldl (fun sums p => accumulate sums p.1 p.2) sums).length = c
  | [], _, h, _ => h
  | p :: ps, sums, h, hp => by
    refine length_foldl_accumulate ps _ ?_ fun q hq => hp q (List.mem_cons_of_mem _ hq)
    simp [accumulate, h, hp p List.mem_cons_self]

/-- A row of a product is as long as the rows of the second matrix. -/
theorem length_productRow (n : Matrix α) (entries : List α) :
    (productRow n entries).length = n.cols :=
  length_foldl_accumulate _ _ (by simp) fun _ hp => n.length_of_mem _ (List.of_mem_zip hp).2

/-- The matrix product. -/
def multiply (m n : Matrix α) : Except Refusal (Matrix α) :=
  if m.cols = n.height then .ok {
    rows := m.rows.map (productRow n)
    cols := n.cols
    rows_ne_nil := by simpa using m.rows_ne_nil
    cols_pos := n.cols_pos
    length_of_mem := by
      intro r hr
      obtain ⟨entries, -, rfl⟩ := List.mem_map.1 hr
      exact length_productRow n entries }
  else .error (m.refuseSizes n)

end Matrix

end Milp
