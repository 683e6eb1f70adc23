import Milp.Proofs.Matrix.Entries
import Milp.Proofs.Number.Exact
import Milp.Proofs.Problem.Drafts
import Milp.Proofs.Storage.Products
/-!
# The product by its entries

A row of the product is made from the rows of the second matrix, each added to
all the sums at once. Every single sum is added up in one order all the same,
that of the definition (`productRow_eq`), so the product is known entry by entry
without any law of arithmetic (`multiply_eq_ok_iff`). Where multiplication is
commutative the transpose exchanges the factors (`multiply_transpose`).

With exact numbers an entry is a sum (`productEntry_rat`). Exchanging two sums
makes the product associative (`multiply_assoc`), and makes the inner product
the trace of the product in either order (`rows_dot_eq_trace`).
-/

namespace Milp

open Storage

namespace Matrix

variable {α : Type} [Scalar α] {m n p : Matrix α} {i j : ℕ}

/-! ## Entries -/

/-- **An entry of the product**: the products along a row and a column, added up
from zero in their order. -/
def productEntry (m n : Matrix α) (i j : ℕ) : α :=
  (List.range m.cols).foldl (fun sum k => sum + m.entry i k * n.entry k j) 0

/-- **One of the sums** that rows are added to. -/
theorem getElem?_foldl_accumulate {c : ℕ} (hj : j < c) :
    ∀ {ps : List (α × List α)} {sums : List α} {s : α}, (∀ p ∈ ps, p.2.length = c) →
      sums[j]? = some s →
      (ps.foldl (fun sums p => accumulate sums p.1 p.2) sums)[j]? =
        some (ps.foldl (fun s p => s + p.1 * p.2.getD j 0) s) := by
  intro ps
  induction ps with
  | nil => exact fun _ hs => hs
  | cons p ps ih =>
    intro sums s hps hs
    obtain ⟨hp, hps⟩ := List.forall_mem_cons.1 hps
    have hlt : j < p.2.length := hp.symm ▸ hj
    have hnext : (accumulate sums p.1 p.2)[j]? = some (s + p.1 * p.2.getD j 0) := by
      rw [accumulate, List.getElem?_zipWith, hs, List.getElem?_eq_getElem hlt,
        List.getD_eq_getElem _ _ hlt]
    exact ih hps hnext

/-- The entries of a row, each with the row of the second matrix that it meets. -/
theorem zip_rows_eq (hcols : m.cols = n.height) (hi : i < m.height) :
    m.rows[i].zip n.rows = (List.range m.cols).map fun k => (m.entry i k, n.rows.getD k []) := by
  refine List.ext_getElem ?_ fun k hk _ => ?_
  · rw [List.length_zip, length_getElem hi, List.length_map, List.length_range, hcols]
    exact Nat.min_self _
  · have hk' : k < m.rows[i].length ∧ k < n.height := by simpa [height] using hk
    rw [List.getElem_zip, List.getElem_map, List.getElem_range, getD_rows hk'.2, entry,
      getD_rows hi, List.getD_eq_getElem _ _ hk'.1]
    rfl

/-- **A row of the product** is made of sums in the order of the definition. -/
theorem productRow_eq (hcols : m.cols = n.height) (hi : i < m.height) :
    productRow n m.rows[i] = (List.range n.cols).map (m.productEntry n i) := by
  refine List.ext_getElem? fun j => ?_
  by_cases hj : j < n.cols
  · have hlength : ∀ p ∈ m.rows[i].zip n.rows, p.2.length = n.cols := fun p hp =>
      n.length_of_mem _ (List.of_mem_zip hp).2
    have hzero : (List.replicate n.cols (0 : α))[j]? = some 0 := by
      rw [List.getElem?_replicate, if_pos hj]
    rw [productRow, getElem?_foldl_accumulate hj hlength hzero, zip_rows_eq hcols hi,
      List.foldl_map, List.getElem?_map, List.getElem?_range hj]
    rfl
  · have hlt : n.cols ≤ j := Nat.le_of_not_lt hj
    rw [List.getElem?_eq_none (by rwa [length_productRow]),
      List.getElem?_eq_none (by rwa [List.length_map, List.length_range])]

/-! ## The product -/

/-- **The product of two matrices**, by its shape and its entries. -/
structure IsProduct (m n p : Matrix α) : Prop where
  /-- A row of the first meets a column of the second. -/
  fits : m.cols = n.height
  /-- The product has the rows of the first. -/
  height_eq : p.height = m.height
  /-- The product has the columns of the second. -/
  cols_eq : p.cols = n.cols
  /-- Each entry is that of the definition. -/
  entry_eq : ∀ i < m.height, ∀ j < n.cols, p.entry i j = m.productEntry n i j

/-- There is one product. -/
theorem IsProduct.unique {p' : Matrix α} (h : IsProduct m n p) (h' : IsProduct m n p') :
    p = p' := by
  refine ext_entries (h.height_eq.trans h'.height_eq.symm) (h.cols_eq.trans h'.cols_eq.symm) ?_
  intro i hi j hj
  rw [h.height_eq] at hi
  rw [h.cols_eq] at hj
  rw [h.entry_eq i hi j hj, h'.entry_eq i hi j hj]

/-- **Matrices that fit have a product.** -/
theorem exists_multiply (hcols : m.cols = n.height) :
    ∃ p, m.multiply n = .ok p ∧ IsProduct m n p := by
  refine ⟨_, if_pos hcols, hcols, List.length_map _, rfl, fun i hi j hj => ?_⟩
  refine entry_of_rows (h := m.height) (w := n.cols) ?_ hi hj
  refine List.ext_getElem (by simp [height]) fun i hi _ => ?_
  have hi : i < m.height := by simpa [height] using hi
  rw [List.getElem_map, List.getElem_map, List.getElem_range]
  exact productRow_eq hcols hi

/-- **Matrices that fit** have a product, and no others. -/
theorem exists_multiply_iff : (∃ p, m.multiply n = .ok p) ↔ m.cols = n.height := by
  refine ⟨fun ⟨p, hp⟩ => ?_, fun hcols => (exists_multiply hcols).imp fun _ h => h.1⟩
  by_contra hcols
  rw [multiply, if_neg hcols] at hp
  cases hp

/-- **What multiplication gives** is the product. -/
theorem multiply_eq_ok_iff : m.multiply n = .ok p ↔ IsProduct m n p := by
  constructor
  · intro h
    obtain ⟨p', hp', hproduct⟩ := exists_multiply (exists_multiply_iff.1 ⟨p, h⟩)
    rw [hp'] at h
    exact Except.ok.inj h ▸ hproduct
  · intro h
    obtain ⟨p', hp', hproduct⟩ := exists_multiply h.fits
    rw [hp', h.unique hproduct]

/-- **The transpose exchanges the factors** where multiplication is commutative. -/
theorem multiply_transpose (hcomm : ∀ a b : α, a * b = b * a) :
    m.multiply n = .ok p ↔ n.transpose.multiply m.transpose = .ok p.transpose := by
  have key : ∀ {m n p : Matrix α}, IsProduct m n p →
      IsProduct n.transpose m.transpose p.transpose := by
    intro m n p h
    refine ⟨?_, ?_, ?_, fun j hj i hi => ?_⟩
    · rw [cols_transpose, height_transpose, h.fits]
    · rw [height_transpose, height_transpose, h.cols_eq]
    · rw [cols_transpose, cols_transpose, h.height_eq]
    · rw [height_transpose] at hj
      rw [cols_transpose] at hi
      rw [entry_transpose (h.height_eq.symm ▸ hi) (h.cols_eq.symm ▸ hj), h.entry_eq i hi j hj,
        productEntry, productEntry, cols_transpose, h.fits]
      refine List.foldl_ext _ _ _ fun sum k hk => ?_
      have hk : k < n.height := List.mem_range.1 hk
      rw [entry_transpose hk hj, entry_transpose hi (h.fits.symm ▸ hk), hcomm]
  rw [multiply_eq_ok_iff, multiply_eq_ok_iff]
  refine ⟨key, fun h => ?_⟩
  have hback := key h
  rwa [transpose_transpose, transpose_transpose, transpose_transpose] at hback

/-! ## The inner product -/

/-- **The inner product of two matrices**: the products along each row of the
first and the column of the second, all added up from zero in their order. -/
def innerProduct (m n : Matrix α) : α :=
  (List.range m.height).foldl (fun sum i =>
    (List.range m.cols).foldl (fun sum k => sum + m.entry i k * n.entry k i) sum) 0

/-- **What the inner product gives** is one entry. -/
theorem dot_eq_ok_iff :
    m.dot n = .ok p ↔ (m.cols = n.height ∧ m.height = n.cols) ∧
      p.rows = [[m.innerProduct n]] := by
  have hproducts (hsize : m.cols = n.height ∧ m.height = n.cols) :
      (List.zipWith (List.zipWith (· * ·)) m.rows n.transpose.rows).flatten.foldl (· + ·) 0 =
        m.innerProduct n := by
    rw [rows_eq m, rows_transpose n, ← hsize.1, ← hsize.2, List.zipWith_map, List.zipWith_self,
      List.foldl_flatten, List.foldl_map]
    simp only [List.zipWith_map, List.zipWith_self, List.foldl_map]
    rfl
  rw [dot]
  split
  · rename_i hsize
    dsimp only
    rw [hproducts hsize, ofVector_eq_ok_iff]
    exact ⟨fun h => ⟨hsize, h.2⟩, fun h => ⟨List.cons_ne_nil _ _, h.2⟩⟩
  · rename_i hsize
    simp [hsize]

/-! ## Exact numbers -/

section Exact

variable {a b c p q r d : Matrix ℚ} {i j : ℕ}

/-- Terms added one after the other are a sum. -/
theorem foldl_add_eq_sum (f : ℕ → ℚ) (s : ℚ) (n : ℕ) :
    (List.range n).foldl (fun s k => s + f k) s = s + ∑ k ∈ Finset.range n, f k := by
  induction n with
  | zero => simp
  | succ n ih =>
    rw [List.range_succ, List.foldl_append, ih, Finset.sum_range_succ, ← add_assoc]
    rfl

/-- **An entry of an exact product** is a sum. -/
theorem productEntry_rat (a b : Matrix ℚ) (i j : ℕ) :
    a.productEntry b i j = ∑ k ∈ Finset.range a.cols, a.entry i k * b.entry k j :=
  (foldl_add_eq_sum (fun k => a.entry i k * b.entry k j) 0 a.cols).trans (zero_add _)

/-- **The entries of a product of three**, in either order. -/
theorem productEntry_assoc (hq : IsProduct a b q) (hr : IsProduct b c r) (hi : i < a.height)
    (hj : j < c.cols) : q.productEntry c i j = a.productEntry r i j := by
  rw [productEntry_rat, productEntry_rat]
  calc ∑ k ∈ Finset.range q.cols, q.entry i k * c.entry k j
      = ∑ k ∈ Finset.range b.cols, (∑ l ∈ Finset.range a.cols, a.entry i l * b.entry l k) *
          c.entry k j := by
        rw [hq.cols_eq]
        refine Finset.sum_congr rfl fun k hk => ?_
        rw [hq.entry_eq i hi k (Finset.mem_range.1 hk), productEntry_rat]
    _ = ∑ l ∈ Finset.range a.cols, ∑ k ∈ Finset.range b.cols,
          a.entry i l * (b.entry l k * c.entry k j) := by
        simp only [Finset.sum_mul, mul_assoc]
        exact Finset.sum_comm
    _ = ∑ l ∈ Finset.range a.cols, a.entry i l * r.entry l j := by
        refine Finset.sum_congr rfl fun l hl => ?_
        have hl : l < b.height := hq.fits ▸ Finset.mem_range.1 hl
        rw [hr.entry_eq l hl j hj, productEntry_rat, Finset.mul_sum]

/-- **The product is associative**: one side fails where the other does. -/
theorem multiply_assoc :
    (a.multiply b >>= (·.multiply c)) = .ok p ↔ (b.multiply c >>= a.multiply) = .ok p := by
  simp only [Problem.bind_eq_ok_iff, multiply_eq_ok_iff]
  constructor
  · rintro ⟨q, hq, hp⟩
    obtain ⟨r, -, hr⟩ := exists_multiply (hq.cols_eq.symm.trans hp.fits)
    refine ⟨r, hr, hq.fits.trans hr.height_eq.symm, hp.height_eq.trans hq.height_eq,
      hp.cols_eq.trans hr.cols_eq.symm, fun i hi j hj => ?_⟩
    rw [hr.cols_eq] at hj
    rw [hp.entry_eq i (hq.height_eq.symm ▸ hi) j hj, productEntry_assoc hq hr hi hj]
  · rintro ⟨r, hr, hp⟩
    obtain ⟨q, -, hq⟩ := exists_multiply (hp.fits.trans hr.height_eq)
    refine ⟨q, hq, hq.cols_eq.trans hr.fits, hp.height_eq.trans hq.height_eq.symm,
      hp.cols_eq.trans hr.cols_eq, fun i hi j hj => ?_⟩
    rw [hq.height_eq] at hi
    rw [hp.entry_eq i hi j (hr.cols_eq.symm ▸ hj), productEntry_assoc hq hr hi hj]

/-- The sum of the entries on the diagonal. -/
def trace (a : Matrix ℚ) : ℚ := ∑ i ∈ Finset.range a.height, a.entry i i

/-- **The inner product of exact matrices** is a sum of sums. -/
theorem innerProduct_rat (a b : Matrix ℚ) :
    a.innerProduct b =
      ∑ i ∈ Finset.range a.height, ∑ k ∈ Finset.range a.cols, a.entry i k * b.entry k i := by
  have hrow : ∀ (s : ℚ) (i : ℕ), (List.range a.cols).foldl
      (fun s k => s + a.entry i k * b.entry k i) s =
        s + ∑ k ∈ Finset.range a.cols, a.entry i k * b.entry k i :=
    fun s i => foldl_add_eq_sum (fun k => a.entry i k * b.entry k i) s a.cols
  calc a.innerProduct b
      = (List.range a.height).foldl
          (fun s i => s + ∑ k ∈ Finset.range a.cols, a.entry i k * b.entry k i) 0 :=
        List.foldl_ext _ _ _ fun s i _ => hrow s i
    _ = _ := (foldl_add_eq_sum _ 0 a.height).trans (zero_add _)

/-- **The inner product is the trace** of the product. -/
theorem innerProduct_eq_trace (hp : IsProduct a b p) (hheight : a.height = b.cols) :
    a.innerProduct b = p.trace := by
  rw [innerProduct_rat, trace, hp.height_eq]
  refine Finset.sum_congr rfl fun i hi => ?_
  have hi := Finset.mem_range.1 hi
  rw [hp.entry_eq i hi i (hheight ▸ hi), productEntry_rat]

/-- **The inner product of exact matrices is symmetric.** -/
theorem innerProduct_comm (hcols : a.cols = b.height) (hheight : a.height = b.cols) :
    a.innerProduct b = b.innerProduct a := by
  rw [innerProduct_rat, innerProduct_rat, ← hcols, ← hheight, Finset.sum_comm]
  simp only [mul_comm]

theorem dot_comm : a.dot b = .ok d ↔ b.dot a = .ok d := by
  rw [dot_eq_ok_iff, dot_eq_ok_iff]
  constructor
  · rintro ⟨⟨hcols, hheight⟩, hd⟩
    exact ⟨⟨hheight.symm, hcols.symm⟩, innerProduct_comm hcols hheight ▸ hd⟩
  · rintro ⟨⟨hcols, hheight⟩, hd⟩
    exact ⟨⟨hheight.symm, hcols.symm⟩, innerProduct_comm hcols hheight ▸ hd⟩

/-- **There is an inner product** where there is a product in either order. -/
theorem exists_dot_iff :
    (∃ d, a.dot b = .ok d) ↔ (∃ p, a.multiply b = .ok p) ∧ ∃ q, b.multiply a = .ok q := by
  rw [exists_multiply_iff, exists_multiply_iff]
  constructor
  · rintro ⟨d, hd⟩
    obtain ⟨⟨hcols, hheight⟩, -⟩ := dot_eq_ok_iff.1 hd
    exact ⟨hcols, hheight.symm⟩
  · rintro ⟨hcols, hheight⟩
    exact ⟨_, if_pos ⟨hcols, hheight.symm⟩⟩

/-- **The inner product holds the trace** of the product in either order. -/
theorem rows_dot_eq_trace (hd : a.dot b = .ok d) (hp : a.multiply b = .ok p)
    (hq : b.multiply a = .ok q) : d.rows = [[p.trace]] ∧ d.rows = [[q.trace]] := by
  obtain ⟨⟨hcols, hheight⟩, hrows⟩ := dot_eq_ok_iff.1 hd
  rw [hrows, innerProduct_eq_trace (multiply_eq_ok_iff.1 hp) hheight]
  refine ⟨rfl, ?_⟩
  rw [← innerProduct_eq_trace (multiply_eq_ok_iff.1 hp) hheight, innerProduct_comm hcols hheight,
    innerProduct_eq_trace (multiply_eq_ok_iff.1 hq) hcols.symm]

end Exact

/-! ## Products -/

/-- **The vector of a stored product** has the entries of the definition, row
after row. -/
theorem getElem?_data_multiply {b : Build} {s : Store α} (hm : m.Fits) (hn : n.Fits)
    (hs : m.store.multiply b n.store = .ok (.ok s)) (hi : i < m.height) (hj : j < n.cols) :
    s.data[i * n.cols + j]? = some (m.productEntry n i j) := by
  obtain ⟨p, hp, -, rfl⟩ := (follows_multiply hm hn).exists_eq hs
  have hproduct := multiply_eq_ok_iff.1 hp
  have hip : i < p.height := hproduct.height_eq.symm ▸ hi
  have hjp : j < p.cols := hproduct.cols_eq.symm ▸ hj
  rw [← hproduct.cols_eq, ← hproduct.entry_eq i hi j hj]
  exact (getElem?_flatten p.length_of_mem hjp).trans (getElem?_rows_eq_entry hip hjp)

/-- **What a build does with two matrices** that are kept gives their products. -/
structure ProductsKept (b : Build) (m n : Matrix α) : Prop where
  /-- The inner product. -/
  dot : m.store.dot b n.store = .ok ((m.dot n).map store)
  /-- A product that memory has room for. -/
  multiply : m.height * n.cols ≤ capacity →
    m.store.multiply b n.store = .ok ((m.multiply n).map store)
  /-- The entries of the product, where they are kept. -/
  data : ∀ s, m.store.multiply b n.store = .ok (.ok s) → ∀ i < m.height, ∀ j < n.cols,
    s.data[i * n.cols + j]? = some (m.productEntry n i j)

theorem productsKept (b : Build) (hm : m.Fits) (hn : n.Fits) : ProductsKept b m n where
  dot := dot_store hm hn
  multiply := multiply_store hm hn
  data := fun _ hs _ hi _ hj => getElem?_data_multiply hm hn hs hi hj

/-- **The product agrees with its definition**, with any addition and any
multiplication, and the transpose exchanges its factors where multiplication is
commutative. With exact numbers the product is associative, and the inner
product is the trace of the product in either order. -/
theorem product_laws :
    (∀ {α : Type} [Scalar α] (m n : Matrix α),
      ((∃ p, m.multiply n = .ok p) ↔ m.cols = n.height) ∧
      (∀ p, m.multiply n = .ok p → p.height = m.height ∧ p.cols = n.cols ∧
        ∀ i < m.height, ∀ j < n.cols, p.get i j = .ok (m.productEntry n i j)) ∧
      (∀ b, m.Fits → n.Fits → ProductsKept b m n) ∧
      ((∀ x y : α, x * y = y * x) → ∀ p,
        m.multiply n = .ok p ↔ n.transpose.multiply m.transpose = .ok p.transpose)) ∧
    ∀ a b : Matrix ℚ,
      (∀ c p, (a.multiply b >>= (·.multiply c)) = .ok p ↔
        (b.multiply c >>= a.multiply) = .ok p) ∧
      ((∃ d, a.dot b = .ok d) ↔ (∃ p, a.multiply b = .ok p) ∧ ∃ q, b.multiply a = .ok q) ∧
      (∀ d p q, a.dot b = .ok d → a.multiply b = .ok p → b.multiply a = .ok q →
        d.rows = [[p.trace]] ∧ d.rows = [[q.trace]]) ∧
      ∀ d, a.dot b = .ok d ↔ b.dot a = .ok d := by
  refine ⟨fun m n => ⟨?_, fun p hp => ?_, fun b hm hn => productsKept b hm hn, fun hcomm p =>
    multiply_transpose hcomm⟩, fun a b => ⟨fun c p => multiply_assoc, exists_dot_iff,
    fun d p q => rows_dot_eq_trace, fun d => dot_comm⟩⟩
  · exact exists_multiply_iff
  · have hproduct := multiply_eq_ok_iff.1 hp
    refine ⟨hproduct.height_eq, hproduct.cols_eq, fun i hi j hj => ?_⟩
    rw [get_eq_entry (hproduct.height_eq.symm ▸ hi) (hproduct.cols_eq.symm ▸ hj),
      hproduct.entry_eq i hi j hj]

/-- A row of two entries. -/
def onePair : Matrix ℚ where
  rows := [[1, 2]]
  cols := 2
  rows_ne_nil := nofun
  cols_pos := Nat.two_pos
  length_of_mem := by decide

/-- The product of a row and its transpose. -/
def pairProduct : Matrix ℚ where
  rows := [[5]]
  cols := 1
  rows_ne_nil := nofun
  cols_pos := Nat.one_pos
  length_of_mem := by decide

theorem product_laws_onePair :
    onePair.multiply onePair.transpose = .ok pairProduct ∧
    pairProduct.get 0 0 = .ok (onePair.productEntry onePair.transpose 0 0) ∧
    onePair.transpose.transpose.multiply onePair.transpose = .ok pairProduct.transpose ∧
    onePair.store.multiply .release onePair.transpose.store = .ok (.ok pairProduct.store) ∧
    ∃ d, onePair.dot onePair.transpose = .ok d ∧ d.rows = [[pairProduct.trace]] := by
  have hproduct : onePair.multiply onePair.transpose = .ok pairProduct :=
    (if_pos rfl).trans (congrArg Except.ok (ext_rows (by decide +kernel)))
  have hsmall : 1 * 2 ≤ capacity ∧ 2 * 1 ≤ capacity ∧ 1 * 1 ≤ capacity := by decide
  obtain ⟨hsome, hexact⟩ := product_laws
  obtain ⟨-, hentry, hkept, htranspose⟩ := hsome onePair onePair.transpose
  obtain ⟨-, hdot, htrace, -⟩ := hexact onePair onePair.transpose
  obtain ⟨q, hq⟩ : ∃ q, onePair.transpose.multiply onePair = .ok q := ⟨_, if_pos rfl⟩
  obtain ⟨d, hd⟩ := hdot.2 ⟨⟨pairProduct, hproduct⟩, q, hq⟩
  refine ⟨hproduct, (hentry pairProduct hproduct).2.2 0 Nat.one_pos 0 Nat.one_pos,
    (htranspose Rat.mul_comm pairProduct).1 hproduct, ?_, d, hd, (htrace d pairProduct q hd hproduct hq).1⟩
  rw [(hkept .release hsmall.1 hsmall.2.1).multiply hsmall.2.2, hproduct]
  rfl

end Matrix

end Milp
