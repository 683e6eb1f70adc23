import Milp.Proofs.Storage.Matrices
/-!
# Products of stored matrices

The loops of the two products keep the products of matrices. The inner product
adds to one number (`follows_dot`). The matrix product adds multiples of rows to
one row of sums after the other, all in one vector (`follows_multiply`). Where
its size is no word, the vector is too short and the loops end with a fault.
-/

namespace Milp

open Storage

namespace Matrix

variable {α : Type} [Scalar α] {m n : Matrix α} {b : Build} {i j k : ℕ}

/-! ## Entries -/

/-- An entry as it is kept. -/
theorem read_store (hi : i < m.height) (hj : j < m.cols) :
    read m.store.data (i * m.cols + j) = .ok (m.rows[i].getD j 0) := by
  have hrow : j < m.rows[i].length := (length_getElem hi).symm ▸ hj
  refine read_of_getElem? ((getElem?_flatten m.length_of_mem hj).trans ?_)
  rw [List.getElem?_eq_getElem hi, Option.bind_some, List.getD_eq_getElem?_getD,
    List.getElem?_eq_getElem hrow, Option.getD_some]

theorem getD_of_lt (hi : i < m.height) (hj : j < m.rows[i].length) :
    m.rows[i].getD j 0 = m.rows[i][j] := by
  rw [List.getD_eq_getElem?_getD, List.getElem?_eq_getElem hj, Option.getD_some]

/-! ## The inner product -/

/-- **One row of the inner product** is added to what was added before. -/
theorem dot_row (hm : m.Fits) (hn : n.Fits) (hcols : m.cols = n.height) (hrows : m.height = n.cols)
    (hi : i < m.height) (value : α) :
    (List.range m.cols).foldlM (fun value j => do
      let v ← read m.store.data (← m.store.place b i j)
      let w ← read n.store.data (← n.store.place b j i)
      pure (value + v * w)) value =
    .ok ((List.zipWith (· * ·) m.rows[i] (n.columnAt i)).foldl (· + ·) value) := by
  have hlength : (List.zipWith (· * ·) m.rows[i] (n.columnAt i)).length = m.cols := by
    rw [List.length_zipWith, length_getElem hi, length_columnAt, ← hcols, Nat.min_self]
  rw [← hlength]
  refine foldlM_range_foldl (k := id) (P := fun _ => True) (fun value _ j hj => ?_) trivial
  refine ⟨?_, trivial⟩
  have hjm : j < m.cols := hlength ▸ hj
  have hjn : j < n.height := hcols ▸ hjm
  have hin : i < n.cols := hrows ▸ hi
  have hrow : j < m.rows[i].length := (length_getElem hi).symm ▸ hjm
  rw [place_store hm hi hjm, ok_bind, read_store hi hjm, ok_bind, place_store hn hjn hin, ok_bind,
    read_store hjn hin, ok_bind, List.getElem_zipWith, getD_of_lt hi hrow]
  simp only [columnAt, List.getElem_map]
  rfl

omit [Scalar α] in
/-- A vector of one number is kept without a fault. -/
theorem ofVector_singleton_store (v : α) :
    Store.ofVector [v] = .ok ((ofVector [v]).map store) :=
  if_neg (List.cons_ne_nil v [])

/-- **The inner product is made without a fault.** -/
theorem dot_store (hm : m.Fits) (hn : n.Fits) :
    m.store.dot b n.store = .ok ((m.dot n).map store) := by
  rw [Store.dot, dot]
  by_cases hsize : m.cols = n.height ∧ m.height = n.cols
  swap
  · have hsize' : m.store.cols ≠ n.store.rows ∨ m.store.rows ≠ n.store.cols := by
      rw [rows_store, rows_store, cols_store, cols_store]
      omega
    rw [if_pos hsize', if_neg hsize]
    rfl
  have hsize' : ¬ (m.store.cols ≠ n.store.rows ∨ m.store.rows ≠ n.store.cols) := by
    rw [rows_store, rows_store, cols_store, cols_store]
    omega
  obtain ⟨hcols, hrows⟩ := hsize
  rw [if_neg hsize', if_pos ⟨hcols, hrows⟩, rows_store, cols_store]
  have hlength : (List.zipWith (List.zipWith (· * ·)) m.rows n.transpose.rows).length =
      m.height := by
    rw [List.length_zipWith, transpose, List.length_map, List.length_range, ← hrows, height,
      Nat.min_self]
  have hloop : ∀ value : α, (List.range m.height).foldlM (fun value i =>
      (List.range m.cols).foldlM (fun value j => do
        let v ← read m.store.data (← m.store.place b i j)
        let w ← read n.store.data (← n.store.place b j i)
        pure (value + v * w)) value) value =
      .ok ((List.zipWith (List.zipWith (· * ·)) m.rows n.transpose.rows).foldl
        (fun value ps => ps.foldl (· + ·) value) value) := by
    intro value
    rw [← hlength]
    refine foldlM_range_foldl (k := id) (P := fun _ => True) (fun value _ i hi => ?_) trivial
    refine ⟨?_, trivial⟩
    have him : i < m.height := hlength ▸ hi
    rw [id, dot_row hm hn hcols hrows him, List.getElem_zipWith]
    simp only [transpose, List.getElem_map, List.getElem_range]
    rfl
  rw [hloop 0, ok_bind, ← List.foldl_flatten]
  exact ofVector_singleton_store _

/-- **The inner product is kept.** -/
theorem follows_dot (hm : m.Fits) (hn : n.Fits) :
    Follows store Fits (m.store.dot b n.store) (m.dot n) := by
  refine .inr ⟨dot_store hm hn, fun d hd => ?_⟩
  rw [dot] at hd
  split at hd
  · cases hd
    exact show 1 * 1 ≤ capacity by decide
  · cases hd

/-! ## The matrix product -/

/-- **A multiple of a row is added** to a row of sums. -/
theorem addMultiple_eq {pre sums post : List α} {v : α} (hn : n.Fits) (hk : k < n.height)
    (hpre : pre.length = i * n.cols) (hsums : sums.length = n.cols)
    (hfits : (i + 1) * n.cols ≤ capacity) :
    n.store.addMultiple b i k v (pre ++ (sums ++ post)) =
      .ok (pre ++ (accumulate sums v n.rows[k] ++ post)) := by
  have hrow : n.rows[k].length = n.cols := length_getElem hk
  have hlength : (accumulate sums v n.rows[k]).length = n.cols := by
    rw [accumulate, List.length_zipWith, hsums, hrow, Nat.min_self]
  rw [Nat.succ_mul] at hfits
  -- before turn `j` the sums up to `j` are new and the others are old
  have hloop := foldlM_range_eq (n := n.cols)
    (f := fun data j => do
      let place ← n.store.place b i j
      let w ← read n.store.data (← n.store.place b k j)
      let sum ← read data place
      write data place (sum + v * w))
    (s := fun j => pre ++ ((accumulate sums v n.rows[k]).take j ++ (sums.drop j ++ post)))
    fun j hj => by
      have hjsums : j < sums.length := hsums.symm ▸ hj
      have hjrow : j < n.rows[k].length := hrow.symm ▸ hj
      have hjnew : j < (accumulate sums v n.rows[k]).length := hlength.symm ▸ hj
      have hplace : n.store.place b i j = .ok (i * n.cols + j) :=
        Store.place_eq (s := n.store) (Nat.le_trans (by rw [cols_store]; omega) hfits)
      have hfront : (pre ++ (accumulate sums v n.rows[k]).take j).length = i * n.cols + j := by
        rw [List.length_append, hpre, List.length_take]
        omega
      have hold : pre ++ ((accumulate sums v n.rows[k]).take j ++ (sums.drop j ++ post)) =
          (pre ++ (accumulate sums v n.rows[k]).take j) ++
            sums[j] :: (sums.drop (j + 1) ++ post) := by
        rw [List.drop_eq_getElem_cons hjsums, List.cons_append, List.append_assoc]
      have hread : read (pre ++ ((accumulate sums v n.rows[k]).take j ++
          (sums.drop j ++ post))) (i * n.cols + j) = .ok sums[j] := by
        refine read_of_getElem? ?_
        rw [hold, ← hfront, List.getElem?_append_right (Nat.le_refl _), Nat.sub_self]
        rfl
      rw [hplace, ok_bind, place_store hn hk hj, ok_bind, read_store hk hj, ok_bind, hread, ok_bind,
        write_of_lt (by rw [hold, List.length_append, hfront, List.length_cons]; omega), hold,
        ← hfront, List.set_append_right _ _ (Nat.le_refl _), Nat.sub_self, List.set_cons_zero,
        getD_of_lt hk hjrow, List.take_succ_eq_append_getElem hjnew]
      simp [accumulate]
  have hend : (accumulate sums v n.rows[k]).take n.cols = accumulate sums v n.rows[k] := by
    rw [← hlength, List.take_length]
  rw [← hsums, List.drop_length, List.nil_append, hsums, hend] at hloop
  exact hloop

/-- **One row of the product** takes the place of zeros. -/
theorem multiply_row {pre post : List α} (hm : m.Fits) (hn : n.Fits) (hcols : m.cols = n.height)
    (hi : i < m.height) (hpre : pre.length = i * n.cols) (hfits : (i + 1) * n.cols ≤ capacity) :
    (List.range m.cols).foldlM (fun data k => do
      let v ← read m.store.data (← m.store.place b i k)
      n.store.addMultiple b i k v data) (pre ++ (List.replicate n.cols 0 ++ post)) =
    .ok (pre ++ (productRow n m.rows[i] ++ post)) := by
  have hlength : (m.rows[i].zip n.rows).length = m.cols := by
    rw [List.length_zip, length_getElem hi, hcols, height, Nat.min_self]
  rw [← hlength]
  refine foldlM_range_foldl (l := m.rows[i].zip n.rows)
    (g := fun sums p => accumulate sums p.1 p.2) (k := fun sums => pre ++ (sums ++ post))
    (P := fun sums => sums.length = n.cols) (fun sums hsums k hk => ?_) List.length_replicate
  have hkm : k < m.cols := hlength ▸ hk
  have hkn : k < n.height := hcols ▸ hkm
  have hrow : k < m.rows[i].length := (length_getElem hi).symm ▸ hkm
  rw [place_store hm hi hkm, ok_bind, read_store hi hkm, ok_bind,
    addMultiple_eq hn hkn hpre hsums hfits, getD_of_lt hi hrow, List.getElem_zip]
  refine ⟨rfl, ?_⟩
  rw [accumulate, List.length_zipWith, hsums]
  exact (congrArg (min n.cols) (length_getElem hkn)).trans (Nat.min_self _)

/-- The loops of the product without a fault. -/
theorem multiply_rows (hm : m.Fits) (hn : n.Fits) (hcols : m.cols = n.height)
    (hfits : m.height * n.cols ≤ capacity) :
    (List.range m.height).foldlM (fun data i =>
      (List.range m.cols).foldlM (fun data k => do
        let v ← read m.store.data (← m.store.place b i k)
        n.store.addMultiple b i k v data) data) (List.replicate (m.height * n.cols) 0) =
    .ok (m.rows.map (productRow n)).flatten := by
  -- before turn `i` the rows up to `i` are products and the others are zeros
  have hloop := foldlM_range_eq (n := m.height)
    (f := fun data i => (List.range m.cols).foldlM (fun data k => do
      let v ← read m.store.data (← m.store.place b i k)
      n.store.addMultiple b i k v data) data)
    (s := fun i => ((m.rows.take i).map (productRow n)).flatten ++
      List.replicate ((m.height - i) * n.cols) 0)
    fun i hi => by
      have hpre : ((m.rows.take i).map (productRow n)).flatten.length = i * n.cols := by
        rw [length_flatten (c := n.cols), List.length_map, List.length_take]
        · rw [Nat.min_eq_left (show i ≤ m.rows.length from Nat.le_of_lt hi)]
        · exact List.forall_mem_map.2 fun _ _ => length_productRow n _
      have hzeros : List.replicate ((m.height - i) * n.cols) (0 : α) =
          List.replicate n.cols 0 ++ List.replicate ((m.height - (i + 1)) * n.cols) 0 := by
        rw [List.replicate_append_replicate, show m.height - i = (m.height - (i + 1)) + 1 by omega,
          Nat.succ_mul, Nat.add_comm]
      have hnext : (i + 1) * n.cols ≤ capacity :=
        Nat.le_trans (Nat.mul_le_mul_right _ hi) hfits
      rw [hzeros, multiply_row hm hn hcols hi hpre hnext, List.take_succ_eq_append_getElem hi,
        List.map_append, List.flatten_append]
      simp
  have hend : m.rows.take m.height = m.rows := List.take_length
  rw [Nat.sub_self, Nat.zero_mul, List.replicate_zero, List.append_nil, hend, List.take_zero,
    List.map_nil, List.flatten_nil, List.nil_append, Nat.sub_zero] at hloop
  exact hloop

/-- **The matrix product is made without a fault** when memory can hold it. -/
theorem multiply_store (hm : m.Fits) (hn : n.Fits) (hfits : m.height * n.cols ≤ capacity) :
    m.store.multiply b n.store = .ok ((m.multiply n).map store) := by
  rw [Store.multiply, multiply, rows_store, cols_store, cols_store, rows_store]
  by_cases hcols : m.cols = n.height
  · rw [if_neg (not_not.2 hcols), if_pos hcols, word_of_le_capacity hfits, ok_bind,
      reserve_of_le hfits, ok_bind, multiply_rows hm hn hcols hfits, ok_bind]
    simp only [Except.map, store, height, List.length_map]
    rfl
  · rw [if_pos hcols, if_neg hcols]
    rfl

/-- What adds a multiple of a row keeps the size of the vector. -/
theorem length_addMultiple {t : Store α} {v : α} {data : List α} :
    ∀ data', t.addMultiple b i k v data = .ok data' → data'.length = data.length :=
  foldlM_preserves (P := fun data' => data'.length = data.length)
    (fun _ _ hdata => forall_bind_eq_ok fun _ => forall_bind_eq_ok fun _ =>
      forall_bind_eq_ok fun _ => forall_bind_eq_ok fun _ data' hwrite =>
        (length_of_write data' hwrite).trans hdata) rfl

/-- **The loops of the product end with a fault** where the vector is too short. -/
theorem multiply_rows_fault (hm : m.Fits) (hn : n.Fits) {size : ℕ} (hsize : size ≤ capacity)
    (hshort : size < m.height * n.cols) :
    ∃ f, (List.range m.height).foldlM (fun data i =>
      (List.range m.cols).foldlM (fun data k => do
        let v ← read m.store.data (← m.store.place b i k)
        n.store.addMultiple b i k v data) data) (List.replicate size 0) = .error f := by
  -- the entry whose place is the size is the first one that the vector lacks
  have hi : size / n.cols < m.height := (Nat.div_lt_iff_lt_mul n.cols_pos).2 hshort
  have hj : size % n.cols < n.cols := Nat.mod_lt _ n.cols_pos
  have hplace : size / n.cols * n.cols + size % n.cols = size := by
    rw [Nat.mul_comm]
    exact Nat.div_add_mod size n.cols
  have hkeep : ∀ (data : List α) (k : ℕ), data.length = size → ∀ data',
      (do
        let v ← read m.store.data (← m.store.place b (size / n.cols) k)
        n.store.addMultiple b (size / n.cols) k v data) = .ok data' → data'.length = size :=
    fun data k hdata => forall_bind_eq_ok fun _ => forall_bind_eq_ok fun _ data' h =>
      (length_addMultiple data' h).trans hdata
  refine foldlM_fault (P := fun data => data.length = size) (List.mem_range.2 hi)
    (fun data i hdata => foldlM_preserves (fun data k hdata => forall_bind_eq_ok fun _ =>
      forall_bind_eq_ok fun _ data' h => (length_addMultiple data' h).trans hdata) hdata)
    (fun data hdata => ?_) List.length_replicate
  refine foldlM_fault (P := fun data => data.length = size) (List.mem_range.2 m.cols_pos) hkeep
    (fun data hdata => ?_) hdata
  rw [place_store hm hi m.cols_pos, ok_bind, read_store hi m.cols_pos, ok_bind]
  refine foldlM_fault (P := fun data => data.length = size) (List.mem_range.2 hj)
    (fun data j hdata => forall_bind_eq_ok fun _ => forall_bind_eq_ok fun _ =>
      forall_bind_eq_ok fun _ => forall_bind_eq_ok fun _ data' h =>
        (length_of_write data' h).trans hdata)
    (fun data hdata => ⟨.index, ?_⟩) hdata
  have hread : read data size = .error .index := by
    rw [Storage.read, List.getElem?_eq_none (Nat.le_of_eq hdata)]
  have heq : n.store.place b (size / n.cols) (size % n.cols) = .ok size :=
    (Store.place_eq (s := n.store) (hplace.symm ▸ hsize)).trans (congrArg _ hplace)
  have hheight : 0 < n.height := n.height_pos
  rw [heq, ok_bind, place_store hn hheight hj, ok_bind, read_store hheight hj, ok_bind, hread]
  rfl

/-- **The matrix product is kept.** -/
theorem follows_multiply (hm : m.Fits) (hn : n.Fits) :
    Follows store Fits (m.store.multiply b n.store) (m.multiply n) := by
  rw [Store.multiply, multiply, rows_store, cols_store, cols_store, rows_store]
  by_cases hcols : m.cols = n.height
  swap
  · rw [if_pos hcols, if_neg hcols]
    exact .refused
  rw [if_neg (not_not.2 hcols), if_pos hcols]
  refine .bind fun size hword => .bind fun _ hreserve => ?_
  have hsize : size ≤ capacity := le_of_reserve_eq_ok hreserve
  rcases Nat.lt_or_ge size (m.height * n.cols) with hshort | hlong
  · obtain ⟨f, hf⟩ := multiply_rows_fault (b := b) hm hn hsize hshort
    rw [hf]
    exact .fault
  · have heq : size = m.height * n.cols := Nat.le_antisymm (le_of_word_eq_ok hword) hlong
    subst heq
    rw [multiply_rows hm hn hcols hsize, ok_bind]
    refine .inr ⟨?_, fun v hv => ?_⟩
    · simp only [Except.map, store, height, List.length_map]
      rfl
    · cases hv
      simpa [Fits, height] using hsize

end Matrix

end Milp
