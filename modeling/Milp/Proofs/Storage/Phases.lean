import Milp.Proofs.Storage.Tableaus
/-!
# The phases on stored tableaus

What the phases do with a stored tableau before and after pivoting has no fault.
The first tableau of a problem is made where memory can hold its rows
(`build_stored`), and each phase sets its objective in the last row. Leaving the
first phase, rows are driven out and removed, and the columns of artificial
variables are dropped; the places of the rows that are removed are still right
when their turn comes (`removeRows_stored`). The values are written to places
that there are.
-/

namespace Milp

open Storage

namespace Tableau

variable {α : Type} {t : Tableau α} {r : BasicRow α} {z : Row α} {b : Build} {n m i j : ℕ}

section Operations

variable [Scalar α]

/-! ## Objectives -/

omit [Scalar α] in
/-- The rows with another objective. -/
theorem data_set_length (t : Tableau α) (n m : ℕ) (z : Row α) :
    (t.stored n m).data.set t.rows.length z.stored =
      (lines { t with objective := z }).map Row.stored := by
  rw [stored, ← List.map_set, lines_set_length]

omit [Scalar α] in
/-- The objective is replaced entry by entry. -/
theorem writeEntry_length (t : Tableau α) (n m : ℕ) {line : List α} (hj : j < line.length) (v : α) :
    writeEntry ((t.stored n m).data.set t.rows.length line) t.rows.length j v =
      .ok ((t.stored n m).data.set t.rows.length (line.set j v)) := by
  rw [writeEntry_of_lt (List.getElem?_set_self (length_rows_lt_data t n m)) hj, List.set_set]

omit [Scalar α] in
/-- An equation is combined into the objective. -/
theorem combineRow_objective (ht : t.Shaped) (hr : t.rows[i]? = some r)
    (hz : z.coefficients.length = t.width) {f : α → α → α} {w : Row α}
    (hw : w.stored = List.zipWith f z.stored r.toRow.stored) :
    combineRow f t.rows.length i (t.width + 1) ((lines { t with objective := z }).map Row.stored) =
      .ok ((lines { t with objective := w }).map Row.stored) := by
  have hi : i < t.rows.length := (List.getElem?_eq_some_iff.1 hr).1
  have hlast : ((lines { t with objective := z }).map Row.stored)[t.rows.length]? =
      some z.stored := by
    rw [List.getElem?_map, getElem?_lines_length { t with objective := z }, Option.map_some]
  have hrow : ((lines { t with objective := z }).map Row.stored)[i]? = some r.toRow.stored := by
    rw [List.getElem?_map, getElem?_lines (t := { t with objective := z }) hr, Option.map_some]
  rw [combineRow_eq f hlast hrow hi.ne' (by rw [Row.length_stored, hz])
    (by rw [Row.length_stored, ht.length_coefficients r (List.mem_of_getElem? hr)]), ← hw,
    ← List.map_set, lines_set_length { t with objective := z }]

/-- Entries of a row of zeros that are replaced, one after the other. -/
theorem writeEntries_zeros (t : Tableau α) (n m : ℕ) {β : Type} {xs : List β} {place : β → ℕ}
    (value : β → α) {start : ℕ} (hplace : xs.map place = List.range' start xs.length)
    (hle : start + xs.length ≤ t.width) :
    xs.foldlM (fun data x => writeEntry data t.rows.length (place x) (value x))
        ((t.stored n m).data.set t.rows.length (List.replicate (t.width + 1) 0)) =
      .ok ((lines { t with objective := ⟨List.replicate start 0 ++ xs.map value ++
        List.replicate (t.width - (start + xs.length)) 0, 0⟩ }).map Row.stored) := by
  have hzeros : (List.replicate (t.width + 1) (0 : α)).length = t.width + 1 :=
    List.length_replicate
  have hwrite := foldlM_write (k := fun line => (t.stored n m).data.set t.rows.length line)
    (f := fun data x => writeEntry data t.rows.length (place x) (value x))
    (fun line hline x _ hx => writeEntry_length t n m (hline.symm ▸ hx) (value x))
    hzeros hplace (hle.trans (Nat.le_succ _))
  rw [hwrite, ← data_set_length t n m, Row.stored, List.take_replicate, List.drop_replicate,
    Nat.min_eq_left (by omega), Nat.sub_add_comm hle, List.replicate_succ', ← List.append_assoc]

/-- The `i`-th row is subtracted from the objective of the first phase. -/
theorem subtractArtificial_stored (ht : t.Shaped) (hr : t.rows[i]? = some r)
    (hz : z.coefficients.length = t.width) (n m : ℕ) :
    (t.stored n m).subtractArtificial t.structural t.rows.length (t.width + 1)
        ((lines { t with objective := z }).map Row.stored) i =
      .ok ((lines { t with objective := if t.structural ≤ r.basic then z.minus r.toRow else z }).map
        Row.stored) := by
  have hlen := ht.length_coefficients r (List.mem_of_getElem? hr)
  have hbasic : read (t.stored n m).basicVars i = .ok r.basic :=
    read_of_getElem? (getElem?_basis hr)
  rw [StoredTableau.subtractArtificial, hbasic, ok_bind]
  split
  · exact combineRow_objective ht hr hz (Row.stored_minus (hz.trans hlen.symm))
  · rfl

/-- **The objective of the first phase** is set without a fault. -/
theorem Storable.priceArtificials_stored (ht : Storable n m t) :
    (t.stored n m).priceArtificials b = .ok ((Simplex.priceArtificials t).stored n m) := by
  have hstop : t.width - t.structural = t.artificials := Nat.add_sub_cancel_left _ _
  have hzero : t.width - (t.structural + t.artificials) = 0 := Nat.sub_self _
  have hplaces : (List.range' t.structural t.artificials).map id =
      List.range' t.structural (List.range' t.structural t.artificials).length := by
    rw [List.map_id, List.length_range']
  have hones := writeEntries_zeros t n m (fun _ => 1) hplaces
    (by rw [List.length_range', Tableau.width])
  rw [List.length_range', hzero, List.map_const', List.length_range', List.replicate_zero,
    List.append_nil] at hones
  have hcosts : (List.replicate t.structural (0 : α) ++ List.replicate t.artificials 1).length =
      t.width := by
    simp [Tableau.width]
  have hloop := foldlM_range_foldl (l := t.rows)
    (f := (t.stored n m).subtractArtificial t.structural t.rows.length (t.width + 1))
    (g := fun (z : Row α) r => if t.structural ≤ r.basic then z.minus r.toRow else z)
    (k := fun z => (lines { t with objective := z }).map Row.stored)
    (P := fun z => z.coefficients.length = t.width)
    (fun z hz i hi => by
      refine ⟨subtractArtificial_stored ht.toShaped (List.getElem?_eq_getElem hi) hz n m, ?_⟩
      split
      · exact (Simplex.length_minus (hz.trans
          (ht.length_coefficients _ (List.getElem_mem hi)).symm)).trans hz
      · exact hz) (s := ⟨_, 0⟩) hcosts
  rw [StoredTableau.priceArtificials, objectiveRow_stored, ok_bind, width_stored ht.toShaped,
    ok_bind, ht.artificialStart_stored, ok_bind, reserve_of_le ht.width_lt, ok_bind,
    write_of_lt (length_rows_lt_data t n m), ok_bind, difference_of_le (Nat.le_add_left 1 _), ok_bind,
    Nat.add_sub_cancel, hstop]
  refine (congrArg (· >>= _) hones).trans ?_
  rw [ok_bind, hloop]
  rfl

/-- The basic column of the `i`-th row is eliminated from the objective. -/
theorem eliminateBasic_stored (ht : t.Shaped) (hr : t.rows[i]? = some r)
    (hz : z.coefficients.length = t.width) (n m : ℕ) :
    (t.stored n m).eliminateBasic t.rows.length (t.width + 1)
        ((lines { t with objective := z }).map Row.stored) i =
      .ok ((lines { t with objective := z.eliminate r.basic r.toRow }).map Row.stored) := by
  have hlen := ht.length_coefficients r (List.mem_of_getElem? hr)
  have hbasic : read (t.stored n m).basicVars i = .ok r.basic :=
    read_of_getElem? (getElem?_basis hr)
  have hratio := readEntry_lines (getElem?_lines_length { t with objective := z })
    (hz.symm ▸ ht.basic_lt r (List.mem_of_getElem? hr))
  rw [StoredTableau.eliminateBasic, hbasic, ok_bind]
  rw [show t.rows.length = ({ t with objective := z } : Tableau α).rows.length from rfl, hratio,
    ok_bind, Row.eliminate]
  split
  · rfl
  · exact combineRow_objective ht hr hz (Row.stored_minusTimes _ (hz.trans hlen.symm))

/-- **The objective of a problem** is set without a fault. -/
theorem Storable.priceObjective_stored (ht : Storable n m t) {c : List α}
    (hc : c.length ≤ t.width) :
    (t.stored n m).priceObjective b c = .ok ((Simplex.priceObjective t c).stored n m) := by
  have hplaces : c.zipIdx.map Prod.snd = List.range' 0 c.zipIdx.length := by
    rw [List.zipIdx_map_snd, List.length_zipIdx]
  have hnegated : c.zipIdx.map (fun x => -x.1) = c.map (- ·) := by
    conv_rhs => rw [← List.zipIdx_map_fst 0 c, List.map_map]
    rfl
  have hcosts := writeEntries_zeros t n m (fun x => -x.1) hplaces
    (by rwa [List.length_zipIdx, Nat.zero_add])
  rw [hnegated, List.length_zipIdx, List.replicate_zero, List.nil_append, Nat.zero_add] at hcosts
  have hlen : (c.map (- ·) ++ List.replicate (t.width - c.length) 0).length = t.width := by
    rw [List.length_append, List.length_map, List.length_replicate]
    omega
  have hloop := foldlM_range_foldl (l := t.rows)
    (f := (t.stored n m).eliminateBasic t.rows.length (t.width + 1))
    (g := fun (z : Row α) r => z.eliminate r.basic r.toRow)
    (k := fun z => (lines { t with objective := z }).map Row.stored)
    (P := fun z => z.coefficients.length = t.width)
    (fun z hz i hi => by
      refine ⟨eliminateBasic_stored ht.toShaped (List.getElem?_eq_getElem hi) hz n m, ?_⟩
      exact (Row.length_eliminate _ (hz.trans
        (ht.length_coefficients _ (List.getElem_mem hi)).symm)).trans hz) (s := ⟨_, 0⟩) hlen
  rw [StoredTableau.priceObjective, objectiveRow_stored, ok_bind, width_stored ht.toShaped,
    ok_bind, reserve_of_le ht.width_lt, ok_bind, write_of_lt (length_rows_lt_data t n m), ok_bind]
  refine (congrArg (· >>= _) hcosts).trans ?_
  rw [ok_bind, hloop]
  rfl

/-! ## Driving out -/

/-- **A column that takes the place of an artificial variable** is found without a
fault. -/
theorem replacement?_stored (ht : t.Shaped) (hr : t.rows[i]? = some r) (n m : ℕ) (tolerance : α) :
    (t.stored n m).replacement? tolerance t.structural i =
      .ok (Simplex.replacement? tolerance t i) := by
  refine Storage.findM?_eq fun j hj => ?_
  have hlen : j < r.coefficients.length := by
    rw [ht.length_coefficients r (List.mem_of_getElem? hr)]
    exact (List.mem_range.1 hj).trans_le (Nat.le_add_right _ _)
  have hentry : readEntry (t.stored n m).data i j = .ok (t.entry i j) := by
    rw [entry, hr]
    exact readEntry_lines (getElem?_lines hr) hlen
  rw [hentry]
  rfl

/-- **A row is driven out** without a fault. -/
theorem driveOutRow_stored {acc : Tableau α × List ℕ} (ht : acc.1.Shaped)
    (hr : acc.1.rows[i]? = some r) (n m : ℕ) (tolerance : α) :
    StoredTableau.driveOutRow tolerance acc.1.structural (acc.1.stored n m, acc.2) i =
      .ok ((Simplex.driveOutRow tolerance acc i).1.stored n m,
        (Simplex.driveOutRow tolerance acc i).2) := by
  have hbasic : read (acc.1.stored n m).basicVars i = .ok r.basic :=
    read_of_getElem? (getElem?_basis hr)
  rw [StoredTableau.driveOutRow, hbasic, ok_bind, Simplex.driveOutRow, Simplex.getD_basis hr]
  split
  · rfl
  · rw [replacement?_stored ht hr, ok_bind]
    cases hcol : Simplex.replacement? tolerance acc.1 i with
    | none => rfl
    | some col =>
      have hlt := (Simplex.replacement?_lt hcol).trans_le (Nat.le_add_right _ acc.1.artificials)
      dsimp only
      rw [pivot_stored ht hr hlt, ok_bind]
      rfl

/-- **All rows are driven out** without a fault. -/
theorem Storable.driveOut_stored (ht : Storable n m t) (tolerance : α) :
    (t.stored n m).driveOut b tolerance =
      .ok ((Simplex.driveOut tolerance t (List.range t.rows.length)).1.stored n m,
        (Simplex.driveOut tolerance t (List.range t.rows.length)).2) := by
  have hloop := foldlM_foldl (f := StoredTableau.driveOutRow tolerance t.structural)
    (g := Simplex.driveOutRow tolerance)
    (k := fun (acc : Tableau α × List ℕ) => (acc.1.stored n m, acc.2))
    (P := fun acc => acc.1.Shaped ∧ Simplex.SameSize t acc.1) (l := List.range t.rows.length)
    (fun acc ⟨hshaped, hsame⟩ i hi => by
      have hr := List.getElem?_eq_getElem (hsame.length_rows_eq.symm ▸ List.mem_range.1 hi)
      obtain ⟨hshaped', hsame'⟩ := Simplex.shaped_driveOutRow tolerance hshaped hr
      exact ⟨hsame.structural_eq ▸ driveOutRow_stored hshaped hr n m tolerance, hshaped',
        hsame.trans hsame'⟩) (s := (t, [])) ⟨ht.toShaped, .refl t⟩
  rw [StoredTableau.driveOut, ht.artificialStart_stored, ok_bind, objectiveRow_stored, ok_bind]
  exact hloop

omit [Scalar α] in
/-- **A row is removed** without a fault. -/
theorem removeRow_stored (hi : i < t.rows.length) (n m : ℕ) :
    (t.stored n m).removeRow i = .ok (stored { t with rows := t.rows.eraseIdx i } n m) := by
  have hdata : remove (t.stored n m).data i =
      .ok ((lines { t with rows := t.rows.eraseIdx i }).map Row.stored) := by
    rw [remove_of_lt (by rw [length_data_stored]; omega), lines, map_eraseIdx,
      ← List.eraseIdx_append_of_lt_length (by rwa [List.length_map]), ← lines, map_eraseIdx]
    rfl
  have hbasic : remove (t.stored n m).basicVars i = .ok ((t.rows.eraseIdx i).map (·.basic)) := by
    rw [map_eraseIdx]
    exact remove_of_lt (by simpa [stored, basis] using hi)
  rw [StoredTableau.removeRow, hdata, ok_bind, hbasic]
  rfl

omit [Scalar α] in
/-- **The listed rows are removed** without a fault: each is still at its place
when its turn comes. -/
theorem removeRows_stored {places : List ℕ} (h : Simplex.Swept t.rows.length (t, places))
    (n m : ℕ) : places.foldlM StoredTableau.removeRow (t.stored n m) =
      .ok ((Simplex.dropRows t places).stored n m) := by
  induction places generalizing t with
  | nil => rfl
  | cons i places ih =>
    rw [List.foldlM_cons, removeRow_stored (h.lt i List.mem_cons_self), ok_bind, ih h.eraseIdx]
    rfl

omit [Scalar α] in
/-- **The artificial columns are dropped** without a fault. -/
theorem Storable.dropArtificials_stored (ht : Storable n m t) :
    (t.stored n m).dropArtificials b = .ok ((Simplex.dropArtificials t).stored n m) := by
  have hle : t.structural ≤ t.width := Nat.le_add_right _ _
  have hroom : t.structural + 1 ≤ capacity := Nat.succ_le_of_lt (hle.trans_lt ht.width_lt)
  have hline : ∀ q ∈ t.lines, (do
      let last ← difference b q.stored.length 1
      let bound ← read q.stored last
      extend (q.stored.take t.structural) [bound]) = .ok (q.take t.structural).stored := by
    intro q hq
    have hlen := ht.length_of_mem_lines hq
    have htake : q.stored.take t.structural = q.coefficients.take t.structural :=
      List.take_append_of_le_length (hlen.symm ▸ hle)
    rw [Row.length_stored, difference_of_le (Nat.le_add_left 1 _), ok_bind, Nat.add_sub_cancel,
      read_of_getElem? q.getElem?_stored_length, ok_bind, htake, extend_of_le]
    · rfl
    · rw [List.length_take, List.length_singleton]
      omega
  have hlines : t.lines.map (fun q => (q.take t.structural).stored) =
      ((Simplex.dropArtificials t).stored n m).data := by
    simp [stored, lines, Simplex.dropArtificials]
  rw [StoredTableau.dropArtificials, ht.artificialStart_stored, ok_bind]
  rw [show (t.stored n m).data = t.lines.map Row.stored from rfl, mapM_map_eq hline, ok_bind,
    hlines]
  simp [stored, basis, Simplex.dropArtificials, pure, Except.pure]

/-! ## The answer -/

omit [Scalar α] in
theorem corner_stored (ht : t.Shaped) (n m : ℕ) : (t.stored n m).corner b = .ok t.corner := by
  rw [StoredTableau.corner, objectiveRow_stored, ok_bind, width_stored ht, ok_bind,
    difference_of_le (Nat.le_add_left 1 _), ok_bind, Nat.add_sub_cancel]
  exact readEntry_lines_width (getElem?_lines_length t) ht.length_objective

/-- The value of one basic variable is written. -/
theorem writeBasic_stored (ht : t.Shaped) (hr : t.rows[i]? = some r) {k : ℕ} {values : List α}
    (hvalues : values.length = k) (n m : ℕ) (tolerance : α) :
    (t.stored n m).writeBasic tolerance k t.width values (r.basic, i) =
      .ok (Simplex.writeValue tolerance k values r) := by
  have hbound : readEntry (t.stored n m).data i t.width = .ok r.rhs :=
    readEntry_lines_width (getElem?_lines hr)
      (ht.length_coefficients r (List.mem_of_getElem? hr))
  rw [StoredTableau.writeBasic, Simplex.writeValue]
  split
  · rename_i hlt
    rw [hbound, ok_bind, write_of_lt (hvalues.symm ▸ hlt)]
  · rfl

/-- **The values at the basis** are read without a fault. -/
theorem basicValues_stored (ht : t.Shaped) {k : ℕ} (hk : k ≤ capacity) (n m : ℕ) (tolerance : α) :
    (t.stored n m).basicValues b tolerance k = .ok (Simplex.basicValues tolerance t k) := by
  have hloop := foldlM_zipIdx_foldl (l := t.rows)
    (f := fun values x =>
      (t.stored n m).writeBasic tolerance k t.width values (x.1.basic, x.2))
    (g := Simplex.writeValue tolerance k) (k := fun values => values)
    (P := fun values => values.length = k)
    (fun values hvalues r _ hr => ⟨writeBasic_stored ht hr hvalues n m tolerance,
      (Simplex.length_writeValue values r).trans hvalues⟩)
    (s := List.replicate k 0) List.length_replicate
  rw [StoredTableau.basicValues, width_stored ht, ok_bind, difference_of_le (Nat.le_add_left 1 _),
    ok_bind, Nat.add_sub_cancel, reserve_of_le hk, ok_bind,
    show (t.stored n m).basicVars = t.rows.map (·.basic) from rfl, List.zipIdx_map,
    List.foldlM_map]
  exact hloop

/-! ## The first tableau -/

variable {p : Problem α} {q : Row α}

/-- An equation is made of zeros, one part of it after the other. -/
theorem stored_equation {k a : ℕ} (hn : q.coefficients.length = n) (hi : i < m)
    (ha : isFlipped q = true → a < k) {filled : List α}
    (hfilled : filled = (((q.coefficients.map (sign q * ·) ++ List.replicate (m + k + 1) 0).set
      (n + i) (sign q)).set (n + m + k) (sign q * q.rhs))) :
    (equation n m k i a q).toRow.stored =
      if isFlipped q then filled.set (n + m + a) 1 else filled := by
  have hlen : (q.coefficients.map (sign q * ·)).length = n := (List.length_map _).trans hn
  have hslacks := Scalar.length_unitList m i (sign q)
  have hzeros : List.replicate (m + k + 1) (0 : α) =
      List.replicate m 0 ++ (List.replicate k 0 ++ [0]) := by
    rw [← List.replicate_succ', List.replicate_append_replicate, Nat.add_assoc]
  have hslack : (q.coefficients.map (sign q * ·) ++ List.replicate (m + k + 1) 0).set (n + i)
      (sign q) = q.coefficients.map (sign q * ·) ++ (Scalar.unitList m i (sign q) ++
        (List.replicate k 0 ++ [0])) := by
    have hi : i < (List.replicate m (0 : α)).length := by rwa [List.length_replicate]
    rw [hzeros, ← hlen, set_append_length, List.set_append_left _ _ hi]
    rfl
  have hbound : (List.replicate k (0 : α) ++ [0]).set k (sign q * q.rhs) =
      List.replicate k 0 ++ [sign q * q.rhs] := by
    have hset := set_append_length (List.replicate k (0 : α)) [0] 0 (sign q * q.rhs)
    rwa [List.length_replicate] at hset
  rw [hslack, set_append_append hlen hslacks, hbound] at hfilled
  subst hfilled
  rw [set_append_append hlen hslacks, Row.stored, coefficients_equation, rhs_equation]
  split
  · rename_i hf
    rw [List.set_append_left _ _ (by simpa using ha hf), List.append_assoc, List.append_assoc,
      Scalar.unitList]
    rfl
  · rw [List.append_assoc, List.append_assoc]

/-- The entries of an equation are written without a fault. -/
theorem fillEntries_stored (hp : p.Fits) (hw : (ofProblem p).width < capacity)
    (hq : p.rows[i]? = some q) :
    StoredTableau.fillEntries b p.stored ((ofProblem p).width + 1) i q.rhs
        (List.replicate ((ofProblem p).width + 1) 0) =
      .ok (((q.coefficients.map (sign q * ·) ++
        List.replicate (p.numRows + (ofProblem p).artificials + 1) 0).set (p.numVariables + i)
          (sign q)).set (p.numVariables + p.numRows + (ofProblem p).artificials)
            (sign q * q.rhs)) := by
  have hwidth : (ofProblem p).width = p.numVariables + p.numRows + (ofProblem p).artificials := rfl
  have hi : i < p.numRows := (List.getElem?_eq_some_iff.1 hq).1
  have hn : q.coefficients.length = p.numVariables :=
    p.length_coefficients q (List.mem_of_getElem? hq)
  have hrow : p.stored.constraints.rowAt b i = .ok q.coefficients := by
    have hget : p.coefficientMatrix.rows[i]? = some q.coefficients := by
      show (p.rows.map (·.coefficients))[i]? = _
      rw [List.getElem?_map, hq, Option.map_some]
    obtain ⟨hheight, hvalue⟩ := List.getElem?_eq_some_iff.1 hget
    exact (Matrix.rowAt_store (Problem.fits_coefficientMatrix hp) hheight).trans
      (congrArg _ hvalue)
  have hsign : (if q.rhs < 0 then -1 else 1) = sign q := by
    simp [sign, isFlipped]
  have hplaces : q.coefficients.zipIdx.map Prod.snd =
      List.range' 0 q.coefficients.zipIdx.length := by
    rw [List.zipIdx_map_snd, List.length_zipIdx]
  have hvalues : q.coefficients.zipIdx.map (fun x => sign q * x.1) =
      q.coefficients.map (sign q * ·) := by
    conv_rhs => rw [← List.zipIdx_map_fst 0 q.coefficients, List.map_map]
    rfl
  have hwrite := foldlM_write (k := fun row => row) (f := fun row x => write row x.2 (sign q * x.1))
    (fun row hlen x _ hx => write_of_lt (hlen.symm ▸ hx))
    (List.length_replicate (n := (ofProblem p).width + 1) (a := (0 : α))) hplaces
    (by rw [List.length_zipIdx]; omega)
  rw [hvalues, List.length_zipIdx, List.take_zero, List.nil_append, Nat.zero_add, hn,
    List.drop_replicate] at hwrite
  have hrest : (ofProblem p).width + 1 - p.numVariables =
      p.numRows + (ofProblem p).artificials + 1 := by omega
  rw [hrest] at hwrite
  rw [StoredTableau.fillEntries, hsign, hrow, ok_bind]
  refine (congrArg (· >>= _) hwrite).trans ?_
  rw [ok_bind, Problem.numVariables_stored, word_of_le_capacity (by omega), ok_bind,
    write_of_lt (by simp [hn]; omega), ok_bind, difference_of_le (Nat.le_add_left 1 _), ok_bind,
    Nat.add_sub_cancel, write_of_lt (by simp [hn]; omega)]
  rfl

/-- **A row is filled** without a fault: it becomes the next equation. -/
theorem fillRow_stored (hp : p.Fits) (hw : (ofProblem p).width < capacity)
    {e : BasicRow α} (he : (ofProblem p).rows[i]? = some e) {data : List (List α)}
    (hdata : data[i]? = some (List.replicate ((ofProblem p).width + 1) 0)) {basicVars : List ℕ}
    (hbasic : i < basicVars.length) :
    StoredTableau.fillRow b p.stored ((ofProblem p).width + 1)
        ⟨data, basicVars, (ofProblem p).structural + flippedBefore p.rows i⟩ i =
      .ok ⟨data.set i e.toRow.stored, basicVars.set i e.basic,
        (ofProblem p).structural + flippedBefore p.rows (i + 1)⟩ := by
  obtain ⟨q, hq, hn, hi, ha, rfl⟩ := exists_of_mem_rows_ofProblem he
  have hwidth : (ofProblem p).width = p.numVariables + p.numRows + (ofProblem p).artificials := rfl
  have hdata' : i < data.length := (List.getElem?_eq_some_iff.1 hdata).1
  have hbound : read p.stored.rhs.data i = .ok q.rhs := by
    refine read_of_getElem? ?_
    rw [show p.stored.rhs.data = p.rhs from Problem.data_rhsMatrix p, Problem.rhs,
      List.getElem?_map, hq, Option.map_some]
  have hstored := stored_equation hn hi ha rfl
  rw [StoredTableau.fillRow]
  dsimp only
  rw [read_of_getElem? hdata, ok_bind, hbound, ok_bind, fillEntries_stored hp hw hq, ok_bind,
    hstored, basic_equation, flippedBefore_add_one hq]
  by_cases hf : isFlipped q = true
  · have hlt := ha hf
    rw [if_pos (of_decide_eq_true hf), if_pos hf, if_pos hf, if_pos hf,
      write_of_lt (by simp [hn]; omega), ok_bind, write_of_lt hdata', ok_bind,
      write_of_lt hbasic, ok_bind, word_of_le_capacity (by rw [structural_ofProblem]; omega),
      ok_bind]
    rfl
  · rw [if_neg (fun h => hf (decide_eq_true h)), if_neg hf, if_neg hf, if_neg hf,
      write_of_lt hdata', ok_bind, Problem.numVariables_stored,
      word_of_le_capacity (by omega), ok_bind, write_of_lt hbasic, ok_bind]
    rfl

/-- **All rows are filled** without a fault. -/
theorem fillRows_stored (hp : p.Fits) (hw : (ofProblem p).width < capacity) :
    (List.range p.numRows).foldlM (StoredTableau.fillRow b p.stored ((ofProblem p).width + 1))
        ⟨List.replicate (p.numRows + 1) (List.replicate ((ofProblem p).width + 1) 0),
          List.replicate p.numRows 0, (ofProblem p).structural⟩ =
      .ok ⟨(ofProblem p).lines.map Row.stored, (ofProblem p).basis,
        (ofProblem p).structural + flippedBefore p.rows p.numRows⟩ := by
  have hrows := length_rows_ofProblem p
  have hlines : ((ofProblem p).rows.map (·.toRow.stored)).length = p.numRows := by
    rw [List.length_map, hrows]
  have hbasis : (ofProblem p).basis.length = p.numRows := by
    rw [basis, List.length_map, hrows]
  have hloop := foldlM_range_eq (n := p.numRows)
    (f := StoredTableau.fillRow b p.stored ((ofProblem p).width + 1))
    (s := fun i => ⟨((ofProblem p).rows.map (·.toRow.stored)).take i ++
        List.replicate (p.numRows + 1 - i) (List.replicate ((ofProblem p).width + 1) 0),
      (ofProblem p).basis.take i ++ List.replicate (p.numRows - i) 0,
      (ofProblem p).structural + flippedBefore p.rows i⟩) fun i hi => by
    have he := List.getElem?_eq_getElem (hrows.symm ▸ hi)
    have hline : ((ofProblem p).rows.map (·.toRow.stored))[i]? =
        some (ofProblem p).rows[i].toRow.stored := by
      rw [List.getElem?_map, he, Option.map_some]
    rw [fillRow_stored hp hw he
      (getElem?_take_append_replicate (hlines.symm ▸ hi.le) (Nat.lt_succ_of_lt hi) _)
      (by rw [List.length_append, List.length_take, hbasis, List.length_replicate]; omega),
      set_take_append_replicate hline (Nat.lt_succ_of_lt hi),
      set_take_append_replicate (getElem?_basis he) hi]
  have hone : p.numRows + 1 - p.numRows = 1 := Nat.add_sub_cancel_left _ _
  rw [Nat.sub_self, hone, List.take_of_length_le hlines.le, List.take_of_length_le hbasis.le,
    List.replicate_zero, List.append_nil, List.replicate_one, ← Row.stored_zero] at hloop
  refine Eq.trans ?_ (hloop.trans ?_)
  · rw [Row.stored_zero]
    rfl
  · rw [lines, List.map_append, List.map_map]
    rfl

end Operations

end Tableau

namespace Problem

variable {α : Type} [Scalar α] {p : Problem α} {b : Build}

/-- Memory can hold the rows of the first tableau: each row, and the three words
for every row that say where it is. -/
def TableauFits (p : Problem α) : Prop :=
  (Tableau.ofProblem p).width < capacity ∧ 3 * (p.numRows + 1) ≤ capacity

instance (p : Problem α) : Decidable p.TableauFits := inferInstanceAs (Decidable (_ ∧ _))

/-- **The first tableau can be kept** where memory can hold its rows. -/
theorem TableauFits.storable (h : p.TableauFits) :
    Tableau.Storable p.numVariables p.numRows (Tableau.ofProblem p) where
  toShaped := Tableau.shaped_ofProblem p
  structural_eq := rfl
  width_lt := h.1

/-- Three sizes that memory can hold are a word together. -/
theorem three_capacity_lt_wordSize : 3 * capacity + 1 < wordSize := by
  decide

/-- **The first tableau** is made without a fault, or memory cannot hold it. -/
theorem build_stored (h : p.Fits) :
    StoredTableau.build b p.stored =
      if p.TableauFits then .ok ((Tableau.ofProblem p).stored p.numVariables p.numRows)
      else .error .capacity := by
  have hwidth : (Tableau.ofProblem p).width =
    p.numVariables + p.numRows + (Tableau.ofProblem p).artificials := rfl
  have hn := h.numVariables_le
  have hm : p.numRows ≤ capacity :=
    p.height_coefficientMatrix ▸ (fits_coefficientMatrix h).height_le
  have hk : (Tableau.ofProblem p).artificials ≤ p.numRows := by
    rw [Tableau.artificials_ofProblem]
    exact List.countP_le_length
  have hsum := three_capacity_lt_wordSize
  have hcount : p.stored.rhs.data.countP (· < 0) = (Tableau.ofProblem p).artificials := by
    rw [show p.stored.rhs.data = p.rhs from data_rhsMatrix p, rhs, List.countP_map,
      Tableau.artificials_ofProblem]
    rfl
  have hrows : p.stored.constraints.rows = p.numRows := p.height_coefficientMatrix
  rw [StoredTableau.build, hcount, hrows, numVariables_stored, word_of_lt (by omega), ok_bind,
    word_of_lt (by omega), ok_bind, word_of_lt (by omega), ok_bind, word_of_lt (by omega), ok_bind,
    ← hwidth]
  by_cases hw : (Tableau.ofProblem p).width < capacity
  swap
  · rw [reserve_of_lt (by omega), error_bind, if_neg fun hfits => hw hfits.1]
  by_cases hthree : 3 * (p.numRows + 1) ≤ capacity
  swap
  · rw [reserve_of_le hw, ok_bind, reserve_of_lt (by omega), error_bind,
      if_neg fun hfits => hthree hfits.2]
  rw [reserve_of_le hw, ok_bind, reserve_of_le hthree, ok_bind, reserve_of_le hm, ok_bind,
    if_pos ⟨hw, hthree⟩]
  refine (congrArg (· >>= _) (Tableau.fillRows_stored h hw)).trans ?_
  rw [ok_bind]
  rfl

end Problem

end Milp
