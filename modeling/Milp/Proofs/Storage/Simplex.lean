import Milp.Storage.Simplex
import Milp.Proofs.Storage.Phases
/-!
# The simplex method has no fault

The method on stored tableaus goes by indices into rows, columns and basic
variables. Pivoting has no fault (`optimize_stored`), nor has what is done
between the phases and at their end; so the method gives what `Simplex.solve`
gives where memory can hold the first tableau, over every scalar
(`solve_stored`).
-/

namespace Milp

open Storage

/-! ## Runs -/

section Runs

variable {α : Type} {s t : Tableau α} {n m : ℕ}

/-- The end of a sequence of pivots as it is kept. -/
def Simplex.Optimized.stored (n m : ℕ) (o : Simplex.Optimized α) : StoredTableau.Optimized α :=
  ⟨o.ending, o.tableau.stored n m, o.events⟩

/-- The end of the first phase as it is kept. -/
def Simplex.Feasible.stored (n m : ℕ) (f : Simplex.Feasible α) : StoredTableau.Feasible α :=
  ⟨f.tableau?.map fun t => t.stored n m, f.events⟩

variable [Scalar α] {b : Build} {cfg : Simplex.Config α} {rule : PivotRule}
variable {row col limit k : ℕ} {o : Simplex.Optimized α}

namespace Tableau.Storable

omit [Scalar α] in
theorem of_sameSize (ht : Storable n m t) (hs : s.Shaped)
    (h : Simplex.SameSize t s) : Storable n m s where
  toShaped := hs
  structural_eq := h.structural_eq.trans ht.structural_eq
  width_lt := by
    rw [width, h.structural_eq, h.artificials_eq]
    exact ht.width_lt

/-- A pivot of any rule leaves a tableau that can be kept. -/
theorem of_move (ht : Storable n m t) {tolerance : α}
    (h : Simplex.move tolerance rule t = .pivot row col) : Storable n m (t.pivot row col) :=
  ht.of_sameSize (Simplex.shaped_of_move ht.toShaped h) (.pivot t row col)

/-- **The move that is found is made** without a fault. -/
theorem pivot_of_move (ht : Storable n m t) {tolerance : α}
    (h : Simplex.move tolerance rule t = .pivot row col) :
    (t.stored n m).pivot row col = .ok ((t.pivot row col).stored n m) := by
  obtain ⟨hcol, hrow⟩ := Simplex.move_eq_pivot h
  obtain ⟨r, hr⟩ := exists_of_leaving hrow
  exact pivot_stored ht.toShaped hr (ht.length_objective ▸ entering_lt hcol) n m

/-- **Pivoting** has no fault. -/
theorem optimize_stored (ht : Storable n m t) :
    StoredTableau.optimize b cfg limit k (t.stored n m) =
      .ok ((Simplex.optimize cfg limit k t).map (Simplex.Optimized.stored n m)) := by
  induction limit generalizing k t with
  | zero =>
    rw [StoredTableau.optimize, StoredTableau.turn, move_stored ht.toShaped, ok_bind]
    unfold Simplex.optimize
    cases hm : Simplex.move cfg.tolerance (Simplex.ruleAfter cfg k) t <;> simp only <;> rfl
  | succ limit ih =>
    rw [StoredTableau.optimize, StoredTableau.turn, move_stored ht.toShaped, ok_bind]
    unfold Simplex.optimize
    cases hm : Simplex.move cfg.tolerance (Simplex.ruleAfter cfg k) t with
    | stop =>
      simp only
      rfl
    | unbounded col =>
      simp only
      rfl
    | pivot row col =>
      simp only
      rw [ht.pivot_of_move hm, ok_bind, ih (ht.of_move hm), ok_bind, Option.map_map, Option.map_map]
      rfl

/-- What pivoting ends at can be kept, and has the same size. -/
theorem optimize (ht : Storable n m t) (h : Simplex.optimize cfg limit k t = some o) :
    Storable n m o.tableau ∧ Simplex.SameSize t o.tableau := by
  refine (Simplex.optimize_induction (fun s => Storable n m s ∧ Simplex.SameSize t s) ?_ h
    ⟨ht, .refl t⟩).1
  rintro s rule row col ⟨hs, hsame⟩ hm
  exact ⟨hs.of_move hm, hsame.trans (.pivot s row col)⟩

omit [Scalar α] in
/-- Some of the rows can be kept. -/
theorem dropRows (ht : Storable n m t) (places : List ℕ) :
    Storable n m (Simplex.dropRows t places) where
  toShaped := Simplex.shaped_of_sublist ht.toShaped (Simplex.foldl_eraseIdx_sublist places t.rows)
  structural_eq := ht.structural_eq
  width_lt := ht.width_lt

omit [Scalar α] in
/-- Without the columns of artificial variables a tableau can be kept, where none
of them is basic. -/
theorem dropArtificials (ht : Storable n m t) (hb : ∀ r ∈ t.rows, r.basic < t.structural) :
    Storable n m (Simplex.dropArtificials t) where
  toShaped := Simplex.shaped_dropArtificials ht.toShaped hb
  structural_eq := ht.structural_eq
  width_lt := (Nat.le_add_right t.structural t.artificials).trans_lt ht.width_lt

/-- **What follows the pivots of the first phase** has no fault. -/
theorem concludeFirst_stored (ht : Storable n m o.tableau) :
    StoredTableau.concludeFirst b cfg o.tableau.rows.length (o.tableau.width + 1) (o.stored n m) =
      .ok ((Simplex.concludeFirst cfg.tolerance o).stored n m) := by
  obtain ⟨ending, t, events⟩ := o
  cases ending with
  | unbounded => rfl
  | optimal =>
    have hcorner : readEntry (t.stored n m).data t.rows.length t.width = .ok t.corner :=
      readEntry_lines_width (getElem?_lines_length t) ht.length_objective
    rw [StoredTableau.concludeFirst, Simplex.concludeFirst]
    dsimp only [Simplex.Optimized.stored]
    rw [difference_of_le (Nat.le_add_left 1 _), ok_bind, Nat.add_sub_cancel, hcorner, ok_bind]
    split
    · rfl
    · obtain ⟨hswept, hshaped, hsame⟩ :=
        Simplex.swept_driveOut cfg.tolerance ht.toShaped (Nat.le_refl t.rows.length)
      rw [ht.driveOut_stored, ok_bind]
      have hdriven := ht.of_sameSize hshaped hsame
      generalize Simplex.driveOut cfg.tolerance t (List.range t.rows.length) = acc at *
      rw [← hsame.length_rows_eq] at hswept
      dsimp only
      rw [removeRows_stored hswept, ok_bind, (hdriven.dropRows acc.2).dropArtificials_stored,
        ok_bind]
      rfl

/-- What is left for the second phase can be kept. It has no artificial variables
and no rows that were not there. -/
theorem concludeFirst (ht : Storable n m o.tableau) {tolerance : α}
    (h : (Simplex.concludeFirst tolerance o).tableau? = some s) :
    Storable n m s ∧ s.artificials = 0 ∧ s.rows.length ≤ o.tableau.rows.length := by
  obtain ⟨acc, hacc, rfl⟩ := Simplex.tableau?_concludeFirst h
  obtain ⟨hswept, hshaped, hsame⟩ :=
    Simplex.swept_driveOut tolerance ht.toShaped (Nat.le_refl o.tableau.rows.length)
  rw [← hacc] at hswept hshaped hsame
  rw [← hsame.length_rows_eq] at hswept ⊢
  refine ⟨((ht.of_sameSize hshaped hsame).dropRows acc.2).dropArtificials
    hswept.basic_lt_dropRows, rfl, ?_⟩
  exact (List.length_map _).trans_le (Simplex.foldl_eraseIdx_sublist acc.2 acc.1.rows).length_le

/-- The tableau with the objective of the first phase can be kept. -/
theorem priceArtificials (ht : Storable n m t) : Storable n m (Simplex.priceArtificials t) :=
  ⟨Simplex.shaped_priceArtificials ht.toShaped, ht.structural_eq, ht.width_lt⟩

/-- So can that with the objective of a problem. -/
theorem priceObjective (ht : Storable n m t) {c : List α} (hc : c.length ≤ t.width) :
    Storable n m (Simplex.priceObjective t c) :=
  ⟨Simplex.shaped_priceObjective ht.toShaped hc, ht.structural_eq, ht.width_lt⟩

/-- **What the second phase starts from** is found without a fault. -/
theorem feasibleTableau_stored (ht : Storable n m t) :
    (t.stored n m).feasibleTableau b cfg limit =
      .ok ((Simplex.feasibleTableau cfg limit t).map (Simplex.Feasible.stored n m)) := by
  rw [StoredTableau.feasibleTableau, Simplex.feasibleTableau]
  by_cases hart : t.artificials = 0
  · rw [if_pos (show (t.stored n m).numArtificials = 0 from hart), if_pos hart]
    rfl
  · rw [if_neg (show ¬ (t.stored n m).numArtificials = 0 from hart), if_neg hart,
      StoredTableau.firstPhase, objectiveRow_stored, ok_bind, width_stored ht.toShaped, ok_bind,
      ht.priceArtificials_stored, ok_bind, ht.priceArtificials.optimize_stored, ok_bind,
      Simplex.firstPhase]
    cases ho : Simplex.optimize cfg limit 0 (Simplex.priceArtificials t) with
    | none => rfl
    | some o =>
      obtain ⟨hlast, hsame⟩ := ht.priceArtificials.optimize ho
      have hrows : o.tableau.rows.length = t.rows.length := hsame.length_rows_eq
      have hwidth : o.tableau.width = t.width := by
        rw [width, hsame.structural_eq, hsame.artificials_eq]
        rfl
      dsimp only [Option.map_some]
      rw [← hrows, ← hwidth, hlast.concludeFirst_stored, ok_bind]
      rfl

/-- What the second phase starts from can be kept. -/
theorem feasibleTableau (ht : Storable n m t) {f : Simplex.Feasible α}
    (h : Simplex.feasibleTableau cfg limit t = some f) (hs : f.tableau? = some s) :
    Storable n m s ∧ s.artificials = 0 ∧ s.rows.length ≤ t.rows.length := by
  unfold Simplex.feasibleTableau at h
  split at h
  · rename_i hart
    cases h
    cases hs
    exact ⟨ht, hart, le_rfl⟩
  · obtain ⟨o, ho, rfl⟩ := Option.map_eq_some_iff.1 h
    obtain ⟨hlast, hsame⟩ := ht.priceArtificials.optimize ho
    obtain ⟨hstorable, hart, hrows⟩ := hlast.concludeFirst hs
    exact ⟨hstorable, hart, hrows.trans_eq hsame.length_rows_eq⟩

/-- **The second phase** has no fault. -/
theorem secondPhase_stored (ht : Storable n m t) {c : List α} (hc : c.length ≤ t.width) :
    (t.stored n m).secondPhase b cfg limit c =
      .ok ((Simplex.secondPhase cfg limit c t).map (Simplex.Optimized.stored n m)) := by
  rw [StoredTableau.secondPhase, ht.priceObjective_stored hc, ok_bind,
    (ht.priceObjective hc).optimize_stored]
  rfl

/-- **The answer is read** without a fault. -/
theorem extract_stored (ht : Storable n m o.tableau) {k : ℕ} (hk : k ≤ capacity) :
    StoredTableau.extract b cfg k (o.stored n m) = .ok (Simplex.extract cfg.tolerance k o) := by
  have hvalues : (o.stored n m).tableau.basicValues b cfg.tolerance k =
      .ok (Simplex.basicValues cfg.tolerance o.tableau k) :=
    basicValues_stored ht.toShaped hk n m cfg.tolerance
  have hcorner : (o.stored n m).tableau.corner b = .ok o.tableau.corner :=
    corner_stored ht.toShaped n m
  rw [StoredTableau.extract, Simplex.extract, hvalues, hcorner]
  cases h : o.ending <;> simp only [Simplex.Optimized.stored, h] <;> rfl

end Tableau.Storable

end Runs

namespace Problem

variable {α : Type} [Scalar α] {p : Problem α} {b : Build} {cfg : Simplex.Config α} {limit : ℕ}

omit [Scalar α] in
/-- There is a column for each coefficient of the objective. -/
theorem length_objective_le {t : Tableau α}
    (ht : Tableau.Storable p.numVariables p.numRows t) : p.objective.length ≤ t.width := by
  have hle : t.structural ≤ t.width := Nat.le_add_right _ _
  rw [ht.structural_eq] at hle
  exact (Nat.le_add_right _ _).trans hle

/-- **The method has no fault**, where memory can hold the first tableau. -/
theorem solve_stored (h : p.Fits) :
    p.stored.solve b cfg limit =
      if p.TableauFits then .ok (Simplex.solve cfg limit p) else .error .capacity := by
  rw [StoredProblem.solve, build_stored h]
  by_cases hfits : p.TableauFits
  swap
  · rw [if_neg hfits, if_neg hfits, error_bind]
  rw [if_pos hfits, if_pos hfits, ok_bind]
  have hstart := hfits.storable
  have hrows : p.stored.constraints.rows = p.numRows := p.height_coefficientMatrix
  have hobjective : p.stored.objective.data = p.objective := data_objectiveMatrix p
  dsimp only
  rw [hstart.feasibleTableau_stored, ok_bind, numVariables_stored, hrows, hobjective, Simplex.solve]
  cases hf : Simplex.feasibleTableau cfg limit (Tableau.ofProblem p) with
  | none => rfl
  | some f =>
    simp only [Option.map_some, Simplex.Feasible.stored, Option.bind_eq_bind, Option.bind_some]
    cases ht : f.tableau? with
    | none =>
      dsimp only [Option.map_none]
      rw [reserve_of_le h.numVariables_le, ok_bind]
      rfl
    | some t =>
      obtain ⟨hstorable, -, -⟩ := hstart.feasibleTableau hf ht
      have hlen := length_objective_le hstorable
      dsimp only [Option.map_some]
      rw [hstorable.secondPhase_stored hlen, ok_bind]
      cases ho : Simplex.secondPhase cfg limit p.objective t with
      | none => rfl
      | some o =>
        have hlast := ((hstorable.priceObjective hlen).optimize ho).1
        dsimp only [Option.map_some]
        rw [hlast.extract_stored h.numVariables_le, ok_bind]
        rfl

end Problem

end Milp
