import Milp.Proofs.Simplex.Optimize
/-!
# The lowest-index rule does not cycle

Pivots by the lowest-index rule never come back to a basis
(`LowestIndexRun.basis_ne`). Otherwise the objective would stand still all
the way, so that every pivot would be in a row with right-hand side zero and
keep the vertex. The largest column that comes and goes would then enter at
one tableau and leave at another, and the ray of the column for which it
leaves would have to lower the objective row where it enters; but there no
smaller column lowers it, and the ratio test rules out the rest
(`Pivots.not_reenter`).
-/

namespace Milp

namespace Simplex

variable {s t : Tableau ℚ} {r q : BasicRow ℚ} {row col j : ℕ} {rule : PivotRule}

/-! ## One pivot -/

namespace Pivots

section OnePivot

variable (hp : Pivots rule t row col r) (ht : Ready t)

include hp

theorem mem_rows : r ∈ t.rows := List.mem_of_getElem? hp.row_eq

include ht

/-- The entering column is not basic. -/
theorem col_not_mem : col ∉ t.basis := by
  intro hmem
  obtain ⟨s, hs, rfl⟩ := Tableau.mem_basis.1 hmem
  exact absurd (ht.priced s hs) hp.cost_neg.ne

/-- **The basis after a pivot**: one column comes and one goes. -/
theorem mem_basis_pivot : j ∈ (t.pivot row col).basis ↔ j = col ∨ j ∈ t.basis ∧ j ≠ r.basic := by
  have hrow : t.basis[row]? = some r.basic := by
    rw [Tableau.basis, List.getElem?_map, hp.row_eq]
    rfl
  have hlt : row < t.basis.length := (List.getElem?_eq_some_iff.1 hrow).1
  rw [Tableau.basis_pivot hp.row_eq, List.mem_iff_getElem?]
  constructor
  · rintro ⟨i, hi⟩
    rw [List.getElem?_set] at hi
    split at hi
    · exact .inl (Option.some.inj hi).symm
    · rename_i hne
      refine .inr ⟨List.mem_of_getElem? hi, ?_⟩
      rintro rfl
      exact hne ((List.getElem?_inj hlt ht.basis_nodup).1 (hrow.trans hi.symm))
  · rintro (rfl | ⟨hmem, hne⟩)
    · exact ⟨row, by rw [List.getElem?_set, if_pos rfl, if_pos hlt]⟩
    · obtain ⟨i, hi⟩ := List.mem_iff_getElem?.1 hmem
      refine ⟨i, ?_⟩
      rw [List.getElem?_set, if_neg, hi]
      rintro rfl
      exact hne (Option.some.inj (hi.symm.trans hrow))

/-- The column that comes is the entering one. -/
theorem eq_col (hj : j ∉ t.basis) (hj' : j ∈ (t.pivot row col).basis) : j = col :=
  ((hp.mem_basis_pivot ht).1 hj').resolve_right fun h => hj h.1

/-- The column that goes is that of the leaving row. -/
theorem eq_basic (hj : j ∈ t.basis) (hj' : j ∉ (t.pivot row col).basis) : j = r.basic := by
  by_contra hne
  exact hj' ((hp.mem_basis_pivot ht).2 (.inr ⟨hj, hne⟩))

/-- **No pivot lowers the objective.** -/
theorem corner_le : t.corner ≤ (t.pivot row col).corner := by
  rw [Tableau.corner_pivot ht.toShaped hp.row_eq]
  have := mul_nonpos_of_nonpos_of_nonneg hp.cost_neg.le (hp.ratio_nonneg ht)
  linarith

/-- One that does not raise it either is in a row with right-hand side
zero. -/
theorem rhs_eq_zero (h : (t.pivot row col).corner ≤ t.corner) : r.rhs = 0 := by
  rw [Tableau.corner_pivot ht.toShaped hp.row_eq] at h
  have hzero : r.rhs / r.entry col = 0 := by
    refine le_antisymm ?_ (hp.ratio_nonneg ht)
    by_contra hpos
    have := mul_neg_of_neg_of_pos hp.cost_neg (not_le.1 hpos)
    linarith
  exact (div_eq_zero_iff.1 hzero).resolve_right hp.entry_pos.ne'

/-- **And it keeps the vertex.** -/
theorem vertex_pivot (h0 : r.rhs = 0) : (t.pivot row col).vertex = t.vertex := by
  refine ((hp.ready ht).toCanonical.eq_vertex
    (((hp.equivalent ht).solves_iff _ _).2 ht.toCanonical.solves_vertex) fun j hj => ?_).symm
  by_cases hmem : j ∈ t.basis
  · rw [hp.eq_basic ht hmem hj, Tableau.vertex, ht.toCanonical.atBasis_basic hp.mem_rows, h0]
  · exact Tableau.vertex_of_not_mem hmem

end OnePivot

section TwoPivots

variable {row' : ℕ} (hs : Ready s) (ht : Ready t) (hvertex : t.vertex = s.vertex)
variable (hp : Pivots .lowestIndex s row col r) (hq : Pivots .lowestIndex t row' r.basic q)
variable (hcol : col < r.basic) (hle : ∀ j ∈ s.basis, j ∉ t.basis → j ≤ r.basic)

include hs ht hvertex hp hq hcol hle

/-- Where the leaving column enters, no column of the ray for which it leaves
lowers the objective row. -/
theorem entry_mul_ray_nonneg (j : ℕ) : 0 ≤ t.objective.entry j * s.ray col j := by
  have hsmall : ∀ j < r.basic, 0 ≤ t.objective.entry j := hq.cost_nonneg rfl
  by_cases hjcol : j = col
  · rw [hjcol, Tableau.ray_self (hp.col_not_mem hs), mul_one]
    exact hsmall col hcol
  by_cases hjs : j ∈ s.basis
  swap
  · rw [Tableau.ray_of_not_mem hjcol hjs, mul_zero]
  by_cases hjt : j ∈ t.basis
  · obtain ⟨v, hv, rfl⟩ := Tableau.mem_basis.1 hjt
    rw [ht.priced v hv, zero_mul]
  have hjle := hle j hjs hjt
  obtain ⟨v, hv, rfl⟩ := Tableau.mem_basis.1 hjs
  rw [hs.toCanonical.ray_basic hv hjcol]
  rcases hjle.eq_or_lt with hb | hlt
  · -- the leaving column itself: its row is the one that leaves
    rw [hs.toCanonical.eq_of_basic_eq hv hp.mem_rows hb]
    exact (mul_pos_of_neg_of_neg hq.cost_neg (neg_neg_iff_pos.2 hp.entry_pos)).le
  · -- a smaller column: its row has right-hand side zero, and did not leave
    refine mul_nonneg (hsmall _ hlt) (neg_nonneg.2 ?_)
    by_contra hpos
    have hv0 : v.rhs = 0 := by
      have hzero := congrFun hvertex v.basic
      rw [Tableau.vertex_of_not_mem hjt, Tableau.vertex, hs.toCanonical.atBasis_basic hv] at hzero
      exact hzero.symm
    obtain ⟨hratio, htie⟩ := hp.ratio_le v hv (not_le.1 hpos)
    rw [hv0, zero_div] at hratio htie
    exact absurd (htie rfl (le_antisymm hratio (hp.ratio_nonneg hs))) (not_le.2 hlt)

/-- **The largest column that comes and goes does not come back.** Two
tableaus say the same and have the same vertex. In one of them a column
leaves for a smaller one, and every column that is basic only there is at
most the leaving one. Then in the other one that column does not enter. -/
theorem not_reenter (heq : Equivalent s t) : False := by
  -- along the ray of the entering column the other objective row falls as well
  have hgap := heq.gap_objective _ _ (hs.toCanonical.solves_ray col)
  rw [Row.gap, Row.gap, zero_mul, sub_zero, zero_mul, sub_zero, hs.priced.value_ray] at hgap
  have hnonneg : 0 ≤ t.objective.value (s.ray col) :=
    dot_nonneg fun j _ => entry_mul_ray_nonneg hs ht hvertex hp hq hcol hle j
  rw [hgap] at hnonneg
  exact absurd hp.cost_neg (not_lt.2 hnonneg)

end TwoPivots

end Pivots

/-! ## Many pivots -/

/-- The `k`-th pivot is by the lowest-index rule, and the column enters. -/
def Enters (T : ℕ → Tableau ℚ) (k col : ℕ) : Prop :=
  ∃ row r, Pivots .lowestIndex (T k) row col r ∧ T (k + 1) = (T k).pivot row col

/-- A run of `n` pivots by the lowest-index rule. -/
structure LowestIndexRun (T : ℕ → Tableau ℚ) (n : ℕ) : Prop where
  /-- Pivoting can start. -/
  ready : Ready (T 0)
  /-- At each step some column enters. -/
  enters : ∀ k < n, ∃ col, Enters T k col

/-- A property that is not there and later is comes at some step. -/
theorem exists_coming {P : ℕ → Prop} {k l : ℕ} (hkl : k ≤ l) (hk : ¬ P k) (hl : P l) :
    ∃ m < l, ¬ P m ∧ P (m + 1) := by
  induction l, hkl using Nat.le_induction with
  | base => exact absurd hl hk
  | succ l _ ih =>
    by_cases hPl : P l
    · obtain ⟨m, hm, hP⟩ := ih hPl
      exact ⟨m, hm.trans (Nat.lt_succ_self l), hP⟩
    · exact ⟨l, Nat.lt_succ_self l, hPl, hl⟩

/-- **In a cycle** what is there at one time and not at another comes at some
step. -/
theorem exists_coming_of_cycle {P : ℕ → Prop} {n k l : ℕ} (hcycle : P 0 ↔ P n) (hkn : k ≤ n)
    (hln : l ≤ n) (hk : ¬ P k) (hl : P l) : ∃ m < n, ¬ P m ∧ P (m + 1) := by
  -- it comes on the way from there to the end or, if it is missing there, from the start
  by_cases h0 : P 0
  · exact exists_coming hkn hk (hcycle.1 h0)
  · obtain ⟨m, hm, hP⟩ := exists_coming (Nat.zero_le l) h0 hl
    exact ⟨m, hm.trans_le hln, hP⟩

namespace LowestIndexRun

variable {T : ℕ → Tableau ℚ} {n k l : ℕ}

theorem ready_equivalent (h : LowestIndexRun T n) (hk : k ≤ n) :
    Ready (T k) ∧ Equivalent (T 0) (T k) := by
  induction k with
  | zero => exact ⟨h.ready, .refl _⟩
  | succ k ih =>
    obtain ⟨hready, heq⟩ := ih (by omega)
    obtain ⟨col, row, r, hp, hT⟩ := h.enters k hk
    rw [hT]
    exact ⟨hp.ready hready, heq.trans (hp.equivalent hready)⟩

theorem corner_mono (h : LowestIndexRun T n) (hkl : k ≤ l) (hl : l ≤ n) :
    (T k).corner ≤ (T l).corner := by
  induction l, hkl using Nat.le_induction with
  | base => exact le_rfl
  | succ l _ ih =>
    obtain ⟨col, row, r, hp, hT⟩ := h.enters l hl
    rw [hT]
    exact (ih (by omega)).trans (hp.corner_le (h.ready_equivalent (by omega)).1)

/-- There is a largest column that enters. -/
theorem exists_largest (h : LowestIndexRun T n) (hn : 0 < n) :
    ∃ c, (∃ k < n, Enters T k c) ∧ ∀ k < n, ∀ col, Enters T k col → col ≤ c := by
  classical
  have hlt : ∀ {k col}, k < n → Enters T k col → col < (T 0).width := by
    rintro k col hk ⟨row, r, hp, -⟩
    rw [← (h.ready_equivalent hk.le).2.width_eq]
    exact hp.col_lt
  obtain ⟨col, hcol⟩ := h.enters 0 hn
  obtain ⟨c, hc, hmax⟩ := ((Finset.range (T 0).width).filter fun c =>
    ∃ k < n, Enters T k c).exists_max_image id
    ⟨col, Finset.mem_filter.2 ⟨Finset.mem_range.2 (hlt hn hcol), 0, hn, hcol⟩⟩
  exact ⟨c, (Finset.mem_filter.1 hc).2, fun k hk col he =>
    hmax col (Finset.mem_filter.2 ⟨Finset.mem_range.2 (hlt hk he), k, hk, he⟩)⟩

/-! ### Cycles -/

section Cycle

variable (h : LowestIndexRun T n) (hcycle : ∀ j, j ∈ (T 0).basis ↔ j ∈ (T n).basis)

include h hcycle

/-- **The same basis has the same objective**, so it stands still. -/
theorem corner_le (hk : k ≤ n) : (T k).corner ≤ (T 0).corner := by
  obtain ⟨hready, heq⟩ := h.ready_equivalent le_rfl
  have hsol := h.ready.toCanonical.solves_vertex
  have hvertex : (T 0).vertex = (T n).vertex :=
    hready.toCanonical.eq_vertex ((heq.solves_iff _ _).2 hsol) fun j hj =>
      Tableau.vertex_of_not_mem fun hmem => hj ((hcycle j).1 hmem)
  have hgap := heq.gap_objective _ _ hsol
  rw [h.ready.priced.gap_vertex, hvertex, hready.priced.gap_vertex] at hgap
  exact (h.corner_mono hk le_rfl).trans_eq (neg_inj.1 hgap)

/-- **And the vertex stays.** -/
theorem vertex_eq (hk : k ≤ n) : (T k).vertex = (T 0).vertex := by
  induction k with
  | zero => rfl
  | succ k ih =>
    have hready := (h.ready_equivalent (k := k) (by omega)).1
    obtain ⟨col, row, r, hp, hT⟩ := h.enters k hk
    -- the objective stands still, so the pivot is in a row with right-hand side zero
    have hstill : (T (k + 1)).corner ≤ (T k).corner :=
      (h.corner_le hcycle hk).trans (h.corner_mono (Nat.zero_le k) (by omega))
    rw [hT] at hstill ⊢
    rw [hp.vertex_pivot hready (hp.rhs_eq_zero hready hstill), ih (by omega)]

/-- A column that is basic at one time and not at another enters. -/
theorem exists_enters (hk : k ≤ n) (hl : l ≤ n) (hjk : j ∉ (T k).basis) (hjl : j ∈ (T l).basis) :
    ∃ m < n, Enters T m j := by
  obtain ⟨m, hm, hnot, hmem⟩ := exists_coming_of_cycle (P := fun m => j ∈ (T m).basis)
    (hcycle j) hk hl hjk hjl
  obtain ⟨col, row, r, hp, hT⟩ := h.enters m hm
  rw [hT] at hmem
  rw [hp.eq_col (h.ready_equivalent hm.le).1 hnot hmem]
  exact ⟨m, hm, row, r, hp, hT⟩

/-- And at some step it leaves. -/
theorem exists_leaves (hk : k ≤ n) (hl : l ≤ n) (hjk : j ∉ (T k).basis) (hjl : j ∈ (T l).basis) :
    ∃ m < n, ∃ row col r, Pivots .lowestIndex (T m) row col r ∧
      T (m + 1) = (T m).pivot row col ∧ r.basic = j := by
  obtain ⟨m, hm, hmem, hnot⟩ := exists_coming_of_cycle (P := fun m => j ∉ (T m).basis)
    (not_congr (hcycle j)) hl hk (not_not.2 hjl) hjk
  obtain ⟨col, row, r, hp, hT⟩ := h.enters m hm
  rw [hT] at hnot
  exact ⟨m, hm, row, col, r, hp, hT,
    (hp.eq_basic (h.ready_equivalent hm.le).1 (not_not.1 hmem) hnot).symm⟩

end Cycle

/-- **The lowest-index rule does not come back to a basis.** -/
theorem basis_ne (h : LowestIndexRun T n) (hn : 0 < n) :
    (T 0).basis.toFinset ≠ (T n).basis.toFinset := by
  intro hsets
  have hcycle : ∀ j, j ∈ (T 0).basis ↔ j ∈ (T n).basis := fun j => by
    rw [← List.mem_toFinset, hsets, List.mem_toFinset]
  -- the largest column that enters: basic right after that, so it leaves as well
  obtain ⟨c, ⟨k, hk, row, q, hq, hT⟩, hmax⟩ := h.exists_largest hn
  obtain ⟨hkready, hkeq⟩ := h.ready_equivalent hk.le
  have hmem : c ∈ (T (k + 1)).basis := hT ▸ (hq.mem_basis_pivot hkready).2 (.inl rfl)
  obtain ⟨m, hm, row', col, r, hp, hT', rfl⟩ :=
    h.exists_leaves hcycle hk.le hk (hq.col_not_mem hkready) hmem
  obtain ⟨hmready, hmeq⟩ := h.ready_equivalent hm.le
  refine Pivots.not_reenter hmready hkready ?_ hp hq ?_ (fun j hj hj' => ?_) (hmeq.symm.trans hkeq)
  · rw [h.vertex_eq hcycle hk.le, h.vertex_eq hcycle hm.le]
  · refine (hmax m hm col ⟨row', r, hp, hT'⟩).lt_of_ne fun heq => hp.col_not_mem hmready ?_
    rw [heq]
    exact Tableau.mem_basis.2 ⟨r, hp.mem_rows, rfl⟩
  · obtain ⟨i, hi, he⟩ := h.exists_enters hcycle hk.le hm.le hj' hj
    exact hmax i hi j he

end LowestIndexRun

end Simplex

end Milp
