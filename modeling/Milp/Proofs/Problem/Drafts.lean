import Mathlib.Data.List.Basic
import Milp.Problem.Draft
/-!
# Drafts that describe a problem

A draft describes a problem when its sizes fit and its integer variables exist
(`Draft.WellFormed`), and a problem is made from exactly those drafts
(`ofDraft_eq_ok_iff`). Making the problem of its own draft gives it back
(`ofDraft_toDraft`), and the draft of a problem that was made from a draft has
the same data, with the integer variables in order (`toDraft_toProblem`).
-/

namespace Milp

variable {α : Type}

/-! ## Matrices of plain data -/

namespace Matrix

variable {m : Matrix α} {values : List α} {rows : List (List α)}

theorem ofVector_eq_ok_iff :
    ofVector values = .ok m ↔ values ≠ [] ∧ m.rows = [values] := by
  unfold ofVector
  split
  · rename_i hnil
    exact iff_of_false nofun fun h => h.1 hnil
  · rename_i hne
    rw [Except.ok.injEq]
    constructor
    · rintro rfl
      exact ⟨hne, rfl⟩
    · exact fun h => ext_rows h.2.symm

/-- What is made from rows has these rows, and is made whenever they are the
rows of a matrix. -/
theorem ofRows_eq_ok_iff : ofRows rows = .ok m ↔ m.rows = rows := by
  unfold ofRows
  split
  · exact iff_of_false nofun m.rows_ne_nil
  · rename_i first rest
    constructor
    · intro h
      split at h
      · cases h
      · split at h
        · cases h
          rfl
        · cases h
    · intro h
      have hmem : first ∈ m.rows := h ▸ List.mem_cons_self
      have hcols : first.length = m.cols := m.length_of_mem _ hmem
      have hpos := m.cols_pos
      have hall : ∀ r ∈ first :: rest, r.length = first.length :=
        fun r hr => (m.length_of_mem r (h ▸ hr)).trans hcols.symm
      rw [dif_neg (by omega), dif_pos hall, Except.ok.injEq]
      exact ext_rows h.symm

end Matrix

/-! ## Rows of plain data -/

namespace Row

variable {coefficients : List (List α)} {rhs : List α}

theorem map_coefficients_ofLists (h : rhs.length = coefficients.length) :
    (ofLists coefficients rhs).map (·.coefficients) = coefficients := by
  refine List.ext_getElem ?_ fun i hi hi' => ?_
  · rw [List.length_map, length_ofLists h]
  · simp [ofLists]

theorem map_rhs_ofLists (h : rhs.length = coefficients.length) :
    (ofLists coefficients rhs).map (·.rhs) = rhs := by
  refine List.ext_getElem ?_ fun i hi hi' => ?_
  · rw [List.length_map, length_ofLists h, h]
  · simp [ofLists]

end Row

/-! ## Well-formed drafts -/

/-- **A draft whose sizes fit** and whose integer variables exist. -/
structure Draft.WellFormed (d : Draft α) : Prop where
  /-- There is a variable. -/
  objective_ne_nil : d.objective ≠ []
  /-- There is a row. -/
  constraints_ne_nil : d.constraints ≠ []
  /-- Every row has one coefficient per variable. -/
  length_of_mem : ∀ r ∈ d.constraints, r.length = d.objective.length
  /-- There is one right-hand side per row. -/
  length_rhs : d.rhs.length = d.constraints.length
  /-- The integer variables are variables. -/
  lt_of_mem : ∀ js, d.integerVariables = some js → ∀ j ∈ js, j < d.objective.length

namespace Draft

variable {d : Draft α}

/-- Whether a draft asks for an integer. -/
def asksInteger (d : Draft α) (j : ℕ) : Bool :=
  match d.integerVariables with
  | none => true
  | some js => js.contains j

/-- The problem of a well-formed draft. -/
def WellFormed.toProblem (h : d.WellFormed) : Problem α where
  objective := d.objective
  rows := Row.ofLists d.constraints d.rhs
  integer := (List.range d.objective.length).map d.asksInteger
  objective_ne_nil := h.objective_ne_nil
  rows_ne_nil := List.ne_nil_of_length_pos (by
    rw [Row.length_ofLists h.length_rhs]
    exact List.length_pos_iff.2 h.constraints_ne_nil)
  length_coefficients _ hr := h.length_of_mem _ (Row.coefficients_of_mem_ofLists hr)
  length_integer := by simp

end Draft

namespace Problem

variable {d : Draft α} {p q : Problem α}

/-- Problems with the same data are the same. -/
theorem eq_of_data_eq (hobjective : p.objective = q.objective) (hrows : p.rows = q.rows)
    (hinteger : p.integer = q.integer) : p = q := by
  cases p
  cases q
  cases hobjective
  cases hrows
  cases hinteger
  rfl

/-- **What three matrices make**: a problem, exactly when their sizes fit. -/
theorem ofMatrices_eq_ok_iff {objective constraints rhs : Matrix α} {os bs : List α}
    (hobjective : objective.rows = [os]) (hrhs : rhs.rows = [bs]) :
    ofMatrices objective constraints rhs = .ok p ↔
      constraints.cols = os.length ∧ bs.length = constraints.height ∧ p.objective = os ∧
        p.rows = Row.ofLists constraints.rows bs ∧ p.integer = List.replicate os.length true := by
  have hheight : objective.height = 1 := congrArg List.length hobjective
  have hcols : objective.cols = os.length :=
    (objective.length_of_mem os (hobjective ▸ List.mem_singleton_self os)).symm
  have hhead : objective.rows.head objective.rows_ne_nil = os := by
    simp only [hobjective, List.head_cons]
  have hvector : rhs.isVector = true := by
    have : rhs.height = 1 := congrArg List.length hrhs
    rw [Matrix.isVector, this]
    rfl
  have hflatten : rhs.rows.flatten = bs := by
    rw [hrhs, List.flatten_cons, List.flatten_nil, List.append_nil]
  unfold ofMatrices
  rw [if_neg (not_not.2 hheight)]
  split
  · rename_i hne
    exact iff_of_false nofun fun h => hne (h.1.trans hcols.symm)
  · rename_i hc
    split
    · rename_i hne
      exact iff_of_false nofun fun h => hne (hflatten ▸ h.2.1)
    · rename_i hb
      rw [not_not, hflatten] at hb
      rw [Except.ok.injEq]
      constructor
      · rintro rfl
        refine ⟨(not_not.1 hc).trans hcols, hb, hhead, ?_, ?_⟩
        · simp only [hflatten]
        · simp only [hhead]
      · rintro ⟨-, -, h₁, h₂, h₃⟩
        refine eq_of_data_eq (hhead.trans h₁.symm) ?_ ?_
        · simp only [hflatten, h₂]
        · simp only [hhead, h₃]

/-- **Restricting the integer variables** succeeds when they are variables. -/
theorem restrictTo_eq_ok_iff {js : List ℕ} : p.restrictTo js = .ok q ↔
    (∀ j ∈ js, j < p.numVariables) ∧ q.objective = p.objective ∧ q.rows = p.rows ∧
      q.integer = (List.range p.numVariables).map js.contains := by
  unfold restrictTo
  split
  · rename_i j hfind
    refine iff_of_false nofun fun h => ?_
    have hlt := h.1 j (List.mem_of_find?_eq_some hfind)
    have hle : p.numVariables ≤ j := by simpa using List.find?_some hfind
    exact absurd hlt (Nat.not_lt.2 hle)
  · rename_i hnone
    have hall : ∀ j ∈ js, j < p.numVariables := fun j hj => by
      simpa using List.find?_eq_none.1 hnone j hj
    rw [Except.ok.injEq]
    constructor
    · rintro rfl
      exact ⟨hall, rfl, rfl, rfl⟩
    · rintro ⟨-, h₁, h₂, h₃⟩
      exact eq_of_data_eq h₁.symm h₂.symm h₃.symm

/-- A problem of three matrices has all variables integer. -/
theorem integer_replicate_eq (h : d.WellFormed) (hnone : d.integerVariables = none) :
    List.replicate d.objective.length true = h.toProblem.integer := by
  have hasks : d.asksInteger = fun _ => true := by
    funext j
    rw [Draft.asksInteger, hnone]
  show _ = (List.range d.objective.length).map d.asksInteger
  rw [hasks, List.map_const', List.length_range]

theorem bind_eq_ok_iff {ε β γ : Type} {x : Except ε β} {f : β → Except ε γ} {c : γ} :
    x >>= f = .ok c ↔ ∃ b, x = .ok b ∧ f b = .ok c := by
  cases x with
  | error e => exact iff_of_false nofun nofun
  | ok b => simp [bind, Except.bind]

/-- **A problem is made from the well-formed drafts**, and is theirs. -/
theorem ofDraft_eq_ok_iff : ofDraft d = .ok p ↔ ∃ h : d.WellFormed, p = h.toProblem := by
  simp only [ofDraft, bind_eq_ok_iff, Matrix.ofVector_eq_ok_iff, Matrix.ofRows_eq_ok_iff]
  constructor
  · rintro ⟨o, ⟨ho, hobjective⟩, c, hc, b, ⟨hb, hrhs⟩, q, hq, hp⟩
    obtain ⟨hcols, hheight, hqo, hqr, hqi⟩ := (ofMatrices_eq_ok_iff hobjective hrhs).1 hq
    have hlength : ∀ r ∈ d.constraints, r.length = d.objective.length :=
      fun r hr => (c.length_of_mem r (hc ▸ hr)).trans hcols
    have hconstraints : d.constraints ≠ [] := hc ▸ c.rows_ne_nil
    rw [hc] at hqr
    have hbounds : d.rhs.length = d.constraints.length := hc ▸ hheight
    have hvariables : q.numVariables = d.objective.length := congrArg List.length hqo
    cases hlist : d.integerVariables with
    | none =>
      rw [hlist] at hp
      cases hp
      have h : d.WellFormed := ⟨ho, hconstraints, hlength, hbounds, by rw [hlist]; nofun⟩
      exact ⟨h, eq_of_data_eq hqo hqr (hqi.trans (integer_replicate_eq h hlist))⟩
    | some js =>
      rw [hlist] at hp
      obtain ⟨hlt, hpo, hpr, hpi⟩ := restrictTo_eq_ok_iff.1 hp
      have h : d.WellFormed := ⟨ho, hconstraints, hlength, hbounds, by
        rintro _ hjs
        cases hlist.symm.trans hjs
        exact hvariables ▸ hlt⟩
      refine ⟨h, eq_of_data_eq (hpo.trans hqo) (hpr.trans hqr) (hpi.trans ?_)⟩
      rw [hvariables]
      simp only [Draft.WellFormed.toProblem]
      refine List.map_congr_left fun j _ => ?_
      rw [Draft.asksInteger, hlist]
  · rintro ⟨h, rfl⟩
    have hpos : 0 < d.objective.length := List.length_pos_iff.2 h.objective_ne_nil
    have hrhs : d.rhs ≠ [] := fun hnil =>
      h.constraints_ne_nil (List.length_eq_zero_iff.1 (by rw [← h.length_rhs, hnil]; rfl))
    -- the matrices that are made on the way, and the problem before its flags are set
    let o : Matrix α := ⟨[d.objective], d.objective.length, List.cons_ne_nil _ _, hpos, by simp⟩
    let c : Matrix α :=
      ⟨d.constraints, d.objective.length, h.constraints_ne_nil, hpos, h.length_of_mem⟩
    let b : Matrix α :=
      ⟨[d.rhs], d.rhs.length, List.cons_ne_nil _ _, List.length_pos_iff.2 hrhs, by simp⟩
    let q : Problem α :=
      { h.toProblem with
        integer := List.replicate d.objective.length true
        length_integer := List.length_replicate }
    have hq : ofMatrices o c b = .ok q :=
      (ofMatrices_eq_ok_iff rfl rfl).2 ⟨rfl, h.length_rhs, rfl, rfl, rfl⟩
    refine ⟨o, ⟨h.objective_ne_nil, rfl⟩, c, rfl, b, ⟨hrhs, rfl⟩, q, hq, ?_⟩
    cases hlist : d.integerVariables with
    | none => exact congrArg Except.ok (eq_of_data_eq rfl rfl (integer_replicate_eq h hlist))
    | some js =>
      refine restrictTo_eq_ok_iff.2 ⟨h.lt_of_mem js hlist, rfl, rfl, ?_⟩
      refine List.map_congr_left fun j _ => ?_
      rw [Draft.asksInteger, hlist]

/-! ## The draft of a problem -/

theorem ofLists_coefficients_rhs (p : Problem α) : Row.ofLists p.coefficients p.rhs = p.rows := by
  rw [Row.ofLists, coefficients, rhs, List.zipWith_map, List.zipWith_self, List.map_id']

/-- The draft of a problem is well-formed. -/
theorem wellFormed_toDraft (p : Problem α) : p.toDraft.WellFormed where
  objective_ne_nil := p.objective_ne_nil
  constraints_ne_nil h := p.rows_ne_nil (List.map_eq_nil_iff.1 h)
  length_of_mem r hr := by
    obtain ⟨row, hrow, rfl⟩ := List.mem_map.1 hr
    exact p.length_coefficients row hrow
  length_rhs := by
    simp only [toDraft, rhs, coefficients, List.length_map]
  lt_of_mem js hjs j hj := by
    simp only [toDraft] at hjs
    split at hjs
    · cases hjs
    · cases hjs
      exact List.mem_range.1 (List.mem_filter.1 hj).1

/-- The draft of a problem asks for its integer variables. -/
theorem asksInteger_toDraft (p : Problem α) {j : ℕ} (hj : j < p.numVariables) :
    p.toDraft.asksInteger j = p.isInteger j := by
  have hflag : j < p.integer.length := p.length_integer.symm ▸ hj
  unfold Draft.asksInteger toDraft
  split
  · rename_i hlist
    split at hlist
    · rename_i hall
      rw [isInteger, List.getD_eq_getElem?_getD, List.getElem?_eq_getElem hflag, Option.getD_some]
      exact (List.all_eq_true.1 hall _ (List.getElem_mem hflag)).symm
    · cases hlist
  · rename_i js hlist
    split at hlist
    · cases hlist
    · cases hlist
      rw [Bool.eq_iff_iff]
      simp [integerVariables, hj]

/-- The problem of its own draft is the problem. -/
theorem toProblem_toDraft (p : Problem α) : p.wellFormed_toDraft.toProblem = p := by
  refine eq_of_data_eq rfl p.ofLists_coefficients_rhs ?_
  refine List.ext_getElem (by simp [Draft.WellFormed.toProblem, toDraft, p.length_integer]) ?_
  intro j hj hflag
  have hvariable : j < p.numVariables := Nat.lt_of_lt_of_eq hflag p.length_integer
  simp only [Draft.WellFormed.toProblem, List.getElem_map, List.getElem_range,
    p.asksInteger_toDraft hvariable]
  rw [isInteger, List.getD_eq_getElem?_getD, List.getElem?_eq_getElem hflag, Option.getD_some]

/-- **A problem is made from its draft.** -/
theorem ofDraft_toDraft (p : Problem α) : ofDraft p.toDraft = .ok p :=
  ofDraft_eq_ok_iff.2 ⟨p.wellFormed_toDraft, p.toProblem_toDraft.symm⟩

end Problem

namespace Draft

variable {d : Draft α}

/-- **A draft with its integer variables in order**, and listed only when some
variable is not one. -/
def inOrder (d : Draft α) : Draft α :=
  { d with
    integerVariables :=
      if (List.range d.objective.length).all d.asksInteger then none
      else some ((List.range d.objective.length).filter d.asksInteger) }

/-- The integer variables are left out when there is no other variable. -/
theorem inOrder_eq_none_iff : d.inOrder.integerVariables = none ↔
    ∀ j < d.objective.length, d.asksInteger j = true := by
  simp only [inOrder]
  split
  · rename_i hall
    exact iff_of_true rfl fun j hj => List.all_eq_true.1 hall j (List.mem_range.2 hj)
  · rename_i hnot
    refine iff_of_false nofun fun hall => hnot (List.all_eq_true.2 fun j hj => ?_)
    exact hall j (List.mem_range.1 hj)

/-- **Listed integer variables are ascending**, and those the draft asks for. -/
theorem of_inOrder_eq_some {js : List ℕ} (h : d.inOrder.integerVariables = some js) :
    js.Pairwise (· < ·) ∧ ∀ j, j ∈ js ↔ j < d.objective.length ∧ d.asksInteger j = true := by
  simp only [inOrder] at h
  split at h
  · cases h
  · cases h
    refine ⟨List.pairwise_lt_range.filter _, fun j => ?_⟩
    rw [List.mem_filter, List.mem_range]

/-- **The draft of the problem of a draft** is that draft, with its integer
variables in order. -/
theorem WellFormed.toDraft_toProblem (h : d.WellFormed) : h.toProblem.toDraft = d.inOrder := by
  have hcoefficients : h.toProblem.coefficients = d.constraints :=
    Row.map_coefficients_ofLists h.length_rhs
  have hrhs : h.toProblem.rhs = d.rhs := Row.map_rhs_ofLists h.length_rhs
  have hall : h.toProblem.integer.all id = (List.range d.objective.length).all d.asksInteger := by
    simp only [toProblem, List.all_map, Function.id_comp]
  have hvariables : h.toProblem.integerVariables =
      (List.range d.objective.length).filter d.asksInteger := by
    refine List.filter_congr fun j hj => ?_
    have hlt : j < d.objective.length := List.mem_range.1 hj
    simp [Problem.isInteger, toProblem, hlt]
  rw [Problem.toDraft, hcoefficients, hrhs, hall, hvariables]
  rfl

end Draft

end Milp
