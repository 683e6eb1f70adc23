import Milp.Json.Documents
import Milp.Proofs.Json.Reading
import Milp.Proofs.Problem.Drafts
/-!
# Problems as documents

A draft is written as a record of its fields. When all its entries are finite
and are read back one by one, the draft is read back (`Draft.reader_recordTokens`);
when one of them is not finite it is written as null, and the text is refused
(`Draft.exists_reader_recordTokens`). So a problem goes through its draft and
through its text unchanged (`Problem.roundTrip`), whatever the format of doubles.
-/

namespace Milp

open Json

namespace Draft

variable {d : Draft Double}

/-- The entries of a draft. -/
def entries (d : Draft Double) : List Double := d.objective ++ d.constraints.flatten ++ d.rhs

/-- The tokens of an index. -/
def indexTokens (j : ℕ) : List Token := [.number (.ok (.natural j))]

/-- The tokens of the integer variables, which may not be listed. -/
def integerTokens (d : Draft Double) : List (String × List Token) :=
  match d.integerVariables with
  | none => []
  | some js => [("integer_variables", listTokens (js.map indexTokens))]

/-- The integer variables are read. -/
theorem readsFields_integer (o : List Double) (c : List (List Double)) (b : List Double) :
    ReadsFields field ⟨some o, some c, some b, none⟩ d.integerTokens
      ⟨some o, some c, some b, d.integerVariables.map some⟩ := by
  unfold integerTokens
  cases d.integerVariables with
  | none => exact .nil _
  | some js =>
    have hlist : Reads (list index) (listTokens (js.map indexTokens)) js :=
      reads_list_map fun j _ => ⟨⟨_, _, rfl, nofun, nofun⟩, fun _ => rfl⟩
    -- a list is not null
    have hoptional : Reads (optional (list index)) (listTokens (js.map indexTokens)) (some js) :=
      ⟨hlist.starts, (hlist.map some).eq⟩
    exact .cons rfl (hoptional.map fun v => (⟨some o, some c, some b, some v⟩ : Partial)) (.nil _)

theorem reader_openRecord (ts : List Token) : reader (.openRecord :: ts) =
    (fields field (ts.length + 1) true {} ts).bind fun r =>
      r.1.complete.bind fun d => .ok (d, r.2) := rfl

section Format

variable [NumberFormat]

/-- The tokens of the fields. -/
def tokens (d : Draft Double) : List (String × List Token) :=
  ("objective", doublesTokens d.objective) ::
    ("constraints", listTokens (d.constraints.map doublesTokens)) ::
      ("rhs", doublesTokens d.rhs) :: d.integerTokens

/-- **A draft that can be written and read**: finite entries are read back one
by one, and the integer variables are indices. -/
structure Legible (d : Draft Double) : Prop where
  /-- Finite entries of the objective are read back. -/
  objective : ∀ x ∈ d.objective, x.IsFinite → ReadsBack x
  /-- So are finite coefficients. -/
  constraints : ∀ xs ∈ d.constraints, ∀ x ∈ xs, x.IsFinite → ReadsBack x
  /-- So are finite right-hand sides. -/
  rhs : ∀ x ∈ d.rhs, x.IsFinite → ReadsBack x
  /-- An integer variable has an index. -/
  index : ∀ js, d.integerVariables = some js → ∀ j ∈ js, j < wordLimit

/-! ## Writing -/

/-- **A draft is written** as the tokens of its fields. -/
theorem Legible.lexes_toValue (h : d.Legible) : d.toValue.Lexes (recordTokens d.tokens) := by
  have hinteger : ∀ js, d.integerVariables = some js →
      (Value.list (js.map .natural)).Lexes (listTokens (js.map indexTokens)) := fun js hjs =>
    Value.lexes_list (List.forall₂_map_left_iff.2 (List.forall₂_map_right_iff.2
      (List.forall₂_same.2 fun j hj => Value.lexes_natural (h.index js hjs j hj))))
  have hobjective : IsName "objective" := by decide
  have hconstraints : IsName "constraints" := by decide
  have hrhs : IsName "rhs" := by decide
  have hvariables : IsName "integer_variables" := by decide
  refine Value.lexes_record ?_
  refine .cons ⟨rfl, hobjective, lexes_doubles h.objective⟩ ?_
  refine .cons ⟨rfl, hconstraints, lexes_doublesList h.constraints⟩ ?_
  refine .cons ⟨rfl, hrhs, lexes_doubles h.rhs⟩ ?_
  unfold integerTokens
  cases hjs : d.integerVariables with
  | none => exact .nil
  | some js => exact .cons ⟨rfl, hvariables, hinteger js hjs⟩ .nil

/-! ## Reading -/

/-- **A draft with finite entries is read.** -/
theorem Legible.readsFields (h : d.Legible) (hobjective : ∀ x ∈ d.objective, x.IsFinite)
    (hconstraints : ∀ xs ∈ d.constraints, ∀ x ∈ xs, x.IsFinite) (hrhs : ∀ x ∈ d.rhs, x.IsFinite) :
    ReadsFields field {} d.tokens
      ⟨some d.objective, some d.constraints, some d.rhs, d.integerVariables.map some⟩ := by
  have hread := reads_doubles h.objective hobjective
  refine .cons rfl (hread.map fun v => (⟨some v, none, none, none⟩ : Partial)) ?_
  have hread := reads_doublesList h.constraints hconstraints
  refine .cons rfl (hread.map fun v => (⟨some d.objective, some v, none, none⟩ : Partial)) ?_
  have hread := reads_doubles h.rhs hrhs
  refine .cons rfl (hread.map fun v => (⟨some d.objective, some d.constraints, some v, none⟩ : Partial)) ?_
  exact readsFields_integer _ _ _

/-- **A draft with an entry that is not finite is refused**, at the first field
that has one. -/
theorem Legible.refusesFields (h : d.Legible) (hex : ∃ x ∈ d.entries, ¬ x.IsFinite) :
    RefusesFields field {} d.tokens := by
  by_cases hobjective : ∀ x ∈ d.objective, x.IsFinite
  swap
  · have hrefused := refuses_doubles h.objective (by simpa using hobjective)
    exact .here rfl (hrefused.map fun v => (⟨some v, none, none, none⟩ : Partial))
  have hread := reads_doubles h.objective hobjective
  refine .later rfl (hread.map fun v => (⟨some v, none, none, none⟩ : Partial)) ?_
  by_cases hconstraints : ∀ xs ∈ d.constraints, ∀ x ∈ xs, x.IsFinite
  swap
  · have hrefused := refuses_doublesList h.constraints (by simpa using hconstraints)
    exact .here rfl (hrefused.map fun v => (⟨some d.objective, some v, none, none⟩ : Partial))
  have hread := reads_doublesList h.constraints hconstraints
  refine .later rfl (hread.map fun v => (⟨some d.objective, some v, none, none⟩ : Partial)) ?_
  -- only a right-hand side can be left that is not finite
  obtain ⟨x, hx, hinfinite⟩ := hex
  have hrhs : x ∈ d.rhs := by
    rcases List.mem_append.1 hx with hx | hx
    · rcases List.mem_append.1 hx with hx | hx
      · exact absurd (hobjective x hx) hinfinite
      · obtain ⟨xs, hxs, hx⟩ := List.mem_flatten.1 hx
        exact absurd (hconstraints xs hxs x hx) hinfinite
    · exact hx
  have hrefused := refuses_doubles h.rhs ⟨x, hrhs, hinfinite⟩
  exact .here rfl
    (hrefused.map fun v => (⟨some d.objective, some d.constraints, some v, none⟩ : Partial))

/-- **A draft with finite entries is the draft of its text.** -/
theorem Legible.reader_recordTokens (h : d.Legible) (hfinite : ∀ x ∈ d.entries, x.IsFinite) :
    reader (recordTokens d.tokens) = .ok (d, []) := by
  have hfields := h.readsFields
    (fun x hx => hfinite x (List.mem_append_left _ (List.mem_append_left _ hx)))
    (fun xs hxs x hx => hfinite x
      (List.mem_append_left _ (List.mem_append_right _ (List.mem_flatten_of_mem hxs hx))))
    (fun x hx => hfinite x (List.mem_append_right _ hx))
  have hjoin : (d.integerVariables.map some).join = d.integerVariables := by
    cases d.integerVariables <;> rfl
  rw [recordTokens, List.cons_append, reader_openRecord]
  refine (congrArg (Except.bind · _) (hfields.fields_all [])).trans ?_
  show Except.ok (_, _) = _
  rw [hjoin]

/-- **A draft with an entry that is not finite has no text.** -/
theorem Legible.exists_reader_recordTokens (h : d.Legible)
    (hex : ∃ x ∈ d.entries, ¬ x.IsFinite) : ∃ e, reader (recordTokens d.tokens) = .error e := by
  rw [recordTokens, List.cons_append, reader_openRecord]
  obtain ⟨e, he⟩ := (h.refusesFields hex).exists_fields_eq [Token.closeRecord] _ true
  exact ⟨e, congrArg (Except.bind · _) he⟩

end Format

end Draft

namespace Problem

variable {p : Problem Double}

/-- The draft of a problem can be written and read. -/
theorem legible_toDraft [NumberFormat] (hn : p.numVariables ≤ wordLimit)
    (h : ∀ x ∈ p.toDraft.entries, x.IsFinite → ReadsBack x) : p.toDraft.Legible where
  objective x hx := h x (List.mem_append_left _ (List.mem_append_left _ hx))
  constraints _ hxs x hx :=
    h x (List.mem_append_left _ (List.mem_append_right _ (List.mem_flatten_of_mem hxs hx)))
  rhs x hx := h x (List.mem_append_right _ hx)
  index js hjs j hj := Nat.lt_of_lt_of_le (p.wellFormed_toDraft.lt_of_mem js hjs j hj) hn

/-- The text of a problem has the tokens of its draft. -/
theorem tokens_toJson [NumberFormat] (h : p.toDraft.Legible) :
    tokens p.toJson.toList = recordTokens p.toDraft.tokens := by
  have htext : p.toJson.toList = p.toDraft.toValue.write .none 0 := String.toList_ofList
  rw [htext, (h.lexes_toValue 0).tokens_eq]

/-- **Problems go through drafts and texts unchanged.** A problem is made from
its draft, bit by bit. The drafts that make a problem are the well-formed ones,
and the draft of that problem is the given one with its integer variables in
order. In every format of doubles: when finite entries are read back one by one, a
problem with finite entries is read back from its text, and the text of any other
is refused. -/
theorem roundTrip :
    (∀ p : Problem Double, ofDraft p.toDraft = .ok p) ∧
    (∀ d : Draft Double, (∃ p, ofDraft d = .ok p) ↔ d.WellFormed) ∧
    (∀ (d : Draft Double) (p : Problem Double), ofDraft d = .ok p →
      p.toDraft = d.inOrder ∧
      (d.inOrder.integerVariables = none ↔
        ∀ j < d.objective.length, d.asksInteger j = true) ∧
      ∀ js, d.inOrder.integerVariables = some js →
        js.Pairwise (· < ·) ∧ ∀ j, j ∈ js ↔ j < d.objective.length ∧ d.asksInteger j = true) ∧
    (∀ [NumberFormat] (p : Problem Double), p.numVariables ≤ wordLimit →
      (∀ x ∈ p.toDraft.entries, x.IsFinite → ReadsBack x) →
        ((∀ x ∈ p.toDraft.entries, x.IsFinite) → ofJson p.toJson = .ok p) ∧
        ((∃ x ∈ p.toDraft.entries, ¬ x.IsFinite) → ∃ e, ofJson p.toJson = .error e)) := by
  refine ⟨ofDraft_toDraft, fun d => ?_, fun d p hp => ?_, fun {_} p hn hback => ⟨?_, ?_⟩⟩
  · constructor
    · rintro ⟨p, hp⟩
      exact (ofDraft_eq_ok_iff.1 hp).1
    · exact fun h => ⟨h.toProblem, ofDraft_eq_ok_iff.2 ⟨h, rfl⟩⟩
  · obtain ⟨h, rfl⟩ := ofDraft_eq_ok_iff.1 hp
    exact ⟨h.toDraft_toProblem, Draft.inOrder_eq_none_iff, fun js => Draft.of_inOrder_eq_some⟩
  · intro hfinite
    have h := legible_toDraft hn hback
    refine whole_eq_ok ?_
    simp only [reader, tokens_toJson h, h.reader_recordTokens hfinite, bind, Except.bind,
      ofDraft_toDraft]
    rfl
  · intro hex
    have h := legible_toDraft hn hback
    obtain ⟨e, he⟩ := h.exists_reader_recordTokens hex
    refine ⟨e, whole_eq_error ?_⟩
    simp only [reader, tokens_toJson h, he, bind, Except.bind]

/-- Two variables, of which the second is an integer, and one row. -/
def pair (bound : Double) : Problem Double where
  objective := [⟨0x3ff8000000000000⟩, ⟨0x8000000000000000⟩]
  rows := [⟨[⟨0x3fb999999999999a⟩, ⟨0xc008000000000000⟩], bound⟩]
  integer := [false, true]
  objective_ne_nil := List.cons_ne_nil _ _
  rows_ne_nil := List.cons_ne_nil _ _
  length_coefficients := by simp
  length_integer := rfl

theorem roundTrip_pair :
    (((pair ⟨0x4024000000000000⟩).numVariables ≤ wordLimit ∧
      ∀ x ∈ (pair ⟨0x4024000000000000⟩).toDraft.entries, x.IsFinite) ∧
      ofJson (pair ⟨0x4024000000000000⟩).toJson = .ok (pair ⟨0x4024000000000000⟩)) ∧
    ∃ e, ofJson (pair .infinity).toJson = .error e := by
  have hfinite : ∀ x ∈ (pair ⟨0x4024000000000000⟩).toDraft.entries, x.IsFinite ∧ ReadsBack x := by
    decide +kernel
  have hinfinite : (∃ x ∈ (pair .infinity).toDraft.entries, ¬ x.IsFinite) ∧
      ∀ x ∈ (pair .infinity).toDraft.entries, x.IsFinite → ReadsBack x := by
    decide +kernel
  have hn : ∀ b, (pair b).numVariables ≤ wordLimit := fun _ => show 2 ≤ wordLimit by decide
  refine ⟨⟨⟨hn _, fun x hx => (hfinite x hx).1⟩, ?_⟩, ?_⟩
  · exact (roundTrip.2.2.2 _ (hn _) fun x hx _ => (hfinite x hx).2).1 fun x hx => (hfinite x hx).1
  · exact (roundTrip.2.2.2 _ (hn _) hinfinite.2).2 hinfinite.1

end Problem

end Milp
