import Milp.Command.Run
import Milp.Proofs.Json.Trees
import Milp.Proofs.Number.Bits
/-!
# Answers in JSON

The answer in JSON has three fields: the objective, which is null where it is
infinite, the status, and the values. In every format of doubles, with finite values
that are read back one by one the answer says just these (`Printable.ofText_jsonText`). An objective that is
null is told by the status, and any other by itself (`objective_eq`), so answers
with one text are one solution, bit by bit (`jsonText_lossless`).
-/

namespace Milp

open Json

namespace Double

variable {x : Double}

theorem isInfinite_iff : x.isInfinite = true ↔ x = infinity ∨ x = minusInfinity := by
  constructor
  · intro h
    have hm : x.magnitude = infinityBits := beq_iff_eq.1 h
    cases hneg : x.isNegative with
    | false => exact .inl (eq_of_magnitude_eq hm hneg)
    | true => exact .inr (eq_of_magnitude_eq hm hneg)
  · rintro (rfl | rfl) <;> rfl

/-- **A double stands for its level**, and no other one does. -/
theorem ofLevel_level (x : Double) : ofLevel x.level = x := by
  unfold level
  split
  · rename_i hinf
    rcases isInfinite_iff.1 hinf with rfl | rfl <;> rfl
  · rfl

end Double

theorem Status.name_injective : Function.Injective Status.name := by
  intro a b
  cases a <;> cases b <;> decide

namespace Command

variable {s : Solution Double} {x y : Double} {xs ys : List Double}

/-! ## What an answer says -/

/-- What an answer says of the objective. -/
def objectiveTree : Level Double → Tree
  | .number z => .number z
  | _ => .null

/-- What the fields of an answer say, where all numbers are finite. -/
theorem tree_solutionValue (hobjective : ∀ z, s.objective = .number z → z.IsFinite)
    (hvalues : ∀ v ∈ s.values, v.IsFinite) : (solutionValue s).tree =
      .record [("objective_value", objectiveTree s.objective), ("status", .text s.status.name),
        ("values", .list (s.values.map .number))] := by
  have hdoubles : (Value.doubles s.values).tree = .list (s.values.map .number) := by
    rw [Value.doubles, Value.tree, Value.itemTrees_eq_map, List.map_map]
    refine congrArg Tree.list (List.map_congr_left fun v hv => ?_)
    rw [Function.comp_apply, Value.tree, if_pos (hvalues v hv)]
  simp only [solutionValue, Value.tree, Value.fieldTrees, hdoubles]
  cases hs : s.objective with
  | number z => simp only [objectiveTree, Value.tree, if_pos (hobjective z hs)]
  | bottom => rfl
  | top => rfl

/-- **The objective is known** by its field and the status. -/
theorem objective_eq {a b : Level Double} (hobjective : objectiveTree a = objectiveTree b)
    (hstatus : (Solution.mk a xs).status = (Solution.mk b ys).status) : a = b := by
  cases a <;> cases b
  case number.number => exact congrArg _ (Tree.number.inj hobjective)
  case bottom.bottom | top.top => rfl
  -- the field is null for both, and the status is not the same
  case bottom.top | top.bottom => cases hstatus
  case bottom.number | top.number | number.bottom | number.top => cases hobjective

/-! ## What is written -/

section Format

variable [NumberFormat]

/-- **A solution whose answer can be read back**: the objective is a number or
infinite, the values are finite, and what is finite is read back by itself. -/
structure Printable (x : Double) (xs : List Double) : Prop where
  /-- The objective is a number. -/
  isNaN_eq : x.isNaN = false
  /-- The values are finite. -/
  finite : ∀ v ∈ xs, v.IsFinite
  /-- Finite numbers are read back. -/
  readsBack : ∀ v ∈ x :: xs, v.IsFinite → ReadsBack v

/-- The parts of an answer can be read back. -/
theorem legible_solutionValue (hobjective : ∀ z, s.objective = .number z → z.IsFinite → ReadsBack z)
    (hvalues : ∀ v ∈ s.values, v.IsFinite → ReadsBack v) : (solutionValue s).Legible := by
  have hdoubles : (Value.doubles s.values).Legible :=
    .list (List.forall_mem_map.2 fun v hv => .double (hvalues v hv))
  have hstatus : IsName s.status.name := by cases s.status <;> decide
  have hnames : IsName "objective_value" ∧ IsName "status" ∧ IsName "values" := by decide
  refine .record ?_ ?_
  · exact List.forall_mem_cons.2 ⟨hnames.1, List.forall_mem_cons.2
      ⟨hnames.2.1, List.forall_mem_singleton.2 hnames.2.2⟩⟩
  · refine List.forall_mem_cons.2 ⟨?_, List.forall_mem_cons.2
      ⟨.text hstatus, List.forall_mem_singleton.2 hdoubles⟩⟩
    cases hs : s.objective with
    | number z => exact .double (hobjective z hs)
    | bottom => exact .null
    | top => exact .null

/-- **The answer is read as its three fields.** -/
theorem Printable.ofText_jsonText (h : Printable x xs) :
    Tree.ofText (jsonText (.ofDouble x xs)) = .ok (.record
      [("objective_value", objectiveTree x.level),
        ("status", .text (Solution.ofDouble x xs).status.name),
        ("values", .list (xs.map .number))]) := by
  have hlevel : ∀ z, x.level = .number z → z = x ∧ z.IsFinite := by
    intro z hz
    unfold Double.level at hz
    split at hz
    · split at hz <;> cases hz
    · rename_i hfinite
      cases hz
      exact ⟨rfl, h.isNaN_eq, Bool.eq_false_of_not_eq_true hfinite⟩
  have hlegible : (solutionValue (.ofDouble x xs)).Legible := by
    refine legible_solutionValue (fun z hz => ?_)
      fun v hv => h.readsBack v (List.mem_cons_of_mem _ hv)
    obtain ⟨rfl, -⟩ := hlevel z hz
    exact h.readsBack z List.mem_cons_self
  have htext : jsonText (.ofDouble x xs) =
      String.ofList ((solutionValue (.ofDouble x xs)).write .indented 0 ++ ['\n']) := by
    rw [String.ofList_append]
    rfl
  rw [htext, hlegible.ofText_write Value.Spacing.isBlank_indented (List.forall_mem_singleton.2 rfl)]
  exact congrArg Except.ok (tree_solutionValue (fun z hz => (hlevel z hz).2) h.finite)

/-- **An answer in JSON loses nothing.** It is one record, with the objective, the
status and the values. The objective is null where it is one of the two
infinities, and a finite one is itself. Solutions with one text have one
objective and the same values, bit by bit. This holds in every format of doubles. -/
theorem jsonText_lossless (h : Printable x xs) :
    (∃ o, Tree.ofText (jsonText (.ofDouble x xs)) = .ok (.record
        [("objective_value", o), ("status", .text (Solution.ofDouble x xs).status.name),
          ("values", .list (xs.map .number))]) ∧
      (o = .null ↔ x = .infinity ∨ x = .minusInfinity) ∧ (x.IsFinite → o = .number x)) ∧
    ∀ y ys, Printable y ys → jsonText (.ofDouble x xs) = jsonText (.ofDouble y ys) →
      x = y ∧ xs = ys := by
  refine ⟨⟨objectiveTree x.level, h.ofText_jsonText, ?_, fun hx => ?_⟩, fun y ys h' htext => ?_⟩
  · rw [← Double.isInfinite_iff]
    cases hinf : x.isInfinite with
    | false =>
      rw [Double.level, hinf, if_neg Bool.false_ne_true]
      exact iff_of_false (by simp [objectiveTree]) Bool.false_ne_true
    | true =>
      refine iff_of_true ?_ rfl
      rcases Double.isInfinite_iff.1 hinf with rfl | rfl <;> rfl
  · rw [Double.level, hx.2, if_neg Bool.false_ne_true]
    rfl
  · have hread := (h.ofText_jsonText.symm.trans (congrArg Tree.ofText htext)).trans
      h'.ofText_jsonText
    simp only [Except.ok.injEq, Tree.record.injEq, List.cons.injEq, Prod.mk.injEq, Tree.text.injEq,
      Tree.list.injEq, true_and, and_true] at hread
    obtain ⟨hobjective, hstatus, hvalues⟩ := hread
    have hlevel : x.level = y.level := objective_eq hobjective (Status.name_injective hstatus)
    refine ⟨?_, List.map_injective_iff.2 (fun _ _ => Tree.number.inj) hvalues⟩
    rw [← Double.ofLevel_level x, hlevel, Double.ofLevel_level]

end Format

/-- The answer with the objective minus zero is not the one with zero, and an
unbounded one has no objective. -/
theorem jsonText_lossless_signedZeros :
    jsonText (.ofDouble ⟨0x8000000000000000⟩ [⟨0x4008000000000000⟩, ⟨0x3fb999999999999a⟩]) ≠
      jsonText (.ofDouble ⟨0⟩ [⟨0x4008000000000000⟩, ⟨0x3fb999999999999a⟩]) ∧
    Tree.ofText (jsonText (.ofDouble .infinity [])) = .ok (.record
      [("objective_value", .null), ("status", .text "Unbounded"), ("values", .list [])]) := by
  have hzeros : ∀ x : Double, x = ⟨0x8000000000000000⟩ ∨ x = ⟨0⟩ →
      Printable x [⟨0x4008000000000000⟩, ⟨0x3fb999999999999a⟩] := by
    rintro x (rfl | rfl) <;> exact ⟨rfl, by decide +kernel, by decide +kernel⟩
  have hinfinity : Printable .infinity [] := ⟨rfl, by decide, by decide⟩
  refine ⟨fun htext => ?_, ?_⟩
  · have hx := (jsonText_lossless (hzeros _ (.inl rfl))).2 _ _ (hzeros _ (.inr rfl)) htext
    exact absurd (congrArg Double.bits hx.1) (by decide)
  · obtain ⟨⟨o, hread, hnull, -⟩, -⟩ := jsonText_lossless hinfinity
    rwa [hnull.2 (.inl rfl)] at hread

end Command

end Milp
