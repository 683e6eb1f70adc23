import Milp.Proofs.Tableau.Canonical
import Milp.Tableau.Rules
/-!
# What the pivot rules choose

Over every scalar, what is chosen is a column and a row (`entering_lt`,
`exists_of_leaving`). Over exact numbers a column enters when its reduced cost
is below minus the tolerance (`entering_eq_some`), and a row leaves only when
its entry in that column is above the tolerance (`leaving_eq_some`). With
tolerance zero the ratio test is a minimum (`ratio_le_of_leaving`): the leaving
row has the least ratio and, by the lowest-index rule, the lowest basic column
among the rows with that ratio.
-/

namespace Milp

namespace Tableau

/-! ## Over every scalar

What is found is a column or a row, whatever the comparisons say: no law of the
order is used.
-/

section Places

variable {α : Type} [Scalar α] {tolerance : α} {rule : PivotRule} {t : Tableau α} {col row : ℕ}

/-- The place that is found is the one from before, or a place in the list. -/
theorem lowestPlace_lt {vs : List α} {j c : ℕ} {lowest : α} {best : Option ℕ}
    (h : lowestPlace j lowest best vs = some c) : best = some c ∨ c < j + vs.length := by
  induction vs generalizing j lowest best with
  | nil => exact .inl h
  | cons v vs ih =>
    rw [lowestPlace] at h
    rw [List.length_cons]
    split at h
    · rcases ih h with hb | hlt
      · cases hb
        exact .inr (by omega)
      · exact .inr (by omega)
    · exact (ih h).imp_right fun hlt => by omega

/-- **The entering column is a column.** -/
theorem entering_lt (h : t.entering tolerance rule = some col) :
    col < t.objective.coefficients.length := by
  cases rule with
  | largestCoefficient =>
    obtain hb | hlt := lowestPlace_lt h
    · cases hb
    · rwa [Nat.zero_add] at hlt
  | lowestIndex => exact (List.findIdx?_eq_some_iff_getElem.1 h).1

/-- A candidate is the row it was made of. -/
theorem candidate?_row {i : ℕ} {r : BasicRow α} {c : Candidate α}
    (h : candidate? tolerance col i r = some c) : c.row = i ∧ c.basic = r.basic := by
  unfold candidate? at h
  split at h
  · cases h
  · cases h
    exact ⟨rfl, rfl⟩

theorem Candidate.beats_eq_true_iff {c b : Candidate α} :
    c.beats tolerance rule b = true ↔ c.ratio < b.ratio - tolerance ∨
      rule = .lowestIndex ∧ Scalar.abs (c.ratio - b.ratio) ≤ tolerance ∧ c.basic < b.basic := by
  simp only [beats, Bool.or_eq_true, Bool.and_eq_true, decide_eq_true_eq, beq_iff_eq, and_assoc]

/-- The candidate that the ratio test keeps of the one so far and that of the
next row. -/
def keep (tolerance : α) (rule : PivotRule) (best next : Option (Candidate α)) :
    Option (Candidate α) :=
  match next, best with
  | none, best => best
  | some c, none => some c
  | some c, some b => some (if c.beats tolerance rule b then c else b)

/-- **The ratio test goes row by row.** -/
theorem ratioTest_cons (i : ℕ) (best : Option (Candidate α)) (r : BasicRow α)
    (rows : List (BasicRow α)) :
    ratioTest tolerance rule col i best (r :: rows) =
      ratioTest tolerance rule col (i + 1)
        (keep tolerance rule best (candidate? tolerance col i r)) rows := by
  cases hd : candidate? tolerance col i r <;> cases best <;> simp [ratioTest, hd, keep]

theorem keep_eq_some {best next : Option (Candidate α)} {c : Candidate α}
    (h : keep tolerance rule best next = some c) : best = some c ∨ next = some c := by
  unfold keep at h
  split at h
  · exact .inl h
  · exact .inr h
  · split at h
    · exact .inr h
    · exact .inl h

theorem keep_eq_none {best next : Option (Candidate α)}
    (h : keep tolerance rule best next = none) : best = none ∧ next = none := by
  unfold keep at h
  split at h
  · exact ⟨h, rfl⟩
  · cases h
  · cases h

/-- The winner of the ratio test is the candidate from before or a row's. -/
theorem ratioTest_eq_some {rows : List (BasicRow α)} {i : ℕ} {best : Option (Candidate α)}
    {c : Candidate α} (h : ratioTest tolerance rule col i best rows = some c) :
    best = some c ∨ ∃ k r, rows[k]? = some r ∧ candidate? tolerance col (i + k) r = some c := by
  induction rows generalizing i best with
  | nil => exact .inl h
  | cons r rows ih =>
    rw [ratioTest_cons] at h
    rcases ih h with hk | ⟨k, s, hs, hc⟩
    · exact (keep_eq_some hk).imp_right fun hd => ⟨0, r, rfl, hd⟩
    · exact .inr ⟨k + 1, s, hs, by rwa [Nat.add_right_comm, Nat.add_assoc] at hc⟩

/-- The ratio test with one more row. -/
theorem ratioTest_concat (i : ℕ) (best : Option (Candidate α)) (rows : List (BasicRow α))
    (r : BasicRow α) :
    ratioTest tolerance rule col i best (rows ++ [r]) =
      keep tolerance rule (ratioTest tolerance rule col i best rows)
        (candidate? tolerance col (i + rows.length) r) := by
  induction rows generalizing i best with
  | nil =>
    rw [List.nil_append, ratioTest_cons]
    rfl
  | cons q rows ih =>
    rw [List.cons_append, ratioTest_cons, ih, ratioTest_cons, List.length_cons, Nat.add_assoc,
      Nat.add_comm 1]

/-- **The leaving row is a row**, and the candidate that stands for it has its
basic column. -/
theorem exists_of_ratioTest {rows : List (BasicRow α)} {c : Candidate α}
    (h : ratioTest tolerance rule col 0 none rows = some c) :
    ∃ r, rows[c.row]? = some r ∧ r.basic = c.basic := by
  obtain hb | ⟨k, r, hr, hk⟩ := ratioTest_eq_some h
  · cases hb
  obtain ⟨hrow, hbasic⟩ := candidate?_row hk
  exact ⟨r, by rwa [hrow, Nat.zero_add], hbasic.symm⟩

theorem exists_of_leaving (h : t.leaving tolerance rule col = some row) :
    ∃ r, t.rows[row]? = some r := by
  obtain ⟨c, hc, rfl⟩ := Option.map_eq_some_iff.1 h
  obtain ⟨r, hr, -⟩ := exists_of_ratioTest hc
  exact ⟨r, hr⟩

end Places

variable {tolerance : ℚ} {rule : PivotRule} {t : Tableau ℚ} {col row : ℕ}

/-! ## The entering column -/

/-- The place that is found is the one from before, or that of a value below
the given one. -/
theorem lowestPlace_eq_some {vs : List ℚ} {j c : ℕ} {lowest : ℚ} {best : Option ℕ}
    (h : lowestPlace j lowest best vs = some c) :
    best = some c ∨ ∃ k v, vs[k]? = some v ∧ c = j + k ∧ v < lowest := by
  induction vs generalizing j lowest best with
  | nil => exact .inl h
  | cons v vs ih =>
    rw [lowestPlace] at h
    split at h
    · rename_i hv
      rcases ih h with hb | ⟨k, w, hw, rfl, hlt⟩
      · exact .inr ⟨0, v, rfl, (Option.some.inj hb).symm, hv⟩
      · exact .inr ⟨k + 1, w, hw, by omega, hlt.trans hv⟩
    · rcases ih h with hb | ⟨k, w, hw, rfl, hlt⟩
      · exact .inl hb
      · exact .inr ⟨k + 1, w, hw, by omega, hlt⟩

/-- No place is found only where there was none and no value is below. -/
theorem lowestPlace_eq_none {vs : List ℚ} {j : ℕ} {lowest : ℚ} {best : Option ℕ}
    (h : lowestPlace j lowest best vs = none) : best = none ∧ ∀ v ∈ vs, lowest ≤ v := by
  induction vs generalizing j lowest best with
  | nil => exact ⟨h, by simp⟩
  | cons v vs ih =>
    rw [lowestPlace] at h
    split at h
    · exact absurd (ih h).1 (by simp)
    · rename_i hv
      obtain ⟨hb, hle⟩ := ih h
      refine ⟨hb, fun w hw => ?_⟩
      rcases List.mem_cons.1 hw with rfl | hw
      · exact not_lt.1 hv
      · exact hle w hw

/-- A value of the objective row is its entry there. -/
theorem entry_of_getElem? {q : Row ℚ} {k : ℕ} {v : ℚ} (h : q.coefficients[k]? = some v) :
    k < q.coefficients.length ∧ q.entry k = v := by
  obtain ⟨hk, rfl⟩ := List.getElem?_eq_some_iff.1 h
  exact ⟨hk, List.getD_eq_getElem _ _ hk⟩

/-- **The entering column** has a reduced cost below minus the tolerance. -/
theorem entering_eq_some (h : t.entering tolerance rule = some col) :
    col < t.objective.coefficients.length ∧ t.objective.entry col < -tolerance := by
  cases rule with
  | largestCoefficient =>
    obtain hb | ⟨k, v, hv, rfl, hlt⟩ := lowestPlace_eq_some h
    · cases hb
    · obtain ⟨hk, rfl⟩ := entry_of_getElem? hv
      rw [zero_add]
      exact ⟨hk, hlt⟩
  | lowestIndex =>
    obtain ⟨hk, hv, -⟩ := List.findIdx?_eq_some_iff_getElem.1 h
    refine ⟨hk, ?_⟩
    rw [Row.entry, List.getD_eq_getElem _ _ hk]
    exact of_decide_eq_true hv

/-- By the lowest-index rule no column before it has. -/
theorem le_entry_of_lt_entering (h : t.entering tolerance .lowestIndex = some col) {j : ℕ}
    (hj : j < col) : -tolerance ≤ t.objective.entry j := by
  obtain ⟨hk, -, hmin⟩ := List.findIdx?_eq_some_iff_getElem.1 h
  have hv := hmin j hj
  rw [Row.entry, List.getD_eq_getElem _ _ (hj.trans hk)]
  exact not_lt.1 fun hlt => hv (decide_eq_true hlt)

/-- **No column enters** only where no reduced cost is below minus the
tolerance. -/
theorem entering_eq_none (h : t.entering tolerance rule = none) {j : ℕ}
    (hj : j < t.objective.coefficients.length) : -tolerance ≤ t.objective.entry j := by
  rw [Row.entry, List.getD_eq_getElem _ _ hj]
  cases rule with
  | largestCoefficient => exact (lowestPlace_eq_none h).2 _ (List.getElem_mem hj)
  | lowestIndex =>
    have hv := List.findIdx?_eq_none_iff.1 h _ (List.getElem_mem hj)
    exact not_lt.1 (of_decide_eq_false hv)

/-! ## The leaving row -/

/-- The candidate that a row is. -/
theorem candidate?_eq_some {i : ℕ} {r : BasicRow ℚ} {c : Candidate ℚ}
    (h : candidate? tolerance col i r = some c) :
    tolerance < r.entry col ∧ c = ⟨i, r.basic, max r.rhs 0 / r.entry col⟩ := by
  unfold candidate? at h
  split at h
  · cases h
  · rename_i hv
    rw [Scalar.greater_rat] at h
    exact ⟨not_le.1 hv, (Option.some.inj h).symm⟩

theorem candidate?_of_lt {i : ℕ} {r : BasicRow ℚ} (h : tolerance < r.entry col) :
    candidate? tolerance col i r = some ⟨i, r.basic, max r.rhs 0 / r.entry col⟩ := by
  rw [candidate?, if_neg (not_le.2 h), Scalar.greater_rat]

/-- The ratio test has no winner only where there was none and no row is a
candidate. -/
theorem ratioTest_eq_none {rows : List (BasicRow ℚ)} {i : ℕ} {best : Option (Candidate ℚ)}
    (h : ratioTest tolerance rule col i best rows = none) :
    best = none ∧ ∀ r ∈ rows, r.entry col ≤ tolerance := by
  induction rows generalizing i best with
  | nil => exact ⟨h, by simp⟩
  | cons r rows ih =>
    rw [ratioTest_cons] at h
    obtain ⟨hk, hle⟩ := ih h
    obtain ⟨hb, hd⟩ := keep_eq_none hk
    refine ⟨hb, fun s hs => ?_⟩
    rcases List.mem_cons.1 hs with rfl | hs
    · by_contra hlt
      rw [candidate?_of_lt (not_le.1 hlt)] at hd
      cases hd
    · exact hle s hs

/-- **No row leaves** only where no entry is above the tolerance. -/
theorem leaving_eq_none (h : t.leaving tolerance rule col = none) {r : BasicRow ℚ}
    (hr : r ∈ t.rows) : r.entry col ≤ tolerance :=
  (ratioTest_eq_none (Option.map_eq_none_iff.1 h)).2 r hr

/-- **The leaving row** has an entry above the tolerance. -/
theorem leaving_eq_some (h : t.leaving tolerance rule col = some row) :
    ∃ r, t.rows[row]? = some r ∧ tolerance < r.entry col := by
  obtain ⟨c, hc, rfl⟩ := Option.map_eq_some_iff.1 h
  obtain hb | ⟨k, r, hr, hk⟩ := ratioTest_eq_some hc
  · cases hb
  obtain ⟨hlt, rfl⟩ := candidate?_eq_some hk
  exact ⟨r, by rwa [zero_add], hlt⟩

/-- The kept candidate is near the new one. It is no worse than the one before
or, by the lowest-index rule, near that one. -/
theorem ratio_le_of_keep (h0 : 0 ≤ tolerance) {b d c : Candidate ℚ}
    (h : keep tolerance rule (some b) (some d) = some c) :
    c.ratio ≤ d.ratio + tolerance ∧
      (c.ratio ≤ b.ratio ∨ rule = .lowestIndex ∧ c.ratio ≤ b.ratio + tolerance) := by
  obtain rfl := Option.some.inj h
  split
  · rename_i hbeats
    refine ⟨le_add_of_nonneg_right h0, ?_⟩
    rcases Candidate.beats_eq_true_iff.1 hbeats with hlt | ⟨hrule, htie, -⟩
    · exact .inl (by linarith)
    · rw [Scalar.abs_rat] at htie
      exact .inr ⟨hrule, by linarith [(abs_le.1 htie).2]⟩
  · rename_i hbeats
    refine ⟨?_, .inl le_rfl⟩
    by_contra hlt
    exact hbeats (Candidate.beats_eq_true_iff.2 (.inl (by linarith)))

/-! ## The ratio test with tolerance zero -/

/-- The order in which the ratio test prefers candidates: by ratio and, by
the lowest-index rule, then by basic column. -/
def Candidate.Precedes (rule : PivotRule) (c d : Candidate ℚ) : Prop :=
  c.ratio < d.ratio ∨ c.ratio = d.ratio ∧ (rule = .lowestIndex → c.basic ≤ d.basic)

theorem Candidate.Precedes.refl (c : Candidate ℚ) : c.Precedes rule c :=
  .inr ⟨rfl, fun _ => le_rfl⟩

theorem Candidate.Precedes.trans {c d e : Candidate ℚ} (h : c.Precedes rule d)
    (h' : d.Precedes rule e) : c.Precedes rule e := by
  rcases h with h | ⟨h, hb⟩ <;> rcases h' with h' | ⟨h', hb'⟩
  · exact .inl (h.trans h')
  · exact .inl (h'.symm ▸ h)
  · exact .inl (h.symm ▸ h')
  · exact .inr ⟨h.trans h', fun hr => (hb hr).trans (hb' hr)⟩

theorem Candidate.beats_iff (c b : Candidate ℚ) :
    c.beats 0 rule b = true ↔
      c.ratio < b.ratio ∨ rule = .lowestIndex ∧ c.ratio = b.ratio ∧ c.basic < b.basic := by
  rw [beats_eq_true_iff, Scalar.abs_rat, sub_zero, abs_nonpos_iff, sub_eq_zero]

/-- Of two candidates the one that is kept precedes both. -/
theorem Candidate.ite_beats_precedes (c b : Candidate ℚ) :
    (if c.beats 0 rule b then c else b).Precedes rule c ∧
      (if c.beats 0 rule b then c else b).Precedes rule b := by
  split
  · rename_i h
    refine ⟨.refl c, ?_⟩
    rcases (beats_iff c b).1 h with h | ⟨-, h, hb⟩
    · exact .inl h
    · exact .inr ⟨h, fun _ => hb.le⟩
  · rename_i h
    refine ⟨?_, .refl b⟩
    have hle : b.ratio ≤ c.ratio := not_lt.1 fun hlt => h ((beats_iff c b).2 (.inl hlt))
    rcases hle.lt_or_eq with hlt | heq
    · exact .inl hlt
    · refine .inr ⟨heq, fun hr => not_lt.1 fun hlt => h ((beats_iff c b).2 ?_)⟩
      exact .inr ⟨hr, heq.symm, hlt⟩

/-- What is kept precedes what it was kept of. -/
theorem exists_keep_precedes (rule : PivotRule) {best next : Option (Candidate ℚ)}
    {d : Candidate ℚ} (h : best = some d ∨ next = some d) :
    ∃ c, keep 0 rule best next = some c ∧ c.Precedes rule d := by
  unfold keep
  split
  · exact ⟨d, h.resolve_right (by simp), .refl d⟩
  · rename_i c
    rcases h with h | h
    · cases h
    · cases h
      exact ⟨d, rfl, .refl d⟩
  · rename_i c b
    refine ⟨_, rfl, ?_⟩
    rcases h with h | h
    · cases h
      exact (Candidate.ite_beats_precedes c d).2
    · cases h
      exact (Candidate.ite_beats_precedes d b).1

/-- The winner of the ratio test precedes the candidate from before. -/
theorem exists_ratioTest_precedes (rule : PivotRule) (col : ℕ) (rows : List (BasicRow ℚ))
    (i : ℕ) (b : Candidate ℚ) :
    ∃ c, ratioTest 0 rule col i (some b) rows = some c ∧ c.Precedes rule b := by
  induction rows generalizing i b with
  | nil => exact ⟨b, rfl, .refl b⟩
  | cons r rows ih =>
    rw [ratioTest_cons]
    have hb : some b = some b ∨ candidate? 0 col i r = some b := .inl rfl
    obtain ⟨d, hd, hdb⟩ := exists_keep_precedes rule hb
    obtain ⟨c, hc, hcd⟩ := ih (i + 1) d
    exact ⟨c, by rw [hd, hc], hcd.trans hdb⟩

/-- **The winner of the ratio test precedes all candidates.** -/
theorem ratioTest_precedes {rows : List (BasicRow ℚ)} {i k : ℕ} {best : Option (Candidate ℚ)}
    {c d : Candidate ℚ} {r : BasicRow ℚ} (h : ratioTest 0 rule col i best rows = some c)
    (hr : rows[k]? = some r) (hd : candidate? 0 col (i + k) r = some d) :
    c.Precedes rule d := by
  induction rows generalizing i k best with
  | nil => cases hr
  | cons s rows ih =>
    rw [ratioTest_cons] at h
    cases k with
    | zero =>
      cases hr
      have hb : best = some d ∨ candidate? 0 col i r = some d := .inr hd
      obtain ⟨e, he, hed⟩ := exists_keep_precedes rule hb
      obtain ⟨c', hc', hce⟩ := exists_ratioTest_precedes rule col rows (i + 1) e
      rw [he, hc'] at h
      cases h
      exact hce.trans hed
    | succ k => exact ih h hr (by rwa [Nat.add_right_comm, Nat.add_assoc])

/-- **The leaving row has the least ratio**, and by the lowest-index rule the
lowest basic column among the rows with that ratio. -/
theorem ratio_le_of_leaving (hf : t.Feasible) (h : t.leaving 0 rule col = some row) :
    ∃ r, t.rows[row]? = some r ∧ 0 < r.entry col ∧ ∀ s ∈ t.rows, 0 < s.entry col →
      r.rhs / r.entry col ≤ s.rhs / s.entry col ∧
        (rule = .lowestIndex → r.rhs / r.entry col = s.rhs / s.entry col → r.basic ≤ s.basic) := by
  obtain ⟨c, hc, rfl⟩ := Option.map_eq_some_iff.1 h
  obtain hb | ⟨k, r, hr, hk⟩ := ratioTest_eq_some hc
  · cases hb
  obtain ⟨hpos, rfl⟩ := candidate?_eq_some hk
  refine ⟨r, by rwa [zero_add], hpos, fun s hs hspos => ?_⟩
  obtain ⟨i, hi⟩ := List.mem_iff_getElem?.1 hs
  have hprec := ratioTest_precedes hc hi (candidate?_of_lt hspos)
  rw [Candidate.Precedes, max_eq_left (hf r (List.mem_of_getElem? hr)),
    max_eq_left (hf s hs)] at hprec
  rcases hprec with hlt | ⟨heq, hbasic⟩
  · exact ⟨hlt.le, fun _ heq => absurd heq hlt.ne⟩
  · exact ⟨heq.le, fun hrule _ => hbasic hrule⟩

end Tableau

end Milp
