import Mathlib.Data.List.Basic
import Milp.Storage.Machine
/-!
# Rows in one vector

A vector that holds rows of one length, one after the other, is read row by
row, column by column and entry by entry (`slice_flatten`, `every_flatten`,
`getElem?_flatten`). What a vector or a word can do has no fault
(`word_of_lt`, `read_of_getElem?`, `extend_of_le`), and a loop without a fault
is followed state by state (`foldlM_range_eq`, `foldlM_foldl`), also where it
replaces the elements of a vector one after the other (`foldlM_range_mapIdx`,
`foldlM_write`).
-/

namespace Milp

namespace Storage

variable {α β γ ε σ : Type}

/-! ## Runs -/

@[simp] theorem ok_bind (v : β) (f : β → Run γ) : ((.ok v : Run β) >>= f) = f v := rfl

@[simp] theorem error_bind (e : Fault) (f : β → Run γ) : ((.error e : Run β) >>= f) = .error e :=
  rfl

@[simp] theorem andThen_ok (v : β) (f : β → Run (Except ε γ)) : andThen (.ok (.ok v)) f = f v := rfl

@[simp] theorem andThen_refused (e : ε) (f : β → Run (Except ε γ)) :
    andThen (.ok (.error e)) f = .ok (.error e) := rfl

/-- What holds of whatever the second step gives. -/
theorem forall_bind_eq_ok {x : Run β} {f : β → Run γ} {P : γ → Prop}
    (h : ∀ v w, f v = .ok w → P w) : ∀ w, x >>= f = .ok w → P w := by
  intro w hw
  cases x with
  | error e => cases hw
  | ok v => exact h v w hw

theorem andThen_bind_ok (x : Run β) (f : β → Run (Except ε γ)) :
    andThen (x >>= fun v => pure (.ok v)) f = x >>= f := by
  cases x <;> rfl

/-! ## Words -/

section Words

variable {b : Build} {m n : ℕ}

theorem word_of_lt (h : n < wordSize) : word b n = .ok n := if_pos h

theorem difference_of_le (h : n ≤ m) : difference b m n = .ok (m - n) := if_pos h

theorem capacity_lt_wordSize : capacity < wordSize := by
  decide

theorem word_of_le_capacity (h : n ≤ capacity) : word b n = .ok n :=
  word_of_lt (Nat.lt_of_le_of_lt h capacity_lt_wordSize)

/-- What a word holds is at most what was to be held. -/
theorem le_of_word_eq_ok (h : word b n = .ok m) : m ≤ n := by
  unfold word at h
  split at h
  · exact Nat.le_of_eq (Except.ok.inj h).symm
  · cases b with
    | checked => cases h
    | release => exact Except.ok.inj h ▸ Nat.mod_le _ _

end Words

/-! ## Vectors -/

section Vectors

variable {data more : List α} {i n : ℕ} {v : α}

theorem assert_of {b : Build} {p : Prop} [Decidable p] (h : p) : assert b p = .ok () :=
  if_pos (.inr h)

theorem reserve_of_le (h : n ≤ capacity) : reserve n = .ok () := if_pos h

theorem reserve_of_lt (h : capacity < n) : reserve n = .error .capacity :=
  if_neg (Nat.not_le.2 h)

theorem le_of_reserve_eq_ok (h : reserve n = .ok ()) : n ≤ capacity := by
  by_contra hlarge
  rw [reserve, if_neg hlarge] at h
  cases h

theorem read_of_getElem? (h : data[i]? = some v) : read data i = .ok v := by
  rw [read, h]

theorem write_of_lt (h : i < data.length) : write data i v = .ok (data.set i v) := if_pos h

theorem remove_of_lt (h : i < data.length) : remove data i = .ok (data.eraseIdx i) := if_pos h

theorem length_of_write : ∀ data', write data i v = .ok data' → data'.length = data.length := by
  intro data' h
  unfold write at h
  split at h
  · rw [← Except.ok.inj h, List.length_set]
  · cases h

theorem extend_of_le (h : data.length + more.length ≤ capacity) :
    extend data more = .ok (data ++ more) := if_pos h

theorem extend_of_lt (h : capacity < data.length + more.length) :
    extend data more = .error .capacity := if_neg (Nat.not_le.2 h)

/-- Two vectors added one after the other. -/
theorem extend_extend (data more last : List α) :
    (extend data more >>= fun data => extend data last) = extend data (more ++ last) := by
  by_cases h : data.length + more.length ≤ capacity
  · rw [extend_of_le h, ok_bind, extend, extend, List.length_append, List.length_append,
      List.append_assoc, Nat.add_assoc]
  · have hlong : capacity < data.length + (more ++ last).length := by
      rw [List.length_append]
      omega
    rw [extend_of_lt (by omega), extend_of_lt hlong, error_bind]

end Vectors

/-! ## Parts of a vector -/

section Parts

variable {xs : List α} {i n : ℕ}

/-- An element after a first part. -/
theorem set_append_length (xs ys : List α) (i : ℕ) (v : α) :
    (xs ++ ys).set (xs.length + i) v = xs ++ ys.set i v := by
  rw [List.set_append_right _ _ (Nat.le_add_right _ _), Nat.add_sub_cancel_left]

/-- An element after two parts. -/
theorem set_append_append {xs ys : List α} {m : ℕ} (hxs : xs.length = n) (hys : ys.length = m)
    (zs : List α) (i : ℕ) (v : α) :
    (xs ++ (ys ++ zs)).set (n + m + i) v = xs ++ (ys ++ zs.set i v) := by
  rw [← hxs, ← hys, Nat.add_assoc, set_append_length, set_append_length]

/-- What comes after the elements that are filled in. -/
theorem getElem?_take_append_replicate (hi : i ≤ xs.length) (hn : i < n) (d : α) :
    (xs.take i ++ List.replicate (n - i) d)[i]? = some d := by
  have htake : (xs.take i).length = i := by
    rw [List.length_take, Nat.min_eq_left hi]
  rw [List.getElem?_append_right (Nat.le_of_eq htake), htake, Nat.sub_self,
    List.getElem?_replicate, if_pos (Nat.sub_pos_of_lt hn)]

/-- One more element is filled in. -/
theorem set_take_append_replicate {x : α} (hx : xs[i]? = some x) (hn : i < n) (d : α) :
    (xs.take i ++ List.replicate (n - i) d).set i x =
      xs.take (i + 1) ++ List.replicate (n - (i + 1)) d := by
  obtain ⟨hi, -⟩ := List.getElem?_eq_some_iff.1 hx
  have htake : (xs.take i).length = i := by
    rw [List.length_take, Nat.min_eq_left (Nat.le_of_lt hi)]
  have hrest : n - i = n - (i + 1) + 1 := by omega
  have hset := set_append_length (xs.take i) (List.replicate (n - i) d) 0 x
  rw [htake, Nat.add_zero] at hset
  rw [hset, hrest, List.replicate_succ, List.set_cons_zero, List.take_add_one, hx,
    Option.toList_some, List.append_assoc, List.singleton_append]

end Parts

/-! ## Loops -/

/-- **A loop that adds to a vector** adds everything at once. -/
theorem foldlM_extend {f : List α → β → Run (List α)} {g : β → List α} {xs : List β}
    (h : ∀ data, ∀ x ∈ xs, f data x = extend data (g x)) :
    ∀ {data : List α}, data.length ≤ capacity →
      xs.foldlM f data = extend data (xs.map g).flatten := by
  induction xs with
  | nil =>
    intro data hdata
    rw [List.map_nil, List.flatten_nil, extend_of_le (by simpa using hdata), List.append_nil]
    rfl
  | cons x xs ih =>
    intro data hdata
    obtain ⟨hx, hxs⟩ : (∀ data, f data x = extend data (g x)) ∧
        ∀ data, ∀ x ∈ xs, f data x = extend data (g x) :=
      ⟨fun data => h data x List.mem_cons_self,
        fun data y hy => h data y (List.mem_cons_of_mem _ hy)⟩
    rw [List.foldlM_cons, hx, List.map_cons, List.flatten_cons, ← extend_extend]
    by_cases hlong : data.length + (g x).length ≤ capacity
    · rw [extend_of_le hlong, ok_bind, ok_bind]
      exact ih hxs (by rwa [List.length_append])
    · rw [extend_of_lt (by omega), error_bind, error_bind]

/-- **A loop without a fault**, by its state before each turn. -/
theorem foldlM_range_eq {f : σ → ℕ → Run σ} {s : ℕ → σ} {n : ℕ}
    (h : ∀ i < n, f (s i) i = .ok (s (i + 1))) :
    (List.range n).foldlM f (s 0) = .ok (s n) := by
  induction n with
  | zero => rfl
  | succ n ih =>
    rw [List.range_succ, List.foldlM_append, ih fun i hi => h i (Nat.lt_succ_of_lt hi), ok_bind,
      List.foldlM_cons, h n (Nat.lt_succ_self n), ok_bind]
    rfl

/-- **A loop over a list** without a fault, by a state that is kept as `k` says
and has a property that every turn preserves. -/
theorem foldlM_range_foldl {f : σ → ℕ → Run σ} {l : List β} {g : γ → β → γ} {k : γ → σ}
    {P : γ → Prop} (h : ∀ s, P s → ∀ (i : ℕ) (hi : i < l.length),
      f (k s) i = .ok (k (g s l[i])) ∧ P (g s l[i])) {s : γ} (hs : P s) :
    (List.range l.length).foldlM f (k s) = .ok (k (l.foldl g s)) := by
  have htake : ∀ (i : ℕ) (hi : i < l.length),
      (l.take (i + 1)).foldl g s = g ((l.take i).foldl g s) l[i] := by
    intro i hi
    rw [List.take_succ_eq_append_getElem hi, List.foldl_append]
    rfl
  have hP : ∀ i ≤ l.length, P ((l.take i).foldl g s) := by
    intro i
    induction i with
    | zero => exact fun _ => hs
    | succ i ih =>
      intro hi
      rw [htake i hi]
      exact (h _ (ih (Nat.le_of_lt hi)) i hi).2
  have hloop := foldlM_range_eq (f := f) (s := fun i => k ((l.take i).foldl g s))
    (n := l.length) fun i hi => by
      rw [(h _ (hP i (Nat.le_of_lt hi)) i hi).1, htake i hi]
  rwa [List.take_length] at hloop

/-- **A loop over a list** without a fault, by a state that is kept as `k` says
and has a property that every turn preserves. -/
theorem foldlM_foldl {f : σ → β → Run σ} {g : γ → β → γ} {k : γ → σ} {P : γ → Prop}
    {l : List β} (h : ∀ s, P s → ∀ x ∈ l, f (k s) x = .ok (k (g s x)) ∧ P (g s x)) :
    ∀ {s : γ}, P s → l.foldlM f (k s) = .ok (k (l.foldl g s)) := by
  induction l with
  | nil => exact fun _ => rfl
  | cons x l ih =>
    intro s hs
    obtain ⟨hx, hP⟩ := h s hs x List.mem_cons_self
    rw [List.foldlM_cons, hx, ok_bind, List.foldl_cons]
    exact ih (fun s hs y hy => h s hs y (List.mem_cons_of_mem _ hy)) hP

/-- A loop over a list with the places of its elements. -/
theorem foldlM_zipIdx_foldl {f : σ → β × ℕ → Run σ} {g : γ → β → γ} {k : γ → σ} {P : γ → Prop}
    {l : List β} (h : ∀ s, P s → ∀ (x : β) (i : ℕ), l[i]? = some x →
      f (k s) (x, i) = .ok (k (g s x)) ∧ P (g s x)) {s : γ} (hs : P s) :
    l.zipIdx.foldlM f (k s) = .ok (k (l.foldl g s)) := by
  have hfoldl : l.zipIdx.foldl (fun s (x : β × ℕ) => g s x.1) s = l.foldl g s := by
    conv_rhs => rw [← List.zipIdx_map_fst 0 l, List.foldl_map]
  rw [← hfoldl]
  refine foldlM_foldl (g := fun s (x : β × ℕ) => g s x.1) (P := P) (fun s hs x hx => ?_) hs
  exact h s hs x.1 x.2 (List.mem_zipIdx_iff_getElem?.1 hx)

/-- **A loop that replaces the elements of a vector**, one after the other: at
each turn those before are new and the others as they were. -/
theorem foldlM_range_mapIdx {f : σ → ℕ → Run σ} {g : ℕ → β → β} {k : List β → σ} {l : List β}
    (h : ∀ (ys : List β) (i : ℕ) (x : β), l[i]? = some x → ys.length = l.length →
      (∀ j < i, ys[j]? = l[j]?.map (g j)) → (∀ j, i ≤ j → ys[j]? = l[j]?) →
      f (k ys) i = .ok (k (ys.set i (g i x)))) :
    (List.range l.length).foldlM f (k l) = .ok (k (l.mapIdx g)) := by
  have hlen : ∀ i ≤ l.length, ((l.mapIdx g).take i ++ l.drop i).length = l.length := by
    intro i hi
    rw [List.length_append, List.length_take, List.length_mapIdx, List.length_drop]
    omega
  have hget : ∀ i ≤ l.length, ∀ j, ((l.mapIdx g).take i ++ l.drop i)[j]? =
      if j < i then l[j]?.map (g j) else l[j]? := by
    intro i hi j
    have htake : ((l.mapIdx g).take i).length = i := by
      rw [List.length_take, List.length_mapIdx, Nat.min_eq_left hi]
    split
    · rename_i hj
      rw [List.getElem?_append_left (htake.symm ▸ hj), List.getElem?_take_of_lt hj,
        List.getElem?_mapIdx]
    · rename_i hj
      rw [List.getElem?_append_right (htake.symm ▸ Nat.le_of_not_lt hj), htake,
        List.getElem?_drop, Nat.add_sub_cancel' (Nat.le_of_not_lt hj)]
  have hloop := foldlM_range_eq (f := f) (s := fun i => k ((l.mapIdx g).take i ++ l.drop i))
    (n := l.length) fun i hi => by
      have hle := Nat.le_of_lt hi
      rw [h _ i l[i] (List.getElem?_eq_getElem hi) (hlen i hle)
        (fun j hj => by rw [hget i hle, if_pos hj])
        (fun j hj => by rw [hget i hle, if_neg (Nat.not_lt.2 hj)])]
      refine congrArg (fun ys => Except.ok (k ys)) (List.ext_getElem? fun j => ?_)
      rw [List.getElem?_set, hlen i hle, hget i hle, hget (i + 1) hi, if_pos hi]
      by_cases hij : i = j
      · subst hij
        rw [if_pos rfl, if_pos i.lt_succ_self, List.getElem?_eq_getElem hi, Option.map_some]
      · rw [if_neg hij]
        exact if_congr (by omega) rfl rfl
  have hall : (l.mapIdx g).take l.length ++ l.drop l.length = l.mapIdx g := by
    rw [List.drop_length, List.append_nil]
    exact List.take_of_length_le (Nat.le_of_eq List.length_mapIdx)
  rwa [hall] at hloop

/-- **A loop that writes at one place after the other**, from `start` on. -/
theorem foldlM_write {f : σ → β → Run σ} {k : List α → σ} {place : β → ℕ} {value : β → α}
    {n : ℕ} {l : List β}
    (h : ∀ row : List α, row.length = n → ∀ x ∈ l, place x < n →
      f (k row) x = .ok (k (row.set (place x) (value x)))) :
    ∀ {start : ℕ} {row : List α}, row.length = n → l.map place = List.range' start l.length →
      start + l.length ≤ n →
      l.foldlM f (k row) =
        .ok (k (row.take start ++ l.map value ++ row.drop (start + l.length))) := by
  induction l with
  | nil =>
    intro start row _ _ _
    rw [List.map_nil, List.append_nil, List.length_nil, Nat.add_zero, List.take_append_drop]
    rfl
  | cons x l ih =>
    intro start row hrow hplace hn
    rw [List.length_cons] at hn
    rw [List.map_cons, List.length_cons, List.range'_succ, List.cons.injEq] at hplace
    obtain ⟨hx, hplace⟩ := hplace
    have hlt : start < row.length := by omega
    rw [List.foldlM_cons, h row hrow x List.mem_cons_self (by omega), ok_bind, hx,
      ih (fun row hrow y hy => h row hrow y (List.mem_cons_of_mem _ hy))
        (by rwa [List.length_set]) hplace (by omega),
      List.drop_set_of_lt (by omega), List.take_add_one, List.take_set_of_le (Nat.le_refl start),
      List.getElem?_set_self hlt, Option.toList_some, List.length_cons, List.map_cons,
      List.append_assoc (row.take start), List.singleton_append]
    congr 4
    omega

/-- What is made of each element without a fault. -/
theorem mapM_map_eq {f : β → Run γ} {k : σ → β} {g : σ → γ} : ∀ {xs : List σ},
    (∀ x ∈ xs, f (k x) = .ok (g x)) → (xs.map k).mapM f = .ok (xs.map g)
  | [], _ => rfl
  | x :: xs, h => by
    obtain ⟨hx, hxs⟩ := List.forall_mem_cons.1 h
    rw [List.map_cons, List.mapM_cons, hx, ok_bind, mapM_map_eq hxs]
    rfl

/-- A vector without one element, each element being kept as `k` says. -/
theorem map_eraseIdx (k : β → γ) (xs : List β) (i : ℕ) :
    (xs.eraseIdx i).map k = (xs.map k).eraseIdx i := by
  rw [List.eraseIdx_eq_take_drop_succ, List.eraseIdx_eq_take_drop_succ, List.map_append,
    List.map_take, List.map_drop]

/-- What every turn of a loop preserves. -/
theorem foldlM_preserves {f : σ → β → Run σ} {P : σ → Prop} {xs : List β}
    (hkeep : ∀ s y, P s → ∀ s', f s y = .ok s' → P s') :
    ∀ {s : σ}, P s → ∀ s', xs.foldlM f s = .ok s' → P s' := by
  induction xs with
  | nil => exact fun {s} hs s' h => Except.ok.inj h ▸ hs
  | cons y ys ih =>
    intro s hs s' h
    rw [List.foldlM_cons] at h
    cases hy : f s y with
    | error e =>
      rw [hy] at h
      cases h
    | ok t =>
      rw [hy] at h
      exact ih (hkeep s y hs t hy) s' h

/-- **A loop with a fault** in one of its turns, whatever the state of the loop
is there. -/
theorem foldlM_fault {f : σ → β → Run σ} {P : σ → Prop} {xs : List β} {x : β} (hx : x ∈ xs)
    (hkeep : ∀ s y, P s → ∀ s', f s y = .ok s' → P s') (hfault : ∀ s, P s → ∃ e, f s x = .error e) :
    ∀ {s : σ}, P s → ∃ e, xs.foldlM f s = .error e := by
  induction xs with
  | nil => exact absurd hx List.not_mem_nil
  | cons y ys ih =>
    intro s hs
    rw [List.foldlM_cons]
    cases hy : f s y with
    | error e => exact ⟨e, rfl⟩
    | ok s' =>
      have hys : x ∈ ys := (List.mem_cons.1 hx).resolve_left fun heq => by
        obtain ⟨e, he⟩ := hfault s hs
        rw [← heq, he] at hy
        cases hy
      exact ih hys (hkeep s y hs s' hy)

/-! ## Rows of one length -/

section Rows

variable {rows : List (List α)} {c i j : ℕ}

/-- The number of entries. -/
theorem length_flatten (h : ∀ r ∈ rows, r.length = c) : rows.flatten.length = rows.length * c := by
  induction rows with
  | nil => exact (Nat.zero_mul c).symm
  | cons r rows ih =>
    obtain ⟨hr, hrows⟩ := List.forall_mem_cons.1 h
    rw [List.flatten_cons, List.length_append, ih hrows, hr, List.length_cons, Nat.succ_mul,
      Nat.add_comm]

/-- The place of an entry is counted on from row to row. -/
theorem succ_mul_add (i c j : ℕ) : (i + 1) * c + j = c + (i * c + j) := by
  rw [Nat.succ_mul]
  omega

/-- **An entry.** -/
theorem getElem?_flatten (h : ∀ r ∈ rows, r.length = c) (hj : j < c) :
    rows.flatten[i * c + j]? = rows[i]?.bind (·[j]?) := by
  induction rows generalizing i with
  | nil => rfl
  | cons r rows ih =>
    obtain ⟨hr, hrows⟩ := List.forall_mem_cons.1 h
    rw [List.flatten_cons]
    cases i with
    | zero =>
      rw [Nat.zero_mul, Nat.zero_add, List.getElem?_append_left (by omega)]
      rfl
    | succ i =>
      rw [succ_mul_add, List.getElem?_append_right (by omega), hr, Nat.add_sub_cancel_left,
        ih hrows]
      rfl

/-- **A row.** -/
theorem slice_flatten (h : ∀ r ∈ rows, r.length = c) (hi : i < rows.length) :
    (rows.flatten.take ((i + 1) * c)).drop (i * c) = rows[i] := by
  induction rows generalizing i with
  | nil => exact absurd hi (Nat.not_lt_zero i)
  | cons r rows ih =>
    obtain ⟨hr, hrows⟩ := List.forall_mem_cons.1 h
    rw [List.flatten_cons]
    cases i with
    | zero =>
      rw [Nat.zero_mul, List.drop_zero, Nat.zero_add, Nat.one_mul, ← hr, List.take_left']
      · rfl
      · rfl
    | succ i =>
      have htake : (i + 1 + 1) * c = r.length + (i + 1) * c := by
        rw [Nat.succ_mul (i + 1), hr, Nat.add_comm]
      have hdrop : (i + 1) * c = r.length + i * c := by
        rw [Nat.succ_mul, hr, Nat.add_comm]
      rw [htake, List.take_length_add_append]
      nth_rewrite 1 [hdrop]
      rw [List.drop_length_add_append, ih hrows (Nat.lt_of_succ_lt_succ hi)]
      rfl

/-- **The rows** are the pieces. -/
theorem pieces_flatten (h : ∀ r ∈ rows, r.length = c) (hc : 0 < c) :
    pieces c rows.flatten = rows := by
  induction rows with
  | nil =>
    rw [pieces]
    exact dif_pos (.inr rfl)
  | cons r rows ih =>
    obtain ⟨hr, hrows⟩ := List.forall_mem_cons.1 h
    have hne : ¬ (c = 0 ∨ (r :: rows).flatten = []) := by
      rintro (hzero | hnil)
      · omega
      · have hlen := congrArg List.length hnil
        rw [List.flatten_cons, List.length_append, List.length_nil] at hlen
        omega
    rw [pieces, dif_neg hne, List.flatten_cons, List.take_left' hr, List.drop_left' hr, ih hrows]

/-- **A column.** -/
theorem every_flatten (h : ∀ r ∈ rows, r.length = c) (hj : j < c) (d : α) :
    every c (rows.flatten.drop j) = rows.map (·.getD j d) := by
  induction rows with
  | nil =>
    rw [List.flatten_nil, List.drop_nil, every]
    rfl
  | cons r rows ih =>
    obtain ⟨hr, hrows⟩ := List.forall_mem_cons.1 h
    have hjr : j < r.length := hr ▸ hj
    have hcons : (r ++ rows.flatten).drop j = r[j] :: (r.drop (j + 1) ++ rows.flatten) := by
      rw [List.drop_append_of_le_length (Nat.le_of_lt hjr), List.drop_eq_getElem_cons hjr,
        List.cons_append]
    have hrest : (r.drop (j + 1) ++ rows.flatten).drop (c - 1) = rows.flatten.drop j := by
      rw [List.drop_append, List.drop_drop, List.drop_eq_nil_of_le (by omega), List.nil_append,
        List.length_drop]
      congr 1
      omega
    rw [List.flatten_cons, hcons, every, hrest, ih hrows, List.map_cons, List.getD_eq_getElem?_getD,
      List.getElem?_eq_getElem hjr, Option.getD_some]

/-- **An entry that is replaced.** -/
theorem set_flatten (h : ∀ r ∈ rows, r.length = c) (hj : j < c) (v : α) :
    rows.flatten.set (i * c + j) v = (rows.modify i (·.set j v)).flatten := by
  induction rows generalizing i with
  | nil =>
    rw [List.flatten_nil, List.set_nil]
    cases i <;> rfl
  | cons r rows ih =>
    obtain ⟨hr, hrows⟩ := List.forall_mem_cons.1 h
    rw [List.flatten_cons]
    cases i with
    | zero =>
      rw [Nat.zero_mul, Nat.zero_add, List.set_append_left _ _ (by omega)]
      rfl
    | succ i =>
      rw [succ_mul_add, List.set_append_right _ _ (by omega), hr, Nat.add_sub_cancel_left,
        ih hrows]
      rfl

end Rows

end Storage

end Milp
