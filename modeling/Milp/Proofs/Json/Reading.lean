import Milp.Json.Reader
import Milp.Proofs.Json.Tokens
/-!
# Reading what is written

`Reads reader ts v` says that a reader takes the value `v` off the tokens `ts`
whatever follows them, and `Refuses reader ts` that it fails on them whatever
follows. A list is read when each item is, and refused when the first item
that is not read is refused (`reads_list`, `refuses_list`); the fields of a
record are read one after the other (`ReadsFields.fields_eq`,
`RefusesFields.exists_fields_eq`). In any format of doubles, one that is read back
by itself is read in every text (`reads_double`), and one that is not finite is
refused (`refuses_double`).
-/

namespace Milp

namespace Json

variable {β γ : Type} {reader : Reader β} {ts : List Token} {tss : List (List Token)} {v : β}
  {vs : List β} {n : ℕ}

/-- **A value starts here**, not the end of a list or its next item. -/
def StartsValue (ts : List Token) : Prop := ∃ t us, ts = t :: us ∧ t ≠ .closeList ∧ t ≠ .comma

/-- **Tokens that are read as a value.** -/
structure Reads (reader : Reader β) (ts : List Token) (v : β) : Prop where
  /-- They start a value. -/
  starts : StartsValue ts
  /-- The value is taken off, whatever follows. -/
  eq : ∀ rest, reader (ts ++ rest) = .ok (v, rest)

/-- **Tokens that are refused.** -/
structure Refuses (reader : Reader β) (ts : List Token) : Prop where
  /-- They start a value. -/
  starts : StartsValue ts
  /-- The reader fails, whatever follows. -/
  eq : ∀ rest, ∃ e, reader (ts ++ rest) = .error e

theorem Reads.map (h : Reads reader ts v) (store : β → γ) :
    Reads (fun ts => (reader ts).map fun (v, rest) => (store v, rest)) ts (store v) :=
  ⟨h.starts, fun rest => by rw [h.eq]; rfl⟩

theorem Refuses.map (h : Refuses reader ts) (store : β → γ) :
    Refuses (fun ts => (reader ts).map fun (v, rest) => (store v, rest)) ts := by
  refine ⟨h.starts, fun rest => ?_⟩
  obtain ⟨e, he⟩ := h.eq rest
  exact ⟨e, by rw [he]; rfl⟩

/-! ## Whole texts -/

theorem whole_eq_ok [NumberFormat] {text : String} (h : reader (tokens text.toList) = .ok (v, [])) :
    whole reader text = .ok v := by
  simp only [whole, bind, Except.bind, h]

theorem whole_eq_error [NumberFormat] {text : String} {e : ReadError} (h : reader (tokens text.toList) = .error e) :
    whole reader text = .error e := by
  simp only [whole, bind, Except.bind, h]

/-! ## Lists -/

/-- The tokens of the next item, with its comma if it is not the first. -/
theorem element_items (h : StartsValue ts) (first : Bool) (tss : List (List Token))
    (rest : List Token) : element first reader (items first (ts :: tss) ++ rest) =
      (reader (ts ++ (items false tss ++ rest))).map fun (v, rest) => (some v, rest) := by
  obtain ⟨t, us, rfl, hclose, hcomma⟩ := h
  have hnotclose : ∀ rest' : List Token,
      t :: (us ++ (items false tss ++ rest)) = .closeList :: rest' → False :=
    fun _ heq => hclose (List.cons.inj heq).1
  cases first with
  | true =>
    rw [items, List.append_assoc, List.cons_append, element, if_pos rfl]
    · exact hnotclose
    · exact fun _ heq => hcomma (List.cons.inj heq).1
  | false =>
    rw [items, List.cons_append, List.append_assoc, List.cons_append, element,
      if_neg Bool.false_ne_true]
    exact hnotclose

/-- There is a token at least for each item. -/
theorem length_le_length_items : ∀ {tss : List (List Token)}, (∀ ts ∈ tss, StartsValue ts) →
    ∀ first, tss.length ≤ (items first tss).length := by
  intro tss h
  induction tss with
  | nil => exact fun _ => Nat.zero_le _
  | cons ts tss ih =>
    obtain ⟨⟨t, us, rfl, -⟩, htss⟩ := List.forall_mem_cons.1 h
    have hle := ih htss false
    intro first
    cases first <;> simp only [items, List.length_cons, List.length_append] <;> omega

/-- **Items are read** up to the closing bracket. -/
theorem elements_items (h : List.Forall₂ (Reads reader) tss vs) (rest : List Token) :
    ∀ {n : ℕ} {first : Bool}, tss.length < n →
      elements reader n first (items first tss ++ .closeList :: rest) = .ok (vs, rest) := by
  induction h with
  | nil =>
    intro n first hn
    obtain ⟨k, rfl⟩ : ∃ k, n = k + 1 := ⟨n - 1, by omega⟩
    rfl
  | cons hts _ ih =>
    intro n first hn
    obtain ⟨k, rfl⟩ : ∃ k, n = k + 1 := ⟨n - 1, by omega⟩
    rw [elements]
    simp only [bind, Except.bind, element_items hts.starts, hts.eq, Except.map,
      ih (Nat.lt_of_succ_lt_succ hn)]

/-- **A list is read** when its items are. -/
theorem reads_list (h : List.Forall₂ (Reads reader) tss vs) :
    Reads (list reader) (listTokens tss) vs := by
  refine ⟨⟨_, _, rfl, nofun, nofun⟩, fun rest => ?_⟩
  have hstarts : ∀ ts ∈ tss, StartsValue ts := by
    induction h with
    | nil => exact nofun
    | cons hts _ ih => exact List.forall_mem_cons.2 ⟨hts.starts, ih⟩
  have hfuel := length_le_length_items hstarts true
  rw [listTokens, List.append_assoc, List.cons_append, list]
  refine elements_items h rest ?_
  rw [List.length_append]
  omega

/-- A list is read when each of its elements is, from tokens of its own. -/
theorem reads_list_map {tokensOf : β → List Token}
    (h : ∀ v ∈ vs, Reads reader (tokensOf v) v) :
    Reads (list reader) (listTokens (vs.map tokensOf)) vs :=
  reads_list (List.forall₂_map_left_iff.2 (List.forall₂_same.2 h))

/-- **Items are refused** when one of them is and those before it are read. -/
theorem elements_refused (rest : List Token) :
    ∀ {tss : List (List Token)}, (∀ ts ∈ tss, (∃ v, Reads reader ts v) ∨ Refuses reader ts) →
      (∃ ts ∈ tss, Refuses reader ts) → ∀ (n : ℕ) (first : Bool),
        ∃ e, elements reader n first (items first tss ++ rest) = .error e := by
  intro tss h hex
  induction tss with
  | nil =>
    obtain ⟨_, hmem, -⟩ := hex
    exact absurd hmem List.not_mem_nil
  | cons ts tss ih =>
    intro n first
    obtain ⟨hts, htss⟩ := List.forall_mem_cons.1 h
    cases n with
    | zero => exact ⟨_, rfl⟩
    | succ n =>
      rw [elements]
      by_cases hrefuses : Refuses reader ts
      · obtain ⟨e, he⟩ := hrefuses.eq (items false tss ++ rest)
        simp only [bind, Except.bind, element_items hrefuses.starts, he, Except.map]
        exact ⟨e, rfl⟩
      · -- the item is read, so that it is not the one that is refused
        obtain ⟨v, hreads⟩ := hts.resolve_right hrefuses
        obtain ⟨us, hmem, hus⟩ := hex
        have hlater : us ∈ tss :=
          (List.mem_cons.1 hmem).resolve_left fun heq => hrefuses (heq ▸ hus)
        obtain ⟨e, he⟩ := ih htss ⟨us, hlater, hus⟩ n false
        simp only [bind, Except.bind, element_items hreads.starts, hreads.eq, Except.map, he]
        exact ⟨e, rfl⟩

/-- **A list is refused** when an item is, and those before it are read. -/
theorem refuses_list (h : ∀ ts ∈ tss, (∃ v, Reads reader ts v) ∨ Refuses reader ts)
    (hex : ∃ ts ∈ tss, Refuses reader ts) : Refuses (list reader) (listTokens tss) := by
  refine ⟨⟨_, _, rfl, nofun, nofun⟩, fun rest => ?_⟩
  rw [listTokens, List.append_assoc, List.cons_append, list]
  exact elements_refused ([.closeList] ++ rest) h hex _ _

/-- A list is refused when an element is, and the others are read. -/
theorem refuses_list_map {tokensOf : γ → List Token} {xs : List γ}
    (h : ∀ x ∈ xs, (∃ v, Reads reader (tokensOf x) v) ∨ Refuses reader (tokensOf x))
    (hex : ∃ x ∈ xs, Refuses reader (tokensOf x)) :
    Refuses (list reader) (listTokens (xs.map tokensOf)) := by
  obtain ⟨x, hx, hrefuses⟩ := hex
  exact refuses_list (List.forall_mem_map.2 h) ⟨_, List.mem_map_of_mem hx, hrefuses⟩

/-! ## Records -/

section Records

variable {field : β → String → Except Misfit (Option (Reader β))} {b b' : β} {name : String}
  {fs : List (String × List Token)}

/-- The tokens of fields. -/
def fieldItems (first : Bool) (fs : List (String × List Token)) : List Token :=
  items first (fs.map fun f => fieldTokens f.1 f.2)

/-- **Fields that are read one after the other**, from what has been read so
far. -/
inductive ReadsFields (field : β → String → Except Misfit (Option (Reader β))) :
    β → List (String × List Token) → β → Prop where
  /-- There is none. -/
  | nil (b : β) : ReadsFields field b [] b
  /-- The first one is read, and then the others. -/
  | cons {b b₁ b' : β} {name : String} {reader : Reader β} {ts : List Token}
      {fs : List (String × List Token)} : field b name = .ok (some reader) →
      Reads reader ts b₁ → ReadsFields field b₁ fs b' →
      ReadsFields field b ((name, ts) :: fs) b'

/-- **Fields that are refused**: those before one of them are read, and that
one is not. -/
inductive RefusesFields (field : β → String → Except Misfit (Option (Reader β))) :
    β → List (String × List Token) → Prop where
  /-- It is the first one. -/
  | here {b : β} {name : String} {reader : Reader β} {ts : List Token}
      {fs : List (String × List Token)} : field b name = .ok (some reader) →
      Refuses reader ts → RefusesFields field b ((name, ts) :: fs)
  /-- It comes later. -/
  | later {b b₁ : β} {name : String} {reader : Reader β} {ts : List Token}
      {fs : List (String × List Token)} : field b name = .ok (some reader) →
      Reads reader ts b₁ → RefusesFields field b₁ fs → RefusesFields field b ((name, ts) :: fs)

/-- The name of the next field. -/
theorem fieldName_items (first : Bool) (ts : List Token) (fs : List (String × List Token))
    (rest : List Token) : fieldName first (fieldItems first ((name, ts) :: fs) ++ rest) =
      .ok (some name, .colon :: (ts ++ (fieldItems false fs ++ rest))) := by
  cases first <;> simp [fieldItems, items, fieldTokens, fieldName]

/-- **Fields are read** up to the closing bracket. -/
theorem ReadsFields.fields_eq (h : ReadsFields field b fs b') (rest : List Token) :
    ∀ {n : ℕ} {first : Bool}, fs.length < n →
      fields field n first b (fieldItems first fs ++ .closeRecord :: rest) = .ok (b', rest) := by
  induction h with
  | nil b =>
    intro n first hn
    obtain ⟨k, rfl⟩ : ∃ k, n = k + 1 := ⟨n - 1, by omega⟩
    rfl
  | cons hfield hreads _ ih =>
    intro n first hn
    obtain ⟨k, rfl⟩ : ∃ k, n = k + 1 := ⟨n - 1, by omega⟩
    rw [fields]
    simp only [bind, Except.bind, fieldName_items, hfield, colon, hreads.eq,
      ih (Nat.lt_of_succ_lt_succ hn)]

/-- **A record's fields are read**: there are tokens enough for all of them. -/
theorem ReadsFields.fields_all (h : ReadsFields field b fs b') (rest : List Token) :
    fields field ((fieldItems true fs ++ .closeRecord :: rest).length + 1) true b
      (fieldItems true fs ++ .closeRecord :: rest) = .ok (b', rest) := by
  have hle := @length_le_length_items (fs.map fun f => fieldTokens f.1 f.2)
    (List.forall_mem_map.2 fun f _ => ⟨_, _, rfl, nofun, nofun⟩) true
  rw [List.length_map] at hle
  refine h.fields_eq rest ?_
  rw [fieldItems, List.length_append]
  omega

/-- **Fields are refused** where one of them is. -/
theorem RefusesFields.exists_fields_eq (h : RefusesFields field b fs) (rest : List Token) :
    ∀ (n : ℕ) (first : Bool),
      ∃ e, fields field n first b (fieldItems first fs ++ rest) = .error e := by
  induction h with
  | @here b name reader ts fs hfield hrefuses =>
    intro n first
    cases n with
    | zero => exact ⟨_, rfl⟩
    | succ n =>
      obtain ⟨e, he⟩ := hrefuses.eq (fieldItems false fs ++ rest)
      rw [fields]
      simp only [bind, Except.bind, fieldName_items, hfield, colon, he]
      exact ⟨e, rfl⟩
  | later hfield hreads _ ih =>
    intro n first
    cases n with
    | zero => exact ⟨_, rfl⟩
    | succ n =>
      obtain ⟨e, he⟩ := ih n false
      rw [fields]
      simp only [bind, Except.bind, fieldName_items, hfield, colon, hreads.eq, he]
      exact ⟨e, rfl⟩

end Records

/-! ## Doubles -/

/-- Tokens that are one double are a number. -/
theorem exists_number_of_double {ts : List Token} {x : Double} (h : double ts = .ok (x, [])) :
    ∃ n, ts = [.number (.ok n)] ∧ ∀ rest, double (.number (.ok n) :: rest) = .ok (x, rest) := by
  unfold double at h
  split at h
  all_goals cases h
  all_goals exact ⟨_, rfl, fun _ => rfl⟩

variable [F : NumberFormat]

/-- The tokens of a double. -/
def doubleTokens (x : Double) : List Token := tokens (F.write x)

/-- **A double that is read back**: its text by itself is read as the double. -/
def ReadsBack (x : Double) : Prop := whole double (Value.double x).compact = .ok x

instance (x : Double) : Decidable (ReadsBack x) :=
  decidable_of_iff
    (((whole double (Value.double x).compact).toOption.map Double.bits) = some x.bits) <| by
      rw [ReadsBack]
      cases whole double (Value.double x).compact with
      | error e => exact iff_of_false nofun nofun
      | ok y =>
        simp only [Except.toOption, Option.map_some, Option.some.injEq, Except.ok.injEq]
        exact ⟨Double.eq_of_bits_eq, congrArg Double.bits⟩

/-- A double that is read back is a number in every text. -/
theorem reads_double {x : Double} (h : ReadsBack x) :
    (Value.double x).Lexes (doubleTokens x) ∧ Reads double (doubleTokens x) x := by
  have htoList : (Value.double x).compact.toList = F.write x := String.toList_ofList
  have hdouble : double (doubleTokens x) = .ok (x, []) := by
    rw [ReadsBack, whole, htoList] at h
    change (double (doubleTokens x) >>= _) = _ at h
    cases hread : double (doubleTokens x) with
    | error e =>
      rw [hread] at h
      cases h
    | ok r =>
      obtain ⟨y, ts⟩ := r
      rw [hread] at h
      cases ts with
      | nil => cases h; rfl
      | cons t ts => cases h
  obtain ⟨n, htokens, hreads⟩ := exists_number_of_double hdouble
  rw [htokens]
  exact ⟨fun _ => lexes_of_tokens_eq_number htokens, ⟨_, _, rfl, nofun, nofun⟩, hreads⟩

theorem lexes_null : Lexes nullChars [.word (.ok .null)] := by
  intro rest _
  rw [nullChars, List.cons_append, tokens_cons rfl]
  rfl

theorem lexes_not_isFinite {x : Double} (h : ¬ x.IsFinite) :
    Lexes (F.write x) [.word (.ok .null)] := by
  rw [F.write_of_not_isFinite h]
  exact lexes_null

/-- **A double that is not finite** is null in every text, which is no number. -/
theorem refuses_double {x : Double} (h : ¬ x.IsFinite) :
    (Value.double x).Lexes (doubleTokens x) ∧ Refuses double (doubleTokens x) := by
  rw [doubleTokens, (lexes_not_isFinite h).tokens_eq]
  exact ⟨fun _ => lexes_not_isFinite h, ⟨_, _, rfl, nofun, nofun⟩, fun rest => ⟨_, rfl⟩⟩

/-! ## Lists of doubles -/

/-- The tokens of a list of doubles. -/
def doublesTokens (xs : List Double) : List Token := listTokens (xs.map doubleTokens)

section Doubles

variable {xs : List Double} {xss : List (List Double)}

theorem lexes_doubles (h : ∀ x ∈ xs, x.IsFinite → ReadsBack x) :
    (Value.doubles xs).Lexes (doublesTokens xs) := by
  refine Value.lexes_list (List.forall₂_map_left_iff.2 (List.forall₂_map_right_iff.2 ?_))
  refine List.forall₂_same.2 fun x hx => ?_
  by_cases hfinite : x.IsFinite
  · exact (reads_double (h x hx hfinite)).1
  · exact (refuses_double hfinite).1

theorem reads_doubles (h : ∀ x ∈ xs, x.IsFinite → ReadsBack x) (hfinite : ∀ x ∈ xs, x.IsFinite) :
    Reads (list double) (doublesTokens xs) xs :=
  reads_list_map fun x hx => (reads_double (h x hx (hfinite x hx))).2

theorem refuses_doubles (h : ∀ x ∈ xs, x.IsFinite → ReadsBack x) (hex : ∃ x ∈ xs, ¬ x.IsFinite) :
    Refuses (list double) (doublesTokens xs) := by
  obtain ⟨x, hx, hinfinite⟩ := hex
  refine refuses_list_map (fun y hy => ?_) ⟨x, hx, (refuses_double hinfinite).2⟩
  by_cases hfinite : y.IsFinite
  · exact .inl ⟨y, (reads_double (h y hy hfinite)).2⟩
  · exact .inr (refuses_double hfinite).2

theorem lexes_doublesList (h : ∀ xs ∈ xss, ∀ x ∈ xs, x.IsFinite → ReadsBack x) :
    (Value.list (xss.map Value.doubles)).Lexes (listTokens (xss.map doublesTokens)) := by
  refine Value.lexes_list (List.forall₂_map_left_iff.2 (List.forall₂_map_right_iff.2 ?_))
  exact List.forall₂_same.2 fun xs hxs => lexes_doubles (h xs hxs)

theorem reads_doublesList (h : ∀ xs ∈ xss, ∀ x ∈ xs, x.IsFinite → ReadsBack x)
    (hfinite : ∀ xs ∈ xss, ∀ x ∈ xs, x.IsFinite) :
    Reads (list (list double)) (listTokens (xss.map doublesTokens)) xss :=
  reads_list_map fun xs hxs => reads_doubles (h xs hxs) (hfinite xs hxs)

theorem refuses_doublesList (h : ∀ xs ∈ xss, ∀ x ∈ xs, x.IsFinite → ReadsBack x)
    (hex : ∃ xs ∈ xss, ∃ x ∈ xs, ¬ x.IsFinite) :
    Refuses (list (list double)) (listTokens (xss.map doublesTokens)) := by
  obtain ⟨xs, hxs, hinfinite⟩ := hex
  refine refuses_list_map (fun ys hys => ?_) ⟨xs, hxs, refuses_doubles (h xs hxs) hinfinite⟩
  by_cases hfinite : ∀ y ∈ ys, y.IsFinite
  · exact .inl ⟨ys, reads_doubles (h ys hys) hfinite⟩
  · exact .inr (refuses_doubles (h ys hys) (by simpa using hfinite))

end Doubles

end Json

end Milp
