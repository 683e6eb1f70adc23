import Milp.Proofs.Json.Reading
/-!
# What a text says

A text that is JSON says a `Tree`, whatever blanks it has and whatever it is for.
A value that can be read back part by part (`Value.Legible`) is written as a text
that says this value and nothing else, on one line or on several
(`Value.Legible.ofText_write`). The proof is by induction on the value: its
tokens are the same with all blanks, and they are enough for reading it
(`Value.IsRead`).
-/

namespace Milp

namespace Json

/-! ## Trees -/

/-- **What a JSON text says.** Numbers are doubles, and a record has its fields in
the order of the text, those of one name included. -/
inductive Tree where
  | null
  | boolean (b : Bool)
  | number (x : Double)
  | text (s : String)
  | list (items : List Tree)
  | record (fields : List (String × Tree))

namespace Tree

/-- Every field is read and put after those before it. -/
def keep (reader : Reader Tree) (seen : List (String × Tree)) (name : String) :
    Except Misfit (Option (Reader (List (String × Tree)))) :=
  .ok (some fun ts => (reader ts).map fun (v, rest) => (seen ++ [(name, v)], rest))

/-- Reads a value of any type that is not deeper than a bound. -/
def reader : (bound : ℕ) → Reader Tree
  | 0, ts => .error (unexpected ts)
  | _ + 1, .word (.ok .null) :: rest => .ok (.null, rest)
  | _ + 1, .word (.ok .yes) :: rest => .ok (.boolean true, rest)
  | _ + 1, .word (.ok .no) :: rest => .ok (.boolean false, rest)
  | _ + 1, .text (.ok s) :: rest => .ok (.text s, rest)
  | n + 1, .openList :: rest =>
    (Json.list (reader n) (.openList :: rest)).map fun (vs, rest) => (.list vs, rest)
  | n + 1, .openRecord :: rest =>
    (fields (keep (reader n)) (rest.length + 1) true [] rest).map fun (fs, rest) =>
      (.record fs, rest)
  | _ + 1, ts => (double ts).map fun (x, rest) => (.number x, rest)

/-- **What a text says.** There are no more brackets than tokens. -/
def ofText [NumberFormat] : String → Except ReadError Tree := whole fun ts => reader ts.length ts

variable {n : ℕ} {ts : List Token} {tss : List (List Token)} {vs : List Tree} {x : Double}
variable {fs : List (String × List Token)} {seen all : List (String × Tree)}

/-! ## Reading trees -/

/-- What is read as a double is a number. -/
theorem reads_number (h : Reads double ts x) : Reads (reader (n + 1)) ts (.number x) := by
  have hwhole : double ts = .ok (x, []) := by simpa using h.eq []
  obtain ⟨k, rfl, -⟩ := exists_number_of_double hwhole
  exact ⟨h.starts, (h.map number).eq⟩

/-- A list is read when its items are, one level deeper. -/
theorem reads_items (h : List.Forall₂ (Reads (reader n)) tss vs) :
    Reads (reader (n + 1)) (listTokens tss) (.list vs) :=
  ⟨(reads_list h).starts, ((reads_list h).map list).eq⟩

/-- A record is read when its fields are, one after the other. -/
theorem reads_record (h : ReadsFields (keep (reader n)) [] fs all) :
    Reads (reader (n + 1)) (recordTokens fs) (.record all) := by
  refine ⟨⟨_, _, rfl, nofun, nofun⟩, fun rest => ?_⟩
  rw [recordTokens, List.append_assoc, List.cons_append]
  exact congrArg (Except.map fun r : List (String × Tree) × List Token => (Tree.record r.1, r.2))
    (h.fields_all rest)

end Tree

/-! ## Values as trees -/

namespace Value

mutual

/-- **What a value says.** A double that is not finite says nothing. -/
def tree : Value → Tree
  | null => .null
  | natural n => .number (ofWord n)
  | double x => if x.IsFinite then .number x else .null
  | text s => .text s
  | list items => .list (itemTrees items)
  | record fields => .record (fieldTrees fields)

/-- What the items of a list say. -/
def itemTrees : List Value → List Tree
  | [] => []
  | v :: rest => v.tree :: itemTrees rest

/-- What the fields of a record say. -/
def fieldTrees : List (String × Value) → List (String × Tree)
  | [] => []
  | (name, v) :: rest => (name, v.tree) :: fieldTrees rest

end

theorem itemTrees_eq_map (items : List Value) : itemTrees items = items.map tree := by
  induction items with
  | nil => rfl
  | cons v rest ih => rw [itemTrees, ih, List.map_cons]

theorem fieldTrees_eq_map (fields : List (String × Value)) :
    fieldTrees fields = fields.map fun f => (f.1, f.2.tree) := by
  induction fields with
  | nil => rfl
  | cons f rest ih => rw [fieldTrees, ih, List.map_cons]

/-- The items of a list have fewer tokens than the list. -/
theorem length_le_of_mem_items {ts : List Token} {tss : List (List Token)} (h : ts ∈ tss)
    (first : Bool) : ts.length ≤ (items first tss).length := by
  induction tss generalizing first with
  | nil => exact absurd h List.not_mem_nil
  | cons us tss ih =>
    have hlength : us.length + (items false tss).length ≤ (items first (us :: tss)).length := by
      cases first <;> simp only [items, List.length_cons, List.length_append] <;> omega
    rcases List.mem_cons.1 h with rfl | h
    · omega
    · have := ih h false
      omega

variable [NumberFormat]

/-- **A value that can be read back** part by part. -/
inductive Legible : Value → Prop
  | null : Legible .null
  /-- An integer is a word. -/
  | natural {n : ℕ} (h : n < wordLimit) : Legible (.natural n)
  /-- A finite double is read back. -/
  | double {x : Double} (h : x.IsFinite → ReadsBack x) : Legible (.double x)
  /-- A text needs no escapes. -/
  | text {s : String} (h : IsName s) : Legible (.text s)
  /-- The items of a list are read back. -/
  | list {items : List Value} (h : ∀ v ∈ items, Legible v) : Legible (.list items)
  /-- So are the fields of a record, whose names need no escapes. -/
  | record {fields : List (String × Value)} (hnames : ∀ f ∈ fields, IsName f.1)
    (h : ∀ f ∈ fields, Legible f.2) : Legible (.record fields)

/-- The tokens of a value on one line. -/
def tokens (v : Value) : List Token := Json.tokens (v.write .none 0)

/-- **A value that is read from its tokens**, which it has with all blanks. -/
structure IsRead (v : Value) : Prop where
  /-- The tokens are those of the value. -/
  lexes : ∀ sp : Spacing, sp.IsBlank → v.LexesWith sp v.tokens
  /-- They are read as the value. -/
  reads : ∀ n, v.tokens.length ≤ n → Reads (Tree.reader n) v.tokens v.tree

variable {v : Value}

/-- The tokens of a value are those that it has with all blanks. -/
theorem IsRead.of_tokens (ts : List Token)
    (hlexes : ∀ sp : Spacing, sp.IsBlank → v.LexesWith sp ts)
    (hreads : ∀ n, ts.length ≤ n + 1 → Reads (Tree.reader (n + 1)) ts v.tree) : v.IsRead := by
  have htokens : v.tokens = ts := (hlexes .none Spacing.isBlank_none 0).tokens_eq
  obtain ⟨t, us, hstart, -⟩ := (hreads ts.length (Nat.le_succ _)).starts
  rw [← htokens] at hlexes hreads hstart
  refine ⟨hlexes, fun n hn => ?_⟩
  cases n with
  | zero =>
    rw [hstart] at hn
    exact absurd hn (Nat.not_succ_le_zero _)
  | succ n => exact hreads n hn

/-- The fields of a record are read one after the other. -/
theorem readsFields_keep {n : ℕ} {fields : List (String × Value)}
    (h : ∀ f ∈ fields, Reads (Tree.reader n) f.2.tokens f.2.tree) (seen : List (String × Tree)) :
    ReadsFields (Tree.keep (Tree.reader n)) seen (fields.map fun f => (f.1, f.2.tokens))
      (seen ++ fields.map fun f => (f.1, f.2.tree)) := by
  induction fields generalizing seen with
  | nil => exact (List.append_nil seen).symm ▸ .nil seen
  | cons f fields ih =>
    obtain ⟨hf, hfields⟩ := List.forall_mem_cons.1 h
    have hrest := ih hfields (seen ++ [(f.1, f.2.tree)])
    rw [List.append_assoc] at hrest
    exact .cons rfl (hf.map fun v => seen ++ [(f.1, v)]) hrest

/-- **Every value that can be read back is read from its tokens.** -/
theorem Legible.isRead (h : v.Legible) : v.IsRead := by
  induction h with
  | null =>
    exact .of_tokens _ (fun _ _ _ => lexes_null)
      fun _ _ => ⟨⟨_, _, rfl, nofun, nofun⟩, fun _ => rfl⟩
  | natural hn =>
    exact .of_tokens _ (fun _ _ _ => lexes_naturalChars hn) fun _ _ =>
      Tree.reads_number ⟨⟨_, _, rfl, nofun, nofun⟩, fun _ => rfl⟩
  | @double x hback =>
    by_cases hfinite : x.IsFinite
    · obtain ⟨hlexes, hreads⟩ := reads_double (hback hfinite)
      refine .of_tokens _ (fun _ _ _ => hlexes 0) fun _ _ => ?_
      rw [tree, if_pos hfinite]
      exact Tree.reads_number hreads
    · refine .of_tokens _ (fun _ _ _ => lexes_not_isFinite hfinite) fun _ _ => ?_
      rw [tree, if_neg hfinite]
      exact ⟨⟨_, _, rfl, nofun, nofun⟩, fun _ => rfl⟩
  | text hs =>
    exact .of_tokens _ (fun _ _ _ => lexes_quoted hs)
      fun _ _ => ⟨⟨_, _, rfl, nofun, nofun⟩, fun _ => rfl⟩
  | @list vs _ ih =>
    refine .of_tokens (listTokens (vs.map tokens)) (fun sp hsp => ?_) fun n hn => ?_
    · exact lexesWith_list hsp (List.forall₂_map_right_iff.2
        (List.forall₂_same.2 fun v hv => (ih v hv).lexes sp hsp))
    · rw [tree, itemTrees_eq_map]
      refine Tree.reads_items (List.forall₂_map_left_iff.2 (List.forall₂_map_right_iff.2
        (List.forall₂_same.2 fun v hv => (ih v hv).reads n ?_)))
      have hle := length_le_of_mem_items (List.mem_map_of_mem (f := tokens) hv) true
      rw [listTokens, List.length_append, List.length_cons] at hn
      omega
  | @record fields hnames _ ih =>
    refine .of_tokens (recordTokens (fields.map fun f => (f.1, f.2.tokens))) (fun sp hsp => ?_)
      fun n hn => ?_
    · exact lexesWith_record hsp (List.forall₂_map_right_iff.2
        (List.forall₂_same.2 fun f hf => ⟨rfl, hnames f hf, (ih f hf).lexes sp hsp⟩))
    · rw [tree, fieldTrees_eq_map]
      refine Tree.reads_record (readsFields_keep (fun f hf => (ih f hf).reads n ?_) [])
      have hmem : fieldTokens f.1 f.2.tokens ∈
          (fields.map fun f => (f.1, f.2.tokens)).map fun f => fieldTokens f.1 f.2 :=
        List.mem_map_of_mem (List.mem_map_of_mem hf)
      have hle := length_le_of_mem_items hmem true
      rw [fieldTokens, List.length_cons, List.length_cons] at hle
      rw [recordTokens, List.length_append, List.length_cons] at hn
      omega

/-- **A written value says what the value says**, with any blanks in it and after
it. -/
theorem Legible.ofText_write (h : v.Legible) {sp : Spacing} (hsp : sp.IsBlank) {after : List Char}
    (hafter : ∀ c ∈ after, isBlank c = true) :
    Tree.ofText (String.ofList (v.write sp 0 ++ after)) = .ok v.tree := by
  have hnone : Json.tokens after = [] := by
    have hblanks : Json.tokens (after ++ []) = Json.tokens [] := tokens_blanks hafter
    rwa [List.append_nil, tokens_nil] at hblanks
  have hends : Ends after := List.append_nil after ▸ ends_nil.blanks_append hafter
  have htokens : Json.tokens (v.write sp 0 ++ after) = v.tokens := by
    rw [h.isRead.lexes sp hsp 0 after hends, hnone, List.append_nil]
  have hread := (h.isRead.reads _ (Nat.le_refl _)).eq []
  rw [List.append_nil] at hread
  refine whole_eq_ok ?_
  rw [String.toList_ofList, htokens]
  exact hread

end Value

end Json

end Milp
