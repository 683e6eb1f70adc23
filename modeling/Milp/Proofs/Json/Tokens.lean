import Mathlib.Data.List.Forall2
import Milp.Json.Token
import Milp.Json.Value
/-!
# The tokens of what is written

A written text comes apart into the tokens of its parts, as long as no number
runs into what follows it. `Lexes cs ts` says that `cs` has the tokens `ts`
wherever the text goes on with something that does not continue a number.
Names, integers and what is between brackets are read as they were written
(`lexes_quoted`, `lexes_naturalChars`, `lexes_bracket`), with any blanks that
separate the parts; a text that is one number by itself is that number in every
text (`lexes_of_tokens_eq_number`). All of it holds for every
format of doubles.
-/

namespace Milp

namespace Json

open Decimal

variable {cs ds rest : List Char} {c : Char} {ts us : List Token}

/-! ## What ends a number -/

/-- Whether a character may go on with a number. -/
def continuesNumber (c : Char) : Bool := isDigit c || c == '.' || c == 'e' || c == 'E'

/-- **A text that goes on with no number.** -/
def Ends (cs : List Char) : Prop := ∀ c ∈ cs.head?, continuesNumber c = false

theorem ends_nil : Ends [] := nofun

theorem ends_cons (h : continuesNumber c = false) : Ends (c :: cs) := by
  intro d hd
  rw [List.head?_cons, Option.mem_some_iff] at hd
  exact hd ▸ h

theorem Ends.not_isDigit (h : Ends (c :: cs)) : isDigit c = false := by
  have hc := h c rfl
  simp only [continuesNumber, Bool.or_eq_false_iff] at hc
  exact hc.1.1.1

/-- No number goes on with a blank. -/
theorem Ends.blanks_append (hrest : Ends rest) (h : ∀ c ∈ cs, isBlank c = true) :
    Ends (cs ++ rest) := by
  cases cs with
  | nil => exact hrest
  | cons c cs =>
    have hc := h c List.mem_cons_self
    simp only [isBlank, Bool.or_eq_true, beq_iff_eq] at hc
    refine ends_cons ?_
    rcases hc with ((rfl | rfl) | rfl) | rfl <;> rfl

theorem spanDigits_append (hrest : Ends rest) :
    spanDigits (cs ++ rest) = ((spanDigits cs).1, (spanDigits cs).2 ++ rest) := by
  have hnone : rest.takeWhile isDigit = [] ∧ rest.dropWhile isDigit = rest := by
    cases rest with
    | nil => exact ⟨rfl, rfl⟩
    | cons d rest => simp [hrest.not_isDigit]
  induction cs with
  | nil => exact Prod.ext hnone.1 hnone.2
  | cons d cs ih =>
    by_cases hd : isDigit d = true
    · have hfst := congrArg Prod.fst ih
      have hsnd := congrArg Prod.snd ih
      simp only [spanDigits] at hfst hsnd
      simp [spanDigits, hd, hfst, hsnd]
    · simp [spanDigits, hd]

/-! ## Numbers -/

theorem takeWhole_eq_ok_iff {w r : List Char} : takeWhole cs = .ok (w, r) ↔
    spanDigits cs = (w, r) ∧ w ≠ [] ∧ ∀ d ds, w ≠ '0' :: d :: ds := by
  unfold takeWhole
  split
  · rename_i heq
    rw [heq]
    exact iff_of_false nofun fun ⟨h, hne, _⟩ => hne (Prod.mk.inj h).1.symm
  · rename_i d ds r' heq
    rw [heq]
    exact iff_of_false nofun fun ⟨h, _, hzero⟩ => hzero d ds (Prod.mk.inj h).1.symm
  · rename_i w' r' hne hzero heq
    rw [heq, Except.ok.injEq]
    refine ⟨fun h => ?_, fun h => h.1⟩
    obtain ⟨rfl, rfl⟩ := Prod.mk.inj h
    exact ⟨rfl, hne, hzero⟩

theorem takeFraction_eq_none (h : cs.head? ≠ some '.') : takeFraction cs = .ok (none, cs) := by
  unfold takeFraction
  split
  · exact absurd rfl h
  · rfl

theorem takeFraction_point_eq_ok_iff {f : Option (List Char)} {r : List Char} :
    takeFraction ('.' :: cs) = .ok (f, r) ↔
      ∃ digits, f = some digits ∧ spanDigits cs = (digits, r) ∧ digits ≠ [] := by
  unfold takeFraction
  simp only
  split
  · rename_i heq
    refine iff_of_false nofun ?_
    rintro ⟨digits, -, hspan, hne⟩
    exact hne (Prod.mk.inj (heq.symm.trans hspan)).1.symm
  · rename_i digits r' hne heq
    rw [Except.ok.injEq, heq]
    constructor
    · intro h
      obtain ⟨rfl, rfl⟩ := Prod.mk.inj h
      exact ⟨digits, rfl, rfl, hne⟩
    · rintro ⟨_, rfl, hspan, -⟩
      obtain ⟨rfl, rfl⟩ := Prod.mk.inj hspan
      rfl

theorem takeExponent_eq_none (h : ∀ d ∈ cs.head?, ¬ (d = 'e' ∨ d = 'E')) :
    takeExponent cs = .ok (none, cs) := by
  cases cs with
  | nil => rfl
  | cons d cs => exact if_neg (h d rfl)

theorem takeExponent_mark_eq_ok_iff (hc : c = 'e' ∨ c = 'E') {e : Option (Bool × List Char)}
    {r : List Char} : takeExponent (c :: cs) = .ok (e, r) ↔
      ∃ digits, e = some ((takeSign cs).1, digits) ∧
        spanDigits (takeSign cs).2 = (digits, r) ∧ digits ≠ [] := by
  unfold takeExponent
  simp only [if_pos hc]
  split
  · rename_i heq
    refine iff_of_false nofun ?_
    rintro ⟨digits, -, hspan, hne⟩
    exact hne (Prod.mk.inj (heq.symm.trans hspan)).1.symm
  · rename_i digits r' hne heq
    rw [Except.ok.injEq, heq]
    constructor
    · intro h
      obtain ⟨rfl, rfl⟩ := Prod.mk.inj h
      exact ⟨digits, rfl, rfl, hne⟩
    · rintro ⟨_, rfl, hspan, -⟩
      obtain ⟨rfl, rfl⟩ := Prod.mk.inj hspan
      rfl

section Append

variable (hrest : Ends rest)

include hrest

theorem takeWhole_append {w r : List Char} (h : takeWhole cs = .ok (w, r)) :
    takeWhole (cs ++ rest) = .ok (w, r ++ rest) := by
  rw [takeWhole_eq_ok_iff] at h ⊢
  rw [spanDigits_append hrest, h.1]
  exact ⟨rfl, h.2⟩

theorem takeFraction_append {f : Option (List Char)} {r : List Char}
    (h : takeFraction cs = .ok (f, r)) : takeFraction (cs ++ rest) = .ok (f, r ++ rest) := by
  by_cases hpoint : cs.head? = some '.'
  · obtain ⟨after, rfl⟩ := List.head?_eq_some_iff.1 hpoint
    rw [takeFraction_point_eq_ok_iff] at h
    obtain ⟨digits, rfl, hspan, hne⟩ := h
    rw [List.cons_append, takeFraction_point_eq_ok_iff]
    exact ⟨digits, rfl, by rw [spanDigits_append hrest, hspan], hne⟩
  · rw [takeFraction_eq_none hpoint] at h
    cases h
    refine takeFraction_eq_none ?_
    cases cs with
    | nil =>
      intro hhead
      exact absurd (hrest '.' hhead) (by decide)
    | cons d cs => exact hpoint

theorem takeExponent_append {e : Option (Bool × List Char)} {r : List Char}
    (h : takeExponent cs = .ok (e, r)) : takeExponent (cs ++ rest) = .ok (e, r ++ rest) := by
  by_cases hmark : ∀ d ∈ cs.head?, ¬ (d = 'e' ∨ d = 'E')
  · rw [takeExponent_eq_none hmark] at h
    cases h
    refine takeExponent_eq_none ?_
    cases cs with
    | nil =>
      rintro d hd (rfl | rfl)
      · exact absurd (hrest _ hd) (by decide)
      · exact absurd (hrest _ hd) (by decide)
    | cons d cs => exact hmark
  · push Not at hmark
    obtain ⟨d, hd, hmark⟩ := hmark
    obtain ⟨after, rfl⟩ := List.head?_eq_some_iff.1 hd
    rw [takeExponent_mark_eq_ok_iff hmark] at h
    obtain ⟨digits, rfl, hspan, hne⟩ := h
    -- there is a digit after the sign, so that the sign is the same
    have hsign : takeSign (after ++ rest) = ((takeSign after).1, (takeSign after).2 ++ rest) := by
      cases after with
      | nil => exact absurd (Prod.mk.inj hspan).1.symm hne
      | cons d after => unfold takeSign; split <;> simp_all
    rw [List.cons_append, takeExponent_mark_eq_ok_iff hmark, hsign]
    exact ⟨digits, rfl, by rw [spanDigits_append hrest, hspan], hne⟩

theorem takeUnsigned_append {negative : Bool} {t : NumberText} {r : List Char}
    (h : takeUnsigned negative cs = .ok (t, r)) :
    takeUnsigned negative (cs ++ rest) = .ok (t, r ++ rest) := by
  unfold takeUnsigned at h ⊢
  cases hw : takeWhole cs with
  | error e => rw [hw] at h; cases h
  | ok w =>
    rw [hw] at h
    cases hf : takeFraction w.2 with
    | error e => simp only [bind, Except.bind, hf] at h; cases h
    | ok f =>
      simp only [bind, Except.bind, hf] at h
      cases he : takeExponent f.2 with
      | error e => rw [he] at h; cases h
      | ok e =>
        rw [he] at h
        cases h
        simp only [bind, Except.bind, takeWhole_append hrest hw, takeFraction_append hrest hf,
          takeExponent_append hrest he]

end Append

/-! ## The digits of an integer -/

theorem isDigit_of_mem_naturalChars {n : ℕ} (h : c ∈ naturalChars n) : isDigit c = true :=
  Nat.isDigit_of_mem_toDigits (by decide) (Nat.le_refl 10) h

theorem natural_naturalChars (n : ℕ) : natural (naturalChars n) = n :=
  Nat.ofDigitChars_eq_foldl.symm.trans Nat.ofDigitChars_ten_toDigits

/-- Only zero is written with a zero in front. -/
theorem naturalChars_ne_zero_cons (n : ℕ) (d : Char) (ds : List Char) :
    naturalChars n ≠ '0' :: d :: ds := by
  induction n using Nat.strongRecOn generalizing d ds with
  | ind n ih =>
    rcases Nat.lt_or_ge n 10 with hsmall | hlarge
    · rw [naturalChars, Nat.toDigits_of_lt_base hsmall]
      simp
    · rw [naturalChars, Nat.toDigits_of_base_le (by decide) hlarge]
      intro heq
      have hdiv : n / 10 ≠ 0 := by omega
      -- the digits before the last one start with zero themselves
      obtain ⟨a, front, hfront⟩ := List.exists_cons_of_ne_nil
        (@Nat.toDigits_ne_nil (n / 10) 10)
      rw [hfront] at heq
      obtain ⟨rfl, -⟩ := List.cons.inj heq
      cases front with
      | nil =>
        refine hdiv ?_
        rw [← natural_naturalChars (n / 10), naturalChars, hfront]
        rfl
      | cons b front => exact ih (n / 10) (by omega) b front hfront

/-- Digits are added up while they stay in a word. -/
theorem addDigits_eq (cs : List Char) : ∀ {n : ℕ},
    cs.foldl (fun n c => 10 * n + digitValue c) n < wordLimit →
      addDigits n cs = (cs.foldl (fun n c => 10 * n + digitValue c) n, cs.length) := by
  induction cs with
  | nil => exact fun _ => rfl
  | cons c cs ih =>
    intro n h
    rw [List.foldl_cons] at h
    have hle : ∀ (cs : List Char) (n : ℕ), n ≤ cs.foldl (fun n c => 10 * n + digitValue c) n := by
      intro cs
      induction cs with
      | nil => exact fun n => Nat.le_refl n
      | cons c cs ih =>
        intro n
        exact Nat.le_trans (by omega : n ≤ 10 * n + digitValue c) (ih _)
    have hmore : 10 * n + digitValue c < wordLimit := Nat.lt_of_le_of_lt (hle cs _) h
    rw [addDigits]
    simp only [if_pos hmore, ih h, List.foldl_cons, List.length_cons]

/-- The digits of an integer are all of a number. -/
theorem takeUnsigned_naturalChars (n : ℕ) :
    takeUnsigned false (naturalChars n) = .ok (⟨false, naturalChars n, none, none⟩, []) := by
  have hdigits : ∀ c ∈ naturalChars n, isDigit c = true := fun c => isDigit_of_mem_naturalChars
  have hspan : spanDigits (naturalChars n) = (naturalChars n, []) := by
    have hfst := @List.takeWhile_append_of_pos _ _ _ [] hdigits
    have hsnd := @List.dropWhile_append_of_pos _ _ _ [] hdigits
    rw [List.append_nil] at hfst hsnd
    rw [spanDigits, hfst, hsnd]
    simp
  have hwhole := takeWhole_eq_ok_iff.2 ⟨hspan, Nat.toDigits_ne_nil, naturalChars_ne_zero_cons n⟩
  simp only [takeUnsigned, bind, Except.bind, hwhole]
  rfl

/-! ## Words, names and blanks -/

theorem exists_textTokens (cs : List Char) :
    ∃ s ts, (textTokens cs).1 = .text s :: ts := by
  unfold textTokens
  simp only
  split
  · exact ⟨_, _, rfl⟩
  · exact ⟨_, _, rfl⟩

theorem wordToken_ne_number (w : Word) (ending cs : List Char) {n : Except NumberFault Number} :
    [(wordToken w ending cs).1] ++ ts ≠ [.number n] := by
  unfold wordToken
  split <;> nofun

theorem isBlank_of_isDigit (h : isDigit c = true) : isBlank c = false := by
  by_contra hblank
  simp only [isBlank, Bool.not_eq_false, Bool.or_eq_true, beq_iff_eq] at hblank
  rcases hblank with ((rfl | rfl) | rfl) | rfl <;> exact absurd h (by decide)

/-- **A name** has no quotes, no escapes, and no characters below the blank. -/
def IsName (s : String) : Prop := ∀ c ∈ s.toList, ¬ c < ' ' ∧ c ≠ '"' ∧ c ≠ '\\'

instance (s : String) : Decidable (IsName s) :=
  List.decidableBAll (fun c => ¬ c < ' ' ∧ c ≠ '"' ∧ c ≠ '\\') s.toList

theorem scanText_name (h : ∀ c ∈ cs, ¬ c < ' ' ∧ c ≠ '"' ∧ c ≠ '\\') :
    scanText (cs ++ '"' :: rest) = ⟨.ok cs, .ok rest⟩ := by
  induction cs with
  | nil => rw [List.nil_append, scanText]
  | cons c cs ih =>
    obtain ⟨⟨hlt, hquote, hescape⟩, hcs⟩ := List.forall_mem_cons.1 h
    rw [List.cons_append, scanText, ih hcs, if_neg hlt]
    · rfl
    all_goals intros; contradiction

/-- **Blanks only.** -/
structure Value.Spacing.IsBlank (sp : Value.Spacing) : Prop where
  /-- After an opening bracket and after a comma. -/
  line : ∀ depth, ∀ c ∈ sp.line depth, Json.isBlank c = true
  /-- After a colon. -/
  afterColon : ∀ c ∈ sp.afterColon, Json.isBlank c = true

theorem Value.Spacing.isBlank_none : Value.Spacing.none.IsBlank :=
  ⟨fun _ _ h => absurd h List.not_mem_nil, fun _ h => absurd h List.not_mem_nil⟩

theorem Value.Spacing.isBlank_indented : Value.Spacing.indented.IsBlank := by
  refine ⟨fun depth => List.forall_mem_cons.2 ⟨rfl, fun c hc => ?_⟩,
    List.forall_mem_singleton.2 rfl⟩
  rw [List.eq_of_mem_replicate hc]
  rfl

/-! ## Tokens -/

variable [NumberFormat]

theorem tokens_nil : tokens [] = [] := by
  rw [tokens]
  rfl

theorem tokens_blank (h : isBlank c = true) : tokens (c :: cs) = tokens cs := by
  rw [tokens, tokens, List.dropWhile_cons_of_pos h]

/-- Any blanks before a text are passed over. -/
theorem tokens_blanks (h : ∀ c ∈ cs, isBlank c = true) : tokens (cs ++ rest) = tokens rest := by
  induction cs with
  | nil => rfl
  | cons c cs ih =>
    obtain ⟨hc, hcs⟩ := List.forall_mem_cons.1 h
    rw [List.cons_append, tokens_blank hc, ih hcs]

theorem tokens_cons (h : isBlank c = false) :
    tokens (c :: cs) = (leadingTokens c cs).1 ++ tokens (leadingTokens c cs).2 := by
  rw [tokens, List.dropWhile_cons_of_neg (by rw [h]; exact Bool.false_ne_true)]

theorem leadingTokens_ne_nil (c : Char) (cs : List Char) : (leadingTokens c cs).1 ≠ [] := by
  unfold leadingTokens
  split
  iterate 6 exact List.cons_ne_nil _ _
  · unfold textTokens
    simp only
    split <;> exact List.cons_ne_nil _ _
  iterate 4 exact List.cons_ne_nil _ _
  · split <;> exact List.cons_ne_nil _ _

/-- Blanks before a text are passed over. -/
theorem tokens_append_of_tokens_eq_nil (h : tokens cs = []) : tokens (cs ++ rest) = tokens rest := by
  induction cs with
  | nil => rfl
  | cons c cs ih =>
    cases hc : isBlank c with
    | true =>
      rw [tokens_blank hc] at h
      rw [List.cons_append, tokens_blank hc, ih h]
    | false =>
      rw [tokens_cons hc] at h
      exact absurd (List.append_eq_nil_iff.1 h).1 (leadingTokens_ne_nil c cs)

/-- **A text with tokens that do not depend on what follows**, unless it goes on
with a number. -/
def Lexes (cs : List Char) (ts : List Token) : Prop :=
  ∀ rest, Ends rest → tokens (cs ++ rest) = ts ++ tokens rest

theorem Lexes.tokens_eq (h : Lexes cs ts) : tokens cs = ts := by
  have hnil := h [] ends_nil
  rwa [List.append_nil, tokens_nil, List.append_nil] at hnil

/-- Two texts one after the other, where the second goes on with no number. -/
theorem Lexes.append (h : Lexes cs ts) (h' : Lexes ds us) (hends : ∀ rest, Ends (ds ++ rest)) :
    Lexes (cs ++ ds) (ts ++ us) := by
  intro rest hrest
  rw [List.append_assoc, h _ (hends rest), h' rest hrest, List.append_assoc]

/-- **A text that is a number** is that number in every text. -/
theorem lexes_of_tokens_eq_number {n : Number} (h : tokens cs = [.number (.ok n)]) :
    Lexes cs [.number (.ok n)] := by
  intro rest hrest
  have hnumber : ∀ {negative : Bool} {ds : List Char},
      [(numberToken negative ds).1] ++ tokens (numberToken negative ds).2 = [.number (.ok n)] →
        [(numberToken negative (ds ++ rest)).1] ++ tokens (numberToken negative (ds ++ rest)).2 =
          [.number (.ok n)] ++ tokens rest := by
    intro negative ds h
    unfold numberToken at h ⊢
    split at h
    · rename_i t r htake
      rw [takeUnsigned_append hrest htake]
      obtain ⟨htoken, hnil⟩ := List.cons.inj h
      show Token.number t.number :: tokens (r ++ rest) = _
      have htoken : Token.number t.number = .number (.ok n) := htoken
      have hnil : tokens r = [] := hnil
      rw [htoken, tokens_append_of_tokens_eq_nil hnil]
      rfl
    · cases h
  induction cs with
  | nil =>
    rw [tokens_nil] at h
    cases h
  | cons c cs ih =>
    cases hc : isBlank c with
    | true =>
      rw [tokens_blank hc] at h
      rw [List.cons_append, tokens_blank hc, ih h]
    | false =>
      rw [tokens_cons hc] at h
      rw [List.cons_append, tokens_cons hc]
      unfold leadingTokens at h ⊢
      split at h
      iterate 6 cases h
      · obtain ⟨_, _, htext⟩ := exists_textTokens cs
        rw [htext] at h
        cases h
      · exact absurd h (wordToken_ne_number _ _ _)
      · exact absurd h (wordToken_ne_number _ _ _)
      · exact absurd h (wordToken_ne_number _ _ _)
      · exact hnumber h
      · split at h
        · rename_i hdigit
          simp only [hdigit, if_true]
          exact hnumber h
        · cases h

/-! ## Integers -/

theorem leadingTokens_of_isDigit (h : isDigit c = true) :
    leadingTokens c cs = (numberToken false (c :: cs)).map ([·]) id := by
  unfold leadingTokens
  split
  iterate 11 exact absurd h (by decide)
  · exact if_pos h

/-- **An integer is read as it was written**, whatever the format of doubles. -/
theorem lexes_naturalChars {n : ℕ} (hn : n < wordLimit) :
    Lexes (naturalChars n) [.number (.ok (.natural n))] := by
  have hnumber : (⟨false, naturalChars n, none, none⟩ : NumberText).number = .ok (.natural n) := by
    have hadd : addDigits 0 (naturalChars n) = (n, (naturalChars n).length) := by
      have hvalue := natural_naturalChars n
      rw [natural] at hvalue
      rw [addDigits_eq _ (by rwa [hvalue]), hvalue]
    simp [NumberText.number, hadd]
  refine lexes_of_tokens_eq_number ?_
  have hne : naturalChars n ≠ [] := Nat.toDigits_ne_nil
  obtain ⟨c, cs, hcons⟩ := List.exists_cons_of_ne_nil hne
  have hc : isDigit c = true := isDigit_of_mem_naturalChars (hcons ▸ List.mem_cons_self)
  rw [hcons, tokens_cons (isBlank_of_isDigit hc), leadingTokens_of_isDigit hc, ← hcons, numberToken,
    takeUnsigned_naturalChars]
  simp only [hnumber]
  show [Token.number (.ok (.natural n))] ++ tokens [] = _
  rw [tokens_nil, List.append_nil]

/-! ## Names -/

/-- **A name is read as it was written.** -/
theorem lexes_quoted {s : String} (h : IsName s) : Lexes (quoted s) [.text (.ok s)] := by
  intro rest _
  have hscan : scanText (s.toList ++ '"' :: rest) = ⟨.ok s.toList, .ok rest⟩ := scanText_name h
  have htext : textTokens (s.toList ++ '"' :: rest) = ([.text (.ok s)], rest) := by
    simp [textTokens, hscan, Except.map]
  have hquoted : quoted s ++ rest = '"' :: (s.toList ++ '"' :: rest) := by
    simp [quoted]
  rw [hquoted, tokens_cons (by decide)]
  show (textTokens (s.toList ++ '"' :: rest)).1 ++ tokens (textTokens (s.toList ++ '"' :: rest)).2 = _
  rw [htext]

/-! ## Lists and records -/

/-- A character that is a token by itself. -/
def IsMark (c : Char) (t : Token) : Prop := ∀ cs, tokens (c :: cs) = t :: tokens cs

theorem isMark_openList : IsMark '[' .openList := fun _ => tokens_cons rfl

theorem isMark_closeList : IsMark ']' .closeList := fun _ => tokens_cons rfl

theorem isMark_openRecord : IsMark '{' .openRecord := fun _ => tokens_cons rfl

theorem isMark_closeRecord : IsMark '}' .closeRecord := fun _ => tokens_cons rfl

theorem isMark_comma : IsMark ',' .comma := fun _ => tokens_cons rfl

theorem isMark_colon : IsMark ':' .colon := fun _ => tokens_cons rfl

/-- The tokens of parts that have a comma before them, the first one only if it
is not the `first` of all. -/
def items : Bool → List (List Token) → List Token
  | _, [] => []
  | true, ts :: tss => ts ++ items false tss
  | false, ts :: tss => .comma :: (ts ++ items false tss)

/-- Parts that have a comma and blanks before them. -/
theorem tokens_flatMap_comma {blanks : List Char} (hblanks : ∀ c ∈ blanks, isBlank c = true)
    {parts : List (List Char)} {tss : List (List Token)} (h : List.Forall₂ Lexes parts tss)
    (hrest : Ends rest) :
    Ends (parts.flatMap (fun part => ',' :: blanks ++ part) ++ rest) ∧
      tokens (parts.flatMap (fun part => ',' :: blanks ++ part) ++ rest) =
        items false tss ++ tokens rest := by
  induction h with
  | nil => exact ⟨hrest, rfl⟩
  | @cons part ts parts tss hpart _ ih =>
    have htext : (part :: parts).flatMap (fun part => ',' :: blanks ++ part) ++ rest =
        ',' :: (blanks ++ (part ++
          (parts.flatMap (fun part => ',' :: blanks ++ part) ++ rest))) := by
      simp
    rw [htext]
    refine ⟨ends_cons rfl, ?_⟩
    rw [isMark_comma, tokens_blanks hblanks, hpart _ ih.1, ih.2, items, List.cons_append,
      List.append_assoc]

/-- **What is between brackets** has the tokens of its parts. -/
theorem lexes_bracket {sp : Value.Spacing} (hsp : sp.IsBlank) {left right : Char}
    {start stop : Token} (hleft : IsMark left start) (hright : IsMark right stop)
    (hends : continuesNumber right = false) (depth : ℕ) {parts : List (List Char)}
    {tss : List (List Token)} (h : List.Forall₂ Lexes parts tss) :
    Lexes (Value.bracket sp depth left right parts) (start :: items true tss ++ [stop]) := by
  intro rest hrest
  cases h with
  | nil =>
    show tokens (left :: right :: rest) = _
    rw [hleft, hright]
    rfl
  | @cons first ts parts tss hfirst hparts =>
    have hclose : Ends (sp.line depth ++ right :: rest) :=
      (ends_cons hends).blanks_append (hsp.line depth)
    obtain ⟨hcommas, htokens⟩ := tokens_flatMap_comma (hsp.line (depth + 1)) hparts hclose
    have htext : Value.bracket sp depth left right (first :: parts) ++ rest =
        left :: (sp.line (depth + 1) ++ (first ++
          (parts.flatMap (fun part => ',' :: sp.line (depth + 1) ++ part) ++
            (sp.line depth ++ right :: rest)))) := by
      simp [Value.bracket]
    rw [htext, hleft, tokens_blanks (hsp.line _), hfirst _ hcommas, htokens,
      tokens_blanks (hsp.line _), hright, items]
    simp

/-! ## Values -/

/-- The tokens of a list. -/
def listTokens (tss : List (List Token)) : List Token := .openList :: items true tss ++ [.closeList]

/-- The tokens of a field of a record. -/
def fieldTokens (name : String) (ts : List Token) : List Token := .text (.ok name) :: .colon :: ts

/-- The tokens of a record. -/
def recordTokens (fields : List (String × List Token)) : List Token :=
  .openRecord :: items true (fields.map fun f => fieldTokens f.1 f.2) ++ [.closeRecord]

namespace Value

/-- **A value with its tokens**, where it is written with the given spacing. -/
def LexesWith (sp : Spacing) (v : Value) (ts : List Token) : Prop :=
  ∀ depth, Json.Lexes (v.write sp depth) ts

/-- **A value on one line with its tokens.** -/
def Lexes (v : Value) (ts : List Token) : Prop := ∀ depth, Json.Lexes (v.write .none depth) ts

theorem lexes_natural {n : ℕ} (hn : n < wordLimit) :
    (natural n).Lexes [.number (.ok (.natural n))] := fun _ => lexes_naturalChars hn

section Spaced

variable {sp : Spacing} (hsp : sp.IsBlank)

include hsp

/-- **A list has the tokens of its items.** -/
theorem lexesWith_list {vs : List Value} {tss : List (List Token)}
    (h : List.Forall₂ (LexesWith sp) vs tss) : (list vs).LexesWith sp (listTokens tss) := by
  intro depth
  have hitems : ∀ depth, List.Forall₂ Json.Lexes (writeItems sp depth vs) tss := by
    intro depth
    induction h with
    | nil => exact .nil
    | cons hitem _ ih => exact .cons (hitem depth) ih
  exact lexes_bracket hsp isMark_openList isMark_closeList rfl depth (hitems _)

/-- **A record has the tokens of its fields.** -/
theorem lexesWith_record {fields : List (String × Value)} {fs : List (String × List Token)}
    (h : List.Forall₂ (fun f g => f.1 = g.1 ∧ IsName f.1 ∧ f.2.LexesWith sp g.2) fields fs) :
    (record fields).LexesWith sp (recordTokens fs) := by
  intro depth
  have hfields : ∀ depth, List.Forall₂ Json.Lexes (writeFields sp depth fields)
      (fs.map fun f => fieldTokens f.1 f.2) := by
    intro depth
    induction h with
    | nil => exact .nil
    | @cons f g fields fs hfield _ ih =>
      obtain ⟨name, v⟩ := f
      obtain ⟨_, ts⟩ := g
      obtain ⟨rfl, hname, hvalue⟩ := hfield
      refine .cons ?_ ih
      have hcolon : Json.Lexes (':' :: (sp.afterColon ++ v.write sp depth)) (.colon :: ts) := by
        intro rest hrest
        rw [List.cons_append, List.append_assoc, isMark_colon, tokens_blanks hsp.afterColon,
          hvalue depth rest hrest]
        rfl
      have happend := (lexes_quoted hname).append hcolon fun _ => ends_cons rfl
      simpa [fieldTokens] using happend
  exact lexes_bracket hsp isMark_openRecord isMark_closeRecord rfl depth (hfields _)

end Spaced

theorem lexes_list {vs : List Value} {tss : List (List Token)}
    (h : List.Forall₂ Lexes vs tss) : (list vs).Lexes (listTokens tss) :=
  lexesWith_list Spacing.isBlank_none h

theorem lexes_record {fields : List (String × Value)} {fs : List (String × List Token)}
    (h : List.Forall₂ (fun f g => f.1 = g.1 ∧ IsName f.1 ∧ f.2.Lexes g.2) fields fs) :
    (record fields).Lexes (recordTokens fs) :=
  lexesWith_record Spacing.isBlank_none h

end Value

end Json

end Milp
