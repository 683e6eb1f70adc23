import Milp.Json.Number
/-!
# Tokens of JSON texts

A text is taken apart into tokens before anything is made of it. Where a
token is faulty the fault stays inside it, so that it shows only when a
reader gets there and wants that token; the tokens end after it.

A string has two readings. As a value, its escapes have to stand for
characters. Where it is only passed over, any four hexadecimal digits do.
-/

namespace Milp

namespace Json

/-- Why a text is not JSON. -/
inductive Fault where
  /-- The text ends too early. -/
  | truncated
  /-- A character does not belong where it is. -/
  | malformed
deriving DecidableEq, Repr

/-- The words of the language. -/
inductive Word where
  | null
  | yes
  | no
deriving DecidableEq, Repr

/-- A token. -/
inductive Token where
  | openList
  | closeList
  | openRecord
  | closeRecord
  | comma
  | colon
  /-- A word, or what is wrong with it. -/
  | word (w : Except Fault Word)
  /-- A number, or what is wrong with it. -/
  | number (n : Except NumberFault Number)
  /-- A string, or what is wrong with it as a value. -/
  | text (s : Except Fault String)
  /-- The text is faulty from here on, inside the string before. -/
  | stop (f : Fault)
  /-- A character that starts no token. -/
  | other
deriving Repr

/-! ## Strings -/

/-- The value of a hexadecimal digit. -/
def hexDigit? (c : Char) : Option Nat :=
  if '0' ≤ c ∧ c ≤ '9' then some (c.toNat - '0'.toNat)
  else if 'a' ≤ c ∧ c ≤ 'f' then some (c.toNat - 'a'.toNat + 10)
  else if 'A' ≤ c ∧ c ≤ 'F' then some (c.toNat - 'A'.toNat + 10)
  else none

/-- The value of four hexadecimal digits. -/
def hexValue? (a b c d : Char) : Option Nat := do
  let a ← hexDigit? a
  let b ← hexDigit? b
  let c ← hexDigit? c
  let d ← hexDigit? d
  some (((a * 16 + b) * 16 + c) * 16 + d)

/-- Whether a code unit is the first of a pair. -/
def isLeading (n : Nat) : Bool := 0xD800 ≤ n && n < 0xDC00

/-- Whether a code unit is the second of a pair. -/
def isTrailing (n : Nat) : Bool := 0xDC00 ≤ n && n < 0xE000

/-- The character of a pair of code units. -/
def pairChar (leading trailing : Nat) : Char :=
  Char.ofNat ((leading - 0xD800) * 0x400 + (trailing - 0xDC00) + 0x10000)

/-- The character of a short escape. -/
def shortEscape? : Char → Option Char
  | '"' => some '"'
  | '\\' => some '\\'
  | '/' => some '/'
  | 'b' => some '\x08'
  | 'f' => some '\x0c'
  | 'n' => some '\n'
  | 'r' => some '\r'
  | 't' => some '\t'
  | _ => none

/-- What a string comes to: its characters as a value, and the text that is
left when it is passed over. -/
structure TextScan where
  /-- The characters, or the first fault of the string as a value. -/
  value : Except Fault (List Char)
  /-- The text after the string, or the fault that stops even passing over. -/
  rest : Except Fault (List Char)

namespace TextScan

/-- A string that cannot even be passed over. -/
def fail (f : Fault) : TextScan := ⟨.error f, .error f⟩

/-- A string with one more character in front. -/
def cons (c : Char) (s : TextScan) : TextScan := { s with value := s.value.map (c :: ·) }

/-- A string that is no value but can be passed over. -/
def spoil (s : TextScan) : TextScan := { s with value := .error .malformed }

end TextScan

/-- Fewer than four digits follow: the text ends, unless other characters
take up the place of the digits. -/
def shortHexFault (rest : List Char) : Fault :=
  if (String.ofList rest).utf8ByteSize < 4 then .truncated else .malformed

/-- Whether a text may be the start of an escape by code unit. -/
def mayStartUnit : List Char → Bool
  | [] => true
  | ['\\'] => true
  | '\\' :: 'u' :: _ => true
  | _ => false

/-- Reads a string after its opening quote. -/
def scanText : List Char → TextScan
  | [] => .fail .truncated
  | '"' :: rest => ⟨.ok [], .ok rest⟩
  | '\\' :: 'u' :: a :: b :: c :: d :: rest =>
    match hexValue? a b c d with
    | none => .fail .malformed
    | some n =>
      if isLeading n then
        match rest with
        | '\\' :: 'u' :: e :: f :: g :: h :: after =>
          match hexValue? e f g h with
          | none => .fail .malformed
          | some m =>
            if isTrailing m then (scanText after).cons (pairChar n m)
            else (scanText after).spoil
        | rest => if mayStartUnit rest then scanText rest else (scanText rest).spoil
      else if isTrailing n then (scanText rest).spoil
      else (scanText rest).cons (Char.ofNat n)
  | '\\' :: 'u' :: rest => .fail (shortHexFault rest)
  | ['\\'] => .fail .truncated
  | '\\' :: c :: rest =>
    match shortEscape? c with
    | some e => (scanText rest).cons e
    | none => .fail .malformed
  | c :: rest => if c < ' ' then .fail .malformed else (scanText rest).cons c
termination_by cs => cs.length
decreasing_by all_goals simp_all <;> omega

theorem rest_cons (c : Char) (s : TextScan) : (s.cons c).rest = s.rest := rfl

theorem rest_spoil (s : TextScan) : s.spoil.rest = s.rest := rfl

/-- The text after a string is shorter than the text from its start. -/
theorem length_of_scanText {cs rest : List Char} (h : (scanText cs).rest = .ok rest) :
    rest.length < cs.length := by
  fun_induction scanText cs generalizing rest with
  | case1 => cases h
  | case2 r =>
    simp only [Except.ok.injEq] at h
    simp [h]
  | case3 => cases h
  | case4 => cases h
  | case5 a b c d n hn hl e f g i after m hm ht ih =>
    have := ih (by simpa [rest_cons] using h)
    simp only [List.length_cons]
    omega
  | case6 a b c d n hn hl e f g i after m hm ht ih =>
    have := ih (by simpa [rest_spoil] using h)
    simp only [List.length_cons]
    omega
  | case7 a b c d r n hn hl hx hs ih =>
    have := ih h
    simp only [List.length_cons]
    omega
  | case8 a b c d r n hn hl hx hs ih =>
    have := ih (by simpa [rest_spoil] using h)
    simp only [List.length_cons]
    omega
  | case9 a b c d r n hn hl ht ih =>
    have := ih (by simpa [rest_spoil] using h)
    simp only [List.length_cons]
    omega
  | case10 a b c d r n hn hl ht ih =>
    have := ih (by simpa [rest_cons] using h)
    simp only [List.length_cons]
    omega
  | case11 => cases h
  | case12 => cases h
  | case13 c r hx hy e he ih =>
    have := ih (by simpa [rest_cons] using h)
    simp only [List.length_cons]
    omega
  | case14 => cases h
  | case15 => cases h
  | case16 c r =>
    rename_i ih
    have := ih (by simpa [rest_cons] using h)
    simp only [List.length_cons]
    omega

/-! ## Tokens -/

/-- Whether a character is blank. -/
def isBlank (c : Char) : Bool := c == ' ' || c == '\n' || c == '\t' || c == '\r'

/-- Takes a word off a text, after its first character. -/
def scanWord : List Char → List Char → Except Fault (List Char)
  | [], rest => .ok rest
  | _ :: _, [] => .error .truncated
  | w :: ws, c :: cs => if w = c then scanWord ws cs else .error .malformed

/-- Taking a word off leaves no more than there was. -/
theorem length_of_scanWord : ∀ {word cs rest : List Char},
    scanWord word cs = .ok rest → rest.length ≤ cs.length
  | [], cs, rest, h => by
    simp only [scanWord, Except.ok.injEq] at h
    simp [h]
  | _ :: _, [], _, h => by simp [scanWord] at h
  | w :: ws, c :: cs, rest, h => by
    simp only [scanWord] at h
    split at h
    · have := length_of_scanWord h
      simp only [List.length_cons]
      omega
    · cases h

/-- The token of a word whose first character has been read. -/
def wordToken (w : Word) (ending : List Char) (cs : List Char) : Token × List Char :=
  match scanWord ending cs with
  | .ok rest => (.word (.ok w), rest)
  | .error f => (.word (.error f), [])

/-- The token of a number. -/
def numberToken [NumberFormat] (negative : Bool) (cs : List Char) : Token × List Char :=
  match takeUnsigned negative cs with
  | .ok (t, rest) => (.number t.number, rest)
  | .error f => (.number (.error f), [])

/-- The token of a string whose quote has been read, with the token that
ends the text where the string cannot even be passed over. -/
def textTokens (cs : List Char) : List Token × List Char :=
  let s := scanText cs
  let token := Token.text (s.value.map String.ofList)
  match s.rest with
  | .ok rest => ([token], rest)
  | .error f => ([token, .stop f], [])

/-- The tokens that start with a character, and the text after them. -/
def leadingTokens [NumberFormat] (c : Char) (rest : List Char) : List Token × List Char :=
  match c with
  | '[' => ([.openList], rest)
  | ']' => ([.closeList], rest)
  | '{' => ([.openRecord], rest)
  | '}' => ([.closeRecord], rest)
  | ',' => ([.comma], rest)
  | ':' => ([.colon], rest)
  | '"' => textTokens rest
  | 'n' => (wordToken .null ['u', 'l', 'l'] rest).map ([·]) id
  | 't' => (wordToken .yes ['r', 'u', 'e'] rest).map ([·]) id
  | 'f' => (wordToken .no ['a', 'l', 's', 'e'] rest).map ([·]) id
  | '-' => (numberToken true rest).map ([·]) id
  | c => if Decimal.isDigit c then (numberToken false (c :: rest)).map ([·]) id
    else ([.other], [])

/-- What follows a word is no longer than the text after its first character. -/
theorem length_wordToken (w : Word) (ending cs : List Char) :
    (wordToken w ending cs).2.length ≤ cs.length := by
  unfold wordToken
  split
  · next h => exact length_of_scanWord h
  · simp

/-- What follows a number is shorter than the text from its start. -/
theorem length_numberToken [NumberFormat] (negative : Bool) (cs : List Char) (h : cs ≠ []) :
    (numberToken negative cs).2.length < cs.length := by
  unfold numberToken
  split
  · next h => exact length_of_takeUnsigned h
  · exact List.length_pos_iff.2 h

/-- What follows a string is no longer than the text after its quote. -/
theorem length_textTokens (cs : List Char) : (textTokens cs).2.length ≤ cs.length := by
  unfold textTokens
  simp only
  split
  · next h => exact Nat.le_of_lt (length_of_scanText h)
  · simp

/-- Every token takes up a character at least. -/
theorem length_leadingTokens [NumberFormat] (c : Char) (rest : List Char) :
    (leadingTokens c rest).2.length ≤ rest.length := by
  unfold leadingTokens
  split
  iterate 6 exact Nat.le_refl _
  · exact length_textTokens rest
  iterate 3 exact length_wordToken _ _ rest
  · cases rest with
    | nil => simp [numberToken, takeUnsigned, takeWhole, Decimal.spanDigits, bind, Except.bind]
    | cons d ds => exact Nat.le_of_lt (length_numberToken true (d :: ds) (by simp))
  · split
    · exact Nat.lt_succ_iff.1 (length_numberToken false (c :: rest) (by simp))
    · simp

/-- **The tokens of a text.** -/
def tokens [NumberFormat] (cs : List Char) : List Token :=
  match _h : cs.dropWhile isBlank with
  | [] => []
  | c :: rest => (leadingTokens c rest).1 ++ tokens (leadingTokens c rest).2
termination_by cs.length
decreasing_by
  have h₁ := length_leadingTokens c rest
  have h₂ := (List.dropWhile_sublist isBlank (l := cs)).length_le
  rw [_h, List.length_cons] at h₂
  omega

end Json

end Milp
