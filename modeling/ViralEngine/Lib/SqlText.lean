/-
  File:      ViralEngine/Lib/SqlText.lean
  Subject:   THE TEXT OF SQL STATEMENTS: BYTES, LITERALS, TOKENS. No program fact.

  A program that puts its SQL together from pieces of text relies on the scanner reading the
  pieces back as they were meant. The scanner is a machine over the bytes, so a text that starts
  and ends between tokens can be read on its own (`Reads`), and what the pieces are read as is
  put together piece by piece (`Reads.append`).

  * `Value`, `Value.literal` -- values, and how SQL writes them: a quote inside a string is
    doubled;
  * `Token`, `Value.tokens` -- what the scanner makes of a text;
  * `Scanner.step`, `scan`, `lex` -- the scanner;
  * `scan_doubled`, `scan_decimal` -- inside a string, and over the digits of a number;
  * `Reads`, `Reads.append` -- a piece of text and its tokens;
  * `reads_literal`, `reads_row` -- **a literal is read back as its value's tokens**, one or a
    list of them;
  * `stringLiteral`, `stringLiteral_doubled`, `scan_stringLiteral` -- a string literal on its own,
    what it leaves of the text, and that the scanner reads it so.

  Comments, blobs, floats, NULL and quoted names are outside the fragment: the scanner refuses
  the bytes that would start them.
-/
import Mathlib.Algebra.Ring.Int.Defs
import Mathlib.Data.List.Basic

namespace Viral.Lib.Sql

/-! ## 1. Bytes and values -/

/-- The bytes of a text. -/
abbrev Bytes := List UInt8

/-- The bytes of a text. The texts here are ASCII. -/
def ascii (s : String) : Bytes := s.toByteArray.data.toList

/-- The text with every quote doubled. -/
def doubled (s : Bytes) : Bytes := s.flatMap fun c => if c = 39 then [39, 39] else [c]

/-- The decimal digits of a number. -/
def decimal (n : Nat) : Bytes := (Nat.toDigits 10 n).map fun c => UInt8.ofNat c.toNat

/-- A stored value. -/
inductive Value where
  | int (i : Int)
  | text (s : Bytes)
  deriving DecidableEq, Repr

/-- An integer with its sign, in decimal. -/
def signed (i : Int) : Bytes := (if i < 0 then [45] else []) ++ decimal i.natAbs

/-- The value as a literal of SQL. -/
def Value.literal : Value → Bytes
  | .int i => signed i
  | .text s => 39 :: (doubled s ++ [39])

/-! ## 2. The scanner -/

/-- Keywords and names (in lower case), string literals with their quotes undone, numbers and
    single signs. -/
inductive Token where
  | word (w : Bytes)
  | str (s : Bytes)
  | num (n : Nat)
  | sign (c : UInt8)
  deriving DecidableEq, Repr

/-- The tokens of a literal. -/
def Value.tokens : Value → List Token
  | .int i => (if i < 0 then [.sign 45] else []) ++ [.num i.natAbs]
  | .text s => [.str s]

/-- What the scanner is in the middle of. `quote` is behind a quote inside a string: its end, or
    the first of two. -/
inductive Mode where
  | gap
  | word (w : Bytes)
  | num (n : Nat)
  | str (s : Bytes)
  | quote (s : Bytes)
  | dash
  | bad
  deriving DecidableEq, Repr

/-- The tokens so far, and where the next byte stands. -/
structure Scanner where
  toks : List Token
  mode : Mode
  deriving DecidableEq, Repr

/-- The blanks between tokens. -/
def isSpace (c : UInt8) : Bool := c == 32 || c == 9 || c == 10 || c == 13

/-- The decimal digits. -/
def isDigit (c : UInt8) : Bool := decide (48 ≤ c ∧ c ≤ 57)

/-- The capital letters. -/
def isUpper (c : UInt8) : Bool := decide (65 ≤ c ∧ c ≤ 90)

/-- What a name begins with. -/
def isLetter (c : UInt8) : Bool := isUpper c || decide (97 ≤ c ∧ c ≤ 122) || c == 95

/-- Keywords and names do not depend on case. -/
def lower (c : UInt8) : UInt8 := if isUpper c then c + 32 else c

/-- The signs `(`, `)`, `*`, `,`, `;` and `=`. -/
def isSign (c : UInt8) : Bool := c == 40 || c == 41 || c == 42 || c == 44 || c == 59 || c == 61

/-- The byte that stands at the start of a token, or between tokens. -/
def Scanner.start (toks : List Token) (c : UInt8) : Scanner :=
  if isSpace c then ⟨toks, .gap⟩
  else if isSign c then ⟨toks ++ [.sign c], .gap⟩
  else if c = 39 then ⟨toks, .str []⟩
  else if c = 45 then ⟨toks, .dash⟩
  else if isDigit c then ⟨toks, .num (c.toNat - 48)⟩
  else if isLetter c then ⟨toks, .word [lower c]⟩
  else ⟨toks, .bad⟩

/-- **One byte.** Two dashes start a comment, and a word in front of a quote a blob. -/
def Scanner.step (l : Scanner) (c : UInt8) : Scanner :=
  match l.mode with
  | .gap => .start l.toks c
  | .word w =>
    if isLetter c || isDigit c then { l with mode := .word (w ++ [lower c]) }
    else if c = 39 then { l with mode := .bad }
    else .start (l.toks ++ [.word w]) c
  | .num n =>
    if isDigit c then { l with mode := .num (10 * n + (c.toNat - 48)) }
    else if isLetter c then { l with mode := .bad }
    else .start (l.toks ++ [.num n]) c
  | .str s => if c = 39 then { l with mode := .quote s } else { l with mode := .str (s ++ [c]) }
  | .quote s =>
    if c = 39 then { l with mode := .str (s ++ [39]) } else .start (l.toks ++ [.str s]) c
  | .dash => if c = 45 then { l with mode := .bad } else .start (l.toks ++ [.sign 45]) c
  | .bad => l

/-- A text, byte by byte. -/
def scan (l : Scanner) (s : Bytes) : Scanner := s.foldl Scanner.step l

/-- The tokens of a whole text; `none` where it ends inside a string or is outside the
    fragment. -/
def lex (s : Bytes) : Option (List Token) :=
  let l := scan ⟨[], .gap⟩ s
  match l.mode with
  | .gap => some l.toks
  | .word w => some (l.toks ++ [.word w])
  | .num n => some (l.toks ++ [.num n])
  | .quote s => some (l.toks ++ [.str s])
  | .dash => some (l.toks ++ [.sign 45])
  | .str _ | .bad => none

/-! ## 3. Reading a text piece by piece -/

theorem scan_append (l : Scanner) (s t : Bytes) : scan l (s ++ t) = scan (scan l s) t :=
  List.foldl_append

theorem scan_cons (l : Scanner) (c : UInt8) (s : Bytes) : scan l (c :: s) = scan (l.step c) s := rfl

/-- Tokens that are already there do not count. -/
theorem start_frame (toks ts : List Token) (c : UInt8) :
    Scanner.start (toks ++ ts) c =
      ⟨toks ++ (Scanner.start ts c).toks, (Scanner.start ts c).mode⟩ := by
  unfold Scanner.start
  repeat' split
  all_goals first | rfl | rw [List.append_assoc]

theorem step_frame (toks : List Token) (l : Scanner) (c : UInt8) :
    Scanner.step ⟨toks ++ l.toks, l.mode⟩ c = ⟨toks ++ (l.step c).toks, (l.step c).mode⟩ := by
  obtain ⟨ts, mode⟩ := l
  unfold Scanner.step
  cases mode with
  | gap => exact start_frame toks ts c
  | word w | num n | quote s | dash =>
    dsimp only
    repeat' split
    all_goals first | rfl | rw [List.append_assoc, start_frame]
  | str s =>
    dsimp only
    split <;> rfl
  | bad => rfl

theorem scan_frame (toks : List Token) (l : Scanner) (s : Bytes) :
    scan ⟨toks ++ l.toks, l.mode⟩ s = ⟨toks ++ (scan l s).toks, (scan l s).mode⟩ := by
  induction s generalizing l with
  | nil => rfl
  | cons c s ih =>
    rw [scan_cons, step_frame, scan_cons]
    exact ih (l.step c)

/-- The piece starts and ends between tokens, and is read as `ts`. -/
def Reads (s : Bytes) (ts : List Token) : Prop := scan ⟨[], .gap⟩ s = ⟨ts, .gap⟩

instance (s : Bytes) (ts : List Token) : Decidable (Reads s ts) :=
  inferInstanceAs (Decidable (_ = _))

/-- **Pieces are read one after the other.** -/
theorem Reads.append {s t : Bytes} {ts us : List Token} (hs : Reads s ts) (ht : Reads t us) :
    Reads (s ++ t) (ts ++ us) := by
  unfold Reads at hs ht ⊢
  have hframe := scan_frame ts ⟨[], .gap⟩ t
  rw [ht, List.append_nil] at hframe
  rw [scan_append, hs, hframe]

theorem Reads.lex {s : Bytes} {ts : List Token} (h : Reads s ts) : lex s = some ts := by
  unfold Reads at h
  unfold Sql.lex
  rw [h]

/-! ## 4. Literals -/

/-- **Inside a string, a text with its quotes doubled is read as the text.** -/
theorem scan_doubled (toks : List Token) (a s : Bytes) :
    scan ⟨toks, .str a⟩ (doubled s) = ⟨toks, .str (a ++ s)⟩ := by
  induction s generalizing a with
  | nil => simp [doubled, scan]
  | cons c s ih =>
    have hsplit : doubled (c :: s) = (if c = 39 then [39, 39] else [c]) ++ doubled s := rfl
    rw [hsplit, scan_append]
    have hc : scan ⟨toks, .str a⟩ (if c = 39 then [39, 39] else [c]) = ⟨toks, .str (a ++ [c])⟩ := by
      by_cases hq : c = 39
      · subst hq
        rfl
      · rw [if_neg hq]
        show (if c = 39 then _ else _) = _
        rw [if_neg hq]
    rw [hc, ih, List.append_assoc, List.singleton_append]

/-- The byte of a decimal digit. -/
theorem isDigit_ofNat {c : Char} (h : c.isDigit = true) :
    isDigit (UInt8.ofNat c.toNat) = true ∧ (UInt8.ofNat c.toNat).toNat = c.toNat := by
  have hb : 48 ≤ c.toNat ∧ c.toNat ≤ 57 := by
    simpa [Char.isDigit, UInt32.le_iff_toNat_le] using h
  have ht : (UInt8.ofNat c.toNat).toNat = c.toNat := by
    rw [UInt8.toNat_ofNat']
    omega
  refine ⟨?_, ht⟩
  simp only [isDigit, UInt8.le_iff_toNat_le, ht, decide_eq_true_eq]
  exact hb

/-- Digits behind a number. -/
theorem scan_digits (toks : List Token) (n : Nat) (cs : List Char)
    (h : ∀ c ∈ cs, c.isDigit = true) :
    scan ⟨toks, .num n⟩ (cs.map fun c => UInt8.ofNat c.toNat) =
      ⟨toks, .num (Nat.ofDigitChars 10 cs n)⟩ := by
  induction cs generalizing n with
  | nil => rfl
  | cons c cs ih =>
    obtain ⟨hd, ht⟩ := isDigit_ofNat (h c List.mem_cons_self)
    rw [List.map_cons, scan_cons, Nat.ofDigitChars_cons]
    have hstep : Scanner.step ⟨toks, .num n⟩ (UInt8.ofNat c.toNat) =
        ⟨toks, .num (10 * n + (c.toNat - 48))⟩ := by
      simp only [Scanner.step, hd, if_true, ht]
    rw [hstep]
    exact ih _ fun d hmem => h d (List.mem_cons_of_mem c hmem)

/-- A digit starts a number. -/
theorem start_digit {c : UInt8} (toks : List Token) (h : isDigit c = true) :
    Scanner.start toks c = ⟨toks, .num (c.toNat - 48)⟩ := by
  have hb : 48 ≤ c.toNat ∧ c.toNat ≤ 57 := by
    simpa [isDigit, UInt8.le_iff_toNat_le] using h
  have hne : ∀ d : UInt8, d.toNat < 48 ∨ 57 < d.toNat → c ≠ d := by
    rintro d hd rfl
    omega
  have hspace : isSpace c = false := by
    simp [isSpace, hne 32 (by decide), hne 9 (by decide), hne 10 (by decide), hne 13 (by decide)]
  have hsign : isSign c = false := by
    simp [isSign, hne 40 (by decide), hne 41 (by decide), hne 42 (by decide), hne 44 (by decide),
      hne 59 (by decide), hne 61 (by decide)]
  simp [Scanner.start, hspace, hsign, hne 39 (by decide), hne 45 (by decide), h]

/-- **The digits of a number are read as the number**, wherever a number may start. -/
theorem scan_decimal {l : Scanner} {toks : List Token}
    (hl : ∀ c, isDigit c = true → l.step c = .start toks c) (n : Nat) :
    scan l (decimal n) = ⟨toks, .num n⟩ := by
  have hdig : ∀ c ∈ Nat.toDigits 10 n, c.isDigit = true :=
    fun c hc => Nat.isDigit_of_mem_toDigits (by decide) (by decide) hc
  have hval : Nat.ofDigitChars 10 (Nat.toDigits 10 n) 0 = n := Nat.ofDigitChars_ten_toDigits
  unfold decimal
  cases hcs : Nat.toDigits 10 n with
  | nil => exact absurd hcs Nat.toDigits_ne_nil
  | cons c cs =>
    rw [hcs] at hdig hval
    obtain ⟨hd, ht⟩ := isDigit_ofNat (hdig c List.mem_cons_self)
    rw [List.map_cons, scan_cons, hl _ hd, start_digit toks hd, ht,
      scan_digits _ _ _ fun d hmem => hdig d (List.mem_cons_of_mem c hmem)]
    rw [Nat.ofDigitChars_cons, Nat.mul_zero, Nat.zero_add] at hval
    exact congrArg (fun m => Scanner.mk toks (.num m)) hval

theorem scan_signed (i : Int) :
    scan ⟨[], .gap⟩ (signed i) = ⟨if i < 0 then [.sign 45] else [], .num i.natAbs⟩ := by
  have hdash : ∀ c, isDigit c = true → Scanner.step ⟨[], .dash⟩ c = .start [.sign 45] c := by
    intro c hc
    refine if_neg ?_
    rintro rfl
    cases hc
  unfold signed
  by_cases hi : i < 0
  · rw [if_pos hi, if_pos hi, List.singleton_append, scan_cons]
    exact scan_decimal hdash i.natAbs
  · rw [if_neg hi, if_neg hi, List.nil_append]
    exact scan_decimal (fun _ _ => rfl) i.natAbs

/-- A string literal, its quotes included. -/
theorem scan_text (s : Bytes) : scan ⟨[], .gap⟩ (Value.text s).literal = ⟨[], .quote s⟩ := by
  have hopen : Scanner.step ⟨[], .gap⟩ 39 = ⟨[], .str []⟩ := rfl
  have hclose : scan ⟨[], .str s⟩ [39] = ⟨[], .quote s⟩ := rfl
  rw [Value.literal, scan_cons, hopen, scan_append, scan_doubled, List.nil_append, hclose]

/-- A byte that ends a literal: a space or a sign. -/
def closes (c : UInt8) : Bool := isSpace c || isSign c

/-- The tokens of such a byte. -/
def closing (c : UInt8) : List Token := if isSpace c then [] else [.sign c]

theorem closes_not {c : UInt8} (h : closes c = true) :
    c ≠ 39 ∧ isDigit c = false ∧ isLetter c = false := by
  simp only [closes, isSpace, isSign, Bool.or_eq_true, beq_iff_eq] at h
  obtain (((rfl | rfl) | rfl) | rfl) | (((((rfl | rfl) | rfl) | rfl) | rfl) | rfl) := h <;> decide

theorem start_closes {c : UInt8} (h : closes c = true) (ts : List Token) :
    Scanner.start ts c = ⟨ts ++ closing c, .gap⟩ := by
  unfold Scanner.start closing
  by_cases hs : isSpace c = true
  · rw [if_pos hs, if_pos hs, List.append_nil]
  · rw [if_neg hs, if_neg hs, if_pos]
    simpa [closes, hs] using h

/-- **A literal is read back as the tokens of its value**, up to the byte that ends it. -/
theorem reads_literal (v : Value) {c : UInt8} (hc : closes c = true) :
    Reads (v.literal ++ [c]) (v.tokens ++ closing c) := by
  obtain ⟨hq, hd, hl⟩ := closes_not hc
  unfold Reads
  rw [scan_append, scan_cons, ← start_closes hc]
  cases v with
  | int i =>
    rw [Value.literal, scan_signed]
    simp only [Scanner.step, Value.tokens, hd, hl, Bool.false_eq_true, if_false]
    rfl
  | text s =>
    rw [scan_text]
    exact if_neg hq

/-- The literals of a row, with commas between them. -/
def literals (vs : List Value) : Bytes := [44].intercalate (vs.map Value.literal)

/-- Literals with commas between them. -/
def rowTokens (vs : List Value) : List Token := [.sign 44].intercalate (vs.map Value.tokens)

/-- **A row in front of its closing bracket is read back literal by literal.** -/
theorem reads_row {vs : List Value} (hvs : vs ≠ []) :
    Reads (literals vs ++ [41]) (rowTokens vs ++ [.sign 41]) := by
  induction vs with
  | nil => exact absurd rfl hvs
  | cons v vs ih =>
    cases vs with
    | nil =>
      simp only [literals, rowTokens, List.map_cons, List.map_nil, List.intercalate_singleton]
      exact reads_literal v rfl
    | cons w vs =>
      have hlit : literals (v :: w :: vs) ++ [41] =
          (v.literal ++ [44]) ++ (literals (w :: vs) ++ [41]) := by
        simp [literals, List.intercalate_cons_cons]
      have htok : rowTokens (v :: w :: vs) ++ [.sign 41] =
          (v.tokens ++ [.sign 44]) ++ (rowTokens (w :: vs) ++ [.sign 41]) := by
        simp [rowTokens, List.intercalate_cons_cons]
      rw [hlit, htok]
      exact (reads_literal v rfl).append (ih (List.cons_ne_nil w vs))

/-! ## 5. A string literal on its own -/

/-- Behind the opening quote: a doubled quote is one quote, a lone quote closes. -/
def closeString : Bytes → Option (Bytes × Bytes)
  | [] => none
  | [c] => if c = 39 then some ([], []) else none
  | c :: d :: s =>
    if c = 39 then
      if d = 39 then (closeString s).map fun p => (39 :: p.1, p.2) else some ([], d :: s)
    else (closeString (d :: s)).map fun p => (c :: p.1, p.2)

/-- The value of the literal that the text starts with, and what is behind it. -/
def stringLiteral : Bytes → Option (Bytes × Bytes)
  | c :: s => if c = 39 then closeString s else none
  | [] => none

theorem closeString_end {rest : Bytes} (h : rest.head? ≠ some 39) :
    closeString (39 :: rest) = some ([], rest) := by
  cases rest with
  | nil => rfl
  | cons d rest =>
    have hd : d ≠ 39 := fun e => h (congrArg some e)
    rw [closeString, if_pos rfl, if_neg hd]

theorem closeString_cons {c : UInt8} (hc : c ≠ 39) {s : Bytes} (hs : s ≠ []) :
    closeString (c :: s) = (closeString s).map fun p => (c :: p.1, p.2) := by
  cases s with
  | nil => exact absurd rfl hs
  | cons d s => rw [closeString, if_neg hc]

/-- **A text with its quotes doubled is read back up to the closing quote.** -/
theorem closeString_doubled (s : Bytes) {rest : Bytes} (h : rest.head? ≠ some 39) :
    closeString (doubled s ++ 39 :: rest) = some (s, rest) := by
  induction s with
  | nil => exact closeString_end h
  | cons c s ih =>
    have hsplit : doubled (c :: s) = (if c = 39 then [39, 39] else [c]) ++ doubled s := rfl
    rw [hsplit]
    by_cases hc : c = 39
    · subst hc
      rw [if_pos rfl]
      show closeString (39 :: 39 :: (doubled s ++ 39 :: rest)) = _
      rw [closeString, if_pos rfl, if_pos rfl, ih]
      rfl
    · rw [if_neg hc]
      show closeString (c :: (doubled s ++ 39 :: rest)) = _
      rw [closeString_cons hc (by simp), ih]
      rfl

theorem stringLiteral_doubled (s : Bytes) {rest : Bytes} (h : rest.head? ≠ some 39) :
    stringLiteral (39 :: (doubled s ++ 39 :: rest)) = some (s, rest) := by
  rw [stringLiteral, if_pos rfl]
  exact closeString_doubled s h

/-- The scanner behind the opening quote. -/
theorem scan_closeString (toks : List Token) {s v rest : Bytes} (a : Bytes)
    (h : closeString s = some (v, rest)) :
    scan ⟨toks, .str a⟩ s = scan ⟨toks, .quote (a ++ v)⟩ rest := by
  induction s using closeString.induct generalizing a v with
  | case1 => cases h
  | case2 =>
    cases h
    rw [List.append_nil]
    rfl
  | case3 c hc =>
    rw [closeString, if_neg hc] at h
    cases h
  | case4 s ih =>
    rw [closeString, if_pos rfl, if_pos rfl] at h
    obtain ⟨⟨w, r⟩, hw, e⟩ := Option.map_eq_some_iff.mp h
    cases e
    have hstep : scan ⟨toks, .str a⟩ (39 :: 39 :: s) = scan ⟨toks, .str (a ++ [39])⟩ s := rfl
    rw [hstep, ih _ hw, List.append_assoc, List.singleton_append]
  | case5 d s hd =>
    rw [closeString, if_pos rfl, if_neg hd] at h
    cases h
    rw [List.append_nil]
    rfl
  | case6 c d s hc ih =>
    rw [closeString, if_neg hc] at h
    obtain ⟨⟨w, r⟩, hw, e⟩ := Option.map_eq_some_iff.mp h
    cases e
    have hstep : Scanner.step ⟨toks, .str a⟩ c = ⟨toks, .str (a ++ [c])⟩ := if_neg hc
    rw [scan_cons, hstep, ih _ hw, List.append_assoc, List.singleton_append]

/-- **The scanner reads a string literal the same way.** -/
theorem scan_stringLiteral (toks : List Token) {s v rest : Bytes}
    (h : stringLiteral s = some (v, rest)) :
    scan ⟨toks, .gap⟩ s = scan ⟨toks, .quote v⟩ rest := by
  cases s with
  | nil => cases h
  | cons c s =>
    rw [stringLiteral] at h
    by_cases hc : c = 39
    · rw [if_pos hc] at h
      subst hc
      exact scan_closeString toks [] h
    · rw [if_neg hc] at h
      cases h

end Viral.Lib.Sql
