/-
  File:      ViralEngine/Lib/Json.lean
  Subject:   READING JSON TEXTS, AND TEXTS WRITTEN WITHOUT ESCAPES. No program fact.

  A text is a list of bytes in UTF-8. All that the grammar looks at is ASCII, so the reader goes
  byte by byte; the bytes from 0x80 on are parts of characters and stand in strings as they are.

  * `Json`, `parse` -- the values, and the strict reader: a text is one value between blanks;
  * `string` -- a string with its escapes: a quote ends it, a control byte is refused;
  * `Plain` -- the bytes that stand for themselves;
  * `string_plain`, `string_back` -- a text put between quotes as it is, is read back exactly
    when all its bytes are plain;
  * `objectText`, `parse_objectText` -- an object whose strings are written as they are is read
    back exactly when all bytes of its strings are plain.
-/
import Mathlib.Data.List.Basic

namespace Viral.Lib.Json

/-- The bytes of a text. -/
abbrev Text := List UInt8

end Viral.Lib.Json

namespace Viral.Lib

/-- The values; a number is kept as it is written, and an object has its members in order. -/
inductive Json where
  | null
  | bool (b : Bool)
  | num (text : Json.Text)
  | str (text : Json.Text)
  | arr (elements : List Json)
  | obj (members : List (Json.Text × Json))

namespace Json

/-! ## 1. The reader -/

/-- The quotation mark. -/
def quote : UInt8 := 34

/-- The backslash. -/
def backslash : UInt8 := 92

/-- The blanks: space, tab, line feed, carriage return. -/
def isBlank (b : UInt8) : Bool := b = 32 ∨ b = 9 ∨ b = 10 ∨ b = 13

/-- Behind the blanks in front. -/
def skipBlanks (s : Text) : Text := s.dropWhile isBlank

/-- Behind a byte that comes next, blanks apart. -/
def eat (c : UInt8) (s : Text) : Option Text :=
  match skipBlanks s with
  | b :: rest => if b = c then some rest else none
  | [] => none

/-! ### Strings -/

/-- The value of a hexadecimal digit, small or capital. -/
def hexDigit (b : UInt8) : Option Nat :=
  if 48 ≤ b ∧ b ≤ 57 then some (b.toNat - 48)
  else if 97 ≤ b ∧ b ≤ 102 then some (b.toNat - 87)
  else if 65 ≤ b ∧ b ≤ 70 then some (b.toNat - 55)
  else none

/-- Four hex digits, and what is behind them. -/
def hex4 : Text → Option (Nat × Text)
  | a :: b :: c :: d :: rest => do
    let a ← hexDigit a
    let b ← hexDigit b
    let c ← hexDigit c
    let d ← hexDigit d
    some (((a * 16 + b) * 16 + c) * 16 + d, rest)
  | _ => none

/-- A code point in UTF-8. -/
def utf8 (code : Nat) : Text := String.utf8EncodeChar (Char.ofNat code)

/-- The second surrogate of a pair, behind the first one. -/
def lowHalf : Text → Option (Nat × Text)
  | b :: c :: rest => if b = backslash ∧ c = 117 then hex4 rest else none
  | _ => none

/-- Behind `\u`: a code point, in a pair of surrogates if it is above 0xFFFF. -/
def unicode (s : Text) : Option (Text × Text) := do
  let (high, rest) ← hex4 s
  if 0xD800 ≤ high ∧ high < 0xDC00 then do
    let (low, rest) ← lowHalf rest
    if 0xDC00 ≤ low ∧ low < 0xE000 then
      some (utf8 (0x10000 + (high - 0xD800) * 0x400 + (low - 0xDC00)), rest)
    else none
  else if 0xDC00 ≤ high ∧ high < 0xE000 then none
  else some (utf8 high, rest)

/-- Behind a backslash. -/
def escape : Text → Option (Text × Text)
  | [] => none
  | b :: rest =>
    if b = quote ∨ b = backslash ∨ b = 47 then some ([b], rest)
    else if b = 98 then some ([8], rest)
    else if b = 102 then some ([12], rest)
    else if b = 110 then some ([10], rest)
    else if b = 114 then some ([13], rest)
    else if b = 116 then some ([9], rest)
    else if b = 117 then unicode rest
    else none

/-- The characters of a string up to its closing quote. -/
def chars : Nat → Text → Option (Text × Text)
  | 0, _ => none
  | _ + 1, [] => none
  | n + 1, b :: rest =>
    if b = quote then some ([], rest)
    else if b = backslash then do
      let (c, rest) ← escape rest
      let (cs, rest) ← chars n rest
      some (c ++ cs, rest)
    else if b < 32 then none
    else do
      let (cs, rest) ← chars n rest
      some (b :: cs, rest)

/-- A string, behind its opening quote. -/
def string (s : Text) : Option (Text × Text) := chars (s.length + 1) s

/-! ### Numbers and words -/

/-- The decimal digits. -/
def isDigit (b : UInt8) : Bool := 48 ≤ b ∧ b ≤ 57

/-- The exponent, if there is one, behind the text `acc` of the number. -/
def exponent (acc s : Text) : Option (Json × Text) :=
  match s with
  | [] => some (.num acc, [])
  | e :: rest =>
    if e = 101 ∨ e = 69 then
      let sign := rest.take 1 |>.filter fun b => b = 43 ∨ b = 45
      let (digits, rest) := (rest.drop sign.length).span isDigit
      if digits = [] then none else some (.num (acc ++ e :: sign ++ digits), rest)
    else some (.num acc, s)

/-- The fraction and the exponent, if there are any, behind the whole part `acc` of the number. -/
def fraction (acc s : Text) : Option (Json × Text) :=
  match s with
  | [] => some (.num acc, [])
  | b :: rest =>
    if b = 46 then
      let (digits, rest) := rest.span isDigit
      if digits = [] then none else exponent (acc ++ b :: digits) rest
    else exponent acc s

/-- A number; no zero stands in front of another digit. -/
def number (s : Text) : Option (Json × Text) :=
  let sign := s.take 1 |>.filter fun b => b = 45
  let (digits, rest) := (s.drop sign.length).span isDigit
  if digits = [] ∨ digits.head? = some 48 ∧ digits.length ≠ 1 then none
  else fraction (sign ++ digits) rest

/-- A value that is one word. -/
def word (w : Text) (x : Json) (s : Text) : Option (Json × Text) :=
  if w.isPrefixOf s then some (x, s.drop w.length) else none

/-- `true`. -/
def trueText : Text := [116, 114, 117, 101]

/-- `false`. -/
def falseText : Text := [102, 97, 108, 115, 101]

/-- `null`. -/
def nullText : Text := [110, 117, 108, 108]

/-- A value that is neither a string nor made of others. -/
def scalar (s : Text) : Option (Json × Text) :=
  word trueText (.bool true) s <|> word falseText (.bool false) s <|> word nullText .null s <|>
    number s

/-! ### Values -/

mutual

/-- A value, and what is behind it. -/
def value : Nat → Text → Option (Json × Text)
  | 0, _ => none
  | n + 1, s =>
    match skipBlanks s with
    | [] => none
    | b :: rest =>
      if b = quote then (string rest).map fun p => (.str p.1, p.2)
      else if b = 123 then
        match eat 125 rest with
        | some rest => some (.obj [], rest)
        | none => (members n rest).map fun p => (.obj p.1, p.2)
      else if b = 91 then
        match eat 93 rest with
        | some rest => some (.arr [], rest)
        | none => (elements n rest).map fun p => (.arr p.1, p.2)
      else scalar (b :: rest)

/-- The members of an object up to its closing brace. -/
def members : Nat → Text → Option (List (Text × Json) × Text)
  | 0, _ => none
  | n + 1, s => do
    let rest ← eat quote s
    let (key, rest) ← string rest
    let rest ← eat 58 rest
    let (x, rest) ← value n rest
    match eat 44 rest with
    | some rest => (members n rest).map fun p => ((key, x) :: p.1, p.2)
    | none => (eat 125 rest).map fun rest => ([(key, x)], rest)

/-- The elements of an array up to its closing bracket. -/
def elements : Nat → Text → Option (List Json × Text)
  | 0, _ => none
  | n + 1, s => do
    let (x, rest) ← value n s
    match eat 44 rest with
    | some rest => (elements n rest).map fun p => (x :: p.1, p.2)
    | none => (eat 93 rest).map fun rest => ([x], rest)

end

/-- **The reader**: one value and nothing behind it but blanks. -/
def parse (s : Text) : Option Json := do
  let (x, rest) ← value (s.length + 1) s
  if skipBlanks rest = [] then some x else none

/-! ## 2. A string written without escapes -/

/-- Bytes that stand for themselves in a string. -/
def Plain (v : Text) : Prop := ∀ b ∈ v, b ≠ quote ∧ b ≠ backslash ∧ ¬ b < 32

instance (v : Text) : Decidable (Plain v) :=
  List.decidableBAll _ v

/-- What stands behind a string in an object: the closing brace at the end of the text, or the
    next key. -/
def Behind (rest : Text) : Prop := rest = [125] ∨ ∃ t, rest = 44 :: quote :: t

section Strings

variable {v w o r rest : Text} {n : Nat}

theorem plain_cons {b : UInt8} :
    Plain (b :: v) ↔ (b ≠ quote ∧ b ≠ backslash ∧ ¬ b < 32) ∧ Plain v :=
  List.forall_mem_cons

theorem chars_plain (h : Plain v) (hn : v.length < n) :
    chars n (v ++ quote :: rest) = some (v, rest) := by
  induction v generalizing n with
  | nil =>
    obtain ⟨n, rfl⟩ : ∃ m, n = m + 1 := ⟨n - 1, by simp at hn; omega⟩
    rfl
  | cons b v ih =>
    obtain ⟨⟨hq, hb, hc⟩, hv⟩ := plain_cons.mp h
    obtain ⟨n, rfl⟩ : ∃ m, n = m + 1 := ⟨n - 1, by simp at hn; omega⟩
    have hrest := ih (n := n) hv (by simp at hn; omega)
    rw [List.cons_append, chars, if_neg hq, if_neg hb, if_neg hc, hrest]
    rfl

/-- **A plain text between quotes is read back.** -/
theorem string_plain (h : Plain v) : string (v ++ quote :: rest) = some (v, rest) :=
  chars_plain h (by rw [List.length_append]; omega)

/-- The hex digits are none of the bytes behind them. -/
theorem hex4_inside {code : Nat} (h : hex4 (w ++ quote :: rest) = some (code, r)) :
    ∃ w', w.length = w'.length + 4 ∧ (∃ c, w = c ++ w') ∧ r = w' ++ quote :: rest := by
  have hquote : hexDigit quote = none := by decide
  match w, h with
  | [], h =>
    match rest, h with
    | a :: b :: c :: _, h => simp [hex4, hquote] at h
  | [a], h =>
    match rest, h with
    | b :: c :: _, h => simp [hex4, hquote] at h
  | [a, b], h =>
    match rest, h with
    | c :: _, h => simp [hex4, hquote] at h
  | [a, b, c], h => simp [hex4, hquote] at h
  | a :: b :: c :: d :: w', h =>
    simp only [List.cons_append, hex4, Option.bind_eq_bind, Option.bind_eq_some_iff,
      Option.some.injEq, Prod.mk.injEq] at h
    obtain ⟨_, _, _, _, _, _, _, _, _, rfl⟩ := h
    exact ⟨w', rfl, ⟨[a, b, c, d], rfl⟩, rfl⟩

theorem lowHalf_inside {code : Nat} (h : lowHalf (w ++ quote :: rest) = some (code, r)) :
    ∃ c w', w = c ++ w' ∧ r = w' ++ quote :: rest := by
  match w, h with
  | [], h =>
    match rest, h with
    | c :: _, h => simp [lowHalf, quote, backslash] at h
  | [b], h => simp [lowHalf, quote] at h
  | b :: c :: w, h =>
    rw [List.cons_append, List.cons_append, lowHalf] at h
    split at h
    · obtain ⟨w', _, ⟨front, rfl⟩, rfl⟩ := hex4_inside h
      exact ⟨b :: c :: front, w', rfl, rfl⟩
    · cases h

theorem utf8_length (code : Nat) : (utf8 code).length ≤ 4 := by
  unfold utf8
  rw [String.length_utf8EncodeChar]
  exact Char.utf8Size_le_four _

/-- An escape that ends inside `w`: it is longer than what it stands for. -/
def Within (w : Text) (c : Text) (r rest : Text) : Prop :=
  ∃ front w', w = front ++ w' ∧ c.length ≤ front.length ∧ r = w' ++ quote :: rest

theorem unicode_within {c : Text} (h : unicode (w ++ quote :: rest) = some (c, r)) :
    Within w c r rest := by
  unfold unicode at h
  obtain ⟨⟨high, s⟩, hhigh, h⟩ := Option.bind_eq_some_iff.mp h
  obtain ⟨w', hlen, ⟨front, rfl⟩, rfl⟩ := hex4_inside hhigh
  rw [List.length_append] at hlen
  dsimp only at h
  split at h
  · -- a pair of surrogates
    obtain ⟨⟨low, t⟩, hlow, h⟩ := Option.bind_eq_some_iff.mp h
    dsimp only at h
    split at h
    · obtain ⟨rfl, rfl⟩ := Prod.mk.inj (Option.some.inj h)
      obtain ⟨back, w'', rfl, rfl⟩ := lowHalf_inside hlow
      refine ⟨front ++ back, w'', (List.append_assoc ..).symm, ?_, rfl⟩
      refine Nat.le_trans (utf8_length _) ?_
      rw [List.length_append]
      omega
    · cases h
  · split at h <;> cases h
    exact ⟨front, w', rfl, Nat.le_trans (utf8_length _) (by omega), rfl⟩

/-- An escape ends inside the text, or it takes the quote behind it. -/
theorem escape_within {c : Text} (h : escape (w ++ quote :: rest) = some (c, r)) :
    Within w c r rest ∨ w = [] ∧ c = [quote] ∧ r = rest := by
  cases w with
  | nil =>
    rw [List.nil_append, escape, if_pos (Or.inl rfl)] at h
    cases h
    exact Or.inr ⟨rfl, rfl, rfl⟩
  | cons b w =>
    refine Or.inl ?_
    have hone : ∀ x : UInt8, some ([x], w ++ quote :: rest) = some (c, r) →
        Within (b :: w) c r rest := by
      intro x hx
      cases hx
      exact ⟨[b], w, rfl, Nat.le_refl _, rfl⟩
    rw [List.cons_append, escape] at h
    split at h
    · exact hone _ h
    split at h
    · exact hone _ h
    split at h
    · exact hone _ h
    split at h
    · exact hone _ h
    split at h
    · exact hone _ h
    split at h
    · exact hone _ h
    split at h
    · obtain ⟨front, w', rfl, hlen, rfl⟩ := unicode_within h
      exact ⟨b :: front, w', rfl, Nat.le_succ_of_le hlen, rfl⟩
    · cases h

/-- What comes out of a text between quotes: the text itself, if it is plain; or something
    shorter; or, where the closing quote was escaped, something with another last byte. -/
inductive Back (w rest : Text) : Text → Text → Prop where
  | plain (h : Plain w) : Back w rest w rest
  | shorter (o r : Text) (h : o.length < w.length) : Back w rest o r
  | runsOver (o r : Text) (hw : w.getLast? = some backslash) (ho : o.getLast? = some 44) :
      Back w rest o r

theorem getLast?_append_some {l l' : Text} {b : UInt8} (h : l'.getLast? = some b) :
    (l ++ l').getLast? = some b := by
  rw [List.getLast?_append, h]
  rfl

/-- A string that goes on behind its closing quote ends at the quote of the next key. -/
theorem chars_behind (hb : Behind rest) (h : chars n rest = some (o, r)) : o = [44] := by
  cases n with
  | zero => cases h
  | succ n =>
    cases n with
    | zero => rcases hb with rfl | ⟨t, rfl⟩ <;> simp [chars, quote, backslash] at h
    | succ n =>
      rcases hb with rfl | ⟨t, rfl⟩
      · simp [chars, quote, backslash] at h
      · simp only [chars, quote, backslash] at h
        exact (Prod.mk.inj (Option.some.inj h)).1.symm

/-- **Reading a text between quotes**, with a brace or the next key behind it. -/
theorem chars_back (hb : Behind rest) (h : chars n (w ++ quote :: rest) = some (o, r)) :
    Back w rest o r := by
  induction n generalizing w o with
  | zero => cases h
  | succ n ih =>
    cases w with
    | nil =>
      rw [List.nil_append, chars, if_pos rfl] at h
      cases h
      exact .plain (by nofun)
    | cons b w =>
      rw [List.cons_append, chars] at h
      split at h
      · -- a quote in the text ends it
        cases h
        exact .shorter _ _ (Nat.succ_pos _)
      rename_i hq
      split at h
      · -- an escape
        rename_i hbs
        obtain ⟨⟨c, s⟩, hesc, h⟩ := Option.bind_eq_some_iff.mp h
        obtain ⟨⟨cs, t⟩, hcs, h⟩ := Option.bind_eq_some_iff.mp h
        cases h
        rcases escape_within hesc with ⟨front, w', rfl, hlen, rfl⟩ | ⟨rfl, rfl, rfl⟩
        · cases ih hcs with
          | plain hw' =>
            refine .shorter _ _ ?_
            rw [List.length_append, List.length_cons, List.length_append]
            omega
          | shorter _ _ hlt =>
            refine .shorter _ _ ?_
            rw [List.length_append, List.length_cons, List.length_append]
            omega
          | runsOver _ _ hw' ho =>
            exact .runsOver _ _ (getLast?_append_some (l := b :: front) hw')
              (getLast?_append_some ho)
        · -- the closing quote is escaped: the string goes on up to the next one
          refine .runsOver _ _ (by rw [hbs]; rfl) ?_
          rw [chars_behind hb hcs]
          rfl
      rename_i hbs
      split at h
      · cases h
      rename_i hc
      obtain ⟨⟨cs, t⟩, hcs, h⟩ := Option.bind_eq_some_iff.mp h
      cases h
      cases ih hcs with
      | plain hw => exact .plain (plain_cons.mpr ⟨⟨hq, hbs, hc⟩, hw⟩)
      | shorter _ _ hlt => exact .shorter _ _ (Nat.succ_lt_succ hlt)
      | runsOver _ _ hw ho =>
        exact .runsOver _ _ (getLast?_append_some (l := [b]) hw)
          (getLast?_append_some (l := [b]) ho)

/-- **What is read back is plain.** -/
theorem string_back (hb : Behind rest) (h : string (v ++ quote :: rest) = some (v, r)) :
    Plain v ∧ r = rest := by
  cases chars_back hb h with
  | plain hv => exact ⟨hv, rfl⟩
  | shorter _ _ hlt => exact absurd hlt (Nat.lt_irrefl _)
  | runsOver _ _ hw ho =>
    rw [hw] at ho
    exact absurd ho (by decide)

end Strings

/-! ## 3. An object written without escapes -/

/-- The value of a member. -/
inductive Field where
  | str (v : Text)
  | bool (b : Bool)
  deriving DecidableEq, Repr

namespace Field

/-- The value a field stands for. -/
def json : Field → Json
  | .str v => .str v
  | .bool b => .bool b

/-- A string is put between quotes as it is. -/
def text : Field → Text
  | .str v => quote :: (v ++ [quote])
  | .bool true => trueText
  | .bool false => falseText

/-- A field that is written without an escape. -/
def Plain : Field → Prop
  | .str v => Json.Plain v
  | .bool _ => True

instance : ∀ f : Field, Decidable f.Plain
  | .str v => inferInstanceAs (Decidable (Json.Plain v))
  | .bool _ => inferInstanceAs (Decidable True)

end Field

/-- A member: its key in quotes, the colon, its value. -/
def memberText (m : Text × Field) : Text := quote :: (m.1 ++ quote :: 58 :: m.2.text)

/-- What stands behind a member. -/
def tailText : List (Text × Field) → Text
  | [] => [125]
  | m :: ms => 44 :: (memberText m ++ tailText ms)

/-- An object with these members, without a blank. -/
def objectText : List (Text × Field) → Text
  | [] => [123, 125]
  | m :: ms => 123 :: (memberText m ++ tailText ms)

/-- What an object with these members is read as. -/
def objectOf (ms : List (Text × Field)) : Json := .obj (ms.map fun m => (m.1, m.2.json))

section Objects

variable {f : Field} {m : Text × Field} {ms : List (Text × Field)} {s rest r : Text} {n : Nat}
  {b c : UInt8}

theorem skipBlanks_cons (h : isBlank b = false) : skipBlanks (b :: s) = b :: s := by
  unfold skipBlanks
  rw [List.dropWhile_cons_of_neg (by rw [h]; exact Bool.false_ne_true)]

theorem eat_self (h : isBlank b = false) : eat b (b :: s) = some s := by
  unfold eat
  rw [skipBlanks_cons h]
  exact if_pos rfl

theorem eat_other (h : isBlank b = false) (hne : b ≠ c) : eat c (b :: s) = none := by
  unfold eat
  rw [skipBlanks_cons h]
  exact if_neg hne

theorem behind_tailText (ms : List (Text × Field)) : Behind (tailText ms) := by
  cases ms with
  | nil => exact Or.inl rfl
  | cons m ms => exact Or.inr ⟨_, rfl⟩

theorem value_string : value (n + 1) (quote :: s) =
    (string s).map fun p => (.str p.1, p.2) := by
  rw [value, skipBlanks_cons (by decide)]
  exact if_pos rfl

theorem value_bool (b : Bool) : value (n + 1) ((Field.bool b).text ++ rest) =
    some (.bool b, rest) := by
  cases b with
  | true =>
    show value (n + 1) (116 :: 114 :: 117 :: 101 :: rest) = _
    rw [value, skipBlanks_cons (by decide)]
    simp [quote, scalar, word, trueText]
  | false =>
    show value (n + 1) (102 :: 97 :: 108 :: 115 :: 101 :: rest) = _
    rw [value, skipBlanks_cons (by decide)]
    simp [quote, scalar, word, trueText, falseText]

/-- A plain value is read. -/
theorem value_plain (h : f.Plain) : value (n + 1) (f.text ++ rest) = some (f.json, rest) := by
  cases f with
  | bool b => exact value_bool b
  | str v =>
    have e : (Field.str v).text ++ rest = quote :: (v ++ quote :: rest) := by
      simp [Field.text]
    rw [e, value_string, string_plain h]
    rfl

/-- A value that is read back is plain. -/
theorem value_back (hb : Behind rest) (h : value (n + 1) (f.text ++ rest) = some (f.json, r)) :
    f.Plain ∧ r = rest := by
  cases f with
  | bool b =>
    rw [value_bool] at h
    cases h
    exact ⟨trivial, rfl⟩
  | str v =>
    have e : (Field.str v).text ++ rest = quote :: (v ++ quote :: rest) := by
      simp [Field.text]
    rw [e, value_string] at h
    obtain ⟨⟨v', r'⟩, hs, hp⟩ := Option.map_eq_some_iff.mp h
    cases hp
    exact string_back hb hs

/-- The reader in front of a member with a plain key. -/
theorem members_member (hk : Plain m.1) : members (n + 1) (memberText m ++ rest) =
    (value n (m.2.text ++ rest)).bind fun p =>
      match eat 44 p.2 with
      | some rest => (members n rest).map fun q => ((m.1, p.1) :: q.1, q.2)
      | none => (eat 125 p.2).map fun rest => ([(m.1, p.1)], rest) := by
  have e : memberText m ++ rest = quote :: (m.1 ++ quote :: 58 :: (m.2.text ++ rest)) := by
    simp [memberText]
  rw [e, members, eat_self (by decide)]
  simp only [Option.bind_eq_bind, Option.bind_some, string_plain hk]
  rw [eat_self (by decide)]
  rfl

theorem members_last {x : Json} (hk : Plain m.1)
    (hx : value n (m.2.text ++ tailText []) = some (x, tailText [])) :
    members (n + 1) (memberText m ++ tailText []) = some ([(m.1, x)], []) := by
  have h44 : eat 44 (tailText []) = none := eat_other (by decide) (by decide)
  have h125 : eat 125 (tailText []) = some [] := eat_self (by decide)
  rw [members_member hk, hx, Option.bind_some]
  simp only [h44, h125, Option.map_some]

theorem members_more {m' : Text × Field} {x : Json} (hk : Plain m.1)
    (hx : value n (m.2.text ++ tailText (m' :: ms)) = some (x, tailText (m' :: ms))) :
    members (n + 1) (memberText m ++ tailText (m' :: ms)) =
      (members n (memberText m' ++ tailText ms)).map fun q => ((m.1, x) :: q.1, q.2) := by
  have h44 : eat 44 (tailText (m' :: ms)) = some (memberText m' ++ tailText ms) :=
    eat_self (by decide)
  rw [members_member hk, hx, Option.bind_some]
  simp only [h44]

/-- The first member that is read. -/
theorem members_head {l : List (Text × Json)} (hk : Plain m.1)
    (h : members (n + 1) (memberText m ++ rest) = some (l, r)) :
    ∃ x s l', value n (m.2.text ++ rest) = some (x, s) ∧ l = (m.1, x) :: l' := by
  rw [members_member hk] at h
  obtain ⟨⟨x, s⟩, hx, h⟩ := Option.bind_eq_some_iff.mp h
  refine ⟨x, s, ?_⟩
  dsimp only at h
  split at h
  · obtain ⟨q, _, hq⟩ := Option.map_eq_some_iff.mp h
    cases hq
    exact ⟨_, hx, rfl⟩
  · obtain ⟨q, _, hq⟩ := Option.map_eq_some_iff.mp h
    cases hq
    exact ⟨_, hx, rfl⟩

/-- Members with plain values are read. -/
theorem members_plain (hk : ∀ p ∈ m :: ms, Plain p.1) (hv : ∀ p ∈ m :: ms, p.2.Plain)
    (hn : ms.length + 2 ≤ n) : members n (memberText m ++ tailText ms) =
      some ((m :: ms).map fun p => (p.1, p.2.json), []) := by
  induction ms generalizing m n with
  | nil =>
    obtain ⟨n, rfl⟩ : ∃ k, n = k + 2 := ⟨n - 2, by simp at hn; omega⟩
    exact members_last (hk m List.mem_cons_self) (value_plain (hv m List.mem_cons_self))
  | cons m' ms ih =>
    obtain ⟨n, rfl⟩ : ∃ k, n = k + 2 := ⟨n - 2, by simp at hn; omega⟩
    have hrest := ih (m := m') (n := n + 1) (fun p hp => hk p (List.mem_cons_of_mem m hp))
      (fun p hp => hv p (List.mem_cons_of_mem m hp)) (by simp at hn; omega)
    rw [members_more (hk m List.mem_cons_self) (value_plain (hv m List.mem_cons_self)), hrest]
    rfl

/-- Members that are read back have plain values. -/
theorem members_back (hk : ∀ p ∈ m :: ms, Plain p.1)
    (h : members n (memberText m ++ tailText ms) =
      some ((m :: ms).map fun p => (p.1, p.2.json), r)) : ∀ p ∈ m :: ms, p.2.Plain := by
  induction ms generalizing m n r with
  | nil =>
    obtain _ | n := n
    · cases h
    obtain ⟨x, s, l', hx, hl⟩ := members_head (hk m List.mem_cons_self) h
    cases hl
    obtain _ | n := n
    · cases hx
    have hm := (value_back (behind_tailText []) hx).1
    exact List.forall_mem_singleton.mpr hm
  | cons m' ms ih =>
    obtain _ | n := n
    · cases h
    obtain ⟨x, s, l', hx, hl⟩ := members_head (hk m List.mem_cons_self) h
    cases hl
    obtain _ | n := n
    · cases hx
    -- the first value is read back, so the next key is where it was written
    obtain ⟨hm, rfl⟩ := value_back (behind_tailText (m' :: ms)) hx
    rw [members_more (hk m List.mem_cons_self) hx] at h
    obtain ⟨q, hq, he⟩ := Option.map_eq_some_iff.mp h
    obtain ⟨l, r'⟩ := q
    simp only [List.map_cons, Prod.mk.injEq, List.cons.injEq, true_and] at he
    rw [he.1] at hq
    exact List.forall_mem_cons.mpr ⟨hm, ih (fun p hp => hk p (List.mem_cons_of_mem m hp)) hq⟩

theorem length_tailText (ms : List (Text × Field)) : ms.length + 1 ≤ (tailText ms).length := by
  induction ms with
  | nil => exact Nat.le_refl _
  | cons m ms ih =>
    rw [tailText, List.length_cons, List.length_cons, List.length_append]
    omega

/-- **An object written without escapes is read back exactly when its values are plain.** -/
theorem parse_objectText (hk : ∀ p ∈ ms, Plain p.1) :
    parse (objectText ms) = some (objectOf ms) ↔ ∀ p ∈ ms, p.2.Plain := by
  cases ms with
  | nil => exact ⟨fun _ => by nofun, fun _ => rfl⟩
  | cons m ms =>
    have hopen : ∀ n, value (n + 1) (objectText (m :: ms)) =
        (members n (memberText m ++ tailText ms)).map fun p => (.obj p.1, p.2) := by
      intro n
      have h125 : eat 125 (memberText m ++ tailText ms) = none :=
        eat_other (by decide) (by decide)
      rw [objectText, value, skipBlanks_cons (by decide)]
      simp only [h125]
      rfl
    unfold parse
    rw [hopen]
    constructor
    · intro h
      obtain ⟨⟨x, rest⟩, hx, h⟩ := Option.bind_eq_some_iff.mp h
      obtain ⟨⟨l, r⟩, hl, hp⟩ := Option.map_eq_some_iff.mp hx
      cases hp
      dsimp only at h
      split at h
      · have hobj := Json.obj.inj (Option.some.inj h)
        rw [hobj] at hl
        exact members_back hk hl
      · cases h
    · intro hv
      have hlen := length_tailText ms
      rw [members_plain hk hv (by
        rw [objectText, List.length_cons, List.length_append]
        unfold memberText
        rw [List.length_cons]
        omega)]
      rfl

end Objects

end Json

end Viral.Lib
