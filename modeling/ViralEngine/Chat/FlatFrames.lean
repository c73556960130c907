/-
  File:      ViralEngine/Chat/FlatFrames.lean
  Subject:   WHAT `jsonGet` READS OUT OF A FLAT JSON OBJECT, HOWEVER IT IS SPACED.

  A flat object is written as its members with blanks at its structural characters. `jsonGet` looks
  for `"key":"` and, where that is nowhere, for `"key":`. Cut at its quotes, the text of an object
  is a list of pieces in which only the last piece of a string can be a key: the pieces in front of
  it end with a backslash, and what stands between two strings has a colon, a comma or a brace.

  * `Value`, `Line`, `Frame`, `Frame.render` -- members, their blanks, and the text of an object;
  * `lastPiece`, `Line.tight`, `Line.opened`, `shown` -- what a member shows for a key;
  * `walk_line` -- a walk over the pieces goes line by line;
  * `jsonGet_render` -- `jsonGet` reads what the members show;
  * `jsonGet_compact` -- written without blanks and escapes, an object is read as its members.
-/
import ViralEngine.Lib.Json
import ViralEngine.Chat.RoundTrip
import Mathlib.Data.List.Nodup

namespace Viral.Chat

open Viral.Lib

/-! ## 1. Flat objects as they are written -/

/-- What may stand between the quotes of a string: a quote or a backslash only behind the
    backslash that escapes it. -/
def isWritten : Bytes → Bool
  | [] => true
  | [b] => b != quote && b != Json.backslash
  | b :: c :: rest =>
    if b = Json.backslash then isWritten rest else b != quote && isWritten (c :: rest)

/-- Letters and digits. -/
def isAlnum (b : UInt8) : Bool := Json.isDigit b || (65 ≤ b && b ≤ 90) || (97 ≤ b && b ≤ 122)

/-- The bytes of numbers and of `true`, `false`, `null`. -/
def isBare (b : UInt8) : Bool := isAlnum b || b == 43 || b == 45 || b == 46

/-- A value of a flat object as it is written: a string between quotes, or a bare text. -/
inductive Value where
  | str (raw : Bytes)
  | lit (text : Bytes)
  deriving DecidableEq, Repr

/-- The value as it is written. -/
def Value.text : Value → Bytes
  | .str raw => quote :: (raw ++ [quote])
  | .lit text => text

/-- A value in the form it must have: a closed string, or a literal without a blank. -/
def Value.ok : Value → Bool
  | .str raw => isWritten raw
  | .lit text => text != [] && text.all isBare

theorem ok_lit {text : Bytes} :
    (Value.lit text).ok = true ↔ text ≠ [] ∧ text.all isBare = true := by
  simp [Value.ok]

/-- A member with its blanks: in front of its key, around its colon, behind its value. -/
structure Line where
  key : Bytes
  value : Value
  front : Bytes
  before : Bytes
  after : Bytes
  trail : Bytes
  written : isWritten key = true ∧ value.ok = true
  blank : (front ++ before ++ after ++ trail).all Json.isBlank = true

/-- The member, without its blanks. -/
def Line.member (l : Line) : Bytes × Value := (l.key, l.value)

/-- From the colon's blanks to the end of the member. -/
def Line.behindKey (l : Line) : Bytes :=
  l.before ++ 58 :: (l.after ++ (l.value.text ++ l.trail))

/-- The member as it is written. -/
def Line.text (l : Line) : Bytes := l.front ++ quote :: (l.key ++ quote :: l.behindKey)

/-- What stands behind a member: the other members, the closing brace, and `tail`. -/
def restText (tail : Bytes) : List Line → Bytes
  | [] => 125 :: tail
  | l :: ls => 44 :: (l.text ++ restText tail ls)

/-- A flat object with the blanks around it and behind its opening brace. -/
structure Frame where
  lead : Bytes
  inner : Bytes
  lines : List Line
  tail : Bytes
  blank : (lead ++ inner ++ tail).all Json.isBlank = true

/-- Members without blanks around them. -/
def Frame.bare (ls : List Line) : Frame where
  lead := []
  inner := []
  lines := ls
  tail := []
  blank := rfl

/-- **The text of a flat object.** -/
def Frame.render (f : Frame) : Bytes :=
  f.lead ++ 123 :: (f.inner ++ match f.lines with
    | [] => 125 :: f.tail
    | l :: ls => l.text ++ restText f.tail ls)

/-- The object, without its blanks. -/
def Frame.members (f : Frame) : List (Bytes × Value) := f.lines.map Line.member

/-! ## 2. What a member shows -/

/-- A string behind its last quote. -/
def lastPiece (s : Bytes) : Bytes := (pieces s).getLastD []

/-- The string of a member named `k` whose colon has no blanks, up to its first quote. -/
def Line.tight (k : Bytes) (l : Line) : Option Bytes :=
  if lastPiece l.key = k ∧ l.before = [] ∧ l.after = [] then
    match l.value with
    | .str raw => some (raw.takeWhile fun b => b ≠ quote)
    | .lit _ => none
  else none

/-- All that stands behind the colon of a member named `k` without a blank in front of it, up to a
    comma or a brace: blanks and quotes included. -/
def Line.opened (k : Bytes) (l : Line) : Option Bytes :=
  if lastPiece l.key = k ∧ l.before = [] then
    some ((l.after ++ (l.value.text ++ l.trail)).takeWhile inBare)
  else none

/-- A member with another name shows nothing. -/
theorem Line.silent {k : Bytes} {l : Line} (h : lastPiece l.key ≠ k) :
    l.tight k = none ∧ l.opened k = none :=
  ⟨if_neg fun e => h e.1, if_neg fun e => h e.1⟩

/-- **What an object shows for a key**: its first tight string, or else its first open value, or
    else nothing. -/
def shown (k : Bytes) (ls : List Line) : Bytes :=
  (ls.findSome? (Line.tight k)).getD ((ls.findSome? (Line.opened k)).getD [])

/-! ## 3. The pieces of a string and of a separator -/

/-- The pieces of a string, all but the last one with a backslash. -/
def Cut (s : Bytes) : Prop :=
  ∃ init last, pieces s = init ++ [last] ∧ ∀ p ∈ init, Json.backslash ∈ p

theorem cut_cons {b : UInt8} {s : Bytes} (hb : b ≠ quote) (h : Cut s) : Cut (b :: s) := by
  obtain ⟨init, last, hp, hinit⟩ := h
  have hcons : pieces (b :: s) = (pieces s).modifyHead (b :: ·) := by
    show (b :: s).splitOn quote = _
    rw [List.splitOn_cons_eq_if_modifyHead, if_neg (by simpa using hb)]
    rfl
  cases init with
  | nil => exact ⟨[], b :: last, by rw [hcons, hp]; rfl, nofun⟩
  | cons p init =>
    obtain ⟨hhead, htail⟩ := List.forall_mem_cons.mp hinit
    refine ⟨(b :: p) :: init, last, by rw [hcons, hp]; rfl, List.forall_mem_cons.mpr ⟨?_, htail⟩⟩
    exact List.mem_cons_of_mem b hhead

/-- **The pieces of a string**: all but the last one end with the backslash that escapes the next
    quote. -/
theorem cut_written {s : Bytes} (h : isWritten s = true) : Cut s := by
  have hempty : Cut [] := ⟨[], [], rfl, nofun⟩
  fun_induction isWritten s with
  | case1 => exact hempty
  | case2 b =>
    simp only [Bool.and_eq_true, bne_iff_ne, ne_eq] at h
    exact cut_cons h.1 hempty
  | case3 c rest ih =>
    by_cases hc : c = quote
    · -- an escaped quote ends a piece that is a backslash
      obtain ⟨init, last, hp, hinit⟩ := ih h
      have hpieces : pieces (Json.backslash :: c :: rest) = [Json.backslash] :: pieces rest := by
        rw [hc]
        show pieces ([Json.backslash] ++ quote :: rest) = _
        rw [pieces_append_quote, pieces_plain (by decide)]
        rfl
      refine ⟨[Json.backslash] :: init, last, by rw [hpieces, hp]; rfl, ?_⟩
      exact List.forall_mem_cons.mpr ⟨List.mem_singleton_self _, hinit⟩
    · exact cut_cons (by decide) (cut_cons hc (ih h))
  | case4 b c rest hb ih =>
    simp only [Bool.and_eq_true, bne_iff_ne, ne_eq] at h
    exact cut_cons h.1 (ih h.2)

theorem pieces_written {s : Bytes} (h : isWritten s = true) :
    ∃ init, pieces s = init ++ [lastPiece s] ∧ ∀ p ∈ init, Json.backslash ∈ p := by
  obtain ⟨init, last, hp, hinit⟩ := cut_written h
  refine ⟨init, ?_, hinit⟩
  unfold lastPiece
  rw [hp, List.getLastD_concat]

section Walk

variable {β : Type} {k : Bytes} {look : List Bytes → Option β}

theorem ne_of_mem {a : Bytes} {b : UInt8} (hk : k.all isAlnum = true) (hb : isAlnum b = false)
    (ha : b ∈ a) : a ≠ k := by
  rintro rfl
  rw [List.all_eq_true] at hk
  rw [hk b ha] at hb
  cases hb

/-- **A walk through a string looks behind its last piece only.** -/
theorem walk_written (hk : k.all isAlnum = true) {s : Bytes} (h : isWritten s = true)
    (l : List Bytes) : walk k look (pieces s ++ l) = walk k look (lastPiece s :: l) := by
  obtain ⟨init, hp, hinit⟩ := pieces_written h
  rw [hp, List.append_assoc]
  exact walk_append_ne (fun a ha => ne_of_mem hk (by decide) (hinit a ha)) _

/-- Behind a member stands a comma or a brace. -/
theorem restText_head (tail : Bytes) (ls : List Line) :
    ∃ b rest, restText tail ls = b :: rest ∧ (b = 44 ∨ b = 125) := by
  cases ls with
  | nil => exact ⟨125, tail, rfl, Or.inr rfl⟩
  | cons l ls => exact ⟨44, _, rfl, Or.inl rfl⟩

/-- The piece that ends with a member has that comma or brace. -/
theorem pieces_rest {t : Bytes} (ht : quote ∉ t) (tail : Bytes) (ls : List Line) :
    ∃ b p l, pieces (t ++ restText tail ls) = (t ++ b :: p) :: l ∧ (b = 44 ∨ b = 125) := by
  obtain ⟨b, rest, hr, hb⟩ := restText_head tail ls
  have hbq : quote ∉ [b] := by
    rcases hb with rfl | rfl <;> decide
  obtain ⟨p, l, hp⟩ := List.exists_cons_of_ne_nil (List.splitOn_ne_nil quote rest)
  refine ⟨b, p, l, ?_, hb⟩
  show (t ++ restText tail ls).splitOn quote = _
  rw [splitOn_append_of_not_mem ht, hr, show b :: rest = [b] ++ rest from rfl,
    splitOn_append_of_not_mem hbq, hp]
  rfl

/-- What is left of a member's text behind its last string. -/
def Line.next (l : Line) : Bytes :=
  match l.value with
  | .str _ => l.trail
  | .lit _ => l.behindKey

theorem blank_plain {t : Bytes} (h : t.all Json.isBlank = true) : quote ∉ t := by
  intro hq
  have := List.all_eq_true.mp h quote hq
  exact absurd this (by decide)

/-- The blanks of a member, one by one. -/
theorem Line.blanks (l : Line) : l.front.all Json.isBlank = true ∧
    l.before.all Json.isBlank = true ∧ l.after.all Json.isBlank = true ∧
    l.trail.all Json.isBlank = true := by
  have h := l.blank
  simp only [List.all_append, Bool.and_eq_true] at h
  exact ⟨h.1.1.1, h.1.1.2, h.1.2, h.2⟩

/-- No quote stands around the colon. -/
theorem Line.colon_plain (l : Line) : quote ∉ l.before ++ 58 :: l.after := by
  obtain ⟨_, hbefore, hafter, _⟩ := l.blanks
  rw [List.mem_append, List.mem_cons]
  rintro (h | h | h)
  · exact blank_plain hbefore h
  · exact absurd h (by decide)
  · exact blank_plain hafter h

theorem bare_plain {t : Bytes} (h : t.all isBare = true) : quote ∉ t := by
  intro hq
  have := List.all_eq_true.mp h quote hq
  exact absurd this (by decide)

theorem Line.behindKey_lit {l : Line} {text : Bytes} (hv : l.value = .lit text) :
    l.behindKey = (l.before ++ 58 :: l.after) ++ (text ++ l.trail) := by
  unfold Line.behindKey
  rw [hv]
  simp [Value.text]

theorem Line.behindKey_str {l : Line} {raw : Bytes} (hv : l.value = .str raw) (rest : Bytes) :
    l.behindKey ++ rest =
      (l.before ++ 58 :: l.after) ++ quote :: (raw ++ quote :: (l.trail ++ rest)) := by
  unfold Line.behindKey
  rw [hv]
  simp [Value.text]

theorem Line.next_plain (l : Line) : quote ∉ l.next := by
  obtain ⟨_, _, _, htrail⟩ := l.blanks
  have hok := l.written.2
  unfold Line.next
  cases hv : l.value with
  | str raw => exact blank_plain htrail
  | lit text =>
    rw [hv] at hok
    dsimp only
    rw [Line.behindKey_lit hv]
    intro h
    rcases List.mem_append.mp h with h | h
    · exact l.colon_plain h
    · rcases List.mem_append.mp h with h | h
      · exact bare_plain (ok_lit.mp hok).2 h
      · exact blank_plain htrail h

/-- The pieces of the text around a string's colon. -/
theorem Line.pieces_str {l : Line} {raw : Bytes} (hv : l.value = .str raw) (rest : Bytes) :
    pieces (l.behindKey ++ rest) =
      (l.before ++ 58 :: l.after) :: (pieces raw ++ pieces (l.trail ++ rest)) := by
  rw [Line.behindKey_str hv, pieces_append_quote, pieces_append_quote, pieces_plain l.colon_plain]
  rfl

/-- The pieces of a member, behind a text without a quote. -/
theorem Line.pieces_text {t : Bytes} (ht : quote ∉ t) (l : Line) (rest : Bytes) :
    pieces (t ++ (l.text ++ rest)) =
      (t ++ l.front) :: (pieces l.key ++ pieces (l.behindKey ++ rest)) := by
  obtain ⟨hfront, _, _, _⟩ := l.blanks
  have hsep : quote ∉ t ++ l.front := by
    rw [List.mem_append]
    exact not_or.mpr ⟨ht, blank_plain hfront⟩
  have htext : t ++ (l.text ++ rest) =
      (t ++ l.front) ++ quote :: (l.key ++ quote :: (l.behindKey ++ rest)) := by
    simp [Line.text]
  rw [htext, pieces_append_quote, pieces_append_quote, pieces_plain hsep]
  rfl

/-- **A walk over the pieces goes line by line**, if it finds nothing behind a value. -/
theorem walk_line (hk : k.all isAlnum = true) {t tail : Bytes} (ht : quote ∉ t) (l : Line)
    {ls : List Line} (hmiss : look (pieces (l.trail ++ restText tail ls)) = none) :
    walk k look (pieces (t ++ restText tail (l :: ls))) =
      ((if lastPiece l.key = k then look (pieces (l.behindKey ++ restText tail ls)) else none).or
        (walk k look (pieces (l.next ++ restText tail ls)))) := by
  have hcomma : quote ∉ t ++ [44] := by
    rw [List.mem_append]
    exact not_or.mpr ⟨ht, by decide⟩
  have htext : t ++ restText tail (l :: ls) = (t ++ [44]) ++ (l.text ++ restText tail ls) := by
    simp [restText]
  have hafter : walk k look (pieces (l.behindKey ++ restText tail ls)) =
      walk k look (pieces (l.next ++ restText tail ls)) := by
    have hok := l.written.2
    unfold Line.next
    cases hv : l.value with
    | lit text => rfl
    | str raw =>
      rw [hv] at hok
      rw [Line.pieces_str hv, walk_cons_ne (ne_of_mem hk (b := 58) (by decide) (by simp)),
        walk_written hk hok, walk_cons_miss hmiss]
  rw [htext, Line.pieces_text hcomma, walk_cons_ne (ne_of_mem hk (b := 44) (by decide) (by simp)),
    walk_written hk l.written.1, ← hafter]
  show (if lastPiece l.key = k then _ else _) = _
  split
  · rfl
  · rw [Option.none_or]

end Walk

/-! ## 4. The two searches -/

section Search

variable {k tail : Bytes} {ls : List Line}

/-- A colon without blanks. -/
theorem colon_iff {before after : Bytes} :
    before ++ 58 :: after = ascii ":" ↔ before = [] ∧ after = [] := by
  show before ++ 58 :: after = [58] ↔ _
  constructor
  · intro h
    cases before with
    | nil => exact ⟨rfl, (List.cons.inj h).2⟩
    | cons b before => simp at h
  · rintro ⟨rfl, rfl⟩
    rfl

/-- What ends a member is no colon. -/
theorem lookClosed_rest {t : Bytes} (ht : quote ∉ t) :
    lookClosed (ascii ":") (pieces (t ++ restText tail ls)) = none := by
  obtain ⟨b, p, l, hp, hb⟩ := pieces_rest ht tail ls
  have hne : t ++ b :: p ≠ ascii ":" := by
    intro h
    have hmem : b ∈ ascii ":" := h ▸ List.mem_append_right t List.mem_cons_self
    rcases hb with rfl | rfl <;> exact absurd hmem (by decide)
  rw [hp]
  cases l with
  | nil => rfl
  | cons v l => exact if_neg hne

theorem lookClosed_line (l : Line) : (if lastPiece l.key = k then
      lookClosed (ascii ":") (pieces (l.behindKey ++ restText tail ls)) else none) =
    l.tight k := by
  unfold Line.tight
  by_cases hkey : lastPiece l.key = k
  · rw [if_pos hkey]
    cases hv : l.value with
    | lit text =>
      have hnext : l.next = l.behindKey := by
        unfold Line.next
        rw [hv]
      rw [lookClosed_rest (hnext ▸ l.next_plain), ite_self]
    | str raw =>
      obtain ⟨v, vs, hraw⟩ := List.exists_cons_of_ne_nil (List.splitOn_ne_nil quote raw)
      have hhead := head_splitOn quote raw
      rw [hraw] at hhead
      rw [Line.pieces_str hv]
      unfold pieces
      rw [hraw]
      show (if l.before ++ 58 :: l.after = ascii ":" then some v else none) = _
      rw [show v = raw.takeWhile fun b => b ≠ quote from Option.some.inj hhead]
      simp only [colon_iff, hkey, true_and]
  · rw [if_neg hkey, if_neg fun h => hkey h.1]

/-- **The first search finds the first tight string.** -/
theorem entry_rest (hk : k.all isAlnum = true) (htail : quote ∉ tail) {t : Bytes}
    (ht : quote ∉ t) : entry k (ascii ":") (pieces (t ++ restText tail ls)) =
      ls.findSome? (Line.tight k) := by
  induction ls generalizing t with
  | nil =>
    have hplain : quote ∉ t ++ restText tail [] := by
      rw [List.mem_append]
      rintro (h | h)
      · exact ht h
      · exact htail ((List.mem_cons.mp h).resolve_left (by decide))
    rw [pieces_plain hplain]
    rfl
  | cons l ls ih =>
    obtain ⟨_, _, _, htrail⟩ := l.blanks
    rw [entry_eq_walk, walk_line hk ht l (lookClosed_rest (blank_plain htrail)), lookClosed_line,
      ← entry_eq_walk, ih l.next_plain, List.findSome?_cons]
    cases l.tight k <;> rfl

/-- Up to a comma or a brace, behind which nothing is looked at. -/
theorem takeWhile_rest (s tail : Bytes) (ls : List Line) :
    (s ++ restText tail ls).takeWhile inBare = s.takeWhile inBare := by
  obtain ⟨b, rest, hr, hb⟩ := restText_head tail ls
  have hstop : inBare b = false := by
    rcases hb with rfl | rfl <;> decide
  rw [hr, List.takeWhile_append, List.takeWhile_cons_of_neg (by rw [hstop]; decide),
    List.append_nil]
  split
  · rename_i h
    exact (List.IsPrefix.eq_of_length (List.takeWhile_prefix inBare) h).symm
  · rfl

/-- The text behind a colon, pieces joined again. -/
theorem lookOpen_colon (s : Bytes) :
    lookOpen quote (ascii ":") (pieces (58 :: s)) = some s := by
  obtain ⟨x, l, hx⟩ := List.exists_cons_of_ne_nil (List.splitOn_ne_nil quote s)
  have hp : pieces (58 :: s) = (58 :: x) :: l := by
    show (58 :: s).splitOn quote = _
    rw [List.splitOn_cons_eq_if_modifyHead, if_neg (by decide), hx]
    rfl
  rw [hp]
  show some (rejoin quote (x :: l)) = some s
  rw [← hx, rejoin_splitOn]

/-- A text that begins with another byte. -/
theorem lookOpen_other {b : UInt8} (hb : b ≠ 58) (hq : b ≠ quote) (s : Bytes) :
    lookOpen quote (ascii ":") (pieces (b :: s)) = none := by
  obtain ⟨x, l, hx⟩ := List.exists_cons_of_ne_nil (List.splitOn_ne_nil quote s)
  have hp : pieces (b :: s) = (b :: x) :: l := by
    show (b :: s).splitOn quote = _
    rw [List.splitOn_cons_eq_if_modifyHead, if_neg (by simpa using hq), hx]
    rfl
  rw [hp]
  refine if_neg ?_
  show ¬ List.isPrefixOf [58] (b :: x) = true
  rw [List.isPrefixOf_iff_prefix, List.cons_prefix_cons]
  exact fun h => hb h.1.symm

theorem blank_ne {t : Bytes} {b : UInt8} (h : (b :: t).all Json.isBlank = true) :
    b ≠ 58 ∧ b ≠ quote := by
  have hb := List.all_eq_true.mp h b List.mem_cons_self
  constructor <;> rintro rfl <;> exact absurd hb (by decide)

theorem lookOpen_rest {t : Bytes} (ht : t.all Json.isBlank = true) :
    lookOpen quote (ascii ":") (pieces (t ++ restText tail ls)) = none := by
  cases t with
  | cons b t =>
    obtain ⟨hb, hq⟩ := blank_ne ht
    exact lookOpen_other hb hq _
  | nil =>
    obtain ⟨b, rest, hr, hb⟩ := restText_head tail ls
    rw [List.nil_append, hr]
    rcases hb with rfl | rfl <;> exact lookOpen_other (by decide) (by decide) _

theorem lookOpen_line (l : Line) : (if lastPiece l.key = k then
      lookOpen quote (ascii ":") (pieces (l.behindKey ++ restText tail ls)) else none).map
        (List.takeWhile inBare) = l.opened k := by
  unfold Line.opened
  by_cases hkey : lastPiece l.key = k
  · rw [if_pos hkey]
    obtain ⟨_, hbefore, _, _⟩ := l.blanks
    unfold Line.behindKey
    cases hb : l.before with
    | nil =>
      rw [if_pos ⟨hkey, rfl⟩]
      show (lookOpen quote (ascii ":") (pieces (58 :: (_ ++ _)))).map _ = _
      rw [lookOpen_colon, Option.map_some, takeWhile_rest]
    | cons b before =>
      rw [hb] at hbefore
      obtain ⟨hb', hq⟩ := blank_ne hbefore
      rw [if_neg fun h => List.cons_ne_nil _ _ h.2]
      show (lookOpen quote (ascii ":") (pieces (b :: (_ ++ _)))).map _ = _
      rw [lookOpen_other hb' hq]
      rfl
  · rw [if_neg hkey, if_neg fun h => hkey h.1]
    rfl

/-- **The second search finds the first open value.** -/
theorem openEntry_rest (hk : k.all isAlnum = true) (htail : quote ∉ tail) {t : Bytes}
    (ht : quote ∉ t) : (openEntry quote k (ascii ":") (pieces (t ++ restText tail ls))).map
      (List.takeWhile inBare) = ls.findSome? (Line.opened k) := by
  induction ls generalizing t with
  | nil =>
    have hplain : quote ∉ t ++ restText tail [] := by
      rw [List.mem_append]
      rintro (h | h)
      · exact ht h
      · exact htail ((List.mem_cons.mp h).resolve_left (by decide))
    rw [pieces_plain hplain]
    rfl
  | cons l ls ih =>
    obtain ⟨_, _, _, htrail⟩ := l.blanks
    rw [openEntry_eq_walk, walk_line hk ht l (lookOpen_rest htrail), ← openEntry_eq_walk,
      List.findSome?_cons, ← ih l.next_plain, ← @lookOpen_line k tail ls l]
    cases hl : (if lastPiece l.key = k then
      lookOpen quote (ascii ":") (pieces (l.behindKey ++ restText tail ls)) else none) <;> rfl

end Search

/-! ## 5. `jsonGet` -/

theorem Frame.blanks (f : Frame) : f.lead.all Json.isBlank = true ∧
    f.inner.all Json.isBlank = true ∧ f.tail.all Json.isBlank = true := by
  have h := f.blank
  simp only [List.all_append, Bool.and_eq_true] at h
  exact ⟨h.1.1, h.1.2, h.2⟩

/-- A walk over the pieces of an object, behind its first quote, goes over its members. -/
theorem walk_render {β : Type} {k : Bytes} {look : List Bytes → Option β}
    (hk : k.all isAlnum = true) (f : Frame)
    (hend : walk k look (pieces (restText f.tail [])) = none) :
    walk k look (pieces f.render).tail = walk k look (pieces ([] ++ restText f.tail f.lines)) := by
  obtain ⟨hlead, hinner, htail⟩ := f.blanks
  have hopen : quote ∉ f.lead ++ 123 :: f.inner := by
    rw [List.mem_append, List.mem_cons]
    rintro (h | h | h)
    · exact blank_plain hlead h
    · exact absurd h (by decide)
    · exact blank_plain hinner h
  unfold Frame.render
  cases hlines : f.lines with
  | nil =>
    have hplain : quote ∉ f.lead ++ 123 :: (f.inner ++ 125 :: f.tail) := by
      rw [show f.lead ++ 123 :: (f.inner ++ 125 :: f.tail) =
        (f.lead ++ 123 :: f.inner) ++ 125 :: f.tail by simp, List.mem_append, List.mem_cons]
      rintro (h | h | h)
      · exact hopen h
      · exact absurd h (by decide)
      · exact blank_plain htail h
    dsimp only
    rw [pieces_plain hplain, List.nil_append, hend]
    rfl
  | cons l ls =>
    have hcomma : quote ∉ ([44] : Bytes) := by decide
    have htext : f.lead ++ 123 :: (f.inner ++ (l.text ++ restText f.tail ls)) =
        (f.lead ++ 123 :: f.inner) ++ (l.text ++ restText f.tail ls) := by simp
    have hrest : [] ++ restText f.tail (l :: ls) = [44] ++ (l.text ++ restText f.tail ls) := rfl
    rw [htext, hrest, Line.pieces_text hopen, Line.pieces_text hcomma, List.tail_cons,
      walk_cons_ne (ne_of_mem hk (b := 44) (by decide) (by simp))]

/-- **`jsonGet` reads what the members show**, for every flat object however it is spaced. -/
theorem jsonGet_render {f : Frame} (hlen : f.render.length ≤ npos) {k : Bytes}
    (hk : k.all isAlnum = true) : jsonGet f.render k = some (shown k f.lines) := by
  obtain ⟨_, _, htail⟩ := f.blanks
  have hkey : quote ∉ k := fun h => absurd (List.all_eq_true.mp hk quote h) (by decide)
  have hnone : quote ∉ ([] : Bytes) := List.not_mem_nil
  have hclosed := @entry_rest k f.tail f.lines hk (blank_plain htail) [] hnone
  have hopened := @openEntry_rest k f.tail f.lines hk (blank_plain htail) [] hnone
  have hend := @entry_rest k f.tail [] hk (blank_plain htail) [] hnone
  have hend' := @openEntry_rest k f.tail [] hk (blank_plain htail) [] hnone
  rw [entry_eq_walk] at hclosed hend
  rw [openEntry_eq_walk] at hopened hend'
  rw [jsonGet_eq hlen hkey, entry_eq_walk, openEntry_eq_walk, walk_render hk f hend,
    walk_render hk f (Option.map_eq_none_iff.mp hend'), hclosed, hopened]
  rfl

/-! ## 6. Compact objects -/

/-- A member of a compact object: its key has letters and digits only, and its value is a string
    without quote and backslash, a number or a boolean. -/
structure Entry where
  key : Bytes
  value : Value
  alnum : key.all isAlnum = true
  plain : match value with
    | .str raw => quote ∉ raw ∧ Json.backslash ∉ raw
    | .lit text => text ≠ [] ∧ text.all isBare = true

/-- The content of a string, or the text of a number or a boolean. -/
def Entry.content (m : Entry) : Bytes :=
  match m.value with
  | .str raw => raw
  | .lit text => text

/-- **The members rendered as compact JSON**, in their order. -/
def compact (ms : List Entry) : Bytes :=
  123 :: ((ascii ",").intercalate
    (ms.map fun m => quote :: (m.key ++ quote :: 58 :: m.value.text)) ++ [125])

/-- Without quotes and backslashes a string is written as it is. -/
theorem isWritten_plain {s : Bytes} (hq : quote ∉ s) (hb : Json.backslash ∉ s) :
    isWritten s = true := by
  fun_induction isWritten s with
  | case1 => rfl
  | case2 b =>
    simp only [List.mem_singleton] at hq hb
    simp [Ne.symm hq, Ne.symm hb]
  | case3 c rest _ => exact absurd List.mem_cons_self hb
  | case4 b c rest hne ih =>
    simp only [Bool.and_eq_true, bne_iff_ne, ne_eq]
    exact ⟨fun e => hq (e ▸ List.mem_cons_self),
      ih (fun h => hq (List.mem_cons_of_mem b h)) fun h => hb (List.mem_cons_of_mem b h)⟩

theorem alnum_not_mem {k : Bytes} (hk : k.all isAlnum = true) {b : UInt8}
    (hb : isAlnum b = false) : b ∉ k := by
  intro h
  rw [List.all_eq_true.mp hk b h] at hb
  cases hb

namespace Entry

/-- The member as a line without blanks. -/
def line (m : Entry) : Line where
  key := m.key
  value := m.value
  front := []
  before := []
  after := []
  trail := []
  written := by
    refine ⟨isWritten_plain (alnum_not_mem m.alnum (by decide))
      (alnum_not_mem m.alnum (by decide)), ?_⟩
    have h := m.plain
    cases hv : m.value with
    | str raw =>
      rw [hv] at h
      exact isWritten_plain h.1 h.2
    | lit text =>
      rw [hv] at h
      exact ok_lit.mpr h
  blank := rfl

theorem lastPiece_key (m : Entry) : lastPiece m.key = m.key := by
  unfold lastPiece
  rw [pieces_plain (alnum_not_mem m.alnum (by decide))]
  rfl

/-- A member shows its content for its own key, and nothing for another one. -/
theorem shows (m : Entry) :
    (m.line.tight m.key).getD ((m.line.opened m.key).getD []) = m.content := by
  have h := m.plain
  have hkey : lastPiece m.line.key = m.key := m.lastPiece_key
  unfold content
  cases hv : m.value with
  | str raw =>
    rw [hv] at h
    have hall : (raw.takeWhile fun b => b ≠ quote) = raw := by
      rw [List.takeWhile_eq_self_iff]
      exact fun b hb => decide_eq_true fun e => h.1 (e ▸ hb)
    have htight : m.line.tight m.key = some raw := by
      unfold Line.tight
      rw [if_pos ⟨hkey, rfl, rfl⟩, show m.line.value = .str raw from hv]
      exact congrArg some hall
    rw [htight]
    rfl
  | lit text =>
    rw [hv] at h
    have hall : text.takeWhile inBare = text := by
      rw [List.takeWhile_eq_self_iff]
      intro b hb
      have hbare := List.all_eq_true.mp h.2 b hb
      unfold inBare
      refine decide_eq_true ⟨?_, ?_⟩ <;> rintro rfl <;> exact absurd hbare (by decide)
    have htight : m.line.tight m.key = none := by
      unfold Line.tight
      rw [show m.line.value = .lit text from hv, ite_self]
    have hopened : m.line.opened m.key = some text := by
      unfold Line.opened
      rw [if_pos ⟨hkey, rfl⟩, show m.line.value = .lit text from hv]
      show some ((text ++ []).takeWhile inBare) = some text
      rw [List.append_nil, hall]
    rw [htight, hopened]
    rfl

theorem silent {m : Entry} {k : Bytes} (h : m.key ≠ k) :
    m.line.tight k = none ∧ m.line.opened k = none := by
  refine Line.silent ?_
  rw [show m.line.key = m.key from rfl, lastPiece_key]
  exact h

end Entry

/-- Only one member answers. -/
theorem findSome?_only {α β : Type} {f : α → Option β} {l : List α} {m : α} (hm : m ∈ l)
    (h : ∀ x ∈ l, x ≠ m → f x = none) : l.findSome? f = f m := by
  cases hf : f m with
  | none =>
    rw [List.findSome?_eq_none_iff]
    intro x hx
    by_cases e : x = m
    · rw [e, hf]
    · exact h x hx e
  | some v =>
    obtain ⟨w, hw⟩ := Option.isSome_iff_exists.mp
      ((List.findSome?_isSome_iff (f := f)).mpr ⟨m, hm, by rw [hf]; rfl⟩)
    obtain ⟨x, hx, hfx⟩ := List.exists_of_findSome?_eq_some hw
    by_cases e : x = m
    · rw [hw, ← hfx, e, hf]
    · rw [h x hx e] at hfx
      cases hfx

/-- The frame whose text is the compact object. -/
def compactFrame (ms : List Entry) : Frame := Frame.bare (ms.map Entry.line)

theorem compact_eq (ms : List Entry) : compact ms = (compactFrame ms).render := by
  have hline : ∀ m : Entry, m.line.text = quote :: (m.key ++ quote :: 58 :: m.value.text) := by
    intro m
    simp [Line.text, Line.behindKey, Entry.line]
  cases ms with
  | nil => rfl
  | cons m ms =>
    suffices h : (ascii ",").intercalate ((m :: ms).map fun m =>
        quote :: (m.key ++ quote :: 58 :: m.value.text)) ++ [125] =
        m.line.text ++ restText [] (ms.map Entry.line) from congrArg (123 :: ·) h
    induction ms generalizing m with
    | nil =>
      rw [hline, List.map_singleton, List.intercalate_singleton]
      rfl
    | cons m' ms ih =>
      rw [List.map_cons, List.map_cons, List.intercalate_cons_cons, hline, List.append_assoc,
        List.append_assoc]
      exact congrArg (fun x => quote :: (m.key ++ quote :: 58 :: m.value.text) ++ (ascii "," ++ x))
        (ih m')

/-- **`jsonGet` is correct on compact flat objects**: it answers the value of the key, and the empty
    string if the key is not a member. -/
theorem jsonGet_compact {ms : List Entry} (hdistinct : (ms.map Entry.key).Nodup) {k : Bytes}
    (hk : k.all isAlnum = true) (hlen : (compact ms).length ≤ npos) :
    (∀ m ∈ ms, m.key = k → jsonGet (compact ms) k = some m.content) ∧
    ((∀ m ∈ ms, m.key ≠ k) → jsonGet (compact ms) k = some []) := by
  rw [compact_eq] at hlen ⊢
  rw [jsonGet_render hlen hk]
  unfold shown
  show (∀ m ∈ ms, m.key = k → some (((ms.map Entry.line).findSome? (Line.tight k)).getD
    (((ms.map Entry.line).findSome? (Line.opened k)).getD [])) = _) ∧ (_ →
    some (((ms.map Entry.line).findSome? (Line.tight k)).getD
      (((ms.map Entry.line).findSome? (Line.opened k)).getD [])) = _)
  rw [List.findSome?_map, List.findSome?_map, Function.comp_def, Function.comp_def]
  refine ⟨fun m hm hkey => ?_, fun hno => ?_⟩
  · subst hkey
    have hother : ∀ x ∈ ms, x ≠ m → x.key ≠ m.key := fun x hx hne e =>
      hne (List.inj_on_of_nodup_map hdistinct hx hm e)
    rw [findSome?_only hm fun x hx hne => (Entry.silent (hother x hx hne)).1,
      findSome?_only hm fun x hx hne => (Entry.silent (hother x hx hne)).2]
    exact congrArg some m.shows
  · rw [List.findSome?_eq_none_iff.mpr fun x hx => (Entry.silent (hno x hx)).1,
      List.findSome?_eq_none_iff.mpr fun x hx => (Entry.silent (hno x hx)).2]
    rfl

/-- A message whose text has the key of another member, a colon, a comma and braces. -/
def noisyMembers : List Entry :=
  [{ key := ascii "text", value := .str (ascii "id:1,\x7bid:2\x7d"),
     alnum := by decide, plain := by decide },
   { key := ascii "id", value := .str (ascii "m1"), alnum := by decide, plain := by decide },
   { key := ascii "seq", value := .lit (ascii "-4.2e1"), alnum := by decide, plain := by decide },
   { key := ascii "isTyping", value := .lit (ascii "true"),
     alnum := by decide, plain := by decide }]

theorem jsonGet_compact_noisy :
    jsonGet (compact noisyMembers) (ascii "id") = some (ascii "m1") ∧
    jsonGet (compact noisyMembers) (ascii "seq") = some (ascii "-4.2e1") ∧
    jsonGet (compact noisyMembers) (ascii "id1") = some [] := by
  have hdistinct : (noisyMembers.map Entry.key).Nodup := by decide
  have hlen : (compact noisyMembers).length ≤ npos := by decide +kernel
  refine ⟨?_, ?_, ?_⟩
  · exact (jsonGet_compact hdistinct (by decide) hlen).1 noisyMembers[1]
      (List.getElem_mem _) rfl
  · exact (jsonGet_compact hdistinct (by decide) hlen).1 noisyMembers[2]
      (List.getElem_mem _) rfl
  · exact (jsonGet_compact hdistinct (by decide) hlen).2 (by decide)

end Viral.Chat
