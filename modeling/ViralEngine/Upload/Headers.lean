/-
  File:      ViralEngine/Upload/Headers.lean
  Subject:   A HEADER FIELD OF AN ANSWER
             (ctus-main/lib/ctus/src/ctus/TusClient.cpp, `extractHeaderValue`).

  The function looks for the lines by their places in the whole text: from `pos` on it searches the
  next line end, and the next colon, which may lie in a later line. What it reads is what stands in
  the lines.

  * `toLower`, `trim`, `fieldAt`, `extractFrom`, `extractHeaderValue` -- the function;
  * `Field`, `Line`, `render` -- the lines of a header, as they are sent;
  * `extract_render` -- the first field of that name, whatever the case, or nothing.
-/
import ViralEngine.Chat.RoundTrip

namespace Viral.Upload

open Viral.Chat (Bytes ascii findFrom findFrom_cons findFrom_nil findFrom_drop)

/-! ## 1. The function -/

/-- A line end. -/
def crlf : Bytes := [13, 10]

/-- What stands between a name and its value. -/
def colon : UInt8 := 58

/-- `std::tolower` of each byte. -/
def toLower (s : Bytes) : Bytes := s.map fun b => if 65 ≤ b ∧ b ≤ 90 then b + 32 else b

/-- A blank or a tab. -/
def isBlank (b : UInt8) : Bool := b == 32 || b == 9

/-- The lambda `trim`: nothing, if there is nothing but blanks. -/
def trim (s : Bytes) : Bytes := ((s.dropWhile isBlank).reverse.dropWhile isBlank).reverse

/-- The value of the line between `pos` and `lineEnd`, if it is of the key. -/
def fieldAt (header keyLower : Bytes) (pos lineEnd : Nat) : Option Bytes :=
  match findFrom header [colon] pos with
  | some colonPos =>
    if colonPos < lineEnd then
      let lineKey := trim ((header.drop pos).take (colonPos - pos))
      let lineValue := trim ((header.drop (colonPos + 1)).take (lineEnd - colonPos - 1))
      if toLower lineKey = keyLower then some lineValue else none
    else none
  | none => none

/-- The loop, with `fuel` for its rounds. -/
def extractFrom (header keyLower : Bytes) : Nat → Nat → Bytes
  | 0, _ => []
  | fuel + 1, pos =>
    if pos < header.length then
      let lineEnd := (findFrom header crlf pos).getD header.length
      match fieldAt header keyLower pos lineEnd with
      | some value => value
      | none => extractFrom header keyLower fuel (lineEnd + 2)
    else []

/-- `extractHeaderValue`. Each round gets past a line end. -/
def extractHeaderValue (header key : Bytes) : Bytes :=
  extractFrom header (toLower key) (header.length + 1) 0

/-! ## 2. Lines -/

/-- A header field: a name without a colon, and neither of them with a line end or blanks around
    it. -/
structure Field where
  name : Bytes
  value : Bytes
  noColon : colon ∉ name
  nameLine : 13 ∉ name
  valueLine : 13 ∉ value
  nameTrim : trim name = name
  valueTrim : trim value = value

/-- A line of a header: a field, or one without a colon, such as the status line and the empty line
    behind the fields. -/
inductive Line where
  | field (f : Field)
  | other (text : Bytes) (noColon : colon ∉ text) (noLine : 13 ∉ text)

namespace Line

/-- The line as it is sent. -/
def text : Line → Bytes
  | .field f => f.name ++ colon :: 32 :: f.value
  | .other text _ _ => text

/-- The field, if the line is one. -/
def field? : Line → Option Field
  | .field f => some f
  | .other _ _ _ => none

end Line

/-- The fields among the lines. -/
def fields : List Line → List Field
  | [] => []
  | .field f :: ls => f :: fields ls
  | .other _ _ _ :: ls => fields ls

/-- The lines as they are sent. -/
def render : List Line → Bytes
  | [] => []
  | l :: ls => l.text ++ crlf ++ render ls

/-- The value of the first field of a name, in small letters. -/
def valueOf (keyLower : Bytes) (ls : List Line) : Bytes :=
  ((fields ls).find? fun f => toLower f.name == keyLower).elim [] Field.value

/-! ## 3. What is found -/

/-- The next line end. -/
theorem findFrom_crlf {l : Bytes} (h : 13 ∉ l) (r : Bytes) :
    findFrom (l ++ crlf ++ r) crlf 0 = some l.length := by
  induction l with
  | nil =>
    show findFrom (13 :: 10 :: r) crlf 0 = some 0
    rw [findFrom_cons, if_pos]
    exact List.isPrefixOf_iff_prefix.mpr (List.prefix_append crlf r)
  | cons a l ih =>
    rw [List.mem_cons, not_or] at h
    rw [List.cons_append, List.cons_append, findFrom_cons, if_neg, ih h.2]
    · rfl
    · intro hpre
      exact h.1 (List.cons_prefix_cons.mp (List.isPrefixOf_iff_prefix.mp hpre)).1

/-- The colon of a field. -/
theorem findFrom_colon {name : Bytes} (h : colon ∉ name) (r : Bytes) :
    findFrom (name ++ colon :: r) [colon] 0 = some name.length := by
  induction name with
  | nil =>
    rw [List.nil_append, findFrom_cons, if_pos]
    · rfl
    · exact List.isPrefixOf_iff_prefix.mpr (List.prefix_append [colon] r)
  | cons a name ih =>
    rw [List.mem_cons, not_or] at h
    rw [List.cons_append, findFrom_cons, if_neg, ih h.2]
    · rfl
    · intro hpre
      exact h.1 (List.cons_prefix_cons.mp (List.isPrefixOf_iff_prefix.mp hpre)).1

/-- No colon before there is one. -/
theorem findFrom_later {l r : Bytes} (h : colon ∉ l) {i : Nat}
    (hi : findFrom (l ++ r) [colon] 0 = some i) : l.length ≤ i := by
  induction l generalizing i with
  | nil => exact Nat.zero_le i
  | cons a l ih =>
    rw [List.mem_cons, not_or] at h
    rw [List.cons_append, findFrom_cons, if_neg] at hi
    · obtain ⟨j, hj, rfl⟩ := Option.map_eq_some_iff.mp hi
      exact Nat.succ_le_succ (ih h.2 hj)
    · intro hpre
      exact h.1 (List.cons_prefix_cons.mp (List.isPrefixOf_iff_prefix.mp hpre)).1

theorem trim_blank (s : Bytes) : trim (32 :: s) = trim s := rfl

theorem Line.noLine (l : Line) : 13 ∉ l.text := by
  cases l with
  | field f =>
    simp only [Line.text, List.mem_append, List.mem_cons, not_or]
    exact ⟨f.nameLine, by decide, by decide, f.valueLine⟩
  | other text _ h => exact h

section Found

variable {header keyLower : Bytes} {pos : Nat} {l : Line} {r : Bytes}

/-- **The line at a place.** -/
theorem fieldAt_line (hpos : pos ≤ header.length) (h : header.drop pos = l.text ++ crlf ++ r) :
    fieldAt header keyLower pos (pos + l.text.length) =
      l.field?.bind fun f => if toLower f.name = keyLower then some f.value else none := by
  unfold fieldAt
  rw [findFrom_drop hpos, h]
  cases l with
  | field f =>
    have hcolon : findFrom ((Line.field f).text ++ crlf ++ r) [colon] 0 = some f.name.length := by
      simp only [Line.text, List.append_assoc, List.cons_append]
      exact findFrom_colon f.noColon _
    have hkey : ((Line.field f).text ++ crlf ++ r).take f.name.length = f.name := by
      simp only [Line.text, List.append_assoc, List.cons_append]
      exact List.take_left
    have hvalue : header.drop (pos + f.name.length + 1) = 32 :: (f.value ++ (crlf ++ r)) := by
      rw [Nat.add_assoc, ← List.drop_drop, h]
      simp [Line.text, List.drop_append]
    have hlen : (Line.field f).text.length = f.name.length + 2 + f.value.length := by
      simp only [Line.text, List.length_append, List.length_cons]
      omega
    have hwidth : pos + (f.name.length + 2 + f.value.length) - (pos + f.name.length) - 1 =
        f.value.length + 1 := by omega
    rw [hcolon]
    simp only [Option.map_some, Nat.add_sub_cancel_left, hkey, hlen, hvalue, hwidth,
      List.take_succ_cons, List.take_left, trim_blank, f.nameTrim, f.valueTrim, Line.field?,
      Option.bind_some]
    rw [if_pos (by omega)]
  | other text hnoColon hnoLine =>
    simp only [Line.text, Line.field?, Option.bind_none, List.append_assoc]
    cases hf : findFrom (text ++ (crlf ++ r)) [colon] 0 with
    | none => rfl
    | some i =>
      have hle := findFrom_later hnoColon hf
      exact if_neg (Nat.not_lt.mpr (Nat.add_le_add_left hle pos))

/-- **The loop walks over the lines.** -/
theorem extractFrom_lines {ls : List Line} {fuel : Nat} (hpos : pos ≤ header.length)
    (h : header.drop pos = render ls) (hfuel : header.length < pos + fuel) :
    extractFrom header keyLower fuel pos = valueOf keyLower ls := by
  induction ls generalizing pos fuel with
  | nil =>
    have hend : header.length ≤ pos := List.drop_eq_nil_iff.mp h
    cases fuel with
    | zero => rfl
    | succ fuel =>
      rw [extractFrom, if_neg (by omega)]
      rfl
  | cons l ls ih =>
    have hlen : header.length = pos + (l.text.length + 2 + (render ls).length) := by
      have := congrArg List.length h
      simp only [render, crlf, List.length_drop, List.length_append, List.length_cons,
        List.length_nil] at this
      omega
    have hlineEnd : (findFrom header crlf pos).getD header.length = pos + l.text.length := by
      rw [findFrom_drop hpos, h, render, findFrom_crlf l.noLine]
      rfl
    have hnext : header.drop (pos + l.text.length + 2) = render ls := by
      rw [Nat.add_assoc, ← List.drop_drop, h, render]
      simp [crlf, List.drop_append]
    have hrest : extractFrom header keyLower (fuel - 1) (pos + l.text.length + 2) =
        valueOf keyLower ls := ih (by omega) hnext (by omega)
    cases fuel with
    | zero => omega
    | succ fuel =>
      rw [extractFrom, if_pos (by omega)]
      simp only [hlineEnd, fieldAt_line hpos h]
      cases l with
      | field f =>
        simp only [Line.field?, Option.bind_some, valueOf, fields, List.find?_cons]
        by_cases hkey : toLower f.name = keyLower
        · simp [hkey]
        · rw [if_neg hkey, beq_eq_false_iff_ne.mpr hkey]
          exact hrest
      | other text hc hl => exact hrest

end Found

/-- **The first field of the name** is found in every header, whatever the case of the letters, and
    nothing where there is none, whatever status lines, empty lines and other fields stand around
    it. -/
theorem extract_render (ls : List Line) (key : Bytes) :
    extractHeaderValue (render ls) key = valueOf (toLower key) ls :=
  extractFrom_lines (Nat.zero_le _) rfl (by omega)

/-- An answer to a POST: the status line, a field, the empty line. -/
def created : List Line :=
  [.other (ascii "HTTP/1.1 201 Created") (by decide) (by decide),
    .field ⟨ascii "location", ascii "/files/7", by decide, by decide, by decide, by decide,
      by decide⟩,
    .other [] (by decide) (by decide)]

example : render created = ascii "HTTP/1.1 201 Created\r\nlocation: /files/7\r\n\r\n" := by
  decide +kernel

example : extractHeaderValue (render created) (ascii "Location") = ascii "/files/7" := by
  decide +kernel

end Viral.Upload
