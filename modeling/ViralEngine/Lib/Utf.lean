/-
  File:      ViralEngine/Lib/Utf.lean
  Subject:   UTF-8, UTF-16 AND MODIFIED UTF-8. No program fact.

  Three ways to write a sequence of Unicode scalar values down. UTF-8 writes scalar by scalar.
  Modified UTF-8 writes a UTF-16 string unit by unit, each unit as UTF-8 would write the number,
  but 0 in two bytes; so a scalar outside the basic plane is written as its two surrogates, in
  six bytes, and no byte of the text is 0.

  * `utf8`, `units`, `utf16`, `unitBytes`, `modifiedUtf8` -- the encodings;
  * `Basic`, `BasicText` -- neither U+0000 nor outside the basic plane;
  * `decodeModified`, `decodeModified_eq_some_iff` -- reading modified UTF-8 back;
  * `cString` -- the bytes in front of the first 0;
  * `modifiedUtf8_eq_utf8_iff`, `cString_utf8_eq_iff` -- where the two encodings of a text agree.
-/
import Mathlib.Algebra.Group.Nat.Defs
import Mathlib.Data.List.Basic
import Mathlib.Data.List.TakeWhile

namespace Viral.Lib.Utf

/-! ## 1. The encodings -/

/-- A sequence of Unicode scalar values in UTF-8. -/
def utf8 (t : List Char) : List UInt8 := t.flatMap String.utf8EncodeChar

/-- The UTF-16 code units of one scalar value. -/
def units (c : Char) : List UInt16 :=
  if c.toNat ≤ 0xffff then [UInt16.ofNat c.toNat]
  else
    [UInt16.ofNat (0xd800 + (c.toNat - 0x10000) / 1024),
     UInt16.ofNat (0xdc00 + (c.toNat - 0x10000) % 1024)]

/-- A text in UTF-16. -/
def utf16 (t : List Char) : List UInt16 := t.flatMap units

/-- A byte behind the first one of a character, with the low six bits of `n`. -/
def tail (n : Nat) : UInt8 := UInt8.ofNat (n % 64 + 0x80)

/-- The two-byte form of a number. -/
def two (n : Nat) : List UInt8 := [UInt8.ofNat (n / 64 % 32 + 0xc0), tail n]

/-- The three-byte form of a number. -/
def three (n : Nat) : List UInt8 :=
  [UInt8.ofNat (n / 4096 % 16 + 0xe0), tail (n / 64), tail n]

/-- The four-byte form of a number. -/
def four (n : Nat) : List UInt8 :=
  [UInt8.ofNat (n / 262144 % 8 + 0xf0), tail (n / 4096), tail (n / 64), tail n]

/-- One UTF-16 code unit in modified UTF-8. -/
def unitBytes (u : UInt16) : List UInt8 :=
  if 0 < u.toNat ∧ u.toNat ≤ 0x7f then [UInt8.ofNat u.toNat]
  else if u.toNat ≤ 0x7ff then two u.toNat
  else three u.toNat

/-- The units of a text in modified UTF-8, each by itself. -/
def modifiedUtf8 (us : List UInt16) : List UInt8 := us.flatMap unitBytes

@[simp] theorem utf8_nil : utf8 [] = [] := rfl

@[simp] theorem utf8_cons (c : Char) (t : List Char) :
    utf8 (c :: t) = String.utf8EncodeChar c ++ utf8 t := List.flatMap_cons

@[simp] theorem utf16_nil : utf16 [] = [] := rfl

@[simp] theorem utf16_cons (c : Char) (t : List Char) : utf16 (c :: t) = units c ++ utf16 t :=
  List.flatMap_cons

@[simp] theorem modifiedUtf8_nil : modifiedUtf8 [] = [] := rfl

@[simp] theorem modifiedUtf8_cons (u : UInt16) (us : List UInt16) :
    modifiedUtf8 (u :: us) = unitBytes u ++ modifiedUtf8 us := List.flatMap_cons

@[simp] theorem modifiedUtf8_append (us vs : List UInt16) :
    modifiedUtf8 (us ++ vs) = modifiedUtf8 us ++ modifiedUtf8 vs := List.flatMap_append

/-- UTF-8 in the forms above. -/
theorem utf8EncodeChar_eq (c : Char) : String.utf8EncodeChar c =
    if c.toNat ≤ 0x7f then [UInt8.ofNat c.toNat]
    else if c.toNat ≤ 0x7ff then two c.toNat
    else if c.toNat ≤ 0xffff then three c.toNat
    else four c.toNat := rfl

/-- The scalar values of a character stop at 0x10FFFF and leave the surrogates out. -/
theorem toNat_scalar (c : Char) :
    c.toNat < 0xd800 ∨ 0xdfff < c.toNat ∧ c.toNat < 0x110000 := c.valid

theorem byte_eq {n : Nat} {a : UInt8} (h : n = a.toNat) : UInt8.ofNat n = a := by
  rw [h, UInt8.ofNat_toNat]

theorem tail_toNat (n : Nat) : (tail n).toNat = n % 64 + 0x80 := by
  simp only [tail, UInt8.toNat_ofNat']
  omega

/-! ## 2. Reading modified UTF-8 -/

/-- `b` may stand behind the first byte of a character. -/
def isTail (b : UInt8) : Prop := 0x80 ≤ b.toNat ∧ b.toNat < 0xc0

instance (b : UInt8) : Decidable (isTail b) := inferInstanceAs (Decidable (_ ∧ _))

/-- Reading modified UTF-8; `none`: the bytes are not modified UTF-8. -/
def decodeModified : List UInt8 → Option (List UInt16)
  | [] => some []
  | a :: rest =>
    if 0 < a.toNat ∧ a.toNat ≤ 0x7f then
      (decodeModified rest).map (UInt16.ofNat a.toNat :: ·)
    else if 0xc0 ≤ a.toNat ∧ a.toNat < 0xe0 then
      match rest with
      | b :: rest =>
        let n := a.toNat % 32 * 64 + b.toNat % 64
        -- 0 is written in two bytes, nothing else below 0x80 is
        if isTail b ∧ (n = 0 ∨ 0x80 ≤ n) then (decodeModified rest).map (UInt16.ofNat n :: ·)
        else none
      | [] => none
    else if 0xe0 ≤ a.toNat ∧ a.toNat < 0xf0 then
      match rest with
      | b :: c :: rest =>
        let n := a.toNat % 16 * 4096 + b.toNat % 64 * 64 + c.toNat % 64
        if isTail b ∧ isTail c ∧ 0x800 ≤ n then
          (decodeModified rest).map (UInt16.ofNat n :: ·)
        else none
      | _ => none
    else none

/-- A unit's bytes in front of others are read as that unit. -/
theorem decodeModified_unit (u : UInt16) (r : List UInt8) :
    decodeModified (unitBytes u ++ r) = (decodeModified r).map (u :: ·) := by
  have hu : u.toNat < 65536 := u.toNat_lt
  have back : ∀ n, n = u.toNat → UInt16.ofNat n = u := by
    intro n h
    rw [h, UInt16.ofNat_toNat]
  unfold unitBytes
  split
  · rename_i h
    rw [List.singleton_append, decodeModified.eq_def]
    have ha : (UInt8.ofNat u.toNat).toNat = u.toNat := by
      rw [UInt8.toNat_ofNat']
      omega
    simp only [ha]
    rw [if_pos h, back _ rfl]
  · split
    · rename_i h0 h
      rw [two, List.cons_append, List.singleton_append, decodeModified.eq_def]
      have ha : (UInt8.ofNat (u.toNat / 64 % 32 + 0xc0)).toNat = u.toNat / 64 + 0xc0 := by
        rw [UInt8.toNat_ofNat']
        omega
      simp only [ha, tail_toNat, isTail]
      rw [if_neg (by omega), if_pos (by omega), if_pos (by omega), back _ (by omega)]
    · rename_i h0 h
      rw [three, List.cons_append, List.cons_append, List.singleton_append, decodeModified.eq_def]
      have ha : (UInt8.ofNat (u.toNat / 4096 % 16 + 0xe0)).toNat = u.toNat / 4096 + 0xe0 := by
        rw [UInt8.toNat_ofNat']
        omega
      simp only [ha, tail_toNat, isTail]
      rw [if_neg (by omega), if_neg (by omega), if_pos (by omega), if_pos (by omega),
        back _ (by omega)]

theorem decodeModified_modifiedUtf8 (us : List UInt16) :
    decodeModified (modifiedUtf8 us) = some us := by
  induction us with
  | nil => rfl
  | cons u us ih => rw [modifiedUtf8_cons, decodeModified_unit, ih, Option.map_some]

/-- What is read is what was written: every form but the one `unitBytes` gives is refused. -/
theorem modifiedUtf8_of_decode {b : List UInt8} {us : List UInt16}
    (h : decodeModified b = some us) : modifiedUtf8 us = b := by
  fun_induction decodeModified b generalizing us with
  | case1 =>
    cases h
    rfl
  | case2 a rest ha ih =>
    obtain ⟨vs, hv, rfl⟩ := Option.map_eq_some_iff.mp h
    have hn : (UInt16.ofNat a.toNat).toNat = a.toNat := by
      rw [UInt16.toNat_ofNat']
      omega
    rw [modifiedUtf8_cons, unitBytes, hn, if_pos ha, ih hv, UInt8.ofNat_toNat,
      List.singleton_append]
  | case3 a hn hlead b rest n hb =>
    rename_i ih
    obtain ⟨vs, hv, rfl⟩ := Option.map_eq_some_iff.mp h
    obtain ⟨⟨hb1, hb2⟩, hrange⟩ := hb
    have hnv : n = a.toNat % 32 * 64 + b.toNat % 64 := rfl
    have hu : (UInt16.ofNat n).toNat = n := by
      rw [UInt16.toNat_ofNat']
      omega
    have h1 : UInt8.ofNat (n / 64 % 32 + 0xc0) = a := byte_eq (by omega)
    have h2 : tail n = b := byte_eq (by omega)
    rw [modifiedUtf8_cons, unitBytes, hu, if_neg (by omega), if_pos (by omega), two, h1, h2,
      ih hv, List.cons_append, List.singleton_append]
  | case4 => cases h
  | case5 => cases h
  | case6 a hn hn' hlead b c rest n hb =>
    rename_i ih
    obtain ⟨vs, hv, rfl⟩ := Option.map_eq_some_iff.mp h
    obtain ⟨⟨hb1, hb2⟩, ⟨hc1, hc2⟩, hrange⟩ := hb
    have hnv : n = a.toNat % 16 * 4096 + b.toNat % 64 * 64 + c.toNat % 64 := rfl
    have hu : (UInt16.ofNat n).toNat = n := by
      rw [UInt16.toNat_ofNat']
      omega
    have h1 : UInt8.ofNat (n / 4096 % 16 + 0xe0) = a := byte_eq (by omega)
    have h2 : tail (n / 64) = b := byte_eq (by omega)
    have h3 : tail n = c := byte_eq (by omega)
    rw [modifiedUtf8_cons, unitBytes, hu, if_neg (by omega), if_neg (by omega), three, h1, h2, h3,
      ih hv, List.cons_append, List.cons_append, List.singleton_append]
  | case7 => cases h
  | case8 => cases h
  | case9 => cases h

theorem decodeModified_eq_some_iff {b : List UInt8} {us : List UInt16} :
    decodeModified b = some us ↔ b = modifiedUtf8 us := by
  constructor
  · intro h
    exact (modifiedUtf8_of_decode h).symm
  · intro h
    rw [h, decodeModified_modifiedUtf8]

/-! ## 3. Where the two encodings agree -/

/-- A scalar value of the basic plane other than U+0000. -/
def Basic (c : Char) : Prop := 0 < c.toNat ∧ c.toNat ≤ 0xffff

/-- A text of such characters. -/
def BasicText (t : List Char) : Prop := ∀ c ∈ t, Basic c

instance (c : Char) : Decidable (Basic c) := inferInstanceAs (Decidable (_ ∧ _))

instance (t : List Char) : Decidable (BasicText t) :=
  decidable_of_iff ((t.all fun c => decide (Basic c)) = true) (by simp [BasicText])

/-- The bytes of a C string: those in front of the first 0. -/
def cString (b : List UInt8) : List UInt8 := b.takeWhile (· ≠ 0)

theorem basicText_cons (c : Char) (t : List Char) :
    BasicText (c :: t) ↔ Basic c ∧ BasicText t := List.forall_mem_cons

theorem units_basic {c : Char} (h : c.toNat ≤ 0xffff) : units c = [UInt16.ofNat c.toNat] :=
  if_pos h

theorem unit_toNat {n : Nat} (h : n ≤ 0xffff) : (UInt16.ofNat n).toNat = n := by
  rw [UInt16.toNat_ofNat']
  omega

/-- In the basic plane, U+0000 apart, the two encodings write the same bytes. -/
theorem modifiedUtf8_units_basic {c : Char} (h : Basic c) :
    modifiedUtf8 (units c) = String.utf8EncodeChar c := by
  obtain ⟨h0, hmax⟩ := h
  rw [units_basic hmax, modifiedUtf8_cons, modifiedUtf8_nil, List.append_nil, unitBytes,
    unit_toNat hmax, utf8EncodeChar_eq]
  by_cases h1 : c.toNat ≤ 0x7f
  · rw [if_pos ⟨h0, h1⟩, if_pos h1]
  · rw [if_neg (by omega), if_neg h1, if_pos hmax]

/-- **U+0000**: two bytes in modified UTF-8, one in UTF-8. -/
theorem modifiedUtf8_units_nul {c : Char} (h : c.toNat = 0) :
    modifiedUtf8 (units c) = [0xc0, 0x80] ∧ String.utf8EncodeChar c = [0] := by
  rw [units_basic (by omega), utf8EncodeChar_eq, h]
  exact ⟨rfl, rfl⟩

/-- The three-byte form of a surrogate, which UTF-8 does not have. -/
theorem three_surrogate {n : Nat} (h1 : 0xd800 ≤ n) (h2 : n < 0xe000) :
    ∃ b, 0xa0 ≤ b.toNat ∧ b.toNat < 0xc0 ∧ three n = [0xed, b, tail n] := by
  have hlead : UInt8.ofNat (n / 4096 % 16 + 0xe0) = 0xed := by
    have h13 : n / 4096 % 16 = 13 := by omega
    rw [h13]
    rfl
  refine ⟨tail (n / 64), ?_, ?_, by rw [three, hlead]⟩
  · rw [tail_toNat]
    omega
  · rw [tail_toNat]
    omega

/-- **Outside the basic plane**: six bytes in modified UTF-8, which start as no UTF-8 does; four
    in UTF-8. -/
theorem modifiedUtf8_units_astral {c : Char} (h : 0xffff < c.toNat) :
    (∃ b r, 0xa0 ≤ b.toNat ∧ b.toNat < 0xc0 ∧ modifiedUtf8 (units c) = 0xed :: b :: r) ∧
      String.utf8EncodeChar c = four c.toNat := by
  have hmax : c.toNat < 0x110000 := by
    have := toNat_scalar c
    omega
  constructor
  · have hu : (UInt16.ofNat (0xd800 + (c.toNat - 0x10000) / 1024)).toNat =
        0xd800 + (c.toNat - 0x10000) / 1024 := unit_toNat (by omega)
    obtain ⟨b, hb1, hb2, hthree⟩ :=
      three_surrogate (n := 0xd800 + (c.toNat - 0x10000) / 1024) (by omega) (by omega)
    have hbytes : ∃ r, modifiedUtf8 (units c) = 0xed :: b :: r := by
      rw [units, if_neg (by omega), modifiedUtf8_cons, unitBytes, hu, if_neg (by omega),
        if_neg (by omega), hthree]
      exact ⟨_, rfl⟩
    obtain ⟨r, hr⟩ := hbytes
    exact ⟨b, r, hb1, hb2, hr⟩
  · rw [utf8EncodeChar_eq, if_neg (by omega), if_neg (by omega), if_neg (by omega)]

theorem four_head (n : Nat) : ∃ b r, four n = b :: r ∧ 0xf0 ≤ b.toNat := by
  refine ⟨_, _, rfl, ?_⟩
  rw [UInt8.toNat_ofNat']
  omega

theorem tail_ne_zero (n : Nat) : tail n ≠ 0 := by
  intro h
  have hn := tail_toNat n
  rw [h] at hn
  simp only [UInt8.toNat_zero] at hn
  omega

theorem byte_ne_zero {n : Nat} (h0 : 0 < n) (h : n < 256) : UInt8.ofNat n ≠ 0 := by
  intro hz
  have hn : (UInt8.ofNat n).toNat = n := by
    rw [UInt8.toNat_ofNat']
    omega
  rw [hz, UInt8.toNat_zero] at hn
  omega

/-- No byte of modified UTF-8 is 0. -/
theorem unitBytes_ne_zero (u : UInt16) : ∀ b ∈ unitBytes u, b ≠ 0 := by
  intro b hb
  unfold unitBytes at hb
  split at hb
  · rename_i h
    rw [List.mem_singleton.mp hb]
    exact byte_ne_zero h.1 (by omega)
  · split at hb
    · simp only [two, List.mem_cons, List.not_mem_nil, or_false] at hb
      obtain rfl | rfl := hb
      · exact byte_ne_zero (by omega) (by omega)
      · exact tail_ne_zero _
    · simp only [three, List.mem_cons, List.not_mem_nil, or_false] at hb
      obtain rfl | rfl | rfl := hb
      · exact byte_ne_zero (by omega) (by omega)
      · exact tail_ne_zero _
      · exact tail_ne_zero _

theorem modifiedUtf8_ne_zero (us : List UInt16) : ∀ b ∈ modifiedUtf8 us, b ≠ 0 := by
  intro b hb
  obtain ⟨u, -, hu⟩ := List.mem_flatMap.mp hb
  exact unitBytes_ne_zero u b hu

/-- Modified UTF-8 reaches a C string whole. -/
theorem cString_modifiedUtf8 (us : List UInt16) : cString (modifiedUtf8 us) = modifiedUtf8 us := by
  unfold cString
  rw [List.takeWhile_eq_self_iff]
  intro b hb
  exact decide_eq_true (modifiedUtf8_ne_zero us b hb)

/-- Behind a character that the encodings write alike, a C string goes on. -/
theorem cString_basic {c : Char} (h : Basic c) (r : List UInt8) :
    cString (String.utf8EncodeChar c ++ r) = String.utf8EncodeChar c ++ cString r := by
  unfold cString
  refine List.takeWhile_append_of_pos ?_
  intro b hb
  rw [← modifiedUtf8_units_basic h] at hb
  exact decide_eq_true (modifiedUtf8_ne_zero _ b hb)

/-- Any other character starts with different bytes in the two encodings. -/
theorem heads_differ {c : Char} (h : ¬ Basic c) : ∃ b r a r',
    modifiedUtf8 (units c) = b :: r ∧ String.utf8EncodeChar c = a :: r' ∧ a ≠ b := by
  by_cases h0 : c.toNat = 0
  · obtain ⟨hmod, hutf⟩ := modifiedUtf8_units_nul h0
    exact ⟨_, _, _, _, hmod, hutf, by decide⟩
  · have hbig : 0xffff < c.toNat := by
      by_contra hle
      exact h ⟨by omega, by omega⟩
    obtain ⟨⟨b, r, -, -, hmod⟩, hfour⟩ := modifiedUtf8_units_astral hbig
    obtain ⟨a, r', ha, hlead⟩ := four_head c.toNat
    refine ⟨_, _, _, _, hmod, hfour.trans ha, ?_⟩
    intro heq
    rw [heq] at hlead
    exact absurd hlead (by decide)

/-- **Modified UTF-8 is UTF-8 exactly on basic text.** -/
theorem modifiedUtf8_eq_utf8_iff (t : List Char) :
    modifiedUtf8 (utf16 t) = utf8 t ↔ BasicText t := by
  induction t with
  | nil => exact iff_of_true rfl (by simp [BasicText])
  | cons c t ih =>
    rw [utf16_cons, modifiedUtf8_append, utf8_cons, basicText_cons, ← ih]
    by_cases h : Basic c
    · rw [modifiedUtf8_units_basic h, List.append_cancel_left_eq]
      exact ⟨fun hr => ⟨h, hr⟩, fun hr => hr.2⟩
    · refine iff_of_false ?_ (fun hb => h hb.1)
      obtain ⟨b, r, a, r', hmod, hutf, hab⟩ := heads_differ h
      intro heq
      rw [hmod, hutf] at heq
      exact hab (List.cons.inj heq).1.symm

/-- **A C string of UTF-8 is the text's modified UTF-8 exactly on basic text.** -/
theorem cString_utf8_eq_iff (t : List Char) :
    cString (utf8 t) = modifiedUtf8 (utf16 t) ↔ BasicText t := by
  induction t with
  | nil => exact iff_of_true rfl (by simp [BasicText])
  | cons c t ih =>
    rw [utf16_cons, modifiedUtf8_append, utf8_cons, basicText_cons, ← ih]
    by_cases h : Basic c
    · rw [modifiedUtf8_units_basic h, cString_basic h, List.append_cancel_left_eq]
      exact ⟨fun hr => ⟨h, hr⟩, fun hr => hr.2⟩
    · refine iff_of_false ?_ (fun hb => h hb.1)
      obtain ⟨b, r, a, r', hmod, hutf, hab⟩ := heads_differ h
      intro heq
      rw [hmod, hutf, List.cons_append, List.cons_append, cString, List.takeWhile_cons] at heq
      split at heq
      · exact hab (List.cons.inj heq).1
      · cases heq

end Viral.Lib.Utf
