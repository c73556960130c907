/-
  File:      ViralEngine/Chat/Validator.lean
  Subject:   WHAT THE UTF-8 VALIDATOR ACCEPTS
             (`validateUtf8` of IXWebSocket, ixwebsocket/IXUtf8Validator.h, over `Frames`).

  The table of the validator is read once: `decodeNextByte_start` says what the first byte of a
  character leads to, `decodeNextByte_inside` what the others do. Everything else goes through
  these two.

  * `validateUtf8_iff` -- the validator accepts UTF-8 and nothing else;
  * `decodeFrom_field` -- an ASCII text behind a field is a border: both sides are judged alone;
  * `buildMessageJson_valid_iff` -- a message frame is valid iff every string in it is;
  * `validateUtf8_modified_iff` -- modified UTF-8 passes exactly on basic text.
-/
import ViralEngine.Chat.RoundTrip
import ViralEngine.Lib.Utf

namespace Viral.Chat

open Viral.Lib.Utf

/-! ## 1. The table -/

/-- The class of a byte. -/
def classOf (b : Nat) : Nat :=
  if b ≤ 0x7f then 0
  else if b ≤ 0x8f then 1
  else if b ≤ 0x9f then 9
  else if b ≤ 0xbf then 7
  else if b ≤ 0xc1 then 8
  else if b ≤ 0xdf then 2
  else if b = 0xe0 then 10
  else if b = 0xed then 4
  else if b ≤ 0xef then 3
  else if b = 0xf0 then 11
  else if b ≤ 0xf3 then 6
  else if b = 0xf4 then 5
  else 8

/-- The state behind each of the twelve classes. -/
def moves : Nat → List Nat
  | 0 => [0, 1, 2, 3, 5, 8, 7, 1, 1, 1, 4, 6]
  | 2 => [1, 0, 1, 1, 1, 1, 1, 0, 1, 0, 1, 1]
  | 3 => [1, 2, 1, 1, 1, 1, 1, 2, 1, 2, 1, 1]
  | 4 => [1, 1, 1, 1, 1, 1, 1, 2, 1, 1, 1, 1]
  | 5 => [1, 2, 1, 1, 1, 1, 1, 1, 1, 2, 1, 1]
  | 6 => [1, 1, 1, 1, 1, 1, 1, 3, 1, 3, 1, 1]
  | 7 => [1, 3, 1, 1, 1, 1, 1, 3, 1, 3, 1, 1]
  | 8 => [1, 3, 1, 1, 1, 1, 1, 1, 1, 1, 1, 1]
  | _ => [1, 1, 1, 1, 1, 1, 1, 1, 1, 1, 1, 1]

/-- The table of the validator is these two. -/
theorem table_rows : utf8d.length = 400 ∧ utf8d.take 256 = (List.range 256).map classOf ∧
    ∀ state < 9, (utf8d.drop (256 + state * 16)).take 12 = moves state := by
  decide +kernel

theorem utf8d_class (b : UInt8) : utf8d.getD b.toNat utf8Reject = classOf b.toNat := by
  have hb := b.toNat_lt
  have h : (utf8d.take 256)[b.toNat]? = some (classOf b.toNat) := by
    rw [table_rows.2.1, List.getElem?_map, List.getElem?_range (by omega), Option.map_some]
  rw [List.getElem?_take_of_lt (by omega)] at h
  rw [List.getD_eq_getElem?_getD, h, Option.getD_some]

theorem utf8d_move {state type : Nat} (hs : state < 9) (ht : type < 12) :
    utf8d.getD (256 + state * 16 + type) utf8Reject = (moves state).getD type utf8Reject := by
  rw [← table_rows.2.2 state hs, List.getD_eq_getElem?_getD, List.getD_eq_getElem?_getD,
    List.getElem?_take_of_lt ht, List.getElem?_drop]

/-- The state behind the first byte of a character. -/
def leads (b : Nat) : Nat :=
  if b ≤ 0x7f then utf8Accept
  else if b < 0xc2 then utf8Reject
  else if b ≤ 0xdf then 2
  else if b = 0xe0 then 4
  else if b = 0xed then 5
  else if b ≤ 0xef then 3
  else if b = 0xf0 then 6
  else if b ≤ 0xf3 then 7
  else if b = 0xf4 then 8
  else utf8Reject

/-- The least and the greatest byte a state inside a character takes, and the state behind it. -/
def expects : Nat → Nat × Nat × Nat
  | 2 => (0x80, 0xbf, utf8Accept)
  | 3 => (0x80, 0xbf, 2)
  | 4 => (0xa0, 0xbf, 2)
  | 5 => (0x80, 0x9f, 2)
  | 6 => (0x90, 0xbf, 3)
  | 7 => (0x80, 0xbf, 3)
  | 8 => (0x80, 0x8f, 3)
  | _ => (1, 0, utf8Reject)

/-- What the two tables come to, for all bytes. -/
theorem moves_spec :
    (∀ n < 256, classOf n < 12 ∧ (moves 0).getD (classOf n) utf8Reject = leads n) ∧
    ∀ state < 9, 0 < state → ∀ n < 256, (moves state).getD (classOf n) utf8Reject =
      if (expects state).1 ≤ n ∧ n ≤ (expects state).2.1 then (expects state).2.2
      else utf8Reject := by
  decide +kernel

/-- **One byte**, from a state of the table. -/
theorem decodeNextByte_eq {state : Nat} (hs : state < 9) (b : UInt8) :
    decodeNextByte state b = (moves state).getD (classOf b.toNat) utf8Reject := by
  unfold decodeNextByte
  rw [utf8d_class b]
  exact utf8d_move hs (moves_spec.1 b.toNat b.toNat_lt).1

/-- From a state the table does not have nothing is accepted. -/
theorem decodeNextByte_out {state : Nat} (hs : 9 ≤ state) (b : UInt8) :
    decodeNextByte state b = utf8Reject := by
  have hout : ∀ n, 400 ≤ n → utf8d.getD n utf8Reject = utf8Reject := by
    intro n hn
    rw [List.getD_eq_getElem?_getD, List.getElem?_eq_none (table_rows.1.trans_le hn), Option.getD_none]
  exact hout _ (by omega)

/-- **The first byte of a character.** -/
theorem decodeNextByte_start (b : UInt8) : decodeNextByte utf8Accept b = leads b.toNat :=
  (decodeNextByte_eq (by decide) b).trans (moves_spec.1 b.toNat b.toNat_lt).2

/-- **A byte inside a character.** -/
theorem decodeNextByte_inside {state : Nat} (h0 : 0 < state) (b : UInt8) :
    decodeNextByte state b =
      if (expects state).1 ≤ b.toNat ∧ b.toNat ≤ (expects state).2.1 then (expects state).2.2
      else utf8Reject := by
  by_cases hs : state < 9
  · exact (decodeNextByte_eq hs b).trans (moves_spec.2 state hs h0 b.toNat b.toNat_lt)
  · have hnone : expects state = (1, 0, utf8Reject) := by
      unfold expects
      split
      all_goals first | omega | rfl
    rw [decodeNextByte_out (by omega), hnone]
    split
    · rfl
    · rfl

/-! The first bytes of the four forms. -/

theorem leads_one {n : Nat} (h : n ≤ 0x7f) : leads n = utf8Accept := by rw [leads, if_pos h]

theorem leads_two {n : Nat} (h : 0xc2 ≤ n ∧ n ≤ 0xdf) : leads n = 2 := by
  rw [leads, if_neg (by omega), if_neg (by omega), if_pos h.2]

/-- Behind a first byte of three: one more, and the second may be what leaves the short forms and
    the surrogates out. -/
theorem leads_three {n : Nat} (h : 0xe0 ≤ n ∧ n ≤ 0xef) :
    0 < leads n ∧ leads n ≠ utf8Reject ∧ (expects (leads n)).2.2 = 2 ∧
    ∀ b, (expects (leads n)).1 ≤ b ∧ b ≤ (expects (leads n)).2.1 ↔
      (0x80 ≤ b ∧ b < 0xc0) ∧ (n = 0xe0 → 0xa0 ≤ b) ∧ (n = 0xed → b ≤ 0x9f) := by
  by_cases h4 : n = 0xe0
  · have hl : leads n = 4 := by rw [h4]; rfl
    rw [hl]
    exact ⟨by decide, by decide, rfl, fun b => by simp only [expects]; omega⟩
  · by_cases h5 : n = 0xed
    · have hl : leads n = 5 := by rw [h5]; rfl
      rw [hl]
      exact ⟨by decide, by decide, rfl, fun b => by simp only [expects]; omega⟩
    · have hl : leads n = 3 := by
        rw [leads, if_neg (by omega), if_neg (by omega), if_neg (by omega), if_neg h4, if_neg h5,
          if_pos h.2]
      rw [hl]
      exact ⟨by decide, by decide, rfl, fun b => by simp only [expects]; omega⟩

/-- Behind a first byte of four: two more, and the second may be what leaves the short forms and
    the numbers from 0x110000 out. -/
theorem leads_four {n : Nat} (h : 0xf0 ≤ n ∧ n ≤ 0xf4) :
    0 < leads n ∧ leads n ≠ utf8Reject ∧ (expects (leads n)).2.2 = 3 ∧
    ∀ b, (expects (leads n)).1 ≤ b ∧ b ≤ (expects (leads n)).2.1 ↔
      (0x80 ≤ b ∧ b < 0xc0) ∧ (n = 0xf0 → 0x90 ≤ b) ∧ (n = 0xf4 → b ≤ 0x8f) := by
  by_cases h6 : n = 0xf0
  · have hl : leads n = 6 := by rw [h6]; rfl
    rw [hl]
    exact ⟨by decide, by decide, rfl, fun b => by simp only [expects]; omega⟩
  · by_cases h8 : n = 0xf4
    · have hl : leads n = 8 := by rw [h8]; rfl
      rw [hl]
      exact ⟨by decide, by decide, rfl, fun b => by simp only [expects]; omega⟩
    · have hl : leads n = 7 := by
        rw [leads, if_neg (by omega), if_neg (by omega), if_neg (by omega), if_neg (by omega),
          if_neg (by omega), if_neg (by omega), if_neg h6, if_pos (by omega)]
      rw [hl]
      exact ⟨by decide, by decide, rfl, fun b => by simp only [expects]; omega⟩

theorem leads_forms {n : Nat} (h : leads n ≠ utf8Reject) :
    n ≤ 0x7f ∨ (0xc2 ≤ n ∧ n ≤ 0xdf) ∨ (0xe0 ≤ n ∧ n ≤ 0xef) ∨ (0xf0 ≤ n ∧ n ≤ 0xf4) := by
  by_contra hno
  refine h ?_
  by_cases hc2 : n < 0xc2
  · rw [leads, if_neg (by omega), if_pos hc2]
  · rw [leads, if_neg (by omega), if_neg hc2, if_neg (by omega), if_neg (by omega),
      if_neg (by omega), if_neg (by omega), if_neg (by omega), if_neg (by omega),
      if_neg (by omega)]

/-! ## 2. Runs -/

theorem decodeFrom_append (state : Nat) (a b : Bytes) :
    decodeFrom state (a ++ b) = (decodeFrom state a).bind fun state => decodeFrom state b := by
  induction a generalizing state with
  | nil => rfl
  | cons x a ih =>
    rw [List.cons_append, decodeFrom, decodeFrom]
    split
    · rfl
    · exact ih _

theorem validateUtf8_eq_true {s : Bytes} :
    validateUtf8 s = true ↔ decodeFrom utf8Accept s = some utf8Accept := beq_iff_eq

/-- A byte accepted between characters, whatever is behind it. -/
theorem decodeFrom_start (b : UInt8) (r : Bytes) : decodeFrom utf8Accept (b :: r) =
    if leads b.toNat = utf8Reject then none else decodeFrom (leads b.toNat) r := by
  rw [decodeFrom, decodeNextByte_start]

/-- Inside a character the decoder needs a byte of the state's range. -/
theorem decodeFrom_inside {state : Nat} (h0 : 0 < state)
    (hn : (expects state).2.2 ≠ utf8Reject) (b : UInt8) (r : Bytes) :
    decodeFrom state (b :: r) =
      if (expects state).1 ≤ b.toNat ∧ b.toNat ≤ (expects state).2.1 then
        decodeFrom (expects state).2.2 r
      else none := by
  rw [decodeFrom, decodeNextByte_inside h0]
  split
  · rfl
  · rw [if_pos rfl]

theorem accept_inside_iff {state : Nat} (h0 : 0 < state)
    (hn : (expects state).2.2 ≠ utf8Reject) (s : Bytes) :
    decodeFrom state s = some utf8Accept ↔
      ∃ b r, s = b :: r ∧ (expects state).1 ≤ b.toNat ∧ b.toNat ≤ (expects state).2.1 ∧
        decodeFrom (expects state).2.2 r = some utf8Accept := by
  cases s with
  | nil =>
    refine iff_of_false ?_ (by simp)
    intro h
    have : state = utf8Accept := Option.some.inj h
    simp only [utf8Accept] at this
    omega
  | cons b r =>
    rw [decodeFrom_inside h0 hn]
    constructor
    · intro h
      split at h
      · rename_i hb
        exact ⟨b, r, rfl, hb.1, hb.2, h⟩
      · cases h
    · intro h
      obtain ⟨b', r', heq, h1, h2, h⟩ := h
      cases heq
      rw [if_pos ⟨h1, h2⟩, h]

/-! ## 3. The validator accepts UTF-8 and nothing else -/

theorem decodeFrom_tail {state : Nat} (h0 : 0 < state)
    (hn : (expects state).2.2 ≠ utf8Reject) {n : Nat} (h1 : (expects state).1 ≤ n % 64 + 0x80)
    (h2 : n % 64 + 0x80 ≤ (expects state).2.1) (r : Bytes) :
    decodeFrom state (tail n :: r) = decodeFrom (expects state).2.2 r := by
  rw [decodeFrom_inside h0 hn, tail_toNat, if_pos ⟨h1, h2⟩]

/-- The last bytes of a character, one or two. -/
theorem decodeFrom_tail_one (n : Nat) (r : Bytes) :
    decodeFrom 2 (tail n :: r) = decodeFrom utf8Accept r :=
  decodeFrom_tail (by decide) (by decide) (by simp only [expects]; omega)
    (by simp only [expects]; omega) r

theorem decodeFrom_tail_two (m n : Nat) (r : Bytes) :
    decodeFrom 3 (tail m :: tail n :: r) = decodeFrom utf8Accept r :=
  (decodeFrom_tail (by decide) (by decide) (by simp only [expects]; omega)
    (by simp only [expects]; omega) _).trans (decodeFrom_tail_one n r)

theorem decodeFrom_lead {n : Nat} (hn : n < 256) (hl : leads n ≠ utf8Reject) (r : Bytes) :
    decodeFrom utf8Accept (UInt8.ofNat n :: r) = decodeFrom (leads n) r := by
  have h : (UInt8.ofNat n).toNat = n := by
    rw [UInt8.toNat_ofNat']
    omega
  rw [decodeFrom_start, h, if_neg hl]

/-- The two-byte form of a number from 0x80. -/
theorem decodeFrom_two {n : Nat} (h1 : 0x80 ≤ n) (h2 : n ≤ 0x7ff) (r : Bytes) :
    decodeFrom utf8Accept (two n ++ r) = decodeFrom utf8Accept r := by
  have hl : leads (n / 64 % 32 + 0xc0) = 2 := leads_two (by omega)
  rw [two, List.cons_append, decodeFrom_lead (by omega) (by rw [hl]; decide), hl]
  exact decodeFrom_tail_one n r

/-- The three-byte form of a number from 0x800, surrogates apart. -/
theorem decodeFrom_three {n : Nat} (h1 : 0x800 ≤ n) (h2 : n ≤ 0xffff)
    (hs : n < 0xd800 ∨ 0xdfff < n) (r : Bytes) :
    decodeFrom utf8Accept (three n ++ r) = decodeFrom utf8Accept r := by
  obtain ⟨h0, hrej, hnext, hrange⟩ := leads_three (n := n / 4096 % 16 + 0xe0) (by omega)
  obtain ⟨hlo, hhi⟩ := (hrange (n / 64 % 64 + 0x80)).mpr ⟨by omega, by omega, by omega⟩
  rw [three, List.cons_append, decodeFrom_lead (by omega) hrej, List.cons_append,
    decodeFrom_tail h0 (by rw [hnext]; decide) hlo hhi, hnext]
  exact decodeFrom_tail_one n r

/-- The four-byte form of a number outside the basic plane. -/
theorem decodeFrom_four {n : Nat} (h1 : 0xffff < n) (h2 : n < 0x110000) (r : Bytes) :
    decodeFrom utf8Accept (four n ++ r) = decodeFrom utf8Accept r := by
  obtain ⟨h0, hrej, hnext, hrange⟩ := leads_four (n := n / 262144 % 8 + 0xf0) (by omega)
  obtain ⟨hlo, hhi⟩ := (hrange (n / 4096 % 64 + 0x80)).mpr ⟨by omega, by omega, by omega⟩
  rw [four, List.cons_append, decodeFrom_lead (by omega) hrej, List.cons_append,
    decodeFrom_tail h0 (by rw [hnext]; decide) hlo hhi, hnext]
  exact decodeFrom_tail_two (n / 64) n r

/-- **One character**: the decoder comes back between characters behind it. -/
theorem decodeFrom_char (c : Char) (r : Bytes) :
    decodeFrom utf8Accept (String.utf8EncodeChar c ++ r) = decodeFrom utf8Accept r := by
  have hc := toNat_scalar c
  rw [utf8EncodeChar_eq]
  split
  · rename_i h
    have hl : leads c.toNat = utf8Accept := by rw [leads, if_pos h]
    rw [List.singleton_append, decodeFrom_lead (by omega) (by rw [hl]; decide), hl]
  · split
    · rename_i h1 h2
      exact decodeFrom_two (by omega) h2 r
    · split
      · rename_i h1 h2 h3
        exact decodeFrom_three (by omega) h3 (by omega) r
      · rename_i h1 h2 h3
        exact decodeFrom_four (by omega) (by omega) r

/-- **UTF-8 passes.** -/
theorem validateUtf8_utf8 (t : List Char) : validateUtf8 (utf8 t) = true := by
  rw [validateUtf8_eq_true]
  induction t with
  | nil => rfl
  | cons c t ih => rw [utf8_cons, decodeFrom_char, ih]

theorem accept_tail_one {s : Bytes} (h : decodeFrom 2 s = some utf8Accept) :
    ∃ b r, s = b :: r ∧ isTail b ∧ decodeFrom utf8Accept r = some utf8Accept := by
  obtain ⟨b, r, rfl, hlo, hhi, hr⟩ := (accept_inside_iff (by decide) (by decide) s).mp h
  simp only [expects] at hlo hhi
  exact ⟨b, r, rfl, ⟨hlo, by omega⟩, hr⟩

theorem accept_tail_two {s : Bytes} (h : decodeFrom 3 s = some utf8Accept) :
    ∃ b c r, s = b :: c :: r ∧ isTail b ∧ isTail c ∧
      decodeFrom utf8Accept r = some utf8Accept := by
  obtain ⟨b, r, rfl, hlo, hhi, hr⟩ := (accept_inside_iff (by decide) (by decide) s).mp h
  simp only [expects] at hlo hhi
  obtain ⟨c, r, rfl, hc, hr⟩ := accept_tail_one hr
  exact ⟨b, c, r, rfl, ⟨hlo, by omega⟩, hc, hr⟩

/-- A number that is a scalar value is the number of a character. -/
theorem exists_char {n : Nat} (h : n < 0xd800 ∨ 0xdfff < n ∧ n < 0x110000) :
    ∃ c : Char, c.toNat = n := ⟨Char.ofNatAux n h, rfl⟩

/-- The bytes of a character, read off its number. -/
theorem char_two {a b : UInt8} (ha : 0xc2 ≤ a.toNat ∧ a.toNat ≤ 0xdf) (hb : isTail b) :
    ∃ c, String.utf8EncodeChar c = [a, b] := by
  obtain ⟨hb1, hb2⟩ := hb
  obtain ⟨c, hc⟩ := exists_char (n := a.toNat % 32 * 64 + b.toNat % 64) (by omega)
  have h1 : UInt8.ofNat (c.toNat / 64 % 32 + 0xc0) = a := byte_eq (by omega)
  have h2 : tail c.toNat = b := byte_eq (by omega)
  refine ⟨c, ?_⟩
  rw [utf8EncodeChar_eq, if_neg (by omega), if_pos (by omega), two, h1, h2]

theorem char_three {a b d : UInt8} (ha : 0xe0 ≤ a.toNat ∧ a.toNat ≤ 0xef) (hb : isTail b)
    (hd : isTail d) (he0 : a.toNat = 0xe0 → 0xa0 ≤ b.toNat)
    (hed : a.toNat = 0xed → b.toNat ≤ 0x9f) : ∃ c, String.utf8EncodeChar c = [a, b, d] := by
  obtain ⟨hb1, hb2⟩ := hb
  obtain ⟨hd1, hd2⟩ := hd
  obtain ⟨c, hc⟩ := exists_char
    (n := a.toNat % 16 * 4096 + b.toNat % 64 * 64 + d.toNat % 64) (by omega)
  have h1 : UInt8.ofNat (c.toNat / 4096 % 16 + 0xe0) = a := byte_eq (by omega)
  have h2 : tail (c.toNat / 64) = b := byte_eq (by omega)
  have h3 : tail c.toNat = d := byte_eq (by omega)
  refine ⟨c, ?_⟩
  rw [utf8EncodeChar_eq, if_neg (by omega), if_neg (by omega), if_pos (by omega), three, h1, h2, h3]

theorem char_four {a b d e : UInt8} (ha : 0xf0 ≤ a.toNat ∧ a.toNat ≤ 0xf4) (hb : isTail b)
    (hd : isTail d) (he : isTail e) (hf0 : a.toNat = 0xf0 → 0x90 ≤ b.toNat)
    (hf4 : a.toNat = 0xf4 → b.toNat ≤ 0x8f) : ∃ c, String.utf8EncodeChar c = [a, b, d, e] := by
  obtain ⟨hb1, hb2⟩ := hb
  obtain ⟨hd1, hd2⟩ := hd
  obtain ⟨he1, he2⟩ := he
  obtain ⟨c, hc⟩ := exists_char (n := a.toNat % 8 * 262144 + b.toNat % 64 * 4096 +
    d.toNat % 64 * 64 + e.toNat % 64) (by omega)
  have h1 : UInt8.ofNat (c.toNat / 262144 % 8 + 0xf0) = a := byte_eq (by omega)
  have h2 : tail (c.toNat / 4096) = b := byte_eq (by omega)
  have h3 : tail (c.toNat / 64) = d := byte_eq (by omega)
  have h4 : tail c.toNat = e := byte_eq (by omega)
  refine ⟨c, ?_⟩
  rw [utf8EncodeChar_eq, if_neg (by omega), if_neg (by omega), if_neg (by omega), four, h1, h2, h3,
    h4]

/-- **The first character of an accepted text**, and an accepted text behind it. -/
theorem accept_char {a : UInt8} {s : Bytes}
    (h : decodeFrom utf8Accept (a :: s) = some utf8Accept) :
    ∃ c r, a :: s = String.utf8EncodeChar c ++ r ∧
      decodeFrom utf8Accept r = some utf8Accept := by
  rw [decodeFrom_start] at h
  split at h
  · cases h
  rename_i hrej
  obtain ha | ha | ha | ha := leads_forms hrej
  · rw [leads_one ha] at h
    obtain ⟨c, hc⟩ := exists_char (n := a.toNat) (by omega)
    refine ⟨c, s, ?_, h⟩
    rw [utf8EncodeChar_eq, if_pos (by omega), byte_eq hc, List.singleton_append]
  · rw [leads_two ha] at h
    obtain ⟨b, r, rfl, hb, hr⟩ := accept_tail_one h
    obtain ⟨c, hc⟩ := char_two ha hb
    exact ⟨c, r, by rw [hc]; rfl, hr⟩
  · obtain ⟨h0, -, hnext, hrange⟩ := leads_three ha
    obtain ⟨b, r, rfl, hlo, hhi, hr⟩ := (accept_inside_iff h0 (by rw [hnext]; decide) s).mp h
    obtain ⟨hb, he0, hed⟩ := (hrange b.toNat).mp ⟨hlo, hhi⟩
    rw [hnext] at hr
    obtain ⟨d, r, rfl, hd, hr⟩ := accept_tail_one hr
    obtain ⟨c, hc⟩ := char_three ha hb hd he0 hed
    exact ⟨c, r, by rw [hc]; rfl, hr⟩
  · obtain ⟨h0, -, hnext, hrange⟩ := leads_four ha
    obtain ⟨b, r, rfl, hlo, hhi, hr⟩ := (accept_inside_iff h0 (by rw [hnext]; decide) s).mp h
    obtain ⟨hb, hf0, hf4⟩ := (hrange b.toNat).mp ⟨hlo, hhi⟩
    rw [hnext] at hr
    obtain ⟨d, e, r, rfl, hd, he, hr⟩ := accept_tail_two hr
    obtain ⟨c, hc⟩ := char_four ha hb hd he hf0 hf4
    exact ⟨c, r, by rw [hc]; rfl, hr⟩

theorem utf8_of_accept (s : Bytes) (h : decodeFrom utf8Accept s = some utf8Accept) :
    ∃ t, s = utf8 t := by
  -- the induction is on the length: a character is one to four bytes
  induction hn : s.length using Nat.strong_induction_on generalizing s with
  | _ n ih =>
    cases s with
    | nil => exact ⟨[], rfl⟩
    | cons a s =>
      obtain ⟨c, r, heq, hr⟩ := accept_char h
      have hlen : (String.utf8EncodeChar c).length + r.length = n := by
        rw [← hn, heq, List.length_append]
      have hpos := Char.utf8Size_pos c
      rw [String.length_utf8EncodeChar] at hlen
      obtain ⟨t, rfl⟩ := ih r.length (by omega) r hr rfl
      exact ⟨c :: t, by rw [heq, utf8_cons]⟩

/-- **The validator accepts UTF-8 and nothing else.** -/
theorem validateUtf8_iff (s : Bytes) : validateUtf8 s = true ↔ ∃ t, s = utf8 t := by
  constructor
  · intro h
    exact utf8_of_accept s (validateUtf8_eq_true.mp h)
  · intro h
    obtain ⟨t, rfl⟩ := h
    exact validateUtf8_utf8 t

/-! ## 4. Fields between ASCII texts -/

/-- A text of ASCII bytes. -/
def IsAscii (s : Bytes) : Prop := ∀ b ∈ s, b.toNat < 0x80

instance (s : Bytes) : Decidable (IsAscii s) :=
  decidable_of_iff ((s.all fun b => b.toNat < 0x80) = true) (by simp [IsAscii])

/-- A text that ends a field: ASCII, and not empty. -/
def IsBorder (s : Bytes) : Prop := s ≠ [] ∧ IsAscii s

instance (s : Bytes) : Decidable (IsBorder s) := inferInstanceAs (Decidable (s ≠ [] ∧ IsAscii s))

theorem decodeFrom_ascii {s : Bytes} (h : IsAscii s) (r : Bytes) :
    decodeFrom utf8Accept (s ++ r) = decodeFrom utf8Accept r := by
  induction s with
  | nil => rfl
  | cons b s ih =>
    have hb := leads_one (n := b.toNat) (by have := h b List.mem_cons_self; omega)
    rw [List.cons_append, decodeFrom_start, hb, if_neg (by decide)]
    exact ih fun x hx => h x (List.mem_cons_of_mem b hx)

theorem decodeFrom_quote (r : Bytes) :
    decodeFrom utf8Accept (quote :: r) = decodeFrom utf8Accept r :=
  decodeFrom_ascii (by decide : IsAscii [quote]) r

/-- Inside a character an ASCII byte is refused. -/
theorem decodeNextByte_ascii {state : Nat} (h0 : 0 < state) {b : UInt8} (hb : b.toNat < 0x80) :
    decodeNextByte state b = utf8Reject := by
  have hrange : 0x80 ≤ (expects state).1 ∨ (expects state).2.1 < (expects state).1 := by
    unfold expects
    split <;> simp
  rw [decodeNextByte_inside h0, if_neg (by omega)]

/-- **A border**: the texts on its two sides are judged each on its own. -/
theorem decodeFrom_field (a : Bytes) {sep : Bytes} (hsep : IsBorder sep) (r : Bytes) :
    decodeFrom utf8Accept (a ++ (sep ++ r)) = some utf8Accept ↔
      validateUtf8 a = true ∧ decodeFrom utf8Accept r = some utf8Accept := by
  obtain ⟨hne, hascii⟩ := hsep
  rw [decodeFrom_append, validateUtf8_eq_true]
  cases hd : decodeFrom utf8Accept a with
  | none => simp
  | some state =>
    rw [Option.bind_some]
    by_cases h0 : state = utf8Accept
    · rw [h0, decodeFrom_ascii hascii]
      exact ⟨fun h => ⟨rfl, h⟩, fun h => h.2⟩
    · refine iff_of_false ?_ (fun h => h0 (Option.some.inj h.1))
      cases sep with
      | nil => exact absurd rfl hne
      | cons x sep =>
        have hx := decodeNextByte_ascii (Nat.pos_of_ne_zero h0) (hascii x List.mem_cons_self)
        rw [List.cons_append, decodeFrom, hx, if_pos rfl]
        exact nofun

/-- A member of a frame is valid iff its value is. -/
theorem decodeFrom_member {key : Bytes} (hkey : IsAscii key) (value rest : Bytes) :
    decodeFrom utf8Accept (memberText key value rest) = some utf8Accept ↔
      validateUtf8 value = true ∧ decodeFrom utf8Accept rest = some utf8Accept := by
  rw [memberText, decodeFrom_ascii (by decide), decodeFrom_quote, decodeFrom_ascii hkey,
    decodeFrom_quote, decodeFrom_ascii (by decide), decodeFrom_quote]
  exact decodeFrom_field value (by decide : IsBorder [quote]) rest

/-- **A message frame is valid UTF-8 iff every string of the message is.** -/
theorem buildMessageJson_valid_iff (msg : ChatMessage) :
    validateUtf8 (buildMessageJson msg) = true ↔
      validateUtf8 msg.id = true ∧ validateUtf8 msg.conversationId = true ∧
      validateUtf8 msg.senderId = true ∧ validateUtf8 msg.recipientId = true ∧
      validateUtf8 msg.text = true ∧ validateUtf8 msg.mediaUrl = true := by
  have htype : validateUtf8 (typeStr msg.type) = true := by
    cases msg.type with
    | text | image | video | like | system => decide
  have hclose : decodeFrom utf8Accept (ascii "\x7d") = some utf8Accept := by decide
  refine validateUtf8_eq_true.trans ?_
  rw [buildMessageJson_eq, decodeFrom_ascii (by decide), decodeFrom_quote,
    decodeFrom_ascii (by decide), decodeFrom_quote, decodeFrom_ascii (by decide),
    decodeFrom_quote, decodeFrom_ascii (by decide), decodeFrom_quote,
    decodeFrom_member (by decide), decodeFrom_member (by decide), decodeFrom_member (by decide),
    decodeFrom_member (by decide), decodeFrom_member (by decide), decodeFrom_member (by decide),
    decodeFrom_member (by decide)]
  simp only [htype, hclose, true_and, and_true]

/-! ## 5. Modified UTF-8 -/

/-- A character that modified UTF-8 writes otherwise is refused, whatever is behind it. -/
theorem decodeFrom_modified_other {c : Char} (h : ¬ Basic c) (r : Bytes) :
    decodeFrom utf8Accept (modifiedUtf8 (units c) ++ r) = none := by
  by_cases h0 : c.toNat = 0
  · rw [(modifiedUtf8_units_nul h0).1]
    rfl
  · have hbig : 0xffff < c.toNat := by
      by_contra hle
      exact h ⟨by omega, by omega⟩
    obtain ⟨⟨b, r', hb, -, hmod⟩, -⟩ := modifiedUtf8_units_astral hbig
    -- behind ED the validator refuses what begins a surrogate
    have hed : decodeNextByte utf8Accept 0xed = 5 := rfl
    rw [hmod, List.cons_append, decodeFrom, hed, if_neg (by decide), List.cons_append,
      decodeFrom_inside (by decide) (by decide), if_neg (by simp only [expects]; omega)]

/-- **Modified UTF-8 passes the validator exactly on basic text.** -/
theorem validateUtf8_modified_iff (t : List Char) :
    validateUtf8 (modifiedUtf8 (utf16 t)) = true ↔ BasicText t := by
  rw [validateUtf8_eq_true]
  induction t with
  | nil => exact iff_of_true rfl (by simp [BasicText])
  | cons c t ih =>
    rw [utf16_cons, modifiedUtf8_append, basicText_cons, ← ih]
    by_cases h : Basic c
    · rw [modifiedUtf8_units_basic h, decodeFrom_char]
      exact ⟨fun hr => ⟨h, hr⟩, fun hr => hr.2⟩
    · rw [decodeFrom_modified_other h]
      exact iff_of_false nofun (fun hb => h hb.1)

end Viral.Chat
