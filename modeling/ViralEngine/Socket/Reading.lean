/-
  File:      ViralEngine/Socket/Reading.lean
  Subject:   WHAT THE TRANSPORT READS ARE FRAMES OF THE PROTOCOL.

  The transport builds a header by cases on the length and takes one apart by cases on the second
  byte. `Lib/WebSocket` says what a frame and its bytes are; here the two meet.

  * `headerOf`, `readHeader_frame`, `readHeader_short` -- the header of a frame is read as it was
    written, and not before it is there as a whole;
  * `readHeader_sound` -- what is read as a header belongs to a frame;
  * `turn_frame`, `turn_refused`, `turn_short`, `turn_goesOn` -- a turn of `dispatch` in front of
    a frame, in front of a part of one, and that it goes on behind frames only.
-/
import ViralEngine.Socket.Writing

namespace Viral.Socket

open Viral.Lib Viral.Lib.WebSocket
open Viral.Chat (Bytes)

/-! ## 1. The header -/

/-- What is read out of the header of a frame. -/
def headerOf (f : Frame) : WsHeader where
  headerSize := f.header.length
  fin := f.fin
  rsv1 := f.rsv1
  rsv2 := f.rsv2
  rsv3 := f.rsv3
  mask := f.key.isSome
  opcode := f.opcode
  n0 := f.form.code f.payload.length
  n := f.payload.length
  maskingKey := f.key.getD .zero

theorem header_length (f : Frame) :
    f.header.length = headerSize (f.form.code f.payload.length) f.key.isSome := by
  have hfits := f.fits
  unfold Frame.header Frame.keyBytes headerSize
  cases hl : f.form with
  | seven =>
    rw [hl] at hfits
    have h1 : f.payload.length ≠ 126 := Nat.ne_of_lt hfits
    have h2 : f.payload.length ≠ 127 := by
      have : f.payload.length < 126 := hfits
      omega
    cases f.key <;> simp [LengthForm.code, LengthForm.extension, h1, h2]
  | sixteen | sixtyFour => cases f.key <;> simp [LengthForm.code, LengthForm.extension]

/-- The bytes in front of the key. -/
theorem header_split (f : Frame) : ∃ front : Bytes,
    f.header = front ++ f.keyBytes ∧ front.length = keyIndex (f.form.code f.payload.length) := by
  refine ⟨firstByte f.fin f.rsv1 f.rsv2 f.rsv3 f.opcode ::
    secondByte f.key.isSome (f.form.code f.payload.length) ::
    f.form.extension f.payload.length, rfl, ?_⟩
  have hfits := f.fits
  unfold keyIndex
  cases hl : f.form with
  | seven =>
    rw [hl] at hfits
    have h1 : f.payload.length < 126 := hfits
    simp [LengthForm.code, LengthForm.extension, h1]
  | sixteen | sixtyFour => simp [LengthForm.code, LengthForm.extension]

/-- **A header that is there as a whole is read as it was written.** -/
theorem readHeader_frame (f : Frame) (rest : Bytes) :
    readHeader (f.header ++ rest) = some (headerOf f) := by
  obtain ⟨hs1, hs2⟩ := second_bits f.key.isSome (LengthForm.code_lt f.fits)
  obtain ⟨hf1, hf2, hf3, hf4, hf5⟩ := first_bits f.fin f.rsv1 f.rsv2 f.rsv3 f.opcode
  have hkey : (if f.key.isSome then
      Key.ofBytes ((f.header ++ rest).drop (keyIndex (f.form.code f.payload.length)))
      else Key.zero) = f.key.getD .zero := by
    obtain ⟨front, hfront, hlen⟩ := header_split f
    rw [hfront, ← hlen, List.append_assoc, List.drop_left]
    cases hk : f.key with
    | none => rfl
    | some k => simp [Frame.keyBytes, hk]
  have hn : (if f.form.code f.payload.length < 126 then f.form.code f.payload.length
      else if f.form.code f.payload.length = 126 then
        bigEndian ((f.form.extension f.payload.length ++ f.keyBytes ++ rest).take 2)
      else bigEndian ((f.form.extension f.payload.length ++ f.keyBytes ++ rest).take 8)) =
      f.payload.length := by
    have hfits := f.fits
    cases hl : f.form with
    | seven =>
      rw [hl] at hfits
      exact if_pos hfits
    | sixteen =>
      rw [hl] at hfits
      simp only [LengthForm.code, LengthForm.extension, List.append_assoc]
      rw [List.take_left' (octets_length _ _), bigEndian_octets hfits]
      rfl
    | sixtyFour =>
      rw [hl] at hfits
      simp only [LengthForm.code, LengthForm.extension, List.append_assoc]
      rw [List.take_left' (octets_length _ _), bigEndian_octets hfits]
      rfl
  have hlen : ¬ (f.header ++ rest).length <
      headerSize (f.form.code f.payload.length) f.key.isSome := by
    rw [List.length_append, ← header_length]
    omega
  rw [show f.header ++ rest =
    firstByte f.fin f.rsv1 f.rsv2 f.rsv3 f.opcode ::
      secondByte f.key.isSome (f.form.code f.payload.length) ::
      (f.form.extension f.payload.length ++ f.keyBytes ++ rest) from rfl] at hkey hlen ⊢
  simp only [readHeader]
  simp only [hs1, hs2, hf1, hf2, hf3, hf4, hf5, hn, hkey]
  rw [if_neg hlen]
  unfold headerOf
  rw [header_length]

/-- A part of a header is not read as a header. -/
theorem readHeader_short {f : Frame} {b rest : Bytes} (h : f.header = b ++ rest)
    (hrest : rest ≠ []) : readHeader b = none := by
  have hb : b.length < f.header.length := by
    have := List.length_pos_of_ne_nil hrest
    rw [h, List.length_append]
    omega
  match b with
  | [] | [_] => rfl
  | d0 :: d1 :: data =>
    obtain ⟨h0, h⟩ := List.cons.inj h
    obtain ⟨h1, h⟩ := List.cons.inj h
    obtain ⟨hs1, hs2⟩ := second_bits f.key.isSome (LengthForm.code_lt f.fits)
    rw [header_length] at hb
    simp only [readHeader, ← h1, hs1, hs2]
    exact if_pos hb

/-- The form a second byte announces. -/
def formOf (n0 : Nat) : LengthForm :=
  if n0 < 126 then .seven else if n0 = 126 then .sixteen else .sixtyFour

/-- The length that is read is one of the announced form, written in the bytes it was read from. -/
theorem formOf_length {n0 : Nat} (h0 : n0 < 128) {mask : Bool} {data : Bytes}
    (h : headerSize n0 mask ≤ data.length + 2) :
    let n := if n0 < 126 then n0
      else if n0 = 126 then bigEndian (data.take 2) else bigEndian (data.take 8)
    (formOf n0).Fits n ∧ (formOf n0).code n = n0 ∧
      (formOf n0).extension n = data.take (keyIndex n0 - 2) := by
  have hbytes : ∀ k ≤ data.length, bigEndian (data.take k) < 256 ^ k ∧
      octets k (bigEndian (data.take k)) = data.take k := by
    intro k hk
    have hlt := bigEndian_lt (data.take k)
    have hoct := octets_bigEndian (data.take k)
    rw [List.length_take_of_le hk] at hlt hoct
    exact ⟨hlt, hoct⟩
  unfold headerSize at h
  unfold formOf keyIndex
  rcases Nat.lt_trichotomy n0 126 with hlt | heq | hgt
  · simp [hlt, LengthForm.Fits, LengthForm.code, LengthForm.extension]
  · obtain ⟨h1, h2⟩ := hbytes 2 (by simp [heq] at h; omega)
    simpa [heq, LengthForm.Fits, LengthForm.code, LengthForm.extension, h2] using h1
  · have h127 : n0 = 127 := by omega
    obtain ⟨h1, h2⟩ := hbytes 8 (by simp [h127] at h; omega)
    simpa [h127, LengthForm.Fits, LengthForm.code, LengthForm.extension, h2] using h1

theorem headerSize_eq {n0 : Nat} (h0 : n0 < 128) (mask : Bool) :
    headerSize n0 mask = keyIndex n0 + if mask then 4 else 0 := by
  unfold headerSize keyIndex
  rcases Nat.lt_trichotomy n0 126 with hlt | heq | hgt
  · have h1 : n0 ≠ 126 := Nat.ne_of_lt hlt
    have h2 : n0 ≠ 127 := by omega
    simp [hlt, h1, h2]
  · simp [heq]
  · have h127 : n0 = 127 := by omega
    simp [h127]

theorem two_le_keyIndex (n0 : Nat) : 2 ≤ keyIndex n0 := by
  unfold keyIndex
  split
  · exact Nat.le_refl 2
  · split <;> decide

theorem ofBytes_append {s : Bytes} (c : Bytes) (h : 4 ≤ s.length) :
    Key.ofBytes (s ++ c) = Key.ofBytes s := by
  match s, h with
  | a :: b :: c :: d :: s, _ => rfl

/-- A header that is there is read the same with more behind it. -/
theorem readHeader_append {b : Bytes} {ws : WsHeader} (h : readHeader b = some ws) (c : Bytes) :
    readHeader (b ++ c) = some ws := by
  match b, h with
  | d0 :: d1 :: data, h =>
    simp only [readHeader] at h
    split at h
    · cases h
    · rename_i hsize
      obtain rfl := Option.some.inj h
      have h0 : (d1 &&& 0x7f).toNat < 128 := by
        rw [UInt8.toNat_and]
        exact Nat.lt_of_le_of_lt Nat.and_le_right (by decide)
      have hs : headerSize (d1 &&& 0x7f).toNat (d1 &&& 0x80 == 0x80) ≤ data.length + 2 := by
        simpa using hsize
      have hn : (if (d1 &&& 0x7f).toNat < 126 then (d1 &&& 0x7f).toNat
          else if (d1 &&& 0x7f).toNat = 126 then bigEndian ((data ++ c).take 2)
          else bigEndian ((data ++ c).take 8)) =
          if (d1 &&& 0x7f).toNat < 126 then (d1 &&& 0x7f).toNat
          else if (d1 &&& 0x7f).toNat = 126 then bigEndian (data.take 2)
          else bigEndian (data.take 8) := by
        unfold headerSize at hs
        split
        · rfl
        · split
          · rename_i h126
            rw [List.take_append_of_le_length (by simp [h126] at hs; omega)]
          · have h127 : (d1 &&& 0x7f).toNat = 127 := by omega
            rw [List.take_append_of_le_length (by simp [h127] at hs; omega)]
      have hkey : (if (d1 &&& 0x80 == 0x80) = true then
            Key.ofBytes ((d0 :: d1 :: data ++ c).drop (keyIndex (d1 &&& 0x7f).toNat))
          else Key.zero) =
          if (d1 &&& 0x80 == 0x80) = true then
            Key.ofBytes ((d0 :: d1 :: data).drop (keyIndex (d1 &&& 0x7f).toNat))
          else Key.zero := by
        split
        · rename_i hm
          have hk := headerSize_eq h0 true
          rw [hm, hk, if_pos rfl] at hs
          have hi : keyIndex (d1 &&& 0x7f).toNat ≤ (d0 :: d1 :: data).length := by
            simp only [List.length_cons]
            omega
          rw [List.drop_append_of_le_length hi]
          refine ofBytes_append c ?_
          simp only [List.length_drop, List.length_cons]
          omega
        · rfl
      simp only [List.cons_append, readHeader] at hkey ⊢
      rw [hn, hkey, if_neg]
      simp only [List.length_cons, List.length_append]
      omega

/-- **What is read as a header belongs to a frame**, when the payload is there. -/
theorem readHeader_sound {b : Bytes} {ws : WsHeader} (h : readHeader b = some ws)
    (hlen : ws.headerSize + ws.n ≤ b.length) :
    ∃ (f : Frame) (rest : Bytes), b = f.bytes ++ rest ∧ headerOf f = ws := by
  match b, h, hlen with
  | d0 :: d1 :: data, h, hlen =>
    simp only [readHeader] at h
    split at h
    · cases h
    · rename_i hsize
      obtain rfl := Option.some.inj h
      dsimp only at hlen
      have h0 : (d1 &&& 0x7f).toNat < 128 := by
        rw [UInt8.toNat_and]
        exact Nat.lt_of_le_of_lt Nat.and_le_right (by decide)
      have hs : headerSize (d1 &&& 0x7f).toNat (d1 &&& 0x80 == 0x80) ≤ data.length + 2 := by
        simpa using hsize
      obtain ⟨hfits, hcode, hext⟩ := formOf_length h0 hs
      have hsize := headerSize_eq h0 (d1 &&& 0x80 == 0x80)
      have htwo := two_le_keyIndex (d1 &&& 0x7f).toNat
      -- the header behind its second byte: the length, then the key
      generalize hn : (if (d1 &&& 0x7f).toNat < 126 then (d1 &&& 0x7f).toNat
        else if (d1 &&& 0x7f).toNat = 126 then bigEndian (data.take 2)
        else bigEndian (data.take 8)) = n at hfits hcode hext hlen ⊢
      generalize hm : (d1 &&& 0x80 == 0x80) = mask at hs hsize hlen ⊢
      generalize hi : keyIndex (d1 &&& 0x7f).toNat = i at hext hsize htwo ⊢
      generalize hk : (if mask then Key.ofBytes ((d0 :: d1 :: data).drop i) else Key.zero) = k
      generalize hh : headerSize (d1 &&& 0x7f).toNat mask = size at hs hsize hlen ⊢
      have hbody : (((d0 :: d1 :: data).drop size).take n).length = n := by
        rw [List.length_take, List.length_drop]
        omega
      let f : Frame := {
        fin := d0 &&& 0x80 == 0x80
        rsv1 := d0 &&& 0x40 == 0x40
        rsv2 := d0 &&& 0x20 == 0x20
        rsv3 := d0 &&& 0x10 == 0x10
        opcode := ⟨(d0 &&& 0x0f).toNat, opcode_lt d0⟩
        key := if mask then some k else none
        form := formOf (d1 &&& 0x7f).toNat
        payload := masked k (((d0 :: d1 :: data).drop size).take n)
        fits := by rw [masked_length, hbody]; exact hfits }
      have hpayload : f.payload.length = n := by rw [← hbody]; exact masked_length _ _
      have hsome : f.key.isSome = mask := by cases mask <;> rfl
      have hkey : f.key.getD .zero = k := by
        cases mask with
        | false => exact hk
        | true => rfl
      have hkeys : f.keyBytes = ((d0 :: d1 :: data).drop i).take (if mask then 4 else 0) := by
        cases mask with
        | false => simp [f, Frame.keyBytes]
        | true =>
          have hfour : 4 ≤ ((d0 :: d1 :: data).drop i).length := by
            simp only [List.length_drop, List.length_cons, if_true] at hsize ⊢
            omega
          show k.bytes = _
          rw [← hk, if_pos rfl, Key.bytes_ofBytes hfour, if_pos rfl]
      have hheader : f.header = (d0 :: d1 :: data).take size := by
        unfold Frame.header
        rw [hpayload, hsome, hkeys, ← hm]
        show firstByte _ _ _ _ _ :: secondByte _ ((formOf _).code n) ::
          ((formOf _).extension n ++ _) = _
        rw [first_of_bits, hcode, second_of_bits, hext, hsize, List.take_add]
        rw [show i = (i - 2) + 2 by omega]
        simp [hm]
      refine ⟨f, (d0 :: d1 :: data).drop (size + n), ?_, ?_⟩
      · unfold Frame.bytes Frame.body
        rw [hheader, hkey]
        show _ = _ ++ masked k (masked k _) ++ _
        rw [masked_masked, List.append_assoc, ← List.drop_drop, List.take_append_drop,
          List.take_append_drop]
      · unfold headerOf
        rw [hpayload, hsome, hkey, header_length, hsome, hpayload]
        show WsHeader.mk _ _ _ _ _ _ _ ((formOf _).code n) _ _ = _
        rw [hcode, hh]

/-! ## 2. One turn in front of a frame -/

/-- A frame `dispatch` does not return from on the spot. -/
structure Acceptable (f : Frame) : Prop where
  rsv : ¬ (f.rsv1 ∨ f.rsv2 ∨ f.rsv3)
  small : f.payload.length ≤ 1 <<< 63
  whole : ¬ (f.fin = false ∧ (f.opcode = .ping ∨ f.opcode = .pong ∨ f.opcode = .close))
  ping : ¬ (f.opcode = .ping ∧ 125 < f.payload.length)

theorem Sound.acceptable {f : Frame} (h : Sound f) : Acceptable f where
  rsv := by simp [h.rsv1, h.rsv2, h.rsv3]
  small := Nat.le_trans h.small.le (by decide)
  whole := by
    rintro ⟨hfin, ho⟩
    have hc : f.opcode.IsControl := by rcases ho with ho | ho | ho <;> rw [ho] <;> decide
    rw [(h.control hc).1] at hfin
    cases hfin
  ping := fun ⟨ho, hlen⟩ => Nat.not_lt.mpr (h.ping ho) hlen

theorem unmask_frame (f : Frame) (rest : Bytes) :
    unmaskReceiveBuffer (headerOf f) (f.bytes ++ rest) = f.header ++ (f.payload ++ rest) := by
  have hbody : (f.body ++ rest).take f.payload.length = f.body :=
    List.take_left' f.body_length
  have hrest : (f.body ++ rest).drop f.payload.length = rest := List.drop_left' f.body_length
  unfold unmaskReceiveBuffer
  cases hk : f.key with
  | none => simp [headerOf, hk, Frame.bytes, Frame.body]
  | some k =>
    simp [headerOf, hk, Frame.bytes, hbody, hrest, ← List.drop_drop]
    simp [Frame.body, hk]

/-- The payload of the frame in front of a receive buffer, without its mask. -/
def frameData (ws : WsHeader) (rxbuf : Bytes) : Bytes :=
  ((unmaskReceiveBuffer ws rxbuf).drop ws.headerSize).take ws.n

theorem frameData_frame (f : Frame) (rest : Bytes) :
    frameData (headerOf f) (f.bytes ++ rest) = f.payload := by
  unfold frameData
  rw [unmask_frame]
  simp [headerOf]

namespace Transport

/-- A turn in front of a header. -/
theorem turn_read {t : Transport} {ws : WsHeader} (h : readHeader t.rxbuf = some ws) : t.turn =
    if ws.rsv1 ∨ ws.rsv2 ∨ ws.rsv3 then
      .givesUp (t.close kProtocolErrorCode kProtocolErrorReservedBitUsed)
    else if 1 <<< 63 < ws.n then .givesUp t
    else if t.rxbuf.length < ws.headerSize + ws.n then
      .wants (t.withRx t.rxbuf (ws.headerSize + ws.n))
    else if ¬ ws.fin ∧ (ws.opcode = .ping ∨ ws.opcode = .pong ∨ ws.opcode = .close) then
      .givesUp ((t.close kProtocolErrorCode kProtocolErrorCodeControlMessageFragmented).withRx
        t.rxbuf 0)
    else if ws.opcode = .ping ∧ 125 < (frameData ws t.rxbuf).length then
      .givesUp ((t.close kProtocolErrorCode kProtocolErrorPingPayloadOversized).withRx
        (unmaskReceiveBuffer ws t.rxbuf) 0)
    else .goesOn ((t.wholeFrame ws.opcode ws.fin (frameData ws t.rxbuf)).withRx
      ((unmaskReceiveBuffer ws t.rxbuf).drop (ws.headerSize + ws.n)) 0) := by
  unfold turn
  rw [h]
  simp only [withRx_rxbuf, withRx_rxbufWanted, withRx_withRx, close_withRx, wholeFrame_withRx]
  rfl

/-- The frame `f` is in front. -/
theorem turn_atFrame {t : Transport} {f : Frame} {rest : Bytes} (h : t.rxbuf = f.bytes ++ rest) :
    t.turn =
    if f.rsv1 ∨ f.rsv2 ∨ f.rsv3 then
      .givesUp (t.close kProtocolErrorCode kProtocolErrorReservedBitUsed)
    else if 1 <<< 63 < f.payload.length then .givesUp t
    else if ¬ f.fin ∧ (f.opcode = .ping ∨ f.opcode = .pong ∨ f.opcode = .close) then
      .givesUp ((t.close kProtocolErrorCode kProtocolErrorCodeControlMessageFragmented).withRx
        t.rxbuf 0)
    else if f.opcode = .ping ∧ 125 < f.payload.length then
      .givesUp ((t.close kProtocolErrorCode kProtocolErrorPingPayloadOversized).withRx
        (f.header ++ (f.payload ++ rest)) 0)
    else .goesOn ((t.wholeFrame f.opcode f.fin f.payload).withRx rest 0) := by
  have hread : readHeader t.rxbuf = some (headerOf f) := by
    rw [h, Frame.bytes, List.append_assoc]
    exact readHeader_frame f _
  have hlen : ¬ t.rxbuf.length < (headerOf f).headerSize + (headerOf f).n := by
    rw [h, List.length_append, Frame.bytes_length]
    simp [headerOf]
  have hdrop : (f.header ++ (f.payload ++ rest)).drop
      ((headerOf f).headerSize + (headerOf f).n) = rest := by
    simp [headerOf, ← List.drop_drop]
  rw [turn_read hread, if_neg hlen, h, frameData_frame, unmask_frame, hdrop]
  rfl

/-- **In front of a frame that is there as a whole**, a turn hands it on and goes on behind it. -/
theorem turn_frame {t : Transport} {f : Frame} {rest : Bytes} (h : t.rxbuf = f.bytes ++ rest)
    (hf : Acceptable f) :
    t.turn = .goesOn ((t.wholeFrame f.opcode f.fin f.payload).withRx rest 0) := by
  rw [turn_atFrame h, if_neg hf.rsv, if_neg (Nat.not_lt.mpr hf.small),
    if_neg (by simpa using hf.whole), if_neg hf.ping]

/-- **In front of a frame that is not acceptable**, it returns. -/
theorem turn_refused {t : Transport} {f : Frame} {rest : Bytes} (h : t.rxbuf = f.bytes ++ rest)
    (hf : ¬ Acceptable f) : ∃ t', t.turn = .givesUp t' := by
  rw [turn_atFrame h]
  by_cases h1 : f.rsv1 ∨ f.rsv2 ∨ f.rsv3
  · exact ⟨_, if_pos h1⟩
  by_cases h2 : 1 <<< 63 < f.payload.length
  · exact ⟨_, by rw [if_neg h1, if_pos h2]⟩
  by_cases h3 : ¬ f.fin ∧ (f.opcode = .ping ∨ f.opcode = .pong ∨ f.opcode = .close)
  · exact ⟨_, by rw [if_neg h1, if_neg h2, if_pos h3]⟩
  by_cases h4 : f.opcode = .ping ∧ 125 < f.payload.length
  · exact ⟨_, by rw [if_neg h1, if_neg h2, if_neg h3, if_pos h4]⟩
  exact absurd ⟨h1, Nat.not_lt.mp h2, by simpa using h3, h4⟩ hf

/-- **In front of a part of a frame** a turn waits for more. -/
theorem turn_short {t : Transport} {f : Frame} {more : Bytes} (h : t.rxbuf ++ more = f.bytes)
    (hmore : more ≠ []) (hf : Acceptable f) :
    t.turn = .starved t ∨ t.turn = .wants (t.withRx t.rxbuf f.bytes.length) := by
  have hpos := List.length_pos_of_ne_nil hmore
  have hlen : t.rxbuf.length < (headerOf f).headerSize + (headerOf f).n := by
    have := congrArg List.length h
    rw [List.length_append, f.bytes_length] at this
    simp only [headerOf]
    omega
  have hwhole : readHeader t.rxbuf = some (headerOf f) →
      t.turn = .wants (t.withRx t.rxbuf f.bytes.length) := by
    intro hread
    rw [turn_read hread, if_neg (by exact hf.rsv), if_neg (by exact Nat.not_lt.mpr hf.small),
      if_pos hlen, f.bytes_length]
    rfl
  -- the header ends in front of the bytes that are missing, or among them
  rcases List.append_eq_append_iff.mp h with ⟨back, h1, -⟩ | ⟨front, h1, -⟩
  · by_cases hb : back = []
    · refine Or.inr (hwhole ?_)
      rw [hb, List.append_nil] at h1
      rw [← h1, ← List.append_nil f.header]
      exact readHeader_frame f _
    · left
      unfold turn
      rw [readHeader_short h1 hb]
  · refine Or.inr (hwhole ?_)
    rw [h1]
    exact readHeader_frame f _

/-- **A turn that goes on has handed on a frame.** -/
theorem turn_goesOn {t t' : Transport} (h : t.turn = .goesOn t') :
    ∃ (f : Frame) (rest : Bytes), t.rxbuf = f.bytes ++ rest ∧ Acceptable f ∧
      t' = (t.wholeFrame f.opcode f.fin f.payload).withRx rest 0 := by
  have hturn := h
  unfold turn at h
  split at h
  · cases h
  · rename_i ws hread
    split at h
    · cases h
    · split at h
      · cases h
      · split at h
        · cases h
        · rename_i hlen
          obtain ⟨f, rest, hb, -⟩ := readHeader_sound hread (Nat.not_lt.mp hlen)
          by_cases hf : Acceptable f
          · rw [turn_frame hb hf] at hturn
            exact ⟨f, rest, hb, hf, (Turn.goesOn.inj hturn).symm⟩
          · obtain ⟨u, hu⟩ := turn_refused hb hf
            rw [hu] at hturn
            cases hturn

end Transport

end Viral.Socket
