/-
  File:      ViralEngine/Lib/WebSocket.lean
  Subject:   FRAMES OF THE WEBSOCKET PROTOCOL AND THE MESSAGES THEY MAKE UP. No program fact.

  A frame is what it means, with the choices the format leaves open: the form its length is
  written in and the key its payload is masked with. Its bytes are a function of that. A length
  may stand in a longer form than it needs.

  Above the frames there are messages: a text or a binary frame begins one, continuations go on
  with it, the frame with `fin` ends it, and control frames may stand in between.

  * `Frame`, `Frame.bytes` -- a frame and its bytes;
  * `first_bits`, `first_of_bits`, `second_bits`, `second_of_bits` -- the two leading bytes, read
    bit by bit;
  * `Piece`, `Partial`, `Item`, `absorb`, `absorbs` -- what of a frame counts, the message under
    way, what a frame completes, one frame after the other;
  * `cutUp`, `absorbs_cutUp` -- a message in fragments, and that they make up the message.
-/
import Mathlib.Data.Fintype.Basic
import ViralEngine.Lib.Octets

namespace Viral.Lib.WebSocket

/-! ## 1. Frames -/

/-- The opcode: four bits, of which the protocol names six values. -/
abbrev Opcode := Fin 16

namespace Opcode

/-- A further piece of a message. -/
def continuation : Opcode := 0

/-- The first piece of a text message. -/
def text : Opcode := 1

/-- The first piece of a binary message. -/
def binary : Opcode := 2

/-- The end of the connection, from one side. -/
def close : Opcode := 8

/-- A question whether the other side is there. -/
def ping : Opcode := 9

/-- The answer to a ping. -/
def pong : Opcode := 10

/-- The upper half of the opcodes is for control frames. -/
def IsControl (o : Opcode) : Prop := 8 ≤ o

instance (o : Opcode) : Decidable o.IsControl := inferInstanceAs (Decidable (8 ≤ o))

end Opcode

/-- The three forms of a length: in the second byte, or in two or eight bytes behind it. -/
inductive LengthForm where
  | seven | sixteen | sixtyFour
  deriving DecidableEq, Repr

namespace LengthForm

/-- The length can be written in the form. -/
def Fits : LengthForm → Nat → Prop
  | .seven, n => n < 126
  | .sixteen, n => n < 2 ^ 16
  | .sixtyFour, n => n < 2 ^ 64

instance : ∀ (l : LengthForm) (n : Nat), Decidable (l.Fits n)
  | .seven, _ | .sixteen, _ | .sixtyFour, _ => inferInstanceAs (Decidable (_ < _))

/-- The low seven bits of the second byte. -/
def code : LengthForm → Nat → Nat
  | .seven, n => n
  | .sixteen, _ => 126
  | .sixtyFour, _ => 127

/-- The length in the bytes behind the second one. -/
def extension : LengthForm → Nat → List UInt8
  | .seven, _ => []
  | .sixteen, n => octets 2 n
  | .sixtyFour, n => octets 8 n

/-- The shortest form for a length. -/
def least (n : Nat) : LengthForm :=
  if n < 126 then .seven else if n < 65536 then .sixteen else .sixtyFour

theorem fits_least {n : Nat} (h : n < 2 ^ 64) : (least n).Fits n := by
  unfold least
  split
  · assumption
  · split
    · assumption
    · exact h

theorem code_lt {l : LengthForm} {n : Nat} (h : l.Fits n) : l.code n < 128 := by
  cases l with
  | seven => exact Nat.lt_trans h (by decide)
  | sixteen | sixtyFour => simp [code]

end LengthForm

/-- **A frame.** `key` is the mask of its payload, which is given as it reads without it. -/
structure Frame where
  fin : Bool
  rsv1 : Bool
  rsv2 : Bool
  rsv3 : Bool
  opcode : Opcode
  key : Option Key
  form : LengthForm
  payload : List UInt8
  fits : form.Fits payload.length
  deriving DecidableEq, Repr

/-- A flag at its place in a byte. -/
def flag (b : Bool) (v : UInt8) : UInt8 := if b then v else 0

/-- The first byte of a frame. -/
def firstByte (fin rsv1 rsv2 rsv3 : Bool) (o : Opcode) : UInt8 :=
  flag fin 0x80 ||| flag rsv1 0x40 ||| flag rsv2 0x20 ||| flag rsv3 0x10 ||| UInt8.ofNat o

/-- The second byte of a frame; `n` is below 128. -/
def secondByte (mask : Bool) (n : Nat) : UInt8 := UInt8.ofNat n ||| flag mask 0x80

namespace Frame

/-- The key as it stands in the header. -/
def keyBytes (f : Frame) : List UInt8 := (f.key.map Key.bytes).getD []

/-- What stands in front of the payload. -/
def header (f : Frame) : List UInt8 :=
  firstByte f.fin f.rsv1 f.rsv2 f.rsv3 f.opcode ::
    secondByte f.key.isSome (f.form.code f.payload.length) ::
    (f.form.extension f.payload.length ++ f.keyBytes)

/-- The payload as it stands on the wire. -/
def body (f : Frame) : List UInt8 := masked (f.key.getD Key.zero) f.payload

/-- The frame as it is sent. -/
def bytes (f : Frame) : List UInt8 := f.header ++ f.body

/-- A frame without reserved bits, in the shortest form. -/
def plain (fin : Bool) (o : Opcode) (key : Option Key) (s : List UInt8)
    (h : s.length < 2 ^ 64) : Frame where
  fin := fin
  rsv1 := false
  rsv2 := false
  rsv3 := false
  opcode := o
  key := key
  form := .least s.length
  payload := s
  fits := LengthForm.fits_least h

@[simp] theorem body_length (f : Frame) : f.body.length = f.payload.length := by
  simp [body]

theorem bytes_length (f : Frame) : f.bytes.length = f.header.length + f.payload.length := by
  simp [bytes]

theorem two_le_header (f : Frame) : 2 ≤ f.header.length := by
  simp [header]

end Frame

/-- Every byte is the byte of a number below 256. -/
theorem forall_byte {P : UInt8 → Prop} (h : ∀ n : Fin 256, P (UInt8.ofNat n)) (b : UInt8) :
    P b := by
  have hb := h ⟨b.toNat, b.toNat_lt⟩
  rwa [UInt8.ofNat_toNat] at hb

/-- The bits of a first byte. -/
theorem first_bits (fin rsv1 rsv2 rsv3 : Bool) (o : Opcode) :
    let b := firstByte fin rsv1 rsv2 rsv3 o
    ((b &&& 0x80 == 0x80) = fin) ∧ ((b &&& 0x40 == 0x40) = rsv1) ∧ ((b &&& 0x20 == 0x20) = rsv2) ∧
      ((b &&& 0x10 == 0x10) = rsv3) ∧ (b &&& 0x0f).toNat = o.val := by
  revert fin rsv1 rsv2 rsv3 o
  decide

theorem opcode_lt (b : UInt8) : (b &&& 0x0f).toNat < 16 := by
  rw [UInt8.toNat_and]
  exact Nat.lt_of_le_of_lt Nat.and_le_right (by decide)

/-- A byte is the first byte of its bits. -/
theorem first_of_bits (b : UInt8) :
    firstByte (b &&& 0x80 == 0x80) (b &&& 0x40 == 0x40) (b &&& 0x20 == 0x20) (b &&& 0x10 == 0x10)
      ⟨(b &&& 0x0f).toNat, opcode_lt b⟩ = b := by
  revert b
  apply forall_byte
  decide +kernel

/-- The bits of a second byte. -/
theorem second_bits (mask : Bool) {n : Nat} (h : n < 128) :
    ((secondByte mask n &&& 0x80 == 0x80) = mask) ∧ (secondByte mask n &&& 0x7f).toNat = n := by
  have hall : ∀ (mask : Bool) (n : Fin 128), ((secondByte mask n &&& 0x80 == 0x80) = mask) ∧
      (secondByte mask n &&& 0x7f).toNat = n := by decide
  exact hall mask ⟨n, h⟩

/-- A byte is the second byte of its bits. -/
theorem second_of_bits (b : UInt8) :
    secondByte (b &&& 0x80 == 0x80) (b &&& 0x7f).toNat = b := by
  revert b
  apply forall_byte
  decide +kernel

/-! ## 2. Messages -/

/-- What of a frame the messages are made of. -/
structure Piece where
  opcode : Opcode
  fin : Bool
  payload : List UInt8
  deriving DecidableEq, Repr

/-- What a frame says of the message it belongs to. -/
def Frame.piece (f : Frame) : Piece := ⟨f.opcode, f.fin, f.payload⟩

/-- The two kinds of messages. -/
inductive Kind where
  | text | binary
  deriving DecidableEq, Repr

/-- The opcode that begins a message. -/
def Kind.opcode : Kind → Opcode
  | .text => .text
  | .binary => .binary

/-- A message of which the last fragment has not come. -/
structure Partial where
  kind : Kind
  payload : List UInt8
  deriving DecidableEq, Repr

/-- What the reader of a stream of frames is given. -/
inductive Item where
  | message (kind : Kind) (s : List UInt8)
  | control (o : Opcode) (s : List UInt8)
  deriving DecidableEq, Repr

/-- The messages among what the reader is given. -/
def messages (is : List Item) : List (Kind × List UInt8) :=
  is.filterMap fun
    | .message kind s => some (kind, s)
    | .control _ _ => none

@[simp] theorem messages_append (is js : List Item) :
    messages (is ++ js) = messages is ++ messages js := List.filterMap_append

/-- **One frame**, with the message under way in front of it; `none` against the protocol. -/
def absorb (p : Option Partial) (f : Piece) : Option (Option Partial × List Item) :=
  if f.opcode.IsControl then
    if f.fin then some (p, [.control f.opcode f.payload]) else none
  else if f.opcode = .continuation then
    match p with
    | none => none
    | some q =>
      if f.fin then some (none, [.message q.kind (q.payload ++ f.payload)])
      else some (some { q with payload := q.payload ++ f.payload }, [])
  else if f.opcode = .text ∨ f.opcode = .binary then
    let kind := if f.opcode = .text then Kind.text else .binary
    match p with
    | some _ => none
    | none =>
      if f.fin then some (none, [.message kind f.payload])
      else some (some ⟨kind, f.payload⟩, [])
  else none

/-- A continuation goes on with the message under way. -/
theorem absorb_continuation (q : Partial) (fin : Bool) (s : List UInt8) :
    absorb (some q) ⟨.continuation, fin, s⟩ =
      some (if fin then none else some { q with payload := q.payload ++ s },
        if fin then [.message q.kind (q.payload ++ s)] else []) := by
  cases fin <;> rfl

/-- A message begins where none is under way. -/
theorem absorb_first (k : Kind) (fin : Bool) (s : List UInt8) :
    absorb none ⟨k.opcode, fin, s⟩ =
      some (if fin then none else some ⟨k, s⟩, if fin then [.message k s] else []) := by
  cases k <;> cases fin <;> rfl

/-- **What a frame in its place is**: a control frame, a continuation, or the first of a
    message. -/
theorem absorb_cases {p q : Option Partial} {f : Piece} {is : List Item}
    (h : absorb p f = some (q, is)) :
    (f.opcode.IsControl ∧ f.fin = true ∧ q = p ∧ is = [.control f.opcode f.payload]) ∨
    (f.opcode = .continuation ∧ ∃ m, p = some m ∧
      q = (if f.fin then none else some { m with payload := m.payload ++ f.payload }) ∧
      is = (if f.fin then [.message m.kind (m.payload ++ f.payload)] else [])) ∨
    (∃ k : Kind, f.opcode = k.opcode ∧ p = none ∧
      q = (if f.fin then none else some ⟨k, f.payload⟩) ∧
      is = (if f.fin then [.message k f.payload] else [])) := by
  unfold absorb at h
  by_cases hc : f.opcode.IsControl
  · left
    rw [if_pos hc] at h
    cases hfin : f.fin <;> simp [hfin] at h
    exact ⟨hc, rfl, h.1.symm, h.2.symm⟩
  rw [if_neg hc] at h
  by_cases hn : f.opcode = .continuation
  · right; left
    rw [if_pos hn] at h
    cases p with
    | none => cases h
    | some m =>
      refine ⟨hn, m, rfl, ?_⟩
      cases hfin : f.fin <;> simp [hfin] at h ⊢ <;> simp [h]
  rw [if_neg hn] at h
  by_cases ht : f.opcode = .text ∨ f.opcode = .binary
  · right; right
    rw [if_pos ht] at h
    obtain ⟨k, hk, hkk⟩ : ∃ k : Kind, f.opcode = k.opcode ∧
        (if f.opcode = .text then Kind.text else .binary) = k := by
      rcases ht with h | h
      · exact ⟨.text, h, if_pos h⟩
      · exact ⟨.binary, h, by rw [h]; rfl⟩
    cases p with
    | some m => cases h
    | none =>
      refine ⟨k, hk, rfl, ?_⟩
      cases hfin : f.fin <;> simp [hfin, hkk] at h ⊢ <;> simp [h]
  · rw [if_neg ht] at h
    cases h

/-- One frame after the other. -/
def absorbs : Option Partial → List Piece → Option (Option Partial × List Item)
  | p, [] => some (p, [])
  | p, f :: fs => (absorb p f).bind fun (q, is) =>
      (absorbs q fs).map fun (r, js) => (r, is ++ js)

theorem absorbs_append {p q : Option Partial} {fs gs : List Piece} {is : List Item}
    (h : absorbs p fs = some (q, is)) :
    absorbs p (fs ++ gs) = (absorbs q gs).map fun (r, js) => (r, is ++ js) := by
  induction fs generalizing p is with
  | nil =>
    cases h
    simp
  | cons f fs ih =>
    obtain ⟨⟨p', is'⟩, h1, h2⟩ := Option.bind_eq_some_iff.mp h
    obtain ⟨⟨q', js⟩, h3, h4⟩ := Option.map_eq_some_iff.mp h2
    obtain ⟨rfl, rfl⟩ := Prod.mk.inj h4
    rw [List.cons_append, absorbs, h1, Option.bind_some]
    simp only [ih h3, Option.map_map]
    congr 1
    funext x
    simp

theorem absorbs_concat {p q r : Option Partial} {fs : List Piece} {is js : List Item} {f : Piece}
    (h : absorbs p fs = some (q, is)) (hf : absorb q f = some (r, js)) :
    absorbs p (fs ++ [f]) = some (r, is ++ js) := by
  rw [absorbs_append h]
  simp [absorbs, hf]

theorem absorbs_cons {p r : Option Partial} {f : Piece} {fs : List Piece} {ks : List Item}
    (h : absorbs p (f :: fs) = some (r, ks)) :
    ∃ q is js, absorb p f = some (q, is) ∧ absorbs q fs = some (r, js) ∧ ks = is ++ js := by
  obtain ⟨⟨q, is⟩, h1, h2⟩ := Option.bind_eq_some_iff.mp h
  obtain ⟨⟨r', js⟩, h3, h4⟩ := Option.map_eq_some_iff.mp h2
  obtain ⟨rfl, rfl⟩ := Prod.mk.inj h4
  exact ⟨q, is, js, h1, h3, rfl⟩

/-- A control frame leaves the message under way alone. -/
theorem absorb_control {f : Piece} (p : Option Partial) (h : f.opcode.IsControl)
    (hfin : f.fin = true) : absorb p f = some (p, [.control f.opcode f.payload]) := by
  unfold absorb
  rw [if_pos h, if_pos hfin]

/-! ## 3. A message in fragments -/

/-- A message cut up: the first piece has the opcode, the last one `fin`. -/
def cutUp : Opcode → List (List UInt8) → List Piece
  | _, [] => []
  | o, [s] => [⟨o, true, s⟩]
  | o, s :: ss => ⟨o, false, s⟩ :: cutUp .continuation ss

theorem cutUp_cons (o : Opcode) (s : List UInt8) {ss : List (List UInt8)} (h : ss ≠ []) :
    cutUp o (s :: ss) = ⟨o, false, s⟩ :: cutUp .continuation ss := by
  cases ss with
  | nil => exact absurd rfl h
  | cons _ _ => rfl

theorem absorbs_continuation (q : Partial) {ss : List (List UInt8)} (h : ss ≠ []) :
    absorbs (some q) (cutUp .continuation ss) =
      some (none, [.message q.kind (q.payload ++ ss.flatten)]) := by
  induction ss generalizing q with
  | nil => exact absurd rfl h
  | cons s ss ih =>
    by_cases hss : ss = []
    · subst hss
      simp [cutUp, absorbs, absorb_continuation]
    · rw [cutUp_cons _ _ hss, absorbs, absorb_continuation]
      simp [ih _ hss]

/-- **The fragments of a message make it up.** -/
theorem absorbs_cutUp (kind : Kind) {ss : List (List UInt8)} (h : ss ≠ []) :
    absorbs none (cutUp kind.opcode ss) = some (none, [.message kind ss.flatten]) := by
  cases ss with
  | nil => exact absurd rfl h
  | cons s ss =>
    by_cases hss : ss = []
    · subst hss
      simp [cutUp, absorbs, absorb_first]
    · rw [cutUp_cons _ _ hss, absorbs, absorb_first]
      simp [absorbs_continuation _ hss]

end Viral.Lib.WebSocket
