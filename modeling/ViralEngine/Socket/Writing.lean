/-
  File:      ViralEngine/Socket/Writing.lean
  Subject:   WHAT THE TRANSPORT WRITES ARE FRAMES OF THE PROTOCOL.

  Every call that writes appends whole frames to what has been handed to the kernel and what waits
  behind it, and leaves alone what the reading side goes by. That is `Writes`; it is proved of one
  call after the other, up to the ones that may close the socket on the way.

  * `writtenFrame`, `writeFragment_bytes` -- `sendFragment` appends the bytes of a frame;
  * `heard`, `receiving` -- the messages among the callbacks, and what only reading changes;
  * `Emits`, `Writes` -- the effect of a call that writes, and of one that does no more;
  * `Sound`, `Signals` -- the frames this transport writes, and calls that write control frames;
  * `close_signals`, `sendHeartBeat_signals`, `pingFrame_signals`, `closeFrame_signals` -- they do;
  * `withRx` -- another receive buffer, and that no call that writes asks for it.
-/
import Mathlib.Data.List.Infix
import Mathlib.Tactic.MkIffOfInductiveProp
import ViralEngine.Socket.Transport

namespace Viral.Socket

open Viral.Lib Viral.Lib.WebSocket
open Viral.Chat (Bytes ascii validateUtf8)

/-! ## 1. One frame -/

namespace Transport

/-- The frame `sendFragment` writes. -/
def writtenFrame (t : Transport) (type : Opcode) (fin : Bool) (message : Bytes)
    (h : message.length < 2 ^ 64) : Frame :=
  .plain fin type (if t.useMask then some t.maskingKey else none) message h

theorem plain_first (type : Opcode) (fin : Bool) :
    firstByte fin false false false type = UInt8.ofNat type ||| if fin then 0x80 else 0 := by
  revert type fin
  decide

theorem fragmentHeader_eq (t : Transport) (type : Opcode) (fin : Bool) (message : Bytes)
    (h : message.length < 2 ^ 64) :
    t.fragmentHeader type fin message.length = (t.writtenFrame type fin message h).header := by
  have hkey : (if t.useMask then t.maskingKey.bytes else []) =
      (t.writtenFrame type fin message h).keyBytes := by
    cases hm : t.useMask <;> simp [Frame.keyBytes, writtenFrame, Frame.plain, hm]
  have hmask : (if t.useMask then (0x80 : UInt8) else 0) =
      flag (t.writtenFrame type fin message h).key.isSome 0x80 := by
    cases hm : t.useMask <;> simp [writtenFrame, Frame.plain, hm, flag]
  unfold fragmentHeader
  simp only [hkey, hmask, ← plain_first]
  show _ = firstByte fin false false false type ::
    (UInt8.ofNat ((LengthForm.least message.length).code message.length) ||| _) ::
    ((LengthForm.least message.length).extension message.length ++ _)
  unfold LengthForm.least
  split
  · rfl
  · split <;> rfl

/-- **`sendFragment` appends the bytes of a frame.** -/
theorem writeFragment_bytes (t : Transport) (type : Opcode) (fin : Bool) (message : Bytes)
    (h : message.length < 2 ^ 64) : t.writeFragment type fin message =
      { t with txbuf := t.txbuf ++ (t.writtenFrame type fin message h).bytes } := by
  unfold writeFragment appendToSendBuffer
  rw [fragmentHeader_eq t type fin message h]
  have hbody : (if t.useMask then masked t.maskingKey message else message) =
      (t.writtenFrame type fin message h).body := by
    cases hm : t.useMask <;> simp [Frame.body, writtenFrame, Frame.plain, hm]
  rw [hbody, List.append_assoc]
  rfl

end Transport

/-! ## 2. The effect of a call that writes -/

/-- The messages among the callbacks. -/
def heard (log : List Event) : List (Kind × Bytes) :=
  log.filterMap fun
    | .message .msgText s => some (.text, s)
    | .message .msgBinary s => some (.binary, s)
    | _ => none

@[simp] theorem heard_append (l m : List Event) : heard (l ++ m) = heard l ++ heard m :=
  List.filterMap_append

@[simp] theorem heard_closed (code : Nat) (reason : Bytes) (remote : Bool) :
    heard [.closed code reason remote] = [] := rfl

/-- What only the reading of frames changes. -/
def Transport.receiving (t : Transport) :
    Bytes × Nat × List Bytes × MessageKind × List (Kind × Bytes) :=
  (t.rxbuf, t.rxbufWanted, t.chunks, t.fragmentedMessageKind, heard t.log)

/-- **From `t` to `t'` the frames `fs` are written**, and the socket may be closed. Behind a closed
    socket they stay where they are. -/
@[mk_iff] structure Emits (t t' : Transport) (fs : List Frame) : Prop where
  wire : t'.kernel.sent ++ t'.txbuf = t.kernel.sent ++ t.txbuf ++ fs.flatMap Frame.bytes
  sent : t.kernel.sent <+: t'.kernel.sent
  frozen : t.kernel.isOpen = false → t'.kernel.sent = t.kernel.sent
  isOpen : t'.kernel.isOpen = true → t.kernel.isOpen = true
  opened : t'.readyState = .opened → t.readyState = .opened
  secs : t'.pingIntervalSecs = t.pingIntervalSecs

/-- The same, and nothing is read. -/
structure Writes (t t' : Transport) (fs : List Frame) : Prop where
  emits : Emits t t' fs
  receiving : t'.receiving = t.receiving

theorem Emits.closed {t t' : Transport} {fs : List Frame} (h : Emits t t' fs)
    (hc : t.kernel.isOpen = false) : t'.kernel.isOpen = false := by
  cases ho : t'.kernel.isOpen with
  | false => rfl
  | true =>
    rw [h.isOpen ho] at hc
    cases hc

theorem Emits.trans {t t' t'' : Transport} {fs gs : List Frame} (h : Emits t t' fs)
    (h' : Emits t' t'' gs) : Emits t t'' (fs ++ gs) where
  wire := by rw [h'.wire, h.wire, List.flatMap_append, List.append_assoc]
  sent := h.sent.trans h'.sent
  frozen := fun hc => by rw [h'.frozen (h.closed hc), h.frozen hc]
  isOpen := fun ho => h.isOpen (h'.isOpen ho)
  opened := fun ho => h.opened (h'.opened ho)
  secs := h'.secs.trans h.secs

theorem Writes.refl (t : Transport) : Writes t t [] := by
  constructor <;> simp [emits_iff, Transport.receiving]

theorem Writes.trans {t t' t'' : Transport} {fs gs : List Frame} (h : Writes t t' fs)
    (h' : Writes t' t'' gs) : Writes t t'' (fs ++ gs) where
  emits := h.emits.trans h'.emits
  receiving := h'.receiving.trans h.receiving

namespace Transport

theorem setReadyState_writes (t : Transport) {s : ReadyState} (h : s ≠ .opened) :
    Writes t (t.setReadyState s) [] := by
  unfold setReadyState
  split
  · exact .refl t
  · cases s with
    | opened => exact absurd rfl h
    | closed => constructor <;> simp [emits_iff, record, Transport.receiving]
    | closing | connecting => constructor <;> simp [emits_iff, Transport.receiving]

theorem closeSocket_writes (t : Transport) : Writes t t.closeSocket [] := by
  constructor <;> simp [emits_iff, closeSocket, Transport.receiving]

theorem handOver_writes (t : Transport) : Writes t t.handOver [] := by
  constructor <;> simp +contextual [emits_iff, handOver, Transport.receiving, takes]

theorem sendOnSocket_writes (t : Transport) : Writes t t.sendOnSocket.1 [] := by
  have hover := t.handOver_writes
  have hclose := hover.trans t.handOver.closeSocket_writes
  unfold sendOnSocket
  simp only
  split
  · exact hover
  · split
    · exact hover
    · split
      · exact hclose.trans (t.handOver.closeSocket.setReadyState_writes (by decide))
      · exact hclose

/-- A socket that fails is closed. -/
theorem sendOnSocket_failed {t : Transport} (h : t.sendOnSocket.2 = false) :
    t.sendOnSocket.1.kernel.isOpen = false := by
  unfold sendOnSocket at h ⊢
  simp only at h ⊢
  split at h
  · cases h
  · split at h
    · cases h
    · rename_i h1 h2
      rw [if_neg h1, if_neg h2]
      have hclosed : t.handOver.closeSocket.kernel.isOpen = false := rfl
      split
      · exact (setReadyState_writes _ (by decide)).emits.closed hclosed
      · exact hclosed

theorem sendFragment_writes (t : Transport) (type : Opcode) (fin : Bool) (message : Bytes)
    (h : message.length < 2 ^ 64) :
    Writes t (t.sendFragment type fin message).1 [t.writtenFrame type fin message h] := by
  have hwrite : Writes t (t.writeFragment type fin message)
      [t.writtenFrame type fin message h] := by
    rw [t.writeFragment_bytes type fin message h]
    constructor <;> simp [emits_iff, Transport.receiving]
  exact hwrite.trans (sendOnSocket_writes _)

end Transport

/-! ## 3. Control frames -/

/-- What holds of every frame this transport writes. -/
structure Sound (f : Frame) : Prop where
  rsv1 : f.rsv1 = false
  rsv2 : f.rsv2 = false
  rsv3 : f.rsv3 = false
  small : f.payload.length < 2 ^ 16
  control : f.opcode.IsControl → f.fin = true ∧ f.payload.length < kChunkSize ∧
    (f.opcode = .close ∨ f.opcode = .ping ∨ f.opcode = .pong)
  ping : f.opcode = .ping → f.payload.length ≤ 125

/-- From `t` to `t'` nothing but control frames is written. -/
def Signals (t t' : Transport) : Prop :=
  ∃ fs, Writes t t' fs ∧ ∀ f ∈ fs, Sound f ∧ f.opcode.IsControl

theorem Writes.signals {t t' : Transport} (h : Writes t t' []) : Signals t t' :=
  ⟨[], h, fun _ hf => absurd hf List.not_mem_nil⟩

theorem Signals.refl (t : Transport) : Signals t t := (Writes.refl t).signals

theorem Signals.trans {t t' t'' : Transport} (h : Signals t t') (h' : Signals t' t'') :
    Signals t t'' := by
  obtain ⟨fs, hw, hf⟩ := h
  obtain ⟨gs, hw', hg⟩ := h'
  refine ⟨fs ++ gs, hw.trans hw', fun f hmem => ?_⟩
  rcases List.mem_append.mp hmem with h | h
  · exact hf f h
  · exact hg f h

namespace Transport

/-- A short control message is one frame, if it is sent at all. -/
theorem sendData_signals (t : Transport) {type : Opcode} {message : Bytes}
    (htype : type = .close ∨ type = .ping ∨ type = .pong) (hlen : message.length < kChunkSize)
    (hping : type = .ping → message.length ≤ 125) :
    Signals t (t.sendData type message).1 := by
  unfold sendData
  split
  · exact .refl t
  · have h64 : message.length < 2 ^ 64 := Nat.lt_trans hlen (by decide)
    have h16 : message.length < 2 ^ 16 := Nat.lt_trans hlen (by decide)
    have hone : (t.sendFragments (fragments type message)).1 =
        (t.sendFragment type true message).1 := by
      rw [fragments, if_pos hlen, sendFragments]
      split <;> rename_i heq <;> rw [heq]; rfl
    rw [hone]
    refine ⟨_, t.sendFragment_writes type true message h64, fun f hf => ?_⟩
    rw [List.mem_singleton.mp hf]
    have hcontrol : type.IsControl := by rcases htype with rfl | rfl | rfl <;> decide
    exact ⟨⟨rfl, rfl, rfl, h16, fun _ => ⟨rfl, hlen, htype⟩, hping⟩, hcontrol⟩

theorem sendCloseFrame_signals (t : Transport) (code : Nat) {reason : Bytes}
    (h : reason.length + 2 < kChunkSize) : Signals t (t.sendCloseFrame code reason) := by
  unfold sendCloseFrame
  split
  · refine t.sendData_signals (by decide) ?_ (fun h => absurd h (by decide))
    rw [List.length_append, octets_length]
    omega
  · exact t.sendData_signals (by decide) (by decide) (fun h => absurd h (by decide))

theorem close_again {t : Transport} {code : Nat} {reason : Bytes}
    (h : t.readyState = .closing ∨ t.readyState = .closed) :
    t.close code reason = { t with requestInitCancellation := true } := if_pos h

theorem close_first {t : Transport} {code : Nat} {reason : Bytes}
    (h : ¬ (t.readyState = .closing ∨ t.readyState = .closed)) :
    t.close code reason = ({ t with requestInitCancellation := true }.storeClosing
      code reason).sendCloseFrame code reason := if_neg h

theorem storeClosing_writes (t : Transport) (code : Nat) (reason : Bytes) :
    Writes t (t.storeClosing code reason) [] := by
  have h : Writes t { t with closeReason := reason, closeCode := code, closeRemote := false } [] :=
    by constructor <;> simp [emits_iff, Transport.receiving]
  exact h.trans (setReadyState_writes _ (s := .closing) (by decide))

theorem close_signals (t : Transport) (code : Nat) (reason : Bytes)
    (h : reason.length + 2 < kChunkSize) : Signals t (t.close code reason) := by
  by_cases hs : t.readyState = .closing ∨ t.readyState = .closed
  · rw [close_again hs]
    exact Writes.signals (by constructor <;> simp [emits_iff, Transport.receiving])
  · rw [close_first hs]
    refine Signals.trans (Writes.signals ?_)
      ((storeClosing_writes _ code reason).signals.trans (sendCloseFrame_signals _ code h))
    constructor <;> simp [emits_iff, Transport.receiving]

theorem closeSocketAndSwitchToClosedState_writes (t : Transport) (code : Nat) (reason : Bytes)
    (remote : Bool) : Writes t (t.closeSocketAndSwitchToClosedState code reason remote) [] := by
  have h1 : Writes t { t.closeSocket with
      closeReason := reason, closeCode := code, closeRemote := remote } [] := by
    constructor <;> simp [emits_iff, closeSocket, Transport.receiving]
  have h2 := h1.trans (setReadyState_writes _ (s := .closed) (by decide))
  refine h2.trans ?_
  constructor <;> simp [emits_iff, Transport.receiving, closeSocketAndSwitchToClosedState]

end Transport

/-! ## 4. The texts are short -/

@[simp] theorem ascii_length (s : String) : (ascii s).length = s.length := by
  simp [ascii, String.length_toList]

theorem decimal_length {n k : Nat} (hk : 0 < k) (h : n < 10 ^ k) : (decimal n).length ≤ k := by
  rw [decimal, ascii_length]
  exact (Nat.length_repr_le_iff hk).mpr h

/-- The reason taken over from a short CLOSE frame is short. -/
theorem closeInfo_short {payload : Bytes} (h : payload.length < kChunkSize) :
    (closeInfo payload).2.length + 2 < kChunkSize := by
  have hk : kChunkSize = 32768 := rfl
  have hcode : ∀ (code : Nat) (reason : Bytes), code < 10 ^ 5 →
      reason.length + 2 < kChunkSize →
      (if code < 1000 ∨ code = 1004 ∨ code = 1006 ∨ 1013 < code ∧ code < 3000 then
        (kProtocolErrorCode, kInvalidCloseCodeMessage ++ ascii ": " ++ decimal code)
        else (code, reason)).2.length + 2 < kChunkSize := by
    intro code reason hc hr
    split
    · have hd : (decimal code).length ≤ 5 := decimal_length (by decide) hc
      have hm : (kInvalidCloseCodeMessage ++ ascii ": ").length = 20 := by decide
      rw [List.length_append, hm]
      omega
    · exact hr
  unfold closeInfo
  split
  · have hbig : bigEndian (payload.take 2) < 10 ^ 5 := by
      refine Nat.lt_of_lt_of_le (bigEndian_lt _) ?_
      calc 256 ^ (payload.take 2).length ≤ 256 ^ 2 :=
            Nat.pow_le_pow_right (by decide) (by rw [List.length_take]; omega)
        _ ≤ 10 ^ 5 := by decide
    have hreason : (if 2 < payload.length then payload.drop 2 else []).length + 2 <
        kChunkSize := by
      split
      · rw [List.length_drop]
        omega
      · decide
    simp only
    generalize (if 2 < payload.length then payload.drop 2 else []) = reason at hreason ⊢
    cases validateUtf8 reason with
    | true => exact hcode _ _ hbig hreason
    | false =>
      exact hcode kInvalidFramePayloadData kInvalidFramePayloadDataMessage (by decide) (by decide)
  · decide

namespace Transport

theorem heartBeat_short {t : Transport} (h : t.pingIntervalSecs < 2 ^ 31) :
    t.heartBeat.length ≤ 125 := by
  have hs : (decimal t.pingIntervalSecs).length ≤ 10 :=
    decimal_length (by decide) (Nat.lt_trans h (by decide))
  have hc : (decimal t.pingCount.toNat).length ≤ 20 :=
    decimal_length (by decide) (Nat.lt_trans t.pingCount.toNat_lt (by decide))
  have h1 : (ascii "ixwebsocket::heartbeat::").length = 24 := by decide
  have h2 : (ascii "s::").length = 3 := by decide
  simp only [heartBeat, List.length_append, h1, h2]
  omega

theorem sendHeartBeat_signals {t : Transport} (h : t.pingIntervalSecs < 2 ^ 31) :
    Signals t t.sendHeartBeat := by
  have hshort := heartBeat_short h
  refine Signals.trans (Writes.signals ?_) (sendData_signals _ (by decide)
    (Nat.lt_of_le_of_lt hshort (by decide)) (fun _ => hshort))
  constructor <;> simp [emits_iff, Transport.receiving]

theorem record_writes {t : Transport} {e : Event} (h : heard [e] = []) :
    Writes t (t.record e) [] := by
  constructor <;> simp [emits_iff, record, Transport.receiving, h]

theorem pingFrame_signals (t : Transport) {s : Bytes} (h : s.length ≤ 125) :
    Signals t (t.pingFrame s) := by
  have hpong : Signals t (if t.enablePong then (t.sendData .pong s).1 else t) := by
    split
    · exact t.sendData_signals (by decide) (Nat.lt_of_le_of_lt h (by decide))
        (fun hp => absurd hp (by decide))
    · exact .refl t
  exact hpong.trans (record_writes rfl).signals

theorem closeFrame_signals (t : Transport) {s : Bytes} (h : s.length < kChunkSize) :
    Signals t (t.closeFrame s) := by
  have hshort := closeInfo_short h
  unfold closeFrame
  simp only
  split
  · exact ((setReadyState_writes t (by decide)).signals.trans
      (sendCloseFrame_signals _ _ hshort)).trans
        (closeSocketAndSwitchToClosedState_writes _ _ _ _).signals
  · split
    · exact (closeSocketAndSwitchToClosedState_writes _ _ _ _).signals
    · exact .refl t

end Transport

/-! ## 5. The receive buffer -/

namespace Transport

section

variable (t : Transport) (b : Bytes) (w : Nat)

@[simp] theorem withRx_rxbuf : (t.withRx b w).rxbuf = b := rfl
@[simp] theorem withRx_rxbufWanted : (t.withRx b w).rxbufWanted = w := rfl
@[simp] theorem withRx_readyState : (t.withRx b w).readyState = t.readyState := rfl
@[simp] theorem withRx_kernel : (t.withRx b w).kernel = t.kernel := rfl
@[simp] theorem withRx_txbuf : (t.withRx b w).txbuf = t.txbuf := rfl
@[simp] theorem withRx_chunks : (t.withRx b w).chunks = t.chunks := rfl
@[simp] theorem withRx_log : (t.withRx b w).log = t.log := rfl
@[simp] theorem withRx_kind :
    (t.withRx b w).fragmentedMessageKind = t.fragmentedMessageKind := rfl
@[simp] theorem withRx_closeCode : (t.withRx b w).closeCode = t.closeCode := rfl
@[simp] theorem withRx_closeReason : (t.withRx b w).closeReason = t.closeReason := rfl
@[simp] theorem withRx_withRx (c : Bytes) (v : Nat) :
    (t.withRx b w).withRx c v = t.withRx c v := rfl
theorem withRx_self : t.withRx t.rxbuf t.rxbufWanted = t := rfl

theorem withRx_emits : Emits t (t.withRx b w) [] where
  wire := by simp
  sent := List.prefix_rfl
  frozen := fun _ => rfl
  isOpen := id
  opened := id
  secs := rfl

@[simp] theorem pushChunk_withRx (s : Bytes) :
    (t.withRx b w).pushChunk s = (t.pushChunk s).withRx b w := rfl
@[simp] theorem clearChunks_withRx : (t.withRx b w).clearChunks = t.clearChunks.withRx b w := rfl
@[simp] theorem setKind_withRx (kind : MessageKind) :
    (t.withRx b w).setKind kind = (t.setKind kind).withRx b w := rfl

/-! No call that writes asks what stands in the receive buffer. -/

@[simp] theorem record_withRx (e : Event) :
    (t.withRx b w).record e = (t.record e).withRx b w := rfl

@[simp] theorem setReadyState_withRx (s : ReadyState) :
    (t.withRx b w).setReadyState s = (t.setReadyState s).withRx b w := by
  unfold setReadyState
  rw [withRx_readyState]
  split
  · rfl
  · cases s <;> rfl

@[simp] theorem closeSocket_withRx :
    (t.withRx b w).closeSocket = t.closeSocket.withRx b w := rfl

@[simp] theorem handOver_withRx : (t.withRx b w).handOver = t.handOver.withRx b w := rfl

@[simp] theorem sendOnSocket_withRx :
    (t.withRx b w).sendOnSocket = (t.sendOnSocket.1.withRx b w, t.sendOnSocket.2) := by
  unfold sendOnSocket
  simp only [handOver_withRx, closeSocket_withRx, setReadyState_withRx, withRx_txbuf,
    withRx_kernel, withRx_readyState]
  split
  · rfl
  · split
    · rfl
    · split <;> rfl

@[simp] theorem writeFragment_withRx (type : Opcode) (fin : Bool) (message : Bytes) :
    (t.withRx b w).writeFragment type fin message =
      (t.writeFragment type fin message).withRx b w := rfl

@[simp] theorem sendFragment_withRx (type : Opcode) (fin : Bool) (message : Bytes) :
    (t.withRx b w).sendFragment type fin message =
      ((t.sendFragment type fin message).1.withRx b w, (t.sendFragment type fin message).2) := by
  simp [sendFragment]

@[simp] theorem sendFragments_withRx (fs : List Fragment) :
    (t.withRx b w).sendFragments fs =
      ((t.sendFragments fs).1.withRx b w, (t.sendFragments fs).2) := by
  induction fs generalizing t with
  | nil => rfl
  | cons f fs ih =>
    simp only [sendFragments, sendFragment_withRx]
    cases h : t.sendFragment f.type f.fin f.message with
    | mk u ok =>
      cases ok with
      | true => simp [ih]
      | false => simp

@[simp] theorem sendData_withRx (type : Opcode) (message : Bytes) :
    (t.withRx b w).sendData type message =
      ((t.sendData type message).1.withRx b w, (t.sendData type message).2) := by
  unfold sendData
  rw [withRx_readyState]
  split
  · rfl
  · exact sendFragments_withRx t b w _

@[simp] theorem sendCloseFrame_withRx (code : Nat) (reason : Bytes) :
    (t.withRx b w).sendCloseFrame code reason = (t.sendCloseFrame code reason).withRx b w := by
  unfold sendCloseFrame
  split <;> simp

@[simp] theorem storeClosing_withRx (code : Nat) (reason : Bytes) :
    (t.withRx b w).storeClosing code reason = (t.storeClosing code reason).withRx b w :=
  setReadyState_withRx { t with closeReason := reason, closeCode := code, closeRemote := false }
    b w .closing

@[simp] theorem close_withRx (code : Nat) (reason : Bytes) :
    (t.withRx b w).close code reason = (t.close code reason).withRx b w := by
  by_cases h : t.readyState = .closing ∨ t.readyState = .closed
  · rw [close_again h, close_again (t := t.withRx b w) h]
    rfl
  · have hcancel : ({ t.withRx b w with requestInitCancellation := true } : Transport) =
        { t with requestInitCancellation := true }.withRx b w := rfl
    rw [close_first h, close_first (t := t.withRx b w) h, hcancel, storeClosing_withRx,
      sendCloseFrame_withRx]

@[simp] theorem closeSocketAndSwitchToClosedState_withRx (code : Nat) (reason : Bytes)
    (remote : Bool) : (t.withRx b w).closeSocketAndSwitchToClosedState code reason remote =
      (t.closeSocketAndSwitchToClosedState code reason remote).withRx b w := by
  have h : ({ (t.withRx b w).closeSocket with
      closeReason := reason, closeCode := code, closeRemote := remote } : Transport) =
      { t.closeSocket with
        closeReason := reason, closeCode := code, closeRemote := remote }.withRx b w := rfl
  unfold closeSocketAndSwitchToClosedState
  simp only [h, setReadyState_withRx]
  rfl

@[simp] theorem emitMessage_withRx (kind : MessageKind) (message : Bytes) :
    (t.withRx b w).emitMessage kind message = (t.emitMessage kind message).withRx b w := by
  unfold emitMessage
  split <;> simp

@[simp] theorem pingFrame_withRx (s : Bytes) :
    (t.withRx b w).pingFrame s = (t.pingFrame s).withRx b w := by
  unfold pingFrame
  show Transport.emitMessage (if t.enablePong then _ else _) _ _ = _
  split <;> simp

@[simp] theorem closeFrame_withRx (s : Bytes) :
    (t.withRx b w).closeFrame s = (t.closeFrame s).withRx b w := by
  unfold closeFrame
  simp only [withRx_readyState, withRx_closeCode, withRx_closeReason, setReadyState_withRx,
    sendCloseFrame_withRx, closeSocketAndSwitchToClosedState_withRx]
  split
  · rfl
  · split <;> rfl

@[simp] theorem inSequence_withRx (opcode : Opcode) :
    (t.withRx b w).inSequence opcode = (t.inSequence opcode).withRx b w := by
  unfold inSequence
  simp only [setKind_withRx, withRx_chunks, close_withRx]
  split_ifs <;> rfl

@[simp] theorem collect_withRx (fin : Bool) (s : Bytes) :
    (t.withRx b w).collect fin s = (t.collect fin s).withRx b w := by
  unfold collect
  simp only [withRx_chunks, withRx_kind, pushChunk_withRx, emitMessage_withRx,
    clearChunks_withRx]
  split
  · rfl
  · split <;> rfl

@[simp] theorem dataFrame_withRx (opcode : Opcode) (fin : Bool) (s : Bytes) :
    (t.withRx b w).dataFrame opcode fin s = (t.dataFrame opcode fin s).withRx b w := by
  simp [dataFrame]

@[simp] theorem wholeFrame_withRx (opcode : Opcode) (fin : Bool) (s : Bytes) :
    (t.withRx b w).wholeFrame opcode fin s = (t.wholeFrame opcode fin s).withRx b w := by
  have hpong : ({ t.withRx b w with pongReceived := true } : Transport) =
      { t with pongReceived := true }.withRx b w := rfl
  unfold wholeFrame
  simp only [hpong, dataFrame_withRx, pingFrame_withRx, closeFrame_withRx, close_withRx,
    emitMessage_withRx]
  split_ifs <;> rfl

end

end Transport

end Viral.Socket
