/-
  File:      ViralEngine/Socket/Stream.lean
  Subject:   DISPATCH ON ANY BYTES WHATEVER.

  What a server sends need not be frames, and TCP cuts it where it likes. The loop of `dispatch`
  takes the acceptable frames in front, one after the other, and stops at what is no whole frame
  or is refused; so the callbacks do not depend on the cuts as long as the socket is open, and a
  connection that is still OPEN has received the frames this code takes and handed on exactly their
  messages. Once the socket is closed nothing more is received, but what came in the same round is
  still taken.

  * `dispatch_goesOn`, `dispatch_ends` -- `dispatch` turn by turn;
  * `takeAll`, `Blocked`, `exists_frames`, `dispatch_takes` -- the frames in front of any bytes;
  * `refusal`, `dispatch_outside` -- what becomes of the rest;
  * `Onward` -- what every call leaves behind, one lemma for each of them;
  * `hear`, `feed`, `feed_cuts` -- however the bytes are cut;
  * `Carried`, `open_wellFormed` -- what a connection that is still OPEN has received;
  * `feed_readsOn` -- when it goes on reading.
-/
import ViralEngine.Socket.Messages

namespace Viral.Socket

open Viral.Lib Viral.Lib.WebSocket
open Viral.Chat (Bytes ascii validateUtf8)

/-! ## 1. Turn by turn -/

/-- What is left of the last turn at the end of `dispatch`. -/
def Turn.finish (pollResult : PollResult) : Turn → Transport
  | .starved t => t.dispatchEnd pollResult
  | .wants t | .goesOn t | .givesUp t => t

namespace Transport

variable {t u : Transport} {r : PollResult}

/-- Every turn that goes on makes the receive buffer shorter. -/
theorem turn_shrinks (h : t.turn = .goesOn u) : u.rxbuf.length < t.rxbuf.length := by
  obtain ⟨f, rest, hrx, -, rfl⟩ := turn_goesOn h
  have := f.two_le_header
  rw [hrx, List.length_append, f.bytes_length, withRx_rxbuf]
  omega

theorem dispatchLoop_enough (n m : Nat) (hn : t.rxbuf.length < n) (hm : t.rxbuf.length < m) :
    dispatchLoop r n t = dispatchLoop r m t ∧ (dispatchLoop r n t).isSome := by
  induction n generalizing t m with
  | zero => omega
  | succ n ih =>
    cases m with
    | zero => omega
    | succ m =>
      simp only [dispatchLoop]
      cases h : t.turn with
      | starved v | wants v | givesUp v => exact ⟨rfl, rfl⟩
      | goesOn v =>
        have := turn_shrinks h
        exact ih m (by omega) (by omega)

/-- `dispatch` goes on behind a frame. -/
theorem dispatch_goesOn (h : t.turn = .goesOn u) : t.dispatch r = u.dispatch r := by
  have hlt := turn_shrinks h
  obtain ⟨heq, hsome⟩ := dispatchLoop_enough (r := r) (t := u) t.rxbuf.length
    (u.rxbuf.length + 1) hlt (Nat.lt_succ_self _)
  obtain ⟨v, hv⟩ := Option.isSome_iff_exists.mp hsome
  unfold dispatch
  rw [← heq, show dispatchLoop r (t.rxbuf.length + 1) t = dispatchLoop r t.rxbuf.length u by
    simp [dispatchLoop, h], hv]
  rfl

/-- `dispatch` ends with a turn that does not go on. -/
theorem dispatch_ends (h : ∀ u, t.turn ≠ .goesOn u) : t.dispatch r = t.turn.finish r := by
  unfold dispatch
  simp only [dispatchLoop]
  cases ht : t.turn with
  | starved v | wants v | givesUp v => rfl
  | goesOn v => exact absurd ht (h v)

/-! ## 2. The frames in front -/

/-- One frame after the other. -/
def takeAll (t : Transport) (fs : List Frame) : Transport :=
  fs.foldl (fun t f => t.wholeFrame f.opcode f.fin f.payload) t

end Transport

/-- No acceptable frame stands in front as a whole. -/
def Blocked (s : Bytes) : Prop := ∀ f rest, s = Frame.bytes f ++ rest → ¬ Acceptable f

/-- **Frames in front of any bytes.** -/
theorem exists_frames (s : Bytes) : ∃ (fs : List Frame) (tail : Bytes),
    s = fs.flatMap Frame.bytes ++ tail ∧ (∀ f ∈ fs, Acceptable f) ∧ Blocked tail := by
  induction h : s.length using Nat.strong_induction_on generalizing s with
  | _ n ih =>
    by_cases hb : Blocked s
    · exact ⟨[], s, rfl, by simp, hb⟩
    · simp only [Blocked, not_forall, not_not] at hb
      obtain ⟨f, rest, rfl, hf⟩ := hb
      have hlt : rest.length < n := by
        have := f.two_le_header
        rw [← h, List.length_append, f.bytes_length]
        omega
      obtain ⟨fs, tail, rfl, hfs, htail⟩ := ih _ hlt rest rfl
      refine ⟨f :: fs, tail, by simp, ?_, htail⟩
      intro g hg
      rcases List.mem_cons.mp hg with rfl | hg
      · exact hf
      · exact hfs g hg

theorem blocked_nil : Blocked [] := by
  intro f rest hf
  have hlen := congrArg List.length hf
  have htwo := f.two_le_header
  rw [List.length_append, f.bytes_length, List.length_nil] at hlen
  omega

namespace Transport

variable {t u : Transport} {r : PollResult}

theorem turn_blocked (h : Blocked t.rxbuf) (u : Transport) : t.turn ≠ .goesOn u := by
  intro hturn
  obtain ⟨f, rest, hrx, hf, -⟩ := turn_goesOn hturn
  exact h f rest hrx hf

/-- **`dispatch` takes the acceptable frames in front.** -/
theorem dispatch_takes (t : Transport) {fs : List Frame} (hfs : ∀ f ∈ fs, Acceptable f)
    (s : Bytes) (w : Nat) : ∃ w', (t.withRx (fs.flatMap Frame.bytes ++ s) w).dispatch r =
      ((t.takeAll fs).withRx s w').dispatch r ∧ (w' = 0 ∨ fs = [] ∧ w' = w) := by
  induction fs generalizing t w with
  | nil => exact ⟨w, rfl, .inr ⟨rfl, rfl⟩⟩
  | cons f fs ih =>
    obtain ⟨w', hw, hzero⟩ := ih (t.wholeFrame f.opcode f.fin f.payload)
      (fun g hg => hfs g (List.mem_cons_of_mem f hg)) 0
    refine ⟨w', ?_, .inl (hzero.elim id And.right)⟩
    have hturn : (t.withRx ((f :: fs).flatMap Frame.bytes ++ s) w).turn =
        .goesOn ((t.wholeFrame f.opcode f.fin f.payload).withRx
          (fs.flatMap Frame.bytes ++ s) 0) := by
      have hrx : (t.withRx ((f :: fs).flatMap Frame.bytes ++ s) w).rxbuf =
          f.bytes ++ (fs.flatMap Frame.bytes ++ s) := by simp
      rw [turn_frame hrx (hfs f List.mem_cons_self), wholeFrame_withRx, withRx_withRx]
    rw [dispatch_goesOn hturn, hw]
    rfl

/-! ## 3. The rest -/

end Transport

/-- The text with which bytes that no acceptable frame begins are refused; `none`: they are not,
    for the time being. -/
def refusal (s : Bytes) : Option Bytes :=
  match readHeader s with
  | none => none
  | some ws =>
    if ws.rsv1 ∨ ws.rsv2 ∨ ws.rsv3 then some kProtocolErrorReservedBitUsed
    else if 1 <<< 63 < ws.n then none
    else if s.length < ws.headerSize + ws.n then none
    else if ¬ ws.fin ∧ (ws.opcode = .ping ∨ ws.opcode = .pong ∨ ws.opcode = .close) then
      some kProtocolErrorCodeControlMessageFragmented
    else if ws.opcode = .ping ∧ 125 < (frameData ws s).length then
      some kProtocolErrorPingPayloadOversized
    else none

namespace Transport

variable {t u : Transport} {r : PollResult}

/-- The object but for its receive buffer. -/
def outside (t : Transport) : Transport := t.withRx [] 0

@[simp] theorem outside_withRx (t : Transport) (b : Bytes) (w : Nat) :
    (t.withRx b w).outside = t.outside := rfl

theorem outside_eq (h : t.outside = u.outside) : t.readyState = u.readyState ∧
    t.under = u.under ∧ t.log = u.log ∧ t.kernel.isOpen = u.kernel.isOpen := by
  have h1 : t.outside.readyState = u.outside.readyState := by rw [h]
  have h2 : t.outside.under = u.outside.under := by rw [h]
  have h3 : t.outside.log = u.outside.log := by rw [h]
  have h4 : t.outside.kernel.isOpen = u.outside.kernel.isOpen := by rw [h]
  exact ⟨h1, h2, h3, h4⟩

/-- A turn in front of a header, whatever was wanted before. -/
theorem turn_withRx {s : Bytes} {ws : WsHeader} (h : readHeader s = some ws) (w : Nat) :
    (u.withRx s w).turn =
    if ws.rsv1 ∨ ws.rsv2 ∨ ws.rsv3 then
      .givesUp ((u.close kProtocolErrorCode kProtocolErrorReservedBitUsed).withRx s w)
    else if 1 <<< 63 < ws.n then .givesUp (u.withRx s w)
    else if s.length < ws.headerSize + ws.n then .wants (u.withRx s (ws.headerSize + ws.n))
    else if ¬ ws.fin ∧ (ws.opcode = .ping ∨ ws.opcode = .pong ∨ ws.opcode = .close) then
      .givesUp ((u.close kProtocolErrorCode kProtocolErrorCodeControlMessageFragmented).withRx s 0)
    else if ws.opcode = .ping ∧ 125 < (frameData ws s).length then
      .givesUp ((u.close kProtocolErrorCode kProtocolErrorPingPayloadOversized).withRx
        (unmaskReceiveBuffer ws s) 0)
    else .goesOn ((u.wholeFrame ws.opcode ws.fin (frameData ws s)).withRx
      ((unmaskReceiveBuffer ws s).drop (ws.headerSize + ws.n)) 0) := by
  rw [turn_read (t := u.withRx s w) h]
  simp only [close_withRx, wholeFrame_withRx, withRx_withRx, withRx_rxbuf]

/-- A header in front announces more than a frame may hold. -/
def TooLarge (s : Bytes) : Prop := ∃ ws, readHeader s = some ws ∧ 1 <<< 63 < ws.n

/-- What is not refused waits, and says for how much unless it is too large. -/
theorem finish_waits {s : Bytes} (hb : Blocked s) (hr : refusal s = none) (w : Nat) :
    ∃ w', (u.withRx s w).turn.finish .succeeded = u.withRx s w' ∧
      (readHeader s = none ∧ w' = w ∨ TooLarge s ∧ w' = w ∨
        s.length < w' ∧ ∃ ws, readHeader s = some ws ∧ w' = ws.headerSize + ws.n) := by
  cases hread : readHeader s with
  | none =>
    refine ⟨w, ?_, .inl ⟨rfl, rfl⟩⟩
    have hturn : (u.withRx s w).turn = .starved (u.withRx s w) := by
      unfold turn
      rw [withRx_rxbuf, hread]
    rw [hturn]
    rfl
  | some ws =>
    have hturn := turn_withRx (u := u) hread w
    simp only [refusal, hread] at hr
    split_ifs at hr with h1 h2 h3 h4 h5
    · rw [if_neg h1, if_pos h2] at hturn
      exact ⟨w, by rw [hturn]; rfl, .inr (.inl ⟨⟨ws, hread, h2⟩, rfl⟩)⟩
    · rw [if_neg h1, if_neg h2, if_pos h3] at hturn
      exact ⟨ws.headerSize + ws.n, by rw [hturn]; rfl, .inr (.inr ⟨h3, ws, rfl, rfl⟩)⟩
    · rw [if_neg h1, if_neg h2, if_neg h3, if_neg h4, if_neg h5] at hturn
      exact absurd hturn (turn_blocked (t := u.withRx s w) hb _)

end Transport

/-! ## 4. What is refused -/

theorem frameData_length {ws : WsHeader} {s : Bytes} (h : ws.headerSize + ws.n ≤ s.length) :
    (frameData ws s).length = ws.n := by
  have hlen : (unmaskReceiveBuffer ws s).length = s.length := by
    unfold unmaskReceiveBuffer
    split
    · simp only [List.length_append, List.length_take, List.length_drop, masked_length]
      omega
    · rfl
  unfold frameData
  rw [List.length_take, List.length_drop, hlen]
  omega

/-- What is refused is refused with more behind it. -/
theorem refusal_append {s m : Bytes} (hr : refusal s = some m) (c : Bytes) :
    refusal (s ++ c) = some m := by
  cases hread : readHeader s with
  | none => simp [refusal, hread] at hr
  | some ws =>
    simp only [refusal, hread, readHeader_append hread c] at hr ⊢
    split_ifs at hr with h1 h2 h3 h4 h5
    · rw [if_pos h1]
      exact hr
    all_goals
      have hle := Nat.not_lt.mp h3
      have hle' : ws.headerSize + ws.n ≤ (s ++ c).length := by
        rw [List.length_append]
        omega
      rw [if_neg h1, if_neg h2, if_neg (Nat.not_lt.mpr hle')]
    · rw [if_pos h4]
      exact hr
    · rw [frameData_length hle] at h5
      rw [if_neg h4, frameData_length hle', if_pos h5]
      exact hr

/-- A text that is read without its mask is refused like the one with it. -/
theorem refusal_unmasked {s m : Bytes} {ws : WsHeader} (hread : readHeader s = some ws)
    (hle : ws.headerSize + ws.n ≤ s.length) (hr : refusal s = some m) :
    refusal (unmaskReceiveBuffer ws s) = some m := by
  obtain ⟨f, rest, hs, rfl⟩ := readHeader_sound hread hle
  have hu : unmaskReceiveBuffer (headerOf f) s = f.header ++ (f.payload ++ rest) := by
    rw [hs, unmask_frame]
  have hread' := readHeader_frame f (f.payload ++ rest)
  have hlen : (f.header ++ (f.payload ++ rest)).length = s.length := by
    rw [hs]
    simp [Frame.bytes]
  simp only [refusal, hread] at hr
  simp only [hu, refusal, hread', hlen]
  rw [frameData_length (by rw [hlen]; exact hle)]
  rw [frameData_length hle] at hr
  exact hr

namespace Transport

variable {t u : Transport} {r : PollResult}

/-- What is refused closes the connection, and it stays in front. -/
theorem finish_refuses {s m : Bytes} (hr : refusal s = some m) (w : Nat) :
    ∃ s' w', (u.withRx s w).turn.finish .succeeded =
      (u.close kProtocolErrorCode m).withRx s' w' ∧ refusal s' = some m := by
  cases hread : readHeader s with
  | none => simp [refusal, hread] at hr
  | some ws =>
    have hturn := turn_withRx (u := u) hread w
    have hkept := hr
    simp only [refusal, hread] at hr
    split_ifs at hr with h1 h2 h3 h4 h5
    · obtain rfl := Option.some.inj hr
      rw [if_pos h1] at hturn
      exact ⟨s, w, by rw [hturn]; rfl, hkept⟩
    · obtain rfl := Option.some.inj hr
      rw [if_neg h1, if_neg h2, if_neg h3, if_pos h4] at hturn
      exact ⟨s, 0, by rw [hturn]; rfl, hkept⟩
    · obtain rfl := Option.some.inj hr
      rw [if_neg h1, if_neg h2, if_neg h3, if_neg h4, if_pos h5] at hturn
      exact ⟨_, 0, by rw [hturn]; rfl, refusal_unmasked hread (Nat.not_lt.mp h3) hkept⟩

/-- Nothing but a frame that is not acceptable is refused. -/
theorem refusal_blocked {s m : Bytes} (hr : refusal s = some m) : Blocked s := by
  intro f rest hs hf
  have hread : readHeader s = some (headerOf f) := by
    rw [hs, Frame.bytes, List.append_assoc]
    exact readHeader_frame f _
  have hle : (headerOf f).headerSize + (headerOf f).n ≤ s.length := by
    rw [hs, List.length_append, f.bytes_length]
    simp [headerOf]
  simp only [refusal, hread] at hr
  rw [frameData_length hle] at hr
  split_ifs at hr with h1 h2 h3 h4 h5
  · exact hf.rsv h1
  · exact hf.whole (by simpa [headerOf] using h4)
  · exact hf.ping h5

/-! ## 5. Closing twice -/

/-- A connection that is being closed, at the wish of this side. -/
def Leaving (t : Transport) : Prop := t.readyState = .closing ∧ t.requestInitCancellation = true

/-- A failed `send` does not close it a second time. -/
theorem sendOnSocket_leaving {t : Transport} (h : t.Leaving) :
    t.sendOnSocket.1.Leaving ∧ t.sendOnSocket.1.log = t.log := by
  have hover : t.handOver.Leaving ∧ t.handOver.log = t.log := ⟨h, rfl⟩
  unfold sendOnSocket
  simp only
  split
  · exact hover
  · split
    · exact hover
    · rw [if_neg (not_not.mpr (show t.handOver.closeSocket.readyState = .closing from h.1))]
      exact ⟨h, rfl⟩

theorem sendFragments_leaving {t : Transport} (h : t.Leaving) (fs : List Fragment) :
    (t.sendFragments fs).1.Leaving ∧ (t.sendFragments fs).1.log = t.log := by
  induction fs generalizing t with
  | nil => exact ⟨h, rfl⟩
  | cons f fs ih =>
    have hwrite : (t.writeFragment f.type f.fin f.message).Leaving := h
    have hnext : (t.sendFragment f.type f.fin f.message).1.Leaving ∧
        (t.sendFragment f.type f.fin f.message).1.log = t.log := sendOnSocket_leaving hwrite
    simp only [sendFragments]
    cases heq : t.sendFragment f.type f.fin f.message with
    | mk v ok =>
      rw [heq] at hnext
      cases ok with
      | true => exact ⟨(ih hnext.1).1, (ih hnext.1).2.trans hnext.2⟩
      | false => exact hnext

theorem sendData_leaving {t : Transport} (h : t.Leaving) (type : Opcode) (message : Bytes) :
    (t.sendData type message).1.Leaving ∧ (t.sendData type message).1.log = t.log := by
  unfold sendData
  split
  · exact ⟨h, rfl⟩
  · exact sendFragments_leaving h _

/-- The first call of `close`. -/
theorem close_leaving {t : Transport} (code : Nat) (reason : Bytes)
    (hs : ¬ (t.readyState = .closing ∨ t.readyState = .closed)) :
    (t.close code reason).Leaving ∧ (t.close code reason).log = t.log := by
  rw [close_first hs]
  have h0 : ({ t with
      requestInitCancellation := true
      closeReason := reason
      closeCode := code
      closeRemote := false }.setReadyState .closing : Transport).Leaving ∧
      ({ t with
        requestInitCancellation := true
        closeReason := reason
        closeCode := code
        closeRemote := false }.setReadyState .closing : Transport).log = t.log := by
    unfold setReadyState
    rw [if_neg (fun h => hs (.inl h))]
    exact ⟨⟨rfl, rfl⟩, rfl⟩
  unfold sendCloseFrame
  split
  · exact ⟨(sendData_leaving h0.1 _ _).1, (sendData_leaving h0.1 _ _).2.trans h0.2⟩
  · exact ⟨(sendData_leaving h0.1 _ _).1, (sendData_leaving h0.1 _ _).2.trans h0.2⟩

/-- Behind `close` the connection is being closed, or it is closed. -/
theorem close_readyState (t : Transport) (code : Nat) (reason : Bytes) :
    (t.close code reason).readyState = .closing ∨ (t.close code reason).readyState = .closed := by
  by_cases hs : t.readyState = .closing ∨ t.readyState = .closed
  · rw [close_again hs]
    exact hs
  · exact .inl (close_leaving _ _ hs).1.1

theorem close_again_same (t : Transport) (code code' : Nat) (reason reason' : Bytes) :
    (t.close code reason).close code' reason' = t.close code reason := by
  rw [close_again (t.close_readyState code reason)]
  by_cases hs : t.readyState = .closing ∨ t.readyState = .closed
  · rw [close_again hs]
  · have hcancel : (t.close code reason).requestInitCancellation = true :=
      (close_leaving _ _ hs).1.2
    show { t.close code reason with requestInitCancellation := true } = _
    rw [← hcancel]

end Transport

/-! ## 6. What a call leaves behind -/

/-- **From `t` to `u` a connection has gone on**: a socket that is closed stays closed, no callback
    is taken back, and what is OPEN has been OPEN all along, on the same socket. -/
structure Onward (t u : Transport) : Prop where
  socket : u.kernel.isOpen = true → t.kernel.isOpen = true
  opened : u.readyState = .opened →
    t.readyState = .opened ∧ (t.kernel.isOpen = true → u.kernel.isOpen = true)
  calls : t.log <+: u.log

theorem Onward.trans {t u v : Transport} (h : Onward t u) (h' : Onward u v) : Onward t v where
  socket := fun ho => h.socket (h'.socket ho)
  opened := fun ho => by
    obtain ⟨hu, hv⟩ := h'.opened ho
    obtain ⟨ht, hu'⟩ := h.opened hu
    exact ⟨ht, fun hk => hv (hu' hk)⟩
  calls := h.calls.trans h'.calls

/-- Neither the socket, the ready state nor the callbacks have changed. -/
theorem Onward.still {t u : Transport} (hk : u.kernel.isOpen = t.kernel.isOpen)
    (hs : u.readyState = t.readyState) (hl : u.log = t.log) : Onward t u where
  socket := fun ho => hk ▸ ho
  opened := fun ho => ⟨hs ▸ ho, fun h => hk ▸ h⟩
  calls := by rw [hl]

theorem Onward.refl (t : Transport) : Onward t t := .still rfl rfl rfl

/-- The connection is not OPEN any more. -/
theorem Onward.left {t u : Transport} (hk : u.kernel.isOpen = true → t.kernel.isOpen = true)
    (hs : u.readyState ≠ .opened) (hl : t.log <+: u.log) : Onward t u where
  socket := hk
  opened := fun ho => absurd ho hs
  calls := hl

namespace Transport

theorem setReadyState_readyState (t : Transport) (s : ReadyState) :
    (t.setReadyState s).readyState = s := by
  unfold setReadyState
  split
  · assumption
  · cases s <;> rfl

theorem setReadyState_kernel (t : Transport) (s : ReadyState) :
    (t.setReadyState s).kernel = t.kernel := by
  unfold setReadyState
  split
  · rfl
  · cases s <;> rfl

theorem setReadyState_calls (t : Transport) (s : ReadyState) :
    t.log <+: (t.setReadyState s).log := by
  unfold setReadyState
  split
  · exact List.prefix_rfl
  · cases s with
    | closed => exact List.prefix_append _ _
    | closing | connecting | opened => exact List.prefix_rfl

theorem setReadyState_onward (t : Transport) {s : ReadyState} (h : s ≠ .opened) :
    Onward t (t.setReadyState s) :=
  .left (fun ho => t.setReadyState_kernel s ▸ ho) (by rwa [setReadyState_readyState])
    (t.setReadyState_calls s)

/-- The socket is closed, and then the connection. -/
theorem shut_onward (t : Transport) : Onward t (t.closeSocket.setReadyState .closed) := by
  refine .left (fun ho => ?_) (by rw [setReadyState_readyState]; decide)
    (t.closeSocket.setReadyState_calls .closed)
  rw [setReadyState_kernel] at ho
  cases ho

theorem sendOnSocket_onward (t : Transport) : Onward t t.sendOnSocket.1 := by
  have hover : Onward t t.handOver := .still rfl rfl rfl
  unfold sendOnSocket
  simp only
  split
  · exact hover
  · split
    · exact hover
    · split
      · exact hover.trans t.handOver.shut_onward
      · rename_i hs
        have hclosing : t.handOver.closeSocket.readyState = .closing := not_not.mp hs
        exact hover.trans (.left (fun ho => by cases ho) (by rw [hclosing]; decide)
          List.prefix_rfl)

theorem sendFragments_onward (t : Transport) (fs : List Fragment) :
    Onward t (t.sendFragments fs).1 := by
  induction fs generalizing t with
  | nil => exact .refl t
  | cons f fs ih =>
    have hwrite : Onward t (t.writeFragment f.type f.fin f.message) := .still rfl rfl rfl
    have hfirst : Onward t (t.sendFragment f.type f.fin f.message).1 :=
      hwrite.trans (sendOnSocket_onward _)
    simp only [sendFragments]
    cases heq : t.sendFragment f.type f.fin f.message with
    | mk v ok =>
      rw [heq] at hfirst
      cases ok with
      | true => exact hfirst.trans (ih v)
      | false => exact hfirst

theorem sendData_onward (t : Transport) (type : Opcode) (message : Bytes) :
    Onward t (t.sendData type message).1 := by
  unfold sendData
  split
  · exact .refl t
  · exact t.sendFragments_onward _

theorem sendCloseFrame_onward (t : Transport) (code : Nat) (reason : Bytes) :
    Onward t (t.sendCloseFrame code reason) := by
  unfold sendCloseFrame
  split <;> exact t.sendData_onward _ _

theorem storeClosing_onward (t : Transport) (code : Nat) (reason : Bytes) :
    Onward t (t.storeClosing code reason) := by
  have hstore : Onward t { t with closeReason := reason, closeCode := code, closeRemote := false } :=
    .still rfl rfl rfl
  exact hstore.trans (setReadyState_onward _ (s := .closing) (by decide))

theorem close_onward (t : Transport) (code : Nat) (reason : Bytes) :
    Onward t (t.close code reason) := by
  have hcancel : Onward t { t with requestInitCancellation := true } := .still rfl rfl rfl
  by_cases hs : t.readyState = .closing ∨ t.readyState = .closed
  · rw [close_again hs]
    exact hcancel
  · rw [close_first hs]
    exact (hcancel.trans (storeClosing_onward _ code reason)).trans
      (sendCloseFrame_onward _ code reason)

theorem closeSocketAndSwitchToClosedState_onward (t : Transport) (code : Nat) (reason : Bytes)
    (remote : Bool) : Onward t (t.closeSocketAndSwitchToClosedState code reason remote) := by
  have hstore : Onward t { t with
      closeReason := reason, closeCode := code, closeRemote := remote } := .still rfl rfl rfl
  exact (hstore.trans (shut_onward _)).trans (.still rfl rfl rfl)

theorem emitMessage_onward (t : Transport) (kind : MessageKind) (message : Bytes) :
    Onward t (t.emitMessage kind message) := by
  unfold emitMessage
  split
  · exact t.close_onward _ _
  · exact ⟨id, fun ho => ⟨ho, id⟩, List.prefix_append _ _⟩

theorem inSequence_onward (t : Transport) (opcode : Opcode) :
    Onward t (t.inSequence opcode) := by
  have hkind : ∀ kind, Onward t (t.setKind kind) := fun kind => .still rfl rfl rfl
  unfold inSequence
  split
  · generalize (if opcode = .text then MessageKind.msgText else .msgBinary) = kind
    simp only
    split
    · exact (hkind _).trans (close_onward _ _ _)
    · exact hkind _
  · split
    · exact t.close_onward _ _
    · exact .refl t

theorem collect_onward (t : Transport) (fin : Bool) (s : Bytes) : Onward t (t.collect fin s) := by
  have hpush : Onward t (t.pushChunk s) := .still rfl rfl rfl
  have hclear : ∀ v : Transport, Onward v v.clearChunks := fun v => .still rfl rfl rfl
  unfold collect
  split
  · exact t.emitMessage_onward _ _
  · simp only
    split
    · exact (hpush.trans (emitMessage_onward _ _ _)).trans (hclear _)
    · exact hpush.trans (emitMessage_onward _ _ _)

theorem pingFrame_onward (t : Transport) (s : Bytes) : Onward t (t.pingFrame s) := by
  unfold pingFrame
  simp only
  split
  · exact (t.sendData_onward _ _).trans (emitMessage_onward _ _ _)
  · exact t.emitMessage_onward _ _

theorem closeFrame_onward (t : Transport) (s : Bytes) : Onward t (t.closeFrame s) := by
  unfold closeFrame
  simp only
  split
  · exact ((t.setReadyState_onward (by decide)).trans (sendCloseFrame_onward _ _ _)).trans
      (closeSocketAndSwitchToClosedState_onward _ _ _ _)
  · split
    · exact t.closeSocketAndSwitchToClosedState_onward _ _ _
    · exact .refl t

theorem wholeFrame_onward (t : Transport) (opcode : Opcode) (fin : Bool) (s : Bytes) :
    Onward t (t.wholeFrame opcode fin s) := by
  have hpong : Onward t { t with pongReceived := true } := .still rfl rfl rfl
  unfold wholeFrame
  split
  · exact (t.inSequence_onward opcode).trans (collect_onward _ fin s)
  · split
    · exact t.pingFrame_onward s
    · split
      · exact hpong.trans (emitMessage_onward _ _ _)
      · split
        · exact t.closeFrame_onward s
        · exact t.close_onward _ _

theorem takeAll_onward (t : Transport) (fs : List Frame) : Onward t (t.takeAll fs) := by
  induction fs generalizing t with
  | nil => exact .refl t
  | cons f fs ih => exact (t.wholeFrame_onward _ _ _).trans (ih _)

end Transport

/-! ## 7. However the bytes are cut -/

namespace Transport

variable {t u : Transport}

/-- `dispatch` takes the frames in front and leaves the rest, or closes the connection over it. -/
theorem dispatch_report (t : Transport) {fs : List Frame} {tail : Bytes}
    (hfs : ∀ f ∈ fs, Acceptable f) (hb : Blocked tail) (w : Nat) :
    (refusal tail = none → ∃ w', (t.withRx (fs.flatMap Frame.bytes ++ tail) w).dispatch .succeeded =
      (t.takeAll fs).withRx tail w') ∧
    ∀ m, refusal tail = some m → ∃ s' w',
      (t.withRx (fs.flatMap Frame.bytes ++ tail) w).dispatch .succeeded =
        ((t.takeAll fs).close kProtocolErrorCode m).withRx s' w' ∧ refusal s' = some m := by
  obtain ⟨v, hv, -⟩ := t.dispatch_takes (r := .succeeded) hfs tail w
  have hends : ((t.takeAll fs).withRx tail v).dispatch .succeeded =
      ((t.takeAll fs).withRx tail v).turn.finish .succeeded :=
    dispatch_ends (turn_blocked hb)
  rw [hv, hends]
  exact ⟨fun hr => (finish_waits hb hr v).imp fun _ h => h.1, fun m hr => finish_refuses hr v⟩

/-- What was wanted before makes no difference. -/
theorem dispatch_wanted (t : Transport) (s : Bytes) (w w' : Nat) :
    ((t.withRx s w).dispatch .succeeded).outside =
      ((t.withRx s w').dispatch .succeeded).outside := by
  obtain ⟨fs, tail, rfl, hfs, hb⟩ := exists_frames s
  obtain ⟨h1, h2⟩ := t.dispatch_report hfs hb w
  obtain ⟨h1', h2'⟩ := t.dispatch_report hfs hb w'
  cases hr : refusal tail with
  | none =>
    obtain ⟨v, hv⟩ := h1 hr
    obtain ⟨v', hv'⟩ := h1' hr
    rw [hv, hv']
    rfl
  | some m =>
    obtain ⟨s, v, hv, -⟩ := h2 m hr
    obtain ⟨s', v', hv', -⟩ := h2' m hr
    rw [hv, hv']
    rfl

/-- More bytes. -/
def more (t : Transport) (b : Bytes) : Transport := t.withRx (t.rxbuf ++ b) t.rxbufWanted

theorem withRx_onward (t : Transport) (b : Bytes) (w : Nat) : Onward t (t.withRx b w) :=
  .still rfl rfl rfl

/-- **In two calls or in one.** -/
theorem dispatch_more (t : Transport) (c : Bytes) :
    (((t.dispatch .succeeded).more c).dispatch .succeeded).outside =
      ((t.more c).dispatch .succeeded).outside := by
  obtain ⟨fs, tail, hrx, hfs, hb⟩ := exists_frames t.rxbuf
  have hself : t.withRx (fs.flatMap Frame.bytes ++ tail) t.rxbufWanted = t := by
    rw [← hrx]
    exact t.withRx_self
  obtain ⟨w, hw, -⟩ := t.dispatch_takes (r := .succeeded) hfs (tail ++ c) t.rxbufWanted
  have hmore : (t.more c).dispatch .succeeded =
      ((t.takeAll fs).withRx (tail ++ c) w).dispatch .succeeded := by
    rw [← hw, more, hrx, List.append_assoc]
  obtain ⟨h1, h2⟩ := t.dispatch_report hfs hb t.rxbufWanted
  rw [hself] at h1 h2
  rw [hmore]
  cases hr : refusal tail with
  | none =>
    obtain ⟨v, hv⟩ := h1 hr
    rw [hv]
    exact dispatch_wanted (t.takeAll fs) (tail ++ c) v w
  | some m =>
    obtain ⟨s, v, hv, hs⟩ := h2 m hr
    have hleft := refusal_append hs c
    have hright := refusal_append hr c
    have hnone : ∀ f ∈ ([] : List Frame), Acceptable f := by simp
    obtain ⟨s1, v1, hv1, -⟩ := (((t.takeAll fs).close kProtocolErrorCode m).dispatch_report
      hnone (refusal_blocked hleft) v).2 m hleft
    obtain ⟨s2, v2, hv2, -⟩ := ((t.takeAll fs).dispatch_report
      hnone (refusal_blocked hright) w).2 m hright
    have h1 : ((t.dispatch .succeeded).more c).dispatch .succeeded =
        (((t.takeAll fs).close kProtocolErrorCode m).close kProtocolErrorCode m).withRx s1 v1 := by
      rw [hv]
      exact hv1
    have h2 : ((t.takeAll fs).withRx (tail ++ c) w).dispatch .succeeded =
        ((t.takeAll fs).close kProtocolErrorCode m).withRx s2 v2 := hv2
    rw [h1, h2, outside_withRx, outside_withRx]
    exact congrArg outside (close_again_same _ _ _ _ _)

/-- `dispatch` only goes on. -/
theorem dispatch_onward (t : Transport) : Onward t (t.dispatch .succeeded) := by
  obtain ⟨fs, tail, hrx, hfs, hb⟩ := exists_frames t.rxbuf
  have hself : t.withRx (fs.flatMap Frame.bytes ++ tail) t.rxbufWanted = t := by
    rw [← hrx]
    exact t.withRx_self
  obtain ⟨h1, h2⟩ := t.dispatch_report hfs hb t.rxbufWanted
  rw [hself] at h1 h2
  cases hr : refusal tail with
  | none =>
    obtain ⟨w, hw⟩ := h1 hr
    rw [hw]
    exact (t.takeAll_onward fs).trans (withRx_onward _ _ _)
  | some m =>
    obtain ⟨s, w, hw, -⟩ := h2 m hr
    rw [hw]
    exact ((t.takeAll_onward fs).trans (close_onward _ _ _)).trans (withRx_onward _ _ _)

/-- One round of `poll`, which has received `b`, and of `dispatch`. A closed socket answers no
    bytes. -/
def hear (t : Transport) (b : Bytes) : Transport :=
  if t.kernel.isOpen then (t.more b).dispatch .succeeded else t

/-- One round after the other; `cuts` are the bytes that each has received. -/
def feed (t : Transport) (cuts : List Bytes) : Transport := cuts.foldl hear t

theorem feed_append (t : Transport) (cuts : List Bytes) (b : Bytes) :
    t.feed (cuts ++ [b]) = (t.feed cuts).hear b := by
  simp [feed]

theorem hear_onward (t : Transport) (b : Bytes) : Onward t (t.hear b) := by
  unfold hear
  split
  · exact (t.withRx_onward _ _).trans (dispatch_onward _)
  · exact .refl t

theorem feed_onward (t : Transport) (cuts : List Bytes) : Onward t (t.feed cuts) := by
  induction cuts generalizing t with
  | nil => exact .refl t
  | cons b cuts ih => exact (t.hear_onward b).trans (ih _)

/-- What has been received behind other pieces, on a socket that is still open. -/
theorem feed_more (t : Transport) (cuts : List Bytes) (c : Bytes)
    (hopen : (t.feed cuts).kernel.isOpen = true) :
    (((t.feed cuts).more c).dispatch .succeeded).outside =
      ((t.more (cuts.flatten ++ c)).dispatch .succeeded).outside := by
  induction cuts generalizing t with
  | nil => rfl
  | cons b cuts ih =>
    have hopen' : t.kernel.isOpen = true := (t.feed_onward (b :: cuts)).socket hopen
    have hmore : (t.more b).more (cuts.flatten ++ c) = t.more ((b :: cuts).flatten ++ c) := by
      simp [more]
    have hfirst : t.hear b = (t.more b).dispatch .succeeded := if_pos hopen'
    calc _ = ((((t.hear b).more (cuts.flatten ++ c)).dispatch .succeeded).outside) := ih _ hopen
      _ = (((t.more b).more (cuts.flatten ++ c)).dispatch .succeeded).outside := by
          rw [hfirst]
          exact dispatch_more _ _
      _ = _ := by rw [hmore]

/-- **Pieces are taken like a beginning of them at once**: all of them, or as many as had come when
    the socket was closed. -/
theorem feed_reaches (t : Transport) {cuts : List Bytes} (h : cuts ≠ [])
    (hopen : t.kernel.isOpen = true) : ∃ front rest, cuts = front ++ rest ∧
      (t.feed cuts).outside = ((t.more front.flatten).dispatch .succeeded).outside ∧
      (rest = [] ∨ (t.feed cuts).kernel.isOpen = false) := by
  induction cuts using List.reverseRecOn with
  | nil => exact absurd rfl h
  | append_singleton cuts b ih =>
    rw [feed_append]
    cases hk : (t.feed cuts).kernel.isOpen with
    | true =>
      refine ⟨cuts ++ [b], [], by simp, ?_, .inl rfl⟩
      rw [hear, if_pos hk, feed_more t cuts b hk]
      simp
    | false =>
      have hne : cuts ≠ [] := by
        rintro rfl
        rw [show t.feed [] = t from rfl, hopen] at hk
        cases hk
      obtain ⟨front, rest, rfl, hout, -⟩ := ih hne
      have hstay : (t.feed (front ++ rest)).hear b = t.feed (front ++ rest) := by simp [hear, hk]
      rw [hstay]
      exact ⟨front, rest ++ [b], by simp, hout, .inr hk⟩

/-- What was received in pieces, on a socket that is still open, is taken like what was received at
    once. -/
theorem feed_flatten (t : Transport) {cuts : List Bytes} (h : cuts ≠ [])
    (hopen : (t.feed cuts).kernel.isOpen = true) :
    (t.feed cuts).outside = ((t.more cuts.flatten).dispatch .succeeded).outside := by
  obtain ⟨front, rest, rfl, hout, hrest | hclosed⟩ :=
    t.feed_reaches h ((t.feed_onward cuts).socket hopen)
  · rw [hrest, List.append_nil] at hout ⊢
    exact hout
  · rw [hopen] at hclosed
    cases hclosed

/-- A new connection. -/
def fresh : Transport := (create true .msgText).connectToUrl 100

/-- An unmasked TEXT frame of two letters. -/
def hiFrame : Frame := ⟨true, false, false, false, .text, none, .seven, ascii "hi", by decide⟩

/-- Behind a CLOSE frame a text is handed on if it has come in the same round. -/
example : heard (fresh.feed [[0x88, 0] ++ hiFrame.bytes]).log = [(.text, ascii "hi")] ∧
    heard (fresh.feed [[0x88, 0], hiFrame.bytes]).log = [] := by decide +kernel

end Transport

/-! ## 8. What an open connection has received -/

/-- The opcodes of the frames that an OPEN connection takes: neither CLOSE nor a reserved one. -/
def Carried (o : Opcode) : Prop :=
  o = .text ∨ o = .binary ∨ o = .continuation ∨ o = .ping ∨ o = .pong

namespace Transport

variable {t u : Transport}

/-- Behind `close` a connection is not OPEN. -/
theorem close_not_opened (t : Transport) (code : Nat) (reason : Bytes) :
    (t.close code reason).readyState ≠ .opened := by
  rcases t.close_readyState code reason with h | h <;> rw [h] <;> decide

/-- Behind a CLOSE frame it is not OPEN. -/
theorem closeFrame_not_opened (t : Transport) (s : Bytes) :
    (t.closeFrame s).readyState ≠ .opened := by
  have hswitch : ∀ (v : Transport) (code : Nat) (reason : Bytes) (remote : Bool),
      (v.closeSocketAndSwitchToClosedState code reason remote).readyState = .closed := by
    intro v code reason remote
    unfold closeSocketAndSwitchToClosedState
    exact setReadyState_readyState _ .closed
  unfold closeFrame
  simp only
  split
  · rw [hswitch]
    decide
  · rename_i hs
    split
    · rw [hswitch]
      decide
    · rw [not_not.mp hs]
      decide

theorem emitMessage_opened {kind : MessageKind} {s : Bytes}
    (h : (t.emitMessage kind s).readyState = .opened) :
    t.readyState = .opened ∧ (kind = .msgText → validateUtf8 s = true) := by
  unfold emitMessage at h
  split at h
  · exact absurd h (t.close_not_opened _ _)
  · rename_i hv
    exact ⟨h, fun hk => by_contra fun hn => hv ⟨hk, hn⟩⟩

theorem collect_opened {fin : Bool} {s : Bytes}
    (h : (t.collect fin s).readyState = .opened) : t.readyState = .opened ∧
      (fin = true → t.fragmentedMessageKind = .msgText →
        validateUtf8 (t.chunks.flatten ++ s) = true) := by
  unfold collect at h
  split at h
  · rename_i hc
    obtain ⟨h1, h2⟩ := emitMessage_opened h
    exact ⟨h1, fun _ hk => by simpa [hc.2] using h2 hk⟩
  · cases fin with
    | true =>
      obtain ⟨h1, h2⟩ := emitMessage_opened (t := t.pushChunk s) (by simpa [clearChunks] using h)
      exact ⟨h1, fun _ hk => by simpa [pushChunk] using h2 hk⟩
    | false =>
      simp only [Bool.false_eq_true, if_false] at h
      exact ⟨(emitMessage_opened (t := t.pushChunk s) h).1, fun hf => by cases hf⟩

theorem inSequence_opened {o : Opcode} (h : (t.inSequence o).readyState = .opened) :
    t.readyState = .opened ∧ (o = .continuation ↔ t.chunks ≠ []) := by
  by_cases ho : o = .continuation
  · rw [inSequence, if_neg (not_not.mpr ho)] at h
    split at h
    · exact absurd h (close_not_opened _ _ _)
    · rename_i hc
      exact ⟨h, iff_of_true ho hc⟩
  · rw [inSequence, if_pos ho] at h
    by_cases hc : t.chunks = []
    · simp only [setKind, hc, ne_eq, not_true_eq_false, if_false] at h
      exact ⟨h, iff_of_false ho (not_not.mpr hc)⟩
    · refine absurd h ?_
      simp only [setKind, ne_eq, hc, not_false_eq_true, if_true]
      exact close_not_opened _ _ _

/-- Behind a frame with any other opcode it is not OPEN either. -/
theorem wholeFrame_carried {opcode : Opcode} {fin : Bool} {s : Bytes}
    (h : (t.wholeFrame opcode fin s).readyState = .opened) : Carried opcode := by
  unfold wholeFrame at h
  split at h
  · rename_i hd
    rcases hd with hd | hd | hd
    · exact .inl hd
    · exact .inr (.inl hd)
    · exact .inr (.inr (.inl hd))
  · split at h
    · exact .inr (.inr (.inr (.inl ‹_›)))
    · split at h
      · exact .inr (.inr (.inr (.inr ‹_›)))
      · split at h
        · exact absurd h (t.closeFrame_not_opened _)
        · exact absurd h (t.close_not_opened _ _)

/-- **A frame behind which the connection is OPEN** stood in its place. -/
theorem wholeFrame_opened {f : Frame} (hk : t.Kinded) (hf : Acceptable f)
    (h : (t.wholeFrame f.opcode f.fin f.payload).readyState = .opened) :
    ∃ q is, absorb t.under f.piece = some (q, is) ∧ ∀ m ∈ messages is, Valid m := by
  by_cases hd : f.opcode = .text ∨ f.opcode = .binary ∨ f.opcode = .continuation
  · rw [wholeFrame, if_pos hd] at h
    obtain ⟨hseq, hvalid⟩ := collect_opened h
    obtain ⟨-, hcont⟩ := inSequence_opened hseq
    by_cases hn : f.opcode = .continuation
    · obtain ⟨p, hu⟩ : ∃ p, t.under = some p := ⟨_, if_neg (hcont.mp hn)⟩
      obtain ⟨hc, hkind, hpay⟩ := under_some hk hu
      have hsame : t.inSequence f.opcode = t := by
        simp [inSequence, hn, hc]
      rw [hsame, hkind, hpay] at hvalid
      refine ⟨_, _, by rw [hu, Frame.piece, hn]; exact absorb_continuation p f.fin f.payload, ?_⟩
      intro m hm
      cases hfin : f.fin with
      | false => simp [hfin, messages] at hm
      | true =>
        obtain rfl : m = (p.kind, p.payload ++ f.payload) := by simpa [hfin, messages] using hm
        intro hkt
        exact hvalid hfin (by rw [show p.kind = .text from hkt]; rfl)
    · obtain ⟨k, ho⟩ : ∃ k : Kind, f.opcode = k.opcode := by
        rcases hd with h | h | h
        · exact ⟨.text, h⟩
        · exact ⟨.binary, h⟩
        · exact absurd h hn
      have hc : t.chunks = [] := not_not.mp fun hc => hn (hcont.mpr hc)
      have hu : t.under = none := if_pos hc
      rw [ho, inSequence_first k hc] at hvalid
      refine ⟨_, _, by rw [hu, Frame.piece, ho]; exact absorb_first k f.fin f.payload, ?_⟩
      intro m hm
      cases hfin : f.fin with
      | false => simp [hfin, messages] at hm
      | true =>
        obtain rfl : m = (k, f.payload) := by simpa [hfin, messages] using hm
        intro hkt
        simpa [setKind, hc] using hvalid hfin (by rw [show k = .text from hkt]; rfl)
  · have ho : f.opcode = .ping ∨ f.opcode = .pong := by
      rcases wholeFrame_carried h with ho | ho | ho | ho
      · exact absurd (.inl ho) hd
      · exact absurd (.inr (.inl ho)) hd
      · exact absurd (.inr (.inr ho)) hd
      · exact ho
    have hfin : f.fin = true := by
      cases hfin : f.fin with
      | true => rfl
      | false => exact absurd ⟨hfin, by rcases ho with ho | ho <;> simp [ho]⟩ hf.whole
    have hc : f.opcode.IsControl := by rcases ho with ho | ho <;> rw [ho] <;> decide
    exact ⟨_, _, absorb_control t.under hc hfin, by simp [messages]⟩

/-- **Frames behind which the connection is OPEN** followed the protocol. -/
theorem takeAll_opened {fs : List Frame} (hk : t.Kinded) (hfs : ∀ f ∈ fs, Acceptable f)
    (h : (t.takeAll fs).readyState = .opened) :
    (∀ f ∈ fs, Carried f.opcode) ∧
      ∃ is, absorbs t.under (fs.map Frame.piece) = some ((t.takeAll fs).under, is) ∧
        heard (t.takeAll fs).log = heard t.log ++ messages is ∧ ∀ m ∈ messages is, Valid m := by
  induction fs generalizing t with
  | nil => exact ⟨by simp, [], rfl, by simp [takeAll, messages], by simp [messages]⟩
  | cons f fs ih =>
    have hf := hfs f List.mem_cons_self
    have hrest : ∀ g ∈ fs, Acceptable g := fun g hg => hfs g (List.mem_cons_of_mem f hg)
    have hopen : (t.wholeFrame f.opcode f.fin f.payload).readyState = .opened :=
      ((t.wholeFrame f.opcode f.fin f.payload).takeAll_onward fs).opened h |>.1
    have hcarried := wholeFrame_carried hopen
    obtain ⟨q, is, habs, hvalid⟩ := wholeFrame_opened hk hf hopen
    have hreads := wholeFrame_reads hk
      (fun ho => Nat.not_lt.mp fun hl => hf.ping ⟨ho, hl⟩)
      (fun ho => absurd (ho ▸ hcarried) (by simp [Carried, Opcode.close, Opcode.text,
        Opcode.binary, Opcode.continuation, Opcode.ping, Opcode.pong])) habs hvalid
    obtain ⟨hcarried', js, hrow, hheard, hvalid'⟩ := ih hreads.kinded hrest h
    refine ⟨?_, is ++ js, ?_, ?_, ?_⟩
    · intro g hg
      rcases List.mem_cons.mp hg with rfl | hg
      · exact hcarried
      · exact hcarried' g hg
    · rw [hreads.under] at hrow
      rw [List.map_cons, absorbs, habs, Option.bind_some]
      simp only [hrow]
      rfl
    · rw [messages_append, ← List.append_assoc, ← hreads.hears]
      exact hheard
    · intro m hm
      rw [messages_append] at hm
      rcases List.mem_append.mp hm with hm | hm
      · exact hvalid m hm
      · exact hvalid' m hm

/-- **What a connection that is still OPEN has received**, from any server and in any pieces: TEXT,
    BINARY, CONTINUATION, PING and PONG frames without reserved bits, each in its place, the control
    frames whole and the pings short, and behind them bytes that are no whole frame yet and not
    refused. It has handed on exactly the messages these frames make up, every text of them in
    UTF-8. -/
theorem open_wellFormed (t : Transport) (cuts : List Bytes) (hne : cuts ≠ []) (hk : t.Kinded)
    (hrx : t.rxbuf = []) (hsocket : t.kernel.isOpen = true)
    (hopen : (t.feed cuts).readyState = .opened) :
    ∃ (fs : List Frame) (tail : Bytes) (is : List Item),
      cuts.flatten = fs.flatMap Frame.bytes ++ tail ∧ Blocked tail ∧ refusal tail = none ∧
      (∀ f ∈ fs, Acceptable f ∧ Carried f.opcode) ∧
      absorbs t.under (fs.map Frame.piece) = some ((t.feed cuts).under, is) ∧
      heard (t.feed cuts).log = heard t.log ++ messages is ∧ ∀ m ∈ messages is, Valid m := by
  obtain ⟨fs, tail, hs, hfs, hb⟩ := exists_frames cuts.flatten
  have hout : (t.feed cuts).outside =
      ((t.withRx (fs.flatMap Frame.bytes ++ tail) t.rxbufWanted).dispatch .succeeded).outside := by
    rw [feed_flatten t hne (((t.feed_onward cuts).opened hopen).2 hsocket), more, hrx, hs]
    rfl
  obtain ⟨h1, h2⟩ := t.dispatch_report hfs hb t.rxbufWanted
  cases hr : refusal tail with
  | some m =>
    obtain ⟨s', w', hd, -⟩ := h2 m hr
    rw [hd, outside_withRx] at hout
    exact absurd ((outside_eq hout).1 ▸ hopen) (close_not_opened _ _ _)
  | none =>
    obtain ⟨w', hd⟩ := h1 hr
    rw [hd, outside_withRx] at hout
    obtain ⟨hstate, hunder, hlog, -⟩ := outside_eq hout
    obtain ⟨hcarried, is, hrow, hheard, hvalid⟩ := takeAll_opened hk hfs (hstate ▸ hopen)
    exact ⟨fs, tail, is, hs, hb, hr, fun f hf => ⟨hfs f hf, hcarried f hf⟩,
      hunder ▸ hrow, hlog ▸ hheard, hvalid⟩

/-- A text, and the first byte of what follows it. -/
theorem open_wellFormed_hi : (fresh.feed [hiFrame.bytes, [0x89]]).readyState = .opened ∧
    ∃ (fs : List Frame) (tail : Bytes) (is : List Item),
      hiFrame.bytes ++ [0x89] = fs.flatMap Frame.bytes ++ tail ∧ Blocked tail ∧ refusal tail = none ∧
      (∀ f ∈ fs, Acceptable f ∧ Carried f.opcode) ∧
      absorbs fresh.under (fs.map Frame.piece) =
        some ((fresh.feed [hiFrame.bytes, [0x89]]).under, is) ∧
      heard (fresh.feed [hiFrame.bytes, [0x89]]).log = heard fresh.log ++ messages is ∧
      ∀ m ∈ messages is, Valid m := by
  have hopen : (fresh.feed [hiFrame.bytes, [0x89]]).readyState = .opened := by decide +kernel
  exact ⟨hopen, open_wellFormed fresh [hiFrame.bytes, [0x89]] (List.cons_ne_nil _ _)
    (fun h => absurd rfl h) rfl rfl hopen⟩

/-! ## 9. Reading goes on -/

/-- In front of no header nothing is wanted. -/
def Wanting (t : Transport) : Prop := readHeader t.rxbuf = none → t.rxbufWanted = 0

theorem readHeader_none_short {s : Bytes} (h : readHeader s = none) : s.length < kChunkSize := by
  have hk : kChunkSize = 32768 := rfl
  match s, h with
  | [], _ | [_], _ => simp [hk]
  | d0 :: d1 :: data, h =>
    simp only [readHeader] at h
    split at h
    · rename_i hlt
      have hle : headerSize (d1 &&& 0x7f).toNat (d1 &&& 0x80 == 0x80) ≤ 16 := by
        unfold headerSize
        split <;> split <;> split <;> omega
      omega
    · cases h

/-- Behind a call of `dispatch`. -/
theorem dispatch_wanting {t : Transport} (h : t.Wanting)
    (hopen : (t.dispatch .succeeded).readyState = .opened) :
    (t.dispatch .succeeded).Wanting ∧
      ((t.dispatch .succeeded).hasRead = false ∨ TooLarge (t.dispatch .succeeded).rxbuf) := by
  obtain ⟨fs, tail, hrx, hfs, hb⟩ := exists_frames t.rxbuf
  have hself : t.withRx (fs.flatMap Frame.bytes ++ tail) t.rxbufWanted = t := by
    rw [← hrx]
    exact t.withRx_self
  obtain ⟨w, hw, hwanted⟩ := t.dispatch_takes (r := .succeeded) hfs tail t.rxbufWanted
  rw [hself, dispatch_ends (turn_blocked (t := (t.takeAll fs).withRx tail w) hb)] at hw
  cases hr : refusal tail with
  | some m =>
    obtain ⟨s', w', hd, -⟩ := finish_refuses (u := t.takeAll fs) hr w
    rw [hw, hd] at hopen
    exact absurd hopen (close_not_opened _ _ _)
  | none =>
    obtain ⟨w', hd, hcase⟩ := finish_waits (u := t.takeAll fs) hb hr w
    rw [hw, hd]
    rcases hcase with ⟨hread, rfl⟩ | ⟨hlarge, rfl⟩ | ⟨hlt, ws, hread, rfl⟩
    · -- no header is there, so nothing can have been wanted
      have hzero : w' = 0 := by
        rcases hwanted with h0 | ⟨rfl, rfl⟩
        · exact h0
        · exact h (by rw [hrx]; exact hread)
      subst hzero
      have hshort := Nat.not_le.mpr (readHeader_none_short hread)
      exact ⟨fun _ => rfl, .inl (by simp [hasRead, hshort])⟩
    · refine ⟨fun hn => ?_, .inr hlarge⟩
      obtain ⟨ws, hread, -⟩ := hlarge
      rw [withRx_rxbuf, hread] at hn
      cases hn
    · refine ⟨fun hn => ?_, .inl ?_⟩
      · rw [withRx_rxbuf, hread] at hn
        cases hn
      · have hpos : ws.headerSize + ws.n ≠ 0 := by omega
        simp [hasRead, hlt]
        omega

theorem readHeader_none_of_append {s c : Bytes} (h : readHeader (s ++ c) = none) :
    readHeader s = none := by
  cases hs : readHeader s with
  | none => rfl
  | some ws =>
    rw [readHeader_append hs c] at h
    cases h

/-- In front of no header `dispatch` does nothing. -/
theorem dispatch_noHeader {t : Transport} (h : readHeader t.rxbuf = none) :
    t.dispatch .succeeded = t := by
  have hturn : t.turn = .starved t := by
    unfold turn
    rw [h]
  rw [dispatch_ends (fun u hu => by rw [hturn] at hu; cases hu), hturn]
  rfl

/-- **Behind any rounds**: either no header has come yet, and what was wanted before is still
    wanted, or one has, and what is wanted is what the frame in front needs. -/
theorem feed_wanting {t : Transport} (hrx : t.rxbuf = []) (hsocket : t.kernel.isOpen = true)
    {cuts : List Bytes} (hopen : (t.feed cuts).readyState = .opened) :
    (readHeader cuts.flatten = none ∧ (t.feed cuts).rxbuf = cuts.flatten ∧
        (t.feed cuts).rxbufWanted = t.rxbufWanted) ∨
      (readHeader cuts.flatten ≠ none ∧ (t.feed cuts).Wanting ∧
        ((t.feed cuts).hasRead = false ∨ TooLarge (t.feed cuts).rxbuf)) := by
  induction cuts using List.reverseRecOn with
  | nil => exact .inl ⟨rfl, hrx, rfl⟩
  | append_singleton cuts b ih =>
    have hbefore : (t.feed cuts).readyState = .opened := by
      rw [feed_append] at hopen
      exact ((t.feed cuts).hear_onward b).opened hopen |>.1
    have hlive : (t.feed cuts).kernel.isOpen = true :=
      ((t.feed_onward cuts).opened hbefore).2 hsocket
    have hflat : (cuts ++ [b]).flatten = cuts.flatten ++ b := by simp
    have hround : t.feed (cuts ++ [b]) = ((t.feed cuts).more b).dispatch .succeeded := by
      rw [feed_append, hear, if_pos hlive]
    rw [hround] at hopen ⊢
    rw [hflat]
    rcases ih hbefore with ⟨hnone, hbuf, hwanted⟩ | ⟨hsome, hw, -⟩
    · have hmore : ((t.feed cuts).more b).rxbuf = cuts.flatten ++ b := by rw [more, hbuf]; rfl
      by_cases hn : readHeader (cuts.flatten ++ b) = none
      · rw [dispatch_noHeader (by rw [hmore]; exact hn)]
        exact .inl ⟨hn, hmore, hwanted⟩
      · exact .inr ⟨hn, dispatch_wanting (fun h => absurd (hmore ▸ h) hn) hopen⟩
    · refine .inr ⟨fun h => hsome (readHeader_none_of_append h), dispatch_wanting ?_ hopen⟩
      exact fun h => hw (readHeader_none_of_append h)

/-- **Back pressure stops a connection exactly if the one before left something wanted.** On a
    connection that is OPEN behind any rounds, `receiveFromSocket` reads on, or the frame in front is
    larger than any may be; unless no header has come as a whole, and `_rxbufWanted`, which
    `connectToUrl` leaves as it was, is not more than what has come. Then no round reads anything
    more. -/
theorem feed_readsOn (t : Transport) (cuts : List Bytes) (hrx : t.rxbuf = [])
    (hsocket : t.kernel.isOpen = true) (hopen : (t.feed cuts).readyState = .opened) :
    let stuck := readHeader cuts.flatten = none ∧ 0 < t.rxbufWanted ∧
      t.rxbufWanted ≤ cuts.flatten.length
    ((t.feed cuts).hasRead = false ∨ TooLarge (t.feed cuts).rxbuf ↔ ¬ stuck) ∧
      (stuck → ∀ a, (t.feed cuts).receiveFromSocket a = (t.feed cuts, some true) ∧
        (t.feed cuts).dispatch .succeeded = t.feed cuts) := by
  intro stuck
  rcases feed_wanting hrx hsocket hopen with ⟨hnone, hbuf, hwanted⟩ | ⟨hsome, -, hreads⟩
  · have hsmall : ¬ TooLarge (t.feed cuts).rxbuf := by
      rintro ⟨ws, hws, -⟩
      rw [hbuf, hnone] at hws
      cases hws
    have hshort := readHeader_none_short hnone
    have hread : (t.feed cuts).hasRead = true ↔ stuck := by
      simp only [hasRead, hbuf, hwanted, decide_eq_true_eq, stuck]
      constructor
      · rintro (⟨-, h⟩ | h)
        · omega
        · exact ⟨hnone, h⟩
      · exact fun h => .inr h.2
    refine ⟨?_, fun hs a => ⟨?_, dispatch_noHeader (by rw [hbuf]; exact hnone)⟩⟩
    · rw [or_iff_left hsmall, ← hread, Bool.not_eq_true]
    · rw [receiveFromSocket, if_pos (hread.mpr hs)]
  · exact ⟨iff_of_true hreads fun h => hsome h.1, fun h => absurd h.1 hsome⟩

/-- A connection of an object whose last one was closed behind the header of a frame. -/
def reused : Transport :=
  (((fresh.feed [[0x81, 1]]).close kNormalClosureCode kNormalClosureMessage).pollClosing
    true).connectToUrl 100

theorem feed_readsOn_reused :
    ((fresh.feed [hiFrame.bytes, [0x89]]).hasRead = false ∨
      TooLarge (fresh.feed [hiFrame.bytes, [0x89]]).rxbuf) ∧
    ¬ ((reused.feed [[0x81, 126, 0]]).hasRead = false ∨
      TooLarge (reused.feed [[0x81, 126, 0]]).rxbuf) := by
  constructor
  · refine (feed_readsOn fresh [hiFrame.bytes, [0x89]] rfl rfl (by decide +kernel)).1.mpr ?_
    exact fun h => absurd h.2.1 (by decide +kernel)
  · rw [(feed_readsOn reused [[0x81, 126, 0]] (by decide +kernel) (by decide +kernel)
      (by decide +kernel)).1]
    exact not_not.mpr (by decide +kernel)

end Transport

end Viral.Socket
