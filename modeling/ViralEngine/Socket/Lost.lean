/-
  File:      ViralEngine/Socket/Lost.lean
  Subject:   A CONNECTION THAT BREAKS, AND THE ONE BEHIND IT.

  When `recv` fails, `poll` answers AbnormalClose, and `dispatch` first takes what is still in the
  receive buffer. The loop leaves with `break` in front of an unfinished header, but with `return`
  in front of an unfinished payload, and behind a `return` the closure is not looked at. The object
  then lives on; `connectToUrl` gives it a new socket and leaves `_chunks` as it was.

  * `closure`, `lost_reported` -- when the loss of a connection is reported at once, and as what;
  * `beat_closes` -- that the next heart beat ends it otherwise;
  * `reconnect_first` -- what becomes of the first message of the next connection.
-/
import ViralEngine.Socket.Delivery
import ViralEngine.Socket.Stream

namespace Viral.Socket

open Viral.Lib Viral.Lib.WebSocket
open Viral.Chat (Bytes ascii)

namespace Transport

variable {t u : Transport}

/-! ## 1. The loss -/

/-- What the end of `dispatch` reports behind a failed `poll`. -/
def closure (t : Transport) : List Event :=
  match t.readyState with
  | .closed => []
  | .closing => [.closed t.closeCode t.closeReason t.closeRemote]
  | .connecting | .opened => [.closed kAbnormalCloseCode kAbnormalCloseMessage false]

theorem dispatchEnd_reports (t : Transport) {r : PollResult} (hr : r ≠ .succeeded) :
    (t.dispatchEnd r).log = t.log ++ t.closure ∧ (t.dispatchEnd r).readyState = .closed := by
  unfold dispatchEnd closure
  rw [if_neg hr]
  cases h : t.readyState <;>
    simp [withRx, h, closeSocketAndSwitchToClosedState, setReadyState, closeSocket, record]

/-- `close` calls no callback, and it neither closes a connection nor opens it again. -/
theorem close_reports (t : Transport) (code : Nat) (reason : Bytes) :
    (t.close code reason).log = t.log ∧
      ((t.close code reason).readyState = .closed ↔ t.readyState = .closed) := by
  by_cases hs : t.readyState = .closing ∨ t.readyState = .closed
  · rw [close_again hs]
    exact ⟨rfl, Iff.rfl⟩
  · obtain ⟨⟨hclosing, -⟩, hlog⟩ := close_leaving code reason hs
    rw [hclosing]
    exact ⟨hlog, iff_of_false (by decide) fun h => hs (.inr h)⟩

/-- **When a loss is reported.** What has been received is taken first. If the bytes that are left
    are no whole header, the end is then reported as the state behind these frames asks for it: as
    an abnormal closure on a connection that is OPEN, with the code and the reason of `close` on one
    that is CLOSING, and not again on one that is CLOSED. Behind a whole header nothing is reported,
    and the connection is not CLOSED unless it was before. -/
theorem lost_reported (t : Transport) (r : PollResult) (hr : r ≠ .succeeded) (fs : List Frame)
    (tail : Bytes) (hrx : t.rxbuf = fs.flatMap Frame.bytes ++ tail)
    (hfs : ∀ f ∈ fs, Acceptable f) (hb : Blocked tail) :
    (t.dispatch r).log = (t.takeAll fs).log ++
        (if readHeader tail = none then (t.takeAll fs).closure else []) ∧
      ((t.dispatch r).readyState = .closed ↔
        readHeader tail = none ∨ (t.takeAll fs).readyState = .closed) := by
  have hself : t.withRx (fs.flatMap Frame.bytes ++ tail) t.rxbufWanted = t := by
    rw [← hrx]
    exact t.withRx_self
  obtain ⟨w, hw, -⟩ := t.dispatch_takes (r := r) hfs tail t.rxbufWanted
  rw [hself, dispatch_ends (turn_blocked (t := (t.takeAll fs).withRx tail w) hb)] at hw
  rw [hw]
  cases hread : readHeader tail with
  | none =>
    have hturn : ((t.takeAll fs).withRx tail w).turn =
        .starved ((t.takeAll fs).withRx tail w) := by
      unfold turn
      rw [withRx_rxbuf, hread]
    obtain ⟨hlog, hstate⟩ := ((t.takeAll fs).withRx tail w).dispatchEnd_reports hr
    rw [hturn, if_pos rfl]
    exact ⟨hlog, iff_of_true hstate (.inl rfl)⟩
  | some ws =>
    have hturn := turn_withRx (u := t.takeAll fs) hread w
    have hheader : ¬ (some ws = none) := by simp
    rw [if_neg hheader, or_iff_right hheader, List.append_nil]
    split_ifs at hturn with h1 h2 h3 h4 h5
    · rw [hturn]
      exact close_reports _ _ _
    · rw [hturn]
      exact ⟨rfl, Iff.rfl⟩
    · rw [hturn]
      exact ⟨rfl, Iff.rfl⟩
    · rw [hturn]
      exact close_reports _ _ _
    · rw [hturn]
      exact close_reports _ _ _
    · exact absurd hturn (turn_blocked (t := (t.takeAll fs).withRx tail w) hb _)

theorem hiFrame_acceptable : Acceptable hiFrame :=
  ⟨by decide, by decide, by decide, by decide⟩

/-- A text has been received as a whole, and of the next frame one byte. -/
theorem lost_reported_hi :
    ((fresh.withRx (hiFrame.bytes ++ [0x89]) 0).dispatch .abnormalClose).log =
      [.message .msgText (ascii "hi"), .closed kAbnormalCloseCode kAbnormalCloseMessage false] ∧
    ((fresh.withRx (hiFrame.bytes ++ [0x89]) 0).dispatch .abnormalClose).readyState =
      .closed := by
  have hblocked : Blocked [0x89] := by
    intro g rest hg
    have hlen := congrArg List.length hg
    have htwo := g.two_le_header
    rw [List.length_append, g.bytes_length, List.length_singleton] at hlen
    omega
  obtain ⟨hlog, hstate⟩ := lost_reported (fresh.withRx (hiFrame.bytes ++ [0x89]) 0)
    .abnormalClose (by decide) [hiFrame] [0x89] (by simp [withRx])
    (fun f hf => List.mem_singleton.mp hf ▸ hiFrame_acceptable) hblocked
  refine ⟨hlog.trans ?_, hstate.mpr (.inl (by decide))⟩
  decide +kernel

/-- Nothing can be written to a closed socket, and the attempt closes the connection. -/
theorem sendFragment_dead {t : Transport} (hs : t.readyState ≠ .closing)
    (hc : t.kernel.isOpen = false) (type : Opcode) (fin : Bool) (message : Bytes) :
    (t.sendFragment type fin message).2 = false ∧
      (t.sendFragment type fin message).1.readyState = .closed := by
  have hheader : t.fragmentHeader type fin message.length ≠ [] := by
    unfold fragmentHeader
    split_ifs <;> exact List.cons_ne_nil _ _
  have htx : (t.writeFragment type fin message).handOver.txbuf ≠ [] := by
    simp [writeFragment, appendToSendBuffer, handOver, takes, hc, hheader]
  have hopen : ¬ ((t.writeFragment type fin message).handOver.kernel.isOpen = true ∧
      ¬ (t.writeFragment type fin message).handOver.kernel.broken = true) :=
    fun h => absurd (hc ▸ h.1 : false = true) (by decide)
  unfold sendFragment sendOnSocket
  simp only
  rw [if_neg htx, if_neg hopen]
  exact ⟨rfl, by rw [if_pos (by exact hs)]; exact setReadyState_readyState _ .closed⟩

/-- **The next heart beat ends a connection whose loss was not reported**, and the closing delay at
    the latest. -/
theorem beat_closes (t : Transport) (hopen : t.readyState = .opened)
    (hclosed : t.kernel.isOpen = false) :
    ((t.pollPing true).pollClosing true).readyState = .closed := by
  have hclosing : ∀ v : Transport, v.readyState = .closing ∨ v.readyState = .closed →
      (v.pollClosing true).readyState = .closed := by
    rintro v (hv | hv)
    · unfold pollClosing
      rw [if_pos ⟨hv, rfl⟩]
      exact setReadyState_readyState _ .closed
    · unfold pollClosing
      rw [if_neg (by simp [hv])]
      exact hv
  refine hclosing _ ?_
  unfold pollPing
  rw [if_pos ⟨hopen, rfl⟩]
  split
  · exact close_readyState t _ _
  · -- nothing can be written to a closed socket
    right
    have hdead : ∀ (v : Transport) (type : Opcode) (message : Bytes), v.readyState = .opened →
        v.kernel.isOpen = false → (v.sendData type message).1.readyState = .closed := by
      intro v type message hv hk
      unfold sendData
      rw [if_neg (by simp [hv])]
      cases hf : fragments type message with
      | nil => exact absurd hf (fragments_ne_nil type message)
      | cons f fs =>
        obtain ⟨h1, h2⟩ := sendFragment_dead (t := v) (by rw [hv]; decide) hk f.type f.fin f.message
        simp only [sendFragments]
        cases heq : v.sendFragment f.type f.fin f.message with
        | mk x ok =>
          rw [heq] at h1 h2
          obtain rfl : ok = false := h1
          exact h2
    exact hdead _ _ _ hopen hclosed

/-! ## 2. The next connection -/

/-- What a data frame that begins a message becomes, whatever is left of a message before it. -/
theorem firstFrame_collect {k : Kind} {s : Bytes} (hopen : t.readyState = .opened) :
    ((t.dataFrame k.opcode true s).readyState = .opened ↔
      t.chunks = [] ∧ Valid (k, s)) ∧
    heard (t.dataFrame k.opcode true s).log = heard t.log ++
      (if Valid (k, t.chunks.flatten ++ s) then [(k, t.chunks.flatten ++ s)] else []) := by
  -- handing a message on, from a state with this log
  have hemit : ∀ (v : Transport) (m : Bytes), v.log = t.log →
      heard (v.emitMessage (.ofKind k) m).log =
        heard t.log ++ (if Valid (k, m) then [(k, m)] else []) := by
    intro v m hv
    by_cases hm : Valid (k, m)
    · rw [emitMessage_valid v hm]
      simp [record, hv, hm]
    · rw [emitMessage_invalid v hm, if_neg hm, List.append_nil]
      obtain ⟨fs, hw, -⟩ := v.close_signals kInvalidFramePayloadData
        kInvalidFramePayloadDataMessage (by decide)
      rw [(under_of_receiving hw.receiving).2.2, hv]
  by_cases hc : t.chunks = []
  · have hkind : (t.setKind (.ofKind k)).fragmentedMessageKind = .ofKind k := rfl
    unfold dataFrame collect
    rw [inSequence_first k hc, if_pos ⟨rfl, hc⟩, hkind, hc]
    refine ⟨?_, hemit _ s rfl⟩
    rw [eq_self, true_and]
    refine ⟨fun h => ?_, fun hv => ?_⟩
    · intro hk
      have hk' : k = .text := hk
      subst hk'
      exact (emitMessage_opened h).2 rfl
    · rw [emitMessage_valid _ hv]
      exact hopen
  · have hseq : t.inSequence k.opcode = (t.setKind (.ofKind k)).close kProtocolErrorCode
        kProtocolErrorCodeDataOpcodeOutOfSequence := by
      cases k <;> simp [inSequence, Kind.opcode, Opcode.text, Opcode.binary,
        Opcode.continuation, setKind, hc, MessageKind.ofKind]
    obtain ⟨fs, hw, -⟩ := (t.setKind (.ofKind k)).close_signals kProtocolErrorCode
      kProtocolErrorCodeDataOpcodeOutOfSequence (by decide)
    obtain ⟨-, hlog⟩ := close_leaving (t := t.setKind (.ofKind k)) kProtocolErrorCode
      kProtocolErrorCodeDataOpcodeOutOfSequence
      (by rw [show (t.setKind (.ofKind k)).readyState = .opened from hopen]; decide)
    have hrec := hw.receiving
    simp only [Transport.receiving, Prod.mk.injEq] at hrec
    obtain ⟨-, -, hchunks, hkind, -⟩ := hrec
    have hseqc : (t.inSequence k.opcode).chunks = t.chunks := hseq ▸ hchunks
    have hseqk : (t.inSequence k.opcode).fragmentedMessageKind = .ofKind k := hseq ▸ hkind
    constructor
    · refine iff_of_false (fun h => ?_) (fun h => hc h.1)
      have h' := (inSequence_opened (collect_opened h).1).2
      have hfirst : k.opcode ≠ .continuation := by cases k <;> decide
      exact hfirst (h'.mpr hc)
    · have hall := hemit ((t.inSequence k.opcode).pushChunk s) (t.chunks.flatten ++ s)
        (hseq ▸ hlog)
      unfold dataFrame collect
      rw [if_neg (fun h => hc (hseqc ▸ h.2)), if_pos rfl]
      rw [← hall]
      simp [clearChunks, pushChunk, hseqc, hseqk]

/-- **The first message of the next connection.** The loss of a connection is reported, with no
    whole header left over, a new one is made, and a message comes in one frame. The new connection
    stays OPEN exactly if no message was under way on the old one and the text is valid; what is
    handed on is the message with the beginning of that other one in front. -/
theorem reconnect_first (v : Transport) (r : PollResult) (hr : r ≠ .succeeded) (room : Nat)
    (hread : readHeader v.rxbuf = none) (k : Kind) (f : Frame) (hf : Acceptable f)
    (hk : f.opcode = k.opcode) (hfin : f.fin = true) :
    let x := ((v.dispatch r).connectToUrl room).feed [f.bytes]
    (x.readyState = .opened ↔ v.under = none ∧ Valid (k, f.payload)) ∧
      heard x.log = heard v.log ++
        (if Valid (k, v.chunks.flatten ++ f.payload) then [(k, v.chunks.flatten ++ f.payload)]
          else []) := by
  intro x
  -- the old connection, reported as closed
  have hlost : v.dispatch r = v.dispatchEnd r := by
    have hturn : v.turn = .starved v := by
      unfold turn
      rw [hread]
    rw [dispatch_ends (fun u hu => by rw [hturn] at hu; cases hu), hturn]
    rfl
  have hold := (v.dispatchEnd_writes hr).receiving
  -- the new one
  obtain ⟨hrec, -, hkernel, -⟩ := connectToUrl_fields (v.dispatch r) room
  have hopened : ((v.dispatch r).connectToUrl room).readyState = .opened :=
    setReadyState_readyState _ .opened
  generalize hy : (v.dispatch r).connectToUrl room = y at hopened hrec hkernel
  rw [hlost, hold] at hrec
  simp only [Transport.receiving, withRx_rxbuf, withRx_rxbufWanted, withRx_chunks, withRx_kind,
    withRx_log, Prod.mk.injEq] at hrec
  obtain ⟨hrx, -, hchunks, -, hlog⟩ := hrec
  have hone : ∀ g ∈ [f], Acceptable g := by simpa using hf
  obtain ⟨w', hx⟩ := (y.dispatch_report hone blocked_nil y.rxbufWanted).1 rfl
  have hxw : x = (y.dataFrame k.opcode true f.payload).withRx [] w' := by
    have hfeed : x =
        (y.withRx ([f].flatMap Frame.bytes ++ []) y.rxbufWanted).dispatch .succeeded := by
      show ((v.dispatch r).connectToUrl room).feed [f.bytes] = _
      rw [hy]
      simp [feed, hear, more, hrx, hkernel]
    have htake : y.takeAll [f] = y.dataFrame k.opcode true f.payload := by
      show y.wholeFrame f.opcode f.fin f.payload = _
      rw [hk, hfin]
      cases k <;> rfl
    rw [hfeed, hx, htake]
  obtain ⟨hstate, hheard⟩ := firstFrame_collect (t := y) (k := k) (s := f.payload) hopened
  rw [hchunks, hlog] at hheard
  rw [hchunks] at hstate
  rw [hxw]
  refine ⟨hstate.trans (and_congr_left fun _ => ?_), hheard⟩
  exact ⟨fun h => if_pos h, under_none⟩

/-- A message was under way: its beginning comes in front of the next one. -/
theorem reconnect_first_hi :
    ((((fresh.pushChunk (ascii "ab")).dispatch .abnormalClose).connectToUrl 100).feed
        [hiFrame.bytes]).readyState ≠ .opened ∧
      heard ((((fresh.pushChunk (ascii "ab")).dispatch .abnormalClose).connectToUrl 100).feed
        [hiFrame.bytes]).log = [(.text, ascii "abhi")] := by
  obtain ⟨hstate, hheard⟩ := reconnect_first (fresh.pushChunk (ascii "ab")) .abnormalClose
    (by decide) 100 rfl .text hiFrame hiFrame_acceptable rfl rfl
  exact ⟨fun h => absurd (hstate.mp h).1 (by decide), hheard.trans (by decide +kernel)⟩

end Transport

end Viral.Socket
