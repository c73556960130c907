/-
  File:      ViralEngine/Socket/Exchange.lean
  Subject:   TWO TRANSPORTS AT THE TWO ENDS OF A CONNECTION.

  Each side has the threads the library gives it: the callers of `sendText`, `sendBinary` and
  `close`, and the socket thread, which goes round `poll` and `dispatch` (IXWebSocket.cpp, `run`).
  `_writeMutex` keeps two messages apart, but not the control frames of the socket thread from the
  fragments of a message; the kernel takes as many bytes as it likes and hands them on in pieces
  of any size, and it may fail at any time. A caller of `close` tests `_readyState`, stores, and
  writes its CLOSE frame in three steps; one turn of the loop of `dispatch` is a single step, and so
  is the beginning of `poll`.

  A CLOSE frame whose reason does not fit in one frame is cut up like a message, and the other side
  refuses it; `ShortReasons` are the steps that do not begin one.

  * `Side`, `Act`, `Side.step` -- one side and its steps;
  * `Transport.Clean`, `Net`, `exchange` -- an object between two connections, and two of them on
    one;
  * `SideMove`, `step_sideMove` -- every move, with what it finds;
  * `ShortReasons`, `Side.Curt` -- close reasons that fit in one frame;
  * `Effect`, `step_effect` -- what a step does to the streams.
-/
import ViralEngine.Lib.Machine
import ViralEngine.Socket.Messages

namespace Viral.Socket

open Viral.Lib Viral.Lib.WebSocket
open Viral.Chat (Bytes validateUtf8)

/-! ## 1. One side -/

/-- Where the socket thread is: at the parts of `poll`, or in `dispatch`. -/
inductive SocketPc where
  | top | ready | flushing | receiving | last
  | dispatching (pollResult : PollResult)
  deriving DecidableEq, Repr

/-- What `isReadyToRead` answers; `closeRequest` is an error too. -/
inductive Readable where
  | readyForRead | sendRequest | closeRequest | timeout
  deriving DecidableEq, Repr

/-- What `recv` answers: the next bytes of the other side, or none. -/
inductive Received where
  | bytes (n : Nat) | wait | failed
  deriving DecidableEq, Repr

/-- A call of `close` that has found nobody closing; `stored`: the CLOSE frame comes next. -/
structure Closing where
  stored : Bool
  code : Nat
  reason : Bytes
  deriving DecidableEq, Repr

/-- One side. Whoever sends a message holds `_writeMutex` while calls of `sendFragment` are
    pending; any number of threads may be in `close`. `begun` and `taken` only look on: the messages
    whose sending has begun, and how many bytes of the other side have been received. -/
structure Side where
  transport : Transport
  socket : SocketPc
  pending : List Fragment
  closing : List Closing
  begun : List (Kind × Bytes)
  taken : Nat
  deriving DecidableEq, Repr

/-- What a side does: its threads send and close, its socket thread reads, writes and waits. -/
inductive Act where
  | send (kind : Kind) (message : Bytes)
  | fragment
  | close (code : Nat) (reason : Bytes)
  | closes (i : Nat)
  | kernel (room : Nat) (broken : Bool)
  | clock (seconds : Nat)
  | top (pingIntervalExceeded : Bool)
  | ready (a : Readable)
  | write (a : Writable)
  | read (a : Received)
  | last (closingDelayExceeded : Bool)
  | turn
  deriving DecidableEq, Repr

namespace Side

/-- Another state of the transport. -/
def withTransport (s : Side) (t : Transport) : Side := { s with transport := t }

/-- A thread calls `close` and tests the ready state. -/
def close (s : Side) (code : Nat) (reason : Bytes) : Side :=
  let t := { s.transport with requestInitCancellation := true }
  if t.readyState = .closing ∨ t.readyState = .closed then s.withTransport t
  else { s with transport := t, closing := s.closing ++ [⟨false, code, reason⟩] }

/-- The `i`th thread in `close` stores, or writes its CLOSE frame. -/
def closes (s : Side) (i : Nat) : Option Side :=
  s.closing[i]?.map fun c =>
    if c.stored then
      { s with
        transport := s.transport.sendCloseFrame c.code c.reason
        closing := s.closing.eraseIdx i }
    else
      { s with
        transport := s.transport.storeClosing c.code c.reason
        closing := s.closing.set i { c with stored := true } }

/-- One round of `receiveFromSocket`, on what the other side has sent. -/
def receive (incoming : Bytes) (s : Side) (a : Received) : Option Side :=
  let result (a : Recv) : Side :=
    let (t, r) := s.transport.receiveFromSocket a
    { s with
      transport := t
      socket := match r with
        | none => .receiving
        | some true => .last
        | some false => .dispatching .abnormalClose }
  match a with
  | .wait => some (result .wait)
  | .failed => some (result .failed)
  | .bytes n =>
    let b := (incoming.drop s.taken).take n
    if b ≠ [] ∧ ¬ s.transport.hasRead ∧ s.transport.kernel.isOpen then
      some { result (.bytes b) with taken := s.taken + b.length }
    else none

/-- One turn of the loop of `dispatch`. -/
def dispatchTurn (s : Side) (pollResult : PollResult) : Side :=
  match s.transport.turn with
  | .starved t => { s with transport := t.dispatchEnd pollResult, socket := .top }
  | .wants t | .givesUp t => { s with transport := t, socket := .top }
  | .goesOn t => { s with transport := t }

/-- **One step of a side.** `sendData` asks for the ready state when it begins; that
    `sendMessage` has asked whether it is OPEN, before it waited for the mutex, excludes nothing
    more. -/
def step (incoming : Bytes) (s : Side) : Act → Option Side
  | .send kind message =>
    if kind = .text ∧ ¬ validateUtf8 message then
      some (s.close kInvalidFramePayloadData kInvalidFramePayloadDataMessage)
    else if s.pending = [] ∧
        (s.transport.readyState = .opened ∨ s.transport.readyState = .closing) then
      some { s with
        pending := fragments kind.opcode message
        begun := s.begun ++ [(kind, message)] }
    else none
  | .fragment =>
    match s.pending with
    | [] => none
    | f :: fs =>
      let (t, ok) := s.transport.sendFragment f.type f.fin f.message
      some { s with transport := t, pending := if ok then fs else [] }
  | .close code reason => some (s.close code reason)
  | .closes i => s.closes i
  | .kernel room broken =>
    some (s.withTransport { s.transport with
      kernel := { s.transport.kernel with room := room, broken := broken } })
  | .clock seconds => some (s.withTransport { s.transport with seconds := seconds })
  | .top pingIntervalExceeded =>
    if s.socket = .top ∧ s.transport.readyState ≠ .closed then
      some { s with transport := s.transport.pollPing pingIntervalExceeded, socket := .ready }
    else none
  | .ready a =>
    if s.socket = .ready then
      some (match a with
        | .readyForRead => { s with socket := .receiving }
        | .sendRequest => { s with socket := .flushing }
        | .closeRequest => { s with transport := s.transport.closeSocket, socket := .last }
        | .timeout => { s with socket := .last })
    else none
  | .write a =>
    if s.socket = .flushing then
      let (t, r) := s.transport.flushSendBuffer a
      some { s with
        transport := t
        socket := match r with
          | none => .flushing
          | some true => .last
          | some false => .dispatching .cannotFlushSendBuffer }
    else none
  | .read a => if s.socket = .receiving then s.receive incoming a else none
  | .last closingDelayExceeded =>
    if s.socket = .last then
      some { s with
        transport := s.transport.pollClosing closingDelayExceeded
        socket := .dispatching .succeeded }
    else none
  | .turn =>
    match s.socket with
    | .dispatching pollResult => some (s.dispatchTurn pollResult)
    | _ => none

end Side

/-! ## 2. The two of them -/

/-- Both ends of a connection. -/
structure Net where
  client : Side
  server : Side
  deriving DecidableEq, Repr

/-- A step of one of them. -/
inductive NetAct where
  | client (a : Act)
  | server (a : Act)
  deriving DecidableEq, Repr

/-- Each side reads what the other's kernel has sent. -/
def Net.step (n : Net) : NetAct → Option Net
  | .client a =>
    (n.client.step n.server.transport.kernel.sent a).map fun s => { n with client := s }
  | .server a =>
    (n.server.step n.client.transport.kernel.sent a).map fun s => { n with server := s }

/-- Nothing is left in the buffers. -/
structure Transport.Clean (t : Transport) : Prop where
  rxbuf : t.rxbuf = []
  txbuf : t.txbuf = []
  chunks : t.chunks = []
  secs : t.pingIntervalSecs < 2 ^ 31

/-- A side behind the handshake; the object may have had connections before. -/
def Side.connected (t : Transport) (room : Nat) : Side where
  transport := t.connectToUrl room
  socket := .top
  pending := []
  closing := []
  begun := []
  taken := 0

/-- **A connection** between the objects `c` and `s`. -/
def exchange (c s : Transport) (roomC roomS : Nat) : Machine Net NetAct where
  init := ⟨.connected c roomC, .connected s roomS⟩
  step := Net.step

/-! ## 3. The moves -/

/-- **The moves of a side**, with what each finds. -/
inductive SideMove (incoming : Bytes) (s : Side) : Act → Side → Prop where
  | refused (kind : Kind) (message : Bytes) :
      SideMove incoming s (.send kind message)
        (s.close kInvalidFramePayloadData kInvalidFramePayloadDataMessage)
  | send (kind : Kind) (message : Bytes) (hv : kind = .text → validateUtf8 message = true)
      (hp : s.pending = []) :
      SideMove incoming s (.send kind message)
        { s with
          pending := fragments kind.opcode message
          begun := s.begun ++ [(kind, message)] }
  | fragment (f : Fragment) (fs : List Fragment) (hp : s.pending = f :: fs) :
      SideMove incoming s .fragment
        { s with
          transport := (s.transport.sendFragment f.type f.fin f.message).1
          pending := if (s.transport.sendFragment f.type f.fin f.message).2 then fs else [] }
  | close (code : Nat) (reason : Bytes) :
      SideMove incoming s (.close code reason) (s.close code reason)
  | closes (i : Nat) (s' : Side) (h : s.closes i = some s') : SideMove incoming s (.closes i) s'
  | kernel (room : Nat) (broken : Bool) :
      SideMove incoming s (.kernel room broken) (s.withTransport { s.transport with
        kernel := { s.transport.kernel with room := room, broken := broken } })
  | clock (seconds : Nat) :
      SideMove incoming s (.clock seconds)
        (s.withTransport { s.transport with seconds := seconds })
  | top (b : Bool) (hx : s.socket = .top) :
      SideMove incoming s (.top b)
        { s with transport := s.transport.pollPing b, socket := .ready }
  | ready (a : Readable) (hx : s.socket = .ready) :
      SideMove incoming s (.ready a) (match a with
        | .readyForRead => { s with socket := .receiving }
        | .sendRequest => { s with socket := .flushing }
        | .closeRequest => { s with transport := s.transport.closeSocket, socket := .last }
        | .timeout => { s with socket := .last })
  | write (a : Writable) (hx : s.socket = .flushing) :
      SideMove incoming s (.write a)
        { s with
          transport := (s.transport.flushSendBuffer a).1
          socket := match (s.transport.flushSendBuffer a).2 with
            | none => .flushing
            | some true => .last
            | some false => .dispatching .cannotFlushSendBuffer }
  | read (a : Received) (s' : Side) (hx : s.socket = .receiving)
      (h : s.receive incoming a = some s') : SideMove incoming s (.read a) s'
  | last (b : Bool) (hx : s.socket = .last) :
      SideMove incoming s (.last b)
        { s with
          transport := s.transport.pollClosing b
          socket := .dispatching .succeeded }
  | turn (r : PollResult) (hx : s.socket = .dispatching r) :
      SideMove incoming s .turn (s.dispatchTurn r)

/-- **Every step of a side is one of its moves.** -/
theorem step_sideMove {incoming : Bytes} {s s' : Side} {a : Act}
    (h : s.step incoming a = some s') : SideMove incoming s a s' := by
  cases a with
  | send kind message =>
    simp only [Side.step] at h
    split at h
    case isTrue =>
      obtain rfl := Option.some.inj h
      exact .refused kind message
    case isFalse hv =>
      split at h
      case isTrue hg =>
        obtain rfl := Option.some.inj h
        exact .send kind message (fun hk => by_contra fun hn => hv ⟨hk, hn⟩) hg.1
      case isFalse => cases h
  | fragment =>
    simp only [Side.step] at h
    split at h
    case h_1 => cases h
    case h_2 f fs hp =>
      obtain rfl := Option.some.inj h
      exact .fragment f fs hp
  | close code reason =>
    obtain rfl := Option.some.inj h
    exact .close code reason
  | closes i => exact .closes i s' h
  | kernel room broken =>
    obtain rfl := Option.some.inj h
    exact .kernel room broken
  | clock seconds =>
    obtain rfl := Option.some.inj h
    exact .clock seconds
  | top b =>
    simp only [Side.step] at h
    split at h
    case isTrue hx =>
      obtain rfl := Option.some.inj h
      exact .top b hx.1
    case isFalse => cases h
  | ready a =>
    simp only [Side.step] at h
    split at h
    case isTrue hx =>
      obtain rfl := Option.some.inj h
      exact .ready a hx
    case isFalse => cases h
  | write a =>
    simp only [Side.step] at h
    split at h
    case isTrue hx =>
      obtain rfl := Option.some.inj h
      exact .write a hx
    case isFalse => cases h
  | read a =>
    simp only [Side.step] at h
    split at h
    case isTrue hx => exact .read a s' hx h
    case isFalse => cases h
  | last b =>
    simp only [Side.step] at h
    split at h
    case isTrue hx =>
      obtain rfl := Option.some.inj h
      exact .last b hx
    case isFalse => cases h
  | turn =>
    simp only [Side.step] at h
    split at h
    case h_1 r hx =>
      obtain rfl := Option.some.inj h
      exact .turn r hx
    case h_2 => cases h

/-! ## 4. Short reasons -/

/-- The act begins no CLOSE frame that has to be cut up. -/
def Act.short : Act → Bool
  | .close _ reason => reason.length + 2 < kChunkSize
  | _ => true

/-- The step begins no CLOSE frame that has to be cut up. -/
def ShortReasons (_ : Net) : NetAct → Prop
  | .client a | .server a => a.short = true

instance (n : Net) : (a : NetAct) → Decidable (ShortReasons n a)
  | .client a | .server a => inferInstanceAs (Decidable (a.short = true))

/-- Every call of `close` under way has a reason that fits in one frame. -/
def Side.Curt (s : Side) : Prop := ∀ c ∈ s.closing, c.reason.length + 2 < kChunkSize

theorem Side.Curt.close {s : Side} (h : s.Curt) (code : Nat) {reason : Bytes}
    (hr : reason.length + 2 < kChunkSize) : (s.close code reason).Curt := by
  unfold Side.close
  simp only
  split
  · exact h
  · intro c hc
    rcases List.mem_append.mp hc with hc | hc
    · exact h c hc
    · rw [List.mem_singleton.mp hc]
      exact hr

theorem Side.Curt.closes {s s' : Side} {i : Nat} (h : s.Curt) (hs : s.closes i = some s') :
    s'.Curt := by
  obtain ⟨c, hc, rfl⟩ := Option.map_eq_some_iff.mp hs
  have hshort : c.reason.length + 2 < kChunkSize := h c (List.mem_of_getElem? hc)
  split
  · exact fun d hd => h d (List.mem_of_mem_eraseIdx hd)
  · intro d hd
    rcases List.mem_or_eq_of_mem_set hd with hd | rfl
    · exact h d hd
    · exact hshort

theorem receive_closing {incoming : Bytes} {s s' : Side} {a : Received}
    (h : s.receive incoming a = some s') : s'.closing = s.closing := by
  unfold Side.receive at h
  cases a with
  | wait | failed =>
    obtain rfl := Option.some.inj h
    rfl
  | bytes n =>
    simp only at h
    split at h
    case isTrue =>
      obtain rfl := Option.some.inj h
      rfl
    case isFalse => cases h

theorem Side.dispatchTurn_closing (s : Side) (r : PollResult) :
    (s.dispatchTurn r).closing = s.closing := by
  unfold Side.dispatchTurn
  cases s.transport.turn <;> rfl

/-- A step with a short reason keeps it so. -/
theorem step_curt {incoming : Bytes} {s s' : Side} {a : Act} (hs : s.Curt) (ha : a.short = true)
    (h : s.step incoming a = some s') : s'.Curt := by
  have hkeep : s'.closing = s.closing → s'.Curt := fun he c hc => hs c (he ▸ hc)
  cases step_sideMove h with
  | refused => exact hs.close _ (by decide)
  | close code reason => exact hs.close code (of_decide_eq_true ha)
  | closes i _ h => exact hs.closes h
  | ready a => cases a <;> exact hkeep rfl
  | read a _ _ h => exact hkeep (receive_closing h)
  | turn r => exact hkeep (s.dispatchTurn_closing r)
  | send | fragment | kernel | clock | top | write | last => exact hkeep rfl

/-! ## 5. What a step can do -/

/-- Behind a failed call of `poll` the socket is closed. -/
def Side.Lost (s : Side) : Prop :=
  ∀ r, s.socket = .dispatching r → r ≠ .succeeded → s.transport.kernel.isOpen = false

/-- What a step does to the transport and to what belongs to it. -/
inductive Effect (incoming : Bytes) (s s' : Side) : Prop where
  /-- Nothing but control frames is written, and nothing is read. -/
  | signals (h : Signals s.transport s'.transport) (hp : s'.pending = s.pending)
      (hb : s'.begun = s.begun) (ht : s'.taken = s.taken)
  | begins (kind : Kind) (message : Bytes) (hv : Valid (kind, message)) (hp : s.pending = [])
      (h : s' = { s with
        pending := fragments kind.opcode message
        begun := s.begun ++ [(kind, message)] })
  | fragment (f : Fragment) (fs : List Fragment) (hp : s.pending = f :: fs)
      (ht : s'.transport = (s.transport.sendFragment f.type f.fin f.message).1)
      (hf : s'.pending = fs ∨
        s'.pending = [] ∧ s'.transport.kernel.isOpen = false)
      (hb : s'.begun = s.begun) (hk : s'.taken = s.taken)
  | receives (b : Bytes) (n : Nat) (hb : b = (incoming.drop s.taken).take n) (hne : b ≠ [])
      (hopen : s.transport.kernel.isOpen = true)
      (ht : s'.transport = s.transport.withRx (s.transport.rxbuf ++ b) s.transport.rxbufWanted)
      (hk : s'.taken = s.taken + b.length) (hp : s'.pending = s.pending)
      (hbg : s'.begun = s.begun)
  | takes (h : s.transport.turn = .goesOn s'.transport) (hp : s'.pending = s.pending)
      (hb : s'.begun = s.begun) (ht : s'.taken = s.taken)
  | waits (w : Nat) (h : s'.transport = s.transport.withRx s.transport.rxbuf w)
      (hp : s'.pending = s.pending) (hb : s'.begun = s.begun) (ht : s'.taken = s.taken)
  /-- The receive buffer of a closed socket is thrown away. -/
  | clears (w : Nat) (h : Writes (s.transport.withRx [] w) s'.transport [])
      (hc : s'.transport.kernel.isOpen = false) (hp : s'.pending = s.pending)
      (hb : s'.begun = s.begun) (ht : s'.taken = s.taken)
  | givesUp (h : s.transport.turn = .givesUp s'.transport) (hp : s'.pending = s.pending)
      (hb : s'.begun = s.begun) (ht : s'.taken = s.taken)

namespace Transport

theorem pollPing_signals {t : Transport} (b : Bool) (h : t.pingIntervalSecs < 2 ^ 31) :
    Signals t (t.pollPing b) := by
  unfold pollPing
  split
  · split
    · exact t.close_signals _ _ (by decide)
    · exact sendHeartBeat_signals h
  · exact .refl t

theorem flushSendBuffer_signals (t : Transport) (a : Writable) :
    Signals t (t.flushSendBuffer a).1 := by
  unfold flushSendBuffer
  split
  · exact .refl t
  · cases a with
    | timeout => exact .refl t
    | error => exact (t.closeSocket_writes.trans (setReadyState_writes _ (by decide))).signals
    | ready =>
      simp only
      split <;> exact t.sendOnSocket_writes.signals

theorem flushSendBuffer_failed {t : Transport} {a : Writable}
    (h : (t.flushSendBuffer a).2 = some false) :
    (t.flushSendBuffer a).1.kernel.isOpen = false := by
  unfold flushSendBuffer at h ⊢
  split at h
  · cases h
  · rename_i hne
    rw [if_neg hne]
    cases a with
    | timeout => cases h
    | error => exact (setReadyState_writes t.closeSocket (by decide)).emits.closed rfl
    | ready =>
      simp only at h ⊢
      split at h
      · cases h
      · rename_i hok
        rw [if_neg hok]
        exact sendOnSocket_failed (Bool.eq_false_iff.mpr hok)

/-- What is thrown away at the end of `dispatch`. -/
theorem dispatchEnd_writes (t : Transport) {r : PollResult} (h : r ≠ .succeeded) :
    Writes (t.withRx [] t.rxbufWanted) (t.dispatchEnd r) [] := by
  unfold dispatchEnd
  rw [if_neg h]
  simp only
  split
  · exact (closeSocket_writes _).trans (setReadyState_writes _ (by decide))
  · split
    · exact closeSocketAndSwitchToClosedState_writes _ _ _ _
    · exact .refl _

theorem pollClosing_cases (t : Transport) (b : Bool) : t.pollClosing b = t ∨
    Writes (t.withRx [] t.rxbufWanted) (t.pollClosing b) [] ∧
      (t.pollClosing b).kernel.isOpen = false := by
  unfold pollClosing
  split
  · refine Or.inr ⟨(closeSocket_writes _).trans (setReadyState_writes _ (by decide)), ?_⟩
    exact (setReadyState_writes _ (by decide)).emits.closed rfl
  · exact Or.inl rfl

theorem turn_starved {t t' : Transport} (h : t.turn = .starved t') : t' = t := by
  unfold turn at h
  split at h
  · exact (Turn.starved.inj h).symm
  · simp only at h
    split_ifs at h

theorem turn_wants {t t' : Transport} (h : t.turn = .wants t') :
    ∃ w, t' = t.withRx t.rxbuf w := by
  unfold turn at h
  split at h
  · cases h
  · simp only at h
    split_ifs at h
    exact ⟨_, (Turn.wants.inj h).symm⟩

end Transport

/-- A round of `receiveFromSocket`. -/
theorem receive_effect {incoming : Bytes} {s s' : Side} {a : Received}
    (h : s.receive incoming a = some s') : Effect incoming s s' := by
  have hwait : ∀ a : Recv, a = .wait ∨ a = .failed →
      Writes s.transport (s.transport.receiveFromSocket a).1 [] := by
    intro a ha
    unfold Transport.receiveFromSocket
    split
    · exact .refl _
    · rcases ha with rfl | rfl <;> split <;> rename_i heq
      all_goals first
        | exact .refl _
        | exact s.transport.closeSocket_writes
        | split at heq <;> cases heq
  unfold Side.receive at h
  cases a with
  | wait =>
    obtain rfl := Option.some.inj h
    exact .signals (hwait _ (.inl rfl)).signals rfl rfl rfl
  | failed =>
    obtain rfl := Option.some.inj h
    exact .signals (hwait _ (.inr rfl)).signals rfl rfl rfl
  | bytes n =>
    simp only at h
    split at h
    · rename_i hg
      obtain ⟨hne, hread, hopen⟩ := hg
      obtain rfl := Option.some.inj h
      refine .receives _ n rfl hne hopen ?_ rfl rfl rfl
      simp [Transport.receiveFromSocket, hread, hopen]
    · cases h

/-- One turn of the loop of `dispatch`. -/
theorem dispatchTurn_effect {incoming : Bytes} {s : Side} {r : PollResult} (hl : s.Lost)
    (hr : s.socket = .dispatching r) : Effect incoming s (s.dispatchTurn r) := by
  unfold Side.dispatchTurn
  split
  · rename_i t ht
    obtain rfl := Transport.turn_starved ht
    by_cases hs : r = .succeeded
    · subst hs
      exact .waits s.transport.rxbufWanted rfl rfl rfl rfl
    · have hw := s.transport.dispatchEnd_writes hs
      exact .clears _ hw (hw.emits.closed (hl r hr hs)) rfl rfl rfl
  · rename_i t ht
    obtain ⟨w, rfl⟩ := Transport.turn_wants ht
    exact .waits w rfl rfl rfl rfl
  · rename_i t ht
    exact .givesUp ht rfl rfl rfl
  · rename_i t ht
    exact .takes ht rfl rfl rfl

/-- A thread that has called `close`, up to its test. -/
theorem close_effect (incoming : Bytes) (s : Side) (code : Nat) (reason : Bytes) :
    Effect incoming s (s.close code reason) := by
  have hsame : Signals s.transport { s.transport with requestInitCancellation := true } :=
    Writes.signals (by constructor <;> simp [emits_iff, Transport.receiving])
  unfold Side.close
  simp only
  split
  · exact .signals hsame rfl rfl rfl
  · exact .signals hsame rfl rfl rfl

/-- It goes on behind its test. -/
theorem closes_effect {incoming : Bytes} {s s' : Side} {i : Nat} (hc : s.Curt)
    (h : s.closes i = some s') : Effect incoming s s' := by
  obtain ⟨c, hi, rfl⟩ := Option.map_eq_some_iff.mp h
  split
  · exact .signals (Transport.sendCloseFrame_signals s.transport c.code
      (hc c (List.mem_of_getElem? hi))) rfl rfl rfl
  · exact .signals (s.transport.storeClosing_writes c.code c.reason).signals rfl rfl rfl

/-- **What a step can do.** -/
theorem step_effect {incoming : Bytes} {s s' : Side} {a : Act} (hl : s.Lost) (hc : s.Curt)
    (hsecs : s.transport.pingIntervalSecs < 2 ^ 31) (h : s.step incoming a = some s') :
    Effect incoming s s' := by
  cases step_sideMove h with
  | refused => exact close_effect _ _ _ _
  | send kind message hv hp => exact .begins kind message hv hp rfl
  | fragment f fs hp =>
    refine .fragment f fs hp rfl ?_ rfl rfl
    cases hok : (s.transport.sendFragment f.type f.fin f.message).2 with
    | true => exact Or.inl rfl
    | false => exact Or.inr ⟨rfl, Transport.sendOnSocket_failed hok⟩
  | close code reason => exact close_effect _ _ _ _
  | closes i _ h => exact closes_effect hc h
  | kernel | clock =>
    refine .signals (Writes.signals ?_) rfl rfl rfl
    constructor <;> simp [emits_iff, Side.withTransport, Transport.receiving]
  | top b => exact .signals (Transport.pollPing_signals b hsecs) rfl rfl rfl
  | ready a =>
    cases a with
    | closeRequest => exact .signals s.transport.closeSocket_writes.signals rfl rfl rfl
    | readyForRead | sendRequest | timeout => exact .signals (.refl _) rfl rfl rfl
  | write a => exact .signals (s.transport.flushSendBuffer_signals a) rfl rfl rfl
  | read a _ _ h => exact receive_effect h
  | last b =>
    rcases s.transport.pollClosing_cases b with heq | ⟨hw, hc⟩
    · exact .waits s.transport.rxbufWanted heq rfl rfl rfl
    · exact .clears _ hw hc rfl rfl rfl
  | turn r hr => exact dispatchTurn_effect hl hr

theorem Side.close_socket (s : Side) (code : Nat) (reason : Bytes) :
    (s.close code reason).socket = s.socket := by
  unfold Side.close
  simp only
  split <;> rfl

theorem receive_lost {incoming : Bytes} {s s' : Side} {a : Received}
    (h : s.receive incoming a = some s') : s'.Lost := by
  have hfail : ∀ a : Recv, (s.transport.receiveFromSocket a).2 = some false →
      (s.transport.receiveFromSocket a).1.kernel.isOpen = false := by
    intro a ha
    unfold Transport.receiveFromSocket at ha ⊢
    split at ha
    · cases ha
    · rename_i hread
      rw [if_neg hread]
      split at ha <;> rename_i heq
      · cases ha
      · cases ha
      · rfl
  have hresult : ∀ (a : Recv) (u : Side),
      u.transport = (s.transport.receiveFromSocket a).1 →
      (u.socket = match (s.transport.receiveFromSocket a).2 with
        | none => .receiving
        | some true => .last
        | some false => .dispatching .abnormalClose) → u.Lost := by
    intro a u ht hs r hr hne
    rw [hs] at hr
    rw [ht]
    split at hr <;> rename_i heq
    · cases hr
    · cases hr
    · exact hfail a heq
  unfold Side.receive at h
  cases a with
  | wait =>
    obtain rfl := Option.some.inj h
    exact hresult .wait _ rfl rfl
  | failed =>
    obtain rfl := Option.some.inj h
    exact hresult .failed _ rfl rfl
  | bytes n =>
    simp only at h
    split at h
    · obtain rfl := Option.some.inj h
      exact hresult (.bytes _) _ rfl rfl
    · cases h

/-- A step keeps it that a failed call of `poll` leaves the socket closed. -/
theorem step_lost {incoming : Bytes} {s s' : Side} {a : Act} (hl : s.Lost)
    (hclosed : s.transport.kernel.isOpen = false → s'.transport.kernel.isOpen = false)
    (h : s.step incoming a = some s') : s'.Lost := by
  have hkeep : s'.socket = s.socket → s'.Lost :=
    fun hs r hr hne => hclosed (hl r (hs ▸ hr) hne)
  have hother : (∀ r, s'.socket = .dispatching r → r = .succeeded) → s'.Lost :=
    fun hs r hr hne => absurd (hs r hr) hne
  cases step_sideMove h with
  | refused | close => exact hkeep (s.close_socket _ _)
  | closes i _ h =>
    obtain ⟨c, -, rfl⟩ := Option.map_eq_some_iff.mp h
    exact hkeep (by split <;> rfl)
  | send | fragment | kernel | clock => exact hkeep rfl
  | top => exact hother fun r hr => by cases hr
  | ready a =>
    refine hother fun r hr => ?_
    cases a <;> cases hr
  | write a =>
    intro r hr hne
    simp only at hr
    split at hr <;> rename_i heq
    · cases hr
    · cases hr
    · exact Transport.flushSendBuffer_failed heq
  | read a _ _ h => exact receive_lost h
  | last => exact hother fun r hr => (SocketPc.dispatching.inj hr).symm
  | turn q hq =>
    unfold Side.dispatchTurn at hkeep hother ⊢
    cases hturn : s.transport.turn with
    | goesOn t =>
      simp only [hturn] at hkeep
      exact hkeep trivial
    | starved t | wants t | givesUp t =>
      simp only [hturn] at hother
      exact hother fun r hr => by cases hr

end Viral.Socket
