/-
  File:      ViralEngine/Socket/Transport.lean
  Subject:   THE TRANSPORT UNDER THE CHAT ENGINE'S SOCKET
             (IXWebSocket-master/ixwebsocket/IXWebSocketTransport.h, IXWebSocketTransport.cpp,
             IXWebSocketCloseConstants.cpp), as the chat engine sets it up: without
             per-message deflate, with pings of type Ping.

  A transport reads frames off the front of `_rxbuf` and writes frames to the end of `_txbuf`.
  What the kernel does with the bytes is `Kernel`: how many it takes before it asks to wait, and
  whether it fails behind that. Every member function is a function on the whole object; the two
  callbacks are kept in `log`.

  * `Transport`, `Kernel`, `Event` -- the object, the kernel's side of the socket, the callbacks;
  * `setReadyState`, `closeSocket`, `sendOnSocket`, `sendFragment`, `fragments`, `sendData`,
    `sendCloseFrame`, `storeClosing`, `close`, `closeSocketAndSwitchToClosedState` -- writing and
    closing;
  * `WsHeader`, `readHeader`, `emitMessage`, `dataFrame`, `pingFrame`, `closeFrame`,
    `wholeFrame`, `turn`, `dispatch` -- reading, one frame and all that are there;
  * `pollPing`, `flushSendBuffer`, `receiveFromSocket`, `pollClosing` -- the parts of `poll`, the
    loops round by round, as other threads run in between;
  * `connectToUrl`, `create` -- a connection, and the object.

  The wire sizes that go into the callbacks' statistics are left out, and so are the wake-ups of
  the polling thread: a step that only wakes it changes nothing here.
-/
import ViralEngine.Lib.WebSocket
import ViralEngine.Chat.Frames

namespace Viral.Socket

open Viral.Lib Viral.Lib.WebSocket
open Viral.Chat (Bytes ascii validateUtf8)

/-! ## 1. The object -/

/-- `WebSocketTransport::ReadyState`. -/
inductive ReadyState where
  | closing | closed | connecting | opened
  deriving DecidableEq, Repr

/-- `WebSocketTransport::MessageKind`. -/
inductive MessageKind where
  | msgText | msgBinary | ping | pong | fragment
  deriving DecidableEq, Repr

/-- `WebSocketTransport::PollResult`. -/
inductive PollResult where
  | succeeded | abnormalClose | cannotFlushSendBuffer
  deriving DecidableEq, Repr

/-- A call of one of the two callbacks. -/
inductive Event where
  | message (kind : MessageKind) (s : Bytes)
  | closed (code : Nat) (reason : Bytes) (remote : Bool)
  deriving DecidableEq, Repr

/-- The kernel's side of the socket: what it has been handed, how many bytes more it takes at
    once, and whether `send` fails behind them or asks to wait. -/
structure Kernel where
  isOpen : Bool
  sent : Bytes
  room : Nat
  broken : Bool
  deriving DecidableEq, Repr

/-- The members that the functions below read and write. `seconds` is what
    `getRandomUnsigned` answers. -/
structure Transport where
  useMask : Bool
  enablePong : Bool
  pingIntervalSecs : Nat
  readyState : ReadyState
  rxbuf : Bytes
  rxbufWanted : Nat
  txbuf : Bytes
  chunks : List Bytes
  fragmentedMessageKind : MessageKind
  closeCode : Nat
  closeReason : Bytes
  closeRemote : Bool
  requestInitCancellation : Bool
  pongReceived : Bool
  pingCount : UInt64
  seconds : Nat
  kernel : Kernel
  log : List Event
  deriving DecidableEq, Repr

/-- The longest payload of one frame. -/
def kChunkSize : Nat := 1 <<< 15

/-- `WebSocketCloseConstants`, the codes. -/
def kNormalClosureCode : Nat := 1000
def kInternalErrorCode : Nat := 1011
def kAbnormalCloseCode : Nat := 1006
def kInvalidFramePayloadData : Nat := 1007
def kProtocolErrorCode : Nat := 1002
def kNoStatusCodeErrorCode : Nat := 1005

/-- `WebSocketCloseConstants`, the reasons. -/
def kNormalClosureMessage : Bytes := ascii "Normal closure"
def kInternalErrorMessage : Bytes := ascii "Internal error"
def kAbnormalCloseMessage : Bytes := ascii "Abnormal closure"
def kPingTimeoutMessage : Bytes := ascii "Ping timeout"
def kProtocolErrorMessage : Bytes := ascii "Protocol error"
def kNoStatusCodeErrorMessage : Bytes := ascii "No status code"
def kProtocolErrorReservedBitUsed : Bytes := ascii "Reserved bit used"
def kProtocolErrorPingPayloadOversized : Bytes :=
  ascii "Ping reason control frame with payload length > 125 octets"
def kProtocolErrorCodeControlMessageFragmented : Bytes := ascii "Control message fragmented"
def kProtocolErrorCodeDataOpcodeOutOfSequence : Bytes :=
  ascii "Fragmentation: data message out of sequence"
def kProtocolErrorCodeContinuationOpCodeOutOfSequence : Bytes :=
  ascii "Fragmentation: continuation opcode out of sequence"
def kInvalidFramePayloadDataMessage : Bytes := ascii "Invalid frame payload data"
def kInvalidCloseCodeMessage : Bytes := ascii "Invalid close code"

/-- A number as `operator<<` and `std::to_string` write it. -/
def decimal (n : Nat) : Bytes := ascii (toString n)

namespace Transport

/-- A call of a callback. -/
def record (t : Transport) (e : Event) : Transport := { t with log := t.log ++ [e] }

/-- `_rxbuf` and `_rxbufWanted`. -/
def withRx (t : Transport) (rxbuf : Bytes) (rxbufWanted : Nat) : Transport :=
  { t with rxbuf := rxbuf, rxbufWanted := rxbufWanted }

/-! ## 2. The ready state and the send buffer -/

/-- `setReadyState`. -/
def setReadyState (t : Transport) (readyState : ReadyState) : Transport :=
  if t.readyState = readyState then t
  else
    match readyState with
    | .closed =>
      { t.record (.closed t.closeCode t.closeReason t.closeRemote) with
        closeReason := kInternalErrorMessage
        closeCode := kInternalErrorCode
        closeRemote := false
        readyState := .closed }
    | .opened => { t with pongReceived := false, readyState := .opened }
    | other => { t with readyState := other }

/-- `closeSocket`. -/
def closeSocket (t : Transport) : Transport :=
  { t with kernel := { t.kernel with isOpen := false } }

/-- The bytes `send` takes of `_txbuf` before it fails or asks to wait. -/
def takes (t : Transport) : Nat := if t.kernel.isOpen then min t.kernel.room t.txbuf.length else 0

/-- `_txbuf` behind those bytes. -/
def handOver (t : Transport) : Transport :=
  { t with
    txbuf := t.txbuf.drop t.takes
    kernel := { t.kernel with
      sent := t.kernel.sent ++ t.txbuf.take t.takes
      room := t.kernel.room - t.takes } }

/-- `sendOnSocket`. -/
def sendOnSocket (t : Transport) : Transport × Bool :=
  let t := t.handOver
  if t.txbuf = [] then (t, true)
  else if t.kernel.isOpen ∧ ¬ t.kernel.broken then (t, true)
  else
    let t := t.closeSocket
    (if t.readyState ≠ .closing then t.setReadyState .closed else t, false)

/-- The masking key of the next frame. -/
def maskingKey (t : Transport) : Key := .ofBytes (octets 4 t.seconds)

/-- The header that `sendFragment` builds. -/
def fragmentHeader (t : Transport) (type : Opcode) (fin : Bool) (size : Nat) : Bytes :=
  let h0 : UInt8 := UInt8.ofNat type ||| if fin then 0x80 else 0
  let m : UInt8 := if t.useMask then 0x80 else 0
  let key := if t.useMask then t.maskingKey.bytes else []
  if size < 126 then h0 :: (UInt8.ofNat size ||| m) :: key
  else if size < 65536 then h0 :: (126 ||| m) :: (octets 2 size ++ key)
  else h0 :: (127 ||| m) :: (octets 8 size ++ key)

/-- `appendToSendBuffer`. -/
def appendToSendBuffer (t : Transport) (header message : Bytes) : Transport :=
  { t with txbuf := t.txbuf ++ header ++
      (if t.useMask then masked t.maskingKey message else message) }

/-- `sendFragment`, in front of its `sendOnSocket`. -/
def writeFragment (t : Transport) (type : Opcode) (fin : Bool) (message : Bytes) : Transport :=
  t.appendToSendBuffer (t.fragmentHeader type fin message.length) message

/-- `sendFragment`. -/
def sendFragment (t : Transport) (type : Opcode) (fin : Bool) (message : Bytes) :
    Transport × Bool :=
  (t.writeFragment type fin message).sendOnSocket

end Transport

/-- The arguments of one call of `sendFragment`. -/
structure Fragment where
  type : Opcode
  fin : Bool
  message : Bytes
  deriving DecidableEq, Repr

/-- The calls of `sendFragment` that `sendData` makes: one for a short message, else one for each
    whole `kChunkSize`, the last of them with what is left. -/
def fragments (type : Opcode) (message : Bytes) : List Fragment :=
  if message.length < kChunkSize then [⟨type, true, message⟩]
  else
    let steps := message.length / kChunkSize
    (List.range steps).map fun i =>
      { type := if i = 0 then type else .continuation
        fin := i + 1 = steps
        message :=
          if i + 1 = steps then message.drop (i * kChunkSize)
          else (message.drop (i * kChunkSize)).take kChunkSize }

namespace Transport

/-- The loop of `sendData`; it ends with the first fragment that cannot be sent. -/
def sendFragments (t : Transport) : List Fragment → Transport × Bool
  | [] => (t, true)
  | f :: fs =>
    match t.sendFragment f.type f.fin f.message with
    | (t, true) => t.sendFragments fs
    | (t, false) => (t, false)

/-- `sendData`. -/
def sendData (t : Transport) (type : Opcode) (message : Bytes) : Transport × Bool :=
  if t.readyState ≠ .opened ∧ t.readyState ≠ .closing then (t, false)
  else t.sendFragments (fragments type message)

/-- `sendCloseFrame`. -/
def sendCloseFrame (t : Transport) (code : Nat) (reason : Bytes) : Transport :=
  if code ≠ kNoStatusCodeErrorCode then (t.sendData .close (octets 2 code ++ reason)).1
  else (t.sendData .close []).1

/-- What `close` stores once it has found that nobody is closing. -/
def storeClosing (t : Transport) (code : Nat) (reason : Bytes) : Transport :=
  { t with closeReason := reason, closeCode := code, closeRemote := false }.setReadyState .closing

/-- `close`, when no other thread comes in between. -/
def close (t : Transport) (code : Nat) (reason : Bytes) : Transport :=
  let t := { t with requestInitCancellation := true }
  if t.readyState = .closing ∨ t.readyState = .closed then t
  else (t.storeClosing code reason).sendCloseFrame code reason

/-- `closeSocketAndSwitchToClosedState`. -/
def closeSocketAndSwitchToClosedState (t : Transport) (code : Nat) (reason : Bytes)
    (remote : Bool) : Transport :=
  let t := t.closeSocket
  let t := { t with closeReason := reason, closeCode := code, closeRemote := remote }
  { t.setReadyState .closed with requestInitCancellation := false }

/-- The text of the `n`th heart beat. -/
def heartBeat (t : Transport) : Bytes :=
  ascii "ixwebsocket::heartbeat::" ++ decimal t.pingIntervalSecs ++ ascii "s::" ++
    decimal t.pingCount.toNat

/-- `sendHeartBeat(Ping)`. -/
def sendHeartBeat (t : Transport) : Transport :=
  ({ t with pongReceived := false, pingCount := t.pingCount + 1 }.sendData .ping t.heartBeat).1

end Transport

/-! ## 3. Reading a frame -/

/-- `wsheader_type`. -/
structure WsHeader where
  headerSize : Nat
  fin : Bool
  rsv1 : Bool
  rsv2 : Bool
  rsv3 : Bool
  mask : Bool
  opcode : Opcode
  n0 : Nat
  n : Nat
  maskingKey : Key
  deriving DecidableEq, Repr

/-- The size of a header, from its second byte. -/
def headerSize (n0 : Nat) (mask : Bool) : Nat :=
  2 + (if n0 = 126 then 2 else 0) + (if n0 = 127 then 8 else 0) + (if mask then 4 else 0)

/-- Where the key stands. -/
def keyIndex (n0 : Nat) : Nat := if n0 < 126 then 2 else if n0 = 126 then 4 else 10

/-- The header in front of `_rxbuf`; `none`: it is not there as a whole. -/
def readHeader (rxbuf : Bytes) : Option WsHeader :=
  match rxbuf with
  | d0 :: d1 :: data =>
    let n0 := (d1 &&& 0x7f).toNat
    let mask := d1 &&& 0x80 == 0x80
    if rxbuf.length < headerSize n0 mask then none
    else some {
      headerSize := headerSize n0 mask
      fin := d0 &&& 0x80 == 0x80
      rsv1 := d0 &&& 0x40 == 0x40
      rsv2 := d0 &&& 0x20 == 0x20
      rsv3 := d0 &&& 0x10 == 0x10
      mask := mask
      opcode := ⟨(d0 &&& 0x0f).toNat, opcode_lt d0⟩
      n0 := n0
      n :=
        if n0 < 126 then n0
        else if n0 = 126 then bigEndian (data.take 2)
        else bigEndian (data.take 8)
      maskingKey := if mask then .ofBytes (rxbuf.drop (keyIndex n0)) else .zero }
  | _ => none

/-- `unmaskReceiveBuffer`. -/
def unmaskReceiveBuffer (ws : WsHeader) (rxbuf : Bytes) : Bytes :=
  if ws.mask then
    rxbuf.take ws.headerSize ++
      masked ws.maskingKey ((rxbuf.drop ws.headerSize).take ws.n) ++
      rxbuf.drop (ws.headerSize + ws.n)
  else rxbuf

/-- The close code and the reason of a CLOSE frame, as `dispatch` takes them over. -/
def closeInfo (payload : Bytes) : Nat × Bytes :=
  if 2 ≤ payload.length then
    let code := bigEndian (payload.take 2)
    let reason := if 2 < payload.length then payload.drop 2 else []
    let (code, reason) :=
      if validateUtf8 reason then (code, reason)
      else (kInvalidFramePayloadData, kInvalidFramePayloadDataMessage)
    if code < 1000 ∨ code = 1004 ∨ code = 1006 ∨ 1013 < code ∧ code < 3000 then
      (kProtocolErrorCode, kInvalidCloseCodeMessage ++ ascii ": " ++ decimal code)
    else (code, reason)
  else (kNoStatusCodeErrorCode, kNoStatusCodeErrorMessage)

namespace Transport

/-- `emitMessage`, of a message that is not compressed. -/
def emitMessage (t : Transport) (kind : MessageKind) (message : Bytes) : Transport :=
  if kind = .msgText ∧ ¬ validateUtf8 message then
    t.close kInvalidFramePayloadData kInvalidFramePayloadDataMessage
  else t.record (.message kind message)

/-- `_chunks.push_back`. -/
def pushChunk (t : Transport) (s : Bytes) : Transport := { t with chunks := t.chunks ++ [s] }

/-- `_chunks.clear()`. -/
def clearChunks (t : Transport) : Transport := { t with chunks := [] }

/-- `_fragmentedMessageKind`. -/
def setKind (t : Transport) (kind : MessageKind) : Transport :=
  { t with fragmentedMessageKind := kind }

/-- A data frame begins a message or goes on with one. -/
def inSequence (t : Transport) (opcode : Opcode) : Transport :=
  if opcode ≠ .continuation then
    let t := t.setKind (if opcode = .text then .msgText else .msgBinary)
    if t.chunks ≠ [] then t.close kProtocolErrorCode kProtocolErrorCodeDataOpcodeOutOfSequence
    else t
  else if t.chunks = [] then
    t.close kProtocolErrorCode kProtocolErrorCodeContinuationOpCodeOutOfSequence
  else t

/-- The message that a data frame completes, or the fragment it is. -/
def collect (t : Transport) (fin : Bool) (frameData : Bytes) : Transport :=
  if fin ∧ t.chunks = [] then t.emitMessage t.fragmentedMessageKind frameData
  else
    let t := t.pushChunk frameData
    if fin then (t.emitMessage t.fragmentedMessageKind t.chunks.flatten).clearChunks
    else t.emitMessage .fragment []

/-- The part of `dispatch` for TEXT, BINARY and CONTINUATION frames. -/
def dataFrame (t : Transport) (opcode : Opcode) (fin : Bool) (frameData : Bytes) : Transport :=
  (t.inSequence opcode).collect fin frameData

/-- The part of `dispatch` for PING frames that are not too large. -/
def pingFrame (t : Transport) (frameData : Bytes) : Transport :=
  let t := if t.enablePong then (t.sendData .pong frameData).1 else t
  t.emitMessage .ping frameData

/-- The part of `dispatch` for CLOSE frames. -/
def closeFrame (t : Transport) (frameData : Bytes) : Transport :=
  let (code, reason) := closeInfo frameData
  if t.readyState ≠ .closing then
    ((t.setReadyState .closing).sendCloseFrame code reason).closeSocketAndSwitchToClosedState
      code reason true
  else if t.closeCode = code ∧ t.closeReason = reason then
    t.closeSocketAndSwitchToClosedState code reason false
  else t

/-- What `dispatch` does with a frame that is there as a whole, by its opcode. -/
def wholeFrame (t : Transport) (opcode : Opcode) (fin : Bool) (frameData : Bytes) : Transport :=
  if opcode = .text ∨ opcode = .binary ∨ opcode = .continuation then
    t.dataFrame opcode fin frameData
  else if opcode = .ping then t.pingFrame frameData
  else if opcode = .pong then { t with pongReceived := true }.emitMessage .pong frameData
  else if opcode = .close then t.closeFrame frameData
  else t.close kProtocolErrorCode kProtocolErrorMessage

end Transport

/-- How one turn of the loop of `dispatch` ends: it waits for bytes (`break`, or `return` with
    `_rxbufWanted` set), it goes on behind the frame, or it returns and leaves the frame. -/
inductive Turn where
  | starved (t : Transport)
  | wants (t : Transport)
  | goesOn (t : Transport)
  | givesUp (t : Transport)
  deriving DecidableEq, Repr

namespace Transport

/-- **One turn of the loop of `dispatch`.** -/
def turn (t : Transport) : Turn :=
  match readHeader t.rxbuf with
  | none => .starved t
  | some ws =>
    if ws.rsv1 ∨ ws.rsv2 ∨ ws.rsv3 then
      .givesUp (t.close kProtocolErrorCode kProtocolErrorReservedBitUsed)
    else if 1 <<< 63 < ws.n then .givesUp t
    else if t.rxbuf.length < ws.headerSize + ws.n then
      .wants (t.withRx t.rxbuf (ws.headerSize + ws.n))
    else
      let t := t.withRx t.rxbuf 0
      if ¬ ws.fin ∧ (ws.opcode = .ping ∨ ws.opcode = .pong ∨ ws.opcode = .close) then
        .givesUp (t.close kProtocolErrorCode kProtocolErrorCodeControlMessageFragmented)
      else
        let t := t.withRx (unmaskReceiveBuffer ws t.rxbuf) t.rxbufWanted
        let frameData := (t.rxbuf.drop ws.headerSize).take ws.n
        if ws.opcode = .ping ∧ 125 < frameData.length then
          .givesUp (t.close kProtocolErrorCode kProtocolErrorPingPayloadOversized)
        else
          let t := t.wholeFrame ws.opcode ws.fin frameData
          .goesOn (t.withRx (t.rxbuf.drop (ws.headerSize + ws.n)) t.rxbufWanted)

/-- The end of `dispatch`, which a `return` out of the loop does not reach. -/
def dispatchEnd (t : Transport) (pollResult : PollResult) : Transport :=
  if pollResult = .succeeded then t
  else
    let t := t.withRx [] t.rxbufWanted
    if t.readyState = .closing then t.closeSocket.setReadyState .closed
    else if t.readyState ≠ .closed then
      t.closeSocketAndSwitchToClosedState kAbnormalCloseCode kAbnormalCloseMessage false
    else t

/-- The loop of `dispatch`, for at most so many turns. -/
def dispatchLoop (pollResult : PollResult) : (turns : Nat) → Transport → Option Transport
  | 0, _ => none
  | n + 1, t =>
    match t.turn with
    | .starved t => some (t.dispatchEnd pollResult)
    | .wants t | .givesUp t => some t
    | .goesOn t => dispatchLoop pollResult n t

/-- **`dispatch`.** A frame has two bytes at least, so the loop has ended after as many turns as
    there are bytes. -/
def dispatch (t : Transport) (pollResult : PollResult) : Transport :=
  (dispatchLoop pollResult (t.rxbuf.length + 1) t).getD t

end Transport

/-! ## 4. The parts of `poll` -/

/-- What `isReadyToWrite` answers. -/
inductive Writable where
  | ready | timeout | error
  deriving DecidableEq, Repr

/-- What `recv` answers; `failed` is an error or the end of the stream. -/
inductive Recv where
  | bytes (s : Bytes)
  | wait
  | failed
  deriving DecidableEq, Repr

namespace Transport

/-- The first part of `poll`, on a connection that is OPEN. -/
def pollPing (t : Transport) (pingIntervalExceeded : Bool) : Transport :=
  if t.readyState = .opened ∧ pingIntervalExceeded then
    if ¬ t.pongReceived then t.close kInternalErrorCode kPingTimeoutMessage else t.sendHeartBeat
  else t

/-- One round of `flushSendBuffer`, and what the call returns with if it is the last one. -/
def flushSendBuffer (t : Transport) (a : Writable) : Transport × Option Bool :=
  if t.txbuf = [] ∨ t.requestInitCancellation then (t, some true)
  else
    match a with
    | .error => (t.closeSocket.setReadyState .closed, some false)
    | .ready =>
      if t.sendOnSocket.2 then (t.sendOnSocket.1, none) else (t.sendOnSocket.1, some false)
    | .timeout => (t, none)

/-- `receiveFromSocket` has read enough for now. -/
def hasRead (t : Transport) : Bool :=
  t.rxbufWanted = 0 ∧ kChunkSize ≤ t.rxbuf.length ∨
    0 < t.rxbufWanted ∧ t.rxbufWanted ≤ t.rxbuf.length

/-- One round of `receiveFromSocket`, and what the call returns with if it is the last one. On a
    closed socket `recv` fails. -/
def receiveFromSocket (t : Transport) (a : Recv) : Transport × Option Bool :=
  if t.hasRead then (t, some true)
  else
    match (if t.kernel.isOpen then a else .failed) with
    | .bytes s => (t.withRx (t.rxbuf ++ s) t.rxbufWanted, none)
    | .wait => (t, some true)
    | .failed => (t.closeSocket, some false)

/-- The last part of `poll`. -/
def pollClosing (t : Transport) (closingDelayExceeded : Bool) : Transport :=
  if t.readyState = .closing ∧ closingDelayExceeded then
    (t.withRx [] t.rxbufWanted).closeSocket.setReadyState .closed
  else t

/-- `connectToUrl`, when the handshake succeeds: the object is the old one, its socket is new. -/
def connectToUrl (t : Transport) (room : Nat) : Transport :=
  { t with kernel := ⟨true, [], room, false⟩ }.setReadyState .opened

/-- A new `WebSocketTransport` after `configure`; `kind` is what the memory of
    `_fragmentedMessageKind` happens to hold. -/
def create (useMask : Bool) (kind : MessageKind) : Transport where
  useMask := useMask
  enablePong := true
  pingIntervalSecs := 25
  readyState := .closed
  rxbuf := []
  rxbufWanted := 0
  txbuf := []
  chunks := []
  fragmentedMessageKind := kind
  closeCode := kInternalErrorCode
  closeReason := kInternalErrorMessage
  closeRemote := false
  requestInitCancellation := false
  pongReceived := false
  pingCount := 0
  seconds := 0
  kernel := ⟨false, [], 0, false⟩
  log := []

end Transport

end Viral.Socket
