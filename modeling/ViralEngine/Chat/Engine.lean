/-
  File:      ViralEngine/Chat/Engine.lean
  Subject:   THE CHAT ENGINE AS A MACHINE OF CALLERS AND ONE SOCKET THREAD
             (ViralEngine/core/ViralChatEngine.cpp).

  Any number of application threads are inside `sendText`, `sendMedia`, `markRead` and the
  others at a time; the thread of `ix::WebSocket` runs `onConnected`, `onRawMessage` and
  `flushOfflineQueue`. They meet in the atomic `m_connected`, in `m_offlineQueue` under
  `m_queueMutex`, in the message store under `m_storeMutex` and in the socket. The push of
  `sendRaw` and the store are one step each; `flushOfflineQueue` keeps `m_queueMutex` over its
  whole loop, and a push waits for it (`State.mutexFree`).

  The socket is the transport's ready state. It leaves OPEN on its own at any time; the Close
  message (`onDisconnected`) comes when it turns CLOSED, from whichever thread turned it, and
  before the state is stored (`WebSocketTransport::setReadyState`). Between CLOSING and CLOSED,
  and in front of the Close message, `m_connected` is behind the socket.

  * `State`, `Act` -- the members, the threads' places, what can happen;
  * `wsSendText` -- `ix::WebSocket::sendText`, with the transport's answer from outside;
  * `sendRawStep`, `callStep`, `wsStep` -- one step of `sendRaw`, of a caller, of the socket
    thread;
  * `Event` -- the history: what was handed to `sendRaw`, pushed, and handed to the socket.
-/
import ViralEngine.Lib.Machine
import ViralEngine.Chat.Frames

namespace Viral.Chat

open Viral.Lib

/-! ## 1. Places -/

/-- The places of `sendRaw(json)`. -/
inductive SendPc where
  | test (json : Bytes)
  | send (json : Bytes)
  | push (json : Bytes)
  deriving DecidableEq, Repr

/-- The places of an application thread inside the engine: `storeMessage` in front of
    `sendRaw`, `sendRaw`, and `disconnect` in `ws.stop()` and behind it. -/
inductive CallPc where
  | store (msg : ChatMessage)
  | raw (p : SendPc)
  | stopJoin
  | stopStore
  deriving DecidableEq, Repr

/-- The places of the socket thread. `presence`, `flushLock`, `flushTest`, `flushSend`,
    `flushPop` are inside `onConnected`; `store` and `ack` inside `onRawMessage`. -/
inductive WsPc where
  | idle
  | onConnected
  | presence (p : SendPc)
  | flushLock
  | flushTest
  | flushSend
  | flushPop
  | store (msg : ChatMessage)
  | ack (p : SendPc)
  deriving DecidableEq, Repr

/-- `WebSocketTransport::ReadyState`, without CONNECTING, in which nothing is sent or called. -/
inductive ReadyState where
  | closed | opened | closing
  deriving DecidableEq, Repr

/-- One entry of the history. -/
inductive Event where
  | handed (json : Bytes)
  | pushed (json : Bytes)
  | sent (json : Bytes) (ok : Bool)
  | flushed (json : Bytes) (ok : Bool)
  deriving DecidableEq, Repr

/-- The engine and its socket. `dropping`: the Close message is delivered and CLOSED is not yet
    stored; `started`: the socket thread exists. -/
structure State where
  connected : Bool
  queue : List Bytes
  userId : Bytes
  token : Bytes
  messages : Bytes → List ChatMessage
  ready : ReadyState
  dropping : Bool
  started : Bool
  ws : WsPc
  calls : List (Nat × CallPc)
  log : List Event

/-- The engine behind its constructor. -/
def State.init : State where
  connected := false
  queue := []
  userId := []
  token := []
  messages := fun _ => []
  ready := .closed
  dropping := false
  started := false
  ws := .idle
  calls := []
  log := []

/-- `m_queueMutex` is not held by `flushOfflineQueue`. -/
def State.mutexFree (s : State) : Bool :=
  match s.ws with
  | .flushTest | .flushSend | .flushPop => false
  | _ => true

/-- What happened, in the order in which it happened. -/
def State.record (s : State) (e : Event) : State := { s with log := s.log ++ [e] }

/-- `storeMessage`: behind the others of the conversation, without a look at its id. -/
def storeMessage (s : State) (msg : ChatMessage) : State :=
  { s with messages := fun c =>
      if c = msg.conversationId then s.messages c ++ [msg] else s.messages c }

/-- `getMessages`; a negative `limit` is not modelled (it steps over the vector's end). -/
def getMessages (s : State) (conversationId : Bytes) (limit : Nat) : List ChatMessage :=
  let msgs := s.messages conversationId
  if msgs.length ≤ limit then msgs else msgs.drop (msgs.length - limit)

/-! ## 2. Sending -/

/-- `close` of the transport: OPEN becomes CLOSING. -/
def closeSocket (s : State) : State :=
  if s.ready = .opened ∧ s.dropping = false then { s with ready := .closing } else s

/-- `ix::WebSocket::sendText`. `accepted` is the answer of the transport on an open socket. -/
def wsSendText (s : State) (json : Bytes) (accepted : Bool) : State × Bool :=
  if validateUtf8 json then
    if s.ready = .opened then (s, accepted) else (s, false)
  else (closeSocket s, false)

/-- One step of `sendRaw`; the second component is the next place, `none` when it returns. A
    push waits for the mutex. -/
def sendRawStep (s : State) (p : SendPc) (accepted : Bool) : Option (State × Option SendPc) :=
  match p with
  | .test json => some (s, some (if s.connected then .send json else .push json))
  | .send json =>
    let (s, ok) := wsSendText s json accepted
    some (s.record (.sent json ok), none)
  | .push json =>
    if s.mutexFree then
      some ({ s with queue := s.queue ++ [json] }.record (.pushed json), none)
    else none

/-! ## 3. The callers -/

/-- The calls that send; `msgId` and `timestamp` are what `generateMsgId` and the clock give. -/
inductive Request where
  | sendText (conversationId recipientId text msgId : Bytes) (timestamp : Int)
  | sendMedia (conversationId recipientId mediaUrl : Bytes) (type : MessageType) (msgId : Bytes)
      (timestamp : Int)
  | sendLike (conversationId recipientId msgId : Bytes) (timestamp : Int)
  | markRead (conversationId : Bytes)
  | sendTypingStart (conversationId : Bytes)
  | sendTypingStop (conversationId : Bytes)
  | setUserOnline (online : Bool)
  deriving DecidableEq, Repr

/-- The message `sendMedia` builds; `sendLike` is `sendMedia` with an empty url. -/
def mediaMessage (s : State) (conversationId recipientId mediaUrl : Bytes) (type : MessageType)
    (msgId : Bytes) (timestamp : Int) : ChatMessage where
  id := msgId
  conversationId := conversationId
  senderId := s.userId
  recipientId := recipientId
  type := type
  text := []
  mediaUrl := mediaUrl
  status := .pending
  timestamp := timestamp

/-- The message `sendText` builds. -/
def textMessage (s : State) (conversationId recipientId text msgId : Bytes) (timestamp : Int) :
    ChatMessage where
  id := msgId
  conversationId := conversationId
  senderId := s.userId
  recipientId := recipientId
  type := .text
  text := text
  mediaUrl := []
  status := .pending
  timestamp := timestamp

/-- A thread enters `sendRaw(json)`. -/
def enterRaw (s : State) (tid : Nat) (json : Bytes) : State :=
  { s.record (.handed json) with calls := (tid, .raw (.test json)) :: s.calls }

/-- A thread enters one of the sending calls. -/
def request (s : State) (tid : Nat) : Request → State
  | .sendText conversationId recipientId text msgId timestamp =>
    { s with calls :=
        (tid, .store (textMessage s conversationId recipientId text msgId timestamp)) :: s.calls }
  | .sendMedia conversationId recipientId mediaUrl type msgId timestamp =>
    { s with calls :=
        (tid, .store (mediaMessage s conversationId recipientId mediaUrl type msgId timestamp)) ::
          s.calls }
  | .sendLike conversationId recipientId msgId timestamp =>
    { s with calls :=
        (tid, .store (mediaMessage s conversationId recipientId [] .like msgId timestamp)) ::
          s.calls }
  | .markRead conversationId => enterRaw s tid (readJson conversationId)
  | .sendTypingStart conversationId => enterRaw s tid (typingJson conversationId true)
  | .sendTypingStop conversationId => enterRaw s tid (typingJson conversationId false)
  | .setUserOnline online => enterRaw s tid (presenceJson online)

/-- One move of a caller from its place; the second component is the next place. -/
def callMove (s : State) (pc : CallPc) (accepted : Bool) : Option (State × Option CallPc) :=
  match pc with
  | .store msg =>
    some ((storeMessage s msg).record (.handed (buildMessageJson msg)),
      some (.raw (.test (buildMessageJson msg))))
  | .raw p => (sendRawStep s p accepted).map fun (s, next) => (s, next.map .raw)
  | .stopJoin =>
    -- the socket thread leaves its loop between two callbacks, not while CLOSING
    if s.ws = .idle ∧ s.ready ≠ .closing then some ({ s with started := false }, some .stopStore)
    else none
  | .stopStore => some ({ s with connected := false }, none)

/-- One step of the application thread `tid`. -/
def callStep (s : State) (tid : Nat) (accepted : Bool) : Option State := do
  let pc ← s.calls.lookup tid
  let (t, next) ← callMove s pc accepted
  let rest := s.calls.erase (tid, pc)
  some { t with calls := match next with
    | some pc => (tid, pc) :: rest
    | none => rest }

/-! ## 4. The socket thread -/

/-- **One step of the socket thread** inside a callback. -/
def wsStep (s : State) (accepted : Bool) : Option State :=
  match s.ws with
  | .idle => none
  | .onConnected =>
    some { s.record (.handed (presenceJson true)) with
      connected := true
      ws := .presence (.test (presenceJson true)) }
  | .presence p => do
    let (s, next) ← sendRawStep s p accepted
    some { s with ws := match next with
      | some p => .presence p
      | none => .flushLock }
  | .flushLock => some { s with ws := .flushTest }
  | .flushTest => some { s with ws := if s.queue.isEmpty then .idle else .flushSend }
  | .flushSend =>
    match s.queue with
    | [] => none
    | json :: _ =>
      let (s, ok) := wsSendText s json accepted
      some { s.record (.flushed json ok) with ws := .flushPop }
  | .flushPop => some { s with queue := s.queue.tail, ws := .flushTest }
  | .store msg =>
    some { (storeMessage s msg).record (.handed (deliveredJson msg.id)) with
      ws := .ack (.test (deliveredJson msg.id)) }
  | .ack p => do
    let (s, next) ← sendRawStep s p accepted
    some { s with ws := match next with
      | some p => .ack p
      | none => .idle }

/-- `onRawMessage` on a frame. Only a `message` frame is stored and acknowledged; the others end
    in a callback of the application. -/
def receive (s : State) (json : Bytes) (timestamp : Int) : Option State := do
  let type ← jsonGet json (ascii "type")
  if type = ascii "message" then
    let msg ← decodeMessage s.userId json timestamp
    some { s with ws := .store msg }
  else some s

/-! ## 5. The machine -/

/-- What the threads and the environment do. -/
inductive Act where
  | connect (token userId : Bytes)
  | disconnect (tid : Nat)
  | request (tid : Nat) (r : Request)
  | call (tid : Nat) (accepted : Bool)
  | ws (accepted : Bool)
  | opened
  | closing
  | dropping
  | dropped
  | connectError
  | receive (json : Bytes) (timestamp : Int)
  deriving DecidableEq, Repr

/-- The socket thread waits for the network. -/
def State.listening (s : State) : Bool := s.started && s.ws == .idle

/-- **One step.** -/
def step (s : State) : Act → Option State
  | .connect token userId => some { s with token := token, userId := userId, started := true }
  | .disconnect tid =>
    if (s.calls.lookup tid).isSome then none
    else
      let t := closeSocket s
      some { t with calls := (tid, .stopJoin) :: t.calls }
  | .request tid r => if (s.calls.lookup tid).isSome then none else some (request s tid r)
  | .call tid accepted => callStep s tid accepted
  | .ws accepted => wsStep s accepted
  | .opened =>
    if s.listening = true ∧ s.ready = .closed then
      some { s with ready := .opened, ws := .onConnected }
    else none
  | .closing => some (closeSocket s)
  | .dropping =>
    -- the Close message: `onDisconnected`
    if s.ready ≠ .closed ∧ s.dropping = false then
      some { s with connected := false, dropping := true }
    else none
  | .dropped =>
    if s.dropping = true then some { s with ready := .closed, dropping := false } else none
  | .connectError =>
    -- the Error message of a failed attempt: `onDisconnected`
    if s.listening = true ∧ s.ready = .closed then some { s with connected := false } else none
  | .receive json timestamp =>
    if s.listening = true ∧ s.ready ≠ .closed then receive s json timestamp else none

/-- The chat engine. -/
def engine : Machine State Act := ⟨State.init, step⟩

end Viral.Chat
