/-
  File:      ViralEngine/Chat/Frames.lean
  Subject:   MESSAGES AND THE FRAMES THE CHAT ENGINE SENDS
             (ViralEngine/core/ViralChatEngine.h, ViralChatEngine.cpp, and the UTF-8 validator
             of IXWebSocket, ixwebsocket/IXUtf8Validator.h).

  A `std::string` is a list of bytes: nothing in the engine looks at an encoding, and what a
  caller hands in need not be UTF-8. The one place that looks is `validateUtf8`, which
  `ix::WebSocket::sendText` asks before it sends.

  * `MessageType`, `MessageStatus`, `ChatMessage` -- the records of the header;
  * `buildMessageJson`, `readJson`, `typingJson`, `presenceJson`, `deliveredJson` -- the frames;
  * `utf8d`, `decodeNextByte`, `validateUtf8` -- the validator, with its table;
  * `jsonGet`, `decodeMessage` -- what `onRawMessage` reads out of a frame.
-/
import Mathlib.Algebra.Group.Nat.Defs
import Mathlib.Data.List.Basic

namespace Viral.Chat

/-! ## 1. Records -/

/-- The bytes of a `std::string`. -/
abbrev Bytes := List UInt8

/-- A string literal of the source (all of them are ASCII). -/
def ascii (s : String) : Bytes := s.toList.map fun c => UInt8.ofNat c.toNat

/-- `MessageType`. -/
inductive MessageType where
  | text | image | video | like | system
  deriving DecidableEq, Repr

/-- `MessageStatus`. -/
inductive MessageStatus where
  | pending | sent | delivered | read | failed
  deriving DecidableEq, Repr

/-- `ChatMessage`. -/
structure ChatMessage where
  id : Bytes
  conversationId : Bytes
  senderId : Bytes
  recipientId : Bytes
  type : MessageType
  text : Bytes
  mediaUrl : Bytes
  status : MessageStatus
  timestamp : Int
  deriving DecidableEq, Repr

/-! ## 2. Frames -/

/-- The `msgType` member of a message frame. -/
def typeStr : MessageType → Bytes
  | .image => ascii "image"
  | .video => ascii "video"
  | .like => ascii "like"
  | .text | .system => ascii "text"

/-- `buildMessageJson`: nothing is escaped. -/
def buildMessageJson (msg : ChatMessage) : Bytes :=
  ascii "\x7b\"type\":\"message\"," ++
  ascii "\"id\":\"" ++ msg.id ++ ascii "\"," ++
  ascii "\"conversationId\":\"" ++ msg.conversationId ++ ascii "\"," ++
  ascii "\"senderId\":\"" ++ msg.senderId ++ ascii "\"," ++
  ascii "\"recipientId\":\"" ++ msg.recipientId ++ ascii "\"," ++
  ascii "\"msgType\":\"" ++ typeStr msg.type ++ ascii "\"," ++
  ascii "\"text\":\"" ++ msg.text ++ ascii "\"," ++
  ascii "\"mediaUrl\":\"" ++ msg.mediaUrl ++ ascii "\"\x7d"

/-- The frame of `markRead`. -/
def readJson (conversationId : Bytes) : Bytes :=
  ascii "\x7b\"type\":\"read\",\"conversationId\":\"" ++ conversationId ++ ascii "\"\x7d"

/-- The frame of `sendTypingStart` and `sendTypingStop`. -/
def typingJson (conversationId : Bytes) (isTyping : Bool) : Bytes :=
  ascii "\x7b\"type\":\"typing\",\"conversationId\":\"" ++ conversationId ++
  ascii "\",\"isTyping\":" ++ (if isTyping then ascii "true" else ascii "false") ++ ascii "\x7d"

/-- The frame of `setUserOnline`. -/
def presenceJson (online : Bool) : Bytes :=
  ascii "\x7b\"type\":\"presence\",\"isOnline\":" ++
  (if online then ascii "true" else ascii "false") ++ ascii "\x7d"

/-- The acknowledgement `onRawMessage` sends for a message. -/
def deliveredJson (msgId : Bytes) : Bytes :=
  ascii "\x7b\"type\":\"delivered\",\"msgId\":\"" ++ msgId ++ ascii "\"\x7d"

/-! ## 3. The UTF-8 validator -/

/-- The state at the end of a character. -/
def utf8Accept : Nat := 0

/-- The state that is never left. -/
def utf8Reject : Nat := 1

/-- The classes of the bytes, and behind them the transitions of the nine states. -/
def utf8d : List Nat :=
  [0, 0, 0, 0, 0, 0, 0, 0, 0, 0, 0, 0, 0, 0, 0, 0,
   0, 0, 0, 0, 0, 0, 0, 0, 0, 0, 0, 0, 0, 0, 0, 0, -- 00..1f
   0, 0, 0, 0, 0, 0, 0, 0, 0, 0, 0, 0, 0, 0, 0, 0,
   0, 0, 0, 0, 0, 0, 0, 0, 0, 0, 0, 0, 0, 0, 0, 0, -- 20..3f
   0, 0, 0, 0, 0, 0, 0, 0, 0, 0, 0, 0, 0, 0, 0, 0,
   0, 0, 0, 0, 0, 0, 0, 0, 0, 0, 0, 0, 0, 0, 0, 0, -- 40..5f
   0, 0, 0, 0, 0, 0, 0, 0, 0, 0, 0, 0, 0, 0, 0, 0,
   0, 0, 0, 0, 0, 0, 0, 0, 0, 0, 0, 0, 0, 0, 0, 0, -- 60..7f
   1, 1, 1, 1, 1, 1, 1, 1, 1, 1, 1, 1, 1, 1, 1, 1,
   9, 9, 9, 9, 9, 9, 9, 9, 9, 9, 9, 9, 9, 9, 9, 9, -- 80..9f
   7, 7, 7, 7, 7, 7, 7, 7, 7, 7, 7, 7, 7, 7, 7, 7,
   7, 7, 7, 7, 7, 7, 7, 7, 7, 7, 7, 7, 7, 7, 7, 7, -- a0..bf
   8, 8, 2, 2, 2, 2, 2, 2, 2, 2, 2, 2, 2, 2, 2, 2,
   2, 2, 2, 2, 2, 2, 2, 2, 2, 2, 2, 2, 2, 2, 2, 2, -- c0..df
   0xa, 0x3, 0x3, 0x3, 0x3, 0x3, 0x3, 0x3, 0x3, 0x3, 0x3, 0x3, 0x3, 0x4, 0x3, 0x3, -- e0..ef
   0xb, 0x6, 0x6, 0x6, 0x5, 0x8, 0x8, 0x8, 0x8, 0x8, 0x8, 0x8, 0x8, 0x8, 0x8, 0x8, -- f0..ff
   0x0, 0x1, 0x2, 0x3, 0x5, 0x8, 0x7, 0x1, 0x1, 0x1, 0x4, 0x6, 0x1, 0x1, 0x1, 0x1, -- s0..s0
   1, 1, 1, 1, 1, 1, 1, 1, 1, 1, 1, 1, 1, 1, 1, 1,
   1, 0, 1, 1, 1, 1, 1, 0, 1, 0, 1, 1, 1, 1, 1, 1, -- s1..s2
   1, 2, 1, 1, 1, 1, 1, 2, 1, 2, 1, 1, 1, 1, 1, 1,
   1, 1, 1, 1, 1, 1, 1, 2, 1, 1, 1, 1, 1, 1, 1, 1, -- s3..s4
   1, 2, 1, 1, 1, 1, 1, 1, 1, 2, 1, 1, 1, 1, 1, 1,
   1, 1, 1, 1, 1, 1, 1, 3, 1, 3, 1, 1, 1, 1, 1, 1, -- s5..s6
   1, 3, 1, 1, 1, 1, 1, 3, 1, 3, 1, 1, 1, 1, 1, 1,
   1, 3, 1, 1, 1, 1, 1, 1, 1, 1, 1, 1, 1, 1, 1, 1] -- s7..s8

/-- The next state of the decoder; the code point it collects is not read by the validator. -/
def decodeNextByte (state : Nat) (byte : UInt8) : Nat :=
  let type := utf8d.getD byte.toNat utf8Reject
  utf8d.getD (256 + state * 16 + type) utf8Reject

/-- `Utf8Validator::decode`: `none` as soon as a byte is rejected. -/
def decodeFrom : Nat → Bytes → Option Nat
  | state, [] => some state
  | state, byte :: rest =>
    let state := decodeNextByte state byte
    if state = utf8Reject then none else decodeFrom state rest

/-- `validateUtf8`: the text ends at the end of a character. -/
def validateUtf8 (s : Bytes) : Bool := decodeFrom utf8Accept s == some utf8Accept

/-! ## 4. Reading a frame -/

/-- `std::string::find(pattern, pos)`. -/
def findFrom (s pattern : Bytes) (pos : Nat) : Option Nat :=
  ((List.range (s.length + 1)).drop pos).find? fun i => pattern.isPrefixOf (s.drop i)

/-- `std::string::find_first_of(set, pos)`. -/
def findFirstOf (s set : Bytes) (pos : Nat) : Option Nat :=
  ((s.drop pos).findIdx? fun b => set.contains b).map (pos + ·)

/-- `std::string::npos`. -/
def npos : Nat := 2 ^ 64 - 1

/-- `std::string::substr(pos, count)`; `none`: it throws `std::out_of_range`. -/
def substr (s : Bytes) (pos count : Nat) : Option Bytes :=
  if s.length < pos then none else some ((s.drop pos).take count)

/-- `jsonGet`. `end - pos` is computed in `size_t`. -/
def jsonGet (json key : Bytes) : Option Bytes :=
  let search := ascii "\"" ++ key ++ ascii "\":\""
  match findFrom json search 0 with
  | none =>
    -- numeric
    let search := ascii "\"" ++ key ++ ascii "\":"
    match findFrom json search 0 with
    | none => some []
    | some pos =>
      let pos := pos + search.length
      let stop := (findFirstOf json (ascii ",\x7d") pos).getD npos
      substr json pos ((stop + 2 ^ 64 - pos) % 2 ^ 64)
  | some pos =>
    let pos := pos + search.length
    let stop := (findFrom json (ascii "\"") pos).getD npos
    substr json pos ((stop + 2 ^ 64 - pos) % 2 ^ 64)

/-- The message a `message` frame decodes to; `timestamp` is not written by `onRawMessage`. -/
def decodeMessage (userId json : Bytes) (timestamp : Int) : Option ChatMessage := do
  let id ← jsonGet json (ascii "id")
  let conversationId ← jsonGet json (ascii "conversationId")
  let senderId ← jsonGet json (ascii "senderId")
  let text ← jsonGet json (ascii "text")
  let mediaUrl ← jsonGet json (ascii "mediaUrl")
  let msgType ← jsonGet json (ascii "msgType")
  some {
    id := id
    conversationId := conversationId
    senderId := senderId
    recipientId := userId
    type :=
      if msgType = ascii "image" then .image
      else if msgType = ascii "video" then .video
      else if msgType = ascii "like" then .like
      else .text
    text := text
    mediaUrl := mediaUrl
    status := .delivered
    timestamp := timestamp }

end Viral.Chat
