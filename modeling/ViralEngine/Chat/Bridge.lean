/-
  File:      ViralEngine/Chat/Bridge.lean
  Subject:   THE ANDROID BRIDGE OF THE CHAT ENGINE
             (ViralEngine/bridge/android/ViralChatEngine_jni.cpp, ViralChat.kt).

  A Kotlin string is a list of Unicode scalar values, held by the virtual machine in UTF-16. The
  engine takes `std::string`s and its frames are UTF-8. In between stand two functions of JNI,
  `GetStringUTFChars` and `NewStringUTF`, and their encoding is modified UTF-8.

  * `nativeConnect`, `nativeSendText` and the other calls -- what the engine is asked for;
  * `onMessage` -- what the listener gets of a message;
  * `Bridged`, `reach_userId` -- a session whose calls all come through the bridge;
  * `kotlinText` -- a text gets through, out and in, exactly when it is basic.
-/
import ViralEngine.Chat.Accounts
import ViralEngine.Chat.Validator

namespace Viral.Chat

open Viral.Lib Viral.Lib.Utf

/-! ## 1. Strings -/

/-- A Kotlin string. -/
abbrev Kotlin := List Char

/-- A `jstring`. -/
abbrev JString := List UInt16

/-- `GetStringUTFChars`: a C string in modified UTF-8. -/
def getStringUTFChars (s : JString) : Bytes := modifiedUtf8 s

/-- The `std::string` the engine's parameter is made into. -/
def stdString (s : JString) : Bytes := cString (getStringUTFChars s)

/-- `NewStringUTF(s.c_str())`; `none`: the bytes are not modified UTF-8. -/
def newStringUTF (s : Bytes) : Option JString := decodeModified (cString s)

/-! ## 2. The calls -/

/-- `generateMsgId`, from its sixteen draws. -/
def generateMsgId (draws : Fin 16 → Fin 16) : Bytes :=
  ascii "msg-" ++ (List.ofFn draws).map fun i : Fin 16 => (ascii "0123456789abcdef").getD i 0

/-- `nativeConnect`; the url is not the engine's business. -/
def nativeConnect (token userId : JString) : Act :=
  .connect (stdString token) (stdString userId)

/-- `nativeSendText`; the timestamp is that of the clock. -/
def nativeSendText (convId recipientId text : JString) (draws : Fin 16 → Fin 16)
    (timestamp : Int) : Request :=
  .sendText (stdString convId) (stdString recipientId) (stdString text) (generateMsgId draws)
    timestamp

/-- `nativeSendMedia`. -/
def nativeSendMedia (convId recipientId mediaUrl : JString) (type : MessageType)
    (draws : Fin 16 → Fin 16) (timestamp : Int) : Request :=
  .sendMedia (stdString convId) (stdString recipientId) (stdString mediaUrl) type
    (generateMsgId draws) timestamp

/-- `nativeSendLike`. -/
def nativeSendLike (convId recipientId : JString) (draws : Fin 16 → Fin 16)
    (timestamp : Int) : Request :=
  .sendLike (stdString convId) (stdString recipientId) (generateMsgId draws) timestamp

/-- `nativeMarkRead`. -/
def nativeMarkRead (convId : JString) : Request := .markRead (stdString convId)

/-- `nativeTypingStart`. -/
def nativeTypingStart (convId : JString) : Request := .sendTypingStart (stdString convId)

/-- `nativeTypingStop`. -/
def nativeTypingStop (convId : JString) : Request := .sendTypingStop (stdString convId)

/-- `nativeSetOnline`. -/
def nativeSetOnline (online : Bool) : Request := .setUserOnline online

/-- The requests that come out of the bridge for Kotlin strings. -/
inductive Native : Request → Prop
  | sendText (convId recipientId text : Kotlin) (draws : Fin 16 → Fin 16) (timestamp : Int) :
      Native (nativeSendText (utf16 convId) (utf16 recipientId) (utf16 text) draws timestamp)
  | sendMedia (convId recipientId mediaUrl : Kotlin) (type : MessageType)
      (draws : Fin 16 → Fin 16) (timestamp : Int) :
      Native (nativeSendMedia (utf16 convId) (utf16 recipientId) (utf16 mediaUrl) type draws
        timestamp)
  | sendLike (convId recipientId : Kotlin) (draws : Fin 16 → Fin 16) (timestamp : Int) :
      Native (nativeSendLike (utf16 convId) (utf16 recipientId) draws timestamp)
  | markRead (convId : Kotlin) : Native (nativeMarkRead (utf16 convId))
  | typingStart (convId : Kotlin) : Native (nativeTypingStart (utf16 convId))
  | typingStop (convId : Kotlin) : Native (nativeTypingStop (utf16 convId))
  | setOnline (online : Bool) : Native (nativeSetOnline online)

/-- **The application calls the engine through the bridge**; the engine's own steps and the
    network are free. -/
def Bridged (_ : State) : Act → Prop
  | .connect token userId => ∃ t u : Kotlin, Act.connect token userId =
      nativeConnect (utf16 t) (utf16 u)
  | .request _ r => Native r
  | _ => True

/-! ## 3. The listener -/

/-- The `jint` of a message type. -/
def MessageType.jint : MessageType → Int
  | .text => 1
  | .image => 2
  | .video => 3
  | .like => 4
  | .system => 5

/-- The arguments of the listener's `onMessage`. -/
structure MessageArgs where
  id : Option JString
  convId : Option JString
  senderId : Option JString
  type : Int
  text : Option JString
  mediaUrl : Option JString
  timestamp : Int
  deriving DecidableEq, Repr

/-- The callback `nativeInit` sets for a message. -/
def onMessage (msg : ChatMessage) : MessageArgs where
  id := newStringUTF msg.id
  convId := newStringUTF msg.conversationId
  senderId := newStringUTF msg.senderId
  type := msg.type.jint
  text := newStringUTF msg.text
  mediaUrl := newStringUTF msg.mediaUrl
  timestamp := msg.timestamp

/-! ## 4. A text on its way -/

/-- The engine gets the modified UTF-8 of a Kotlin string, all of it. -/
theorem stdString_eq (s : JString) : stdString s = modifiedUtf8 s := cString_modifiedUtf8 s

/-- **Out**: the engine gets UTF-8 exactly for a basic text. -/
theorem stdString_utf8_iff (t : Kotlin) : stdString (utf16 t) = utf8 t ↔ BasicText t := by
  rw [stdString_eq, modifiedUtf8_eq_utf8_iff]

/-- What the engine gets is UTF-8 at all exactly for a basic text. -/
theorem stdString_valid_iff (t : Kotlin) :
    validateUtf8 (stdString (utf16 t)) = true ↔ BasicText t := by
  rw [stdString_eq, validateUtf8_modified_iff]

/-- **In**: `NewStringUTF` makes the same text of UTF-8 exactly for a basic text. -/
theorem newStringUTF_utf8_iff (t : Kotlin) :
    newStringUTF (utf8 t) = some (utf16 t) ↔ BasicText t := by
  rw [newStringUTF, decodeModified_eq_some_iff, cString_utf8_eq_iff]

theorem generateMsgId_valid (draws : Fin 16 → Fin 16) :
    validateUtf8 (generateMsgId draws) = true := by
  have hhex : ∀ i : Fin 16, ((ascii "0123456789abcdef").getD i 0).toNat < 0x80 := by
    decide +kernel
  have hdigits : IsAscii ((List.ofFn draws).map fun i : Fin 16 =>
      (ascii "0123456789abcdef").getD i 0) := by
    intro b hb
    obtain ⟨i, -, rfl⟩ := List.mem_map.mp hb
    exact hhex i
  have h := decodeFrom_ascii hdigits []
  rw [List.append_nil] at h
  rw [validateUtf8_eq_true, generateMsgId, decodeFrom_ascii (by decide)]
  exact h

/-- The user id of a bridged session is a Kotlin string in modified UTF-8. -/
theorem reach_userId {s : State} (h : engine.Reach Bridged s) :
    ∃ user : Kotlin, s.userId = stdString (utf16 user) := by
  refine h.invariant (I := fun s => ∃ user : Kotlin, s.userId = stdString (utf16 user))
    ⟨[], rfl⟩ ?_
  intro u a v hu hc hs
  by_cases hconnect : ∃ token userId, a = .connect token userId
  · obtain ⟨token, userId, rfl⟩ := hconnect
    obtain ⟨_, user, heq⟩ := hc
    obtain ⟨rfl, rfl⟩ := Act.connect.inj heq
    cases hs
    exact ⟨user, rfl⟩
  · have hkept := step_account hs fun token userId he => hconnect ⟨token, userId, he⟩
    rw [hkept.1]
    exact hu

/-- **Kotlin text through the bridge.** In every session, whatever its state, and for all Kotlin
    strings: the engine gets the UTF-8 of a conversation id, a recipient id or a text exactly when
    it is basic; the frame of the message is valid UTF-8 exactly when all three are, and the user
    id the session was connected with; and of a message whose strings are UTF-8 the listener gets
    the same strings exactly when they are basic. -/
theorem kotlinText {s : State} (h : engine.Reach Bridged s) (tid : Nat)
    (convId recipientId text : Kotlin) (draws : Fin 16 → Fin 16) (timestamp : Int) :
    ∃ (user : Kotlin) (msg : ChatMessage),
      s.userId = stdString (utf16 user) ∧
      (request s tid (nativeSendText (utf16 convId) (utf16 recipientId) (utf16 text) draws
        timestamp)).calls = (tid, .store msg) :: s.calls ∧
      (msg.conversationId = utf8 convId ↔ BasicText convId) ∧
      (msg.recipientId = utf8 recipientId ↔ BasicText recipientId) ∧
      (msg.text = utf8 text ↔ BasicText text) ∧
      (validateUtf8 (buildMessageJson msg) = true ↔
        BasicText user ∧ BasicText convId ∧ BasicText recipientId ∧ BasicText text) ∧
      ∀ (m : ChatMessage) (t : Kotlin),
        (m.id = utf8 t → ((onMessage m).id = some (utf16 t) ↔ BasicText t)) ∧
        (m.conversationId = utf8 t → ((onMessage m).convId = some (utf16 t) ↔ BasicText t)) ∧
        (m.senderId = utf8 t → ((onMessage m).senderId = some (utf16 t) ↔ BasicText t)) ∧
        (m.text = utf8 t → ((onMessage m).text = some (utf16 t) ↔ BasicText t)) ∧
        (m.mediaUrl = utf8 t → ((onMessage m).mediaUrl = some (utf16 t) ↔ BasicText t)) := by
  obtain ⟨user, huser⟩ := reach_userId h
  refine ⟨user, textMessage s (stdString (utf16 convId)) (stdString (utf16 recipientId))
    (stdString (utf16 text)) (generateMsgId draws) timestamp, huser, rfl,
    stdString_utf8_iff convId, stdString_utf8_iff recipientId, stdString_utf8_iff text, ?_, ?_⟩
  · have hempty : validateUtf8 [] = true := rfl
    rw [buildMessageJson_valid_iff]
    simp only [textMessage, huser, generateMsgId_valid, stdString_valid_iff, hempty, true_and,
      and_true]
    exact ⟨fun hb => ⟨hb.2.1, hb.1, hb.2.2⟩, fun hb => ⟨hb.2.1, hb.1, hb.2.2⟩⟩
  · intro m t
    have hin : ∀ b, b = utf8 t → (newStringUTF b = some (utf16 t) ↔ BasicText t) := by
      intro b hb
      rw [hb, newStringUTF_utf8_iff]
    exact ⟨hin m.id, hin m.conversationId, hin m.senderId, hin m.text, hin m.mediaUrl⟩

/-- U+00E9 in a connected session: two bytes for the engine, and the frame is valid. -/
theorem kotlinText_accent :
    ∃ s msg, engine.Reach Bridged s ∧
      (request s 1 (nativeSendText (utf16 ['c']) (utf16 ['r']) (utf16 [Char.ofNat 0xe9])
        (fun _ => 0) 0)).calls = (1, .store msg) :: s.calls ∧
      msg.text = [0xc3, 0xa9] ∧ validateUtf8 (buildMessageJson msg) = true := by
  have hreach : engine.Reach Bridged
      { State.init with
        token := stdString (utf16 ['t']), userId := stdString (utf16 ['u']), started := true } :=
    .step State.init _ (nativeConnect (utf16 ['t']) (utf16 ['u'])) .start ⟨['t'], ['u'], rfl⟩ rfl
  obtain ⟨user, msg, huser, hcalls, -, -, htext, hvalid, -⟩ :=
    kotlinText hreach 1 ['c'] ['r'] [Char.ofNat 0xe9] (fun _ => 0) 0
  have hu : BasicText user := by
    rw [← stdString_valid_iff, ← huser]
    decide
  refine ⟨_, msg, hreach, hcalls, ?_, ?_⟩
  · exact htext.mpr (by decide)
  · exact hvalid.mpr ⟨hu, by decide, by decide, by decide⟩

/-- **Outside the basic plane, and U+0000.** U+1F600 reaches the engine in the six bytes of its
    surrogates, and the message closes the open socket; its UTF-8 in a message from the network
    is no string for the listener. U+0000 reaches the engine in two bytes, and a text from the
    network ends in front of it. -/
theorem kotlinText_emoji :
    stdString (utf16 [Char.ofNat 0x1f600]) = [0xed, 0xa0, 0xbd, 0xed, 0xb8, 0x80] ∧
    utf8 [Char.ofNat 0x1f600] = [0xf0, 0x9f, 0x98, 0x80] ∧
    (engine.exec State.init
      [nativeConnect (utf16 ['t']) (utf16 ['u']), .opened, .ws true, .ws true, .ws true,
       .request 1 (nativeSendText (utf16 ['c']) (utf16 ['r']) (utf16 [Char.ofNat 0x1f600])
         (fun _ => 0) 0),
       .call 1 true, .call 1 true]).map (·.ready) = some .opened ∧
    (engine.exec State.init
      [nativeConnect (utf16 ['t']) (utf16 ['u']), .opened, .ws true, .ws true, .ws true,
       .request 1 (nativeSendText (utf16 ['c']) (utf16 ['r']) (utf16 [Char.ofNat 0x1f600])
         (fun _ => 0) 0),
       .call 1 true, .call 1 true, .call 1 true]).map (·.ready) = some .closing ∧
    newStringUTF (utf8 [Char.ofNat 0x1f600]) = none ∧
    stdString (utf16 [Char.ofNat 0]) ≠ utf8 [Char.ofNat 0] ∧
    newStringUTF (utf8 ['a', Char.ofNat 0, 'b']) = some (utf16 ['a']) := by
  decide +kernel

end Viral.Chat
