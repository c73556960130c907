/-
  File:      ViralEngine/Chat/WellFormed.lean
  Subject:   WHICH FRAMES ARE JSON.

  The builders of the frames put their strings between quotes as they are. A frame is the JSON
  object of its arguments exactly when none of them has a quote, a backslash or a control byte.

  * `messageMembers`, `readMembers`, `typingMembers`, `presenceMembers`, `deliveredMembers` -- the
    members of the frames, and that the frames are their object texts;
  * `handing`, `step_handed` -- the members of the frame that a step passes to `sendRaw`;
  * `framed` -- the frames passed to `sendRaw`, each with the arguments it was built from;
  * `wellFormed_iff` -- all frames of a run are read as their arguments exactly when all arguments
    are plain;
  * `wellFormed_backslash` -- a text that ends with a backslash.
-/
import ViralEngine.Lib.Json
import ViralEngine.Chat.HandOff

namespace Viral.Chat

open Viral.Lib

/-! ## 1. The members of the frames -/

/-- The members of an object, in order. -/
abbrev Members := List (Bytes × Json.Field)

/-- A member with a string. -/
def textMember (key : String) (v : Bytes) : Bytes × Json.Field := (ascii key, .str v)

/-- The members of a message frame. -/
def messageMembers (msg : ChatMessage) : Members :=
  [textMember "type" (ascii "message"), textMember "id" msg.id,
   textMember "conversationId" msg.conversationId, textMember "senderId" msg.senderId,
   textMember "recipientId" msg.recipientId, textMember "msgType" (typeStr msg.type),
   textMember "text" msg.text, textMember "mediaUrl" msg.mediaUrl]

/-- The members of a read receipt. -/
def readMembers (conversationId : Bytes) : Members :=
  [textMember "type" (ascii "read"), textMember "conversationId" conversationId]

/-- The members of a typing frame. -/
def typingMembers (conversationId : Bytes) (isTyping : Bool) : Members :=
  [textMember "type" (ascii "typing"), textMember "conversationId" conversationId,
   (ascii "isTyping", .bool isTyping)]

/-- The members of a presence frame. -/
def presenceMembers (online : Bool) : Members :=
  [textMember "type" (ascii "presence"), (ascii "isOnline", .bool online)]

/-- The members of an acknowledgement. -/
def deliveredMembers (msgId : Bytes) : Members :=
  [textMember "type" (ascii "delivered"), textMember "msgId" msgId]

/-- The text of a member with a string. -/
theorem memberText_str (key : String) (v rest : Bytes) :
    Json.memberText (textMember key v) ++ rest =
      Json.quote :: (ascii key ++ Json.quote :: 58 :: Json.quote :: (v ++ Json.quote :: rest)) := by
  simp [Json.memberText, textMember, Json.Field.text]

theorem memberText_bool (key : String) (b : Bool) (rest : Bytes) :
    Json.memberText (ascii key, .bool b) ++ rest =
      Json.quote :: (ascii key ++ Json.quote :: 58 ::
        ((if b then ascii "true" else ascii "false") ++ rest)) := by
  cases b <;> simp [Json.memberText, Json.Field.text, Json.trueText, Json.falseText] <;> rfl

theorem buildMessageJson_object (msg : ChatMessage) :
    buildMessageJson msg = Json.objectText (messageMembers msg) := by
  unfold messageMembers Json.objectText Json.tailText
  simp only [memberText_str, Json.tailText]
  unfold buildMessageJson
  simp only [List.append_assoc]
  rfl

theorem readJson_object (conversationId : Bytes) :
    readJson conversationId = Json.objectText (readMembers conversationId) := by
  unfold readMembers Json.objectText
  simp only [memberText_str, Json.tailText]
  unfold readJson
  simp only [List.append_assoc]
  rfl

theorem typingJson_object (conversationId : Bytes) (isTyping : Bool) :
    typingJson conversationId isTyping =
      Json.objectText (typingMembers conversationId isTyping) := by
  unfold typingMembers Json.objectText
  simp only [memberText_str, Json.tailText, memberText_bool]
  unfold typingJson
  simp only [List.append_assoc]
  rfl

theorem presenceJson_object (online : Bool) :
    presenceJson online = Json.objectText (presenceMembers online) := by
  cases online <;> rfl

theorem deliveredJson_object (msgId : Bytes) :
    deliveredJson msgId = Json.objectText (deliveredMembers msgId) := by
  unfold deliveredMembers Json.objectText
  simp only [memberText_str, Json.tailText]
  unfold deliveredJson
  simp only [List.append_assoc]
  rfl

/-! ## 2. The frames passed to `sendRaw` -/

/-- The members of the frame that a step passes to `sendRaw`: the arguments of the call, or of the
    peer's frame. -/
def handing (s : State) : Act → Option Members
  | .request _ (.markRead conversationId) => some (readMembers conversationId)
  | .request _ (.sendTypingStart conversationId) => some (typingMembers conversationId true)
  | .request _ (.sendTypingStop conversationId) => some (typingMembers conversationId false)
  | .request _ (.setUserOnline online) => some (presenceMembers online)
  | .call tid _ =>
    match s.calls.lookup tid with
    | some (.store msg) => some (messageMembers msg)
    | _ => none
  | .ws _ =>
    match s.ws with
    | .onConnected => some (presenceMembers true)
    | .store msg => some (deliveredMembers msg.id)
    | _ => none
  | _ => none

/-- **A step passes to `sendRaw` the object text of its arguments.** -/
theorem step_handed {s t : State} {a : Act} (h : step s a = some t) :
    t.handed = s.handed ++ ((handing s a).map Json.objectText).toList := by
  have hsame : t.handed = s.handed → handing s a = none →
      t.handed = s.handed ++ ((handing s a).map Json.objectText).toList := by
    intro e hno
    rw [e, hno]
    exact (List.append_nil _).symm
  have hnew : ∀ {u : State} {json : Bytes} {ms : Members},
      t.handed = (u.record (.handed json)).handed → u.handed = s.handed →
      json = Json.objectText ms → handing s a = some ms →
      t.handed = s.handed ++ ((handing s a).map Json.objectText).toList := by
    intro u json ms e hu hjson hms
    rw [e, handed_record, hu, hms, hjson]
    rfl
  cases step_do h with
  | call tid accepted _ h =>
    have hat : handing s (.call tid accepted) = match s.calls.lookup tid with
      | some (.store msg) => some (messageMembers msg)
      | _ => none := rfl
    obtain ⟨pc, u, next, hpc, hm, rfl⟩ := callStep_some h
    rw [hpc] at hat
    cases callMove_do hm with
    | store msg =>
      exact hnew (u := storeMessage s msg) rfl rfl (buildMessageJson_object msg) hat
    | raw p v n hp =>
      have hkept := (sendRawStep_spec hp).2.2.1
      exact hsame hkept hat
    | stopJoin hidle hready =>
      exact hsame rfl hat
    | stopStore =>
      exact hsame rfl hat
  | ws accepted _ h =>
    have hat : handing s (.ws accepted) = match s.ws with
      | .onConnected => some (presenceMembers true)
      | .store msg => some (deliveredMembers msg.id)
      | _ => none := rfl
    cases wsStep_do h with
    | onConnected hws =>
      rw [hws] at hat
      exact hnew (u := s) rfl rfl (presenceJson_object true) hat
    | store msg hws =>
      rw [hws] at hat
      exact hnew (u := storeMessage s msg) rfl rfl (deliveredJson_object msg.id) hat
    | presence p u next hws hm | ack p u next hws hm =>
      rw [hws] at hat
      have hkept := (sendRawStep_spec hm).2.2.1
      exact hsame hkept hat
    | flushLock hws | flushTest hws | flushPop hws =>
      rw [hws] at hat
      exact hsame rfl hat
    | flushSend json rest ready hws hq hw =>
      rw [hws] at hat
      refine hsame ?_ hat
      exact (handed_record _ _).trans (List.append_nil _)
  | request tid r hout =>
    cases r with
    | sendText | sendMedia | sendLike => exact hsame rfl rfl
    | markRead conversationId =>
      exact hnew (u := s) rfl rfl (readJson_object conversationId) rfl
    | sendTypingStart conversationId =>
      exact hnew (u := s) rfl rfl (typingJson_object conversationId true) rfl
    | sendTypingStop conversationId =>
      exact hnew (u := s) rfl rfl (typingJson_object conversationId false) rfl
    | setUserOnline online => exact hnew (u := s) rfl rfl (presenceJson_object online) rfl
  | connect | disconnect | opened | closing | dropping | dropped | connectError | message
  | passed => exact hsame rfl rfl

theorem keys_plain {ms : Members} (keys : List Bytes) (e : ms.map Prod.fst = keys)
    (hk : ∀ k ∈ keys, Json.Plain k) : ∀ m ∈ ms, Json.Plain m.1 := by
  intro m hm
  refine hk m.1 ?_
  rw [← e]
  exact List.mem_map_of_mem hm

theorem typingMembers_keys (conversationId : Bytes) (isTyping : Bool) :
    ∀ m ∈ typingMembers conversationId isTyping, Json.Plain m.1 :=
  keys_plain [ascii "type", ascii "conversationId", ascii "isTyping"] rfl (by decide)

theorem presenceMembers_keys (online : Bool) : ∀ m ∈ presenceMembers online, Json.Plain m.1 :=
  keys_plain [ascii "type", ascii "isOnline"] rfl (by decide)

/-- The keys of the frames stand for themselves. -/
theorem handing_keys {s : State} {a : Act} {ms : Members} (h : handing s a = some ms) :
    ∀ m ∈ ms, Json.Plain m.1 := by
  unfold handing at h
  split at h
  · cases h
    exact keys_plain [ascii "type", ascii "conversationId"] rfl (by decide)
  · cases h
    exact typingMembers_keys _ true
  · cases h
    exact typingMembers_keys _ false
  · cases h
    exact presenceMembers_keys _
  · split at h <;> cases h
    exact keys_plain [ascii "type", ascii "id", ascii "conversationId", ascii "senderId",
      ascii "recipientId", ascii "msgType", ascii "text", ascii "mediaUrl"] rfl (by decide)
  · split at h <;> cases h
    · exact presenceMembers_keys true
    · exact keys_plain [ascii "type", ascii "msgId"] rfl (by decide)
  · cases h

/-! ## 3. Runs -/

/-- The frames passed to `sendRaw`, each with the members it was built from. -/
def noteFrame (l : List (Bytes × Members)) (s : State) (a : Act) (t : State) :
    List (Bytes × Members) :=
  l ++ (t.handed.drop s.handed.length).zip (handing s a).toList

/-- The engine, with every frame beside what it was built from. -/
def framed : Machine (State × List (Bytes × Members)) Act := engine.watch [] noteFrame

/-- The frame is the JSON object of its arguments. -/
def ReadAs (e : Bytes × Members) : Prop := Json.parse e.1 = some (Json.objectOf e.2)

/-- **The condition on a step**: the strings it passes on have no quote, no backslash and no
    control byte. -/
def PlainArguments (s : State) (a : Act) : Prop := ∀ ms ∈ handing s a, ∀ m ∈ ms, m.2.Plain

instance (s : State) (a : Act) : Decidable (PlainArguments s a) :=
  inferInstanceAs (Decidable (∀ ms ∈ handing s a, _))

/-- What a step adds to the frames. -/
theorem noteFrame_eq {s t : State} {a : Act} (h : step s a = some t)
    (l : List (Bytes × Members)) :
    noteFrame l s a t = l ++ ((handing s a).map fun ms => (Json.objectText ms, ms)).toList := by
  unfold noteFrame
  rw [step_handed h, List.drop_left]
  cases handing s a <;> rfl

/-- **A step keeps all frames well-formed exactly when its arguments are plain.** -/
theorem step_wellFormed {s t : State} {a : Act} (h : step s a = some t)
    (l : List (Bytes × Members)) :
    (∀ e ∈ noteFrame l s a t, ReadAs e) ↔ (∀ e ∈ l, ReadAs e) ∧ PlainArguments s a := by
  rw [noteFrame_eq h, List.forall_mem_append]
  refine and_congr_right fun _ => ?_
  unfold PlainArguments
  cases hms : handing s a with
  | none => exact ⟨fun _ => by nofun, fun _ => by nofun⟩
  | some ms =>
    have hread : ReadAs (Json.objectText ms, ms) ↔ ∀ m ∈ ms, m.2.Plain :=
      Json.parse_objectText (handing_keys hms)
    constructor
    · intro hall ms' e
      cases e
      exact hread.mp (hall _ List.mem_cons_self)
    · intro hall e he
      obtain rfl := List.mem_singleton.mp he
      exact hread.mpr (hall ms rfl)

/-- The frames noted are those passed to `sendRaw`. -/
theorem reach_frames {C : State × List (Bytes × Members) → Act → Prop}
    {p : State × List (Bytes × Members)} (h : framed.Reach C p) :
    p.2.map Prod.fst = p.1.handed := by
  refine h.invariant (I := fun p => p.2.map Prod.fst = p.1.handed) rfl fun u a v hu _ hs => ?_
  obtain ⟨hstep, hnote⟩ := Machine.watch_step_some hs
  rw [hnote, noteFrame_eq hstep, step_handed hstep, List.map_append, hu]
  cases handing u.1 a <;> rfl

/-- **The frames of a run are JSON objects of their arguments exactly when all arguments are
    plain.** -/
theorem wellFormed_iff {acts : List Act} {p : State × List (Bytes × Members)}
    (h : framed.exec framed.init acts = some p) :
    p.2.map Prod.fst = p.1.handed ∧
      ((∀ e ∈ p.2, ReadAs e) ↔
        framed.meets (fun p a => PlainArguments p.1 a) framed.init acts) := by
  refine ⟨reach_frames (Machine.steps_of_exec h (Machine.meets_any _ _)), ?_⟩
  have hrun := Machine.exec_iff_meets (M := framed) (C := fun p a => PlainArguments p.1 a)
    (I := fun _ => True) (Q := fun p => ∀ e ∈ p.2, ReadAs e) (fun _ _ _ _ _ => trivial)
    (fun s a t _ hs => by
      obtain ⟨hstep, hnote⟩ := Machine.watch_step_some hs
      rw [hnote]
      exact step_wellFormed hstep s.2) trivial h
  rw [hrun]
  exact and_iff_right (by nofun)

/-- A text and its frame, offline. -/
def sendOneText (text : Bytes) : List Act :=
  [.request 1 (.sendText (ascii "c") (ascii "r") text (ascii "m") 0), .call 1 true]

theorem wellFormed_hello : ∃ p, framed.exec framed.init (sendOneText (ascii "hello")) = some p ∧
    p.2.length = 1 ∧ ∀ e ∈ p.2, ReadAs e := by
  have hone : (framed.exec framed.init (sendOneText (ascii "hello"))).map (fun p => p.2.length) =
      some 1 := by decide
  obtain ⟨p, hp, hlen⟩ := Option.map_eq_some_iff.mp hone
  exact ⟨p, hp, hlen, (wellFormed_iff hp).2.mpr (by decide)⟩

/-- **A text that ends with a backslash** escapes the quote that the builder writes behind it. -/
theorem wellFormed_backslash :
    ¬ ∀ acts p, framed.exec framed.init acts = some p → ∀ e ∈ p.2, ReadAs e := by
  intro hall
  have hone : (framed.exec framed.init (sendOneText (ascii "C:\\"))).isSome = true := by decide
  obtain ⟨p, hp⟩ := Option.isSome_iff_exists.mp hone
  have hplain := (wellFormed_iff hp).2.mp (hall _ p hp)
  exact absurd hplain (by decide)

end Viral.Chat
