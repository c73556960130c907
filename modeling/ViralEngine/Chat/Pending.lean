/-
  File:      ViralEngine/Chat/Pending.lean
  Subject:   DOES PENDING MEAN QUEUED?

  `MessageStatus::PENDING` stands for a message in the offline queue. `sendText` and `sendMedia`
  store every message with it, also one that goes straight to the socket, and nothing changes the
  status of a stored message: neither a flush nor a status frame.

  * `outbox` -- the engine beside the messages this user sent, in order;
  * `PendingMeansQueued` -- the status in `getMessages` against `m_offlineQueue`;
  * `giving`, `StaysQueued` -- no frame of a message of ours is given to the socket;
  * `Outbox`, `outbox_step` -- the messages are stored as PENDING, and their frames are those that
    came to `sendRaw`;
  * `pendingMeansQueued_iff` -- with no call in progress, PENDING means queued in the runs that meet
    `StaysQueued`; in these only, if no two messages have one frame;
  * `pendingMeansQueued_online` -- a message that is sent while connected.
-/
import ViralEngine.Chat.History
import ViralEngine.Chat.WellFormed

namespace Viral.Chat

open Viral.Lib

/-! ## 1. The messages of this user -/

/-- The engine beside a list of the messages this user sent. -/
def outbox : Machine (State × List ChatMessage) Act :=
  engine.watch [] fun own s a _ => own ++ (builtFrom s a).toList

/-- The message is PENDING in `getMessages`. -/
def ShowsPending (s : State) (msg : ChatMessage) : Prop :=
  ∃ limit, ∃ m ∈ getMessages s msg.conversationId limit, m.id = msg.id ∧ m.status = .pending

/-- **PENDING means queued**, for every message of this user. -/
def PendingMeansQueued (s : State) (own : List ChatMessage) : Prop :=
  ∀ msg ∈ own, ShowsPending s msg ↔ buildMessageJson msg ∈ s.queue

/-- The frame a step gives to `ws.sendText`. -/
def giving (s : State) : Act → Option Bytes
  | .call tid _ => callSends s tid
  | .ws _ => wsSends s
  | _ => none

/-- **No frame of a message of ours is given to the socket**, neither at once nor by a flush. -/
def StaysQueued (p : State × List ChatMessage) (a : Act) : Prop :=
  ∀ json ∈ giving p.1 a, json ∉ p.2.map buildMessageJson

instance (p : State × List ChatMessage) (a : Act) : Decidable (StaysQueued p a) :=
  inferInstanceAs (Decidable (∀ json ∈ giving p.1 a, _))

/-! ## 2. What a step hands to `sendRaw` and gives to the socket -/

/-- The frame of a message, told by its type. -/
def isMessage (json : Bytes) : Bool := json[9]? == some 109

/-- The type is the first member. -/
theorem isMessage_objectText (b : UInt8) (v : Bytes) (ms : Members) :
    isMessage (Json.objectText (textMember "type" (b :: v) :: ms)) = (b == 109) := by
  show isMessage (123 :: (Json.memberText (textMember "type" (b :: v)) ++ Json.tailText ms)) = _
  rw [memberText_str]
  rfl

theorem isMessage_build (msg : ChatMessage) : isMessage (buildMessageJson msg) = true := by
  rw [buildMessageJson_object]
  exact isMessage_objectText 109 (ascii "essage") _

/-- Of the frames that come to `sendRaw`, those of a message are the callers'. -/
theorem handing_isMessage (s : State) (a : Act) :
    ((handing s a).map Json.objectText).filter isMessage =
      (builtFrom s a).map buildMessageJson := by
  -- the other types do not begin like `message`
  have hother : ∀ {b : UInt8} {v : Bytes} {ms : Members}, (b == 109) = false →
      ((some (textMember "type" (b :: v) :: ms)).map Json.objectText).filter isMessage = none := by
    intro b v ms hb
    rw [Option.map_some]
    simp [isMessage_objectText, hb]
  cases a with
  | call tid accepted =>
    unfold handing builtFrom
    dsimp only
    rcases s.calls.lookup tid with _ | pc
    · rfl
    · cases pc with
      | store msg =>
        show ((some (messageMembers msg)).map Json.objectText).filter isMessage =
          some (buildMessageJson msg)
        rw [Option.map_some, ← buildMessageJson_object]
        simp [isMessage_build]
      | raw | stopJoin | stopStore => rfl
  | ws accepted =>
    unfold handing
    dsimp only
    cases s.ws with
    | onConnected => exact @hother 112 (ascii "resence") _ (by decide)
    | store msg => exact @hother 100 (ascii "elivered") _ (by decide)
    | idle | presence | flushLock | flushTest | flushSend | flushPop | ack => rfl
  | request tid r =>
    cases r with
    | sendText | sendMedia | sendLike => rfl
    | markRead c => exact @hother 114 (ascii "ead") _ (by decide)
    | sendTypingStart c | sendTypingStop c => exact @hother 116 (ascii "yping") _ (by decide)
    | setUserOnline online => exact @hother 112 (ascii "resence") _ (by decide)
  | connect | disconnect | opened | closing | dropping | dropped | connectError | receive => rfl

/-- The frame a caller's next step gives to the socket. -/
def CallPc.sending : CallPc → Option Bytes
  | .raw p => p.sending
  | _ => none

theorem callSends_eq {s : State} {tid : Nat} {pc : CallPc} (h : s.calls.lookup tid = some pc) :
    callSends s tid = pc.sending := by
  unfold callSends
  rw [h]
  cases pc <;> rfl

/-- **What a step gives to the socket.** -/
theorem step_given {s t : State} {a : Act} (h : step s a = some t) :
    t.given = s.given ++ (giving s a).toList := by
  have hsame : t.log = s.log → giving s a = none → t.given = s.given ++ (giving s a).toList := by
    intro hlog hnone
    unfold State.given
    rw [hlog, hnone]
    exact (List.append_nil _).symm
  have hnew : ∀ {e : Event}, t.log = s.log ++ [e] → giving s a = e.givenFrame →
      t.given = s.given ++ (giving s a).toList := by
    intro e hlog hgiving
    unfold State.given
    rw [filterMap_log _ hlog, hgiving]
  have hraw : ∀ {u : State} {p : SendPc} {next : Option SendPc}, RawMove s p u next →
      t.log = u.log → giving s a = p.sending → t.given = s.given ++ (giving s a).toList := by
    intro u p next hm ht hgiving
    cases hm with
    | tested json next hnext => exact hsame ht hgiving
    | sent json ok u hws hcalls hconnected hqueue hlog => exact hnew (ht.trans hlog) hgiving
    | pushed json hfree u hws hcalls hconnected hqueue hlog =>
      exact hnew (ht.trans hlog) hgiving
  cases step_do h with
  | call tid accepted _ h =>
    obtain ⟨pc, u, next, hpc, hm, rfl⟩ := callStep_some h
    have hgiving : giving s (.call tid accepted) = pc.sending := callSends_eq hpc
    cases callMove_do hm with
    | store msg =>
      exact hnew rfl hgiving
    | raw p v n hp =>
      exact hraw (sendRawStep_move hp) rfl hgiving
    | stopJoin hidle hready =>
      exact hsame rfl hgiving
    | stopStore =>
      exact hsame rfl hgiving
  | ws accepted _ h =>
    have hgiving : giving s (.ws accepted) = wsSends s := rfl
    unfold wsSends at hgiving
    cases wsStep_do h with
    | onConnected hws | store _ hws =>
      rw [hws] at hgiving
      exact hnew rfl hgiving
    | presence p u next hws hm | ack p u next hws hm =>
      rw [hws] at hgiving
      exact hraw (sendRawStep_move hm) rfl hgiving
    | flushSend json rest ready hws hq hw =>
      rw [hws, hq] at hgiving
      exact hnew rfl hgiving
    | flushLock hws | flushTest hws | flushPop hws =>
      rw [hws] at hgiving
      exact hsame rfl hgiving
  | request tid r hout =>
    cases r with
    | sendText | sendMedia | sendLike => exact hsame rfl rfl
    | markRead | sendTypingStart | sendTypingStop | setUserOnline => exact hnew rfl rfl
  | connect | disconnect | opened | closing | dropping | dropped | connectError | message
  | passed => exact hsame rfl rfl

/-! ## 3. What every step keeps -/

/-- What a call is about to store is PENDING. -/
def StoresPending (calls : List (Nat × CallPc)) : Prop :=
  ∀ tid msg, (tid, CallPc.store msg) ∈ calls → msg.status = .pending

theorem storesPending_cons {calls : List (Nat × CallPc)} {tid : Nat} {pc : CallPc}
    (h : StoresPending calls) (hpc : ∀ msg, pc = .store msg → msg.status = .pending) :
    StoresPending ((tid, pc) :: calls) := by
  intro tid' msg hmem
  rcases List.mem_cons.mp hmem with e | hmem
  · exact hpc msg (Prod.mk.inj e).2.symm
  · exact h tid' msg hmem

theorem step_storesPending {s t : State} {a : Act} (hp : StoresPending s.calls)
    (h : step s a = some t) : StoresPending t.calls := by
  cases step_do h with
  | call tid accepted _ h =>
    obtain ⟨pc, u, next, hpc, hm, rfl⟩ := callStep_some h
    have herase : StoresPending (s.calls.erase (tid, pc)) :=
      fun tid' msg hmem => hp tid' msg (List.mem_of_mem_erase hmem)
    cases next with
    | none => exact herase
    | some pc' =>
      refine storesPending_cons herase fun msg e => ?_
      have hnext : messageAt pc' = none := callMove_next hm
      rw [e] at hnext
      cases hnext
  | ws accepted _ h =>
    cases wsStep_do h with
    | presence p u next hws hm | ack p u next hws hm =>
      obtain ⟨_, hcalls, _⟩ := sendRawStep_spec hm
      exact hcalls ▸ hp
    | onConnected | store | flushLock | flushTest | flushSend | flushPop => exact hp
  | request tid r hout =>
    cases r with
    | sendText | sendMedia | sendLike =>
      refine storesPending_cons hp fun msg e => ?_
      cases e
      rfl
    | markRead | sendTypingStart | sendTypingStop | setUserOnline =>
      exact storesPending_cons hp nofun
  | disconnect tid ready hout hclose => exact storesPending_cons hp nofun
  | connect | opened | closing | dropping | dropped | connectError | message | passed => exact hp

/-- **The messages of this user are stored as PENDING, and their frames are the message frames that
    came to `sendRaw`.** -/
structure Outbox (p : State × List ChatMessage) : Prop where
  balanced : Balanced p.1
  calls : StoresPending p.1.calls
  stored : ∀ msg ∈ p.2, msg ∈ p.1.messages msg.conversationId ∧ msg.status = .pending
  frames : p.1.handed.filter isMessage = p.2.map buildMessageJson

/-- The message of a call that a step stores. -/
theorem stored_builtFrom {s t : State} {a : Act} (hp : StoresPending s.calls)
    (h : step s a = some t) {msg : ChatMessage} (hmsg : builtFrom s a = some msg) :
    msg ∈ t.messages msg.conversationId ∧ msg.status = .pending := by
  cases a with
  | call tid accepted =>
    obtain ⟨pc, hpc, hstore⟩ := Option.bind_eq_some_iff.mp hmsg
    have hcall : pc = .store msg := by
      cases pc with
      | store msg' => exact congrArg CallPc.store (Option.some.inj hstore)
      | raw | stopJoin | stopStore => cases hstore
    refine ⟨?_, hp tid msg (hcall ▸ mem_of_lookup hpc)⟩
    rw [step_messages h, show storedIn s (.call tid accepted) = some msg from hmsg]
    refine List.mem_append_right _ ?_
    show msg ∈ inConversation msg.conversationId [msg]
    rw [inConversation_single, if_pos rfl]
    exact List.mem_singleton_self msg
  | ws | connect | disconnect | request | opened | closing | dropping | dropped | connectError
  | receive => cases hmsg

/-- **Every step keeps this.** -/
theorem outbox_step {p q : State × List ChatMessage} {a : Act} (h : Outbox p)
    (hs : outbox.step p a = some q) : Outbox q := by
  obtain ⟨hstep, hnote⟩ := Machine.watch_step_some hs
  refine
    { balanced := step_balanced hstep h.balanced
      calls := step_storesPending h.calls hstep
      stored := fun msg hmsg => ?_
      frames := ?_ }
  · rw [hnote] at hmsg
    rcases List.mem_append.mp hmsg with hold | hnew
    · obtain ⟨hin, hpending⟩ := h.stored msg hold
      refine ⟨?_, hpending⟩
      rw [step_messages hstep]
      exact List.mem_append_left _ hin
    · exact stored_builtFrom h.calls hstep (Option.mem_toList.mp hnew)
  · rw [step_handed hstep, List.filter_append, ← Option.toList_filter, handing_isMessage, h.frames,
      hnote, List.map_append, Option.toList_map]

theorem outbox_init : Outbox outbox.init where
  balanced _ := rfl
  calls _ _ := nofun
  stored _ := nofun
  frames := rfl

/-! ## 4. What the socket is given -/

/-- No frame of a message of ours was given to the socket. -/
def NoneGiven (p : State × List ChatMessage) : Prop :=
  ∀ msg ∈ p.2, buildMessageJson msg ∉ p.1.given

/-- What the socket was given, whatever it returned. -/
theorem given_count (s : State) (x : Bytes) :
    s.given.count x = s.delivered.count x + s.dropped.count x := by
  unfold State.given State.delivered State.dropped
  induction s.log with
  | nil => rfl
  | cons e log ih =>
    cases e with
    | handed | pushed => exact ih
    | sent json ok | flushed json ok =>
      cases ok <;>
        simp only [List.filterMap_cons, Event.givenFrame, Event.deliveredFrame, Event.droppedFrame,
          List.count_cons, ih] <;> omega

/-- How often the frame of a message came to `sendRaw`. -/
theorem Outbox.handed_count {p : State × List ChatMessage} (h : Outbox p) (msg : ChatMessage) :
    p.1.handed.count (buildMessageJson msg) =
      (p.2.map buildMessageJson).count (buildMessageJson msg) := by
  rw [← h.frames, List.count_filter (isMessage_build msg)]

/-- A frame that no message of ours has was not given to the socket. -/
theorem Outbox.not_given {p : State × List ChatMessage} (h : Outbox p) {msg : ChatMessage}
    (hnew : buildMessageJson msg ∉ p.2.map buildMessageJson) :
    buildMessageJson msg ∉ p.1.given := by
  intro hmem
  have hgiven := List.count_pos_iff.mpr hmem
  rw [given_count] at hgiven
  have hhanded := h.handed_count msg
  rw [List.count_eq_zero.mpr hnew] at hhanded
  have hb := h.balanced (buildMessageJson msg)
  have hpop : p.1.popping.count (buildMessageJson msg) ≤
      p.1.queue.count (buildMessageJson msg) := by
    unfold State.popping
    split
    · exact (List.take_sublist 1 _).count_le _
    · exact Nat.zero_le _
  omega

/-- Nor was the frame of any message, if none of ours was. -/
theorem NoneGiven.any {p : State × List ChatMessage} (hp : NoneGiven p) (h : Outbox p)
    (msg : ChatMessage) : buildMessageJson msg ∉ p.1.given := by
  by_cases hframe : buildMessageJson msg ∈ p.2.map buildMessageJson
  · -- a message of ours has the same frame
    obtain ⟨msg', hmsg', e⟩ := List.mem_map.mp hframe
    rw [← e]
    exact hp msg' hmsg'
  · exact h.not_given hframe

/-- A step that stores a message of ours gives none to the socket. -/
theorem giving_of_builtFrom {s : State} {a : Act} {msg : ChatMessage}
    (h : builtFrom s a = some msg) : giving s a = none := by
  cases a with
  | call tid accepted =>
    obtain ⟨pc, hpc, hstore⟩ := Option.bind_eq_some_iff.mp h
    refine (callSends_eq hpc).trans ?_
    cases pc with
    | store => rfl
    | raw | stopJoin | stopStore => cases hstore
  | ws | connect | disconnect | request | opened | closing | dropping | dropped | connectError
  | receive => cases h

/-- **One step**: still none is given exactly if the step gives none. -/
theorem noneGiven_step {p q : State × List ChatMessage} {a : Act} (h : Outbox p)
    (hs : outbox.step p a = some q) : NoneGiven q ↔ NoneGiven p ∧ StaysQueued p a := by
  obtain ⟨hstep, hnote⟩ := Machine.watch_step_some hs
  have hgiven := step_given hstep
  unfold NoneGiven StaysQueued
  rw [hgiven, hnote]
  constructor
  · intro hq
    refine ⟨fun msg hmsg hin => ?_, fun json hjson hmem => ?_⟩
    · exact hq msg (List.mem_append_left _ hmsg) (List.mem_append_left _ hin)
    · obtain ⟨msg, hmsg, rfl⟩ := List.mem_map.mp hmem
      exact hq msg (List.mem_append_left _ hmsg)
        (List.mem_append_right _ (Option.mem_toList.mpr hjson))
  · rintro ⟨hp, hstays⟩ msg hmsg hin
    rcases List.mem_append.mp hmsg with hold | hnew
    · rcases List.mem_append.mp hin with hbefore | hnow
      · exact hp msg hold hbefore
      · exact hstays _ (Option.mem_toList.mp hnow) (List.mem_map_of_mem hold)
    · rw [giving_of_builtFrom (Option.mem_toList.mp hnew)] at hin
      rcases List.mem_append.mp hin with hbefore | hnow
      · exact NoneGiven.any hp h msg hbefore
      · cases hnow

/-! ## 5. With no call in progress -/

section Quiet

variable {s : State} {own : List ChatMessage}

/-- A message of ours is PENDING, now and always. -/
theorem Outbox.shows {msg : ChatMessage} (h : Outbox (s, own)) (hmsg : msg ∈ own) :
    ShowsPending s msg := by
  obtain ⟨hin, hpending⟩ := h.stored msg hmsg
  refine ⟨(s.messages msg.conversationId).length, msg, ?_, rfl, hpending⟩
  unfold getMessages
  dsimp only
  rw [if_pos (Nat.le_refl _)]
  exact hin

/-- With no call in progress, a message of ours was given to the socket or is in the queue, as
    often as it came to `sendRaw`. -/
theorem Outbox.split (h : Outbox (s, own)) (hq : Quiet s) (msg : ChatMessage) :
    (own.map buildMessageJson).count (buildMessageJson msg) =
      s.given.count (buildMessageJson msg) + s.queue.count (buildMessageJson msg) := by
  rw [← h.handed_count msg, given_count]
  exact balanced_quiet h.balanced hq _

theorem pendingMeansQueued_of_noneGiven (h : Outbox (s, own)) (hq : Quiet s)
    (hnone : NoneGiven (s, own)) : PendingMeansQueued s own := by
  intro msg hmsg
  refine iff_of_true (h.shows hmsg) ?_
  have hframe : 0 < (own.map buildMessageJson).count (buildMessageJson msg) :=
    List.count_pos_iff.mpr (List.mem_map_of_mem hmsg)
  have hsplit := h.split hq msg
  rw [List.count_eq_zero.mpr (hnone msg hmsg)] at hsplit
  exact List.count_pos_iff.mp (by omega)

theorem noneGiven_of_pendingMeansQueued (h : Outbox (s, own)) (hq : Quiet s)
    (hdistinct : (own.map buildMessageJson).Nodup) (hp : PendingMeansQueued s own) :
    NoneGiven (s, own) := by
  intro msg hmsg hgiven
  have hqueued : 0 < s.queue.count (buildMessageJson msg) :=
    List.count_pos_iff.mpr ((hp msg hmsg).mp (h.shows hmsg))
  have hgiven : 0 < s.given.count (buildMessageJson msg) := List.count_pos_iff.mpr hgiven
  have honce := List.nodup_iff_count_le_one.mp hdistinct (buildMessageJson msg)
  have hsplit := h.split hq msg
  omega

/-- **With no call in progress, PENDING means queued** if no frame of a message of ours was handed
    to the socket in the run; and only then, if no two messages of ours have the same frame. -/
theorem pendingMeansQueued_iff {acts : List Act}
    (h : outbox.exec outbox.init acts = some (s, own)) (hq : Quiet s) :
    (outbox.meets StaysQueued outbox.init acts → PendingMeansQueued s own) ∧
    ((own.map buildMessageJson).Nodup → PendingMeansQueued s own →
      outbox.meets StaysQueued outbox.init acts) := by
  have hreach : outbox.Reach Machine.Any (s, own) :=
    Machine.steps_of_exec h (Machine.meets_any _ _)
  have hout : Outbox (s, own) := by
    refine Machine.Steps.invariant (I := Outbox) hreach outbox_init ?_
    intro p a q hp _ hs
    exact outbox_step hp hs
  have hrun : NoneGiven (s, own) ↔
      NoneGiven outbox.init ∧ outbox.meets StaysQueued outbox.init acts :=
    Machine.exec_iff_meets (fun p a q hp hs => outbox_step hp hs)
      (fun p a q hp hs => noneGiven_step hp hs) outbox_init h
  refine ⟨fun hm => ?_, fun hdistinct hp => ?_⟩
  · exact pendingMeansQueued_of_noneGiven hout hq (hrun.mpr ⟨fun _ => nofun, hm⟩)
  · exact (hrun.mp (noneGiven_of_pendingMeansQueued hout hq hdistinct hp)).2

end Quiet

/-- A text that is sent. -/
def sendsText : List Act :=
  [.request 1 (.sendText (ascii "c1") (ascii "bob") (ascii "hi") (ascii "m0") 1),
    .call 1 true, .call 1 true, .call 1 true]

/-- While offline. -/
theorem pendingMeansQueued_offline : ∃ p, outbox.exec outbox.init sendsText = some p ∧
    Quiet p.1 ∧ p.2.map ChatMessage.id = [ascii "m0"] ∧ PendingMeansQueued p.1 p.2 := by
  have hrun : (outbox.exec outbox.init sendsText).map (fun p =>
      (decide (Quiet p.1), p.2.map ChatMessage.id)) = some (true, [ascii "m0"]) := by
    decide +kernel
  obtain ⟨p, hp, hobs⟩ := Option.map_eq_some_iff.mp hrun
  simp only [Prod.mk.injEq, decide_eq_true_eq] at hobs
  exact ⟨p, hp, hobs.1, hobs.2, (pendingMeansQueued_iff hp hobs.1).1 (by decide +kernel)⟩

/-- The message of ann's text. -/
def annsMessage : ChatMessage where
  id := ascii "m0"
  conversationId := ascii "c1"
  senderId := ascii "ann"
  recipientId := ascii "bob"
  type := .text
  text := ascii "hi"
  mediaUrl := []
  status := .pending
  timestamp := 1

/-- **A message that is sent while connected**: it goes to the socket, is never in the queue, and
    stays PENDING. -/
theorem pendingMeansQueued_online : ∃ p,
    outbox.exec outbox.init (connectedRun ++ sendsText) = some p ∧ Quiet p.1 ∧
    p.2 = [annsMessage] ∧ getMessages p.1 (ascii "c1") 10 = [annsMessage] ∧
    p.1.delivered = [presenceJson true, buildMessageJson annsMessage] ∧ p.1.queue = [] ∧
    ¬ PendingMeansQueued p.1 p.2 := by
  have hrun : (outbox.exec outbox.init (connectedRun ++ sendsText)).map (fun p =>
      decide (Quiet p.1 ∧ p.2 = [annsMessage] ∧ getMessages p.1 (ascii "c1") 10 = [annsMessage] ∧
        p.1.delivered = [presenceJson true, buildMessageJson annsMessage] ∧ p.1.queue = [])) =
      some true := by
    decide +kernel
  obtain ⟨p, hp, hobs⟩ := Option.map_eq_some_iff.mp hrun
  obtain ⟨hq, hown, hget, hdelivered, hqueue⟩ := of_decide_eq_true hobs
  refine ⟨p, hp, hq, hown, hget, hdelivered, hqueue, fun h => ?_⟩
  have hmem : annsMessage ∈ getMessages p.1 annsMessage.conversationId 10 := by
    rw [show annsMessage.conversationId = ascii "c1" from rfl, hget]
    exact List.mem_singleton_self _
  have hshows : ShowsPending p.1 annsMessage := ⟨10, annsMessage, hmem, rfl, rfl⟩
  have hqueued := (h annsMessage (hown ▸ List.mem_singleton_self _)).mp hshows
  rw [hqueue] at hqueued
  exact absurd hqueued List.not_mem_nil

end Viral.Chat
