/-
  File:      ViralEngine/Chat/History.lean
  Subject:   IS A MESSAGE IN THE HISTORY ONCE?

  The id of a message is unique, and a frame may come twice: the first acknowledgement can be lost
  with its connection. `storeMessage` appends without looking for the id.

  * `recorded` -- the engine beside all messages that were stored, in order;
  * `history` -- the messages of a conversation with different ids, in the order of first storing;
  * `DuplicateFree` -- `getMessages` answers the last of these;
  * `NewId`, `duplicateFree_iff` -- so it is exactly in the runs in which no step stores an id that
    its conversation has;
  * `duplicateFree_redelivered` -- a frame that comes again behind a reconnect.
-/
import ViralEngine.Lib.KeyedList
import ViralEngine.Chat.Accounts
import Mathlib.Data.List.DropRight

namespace Viral.Chat

open Viral.Lib

/-! ## 1. What is stored -/

/-- The engine beside a list of all messages that were stored, in order. -/
def recorded : Machine (State × List ChatMessage) Act :=
  engine.watch [] fun stored s a _ => stored ++ (storedIn s a).toList

/-- The messages of a conversation. -/
def inConversation (c : Bytes) (msgs : List ChatMessage) : List ChatMessage :=
  msgs.filter fun msg => msg.conversationId = c

/-- **The messages of a conversation with different ids, in the order of first storing.** -/
def history (c : Bytes) (stored : List ChatMessage) : List ChatMessage :=
  firsts ChatMessage.id (inConversation c stored)

/-- **`getMessages` answers the end of the history**, as long as the limit lets it be, and no id
    twice. -/
def DuplicateFree (s : State) (stored : List ChatMessage) : Prop :=
  ∀ c limit,
    getMessages s c limit = (history c stored).rtake (min limit (history c stored).length) ∧
    ((getMessages s c limit).map ChatMessage.id).Nodup

/-- **No step stores an id that its conversation has.** -/
def NewId (p : State × List ChatMessage) (a : Act) : Prop :=
  ∀ msg ∈ storedIn p.1 a, msg.id ∉ (p.1.messages msg.conversationId).map ChatMessage.id

instance (p : State × List ChatMessage) (a : Act) : Decidable (NewId p a) :=
  inferInstanceAs (Decidable (∀ msg ∈ storedIn p.1 a, _))

/-! ## 2. One step -/

theorem inConversation_single (c : Bytes) (msg : ChatMessage) :
    inConversation c [msg] = if c = msg.conversationId then [msg] else [] := by
  unfold inConversation
  rw [List.filter_singleton, Bool.cond_decide]
  exact if_congr eq_comm rfl rfl

/-- The history holds what was stored, conversation by conversation. -/
def Recorded (p : State × List ChatMessage) : Prop :=
  ∀ c, p.1.messages c = inConversation c p.2

theorem recorded_step {p q : State × List ChatMessage} {a : Act} (h : Recorded p)
    (hs : recorded.step p a = some q) : Recorded q := by
  obtain ⟨hstep, hnote⟩ := Machine.watch_step_some hs
  intro c
  rw [step_messages hstep c, h c, hnote]
  exact (List.filter_append _ _).symm

/-! ## 3. Different ids -/

/-- The ids of every conversation are different. -/
def DistinctIds (s : State) : Prop := ∀ c, ((s.messages c).map ChatMessage.id).Nodup

theorem getMessages_eq (s : State) (c : Bytes) (limit : Nat) :
    getMessages s c limit =
      (s.messages c).rtake (min limit (s.messages c).length) := by
  unfold getMessages List.rtake
  dsimp only
  split
  · rename_i hle
    rw [Nat.min_eq_right hle, Nat.sub_self, List.drop_zero]
  · rename_i hlt
    rw [Nat.min_eq_left (Nat.le_of_not_le hlt)]

/-- **The history is free of duplicates exactly if the ids of every conversation are different.** -/
theorem duplicateFree_iff_distinct {s : State} {stored : List ChatMessage}
    (h : Recorded (s, stored)) : DuplicateFree s stored ↔ DistinctIds s := by
  constructor
  · intro hd c
    -- with a limit that is large enough
    have hids := (hd c (s.messages c).length).2
    rw [getMessages_eq, Nat.min_self] at hids
    unfold List.rtake at hids
    rwa [Nat.sub_self, List.drop_zero] at hids
  · intro hd c limit
    have hall : history c stored = s.messages c := by
      unfold history
      rw [← h c]
      exact firsts_eq_self_iff.mpr (hd c)
    rw [hall, getMessages_eq]
    exact ⟨rfl, (hd c).sublist ((List.drop_sublist _ _).map _)⟩

/-- **One step keeps the ids different exactly if it stores a new one.** -/
theorem distinctIds_step {p : State × List ChatMessage} {t : State} {a : Act}
    (hs : step p.1 a = some t) : DistinctIds t ↔ DistinctIds p.1 ∧ NewId p a := by
  have hmessages := step_messages hs
  unfold DistinctIds NewId
  cases hst : storedIn p.1 a with
  | none =>
    have hsame : ∀ c, t.messages c = p.1.messages c := fun c => by
      rw [hmessages c, hst]
      exact List.append_nil _
    simp only [hsame]
    exact (and_iff_left nofun).symm
  | some msg =>
    have hself : t.messages msg.conversationId = p.1.messages msg.conversationId ++ [msg] := by
      rw [hmessages, hst]
      exact congrArg _ ((inConversation_single _ msg).trans (if_pos rfl))
    have hother : ∀ c, c ≠ msg.conversationId → t.messages c = p.1.messages c := by
      intro c hc
      rw [hmessages, hst]
      exact (congrArg _ ((inConversation_single c msg).trans (if_neg hc))).trans
        (List.append_nil _)
    have hconcat : ((t.messages msg.conversationId).map ChatMessage.id).Nodup ↔
        msg.id ∉ (p.1.messages msg.conversationId).map ChatMessage.id ∧
          ((p.1.messages msg.conversationId).map ChatMessage.id).Nodup := by
      rw [hself, List.map_append, List.map_singleton, ← List.concat_eq_append, List.nodup_concat]
    constructor
    · intro ht
      obtain ⟨hnew, hold⟩ := hconcat.mp (ht msg.conversationId)
      refine ⟨fun c => ?_, fun m hm => Option.some.inj hm ▸ hnew⟩
      by_cases hc : c = msg.conversationId
      · exact hc ▸ hold
      · exact hother c hc ▸ ht c
    · rintro ⟨hold, hnew⟩ c
      by_cases hc : c = msg.conversationId
      · exact hc ▸ hconcat.mpr ⟨hnew msg rfl, hold msg.conversationId⟩
      · exact hother c hc ▸ hold c

/-! ## 4. A run -/

/-- **In every run, the history is free of duplicates exactly if no step stored an id that its
    conversation had.** -/
theorem duplicateFree_iff {acts : List Act} {s : State} {stored : List ChatMessage}
    (h : recorded.exec recorded.init acts = some (s, stored)) :
    DuplicateFree s stored ↔ recorded.meets NewId recorded.init acts := by
  have hreach : recorded.Reach Machine.Any (s, stored) :=
    Machine.steps_of_exec h (Machine.meets_any _ _)
  have hrec : Recorded (s, stored) := by
    refine Machine.Steps.invariant hreach (fun _ => rfl) ?_
    intro p a q hp _ hs
    exact recorded_step hp hs
  have hrun : DistinctIds s ↔
      DistinctIds recorded.init.1 ∧ recorded.meets NewId recorded.init acts := by
    refine Machine.exec_iff_meets (I := fun _ => True) (Q := fun p => DistinctIds p.1)
      (fun _ _ _ _ _ => trivial) ?_ trivial h
    intro p a q _ hs
    exact distinctIds_step (Machine.watch_step_some hs).1
  rw [duplicateFree_iff_distinct hrec, hrun]
  exact and_iff_right fun _ => List.nodup_nil

/-- A message frame of another user. -/
def incomingFrame (id text : String) : Bytes :=
  ascii ("\x7b\"type\":\"message\",\"id\":\"" ++ id ++
    "\",\"conversationId\":\"c1\",\"senderId\":\"bob\",\"text\":\"" ++ text ++ "\"\x7d")

/-- A text is sent, and two different frames come in. -/
def conversed : List Act :=
  connectedRun ++ [.request 1 (.sendText (ascii "c1") (ascii "bob") (ascii "hi") (ascii "m0") 1),
    .call 1 true, .receive (incomingFrame "m1" "hello") 0, .ws true, .call 1 true, .ws true,
    .ws true, .call 1 true, .receive (incomingFrame "m2" "hello") 0, .ws true, .ws true, .ws true]

theorem duplicateFree_conversed : ∃ p, recorded.exec recorded.init conversed = some p ∧
    (getMessages p.1 (ascii "c1") 2).map ChatMessage.id = [ascii "m1", ascii "m2"] ∧
    DuplicateFree p.1 p.2 := by
  have hrun : (recorded.exec recorded.init conversed).map (fun p =>
      (getMessages p.1 (ascii "c1") 2).map ChatMessage.id) = some [ascii "m1", ascii "m2"] := by
    decide +kernel
  obtain ⟨p, hp, hids⟩ := Option.map_eq_some_iff.mp hrun
  exact ⟨p, hp, hids, (duplicateFree_iff hp).mpr (by decide +kernel)⟩

/-- The connection goes while the message is acknowledged; behind the reconnect the server sends
    the frame again. -/
def redelivered : List Act :=
  connectedRun ++ [.receive (incomingFrame "m1" "hello") 0, .ws true, .closing, .ws true, .ws true,
    .dropping, .dropped, .opened, .ws true, .ws true, .ws true, .ws true, .ws true,
    .receive (incomingFrame "m1" "hello") 0, .ws true, .ws true, .ws true]

/-- **A frame that comes again** is in the history twice. -/
theorem duplicateFree_redelivered : ∃ p, recorded.exec recorded.init redelivered = some p ∧
    (getMessages p.1 (ascii "c1") 10).map ChatMessage.id = [ascii "m1", ascii "m1"] ∧
    (history (ascii "c1") p.2).map ChatMessage.id = [ascii "m1"] ∧ ¬ DuplicateFree p.1 p.2 := by
  have hrun : (recorded.exec recorded.init redelivered).map (fun p =>
      ((getMessages p.1 (ascii "c1") 10).map ChatMessage.id,
        (history (ascii "c1") p.2).map ChatMessage.id)) =
      some ([ascii "m1", ascii "m1"], [ascii "m1"]) := by
    decide +kernel
  obtain ⟨p, hp, hobs⟩ := Option.map_eq_some_iff.mp hrun
  obtain ⟨hids, hhistory⟩ := Prod.mk.inj hobs
  refine ⟨p, hp, hids, hhistory, fun h => ?_⟩
  have hnodup := (h (ascii "c1") 10).2
  rw [hids] at hnodup
  exact absurd hnodup (by decide)

end Viral.Chat
