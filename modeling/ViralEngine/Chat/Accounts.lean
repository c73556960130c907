/-
  File:      ViralEngine/Chat/Accounts.lean
  Subject:   ONE ENGINE, ONE ACCOUNT BEHIND THE OTHER.

  `connect` overwrites `m_token`, `m_userId` and the headers. It leaves `m_offlineQueue` and
  `m_messages` as they are, and so does `disconnect`: what was queued or stored under the account
  before is still there.

  * `Accounts`, `noteAccount`, `accounted` -- which account is connected, from which message the
    frame of each call of `sendRaw` was built, what was given to `ws.sendText` since the account
    changed, and under which account each message was stored;
  * `Clear`, `SwitchClear` -- the condition on a change of the account: nothing of another account
    is left over;
  * `AccountOk`, `step_accountOk` -- what these notes say of the engine;
  * `OwnFrames`, `OwnMessages`, `accountsApart` -- behind such a change, the frames carry the new
    account and `getMessages` returns no message of another one;
  * `accountsApart_leftOver` -- a message sent offline goes out under the next account.
-/
import ViralEngine.Chat.HandOff

namespace Viral.Chat

open Viral.Lib

/-! ## 1. The notes -/

/-- The user id of the last `connect`; whether it replaced another one; the messages the frames of
    the calls of `sendRaw` were built from; the calls whose frames were given to `ws.sendText`
    since the last change of the account; the stored messages with the account of that time. -/
structure Accounts where
  account : Option Bytes
  switched : Bool
  sources : List (Option ChatMessage)
  since : List Nat
  stored : List (ChatMessage × Option Bytes)

namespace Accounts

/-- Nobody has connected yet. -/
def init : Accounts := ⟨none, false, [], [], []⟩

/-- The message the frame of a call was built from. -/
def source (k : Accounts) (i : Nat) : Option ChatMessage := k.sources[i]?.join

/-- A `connect` with this user id replaces another account. -/
def replacedBy (k : Accounts) (userId : Bytes) : Bool := k.account.any fun u => u != userId

/-- What was stored in a conversation. -/
def storedFor (k : Accounts) (conversationId : Bytes) : List (ChatMessage × Option Bytes) :=
  k.stored.filter fun e => e.1.conversationId = conversationId

/-- What `getMessages` returns, with the accounts. -/
def shown (k : Accounts) (conversationId : Bytes) (limit : Nat) :
    List (ChatMessage × Option Bytes) :=
  let msgs := k.storedFor conversationId
  if msgs.length ≤ limit then msgs else msgs.drop (msgs.length - limit)

end Accounts

/-- The message a caller is about to store and to send. -/
def messageAt : CallPc → Option ChatMessage
  | .store msg => some msg
  | _ => none

/-- The message whose frame a step hands to `sendRaw`. -/
def builtFrom (s : State) : Act → Option ChatMessage
  | .call tid _ => (s.calls.lookup tid).bind messageAt
  | _ => none

/-- The message a step stores: one of a caller, or one received. -/
def storedIn (s : State) : Act → Option ChatMessage
  | .ws _ =>
    match s.ws with
    | .store msg => some msg
    | _ => none
  | a => builtFrom s a

/-- What a step adds to the history. -/
def noteAccount (k : Accounts) (p : State × Trace) (a : Act) (q : State × Trace) : Accounts :=
  match a with
  | .connect _ userId =>
    { k with
      account := some userId
      switched := k.switched || k.replacedBy userId
      since := if k.replacedBy userId then [] else k.since }
  | a =>
    { k with
      sources := if p.2.calls.length < q.2.calls.length then k.sources ++ [builtFrom p.1 a]
        else k.sources
      since := k.since ++ q.2.given.drop p.2.given.length
      stored := k.stored ++ (storedIn p.1 a).toList.map fun msg => (msg, k.account) }

/-- The engine with its calls and its accounts. -/
def accounted : Machine ((State × Trace) × Accounts) Act := traced.watch Accounts.init noteAccount

/-! ## 2. The condition -/

/-- Nothing of another account is left over: no frame of a message on its way to `ws.sendText`, no
    message about to be sent, and no stored one. -/
structure Clear (s : State) (g : Trace) (k : Accounts) (userId : Bytes) : Prop where
  frames : ∀ i < g.calls.length, i ∉ g.given → ∀ msg ∈ k.source i, msg.senderId = userId
  calls : ∀ c ∈ s.calls, ∀ msg ∈ messageAt c.2, msg.senderId = userId
  stored : ∀ e ∈ k.stored, ∀ u ∈ e.2, u = userId

/-- **The condition on a step.** -/
def SwitchClear (p : (State × Trace) × Accounts) : Act → Prop
  | .connect _ userId => p.2.replacedBy userId = true → Clear p.1.1 p.1.2 p.2 userId
  | _ => True

instance (s : State) (g : Trace) (k : Accounts) (userId : Bytes) :
    Decidable (Clear s g k userId) :=
  decidable_of_iff ((∀ i < g.calls.length, i ∉ g.given → ∀ msg ∈ k.source i,
      msg.senderId = userId) ∧ (∀ c ∈ s.calls, ∀ msg ∈ messageAt c.2, msg.senderId = userId) ∧
      ∀ e ∈ k.stored, ∀ u ∈ e.2, u = userId)
    ⟨fun ⟨h1, h2, h3⟩ => ⟨h1, h2, h3⟩, fun h => ⟨h.frames, h.calls, h.stored⟩⟩

instance (p : (State × Trace) × Accounts) : ∀ a, Decidable (SwitchClear p a)
  | .connect _ _ => inferInstanceAs (Decidable (_ → _))
  | .disconnect _ | .request _ _ | .call _ _ | .ws _ | .opened | .closing | .dropping | .dropped
  | .connectError | .receive _ _ => inferInstanceAs (Decidable True)

/-! ## 3. What a step leaves -/

section Steps

variable {s t : State} {a : Act}

/-- The history of a call is that of the log. -/
theorem note_cases {g : Trace} (h : TraceOk s g) (hs : step s a = some t) :
    ((note g s a t).calls = g.calls ∨ ∃ json, t.log = s.log ++ [.handed json] ∧
      (note g s a t).calls = g.calls ++ [(a.thread, json)]) ∧
    ∃ new, (note g s a t).given = g.given ++ new ∧
      ∀ i ∈ new, i < g.calls.length ∧ i ∉ g.given := by
  cases step_effect h.callers hs with
  | silent hlog hwaiting hframes =>
    rw [note_eq (hlog.trans (List.append_nil _).symm)]
    exact ⟨Or.inl rfl, [], (List.append_nil _).symm, by nofun⟩
  | handed json hlog hwaiting hfree hframes =>
    rw [note_eq hlog]
    exact ⟨Or.inr ⟨json, hlog, rfl⟩, [], (List.append_nil _).symm, by nofun⟩
  | sent json ok hact hlog hwaiting hat hframes =>
    rw [note_eq hlog]
    refine ⟨Or.inl rfl, _, rfl, fun i hi => ?_⟩
    have hr : g.running a.thread = some i := Option.mem_toList.mp hi
    exact ⟨lt_of_caller (h.runner _ i hr),
      fun hmem => h.apart _ i hr (List.mem_append_left _ hmem)⟩
  | pushed json hlog hwaiting hat hframes =>
    rw [note_eq hlog]
    exact ⟨Or.inl rfl, [], (List.append_nil _).symm, by nofun⟩
  | flushed json ok hlog hwaiting hframes =>
    rw [note_eq hlog]
    refine ⟨Or.inl rfl, _, rfl, fun i hi => ?_⟩
    have hw : i ∈ g.waiting := List.mem_of_mem_take hi
    exact ⟨h.known i (List.mem_append_right _ hw),
      fun hmem => (List.nodup_append.mp h.once).2.2 i hmem i hw rfl⟩

/-- The frame handed over is that of the message. -/
theorem builtFrom_frame {json : Bytes} {msg : ChatMessage} (hs : step s a = some t)
    (hlog : t.log = s.log ++ [.handed json]) (hb : msg ∈ builtFrom s a) :
    json = buildMessageJson msg := by
  cases a with
  | call tid accepted =>
    obtain ⟨pc, u, next, hpc, hm, rfl⟩ := callStep_some hs
    obtain ⟨pc', hpc', hmsg⟩ := Option.bind_eq_some_iff.mp hb
    obtain rfl : pc = pc' := Option.some.inj (hpc.symm.trans hpc')
    cases pc with
    | store msg' =>
      obtain rfl : msg' = msg := Option.some.inj hmsg
      have hu : u.log = s.log ++ [.handed (buildMessageJson msg')] :=
        congrArg State.log (Prod.mk.inj (Option.some.inj hm)).1.symm
      have e := List.append_cancel_left (hlog.symm.trans hu)
      exact Event.handed.inj (List.singleton_inj.mp e)
    | raw | stopJoin | stopStore => cases hmsg
  | connect | disconnect | request | ws | opened | closing | dropping | dropped | connectError
  | receive => cases hb

/-- `sendRaw` leaves the account and the messages. -/
theorem sendRawStep_keeps {u : State} {p : SendPc} {accepted : Bool} {next : Option SendPc}
    (h : sendRawStep s p accepted = some (u, next)) :
    u.userId = s.userId ∧ u.messages = s.messages := by
  cases p with
  | test json =>
    cases h
    exact ⟨rfl, rfl⟩
  | send json =>
    obtain ⟨ready, hw⟩ := wsSendText_spec s json accepted
    simp only [sendRawStep, hw] at h
    cases h
    exact ⟨rfl, rfl⟩
  | push json =>
    unfold sendRawStep at h
    dsimp only at h
    split at h <;> cases h
    exact ⟨rfl, rfl⟩

/-- The messages behind a step. -/
theorem step_messages (hs : step s a = some t) (c : Bytes) :
    t.messages c = s.messages c ++
      (storedIn s a).toList.filter fun msg => msg.conversationId = c := by
  have hsame : t.messages = s.messages → storedIn s a = none → t.messages c = s.messages c ++
      (storedIn s a).toList.filter fun msg => msg.conversationId = c := by
    intro e hno
    rw [e, hno]
    exact (List.append_nil _).symm
  have hstore : ∀ msg, t.messages = (storeMessage s msg).messages → storedIn s a = some msg →
      t.messages c = s.messages c ++
        (storedIn s a).toList.filter fun msg => msg.conversationId = c := by
    intro msg e hst
    rw [e, hst]
    show (if c = msg.conversationId then s.messages c ++ [msg] else s.messages c) = _
    by_cases hc : c = msg.conversationId
    · rw [if_pos hc]
      simp [hc]
    · rw [if_neg hc]
      simp [Ne.symm hc]
  cases step_do hs with
  | call tid accepted _ h =>
    obtain ⟨pc, u, next, hpc, hm, rfl⟩ := callStep_some h
    have hst : storedIn s (.call tid accepted) = messageAt pc := by
      show (s.calls.lookup tid).bind messageAt = _
      rw [hpc]
      rfl
    cases callMove_do hm with
    | store msg =>
      exact hstore msg rfl hst
    | raw p v n hp =>
      have hkept := (sendRawStep_keeps hp).2
      exact hsame hkept hst
    | stopJoin hidle hready =>
      exact hsame rfl hst
    | stopStore =>
      exact hsame rfl hst
  | ws accepted _ h =>
    cases wsStep_do h with
    | store msg hws =>
      refine hstore msg rfl ?_
      unfold storedIn
      rw [hws]
    | presence p u next hws hm | ack p u next hws hm =>
      have hkept := (sendRawStep_keeps hm).2
      refine hsame hkept ?_
      unfold storedIn
      rw [hws]
    | onConnected hws | flushLock hws | flushTest hws | flushSend _ _ _ hws | flushPop hws =>
      refine hsame rfl ?_
      unfold storedIn
      rw [hws]
  | request tid r hout => exact hsame (by cases r <;> rfl) rfl
  | connect | disconnect | opened | closing | dropping | dropped | connectError | message
  | passed => exact hsame rfl rfl

/-- A call that goes on has stored its message. -/
theorem callMove_next {u : State} {pc : CallPc} {accepted : Bool} {next : Option CallPc}
    (h : callMove s pc accepted = some (u, next)) : next.bind messageAt = none := by
  cases callMove_do h with
  | store | stopJoin | stopStore => rfl
  | raw p u next hp => cases next <;> rfl

/-- Between two `connect`s the account stays, and new messages are sent in its name. -/
theorem step_account (hs : step s a = some t) (hne : ∀ token userId, a ≠ .connect token userId) :
    t.userId = s.userId ∧ ∀ c ∈ t.calls, ∀ msg ∈ messageAt c.2,
      c ∈ s.calls ∨ msg.senderId = s.userId := by
  have hold : t.calls = s.calls → ∀ c ∈ t.calls, ∀ msg ∈ messageAt c.2,
      c ∈ s.calls ∨ msg.senderId = s.userId := by
    intro e c hc _ _
    exact Or.inl (e ▸ hc)
  cases step_do hs with
  | call tid accepted _ h =>
    obtain ⟨pc, u, next, hpc, hm, rfl⟩ := callStep_some h
    refine ⟨?_, fun c hc msg hmsg => ?_⟩
    · show u.userId = s.userId
      cases callMove_do hm with
      | raw p v n hp => exact (sendRawStep_keeps hp).1
      | store | stopJoin | stopStore => rfl
    · cases next with
      | none => exact Or.inl (List.mem_of_mem_erase hc)
      | some pc' =>
        rcases List.mem_cons.mp hc with rfl | hc
        · have hnext : messageAt pc' = none := callMove_next hm
          rw [hnext] at hmsg
          cases hmsg
        · exact Or.inl (List.mem_of_mem_erase hc)
  | ws accepted _ h =>
    cases wsStep_do h with
    | presence p u next hws hm | ack p u next hws hm =>
      have hkept := (sendRawStep_keeps hm).1
      exact ⟨hkept, hold (sendRawStep_spec hm).2.1⟩
    | onConnected | store | flushLock | flushTest | flushSend | flushPop =>
      exact ⟨rfl, hold rfl⟩
  | connect token userId => exact absurd rfl (hne token userId)
  | disconnect tid ready hout hclose =>
    refine ⟨rfl, fun c hc msg hmsg => ?_⟩
    rcases List.mem_cons.mp hc with rfl | hc
    · cases hmsg
    · exact Or.inl hc
  | request tid r hout =>
    cases r with
    | sendText | sendMedia | sendLike =>
      refine ⟨rfl, fun c hc msg hmsg => ?_⟩
      rcases List.mem_cons.mp hc with rfl | hc
      · cases hmsg
        exact Or.inr rfl
      · exact Or.inl hc
    | markRead | sendTypingStart | sendTypingStop | setUserOnline =>
      refine ⟨rfl, fun c hc msg hmsg => ?_⟩
      rcases List.mem_cons.mp hc with rfl | hc
      · cases hmsg
      · exact Or.inl hc
  | opened | closing | dropping | dropped | connectError | message | passed =>
    exact ⟨rfl, hold rfl⟩

end Steps

/-! ## 4. The invariant -/

/-- All that goes out from now on, went out since the change, or is stored is the account's own. -/
structure Own (s : State) (g : Trace) (k : Accounts) : Prop where
  frames : ∀ i < g.calls.length, i ∉ g.given ∨ i ∈ k.since →
    ∀ msg ∈ k.source i, msg.senderId = s.userId
  calls : ∀ c ∈ s.calls, ∀ msg ∈ messageAt c.2, msg.senderId = s.userId
  stored : ∀ e ∈ k.stored, ∀ u ∈ e.2, u = s.userId

/-- **What the notes say of the engine.** -/
structure AccountOk (s : State) (g : Trace) (k : Accounts) : Prop where
  trace : TraceOk s g
  account : ∀ u ∈ k.account, u = s.userId
  known : k.switched = true → k.account.isSome = true
  length : k.sources.length = g.calls.length
  built : ∀ i, ∀ msg ∈ k.source i, g.frame i = some (buildMessageJson msg)
  since : ∀ i ∈ k.since, i < g.calls.length
  own : k.switched = true → Own s g k

section Accounts

variable {s t : State} {g : Trace} {k : Accounts} {a : Act}

theorem lt_of_source {i : Nat} {msg : ChatMessage} (h : msg ∈ k.source i) :
    i < k.sources.length := by
  obtain ⟨o, ho, _⟩ := Option.bind_eq_some_iff.mp h
  exact (List.getElem?_eq_some_iff.mp ho).1

theorem connect_accountOk {token userId : Bytes} (h : AccountOk s g k)
    (hc : SwitchClear ((s, g), k) (.connect token userId))
    (hs : step s (.connect token userId) = some t) :
    AccountOk t (note g s (.connect token userId) t)
      (noteAccount k (s, g) (.connect token userId)
        (t, note g s (.connect token userId) t)) := by
  have htrace := step_traceOk h.trace hs
  have hlog : t.log = s.log ++ [] := by
    cases hs
    exact (List.append_nil _).symm
  rw [note_eq hlog] at htrace ⊢
  cases hs
  refine
    { trace := htrace
      account := fun u hu => (Option.some.inj hu).symm
      known := fun _ => rfl
      length := h.length
      built := h.built
      since := fun i hi => ?_
      own := fun hsw => ?_ }
  · change i ∈ (if k.replacedBy userId then [] else k.since) at hi
    split at hi
    · cases hi
    · exact h.since i hi
  · cases hr : k.replacedBy userId with
    | true =>
      have hclear := hc hr
      refine ⟨fun i hi hor msg hmsg => ?_, hclear.calls, hclear.stored⟩
      refine hclear.frames i hi (hor.resolve_right fun hin => ?_) msg hmsg
      change i ∈ (if k.replacedBy userId then [] else k.since) at hin
      rw [hr] at hin
      cases hin
    | false =>
      -- the account connects again
      change (k.switched || k.replacedBy userId) = true at hsw
      rw [hr, Bool.or_false] at hsw
      obtain ⟨u, hu⟩ := Option.isSome_iff_exists.mp (h.known hsw)
      have hsame : userId = s.userId := by
        unfold Accounts.replacedBy at hr
        rw [hu] at hr
        exact (bne_eq_false_iff_eq.mp hr).symm.trans (h.account u hu)
      have hown := h.own hsw
      refine ⟨fun i hi hor msg hmsg => ?_, fun c hmem msg hmsg => ?_, fun e he u hu => ?_⟩
      · refine (hown.frames i hi (hor.imp id fun hin => ?_) msg hmsg).trans hsame.symm
        change i ∈ (if k.replacedBy userId then [] else k.since) at hin
        rw [hr] at hin
        exact hin
      · exact (hown.calls c hmem msg hmsg).trans hsame.symm
      · exact (hown.stored e he u hu).trans hsame.symm

/-- The notes behind a step that is no `connect`. -/
theorem noteAccount_other {g' : Trace} {new : List Nat}
    (hne : ∀ token userId, a ≠ .connect token userId) (hgiven : g'.given = g.given ++ new) :
    noteAccount k (s, g) a (t, g') = { k with
      sources := if g.calls.length < g'.calls.length then k.sources ++ [builtFrom s a]
        else k.sources
      since := k.since ++ new
      stored := k.stored ++ (storedIn s a).toList.map fun msg => (msg, k.account) } := by
  have hdrop : g'.given.drop g.given.length = new := by
    rw [hgiven, List.drop_left]
  cases a with
  | connect token userId => exact absurd rfl (hne token userId)
  | disconnect | request | call | ws | opened | closing | dropping | dropped | connectError
  | receive =>
    unfold noteAccount
    dsimp only
    rw [hdrop]

/-- A call made before keeps its message. -/
theorem source_old {i n m : Nat} {x : Option ChatMessage} {account : Option Bytes}
    {switched : Bool} {since : List Nat} {stored : List (ChatMessage × Option Bytes)}
    (hlen : k.sources.length = n) (hi : i < n) :
    Accounts.source ⟨account, switched, if n < m then k.sources ++ [x] else k.sources, since,
      stored⟩ i = k.source i := by
  unfold Accounts.source
  dsimp only
  split
  · rw [List.getElem?_append_left (hlen.symm ▸ hi)]
  · rfl

/-- A new one has the message that is handed over. -/
theorem source_new {i n m : Nat} {x : Option ChatMessage} {msg : ChatMessage}
    {account : Option Bytes} {switched : Bool} {since : List Nat}
    {stored : List (ChatMessage × Option Bytes)} (hlen : k.sources.length = n) (hi : ¬ i < n)
    (h : msg ∈ Accounts.source ⟨account, switched, if n < m then k.sources ++ [x] else k.sources,
      since, stored⟩ i) : n < m ∧ i = n ∧ msg ∈ x := by
  have hlt := lt_of_source h
  unfold Accounts.source at h
  dsimp only at h hlt
  split at h
  · rename_i hmore
    rw [if_pos hmore, List.length_append, List.length_singleton, hlen] at hlt
    obtain rfl : i = n := by omega
    rw [← hlen, List.getElem?_concat_length] at h
    exact ⟨hmore, rfl, h⟩
  · rename_i hsame
    rw [if_neg hsame, hlen] at hlt
    exact absurd hlt hi

/-- A message a caller hands over is one it was about to send. -/
theorem Own.builtFrom (h : Own s g k) : ∀ msg ∈ builtFrom s a, msg.senderId = s.userId := by
  intro msg hb
  cases a with
  | call tid accepted =>
    obtain ⟨pc, hpc, hmsg⟩ := Option.bind_eq_some_iff.mp hb
    exact h.calls _ (mem_of_lookup hpc) msg hmsg
  | connect | disconnect | request | ws | opened | closing | dropping | dropped | connectError
  | receive => cases hb

/-- A step that is no `connect`. -/
theorem other_accountOk (h : AccountOk s g k) (hs : step s a = some t)
    (hne : ∀ token userId, a ≠ .connect token userId) :
    AccountOk t (note g s a t) (noteAccount k (s, g) a (t, note g s a t)) := by
  obtain ⟨hid, hcalls⟩ := step_account hs hne
  obtain ⟨hgrown, new, hgiven, hnew⟩ := note_cases h.trace hs
  rw [noteAccount_other hne hgiven]
  have hlen : g.calls.length ≤ (note g s a t).calls.length := by
    rcases hgrown with e | ⟨json, _, e⟩
    · exact Nat.le_of_eq (congrArg List.length e.symm)
    · rw [e, List.length_append]
      exact Nat.le_add_right _ _
  have hframe : ∀ i < g.calls.length, (note g s a t).frame i = g.frame i := by
    intro i hi
    unfold Trace.frame
    rcases hgrown with e | ⟨json, _, e⟩
    · rw [e]
    · rw [e, List.getElem?_append_left hi]
  refine
    { trace := step_traceOk h.trace hs
      account := fun u hu => hid ▸ h.account u hu
      known := h.known
      length := ?_
      built := fun i msg hmsg => ?_
      since := fun i hi => ?_
      own := fun hsw => ⟨fun i hi hor msg hmsg => ?_, fun c hc msg hmsg => ?_,
        fun e he u hu => ?_⟩ }
  · dsimp only
    rcases hgrown with e | ⟨json, _, e⟩
    · rw [e, if_neg (Nat.lt_irrefl _)]
      exact h.length
    · rw [e, if_pos (by rw [List.length_append]; exact Nat.lt_succ_self _), List.length_append,
        List.length_append, h.length]
      rfl
  · by_cases hi : i < g.calls.length
    · rw [source_old h.length hi] at hmsg
      rw [hframe i hi]
      exact h.built i msg hmsg
    · obtain ⟨hmore, rfl, hb⟩ := source_new h.length hi hmsg
      rcases hgrown with e | ⟨json, hlog, e⟩
      · rw [e] at hmore
        exact absurd hmore (Nat.lt_irrefl _)
      · unfold Trace.frame
        rw [e, List.getElem?_concat_length, ← builtFrom_frame hs hlog hb]
        rfl
  · rcases List.mem_append.mp hi with hi | hi
    · exact Nat.lt_of_lt_of_le (h.since i hi) hlen
    · exact Nat.lt_of_lt_of_le (hnew i hi).1 hlen
  · rw [hid]
    by_cases hin : i < g.calls.length
    · rw [source_old h.length hin] at hmsg
      refine (h.own hsw).frames i hin ?_ msg hmsg
      rcases hor with hno | hsince
      · rw [hgiven] at hno
        exact Or.inl fun hmem => hno (List.mem_append_left _ hmem)
      · rcases List.mem_append.mp hsince with hsince | hsince
        · exact Or.inr hsince
        · exact Or.inl (hnew i hsince).2
    · exact (h.own hsw).builtFrom msg (source_new h.length hin hmsg).2.2
  · rw [hid]
    exact (hcalls c hc msg hmsg).elim (fun hold => (h.own hsw).calls c hold msg hmsg) id
  · rw [hid]
    rcases List.mem_append.mp he with he | he
    · exact (h.own hsw).stored e he u hu
    · obtain ⟨msg, _, rfl⟩ := List.mem_map.mp he
      exact h.account u hu

/-- **One step.** -/
theorem step_accountOk (h : AccountOk s g k) (hc : SwitchClear ((s, g), k) a)
    (hs : step s a = some t) :
    AccountOk t (note g s a t) (noteAccount k (s, g) a (t, note g s a t)) := by
  by_cases hconnect : ∃ token userId, a = .connect token userId
  · obtain ⟨token, userId, rfl⟩ := hconnect
    exact connect_accountOk h hc hs
  · exact other_accountOk h hs fun token userId e => hconnect ⟨token, userId, e⟩

theorem accountOk_init : AccountOk State.init Trace.init Accounts.init where
  trace := traceOk_init
  account := by nofun
  known := by nofun
  length := rfl
  built i msg hmsg := absurd (lt_of_source hmsg) (Nat.not_lt_zero i)
  since := by nofun
  own := by nofun

theorem reach_accountOk {p : (State × Trace) × Accounts} (h : accounted.Reach SwitchClear p) :
    AccountOk p.1.1 p.1.2 p.2 := by
  refine h.invariant (I := fun p => AccountOk p.1.1 p.1.2 p.2) accountOk_init ?_
  intro p a q hp hc hs
  obtain ⟨htraced, haccount⟩ := Machine.watch_step_some hs
  obtain ⟨hstep, hnote⟩ := Machine.watch_step_some htraced
  have hq : q.1 = (q.1.1, note p.1.2 p.1.1 a q.1.1) := Prod.ext rfl hnote
  rw [haccount, hq]
  exact step_accountOk hp hc hstep

/-- The stored messages are those of the notes, in every run. -/
theorem reach_messages {C : (State × Trace) × Accounts → Act → Prop}
    {p : (State × Trace) × Accounts} (h : accounted.Reach C p) (c : Bytes) :
    p.1.1.messages c = (p.2.storedFor c).map Prod.fst := by
  refine h.invariant (I := fun p => p.1.1.messages c = (p.2.storedFor c).map Prod.fst) rfl ?_
  intro p a q hp _ hs
  obtain ⟨htraced, haccount⟩ := Machine.watch_step_some hs
  obtain ⟨hstep, _⟩ := Machine.watch_step_some htraced
  have hstored : q.2.stored = p.2.stored ++
      (storedIn p.1.1 a).toList.map fun msg => (msg, p.2.account) := by
    rw [haccount]
    cases a with
    | connect token userId => exact (List.append_nil _).symm
    | disconnect | request | call | ws | opened | closing | dropping | dropped | connectError
    | receive => rfl
  unfold Accounts.storedFor at hp ⊢
  rw [step_messages hstep c, hp, hstored, List.filter_append, List.map_append]
  cases storedIn p.1.1 a with
  | none => rfl
  | some msg => by_cases hc : msg.conversationId = c <;> simp [hc]

theorem reach_getMessages {C : (State × Trace) × Accounts → Act → Prop}
    {p : (State × Trace) × Accounts} (h : accounted.Reach C p) (c : Bytes) (limit : Nat) :
    getMessages p.1.1 c limit = (p.2.shown c limit).map Prod.fst := by
  unfold getMessages Accounts.shown
  rw [reach_messages h c]
  dsimp only
  rw [List.length_map]
  split
  · rfl
  · rw [List.map_drop]

theorem mem_of_shown {c : Bytes} {limit : Nat} {e : ChatMessage × Option Bytes}
    (h : e ∈ k.shown c limit) : e ∈ k.stored := by
  unfold Accounts.shown at h
  dsimp only at h
  split at h
  · exact (List.mem_filter.mp h).1
  · exact (List.mem_filter.mp (List.mem_of_mem_drop h)).1

end Accounts

/-! ## 5. Two accounts -/

/-- The frames of messages given to `ws.sendText` since the account changed carry its user id. -/
def OwnFrames (p : (State × Trace) × Accounts) : Prop :=
  ∀ i ∈ p.2.since, ∀ msg ∈ p.2.source i,
    p.1.2.frame i = some (buildMessageJson msg) ∧ msg.senderId = p.1.1.userId

/-- `getMessages` returns no message that was stored under another account. -/
def OwnMessages (p : (State × Trace) × Accounts) : Prop :=
  ∀ c limit, getMessages p.1.1 c limit = (p.2.shown c limit).map Prod.fst ∧
    ∀ e ∈ p.2.shown c limit, ∀ u ∈ e.2, u = p.1.1.userId

/-- **Accounts apart**: in every run in which nothing of another account is left over where the
    account changes, every message frame given to `ws.sendText` behind the change carries the new
    user id, and `getMessages` returns no message that was stored under another account. -/
theorem accountsApart {p : (State × Trace) × Accounts} (h : accounted.Reach SwitchClear p)
    (hsw : p.2.switched = true) : OwnFrames p ∧ OwnMessages p := by
  have hok := reach_accountOk h
  have hown := hok.own hsw
  refine ⟨fun i hi msg hmsg => ⟨hok.built i msg hmsg, ?_⟩, fun c limit => ⟨?_, fun e he => ?_⟩⟩
  · exact hown.frames i (hok.since i hi) (Or.inr hi) msg hmsg
  · exact reach_getMessages h c limit
  · exact hown.stored e (mem_of_shown he)

/-- A call of `sendText` to its end; the socket is not connected. -/
def sendOffline : List Act :=
  .request 1 (.sendText (ascii "c") (ascii "r") (ascii "hi") (ascii "m") 0) ::
    List.replicate 3 (.call 1 true)

/-- A call without a connection, up to the push of its frame. -/
def markReadOffline : List Act :=
  .request 1 (.markRead (ascii "c")) :: List.replicate 2 (.call 1 true)

/-- `disconnect`, `connect` with another account, and the handshake with the flush of the queue
    that holds one frame. -/
def nextAccount : List Act :=
  [.disconnect 2, .call 2 true, .call 2 true, .connect (ascii "t2") (ascii "b"), .opened] ++
    List.replicate 8 (.ws true)

/-- What is seen: whether the account changed, who is connected, the senders of the frames given
    since, and the accounts of the messages that `getMessages` returns. -/
structure SeenAccounts where
  switched : Bool
  userId : Bytes
  senders : List (Option Bytes)
  accounts : List (Option Bytes)
  deriving DecidableEq, Repr

/-- What is looked at in the end. -/
def seenAccounts (p : (State × Trace) × Accounts) : SeenAccounts where
  switched := p.2.switched
  userId := p.1.1.userId
  senders := p.2.since.map fun i => (p.2.source i).map ChatMessage.senderId
  accounts := (p.2.shown (ascii "c") 50).map Prod.snd

/-- The first account marks a conversation as read, offline; the second one sends a message. -/
def markedThenSent : List Act :=
  .connect (ascii "t") (ascii "a") :: (markReadOffline ++ nextAccount ++ sendOffline)

/-- The first account sends a message, offline. -/
def sentThenNext : List Act :=
  .connect (ascii "t") (ascii "a") :: (sendOffline ++ nextAccount)

theorem accountsApart_markedRead : ∃ p, accounted.Reach SwitchClear p ∧ p.2.switched = true ∧
    seenAccounts p = ⟨true, ascii "b", [none, none, some (ascii "b")], [some (ascii "b")]⟩ ∧
    OwnFrames p ∧ OwnMessages p := by
  have hseen : (accounted.exec accounted.init markedThenSent).map seenAccounts =
      some ⟨true, ascii "b", [none, none, some (ascii "b")], [some (ascii "b")]⟩ := by
    decide +kernel
  have hmeets : accounted.meets SwitchClear accounted.init markedThenSent := by decide +kernel
  obtain ⟨p, hp, hobs⟩ := Option.map_eq_some_iff.mp hseen
  have hreach := Machine.steps_of_exec hp hmeets
  have hsw : p.2.switched = true := congrArg SeenAccounts.switched hobs
  exact ⟨p, hreach, hsw, hobs, accountsApart hreach hsw⟩

/-- **The message left over**: it goes out under the next account with the sender of the one
    before, and `getMessages` still returns it. -/
theorem accountsApart_leftOver : ∃ p, accounted.Reach Machine.Any p ∧ p.2.switched = true ∧
    ¬ OwnFrames p ∧ ¬ OwnMessages p := by
  have hseen : (accounted.exec accounted.init sentThenNext).map seenAccounts =
      some ⟨true, ascii "b", [none, some (ascii "a")], [some (ascii "a")]⟩ := by decide +kernel
  obtain ⟨p, hp, hobs⟩ := Option.map_eq_some_iff.mp hseen
  have hreach := Machine.steps_of_exec hp (Machine.meets_any _ _)
  simp only [seenAccounts, SeenAccounts.mk.injEq] at hobs
  obtain ⟨hsw, hid, hframes, hstored⟩ := hobs
  have hab : ascii "a" ≠ ascii "b" := by decide
  refine ⟨p, hreach, hsw, fun hown => ?_, fun hown => ?_⟩
  · have hmem : some (ascii "a") ∈ p.2.since.map fun i =>
        (p.2.source i).map ChatMessage.senderId := by
      rw [hframes]
      exact List.mem_cons_of_mem _ List.mem_cons_self
    obtain ⟨i, hi, hsource⟩ := List.mem_map.mp hmem
    obtain ⟨msg, hmsg, hsender⟩ := Option.map_eq_some_iff.mp hsource
    have hb := (hown i hi msg hmsg).2
    rw [hid, hsender] at hb
    exact hab hb
  · have hmem : some (ascii "a") ∈ (p.2.shown (ascii "c") 50).map Prod.snd := by
      rw [hstored]
      exact List.mem_cons_self
    obtain ⟨e, he, haccount⟩ := List.mem_map.mp hmem
    have hb := (hown (ascii "c") 50).2 e he (ascii "a") haccount
    rw [hid] at hb
    exact hab hb

end Viral.Chat
