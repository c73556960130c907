/-
  File:      ViralEngine/Chat/Order.lean
  Subject:   THE ORDER OF A SENDER'S FRAMES, AND FRAMES THAT ARE LEFT BEHIND

  `onConnected` stores `m_connected` first and flushes the queue later, and `sendRaw` tests
  `m_connected` outside the queue's mutex. Between the store and the flush a direct send passes the
  frames that wait; between the test and the push a whole reconnect may happen, and the frame then
  waits for the next one.

  * `SenderOrder`, `NotOvertaking`, `senderOrder_iff` -- the frames of every thread are handed over
    in the order of its calls exactly in the runs in which no thread sends past a waiting frame of
    its own;
  * `senderOrder_overtaken` -- a run in which the second frame overtakes the first;
  * `PushInTime`, `nothingStranded` -- if no application thread pushes behind the flush of a
    connected engine, a connected engine with no call under way has an empty queue;
  * `stranded_lateTest` -- a run that leaves a frame behind.
-/
import ViralEngine.Chat.HandOff

namespace Viral.Chat

open Viral.Lib

/-! ## 1. Order -/

/-- **The frames of every thread are handed over in the order of its calls**: when a call's frame
    is handed over, the frames of the thread's earlier calls have been. -/
def SenderOrder (g : Trace) : Prop :=
  ∀ i j th, i < j → g.caller i = some th → g.caller j = some th → j ∈ g.given →
    i ∈ g.given.takeWhile (· ≠ j)

/-- The thread is about to send a frame while an earlier frame of its own waits in the queue. -/
def overtakes (p : State × Trace) (th : Thread) : Bool :=
  (match rawAt p.1 th with
    | some (.send _) => true
    | _ => false) && p.2.waiting.any fun i => p.2.caller i == some th

/-- **No thread sends past a waiting frame of its own.** -/
def NotOvertaking (p : State × Trace) : Act → Prop
  | .call tid _ => overtakes p (.app tid) = false
  | .ws _ => overtakes p .socket = false
  | _ => True

instance (p : State × Trace) : ∀ a : Act, Decidable (NotOvertaking p a)
  | .call tid _ => inferInstanceAs (Decidable (overtakes p (.app tid) = false))
  | .ws _ => inferInstanceAs (Decidable (overtakes p .socket = false))
  | .connect _ _ | .disconnect _ | .request _ _ | .opened | .closing | .dropping | .dropped
  | .connectError | .receive _ _ => inferInstanceAs (Decidable True)

/-- What was handed over before an entry does not change later. -/
theorem takeWhile_append_of_mem {j : Nat} {l : List Nat} (h : j ∈ l) (l' : List Nat) :
    (l ++ l').takeWhile (· ≠ j) = l.takeWhile (· ≠ j) := by
  induction l with
  | nil => cases h
  | cons a l ih =>
    by_cases e : a = j
    · simp [e]
    · have hmem : j ∈ l := (List.mem_cons.mp h).resolve_left fun e' => e e'.symm
      simpa [e] using ih hmem

theorem takeWhile_append_new {j : Nat} {l : List Nat} (h : j ∉ l) :
    (l ++ [j]).takeWhile (· ≠ j) = l := by
  induction l with
  | nil => simp
  | cons a l ih =>
    have ha : a ≠ j := fun e => h (e ▸ List.mem_cons_self)
    have hl : j ∉ l := fun hm => h (List.mem_cons_of_mem a hm)
    simpa [ha] using ih hl

section Order

variable {s t : State} {g : Trace} {th : Thread}

/-- A call of a thread in front of the one it is in has left `sendRaw`. -/
theorem TraceOk.left_of_ne (h : TraceOk s g) {i j : Nat} (hi : g.caller i = some th)
    (hr : ∀ r, g.running th = some r → j ≤ r) (hlt : i < j) : i ∈ g.given ++ g.waiting := by
  rcases h.covered i (lt_of_caller hi) with hmem | ⟨th', hth'⟩
  · exact hmem
  · have e : some th' = some th := (h.runner th' i hth').symm.trans hi
    rw [Option.some.inj e] at hth'
    have := hr i hth'
    omega

/-- **One more frame handed over**: the order stays exactly when no earlier frame of its thread
    waits. -/
theorem senderOrder_give (h : TraceOk s g) {r : Nat} (hr : g.caller r = some th)
    (hnew : r ∉ g.given) {g' : Trace} (hcaller : ∀ i, g'.caller i = g.caller i)
    (hgiven : g'.given = g.given ++ [r])
    (hbefore : ∀ i, i < r → g.caller i = some th → i ∈ g.given ++ g.waiting) :
    SenderOrder g' ↔ SenderOrder g ∧ ∀ i ∈ g.waiting, g.caller i = some th → r ≤ i := by
  constructor
  · intro ho
    constructor
    · intro i j x hlt hi hj hmem
      have hin := ho i j x hlt ((hcaller i).trans hi) ((hcaller j).trans hj)
        (hgiven ▸ List.mem_append_left _ hmem)
      rw [hgiven, takeWhile_append_of_mem hmem] at hin
      exact hin
    · intro i hw hi
      by_contra hlt
      have hin := ho i r th (by omega) ((hcaller i).trans hi) ((hcaller r).trans hr)
        (hgiven ▸ List.mem_append_right _ List.mem_cons_self)
      rw [hgiven, takeWhile_append_new hnew] at hin
      exact (List.nodup_append.mp h.once).2.2 i hin i hw rfl
  · rintro ⟨ho, hw⟩ i j x hlt hi hj hmem
    rw [hcaller] at hi hj
    rw [hgiven] at hmem ⊢
    rcases List.mem_append.mp hmem with hold | hlast
    · rw [takeWhile_append_of_mem hold]
      exact ho i j x hlt hi hj hold
    · obtain rfl := List.mem_singleton.mp hlast
      rw [takeWhile_append_new hnew]
      obtain rfl : x = th := Option.some.inj (hj.symm.trans hr)
      rcases List.mem_append.mp (hbefore i hlt hi) with hin | hin
      · exact hin
      · have := hw i hin hi
        omega

/-- A thread at its send makes it, and the log tells. -/
theorem step_of_send {a : Act} {json : Bytes} (ha : a.inside = true)
    (hat : rawAt s a.thread = some (.send json)) (h : step s a = some t) :
    ∃ ok, t.log = s.log ++ [.sent json ok] := by
  cases a with
  | call tid accepted =>
    obtain ⟨pc, u, next, hpc, hm, rfl⟩ := callStep_some h
    have hraw : pc = .raw (.send json) := by
      unfold rawAt Act.thread at hat
      simp only [hpc] at hat
      cases pc with
      | raw p => exact congrArg CallPc.raw (Option.some.inj hat)
      | store | stopJoin | stopStore => cases hat
    subst hraw
    cases callMove_do hm with
    | raw p v n hp =>
      cases sendRawStep_move hp with
      | sent json ok v hws hcalls hconnected hqueue hlog => exact ⟨ok, hlog⟩
  | ws accepted =>
    unfold rawAt Act.thread at hat
    cases wsStep_do h with
    | presence p u next hws hp | ack p u next hws hp =>
      simp only [hws, Option.some.injEq] at hat
      subst hat
      cases sendRawStep_move hp with
      | sent json ok v hws hcalls hconnected hqueue hlog => exact ⟨ok, hlog⟩
    | onConnected hws | flushLock hws | flushTest hws | flushSend _ _ _ hws | flushPop hws
    | store _ hws =>
      simp only [hws] at hat
      cases hat
  | connect | disconnect | request | opened | closing | dropping | dropped | connectError
  | receive => cases ha

theorem notOvertaking_iff {p : State × Trace} {a : Act} (ha : a.inside = true) :
    NotOvertaking p a ↔ overtakes p a.thread = false := by
  cases a with
  | call | ws => exact Iff.rfl
  | connect | disconnect | request | opened | closing | dropping | dropped | connectError
  | receive => cases ha

/-- A step that writes no send overtakes nobody. -/
theorem notOvertaking_of_log {a : Act} (h : step s a = some t)
    (hlog : ∀ json ok, t.log ≠ s.log ++ [.sent json ok]) : NotOvertaking (s, g) a := by
  cases ha : a.inside with
  | true =>
    rw [notOvertaking_iff ha]
    unfold overtakes
    split
    · rename_i json hat
      obtain ⟨ok, e⟩ := step_of_send ha hat h
      exact absurd e (hlog json ok)
    · rfl
  | false =>
    cases a with
    | call | ws => cases ha
    | connect | disconnect | request | opened | closing | dropping | dropped | connectError
    | receive => trivial

/-- **One step keeps the order exactly when it overtakes nobody.** -/
theorem senderOrder_step {a : Act} (h : TraceOk s g) (hs : step s a = some t) :
    SenderOrder (note g s a t) ↔ SenderOrder g ∧ NotOvertaking (s, g) a := by
  cases step_effect h.callers hs with
  | silent hlog hwaiting hframes =>
    rw [note_eq (hlog.trans (List.append_nil _).symm)]
    refine (and_iff_left (notOvertaking_of_log hs fun json ok e => ?_)).symm
    rw [hlog] at e
    exact absurd (congrArg List.length e) (by simp)
  | handed json hlog hwaiting hfree hframes =>
    rw [note_eq hlog]
    have hnot : NotOvertaking (s, g) a := notOvertaking_of_log hs fun json ok e => by
      rw [hlog] at e
      exact absurd (List.append_cancel_left e) (by simp)
    rw [and_iff_left hnot]
    -- the new call is not handed over, and the earlier ones keep their callers
    have hold : ∀ i < g.calls.length, (g.calls ++ [(a.thread, json)])[i]? = g.calls[i]? :=
      fun i hi => List.getElem?_append_left hi
    constructor
    · intro ho i j th hlt hi hj hmem
      have hi' : (g.calls ++ [(a.thread, json)])[i]?.map Prod.fst = some th := by
        rw [hold i (lt_of_caller hi)]
        exact hi
      have hj' : (g.calls ++ [(a.thread, json)])[j]?.map Prod.fst = some th := by
        rw [hold j (lt_of_caller hj)]
        exact hj
      exact ho i j th hlt hi' hj' hmem
    · intro ho i j th hlt hi hj hmem
      have hknown : j < g.calls.length := h.known j (List.mem_append_left _ hmem)
      have hi' : (g.calls ++ [(a.thread, json)])[i]?.map Prod.fst = some th := hi
      have hj' : (g.calls ++ [(a.thread, json)])[j]?.map Prod.fst = some th := hj
      rw [hold i (by omega)] at hi'
      rw [hold j hknown] at hj'
      exact ho i j th hlt hi' hj' hmem
  | sent json ok hact hlog hwaiting hat hframes =>
    rw [note_eq hlog, notOvertaking_iff hact]
    obtain ⟨r, hr, _⟩ := h.is_running (congrArg (Option.map SendPc.json) hat)
    have hcaller := h.runner _ r hr
    have hgiven : (g.add a.thread (.sent json ok)).given = g.given ++ [r] := by
      show g.given ++ (g.running a.thread).toList = _
      rw [hr]
      rfl
    have hiff := senderOrder_give h hcaller
      (fun hin => h.apart _ r hr (List.mem_append_left _ hin))
      (fun i => rfl : ∀ i, (g.add a.thread (.sent json ok)).caller i = g.caller i) hgiven
      fun i hlt hi => h.left_of_ne hi (fun r' hr' => by
        rw [hr] at hr'
        exact Nat.le_of_eq (Option.some.inj hr')) hlt
    refine hiff.trans (and_congr_right fun _ => ?_)
    -- a waiting call of the thread is an earlier one
    have hlater : ∀ i ∈ g.waiting, g.caller i = some a.thread → i < r := by
      intro i hw hi
      have hle := h.latest _ i r hr hi
      have hne : i ≠ r := by
        rintro rfl
        exact h.apart _ i hr (List.mem_append_right _ hw)
      omega
    unfold overtakes
    simp only [hat, Bool.true_and, List.any_eq_false, beq_iff_eq]
    constructor
    · intro hw i hi hth
      have hle := hw i hi hth
      have hlt := hlater i hi hth
      omega
    · intro hw i hi hth
      exact absurd hth (hw i hi)
  | pushed json hlog hwaiting hat hframes =>
    rw [note_eq hlog]
    refine (and_iff_left (notOvertaking_of_log hs fun json ok e => ?_)).symm
    rw [hlog] at e
    exact absurd (List.append_cancel_left e) (by simp)
  | flushed json ok hlog hwaiting hframes =>
    rw [note_eq hlog]
    have hnot : NotOvertaking (s, g) a := notOvertaking_of_log hs fun json ok e => by
      rw [hlog] at e
      exact absurd (List.append_cancel_left e) (by simp)
    rw [and_iff_left hnot]
    have hq := h.queued
    rw [hwaiting] at hq
    obtain ⟨w, rest, hw, _, _⟩ := List.map_eq_cons_iff.mp hq
    have hmem : w ∈ g.given ++ g.waiting := by
      rw [hw]
      exact List.mem_append_right _ List.mem_cons_self
    obtain ⟨th, hth⟩ := caller_of_lt (h.known w hmem)
    have hgiven : (g.add a.thread (.flushed json ok)).given = g.given ++ [w] := by
      show g.given ++ g.waiting.take 1 = _
      rw [hw]
      rfl
    have honce := h.once
    rw [hw] at honce
    have hiff := senderOrder_give h hth
      (fun hin => (List.nodup_append.mp honce).2.2 w hin w List.mem_cons_self rfl)
      (fun i => rfl : ∀ i, (g.add a.thread (.flushed json ok)).caller i = g.caller i) hgiven
      fun i hlt hi => h.left_of_ne hi (fun r hr => h.latest th w r hr hth) hlt
    refine hiff.trans (and_iff_left fun i hi hcaller => ?_)
    -- the front of the queue is the first waiting call of its thread
    rw [hw] at hi
    rcases List.mem_cons.mp hi with rfl | hi
    · exact Nat.le_refl _
    · have hsorted := h.sorted
      rw [hw] at hsorted
      exact Nat.le_of_lt ((List.pairwise_cons.mp hsorted).1 i hi (hth.trans hcaller.symm))

end Order

/-- **The frames of every thread are handed over in the order of its calls exactly in the runs in
    which no thread sends past a waiting frame of its own.** -/
theorem senderOrder_iff {acts : List Act} {p : State × Trace}
    (h : traced.exec traced.init acts = some p) :
    SenderOrder p.2 ↔ traced.meets NotOvertaking traced.init acts := by
  have hkeep : ∀ q a u, TraceOk q.1 q.2 → traced.step q a = some u → TraceOk u.1 u.2 := by
    intro q a u hok hu
    obtain ⟨hstep, hnote⟩ := Machine.watch_step_some hu
    rw [hnote]
    exact step_traceOk hok hstep
  have hrun : SenderOrder p.2 ↔
      SenderOrder traced.init.2 ∧ traced.meets NotOvertaking traced.init acts := by
    refine Machine.exec_iff_meets (I := fun q => TraceOk q.1 q.2) (Q := fun q => SenderOrder q.2)
      hkeep ?_ traceOk_init h
    intro q a u hok hu
    obtain ⟨hstep, hnote⟩ := Machine.watch_step_some hu
    rw [hnote]
    exact senderOrder_step hok hstep
  rw [hrun]
  refine and_iff_right ?_
  intro i j th _ _ _ hmem
  cases hmem

/-- A frame pushed offline and flushed, and then one sent. -/
def flushedThenSent : List Act :=
  offlineThenFlushed ++ [.request 1 (.markRead (ascii "c2")), .call 1 true, .call 1 true]

theorem senderOrder_flushed : ∃ p, traced.exec traced.init flushedThenSent = some p ∧
    p.1.given = [presenceJson true, readJson (ascii "c1"), readJson (ascii "c2")] ∧
    SenderOrder p.2 := by
  have hrun : (traced.exec traced.init flushedThenSent).map (fun p => p.1.given) =
      some [presenceJson true, readJson (ascii "c1"), readJson (ascii "c2")] := by
    decide +kernel
  obtain ⟨p, hp, hgiven⟩ := Option.map_eq_some_iff.mp hrun
  exact ⟨p, hp, hgiven, (senderOrder_iff hp).mpr (by decide +kernel)⟩

/-- Thread 1 pushes a frame while offline; the socket opens and `m_connected` is set; thread 1 sends
    its next frame; then the socket thread announces itself and flushes. -/
def sendsBeforeFlush : List Act :=
  [.connect (ascii "t") (ascii "ann"), .request 1 (.markRead (ascii "c1")), .call 1 true,
   .call 1 true, .opened, .ws true, .request 1 (.markRead (ascii "c2")), .call 1 true,
   .call 1 true, .ws true, .ws true, .ws true, .ws true, .ws true]

/-- **The second frame overtakes the first**: it goes straight to the socket, the first one
    follows with the flush. -/
theorem senderOrder_overtaken : ∃ p, traced.exec traced.init sendsBeforeFlush = some p ∧
    p.2.caller 0 = some (.app 1) ∧ p.2.frame 0 = some (readJson (ascii "c1")) ∧
    p.2.caller 2 = some (.app 1) ∧ p.2.frame 2 = some (readJson (ascii "c2")) ∧
    p.1.given = [readJson (ascii "c2"), presenceJson true, readJson (ascii "c1")] ∧
    ¬ SenderOrder p.2 := by
  have hrun : (traced.exec traced.init sendsBeforeFlush).map (fun p =>
      (p.2.calls, p.1.given, p.2.given)) =
      some ([(.app 1, readJson (ascii "c1")), (.socket, presenceJson true),
          (.app 1, readJson (ascii "c2"))],
        [readJson (ascii "c2"), presenceJson true, readJson (ascii "c1")], [2, 1, 0]) := by
    decide +kernel
  obtain ⟨p, hp, hobs⟩ := Option.map_eq_some_iff.mp hrun
  simp only [Prod.mk.injEq] at hobs
  obtain ⟨hcalls, hgiven, hids⟩ := hobs
  have hfirst : p.2.caller 0 = some (.app 1) := by
    unfold Trace.caller
    rw [hcalls]
    rfl
  have hsecond : p.2.caller 2 = some (.app 1) := by
    unfold Trace.caller
    rw [hcalls]
    rfl
  refine ⟨p, hp, hfirst, ?_, hsecond, ?_, hgiven, fun ho => ?_⟩
  · unfold Trace.frame
    rw [hcalls]
    rfl
  · unfold Trace.frame
    rw [hcalls]
    rfl
  · have hin := ho 0 2 (.app 1) (by decide) hfirst hsecond (by rw [hids]; decide)
    rw [hids] at hin
    exact absurd hin (by decide)

/-! ## 2. Frames left behind -/

/-- The socket thread is inside `onConnected`, with the flush ahead or under way. -/
def WsPc.connecting : WsPc → Bool
  | .onConnected | .presence _ | .flushLock | .flushTest | .flushSend | .flushPop => true
  | _ => false

/-- No `sendRaw`, `onConnected` or `flushOfflineQueue` is in progress. -/
def NoSendRunning (s : State) : Prop :=
  (∀ c ∈ s.calls, c.2.frame = none) ∧ s.ws.frame = none ∧ s.ws.connecting = false

instance (s : State) : Decidable (NoSendRunning s) := inferInstanceAs (Decidable (_ ∧ _))

/-- The thread is about to push. -/
def pushing (s : State) (th : Thread) : Bool :=
  match rawAt s th with
  | some (.push _) => true
  | _ => false

/-- **An application thread pushes only while `m_connected` is not set, or while the socket thread
    has its flush still ahead.** -/
def PushInTime (s : State) : Act → Prop
  | .call tid _ => pushing s (.app tid) = true → s.connected = true → s.ws.connecting = true
  | _ => True

instance (s : State) : ∀ a : Act, Decidable (PushInTime s a)
  | .call _ _ => inferInstanceAs (Decidable (_ → _))
  | .ws _ | .connect _ _ | .disconnect _ | .request _ _ | .opened | .closing | .dropping
  | .dropped | .connectError | .receive _ _ => inferInstanceAs (Decidable True)

/-- **A connected engine has an empty queue or a flush ahead**, and the socket thread acknowledges
    by a push only while `m_connected` is not set: it is the thread that sets it. -/
structure Drained (s : State) : Prop where
  empty : s.connected = true → s.queue = [] ∨ s.ws.connecting = true
  acked : ∀ json, s.ws = .ack (.push json) → s.connected = false

/-- Outside `onConnected` and the flush the queue of a connected engine is empty. -/
theorem Drained.queue_nil {s : State} (h : Drained s) (hout : s.ws.connecting = false)
    (hc : s.connected = true) : s.queue = [] := by
  rcases h.empty hc with hq | hin
  · exact hq
  · rw [hout] at hin
    cases hin

theorem drained_congr {s t : State} (h : Drained s) (hws : t.ws = s.ws)
    (hqueue : t.queue = s.queue) (hconnected : t.connected = true → s.connected = true) :
    Drained t where
  empty hc := by
    rw [hws, hqueue]
    exact h.empty (hconnected hc)
  acked json hack := by
    rw [hws] at hack
    cases hc : t.connected with
    | false => rfl
    | true =>
      have := h.acked json hack
      rw [hconnected hc] at this
      cases this

theorem callStep_drained {s t : State} {tid : Nat} {accepted : Bool} (h : Drained s)
    (hc : PushInTime s (.call tid accepted)) (hs : callStep s tid accepted = some t) :
    Drained t := by
  obtain ⟨pc, u, next, hpc, hm, rfl⟩ := callStep_some hs
  cases callMove_do hm with
  | store msg =>
    exact drained_congr h rfl rfl id
  | raw p v n hp =>
    cases sendRawStep_move hp with
    | tested json next hnext => exact drained_congr h rfl rfl id
    | sent json ok v hws hcalls hconnected hqueue hlog =>
      exact drained_congr h hws hqueue fun hc => hconnected ▸ hc
    | pushed json hfree v hws hcalls hconnected hqueue hlog =>
      have hpush : pushing s (.app tid) = true := by
        unfold pushing rawAt
        simp only [hpc]
      constructor
      · intro hon
        have hin := hc hpush (hconnected ▸ hon)
        exact Or.inr ((congrArg WsPc.connecting hws).trans hin)
      · intro json' hack
        have hack' : s.ws = .ack (.push json') := hws ▸ hack
        exact hconnected.trans (h.acked json' hack')
  | stopJoin hidle hready =>
    exact drained_congr h rfl rfl id
  | stopStore =>
    exact drained_congr h rfl rfl nofun

theorem wsStep_drained {s t : State} {accepted : Bool} (h : Drained s)
    (hs : wsStep s accepted = some t) : Drained t := by
  cases wsStep_do hs with
  | onConnected | flushLock | flushPop | flushSend =>
    exact ⟨fun _ => Or.inr rfl, fun json hack => by cases hack⟩
  | presence p u next hws hm =>
    cases next <;> exact ⟨fun _ => Or.inr rfl, fun json hack => by cases hack⟩
  | flushTest hws =>
    cases hq : s.queue with
    | nil => exact ⟨fun _ => Or.inl rfl, fun json hack => by cases hack⟩
    | cons json rest => exact ⟨fun _ => Or.inr rfl, fun json hack => by cases hack⟩
  | store msg hws =>
    exact ⟨fun hc => Or.inl (h.queue_nil (by rw [hws]; rfl) hc), fun json hack => by cases hack⟩
  | ack p u next hws hm =>
    have hout : s.ws.connecting = false := by rw [hws]; rfl
    cases sendRawStep_move hm with
    | tested json next hnext =>
      refine ⟨fun hc => Or.inl (h.queue_nil hout hc), fun json' hack => ?_⟩
      have hnext' : next = .push json' := by
        injection hack with hack
      rw [hnext'] at hnext
      show s.connected = false
      cases hc : s.connected with
      | false => rfl
      | true => simp [hc] at hnext
    | sent json ok v hws' hcalls hconnected hqueue hlog =>
      refine ⟨fun hc => Or.inl ?_, fun json' hack => by cases hack⟩
      exact hqueue.trans (h.queue_nil hout (hconnected ▸ hc))
    | pushed json hfree v hws' hcalls hconnected hqueue hlog =>
      have hoff : s.connected = false := h.acked json hws
      refine ⟨fun hc => ?_, fun json' hack => by cases hack⟩
      have hc' : s.connected = true := hconnected ▸ hc
      rw [hoff] at hc'
      cases hc'

/-- **Every step that pushes in time keeps the queue of a connected engine drained.** -/
theorem step_drained {s t : State} {a : Act} (h : Drained s) (hc : PushInTime s a)
    (hs : step s a = some t) : Drained t := by
  cases step_do hs with
  | call tid accepted _ hs => exact callStep_drained h hc hs
  | ws accepted _ hs => exact wsStep_drained h hs
  | connect | disconnect | closing | dropped | passed => exact drained_congr h rfl rfl id
  | request tid r hout => cases r <;> exact drained_congr h rfl rfl id
  | opened hidle hready => exact ⟨fun _ => Or.inr rfl, fun json hack => by cases hack⟩
  | dropping | connectError => exact drained_congr h rfl rfl nofun
  | message json timestamp msg hidle hready htype hmsg =>
    exact ⟨fun hon => Or.inl (h.queue_nil (by rw [hidle]; rfl) hon), fun json hack => by cases hack⟩

/-- **Nothing is left behind in a connected engine**: in every run in which the application
    threads push in time, whenever `m_connected` is set and no `sendRaw`, `onConnected` or
    `flushOfflineQueue` is in progress, `m_offlineQueue` is empty. -/
theorem nothingStranded {acts : List Act} {s : State}
    (h : engine.exec State.init acts = some s) (hm : engine.meets PushInTime State.init acts)
    (hconnected : s.connected = true) (hquiet : NoSendRunning s) : s.queue = [] := by
  have hdrained : Drained s := by
    refine Machine.Steps.invariant (I := Drained) (Machine.steps_of_exec h hm) ?_ ?_
    · exact ⟨nofun, nofun⟩
    · intro u a v hu hc hs
      exact step_drained hu hc hs
  rcases hdrained.empty hconnected with hq | hin
  · exact hq
  · rw [hquiet.2.2] at hin
    cases hin

theorem nothingStranded_flushed : ∃ s, engine.exec State.init offlineThenFlushed = some s ∧
    s.connected = true ∧ s.pushed = [readJson (ascii "c1")] ∧ s.queue = [] := by
  have hrun : (engine.exec State.init offlineThenFlushed).map (fun s =>
      (s.connected, decide (NoSendRunning s), s.pushed)) =
      some (true, true, [readJson (ascii "c1")]) := by
    decide +kernel
  obtain ⟨s, hs, hobs⟩ := Option.map_eq_some_iff.mp hrun
  simp only [Prod.mk.injEq, decide_eq_true_eq] at hobs
  exact ⟨s, hs, hobs.1, hobs.2.2, nothingStranded hs (by decide +kernel) hobs.1 hobs.2.1⟩

/-- Thread 1 finds `m_connected` not set; the engine connects and flushes; thread 1 pushes. -/
def pushesAfterFlush : List Act :=
  [.request 1 (.markRead (ascii "c1")), .call 1 true] ++ connectedRun ++ [.call 1 true]

/-- **A frame is left behind**: no call is running, `m_connected` is set, and the frame waits for
    the next reconnect. -/
theorem stranded_lateTest : ∃ s, engine.exec State.init pushesAfterFlush = some s ∧
    s.connected = true ∧ NoSendRunning s ∧ s.queue = [readJson (ascii "c1")] := by
  have hrun : (engine.exec State.init pushesAfterFlush).map (fun s =>
      (s.connected, decide (NoSendRunning s), s.queue)) =
      some (true, true, [readJson (ascii "c1")]) := by
    decide +kernel
  obtain ⟨s, hs, hobs⟩ := Option.map_eq_some_iff.mp hrun
  simp only [Prod.mk.injEq, decide_eq_true_eq] at hobs
  exact ⟨s, hs, hobs.1, hobs.2.1, hobs.2.2⟩

end Viral.Chat
