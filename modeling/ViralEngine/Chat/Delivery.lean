/-
  File:      ViralEngine/Chat/Delivery.lean
  Subject:   IS A FRAME EVER LOST?

  `sendRaw` hands a frame to the socket or pushes it on `m_offlineQueue`; `flushOfflineQueue`
  hands the front of the queue to the socket and pops it. Neither looks at what
  `ws.sendText` returns.

  * `State.handed`, `State.delivered`, `State.dropped` -- the history, read off the log;
  * `State.pending` -- the frames inside running `sendRaw` calls;
  * `StepDo`, `WsDo`, `CallDo` -- what a step can be, one of the socket thread and one of a caller;
  * `Balanced`, `step_balanced` -- no frame disappears on the way to the socket: what was handed
    to `sendRaw` is what the socket was given, what the queue holds and what is pending;
  * `Takes`, `Delivered` -- the socket takes the frame; every send of a run meets such a socket;
  * `step_dropped_iff` -- a step drops a frame exactly when it does not meet `Delivered`;
  * `noFrameLost_iff` -- so no frame is lost exactly in the runs that meet `Delivered`;
  * `frameLost_closing` -- a frame sent between CLOSING and the Close message is gone.
-/
import ViralEngine.Chat.Engine

namespace Viral.Chat

open Viral.Lib

/-! ## 1. The history -/

/-- A frame that was handed over. -/
def Event.handedFrame : Event → Option Bytes
  | .handed json => some json
  | _ => none

/-- A frame that `ws.sendText` returned success for. -/
def Event.deliveredFrame : Event → Option Bytes
  | .sent json true | .flushed json true => some json
  | _ => none

/-- A frame that `ws.sendText` returned failure for. -/
def Event.droppedFrame : Event → Option Bytes
  | .sent json false | .flushed json false => some json
  | _ => none

/-- All frames handed over, in their order. -/
def State.handed (s : State) : List Bytes := s.log.filterMap Event.handedFrame

/-- All frames delivered, in their order. -/
def State.delivered (s : State) : List Bytes := s.log.filterMap Event.deliveredFrame

/-- All frames dropped, in their order. -/
def State.dropped (s : State) : List Bytes := s.log.filterMap Event.droppedFrame

/-- The frame a running `sendRaw` carries. -/
def SendPc.json : SendPc → Bytes
  | .test json | .send json | .push json => json

/-- The frame a caller's thread has inside `sendRaw`. -/
def CallPc.frame : CallPc → Option Bytes
  | .raw p => some p.json
  | _ => none

/-- The frame the socket's thread has inside `sendRaw`. -/
def WsPc.frame : WsPc → Option Bytes
  | .presence p | .ack p => some p.json
  | _ => none

/-- The frames of the callers inside `sendRaw`. -/
def callFrames (calls : List (Nat × CallPc)) : List Bytes := calls.filterMap fun c => c.2.frame

/-- The frames inside `sendRaw`, of the socket thread and of the callers. -/
def State.pending (s : State) : List Bytes := s.ws.frame.toList ++ callFrames s.calls

/-- The frame that is handed over and not yet popped. -/
def State.popping (s : State) : List Bytes :=
  match s.ws with
  | .flushPop => s.queue.take 1
  | _ => []

/-- No call is running. -/
def Quiet (s : State) : Prop := s.calls = [] ∧ s.ws = .idle

instance (s : State) : Decidable (Quiet s) := inferInstanceAs (Decidable (_ ∧ _))

/-! ## 2. The balance -/

/-- **What was handed to `sendRaw` is what the socket was given, what the queue holds and what is
    still inside `sendRaw`.** -/
def Balanced (s : State) : Prop :=
  ∀ json, s.handed.count json + s.popping.count json =
    s.delivered.count json + s.dropped.count json + s.queue.count json + s.pending.count json

/-- The frames that have left `sendRaw`, to the socket or to the queue. -/
def State.settled (s : State) (json : Bytes) : Nat :=
  s.delivered.count json + s.dropped.count json + s.queue.count json

theorem handed_record (s : State) (e : Event) :
    (s.record e).handed = s.handed ++ e.handedFrame.toList := by
  cases e <;> simp [State.handed, State.record, Event.handedFrame]

theorem delivered_record (s : State) (e : Event) :
    (s.record e).delivered = s.delivered ++ e.deliveredFrame.toList := by
  rcases e with _ | _ | ⟨_, ok⟩ | ⟨_, ok⟩ <;> try cases ok
  all_goals simp [State.delivered, State.record, Event.deliveredFrame]

theorem dropped_record (s : State) (e : Event) :
    (s.record e).dropped = s.dropped ++ e.droppedFrame.toList := by
  rcases e with _ | _ | ⟨_, ok⟩ | ⟨_, ok⟩ <;> try cases ok
  all_goals simp [State.dropped, State.record, Event.droppedFrame]

/-- A frame given to the socket is settled, whatever the answer. -/
theorem settled_record {s : State} {json : Bytes} {ok : Bool} {e : Event}
    (he : e = .sent json ok ∨ e = .flushed json ok) (x : Bytes) :
    (s.record e).settled x = s.settled x + [json].count x := by
  have hframe : (e.deliveredFrame.toList).count x + (e.droppedFrame.toList).count x =
      [json].count x := by
    rcases he with rfl | rfl <;> cases ok <;> simp [Event.deliveredFrame, Event.droppedFrame]
  unfold State.settled
  rw [delivered_record, dropped_record, List.count_append, List.count_append]
  show _ + s.queue.count x = _
  omega

/-- A frame handed to `sendRaw` is not settled yet. -/
theorem settled_record_handed (s : State) (json x : Bytes) :
    (s.record (.handed json)).settled x = s.settled x := by
  unfold State.settled
  rw [delivered_record, dropped_record]
  show (s.delivered ++ []).count x + (s.dropped ++ []).count x + s.queue.count x = _
  rw [List.append_nil, List.append_nil]

/-! ## 3. The socket's answer and the steps -/

/-- The socket takes the frame: it is open, the text is UTF-8, and the transport accepts it. -/
def takes (s : State) (json : Bytes) (accepted : Bool) : Bool :=
  validateUtf8 json && s.ready == .opened && accepted

/-- **`ws.sendText` touches the socket only, and succeeds exactly when the socket takes the
    frame.** -/
theorem wsSendText_spec (s : State) (json : Bytes) (accepted : Bool) :
    ∃ ready, wsSendText s json accepted = ({ s with ready := ready }, takes s json accepted) := by
  unfold wsSendText takes
  cases hv : validateUtf8 json with
  | true =>
    refine ⟨s.ready, ?_⟩
    rw [if_pos rfl]
    by_cases hr : s.ready = .opened
    · rw [if_pos hr]
      refine Prod.ext rfl ?_
      simp [hr]
    · simp [hr]
  | false =>
    unfold closeSocket
    by_cases hr : s.ready = .opened ∧ s.dropping = false
    · exact ⟨.closing, by simp [hr]⟩
    · exact ⟨s.ready, by simp [hr]⟩

theorem closeSocket_spec (s : State) : ∃ ready, closeSocket s = { s with ready := ready } := by
  unfold closeSocket
  split
  · exact ⟨.closing, rfl⟩
  · exact ⟨s.ready, rfl⟩

theorem idle_of_listening {s : State} (h : s.listening = true) : s.ws = .idle := by
  unfold State.listening at h
  simpa using (Bool.and_eq_true_iff.mp h).2

/-- What a move of a caller can be, by the place it starts from. -/
inductive CallDo (s : State) (accepted : Bool) : CallPc → State → Option CallPc → Prop where
  | store (msg : ChatMessage) :
      CallDo s accepted (.store msg) ((storeMessage s msg).record (.handed (buildMessageJson msg)))
        (some (.raw (.test (buildMessageJson msg))))
  | raw (p : SendPc) (u : State) (next : Option SendPc)
      (hp : sendRawStep s p accepted = some (u, next)) :
      CallDo s accepted (.raw p) u (next.map .raw)
  | stopJoin (hidle : s.ws = .idle) (hready : s.ready ≠ .closing) :
      CallDo s accepted .stopJoin { s with started := false } (some .stopStore)
  | stopStore : CallDo s accepted .stopStore { s with connected := false } none

theorem callMove_do {s u : State} {pc : CallPc} {accepted : Bool} {next : Option CallPc}
    (h : callMove s pc accepted = some (u, next)) : CallDo s accepted pc u next := by
  cases pc with
  | store msg =>
    cases h
    exact .store msg
  | raw p =>
    obtain ⟨⟨v, n⟩, hp, hpair⟩ := Option.map_eq_some_iff.mp h
    cases hpair
    exact .raw p _ _ hp
  | stopJoin =>
    unfold callMove at h
    dsimp only at h
    split at h
    · rename_i hjoin
      cases h
      exact .stopJoin hjoin.1 hjoin.2
    · cases h
  | stopStore =>
    cases h
    exact .stopStore

/-- The callers when the thread `tid` goes on from `pc`, or returns. -/
def moveCaller (calls : List (Nat × CallPc)) (tid : Nat) (pc : CallPc) :
    Option CallPc → List (Nat × CallPc)
  | some pc' => (tid, pc') :: calls.erase (tid, pc)
  | none => calls.erase (tid, pc)

theorem callStep_some {s t : State} {tid : Nat} {accepted : Bool}
    (h : callStep s tid accepted = some t) : ∃ pc u next, s.calls.lookup tid = some pc ∧
      callMove s pc accepted = some (u, next) ∧
      t = { u with calls := moveCaller s.calls tid pc next } := by
  obtain ⟨pc, hpc, h⟩ := Option.bind_eq_some_iff.mp h
  obtain ⟨⟨u, next⟩, hm, h⟩ := Option.bind_eq_some_iff.mp h
  refine ⟨pc, u, next, hpc, hm, ?_⟩
  cases h
  cases next <;> rfl

/-- What a step of the socket thread can be, by the place it starts from. -/
inductive WsDo (s : State) (accepted : Bool) : State → Prop where
  | onConnected (hws : s.ws = .onConnected) :
      WsDo s accepted { s.record (.handed (presenceJson true)) with
        connected := true
        ws := .presence (.test (presenceJson true)) }
  | presence (p : SendPc) (u : State) (next : Option SendPc) (hws : s.ws = .presence p)
      (hm : sendRawStep s p accepted = some (u, next)) :
      WsDo s accepted { u with ws := next.elim .flushLock .presence }
  | flushLock (hws : s.ws = .flushLock) : WsDo s accepted { s with ws := .flushTest }
  | flushTest (hws : s.ws = .flushTest) :
      WsDo s accepted { s with ws := if s.queue.isEmpty then .idle else .flushSend }
  | flushSend (json : Bytes) (rest : List Bytes) (ready : ReadyState) (hws : s.ws = .flushSend)
      (hq : s.queue = json :: rest)
      (hw : wsSendText s json accepted = ({ s with ready := ready }, takes s json accepted)) :
      WsDo s accepted { State.record { s with ready := ready }
        (.flushed json (takes s json accepted)) with ws := .flushPop }
  | flushPop (hws : s.ws = .flushPop) :
      WsDo s accepted { s with queue := s.queue.tail, ws := .flushTest }
  | store (msg : ChatMessage) (hws : s.ws = .store msg) :
      WsDo s accepted { (storeMessage s msg).record (.handed (deliveredJson msg.id)) with
        ws := .ack (.test (deliveredJson msg.id)) }
  | ack (p : SendPc) (u : State) (next : Option SendPc) (hws : s.ws = .ack p)
      (hm : sendRawStep s p accepted = some (u, next)) :
      WsDo s accepted { u with ws := next.elim .idle .ack }

theorem wsStep_do {s t : State} {accepted : Bool} (h : wsStep s accepted = some t) :
    WsDo s accepted t := by
  unfold wsStep at h
  cases hws : s.ws with
  | idle => simp only [hws] at h; cases h
  | onConnected =>
    simp only [hws] at h
    cases h
    exact .onConnected hws
  | presence p =>
    simp only [hws] at h
    obtain ⟨⟨u, next⟩, hm, h⟩ := Option.bind_eq_some_iff.mp h
    cases h
    cases next <;> exact .presence p u _ hws hm
  | flushLock =>
    simp only [hws] at h
    cases h
    exact .flushLock hws
  | flushTest =>
    simp only [hws] at h
    cases h
    exact .flushTest hws
  | flushSend =>
    simp only [hws] at h
    split at h
    · cases h
    · rename_i json rest hq
      obtain ⟨ready, hw⟩ := wsSendText_spec s json accepted
      rw [hw] at h
      cases h
      exact .flushSend json rest ready hws hq hw
  | flushPop =>
    simp only [hws] at h
    cases h
    exact .flushPop hws
  | store msg =>
    simp only [hws] at h
    cases h
    exact .store msg hws
  | ack p =>
    simp only [hws] at h
    obtain ⟨⟨u, next⟩, hm, h⟩ := Option.bind_eq_some_iff.mp h
    cases h
    cases next <;> exact .ack p u _ hws hm

/-- What a step can be: a step of a thread, or what the environment and the calls it makes do at
    once. `closeSocket` changes `ready` at most. -/
inductive StepDo (s : State) : Act → State → Prop where
  | call (tid : Nat) (accepted : Bool) (t : State) (h : callStep s tid accepted = some t) :
      StepDo s (.call tid accepted) t
  | ws (accepted : Bool) (t : State) (h : wsStep s accepted = some t) : StepDo s (.ws accepted) t
  | connect (token userId : Bytes) :
      StepDo s (.connect token userId) { s with token := token, userId := userId, started := true }
  | disconnect (tid : Nat) (ready : ReadyState) (hout : s.calls.lookup tid = none)
      (hclose : closeSocket s = { s with ready := ready }) :
      StepDo s (.disconnect tid) { s with ready := ready, calls := (tid, .stopJoin) :: s.calls }
  | request (tid : Nat) (r : Request) (hout : s.calls.lookup tid = none) :
      StepDo s (.request tid r) (request s tid r)
  | opened (hidle : s.ws = .idle) (hready : s.ready = .closed) :
      StepDo s .opened { s with ready := .opened, ws := .onConnected }
  | closing (ready : ReadyState) (hclose : closeSocket s = { s with ready := ready }) :
      StepDo s .closing { s with ready := ready }
  | dropping (hready : s.ready ≠ .closed) (hdropping : s.dropping = false) :
      StepDo s .dropping { s with connected := false, dropping := true }
  | dropped (hdropping : s.dropping = true) :
      StepDo s .dropped { s with ready := .closed, dropping := false }
  | connectError (hidle : s.ws = .idle) (hready : s.ready = .closed) :
      StepDo s .connectError { s with connected := false }
  | message (json : Bytes) (timestamp : Int) (msg : ChatMessage) (hidle : s.ws = .idle)
      (hready : s.ready ≠ .closed) (htype : jsonGet json (ascii "type") = some (ascii "message"))
      (hmsg : decodeMessage s.userId json timestamp = some msg) :
      StepDo s (.receive json timestamp) { s with ws := .store msg }
  | passed (json : Bytes) (timestamp : Int) (type : Bytes) (hidle : s.ws = .idle)
      (hready : s.ready ≠ .closed) (htype : jsonGet json (ascii "type") = some type)
      (hne : type ≠ ascii "message") : StepDo s (.receive json timestamp) s

/-- **Every step is one of these.** -/
theorem step_do {s t : State} {a : Act} (h : step s a = some t) : StepDo s a t := by
  unfold step at h
  cases a with
  | call tid accepted => exact .call tid accepted t h
  | ws accepted => exact .ws accepted t h
  | connect token userId =>
    cases h
    exact .connect token userId
  | disconnect tid =>
    dsimp only at h
    split at h
    · cases h
    · rename_i hout
      obtain ⟨ready, hc⟩ := closeSocket_spec s
      rw [hc] at h
      cases h
      exact .disconnect tid ready (Option.not_isSome_iff_eq_none.mp hout) hc
  | request tid r =>
    dsimp only at h
    split at h
    · cases h
    · rename_i hout
      cases h
      exact .request tid r (Option.not_isSome_iff_eq_none.mp hout)
  | opened =>
    dsimp only at h
    split at h
    · rename_i hl
      cases h
      exact .opened (idle_of_listening hl.1) hl.2
    · cases h
  | closing =>
    cases h
    obtain ⟨ready, hc⟩ := closeSocket_spec s
    rw [hc]
    exact .closing ready hc
  | dropping =>
    dsimp only at h
    split at h
    · rename_i hd
      cases h
      exact .dropping hd.1 hd.2
    · cases h
  | dropped =>
    dsimp only at h
    split at h
    · rename_i hd
      cases h
      exact .dropped hd
    · cases h
  | connectError =>
    dsimp only at h
    split at h
    · rename_i hl
      cases h
      exact .connectError (idle_of_listening hl.1) hl.2
    · cases h
  | receive json timestamp =>
    dsimp only at h
    split at h
    · rename_i hl
      unfold receive at h
      obtain ⟨type, htype, h⟩ := Option.bind_eq_some_iff.mp h
      split at h
      · rename_i e
        obtain ⟨msg, hmsg, h⟩ := Option.bind_eq_some_iff.mp h
        cases h
        exact .message json timestamp msg (idle_of_listening hl.1) hl.2 (e ▸ htype) hmsg
      · rename_i hne
        cases h
        exact .passed json timestamp type (idle_of_listening hl.1) hl.2 htype hne
    · cases h

/-! ## 4. One step keeps the balance -/

/-- The frame a next place of `sendRaw` still carries. -/
def nextFrame (next : Option SendPc) : List Bytes := next.toList.map SendPc.json

/-- **One step of `sendRaw`**: it carries its frame on, or settles it. The rest of the engine is
    as before. -/
theorem sendRawStep_spec {s t : State} {p : SendPc} {accepted : Bool} {next : Option SendPc}
    (h : sendRawStep s p accepted = some (t, next)) :
    t.ws = s.ws ∧ t.calls = s.calls ∧ t.handed = s.handed ∧ t.popping = s.popping ∧
      ∀ x, t.settled x + (nextFrame next).count x = s.settled x + [p.json].count x := by
  cases p with
  | test json =>
    cases h
    refine ⟨rfl, rfl, rfl, rfl, fun x => ?_⟩
    cases s.connected <;> rfl
  | send json =>
    obtain ⟨ready, hw⟩ := wsSendText_spec s json accepted
    simp only [sendRawStep, hw] at h
    cases h
    refine ⟨rfl, rfl, ?_, rfl, fun x => settled_record (Or.inl rfl) x⟩
    rw [handed_record]
    exact List.append_nil _
  | push json =>
    unfold sendRawStep at h
    dsimp only at h
    split at h
    · rename_i hfree
      cases h
      refine ⟨rfl, rfl, ?_, ?_, fun x => ?_⟩
      · rw [handed_record]
        exact List.append_nil _
      · -- a push does not run beside `flushOfflineQueue`
        unfold State.mutexFree at hfree
        unfold State.popping State.record
        cases hws : s.ws <;> simp [hws] at hfree ⊢
      · show ({ s with queue := s.queue ++ [json] }.record (.pushed json)).settled x + 0 = _
        unfold State.settled
        rw [delivered_record, dropped_record]
        show (s.delivered ++ []).count x + (s.dropped ++ []).count x +
          (s.queue ++ [json]).count x + 0 = _
        rw [List.append_nil, List.append_nil, List.count_append]
        show _ = _ + [json].count x
        omega
    · cases h

/-- The places of the callers, with one of them taken out. -/
theorem calls_split {calls : List (Nat × CallPc)} {tid : Nat} {pc : CallPc}
    (h : calls.lookup tid = some pc) (x : Bytes) :
    (callFrames calls).count x =
      pc.frame.toList.count x + (callFrames (calls.erase (tid, pc))).count x := by
  have hmem : (tid, pc) ∈ calls := by
    obtain ⟨l1, l2, e, _⟩ := List.lookup_eq_some_iff.mp h
    rw [e]
    exact List.mem_append_right _ (List.mem_cons_self ..)
  have hperm := (List.perm_cons_erase hmem).filterMap fun c => c.2.frame
  unfold callFrames
  rw [hperm.count_eq]
  cases hf : pc.frame with
  | none => simp [hf]
  | some json =>
    simp [hf, List.count_cons]
    omega

theorem callFrames_cons (tid : Nat) (pc : CallPc) (calls : List (Nat × CallPc)) (x : Bytes) :
    (callFrames ((tid, pc) :: calls)).count x =
      pc.frame.toList.count x + (callFrames calls).count x := by
  unfold callFrames
  cases hf : pc.frame with
  | none => simp [hf]
  | some json =>
    simp [hf, List.count_cons]
    omega

/-- The balance, with the frames of the two kinds of threads apart. -/
theorem balanced_iff {s : State} : Balanced s ↔ ∀ x, s.handed.count x + s.popping.count x =
    s.settled x + s.ws.frame.toList.count x + (callFrames s.calls).count x := by
  unfold Balanced State.pending State.settled
  simp only [List.count_append, Nat.add_assoc]

/-- **One move of a caller**: it enters `sendRaw` with a frame, carries it on or settles it. -/
theorem callMove_spec {s t : State} {pc : CallPc} {accepted : Bool} {next : Option CallPc}
    (h : callMove s pc accepted = some (t, next)) :
    t.ws = s.ws ∧ t.calls = s.calls ∧ t.popping = s.popping ∧
      ∀ x, t.settled x + (next.bind CallPc.frame).toList.count x + s.handed.count x =
        s.settled x + pc.frame.toList.count x + t.handed.count x := by
  cases callMove_do h with
  | store msg =>
    refine ⟨rfl, rfl, rfl, fun x => ?_⟩
    have hs : ((storeMessage s msg).record (.handed (buildMessageJson msg))).settled x =
        s.settled x := settled_record_handed _ _ x
    rw [hs, handed_record, List.count_append]
    show _ + [buildMessageJson msg].count x + _ =
      _ + 0 + (s.handed.count x + [buildMessageJson msg].count x)
    omega
  | raw p u n hp =>
    obtain ⟨hws, hcalls, hhanded, hpop, hset⟩ := sendRawStep_spec hp
    refine ⟨hws, hcalls, hpop, fun x => ?_⟩
    have hx := hset x
    have hn : ((n.map CallPc.raw).bind CallPc.frame).toList = nextFrame n := by
      cases n <;> rfl
    rw [hn, hhanded]
    show _ = s.settled x + [p.json].count x + _
    omega
  | stopJoin hidle hready =>
    exact ⟨rfl, rfl, rfl, fun x => rfl⟩
  | stopStore =>
    exact ⟨rfl, rfl, rfl, fun x => rfl⟩

theorem callStep_balanced {s t : State} {tid : Nat} {accepted : Bool}
    (h : callStep s tid accepted = some t) (hB : Balanced s) : Balanced t := by
  obtain ⟨pc, u, next, hpc, hm, rfl⟩ := callStep_some h
  obtain ⟨hws, hcalls, hpop, hset⟩ := callMove_spec hm
  rw [balanced_iff] at hB ⊢
  intro x
  have hb := hB x
  have hx := hset x
  have hsplit := calls_split hpc x
  cases next with
  | none =>
    show u.handed.count x + u.popping.count x = u.settled x + u.ws.frame.toList.count x +
      (callFrames (s.calls.erase (tid, pc))).count x
    rw [hws, hpop]
    have h0 : u.settled x + 0 + s.handed.count x =
        s.settled x + pc.frame.toList.count x + u.handed.count x := hx
    omega
  | some pc' =>
    show u.handed.count x + u.popping.count x = u.settled x + u.ws.frame.toList.count x +
      (callFrames ((tid, pc') :: s.calls.erase (tid, pc))).count x
    rw [hws, hpop, callFrames_cons]
    have h1 : u.settled x + pc'.frame.toList.count x + s.handed.count x =
        s.settled x + pc.frame.toList.count x + u.handed.count x := hx
    omega


/-- The socket thread carries a frame through `sendRaw`, from a place and to a place outside
    `flushOfflineQueue`. -/
theorem wsRaw_balanced {s u : State} {p : SendPc} {accepted : Bool} {next : Option SendPc}
    {w : WsPc} (hm : sendRawStep s p accepted = some (u, next)) (hB : Balanced s)
    (hfrom : s.ws.frame = some p.json) (hto : w.frame.toList = nextFrame next)
    (hpop : w ≠ .flushPop) (hpop' : s.ws ≠ .flushPop) : Balanced { u with ws := w } := by
  obtain ⟨_, hcalls, hhanded, _, hset⟩ := sendRawStep_spec hm
  rw [balanced_iff] at hB ⊢
  intro x
  have hb := hB x
  have hx := hset x
  have h0 : s.popping = [] := by
    unfold State.popping
    split
    · contradiction
    · rfl
  have h1 : ({ u with ws := w } : State).popping = [] := by
    unfold State.popping
    dsimp only
    split
    · contradiction
    · rfl
  rw [h0, hfrom] at hb
  rw [h1]
  show u.handed.count x + 0 = u.settled x + w.frame.toList.count x + (callFrames u.calls).count x
  have hb' : s.handed.count x + 0 =
      s.settled x + [p.json].count x + (callFrames s.calls).count x := hb
  rw [hto, hhanded, hcalls]
  omega

theorem wsStep_balanced {s t : State} {accepted : Bool} (h : wsStep s accepted = some t)
    (hB : Balanced s) : Balanced t := by
  cases wsStep_do h with
  | onConnected hws =>
    rw [balanced_iff] at hB ⊢
    intro x
    have hb := hB x
    simp only [State.popping, hws, WsPc.frame, Option.toList, List.count_nil] at hb
    show ((s.record (.handed (presenceJson true))).handed).count x + 0 =
      (s.record (.handed (presenceJson true))).settled x + [presenceJson true].count x +
        (callFrames s.calls).count x
    rw [settled_record_handed, handed_record, List.count_append]
    show s.handed.count x + [presenceJson true].count x + 0 = _
    omega
  | presence p u next hws hm =>
    refine wsRaw_balanced hm hB (by rw [hws]; rfl) ?_ ?_ (by rw [hws]; nofun)
    · cases next <;> rfl
    · cases next <;> nofun
  | flushLock hws =>
    rw [balanced_iff] at hB ⊢
    intro x
    have hb := hB x
    simp only [State.popping, hws] at hb
    exact hb
  | flushTest hws =>
    rw [balanced_iff] at hB ⊢
    intro x
    have hb := hB x
    simp only [State.popping, hws] at hb ⊢
    cases s.queue.isEmpty <;> exact hb
  | flushSend json rest ready hws hq hw =>
    rw [balanced_iff] at hB ⊢
    intro x
    have hb := hB x
    simp only [State.popping, hws] at hb
    have hset : (State.record { s with ready := ready }
        (.flushed json (takes s json accepted))).settled x = s.settled x + [json].count x :=
      settled_record (Or.inr rfl) x
    have hhanded : (State.record { s with ready := ready }
        (.flushed json (takes s json accepted))).handed = s.handed := by
      rw [handed_record]
      exact List.append_nil _
    show ((State.record { s with ready := ready }
        (.flushed json (takes s json accepted))).handed).count x + (s.queue.take 1).count x =
      (State.record { s with ready := ready }
        (.flushed json (takes s json accepted))).settled x + 0 + (callFrames s.calls).count x
    rw [hset, hhanded, hq]
    show s.handed.count x + [json].count x = _
    have hb' : s.handed.count x + 0 = s.settled x + 0 + (callFrames s.calls).count x := hb
    omega
  | flushPop hws =>
    rw [balanced_iff] at hB ⊢
    intro x
    have hb := hB x
    simp only [State.popping, hws] at hb
    have hsplit : s.queue.count x = (s.queue.take 1).count x + s.queue.tail.count x := by
      cases s.queue with
      | nil => rfl
      | cons json rest =>
        show (json :: rest).count x = [json].count x + rest.count x
        rw [List.count_cons, List.count_singleton]
        omega
    have hb' : s.handed.count x + (s.queue.take 1).count x =
        s.delivered.count x + s.dropped.count x + s.queue.count x + 0 +
          (callFrames s.calls).count x := hb
    show s.handed.count x + 0 =
      s.delivered.count x + s.dropped.count x + s.queue.tail.count x + 0 +
        (callFrames s.calls).count x
    omega
  | store msg hws =>
    rw [balanced_iff] at hB ⊢
    intro x
    have hb := hB x
    simp only [State.popping, hws, WsPc.frame, Option.toList, List.count_nil] at hb
    have hset : ((storeMessage s msg).record (.handed (deliveredJson msg.id))).settled x =
        s.settled x := settled_record_handed _ _ x
    show (((storeMessage s msg).record (.handed (deliveredJson msg.id))).handed).count x + 0 =
      ((storeMessage s msg).record (.handed (deliveredJson msg.id))).settled x +
        [deliveredJson msg.id].count x + (callFrames s.calls).count x
    rw [hset, handed_record, List.count_append]
    show s.handed.count x + [deliveredJson msg.id].count x + 0 = _
    omega
  | ack p u next hws hm =>
    refine wsRaw_balanced hm hB (by rw [hws]; rfl) ?_ ?_ (by rw [hws]; nofun)
    · cases next <;> rfl
    · cases next <;> nofun

theorem enterRaw_balanced {s : State} {tid : Nat} {json : Bytes} (hB : Balanced s) :
    Balanced (enterRaw s tid json) := by
  rw [balanced_iff] at hB ⊢
  intro x
  have hb := hB x
  show ((s.record (.handed json)).handed).count x + s.popping.count x =
    (s.record (.handed json)).settled x + s.ws.frame.toList.count x +
      (callFrames ((tid, .raw (.test json)) :: s.calls)).count x
  rw [settled_record_handed, handed_record, List.count_append, callFrames_cons]
  show s.handed.count x + [json].count x + _ = _ + ([json].count x + _)
  omega

/-- A place outside `sendRaw` does not count. -/
theorem balanced_enter {s : State} {tid : Nat} {pc : CallPc} (hpc : pc.frame = none)
    (hB : Balanced s) : Balanced { s with calls := (tid, pc) :: s.calls } := by
  rw [balanced_iff] at hB ⊢
  intro x
  show s.handed.count x + s.popping.count x = s.settled x + s.ws.frame.toList.count x +
    (callFrames ((tid, pc) :: s.calls)).count x
  rw [callFrames_cons, hpc, hB x]
  show _ = _ + (0 + _)
  omega

theorem request_balanced {s : State} {tid : Nat} (r : Request) (hB : Balanced s) :
    Balanced (request s tid r) := by
  cases r with
  | sendText | sendMedia | sendLike => exact balanced_enter rfl hB
  | markRead | sendTypingStart | sendTypingStop | setUserOnline => exact enterRaw_balanced hB

/-- The socket thread starts a callback that is not yet inside `sendRaw`. -/
theorem balanced_callback {s : State} {w : WsPc} (ready : ReadyState) (hidle : s.ws = .idle)
    (hframe : w.frame = none) (hpop : w ≠ .flushPop) (hB : Balanced s) :
    Balanced { s with ws := w, ready := ready } := by
  rw [balanced_iff] at hB ⊢
  intro x
  have hb := hB x
  simp only [State.popping, hidle, WsPc.frame] at hb
  have hnone : ({ s with ws := w, ready := ready } : State).popping = [] := by
    unfold State.popping
    dsimp only
    split
    · contradiction
    · rfl
  rw [hnone]
  show s.handed.count x + 0 = s.settled x + w.frame.toList.count x + (callFrames s.calls).count x
  rw [hframe]
  exact hb

/-- **Every step keeps the balance.** -/
theorem step_balanced {s t : State} {a : Act} (h : step s a = some t) (hB : Balanced s) :
    Balanced t := by
  cases step_do h with
  | call tid accepted _ h => exact callStep_balanced h hB
  | ws accepted _ h => exact wsStep_balanced h hB
  | connect | closing | dropping | dropped | connectError | passed => exact hB
  | disconnect tid ready hout hclose => exact balanced_enter (s := { s with ready := ready }) rfl hB
  | request tid r hout => exact request_balanced r hB
  | opened hidle hready => exact balanced_callback .opened hidle rfl nofun hB
  | message json timestamp msg hidle hready htype hmsg =>
    exact balanced_callback s.ready hidle rfl nofun hB

theorem steps_balanced {C : State → Act → Prop} {s : State} (h : engine.Reach C s) :
    Balanced s := by
  refine Machine.Steps.invariant (I := Balanced) h (fun _ => rfl) ?_
  intro u a v hu _ hs
  exact step_balanced hs hu

/-! ## 5. When a frame is dropped -/

/-- The frame the next step of `sendRaw` hands to the socket. -/
def SendPc.sending : SendPc → Option Bytes
  | .send json => some json
  | _ => none

/-- The frame the next step of thread `tid` hands to the socket. -/
def callSends (s : State) (tid : Nat) : Option Bytes :=
  match s.calls.lookup tid with
  | some (.raw p) => p.sending
  | _ => none

/-- The frame the next step of the socket thread hands to the socket. -/
def wsSends (s : State) : Option Bytes :=
  match s.ws with
  | .presence p | .ack p => p.sending
  | .flushSend => s.queue.head?
  | _ => none

/-- **Whenever a frame is handed to the socket, the socket takes it**: it is open, the frame is
    UTF-8, and the transport accepts it. -/
def Delivered (s : State) : Act → Prop
  | .call tid accepted => ∀ json ∈ callSends s tid, takes s json accepted = true
  | .ws accepted => ∀ json ∈ wsSends s, takes s json accepted = true
  | _ => True

instance (s : State) : ∀ a : Act, Decidable (Delivered s a)
  | .call tid _ => inferInstanceAs (Decidable (∀ json ∈ callSends s tid, _))
  | .ws _ => inferInstanceAs (Decidable (∀ json ∈ wsSends s, _))
  | .connect _ _ | .disconnect _ | .request _ _ | .opened | .closing | .dropping | .dropped
  | .connectError | .receive _ _ => inferInstanceAs (Decidable True)

/-- A frame given to the socket is dropped exactly when the socket does not take it. -/
theorem record_dropped_iff {s u : State} {json : Bytes} {ok : Bool} {e : Event}
    (he : e = .sent json ok ∨ e = .flushed json ok) (hu : u.dropped = s.dropped) :
    (u.record e).dropped = [] ↔ s.dropped = [] ∧ ok = true := by
  rw [dropped_record, hu]
  rcases he with rfl | rfl <;> cases ok <;> simp [Event.droppedFrame]

theorem record_dropped_eq {s : State} {e : Event} (he : e.droppedFrame = none) :
    (s.record e).dropped = s.dropped := by
  rw [dropped_record, he]
  exact List.append_nil _

theorem sendRawStep_dropped_iff {s t : State} {p : SendPc} {accepted : Bool}
    {next : Option SendPc} (h : sendRawStep s p accepted = some (t, next)) :
    t.dropped = [] ↔ s.dropped = [] ∧ ∀ json ∈ p.sending, takes s json accepted = true := by
  cases p with
  | test json =>
    cases h
    simp [SendPc.sending]
  | send json =>
    obtain ⟨ready, hw⟩ := wsSendText_spec s json accepted
    simp only [sendRawStep, hw] at h
    cases h
    have hiff := record_dropped_iff (s := s) (u := { s with ready := ready })
      (e := .sent json (takes s json accepted)) (Or.inl rfl) rfl
    rw [hiff]
    simp [SendPc.sending]
  | push json =>
    unfold sendRawStep at h
    dsimp only at h
    split at h
    · cases h
      rw [record_dropped_eq rfl]
      simp [SendPc.sending, State.dropped]
    · cases h

theorem callStep_dropped_iff {s t : State} {tid : Nat} {accepted : Bool}
    (h : callStep s tid accepted = some t) :
    t.dropped = [] ↔ s.dropped = [] ∧ ∀ json ∈ callSends s tid, takes s json accepted = true := by
  obtain ⟨pc, u, next, hpc, hm, rfl⟩ := callStep_some h
  show u.dropped = [] ↔ _
  unfold callSends
  rw [hpc]
  cases callMove_do hm with
  | store msg =>
    rw [record_dropped_eq rfl]
    simp [storeMessage, State.dropped]
  | raw p v n hp =>
    exact sendRawStep_dropped_iff hp
  | stopJoin hidle hready =>
    simp [State.dropped]
  | stopStore =>
    simp [State.dropped]

theorem wsStep_dropped_iff {s t : State} {accepted : Bool} (h : wsStep s accepted = some t) :
    t.dropped = [] ↔ s.dropped = [] ∧ ∀ json ∈ wsSends s, takes s json accepted = true := by
  unfold wsSends
  cases wsStep_do h with
  | onConnected hws | store msg hws =>
    simp [hws, State.dropped, State.record, storeMessage, Event.droppedFrame]
  | presence p u next hws hm | ack p u next hws hm =>
    simp only [hws]
    have hiff := sendRawStep_dropped_iff hm
    exact hiff
  | flushLock hws | flushTest hws | flushPop hws => simp [hws, State.dropped]
  | flushSend json rest ready hws hq hw =>
    simp only [hws]
    have hiff := record_dropped_iff (s := s) (u := { s with ready := ready })
      (e := .flushed json (takes s json accepted)) (Or.inr rfl) rfl
    refine Iff.trans hiff (and_congr_right fun _ => ?_)
    rw [hq]
    simp

/-- **A step drops a frame exactly when it does not meet `Delivered`.** -/
theorem step_dropped_iff {s t : State} {a : Act} (h : step s a = some t) :
    t.dropped = [] ↔ s.dropped = [] ∧ Delivered s a := by
  have hsame : t.log = s.log → (t.dropped = [] ↔ s.dropped = [] ∧ True) := by
    intro e
    unfold State.dropped
    rw [e, and_true]
  cases step_do h with
  | call tid accepted _ h => exact callStep_dropped_iff h
  | ws accepted _ h => exact wsStep_dropped_iff h
  | request tid r hout =>
    cases r with
    | sendText | sendMedia | sendLike => exact hsame rfl
    | markRead | sendTypingStart | sendTypingStop | setUserOnline =>
      show (State.record s _).dropped = [] ↔ s.dropped = [] ∧ True
      rw [record_dropped_eq rfl, and_true]
  | connect | disconnect | opened | closing | dropping | dropped | connectError | message
  | passed => exact hsame rfl

/-- A run drops no frame exactly when all its sends meet a socket that takes them. -/
theorem exec_dropped_iff {acts : List Act} {s t : State} (h : engine.exec s acts = some t) :
    t.dropped = [] ↔ s.dropped = [] ∧ engine.meets Delivered s acts := by
  refine Machine.exec_iff_meets (I := fun _ => True) (Q := fun s => s.dropped = [])
    (fun _ _ _ _ _ => trivial) ?_ trivial h
  intro u a v _ hs
  exact step_dropped_iff hs

/-! ## 6. No frame is lost -/

/-- **No frame is lost**: every frame handed to `sendRaw`, as often as it was handed over, is one
    `ws.sendText` returned success for or one in `m_offlineQueue`. -/
def NoFrameLost (s : State) : Prop :=
  ∀ json, s.handed.count json ≤ s.delivered.count json + s.queue.count json

theorem balanced_quiet {s : State} (hB : Balanced s) (hq : Quiet s) (x : Bytes) :
    s.handed.count x = s.delivered.count x + s.dropped.count x + s.queue.count x := by
  have hb := hB x
  simp only [State.popping, State.pending, hq.1, hq.2, WsPc.frame, callFrames] at hb
  exact hb

theorem noFrameLost_iff_dropped {s : State} (hB : Balanced s) (hq : Quiet s) :
    NoFrameLost s ↔ s.dropped = [] := by
  constructor
  · intro h
    refine List.eq_nil_iff_forall_not_mem.mpr fun json hmem => ?_
    have hpos : 0 < s.dropped.count json := List.count_pos_iff.mpr hmem
    have hb := balanced_quiet hB hq json
    have hle := h json
    omega
  · intro h json
    have hb := balanced_quiet hB hq json
    rw [h] at hb
    have hb' : s.handed.count json = s.delivered.count json + 0 + s.queue.count json := hb
    omega

/-- **In every state without a running call, no frame is lost exactly when every send of the run
    so far met an open socket, a frame in UTF-8 and a transport that accepted it**: a frame that
    `ws.sendText` fails on is discarded, in `sendRaw` and in `flushOfflineQueue` alike, and no
    frame disappears in another way. -/
theorem noFrameLost_iff {acts : List Act} {s : State}
    (h : engine.exec State.init acts = some s) (hq : Quiet s) :
    NoFrameLost s ↔ engine.meets Delivered State.init acts := by
  have hreach : engine.Reach Machine.Any s := Machine.steps_of_exec h (Machine.meets_any _ _)
  rw [noFrameLost_iff_dropped (steps_balanced hreach) hq, exec_dropped_iff h]
  exact and_iff_right rfl

/-- The engine connects, announces itself and flushes an empty queue. -/
def connectedRun : List Act :=
  [.connect (ascii "t") (ascii "ann"), .opened, .ws true, .ws true, .ws true, .ws true, .ws true]

/-- A frame pushed while offline and flushed when the socket opens. -/
def offlineThenFlushed : List Act :=
  [.request 1 (.markRead (ascii "c1")), .call 1 true, .call 1 true] ++
    connectedRun ++ [.ws true, .ws true, .ws true]

theorem noFrameLost_flushed : ∃ s, engine.exec State.init offlineThenFlushed = some s ∧ Quiet s ∧
    s.handed = [readJson (ascii "c1"), presenceJson true] ∧ s.queue = [] ∧ NoFrameLost s := by
  have h : (engine.exec State.init offlineThenFlushed).map (fun s =>
      (decide (Quiet s), s.handed, s.queue)) =
      some (true, [readJson (ascii "c1"), presenceJson true], []) := by
    decide
  obtain ⟨s, hs, hobs⟩ := Option.map_eq_some_iff.mp h
  simp only [Prod.mk.injEq, decide_eq_true_eq] at hobs
  obtain ⟨hq, hhanded, hqueue⟩ := hobs
  exact ⟨s, hs, hq, hhanded, hqueue, (noFrameLost_iff hs hq).mpr (by decide)⟩

/-- The other side has begun to close the connection; `m_connected` is still set. -/
def sendWhileClosing : List Act :=
  connectedRun ++ [.closing, .request 1 (.markRead (ascii "c1")), .call 1 true, .call 1 true]

/-- **A frame sent between CLOSING and the Close message is gone**: `ws.sendText` returns failure,
    and the frame is neither delivered nor queued. -/
theorem frameLost_closing : ∃ s, engine.exec State.init sendWhileClosing = some s ∧ Quiet s ∧
    readJson (ascii "c1") ∈ s.handed ∧ readJson (ascii "c1") ∉ s.delivered ∧
    readJson (ascii "c1") ∉ s.queue ∧ ¬ NoFrameLost s := by
  have h : (engine.exec State.init sendWhileClosing).map (fun s =>
      (decide (Quiet s), s.handed, s.delivered, s.queue)) =
      some (true, [presenceJson true, readJson (ascii "c1")], [presenceJson true], []) := by
    decide
  obtain ⟨s, hs, hobs⟩ := Option.map_eq_some_iff.mp h
  simp only [Prod.mk.injEq, decide_eq_true_eq] at hobs
  obtain ⟨hq, hhanded, hdelivered, hqueue⟩ := hobs
  have hin : readJson (ascii "c1") ∈ s.handed := by
    rw [hhanded]
    decide
  have hout : readJson (ascii "c1") ∉ s.delivered := by
    rw [hdelivered]
    decide
  have hqueue' : readJson (ascii "c1") ∉ s.queue := by
    rw [hqueue]
    exact List.not_mem_nil
  refine ⟨s, hs, hq, hin, hout, hqueue', fun hlost => ?_⟩
  have hle := hlost (readJson (ascii "c1"))
  rw [List.count_eq_zero.mpr hout, List.count_eq_zero.mpr hqueue'] at hle
  have hpos := List.count_pos_iff.mpr hin
  omega

end Viral.Chat
