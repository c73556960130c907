/-
  File:      ViralEngine/Chat/HandOff.lean
  Subject:   WHO HANDS WHICH FRAME TO THE SOCKET, AND WHEN

  Every call of `sendRaw` gets a number here, so that two calls with the same text are two calls.
  `Trace` keeps who made each call and with which frame, which calls wait in `m_offlineQueue` and
  which frames went to `ws.sendText`, in order; the engine does not know of it (`traced`).

  * `Thread`, `Trace`, `note`, `traced` -- the history beside the engine;
  * `Effect`, `step_effect` -- what one step does to the senders, the queue and the log;
  * `Ledger`, `effect_ledger` -- the frames sent or pushed are those handed over and those waiting;
  * `TraceOk`, `step_traceOk` -- a call is running, waiting or handed over, and only one of these;
  * `exactlyOnce` -- with the mutex free, the frames sent or pushed are those handed over and those
    in the queue, the queue in order, no call twice.
-/
import ViralEngine.Chat.Delivery

namespace Viral.Chat

open Viral.Lib

/-! ## 1. Senders -/

/-- A thread that calls `sendRaw`. -/
inductive Thread where
  | app (tid : Nat)
  | socket
  deriving DecidableEq, Repr

/-- The thread of a step; the steps of the network call nothing. -/
def Act.thread : Act → Thread
  | .request tid _ | .call tid _ | .disconnect tid => .app tid
  | _ => .socket

/-- A step of a thread that is inside a call. -/
def Act.inside : Act → Bool
  | .call _ _ | .ws _ => true
  | _ => false

/-- Where a thread is in `sendRaw`. -/
def rawAt (s : State) : Thread → Option SendPc
  | .app tid =>
    match s.calls.lookup tid with
    | some (.raw p) => some p
    | _ => none
  | .socket =>
    match s.ws with
    | .presence p | .ack p => some p
    | _ => none

/-- The frame a thread carries through `sendRaw`. -/
def frameAt (s : State) (th : Thread) : Option Bytes := (rawAt s th).map SendPc.json

/-- The frames of the queue that are not handed over yet. -/
def State.waiting (s : State) : List Bytes :=
  match s.ws with
  | .flushPop => s.queue.tail
  | _ => s.queue

/-- The frame the thread carries is now `f`, all the others are where they were. -/
def Carries (s t : State) (th : Thread) (f : Option Bytes) : Prop :=
  frameAt t th = f ∧ ∀ th', th' ≠ th → frameAt t th' = frameAt s th'

/-- **What one step does**: nothing that concerns a sender; enter `sendRaw`; leave it with a send
    or with a push; or hand over the front of the queue. -/
inductive Effect (s : State) (a : Act) (t : State) : Prop where
  | silent (hlog : t.log = s.log) (hwaiting : t.waiting = s.waiting)
      (hframes : ∀ th, frameAt t th = frameAt s th)
  | handed (json : Bytes) (hlog : t.log = s.log ++ [.handed json])
      (hwaiting : t.waiting = s.waiting) (hfree : frameAt s a.thread = none)
      (hframes : Carries s t a.thread (some json))
  | sent (json : Bytes) (ok : Bool) (hact : a.inside = true)
      (hlog : t.log = s.log ++ [.sent json ok])
      (hwaiting : t.waiting = s.waiting) (hat : rawAt s a.thread = some (.send json))
      (hframes : Carries s t a.thread none)
  | pushed (json : Bytes) (hlog : t.log = s.log ++ [.pushed json])
      (hwaiting : t.waiting = s.waiting ++ [json]) (hat : rawAt s a.thread = some (.push json))
      (hframes : Carries s t a.thread none)
  | flushed (json : Bytes) (ok : Bool) (hlog : t.log = s.log ++ [.flushed json ok])
      (hwaiting : s.waiting = json :: t.waiting) (hframes : ∀ th, frameAt t th = frameAt s th)

/-- The callers are different threads. -/
def Callers (s : State) : Prop := (s.calls.map Prod.fst).Nodup

/-! ## 2. The list of callers -/

section Lookup

variable {calls : List (Nat × CallPc)} {tid tid' : Nat} {pc pc' : CallPc}

theorem lookup_cons_self : List.lookup tid ((tid, pc) :: calls) = some pc := by
  rw [List.lookup_cons, beq_self_eq_true]

theorem lookup_cons_other (h : tid' ≠ tid) :
    List.lookup tid' ((tid, pc) :: calls) = calls.lookup tid' := by
  rw [List.lookup_cons, beq_false_of_ne h]

theorem lookup_erase_other (h : tid' ≠ tid) :
    (calls.erase (tid, pc)).lookup tid' = calls.lookup tid' := by
  induction calls with
  | nil => rfl
  | cons c calls ih =>
    obtain ⟨k, q⟩ := c
    rw [List.erase_cons]
    split
    · rename_i e
      obtain ⟨rfl, rfl⟩ := Prod.mk.inj (eq_of_beq e)
      rw [lookup_cons_other h]
    · rw [List.lookup_cons, List.lookup_cons, ih]

theorem mem_of_lookup (h : calls.lookup tid = some pc) : (tid, pc) ∈ calls := by
  obtain ⟨l, l', e, _⟩ := List.lookup_eq_some_iff.mp h
  rw [e]
  exact List.mem_append_right _ List.mem_cons_self

/-- With different callers, the one that is taken out is gone. -/
theorem lookup_erase_self (hn : (calls.map Prod.fst).Nodup) (h : calls.lookup tid = some pc) :
    (calls.erase (tid, pc)).lookup tid = none := by
  rw [List.lookup_eq_none_iff]
  rintro ⟨k, q⟩ hq
  have hperm := List.perm_cons_erase (mem_of_lookup h)
  have hn' : (((tid, pc) :: calls.erase (tid, pc)).map Prod.fst).Nodup :=
    (hperm.map Prod.fst).nodup_iff.mp hn
  have hnot : tid ∉ (calls.erase (tid, pc)).map Prod.fst := (List.nodup_cons.mp hn').1
  rw [bne_iff_ne]
  rintro rfl
  exact hnot (List.mem_map_of_mem (f := Prod.fst) hq)

theorem nodup_erase (hn : (calls.map Prod.fst).Nodup) :
    ((calls.erase (tid, pc)).map Prod.fst).Nodup :=
  hn.sublist (List.erase_sublist.map Prod.fst)

/-- A caller that goes on, or is new, keeps the callers apart. -/
theorem nodup_cons (hn : (calls.map Prod.fst).Nodup) (h : calls.lookup tid = none) :
    (((tid, pc) :: calls).map Prod.fst).Nodup := by
  refine List.nodup_cons.mpr ⟨?_, hn⟩
  intro hmem
  obtain ⟨⟨k, q⟩, hq, rfl⟩ := List.mem_map.mp hmem
  have hne := List.lookup_eq_none_iff.mp h _ hq
  exact (bne_iff_ne.mp hne) rfl

end Lookup

theorem frameAt_app (s : State) (tid : Nat) :
    frameAt s (.app tid) = (s.calls.lookup tid).bind CallPc.frame := by
  show Option.map SendPc.json (match s.calls.lookup tid with
    | some (.raw p) => some p
    | _ => none) = _
  rcases s.calls.lookup tid with _ | pc
  · rfl
  · cases pc <;> rfl

theorem frameAt_socket (s : State) : frameAt s .socket = s.ws.frame := by
  show Option.map SendPc.json (match s.ws with
    | .presence p | .ack p => some p
    | _ => none) = _
  cases s.ws <;> rfl

/-- A step of an application thread leaves the frames of the others. -/
theorem carries_app {s t : State} {tid : Nat} {f : Option Bytes} (hws : t.ws = s.ws)
    (hself : frameAt t (.app tid) = f)
    (hother : ∀ tid', tid' ≠ tid → t.calls.lookup tid' = s.calls.lookup tid') :
    Carries s t (.app tid) f := by
  refine ⟨hself, fun th hth => ?_⟩
  cases th with
  | app tid' =>
    have hne : tid' ≠ tid := fun e => hth (e ▸ rfl)
    rw [frameAt_app, frameAt_app, hother tid' hne]
  | socket => rw [frameAt_socket, frameAt_socket, hws]

theorem carries_socket {s t : State} {f : Option Bytes} (hself : frameAt t .socket = f)
    (hcalls : t.calls = s.calls) : Carries s t .socket f := by
  refine ⟨hself, fun th hth => ?_⟩
  cases th with
  | app tid => rw [frameAt_app, frameAt_app, hcalls]
  | socket => exact absurd rfl hth

theorem Carries.same {s t : State} (th : Thread) (h : Carries s t th (frameAt s th))
    (th' : Thread) : frameAt t th' = frameAt s th' := by
  by_cases e : th' = th
  · rw [e]
    exact h.1
  · exact h.2 th' e

theorem waiting_free {s : State} (h : s.mutexFree = true) : s.waiting = s.queue := by
  unfold State.mutexFree at h
  unfold State.waiting
  cases hws : s.ws <;> simp [hws] at h ⊢

theorem mutexFree_congr {s t : State} (h : t.ws = s.ws) : t.mutexFree = s.mutexFree := by
  unfold State.mutexFree
  rw [h]

theorem waiting_congr {s t : State} (hws : t.ws = s.ws) (hq : t.queue = s.queue) :
    t.waiting = s.waiting := by
  unfold State.waiting
  rw [hws, hq]

/-! ## 3. One step -/

/-- **One step of `sendRaw`**: it goes on with its frame, or leaves with a send or a push. -/
inductive RawMove (s : State) : SendPc → State → Option SendPc → Prop where
  | tested (json : Bytes) (next : SendPc)
      (hnext : next = if s.connected then .send json else .push json) :
      RawMove s (.test json) s (some next)
  | sent (json : Bytes) (ok : Bool) (u : State) (hws : u.ws = s.ws) (hcalls : u.calls = s.calls)
      (hconnected : u.connected = s.connected) (hqueue : u.queue = s.queue)
      (hlog : u.log = s.log ++ [.sent json ok]) : RawMove s (.send json) u none
  | pushed (json : Bytes) (hfree : s.mutexFree = true) (u : State) (hws : u.ws = s.ws)
      (hcalls : u.calls = s.calls) (hconnected : u.connected = s.connected)
      (hqueue : u.queue = s.queue ++ [json]) (hlog : u.log = s.log ++ [.pushed json]) :
      RawMove s (.push json) u none

/-- The test of `m_connected` keeps the frame. -/
theorem tested_json {s : State} {json : Bytes} {next : SendPc}
    (h : next = if s.connected then .send json else .push json) : next.json = json := by
  rw [h]
  cases s.connected <;> rfl

theorem sendRawStep_move {s u : State} {p : SendPc} {accepted : Bool} {next : Option SendPc}
    (h : sendRawStep s p accepted = some (u, next)) : RawMove s p u next := by
  cases p with
  | test json =>
    cases h
    exact .tested json _ rfl
  | send json =>
    obtain ⟨ready, hw⟩ := wsSendText_spec s json accepted
    simp only [sendRawStep, hw] at h
    cases h
    exact .sent json _ _ rfl rfl rfl rfl rfl
  | push json =>
    unfold sendRawStep at h
    dsimp only at h
    split at h
    · rename_i hfree
      cases h
      exact .pushed json hfree _ rfl rfl rfl rfl rfl
    · cases h

section MoveCaller

variable {calls : List (Nat × CallPc)} {tid tid' : Nat} {pc : CallPc}

theorem moveCaller_self (hn : (calls.map Prod.fst).Nodup) (h : calls.lookup tid = some pc)
    (next : Option CallPc) : (moveCaller calls tid pc next).lookup tid = next := by
  cases next with
  | none => exact lookup_erase_self hn h
  | some pc' => exact lookup_cons_self

theorem moveCaller_other (h : tid' ≠ tid) (next : Option CallPc) :
    (moveCaller calls tid pc next).lookup tid' = calls.lookup tid' := by
  cases next with
  | none => exact lookup_erase_other h
  | some pc' =>
    show List.lookup tid' ((tid, pc') :: calls.erase (tid, pc)) = _
    rw [lookup_cons_other h, lookup_erase_other h]

theorem moveCaller_nodup (hn : (calls.map Prod.fst).Nodup) (h : calls.lookup tid = some pc)
    (next : Option CallPc) : ((moveCaller calls tid pc next).map Prod.fst).Nodup := by
  cases next with
  | none => exact nodup_erase hn
  | some pc' => exact nodup_cons (nodup_erase hn) (lookup_erase_self hn h)

end MoveCaller

/-- The frames when a caller goes on and nothing else moves. -/
theorem carries_moved {s u : State} {tid : Nat} {pc : CallPc} (hn : Callers s)
    (hpc : s.calls.lookup tid = some pc) (hws : u.ws = s.ws) (next : Option CallPc) :
    Carries s { u with calls := moveCaller s.calls tid pc next } (.app tid)
      (next.bind CallPc.frame) := by
  refine carries_app hws ?_ fun tid' h => moveCaller_other h next
  rw [frameAt_app]
  exact congrArg (Option.bind · CallPc.frame) (moveCaller_self hn hpc next)

theorem callStep_effect {s t : State} {tid : Nat} {accepted : Bool} (hn : Callers s)
    (h : callStep s tid accepted = some t) : Effect s (.call tid accepted) t := by
  obtain ⟨pc, u, next, hpc, hm, rfl⟩ := callStep_some h
  have hframe : frameAt s (.app tid) = pc.frame := by
    rw [frameAt_app, hpc]
    rfl
  cases callMove_do hm with
  | store msg =>
    exact .handed (buildMessageJson msg) rfl rfl hframe (carries_moved hn hpc rfl _)
  | raw p v n hp =>
    have hat : rawAt s (.app tid) = some p := by
      unfold rawAt
      simp only [hpc]
    have hmove := sendRawStep_move hp
    cases hmove with
    | tested json next hnext =>
      refine .silent rfl rfl (Carries.same (.app tid) ?_)
      rw [hframe]
      have hc := carries_moved (u := s) hn hpc rfl (some (.raw next))
      rw [show ((some (CallPc.raw next)).bind CallPc.frame) = some json from
        congrArg some (tested_json hnext)] at hc
      exact hc
    | sent json ok v hws hcalls _ hqueue hlog =>
      exact .sent json ok rfl hlog (waiting_congr hws hqueue) hat (carries_moved hn hpc hws _)
    | pushed json hfree v hws hcalls _ hqueue hlog =>
      refine .pushed json hlog ?_ hat (carries_moved hn hpc hws _)
      rw [waiting_free hfree, ← hqueue]
      exact waiting_free ((mutexFree_congr hws).trans hfree)
  | stopJoin hidle hready =>
    refine .silent rfl rfl (Carries.same (.app tid) ?_)
    rw [hframe]
    exact carries_moved (u := { s with started := false }) hn hpc rfl (some .stopStore)
  | stopStore =>
    refine .silent rfl rfl (Carries.same (.app tid) ?_)
    rw [hframe]
    exact carries_moved (u := { s with connected := false }) hn hpc rfl none

/-- One step of the socket thread in `sendRaw`, from a place and to a place outside
    `flushOfflineQueue`. -/
theorem wsRaw_effect {s u : State} {p : SendPc} {accepted b : Bool} {next : Option SendPc}
    {w : WsPc} (h : sendRawStep s p accepted = some (u, next)) (hat : rawAt s .socket = some p)
    (hwaiting : s.waiting = s.queue) (hto : w.frame = next.map SendPc.json)
    (hwaiting' : ({ u with ws := w } : State).waiting = u.queue) :
    Effect s (.ws b) { u with ws := w } := by
  have hframe : frameAt s .socket = some p.json := by
    unfold frameAt
    rw [hat]
    rfl
  have hcarries : u.calls = s.calls →
      Carries s { u with ws := w } .socket (next.map SendPc.json) := by
    intro hcalls
    refine carries_socket ?_ hcalls
    rw [frameAt_socket]
    exact hto
  cases sendRawStep_move h with
  | tested json next hnext =>
    refine .silent rfl (hwaiting'.trans hwaiting.symm) (Carries.same .socket ?_)
    rw [hframe, show (SendPc.test json).json = json from rfl, ← tested_json hnext]
    exact hcarries rfl
  | sent json ok v hws hcalls _ hqueue hlog =>
    refine .sent json ok rfl hlog ?_ hat (hcarries hcalls)
    rw [hwaiting', hqueue, hwaiting]
  | pushed json hfree v hws hcalls _ hqueue hlog =>
    refine .pushed json hlog ?_ hat (hcarries hcalls)
    rw [hwaiting', hqueue, hwaiting]

theorem wsStep_effect {s t : State} {accepted : Bool} (h : wsStep s accepted = some t) :
    Effect s (.ws accepted) t := by
  have hsilent : t.log = s.log → t.waiting = s.waiting → t.calls = s.calls →
      t.ws.frame = s.ws.frame → Effect s (.ws accepted) t := by
    intro hlog hwaiting hcalls hframe
    refine .silent hlog hwaiting (Carries.same .socket (carries_socket ?_ hcalls))
    rw [frameAt_socket, frameAt_socket, hframe]
  cases wsStep_do h with
  | onConnected hws | store msg hws =>
    refine .handed _ rfl ?_ ?_ (carries_socket rfl rfl)
    · simp only [State.waiting, hws]
      rfl
    · show frameAt s .socket = none
      rw [frameAt_socket, hws]
      rfl
  | presence p u next hws hm | ack p u next hws hm =>
    refine wsRaw_effect hm ?_ ?_ ?_ ?_
    · unfold rawAt
      simp only [hws]
    · simp only [State.waiting, hws]
    · cases next <;> rfl
    · cases next <;> rfl
  | flushLock hws =>
    refine hsilent rfl ?_ rfl ?_
    · simp only [State.waiting, hws]
    · rw [hws]
      rfl
  | flushTest hws =>
    refine hsilent rfl ?_ rfl ?_
    · simp only [State.waiting, hws]
      cases s.queue.isEmpty <;> rfl
    · rw [hws]
      dsimp only
      cases s.queue.isEmpty <;> rfl
  | flushSend json rest ready hws hq hw =>
    refine .flushed json _ rfl ?_ (Carries.same .socket (carries_socket ?_ rfl))
    · simp only [State.waiting, hws, State.record]
      rw [hq]
      rfl
    · rw [frameAt_socket, frameAt_socket, hws]
      rfl
  | flushPop hws =>
    refine hsilent rfl ?_ rfl ?_
    · simp only [State.waiting, hws]
    · rw [hws]
      rfl

/-- A thread that was not inside enters a call. -/
theorem carries_enter {s u : State} {tid : Nat} (pc : CallPc) (hws : u.ws = s.ws)
    (hcalls : u.calls = (tid, pc) :: s.calls) : Carries s u (.app tid) pc.frame := by
  refine carries_app hws ?_ fun tid' h => ?_
  · rw [frameAt_app, hcalls, lookup_cons_self]
    rfl
  · rw [hcalls, lookup_cons_other h]

theorem frameAt_outside {s : State} {tid : Nat} (h : s.calls.lookup tid = none) :
    frameAt s (.app tid) = none := by
  rw [frameAt_app, h]
  rfl

theorem request_effect {s : State} {tid : Nat} (r : Request) (hout : s.calls.lookup tid = none) :
    Effect s (.request tid r) (request s tid r) := by
  have hfree := frameAt_outside hout
  cases r with
  | sendText | sendMedia | sendLike =>
    refine .silent rfl rfl (Carries.same (.app tid) ?_)
    rw [hfree]
    exact carries_enter (.store _) rfl rfl
  | markRead | sendTypingStart | sendTypingStop | setUserOnline =>
    exact .handed _ rfl rfl hfree (carries_enter (.raw (.test _)) rfl rfl)

/-- **What a step does.** -/
theorem step_effect {s t : State} {a : Act} (hn : Callers s) (h : step s a = some t) :
    Effect s a t := by
  have hsame : t.log = s.log → t.ws = s.ws → t.queue = s.queue → t.calls = s.calls →
      Effect s a t := by
    intro hlog hws hqueue hcalls
    refine .silent hlog (waiting_congr hws hqueue) fun th => ?_
    cases th with
    | app tid => rw [frameAt_app, frameAt_app, hcalls]
    | socket => rw [frameAt_socket, frameAt_socket, hws]
  -- a callback begins at a place outside `sendRaw`
  have hbegin : t.log = s.log → s.ws = .idle → t.ws.frame = none → t.waiting = t.queue →
      t.queue = s.queue → t.calls = s.calls → Effect s a t := by
    intro hlog hidle hframe hwaiting hqueue hcalls
    refine .silent hlog ?_ fun th => ?_
    · rw [hwaiting, hqueue]
      unfold State.waiting
      rw [hidle]
    · cases th with
      | app tid => rw [frameAt_app, frameAt_app, hcalls]
      | socket =>
        rw [frameAt_socket, frameAt_socket, hidle]
        exact hframe
  cases step_do h with
  | call tid accepted _ h => exact callStep_effect hn h
  | ws accepted _ h => exact wsStep_effect h
  | disconnect tid ready hout hclose =>
    refine .silent rfl rfl (Carries.same (.app tid) ?_)
    rw [frameAt_outside hout]
    exact carries_enter .stopJoin rfl rfl
  | request tid r hout => exact request_effect r hout
  | opened hidle hready => exact hbegin rfl hidle rfl rfl rfl rfl
  | message json timestamp msg hidle hready htype hmsg => exact hbegin rfl hidle rfl rfl rfl rfl
  | connect | closing | dropping | dropped | connectError | passed => exact hsame rfl rfl rfl rfl

/-! ## 4. The ledger of the log -/

/-- A frame whose call of `sendRaw` has made its send or its push. -/
def Event.performedFrame : Event → Option Bytes
  | .sent json _ | .pushed json => some json
  | _ => none

/-- A frame given to `ws.sendText`. -/
def Event.givenFrame : Event → Option Bytes
  | .sent json _ | .flushed json _ => some json
  | _ => none

/-- A frame that was pushed. -/
def Event.pushedFrame : Event → Option Bytes
  | .pushed json => some json
  | _ => none

/-- A frame that was flushed. -/
def Event.flushedFrame : Event → Option Bytes
  | .flushed json _ => some json
  | _ => none

/-- The frames whose `sendRaw` was performed, in their order. -/
def State.performed (s : State) : List Bytes := s.log.filterMap Event.performedFrame

/-- The frames given to the socket, in their order. -/
def State.given (s : State) : List Bytes := s.log.filterMap Event.givenFrame

/-- The frames pushed, in their order. -/
def State.pushed (s : State) : List Bytes := s.log.filterMap Event.pushedFrame

/-- The frames flushed, in their order. -/
def State.flushed (s : State) : List Bytes := s.log.filterMap Event.flushedFrame

/-- **The frames sent or pushed are those handed over and those waiting**, and the queue is first
    in, first out. -/
structure Ledger (s : State) : Prop where
  performed : s.performed.Perm (s.given ++ s.waiting)
  fifo : s.pushed = s.flushed ++ s.waiting

/-- A history behind one more entry of the log. -/
theorem filterMap_log {s t : State} {e : Event} (f : Event → Option Bytes)
    (h : t.log = s.log ++ [e]) : t.log.filterMap f = s.log.filterMap f ++ (f e).toList := by
  rw [h, List.filterMap_append]
  cases he : f e with
  | none => simp [he]
  | some json => simp [he]

theorem effect_ledger {s t : State} {a : Act} (h : Effect s a t) (hL : Ledger s) : Ledger t := by
  obtain ⟨hperf, hfifo⟩ := hL
  cases h with
  | silent hlog hwaiting hframes =>
    constructor
    · unfold State.performed State.given
      rw [hlog, hwaiting]
      exact hperf
    · unfold State.pushed State.flushed
      rw [hlog, hwaiting]
      exact hfifo
  | handed json hlog hwaiting hfree hframes =>
    constructor
    · unfold State.performed State.given
      rw [filterMap_log _ hlog, filterMap_log _ hlog, hwaiting]
      show (s.performed ++ []).Perm (s.given ++ [] ++ s.waiting)
      rw [List.append_nil, List.append_nil]
      exact hperf
    · unfold State.pushed State.flushed
      rw [filterMap_log _ hlog, filterMap_log _ hlog, hwaiting]
      show s.pushed ++ [] = s.flushed ++ [] ++ s.waiting
      rw [List.append_nil, List.append_nil, hfifo]
  | sent json ok hact hlog hwaiting hat hframes =>
    constructor
    · unfold State.performed State.given
      rw [filterMap_log _ hlog, filterMap_log _ hlog, hwaiting]
      show (s.performed ++ [json]).Perm (s.given ++ [json] ++ s.waiting)
      refine (hperf.append_right [json]).trans ?_
      rw [List.append_assoc, List.append_assoc]
      exact List.perm_append_comm.append_left _
    · unfold State.pushed State.flushed
      rw [filterMap_log _ hlog, filterMap_log _ hlog, hwaiting]
      show s.pushed ++ [] = s.flushed ++ [] ++ s.waiting
      rw [List.append_nil, List.append_nil, hfifo]
  | pushed json hlog hwaiting hat hframes =>
    constructor
    · unfold State.performed State.given
      rw [filterMap_log _ hlog, filterMap_log _ hlog, hwaiting]
      show (s.performed ++ [json]).Perm (s.given ++ [] ++ (s.waiting ++ [json]))
      rw [List.append_nil, ← List.append_assoc]
      exact hperf.append_right [json]
    · unfold State.pushed State.flushed
      rw [filterMap_log _ hlog, filterMap_log _ hlog, hwaiting]
      show s.pushed ++ [json] = s.flushed ++ [] ++ (s.waiting ++ [json])
      rw [List.append_nil, hfifo, List.append_assoc]
  | flushed json ok hlog hwaiting hframes =>
    rw [hwaiting] at hperf hfifo
    constructor
    · unfold State.performed State.given
      rw [filterMap_log _ hlog, filterMap_log _ hlog]
      show (s.performed ++ []).Perm (s.given ++ [json] ++ t.waiting)
      rw [List.append_nil, List.append_assoc]
      exact hperf
    · unfold State.pushed State.flushed
      rw [filterMap_log _ hlog, filterMap_log _ hlog]
      show s.pushed ++ [] = s.flushed ++ [json] ++ t.waiting
      rw [List.append_nil, hfifo, List.append_assoc]
      rfl

/-! ## 5. The calls, one by one -/

/-- Who called `sendRaw` with what; the call each thread is in; the calls whose frames wait in the
    queue; the calls whose frames were handed over, in this order. -/
structure Trace where
  calls : List (Thread × Bytes)
  running : Thread → Option Nat
  waiting : List Nat
  given : List Nat

namespace Trace

/-- No call yet. -/
def init : Trace := ⟨[], fun _ => none, [], []⟩

/-- The thread of a call. -/
def caller (g : Trace) (i : Nat) : Option Thread := g.calls[i]?.map Prod.fst

/-- The frame of a call. -/
def frame (g : Trace) (i : Nat) : Option Bytes := g.calls[i]?.map Prod.snd

/-- The thread is now in the call `r`. -/
def setRunning (g : Trace) (th : Thread) (r : Option Nat) : Thread → Option Nat :=
  fun x => if x = th then r else g.running x

/-- One entry of the log, written by a thread. -/
def add (g : Trace) (th : Thread) : Event → Trace
  | .handed json =>
    { g with
      calls := g.calls ++ [(th, json)]
      running := g.setRunning th (some g.calls.length) }
  | .sent _ _ =>
    { g with given := g.given ++ (g.running th).toList, running := g.setRunning th none }
  | .pushed _ =>
    { g with waiting := g.waiting ++ (g.running th).toList, running := g.setRunning th none }
  | .flushed _ _ => { g with given := g.given ++ g.waiting.take 1, waiting := g.waiting.tail }

end Trace

/-- The history behind a step: what the step wrote to the log. -/
def note (g : Trace) (s : State) (a : Act) (t : State) : Trace :=
  (t.log.drop s.log.length).foldl (fun g e => g.add a.thread e) g

/-- The engine with the history of its calls. -/
def traced : Machine (State × Trace) Act := engine.watch Trace.init note

theorem note_eq {g : Trace} {s t : State} {a : Act} {es : List Event}
    (h : t.log = s.log ++ es) : note g s a t = es.foldl (fun g e => g.add a.thread e) g := by
  unfold note
  rw [h, List.drop_left]

/-- **What holds of the calls**: the thread inside `sendRaw` is in its last call; the waiting and
    the given calls are different, known and not running, and with the running ones all there are;
    their frames are those of the queue and of the log; the waiting calls of a thread are in
    order. -/
structure TraceOk (s : State) (g : Trace) : Prop where
  callers : Callers s
  frames : ∀ th, frameAt s th = (g.running th).bind g.frame
  runner : ∀ th i, g.running th = some i → g.caller i = some th
  latest : ∀ th i j, g.running th = some j → g.caller i = some th → i ≤ j
  apart : ∀ th i, g.running th = some i → i ∉ g.given ++ g.waiting
  once : (g.given ++ g.waiting).Nodup
  known : ∀ i ∈ g.given ++ g.waiting, i < g.calls.length
  covered : ∀ i < g.calls.length, i ∈ g.given ++ g.waiting ∨ ∃ th, g.running th = some i
  queued : g.waiting.map g.frame = s.waiting.map some
  handedOver : g.given.map g.frame = s.given.map some
  sorted : g.waiting.Pairwise fun i j => g.caller i = g.caller j → i < j

theorem lt_of_caller {g : Trace} {i : Nat} {th : Thread} (h : g.caller i = some th) :
    i < g.calls.length := by
  obtain ⟨p, hp, _⟩ := Option.map_eq_some_iff.mp h
  exact (List.getElem?_eq_some_iff.mp hp).1

theorem caller_of_lt {g : Trace} {i : Nat} (h : i < g.calls.length) :
    ∃ th, g.caller i = some th := by
  unfold Trace.caller
  rw [List.getElem?_eq_getElem h]
  exact ⟨_, rfl⟩

theorem frame_of_lt {g : Trace} {i : Nat} (h : i < g.calls.length) :
    ∃ json, g.frame i = some json := by
  unfold Trace.frame
  rw [List.getElem?_eq_getElem h]
  exact ⟨_, rfl⟩

section Kept

variable {s t : State} {g : Trace} {th : Thread} {json : Bytes}

/-- A thread outside `sendRaw` is in no call. -/
theorem TraceOk.not_running (h : TraceOk s g) (hout : frameAt s th = none) :
    g.running th = none := by
  cases hr : g.running th with
  | none => rfl
  | some i =>
    obtain ⟨json, hj⟩ := frame_of_lt (lt_of_caller (h.runner th i hr))
    have hf := h.frames th
    rw [hout, hr] at hf
    rw [show (some i).bind g.frame = g.frame i from rfl, hj] at hf
    cases hf

/-- A thread inside `sendRaw` is in a call with its frame. -/
theorem TraceOk.is_running (h : TraceOk s g) (hin : frameAt s th = some json) :
    ∃ i, g.running th = some i ∧ g.frame i = some json := by
  have hf := h.frames th
  rw [hin] at hf
  obtain ⟨i, hi, hj⟩ := Option.bind_eq_some_iff.mp hf.symm
  exact ⟨i, hi, hj⟩

/-- Different threads are in different calls. -/
theorem TraceOk.running_ne (h : TraceOk s g) {th' : Thread} {i j : Nat} (hne : th' ≠ th)
    (hi : g.running th = some i) (hj : g.running th' = some j) : j ≠ i := by
  rintro rfl
  have e := (h.runner th j hi).symm.trans (h.runner th' j hj)
  exact hne (Option.some.inj e).symm

theorem traceOk_silent (h : TraceOk s g) (hn : Callers t) (hlog : t.log = s.log)
    (hwaiting : t.waiting = s.waiting) (hframes : ∀ th, frameAt t th = frameAt s th) :
    TraceOk t g :=
  { h with
    callers := hn
    frames := fun th => (hframes th).trans (h.frames th)
    queued := by rw [hwaiting]; exact h.queued
    handedOver := by
      unfold State.given
      rw [hlog]
      exact h.handedOver }

theorem traceOk_handed (h : TraceOk s g) (hn : Callers t) (hlog : t.log = s.log ++ [.handed json])
    (hwaiting : t.waiting = s.waiting) (hfree : frameAt s th = none)
    (hframes : Carries s t th (some json)) : TraceOk t (g.add th (.handed json)) := by
  have hnone := h.not_running hfree
  -- the calls made before keep their callers and frames
  have hold : ∀ i < g.calls.length, (g.calls ++ [(th, json)])[i]? = g.calls[i]? :=
    fun i hi => List.getElem?_append_left hi
  have hcaller : ∀ i < g.calls.length, (g.add th (.handed json)).caller i = g.caller i :=
    fun i hi => congrArg (Option.map Prod.fst) (hold i hi)
  have hframe : ∀ i < g.calls.length, (g.add th (.handed json)).frame i = g.frame i :=
    fun i hi => congrArg (Option.map Prod.snd) (hold i hi)
  have hnew : (g.calls ++ [(th, json)])[g.calls.length]? = some (th, json) := by
    rw [List.getElem?_append_right (Nat.le_refl _), Nat.sub_self]
    rfl
  have hself : (g.add th (.handed json)).running th = some g.calls.length := if_pos rfl
  have hother : ∀ th' ≠ th, (g.add th (.handed json)).running th' = g.running th' :=
    fun th' hne => if_neg hne
  have hlength : (g.add th (.handed json)).calls.length = g.calls.length + 1 :=
    List.length_append
  refine
    { callers := hn
      frames := fun th' => ?_
      runner := fun th' i hi => ?_
      latest := fun th' i j hj hi => ?_
      apart := fun th' i hi hmem => ?_
      once := h.once
      known := fun i hi => ?_
      covered := fun i hi => ?_
      queued := ?_
      handedOver := ?_
      sorted := ?_ }
  · by_cases e : th' = th
    · rw [e, hframes.1, hself]
      exact (congrArg (Option.map Prod.snd) hnew).symm
    · rw [hframes.2 th' e, hother th' e, h.frames th']
      cases hr : g.running th' with
      | none => rfl
      | some i => exact (hframe i (lt_of_caller (h.runner th' i hr))).symm
  · by_cases e : th' = th
    · rw [e, hself] at hi
      obtain rfl := Option.some.inj hi
      rw [e]
      exact congrArg (Option.map Prod.fst) hnew
    · rw [hother th' e] at hi
      rw [hcaller i (lt_of_caller (h.runner th' i hi))]
      exact h.runner th' i hi
  · have hlt := lt_of_caller hi
    by_cases e : th' = th
    · rw [e, hself] at hj
      obtain rfl := Option.some.inj hj
      omega
    · rw [hother th' e] at hj
      by_cases hin : i < g.calls.length
      · rw [hcaller i hin] at hi
        exact h.latest th' i j hj hi
      · obtain rfl : i = g.calls.length := by omega
        have hth : some th = some th' := (congrArg (Option.map Prod.fst) hnew).symm.trans hi
        exact absurd (Option.some.inj hth).symm e
  · by_cases e : th' = th
    · rw [e, hself] at hi
      obtain rfl := Option.some.inj hi
      exact Nat.lt_irrefl _ (h.known _ hmem)
    · rw [hother th' e] at hi
      exact h.apart th' i hi hmem
  · have := h.known i hi
    omega
  · by_cases hin : i < g.calls.length
    · rcases h.covered i hin with hmem | ⟨th', hth'⟩
      · exact Or.inl hmem
      · refine Or.inr ⟨th', ?_⟩
        rw [hother th' (by rintro rfl; rw [hnone] at hth'; cases hth')]
        exact hth'
    · obtain rfl : i = g.calls.length := by omega
      exact Or.inr ⟨th, hself⟩
  · rw [hwaiting, ← h.queued]
    refine List.map_congr_left fun i hi => hframe i (h.known i ?_)
    exact List.mem_append_right _ hi
  · unfold State.given
    rw [filterMap_log _ hlog]
    show _ = (s.given ++ []).map some
    rw [List.append_nil, ← h.handedOver]
    refine List.map_congr_left fun i hi => hframe i (h.known i ?_)
    exact List.mem_append_left _ hi
  · refine h.sorted.imp_of_mem fun {i j} hi hj hlt he => hlt ?_
    rw [hcaller i (h.known i (List.mem_append_right _ hi)),
      hcaller j (h.known j (List.mem_append_right _ hj))] at he
    exact he

/-- A call that leaves `sendRaw` is from now on among the given or the waiting ones. -/
theorem traceOk_leave (h : TraceOk s g) (hn : Callers t) {i : Nat} (hi : g.running th = some i)
    (hframes : Carries s t th none) {given waiting : List Nat}
    (hperm : (given ++ waiting).Perm (i :: (g.given ++ g.waiting)))
    (hq : waiting.map g.frame = t.waiting.map some) (hg : given.map g.frame = t.given.map some)
    (hs : waiting.Pairwise fun i j => g.caller i = g.caller j → i < j) :
    TraceOk t { g with given := given, waiting := waiting, running := g.setRunning th none } := by
  have hself : g.setRunning th none th = none := if_pos rfl
  have hother : ∀ th' ≠ th, g.setRunning th none th' = g.running th' := fun th' hne => if_neg hne
  have hmem : ∀ {k}, k ∈ given ++ waiting ↔ k = i ∨ k ∈ g.given ++ g.waiting :=
    fun {k} => hperm.mem_iff.trans List.mem_cons
  have hback : ∀ {th' j}, g.setRunning th none th' = some j →
      th' ≠ th ∧ g.running th' = some j := by
    intro th' j hj
    by_cases e : th' = th
    · rw [e, hself] at hj
      cases hj
    · rw [hother th' e] at hj
      exact ⟨e, hj⟩
  refine
    { callers := hn
      frames := fun th' => ?_
      runner := fun th' j hj => h.runner th' j (hback hj).2
      latest := fun th' k j hj hk => h.latest th' k j (hback hj).2 hk
      apart := fun th' j hj hin => ?_
      once := ?_
      known := fun k hk => ?_
      covered := fun k hk => ?_
      queued := hq
      handedOver := hg
      sorted := hs }
  · show frameAt t th' = (g.setRunning th none th').bind g.frame
    by_cases e : th' = th
    · rw [e, hframes.1, hself]
      rfl
    · rw [hframes.2 th' e, hother th' e, h.frames th']
  · obtain ⟨hne, hr⟩ := hback hj
    rcases hmem.mp hin with rfl | hin
    · exact h.running_ne hne hi hr rfl
    · exact h.apart th' j hr hin
  · exact hperm.nodup_iff.mpr (List.nodup_cons.mpr ⟨h.apart th i hi, h.once⟩)
  · rcases hmem.mp hk with rfl | hk
    · exact lt_of_caller (h.runner th k hi)
    · exact h.known k hk
  · rcases h.covered k hk with hin | ⟨th', hth'⟩
    · exact Or.inl (hmem.mpr (Or.inr hin))
    · by_cases e : th' = th
      · rw [e, hi] at hth'
        exact Or.inl (hmem.mpr (Or.inl (Option.some.inj hth').symm))
      · exact Or.inr ⟨th', (hother th' e).trans hth'⟩

theorem traceOk_sent (h : TraceOk s g) (hn : Callers t) {ok : Bool}
    (hlog : t.log = s.log ++ [.sent json ok]) (hwaiting : t.waiting = s.waiting)
    (hat : frameAt s th = some json) (hframes : Carries s t th none) :
    TraceOk t (g.add th (.sent json ok)) := by
  obtain ⟨i, hi, hj⟩ := h.is_running hat
  have e : g.add th (.sent json ok) =
      { g with given := g.given ++ [i], running := g.setRunning th none } := by
    unfold Trace.add
    rw [hi]
    rfl
  rw [e]
  refine traceOk_leave h hn hi hframes ?_ ?_ ?_ h.sorted
  · rw [List.append_assoc]
    exact List.perm_middle
  · rw [hwaiting]
    exact h.queued
  · unfold State.given
    rw [filterMap_log _ hlog]
    show (g.given ++ [i]).map g.frame = (s.given ++ [json]).map some
    rw [List.map_append, List.map_append, h.handedOver, List.map_singleton, hj,
      List.map_singleton]

theorem traceOk_pushed (h : TraceOk s g) (hn : Callers t)
    (hlog : t.log = s.log ++ [.pushed json]) (hwaiting : t.waiting = s.waiting ++ [json])
    (hat : frameAt s th = some json) (hframes : Carries s t th none) :
    TraceOk t (g.add th (.pushed json)) := by
  obtain ⟨i, hi, hj⟩ := h.is_running hat
  have e : g.add th (.pushed json) =
      { g with waiting := g.waiting ++ [i], running := g.setRunning th none } := by
    unfold Trace.add
    rw [hi]
    rfl
  rw [e]
  refine traceOk_leave h hn hi hframes ?_ ?_ ?_ ?_
  · rw [← List.append_assoc]
    exact List.perm_append_comm
  · rw [hwaiting, List.map_append, List.map_append, h.queued, List.map_singleton, hj,
      List.map_singleton]
  · unfold State.given
    rw [filterMap_log _ hlog]
    show g.given.map g.frame = (s.given ++ []).map some
    rw [List.append_nil]
    exact h.handedOver
  · -- the new call is the last one of its thread
    refine List.pairwise_append.mpr ⟨h.sorted, List.pairwise_singleton _ _, ?_⟩
    intro k hk j hj' he
    obtain rfl := List.mem_singleton.mp hj'
    have hle := h.latest th k j hi (he.trans (h.runner th j hi))
    have hne : k ≠ j := by
      rintro rfl
      exact h.apart th k hi (List.mem_append_right _ hk)
    omega

theorem traceOk_flushed (h : TraceOk s g) (hn : Callers t) {ok : Bool}
    (hlog : t.log = s.log ++ [.flushed json ok]) (hwaiting : s.waiting = json :: t.waiting)
    (hframes : ∀ th, frameAt t th = frameAt s th) (writer : Thread) :
    TraceOk t (g.add writer (.flushed json ok)) := by
  have hq := h.queued
  rw [hwaiting] at hq
  obtain ⟨i, rest, hw, hj, hrest⟩ := List.map_eq_cons_iff.mp hq
  have e : g.add writer (.flushed json ok) =
      { g with given := g.given ++ [i], waiting := rest } := by
    unfold Trace.add
    rw [hw]
    rfl
  have hsame : g.given ++ [i] ++ rest = g.given ++ g.waiting := by
    rw [hw, List.append_assoc]
    rfl
  rw [e]
  refine
    { callers := hn
      frames := fun th' => (hframes th').trans (h.frames th')
      runner := h.runner
      latest := h.latest
      apart := ?_
      once := ?_
      known := ?_
      covered := ?_
      queued := hrest
      handedOver := ?_
      sorted := ?_ }
  · show ∀ th i', g.running th = some i' → i' ∉ g.given ++ [i] ++ rest
    rw [hsame]
    exact h.apart
  · show (g.given ++ [i] ++ rest).Nodup
    rw [hsame]
    exact h.once
  · show ∀ k ∈ g.given ++ [i] ++ rest, _
    rw [hsame]
    exact h.known
  · show ∀ k < g.calls.length, k ∈ g.given ++ [i] ++ rest ∨ _
    rw [hsame]
    exact h.covered
  · unfold State.given
    rw [filterMap_log _ hlog]
    show (g.given ++ [i]).map g.frame = (s.given ++ [json]).map some
    rw [List.map_append, List.map_append, h.handedOver, List.map_singleton, hj,
      List.map_singleton]
  · have hsorted := h.sorted
    rw [hw] at hsorted
    exact (List.pairwise_cons.mp hsorted).2

end Kept

/-- The callers behind a step: as before, one of them further, or a new one. -/
theorem step_callers {s t : State} {a : Act} (hn : Callers s) (h : step s a = some t) :
    Callers t := by
  have hsame : t.calls = s.calls → Callers t := by
    intro e
    unfold Callers
    rw [e]
    exact hn
  cases step_do h with
  | call tid accepted _ h =>
    obtain ⟨pc, u, next, hpc, hm, rfl⟩ := callStep_some h
    exact moveCaller_nodup hn hpc next
  | ws accepted _ h =>
    refine hsame ?_
    cases wsStep_do h with
    | presence p u next hws hm | ack p u next hws hm => exact (sendRawStep_spec hm).2.1
    | onConnected | store | flushLock | flushTest | flushSend | flushPop => rfl
  | disconnect tid ready hout hclose => exact nodup_cons hn hout
  | request tid r hout => cases r <;> exact nodup_cons hn hout
  | connect | opened | closing | dropping | dropped | connectError | message | passed =>
    exact hsame rfl

/-- **Every step keeps the history in order.** -/
theorem step_traceOk {s t : State} {g : Trace} {a : Act} (h : TraceOk s g)
    (hs : step s a = some t) : TraceOk t (note g s a t) := by
  have hn := step_callers h.callers hs
  cases step_effect h.callers hs with
  | silent hlog hwaiting hframes =>
    rw [note_eq (hlog.trans (List.append_nil _).symm)]
    exact traceOk_silent h hn hlog hwaiting hframes
  | handed json hlog hwaiting hfree hframes =>
    rw [note_eq hlog]
    exact traceOk_handed h hn hlog hwaiting hfree hframes
  | sent json ok hact hlog hwaiting hat hframes =>
    rw [note_eq hlog]
    exact traceOk_sent h hn hlog hwaiting (congrArg (Option.map SendPc.json) hat) hframes
  | pushed json hlog hwaiting hat hframes =>
    rw [note_eq hlog]
    exact traceOk_pushed h hn hlog hwaiting (congrArg (Option.map SendPc.json) hat) hframes
  | flushed json ok hlog hwaiting hframes =>
    rw [note_eq hlog]
    exact traceOk_flushed h hn hlog hwaiting hframes a.thread

theorem traceOk_init : TraceOk State.init Trace.init where
  callers := List.nodup_nil
  frames th := by cases th <;> rfl
  runner th i hi := by cases hi
  latest th i j hj hi := by cases hj
  apart th i hi := by cases hi
  once := List.nodup_nil
  known i hi := by cases hi
  covered i hi := absurd hi (Nat.not_lt_zero i)
  queued := rfl
  handedOver := rfl
  sorted := List.Pairwise.nil

theorem ledger_init : Ledger State.init := ⟨List.Perm.nil, rfl⟩

theorem reach_traceOk {C : State × Trace → Act → Prop} {p : State × Trace}
    (h : traced.Reach C p) : TraceOk p.1 p.2 := by
  refine Machine.Steps.invariant (I := fun p => TraceOk p.1 p.2) h traceOk_init ?_
  intro p a q hp _ hs
  obtain ⟨hstep, hnote⟩ := Machine.watch_step_some hs
  rw [hnote]
  exact step_traceOk hp hstep

theorem reach_ledger {C : State × Trace → Act → Prop} {p : State × Trace}
    (h : traced.Reach C p) : Ledger p.1 := by
  have hboth : TraceOk p.1 p.2 ∧ Ledger p.1 := by
    refine Machine.Steps.invariant (I := fun p => TraceOk p.1 p.2 ∧ Ledger p.1) h
      ⟨traceOk_init, ledger_init⟩ ?_
    rintro p a q ⟨hp, hL⟩ _ hs
    obtain ⟨hstep, hnote⟩ := Machine.watch_step_some hs
    rw [hnote]
    exact ⟨step_traceOk hp hstep, effect_ledger (step_effect hp.callers hstep) hL⟩
  exact hboth.2

/-! ## 6. Exactly once -/

/-- **Exactly once**: whenever `m_queueMutex` is free, the frames of the calls that have made their
    send or push are, as often as they occur, those given to `ws.sendText` and those in
    `m_offlineQueue`; the frames pushed are those flushed so far and then the queue, in this
    order; every call is inside `sendRaw`, in the queue or handed over, and none is handed over
    twice. -/
theorem exactlyOnce {acts : List Act} {s : State} {g : Trace}
    (h : traced.exec traced.init acts = some (s, g)) (hfree : s.mutexFree = true) :
    s.performed.Perm (s.given ++ s.queue) ∧ s.pushed = s.flushed ++ s.queue ∧
      g.given.map g.frame = s.given.map some ∧ g.waiting.map g.frame = s.queue.map some ∧
      (g.given ++ g.waiting).Nodup ∧
      ∀ i < g.calls.length, i ∈ g.given ++ g.waiting ∨ ∃ th, g.running th = some i := by
  have hreach : traced.Reach Machine.Any (s, g) :=
    Machine.steps_of_exec h (Machine.meets_any _ _)
  have hok := reach_traceOk hreach
  have hledger := reach_ledger hreach
  have hperformed := hledger.performed
  have hfifo := hledger.fifo
  have hqueued := hok.queued
  rw [waiting_free hfree] at hperformed hfifo hqueued
  exact ⟨hperformed, hfifo, hok.handedOver, hqueued, hok.once, hok.covered⟩

theorem exactlyOnce_flushed : ∃ s g,
    traced.exec traced.init offlineThenFlushed = some (s, g) ∧ s.mutexFree = true ∧
      s.given = [presenceJson true, readJson (ascii "c1")] ∧
      s.performed.Perm (s.given ++ s.queue) := by
  have hrun : (traced.exec traced.init offlineThenFlushed).map (fun p =>
      (p.1.mutexFree, p.1.given)) =
      some (true, [presenceJson true, readJson (ascii "c1")]) := by
    decide +kernel
  obtain ⟨⟨s, g⟩, hs, hobs⟩ := Option.map_eq_some_iff.mp hrun
  simp only [Prod.mk.injEq] at hobs
  exact ⟨s, g, hs, hobs.1, hobs.2, (exactlyOnce hs hobs.1).1⟩

end Viral.Chat
