/-
  File:      ViralEngine/Feed/IjkPlayer.lean
  Subject:   ONE PLAYER OF ijkplayer AND ITS MESSAGE LOOP
             (ijk-player/ijkmedia/ijkplayer/ijkplayer.c, ff_ffmsg_queue.h; the loop is
             `viral_msg_loop` of ViralEngine/core/ViralEngine.c).

  A player is its `mp_state`, its message queue with the abort flag, and the place of the thread
  that runs `viral_msg_loop` on it. `ijkmp_start` and `ijkmp_pause` only exchange the pending
  request; the state changes when the loop's `ijkmp_get_msg` takes the request out. Every
  function that holds `mp->mutex` is one step, and so is every access of the queue.

  * `Player.start`, `pause`, `stop`, `shutdown`, `setDataSource`, `prepareAsync` -- the calls;
  * `Player.take`, `Player.serve` -- the two halves of `ijkmp_get_msg`;
  * `WillPlay` -- with no further call the player ends up STARTED: the last pending request is a
    start, or there is none and it is STARTED;
  * `LocalOk` -- what holds of every player at every moment;
  * `not_willPlay_pause`, `not_willPlay_aborted`, `willPlay_take`, `willPlay_serve` -- a pause and
    an aborted queue settle it, and the loop alone never turns it to playing.

  `ffp_start_l` and `ffp_pause_l` fail only on a player without a stream, and the states that let
  a request through have one. `start-on-prepared` is 0, as the feed sets it.
-/
import ViralEngine.Feed.Pool

namespace Viral.Ijk

open Viral.Feed

/-! ## 1. The player -/

/-- `MP_STATE_*`. -/
inductive MpState where
  | idle | initialized | asyncPreparing | prepared | started | paused | completed | stopped
  | error | ended
  deriving DecidableEq, Repr

/-- The messages the loop tells apart; `other` stands for the rest. -/
inductive Msg where
  | flush | prepared | completed | error | bufferingStart | stateChanged | other
  | reqStart | reqPause
  deriving DecidableEq, Repr

/-- `FFP_REQ_START` and `FFP_REQ_PAUSE`. -/
def Msg.isReq : Msg → Bool
  | .reqStart | .reqPause => true
  | _ => false

/-- The messages on which `ijkmp_get_msg` changes the state. -/
def Msg.wakes : Msg → Bool
  | .prepared | .completed | .reqStart | .reqPause => true
  | _ => false

/-- The `VIRAL_EVENT_*` that the message loop fires. -/
inductive ViralEvent where
  | ready | started | completed | error | buffering
  deriving DecidableEq, Repr

/-- The places of the message thread: `none` before it exists, `spawned` in front of its read of
    `vp->mp`, `wait` and `got` inside `ijkmp_get_msg`, `handling` at the `switch`, then the parts
    of its cases; `crashed`: it read NULL. -/
inductive LoopPc where
  | none
  | spawned
  | wait
  | got (m : Msg)
  | handling (m : Msg)
  | storePlaying
  | fire (e : ViralEvent)
  | testIndex
  | testCurrent (feedIndex : Int)
  | start
  | ended
  | crashed
  deriving DecidableEq, Repr

/-- A player and the thread created for it. `aborted` is the queue's `abort_request`; `slot` is the
    `ViralPlayer` the thread was given, `target` the player it found there and works on. `resumes`:
    `ffp_start_l` was called, which sets `auto_resume`. -/
structure Player where
  mpState : MpState
  queue : List Msg
  aborted : Bool
  loop : LoopPc
  slot : Slot
  target : Option Nat
  resumes : Bool
  deriving DecidableEq, Repr

namespace Player

/-- `ijkmp_create`: the queue starts out aborted. -/
def create (slot : Slot) : Player := ⟨.idle, [], true, .none, slot, none, false⟩

/-- `msg_queue_put`. -/
def put (P : Player) (m : Msg) : Player :=
  if P.aborted then P else { P with queue := P.queue ++ [m] }

/-- `ffp_remove_msg` of both requests. -/
def removeReqs (P : Player) : Player :=
  if P.aborted then P else { P with queue := P.queue.filter fun m => !m.isReq }

/-- `ijkmp_change_state_l`. -/
def changeState (P : Player) (st : MpState) : Player :=
  { P with mpState := st }.put .stateChanged

/-- `ikjmp_chkst_start_l` and `ikjmp_chkst_pause_l`, which test the same states. -/
def chkst : MpState → Bool
  | .prepared | .started | .paused | .completed => true
  | _ => false

/-- `ijkmp_start`: the requests that wait are taken out. -/
def start (P : Player) : Player := if chkst P.mpState then P.removeReqs.put .reqStart else P

/-- `ijkmp_pause`: the requests that wait are taken out. -/
def pause (P : Player) : Player := if chkst P.mpState then P.removeReqs.put .reqPause else P

/-- The states `ijkmp_stop_l` goes on from. -/
def stoppable : MpState → Bool
  | .idle | .initialized | .error | .ended => false
  | _ => true

/-- `ijkmp_stop`. -/
def stop (P : Player) : Player :=
  if stoppable P.mpState then { P.removeReqs with aborted := true }.changeState .stopped else P

/-- `ijkmp_shutdown`: it aborts the queue also of a player that `stop` refuses. -/
def shutdown (P : Player) : Player := { P with aborted := true }

/-- `ijkmp_set_data_source`. -/
def setDataSource (P : Player) : Player :=
  if P.mpState = .idle then P.changeState .initialized else P

/-- `ijkmp_prepare_async`; `ok` is the result of `ffp_prepare_async_l`. -/
def prepareAsync (P : Player) (ok : Bool) : Player :=
  if P.mpState = .initialized ∨ P.mpState = .stopped then
    let P := P.changeState .asyncPreparing
    let P := { P with aborted := false }.put .flush
    let P := { P with loop := .spawned }
    if ok then P else P.changeState .error
  else P

/-- `msg_queue_get`: the next place of the thread that called it. `ijkmp_get_msg` returns a
    negative value on an aborted queue, and the loop ends. -/
def take (P : Player) : Option (Player × LoopPc) :=
  if P.aborted then some (P, .ended)
  else match P.queue with
    | [] => none
    | m :: rest => some ({ P with queue := rest }, .got m)

/-- The `switch` of `ijkmp_get_msg`. -/
def serve (P : Player) (m : Msg) : Player :=
  match m with
  | .prepared =>
    let P := if P.mpState = .asyncPreparing then P.changeState .prepared else P
    P.changeState .paused
  | .completed => P.changeState .completed
  | .reqStart => if chkst P.mpState then { P with resumes := true }.changeState .started else P
  | .reqPause => if chkst P.mpState then P.changeState .paused else P
  | _ => P

/-- `continue_wait_next_msg`: a request is consumed, every other message goes on to
    `viral_msg_loop`. -/
def served (m : Msg) : LoopPc := if m.isReq then .wait else .handling m

/-- `ijkmp_is_playing`. -/
def isPlaying (P : Player) : Bool :=
  match P.mpState with
  | .prepared | .started => true
  | _ => false

/-! ## 2. What a player is heading for -/

/-- The last request in a queue. -/
def lastReq (q : List Msg) : Option Msg := (q.filter Msg.isReq).getLast?

/-- With an empty queue the player ends up STARTED. -/
def PlaysNow (P : Player) : Prop :=
  match P.loop with
  | .got .reqStart => chkst P.mpState = true
  | .got .reqPause => False
  | _ => P.mpState = .started

/-- **With no further call the player ends up STARTED.** -/
def WillPlay (P : Player) : Prop :=
  if P.aborted then PlaysNow P
  else match lastReq P.queue with
    | some m => m = .reqStart
    | none => PlaysNow P

theorem playsNow_iff {P : Player} : PlaysNow P ↔
    if P.loop = .got .reqStart then chkst P.mpState = true
    else P.loop ≠ .got .reqPause ∧ P.mpState = .started := by
  unfold PlaysNow
  split
  · rename_i hl
    rw [if_pos hl]
  · rename_i hl
    rw [if_neg (by rw [hl]; nofun)]
    exact ⟨nofun, fun h => h.1 hl⟩
  · rename_i hstart hpause
    rw [if_neg hstart]
    exact (and_iff_right hpause).symm

instance (P : Player) : Decidable (PlaysNow P) := decidable_of_iff _ playsNow_iff.symm

theorem willPlay_iff {P : Player} : WillPlay P ↔
    if P.aborted then PlaysNow P
    else lastReq P.queue = some .reqStart ∨ lastReq P.queue = none ∧ PlaysNow P := by
  unfold WillPlay
  cases lastReq P.queue <;> simp

instance (P : Player) : Decidable (WillPlay P) := decidable_of_iff _ willPlay_iff.symm

/-- The messages a player has still to handle: the queue, and the one just taken out. -/
def ahead (P : Player) : List Msg :=
  match P.loop with
  | .got m => m :: P.queue
  | _ => P.queue

/-- **What holds of every player**: a state `stop` refuses stays (no message that would change it
    is ahead), a player being prepared has no request ahead, an aborted one will not play, and
    a stopped one is aborted. -/
structure LocalOk (P : Player) : Prop where
  dormant : stoppable P.mpState = false → ∀ m ∈ P.ahead, m.wakes = false
  preparing : P.mpState = .asyncPreparing → ∀ m ∈ P.ahead, m.isReq = false
  halted : P.aborted = true → ¬ PlaysNow P
  stopped : P.mpState = .stopped → P.aborted = true

/-! ## 3. Small facts -/

section Facts

variable {P : Player}

theorem stoppable_of_chkst {st : MpState} (h : chkst st = true) : stoppable st = true := by
  cases st <;> simp [chkst, stoppable] at h ⊢

theorem isReq_wakes {m : Msg} (h : m.isReq = true) : m.wakes = true := by
  cases m <;> simp [Msg.isReq, Msg.wakes] at h ⊢

theorem lastReq_append_req (q : List Msg) {m : Msg} (hm : m.isReq = true) :
    lastReq (q ++ [m]) = some m := by
  simp [lastReq, List.filter_append, hm]

theorem lastReq_append (q : List Msg) {m : Msg} (hm : m.isReq = false) :
    lastReq (q ++ [m]) = lastReq q := by
  simp [lastReq, List.filter_append, hm]

theorem lastReq_none {q : List Msg} (h : ∀ m ∈ q, m.isReq = false) : lastReq q = none := by
  have hnil : q.filter Msg.isReq = [] := by
    rw [List.filter_eq_nil_iff]
    intro m hm
    rw [h m hm]
    exact Bool.false_ne_true
  unfold lastReq
  rw [hnil]
  rfl

theorem put_aborted {m : Msg} (h : P.aborted = true) : P.put m = P := by
  unfold put
  rw [if_pos h]

theorem put_running {m : Msg} (h : P.aborted = false) :
    P.put m = { P with queue := P.queue ++ [m] } := by
  unfold put
  rw [if_neg (by rw [h]; exact Bool.false_ne_true)]

theorem removeReqs_aborted (h : P.aborted = true) : P.removeReqs = P := by
  unfold removeReqs
  rw [if_pos h]

theorem removeReqs_running (h : P.aborted = false) :
    P.removeReqs = { P with queue := P.queue.filter fun m => !m.isReq } := by
  unfold removeReqs
  rw [if_neg (by rw [h]; exact Bool.false_ne_true)]

/-- `Q` is `P` up to its state and the messages that are no requests. -/
structure SameThread (P Q : Player) : Prop where
  aborted : Q.aborted = P.aborted
  loop : Q.loop = P.loop
  slot : Q.slot = P.slot
  target : Q.target = P.target
  requests : lastReq Q.queue = lastReq P.queue

theorem SameThread.refl (P : Player) : SameThread P P := ⟨rfl, rfl, rfl, rfl, rfl⟩

theorem SameThread.trans {P Q R : Player} (h : SameThread P Q) (k : SameThread Q R) :
    SameThread P R where
  aborted := k.aborted.trans h.aborted
  loop := k.loop.trans h.loop
  slot := k.slot.trans h.slot
  target := k.target.trans h.target
  requests := k.requests.trans h.requests

theorem sameThread_put (P : Player) {m : Msg} (hm : m.isReq = false) : SameThread P (P.put m) := by
  unfold put
  split
  · exact SameThread.refl P
  · exact ⟨rfl, rfl, rfl, rfl, lastReq_append P.queue hm⟩

theorem changeState_mpState (P : Player) (st : MpState) : (P.changeState st).mpState = st := by
  unfold changeState put
  split <;> rfl

theorem sameThread_changeState (P : Player) (st : MpState) : SameThread P (P.changeState st) :=
  SameThread.trans (Q := { P with mpState := st }) ⟨rfl, rfl, rfl, rfl, rfl⟩
    (sameThread_put { P with mpState := st } (m := .stateChanged) rfl)

/-- A state that lets no request through does not play. -/
theorem not_playsNow_of_not_chkst (h : chkst P.mpState = false) : ¬ PlaysNow P := by
  intro hp
  unfold PlaysNow at hp
  split at hp
  · rw [h] at hp
    cases hp
  · exact hp
  · rw [hp] at h
    cases h

theorem willPlay_aborted (h : P.aborted = true) : WillPlay P ↔ PlaysNow P := by
  unfold WillPlay
  rw [if_pos h]

theorem willPlay_running (h : P.aborted = false) :
    WillPlay P ↔ (match lastReq P.queue with
      | some m => m = .reqStart
      | none => PlaysNow P) := by
  unfold WillPlay
  rw [if_neg (by rw [h]; exact Bool.false_ne_true)]

theorem not_willPlay_aborted (h : LocalOk P) (ha : P.aborted = true) : ¬ WillPlay P := by
  rw [willPlay_aborted ha]
  exact h.halted ha

/-- A running player in a state that lets requests through is in order. -/
theorem localOk_of_chkst (ha : P.aborted = false) (hst : chkst P.mpState = true) : LocalOk P where
  dormant hd := by
    rw [stoppable_of_chkst hst] at hd
    cases hd
  preparing hp := by
    rw [hp] at hst
    cases hst
  halted h := by
    rw [ha] at h
    cases h
  stopped hs := by
    rw [hs] at hst
    cases hst

theorem queue_subset_ahead {m : Msg} (h : m ∈ P.queue) : m ∈ P.ahead := by
  unfold ahead
  split
  · exact List.mem_cons_of_mem _ h
  · exact h

end Facts

/-! ## 4. The calls -/

section Calls

variable {P : Player}

theorem start_aborted (h : P.aborted = true) : P.start = P := by
  unfold start
  split
  · rw [removeReqs_aborted h, put_aborted h]
  · rfl

theorem pause_aborted (h : P.aborted = true) : P.pause = P := by
  unfold pause
  split
  · rw [removeReqs_aborted h, put_aborted h]
  · rfl

/-- The queue behind an accepted request. -/
def requested (P : Player) (m : Msg) : Player :=
  { P with queue := (P.queue.filter fun m => !m.isReq) ++ [m] }

theorem start_running (h : P.aborted = false) (hst : chkst P.mpState = true) :
    P.start = P.requested .reqStart := by
  unfold start
  rw [if_pos hst, removeReqs_running h]
  exact put_running h

theorem pause_running (h : P.aborted = false) (hst : chkst P.mpState = true) :
    P.pause = P.requested .reqPause := by
  unfold pause
  rw [if_pos hst, removeReqs_running h]
  exact put_running h

/-- The three ways of a request: refused by the queue, accepted, refused by the state. -/
theorem start_cases (P : Player) : P.start = P ∨
    (P.aborted = false ∧ chkst P.mpState = true ∧ P.start = P.requested .reqStart) := by
  cases ha : P.aborted with
  | true => exact Or.inl (start_aborted ha)
  | false =>
    cases hst : chkst P.mpState with
    | true => exact Or.inr ⟨rfl, rfl, start_running ha hst⟩
    | false =>
      refine Or.inl ?_
      unfold start
      rw [if_neg (by rw [hst]; exact Bool.false_ne_true)]

theorem pause_cases (P : Player) : P.pause = P ∨
    (P.aborted = false ∧ chkst P.mpState = true ∧ P.pause = P.requested .reqPause) := by
  cases ha : P.aborted with
  | true => exact Or.inl (pause_aborted ha)
  | false =>
    cases hst : chkst P.mpState with
    | true => exact Or.inr ⟨rfl, rfl, pause_running ha hst⟩
    | false =>
      refine Or.inl ?_
      unfold pause
      rw [if_neg (by rw [hst]; exact Bool.false_ne_true)]

theorem localOk_start (h : LocalOk P) : LocalOk P.start := by
  rcases start_cases P with e | ⟨ha, hst, e⟩
  · rw [e]
    exact h
  · rw [e]
    exact localOk_of_chkst ha hst

theorem localOk_pause (h : LocalOk P) : LocalOk P.pause := by
  rcases pause_cases P with e | ⟨ha, hst, e⟩
  · rw [e]
    exact h
  · rw [e]
    exact localOk_of_chkst ha hst

/-- A player whose state refuses requests has none ahead. -/
theorem not_willPlay_of_not_chkst (h : LocalOk P) (hst : chkst P.mpState = false) :
    ¬ WillPlay P := by
  cases ha : P.aborted with
  | true => exact not_willPlay_aborted h ha
  | false =>
    have hnone : ∀ m ∈ P.queue, m.isReq = false := by
      intro m hm
      cases hs : stoppable P.mpState with
      | false =>
        have hw := h.dormant hs m (queue_subset_ahead hm)
        cases hr : m.isReq with
        | false => rfl
        | true =>
          rw [isReq_wakes hr] at hw
          cases hw
      | true =>
        cases hmp : P.mpState with
        | asyncPreparing => exact h.preparing hmp m (queue_subset_ahead hm)
        | stopped =>
          rw [h.stopped hmp] at ha
          cases ha
        | idle | initialized | error | ended =>
          rw [hmp] at hs
          cases hs
        | prepared | started | paused | completed =>
          rw [hmp] at hst
          cases hst
    rw [willPlay_running ha, lastReq_none hnone]
    exact not_playsNow_of_not_chkst hst

/-- **A pause settles it**: accepted, it is the last request; refused, the player was not going to
    play. -/
theorem not_willPlay_pause (h : LocalOk P) : ¬ WillPlay P.pause := by
  rcases pause_cases P with e | ⟨ha, hst, e⟩
  · rw [e]
    cases hst : chkst P.mpState with
    | false => exact not_willPlay_of_not_chkst h hst
    | true =>
      cases ha : P.aborted with
      | true => exact not_willPlay_aborted h ha
      | false =>
        -- an accepted pause leaves its request
        have e' := pause_running ha hst
        rw [e] at e'
        have hq : P.queue = (P.queue.filter fun m => !m.isReq) ++ [.reqPause] :=
          congrArg Player.queue e'
        rw [willPlay_running ha, hq, lastReq_append_req _ rfl]
        nofun
  · rw [e, willPlay_running (P := P.requested .reqPause) ha]
    show ¬ (match lastReq ((P.queue.filter fun m => !m.isReq) ++ [.reqPause]) with
      | some m => m = .reqStart
      | none => _)
    rw [lastReq_append_req _ rfl]
    nofun

/-- `stop` aborts the queue, or finds a state nothing leaves. -/
theorem stop_cases (P : Player) :
    P.stop.loop = P.loop ∧ P.stop.slot = P.slot ∧ P.stop.target = P.target ∧
      (stoppable P.mpState = false ∧ P.stop = P ∨
        P.stop.mpState = .stopped ∧ P.stop.aborted = true) := by
  unfold stop
  split
  · have hremoved : P.removeReqs.loop = P.loop ∧ P.removeReqs.slot = P.slot ∧
        P.removeReqs.target = P.target := by
      unfold removeReqs
      split <;> exact ⟨rfl, rfl, rfl⟩
    exact ⟨hremoved.1, hremoved.2.1, hremoved.2.2, Or.inr ⟨rfl, rfl⟩⟩
  · rename_i hs
    exact ⟨rfl, rfl, rfl, Or.inl ⟨by simpa using hs, rfl⟩⟩

/-- A player in a state that refuses requests may be aborted. -/
theorem localOk_abort {Q : Player} (h : LocalOk P) (hst : chkst P.mpState = false)
    (hstate : Q.mpState = P.mpState) (hq : Q.queue = P.queue) (hl : Q.loop = P.loop)
    (ha : Q.aborted = true) : LocalOk Q := by
  have hahead : Q.ahead = P.ahead := by
    unfold ahead
    rw [hl, hq]
  refine ⟨?_, ?_, ?_, fun _ => ha⟩
  · rw [hstate, hahead]
    exact h.dormant
  · rw [hstate, hahead]
    exact h.preparing
  · intro _
    refine not_playsNow_of_not_chkst ?_
    rw [hstate]
    exact hst

theorem not_chkst_of_not_stoppable {st : MpState} (h : stoppable st = false) :
    chkst st = false := by
  cases hc : chkst st with
  | false => rfl
  | true =>
    rw [stoppable_of_chkst hc] at h
    cases h

theorem localOk_stopped (hst : P.mpState = .stopped) (ha : P.aborted = true) : LocalOk P where
  dormant hd := by
    rw [hst] at hd
    cases hd
  preparing hp := by
    rw [hst] at hp
    cases hp
  halted _ := not_playsNow_of_not_chkst (by rw [hst]; rfl)
  stopped _ := ha

theorem localOk_stop (h : LocalOk P) : LocalOk P.stop := by
  rcases (stop_cases P).2.2.2 with ⟨_, e⟩ | ⟨hst, ha⟩
  · rw [e]
    exact h
  · exact localOk_stopped hst ha

/-- After `stop` the state refuses requests. -/
theorem stop_not_chkst (P : Player) : chkst P.stop.mpState = false := by
  rcases (stop_cases P).2.2.2 with ⟨hs, e⟩ | ⟨hst, _⟩
  · rw [e]
    exact not_chkst_of_not_stoppable hs
  · rw [hst]
    rfl

/-- Aborted, or in a state nothing leaves: what `ijkmp_stop` guarantees. -/
def Settled (P : Player) : Prop := P.aborted = true ∨ stoppable P.mpState = false

theorem settled_stop (P : Player) : Settled P.stop := by
  rcases (stop_cases P).2.2.2 with ⟨hs, e⟩ | ⟨_, ha⟩
  · rw [e]
    exact Or.inr hs
  · exact Or.inl ha

theorem localOk_shutdown (h : LocalOk P) (hs : Settled P) : LocalOk P.shutdown := by
  rcases hs with ha | hs
  · have e : P.shutdown = P := by
      unfold shutdown
      rw [← ha]
    rw [e]
    exact h
  · exact localOk_abort h (not_chkst_of_not_stoppable hs) rfl rfl rfl rfl

/-- A player with nothing ahead that changes its state. -/
theorem localOk_dormant (h : ∀ m ∈ P.ahead, m.wakes = false) (hst : chkst P.mpState = false)
    (hs : P.mpState ≠ .stopped) : LocalOk P where
  dormant _ := h
  preparing _ m hm := by
    cases hr : m.isReq with
    | false => rfl
    | true =>
      have hw := h m hm
      rw [isReq_wakes hr] at hw
      cases hw
  halted _ := not_playsNow_of_not_chkst hst
  stopped e := absurd e hs

/-- The player between `ijkmp_set_data_source` and `ijkmp_prepare_async`. -/
def initialized (k : Slot) : Player := { create k with mpState := .initialized }

theorem localOk_create (k : Slot) : LocalOk (create k) :=
  localOk_dormant (fun _ hm => by cases hm) rfl (by nofun)

theorem localOk_initialized (k : Slot) : LocalOk (initialized k) :=
  localOk_dormant (fun _ hm => by cases hm) rfl (by nofun)

/-- The player `ijkmp_prepare_async` leaves. -/
theorem prepareAsync_initialized (k : Slot) (ok : Bool) :
    (initialized k).prepareAsync ok =
      { create k with
        mpState := if ok then .asyncPreparing else .error
        queue := if ok then [.flush] else [.flush, .stateChanged]
        aborted := false
        loop := .spawned } := by
  cases ok <;> rfl

theorem prepareAsync_not_chkst (k : Slot) (ok : Bool) :
    chkst ((initialized k).prepareAsync ok).mpState = false := by
  cases ok <;> rfl

theorem localOk_prepareAsync (k : Slot) (ok : Bool) :
    LocalOk ((initialized k).prepareAsync ok) := by
  refine localOk_dormant ?_ (prepareAsync_not_chkst k ok) ?_
  · rw [prepareAsync_initialized]
    show ∀ m ∈ (if ok then [Msg.flush] else [Msg.flush, Msg.stateChanged]), m.wakes = false
    cases ok <;> decide
  · cases ok <;> nofun

end Calls

/-! ## 5. The thread and the player's own messages -/

section Loop

variable {P : Player}

/-- Inside `ijkmp_get_msg` with a message in hand. -/
def holds : LoopPc → Bool
  | .got _ => true
  | _ => false

theorem playsNow_started (h : holds P.loop = false) : PlaysNow P ↔ P.mpState = .started := by
  unfold PlaysNow
  split
  · rename_i e
    rw [e] at h
    cases h
  · rename_i e
    rw [e] at h
    cases h
  · exact Iff.rfl

theorem ahead_queue (h : holds P.loop = false) : P.ahead = P.queue := by
  unfold ahead
  split
  · rename_i e
    rw [e] at h
    cases h
  · rfl

/-- Two players with the same requests pending differ by what they do with an empty queue. -/
theorem willPlay_of_playsNow {Q : Player} (ha : Q.aborted = P.aborted)
    (hr : lastReq Q.queue = lastReq P.queue) (hp : PlaysNow Q → PlaysNow P) (hw : WillPlay Q) :
    WillPlay P := by
  unfold WillPlay at hw ⊢
  rw [ha, hr] at hw
  split
  · rename_i h
    rw [if_pos h] at hw
    exact hp hw
  · rename_i h
    rw [if_neg h] at hw
    cases he : lastReq P.queue with
    | some m =>
      rw [he] at hw
      exact hw
    | none =>
      rw [he] at hw
      exact hp hw

/-- The thread goes to a place outside `ijkmp_get_msg`. -/
theorem localOk_move {pc : LoopPc} {q : Option Nat} (h : LocalOk P) (hpc : holds pc = false)
    (hp : P.mpState = .started → PlaysNow P) : LocalOk { P with loop := pc, target := q } := by
  have hahead : ({ P with loop := pc, target := q } : Player).ahead = P.queue :=
    ahead_queue (P := { P with loop := pc, target := q }) hpc
  refine ⟨?_, ?_, ?_, h.stopped⟩
  · intro hd m hm
    rw [hahead] at hm
    exact h.dormant hd m (queue_subset_ahead hm)
  · intro hd m hm
    rw [hahead] at hm
    exact h.preparing hd m (queue_subset_ahead hm)
  · intro ha hplays
    rw [playsNow_started (P := { P with loop := pc, target := q }) hpc] at hplays
    exact h.halted ha (hp hplays)

theorem willPlay_move {pc : LoopPc} {q : Option Nat} (hpc : holds pc = false)
    (hp : P.mpState = .started → PlaysNow P) (hw : WillPlay { P with loop := pc, target := q }) :
    WillPlay P := by
  refine willPlay_of_playsNow (Q := { P with loop := pc, target := q }) rfl rfl ?_ hw
  intro hplays
  rw [playsNow_started (P := { P with loop := pc, target := q }) hpc] at hplays
  exact hp hplays

/-- A player in a quiet state that accepts requests. -/
theorem localOk_quiet (hst : chkst P.mpState = true) (hne : P.mpState ≠ .started)
    (hl : holds P.loop = false) : LocalOk P where
  dormant hd := by
    rw [stoppable_of_chkst hst] at hd
    cases hd
  preparing hp := by
    rw [hp] at hst
    cases hst
  halted _ hplays := hne ((playsNow_started hl).mp hplays)
  stopped hs := by
    rw [hs] at hst
    cases hst

/-! ### Taking a message out -/

theorem lastReq_cons (m : Msg) (q : List Msg) :
    lastReq (m :: q) = match lastReq q with
      | some r => some r
      | none => if m.isReq then some m else none := by
  unfold lastReq
  cases hm : m.isReq with
  | true =>
    rw [List.filter_cons_of_pos hm, List.getLast?_cons]
    cases (q.filter Msg.isReq).getLast? <;> rfl
  | false =>
    rw [List.filter_cons_of_neg (by rw [hm]; exact Bool.false_ne_true)]
    cases (q.filter Msg.isReq).getLast? <;> rfl

theorem take_cases {Q : Player} {pc : LoopPc} (h : P.take = some (Q, pc)) :
    (P.aborted = true ∧ Q = P ∧ pc = .ended) ∨
      (P.aborted = false ∧ ∃ m rest, P.queue = m :: rest ∧ Q = { P with queue := rest } ∧
        pc = .got m) := by
  unfold take at h
  split at h
  · rename_i ha
    cases h
    exact Or.inl ⟨ha, rfl, rfl⟩
  · rename_i ha
    split at h
    · cases h
    · rename_i m rest hq
      cases h
      exact Or.inr ⟨by simpa using ha, m, rest, hq, rfl, rfl⟩

theorem localOk_take {Q : Player} {pc : LoopPc} (h : LocalOk P) (hl : holds P.loop = false)
    (ht : P.take = some (Q, pc)) : LocalOk { Q with loop := pc } := by
  rcases take_cases ht with ⟨_, rfl, rfl⟩ | ⟨ha, m, rest, hq, rfl, rfl⟩
  · exact localOk_move h rfl (playsNow_started hl).mpr
  · have hahead : ({ P with queue := rest, loop := .got m } : Player).ahead = P.ahead := by
      rw [ahead_queue hl, hq]
      rfl
    refine ⟨?_, ?_, ?_, h.stopped⟩
    · rw [hahead]
      exact h.dormant
    · rw [hahead]
      exact h.preparing
    · intro ha'
      rw [ha] at ha'
      cases ha'

theorem willPlay_take {Q : Player} {pc : LoopPc} (hl : holds P.loop = false)
    (ht : P.take = some (Q, pc)) (hw : WillPlay { Q with loop := pc }) : WillPlay P := by
  rcases take_cases ht with ⟨_, rfl, rfl⟩ | ⟨ha, m, rest, hq, rfl, rfl⟩
  · exact willPlay_move rfl (playsNow_started hl).mpr hw
  · rw [willPlay_running (P := { P with queue := rest, loop := .got m }) ha] at hw
    rw [willPlay_running ha, hq, lastReq_cons]
    cases hr : lastReq rest with
    | some r =>
      rw [show lastReq ({ P with queue := rest, loop := .got m } : Player).queue = some r
        from hr] at hw
      exact hw
    | none =>
      rw [show lastReq ({ P with queue := rest, loop := .got m } : Player).queue = none
        from hr] at hw
      -- the message taken out decides
      cases m with
      | reqStart => rfl
      | reqPause => exact absurd hw id
      | flush | prepared | completed | error | bufferingStart | stateChanged | other =>
        exact (playsNow_started hl).mpr hw

/-! ### Acting on it -/

theorem sameThread_serve (P : Player) (m : Msg) : SameThread P (P.serve m) := by
  cases m with
  | flush | error | bufferingStart | stateChanged | other => exact SameThread.refl P
  | completed => exact sameThread_changeState P .completed
  | reqStart =>
    unfold serve
    dsimp only
    split
    · exact SameThread.trans (Q := { P with resumes := true }) ⟨rfl, rfl, rfl, rfl, rfl⟩
        (sameThread_changeState _ .started)
    · exact SameThread.refl P
  | reqPause =>
    unfold serve
    dsimp only
    split
    · exact sameThread_changeState P .paused
    · exact SameThread.refl P
  | prepared =>
    unfold serve
    dsimp only
    split
    · exact (sameThread_changeState P .prepared).trans (sameThread_changeState _ .paused)
    · exact sameThread_changeState P .paused

/-- A message that changes no state leaves the player. -/
theorem serve_of_not_wakes {m : Msg} (h : m.wakes = false) : P.serve m = P := by
  cases m with
  | flush | error | bufferingStart | stateChanged | other => rfl
  | completed | reqStart | reqPause | prepared => cases h

/-- What a message with an effect does: the player gets a quiet state that accepts requests, or
    STARTED on a start request it accepts, or it stays. -/
theorem serve_wakes (P : Player) {m : Msg} (h : m.wakes = true) :
    (chkst (P.serve m).mpState = true ∧ (P.serve m).mpState ≠ .started) ∨
      (m = .reqStart ∧ chkst P.mpState = true ∧ (P.serve m).mpState = .started) ∨
      (chkst P.mpState = false ∧ P.serve m = P) := by
  cases m with
  | flush | error | bufferingStart | stateChanged | other => cases h
  | completed =>
    refine Or.inl ?_
    rw [show (P.serve .completed).mpState = .completed from changeState_mpState P .completed]
    exact ⟨rfl, by nofun⟩
  | prepared =>
    refine Or.inl ?_
    rw [show (P.serve .prepared).mpState = .paused from changeState_mpState _ .paused]
    exact ⟨rfl, by nofun⟩
  | reqStart =>
    cases hst : chkst P.mpState with
    | true =>
      refine Or.inr (Or.inl ⟨rfl, rfl, ?_⟩)
      unfold serve
      dsimp only
      rw [if_pos hst]
      exact changeState_mpState { P with resumes := true } .started
    | false =>
      refine Or.inr (Or.inr ⟨rfl, ?_⟩)
      unfold serve
      dsimp only
      rw [if_neg (by rw [hst]; exact Bool.false_ne_true)]
  | reqPause =>
    cases hst : chkst P.mpState with
    | true =>
      refine Or.inl ?_
      unfold serve
      dsimp only
      rw [if_pos hst, changeState_mpState]
      exact ⟨rfl, by nofun⟩
    | false =>
      refine Or.inr (Or.inr ⟨rfl, ?_⟩)
      unfold serve
      dsimp only
      rw [if_neg (by rw [hst]; exact Bool.false_ne_true)]

theorem holds_served (m : Msg) : holds (served m) = false := by
  cases m <;> rfl

/-- With a message in hand that is not a request, STARTED plays. -/
theorem playsNow_of_started {m : Msg} (hl : P.loop = .got m) (hm : m ≠ .reqPause)
    (hst : P.mpState = .started) : PlaysNow P := by
  unfold PlaysNow
  rw [hl]
  cases m with
  | reqPause => exact absurd rfl hm
  | reqStart =>
    show chkst P.mpState = true
    rw [hst]
    rfl
  | flush | prepared | completed | error | bufferingStart | stateChanged | other => exact hst

theorem localOk_serve {m : Msg} (h : LocalOk P) (hl : P.loop = .got m) :
    LocalOk { P.serve m with loop := served m } := by
  cases hw : m.wakes with
  | false =>
    rw [serve_of_not_wakes hw]
    refine localOk_move h (holds_served m) (playsNow_of_started hl ?_)
    rintro rfl
    cases hw
  | true =>
    rcases serve_wakes P hw with ⟨hst, hne⟩ | ⟨rfl, hst, hstarted⟩ | ⟨hst, e⟩
    · exact localOk_quiet (P := { P.serve m with loop := served m }) hst hne (holds_served m)
    · -- an aborted player with an acceptable start in hand would play
      have hrun : P.aborted = false := by
        cases ha : P.aborted with
        | false => rfl
        | true =>
          refine absurd ?_ (h.halted ha)
          unfold PlaysNow
          rw [hl]
          exact hst
      refine localOk_of_chkst (P := { P.serve .reqStart with loop := .wait })
        ((sameThread_serve P .reqStart).aborted.trans hrun) ?_
      show chkst (P.serve .reqStart).mpState = true
      rw [hstarted]
      rfl
    · rw [e]
      refine localOk_move h (holds_served m) ?_
      intro hstarted
      rw [hstarted] at hst
      cases hst

theorem willPlay_serve {m : Msg} (hl : P.loop = .got m)
    (hplay : WillPlay { P.serve m with loop := served m }) : WillPlay P := by
  have hsame := sameThread_serve P m
  refine willPlay_of_playsNow (Q := { P.serve m with loop := served m }) hsame.aborted
    hsame.requests ?_ hplay
  rw [playsNow_started (P := { P.serve m with loop := served m }) (holds_served m)]
  intro hstarted
  cases hw : m.wakes with
  | false =>
    rw [serve_of_not_wakes hw] at hstarted
    refine playsNow_of_started hl ?_ hstarted
    rintro rfl
    cases hw
  | true =>
    rcases serve_wakes P hw with ⟨_, hne⟩ | ⟨rfl, hst, _⟩ | ⟨hst, e⟩
    · exact absurd hstarted hne
    · unfold PlaysNow
      rw [hl]
      exact hst
    · rw [e] at hstarted
      rw [show P.mpState = .started from hstarted] at hst
      cases hst

/-! ### A message of the player's own threads -/

/-- The threads that post exist only behind a successful `ffp_prepare_async_l`. Their one request
    is the start that `read_thread` posts for `auto_resume`, behind its PREPARED. -/
def mayPost (P : Player) (m : Msg) : Bool :=
  match m with
  | .reqStart => P.resumes && chkst P.mpState
  | .reqPause => false
  | _ => stoppable P.mpState

theorem mayPost_stoppable {m : Msg} (hm : P.mayPost m = true) : stoppable P.mpState = true := by
  cases m with
  | reqStart => exact stoppable_of_chkst (Bool.and_eq_true_iff.mp hm).2
  | reqPause => cases hm
  | flush | prepared | completed | error | bufferingStart | stateChanged | other => exact hm

/-- The request comes to a player that was started and is past its preparation. -/
theorem mayPost_request {m : Msg} (hm : P.mayPost m = true) (hreq : m.isReq = true) :
    m = .reqStart ∧ P.resumes = true ∧ chkst P.mpState = true := by
  cases m with
  | reqStart => exact ⟨rfl, Bool.and_eq_true_iff.mp hm⟩
  | reqPause => cases hm
  | flush | prepared | completed | error | bufferingStart | stateChanged | other => cases hreq

theorem localOk_post {m : Msg} (h : LocalOk P) (hm : P.mayPost m = true) : LocalOk (P.put m) := by
  have hst := mayPost_stoppable hm
  unfold put
  split
  · exact h
  · rename_i ha
    have hahead : ({ P with queue := P.queue ++ [m] } : Player).ahead = P.ahead ++ [m] := by
      unfold ahead
      dsimp only
      split <;> rfl
    refine ⟨?_, ?_, fun ha' => absurd ha' ha, h.stopped⟩
    · intro hd
      rw [show stoppable P.mpState = true from hst] at hd
      cases hd
    · intro hp m' hm'
      rw [hahead, List.mem_append, List.mem_singleton] at hm'
      rcases hm' with hm' | rfl
      · exact h.preparing hp m' hm'
      · cases hreq : m'.isReq with
        | false => rfl
        | true =>
          have hchk := (mayPost_request hm hreq).2.2
          rw [show P.mpState = .asyncPreparing from hp] at hchk
          cases hchk

theorem put_thread (P : Player) (m : Msg) : (P.put m).slot = P.slot ∧ (P.put m).loop = P.loop ∧
    (P.put m).target = P.target ∧ (P.put m).aborted = P.aborted := by
  unfold put
  split <;> exact ⟨rfl, rfl, rfl, rfl⟩

/-- A message lets nobody play, but for the request to start in the queue of a running player. -/
theorem willPlay_post {m : Msg} (hm : P.mayPost m = true) (hw : WillPlay (P.put m)) :
    WillPlay P ∨ m = .reqStart ∧ P.aborted = false := by
  cases hreq : m.isReq with
  | false =>
    have hsame := sameThread_put P hreq
    have hstate : (P.put m).mpState = P.mpState := by
      unfold put
      split <;> rfl
    refine Or.inl (willPlay_of_playsNow hsame.aborted hsame.requests ?_ hw)
    unfold PlaysNow
    rw [hsame.loop, hstate]
    exact id
  | true =>
    cases ha : P.aborted with
    | false => exact Or.inr ⟨(mayPost_request hm hreq).1, rfl⟩
    | true =>
      rw [put_aborted ha] at hw
      exact Or.inl hw

/-! ### What no step takes back -/

/-- Aborted with its thread created: nothing starts its queue again. -/
def Gone (P : Player) : Prop := P.aborted = true ∧ P.loop ≠ .none

/-- What every step that is not a call of the swipe on this player keeps. -/
structure Follows (P Q : Player) : Prop where
  slot : Q.slot = P.slot
  gone : Gone P → Gone Q
  settled : Settled P → Settled Q
  fresh : P.loop = .none → Q = P

theorem Follows.refl (P : Player) : Follows P P := ⟨rfl, id, id, fun _ => rfl⟩

/-- The player's thread exists and goes on. -/
theorem Follows.of_running {Q : Player} (hslot : Q.slot = P.slot) (ha : Q.aborted = P.aborted)
    (hl : P.loop ≠ .none) (hl' : Q.loop ≠ .none)
    (hs : stoppable P.mpState = false → stoppable Q.mpState = false) : Follows P Q where
  slot := hslot
  gone h := ⟨ha.trans h.1, hl'⟩
  settled h := by
    rcases h with h | h
    · exact Or.inl (ha.trans h)
    · exact Or.inr (hs h)
  fresh h := absurd h hl

/-- A request keeps all but the queue. -/
theorem requested_follows {m : Msg} (hst : chkst P.mpState = true)
    (hf : P.loop = .none → chkst P.mpState = false) : Follows P (P.requested m) := by
  have hl : P.loop ≠ .none := by
    intro h
    rw [hf h] at hst
    cases hst
  exact Follows.of_running rfl rfl hl hl id

theorem follows_start (hf : P.loop = .none → chkst P.mpState = false) : Follows P P.start := by
  rcases start_cases P with e | ⟨_, hst, e⟩
  · rw [e]
    exact Follows.refl P
  · rw [e]
    exact requested_follows hst hf

theorem follows_pause (hf : P.loop = .none → chkst P.mpState = false) : Follows P P.pause := by
  rcases pause_cases P with e | ⟨_, hst, e⟩
  · rw [e]
    exact Follows.refl P
  · rw [e]
    exact requested_follows hst hf

theorem start_thread (P : Player) : P.start.loop = P.loop ∧ P.start.target = P.target := by
  rcases start_cases P with e | ⟨_, _, e⟩
  · rw [e]
    exact ⟨rfl, rfl⟩
  · rw [e]
    exact ⟨rfl, rfl⟩

theorem pause_thread (P : Player) : P.pause.loop = P.loop ∧ P.pause.target = P.target := by
  rcases pause_cases P with e | ⟨_, _, e⟩
  · rw [e]
    exact ⟨rfl, rfl⟩
  · rw [e]
    exact ⟨rfl, rfl⟩

theorem follows_serve {m : Msg} (h : LocalOk P) (hl : P.loop = .got m) :
    Follows P { P.serve m with loop := served m } := by
  have hsame := sameThread_serve P m
  refine Follows.of_running hsame.slot hsame.aborted (by rw [hl]; nofun) ?_ ?_
  · show served m ≠ .none
    cases m <;> nofun
  · intro hs
    have hahead : m ∈ P.ahead := by
      unfold ahead
      rw [hl]
      exact List.mem_cons_self
    have e : P.serve m = P := serve_of_not_wakes (h.dormant hs m hahead)
    show stoppable (P.serve m).mpState = false
    rw [e]
    exact hs

end Loop

end Player

end Viral.Ijk
