/-
  File:      ViralEngine/Feed/Paced.lean
  Subject:   SWIPES WITH ALL MESSAGES DELIVERED IN BETWEEN
             (ViralEngine/core/ViralEngine.c, ijk-player/ijkmedia/ijkplayer/ijkplayer.c,
             ff_ffplay.c).

  The swipes are those of Feed/Pool.lean, and the players those of Feed/IjkPlayer.lean: a swipe
  makes its calls on them. Between two swipes the players' own threads post messages, and each
  message loop handles them one after the other, until none is left. Nothing fails.

  * `makeCall`, `Paced.swipe`, `Paced.handle`, `Paced.deliver` -- a swipe, and a round of
    `viral_msg_loop`;
  * `mayCome` -- what the threads of ff_ffplay.c post, and when;
  * `paced` -- the machine;
  * `Phase` -- what the `state` of a slot says of the player in it: PRELOADING and READY until the
    first `ijkmp_start`, and neither READY nor PAUSED behind it;
  * `PacedOk`, `pacedStep_ok` -- so in every run.
-/
import ViralEngine.Feed.Notes
import ViralEngine.Feed.Ring

namespace Viral.Feed

open Viral.Lib Viral.Ijk Viral.Ijk.Player

/-! ## 1. The machine -/

/-- The feed and its players, by their numbers. -/
structure Paced where
  feed : ViralFeed
  players : List Player

/-- A player of `viral_player_init_slot`: its `ijkmp_create`, `ijkmp_set_data_source` and
    `ijkmp_prepare_async`. -/
def newPlayer (k : Slot) : Player := (Player.create k).setDataSource.prepareAsync true

/-- A call of the history, made on the players. `stop` is logged for `ijkmp_stop` with the
    `ijkmp_shutdown` behind it, `prepareAsync` for the last of the calls that make a player. -/
def makeCall (created : List Int) (players : List Player) : Nat × MpCall → List Player
  | (mp, .stop) => players.modify mp fun P => P.stop.shutdown
  | (mp, .prepareAsync) =>
    match created[mp]? with
    | some index => players ++ [newPlayer (slotOf index)]
    | none => players
  | (mp, .pause) => players.modify mp .pause
  | (mp, .start) => players.modify mp .start
  | _ => players

/-- The calls that `viral_feed_scroll_to` makes. -/
def swipeCalls (feed : ViralFeed) (index : Int) : List (Nat × MpCall) :=
  (viralFeedScrollTo feed index).calls.drop feed.calls.length

namespace Paced

variable (s : Paced)

/-- `viral_feed_scroll_to`, with its calls. -/
def swipe (index : Int) : Paced :=
  let feed := viralFeedScrollTo s.feed index
  ⟨feed, (swipeCalls s.feed index).foldl (makeCall feed.created) s.players⟩

/-- A store into the `state` of a slot. -/
def store (k : Slot) (state : ViralState) : Paced :=
  { s with feed := s.feed.setSlot k { s.feed.pool k with state := state } }

/-- The `switch` of `viral_msg_loop`, on the slot the loop was given. -/
def handle (t : Nat) (P : Player) (m : Msg) : Paced :=
  let vp := P.slot
  match m with
  | .prepared =>
    let s := s.store vp .ready
    if (s.feed.pool vp).feedIndex = s.feed.currentIndex then
      ⟨s.feed.call t .start, s.players.modify t .start⟩
    else s
  | .stateChanged => if P.isPlaying then s.store vp .playing else s
  | .completed => s.store vp .idle
  | .error => s.store vp .error
  | _ => s

/-- **A round of the message loop of a player**: `ijkmp_get_msg`, which keeps a request to itself,
    and the `switch`. -/
def deliver (t : Nat) : Option Paced := do
  let P ← s.players[t]?
  if P.aborted then none
  else match P.queue with
    | [] => none
    | m :: rest =>
      let P := { P with queue := rest }.serve m
      let s : Paced := { s with players := s.players.set t P }
      some (if m.isReq then s else s.handle t P m)

/-- All messages are delivered. -/
def Delivered : Prop := ∀ P ∈ s.players, P.aborted = false → P.queue = []

end Paced

instance (s : Paced) : Decidable s.Delivered := inferInstanceAs (Decidable (∀ P ∈ s.players, _))

/-- **What the threads of a player post** when nothing fails: PREPARED once, while it is preparing;
    COMPLETED, and the `FFP_REQ_START` of `auto_resume`, only behind an `ffp_start_l`. -/
def mayCome (P : Player) : Msg → Bool
  | .prepared => P.mpState = .asyncPreparing ∧ .prepared ∉ P.queue
  | .completed | .reqStart => P.resumes
  | .flush | .bufferingStart | .other => true
  | .error | .stateChanged | .reqPause => false

/-- A swipe, a message, or a message handled. -/
inductive PacedAct where
  | swipe (index : Int)
  | post (mp : Nat) (m : Msg)
  | deliver (mp : Nat)
  deriving DecidableEq, Repr

/-- **One step.** A swipe comes when all messages are delivered. -/
def pacedStep (s : Paced) : PacedAct → Option Paced
  | .swipe index => if s.Delivered then some (s.swipe index) else none
  | .post mp m => do
    let P ← s.players[mp]?
    if mayCome P m then some { s with players := s.players.modify mp (·.put m) }
    else none
  | .deliver mp => s.deliver mp

/-- The feed with its URLs, one call after the other. -/
def paced (urls : List String) : Machine Paced PacedAct :=
  ⟨⟨viralFeedSetUrls viralFeedCreate urls, []⟩, pacedStep⟩

/-! ## 2. The phases of a player -/

/-- The messages in front of PREPARED, and this one. -/
def early : Msg → Bool
  | .flush | .bufferingStart | .other | .stateChanged | .prepared => true
  | _ => false

/-- The messages of a prepared player that was not started. -/
def idling : Msg → Bool
  | .flush | .bufferingStart | .other | .stateChanged | .reqPause => true
  | _ => false

/-- A start is on its way to the loop's store of PLAYING, and no pause. -/
def Underway (P : Player) : Prop :=
  .reqPause ∉ P.queue ∧
    (.reqStart ∈ P.queue ∨ P.mpState = .started ∧ .stateChanged ∈ P.queue)

/-- **What the `state` of a slot says of its player**; the flag: `ijkmp_start` was called on it. -/
inductive Phase (P : Player) : Bool → ViralState → Prop where
  | preparing (hst : P.mpState = .asyncPreparing) (hq : ∀ m ∈ P.queue, early m = true)
      (hone : P.queue.count .prepared ≤ 1) (hres : P.resumes = false) : Phase P false .preloading
  | ready (hst : P.mpState = .paused) (hq : ∀ m ∈ P.queue, idling m = true)
      (hres : P.resumes = false) : Phase P false .ready
  | begun (state : ViralState) (hstate : state ≠ .paused)
      (hst : P.mpState = .paused ∨ P.mpState = .started ∨ P.mpState = .completed)
      (hq : ∀ m ∈ P.queue, m ≠ .prepared ∧ m ≠ .error)
      (hshown : state = .ready → Underway P) : Phase P true state

section Phase

variable {P : Player} {started : Bool} {state : ViralState}

theorem newPlayer_eq (k : Slot) : newPlayer k =
    { Player.create k with
      mpState := .asyncPreparing
      queue := [.flush]
      aborted := false
      loop := .spawned } := rfl

theorem phase_newPlayer (k : Slot) : Phase (newPlayer k) false .preloading := by
  rw [newPlayer_eq]
  exact .preparing rfl (show ∀ m ∈ [Msg.flush], early m = true by decide)
    (show [Msg.flush].count .prepared ≤ 1 by decide) rfl

theorem Phase.ne_paused (h : Phase P started state) : state ≠ .paused := by
  cases h with
  | preparing _ _ _ _ => nofun
  | ready _ _ _ => nofun
  | begun _ hstate _ _ _ => exact hstate

theorem phase_chkst (h : Phase P true state ∨ Phase P false .ready) : chkst P.mpState = true := by
  rcases h with h | h
  · cases h with
    | begun _ _ hst _ _ => rcases hst with e | e | e <;> rw [e] <;> rfl
  · cases h with
    | ready hst _ _ =>
      rw [hst]
      rfl

/-- A player that has finished preparing shows READY exactly if it was not started, once its
    messages are delivered; it never shows PAUSED. -/
theorem Phase.shows (h : Phase P started state) (hprep : chkst P.mpState = true)
    (hq : P.queue = []) : (state = .ready ∨ state = .paused) ↔ started = false := by
  cases h with
  | preparing hst _ _ _ =>
    rw [hst] at hprep
    cases hprep
  | ready _ _ _ => exact iff_of_true (Or.inl rfl) rfl
  | begun _ hstate _ _ hshown =>
    refine iff_of_false ?_ (by decide)
    intro h
    rcases h with e | e
    · obtain ⟨_, hin | ⟨_, hin⟩⟩ := hshown e
      · rw [hq] at hin
        cases hin
      · rw [hq] at hin
        cases hin
    · exact hstate e

/-- **`ijkmp_pause`**, with all messages delivered. -/
theorem phase_pause (h : Phase P started state) (hq : P.queue = []) (ha : P.aborted = false) :
    Phase P.pause started state := by
  have hpause : P.pause = P ∨ P.pause = { P with queue := [.reqPause] } := by
    unfold Player.pause
    split
    · right
      rw [removeReqs_running ha, put_running (by exact ha), hq]
      rfl
    · exact Or.inl rfl
  rcases hpause with e | e
  · rw [e]
    exact h
  · cases h with
    | preparing hst _ _ hres =>
      have hno : P.pause = P := by
        unfold Player.pause
        rw [hst]
        rfl
      rw [hno]
      exact .preparing hst (by rw [hq]; nofun) (by rw [hq]; decide) hres
    | ready hst _ hres =>
      rw [e]
      exact .ready hst (show ∀ m ∈ [Msg.reqPause], idling m = true by decide) hres
    | begun state hstate hst _ hshown =>
      rw [e]
      refine .begun state hstate hst
        (show ∀ m ∈ [Msg.reqPause], m ≠ .prepared ∧ m ≠ .error by decide) fun hready => ?_
      obtain ⟨_, hin | ⟨_, hin⟩⟩ := hshown hready <;> rw [hq] at hin <;> cases hin

/-- **`ijkmp_start`** on a player that shows READY. -/
theorem phase_start (h : Phase P started .ready) (ha : P.aborted = false) :
    Phase P.start true .ready := by
  have hchk : chkst P.mpState = true := by
    cases started with
    | true => exact phase_chkst (Or.inl h)
    | false => exact phase_chkst (Or.inr h : Phase P true .ready ∨ Phase P false .ready)
  have hstart : P.start =
      { P with queue := P.queue.filter (fun m => !m.isReq) ++ [.reqStart] } := by
    unfold Player.start
    rw [if_pos hchk, removeReqs_running ha, put_running (by exact ha)]
  have hunder : Underway P.start := by
    rw [hstart]
    refine ⟨?_, Or.inl (List.mem_append_right _ (List.mem_singleton.mpr rfl))⟩
    intro hin
    rcases List.mem_append.mp hin with hold | hnew
    · exact absurd (List.mem_filter.mp hold).2 (by decide)
    · cases List.mem_singleton.mp hnew
  have hmsgs : ∀ m ∈ P.queue, m ≠ .prepared ∧ m ≠ .error := by
    cases h with
    | ready _ hq _ =>
      intro m hm
      have hidle := hq m hm
      constructor
      · intro e
        rw [e] at hidle
        cases hidle
      · intro e
        rw [e] at hidle
        cases hidle
    | begun _ _ _ hq _ => exact hq
  refine .begun .ready nofun ?_ ?_ fun _ => hunder
  · rw [start_mpState]
    cases h with
    | ready hst _ _ => exact Or.inl hst
    | begun _ _ hst _ _ => exact hst
  · rw [hstart]
    intro m hm
    rcases List.mem_append.mp hm with hold | hnew
    · exact hmsgs m (List.mem_filter.mp hold).1
    · rw [List.mem_singleton.mp hnew]
      exact ⟨nofun, nofun⟩

theorem changeState_running {st : MpState} (ha : P.aborted = false) :
    P.changeState st = { P with mpState := st, queue := P.queue ++ [.stateChanged] } := by
  unfold changeState
  exact put_running ha

/-- A message of the player's own threads. -/
theorem phase_put {m : Msg} (h : Phase P started state) (ha : P.aborted = false)
    (hm : mayCome P m = true) : Phase (P.put m) started state := by
  have hmem : ∀ {x : Msg}, x ∈ P.queue ++ [m] → x ∈ P.queue ∨ x = m := fun hx =>
    (List.mem_append.mp hx).imp id List.mem_singleton.mp
  rw [put_running ha]
  cases h with
  | preparing hst hq hone hres =>
    -- neither COMPLETED nor a start comes before `ffp_start_l`
    have hearly : early m = true := by
      cases m <;> first | rfl | (simp only [mayCome, hres] at hm; cases hm)
    refine .preparing hst (fun x hx => (hmem hx).elim (hq x) fun e => e ▸ hearly) ?_ hres
    show (P.queue ++ [m]).count .prepared ≤ 1
    rw [List.count_append]
    by_cases e : m = .prepared
    · rw [e] at hm ⊢
      have hno : Msg.prepared ∉ P.queue := (of_decide_eq_true hm).2
      rw [List.count_eq_zero.mpr hno]
      decide
    · have hzero : [m].count .prepared = 0 :=
        List.count_eq_zero.mpr fun hin => e (List.mem_singleton.mp hin).symm
      rw [hzero]
      exact hone
  | ready hst hq hres =>
    have hidle : idling m = true := by
      cases m <;> first | rfl | (simp only [mayCome, hres, hst] at hm; cases hm)
    exact .ready hst (fun x hx => (hmem hx).elim (hq x) fun e => e ▸ hidle) hres
  | begun state hstate hst hq hshown =>
    have hpast : m ≠ .prepared ∧ m ≠ .error ∧ m ≠ .reqPause := by
      refine ⟨?_, ?_, ?_⟩
      · intro e
        rw [e] at hm
        have hprep := (of_decide_eq_true hm).1
        rcases hst with e' | e' | e' <;> rw [e'] at hprep <;> cases hprep
      · intro e
        rw [e] at hm
        cases hm
      · intro e
        rw [e] at hm
        cases hm
    refine .begun state hstate hst (fun x hx => ?_) fun hready => ?_
    · rcases hmem hx with hold | rfl
      · exact hq x hold
      · exact ⟨hpast.1, hpast.2.1⟩
    · obtain ⟨hno, hgo⟩ := hshown hready
      refine ⟨fun hin => ?_, hgo.imp (List.mem_append_left _) fun hs =>
        ⟨hs.1, List.mem_append_left _ hs.2⟩⟩
      rcases hmem hin with hold | e
      · exact hno hold
      · exact hpast.2.2 e.symm

/-- What a round of the loop stores into the `state`; `Q` is the player behind `ijkmp_get_msg`. -/
def shownAfter (Q : Player) (m : Msg) (state : ViralState) : ViralState :=
  match m with
  | .prepared => .ready
  | .stateChanged => if Q.isPlaying then .playing else state
  | .completed => .idle
  | .error => .error
  | _ => state

/-- A request that `ijkmp_get_msg` serves. -/
theorem serve_request (rest : List Msg) (hchk : chkst P.mpState = true) (ha : P.aborted = false) :
    Player.serve { P with queue := rest } .reqStart =
        { P with mpState := .started, queue := rest ++ [.stateChanged], resumes := true } ∧
      Player.serve { P with queue := rest } .reqPause =
        { P with mpState := .paused, queue := rest ++ [.stateChanged] } := by
  have hstart := @changeState_running { P with queue := rest, resumes := true } .started ha
  have hpause := @changeState_running { P with queue := rest } .paused ha
  exact ⟨(if_pos hchk).trans hstart, (if_pos hchk).trans hpause⟩

/-- A round of the loop on a player that is preparing. -/
theorem phase_serve_preparing {m : Msg} {rest : List Msg} (hst : P.mpState = .asyncPreparing)
    (hearly : ∀ x ∈ m :: rest, early x = true) (hone : (m :: rest).count .prepared ≤ 1)
    (hres : P.resumes = false) (ha : P.aborted = false) :
    Phase ({ P with queue := rest }.serve m) false
      (shownAfter ({ P with queue := rest }.serve m) m .preloading) := by
  have hrest : ∀ x ∈ rest, early x = true := fun x hx => hearly x (List.mem_cons_of_mem m hx)
  have hstill : Phase { P with queue := rest } false .preloading :=
    .preparing hst hrest (Nat.le_trans List.count_le_count_cons hone) hres
  have hin := hearly m List.mem_cons_self
  cases m with
  | flush | bufferingStart | other => exact hstill
  | stateChanged =>
    have hno : Player.isPlaying { P with queue := rest } = false := by
      unfold Player.isPlaying
      rw [hst]
    show Phase { P with queue := rest } false (if Player.isPlaying { P with queue := rest } then
      .playing else .preloading)
    rw [hno]
    exact hstill
  | prepared =>
    have hserve : Player.serve { P with queue := rest } .prepared =
        { P with mpState := .paused, queue := rest ++ [.stateChanged] ++ [.stateChanged] } := by
      show Player.changeState (if P.mpState = .asyncPreparing then
        Player.changeState { P with queue := rest } .prepared else _) .paused = _
      rw [if_pos hst, changeState_running (P := { P with queue := rest }) ha]
      exact changeState_running (by exact ha)
    have hzero : Msg.prepared ∉ rest := by
      rw [List.count_cons_self] at hone
      exact List.count_eq_zero.mp (by omega)
    rw [hserve]
    refine .ready rfl (fun x hx => ?_) hres
    have hcases : x ∈ rest ∨ x = .stateChanged := by simpa [or_assoc] using hx
    rcases hcases with hold | rfl
    · have hx' := hrest x hold
      have hne : x ≠ .prepared := fun e => hzero (e ▸ hold)
      cases x <;> first | rfl | exact absurd rfl hne | cases hx'
    · rfl
  | completed | error | reqStart | reqPause => cases hin

/-- A round of the loop on a prepared player that was not started. -/
theorem phase_serve_ready {m : Msg} {rest : List Msg} (hst : P.mpState = .paused)
    (hidle : ∀ x ∈ m :: rest, idling x = true) (hres : P.resumes = false)
    (ha : P.aborted = false) :
    Phase ({ P with queue := rest }.serve m) false
      (shownAfter ({ P with queue := rest }.serve m) m .ready) := by
  have hrest : ∀ x ∈ rest, idling x = true := fun x hx => hidle x (List.mem_cons_of_mem m hx)
  have hstill : Phase { P with queue := rest } false .ready :=
    .ready hst hrest hres
  have hin := hidle m List.mem_cons_self
  cases m with
  | flush | bufferingStart | other => exact hstill
  | stateChanged =>
    have hno : Player.isPlaying { P with queue := rest } = false := by
      unfold Player.isPlaying
      rw [hst]
    show Phase { P with queue := rest } false (if Player.isPlaying { P with queue := rest } then
      .playing else .ready)
    rw [hno]
    exact hstill
  | reqPause =>
    rw [(serve_request rest (by rw [hst]; rfl) ha).2]
    refine .ready rfl (fun x hx => ?_) hres
    rcases List.mem_append.mp hx with hold | hnew
    · exact hrest x hold
    · rw [List.mem_singleton.mp hnew]
      rfl
  | prepared | completed | error | reqStart => cases hin

/-- A round of the loop that changes the state of a started player. -/
theorem phase_shift {st : MpState} {rest : List Msg} {resumes : Bool} (hstate : state ≠ .paused)
    (hst : st = .paused ∨ st = .started ∨ st = .completed)
    (hpast : ∀ x ∈ rest, x ≠ .prepared ∧ x ≠ .error)
    (hready : state = .ready → st = .started ∧ .reqPause ∉ rest) :
    Phase { P with mpState := st, queue := rest ++ [.stateChanged], resumes := resumes } true
      state := by
  refine .begun state hstate hst (fun x hx => ?_) fun e => ?_
  · rcases List.mem_append.mp hx with hold | hnew
    · exact hpast x hold
    · rw [List.mem_singleton.mp hnew]
      exact ⟨nofun, nofun⟩
  · obtain ⟨hs, hno⟩ := hready e
    refine ⟨fun hx => ?_, Or.inr ⟨hs, List.mem_append_right _ (List.mem_singleton.mpr rfl)⟩⟩
    rcases List.mem_append.mp hx with hold | hnew
    · exact hno hold
    · cases List.mem_singleton.mp hnew

/-- A round of the loop on a player that was started. -/
theorem phase_serve_begun {m : Msg} {rest : List Msg} (hstate : state ≠ .paused)
    (hst : P.mpState = .paused ∨ P.mpState = .started ∨ P.mpState = .completed)
    (hpast : ∀ x ∈ m :: rest, x ≠ .prepared ∧ x ≠ .error)
    (hshown : state = .ready → Underway { P with queue := m :: rest }) (ha : P.aborted = false) :
    Phase ({ P with queue := rest }.serve m) true
      (shownAfter ({ P with queue := rest }.serve m) m state) := by
  have hrest : ∀ x ∈ rest, x ≠ .prepared ∧ x ≠ .error := fun x hx =>
    hpast x (List.mem_cons_of_mem m hx)
  have hchk : chkst P.mpState = true := by
    rcases hst with e | e | e <;> rw [e] <;> rfl
  -- a start that is underway stays so unless its own message is in hand
  have hstill : m ≠ .reqStart → (m = .stateChanged → P.mpState ≠ .started) →
      Phase { P with queue := rest } true state := by
    intro hstart hchanged
    refine .begun state hstate hst hrest fun hready => ?_
    obtain ⟨hno, hgo⟩ := hshown hready
    refine ⟨fun hx => hno (List.mem_cons_of_mem m hx), ?_⟩
    rcases hgo with hx | ⟨hs, hx⟩
    · exact Or.inl ((List.mem_cons.mp hx).resolve_left fun e => hstart e.symm)
    · exact Or.inr ⟨hs, (List.mem_cons.mp hx).resolve_left fun e => hchanged e.symm hs⟩
  have hin := hpast m List.mem_cons_self
  cases m with
  | flush | bufferingStart | other => exact hstill nofun nofun
  | prepared => exact absurd rfl hin.1
  | error => exact absurd rfl hin.2
  | stateChanged =>
    show Phase { P with queue := rest } true (if Player.isPlaying { P with queue := rest } then
      .playing else state)
    split
    · exact .begun .playing nofun hst hrest nofun
    · rename_i hno
      refine hstill nofun fun _ hs => hno ?_
      unfold Player.isPlaying
      rw [hs]
  | completed =>
    show Phase (Player.changeState { P with queue := rest } .completed) true .idle
    rw [changeState_running (P := { P with queue := rest }) ha]
    exact phase_shift nofun (Or.inr (Or.inr rfl)) hrest nofun
  | reqStart =>
    rw [(serve_request rest hchk ha).1]
    exact phase_shift hstate (Or.inr (Or.inl rfl)) hrest fun hready =>
      ⟨rfl, fun hx => (hshown hready).1 (List.mem_cons_of_mem _ hx)⟩
  | reqPause =>
    rw [(serve_request rest hchk ha).2]
    exact phase_shift hstate (Or.inl rfl) hrest fun hready =>
      absurd List.mem_cons_self (hshown hready).1

/-- **A round of the loop.** -/
theorem phase_serve {m : Msg} {rest : List Msg} (h : Phase P started state)
    (hq : P.queue = m :: rest) (ha : P.aborted = false) :
    Phase ({ P with queue := rest }.serve m) started
      (shownAfter ({ P with queue := rest }.serve m) m state) := by
  cases h with
  | preparing hst hearly hone hres =>
    rw [hq] at hearly hone
    exact phase_serve_preparing hst hearly hone hres ha
  | ready hst hidle hres =>
    rw [hq] at hidle
    exact phase_serve_ready hst hidle hres ha
  | begun _ hstate hst hpast hshown =>
    rw [hq] at hpast
    refine phase_serve_begun hstate hst hpast (fun e => ?_) ha
    rw [← hq]
    exact hshown e

end Phase

/-! ## 3. The invariant -/

/-- `ijkmp_start` was called on the player. -/
def startedIn (feed : ViralFeed) (mp : Nat) : Bool := feed.calls.contains (mp, .start)

/-- **The feed and its players.** A player outside its slot is aborted. -/
structure PacedOk (f : ViralFeed) (ps : List Player) : Prop where
  made : f.created.length = ps.length
  unborn : ∀ mp, ps.length ≤ mp → startedIn f mp = false
  home : ∀ mp P, ps[mp]? = some P → P.aborted = false → (f.pool P.slot).mp = some mp
  slots : ∀ k mp, (f.pool k).mp = some mp → ∃ P, ps[mp]? = some P ∧ P.slot = k ∧
    P.aborted = false ∧ Phase P (startedIn f mp) (f.pool k).state

section PacedOk

variable {f g : ViralFeed} {ps qs : List Player}

theorem startedIn_call (f : ViralFeed) (mp j : Nat) (c : MpCall) :
    startedIn (f.call mp c) j = (startedIn f j || (decide (j = mp) && decide (c = .start))) := by
  unfold startedIn ViralFeed.call
  simp [Prod.ext_iff, eq_comm]

/-- The index is no part of it. -/
theorem PacedOk.same (h : PacedOk f ps) (hpool : g.pool = f.pool) (hcalls : g.calls = f.calls)
    (hcreated : g.created = f.created) : PacedOk g ps := by
  have hstarted : startedIn g = startedIn f := by
    unfold startedIn
    rw [hcalls]
  constructor
  · rw [hcreated]
    exact h.made
  · rw [hstarted]
    exact h.unborn
  · rw [hpool]
    exact h.home
  · rw [hpool, hstarted]
    exact h.slots

/-- **One player changes, and the `state` of its slot.** -/
theorem PacedOk.change (h : PacedOk f ps) {mp : Nat} {P Q : Player} (hP : ps[mp]? = some P)
    (hmp : (f.pool P.slot).mp = some mp) (hslot : Q.slot = P.slot) (ha : Q.aborted = false)
    (hring : ∀ k, (g.pool k).mp = (f.pool k).mp)
    (hother : ∀ k, k ≠ P.slot → (g.pool k).state = (f.pool k).state)
    (hcreated : g.created = f.created) (hstarted : ∀ j, j ≠ mp → startedIn g j = startedIn f j)
    (hphase : Phase Q (startedIn g mp) (g.pool P.slot).state) : PacedOk g (ps.set mp Q) := by
  have hlt := (List.getElem?_eq_some_iff.mp hP).1
  refine ⟨by rw [hcreated, List.length_set, h.made], ?_, ?_, ?_⟩
  · intro j hj
    rw [List.length_set] at hj
    rw [hstarted j (by omega)]
    exact h.unborn j hj
  · intro j R hR hab
    rw [hring]
    rw [List.getElem?_set] at hR
    split at hR
    · rename_i e
      cases hR
      rw [hslot, hmp, e]
    · exact h.home j R hR hab
  · intro k j hj
    rw [hring] at hj
    obtain ⟨R, hR, hRk, hRa, hRp⟩ := h.slots k j hj
    by_cases e : mp = j
    · subst e
      have eRP : R = P := Option.some.inj (hR.symm.trans hP)
      have ek : P.slot = k := eRP ▸ hRk
      refine ⟨Q, ?_, hslot.trans ek, ha, ek ▸ hphase⟩
      rw [List.getElem?_set, if_pos rfl, if_pos hlt]
    · have hk : k ≠ P.slot := by
        intro ek
        rw [ek, hmp] at hj
        exact e (Option.some.inj hj)
      refine ⟨R, ?_, hRk, hRa, ?_⟩
      · rw [List.getElem?_set, if_neg e]
        exact hR
      · rw [hstarted j fun e' => e e'.symm, hother k hk]
        exact hRp

/-- A live player is in its slot, in a phase. -/
theorem PacedOk.phase (h : PacedOk f ps) {mp : Nat} {P : Player} (hP : ps[mp]? = some P)
    (ha : P.aborted = false) : (f.pool P.slot).mp = some mp ∧
      Phase P (startedIn f mp) (f.pool P.slot).state := by
  have hmp := h.home mp P hP ha
  obtain ⟨R, hR, _, _, hphase⟩ := h.slots _ mp hmp
  rw [Option.some.inj (hR.symm.trans hP)] at hphase
  exact ⟨hmp, hphase⟩

/-- **A player is paused**, with its messages delivered. -/
theorem PacedOk.pause (h : PacedOk f ps) {mp : Nat} {P : Player} (hP : ps[mp]? = some P)
    (ha : P.aborted = false) (hq : P.queue = []) :
    PacedOk (f.call mp .pause) (ps.set mp P.pause) := by
  obtain ⟨hmp, hphase⟩ := h.phase hP ha
  have hab : P.pause.aborted = false := by
    rcases pause_cases P with e | ⟨_, _, e⟩ <;> rw [e] <;> exact ha
  refine h.change hP hmp (kin_pause P).slot hab (fun _ => rfl) (fun _ _ => rfl) rfl
    (fun j _ => ?_) ?_
  · rw [startedIn_call]
    simp
  · rw [startedIn_call]
    simp only [reduceCtorEq, decide_false, Bool.and_false, Bool.or_false]
    exact phase_pause hphase hq ha

/-- **A player whose slot shows READY is started.** -/
theorem PacedOk.start (h : PacedOk f ps) {mp : Nat} {P : Player} (hP : ps[mp]? = some P)
    (ha : P.aborted = false) (hready : (f.pool P.slot).state = .ready) :
    PacedOk (f.call mp .start) (ps.set mp P.start) := by
  obtain ⟨hmp, hphase⟩ := h.phase hP ha
  rw [hready] at hphase
  have hab : P.start.aborted = false := by
    rcases start_cases P with e | ⟨_, _, e⟩ <;> rw [e] <;> exact ha
  refine h.change hP hmp (kin_start P).slot hab (fun _ => rfl) (fun _ _ => rfl) rfl
    (fun j hj => ?_) ?_
  · rw [startedIn_call]
    simp [hj]
  · rw [startedIn_call]
    show Phase P.start _ (f.pool P.slot).state
    rw [hready]
    simp only [decide_true, Bool.and_self, Bool.or_true]
    exact phase_start hphase ha

/-- The calls on the player of a slot that is given up. -/
def retired (vp : ViralPlayer) (ps : List Player) : List Player :=
  match vp.mp with
  | some mp => ps.modify mp fun P => P.stop.shutdown
  | none => ps

theorem retired_length (vp : ViralPlayer) (ps : List Player) :
    (retired vp ps).length = ps.length := by
  unfold retired
  split
  · exact List.length_modify _ _ _
  · rfl

/-- **A slot gives up its player.** -/
theorem PacedOk.retire (h : PacedOk f ps) {k : Slot} {vp : ViralPlayer} (hvp : vp.mp = none)
    (hpool : ∀ j, g.pool j = if j = k then vp else f.pool j) (hcreated : g.created = f.created)
    (hstarted : ∀ j, startedIn g j = startedIn f j) : PacedOk g (retired (f.pool k) ps) := by
  have hkeep : ∀ j P, (f.pool k).mp ≠ some j →
      ((retired (f.pool k) ps)[j]? = some P ↔ ps[j]? = some P) := by
    intro j P hj
    unfold retired
    split
    · rename_i mp hmp
      have hne : mp ≠ j := fun e => hj (by rw [hmp, e])
      rw [List.getElem?_modify]
      simp [hne]
    · exact Iff.rfl
  refine ⟨by rw [hcreated, retired_length, h.made], ?_, ?_, ?_⟩
  · intro j hj
    rw [retired_length] at hj
    rw [hstarted]
    exact h.unborn j hj
  · intro j P hP hab
    have hother : (f.pool k).mp ≠ some j := by
      intro e
      unfold retired at hP
      rw [e] at hP
      obtain ⟨R, _, ⟨_, hR⟩ | ⟨hne, _⟩⟩ := modify_cases hP
      · rw [hR] at hab
        cases hab
      · exact hne rfl
    have hmp := h.home j P ((hkeep j P hother).mp hP) hab
    have hk : P.slot ≠ k := fun e => hother (e ▸ hmp)
    rw [hpool, if_neg hk]
    exact hmp
  · intro j mp hmp
    rw [hpool] at hmp ⊢
    by_cases e : j = k
    · rw [if_pos e, hvp] at hmp
      cases hmp
    · rw [if_neg e] at hmp ⊢
      obtain ⟨P, hP, hslot, ha, hphase⟩ := h.slots j mp hmp
      have hother : (f.pool k).mp ≠ some mp := by
        intro ek
        obtain ⟨R, hR, hRk, _, _⟩ := h.slots k mp ek
        rw [Option.some.inj (hR.symm.trans hP), hslot] at hRk
        exact e hRk
      refine ⟨P, (hkeep mp P hother).mpr hP, hslot, ha, ?_⟩
      rw [hstarted]
      exact hphase

/-- **An empty slot gets a new player.** -/
theorem PacedOk.make (h : PacedOk f ps) {k : Slot} {vp : ViralPlayer} {index : Int}
    (hempty : (f.pool k).mp = none) (hvp : vp.mp = some ps.length) (hstate : vp.state = .preloading)
    (hpool : ∀ j, g.pool j = if j = k then vp else f.pool j)
    (hcreated : g.created = f.created ++ [index])
    (hstarted : ∀ j, startedIn g j = startedIn f j) : PacedOk g (ps ++ [newPlayer k]) := by
  refine ⟨by rw [hcreated, List.length_append, List.length_append, h.made]; rfl, ?_, ?_, ?_⟩
  · intro j hj
    rw [List.length_append, List.length_singleton] at hj
    rw [hstarted]
    exact h.unborn j (by omega)
  · intro j P hP hab
    rw [hpool]
    rcases Nat.lt_or_ge j ps.length with hlt | hge
    · rw [List.getElem?_append_left hlt] at hP
      have hmp := h.home j P hP hab
      have hk : P.slot ≠ k := by
        intro e
        rw [e, hempty] at hmp
        cases hmp
      rw [if_neg hk]
      exact hmp
    · have e : j = ps.length := by
        have hlt := (List.getElem?_eq_some_iff.mp hP).1
        rw [List.length_append, List.length_singleton] at hlt
        omega
      subst e
      rw [List.getElem?_concat_length] at hP
      cases hP
      show (if k = k then vp else f.pool k).mp = _
      rw [if_pos rfl, hvp]
  · intro j mp hmp
    rw [hpool] at hmp ⊢
    by_cases e : j = k
    · rw [if_pos e, hvp] at hmp
      cases hmp
      refine ⟨newPlayer k, List.getElem?_concat_length, e.symm, rfl, ?_⟩
      rw [if_pos e, hstate, hstarted, h.unborn _ (Nat.le_refl _)]
      exact phase_newPlayer k
    · rw [if_neg e] at hmp ⊢
      obtain ⟨P, hP, hslot, ha, hphase⟩ := h.slots j mp hmp
      refine ⟨P, ?_, hslot, ha, ?_⟩
      · rw [List.getElem?_append_left (List.getElem?_eq_some_iff.mp hP).1]
        exact hP
      · rw [hstarted]
        exact hphase

end PacedOk

/-! ## 4. A swipe -/

/-- The feed `f` with the players `qs` is on the way: the calls made since `base` turn `ps` into
    `qs`. -/
def Replays (base : List (Nat × MpCall)) (ps : List Player) (f : ViralFeed) (qs : List Player) :
    Prop :=
  ∃ l, f.calls = base ++ l ∧ ∀ created, f.created <+: created →
    l.foldl (makeCall created) ps = qs

/-- On the way, and well formed. -/
def Ongoing (base : List (Nat × MpCall)) (ps : List Player) (f : ViralFeed) : Prop :=
  ∃ qs, Replays base ps f qs ∧ PacedOk f qs

section Swipe

variable {base : List (Nat × MpCall)} {f g : ViralFeed} {ps qs rs : List Player} {index : Int}

theorem replays_refl (f : ViralFeed) (ps : List Player) : Replays f.calls ps f ps :=
  ⟨[], (List.append_nil _).symm, fun _ _ => rfl⟩

/-- One call more. -/
theorem Replays.call (h : Replays base ps f qs) {c : Nat × MpCall}
    (hcalls : g.calls = f.calls ++ [c]) (hcreated : f.created <+: g.created)
    (hmake : ∀ created, g.created <+: created → makeCall created qs c = rs) :
    Replays base ps g rs := by
  obtain ⟨l, hl, hrun⟩ := h
  refine ⟨l ++ [c], by rw [hcalls, hl, List.append_assoc], fun created hpre => ?_⟩
  rw [List.foldl_append, hrun created (hcreated.trans hpre)]
  exact hmake created hpre

theorem Replays.still (h : Replays base ps f qs) (hcalls : g.calls = f.calls)
    (hcreated : g.created = f.created) : Replays base ps g qs := by
  obtain ⟨l, hl, hrun⟩ := h
  exact ⟨l, hcalls.trans hl, fun created hpre => hrun created (hcreated ▸ hpre)⟩

/-- The player of a slot is stopped, and leaves it. -/
theorem Ongoing.retire (h : Ongoing base ps f) (k : Slot) {vp : ViralPlayer} (hvp : vp.mp = none) :
    Ongoing base ps ((f.stopMp (f.pool k)).setSlot k vp) := by
  obtain ⟨qs, hrep, hok⟩ := h
  obtain ⟨hpool, _, _, hcreated⟩ := stopMp_frame f (f.pool k)
  refine ⟨retired (f.pool k) qs, ?_, ?_⟩
  · unfold ViralFeed.stopMp retired
    cases (f.pool k).mp with
    | some mp => exact hrep.call (c := (mp, .stop)) rfl (List.prefix_refl _) fun _ _ => rfl
    | none => exact hrep.still rfl rfl
  · refine hok.retire hvp (fun j => ?_) hcreated fun j => ?_
    · show (if j = k then vp else (f.stopMp (f.pool k)).pool j) = _
      rw [hpool]
    · show startedIn (f.stopMp (f.pool k)) j = _
      unfold ViralFeed.stopMp
      split
      · rw [startedIn_call]
        simp
      · rfl

/-- `viral_player_init_slot` on an index of the list. -/
theorem Ongoing.initSlot (h : Ongoing base ps f) {next : Int} (hv : f.Valid next) :
    Ongoing base ps (viralPlayerInitSlot f (slotOf next) next) := by
  have hempty : Ongoing base ps ((f.stopMp (f.pool (slotOf next))).setSlot (slotOf next)
      { mp := none, state := .idle, feedIndex := next, url := none, surfaceSet := false }) :=
    h.retire (slotOf next) rfl
  obtain ⟨hpool, hurls, _, hcreated⟩ := stopMp_frame f (f.pool (slotOf next))
  have hin : ¬ (next < 0 ∨ (f.stopMp (f.pool (slotOf next))).urlCount ≤ next) := by
    unfold ViralFeed.urlCount
    rw [hurls]
    have h0 := hv.1
    have h1 : next < f.urls.length := hv.2
    omega
  obtain ⟨qs, hrep, hok⟩ := hempty
  unfold viralPlayerInitSlot
  dsimp only
  rw [if_neg hin]
  generalize f.stopMp (f.pool (slotOf next)) = s at hrep hok ⊢
  have hmade : s.created.length = qs.length := hok.made
  refine ⟨qs ++ [newPlayer (slotOf next)], ?_, ?_⟩
  · refine hrep.call (c := (s.created.length, .prepareAsync)) rfl ⟨[next], rfl⟩ ?_
    intro created hpre
    have hget : created[s.created.length]? = some next := by
      obtain ⟨rest, hrest⟩ := hpre
      rw [← hrest]
      show (s.created ++ [next] ++ rest)[s.created.length]? = some next
      rw [List.append_assoc, List.getElem?_append_right (Nat.le_refl _), Nat.sub_self]
      rfl
    simp only [makeCall, hget]
  · have hempty : ((s.setSlot (slotOf next) ⟨none, .idle, next, none, false⟩).pool
        (slotOf next)).mp = none := by
      unfold ViralFeed.setSlot
      dsimp only
      rw [if_pos rfl]
    have hnew : (ViralPlayer.mk (some s.created.length) .preloading next s.urls[next.toNat]?
        false).mp = some qs.length := congrArg some hmade
    refine hok.make hempty hnew rfl (fun j => ?_) rfl fun j => ?_
    · show (if j = slotOf next then _ else s.pool j) =
        if j = slotOf next then _ else if j = slotOf next then _ else s.pool j
      by_cases e : j = slotOf next
      · rw [if_pos e, if_pos e]
      · rw [if_neg e, if_neg e, if_neg e]
    · rw [startedIn_call]
      simp only [reduceCtorEq, decide_false, Bool.and_false, Bool.or_false]
      rfl

/-- 1. The previous video is paused; all messages are delivered. -/
theorem Ongoing.pausePrev {prev : Int} (hok : PacedOk f ps)
    (hdone : ∀ P ∈ ps, P.aborted = false → P.queue = []) :
    Ongoing f.calls ps (pausePrev f prev index) := by
  have hstill : Ongoing f.calls ps f := ⟨ps, replays_refl f ps, hok⟩
  unfold Feed.pausePrev
  dsimp only
  split
  · split
    · rename_i mp hmp
      split
      · obtain ⟨P, hP, _, ha, _⟩ := hok.slots _ mp hmp
        have hq : P.queue = [] := hdone P (List.mem_of_getElem? hP) ha
        refine ⟨ps.set mp P.pause, ?_, hok.pause hP ha hq⟩
        refine (replays_refl f ps).call (c := (mp, .pause)) rfl (List.prefix_refl _) fun _ _ => ?_
        exact modify_of_get hP Player.pause
      · exact hstill
    · exact hstill
  · exact hstill

/-- 2. The current video is started or made. -/
theorem Ongoing.playOrPrepare (h : Ongoing base ps f) (hv : f.Valid index) :
    Ongoing base ps (playOrPrepare f index) := by
  have hinit := h.initSlot hv
  unfold Feed.playOrPrepare
  dsimp only
  split
  · rename_i mp hmp
    split
    · split
      · rename_i hready
        obtain ⟨qs, hrep, hok⟩ := h
        obtain ⟨P, hP, hslot, ha, hphase⟩ := hok.slots _ mp hmp
        have hstate : (f.pool (slotOf index)).state = .ready := by
          rcases hready with e | e
          · exact e
          · exact absurd e hphase.ne_paused
        refine ⟨qs.set mp P.start, ?_, hok.start hP ha (by rw [hslot]; exact hstate)⟩
        refine hrep.call (c := (mp, .start)) rfl (List.prefix_refl _) fun _ _ => ?_
        exact modify_of_get hP Player.start
      · exact h
    · exact hinit
  · exact hinit

/-- 3. The next videos are made. -/
theorem Ongoing.preload (hindex : 0 ≤ index) (left : Nat) : ∀ {f : ViralFeed} (i : Nat),
    Ongoing base ps f → Ongoing base ps (preload f index i left) := by
  induction left with
  | zero => intro f i h; exact h
  | succ left ih =>
    intro f i h
    rw [preload_succ]
    split
    · exact h
    · rename_i hend
      refine ih (i + 1) ?_
      unfold preloadOne
      split
      · exact h.initSlot ⟨by omega, by omega⟩
      · exact h

/-- 4. The player too far behind is released. -/
theorem Ongoing.releaseBehind (h : Ongoing base ps f) (before : Int) :
    Ongoing base ps (releaseBehind f before) := by
  unfold Feed.releaseBehind
  dsimp only
  split
  · split
    · exact h.retire (slotOf before) rfl
    · exact h
  · exact h

/-- **A swipe**, with all messages delivered. -/
theorem PacedOk.swipe {s : Paced} (h : PacedOk s.feed s.players) (hdone : s.Delivered)
    (index : Int) : PacedOk (s.swipe index).feed (s.swipe index).players := by
  have hall : Ongoing s.feed.calls s.players (viralFeedScrollTo s.feed index) := by
    unfold viralFeedScrollTo
    split
    · rename_i hv
      dsimp only
      have hpause : Ongoing s.feed.calls s.players
          (pausePrev { s.feed with currentIndex := index } s.feed.currentIndex index) :=
        Ongoing.pausePrev (f := { s.feed with currentIndex := index }) (h.same rfl rfl rfl) hdone
      have hframe := pausePrev_frame { s.feed with currentIndex := index } s.feed.currentIndex index
      refine ((hpause.playOrPrepare ?_).preload hv.1 viralPreloadCount 1).releaseBehind _
      unfold ViralFeed.Valid ViralFeed.urlCount
      rw [hframe.2.1]
      exact hv
    · exact ⟨s.players, replays_refl _ _, h⟩
  obtain ⟨qs, ⟨l, hl, hrun⟩, hok⟩ := hall
  have hcalls : swipeCalls s.feed index = l := by
    unfold swipeCalls
    rw [hl, List.drop_left]
  show PacedOk (viralFeedScrollTo s.feed index) ((swipeCalls s.feed index).foldl _ s.players)
  rw [hcalls, hrun _ (List.prefix_refl _)]
  exact hok

end Swipe

/-! ## 5. Every step -/

section Step

variable {s t : Paced} {mp : Nat} {P Q : Player}

/-- A player that stays in its slot changes, and what the slot shows. -/
theorem PacedOk.store (h : PacedOk s.feed s.players) (hP : s.players[mp]? = some P)
    (ha : P.aborted = false) (hslot : Q.slot = P.slot) (ha' : Q.aborted = false)
    {shown : ViralState} (hphase : Phase Q (startedIn s.feed mp) shown) :
    PacedOk (s.store P.slot shown).feed (s.players.set mp Q) := by
  have hpool : ∀ k, (s.store P.slot shown).feed.pool k =
      if k = P.slot then { s.feed.pool P.slot with state := shown } else s.feed.pool k :=
    fun _ => rfl
  refine h.change hP (h.phase hP ha).1 hslot ha' (fun k => ?_) (fun k hk => ?_) rfl
    (fun _ _ => rfl) ?_
  · rw [hpool]
    by_cases e : k = P.slot
    · rw [if_pos e, e]
    · rw [if_neg e]
  · rw [hpool, if_neg hk]
  · rw [hpool, if_pos rfl]
    exact hphase

/-- A player changes, and its slot shows what it did. -/
theorem PacedOk.set (h : PacedOk s.feed s.players) (hP : s.players[mp]? = some P)
    (ha : P.aborted = false) (hslot : Q.slot = P.slot) (ha' : Q.aborted = false)
    (hphase : Phase Q (startedIn s.feed mp) (s.feed.pool P.slot).state) :
    PacedOk s.feed (s.players.set mp Q) :=
  h.change hP (h.phase hP ha).1 hslot ha' (fun _ => rfl) (fun _ _ => rfl) rfl (fun _ _ => rfl)
    hphase

/-- The `switch` of the loop, behind `ijkmp_get_msg`. -/
theorem PacedOk.handle {m : Msg} (h : PacedOk s.feed s.players) (hP : s.players[mp]? = some P)
    (ha : P.aborted = false) (hslot : Q.slot = P.slot) (ha' : Q.aborted = false)
    (hphase : Phase Q (startedIn s.feed mp) (shownAfter Q m (s.feed.pool P.slot).state)) :
    PacedOk (Paced.handle ⟨s.feed, s.players.set mp Q⟩ mp Q m).feed
      (Paced.handle ⟨s.feed, s.players.set mp Q⟩ mp Q m).players := by
  have hlt := (List.getElem?_eq_some_iff.mp hP).1
  have hQ : (s.players.set mp Q)[mp]? = some Q := List.getElem?_set_self hlt
  unfold Paced.handle
  rw [hslot]
  cases m with
  | prepared =>
    have hstored := h.store hP ha hslot ha' hphase
    dsimp only
    split
    · -- the case of PREPARED for the current video
      show PacedOk _ ((s.players.set mp Q).modify mp .start)
      rw [modify_of_get hQ]
      refine hstored.start hQ ha' ?_
      rw [hslot]
      show (if P.slot = P.slot then _ else s.feed.pool P.slot).state = .ready
      rw [if_pos rfl]
      rfl
    · exact hstored
  | stateChanged =>
    dsimp only
    unfold shownAfter at hphase
    dsimp only at hphase
    split
    · rename_i hplay
      rw [if_pos hplay] at hphase
      exact h.store hP ha hslot ha' hphase
    · rename_i hplay
      rw [if_neg hplay] at hphase
      exact h.set hP ha hslot ha' hphase
  | completed | error => exact h.store hP ha hslot ha' hphase
  | flush | bufferingStart | other | reqStart | reqPause => exact h.set hP ha hslot ha' hphase

/-- **One step keeps the phases.** -/
theorem pacedStep_ok {a : PacedAct} (h : PacedOk s.feed s.players)
    (hstep : pacedStep s a = some t) : PacedOk t.feed t.players := by
  cases a with
  | swipe index =>
    unfold pacedStep at hstep
    dsimp only at hstep
    split at hstep
    · rename_i hdone
      cases hstep
      exact h.swipe hdone index
    · cases hstep
  | post mp m =>
    simp only [pacedStep, Option.bind_eq_bind] at hstep
    obtain ⟨P, hP, hrest⟩ := Option.bind_eq_some_iff.mp hstep
    split at hrest
    · rename_i hm
      cases hrest
      rw [modify_of_get hP]
      by_cases ha : P.aborted = false
      · have hphase := phase_put (h.phase hP ha).2 ha hm
        have hput : (P.put m).slot = P.slot ∧ (P.put m).aborted = false := by
          rw [put_running ha]
          exact ⟨rfl, ha⟩
        exact h.set hP ha hput.1 hput.2 hphase
      · obtain ⟨hlt, e⟩ := List.getElem?_eq_some_iff.mp hP
        rw [put_aborted (eq_true_of_ne_false ha), ← e, List.set_getElem_self hlt]
        exact h
    · cases hrest
  | deliver mp =>
    simp only [pacedStep, Paced.deliver, Option.bind_eq_bind] at hstep
    obtain ⟨P, hP, hrest⟩ := Option.bind_eq_some_iff.mp hstep
    split at hrest
    · cases hrest
    · rename_i hab
      have ha : P.aborted = false := Bool.eq_false_iff.mpr hab
      split at hrest
      · cases hrest
      · rename_i m rest hq
        have hphase := phase_serve (h.phase hP ha).2 hq ha
        have hthread := sameThread_serve { P with queue := rest } m
        have ha' : (Player.serve { P with queue := rest } m).aborted = false :=
          hthread.aborted.trans ha
        cases hrest
        split
        · rename_i hreq
          refine h.set hP ha hthread.slot ha' ?_
          cases m with
          | reqStart | reqPause => exact hphase
          | flush | prepared | completed | error | bufferingStart | stateChanged | other =>
            cases hreq
        · exact h.handle hP ha hthread.slot ha' hphase

theorem reach_pacedOk {urls : List String} (h : (paced urls).Reach Machine.Any s) :
    PacedOk s.feed s.players := by
  refine h.invariant (I := fun s => PacedOk s.feed s.players) ?_ fun _ _ _ hi _ hs =>
    pacedStep_ok hi hs
  exact ⟨rfl, fun _ _ => rfl, fun _ P hP => absurd hP (Option.some_ne_none P).symm,
    fun _ mp hmp => absurd hmp (Option.some_ne_none mp).symm⟩

end Step

end Viral.Feed
