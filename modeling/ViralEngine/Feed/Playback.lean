/-
  File:      ViralEngine/Feed/Playback.lean
  Subject:   THE FEED WITH ITS MESSAGE LOOPS, STEP BY STEP
             (ViralEngine/core/ViralEngine.c over Feed/IjkPlayer.lean).

  `viral_feed_scroll_to` works under the feed's lock, so at most one such call is under way;
  `viral_feed_play` and `viral_feed_pause` take no lock, and neither do the message loops. A step
  is one access of `current_index` or of a field of a slot that another thread may use, or one
  call of ijkplayer. What only the holder of the lock writes is read together with the next step.

  * `ScrollPc`, `InitPc`, `CallPc` -- the places of the three kinds of calls (`LoopPc` of
    Feed/IjkPlayer.lean has those of the loops);
  * `scrollStep`, `callStep`, `loopStep` -- one step of each;
  * `playback` -- the machine, on a list of videos set beforehand;
  * `InitMove`, `ScrollMove`, `scrollStep_cases` -- what a step of the swipe does, place by place;
  * `LoopDo`, `loopStep_do` -- what a step of a message loop does, place by place;
  * `CallMove`, `callStep_cases`, `post_cases` -- what a step of a call without the lock, and a
    message of a player's own threads, does.

  The callback is set. `vp->feed_index == feed->current_index` reads its left side first. A call
  that finds NULL behind its own test stays at `crashed`.
-/
import ViralEngine.Feed.IjkPlayer

namespace Viral.Feed

open Viral.Lib Viral.Ijk

/-! ## 1. States -/

/-- The places of `viral_player_init_slot`. -/
inductive InitPc where
  | stop | shutdown | clear | number | create | source | preloading | prepare
  deriving DecidableEq, Repr

/-- The places of `viral_feed_scroll_to` behind its store of `current_index`; `init i` prepares
    the video `index + i`. -/
inductive ScrollPc where
  | pausePrev (prev : Int)
  | play
  | start (mp : Nat)
  | init (i : Nat) (pc : InitPc)
  | preload (i : Nat)
  | release
  | releaseShutdown
  | releaseClear
  deriving DecidableEq, Repr

/-- `viral_feed_play` and `viral_feed_pause`. -/
inductive Cmd where
  | play | pause
  deriving DecidableEq, Repr

/-- Their places; `vp->mp` is read twice. -/
inductive CallPc where
  | readIndex
  | testMp (k : Slot)
  | readMp (k : Slot)
  | act (mp : Nat)
  | crashed
  deriving DecidableEq, Repr

/-- The shared state, the call that holds the lock with its `index`, the other calls, and the
    callbacks fired so far with the player whose loop fired them. -/
structure State where
  feed : ViralFeed
  players : List Player
  scroll : Option (Int × ScrollPc)
  calls : List (Cmd × CallPc)
  fired : List (Nat × Int × ViralEvent)

namespace State

variable (s : State)

/-- A call of ijkplayer on a player. -/
def onPlayer (mp : Nat) (f : Player → Player) : State :=
  { s with players := s.players.modify mp f }

/-- The loop of a player is at another place. -/
def setLoop (t : Nat) (pc : LoopPc) : State := s.onPlayer t fun P => { P with loop := pc }

/-- A slot holds something else. -/
def setVp (k : Slot) (vp : ViralPlayer) : State := { s with feed := s.feed.setSlot k vp }

/-- A store into the `state` of a slot. -/
def storeState (k : Slot) (state : ViralState) : State :=
  s.setVp k { s.feed.pool k with state := state }

/-- The swipe is at another place. -/
def goto (index : Int) (pc : ScrollPc) : State := { s with scroll := some (index, pc) }

/-- The history of calls. -/
def log (mp : Nat) (c : MpCall) : State := { s with feed := s.feed.call mp c }

end State

/-! ## 2. `viral_feed_scroll_to` -/

/-- One step of `viral_player_init_slot` for the video `index + i`; `ok` is the result of
    `ffp_prepare_async_l`. -/
def initStep (s : State) (index : Int) (i : Nat) (pc : InitPc) (ok : Bool) : State :=
  let next := index + i
  let k := slotOf next
  let vp := s.feed.pool k
  match pc with
  | .stop =>
    match vp.mp with
    | some mp => ((s.onPlayer mp .stop).log mp .stop).goto index (.init i .shutdown)
    | none => s.goto index (.init i .number)
  | .shutdown =>
    match vp.mp with
    | some mp => (s.onPlayer mp .shutdown).goto index (.init i .clear)
    | none => s.goto index (.init i .number)
  | .clear => (s.setVp k { vp with mp := none, url := none }).goto index (.init i .number)
  | .number =>
    let s := s.setVp k
      { vp with feedIndex := next, state := .idle, surfaceSet := false, url := none }
    s.goto index (if s.feed.Valid next then .init i .create else .preload (i + 1))
  | .create =>
    let mp := s.players.length
    let s := { s with
      players := s.players ++ [Player.create k]
      feed := { s.feed with created := s.feed.created ++ [next] } }
    (s.setVp k { vp with url := s.feed.urls[next.toNat]?, mp := some mp }).goto index
      (.init i .source)
  | .source =>
    match vp.mp with
    | some mp => (s.onPlayer mp .setDataSource).goto index (.init i .preloading)
    | none => s.goto index (.init i .preloading)
  | .preloading => (s.storeState k .preloading).goto index (.init i .prepare)
  | .prepare =>
    match vp.mp with
    | some mp =>
      ((s.onPlayer mp fun P => P.prepareAsync ok).log mp .prepareAsync).goto index
        (.preload (i + 1))
    | none => s.goto index (.preload (i + 1))

/-- `release_before`. -/
def releaseBefore (index : Int) : Int := index - viralPreloadCount - 1

theorem slotOf_released {index : Int} : slotOf index ≠ slotOf (releaseBefore index) := by
  intro e
  have := slotOf_eq_iff.mp e
  change index % 5 = (index - 2 - 1) % 5 at this
  omega

/-- **One step of the call that holds the lock.** -/
def scrollStep (s : State) (ok : Bool) : Option State := do
  let (index, pc) ← s.scroll
  match pc with
  | .pausePrev prev =>
    let old := s.feed.slot prev
    some <| if 0 ≤ prev ∧ prev ≠ index ∧ old.feedIndex = prev then
        match old.mp with
        | some mp => ((s.onPlayer mp .pause).log mp .pause).goto index .play
        | none => s.goto index .play
      else s.goto index .play
  | .play =>
    let cur := s.feed.slot index
    match cur.mp with
    | some mp =>
      if cur.feedIndex = index then
        some <| s.goto index <|
          if cur.state = .ready ∨ cur.state = .paused then .start mp else .preload 1
      else some (s.goto index (.init 0 .stop))
    | none => some (s.goto index (.init 0 .stop))
  | .start mp => some (((s.onPlayer mp .start).log mp .start).goto index (.preload 1))
  | .init i pc => some (initStep s index i pc ok)
  | .preload i =>
    let next := index + i
    some <| s.goto index <|
      if viralPreloadCount < i ∨ s.feed.urlCount ≤ next then .release
      else if (s.feed.slot next).feedIndex ≠ next then .init i .stop
      else .preload (i + 1)
  | .release =>
    let old := s.feed.slot (releaseBefore index)
    match old.mp with
    | some mp =>
      if 0 ≤ releaseBefore index ∧ old.feedIndex = releaseBefore index then
        some (((s.onPlayer mp .stop).log mp .stop).goto index .releaseShutdown)
      else some { s with scroll := none }
    | none => some { s with scroll := none }
  | .releaseShutdown =>
    match (s.feed.slot (releaseBefore index)).mp with
    | some mp => some ((s.onPlayer mp .shutdown).goto index .releaseClear)
    | none => some (s.goto index .releaseClear)
  | .releaseClear =>
    let k := slotOf (releaseBefore index)
    some { s.setVp k { s.feed.pool k with mp := none, state := .idle, url := none } with
      scroll := none }

/-! ## 3. The calls without the lock -/

/-- What the call does to the player. -/
def Cmd.onPlayer : Cmd → Player → Player
  | .play => .start
  | .pause => .pause

/-- The call of ijkplayer. -/
def Cmd.call : Cmd → MpCall
  | .play => .start
  | .pause => .pause

/-- One move of such a call from its place; the second component is the next place. In front of
    the first swipe the slot lies outside the array; what is there is not modelled. -/
def callMove (s : State) (cmd : Cmd) (pc : CallPc) : Option (State × Option CallPc) :=
  match pc with
  | .readIndex => some (s, (viralGetPoolSlot s.feed.currentIndex).map .testMp)
  | .testMp k => some (s, (s.feed.pool k).mp.map fun _ => .readMp k)
  | .readMp k =>
    some (s, match (s.feed.pool k).mp with
      | some mp => some (.act mp)
      | none => some .crashed)
  | .act mp => some ((s.onPlayer mp cmd.onPlayer).log mp cmd.call, none)
  | .crashed => none

/-- The calls when the one at `n` goes on, or returns. -/
def moveCall (calls : List (Cmd × CallPc)) (n : Nat) (cmd : Cmd) :
    (next : Option CallPc) → List (Cmd × CallPc)
  | some pc => calls.set n (cmd, pc)
  | none => calls.eraseIdx n

/-- One step of the call at place `n`. -/
def callStep (s : State) (n : Nat) : Option State := do
  let (cmd, pc) ← s.calls[n]?
  let (t, next) ← callMove s cmd pc
  some { t with calls := moveCall s.calls n cmd next }

/-! ## 4. `viral_msg_loop` -/

/-- The `switch` of the loop. -/
def switchStep (s : State) (t : Nat) (T : Player) (m : Msg) : Option State :=
  match m with
  | .prepared => some ((s.storeState T.slot .ready).setLoop t (.fire .ready))
  | .stateChanged => do
    let mp ← T.target
    let P ← s.players[mp]?
    some (s.setLoop t (if P.isPlaying then .storePlaying else .wait))
  | .completed => some ((s.storeState T.slot .idle).setLoop t (.fire .completed))
  | .error => some ((s.storeState T.slot .error).setLoop t (.fire .error))
  | .bufferingStart => some (s.setLoop t (.fire .buffering))
  | _ => some (s.setLoop t .wait)

/-- **One step of the thread created for player `t`.** -/
def loopStep (s : State) (t : Nat) : Option State := do
  let T ← s.players[t]?
  match T.loop with
  | .none | .ended | .crashed => none
  | .spawned =>
    match (s.feed.pool T.slot).mp with
    | some mp => some (s.onPlayer t fun P => { P with loop := .wait, target := some mp })
    | none => some (s.setLoop t .crashed)
  | .wait =>
    let mp ← T.target
    let P ← s.players[mp]?
    let (P, pc) ← P.take
    some ((s.onPlayer mp fun _ => P).setLoop t pc)
  | .got m =>
    let mp ← T.target
    some ((s.onPlayer mp fun P => P.serve m).setLoop t (Player.served m))
  | .handling m => switchStep s t T m
  | .storePlaying => some ((s.storeState T.slot .playing).setLoop t (.fire .started))
  | .fire e =>
    -- only the case of PREPARED goes on
    let s := s.setLoop t (if e = .ready then .testIndex else .wait)
    some { s with fired := s.fired ++ [(t, (s.feed.pool T.slot).feedIndex, e)] }
  | .testIndex => some (s.setLoop t (.testCurrent (s.feed.pool T.slot).feedIndex))
  | .testCurrent feedIndex =>
    some (s.setLoop t (if feedIndex = s.feed.currentIndex then .start else .wait))
  | .start =>
    let mp ← T.target
    some (((s.onPlayer mp .start).log mp .start).setLoop t .wait)

/-! ## 5. The machine -/

/-- `scrollTo`, `invoke`: a thread enters a call; `scroll`, `call`, `loop`: a step of one; `post`:
    a message of a player's own threads. -/
inductive PlayAct where
  | scrollTo (index : Int)
  | scroll (ok : Bool)
  | invoke (cmd : Cmd)
  | call (n : Nat)
  | loop (t : Nat)
  | post (mp : Nat) (m : Msg)
  deriving DecidableEq, Repr

/-- A thread enters `viral_feed_scroll_to`: the test of the index, the lock, the store of
    `current_index`. -/
def enterScroll (s : State) (index : Int) : Option State :=
  if s.feed.Valid index then
    match s.scroll with
    | some _ => none
    | none =>
      some { s with
        feed := { s.feed with currentIndex := index }
        scroll := some (index, .pausePrev s.feed.currentIndex) }
  else some s

/-- **One step.** -/
def playStep (s : State) : PlayAct → Option State
  | .scrollTo index => enterScroll s index
  | .scroll ok => scrollStep s ok
  | .invoke cmd => some { s with calls := s.calls ++ [(cmd, .readIndex)] }
  | .call n => callStep s n
  | .loop t => loopStep s t
  | .post mp m => do
    let P ← s.players[mp]?
    if P.mayPost m then some (s.onPlayer mp fun P => P.put m) else none

/-- The feed of a list of videos. -/
def State.init (urls : List String) : State where
  feed := viralFeedSetUrls viralFeedCreate urls
  players := []
  scroll := none
  calls := []
  fired := []

/-- The feed and its message loops, on a list of videos. -/
def playback (urls : List String) : Machine State PlayAct := ⟨State.init urls, playStep⟩

/-! ## 6. What a step of the swipe does -/

/-- The steps of `viral_player_init_slot`, by place. -/
inductive InitMove (s : State) (index : Int) (i : Nat) (ok : Bool) : InitPc → State → Prop where
  | stopped (mp : Nat) (hmp : (s.feed.slot (index + i)).mp = some mp) :
      InitMove s index i ok .stop
        (((s.onPlayer mp .stop).log mp .stop).goto index (.init i .shutdown))
  | noneToStop (hmp : (s.feed.slot (index + i)).mp = none) :
      InitMove s index i ok .stop (s.goto index (.init i .number))
  | shutDown (mp : Nat) (hmp : (s.feed.slot (index + i)).mp = some mp) :
      InitMove s index i ok .shutdown ((s.onPlayer mp .shutdown).goto index (.init i .clear))
  | noneToShutDown (hmp : (s.feed.slot (index + i)).mp = none) :
      InitMove s index i ok .shutdown (s.goto index (.init i .number))
  | cleared : InitMove s index i ok .clear
      ((s.setVp (slotOf (index + i))
        { s.feed.slot (index + i) with mp := none, url := none }).goto index (.init i .number))
  | numbered (hvalid : s.feed.Valid (index + i)) : InitMove s index i ok .number
      ((s.setVp (slotOf (index + i)) { s.feed.slot (index + i) with
        feedIndex := index + i, state := .idle, surfaceSet := false, url := none }).goto index
        (.init i .create))
  | outside (hout : ¬ s.feed.Valid (index + i)) : InitMove s index i ok .number
      ((s.setVp (slotOf (index + i)) { s.feed.slot (index + i) with
        feedIndex := index + i, state := .idle, surfaceSet := false, url := none }).goto index
        (.preload (i + 1)))
  | created : InitMove s index i ok .create
      ((State.setVp { s with
          players := s.players ++ [Player.create (slotOf (index + i))]
          feed := { s.feed with created := s.feed.created ++ [index + i] } }
        (slotOf (index + i)) { s.feed.slot (index + i) with
          url := s.feed.urls[(index + i).toNat]?, mp := some s.players.length }).goto index
        (.init i .source))
  | sourced (mp : Nat) (hmp : (s.feed.slot (index + i)).mp = some mp) :
      InitMove s index i ok .source
        ((s.onPlayer mp .setDataSource).goto index (.init i .preloading))
  | noSource (hmp : (s.feed.slot (index + i)).mp = none) :
      InitMove s index i ok .source (s.goto index (.init i .preloading))
  | preloading : InitMove s index i ok .preloading
      ((s.storeState (slotOf (index + i)) .preloading).goto index (.init i .prepare))
  | prepared (mp : Nat) (hmp : (s.feed.slot (index + i)).mp = some mp) :
      InitMove s index i ok .prepare
        (((s.onPlayer mp fun P => P.prepareAsync ok).log mp .prepareAsync).goto index
          (.preload (i + 1)))
  | noPrepare (hmp : (s.feed.slot (index + i)).mp = none) :
      InitMove s index i ok .prepare (s.goto index (.preload (i + 1)))

/-- The steps of the swipe, by place. -/
inductive ScrollMove (s : State) (index : Int) (ok : Bool) : ScrollPc → State → Prop where
  | paused (prev : Int) (mp : Nat) (hprev : 0 ≤ prev ∧ prev ≠ index)
      (hmp : (s.feed.slot prev).mp = some mp) :
      ScrollMove s index ok (.pausePrev prev)
        (((s.onPlayer mp .pause).log mp .pause).goto index .play)
  | notPaused (prev : Int) (hnot : 0 ≤ prev → prev ≠ index → (s.feed.slot prev).feedIndex = prev →
      (s.feed.slot prev).mp = none) :
      ScrollMove s index ok (.pausePrev prev) (s.goto index .play)
  | found (mp : Nat) (next : ScrollPc) (hmp : (s.feed.slot index).mp = some mp)
      (hidx : (s.feed.slot index).feedIndex = index)
      (hnext : next = .start mp ∨ next = .preload 1) :
      ScrollMove s index ok .play (s.goto index next)
  | missing (hmiss : (s.feed.slot index).feedIndex = index → (s.feed.slot index).mp = none) :
      ScrollMove s index ok .play (s.goto index (.init 0 .stop))
  | started (mp : Nat) : ScrollMove s index ok (.start mp)
      (((s.onPlayer mp .start).log mp .start).goto index (.preload 1))
  | init (i : Nat) (pc : InitPc) (t : State) (hinit : InitMove s index i ok pc t) :
      ScrollMove s index ok (.init i pc) t
  | preloadDone (i : Nat) (hdone : viralPreloadCount < i ∨ s.feed.urlCount ≤ index + i) :
      ScrollMove s index ok (.preload i) (s.goto index .release)
  | preloadNext (i : Nat) (hmore : ¬ (viralPreloadCount < i ∨ s.feed.urlCount ≤ index + i))
      (hidx : (s.feed.slot (index + i)).feedIndex ≠ index + i) :
      ScrollMove s index ok (.preload i) (s.goto index (.init i .stop))
  | preloadSkip (i : Nat) (hmore : ¬ (viralPreloadCount < i ∨ s.feed.urlCount ≤ index + i))
      (hidx : (s.feed.slot (index + i)).feedIndex = index + i) :
      ScrollMove s index ok (.preload i) (s.goto index (.preload (i + 1)))
  | released (mp : Nat) (hmp : (s.feed.slot (releaseBefore index)).mp = some mp)
      (hidx : 0 ≤ releaseBefore index ∧
        (s.feed.slot (releaseBefore index)).feedIndex = releaseBefore index) :
      ScrollMove s index ok .release
        (((s.onPlayer mp .stop).log mp .stop).goto index .releaseShutdown)
  | notReleased (hnot : 0 ≤ releaseBefore index →
      (s.feed.slot (releaseBefore index)).feedIndex = releaseBefore index →
      (s.feed.slot (releaseBefore index)).mp = none) :
      ScrollMove s index ok .release { s with scroll := none }
  | releasedDown (mp : Nat) (hmp : (s.feed.slot (releaseBefore index)).mp = some mp) :
      ScrollMove s index ok .releaseShutdown ((s.onPlayer mp .shutdown).goto index .releaseClear)
  | noneReleased (hmp : (s.feed.slot (releaseBefore index)).mp = none) :
      ScrollMove s index ok .releaseShutdown (s.goto index .releaseClear)
  | releasedClear : ScrollMove s index ok .releaseClear
      { s.setVp (slotOf (releaseBefore index)) { s.feed.slot (releaseBefore index) with
          mp := none, state := .idle, url := none } with scroll := none }

theorem initStep_move (s : State) (index : Int) (i : Nat) (pc : InitPc) (ok : Bool) :
    InitMove s index i ok pc (initStep s index i pc ok) := by
  cases pc with
  | stop =>
    unfold initStep
    dsimp only
    split
    · rename_i mp hmp
      exact .stopped mp hmp
    · rename_i hmp
      exact .noneToStop hmp
  | shutdown =>
    unfold initStep
    dsimp only
    split
    · rename_i mp hmp
      exact .shutDown mp hmp
    · rename_i hmp
      exact .noneToShutDown hmp
  | clear => exact .cleared
  | number =>
    unfold initStep
    dsimp only
    split
    · rename_i hvalid
      exact .numbered hvalid
    · rename_i hout
      exact .outside hout
  | create => exact .created
  | source =>
    unfold initStep
    dsimp only
    split
    · rename_i mp hmp
      exact .sourced mp hmp
    · rename_i hmp
      exact .noSource hmp
  | preloading => exact .preloading
  | prepare =>
    unfold initStep
    dsimp only
    split
    · rename_i mp hmp
      exact .prepared mp hmp
    · rename_i hmp
      exact .noPrepare hmp

/-- **What a step of the swipe does.** -/
theorem scrollStep_cases {s t : State} {ok : Bool} (h : scrollStep s ok = some t) :
    ∃ index pc, s.scroll = some (index, pc) ∧ ScrollMove s index ok pc t := by
  unfold scrollStep at h
  simp only [Option.bind_eq_bind] at h
  obtain ⟨⟨index, pc⟩, hs, hrest⟩ := Option.bind_eq_some_iff.mp h
  refine ⟨index, pc, hs, ?_⟩
  cases pc with
  | pausePrev prev =>
    cases hrest
    split
    · rename_i hprev
      split
      · rename_i mp hmp
        exact .paused prev mp ⟨hprev.1, hprev.2.1⟩ hmp
      · rename_i hmp
        exact .notPaused prev fun _ _ _ => hmp
    · rename_i hnot
      exact .notPaused prev fun h1 h2 h3 => absurd ⟨h1, h2, h3⟩ hnot
  | play =>
    cases hmp : (s.feed.slot index).mp with
    | none =>
      simp only [hmp, Option.some.injEq] at hrest
      rw [← hrest]
      exact .missing fun _ => hmp
    | some mp =>
      simp only [hmp] at hrest
      split at hrest
      · rename_i hidx
        cases hrest
        refine .found mp _ hmp hidx ?_
        split
        · exact Or.inl rfl
        · exact Or.inr rfl
      · rename_i hidx
        cases hrest
        exact .missing fun h => absurd h hidx
  | start mp =>
    cases hrest
    exact .started mp
  | init i pc =>
    cases hrest
    exact .init i pc _ (initStep_move s index i pc ok)
  | preload i =>
    cases hrest
    split
    · rename_i hdone
      exact .preloadDone i hdone
    · rename_i hmore
      split
      · rename_i hidx
        exact .preloadNext i hmore hidx
      · rename_i hidx
        exact .preloadSkip i hmore (Classical.not_not.mp hidx)
  | release =>
    cases hmp : (s.feed.slot (releaseBefore index)).mp with
    | none =>
      simp only [hmp, Option.some.injEq] at hrest
      rw [← hrest]
      exact .notReleased fun _ _ => hmp
    | some mp =>
      simp only [hmp] at hrest
      split at hrest
      · rename_i hidx
        cases hrest
        exact .released mp hmp hidx
      · rename_i hidx
        cases hrest
        exact .notReleased fun h1 h2 => absurd ⟨h1, h2⟩ hidx
  | releaseShutdown =>
    cases hmp : (s.feed.slot (releaseBefore index)).mp with
    | none =>
      simp only [hmp, Option.some.injEq] at hrest
      rw [← hrest]
      exact .noneReleased hmp
    | some mp =>
      simp only [hmp, Option.some.injEq] at hrest
      rw [← hrest]
      exact .releasedDown mp hmp
  | releaseClear =>
    cases hrest
    exact .releasedClear

/-! ## 7. What the other steps do -/

/-- The steps of `viral_msg_loop`, by place. -/
inductive LoopDo (s : State) (t : Nat) (T : Player) : State → Prop where
  | found (mp : Nat) (hl : T.loop = .spawned) (hmp : (s.feed.pool T.slot).mp = some mp) :
      LoopDo s t T (s.onPlayer t fun P => { P with loop := .wait, target := some mp })
  | lost (hl : T.loop = .spawned) (hmp : (s.feed.pool T.slot).mp = none) :
      LoopDo s t T (s.setLoop t .crashed)
  | took (mp : Nat) (P Q : Player) (pc : LoopPc) (hl : T.loop = .wait)
      (htarget : T.target = some mp) (hP : s.players[mp]? = some P)
      (htake : P.take = some (Q, pc)) : LoopDo s t T ((s.onPlayer mp fun _ => Q).setLoop t pc)
  | served (m : Msg) (mp : Nat) (hl : T.loop = .got m) (htarget : T.target = some mp) :
      LoopDo s t T ((s.onPlayer mp fun P => P.serve m).setLoop t (Player.served m))
  | stored (state : ViralState) (e : ViralEvent)
      (hl : T.loop = .handling .prepared ∨ T.loop = .handling .completed ∨
        T.loop = .handling .error ∨ T.loop = .storePlaying) :
      LoopDo s t T ((s.storeState T.slot state).setLoop t (.fire e))
  | buffering (hl : T.loop = .handling .bufferingStart) :
      LoopDo s t T (s.setLoop t (.fire .buffering))
  | plays (mp : Nat) (P : Player) (hl : T.loop = .handling .stateChanged)
      (htarget : T.target = some mp) (hP : s.players[mp]? = some P) (hplay : P.isPlaying = true) :
      LoopDo s t T (s.setLoop t .storePlaying)
  | passed (m : Msg) (hl : T.loop = .handling m) : LoopDo s t T (s.setLoop t .wait)
  | fired (e : ViralEvent) (pc : LoopPc) (hl : T.loop = .fire e)
      (hpc : pc = .testIndex ∨ pc = .wait) :
      LoopDo s t T { s.setLoop t pc with
        fired := s.fired ++ [(t, (s.feed.pool T.slot).feedIndex, e)] }
  | indexRead (hl : T.loop = .testIndex) :
      LoopDo s t T (s.setLoop t (.testCurrent (s.feed.pool T.slot).feedIndex))
  | tested (f : Int) (pc : LoopPc) (hl : T.loop = .testCurrent f) (hpc : pc = .start ∨ pc = .wait) :
      LoopDo s t T (s.setLoop t pc)
  | started (mp : Nat) (hl : T.loop = .start) (htarget : T.target = some mp) :
      LoopDo s t T (((s.onPlayer mp .start).log mp .start).setLoop t .wait)

section Loops

variable {s s' : State} {t : Nat} {T : Player}

theorem switchStep_do {m : Msg} (h : switchStep s t T m = some s') (hl : T.loop = .handling m) :
    LoopDo s t T s' := by
  cases m with
  | prepared =>
    cases h
    exact .stored .ready .ready (Or.inl hl)
  | completed =>
    cases h
    exact .stored .idle .completed (Or.inr (Or.inl hl))
  | error =>
    cases h
    exact .stored .error .error (Or.inr (Or.inr (Or.inl hl)))
  | bufferingStart =>
    cases h
    exact .buffering hl
  | flush | other | reqStart | reqPause =>
    cases h
    exact .passed _ hl
  | stateChanged =>
    simp only [switchStep, Option.bind_eq_bind] at h
    obtain ⟨mp, htarget, hrest⟩ := Option.bind_eq_some_iff.mp h
    obtain ⟨P, hP, hs'⟩ := Option.bind_eq_some_iff.mp hrest
    cases hs'
    cases hplay : P.isPlaying with
    | true => exact .plays mp P hl htarget hP hplay
    | false => exact .passed _ hl

/-- **What a step of a message loop does.** -/
theorem loopStep_do (h : loopStep s t = some s') :
    ∃ T, s.players[t]? = some T ∧ LoopDo s t T s' := by
  unfold loopStep at h
  simp only [Option.bind_eq_bind] at h
  obtain ⟨T, hT, hrest⟩ := Option.bind_eq_some_iff.mp h
  refine ⟨T, hT, ?_⟩
  cases hl : T.loop with
  | none | ended | crashed =>
    simp only [hl] at hrest
    cases hrest
  | spawned =>
    cases hmp : (s.feed.pool T.slot).mp with
    | some mp =>
      simp only [hl, hmp, Option.some.injEq] at hrest
      rw [← hrest]
      exact .found mp hl hmp
    | none =>
      simp only [hl, hmp, Option.some.injEq] at hrest
      rw [← hrest]
      exact .lost hl hmp
  | wait =>
    simp only [hl] at hrest
    obtain ⟨mp, htarget, hrest⟩ := Option.bind_eq_some_iff.mp hrest
    obtain ⟨P, hP, hrest⟩ := Option.bind_eq_some_iff.mp hrest
    obtain ⟨⟨Q, pc⟩, htake, hs'⟩ := Option.bind_eq_some_iff.mp hrest
    cases hs'
    exact .took mp P Q pc hl htarget hP htake
  | got m =>
    simp only [hl] at hrest
    obtain ⟨mp, htarget, hs'⟩ := Option.bind_eq_some_iff.mp hrest
    cases hs'
    exact .served m mp hl htarget
  | handling m =>
    simp only [hl] at hrest
    exact switchStep_do hrest hl
  | storePlaying =>
    simp only [hl, Option.some.injEq] at hrest
    rw [← hrest]
    exact .stored .playing .started (Or.inr (Or.inr (Or.inr hl)))
  | fire e =>
    simp only [hl, Option.some.injEq] at hrest
    rw [← hrest]
    refine LoopDo.fired e _ hl ?_
    split
    · exact Or.inl rfl
    · exact Or.inr rfl
  | testIndex =>
    simp only [hl, Option.some.injEq] at hrest
    rw [← hrest]
    exact .indexRead hl
  | testCurrent f =>
    simp only [hl, Option.some.injEq] at hrest
    rw [← hrest]
    refine .tested f _ hl ?_
    split
    · exact Or.inl rfl
    · exact Or.inr rfl
  | start =>
    simp only [hl] at hrest
    obtain ⟨mp, htarget, hs'⟩ := Option.bind_eq_some_iff.mp hrest
    cases hs'
    exact .started mp hl htarget

end Loops

/-- The steps of a call without the lock: it reads where it goes on, or it calls the player. -/
inductive CallMove (s : State) (n : Nat) : State → Prop where
  | read (cmd : Cmd) (pc : CallPc) (next : Option CallPc) (hn : s.calls[n]? = some (cmd, pc)) :
      CallMove s n { s with calls := moveCall s.calls n cmd next }
  | act (cmd : Cmd) (mp : Nat) (hn : s.calls[n]? = some (cmd, .act mp)) :
      CallMove s n { (s.onPlayer mp cmd.onPlayer).log mp cmd.call with
        calls := moveCall s.calls n cmd none }

/-- The call at `n` makes a move. -/
theorem callStep_move {s t : State} {n : Nat} (h : callStep s n = some t) :
    ∃ cmd pc u next, s.calls[n]? = some (cmd, pc) ∧ callMove s cmd pc = some (u, next) ∧
      t = { u with calls := moveCall s.calls n cmd next } := by
  unfold callStep at h
  simp only [Option.bind_eq_bind] at h
  obtain ⟨⟨cmd, pc⟩, hn, hrest⟩ := Option.bind_eq_some_iff.mp h
  obtain ⟨⟨u, next⟩, hmove, ht⟩ := Option.bind_eq_some_iff.mp hrest
  exact ⟨cmd, pc, u, next, hn, hmove, (Option.some.inj ht).symm⟩

/-- **What a step of such a call does.** -/
theorem callStep_cases {s t : State} {n : Nat} (h : callStep s n = some t) : CallMove s n t := by
  obtain ⟨cmd, pc, u, next, hn, hmove, rfl⟩ := callStep_move h
  cases pc with
  | crashed => cases hmove
  | readIndex | testMp k | readMp k =>
    cases hmove
    exact .read cmd _ _ hn
  | act mp =>
    cases hmove
    exact .act cmd mp hn

/-- **What a message of a player's own threads does.** -/
theorem post_cases {s t : State} {mp : Nat} {m : Msg} (h : playStep s (.post mp m) = some t) :
    ∃ P, s.players[mp]? = some P ∧ P.mayPost m = true ∧
      t = s.onPlayer mp fun P => P.put m := by
  unfold playStep at h
  simp only [Option.bind_eq_bind] at h
  obtain ⟨P, hP, hrest⟩ := Option.bind_eq_some_iff.mp h
  split at hrest
  · rename_i hpost
    exact ⟨P, hP, hpost, (Option.some.inj hrest).symm⟩
  · cases hrest

end Viral.Feed
