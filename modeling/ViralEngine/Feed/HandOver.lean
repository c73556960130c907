/-
  File:      ViralEngine/Feed/HandOver.lean
  Subject:   THE ARGUMENT OF `viral_msg_loop`, FROM `viral_player_init_slot` TO THE THREAD
             (ViralEngine/core/ViralEngine.c, ijk-player/ijkmedia/ijkplayer/ijkplayer.c,
             ijkmedia/ijksdl/ijksdl_thread.c).

  A `void *` is a tagged pointer here: to a player, or to a `MsgLoopArg`. The `MsgLoopArg` of a
  player goes into its `weak_thiz`; `ijkmp_prepare_async_l` creates the thread with the player
  itself, and `ijkmp_msg_loop` passes this on to `mp->msg_loop`. The loops of ijkplayer's own
  bridges take the player and read its `weak_thiz`; `viral_msg_loop` does not.

  * `Ptr`, `MsgLoopArg`, `IjkMediaPlayer`, `Memory` -- the objects;
  * `ijkmpCreate`, `ijkmpSetWeakThiz`, `ijkmpPrepareAsync`, `sdlRunThread`, `ijkmpMsgLoop` -- the
    functions on the way;
  * `Memory.initSlot`, `beginThread`, `process` -- the sessions of Feed/Lifecycle.lean with these
    objects;
  * `scrollStep_made` -- which steps of a swipe make a player or a thread;
  * `LinkOk`, `processStep_ok` -- the invariant: where each pointer points;
  * `loopArgument_player` -- **no loop is ever given its `MsgLoopArg`.**

  What a read of `marg->feed` finds in a player object is not modelled: the thread stops there.
-/
import ViralEngine.Feed.Lifecycle

namespace Viral.Feed

open Viral.Lib Viral.Ijk Viral.Ijk.Player

/-! ## 1. Objects -/

/-- A `void *`. -/
inductive Ptr where
  | null
  | player (mp : Nat)
  | msgLoopArg (n : Nat)
  deriving DecidableEq, Repr

/-- The functions that a pointer to a function points to. -/
inductive Func where
  | ijkmpMsgLoop | viralMsgLoop
  deriving DecidableEq, Repr

/-- `MsgLoopArg`. -/
structure MsgLoopArg where
  feed : Nat
  player : Slot
  deriving DecidableEq, Repr

/-- `SDL_Thread`. -/
structure SdlThread where
  func : Func
  data : Ptr
  deriving DecidableEq, Repr

/-- `struct IjkMediaPlayer`, its pointers; the rest is `Viral.Ijk.Player`. -/
structure IjkMediaPlayer where
  msgLoop : Func
  weakThiz : Ptr
  msgThread : Option SdlThread
  deriving DecidableEq, Repr

/-- A call of `viral_msg_loop` by the thread of a player. -/
structure Invocation where
  mp : Nat
  arg : Ptr
  deriving DecidableEq, Repr

/-- The objects in the order of their allocation. `built` has the `MsgLoopArg` that was built for
    each player, `invoked` the calls of `viral_msg_loop` so far. -/
structure Memory where
  players : List IjkMediaPlayer
  args : List MsgLoopArg
  built : List Nat
  invoked : List Invocation
  deriving DecidableEq, Repr

/-! ## 2. The functions on the way -/

/-- `ijkmp_create`. -/
def ijkmpCreate (msgLoop : Func) : IjkMediaPlayer := ⟨msgLoop, .null, none⟩

/-- `ijkmp_set_weak_thiz`. -/
def ijkmpSetWeakThiz (P : IjkMediaPlayer) (weakThiz : Ptr) : IjkMediaPlayer :=
  { P with weakThiz := weakThiz }

/-- `ijkmp_get_weak_thiz`. -/
def ijkmpGetWeakThiz (P : IjkMediaPlayer) : Ptr := P.weakThiz

/-- `SDL_CreateThreadEx`. -/
def sdlCreateThreadEx (fn : Func) (data : Ptr) : SdlThread := ⟨fn, data⟩

/-- `ijkmp_prepare_async_l` on the player `mp`, in a state that lets it go on. -/
def ijkmpPrepareAsync (mp : Nat) (P : IjkMediaPlayer) : IjkMediaPlayer :=
  { P with msgThread := some (sdlCreateThreadEx .ijkmpMsgLoop (.player mp)) }

namespace Memory

variable (m : Memory)

/-- What `viral_player_init_slot` builds for the slot of its feed. -/
def initSlot (feed : Nat) (vp : Slot) : Memory :=
  let marg := m.args.length
  let mp := ijkmpCreate .viralMsgLoop
  let mp := ijkmpSetWeakThiz mp (.msgLoopArg marg)
  { m with
    args := m.args ++ [⟨feed, vp⟩]
    players := m.players ++ [mp]
    built := m.built ++ [marg] }

/-- `ijkmp_msg_loop`: the function it calls, and with what. -/
def ijkmpMsgLoop : (arg : Ptr) → Option (Func × Ptr)
  | .player mp => m.players[mp]?.map fun P => (P.msgLoop, .player mp)
  | .null | .msgLoopArg _ => none

/-- `SDL_RunThread`, as far as the call of `viral_msg_loop`: its argument. -/
def sdlRunThread (thread : SdlThread) : Option Ptr :=
  match thread.func with
  | .viralMsgLoop => some thread.data
  | .ijkmpMsgLoop => do
    let (f, arg) ← m.ijkmpMsgLoop thread.data
    if f = .viralMsgLoop then some arg else none

/-- The `MsgLoopArg` a pointer points to. -/
def load : Ptr → Option MsgLoopArg
  | .msgLoopArg n => m.args[n]?
  | .null | .player _ => none

/-- The objects behind the next step of the swipe. -/
def afterScroll (feed : Nat) (s : State) : Memory :=
  match s.scroll with
  | some (index, .init i .create) => m.initSlot feed (slotOf (index + i))
  | some (index, .init i .prepare) =>
    match (s.feed.slot (index + i)).mp with
    | some mp =>
      if s.players[mp]?.any prepares then
        { m with players := m.players.modify mp (ijkmpPrepareAsync mp) }
      else m
    | none => m
  | _ => m

end Memory

/-! ## 3. Sessions with these objects -/

/-- A session, and the memory the pointers lead to. -/
structure Process where
  session : Session
  memory : Memory

/-- The thread of the player has been created and has not begun. -/
def Spawned (s : State) (t : Nat) : Prop := s.players[t]?.any (·.loop = .spawned) = true

instance (s : State) (t : Nat) : Decidable (Spawned s t) := inferInstanceAs (Decidable (_ = true))

/-- **The thread of a player begins**, and comes to `viral_msg_loop`. With a `MsgLoopArg` it goes on
    with the slot that stands there. -/
def beginThread (p : Process) (t : Nat) : Option Process := do
  let P ← p.memory.players[t]?
  let thread ← P.msgThread
  let arg ← p.memory.sdlRunThread thread
  let m : Memory := { p.memory with invoked := p.memory.invoked ++ [⟨t, arg⟩] }
  match m.load arg with
  | some marg => do
    let play := p.session.play.onPlayer t fun P => { P with slot := marg.player }
    let u ← lifeStep { p.session with play := play } (.play (.loop t))
    some ⟨u, m⟩
  | none => some ⟨{ p.session with play := p.session.play.setLoop t .crashed }, m⟩

/-- **One step**; `feed` is the address of the feed. -/
def processStep (feed : Nat) (p : Process) (a : LifeAct) : Option Process :=
  match a with
  | .play (.loop t) =>
    if Spawned p.session.play t then beginThread p t
    else do
      let u ← lifeStep p.session a
      some ⟨u, p.memory⟩
  | .play (.scroll _) => do
    let u ← lifeStep p.session a
    some ⟨u, p.memory.afterScroll feed p.session.play⟩
  | _ => do
    let u ← lifeStep p.session a
    some ⟨u, p.memory⟩

/-- Nothing is in the memory. -/
def Process.init : Process := ⟨Session.init, ⟨[], [], [], []⟩⟩

/-- The session with its memory, for the feed at an address. -/
def process (feed : Nat) : Machine Process LifeAct := ⟨Process.init, processStep feed⟩

/-- **The loop gets its own argument**: the `MsgLoopArg` built for its player, with the feed and
    the slot of its creation. -/
def GetsOwn (feed : Nat) (p : Process) (i : Invocation) : Prop :=
  ∃ n P, p.memory.built[i.mp]? = some n ∧ p.session.play.players[i.mp]? = some P ∧
    i.arg = .msgLoopArg n ∧ p.memory.load i.arg = some ⟨feed, P.slot⟩

/-! ## 4. Which steps make a player or a thread -/

section Swipe

variable {s t : State} {index : Int} {ok : Bool}

theorem sameThread_setDataSource (P : Player) : SameThread P P.setDataSource := by
  unfold Player.setDataSource
  split
  · exact sameThread_changeState P .initialized
  · exact SameThread.refl P

/-- A state that refuses leaves the player as it is. -/
theorem prepareAsync_refused {P : Player} (h : prepares P = false) : P.prepareAsync ok = P := by
  unfold Player.prepareAsync
  exact if_neg (of_decide_eq_false h)

/-- A player that is let through has a thread. -/
theorem prepareAsync_born {P : Player} (h : prepares P = true) :
    (P.prepareAsync ok).loop ≠ .none ∧ (P.prepareAsync ok).slot = P.slot := by
  have hslot : (({ P.changeState .asyncPreparing with aborted := false } : Player).put
      .flush).slot = P.slot :=
    (sameThread_put _ (m := .flush) rfl).slot.trans (sameThread_changeState P .asyncPreparing).slot
  unfold Player.prepareAsync
  rw [if_pos (of_decide_eq_true h)]
  dsimp only
  cases ok with
  | true => exact ⟨nofun, hslot⟩
  | false =>
    have hsame := sameThread_changeState { ({ P.changeState .asyncPreparing with
      aborted := false } : Player).put .flush with loop := .spawned } .error
    exact ⟨fun e => (nomatch hsame.loop.symm.trans e), hsame.slot.trans hslot⟩

/-- What a step of the swipe makes. -/
inductive Made (feed : Nat) (m : Memory) (s t : State) : Memory → Prop where
  | player (k : Slot) (hplayers : t.players = s.players ++ [Player.create k]) :
      Made feed m s t (m.initSlot feed k)
  | thread (mp : Nat) (P Q : Player) (hP : s.players[mp]? = some P) (hborn : Q.loop ≠ .none)
      (hslot : Q.slot = P.slot) (hplayers : t.players = s.players.set mp Q) :
      Made feed m s t { m with players := m.players.modify mp (ijkmpPrepareAsync mp) }
  | nothing (h : Alike s t) : Made feed m s t m

theorem initMove_made {i : Nat} {pc : InitPc} (feed : Nat) (m : Memory)
    (hs : s.scroll = some (index, .init i pc)) (hm : InitMove s index i ok pc t) :
    Made feed m s t (m.afterScroll feed s) := by
  unfold Memory.afterScroll
  rw [hs]
  cases hm with
  | stopped mp hmp => exact .nothing (alike_onPlayer fun P _ => tag_kin (kin_stop P))
  | shutDown mp hmp => exact .nothing (alike_onPlayer fun P _ => tag_kin (kin_shutdown P))
  | noneToStop hmp | noneToShutDown hmp | cleared | numbered hvalid | outside hout
  | noSource hmp | preloading => exact .nothing (alike_of_players rfl)
  | sourced mp hmp =>
    refine .nothing (alike_onPlayer fun P _ => ?_)
    exact tag_kin (kin_of_sameThread (sameThread_setDataSource P))
  | created => exact .player _ rfl
  | noPrepare hmp =>
    simp only [hmp]
    exact .nothing (alike_of_players rfl)
  | prepared mp hmp =>
    simp only [hmp]
    cases hP : s.players[mp]? with
    | none =>
      refine .nothing (alike_onPlayer fun P hP' => ?_)
      rw [hP] at hP'
      cases hP'
    | some P =>
      rw [Option.any_some]
      split
      · rename_i hprep
        obtain ⟨hborn, hslot⟩ : (P.prepareAsync ok).loop ≠ .none ∧
            (P.prepareAsync ok).slot = P.slot := prepareAsync_born hprep
        exact .thread mp P _ hP hborn hslot (modify_of_get hP _)
      · rename_i hprep
        refine .nothing (alike_onPlayer fun P' hP' => ?_)
        rw [hP] at hP'
        cases hP'
        rw [prepareAsync_refused (Bool.eq_false_iff.mpr hprep)]

/-- **What a step of the swipe makes**: a player, a thread, or nothing. -/
theorem scrollStep_made (feed : Nat) (m : Memory) (hstep : scrollStep s ok = some t) :
    Made feed m s t (m.afterScroll feed s) := by
  obtain ⟨index, pc, hs, hm⟩ := scrollStep_cases hstep
  cases hm with
  | init i pc t hinit => exact initMove_made feed m hs hinit
  | paused prev mp hprev hmp =>
    unfold Memory.afterScroll
    rw [hs]
    exact .nothing (alike_onPlayer fun P _ => tag_kin (kin_pause P))
  | started mp =>
    unfold Memory.afterScroll
    rw [hs]
    exact .nothing (alike_onPlayer fun P _ => tag_kin (kin_start P))
  | released mp hmp hidx =>
    unfold Memory.afterScroll
    rw [hs]
    exact .nothing (alike_onPlayer fun P _ => tag_kin (kin_stop P))
  | releasedDown mp hmp =>
    unfold Memory.afterScroll
    rw [hs]
    exact .nothing (alike_onPlayer fun P _ => tag_kin (kin_shutdown P))
  | notPaused prev hnot | found mp next hmp hidx hnext | missing hmiss | preloadDone i hdone
  | preloadNext i hmore hidx | preloadSkip i hmore hidx | notReleased hnot | noneReleased hmp
  | releasedClear =>
    unfold Memory.afterScroll
    rw [hs]
    exact .nothing (alike_of_players rfl)

end Swipe

/-- The other steps make neither. -/
theorem lifeStep_alike {s t : Session} {a : LifeAct} (hstep : lifeStep s a = some t)
    (hno : ∀ ok, a ≠ .play (.scroll ok)) : Alike s.play t.play := by
  cases a with
  | play a =>
    obtain ⟨_, hplay, _, _⟩ := lifeStep_play hstep
    cases a with
    | scroll ok => exact absurd rfl (hno ok)
    | loop n => exact (loopStep_aside hplay).alike
    | call n => exact (callStep_aside hplay).alike
    | post mp m => exact (post_aside hplay).alike
    | invoke cmd =>
      rw [← Option.some.inj hplay]
      exact alike_of_players rfl
    | scrollTo index =>
      have henter : enterScroll s.play index = some t.play := hplay
      unfold enterScroll at henter
      split at henter
      · split at henter
        · cases henter
        · rw [← Option.some.inj henter]
          exact alike_of_players rfl
      · rw [← Option.some.inj henter]
        exact alike_of_players rfl
  | setUrls urls =>
    obtain ⟨_, rfl⟩ := lifeStep_locked hstep
    exact alike_of_players rfl
  | destroy =>
    obtain ⟨_, rfl⟩ := lifeStep_locked hstep
    exact alike_of_players rfl
  | free =>
    have hfree : freeStep s = some t := hstep
    unfold freeStep at hfree
    split at hfree
    · split at hfree
      · cases hfree
        exact alike_of_players rfl
      · split at hfree
        · cases hfree
          exact alike_onPlayer fun P _ => tag_kin (kin_stop P)
        · cases hfree
          exact alike_onPlayer fun P _ => tag_kin (kin_shutdown P)
        · simp only [Option.bind_eq_bind] at hfree
          obtain ⟨refs, _, hrest⟩ := Option.bind_eq_some_iff.mp hfree
          cases hrest
          exact alike_of_players rfl
    · cases hfree
      exact alike_of_players rfl
    · cases hfree
    · cases hfree

/-! ## 5. The invariant -/

/-- The objects of a player of a slot; `unborn`: it has no thread. -/
def ObjectsOf (feed : Nat) (m : Memory) (mp : Nat) (tag : Slot × Bool) : Prop :=
  ∃ n, m.built[mp]? = some n ∧ m.args[n]? = some ⟨feed, tag.1⟩ ∧
    m.players[mp]? = some ⟨.viralMsgLoop, .msgLoopArg n,
      if tag.2 then none else some ⟨.ijkmpMsgLoop, .player mp⟩⟩

/-- **Where the pointers point**: the player's `weak_thiz` to the `MsgLoopArg` built for it, its
    thread's data to the player; and so did the argument of every call. -/
structure LinkOk (feed : Nat) (p : Process) : Prop where
  players : p.memory.players.length = p.session.play.players.length
  built : p.memory.built.length = p.session.play.players.length
  objects : ∀ mp P, p.session.play.players[mp]? = some P → ObjectsOf feed p.memory mp (tag P)
  invoked : ∀ i ∈ p.memory.invoked, i.arg = .player i.mp

section Link

variable {feed : Nat} {p q : Process}

theorem Alike.length {s t : State} (h : Alike s t) : t.players.length = s.players.length := by
  have htags : t.players.map tag = s.players.map tag := by
    refine List.ext_getElem? fun mp => ?_
    rw [List.getElem?_map, List.getElem?_map]
    exact h mp
  simpa using congrArg List.length htags

/-- Neither a player nor a thread is made. -/
theorem LinkOk.alike {u : Session} {calls : List Invocation} (h : LinkOk feed p)
    (hal : Alike p.session.play u.play) (hcalls : ∀ i ∈ calls, i.arg = .player i.mp) :
    LinkOk feed ⟨u, { p.memory with invoked := calls }⟩ where
  players := h.players.trans hal.length.symm
  built := h.built.trans hal.length.symm
  objects mp Q hQ := by
    have htag := hal mp
    rw [hQ] at htag
    obtain ⟨P, hP, e⟩ := Option.map_eq_some_iff.mp htag.symm
    rw [← e]
    exact h.objects mp P hP
  invoked := hcalls

/-- A player is made, with a `MsgLoopArg`. -/
theorem LinkOk.player {u : Session} {k : Slot} (h : LinkOk feed p)
    (hplayers : u.play.players = p.session.play.players ++ [Player.create k]) :
    LinkOk feed ⟨u, p.memory.initSlot feed k⟩ where
  players := by
    show (p.memory.players ++ [_]).length = _
    rw [hplayers, List.length_append, List.length_append, h.players]
    rfl
  built := by
    show (p.memory.built ++ [_]).length = _
    rw [hplayers, List.length_append, List.length_append, h.built]
    rfl
  objects mp Q hQ := by
    have hlen := h.players
    have hbuilt := h.built
    rw [hplayers] at hQ
    rcases Nat.lt_or_ge mp p.session.play.players.length with hlt | hge
    · rw [List.getElem?_append_left hlt] at hQ
      obtain ⟨n, hn, hargs, hobj⟩ := h.objects mp Q hQ
      refine ⟨n, ?_, ?_, ?_⟩
      · show (p.memory.built ++ [_])[mp]? = _
        rw [List.getElem?_append_left (by omega), hn]
      · show (p.memory.args ++ [_])[n]? = _
        rw [List.getElem?_append_left (List.getElem?_eq_some_iff.mp hargs).1, hargs]
      · show (p.memory.players ++ [_])[mp]? = _
        rw [List.getElem?_append_left (by omega), hobj]
    · have e : mp = p.session.play.players.length := by
        have hlt := (List.getElem?_eq_some_iff.mp hQ).1
        rw [List.length_append, List.length_singleton] at hlt
        omega
      subst e
      rw [List.getElem?_concat_length] at hQ
      cases hQ
      refine ⟨p.memory.args.length, ?_, ?_, ?_⟩
      · show (p.memory.built ++ [_])[_]? = _
        rw [← hbuilt, List.getElem?_concat_length]
      · show (p.memory.args ++ [_])[_]? = _
        rw [List.getElem?_concat_length]
        rfl
      · show (p.memory.players ++ [_])[_]? = _
        rw [← hlen, List.getElem?_concat_length]
        rfl
  invoked := h.invoked

/-- A thread is made, with its player as the data. -/
theorem LinkOk.thread {u : Session} {mp : Nat} {P Q : Player} (h : LinkOk feed p)
    (hP : p.session.play.players[mp]? = some P) (hborn : Q.loop ≠ .none) (hslot : Q.slot = P.slot)
    (hplayers : u.play.players = p.session.play.players.set mp Q) :
    LinkOk feed ⟨u, { p.memory with
      players := p.memory.players.modify mp (ijkmpPrepareAsync mp) }⟩ where
  players := by
    show (p.memory.players.modify mp _).length = _
    rw [hplayers, List.length_modify, List.length_set, h.players]
  built := by
    show p.memory.built.length = _
    rw [hplayers, List.length_set, h.built]
  objects j R hR := by
    rw [hplayers, List.getElem?_set] at hR
    by_cases e : mp = j
    · subst e
      rw [if_pos rfl, if_pos (List.getElem?_eq_some_iff.mp hP).1] at hR
      cases hR
      obtain ⟨n, hn, hargs, hobj⟩ := h.objects mp P hP
      refine ⟨n, hn, ?_, ?_⟩
      · show p.memory.args[n]? = some ⟨feed, Q.slot⟩
        rw [hslot]
        exact hargs
      · show (p.memory.players.modify mp _)[mp]? =
          some ⟨_, _, if decide (Q.loop = .none) then _ else _⟩
        rw [List.getElem?_modify, hobj, decide_eq_false hborn]
        simp only [if_true]
        rfl
    · rw [if_neg e] at hR
      obtain ⟨n, hn, hargs, hobj⟩ := h.objects j R hR
      refine ⟨n, hn, hargs, ?_⟩
      show (p.memory.players.modify mp _)[j]? = _
      rw [List.getElem?_modify, hobj]
      simp only [if_neg e]
      rfl
  invoked := h.invoked

/-- **The thread of a player comes to `viral_msg_loop` with the player.** -/
theorem LinkOk.beginThread (h : LinkOk feed p) {t : Nat} (hs : Spawned p.session.play t) :
    beginThread p t = some ⟨{ p.session with play := p.session.play.setLoop t .crashed },
      { p.memory with invoked := p.memory.invoked ++ [⟨t, .player t⟩] }⟩ := by
  obtain ⟨T, hT, hl⟩ := (Option.any_eq_true _ _).mp hs
  have hborn : decide (T.loop = .none) = false := by
    rw [of_decide_eq_true hl]
    rfl
  obtain ⟨n, _, _, hobj⟩ := h.objects t T hT
  have hthread : p.memory.players[t]? =
      some ⟨.viralMsgLoop, .msgLoopArg n, some ⟨.ijkmpMsgLoop, .player t⟩⟩ := by
    rw [hobj]
    show some (IjkMediaPlayer.mk _ _ (if decide (T.loop = .none) then _ else _)) = _
    rw [hborn]
    rfl
  have hrun : p.memory.sdlRunThread ⟨.ijkmpMsgLoop, .player t⟩ = some (.player t) := by
    simp only [Memory.sdlRunThread, Memory.ijkmpMsgLoop, hthread, Option.map_some,
      Option.bind_eq_bind, Option.bind_some, if_true]
  unfold Feed.beginThread
  simp only [hthread, hrun, Option.bind_eq_bind, Option.bind_some]
  rfl

/-- **One step keeps the invariant.** -/
theorem processStep_ok {a : LifeAct} (h : LinkOk feed p) (hstep : processStep feed p a = some q) :
    LinkOk feed q := by
  have hother : (∀ ok, a ≠ .play (.scroll ok)) → ∀ u, lifeStep p.session a = some u →
      LinkOk feed ⟨u, p.memory⟩ :=
    fun hno u hu => h.alike (lifeStep_alike hu hno) h.invoked
  unfold processStep at hstep
  simp only [Option.bind_eq_bind] at hstep
  split at hstep
  · rename_i t
    split at hstep
    · rename_i hs
      rw [h.beginThread hs] at hstep
      cases hstep
      obtain ⟨T, hT, hl⟩ := (Option.any_eq_true _ _).mp hs
      have hborn : T.loop ≠ .none := by
        rw [of_decide_eq_true hl]
        nofun
      have hal : Alike p.session.play (p.session.play.setLoop t .crashed) :=
        (aside_setLoop hT hborn (by nofun)).alike
      refine h.alike hal fun i hi => ?_
      rcases List.mem_append.mp hi with hold | hnew
      · exact h.invoked i hold
      · rw [List.mem_singleton.mp hnew]
    · obtain ⟨u, hu, hq⟩ := Option.bind_eq_some_iff.mp hstep
      cases hq
      exact hother nofun u hu
  · obtain ⟨u, hu, hq⟩ := Option.bind_eq_some_iff.mp hstep
    cases hq
    obtain ⟨_, hplay, _, _⟩ := lifeStep_play hu
    have hmade := scrollStep_made feed p.memory hplay
    revert hmade
    generalize p.memory.afterScroll feed p.session.play = m
    intro hmade
    cases hmade with
    | player k hplayers => exact h.player hplayers
    | thread mp P Q hP hborn hslot hplayers => exact h.thread hP hborn hslot hplayers
    | nothing hal => exact h.alike hal h.invoked
  · rename_i hloop hscroll
    obtain ⟨u, hu, hq⟩ := Option.bind_eq_some_iff.mp hstep
    cases hq
    exact hother (fun ok e => hscroll ok e) u hu

theorem reach_linkOk (h : (process feed).Reach Machine.Any p) : LinkOk feed p := by
  refine h.invariant (I := LinkOk feed) ?_ fun _ _ _ hi _ hs => processStep_ok hi hs
  exact ⟨rfl, rfl, fun _ P hP => absurd hP (Option.some_ne_none P).symm,
    fun _ hi => absurd hi List.not_mem_nil⟩

/-- **The player's `weak_thiz` is the `MsgLoopArg` built for it**, with the feed and the slot of
    its creation. -/
theorem weakThiz_own (h : (process feed).Reach Machine.Any p) {mp : Nat} {P : Player}
    (hP : p.session.play.players[mp]? = some P) :
    ∃ O n, p.memory.players[mp]? = some O ∧ p.memory.built[mp]? = some n ∧
      ijkmpGetWeakThiz O = .msgLoopArg n ∧
      p.memory.load (ijkmpGetWeakThiz O) = some ⟨feed, P.slot⟩ := by
  obtain ⟨n, hn, hargs, hobj⟩ := (reach_linkOk h).objects mp P hP
  exact ⟨_, n, hobj, hn, rfl, hargs⟩

end Link

/-! ## 6. Every call of `viral_msg_loop` -/

/-- **No message loop gets its own argument**, in any session, and the thread of every player that
    has one comes to such a call. -/
theorem loopArgument_player {feed : Nat} {p : Process}
    (h : (process feed).Reach Machine.Any p) :
    (∀ i ∈ p.memory.invoked, i.arg = .player i.mp ∧ ¬ GetsOwn feed p i) ∧
      ∀ t, Spawned p.session.play t → ∃ q, processStep feed p (.play (.loop t)) = some q ∧
        ∃ i ∈ q.memory.invoked, i.mp = t ∧ ¬ GetsOwn feed q i := by
  have hok := reach_linkOk h
  have hnot : ∀ (q : Process) (i : Invocation), i.arg = .player i.mp → ¬ GetsOwn feed q i := by
    intro q i harg hown
    obtain ⟨n, _, _, _, hn, _⟩ := hown
    rw [harg] at hn
    cases hn
  refine ⟨fun i hi => ⟨hok.invoked i hi, hnot p i (hok.invoked i hi)⟩, ?_⟩
  intro t hs
  have hbegin : processStep feed p (.play (.loop t)) = _ := (if_pos hs).trans (hok.beginThread hs)
  refine ⟨_, hbegin, ⟨t, .player t⟩, ?_, rfl, hnot _ _ rfl⟩
  exact List.mem_append_right p.memory.invoked (List.mem_singleton.mpr rfl)

/-- A swipe to the only video, and the thread of its player begins. -/
def beginsOnce : List LifeAct :=
  .setUrls ["a"] :: .play (.scrollTo 0) :: List.replicate 10 (.play (.scroll true)) ++
    [.play (.loop 0)]

theorem beginsOnce_invoked : ((process 0).exec Process.init beginsOnce).map (·.memory) =
    some ⟨[⟨.viralMsgLoop, .msgLoopArg 0, some ⟨.ijkmpMsgLoop, .player 0⟩⟩],
      [⟨0, slotOf 0⟩], [0], [⟨0, .player 0⟩]⟩ := by
  decide +kernel

theorem loopArgument_once : ∃ p, (process 0).exec Process.init beginsOnce = some p ∧
    p.memory.invoked = [⟨0, .player 0⟩] ∧ ¬ GetsOwn 0 p ⟨0, .player 0⟩ := by
  obtain ⟨p, hp, hmem⟩ := Option.map_eq_some_iff.mp beginsOnce_invoked
  have hinv : p.memory.invoked = [⟨0, .player 0⟩] := by rw [hmem]
  have hreach := Machine.steps_of_exec hp (Machine.meets_any _ _)
  refine ⟨p, hp, hinv, ((loopArgument_player hreach).1 ⟨0, .player 0⟩ ?_).2⟩
  rw [hinv]
  exact List.mem_singleton.mpr rfl

/-- **One swipe**: the loop of its player works on the player itself as a `MsgLoopArg`. -/
theorem loopArgument_swipe : ¬ ∀ (feed : Nat) (p : Process), (process feed).Reach Machine.Any p →
    ∀ i ∈ p.memory.invoked, GetsOwn feed p i := by
  intro hall
  obtain ⟨p, hp, hmem⟩ := Option.map_eq_some_iff.mp beginsOnce_invoked
  obtain ⟨n, _, _, _, hn, _⟩ := hall 0 p (Machine.steps_of_exec hp (Machine.meets_any _ _))
    ⟨0, .player 0⟩ (by rw [hmem]; exact List.mem_singleton.mpr rfl)
  cases hn

end Viral.Feed
