/-
  File:      ViralEngine/Feed/Notes.lean
  Subject:   THE PLACES OF A MESSAGE LOOP, AND NOTES ON THE STARTS.

  `LoopDo` of Feed/Playback.lean says what a step of a loop touches; here is what it stores and
  where it goes next. Beside a run stand notes on each player: whether it has become prepared,
  whether `ijkmp_start` was called on it since, and whether a loop has done with its PREPARED
  message.

  * `Next`, `storeAt`, `loopStep_leaves` -- the places of a loop one behind the other, and what
    they store;
  * `Asked`, `Tame` -- the calls of ijkplayer that ask for no start;
  * `Notes`, `takeNotes`, `watched` -- the notes, step by step;
  * `Noted` -- what they say of the places: a loop in the case of PREPARED works on a prepared
    player, a player that plays was started, and in PRELOADING the message waits still;
  * `OffLoop`, `playStep_noted`, `reach_noted` -- they say so in every run.
-/
import ViralEngine.Feed.Binding

namespace Viral.Feed

open Viral.Lib Viral.Ijk Viral.Ijk.Player

/-! ## 1. The places of a loop -/

/-- What a place stores into the `state` of the slot. -/
def storeAt : LoopPc → Option ViralState
  | .handling .prepared => some .ready
  | .handling .completed => some .idle
  | .handling .error => some .error
  | .storePlaying => some .playing
  | _ => none

/-- The place behind another one; `feedIndex` and `current` are what the two reads of the case of
    PREPARED find. -/
def Next (feedIndex current : Int) : LoopPc → LoopPc → Prop
  | .spawned, pc => pc = .wait ∨ pc = .crashed
  | .wait, pc => pc = .ended ∨ ∃ m, pc = .got m
  | .got m, pc => pc = Player.served m
  | .handling .prepared, pc => pc = .fire .ready
  | .handling .completed, pc => pc = .fire .completed
  | .handling .error, pc => pc = .fire .error
  | .handling .bufferingStart, pc => pc = .fire .buffering
  | .handling .stateChanged, pc => pc = .storePlaying ∨ pc = .wait
  | .handling _, pc => pc = .wait
  | .storePlaying, pc => pc = .fire .started
  | .fire e, pc => pc = if e = .ready then .testIndex else .wait
  | .testIndex, pc => pc = .testCurrent feedIndex
  | .testCurrent f, pc => pc = if f = current then .start else .wait
  | .start, pc => pc = .wait
  | _, _ => False

/-- A message is in hand. -/
def inHand : LoopPc → Bool
  | .got _ | .handling _ | .storePlaying | .fire _ | .testIndex | .testCurrent _ | .start => true
  | _ => false

/-- READY is stored and the case of PREPARED is not over. -/
def behindReady : LoopPc → Bool
  | .fire .ready | .testIndex | .testCurrent _ | .start => true
  | _ => false

/-- Into the case of PREPARED leads its store of READY only. -/
theorem Next.behindReady {feedIndex current : Int} {pc next : LoopPc}
    (h : Next feedIndex current pc next) (hn : behindReady next = true) :
    pc = .handling .prepared ∨ behindReady pc = true := by
  cases pc with
  | testIndex | testCurrent f | start => exact Or.inr rfl
  | none | ended | crashed => exact h.elim
  | spawned =>
    rcases h with rfl | rfl <;> cases hn
  | wait =>
    rcases h with rfl | ⟨m, rfl⟩ <;> cases hn
  | got m =>
    cases h
    cases m <;> cases hn
  | storePlaying =>
    cases h
    cases hn
  | handling m =>
    cases m with
    | prepared => exact Or.inl rfl
    | stateChanged => rcases h with rfl | rfl <;> cases hn
    | flush | completed | error | bufferingStart | other | reqStart | reqPause =>
      cases h
      cases hn
  | fire e =>
    by_cases he : e = .ready
    · rw [he]
      exact Or.inr rfl
    · have hw : next = .wait := by
        change next = if e = .ready then .testIndex else .wait at h
        rw [h, if_neg he]
      rw [hw] at hn
      cases hn

/-- To the test leads the read of the slot's number only. -/
theorem Next.testCurrent {feedIndex current f : Int} {pc : LoopPc}
    (h : Next feedIndex current pc (.testCurrent f)) : pc = .testIndex ∧ f = feedIndex := by
  cases pc with
  | testIndex =>
    cases h
    exact ⟨rfl, rfl⟩
  | none | ended | crashed => exact h.elim
  | spawned => rcases h with e | e <;> cases e
  | wait => rcases h with e | ⟨_, e⟩ <;> cases e
  | got m => cases m <;> cases h
  | handling m =>
    cases m with
    | stateChanged => rcases h with e | e <;> cases e
    | prepared | flush | completed | error | bufferingStart | other | reqStart | reqPause => cases h
  | storePlaying | start => cases h
  | fire e =>
    change LoopPc.testCurrent f = if e = .ready then .testIndex else .wait at h
    split at h <;> cases h
  | testCurrent f' =>
    change LoopPc.testCurrent f = if f' = current then .start else .wait at h
    split at h <;> cases h

/-- Out of the case of PREPARED leads the test that does not find the index, or the start. -/
theorem Next.leaves {feedIndex current : Int} {pc next : LoopPc}
    (h : Next feedIndex current pc next) (hpc : Feed.behindReady pc = true)
    (hn : Feed.behindReady next = false) :
    pc = .start ∨ ∃ f, pc = .testCurrent f ∧ f ≠ current := by
  unfold Feed.behindReady at hpc
  split at hpc
  · rw [show next = .testIndex from h] at hn
    cases hn
  · rw [show next = .testCurrent feedIndex from h] at hn
    cases hn
  · rename_i f
    refine Or.inr ⟨f, rfl, fun e => ?_⟩
    rw [show next = if f = current then .start else .wait from h, if_pos e] at hn
    cases hn
  · exact Or.inl rfl
  · cases hpc

section Loops

variable {s t : State} {n : Nat} {T : Player}

theorem storeState_state (s : State) (j k : Slot) (state : ViralState) :
    ((s.storeState j state).feed.pool k).state =
      if k = j then state else (s.feed.pool k).state := by
  show (if k = j then { s.feed.pool j with state := state } else s.feed.pool k).state = _
  split <;> rfl

/-- What a step of a loop leaves: in its slot, and as the next place of its thread. -/
structure LoopLeaves (s t : State) (n : Nat) (T : Player) : Prop where
  ring : SameRing s t
  scroll : t.scroll = s.scroll
  urls : t.feed.urls = s.feed.urls
  created : t.feed.created = s.feed.created
  state : ∀ k, (t.feed.pool k).state =
    if k = T.slot then (storeAt T.loop).getD (s.feed.pool k).state else (s.feed.pool k).state
  place : ∃ T', t.players[n]? = some T' ∧
    Next (s.feed.pool T.slot).feedIndex s.feed.currentIndex T.loop T'.loop ∧
    (T.loop ≠ .spawned → T'.target = T.target)

/-- The thread goes to a place, perhaps behind a call on a player. -/
theorem loopLeaves_setLoop {u : State} {pc : LoopPc} {fired : List (Nat × Int × ViralEvent)}
    (hu : SameRing s u ∧ u.scroll = s.scroll ∧ u.feed.urls = s.feed.urls ∧
      u.feed.created = s.feed.created)
    (hU : ∃ U, u.players[n]? = some U ∧ U.target = T.target)
    (hstate : ∀ k, (u.feed.pool k).state =
      if k = T.slot then (storeAt T.loop).getD (s.feed.pool k).state else (s.feed.pool k).state)
    (hnext : Next (s.feed.pool T.slot).feedIndex s.feed.currentIndex T.loop pc) :
    LoopLeaves s { u.setLoop n pc with fired := fired } n T := by
  obtain ⟨U, hU, htarget⟩ := hU
  obtain ⟨hring, hscroll, hurls, hcreated⟩ := hu
  refine ⟨⟨hring.mp, hring.feedIndex, hring.current⟩, hscroll, hurls, hcreated, hstate,
    { U with loop := pc }, ?_, hnext, fun _ => htarget⟩
  show (u.players.modify n _)[n]? = _
  rw [modify_of_get hU, List.getElem?_set, if_pos rfl, if_pos (List.getElem?_eq_some_iff.mp hU).1]

/-- **The places of a loop, one step on.** -/
theorem loopStep_leaves (h : loopStep s n = some t) (hT : s.players[n]? = some T) :
    LoopLeaves s t n T := by
  have hself : ∃ U, s.players[n]? = some U ∧ U.target = T.target := ⟨T, hT, rfl⟩
  have hring : SameRing s s ∧ s.scroll = s.scroll ∧ s.feed.urls = s.feed.urls ∧
      s.feed.created = s.feed.created := ⟨sameRing_refl s, rfl, rfl, rfl⟩
  have hsame : storeAt T.loop = none → ∀ k, (s.feed.pool k).state =
      if k = T.slot then (storeAt T.loop).getD (s.feed.pool k).state
      else (s.feed.pool k).state := by
    intro hno k
    rw [hno]
    exact (ite_self _).symm
  have hstore : ∀ {state}, storeAt T.loop = some state → ∀ k,
      ((s.storeState T.slot state).feed.pool k).state =
        if k = T.slot then (storeAt T.loop).getD (s.feed.pool k).state
        else (s.feed.pool k).state := by
    intro state hs k
    rw [hs]
    exact storeState_state s T.slot k state
  have hcall : ∀ {mp : Nat} {f : Player → Player}, (∀ P, s.players[mp]? = some P → Kin P (f P)) →
      ∃ U, (s.onPlayer mp f).players[n]? = some U ∧ U.target = T.target := by
    intro mp f hkin
    obtain ⟨U, hU, _, _, htarget⟩ := onPlayer_thread hT hkin
    exact ⟨U, hU, htarget⟩
  unfold loopStep at h
  simp only [hT, Option.bind_eq_bind, Option.bind_some] at h
  cases hl : T.loop with
  | none | ended | crashed =>
    simp only [hl] at h
    cases h
  | spawned =>
    have hno : storeAt T.loop = none := by rw [hl]; rfl
    simp only [hl] at h
    split at h
    · cases h
      rename_i mp _
      refine ⟨⟨fun _ => rfl, fun _ => rfl, rfl⟩, rfl, rfl, rfl, hsame hno,
        { T with loop := .wait, target := some mp }, ?_, ?_,
        fun e => absurd hl e⟩
      · show (s.players.modify n _)[n]? = _
        rw [modify_of_get hT, List.getElem?_set, if_pos rfl,
          if_pos (List.getElem?_eq_some_iff.mp hT).1]
      · rw [hl]
        exact Or.inl rfl
    · cases h
      refine loopLeaves_setLoop hring hself (hsame hno) ?_
      rw [hl]
      exact Or.inr rfl
  | wait =>
    simp only [hl] at h
    obtain ⟨mp, _, h⟩ := Option.bind_eq_some_iff.mp h
    obtain ⟨P, hP, h⟩ := Option.bind_eq_some_iff.mp h
    obtain ⟨⟨Q, pc⟩, htake, h⟩ := Option.bind_eq_some_iff.mp h
    cases h
    refine loopLeaves_setLoop (u := s.onPlayer mp fun _ => Q)
      ⟨⟨fun _ => rfl, fun _ => rfl, rfl⟩, rfl, rfl, rfl⟩ (hcall (kin_took hP htake))
      (hsame (by rw [hl]; rfl)) ?_
    rw [hl]
    rcases take_cases htake with ⟨_, _, rfl⟩ | ⟨_, m, _, _, _, rfl⟩
    · exact Or.inl rfl
    · exact Or.inr ⟨m, rfl⟩
  | got m =>
    simp only [hl] at h
    obtain ⟨mp, _, h⟩ := Option.bind_eq_some_iff.mp h
    cases h
    refine loopLeaves_setLoop (u := s.onPlayer mp fun R => R.serve m)
      ⟨⟨fun _ => rfl, fun _ => rfl, rfl⟩, rfl, rfl, rfl⟩
      (hcall fun R _ => kin_of_sameThread (sameThread_serve R m)) (hsame (by rw [hl]; rfl)) ?_
    rw [hl]
    rfl
  | handling m =>
    simp only [hl] at h
    cases m with
    | prepared | completed | error =>
      cases h
      refine loopLeaves_setLoop (u := s.storeState T.slot _)
        ⟨sameRing_storeState s T.slot _, rfl, rfl, rfl⟩ hself (hstore (by rw [hl]; rfl)) ?_
      rw [hl]
      rfl
    | bufferingStart | flush | other | reqStart | reqPause =>
      cases h
      refine loopLeaves_setLoop hring hself (hsame (by rw [hl]; rfl)) ?_
      rw [hl]
      rfl
    | stateChanged =>
      simp only [switchStep, Option.bind_eq_bind] at h
      obtain ⟨mp, _, h⟩ := Option.bind_eq_some_iff.mp h
      obtain ⟨P, _, h⟩ := Option.bind_eq_some_iff.mp h
      cases h
      refine loopLeaves_setLoop hring hself (hsame (by rw [hl]; rfl)) ?_
      rw [hl]
      cases P.isPlaying with
      | true => exact Or.inl rfl
      | false => exact Or.inr rfl
  | storePlaying =>
    simp only [hl, Option.some.injEq] at h
    rw [← h]
    refine loopLeaves_setLoop (u := s.storeState T.slot _)
        ⟨sameRing_storeState s T.slot _, rfl, rfl, rfl⟩ hself (hstore (by rw [hl]; rfl)) ?_
    rw [hl]
    rfl
  | fire e | testIndex | testCurrent f =>
    simp only [hl, Option.some.injEq] at h
    rw [← h]
    refine loopLeaves_setLoop hring hself (hsame (by rw [hl]; rfl)) ?_
    rw [hl]
    rfl
  | start =>
    simp only [hl] at h
    obtain ⟨mp, _, h⟩ := Option.bind_eq_some_iff.mp h
    cases h
    refine loopLeaves_setLoop (u := (s.onPlayer mp .start).log mp .start)
      ⟨⟨fun _ => rfl, fun _ => rfl, rfl⟩, rfl, rfl, rfl⟩ (hcall fun R _ => kin_start R)
      (hsame (by rw [hl]; rfl)) ?_
    rw [hl]
    rfl

end Loops

/-! ## 2. The calls of `ijkmp_start` a player has had -/

/-- The player was started, or a start is in its queue. -/
def Asked (P : Player) : Prop :=
  P.resumes = true ∨ P.mpState = .started ∨ Msg.reqStart ∈ P.queue

/-- What a step makes of a player where no start is asked for. PREPARED is a state that no player
    stays in. -/
structure Tame (P Q : Player) : Prop where
  asked : Asked Q → Asked P
  state : P.mpState ≠ .prepared → Q.mpState ≠ .prepared

section Tame

variable {P Q R : Player}

theorem Tame.refl (P : Player) : Tame P P := ⟨id, id⟩

theorem Tame.trans (h : Tame P Q) (k : Tame Q R) : Tame P R :=
  ⟨fun ha => h.asked (k.asked ha), fun hs => k.state (h.state hs)⟩

theorem tame_put {m : Msg} (hm : m ≠ .reqStart) : Tame P (P.put m) := by
  unfold Player.put
  split
  · exact Tame.refl P
  · refine ⟨fun ha => ha.imp id (Or.imp id fun hq => ?_), id⟩
    rcases List.mem_append.mp hq with hq | hq
    · exact hq
    · exact absurd (List.mem_singleton.mp hq).symm hm

/-- A player's own thread asks for no start that was not asked for before. -/
theorem tame_post {m : Msg} (h : P.mayPost m = true) : Tame P (P.put m) := by
  by_cases hm : m = .reqStart
  · have hstarted := (mayPost_request h (by rw [hm]; rfl)).2.1
    refine ⟨fun _ => Or.inl hstarted, fun hs => ?_⟩
    unfold Player.put
    split
    · exact hs
    · exact hs
  · exact tame_put hm

theorem tame_removeReqs : Tame P P.removeReqs := by
  unfold Player.removeReqs
  split
  · exact Tame.refl P
  · exact ⟨fun ha => ha.imp id (Or.imp id fun hq => (List.mem_filter.mp hq).1), id⟩

theorem asked_changeState {st : MpState} (hs : st ≠ .started) (h : Asked (P.changeState st)) :
    Asked P := by
  have hput := (tame_put (P := { P with mpState := st }) (m := .stateChanged) (by nofun)).asked h
  exact hput.imp id fun ha => Or.inr (ha.resolve_left hs)

/-- A change of the state that neither starts nor prepares. -/
theorem tame_changeState {st : MpState} (hs : st ≠ .started) (hp : st ≠ .prepared) :
    Tame P (P.changeState st) := by
  refine ⟨asked_changeState hs, fun _ => ?_⟩
  rw [changeState_mpState]
  exact hp

theorem tame_pause : Tame P P.pause := by
  unfold Player.pause
  split
  · exact tame_removeReqs.trans (tame_put (by nofun))
  · exact Tame.refl P

theorem tame_stop : Tame P P.stop := by
  unfold Player.stop
  split
  · refine tame_removeReqs.trans (Tame.trans (Q := { P.removeReqs with aborted := true })
      ⟨id, id⟩ (tame_changeState (by nofun) (by nofun)))
  · exact Tame.refl P

theorem tame_shutdown : Tame P P.shutdown := ⟨id, id⟩

theorem tame_setDataSource : Tame P P.setDataSource := by
  unfold Player.setDataSource
  split
  · exact tame_changeState (by nofun) (by nofun)
  · exact Tame.refl P

theorem tame_take {pc : LoopPc} (h : P.take = some (Q, pc)) :
    Tame P Q ∧ (pc = .got .reqStart → Asked P) := by
  rcases take_cases h with ⟨_, rfl, rfl⟩ | ⟨_, m, rest, hq, rfl, rfl⟩
  · exact ⟨Tame.refl _, by nofun⟩
  · refine ⟨⟨fun ha => ha.imp id (Or.imp id fun hr => ?_), id⟩, fun e => ?_⟩
    · rw [hq]
      exact List.mem_cons_of_mem m hr
    · cases e
      refine Or.inr (Or.inr ?_)
      rw [hq]
      exact List.mem_cons_self

/-- A start that is asked for was asked for before, or the player accepts it now. -/
theorem asked_start (h : Asked P.start) : Asked P ∨ chkst P.mpState = true := by
  unfold Player.start at h
  split at h
  · rename_i hst
    exact Or.inr hst
  · exact Or.inl h

theorem start_mpState (P : Player) : P.start.mpState = P.mpState := by
  rcases start_cases P with e | ⟨_, _, e⟩ <;> rw [e]
  rfl

theorem tame_serve {m : Msg} (hm : m ≠ .reqStart) : Tame P (P.serve m) := by
  cases m with
  | reqStart => exact absurd rfl hm
  | prepared =>
    unfold Player.serve
    dsimp only
    split
    · -- PREPARED and PAUSED, with the lock held throughout
      refine ⟨fun ha => ?_, fun _ => ?_⟩
      · have hprepared : Asked (P.changeState .prepared) := asked_changeState (by nofun) ha
        exact asked_changeState (by nofun) hprepared
      · rw [changeState_mpState]
        nofun
    · exact tame_changeState (by nofun) (by nofun)
  | completed => exact tame_changeState (by nofun) (by nofun)
  | reqPause =>
    unfold Player.serve
    dsimp only
    split
    · exact tame_changeState (by nofun) (by nofun)
    · exact Tame.refl P
  | flush | error | bufferingStart | stateChanged | other => exact Tame.refl P

/-- Behind the serving of a start the player is not PREPARED either. -/
theorem serve_mpState (m : Msg) (h : P.mpState ≠ .prepared) :
    (P.serve m).mpState ≠ .prepared := by
  by_cases hm : m = .reqStart
  · subst hm
    unfold Player.serve
    dsimp only
    split
    · rw [changeState_mpState]
      nofun
    · exact h
  · exact (tame_serve hm).state h

theorem not_asked_prepareAsync (k : Slot) (ok : Bool) :
    ¬ Asked ((initialized k).prepareAsync ok) := by
  rw [prepareAsync_initialized]
  cases ok <;> simp [Asked, create]

/-- PREPARED served, the player lets a start through. -/
theorem serve_prepared_chkst (P : Player) : chkst (P.serve .prepared).mpState = true := by
  unfold Player.serve
  rw [changeState_mpState]
  rfl

end Tame

/-! ## 3. Notes beside a run -/

/-- Of each player: whether its `mp_state` has been one behind PREPARED, whether `ijkmp_start` was
    called on it since, and whether a loop has done with its PREPARED message. -/
structure Notes where
  prepared : Nat → Bool
  started : Nat → Bool
  handled : Nat → Bool

/-- Nothing has been noted. -/
def Notes.none : Notes := ⟨fun _ => false, fun _ => false, fun _ => false⟩

/-- A loop that works on the player leaves the case of PREPARED in this step. -/
def leavesPrepared (s : State) (a : PlayAct) (t : State) (mp : Nat) : Bool :=
  match a with
  | .loop n =>
    match s.players[n]?, t.players[n]? with
    | some T, some T' => T.target == some mp && behindReady T.loop && !behindReady T'.loop
    | _, _ => false
  | _ => false

/-- The notes behind a step; the calls are those the step has logged. -/
def takeNotes (g : Notes) (s : State) (a : PlayAct) (t : State) : Notes where
  prepared mp := g.prepared mp || t.players[mp]?.any fun P => chkst P.mpState
  started mp := g.started mp ||
    g.prepared mp && (t.feed.calls.drop s.feed.calls.length).contains (mp, .start)
  handled mp := g.handled mp || leavesPrepared s a t mp

/-- The feed and its message loops, with notes. -/
def watched (urls : List String) : Machine (State × Notes) PlayAct :=
  (playback urls).watch Notes.none takeNotes

section Notes

variable {s t : State} {g : Notes} {a : PlayAct} {mp : Nat}

theorem takeNotes_prepared {P : Player} (hP : t.players[mp]? = some P)
    (hst : chkst P.mpState = true) : (takeNotes g s a t).prepared mp = true := by
  simp [takeNotes, hP, hst]

theorem takeNotes_keeps_prepared (h : g.prepared mp = true) :
    (takeNotes g s a t).prepared mp = true := by
  simp [takeNotes, h]

theorem takeNotes_keeps_started (h : g.started mp = true) :
    (takeNotes g s a t).started mp = true := by
  simp [takeNotes, h]

theorem takeNotes_started (hp : g.prepared mp = true)
    (hlog : t.feed.calls = s.feed.calls ++ [(mp, .start)]) :
    (takeNotes g s a t).started mp = true := by
  simp [takeNotes, hp, hlog]

theorem takeNotes_handled (hno : leavesPrepared s a t mp = false) :
    (takeNotes g s a t).handled mp = g.handled mp := by
  simp [takeNotes, hno]

end Notes

/-! ## 4. What the notes say of the places -/

/-- What a loop with this in hand says of the player it works on. -/
def HandOk (g : Notes) (mp : Nat) : LoopPc → Prop
  | .handling .prepared | .fire .ready | .testIndex | .testCurrent _ | .start =>
    g.prepared mp = true
  | .got .reqStart | .storePlaying => g.started mp = true
  | _ => True

/-- READY is still to be stored for the player's PREPARED message. -/
def Waiting (s : State) (g : Notes) (mp : Nat) : Prop :=
  g.handled mp = false ∧
    ∀ (n : Nat) (T : Player), s.players[n]? = some T → T.target = some mp →
      behindReady T.loop = false

/-- **What the notes say**, in every run. -/
structure Noted (s : State) (g : Notes) : Prop where
  bound : Bound s
  prepared : ∀ mp P, s.players[mp]? = some P → chkst P.mpState = true → g.prepared mp = true
  asked : ∀ mp P, s.players[mp]? = some P → Asked P → g.started mp = true
  state : ∀ (mp : Nat) P, s.players[mp]? = some P → P.mpState ≠ .prepared
  hands : ∀ (n : Nat) T mp, s.players[n]? = some T → T.target = some mp → HandOk g mp T.loop
  handled : ∀ mp, g.handled mp = true → ∃ P, s.players[mp]? = some P ∧ P.loop ≠ .none
  loading : ∀ k mp, (s.feed.pool k).mp = some mp → (s.feed.pool k).state = .preloading →
    Waiting s g mp

/-- What a step makes of a player. -/
structure Turn (g : Notes) (mp : Nat) (P Q : Player) : Prop where
  born : P.loop ≠ .none → Q.loop ≠ .none
  asked : Asked Q → Asked P ∨ g.started mp = true
  state : P.mpState ≠ .prepared → Q.mpState ≠ .prepared

theorem Turn.refl (g : Notes) (mp : Nat) (P : Player) : Turn g mp P P := ⟨id, Or.inl, id⟩

theorem turn_tame {g : Notes} {mp : Nat} {P Q : Player} (hk : Kin P Q) (h : Tame P Q) :
    Turn g mp P Q :=
  ⟨fun hb => by rw [hk.loop]; exact hb, fun ha => Or.inl (h.asked ha), h.state⟩

section Noted

variable {s t : State} {g : Notes} {a : PlayAct}

theorem HandOk.mono {g' : Notes} {mp : Nat} {pc : LoopPc} (h : HandOk g mp pc)
    (hp : g.prepared mp = true → g'.prepared mp = true)
    (hs : g.started mp = true → g'.started mp = true) : HandOk g' mp pc := by
  unfold HandOk at h ⊢
  split <;> simp_all

theorem Noted.keepHand (h : Noted s g) {n mp : Nat} {T : Player} (hT : s.players[n]? = some T)
    (htarget : T.target = some mp) : HandOk (takeNotes g s a t) mp T.loop :=
  (h.hands n T mp hT htarget).mono takeNotes_keeps_prepared takeNotes_keeps_started

theorem modify_cases {l : List Player} {mp j : Nat} {f : Player → Player} {Q : Player}
    (h : (l.modify mp f)[j]? = some Q) :
    ∃ P, l[j]? = some P ∧ (j = mp ∧ Q = f P ∨ j ≠ mp ∧ Q = P) := by
  rw [List.getElem?_modify] at h
  obtain ⟨P, hP, hQ⟩ := Option.map_eq_some_iff.mp h
  refine ⟨P, hP, ?_⟩
  by_cases e : mp = j
  · exact Or.inl ⟨e.symm, by rw [← hQ, if_pos e]⟩
  · exact Or.inr ⟨Ne.symm e, by rw [← hQ, if_neg e]⟩

/-- A player that is being made: nobody has had its PREPARED message. -/
theorem Bound.waiting_unborn (hb : Bound s) {mp : Nat} {P : Player} (hP : s.players[mp]? = some P)
    (hl : P.loop = .none) (hno : g.handled mp = false) : Waiting s g mp := by
  refine ⟨hno, fun n T hT htarget => ?_⟩
  cases hbeh : behindReady T.loop with
  | false => rfl
  | true =>
    obtain ⟨Q, hQ, _, hborn⟩ := hb.target_born hT (by intro e; rw [e] at hbeh; cases hbeh)
      (by intro e; rw [e] at hbeh; cases hbeh) htarget
    rw [Option.some.inj (hQ.symm.trans hP)] at hborn
    exact absurd hl hborn

/-- What a step that is none of a loop makes of the players and slots: the threads keep what they
    have in hand, and only a player that is being made gets into PRELOADING. -/
structure OffLoop (s t : State) (g : Notes) : Prop where
  longer : s.players.length ≤ t.players.length
  players : ∀ (mp : Nat) Q, t.players[mp]? = some Q →
    (s.players[mp]? = none ∧ ∃ k, Q = Player.create k) ∨
      ∃ P, s.players[mp]? = some P ∧ Turn g mp P Q ∧
        (Q.target = none ∨ Q.loop = P.loop ∧ Q.target = P.target)
  slots : ∀ k mp, (t.feed.pool k).mp = some mp → (t.feed.pool k).state = .preloading →
    ((s.feed.pool k).mp = some mp ∧ (s.feed.pool k).state = .preloading) ∨
      ∃ P, t.players[mp]? = some P ∧ P.loop = .none

theorem OffLoop.hand (h : OffLoop s t g) {n mp : Nat} {T' : Player}
    (hT' : t.players[n]? = some T') (htarget : T'.target = some mp) :
    ∃ T, s.players[n]? = some T ∧ T.target = some mp ∧ T'.loop = T.loop := by
  rcases h.players n T' hT' with ⟨_, k, rfl⟩ | ⟨P, hP, _, hnone | ⟨hloop, hsame⟩⟩
  · cases htarget
  · rw [hnone] at htarget
    cases htarget
  · exact ⟨P, hP, hsame ▸ htarget, hloop⟩

theorem OffLoop.keeps (h : OffLoop s t g) {mp : Nat} {P : Player} (hP : s.players[mp]? = some P) :
    ∃ Q, t.players[mp]? = some Q ∧ (P.loop ≠ .none → Q.loop ≠ .none) := by
  have hlt : mp < t.players.length :=
    Nat.lt_of_lt_of_le (List.getElem?_eq_some_iff.mp hP).1 h.longer
  rcases h.players mp _ (List.getElem?_eq_getElem hlt) with ⟨hnone, _⟩ | ⟨P', hP', hturn, _⟩
  · rw [hP] at hnone
    cases hnone
  · rw [hP] at hP'
    cases hP'
    exact ⟨_, List.getElem?_eq_getElem hlt, hturn.born⟩

theorem OffLoop.waiting {g' : Notes} (h : OffLoop s t g')
    (hno : ∀ mp, leavesPrepared s a t mp = false) {mp : Nat} (hw : Waiting s g mp) :
    Waiting t (takeNotes g s a t) mp := by
  refine ⟨(takeNotes_handled (hno mp)).trans hw.1, fun n T' hT' htarget => ?_⟩
  obtain ⟨T, hT, hsame, hloop⟩ := h.hand hT' htarget
  rw [hloop]
  exact hw.2 n T hT hsame

/-- **A step that is none of a loop.** -/
theorem Noted.step (h : Noted s g) (hb : Bound t) (hno : ∀ mp, leavesPrepared s a t mp = false)
    (hoff : OffLoop s t (takeNotes g s a t)) : Noted t (takeNotes g s a t) := by
  have hhandled : ∀ mp, (takeNotes g s a t).handled mp = true →
      ∃ Q, t.players[mp]? = some Q ∧ Q.loop ≠ .none := by
    intro mp hmp
    rw [takeNotes_handled (hno mp)] at hmp
    obtain ⟨P, hP, hborn⟩ := h.handled mp hmp
    obtain ⟨Q, hQ, hkept⟩ := hoff.keeps hP
    exact ⟨Q, hQ, hkept hborn⟩
  refine ⟨hb, fun mp P hP hst => takeNotes_prepared hP hst, ?_, ?_, ?_, hhandled, ?_⟩
  · intro mp Q hQ hasked
    rcases hoff.players mp Q hQ with ⟨_, k, rfl⟩ | ⟨P, hP, hturn, _⟩
    · rcases hasked with e | e | e <;> cases e
    · rcases hturn.asked hasked with hold | hnew
      · exact takeNotes_keeps_started (h.asked mp P hP hold)
      · exact hnew
  · intro mp Q hQ
    rcases hoff.players mp Q hQ with ⟨_, k, rfl⟩ | ⟨P, hP, hturn, _⟩
    · nofun
    · exact hturn.state (h.state mp P hP)
  · intro n T' mp hT' htarget
    obtain ⟨T, hT, hsame, hloop⟩ := hoff.hand hT' htarget
    rw [hloop]
    exact h.keepHand hT hsame
  · intro k mp hmp hst
    rcases hoff.slots k mp hmp hst with ⟨hmp', hst'⟩ | ⟨P, hP, hl⟩
    · exact hoff.waiting hno (h.loading k mp hmp' hst')
    · refine hb.waiting_unborn hP hl ?_
      cases hg : (takeNotes g s a t).handled mp with
      | false => rfl
      | true =>
        obtain ⟨Q, hQ, hborn⟩ := hhandled mp hg
        rw [Option.some.inj (hQ.symm.trans hP)] at hborn
        exact absurd hl hborn

/-- The players stay. -/
theorem offLoop_still (hplayers : t.players = s.players)
    (hslots : ∀ k mp, (t.feed.pool k).mp = some mp → (t.feed.pool k).state = .preloading →
      ((s.feed.pool k).mp = some mp ∧ (s.feed.pool k).state = .preloading) ∨
        ∃ P, t.players[mp]? = some P ∧ P.loop = .none) : OffLoop s t g := by
  refine ⟨Nat.le_of_eq (congrArg List.length hplayers.symm), fun mp Q hQ => ?_, hslots⟩
  rw [hplayers] at hQ
  exact Or.inr ⟨Q, hQ, Turn.refl _ _ _, Or.inr ⟨rfl, rfl⟩⟩

/-- Only the places of calls change, or the index. -/
theorem offLoop_pool (hplayers : t.players = s.players) (hpool : t.feed.pool = s.feed.pool) :
    OffLoop s t g := by
  refine offLoop_still hplayers fun k mp hmp hst => ?_
  rw [hpool] at hmp hst
  exact Or.inl ⟨hmp, hst⟩

/-- A call of ijkplayer on a player. -/
theorem offLoop_call {mp : Nat} {f : Player → Player}
    (hplayers : t.players = s.players.modify mp f)
    (hturn : ∀ P, s.players[mp]? = some P → Turn g mp P (f P) ∧
      ((f P).target = none ∨ (f P).loop = P.loop ∧ (f P).target = P.target))
    (hpool : t.feed.pool = s.feed.pool) : OffLoop s t g := by
  refine ⟨Nat.le_of_eq (by rw [hplayers, List.length_modify]), fun j Q hQ => ?_,
    fun k n hmp hst => ?_⟩
  · rw [hplayers] at hQ
    obtain ⟨P, hP, ⟨rfl, rfl⟩ | ⟨_, rfl⟩⟩ := modify_cases hQ
    · exact Or.inr ⟨P, hP, hturn P hP⟩
    · exact Or.inr ⟨Q, hP, Turn.refl _ _ _, Or.inr ⟨rfl, rfl⟩⟩
  · rw [hpool] at hmp hst
    exact Or.inl ⟨hmp, hst⟩

theorem offLoop_tame {mp : Nat} {f : Player → Player}
    (hplayers : t.players = s.players.modify mp f) (hkin : ∀ P, Kin P (f P))
    (htame : ∀ P, Tame P (f P)) (hpool : t.feed.pool = s.feed.pool) : OffLoop s t g :=
  offLoop_call hplayers (fun P _ =>
    ⟨turn_tame (hkin P) (htame P), Or.inr ⟨(hkin P).loop, (hkin P).target⟩⟩) hpool

/-- `ijkmp_start`, whoever calls it: a player that accepts it has become prepared. -/
theorem Noted.turnStart (h : Noted s g) {mp : Nat} {P : Player} (hP : s.players[mp]? = some P)
    (hlog : t.feed.calls = s.feed.calls ++ [(mp, .start)]) :
    Turn (takeNotes g s a t) mp P P.start where
  born hb := by
    rw [(start_thread P).1]
    exact hb
  asked hasked :=
    (asked_start hasked).imp id fun hst => takeNotes_started (h.prepared mp P hP hst) hlog
  state hs := by
    rw [start_mpState]
    exact hs

theorem Noted.offLoop_start (h : Noted s g) {mp : Nat}
    (hplayers : t.players = s.players.modify mp Player.start)
    (hlog : t.feed.calls = s.feed.calls ++ [(mp, .start)]) (hpool : t.feed.pool = s.feed.pool) :
    OffLoop s t (takeNotes g s a t) :=
  offLoop_call hplayers (fun P hP =>
    ⟨h.turnStart hP hlog, Or.inr ⟨(kin_start P).loop, (kin_start P).target⟩⟩) hpool

/-! ### The message loops -/

/-- What a step of a loop makes of the players; but for its own thread nobody moves. -/
theorem Noted.loopTurns {n : Nat} (h : Noted s g) (hstep : loopStep s n = some t) {j : Nat}
    {Q : Player} (hQ : t.players[j]? = some Q) :
    ∃ P, s.players[j]? = some P ∧ Turn (takeNotes g s (.loop n) t) j P Q ∧
      (j ≠ n → Q.loop = P.loop ∧ Q.target = P.target) := by
  obtain ⟨T, hT, hdo⟩ := loopStep_do hstep
  -- a call on a player, and then the thread
  have hboth : ∀ {u : State} {mp : Nat} {f : Player → Player} {pc : LoopPc},
      u.players = s.players.modify mp f → t.players = (u.setLoop n pc).players → pc ≠ .none →
      (∀ P, s.players[mp]? = some P → Kin P (f P) ∧ Turn (takeNotes g s (.loop n) t) mp P (f P)) →
      ∃ P, s.players[j]? = some P ∧ Turn (takeNotes g s (.loop n) t) j P Q ∧
        (j ≠ n → Q.loop = P.loop ∧ Q.target = P.target) := by
    intro u mp f pc hu ht hpc hf
    rw [ht] at hQ
    obtain ⟨U, hU, hQU⟩ := modify_cases hQ
    rw [hu] at hU
    have hUP : ∃ P, s.players[j]? = some P ∧ Kin P U ∧
        Turn (takeNotes g s (.loop n) t) j P U := by
      obtain ⟨P, hP, ⟨rfl, rfl⟩ | ⟨_, rfl⟩⟩ := modify_cases hU
      · exact ⟨P, hP, hf P hP⟩
      · exact ⟨U, hP, Kin.refl U, Turn.refl _ _ _⟩
    obtain ⟨P, hP, hkin, hturn⟩ := hUP
    refine ⟨P, hP, ?_⟩
    rcases hQU with ⟨_, rfl⟩ | ⟨hne, rfl⟩
    · exact ⟨⟨fun _ => hpc, hturn.asked, hturn.state⟩, fun hne => absurd ‹j = n› hne⟩
    · exact ⟨hturn, fun _ => ⟨hkin.loop, hkin.target⟩⟩
  have hmove : ∀ {pc : LoopPc}, t.players = (s.setLoop n pc).players → pc ≠ .none →
      ∃ P, s.players[j]? = some P ∧ Turn (takeNotes g s (.loop n) t) j P Q ∧
        (j ≠ n → Q.loop = P.loop ∧ Q.target = P.target) := by
    intro pc ht hpc
    have hid : s.players = s.players.modify n id := (List.modify_id n s.players).symm
    exact hboth hid ht hpc fun P _ => ⟨Kin.refl P, Turn.refl _ _ _⟩
  cases hdo with
  | found mp hl hmp =>
    obtain ⟨P, hP, ⟨rfl, rfl⟩ | ⟨hne, rfl⟩⟩ := modify_cases hQ
    · exact ⟨P, hP, ⟨fun _ => by nofun, Or.inl, id⟩, fun hne => absurd rfl hne⟩
    · exact ⟨Q, hP, Turn.refl _ _ _, fun _ => ⟨rfl, rfl⟩⟩
  | lost hl hmp => exact hmove rfl (by nofun)
  | took mp P Q' pc hl htarget hP htake =>
    refine hboth (u := s.onPlayer mp fun _ => Q') rfl rfl ?_ fun R hR => ?_
    · rcases take_cases htake with ⟨_, _, rfl⟩ | ⟨_, m, _, _, _, rfl⟩ <;> nofun
    · have hkin := kin_took hP htake R hR
      rw [Option.some.inj (hR.symm.trans hP)] at hkin ⊢
      exact ⟨hkin, turn_tame hkin (tame_take htake).1⟩
  | served m mp hl htarget =>
    refine hboth (u := s.onPlayer mp fun P => P.serve m) rfl rfl ?_ fun P hP => ?_
    · cases m <;> nofun
    · have hkin := kin_of_sameThread (sameThread_serve P m)
      refine ⟨hkin, fun hb => by rw [hkin.loop]; exact hb, fun ha => ?_, serve_mpState m⟩
      by_cases hm : m = .reqStart
      · -- the start in hand was asked for
        have hhand := h.hands n T mp hT htarget
        rw [hl, hm] at hhand
        exact Or.inr (takeNotes_keeps_started hhand)
      · exact Or.inl ((tame_serve hm).asked ha)
  | stored state e hl => exact hmove rfl (by nofun)
  | buffering hl => exact hmove rfl (by nofun)
  | plays mp P hl htarget hP hplay => exact hmove rfl (by nofun)
  | passed m hl => exact hmove rfl (by nofun)
  | fired e pc hl hpc =>
    have hne : pc ≠ .none := by
      rcases hpc with rfl | rfl <;> nofun
    exact hmove rfl hne
  | indexRead hl => exact hmove rfl (by nofun)
  | tested f pc hl hpc => exact hmove rfl (by rcases hpc with rfl | rfl <;> nofun)
  | started mp hl htarget =>
    refine hboth (u := (s.onPlayer mp .start).log mp .start) rfl rfl (by nofun) fun P hP => ?_
    exact ⟨kin_start P, h.turnStart hP rfl⟩

section Hand

variable {n mp : Nat} {T T' : Player}

/-- A request to start that the loop takes was in the player's queue. -/
theorem Noted.loopTook (h : Noted s g) (hstep : loopStep s n = some t)
    (hT : s.players[n]? = some T) (hl : T.loop = .wait) (htarget : T.target = some mp)
    (hT' : t.players[n]? = some T') (e : T'.loop = .got .reqStart) :
    HandOk (takeNotes g s (.loop n) t) mp (.got .reqStart) := by
  unfold loopStep at hstep
  simp only [hT, Option.bind_eq_bind, Option.bind_some, hl, htarget] at hstep
  obtain ⟨P, hP, hrest⟩ := Option.bind_eq_some_iff.mp hstep
  obtain ⟨⟨Q, pc⟩, htake, ht⟩ := Option.bind_eq_some_iff.mp hrest
  cases ht
  obtain ⟨U, _, ⟨_, rfl⟩ | ⟨hne, _⟩⟩ := modify_cases hT'
  · exact takeNotes_keeps_started (h.asked mp P hP ((tame_take htake).2 e))
  · exact absurd rfl hne

/-- Behind the serving of PREPARED the player lets a start through. -/
theorem Noted.loopServed (h : Noted s g) (hstep : loopStep s n = some t)
    (hT : s.players[n]? = some T) (hl : T.loop = .got .prepared) (htarget : T.target = some mp) :
    HandOk (takeNotes g s (.loop n) t) mp (.handling .prepared) := by
  unfold loopStep at hstep
  simp only [hT, Option.bind_eq_bind, Option.bind_some, hl, htarget, Option.some.injEq] at hstep
  obtain ⟨P, hP, _⟩ := (h.bound.players n T hT).target mp htarget
  have hcall : (s.onPlayer mp fun R => R.serve .prepared).players[mp]? =
      some (P.serve .prepared) := by
    refine (congrArg (·[mp]?) (modify_of_get hP _)).trans ?_
    rw [List.getElem?_set, if_pos rfl, if_pos (List.getElem?_eq_some_iff.mp hP).1]
  have hserved : ∃ R, t.players[mp]? = some R ∧ chkst R.mpState = true := by
    rw [← hstep]
    refine ⟨_, (List.getElem?_modify ..).trans (by rw [hcall]; rfl), ?_⟩
    dsimp only
    split <;> exact serve_prepared_chkst P
  obtain ⟨R, hR, hst⟩ := hserved
  exact takeNotes_prepared hR hst

/-- A player that `ijkmp_is_playing` finds playing was started. -/
theorem Noted.loopPlays (h : Noted s g) (hstep : loopStep s n = some t)
    (hT : s.players[n]? = some T) (hl : T.loop = .handling .stateChanged)
    (htarget : T.target = some mp) (hT' : t.players[n]? = some T') (e : T'.loop = .storePlaying) :
    HandOk (takeNotes g s (.loop n) t) mp .storePlaying := by
  unfold loopStep at hstep
  simp only [hT, Option.bind_eq_bind, Option.bind_some, hl, switchStep, htarget] at hstep
  obtain ⟨P, hP, ht⟩ := Option.bind_eq_some_iff.mp hstep
  cases ht
  obtain ⟨U, _, ⟨_, rfl⟩ | ⟨hne, _⟩⟩ := modify_cases hT'
  · have hplay : P.isPlaying = true := by
      cases hp : P.isPlaying with
      | true => rfl
      | false =>
        rw [hp] at e
        cases e
    refine takeNotes_keeps_started (h.asked mp P hP (Or.inr (Or.inl ?_)))
    have hnot := h.state mp P hP
    unfold Player.isPlaying at hplay
    split at hplay
    · rename_i hs
      exact absurd hs hnot
    · rename_i hs
      exact hs
    · cases hplay
  · exact absurd rfl hne

end Hand

/-- What the thread of the loop has in hand behind its step. -/
theorem Noted.loopHand {n mp : Nat} {T' : Player} (h : Noted s g)
    (hstep : loopStep s n = some t) (hT' : t.players[n]? = some T')
    (htarget : T'.target = some mp) : HandOk (takeNotes g s (.loop n) t) mp T'.loop := by
  obtain ⟨T, hT, hdo⟩ := loopStep_do hstep
  obtain ⟨T'', hT'', hnext, htarget'⟩ := (loopStep_leaves hstep hT).place
  have e : T'' = T' := Option.some.inj (hT''.symm.trans hT')
  rw [e] at hnext htarget'
  have hold : T.loop ≠ .spawned → HandOk (takeNotes g s (.loop n) t) mp T.loop := by
    intro hl
    exact h.keepHand hT ((htarget' hl).symm.trans htarget)
  cases hl : T.loop with
  | none | ended | crashed =>
    rw [hl] at hnext
    exact hnext.elim
  | spawned =>
    rw [hl] at hnext
    rcases hnext with e | e <;> rw [e] <;> trivial
  | wait =>
    have hsame := (htarget' (by rw [hl]; nofun)).symm.trans htarget
    rw [hl] at hnext
    rcases hnext with e | ⟨m, e⟩
    · rw [e]
      trivial
    · -- the message was in the player's queue
      rw [e]
      by_cases hm : m = .reqStart
      · rw [hm] at e ⊢
        exact h.loopTook hstep hT hl hsame hT' e
      · cases m <;> trivial
  | got m =>
    have hsame := (htarget' (by rw [hl]; nofun)).symm.trans htarget
    rw [hl] at hnext
    rw [show T'.loop = _ from hnext]
    by_cases hm : m = .prepared
    · rw [hm] at hl ⊢
      exact h.loopServed hstep hT hl hsame
    · cases m <;> trivial
  | handling m =>
    have hsame := (htarget' (by rw [hl]; nofun)).symm.trans htarget
    have hhand := hold (by rw [hl]; nofun)
    rw [hl] at hnext hhand
    cases m with
    | prepared =>
      rw [show T'.loop = _ from hnext]
      exact hhand
    | stateChanged =>
      rcases hnext with e | e
      · rw [e]
        exact h.loopPlays hstep hT hl hsame hT' e
      · rw [e]
        trivial
    | flush | completed | error | bufferingStart | other | reqStart | reqPause =>
      rw [show T'.loop = _ from hnext]
      trivial
  | storePlaying =>
    rw [hl] at hnext
    rw [show T'.loop = _ from hnext]
    trivial
  | fire e =>
    have hhand := hold (by rw [hl]; nofun)
    rw [hl] at hnext hhand
    rw [show T'.loop = _ from hnext]
    by_cases he : e = .ready
    · rw [if_pos he]
      rw [he] at hhand
      exact hhand
    · rw [if_neg he]
      trivial
  | testIndex =>
    have hhand := hold (by rw [hl]; nofun)
    rw [hl] at hnext hhand
    rw [show T'.loop = _ from hnext]
    exact hhand
  | testCurrent f =>
    have hhand := hold (by rw [hl]; nofun)
    rw [hl] at hnext hhand
    rw [show T'.loop = _ from hnext]
    split
    · exact hhand
    · trivial
  | start =>
    rw [hl] at hnext
    rw [show T'.loop = _ from hnext]
    trivial

/-- The player's PREPARED message waits on, unless the loop stores READY for it. -/
theorem Noted.loopWaiting {n mp : Nat} (h : Noted s g) (hstep : loopStep s n = some t)
    (hw : Waiting s g mp)
    (hno : ∀ T, s.players[n]? = some T → T.target = some mp → T.loop ≠ .handling .prepared) :
    Waiting t (takeNotes g s (.loop n) t) mp := by
  obtain ⟨T, hT, _⟩ := loopStep_do hstep
  obtain ⟨T', hT', hnext, htarget'⟩ := (loopStep_leaves hstep hT).place
  refine ⟨?_, fun j U hU htarget => ?_⟩
  · rw [takeNotes_handled, hw.1]
    unfold leavesPrepared
    simp only [hT, hT']
    by_cases e : T.target = some mp
    · rw [hw.2 n T hT e, Bool.and_false, Bool.false_and]
    · rw [beq_eq_false_iff_ne.mpr e, Bool.false_and, Bool.false_and]
  · by_cases hj : j = n
    · subst hj
      have e : T' = U := Option.some.inj (hT'.symm.trans hU)
      subst e
      cases hbeh : behindReady T'.loop with
      | false => rfl
      | true =>
        have hback := hnext.behindReady hbeh
        have hspawned : T.loop ≠ .spawned := by
          intro e
          rw [e] at hback
          rcases hback with e' | e' <;> cases e'
        have hsame := (htarget' hspawned).symm.trans htarget
        rcases hback with e | e
        · exact absurd e (hno T hT hsame)
        · rw [hw.2 j T hT hsame] at e
          cases e
    · obtain ⟨P, hP, _, hmoved⟩ := h.loopTurns hstep hU
      obtain ⟨hloop, hsame⟩ := hmoved hj
      rw [hloop]
      exact hw.2 j P hP (hsame ▸ htarget)

/-- **A step of a loop.** -/
theorem Noted.loop {n : Nat} (h : Noted s g) (hstep : loopStep s n = some t) :
    Noted t (takeNotes g s (.loop n) t) := by
  obtain ⟨T, hT, _⟩ := loopStep_do hstep
  have hleaves := loopStep_leaves hstep hT
  obtain ⟨T', hT', hnext, htarget'⟩ := hleaves.place
  have hb := loopStep_bound h.bound hstep
  -- nobody loses a thread
  have hkeep : ∀ (mp : Nat) P, s.players[mp]? = some P → P.loop ≠ .none →
      ∃ Q, t.players[mp]? = some Q ∧ Q.loop ≠ .none := by
    intro mp P hP hborn
    have hlen : t.players.length = s.players.length := by
      rw [← hb.made, ← h.bound.made, hleaves.created]
    have hlt : mp < t.players.length := hlen ▸ (List.getElem?_eq_some_iff.mp hP).1
    obtain ⟨P', hP', hturn, _⟩ := h.loopTurns hstep (List.getElem?_eq_getElem hlt)
    rw [hP] at hP'
    cases hP'
    exact ⟨_, List.getElem?_eq_getElem hlt, hturn.born hborn⟩
  refine ⟨hb, fun mp P hP hst => takeNotes_prepared hP hst, ?_, ?_, ?_, ?_, ?_⟩
  · intro mp Q hQ hasked
    obtain ⟨P, hP, hturn, _⟩ := h.loopTurns hstep hQ
    rcases hturn.asked hasked with hold | hnew
    · exact takeNotes_keeps_started (h.asked mp P hP hold)
    · exact hnew
  · intro mp Q hQ
    obtain ⟨P, hP, hturn, _⟩ := h.loopTurns hstep hQ
    exact hturn.state (h.state mp P hP)
  · intro j U mp hU htarget
    by_cases hj : j = n
    · rw [hj] at hU
      exact h.loopHand hstep hU htarget
    · obtain ⟨P, hP, _, hmoved⟩ := h.loopTurns hstep hU
      obtain ⟨hloop, hsame⟩ := hmoved hj
      rw [hloop]
      exact h.keepHand hP (hsame ▸ htarget)
  · intro mp hmp
    unfold takeNotes leavesPrepared at hmp
    simp only [hT, hT', Bool.or_eq_true, Bool.and_eq_true, beq_iff_eq] at hmp
    rcases hmp with hold | ⟨⟨htarget, hbeh⟩, _⟩
    · obtain ⟨P, hP, hborn⟩ := h.handled mp hold
      exact hkeep mp P hP hborn
    · obtain ⟨Q, hQ, _, hborn⟩ := h.bound.target_born hT
        (by intro e; rw [e] at hbeh; cases hbeh) (by intro e; rw [e] at hbeh; cases hbeh) htarget
      exact hkeep mp Q hQ hborn
  · intro k mp hmp hst
    rw [hleaves.ring.mp] at hmp
    rw [hleaves.state] at hst
    have hcases : (s.feed.pool k).state = .preloading ∧ (k = T.slot → storeAt T.loop = none) := by
      by_cases e : k = T.slot
      · rw [if_pos e] at hst
        cases hs : storeAt T.loop with
        | none =>
          rw [hs] at hst
          exact ⟨hst, fun _ => rfl⟩
        | some state =>
          rw [hs] at hst
          unfold storeAt at hs
          split at hs <;> cases hs <;> cases hst
      · rw [if_neg e] at hst
        exact ⟨hst, fun e' => absurd e' e⟩
    refine h.loopWaiting hstep (h.loading k mp hmp hcases.1) fun U hU htarget hl => ?_
    rw [hT] at hU
    cases hU
    -- the player is in the slot the loop would store into
    obtain ⟨P, hP, hslot, _⟩ := (h.bound.players n T hT).target mp htarget
    obtain ⟨_, P', hP', hslot'⟩ := h.bound.slots k mp hmp
    have e : P' = P := Option.some.inj (hP'.symm.trans hP)
    rw [e, hslot] at hslot'
    have hnone := hcases.2 hslot'.symm
    rw [hl] at hnone
    cases hnone

/-! ### The swipe and the other calls -/

/-- A slot that is emptied, or gets another state than PRELOADING. -/
theorem offLoop_setVp {k : Slot} {vp : ViralPlayer} (hplayers : t.players = s.players)
    (hpool : ∀ j, t.feed.pool j = if j = k then vp else s.feed.pool j)
    (hvp : vp.mp = none ∨ vp.state ≠ .preloading) : OffLoop s t g := by
  refine offLoop_still hplayers fun j mp hmp hst => ?_
  rw [hpool] at hmp hst
  by_cases e : j = k
  · rw [if_pos e] at hmp hst
    rcases hvp with hnone | hne
    · rw [hnone] at hmp
      cases hmp
    · exact absurd hst hne
  · rw [if_neg e] at hmp hst
    exact Or.inl ⟨hmp, hst⟩

theorem initMove_offLoop {index : Int} {i : Nat} {ok : Bool} {pc : InitPc} (h : Noted s g)
    (hs : s.scroll = some (index, .init i pc)) (hm : InitMove s index i ok pc t) :
    OffLoop s t (takeNotes g s a t) := by
  have hinit := h.bound.initBound hs
  cases hm with
  | stopped mp hmp => exact offLoop_tame rfl kin_stop (fun _ => tame_stop) rfl
  | shutDown mp hmp => exact offLoop_tame rfl kin_shutdown (fun _ => tame_shutdown) rfl
  | noneToStop _ | noneToShutDown _ | noSource _ | noPrepare _ => exact offLoop_pool rfl rfl
  | cleared => exact offLoop_setVp rfl (fun _ => rfl) (Or.inl rfl)
  | numbered _ | outside _ => exact offLoop_setVp rfl (fun _ => rfl) (Or.inr (by nofun))
  | created =>
    refine ⟨?_, fun mp Q hQ => ?_, fun k mp hmp hst => ?_⟩
    · show _ ≤ (s.players ++ _).length
      rw [List.length_append]
      exact Nat.le_add_right _ _
    · change (s.players ++ [Player.create (slotOf (index + i))])[mp]? = some Q at hQ
      rcases Nat.lt_or_ge mp s.players.length with hlt | hge
      · rw [List.getElem?_append_left hlt] at hQ
        exact Or.inr ⟨Q, hQ, Turn.refl _ _ _, Or.inr ⟨rfl, rfl⟩⟩
      · refine Or.inl ⟨List.getElem?_eq_none hge, slotOf (index + i), ?_⟩
        rw [List.getElem?_append_right hge] at hQ
        exact List.mem_singleton.mp (List.mem_of_getElem? hQ)
    · change ((if k = slotOf (index + i) then _ else s.feed.pool k) : ViralPlayer).mp = _ at hmp
      change ((if k = slotOf (index + i) then _ else s.feed.pool k) : ViralPlayer).state = _ at hst
      by_cases e : k = slotOf (index + i)
      · rw [if_pos e] at hmp
        rw [← Option.some.inj hmp]
        exact Or.inr ⟨_, List.getElem?_concat_length, rfl⟩
      · rw [if_neg e] at hmp hst
        exact Or.inl ⟨hmp, hst⟩
  | sourced mp hmp =>
    refine offLoop_call rfl (fun P hP => ?_) rfl
    obtain ⟨_, mp', hmp', hP'⟩ := hinit
    rw [Option.some.inj (hmp'.symm.trans hmp), hP] at hP'
    cases hP'
    exact ⟨⟨fun hb => absurd rfl hb, fun ha => Or.inl (tame_setDataSource.asked ha),
      tame_setDataSource.state⟩, Or.inl rfl⟩
  | preloading =>
    obtain ⟨_, mp, hmp, hP⟩ := hinit
    refine offLoop_still rfl fun k j hj hst => ?_
    by_cases e : k = slotOf (index + i)
    · subst e
      have hj' := (sameRing_storeState s (slotOf (index + i)) .preloading).mp (slotOf (index + i))
      rw [← Option.some.inj (hmp.symm.trans (hj'.symm.trans hj))]
      exact Or.inr ⟨_, hP, rfl⟩
    · refine Or.inl ⟨((sameRing_storeState s _ .preloading).mp k).symm.trans hj, ?_⟩
      have hst' : ((s.storeState (slotOf (index + i)) .preloading).feed.pool k).state =
          .preloading := hst
      rw [storeState_state, if_neg e] at hst'
      exact hst'
  | prepared mp hmp =>
    refine offLoop_call rfl (fun P hP => ?_) rfl
    obtain ⟨_, mp', hmp', hP'⟩ := hinit
    rw [Option.some.inj (hmp'.symm.trans hmp), hP] at hP'
    cases hP'
    have hno := not_asked_prepareAsync (slotOf (index + i)) ok
    rw [prepareAsync_initialized] at hno ⊢
    refine ⟨⟨fun _ => by nofun, fun ha => absurd ha hno, fun _ => ?_⟩, Or.inl rfl⟩
    cases ok <;> nofun

theorem scrollStep_offLoop {ok : Bool} (h : Noted s g) (hstep : scrollStep s ok = some t) :
    OffLoop s t (takeNotes g s a t) := by
  obtain ⟨index, pc, hs, hm⟩ := scrollStep_cases hstep
  cases hm with
  | paused prev mp _ hmp => exact offLoop_tame rfl kin_pause (fun _ => tame_pause) rfl
  | started mp => exact h.offLoop_start rfl rfl rfl
  | init i pc _ hinit => exact initMove_offLoop h hs hinit
  | released mp hmp _ => exact offLoop_tame rfl kin_stop (fun _ => tame_stop) rfl
  | releasedDown mp hmp => exact offLoop_tame rfl kin_shutdown (fun _ => tame_shutdown) rfl
  | releasedClear => exact offLoop_setVp rfl (fun _ => rfl) (Or.inl rfl)
  | notPaused | found | missing | preloadDone | preloadNext | preloadSkip | notReleased
  | noneReleased => exact offLoop_pool rfl rfl

theorem enterScroll_pool {index : Int} (hstep : enterScroll s index = some t) :
    t.players = s.players ∧ t.feed.pool = s.feed.pool := by
  unfold enterScroll at hstep
  split at hstep
  · split at hstep <;> cases hstep
    exact ⟨rfl, rfl⟩
  · cases hstep
    exact ⟨rfl, rfl⟩

theorem callStep_offLoop {n : Nat} (h : Noted s g) (hstep : callStep s n = some t) :
    OffLoop s t (takeNotes g s a t) := by
  cases callStep_cases hstep with
  | read => exact offLoop_pool rfl rfl
  | act cmd mp =>
    cases cmd with
    | play => exact h.offLoop_start rfl rfl rfl
    | pause => exact offLoop_tame rfl kin_pause (fun _ => tame_pause) rfl

theorem post_offLoop {mp : Nat} {m : Msg} (hstep : playStep s (.post mp m) = some t) :
    OffLoop s t g := by
  obtain ⟨P, hP, hpost, rfl⟩ := post_cases hstep
  refine offLoop_call rfl (fun R hR => ?_) rfl
  obtain rfl := Option.some.inj (hR.symm.trans hP)
  have hkin := kin_put R m
  exact ⟨turn_tame hkin (tame_post hpost), Or.inr ⟨hkin.loop, hkin.target⟩⟩

/-- **A step that is none of a loop**, whichever it is. -/
theorem playStep_offLoop (h : Noted s g) (hstep : playStep s a = some t)
    (hloop : ∀ n, a ≠ .loop n) : OffLoop s t (takeNotes g s a t) := by
  cases a with
  | scrollTo index => exact offLoop_pool (enterScroll_pool hstep).1 (enterScroll_pool hstep).2
  | scroll ok => exact scrollStep_offLoop h hstep
  | invoke cmd =>
    cases hstep
    exact offLoop_pool rfl rfl
  | call n => exact callStep_offLoop h hstep
  | loop n => exact absurd rfl (hloop n)
  | post mp m => exact post_offLoop hstep

theorem leavesPrepared_offLoop (hloop : ∀ n, a ≠ .loop n) (mp : Nat) :
    leavesPrepared s a t mp = false := by
  cases a with
  | loop n => exact absurd rfl (hloop n)
  | scrollTo | scroll | invoke | call | post => rfl

/-- **One step keeps the notes right.** -/
theorem playStep_noted (h : Noted s g) (hstep : playStep s a = some t) :
    Noted t (takeNotes g s a t) := by
  by_cases hloop : ∃ n, a = .loop n
  · obtain ⟨n, rfl⟩ := hloop
    exact h.loop hstep
  · have hne : ∀ n, a ≠ .loop n := fun n e => hloop ⟨n, e⟩
    exact h.step (playStep_bound h.bound hstep) (leavesPrepared_offLoop hne)
      (playStep_offLoop h hstep hne)

theorem init_noted (urls : List String) : Noted (State.init urls) Notes.none where
  bound := init_bound urls
  prepared _ _ hP := by cases hP
  asked _ _ hP := by cases hP
  state _ _ hP := by cases hP
  hands _ _ _ hT := by cases hT
  handled _ h := by cases h
  loading _ _ hmp := by cases hmp

theorem steps_noted {urls : List String} {C : State × Notes → PlayAct → Prop} {p q : State × Notes}
    (hp : Noted p.1 p.2) (h : (watched urls).Steps C p q) : Noted q.1 q.2 := by
  refine h.invariant (I := fun p => Noted p.1 p.2) hp fun u a v hu _ hs => ?_
  obtain ⟨hstep, hnotes⟩ := Machine.watch_step_some hs
  rw [hnotes]
  exact playStep_noted hu hstep

theorem reach_noted {urls : List String} {p : State × Notes}
    (h : (watched urls).Reach Machine.Any p) : Noted p.1 p.2 :=
  steps_noted (init_noted urls) h

end Noted

end Viral.Feed
