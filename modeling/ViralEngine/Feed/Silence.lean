/-
  File:      ViralEngine/Feed/Silence.lean
  Subject:   WHO STILL TOUCHES A FEED THAT WAS DESTROYED.

  `viral_feed_destroy` stops every player of the pool and gives up its own references; it joins
  no message loop, since no count comes down to 0. A loop that has a message in hand when the feed
  is freed goes on to handle it.

  * `touches`, `Silent` -- the uses of a slot and of the callback;
  * `LoopsThrough`, `EndsQuiet` -- the condition on the return of `viral_feed_destroy`;
  * `Spent`, `loopStep_spent` -- under it every loop only runs to its end;
  * `silentAfterDestroy` -- so no loop touches the feed any more;
  * `silent_fetchedBefore` -- a loop fetches PREPARED, then the feed is destroyed.
-/
import ViralEngine.Feed.Lifecycle

namespace Viral.Feed

open Viral.Lib Viral.Ijk Viral.Ijk.Player

/-! ## 1. After the end -/

/-- The places where a message loop uses its slot or calls the callback. -/
def touches : LoopPc → Bool
  | .spawned | .handling .prepared | .handling .completed | .handling .error => true
  | .storePlaying | .fire _ | .testIndex => true
  | _ => false

/-- **No message loop is about to touch a slot or to call the callback.** -/
def Silent (s : State) : Prop := ∀ T ∈ s.players, touches T.loop = false

/-- No loop has a message in hand that leads it to the feed, or is still in front of its first or
    behind its last use of the slot. -/
def LoopsThrough (s : State) : Prop :=
  ∀ T ∈ s.players, storing T.loop = false ∧ firing T.loop = false ∧
    (changing T.loop = true → ∀ mp ∈ T.target, ¬ MayPlay s.players mp) ∧
    T.loop ≠ .spawned ∧ T.loop ≠ .testIndex

/-- **The condition on a step**: when `viral_feed_destroy` returns, the loops are through. -/
def EndsQuiet (s : Session) : LifeAct → Prop
  | .free => s.stage = .leave → LoopsThrough s.play
  | _ => True

/-- What holds of the freed feed. -/
structure Spent (s : State) : Prop where
  attr : Attr s
  empty : ∀ k, (s.feed.pool k).mp = none
  calm : ∀ T ∈ s.players, firing T.loop = false ∧ T.loop ≠ .spawned ∧ T.loop ≠ .testIndex

section Spent

variable {s t : State}

/-- No loop of a freed feed has a store ahead: its player is in no slot. -/
theorem Spent.not_storing (h : Spent s) {n : Nat} {T : Player} (hT : s.players[n]? = some T)
    (hst : storing T.loop = true) : False := by
  have hsee : blind T.loop = false := by
    unfold storing at hst
    split at hst
    all_goals first
      | (rename_i e; rw [e]; rfl)
      | cases hst
  obtain ⟨mp, htarget⟩ := (h.attr.bound.players n T hT).aimed hsee
  have hatt := h.attr.attached hT htarget (Or.inl hst)
  rw [h.empty] at hatt
  cases hatt

theorem Spent.silent (h : Spent s) : Silent s := by
  intro T hmem
  obtain ⟨n, hn, hT⟩ := List.getElem_of_mem hmem
  have hget : s.players[n]? = some T := List.getElem?_eq_some_iff.mpr ⟨hn, hT⟩
  obtain ⟨hfire, hspawned, htest⟩ := h.calm T hmem
  have hstore : storing T.loop ≠ true := fun hst => h.not_storing hget hst
  unfold touches
  split
  all_goals first
    | rfl
    | (rename_i e; exact absurd e hspawned)
    | (rename_i e; exact absurd e htest)
    | (rename_i e; rw [e] at hstore; exact absurd rfl hstore)
    | (rename_i e; rw [e] at hfire; cases hfire)

theorem Spent.aborted (h : Spent s) {mp : Nat} {P : Player} (hP : s.players[mp]? = some P) :
    P.aborted = true := by
  refine (h.attr.bound.players mp P hP).live.resolve_right ?_
  rw [h.empty]
  nofun

/-- The place a loop of a freed feed comes to. -/
theorem Spent.calm_set (h : Spent s) {n : Nat} {l : List Player} {T' : Player}
    (hl : ∀ U ∈ l, ∃ V ∈ s.players, U.loop = V.loop)
    (hT' : firing T'.loop = false ∧ T'.loop ≠ .spawned ∧ T'.loop ≠ .testIndex) :
    ∀ U ∈ l.set n T', firing U.loop = false ∧ U.loop ≠ .spawned ∧ U.loop ≠ .testIndex := by
  intro U hU
  rcases List.mem_or_eq_of_mem_set hU with hold | rfl
  · obtain ⟨V, hV, e⟩ := hl U hold
    rw [e]
    exact h.calm V hV
  · exact hT'

/-- **A loop of a freed feed** goes on without touching it. -/
theorem loopStep_spent {n : Nat} (h : Spent s) (hstep : loopStep s n = some t) : Spent t := by
  have hattr := loopStep_attr h.attr hstep
  have haside := loopStep_aside hstep
  refine ⟨hattr, fun k => (haside.mp k).trans (h.empty k), ?_⟩
  obtain ⟨T, hT, hdo⟩ := loopStep_do hstep
  have hmem := List.mem_of_getElem? hT
  obtain ⟨hfire, hspawned, htest⟩ := h.calm T hmem
  have hself : ∀ U ∈ s.players, ∃ V ∈ s.players, U.loop = V.loop := fun U hU => ⟨U, hU, rfl⟩
  -- the thread moves on, perhaps behind a call on its target
  have hmove : ∀ {u : State} {pc : LoopPc}, (∀ U ∈ u.players, ∃ V ∈ s.players, U.loop = V.loop) →
      firing pc = false ∧ pc ≠ .spawned ∧ pc ≠ .testIndex →
      ∀ U ∈ (u.setLoop n pc).players,
        firing U.loop = false ∧ U.loop ≠ .spawned ∧ U.loop ≠ .testIndex := by
    intro u pc hu hpc
    cases hn : u.players[n]? with
    | none =>
      show ∀ U ∈ u.players.modify n _, _
      rw [modify_of_none hn]
      intro U hU
      obtain ⟨V, hV, e⟩ := hu U hU
      rw [e]
      exact h.calm V hV
    | some R =>
      show ∀ U ∈ u.players.modify n _, _
      rw [modify_of_get hn]
      exact h.calm_set hu hpc
  have hcall : ∀ {mp : Nat} {f : Player → Player},
      (∀ P, s.players[mp]? = some P → Kin P (f P)) →
      ∀ U ∈ (s.onPlayer mp f).players, ∃ V ∈ s.players, U.loop = V.loop := by
    intro mp f hkin U hU
    have hU' : U ∈ s.players.modify mp f := hU
    cases hP : s.players[mp]? with
    | none =>
      rw [modify_of_none hP] at hU'
      exact ⟨U, hU', rfl⟩
    | some P =>
      rw [modify_of_get hP] at hU'
      rcases List.mem_or_eq_of_mem_set hU' with hold | rfl
      · exact ⟨U, hold, rfl⟩
      · exact ⟨P, List.mem_of_getElem? hP, (hkin P hP).loop⟩
  cases hdo with
  | found mp hl hmp => exact absurd hl hspawned
  | lost hl hmp => exact absurd hl hspawned
  | took mp P Q pc hl htarget hP htake =>
    rcases take_cases htake with ⟨_, _, rfl⟩ | ⟨ha, _⟩
    · exact hmove (hcall (kin_took hP htake)) ⟨rfl, nofun, nofun⟩
    · rw [h.aborted hP] at ha
      cases ha
  | served m mp hl htarget =>
    rw [hl] at hfire
    refine hmove (hcall fun R _ => kin_of_sameThread (sameThread_serve R m)) ?_
    cases m <;> first | exact ⟨rfl, nofun, nofun⟩ | cases hfire
  | stored state e hl =>
    have hst : storing T.loop = true := by
      rcases hl with e | e | e | e <;> rw [e] <;> rfl
    exact absurd hst fun hst => h.not_storing hT hst
  | buffering hl =>
    rw [hl] at hfire
    cases hfire
  | plays mp P hl htarget hP hplay => exact hmove hself ⟨rfl, nofun, nofun⟩
  | passed m hl => exact hmove hself ⟨rfl, nofun, nofun⟩
  | fired e pc hl hpc =>
    rw [hl] at hfire
    cases hfire
  | indexRead hl => exact absurd hl htest
  | tested f pc hl hpc =>
    rcases hpc with rfl | rfl <;> exact hmove hself ⟨rfl, nofun, nofun⟩
  | started mp hl htarget =>
    exact hmove (u := (s.onPlayer mp .start).log mp .start) (hcall fun R _ => kin_start R)
      ⟨rfl, nofun, nofun⟩

/-- A message for a freed feed's player is dropped. -/
theorem post_spent {mp : Nat} {m : Msg} (h : Spent s) (hstep : playStep s (.post mp m) = some t) :
    Spent t := by
  refine ⟨post_attr h.attr hstep, fun k => ((post_aside hstep).mp k).trans (h.empty k), ?_⟩
  obtain ⟨P, hP, _, rfl⟩ := post_cases hstep
  show ∀ T ∈ s.players.modify mp _, _
  rw [modify_of_get hP, put_aborted (h.aborted hP)]
  exact h.calm_set (fun U hU => ⟨U, hU, rfl⟩) (h.calm P (List.mem_of_getElem? hP))

/-- The loops are through: what `viral_feed_destroy` leaves is spent. -/
theorem spent_of_loopsThrough (hb : Bound s) (hempty : ∀ k, (s.feed.pool k).mp = none)
    (h : LoopsThrough s) : Spent s := by
  refine ⟨⟨hb, ?_, ?_⟩, hempty, ?_⟩
  · intro mp P _
    refine Or.inr ⟨fun T hT _ => (h T hT).1, fun T hT htarget hch => ?_⟩
    exact (h T hT).2.2.1 hch mp htarget
  · intro n T mp hT _ hf
    rw [(h T (List.mem_of_getElem? hT)).2.1] at hf
    cases hf
  · intro T hT
    exact ⟨(h T hT).2.1, (h T hT).2.2.2⟩

end Spent

/-- **One step that meets the condition.** -/
theorem lifeStep_spent {s t : Session} {a : LifeAct} (hok : SessionOk s)
    (h : s.stage = .gone → Spent s.play) (hc : EndsQuiet s a) (hstep : lifeStep s a = some t) :
    t.stage = .gone → Spent t.play := by
  intro hgone
  rcases (lifeStep_gone hstep).mp hgone with hg | ⟨rfl, hleave⟩
  · cases a with
    | play a =>
      obtain ⟨hadm, hplay, _, _⟩ := lifeStep_play hstep
      rw [hg] at hadm
      cases a with
      | loop n => exact loopStep_spent (h hg) hplay
      | post mp m => exact post_spent (h hg) hplay
      | scrollTo index | scroll ok | invoke cmd | call n => cases hadm
    | setUrls urls | destroy =>
      obtain ⟨⟨halive, _⟩, _⟩ := lifeStep_locked hstep
      rw [hg] at halive
      cases halive
    | free =>
      have hfree : freeStep s = some t := hstep
      unfold freeStep at hfree
      rw [hg] at hfree
      cases hfree
  · have hfree : freeStep s = some t := hstep
    unfold freeStep at hfree
    rw [hleave] at hfree
    cases hfree
    refine spent_of_loopsThrough hok.bound (fun k => hok.freed k ?_) (hc hleave)
    rw [hleave]
    rfl

/-- **After `viral_feed_destroy` no message loop touches the feed**, in every session that ends with
    its loops through. -/
theorem silentAfterDestroy {s : Session} (h : lifecycle.Reach EndsQuiet s)
    (hgone : s.stage = .gone) : Silent s.play := by
  have hinv : SessionOk s ∧ (s.stage = .gone → Spent s.play) := by
    refine h.invariant (I := fun s => SessionOk s ∧ (s.stage = .gone → Spent s.play))
      ⟨init_ok, nofun⟩ ?_
    intro u a v hu hc hs
    exact ⟨lifeStep_ok hu.1 hs, lifeStep_spent hu.1 hu.2 hc hs⟩
  exact (hinv.2 hgone).silent

/-! ## 2. Two runs -/

instance (s : State) : Decidable (LoopsThrough s) :=
  inferInstanceAs (Decidable (∀ T ∈ s.players, storing T.loop = false ∧ firing T.loop = false ∧
    (changing T.loop = true → ∀ mp ∈ T.target, ¬ MayPlay s.players mp) ∧
    T.loop ≠ .spawned ∧ T.loop ≠ .testIndex))

instance (s : Session) : ∀ a, Decidable (EndsQuiet s a)
  | .free => inferInstanceAs (Decidable (s.stage = .leave → LoopsThrough s.play))
  | .play _ | .setUrls _ | .destroy => inferInstanceAs (Decidable True)

/-- One video is shown and prepared; its loop fetches the message. -/
def shownAndFetched : List LifeAct :=
  .setUrls ["a"] :: .play (.scrollTo 0) :: List.replicate 10 (.play (.scroll true)) ++
    .play (.post 0 .prepared) :: List.replicate 5 (.play (.loop 0))

/-- `viral_feed_destroy`, to its end. -/
def destroyed : List LifeAct := .destroy :: List.replicate 8 .free

/-- The stage, and the places of the loops. -/
def seenLoops (s : Session) : Stage × List LoopPc := (s.stage, s.play.players.map (·.loop))

theorem silentAfterDestroy_handled : ∃ s, lifecycle.Reach EndsQuiet s ∧ s.stage = .gone ∧
    s.play.players.map (·.loop) = [.ended] ∧ Silent s.play := by
  have hseen : (lifecycle.exec Session.init (shownAndFetched ++
      List.replicate 19 (.play (.loop 0)) ++ destroyed ++ [.play (.loop 0)])).map seenLoops =
      some (.gone, [.ended]) := by decide +kernel
  have hmeets : lifecycle.meets EndsQuiet Session.init (shownAndFetched ++
      List.replicate 19 (.play (.loop 0)) ++ destroyed ++ [.play (.loop 0)]) := by decide +kernel
  obtain ⟨s, hs, hobs⟩ := Option.map_eq_some_iff.mp hseen
  simp only [seenLoops, Prod.mk.injEq] at hobs
  have hreach := Machine.steps_of_exec hs hmeets
  exact ⟨s, hreach, hobs.1, hobs.2, silentAfterDestroy hreach hobs.1⟩

/-- **A callback after the end**: the loop fetched PREPARED before `viral_feed_destroy` began, and
    handles it behind its return. -/
theorem silent_fetchedBefore :
    ¬ ∀ s, lifecycle.Reach Machine.Any s → s.stage = .gone → Silent s.play := by
  intro hall
  have hseen : (lifecycle.exec Session.init (shownAndFetched ++ destroyed ++
      List.replicate 2 (.play (.loop 0)))).map seenLoops = some (.gone, [.fire .ready]) := by
    decide +kernel
  obtain ⟨s, hs, hobs⟩ := Option.map_eq_some_iff.mp hseen
  simp only [seenLoops, Prod.mk.injEq] at hobs
  obtain ⟨T, hT, hl⟩ := List.mem_map.mp (show LoopPc.fire .ready ∈ s.play.players.map (·.loop) by
    rw [hobs.2]
    exact List.mem_singleton_self _)
  have hsilent := hall s (Machine.steps_of_exec hs (Machine.meets_any _ _)) hobs.1 T hT
  rw [hl] at hsilent
  cases hsilent

end Viral.Feed
