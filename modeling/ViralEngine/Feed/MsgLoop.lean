/-
  File:      ViralEngine/Feed/MsgLoop.lean
  Subject:   THE STEPS BESIDE THE SWIPE KEEP THE INVARIANT.

  * `LoopMove`, `loopStep_effect` -- what a step of a message loop does to its player;
  * `loopStep_inv` -- the message loops: a number read from a slot that still holds the player is
    one of that slot, and a test passed is a start that may be aimed;
  * `callStep_inv`, `post_inv` -- `viral_feed_play`, `viral_feed_pause` and the players' own
    threads.
-/
import ViralEngine.Feed.Aim

namespace Viral.Feed

open Viral.Lib Viral.Ijk Viral.Ijk.Player

/-! ## 1. The message loops -/

/-- What a step of a message loop does to the player of its thread. -/
inductive LoopMove (s : State) (t : Nat) (T : Player) : Player → Prop where
  | move (pc : LoopPc) (hfrom : holds T.loop = false) (hto : holds pc = false)
      (hborn : T.loop ≠ .none) (hpc : pc ≠ .none)
      (htest : ∀ f, pc = .testCurrent f → f = (s.feed.pool T.slot).feedIndex)
      (hstart : pc = .start → T.loop = .testCurrent s.feed.currentIndex) :
      LoopMove s t T { T with loop := pc, target := some t }
  | take (Q : Player) (pc : LoopPc) (hl : T.loop = .wait) (ht : T.take = some (Q, pc)) :
      LoopMove s t T { Q with loop := pc }
  | serve (m : Msg) (hl : T.loop = .got m) :
      LoopMove s t T { T.serve m with loop := served m }
  | start (hl : T.loop = .start) : LoopMove s t T { T.start with loop := .wait }

section Loops

variable {s s' : State} {t : Nat} {T : Player}

/-- A step of the loop touches its own player, and of the feed only the `state` of a slot. -/
def LoopEffect (s s' : State) (t : Nat) (T : Player) : Prop :=
  SameRing s s' ∧ s'.scroll = s.scroll ∧ s'.calls = s.calls ∧
    ∃ T', s'.players = s.players.set t T' ∧ LoopMove s t T T'

/-- A step that only moves the loop on. -/
theorem loopEffect_setLoop {u : State} (hT : s.players[t]? = some T) (hown : T.target = some t)
    (hu : SameRing s u ∧ u.scroll = s.scroll ∧ u.calls = s.calls ∧ u.players = s.players)
    (pc : LoopPc) (hfrom : holds T.loop = false) (hto : holds pc = false)
    (hborn : T.loop ≠ .none) (hpc : pc ≠ .none)
    (htest : ∀ f, pc = .testCurrent f → f = (s.feed.pool T.slot).feedIndex)
    (hstart : pc = .start → T.loop = .testCurrent s.feed.currentIndex) :
    LoopEffect s (u.setLoop t pc) t T := by
  obtain ⟨hring, hscroll, hcalls, hplayers⟩ := hu
  refine ⟨⟨hring.mp, hring.feedIndex, hring.current⟩, hscroll, hcalls, _, ?_,
    LoopMove.move pc hfrom hto hborn hpc htest hstart⟩
  show u.players.modify t _ = _
  rw [hplayers, modify_of_get hT, hown]

theorem loopEffect_fired {fired : List (Nat × Int × ViralEvent)} (h : LoopEffect s s' t T) :
    LoopEffect s { s' with fired := fired } t T :=
  ⟨⟨h.1.mp, h.1.feedIndex, h.1.current⟩, h.2⟩

theorem sameRing_refl (s : State) : SameRing s s := ⟨fun _ => rfl, fun _ => rfl, rfl⟩

/-- The cases of the loop's `switch`. -/
theorem switchStep_effect {m : Msg} (h : switchStep s t T m = some s')
    (hT : s.players[t]? = some T) (hown : T.target = some t) (hl : T.loop = .handling m) :
    LoopEffect s s' t T := by
  have hfrom : holds T.loop = false := by rw [hl]; rfl
  have hborn : T.loop ≠ .none := by rw [hl]; nofun
  -- a store, if there is one, then a place that is neither a test nor the start
  have hmove : ∀ {u : State} {pc : LoopPc},
      SameRing s u ∧ u.scroll = s.scroll ∧ u.calls = s.calls ∧ u.players = s.players →
      (∃ e, pc = .fire e) ∨ pc = .storePlaying ∨ pc = .wait →
      LoopEffect s (u.setLoop t pc) t T := by
    intro u pc hu hpc
    have hto : holds pc = false ∧ pc ≠ .none ∧ (∀ f, pc ≠ .testCurrent f) ∧ pc ≠ .start := by
      rcases hpc with ⟨e, rfl⟩ | rfl | rfl <;> simp [holds]
    obtain ⟨hto, hpc, htest, hstart⟩ := hto
    exact loopEffect_setLoop hT hown hu pc hfrom hto hborn hpc
      (fun f e => absurd e (htest f)) (fun e => absurd e hstart)
  have hstore : ∀ state, SameRing s (s.storeState T.slot state) ∧
      (s.storeState T.slot state).scroll = s.scroll ∧
      (s.storeState T.slot state).calls = s.calls ∧
      (s.storeState T.slot state).players = s.players :=
    fun state => ⟨sameRing_storeState s T.slot state, rfl, rfl, rfl⟩
  have hsame : SameRing s s ∧ s.scroll = s.scroll ∧ s.calls = s.calls ∧ s.players = s.players :=
    ⟨sameRing_refl s, rfl, rfl, rfl⟩
  cases m with
  | prepared =>
    cases h
    exact hmove (hstore .ready) (Or.inl ⟨_, rfl⟩)
  | completed =>
    cases h
    exact hmove (hstore .idle) (Or.inl ⟨_, rfl⟩)
  | error =>
    cases h
    exact hmove (hstore .error) (Or.inl ⟨_, rfl⟩)
  | bufferingStart =>
    cases h
    exact hmove hsame (Or.inl ⟨_, rfl⟩)
  | flush | other | reqStart | reqPause =>
    cases h
    exact hmove hsame (Or.inr (Or.inr rfl))
  | stateChanged =>
    simp only [switchStep, hown, hT, Option.bind_eq_bind, Option.bind_some, Option.some.injEq] at h
    rw [← h]
    cases T.isPlaying with
    | true => exact hmove hsame (Or.inr (Or.inl rfl))
    | false => exact hmove hsame (Or.inr (Or.inr rfl))

/-- **What a step of a message loop does.** -/
theorem loopStep_effect (h : loopStep s t = some s') (hT : s.players[t]? = some T)
    (hown : T.loop ≠ .none → T.loop ≠ .spawned → T.target = some t)
    (hfound : T.loop = .spawned → (s.feed.pool T.slot).mp = some t) : LoopEffect s s' t T := by
  have hsame : SameRing s s ∧ s.scroll = s.scroll ∧ s.calls = s.calls ∧ s.players = s.players :=
    ⟨sameRing_refl s, rfl, rfl, rfl⟩
  unfold loopStep at h
  simp only [hT, Option.bind_eq_bind, Option.bind_some] at h
  cases hl : T.loop with
  | none | ended | crashed =>
    simp only [hl] at h
    cases h
  | spawned =>
    simp only [hl, hfound hl, Option.some.injEq] at h
    rw [← h]
    refine ⟨⟨fun _ => rfl, fun _ => rfl, rfl⟩, rfl, rfl, _, modify_of_get hT _,
      LoopMove.move .wait ?_ rfl ?_ ?_ ?_ ?_⟩
    · rw [hl]
      rfl
    · rw [hl]
      nofun
    · nofun
    · nofun
    · nofun
  | wait =>
    have htarget := hown (by rw [hl]; nofun) (by rw [hl]; nofun)
    simp only [hl, htarget, Option.bind_some, hT] at h
    obtain ⟨⟨Q, pc⟩, htake, hs'⟩ := Option.bind_eq_some_iff.mp h
    cases hs'
    refine ⟨⟨fun _ => rfl, fun _ => rfl, rfl⟩, rfl, rfl, _, ?_, LoopMove.take Q pc hl htake⟩
    exact modify_modify hT (fun _ => Q) _
  | got m =>
    have htarget := hown (by rw [hl]; nofun) (by rw [hl]; nofun)
    simp only [hl, htarget, Option.bind_some, Option.some.injEq] at h
    rw [← h]
    refine ⟨⟨fun _ => rfl, fun _ => rfl, rfl⟩, rfl, rfl, _, ?_, LoopMove.serve m hl⟩
    exact modify_modify hT (fun P => P.serve m) _
  | handling m =>
    simp only [hl] at h
    exact switchStep_effect h hT (hown (by rw [hl]; nofun) (by rw [hl]; nofun)) hl
  | storePlaying =>
    have htarget := hown (by rw [hl]; nofun) (by rw [hl]; nofun)
    simp only [hl, Option.some.injEq] at h
    rw [← h]
    exact loopEffect_setLoop hT htarget ⟨sameRing_storeState s T.slot .playing, rfl, rfl, rfl⟩ _
      (by rw [hl]; rfl) rfl (by rw [hl]; nofun) (by nofun) (by nofun) (by nofun)
  | fire e =>
    have htarget := hown (by rw [hl]; nofun) (by rw [hl]; nofun)
    simp only [hl, Option.some.injEq] at h
    rw [← h]
    refine loopEffect_fired ?_
    by_cases he : e = .ready
    · rw [if_pos he]
      exact loopEffect_setLoop hT htarget hsame .testIndex (by rw [hl]; rfl) rfl
        (by rw [hl]; nofun) (by nofun) (by nofun) (by nofun)
    · rw [if_neg he]
      exact loopEffect_setLoop hT htarget hsame .wait (by rw [hl]; rfl) rfl
        (by rw [hl]; nofun) (by nofun) (by nofun) (by nofun)
  | testIndex =>
    have htarget := hown (by rw [hl]; nofun) (by rw [hl]; nofun)
    simp only [hl, Option.some.injEq] at h
    rw [← h]
    refine loopEffect_setLoop hT htarget hsame _ (by rw [hl]; rfl) rfl (by rw [hl]; nofun)
      (by nofun) ?_ (by nofun)
    intro f e
    cases e
    rfl
  | testCurrent f =>
    have htarget := hown (by rw [hl]; nofun) (by rw [hl]; nofun)
    simp only [hl, Option.some.injEq] at h
    rw [← h]
    by_cases hf : f = s.feed.currentIndex
    · rw [if_pos hf]
      refine loopEffect_setLoop hT htarget hsame _ (by rw [hl]; rfl) rfl (by rw [hl]; nofun)
        (by nofun) (by nofun) ?_
      intro _
      rw [hl, hf]
    · rw [if_neg hf]
      exact loopEffect_setLoop hT htarget hsame _ (by rw [hl]; rfl) rfl (by rw [hl]; nofun)
        (by nofun) (by nofun) (by nofun)
  | start =>
    have htarget := hown (by rw [hl]; nofun) (by rw [hl]; nofun)
    simp only [hl, htarget, Option.bind_some, Option.some.injEq] at h
    rw [← h]
    refine ⟨⟨fun _ => rfl, fun _ => rfl, rfl⟩, rfl, rfl, _, ?_, LoopMove.start hl⟩
    exact modify_modify hT Player.start _

/-- The player a loop has moved is in order, and follows. -/
theorem loopMove_ok {T' : Player} (h : PlayerOk s t T) (hslots : SlotOk s)
    (hm : LoopMove s t T T') : Follows T T' ∧ PlayerOk s t T' := by
  cases hm with
  | move pc hfrom hto hborn hpc htest hstart =>
    have hstarted : T.mpState = .started → PlaysNow T := (playsNow_started hfrom).mpr
    have hgone : Gone T → Gone { T with loop := pc, target := some t } := fun hg => ⟨hg.1, hpc⟩
    refine ⟨Follows.of_running rfl rfl hborn hpc id, ?_⟩
    refine ⟨localOk_move h.sound hto hstarted, h.home.imp hgone id, fun e => absurd e hpc,
      fun _ _ => rfl, ?_, ?_, fun hw => h.playing (willPlay_move hto hstarted hw)⟩
    · -- the number just read
      intro f e
      rcases h.home with hg | hmp
      · exact Or.inl (hgone hg)
      · refine Or.inr ?_
        rw [htest f e]
        exact (hslots T.slot t hmp).1
    · -- the test just passed
      intro e
      rcases h.tested _ (hstart e) with hg | ⟨hnonneg, hslot⟩
      · exact Or.inl (hgone hg)
      · exact Or.inr (Or.inl ⟨hnonneg, hslot.symm⟩)
  | take Q pc hl htake =>
    have hfrom : holds T.loop = false := by rw [hl]; rfl
    have hframe : Q.slot = T.slot ∧ Q.aborted = T.aborted ∧ Q.target = T.target ∧
        Q.mpState = T.mpState ∧ (pc = .ended ∨ ∃ m, pc = .got m) := by
      rcases take_cases htake with ⟨_, rfl, rfl⟩ | ⟨_, m, _, _, rfl, rfl⟩
      · exact ⟨rfl, rfl, rfl, rfl, Or.inl rfl⟩
      · exact ⟨rfl, rfl, rfl, rfl, Or.inr ⟨m, rfl⟩⟩
    obtain ⟨hslot, haborted, htarget, hstate, hpc⟩ := hframe
    have hborn : pc ≠ .none := by
      rcases hpc with rfl | ⟨m, rfl⟩ <;> nofun
    have hf : Follows T { Q with loop := pc } := by
      refine Follows.of_running hslot haborted (by rw [hl]; nofun) hborn ?_
      intro hs
      exact (congrArg stoppable hstate).trans hs
    refine ⟨hf, h.follow hf (localOk_take h.sound hfrom htake) (fun e => absurd e hborn) ?_ ?_ ?_
      fun hw => h.playing (willPlay_take hfrom htake hw)⟩
    · intro _ _
      exact htarget.trans (h.own (by rw [hl]; nofun) (by rw [hl]; nofun))
    · intro f e
      rcases hpc with rfl | ⟨m, rfl⟩ <;> cases e
    · intro e
      rcases hpc with rfl | ⟨m, rfl⟩ <;> cases e
  | serve m hl =>
    have hf := follows_serve h.sound hl
    have hserved : served m = .wait ∨ served m = .handling m := by
      cases m <;> first | exact Or.inl rfl | exact Or.inr rfl
    refine ⟨hf, h.follow hf (localOk_serve h.sound hl) ?_ ?_ ?_ ?_
      fun hw => h.playing (willPlay_serve hl hw)⟩
    · intro e
      rcases hserved with e' | e' <;> rw [show served m = .none from e] at e' <;> cases e'
    · intro _ _
      exact (sameThread_serve T m).target.trans
        (h.own (by rw [hl]; nofun) (by rw [hl]; nofun))
    · intro f e
      rcases hserved with e' | e' <;> rw [show served m = .testCurrent f from e] at e' <;> cases e'
    · intro e
      rcases hserved with e' | e' <;> rw [show served m = .start from e] at e' <;> cases e'
  | start hl =>
    have hne : T.loop ≠ .none := by rw [hl]; nofun
    have hfs : Follows T T.start := follows_start fun e => absurd e hne
    have hf : Follows T { T.start with loop := .wait } :=
      ⟨hfs.slot, fun hg => ⟨(hfs.gone hg).1, by nofun⟩, hfs.settled, fun e => absurd e hne⟩
    have hfrom : holds T.start.loop = false := by
      rw [(start_thread T).1, hl]
      rfl
    have hstarted : T.start.mpState = .started → PlaysNow T.start := (playsNow_started hfrom).mpr
    have hok : LocalOk T.start := localOk_start h.sound
    refine ⟨hf, h.follow hf (localOk_move hok rfl hstarted) (by nofun) ?_ (by nofun) (by nofun) ?_⟩
    · intro _ _
      exact (start_thread T).2.trans (h.own hne (by rw [hl]; nofun))
    · intro hw
      have hw' : WillPlay T.start := willPlay_move rfl hstarted hw
      rcases h.starting hl with hg | haim
      · exact absurd hw' (not_willPlay_aborted hok (hfs.gone hg).1)
      · exact haim

/-- **A step of a message loop keeps the invariant.** -/
theorem loopStep_inv (h : Inv s) (hstep : loopStep s t = some s')
    (hc : Unhurried s (.loop t)) : Inv s' := by
  cases hT : s.players[t]? with
  | none =>
    unfold loopStep at hstep
    simp only [hT, Option.bind_eq_bind, Option.bind_none] at hstep
    cases hstep
  | some T =>
    have hok := h.players t T hT
    have hfound : T.loop = .spawned → (s.feed.pool T.slot).mp = some t := by
      have hin : BeginsInTime s t s.players[t]? := hc
      rw [hT] at hin
      exact hin
    obtain ⟨hring, hscroll, hcalls, T', hplayers, hmove⟩ :=
      loopStep_effect hstep hT hok.own hfound
    obtain ⟨hf, hok'⟩ := loopMove_ok hok h.slots hmove
    refine h.change hT hf hok' hplayers hring hscroll ?_
    intro c hc
    rw [hcalls] at hc
    exact Or.inl hc

end Loops

/-! ## 2. The calls and the players' own threads -/

section Calls

variable {s s' : State}

/-- A start keeps a player in order when it may be aimed at. -/
theorem start_playerOk {mp : Nat} {P : Player} (h : Inv s) (hP : s.players[mp]? = some P)
    (haim : Gone P ∨ Aim s P.slot) : Follows P P.start ∧ PlayerOk s mp P.start := by
  have hok := h.players mp P hP
  have hf : Follows P P.start :=
    follows_start fun hl => not_chkst_of_not_stoppable (h.unborn_refuses hP hl)
  have hsound := localOk_start hok.sound
  refine ⟨hf, hok.follow hf hsound ?_ ?_ ?_ ?_ ?_⟩
  · rw [(start_thread P).1]
    exact id
  · rw [(start_thread P).1, (start_thread P).2]
    exact hok.own
  · rw [(start_thread P).1]
    exact fun _ => id
  · rw [(start_thread P).1]
    exact id
  · intro hw
    rcases haim with hg | haim
    · exact absurd hw (not_willPlay_aborted hsound (hf.gone hg).1)
    · exact haim

theorem pause_playerOk {mp : Nat} {P : Player} (h : Inv s) (hP : s.players[mp]? = some P) :
    Follows P P.pause ∧ PlayerOk s mp P.pause := by
  have hok := h.players mp P hP
  have hf : Follows P P.pause :=
    follows_pause fun hl => not_chkst_of_not_stoppable (h.unborn_refuses hP hl)
  refine ⟨hf, hok.follow hf (localOk_pause hok.sound) ?_ ?_ ?_ ?_ ?_⟩
  · rw [(pause_thread P).1]
    exact id
  · rw [(pause_thread P).1, (pause_thread P).2]
    exact hok.own
  · rw [(pause_thread P).1]
    exact fun _ => id
  · rw [(pause_thread P).1]
    exact id
  · exact fun hw => absurd hw (not_willPlay_pause hok.sound)

/-- Only the calls change. -/
theorem Inv.callsOnly (h : Inv s) {t : State} (hfeed : t.feed = s.feed)
    (hplayers : t.players = s.players) (hscroll : t.scroll = s.scroll)
    (hcalls : ∀ c ∈ t.calls, c ∈ s.calls ∨ CallOk s c) : Inv t := by
  have hb : Beside s t := by
    refine ⟨sameRing_of_feed hfeed, hscroll, ?_⟩
    intro mp P hP
    rw [hplayers]
    exact ⟨P, hP, Follows.refl P⟩
  refine h.beside hb ?_ ?_
  · intro mp Q hQ
    rw [hplayers] at hQ
    exact Or.inl hQ
  · intro c hc
    exact (hcalls c hc).imp id fun hok => hok.beside hb

theorem post_inv {mp : Nat} {m : Msg} (h : Inv s) (hc : ResumesInTime s m s.players[mp]?)
    (hstep : playStep s (.post mp m) = some s') : Inv s' := by
  obtain ⟨P, hP, hpost, rfl⟩ := post_cases hstep
  have hok := h.players mp P hP
  have hst := mayPost_stoppable hpost
  obtain ⟨hslot, hloop, htarget, habort⟩ := put_thread P m
  have hborn : P.loop ≠ .none := by
    intro hl
    have hrefuse := h.unborn_refuses hP hl
    rw [hst] at hrefuse
    cases hrefuse
  have hf : Follows P (P.put m) := by
    refine Follows.of_running hslot habort hborn (by rw [hloop]; exact hborn) ?_
    intro hs
    rw [hst] at hs
    cases hs
  have haim : WillPlay (P.put m) → Aim s P.slot := by
    intro hw
    rcases willPlay_post hpost hw with hplay | ⟨hm, ha⟩
    · exact hok.playing hplay
    · rw [hP] at hc
      exact hc hm ha
  have hok' : PlayerOk s mp (P.put m) := by
    refine hok.follow hf (localOk_post hok.sound hpost) ?_ ?_ ?_ ?_ haim
    · rw [hloop]
      exact id
    · rw [hloop, htarget]
      exact hok.own
    · rw [hloop]
      exact fun _ => id
    · rw [hloop]
      exact id
  exact h.change hP hf hok' (modify_of_get hP _) ⟨fun _ => rfl, fun _ => rfl, rfl⟩ rfl
    fun c hc => Or.inl hc

theorem Inv.current_ge (h : Inv s) : -1 ≤ s.feed.currentIndex := by
  have hs := h.scroll
  unfold ScrollOk at hs
  split at hs
  · exact hs.1
  · rw [hs.1]
    omega

/-- The slot that `viral_feed_play` computes is that of the current video. -/
theorem Inv.aim_current (h : Inv s) {k : Slot}
    (hk : viralGetPoolSlot s.feed.currentIndex = some k) : Aim s k := by
  have hge := h.current_ge
  by_cases hneg : s.feed.currentIndex = -1
  · rw [hneg] at hk
    cases hk
  · have hnonneg : 0 ≤ s.feed.currentIndex := by omega
    rw [viralGetPoolSlot_of_nonneg hnonneg] at hk
    exact Or.inl ⟨hnonneg, (Option.some.inj hk).symm⟩

theorem modify_of_none {l : List Player} {mp : Nat} (h : l[mp]? = none) (f : Player → Player) :
    l.modify mp f = l := by
  refine List.ext_getElem? ?_
  intro j
  rw [List.getElem?_modify]
  by_cases e : mp = j
  · rw [← e, h]
    rfl
  · simp [e]

/-- The last move of a call, the request. -/
theorem act_inv {cmd : Cmd} {mp : Nat} {calls : List (Cmd × CallPc)} (h : Inv s)
    (hok : CallOk s (cmd, .act mp)) (hcalls : ∀ c ∈ calls, c ∈ s.calls) :
    Inv { (s.onPlayer mp cmd.onPlayer).log mp cmd.call with calls := calls } := by
  cases hP : s.players[mp]? with
  | none =>
    refine h.beside ⟨⟨fun _ => rfl, fun _ => rfl, rfl⟩, rfl, ?_⟩ ?_ fun c hc => Or.inl (hcalls c hc)
    · intro j P hj
      exact ⟨P, by rw [← hj]; exact congrArg (·[j]?) (modify_of_none hP _), Follows.refl P⟩
    · intro j Q hj
      have e : (s.players.modify mp cmd.onPlayer)[j]? = some Q := hj
      rw [modify_of_none hP] at e
      exact Or.inl e
  | some P =>
    have hnew : Follows P (cmd.onPlayer P) ∧ PlayerOk s mp (cmd.onPlayer P) := by
      cases cmd with
      | pause => exact pause_playerOk h hP
      | play =>
        obtain ⟨Q, hQ, haim⟩ := hok
        have e : P = Q := Option.some.inj (hP.symm.trans hQ)
        rw [← e] at haim
        exact start_playerOk h hP haim
    exact h.change hP hnew.1 hnew.2 (modify_of_get hP _) ⟨fun _ => rfl, fun _ => rfl, rfl⟩ rfl
      fun c hc => Or.inl (hcalls c hc)

/-- A call moves on without touching a player. -/
theorem next_inv {n : Nat} {cmd : Cmd} {next : Option CallPc} (h : Inv s)
    (hnext : ∀ pc, next = some pc → CallOk s (cmd, pc)) :
    Inv { s with calls := moveCall s.calls n cmd next } := by
  refine h.callsOnly rfl rfl rfl ?_
  intro c hc
  cases next with
  | none => exact Or.inl (List.mem_of_mem_eraseIdx hc)
  | some pc =>
    rcases List.mem_or_eq_of_mem_set hc with hold | rfl
    · exact Or.inl hold
    · exact Or.inr (hnext pc rfl)

/-- **A step of `viral_feed_play` or `viral_feed_pause` keeps the invariant.** -/
theorem callStep_inv {n : Nat} (h : Inv s) (hstep : callStep s n = some s') : Inv s' := by
  obtain ⟨cmd, pc, u, next, hn, hmove, rfl⟩ := callStep_move hstep
  have hok : CallOk s (cmd, pc) := h.calls _ (List.mem_of_getElem? hn)
  cases pc with
  | crashed => cases hmove
  | readIndex =>
    cases hmove
    refine next_inv h ?_
    intro pc e
    obtain ⟨k, hk, rfl⟩ := Option.map_eq_some_iff.mp e
    cases cmd with
    | pause => trivial
    | play => exact h.aim_current hk
  | testMp k =>
    cases hmove
    refine next_inv h ?_
    intro pc e
    obtain ⟨_, _, rfl⟩ := Option.map_eq_some_iff.mp e
    cases cmd with
    | pause => trivial
    | play => exact hok
  | readMp k =>
    cases hmove
    refine next_inv h ?_
    intro pc e
    cases cmd with
    | pause => cases pc <;> trivial
    | play =>
      cases hmp : (s.feed.pool k).mp with
      | none =>
        rw [hmp] at e
        cases e
        trivial
      | some mp =>
        rw [hmp] at e
        cases e
        obtain ⟨_, P, hP, hslot⟩ := h.slots k mp hmp
        refine ⟨P, hP, Or.inr ?_⟩
        rw [hslot]
        exact hok
  | act mp =>
    cases hmove
    exact act_inv h hok fun c hc => List.mem_of_mem_eraseIdx hc

end Calls

end Viral.Feed
