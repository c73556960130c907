/-
  File:      ViralEngine/Feed/Pause.lean
  Subject:   WHEN A PAUSE IS KEPT.

  `ijkmp_pause` is refused while a player is preparing, and the message loop calls `ijkmp_start`
  on its own when PREPARED comes. A pause is lost wherever a start of the current video is still
  ahead of it.

  * `PastPrepared` -- the player has its PREPARED message behind it;
  * `NoStartAhead`, `Unopposed`, `Calm` -- the condition on a step: where a pause ends, it has
    acted on the current video's player, and neither a call of `viral_feed_play`, nor the swipe,
    nor the loop of that player has a start ahead;
  * `Hushed`, `hushed_pause` -- nobody will play, until the next swipe or play; `LeavesShown`: what
    the swipe does past its video;
  * `LastCalls`, `recorded` -- the call entered last and the call returned last;
  * `pauseKept` -- so in every calm run that comes to rest behind a pause nobody plays;
  * `pause_whilePreparing` -- a pause in front of PREPARED.
-/
import ViralEngine.Feed.Notes

namespace Viral.Feed

open Viral.Lib Viral.Ijk Viral.Ijk.Player

/-! ## 1. A player with PREPARED behind it -/

/-- In the case of PREPARED, from the message in hand on. -/
def inCase : LoopPc → Bool
  | .got .prepared | .handling .prepared => true
  | pc => behindReady pc

/-- The player is not preparing, and no loop of it has a PREPARED message ahead or in hand. -/
structure PastPrepared (P : Player) : Prop where
  state : P.mpState ≠ .asyncPreparing
  queue : Msg.prepared ∉ P.queue
  place : inCase P.loop = false

instance (P : Player) : Decidable (PastPrepared P) :=
  decidable_of_iff (P.mpState ≠ .asyncPreparing ∧ Msg.prepared ∉ P.queue ∧ inCase P.loop = false)
    ⟨fun ⟨h1, h2, h3⟩ => ⟨h1, h2, h3⟩, fun h => ⟨h.state, h.queue, h.place⟩⟩

/-- Into the case leads the fetch of PREPARED only. -/
theorem Next.inCase {feedIndex current : Int} {pc next : LoopPc}
    (h : Next feedIndex current pc next) (hn : Feed.inCase next = true) :
    Feed.inCase pc = true ∨ pc = .wait ∧ next = .got .prepared := by
  cases hb : Feed.behindReady next with
  | true =>
    rcases h.behindReady hb with rfl | hpc
    · exact Or.inl rfl
    · refine Or.inl ?_
      unfold Feed.behindReady at hpc
      split at hpc <;> first | rfl | cases hpc
  | false =>
    unfold Feed.inCase at hn
    split at hn
    · -- fetched just now
      cases pc with
      | wait => exact Or.inr ⟨rfl, rfl⟩
      | none | ended | crashed => exact h.elim
      | spawned => rcases h with e | e <;> cases e
      | got m => cases m <;> cases h
      | handling m =>
        cases m with
        | stateChanged => rcases h with e | e <;> cases e
        | prepared | flush | completed | error | bufferingStart | other | reqStart | reqPause =>
          cases h
      | storePlaying | start | testIndex => cases h
      | fire e =>
        change LoopPc.got .prepared = if e = .ready then .testIndex else .wait at h
        split at h <;> cases h
      | testCurrent f =>
        change LoopPc.got .prepared = if f = current then .start else .wait at h
        split at h <;> cases h
    · cases pc with
      | got m =>
        cases m with
        | prepared => exact Or.inl rfl
        | flush | completed | error | bufferingStart | stateChanged | other | reqStart | reqPause =>
          cases h
      | none | ended | crashed => exact h.elim
      | spawned => rcases h with e | e <;> cases e
      | wait => rcases h with e | ⟨_, e⟩ <;> cases e
      | handling m =>
        cases m with
        | stateChanged => rcases h with e | e <;> cases e
        | prepared | flush | completed | error | bufferingStart | other | reqStart | reqPause =>
          cases h
      | storePlaying | start | testIndex => cases h
      | fire e =>
        change LoopPc.handling .prepared = if e = .ready then .testIndex else .wait at h
        split at h <;> cases h
      | testCurrent f =>
        change LoopPc.handling .prepared = if f = current then .start else .wait at h
        split at h <;> cases h
    · rw [hb] at hn
      cases hn

section Past

variable {P Q : Player}

theorem PastPrepared.put (h : PastPrepared P) {m : Msg} (hm : m ≠ .prepared) :
    PastPrepared (P.put m) := by
  unfold Player.put
  split
  · exact h
  · refine ⟨h.state, fun hq => ?_, h.place⟩
    rcases List.mem_append.mp hq with hq | hq
    · exact h.queue hq
    · exact hm (List.mem_singleton.mp hq).symm

theorem PastPrepared.removeReqs (h : PastPrepared P) : PastPrepared P.removeReqs := by
  unfold Player.removeReqs
  split
  · exact h
  · exact ⟨h.state, fun hq => h.queue (List.mem_filter.mp hq).1, h.place⟩

theorem PastPrepared.changeState (h : PastPrepared P) {st : MpState} (hs : st ≠ .asyncPreparing) :
    PastPrepared (P.changeState st) :=
  PastPrepared.put (P := { P with mpState := st }) ⟨hs, h.queue, h.place⟩ (by nofun)

theorem PastPrepared.pause (h : PastPrepared P) : PastPrepared P.pause := by
  unfold Player.pause
  split
  · exact h.removeReqs.put (by nofun)
  · exact h

theorem PastPrepared.serve (h : PastPrepared P) {m : Msg} (hm : m ≠ .prepared) :
    PastPrepared (P.serve m) := by
  cases m with
  | prepared => exact absurd rfl hm
  | completed => exact h.changeState (by nofun)
  | reqStart =>
    unfold Player.serve
    dsimp only
    split
    · have hresumes : PastPrepared { P with resumes := true } := ⟨h.state, h.queue, h.place⟩
      exact hresumes.changeState (by nofun)
    · exact h
  | reqPause =>
    unfold Player.serve
    dsimp only
    split
    · exact h.changeState (by nofun)
    · exact h
  | flush | error | bufferingStart | stateChanged | other => exact h

/-- The thread takes a message that is not PREPARED, as none is there. -/
theorem PastPrepared.take {pc : LoopPc} (h : PastPrepared P) (ht : P.take = some (Q, pc)) :
    PastPrepared { Q with loop := pc } := by
  rcases take_cases ht with ⟨_, rfl, rfl⟩ | ⟨_, m, rest, hq, rfl, rfl⟩
  · exact ⟨h.state, h.queue, rfl⟩
  · have hno := h.queue
    rw [hq] at hno
    refine ⟨h.state, fun hm => hno (List.mem_cons_of_mem m hm), ?_⟩
    cases m with
    | prepared => exact absurd List.mem_cons_self hno
    | flush | completed | error | bufferingStart | stateChanged | other | reqStart | reqPause =>
      rfl

/-- The step of its own loop. -/
theorem PastPrepared.loopMove {s : State} {n : Nat} {feedIndex current : Int}
    (h : PastPrepared P) (hm : LoopMove s n P Q) (hnext : Next feedIndex current P.loop Q.loop) :
    PastPrepared Q := by
  cases hm with
  | move pc hfrom hto hborn hpc htest hstart =>
    refine ⟨h.state, h.queue, ?_⟩
    cases hin : inCase pc with
    | false => rfl
    | true =>
      rcases hnext.inCase hin with hin' | ⟨_, e⟩
      · rw [h.place] at hin'
        cases hin'
      · rw [show pc = .got .prepared from e] at hto
        cases hto
  | take R pc hl ht => exact h.take ht
  | serve m hl =>
    have hne : m ≠ .prepared := by
      rintro rfl
      have hplace := h.place
      rw [hl] at hplace
      cases hplace
    have hserved := h.serve hne
    refine ⟨hserved.state, hserved.queue, ?_⟩
    cases m with
    | prepared => exact absurd rfl hne
    | flush | completed | error | bufferingStart | stateChanged | other | reqStart | reqPause =>
      rfl
  | start hl =>
    have hplace := h.place
    rw [hl] at hplace
    cases hplace

end Past

/-- A step of a loop that is not at its start lets nobody play. -/
theorem not_willPlay_loopMove {s : State} {n : Nat} {P Q : Player} (hm : LoopMove s n P Q)
    (hno : ¬ WillPlay P) (hl : P.loop ≠ .start) : ¬ WillPlay Q := by
  intro hw
  refine hno ?_
  cases hm with
  | move pc hfrom hto hborn hpc htest hstart =>
    exact willPlay_move hto (playsNow_started hfrom).mpr hw
  | take R pc hl ht => exact willPlay_take (by rw [hl]; rfl) ht hw
  | serve m hl => exact willPlay_serve hl hw
  | start hs => exact absurd hs hl

/-! ## 2. The condition -/

/-- The swipe, if there is one, is past its work on the video it shows. -/
def shownBehind : Option (Int × ScrollPc) → Bool
  | none | some (_, .init (_ + 1) _) | some (_, .preload _) | some (_, .release)
  | some (_, .releaseShutdown) | some (_, .releaseClear) => true
  | _ => false

/-- The player of the current video. -/
def shown (s : State) : Option Player :=
  (s.feed.slot s.feed.currentIndex).mp.bind fun mp => s.players[mp]?

/-- No call, no swipe and no loop has a start of the current video ahead. -/
structure NoStartAhead (s : State) : Prop where
  calls : ∀ c ∈ s.calls, c.1 = .pause
  swipe : shownBehind s.scroll = true
  past : ∀ P ∈ shown s, PastPrepared P

instance (s : State) : Decidable (NoStartAhead s) :=
  decidable_of_iff ((∀ c ∈ s.calls, c.1 = .pause) ∧ shownBehind s.scroll = true ∧
    ∀ P ∈ shown s, PastPrepared P) ⟨fun ⟨h1, h2, h3⟩ => ⟨h1, h2, h3⟩,
      fun h => ⟨h.calls, h.swipe, h.past⟩⟩

/-- Where a pause ends, it has acted on the current video and no start is ahead. -/
def Unopposed (s : State) : CallPc → Prop
  | .readIndex => viralGetPoolSlot s.feed.currentIndex = none → NoStartAhead s
  | .testMp k => (s.feed.pool k).mp = none → k = slotOf s.feed.currentIndex ∧ NoStartAhead s
  | .act mp => (s.feed.slot s.feed.currentIndex).mp = some mp ∧ NoStartAhead s
  | .readMp _ | .crashed => True

/-- The same of a call, if it is a pause. -/
def CalmCall (s : State) : Option (Cmd × CallPc) → Prop
  | some (.pause, pc) => Unopposed s pc
  | _ => True

/-- A player's own thread announces PREPARED once, while the player is preparing. -/
def Announced (s : State) (mp : Nat) (m : Msg) : Prop :=
  m = .prepared → ∀ P ∈ s.players[mp]?, P.mpState = .asyncPreparing ∨ P.aborted = true

/-- The player resumes of its own (`auto_resume`) only if no pause has come in between. -/
def Resumed (s : State) (mp : Nat) (m : Msg) : Prop :=
  m = .reqStart → ∀ P ∈ s.players[mp]?, WillPlay P ∨ P.aborted = true

/-- **The condition on a step.** -/
def Calm (s : State) (a : PlayAct) : Prop :=
  Unhurried s a ∧ match a with
    | .call n => CalmCall s s.calls[n]?
    | .post mp m => Announced s mp m ∧ Resumed s mp m
    | _ => True

instance (s : State) : ∀ pc, Decidable (Unopposed s pc)
  | .readIndex | .testMp _ => inferInstanceAs (Decidable (_ → _))
  | .act _ => inferInstanceAs (Decidable (_ ∧ _))
  | .readMp _ | .crashed => inferInstanceAs (Decidable True)

instance (s : State) : ∀ c, Decidable (CalmCall s c)
  | some (.pause, pc) => inferInstanceAs (Decidable (Unopposed s pc))
  | some (.play, _) | none => inferInstanceAs (Decidable True)

instance (s : State) (mp : Nat) (m : Msg) : Decidable (Announced s mp m) :=
  inferInstanceAs (Decidable (_ → _))

instance (s : State) (mp : Nat) (m : Msg) : Decidable (Resumed s mp m) :=
  inferInstanceAs (Decidable (_ → _))

instance (s : State) : ∀ a, Decidable (Calm s a)
  | .call n => inferInstanceAs (Decidable (_ ∧ CalmCall s s.calls[n]?))
  | .post mp m => inferInstanceAs (Decidable (_ ∧ Announced s mp m ∧ Resumed s mp m))
  | .scrollTo _ | .scroll _ | .invoke _ | .loop _ => inferInstanceAs (Decidable (_ ∧ True))

/-! ## 3. Nobody will play -/

/-- The player of the current video does not play and has PREPARED behind it, and nobody is about
    to start it. -/
structure Hushed (s : State) : Prop where
  calls : ∀ c ∈ s.calls, c.1 = .pause
  swipe : shownBehind s.scroll = true
  quiet : ∀ P ∈ shown s, ¬ WillPlay P ∧ PastPrepared P

section Hushed

variable {s t : State}

theorem shown_eq_some {P : Player} :
    P ∈ shown s ↔ ∃ mp, (s.feed.slot s.feed.currentIndex).mp = some mp ∧
      s.players[mp]? = some P :=
  Option.bind_eq_some_iff

/-- A step that keeps the current video and does to its player no more than a quiet one bears. -/
theorem Hushed.keep (h : Hushed s) (hcalls : ∀ c ∈ t.calls, c.1 = .pause)
    (hswipe : shownBehind t.scroll = true)
    (hslot : (t.feed.slot t.feed.currentIndex).mp = (s.feed.slot s.feed.currentIndex).mp)
    (hplayer : ∀ mp P, (s.feed.slot s.feed.currentIndex).mp = some mp →
      s.players[mp]? = some P → ¬ WillPlay P ∧ PastPrepared P →
      ∀ Q, t.players[mp]? = some Q → ¬ WillPlay Q ∧ PastPrepared Q)
    (hlen : ∀ mp, (s.feed.slot s.feed.currentIndex).mp = some mp → mp < s.players.length) :
    Hushed t where
  calls := hcalls
  swipe := hswipe
  quiet Q hQ := by
    obtain ⟨mp, hmp, hQ'⟩ := shown_eq_some.mp hQ
    rw [hslot] at hmp
    have hP := List.getElem?_eq_getElem (hlen mp hmp)
    exact hplayer mp _ hmp hP (h.quiet _ (shown_eq_some.mpr ⟨mp, hmp, hP⟩)) Q hQ'

theorem Inv.shown_lt (h : Inv s) (mp : Nat)
    (hmp : (s.feed.slot s.feed.currentIndex).mp = some mp) : mp < s.players.length := by
  obtain ⟨_, P, hP, _⟩ := h.slots _ mp hmp
  exact (List.getElem?_eq_some_iff.mp hP).1

/-! ### The swipe past its video -/

/-- What the swipe does past its video leaves that video alone. -/
structure LeavesShown (s t : State) : Prop where
  calls : t.calls = s.calls
  swipe : shownBehind t.scroll = true
  current : t.feed.currentIndex = s.feed.currentIndex
  slot : (t.feed.slot s.feed.currentIndex).mp = (s.feed.slot s.feed.currentIndex).mp
  player : ∀ mp, (s.feed.slot s.feed.currentIndex).mp = some mp →
    t.players[mp]? = s.players[mp]?

/-- The swipe moves on. -/
theorem leavesShown_goto {index : Int} {pc : ScrollPc}
    (hpc : shownBehind (some (index, pc)) = true) :
    LeavesShown s (s.goto index pc) := ⟨rfl, hpc, rfl, rfl, fun _ _ => rfl⟩

/-- A call on the player of another slot. -/
theorem Inv.leavesShown_call {index j : Int} {mp : Nat} {f : Player → Player} {pc : ScrollPc}
    {feed : ViralFeed} (h : Inv s) (hmp : (s.feed.slot j).mp = some mp)
    (hj : slotOf j ≠ slotOf s.feed.currentIndex) (hpool : feed.pool = s.feed.pool)
    (hcurrent : feed.currentIndex = s.feed.currentIndex)
    (hpc : shownBehind (some (index, pc)) = true) :
    LeavesShown s (State.goto { s.onPlayer mp f with feed := feed } index pc) := by
  refine ⟨rfl, hpc, hcurrent, ?_, fun mp' hmp' => ?_⟩
  · show (feed.pool _).mp = _
    rw [hpool]
    rfl
  · have hne : mp ≠ mp' := by
      rintro rfl
      obtain ⟨_, P, hP, hslot⟩ := h.slots _ mp hmp
      obtain ⟨_, P', hP', hslot'⟩ := h.slots _ mp hmp'
      rw [hP] at hP'
      cases hP'
      exact hj (hslot.symm.trans hslot')
    show (s.players.modify mp f)[mp']? = _
    rw [List.getElem?_modify]
    cases s.players[mp']? <;> simp [hne]

/-- Another slot is written. -/
theorem leavesShown_setVp {j : Int} {vp : ViralPlayer} {scroll : Option (Int × ScrollPc)}
    {players : List Player} {feed : ViralFeed}
    (hj : slotOf j ≠ slotOf s.feed.currentIndex)
    (hpool : ∀ k, feed.pool k = if k = slotOf j then vp else s.feed.pool k)
    (hcurrent : feed.currentIndex = s.feed.currentIndex) (hscroll : shownBehind scroll = true)
    (hplayers : ∀ mp, (s.feed.slot s.feed.currentIndex).mp = some mp →
      players[mp]? = s.players[mp]?) :
    LeavesShown s { s with feed := feed, players := players, scroll := scroll } := by
  refine ⟨rfl, hscroll, hcurrent, ?_, hplayers⟩
  show (feed.pool _).mp = _
  rw [hpool, if_neg hj.symm]
  rfl

theorem initMove_leavesShown {index : Int} {i : Nat} {ok : Bool} {pc : InitPc} (h : Inv s)
    (hs : s.scroll = some (index, .init (i + 1) pc))
    (hm : InitMove s index (i + 1) ok pc t) : LeavesShown s t := by
  obtain ⟨hcurrent, _, hi, _⟩ := h.place hs
  have hi' : i + 1 ≤ 2 := hi
  have hj : slotOf (index + (i + 1 : Nat)) ≠ slotOf s.feed.currentIndex := by
    rw [hcurrent]
    exact slotOf_ahead (by omega) (show i + 1 < 5 by omega)
  cases hm with
  | stopped mp hmp | shutDown mp hmp | sourced mp hmp | prepared mp hmp =>
    exact h.leavesShown_call hmp hj rfl rfl rfl
  | noneToStop _ | noneToShutDown _ | noSource _ | noPrepare _ => exact leavesShown_goto rfl
  | cleared | numbered _ | outside _ | preloading =>
    exact leavesShown_setVp hj (fun _ => rfl) rfl rfl fun _ _ => rfl
  | created =>
    refine leavesShown_setVp hj (fun _ => rfl) rfl rfl fun mp hmp => ?_
    exact List.getElem?_append_left (h.shown_lt mp hmp)

theorem scrollMove_leavesShown {index : Int} {ok : Bool} {pc : ScrollPc} (h : Inv s)
    (hs : s.scroll = some (index, pc)) (hbehind : shownBehind s.scroll = true)
    (hm : ScrollMove s index ok pc t) : LeavesShown s t := by
  have hcurrent := (h.place hs).1
  rw [hs] at hbehind
  have hj : slotOf (releaseBefore index) ≠ slotOf s.feed.currentIndex := by
    rw [hcurrent]
    exact slotOf_released.symm
  cases hm with
  | paused | notPaused | found | missing | started => cases hbehind
  | init i pc _ hinit =>
    cases i with
    | zero => cases hbehind
    | succ i => exact initMove_leavesShown h hs hinit
  | preloadNext i hmore hidx =>
    have hi : 1 ≤ i := (h.place hs).2.2.1
    obtain ⟨i, rfl⟩ : ∃ i', i = i' + 1 := ⟨i - 1, by omega⟩
    exact leavesShown_goto rfl
  | preloadDone | preloadSkip | noneReleased => exact leavesShown_goto rfl
  | notReleased => exact ⟨rfl, rfl, rfl, rfl, fun _ _ => rfl⟩
  | released mp hmp _ | releasedDown mp hmp => exact h.leavesShown_call hmp hj rfl rfl rfl
  | releasedClear => exact leavesShown_setVp hj (fun _ => rfl) rfl rfl fun _ _ => rfl

theorem Hushed.scroll {ok : Bool} (h : Hushed s) (hi : Inv s) (hstep : scrollStep s ok = some t) :
    Hushed t := by
  obtain ⟨index, pc, hs, hm⟩ := scrollStep_cases hstep
  have ha := scrollMove_leavesShown hi hs h.swipe hm
  refine h.keep (ha.calls ▸ h.calls) ha.swipe (ha.current ▸ ha.slot) ?_ hi.shown_lt
  intro mp P hmp hP hq Q hQ
  rw [ha.player mp hmp, hP] at hQ
  cases hQ
  exact hq

/-! ### The other steps -/

theorem Hushed.loop {n : Nat} (h : Hushed s) (hi : Inv s) (hc : Unhurried s (.loop n))
    (hstep : loopStep s n = some t) : Hushed t := by
  obtain ⟨T, hT, _⟩ := loopStep_do hstep
  have hok := hi.players n T hT
  have hfound : T.loop = .spawned → (s.feed.pool T.slot).mp = some n := by
    have hin : BeginsInTime s n s.players[n]? := hc
    rw [hT] at hin
    exact hin
  obtain ⟨hring, hscroll, hcalls, T', hplayers, hmove⟩ := loopStep_effect hstep hT hok.own hfound
  obtain ⟨U, hU, hnext, _⟩ := (loopStep_leaves hstep hT).place
  have hlt := (List.getElem?_eq_some_iff.mp hT).1
  have hslot : (t.feed.slot t.feed.currentIndex).mp = (s.feed.slot s.feed.currentIndex).mp := by
    rw [hring.current]
    exact hring.mp _
  refine h.keep (hcalls ▸ h.calls) (hscroll ▸ h.swipe) hslot ?_ hi.shown_lt
  intro mp P hmp hP hq Q hQ
  rw [hplayers, List.getElem?_set] at hQ
  by_cases e : n = mp
  · -- the loop of the current video
    subst e
    rw [hT] at hP
    cases hP
    rw [if_pos rfl, if_pos hlt] at hQ
    cases hQ
    rw [hplayers, List.getElem?_set, if_pos rfl, if_pos hlt] at hU
    cases hU
    refine ⟨not_willPlay_loopMove hmove hq.1 fun hl => ?_, hq.2.loopMove hmove hnext⟩
    have hplace := hq.2.place
    rw [hl] at hplace
    cases hplace
  · rw [if_neg e, hP] at hQ
    cases hQ
    exact hq

theorem Hushed.post {mp : Nat} {m : Msg} (h : Hushed s) (hi : Inv s)
    (hc : Announced s mp m ∧ Resumed s mp m) (hstep : playStep s (.post mp m) = some t) : Hushed t := by
  obtain ⟨P, hP, hpost, rfl⟩ := post_cases hstep
  refine h.keep h.calls h.swipe rfl ?_ hi.shown_lt
  intro mp' R hmp hR hq Q hQ
  obtain ⟨R', hR', ⟨rfl, rfl⟩ | ⟨_, rfl⟩⟩ := modify_cases hQ
  · rw [hR] at hR' hP
    cases hR'
    cases hP
    refine ⟨fun hw => hq.1 ?_, ?_⟩
    · rcases willPlay_post hpost hw with hplay | ⟨hm, ha⟩
      · exact hplay
      · refine (hc.2 hm _ hR).resolve_right ?_
        rw [ha]
        exact Bool.false_ne_true
    by_cases hm : m = .prepared
    · rcases hc.1 hm _ hR with hstate | ha
      · exact absurd hstate hq.2.state
      · rw [put_aborted ha]
        exact hq.2
    · exact hq.2.put hm
  · rw [hR] at hR'
    cases hR'
    exact hq

/-- A pause leaves the player it acts on quiet. -/
theorem quiet_pause {P : Player} (hok : LocalOk P) (hp : PastPrepared P) :
    ¬ WillPlay P.pause ∧ PastPrepared P.pause :=
  ⟨not_willPlay_pause hok, hp.pause⟩

theorem mem_moveCall {calls : List (Cmd × CallPc)} {n : Nat} {cmd : Cmd} {next : Option CallPc}
    {c : Cmd × CallPc} (h : c ∈ moveCall calls n cmd next) : c ∈ calls ∨ c.1 = cmd := by
  cases next with
  | none => exact Or.inl (List.mem_of_mem_eraseIdx h)
  | some pc =>
    rcases List.mem_or_eq_of_mem_set h with hold | rfl
    · exact Or.inl hold
    · exact Or.inr rfl

theorem Hushed.call {n : Nat} (h : Hushed s) (hi : Inv s) (hstep : callStep s n = some t) :
    Hushed t := by
  have hcalls : ∀ {cmd pc}, s.calls[n]? = some (cmd, pc) → ∀ next,
      ∀ c ∈ moveCall s.calls n cmd next, c.1 = .pause := fun hn _ c hc =>
    (mem_moveCall hc).elim (h.calls c) fun e => e.trans (h.calls _ (List.mem_of_getElem? hn))
  cases callStep_cases hstep with
  | read cmd pc next hn => exact ⟨hcalls hn next, h.swipe, h.quiet⟩
  | act cmd mp hn =>
    obtain rfl : cmd = .pause := h.calls _ (List.mem_of_getElem? hn)
    refine h.keep (hcalls hn none) h.swipe rfl ?_ hi.shown_lt
    intro mp' P hmp hP hq Q hQ
    obtain ⟨P', hP', ⟨_, rfl⟩ | ⟨_, rfl⟩⟩ := modify_cases hQ
    · rw [hP] at hP'
      cases hP'
      exact quiet_pause (hi.players mp' P hP).sound hq.2
    · rw [hP] at hP'
      cases hP'
      exact hq

/-! ### Where it begins -/

/-- In front of the first swipe there is nothing to play. -/
theorem Inv.not_willPlay_before (h : Inv s) (hneg : s.feed.currentIndex < 0)
    (hswipe : shownBehind s.scroll = true) {mp : Nat} {P : Player}
    (hP : s.players[mp]? = some P) : ¬ WillPlay P := by
  intro hw
  rcases (h.players mp P hP).playing hw with ⟨hnonneg, _⟩ | ⟨_, _, hs, _⟩
  · omega
  · rw [hs] at hswipe
    cases hswipe

/-- **Where an unopposed pause ends, nobody will play.** -/
theorem hushed_pause {n : Nat} {pc : CallPc} {u : State} (hi : Inv s)
    (hmove : callMove s .pause pc = some (u, none)) (hc : Unopposed s pc) :
    Hushed { u with calls := moveCall s.calls n .pause none } := by
  have hcalls : NoStartAhead s → ∀ c ∈ moveCall s.calls n .pause none, c.1 = .pause :=
    fun hno c hmem => (mem_moveCall hmem).elim (hno.calls c) id
  cases pc with
  | crashed => cases hmove
  | readIndex =>
    obtain ⟨rfl, hnone⟩ := Prod.mk.inj (Option.some.inj hmove)
    have hslot := Option.map_eq_none_iff.mp hnone
    have hno := hc hslot
    refine ⟨hcalls hno, hno.swipe, fun P hP => ?_⟩
    obtain ⟨mp, _, hP'⟩ := shown_eq_some.mp hP
    refine ⟨hi.not_willPlay_before ?_ hno.swipe hP', hno.past P hP⟩
    refine Int.not_le.mp fun hnonneg => ?_
    rw [viralGetPoolSlot_of_nonneg hnonneg] at hslot
    cases hslot
  | testMp k =>
    obtain ⟨rfl, hnone⟩ := Prod.mk.inj (Option.some.inj hmove)
    have hmp := Option.map_eq_none_iff.mp hnone
    obtain ⟨hk, hno⟩ := hc hmp
    refine ⟨hcalls hno, hno.swipe, fun P hP => ?_⟩
    obtain ⟨mp, hmp', _⟩ := shown_eq_some.mp hP
    rw [hk, show (s.feed.pool (slotOf s.feed.currentIndex)).mp = some mp from hmp'] at hmp
    cases hmp
  | readMp k =>
    obtain ⟨_, hnone⟩ := Prod.mk.inj (Option.some.inj hmove)
    split at hnone <;> cases hnone
  | act mp =>
    obtain ⟨hmp, hno⟩ := hc
    cases hmove
    refine ⟨hcalls hno, hno.swipe, fun Q hQ => ?_⟩
    obtain ⟨mp', hmp', hQ'⟩ := shown_eq_some.mp hQ
    have e : mp = mp' := Option.some.inj (hmp.symm.trans hmp')
    obtain ⟨P, hP, ⟨_, rfl⟩ | ⟨hne, _⟩⟩ := modify_cases hQ'
    · exact quiet_pause (hi.players mp' P hP).sound
        (hno.past P (shown_eq_some.mpr ⟨mp', hmp', hP⟩))
    · exact absurd e.symm hne

end Hushed

/-! ## 4. The last call -/

/-- The calls of the feed that the order is about. -/
inductive FeedCall where
  | scrollTo | play | pause
  deriving DecidableEq, Repr

/-- The call of the feed. -/
def Cmd.feedCall : Cmd → FeedCall
  | .play => .play
  | .pause => .pause

/-- The call entered last and the call returned last. -/
structure LastCalls where
  entered : Option FeedCall
  returned : Option FeedCall
  deriving DecidableEq, Repr

/-- A swipe to an invalid index returns where it enters. -/
def noteCall (g : LastCalls) (s : State) (a : PlayAct) (t : State) : LastCalls :=
  match a with
  | .scrollTo index =>
    if s.feed.Valid index then { g with entered := some .scrollTo }
    else ⟨some .scrollTo, some .scrollTo⟩
  | .scroll _ => if t.scroll = none then { g with returned := some .scrollTo } else g
  | .invoke cmd => { g with entered := some cmd.feedCall }
  | .call n =>
    if t.calls.length < s.calls.length then
      { g with returned := s.calls[n]?.map fun c => c.1.feedCall }
    else g
  | .loop _ | .post _ _ => g

/-- The feed with its last calls. -/
def recorded (urls : List String) : Machine (State × LastCalls) PlayAct :=
  (playback urls).watch ⟨none, none⟩ noteCall

/-- A call is under way. -/
def Running (s : State) (cmd : Cmd) : Prop := cmd ∈ s.calls.map Prod.fst

/-- **What the last call says**: a pause has hushed the feed, or something that comes to an end
    later is under way. -/
structure PauseOk (s : State) (g : LastCalls) : Prop where
  inv : Inv s
  entered : g.entered = some .pause → Hushed s ∨ Running s .pause
  returned : g.returned = some .pause → Hushed s ∨ Running s .play ∨ s.scroll ≠ none

section Last

variable {s t : State} {g : LastCalls}

/-- A step that enters no call and ends none. -/
theorem PauseOk.within (h : PauseOk s g) (hinv : Inv t) (hhushed : Hushed s → Hushed t)
    (hcalls : t.calls.map Prod.fst = s.calls.map Prod.fst) (hscroll : t.scroll = s.scroll) :
    PauseOk t g where
  inv := hinv
  entered hg := by
    unfold Running
    rw [hcalls]
    exact (h.entered hg).imp hhushed id
  returned hg := by
    unfold Running
    rw [hcalls, hscroll]
    exact (h.returned hg).imp hhushed id

theorem PauseOk.scrollTo {index : Int} (h : PauseOk s g) (hstep : enterScroll s index = some t) :
    PauseOk t (noteCall g s (.scrollTo index) t) := by
  have hinv := enterScroll_inv h.inv hstep
  unfold enterScroll at hstep
  unfold noteCall
  dsimp only
  split at hstep
  · rename_i hvalid
    rw [if_pos hvalid]
    split at hstep <;> cases hstep
    exact ⟨hinv, by nofun, fun _ => Or.inr (Or.inr (by nofun))⟩
  · rename_i hout
    rw [if_neg hout]
    exact ⟨hinv, by nofun, by nofun⟩

theorem scrollStep_calls {ok : Bool} (hstep : scrollStep s ok = some t) : t.calls = s.calls := by
  obtain ⟨_, _, _, hm⟩ := scrollStep_cases hstep
  cases hm with
  | init i pc _ hinit => cases hinit <;> rfl
  | paused | notPaused | found | missing | started | preloadDone | preloadNext | preloadSkip
  | released | notReleased | releasedDown | noneReleased | releasedClear => rfl

theorem PauseOk.scroll {ok : Bool} (h : PauseOk s g) (hc : Unhurried s (.scroll ok))
    (hstep : scrollStep s ok = some t) : PauseOk t (noteCall g s (.scroll ok) t) := by
  have hcalls := scrollStep_calls hstep
  have hhushed : Hushed s → Hushed t := fun hq => hq.scroll h.inv hstep
  have hentered : g.entered = some .pause → Hushed t ∨ Running t .pause := by
    intro hg
    unfold Running
    rw [hcalls]
    exact (h.entered hg).imp hhushed id
  unfold noteCall
  dsimp only
  split
  · exact ⟨scrollStep_inv h.inv hc hstep, hentered, by nofun⟩
  · rename_i hs
    exact ⟨scrollStep_inv h.inv hc hstep, hentered, fun _ => Or.inr (Or.inr hs)⟩

theorem PauseOk.invoke {cmd : Cmd} (h : PauseOk s g) (hstep : playStep s (.invoke cmd) = some t) :
    PauseOk t (noteCall g s (.invoke cmd) t) := by
  have hinv := playStep_inv h.inv (a := .invoke cmd) trivial hstep
  cases hstep
  have hnew : cmd ∈ (s.calls ++ [(cmd, CallPc.readIndex)]).map Prod.fst := by
    rw [List.map_append]
    exact List.mem_append_right _ List.mem_cons_self
  have hold : ∀ c, Running s c → c ∈ (s.calls ++ [(cmd, CallPc.readIndex)]).map Prod.fst := by
    intro c hc
    rw [List.map_append]
    exact List.mem_append_left _ hc
  cases cmd with
  | play => exact ⟨hinv, by nofun, fun _ => Or.inr (Or.inl hnew)⟩
  | pause =>
    refine ⟨hinv, fun _ => Or.inr hnew, fun hg => ?_⟩
    rcases h.returned hg with hq | hplay | hscroll
    · refine Or.inl ⟨fun c hc => ?_, hq.swipe, hq.quiet⟩
      rcases List.mem_append.mp hc with hc | hc
      · exact hq.calls c hc
      · rw [List.mem_singleton.mp hc]
    · exact Or.inr (Or.inl (hold _ hplay))
    · exact Or.inr (Or.inr hscroll)

/-- The end of a call is not that of another one. -/
theorem running_eraseIdx {calls : List (Cmd × CallPc)} {n : Nat} {cmd other : Cmd} {pc : CallPc}
    (hn : calls[n]? = some (other, pc)) (hne : cmd ≠ other) (h : cmd ∈ calls.map Prod.fst) :
    cmd ∈ (calls.eraseIdx n).map Prod.fst := by
  obtain ⟨c, hc, rfl⟩ := List.mem_map.mp h
  obtain ⟨i, hi⟩ := List.mem_iff_getElem?.mp hc
  refine List.mem_map.mpr ⟨c, List.mem_eraseIdx_iff_getElem?.mpr ⟨i, ?_, hi⟩, rfl⟩
  rintro rfl
  rw [hn] at hi
  cases hi
  exact hne rfl

theorem PauseOk.call {n : Nat} (h : PauseOk s g) (hc : Calm s (.call n))
    (hstep : callStep s n = some t) : PauseOk t (noteCall g s (.call n) t) := by
  have hinv := callStep_inv h.inv hstep
  have hhushed : Hushed s → Hushed t := fun hq => hq.call h.inv hstep
  obtain ⟨cmd, pc, u, next, hn, hmove, rfl⟩ := callStep_move hstep
  have hlt := (List.getElem?_eq_some_iff.mp hn).1
  have hscroll : u.scroll = s.scroll := by
    cases pc with
    | crashed => cases hmove
    | readIndex | testMp | readMp | act =>
      cases hmove
      rfl
  unfold noteCall
  dsimp only
  cases next with
  | some pc' =>
    have hlen : ¬ (moveCall s.calls n cmd (some pc')).length < s.calls.length := by
      unfold moveCall
      rw [List.length_set]
      exact Nat.lt_irrefl _
    rw [if_neg hlen]
    refine h.within hinv hhushed ?_ hscroll
    show (s.calls.set n (cmd, pc')).map Prod.fst = _
    have hself : s.calls[n] = (cmd, pc) := (List.getElem?_eq_some_iff.mp hn).2
    rw [List.map_set, ← show s.calls[n].1 = cmd from congrArg Prod.fst hself,
      ← List.getElem_map Prod.fst (h := by rwa [List.length_map]), List.set_getElem_self]
  | none =>
    have hlen : (moveCall s.calls n cmd none).length < s.calls.length := by
      unfold moveCall
      rw [List.length_eraseIdx_of_lt hlt]
      omega
    rw [if_pos hlen, hn]
    cases cmd with
    | pause =>
      have hunopposed : Unopposed s pc := by
        have hcalm : CalmCall s s.calls[n]? := hc.2
        rw [hn] at hcalm
        exact hcalm
      have hq := hushed_pause (n := n) h.inv hmove hunopposed
      exact ⟨hinv, fun _ => Or.inl hq, fun _ => Or.inl hq⟩
    | play =>
      refine ⟨hinv, fun hg => (h.entered hg).imp hhushed ?_, by nofun⟩
      exact running_eraseIdx hn (by nofun)

theorem PauseOk.loop {n : Nat} (h : PauseOk s g) (hc : Unhurried s (.loop n))
    (hstep : loopStep s n = some t) : PauseOk t g := by
  obtain ⟨T, hT, _⟩ := loopStep_do hstep
  have hfound : T.loop = .spawned → (s.feed.pool T.slot).mp = some n := by
    have hin : BeginsInTime s n s.players[n]? := hc
    rw [hT] at hin
    exact hin
  obtain ⟨_, hscroll, hcalls, _⟩ := loopStep_effect hstep hT (h.inv.players n T hT).own hfound
  exact h.within (loopStep_inv h.inv hstep hc) (fun hq => hq.loop h.inv hc hstep)
    (congrArg _ hcalls) hscroll

theorem PauseOk.post {mp : Nat} {m : Msg} (h : PauseOk s g) (hc : Calm s (.post mp m))
    (hstep : playStep s (.post mp m) = some t) : PauseOk t g := by
  have hinv := post_inv h.inv hc.1 hstep
  have hhushed : Hushed s → Hushed t := fun hq => hq.post h.inv hc.2 hstep
  obtain ⟨_, _, _, rfl⟩ := post_cases hstep
  exact h.within hinv hhushed rfl rfl

/-- **One step.** -/
theorem PauseOk.step {a : PlayAct} (h : PauseOk s g) (hc : Calm s a)
    (hstep : playStep s a = some t) : PauseOk t (noteCall g s a t) := by
  cases a with
  | scrollTo index => exact h.scrollTo hstep
  | scroll ok => exact h.scroll hc.1 hstep
  | invoke cmd => exact h.invoke hstep
  | call n => exact h.call hc hstep
  | loop n => exact h.loop hc.1 hstep
  | post mp m => exact h.post hc hstep

theorem reach_pauseOk {urls : List String} {p : State × LastCalls}
    (h : (recorded urls).Reach (fun p => Calm p.1) p) : PauseOk p.1 p.2 := by
  refine h.invariant (I := fun p => PauseOk p.1 p.2) ⟨init_inv urls, by nofun, by nofun⟩ ?_
  intro u a v hu hc hs
  obtain ⟨hstep, hlast⟩ := Machine.watch_step_some hs
  rw [hlast]
  exact hu.step hc hstep

/-- At rest a hushed feed plays nothing. -/
theorem Hushed.noneStarted (h : Hushed s) (hi : Inv s) (hq : Quiescent s) :
    ∀ P ∈ s.players, P.mpState ≠ .started := by
  intro P hP hstarted
  obtain ⟨mp, hmp⟩ := List.mem_iff_getElem?.mp hP
  have hcurrent := (onlyCurrent_of_inv hi hq mp P hmp hstarted).1
  exact (h.quiet P (shown_eq_some.mpr ⟨mp, hcurrent, hmp⟩)).1
    (hi.willPlay_started hq hmp hstarted).2

/-- **A pause is kept** in every calm run: when it comes to rest and the call entered last, or the
    one returned last, was `viral_feed_pause`, no player is STARTED. -/
theorem pauseKept (urls : List String) {p : State × LastCalls}
    (h : (recorded urls).Reach (fun p => Calm p.1) p) (hq : Quiescent p.1)
    (hlast : p.2.entered = some .pause ∨ p.2.returned = some .pause) :
    ∀ P ∈ p.1.players, P.mpState ≠ .started := by
  have hok := reach_pauseOk h
  have hscroll := hq.1
  have hcalls := hq.2.1
  have hidle : ∀ cmd, ¬ Running p.1 cmd := by
    intro cmd hrun
    unfold Running at hrun
    rw [hcalls] at hrun
    cases hrun
  have hhushed : Hushed p.1 := by
    rcases hlast with hg | hg
    · exact (hok.entered hg).resolve_right (hidle _)
    · rcases hok.returned hg with hh | hrun | hs
      · exact hh
      · exact absurd hrun (hidle _)
      · exact absurd hscroll hs
  exact hhushed.noneStarted hok.inv hq

end Last

/-! ## 5. Two runs -/

/-- The first swipe of a feed of one video, to its end: the player is preparing. -/
def oneVideo : List PlayAct := .scrollTo 0 :: List.replicate 10 (.scroll true)

/-- A whole `viral_feed_pause`. -/
def pauseCall : List PlayAct := .invoke .pause :: List.replicate 4 (.call 0)

/-- PREPARED comes, and the loop delivers all messages. -/
def preparedAndStarted : List PlayAct := .post 0 .prepared :: List.replicate 24 (.loop 0)

/-- What is seen of a state: whether it is at rest, the last calls and the players' states. -/
def seenLast (p : State × LastCalls) : Bool × LastCalls × List MpState :=
  (decide (Quiescent p.1), p.2, p.1.players.map Player.mpState)

theorem pauseKept_started : ∃ p, (recorded ["a"]).Reach (fun p => Calm p.1) p ∧ Quiescent p.1 ∧
    p.2 = ⟨some .pause, some .pause⟩ ∧ p.1.players.map Player.mpState = [.paused] ∧
    ∀ P ∈ p.1.players, P.mpState ≠ .started := by
  have hseen : ((recorded ["a"]).exec (recorded ["a"]).init
      (oneVideo ++ preparedAndStarted ++ pauseCall ++ List.replicate 5 (.loop 0))).map seenLast =
      some (true, ⟨some .pause, some .pause⟩, [.paused]) := by decide
  have hmeets : (recorded ["a"]).meets (fun p => Calm p.1) (recorded ["a"]).init
      (oneVideo ++ preparedAndStarted ++ pauseCall ++ List.replicate 5 (.loop 0)) := by decide
  obtain ⟨p, hp, hobs⟩ := Option.map_eq_some_iff.mp hseen
  simp only [seenLast, Prod.mk.injEq, decide_eq_true_eq] at hobs
  obtain ⟨hq, hlast, hstates⟩ := hobs
  have hreach := Machine.steps_of_exec hp hmeets
  refine ⟨p, hreach, hq, hlast, hstates, pauseKept ["a"] hreach hq (Or.inl ?_)⟩
  rw [hlast]

/-- **The pause in front of PREPARED is lost**: the loop starts the player. -/
theorem pause_whilePreparing :
    ¬ ∀ p, (recorded ["a"]).Reach Machine.Any p → Quiescent p.1 →
      p.2.entered = some .pause → p.2.returned = some .pause →
      ∀ P ∈ p.1.players, P.mpState ≠ .started := by
  intro hall
  have hseen : ((recorded ["a"]).exec (recorded ["a"]).init
      (oneVideo ++ pauseCall ++ preparedAndStarted)).map seenLast =
      some (true, ⟨some .pause, some .pause⟩, [.started]) := by decide
  obtain ⟨p, hp, hobs⟩ := Option.map_eq_some_iff.mp hseen
  simp only [seenLast, Prod.mk.injEq, decide_eq_true_eq] at hobs
  obtain ⟨hq, hlast, hstates⟩ := hobs
  have hreach := Machine.steps_of_exec hp (Machine.meets_any _ _)
  have hstarted : MpState.started ∈ p.1.players.map Player.mpState := by
    rw [hstates]
    exact List.mem_cons_self
  obtain ⟨P, hP, hst⟩ := List.mem_map.mp hstarted
  exact hall p hreach hq (by rw [hlast]) (by rw [hlast]) P hP hst

end Viral.Feed
