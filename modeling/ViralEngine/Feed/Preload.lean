/-
  File:      ViralEngine/Feed/Preload.lean
  Subject:   THE START OF A PRELOADED VIDEO IS NOT LOST.

  `viral_feed_scroll_to` stores `current_index` and then reads the slot's `state`; the message
  loop stores READY and then reads `current_index`. Whichever comes second sees the other one's
  store and calls `ijkmp_start`.

  * `HasPlayer`, `OwnOnly` -- the player of the video, and the condition on the steps between the
    call and the end of both;
  * `Offered`, `Promised` -- in front of the swipe's read of the state, and behind it;
  * `offered_loop`, `promised_loop` -- a step of a loop keeps them;
  * `Inside`, `inside_step` -- the places of the swipe;
  * `startHandedOff` -- behind the swipe, a loop that has done with PREPARED leaves a player on
    which `ijkmp_start` was called since it has become prepared.
-/
import ViralEngine.Feed.Notes

namespace Viral.Feed

open Viral.Lib Viral.Ijk Viral.Ijk.Player

/-! ## 1. The condition -/

/-- The slot of the index holds this player for it. -/
def HasPlayer (s : State) (index : Int) (mp : Nat) : Prop :=
  (s.feed.slot index).mp = some mp ∧ (s.feed.slot index).feedIndex = index

/-- The loop works on the player that the slot of the index holds for it. -/
def WorksFor (s : State) (index : Int) (T : Player) : Prop :=
  T.target.isSome = true ∧ (s.feed.slot index).mp = T.target ∧
    (s.feed.slot index).feedIndex = index

/-- A thread of the slot handles no message of another player, and with COMPLETED or ERROR it does
    not wipe out READY. -/
def OwnHand (s : State) (index : Int) : Option Player → Prop
  | some T => T.slot = slotOf index → inHand T.loop = true →
      WorksFor s index T ∧ (T.loop = .handling .completed ∨ T.loop = .handling .error →
        (s.feed.slot index).state ≠ .ready)
  | none => True

/-- **The condition on a step**: no other swipe, and no message of a previous player of the slot
    is handled. -/
def OwnOnly (index : Int) (p : State × Notes) : PlayAct → Prop
  | .scrollTo _ => False
  | .loop n => OwnHand p.1 index p.1.players[n]?
  | _ => True

instance (s : State) (index : Int) (T : Player) : Decidable (WorksFor s index T) :=
  inferInstanceAs (Decidable (_ ∧ _ ∧ _))

instance (s : State) (index : Int) : ∀ o, Decidable (OwnHand s index o)
  | some _ => inferInstanceAs (Decidable (_ → _ → _ ∧ (_ → _)))
  | none => inferInstanceAs (Decidable True)

instance (index : Int) (p : State × Notes) : ∀ a, Decidable (OwnOnly index p a)
  | .scrollTo _ => inferInstanceAs (Decidable False)
  | .loop n => inferInstanceAs (Decidable (OwnHand p.1 index p.1.players[n]?))
  | .scroll _ | .invoke _ | .call _ | .post _ _ => inferInstanceAs (Decidable True)

/-! ## 2. In front of the read of the state, and behind it -/

/-- In front of the swipe's read: the player was started, READY is still to be stored, or the
    swipe will find it. -/
def Offered (s : State) (g : Notes) (index : Int) (mp : Nat) : Prop :=
  g.started mp = true ∨ Waiting s g mp ∨
    (s.feed.slot index).state = .ready ∧ g.prepared mp = true

/-- Behind it: the player was started, or the loop's test is still to come and finds the index. -/
def Promised (s : State) (g : Notes) (index : Int) (mp : Nat) : Prop :=
  g.started mp = true ∨ g.handled mp = false ∧
    ∀ (n : Nat) (T : Player), s.players[n]? = some T → T.target = some mp →
      ∀ f, T.loop = .testCurrent f → f = index

theorem promised_of_waiting {s : State} {g : Notes} {index : Int} {mp : Nat}
    (h : Waiting s g mp) : Promised s g index mp := by
  refine Or.inr ⟨h.1, fun n T hT htarget f hl => ?_⟩
  have hbeh := h.2 n T hT htarget
  rw [hl] at hbeh
  cases hbeh

section Steps

variable {s t : State} {g : Notes} {a : PlayAct} {index : Int} {mp : Nat}

theorem Noted.slot_of_target (h : Noted s g) {n : Nat} {T : Player} (hT : s.players[n]? = some T)
    (htarget : T.target = some mp) (hmp : HasPlayer s index mp) : T.slot = slotOf index := by
  obtain ⟨P, hP, hslot, _⟩ := (h.bound.players n T hT).target mp htarget
  obtain ⟨_, P', hP', hslot'⟩ := h.bound.slots _ mp hmp.1
  rw [Option.some.inj (hP'.symm.trans hP), hslot] at hslot'
  exact hslot'

theorem OffLoop.offered {g' : Notes} (hoff : OffLoop s t g')
    (hno : ∀ mp, leavesPrepared s a t mp = false)
    (hstate : (t.feed.slot index).state = (s.feed.slot index).state)
    (h : Offered s g index mp) : Offered t (takeNotes g s a t) index mp := by
  rcases h with hst | hw | ⟨hready, hprep⟩
  · exact Or.inl (takeNotes_keeps_started hst)
  · exact Or.inr (Or.inl (hoff.waiting hno hw))
  · exact Or.inr (Or.inr ⟨hstate.trans hready, takeNotes_keeps_prepared hprep⟩)

theorem OffLoop.promised {g' : Notes} (hoff : OffLoop s t g')
    (hno : ∀ mp, leavesPrepared s a t mp = false) (h : Promised s g index mp) :
    Promised t (takeNotes g s a t) index mp := by
  rcases h with hst | ⟨hhandled, htest⟩
  · exact Or.inl (takeNotes_keeps_started hst)
  · refine Or.inr ⟨(takeNotes_handled (hno mp)).trans hhandled, fun n T' hT' htarget f hl => ?_⟩
    obtain ⟨T, hT, hsame, hloop⟩ := hoff.hand hT' htarget
    exact htest n T hT hsame f (hloop.symm.trans hl)

/-- **A loop in front of the read**: READY is stored for the player, and what overwrites it is
    the PLAYING of a player that was started. -/
theorem offered_loop {n : Nat} (hn : Noted s g) (hstep : loopStep s n = some t)
    (hc : OwnHand s index s.players[n]?) (hmp : HasPlayer s index mp)
    (h : Offered s g index mp) : Offered t (takeNotes g s (.loop n) t) index mp := by
  obtain ⟨T, hT, _⟩ := loopStep_do hstep
  have hleaves := loopStep_leaves hstep hT
  have hstate := hleaves.state (slotOf index)
  rw [hT] at hc
  rcases h with hst | hw | ⟨hready, hprep⟩
  · exact Or.inl (takeNotes_keeps_started hst)
  · by_cases hstore : T.target = some mp ∧ T.loop = .handling .prepared
    · obtain ⟨htarget, hl⟩ := hstore
      have hslot := hn.slot_of_target hT htarget hmp
      have hhand := hn.hands n T mp hT htarget
      rw [hl] at hhand
      rw [if_pos hslot.symm, hl] at hstate
      exact Or.inr (Or.inr ⟨hstate, takeNotes_keeps_prepared hhand⟩)
    · refine Or.inr (Or.inl (hn.loopWaiting hstep hw fun U hU htarget hl => ?_))
      rw [hT] at hU
      cases hU
      exact hstore ⟨htarget, hl⟩
  · have hready' : (s.feed.pool (slotOf index)).state = .ready := hready
    have hkept : storeAt T.loop = none ∨ T.slot ≠ slotOf index ∨ storeAt T.loop = some .ready →
        Offered t (takeNotes g s (.loop n) t) index mp := by
      intro hk
      refine Or.inr (Or.inr ⟨?_, takeNotes_keeps_prepared hprep⟩)
      refine hstate.trans ?_
      rcases hk with e | e | e
      · rw [e, Option.getD_none, ite_self, hready']
      · rw [if_neg (Ne.symm e), hready']
      · rw [e, Option.getD_some, hready', ite_self]
    by_cases hslot : T.slot = slotOf index
    · cases hl : T.loop with
      | storePlaying =>
        obtain ⟨⟨_, hsame, _⟩, _⟩ := hc hslot (by rw [hl]; rfl)
        have hhand := hn.hands n T mp hT (hsame.symm.trans hmp.1)
        rw [hl] at hhand
        exact Or.inl (takeNotes_keeps_started hhand)
      | handling m =>
        have hcond := (hc hslot · |>.2)
        rw [hl] at hcond
        cases m with
        | completed => exact absurd hready (hcond rfl (Or.inl rfl))
        | error => exact absurd hready (hcond rfl (Or.inr rfl))
        | prepared => exact hkept (Or.inr (Or.inr (by rw [hl]; rfl)))
        | flush | bufferingStart | stateChanged | other | reqStart | reqPause =>
          exact hkept (Or.inl (by rw [hl]; rfl))
      | none | spawned | wait | got | fire | testIndex | testCurrent | start | ended | crashed =>
        exact hkept (Or.inl (by rw [hl]; rfl))
    · exact hkept (Or.inr (Or.inl hslot))

/-- **A loop behind the read**: its test finds the index, and the start is called. -/
theorem promised_loop {n : Nat} (hn : Noted s g) (hstep : loopStep s n = some t)
    (hcurrent : s.feed.currentIndex = index) (hmp : HasPlayer s index mp)
    (h : Promised s g index mp) : Promised t (takeNotes g s (.loop n) t) index mp := by
  obtain ⟨T, hT, _⟩ := loopStep_do hstep
  obtain ⟨T', hT', hnext, htarget'⟩ := (loopStep_leaves hstep hT).place
  rcases h with hst | ⟨hhandled, htest⟩
  · exact Or.inl (takeNotes_keeps_started hst)
  by_cases hstart : T.target = some mp ∧ T.loop = .start
  · obtain ⟨htarget, hl⟩ := hstart
    have hhand := hn.hands n T mp hT htarget
    rw [hl] at hhand
    refine Or.inl (takeNotes_started hhand ?_)
    unfold loopStep at hstep
    simp only [hT, Option.bind_eq_bind, Option.bind_some, hl, htarget, Option.some.injEq] at hstep
    rw [← hstep]
    rfl
  · refine Or.inr ⟨?_, fun j U hU htarget f hf => ?_⟩
    · rw [takeNotes_handled, hhandled]
      unfold leavesPrepared
      simp only [hT, hT']
      by_cases htarget : T.target = some mp
      · cases hbeh : behindReady T.loop with
        | false => rw [Bool.and_false, Bool.false_and]
        | true =>
          cases hbeh' : behindReady T'.loop with
          | true => rw [Bool.not_true, Bool.and_false]
          | false =>
            rcases hnext.leaves hbeh hbeh' with hl | ⟨f, hl, hne⟩
            · exact absurd ⟨htarget, hl⟩ hstart
            · exact absurd ((htest n T hT htarget f hl).trans hcurrent.symm) hne
      · rw [beq_eq_false_iff_ne.mpr htarget, Bool.false_and, Bool.false_and]
    · by_cases hj : j = n
      · subst hj
        have e : T' = U := Option.some.inj (hT'.symm.trans hU)
        subst e
        -- only the read of the slot's number leads to the test
        rw [hf] at hnext
        have hback := hnext.testCurrent
        have hsame := (htarget' (by rw [hback.1]; nofun)).symm.trans htarget
        rw [hback.2, hn.slot_of_target hT hsame hmp]
        exact hmp.2
      · obtain ⟨P, hP, _, hmoved⟩ := hn.loopTurns hstep hU
        obtain ⟨hloop, hsame⟩ := hmoved hj
        exact htest j P hP (hsame ▸ htarget) f (hloop.symm.trans hf)

end Steps

/-! ## 3. The places of the swipe -/

/-- The slot holds a player for the index, and the start of that player is under way or done. -/
def Kept (s : State) (g : Notes) (index : Int) : Prop :=
  ∃ mp, HasPlayer s index mp ∧ Promised s g index mp

/-- What holds at each place of a swipe. -/
def AtPlace (s : State) (g : Notes) (index : Int) : ScrollPc → Prop
  | .pausePrev _ | .play => ∀ mp, HasPlayer s index mp → Offered s g index mp
  | .start mp => HasPlayer s index mp ∧ (g.prepared mp = true ∨ Promised s g index mp)
  | .init 0 .source | .init 0 .preloading | .init 0 .prepare => Kept s g index
  | .init 0 _ => True
  | .init (i + 1) _ => i + 1 ≤ viralPreloadCount ∧ Kept s g index
  | .preload i => 1 ≤ i ∧ Kept s g index
  | .release | .releaseShutdown | .releaseClear => Kept s g index

/-- **Behind the entry of the swipe.** -/
structure Inside (s : State) (g : Notes) (index : Int) : Prop where
  noted : Noted s g
  current : s.feed.currentIndex = index
  valid : s.feed.Valid index
  place : ∀ j pc, s.scroll = some (j, pc) → j = index ∧ AtPlace s g index pc
  rest : s.scroll = none → Kept s g index

section Places

variable {s t : State} {g : Notes} {index : Int}

theorem HasPlayer.of_ring {mp : Nat} (hring : SameRing s t) (h : HasPlayer t index mp) :
    HasPlayer s index mp :=
  ⟨(hring.mp _).symm.trans h.1, (hring.feedIndex _).symm.trans h.2⟩

theorem HasPlayer.ring {mp : Nat} (hring : SameRing s t) (h : HasPlayer s index mp) :
    HasPlayer t index mp :=
  ⟨(hring.mp _).trans h.1, (hring.feedIndex _).trans h.2⟩

/-- A step beside the swipe keeps what its place says, if it does so for the player. -/
theorem AtPlace.beside {g' : Notes} {pc : ScrollPc} (hring : SameRing s t)
    (hprep : ∀ mp, g.prepared mp = true → g'.prepared mp = true)
    (hoffered : ∀ mp, HasPlayer s index mp → Offered s g index mp → Offered t g' index mp)
    (hpromised : ∀ mp, HasPlayer s index mp → Promised s g index mp → Promised t g' index mp)
    (h : AtPlace s g index pc) : AtPlace t g' index pc := by
  have hkept : Kept s g index → Kept t g' index := by
    rintro ⟨mp, hmp, hp⟩
    exact ⟨mp, hmp.ring hring, hpromised mp hmp hp⟩
  cases pc with
  | pausePrev prev | play =>
    intro mp hmp
    exact hoffered mp (hmp.of_ring hring) (h mp (hmp.of_ring hring))
  | start mp => exact ⟨h.1.ring hring, h.2.imp (hprep mp) (hpromised mp h.1)⟩
  | init i pc =>
    cases i with
    | zero => cases pc <;> first | exact hkept h | trivial
    | succ i => exact ⟨h.1, hkept h.2⟩
  | preload i => exact ⟨h.1, hkept h.2⟩
  | release | releaseShutdown | releaseClear => exact hkept h

theorem Inside.beside {a : PlayAct} (h : Inside s g index) (hn : Noted t (takeNotes g s a t))
    (hring : SameRing s t) (hscroll : t.scroll = s.scroll) (hurls : t.feed.urls = s.feed.urls)
    (hoffered : ∀ mp, HasPlayer s index mp → Offered s g index mp →
      Offered t (takeNotes g s a t) index mp)
    (hpromised : ∀ mp, HasPlayer s index mp → Promised s g index mp →
      Promised t (takeNotes g s a t) index mp) : Inside t (takeNotes g s a t) index where
  noted := hn
  current := hring.current.trans h.current
  valid := by
    unfold ViralFeed.Valid ViralFeed.urlCount
    rw [hurls]
    exact h.valid
  place j pc hs := by
    obtain ⟨hj, hplace⟩ := h.place j pc (hscroll.symm.trans hs)
    exact ⟨hj, hplace.beside hring (fun _ => takeNotes_keeps_prepared) hoffered hpromised⟩
  rest hs := by
    obtain ⟨mp, hmp, hp⟩ := h.rest (hscroll.symm.trans hs)
    exact ⟨mp, hmp.ring hring, hpromised mp hmp hp⟩

/-- The swipe goes on to its next place, or returns. -/
theorem Inside.on {ok : Bool} (h : Inside s g index)
    (hn : Noted t (takeNotes g s (.scroll ok) t))
    (hcurrent : t.feed.currentIndex = s.feed.currentIndex) (hurls : t.feed.urls = s.feed.urls)
    (hnext : match t.scroll with
      | some (j, pc) => j = index ∧ AtPlace t (takeNotes g s (.scroll ok) t) index pc
      | none => Kept t (takeNotes g s (.scroll ok) t) index) :
    Inside t (takeNotes g s (.scroll ok) t) index where
  noted := hn
  current := hcurrent.trans h.current
  valid := by
    unfold ViralFeed.Valid ViralFeed.urlCount
    rw [hurls]
    exact h.valid
  place j pc hs := by
    rw [hs] at hnext
    exact hnext
  rest hs := by
    rw [hs] at hnext
    exact hnext

/-- At the read of the state the swipe decides on what it finds. -/
theorem scrollStep_play {ok : Bool} {mp : Nat} (hstep : scrollStep s ok = some t)
    (hs : s.scroll = some (index, .play)) (hmp : HasPlayer s index mp) :
    t = s.goto index (if (s.feed.slot index).state = .ready ∨ (s.feed.slot index).state = .paused
      then .start mp else .preload 1) := by
  unfold scrollStep at hstep
  simp only [hs, hmp.1, Option.bind_eq_bind, Option.bind_some, hmp.2, if_true,
    Option.some.injEq] at hstep
  exact hstep.symm

/-- Another slot changes. -/
theorem HasPlayer.other {mp : Nat} {k : Slot} {vp : ViralPlayer} (h : HasPlayer s index mp)
    (hk : slotOf index ≠ k)
    (hpool : ∀ j, t.feed.pool j = if j = k then vp else s.feed.pool j) : HasPlayer t index mp := by
  have e : t.feed.slot index = s.feed.slot index := (hpool _).trans (if_neg hk)
  unfold HasPlayer
  rw [e]
  exact h

/-- A step of `viral_player_init_slot` for a video ahead touches another slot. -/
theorem initMove_other {ok : Bool} {i : Nat} {pc : InitPc} {mp : Nat}
    (hm : InitMove s index (i + 1) ok pc t) (hi : i + 1 ≤ viralPreloadCount)
    (h : HasPlayer s index mp) : HasPlayer t index mp := by
  have hk : slotOf index ≠ slotOf (index + ((i + 1 : Nat) : Int)) := by
    change i + 1 ≤ 2 at hi
    exact (slotOf_ahead (by omega) (show i + 1 < 5 by omega)).symm
  cases hm with
  | stopped | noneToStop | shutDown | noneToShutDown | sourced | noSource | prepared | noPrepare =>
    exact h
  | cleared => exact h.other hk fun _ => rfl
  | numbered _ => exact h.other hk fun _ => rfl
  | outside _ => exact h.other hk fun _ => rfl
  | created => exact h.other hk fun _ => rfl
  | preloading => exact h.other hk fun _ => rfl

/-- The places behind a step of `viral_player_init_slot`. -/
theorem initMove_next {ok : Bool} {i : Nat} {pc : InitPc} (hm : InitMove s index i ok pc t) :
    (∃ pc', t.scroll = some (index, .init i pc')) ∨ t.scroll = some (index, .preload (i + 1)) := by
  cases hm <;> first | exact Or.inl ⟨_, rfl⟩ | exact Or.inr rfl

/-- A player that is being made has not been worked on yet. -/
theorem Noted.promised_new {ok : Bool} (hn : Noted s g)
    (hoff : OffLoop s t (takeNotes g s (.scroll ok) t)) :
    Promised t (takeNotes g s (.scroll ok) t) index s.players.length := by
  have hnone : s.players[s.players.length]? = none := List.getElem?_eq_none (Nat.le_refl _)
  refine promised_of_waiting ⟨?_, fun n T' hT' htarget => ?_⟩
  · rw [takeNotes_handled rfl]
    cases hg : g.handled s.players.length with
    | false => rfl
    | true =>
      obtain ⟨P, hP, _⟩ := hn.handled _ hg
      rw [hnone] at hP
      cases hP
  · obtain ⟨T, hT, hsame, _⟩ := hoff.hand hT' htarget
    obtain ⟨Q, hQ, _⟩ := (hn.bound.players n T hT).target _ hsame
    rw [hnone] at hQ
    cases hQ

theorem hasPlayer_zero {mp : Nat} :
    HasPlayer s (index + ((0 : Nat) : Int)) mp ↔ HasPlayer s index mp := by
  have e0 : index + ((0 : Nat) : Int) = index := by omega
  rw [e0]

/-- The video itself is prepared anew. -/
theorem Inside.initHere {ok : Bool} {pc : InitPc} (h : Inside s g index)
    (hs : s.scroll = some (index, .init 0 pc)) (hm : InitMove s index 0 ok pc t)
    (hn : Noted t (takeNotes g s (.scroll ok) t))
    (hoff : OffLoop s t (takeNotes g s (.scroll ok) t)) :
    Inside t (takeNotes g s (.scroll ok) t) index := by
  have e0 : index + ((0 : Nat) : Int) = index := by omega
  have hplace := (h.place _ _ hs).2
  have hinit := h.noted.bound.initBound hs
  have hkeep : ∀ mp, HasPlayer t index mp → Promised s g index mp →
      Kept t (takeNotes g s (.scroll ok) t) index :=
    fun mp hmp hp => ⟨mp, hmp, hoff.promised (fun _ => rfl) hp⟩
  cases hm with
  | stopped | noneToStop | shutDown | noneToShutDown | cleared | numbered _ =>
    exact h.on hn rfl rfl ⟨rfl, trivial⟩
  | outside hout =>
    rw [e0] at hout
    exact absurd h.valid hout
  | created =>
    refine h.on hn rfl rfl ⟨rfl, s.players.length, hasPlayer_zero.mp ⟨?_, ?_⟩,
      h.noted.promised_new hoff⟩
    · exact congrArg ViralPlayer.mp (setVp_slot_self _ (index + ((0 : Nat) : Int)) _)
    · exact (congrArg ViralPlayer.feedIndex
        (setVp_slot_self _ (index + ((0 : Nat) : Int)) _)).trans hinit.2
  | sourced _ _ | noSource _ | prepared _ _ | noPrepare _ =>
    obtain ⟨mp, hmp, hp⟩ := hplace
    refine h.on hn rfl rfl ⟨rfl, ?_⟩
    first | exact hkeep mp hmp hp | exact ⟨Nat.le_refl 1, hkeep mp hmp hp⟩
  | preloading =>
    obtain ⟨mp, hmp, hp⟩ := hplace
    refine h.on hn rfl rfl ⟨rfl, hkeep mp (hmp.ring ?_) hp⟩
    have hring := sameRing_storeState s (slotOf (index + ((0 : Nat) : Int))) .preloading
    exact ⟨hring.mp, hring.feedIndex, hring.current⟩

/-- **A step of the swipe.** -/
theorem Inside.swipe {ok : Bool} (h : Inside s g index) (hstep : scrollStep s ok = some t) :
    Inside t (takeNotes g s (.scroll ok) t) index := by
  have hplay : playStep s (.scroll ok) = some t := hstep
  have hn := playStep_noted h.noted hplay
  have hoff : OffLoop s t (takeNotes g s (.scroll ok) t) := scrollStep_offLoop h.noted hstep
  have hno : ∀ mp, leavesPrepared s (.scroll ok) t mp = false := fun _ => rfl
  obtain ⟨j, pc, hs, hm⟩ := scrollStep_cases hstep
  obtain ⟨rfl, hplace⟩ := h.place j pc hs
  have hkeep : Kept s g j → (∀ mp, HasPlayer s j mp → HasPlayer t j mp) →
      Kept t (takeNotes g s (.scroll ok) t) j := by
    rintro ⟨mp, hmp, hp⟩ hkeeps
    exact ⟨mp, hkeeps mp hmp, hoff.promised hno hp⟩
  have hoffered : t.feed.pool = s.feed.pool → AtPlace s g j (.pausePrev 0) →
      ∀ mp, HasPlayer t j mp → Offered t (takeNotes g s (.scroll ok) t) j mp := by
    intro hpool hp mp hmp
    have hslot : t.feed.slot j = s.feed.slot j := congrFun hpool _
    refine hoff.offered hno (congrArg ViralPlayer.state hslot) (hp mp ?_)
    unfold HasPlayer at hmp ⊢
    rw [← hslot]
    exact hmp
  cases hm with
  | paused prev mp _ hmp => exact h.on hn rfl rfl ⟨rfl, hoffered rfl hplace⟩
  | notPaused prev _ => exact h.on hn rfl rfl ⟨rfl, hoffered rfl hplace⟩
  | found mp next hmp hidx hnext =>
    have hhas : HasPlayer s j mp := ⟨hmp, hidx⟩
    have ht := scrollStep_play hstep hs hhas
    have hoffer := hplace mp hhas
    have e := congrArg State.scroll ht
    change some (j, next) = some (j, _) at e
    have hnext' := (Prod.mk.inj (Option.some.inj e)).2
    refine h.on hn rfl rfl ⟨rfl, ?_⟩
    show AtPlace _ _ j next
    rw [hnext']
    split
    · -- the start is called now
      refine ⟨hhas, ?_⟩
      rcases hoffer with hst | hw | ⟨_, hprep⟩
      · exact Or.inr (Or.inl (takeNotes_keeps_started hst))
      · exact Or.inr (hoff.promised hno (promised_of_waiting hw))
      · exact Or.inl (takeNotes_keeps_prepared hprep)
    · rename_i hnot
      refine ⟨Nat.le_refl 1, mp, hhas, ?_⟩
      rcases hoffer with hst | hw | ⟨hready, _⟩
      · exact Or.inl (takeNotes_keeps_started hst)
      · exact hoff.promised hno (promised_of_waiting hw)
      · exact absurd (Or.inl hready) hnot
  | missing _ => exact h.on hn rfl rfl ⟨rfl, trivial⟩
  | started mp =>
    obtain ⟨hhas, hp⟩ := hplace
    refine h.on hn rfl rfl ⟨rfl, Nat.le_refl 1, mp, hhas, ?_⟩
    rcases hp with hprep | hp
    · exact Or.inl (takeNotes_started hprep rfl)
    · exact hoff.promised hno hp
  | init i pc _ hinit =>
    cases i with
    | zero => exact h.initHere hs hinit hn hoff
    | succ i =>
      obtain ⟨hi, hk⟩ := hplace
      have hk' := hkeep hk fun mp hmp => initMove_other hinit hi hmp
      have hframe : t.feed.currentIndex = s.feed.currentIndex ∧ t.feed.urls = s.feed.urls := by
        cases hinit <;> exact ⟨rfl, rfl⟩
      refine h.on hn hframe.1 hframe.2 ?_
      rcases initMove_next hinit with ⟨pc', e⟩ | e
      · rw [e]
        exact ⟨rfl, hi, hk'⟩
      · rw [e]
        exact ⟨rfl, by omega, hk'⟩
  | preloadDone i _ => exact h.on hn rfl rfl ⟨rfl, hkeep hplace.2 fun _ hmp => hmp⟩
  | preloadNext i hmore _ =>
    obtain ⟨hi, hk⟩ := hplace
    obtain ⟨i, rfl⟩ : ∃ m, i = m + 1 := ⟨i - 1, by omega⟩
    exact h.on hn rfl rfl ⟨rfl, by omega, hkeep hk fun _ hmp => hmp⟩
  | preloadSkip i _ _ =>
    exact h.on hn rfl rfl ⟨rfl, by omega, hkeep hplace.2 fun _ hmp => hmp⟩
  | released mp _ _ => exact h.on hn rfl rfl ⟨rfl, hkeep hplace fun _ hmp => hmp⟩
  | notReleased _ => exact h.on hn rfl rfl (hkeep hplace fun _ hmp => hmp)
  | releasedDown mp _ => exact h.on hn rfl rfl ⟨rfl, hkeep hplace fun _ hmp => hmp⟩
  | noneReleased _ => exact h.on hn rfl rfl ⟨rfl, hkeep hplace fun _ hmp => hmp⟩
  | releasedClear =>
    exact h.on hn rfl rfl (hkeep hplace fun _ hmp => hmp.other slotOf_released fun _ => rfl)

/-- A step of a call without the lock, or of a player's own threads. -/
theorem aside_frame {a : PlayAct} (hstep : playStep s a = some t)
    (ha : (∃ c, a = .invoke c) ∨ (∃ n, a = .call n) ∨ ∃ mp m, a = .post mp m) :
    t.feed.pool = s.feed.pool ∧ t.feed.currentIndex = s.feed.currentIndex ∧
      t.feed.urls = s.feed.urls ∧ t.scroll = s.scroll := by
  rcases ha with ⟨c, rfl⟩ | ⟨n, rfl⟩ | ⟨mp, m, rfl⟩
  · cases hstep
    exact ⟨rfl, rfl, rfl, rfl⟩
  · cases callStep_cases hstep with
    | read | act => exact ⟨rfl, rfl, rfl, rfl⟩
  · obtain ⟨_, _, _, rfl⟩ := post_cases hstep
    exact ⟨rfl, rfl, rfl, rfl⟩

/-- **A step beside the swipe**, in front of its entry or behind it. -/
structure Between (s t : State) (g g' : Notes) (index : Int) : Prop where
  ring : SameRing s t
  scroll : t.scroll = s.scroll
  urls : t.feed.urls = s.feed.urls
  offered : ∀ mp, HasPlayer s index mp → Offered s g index mp → Offered t g' index mp
  promised : s.feed.currentIndex = index → ∀ mp, HasPlayer s index mp →
    Promised s g index mp → Promised t g' index mp

theorem between {a : PlayAct} (hn : Noted s g) (hstep : playStep s a = some t)
    (hc : OwnOnly index (s, g) a) (hno : ∀ ok, a ≠ .scroll ok) :
    Between s t g (takeNotes g s a t) index := by
  have haside : ((∃ c, a = .invoke c) ∨ (∃ n, a = .call n) ∨ ∃ mp m, a = .post mp m) →
      Between s t g (takeNotes g s a t) index := by
    intro ha
    obtain ⟨hpool, hcurrent, hurls, hscroll⟩ := aside_frame hstep ha
    have hloop : ∀ n, a ≠ .loop n := by
      rintro n rfl
      rcases ha with ⟨_, e⟩ | ⟨_, e⟩ | ⟨_, _, e⟩ <;> cases e
    have hoff := playStep_offLoop hn hstep hloop
    exact ⟨⟨fun k => by rw [hpool], fun k => by rw [hpool], hcurrent⟩, hscroll, hurls,
      fun mp _ => hoff.offered (leavesPrepared_offLoop hloop)
        (congrArg ViralPlayer.state (congrFun hpool _)),
      fun _ mp _ => hoff.promised (leavesPrepared_offLoop hloop)⟩
  cases a with
  | scrollTo => exact hc.elim
  | scroll ok => exact absurd rfl (hno ok)
  | invoke c => exact haside (Or.inl ⟨c, rfl⟩)
  | call n => exact haside (Or.inr (Or.inl ⟨n, rfl⟩))
  | post mp m => exact haside (Or.inr (Or.inr ⟨mp, m, rfl⟩))
  | loop n =>
    obtain ⟨T, hT, _⟩ := loopStep_do hstep
    have hleaves := loopStep_leaves hstep hT
    exact ⟨hleaves.ring, hleaves.scroll, hleaves.urls,
      fun mp hmp => offered_loop hn hstep hc hmp,
      fun hcurrent mp hmp => promised_loop hn hstep hcurrent hmp⟩

/-- **One step behind the entry.** -/
theorem inside_step {a : PlayAct} (h : Inside s g index) (hc : OwnOnly index (s, g) a)
    (hstep : playStep s a = some t) : Inside t (takeNotes g s a t) index := by
  by_cases hsw : ∃ ok, a = .scroll ok
  · obtain ⟨ok, rfl⟩ := hsw
    exact h.swipe hstep
  · have hb := between h.noted hstep hc fun ok e => hsw ⟨ok, e⟩
    exact h.beside (playStep_noted h.noted hstep) hb.ring hb.scroll hb.urls hb.offered
      (hb.promised h.current)

/-- In front of the entry: no call holds the lock. -/
structure InFront (s : State) (g : Notes) (index : Int) : Prop where
  noted : Noted s g
  idle : s.scroll = none
  valid : s.feed.Valid index
  offered : ∀ mp, HasPlayer s index mp → Offered s g index mp

theorem inFront_step {a : PlayAct} (h : InFront s g index) (hc : OwnOnly index (s, g) a)
    (hstep : playStep s a = some t) : InFront t (takeNotes g s a t) index := by
  have hno : ∀ ok, a ≠ .scroll ok := by
    rintro ok rfl
    obtain ⟨j, pc, hs, _⟩ := scrollStep_cases hstep
    rw [h.idle] at hs
    cases hs
  have hb := between h.noted hstep hc hno
  refine ⟨playStep_noted h.noted hstep, hb.scroll.trans h.idle, ?_, fun mp hmp => ?_⟩
  · unfold ViralFeed.Valid ViralFeed.urlCount
    rw [hb.urls]
    exact h.valid
  · exact hb.offered mp (hmp.of_ring hb.ring) (h.offered mp (hmp.of_ring hb.ring))

theorem InFront.enter (h : InFront s g index) (hstep : playStep s (.scrollTo index) = some t) :
    Inside t (takeNotes g s (.scrollTo index) t) index := by
  have hn := playStep_noted h.noted hstep
  have hoff : OffLoop s t (takeNotes g s (.scrollTo index) t) :=
    playStep_offLoop h.noted hstep (by nofun)
  change enterScroll s index = some t at hstep
  unfold enterScroll at hstep
  rw [if_pos h.valid, h.idle] at hstep
  cases hstep
  refine ⟨hn, rfl, h.valid, fun j pc hs => ?_, by nofun⟩
  cases hs
  exact ⟨rfl, fun mp hmp => hoff.offered (fun _ => rfl) rfl (h.offered mp hmp)⟩

end Places

/-! ## 4. The hand-off -/

/-- **The start of a preloaded video is not lost.** At `p` a call of `scroll_to(index)` comes,
    and the slot has no live player for it or one still in PRELOADING; the steps of that call and
    of everything else then interleave in any way, without another swipe and without a message of
    a previous player of the slot being handled. When the call has returned, the slot has a player
    for the index, and if a loop has done with its PREPARED message, `ijkmp_start` was called on it
    since it has become prepared. -/
theorem startHandedOff (urls : List String) {index : Int} {p q r u : State × Notes}
    (hp : (watched urls).Reach Machine.Any p) (hidle : p.1.scroll = none)
    (hvalid : p.1.feed.Valid index)
    (hfound : ¬ LiveAt p.1.feed index ∨ (p.1.feed.slot index).state = .preloading)
    (hbefore : (watched urls).Steps (OwnOnly index) p q)
    (hcall : (watched urls).step q (.scrollTo index) = some r)
    (hafter : (watched urls).Steps (OwnOnly index) r u) (hdone : u.1.scroll = none) :
    ∃ mp, HasPlayer u.1 index mp ∧ (u.2.handled mp = true → u.2.started mp = true) := by
  have hnp := reach_noted hp
  have hfront : InFront q.1 q.2 index := by
    refine hbefore.invariant (I := fun p => InFront p.1 p.2 index)
      ⟨hnp, hidle, hvalid, fun mp hmp => ?_⟩ fun v a w hv hc hs => ?_
    · rcases hfound with hdead | hloading
      · exact absurd ⟨by rw [hmp.1]; rfl, hmp.2⟩ hdead
      · exact Or.inr (Or.inl (hnp.loading _ mp hmp.1 hloading))
    · obtain ⟨hstep, hnotes⟩ := Machine.watch_step_some hs
      rw [hnotes]
      exact inFront_step hv hc hstep
  have hinside : Inside u.1 u.2 index := by
    refine hafter.invariant (I := fun p => Inside p.1 p.2 index) ?_ fun v a w hv hc hs => ?_
    · obtain ⟨hstep, hnotes⟩ := Machine.watch_step_some hcall
      rw [hnotes]
      exact hfront.enter hstep
    · obtain ⟨hstep, hnotes⟩ := Machine.watch_step_some hs
      rw [hnotes]
      exact inside_step hv hc hstep
  obtain ⟨mp, hmp, hst | ⟨hno, _⟩⟩ := hinside.rest hdone
  · exact ⟨mp, hmp, fun _ => hst⟩
  · refine ⟨mp, hmp, fun hyes => ?_⟩
    rw [hno] at hyes
    cases hyes

/-- No step of the case of PREPARED waits for anything. -/
theorem casePrepared_goesOn {s : State} {n : Nat} {T : Player} (h : Bound s)
    (hT : s.players[n]? = some T)
    (hl : T.loop = .handling .prepared ∨ behindReady T.loop = true) :
    ∃ t, loopStep s n = some t := by
  unfold loopStep
  simp only [hT, Option.bind_eq_bind, Option.bind_some]
  rcases hl with hl | hl
  · rw [hl]
    exact ⟨_, rfl⟩
  · cases hpc : T.loop with
    | start =>
      obtain ⟨mp, htarget⟩ := (h.players n T hT).aimed (by rw [hpc]; rfl)
      rw [htarget]
      exact ⟨_, rfl⟩
    | fire | testIndex | testCurrent => exact ⟨_, rfl⟩
    | none | spawned | wait | got | handling | storePlaying | ended | crashed =>
      rw [hpc] at hl
      cases hl

/-- The first swipe of a feed of two videos, to its end. -/
def firstVideo : List PlayAct := .scrollTo 0 :: List.replicate 17 (.scroll true)

/-- The second video's loop, up to behind its test, which finds the first video current. -/
def secondPrepared : List PlayAct := .post 1 .prepared :: List.replicate 10 (.loop 1)

/-- The rest of the swipe to the second video. -/
def secondShown : List PlayAct := List.replicate 5 (.scroll true)

/-- The slot of the second video is found in PRELOADING, its loop stores READY and tests in vain,
    and then the swipe comes. -/
def handedOver : Bool :=
  ((watched ["a", "b"]).exec (watched ["a", "b"]).init firstVideo).any fun p =>
    decide (p.1.scroll = none ∧ p.1.feed.Valid 1 ∧ (p.1.feed.slot 1).state = .preloading ∧
      (watched ["a", "b"]).meets (OwnOnly 1) p secondPrepared) &&
    ((watched ["a", "b"]).exec p secondPrepared).any fun q =>
      ((watched ["a", "b"]).step q (.scrollTo 1)).any fun r =>
        decide ((watched ["a", "b"]).meets (OwnOnly 1) r secondShown) &&
        ((watched ["a", "b"]).exec r secondShown).any fun u =>
          decide (u.1.scroll = none ∧ (u.1.feed.slot 1).mp = some 1 ∧ u.2.handled 1 = true)

theorem startHandedOff_second : ∃ u, (watched ["a", "b"]).Reach Machine.Any u ∧
    HasPlayer u.1 1 1 ∧ u.2.handled 1 = true ∧ u.2.started 1 = true := by
  have hseen : handedOver = true := by decide
  unfold handedOver at hseen
  simp only [Option.any_eq_true, Bool.and_eq_true, decide_eq_true_eq] at hseen
  obtain ⟨p, hp, ⟨hidle, hvalid, hfound, hm⟩, q, hq, r, hr, hm', u, hu, hdone, hmp, hhandled⟩ :=
    hseen
  have hpreach := Machine.steps_of_exec hp (Machine.meets_any _ _)
  have hbefore := Machine.steps_of_exec hq hm
  have hafter := Machine.steps_of_exec hu hm'
  obtain ⟨mp, hhas, hstarted⟩ :=
    startHandedOff ["a", "b"] hpreach hidle hvalid (Or.inr hfound) hbefore hr hafter hdone
  have e : mp = 1 := Option.some.inj (hhas.1.symm.trans hmp)
  subst e
  have hany : ∀ v a, OwnOnly 1 v a → Machine.Any v a := fun _ _ _ => trivial
  refine ⟨u, ?_, hhas, hhandled, hstarted hhandled⟩
  exact Machine.Steps.trans hpreach
    (Machine.Steps.trans (.step q r _ (hbefore.mono hany) trivial hr) (hafter.mono hany))

end Viral.Feed
