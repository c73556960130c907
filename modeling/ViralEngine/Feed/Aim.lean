/-
  File:      ViralEngine/Feed/Aim.lean
  Subject:   WHERE A START MAY AIM: THE INVARIANT OF THE FEED AND ITS MESSAGE LOOPS.

  A start under way aims at the slot of the current video, or at the slot of the previous one
  while the swipe that moved the index has not paused it yet. The pause cancels what is pending
  then; a start that reaches the player behind it cancels the pause.

  * `Aim` -- the slots a start may aim at;
  * `Unhurried` -- the condition on a run: no start of the previous video is under way when a
    swipe pauses it, no player resumes of its own behind that pause, and a message loop begins
    before its slot is recycled;
  * `Inv` -- the invariant: players (`PlayerOk`), slots (`SlotOk`), calls (`CallOk`) and the place
    of the swipe (`ScrollOk`);
  * `Beside`, `Inv.beside`, `Inv.change` -- steps that leave the ring and the swipe's place.
-/
import ViralEngine.Feed.Playback

namespace Viral.Feed

open Viral.Lib Viral.Ijk Viral.Ijk.Player

/-! ## 1. The condition -/

/-- The slots a start may aim at. -/
def Aim (s : State) (k : Slot) : Prop :=
  (0 ≤ s.feed.currentIndex ∧ k = slotOf s.feed.currentIndex) ∨
    ∃ index prev, s.scroll = some (index, .pausePrev prev) ∧ 0 ≤ prev ∧ k = slotOf prev

/-- A start of the player in a slot is under way: its loop has passed its test, or a call of
    `viral_feed_play` has computed the slot. -/
def startUnderWay (s : State) (k : Slot) : Bool :=
  s.calls.contains (.play, .testMp k) || s.calls.contains (.play, .readMp k) ||
    match (s.feed.pool k).mp with
    | some mp => s.calls.contains (.play, .act mp) ||
        s.players[mp]?.any fun P => P.loop == .start
    | none => false

/-- No start of the previous video is under way when the swipe pauses it. A previous video in the
    slot of the new one is stopped, not only paused. -/
def PauseClear (s : State) : Option (Int × ScrollPc) → Prop
  | some (index, .pausePrev prev) =>
    0 ≤ prev → slotOf prev ≠ slotOf index → startUnderWay s (slotOf prev) = false
  | _ => True

/-- A message loop that begins finds its own player in the slot. -/
def BeginsInTime (s : State) (t : Nat) : Option Player → Prop
  | some P => P.loop = .spawned → (s.feed.pool P.slot).mp = some t
  | none => True

/-- A player that resumes of its own (`auto_resume`) is still aimed at. -/
def ResumesInTime (s : State) (m : Msg) : Option Player → Prop
  | some P => m = .reqStart → P.aborted = false → Aim s P.slot
  | none => True

/-- **The condition on a step.** -/
def Unhurried (s : State) : PlayAct → Prop
  | .scroll _ => PauseClear s s.scroll
  | .loop t => BeginsInTime s t s.players[t]?
  | .post mp m => ResumesInTime s m s.players[mp]?
  | _ => True

/-- The slot of the video a swipe is about to pause. -/
def prevSlot : Option (Int × ScrollPc) → Option Slot
  | some (_, .pausePrev prev) => if 0 ≤ prev then some (slotOf prev) else none
  | _ => none

theorem prevSlot_eq_some {p : Option (Int × ScrollPc)} {k : Slot} : prevSlot p = some k ↔
    ∃ index prev, p = some (index, .pausePrev prev) ∧ 0 ≤ prev ∧ k = slotOf prev := by
  constructor
  · intro h
    unfold prevSlot at h
    split at h
    · rename_i index prev
      split at h
      · rename_i hprev
        exact ⟨index, prev, rfl, hprev, (Option.some.inj h).symm⟩
      · cases h
    · cases h
  · rintro ⟨index, prev, rfl, hprev, rfl⟩
    exact if_pos hprev

instance (s : State) (k : Slot) : Decidable (Aim s k) :=
  decidable_of_iff ((0 ≤ s.feed.currentIndex ∧ k = slotOf s.feed.currentIndex) ∨
    prevSlot s.scroll = some k) (or_congr_right prevSlot_eq_some)

instance (s : State) : ∀ p, Decidable (PauseClear s p)
  | some (_, .pausePrev _) => inferInstanceAs (Decidable (_ → _ → _))
  | some (_, .play) | some (_, .start _) | some (_, .init _ _) | some (_, .preload _)
  | some (_, .release) | some (_, .releaseShutdown) | some (_, .releaseClear) | none =>
    inferInstanceAs (Decidable True)

instance (s : State) (t : Nat) : ∀ P, Decidable (BeginsInTime s t P)
  | some _ => inferInstanceAs (Decidable (_ → _))
  | none => inferInstanceAs (Decidable True)

instance (s : State) (m : Msg) : ∀ P, Decidable (ResumesInTime s m P)
  | some _ => inferInstanceAs (Decidable (_ → _ → _))
  | none => inferInstanceAs (Decidable True)

instance (s : State) : ∀ a, Decidable (Unhurried s a)
  | .scroll _ => inferInstanceAs (Decidable (PauseClear s s.scroll))
  | .loop t => inferInstanceAs (Decidable (BeginsInTime s t s.players[t]?))
  | .post mp m => inferInstanceAs (Decidable (ResumesInTime s m s.players[mp]?))
  | .scrollTo _ | .invoke _ | .call _ => inferInstanceAs (Decidable True)

/-! ## 2. The invariant -/

/-- The swipe is making this player. -/
def Making (s : State) (mp : Nat) : Prop :=
  match s.scroll with
  | some (index, .init i .source) | some (index, .init i .preloading)
  | some (index, .init i .prepare) => (s.feed.slot (index + i)).mp = some mp
  | _ => False

/-- What holds of a player. -/
structure PlayerOk (s : State) (mp : Nat) (P : Player) : Prop where
  sound : LocalOk P
  home : Gone P ∨ (s.feed.pool P.slot).mp = some mp
  unborn : P.loop = .none → Making s mp
  own : P.loop ≠ .none → P.loop ≠ .spawned → P.target = some mp
  tested : ∀ f, P.loop = .testCurrent f → Gone P ∨ 0 ≤ f ∧ slotOf f = P.slot
  starting : P.loop = .start → Gone P ∨ Aim s P.slot
  playing : WillPlay P → Aim s P.slot

/-- A live player sits in the slot it was given, and the slot's number belongs there. -/
def SlotOk (s : State) : Prop :=
  ∀ k mp, (s.feed.pool k).mp = some mp →
    (0 ≤ (s.feed.pool k).feedIndex ∧ slotOf (s.feed.pool k).feedIndex = k) ∧
      ∃ P, s.players[mp]? = some P ∧ P.slot = k

/-- What holds at each place of a play or pause. -/
def CallOk (s : State) : Cmd × CallPc → Prop
  | (.play, .testMp k) | (.play, .readMp k) => Aim s k
  | (.play, .act mp) => ∃ P, s.players[mp]? = some P ∧ (Gone P ∨ Aim s P.slot)
  | _ => True

/-- The slot of an index carries its number. -/
def Numbered (s : State) (index : Int) : Prop := (s.feed.slot index).feedIndex = index

/-- What holds of the player in the slot of an index, if there is one. -/
def Occupant (s : State) (index : Int) (φ : Player → Prop) : Prop :=
  ∀ mp P, (s.feed.slot index).mp = some mp → s.players[mp]? = some P → φ P

/-- The slot of an index carries its number and holds exactly this player. -/
def Holds (s : State) (index : Int) (P : Player) : Prop :=
  Numbered s index ∧ ∃ mp, (s.feed.slot index).mp = some mp ∧ s.players[mp]? = some P

/-- What holds at each place of the renewal of a slot. -/
def InitOk (s : State) (next : Int) : InitPc → Prop
  | .stop => True
  | .shutdown => Occupant s next Settled
  | .clear => Occupant s next Gone
  | .number => (s.feed.slot next).mp = none
  | .create => (s.feed.slot next).mp = none ∧ Numbered s next
  | .source => Holds s next (Player.create (slotOf next))
  | .preloading | .prepare => Holds s next (initialized (slotOf next))

/-- What holds at each place of a swipe. -/
def PlaceOk (s : State) (index : Int) : ScrollPc → Prop
  | .pausePrev prev => 0 ≤ prev → Numbered s prev
  | .play => True
  | .start mp => Numbered s index ∧ (s.feed.slot index).mp = some mp
  | .init i pc => i ≤ viralPreloadCount ∧ (i ≠ 0 → Numbered s index) ∧ InitOk s (index + i) pc
  | .preload i => 1 ≤ i ∧ Numbered s index
  | .release => Numbered s index
  | .releaseShutdown => Numbered s index ∧ Occupant s (releaseBefore index) Settled
  | .releaseClear => Numbered s index ∧ Occupant s (releaseBefore index) Gone

/-- What holds of the swipe, and of the current index where there is none. -/
def ScrollOk (s : State) : Prop :=
  match s.scroll with
  | none => -1 ≤ s.feed.currentIndex ∧
      (0 ≤ s.feed.currentIndex → Numbered s s.feed.currentIndex)
  | some (index, pc) => s.feed.currentIndex = index ∧ 0 ≤ index ∧ PlaceOk s index pc

/-- **The invariant.** -/
structure Inv (s : State) : Prop where
  players : ∀ mp P, s.players[mp]? = some P → PlayerOk s mp P
  slots : SlotOk s
  calls : ∀ c ∈ s.calls, CallOk s c
  scroll : ScrollOk s

/-! ## 3. Steps beside the swipe -/

/-- The slots keep their players and numbers, and the index stays. -/
structure SameRing (s t : State) : Prop where
  mp : ∀ k, (t.feed.pool k).mp = (s.feed.pool k).mp
  feedIndex : ∀ k, (t.feed.pool k).feedIndex = (s.feed.pool k).feedIndex
  current : t.feed.currentIndex = s.feed.currentIndex

/-- A step beside the swipe: the ring and the swipe's place stay, the players follow. -/
structure Beside (s t : State) : Prop where
  ring : SameRing s t
  scroll : t.scroll = s.scroll
  players : ∀ (mp : Nat) (P : Player), s.players[mp]? = some P →
    ∃ Q, t.players[mp]? = some Q ∧ Follows P Q

section Frames

variable {s t : State}

theorem sameRing_of_feed (h : t.feed = s.feed) : SameRing s t := by
  refine ⟨?_, ?_, ?_⟩ <;> simp [h]

theorem sameRing_storeState (s : State) (k : Slot) (state : ViralState) :
    SameRing s (s.storeState k state) := by
  have hpool : ∀ j, (s.storeState k state).feed.pool j =
      if j = k then { s.feed.pool k with state := state } else s.feed.pool j := fun _ => rfl
  refine ⟨?_, ?_, rfl⟩
  · intro j
    rw [hpool]
    by_cases e : j = k
    · rw [if_pos e, e]
    · rw [if_neg e]
  · intro j
    rw [hpool]
    by_cases e : j = k
    · rw [if_pos e, e]
    · rw [if_neg e]

/-- The aims depend on the index and the swipe's place. -/
theorem aim_congr (hc : t.feed.currentIndex = s.feed.currentIndex) (hs : t.scroll = s.scroll)
    {k : Slot} : Aim t k ↔ Aim s k := by
  unfold Aim
  rw [hc, hs]

theorem numbered_congr (h : SameRing s t) {index : Int} : Numbered t index ↔ Numbered s index := by
  unfold Numbered ViralFeed.slot
  rw [h.feedIndex]

theorem making_congr (h : SameRing s t) (hs : t.scroll = s.scroll) {mp : Nat} :
    Making t mp ↔ Making s mp := by
  unfold Making ViralFeed.slot
  rw [hs]
  split <;> first | rw [h.mp] | exact Iff.rfl

theorem PlayerOk.keep {mp : Nat} {P : Player} (h : PlayerOk s mp P)
    (hhome : (s.feed.pool P.slot).mp = some mp → Gone P ∨ (t.feed.pool P.slot).mp = some mp)
    (hmaking : Making s mp → Making t mp) (haim : Aim s P.slot → Aim t P.slot) :
    PlayerOk t mp P where
  sound := h.sound
  home := h.home.elim Or.inl hhome
  unborn hl := hmaking (h.unborn hl)
  own := h.own
  tested := h.tested
  starting hl := (h.starting hl).imp id haim
  playing hw := haim (h.playing hw)

theorem PlayerOk.beside {mp : Nat} {P : Player} (h : PlayerOk s mp P) (hb : Beside s t) :
    PlayerOk t mp P := by
  refine h.keep ?_ (making_congr hb.ring hb.scroll).mpr (aim_congr hb.ring.current hb.scroll).mpr
  intro hmp
  rw [hb.ring.mp]
  exact Or.inr hmp

/-- The player a step leaves in the place of `P`. -/
theorem PlayerOk.follow {mp : Nat} {P Q : Player} (h : PlayerOk s mp P) (hf : Follows P Q)
    (hok : LocalOk Q) (hborn : Q.loop = .none → P.loop = .none)
    (hown : Q.loop ≠ .none → Q.loop ≠ .spawned → Q.target = some mp)
    (htest : ∀ f, Q.loop = .testCurrent f → P.loop = .testCurrent f)
    (hstart : Q.loop = .start → P.loop = .start) (hplay : WillPlay Q → Aim s P.slot) :
    PlayerOk s mp Q := by
  refine ⟨hok, ?_, fun e => h.unborn (hborn e), hown, ?_, ?_, ?_⟩
  · rw [hf.slot]
    exact h.home.imp hf.gone id
  · intro f e
    rw [hf.slot]
    exact (h.tested f (htest f e)).imp hf.gone id
  · intro e
    rw [hf.slot]
    exact (h.starting (hstart e)).imp hf.gone id
  · rw [hf.slot]
    exact hplay

theorem CallOk.beside {c : Cmd × CallPc} (h : CallOk s c) (hb : Beside s t) : CallOk t c := by
  have haim : ∀ {k}, Aim s k → Aim t k := (aim_congr hb.ring.current hb.scroll).mpr
  obtain ⟨cmd, pc⟩ := c
  cases cmd with
  | pause => cases pc <;> trivial
  | play =>
    cases pc with
    | readIndex | crashed => trivial
    | testMp k | readMp k => exact haim h
    | act mp =>
      obtain ⟨P, hP, hok⟩ := h
      obtain ⟨Q, hQ, hf⟩ := hb.players mp P hP
      refine ⟨Q, hQ, hok.imp hf.gone ?_⟩
      rw [hf.slot]
      exact haim

theorem SlotOk.beside (h : SlotOk s) (hb : Beside s t) : SlotOk t := by
  intro k mp hmp
  rw [hb.ring.mp] at hmp
  obtain ⟨hk, P, hP, hslot⟩ := h k mp hmp
  obtain ⟨Q, hQ, hf⟩ := hb.players mp P hP
  rw [hb.ring.feedIndex]
  exact ⟨hk, Q, hQ, hf.slot.trans hslot⟩

theorem Occupant.beside {index : Int} {φ : Player → Prop} (h : Occupant s index φ)
    (hslots : SlotOk s) (hb : Beside s t) (hφ : ∀ P Q, Follows P Q → φ P → φ Q) :
    Occupant t index φ := by
  intro mp Q hmp hQ
  have hmp' : (s.feed.slot index).mp = some mp := (hb.ring.mp _).symm.trans hmp
  obtain ⟨_, P, hP, _⟩ := hslots _ mp hmp'
  obtain ⟨Q', hQ', hf⟩ := hb.players mp P hP
  have e : Q' = Q := Option.some.inj (hQ'.symm.trans hQ)
  rw [← e]
  exact hφ P Q' hf (h mp P hmp' hP)

/-- A player without a thread stays as it is. -/
theorem Holds.beside {index : Int} {P : Player} (h : Holds s index P) (hb : Beside s t)
    (hl : P.loop = .none) : Holds t index P := by
  obtain ⟨hnum, mp, hmp, hP⟩ := h
  obtain ⟨Q, hQ, hf⟩ := hb.players mp P hP
  rw [hf.fresh hl] at hQ
  exact ⟨(numbered_congr hb.ring).mpr hnum, mp, (hb.ring.mp _).trans hmp, hQ⟩

theorem InitOk.beside {next : Int} {pc : InitPc} (h : InitOk s next pc) (hslots : SlotOk s)
    (hb : Beside s t) : InitOk t next pc := by
  cases pc with
  | stop => trivial
  | shutdown => exact Occupant.beside h hslots hb fun _ _ hf => hf.settled
  | clear => exact Occupant.beside h hslots hb fun _ _ hf => hf.gone
  | number => exact (hb.ring.mp _).trans h
  | create => exact ⟨(hb.ring.mp _).trans h.1, (numbered_congr hb.ring).mpr h.2⟩
  | source => exact Holds.beside h hb rfl
  | preloading | prepare => exact Holds.beside h hb rfl

theorem PlaceOk.beside {index : Int} {pc : ScrollPc} (h : PlaceOk s index pc) (hslots : SlotOk s)
    (hb : Beside s t) : PlaceOk t index pc := by
  have hnum : ∀ {j}, Numbered s j → Numbered t j := (numbered_congr hb.ring).mpr
  cases pc with
  | pausePrev prev => exact fun hprev => hnum (h hprev)
  | play => trivial
  | start mp => exact ⟨hnum h.1, (hb.ring.mp _).trans h.2⟩
  | init i pc => exact ⟨h.1, fun hi => hnum (h.2.1 hi), h.2.2.beside hslots hb⟩
  | preload i => exact ⟨h.1, hnum h.2⟩
  | release => exact hnum h
  | releaseShutdown => exact ⟨hnum h.1, h.2.beside hslots hb fun _ _ hf => hf.settled⟩
  | releaseClear => exact ⟨hnum h.1, h.2.beside hslots hb fun _ _ hf => hf.gone⟩

theorem ScrollOk.beside (h : ScrollOk s) (hslots : SlotOk s) (hb : Beside s t) : ScrollOk t := by
  unfold ScrollOk at h ⊢
  rw [hb.scroll, hb.ring.current]
  split
  · rename_i e
    rw [e] at h
    exact ⟨h.1, fun hc => (numbered_congr hb.ring).mpr (h.2 hc)⟩
  · rename_i index pc e
    rw [e] at h
    exact ⟨h.1, h.2.1, h.2.2.beside hslots hb⟩

/-- **A step beside the swipe keeps the invariant** when the players and calls it changes are in
    order. -/
theorem Inv.beside (h : Inv s) (hb : Beside s t)
    (hnew : ∀ mp Q, t.players[mp]? = some Q → s.players[mp]? = some Q ∨ PlayerOk t mp Q)
    (hcalls : ∀ c ∈ t.calls, c ∈ s.calls ∨ CallOk t c) : Inv t where
  players mp Q hQ := (hnew mp Q hQ).elim (fun hold => (h.players mp Q hold).beside hb) id
  slots := h.slots.beside hb
  calls c hc := (hcalls c hc).elim (fun hold => (h.calls c hold).beside hb) id
  scroll := h.scroll.beside h.slots hb

/-- A player without a thread is the one being made. -/
theorem Inv.unborn (h : Inv s) {mp : Nat} {P : Player} (hP : s.players[mp]? = some P)
    (hl : P.loop = .none) : P = Player.create P.slot ∨ P = initialized P.slot := by
  have hm := (h.players mp P hP).unborn hl
  have hs := h.scroll
  unfold Making at hm
  unfold ScrollOk at hs
  have hone : ∀ {index : Int} {R : Player}, (s.feed.slot index).mp = some mp →
      Holds s index R → P = R := by
    intro index R hmp hR
    obtain ⟨_, mp', hmp', hR'⟩ := hR
    rw [hmp] at hmp'
    rw [← Option.some.inj hmp', hP] at hR'
    exact Option.some.inj hR'
  split at hm
  · rename_i index i e
    rw [e] at hs
    have e' := hone hm hs.2.2.2.2
    rw [e']
    exact Or.inl rfl
  · rename_i index i e
    rw [e] at hs
    have e' := hone hm hs.2.2.2.2
    rw [e']
    exact Or.inr rfl
  · rename_i index i e
    rw [e] at hs
    have e' := hone hm hs.2.2.2.2
    rw [e']
    exact Or.inr rfl
  · exact absurd hm id

theorem Inv.unborn_refuses (h : Inv s) {mp : Nat} {P : Player} (hP : s.players[mp]? = some P)
    (hl : P.loop = .none) : stoppable P.mpState = false := by
  rcases h.unborn hP hl with e | e
  · rw [e]
    rfl
  · rw [e]
    rfl

theorem modify_of_get {l : List Player} {mp : Nat} {P : Player} (h : l[mp]? = some P)
    (f : Player → Player) : l.modify mp f = l.set mp (f P) := by
  refine List.ext_getElem? ?_
  intro j
  rw [List.getElem?_modify, List.getElem?_set]
  by_cases e : mp = j
  · subst e
    obtain ⟨hlt, hget⟩ := List.getElem?_eq_some_iff.mp h
    simp [hlt, hget]
  · simp [e]

theorem modify_modify {l : List Player} {mp : Nat} {P : Player} (h : l[mp]? = some P)
    (f g : Player → Player) : (l.modify mp f).modify mp g = l.set mp (g (f P)) := by
  have hlt := (List.getElem?_eq_some_iff.mp h).1
  have hget : (l.set mp (f P))[mp]? = some (f P) := by
    rw [List.getElem?_set, if_pos rfl, if_pos hlt]
  rw [modify_of_get h, modify_of_get hget, List.set_set]

theorem set_cases {l : List Player} {mp j : Nat} {Q R : Player} (h : (l.set mp Q)[j]? = some R) :
    (j = mp ∧ R = Q) ∨ l[j]? = some R := by
  rw [List.getElem?_set] at h
  split at h
  · rename_i e
    split at h
    · exact Or.inl ⟨e.symm, (Option.some.inj h).symm⟩
    · cases h
  · exact Or.inr h

/-- **One player changes**, and perhaps the calls. -/
theorem Inv.change (h : Inv s) {mp : Nat} {P Q : Player} (hP : s.players[mp]? = some P)
    (hf : Follows P Q) (hok : PlayerOk s mp Q) (hplayers : t.players = s.players.set mp Q)
    (hring : SameRing s t) (hscroll : t.scroll = s.scroll)
    (hcalls : ∀ c ∈ t.calls, c ∈ s.calls ∨ CallOk t c) : Inv t := by
  have hb : Beside s t := by
    refine ⟨hring, hscroll, ?_⟩
    intro j R hR
    rw [hplayers, List.getElem?_set]
    by_cases e : mp = j
    · subst e
      obtain ⟨hlt, _⟩ := List.getElem?_eq_some_iff.mp hP
      rw [if_pos rfl, if_pos hlt]
      rw [hP] at hR
      rw [← Option.some.inj hR]
      exact ⟨Q, rfl, hf⟩
    · rw [if_neg e]
      exact ⟨R, hR, Follows.refl R⟩
  refine h.beside hb ?_ hcalls
  intro j R hR
  rw [hplayers] at hR
  rcases set_cases hR with ⟨rfl, rfl⟩ | hold
  · exact Or.inr (hok.beside hb)
  · exact Or.inl hold

end Frames

end Viral.Feed
