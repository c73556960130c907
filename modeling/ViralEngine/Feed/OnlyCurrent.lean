/-
  File:      ViralEngine/Feed/OnlyCurrent.lean
  Subject:   WHEN ONLY THE CURRENT VIDEO PLAYS.

  * `Inv.swipe`, `Inv.moveOn`, `Inv.onOccupant`, `Inv.emptySlot`, `Inv.makeOn`, `Inv.create` --
    the kinds of steps a swipe takes;
  * `Inv.leavePause`, `paused_inv` -- behind the pause no start aims at the previous video;
  * `scrollStep_inv`, `enterScroll_inv` -- the swipe keeps the invariant;
  * `onlyCurrentPlays` -- in every unhurried run only the current video plays at rest;
  * `playsOn_swipeBeforeStart` -- the swipe lands between the loop's test and its start.
-/
import ViralEngine.Feed.MsgLoop
import ViralEngine.Feed.Ring

namespace Viral.Feed

open Viral.Lib Viral.Ijk Viral.Ijk.Player

/-! ## 1. The swipe -/

section Swipe

variable {s t : State} {index : Int}

theorem Inv.place {pc : ScrollPc} (h : Inv s) (hs : s.scroll = some (index, pc)) :
    s.feed.currentIndex = index ∧ 0 ≤ index ∧ PlaceOk s index pc := by
  have hok := h.scroll
  unfold ScrollOk at hok
  rw [hs] at hok
  exact hok

theorem scrollOk_of_place {pc : ScrollPc} (hs : t.scroll = some (index, pc))
    (hcurrent : t.feed.currentIndex = index) (hindex : 0 ≤ index) (hplace : PlaceOk t index pc) :
    ScrollOk t := by
  unfold ScrollOk
  rw [hs]
  exact ⟨hcurrent, hindex, hplace⟩

/-- Behind the pause the only aim is the current video. -/
theorem aim_of_place {pc : ScrollPc} {k : Slot} (hs : s.scroll = some (index, pc))
    (hpc : ∀ prev, pc ≠ .pausePrev prev) (hcurrent : t.feed.currentIndex = s.feed.currentIndex)
    (h : Aim s k) : Aim t k := by
  rcases h with ⟨hnonneg, hk⟩ | ⟨index', prev, hs', _⟩
  · rw [← hcurrent] at hnonneg hk
    exact Or.inl ⟨hnonneg, hk⟩
  · rw [hs] at hs'
    cases hs'
    exact absurd rfl (hpc prev)

/-- A player changes, is added, or loses its slot. -/
theorem Inv.swipe (h : Inv s) (hcalls : t.calls = s.calls)
    (hplayers : ∀ (mp : Nat) (P : Player), s.players[mp]? = some P →
      ∃ Q, t.players[mp]? = some Q ∧ Q.slot = P.slot ∧ (Gone P → Gone Q))
    (haim : ∀ k, Aim s k → Aim t k)
    (hnew : ∀ mp Q, t.players[mp]? = some Q → PlayerOk t mp Q)
    (hslots : SlotOk t) (hscroll : ScrollOk t) : Inv t := by
  refine ⟨hnew, hslots, ?_, hscroll⟩
  intro c hc
  rw [hcalls] at hc
  have hok := h.calls c hc
  obtain ⟨cmd, pc⟩ := c
  cases cmd with
  | pause => cases pc <;> trivial
  | play =>
    cases pc with
    | readIndex | crashed => trivial
    | testMp k | readMp k => exact haim k hok
    | act mp =>
      obtain ⟨P, hP, hok⟩ := hok
      obtain ⟨Q, hQ, hslot, hgone⟩ := hplayers mp P hP
      refine ⟨Q, hQ, hok.imp hgone ?_⟩
      rw [hslot]
      exact haim P.slot

/-- The swipe moves on: the players and the ring stay. -/
theorem Inv.moveOn {pc : ScrollPc} (h : Inv s) (hs : s.scroll = some (index, pc))
    (hpc : ∀ prev, pc ≠ .pausePrev prev) (hring : SameRing s t) (hplayers : t.players = s.players)
    (hcalls : t.calls = s.calls) (hmaking : ∀ mp, Making s mp → Making t mp)
    (hscroll : ScrollOk t) : Inv t := by
  have haim : ∀ k, Aim s k → Aim t k := fun k => aim_of_place hs hpc hring.current
  refine h.swipe hcalls ?_ haim ?_ ?_ hscroll
  · intro mp P hP
    rw [hplayers]
    exact ⟨P, hP, rfl, id⟩
  · intro mp P hP
    rw [hplayers] at hP
    refine (h.players mp P hP).keep ?_ (hmaking mp) (haim P.slot)
    intro hmp
    rw [hring.mp]
    exact Or.inr hmp
  · intro k mp hmp
    rw [hring.mp] at hmp
    rw [hring.feedIndex, hplayers]
    exact h.slots k mp hmp

/-- `ijkmp_stop` keeps a player in order and settles it. -/
theorem stop_playerOk {mp : Nat} {P : Player} (h : Inv s) (hP : s.players[mp]? = some P) :
    Follows P P.stop ∧ PlayerOk s mp P.stop := by
  have hok := h.players mp P hP
  obtain ⟨hloop, hslot, htarget, hcases⟩ := stop_cases P
  have hf : Follows P P.stop := by
    refine ⟨hslot, ?_, fun _ => settled_stop P, ?_⟩
    · intro hg
      unfold Gone
      rw [hloop]
      refine ⟨?_, hg.2⟩
      rcases hcases with ⟨_, e⟩ | ⟨_, ha⟩
      · rw [e]
        exact hg.1
      · exact ha
    · intro hl
      rcases hcases with ⟨_, e⟩ | ⟨hst, _⟩
      · exact e
      · have hrefuse := h.unborn_refuses hP hl
        unfold Player.stop
        rw [if_neg (by rw [hrefuse]; exact Bool.false_ne_true)]
  refine ⟨hf, hok.follow hf (localOk_stop hok.sound) ?_ ?_ ?_ ?_ ?_⟩
  · rw [hloop]
    exact id
  · rw [hloop, htarget]
    exact hok.own
  · rw [hloop]
    exact fun _ => id
  · rw [hloop]
    exact id
  · intro hw
    exact absurd hw (not_willPlay_of_not_chkst (localOk_stop hok.sound) (stop_not_chkst P))

/-- `ijkmp_shutdown` behind it: the player is gone. -/
theorem shutdown_playerOk {mp : Nat} {P : Player} (h : Inv s) (hP : s.players[mp]? = some P)
    (hsettled : Settled P) (hborn : P.loop ≠ .none) :
    Follows P P.shutdown ∧ PlayerOk s mp P.shutdown ∧ Gone P.shutdown := by
  have hok := h.players mp P hP
  have hgone : Gone P.shutdown := ⟨rfl, hborn⟩
  have hf : Follows P P.shutdown :=
    ⟨rfl, fun _ => hgone, fun _ => Or.inl rfl, fun e => absurd e hborn⟩
  have hsound := localOk_shutdown hok.sound hsettled
  exact ⟨hf, hok.follow hf hsound id hok.own (fun _ => id) id
    (fun hw => absurd hw (not_willPlay_aborted hsound rfl)), hgone⟩

/-- The swipe calls ijkplayer on a player and moves on. -/
theorem Inv.onOccupant {pc : ScrollPc} {mp : Nat} {P Q : Player} (h : Inv s)
    (hs : s.scroll = some (index, pc)) (hpc : ∀ prev, pc ≠ .pausePrev prev)
    (hnone : ∀ j, ¬ Making s j) (hP : s.players[mp]? = some P) (hf : Follows P Q)
    (hok : PlayerOk s mp Q) (hplayers : t.players = s.players.set mp Q) (hring : SameRing s t)
    (hcalls : t.calls = s.calls) (hscroll : ScrollOk t) : Inv t := by
  -- the call first, at the old place
  have hu : Inv { t with scroll := s.scroll } := by
    refine h.change hP hf hok hplayers ⟨hring.mp, hring.feedIndex, hring.current⟩ rfl ?_
    intro c hc
    exact Or.inl (hcalls ▸ hc)
  refine hu.moveOn (t := t) hs hpc ⟨fun _ => rfl, fun _ => rfl, rfl⟩ rfl rfl ?_ hscroll
  intro j hj
  have hsame : Making { t with scroll := s.scroll } j ↔ Making s j :=
    making_congr (t := { t with scroll := s.scroll })
      ⟨hring.mp, hring.feedIndex, hring.current⟩ rfl
  exact absurd (hsame.mp hj) (hnone j)

/-- The places between the creation of a player and its thread. -/
def making : ScrollPc → Bool
  | .init _ .source | .init _ .preloading | .init _ .prepare => true
  | _ => false

theorem not_making {pc : ScrollPc} (hs : s.scroll = some (index, pc)) (hpc : making pc = false)
    (mp : Nat) : ¬ Making s mp := by
  unfold Making
  rw [hs]
  split
  · rename_i e
    cases e
    cases hpc
  · rename_i e
    cases e
    cases hpc
  · rename_i e
    cases e
    cases hpc
  · exact id

/-- The slot's player is the one just changed. -/
theorem occupant_set {mp : Nat} {P Q : Player} {φ : Player → Prop} (hP : s.players[mp]? = some P)
    (hmp : (s.feed.slot index).mp = some mp) (hplayers : t.players = s.players.set mp Q)
    (hring : SameRing s t) (hφ : φ Q) : Occupant t index φ := by
  intro j R hj hR
  have hj' : (s.feed.slot index).mp = some j := (hring.mp _).symm.trans hj
  have e : mp = j := Option.some.inj (hmp.symm.trans hj')
  subst e
  have hlt := (List.getElem?_eq_some_iff.mp hP).1
  rw [hplayers, List.getElem?_set, if_pos rfl, if_pos hlt] at hR
  rw [← Option.some.inj hR]
  exact hφ

/-- The slot of `index` is emptied: its player is gone. -/
theorem Inv.emptySlot {pc : ScrollPc} {k : Slot} {vp : ViralPlayer} (h : Inv s)
    (hs : s.scroll = some (index, pc)) (hpc : ∀ prev, pc ≠ .pausePrev prev)
    (hnone : ∀ j, ¬ Making s j)
    (hgone : ∀ mp P, (s.feed.pool k).mp = some mp → s.players[mp]? = some P → Gone P)
    (hvp : vp.mp = none) (hfeed : t.feed = s.feed.setSlot k vp) (hplayers : t.players = s.players)
    (hcalls : t.calls = s.calls) (hscroll : ScrollOk t) : Inv t := by
  have hpool : ∀ j, t.feed.pool j = if j = k then vp else s.feed.pool j := by
    intro j
    rw [hfeed]
    rfl
  have hcurrent : t.feed.currentIndex = s.feed.currentIndex := by
    rw [hfeed]
    rfl
  have haim : ∀ k, Aim s k → Aim t k := fun k => aim_of_place hs hpc hcurrent
  refine h.swipe hcalls ?_ haim ?_ ?_ hscroll
  · intro mp P hP
    rw [hplayers]
    exact ⟨P, hP, rfl, id⟩
  · intro mp P hP
    rw [hplayers] at hP
    refine (h.players mp P hP).keep ?_ (fun hm => absurd hm (hnone mp)) (haim P.slot)
    intro hmp
    by_cases e : P.slot = k
    · rw [e] at hmp
      exact Or.inl (hgone mp P hmp hP)
    · rw [hpool, if_neg e]
      exact Or.inr hmp
  · intro j mp hmp
    rw [hpool] at hmp ⊢
    by_cases e : j = k
    · rw [if_pos e, hvp] at hmp
      cases hmp
    · rw [if_neg e] at hmp ⊢
      rw [hplayers]
      exact h.slots j mp hmp

theorem gone_of_empty {j : Int} (h : (s.feed.slot j).mp = none) (mp : Nat) (P : Player)
    (hmp : (s.feed.pool (slotOf j)).mp = some mp) (_ : s.players[mp]? = some P) : Gone P := by
  rw [show (s.feed.pool (slotOf j)).mp = none from h] at hmp
  cases hmp

/-- The player being made is replaced by what its making leaves. -/
theorem Inv.makeOn {pc : ScrollPc} {mp : Nat} {P Q : Player} (h : Inv s)
    (hs : s.scroll = some (index, pc)) (hpc : ∀ prev, pc ≠ .pausePrev prev)
    (honly : ∀ j, Making s j → j = mp) (hP : s.players[mp]? = some P) (hslot : Q.slot = P.slot)
    (hunborn : P.loop = .none) (hok : PlayerOk t mp Q) (hplayers : t.players = s.players.set mp Q)
    (hring : SameRing s t) (hcalls : t.calls = s.calls) (hscroll : ScrollOk t) : Inv t := by
  have haim : ∀ k, Aim s k → Aim t k := fun k => aim_of_place hs hpc hring.current
  have hlt := (List.getElem?_eq_some_iff.mp hP).1
  have hkept : ∀ (j : Nat) (R : Player), s.players[j]? = some R →
      ∃ R', t.players[j]? = some R' ∧ R'.slot = R.slot ∧ (Gone R → Gone R') := by
    intro j R hR
    rw [hplayers, List.getElem?_set]
    by_cases e : mp = j
    · subst e
      have e' : P = R := Option.some.inj (hP.symm.trans hR)
      rw [if_pos rfl, if_pos hlt, ← e']
      exact ⟨Q, rfl, hslot, fun hg => absurd hunborn hg.2⟩
    · rw [if_neg e]
      exact ⟨R, hR, rfl, id⟩
  refine h.swipe hcalls hkept haim ?_ ?_ hscroll
  · intro j R hR
    rw [hplayers] at hR
    by_cases e : j = mp
    · subst e
      rw [List.getElem?_set, if_pos rfl, if_pos hlt] at hR
      rw [← Option.some.inj hR]
      exact hok
    · rw [List.getElem?_set, if_neg (Ne.symm e)] at hR
      refine (h.players j R hR).keep ?_ (fun hm => absurd (honly j hm) e) (haim R.slot)
      intro hmp
      rw [hring.mp]
      exact Or.inr hmp
  · intro k j hj
    rw [hring.mp] at hj
    obtain ⟨hk, R, hR, hRslot⟩ := h.slots k j hj
    obtain ⟨R', hR', hslot', _⟩ := hkept j R hR
    rw [hring.feedIndex]
    exact ⟨hk, R', hR', hslot'.trans hRslot⟩

/-- `ijkmp_create` in the emptied slot. -/
theorem Inv.create {pc : ScrollPc} {next : Int} {vp : ViralPlayer} (h : Inv s)
    (hs : s.scroll = some (index, pc)) (hpc : ∀ prev, pc ≠ .pausePrev prev)
    (hnone : ∀ j, ¬ Making s j) (hempty : (s.feed.slot next).mp = none) (hnext : 0 ≤ next)
    (hvp : vp.mp = some s.players.length) (hidx : vp.feedIndex = next)
    (hpool : ∀ j, t.feed.pool j = if j = slotOf next then vp else s.feed.pool j)
    (hcurrent : t.feed.currentIndex = s.feed.currentIndex)
    (hplayers : t.players = s.players ++ [Player.create (slotOf next)])
    (hcalls : t.calls = s.calls) (hmaking : Making t s.players.length) (hscroll : ScrollOk t) :
    Inv t := by
  have haim : ∀ k, Aim s k → Aim t k := fun k => aim_of_place hs hpc hcurrent
  have hold : ∀ (j : Nat) (R : Player), s.players[j]? = some R → t.players[j]? = some R := by
    intro j R hR
    rw [hplayers, List.getElem?_append_left (List.getElem?_eq_some_iff.mp hR).1]
    exact hR
  have hlast : t.players[s.players.length]? = some (Player.create (slotOf next)) := by
    rw [hplayers, List.getElem?_concat_length]
  refine h.swipe hcalls (fun j R hR => ⟨R, hold j R hR, rfl, id⟩) haim ?_ ?_ hscroll
  · intro j R hR
    rcases Nat.lt_or_ge j s.players.length with hlt | hge
    · rw [hplayers, List.getElem?_append_left hlt] at hR
      refine (h.players j R hR).keep ?_ (fun hm => absurd hm (hnone j)) (haim R.slot)
      intro hmp
      by_cases e : R.slot = slotOf next
      · rw [e] at hmp
        rw [show (s.feed.pool (slotOf next)).mp = none from hempty] at hmp
        cases hmp
      · rw [hpool, if_neg e]
        exact Or.inr hmp
    · have hj : j = s.players.length := by
        have hlt := (List.getElem?_eq_some_iff.mp hR).1
        rw [hplayers, List.length_append, List.length_singleton] at hlt
        omega
      subst hj
      rw [hlast] at hR
      rw [← Option.some.inj hR]
      refine ⟨localOk_create _, Or.inr ?_, fun _ => hmaking, fun e => absurd rfl e, by nofun,
        by nofun, fun hw => absurd hw (not_willPlay_aborted (localOk_create _) rfl)⟩
      rw [hpool, if_pos (show (Player.create (slotOf next)).slot = slotOf next from rfl)]
      exact hvp
  · intro k mp hmp
    rw [hpool] at hmp ⊢
    by_cases e : k = slotOf next
    · rw [if_pos e] at hmp ⊢
      rw [hvp] at hmp
      rw [← Option.some.inj hmp, hidx]
      exact ⟨⟨hnext, e.symm⟩, _, hlast, e.symm⟩
    · rw [if_neg e] at hmp ⊢
      obtain ⟨hk, R, hR, hslot⟩ := h.slots k mp hmp
      exact ⟨hk, R, hold mp R hR, hslot⟩

/-- A change of another slot leaves the number. -/
theorem numbered_setVp {j : Int} {k : Slot} {vp : ViralPlayer} (h : Numbered s j)
    (hvp : slotOf j = k → vp.feedIndex = j) : Numbered (s.setVp k vp) j := by
  show (if slotOf j = k then vp else s.feed.pool (slotOf j)).feedIndex = j
  split
  · rename_i e
    exact hvp e
  · exact h

theorem setVp_slot_self (s : State) (j : Int) (vp : ViralPlayer) :
    (s.setVp (slotOf j) vp).feed.slot j = vp := by
  show (if slotOf j = slotOf j then vp else _) = vp
  rw [if_pos rfl]

theorem making_unique {i : Nat} {pc : InitPc} {mp j : Nat}
    (hs : s.scroll = some (index, .init i pc)) (hmp : (s.feed.slot (index + i)).mp = some mp)
    (hj : Making s j) : j = mp := by
  unfold Making at hj
  rw [hs] at hj
  cases pc with
  | source | preloading | prepare => exact Option.some.inj (hj.symm.trans hmp)
  | stop | shutdown | clear | number | create => exact absurd hj id

/-- The swipe moves on and changes nothing else. -/
theorem Inv.goto {pc : ScrollPc} (h : Inv s) (hs : s.scroll = some (index, pc))
    (hpc : ∀ prev, pc ≠ .pausePrev prev) (hnone : ∀ j, ¬ Making s j) {next : ScrollPc}
    (hplace : PlaceOk s index next) : Inv (s.goto index next) := by
  obtain ⟨hcurrent, hindex, _⟩ := h.place hs
  have hplace' : PlaceOk (s.goto index next) index next := by
    cases next with
    | init i pc => cases pc <;> exact hplace
    | pausePrev _ | play | start _ | preload _ | release | releaseShutdown | releaseClear =>
      exact hplace
  exact h.moveOn hs hpc ⟨fun _ => rfl, fun _ => rfl, rfl⟩ rfl rfl
    (fun j hj => absurd hj (hnone j)) (scrollOk_of_place rfl hcurrent hindex hplace')

/-- The swipe is over. -/
theorem Inv.finish {pc : ScrollPc} (h : Inv s) (hs : s.scroll = some (index, pc))
    (hpc : ∀ prev, pc ≠ .pausePrev prev) (hnone : ∀ j, ¬ Making s j) (hnum : Numbered s index) :
    Inv { s with scroll := none } := by
  obtain ⟨hcurrent, hindex, _⟩ := h.place hs
  refine h.moveOn hs hpc ⟨fun _ => rfl, fun _ => rfl, rfl⟩ rfl rfl
    (fun j hj => absurd hj (hnone j)) ⟨?_, ?_⟩
  · show -1 ≤ s.feed.currentIndex
    omega
  · intro _
    show Numbered s s.feed.currentIndex
    rw [hcurrent]
    exact hnum

/-- **A step of `viral_player_init_slot` keeps the invariant.** -/
theorem initMove_inv {i : Nat} {ok : Bool} {pc : InitPc} (h : Inv s)
    (hs : s.scroll = some (index, .init i pc)) (hm : InitMove s index i ok pc t) : Inv t := by
  obtain ⟨hcurrent, hindex, hi, hnum, hinit⟩ := h.place hs
  have hnext : 0 ≤ index + (i : Int) := by omega
  have hother : i ≠ 0 → slotOf index ≠ slotOf (index + i) := by
    intro hi0
    have hi' : i ≤ 2 := hi
    exact Ne.symm (slotOf_ahead (by omega) (show i < 5 by omega))
  have hkeep : ∀ vp : ViralPlayer, i ≠ 0 → Numbered (s.setVp (slotOf (index + i)) vp) index :=
    fun vp hi0 => numbered_setVp (hnum hi0) fun e => absurd e (hother hi0)
  have hself : ∀ vp : ViralPlayer, (s.setVp (slotOf (index + i)) vp).feed.slot (index + i) = vp :=
    setVp_slot_self s (index + i)
  cases hm with
  | stopped mp hmp =>
    have hnone := not_making hs rfl
    obtain ⟨_, P, hP, _⟩ := h.slots _ mp hmp
    obtain ⟨hf, hok⟩ := stop_playerOk h hP
    refine h.onOccupant hs (by nofun) hnone hP hf hok (modify_of_get hP _)
      ⟨fun _ => rfl, fun _ => rfl, rfl⟩ rfl (scrollOk_of_place rfl hcurrent hindex ?_)
    exact ⟨hi, hnum, occupant_set hP hmp (modify_of_get hP _)
      ⟨fun _ => rfl, fun _ => rfl, rfl⟩ (settled_stop P)⟩
  | shutDown mp hmp =>
    have hnone := not_making hs rfl
    obtain ⟨_, P, hP, _⟩ := h.slots _ mp hmp
    have hborn : P.loop ≠ .none := fun e => hnone mp ((h.players mp P hP).unborn e)
    obtain ⟨hf, hok, hgone⟩ := shutdown_playerOk h hP (hinit mp P hmp hP) hborn
    refine h.onOccupant hs (by nofun) hnone hP hf hok (modify_of_get hP _)
      ⟨fun _ => rfl, fun _ => rfl, rfl⟩ rfl (scrollOk_of_place rfl hcurrent hindex ?_)
    exact ⟨hi, hnum, occupant_set hP hmp (modify_of_get hP _)
      ⟨fun _ => rfl, fun _ => rfl, rfl⟩ hgone⟩
  | noneToStop hmp => exact h.goto hs (by nofun) (not_making hs rfl) ⟨hi, hnum, hmp⟩
  | noneToShutDown hmp => exact h.goto hs (by nofun) (not_making hs rfl) ⟨hi, hnum, hmp⟩
  | cleared =>
    refine h.emptySlot hs (by nofun) (not_making hs rfl) hinit rfl rfl rfl rfl
      (scrollOk_of_place rfl hcurrent hindex ⟨hi, hkeep _, ?_⟩)
    exact congrArg ViralPlayer.mp (hself _)
  | numbered hvalid =>
    have hgone := gone_of_empty hinit
    have hvp : ({ s.feed.slot (index + i) with
        feedIndex := index + i, state := .idle, surfaceSet := false, url := none } :
          ViralPlayer).mp = none := hinit
    refine h.emptySlot hs (by nofun) (not_making hs rfl) hgone hvp rfl rfl rfl
      (scrollOk_of_place rfl hcurrent hindex ⟨hi, hkeep _, ?_, ?_⟩)
    · exact (congrArg ViralPlayer.mp (hself _)).trans hinit
    · exact congrArg ViralPlayer.feedIndex (hself _)
  | outside hout =>
    have hgone := gone_of_empty hinit
    have hvp : ({ s.feed.slot (index + i) with
        feedIndex := index + i, state := .idle, surfaceSet := false, url := none } :
          ViralPlayer).mp = none := hinit
    refine h.emptySlot hs (by nofun) (not_making hs rfl) hgone hvp rfl rfl rfl
      (scrollOk_of_place rfl hcurrent hindex ⟨by omega, ?_⟩)
    by_cases hi0 : i = 0
    · subst hi0
      have e : index + ((0 : Nat) : Int) = index := by omega
      rw [e]
      exact congrArg ViralPlayer.feedIndex (setVp_slot_self s index _)
    · exact hkeep _ hi0
  | created =>
    obtain ⟨hempty, hnumber⟩ := hinit
    have hlast : (s.players ++ [Player.create (slotOf (index + i))])[s.players.length]? =
        some (Player.create (slotOf (index + i))) := List.getElem?_concat_length
    have hvp : ({ s.feed.slot (index + i) with
        url := s.feed.urls[(index + i).toNat]?, mp := some s.players.length } :
          ViralPlayer).mp = some s.players.length := rfl
    refine h.create hs (by nofun) (not_making hs rfl) hempty hnext hvp hnumber (fun _ => rfl) rfl
      rfl rfl ?_ (scrollOk_of_place rfl hcurrent hindex ⟨hi, hkeep _, ?_⟩)
    · exact congrArg ViralPlayer.mp (hself _)
    · exact ⟨(congrArg ViralPlayer.feedIndex (hself _)).trans hnumber, s.players.length,
        congrArg ViralPlayer.mp (hself _), hlast⟩
  | sourced mp hmp =>
    obtain ⟨hnumber, mp', hmp', hP⟩ := hinit
    have e : mp' = mp := Option.some.inj (hmp'.symm.trans hmp)
    subst e
    have hset : s.players.modify mp' Player.setDataSource =
        s.players.set mp' (initialized (slotOf (index + i))) := modify_of_get hP _
    have hget : (s.players.set mp' (initialized (slotOf (index + i))))[mp']? =
        some (initialized (slotOf (index + i))) := by
      rw [List.getElem?_set, if_pos rfl, if_pos (List.getElem?_eq_some_iff.mp hP).1]
    have hslot : (initialized (slotOf (index + i))).slot =
        (Player.create (slotOf (index + i))).slot := rfl
    refine h.makeOn hs (by nofun) (fun j hj => making_unique hs hmp hj) hP hslot rfl ?_ hset
      ⟨fun _ => rfl, fun _ => rfl, rfl⟩ rfl
      (scrollOk_of_place rfl hcurrent hindex ⟨hi, hnum, hnumber, mp', hmp, ?_⟩)
    · exact ⟨localOk_initialized _, Or.inr hmp, fun _ => hmp, fun e => absurd rfl e, by nofun,
        by nofun, fun hw => absurd hw (not_willPlay_aborted (localOk_initialized _) rfl)⟩
    · exact (congrArg (·[mp']?) hset).trans hget
  | noSource hmp =>
    obtain ⟨_, mp, hmp', _⟩ := hinit
    rw [hmp] at hmp'
    cases hmp'
  | preloading =>
    obtain ⟨hnumber, mp, hmp, hP⟩ := hinit
    have hring := sameRing_storeState s (slotOf (index + i)) .preloading
    refine h.moveOn hs (by nofun) ⟨hring.mp, hring.feedIndex, hring.current⟩ rfl rfl ?_
      (scrollOk_of_place rfl hcurrent hindex ⟨hi, ?_, ?_, mp, (hring.mp _).trans hmp, hP⟩)
    · intro j hj
      have e := making_unique hs hmp hj
      subst e
      exact (hring.mp _).trans hmp
    · exact fun hi0 => (numbered_congr hring).mpr (hnum hi0)
    · exact (numbered_congr hring).mpr hnumber
  | prepared mp hmp =>
    obtain ⟨hnumber, mp', hmp', hP⟩ := hinit
    have e : mp' = mp := Option.some.inj (hmp'.symm.trans hmp)
    subst e
    have hset : (s.players.modify mp' fun P => P.prepareAsync ok) =
        s.players.set mp' ((initialized (slotOf (index + i))).prepareAsync ok) := modify_of_get hP _
    have hsound := localOk_prepareAsync (slotOf (index + i)) ok
    have hquiet := not_willPlay_of_not_chkst hsound (prepareAsync_not_chkst _ ok)
    have hfields := prepareAsync_initialized (slotOf (index + i)) ok
    have hslot : ((initialized (slotOf (index + i))).prepareAsync ok).slot =
        slotOf (index + i) := by
      rw [hfields]
      rfl
    have hloop : ((initialized (slotOf (index + i))).prepareAsync ok).loop = .spawned := by
      rw [hfields]
    refine h.makeOn hs (by nofun) (fun j hj => making_unique hs hmp hj) hP hslot rfl ?_ hset
      ⟨fun _ => rfl, fun _ => rfl, rfl⟩ rfl
      (scrollOk_of_place rfl hcurrent hindex ⟨by omega, ?_⟩)
    · refine ⟨hsound, Or.inr ?_, ?_, ?_, ?_, ?_, fun hw => absurd hw hquiet⟩
      · rw [hslot]
        exact hmp
      · rw [hloop]
        nofun
      · rw [hloop]
        exact fun _ e => absurd rfl e
      · rw [hloop]
        nofun
      · rw [hloop]
        nofun
    · by_cases hi0 : i = 0
      · subst hi0
        have e : index + ((0 : Nat) : Int) = index := by omega
        rw [e] at hnumber
        exact hnumber
      · exact hnum hi0
  | noPrepare hmp =>
    obtain ⟨_, mp, hmp', _⟩ := hinit
    rw [hmp] at hmp'
    cases hmp'

/-! ### Leaving the pause -/

/-- Where no start is under way, the slot's live player is its only one, and neither its loop nor
    a call is about to start it. -/
theorem notUnderWay_spec {k : Slot} (h : Inv s) (hw : startUnderWay s k = false) :
    (Cmd.play, CallPc.testMp k) ∉ s.calls ∧ (Cmd.play, CallPc.readMp k) ∉ s.calls ∧
      ∀ mp P, s.players[mp]? = some P → P.slot = k → ¬ Gone P →
        (s.feed.pool k).mp = some mp ∧ P.loop ≠ .start ∧
          (Cmd.play, CallPc.act mp) ∉ s.calls := by
  unfold startUnderWay at hw
  rw [Bool.or_eq_false_iff, Bool.or_eq_false_iff] at hw
  obtain ⟨⟨htest, hread⟩, hmatch⟩ := hw
  refine ⟨by simpa using htest, by simpa using hread, ?_⟩
  intro mp P hP hslot hlive
  have hmp : (s.feed.pool k).mp = some mp := by
    rw [← hslot]
    exact (h.players mp P hP).home.resolve_left hlive
  rw [hmp] at hmatch
  simp only [Bool.or_eq_false_iff, hP, Option.any_some] at hmatch
  exact ⟨hmp, by simpa using hmatch.2, by simpa using hmatch.1⟩

/-- **Behind the pause no start aims at the previous video any more.** -/
theorem Inv.leavePause {prev : Int} (h : Inv s) (hs : s.scroll = some (index, .pausePrev prev))
    (hclear : 0 ≤ prev → slotOf prev ≠ slotOf index →
      startUnderWay s (slotOf prev) = false ∧
        ∀ (mp : Nat) (P : Player), s.players[mp]? = some P → P.slot = slotOf prev →
          ¬ WillPlay P) : Inv (s.goto index .play) := by
  obtain ⟨hcurrent, hindex, _⟩ := h.place hs
  -- an aim that is lost was at the previous video
  have haim : ∀ k, Aim s k → Aim (s.goto index .play) k ∨
      (k = slotOf prev ∧ startUnderWay s k = false ∧
        ∀ (mp : Nat) (P : Player), s.players[mp]? = some P → P.slot = k → ¬ WillPlay P) := by
    intro k hk
    by_cases e : k = slotOf index
    · refine Or.inl (Or.inl ⟨?_, ?_⟩)
      · show 0 ≤ s.feed.currentIndex
        omega
      · show k = slotOf s.feed.currentIndex
        rw [hcurrent]
        exact e
    · rcases hk with ⟨_, hk⟩ | ⟨index', prev', hs', hprev, hk⟩
      · rw [hcurrent] at hk
        exact absurd hk e
      · rw [hs] at hs'
        cases hs'
        rw [hk] at e
        rw [hk]
        exact Or.inr ⟨rfl, hclear hprev e⟩
  have hmaking : ∀ mp, ¬ Making s mp := not_making hs rfl
  refine ⟨?_, h.slots, ?_, scrollOk_of_place rfl hcurrent hindex trivial⟩
  · intro mp P hP
    have hok := h.players mp P hP
    refine ⟨hok.sound, hok.home, fun e => absurd (hok.unborn e) (hmaking mp), hok.own, hok.tested,
      ?_, ?_⟩
    · intro e
      by_cases hg : Gone P
      · exact Or.inl hg
      · rcases haim _ ((hok.starting e).resolve_left hg) with ht | ⟨_, hw, _⟩
        · exact Or.inr ht
        · exact absurd e ((notUnderWay_spec h hw).2.2 mp P hP rfl hg).2.1
    · intro hw
      rcases haim _ (hok.playing hw) with ht | ⟨_, _, hno⟩
      · exact ht
      · exact absurd hw (hno mp P hP rfl)
  · intro c hc
    have hok := h.calls c hc
    obtain ⟨cmd, pc⟩ := c
    cases cmd with
    | pause => cases pc <;> trivial
    | play =>
      cases pc with
      | readIndex | crashed => trivial
      | testMp k =>
        rcases haim k hok with ht | ⟨_, hw, _⟩
        · exact ht
        · exact absurd hc (notUnderWay_spec h hw).1
      | readMp k =>
        rcases haim k hok with ht | ⟨_, hw, _⟩
        · exact ht
        · exact absurd hc (notUnderWay_spec h hw).2.1
      | act mp =>
        obtain ⟨P, hP, hok⟩ := hok
        refine ⟨P, hP, ?_⟩
        by_cases hg : Gone P
        · exact Or.inl hg
        · rcases haim _ (hok.resolve_left hg) with ht | ⟨_, hw, _⟩
          · exact Or.inr ht
          · exact absurd hc ((notUnderWay_spec h hw).2.2 mp P hP rfl hg).2.2

/-- A pause leaves the loops where they are. -/
theorem startUnderWay_pause (s : State) (mp : Nat) (k : Slot) :
    startUnderWay ((s.onPlayer mp .pause).log mp .pause) k = startUnderWay s k := by
  have hloops : ∀ j : Nat, ((s.players.modify mp Player.pause)[j]?.any fun P => P.loop == .start) =
      (s.players[j]?.any fun P => P.loop == .start) := by
    intro j
    rw [List.getElem?_modify]
    cases s.players[j]? with
    | none => rfl
    | some P =>
      by_cases e : mp = j
      · simp [e, (pause_thread P).1]
      · simp [e]
  have hplayers : ((s.onPlayer mp .pause).log mp .pause).players =
      s.players.modify mp Player.pause := rfl
  have hpool : ((s.onPlayer mp .pause).log mp .pause).feed.pool = s.feed.pool := rfl
  have hcalls : ((s.onPlayer mp .pause).log mp .pause).calls = s.calls := rfl
  simp only [startUnderWay, hplayers, hpool, hcalls, hloops]

/-- Without a live player in the slot of the previous video there is nothing to pause. -/
theorem notPaused_inv {prev : Int} (h : Inv s) (hs : s.scroll = some (index, .pausePrev prev))
    (hc : PauseClear s (some (index, .pausePrev prev)))
    (hnot : 0 ≤ prev → prev ≠ index → (s.feed.slot prev).feedIndex = prev →
      (s.feed.slot prev).mp = none) : Inv (s.goto index .play) := by
  obtain ⟨_, _, hnum⟩ := h.place hs
  refine h.leavePause hs ?_
  intro hprev hne
  have hdiff : prev ≠ index := by
    rintro rfl
    exact hne rfl
  refine ⟨hc hprev hne, ?_⟩
  intro mp P hP hslot hw
  have hok := h.players mp P hP
  rcases hok.home with hg | hmp
  · exact not_willPlay_aborted hok.sound hg.1 hw
  · rw [hslot] at hmp
    rw [show (s.feed.pool (slotOf prev)).mp = none from hnot hprev hdiff (hnum hprev)] at hmp
    cases hmp

/-- **The pause of the previous video.** -/
theorem paused_inv {prev : Int} {mp : Nat} (h : Inv s)
    (hs : s.scroll = some (index, .pausePrev prev))
    (hc : PauseClear s (some (index, .pausePrev prev))) (hmp : (s.feed.slot prev).mp = some mp) :
    Inv (((s.onPlayer mp .pause).log mp .pause).goto index .play) := by
  obtain ⟨_, P, hP, _⟩ := h.slots _ mp hmp
  obtain ⟨hf, hok⟩ := pause_playerOk h hP
  have hquiet := not_willPlay_pause (h.players mp P hP).sound
  have hpaused : Inv ((s.onPlayer mp .pause).log mp .pause) :=
    h.change hP hf hok (modify_of_get hP _) ⟨fun _ => rfl, fun _ => rfl, rfl⟩ rfl
      fun c hc => Or.inl hc
  refine hpaused.leavePause hs ?_
  intro hprev hne
  refine ⟨(startUnderWay_pause s mp _).trans (hc hprev hne), ?_⟩
  intro j R hR hslot hw
  have hokR := hpaused.players j R hR
  rcases hokR.home with hg | hj
  · exact not_willPlay_aborted hokR.sound hg.1 hw
  · -- the player of the slot is the one paused
    rw [hslot] at hj
    have e : mp = j := Option.some.inj (hmp.symm.trans hj)
    subst e
    have hR' : (s.players.set mp P.pause)[mp]? = some R := (modify_of_get hP _) ▸ hR
    rw [List.getElem?_set, if_pos rfl, if_pos (List.getElem?_eq_some_iff.mp hP).1] at hR'
    rw [← Option.some.inj hR'] at hw
    exact hquiet hw

/-- **A step of `viral_feed_scroll_to` keeps the invariant.** -/
theorem scrollStep_inv {ok : Bool} (h : Inv s) (hc : Unhurried s (.scroll ok))
    (hstep : scrollStep s ok = some t) : Inv t := by
  obtain ⟨index, pc, hs, hmove⟩ := scrollStep_cases hstep
  obtain ⟨hcurrent, hindex, hplace⟩ := h.place hs
  have hclear : PauseClear s (some (index, pc)) := by
    rw [← hs]
    exact hc
  cases hmove with
  | paused prev mp _ hmp => exact paused_inv h hs hclear hmp
  | notPaused prev hnot => exact notPaused_inv h hs hclear hnot
  | found mp next hmp hidx hnext =>
    rcases hnext with rfl | rfl
    · exact h.goto hs (by nofun) (not_making hs rfl) ⟨hidx, hmp⟩
    · exact h.goto hs (by nofun) (not_making hs rfl) ⟨by omega, hidx⟩
  | missing _ =>
    exact h.goto hs (by nofun) (not_making hs rfl) ⟨by omega, fun e => absurd rfl e, trivial⟩
  | started mp =>
    obtain ⟨_, P, hP, hslot⟩ := h.slots _ mp hplace.2
    have haim : Aim s P.slot := by
      refine Or.inl ⟨by omega, ?_⟩
      rw [hcurrent]
      exact hslot
    obtain ⟨hf, hok⟩ := start_playerOk h hP (Or.inr haim)
    exact h.onOccupant hs (by nofun) (not_making hs rfl) hP hf hok (modify_of_get hP _)
      ⟨fun _ => rfl, fun _ => rfl, rfl⟩ rfl
      (scrollOk_of_place rfl hcurrent hindex ⟨by omega, hplace.1⟩)
  | init i pc _ hinit => exact initMove_inv h hs hinit
  | preloadDone i _ => exact h.goto hs (by nofun) (not_making hs rfl) hplace.2
  | preloadNext i hmore _ =>
    exact h.goto hs (by nofun) (not_making hs rfl) ⟨by omega, fun _ => hplace.2, trivial⟩
  | preloadSkip i _ _ => exact h.goto hs (by nofun) (not_making hs rfl) ⟨by omega, hplace.2⟩
  | released mp hmp _ =>
    obtain ⟨_, P, hP, _⟩ := h.slots _ mp hmp
    obtain ⟨hf, hok⟩ := stop_playerOk h hP
    refine h.onOccupant hs (by nofun) (not_making hs rfl) hP hf hok (modify_of_get hP _)
      ⟨fun _ => rfl, fun _ => rfl, rfl⟩ rfl (scrollOk_of_place rfl hcurrent hindex ?_)
    exact ⟨hplace, occupant_set hP hmp (modify_of_get hP _)
      ⟨fun _ => rfl, fun _ => rfl, rfl⟩ (settled_stop P)⟩
  | notReleased _ => exact h.finish hs (by nofun) (not_making hs rfl) hplace
  | releasedDown mp hmp =>
    have hnone := not_making hs rfl
    obtain ⟨_, P, hP, _⟩ := h.slots _ mp hmp
    have hborn : P.loop ≠ .none := fun e => hnone mp ((h.players mp P hP).unborn e)
    obtain ⟨hf, hok, hgone⟩ := shutdown_playerOk h hP (hplace.2 mp P hmp hP) hborn
    refine h.onOccupant hs (by nofun) hnone hP hf hok (modify_of_get hP _)
      ⟨fun _ => rfl, fun _ => rfl, rfl⟩ rfl (scrollOk_of_place rfl hcurrent hindex ?_)
    exact ⟨hplace.1, occupant_set hP hmp (modify_of_get hP _)
      ⟨fun _ => rfl, fun _ => rfl, rfl⟩ hgone⟩
  | noneReleased hmp =>
    refine h.goto hs (by nofun) (not_making hs rfl) ⟨hplace.1, ?_⟩
    intro mp P hj
    rw [hmp] at hj
    cases hj
  | releasedClear =>
    refine h.emptySlot hs (by nofun) (not_making hs rfl) hplace.2 rfl rfl rfl rfl ⟨?_, ?_⟩
    · show -1 ≤ s.feed.currentIndex
      omega
    · intro _
      show Numbered _ s.feed.currentIndex
      rw [hcurrent]
      refine numbered_setVp hplace.1 ?_
      intro e
      show (s.feed.pool (slotOf (releaseBefore index))).feedIndex = index
      rw [← e]
      exact hplace.1

/-- **The index moves**: the aim at the previous video stays until the pause. -/
theorem enterScroll_inv (h : Inv s) (hstep : enterScroll s index = some t) : Inv t := by
  unfold enterScroll at hstep
  split at hstep
  · rename_i hvalid
    split at hstep
    · cases hstep
    · rename_i hs
      cases hstep
      have hok := h.scroll
      unfold ScrollOk at hok
      rw [hs] at hok
      have haim : ∀ k, Aim s k → Aim { s with
          feed := { s.feed with currentIndex := index }
          scroll := some (index, .pausePrev s.feed.currentIndex) } k := by
        intro k hk
        rcases hk with ⟨hnonneg, hk⟩ | ⟨_, _, hs', _⟩
        · exact Or.inr ⟨index, s.feed.currentIndex, rfl, hnonneg, hk⟩
        · rw [hs] at hs'
          cases hs'
      have hmaking : ∀ mp, ¬ Making s mp := by
        intro mp
        unfold Making
        rw [hs]
        exact id
      refine h.swipe rfl (fun mp P hP => ⟨P, hP, rfl, id⟩) haim ?_ h.slots
        (scrollOk_of_place rfl rfl hvalid.1 hok.2)
      intro mp P hP
      exact (h.players mp P hP).keep Or.inr (fun hm => absurd hm (hmaking mp)) (haim P.slot)
  · cases hstep
    exact h

end Swipe

/-! ## 2. Runs -/

theorem init_inv (urls : List String) : Inv (State.init urls) where
  players _ _ hP := by cases hP
  slots _ _ hmp := by cases hmp
  calls _ hc := by cases hc
  scroll := ⟨Int.le_refl _, fun h => absurd h (show ¬ (0 : Int) ≤ -1 by decide)⟩

/-- **One step keeps the invariant.** -/
theorem playStep_inv {s t : State} {a : PlayAct} (h : Inv s) (hc : Unhurried s a)
    (hstep : playStep s a = some t) : Inv t := by
  cases a with
  | scrollTo index => exact enterScroll_inv h hstep
  | scroll ok => exact scrollStep_inv h hc hstep
  | invoke cmd =>
    cases hstep
    refine h.callsOnly rfl rfl rfl ?_
    intro c hc
    rcases List.mem_append.mp hc with hold | hnew
    · exact Or.inl hold
    · rw [List.mem_singleton.mp hnew]
      cases cmd <;> exact Or.inr trivial
  | call n => exact callStep_inv h hstep
  | loop t => exact loopStep_inv h hstep hc
  | post mp m => exact post_inv h hc hstep

theorem reach_inv {urls : List String} {s : State} (h : (playback urls).Reach Unhurried s) :
    Inv s :=
  h.invariant (init_inv urls) fun _ _ _ hi hc hs => playStep_inv hi hc hs

/-- No call is under way and no message is undelivered. -/
def Quiescent (s : State) : Prop :=
  s.scroll = none ∧ s.calls = [] ∧
    ∀ P ∈ s.players, (P.aborted = true ∨ P.queue = []) ∧
      (P.loop = .none ∨ P.loop = .wait ∨ P.loop = .ended)

/-- **Only the current video plays.** -/
def OnlyCurrent (s : State) : Prop :=
  ∀ mp P, s.players[mp]? = some P → P.mpState = .started →
    (s.feed.slot s.feed.currentIndex).mp = some mp ∧
      (s.feed.slot s.feed.currentIndex).feedIndex = s.feed.currentIndex

/-- A player that is STARTED at rest runs and plays on. -/
theorem Inv.willPlay_started {s : State} (h : Inv s) (hq : Quiescent s) {mp : Nat} {P : Player}
    (hP : s.players[mp]? = some P) (hstarted : P.mpState = .started) :
    P.aborted = false ∧ WillPlay P := by
  obtain ⟨hqueue, hloop⟩ := hq.2.2 P (List.mem_of_getElem? hP)
  have hholds : holds P.loop = false := by
    rcases hloop with e | e | e <;> rw [e] <;> rfl
  have hplays : PlaysNow P := (playsNow_started hholds).mpr hstarted
  have hrun : P.aborted = false := by
    cases ha : P.aborted with
    | false => rfl
    | true => exact absurd hplays ((h.players mp P hP).sound.halted ha)
  have hempty : P.queue = [] := by
    rcases hqueue with ha | hempty
    · rw [hrun] at ha
      cases ha
    · exact hempty
  refine ⟨hrun, ?_⟩
  rw [willPlay_running hrun, hempty]
  exact hplays

theorem onlyCurrent_of_inv {s : State} (h : Inv s) (hq : Quiescent s) : OnlyCurrent s := by
  have hscroll := hq.1
  intro mp P hP hstarted
  have hok := h.players mp P hP
  obtain ⟨hrun, hwill⟩ := h.willPlay_started hq hP hstarted
  have hscrollOk := h.scroll
  unfold ScrollOk at hscrollOk
  rw [hscroll] at hscrollOk
  rcases hok.playing hwill with ⟨hnonneg, hslot⟩ | ⟨_, _, hs, _⟩
  · have hhome : (s.feed.pool P.slot).mp = some mp := by
      refine hok.home.resolve_left ?_
      intro hg
      rw [hg.1] at hrun
      cases hrun
    rw [hslot] at hhome
    exact ⟨hhome, hscrollOk.2 hnonneg⟩
  · rw [hscroll] at hs
    cases hs

/-- **Only the current video plays**, in every run that is not hurried, whenever it comes to
    rest. -/
theorem onlyCurrentPlays (urls : List String) {s : State}
    (h : (playback urls).Reach Unhurried s) (hq : Quiescent s) : OnlyCurrent s :=
  onlyCurrent_of_inv (reach_inv h) hq

/-! ## 3. Two runs -/

instance (s : State) : Decidable (Quiescent s) := inferInstanceAs (Decidable (_ ∧ _ ∧ _))

/-- The first swipe of a feed of two videos, which makes both players. The first one is prepared,
    and its loop goes on up to the call of `ijkmp_start`. -/
def upToStart : List PlayAct :=
  .scrollTo 0 :: List.replicate 17 (.scroll true) ++ .post 0 .prepared ::
    List.replicate 10 (.loop 0)

/-- A swipe to the second video, whose player is not prepared yet. -/
def swipeOn : List PlayAct := .scrollTo 1 :: List.replicate 4 (.scroll true)

/-- The swipe behind the start: the second video is prepared, and all messages are delivered. -/
def swipeAfterStart : List PlayAct :=
  upToStart ++ List.replicate 14 (.loop 0) ++ swipeOn ++ .post 1 .prepared ::
    List.replicate 24 (.loop 1) ++ List.replicate 5 (.loop 0)

/-- The swipe between the loop's test and its start; all messages are delivered. -/
def swipeBeforeStart : List PlayAct :=
  upToStart ++ swipeOn ++ List.replicate 14 (.loop 0) ++ List.replicate 4 (.loop 1)

/-- What is seen of a state: whether it is at rest, the index and the players' states. -/
def seen (s : State) : Bool × Int × List MpState :=
  (decide (Quiescent s), s.feed.currentIndex, s.players.map Player.mpState)

theorem onlyCurrentPlays_swipeAfterStart : ∃ s, (playback ["a", "b"]).Reach Unhurried s ∧
    Quiescent s ∧ s.players.map Player.mpState = [.paused, .started] ∧ OnlyCurrent s := by
  have hseen : ((playback ["a", "b"]).exec (State.init ["a", "b"]) swipeAfterStart).map seen =
      some (true, 1, [.paused, .started]) := by decide
  have hmeets : (playback ["a", "b"]).meets Unhurried (State.init ["a", "b"]) swipeAfterStart := by
    decide
  obtain ⟨s, hs, hobs⟩ := Option.map_eq_some_iff.mp hseen
  simp only [seen, Prod.mk.injEq, decide_eq_true_eq] at hobs
  obtain ⟨hq, _, hstates⟩ := hobs
  have hreach := Machine.steps_of_exec hs hmeets
  exact ⟨s, hreach, hq, hstates, onlyCurrentPlays ["a", "b"] hreach hq⟩

/-- **The first video plays on** behind the swipe: its loop's start removed the pause. -/
theorem playsOn_swipeBeforeStart :
    ¬ ∀ s, (playback ["a", "b"]).Reach Machine.Any s → Quiescent s → OnlyCurrent s := by
  intro hall
  have hseen : ((playback ["a", "b"]).exec (State.init ["a", "b"]) swipeBeforeStart).map
      (fun s => (seen s, (s.feed.slot s.feed.currentIndex).mp)) =
      some ((true, 1, [.started, .asyncPreparing]), some 1) := by decide
  obtain ⟨s, hs, hobs⟩ := Option.map_eq_some_iff.mp hseen
  simp only [seen, Prod.mk.injEq, decide_eq_true_eq] at hobs
  obtain ⟨⟨hq, _, hstates⟩, hcurrent⟩ := hobs
  have hreach := Machine.steps_of_exec hs (Machine.meets_any _ _)
  -- the player number 0 is STARTED, the slot of the index holds number 1
  have hfirst : (s.players.map Player.mpState)[0]? = some .started := by rw [hstates]; rfl
  rw [List.getElem?_map] at hfirst
  obtain ⟨P, hP, hstarted⟩ := Option.map_eq_some_iff.mp hfirst
  have hmp := (hall s hreach hq 0 P hP hstarted).1
  rw [hcurrent] at hmp
  cases hmp

end Viral.Feed
