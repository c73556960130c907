/-
  File:      ViralEngine/Feed/Binding.lean
  Subject:   WHICH PLAYER A SLOT AND A MESSAGE LOOP BELONG TO, IN EVERY RUN.

  Unlike `Inv` of Feed/Aim.lean this asks nothing of the interleaving: a message loop that begins
  late may find another player in its slot and work on that one.

  * `Kin` -- what the calls of ijkplayer leave of a player;
  * `Bound` -- a slot holds a player that was created for the slot's number, a loop works on a
    player of its own slot, a player outside its slot is aborted, and only the swipe that makes a
    player sees it without a thread;
  * `playStep_bound`, `reach_bound` -- it holds in every run.
-/
import ViralEngine.Feed.OnlyCurrent

namespace Viral.Feed

open Viral.Lib Viral.Ijk Viral.Ijk.Player

/-! ## 1. What the calls leave of a player -/

/-- The same thread on the same slot; an aborted queue stays so. -/
structure Kin (P Q : Player) : Prop where
  slot : Q.slot = P.slot
  loop : Q.loop = P.loop
  target : Q.target = P.target
  aborted : P.aborted = true → Q.aborted = true

section Kin

variable {P Q : Player}

theorem Kin.refl (P : Player) : Kin P P := ⟨rfl, rfl, rfl, id⟩

theorem kin_of_sameThread (h : SameThread P Q) : Kin P Q :=
  ⟨h.slot, h.loop, h.target, fun ha => h.aborted.trans ha⟩

theorem kin_put (P : Player) (m : Msg) : Kin P (P.put m) := by
  obtain ⟨hslot, hloop, htarget, ha⟩ := put_thread P m
  exact ⟨hslot, hloop, htarget, ha.trans⟩

theorem kin_start (P : Player) : Kin P P.start := by
  rcases start_cases P with e | ⟨_, _, e⟩
  · rw [e]
    exact Kin.refl P
  · rw [e]
    exact ⟨rfl, rfl, rfl, id⟩

theorem kin_pause (P : Player) : Kin P P.pause := by
  rcases pause_cases P with e | ⟨_, _, e⟩
  · rw [e]
    exact Kin.refl P
  · rw [e]
    exact ⟨rfl, rfl, rfl, id⟩

theorem kin_stop (P : Player) : Kin P P.stop := by
  obtain ⟨hloop, hslot, htarget, hcases⟩ := stop_cases P
  refine ⟨hslot, hloop, htarget, fun ha => ?_⟩
  rcases hcases with ⟨_, e⟩ | ⟨_, ha'⟩
  · rw [e]
    exact ha
  · exact ha'

theorem kin_shutdown (P : Player) : Kin P P.shutdown := ⟨rfl, rfl, rfl, fun _ => rfl⟩

theorem kin_take {pc : LoopPc} (h : P.take = some (Q, pc)) : Kin P Q := by
  rcases take_cases h with ⟨_, rfl, _⟩ | ⟨_, m, rest, _, rfl, _⟩
  · exact Kin.refl _
  · exact ⟨rfl, rfl, rfl, id⟩

/-- What the calls make of a player without a thread: nothing. -/
def Fresh (P : Player) : Prop := P = Player.create P.slot ∨ P = initialized P.slot

theorem Fresh.aborted (h : Fresh P) : P.aborted = true := by
  rcases h with e | e <;> rw [e] <;> rfl

theorem Fresh.refuses (h : Fresh P) : stoppable P.mpState = false := by
  rcases h with e | e <;> rw [e] <;> rfl

theorem Fresh.stop (h : Fresh P) : P.stop = P := by
  unfold Player.stop
  rw [if_neg (by rw [h.refuses]; exact Bool.false_ne_true)]

theorem Fresh.shutdown (h : Fresh P) : P.shutdown = P := by
  unfold Player.shutdown
  rw [← h.aborted]

end Kin

/-! ## 2. The invariant -/

/-- A slot's player was created for the slot's number and given this slot. -/
def SlotBound (s : State) : Prop :=
  ∀ k mp, (s.feed.pool k).mp = some mp →
    s.feed.created[mp]? = some (s.feed.pool k).feedIndex ∧ ∃ P, s.players[mp]? = some P ∧ P.slot = k

/-- The thread has not read `vp->mp`, or has found NULL there. -/
def blind : LoopPc → Bool
  | .none | .spawned | .crashed => true
  | _ => false

/-- Outside its slot a player is aborted; its thread works on a player of the same slot, and does
    nothing yet on one that has no thread of its own. -/
structure PlayerBound (s : State) (mp : Nat) (P : Player) : Prop where
  live : P.aborted = true ∨ (s.feed.pool P.slot).mp = some mp
  aimed : blind P.loop = false → ∃ j, P.target = some j
  target : ∀ j, P.target = some j → ∃ Q, s.players[j]? = some Q ∧ Q.slot = P.slot ∧
    (Q.loop = .none → P.loop = .wait ∨ P.loop = .ended)

/-- What holds at each place of the renewal of a slot. -/
def InitBound (s : State) (next : Int) : InitPc → Prop
  | .stop | .shutdown => True
  | .clear => Occupant s next (·.aborted = true)
  | .number => (s.feed.slot next).mp = none
  | .create => (s.feed.slot next).mp = none ∧ Numbered s next
  | .source => Holds s next (Player.create (slotOf next))
  | .preloading | .prepare => Holds s next (initialized (slotOf next))

/-- What the swipe knows at its places. -/
def PlaceBound (s : State) : Option (Int × ScrollPc) → Prop
  | some (index, .init i pc) => InitBound s (index + i) pc
  | some (index, .releaseClear) => Occupant s (releaseBefore index) (·.aborted = true)
  | _ => True

/-- **The bindings.** -/
structure Bound (s : State) : Prop where
  made : s.feed.created.length = s.players.length
  slots : SlotBound s
  players : ∀ mp P, s.players[mp]? = some P → PlayerBound s mp P
  unborn : ∀ mp P, s.players[mp]? = some P → P.loop = .none → Making s mp
  place : PlaceBound s s.scroll

section Bound

variable {s t : State}

/-- A player without a thread is as `ijkmp_create` or `ijkmp_set_data_source` left it. -/
theorem Bound.fresh (h : Bound s) {mp : Nat} {P : Player} (hP : s.players[mp]? = some P)
    (hl : P.loop = .none) : Fresh P := by
  have hm := h.unborn mp P hP hl
  have hp := h.place
  unfold Making at hm
  have hone : ∀ {index : Int} {R : Player}, (s.feed.slot index).mp = some mp →
      Holds s index R → P = R := by
    intro index R hmp hR
    obtain ⟨_, mp', hmp', hR'⟩ := hR
    rw [hmp] at hmp'
    rw [← Option.some.inj hmp', hP] at hR'
    exact Option.some.inj hR'
  split at hm
  · rename_i index i e
    rw [e] at hp
    have e' := hone hm hp
    rw [e']
    exact Or.inl rfl
  · rename_i index i e
    rw [e] at hp
    have e' := hone hm hp
    rw [e']
    exact Or.inr rfl
  · rename_i index i e
    rw [e] at hp
    have e' := hone hm hp
    rw [e']
    exact Or.inr rfl
  · exact absurd hm id

/-- The players keep their slots, and none loses its thread. -/
def Onward (s t : State) : Prop :=
  ∀ (j : Nat) (Q : Player), s.players[j]? = some Q →
    ∃ Q', t.players[j]? = some Q' ∧ Q'.slot = Q.slot ∧ (Q'.loop = .none → Q.loop = .none)

theorem onward_set {mp : Nat} {P Q : Player} (hP : s.players[mp]? = some P)
    (hslot : Q.slot = P.slot) (hborn : Q.loop = .none → P.loop = .none)
    (hplayers : t.players = s.players.set mp Q) : Onward s t := by
  intro j R hR
  rw [hplayers, List.getElem?_set]
  by_cases e : mp = j
  · subst e
    have e' : P = R := Option.some.inj (hP.symm.trans hR)
    rw [if_pos rfl, if_pos (List.getElem?_eq_some_iff.mp hP).1, ← e']
    exact ⟨Q, rfl, hslot, hborn⟩
  · rw [if_neg e]
    exact ⟨R, hR, rfl, id⟩

theorem PlayerBound.keep {mp : Nat} {P : Player} (h : PlayerBound s mp P) (ho : Onward s t)
    (hlive : (s.feed.pool P.slot).mp = some mp → P.aborted = true ∨
      (t.feed.pool P.slot).mp = some mp) : PlayerBound t mp P where
  live := h.live.elim Or.inl hlive
  aimed := h.aimed
  target j hj := by
    obtain ⟨Q, hQ, hslot, hl⟩ := h.target j hj
    obtain ⟨Q', hQ', hslot', hborn⟩ := ho j Q hQ
    exact ⟨Q', hQ', hslot'.trans hslot, fun e => hl (hborn e)⟩

/-- **One player changes.** -/
theorem Bound.change (h : Bound s) {mp : Nat} {P Q : Player} (hP : s.players[mp]? = some P)
    (hslot : Q.slot = P.slot) (hborn : Q.loop = .none → P.loop = .none)
    (hok : PlayerBound s mp Q) (hplayers : t.players = s.players.set mp Q)
    (hring : SameRing s t) (hcreated : t.feed.created = s.feed.created)
    (hunborn : ∀ j R, t.players[j]? = some R → R.loop = .none → Making t j)
    (hplace : PlaceBound t t.scroll) : Bound t := by
  have ho : Onward s t := onward_set hP hslot hborn hplayers
  have hkeep : ∀ j R, PlayerBound s j R → PlayerBound t j R := by
    intro j R hR
    refine hR.keep ho ?_
    intro hmp
    rw [hring.mp]
    exact Or.inr hmp
  refine ⟨?_, ?_, ?_, hunborn, hplace⟩
  · rw [hcreated, hplayers, List.length_set]
    exact h.made
  · intro k j hj
    rw [hring.mp] at hj
    obtain ⟨hidx, R, hR, hRslot⟩ := h.slots k j hj
    obtain ⟨R', hR', hslot', _⟩ := ho j R hR
    rw [hcreated, hring.feedIndex]
    exact ⟨hidx, R', hR', hslot'.trans hRslot⟩
  · intro j R hR
    rw [hplayers] at hR
    rcases set_cases hR with ⟨rfl, rfl⟩ | hold
    · exact hkeep _ _ hok
    · exact hkeep j R (h.players j R hold)

/-! ### Beside the swipe -/

section Beside

variable {mp : Nat} {P Q : Player}

theorem occupant_keep {index : Int} (hP : s.players[mp]? = some P)
    (hab : P.aborted = true → Q.aborted = true) (hplayers : t.players = s.players.set mp Q)
    (hring : SameRing s t) (h : Occupant s index (·.aborted = true)) :
    Occupant t index (·.aborted = true) := by
  intro j R hj hR
  have hj' : (s.feed.slot index).mp = some j := (hring.mp _).symm.trans hj
  rw [hplayers] at hR
  rcases set_cases hR with ⟨rfl, rfl⟩ | hold
  · exact hab (h _ P hj' hP)
  · exact h j R hj' hold

theorem holds_keep {index : Int} {R : Player} (hP : s.players[mp]? = some P)
    (hfresh : P.loop = .none → Q = P) (hplayers : t.players = s.players.set mp Q)
    (hring : SameRing s t) (hl : R.loop = .none) (h : Holds s index R) : Holds t index R := by
  obtain ⟨hnum, j, hj, hR⟩ := h
  refine ⟨(numbered_congr hring).mpr hnum, j, (hring.mp _).trans hj, ?_⟩
  rw [hplayers, List.getElem?_set]
  by_cases e : mp = j
  · subst e
    have e' : P = R := Option.some.inj (hP.symm.trans hR)
    rw [if_pos rfl, if_pos (List.getElem?_eq_some_iff.mp hP).1, hfresh (by rw [e']; exact hl), e']
  · rw [if_neg e]
    exact hR

theorem PlaceBound.keep (hP : s.players[mp]? = some P) (hab : P.aborted = true → Q.aborted = true)
    (hfresh : P.loop = .none → Q = P) (hplayers : t.players = s.players.set mp Q)
    (hring : SameRing s t) {p : Option (Int × ScrollPc)} (h : PlaceBound s p) : PlaceBound t p := by
  match p with
  | some (index, .init i pc) =>
    cases pc with
    | stop | shutdown => trivial
    | clear => exact occupant_keep hP hab hplayers hring h
    | number => exact (hring.mp _).trans h
    | create => exact ⟨(hring.mp _).trans h.1, (numbered_congr hring).mpr h.2⟩
    | source => exact holds_keep hP hfresh hplayers hring rfl h
    | preloading | prepare => exact holds_keep hP hfresh hplayers hring rfl h
  | some (index, .releaseClear) => exact occupant_keep hP hab hplayers hring h
  | some (_, .pausePrev _) | some (_, .play) | some (_, .start _) | some (_, .preload _)
  | some (_, .release) | some (_, .releaseShutdown) | none => trivial

/-- **One player changes beside the swipe.** -/
theorem Bound.beside (h : Bound s) (hP : s.players[mp]? = some P) (hslot : Q.slot = P.slot)
    (hborn : Q.loop = .none → P.loop = .none) (hab : P.aborted = true → Q.aborted = true)
    (hfresh : P.loop = .none → Q = P) (hok : PlayerBound s mp Q)
    (hplayers : t.players = s.players.set mp Q) (hring : SameRing s t)
    (hcreated : t.feed.created = s.feed.created) (hscroll : t.scroll = s.scroll) : Bound t := by
  refine h.change hP hslot hborn hok hplayers hring hcreated ?_ ?_
  · intro j R hR hl
    rw [making_congr hring hscroll]
    rw [hplayers] at hR
    rcases set_cases hR with ⟨rfl, rfl⟩ | hold
    · exact h.unborn _ P hP (hborn hl)
    · exact h.unborn j R hold hl
  · rw [hscroll]
    exact h.place.keep hP hab hfresh hplayers hring

/-- A call of ijkplayer on a player, whoever makes it. -/
theorem Bound.onPlayer (h : Bound s) {f : Player → Player}
    (hkin : ∀ P, s.players[mp]? = some P → Kin P (f P))
    (hfresh : ∀ P, s.players[mp]? = some P → P.loop = .none → f P = P) :
    Bound (s.onPlayer mp f) := by
  cases hP : s.players[mp]? with
  | none =>
    have e : s.onPlayer mp f = s := by
      unfold State.onPlayer
      rw [modify_of_none hP]
    rw [e]
    exact h
  | some P =>
    have hk := hkin P hP
    have hok : PlayerBound s mp (f P) := by
      have hold := h.players mp P hP
      refine ⟨?_, ?_, ?_⟩
      · rw [hk.slot]
        exact hold.live.imp hk.aborted id
      · rw [hk.target, hk.loop]
        exact hold.aimed
      · rw [hk.target, hk.slot, hk.loop]
        exact hold.target
    refine h.beside hP hk.slot ?_ hk.aborted (hfresh P hP) hok (modify_of_get hP f)
      ⟨fun _ => rfl, fun _ => rfl, rfl⟩ rfl rfl
    rw [hk.loop]
    exact id

/-- A thread moves on; its target may be set now. -/
theorem Bound.thread (h : Bound s) {n : Nat} {T : Player} (hT : s.players[n]? = some T)
    {pc : LoopPc} {target : Option Nat} (hborn : T.loop ≠ .none) (hpc : pc ≠ .none)
    (haimed : blind pc = false → ∃ j, target = some j)
    (htarget : ∀ j, target = some j → ∃ Q, s.players[j]? = some Q ∧ Q.slot = T.slot ∧
      (Q.loop = .none → pc = .wait ∨ pc = .ended)) :
    Bound (s.onPlayer n fun P => { P with loop := pc, target := target }) := by
  refine h.beside hT (Q := { T with loop := pc, target := target }) rfl
    (fun e => absurd e hpc) id (fun e => absurd e hborn)
    ⟨(h.players n T hT).live, haimed, htarget⟩
    (modify_of_get hT _) ⟨fun _ => rfl, fun _ => rfl, rfl⟩ rfl rfl

theorem setLoop_eq {n : Nat} {T : Player} (hT : s.players[n]? = some T) (pc : LoopPc) :
    s.setLoop n pc = s.onPlayer n fun P => { P with loop := pc, target := T.target } := by
  unfold State.setLoop State.onPlayer
  rw [modify_of_get hT, modify_of_get hT]

/-- A thread that is not at the queue works on a player with a thread. -/
theorem Bound.target_born (h : Bound s) {n : Nat} {T : Player} (hT : s.players[n]? = some T)
    (hw : T.loop ≠ .wait) (he : T.loop ≠ .ended) {j : Nat} (hj : T.target = some j) :
    ∃ Q, s.players[j]? = some Q ∧ Q.slot = T.slot ∧ Q.loop ≠ .none := by
  obtain ⟨Q, hQ, hslot, hl⟩ := (h.players n T hT).target j hj
  refine ⟨Q, hQ, hslot, fun e => ?_⟩
  rcases hl e with hl | hl
  · exact hw hl
  · exact he hl

/-- A thread moves on and keeps its target. -/
theorem Bound.setLoop (h : Bound s) {n : Nat} {T : Player} (hT : s.players[n]? = some T)
    {pc : LoopPc} (hborn : T.loop ≠ .none) (hw : T.loop ≠ .wait) (he : T.loop ≠ .ended)
    (haim : blind T.loop = true → pc = .crashed) (hpc : pc ≠ .none) : Bound (s.setLoop n pc) := by
  rw [setLoop_eq hT]
  refine h.thread hT hborn hpc ?_ ?_
  · intro hsee
    refine (h.players n T hT).aimed ?_
    cases hb : blind T.loop with
    | false => rfl
    | true =>
      rw [haim hb] at hsee
      cases hsee
  intro j hj
  obtain ⟨Q, hQ, hslot, hl⟩ := h.target_born hT hw he hj
  exact ⟨Q, hQ, hslot, fun e => absurd e hl⟩

end Beside

/-! ### The message loops and the other calls -/

theorem PlaceBound.congr (hplayers : t.players = s.players) (hring : SameRing s t)
    {p : Option (Int × ScrollPc)} (h : PlaceBound s p) : PlaceBound t p := by
  have hocc : ∀ {index : Int}, Occupant s index (·.aborted = true) →
      Occupant t index (·.aborted = true) := by
    intro index ho j R hj hR
    rw [hplayers] at hR
    exact ho j R ((hring.mp _).symm.trans hj) hR
  have hholds : ∀ {index : Int} {R : Player}, Holds s index R → Holds t index R := by
    rintro index R ⟨hnum, j, hj, hR⟩
    exact ⟨(numbered_congr hring).mpr hnum, j, (hring.mp _).trans hj, by rw [hplayers]; exact hR⟩
  match p with
  | some (index, .init i pc) =>
    cases pc with
    | stop | shutdown => trivial
    | clear => exact hocc h
    | number => exact (hring.mp _).trans h
    | create => exact ⟨(hring.mp _).trans h.1, (numbered_congr hring).mpr h.2⟩
    | source => exact hholds h
    | preloading | prepare => exact hholds h
  | some (index, .releaseClear) => exact hocc h
  | some (_, .pausePrev _) | some (_, .play) | some (_, .start _) | some (_, .preload _)
  | some (_, .release) | some (_, .releaseShutdown) | none => trivial

/-- The swipe moves on, or something else than the players and the ring changes. -/
theorem Bound.moveOn (h : Bound s) (hplayers : t.players = s.players) (hring : SameRing s t)
    (hcreated : t.feed.created = s.feed.created) (hmaking : ∀ j, Making s j → Making t j)
    (hplace : PlaceBound t t.scroll) : Bound t := by
  refine ⟨?_, ?_, ?_, ?_, hplace⟩
  · rw [hcreated, hplayers]
    exact h.made
  · intro k j hj
    rw [hring.mp] at hj
    rw [hcreated, hring.feedIndex, hplayers]
    exact h.slots k j hj
  · intro j R hR
    rw [hplayers] at hR
    refine (h.players j R hR).keep ?_ ?_
    · intro i Q hQ
      rw [hplayers]
      exact ⟨Q, hQ, rfl, id⟩
    · intro hmp
      rw [hring.mp]
      exact Or.inr hmp
  · intro j R hR hl
    rw [hplayers] at hR
    exact hmaking j (h.unborn j R hR hl)

theorem Bound.aside (h : Bound s) (hplayers : t.players = s.players) (hring : SameRing s t)
    (hcreated : t.feed.created = s.feed.created) (hscroll : t.scroll = s.scroll) : Bound t := by
  refine h.moveOn hplayers hring hcreated (fun j => (making_congr hring hscroll).mpr) ?_
  rw [hscroll]
  exact h.place.congr hplayers hring

/-- The thread behind a call on its target. -/
theorem onPlayer_thread {mp n : Nat} {T : Player} {f : Player → Player}
    (hT : s.players[n]? = some T) (hkin : ∀ P, s.players[mp]? = some P → Kin P (f P)) :
    ∃ U, (s.onPlayer mp f).players[n]? = some U ∧ U.loop = T.loop ∧ U.slot = T.slot ∧
      U.target = T.target := by
  show ∃ U, (s.players.modify mp f)[n]? = some U ∧ _
  rw [List.getElem?_modify]
  by_cases e : mp = n
  · subst e
    have hk := hkin T hT
    simp only [hT, if_true]
    exact ⟨f T, rfl, hk.loop, hk.slot, hk.target⟩
  · simp only [hT, if_neg e]
    exact ⟨T, rfl, rfl, rfl, rfl⟩

theorem kin_took {mp : Nat} {P Q : Player} {pc : LoopPc} (hP : s.players[mp]? = some P)
    (htake : P.take = some (Q, pc)) : ∀ R, s.players[mp]? = some R → Kin R Q := by
  intro R hR
  rw [Option.some.inj (hR.symm.trans hP)]
  exact kin_take htake

/-- A thread takes a message out of the queue; a player without a thread has none to give. -/
theorem Bound.took (h : Bound s) {mp : Nat} {P Q : Player} {pc : LoopPc}
    (hP : s.players[mp]? = some P) (htake : P.take = some (Q, pc)) :
    Bound (s.onPlayer mp fun _ => Q) := by
  refine h.onPlayer (kin_took hP htake) ?_
  intro R hR hRl
  have e : R = P := Option.some.inj (hR.symm.trans hP)
  rw [e] at hRl ⊢
  rcases take_cases htake with ⟨_, e, _⟩ | ⟨ha, _⟩
  · exact e
  · rw [(h.fresh hP hRl).aborted] at ha
    cases ha

/-- `ijkmp_get_msg` serves the message a thread has taken. -/
theorem Bound.served (h : Bound s) {n mp : Nat} {T : Player} {m : Msg}
    (hT : s.players[n]? = some T) (hl : T.loop = .got m) (htarget : T.target = some mp) :
    Bound (s.onPlayer mp fun P => P.serve m) := by
  refine h.onPlayer (fun R _ => kin_of_sameThread (sameThread_serve R m)) ?_
  intro R hR hRl
  obtain ⟨Q, hQ, _, hborn⟩ := h.target_born hT (by rw [hl]; nofun) (by rw [hl]; nofun) htarget
  rw [Option.some.inj (hR.symm.trans hQ)] at hRl
  exact absurd hRl hborn

/-- **A step of a message loop keeps the bindings.** -/
theorem loopStep_bound {n : Nat} (h : Bound s) (hstep : loopStep s n = some t) : Bound t := by
  obtain ⟨T, hT, hdo⟩ := loopStep_do hstep
  have hsees : ∀ {pc next : LoopPc}, T.loop = pc → blind pc = false →
      blind T.loop = true → next = .crashed := by
    intro pc next e hpc hb
    rw [e, hpc] at hb
    cases hb
  have hplace : ∀ {pc : LoopPc}, T.loop = pc → pc ≠ .none → pc ≠ .wait → pc ≠ .ended →
      T.loop ≠ .none ∧ T.loop ≠ .wait ∧ T.loop ≠ .ended := by
    intro pc e h1 h2 h3
    rw [e]
    exact ⟨h1, h2, h3⟩
  cases hdo with
  | found mp hl hmp =>
    obtain ⟨_, P, hP, hslot⟩ := h.slots _ mp hmp
    refine h.thread hT (by rw [hl]; nofun) (by nofun) (fun _ => ⟨mp, rfl⟩) ?_
    intro j hj
    cases hj
    exact ⟨P, hP, hslot, fun _ => Or.inl rfl⟩
  | lost hl hmp =>
    obtain ⟨h1, h2, h3⟩ := hplace hl (by nofun) (by nofun) (by nofun)
    exact h.setLoop hT h1 h2 h3 (fun _ => rfl) (by nofun)
  | took mp P Q pc hl htarget hP htake =>
    obtain ⟨P', hP', hslot, _⟩ := (h.players n T hT).target mp htarget
    have e : P' = P := Option.some.inj (hP'.symm.trans hP)
    subst e
    have hu := h.took hP htake
    obtain ⟨U, hU, hUl, hUslot, hUtarget⟩ := onPlayer_thread hT (kin_took hP htake)
    have epc : pc ≠ .none ∧ (P'.loop = .none → pc = .wait ∨ pc = .ended) := by
      rcases take_cases htake with ⟨_, _, rfl⟩ | ⟨ha, m, rest, _, _, rfl⟩
      · exact ⟨by nofun, fun _ => Or.inr rfl⟩
      · refine ⟨by nofun, fun hl' => ?_⟩
        rw [(h.fresh hP' hl').aborted] at ha
        cases ha
    rw [setLoop_eq hU]
    refine hu.thread hU (by rw [hUl, hl]; nofun) epc.1 (fun _ => ⟨mp, hUtarget.trans htarget⟩) ?_
    intro j hj
    rw [hUtarget, htarget] at hj
    cases hj
    refine ⟨Q, ?_, ?_, ?_⟩
    · show (s.players.modify mp fun _ => Q)[mp]? = some Q
      rw [modify_of_get hP', List.getElem?_set, if_pos rfl,
        if_pos (List.getElem?_eq_some_iff.mp hP').1]
    · rw [(kin_take htake).slot, hslot, hUslot]
    · rw [(kin_take htake).loop]
      exact epc.2
  | served m mp hl htarget =>
    obtain ⟨h1, h2, h3⟩ := hplace hl (by nofun) (by nofun) (by nofun)
    obtain ⟨U, hU, hUl, _, _⟩ :=
      onPlayer_thread hT fun R _ => kin_of_sameThread (sameThread_serve R m)
    rw [← hUl] at h1 h2 h3
    refine (h.served hT hl htarget).setLoop hU h1 h2 h3 (by rw [hUl]; exact hsees hl rfl) ?_
    cases m <;> nofun
  | stored state e hl =>
    have hne : T.loop ≠ .none ∧ T.loop ≠ .wait ∧ T.loop ≠ .ended := by
      rcases hl with e | e | e | e <;> exact hplace e (by nofun) (by nofun) (by nofun)
    have hsee : blind T.loop = true → LoopPc.fire e = .crashed := by
      rcases hl with e | e | e | e <;> exact hsees e rfl
    obtain ⟨h1, h2, h3⟩ := hne
    have hu : Bound (s.storeState T.slot state) :=
      h.aside rfl (sameRing_storeState s T.slot state) rfl rfl
    exact hu.setLoop hT h1 h2 h3 hsee (by nofun)
  | buffering hl =>
    obtain ⟨h1, h2, h3⟩ := hplace hl (by nofun) (by nofun) (by nofun)
    exact h.setLoop hT h1 h2 h3 (hsees hl rfl) (by nofun)
  | plays mp P hl htarget hP hplay =>
    obtain ⟨h1, h2, h3⟩ := hplace hl (by nofun) (by nofun) (by nofun)
    exact h.setLoop hT h1 h2 h3 (hsees hl rfl) (by nofun)
  | passed m hl =>
    obtain ⟨h1, h2, h3⟩ := hplace hl (by nofun) (by nofun) (by nofun)
    exact h.setLoop hT h1 h2 h3 (hsees hl rfl) (by nofun)
  | fired e pc hl hpc =>
    obtain ⟨h1, h2, h3⟩ := hplace hl (by nofun) (by nofun) (by nofun)
    have hu : Bound (s.setLoop n pc) :=
      h.setLoop hT h1 h2 h3 (hsees hl rfl) (by rcases hpc with rfl | rfl <;> nofun)
    exact hu.aside rfl ⟨fun _ => rfl, fun _ => rfl, rfl⟩ rfl rfl
  | indexRead hl =>
    obtain ⟨h1, h2, h3⟩ := hplace hl (by nofun) (by nofun) (by nofun)
    exact h.setLoop hT h1 h2 h3 (hsees hl rfl) (by nofun)
  | tested f pc hl hpc =>
    obtain ⟨h1, h2, h3⟩ := hplace hl (by nofun) (by nofun) (by nofun)
    exact h.setLoop hT h1 h2 h3 (hsees hl rfl) (by rcases hpc with rfl | rfl <;> nofun)
  | started mp hl htarget =>
    obtain ⟨h1, h2, h3⟩ := hplace hl (by nofun) (by nofun) (by nofun)
    have hkin : ∀ R, s.players[mp]? = some R → Kin R R.start := fun R _ => kin_start R
    have hu := h.onPlayer hkin fun R hR hRl => start_aborted (h.fresh hR hRl).aborted
    have hv : Bound ((s.onPlayer mp .start).log mp .start) :=
      hu.aside rfl ⟨fun _ => rfl, fun _ => rfl, rfl⟩ rfl rfl
    obtain ⟨U, hU, hUl, _, _⟩ := onPlayer_thread hT hkin
    rw [← hUl] at h1 h2 h3
    exact hv.setLoop hU h1 h2 h3 (by rw [hUl]; exact hsees hl rfl) (by nofun)

theorem callStep_bound {n : Nat} (h : Bound s) (hstep : callStep s n = some t) : Bound t := by
  cases callStep_cases hstep with
  | read => exact h.aside rfl ⟨fun _ => rfl, fun _ => rfl, rfl⟩ rfl rfl
  | act cmd mp =>
    have hu : Bound (s.onPlayer mp cmd.onPlayer) := by
      refine h.onPlayer ?_ ?_
      · intro P _
        cases cmd with
        | play => exact kin_start P
        | pause => exact kin_pause P
      · intro P hP hl
        cases cmd with
        | play => exact start_aborted (h.fresh hP hl).aborted
        | pause => exact pause_aborted (h.fresh hP hl).aborted
    exact hu.aside rfl ⟨fun _ => rfl, fun _ => rfl, rfl⟩ rfl rfl

theorem post_bound {mp : Nat} {m : Msg} (h : Bound s)
    (hstep : playStep s (.post mp m) = some t) : Bound t := by
  obtain ⟨P, _, _, rfl⟩ := post_cases hstep
  refine h.onPlayer (fun R _ => kin_put R m) ?_
  exact fun R hR hl => put_aborted (h.fresh hR hl).aborted

/-! ### The swipe -/

/-- The holder of the lock calls ijkplayer on a player and moves on, where it is making none. -/
theorem Bound.lockedCall {mp : Nat} {f : Player → Player} (h : Bound s) (hnone : ∀ j, ¬ Making s j)
    (hkin : ∀ P, Kin P (f P)) (hplayers : t.players = s.players.modify mp f)
    (hring : SameRing s t) (hcreated : t.feed.created = s.feed.created)
    (hplace : PlaceBound t t.scroll) : Bound t := by
  have hu : Bound (s.onPlayer mp f) := by
    refine h.onPlayer (fun P _ => hkin P) ?_
    exact fun P hP hl => absurd (h.unborn mp P hP hl) (hnone mp)
  refine hu.moveOn hplayers ⟨hring.mp, hring.feedIndex, hring.current⟩ hcreated ?_ hplace
  intro j hj
  have e : Making (s.onPlayer mp f) j ↔ Making s j :=
    making_congr (t := s.onPlayer mp f) ⟨fun _ => rfl, fun _ => rfl, rfl⟩ rfl
  exact absurd (e.mp hj) (hnone j)

/-- The swipe moves on, where it is making no player. -/
theorem Bound.goto {pc next : ScrollPc} {index : Int} (h : Bound s)
    (hs : s.scroll = some (index, pc)) (hpc : making pc = false)
    (hplace : PlaceBound s (some (index, next))) : Bound (s.goto index next) := by
  refine h.moveOn rfl ⟨fun _ => rfl, fun _ => rfl, rfl⟩ rfl ?_
    (hplace.congr rfl ⟨fun _ => rfl, fun _ => rfl, rfl⟩)
  exact fun j hj => absurd hj (not_making hs hpc j)

/-- A slot is emptied, or stays empty: the player it held is aborted. -/
theorem Bound.emptySlot {k : Slot} {vp : ViralPlayer} (h : Bound s) (hnone : ∀ j, ¬ Making s j)
    (hgone : ∀ mp P, (s.feed.pool k).mp = some mp → s.players[mp]? = some P → P.aborted = true)
    (hvp : vp.mp = none) (hfeed : t.feed = s.feed.setSlot k vp) (hplayers : t.players = s.players)
    (hplace : PlaceBound t t.scroll) : Bound t := by
  have hpool : ∀ j, t.feed.pool j = if j = k then vp else s.feed.pool j := by
    intro j
    rw [hfeed]
    rfl
  have hcreated : t.feed.created = s.feed.created := by
    rw [hfeed]
    rfl
  refine ⟨?_, ?_, ?_, ?_, hplace⟩
  · rw [hcreated, hplayers]
    exact h.made
  · intro j mp hmp
    rw [hpool] at hmp ⊢
    by_cases e : j = k
    · rw [if_pos e, hvp] at hmp
      cases hmp
    · rw [if_neg e] at hmp ⊢
      rw [hcreated, hplayers]
      exact h.slots j mp hmp
  · intro mp P hP
    rw [hplayers] at hP
    refine (h.players mp P hP).keep ?_ ?_
    · intro j Q hQ
      rw [hplayers]
      exact ⟨Q, hQ, rfl, id⟩
    · intro hmp
      by_cases e : P.slot = k
      · rw [e] at hmp
        exact Or.inl (hgone mp P hmp hP)
      · rw [hpool, if_neg e]
        exact Or.inr hmp
  · intro mp P hP hl
    rw [hplayers] at hP
    exact absurd (h.unborn mp P hP hl) (hnone mp)

/-- `ijkmp_create` in the emptied slot. -/
theorem Bound.create {pc : ScrollPc} {index next : Int} {vp : ViralPlayer} (h : Bound s)
    (hs : s.scroll = some (index, pc)) (hpc : making pc = false)
    (hempty : (s.feed.slot next).mp = none) (hvp : vp.mp = some s.players.length)
    (hidx : vp.feedIndex = next)
    (hpool : ∀ j, t.feed.pool j = if j = slotOf next then vp else s.feed.pool j)
    (hcreated : t.feed.created = s.feed.created ++ [next])
    (hplayers : t.players = s.players ++ [Player.create (slotOf next)])
    (hmaking : Making t s.players.length) (hplace : PlaceBound t t.scroll) : Bound t := by
  have hold : ∀ (j : Nat) (R : Player), s.players[j]? = some R → t.players[j]? = some R := by
    intro j R hR
    rw [hplayers, List.getElem?_append_left (List.getElem?_eq_some_iff.mp hR).1]
    exact hR
  have hlast : t.players[s.players.length]? = some (Player.create (slotOf next)) := by
    rw [hplayers, List.getElem?_concat_length]
  -- every player is an old one or the new one
  have hcases : ∀ (j : Nat) (R : Player), t.players[j]? = some R →
      s.players[j]? = some R ∨ j = s.players.length ∧ R = Player.create (slotOf next) := by
    intro j R hR
    rcases Nat.lt_or_ge j s.players.length with hlt | hge
    · rw [hplayers, List.getElem?_append_left hlt] at hR
      exact Or.inl hR
    · have hj : j = s.players.length := by
        have hlt := (List.getElem?_eq_some_iff.mp hR).1
        rw [hplayers, List.length_append, List.length_singleton] at hlt
        omega
      subst hj
      rw [hlast] at hR
      exact Or.inr ⟨rfl, (Option.some.inj hR).symm⟩
  refine ⟨?_, ?_, ?_, ?_, hplace⟩
  · rw [hcreated, hplayers, List.length_append, List.length_append, h.made]
    rfl
  · intro k mp hmp
    rw [hpool] at hmp ⊢
    by_cases e : k = slotOf next
    · rw [if_pos e] at hmp ⊢
      rw [hvp] at hmp
      rw [← Option.some.inj hmp, hidx, hcreated, ← h.made]
      refine ⟨List.getElem?_concat_length, Player.create (slotOf next), ?_, e.symm⟩
      rw [h.made]
      exact hlast
    · rw [if_neg e] at hmp ⊢
      obtain ⟨hcr, R, hR, hslot⟩ := h.slots k mp hmp
      refine ⟨?_, R, hold mp R hR, hslot⟩
      rw [hcreated, List.getElem?_append_left (List.getElem?_eq_some_iff.mp hcr).1]
      exact hcr
  · intro j R hR
    rcases hcases j R hR with hR | ⟨rfl, rfl⟩
    · refine (h.players j R hR).keep (fun i Q hQ => ⟨Q, hold i Q hQ, rfl, id⟩) ?_
      intro hmp
      by_cases e : R.slot = slotOf next
      · rw [e, show (s.feed.pool (slotOf next)).mp = none from hempty] at hmp
        cases hmp
      · rw [hpool, if_neg e]
        exact Or.inr hmp
    · exact ⟨Or.inl rfl, by nofun, by nofun⟩
  · intro j R hR hl
    rcases hcases j R hR with hR | ⟨rfl, _⟩
    · exact absurd (h.unborn j R hR hl) (not_making hs hpc j)
    · exact hmaking

/-- The player being made is replaced by what its making leaves. -/
theorem Bound.remake {i : Nat} {pc : InitPc} {index : Int} {mp : Nat} {P Q : Player} (h : Bound s)
    (hs : s.scroll = some (index, .init i pc)) (hmp : (s.feed.slot (index + i)).mp = some mp)
    (hP : s.players[mp]? = some P) (hl : P.loop = .none) (hslot : Q.slot = P.slot)
    (htarget : Q.target = none) (hblind : blind Q.loop = true)
    (hplayers : t.players = s.players.set mp Q) (hring : SameRing s t)
    (hcreated : t.feed.created = s.feed.created) (hborn : Q.loop = .none → Making t mp)
    (hplace : PlaceBound t t.scroll) : Bound t := by
  obtain ⟨_, P', hP', hPslot⟩ := h.slots _ mp hmp
  have e : P' = P := Option.some.inj (hP'.symm.trans hP)
  subst e
  refine h.change hP hslot (fun _ => hl) ⟨?_, ?_, ?_⟩ hplayers hring hcreated ?_
    hplace
  · rw [hslot, hPslot]
    exact Or.inr hmp
  · rw [hblind]
    nofun
  · rw [htarget]
    nofun
  · intro j R hR hRl
    rw [hplayers] at hR
    by_cases e : j = mp
    · subst e
      rw [List.getElem?_set, if_pos rfl, if_pos (List.getElem?_eq_some_iff.mp hP).1] at hR
      rw [← Option.some.inj hR] at hRl
      exact hborn hRl
    · rw [List.getElem?_set, if_neg (Ne.symm e)] at hR
      exact absurd (making_unique hs hmp (h.unborn j R hR hRl)) e

theorem Bound.initBound {index : Int} {i : Nat} {pc : InitPc} (h : Bound s)
    (hs : s.scroll = some (index, .init i pc)) : InitBound s (index + i) pc := by
  have hp := h.place
  rw [hs] at hp
  exact hp

/-- **A step of `viral_player_init_slot` keeps the bindings.** -/
theorem initMove_bound {index : Int} {i : Nat} {ok : Bool} {pc : InitPc} (h : Bound s)
    (hs : s.scroll = some (index, .init i pc)) (hm : InitMove s index i ok pc t) : Bound t := by
  have hinit := h.initBound hs
  have hself : ∀ vp : ViralPlayer, (s.setVp (slotOf (index + i)) vp).feed.slot (index + i) = vp :=
    setVp_slot_self s (index + i)
  cases hm with
  | stopped mp hmp =>
    exact h.lockedCall (not_making hs rfl) kin_stop rfl ⟨fun _ => rfl, fun _ => rfl, rfl⟩ rfl
      trivial
  | noneToStop hmp => exact h.goto hs rfl hmp
  | shutDown mp hmp =>
    obtain ⟨_, P, hP, _⟩ := h.slots _ mp hmp
    refine h.lockedCall (not_making hs rfl) kin_shutdown rfl ⟨fun _ => rfl, fun _ => rfl, rfl⟩ rfl
      ?_
    exact occupant_set hP hmp (modify_of_get hP _) ⟨fun _ => rfl, fun _ => rfl, rfl⟩ rfl
  | noneToShutDown hmp => exact h.goto hs rfl hmp
  | cleared =>
    refine h.emptySlot (not_making hs rfl) hinit rfl rfl rfl ?_
    exact congrArg ViralPlayer.mp (hself _)
  | numbered hvalid =>
    have hvp : ({ s.feed.slot (index + i) with
        feedIndex := index + i, state := .idle, surfaceSet := false, url := none } :
          ViralPlayer).mp = none := hinit
    refine h.emptySlot (not_making hs rfl) ?_ hvp rfl rfl ⟨?_, ?_⟩
    · intro mp P hmp _
      cases hinit.symm.trans hmp
    · exact (congrArg ViralPlayer.mp (hself _)).trans hinit
    · exact congrArg ViralPlayer.feedIndex (hself _)
  | outside hout =>
    have hvp : ({ s.feed.slot (index + i) with
        feedIndex := index + i, state := .idle, surfaceSet := false, url := none } :
          ViralPlayer).mp = none := hinit
    refine h.emptySlot (not_making hs rfl) ?_ hvp rfl rfl trivial
    intro mp P hmp _
    cases hinit.symm.trans hmp
  | created =>
    obtain ⟨hempty, hnumber⟩ := hinit
    have hlast : (s.players ++ [Player.create (slotOf (index + i))])[s.players.length]? =
        some (Player.create (slotOf (index + i))) := List.getElem?_concat_length
    have hvp : ({ s.feed.slot (index + i) with
        url := s.feed.urls[(index + i).toNat]?, mp := some s.players.length } :
          ViralPlayer).mp = some s.players.length := rfl
    refine h.create hs rfl hempty hvp hnumber (fun _ => rfl) rfl rfl ?_ ⟨?_, _, ?_, hlast⟩
    · exact congrArg ViralPlayer.mp (hself _)
    · exact (congrArg ViralPlayer.feedIndex (hself _)).trans hnumber
    · exact congrArg ViralPlayer.mp (hself _)
  | sourced mp hmp =>
    obtain ⟨hnumber, mp', hmp', hP⟩ := hinit
    have e : mp' = mp := Option.some.inj (hmp'.symm.trans hmp)
    subst e
    have hset : s.players.modify mp' Player.setDataSource =
        s.players.set mp' (initialized (slotOf (index + i))) := modify_of_get hP _
    refine h.remake hs hmp hP rfl (Q := initialized (slotOf (index + i))) rfl rfl rfl hset
      ⟨fun _ => rfl, fun _ => rfl, rfl⟩ rfl (fun _ => hmp) ⟨hnumber, mp', hmp, ?_⟩
    refine (congrArg (·[mp']?) hset).trans ?_
    rw [List.getElem?_set, if_pos rfl, if_pos (List.getElem?_eq_some_iff.mp hP).1]
  | noSource hmp =>
    obtain ⟨_, mp, hmp', _⟩ := hinit
    rw [hmp] at hmp'
    cases hmp'
  | preloading =>
    obtain ⟨hnumber, mp, hmp, hP⟩ := hinit
    have hring := sameRing_storeState s (slotOf (index + i)) .preloading
    refine h.moveOn rfl ⟨hring.mp, hring.feedIndex, hring.current⟩ rfl ?_
      ⟨(numbered_congr hring).mpr hnumber, mp, (hring.mp _).trans hmp, hP⟩
    intro j hj
    have e := making_unique hs hmp hj
    subst e
    exact (hring.mp _).trans hmp
  | prepared mp hmp =>
    obtain ⟨hnumber, mp', hmp', hP⟩ := hinit
    have e : mp' = mp := Option.some.inj (hmp'.symm.trans hmp)
    subst e
    have hfields := prepareAsync_initialized (slotOf (index + i)) ok
    refine h.remake hs hmp hP rfl (Q := (initialized (slotOf (index + i))).prepareAsync ok) ?_ ?_ ?_
      (modify_of_get hP _) ⟨fun _ => rfl, fun _ => rfl, rfl⟩ rfl ?_ trivial
    · rw [hfields]
      rfl
    · rw [hfields]
      rfl
    · rw [hfields]
      rfl
    · rw [hfields]
      nofun
  | noPrepare hmp =>
    obtain ⟨_, mp, hmp', _⟩ := hinit
    rw [hmp] at hmp'
    cases hmp'

/-- **A step of the swipe keeps the bindings.** -/
theorem scrollStep_bound {ok : Bool} (h : Bound s) (hstep : scrollStep s ok = some t) :
    Bound t := by
  obtain ⟨index, pc, hs, hm⟩ := scrollStep_cases hstep
  have hover : making pc = false → Bound { s with scroll := none } := by
    intro hpc
    refine h.moveOn rfl ⟨fun _ => rfl, fun _ => rfl, rfl⟩ rfl ?_ trivial
    exact fun j hj => absurd hj (not_making hs hpc j)
  cases hm with
  | paused prev mp hprev hmp =>
    exact h.lockedCall (not_making hs rfl) kin_pause rfl ⟨fun _ => rfl, fun _ => rfl, rfl⟩ rfl
      trivial
  | notPaused prev hnot => exact h.goto hs rfl trivial
  | found mp next hmp hidx hnext =>
    refine h.goto hs rfl ?_
    rcases hnext with rfl | rfl <;> trivial
  | missing hmiss => exact h.goto hs rfl trivial
  | started mp =>
    exact h.lockedCall (not_making hs rfl) kin_start rfl ⟨fun _ => rfl, fun _ => rfl, rfl⟩ rfl
      trivial
  | init i pc t hinit => exact initMove_bound h hs hinit
  | preloadDone i hdone => exact h.goto hs rfl trivial
  | preloadNext i hmore hidx => exact h.goto hs rfl trivial
  | preloadSkip i hmore hidx => exact h.goto hs rfl trivial
  | released mp hmp hidx =>
    exact h.lockedCall (not_making hs rfl) kin_stop rfl ⟨fun _ => rfl, fun _ => rfl, rfl⟩ rfl
      trivial
  | notReleased hnot => exact hover rfl
  | releasedDown mp hmp =>
    obtain ⟨_, P, hP, _⟩ := h.slots _ mp hmp
    refine h.lockedCall (not_making hs rfl) kin_shutdown rfl ⟨fun _ => rfl, fun _ => rfl, rfl⟩ rfl
      ?_
    exact occupant_set hP hmp (modify_of_get hP _) ⟨fun _ => rfl, fun _ => rfl, rfl⟩ rfl
  | noneReleased hmp =>
    refine h.goto hs rfl ?_
    intro mp P hmp' _
    rw [hmp] at hmp'
    cases hmp'
  | releasedClear =>
    have hp := h.place
    rw [hs] at hp
    exact h.emptySlot (not_making hs rfl) hp rfl rfl rfl trivial

theorem enterScroll_bound {index : Int} (h : Bound s) (hstep : enterScroll s index = some t) :
    Bound t := by
  unfold enterScroll at hstep
  split at hstep
  · split at hstep
    · cases hstep
    · rename_i hs
      cases hstep
      refine ⟨h.made, h.slots, ?_, ?_, trivial⟩
      · intro mp P hP
        exact (h.players mp P hP).keep (fun j Q hQ => ⟨Q, hQ, rfl, id⟩) Or.inr
      · intro mp P hP hl
        have hm := h.unborn mp P hP hl
        unfold Making at hm
        rw [hs] at hm
        exact absurd hm id
  · cases hstep
    exact h

/-- **One step keeps the bindings.** -/
theorem playStep_bound {a : PlayAct} (h : Bound s) (hstep : playStep s a = some t) : Bound t := by
  cases a with
  | scrollTo index => exact enterScroll_bound h hstep
  | scroll ok => exact scrollStep_bound h hstep
  | invoke cmd =>
    cases hstep
    exact h.aside rfl ⟨fun _ => rfl, fun _ => rfl, rfl⟩ rfl rfl
  | call n => exact callStep_bound h hstep
  | loop n => exact loopStep_bound h hstep
  | post mp m => exact post_bound h hstep

end Bound

theorem init_bound (urls : List String) : Bound (State.init urls) where
  made := rfl
  slots _ _ hmp := by cases hmp
  players _ _ hP := by cases hP
  unborn _ _ hP := by cases hP
  place := trivial

end Viral.Feed
