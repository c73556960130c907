/-
  File:      ViralEngine/Feed/Lifecycle.lean
  Subject:   THE FEED FROM `viral_feed_create` TO `viral_feed_destroy`, WITH THE REFERENCE COUNTS OF
             ITS PLAYERS (ViralEngine/core/ViralEngine.c, ijkplayer.c over Feed/Playback.lean).

  `ijkmp_create` starts the count at 1, `ijkmp_prepare_async` takes one more for the message loop,
  `ijkmp_dec_ref_p` gives one back and destroys the player at 0. `viral_msg_loop` gives back none.

  * `decRef`, `countStep` -- the counts, at the places of the swipe that change them;
  * `freeStep` -- `viral_feed_destroy`, step by step;
  * `lifecycle` -- the machine: the calls and loops of Feed/Playback.lean, `viral_feed_set_urls`
    between the swipes, and one `viral_feed_destroy`;
  * `SessionOk` -- the invariant: a player counts 2 in its slot and 1 outside;
  * `bounded_iff` -- when the number of live players is bounded, and 0 at the end;
  * `bounded_twoSwipes` -- six players live behind two swipes, one behind `viral_feed_destroy`.

  While the feed is being destroyed no other call holds the lock; after its return only the
  message loops and the players' own threads go on.
-/
import ViralEngine.Feed.Attribution

namespace Viral.Feed

open Viral.Lib Viral.Ijk Viral.Ijk.Player

/-! ## 1. Reference counts -/

/-- The states in which `ijkmp_prepare_async` goes on and takes a reference. -/
def prepares (P : Player) : Bool := decide (P.mpState = .initialized ∨ P.mpState = .stopped)

/-- `ijkmp_dec_ref_p`. The last reference destroys the player, and `ijkmp_destroy` waits for the
    message thread. Its `ijkmp_shutdown` changes nothing: every caller has just done it. -/
def decRef (s : State) (refs : List Nat) (mp : Nat) : Option (List Nat) := do
  let P ← s.players[mp]?
  let n ← refs[mp]?
  if n = 1 ∧ P.loop ≠ .none ∧ P.loop ≠ .ended then none else some (refs.set mp (n - 1))

/-- `ijkmp_dec_ref_p`: nothing for a null pointer. -/
def decRefOf (s : State) (refs : List Nat) : Option Nat → Option (List Nat)
  | some mp => decRef s refs mp
  | none => some refs

/-- The counts behind the next step of the swipe. -/
def countStep (s : State) (refs : List Nat) : Option (Int × ScrollPc) → Option (List Nat)
  | some (_, .init _ .create) => some (refs ++ [1])
  | some (index, .init i .prepare) => do
    match (s.feed.slot (index + i)).mp with
    | some mp =>
      let P ← s.players[mp]?
      some (if prepares P then refs.modify mp (· + 1) else refs)
    | none => some refs
  | some (index, .init i .clear) => decRefOf s refs (s.feed.slot (index + i)).mp
  | some (index, .releaseClear) => decRefOf s refs (s.feed.slot (releaseBefore index)).mp
  | _ => some refs

/-! ## 2. `viral_feed_destroy` -/

/-- The calls of `viral_feed_destroy` on a slot. -/
inductive FreePc where
  | stop | shutdown | release
  deriving DecidableEq, Repr

/-- The feed is in use; `viral_feed_destroy` is at a slot, or in front of its last lines, or has
    returned. -/
inductive Stage where
  | alive
  | freeing (k : Slot) (pc : FreePc)
  | leave
  | gone
  deriving DecidableEq, Repr

/-- A feed from its making to its end, with the counts of the players. -/
structure Session where
  play : State
  refs : List Nat
  stage : Stage

/-- The stage behind a slot. -/
def Stage.behind (k : Slot) : Stage :=
  if h : k.val + 1 < viralPoolSize then .freeing ⟨k.val + 1, h⟩ .stop else .leave

/-- **One step of `viral_feed_destroy`.** -/
def freeStep (s : Session) : Option Session :=
  match s.stage with
  | .freeing k pc =>
    match (s.play.feed.pool k).mp with
    | none => some { s with stage := .behind k }
    | some mp =>
      match pc with
      | .stop => some { s with
          play := (s.play.onPlayer mp .stop).log mp .stop, stage := .freeing k .shutdown }
      | .shutdown => some { s with
          play := s.play.onPlayer mp .shutdown, stage := .freeing k .release }
      | .release => do
        let refs ← decRef s.play s.refs mp
        some ⟨s.play.setVp k { s.play.feed.pool k with mp := none }, refs, .behind k⟩
  | .leave => some { s with stage := .gone }
  | .alive | .gone => none

/-! ## 3. The machine -/

/-- A step of a session. -/
inductive LifeAct where
  | play (a : PlayAct)
  | setUrls (urls : List String)
  | destroy
  | free
  deriving DecidableEq, Repr

/-- The steps of Feed/Playback.lean that a stage lets through. -/
def Stage.admits : Stage → PlayAct → Bool
  | .alive, _ => true
  | _, .loop _ | _, .post _ _ => true
  | .freeing _ _, .call _ | .leave, .call _ => true
  | _, _ => false

/-- The counts behind a step of Feed/Playback.lean. -/
def countPlay (s : Session) : PlayAct → Option (List Nat)
  | .scroll _ => countStep s.play s.refs s.play.scroll
  | _ => some s.refs

/-- **One step.** `viral_feed_set_urls` and `viral_feed_destroy` wait for the lock. -/
def lifeStep (s : Session) : LifeAct → Option Session
  | .play a =>
    if s.stage.admits a then do
      let t ← playStep s.play a
      let refs ← countPlay s a
      some ⟨t, refs, s.stage⟩
    else none
  | .setUrls urls =>
    if s.stage = .alive ∧ s.play.scroll = none then
      some { s with play := { s.play with feed := viralFeedSetUrls s.play.feed urls } }
    else none
  | .destroy =>
    if s.stage = .alive ∧ s.play.scroll = none then
      some { s with stage := .freeing ⟨0, by decide⟩ .stop }
    else none
  | .free => freeStep s

/-- A feed without URLs. -/
def Session.init : Session := ⟨State.init [], [], .alive⟩

/-- The session as a machine. -/
def lifecycle : Machine Session LifeAct := ⟨Session.init, lifeStep⟩

/-- The players with a positive count. -/
def live (s : Session) : Nat := s.refs.countP (0 < ·)

/-! ## 4. The invariant -/

/-- The references of a player: the slot's, and the message loop's that nobody gives back. -/
def held (s : State) (mp : Nat) (P : Player) : Nat :=
  if (s.feed.pool P.slot).mp = some mp ∧ P.loop ≠ .none then 2 else 1

/-- The slots `viral_feed_destroy` has passed. -/
def Stage.past : Stage → Slot → Bool
  | .alive, _ => false
  | .freeing k _, j => decide (j < k)
  | .leave, _ | .gone, _ => true

/-- The counts are those of the references held. -/
def Counts (s : State) (refs : List Nat) : Prop :=
  ∀ mp : Nat, refs[mp]? = s.players[mp]?.map (held s mp)

/-- **The invariant of a session.** -/
structure SessionOk (s : Session) : Prop where
  bound : Bound s.play
  counts : Counts s.play s.refs
  locked : s.stage ≠ .alive → s.play.scroll = none
  freed : ∀ k, s.stage.past k = true → (s.play.feed.pool k).mp = none
  shut : ∀ k, s.stage = .freeing k .release → ∀ mp P, (s.play.feed.pool k).mp = some mp →
    s.play.players[mp]? = some P → P.aborted = true

section Counts

variable {s t : State} {refs : List Nat}

/-- What the count of a player depends on. -/
def tag (P : Player) : Slot × Bool := (P.slot, decide (P.loop = .none))

/-- The players hold the same references. -/
def Alike (s t : State) : Prop := ∀ mp : Nat, t.players[mp]?.map tag = s.players[mp]?.map tag

theorem Alike.trans {u : State} (h : Alike s t) (k : Alike t u) : Alike s u :=
  fun mp => (k mp).trans (h mp)

theorem alike_of_players (h : t.players = s.players) : Alike s t := fun mp => by rw [h]

theorem alike_onPlayer {j : Nat} {f : Player → Player}
    (hf : ∀ P, s.players[j]? = some P → tag (f P) = tag P) : Alike s (s.onPlayer j f) := by
  intro mp
  show (s.players.modify j f)[mp]?.map tag = _
  rw [List.getElem?_modify]
  by_cases e : j = mp
  · subst e
    cases hP : s.players[j]? with
    | none => rfl
    | some P =>
      simp only [if_true]
      exact congrArg some (hf P hP)
  · cases hP : s.players[mp]? with
    | none => rfl
    | some P =>
      simp only [if_neg e]
      rfl

theorem tag_kin {P Q : Player} (h : Kin P Q) : tag Q = tag P := by
  unfold tag
  rw [h.slot, h.loop]

theorem held_of_tag {mp : Nat} {P Q : Player} (htag : tag Q = tag P)
    (hmp : ∀ k, (t.feed.pool k).mp = (s.feed.pool k).mp) : held t mp Q = held s mp P := by
  obtain ⟨hslot, hloop⟩ := Prod.mk.inj htag
  have hnone : Q.loop ≠ .none ↔ P.loop ≠ .none := not_congr (decide_eq_decide.mp hloop)
  unfold held
  rw [hslot, hmp]
  simp only [hnone]

/-- The counts stay where the tags and the slots' players do. -/
theorem Counts.alike (h : Counts s refs) (hal : Alike s t)
    (hmp : ∀ k, (t.feed.pool k).mp = (s.feed.pool k).mp) : Counts t refs := by
  intro mp
  rw [h mp]
  have htag := hal mp
  cases hP : s.players[mp]? with
  | none =>
    rw [hP] at htag
    rw [Option.map_eq_none_iff.mp htag]
    rfl
  | some P =>
    rw [hP] at htag
    obtain ⟨Q, hQ, hQtag⟩ := Option.map_eq_some_iff.mp htag
    rw [hQ]
    exact congrArg some (held_of_tag hQtag hmp).symm

/-- **A player loses its slot and one reference**: one stays, the message loop's. -/
theorem Counts.release (h : Counts s refs) {k : Slot} {mp : Nat} {P : Player} {refs' : List Nat}
    {vp : ViralPlayer} (hmp : (s.feed.pool k).mp = some mp) (hP : s.players[mp]? = some P)
    (hslot : P.slot = k) (hborn : P.loop ≠ .none) (hdec : decRef s refs mp = some refs')
    (hvp : vp.mp = none) (hpool : ∀ j, t.feed.pool j = if j = k then vp else s.feed.pool j)
    (hplayers : t.players = s.players) : Counts t refs' := by
  have hheld : held s mp P = 2 := by
    unfold held
    rw [hslot, if_pos ⟨hmp, hborn⟩]
  have hcount : refs[mp]? = some 2 := by
    rw [h mp, hP]
    exact congrArg some hheld
  have hrefs : refs' = refs.set mp 1 := by
    unfold decRef at hdec
    simp only [hP, hcount, Option.bind_eq_bind, Option.bind_some] at hdec
    rw [if_neg (by rintro ⟨e, _⟩; cases e)] at hdec
    exact (Option.some.inj hdec).symm
  intro j
  rw [hrefs, hplayers, List.getElem?_set]
  by_cases e : mp = j
  · subst e
    rw [if_pos rfl, if_pos (List.getElem?_eq_some_iff.mp hcount).1, hP]
    have hout : held t mp P = 1 := by
      unfold held
      rw [hslot, hpool, if_pos rfl, hvp, if_neg (by rintro ⟨e, _⟩; cases e)]
    exact congrArg some hout.symm
  · rw [if_neg e, h j]
    cases hQ : s.players[j]? with
    | none => rfl
    | some Q =>
      refine congrArg some ?_
      unfold held
      rw [hpool]
      by_cases e' : Q.slot = k
      · rw [if_pos e', e', hmp, hvp, if_neg (by rintro ⟨e'', _⟩; exact e (Option.some.inj e'')),
          if_neg (by rintro ⟨e'', _⟩; cases e'')]
      · rw [if_neg e']

theorem Counts.length (h : Counts s refs) : refs.length = s.players.length := by
  refine Nat.le_antisymm (Nat.le_of_not_lt fun hlt => ?_) (Nat.le_of_not_lt fun hlt => ?_)
  · have hnone := h s.players.length
    rw [List.getElem?_eq_none (Nat.le_refl s.players.length)] at hnone
    exact absurd (List.getElem?_eq_none_iff.mp hnone) (Nat.not_le_of_lt hlt)
  · have hsome := h refs.length
    rw [List.getElem?_eq_none (Nat.le_refl refs.length)] at hsome
    have hnone := Option.map_eq_none_iff.mp hsome.symm
    exact absurd (List.getElem?_eq_none_iff.mp hnone) (Nat.not_le_of_lt hlt)

/-- `ijkmp_create`. -/
theorem Counts.create (h : Counts s refs) {k : Slot} {vp : ViralPlayer}
    (hempty : (s.feed.pool k).mp = none) (hvp : vp.mp = some s.players.length)
    (hpool : ∀ j, t.feed.pool j = if j = k then vp else s.feed.pool j)
    (hplayers : t.players = s.players ++ [Player.create k]) : Counts t (refs ++ [1]) := by
  have hlength := h.length
  intro j
  rw [hplayers]
  rcases Nat.lt_or_ge j s.players.length with hlt | hge
  · rw [List.getElem?_append_left (by rw [hlength]; exact hlt), List.getElem?_append_left hlt, h j]
    cases hQ : s.players[j]? with
    | none => rfl
    | some Q =>
      refine congrArg some ?_
      unfold held
      rw [hpool]
      by_cases e : Q.slot = k
      · have hne : some s.players.length ≠ some j := by
          intro e'
          have := Option.some.inj e'
          omega
        rw [if_pos e, e, hempty, hvp, if_neg (by rintro ⟨e', _⟩; cases e'),
          if_neg (by rintro ⟨e', _⟩; exact hne e')]
      · rw [if_neg e]
  · rcases Nat.eq_or_lt_of_le hge with e | hgt
    · have hnew : held t s.players.length (Player.create k) = 1 := by
        unfold held
        exact if_neg (by rintro ⟨_, e⟩; exact e rfl)
      rw [← e]
      rw [← hlength, List.getElem?_concat_length, hlength, List.getElem?_concat_length]
      exact congrArg some hnew.symm
    · rw [List.getElem?_eq_none (by rw [List.length_append, List.length_singleton, hlength]; omega),
        List.getElem?_eq_none (by rw [List.length_append, List.length_singleton]; omega)]
      rfl

/-- `ijkmp_prepare_async` takes a reference for the message loop. -/
theorem Counts.prepare (h : Counts s refs) {k : Slot} {mp : Nat} {P Q : Player}
    (hmp : (s.feed.pool k).mp = some mp) (hP : s.players[mp]? = some P) (hl : P.loop = .none)
    (hslot : Q.slot = k) (hborn : Q.loop ≠ .none) (hplayers : t.players = s.players.set mp Q)
    (hpool : ∀ j, (t.feed.pool j).mp = (s.feed.pool j).mp) :
    Counts t (refs.modify mp (· + 1)) := by
  have hcount : refs[mp]? = some 1 := by
    have hheld : held s mp P = 1 := by
      unfold held
      exact if_neg (by rintro ⟨_, e⟩; exact e hl)
    rw [h mp, hP]
    exact congrArg some hheld
  intro j
  rw [hplayers, List.getElem?_modify, List.getElem?_set]
  by_cases e : mp = j
  · subst e
    have hheld : held t mp Q = 2 := by
      unfold held
      rw [hslot, hpool]
      exact if_pos ⟨hmp, hborn⟩
    rw [if_pos rfl, if_pos (List.getElem?_eq_some_iff.mp hP).1, hcount]
    simp only [if_true]
    exact congrArg some hheld.symm
  · rw [if_neg e, h j]
    simp only [if_neg e]
    cases hR : s.players[j]? with
    | none => rfl
    | some R =>
      refine congrArg some ?_
      unfold held
      rw [hpool]

end Counts

/-! ## 5. The steps beside the lock -/

/-- Neither the slots' players nor the swipe's place nor what the counts depend on changes, and an
    aborted player stays so. -/
structure Aside (s t : State) : Prop where
  alike : Alike s t
  aborted : ∀ (mp : Nat) (P Q : Player), s.players[mp]? = some P → t.players[mp]? = some Q →
    P.aborted = true → Q.aborted = true
  mp : ∀ k, (t.feed.pool k).mp = (s.feed.pool k).mp
  scroll : t.scroll = s.scroll

section Aside

variable {s t : State}

theorem Aside.of_players (hplayers : t.players = s.players)
    (hmp : ∀ k, (t.feed.pool k).mp = (s.feed.pool k).mp) (hscroll : t.scroll = s.scroll) :
    Aside s t := by
  refine ⟨alike_of_players hplayers, ?_, hmp, hscroll⟩
  intro mp P Q hP hQ ha
  rw [hplayers, hP] at hQ
  rw [← Option.some.inj hQ]
  exact ha

theorem Aside.trans {u : State} (h : Aside s t) (k : Aside t u) : Aside s u where
  alike := h.alike.trans k.alike
  aborted mp P R hP hR ha := by
    have htag := h.alike mp
    rw [hP] at htag
    obtain ⟨Q, hQ, _⟩ := Option.map_eq_some_iff.mp htag
    exact k.aborted mp Q R hQ hR (h.aborted mp P Q hP hQ ha)
  mp j := (k.mp j).trans (h.mp j)
  scroll := k.scroll.trans h.scroll

theorem aside_onPlayer {j : Nat} {f : Player → Player}
    (htag : ∀ P, s.players[j]? = some P → tag (f P) = tag P)
    (hab : ∀ P, s.players[j]? = some P → P.aborted = true → (f P).aborted = true) :
    Aside s (s.onPlayer j f) := by
  refine ⟨alike_onPlayer htag, ?_, fun _ => rfl, rfl⟩
  intro mp P Q hP hQ ha
  have hQ' : (s.players.modify j f)[mp]? = some Q := hQ
  rw [List.getElem?_modify, hP] at hQ'
  rw [← Option.some.inj hQ']
  by_cases e : j = mp
  · subst e
    simp only [if_true]
    exact hab P hP ha
  · simp only [if_neg e]
    exact ha

theorem aside_call {j : Nat} {f : Player → Player}
    (hkin : ∀ P, s.players[j]? = some P → Kin P (f P)) : Aside s (s.onPlayer j f) :=
  aside_onPlayer (fun P hP => tag_kin (hkin P hP)) fun P hP => (hkin P hP).aborted

/-- A thread that exists goes on. -/
theorem aside_thread {n : Nat} {T : Player} {f : Player → Player} (hT : s.players[n]? = some T)
    (hborn : T.loop ≠ .none) (hloop : (f T).loop ≠ .none) (hslot : (f T).slot = T.slot)
    (hab : (f T).aborted = T.aborted) : Aside s (s.onPlayer n f) := by
  refine aside_onPlayer ?_ ?_
  · intro P hP
    rw [Option.some.inj (hP.symm.trans hT)]
    unfold tag
    rw [decide_eq_false hborn, decide_eq_false hloop, hslot]
  · intro P hP ha
    rw [Option.some.inj (hP.symm.trans hT)] at ha ⊢
    exact hab.trans ha

theorem aside_setLoop {n : Nat} {T : Player} {pc : LoopPc} (hT : s.players[n]? = some T)
    (hborn : T.loop ≠ .none) (hpc : pc ≠ .none) : Aside s (s.setLoop n pc) :=
  aside_thread hT hborn hpc rfl rfl

/-- A call on its target, then the thread moves on. -/
theorem aside_callAndMove {n mp : Nat} {T : Player} {f : Player → Player} {pc : LoopPc}
    (hT : s.players[n]? = some T) (hborn : T.loop ≠ .none) (hpc : pc ≠ .none)
    (hkin : ∀ P, s.players[mp]? = some P → Kin P (f P)) :
    Aside s ((s.onPlayer mp f).setLoop n pc) := by
  obtain ⟨U, hU, hUl, _, _⟩ := onPlayer_thread hT hkin
  refine (aside_call hkin).trans (aside_setLoop hU ?_ hpc)
  rw [hUl]
  exact hborn

theorem loopStep_aside {n : Nat} (hstep : loopStep s n = some t) : Aside s t := by
  obtain ⟨T, hT, hdo⟩ := loopStep_do hstep
  have hborn : ∀ {pc : LoopPc}, T.loop = pc → pc ≠ .none → T.loop ≠ .none := fun e h => e ▸ h
  cases hdo with
  | found mp hl hmp =>
    exact aside_thread hT (hborn hl nofun) nofun rfl rfl
  | lost hl hmp => exact aside_setLoop hT (hborn hl nofun) nofun
  | took mp P Q pc hl htarget hP htake =>
    refine aside_callAndMove hT (hborn hl nofun) ?_ ?_
    · rcases take_cases htake with ⟨_, _, rfl⟩ | ⟨_, m, rest, _, _, rfl⟩ <;> nofun
    · intro R hR
      rw [Option.some.inj (hR.symm.trans hP)]
      exact kin_take htake
  | served m mp hl htarget =>
    refine aside_callAndMove hT (hborn hl nofun) ?_ ?_
    · cases m <;> nofun
    · exact fun R _ => kin_of_sameThread (sameThread_serve R m)
  | stored state e hl =>
    have hne : T.loop ≠ .none := by
      rcases hl with e | e | e | e <;> exact hborn e nofun
    have hu : Aside s (s.storeState T.slot state) :=
      .of_players rfl (sameRing_storeState s T.slot state).mp rfl
    exact hu.trans (aside_setLoop hT hne nofun)
  | buffering hl => exact aside_setLoop hT (hborn hl nofun) nofun
  | plays mp P hl htarget hP hplay => exact aside_setLoop hT (hborn hl nofun) nofun
  | passed m hl => exact aside_setLoop hT (hborn hl nofun) nofun
  | fired e pc hl hpc =>
    have hu : Aside s (s.setLoop n pc) := by
      rcases hpc with rfl | rfl <;> exact aside_setLoop hT (hborn hl nofun) nofun
    exact hu.trans (.of_players rfl (fun _ => rfl) rfl)
  | indexRead hl => exact aside_setLoop hT (hborn hl nofun) nofun
  | tested f pc hl hpc =>
    rcases hpc with rfl | rfl <;> exact aside_setLoop hT (hborn hl nofun) nofun
  | started mp hl htarget =>
    have hkin : ∀ R, s.players[mp]? = some R → Kin R R.start := fun R _ => kin_start R
    have hmove : Aside s ((s.onPlayer mp .start).setLoop n .wait) :=
      aside_callAndMove hT (hborn hl nofun) nofun hkin
    exact hmove.trans (.of_players rfl (fun _ => rfl) rfl)

theorem callStep_aside {n : Nat} (hstep : callStep s n = some t) : Aside s t := by
  cases callStep_cases hstep with
  | read => exact .of_players rfl (fun _ => rfl) rfl
  | act cmd mp =>
    have hu : Aside s (s.onPlayer mp cmd.onPlayer) := by
      refine aside_call fun P _ => ?_
      cases cmd with
      | play => exact kin_start P
      | pause => exact kin_pause P
    exact hu.trans (.of_players rfl (fun _ => rfl) rfl)

theorem post_aside {mp : Nat} {m : Msg} (hstep : playStep s (.post mp m) = some t) :
    Aside s t := by
  obtain ⟨P, _, _, rfl⟩ := post_cases hstep
  exact aside_call fun R _ => kin_put R m

end Aside

/-! ## 6. The counts behind a swipe -/

section Swipe

variable {s t : State} {refs refs' : List Nat} {index : Int}

/-- The player of a slot that is given up has its thread. -/
theorem Counts.clear {k : Slot} {vp : ViralPlayer} (h : Counts s refs) (hb : Bound s)
    (hnone : ∀ j, ¬ Making s j) (hdec : decRefOf s refs (s.feed.pool k).mp = some refs')
    (hvp : vp.mp = none) (hpool : ∀ j, t.feed.pool j = if j = k then vp else s.feed.pool j)
    (hplayers : t.players = s.players) : Counts t refs' := by
  cases hmp : (s.feed.pool k).mp with
  | none =>
    rw [hmp] at hdec
    cases hdec
    refine h.alike (alike_of_players hplayers) ?_
    intro j
    rw [hpool]
    by_cases e : j = k
    · rw [if_pos e, e, hmp, hvp]
    · rw [if_neg e]
  | some mp =>
    rw [hmp] at hdec
    obtain ⟨_, P, hP, hslot⟩ := hb.slots k mp hmp
    exact h.release hmp hP hslot (fun hl => hnone mp (hb.unborn mp P hP hl)) hdec hvp hpool hplayers

theorem initMove_counts {i : Nat} {ok : Bool} {pc : InitPc} (h : Counts s refs) (hb : Bound s)
    (hs : s.scroll = some (index, .init i pc)) (hm : InitMove s index i ok pc t)
    (hcount : countStep s refs (some (index, .init i pc)) = some refs') : Counts t refs' := by
  have hinit := hb.initBound hs
  cases hm with
  | stopped mp hmp =>
    cases hcount
    exact h.alike (alike_onPlayer fun P _ => tag_kin (kin_stop P)) fun _ => rfl
  | shutDown mp hmp =>
    cases hcount
    exact h.alike (alike_onPlayer fun P _ => tag_kin (kin_shutdown P)) fun _ => rfl
  | noneToStop hmp | noneToShutDown hmp =>
    cases hcount
    exact h.alike (alike_of_players rfl) fun _ => rfl
  | cleared => exact h.clear hb (not_making hs rfl) hcount rfl (fun _ => rfl) rfl
  | numbered hvalid | outside hout =>
    cases hcount
    refine h.alike (alike_of_players rfl) ?_
    intro j
    show (if j = slotOf (index + i) then _ else s.feed.pool j).mp = _
    by_cases e : j = slotOf (index + i)
    · rw [if_pos e, e]
      rfl
    · rw [if_neg e]
  | created =>
    cases hcount
    have hvp : ({ s.feed.slot (index + i) with
        url := s.feed.urls[(index + i).toNat]?, mp := some s.players.length } :
          ViralPlayer).mp = some s.players.length := rfl
    exact h.create hinit.1 hvp (fun _ => rfl) rfl
  | sourced mp hmp =>
    cases hcount
    obtain ⟨_, mp', hmp', hP⟩ := hinit
    have e : mp' = mp := Option.some.inj (hmp'.symm.trans hmp)
    subst e
    refine h.alike (alike_onPlayer ?_) fun _ => rfl
    intro R hR
    rw [Option.some.inj (hR.symm.trans hP)]
    rfl
  | noSource hmp =>
    cases hcount
    exact h.alike (alike_of_players rfl) fun _ => rfl
  | preloading =>
    cases hcount
    exact h.alike (alike_of_players rfl) (sameRing_storeState s _ _).mp
  | prepared mp hmp =>
    obtain ⟨_, mp', hmp', hP⟩ := hinit
    have e : mp' = mp := Option.some.inj (hmp'.symm.trans hmp)
    subst e
    have hrefs : refs' = refs.modify mp' (· + 1) := by
      simp only [countStep, hmp, hP, Option.bind_eq_bind, Option.bind_some, Option.some.injEq]
        at hcount
      rw [← hcount]
      rfl
    have hfields := prepareAsync_initialized (slotOf (index + i)) ok
    rw [hrefs]
    refine h.prepare hmp hP rfl (Q := (initialized (slotOf (index + i))).prepareAsync ok) ?_ ?_
      (modify_of_get hP _) fun _ => rfl
    · rw [hfields]
      rfl
    · rw [hfields]
      nofun
  | noPrepare hmp =>
    obtain ⟨_, mp, hmp', _⟩ := hinit
    rw [hmp] at hmp'
    cases hmp'

/-- **The counts behind a step of the swipe.** -/
theorem scrollStep_counts {ok : Bool} (h : Counts s refs) (hb : Bound s)
    (hstep : scrollStep s ok = some t) (hcount : countStep s refs s.scroll = some refs') :
    Counts t refs' := by
  obtain ⟨index, pc, hs, hm⟩ := scrollStep_cases hstep
  rw [hs] at hcount
  cases hm with
  | init i pc t hinit => exact initMove_counts h hb hs hinit hcount
  | releasedClear => exact h.clear hb (not_making hs rfl) hcount rfl (fun _ => rfl) rfl
  | paused prev mp hprev hmp =>
    cases hcount
    exact h.alike (alike_onPlayer fun P _ => tag_kin (kin_pause P)) fun _ => rfl
  | started mp =>
    cases hcount
    exact h.alike (alike_onPlayer fun P _ => tag_kin (kin_start P)) fun _ => rfl
  | released mp hmp hidx =>
    cases hcount
    exact h.alike (alike_onPlayer fun P _ => tag_kin (kin_stop P)) fun _ => rfl
  | releasedDown mp hmp =>
    cases hcount
    exact h.alike (alike_onPlayer fun P _ => tag_kin (kin_shutdown P)) fun _ => rfl
  | notPaused prev hnot | found mp next hmp hidx hnext | missing hmiss | preloadDone i hdone
  | preloadNext i hmore hidx | preloadSkip i hmore hidx | notReleased hnot | noneReleased hmp =>
    cases hcount
    exact h.alike (alike_of_players rfl) fun _ => rfl

end Swipe

/-! ## 7. One step of a session -/

section Session

variable {s t : Session}

theorem not_making_unlocked {u : State} (h : u.scroll = none) (mp : Nat) : ¬ Making u mp := by
  unfold Making
  rw [h]
  exact id

/-- A step of Feed/Playback.lean: it is admitted, and the counts follow it. -/
theorem lifeStep_play {a : PlayAct} (h : lifeStep s (.play a) = some t) :
    s.stage.admits a = true ∧ playStep s.play a = some t.play ∧ countPlay s a = some t.refs ∧
      t.stage = s.stage := by
  unfold lifeStep at h
  simp only [Option.bind_eq_bind] at h
  split at h
  · rename_i hadm
    obtain ⟨u, hu, hrest⟩ := Option.bind_eq_some_iff.mp h
    obtain ⟨refs, hrefs, ht⟩ := Option.bind_eq_some_iff.mp hrest
    cases ht
    exact ⟨hadm, hu, hrefs, rfl⟩
  · cases h

/-- `viral_feed_set_urls` and the entry of `viral_feed_destroy` have the lock. -/
theorem lifeStep_locked {p : Prop} [Decidable p] {u : Session}
    (h : (if p then some u else none) = some t) : p ∧ u = t := by
  split at h
  · rename_i hp
    exact ⟨hp, Option.some.inj h⟩
  · cases h

/-- Beside the lock the stage's facts stay. -/
theorem SessionOk.aside (h : SessionOk s) (hb : Bound t.play) (ha : Aside s.play t.play)
    (hrefs : t.refs = s.refs) (hstage : t.stage = s.stage) : SessionOk t where
  bound := hb
  counts := by
    rw [hrefs]
    exact h.counts.alike ha.alike ha.mp
  locked hne := by
    rw [hstage] at hne
    exact ha.scroll.trans (h.locked hne)
  freed k hk := by
    rw [hstage] at hk
    exact (ha.mp k).trans (h.freed k hk)
  shut k hk mp Q hmp hQ := by
    rw [hstage] at hk
    rw [ha.mp] at hmp
    obtain ⟨_, P, hP, _⟩ := h.bound.slots k mp hmp
    exact ha.aborted mp P Q hP hQ (h.shut k hk mp P hmp hP)

/-- With the feed in use no slot is given up. -/
theorem sessionOk_alive (hb : Bound t.play) (hcounts : Counts t.play t.refs)
    (hstage : t.stage = .alive) : SessionOk t where
  bound := hb
  counts := hcounts
  locked hne := absurd hstage hne
  freed k hk := by
    rw [hstage] at hk
    cases hk
  shut k hk := by
    rw [hstage] at hk
    cases hk

theorem playStep_ok {a : PlayAct} (h : SessionOk s) (hstep : lifeStep s (.play a) = some t) :
    SessionOk t := by
  obtain ⟨hadm, hplay, hcount, hstage⟩ := lifeStep_play hstep
  have hb := playStep_bound h.bound hplay
  cases a with
  | loop n => exact h.aside hb (loopStep_aside hplay) (Option.some.inj hcount).symm hstage
  | call n => exact h.aside hb (callStep_aside hplay) (Option.some.inj hcount).symm hstage
  | post mp m => exact h.aside hb (post_aside hplay) (Option.some.inj hcount).symm hstage
  | invoke cmd =>
    have hu : Aside s.play t.play := by
      rw [← Option.some.inj hplay]
      exact .of_players rfl (fun _ => rfl) rfl
    exact h.aside hb hu (Option.some.inj hcount).symm hstage
  | scrollTo index =>
    have halive : s.stage = .alive := by
      cases hst : s.stage <;> rw [hst] at hadm <;> first | rfl | cases hadm
    refine sessionOk_alive hb ?_ (hstage.trans halive)
    have hrefs : t.refs = s.refs := (Option.some.inj hcount).symm
    have henter : enterScroll s.play index = some t.play := hplay
    rw [hrefs]
    unfold enterScroll at henter
    split at henter
    · split at henter
      · cases henter
      · rw [← Option.some.inj henter]
        exact h.counts.alike (alike_of_players rfl) fun _ => rfl
    · rw [← Option.some.inj henter]
      exact h.counts
  | scroll ok =>
    have halive : s.stage = .alive := by
      cases hst : s.stage <;> rw [hst] at hadm <;> first | rfl | cases hadm
    exact sessionOk_alive hb (scrollStep_counts h.counts h.bound hplay hcount) (hstage.trans halive)

theorem past_behind {k j : Slot} (h : (Stage.behind k).past j = true) : j < k ∨ j = k := by
  unfold Stage.behind at h
  split at h
  · have hlt : j < (⟨k.val + 1, by assumption⟩ : Slot) := of_decide_eq_true h
    have hlt' : j.val < k.val + 1 := hlt
    rcases Nat.lt_succ_iff_lt_or_eq.mp hlt' with hlt | e
    · exact Or.inl hlt
    · exact Or.inr (Fin.ext e)
  · rename_i hlast
    have hj : j.val < viralPoolSize := j.isLt
    rcases Nat.lt_or_ge j.val k.val with hlt | hge
    · exact Or.inl hlt
    · exact Or.inr (Fin.ext (by omega))

theorem behind_ne_release (k j : Slot) : Stage.behind k ≠ .freeing j .release := by
  unfold Stage.behind
  split <;> nofun

/-- **A step of `viral_feed_destroy`.** -/
theorem freeStep_ok (h : SessionOk s) (hstep : freeStep s = some t) : SessionOk t := by
  unfold freeStep at hstep
  split at hstep
  · rename_i k pc hst
    have hunlocked : s.play.scroll = none := h.locked (by rw [hst]; nofun)
    have hnone := not_making_unlocked hunlocked
    have hpast : ∀ j, j < k → (s.play.feed.pool j).mp = none := by
      intro j hj
      refine h.freed j ?_
      rw [hst]
      exact decide_eq_true hj
    split at hstep
    · -- an empty slot
      rename_i hmp
      cases hstep
      refine ⟨h.bound, h.counts, fun _ => hunlocked, ?_, ?_⟩
      · intro j hj
        rcases past_behind hj with hlt | e
        · exact hpast j hlt
        · rw [e]
          exact hmp
      · intro j hj
        exact absurd hj (behind_ne_release k j)
    · rename_i mp hmp
      obtain ⟨_, P, hP, hslot⟩ := h.bound.slots k mp hmp
      cases pc with
      | stop =>
        cases hstep
        refine ⟨?_, ?_, fun _ => hunlocked, fun j hj => hpast j (of_decide_eq_true hj), nofun⟩
        · exact h.bound.lockedCall hnone kin_stop rfl ⟨fun _ => rfl, fun _ => rfl, rfl⟩ rfl (by
            rw [show ((s.play.onPlayer mp Player.stop).log mp .stop).scroll = none from hunlocked]
            trivial)
        · exact h.counts.alike (alike_onPlayer fun P _ => tag_kin (kin_stop P)) fun _ => rfl
      | shutdown =>
        cases hstep
        refine ⟨?_, ?_, fun _ => hunlocked, fun j hj => hpast j (of_decide_eq_true hj), ?_⟩
        · exact h.bound.lockedCall hnone kin_shutdown rfl ⟨fun _ => rfl, fun _ => rfl, rfl⟩ rfl (by
            rw [show (s.play.onPlayer mp Player.shutdown).scroll = none from hunlocked]
            trivial)
        · exact h.counts.alike (alike_onPlayer fun P _ => tag_kin (kin_shutdown P)) fun _ => rfl
        · intro j hj mp' Q hmp' hQ
          cases hj
          have e : mp' = mp := Option.some.inj (hmp'.symm.trans hmp)
          subst e
          have hQ' : (s.play.players.modify mp' Player.shutdown)[mp']? = some Q := hQ
          rw [modify_of_get hP, List.getElem?_set, if_pos rfl,
            if_pos (List.getElem?_eq_some_iff.mp hP).1] at hQ'
          rw [← Option.some.inj hQ']
          rfl
      | release =>
        simp only [Option.bind_eq_bind] at hstep
        obtain ⟨refs, hdec, ht⟩ := Option.bind_eq_some_iff.mp hstep
        cases ht
        have hgone : ∀ mp' R, (s.play.feed.pool k).mp = some mp' →
            s.play.players[mp']? = some R → R.aborted = true := h.shut k hst
        refine ⟨?_, ?_, fun _ => hunlocked, ?_, ?_⟩
        · exact h.bound.emptySlot hnone hgone rfl rfl rfl (by
            rw [show (s.play.setVp k { s.play.feed.pool k with mp := none }).scroll = none
              from hunlocked]
            trivial)
        · exact h.counts.release hmp hP hslot (fun hl => hnone mp (h.bound.unborn mp P hP hl)) hdec
            rfl (fun _ => rfl) rfl
        · intro j hj
          show (if j = k then _ else s.play.feed.pool j).mp = none
          by_cases e : j = k
          · rw [if_pos e]
          · rw [if_neg e]
            exact hpast j ((past_behind hj).resolve_right e)
        · intro j hj
          exact absurd hj (behind_ne_release k j)
  · rename_i hst
    cases hstep
    refine ⟨h.bound, h.counts, fun _ => h.locked (by rw [hst]; nofun), ?_, nofun⟩
    intro j _
    refine h.freed j ?_
    rw [hst]
    rfl
  · cases hstep
  · cases hstep

/-- **One step of a session.** -/
theorem lifeStep_ok {a : LifeAct} (h : SessionOk s) (hstep : lifeStep s a = some t) :
    SessionOk t := by
  cases a with
  | play a => exact playStep_ok h hstep
  | setUrls urls =>
    obtain ⟨⟨halive, hs⟩, rfl⟩ := lifeStep_locked hstep
    refine sessionOk_alive ?_ (h.counts.alike (alike_of_players rfl) fun _ => rfl) halive
    exact h.bound.aside rfl ⟨fun _ => rfl, fun _ => rfl, rfl⟩ rfl rfl
  | destroy =>
    obtain ⟨⟨_, hs⟩, rfl⟩ := lifeStep_locked hstep
    refine ⟨h.bound, h.counts, fun _ => hs, ?_, nofun⟩
    intro k hk
    have hlt : k < (⟨0, by decide⟩ : Slot) := of_decide_eq_true hk
    exact absurd hlt (Nat.not_lt_zero k.val)
  | free => exact freeStep_ok h hstep

theorem init_ok : SessionOk Session.init :=
  sessionOk_alive (init_bound []) (fun _ => rfl) rfl

end Session

/-! ## 8. How many players live -/

/-- The swipe is about to make a player. -/
def creates : Option (Int × ScrollPc) → Bool
  | some (_, .init _ .create) => true
  | _ => false

/-- A player is made in this step. -/
def creating (s : Session) : LifeAct → Bool
  | .play (.scroll _) => creates s.play.scroll
  | _ => false

/-- **The condition on a step**: a swipe makes a player only if fewer than the pool's size were made
    before it, and the feed is destroyed only if none was made. -/
def Fits (s : Session) : LifeAct → Prop
  | .play (.scroll _) =>
    creates s.play.scroll = true → s.play.players.length < viralPoolSize
  | .free => s.stage = .leave → s.play.players = []
  | _ => True

/-- **The bound.** -/
def Bounded (s : Session) : Prop := live s ≤ viralPoolSize ∧ (s.stage = .gone → live s = 0)

section Live

variable {s t : Session}

/-- **Every player ever made lives**: nobody gives back the message loop's reference. -/
theorem SessionOk.live_eq (h : SessionOk s) : live s = s.play.players.length := by
  rw [← h.counts.length]
  refine List.countP_eq_length.mpr ?_
  intro n hn
  obtain ⟨mp, hlt, hget⟩ := List.getElem_of_mem hn
  have hcount := h.counts mp
  rw [List.getElem?_eq_getElem hlt, hget] at hcount
  obtain ⟨P, _, hP⟩ := Option.map_eq_some_iff.mp hcount.symm
  rw [← hP]
  unfold held
  split <;> decide

theorem decRef_length {u : State} {refs refs' : List Nat} {mp : Nat}
    (h : decRef u refs mp = some refs') : refs'.length = refs.length := by
  unfold decRef at h
  simp only [Option.bind_eq_bind] at h
  obtain ⟨P, _, hrest⟩ := Option.bind_eq_some_iff.mp h
  obtain ⟨n, _, hrest⟩ := Option.bind_eq_some_iff.mp hrest
  split at hrest
  · cases hrest
  · rw [← Option.some.inj hrest, List.length_set]

theorem decRefOf_length {u : State} {refs refs' : List Nat} {o : Option Nat}
    (h : decRefOf u refs o = some refs') : refs'.length = refs.length := by
  cases o with
  | none =>
    cases h
    rfl
  | some mp => exact decRef_length h

theorem countStep_length {u : State} {refs refs' : List Nat} {p : Option (Int × ScrollPc)}
    (h : countStep u refs p = some refs') :
    refs'.length = refs.length + if creates p then 1 else 0 := by
  unfold countStep at h
  split at h
  · rw [← Option.some.inj h, List.length_append]
    rfl
  · simp only [Option.bind_eq_bind] at h
    split at h
    · obtain ⟨P, _, hrest⟩ := Option.bind_eq_some_iff.mp h
      rw [← Option.some.inj hrest]
      split
      · exact List.length_modify _ _ _
      · rfl
    · rw [← Option.some.inj h]
      rfl
  · exact decRefOf_length h
  · exact decRefOf_length h
  · rename_i hother _ _ _
    have hno : creates p = false := by
      unfold creates
      split
      · exact absurd rfl (hother _ _)
      · rfl
    rw [← Option.some.inj h, hno]
    rfl

/-- A step makes one player, or none. -/
theorem lifeStep_length {a : LifeAct} (h : SessionOk s) (hstep : lifeStep s a = some t) :
    t.play.players.length = s.play.players.length + if creating s a then 1 else 0 := by
  have ht := (lifeStep_ok h hstep).counts.length
  rw [← ht, ← h.counts.length]
  cases a with
  | play a =>
    obtain ⟨_, _, hcount, _⟩ := lifeStep_play hstep
    cases a with
    | scroll ok => exact countStep_length hcount
    | scrollTo index | invoke cmd | call n | loop n | post mp m =>
      rw [← Option.some.inj hcount]
      rfl
  | setUrls urls =>
    obtain ⟨_, rfl⟩ := lifeStep_locked hstep
    rfl
  | destroy =>
    obtain ⟨_, rfl⟩ := lifeStep_locked hstep
    rfl
  | free =>
    have hfree : freeStep s = some t := hstep
    unfold freeStep at hfree
    split at hfree
    · split at hfree
      · cases hfree
        rfl
      · split at hfree
        · cases hfree
          rfl
        · cases hfree
          rfl
        · simp only [Option.bind_eq_bind] at hfree
          obtain ⟨refs, hdec, hrest⟩ := Option.bind_eq_some_iff.mp hfree
          cases hrest
          exact decRef_length hdec
    · cases hfree
      rfl
    · cases hfree
    · cases hfree

/-- The feed is gone behind the last step of `viral_feed_destroy`, and stays so. -/
theorem lifeStep_gone {a : LifeAct} (hstep : lifeStep s a = some t) :
    t.stage = .gone ↔ s.stage = .gone ∨ a = .free ∧ s.stage = .leave := by
  cases a with
  | play a =>
    obtain ⟨_, _, _, hstage⟩ := lifeStep_play hstep
    rw [hstage]
    exact ⟨Or.inl, fun h => h.elim id nofun⟩
  | setUrls urls =>
    obtain ⟨⟨halive, _⟩, rfl⟩ := lifeStep_locked hstep
    exact ⟨Or.inl, fun h => h.elim id nofun⟩
  | destroy =>
    obtain ⟨⟨halive, _⟩, rfl⟩ := lifeStep_locked hstep
    rw [halive]
    exact ⟨nofun, fun h => h.elim nofun nofun⟩
  | free =>
    have hfree : freeStep s = some t := hstep
    have hbehind : ∀ k, Stage.behind k ≠ .gone := by
      intro k
      unfold Stage.behind
      split <;> nofun
    unfold freeStep at hfree
    split at hfree
    · rename_i k pc hst
      rw [hst]
      refine ⟨fun hg => ?_, fun hg => hg.elim nofun nofun⟩
      split at hfree
      · cases hfree
        exact absurd hg (hbehind k)
      · split at hfree
        · cases hfree
          cases hg
        · cases hfree
          cases hg
        · simp only [Option.bind_eq_bind] at hfree
          obtain ⟨refs, hdec, hrest⟩ := Option.bind_eq_some_iff.mp hfree
          cases hrest
          exact absurd hg (hbehind k)
    · rename_i hst
      cases hfree
      exact ⟨fun _ => Or.inr ⟨rfl, hst⟩, fun _ => rfl⟩
    · cases hfree
    · cases hfree

/-- **One step and the bound.** -/
theorem bounded_step {a : LifeAct} (h : SessionOk s) (hstep : lifeStep s a = some t) :
    Bounded t ↔ Bounded s ∧ Fits s a := by
  have hlen := lifeStep_length h hstep
  have hgone := lifeStep_gone hstep
  unfold Bounded
  rw [(lifeStep_ok h hstep).live_eq, h.live_eq, hlen, hgone]
  cases hc : creating s a with
  | true =>
    -- a swipe makes a player: the feed is in use
    cases a with
    | play a =>
      cases a with
      | scroll ok =>
        have halive : s.stage = .alive := by
          obtain ⟨hadm, _, _, _⟩ := lifeStep_play hstep
          cases hst : s.stage <;> rw [hst] at hadm <;> first | rfl | cases hadm
        have hfits : Fits s (.play (.scroll ok)) ↔ s.play.players.length < viralPoolSize :=
          ⟨fun hf => hf hc, fun hf _ => hf⟩
        rw [hfits, halive, if_pos rfl]
        refine ⟨fun hb => ⟨⟨by omega, nofun⟩, hb.1⟩, fun hb => ⟨hb.2, ?_⟩⟩
        rintro (e | ⟨e, _⟩) <;> cases e
      | scrollTo index | invoke cmd | call n | loop n | post mp m => cases hc
    | setUrls urls | destroy | free => cases hc
  | false =>
    have hfits : Fits s a ↔ (a = .free ∧ s.stage = .leave → s.play.players.length = 0) := by
      cases a with
      | play a =>
        cases a with
        | scroll ok =>
          refine ⟨fun _ => nofun, fun _ hyes => ?_⟩
          rw [show creates s.play.scroll = false from hc] at hyes
          cases hyes
        | scrollTo index | invoke cmd | call n | loop n | post mp m =>
          exact ⟨fun _ => nofun, fun _ => trivial⟩
      | setUrls urls | destroy => exact ⟨fun _ => nofun, fun _ => trivial⟩
      | free =>
        refine ⟨fun hf hst => List.length_eq_zero_iff.mpr (hf hst.2), fun hf hst => ?_⟩
        exact List.length_eq_zero_iff.mp (hf ⟨rfl, hst⟩)
    rw [hfits, if_neg Bool.false_ne_true, Nat.add_zero]
    refine ⟨fun hb => ⟨⟨hb.1, fun hg => hb.2 (Or.inl hg)⟩, fun hf => hb.2 (Or.inr hf)⟩, ?_⟩
    rintro ⟨⟨hle, hz⟩, hf⟩
    exact ⟨hle, fun hg => hg.elim hz hf⟩

end Live

/-- **The players are bounded, and none is left behind `viral_feed_destroy`**, exactly in the
    sessions that make at most as many players as the pool has slots and destroy the feed before
    the first. -/
theorem bounded_iff {as : List LifeAct} {s : Session}
    (h : lifecycle.exec Session.init as = some s) :
    Bounded s ↔ lifecycle.meets Fits Session.init as := by
  have hrun := Machine.exec_iff_meets (I := SessionOk) (Q := Bounded) (C := Fits)
    (fun _ _ _ hi hs => lifeStep_ok hi hs) (fun _ _ _ hi hs => bounded_step hi hs) init_ok h
  have hinit : Bounded Session.init := ⟨by decide, fun _ => by decide⟩
  exact hrun.trans (and_iff_right hinit)

instance (s : Session) : ∀ a, Decidable (Fits s a)
  | .play (.scroll _) => inferInstanceAs (Decidable (_ → _))
  | .free => inferInstanceAs (Decidable (s.stage = .leave → s.play.players = []))
  | .play (.scrollTo _) | .play (.invoke _) | .play (.call _) | .play (.loop _)
  | .play (.post _ _) | .setUrls _ | .destroy => inferInstanceAs (Decidable True)

/-- No call is under way, and every message loop has ended or waits for a message. -/
def AtRest (s : Session) : Prop :=
  s.play.scroll = none ∧ s.play.calls = [] ∧
    ∀ n < s.play.players.length, (loopStep s.play n).isNone = true

instance (s : Session) : Decidable (AtRest s) := inferInstanceAs (Decidable (_ ∧ _ ∧ _))

/-- The message loop of a new player handles its first message and waits for the next. -/
def settle (n : Nat) : List LifeAct := List.replicate 4 (.play (.loop n))

/-- The first swipe of a feed of six videos; three players are made. -/
def firstSwipe : List LifeAct :=
  .setUrls sixVideos :: .play (.scrollTo 0) :: List.replicate 24 (.play (.scroll true)) ++
    settle 0 ++ settle 1 ++ settle 2

/-- The swipe to the fourth one makes three more; the first player's loop ends. -/
def twoSwipes : List LifeAct :=
  firstSwipe ++ .play (.scrollTo 3) :: List.replicate 26 (.play (.scroll true)) ++
    .play (.loop 0) :: settle 3 ++ settle 4 ++ settle 5

/-- One video is shown, and the feed destroyed. -/
def shownOnce : List LifeAct :=
  .setUrls ["a"] :: .play (.scrollTo 0) :: List.replicate 10 (.play (.scroll true)) ++ settle 0 ++
    .destroy :: List.replicate 8 .free ++ [.play (.loop 0)]

/-- What is seen of a session: whether it is at rest, its stage and its counts. -/
def seenSession (s : Session) : Bool × Stage × List Nat := (decide (AtRest s), s.stage, s.refs)

theorem bounded_firstSwipe : ∃ s, lifecycle.exec Session.init firstSwipe = some s ∧ AtRest s ∧
    s.refs = [2, 2, 2] ∧ Bounded s := by
  have hseen : (lifecycle.exec Session.init firstSwipe).map seenSession =
      some (true, .alive, [2, 2, 2]) := by decide +kernel
  have hmeets : lifecycle.meets Fits Session.init firstSwipe := by decide +kernel
  obtain ⟨s, hs, hobs⟩ := Option.map_eq_some_iff.mp hseen
  simp only [seenSession, Prod.mk.injEq, decide_eq_true_eq] at hobs
  exact ⟨s, hs, hobs.1, hobs.2.2, (bounded_iff hs).mpr hmeets⟩

/-- **The players pile up**: six live behind two swipes, with all loops at rest, and one behind
    `viral_feed_destroy`. -/
theorem bounded_twoSwipes :
    (¬ ∀ s, lifecycle.Reach Machine.Any s → AtRest s → live s ≤ viralPoolSize) ∧
      ¬ ∀ s, lifecycle.Reach Machine.Any s → AtRest s → s.stage = .gone → live s = 0 := by
  refine ⟨fun hall => ?_, fun hall => ?_⟩
  · have hseen : (lifecycle.exec Session.init twoSwipes).map seenSession =
        some (true, .alive, [1, 2, 2, 2, 2, 2]) := by decide +kernel
    obtain ⟨s, hs, hobs⟩ := Option.map_eq_some_iff.mp hseen
    simp only [seenSession, Prod.mk.injEq, decide_eq_true_eq] at hobs
    have hle := hall s (Machine.steps_of_exec hs (Machine.meets_any _ _)) hobs.1
    unfold live at hle
    rw [hobs.2.2] at hle
    exact absurd hle (by decide)
  · have hseen : (lifecycle.exec Session.init shownOnce).map seenSession =
        some (true, .gone, [1]) := by decide +kernel
    obtain ⟨s, hs, hobs⟩ := Option.map_eq_some_iff.mp hseen
    simp only [seenSession, Prod.mk.injEq, decide_eq_true_eq] at hobs
    have hzero := hall s (Machine.steps_of_exec hs (Machine.meets_any _ _)) hobs.1 hobs.2.1
    unfold live at hzero
    rw [hobs.2.2] at hzero
    exact absurd hzero (by decide)

end Viral.Feed
