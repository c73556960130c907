/-
  File:      ViralEngine/Feed/Attribution.lean
  Subject:   FOR WHICH VIDEO A MESSAGE LOOP FIRES.

  The loop of a player that was taken out of its slot still has the slot: it stores its `state`
  and reads its `feed_index` when it handles a message it fetched before.

  * `storing`, `changing`, `firing` -- what the message in hand leads to;
  * `Rest` -- no loop of a player will store on account of it; `Rest.set` -- one player changes;
  * `OutAtRest` -- the condition on a step: a player leaves its slot at rest, and a slot gets
    another number when no loop is about to fire under the old one;
  * `Attributed`, `rightlyAttributed` -- then every callback and every store is for the right
    player;
  * `attributed_fetchedBefore` -- a swipe between the fetch of a message and its handling.
-/
import ViralEngine.Feed.Binding

namespace Viral.Feed

open Viral.Lib Viral.Ijk Viral.Ijk.Player

/-! ## 1. Messages in hand -/

/-- The loop is about to store the `state` of its slot. -/
def storing : LoopPc → Bool
  | .got .prepared | .got .completed | .got .error => true
  | .handling .prepared | .handling .completed | .handling .error | .storePlaying => true
  | _ => false

/-- It will do so if the player plays. -/
def changing : LoopPc → Bool
  | .got .stateChanged | .handling .stateChanged => true
  | _ => false

/-- It is about to call the callback, and stores nothing before. -/
def firing : LoopPc → Bool
  | .got .bufferingStart | .handling .bufferingStart | .fire _ => true
  | _ => false

/-- The player plays, or one of its loops has a start in hand that it accepts. -/
def MayPlay (l : List Player) (mp : Nat) : Prop :=
  ∃ P, l[mp]? = some P ∧ (P.isPlaying = true ∨ chkst P.mpState = true ∧
    ∃ U ∈ l, U.target = some mp ∧ U.loop = .got .reqStart)

/-- **The player is at rest**: no loop that works on it has a message in hand on which it will
    store. -/
structure Rest (l : List Player) (mp : Nat) : Prop where
  stores : ∀ T ∈ l, T.target = some mp → storing T.loop = false
  changes : ∀ T ∈ l, T.target = some mp → changing T.loop = true → ¬ MayPlay l mp

instance (l : List Player) (mp : Nat) : Decidable (MayPlay l mp) :=
  match h : l[mp]? with
  | none => isFalse fun ⟨P, hP, _⟩ => by
      rw [h] at hP
      cases hP
  | some P =>
    decidable_of_iff (P.isPlaying = true ∨ chkst P.mpState = true ∧
        ∃ U ∈ l, U.target = some mp ∧ U.loop = .got .reqStart)
      ⟨fun hp => ⟨P, h, hp⟩, fun ⟨Q, hQ, hq⟩ => by
        rw [h] at hQ
        cases hQ
        exact hq⟩

instance (l : List Player) (mp : Nat) : Decidable (Rest l mp) :=
  decidable_of_iff ((∀ T ∈ l, T.target = some mp → storing T.loop = false) ∧
      ∀ T ∈ l, T.target = some mp → changing T.loop = true → ¬ MayPlay l mp)
    ⟨fun h => ⟨h.1, h.2⟩, fun h => ⟨h.stores, h.changes⟩⟩

/-- **One player changes**: its own thread gets nothing in hand, and it does not begin to play. -/
theorem Rest.set {l : List Player} {mp n : Nat} {T T' : Player} (h : Rest l mp)
    (hT : l[n]? = some T)
    (hhand : T'.target = some mp → storing T'.loop = false ∧
      (changing T'.loop = true → T.target = some mp ∧ changing T.loop = true) ∧
      (T'.loop = .got .reqStart → T.target = some mp ∧ T.loop = .got .reqStart))
    (hplay : n = mp → (T'.isPlaying = true → MayPlay l mp) ∧
      (chkst T'.mpState = true → chkst T.mpState = true ∨ MayPlay l mp)) :
    Rest (l.set n T') mp := by
  have hmem : T ∈ l := List.mem_of_getElem? hT
  refine ⟨?_, ?_⟩
  · intro U hU htarget
    rcases List.mem_or_eq_of_mem_set hU with hold | rfl
    · exact h.stores U hold htarget
    · exact (hhand htarget).1
  · intro U hU htarget hch hmay
    -- a loop with the change in hand was there before
    have hbefore : ¬ MayPlay l mp := by
      rcases List.mem_or_eq_of_mem_set hU with hold | rfl
      · exact h.changes U hold htarget hch
      · obtain ⟨ht, hc⟩ := (hhand htarget).2.1 hch
        exact h.changes T hmem ht hc
    have hreq : (∃ V ∈ l.set n T', V.target = some mp ∧ V.loop = .got .reqStart) →
        ∃ V ∈ l, V.target = some mp ∧ V.loop = .got .reqStart := by
      rintro ⟨V, hV, hVt, hVl⟩
      rcases List.mem_or_eq_of_mem_set hV with hold | rfl
      · exact ⟨V, hold, hVt, hVl⟩
      · obtain ⟨ht, hl⟩ := (hhand hVt).2.2 hVl
        exact ⟨T, hmem, ht, hl⟩
    obtain ⟨Q, hQ, hq⟩ := hmay
    apply hbefore
    rw [List.getElem?_set] at hQ
    split at hQ
    · rename_i e
      split at hQ
      · rw [← Option.some.inj hQ] at hq
        obtain ⟨hp, hc⟩ := hplay e
        rcases hq with hq | ⟨hq, hr⟩
        · exact hp hq
        · rcases hc hq with hst | hm
          · rw [e] at hT
            exact ⟨T, hT, Or.inr ⟨hst, hreq hr⟩⟩
          · exact hm
      · cases hQ
    · exact ⟨Q, hQ, hq.imp id fun hq => ⟨hq.1, hreq hq.2⟩⟩

/-- A call of ijkplayer leaves every thread what it has in hand. -/
theorem Rest.call {l : List Player} {mp j : Nat} {P Q : Player} (h : Rest l mp)
    (hP : l[j]? = some P) (hk : Kin P Q)
    (hplay : j = mp → (Q.isPlaying = true → MayPlay l mp) ∧
      (chkst Q.mpState = true → chkst P.mpState = true ∨ MayPlay l mp)) : Rest (l.set j Q) mp := by
  refine h.set hP ?_ hplay
  rw [hk.target, hk.loop]
  intro htarget
  exact ⟨h.stores P (List.mem_of_getElem? hP) htarget, fun hc => ⟨htarget, hc⟩,
    fun hl => ⟨htarget, hl⟩⟩

/-! ## 2. The condition and the statement -/

/-- At the places where a player leaves its slot it is at rest, and where a slot gets a number no
    loop on it is about to fire for a player of another number. -/
def OutAtRestAt (s : State) : Option (Int × ScrollPc) → Prop
  | some (index, .init i .clear) => ∀ mp ∈ (s.feed.slot (index + i)).mp, Rest s.players mp
  | some (index, .releaseClear) => ∀ mp ∈ (s.feed.slot (releaseBefore index)).mp, Rest s.players mp
  | some (index, .init i .number) => ∀ T ∈ s.players, T.slot = slotOf (index + i) →
      firing T.loop = true → ∀ mp ∈ T.target, s.feed.created[mp]? = some (index + i)
  | _ => True

/-- **The condition on a step.** -/
def OutAtRest (s : State) : PlayAct → Prop
  | .scroll _ => OutAtRestAt s s.scroll
  | _ => True

/-- The places of the stores into the `state` of the slot. -/
def stores : LoopPc → Bool
  | .handling .prepared | .handling .completed | .handling .error | .storePlaying => true
  | _ => false

/-- **Every loop is about its own video**: when it calls the callback, the number it passes is the
    one its player was created for; when it stores a state, its player is the one in the slot. -/
def Attributed (s : State) : Prop :=
  ∀ (n : Nat) (T : Player), s.players[n]? = some T →
    (∀ e, T.loop = .fire e → ∃ mp, T.target = some mp ∧
      s.feed.created[mp]? = some (s.feed.pool T.slot).feedIndex) ∧
    (stores T.loop = true → ∃ mp, T.target = some mp ∧ (s.feed.pool T.slot).mp = some mp)

/-! ## 3. The invariant -/

/-- A player outside its slot is at rest, and a loop about to fire has the right number in its
    slot. -/
structure Attr (s : State) : Prop where
  bound : Bound s
  rest : ∀ (mp : Nat) (P : Player), s.players[mp]? = some P →
    (s.feed.pool P.slot).mp = some mp ∨ Rest s.players mp
  fires : ∀ (n : Nat) (T : Player) (mp : Nat), s.players[n]? = some T → T.target = some mp →
    firing T.loop = true → s.feed.created[mp]? = some (s.feed.pool T.slot).feedIndex

section Attr

variable {s t : State}

/-- The loop has a store ahead. -/
def StoreAhead (s : State) (T : Player) : Prop :=
  storing T.loop = true ∨ changing T.loop = true ∧ ∀ mp, T.target = some mp → MayPlay s.players mp

/-- A loop with a store ahead works on the player in its slot. -/
theorem Attr.attached (h : Attr s) {n mp : Nat} {T : Player} (hT : s.players[n]? = some T)
    (htarget : T.target = some mp) (hst : StoreAhead s T) :
    (s.feed.pool T.slot).mp = some mp := by
  obtain ⟨P, hP, hslot, _⟩ := (h.bound.players n T hT).target mp htarget
  rcases h.rest mp P hP with hatt | hrest
  · rw [hslot] at hatt
    exact hatt
  · have hmem := List.mem_of_getElem? hT
    rcases hst with hst | ⟨hch, hmay⟩
    · have hno := hrest.stores T hmem htarget
      rw [hst] at hno
      cases hno
    · exact absurd (hmay mp htarget) (hrest.changes T hmem htarget hch)

theorem Attr.attributed (h : Attr s) : Attributed s := by
  intro n T hT
  refine ⟨?_, ?_⟩
  · intro e hl
    obtain ⟨mp, htarget⟩ := (h.bound.players n T hT).aimed (by rw [hl]; rfl)
    exact ⟨mp, htarget, h.fires n T mp hT htarget (by rw [hl]; rfl)⟩
  · intro hst
    have hstoring : storing T.loop = true ∧ blind T.loop = false := by
      unfold stores at hst
      split at hst
      all_goals first
        | (rename_i e; rw [e]; exact ⟨rfl, rfl⟩)
        | cases hst
    obtain ⟨mp, htarget⟩ := (h.bound.players n T hT).aimed hstoring.2
    exact ⟨mp, htarget, h.attached hT htarget (Or.inl hstoring.1)⟩

/-- **A call of ijkplayer**, whoever makes it: on a player outside its slot it does nothing. -/
theorem Attr.onPlayer (h : Attr s) {j : Nat} {f : Player → Player} (hb : Bound (s.onPlayer j f))
    (hkin : ∀ P, s.players[j]? = some P → Kin P (f P))
    (hplay : ∀ P, s.players[j]? = some P → (s.feed.pool P.slot).mp = some j ∨
      ((f P).isPlaying = true → MayPlay s.players j) ∧
        (chkst (f P).mpState = true → chkst P.mpState = true ∨ MayPlay s.players j)) :
    Attr (s.onPlayer j f) := by
  cases hj : s.players[j]? with
  | none =>
    have e : s.onPlayer j f = s := by
      unfold State.onPlayer
      rw [modify_of_none hj]
    rw [e]
    exact h
  | some P =>
    have hk := hkin P hj
    have hset : (s.onPlayer j f).players = s.players.set j (f P) := modify_of_get hj f
    refine ⟨hb, ?_, ?_⟩
    · intro mp R hR
      rw [hset] at hR ⊢
      -- the player as it was
      have hbefore : ∃ R₀, s.players[mp]? = some R₀ ∧ R.slot = R₀.slot := by
        rcases set_cases hR with ⟨rfl, rfl⟩ | hold
        · exact ⟨P, hj, hk.slot⟩
        · exact ⟨R, hold, rfl⟩
      obtain ⟨R₀, hR₀, hslot⟩ := hbefore
      rw [hslot]
      rcases h.rest mp R₀ hR₀ with hatt | hrest
      · exact Or.inl hatt
      · by_cases e : j = mp
        · subst e
          have e' : P = R₀ := Option.some.inj (hj.symm.trans hR₀)
          rcases hplay P hj with hatt | hp
          · rw [← e']
            exact Or.inl hatt
          · exact Or.inr (hrest.call hj hk fun _ => hp)
        · exact Or.inr (hrest.call hj hk fun e' => absurd e' e)
    · intro n T mp hT htarget hf
      rw [hset] at hT
      rcases set_cases hT with ⟨rfl, rfl⟩ | hold
      · rw [hk.target] at htarget
        rw [hk.loop] at hf
        rw [hk.slot]
        exact h.fires _ P mp hj htarget hf
      · exact h.fires n T mp hold htarget hf

/-- A call that an aborted queue refuses. -/
theorem Attr.request (h : Attr s) {j : Nat} {f : Player → Player} (hkin : ∀ P, Kin P (f P))
    (hab : ∀ P, P.aborted = true → f P = P) : Attr (s.onPlayer j f) := by
  have hb : Bound (s.onPlayer j f) :=
    h.bound.onPlayer (fun P _ => hkin P) fun P hP hl => hab P (h.bound.fresh hP hl).aborted
  refine h.onPlayer hb (fun P _ => hkin P) ?_
  intro P hP
  rcases (h.bound.players j P hP).live with ha | hatt
  · rw [hab P ha]
    exact Or.inr ⟨fun hp => ⟨P, hP, Or.inl hp⟩, Or.inl⟩
  · exact Or.inl hatt

/-- **A thread moves on**: it gets nothing new in hand unless its player is in the slot. -/
theorem Attr.thread (h : Attr s) {n : Nat} {T : Player} {pc : LoopPc} {target : Option Nat}
    (hT : s.players[n]? = some T)
    (hb : Bound (s.onPlayer n fun P => { P with loop := pc, target := target }))
    (hhand : ∀ mp, target = some mp → (s.feed.pool T.slot).mp = some mp ∨
      storing pc = false ∧ (changing pc = true → T.target = some mp ∧ changing T.loop = true) ∧
        (pc = .got .reqStart → T.target = some mp ∧ T.loop = .got .reqStart))
    (hfire : ∀ mp, target = some mp → firing pc = true →
      s.feed.created[mp]? = some (s.feed.pool T.slot).feedIndex) :
    Attr (s.onPlayer n fun P => { P with loop := pc, target := target }) := by
  have hset : (s.onPlayer n fun P => { P with loop := pc, target := target }).players =
      s.players.set n { T with loop := pc, target := target } := modify_of_get hT _
  refine ⟨hb, ?_, ?_⟩
  · intro mp R hR
    rw [hset] at hR ⊢
    have hbefore : ∃ R₀, s.players[mp]? = some R₀ ∧ R.slot = R₀.slot := by
      rcases set_cases hR with ⟨rfl, rfl⟩ | hold
      · exact ⟨T, hT, rfl⟩
      · exact ⟨R, hold, rfl⟩
    obtain ⟨R₀, hR₀, hslot⟩ := hbefore
    rw [hslot]
    rcases h.rest mp R₀ hR₀ with hatt | hrest
    · exact Or.inl hatt
    · by_cases hatt : (s.feed.pool R₀.slot).mp = some mp
      · exact Or.inl hatt
      · refine Or.inr (hrest.set hT ?_ ?_)
        · intro htarget
          obtain ⟨Q, hQ, hQslot, _⟩ := (hb.players n { T with loop := pc, target := target } (by
            rw [hset, List.getElem?_set, if_pos rfl,
              if_pos (List.getElem?_eq_some_iff.mp hT).1])).target mp htarget
          have hsame : Q.slot = R₀.slot := by
            rw [hset] at hQ
            have e : R = Q := Option.some.inj (hR.symm.trans hQ)
            rw [← e, hslot]
          rcases hhand mp htarget with hin | hout
          · rw [← hsame, hQslot] at hatt
            exact absurd hin hatt
          · exact hout
        · intro e
          subst e
          exact ⟨fun hp => ⟨T, hT, Or.inl hp⟩, fun hc => Or.inl hc⟩
  · intro m U mp hU htarget hf
    rw [hset] at hU
    rcases set_cases hU with ⟨rfl, rfl⟩ | hold
    · exact hfire mp htarget hf
    · exact h.fires m U mp hold htarget hf

/-- A thread moves on and keeps its target: what it has ahead it had before. -/
theorem Attr.setLoop (h : Attr s) {n : Nat} {T : Player} {pc : LoopPc}
    (hT : s.players[n]? = some T) (hb : Bound (s.setLoop n pc))
    (hstore : storing pc = true → StoreAhead s T)
    (hchange : changing pc = true → changing T.loop = true) (hreq : pc ≠ .got .reqStart)
    (hfire : firing pc = true → firing T.loop = true ∨ StoreAhead s T) : Attr (s.setLoop n pc) := by
  rw [setLoop_eq hT] at hb ⊢
  refine h.thread hT hb ?_ ?_
  · intro mp htarget
    by_cases hatt : (s.feed.pool T.slot).mp = some mp
    · exact Or.inl hatt
    · refine Or.inr ⟨?_, fun hc => ⟨htarget, hchange hc⟩, fun e => absurd e hreq⟩
      cases hpc : storing pc with
      | false => rfl
      | true => exact absurd (h.attached hT htarget (hstore hpc)) hatt
  · intro mp htarget hpc
    rcases hfire hpc with hf | hst
    · exact h.fires n T mp hT htarget hf
    · exact (h.bound.slots _ mp (h.attached hT htarget hst)).1

/-- The players and the ring stay. -/
theorem Attr.aside (h : Attr s) (hb : Bound t) (hplayers : t.players = s.players)
    (hring : SameRing s t) (hcreated : t.feed.created = s.feed.created) : Attr t := by
  refine ⟨hb, ?_, ?_⟩
  · intro mp P hP
    rw [hplayers] at hP ⊢
    rw [hring.mp]
    exact h.rest mp P hP
  · intro n T mp hT htarget hf
    rw [hplayers] at hT
    rw [hcreated, hring.feedIndex]
    exact h.fires n T mp hT htarget hf

/-- A message that stores nothing starts a player only on a request in hand. -/
theorem serve_calm (P : Player) {m : Msg} (hm : storing (.got m) = false) :
    ((P.serve m).isPlaying = true → P.isPlaying = true ∨ m = .reqStart ∧ chkst P.mpState = true) ∧
      (chkst (P.serve m).mpState = true → chkst P.mpState = true) := by
  cases m with
  | prepared | completed | error => cases hm
  | flush | bufferingStart | stateChanged | other => exact ⟨Or.inl, id⟩
  | reqStart =>
    unfold serve
    dsimp only
    split
    · rename_i hst
      exact ⟨fun _ => Or.inr ⟨rfl, hst⟩, fun _ => hst⟩
    · exact ⟨Or.inl, id⟩
  | reqPause =>
    unfold serve
    dsimp only
    split
    · rename_i hst
      refine ⟨?_, fun _ => hst⟩
      unfold isPlaying
      rw [changeState_mpState]
      nofun
    · exact ⟨Or.inl, id⟩

/-- **A step of a message loop.** -/
theorem loopStep_attr {n : Nat} (h : Attr s) (hstep : loopStep s n = some t) : Attr t := by
  have hb := loopStep_bound h.bound hstep
  obtain ⟨T, hT, hdo⟩ := loopStep_do hstep
  have hmem := List.mem_of_getElem? hT
  cases hdo with
  | found mp hl hmp =>
    refine h.thread hT hb ?_ nofun
    intro j hj
    cases hj
    exact Or.inl hmp
  | lost hl hmp => exact h.setLoop hT hb nofun nofun nofun nofun
  | took mp P Q pc hl htarget hP htake =>
    have hQ : ∀ R, s.players[mp]? = some R → R = P :=
      fun R hR => Option.some.inj (hR.symm.trans hP)
    have hkin := kin_took hP htake
    have hstate : Q.mpState = P.mpState := by
      rcases take_cases htake with ⟨_, rfl, _⟩ | ⟨_, _, _, _, rfl, _⟩ <;> rfl
    have hu : Attr (s.onPlayer mp fun _ => Q) := by
      refine h.onPlayer (h.bound.took hP htake) hkin ?_
      intro R hR
      rw [hQ R hR]
      refine Or.inr ⟨fun hp => ⟨P, hP, Or.inl ?_⟩, fun hc => Or.inl ?_⟩
      · unfold isPlaying at hp ⊢
        rw [← hstate]
        exact hp
      · rw [← hstate]
        exact hc
    obtain ⟨U, hU, hUl, hUslot, hUtarget⟩ := onPlayer_thread hT hkin
    rw [setLoop_eq hU] at hb ⊢
    rcases take_cases htake with ⟨_, _, rfl⟩ | ⟨ha, m, rest, _, _, rfl⟩
    · exact hu.thread hU hb (fun _ _ => Or.inr ⟨rfl, nofun, nofun⟩) nofun
    · -- a message comes out of a queue that is not aborted, so the player is in its slot
      obtain ⟨P', hP', hslot, _⟩ := (h.bound.players n T hT).target mp htarget
      rw [hQ P' hP'] at hslot
      have hatt : (s.feed.pool U.slot).mp = some mp := by
        rw [hUslot, ← hslot]
        refine (h.bound.players mp P hP).live.resolve_left ?_
        rw [ha]
        exact Bool.false_ne_true
      refine hu.thread hU hb ?_ ?_
      · intro j hj
        rw [hUtarget, htarget] at hj
        cases hj
        exact Or.inl hatt
      · intro j hj _
        rw [hUtarget, htarget] at hj
        cases hj
        exact (h.bound.slots _ mp hatt).1
  | served m mp hl htarget =>
    have hkin : ∀ R, s.players[mp]? = some R → Kin R (R.serve m) :=
      fun R _ => kin_of_sameThread (sameThread_serve R m)
    have hu : Attr (s.onPlayer mp fun P => P.serve m) := by
      refine h.onPlayer (h.bound.served hT hl htarget) hkin ?_
      intro P hP
      rcases h.rest mp P hP with hatt | hrest
      · exact Or.inl hatt
      · have hm : storing (.got m) = false := by
          rw [← hl]
          exact hrest.stores T hmem htarget
        obtain ⟨hplay, hst⟩ := serve_calm P hm
        refine Or.inr ⟨?_, fun hc => Or.inl (hst hc)⟩
        intro hp
        rcases hplay hp with hp | ⟨e, hc⟩
        · exact ⟨P, hP, Or.inl hp⟩
        · rw [e] at hl
          exact ⟨P, hP, Or.inr ⟨hc, T, hmem, htarget, hl⟩⟩
    obtain ⟨U, hU, hUl, _, _⟩ := onPlayer_thread hT hkin
    have hhand : ∀ φ : LoopPc → Bool, (φ (served m) = true → φ (.got m) = true) →
        φ (served m) = true → φ U.loop = true := by
      intro φ hφ hpc
      rw [hUl, hl]
      exact hφ hpc
    refine hu.setLoop hU hb (fun hpc => Or.inl ?_) ?_ ?_ (fun hpc => Or.inl ?_)
    · exact hhand storing (by cases m <;> first | exact fun _ => rfl | nofun) hpc
    · exact hhand changing (by cases m <;> first | exact fun _ => rfl | nofun)
    · cases m <;> nofun
    · exact hhand firing (by cases m <;> first | exact fun _ => rfl | nofun) hpc
  | stored state e hl =>
    have hst : StoreAhead (s.storeState T.slot state) T := by
      rcases hl with e | e | e | e <;> exact Or.inl (by rw [e]; rfl)
    have hring := sameRing_storeState s T.slot state
    have hu : Attr (s.storeState T.slot state) :=
      h.aside (h.bound.aside rfl hring rfl rfl) rfl hring rfl
    exact hu.setLoop hT hb nofun nofun nofun fun _ => Or.inr hst
  | buffering hl => exact h.setLoop hT hb nofun nofun nofun fun _ => Or.inl (by rw [hl]; rfl)
  | plays mp P hl htarget hP hplay =>
    refine h.setLoop hT hb (fun _ => Or.inr ⟨by rw [hl]; rfl, ?_⟩) nofun nofun nofun
    intro j hj
    rw [htarget] at hj
    cases hj
    exact ⟨P, hP, Or.inl hplay⟩
  | passed m hl => exact h.setLoop hT hb nofun nofun nofun nofun
  | fired e pc hl hpc =>
    have hbu : Bound (s.setLoop n pc) :=
      hb.aside (t := s.setLoop n pc) rfl ⟨fun _ => rfl, fun _ => rfl, rfl⟩ rfl rfl
    have hu : Attr (s.setLoop n pc) := by
      rcases hpc with rfl | rfl <;> exact h.setLoop hT hbu nofun nofun nofun nofun
    exact hu.aside hb rfl ⟨fun _ => rfl, fun _ => rfl, rfl⟩ rfl
  | indexRead hl => exact h.setLoop hT hb nofun nofun nofun nofun
  | tested f pc hl hpc =>
    rcases hpc with rfl | rfl <;> exact h.setLoop hT hb nofun nofun nofun nofun
  | started mp hl htarget =>
    have hu : Attr (s.onPlayer mp .start) := h.request kin_start fun _ => start_aborted
    have hring : SameRing (s.onPlayer mp .start) ((s.onPlayer mp .start).log mp .start) :=
      ⟨fun _ => rfl, fun _ => rfl, rfl⟩
    have hv : Attr ((s.onPlayer mp .start).log mp .start) :=
      hu.aside (hu.bound.aside rfl hring rfl rfl) rfl hring rfl
    obtain ⟨U, hU, _, _, _⟩ := onPlayer_thread hT fun R _ => kin_start R
    exact hv.setLoop hU hb nofun nofun nofun nofun

theorem callStep_attr {n : Nat} (h : Attr s) (hstep : callStep s n = some t) : Attr t := by
  have hb := callStep_bound h.bound hstep
  cases callStep_cases hstep with
  | read => exact h.aside hb rfl ⟨fun _ => rfl, fun _ => rfl, rfl⟩ rfl
  | act cmd mp =>
    have hu : Attr (s.onPlayer mp cmd.onPlayer) := by
      cases cmd with
      | play => exact h.request kin_start fun _ => start_aborted
      | pause => exact h.request kin_pause fun _ => pause_aborted
    exact hu.aside hb rfl ⟨fun _ => rfl, fun _ => rfl, rfl⟩ rfl

theorem post_attr {mp : Nat} {m : Msg} (h : Attr s) (hstep : playStep s (.post mp m) = some t) :
    Attr t := by
  obtain ⟨P, _, _, rfl⟩ := post_cases hstep
  exact h.request (fun R => kin_put R m) fun _ => put_aborted

/-! ### The swipe -/

/-- The swipe stops the player of a slot, or shuts it down. -/
theorem Attr.occupant (h : Attr s) {k : Slot} {mp : Nat} {f : Player → Player}
    (hmp : (s.feed.pool k).mp = some mp) (hkin : ∀ P, Kin P (f P))
    (hfresh : ∀ P, Fresh P → f P = P) : Attr (s.onPlayer mp f) := by
  have hb : Bound (s.onPlayer mp f) :=
    h.bound.onPlayer (fun P _ => hkin P) fun P hP hl => hfresh P (h.bound.fresh hP hl)
  refine h.onPlayer hb (fun P _ => hkin P) ?_
  intro P hP
  obtain ⟨_, P', hP', hslot⟩ := h.bound.slots k mp hmp
  rw [Option.some.inj (hP.symm.trans hP'), hslot]
  exact Or.inl hmp

/-- The player being made is replaced by what its making leaves. -/
theorem Attr.remake (h : Attr s) (hb : Bound t) {k : Slot} {mp : Nat} {P Q : Player}
    (hmp : (s.feed.pool k).mp = some mp) (hP : s.players[mp]? = some P) (hslot : Q.slot = P.slot)
    (htarget : Q.target = none) (hplayers : t.players = s.players.set mp Q) (hring : SameRing s t)
    (hcreated : t.feed.created = s.feed.created) : Attr t := by
  refine ⟨hb, ?_, ?_⟩
  · intro j R hR
    rw [hplayers] at hR ⊢
    rw [hring.mp]
    by_cases e : j = mp
    · obtain ⟨_, P', hP', hP'slot⟩ := h.bound.slots k mp hmp
      rw [e, List.getElem?_set, if_pos rfl, if_pos (List.getElem?_eq_some_iff.mp hP).1] at hR
      rw [← Option.some.inj hR, hslot, Option.some.inj (hP.symm.trans hP'), hP'slot, e]
      exact Or.inl hmp
    · rw [List.getElem?_set, if_neg (Ne.symm e)] at hR
      refine (h.rest j R hR).imp id fun hrest => hrest.set hP ?_ fun e' => absurd e'.symm e
      rw [htarget]
      nofun
  · intro n T j hT hj hf
    rw [hcreated, hring.feedIndex]
    rw [hplayers] at hT
    rcases set_cases hT with ⟨_, rfl⟩ | hold
    · rw [htarget] at hj
      cases hj
    · exact h.fires n T j hold hj hf

/-- **A slot changes and stays or becomes empty**: the player it held is at rest, and the loops
    about to fire on it have its number. -/
theorem Attr.emptySlot (h : Attr s) (hb : Bound t) {k : Slot} {vp : ViralPlayer}
    (hrest : ∀ mp, (s.feed.pool k).mp = some mp → Rest s.players mp)
    (hfire : ∀ (n : Nat) (T : Player) (mp : Nat), s.players[n]? = some T → T.slot = k →
      T.target = some mp → firing T.loop = true → s.feed.created[mp]? = some vp.feedIndex)
    (hfeed : t.feed = s.feed.setSlot k vp) (hplayers : t.players = s.players) : Attr t := by
  have hpool : ∀ j, t.feed.pool j = if j = k then vp else s.feed.pool j := by
    intro j
    rw [hfeed]
    rfl
  have hcreated : t.feed.created = s.feed.created := by
    rw [hfeed]
    rfl
  refine ⟨hb, ?_, ?_⟩
  · intro mp P hP
    rw [hplayers] at hP ⊢
    rw [hpool]
    rcases h.rest mp P hP with hatt | hr
    · by_cases e : P.slot = k
      · rw [e] at hatt
        exact Or.inr (hrest mp hatt)
      · rw [if_neg e]
        exact Or.inl hatt
    · exact Or.inr hr
  · intro n T mp hT htarget hf
    rw [hplayers] at hT
    rw [hcreated, hpool]
    by_cases e : T.slot = k
    · rw [if_pos e]
      exact hfire n T mp hT e htarget hf
    · rw [if_neg e]
      exact h.fires n T mp hT htarget hf

/-- A player more, without a target. -/
theorem Rest.append {l : List Player} {mp : Nat} {P : Player} (h : Rest l mp) (hlt : mp < l.length)
    (htarget : P.target = none) : Rest (l ++ [P]) mp := by
  have hold : ∀ T ∈ l ++ [P], T.target = some mp → T ∈ l := by
    intro T hT ht
    rcases List.mem_append.mp hT with hT | hT
    · exact hT
    · rw [List.mem_singleton.mp hT, htarget] at ht
      cases ht
  refine ⟨fun T hT ht => h.stores T (hold T hT ht) ht, ?_⟩
  intro T hT ht hch hmay
  refine h.changes T (hold T hT ht) ht hch ?_
  obtain ⟨Q, hQ, hq⟩ := hmay
  rw [List.getElem?_append_left hlt] at hQ
  refine ⟨Q, hQ, hq.imp id ?_⟩
  rintro ⟨hst, U, hU, hUt, hUl⟩
  exact ⟨hst, U, hold U hU hUt, hUt, hUl⟩

/-- `ijkmp_create` in the emptied slot. -/
theorem Attr.create (h : Attr s) (hb : Bound t) {k : Slot} {next : Int} {vp : ViralPlayer}
    (hempty : (s.feed.pool k).mp = none) (hvp : vp.mp = some s.players.length)
    (hidx : vp.feedIndex = (s.feed.pool k).feedIndex)
    (hpool : ∀ j, t.feed.pool j = if j = k then vp else s.feed.pool j)
    (hcreated : t.feed.created = s.feed.created ++ [next])
    (hplayers : t.players = s.players ++ [Player.create k]) : Attr t := by
  have hindex : ∀ j, (t.feed.pool j).feedIndex = (s.feed.pool j).feedIndex := by
    intro j
    rw [hpool]
    by_cases e : j = k
    · rw [if_pos e, e, hidx]
    · rw [if_neg e]
  refine ⟨hb, ?_, ?_⟩
  · intro mp P hP
    rcases Nat.lt_or_ge mp s.players.length with hlt | hge
    · rw [hplayers, List.getElem?_append_left hlt] at hP
      rcases h.rest mp P hP with hatt | hrest
      · refine Or.inl ?_
        rw [hpool]
        by_cases e : P.slot = k
        · rw [e, hempty] at hatt
          cases hatt
        · rw [if_neg e]
          exact hatt
      · rw [hplayers]
        exact Or.inr (hrest.append hlt rfl)
    · have hmp : mp = s.players.length := by
        have hlt := (List.getElem?_eq_some_iff.mp hP).1
        rw [hplayers, List.length_append, List.length_singleton] at hlt
        omega
      rw [hplayers, hmp, List.getElem?_concat_length] at hP
      rw [← Option.some.inj hP, hpool, if_pos (show (Player.create k).slot = k from rfl), hmp]
      exact Or.inl hvp
  · intro n T mp hT htarget hf
    rw [hindex, hcreated]
    rw [hplayers] at hT
    have hold : s.players[n]? = some T := by
      rcases List.mem_append.mp (List.mem_of_getElem? hT) with hmem | hmem
      · rcases Nat.lt_or_ge n s.players.length with hlt | hge
        · rw [List.getElem?_append_left hlt] at hT
          exact hT
        · have hn : n = s.players.length := by
            have hlt := (List.getElem?_eq_some_iff.mp hT).1
            rw [List.length_append, List.length_singleton] at hlt
            omega
          rw [hn, List.getElem?_concat_length] at hT
          rw [← Option.some.inj hT] at htarget
          cases htarget
      · rw [List.mem_singleton.mp hmem] at htarget
        cases htarget
    have hcr := h.fires n T mp hold htarget hf
    rw [List.getElem?_append_left (List.getElem?_eq_some_iff.mp hcr).1]
    exact hcr

/-- **A step of `viral_player_init_slot`** that meets the condition. -/
theorem initMove_attr {index : Int} {i : Nat} {ok : Bool} {pc : InitPc} (h : Attr s)
    (hs : s.scroll = some (index, .init i pc)) (hc : OutAtRestAt s s.scroll) (hb : Bound t)
    (hm : InitMove s index i ok pc t) : Attr t := by
  have hinit := h.bound.initBound hs
  rw [hs] at hc
  cases hm with
  | stopped mp hmp =>
    have hu := h.occupant hmp kin_stop fun _ hf => hf.stop
    exact hu.aside hb rfl ⟨fun _ => rfl, fun _ => rfl, rfl⟩ rfl
  | shutDown mp hmp =>
    have hu := h.occupant hmp kin_shutdown fun _ hf => hf.shutdown
    exact hu.aside hb rfl ⟨fun _ => rfl, fun _ => rfl, rfl⟩ rfl
  | noneToStop hmp => exact h.aside hb rfl ⟨fun _ => rfl, fun _ => rfl, rfl⟩ rfl
  | noneToShutDown hmp => exact h.aside hb rfl ⟨fun _ => rfl, fun _ => rfl, rfl⟩ rfl
  | cleared =>
    refine h.emptySlot hb hc ?_ rfl rfl
    intro n T mp hT hslot htarget hf
    have hcr := h.fires n T mp hT htarget hf
    rw [hslot] at hcr
    exact hcr
  | numbered hvalid =>
    refine h.emptySlot hb ?_ ?_ rfl rfl
    · intro mp hmp
      cases hinit.symm.trans hmp
    · intro n T mp hT hslot htarget hf
      exact hc T (List.mem_of_getElem? hT) hslot hf mp htarget
  | outside hout =>
    refine h.emptySlot hb ?_ ?_ rfl rfl
    · intro mp hmp
      cases hinit.symm.trans hmp
    · intro n T mp hT hslot htarget hf
      exact hc T (List.mem_of_getElem? hT) hslot hf mp htarget
  | created =>
    have hvp : ({ s.feed.slot (index + i) with
        url := s.feed.urls[(index + i).toNat]?, mp := some s.players.length } :
          ViralPlayer).mp = some s.players.length := rfl
    exact h.create hb hinit.1 hvp rfl (fun _ => rfl) rfl rfl
  | sourced mp hmp =>
    obtain ⟨_, mp', hmp', hP⟩ := hinit
    have e : mp' = mp := Option.some.inj (hmp'.symm.trans hmp)
    subst e
    exact h.remake hb hmp hP (Q := initialized (slotOf (index + i))) rfl rfl (modify_of_get hP _)
      ⟨fun _ => rfl, fun _ => rfl, rfl⟩ rfl
  | noSource hmp => exact h.aside hb rfl ⟨fun _ => rfl, fun _ => rfl, rfl⟩ rfl
  | preloading =>
    have hring := sameRing_storeState s (slotOf (index + i)) .preloading
    exact h.aside hb rfl ⟨hring.mp, hring.feedIndex, hring.current⟩ rfl
  | prepared mp hmp =>
    obtain ⟨_, mp', hmp', hP⟩ := hinit
    have e : mp' = mp := Option.some.inj (hmp'.symm.trans hmp)
    subst e
    have hfields := prepareAsync_initialized (slotOf (index + i)) ok
    refine h.remake hb hmp hP (Q := (initialized (slotOf (index + i))).prepareAsync ok) ?_ ?_
      (modify_of_get hP _) ⟨fun _ => rfl, fun _ => rfl, rfl⟩ rfl
    · rw [hfields]
      rfl
    · rw [hfields]
      rfl
  | noPrepare hmp => exact h.aside hb rfl ⟨fun _ => rfl, fun _ => rfl, rfl⟩ rfl

/-- **A step of the swipe** that meets the condition. -/
theorem scrollStep_attr {ok : Bool} (h : Attr s) (hc : OutAtRest s (.scroll ok))
    (hstep : scrollStep s ok = some t) : Attr t := by
  have hb := scrollStep_bound h.bound hstep
  obtain ⟨index, pc, hs, hm⟩ := scrollStep_cases hstep
  cases hm with
  | paused prev mp hprev hmp =>
    have hu := h.request (j := mp) kin_pause fun _ => pause_aborted
    exact hu.aside hb rfl ⟨fun _ => rfl, fun _ => rfl, rfl⟩ rfl
  | started mp =>
    have hu := h.request (j := mp) kin_start fun _ => start_aborted
    exact hu.aside hb rfl ⟨fun _ => rfl, fun _ => rfl, rfl⟩ rfl
  | init i pc t hinit => exact initMove_attr h hs hc hb hinit
  | released mp hmp hidx =>
    have hu := h.occupant hmp kin_stop fun _ hf => hf.stop
    exact hu.aside hb rfl ⟨fun _ => rfl, fun _ => rfl, rfl⟩ rfl
  | releasedDown mp hmp =>
    have hu := h.occupant hmp kin_shutdown fun _ hf => hf.shutdown
    exact hu.aside hb rfl ⟨fun _ => rfl, fun _ => rfl, rfl⟩ rfl
  | releasedClear =>
    have hout : OutAtRestAt s s.scroll := hc
    rw [hs] at hout
    refine h.emptySlot hb hout ?_ rfl rfl
    intro n T mp hT hslot htarget hf
    have hcr := h.fires n T mp hT htarget hf
    rw [hslot] at hcr
    exact hcr
  | notPaused prev hnot => exact h.aside hb rfl ⟨fun _ => rfl, fun _ => rfl, rfl⟩ rfl
  | found mp next hmp hidx hnext => exact h.aside hb rfl ⟨fun _ => rfl, fun _ => rfl, rfl⟩ rfl
  | missing hmiss => exact h.aside hb rfl ⟨fun _ => rfl, fun _ => rfl, rfl⟩ rfl
  | preloadDone i hdone => exact h.aside hb rfl ⟨fun _ => rfl, fun _ => rfl, rfl⟩ rfl
  | preloadNext i hmore hidx => exact h.aside hb rfl ⟨fun _ => rfl, fun _ => rfl, rfl⟩ rfl
  | preloadSkip i hmore hidx => exact h.aside hb rfl ⟨fun _ => rfl, fun _ => rfl, rfl⟩ rfl
  | notReleased hnot => exact h.aside hb rfl ⟨fun _ => rfl, fun _ => rfl, rfl⟩ rfl
  | noneReleased hmp => exact h.aside hb rfl ⟨fun _ => rfl, fun _ => rfl, rfl⟩ rfl

/-- **One step that meets the condition.** -/
theorem playStep_attr {a : PlayAct} (h : Attr s) (hc : OutAtRest s a)
    (hstep : playStep s a = some t) : Attr t := by
  have hb := playStep_bound h.bound hstep
  cases a with
  | scrollTo index =>
    have hstep' : enterScroll s index = some t := hstep
    unfold enterScroll at hstep'
    split at hstep'
    · split at hstep'
      · cases hstep'
      · cases hstep'
        exact ⟨hb, h.rest, h.fires⟩
    · cases hstep'
      exact h
  | scroll ok => exact scrollStep_attr h hc hstep
  | invoke cmd =>
    cases hstep
    exact h.aside hb rfl ⟨fun _ => rfl, fun _ => rfl, rfl⟩ rfl
  | call n => exact callStep_attr h hstep
  | loop n => exact loopStep_attr h hstep
  | post mp m => exact post_attr h hstep

end Attr

theorem init_attr (urls : List String) : Attr (State.init urls) where
  bound := init_bound urls
  rest _ _ hP := by cases hP
  fires _ _ _ hT := by cases hT

/-- **Callbacks and states go to the right video** in every run whose swipes take players out at
    rest. -/
theorem rightlyAttributed (urls : List String) {s : State}
    (h : (playback urls).Reach OutAtRest s) : Attributed s :=
  (h.invariant (I := Attr) (init_attr urls) fun _ _ _ hi hc hs => playStep_attr hi hc hs).attributed

/-! ## 4. Two runs -/

instance (s : State) : ∀ p, Decidable (OutAtRestAt s p)
  | some (index, .init i .clear) =>
    inferInstanceAs (Decidable (∀ mp ∈ (s.feed.slot (index + i)).mp, Rest s.players mp))
  | some (index, .releaseClear) =>
    inferInstanceAs (Decidable (∀ mp ∈ (s.feed.slot (releaseBefore index)).mp, Rest s.players mp))
  | some (index, .init i .number) =>
    inferInstanceAs (Decidable (∀ T ∈ s.players, T.slot = slotOf (index + i) →
      firing T.loop = true → ∀ mp ∈ T.target, s.feed.created[mp]? = some (index + i)))
  | some (_, .init _ .stop) | some (_, .init _ .shutdown) | some (_, .init _ .create)
  | some (_, .init _ .source) | some (_, .init _ .preloading) | some (_, .init _ .prepare)
  | some (_, .pausePrev _) | some (_, .play) | some (_, .start _) | some (_, .preload _)
  | some (_, .release) | some (_, .releaseShutdown) | none => inferInstanceAs (Decidable True)

instance (s : State) : ∀ a, Decidable (OutAtRest s a)
  | .scroll _ => inferInstanceAs (Decidable (OutAtRestAt s s.scroll))
  | .scrollTo _ | .invoke _ | .call _ | .loop _ | .post _ _ => inferInstanceAs (Decidable True)

/-- Six videos: the first swipe, and its first player is prepared; its loop fetches the message. -/
def fetched : List PlayAct :=
  .scrollTo 0 :: List.replicate 24 (.scroll true) ++ .post 0 .prepared :: List.replicate 5 (.loop 0)

/-- The swipe to the last video, which takes the first player's slot. -/
def swipeFar : List PlayAct := .scrollTo 5 :: List.replicate 14 (.scroll true)

/-- What is seen of a loop: its place, its player, the slot's player and number, and for which
    numbers the players were created. -/
structure LoopView where
  loop : LoopPc
  target : Option Nat
  holds : Option Nat
  number : Int
  created : List Int
  deriving DecidableEq

/-- What is looked at in the end. -/
def seenLoop (s : State) (n : Nat) : Option LoopView :=
  s.players[n]?.map fun T =>
    ⟨T.loop, T.target, (s.feed.pool T.slot).mp, (s.feed.pool T.slot).feedIndex, s.feed.created⟩

/-- The first player's messages are handled before the swipe; the last video is announced. -/
def handledBefore : List PlayAct :=
  fetched ++ List.replicate 19 (.loop 0) ++ swipeFar ++ .post 3 .prepared ::
    List.replicate 7 (.loop 3)

/-- They are handled behind the swipe. -/
def fetchedBefore : List PlayAct := fetched ++ swipeFar ++ List.replicate 2 (.loop 0)

/-- One more than the pool holds. -/
def sixVideos : List String := ["a", "b", "c", "d", "e", "f"]

theorem rightlyAttributed_handledBefore : ∃ s, (playback sixVideos).Reach OutAtRest s ∧
    seenLoop s 3 = some ⟨.fire .ready, some 3, some 3, 5, [0, 1, 2, 5]⟩ ∧ Attributed s := by
  have hseen : ((playback sixVideos).exec (State.init sixVideos) handledBefore).map
      (seenLoop · 3) = some (some ⟨.fire .ready, some 3, some 3, 5, [0, 1, 2, 5]⟩) := by
    decide +kernel
  have hmeets : (playback sixVideos).meets OutAtRest (State.init sixVideos) handledBefore := by
    decide +kernel
  obtain ⟨s, hs, hobs⟩ := Option.map_eq_some_iff.mp hseen
  have hreach := Machine.steps_of_exec hs hmeets
  exact ⟨s, hreach, hobs, rightlyAttributed sixVideos hreach⟩

/-- **READY of the first video is announced as that of the last**: its loop fetched the message in
    front of the swipe. -/
theorem attributed_fetchedBefore :
    ¬ ∀ s, (playback sixVideos).Reach Machine.Any s → Attributed s := by
  intro hall
  have hseen : ((playback sixVideos).exec (State.init sixVideos) fetchedBefore).map
      (seenLoop · 0) = some (some ⟨.fire .ready, some 0, some 3, 5, [0, 1, 2, 5]⟩) := by
    decide +kernel
  obtain ⟨s, hs, hobs⟩ := Option.map_eq_some_iff.mp hseen
  have hreach := Machine.steps_of_exec hs (Machine.meets_any _ _)
  obtain ⟨T, hT, hview⟩ := Option.map_eq_some_iff.mp hobs
  simp only [LoopView.mk.injEq] at hview
  obtain ⟨hl, htarget, _, hidx, hcreated⟩ := hview
  -- the number in the slot is 5, the player was created for 0
  obtain ⟨mp, hmp, hfor⟩ := (hall s hreach 0 T hT).1 _ hl
  rw [htarget] at hmp
  cases hmp
  rw [hcreated, hidx] at hfor
  exact absurd hfor (by decide)

end Viral.Feed
