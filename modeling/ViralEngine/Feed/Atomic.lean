/-
  File:      ViralEngine/Feed/Atomic.lean
  Subject:   THE SWIPES OF Feed/Pool.lean ARE THOSE OF Feed/Playback.lean.

  While `viral_feed_scroll_to` is under way the message loops go on storing states into the slots.
  The rest of the swipe, taken at once, does not care when: a store is overwritten, or it may as
  well come behind. So a feed with no swipe under way is one that the calls of Feed/Pool.lean
  reach, the loops' stores standing between the calls.

  * `SameFeed` -- equal up to the history of the calls of ijkplayer;
  * `onSlot`, `Steady` -- work on one slot, and what may be done before or behind a store;
  * `rest` -- the rest of a swipe from each of its places, in the functions of Feed/Pool.lean;
  * `scrollStep_rest` -- a step of the swipe leaves the rest of it;
  * `reach_shown`, `callsAtomic` -- the refinement;
  * `ring_atRest` -- so the ring is well formed beside the message loops, too.
-/
import ViralEngine.Feed.Playback
import ViralEngine.Feed.Ring

namespace Viral.Feed

open Viral.Lib Viral.Ijk

/-! ## 1. Feeds up to their history -/

/-- Equal up to the history of calls. -/
def SameFeed (f g : ViralFeed) : Prop := ∃ calls, g = { f with calls := calls }

section Same

variable {f g h : ViralFeed}

theorem SameFeed.refl (f : ViralFeed) : SameFeed f f := ⟨f.calls, rfl⟩

theorem SameFeed.symm (hfg : SameFeed f g) : SameFeed g f := by
  obtain ⟨calls, rfl⟩ := hfg
  exact ⟨f.calls, rfl⟩

theorem SameFeed.trans (hfg : SameFeed f g) (hgh : SameFeed g h) : SameFeed f h := by
  obtain ⟨calls, rfl⟩ := hfg
  obtain ⟨calls', rfl⟩ := hgh
  exact ⟨calls', rfl⟩

theorem SameFeed.of_fields (hurls : g.urls = f.urls) (hpool : ∀ l, g.pool l = f.pool l)
    (hcurrent : g.currentIndex = f.currentIndex) (hcreated : g.created = f.created) :
    SameFeed f g := by
  have hpool' : g.pool = f.pool := funext hpool
  refine ⟨g.calls, ?_⟩
  rw [← hurls, ← hpool', ← hcurrent, ← hcreated]

theorem sameFeed_call (f : ViralFeed) (mp : Nat) (c : MpCall) : SameFeed f (f.call mp c) :=
  ⟨_, rfl⟩

theorem sameFeed_pausePrev (f : ViralFeed) (prev index : Int) :
    SameFeed f (pausePrev f prev index) := by
  unfold pausePrev
  dsimp only
  repeat' split
  all_goals first | exact SameFeed.refl f | exact sameFeed_call f _ _

end Same

/-! ## 2. Work on one slot -/

/-- The work on a slot: from the list, the players made so far and the slot to the new slot and
    the players made then. -/
abbrev SlotWork := List String → List Int → ViralPlayer → ViralPlayer × List Int

/-- Such work on one slot of the feed. -/
def onSlot (k : Slot) (u : SlotWork) (f : ViralFeed) : ViralFeed :=
  { f with
    pool := fun j => if j = k then (u f.urls f.created (f.pool k)).1 else f.pool j
    created := (u f.urls f.created (f.pool k)).2 }

/-- A loop's store. -/
def store (f : ViralFeed) (k : Slot) (state : ViralState) : ViralFeed :=
  apply f (.loopStores k state)

theorem onSlot_pool (k : Slot) (u : SlotWork) (f : ViralFeed) (l : Slot) :
    (onSlot k u f).pool l = if l = k then (u f.urls f.created (f.pool k)).1 else f.pool l := rfl

theorem store_pool (f : ViralFeed) (k : Slot) (state : ViralState) (l : Slot) :
    (store f k state).pool l =
      if l = k then { f.pool k with state := state } else f.pool l := rfl

/-- Work that does not look at the history, and that a store in front of it does not disturb: the
    store is overwritten, or may as well come behind. -/
structure Steady (F : ViralFeed → ViralFeed) : Prop where
  same : ∀ f g, SameFeed f g → SameFeed (F f) (F g)
  stores : ∀ f k state, SameFeed (F f) (F (store f k state)) ∨
    SameFeed (store (F f) k state) (F (store f k state))

theorem sameFeed_store {f g : ViralFeed} (h : SameFeed f g) (k : Slot) (state : ViralState) :
    SameFeed (store f k state) (store g k state) := by
  obtain ⟨calls, rfl⟩ := h
  exact ⟨calls, rfl⟩

theorem Steady.id : Steady fun f => f where
  same _ _ h := h
  stores _ _ _ := Or.inr (SameFeed.refl _)

theorem Steady.comp {F G : ViralFeed → ViralFeed} (hF : Steady F) (hG : Steady G) :
    Steady fun f => G (F f) where
  same f g h := hG.same _ _ (hF.same f g h)
  stores f k state := by
    rcases hF.stores f k state with h | h
    · exact Or.inl (hG.same _ _ h)
    · rcases hG.stores (F f) k state with h' | h'
      · exact Or.inl (h'.trans (hG.same _ _ h))
      · exact Or.inr (h'.trans (hG.same _ _ h))

/-- Steady work may be replaced by work that gives the same feeds. -/
theorem Steady.of_same {F G : ViralFeed → ViralFeed} (hF : Steady F)
    (h : ∀ f, SameFeed (F f) (G f)) : Steady G where
  same f g hfg := (h f).symm.trans ((hF.same f g hfg).trans (h g))
  stores f k state := by
    rcases hF.stores f k state with hs | hs
    · exact Or.inl ((h f).symm.trans (hs.trans (h _)))
    · exact Or.inr ((sameFeed_store (h f) k state).symm.trans (hs.trans (h _)))

/-- **Work on a slot is steady** when it does not look at the slot's state: it replaces the state
    or leaves it. -/
theorem steady_onSlot {k : Slot} {u : SlotWork}
    (hu : ∀ urls created vp state, u urls created { vp with state := state } = u urls created vp ∨
      u urls created { vp with state := state } =
        ({ (u urls created vp).1 with state := state }, (u urls created vp).2)) :
    Steady (onSlot k u) where
  same f g h := by
    obtain ⟨calls, rfl⟩ := h
    exact ⟨calls, rfl⟩
  stores f j state := by
    by_cases e : j = k
    · subst e
      have hslot : (store f j state).pool j = { f.pool j with state := state } := by
        rw [store_pool, if_pos rfl]
      rcases hu f.urls f.created (f.pool j) state with hw | hw
      · -- the store is overwritten
        refine Or.inl (SameFeed.of_fields rfl ?_ rfl ?_)
        · intro l
          rw [onSlot_pool, onSlot_pool, hslot]
          by_cases hl : l = j
          · rw [if_pos hl, if_pos hl]
            exact congrArg Prod.fst hw
          · rw [if_neg hl, if_neg hl, store_pool, if_neg hl]
        · show (u f.urls f.created ((store f j state).pool j)).2 =
            (u f.urls f.created (f.pool j)).2
          rw [hslot]
          exact congrArg Prod.snd hw
      · -- the store stays, and may come behind
        refine Or.inr (SameFeed.of_fields rfl ?_ rfl ?_)
        · intro l
          rw [onSlot_pool, hslot, store_pool (onSlot j u f), onSlot_pool, onSlot_pool]
          by_cases hl : l = j
          · rw [if_pos hl, if_pos hl, if_pos rfl]
            exact congrArg Prod.fst hw
          · rw [if_neg hl, if_neg hl, if_neg hl, store_pool, if_neg hl]
        · show (u f.urls f.created ((store f j state).pool j)).2 =
            (u f.urls f.created (f.pool j)).2
          have hmade := congrArg Prod.snd hw
          rw [hslot]
          exact hmade
    · -- a store into another slot
      have hslot : (store f j state).pool k = f.pool k := by
        rw [store_pool, if_neg (Ne.symm e)]
      refine Or.inr (SameFeed.of_fields rfl ?_ rfl ?_)
      · intro l
        rw [onSlot_pool, hslot, store_pool (onSlot k u f), onSlot_pool, onSlot_pool, if_neg e]
        by_cases hl : l = k
        · have hlj : l ≠ j := fun h => e (h.symm.trans hl)
          rw [if_pos hl, if_neg hlj, if_pos hl]
          rfl
        · rw [if_neg hl, if_neg hl, store_pool]
      · show (u f.urls f.created ((store f j state).pool k)).2 = _
        rw [hslot]
        rfl

/-! ## 3. The parts of the swipe -/

/-- What `viral_player_init_slot` makes of a slot. -/
def initWork (next : Int) : SlotWork := fun urls created _ =>
  if next < 0 ∨ (urls.length : Int) ≤ next then
    ({ mp := none, state := .idle, feedIndex := next, url := none, surfaceSet := false }, created)
  else
    ({ mp := some created.length, state := .preloading, feedIndex := next,
       url := urls[next.toNat]?, surfaceSet := false }, created ++ [next])

/-- Work that is done only on some slots. -/
def workIf (c : ViralPlayer → Bool) (u : SlotWork) : SlotWork := fun urls created vp =>
  if c vp then u urls created vp else (vp, created)

theorem onSlot_workIf (k : Slot) (c : ViralPlayer → Bool) (u : SlotWork) (f : ViralFeed) :
    SameFeed (if c (f.pool k) then onSlot k u f else f) (onSlot k (workIf c u) f) := by
  refine SameFeed.of_fields ?_ ?_ ?_ ?_
  · split <;> rfl
  · intro l
    rw [onSlot_pool]
    unfold workIf
    by_cases hc : c (f.pool k) = true
    · rw [if_pos hc, if_pos hc, onSlot_pool]
    · rw [if_neg hc, if_neg hc]
      by_cases hl : l = k
      · rw [if_pos hl, hl]
      · rw [if_neg hl]
  · split <;> rfl
  · show (workIf c u f.urls f.created (f.pool k)).2 = _
    unfold workIf
    split <;> rfl

theorem steady_workIf {k : Slot} {c : ViralPlayer → Bool} {u : SlotWork}
    (hc : ∀ vp state, c { vp with state := state } = c vp)
    (hu : ∀ urls created vp state, u urls created { vp with state := state } = u urls created vp) :
    Steady (onSlot k (workIf c u)) := by
  refine steady_onSlot ?_
  intro urls created vp state
  unfold workIf
  rw [hc]
  split
  · exact Or.inl (hu urls created vp state)
  · exact Or.inr rfl

theorem sameFeed_initSlot (f : ViralFeed) (k : Slot) (next : Int) :
    SameFeed (onSlot k (initWork next) f) (viralPlayerInitSlot f k next) := by
  obtain ⟨hpool, hurls, hcurrent, hcreated⟩ := stopMp_frame f (f.pool k)
  unfold viralPlayerInitSlot
  dsimp only
  have hcount : (f.stopMp (f.pool k)).urlCount = f.urlCount := by
    unfold ViralFeed.urlCount
    rw [hurls]
  rw [hcount]
  split
  · rename_i hout
    have hwork : initWork next f.urls f.created (f.pool k) =
        ({ mp := none, state := .idle, feedIndex := next, url := none, surfaceSet := false },
          f.created) := if_pos hout
    refine SameFeed.of_fields hurls ?_ hcurrent ?_
    · intro l
      rw [onSlot_pool, hwork]
      show (if l = k then _ else (f.stopMp (f.pool k)).pool l) = _
      rw [hpool]
    · show (f.stopMp (f.pool k)).created = (initWork next f.urls f.created (f.pool k)).2
      rw [hwork, hcreated]
  · rename_i hin
    have hwork : initWork next f.urls f.created (f.pool k) =
        ({ mp := some f.created.length, state := .preloading, feedIndex := next,
           url := f.urls[next.toNat]?, surfaceSet := false }, f.created ++ [next]) := if_neg hin
    refine SameFeed.of_fields hurls ?_ hcurrent ?_
    · intro l
      rw [onSlot_pool, hwork]
      show (if l = k then freshSlot (f.stopMp (f.pool k)) next
        else (f.stopMp (f.pool k)).pool l) = _
      unfold freshSlot
      rw [hpool, hcreated, hurls]
    · show (f.stopMp (f.pool k)).created ++ [next] =
        (initWork next f.urls f.created (f.pool k)).2
      rw [hwork, hcreated]

theorem steady_initSlot (k : Slot) (next : Int) : Steady fun f => viralPlayerInitSlot f k next :=
  (steady_onSlot fun _ _ _ _ => Or.inl rfl).of_same fun f => sameFeed_initSlot f k next

theorem steady_store (k : Slot) (state : ViralState) : Steady fun f => store f k state := by
  have hwork : Steady (onSlot k fun _ created vp => ({ vp with state := state }, created)) :=
    steady_onSlot fun _ _ _ _ => Or.inl rfl
  exact hwork.of_same fun f => SameFeed.of_fields rfl (fun _ => rfl) rfl rfl

theorem steady_playOrPrepare (index : Int) : Steady fun f => playOrPrepare f index := by
  have hwork : Steady (onSlot (slotOf index)
      (workIf (fun vp => !(vp.mp.isSome && vp.feedIndex == index)) (initWork index))) :=
    steady_workIf (fun _ _ => rfl) fun _ _ _ _ => rfl
  refine hwork.of_same ?_
  intro f
  refine (onSlot_workIf _ _ _ f).symm.trans ?_
  unfold playOrPrepare ViralFeed.slot
  dsimp only
  cases hmp : (f.pool (slotOf index)).mp with
  | none => exact sameFeed_initSlot f _ index
  | some mp =>
    dsimp only
    by_cases hidx : (f.pool (slotOf index)).feedIndex = index
    · rw [if_pos hidx, if_neg (by simp [hidx])]
      split
      · exact sameFeed_call f _ _
      · exact SameFeed.refl f
    · rw [if_neg hidx, if_pos (by simp [hidx])]
      exact sameFeed_initSlot f _ index

theorem steady_preloadOne (next : Int) : Steady fun f => preloadOne f next := by
  have hwork : Steady (onSlot (slotOf next)
      (workIf (fun vp => !(vp.feedIndex == next)) (initWork next))) :=
    steady_workIf (fun _ _ => rfl) fun _ _ _ _ => rfl
  refine hwork.of_same ?_
  intro f
  refine (onSlot_workIf _ _ _ f).symm.trans ?_
  unfold preloadOne ViralFeed.slot
  by_cases hidx : (f.pool (slotOf next)).feedIndex = next
  · rw [if_neg (by simp [hidx]), if_neg (by simp [hidx])]
    exact SameFeed.refl f
  · rw [if_pos (by simp [hidx]), if_pos hidx]
    exact sameFeed_initSlot f _ next

/-- The rounds of the preload loop, one after the other. -/
theorem steady_preload (index : Int) (left : Nat) :
    ∀ i : Nat, Steady fun f => preload f index i left := by
  induction left with
  | zero => exact fun _ => Steady.id
  | succ left ih =>
    intro i
    have hround : Steady fun f => preload (preloadOne f (index + i)) index (i + 1) left :=
      (steady_preloadOne (index + i)).comp (ih (i + 1))
    constructor
    · intro f g hfg
      have hurls : g.urlCount = f.urlCount := by
        obtain ⟨calls, rfl⟩ := hfg
        rfl
      rw [preload_succ, preload_succ, hurls]
      split
      · exact hfg
      · exact hround.same f g hfg
    · intro f k state
      rw [preload_succ, preload_succ, show (store f k state).urlCount = f.urlCount from rfl]
      split
      · exact Or.inr (SameFeed.refl _)
      · exact hround.stores f k state

/-- The slot is given up: `feed_index` stays. -/
def clearWork : SlotWork := fun _ created vp =>
  ({ vp with mp := none, state := .idle, url := none }, created)

theorem steady_clear (k : Slot) : Steady (onSlot k clearWork) :=
  steady_onSlot fun _ _ _ _ => Or.inl rfl

theorem releaseBehind_same (f : ViralFeed) (before : Int) :
    SameFeed (if 0 ≤ before ∧ (f.slot before).feedIndex = before ∧ (f.slot before).mp.isSome then
      onSlot (slotOf before) clearWork f else f) (releaseBehind f before) := by
  unfold releaseBehind
  by_cases hb : 0 ≤ before
  · rw [if_pos hb]
    dsimp only
    by_cases hc : (f.slot before).feedIndex = before ∧ (f.slot before).mp.isSome = true
    · rw [if_pos hc, if_pos ⟨hb, hc⟩]
      obtain ⟨hpool, hurls, hcurrent, hcreated⟩ := stopMp_frame f (f.slot before)
      refine SameFeed.of_fields hurls ?_ hcurrent hcreated
      intro l
      show (if l = slotOf before then _ else (f.stopMp (f.slot before)).pool l) = _
      rw [hpool]
      rfl
    · rw [if_neg hc, if_neg fun h => hc h.2]
      exact SameFeed.refl f
  · rw [if_neg hb, if_neg fun h => hb h.1]
    exact SameFeed.refl f

theorem steady_releaseBehind (before : Int) : Steady fun f => releaseBehind f before := by
  by_cases hb : 0 ≤ before
  · have hwork : Steady (onSlot (slotOf before)
        (workIf (fun vp => vp.feedIndex == before && vp.mp.isSome) clearWork)) :=
      steady_workIf (fun _ _ => rfl) fun _ _ _ _ => rfl
    refine hwork.of_same ?_
    intro f
    refine (onSlot_workIf _ _ _ f).symm.trans (SameFeed.trans ?_ (releaseBehind_same f before))
    by_cases hc : (f.slot before).feedIndex = before ∧ (f.slot before).mp.isSome = true
    · have hb' : ((f.pool (slotOf before)).feedIndex == before &&
          (f.pool (slotOf before)).mp.isSome) = true := by
        rw [Bool.and_eq_true, beq_iff_eq]
        exact hc
      rw [if_pos hb', if_pos ⟨hb, hc⟩]
      exact SameFeed.refl _
    · have hb' : ¬ ((f.pool (slotOf before)).feedIndex == before &&
          (f.pool (slotOf before)).mp.isSome) = true := by
        rw [Bool.and_eq_true, beq_iff_eq]
        exact hc
      rw [if_neg hb', if_neg fun h => hc h.2]
      exact SameFeed.refl _
  · refine Steady.id.of_same ?_
    intro f
    have h := releaseBehind_same f before
    rw [if_neg fun h => hb h.1] at h
    exact h

/-! ## 4. The rest of a swipe -/

/-- The preload loop from `i` on, and the release. -/
def tail (index : Int) (i : Nat) (f : ViralFeed) : ViralFeed :=
  releaseBehind (preload f index i (viralPreloadCount + 1 - i)) (releaseBefore index)

/-- The rest of `viral_player_init_slot`. -/
def initRest (next : Int) : InitPc → ViralFeed → ViralFeed
  | .source, f | .preloading, f => store f (slotOf next) .preloading
  | .prepare, f => f
  | _, f => viralPlayerInitSlot f (slotOf next) next

/-- **The rest of a swipe** from each of its places. -/
def rest (index : Int) : ScrollPc → ViralFeed → ViralFeed
  | .pausePrev prev, f => tail index 1 (playOrPrepare (pausePrev f prev index) index)
  | .play, f => tail index 1 (playOrPrepare f index)
  | .start _, f => tail index 1 f
  | .init i pc, f => tail index (i + 1) (initRest (index + i) pc f)
  | .preload i, f => tail index i f
  | .release, f => releaseBehind f (releaseBefore index)
  | .releaseShutdown, f | .releaseClear, f => onSlot (slotOf (releaseBefore index)) clearWork f

theorem steady_tail (index : Int) (i : Nat) : Steady (tail index i) :=
  (steady_preload index _ i).comp (steady_releaseBehind _)

theorem steady_initRest (next : Int) (pc : InitPc) : Steady (initRest next pc) := by
  cases pc with
  | source | preloading => exact steady_store _ _
  | prepare => exact Steady.id
  | stop | shutdown | clear | number | create => exact steady_initSlot _ _

theorem steady_rest (index : Int) (pc : ScrollPc) : Steady (rest index pc) := by
  have hplay : Steady fun f => tail index 1 (playOrPrepare f index) :=
    (steady_playOrPrepare index).comp (steady_tail index 1)
  cases pc with
  | pausePrev prev =>
    exact (Steady.id.of_same fun f => sameFeed_pausePrev f prev index).comp hplay
  | play => exact hplay
  | start mp => exact steady_tail index 1
  | init i pc => exact (steady_initRest (index + i) pc).comp (steady_tail index (i + 1))
  | preload i => exact steady_tail index i
  | release => exact steady_releaseBehind _
  | releaseShutdown | releaseClear => exact steady_clear _

/-- The feed a state will show when its swipe is over. -/
def settledFeed (s : State) : ViralFeed :=
  match s.scroll with
  | some (index, pc) => rest index pc s.feed
  | none => s.feed

theorem sameFeed_settled {s t : State} (hs : t.scroll = s.scroll) (h : SameFeed s.feed t.feed) :
    SameFeed (settledFeed s) (settledFeed t) := by
  unfold settledFeed
  rw [hs]
  split
  · exact (steady_rest _ _).same _ _ h
  · exact h

/-! ## 5. A step of the swipe leaves the rest of it -/

/-- A place of `viral_player_init_slot` for `next` relies on: the index is one of the list, and
    `ijkmp_create` finds the slot numbered. -/
def InitPrepared (f : ViralFeed) (next : Int) (pc : InitPc) : Prop :=
  f.Valid next ∧
    (pc = .create → (f.slot next).feedIndex = next ∧ (f.slot next).surfaceSet = false)

/-- What the places of a swipe rely on. -/
structure Prepared (s : State) : Prop where
  made : s.players.length = s.feed.created.length
  valid : ∀ index pc, s.scroll = some (index, pc) → s.feed.Valid index
  init : ∀ index i pc, s.scroll = some (index, .init i pc) → InitPrepared s.feed (index + i) pc

theorem scrollTo_rest {f : ViralFeed} {index : Int} (h : f.Valid index) :
    viralFeedScrollTo f index =
      rest index (.pausePrev f.currentIndex) { f with currentIndex := index } := by
  unfold viralFeedScrollTo
  rw [if_pos h]
  rfl

theorem tail_done {f : ViralFeed} {index : Int} {i : Nat}
    (h : viralPreloadCount < i ∨ f.urlCount ≤ index + i) :
    tail index i f = releaseBehind f (releaseBefore index) := by
  unfold tail
  rcases Nat.lt_or_ge viralPreloadCount i with hi | hi
  · have e : viralPreloadCount + 1 - i = 0 := by omega
    rw [e]
    rfl
  · have e : viralPreloadCount + 1 - i = (viralPreloadCount - i) + 1 := by omega
    rw [e, preload_succ, if_pos (h.resolve_left (by omega))]

theorem tail_round {f : ViralFeed} {index : Int} {i : Nat}
    (h : ¬ (viralPreloadCount < i ∨ f.urlCount ≤ index + i)) :
    tail index i f = tail index (i + 1) (preloadOne f (index + i)) := by
  have hi : i ≤ viralPreloadCount := by
    rcases Nat.lt_or_ge viralPreloadCount i with hlt | hge
    · exact absurd (Or.inl hlt) h
    · exact hge
  unfold tail
  have e : viralPreloadCount + 1 - i = (viralPreloadCount + 1 - (i + 1)) + 1 := by omega
  rw [e, preload_succ, if_neg fun hc => h (Or.inr hc)]

/-- `viral_player_init_slot` overwrites its slot. -/
theorem initSlot_setSlot (f : ViralFeed) (k : Slot) (vp : ViralPlayer) (next : Int) :
    SameFeed (viralPlayerInitSlot f k next) (viralPlayerInitSlot (f.setSlot k vp) k next) := by
  refine (sameFeed_initSlot f k next).symm.trans (SameFeed.trans ?_ (sameFeed_initSlot _ k next))
  refine SameFeed.of_fields rfl ?_ rfl rfl
  intro l
  rw [onSlot_pool, onSlot_pool]
  by_cases hl : l = k
  · rw [if_pos hl, if_pos hl]
    rfl
  · rw [if_neg hl, if_neg hl]
    show (if l = k then vp else f.pool l) = f.pool l
    rw [if_neg hl]

/-- `ijkmp_create`, with the stores that follow it, is the new player of Feed/Pool.lean. -/
theorem initSlot_create {f : ViralFeed} {next : Int} {n : Nat} (h : InitPrepared f next .create)
    (hn : n = f.created.length) :
    SameFeed (viralPlayerInitSlot f (slotOf next) next)
      (store ({ f with created := f.created ++ [next] }.setSlot (slotOf next)
        { f.pool (slotOf next) with url := f.urls[next.toNat]?, mp := some n })
        (slotOf next) .preloading) := by
  obtain ⟨hvalid, hplace⟩ := h
  obtain ⟨hidx, hsurface⟩ := hplace rfl
  have hwork : initWork next f.urls f.created (f.pool (slotOf next)) =
      ({ mp := some f.created.length, state := .preloading, feedIndex := next,
         url := f.urls[next.toNat]?, surfaceSet := false }, f.created ++ [next]) :=
    if_neg fun hout => hout.elim (fun hneg => absurd hvalid.1 (Int.not_le.mpr hneg))
      (fun hge => absurd hvalid.2 (Int.not_lt.mpr hge))
  refine (sameFeed_initSlot f _ next).symm.trans (SameFeed.of_fields rfl ?_ rfl ?_)
  · intro l
    rw [onSlot_pool, hwork, store_pool]
    by_cases hl : l = slotOf next
    · rw [if_pos hl, if_pos hl]
      show ViralPlayer.mk (ViralPlayer.mp (if slotOf next = slotOf next then _ else _)) .preloading
        (ViralPlayer.feedIndex (if slotOf next = slotOf next then _ else _))
        (ViralPlayer.url (if slotOf next = slotOf next then _ else _))
        (ViralPlayer.surfaceSet (if slotOf next = slotOf next then _ else _)) = _
      rw [if_pos rfl, hn]
      show ViralPlayer.mk _ _ (f.slot next).feedIndex _ (f.slot next).surfaceSet = _
      rw [hidx, hsurface]
    · rw [if_neg hl, if_neg hl]
      show (if l = slotOf next then _ else f.pool l) = f.pool l
      rw [if_neg hl]
  · show f.created ++ [next] = (initWork next f.urls f.created (f.pool (slotOf next))).2
    rw [hwork]

section Steps

variable {s t : State} {index : Int}

theorem settledFeed_some {pc : ScrollPc} (hs : s.scroll = some (index, pc)) :
    settledFeed s = rest index pc s.feed := by
  unfold settledFeed
  rw [hs]

/-- The rest of the swipe that remains. -/
theorem sameFeed_step {pc pc' : ScrollPc} (hs : s.scroll = some (index, pc))
    (ht : t.scroll = some (index, pc'))
    (h : SameFeed (rest index pc s.feed) (rest index pc' t.feed)) :
    SameFeed (settledFeed s) (settledFeed t) := by
  rw [settledFeed_some hs, settledFeed_some ht]
  exact h

theorem initMove_rest {i : Nat} {pc : InitPc} {ok : Bool} (hp : Prepared s)
    (hs : s.scroll = some (index, .init i pc)) (hm : InitMove s index i ok pc t) :
    SameFeed (settledFeed s) (settledFeed t) := by
  have hinit := hp.init index i pc hs
  have htail : ∀ {f g : ViralFeed}, SameFeed f g →
      SameFeed (tail index (i + 1) f) (tail index (i + 1) g) :=
    fun h => (steady_tail index (i + 1)).same _ _ h
  cases hm with
  | stopped mp _ =>
    exact sameFeed_step hs rfl
      (htail ((steady_initSlot (slotOf (index + i)) (index + i)).same _ _ (sameFeed_call _ _ _)))
  | noneToStop _ | shutDown _ _ | noneToShutDown _ =>
    exact sameFeed_step hs rfl (SameFeed.refl _)
  | cleared => exact sameFeed_step hs rfl (htail (initSlot_setSlot _ _ _ _))
  | numbered _ => exact sameFeed_step hs rfl (htail (initSlot_setSlot _ _ _ _))
  | outside hout => exact absurd hinit.1 hout
  | created => exact sameFeed_step hs rfl (htail (initSlot_create hinit hp.made))
  | sourced _ _ | noSource _ => exact sameFeed_step hs rfl (SameFeed.refl _)
  | preloading => exact sameFeed_step hs rfl (SameFeed.refl _)
  | prepared mp _ => exact sameFeed_step hs rfl (htail (sameFeed_call _ _ _))
  | noPrepare _ => exact sameFeed_step hs rfl (SameFeed.refl _)

/-- A swipe that finds no live player for the new video prepares one. -/
theorem playOrPrepare_missing {f : ViralFeed}
    (h : (f.slot index).feedIndex = index → (f.slot index).mp = none) :
    playOrPrepare f index = viralPlayerInitSlot f (slotOf index) index := by
  rcases playOrPrepare_cases f index with ⟨hlive, _⟩ | ⟨_, e⟩
  · have hsome := hlive.1
    rw [h hlive.2] at hsome
    cases hsome
  · exact e

theorem playOrPrepare_found {f : ViralFeed} {mp : Nat} (hmp : (f.slot index).mp = some mp)
    (hidx : (f.slot index).feedIndex = index) : SameFeed (playOrPrepare f index) f := by
  rcases playOrPrepare_cases f index with ⟨_, hpool, hurls, hcur, hmade⟩ | ⟨hno, _⟩
  · exact (SameFeed.of_fields hurls (fun l => congrFun hpool l) hcur hmade).symm
  · exact absurd ⟨by rw [hmp]; rfl, hidx⟩ hno

/-- **A step of the swipe leaves the rest of it.** -/
theorem scrollStep_rest {ok : Bool} (hp : Prepared s) (hstep : scrollStep s ok = some t) :
    SameFeed (settledFeed s) (settledFeed t) := by
  obtain ⟨index, pc, hs, hmove⟩ := scrollStep_cases hstep
  have hplay : ∀ {f g : ViralFeed}, SameFeed f g →
      SameFeed (tail index 1 (playOrPrepare f index)) (tail index 1 (playOrPrepare g index)) :=
    fun h => ((steady_playOrPrepare index).comp (steady_tail index 1)).same _ _ h
  have htail : ∀ {f g : ViralFeed}, SameFeed f g → SameFeed (tail index 1 f) (tail index 1 g) :=
    fun h => (steady_tail index 1).same _ _ h
  have hsame := releaseBehind_same s.feed (releaseBefore index)
  cases hmove with
  | paused prev mp _ _ =>
    exact sameFeed_step hs rfl
      (hplay ((sameFeed_pausePrev s.feed prev index).symm.trans (sameFeed_call _ _ _)))
  | notPaused prev _ =>
    exact sameFeed_step hs rfl (hplay (sameFeed_pausePrev s.feed prev index).symm)
  | found mp next hmp hidx hnext =>
    have hfound := htail (playOrPrepare_found hmp hidx)
    rcases hnext with rfl | rfl
    · exact sameFeed_step hs rfl hfound
    · exact sameFeed_step hs rfl hfound
  | missing hmiss =>
    have hzero : index + ((0 : Nat) : Int) = index := by omega
    refine sameFeed_step hs rfl ?_
    show SameFeed (tail index 1 (playOrPrepare s.feed index))
      (tail index 1 (viralPlayerInitSlot s.feed (slotOf (index + ((0 : Nat) : Int)))
        (index + ((0 : Nat) : Int))))
    rw [playOrPrepare_missing hmiss, hzero]
    exact SameFeed.refl _
  | started mp => exact sameFeed_step hs rfl (htail (sameFeed_call _ _ _))
  | init i pc _ hinit => exact initMove_rest hp hs hinit
  | preloadDone i hdone =>
    refine sameFeed_step hs rfl ?_
    show SameFeed (tail index i s.feed) (releaseBehind s.feed (releaseBefore index))
    rw [tail_done hdone]
    exact SameFeed.refl _
  | preloadNext i hmore hidx =>
    refine sameFeed_step hs rfl ?_
    show SameFeed (tail index i s.feed) (tail index (i + 1)
      (viralPlayerInitSlot s.feed (slotOf (index + i)) (index + i)))
    rw [tail_round hmore]
    unfold preloadOne
    rw [if_pos hidx]
    exact SameFeed.refl _
  | preloadSkip i hmore hidx =>
    refine sameFeed_step hs rfl ?_
    show SameFeed (tail index i s.feed) (tail index (i + 1) s.feed)
    rw [tail_round hmore]
    unfold preloadOne
    rw [if_neg fun hne => hne hidx]
    exact SameFeed.refl _
  | released mp hmp hidx =>
    rw [if_pos ⟨hidx.1, hidx.2, by rw [hmp]; rfl⟩] at hsame
    exact sameFeed_step hs rfl
      (hsame.symm.trans ((steady_clear _).same _ _ (sameFeed_call _ _ _)))
  | notReleased hnot =>
    rw [settledFeed_some hs]
    rw [if_neg] at hsame
    · exact hsame.symm
    · rintro ⟨hb, hidx, hsome⟩
      rw [hnot hb hidx] at hsome
      cases hsome
  | releasedDown _ _ | noneReleased _ => exact sameFeed_step hs rfl (SameFeed.refl _)
  | releasedClear =>
    rw [settledFeed_some hs]
    exact SameFeed.of_fields rfl (fun _ => rfl) rfl rfl

/-! ## 6. What the places rely on -/

/-- The swipe and the players stay, and the feed up to states and history. -/
theorem Prepared.beside (hp : Prepared s) (hscroll : t.scroll = s.scroll)
    (hplayers : t.players.length = s.players.length) (hurls : t.feed.urls = s.feed.urls)
    (hcreated : t.feed.created = s.feed.created)
    (hslots : ∀ k, (t.feed.pool k).feedIndex = (s.feed.pool k).feedIndex ∧
      (t.feed.pool k).surfaceSet = (s.feed.pool k).surfaceSet) : Prepared t := by
  have hvalid : ∀ index, t.feed.Valid index ↔ s.feed.Valid index := by
    intro index
    unfold ViralFeed.Valid ViralFeed.urlCount
    rw [hurls]
  refine ⟨?_, ?_, ?_⟩
  · rw [hplayers, hcreated]
    exact hp.made
  · intro index pc hs
    rw [hscroll] at hs
    exact (hvalid index).mpr (hp.valid index pc hs)
  · intro index i pc hs
    rw [hscroll] at hs
    obtain ⟨hv, hplace⟩ := hp.init index i pc hs
    refine ⟨(hvalid _).mpr hv, ?_⟩
    intro e
    have hslot := hslots (slotOf (index + i))
    exact ⟨hslot.1.trans (hplace e).1, hslot.2.trans (hplace e).2⟩

/-- The swipe moves on, to a place with what it relies on. -/
theorem Prepared.move {pc : ScrollPc} (hp : Prepared s) (hs : s.scroll = some (index, pc))
    (hmade : t.players.length = t.feed.created.length) (hurls : t.feed.urls = s.feed.urls)
    (ht : ∀ index' pc', t.scroll = some (index', pc') → index' = index ∧
      ∀ i p, pc' = .init i p → InitPrepared t.feed (index + i) p) : Prepared t := by
  have hvalid : t.feed.Valid index := by
    have h := hp.valid index pc hs
    unfold ViralFeed.Valid ViralFeed.urlCount at h ⊢
    rw [hurls]
    exact h
  refine ⟨hmade, ?_, ?_⟩
  · intro index' pc' hs'
    rw [(ht index' pc' hs').1]
    exact hvalid
  · intro index' i p hs'
    obtain ⟨e, hinit⟩ := ht index' _ hs'
    rw [e]
    exact hinit i p rfl

/-- A place outside `viral_player_init_slot`, or the end. -/
theorem Prepared.outside {pc : ScrollPc} (hp : Prepared s) (hs : s.scroll = some (index, pc))
    (ht : t.scroll = none ∨ ∃ pc', t.scroll = some (index, pc') ∧ ∀ i p, pc' ≠ .init i p)
    (hmade : t.players.length = s.players.length) (hurls : t.feed.urls = s.feed.urls)
    (hcreated : t.feed.created = s.feed.created) : Prepared t := by
  refine hp.move hs (by rw [hmade, hcreated, hp.made]) hurls ?_
  intro index' pc' hs'
  rcases ht with hnone | ⟨q, hq, hno⟩
  · rw [hnone] at hs'
    cases hs'
  · rw [hq] at hs'
    cases hs'
    exact ⟨rfl, fun i p e => absurd e (hno i p)⟩

/-- A place of `viral_player_init_slot` other than `create` relies on the index alone. -/
theorem Prepared.inside {pc : ScrollPc} {i : Nat} {p : InitPc} (hp : Prepared s)
    (hs : s.scroll = some (index, pc)) (hvalid : s.feed.Valid (index + i))
    (ht : t.scroll = some (index, .init i p)) (hne : p ≠ .create)
    (hmade : t.players.length = t.feed.created.length) (hurls : t.feed.urls = s.feed.urls) :
    Prepared t := by
  have hvalid' : t.feed.Valid (index + i) := by
    unfold ViralFeed.Valid ViralFeed.urlCount at hvalid ⊢
    rw [hurls]
    exact hvalid
  refine hp.move hs hmade hurls ?_
  intro index' pc' hs'
  rw [ht] at hs'
  cases hs'
  refine ⟨rfl, ?_⟩
  intro j q e
  cases e
  exact ⟨hvalid', fun e => absurd e hne⟩

theorem initMove_prepared {i : Nat} {pc : InitPc} {ok : Bool} (hp : Prepared s)
    (hs : s.scroll = some (index, .init i pc)) (hm : InitMove s index i ok pc t) : Prepared t := by
  obtain ⟨hvalid, _⟩ := hp.init index i pc hs
  have hmodify : ∀ (mp : Nat) (f : Player → Player),
      (s.players.modify mp f).length = s.feed.created.length :=
    fun mp f => (List.length_modify ..).trans hp.made
  cases hm with
  | stopped _ _ => exact hp.inside hs hvalid rfl (by nofun) (hmodify _ _) rfl
  | noneToStop _ => exact hp.inside hs hvalid rfl (by nofun) hp.made rfl
  | shutDown _ _ => exact hp.inside hs hvalid rfl (by nofun) (hmodify _ _) rfl
  | noneToShutDown _ => exact hp.inside hs hvalid rfl (by nofun) hp.made rfl
  | cleared => exact hp.inside hs hvalid rfl (by nofun) hp.made rfl
  | numbered _ =>
    have hslot : ∀ vp, (s.feed.setSlot (slotOf (index + i)) vp).slot (index + i) = vp := by
      intro vp
      rw [setSlot_slot, if_pos rfl]
    refine hp.move hs hp.made rfl ?_
    rintro _ _ ⟨⟩
    refine ⟨rfl, ?_⟩
    rintro _ _ ⟨⟩
    exact ⟨hvalid, fun _ => ⟨congrArg ViralPlayer.feedIndex (hslot _),
      congrArg ViralPlayer.surfaceSet (hslot _)⟩⟩
  | outside hout => exact absurd hvalid hout
  | created =>
    refine hp.inside hs hvalid rfl (by nofun) ?_ rfl
    show (s.players ++ [_]).length = (s.feed.created ++ [_]).length
    rw [List.length_append, List.length_append, hp.made, List.length_singleton,
      List.length_singleton]
  | sourced _ _ => exact hp.inside hs hvalid rfl (by nofun) (hmodify _ _) rfl
  | noSource _ => exact hp.inside hs hvalid rfl (by nofun) hp.made rfl
  | preloading => exact hp.inside hs hvalid rfl (by nofun) hp.made rfl
  | prepared _ _ =>
    exact hp.outside hs (Or.inr ⟨_, rfl, by nofun⟩) (List.length_modify ..) rfl rfl
  | noPrepare _ => exact hp.outside hs (Or.inr ⟨_, rfl, by nofun⟩) rfl rfl rfl

theorem scrollStep_prepared {ok : Bool} (hp : Prepared s) (hstep : scrollStep s ok = some t) :
    Prepared t := by
  obtain ⟨index, pc, hs, hmove⟩ := scrollStep_cases hstep
  have hvalid := hp.valid index pc hs
  cases hmove with
  | paused _ _ _ _ | started _ | released _ _ _ | releasedDown _ _ =>
    exact hp.outside hs (Or.inr ⟨_, rfl, by nofun⟩) (List.length_modify ..) rfl rfl
  | notPaused _ _ | preloadDone _ _ | preloadSkip _ _ _ | noneReleased _ =>
    exact hp.outside hs (Or.inr ⟨_, rfl, by nofun⟩) rfl rfl rfl
  | found mp next _ _ hnext =>
    rcases hnext with rfl | rfl
    · exact hp.outside hs (Or.inr ⟨_, rfl, by nofun⟩) rfl rfl rfl
    · exact hp.outside hs (Or.inr ⟨_, rfl, by nofun⟩) rfl rfl rfl
  | missing _ =>
    have hzero : s.feed.Valid (index + ((0 : Nat) : Int)) := by
      have e : index + ((0 : Nat) : Int) = index := by omega
      rw [e]
      exact hvalid
    exact hp.inside hs hzero rfl (by nofun) hp.made rfl
  | init i pc _ hinit => exact initMove_prepared hp hs hinit
  | preloadNext i hmore _ =>
    have hnext : s.feed.Valid (index + i) := by
      have hnonneg := hvalid.1
      refine ⟨by omega, Int.not_le.mp fun hle => hmore (Or.inr hle)⟩
    exact hp.inside hs hnext rfl (by nofun) hp.made rfl
  | notReleased _ | releasedClear => exact hp.outside hs (Or.inl rfl) rfl rfl rfl

/-! ## 7. Steps beside the swipe -/

/-- Such a step changes the history, or stores a state into a slot. -/
structure Stores (s t : State) : Prop where
  scroll : t.scroll = s.scroll
  players : t.players.length = s.players.length
  feed : SameFeed s.feed t.feed ∨ ∃ k state, t.feed = store s.feed k state

/-- A change of a player. -/
theorem Stores.onPlayer {u : State} (h : Stores s u) (mp : Nat) (f : Player → Player) :
    Stores s (u.onPlayer mp f) :=
  ⟨h.scroll, (List.length_modify ..).trans h.players, h.feed⟩

theorem Stores.refl (s : State) : Stores s s := ⟨rfl, rfl, Or.inl (SameFeed.refl _)⟩

theorem stores_storeState (s : State) (k : Slot) (state : ViralState) :
    Stores s (s.storeState k state) := ⟨rfl, rfl, Or.inr ⟨k, state, rfl⟩⟩

theorem stores_log (s : State) (mp : Nat) (c : MpCall) : Stores s (s.log mp c) :=
  ⟨rfl, rfl, Or.inl (sameFeed_call _ _ _)⟩

theorem callStep_stores {n : Nat} (hstep : callStep s n = some t) : Stores s t := by
  cases callStep_cases hstep with
  | read => exact ⟨rfl, rfl, Or.inl (SameFeed.refl _)⟩
  | act cmd mp =>
    have h := (stores_log s mp cmd.call).onPlayer mp cmd.onPlayer
    exact ⟨h.scroll, h.players, h.feed⟩

theorem loopStep_stores {n : Nat} (hstep : loopStep s n = some t) : Stores s t := by
  obtain ⟨T, _, hdo⟩ := loopStep_do hstep
  cases hdo with
  | found | lost | buffering | plays | passed | indexRead | tested =>
    exact (Stores.refl s).onPlayer _ _
  | took | served => exact ((Stores.refl s).onPlayer _ _).onPlayer _ _
  | stored => exact (stores_storeState s _ _).onPlayer _ _
  | fired e pc =>
    have h := (Stores.refl s).onPlayer n fun P => { P with loop := pc }
    exact ⟨h.scroll, h.players, h.feed⟩
  | started mp =>
    have h := ((stores_log s mp .start).onPlayer mp Player.start).onPlayer n fun P =>
      { P with loop := .wait }
    exact ⟨h.scroll, h.players, h.feed⟩

theorem Stores.prepared (h : Stores s t) (hp : Prepared s) : Prepared t := by
  rcases h.feed with ⟨calls, e⟩ | ⟨k, state, e⟩
  · exact hp.beside h.scroll h.players (by rw [e]) (by rw [e]) fun j => by rw [e]; exact ⟨rfl, rfl⟩
  · refine hp.beside h.scroll h.players (by rw [e]; rfl) (by rw [e]; rfl) ?_
    intro j
    rw [e, store_pool]
    split
    · rename_i hj
      rw [hj]
      exact ⟨rfl, rfl⟩
    · exact ⟨rfl, rfl⟩

end Steps

/-! ## 8. The refinement -/

/-- The calls of Feed/Pool.lean reach the feed the state will show. -/
def Shown (s : State) : Prop :=
  ∃ f, feedMachine.Reach Machine.Any f ∧ SameFeed f (settledFeed s)

theorem reach_apply {f : ViralFeed} (h : feedMachine.Reach Machine.Any f) (a : Act) :
    feedMachine.Reach Machine.Any (apply f a) :=
  Machine.Steps.step f _ a h trivial rfl

theorem sameFeed_scrollTo {f g : ViralFeed} (h : SameFeed f g) (index : Int) :
    SameFeed (viralFeedScrollTo f index) (viralFeedScrollTo g index) := by
  obtain ⟨calls, rfl⟩ := h
  by_cases hv : f.Valid index
  · have hv' : ({ f with calls := calls } : ViralFeed).Valid index := hv
    rw [scrollTo_rest hv, scrollTo_rest hv']
    exact (steady_rest index _).same _ _ ⟨calls, rfl⟩
  · have hv' : ¬ ({ f with calls := calls } : ViralFeed).Valid index := hv
    unfold viralFeedScrollTo
    rw [if_neg hv, if_neg hv']
    exact ⟨calls, rfl⟩

theorem Stores.shown {s t : State} (h : Stores s t) (hsh : Shown s) : Shown t := by
  obtain ⟨f, hreach, hsame⟩ := hsh
  rcases h.feed with hf | ⟨k, state, e⟩
  · exact ⟨f, hreach, hsame.trans (sameFeed_settled h.scroll hf)⟩
  · cases hs : s.scroll with
    | none =>
      have hsettled : settledFeed t = store (settledFeed s) k state := by
        unfold settledFeed
        rw [h.scroll, hs]
        exact e
      rw [Shown, hsettled]
      exact ⟨_, reach_apply hreach (.loopStores k state), sameFeed_store hsame k state⟩
    | some place =>
      obtain ⟨index, pc⟩ := place
      have hs' : t.scroll = some (index, pc) := h.scroll.trans hs
      rw [settledFeed_some hs] at hsame
      rw [Shown, settledFeed_some hs', e]
      -- the store is overwritten by the rest of the swipe, or comes behind it
      rcases (steady_rest index pc).stores s.feed k state with hr | hr
      · exact ⟨f, hreach, hsame.trans hr⟩
      · exact ⟨_, reach_apply hreach (.loopStores k state),
          (sameFeed_store hsame k state).trans hr⟩

theorem enterScroll_shown {s t : State} {index : Int} (hp : Prepared s) (hsh : Shown s)
    (hstep : enterScroll s index = some t) : Prepared t ∧ Shown t := by
  unfold enterScroll at hstep
  split at hstep
  · rename_i hvalid
    split at hstep
    · cases hstep
    · rename_i hs
      cases hstep
      refine ⟨⟨hp.made, ?_, by nofun⟩, ?_⟩
      · rintro _ _ ⟨⟩
        exact hvalid
      · obtain ⟨f, hreach, hsame⟩ := hsh
        refine ⟨_, reach_apply hreach (.scrollTo index), ?_⟩
        unfold settledFeed at hsame
        rw [hs] at hsame
        refine (sameFeed_scrollTo hsame index).trans ?_
        rw [scrollTo_rest hvalid]
        exact SameFeed.refl _
  · cases hstep
    exact ⟨hp, hsh⟩

/-- **One step of the threads** keeps it that the calls reach what will be shown. -/
theorem playStep_shown {s t : State} {a : PlayAct} (h : Prepared s ∧ Shown s)
    (hstep : playStep s a = some t) : Prepared t ∧ Shown t := by
  obtain ⟨hp, hsh⟩ := h
  have hbeside : Stores s t → Prepared t ∧ Shown t := fun hst => ⟨hst.prepared hp, hst.shown hsh⟩
  cases a with
  | scrollTo index => exact enterScroll_shown hp hsh hstep
  | scroll ok =>
    obtain ⟨f, hreach, hsame⟩ := hsh
    exact ⟨scrollStep_prepared hp hstep, f, hreach, hsame.trans (scrollStep_rest hp hstep)⟩
  | invoke cmd =>
    cases hstep
    exact hbeside ⟨rfl, rfl, Or.inl (SameFeed.refl _)⟩
  | call n => exact hbeside (callStep_stores hstep)
  | loop n => exact hbeside (loopStep_stores hstep)
  | post mp m =>
    simp only [playStep, Option.bind_eq_bind] at hstep
    obtain ⟨P, _, hrest⟩ := Option.bind_eq_some_iff.mp hstep
    split at hrest
    · cases hrest
      exact hbeside ((Stores.refl s).onPlayer _ _)
    · cases hrest

theorem reach_shown {urls : List String} {s : State}
    (h : (playback urls).Reach Machine.Any s) : Prepared s ∧ Shown s := by
  refine Machine.Steps.invariant (I := fun s => Prepared s ∧ Shown s) h ⟨⟨rfl, nofun, nofun⟩, ?_⟩ ?_
  · exact ⟨_, reach_apply .start (.setUrls urls), SameFeed.refl _⟩
  · intro u a v hI _ hs
    exact playStep_shown hI hs

/-- **The swipes are atomic**: with no swipe under way the feed is one that whole calls, and the
    loops' stores between them, reach. -/
theorem callsAtomic {urls : List String} {s : State} (h : (playback urls).Reach Machine.Any s)
    (hs : s.scroll = none) : ∃ f, feedMachine.Reach Machine.Any f ∧ SameFeed f s.feed := by
  obtain ⟨f, hreach, hsame⟩ := (reach_shown h).2
  unfold settledFeed at hsame
  rw [hs] at hsame
  exact ⟨f, hreach, hsame⟩

/-- The ring is well formed beside the message loops, whenever no swipe is under way. -/
theorem ring_atRest {urls : List String} {s : State} (h : (playback urls).Reach Machine.Any s)
    (hs : s.scroll = none) : PoolOk s.feed ∧ CurrentOk s.feed := by
  obtain ⟨f, hreach, calls, e⟩ := callsAtomic h hs
  obtain ⟨hpool, hcurrent⟩ := reach_poolOk hreach
  rw [e]
  exact ⟨poolOk_frame hpool rfl rfl, hcurrent⟩

end Viral.Feed
