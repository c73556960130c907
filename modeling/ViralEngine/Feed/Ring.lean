/-
  File:      ViralEngine/Feed/Ring.lean
  Subject:   WHAT THE RING HOLDS AFTER ANY SEQUENCE OF CALLS.

  One swipe may reuse, recycle, preload and release slots of the same ring of five, and a
  released slot keeps its `feed_index`. The parts of `viral_feed_scroll_to` are taken one by
  one: each says which slots it leaves alone and what it puts into the others.

  * `LiveAt` -- the slot of an index holds a live player for it;
  * `initSlot_slot`, `preload_outside`, `preload_liveAt_iff`, `releaseBehind_slot` -- the parts;
  * `PoolOk`, `CurrentOk`, `apply_poolOk`, `apply_currentOk` -- the representation invariant,
    kept by every call;
  * `poolInvariant` -- so the ring is well formed in every reachable state, and the controls act
    on the player of the current video;
  * `window_iff`, `preloadWindow_iff` -- the videos ahead are live exactly when none of their
    slots is a released one that still carries its number;
  * `preloadWindow_jumpBack` -- a jump back from the feed's end meets such a slot.
-/
import ViralEngine.Feed.Pool

namespace Viral.Feed

open Viral.Lib

/-! ## 1. One slot at a time -/

/-- The slot of the index holds a live player for it. -/
def LiveAt (feed : ViralFeed) (index : Int) : Prop :=
  (feed.slot index).mp.isSome = true ∧ (feed.slot index).feedIndex = index

instance (feed : ViralFeed) (index : Int) : Decidable (LiveAt feed index) :=
  inferInstanceAs (Decidable (_ ∧ _))

theorem liveAt_of_slot {f g : ViralFeed} {index : Int} (h : g.slot index = f.slot index) :
    LiveAt g index ↔ LiveAt f index := by
  unfold LiveAt
  rw [h]

theorem setSlot_slot (feed : ViralFeed) (k : Slot) (vp : ViralPlayer) (index : Int) :
    (feed.setSlot k vp).slot index = if slotOf index = k then vp else feed.slot index := rfl

theorem stopMp_frame (feed : ViralFeed) (vp : ViralPlayer) :
    (feed.stopMp vp).pool = feed.pool ∧ (feed.stopMp vp).urls = feed.urls ∧
      (feed.stopMp vp).currentIndex = feed.currentIndex ∧
      (feed.stopMp vp).created = feed.created := by
  unfold ViralFeed.stopMp
  split <;> exact ⟨rfl, rfl, rfl, rfl⟩

/-- The record of a new player. -/
def freshSlot (feed : ViralFeed) (index : Int) : ViralPlayer where
  mp := some feed.created.length
  state := .preloading
  feedIndex := index
  url := feed.urls[index.toNat]?
  surfaceSet := false

/-- **`viral_player_init_slot` on an index of the list**: the slot gets a new player, the others
    stay. -/
theorem initSlot_eq {feed : ViralFeed} {index : Int} (k : Slot) (h : feed.Valid index) :
    (viralPlayerInitSlot feed k index).pool =
        (fun j => if j = k then freshSlot feed index else feed.pool j) ∧
      (viralPlayerInitSlot feed k index).urls = feed.urls ∧
      (viralPlayerInitSlot feed k index).currentIndex = feed.currentIndex ∧
      (viralPlayerInitSlot feed k index).created = feed.created ++ [index] := by
  obtain ⟨hpool, hurls, hcur, hcreated⟩ := stopMp_frame feed (feed.pool k)
  have hin : ¬ (index < 0 ∨ (feed.stopMp (feed.pool k)).urlCount ≤ index) := by
    unfold ViralFeed.urlCount
    rw [hurls]
    have := h.1
    have := h.2
    unfold ViralFeed.urlCount at this
    omega
  unfold viralPlayerInitSlot
  dsimp only
  rw [if_neg hin]
  refine ⟨?_, hurls, hcur, ?_⟩
  · show (fun j => if j = k then _ else (feed.stopMp (feed.pool k)).pool j) = _
    rw [hpool, hurls, hcreated]
    rfl
  · show (feed.stopMp (feed.pool k)).created ++ [index] = _
    rw [hcreated]

theorem initSlot_slot {feed : ViralFeed} {index : Int} (k : Slot) (h : feed.Valid index)
    (j : Int) : (viralPlayerInitSlot feed k index).slot j =
      if slotOf j = k then freshSlot feed index else feed.slot j := by
  unfold ViralFeed.slot
  rw [(initSlot_eq k h).1]

theorem initSlot_urlCount {feed : ViralFeed} {index : Int} (k : Slot) (h : feed.Valid index) :
    (viralPlayerInitSlot feed k index).urlCount = feed.urlCount := by
  unfold ViralFeed.urlCount
  rw [(initSlot_eq k h).2.1]

/-! ## 2. The parts of a swipe -/

/-- Pausing the previous video changes no slot. -/
theorem pausePrev_frame (feed : ViralFeed) (prev index : Int) :
    (pausePrev feed prev index).pool = feed.pool ∧ (pausePrev feed prev index).urls = feed.urls ∧
      (pausePrev feed prev index).currentIndex = feed.currentIndex ∧
      (pausePrev feed prev index).created = feed.created := by
  unfold pausePrev
  dsimp only
  repeat' split
  all_goals exact ⟨rfl, rfl, rfl, rfl⟩

/-- Playing or preparing: the player is there already, or a new one is made. -/
theorem playOrPrepare_cases (feed : ViralFeed) (index : Int) :
    (LiveAt feed index ∧ (playOrPrepare feed index).pool = feed.pool ∧
      (playOrPrepare feed index).urls = feed.urls ∧
      (playOrPrepare feed index).currentIndex = feed.currentIndex ∧
      (playOrPrepare feed index).created = feed.created) ∨
    (¬ LiveAt feed index ∧
      playOrPrepare feed index = viralPlayerInitSlot feed (slotOf index) index) := by
  unfold playOrPrepare
  dsimp only
  cases hmp : (feed.slot index).mp with
  | none =>
    refine Or.inr ⟨fun hl => ?_, rfl⟩
    have := hl.1
    rw [hmp] at this
    cases this
  | some mp =>
    dsimp only
    by_cases hidx : (feed.slot index).feedIndex = index
    · rw [if_pos hidx]
      refine Or.inl ⟨⟨by rw [hmp]; rfl, hidx⟩, ?_⟩
      split <;> exact ⟨rfl, rfl, rfl, rfl⟩
    · rw [if_neg hidx]
      exact Or.inr ⟨fun hl => hidx hl.2, rfl⟩

/-- One round of the preload loop. -/
def preloadOne (feed : ViralFeed) (next : Int) : ViralFeed :=
  if (feed.slot next).feedIndex ≠ next then viralPlayerInitSlot feed (slotOf next) next else feed

theorem preload_succ (feed : ViralFeed) (index : Int) (i left : Nat) :
    preload feed index i (left + 1) =
      if feed.urlCount ≤ index + i then feed
      else preload (preloadOne feed (index + i)) index (i + 1) left := rfl

theorem preloadOne_slot {feed : ViralFeed} {next : Int} (h : feed.Valid next) (j : Int) :
    (preloadOne feed next).slot j =
      if slotOf j = slotOf next ∧ (feed.slot next).feedIndex ≠ next then freshSlot feed next
      else feed.slot j := by
  unfold preloadOne
  by_cases hidx : (feed.slot next).feedIndex ≠ next
  · rw [if_pos hidx, initSlot_slot _ h]
    simp [hidx]
  · rw [if_neg hidx, if_neg (fun hc => hidx hc.2)]

theorem preloadOne_urlCount {feed : ViralFeed} {next : Int} (h : feed.Valid next) :
    (preloadOne feed next).urlCount = feed.urlCount := by
  unfold preloadOne
  split
  · exact initSlot_urlCount _ h
  · rfl

/-- The loop leaves the slots outside its range alone. -/
theorem preload_outside {index : Int} (hindex : 0 ≤ index) {j : Int} (left : Nat) :
    ∀ (feed : ViralFeed) (i : Nat),
      (∀ m : Nat, i ≤ m → m < i + left → slotOf j ≠ slotOf (index + m)) →
      (preload feed index i left).slot j = feed.slot j := by
  induction left with
  | zero => intro feed i _; rfl
  | succ left ih =>
    intro feed i hout
    rw [preload_succ]
    by_cases hend : feed.urlCount ≤ index + i
    · rw [if_pos hend]
    · rw [if_neg hend, ih _ (i + 1) (fun m h1 h2 => hout m (by omega) (by omega))]
      have hv : feed.Valid (index + i) := ⟨by omega, by omega⟩
      rw [preloadOne_slot hv, if_neg (fun hc => hout i (by omega) (by omega) hc.1)]

/-- A player made for the index, from the list's url. -/
def NewFor (urls : List String) (index : Int) (vp : ViralPlayer) : Prop :=
  vp.mp.isSome = true ∧ vp.feedIndex = index ∧ vp.url = urls[index.toNat]?

theorem preloadOne_urls {feed : ViralFeed} {next : Int} (h : feed.Valid next) :
    (preloadOne feed next).urls = feed.urls := by
  unfold preloadOne
  split
  · exact (initSlot_eq _ h).2.1
  · rfl

/-- **What the loop does to a slot of its range**: a slot that carries the number already is left
    as it is, every other one gets a new player. -/
theorem preload_slot {index : Int} (hindex : 0 ≤ index) {m : Nat} (left : Nat) :
    ∀ (feed : ViralFeed) (i : Nat), i ≤ m → m < i + left → left ≤ viralPoolSize →
      index + m < feed.urlCount →
      ((feed.slot (index + m)).feedIndex = index + m ∧
        (preload feed index i left).slot (index + m) = feed.slot (index + m)) ∨
      ((feed.slot (index + m)).feedIndex ≠ index + m ∧
        NewFor feed.urls (index + m) ((preload feed index i left).slot (index + m))) := by
  induction left with
  | zero =>
    intro feed i h1 h2
    omega
  | succ left ih =>
    intro feed i h1 h2 h5 hlt
    have hv : feed.Valid (index + i) := ⟨by omega, by omega⟩
    rw [preload_succ, if_neg (by omega)]
    change left + 1 ≤ 5 at h5
    rcases Nat.eq_or_lt_of_le h1 with rfl | hgt
    · -- this round; the later ones do not come back to the slot
      have hout := preload_outside hindex (j := index + i) left (preloadOne feed (index + i))
        (i + 1) (fun m' h1' h2' hs => by
          have := slotOf_eq_iff.mp hs
          omega)
      rw [hout, preloadOne_slot hv]
      by_cases hidx : (feed.slot (index + i)).feedIndex = index + i
      · rw [if_neg (fun hc => hc.2 hidx)]
        exact Or.inl ⟨hidx, rfl⟩
      · rw [if_pos ⟨rfl, hidx⟩]
        exact Or.inr ⟨hidx, rfl, rfl, rfl⟩
    · -- a later round; this one does not touch the slot
      have hne : slotOf (index + m) ≠ slotOf (index + i) := by
        intro hs
        have := slotOf_eq_iff.mp hs
        omega
      have hlt' : index + m < (preloadOne feed (index + i)).urlCount := by
        rw [preloadOne_urlCount hv]
        exact hlt
      have hsame : (preloadOne feed (index + i)).slot (index + m) = feed.slot (index + m) := by
        rw [preloadOne_slot hv, if_neg (fun hc => hne hc.1)]
      have hrest := ih (preloadOne feed (index + i)) (i + 1) hgt (by omega)
        (by show left ≤ 5; omega) hlt'
      rw [hsame, preloadOne_urls hv] at hrest
      exact hrest

/-- Releasing touches the slot of its index only, and only if it is live there. -/
theorem releaseBehind_slot (feed : ViralFeed) (before j : Int) :
    (releaseBehind feed before).slot j = feed.slot j ∨
      slotOf j = slotOf before ∧ LiveAt feed before := by
  unfold releaseBehind
  dsimp only
  split
  · split
    · rename_i hlive
      by_cases hj : slotOf j = slotOf before
      · exact Or.inr ⟨hj, hlive.2, hlive.1⟩
      · refine Or.inl ?_
        rw [setSlot_slot, if_neg hj]
        unfold ViralFeed.slot
        rw [(stopMp_frame _ _).1]
    · exact Or.inl rfl
  · exact Or.inl rfl

/-! ## 3. The representation invariant -/

/-- Every live player sits in the slot of its index and was made for that index. -/
structure PoolOk (feed : ViralFeed) : Prop where
  index : ∀ k mp, (feed.pool k).mp = some mp →
    0 ≤ (feed.pool k).feedIndex ∧ slotOf (feed.pool k).feedIndex = k
  made : ∀ k mp, (feed.pool k).mp = some mp →
    feed.created[mp]? = some (feed.pool k).feedIndex

/-- Behind the first swipe the current video has its player. -/
def CurrentOk (feed : ViralFeed) : Prop := 0 ≤ feed.currentIndex → LiveAt feed feed.currentIndex

theorem poolOk_frame {f g : ViralFeed} (h : PoolOk f) (hpool : g.pool = f.pool)
    (hcreated : g.created = f.created) : PoolOk g := by
  constructor
  · rw [hpool]
    exact h.index
  · rw [hpool, hcreated]
    exact h.made

/-- A new player in the slot of its index keeps the ring well formed. -/
theorem poolOk_initSlot {feed : ViralFeed} {index : Int} (h : PoolOk feed)
    (hv : feed.Valid index) : PoolOk (viralPlayerInitSlot feed (slotOf index) index) := by
  obtain ⟨hpool, _, _, hcreated⟩ := initSlot_eq (slotOf index) hv
  constructor
  · intro k mp hk
    rw [hpool] at hk ⊢
    by_cases e : k = slotOf index
    · simp only [if_pos e] at hk ⊢
      exact ⟨hv.1, e.symm⟩
    · simp only [if_neg e] at hk ⊢
      exact h.index k mp hk
  · intro k mp hk
    rw [hpool] at hk
    rw [hpool, hcreated]
    by_cases e : k = slotOf index
    · simp only [if_pos e, freshSlot, Option.some.injEq] at hk ⊢
      subst hk
      exact List.getElem?_concat_length
    · simp only [if_neg e] at hk ⊢
      have hold := h.made k mp hk
      rw [List.getElem?_append_left (List.getElem?_eq_some_iff.mp hold).1]
      exact hold

/-- A slot that keeps its number and its player, or loses its player. -/
theorem poolOk_setSlot {feed : ViralFeed} {k : Slot} {vp : ViralPlayer} (h : PoolOk feed)
    (hvp : vp.mp = none ∨ vp.mp = (feed.pool k).mp ∧ vp.feedIndex = (feed.pool k).feedIndex) :
    PoolOk (feed.setSlot k vp) := by
  have hslot : ∀ j mp, ((feed.setSlot k vp).pool j).mp = some mp →
      (feed.pool j).mp = some mp ∧
        ((feed.setSlot k vp).pool j).feedIndex = (feed.pool j).feedIndex := by
    intro j mp hj
    simp only [ViralFeed.setSlot] at hj ⊢
    by_cases e : j = k
    · simp only [if_pos e] at hj ⊢
      subst e
      rcases hvp with hnone | ⟨hmp, hidx⟩
      · rw [hnone] at hj
        cases hj
      · exact ⟨hmp.symm.trans hj, hidx⟩
    · simp only [if_neg e] at hj ⊢
      exact ⟨hj, trivial⟩
  constructor
  · intro j mp hj
    obtain ⟨hold, e⟩ := hslot j mp hj
    rw [e]
    exact h.index j mp hold
  · intro j mp hj
    obtain ⟨hold, e⟩ := hslot j mp hj
    rw [e]
    exact h.made j mp hold

/-! ## 4. A whole swipe -/

/-- The parts of a swipe to an index of the list, by the feeds between them. -/
structure Swipe (feed : ViralFeed) (index : Int) (played loaded : ViralFeed) : Prop where
  valid : feed.Valid index
  playedUrls : played.urls = feed.urls
  playedCurrent : played.currentIndex = index
  live : LiveAt played index
  others : ∀ j, slotOf j ≠ slotOf index → played.slot j = feed.slot j
  reused : LiveAt feed index → played.slot index = feed.slot index
  renewed : ¬ LiveAt feed index → (played.slot index).url = feed.urls[index.toNat]?
  loaded : loaded = preload played index 1 viralPreloadCount

/-- **A swipe is its parts.** -/
theorem scrollTo_swipe {feed : ViralFeed} {index : Int} (h : feed.Valid index) :
    ∃ played loaded, Swipe feed index played loaded ∧
      viralFeedScrollTo feed index = releaseBehind loaded (index - viralPreloadCount - 1) := by
  unfold viralFeedScrollTo
  rw [if_pos h]
  dsimp only
  obtain ⟨hpool, hurls, hcur, hcreated⟩ :=
    pausePrev_frame { feed with currentIndex := index } feed.currentIndex index
  generalize hpaused : pausePrev { feed with currentIndex := index } feed.currentIndex index =
    paused at hpool hurls hcur hcreated ⊢
  change paused.pool = feed.pool at hpool
  change paused.urls = feed.urls at hurls
  change paused.created = feed.created at hcreated
  have hslot : ∀ j, paused.slot j = feed.slot j := fun j => congrFun hpool (slotOf j)
  have hlive : LiveAt paused index ↔ LiveAt feed index := liveAt_of_slot (hslot index)
  have hv : paused.Valid index := by
    unfold ViralFeed.Valid ViralFeed.urlCount
    rw [hurls]
    exact h
  refine ⟨playOrPrepare paused index, _, ?_, rfl⟩
  rcases playOrPrepare_cases paused index with ⟨hl, p1, p2, p3, p4⟩ | ⟨hdead, hinit⟩
  · have hsame : ∀ j, (playOrPrepare paused index).slot j = feed.slot j := by
      intro j
      rw [← hslot j]
      exact congrFun p1 (slotOf j)
    exact {
      valid := h
      playedUrls := p2.trans hurls
      playedCurrent := p3.trans hcur
      live := (liveAt_of_slot (congrFun p1 (slotOf index))).mpr hl
      others := fun j _ => hsame j
      reused := fun _ => hsame index
      renewed := fun hn => absurd (hlive.mp hl) hn
      loaded := rfl }
  · obtain ⟨_, q2, q3, _⟩ := initSlot_eq (slotOf index) hv
    have hfresh : (playOrPrepare paused index).slot index = freshSlot paused index := by
      rw [hinit, initSlot_slot _ hv, if_pos rfl]
    exact {
      valid := h
      playedUrls := by rw [hinit, q2, hurls]
      playedCurrent := by rw [hinit, q3]; exact hcur
      live := by unfold LiveAt; rw [hfresh]; exact ⟨rfl, rfl⟩
      others := fun j hj => by rw [hinit, initSlot_slot _ hv, if_neg hj, hslot j]
      reused := fun hl => absurd (hlive.mpr hl) hdead
      renewed := fun _ => by rw [hfresh]; show paused.urls[index.toNat]? = _; rw [hurls]
      loaded := rfl }

/-- What a swipe keeps if its parts do: a change of the position and the calls of ijkplayer, a new
    player for an index of the list, a released slot. -/
structure SwipeInvariant (P : ViralFeed → Prop) : Prop where
  frame : ∀ f g, P f → g.pool = f.pool → g.urls = f.urls → g.created = f.created → P g
  init : ∀ f index, P f → f.Valid index → P (viralPlayerInitSlot f (slotOf index) index)
  release : ∀ f k, P f →
    P (f.setSlot k { f.pool k with mp := none, state := .idle, url := none })

section SwipeInvariant

variable {P : ViralFeed → Prop}

theorem SwipeInvariant.preload (hP : SwipeInvariant P) {index : Int} (hindex : 0 ≤ index)
    (left : Nat) : ∀ (feed : ViralFeed) (i : Nat), P feed → P (preload feed index i left) := by
  induction left with
  | zero => intro feed i h; exact h
  | succ left ih =>
    intro feed i h
    rw [preload_succ]
    split
    · exact h
    · rename_i hend
      refine ih _ (i + 1) ?_
      unfold preloadOne
      split
      · exact hP.init feed _ h ⟨by omega, by omega⟩
      · exact h

theorem SwipeInvariant.releaseBehind (hP : SwipeInvariant P) {feed : ViralFeed} (before : Int)
    (h : P feed) : P (releaseBehind feed before) := by
  unfold Feed.releaseBehind
  dsimp only
  split
  · split
    · obtain ⟨hpool, hurls, _, hcreated⟩ := stopMp_frame feed (feed.slot before)
      have hstop := hP.release _ (slotOf before) (hP.frame feed _ h hpool hurls hcreated)
      rw [hpool] at hstop
      exact hstop
    · exact h
  · exact h

theorem SwipeInvariant.scrollTo (hP : SwipeInvariant P) {feed : ViralFeed} (index : Int)
    (h : P feed) : P (viralFeedScrollTo feed index) := by
  unfold viralFeedScrollTo
  split
  · rename_i hv
    dsimp only
    obtain ⟨hpool, hurls, _, hcreated⟩ :=
      pausePrev_frame { feed with currentIndex := index } feed.currentIndex index
    refine hP.releaseBehind _ (hP.preload hv.1 _ _ _ ?_)
    have hpaused := hP.frame feed _ h hpool hurls hcreated
    generalize pausePrev { feed with currentIndex := index } feed.currentIndex index = paused
      at hurls hpaused
    rcases playOrPrepare_cases paused index with ⟨_, p1, p2, _, p4⟩ | ⟨_, hinit⟩
    · exact hP.frame paused _ hpaused p1 p2 p4
    · rw [hinit]
      refine hP.init paused index hpaused ?_
      unfold ViralFeed.Valid ViralFeed.urlCount
      rw [hurls]
      exact hv
  · exact h

end SwipeInvariant

theorem poolOk_swipe : SwipeInvariant PoolOk where
  frame _ _ h hpool _ hcreated := poolOk_frame h hpool hcreated
  init _ _ h hv := poolOk_initSlot h hv
  release _ _ h := poolOk_setSlot h (Or.inl rfl)

/-- Preloading and releasing change neither the list nor the position. -/
theorem preload_frame {index : Int} (hindex : 0 ≤ index) (left : Nat) :
    ∀ (feed : ViralFeed) (i : Nat), (preload feed index i left).urls = feed.urls ∧
      (preload feed index i left).currentIndex = feed.currentIndex := by
  induction left with
  | zero => intro feed i; exact ⟨rfl, rfl⟩
  | succ left ih =>
    intro feed i
    rw [preload_succ]
    split
    · exact ⟨rfl, rfl⟩
    · rename_i hend
      obtain ⟨h1, h2⟩ := ih (preloadOne feed (index + i)) (i + 1)
      rw [h1, h2]
      unfold preloadOne
      split
      · have hv : feed.Valid (index + i) := ⟨by omega, by omega⟩
        obtain ⟨_, q2, q3, _⟩ := initSlot_eq (slotOf (index + i)) hv
        exact ⟨q2, q3⟩
      · exact ⟨rfl, rfl⟩

theorem releaseBehind_frame (feed : ViralFeed) (before : Int) :
    (releaseBehind feed before).urls = feed.urls ∧
      (releaseBehind feed before).currentIndex = feed.currentIndex := by
  unfold releaseBehind
  dsimp only
  repeat' split
  · exact ⟨(stopMp_frame _ _).2.1, (stopMp_frame _ _).2.2.1⟩
  all_goals exact ⟨rfl, rfl⟩

section Swipe

variable {feed played loaded : ViralFeed} {index : Int}

/-- The slots of the videos ahead are not the slot of the current one. -/
theorem slotOf_ahead {m : Nat} (h1 : 1 ≤ m) (h5 : m < viralPoolSize) :
    slotOf (index + m) ≠ slotOf index := by
  intro hs
  change m < 5 at h5
  have := slotOf_eq_iff.mp hs
  omega

theorem Swipe.loaded_current (h : Swipe feed index played loaded) :
    loaded.slot index = played.slot index := by
  rw [h.loaded]
  refine preload_outside h.valid.1 viralPreloadCount played 1 ?_
  intro m h1 h2
  change m < 1 + 2 at h2
  exact (slotOf_ahead h1 (by show m < 5; omega)).symm

/-- Behind the swipe the current video has its player. -/
theorem Swipe.released_current (h : Swipe feed index played loaded) :
    LiveAt (releaseBehind loaded (index - viralPreloadCount - 1)) index := by
  have hlive : LiveAt loaded index := (liveAt_of_slot h.loaded_current).mpr h.live
  refine (liveAt_of_slot ?_).mpr hlive
  rcases releaseBehind_slot loaded (index - viralPreloadCount - 1) index with e | ⟨hs, _⟩
  · exact e
  · have := slotOf_eq_iff.mp hs
    change index % 5 = (index - 2 - 1) % 5 at this
    omega

end Swipe

theorem scrollTo_current {feed : ViralFeed} {index : Int} (h : feed.Valid index) :
    (viralFeedScrollTo feed index).currentIndex = index ∧
      LiveAt (viralFeedScrollTo feed index) index := by
  obtain ⟨played, loaded, hs, e⟩ := scrollTo_swipe h
  rw [e]
  refine ⟨?_, hs.released_current⟩
  rw [(releaseBehind_frame _ _).2, hs.loaded, (preload_frame h.1 _ _ _).2, hs.playedCurrent]

/-! ## 5. Every call keeps the invariant -/

theorem apply_poolOk {feed : ViralFeed} (a : Act) (h : PoolOk feed) : PoolOk (apply feed a) := by
  cases a with
  | setUrls urls => exact poolOk_frame h rfl rfl
  | scrollTo index => exact poolOk_swipe.scrollTo index h
  | control c =>
    show PoolOk (viralFeedControl feed c)
    unfold viralFeedControl
    split <;> exact poolOk_frame h rfl rfl
  | loopStores k state => exact poolOk_setSlot h (Or.inr ⟨rfl, rfl⟩)

/-- A loop's store of a state keeps every slot's number and player. -/
theorem liveAt_loopStores (feed : ViralFeed) (k : Slot) (state : ViralState) (index : Int) :
    LiveAt (apply feed (.loopStores k state)) index ↔ LiveAt feed index := by
  have e : (apply feed (.loopStores k state)).slot index =
      if slotOf index = k then { feed.pool k with state := state } else feed.slot index := rfl
  unfold LiveAt
  rw [e]
  by_cases hk : slotOf index = k
  · rw [if_pos hk]
    subst hk
    exact Iff.rfl
  · rw [if_neg hk]

/-- A call that is no successful swipe leaves the position and the players of the ring. -/
theorem apply_noSwipe {feed : ViralFeed} {a : Act}
    (ha : ∀ index, a = .scrollTo index → ¬ feed.Valid index) :
    (apply feed a).currentIndex = feed.currentIndex ∧
      ∀ index, LiveAt (apply feed a) index ↔ LiveAt feed index := by
  cases a with
  | setUrls urls => exact ⟨rfl, fun _ => Iff.rfl⟩
  | scrollTo index =>
    have e : apply feed (.scrollTo index) = feed := if_neg (ha index rfl)
    rw [e]
    exact ⟨rfl, fun _ => Iff.rfl⟩
  | control c =>
    show (viralFeedControl feed c).currentIndex = _ ∧ _
    unfold apply viralFeedControl
    split <;> exact ⟨rfl, fun _ => Iff.rfl⟩
  | loopStores k state => exact ⟨rfl, liveAt_loopStores feed k state⟩

theorem apply_currentOk {feed : ViralFeed} (a : Act) (h : CurrentOk feed) :
    CurrentOk (apply feed a) := by
  by_cases hsw : ∃ index, a = .scrollTo index ∧ feed.Valid index
  · obtain ⟨index, rfl, hv⟩ := hsw
    obtain ⟨hcur, hlive⟩ := scrollTo_current hv
    intro _
    show LiveAt (viralFeedScrollTo feed index) (viralFeedScrollTo feed index).currentIndex
    rw [hcur]
    exact hlive
  · have hno : ∀ index, a = .scrollTo index → ¬ feed.Valid index :=
      fun index e hv => hsw ⟨index, e, hv⟩
    obtain ⟨hcur, hlive⟩ := apply_noSwipe hno
    intro hpos
    rw [hcur] at hpos ⊢
    exact (hlive feed.currentIndex).mpr (h hpos)

theorem reach_poolOk {C : ViralFeed → Act → Prop} {feed : ViralFeed}
    (h : feedMachine.Reach C feed) : PoolOk feed ∧ CurrentOk feed := by
  refine Machine.Steps.invariant (I := fun f => PoolOk f ∧ CurrentOk f) h ?_ ?_
  · refine ⟨⟨nofun, nofun⟩, fun hpos => ?_⟩
    change 0 ≤ (-1 : Int) at hpos
    omega
  · intro u a v hI _ hs
    cases hs
    exact ⟨apply_poolOk a hI.1, apply_currentOk a hI.2⟩

/-! ## 6. The ring in every reachable state -/

/-- The call is not a swipe to an index of the list. -/
def NoSwipe (feed : ViralFeed) (a : Act) : Prop :=
  ∀ index, a = .scrollTo index → ¬ feed.Valid index

/-- The controls act on the player made for the index. -/
def ControlsActOn (feed : ViralFeed) (index : Int) : Prop :=
  ∃ mp, (feed.slot index).mp = some mp ∧ (feed.slot index).feedIndex = index ∧
    controlTarget feed = some mp ∧ feed.created[mp]? = some index

theorem controlsActOn_of_live {feed : ViralFeed} {index : Int} (hok : PoolOk feed)
    (hcur : feed.currentIndex = index) (hpos : 0 ≤ index) (hlive : LiveAt feed index) :
    ControlsActOn feed index := by
  obtain ⟨hsome, hidx⟩ := hlive
  obtain ⟨mp, hmp⟩ := Option.isSome_iff_exists.mp hsome
  refine ⟨mp, hmp, hidx, ?_, ?_⟩
  · unfold controlTarget
    rw [hcur, viralGetPoolSlot_of_nonneg hpos]
    exact hmp
  · have hmade := hok.made (slotOf index) mp hmp
    rw [hmade]
    exact congrArg some hidx

/-- Six videos. -/
def sixUrls : List String := ["a", "b", "c", "d", "e", "f"]

/-- A feed of six videos, swiped to the last one but one. -/
def towardsEnd : List Act :=
  [.setUrls sixUrls, .scrollTo 0, .scrollTo 1, .scrollTo 2, .scrollTo 3, .scrollTo 4]

/-- Every video from the index on, as far as the engine preloads, is live. -/
def Window (feed : ViralFeed) (index : Int) : Prop :=
  ∀ j, index ≤ j → j ≤ min (index + viralPreloadCount) (feed.urlCount - 1) → LiveAt feed j

/-- Behind a successful swipe the window is live. -/
def WindowAfter (feed : ViralFeed) : Act → Prop
  | .scrollTo index => feed.Valid index → Window (viralFeedScrollTo feed index) index
  | _ => True

/-- No slot of a video ahead is a released one that still carries the video's number. -/
def NoneReleasedAhead (feed : ViralFeed) : Act → Prop
  | .scrollTo index => feed.Valid index →
      ∀ j, index < j → j ≤ min (index + viralPreloadCount) (feed.urlCount - 1) →
        (feed.slot j).feedIndex = j → (feed.slot j).mp.isSome = true
  | _ => True

section Window

variable {feed played loaded : ViralFeed} {index : Int}

/-- What the preloading of a swipe does to the slot of a video ahead, in terms of the feed before
    the swipe. -/
theorem Swipe.loaded_ahead (h : Swipe feed index played loaded) {m : Nat} (h1 : 1 ≤ m)
    (h2 : m ≤ viralPreloadCount) (hlt : index + m < feed.urlCount) :
    ((feed.slot (index + m)).feedIndex = index + m ∧
      loaded.slot (index + m) = feed.slot (index + m)) ∨
    ((feed.slot (index + m)).feedIndex ≠ index + m ∧
      NewFor feed.urls (index + m) (loaded.slot (index + m))) := by
  change m ≤ 2 at h2
  have hcount : index + m < played.urlCount := by
    unfold ViralFeed.urlCount
    rw [h.playedUrls]
    exact hlt
  have hne : slotOf (index + m) ≠ slotOf index := slotOf_ahead h1 (by show m < 5; omega)
  have hslot := preload_slot h.valid.1 viralPreloadCount played 1 h1 (by show m < 1 + 2; omega)
    (by decide) hcount
  rw [h.others _ hne, h.playedUrls, ← h.loaded] at hslot
  exact hslot

/-- The slot of a video ahead carries its number behind the preloading. -/
theorem Swipe.loaded_number (h : Swipe feed index played loaded) {m : Nat} (h1 : 1 ≤ m)
    (h2 : m ≤ viralPreloadCount) (hlt : index + m < feed.urlCount) :
    (loaded.slot (index + m)).feedIndex = index + m := by
  rcases h.loaded_ahead h1 h2 hlt with ⟨hidx, e⟩ | ⟨_, hnew⟩
  · rw [e]
    exact hidx
  · exact hnew.2.1

/-- A preloaded video is not released again by the same swipe: the slot `index - 3` is the slot
    `index + 2`, and that one carries its new number. -/
theorem Swipe.released_ahead (h : Swipe feed index played loaded) {m : Nat} (h1 : 1 ≤ m)
    (h2 : m ≤ viralPreloadCount) (hlt : index + m < feed.urlCount) :
    (releaseBehind loaded (index - viralPreloadCount - 1)).slot (index + m) =
      loaded.slot (index + m) := by
  rcases releaseBehind_slot loaded (index - viralPreloadCount - 1) (index + m) with e | ⟨hs, hlive⟩
  · exact e
  · exfalso
    have hnum := h.loaded_number h1 h2 hlt
    have hold := hlive.2
    unfold ViralFeed.slot at hnum hold
    rw [hs, hold] at hnum
    omega

/-- **After a swipe a video ahead is live unless its slot was a released one that still carried
    its number.** -/
theorem scrollTo_liveAhead_iff (hv : feed.Valid index) {m : Nat} (h1 : 1 ≤ m)
    (h2 : m ≤ viralPreloadCount) (hlt : index + m < feed.urlCount) :
    LiveAt (viralFeedScrollTo feed index) (index + m) ↔
      ((feed.slot (index + m)).feedIndex = index + m →
        (feed.slot (index + m)).mp.isSome = true) := by
  obtain ⟨played, loaded, hs, e⟩ := scrollTo_swipe hv
  rw [e, liveAt_of_slot (hs.released_ahead h1 h2 hlt)]
  unfold LiveAt
  rcases hs.loaded_ahead h1 h2 hlt with ⟨hidx, e'⟩ | ⟨hidx, hnew⟩
  · rw [e']
    simp [hidx]
  · exact ⟨fun _ hc => absurd hc hidx, fun _ => ⟨hnew.1, hnew.2.1⟩⟩

theorem scrollTo_urls (feed : ViralFeed) (index : Int) :
    (viralFeedScrollTo feed index).urls = feed.urls := by
  by_cases hv : feed.Valid index
  · obtain ⟨played, loaded, hs, e⟩ := scrollTo_swipe hv
    rw [e, (releaseBehind_frame _ _).1, hs.loaded, (preload_frame hv.1 _ _ _).1, hs.playedUrls]
  · unfold viralFeedScrollTo
    rw [if_neg hv]

/-- **One call**: the window is live behind it exactly if no slot ahead is a released one that
    still carries the video's number. -/
theorem window_iff (feed : ViralFeed) (a : Act) :
    WindowAfter feed a ↔ NoneReleasedAhead feed a := by
  cases a with
  | scrollTo index =>
    refine forall_congr' fun hv => ?_
    have hcount : (viralFeedScrollTo feed index).urlCount = feed.urlCount := by
      unfold ViralFeed.urlCount
      rw [scrollTo_urls]
    unfold Window
    rw [hcount]
    have hmin : ∀ j, j ≤ min (index + viralPreloadCount) (feed.urlCount - 1) →
        j ≤ index + 2 ∧ j < feed.urlCount := by
      intro j hj
      change j ≤ min (index + 2) (feed.urlCount - 1) at hj
      omega
    constructor
    · intro hw j hij hj
      obtain ⟨h2, hlt⟩ := hmin j hj
      obtain ⟨m, rfl⟩ : ∃ m : Nat, j = index + m := ⟨(j - index).toNat, by omega⟩
      exact (scrollTo_liveAhead_iff hv (by omega) (by show m ≤ 2; omega) hlt).mp
        (hw _ (by omega) hj)
    · intro hn j hij hj
      obtain ⟨h2, hlt⟩ := hmin j hj
      obtain ⟨m, rfl⟩ : ∃ m : Nat, j = index + m := ⟨(j - index).toNat, by omega⟩
      rcases Nat.eq_zero_or_pos m with rfl | hpos
      · have e : index + ((0 : Nat) : Int) = index := by omega
        rw [e]
        exact (scrollTo_current hv).2
      · exact (scrollTo_liveAhead_iff hv hpos (by show m ≤ 2; omega) hlt).mpr
          (hn _ (by omega) hj)
  | setUrls urls => exact Iff.rfl
  | control c => exact Iff.rfl
  | loopStores k state => exact Iff.rfl

end Window

/-- **The preload window over whole runs**: behind every successful swipe of a run the current
    video and the next two of the list are live, exactly if no swipe of the run meets, in the
    slot of a video ahead, a released player that still carries the video's number. -/
theorem preloadWindow_iff (acts : List Act) :
    feedMachine.meets WindowAfter viralFeedCreate acts ↔
      feedMachine.meets NoneReleasedAhead viralFeedCreate acts :=
  Machine.meets_congr window_iff _ _

/-- **A jump back from the end of six videos**: the slot of video 1 was released when video 4 came
    up, kept the number 1, and is not filled again when the feed goes back to video 0. -/
theorem preloadWindow_jumpBack :
    ¬ feedMachine.meets WindowAfter viralFeedCreate (towardsEnd ++ [.scrollTo 0]) := by
  intro h
  have hnot : ((feedMachine.exec viralFeedCreate towardsEnd).map fun f =>
      (decide (f.Valid 0), decide (LiveAt (viralFeedScrollTo f 0) 1),
        (viralFeedScrollTo f 0).urlCount)) = some (true, false, 6) := by
    decide
  obtain ⟨feed, hf, hobs⟩ := Option.map_eq_some_iff.mp hnot
  simp only [Prod.mk.injEq, decide_eq_true_eq, decide_eq_false_iff_not] at hobs
  obtain ⟨hv, hdead, hcount⟩ := hobs
  have hlast := Machine.meets_append_single hf h hv 1 (by omega) (by rw [hcount]; decide)
  exact hdead hlast

end Viral.Feed
