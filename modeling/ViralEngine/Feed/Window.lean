/-
  File:      ViralEngine/Feed/Window.lean
  Subject:   WHAT A SWIPE LEAVES IN EVERY SLOT: THE VIDEOS LEFT BEHIND, AND THE SLIDING WINDOW.

  A swipe to `index` fills the slots of `index`, `index + 1` and `index + 2` and looks for a
  player to release in one slot only, that of `index - 3`. `SlotAfter` says it for each slot of
  the ring. Swipes of one video at a time then carry a window of five videos along; a jump leaves
  players behind in the slots it does not come near.

  * `SlotAfter`, `scrollTo_slotAfter` -- the contents of a slot behind a swipe;
  * `BehindReleased`, `CarriedAlong`, `behindReleased_iff` -- nobody is left behind exactly if
    every player too far behind sits in a slot the swipe fills or is that of `index - 3`;
  * `behindReleased_jump` -- a jump from video 0 to video 7;
  * `Forward`, `forward_step` -- the window at video `k`, and one swipe on;
  * `slidingWindow` -- so the window at every video, whatever the loops and the controls do in
    between.
-/
import ViralEngine.Feed.Ring

namespace Viral.Feed

open Viral.Lib

/-! ## 1. Every slot behind a swipe -/

/-- The slot is that of the video `m` places ahead, as far as the engine preloads. -/
structure Ahead (feed : ViralFeed) (index : Int) (k : Slot) (m : Nat) : Prop where
  near : m ≤ viralPreloadCount
  listed : index + m < feed.urlCount
  slot : k = slotOf (index + m)

/-- The swipe releases the player of the slot. -/
structure Releases (feed : ViralFeed) (index : Int) (k : Slot) : Prop where
  slot : k = slotOf (index - viralPreloadCount - 1)
  pos : 0 ≤ index - viralPreloadCount - 1
  live : LiveAt feed (index - viralPreloadCount - 1)

/-- **The contents of a slot behind a swipe**: a slot ahead keeps the player it has for the video
    or gets a new one, one slot is released, the others stay. -/
inductive SlotAfter (feed : ViralFeed) (index : Int) (k : Slot) (vp : ViralPlayer) : Prop where
  | kept (m : Nat) (ha : Ahead feed index k m) (hnum : (feed.pool k).feedIndex = index + m)
      (hlive : m = 0 → (feed.pool k).mp.isSome = true) (hvp : vp = feed.pool k)
  | renewed (m : Nat) (ha : Ahead feed index k m)
      (hold : ¬ ((feed.pool k).feedIndex = index + m ∧ (m = 0 → (feed.pool k).mp.isSome = true)))
      (hnew : NewFor feed.urls (index + m) vp)
  | released (hout : ∀ m, ¬ Ahead feed index k m) (hr : Releases feed index k)
      (hvp : vp = { feed.pool k with mp := none, state := .idle, url := none })
  | untouched (hout : ∀ m, ¬ Ahead feed index k m) (hr : ¬ Releases feed index k)
      (hvp : vp = feed.pool k)

/-- Releasing a live player: the slot keeps its number. -/
theorem releaseBehind_live {feed : ViralFeed} {before : Int} (hpos : 0 ≤ before)
    (hlive : LiveAt feed before) :
    (releaseBehind feed before).slot before =
      { feed.slot before with mp := none, state := .idle, url := none } := by
  unfold releaseBehind
  rw [if_pos hpos]
  dsimp only
  rw [if_pos ⟨hlive.2, hlive.1⟩, setSlot_slot, if_pos rfl]

theorem releaseBehind_dead {feed : ViralFeed} {before : Int}
    (hno : ¬ (0 ≤ before ∧ LiveAt feed before)) : releaseBehind feed before = feed := by
  unfold releaseBehind
  by_cases hpos : 0 ≤ before
  · rw [if_pos hpos]
    exact if_neg fun hl => hno ⟨hpos, hl.2, hl.1⟩
  · rw [if_neg hpos]

section Swipe

variable {feed played loaded : ViralFeed} {index : Int}

/-- The preload loop leaves a slot alone that no video of its range has, as far as the list
    goes. -/
theorem preload_untouched (hindex : 0 ≤ index) {j : Int} (left : Nat) :
    ∀ (f : ViralFeed) (i : Nat), f.urlCount = feed.urlCount → i + left ≤ viralPreloadCount + 1 →
      (∀ m, ¬ Ahead feed index (slotOf j) m) → (preload f index i left).slot j = f.slot j := by
  induction left with
  | zero => intro f i _ _ _; rfl
  | succ left ih =>
    intro f i hf hle hout
    rw [preload_succ]
    by_cases hend : f.urlCount ≤ index + i
    · rw [if_pos hend]
    · have hv : f.Valid (index + i) := ⟨by omega, by omega⟩
      rw [if_neg hend, ih _ (i + 1) ((preloadOne_urlCount hv).trans hf) (by omega) hout,
        preloadOne_slot hv, if_neg fun hc => hout i ⟨by omega, by omega, hc.1⟩]

/-- The swipe leaves a slot it does not come near to the release. -/
theorem Swipe.loaded_outside (h : Swipe feed index played loaded) {j : Int}
    (hout : ∀ m, ¬ Ahead feed index (slotOf j) m) : loaded.slot j = feed.slot j := by
  have hne : slotOf j ≠ slotOf index := by
    intro e
    have hv := h.valid.2
    exact hout 0 ⟨Nat.zero_le _, by omega, by rw [e]; congr 1; omega⟩
  have hcount : played.urlCount = feed.urlCount := by
    unfold ViralFeed.urlCount
    rw [h.playedUrls]
  rw [h.loaded, ← h.others j hne]
  exact preload_untouched h.valid.1 viralPreloadCount played 1 hcount (by decide) hout

/-- The slot of the video swiped to. -/
theorem Swipe.slotAfter_current (hs : Swipe feed index played loaded)
    (ha : Ahead feed index (slotOf index) 0) :
    SlotAfter feed index (slotOf index)
      ((releaseBehind loaded (index - viralPreloadCount - 1)).slot index) := by
  have e0 : index + ((0 : Nat) : Int) = index := by omega
  have hrel : (releaseBehind loaded (index - viralPreloadCount - 1)).slot index =
      loaded.slot index := by
    rcases releaseBehind_slot loaded (index - viralPreloadCount - 1) index with h | ⟨h, _⟩
    · exact h
    · have := slotOf_eq_iff.mp h
      change index % 5 = (index - 2 - 1) % 5 at this
      omega
  rw [hrel, hs.loaded_current]
  by_cases hl : LiveAt feed index
  · exact .kept 0 ha (hl.2.trans e0.symm) (fun _ => hl.1) (hs.reused hl)
  · refine .renewed 0 ha (fun hc => hl ?_) ⟨hs.live.1, hs.live.2.trans e0.symm, ?_⟩
    · rw [e0] at hc
      exact ⟨hc.2 rfl, hc.1⟩
    · rw [e0]
      exact hs.renewed hl

/-- The slot of a video that the swipe preloads. -/
theorem Swipe.slotAfter_ahead (hs : Swipe feed index played loaded) {m : Nat} (hpos : 0 < m)
    (ha : Ahead feed index (slotOf (index + m)) m) :
    SlotAfter feed index (slotOf (index + m))
      ((releaseBehind loaded (index - viralPreloadCount - 1)).slot (index + m)) := by
  rw [hs.released_ahead hpos ha.near ha.listed]
  rcases hs.loaded_ahead hpos ha.near ha.listed with ⟨hnum, e⟩ | ⟨hnum, hnew⟩
  · exact .kept m ha hnum (fun h => absurd h (Nat.ne_of_gt hpos)) e
  · exact .renewed m ha (fun hc => hnum hc.1) hnew

/-- A slot that no video ahead has. -/
theorem Swipe.slotAfter_outside (hs : Swipe feed index played loaded) {j : Int}
    (hout : ∀ m, ¬ Ahead feed index (slotOf j) m) :
    SlotAfter feed index (slotOf j)
      ((releaseBehind loaded (index - viralPreloadCount - 1)).slot j) := by
  have hold := hs.loaded_outside hout
  by_cases hr : Releases feed index (slotOf j)
  · have hsame : ∀ f : ViralFeed, f.slot j = f.slot (index - viralPreloadCount - 1) := fun f => by
      unfold ViralFeed.slot
      rw [hr.slot]
    have hlive : LiveAt loaded (index - viralPreloadCount - 1) := by
      refine (liveAt_of_slot ?_).mpr hr.live
      rw [← hsame, hold, hsame]
    refine .released hout hr ?_
    rw [hsame, releaseBehind_live hr.pos hlive, ← hsame, hold]
    rfl
  · refine .untouched hout hr ?_
    refine Eq.trans ?_ hold
    rcases releaseBehind_slot loaded (index - viralPreloadCount - 1) j with h | ⟨hs', hl⟩
    · exact h
    · -- a live player of that number was live before, and would be released
      by_cases hpos : 0 ≤ index - viralPreloadCount - 1
      · refine absurd ⟨hs', hpos, (liveAt_of_slot ?_).mp hl⟩ hr
        have hout' : ∀ m, ¬ Ahead feed index (slotOf (index - viralPreloadCount - 1)) m :=
          fun m hm => hout m ⟨hm.near, hm.listed, hs'.trans hm.slot⟩
        exact hs.loaded_outside hout'
      · rw [releaseBehind_dead fun hc => hpos hc.1]

/-- **A swipe to an index of the list, slot by slot.** -/
theorem scrollTo_slotAfter (hv : feed.Valid index) (k : Slot) :
    SlotAfter feed index k ((viralFeedScrollTo feed index).pool k) := by
  obtain ⟨played, loaded, hs, e⟩ := scrollTo_swipe hv
  rw [e]
  by_cases hin : ∃ m, Ahead feed index k m
  · obtain ⟨m, ha⟩ := hin
    obtain rfl := ha.slot
    rcases Nat.eq_zero_or_pos m with rfl | hpos
    · have e0 : index + ((0 : Nat) : Int) = index := by omega
      rw [e0] at ha ⊢
      exact hs.slotAfter_current ha
    · exact hs.slotAfter_ahead hpos ha
  · obtain ⟨j, rfl⟩ : ∃ j : Int, slotOf j = k := by
      refine ⟨k.val, Fin.ext ?_⟩
      have := slotOf_val k.val
      have h5 : k.val < 5 := k.isLt
      omega
    exact hs.slotAfter_outside fun m hm => hin ⟨m, hm⟩

end Swipe

/-! ## 2. The videos left behind -/

/-- Behind a successful swipe no live player is more than the preload count behind it. -/
def BehindReleased (feed : ViralFeed) : Act → Prop
  | .scrollTo index => feed.Valid index → ∀ k,
      ((viralFeedScrollTo feed index).pool k).mp.isSome = true →
        index - viralPreloadCount ≤ ((viralFeedScrollTo feed index).pool k).feedIndex
  | _ => True

/-- Every live player that is too far behind the swipe's index sits in a slot the swipe fills, or
    is the one it releases. -/
def CarriedAlong (feed : ViralFeed) : Act → Prop
  | .scrollTo index => feed.Valid index → ∀ k, (feed.pool k).mp.isSome = true →
      (feed.pool k).feedIndex < index - viralPreloadCount →
        (∃ m, Ahead feed index k m) ∨ Releases feed index k
  | _ => True

/-- **One call**: nobody is left behind exactly if everybody too far behind is carried along. -/
theorem behind_iff (feed : ViralFeed) (a : Act) : BehindReleased feed a ↔ CarriedAlong feed a := by
  cases a with
  | scrollTo index =>
    refine forall_congr' fun hv => forall_congr' fun k => ?_
    have hnear : ∀ m : Nat, index - viralPreloadCount ≤ index + m := by
      intro m
      omega
    cases scrollTo_slotAfter hv k with
    | kept m ha hnum _ hvp =>
      refine iff_of_true (fun _ => ?_) (fun _ _ => Or.inl ⟨m, ha⟩)
      rw [hvp, hnum]
      exact hnear m
    | renewed m ha _ hnew =>
      refine iff_of_true (fun _ => ?_) (fun _ _ => Or.inl ⟨m, ha⟩)
      rw [hnew.2.1]
      exact hnear m
    | released _ hr hvp =>
      refine iff_of_true (fun hl => ?_) (fun _ _ => Or.inr hr)
      rw [hvp] at hl
      cases hl
    | untouched hout hr hvp =>
      rw [hvp]
      refine forall_congr' fun _ => ⟨fun h hlt => absurd hlt (Int.not_lt.mpr h), fun h => ?_⟩
      refine Int.not_lt.mp fun hlt => ?_
      rcases h hlt with ⟨m, ha⟩ | hrel
      · exact hout m ha
      · exact hr hrel
  | setUrls urls => exact Iff.rfl
  | control c => exact Iff.rfl
  | loopStores k state => exact Iff.rfl

/-- **The videos left behind, over whole runs**: no swipe of a run leaves a live player more than
    two videos behind, exactly if at every swipe each player that far behind sits in the slot of
    one of the videos played and preloaded, or is the one three videos behind. -/
theorem behindReleased_iff (acts : List Act) :
    feedMachine.meets BehindReleased viralFeedCreate acts ↔
      feedMachine.meets CarriedAlong viralFeedCreate acts :=
  Machine.meets_congr behind_iff _ _

/-- Ten videos. -/
def tenUrls : List String := ["a", "b", "c", "d", "e", "f", "g", "h", "i", "j"]

/-- **A jump from video 0 to video 7**: the slots of 7, 8 and 9 are filled and that of 4 is looked
    at; the players of 0 and 1 stay. -/
theorem behindReleased_jump :
    ¬ feedMachine.meets BehindReleased viralFeedCreate
      ([.setUrls tenUrls, .scrollTo 0] ++ [.scrollTo 7]) := by
  intro h
  have hnot : ((feedMachine.exec viralFeedCreate [.setUrls tenUrls, .scrollTo 0]).map fun f =>
      (decide (f.Valid 7), ((viralFeedScrollTo f 7).slot 1).mp.isSome,
        ((viralFeedScrollTo f 7).slot 1).feedIndex)) = some (true, true, 1) := by
    decide
  obtain ⟨feed, hf, hobs⟩ := Option.map_eq_some_iff.mp hnot
  simp only [Prod.mk.injEq, decide_eq_true_eq] at hobs
  obtain ⟨hv, hlive, hnum⟩ := hobs
  have hlast := Machine.meets_append_single hf h hv (slotOf 1) hlive
  change 7 - 2 ≤ ((viralFeedScrollTo feed 7).slot 1).feedIndex at hlast
  rw [hnum] at hlast
  exact absurd hlast (by decide)

/-! ## 3. The players a swipe makes -/

/-- The player the preload loop makes for the video `m` places ahead. -/
def preloaded (feed : ViralFeed) (index : Int) (m : Nat) : List Int :=
  if index + m < feed.urlCount ∧ (feed.slot (index + m)).feedIndex ≠ index + m then [index + m]
  else []

section Created

variable {feed : ViralFeed} {index : Int}

theorem preloadOne_created {next : Int} (h : feed.Valid next) :
    (preloadOne feed next).created =
      feed.created ++ if (feed.slot next).feedIndex ≠ next then [next] else [] := by
  unfold preloadOne
  split
  · exact (initSlot_eq _ h).2.2.2
  · exact (List.append_nil _).symm

/-- The players the loop makes, in order. -/
theorem preload_created (hindex : 0 ≤ index) (left : Nat) :
    ∀ (f : ViralFeed) (i : Nat), left ≤ viralPoolSize →
      (preload f index i left).created =
        f.created ++ (List.range' i left).flatMap (preloaded f index) := by
  induction left with
  | zero => intro f i _; exact (List.append_nil _).symm
  | succ left ih =>
    intro f i h5
    change left + 1 ≤ 5 at h5
    rw [preload_succ, List.range'_succ, List.flatMap_cons]
    by_cases hend : f.urlCount ≤ index + i
    · -- the loop stops: nothing from here on is in the list
      have hnone : ∀ m ∈ List.range' (i + 1) left, preloaded f index m = [] := by
        intro m hm
        have := (List.mem_range'_1.mp hm).1
        exact if_neg fun hc => by omega
      have hfirst : preloaded f index i = [] := if_neg fun hc => by omega
      rw [if_pos hend, hfirst, List.flatMap_eq_nil_iff.mpr hnone]
      exact (List.append_nil _).symm
    · have hv : f.Valid (index + i) := ⟨by omega, by omega⟩
      -- the rounds to come look at other slots
      have hsame : ∀ m ∈ List.range' (i + 1) left,
          preloaded (preloadOne f (index + i)) index m = preloaded f index m := by
        intro m hm
        have hm' := List.mem_range'_1.mp hm
        have hne : slotOf (index + m) ≠ slotOf (index + i) := by
          intro hs
          have := slotOf_eq_iff.mp hs
          omega
        have hslot : (preloadOne f (index + i)).slot (index + m) = f.slot (index + m) := by
          rw [preloadOne_slot hv, if_neg fun hc => hne hc.1]
        unfold preloaded
        rw [preloadOne_urlCount hv, hslot]
      have hfirst : preloaded f index i =
          if (f.slot (index + i)).feedIndex ≠ index + i then [index + (i : Int)] else [] := by
        simp only [preloaded, Int.not_le.mp hend, true_and]
      rw [if_neg hend, ih _ (i + 1) (by show left ≤ 5; omega), preloadOne_created hv,
        List.flatMap_congr hsame, hfirst, List.append_assoc]

theorem releaseBehind_created (before : Int) :
    (releaseBehind feed before).created = feed.created := by
  unfold releaseBehind
  dsimp only
  repeat' split
  · exact (stopMp_frame _ _).2.2.2
  all_goals rfl

/-- **The players a swipe makes**: one for the video itself if it has none, and one for every
    video ahead whose number its slot does not carry. -/
theorem scrollTo_created (hv : feed.Valid index) :
    (viralFeedScrollTo feed index).created = feed.created ++
      ((if LiveAt feed index then [] else [index]) ++ preloaded feed index 1 ++
        preloaded feed index 2) := by
  unfold viralFeedScrollTo
  rw [if_pos hv]
  dsimp only
  obtain ⟨hpool, hurls, _, hcreated⟩ :=
    pausePrev_frame { feed with currentIndex := index } feed.currentIndex index
  generalize pausePrev { feed with currentIndex := index } feed.currentIndex index = paused
    at hpool hurls hcreated ⊢
  change paused.pool = feed.pool at hpool
  change paused.urls = feed.urls at hurls
  change paused.created = feed.created at hcreated
  have hslot : ∀ j, paused.slot j = feed.slot j := fun j => congrFun hpool (slotOf j)
  have hv' : paused.Valid index := by
    unfold ViralFeed.Valid ViralFeed.urlCount
    rw [hurls]
    exact hv
  -- the video itself, and what its slot is for the videos ahead
  have hplay : (playOrPrepare paused index).created =
        feed.created ++ (if LiveAt feed index then [] else [index]) ∧
      (playOrPrepare paused index).urls = feed.urls ∧
      ∀ j, slotOf j ≠ slotOf index → (playOrPrepare paused index).slot j = feed.slot j := by
    rcases playOrPrepare_cases paused index with ⟨hl, p1, p2, _, p4⟩ | ⟨hdead, hinit⟩
    · rw [if_pos ((liveAt_of_slot (hslot index)).mp hl), List.append_nil]
      exact ⟨p4.trans hcreated, p2.trans hurls,
        fun j _ => (congrFun p1 (slotOf j)).trans (hslot j)⟩
    · obtain ⟨_, q2, _, q4⟩ := initSlot_eq (slotOf index) hv'
      rw [if_neg fun hl => hdead ((liveAt_of_slot (hslot index)).mpr hl), hinit]
      refine ⟨by rw [q4, hcreated], q2.trans hurls, fun j hj => ?_⟩
      rw [initSlot_slot _ hv', if_neg hj, hslot]
  obtain ⟨h1, h2, h3⟩ := hplay
  have hahead : ∀ m ∈ List.range' 1 viralPreloadCount,
      preloaded (playOrPrepare paused index) index m = preloaded feed index m := by
    intro m hm
    have hm' := List.mem_range'_1.mp hm
    change 1 ≤ m ∧ m < 1 + 2 at hm'
    have hne : slotOf (index + m) ≠ slotOf index := slotOf_ahead hm'.1 (by show m < 5; omega)
    unfold preloaded ViralFeed.urlCount
    rw [h2, h3 _ hne]
  rw [releaseBehind_created, preload_created hv.1 _ _ _ (by decide), List.flatMap_congr hahead, h1]
  simp [viralPreloadCount, List.range'_succ, List.append_assoc]

end Created

/-! ## 4. The window at a video -/

/-- The first video of the window at video `k`. -/
def windowFirst (k : Nat) : Int := max 0 ((k : Int) - viralPreloadCount)

/-- The last video of the window at video `k` of a list of `n`. -/
def windowLast (n k : Nat) : Int := min ((n : Int) - 1) (k + viralPreloadCount)

/-- The indices below a bound, as the feed numbers them. -/
def indices (n : Nat) : List Int := (List.range n).map fun (i : Nat) => (i : Int)

theorem indices_succ (n : Nat) : indices (n + 1) = indices n ++ [(n : Int)] := by
  unfold indices
  rw [List.range_succ, List.map_append]
  rfl

/-- **The feed at video `k`, reached one video at a time**: the videos of the window are live with
    their urls and nothing else is, no slot carries a number beyond the window, and every video
    up to its end had one player made. -/
structure Forward (urls : List String) (k : Nat) (feed : ViralFeed) : Prop where
  list : feed.urls = urls
  pool : PoolOk feed
  live : ∀ j, windowFirst k ≤ j → j ≤ windowLast urls.length k →
    LiveAt feed j ∧ (feed.slot j).url = urls[j.toNat]?
  only : ∀ s, (feed.pool s).mp.isSome = true →
    windowFirst k ≤ (feed.pool s).feedIndex ∧ (feed.pool s).feedIndex ≤ windowLast urls.length k
  top : ∀ s, (feed.pool s).feedIndex ≤ windowLast urls.length k
  made : feed.created = indices (windowLast urls.length k + 1).toNat

section Forward

variable {urls : List String} {feed : ViralFeed} {k : Nat}

/-- The calls that change the list or the position. -/
def Act.moves : Act → Bool
  | .setUrls _ | .scrollTo _ => true
  | .control _ | .loopStores _ _ => false

/-- What a call that is neither a swipe nor a new list does to the slots. -/
theorem apply_still (feed : ViralFeed) {a : Act} (hm : a.moves = false) :
    (apply feed a).urls = feed.urls ∧ (apply feed a).created = feed.created ∧
      ∀ s, ((apply feed a).pool s).mp = (feed.pool s).mp ∧
        ((apply feed a).pool s).feedIndex = (feed.pool s).feedIndex ∧
        ((apply feed a).pool s).url = (feed.pool s).url := by
  cases a with
  | setUrls | scrollTo => cases hm
  | control c =>
    show (viralFeedControl feed c).urls = _ ∧ _
    unfold apply viralFeedControl
    split <;> exact ⟨rfl, rfl, fun _ => ⟨rfl, rfl, rfl⟩⟩
  | loopStores j state =>
    refine ⟨rfl, rfl, fun s => ?_⟩
    have e : (apply feed (.loopStores j state)).pool s =
        if s = j then { feed.pool j with state := state } else feed.pool s := rfl
    rw [e]
    by_cases hs : s = j
    · rw [if_pos hs, hs]
      exact ⟨rfl, rfl, rfl⟩
    · rw [if_neg hs]
      exact ⟨rfl, rfl, rfl⟩

theorem Forward.still {a : Act} (h : Forward urls k feed) (hm : a.moves = false) :
    Forward urls k (apply feed a) := by
  obtain ⟨hurls, hcreated, hslot⟩ := apply_still feed hm
  refine ⟨hurls.trans h.list, apply_poolOk a h.pool, fun j h1 h2 => ?_, fun s hs => ?_,
    fun s => ?_, hcreated.trans h.made⟩
  · obtain ⟨⟨hmp, hnum⟩, hurl⟩ := h.live j h1 h2
    obtain ⟨e1, e2, e3⟩ := hslot (slotOf j)
    exact ⟨⟨(congrArg Option.isSome e1).trans hmp, e2.trans hnum⟩, e3.trans hurl⟩
  · rw [(hslot s).1] at hs
    rw [(hslot s).2.1]
    exact h.only s hs
  · rw [(hslot s).2.1]
    exact h.top s

/-- A feed on which nothing has been played. -/
structure Blank (feed : ViralFeed) : Prop where
  empty : ∀ s, (feed.pool s).mp = none ∧ (feed.pool s).feedIndex = 0
  none : feed.created = []

theorem Blank.still {a : Act} (h : Blank feed) (hm : a.moves = false) : Blank (apply feed a) := by
  obtain ⟨_, hcreated, hslot⟩ := apply_still feed hm
  refine ⟨fun s => ?_, hcreated.trans h.none⟩
  obtain ⟨e1, e2, _⟩ := hslot s
  exact ⟨e1.trans (h.empty s).1, e2.trans (h.empty s).2⟩

/-- The first swipe fills every slot of the window, and the others stay empty. -/
theorem Blank.slot_first (h : Blank feed) (hv : feed.Valid 0) (s : Slot) :
    (∃ m, Ahead feed 0 s m ∧ NewFor feed.urls (0 + m) ((viralFeedScrollTo feed 0).pool s)) ∨
      (∀ m, ¬ Ahead feed 0 s m) ∧ (viralFeedScrollTo feed 0).pool s = feed.pool s := by
  cases scrollTo_slotAfter hv s with
  | kept m ha hnum hlive _ =>
    rw [(h.empty s).2] at hnum
    have hm : m = 0 := by omega
    have := hlive hm
    rw [(h.empty s).1] at this
    cases this
  | renewed m ha _ hnew => exact Or.inl ⟨m, ha, hnew⟩
  | released _ hr _ =>
    have := hr.pos
    change (0 : Int) ≤ 0 - 2 - 1 at this
    omega
  | untouched hout _ hvp => exact Or.inr ⟨hout, hvp⟩

/-- The first swipe makes players for video 0, and for videos 1 and 2 if they are in the list. -/
theorem Blank.created_first (h : Blank feed) (hv : feed.Valid 0) :
    (viralFeedScrollTo feed 0).created = indices (windowLast feed.urls.length 0 + 1).toNat := by
  have hn : 0 < feed.urls.length := by
    have := hv.2
    unfold ViralFeed.urlCount at this
    omega
  have hdead : ¬ LiveAt feed 0 := fun hl => by
    have := hl.1
    unfold ViralFeed.slot at this
    rw [(h.empty _).1] at this
    cases this
  have hpre : ∀ m : Nat, 0 < m → preloaded feed 0 m =
      if (0 : Int) + m < feed.urls.length then [(0 : Int) + m] else [] := by
    intro m hm
    have hne : (feed.slot (0 + m)).feedIndex ≠ 0 + m := by
      unfold ViralFeed.slot
      rw [(h.empty _).2]
      omega
    simp only [preloaded, ViralFeed.urlCount, ne_eq, hne, not_false_eq_true, and_true]
  rw [scrollTo_created hv, if_neg hdead, h.none, hpre 1 (by decide), hpre 2 (by decide)]
  show _ = indices (min ((feed.urls.length : Int) - 1) (0 + 2) + 1).toNat
  rcases Nat.lt_or_ge feed.urls.length 3 with hlt | hge
  · have hcases : feed.urls.length = 1 ∨ feed.urls.length = 2 := by omega
    rcases hcases with e | e <;> rw [e] <;> rfl
  · have e : (min ((feed.urls.length : Int) - 1) (0 + 2) + 1).toNat = 3 := by omega
    rw [e, if_pos (by omega), if_pos (by omega)]
    rfl

/-- **The first swipe**: the ring is empty, and the window at video 0 is filled. -/
theorem forward_first (h : Blank feed) (hu : feed.urls = urls) (hn : 0 < urls.length) :
    Forward urls 0 (viralFeedScrollTo feed 0) := by
  subst hu
  have hv : feed.Valid 0 := by
    refine ⟨Int.le_refl 0, ?_⟩
    unfold ViralFeed.urlCount
    omega
  have hpool : PoolOk feed := by
    constructor <;> intro s mp hmp <;> rw [(h.empty s).1] at hmp <;> cases hmp
  have hbound : ∀ {s : Slot} {m : Nat}, Ahead feed 0 s m →
      windowFirst 0 ≤ (0 : Int) + m ∧ (0 : Int) + m ≤ windowLast feed.urls.length 0 := by
    intro s m ha
    have h1 := ha.near
    have h2 := ha.listed
    unfold ViralFeed.urlCount at h2
    change m ≤ 2 at h1
    show max 0 ((0 : Int) - 2) ≤ 0 + m ∧
      (0 : Int) + m ≤ min ((feed.urls.length : Int) - 1) (0 + 2)
    omega
  refine ⟨scrollTo_urls feed 0, poolOk_swipe.scrollTo 0 hpool, fun j h1 h2 => ?_,
    fun s hs => ?_, fun s => ?_, h.created_first hv⟩
  · change max 0 ((0 : Int) - 2) ≤ j at h1
    change j ≤ min ((feed.urls.length : Int) - 1) (0 + 2) at h2
    have ha : Ahead feed 0 (slotOf j) j.toNat := by
      refine ⟨by show j.toNat ≤ 2; omega, ?_, by congr 1; omega⟩
      unfold ViralFeed.urlCount
      omega
    rcases h.slot_first hv (slotOf j) with ⟨m, hm, hnew⟩ | ⟨hout, _⟩
    · have e : (0 : Int) + m = j := by
        have h3 := slotOf_eq_iff.mp hm.slot
        have h4 := hm.near
        change m ≤ 2 at h4
        omega
      rw [e] at hnew
      exact ⟨⟨hnew.1, hnew.2.1⟩, hnew.2.2⟩
    · exact absurd ha (hout _)
  · rcases h.slot_first hv s with ⟨m, hm, hnew⟩ | ⟨_, e⟩
    · rw [hnew.2.1]
      exact hbound hm
    · rw [e, (h.empty s).1] at hs
      cases hs
  · rcases h.slot_first hv s with ⟨m, hm, hnew⟩ | ⟨_, e⟩
    · rw [hnew.2.1]
      exact (hbound hm).2
    · rw [e, (h.empty s).2]
      show (0 : Int) ≤ min ((feed.urls.length : Int) - 1) (0 + 2)
      omega

theorem windowFirst_eq (k : Nat) : windowFirst k = max 0 ((k : Int) - 2) := rfl

theorem windowLast_eq (n k : Nat) : windowLast n k = min ((n : Int) - 1) (k + 2) := rfl

theorem windowFirst_succ (k : Nat) : windowFirst (k + 1) = max 0 ((k : Int) - 1) := by
  rw [windowFirst_eq]
  omega

theorem windowLast_succ (n k : Nat) : windowLast n (k + 1) = min ((n : Int) - 1) (k + 3) := by
  rw [windowLast_eq]
  omega

section Step

variable (h : Forward urls k feed) (hk : k + 1 < urls.length)
include h

theorem Forward.urlCount : feed.urlCount = urls.length := by
  unfold ViralFeed.urlCount
  rw [h.list]

include hk

theorem Forward.valid : feed.Valid ((k + 1 : Nat) : Int) := by
  have := h.urlCount
  exact ⟨by omega, by omega⟩

/-- The videos of the new window are live, with their urls. -/
theorem forward_step_live (j : Int) (h1 : windowFirst (k + 1) ≤ j)
    (h2 : j ≤ windowLast urls.length (k + 1)) :
    LiveAt (viralFeedScrollTo feed ((k + 1 : Nat) : Int)) j ∧
      ((viralFeedScrollTo feed ((k + 1 : Nat) : Int)).slot j).url = urls[j.toNat]? := by
  have hcount := h.urlCount
  rw [windowFirst_succ] at h1
  rw [windowLast_succ] at h2
  have hold : j ≤ (k : Int) + 2 → LiveAt feed j ∧ (feed.slot j).url = urls[j.toNat]? := fun hj =>
    h.live j (by rw [windowFirst_eq]; omega) (by rw [windowLast_eq]; omega)
  have hnew : (k : Int) + 3 ≤ j → Ahead feed ((k + 1 : Nat) : Int) (slotOf j) 2 := fun hj =>
    ⟨Nat.le_refl 2, by omega, by congr 1; omega⟩
  have hsame : ∀ {m : Nat}, Ahead feed ((k + 1 : Nat) : Int) (slotOf j) m →
      ((k + 1 : Nat) : Int) + m = j := by
    intro m ha
    have hs := slotOf_eq_iff.mp ha.slot
    have hm := ha.near
    change m ≤ 2 at hm
    omega
  cases scrollTo_slotAfter (h.valid hk) (slotOf j) with
  | kept m ha hnum hl hvp =>
    -- a slot that carries the number carries one of the old window
    have hle := h.top (slotOf j)
    rw [hnum, hsame ha, windowLast_eq] at hle
    obtain ⟨hlive, hurl⟩ := hold (by omega)
    exact ⟨(liveAt_of_slot hvp).mpr hlive, (congrArg ViralPlayer.url hvp).trans hurl⟩
  | renewed m ha _ hmade =>
    rw [hsame ha, h.list] at hmade
    exact ⟨⟨hmade.1, hmade.2.1⟩, hmade.2.2⟩
  | released hout hr _ =>
    have hs := slotOf_eq_iff.mp hr.slot
    change j % 5 = (((k + 1 : Nat) : Int) - 2 - 1) % 5 at hs
    exact absurd (hnew (by omega)) (hout 2)
  | untouched hout _ hvp =>
    have hlt : j < (k : Int) + 3 := Int.not_le.mp fun hj => hout 2 (hnew hj)
    obtain ⟨hlive, hurl⟩ := hold (by omega)
    exact ⟨(liveAt_of_slot hvp).mpr hlive, (congrArg ViralPlayer.url hvp).trans hurl⟩

/-- Nothing outside the new window is live, and no number is beyond it. -/
theorem forward_step_only (s : Slot) :
    (((viralFeedScrollTo feed ((k + 1 : Nat) : Int)).pool s).mp.isSome = true →
      windowFirst (k + 1) ≤ ((viralFeedScrollTo feed ((k + 1 : Nat) : Int)).pool s).feedIndex) ∧
    ((viralFeedScrollTo feed ((k + 1 : Nat) : Int)).pool s).feedIndex ≤
      windowLast urls.length (k + 1) := by
  have hcount := h.urlCount
  have htop := h.top s
  rw [windowFirst_succ, windowLast_succ]
  rw [windowLast_eq] at htop
  have hahead : ∀ {m : Nat}, Ahead feed ((k + 1 : Nat) : Int) s m →
      max 0 ((k : Int) - 1) ≤ ((k + 1 : Nat) : Int) + m ∧
        ((k + 1 : Nat) : Int) + m ≤ min ((urls.length : Int) - 1) (k + 3) := by
    intro m ha
    have h1 := ha.near
    have h2 := ha.listed
    change m ≤ 2 at h1
    omega
  cases scrollTo_slotAfter (h.valid hk) s with
  | kept m ha hnum _ hvp =>
    rw [hvp, hnum]
    exact ⟨fun _ => (hahead ha).1, (hahead ha).2⟩
  | renewed m ha _ hnew =>
    rw [hnew.2.1]
    exact ⟨fun _ => (hahead ha).1, (hahead ha).2⟩
  | released _ _ hvp =>
    rw [hvp]
    refine ⟨nofun, ?_⟩
    show (feed.pool s).feedIndex ≤ _
    omega
  | untouched _ hr hvp =>
    rw [hvp]
    refine ⟨fun hs => ?_, by omega⟩
    have hold := (h.only s hs).1
    rw [windowFirst_eq] at hold
    obtain ⟨mp, hmp⟩ := Option.isSome_iff_exists.mp hs
    have hplace := (h.pool.index s mp hmp).2
    -- the player of the video that falls out of the window would be released
    have hne : (feed.pool s).feedIndex ≠ (k : Int) - 2 := by
      intro e
      have hb : ((k + 1 : Nat) : Int) - viralPreloadCount - 1 = (feed.pool s).feedIndex := by
        show ((k + 1 : Nat) : Int) - 2 - 1 = _
        omega
      refine hr ⟨?_, ?_, ?_⟩
      · rw [hb]
        exact hplace.symm
      · rw [hb]
        omega
      · rw [hb]
        unfold LiveAt ViralFeed.slot
        rw [hplace]
        exact ⟨hs, rfl⟩
    omega

/-- Videos `k + 1` and `k + 2` have their players; only `k + 3` can be new. -/
theorem forward_step_made : (viralFeedScrollTo feed ((k + 1 : Nat) : Int)).created =
    indices (windowLast urls.length (k + 1) + 1).toNat := by
  have hcount := h.urlCount
  have hold : ∀ j, (k : Int) + 1 ≤ j → j ≤ (k : Int) + 2 → j < urls.length → LiveAt feed j :=
    fun j h1 h2 h3 =>
      (h.live j (by rw [windowFirst_eq]; omega) (by rw [windowLast_eq]; omega)).1
  have hcur : LiveAt feed ((k + 1 : Nat) : Int) := hold _ (by omega) (by omega) (by omega)
  have hpre1 : preloaded feed ((k + 1 : Nat) : Int) 1 = [] := by
    refine if_neg fun hc => hc.2 (hold _ (by omega) (by omega) ?_).2
    have := hc.1
    omega
  have hpre2 : preloaded feed ((k + 1 : Nat) : Int) 2 =
      if (k : Int) + 3 < urls.length then [(k : Int) + 3] else [] := by
    have hidx : ((k + 1 : Nat) : Int) + (2 : Nat) = (k : Int) + 3 := by omega
    have hle := h.top (slotOf ((k : Int) + 3))
    rw [windowLast_eq] at hle
    have hne : (feed.slot ((k : Int) + 3)).feedIndex ≠ (k : Int) + 3 := by
      unfold ViralFeed.slot
      omega
    unfold preloaded
    rw [hidx, hcount]
    simp only [ne_eq, hne, not_false_eq_true, and_true]
  rw [scrollTo_created (h.valid hk), if_pos hcur, hpre1, hpre2, h.made, windowLast_succ,
    windowLast_eq]
  by_cases hin : (k : Int) + 3 < urls.length
  · have e1 : (min ((urls.length : Int) - 1) (k + 2) + 1).toNat = k + 3 := by omega
    have e2 : (min ((urls.length : Int) - 1) (k + 3) + 1).toNat = k + 3 + 1 := by omega
    rw [if_pos hin, e1, e2, indices_succ (k + 3)]
    rfl
  · have e : (min ((urls.length : Int) - 1) (k + 3) + 1).toNat =
        (min ((urls.length : Int) - 1) (k + 2) + 1).toNat := by omega
    rw [if_neg hin, e]
    exact List.append_nil _

/-- **One swipe on**: the slot of the video three places back gets the video two places ahead, or
    is released at the end of the list. -/
theorem forward_step : Forward urls (k + 1) (viralFeedScrollTo feed ((k + 1 : Nat) : Int)) where
  list := (scrollTo_urls feed _).trans h.list
  pool := poolOk_swipe.scrollTo _ h.pool
  live := forward_step_live h hk
  only s hs := ⟨(forward_step_only h hk s).1 hs, (forward_step_only h hk s).2⟩
  top s := (forward_step_only h hk s).2
  made := forward_step_made h hk

end Step

end Forward

/-! ## 5. The window over whole runs -/

/-- The swipes to the videos `i`, `i + 1`, ... -/
def swipes (i count : Nat) : List Act := (List.range' i count).map fun (j : Nat) => .scrollTo j

section Still

variable {P : ViralFeed → Prop} {t : ViralFeed}
  (hP : ∀ {feed : ViralFeed} {a : Act}, P feed → a.moves = false → P (apply feed a))
include hP

/-- Calls that move nothing, to the end of the run. -/
theorem exec_rest (acts : List Act) : ∀ {feed : ViralFeed}, P feed →
    acts.filter Act.moves = [] → feedMachine.exec feed acts = some t → P t := by
  induction acts with
  | nil =>
    intro feed h _ he
    cases he
    exact h
  | cons a acts ih =>
    intro feed h hf he
    cases hm : a.moves with
    | false =>
      rw [List.filter_cons_of_neg (by rw [hm]; exact Bool.false_ne_true)] at hf
      exact ih (hP h hm) hf he
    | true =>
      rw [List.filter_cons_of_pos hm] at hf
      cases hf

/-- Calls that move nothing, up to the next one that does. -/
theorem exec_next {b : Act} {rest : List Act} (acts : List Act) : ∀ {feed : ViralFeed}, P feed →
    acts.filter Act.moves = b :: rest → feedMachine.exec feed acts = some t →
    ∃ u acts', P u ∧ acts'.filter Act.moves = rest ∧
      feedMachine.exec (apply u b) acts' = some t := by
  induction acts with
  | nil => intro feed _ hf; cases hf
  | cons a acts ih =>
    intro feed h hf he
    cases hm : a.moves with
    | false =>
      rw [List.filter_cons_of_neg (by rw [hm]; exact Bool.false_ne_true)] at hf
      exact ih (hP h hm) hf he
    | true =>
      rw [List.filter_cons_of_pos hm] at hf
      obtain ⟨rfl, hf'⟩ := List.cons.inj hf
      exact ⟨feed, acts, h, hf', he⟩

end Still

/-- From the window at a video, one video at a time. -/
theorem forward_run {urls : List String} (m : Nat) : ∀ {k : Nat} {acts : List Act}
    {feed t : ViralFeed}, Forward urls k feed → k + m < urls.length →
    acts.filter Act.moves = swipes (k + 1) m → feedMachine.exec feed acts = some t →
    Forward urls (k + m) t := by
  induction m with
  | zero =>
    intro k acts feed t h _ hf he
    exact exec_rest Forward.still acts h hf he
  | succ m ih =>
    intro k acts feed t h hlt hf he
    obtain ⟨u, acts', hu, hf', he'⟩ := exec_next Forward.still acts h hf he
    have hrun := ih (forward_step hu (by omega)) (by omega) hf' he'
    have e : k + 1 + m = k + (m + 1) := by omega
    exact e ▸ hrun

/-- From a fresh feed, to the window at video `k`. -/
theorem forward_fresh {urls : List String} {k : Nat} {acts : List Act} {feed t : ViralFeed}
    (h : Blank feed) (hk : k < urls.length)
    (hf : acts.filter Act.moves = .setUrls urls :: swipes 0 (k + 1))
    (he : feedMachine.exec feed acts = some t) : Forward urls k t := by
  obtain ⟨u, acts', hu, hf', he'⟩ := exec_next Blank.still acts h hf he
  -- the list is there, the ring is empty until the first swipe
  have hset : Blank (apply u (.setUrls urls)) ∧ (apply u (.setUrls urls)).urls = urls :=
    ⟨⟨hu.empty, hu.none⟩, rfl⟩
  obtain ⟨v, acts'', ⟨hv, hlist⟩, hf'', he''⟩ := exec_next
    (P := fun f => Blank f ∧ f.urls = urls)
    (fun h hm => ⟨h.1.still hm, (apply_still _ hm).1.trans h.2⟩) acts' hset hf' he'
  have hrun := forward_run k (forward_first hv hlist (by omega)) (by omega) hf'' he''
  have e : 0 + k = k := by omega
  exact e ▸ hrun

/-- **The sliding window**: on a fresh feed, `set_urls` with a list and then `scroll_to(0)` to
    `scroll_to(k)`, with any controls and any stores of the message loops in between. The indices
    with a live player are those from `k - 2` to `k + 2` that are in the list; each is live in
    its slot with its url; and over the whole run every index up to the window's end had exactly
    one player made, and no other had any. -/
theorem slidingWindow {urls : List String} {k : Nat} {acts : List Act} {feed : ViralFeed}
    (hk : k < urls.length) (hacts : acts.filter Act.moves = .setUrls urls :: swipes 0 (k + 1))
    (hrun : feedMachine.exec viralFeedCreate acts = some feed) :
    (∀ j, (∃ s, (feed.pool s).mp.isSome = true ∧ (feed.pool s).feedIndex = j) ↔
      max 0 ((k : Int) - 2) ≤ j ∧ j ≤ min ((urls.length : Int) - 1) (k + 2)) ∧
    (∀ j, max 0 ((k : Int) - 2) ≤ j → j ≤ min ((urls.length : Int) - 1) (k + 2) →
      LiveAt feed j ∧ (feed.slot j).url = urls[j.toNat]?) ∧
    feed.created = indices (min (urls.length - 1) (k + 2) + 1) := by
  have hfresh : Blank viralFeedCreate := ⟨fun _ => ⟨rfl, rfl⟩, rfl⟩
  have h := forward_fresh hfresh hk hacts hrun
  refine ⟨fun j => ⟨?_, fun hj => ?_⟩, h.live, ?_⟩
  · rintro ⟨s, hs, rfl⟩
    exact h.only s hs
  · exact ⟨slotOf j, (h.live j hj.1 hj.2).1⟩
  · rw [h.made, windowLast_eq]
    congr 1
    omega

theorem slidingWindow_sixVideos : ∃ feed,
    feedMachine.exec viralFeedCreate (.setUrls sixUrls :: swipes 0 5) = some feed ∧
    feed.created = [0, 1, 2, 3, 4, 5] ∧ LiveAt feed 2 ∧ ¬ LiveAt feed 1 := by
  have h : (feedMachine.exec viralFeedCreate (.setUrls sixUrls :: swipes 0 5)).isSome = true := by
    decide
  obtain ⟨feed, hf⟩ := Option.isSome_iff_exists.mp h
  have hk : 4 < sixUrls.length := by decide
  obtain ⟨hset, hlive, hmade⟩ := slidingWindow hk (by decide) hf
  refine ⟨feed, hf, hmade, (hlive 2 (by decide) (by decide)).1, fun h1 => ?_⟩
  exact absurd ((hset 1).mp ⟨slotOf 1, h1⟩).1 (by decide)

end Viral.Feed
