/-
  File:      ViralEngine/Feed/Bounds.lean
  Subject:   WHICH PLACE OF THE POOL THE CALLS COMPUTE FOR THE CURRENT VIDEO
             (ViralEngine/core/ViralEngine.c, bridge/android/ViralEngine_jni.c,
             bridge/ios/ViralEngine_iOS.m).

  `viral_feed_play`, the other controls and the bridges' surface calls take the place
  `current_index % VIRAL_POOL_SIZE` and look at nothing first. The remainder of C has the sign of
  the dividend, and `current_index` is `-1` until a swipe is accepted.

  * `PublicCall`, `PublicCall.run`, `PublicCall.poolIndex` -- the calls, what they do to the feed,
    and the place they compute;
  * `InPool`, `inPool_iff`, `viralGetPoolSlot_isSome` -- a place inside the array;
  * `Swiped`, `behind_currentIndex` -- a swipe was accepted, and only then the index is not `-1`;
  * `poolIndexInBounds` -- **exactly then every call computes a place inside.**
-/
import Mathlib.Data.List.Induction
import ViralEngine.Feed.Ring

namespace Viral.Feed

open Viral.Lib

/-! ## 1. The public calls -/

/-- The calls of the core, `nativeSetSurface` of the Android bridge (with a surface or without)
    and `setLayer` of the iOS bridge. -/
inductive PublicCall where
  | setUrls (urls : List String)
  | scrollTo (index : Int)
  | play
  | pause
  | mute (muted : Bool)
  | setLoop (loop : Bool)
  | seek (ms : Int)
  | getPosition
  | getDuration
  | currentIndex
  | setSurface
  | clearSurface
  | nativeSetSurface (surface : Bool)
  | setLayer
  deriving DecidableEq, Repr

/-- `viral_feed_play`. -/
def viralFeedPlay (feed : ViralFeed) : ViralFeed := viralFeedControl feed .start

/-- `viral_feed_pause`. -/
def viralFeedPause (feed : ViralFeed) : ViralFeed := viralFeedControl feed .pause

/-- `viral_feed_mute`. -/
def viralFeedMute (feed : ViralFeed) (muted : Bool) : ViralFeed :=
  viralFeedControl feed (.setVolume muted)

/-- `viral_feed_set_loop`. -/
def viralFeedSetLoop (feed : ViralFeed) (loop : Bool) : ViralFeed :=
  viralFeedControl feed (.setLoop loop)

/-- `viral_feed_seek`. -/
def viralFeedSeek (feed : ViralFeed) (ms : Int) : ViralFeed := viralFeedControl feed (.seekTo ms)

/-- `viral_feed_get_position`. -/
def viralFeedGetPosition (feed : ViralFeed) : ViralFeed := viralFeedControl feed .getPosition

/-- `viral_feed_get_duration`. -/
def viralFeedGetDuration (feed : ViralFeed) : ViralFeed := viralFeedControl feed .getDuration

/-- `viral_feed_current_index`. -/
def viralFeedCurrentIndex (feed : ViralFeed) : Int := feed.currentIndex

/-- What a call does to the feed. Which surface there is has no part here (Feed/Surface.lean). -/
def PublicCall.run (feed : ViralFeed) : PublicCall → ViralFeed
  | .setUrls urls => viralFeedSetUrls feed urls
  | .scrollTo index => viralFeedScrollTo feed index
  | .play => viralFeedPlay feed
  | .pause => viralFeedPause feed
  | .mute muted => viralFeedMute feed muted
  | .setLoop loop => viralFeedSetLoop feed loop
  | .seek ms => viralFeedSeek feed ms
  | .getPosition => viralFeedGetPosition feed
  | .getDuration => viralFeedGetDuration feed
  | .currentIndex | .setSurface | .clearSurface | .nativeSetSurface _ | .setLayer => feed

/-- The place in the pool that a call computes for the current video: `viral_get_pool_slot(feed,
    feed->current_index)`, in the bridges `viral_feed_get_player(feed,
    viral_feed_current_index(feed))`. -/
def PublicCall.poolIndex (feed : ViralFeed) : PublicCall → Option Int
  | .play | .pause | .mute _ | .setLoop _ | .seek _ | .getPosition | .getDuration =>
    some (cRem feed.currentIndex viralPoolSize)
  | .nativeSetSurface _ | .setLayer => some (cRem (viralFeedCurrentIndex feed) viralPoolSize)
  | .setUrls _ | .scrollTo _ | .currentIndex | .setSurface | .clearSurface => none

/-- A call returns, or a message loop stores a state in between. -/
inductive Event where
  | call (c : PublicCall)
  | loopStores (k : Slot) (state : ViralState)
  deriving DecidableEq, Repr

/-- The feed behind a call, or behind a store of a loop. -/
def Event.run (feed : ViralFeed) : Event → ViralFeed
  | .call c => c.run feed
  | .loopStores k state => feed.setSlot k { feed.pool k with state := state }

/-- The feed behind these events. -/
def behind (events : List Event) : ViralFeed := events.foldl Event.run viralFeedCreate

/-! ## 2. Places -/

/-- The place is one of the array. -/
def InPool (place : Int) : Prop := 0 ≤ place ∧ place < viralPoolSize

instance (place : Int) : Decidable (InPool place) := inferInstanceAs (Decidable (_ ∧ _))

/-- **The remainder is a place exactly for indices that are not negative**, or a multiple. -/
theorem inPool_iff (index : Int) :
    InPool (cRem index viralPoolSize) ↔ 0 ≤ index ∨ cRem index viralPoolSize = 0 := by
  have hsize : (viralPoolSize : Int) = 5 := rfl
  unfold InPool
  constructor
  · intro h
    rcases Int.lt_or_le index 0 with hneg | hpos
    · right
      have e : -cRem index viralPoolSize = (-index) % 5 := by
        rw [← Int.tmod_eq_emod_of_nonneg (show 0 ≤ -index by omega), Int.neg_tmod]
        rfl
      have h0 : 0 ≤ (-index) % 5 := Int.emod_nonneg _ (by omega)
      omega
    · exact Or.inl hpos
  · intro h
    rcases h with hpos | hzero
    · have e : cRem index viralPoolSize = index % 5 := Int.tmod_eq_emod_of_nonneg hpos
      have h0 : 0 ≤ index % 5 := Int.emod_nonneg index (by omega)
      have h5 : index % 5 < 5 := Int.emod_lt_of_pos index (by omega)
      omega
    · omega

/-- The slot of an index is one of the array exactly there. -/
theorem viralGetPoolSlot_isSome (index : Int) :
    (viralGetPoolSlot index).isSome = true ↔ InPool (cRem index viralPoolSize) := by
  unfold viralGetPoolSlot InPool
  dsimp only
  split
  · rename_i h
    exact iff_of_true rfl h
  · rename_i h
    exact iff_of_false Bool.false_ne_true h

/-! ## 3. Runs -/

/-- **A swipe was accepted**: its index was one of the list when it came. -/
def Swiped (events : List Event) : Prop :=
  ∃ before index later, events = before ++ .call (.scrollTo index) :: later ∧
    (behind before).Valid index

/-- No event but an accepted swipe changes the index. -/
theorem run_currentIndex {feed : ViralFeed} {e : Event}
    (h : ∀ index, e = .call (.scrollTo index) → ¬ feed.Valid index) :
    (e.run feed).currentIndex = feed.currentIndex := by
  have hcontrol : ∀ c, (viralFeedControl feed c).currentIndex = feed.currentIndex :=
    fun c => (apply_noSwipe (a := .control c) nofun).1
  cases e with
  | loopStores k state => rfl
  | call c =>
    cases c with
    | scrollTo index => exact (apply_noSwipe (a := .scrollTo index) (by
        intro i hi
        cases hi
        exact h index rfl)).1
    | play | pause | mute | setLoop | seek | getPosition | getDuration => exact hcontrol _
    | setUrls | currentIndex | setSurface | clearSurface | nativeSetSurface | setLayer => rfl

theorem behind_append (events : List Event) (e : Event) :
    behind (events ++ [e]) = e.run (behind events) := by
  unfold behind
  rw [List.foldl_append]
  rfl

/-- An event more. -/
theorem swiped_append (events : List Event) (e : Event) :
    Swiped (events ++ [e]) ↔
      Swiped events ∨ ∃ index, e = .call (.scrollTo index) ∧ (behind events).Valid index := by
  constructor
  · intro h
    obtain ⟨before, index, later, heq, hv⟩ := h
    rcases List.eq_nil_or_concat later with rfl | ⟨later, f, rfl⟩
    · obtain ⟨h1, h2⟩ := List.append_inj' heq rfl
      rw [h1]
      exact Or.inr ⟨index, List.singleton_inj.mp h2, hv⟩
    · have hsplit : before ++ .call (.scrollTo index) :: (later ++ [f]) =
          (before ++ .call (.scrollTo index) :: later) ++ [f] := by simp
      rw [List.concat_eq_append, hsplit] at heq
      exact Or.inl ⟨before, index, later, (List.append_inj' heq rfl).1, hv⟩
  · intro h
    rcases h with ⟨before, index, later, heq, hv⟩ | ⟨index, heq, hv⟩
    · refine ⟨before, index, later ++ [e], ?_, hv⟩
      rw [heq]
      simp
    · exact ⟨events, index, [], by rw [heq], hv⟩

/-- **The index is `-1` until a swipe is accepted**, and never again. -/
theorem behind_currentIndex (events : List Event) :
    (Swiped events → 0 ≤ (behind events).currentIndex) ∧
      (¬ Swiped events → (behind events).currentIndex = -1) := by
  induction events using List.reverseRecOn with
  | nil =>
    refine ⟨fun h => ?_, fun _ => rfl⟩
    obtain ⟨before, index, later, heq, _⟩ := h
    exact absurd heq (by simp)
  | append_singleton events e ih =>
    rw [behind_append, swiped_append]
    by_cases hswipe : ∃ index, e = .call (.scrollTo index) ∧ (behind events).Valid index
    · obtain ⟨index, rfl, hv⟩ := hswipe
      refine ⟨fun _ => ?_, fun h => absurd (Or.inr ⟨index, rfl, hv⟩) h⟩
      have hcur : (Event.run (behind events) (.call (.scrollTo index))).currentIndex = index :=
        (scrollTo_current hv).1
      rw [hcur]
      exact hv.1
    · have hkept : (e.run (behind events)).currentIndex = (behind events).currentIndex :=
        run_currentIndex fun index he hv => hswipe ⟨index, he, hv⟩
      rw [hkept]
      exact ⟨fun h => ih.1 (h.resolve_right hswipe), fun h => ih.2 fun hs => h (Or.inl hs)⟩

/-- **Every call computes a place of the pool exactly if a swipe was accepted before**, behind any
    sequence of calls. -/
theorem poolIndexInBounds (events : List Event) :
    (∀ c place, PublicCall.poolIndex (behind events) c = some place → InPool place) ↔
      Swiped events := by
  obtain ⟨hswiped, hfresh⟩ := behind_currentIndex events
  constructor
  · intro h
    by_contra hno
    have hplace := h .play _ rfl
    rw [hfresh hno] at hplace
    exact absurd hplace (by decide)
  · intro hs c place hc
    have hpos : InPool (cRem (behind events).currentIndex viralPoolSize) :=
      (inPool_iff _).mpr (Or.inl (hswiped hs))
    cases c <;> first | cases hc; exact hpos | cases hc

/-- **In front of the first swipe** the surface of the app is set, and the call takes place `-1`. -/
theorem poolIndexInBounds_fresh :
    PublicCall.poolIndex (behind [.call (.setUrls ["a"])]) (.nativeSetSurface true) = some (-1) ∧
      ¬ InPool (-1) ∧
      viralGetPoolSlot (behind [.call (.setUrls ["a"]), .call (.scrollTo 1)]).currentIndex =
        none := by
  decide

end Viral.Feed
