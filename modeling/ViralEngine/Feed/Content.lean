/-
  File:      ViralEngine/Feed/Content.lean
  Subject:   DO THE PLAYERS SHOW THE VIDEOS OF THE LIST?

  `viral_feed_set_urls` replaces the list and touches neither the pool nor the position;
  `viral_feed_scroll_to` reuses every slot whose `feed_index` matches. So a new list has to
  agree with the players that are there.

  * `KeepsUrls` -- a new list reaches beyond the position and has, at the index of every live
    player, the url the player was made from;
  * `Coherent`, `apply_coherent` -- the ring and the list agree, kept by every such call;
  * `Content` -- the position is in the list, and behind every swipe the current video and the
    preloaded ones are made from the list's urls;
  * `feedCoherent` -- this holds in every run whose `set_urls` calls meet `KeepsUrls`, and a
    `set_urls` that does not meet it breaks it;
  * `content_listReplaced` -- a refreshed list of the same length keeps showing the old video,
    and a shorter one leaves the position outside.
-/
import ViralEngine.Feed.Ring

namespace Viral.Feed

open Viral.Lib

/-! ## 1. The condition and the invariant -/

/-- The new list reaches beyond the position, and has the url of every live player of its range at
    the player's index. -/
def KeepsUrls (feed : ViralFeed) : Act → Prop
  | .setUrls urls => feed.currentIndex < urls.length ∧
      ∀ k : Slot, (feed.pool k).mp.isSome = true → (feed.pool k).feedIndex < urls.length →
        (feed.pool k).url = urls[(feed.pool k).feedIndex.toNat]?
  | _ => True

instance (feed : ViralFeed) : ∀ a : Act, Decidable (KeepsUrls feed a)
  | .setUrls _ => inferInstanceAs (Decidable (_ ∧ ∀ _ : Slot, _))
  | .scrollTo _ | .control _ | .loopStores _ _ => inferInstanceAs (Decidable True)

/-- Every live player of the list's range was made from the url the list has at its index. -/
def ContentOk (feed : ViralFeed) : Prop :=
  ∀ k : Slot, (feed.pool k).mp.isSome = true → (feed.pool k).feedIndex < feed.urlCount →
    (feed.pool k).url = feed.urls[(feed.pool k).feedIndex.toNat]?

/-- The position is in the list (or in front of it), and the ring agrees with the list. -/
structure Coherent (feed : ViralFeed) : Prop where
  position : feed.currentIndex < feed.urlCount
  content : ContentOk feed

theorem contentOk_frame {f g : ViralFeed} (h : ContentOk f) (hpool : g.pool = f.pool)
    (hurls : g.urls = f.urls) : ContentOk g := by
  unfold ContentOk ViralFeed.urlCount
  rw [hpool, hurls]
  exact h

/-! ## 2. The parts of a swipe keep the slots coherent -/

theorem contentOk_initSlot {feed : ViralFeed} {index : Int} (k : Slot) (h : ContentOk feed)
    (hv : feed.Valid index) : ContentOk (viralPlayerInitSlot feed k index) := by
  obtain ⟨hpool, hurls, _, _⟩ := initSlot_eq k hv
  intro j hlive hlt
  rw [initSlot_urlCount k hv] at hlt
  rw [hurls]
  rw [hpool] at hlive hlt ⊢
  by_cases e : j = k
  · simp only [if_pos e]
    rfl
  · simp only [if_neg e] at hlive hlt ⊢
    exact h j hlive hlt

theorem contentOk_setSlot {feed : ViralFeed} {k : Slot} {vp : ViralPlayer} (h : ContentOk feed)
    (hvp : vp.mp.isSome = true → vp.feedIndex = (feed.pool k).feedIndex ∧
      vp.url = (feed.pool k).url ∧ (feed.pool k).mp.isSome = true) :
    ContentOk (feed.setSlot k vp) := by
  intro j hlive hlt
  simp only [ViralFeed.setSlot] at hlive hlt ⊢
  by_cases e : j = k
  · simp only [if_pos e] at hlive hlt ⊢
    obtain ⟨hidx, hurl, hsome⟩ := hvp hlive
    rw [hidx] at hlt ⊢
    rw [hurl]
    exact h k hsome hlt
  · simp only [if_neg e] at hlive hlt ⊢
    exact h j hlive hlt

theorem contentOk_swipe : SwipeInvariant ContentOk where
  frame _ _ h hpool hurls _ := contentOk_frame h hpool hurls
  init _ _ h hv := contentOk_initSlot _ h hv
  release _ _ h := contentOk_setSlot h nofun

/-! ## 3. Every call keeps the ring and the list together -/

theorem apply_coherent {feed : ViralFeed} {a : Act} (hc : KeepsUrls feed a) (h : Coherent feed) :
    Coherent (apply feed a) := by
  cases a with
  | setUrls urls => exact ⟨hc.1, hc.2⟩
  | scrollTo index =>
    refine ⟨?_, contentOk_swipe.scrollTo index h.content⟩
    show (viralFeedScrollTo feed index).currentIndex < (viralFeedScrollTo feed index).urlCount
    unfold ViralFeed.urlCount
    rw [scrollTo_urls]
    by_cases hv : feed.Valid index
    · rw [(scrollTo_current hv).1]
      exact hv.2
    · unfold viralFeedScrollTo
      rw [if_neg hv]
      exact h.position
  | control c =>
    show Coherent (viralFeedControl feed c)
    unfold viralFeedControl
    split <;> exact ⟨h.position, h.content⟩
  | loopStores k state =>
    exact ⟨h.position, contentOk_setSlot h.content fun hsome => ⟨rfl, rfl, hsome⟩⟩

theorem reach_coherent {feed : ViralFeed} (h : feedMachine.Reach KeepsUrls feed) :
    Coherent feed := by
  refine Machine.Steps.invariant (I := Coherent) h ⟨?_, nofun⟩ ?_
  · show (-1 : Int) < 0
    omega
  · intro u a v hu hc hs
    cases hs
    exact apply_coherent hc hu

/-! ## 4. What the user sees -/

/-- The position is in the list, and behind every successful swipe the live players of the current
    video and of the preloaded ones are made from the list's urls at their indices. -/
def Content (feed : ViralFeed) : Prop :=
  (0 ≤ feed.currentIndex → feed.currentIndex < feed.urlCount) ∧
  ∀ index, feed.Valid index → ∀ j, index ≤ j →
    j ≤ min (index + viralPreloadCount) (feed.urlCount - 1) →
    LiveAt (viralFeedScrollTo feed index) j →
    ((viralFeedScrollTo feed index).slot j).url = feed.urls[j.toNat]?

theorem content_of_coherent {feed : ViralFeed} (h : Coherent feed) : Content feed := by
  refine ⟨fun _ => h.position, ?_⟩
  intro index _ j _ hj hlive
  have hafter := contentOk_swipe.scrollTo index h.content (slotOf j) hlive.1
  have hidx : ((viralFeedScrollTo feed index).pool (slotOf j)).feedIndex = j := hlive.2
  unfold ViralFeed.urlCount at hafter
  rw [hidx, scrollTo_urls] at hafter
  refine hafter ?_
  unfold ViralFeed.urlCount at hj
  omega

/-- A swipe to a video with a live player reuses it. -/
theorem scrollTo_reuses {feed : ViralFeed} {index : Int} (hv : feed.Valid index)
    (hlive : LiveAt feed index) : (viralFeedScrollTo feed index).slot index = feed.slot index := by
  obtain ⟨played, loaded, hs, e⟩ := scrollTo_swipe hv
  rw [e, ← hs.reused hlive, ← hs.loaded_current]
  rcases releaseBehind_slot loaded (index - viralPreloadCount - 1) index with e' | ⟨hmod, _⟩
  · exact e'
  · have := slotOf_eq_iff.mp hmod
    change index % 5 = (index - 2 - 1) % 5 at this
    omega

/-- A `set_urls` behind which the content is right meets the condition: a swipe to a live player's
    index would show it. -/
theorem keepsUrls_of_content {feed : ViralFeed} {urls : List String} (hok : PoolOk feed)
    (h : Content (viralFeedSetUrls feed urls)) : KeepsUrls feed (.setUrls urls) := by
  obtain ⟨hpos, hcontent⟩ := h
  refine ⟨?_, ?_⟩
  · by_cases hc : 0 ≤ feed.currentIndex
    · exact hpos hc
    · have : (0 : Int) ≤ urls.length := Int.natCast_nonneg _
      omega
  · intro k hsome hlt
    obtain ⟨mp, hmp⟩ := Option.isSome_iff_exists.mp hsome
    obtain ⟨h0, hk⟩ := hok.index k mp hmp
    generalize hidx : (feed.pool k).feedIndex = index at h0 hk hlt
    have hv : (viralFeedSetUrls feed urls).Valid index := ⟨h0, hlt⟩
    have hslot : (viralFeedSetUrls feed urls).slot index = feed.pool k := by
      show feed.pool (slotOf index) = _
      rw [hk]
    have hlive : LiveAt (viralFeedSetUrls feed urls) index := by
      unfold LiveAt
      rw [hslot]
      exact ⟨hsome, hidx⟩
    have hafter := scrollTo_reuses hv hlive
    have hurl := hcontent index hv index (by omega)
      (by
        have h2 : (viralPreloadCount : Int) = 2 := rfl
        have := hv.2
        omega)
      ((liveAt_of_slot hafter).mpr hlive)
    rw [hafter, hslot] at hurl
    exact hurl

/-- **The feed shows the list.** In every run whose `set_urls` calls reach beyond the position and
    keep the urls of the live players, the position is in the list and behind every swipe the
    current video and the preloaded ones come from the list; and a `set_urls` that does not meet
    this breaks it at once or with the next swipe. -/
theorem feedCoherent {feed : ViralFeed} (h : feedMachine.Reach KeepsUrls feed) :
    Content feed ∧
      ∀ urls, Content (viralFeedSetUrls feed urls) ↔ KeepsUrls feed (.setUrls urls) := by
  have hco := reach_coherent h
  refine ⟨content_of_coherent hco, fun urls => ⟨keepsUrls_of_content (reach_poolOk h).1, ?_⟩⟩
  intro hk
  exact content_of_coherent (apply_coherent (a := .setUrls urls) hk hco)

theorem feedCoherent_append : ∃ feed, feedMachine.Reach KeepsUrls feed ∧
    feed.urls = ["a", "b", "c"] ∧ feed.currentIndex = 1 ∧ Content feed := by
  have h : (feedMachine.exec viralFeedCreate
      [.setUrls ["a", "b"], .scrollTo 1, .setUrls ["a", "b", "c"], .scrollTo 1]).map
        (fun f => (f.urls, f.currentIndex)) = some (["a", "b", "c"], 1) := by
    decide
  obtain ⟨feed, hf, hobs⟩ := Option.map_eq_some_iff.mp h
  have hreach : feedMachine.Reach KeepsUrls feed := Machine.steps_of_exec hf (by decide)
  simp only [Prod.mk.injEq] at hobs
  exact ⟨feed, hreach, hobs.1, hobs.2, (feedCoherent hreach).1⟩

/-- **A refreshed list and a shorter list**: after `set_urls` with other urls a swipe to video 0
    still has the player made from the old url, and after `set_urls` with one url the position
    is 1. -/
theorem content_listReplaced :
    (∃ feed, feedMachine.Reach Machine.Any feed ∧ feed.Valid 0 ∧ feed.urls = ["x", "y"] ∧
      LiveAt (viralFeedScrollTo feed 0) 0 ∧
      ((viralFeedScrollTo feed 0).slot 0).url = some "a" ∧ ¬ Content feed) ∧
    (∃ feed, feedMachine.Reach Machine.Any feed ∧ feed.currentIndex = 1 ∧ feed.urlCount = 1 ∧
      ¬ Content feed) := by
  constructor
  · have h : (feedMachine.exec viralFeedCreate
        [.setUrls ["a", "b"], .scrollTo 0, .setUrls ["x", "y"]]).map (fun f =>
          (decide (f.Valid 0), f.urls, decide (LiveAt (viralFeedScrollTo f 0) 0),
            ((viralFeedScrollTo f 0).slot 0).url)) =
        some (true, ["x", "y"], true, some "a") := by
      decide
    obtain ⟨feed, hf, hobs⟩ := Option.map_eq_some_iff.mp h
    simp only [Prod.mk.injEq, decide_eq_true_eq] at hobs
    obtain ⟨hv, hurls, hlive, hurl⟩ := hobs
    refine ⟨feed, Machine.steps_of_exec hf (Machine.meets_any _ _), hv, hurls, hlive, hurl, ?_⟩
    intro hcontent
    have hcount : feed.urlCount = 2 := by
      unfold ViralFeed.urlCount
      rw [hurls]
      rfl
    have hx := hcontent.2 0 hv 0 (by omega) (by rw [hcount]; decide) hlive
    rw [hurl, hurls] at hx
    exact absurd hx (by decide)
  · have h : (feedMachine.exec viralFeedCreate
        [.setUrls ["a", "b"], .scrollTo 1, .setUrls ["a"]]).map (fun f =>
          (f.currentIndex, f.urlCount)) = some (1, 1) := by
      decide
    obtain ⟨feed, hf, hobs⟩ := Option.map_eq_some_iff.mp h
    simp only [Prod.mk.injEq] at hobs
    refine ⟨feed, Machine.steps_of_exec hf (Machine.meets_any _ _), hobs.1, hobs.2, ?_⟩
    intro hcontent
    have hlt := hcontent.1 (by rw [hobs.1]; omega)
    rw [hobs.1, hobs.2] at hlt
    omega

end Viral.Feed
