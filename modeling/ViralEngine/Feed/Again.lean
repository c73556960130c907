/-
  File:      ViralEngine/Feed/Again.lean
  Subject:   A SWIPE TO THE SAME VIDEO AGAIN.

  Each part of a swipe leaves a ring in which the same part of a second swipe to the index finds
  nothing to do, and no later part takes that away: the slot `index - 3` is the slot `index + 2`,
  which either carries the number of a video ahead or belongs to no video of the swipe.

  * `Settled` -- the ring a swipe to the index leaves, `scrollTo_settled`;
  * `scrollTo_of_settled` -- on such a ring a swipe makes one call at most, `start` on the current
    player;
  * `Unmoved` -- two feeds with the same players in the same slots, the calls between them;
  * `scrollTo_sameIndex` -- the second swipe, and any number of them with the message loops between.
-/
import ViralEngine.Feed.Window

namespace Viral.Feed

open Viral.Lib

/-! ## 1. The ring behind a swipe -/

/-- The ring a swipe to the index leaves. -/
structure Settled (feed : ViralFeed) (index : Int) : Prop where
  current : feed.currentIndex = index
  live : LiveAt feed index
  ahead : ∀ m : Nat, 1 ≤ m → m ≤ viralPreloadCount → index + m < feed.urlCount →
    (feed.slot (index + m)).feedIndex = index + m
  behind : 0 ≤ index - viralPreloadCount - 1 → ¬ LiveAt feed (index - viralPreloadCount - 1)

/-- Behind the release no live player has the released index. -/
theorem releaseBehind_notLive (feed : ViralFeed) {before : Int} (h : 0 ≤ before) :
    ¬ LiveAt (releaseBehind feed before) before := by
  unfold releaseBehind
  dsimp only
  rw [if_pos h]
  by_cases hold : (feed.slot before).feedIndex = before ∧ (feed.slot before).mp.isSome = true
  · rw [if_pos hold]
    rintro ⟨hsome, _⟩
    rw [setSlot_slot, if_pos rfl] at hsome
    cases hsome
  · rw [if_neg hold]
    exact fun hl => hold ⟨hl.2, hl.1⟩

theorem scrollTo_settled {feed : ViralFeed} {index : Int} (hv : feed.Valid index) :
    Settled (viralFeedScrollTo feed index) index := by
  obtain ⟨hcur, hlive⟩ := scrollTo_current hv
  have hcount : (viralFeedScrollTo feed index).urlCount = feed.urlCount := by
    unfold ViralFeed.urlCount
    rw [scrollTo_urls]
  obtain ⟨played, loaded, hs, e⟩ := scrollTo_swipe hv
  refine ⟨hcur, hlive, ?_, ?_⟩
  · intro m h1 h2 hlt
    rw [hcount] at hlt
    rw [e, hs.released_ahead h1 h2 hlt]
    exact hs.loaded_number h1 h2 hlt
  · intro h0
    rw [e]
    exact releaseBehind_notLive loaded h0

/-! ## 2. A swipe on such a ring -/

/-- The preload loop passes over slots that carry their numbers. -/
theorem preload_of_numbered {feed : ViralFeed} {index : Int} (left : Nat) :
    ∀ i : Nat, (∀ m : Nat, i ≤ m → m < i + left → index + m < feed.urlCount →
      (feed.slot (index + m)).feedIndex = index + m) → preload feed index i left = feed := by
  induction left with
  | zero => intro i _; rfl
  | succ left ih =>
    intro i hnum
    rw [preload_succ]
    split
    · rfl
    · rename_i hend
      have hone : preloadOne feed (index + i) = feed := by
        unfold preloadOne
        rw [if_neg (fun hc => hc (hnum i (Nat.le_refl i) (by omega) (by omega)))]
      rw [hone]
      exact ih (i + 1) fun m h1 h2 => hnum m (by omega) (by omega)

/-- The call that playing a live player may make. -/
theorem playOrPrepare_of_live {feed : ViralFeed} {index : Int} (h : LiveAt feed index) :
    playOrPrepare feed index = feed ∨ ∃ mp, (feed.slot index).mp = some mp ∧
      playOrPrepare feed index = feed.call mp .start := by
  obtain ⟨mp, hmp⟩ := Option.isSome_iff_exists.mp h.1
  unfold playOrPrepare
  dsimp only
  rw [hmp]
  dsimp only
  rw [if_pos h.2]
  split
  · exact Or.inr ⟨mp, rfl, rfl⟩
  · exact Or.inl rfl

theorem settled_call {feed : ViralFeed} {index : Int} (h : Settled feed index) (mp : Nat)
    (c : MpCall) : Settled (feed.call mp c) index :=
  ⟨h.current, h.live, h.ahead, h.behind⟩

/-- The parts behind playing do nothing. -/
theorem Settled.rest {feed : ViralFeed} {index : Int} (h : Settled feed index) :
    releaseBehind (preload feed index 1 viralPreloadCount) (index - viralPreloadCount - 1) =
      feed := by
  rw [preload_of_numbered viralPreloadCount 1 fun m h1 h2 hlt => h.ahead m h1 (by omega) hlt]
  exact releaseBehind_dead fun hc => h.behind hc.1 hc.2

/-- **A swipe on a settled ring** makes one call at most: `start` on the current player. -/
theorem scrollTo_of_settled {feed : ViralFeed} {index : Int} (h : Settled feed index) :
    viralFeedScrollTo feed index = feed ∨ ∃ mp, (feed.slot index).mp = some mp ∧
      viralFeedScrollTo feed index = feed.call mp .start := by
  unfold viralFeedScrollTo
  split
  · -- the previous video is the current one: nothing is paused
    have hsame : { feed with currentIndex := index } = feed := by rw [← h.current]
    have hpause : pausePrev feed feed.currentIndex index = feed :=
      if_neg fun hc => hc.2 h.current
    dsimp only
    rw [hsame, hpause]
    rcases playOrPrepare_of_live h.live with e | ⟨mp, hmp, e⟩
    · rw [e]
      exact Or.inl h.rest
    · rw [e]
      exact Or.inr ⟨mp, hmp, (settled_call h mp .start).rest⟩
  · exact Or.inl rfl

/-! ## 3. The second swipe -/

/-- The same players in the same slots for the same videos, and between the two feeds no call but
    `start` on the player of the index. -/
structure Unmoved (index : Int) (f g : ViralFeed) : Prop where
  created : g.created = f.created
  current : g.currentIndex = f.currentIndex
  urls : g.urls = f.urls
  slots : ∀ k, (g.pool k).mp = (f.pool k).mp ∧ (g.pool k).feedIndex = (f.pool k).feedIndex ∧
    (g.pool k).url = (f.pool k).url
  calls : ∃ starts, g.calls = f.calls ++ starts ∧
    ∀ c ∈ starts, (f.slot index).mp = some c.1 ∧ c.2 = .start

theorem Unmoved.refl (index : Int) (f : ViralFeed) : Unmoved index f f :=
  ⟨rfl, rfl, rfl, fun _ => ⟨rfl, rfl, rfl⟩, [], (List.append_nil _).symm, nofun⟩

theorem Unmoved.start {index : Int} {f g : ViralFeed} (h : Unmoved index f g) {mp : Nat}
    (hmp : (g.slot index).mp = some mp) : Unmoved index f (g.call mp .start) := by
  obtain ⟨starts, e, hstarts⟩ := h.calls
  refine ⟨h.created, h.current, h.urls, h.slots, starts ++ [(mp, .start)], ?_, ?_⟩
  · show g.calls ++ [(mp, .start)] = _
    rw [e, List.append_assoc]
  · intro c hc
    rcases List.mem_append.mp hc with hc | hc
    · exact hstarts c hc
    · obtain rfl := List.mem_singleton.mp hc
      exact ⟨(h.slots (slotOf index)).1.symm.trans hmp, rfl⟩

/-- A loop stores a state, which is no part of what is compared. -/
theorem Unmoved.loopStores {index : Int} {f g : ViralFeed} (h : Unmoved index f g) (k : Slot)
    (state : ViralState) : Unmoved index f (apply g (.loopStores k state)) := by
  refine ⟨h.created, h.current, h.urls, fun j => ?_, h.calls⟩
  have e : (apply g (.loopStores k state)).pool j =
      if j = k then { g.pool k with state := state } else g.pool j := rfl
  rw [e]
  by_cases hj : j = k
  · rw [if_pos hj]
    subst hj
    exact h.slots j
  · rw [if_neg hj]
    exact h.slots j

theorem settled_loopStores {feed : ViralFeed} {index : Int} (h : Settled feed index) (k : Slot)
    (state : ViralState) : Settled (apply feed (.loopStores k state)) index := by
  refine ⟨h.current, (liveAt_loopStores feed k state index).mpr h.live, ?_, ?_⟩
  · intro m h1 h2 hlt
    have hslot := ((Unmoved.refl index feed).loopStores k state).slots (slotOf (index + m))
    exact hslot.2.1.trans (h.ahead m h1 h2 hlt)
  · intro h0 hl
    exact h.behind h0 ((liveAt_loopStores feed k state _).mp hl)

/-- Swipes to the index, and the message loops. -/
def Again (index : Int) (_ : ViralFeed) : Act → Prop
  | .scrollTo i => i = index
  | .loopStores _ _ => True
  | _ => False

/-- **A swipe to the same index again is harmless.** Behind a swipe to an index of the list a
    second one creates and stops no player and leaves the position and every slot's player, number
    and url; and so does any number of them, whatever the message loops store in between. The only
    call made is `start` on the player of the index. -/
theorem scrollTo_sameIndex {feed : ViralFeed} {index : Int} (hv : feed.Valid index) :
    Unmoved index (viralFeedScrollTo feed index)
      (viralFeedScrollTo (viralFeedScrollTo feed index) index) ∧
    ∀ t, feedMachine.Steps (Again index) (viralFeedScrollTo feed index) t →
      Unmoved index (viralFeedScrollTo feed index) t := by
  have hrun : ∀ t, feedMachine.Steps (Again index) (viralFeedScrollTo feed index) t →
      Settled t index ∧ Unmoved index (viralFeedScrollTo feed index) t := by
    intro t ht
    refine Machine.Steps.invariant
      (I := fun t => Settled t index ∧ Unmoved index (viralFeedScrollTo feed index) t) ht
      ⟨scrollTo_settled hv, Unmoved.refl _ _⟩ ?_
    intro u a v hI ha hs
    cases hs
    cases a with
    | scrollTo i =>
      obtain rfl : i = index := ha
      show Settled (viralFeedScrollTo u i) i ∧ Unmoved i _ (viralFeedScrollTo u i)
      rcases scrollTo_of_settled hI.1 with e | ⟨mp, hmp, e⟩
      · rw [e]
        exact hI
      · rw [e]
        exact ⟨settled_call hI.1 mp .start, hI.2.start hmp⟩
    | loopStores k state => exact ⟨settled_loopStores hI.1 k state, hI.2.loopStores k state⟩
    | setUrls urls => exact ha.elim
    | control c => exact ha.elim
  refine ⟨?_, fun t ht => (hrun t ht).2⟩
  exact (hrun _ (.step _ _ (.scrollTo index) .start rfl rfl)).2

/-- Six videos, swiped to the last but one, back to the first and to it again. -/
theorem scrollTo_sameIndex_towardsEnd : ∃ feed, feedMachine.Reach Machine.Any feed ∧
    feed.Valid 0 ∧ Unmoved 0 (viralFeedScrollTo feed 0)
      (viralFeedScrollTo (viralFeedScrollTo feed 0) 0) := by
  have h : (feedMachine.exec viralFeedCreate towardsEnd).map (fun f => decide (f.Valid 0)) =
      some true := by
    decide
  obtain ⟨feed, hf, hv⟩ := Option.map_eq_some_iff.mp h
  exact ⟨feed, Machine.steps_of_exec hf (Machine.meets_any _ _), of_decide_eq_true hv,
    (scrollTo_sameIndex (of_decide_eq_true hv)).1⟩

end Viral.Feed
