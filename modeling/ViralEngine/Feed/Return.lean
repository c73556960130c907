/-
  File:      ViralEngine/Feed/Return.lean
  Subject:   DOES RETURNING TO A VIDEO PLAY IT?
             (ViralEngine/core/ViralEngine.c).

  `viral_feed_scroll_to` starts the player it finds only if its slot shows READY or PAUSED. The
  message loop stores READY for PREPARED, PLAYING once the player plays and IDLE for COMPLETED,
  and PAUSED never.

  * `NoStart`, `swipe_starts` -- the only `ijkmp_start` of a swipe;
  * `Finds`, `Plays` -- a swipe to another video finds its player prepared, and starts it;
  * `FirstTime` -- the condition: nobody has called `ijkmp_start` on that player;
  * `returnPlays` -- **a run plays what it returns to exactly if it returns to no player that was
    started**;
  * `returnPlays_back` -- one swipe on and one back.
-/
import ViralEngine.Feed.Paced

namespace Viral.Feed

open Viral.Lib Viral.Ijk Viral.Ijk.Player

/-! ## 1. The starts of a swipe -/

/-- From `f` to `g` nobody is started. -/
def NoStart (f g : ViralFeed) : Prop :=
  ∃ l, g.calls = f.calls ++ l ∧ ∀ mp, (mp, MpCall.start) ∉ l

section NoStart

variable {f g h : ViralFeed} {index : Int}

theorem NoStart.refl (f : ViralFeed) : NoStart f f := ⟨[], (List.append_nil _).symm, nofun⟩

theorem NoStart.trans (hfg : NoStart f g) (hgh : NoStart g h) : NoStart f h := by
  obtain ⟨l, hl, hno⟩ := hfg
  obtain ⟨l', hl', hno'⟩ := hgh
  refine ⟨l ++ l', by rw [hl', hl, List.append_assoc], fun mp hin => ?_⟩
  exact (List.mem_append.mp hin).elim (hno mp) (hno' mp)

theorem noStart_same (hcalls : g.calls = f.calls) : NoStart f g :=
  ⟨[], by rw [hcalls, List.append_nil], nofun⟩

theorem noStart_call (mp : Nat) {c : MpCall} (hc : c ≠ .start) : NoStart f (f.call mp c) := by
  refine ⟨[(mp, c)], rfl, fun j hin => hc ?_⟩
  exact (Prod.mk.inj (List.mem_singleton.mp hin)).2.symm

theorem noStart_stopMp (f : ViralFeed) (vp : ViralPlayer) : NoStart f (f.stopMp vp) := by
  unfold ViralFeed.stopMp
  split
  · exact noStart_call _ nofun
  · exact NoStart.refl f

theorem noStart_initSlot (f : ViralFeed) (k : Slot) (next : Int) :
    NoStart f (viralPlayerInitSlot f k next) := by
  unfold viralPlayerInitSlot
  dsimp only
  split
  · exact (noStart_stopMp f _).trans (noStart_same rfl)
  · exact ((noStart_stopMp f _).trans (noStart_same rfl)).trans (noStart_call _ nofun)

theorem noStart_pausePrev (f : ViralFeed) (prev index : Int) :
    NoStart f (pausePrev f prev index) := by
  unfold pausePrev
  dsimp only
  repeat' split
  all_goals first | exact NoStart.refl f | exact noStart_call _ nofun

theorem noStart_preload (index : Int) (left : Nat) : ∀ (f : ViralFeed) (i : Nat),
    NoStart f (preload f index i left) := by
  induction left with
  | zero => exact fun f _ => NoStart.refl f
  | succ left ih =>
    intro f i
    rw [preload_succ]
    split
    · exact NoStart.refl f
    · refine NoStart.trans ?_ (ih _ (i + 1))
      unfold preloadOne
      split
      · exact noStart_initSlot f _ _
      · exact NoStart.refl f

theorem noStart_releaseBehind (f : ViralFeed) (before : Int) :
    NoStart f (releaseBehind f before) := by
  unfold releaseBehind
  dsimp only
  split
  · split
    · exact (noStart_stopMp f _).trans (noStart_same rfl)
    · exact NoStart.refl f
  · exact NoStart.refl f

/-- **The only start of a swipe** that finds a player of its video: the slot shows READY or
    PAUSED. -/
theorem swipe_starts {mp : Nat} (hv : f.Valid index) (hmp : (f.slot index).mp = some mp)
    (hidx : (f.slot index).feedIndex = index) :
    (mp, MpCall.start) ∈ swipeCalls f index ↔
      (f.slot index).state = .ready ∨ (f.slot index).state = .paused := by
  obtain ⟨hpool, _, _, _⟩ := pausePrev_frame { f with currentIndex := index } f.currentIndex index
  obtain ⟨l, hl, hno⟩ := noStart_pausePrev { f with currentIndex := index } f.currentIndex index
  unfold swipeCalls viralFeedScrollTo
  rw [if_pos hv]
  dsimp only
  generalize pausePrev { f with currentIndex := index } f.currentIndex index = p at hpool hl ⊢
  have hslot : p.slot index = f.slot index := congrFun hpool (slotOf index)
  have hplay : playOrPrepare p index =
      if (f.slot index).state = .ready ∨ (f.slot index).state = .paused then p.call mp .start
      else p := by
    unfold playOrPrepare
    dsimp only
    rw [hslot]
    simp only [hmp, hidx, if_true]
  have hrest := (noStart_preload index viralPreloadCount (playOrPrepare p index) 1).trans
    (noStart_releaseBehind _ (index - viralPreloadCount - 1))
  obtain ⟨l', hl', hno'⟩ := hrest
  rw [hl', hplay]
  split
  · rename_i hready
    refine iff_of_true ?_ hready
    show (mp, MpCall.start) ∈ ((p.calls ++ [(mp, MpCall.start)]) ++ l').drop f.calls.length
    rw [hl]
    show (mp, MpCall.start) ∈ (((f.calls ++ l) ++ [(mp, MpCall.start)]) ++ l').drop f.calls.length
    simp
  · rename_i hother
    refine iff_of_false (fun hin => ?_) hother
    rw [hl] at hin
    change (mp, MpCall.start) ∈ ((f.calls ++ l) ++ l').drop f.calls.length at hin
    rw [List.append_assoc, List.drop_left] at hin
    exact (List.mem_append.mp hin).elim (hno mp) (hno' mp)

end NoStart

/-! ## 2. Returning to a video -/

/-- A swipe to another video than the current one finds a player of it in its slot, and this has
    finished preparing. -/
def Finds (s : Paced) (index : Int) (mp : Nat) : Prop :=
  s.feed.Valid index ∧ index ≠ s.feed.currentIndex ∧ (s.feed.slot index).mp = some mp ∧
    (s.feed.slot index).feedIndex = index ∧ s.players[mp]?.any (fun P => chkst P.mpState) = true

/-- **The swipe calls `ijkmp_start` on the player it finds.** -/
def Plays (s : Paced) : PacedAct → Prop
  | .swipe index => ∀ mp, Finds s index mp → (mp, .start) ∈ swipeCalls s.feed index
  | .post _ _ | .deliver _ => True

/-- **The condition on a step**: nobody has called `ijkmp_start` on the player a swipe finds. -/
def FirstTime (s : Paced) : PacedAct → Prop
  | .swipe index => ∀ mp, Finds s index mp → (mp, .start) ∉ s.feed.calls
  | .post _ _ | .deliver _ => True

instance (s : Paced) (index : Int) (mp : Nat) : Decidable (Finds s index mp) :=
  inferInstanceAs (Decidable (_ ∧ _ ∧ _ ∧ _ ∧ _))

/-- Only the player in the slot can be found. -/
instance (s : Paced) (index : Int) (φ : Nat → Prop) [DecidablePred φ] :
    Decidable (∀ mp, Finds s index mp → φ mp) :=
  decidable_of_iff (∀ mp ∈ (s.feed.slot index).mp, Finds s index mp → φ mp)
    ⟨fun h mp hf => h mp hf.2.2.1 hf, fun h mp _ => h mp⟩

instance (s : Paced) : ∀ a, Decidable (Plays s a)
  | .swipe index =>
    inferInstanceAs (Decidable (∀ mp, Finds s index mp → (mp, .start) ∈ swipeCalls s.feed index))
  | .post _ _ | .deliver _ => inferInstanceAs (Decidable True)

instance (s : Paced) : ∀ a, Decidable (FirstTime s a)
  | .swipe index =>
    inferInstanceAs (Decidable (∀ mp, Finds s index mp → (mp, .start) ∉ s.feed.calls))
  | .post _ _ | .deliver _ => inferInstanceAs (Decidable True)

/-- **One swipe.** -/
theorem plays_iff {s t : Paced} {a : PacedAct} (h : PacedOk s.feed s.players)
    (hstep : pacedStep s a = some t) : Plays s a ↔ FirstTime s a := by
  cases a with
  | post mp m => exact Iff.rfl
  | deliver mp => exact Iff.rfl
  | swipe index =>
    have hdone : s.Delivered := by
      by_contra hno
      unfold pacedStep at hstep
      dsimp only at hstep
      rw [if_neg hno] at hstep
      cases hstep
    refine forall_congr' fun mp => forall_congr' fun hfinds => ?_
    obtain ⟨hv, _, hmp, hidx, hprep⟩ := hfinds
    obtain ⟨P, hP, hslot, ha, hphase⟩ := h.slots _ mp hmp
    have hchk : chkst P.mpState = true := by
      rw [hP] at hprep
      exact hprep
    have hshows := hphase.shows hchk (hdone P (List.mem_of_getElem? hP) ha)
    refine (swipe_starts hv hmp hidx).trans (hshows.trans ?_)
    unfold startedIn
    simp

/-- **A run plays the videos it returns to exactly if each of them was never started.** -/
theorem returnPlays {urls : List String} {as : List PacedAct} {s : Paced}
    (h : (paced urls).exec (paced urls).init as = some s) :
    (paced urls).meets Plays (paced urls).init as ↔
      (paced urls).meets FirstTime (paced urls).init as := by
  have hinit : PacedOk (paced urls).init.feed (paced urls).init.players :=
    reach_pacedOk (.start : (paced urls).Reach Machine.Any (paced urls).init)
  exact Machine.meets_congr_run (I := fun s => PacedOk s.feed s.players)
    (fun _ _ _ hi hs => pacedStep_ok hi hs) (fun _ _ _ hi hs => plays_iff hi hs) hinit h

/-- The first of two videos is shown, the second one is preloaded, and all messages are
    delivered. -/
def shownFirst : List PacedAct :=
  [.swipe 0, .post 0 .prepared, .deliver 0, .deliver 0, .post 1 .prepared, .deliver 1,
    .deliver 1] ++ List.replicate 4 (.deliver 0) ++ List.replicate 2 (.deliver 1)

/-- A swipe to the second one; the messages of the pause and of the start are delivered. -/
def shownSecond : List PacedAct :=
  shownFirst ++ .swipe 1 :: List.replicate 2 (.deliver 0) ++ List.replicate 2 (.deliver 1)

theorem returnPlays_on :
    (∃ s, (paced ["a", "b"]).exec (paced ["a", "b"]).init shownSecond = some s) ∧
    (paced ["a", "b"]).meets Plays (paced ["a", "b"]).init shownSecond := by
  have hsome : ((paced ["a", "b"]).exec (paced ["a", "b"]).init shownSecond).isSome = true := by
    decide +kernel
  obtain ⟨s, hs⟩ := Option.isSome_iff_exists.mp hsome
  exact ⟨⟨s, hs⟩, (returnPlays hs).mpr (by decide +kernel)⟩

/-- **Back to the first video**: its player is found, prepared and paused, and not started. -/
theorem returnPlays_back : ¬ ∀ (urls : List String) (as : List PacedAct) (s : Paced),
    (paced urls).exec (paced urls).init as = some s →
    (paced urls).meets Plays (paced urls).init as := by
  intro hall
  have hsome : ((paced ["a", "b"]).exec (paced ["a", "b"]).init
      (shownSecond ++ [.swipe 0])).isSome = true := by
    decide +kernel
  obtain ⟨s, hs⟩ := Option.isSome_iff_exists.mp hsome
  have hfails : ¬ (paced ["a", "b"]).meets Plays (paced ["a", "b"]).init
      (shownSecond ++ [.swipe 0]) := by
    decide +kernel
  exact hfails (hall _ _ s hs)

end Viral.Feed
