/-
  File:      ViralEngine/Feed/Surface.lean
  Subject:   THE SURFACE ON ANDROID (ViralEngine/bridge/android/ViralEngine_jni.c,
             ijk-player/ijkmedia/ijkplayer/android/ijkplayer_android.c).

  The core keeps the surface pointer and leaves the rest to the bridge; the bridge hands the
  surface to a player inside `nativeSetSurface` only, and to the player of `current_index` only.
  `ijkmp_android_set_surface` returns at once for a player without a `vout`. The core makes its
  players with `ijkmp_create`, which leaves `vout` NULL; `ijkmp_android_create` would make one.

  * `Creator`, `ijkmpAndroidSetSurface` -- the two ways to make a player, and the call;
  * `Bridge`, `nativeSetSurface`, `bridge` -- the feed with the surface each player has;
  * `OnCurrent` -- the last surface passed is on the current player and on no other;
  * `AttachedOk`, `bridge_attachedOk` -- with `vout` or without, a player has the last surface or
    none;
  * `SurfaceKept`, `surfaceFollows_iff` -- the surface follows all along a run exactly if none is
    set behind the first swipe of players without `vout`, and none is set when a swipe changes
    the video;
  * `surfaceFollows_swipe` -- one swipe with a surface set.
-/
import ViralEngine.Feed.Window

namespace Viral.Feed

open Viral.Lib

/-! ## 1. The bridge -/

/-- The function of ijkplayer that makes the players: `viral_player_init_slot` calls
    `ijkmp_create`. -/
inductive Creator where
  | ijkmpCreate | ijkmpAndroidCreate
  deriving DecidableEq, Repr

/-- The players have a `vout`. `ffp_reset_internal` leaves it NULL. -/
def Creator.vout : Creator → Bool
  | .ijkmpCreate => false
  | .ijkmpAndroidCreate => true

/-- A surface of the app, by number. -/
abbrev Surface := Nat

/-- The feed with the surface it keeps (`feed->surface`, NULL until one is passed) and the
    surfaces its players have. -/
structure Bridge where
  feed : ViralFeed
  surface : Option Surface
  attached : Nat → Option Surface

/-- No surface, and nothing attached. -/
def Bridge.init : Bridge where
  feed := viralFeedCreate
  surface := none
  attached := fun _ => none

/-- `ijkmp_android_set_surface` on a player. -/
def ijkmpAndroidSetSurface (creator : Creator) (attached : Nat → Option Surface) (mp : Nat)
    (surface : Option Surface) : Nat → Option Surface :=
  if creator.vout then fun n => if n = mp then surface else attached n else attached

/-- `nativeSetSurface`. In front of the first swipe `viral_feed_get_player` answers an address
    outside the array; what is there is not modelled. -/
def nativeSetSurface (creator : Creator) (b : Bridge) (surface : Option Surface) : Bridge :=
  match controlTarget b.feed with
  | some mp =>
    { b with
      surface := surface
      attached := ijkmpAndroidSetSurface creator b.attached mp surface }
  | none => { b with surface := surface }

/-- The calls of the bridge: `nativeSetUrls`, `nativeScrollTo` and the others are the feed's own. -/
inductive BridgeAct where
  | call (a : Act)
  | setSurface (surface : Option Surface)
  deriving DecidableEq, Repr

/-- The feed behind its bridge, call by call. -/
def bridge (creator : Creator) : Machine Bridge BridgeAct :=
  ⟨Bridge.init, fun b a =>
    match a with
    | .call a => some { b with feed := apply b.feed a }
    | .setSurface surface => some (nativeSetSurface creator b surface)⟩

/-- **The surface follows the current video**: when a surface was passed last and a swipe has
    happened, the player of the current video has it and no other live player does. -/
def OnCurrent (b : Bridge) : Prop :=
  ∀ surface, b.surface = some surface → 0 ≤ b.feed.currentIndex →
    LiveAt b.feed b.feed.currentIndex ∧
      ∀ k mp, (b.feed.pool k).mp = some mp →
        (b.attached mp = some surface ↔ k = slotOf b.feed.currentIndex)

/-! ## 2. Players over one call -/

/-- A player that is live behind a call was in its slot before, or is new. -/
structure Stays (before feed : ViralFeed) : Prop where
  player : ∀ k mp, (feed.pool k).mp = some mp →
    (before.pool k).mp = some mp ∨ before.created.length ≤ mp
  history : before.created <+: feed.created

theorem stays_swipe (before : ViralFeed) : SwipeInvariant (Stays before) where
  frame f g h hpool _ hcreated :=
    ⟨by rw [hpool]; exact h.player, by rw [hcreated]; exact h.history⟩
  init f index h hv := by
    obtain ⟨hpool, _, _, hcreated⟩ := initSlot_eq (slotOf index) hv
    refine ⟨fun k mp hk => ?_, ?_⟩
    · rw [hpool] at hk
      dsimp only at hk
      split at hk
      · cases hk
        exact Or.inr h.history.length_le
      · exact h.player k mp hk
    · rw [hcreated]
      exact h.history.trans (List.prefix_append _ _)
  release f k h := by
    refine ⟨fun j mp hj => ?_, h.history⟩
    simp only [ViralFeed.setSlot] at hj
    split at hj
    · cases hj
    · exact h.player j mp hj

theorem scrollTo_stays (feed : ViralFeed) (index : Int) :
    Stays feed (viralFeedScrollTo feed index) :=
  (stays_swipe feed).scrollTo index ⟨fun _ _ h => Or.inl h, List.prefix_refl _⟩

/-- A call that is no successful swipe leaves the position and the players. -/
theorem apply_players {feed : ViralFeed} {a : Act} (hno : NoSwipe feed a) :
    (apply feed a).currentIndex = feed.currentIndex ∧
      (apply feed a).created = feed.created ∧
      ∀ k, ((apply feed a).pool k).mp = (feed.pool k).mp := by
  refine ⟨(apply_noSwipe hno).1, ?_⟩
  cases hm : a.moves with
  | false =>
    obtain ⟨_, hcreated, hslot⟩ := apply_still feed hm
    exact ⟨hcreated, fun k => (hslot k).1⟩
  | true =>
    cases a with
    | setUrls urls => exact ⟨rfl, fun _ => rfl⟩
    | scrollTo index =>
      have e : apply feed (.scrollTo index) = feed := if_neg (hno index rfl)
      rw [e]
      exact ⟨rfl, fun _ => rfl⟩
    | control | loopStores => cases hm

/-- A swipe to the video that is current already keeps its player. -/
theorem scrollTo_again {feed : ViralFeed} {index : Int} (hv : feed.Valid index)
    (hlive : LiveAt feed index) :
    (viralFeedScrollTo feed index).pool (slotOf index) = feed.pool (slotOf index) := by
  have h0 : Ahead feed index (slotOf index) 0 :=
    ⟨Nat.zero_le _, by have := hv.2; omega, by congr 1; omega⟩
  cases scrollTo_slotAfter hv (slotOf index) with
  | kept _ _ _ _ hvp => exact hvp
  | renewed m ha hold _ =>
    have hm : m = 0 := by
      have h1 := slotOf_eq_iff.mp ha.slot
      have h2 := ha.near
      change m ≤ 2 at h2
      omega
    subst hm
    refine absurd ⟨?_, fun _ => hlive.1⟩ hold
    rw [Int.natCast_zero, Int.add_zero]
    exact hlive.2
  | released hout _ _ => exact absurd h0 (hout 0)
  | untouched hout _ _ => exact absurd h0 (hout 0)

/-- A player is in one slot only. -/
theorem PoolOk.slot_unique {feed : ViralFeed} (h : PoolOk feed) {k l : Slot} {mp : Nat}
    (hk : (feed.pool k).mp = some mp) (hl : (feed.pool l).mp = some mp) : k = l := by
  have e : (feed.pool k).feedIndex = (feed.pool l).feedIndex :=
    Option.some.inj ((h.made k mp hk).symm.trans (h.made l mp hl))
  rw [← (h.index k mp hk).2, ← (h.index l mp hl).2, e]

/-! ## 3. The surface each player has -/

/-- The current player has the last surface, the other live players have none, and so have those
    still to be made. -/
structure AttachedOk (creator : Creator) (b : Bridge) : Prop where
  pool : PoolOk b.feed
  current : CurrentOk b.feed
  place : -1 ≤ b.feed.currentIndex
  older : ∀ mp, b.attached mp ≠ none → mp < b.feed.created.length
  has : ∀ k mp, (b.feed.pool k).mp = some mp →
    b.attached mp =
      if 0 ≤ b.feed.currentIndex ∧ k = slotOf b.feed.currentIndex then b.surface else none
  bare : creator.vout = false → ∀ mp, b.attached mp = none

/-- The condition on a call: no surface for players without `vout`, and no surface set while a
    swipe changes the video. -/
def SurfaceKept (creator : Creator) (b : Bridge) : BridgeAct → Prop
  | .call (.scrollTo index) =>
    b.feed.Valid index → b.surface.isSome = true → index = b.feed.currentIndex
  | .call _ => True
  | .setSurface surface =>
    surface.isSome = true → 0 ≤ b.feed.currentIndex → creator.vout = true

section Step

variable {creator : Creator} {b : Bridge}

theorem AttachedOk.follows (h : AttachedOk creator b) : OnCurrent b := by
  intro surface hs hpos
  refine ⟨h.current hpos, fun k mp hk => ?_⟩
  rw [h.has k mp hk, hs]
  constructor
  · intro e
    by_cases hc : 0 ≤ b.feed.currentIndex ∧ k = slotOf b.feed.currentIndex
    · exact hc.2
    · rw [if_neg hc] at e
      cases e
  · intro e
    exact if_pos ⟨hpos, e⟩

theorem attachedOk_init : AttachedOk creator Bridge.init where
  pool := ⟨nofun, nofun⟩
  current := fun hpos => absurd hpos (by decide)
  place := Int.le_refl _
  older := fun _ h => absurd rfl h
  has := nofun
  bare := fun _ _ => rfl

/-- A call that moves no player. -/
theorem AttachedOk.noSwipe (h : AttachedOk creator b) {a : Act} (hno : NoSwipe b.feed a) :
    AttachedOk creator { b with feed := apply b.feed a } := by
  obtain ⟨hcur, hcreated, hmp⟩ := apply_players hno
  refine ⟨apply_poolOk a h.pool, apply_currentOk a h.current, ?_, ?_, fun k mp hk => ?_, h.bare⟩
  · rw [hcur]
    exact h.place
  · rw [hcreated]
    exact h.older
  · rw [hmp] at hk
    show b.attached mp = if _ ∧ _ then b.surface else none
    rw [hcur]
    exact h.has k mp hk

/-- A swipe while no surface is set, or to the video that is current already. -/
theorem AttachedOk.swipe (h : AttachedOk creator b) {index : Int} (hv : b.feed.Valid index)
    (hc : b.surface.isSome = true → index = b.feed.currentIndex) :
    AttachedOk creator { b with feed := viralFeedScrollTo b.feed index } := by
  obtain ⟨hcur, hlive⟩ := scrollTo_current hv
  have hstays := scrollTo_stays b.feed index
  have hnew : ∀ mp, b.feed.created.length ≤ mp → b.attached mp = none := by
    intro mp hmp
    by_contra hne
    exact absurd (h.older mp hne) (Nat.not_lt.mpr hmp)
  refine ⟨poolOk_swipe.scrollTo index h.pool, fun _ => ?_, ?_, fun mp hmp => ?_,
    fun k mp hk => ?_, h.bare⟩
  · show LiveAt _ (viralFeedScrollTo b.feed index).currentIndex
    rw [hcur]
    exact hlive
  · show -1 ≤ (viralFeedScrollTo b.feed index).currentIndex
    rw [hcur]
    have := hv.1
    omega
  · exact Nat.lt_of_lt_of_le (h.older mp hmp) hstays.history.length_le
  · show b.attached mp = if _ ∧ _ then b.surface else none
    rw [hcur]
    cases hs : b.surface with
    | none =>
      -- nobody had a surface
      rw [ite_self]
      rcases hstays.player k mp hk with hold | hlen
      · rw [h.has k mp hold, hs, ite_self]
      · exact hnew mp hlen
    | some surface =>
      have e : index = b.feed.currentIndex := hc (by rw [hs]; rfl)
      have hlive' : LiveAt b.feed index := by
        rw [e]
        exact h.current (e ▸ hv.1)
      by_cases hk' : k = slotOf index
      · -- the current player stays, with its surface
        rw [hk', show (viralFeedScrollTo b.feed index).pool (slotOf index) = _ from
          scrollTo_again hv hlive'] at hk
        rw [h.has _ mp hk, hs, if_pos ⟨e ▸ hv.1, e ▸ rfl⟩, if_pos ⟨hv.1, hk'⟩]
      · rw [if_neg fun hc => hk' hc.2]
        rcases hstays.player k mp hk with hold | hlen
        · rw [h.has k mp hold]
          exact if_neg fun hc => hk' (e ▸ hc.2)
        · exact hnew mp hlen

/-- Behind the first swipe the bridge finds the current player. -/
theorem AttachedOk.target (h : AttachedOk creator b) (hpos : 0 ≤ b.feed.currentIndex) :
    ∃ mp, controlTarget b.feed = some mp ∧
      (b.feed.pool (slotOf b.feed.currentIndex)).mp = some mp := by
  obtain ⟨mp, hmp, _, htarget, _⟩ :=
    controlsActOn_of_live h.pool rfl hpos (h.current hpos)
  exact ⟨mp, htarget, hmp⟩

/-- In front of it there is no slot of the array to look at. -/
theorem AttachedOk.noTarget (h : AttachedOk creator b) (hneg : b.feed.currentIndex < 0) :
    controlTarget b.feed = none := by
  have e : b.feed.currentIndex = -1 := by
    have := h.place
    omega
  unfold controlTarget
  rw [e]
  rfl

theorem AttachedOk.setSurface (h : AttachedOk creator b) {surface : Option Surface}
    (hc : SurfaceKept creator b (.setSurface surface)) :
    AttachedOk creator (nativeSetSurface creator b surface) := by
  rcases Int.lt_or_le b.feed.currentIndex 0 with hneg | hpos
  · have hno : ∀ k, ¬ (0 ≤ b.feed.currentIndex ∧ k = slotOf b.feed.currentIndex) :=
      fun k hc => absurd hc.1 (Int.not_le.mpr hneg)
    unfold nativeSetSurface
    rw [h.noTarget hneg]
    refine ⟨h.pool, h.current, h.place, h.older, fun k mp hk => ?_, h.bare⟩
    rw [h.has k mp hk, if_neg (hno k)]
    exact (if_neg (hno k)).symm
  · obtain ⟨mp, htarget, hmp⟩ := h.target hpos
    unfold nativeSetSurface
    rw [htarget]
    dsimp only
    cases hvout : creator.vout with
    | false =>
      -- no player has a surface, and none is set
      have hnone : surface = none := by
        cases surface with
        | none => rfl
        | some x =>
          have := hc rfl hpos
          rw [hvout] at this
          cases this
      have e : ijkmpAndroidSetSurface creator b.attached mp surface = b.attached := by
        unfold ijkmpAndroidSetSurface
        rw [hvout]
        rfl
      rw [e, hnone]
      refine ⟨h.pool, h.current, h.place, h.older, fun k n _ => ?_, h.bare⟩
      rw [ite_self]
      exact h.bare hvout n
    | true =>
      have e : ijkmpAndroidSetSurface creator b.attached mp surface =
          fun n => if n = mp then surface else b.attached n := by
        unfold ijkmpAndroidSetSurface
        rw [if_pos hvout]
      rw [e]
      refine ⟨h.pool, h.current, h.place, fun n hn => ?_, fun k n hk => ?_, fun hv => ?_⟩
      · dsimp only at hn ⊢
        by_cases hnm : n = mp
        · rw [hnm]
          exact (List.getElem?_eq_some_iff.mp (h.pool.made _ mp hmp)).1
        · rw [if_neg hnm] at hn
          exact h.older n hn
      · show (if n = mp then surface else b.attached n) = if _ ∧ _ then surface else none
        dsimp only at hk
        by_cases hk' : k = slotOf b.feed.currentIndex
        · rw [hk', hmp] at hk
          rw [if_pos (Option.some.inj hk).symm, if_pos ⟨hpos, hk'⟩]
        · have hne : n ≠ mp := by
            rintro rfl
            exact hk' (h.pool.slot_unique hk hmp)
          rw [if_neg hne, h.has k n hk, if_neg fun hc => hk' hc.2]
          exact (if_neg fun hc => hk' hc.2).symm
      · rw [hvout] at hv
        cases hv

/-- What the calls that meet the condition keep. -/
theorem AttachedOk.step (h : AttachedOk creator b) {a : BridgeAct} {t : Bridge}
    (hc : SurfaceKept creator b a) (hs : (bridge creator).step b a = some t) :
    AttachedOk creator t := by
  cases a with
  | setSurface surface =>
    cases hs
    exact h.setSurface hc
  | call a =>
    cases hs
    by_cases hsw : ∃ index, a = .scrollTo index ∧ b.feed.Valid index
    · obtain ⟨index, rfl, hv⟩ := hsw
      exact h.swipe hv (hc hv)
    · exact h.noSwipe fun index e hv => hsw ⟨index, e, hv⟩

/-- A swipe to another video with a surface set: its player does not have the surface. -/
theorem AttachedOk.lost (h : AttachedOk creator b) {index : Int} {surface : Surface}
    (hv : b.feed.Valid index) (hs : b.surface = some surface)
    (hf : OnCurrent { b with feed := viralFeedScrollTo b.feed index }) :
    index = b.feed.currentIndex := by
  obtain ⟨hcur, hlive⟩ := scrollTo_current hv
  have hpool := poolOk_swipe.scrollTo index h.pool
  have hstays := scrollTo_stays b.feed index
  obtain ⟨mp, hmp⟩ := Option.isSome_iff_exists.mp hlive.1
  have hatt : b.attached mp = some surface :=
    ((hf surface hs (by rw [hcur]; exact hv.1)).2 _ mp hmp).mpr (by rw [hcur])
  have hold : (b.feed.pool (slotOf index)).mp = some mp := by
    rcases hstays.player _ mp hmp with hold | hlen
    · exact hold
    · have := h.older mp (by rw [hatt]; nofun)
      omega
  rw [h.has _ mp hold] at hatt
  have hat : 0 ≤ b.feed.currentIndex ∧ slotOf index = slotOf b.feed.currentIndex := by
    by_contra hno
    rw [if_neg hno] at hatt
    cases hatt
  -- the player with the surface was made for the old video, and this one for the new
  have hmade := h.pool.made _ mp hold
  have hmade' := hpool.made _ mp hmp
  obtain ⟨later, hlater⟩ := hstays.history
  rw [← hlater, List.getElem?_append_left (List.getElem?_eq_some_iff.mp hmade).1, hmade]
    at hmade'
  have hcurrent := (h.current hat.1).2
  unfold ViralFeed.slot at hcurrent
  rw [← hat.2] at hcurrent
  rw [← hcurrent]
  exact hlive.2.symm.trans (Option.some.inj hmade').symm

/-- A surface set behind the first swipe, on players without `vout`: the player does not get
    it. -/
theorem AttachedOk.ignored (h : AttachedOk creator b) {surface : Surface}
    (hpos : 0 ≤ b.feed.currentIndex)
    (hf : OnCurrent (nativeSetSurface creator b (some surface))) : creator.vout = true := by
  obtain ⟨mp, htarget, hmp⟩ := h.target hpos
  cases hvout : creator.vout with
  | true => rfl
  | false =>
    unfold nativeSetSurface at hf
    rw [htarget] at hf
    dsimp only at hf
    have e : ijkmpAndroidSetSurface creator b.attached mp (some surface) = b.attached := by
      unfold ijkmpAndroidSetSurface
      rw [hvout]
      rfl
    rw [e] at hf
    have hatt := ((hf surface rfl hpos).2 _ mp hmp).mpr rfl
    rw [h.bare hvout] at hatt
    cases hatt

/-- **One call**: the surface follows behind it exactly if it meets the condition. -/
theorem follows_iff (h : AttachedOk creator b) (a : BridgeAct) :
    (∀ t, (bridge creator).step b a = some t → OnCurrent t) ↔ SurfaceKept creator b a := by
  constructor
  · intro hf
    cases a with
    | setSurface surface =>
      intro hs hpos
      obtain ⟨x, rfl⟩ := Option.isSome_iff_exists.mp hs
      exact h.ignored hpos (hf _ rfl)
    | call a =>
      cases a with
      | scrollTo index =>
        intro hv hs
        obtain ⟨x, hx⟩ := Option.isSome_iff_exists.mp hs
        exact h.lost hv hx (hf _ rfl)
      | setUrls | control | loopStores => trivial
  · intro hc t hs
    exact (h.step hc hs).follows

end Step

/-! ## 4. Over whole runs -/

/-- **The surface over whole runs**: it follows the current video behind every call of a run,
    exactly if no surface is set behind the first swipe unless the players have a `vout`, and no
    swipe goes to another video while a surface is set. -/
theorem surfaceFollows_iff (creator : Creator) (acts : List BridgeAct) :
    (bridge creator).meets (fun b a => ∀ t, (bridge creator).step b a = some t → OnCurrent t)
        Bridge.init acts ↔
      (bridge creator).meets (SurfaceKept creator) Bridge.init acts :=
  Machine.meets_after_iff (I := AttachedOk creator) (fun _ a h => follows_iff h a)
    (fun _ _ _ h hc hs => h.step hc hs) attachedOk_init acts

/-- What an app can see: the surface set last, and the one the player of the current video has. -/
def Bridge.observe (b : Bridge) : Option Surface × Bool × Option (Option Surface) :=
  (b.surface, decide (0 ≤ b.feed.currentIndex),
    (b.feed.pool (slotOf b.feed.currentIndex)).mp.map b.attached)

theorem observed_not_follows {creator : Creator} {acts : List BridgeAct} (surface : Surface)
    (h : ((bridge creator).exec Bridge.init acts).map Bridge.observe =
      some (some surface, true, some none)) :
    ∃ b, (bridge creator).exec Bridge.init acts = some b ∧ ¬ OnCurrent b := by
  obtain ⟨b, hb, hobs⟩ := Option.map_eq_some_iff.mp h
  simp only [Bridge.observe, Prod.mk.injEq, decide_eq_true_eq] at hobs
  obtain ⟨hs, hpos, hatt⟩ := hobs
  obtain ⟨mp, hmp, hnone⟩ := Option.map_eq_some_iff.mp hatt
  refine ⟨b, hb, fun hf => ?_⟩
  have := ((hf surface hs hpos).2 _ mp hmp).mpr rfl
  rw [hnone] at this
  cases this

/-- **A surface set once**: it reaches no player of the core's making, and with players that have
    a `vout` the next swipe leaves it on the old one. -/
theorem surfaceFollows_swipe :
    (∃ b, (bridge .ijkmpCreate).exec Bridge.init
        [.call (.setUrls ["a", "b"]), .call (.scrollTo 0), .setSurface (some 7)] = some b ∧
      ¬ OnCurrent b) ∧
    ∃ b, (bridge .ijkmpAndroidCreate).exec Bridge.init
        [.call (.setUrls ["a", "b"]), .call (.scrollTo 0), .setSurface (some 7),
          .call (.scrollTo 1)] = some b ∧
      ¬ OnCurrent b := by
  refine ⟨observed_not_follows 7 ?_, observed_not_follows 7 ?_⟩
  · decide
  · decide

end Viral.Feed
