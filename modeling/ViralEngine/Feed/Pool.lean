/-
  File:      ViralEngine/Feed/Pool.lean
  Subject:   THE FEED AND ITS RING OF PLAYERS, CALL BY CALL
             (ViralEngine/core/ViralEngine.h, ViralEngine.c).

  The calls run one after the other here, as the feed's lock orders them. What the message loops
  do beside them reaches this machine as `Act.loopStores`: a loop stores a new `state` into a
  slot, at any time. A player is the number of its creation; `created` keeps for which index
  each one was made, `calls` which functions of ijkplayer were called on it.

  * `ViralPlayer`, `ViralFeed` -- the structs;
  * `cRem`, `viralGetPoolSlot`, `slotOf` -- the ring index, in C's remainder and (the same on
    indices from 0 on) as a place of the ring;
  * `viralPlayerInitSlot` -- release what is in the slot and create the player of an index;
  * `pausePrev`, `playOrPrepare`, `preload`, `releaseBehind`, `viralFeedScrollTo` -- the four
    numbered parts of `viral_feed_scroll_to`, and the call;
  * `viralFeedSetUrls`, `viralFeedControl` -- the other calls;
  * `feedMachine` -- sequences of calls.

  Indices are unbounded integers: a list of 2^31 videos does not occur.
-/
import Mathlib.Data.List.Basic
import ViralEngine.Lib.Machine

namespace Viral.Feed

open Viral.Lib

/-! ## 1. Records -/

/-- `VIRAL_PRELOAD_COUNT`. -/
def viralPreloadCount : Nat := 2

/-- `VIRAL_POOL_SIZE`. -/
def viralPoolSize : Nat := 5

/-- `ViralState`. -/
inductive ViralState where
  | idle | preloading | ready | playing | paused | error
  deriving DecidableEq, Repr

/-- A place of the ring. -/
abbrev Slot := Fin viralPoolSize

/-- `struct ViralPlayer`. -/
structure ViralPlayer where
  mp : Option Nat
  state : ViralState
  feedIndex : Int
  url : Option String
  surfaceSet : Bool
  deriving DecidableEq, Repr

/-- The functions of ijkplayer that the feed calls on a player. -/
inductive MpCall where
  | prepareAsync
  | start
  | pause
  | stop
  | setVolume (muted : Bool)
  | setLoop (loop : Bool)
  | seekTo (ms : Int)
  | getPosition
  | getDuration
  deriving DecidableEq, Repr

/-- `struct ViralFeed`, with the history of its players. -/
structure ViralFeed where
  urls : List String
  pool : Slot → ViralPlayer
  currentIndex : Int
  created : List Int
  calls : List (Nat × MpCall)

/-- The slots as `calloc` leaves them. -/
def emptySlot : ViralPlayer where
  mp := none
  state := .idle
  feedIndex := 0
  url := none
  surfaceSet := false

/-- `viral_feed_create`. -/
def viralFeedCreate : ViralFeed where
  urls := []
  pool := fun _ => emptySlot
  currentIndex := -1
  created := []
  calls := []

/-! ## 2. The ring -/

/-- The remainder of C, with the sign of the dividend. -/
def cRem (a b : Int) : Int := a.tmod b

/-- `viral_get_pool_slot`; `none`: the address lies outside the array. -/
def viralGetPoolSlot (index : Int) : Option Slot :=
  let r := cRem index viralPoolSize
  if h : 0 ≤ r ∧ r < viralPoolSize then some ⟨r.toNat, by omega⟩ else none

/-- The place of an index. -/
def slotOf (index : Int) : Slot :=
  ⟨(index % 5).toNat, by
    have h0 : 0 ≤ index % 5 := Int.emod_nonneg index (by omega)
    have h5 : index % 5 < 5 := Int.emod_lt_of_pos index (by omega)
    show (index % 5).toNat < 5
    omega⟩

theorem viralGetPoolSlot_of_nonneg {index : Int} (h : 0 ≤ index) :
    viralGetPoolSlot index = some (slotOf index) := by
  have e : cRem index viralPoolSize = index % 5 := Int.tmod_eq_emod_of_nonneg h
  have h0 : 0 ≤ index % 5 := Int.emod_nonneg index (by omega)
  have h5 : index % 5 < 5 := Int.emod_lt_of_pos index (by omega)
  have hr : 0 ≤ cRem index viralPoolSize ∧ cRem index viralPoolSize < viralPoolSize := by
    rw [e]
    exact ⟨h0, h5⟩
  unfold viralGetPoolSlot
  rw [dif_pos hr]
  refine congrArg some (Fin.ext ?_)
  show (cRem index viralPoolSize).toNat = (index % 5).toNat
  rw [e]

theorem slotOf_eq_iff {a b : Int} : slotOf a = slotOf b ↔ a % 5 = b % 5 := by
  have ha : 0 ≤ a % 5 := Int.emod_nonneg a (by omega)
  have hb : 0 ≤ b % 5 := Int.emod_nonneg b (by omega)
  constructor
  · intro h
    have : (a % 5).toNat = (b % 5).toNat := congrArg Fin.val h
    omega
  · intro h
    exact Fin.ext (congrArg Int.toNat h)

theorem slotOf_val (a : Int) : ((slotOf a).val : Int) = a % 5 :=
  Int.toNat_of_nonneg (Int.emod_nonneg a (by omega))

/-! ## 3. Slots -/

namespace ViralFeed

variable (feed : ViralFeed)

/-- `url_count`. -/
def urlCount : Int := feed.urls.length

/-- The slot of an index. -/
def slot (index : Int) : ViralPlayer := feed.pool (slotOf index)

/-- A slot holds something else. -/
def setSlot (k : Slot) (vp : ViralPlayer) : ViralFeed :=
  { feed with pool := fun j => if j = k then vp else feed.pool j }

/-- A call of ijkplayer. -/
def call (mp : Nat) (c : MpCall) : ViralFeed := { feed with calls := feed.calls ++ [(mp, c)] }

/-- `ijkmp_stop`, `ijkmp_shutdown` and `ijkmp_dec_ref_p` on the player of a slot, if it has
    one. -/
def stopMp (vp : ViralPlayer) : ViralFeed :=
  match vp.mp with
  | some mp => feed.call mp .stop
  | none => feed

end ViralFeed

/-- `viral_player_init_slot`. -/
def viralPlayerInitSlot (feed : ViralFeed) (k : Slot) (index : Int) : ViralFeed :=
  let vp := feed.pool k
  let feed := feed.stopMp vp
  let vp : ViralPlayer :=
    { mp := none, state := .idle, feedIndex := index, url := none, surfaceSet := false }
  if index < 0 ∨ feed.urlCount ≤ index then feed.setSlot k vp
  else
    let mp := feed.created.length
    let feed := { feed with created := feed.created ++ [index] }
    let feed := feed.setSlot k
      { vp with url := feed.urls[index.toNat]?, mp := some mp, state := .preloading }
    feed.call mp .prepareAsync

/-! ## 4. `viral_feed_scroll_to` -/

/-- 1. Pause the previous video. -/
def pausePrev (feed : ViralFeed) (prev index : Int) : ViralFeed :=
  if 0 ≤ prev ∧ prev ≠ index then
    let old := feed.slot prev
    match old.mp with
    | some mp => if old.feedIndex = prev then feed.call mp .pause else feed
    | none => feed
  else feed

/-- 2. Play or prepare current. -/
def playOrPrepare (feed : ViralFeed) (index : Int) : ViralFeed :=
  let cur := feed.slot index
  match cur.mp with
  | some mp =>
    if cur.feedIndex = index then
      if cur.state = .ready ∨ cur.state = .paused then feed.call mp .start else feed
    else viralPlayerInitSlot feed (slotOf index) index
  | none => viralPlayerInitSlot feed (slotOf index) index

/-- 3. Preload the next videos: the loop from `i` on, `left` rounds. -/
def preload (feed : ViralFeed) (index : Int) (i : Nat) : (left : Nat) → ViralFeed
  | 0 => feed
  | left + 1 =>
    let next := index + i
    if feed.urlCount ≤ next then feed
    else
      let feed :=
        if (feed.slot next).feedIndex ≠ next then viralPlayerInitSlot feed (slotOf next) next
        else feed
      preload feed index (i + 1) left

/-- 4. Release the player that is too far behind. `feed_index` stays. -/
def releaseBehind (feed : ViralFeed) (releaseBefore : Int) : ViralFeed :=
  if 0 ≤ releaseBefore then
    let old := feed.slot releaseBefore
    if old.feedIndex = releaseBefore ∧ old.mp.isSome then
      (feed.stopMp old).setSlot (slotOf releaseBefore)
        { old with mp := none, state := .idle, url := none }
    else feed
  else feed

/-- The index is one of the list. -/
def ViralFeed.Valid (feed : ViralFeed) (index : Int) : Prop := 0 ≤ index ∧ index < feed.urlCount

instance (feed : ViralFeed) (index : Int) : Decidable (feed.Valid index) :=
  inferInstanceAs (Decidable (_ ∧ _))

/-- `viral_feed_scroll_to`. -/
def viralFeedScrollTo (feed : ViralFeed) (index : Int) : ViralFeed :=
  if feed.Valid index then
    let prev := feed.currentIndex
    let feed := { feed with currentIndex := index }
    let feed := pausePrev feed prev index
    let feed := playOrPrepare feed index
    let feed := preload feed index 1 viralPreloadCount
    releaseBehind feed (index - viralPreloadCount - 1)
  else feed

/-! ## 5. The other calls -/

/-- `viral_feed_set_urls`: the pool is not touched. -/
def viralFeedSetUrls (feed : ViralFeed) (urls : List String) : ViralFeed :=
  { feed with urls := urls }

/-- The player `play`, `pause`, `mute`, `set_loop`, `seek`, `get_position` and `get_duration` act
    on. In front of the first swipe the index is `-1` and the slot lies outside the array; what
    is there is not modelled. -/
def controlTarget (feed : ViralFeed) : Option Nat := do
  let k ← viralGetPoolSlot feed.currentIndex
  (feed.pool k).mp

/-- One of these calls, by the function of ijkplayer it makes on its player. -/
def viralFeedControl (feed : ViralFeed) (c : MpCall) : ViralFeed :=
  match controlTarget feed with
  | some mp => feed.call mp c
  | none => feed

/-! ## 6. Sequences of calls -/

/-- The public calls, and the stores of the loops. -/
inductive Act where
  | setUrls (urls : List String)
  | scrollTo (index : Int)
  | control (c : MpCall)
  | loopStores (k : Slot) (state : ViralState)
  deriving DecidableEq, Repr

/-- The feed after a call. -/
def apply (feed : ViralFeed) : Act → ViralFeed
  | .setUrls urls => viralFeedSetUrls feed urls
  | .scrollTo index => viralFeedScrollTo feed index
  | .control c => viralFeedControl feed c
  | .loopStores k state => feed.setSlot k { feed.pool k with state := state }

/-- The feed, call by call; every call returns. -/
def feedMachine : Machine ViralFeed Act := ⟨viralFeedCreate, fun feed a => some (apply feed a)⟩

end Viral.Feed
