/-
  File:      ViralEngine/Storage/Recency.lean
  Subject:   WHETHER EVICTION FOLLOWS USE.

  The cache tells how long ago an entry was used by the reading of `nowMs()` that is stored with it,
  and the system clock may repeat a millisecond or step back. The calls of the cache are cut into
  their statements here, one step for each round of the loop of `evictIfNeeded`, and beside the
  tables stands the history of the uses, without any clock.

  * `CacheRun`, `CacheAct`, `cacheMachine` -- the calls, for any readings of the clock;
  * `UsedLater`, `FollowsUse` -- what a round should delete;
  * `TimeGoesOn` -- **the condition**: a reading that is stored is later than those stored with the
    other entries;
  * `Ordered`, `step_ordered` -- then the readings are in the order of the uses;
  * `evictionFollowsUse` -- **every entry that stays was used later than the deleted one.**
-/
import ViralEngine.Lib.Machine
import ViralEngine.Storage.Texts

namespace Viral.Storage

open Viral.Lib Viral.Lib.Sql

/-! ## 1. The calls, step by step -/

/-- The database, whether the loop of `evictIfNeeded` is under way, and the keys in the order in
    which they were registered and fetched. -/
structure CacheRun where
  db : Db
  evicting : Bool
  uses : List Bytes
  deriving DecidableEq

/-- `lastAccess` and `nowMs` are what the clock answers. -/
inductive CacheAct where
  | registerCacheEntry (e : CacheEntry)
  | getCachedPath (visit : Visit) (nowMs : Int64) (key : Bytes)
  | evictIfNeeded
  | round (visits : Visits)

/-- The rows of the cache table. -/
def cacheRows (db : Db) : List Row :=
  match db.table (ascii "disk_cache") with
  | some t => t.rows
  | none => []

instance (rows : List Row) (key : Bytes) : Decidable (Cached rows key) :=
  inferInstanceAs (Decidable (_ ∧ _))

/-- **One step.** An entry whose strings have a NUL is not registered, and a key that is not there
    is not fetched. -/
def cacheStep (limit : Int32) (s : CacheRun) : CacheAct → Option CacheRun
  | .registerCacheEntry e =>
    if s.evicting then none
    else some
      { db := registerRow s.db e.key e.localPath e.size e.lastAccess
        evicting := true
        uses := if e.Clean then s.uses ++ [e.key] else s.uses }
  | .getCachedPath visit nowMs key =>
    if s.evicting then none
    else some
      { s with
        db := (getCachedPath s.db visit nowMs key).1
        uses := if Cached (cacheRows s.db) key then s.uses ++ [key] else s.uses }
  | .evictIfNeeded => if s.evicting then none else some { s with evicting := true }
  | .round visits =>
    if s.evicting then
      if tooLarge limit s.db visits then some { s with db := evictOne s.db visits }
      else some { s with evicting := false }
    else none

/-- A cache that is used, from the opened database on. -/
def cacheMachine (limit : Int32) : Machine CacheRun CacheAct :=
  ⟨⟨opened, false, []⟩, cacheStep limit⟩

/-! ## 2. Uses -/

/-- `b` was used later than `a`: since the last use of `a` there was one of `b`. -/
def UsedLater (uses : List Bytes) (a b : Bytes) : Prop :=
  ∃ before since, uses = before ++ since ∧ b ∈ since ∧ a ∉ since

theorem UsedLater.append {uses : List Bytes} {a b : Bytes} (h : UsedLater uses a b) {k : Bytes}
    (hk : a ≠ k) : UsedLater (uses ++ [k]) a b := by
  obtain ⟨before, since, rfl, hb, ha⟩ := h
  refine ⟨before, since ++ [k], List.append_assoc before since [k],
    List.mem_append_left _ hb, fun hmem => ?_⟩
  rcases List.mem_append.mp hmem with h | h
  · exact ha h
  · exact hk (List.mem_singleton.mp h)

/-- The key used last was used later than every other. -/
theorem usedLater_last (uses : List Bytes) {a k : Bytes} (hk : a ≠ k) :
    UsedLater (uses ++ [k]) a k :=
  ⟨uses, [k], rfl, List.mem_singleton_self k, fun h => hk (List.mem_singleton.mp h)⟩

/-- No key was used later than the last one. -/
theorem not_usedLater_last (uses : List Bytes) (k b : Bytes) : ¬ UsedLater (uses ++ [k]) k b := by
  intro h
  obtain ⟨before, since, heq, hb, hk⟩ := h
  have hlast := congrArg List.getLast? heq
  rw [List.getLast?_concat, List.getLast?_append_of_ne_nil _ (List.ne_nil_of_mem hb)] at hlast
  exact hk (List.mem_of_getLast? hlast.symm)

/-- The key is in the table. -/
def StoredKey (db : Db) (key : Bytes) : Prop :=
  ∃ r ∈ cacheRows db, r[0]? = some (Value.text key)

/-- **Every key that stays was used later than the one that goes.** -/
def FollowsUse (s s' : CacheRun) : Prop :=
  ∀ a b, StoredKey s.db a → ¬ StoredKey s'.db a → StoredKey s'.db b → UsedLater s.uses a b

/-- The reading is later than those stored with other keys. -/
def LaterThanOthers (db : Db) (key : Bytes) (nowMs : Int64) : Prop :=
  ∀ r ∈ cacheRows db, r[0]? ≠ some (Value.text key) → accessAt r < nowMs.toInt

instance (db : Db) (key : Bytes) (nowMs : Int64) : Decidable (LaterThanOthers db key nowMs) :=
  inferInstanceAs (Decidable (∀ r ∈ _, _))

/-- **The condition**: a reading that is stored is later than those stored with other keys. -/
def TimeGoesOn (s : CacheRun) : CacheAct → Prop
  | .registerCacheEntry e => e.Clean → LaterThanOthers s.db e.key e.lastAccess
  | .getCachedPath _ nowMs key =>
    Cached (cacheRows s.db) key → LaterThanOthers s.db key nowMs
  | .evictIfNeeded | .round _ => True

instance (s : CacheRun) : ∀ a : CacheAct, Decidable (TimeGoesOn s a)
  | .registerCacheEntry _ => inferInstanceAs (Decidable (_ → _))
  | .getCachedPath _ _ _ => inferInstanceAs (Decidable (_ → _))
  | .evictIfNeeded | .round _ => inferInstanceAs (Decidable True)

/-! ## 3. Readings in the order of the uses -/

/-- Of two entries, the one accessed earlier was used earlier. -/
def Earlier (uses : List Bytes) (a b : CacheEntry) : Prop :=
  a.lastAccess.toInt < b.lastAccess.toInt ∧ UsedLater uses a.key b.key

/-- **The invariant**: the table holds entries, and their readings are in the order of their
    uses. -/
def Ordered (s : CacheRun) : Prop :=
  ∃ (c : Contents) (entries : List CacheEntry), s.db = c.db false ∧
    c.cache = entries.map CacheEntry.row ∧
    ∀ a ∈ entries, ∀ b ∈ entries, a.key ≠ b.key → Earlier s.uses a b ∨ Earlier s.uses b a

theorem ordered_init (limit : Int32) : Ordered (cacheMachine limit).init := by
  show Ordered ⟨opened, false, []⟩
  rw [opened_eq]
  exact ⟨⟨[], [], [], [], []⟩, [], rfl, rfl, fun _ ha => absurd ha List.not_mem_nil⟩

theorem cacheRows_db (c : Contents) (b : Bool) : cacheRows (c.db b) = c.cache := rfl

theorem storedKey_entries {c : Contents} {b : Bool} {entries : List CacheEntry}
    (hc : c.cache = entries.map CacheEntry.row) (key : Bytes) :
    StoredKey (c.db b) key ↔ ∃ e ∈ entries, e.key = key := by
  unfold StoredKey
  rw [cacheRows_db, hc]
  constructor
  · intro h
    obtain ⟨r, hr, hk⟩ := h
    obtain ⟨e, he, rfl⟩ := List.mem_map.mp hr
    exact ⟨e, he, Value.text.inj (Option.some.inj hk)⟩
  · intro h
    obtain ⟨e, he, rfl⟩ := h
    exact ⟨e.row, List.mem_map_of_mem he, rfl⟩

/-- The entries behind a use of `key`: every other as it was, and every one with the key with a
    reading that is later than the others'. -/
theorem ordered_use {entries entries' : List CacheEntry} {uses : List Bytes} {key : Bytes}
    (hord : ∀ a ∈ entries, ∀ b ∈ entries, a.key ≠ b.key →
      Earlier uses a b ∨ Earlier uses b a)
    (hother : ∀ a ∈ entries', a.key ≠ key → a ∈ entries)
    (hlater : ∀ a ∈ entries', a.key ≠ key → ∀ b ∈ entries', b.key = key →
      a.lastAccess.toInt < b.lastAccess.toInt) :
    ∀ a ∈ entries', ∀ b ∈ entries', a.key ≠ b.key →
      Earlier (uses ++ [key]) a b ∨ Earlier (uses ++ [key]) b a := by
  have hlast : ∀ a ∈ entries', a.key ≠ key → ∀ b ∈ entries', b.key = key →
      Earlier (uses ++ [key]) a b := by
    intro a ha hak b hb hbk
    refine ⟨hlater a ha hak b hb hbk, ?_⟩
    rw [hbk]
    exact usedLater_last uses hak
  intro a ha b hb hab
  by_cases hak : a.key = key
  · have hbk : b.key ≠ key := fun h => hab (hak.trans h.symm)
    exact Or.inr (hlast b hb hbk a ha hak)
  · by_cases hbk : b.key = key
    · exact Or.inl (hlast a ha hak b hb hbk)
    · rcases hord a (hother a ha hak) b (hother b hb hbk) hab with h | h
      · exact Or.inl ⟨h.1, h.2.append hak⟩
      · exact Or.inr ⟨h.1, h.2.append hbk⟩

theorem mem_registerEntries {entries : List CacheEntry} {e x : CacheEntry}
    (h : x ∈ registerEntries entries e) (he : e.Clean) :
    (x ∈ entries ∧ x.key ≠ e.key) ∨ x = e := by
  unfold registerEntries at h
  rw [if_pos he] at h
  rcases List.mem_append.mp h with h | h
  · obtain ⟨h1, h2⟩ := List.mem_filter.mp h
    exact Or.inl ⟨h1, of_decide_eq_true h2⟩
  · exact Or.inr (List.mem_singleton.mp h)

theorem mem_touchEntries {entries : List CacheEntry} {key : Bytes} {nowMs : Int64}
    {x : CacheEntry} (h : x ∈ touchEntries entries key nowMs) (hkey : NulFree key) :
    (x ∈ entries ∧ x.key ≠ key) ∨ (x.key = key ∧ x.lastAccess = nowMs) := by
  unfold touchEntries at h
  rw [if_pos hkey] at h
  obtain ⟨y, hy, rfl⟩ := List.mem_map.mp h
  by_cases hyk : y.key = key
  · rw [if_pos hyk]
    exact Or.inr ⟨hyk, rfl⟩
  · rw [if_neg hyk]
    exact Or.inl ⟨hy, hyk⟩

/-- A key that is not there is not touched. -/
theorem touchEntries_absent {entries : List CacheEntry} {key : Bytes} (nowMs : Int64)
    (h : ∀ e ∈ entries, e.key ≠ key) : touchEntries entries key nowMs = entries := by
  unfold touchEntries
  split
  · exact (List.map_congr_left fun e he => if_neg (h e he)).trans (List.map_id entries)
  · rfl

/-- What the condition says of the entries. -/
theorem laterThanOthers_entries {c : Contents} {b : Bool} {entries : List CacheEntry}
    (hc : c.cache = entries.map CacheEntry.row) {key : Bytes} {nowMs : Int64}
    (h : LaterThanOthers (c.db b) key nowMs) {x : CacheEntry} (hx : x ∈ entries)
    (hk : x.key ≠ key) : x.lastAccess.toInt < nowMs.toInt := by
  refine h x.row ?_ fun hrow => hk (Value.text.inj (Option.some.inj hrow))
  rw [cacheRows_db, hc]
  exact List.mem_map_of_mem hx

section Steps

variable {limit : Int32} {s s' : CacheRun}

theorem register_ordered (h : Ordered s) {e : CacheEntry}
    (ht : TimeGoesOn s (.registerCacheEntry e))
    (hs : cacheStep limit s (.registerCacheEntry e) = some s') : Ordered s' := by
  obtain ⟨c, entries, hdb, hc, hord⟩ := h
  simp only [cacheStep] at hs
  split at hs
  · cases hs
  · obtain rfl := Option.some.inj hs
    rw [hdb, registerRow_db, hc, registered_map]
    refine ⟨_, registerEntries entries e, rfl, rfl, ?_⟩
    dsimp only
    by_cases he : e.Clean
    · have hlater := ht he
      rw [hdb] at hlater
      rw [if_pos he]
      refine ordered_use hord (fun x hx hk => ?_) fun x hx hk y hy hyk => ?_
      · rcases mem_registerEntries hx he with h | rfl
        · exact h.1
        · exact absurd rfl hk
      · rcases mem_registerEntries hx he with h | rfl
        · rcases mem_registerEntries hy he with h' | rfl
          · exact absurd hyk h'.2
          · exact laterThanOthers_entries hc hlater h.1 hk
        · exact absurd rfl hk
    · have hsame : registerEntries entries e = entries := if_neg he
      rw [if_neg he, hsame]
      exact hord

theorem fetch_ordered (h : Ordered s) {visit : Visit} {nowMs : Int64} {key : Bytes}
    (ht : TimeGoesOn s (.getCachedPath visit nowMs key))
    (hs : cacheStep limit s (.getCachedPath visit nowMs key) = some s') : Ordered s' := by
  obtain ⟨c, entries, hdb, hc, hord⟩ := h
  simp only [cacheStep] at hs
  split at hs
  · cases hs
  · cases hs
    rw [hdb, (getCachedPath_db c false visit nowMs key).1, cacheRows_db, hc, touched_map]
    refine ⟨_, touchEntries entries key nowMs, rfl, rfl, ?_⟩
    dsimp only
    by_cases hkey : Cached (entries.map CacheEntry.row) key
    · have hlater : LaterThanOthers s.db key nowMs := ht (by rw [hdb, cacheRows_db, hc]; exact hkey)
      rw [hdb] at hlater
      rw [if_pos hkey]
      refine ordered_use hord (fun x hx hk => ?_) fun x hx hk y hy hyk => ?_
      · rcases mem_touchEntries hx hkey.1 with h | h
        · exact h.1
        · exact absurd h.1 hk
      · rcases mem_touchEntries hx hkey.1 with h | h
        · rcases mem_touchEntries hy hkey.1 with h' | h'
          · exact absurd hyk h'.2
          · rw [h'.2]
            exact laterThanOthers_entries hc hlater h.1 hk
        · exact absurd h.1 hk
    · have hsame : touchEntries entries key nowMs = entries := by
        by_cases hnul : NulFree key
        · exact touchEntries_absent nowMs fun e he hek =>
            hkey ⟨hnul, e.row, List.mem_map_of_mem he, by rw [← hek]; rfl⟩
        · exact if_neg hnul
      rw [if_neg hkey, hsame]
      exact hord

/-- A round deletes, or it is the end of the loop. -/
theorem round_does {visits : Visits} (hs : cacheStep limit s (.round visits) = some s') :
    s' = { s with db := evictOne s.db visits } ∨ s' = { s with evicting := false } := by
  simp only [cacheStep] at hs
  split at hs
  · split at hs
    · exact Or.inl (Option.some.inj hs).symm
    · exact Or.inr (Option.some.inj hs).symm
  · cases hs

theorem round_ordered (h : Ordered s) {visits : Visits}
    (hs : cacheStep limit s (.round visits) = some s') : Ordered s' := by
  obtain ⟨c, entries, hdb, hc, hord⟩ := h
  rcases round_does hs with rfl | rfl
  · rw [hdb, evictOne_db]
    by_cases hne : entries = []
    · subst hne
      have hnil : c.cache = [] := hc
      rw [hnil, dropLeast_nil]
      exact ⟨_, [], rfl, rfl, fun _ ha => absurd ha List.not_mem_nil⟩
    · obtain ⟨a, _, _, heq⟩ := dropLeast_entries hne visits.delete
      rw [hc, heq]
      exact ⟨_, entries.filter fun x => x.key ≠ a.key, rfl, rfl, fun x hx y hy =>
        hord x (List.mem_filter.mp hx).1 y (List.mem_filter.mp hy).1⟩
  · exact ⟨c, entries, hdb, hc, hord⟩

/-- **Every step keeps the order.** -/
theorem step_ordered {a : CacheAct} (h : Ordered s) (ht : TimeGoesOn s a)
    (hs : cacheStep limit s a = some s') : Ordered s' := by
  cases a with
  | registerCacheEntry e => exact register_ordered h ht hs
  | getCachedPath visit nowMs key => exact fetch_ordered h ht hs
  | evictIfNeeded =>
    simp only [cacheStep] at hs
    split at hs
    · cases hs
    · cases hs
      exact h
  | round visits => exact round_ordered h hs

/-- **A round deletes the entry that was used least recently**, where the readings are in order. -/
theorem round_followsUse (h : Ordered s) {visits : Visits}
    (hs : cacheStep limit s (.round visits) = some s') : FollowsUse s s' := by
  obtain ⟨c, entries, hdb, hc, hord⟩ := h
  intro k l hk hgone hl
  rcases round_does hs with rfl | rfl
  · rw [hdb, storedKey_entries hc] at hk
    obtain ⟨x, hx, rfl⟩ := hk
    obtain ⟨a, ha, hmin, heq⟩ := dropLeast_entries (List.ne_nil_of_mem hx) visits.delete
    rw [hdb, evictOne_db, hc, heq, storedKey_entries rfl] at hgone hl
    obtain ⟨y, hy, rfl⟩ := hl
    obtain ⟨hy, hya⟩ := List.mem_filter.mp hy
    have hne : y.key ≠ a.key := of_decide_eq_true hya
    -- the key that is gone is the deleted one
    have hxa : x.key = a.key := by
      by_contra hxa
      exact hgone ⟨x, List.mem_filter.mpr ⟨hx, decide_eq_true hxa⟩, rfl⟩
    rw [hxa]
    rcases hord a ha y hy (Ne.symm hne) with h | h
    · exact h.2
    · exact absurd (hmin y hy) (not_le.mpr h.1)
  · exact absurd hk hgone

end Steps

/-- **Eviction follows use**: in every run whose stored readings go on, whenever a round deletes an
    entry, every entry that stays was registered or fetched later. -/
theorem evictionFollowsUse {limit : Int32} {s s' : CacheRun} {visits : Visits}
    (h : (cacheMachine limit).Reach TimeGoesOn s)
    (hs : (cacheMachine limit).step s (.round visits) = some s') : FollowsUse s s' := by
  have hord : Ordered s := h.invariant (ordered_init limit)
    fun u a v hu hc hstep => step_ordered hu hc hstep
  exact round_followsUse hord hs

/-! ## 4. A clock that steps back -/

/-- Two entries are registered one behind the other; together they are larger than 1 MB. -/
def twoEntries (first second : Int64) : List CacheAct :=
  [.registerCacheEntry ⟨ascii "a", ascii "/a", 600000, first⟩, .round ⟨.stored, .stored⟩,
    .registerCacheEntry ⟨ascii "b", ascii "/b", 600000, second⟩]

/-- The entries of a run with these uses. -/
def holding (evicting : Bool) (uses : List Bytes) (entries : List CacheEntry) : CacheRun :=
  ⟨Contents.db ⟨[], [], [], entries.map CacheEntry.row, []⟩ false, evicting, uses⟩

theorem register_holding {limit : Int32} {uses : List Bytes} {entries : List CacheEntry}
    {e : CacheEntry} (he : e.Clean) :
    (cacheMachine limit).step (holding false uses entries) (.registerCacheEntry e) =
      some (holding true (uses ++ [e.key]) (registerEntries entries e)) := by
  unfold holding
  rw [← registered_map]
  show some _ = some _
  rw [registerRow_db, if_pos he]

theorem init_holding : (cacheMachine (maxCacheBytes 1)).init = holding false [] [] := by
  unfold holding
  rw [List.map_nil, ← opened_eq]
  rfl

/-- The first entry alone is not too large. -/
theorem round_one : (cacheMachine (maxCacheBytes 1)).step (holding true ([] ++ [ascii "a"])
    (registerEntries [] ⟨ascii "a", ascii "/a", 600000, 5⟩)) (.round ⟨.stored, .stored⟩) =
      some (holding false [ascii "a"] [⟨ascii "a", ascii "/a", 600000, 5⟩]) := by
  decide +kernel

theorem clean_two (second : Int64) :
    (⟨ascii "b", ascii "/b", 600000, second⟩ : CacheEntry).Clean :=
  (by decide : NulFree (ascii "b") ∧ NulFree (ascii "/b"))

theorem twoEntries_run (second : Int64) :
    (cacheMachine (maxCacheBytes 1)).exec (cacheMachine (maxCacheBytes 1)).init
      (twoEntries 5 second) = some (holding true [ascii "a", ascii "b"]
        [⟨ascii "a", ascii "/a", 600000, 5⟩, ⟨ascii "b", ascii "/b", 600000, second⟩]) := by
  rw [init_holding, twoEntries, Machine.exec, register_holding (by decide), Option.bind_some,
    Machine.exec, round_one, Option.bind_some, Machine.exec, register_holding (clean_two second)]
  rfl

/-- One millisecond apart: the first entry goes. -/
theorem evictionFollowsUse_apart :
    ∃ s s', (cacheMachine (maxCacheBytes 1)).Reach TimeGoesOn s ∧
      (cacheMachine (maxCacheBytes 1)).step s (.round ⟨.stored, .stored⟩) = some s' ∧
      s' = holding true [ascii "a", ascii "b"] [⟨ascii "b", ascii "/b", 600000, 6⟩] ∧
      FollowsUse s s' := by
  have hrun := twoEntries_run 6
  have hmeets : (cacheMachine (maxCacheBytes 1)).meets TimeGoesOn
      (cacheMachine (maxCacheBytes 1)).init (twoEntries 5 6) := by
    rw [init_holding]
    refine (Machine.meets_cons_iff (register_holding (by decide))).mpr
      ⟨fun _ => nofun, (Machine.meets_cons_iff round_one).mpr ⟨trivial, ?_⟩⟩
    refine (Machine.meets_cons_iff (register_holding (clean_two 6))).mpr ⟨fun _ => ?_, trivial⟩
    exact (by decide : LaterThanOthers (holding false [ascii "a"]
      [⟨ascii "a", ascii "/a", 600000, 5⟩]).db (ascii "b") 6)
  have hround : (cacheMachine (maxCacheBytes 1)).step (holding true [ascii "a", ascii "b"]
        [⟨ascii "a", ascii "/a", 600000, 5⟩, ⟨ascii "b", ascii "/b", 600000, 6⟩])
      (.round ⟨.stored, .stored⟩) = some (holding true [ascii "a", ascii "b"]
        [⟨ascii "b", ascii "/b", 600000, 6⟩]) := by decide +kernel
  have hreach := Machine.steps_of_exec hrun hmeets
  exact ⟨_, _, hreach, hround, rfl, evictionFollowsUse hreach hround⟩

/-- **The clock steps back by a millisecond**: the entry just registered goes, and the older one
    stays. -/
theorem evictionFollowsUse_back :
    ∃ s s', (cacheMachine (maxCacheBytes 1)).Reach Machine.Any s ∧
      (cacheMachine (maxCacheBytes 1)).step s (.round ⟨.stored, .stored⟩) = some s' ∧
      s' = holding true [ascii "a", ascii "b"] [⟨ascii "a", ascii "/a", 600000, 5⟩] ∧
      ¬ FollowsUse s s' := by
  have hrun := twoEntries_run 4
  have hround : (cacheMachine (maxCacheBytes 1)).step (holding true [ascii "a", ascii "b"]
        [⟨ascii "a", ascii "/a", 600000, 5⟩, ⟨ascii "b", ascii "/b", 600000, 4⟩])
      (.round ⟨.stored, .stored⟩) = some (holding true [ascii "a", ascii "b"]
        [⟨ascii "a", ascii "/a", 600000, 5⟩]) := by decide +kernel
  have hreach := Machine.steps_of_exec hrun (Machine.meets_any _ _)
  refine ⟨_, _, hreach, hround, rfl, fun hfollows => ?_⟩
  unfold holding at hfollows
  have hused := hfollows (ascii "b") (ascii "a")
    ((storedKey_entries rfl _).mpr ⟨_, List.mem_cons_of_mem _ List.mem_cons_self, rfl⟩)
    (fun h => by
      obtain ⟨e, he, hkey⟩ := (storedKey_entries rfl _).mp h
      rw [List.mem_singleton.mp he] at hkey
      exact absurd hkey (by decide))
    ((storedKey_entries rfl _).mpr ⟨_, List.mem_cons_self, rfl⟩)
  exact not_usedLater_last [ascii "a"] (ascii "b") (ascii "a") hused

end Viral.Storage
