/-
  File:      ViralEngine/Storage/Eviction.lean
  Subject:   WHAT THE LOOP OF `evictIfNeeded` DELETES, AND WHETHER IT ENDS.

  The loop deletes least recently accessed rows until the size that SQLite reports is within the
  limit. The limit is computed in `int`, so from 2048 MB on it may be negative, and no table is
  that small; and where SUM overflows, the size is reported as 0 and the loop stops.

  * `totalSize`, `Overflows`, `cacheSize_of_overflow` -- the sizes, and what is reported of them;
  * `maxCacheBytes_le`, `maxCacheBytes_neg` -- the limit of `int` against the configured one;
  * `LimitKept`, `withinLimit_iff` -- exactly when the loop ends within the configured limit;
  * `withinLimit_usual` -- without negative sizes it does where the limit is not negative in `int`;
  * `cacheLimit` -- **both, for `evictIfNeeded` and for `registerCacheEntry`**;
  * `ascending`, `evicted_kept` -- with distinct times the rounds go through the records in
    ascending order of access;
  * `minimalEviction` -- **the loop deletes the shortest prefix that is enough.**
-/
import Mathlib.Algebra.Order.BigOperators.Group.List
import Mathlib.Data.List.Sublists
import ViralEngine.Storage.Texts

namespace Viral.Storage

open Viral.Lib Viral.Lib.Sql

/-! ## 1. Sizes -/

/-- The sum of the sizes. -/
def totalSize (rows : List Row) : Int := (rows.map sizeAt).sum

/-- SUM is an error. -/
def Overflows (visit : Visit) (rows : List Row) : Prop :=
  sumFrom 0 ((visit.order rows).map sizeAt) = none

theorem cacheSize_of_overflow {visit : Visit} {rows : List Row} (h : Overflows visit rows) :
    cacheSize visit rows = 0 := by
  unfold cacheSize
  rw [h]
  rfl

theorem cacheSize_of_not {visit : Visit} {rows : List Row} (h : ¬ Overflows visit rows) :
    cacheSize visit rows = totalSize rows := by
  unfold cacheSize
  cases hsum : sumFrom 0 ((visit.order rows).map sizeAt) with
  | none => exact absurd hsum h
  | some n =>
    have hn := sumFrom_some hsum
    rw [Int.zero_add] at hn
    rw [Option.getD_some, hn]
    exact ((visit.perm rows).map sizeAt).sum_eq

theorem cacheSize_nil (visit : Visit) : cacheSize visit [] = 0 := by
  have hnil : visit.order [] = [] := (visit.perm []).eq_nil
  unfold cacheSize
  rw [hnil]
  rfl

/-- What is reported is at least the sum, or 0. -/
theorem totalSize_le {visit : Visit} {rows : List Row} {n : Int} (hn : n < 0)
    (h : cacheSize visit rows ≤ n) : ¬ Overflows visit rows ∧ totalSize rows ≤ n := by
  have hsum : ¬ Overflows visit rows := by
    intro hover
    rw [cacheSize_of_overflow hover] at h
    omega
  rw [cacheSize_of_not hsum] at h
  exact ⟨hsum, h⟩

/-! ## 2. The limit -/

/-- The limit wraps around. -/
theorem maxCacheBytes_wraps (maxCacheMB : Int32) :
    ∃ q : Int, (maxCacheBytes maxCacheMB).toInt + 2 ^ 32 * q = maxCacheMB.toInt * 2 ^ 20 := by
  have h1024 : (1024 : Int32).toInt = 1024 := by decide
  refine ⟨(maxCacheMB.toInt * 1024 * 1024).bdiv (2 ^ 32), ?_⟩
  unfold maxCacheBytes
  rw [Int32.toInt_mul, Int32.toInt_mul, h1024, Int.bmod_mul_bmod]
  have h := Int.bmod_add_bdiv (maxCacheMB.toInt * 1024 * 1024) (2 ^ 32)
  omega

/-- The limit of `int` is never above the configured one. -/
theorem maxCacheBytes_le {maxCacheMB : Int32} (h : 0 ≤ maxCacheMB.toInt) :
    (maxCacheBytes maxCacheMB).toInt ≤ maxCacheMB.toInt * 2 ^ 20 := by
  obtain ⟨q, hq⟩ := maxCacheBytes_wraps maxCacheMB
  have hhi := (maxCacheBytes maxCacheMB).toInt_lt
  omega

/-- It is negative for half of the settings. -/
theorem maxCacheBytes_neg (maxCacheMB : Int32) :
    (maxCacheBytes maxCacheMB).toInt < 0 ↔ 2048 ≤ maxCacheMB.toInt % 4096 := by
  obtain ⟨q, hq⟩ := maxCacheBytes_wraps maxCacheMB
  have hlo := (maxCacheBytes maxCacheMB).le_toInt
  have hhi := (maxCacheBytes maxCacheMB).toInt_lt
  omega

/-! ## 3. When the loop ends within the configured limit -/

/-- `evictIfNeeded` ends, and the sizes sum up to at most the configured limit then. -/
def WithinLimit (maxCacheMB : Int32) (visits : Nat → Visits) (db : Db) : Prop :=
  ∃ (c : Contents) (b : Bool), EvictsTo (maxCacheBytes maxCacheMB) visits db (c.db b) ∧
    totalSize c.cache ≤ maxCacheMB.toInt * 2 ^ 20

/-- **The condition.** With a limit that is not negative in `int`: where all earlier rows were too
    large and SUM is an error, the sizes are within the configured limit nevertheless. With a
    negative one: some rows are as small as that. -/
def LimitKept (maxCacheMB : Int32) (visits : Nat → Visits) (rows : List Row) : Prop :=
  (maxCacheMB.toInt % 4096 < 2048 ∧
    ∀ k, (∀ j < k, ¬ Overflows (visits j).sum (evicted visits rows j) ∧
        (maxCacheBytes maxCacheMB).toInt < totalSize (evicted visits rows j)) →
      Overflows (visits k).sum (evicted visits rows k) →
      totalSize (evicted visits rows k) ≤ maxCacheMB.toInt * 2 ^ 20) ∨
  (2048 ≤ maxCacheMB.toInt % 4096 ∧
    ∃ k, ¬ Overflows (visits k).sum (evicted visits rows k) ∧
      totalSize (evicted visits rows k) ≤ (maxCacheBytes maxCacheMB).toInt)

theorem StopsAt.unique {limit : Int32} {visits : Nat → Visits} {rows : List Row} {k l : Nat}
    (hk : StopsAt limit visits rows k) (hl : StopsAt limit visits rows l) : k = l :=
  (stopsAt_iff.mp hk).unique (stopsAt_iff.mp hl)

/-- Rows that are small enough are met first somewhere. -/
theorem exists_stopsAt {limit : Int32} {visits : Nat → Visits} {rows : List Row} {k : Nat}
    (h : cacheSize (visits k).sum (evicted visits rows k) ≤ limit.toInt) :
    ∃ l, StopsAt limit visits rows l := by
  have hstop : ∃ l ≤ k, Loop.StopsAt
      (fun i rows => decide (limit.toInt < cacheSize (visits i).sum rows))
      (fun i rows => dropLeast (visits i).delete rows) rows l :=
    Loop.exists_stopsAt (decide_eq_false (not_lt.mpr h))
  obtain ⟨l, _, hl⟩ := hstop
  exact ⟨l, stopsAt_iff.mpr hl⟩

/-- With a limit that is not negative the loop stops on the empty table at the latest. -/
theorem exists_stopsAt_nonneg {limit : Int32} (h : 0 ≤ limit.toInt) (visits : Nat → Visits)
    (entries : List CacheEntry) :
    ∃ l, StopsAt limit visits (entries.map CacheEntry.row) l := by
  obtain ⟨left, _, hlen, heq⟩ := evicted_entries visits entries entries.length
  rw [Nat.sub_self, Nat.le_zero, List.length_eq_zero_iff] at hlen
  rw [hlen, List.map_nil] at heq
  refine exists_stopsAt (k := entries.length) ?_
  rw [heq, cacheSize_nil]
  exact h

/-- The rows of a database. -/
theorem cache_inj {c c' : Contents} {b b' : Bool} (h : c.db b = c'.db b') :
    c.cache = c'.cache := by
  have hrows := congrArg (fun db => (db.tables[3]?).map Table.rows) h
  exact Option.some.inj hrows

theorem withinLimit_rows {maxCacheMB : Int32} {visits : Nat → Visits} {c : Contents} {b : Bool} :
    WithinLimit maxCacheMB visits (c.db b) ↔
      ∃ k, StopsAt (maxCacheBytes maxCacheMB) visits c.cache k ∧
        totalSize (evicted visits c.cache k) ≤ maxCacheMB.toInt * 2 ^ 20 := by
  constructor
  · rintro ⟨c', b', hends, hle⟩
    obtain ⟨k, hk, heq⟩ := (evictsTo_iff c b _ visits _).mp hends
    rw [cache_inj heq] at hle
    exact ⟨k, hk, hle⟩
  · rintro ⟨k, hk, hle⟩
    exact ⟨_, b, (evictsTo_iff c b _ visits _).mpr ⟨k, hk, rfl⟩, hle⟩

/-- In front of the round that stops, with a limit that is not negative, no SUM is an error. -/
theorem StopsAt.before {limit : Int32} {visits : Nat → Visits} {rows : List Row} {k : Nat}
    (h : StopsAt limit visits rows k) (hlimit : 0 ≤ limit.toInt) {j : Nat} (hj : j < k) :
    ¬ Overflows (visits j).sum (evicted visits rows j) ∧
      limit.toInt < totalSize (evicted visits rows j) := by
  have hgo := h.goes j hj
  have hsum : ¬ Overflows (visits j).sum (evicted visits rows j) := by
    intro hover
    rw [cacheSize_of_overflow hover] at hgo
    omega
  rw [cacheSize_of_not hsum] at hgo
  exact ⟨hsum, hgo⟩

/-- **When the loop ends within the configured limit.** -/
theorem withinLimit_iff {maxCacheMB : Int32} (h0 : 0 ≤ maxCacheMB.toInt) (visits : Nat → Visits)
    {c : Contents} (b : Bool) {entries : List CacheEntry}
    (hc : c.cache = entries.map CacheEntry.row) :
    WithinLimit maxCacheMB visits (c.db b) ↔ LimitKept maxCacheMB visits c.cache := by
  have hle := maxCacheBytes_le h0
  have hneg := maxCacheBytes_neg maxCacheMB
  rw [withinLimit_rows]
  constructor
  · rintro ⟨k, hk, hsize⟩
    by_cases hlimit : 0 ≤ (maxCacheBytes maxCacheMB).toInt
    · refine Or.inl ⟨by omega, fun l hbefore hover => ?_⟩
      -- an error is reported as 0, so the loop stops there
      have hl : StopsAt (maxCacheBytes maxCacheMB) visits c.cache l := by
        refine ⟨fun j hj => ?_, ?_⟩
        · obtain ⟨hsum, hlt⟩ := hbefore j hj
          rw [cacheSize_of_not hsum]
          exact hlt
        · rw [cacheSize_of_overflow hover]
          exact hlimit
      rw [hl.unique hk]
      exact hsize
    · exact Or.inr ⟨by omega, k, totalSize_le (by omega) hk.stops⟩
  · rintro (⟨hmod, hkept⟩ | ⟨hmod, k, hsum, hsize⟩)
    · have hlimit : 0 ≤ (maxCacheBytes maxCacheMB).toInt := by omega
      obtain ⟨k, hk⟩ := exists_stopsAt_nonneg hlimit visits entries
      rw [← hc] at hk
      refine ⟨k, hk, ?_⟩
      by_cases hover : Overflows (visits k).sum (evicted visits c.cache k)
      · exact hkept k (fun j hj => hk.before hlimit hj) hover
      · have hstop := hk.stops
        rw [cacheSize_of_not hover] at hstop
        omega
    · have hstop : cacheSize (visits k).sum (evicted visits c.cache k) ≤
          (maxCacheBytes maxCacheMB).toInt := by
        rw [cacheSize_of_not hsum]
        exact hsize
      obtain ⟨l, hl⟩ := exists_stopsAt hstop
      obtain ⟨_, hsize'⟩ := totalSize_le (by omega) hl.stops
      exact ⟨l, hl, by omega⟩

/-! ## 4. Sizes without overflow -/

/-- The sum of the sizes of some records. -/
def entriesSize (entries : List CacheEntry) : Int := (entries.map fun e => e.size.toInt).sum

theorem totalSize_entries (entries : List CacheEntry) :
    totalSize (entries.map CacheEntry.row) = entriesSize entries := by
  unfold totalSize entriesSize
  rw [List.map_map]
  rfl

/-- **SUM is no error where all sums of some of the sizes have 64 bits.** -/
theorem not_overflows {entries : List CacheEntry}
    (hfits : ∀ l, l.Sublist entries → Fits (entriesSize l)) (visit : Visit) :
    ¬ Overflows visit (entries.map CacheEntry.row) := by
  have hsizes : ((visit.order (entries.map CacheEntry.row)).map sizeAt).Perm
      (entries.map fun e => e.size.toInt) := by
    have h := (visit.perm (entries.map CacheEntry.row)).map sizeAt
    rwa [List.map_map] at h
  have hparts : ∀ l, l <+: (visit.order (entries.map CacheEntry.row)).map sizeAt → l ≠ [] →
      Fits (0 + l.sum) := by
    intro l hl _
    -- the sizes up to here are those of some of the records, in another order
    obtain ⟨l', hperm, hsub⟩ := hl.sublist.subperm.trans hsizes.subperm
    obtain ⟨es, hes, rfl⟩ := List.sublist_map_iff.mp hsub
    rw [Int.zero_add, ← hperm.sum_eq]
    exact hfits es hes
  intro hover
  have hsum := (sumFrom_eq hparts).symm.trans hover
  cases hsum

/-- **The usual tables**: without negative sizes, the loop ends within the limit exactly where the
    limit is not negative in `int`. -/
theorem withinLimit_usual {maxCacheMB : Int32} (h0 : 0 ≤ maxCacheMB.toInt)
    (visits : Nat → Visits) {c : Contents} (b : Bool) {entries : List CacheEntry}
    (hc : c.cache = entries.map CacheEntry.row) (hsizes : ∀ e ∈ entries, 0 ≤ e.size.toInt)
    (hfits : Fits (entriesSize entries)) :
    WithinLimit maxCacheMB visits (c.db b) ↔ maxCacheMB.toInt % 4096 < 2048 := by
  have hnonneg : ∀ l, l.Sublist entries → 0 ≤ entriesSize l := by
    intro l hl
    refine List.sum_nonneg fun n hn => ?_
    obtain ⟨e, he, rfl⟩ := List.mem_map.mp hn
    exact hsizes e (hl.subset he)
  have hall : ∀ l, l.Sublist entries → Fits (entriesSize l) := by
    intro l hl
    have hle : entriesSize l ≤ entriesSize entries := by
      refine (hl.map _).sum_le_sum fun n hn => ?_
      obtain ⟨e, he, rfl⟩ := List.mem_map.mp hn
      exact hsizes e he
    have h1 := hnonneg l hl
    have h2 := hfits.2
    exact ⟨by omega, by omega⟩
  have hneg := maxCacheBytes_neg maxCacheMB
  rw [withinLimit_iff h0 visits b hc, hc]
  constructor
  · rintro (⟨hmod, _⟩ | ⟨hmod, k, _, hsize⟩)
    · exact hmod
    · obtain ⟨left, hsub, _, heq⟩ := evicted_entries visits entries k
      rw [heq, totalSize_entries] at hsize
      have h1 := hnonneg left hsub
      omega
  · intro hmod
    refine Or.inl ⟨hmod, fun k _ hover => ?_⟩
    obtain ⟨left, hsub, _, heq⟩ := evicted_entries visits entries k
    rw [heq] at hover
    exact absurd hover (not_overflows (fun l hl => hall l (hl.trans hsub)) _)

/-! ## 5. The law -/

/-- **When the cache is within its limit behind `evictIfNeeded` and `registerCacheEntry`**, for
    every table and every order in which SQLite goes through it; without negative sizes it depends
    on the setting alone. -/
theorem cacheLimit {maxCacheMB : Int32} (h0 : 0 ≤ maxCacheMB.toInt) (visits : Nat → Visits)
    (c : Contents) (b : Bool) {entries : List CacheEntry}
    (hc : c.cache = entries.map CacheEntry.row) :
    (WithinLimit maxCacheMB visits (c.db b) ↔ LimitKept maxCacheMB visits c.cache) ∧
    (∀ e : CacheEntry,
      (∃ (tests : Nat) (c' : Contents) (b' : Bool),
        registerCacheEntry (maxCacheBytes maxCacheMB) visits tests (c.db b) e.key e.localPath
          e.size e.lastAccess = some (c'.db b') ∧
        totalSize c'.cache ≤ maxCacheMB.toInt * 2 ^ 20) ↔
      LimitKept maxCacheMB visits (registered c.cache e)) ∧
    ((∀ e ∈ entries, 0 ≤ e.size.toInt) → Fits (entriesSize entries) →
      (WithinLimit maxCacheMB visits (c.db b) ↔ maxCacheMB.toInt % 4096 < 2048)) := by
  refine ⟨withinLimit_iff h0 visits b hc, fun e => ?_, withinLimit_usual h0 visits b hc⟩
  have heq := registered_map entries e
  rw [← hc] at heq
  have hiff := withinLimit_iff h0 visits (c := { c with cache := registered c.cache e }) b heq
  rw [← registerRow_db] at hiff
  refine Iff.trans ⟨?_, ?_⟩ hiff
  · rintro ⟨tests, c', b', hrun, hsize⟩
    exact ⟨c', b', ⟨tests, hrun⟩, hsize⟩
  · rintro ⟨c', b', ⟨tests, hrun⟩, hsize⟩
    exact ⟨tests, c', b', hrun, hsize⟩

/-- SQLite goes through the table as it was written, in every round. -/
def storedVisits : Nat → Visits := fun _ => ⟨.stored, .stored⟩

/-- An old record and a large one, that must go for a new one. -/
def largeEntries : List CacheEntry :=
  [⟨ascii "new", ascii "/new", 7, 30⟩, ⟨ascii "large", ascii "/large", 629145600, 20⟩,
    ⟨ascii "old", ascii "/old", 100, 10⟩]

/-- 512 MB, and a table of more than that. -/
theorem cacheLimit_largeEntries :
    512 * 2 ^ 20 < totalSize (largeEntries.map CacheEntry.row) ∧
      WithinLimit 512 storedVisits
        (Contents.db ⟨[], [], [], largeEntries.map CacheEntry.row, []⟩ false) := by
  have h0 : 0 ≤ (512 : Int32).toInt := by decide
  have hc : (Contents.mk [] [] [] (largeEntries.map CacheEntry.row) []).cache =
      largeEntries.map CacheEntry.row := rfl
  have husual := (cacheLimit h0 storedVisits _ false hc).2.2 (by decide) (by decide)
  exact ⟨by decide, husual.mpr (by decide)⟩

/-- **2048 MB**: the limit is `-2147483648`, and the loop never ends, not even on the empty
    table. -/
theorem cacheLimit_2048 : (maxCacheBytes 2048).toInt = -2147483648 ∧
    (∀ tests, evictIfNeeded (maxCacheBytes 2048) storedVisits tests opened = none) ∧
    ¬ WithinLimit 2048 storedVisits opened := by
  have hempty : ∀ k, evicted storedVisits [] k = [] := by
    intro k
    obtain ⟨left, hsub, _, heq⟩ := evicted_entries storedVisits [] k
    rw [List.sublist_nil.mp hsub] at heq
    exact heq
  have hnever : ∀ db', ¬ EvictsTo (maxCacheBytes 2048) storedVisits opened db' := by
    intro db' hends
    rw [opened_eq] at hends
    obtain ⟨k, hk, _⟩ := (evictsTo_iff ⟨[], [], [], [], []⟩ false _ storedVisits db').mp hends
    have hstop := hk.stops
    rw [hempty, cacheSize_nil] at hstop
    exact absurd hstop (by decide)
  refine ⟨by decide, fun tests => ?_, ?_⟩
  · cases hrun : evictIfNeeded (maxCacheBytes 2048) storedVisits tests opened with
    | none => rfl
    | some db' => exact absurd ⟨tests, hrun⟩ (hnever db')
  · rintro ⟨c, b, hends, _⟩
    exact hnever _ hends

/-! ## 6. Which records the loop deletes -/

/-- The records in ascending order of access. -/
def ascending (entries : List CacheEntry) : List CacheEntry :=
  entries.insertionSort fun a b => a.lastAccess.toInt ≤ b.lastAccess.toInt

/-- The records that are left behind `k` rounds. -/
def keptBehind (entries : List CacheEntry) (k : Nat) : List CacheEntry :=
  entries.filter fun e => e ∈ (ascending entries).drop k

theorem ascending_perm (entries : List CacheEntry) : (ascending entries).Perm entries :=
  List.perm_insertionSort _ entries

section Rounds

variable {entries : List CacheEntry}

/-- No two records were accessed at the same time. -/
theorem ascending_strict (haccess : (entries.map CacheEntry.lastAccess).Nodup) :
    (ascending entries).Pairwise fun a b => a.lastAccess.toInt < b.lastAccess.toInt := by
  have hnodup : ((ascending entries).map CacheEntry.lastAccess).Nodup :=
    (((ascending_perm entries).map CacheEntry.lastAccess).nodup_iff).mpr haccess
  have htotal : Std.Total fun a b : CacheEntry => a.lastAccess.toInt ≤ b.lastAccess.toInt :=
    ⟨fun a b => le_total a.lastAccess.toInt b.lastAccess.toInt⟩
  have htrans : IsTrans CacheEntry fun a b => a.lastAccess.toInt ≤ b.lastAccess.toInt :=
    ⟨fun _ _ _ h1 h2 => le_trans h1 h2⟩
  have hsorted : (ascending entries).Pairwise
      fun a b => a.lastAccess.toInt ≤ b.lastAccess.toInt := List.pairwise_insertionSort _ entries
  have hne : (ascending entries).Pairwise fun a b => a.lastAccess ≠ b.lastAccess :=
    List.pairwise_map.mp hnodup
  refine (hsorted.and hne).imp fun {a b} h => ?_
  have hneq : a.lastAccess.toInt ≠ b.lastAccess.toInt := fun e => h.2 (Int64.toInt_inj.mp e)
  have hle := h.1
  omega

theorem keptBehind_zero (entries : List CacheEntry) : keptBehind entries 0 = entries := by
  refine List.filter_eq_self.mpr fun e he => ?_
  rw [List.drop_zero]
  exact decide_eq_true ((ascending_perm entries).mem_iff.mpr he)

/-- The first record that is left in ascending order. -/
theorem ascending_drop {k : Nat} (hk : k < (ascending entries).length) :
    (ascending entries).drop k = (ascending entries)[k] :: (ascending entries).drop (k + 1) :=
  List.drop_eq_getElem_cons hk

/-- **A round deletes the next record in ascending order.** -/
theorem dropLeast_kept (hkeys : (entries.map CacheEntry.key).Nodup)
    (haccess : (entries.map CacheEntry.lastAccess).Nodup) (visit : Visit) (k : Nat) :
    dropLeast visit ((keptBehind entries k).map CacheEntry.row) =
      (keptBehind entries (k + 1)).map CacheEntry.row := by
  by_cases hk : k < (ascending entries).length
  · have hdrop := ascending_drop hk
    have hstrict := (ascending_strict haccess).sublist (List.drop_sublist k _)
    rw [hdrop, List.pairwise_cons] at hstrict
    have hmem : ∀ e, e ∈ keptBehind entries k ↔ e ∈ (ascending entries).drop k := by
      intro e
      unfold keptBehind
      rw [List.mem_filter, decide_eq_true_eq]
      exact and_iff_right_of_imp fun he =>
        (ascending_perm entries).mem_iff.mp (List.mem_of_mem_drop he)
    have hfirst : (ascending entries)[k] ∈ keptBehind entries k := by
      rw [hmem, hdrop]
      exact List.mem_cons_self
    obtain ⟨a, ha, hmin, heq⟩ := dropLeast_entries (List.ne_nil_of_mem hfirst) visit
    -- the least record is the first one, for the others were accessed later
    have hleast : a = (ascending entries)[k] := by
      rw [hmem, hdrop] at ha
      rcases List.mem_cons.mp ha with rfl | ha
      · rfl
      · have h1 := hmin _ hfirst
        have h2 := hstrict.1 a ha
        omega
    rw [heq]
    congr 1
    unfold keptBehind
    rw [List.filter_filter]
    refine List.filter_congr fun e he => ?_
    rw [hdrop, ← hleast]
    have hkey : e.key = a.key → e = a := fun h =>
      List.inj_on_of_nodup_map hkeys he (List.mem_filter.mp ha).1 h
    have hnot : a ∉ (ascending entries).drop (k + 1) := by
      intro hin
      have h := hstrict.1 a hin
      rw [← hleast] at h
      omega
    by_cases hea : e = a
    · subst hea
      simp [hnot]
    · have hne : e.key ≠ a.key := fun h => hea (hkey h)
      simp [hea, hne]
  · have hnone : ∀ j, k ≤ j → keptBehind entries j = [] := by
      intro j hj
      unfold keptBehind
      rw [List.drop_eq_nil_of_le (by omega)]
      exact List.filter_eq_nil_iff.mpr fun e _ => by simp
    rw [hnone k (Nat.le_refl k), hnone (k + 1) (Nat.le_succ k)]
    exact dropLeast_nil visit

/-- **The rounds go through the records in ascending order of access.** -/
theorem evicted_kept (hkeys : (entries.map CacheEntry.key).Nodup)
    (haccess : (entries.map CacheEntry.lastAccess).Nodup) (visits : Nat → Visits) (k : Nat) :
    evicted visits (entries.map CacheEntry.row) k = (keptBehind entries k).map CacheEntry.row := by
  induction k with
  | zero => rw [keptBehind_zero]; rfl
  | succ k ih =>
    have hstep : evicted visits (entries.map CacheEntry.row) (k + 1) =
        dropLeast (visits k).delete ((keptBehind entries k).map CacheEntry.row) :=
      congrArg (dropLeast (visits k).delete) ih
    rw [hstep, dropLeast_kept hkeys haccess]

theorem keptBehind_perm (hkeys : (entries.map CacheEntry.key).Nodup) (k : Nat) :
    (keptBehind entries k).Perm ((ascending entries).drop k) := by
  have hnodup : entries.Nodup := hkeys.of_map _
  have hsorted : (ascending entries).Nodup := (ascending_perm entries).nodup_iff.mpr hnodup
  refine (List.perm_ext_iff_of_nodup (hnodup.filter _)
    (hsorted.sublist (List.drop_sublist k _))).mpr fun e => ?_
  rw [List.mem_filter, decide_eq_true_eq]
  exact and_iff_right_of_imp fun he =>
    (ascending_perm entries).mem_iff.mp (List.mem_of_mem_drop he)

/-- What the loop is told of the sizes is their sum. -/
theorem cacheSize_kept (hkeys : (entries.map CacheEntry.key).Nodup)
    (hfits : ∀ l, l.Sublist entries → Fits (entriesSize l)) (visit : Visit) (k : Nat) :
    cacheSize visit ((keptBehind entries k).map CacheEntry.row) =
      entriesSize ((ascending entries).drop k) := by
  have hsub : (keptBehind entries k).Sublist entries := List.filter_sublist
  rw [cacheSize_of_not (not_overflows (fun l hl => hfits l (hl.trans hsub)) visit),
    totalSize_entries]
  exact ((keptBehind_perm hkeys k).map fun e => e.size.toInt).sum_eq

end Rounds

/-- **Eviction deletes the shortest prefix that is enough.** With distinct times of access, the
    loop ends, whatever the sizes are; the records that are left are those behind the first `k` in
    ascending order of access, each as it was; `k` is the least number for which they are within
    the limit; and another call deletes nothing. -/
theorem minimalEviction {limit : Int32} (hlimit : 0 ≤ limit.toInt) {entries : List CacheEntry}
    (hkeys : (entries.map CacheEntry.key).Nodup)
    (haccess : (entries.map CacheEntry.lastAccess).Nodup)
    (hfits : ∀ l, l.Sublist entries → Fits (entriesSize l)) {c : Contents} (b : Bool)
    (hc : c.cache = entries.map CacheEntry.row) (visits : Nat → Visits) :
    ∃ k, entriesSize ((ascending entries).drop k) ≤ limit.toInt ∧
      (∀ j < k, limit.toInt < entriesSize ((ascending entries).drop j)) ∧
      (∀ db', EvictsTo limit visits (c.db b) db' ↔
        db' = { c with cache := (keptBehind entries k).map CacheEntry.row }.db b) ∧
      ∀ visits', evictIfNeeded limit visits' 1
          ({ c with cache := (keptBehind entries k).map CacheEntry.row }.db b) =
        some ({ c with cache := (keptBehind entries k).map CacheEntry.row }.db b) := by
  have hsize : ∀ (visit : Visit) k, cacheSize visit (evicted visits c.cache k) =
      entriesSize ((ascending entries).drop k) := by
    intro visit k
    rw [hc, evicted_kept hkeys haccess, cacheSize_kept hkeys hfits]
  obtain ⟨k, hk⟩ := exists_stopsAt_nonneg hlimit visits entries
  rw [← hc] at hk
  have hstop := hk.stops
  rw [hsize] at hstop
  refine ⟨k, hstop, fun j hj => ?_, fun db' => ?_, fun visits' => ?_⟩
  · have hgo := hk.goes j hj
    rwa [hsize] at hgo
  · rw [evictsTo_iff]
    constructor
    · rintro ⟨l, hl, rfl⟩
      rw [hl.unique hk, hc, evicted_kept hkeys haccess]
    · rintro rfl
      refine ⟨k, hk, ?_⟩
      rw [hc, evicted_kept hkeys haccess]
  · have hsmall : tooLarge limit
        ({ c with cache := (keptBehind entries k).map CacheEntry.row }.db b) (visits' 0) =
          false := by
      unfold tooLarge
      rw [getCacheSizeBytes_db, cacheSize_kept hkeys hfits]
      exact decide_eq_false (not_lt.mpr hstop)
    unfold evictIfNeeded Loop.run
    rw [hsmall]
    rfl

/-- An old record with a negative size, one that is larger than the limit, and a new one. -/
def threeEntries : List CacheEntry :=
  [⟨ascii "new", ascii "/new", 7, 30⟩, ⟨ascii "large", ascii "/large", 100, 20⟩,
    ⟨ascii "old", ascii "/old", -5, 10⟩]

theorem minimalEviction_three :
    EvictsTo 10 storedVisits
      (Contents.db ⟨[], [], [], threeEntries.map CacheEntry.row, []⟩ false)
      (Contents.db ⟨[], [], [], (keptBehind threeEntries 2).map CacheEntry.row, []⟩ false) ∧
    keptBehind threeEntries 2 = [⟨ascii "new", ascii "/new", 7, 30⟩] := by
  have hfits : ∀ l, l.Sublist threeEntries → Fits (entriesSize l) := by
    intro l hl
    have hall : ∀ l ∈ threeEntries.sublists, Fits (entriesSize l) := by decide +kernel
    exact hall l (List.mem_sublists.mpr hl)
  obtain ⟨k, hle, hgo, hends, _⟩ := minimalEviction (by decide : 0 ≤ (10 : Int32).toInt)
    (by decide) (by decide) hfits false
    (rfl : (Contents.mk [] [] [] (threeEntries.map CacheEntry.row) []).cache = _) storedVisits
  have hk : k = 2 := by
    rcases Nat.lt_trichotomy k 2 with h | h | h
    · have h01 : k = 0 ∨ k = 1 := by omega
      rcases h01 with rfl | rfl
      · exact absurd hle (by decide)
      · exact absurd hle (by decide)
    · exact h
    · exact absurd (hgo 2 h) (by decide)
  subst hk
  exact ⟨(hends _).mpr rfl, by decide⟩

end Viral.Storage
