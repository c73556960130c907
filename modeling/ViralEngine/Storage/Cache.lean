/-
  File:      ViralEngine/Storage/Cache.lean
  Subject:   THE DISK CACHE OF THE STORAGE ENGINE
             (ViralEngine/core/ViralStorageEngine.h, ViralStorageEngine.cpp).

  The table `disk_cache` holds a path, a size and the time of the last access for each key.
  `registerCacheEntry` writes a row and then deletes least recently accessed rows as long as the
  sizes sum up to more than the limit; `getCachedPath` sets the time. The time is what `nowMs()`
  answers, and it is an argument here.

  * `maxCacheBytes` -- the limit, computed in `int`;
  * `registerCacheEntry`, `getCachedPath`, `getCacheSizeBytes`, `evictIfNeeded` -- the calls; the
    loop of `evictIfNeeded` asks SQLite twice a round, so it is given two orders for each round;
  * `cacheSize`, `dropLeast`, `evicted` -- the loop on the rows of the table;
  * `evictsTo_iff` -- **the loop stops at the first rows that are not too large**;
  * `dropLeast_entries` -- on the rows of records, a round deletes a least recently accessed one.
-/
import ViralEngine.Lib.Loop
import ViralEngine.Lib.SqlLeast
import ViralEngine.Storage.Refinement

namespace Viral.Storage

open Viral.Lib Viral.Lib.Sql

/-! ## 1. The calls -/

/-- `m_maxCacheBytes(maxCacheMB * 1024 * 1024)`. -/
def maxCacheBytes (maxCacheMB : Int32) : Int32 := maxCacheMB * 1024 * 1024

/-- The text of the INSERT. -/
def registerSql (key localPath : Bytes) (sizeBytes nowMs : Int64) : Bytes :=
  ascii "INSERT OR REPLACE INTO disk_cache VALUES ('"
    ++ esc key ++ ascii "','"
    ++ esc localPath ++ ascii "',"
    ++ toString sizeBytes.toInt ++ ascii ","
    ++ toString nowMs.toInt ++ ascii ");"

/-- The text of the UPDATE. -/
def touchSql (key : Bytes) (nowMs : Int64) : Bytes :=
  ascii "UPDATE disk_cache SET last_access=" ++ toString nowMs.toInt
    ++ ascii " WHERE key='" ++ esc key ++ ascii "';"

/-- `getCachedPath`: the path, if there is one, and then the time of use is stored. -/
def getCachedPath (db : Db) (visit : Visit) (nowMs : Int64) (key : Bytes) : Db × Bytes :=
  let sql := ascii "SELECT local_path FROM disk_cache WHERE key='" ++ esc key ++ ascii "';"
  match queryText db visit (cStr sql) with
  | some (row :: _) =>
    let path := match columnText row 0 with
      | some t => cStr t
      | none => ascii ""
    ((exec db (touchSql key nowMs)).1, path)
  | some [] | none => (db, ascii "")

/-- `getCacheSizeBytes`. The `exec` in front of it runs the same query for nothing. Where the sum
    overflows, no row comes, and the total stays 0. -/
def getCacheSizeBytes (db : Db) (visit : Visit) : Int :=
  match querySum db visit (cStr (ascii "SELECT SUM(size) FROM disk_cache;")) with
  | some (some total) => total
  | some none | none => 0

/-- The text of the DELETE. -/
def evictSql : Bytes :=
  ascii "DELETE FROM disk_cache WHERE key = (SELECT key FROM disk_cache ORDER BY last_access ASC "
    ++ ascii "LIMIT 1);"

/-- The orders in which the rows come by in a round: for the sum, and for the DELETE. -/
structure Visits where
  sum : Visit
  delete : Visit

/-- The test of the loop. -/
def tooLarge (limit : Int32) (db : Db) (visits : Visits) : Bool :=
  decide (limit.toInt < getCacheSizeBytes db visits.sum)

/-- The body of the loop. -/
def evictOne (db : Db) (visits : Visits) : Db := (execLeast db visits.delete (cStr evictSql)).1

/-- `evictIfNeeded`, with at most so many tests; `limit` is `m_maxCacheBytes`. -/
def evictIfNeeded (limit : Int32) (visits : Nat → Visits) (tests : Nat) (db : Db) : Option Db :=
  Loop.run (fun i db => tooLarge limit db (visits i)) (fun i db => evictOne db (visits i)) tests 0
    db

/-- `evictIfNeeded` ends, in `db'`. -/
def EvictsTo (limit : Int32) (visits : Nat → Visits) (db db' : Db) : Prop :=
  ∃ tests, evictIfNeeded limit visits tests db = some db'

/-- `registerCacheEntry` in front of its call of `evictIfNeeded`. -/
def registerRow (db : Db) (key localPath : Bytes) (sizeBytes nowMs : Int64) : Db :=
  (exec db (registerSql key localPath sizeBytes nowMs)).1

/-- `registerCacheEntry`: the row, then `evictIfNeeded`. -/
def registerCacheEntry (limit : Int32) (visits : Nat → Visits) (tests : Nat) (db : Db)
    (key localPath : Bytes) (sizeBytes nowMs : Int64) : Option Db :=
  evictIfNeeded limit visits tests (registerRow db key localPath sizeBytes nowMs)

/-! ## 2. The loop on the rows -/

/-- The columns of the table. -/
def sizeAt (row : Row) : Int := intAt 2 row

/-- The time of use in a row. -/
def accessAt (row : Row) : Int := intAt 3 row

/-- What `getCacheSizeBytes` answers. -/
def cacheSize (visit : Visit) (rows : List Row) : Int :=
  (sumFrom 0 ((visit.order rows).map sizeAt)).getD 0

/-- What the DELETE leaves. -/
def dropLeast (visit : Visit) (rows : List Row) : List Row :=
  let least := (leastRow visit 3 rows).bind fun r => r[0]?
  rows.filter fun r => least = none ∨ r[0]? ≠ least

/-- The rows in front of round `k`, however large they are. -/
def evicted (visits : Nat → Visits) (rows : List Row) (k : Nat) : List Row :=
  Loop.after (fun i rows => dropLeast (visits i).delete rows) rows k

section Rows

variable (c : Contents) (b : Bool)

theorem getCacheSizeBytes_db (visit : Visit) :
    getCacheSizeBytes (c.db b) visit = cacheSize visit c.cache := by
  have hread : (lex (cStr (ascii "SELECT SUM(size) FROM disk_cache;"))).map statements =
      some [[.word (ascii "select"), .word (ascii "sum"), .sign 40, .word (ascii "size"),
        .sign 41, .word (ascii "from"), .word (ascii "disk_cache")]] := by decide +kernel
  have hsum : querySum (c.db b) visit (cStr (ascii "SELECT SUM(size) FROM disk_cache;")) =
      Sum.run ⟨ascii "size", ascii "disk_cache"⟩ visit (c.db b) := by
    unfold querySum
    rw [hread]
    rfl
  have hrun : Sum.run ⟨ascii "size", ascii "disk_cache"⟩ visit (c.db b) =
      if visit.order c.cache = [] then some none
      else (sumFrom 0 ((visit.order c.cache).map sizeAt)).map some := by
    have htable : (c.db b).table (ascii "disk_cache") = some ⟨ascii "disk_cache",
        [textColumn "key", textColumn "local_path", intColumn "size", intColumn "last_access"],
        ascii "key", c.cache⟩ := rfl
    exact Sum.run_eq (q := ⟨ascii "size", ascii "disk_cache"⟩) htable rfl
  unfold getCacheSizeBytes cacheSize
  rw [hsum, hrun]
  by_cases hrows : visit.order c.cache = []
  · rw [if_pos hrows, hrows]
    rfl
  · rw [if_neg hrows]
    cases sumFrom 0 ((visit.order c.cache).map sizeAt) <;> rfl

theorem evictOne_db (visits : Visits) :
    evictOne (c.db b) visits = { c with cache := dropLeast visits.delete c.cache }.db b := by
  have hread : (lex (cStr evictSql)).map statements =
      some [[.word (ascii "delete"), .word (ascii "from"), .word (ascii "disk_cache"),
        .word (ascii "where"), .word (ascii "key"), .sign 61, .sign 40, .word (ascii "select"),
        .word (ascii "key"), .word (ascii "from"), .word (ascii "disk_cache"),
        .word (ascii "order"), .word (ascii "by"), .word (ascii "last_access"),
        .word (ascii "asc"), .word (ascii "limit"), .num 1, .sign 41]] := by decide +kernel
  unfold evictOne execLeast
  rw [hread]
  rfl

/-- The state in front of round `k`. -/
theorem after_db (visits : Nat → Visits) (k : Nat) :
    Loop.after (fun i db => evictOne db (visits i)) (c.db b) k =
      { c with cache := evicted visits c.cache k }.db b := by
  induction k with
  | zero => rfl
  | succ k ih =>
    rw [Loop.after, ih, evictOne_db]
    rfl

/-- The rows the loop stops at: the first ones that are not too large. -/
structure StopsAt (limit : Int32) (visits : Nat → Visits) (rows : List Row) (k : Nat) : Prop where
  goes : ∀ j < k, limit.toInt < cacheSize (visits j).sum (evicted visits rows j)
  stops : cacheSize (visits k).sum (evicted visits rows k) ≤ limit.toInt

/-- That is: the loop on the rows alone stops there. -/
theorem stopsAt_iff {limit : Int32} {visits : Nat → Visits} {rows : List Row} {k : Nat} :
    StopsAt limit visits rows k ↔
      Loop.StopsAt (fun i rows => decide (limit.toInt < cacheSize (visits i).sum rows))
        (fun i rows => dropLeast (visits i).delete rows) rows k := by
  constructor
  · intro h
    exact ⟨fun j hj => decide_eq_true (h.goes j hj), decide_eq_false (not_lt.mpr h.stops)⟩
  · intro h
    exact ⟨fun j hj => of_decide_eq_true (h.goes j hj),
      not_lt.mp (of_decide_eq_false h.stops)⟩

/-- **The loop of `evictIfNeeded` on the rows of the table.** -/
theorem evictsTo_iff (limit : Int32) (visits : Nat → Visits) (db' : Db) :
    EvictsTo limit visits (c.db b) db' ↔ ∃ k, StopsAt limit visits c.cache k ∧
      db' = { c with cache := evicted visits c.cache k }.db b := by
  have htest : ∀ k, tooLarge limit
      (Loop.after (fun i db => evictOne db (visits i)) (c.db b) k) (visits k) =
        decide (limit.toInt < cacheSize (visits k).sum (evicted visits c.cache k)) := by
    intro k
    unfold tooLarge
    rw [after_db, getCacheSizeBytes_db]
  unfold EvictsTo evictIfNeeded
  refine Loop.ends_iff.trans (exists_congr fun k => ?_)
  rw [after_db]
  refine and_congr_left fun _ => Iff.trans ?_ stopsAt_iff.symm
  -- both loops ask the same in every round
  constructor
  · intro h
    exact ⟨fun j hj => (htest j).symm.trans (h.goes j hj), (htest k).symm.trans h.stops⟩
  · intro h
    exact ⟨fun j hj => (htest j).trans (h.goes j hj), (htest k).trans h.stops⟩

end Rows

/-! ## 3. Rows of records -/

theorem dropLeast_nil (visit : Visit) : dropLeast visit [] = [] := rfl

/-- **A round deletes a record that was accessed least recently**, and every other with its key. -/
theorem dropLeast_entries {entries : List CacheEntry} (hne : entries ≠ []) (visit : Visit) :
    ∃ a ∈ entries, (∀ e ∈ entries, a.lastAccess.toInt ≤ e.lastAccess.toInt) ∧
      dropLeast visit (entries.map CacheEntry.row) =
        (entries.filter fun e => e.key ≠ a.key).map CacheEntry.row := by
  cases hleast : leastRow visit 3 (entries.map CacheEntry.row) with
  | none => exact absurd (List.map_eq_nil_iff.mp (leastRow_none hleast)) hne
  | some r =>
    obtain ⟨hmem, hmin⟩ := leastRow_spec hleast
    obtain ⟨a, ha, rfl⟩ := List.mem_map.mp hmem
    refine ⟨a, ha, fun e he => hmin e.row (List.mem_map_of_mem he), ?_⟩
    have hkey : ((some a.row).bind fun r => r[0]?) = some (Value.text a.key) := rfl
    unfold dropLeast
    rw [hleast, hkey, List.filter_map]
    congr 1
    refine List.filter_congr fun e _ => ?_
    have hrow : e.row[0]? = some (Value.text e.key) := rfl
    simp [hrow]

/-- A round on a table with rows takes at least one away. -/
theorem dropLeast_length {entries : List CacheEntry} (hne : entries ≠ []) (visit : Visit) :
    ∃ left : List CacheEntry, left.Sublist entries ∧ left.length < entries.length ∧
      dropLeast visit (entries.map CacheEntry.row) = left.map CacheEntry.row := by
  obtain ⟨a, ha, _, heq⟩ := dropLeast_entries hne visit
  refine ⟨_, List.filter_sublist, ?_, heq⟩
  refine List.length_filter_lt_length_iff_exists.mpr ⟨a, ha, ?_⟩
  simp

/-- The rows in front of a round are still rows of records, fewer by one for each round. -/
theorem evicted_entries (visits : Nat → Visits) (entries : List CacheEntry) (k : Nat) :
    ∃ left : List CacheEntry, left.Sublist entries ∧ left.length ≤ entries.length - k ∧
      evicted visits (entries.map CacheEntry.row) k = left.map CacheEntry.row := by
  induction k with
  | zero => exact ⟨entries, List.Sublist.refl _, Nat.le_refl _, rfl⟩
  | succ k ih =>
    obtain ⟨left, hsub, hlen, heq⟩ := ih
    have hstep : evicted visits (entries.map CacheEntry.row) (k + 1) =
        dropLeast (visits k).delete (left.map CacheEntry.row) :=
      congrArg (dropLeast (visits k).delete) heq
    by_cases hne : left = []
    · subst hne
      exact ⟨[], hsub, Nat.zero_le _, hstep⟩
    · obtain ⟨left', hsub', hlen', heq'⟩ := dropLeast_length hne (visits k).delete
      exact ⟨left', hsub'.trans hsub, by omega, hstep.trans heq'⟩

end Viral.Storage
