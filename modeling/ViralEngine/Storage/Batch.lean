/-
  File:      ViralEngine/Storage/Batch.lean
  Subject:   WHETHER A BATCH OF FEED VIDEOS IS SAVED ALL OR NOTHING.

  `saveFeedVideos` looks at no answer of SQLite. Any of its statements may fail, and a statement
  that fails changes nothing and leaves the transaction as it is; an INSERT with a NUL in one of
  its strings always fails, for its text is cut off (Storage/Texts.lean). The table is looked at
  over the connection of the engine, rows that are still pending included.

  * `saveFeedVideosFailing` -- the call, with the statements that fail;
    `saveFeedVideosFailing_none`: with none it is `saveFeedVideos`;
  * `accepted` -- the items whose INSERT goes through;
  * `lastOf`, `savedVideos` -- the last item with an id, and the records behind the call;
  * `AllOrNothing`, `BatchKept`, `batchSaved` -- **exactly when the batch is saved all or nothing**;
  * `batchSaved_fresh` -- for a batch of new items: all INSERTs go through, or none.
-/
import ViralEngine.Storage.Texts

namespace Viral.Storage

open Viral.Lib Viral.Lib.Sql

/-! ## 1. The call with statements that fail -/

/-- `exec`, where SQLite may answer an error for reasons of its own. -/
def execFailing (fails : Bool) (db : Db) (sql : Bytes) : Db × Bool :=
  if fails then (db, false) else exec db sql

/-- The loop from statement `i` on. -/
def insertVideos (fails : Nat → Bool) (i : Nat) (db : Db) : List VideoItem → Db
  | [] => db
  | v :: videos =>
    insertVideos fails (i + 1) (execFailing (fails i) db (feedVideoSql v)).1 videos

/-- `saveFeedVideos`: statement 0 is BEGIN, then there is one INSERT for each item, and the last
    one is COMMIT. -/
def saveFeedVideosFailing (fails : Nat → Bool) (db : Db) (videos : List VideoItem) : Db :=
  let db := (execFailing (fails 0) db (ascii "BEGIN TRANSACTION;")).1
  let db := insertVideos fails 1 db videos
  (execFailing (fails (videos.length + 1)) db (ascii "COMMIT;")).1

theorem execFailing_false (db : Db) (sql : Bytes) : execFailing false db sql = exec db sql :=
  if_neg Bool.false_ne_true

theorem saveFeedVideosFailing_none (db : Db) (videos : List VideoItem) :
    saveFeedVideosFailing (fun _ => false) db videos = saveFeedVideos db videos := by
  have hloop : ∀ i db, insertVideos (fun _ => false) i db videos =
      videos.foldl (fun db v => (exec db (feedVideoSql v)).1) db := by
    induction videos with
    | nil => exact fun _ _ => rfl
    | cons v videos ih =>
      intro i db
      rw [insertVideos, execFailing_false, List.foldl_cons]
      exact ih (i + 1) (exec db (feedVideoSql v)).1
  unfold saveFeedVideosFailing saveFeedVideos
  simp only [execFailing_false, hloop]

/-! ## 2. The records behind it -/

/-- The items whose INSERT goes through, from statement `i` on. -/
def accepted (fails : Nat → Bool) : Nat → List VideoItem → List VideoItem
  | _, [] => []
  | i, v :: videos =>
    if fails i = false ∧ v.Clean then v :: accepted fails (i + 1) videos
    else accepted fails (i + 1) videos

/-- INSERT OR REPLACE on the records. -/
def upsertVideo (stored : List VideoItem) (v : VideoItem) : List VideoItem :=
  stored.filter (fun w => w.id ≠ v.id) ++ [v]

theorem upsertVideo_row (stored : List VideoItem) (v : VideoItem) :
    upsertRow (stored.map VideoItem.row) v.row = (upsertVideo stored v).map VideoItem.row := by
  unfold upsertRow upsertVideo
  rw [List.filter_map, List.map_append]
  congr 2
  refine List.filter_congr fun w _ => ?_
  have hw : w.row[0]? = some (Value.text w.id) := rfl
  have hv : v.row[0]? = some (Value.text v.id) := rfl
  simp [hw, hv]

/-- The records behind the call. -/
def savedVideos (stored : List VideoItem) (fails : Nat → Bool) (videos : List VideoItem) :
    List VideoItem :=
  (accepted fails 1 videos).foldl upsertVideo stored

section Rows

variable {c : Contents} {b : Bool} {stored : List VideoItem}

/-- One INSERT. -/
theorem insertVideo_db (hc : c.videos = stored.map VideoItem.row) (fail : Bool) (v : VideoItem) :
    (execFailing fail (c.db b) (feedVideoSql v)).1 =
      { c with
        videos := (if fail = false ∧ v.Clean then upsertVideo stored v else stored).map
          VideoItem.row }.db b := by
  have hsame : c.db b = { c with videos := stored.map VideoItem.row }.db b := by rw [← hc]
  unfold execFailing
  cases fail with
  | true =>
    rw [if_pos rfl, if_neg (fun h => absurd h.1 (by decide))]
    exact hsame
  | false =>
    rw [if_neg (by decide)]
    by_cases hv : v.Clean
    · rw [if_pos ⟨rfl, hv⟩, exec_feedVideo c b hv, hc, upsertVideo_row]
    · have hnul : ∃ x ∈ (Text.saveFeedVideos v).values, ¬ ValueNulFree x := by
        by_contra hno
        refine hv ?_
        have hall : ∀ x ∈ v.row, ValueNulFree x := fun x hx => by_contra fun hn => hno ⟨x, hx, hn⟩
        simpa [VideoItem.Clean, VideoItem.row, ValueNulFree, flagValue] using hall
      rw [if_neg fun h => hv h.2]
      exact (congrArg Prod.fst (exec_cut (c.db b) hnul)).trans hsame

theorem insertVideos_db (fails : Nat → Bool) (i : Nat) (videos : List VideoItem)
    (hc : c.videos = stored.map VideoItem.row) :
    insertVideos fails i (c.db b) videos =
      { c with
        videos := ((accepted fails i videos).foldl upsertVideo stored).map VideoItem.row }.db
        b := by
  induction videos generalizing i c stored with
  | nil =>
    show c.db b = { c with videos := stored.map VideoItem.row }.db b
    rw [← hc]
  | cons v videos ih =>
    rw [insertVideos, insertVideo_db hc, ih (i + 1) rfl, accepted]
    split <;> rfl

/-- **The call leaves these records**, whatever fails. -/
theorem saveFeedVideosFailing_db (hc : c.videos = stored.map VideoItem.row) (fails : Nat → Bool)
    (videos : List VideoItem) :
    ∃ b', saveFeedVideosFailing fails (c.db b) videos =
      { c with videos := (savedVideos stored fails videos).map VideoItem.row }.db b' := by
  have hbegin : ∃ b', (execFailing (fails 0) (c.db b) (ascii "BEGIN TRANSACTION;")).1 =
      c.db b' := by
    unfold execFailing
    cases fails 0 with
    | true => exact ⟨b, rfl⟩
    | false =>
      cases b with
      | true => exact ⟨true, rfl⟩
      | false => exact ⟨true, rfl⟩
  have hcommit : ∀ (d : Contents) (b : Bool),
      ∃ b', (execFailing (fails (videos.length + 1)) (d.db b) (ascii "COMMIT;")).1 = d.db b' := by
    intro d b
    unfold execFailing
    cases fails (videos.length + 1) with
    | true => exact ⟨b, rfl⟩
    | false =>
      cases b with
      | true => exact ⟨false, rfl⟩
      | false => exact ⟨false, rfl⟩
  obtain ⟨b1, h1⟩ := hbegin
  unfold saveFeedVideosFailing
  dsimp only
  rw [h1, insertVideos_db fails 1 videos hc]
  exact hcommit _ b1

end Rows

/-! ## 3. All or nothing -/

/-- The last item with the id. -/
def lastOf (videos : List VideoItem) (id : Bytes) : Option VideoItem :=
  (videos.filter fun v => v.id = id).getLast?

theorem lastOf_id {videos : List VideoItem} {id : Bytes} {v : VideoItem}
    (h : lastOf videos id = some v) : v ∈ videos ∧ v.id = id := by
  obtain ⟨hv, hid⟩ := List.mem_filter.mp (List.mem_of_getLast? h)
  exact ⟨hv, of_decide_eq_true hid⟩

theorem lastOf_cons (v : VideoItem) (videos : List VideoItem) (id : Bytes) :
    lastOf (v :: videos) id = (lastOf videos id).or (if v.id = id then some v else none) := by
  unfold lastOf
  rw [List.filter_cons]
  by_cases hid : v.id = id
  · rw [if_pos (decide_eq_true hid), if_pos hid, List.getLast?_cons]
    cases (videos.filter fun v => v.id = id).getLast? <;> rfl
  · rw [if_neg (fun h => hid (of_decide_eq_true h)), if_neg hid, Option.or_none]

/-- **The records behind a batch of INSERTs**: for each id the last item, or what there was. -/
theorem lists_upserts {stored : List VideoItem} {m : Bytes → Option VideoItem}
    (h : Lists VideoItem.id m stored) (items : List VideoItem) :
    Lists VideoItem.id (fun id => (lastOf items id).or (m id))
      (items.foldl upsertVideo stored) := by
  induction items generalizing stored m with
  | nil => exact h
  | cons v items ih =>
    have hnext := ih (h.upsert v)
    have hsame : (fun id => (lastOf items id).or (Function.update m v.id (some v) id)) =
        fun id => (lastOf (v :: items) id).or (m id) := by
      funext id
      rw [lastOf_cons, Option.or_assoc]
      congr 1
      by_cases hid : v.id = id
      · rw [← hid, Function.update_self, if_pos rfl]
        rfl
      · rw [Function.update_of_ne (Ne.symm hid), if_neg hid]
        rfl
    rw [hsame] at hnext
    exact hnext

/-- **The table is unchanged, or it contains every item**: of items with the same id the last. -/
def AllOrNothing (rows rows' : List Row) (videos : List VideoItem) : Prop :=
  rows'.Perm rows ∨ ∀ id v, lastOf videos id = some v → v.row ∈ rows'

/-- **The condition.** Either no INSERT that goes through brings anything new; or for each id of
    the batch the last INSERT that goes through brings the last item, or, where none goes through,
    the table has it already. -/
def BatchKept (stored : List VideoItem) (fails : Nat → Bool) (videos : List VideoItem) : Prop :=
  (∀ id v, lastOf (accepted fails 1 videos) id = some v → v ∈ stored) ∨
  ∀ id v, lastOf videos id = some v →
    lastOf (accepted fails 1 videos) id = some v ∨
      (lastOf (accepted fails 1 videos) id = none ∧ v ∈ stored)

theorem flagValue_inj {a b : Bool} (h : flagValue a = flagValue b) : a = b := by
  cases a <;> cases b <;> first | rfl | exact absurd h (by decide)

/-- A row holds every field of its record. -/
theorem videoRow_inj {v w : VideoItem} (h : v.row = w.row) : v = w := by
  obtain ⟨id, url, thumbnailUrl, authorId, authorName, description, likes, comments, shares,
    timestamp, isLiked, isFollowing⟩ := v
  obtain ⟨id', url', thumbnailUrl', authorId', authorName', description', likes', comments',
    shares', timestamp', isLiked', isFollowing'⟩ := w
  simp only [VideoItem.row, List.cons.injEq, Value.text.injEq, Value.int.injEq, Int64.toInt_inj,
    and_true] at h
  obtain ⟨rfl, rfl, rfl, rfl, rfl, rfl, rfl, rfl, rfl, rfl, hliked, hfollowing⟩ := h
  rw [flagValue_inj hliked, flagValue_inj hfollowing]

theorem mem_rows {videos : List VideoItem} {v : VideoItem} :
    v.row ∈ videos.map VideoItem.row ↔ v ∈ videos := by
  constructor
  · intro h
    obtain ⟨w, hw, hrow⟩ := List.mem_map.mp h
    rw [← videoRow_inj hrow]
    exact hw
  · exact List.mem_map_of_mem

section Batch

variable {stored : List VideoItem} (hids : (stored.map VideoItem.id).Nodup)

include hids

/-- Which records there are behind the call. -/
theorem mem_savedVideos (fails : Nat → Bool) (videos : List VideoItem) (v : VideoItem) :
    v ∈ savedVideos stored fails videos ↔
      lastOf (accepted fails 1 videos) v.id = some v ∨
        (lastOf (accepted fails 1 videos) v.id = none ∧ v ∈ stored) := by
  have hbefore := lists_find hids
  have hmem := (lists_upserts hbefore (accepted fails 1 videos)).mem v
  unfold savedVideos
  rw [hmem, hbefore.mem v]
  exact Option.or_eq_some_iff

theorem savedVideos_perm (fails : Nat → Bool) (videos : List VideoItem) :
    ((savedVideos stored fails videos).map VideoItem.row).Perm (stored.map VideoItem.row) ↔
      ∀ id v, lastOf (accepted fails 1 videos) id = some v → v ∈ stored := by
  constructor
  · intro hp id v hlast
    have hid := (lastOf_id hlast).2
    rw [← mem_rows, ← hp.mem_iff, mem_rows, mem_savedVideos hids, hid]
    exact Or.inl hlast
  · intro hnothing
    have hafter := (lists_upserts (lists_find hids) (accepted fails 1 videos)).nodup
    refine List.Perm.map _ ((List.perm_ext_iff_of_nodup hafter.of_map hids.of_map).mpr
      fun v => ?_)
    rw [← savedVideos, mem_savedVideos hids]
    constructor
    · rintro (hlast | ⟨_, hv⟩)
      · exact hnothing v.id v hlast
      · exact hv
    · intro hv
      cases hlast : lastOf (accepted fails 1 videos) v.id with
      | none => exact Or.inr ⟨rfl, hv⟩
      | some w =>
        have hw := hnothing v.id w hlast
        have hid := (lastOf_id hlast).2
        rw [List.inj_on_of_nodup_map hids hw hv hid]
        exact Or.inl rfl

end Batch

/-- **When a batch is saved all or nothing**: for every batch, every table and every set of
    statements that fail. -/
theorem batchSaved (c : Contents) (b : Bool) {stored : List VideoItem}
    (hc : c.videos = stored.map VideoItem.row) (hids : (stored.map VideoItem.id).Nodup)
    (fails : Nat → Bool) (videos : List VideoItem) :
    ∃ c' b', saveFeedVideosFailing fails (c.db b) videos = Contents.db c' b' ∧
      (AllOrNothing c.videos c'.videos videos ↔ BatchKept stored fails videos) := by
  obtain ⟨b', hdb⟩ := saveFeedVideosFailing_db (b := b) hc fails videos
  refine ⟨_, b', hdb, ?_⟩
  show AllOrNothing c.videos ((savedVideos stored fails videos).map VideoItem.row) videos ↔ _
  rw [hc]
  refine or_congr (savedVideos_perm hids fails videos) (forall₂_congr fun id v =>
    imp_congr_right fun hlast => ?_)
  rw [mem_rows, mem_savedVideos hids, (lastOf_id hlast).2]

/-- Statements that fail for no reason of their own. -/
def noneFails : Nat → Bool := fun _ => false

/-- A video without texts and counts. -/
def video (id : String) (url : Bytes) : VideoItem :=
  ⟨ascii id, url, [], [], [], [], 0, 0, 0, 0, false, false⟩

/-- Two items with one id, and the first of two INSERTs fails: the later item is there. -/
theorem batchSaved_twice : ∃ c' b',
    saveFeedVideosFailing (fun i => i == 1) (Contents.db ⟨[], [], [], [], []⟩ false)
      [video "a" (ascii "old"), video "a" (ascii "new")] = Contents.db c' b' ∧
    AllOrNothing [] c'.videos [video "a" (ascii "old"), video "a" (ascii "new")] := by
  have hc : (Contents.mk [] [] [] [] []).videos = ([] : List VideoItem).map VideoItem.row := rfl
  obtain ⟨c', b', hdb, hiff⟩ := batchSaved ⟨[], [], [], [], []⟩ false hc
    List.nodup_nil (fun i => i == 1) [video "a" (ascii "old"), video "a" (ascii "new")]
  refine ⟨c', b', hdb, hiff.mpr (Or.inr fun id v hlast => Or.inl ?_)⟩
  have hid : ascii "a" = id := by
    obtain ⟨hv, hid⟩ := lastOf_id hlast
    rcases List.mem_cons.mp hv with rfl | hv
    · exact hid
    · rw [List.mem_singleton.mp hv] at hid
      exact hid
  subst hid
  have hnew : lastOf [video "a" (ascii "old"), video "a" (ascii "new")] (ascii "a") =
      some (video "a" (ascii "new")) := by decide
  rw [hnew] at hlast
  rw [← hlast]
  decide

/-- **A NUL in the second of two items**: its INSERT is cut off and fails, COMMIT goes through, and
    the first item is saved alone. -/
theorem batchSaved_nul : ∃ c' b',
    saveFeedVideosFailing noneFails (Contents.db ⟨[], [], [], [], []⟩ false)
      [video "a" (ascii "u"), video "b" [117, 0]] = Contents.db c' b' ∧
    c'.videos = [(video "a" (ascii "u")).row] ∧
    ¬ AllOrNothing [] c'.videos [video "a" (ascii "u"), video "b" [117, 0]] := by
  have hc : (Contents.mk [] [] [] [] []).videos = ([] : List VideoItem).map VideoItem.row := rfl
  obtain ⟨b', hdb⟩ := saveFeedVideosFailing_db (b := false) hc noneFails
    [video "a" (ascii "u"), video "b" [117, 0]]
  have hsaved : savedVideos [] noneFails [video "a" (ascii "u"), video "b" [117, 0]] =
      [video "a" (ascii "u")] := by decide
  rw [hsaved] at hdb
  refine ⟨_, b', hdb, rfl, fun h => ?_⟩
  rcases h with hperm | hall
  · exact absurd hperm.length_eq (by decide)
  · have hlast : lastOf [video "a" (ascii "u"), video "b" [117, 0]] (ascii "b") =
        some (video "b" [117, 0]) := by decide
    have hmem := hall (ascii "b") _ hlast
    have hkey := congrArg List.head? (List.mem_singleton.mp hmem)
    exact absurd hkey (by decide)

/-- **A batch of new items**, each id once: it is saved all or nothing exactly where all INSERTs go
    through or none does. -/
theorem batchSaved_fresh {stored videos : List VideoItem} (fails : Nat → Bool)
    (hids : (videos.map VideoItem.id).Nodup) (hnew : ∀ v ∈ videos, v ∉ stored) :
    BatchKept stored fails videos ↔
      accepted fails 1 videos = [] ∨ accepted fails 1 videos = videos := by
  have hsub : (accepted fails 1 videos).Sublist videos := by
    have hall : ∀ i, (accepted fails i videos).Sublist videos := by
      intro i
      clear hids hnew
      induction videos generalizing i with
      | nil => exact List.Sublist.refl _
      | cons v videos ih =>
        rw [accepted]
        split
        · exact (ih (i + 1)).cons_cons v
        · exact (ih (i + 1)).cons v
    exact hall 1
  have hlast : ∀ {l : List VideoItem}, (l.map VideoItem.id).Nodup → ∀ {v}, v ∈ l →
      lastOf l v.id = some v := by
    intro l hl v hv
    have hone : lastOf l v.id ≠ none := by
      unfold lastOf
      rw [ne_eq, List.getLast?_eq_none_iff]
      exact List.ne_nil_of_mem (List.mem_filter.mpr ⟨hv, decide_eq_true rfl⟩)
    obtain ⟨w, hw⟩ := Option.ne_none_iff_exists'.mp hone
    obtain ⟨hmem, hid⟩ := lastOf_id hw
    rw [hw, List.inj_on_of_nodup_map hl hmem hv hid]
  have hsubids : ((accepted fails 1 videos).map VideoItem.id).Nodup :=
    hids.sublist (hsub.map VideoItem.id)
  constructor
  · intro h
    rcases h with hnothing | hall
    · left
      refine List.eq_nil_iff_forall_not_mem.mpr fun v hv => ?_
      exact hnew v (hsub.subset hv) (hnothing v.id v (hlast hsubids hv))
    · right
      refine hsub.eq_of_length_le ?_
      refine (List.subperm_of_subset hids.of_map fun v hv => ?_).length_le
      rcases hall v.id v (hlast hids hv) with h | h
      · exact (lastOf_id h).1
      · exact absurd h.2 (hnew v hv)
  · intro h
    rcases h with hnone | hall
    · left
      intro id v h
      rw [hnone] at h
      cases h
    · right
      intro id v h
      rw [hall]
      exact Or.inl h

end Viral.Storage
