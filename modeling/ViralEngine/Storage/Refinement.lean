/-
  File:      ViralEngine/Storage/Refinement.lean
  Subject:   THE STORAGE ENGINE REFINES PLAIN MAPS.

  What the engine is for is a map from keys to records for each of its tables: the last record
  saved under a key, with the flags and statuses set since. `Store` is that, and knows no text, no
  column and no order. Every call does to the tables what `Store.apply` does to the maps, and the
  readers answer from the tables what the maps hold.

  * `Store`, `Store.apply` -- the reference;
  * `Call.Clean` -- the strings of a call have no NUL;
  * `Holds` -- the rows of a table hold the records of a map, in some order;
  * `Holds.upsert`, `Holds.set`, `Holds.perm`, `Holds.rowsWith` -- what the statements do;
  * `Sim`, `run_sim` -- **the simulation, kept by every call**;
  * `Refines`, `storageRefines` -- **what the readers answer behind any sequence of calls.**
-/
import ViralEngine.Lib.KeyedList
import ViralEngine.Storage.Queries

namespace Viral.Storage

open Viral.Lib Viral.Lib.Sql

/-! ## 1. The reference -/

/-- One map for each table. -/
structure Store where
  videos : Bytes → Option VideoItem
  profiles : Bytes → Option UserProfile
  messages : Bytes → Option StoredMessage
  cache : Bytes → Option CacheEntry
  settings : Bytes → Option Setting

/-- Nothing has been saved. -/
def Store.empty : Store :=
  ⟨fun _ => none, fun _ => none, fun _ => none, fun _ => none, fun _ => none⟩

/-- The record is the last one saved under its key. -/
def save {α : Type} (key : α → Bytes) (m : Bytes → Option α) (a : α) : Bytes → Option α :=
  Function.update m (key a) (some a)

/-- The record under the key is changed, if there is one. -/
def change {α : Type} (m : Bytes → Option α) (k : Bytes) (f : α → α) : Bytes → Option α :=
  Function.update m k ((m k).map f)

/-- **The calls on the reference.** -/
def Store.apply (s : Store) : Call → Store
  | .saveFeedVideos videos => { s with videos := videos.foldl (save VideoItem.id) s.videos }
  | .setVideoLiked videoId liked =>
    { s with videos := change s.videos videoId fun v => { v with isLiked := liked } }
  | .clearFeedCache => { s with videos := fun _ => none }
  | .saveUserProfile profile => { s with profiles := save UserProfile.id s.profiles profile }
  | .setFollowing userId following =>
    { s with profiles := change s.profiles userId fun p => { p with isFollowing := following } }
  | .saveMessage convId msgId senderId type text mediaUrl timestamp status =>
    { s with
      messages := save StoredMessage.id s.messages
        { id := msgId, convId := convId, senderId := senderId, text := text,
          mediaUrl := mediaUrl, type := type, status := status, timestamp := timestamp } }
  | .updateMessageStatus msgId status =>
    { s with messages := change s.messages msgId fun m => { m with status := status } }
  | .setSetting key value =>
    { s with settings := save Setting.key s.settings { key := key, value := value } }
  | .clearAll => Store.empty

/-- The strings of the call have no NUL. -/
def Call.Clean : Call → Prop
  | .saveFeedVideos videos => ∀ v ∈ videos, v.Clean
  | .setVideoLiked videoId _ => NulFree videoId
  | .clearFeedCache | .clearAll => True
  | .saveUserProfile profile => profile.Clean
  | .setFollowing userId _ => NulFree userId
  | .saveMessage convId msgId senderId _ text mediaUrl _ _ =>
    NulFree msgId ∧ NulFree convId ∧ NulFree senderId ∧ NulFree text ∧ NulFree mediaUrl
  | .updateMessageStatus msgId _ => NulFree msgId
  | .setSetting key value => NulFree key ∧ NulFree value

instance : ∀ call : Call, Decidable call.Clean
  | .saveFeedVideos videos => inferInstanceAs (Decidable (∀ v ∈ videos, v.Clean))
  | .setVideoLiked videoId _ => inferInstanceAs (Decidable (NulFree videoId))
  | .clearFeedCache | .clearAll => inferInstanceAs (Decidable True)
  | .saveUserProfile profile => inferInstanceAs (Decidable profile.Clean)
  | .setFollowing userId _ => inferInstanceAs (Decidable (NulFree userId))
  | .saveMessage .. => inferInstanceAs (Decidable (_ ∧ _))
  | .updateMessageStatus msgId _ => inferInstanceAs (Decidable (NulFree msgId))
  | .setSetting _ _ => inferInstanceAs (Decidable (_ ∧ _))

/-! ## 2. A table holds a map -/

/-- **The rows are the rows of the map's records**, in some order, and the records can be read
    back. -/
def Holds {α : Type} (row : α → Row) (key : α → Bytes) (Clean : α → Prop) (m : Bytes → Option α)
    (rows : List Row) : Prop :=
  ∃ l, rows = l.map row ∧ Lists key m l ∧ ∀ a ∈ l, Clean a

section Holds

variable {α : Type} {row : α → Row} {key : α → Bytes} {Clean : α → Prop} {m : Bytes → Option α}
  {rows rows' : List Row}

theorem holds_nil (row : α → Row) (key : α → Bytes) (Clean : α → Prop) :
    Holds row key Clean (fun _ => none) [] :=
  ⟨[], rfl, lists_nil key, nofun⟩

/-- **INSERT OR REPLACE is `save`.** -/
theorem Holds.upsert (h : Holds row key Clean m rows)
    (hkey : ∀ a, (row a)[0]? = some (.text (key a))) {a : α} (ha : Clean a) :
    Holds row key Clean (save key m a) (upsertRow rows (row a)) := by
  obtain ⟨l, rfl, hl, hclean⟩ := h
  refine ⟨l.filter (fun b => key b ≠ key a) ++ [a], ?_, hl.upsert a, ?_⟩
  · rw [upsertRow, List.filter_map, List.map_append]
    congr 2
    refine List.filter_congr fun b _ => ?_
    simp [hkey]
  · intro b hb
    rcases List.mem_append.mp hb with hb | hb
    · exact hclean b (List.mem_filter.mp hb).1
    · rw [List.mem_singleton.mp hb]
      exact ha

/-- One INSERT after the other. -/
theorem Holds.upserts (h : Holds row key Clean m rows)
    (hkey : ∀ a, (row a)[0]? = some (.text (key a))) {as : List α} (has : ∀ a ∈ as, Clean a) :
    Holds row key Clean (as.foldl (save key) m) ((as.map row).foldl upsertRow rows) := by
  induction as generalizing m rows with
  | nil => exact h
  | cons a as ih =>
    exact ih (h.upsert hkey (has a List.mem_cons_self))
      fun b hb => has b (List.mem_cons_of_mem a hb)

/-- **UPDATE of a column is `change`.** -/
theorem Holds.set (h : Holds row key Clean m rows)
    (hkey : ∀ a, (row a)[0]? = some (.text (key a))) (k : Bytes) {i : Nat} {value : Value}
    {f : α → α} (hrow : ∀ a, row (f a) = (row a).set i value) (hf : ∀ a, key (f a) = key a)
    (hc : ∀ a, Clean a → Clean (f a)) :
    Holds row key Clean (change m k f) (setColumn rows k i value) := by
  obtain ⟨l, rfl, hl, hclean⟩ := h
  refine ⟨l.map fun a => if key a = k then f a else a, ?_, hl.modify k hf, ?_⟩
  · rw [setColumn, List.map_map, List.map_map]
    refine List.map_congr_left fun a _ => ?_
    simp only [Function.comp_apply, hkey, Option.some.injEq, Value.text.injEq]
    split
    · exact (hrow a).symm
    · rfl
  · intro b hb
    obtain ⟨a, ha, rfl⟩ := List.mem_map.mp hb
    split
    · exact hc a (hclean a ha)
    · exact hclean a ha

/-- The order of the rows does not count. -/
theorem Holds.perm (h : Holds row key Clean m rows) {read : Row → α}
    (hread : ∀ a, Clean a → read (row a) = a) (hp : rows'.Perm rows) :
    Holds row key Clean m rows' := by
  obtain ⟨l, rfl, hl, hclean⟩ := h
  have hback : (l.map row).map read = l := by
    rw [List.map_map]
    exact (List.map_congr_left fun a ha => hread a (hclean a ha)).trans (List.map_id l)
  have hperm : (rows'.map read).Perm l := by
    have h := hp.map read
    rwa [hback] at h
  refine ⟨rows'.map read, ?_, hl.perm hperm, fun a ha => hclean a (hperm.mem_iff.mp ha)⟩
  rw [List.map_map]
  refine ((List.map_congr_left fun r hr => ?_).trans (List.map_id rows')).symm
  obtain ⟨a, ha, rfl⟩ := List.mem_map.mp (hp.mem_iff.mp hr)
  show row (read (row a)) = row a
  rw [hread a (hclean a ha)]

/-- **WHERE on a text column.** -/
theorem Holds.rowsWith (h : Holds row key Clean m rows) {k : Nat} {field : α → Bytes}
    (hfield : ∀ a, (row a)[k]? = some (.text (field a))) (text : Bytes) :
    Holds row key Clean (fun x => (m x).filter fun a => field a = text)
      (Storage.rowsWith k text rows) := by
  obtain ⟨l, rfl, hl, hclean⟩ := h
  refine ⟨l.filter fun a => field a = text, ?_, hl.filter _,
    fun a ha => hclean a (List.mem_filter.mp ha).1⟩
  rw [Storage.rowsWith, List.filter_map]
  congr 1
  refine List.filter_congr fun a _ => ?_
  simp [hfield]

/-- **The row of a key** is the row of the map's record. -/
theorem Holds.lookup (h : Holds row key Clean m rows)
    (hkey : ∀ a, (row a)[0]? = some (.text (key a))) (k : Bytes) :
    Storage.rowsWith 0 k rows = (m k).toList.map row ∧ ∀ a ∈ m k, Clean a ∧ key a = k := by
  obtain ⟨l, rfl, hl, hclean⟩ := h
  refine ⟨?_, fun a ha => ?_⟩
  · rw [Storage.rowsWith, List.filter_map, ← hl.filter_key k]
    congr 1
    refine List.filter_congr fun a _ => ?_
    simp [hkey]
  · have hak := hl.keyed k a ha
    exact ⟨hclean a ((hl.mem a).mpr (by rw [hak]; exact ha)), hak⟩

end Holds

/-! ## 3. The simulation -/

/-- **The tables hold the maps of the reference.** -/
structure SimRows (c : Contents) (s : Store) : Prop where
  videos : Holds VideoItem.row VideoItem.id VideoItem.Clean s.videos c.videos
  profiles : Holds UserProfile.row UserProfile.id UserProfile.Clean s.profiles c.profiles
  messages : Holds StoredMessage.row StoredMessage.id StoredMessage.Clean s.messages c.messages
  cache : Holds CacheEntry.row CacheEntry.key CacheEntry.Clean s.cache c.cache
  settings : Holds Setting.row Setting.key Setting.Clean s.settings c.settings

/-- The database outside of a transaction, with what the store says in its rows. -/
def Sim (db : Db) (s : Store) : Prop := ∃ c : Contents, db = c.db false ∧ SimRows c s

theorem simRows_empty : SimRows ⟨[], [], [], [], []⟩ Store.empty :=
  ⟨holds_nil .., holds_nil .., holds_nil .., holds_nil .., holds_nil ..⟩

theorem sim_opened : Sim opened Store.empty := ⟨_, opened_eq, simRows_empty⟩

/-- A flag in its column. -/
theorem videoRow_liked (v : VideoItem) (liked : Bool) :
    ({ v with isLiked := liked } : VideoItem).row = v.row.set 10 (flagValue liked) := rfl

theorem profileRow_following (p : UserProfile) (following : Bool) :
    ({ p with isFollowing := following } : UserProfile).row = p.row.set 8 (flagValue following) :=
  rfl

theorem messageRow_status (m : StoredMessage) (status : Int32) :
    ({ m with status := status } : StoredMessage).row = m.row.set 7 (.int status.toInt) := rfl

/-- **Every call keeps the simulation.** -/
theorem run_sim {db : Db} {s : Store} {call : Call} (h : Sim db s) (hclean : call.Clean) :
    Sim (call.run db) (s.apply call) := by
  obtain ⟨c, rfl, hv, hp, hm, hk, hs⟩ := h
  cases call with
  | saveFeedVideos videos =>
    rw [Call.run, saveFeedVideos_db c hclean]
    exact ⟨_, rfl, hv.upserts (fun _ => rfl) hclean, hp, hm, hk, hs⟩
  | setVideoLiked videoId liked =>
    rw [Call.run, setVideoLiked_db c hclean]
    exact ⟨_, rfl, hv.set (fun _ => rfl) videoId (fun v => videoRow_liked v liked) (fun _ => rfl)
      (fun _ hc => hc), hp, hm, hk, hs⟩
  | clearFeedCache =>
    rw [Call.run, clearFeedCache_db]
    exact ⟨_, rfl, holds_nil .., hp, hm, hk, hs⟩
  | saveUserProfile profile =>
    rw [Call.run, saveUserProfile_db c hclean]
    exact ⟨_, rfl, hv, hp.upsert (fun _ => rfl) hclean, hm, hk, hs⟩
  | setFollowing userId following =>
    rw [Call.run, setFollowing_db c hclean]
    exact ⟨_, rfl, hv, hp.set (fun _ => rfl) userId (fun p => profileRow_following p following)
      (fun _ => rfl) (fun _ hc => hc), hm, hk, hs⟩
  | saveMessage convId msgId senderId type text mediaUrl timestamp status =>
    have hmsg : StoredMessage.Clean ⟨msgId, convId, senderId, text, mediaUrl, type, status,
      timestamp⟩ := hclean
    have hrun := saveMessage_db c hmsg
    dsimp only at hrun
    rw [Call.run, hrun]
    exact ⟨_, rfl, hv, hp, hm.upsert (fun _ => rfl) hmsg, hk, hs⟩
  | updateMessageStatus msgId status =>
    rw [Call.run, updateMessageStatus_db c hclean]
    exact ⟨_, rfl, hv, hp, hm.set (fun _ => rfl) msgId (fun m => messageRow_status m status)
      (fun _ => rfl) (fun _ hc => hc), hk, hs⟩
  | setSetting key value =>
    have hset : Setting.Clean ⟨key, value⟩ := hclean
    have hrun := setSetting_db c hset
    dsimp only at hrun
    rw [Call.run, hrun]
    exact ⟨_, rfl, hv, hp, hm, hk, hs.upsert (fun _ => rfl) hset⟩
  | clearAll =>
    rw [Call.run, clearAll_db]
    exact ⟨_, rfl, simRows_empty⟩

/-- The run lemma: the simulation behind any sequence of calls. -/
theorem runs_sim {calls : List Call} (hclean : ∀ call ∈ calls, call.Clean) {db : Db} {s : Store}
    (h : Sim db s) : Sim (calls.foldl Call.run db) (calls.foldl Store.apply s) := by
  induction calls generalizing db s with
  | nil => exact h
  | cons call calls ih =>
    exact ih (fun c hc => hclean c (List.mem_cons_of_mem call hc))
      (run_sim h (hclean call List.mem_cons_self))

/-! ## 4. The readers -/

/-- In descending order of time. Records of one time may come in any order. -/
def NewestFirst {α : Type} (time : α → Int64) (l : List α) : Prop :=
  l.Pairwise fun a b => time b ≤ time a

/-- **What the readers answer is what the maps hold.** -/
structure Refines (db : Db) (s : Store) : Prop where
  feed : ∀ (visit : Visit) (limit offset : Int32), 0 ≤ limit →
    ∃ l, Lists VideoItem.id s.videos l ∧ NewestFirst VideoItem.timestamp l ∧
      getFeedVideos db visit limit offset = (l.drop offset.toInt.toNat).take limit.toInt.toNat
  profile : ∀ (visit : Visit) (p : UserProfile) (userId : Bytes) (profile : UserProfile),
    s.profiles userId = some profile → getUserProfile db visit p userId = profile
  messages : ∀ (visit : Visit) (convId : Bytes) (limit : Int32), NulFree convId → 0 ≤ limit →
    ∃ l, Lists StoredMessage.id (fun id => (s.messages id).filter fun m => m.convId = convId) l ∧
      NewestFirst StoredMessage.timestamp l ∧
      getMessages db visit convId limit = l.take limit.toInt.toNat
  setting : ∀ (visit : Visit) (key defaultValue : Bytes), NulFree key →
    getSetting db visit key defaultValue =
      ((s.settings key).map Setting.value).getD defaultValue

/-- The window of a list that is read row by row. -/
theorem map_cut {α : Type} {row : α → Row} {read : Row → α} {l : List α}
    (hread : ∀ a ∈ l, read (row a) = a) {limit : Int} (hlimit : 0 ≤ limit) (offset : Option Int) :
    (cut (some limit) offset (l.map row)).map read =
      (l.drop (offset.getD 0).toNat).take limit.toNat := by
  have hback : (l.map row).map read = l := by
    rw [List.map_map]
    exact (List.map_congr_left hread).trans (List.map_id l)
  unfold cut
  dsimp only
  rw [if_neg (not_lt.mpr hlimit), List.map_take, List.map_drop, hback]

/-- **ORDER BY**: the sorted rows hold the same map, in descending order of time. -/
theorem Holds.sorted {α : Type} {row : α → Row} {key : α → Bytes} {Clean : α → Prop}
    {m : Bytes → Option α} {rows : List Row} (h : Holds row key Clean m rows) {read : Row → α}
    (hread : ∀ a, Clean a → read (row a) = a) {i : Nat} {time : α → Int64}
    (htime : ∀ a, intAt i (row a) = (time a).toInt) :
    ∃ l, rows.insertionSort (Descending i) = l.map row ∧ Lists key m l ∧ NewestFirst time l ∧
      ∀ a ∈ l, read (row a) = a := by
  have hpair := List.pairwise_insertionSort (Descending i) rows
  obtain ⟨l, heq, hl, hclean⟩ := h.perm hread (List.perm_insertionSort (Descending i) rows)
  refine ⟨l, heq, hl, ?_, fun a ha => hread a (hclean a ha)⟩
  rw [heq, List.pairwise_map] at hpair
  refine hpair.imp fun {a b} hab => ?_
  rw [Int64.le_iff_toInt_le, ← htime a, ← htime b]
  exact hab

theorem toInt_nonneg {n : Int32} (h : 0 ≤ n) : 0 ≤ n.toInt := by
  rw [Int32.le_iff_toInt_le] at h
  exact h

/-- **The simulation shows in every reader.** -/
theorem refines_of_sim {db : Db} {s : Store} (h : Sim db s) : Refines db s := by
  obtain ⟨c, rfl, hv, hp, hm, hk, hs⟩ := h
  refine ⟨?_, ?_, ?_, ?_⟩
  · intro visit limit offset hlimit
    obtain ⟨l, heq, hl, hnew, hread⟩ :=
      (hv.perm (fun _ => readVideo_row) (visit.perm c.videos)).sorted (i := 9)
        (fun _ => readVideo_row) (fun v => (rfl : _ = v.timestamp.toInt))
    refine ⟨l, hl, hnew, ?_⟩
    rw [getFeedVideos_db, heq, map_cut hread (toInt_nonneg hlimit)]
    rfl
  · intro visit p userId profile hprofile
    obtain ⟨hrows, hkeyed⟩ :=
      (hp.perm (fun _ => readProfile_row) (visit.perm c.profiles)).lookup (fun _ => rfl) userId
    obtain ⟨hclean, rfl⟩ := hkeyed profile hprofile
    rw [getUserProfile_db c visit p hclean.1, hrows, hprofile]
    exact readProfile_row hclean
  · intro visit convId limit hconv hlimit
    have hcolumn : ∀ m : StoredMessage, m.row[1]? = some (.text m.convId) := fun _ => rfl
    have hwith :=
      (hm.perm (fun _ => readMessage_row) (visit.perm c.messages)).rowsWith hcolumn convId
    obtain ⟨l, heq, hl, hnew, hread⟩ := hwith.sorted (i := 6) (fun _ => readMessage_row)
      (fun m => (rfl : _ = m.timestamp.toInt))
    refine ⟨l, hl, hnew, ?_⟩
    rw [getMessages_db c visit hconv, heq, map_cut hread (toInt_nonneg hlimit)]
    rfl
  · intro visit key defaultValue hkey
    obtain ⟨hrows, hkeyed⟩ :=
      (hs.perm (fun _ => readSetting_row) (visit.perm c.settings)).lookup (fun _ => rfl) key
    rw [getSetting_db c visit hkey, hrows]
    cases hset : s.settings key with
    | none => rfl
    | some x =>
      obtain ⟨hclean, _⟩ := hkeyed x hset
      exact cStr_of_nulFree hclean.2

/-- **The storage engine refines plain maps**: behind every sequence of calls without NUL, the
    readers answer the records of the reference, every field in its place, the feed and the
    messages in descending order of time and cut to their window. -/
theorem storageRefines (calls : List Call) (hclean : ∀ call ∈ calls, call.Clean) :
    Refines (calls.foldl Call.run opened) (calls.foldl Store.apply Store.empty) :=
  refines_of_sim (runs_sim hclean sim_opened)

/-- Quotes everywhere, a flag set later, and a setting saved twice. -/
def quotedCalls : List Call :=
  [.setSetting (ascii "it's") (ascii "old"),
    .saveUserProfile ⟨ascii "o'neil", ascii "'", ascii "''", ascii "", ascii "a, b);",
      -9223372036854775808, 1, 2, false⟩,
    .setFollowing (ascii "o'neil") true,
    .setSetting (ascii "it's") (ascii "'; DELETE FROM settings; --")]

theorem storageRefines_quoted : (∀ call ∈ quotedCalls, call.Clean) ∧
    ∀ visit p defaultValue,
      getUserProfile (quotedCalls.foldl Call.run opened) visit p (ascii "o'neil") =
        ⟨ascii "o'neil", ascii "'", ascii "''", ascii "", ascii "a, b);", -9223372036854775808,
          1, 2, true⟩ ∧
      getSetting (quotedCalls.foldl Call.run opened) visit (ascii "it's") defaultValue =
        ascii "'; DELETE FROM settings; --" := by
  have hclean : ∀ call ∈ quotedCalls, call.Clean := by decide +kernel
  refine ⟨hclean, fun visit p defaultValue => ⟨?_, ?_⟩⟩
  · exact (storageRefines quotedCalls hclean).profile visit p (ascii "o'neil") _ rfl
  · rw [(storageRefines quotedCalls hclean).setting visit (ascii "it's") defaultValue
      (by decide +kernel)]
    rfl

end Viral.Storage
