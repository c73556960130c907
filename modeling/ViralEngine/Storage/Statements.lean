/-
  File:      ViralEngine/Storage/Statements.lean
  Subject:   WHAT THE TEXTS OF THE STORAGE ENGINE DO TO ITS TABLES.

  A text of the engine is a fixed head, literals, and fixed pieces between them. The literals are
  put together from `esc` and `std::to_string`, so the scanner reads them back as the values they
  stand for (Lib/SqlText.lean), and SQLite runs the statement that was meant. NUL is the one byte
  that must not be in a string: a C string ends there.

  * `cStr_of_nulFree`, `esc_eq` -- the two helpers, said once;
  * `Piece`, `exec_insert`, `exec_update`, `exec_delete` -- the schemes of the texts that write;
  * `Contents`, `opened_eq` -- the five tables, with the columns `createTables` gives them;
  * `VideoItem.row`, `UserProfile.row`, `StoredMessage.row`, `Setting.row`, `CacheEntry.row` --
    the rows;
  * `saveFeedVideos_db`, `setVideoLiked_db`, .. -- **the calls, on the rows of the tables.**
-/
import ViralEngine.Storage.Engine
import Mathlib.Data.List.TakeWhile

namespace Viral.Storage

open Viral.Lib.Sql

/-! ## 1. Strings without NUL -/

/-- No byte of the string is NUL. -/
def NulFree (s : Bytes) : Prop := 0 ∉ s

instance (s : Bytes) : Decidable (NulFree s) := inferInstanceAs (Decidable (¬ _))

/-- A text that C takes whole. -/
def ValueNulFree : Value → Prop
  | .text s => NulFree s
  | .int _ => True

theorem cStr_of_nulFree {s : Bytes} (h : NulFree s) : cStr s = s := by
  unfold cStr
  rw [List.takeWhile_eq_self_iff]
  intro c hc
  simp only [decide_eq_true_eq]
  rintro rfl
  exact h hc

theorem NulFree.append {s t : Bytes} (hs : NulFree s) (ht : NulFree t) : NulFree (s ++ t) := by
  unfold NulFree at *
  rw [List.mem_append]
  exact fun h => h.elim hs ht

/-- The loop of `esc` doubles the quotes. -/
theorem esc_eq (s : Bytes) : esc s = doubled s := by
  have hfold : ∀ out : Bytes,
      s.foldl (fun out c => if c = 39 then out ++ ascii "''" else out ++ [c]) out =
        out ++ doubled s := by
    induction s with
    | nil => intro out; exact (List.append_nil out).symm
    | cons c s ih =>
      intro out
      have hcons : doubled (c :: s) = (if c = 39 then [39, 39] else [c]) ++ doubled s := rfl
      rw [List.foldl_cons, ih, hcons, ← List.append_assoc]
      congr 1
      split <;> rfl
  exact hfold []

theorem nulFree_doubled {s : Bytes} (h : NulFree s) : NulFree (doubled s) := by
  unfold NulFree doubled
  rw [List.mem_flatMap]
  rintro ⟨c, hc, h0⟩
  split at h0
  · simp at h0
  · rw [List.mem_singleton] at h0
    rw [← h0] at hc
    exact h hc

theorem nulFree_signed (i : Int) : NulFree (signed i) := by
  refine NulFree.append ?_ ?_
  · split <;> decide
  · unfold NulFree decimal
    rw [List.mem_map]
    rintro ⟨c, hc, h0⟩
    obtain ⟨hd, _⟩ := isDigit_ofNat (Nat.isDigit_of_mem_toDigits (by decide) (by decide) hc)
    rw [h0] at hd
    cases hd

theorem nulFree_literal {v : Value} (hv : ValueNulFree v) : NulFree v.literal := by
  cases v with
  | int i => exact nulFree_signed i
  | text s =>
    refine @NulFree.append [39] _ (by decide) (NulFree.append (nulFree_doubled hv) ?_)
    decide

theorem nulFree_literals {vs : List Value} (hvs : ∀ v ∈ vs, ValueNulFree v) :
    NulFree (literals vs) := by
  induction vs with
  | nil => nofun
  | cons v vs ih =>
    have hv := nulFree_literal (hvs v List.mem_cons_self)
    cases vs with
    | nil => simpa [literals] using hv
    | cons w vs =>
      have hlit : literals (v :: w :: vs) = (v.literal ++ [44]) ++ literals (w :: vs) := by
        simp [literals, List.intercalate_cons_cons]
      rw [hlit]
      exact (hv.append (by decide)).append (ih fun x hx => hvs x (List.mem_cons_of_mem v hx))

/-! ## 2. The schemes of the texts -/

/-- A piece of text without NUL, and the tokens it is read as. -/
structure Piece (s : Bytes) (ts : List Token) : Prop where
  nulFree : NulFree s
  reads : Reads s ts

instance (s : Bytes) (ts : List Token) : Decidable (Piece s ts) :=
  decidable_of_iff (NulFree s ∧ Reads s ts) ⟨fun h => ⟨h.1, h.2⟩, fun h => ⟨h.1, h.2⟩⟩

theorem Piece.append {s t : Bytes} {ts us : List Token} (hs : Piece s ts) (ht : Piece t us) :
    Piece (s ++ t) (ts ++ us) :=
  ⟨hs.nulFree.append ht.nulFree, hs.reads.append ht.reads⟩

/-- A value that a text can carry. -/
def Carried (v : Value) : Prop := v.InRange ∧ ValueNulFree v

theorem piece_literal {v : Value} (hv : Carried v) {c : UInt8} (hc : closes c = true)
    (hz : c ≠ 0) : Piece (v.literal ++ [c]) (v.tokens ++ closing c) := by
  refine ⟨(nulFree_literal hv.2).append ?_, reads_literal v hc⟩
  unfold NulFree
  rw [List.mem_singleton]
  exact hz.symm

/-- A text of one statement, handed over as a C string. -/
theorem exec_one {db db' : Db} {sql : Bytes} (ts : List Token) {st : Stmt}
    (h : Piece sql (ts ++ [.sign 59])) (hts : Token.sign 59 ∉ ts) (hp : parseStmt ts = some st)
    (hrun : st.run db = some db') : (exec db sql).1 = db' := by
  unfold exec
  rw [cStr_of_nulFree h.nulFree, execText_one h.reads hts hp hrun]

/-- No semicolon comes from a row. -/
theorem sign_not_mem_rowTokens (vs : List Value) : Token.sign 59 ∉ rowTokens vs := by
  induction vs with
  | nil => nofun
  | cons v vs ih =>
    have hv := sign_not_mem_tokens v (c := 59) (by decide)
    cases vs with
    | nil => simpa [rowTokens] using hv
    | cons w vs =>
      have htok : rowTokens (v :: w :: vs) = v.tokens ++ ([.sign 44] ++ rowTokens (w :: vs)) := by
        simp [rowTokens, List.intercalate_cons_cons]
      rw [htok]
      simp [hv, ih]

/-- **INSERT OR REPLACE**: a head, the literals of a row, and the closing bracket. -/
theorem exec_insert {db db' : Db} {head : Bytes} (table : Bytes) {vs : List Value}
    (hhead : Piece head (insertHead table)) (hne : vs ≠ []) (hvs : ∀ v ∈ vs, Carried v)
    (hrun : (Stmt.insertOrReplace table vs).run db = some db') :
    (exec db (head ++ (literals vs ++ ascii ");"))).1 = db' := by
  have hrow : Piece (literals vs ++ [41]) (rowTokens vs ++ [.sign 41]) :=
    ⟨(nulFree_literals fun v hv => (hvs v hv).2).append (by decide), reads_row hne⟩
  have htext := hhead.append (hrow.append (show Piece [59] [.sign 59] by decide))
  rw [List.append_assoc (literals vs), ← List.append_assoc (insertHead table)] at htext
  refine exec_one _ htext ?_ (parseStmt_insert table hne fun v hv => (hvs v hv).1) hrun
  simp [insertHead, sign_not_mem_rowTokens]

/-- **UPDATE**: a head, a literal, the WHERE, and the key's literal. -/
theorem exec_update {db db' : Db} {head whereHead : Bytes} (table column whereColumn : Bytes)
    {value key : Value}
    (hhead : Piece head [.word (ascii "update"), .word table, .word (ascii "set"), .word column,
      .sign 61])
    (hwhere : Piece whereHead [.word (ascii "where"), .word whereColumn, .sign 61])
    (hv : Carried value) (hk : Carried key)
    (hrun : (Stmt.update table column value whereColumn key).run db = some db') :
    (exec db (head ++ ((value.literal ++ [32]) ++ (whereHead ++ (key.literal ++ [59]))))).1 =
      db' := by
  have htext := hhead.append ((piece_literal hv (c := 32) rfl (by decide)).append
    (hwhere.append (piece_literal hk (c := 59) rfl (by decide))))
  refine exec_one (updateTokens table column value whereColumn key) ?_ ?_
    (parseStmt_update table column whereColumn hv.1 hk.1) hrun
  · simpa [updateTokens, closing, isSpace] using htext
  · simp [updateTokens, sign_not_mem_tokens]

/-- **DELETE** of a whole table. -/
theorem exec_delete {db db' : Db} {sql : Bytes} (table : Bytes)
    (h : Piece sql ([.word (ascii "delete"), .word (ascii "from"), .word table] ++ [.sign 59]))
    (hrun : (Stmt.delete table).run db = some db') : (exec db sql).1 = db' :=
  exec_one _ h (by simp) rfl hrun

/-! ## 3. The tables and their rows -/

/-- A column of texts. -/
def textColumn (name : String) : Column := ⟨ascii name, .text⟩

/-- A column of numbers. -/
def intColumn (name : String) : Column := ⟨ascii name, .integer⟩

/-- The rows of the five tables. -/
structure Contents where
  videos : List Row
  profiles : List Row
  messages : List Row
  cache : List Row
  settings : List Row

/-- **The database with these rows**, as the engine's constructor lays it out. -/
def Contents.db (c : Contents) (inTransaction : Bool) : Db where
  tables :=
    [⟨ascii "feed_videos",
      [textColumn "id", textColumn "url", textColumn "thumbnail_url", textColumn "author_id",
        textColumn "author_name", textColumn "description", intColumn "likes",
        intColumn "comments", intColumn "shares", intColumn "timestamp", intColumn "is_liked",
        intColumn "is_following"], ascii "id", c.videos⟩,
    ⟨ascii "user_profiles",
      [textColumn "id", textColumn "username", textColumn "display_name",
        textColumn "avatar_url", textColumn "bio", intColumn "followers",
        intColumn "following_count", intColumn "video_count", intColumn "is_following"],
      ascii "id", c.profiles⟩,
    ⟨ascii "chat_messages",
      [textColumn "id", textColumn "conv_id", textColumn "sender_id", intColumn "type",
        textColumn "text", textColumn "media_url", intColumn "timestamp", intColumn "status"],
      ascii "id", c.messages⟩,
    ⟨ascii "disk_cache",
      [textColumn "key", textColumn "local_path", intColumn "size", intColumn "last_access"],
      ascii "key", c.cache⟩,
    ⟨ascii "settings", [textColumn "key", textColumn "value"], ascii "key", c.settings⟩]
  inTransaction := inTransaction

/-- **The texts of `createTables` are read as these tables**, empty. -/
theorem opened_eq : opened = Contents.db ⟨[], [], [], [], []⟩ false := by decide +kernel

/-- A truth value as the engine stores it. -/
def flagValue (b : Bool) : Value := .int (if b then 1 else 0)

/-- A video in the order of its columns. -/
def VideoItem.row (v : VideoItem) : Row :=
  [.text v.id, .text v.url, .text v.thumbnailUrl, .text v.authorId, .text v.authorName,
    .text v.description, .int v.likes.toInt, .int v.comments.toInt, .int v.shares.toInt,
    .int v.timestamp.toInt, flagValue v.isLiked, flagValue v.isFollowing]

/-- A profile in the order of its columns. -/
def UserProfile.row (p : UserProfile) : Row :=
  [.text p.id, .text p.username, .text p.displayName, .text p.avatarUrl, .text p.bio,
    .int p.followers.toInt, .int p.following.toInt, .int p.videoCount.toInt,
    flagValue p.isFollowing]

/-- A message in the order of its columns. -/
def StoredMessage.row (m : StoredMessage) : Row :=
  [.text m.id, .text m.convId, .text m.senderId, .int m.type.toInt, .text m.text,
    .text m.mediaUrl, .int m.timestamp.toInt, .int m.status.toInt]

/-- A record of the settings table. -/
structure Setting where
  key : Bytes
  value : Bytes
  deriving DecidableEq, Repr

/-- A setting in the order of its columns. -/
def Setting.row (s : Setting) : Row := [.text s.key, .text s.value]

/-- An entry of the cache in the order of its columns. -/
def CacheEntry.row (e : CacheEntry) : Row :=
  [.text e.key, .text e.localPath, .int e.size.toInt, .int e.lastAccess.toInt]

/-- The strings of a record have no NUL. -/
def VideoItem.Clean (v : VideoItem) : Prop :=
  NulFree v.id ∧ NulFree v.url ∧ NulFree v.thumbnailUrl ∧ NulFree v.authorId ∧
    NulFree v.authorName ∧ NulFree v.description

/-- The strings of a profile have no NUL. -/
def UserProfile.Clean (p : UserProfile) : Prop :=
  NulFree p.id ∧ NulFree p.username ∧ NulFree p.displayName ∧ NulFree p.avatarUrl ∧ NulFree p.bio

/-- The strings of a message have no NUL. -/
def StoredMessage.Clean (m : StoredMessage) : Prop :=
  NulFree m.id ∧ NulFree m.convId ∧ NulFree m.senderId ∧ NulFree m.text ∧ NulFree m.mediaUrl

/-- Neither has a NUL. -/
def Setting.Clean (s : Setting) : Prop := NulFree s.key ∧ NulFree s.value

/-- Neither has a NUL. -/
def CacheEntry.Clean (e : CacheEntry) : Prop := NulFree e.key ∧ NulFree e.localPath

instance (v : VideoItem) : Decidable v.Clean := inferInstanceAs (Decidable (_ ∧ _))

instance (p : UserProfile) : Decidable p.Clean := inferInstanceAs (Decidable (_ ∧ _))

/-- Integers of the source are in SQLite's range. -/
theorem inRange_int64 (n : Int64) : (Value.int n.toInt).InRange := ⟨n.le_toInt, n.toInt_lt⟩

theorem inRange_int32 (n : Int32) : (Value.int n.toInt).InRange := by
  have hlo := n.le_toInt
  have hhi := n.toInt_lt
  exact ⟨by omega, by omega⟩

theorem inRange_flag (b : Bool) : (flagValue b).InRange := by
  cases b <;> exact ⟨by decide, by decide⟩

theorem VideoItem.row_ok {v : VideoItem} (h : v.Clean) :
    ∀ x ∈ v.row, Carried x := by
  obtain ⟨h0, h1, h2, h3, h4, h5⟩ := h
  simp only [VideoItem.row, List.forall_mem_cons, List.not_mem_nil, false_imp_iff, implies_true]
  exact ⟨⟨trivial, h0⟩, ⟨trivial, h1⟩, ⟨trivial, h2⟩, ⟨trivial, h3⟩, ⟨trivial, h4⟩, ⟨trivial, h5⟩,
    ⟨inRange_int64 _, trivial⟩, ⟨inRange_int64 _, trivial⟩, ⟨inRange_int64 _, trivial⟩,
    ⟨inRange_int64 _, trivial⟩, ⟨inRange_flag _, trivial⟩, ⟨inRange_flag _, trivial⟩, trivial⟩

theorem UserProfile.row_ok {p : UserProfile} (h : p.Clean) :
    ∀ x ∈ p.row, Carried x := by
  obtain ⟨h0, h1, h2, h3, h4⟩ := h
  simp only [UserProfile.row, List.forall_mem_cons, List.not_mem_nil, false_imp_iff, implies_true]
  exact ⟨⟨trivial, h0⟩, ⟨trivial, h1⟩, ⟨trivial, h2⟩, ⟨trivial, h3⟩, ⟨trivial, h4⟩,
    ⟨inRange_int64 _, trivial⟩, ⟨inRange_int64 _, trivial⟩, ⟨inRange_int64 _, trivial⟩,
    ⟨inRange_flag _, trivial⟩, trivial⟩

theorem StoredMessage.row_ok {m : StoredMessage} (h : m.Clean) :
    ∀ x ∈ m.row, Carried x := by
  obtain ⟨h0, h1, h2, h3, h4⟩ := h
  simp only [StoredMessage.row, List.forall_mem_cons, List.not_mem_nil, false_imp_iff,
    implies_true]
  exact ⟨⟨trivial, h0⟩, ⟨trivial, h1⟩, ⟨trivial, h2⟩, ⟨inRange_int32 _, trivial⟩, ⟨trivial, h3⟩,
    ⟨trivial, h4⟩, ⟨inRange_int64 _, trivial⟩, ⟨inRange_int32 _, trivial⟩, trivial⟩

theorem Setting.row_ok {s : Setting} (h : s.Clean) :
    ∀ x ∈ s.row, Carried x := by
  simp only [Setting.row, List.forall_mem_cons, List.not_mem_nil, false_imp_iff, implies_true]
  exact ⟨⟨trivial, h.1⟩, ⟨trivial, h.2⟩, trivial⟩

/-! ## 4. The texts as head, literals and end -/

theorem literals_cons (v w : Value) (vs : List Value) :
    literals (v :: w :: vs) = v.literal ++ (44 :: literals (w :: vs)) := by
  simp [literals, List.intercalate_cons_cons]

theorem literals_one (v : Value) : literals [v] = v.literal := by
  simp [literals]

theorem feedVideoSql_eq (v : VideoItem) :
    feedVideoSql v = ascii "INSERT OR REPLACE INTO feed_videos VALUES (" ++
      (literals v.row ++ ascii ");") := by
  have hhead : ascii "INSERT OR REPLACE INTO feed_videos VALUES ('" =
      ascii "INSERT OR REPLACE INTO feed_videos VALUES (" ++ [39] := by decide
  have hsep : ascii "','" = [39, 44, 39] := rfl
  have hlast : ascii "'," = [39, 44] := rfl
  have hcomma : ascii "," = [44] := rfl
  unfold feedVideoSql
  rw [hhead, hsep, hlast, hcomma]
  simp only [esc_eq]
  simp only [VideoItem.row, literals_cons, literals_one]
  simp only [Value.literal, flagValue, flag, toString]
  simp only [List.append_assoc, List.cons_append, List.nil_append]

theorem profileSql_eq (p : UserProfile) :
    ascii "INSERT OR REPLACE INTO user_profiles VALUES ('"
      ++ esc p.id ++ ascii "','"
      ++ esc p.username ++ ascii "','"
      ++ esc p.displayName ++ ascii "','"
      ++ esc p.avatarUrl ++ ascii "','"
      ++ esc p.bio ++ ascii "',"
      ++ toString p.followers.toInt ++ ascii ","
      ++ toString p.following.toInt ++ ascii ","
      ++ toString p.videoCount.toInt ++ ascii ","
      ++ flag p.isFollowing ++ ascii ");" =
    ascii "INSERT OR REPLACE INTO user_profiles VALUES (" ++ (literals p.row ++ ascii ");") := by
  have hhead : ascii "INSERT OR REPLACE INTO user_profiles VALUES ('" =
      ascii "INSERT OR REPLACE INTO user_profiles VALUES (" ++ [39] := by decide
  have hsep : ascii "','" = [39, 44, 39] := rfl
  have hlast : ascii "'," = [39, 44] := rfl
  have hcomma : ascii "," = [44] := rfl
  rw [hhead, hsep, hlast, hcomma]
  simp only [esc_eq]
  simp only [UserProfile.row, literals_cons, literals_one]
  simp only [Value.literal, flagValue, flag, toString]
  simp only [List.append_assoc, List.cons_append, List.nil_append]

theorem messageSql_eq (m : StoredMessage) :
    ascii "INSERT OR REPLACE INTO chat_messages VALUES ('"
      ++ esc m.id ++ ascii "','"
      ++ esc m.convId ++ ascii "','"
      ++ esc m.senderId ++ ascii "',"
      ++ toString m.type.toInt ++ ascii ",'"
      ++ esc m.text ++ ascii "','"
      ++ esc m.mediaUrl ++ ascii "',"
      ++ toString m.timestamp.toInt ++ ascii ","
      ++ toString m.status.toInt ++ ascii ");" =
    ascii "INSERT OR REPLACE INTO chat_messages VALUES (" ++ (literals m.row ++ ascii ");") := by
  have hhead : ascii "INSERT OR REPLACE INTO chat_messages VALUES ('" =
      ascii "INSERT OR REPLACE INTO chat_messages VALUES (" ++ [39] := by decide
  have hsep : ascii "','" = [39, 44, 39] := rfl
  have hlast : ascii "'," = [39, 44] := rfl
  have hfirst : ascii ",'" = [44, 39] := rfl
  have hcomma : ascii "," = [44] := rfl
  rw [hhead, hsep, hlast, hfirst, hcomma]
  simp only [esc_eq]
  simp only [StoredMessage.row, literals_cons, literals_one]
  simp only [Value.literal, toString]
  simp only [List.append_assoc, List.cons_append, List.nil_append]

theorem settingSql_eq (s : Setting) :
    ascii "INSERT OR REPLACE INTO settings VALUES ('"
      ++ esc s.key ++ ascii "','" ++ esc s.value ++ ascii "');" =
    ascii "INSERT OR REPLACE INTO settings VALUES (" ++ (literals s.row ++ ascii ");") := by
  have hhead : ascii "INSERT OR REPLACE INTO settings VALUES ('" =
      ascii "INSERT OR REPLACE INTO settings VALUES (" ++ [39] := by decide
  have hsep : ascii "','" = [39, 44, 39] := rfl
  have hend : ascii "');" = 39 :: ascii ");" := rfl
  rw [hhead, hsep, hend]
  simp only [esc_eq]
  simp only [Setting.row, literals_cons, literals_one]
  simp only [Value.literal]
  simp only [List.append_assoc, List.cons_append, List.nil_append]

/-- The end of the UPDATEs: the key of a row, as a literal. -/
theorem whereSql_eq (head value key : Bytes) :
    head ++ value ++ ascii " WHERE id='" ++ esc key ++ ascii "';" =
      head ++ ((value ++ [32]) ++ (ascii "WHERE id=" ++ ((Value.text key).literal ++ [59]))) := by
  have hwhere : ascii " WHERE id='" = 32 :: (ascii "WHERE id=" ++ [39]) := by decide
  have hend : ascii "';" = [39, 59] := rfl
  rw [hwhere, hend, esc_eq]
  simp only [Value.literal]
  simp only [List.append_assoc, List.cons_append, List.nil_append]

/-! ## 5. The calls that write -/

/-- A row replaces the one with its key, in the first column. -/
def upsertRow (rows : List Row) (row : Row) : List Row :=
  rows.filter (fun r => r[0]? ≠ row[0]?) ++ [row]

/-- Column `i` of the row with the key is set. -/
def setColumn (rows : List Row) (key : Bytes) (i : Nat) (value : Value) : List Row :=
  rows.map fun r => if r[0]? = some (Value.text key) then r.set i value else r

section Calls

variable (c : Contents)

theorem exec_feedVideo (b : Bool) {v : VideoItem} (hv : v.Clean) :
    (exec (c.db b) (feedVideoSql v)).1 =
      { c with videos := upsertRow c.videos v.row }.db b := by
  rw [feedVideoSql_eq]
  exact exec_insert (ascii "feed_videos") (by decide) (List.cons_ne_nil _ _)
    (VideoItem.row_ok hv) rfl

/-- The loop of `saveFeedVideos`, inside its transaction. -/
theorem foldl_feedVideo (b : Bool) {vs : List VideoItem} (hvs : ∀ v ∈ vs, v.Clean) :
    vs.foldl (fun db v => (exec db (feedVideoSql v)).1) (c.db b) =
      { c with videos := (vs.map VideoItem.row).foldl upsertRow c.videos }.db b := by
  induction vs generalizing c with
  | nil => rfl
  | cons v vs ih =>
    rw [List.foldl_cons, exec_feedVideo c b (hvs v List.mem_cons_self),
      ih _ fun w hw => hvs w (List.mem_cons_of_mem v hw), List.map_cons, List.foldl_cons]

theorem saveFeedVideos_db {vs : List VideoItem} (hvs : ∀ v ∈ vs, v.Clean) :
    saveFeedVideos (c.db false) vs =
      { c with videos := (vs.map VideoItem.row).foldl upsertRow c.videos }.db false := by
  have hbegin : (exec (c.db false) (ascii "BEGIN TRANSACTION;")).1 = c.db true :=
    exec_one [.word (ascii "begin"), .word (ascii "transaction")] (by decide) (by decide)
      rfl rfl
  have hcommit : ∀ d : Contents, (exec (d.db true) (ascii "COMMIT;")).1 = d.db false := fun d =>
    exec_one [.word (ascii "commit")] (by decide) (by decide) rfl rfl
  unfold saveFeedVideos
  dsimp only
  rw [hbegin, foldl_feedVideo c true hvs, hcommit]

theorem setVideoLiked_db {videoId : Bytes} (hid : NulFree videoId) (liked : Bool) :
    setVideoLiked (c.db false) videoId liked =
      { c with videos := setColumn c.videos videoId 10 (flagValue liked) }.db false := by
  have hlit : (if liked then ascii "1" else ascii "0") = (flagValue liked).literal := by
    cases liked <;> decide
  unfold setVideoLiked
  rw [hlit, whereSql_eq]
  exact exec_update (ascii "feed_videos") (ascii "is_liked") (ascii "id") (by decide)
    (by decide) ⟨inRange_flag liked, trivial⟩ ⟨trivial, hid⟩ rfl

theorem clearFeedCache_db :
    clearFeedCache (c.db false) = { c with videos := [] }.db false :=
  exec_delete (ascii "feed_videos") (by decide) rfl

theorem saveUserProfile_db {p : UserProfile} (hp : p.Clean) :
    saveUserProfile (c.db false) p =
      { c with profiles := upsertRow c.profiles p.row }.db false := by
  unfold saveUserProfile
  dsimp only
  rw [profileSql_eq]
  exact exec_insert (ascii "user_profiles") (by decide) (List.cons_ne_nil _ _)
    (UserProfile.row_ok hp) rfl

theorem setFollowing_db {userId : Bytes} (hid : NulFree userId) (following : Bool) :
    setFollowing (c.db false) userId following =
      { c with profiles := setColumn c.profiles userId 8 (flagValue following) }.db false := by
  have hlit : (if following then ascii "1" else ascii "0") = (flagValue following).literal := by
    cases following <;> decide
  unfold setFollowing
  rw [hlit, whereSql_eq]
  exact exec_update (ascii "user_profiles") (ascii "is_following") (ascii "id")
    (by decide) (by decide +kernel) ⟨inRange_flag following, trivial⟩ ⟨trivial, hid⟩ rfl

theorem saveMessage_db {m : StoredMessage} (hm : m.Clean) :
    saveMessage (c.db false) m.convId m.id m.senderId m.type m.text m.mediaUrl m.timestamp
        m.status =
      { c with messages := upsertRow c.messages m.row }.db false := by
  unfold saveMessage
  dsimp only
  rw [messageSql_eq]
  exact exec_insert (ascii "chat_messages") (by decide) (List.cons_ne_nil _ _)
    (StoredMessage.row_ok hm) rfl

theorem updateMessageStatus_db {msgId : Bytes} (hid : NulFree msgId) (status : Int32) :
    updateMessageStatus (c.db false) msgId status =
      { c with messages := setColumn c.messages msgId 7 (.int status.toInt) }.db false := by
  have hlit : toString status.toInt = (Value.int status.toInt).literal := rfl
  unfold updateMessageStatus
  rw [hlit, whereSql_eq]
  exact exec_update (ascii "chat_messages") (ascii "status") (ascii "id") (by decide)
    (by decide) ⟨inRange_int32 status, trivial⟩ ⟨trivial, hid⟩ rfl

theorem setSetting_db {s : Setting} (hs : s.Clean) :
    setSetting (c.db false) s.key s.value =
      { c with settings := upsertRow c.settings s.row }.db false := by
  unfold setSetting
  rw [settingSql_eq]
  exact exec_insert (ascii "settings") (by decide) (List.cons_ne_nil _ _)
    (Setting.row_ok hs) rfl

theorem clearAll_db : clearAll (c.db false) = Contents.db ⟨[], [], [], [], []⟩ false := by
  have hvideos : (exec (c.db false) (ascii "DELETE FROM feed_videos;")).1 =
      { c with videos := [] }.db false := clearFeedCache_db c
  have hprofiles : ∀ d : Contents, (exec (d.db false) (ascii "DELETE FROM user_profiles;")).1 =
      { d with profiles := [] }.db false := fun d =>
    exec_delete (ascii "user_profiles") (by decide) rfl
  have hmessages : ∀ d : Contents, (exec (d.db false) (ascii "DELETE FROM chat_messages;")).1 =
      { d with messages := [] }.db false := fun d =>
    exec_delete (ascii "chat_messages") (by decide) rfl
  have hcache : ∀ d : Contents, (exec (d.db false) (ascii "DELETE FROM disk_cache;")).1 =
      { d with cache := [] }.db false := fun d =>
    exec_delete (ascii "disk_cache") (by decide) rfl
  have hsettings : ∀ d : Contents, (exec (d.db false) (ascii "DELETE FROM settings;")).1 =
      { d with settings := [] }.db false := fun d =>
    exec_delete (ascii "settings") (by decide) rfl
  unfold clearAll
  dsimp only
  rw [hvideos, hprofiles, hmessages, hcache, hsettings]

end Calls

end Viral.Storage
