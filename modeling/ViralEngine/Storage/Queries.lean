/-
  File:      ViralEngine/Storage/Queries.lean
  Subject:   WHAT THE READERS OF THE STORAGE ENGINE GET FROM ITS TABLES.

  The texts of the readers are read back clause by clause like those of the calls that write
  (Storage/Statements.lean); what SQLite answers is then a list of rows, and the readers take
  them apart by column number.

  * `getFeedVideos_db`, `getUserProfile_db`, `getMessages_db`, `getSetting_db` -- **the readers,
    on the rows of the tables**;
  * `readVideo_row`, `readProfile_row`, `readMessage_row` -- **every field comes back from its
    own column**.
-/
import ViralEngine.Storage.Statements

namespace Viral.Storage

open Viral.Lib.Sql

/-! ## 1. The texts -/

/-- A query of one statement, handed over as a C string. -/
theorem query_one (db : Db) (visit : Visit) {sql : Bytes} {q : Query} (hq : q.InRange)
    (h : Piece sql (q.tokens ++ [.sign 59])) (hts : Token.sign 59 ∉ q.tokens) :
    queryText db visit (cStr sql) = q.run visit db := by
  rw [cStr_of_nulFree h.nulFree]
  exact queryText_one h.reads hts (parseStmt_select hq)

/-- A text that ends with the key it asks for. -/
theorem keySql_piece {head key : Bytes} {ts : List Token} (hhead : Piece head ts)
    (hkey : NulFree key) :
    Piece (head ++ [39] ++ esc key ++ ascii "';") (ts ++ [.str key, .sign 59]) := by
  have htext : head ++ [39] ++ esc key ++ ascii "';" =
      head ++ ((Value.text key).literal ++ [59]) := by
    have hend : ascii "';" = [39, 59] := rfl
    rw [hend, esc_eq]
    simp only [Value.literal]
    simp only [List.append_assoc, List.cons_append, List.nil_append]
  rw [htext]
  exact hhead.append (piece_literal (v := .text key) ⟨trivial, hkey⟩ rfl (by decide))

/-- The query of `getFeedVideos`. -/
def feedQuery (limit offset : Int32) : Query :=
  ⟨none, ascii "feed_videos", none, some (ascii "timestamp"), some limit.toInt,
    some offset.toInt⟩

theorem feedQuery_piece (limit offset : Int32) :
    Piece (ascii "SELECT * FROM feed_videos ORDER BY timestamp DESC LIMIT "
      ++ toString limit.toInt ++ ascii " OFFSET " ++ toString offset.toInt ++ ascii ";")
      ((feedQuery limit offset).tokens ++ [.sign 59]) := by
  have htext : ascii "SELECT * FROM feed_videos ORDER BY timestamp DESC LIMIT "
        ++ toString limit.toInt ++ ascii " OFFSET " ++ toString offset.toInt ++ ascii ";" =
      ascii "SELECT * FROM feed_videos ORDER BY timestamp DESC LIMIT " ++
        (((Value.int limit.toInt).literal ++ [32]) ++
          (ascii "OFFSET " ++ ((Value.int offset.toInt).literal ++ [59]))) := by
    have hoffset : ascii " OFFSET " = 32 :: ascii "OFFSET " := by decide
    have hend : ascii ";" = [59] := rfl
    rw [hoffset, hend]
    simp only [Value.literal, toString]
    simp only [List.append_assoc, List.cons_append, List.nil_append]
  have hhead : Piece (ascii "SELECT * FROM feed_videos ORDER BY timestamp DESC LIMIT ")
      [.word (ascii "select"), .sign 42, .word (ascii "from"), .word (ascii "feed_videos"),
        .word (ascii "order"), .word (ascii "by"), .word (ascii "timestamp"),
        .word (ascii "desc"), .word (ascii "limit")] := by decide
  have hoffset : Piece (ascii "OFFSET ") [.word (ascii "offset")] := by decide
  have h := hhead.append
    ((piece_literal (v := .int limit.toInt) (c := 32) ⟨inRange_int32 limit, trivial⟩ rfl
      (by decide)).append (hoffset.append (piece_literal (v := .int offset.toInt) (c := 59)
        ⟨inRange_int32 offset, trivial⟩ rfl (by decide))))
  rw [htext]
  simpa [feedQuery, Query.tokens, whereTokens, orderTokens, boundTokens, closing, isSpace] using h

/-- The query of `getMessages`. -/
def messagesQuery (convId : Bytes) (limit : Int32) : Query :=
  ⟨none, ascii "chat_messages", some (ascii "conv_id", .text convId), some (ascii "timestamp"),
    some limit.toInt, none⟩

theorem messagesQuery_piece {convId : Bytes} (hconv : NulFree convId) (limit : Int32) :
    Piece (ascii "SELECT * FROM chat_messages WHERE conv_id='" ++ esc convId
      ++ ascii "' ORDER BY timestamp DESC LIMIT " ++ toString limit.toInt ++ ascii ";")
      ((messagesQuery convId limit).tokens ++ [.sign 59]) := by
  have htext : ascii "SELECT * FROM chat_messages WHERE conv_id='" ++ esc convId
        ++ ascii "' ORDER BY timestamp DESC LIMIT " ++ toString limit.toInt ++ ascii ";" =
      ascii "SELECT * FROM chat_messages WHERE conv_id=" ++
        (((Value.text convId).literal ++ [32]) ++
          (ascii "ORDER BY timestamp DESC LIMIT " ++
            ((Value.int limit.toInt).literal ++ [59]))) := by
    have hhead : ascii "SELECT * FROM chat_messages WHERE conv_id='" =
        ascii "SELECT * FROM chat_messages WHERE conv_id=" ++ [39] := by decide
    have horder : ascii "' ORDER BY timestamp DESC LIMIT " =
        39 :: 32 :: ascii "ORDER BY timestamp DESC LIMIT " := by decide
    have hend : ascii ";" = [59] := rfl
    rw [hhead, horder, hend, esc_eq]
    simp only [Value.literal, toString]
    simp only [List.append_assoc, List.cons_append, List.nil_append]
  have hhead : Piece (ascii "SELECT * FROM chat_messages WHERE conv_id=")
      [.word (ascii "select"), .sign 42, .word (ascii "from"), .word (ascii "chat_messages"),
        .word (ascii "where"), .word (ascii "conv_id"), .sign 61] := by decide
  have horder : Piece (ascii "ORDER BY timestamp DESC LIMIT ")
      [.word (ascii "order"), .word (ascii "by"), .word (ascii "timestamp"),
        .word (ascii "desc"), .word (ascii "limit")] := by decide
  have h := hhead.append
    ((piece_literal (v := .text convId) (c := 32) ⟨trivial, hconv⟩ rfl (by decide)).append
      (horder.append (piece_literal (v := .int limit.toInt) (c := 59)
        ⟨inRange_int32 limit, trivial⟩ rfl (by decide))))
  rw [htext]
  simpa [messagesQuery, Query.tokens, whereTokens, orderTokens, boundTokens, closing,
    isSpace] using h

/-- The query of `getUserProfile`. -/
def profileQuery (userId : Bytes) : Query :=
  ⟨none, ascii "user_profiles", some (ascii "id", .text userId), none, none, none⟩

theorem profileQuery_piece {userId : Bytes} (hid : NulFree userId) :
    Piece (ascii "SELECT * FROM user_profiles WHERE id='" ++ esc userId ++ ascii "';")
      ((profileQuery userId).tokens ++ [.sign 59]) := by
  have hhead : ascii "SELECT * FROM user_profiles WHERE id='" =
      ascii "SELECT * FROM user_profiles WHERE id=" ++ [39] := by decide
  have hpiece : Piece (ascii "SELECT * FROM user_profiles WHERE id=")
      [.word (ascii "select"), .sign 42, .word (ascii "from"), .word (ascii "user_profiles"),
        .word (ascii "where"), .word (ascii "id"), .sign 61] := by decide
  rw [hhead]
  exact keySql_piece hpiece hid

/-- The query of `getSetting`. -/
def settingQuery (key : Bytes) : Query :=
  ⟨some (ascii "value"), ascii "settings", some (ascii "key", .text key), none, none, none⟩

theorem settingQuery_piece {key : Bytes} (hkey : NulFree key) :
    Piece (ascii "SELECT value FROM settings WHERE key='" ++ esc key ++ ascii "';")
      ((settingQuery key).tokens ++ [.sign 59]) := by
  have hhead : ascii "SELECT value FROM settings WHERE key='" =
      ascii "SELECT value FROM settings WHERE key=" ++ [39] := by decide
  have hpiece : Piece (ascii "SELECT value FROM settings WHERE key=")
      [.word (ascii "select"), .word (ascii "value"), .word (ascii "from"),
        .word (ascii "settings"), .word (ascii "where"), .word (ascii "key"), .sign 61] := by
    decide
  rw [hhead]
  exact keySql_piece hpiece hkey

/-! ## 2. The readers on the rows -/

/-- The rows whose column `k` holds the text. -/
def rowsWith (k : Nat) (text : Bytes) (rows : List Row) : List Row :=
  rows.filter fun r => r[k]? = some (.text text)

section Readers

variable (c : Contents) (visit : Visit)

/-- **The feed in descending order of time**, cut to its window. -/
theorem getFeedVideos_db (limit offset : Int32) :
    getFeedVideos (c.db false) visit limit offset =
      (cut (some limit.toInt) (some offset.toInt)
        ((visit.order c.videos).insertionSort (Descending 9))).map readVideo := by
  have hq : (feedQuery limit offset).InRange :=
    ⟨nofun, by rintro n ⟨⟩; exact inRange_int32 limit, by rintro n ⟨⟩; exact inRange_int32 offset⟩
  unfold getFeedVideos
  dsimp only
  rw [query_one (c.db false) visit hq (feedQuery_piece limit offset)
    (by simp [feedQuery, Query.tokens, whereTokens, orderTokens, boundTokens,
      sign_not_mem_tokens])]
  rfl

/-- **The messages of a conversation in descending order of time**, at most `limit`. -/
theorem getMessages_db {convId : Bytes} (hconv : NulFree convId) (limit : Int32) :
    getMessages (c.db false) visit convId limit =
      (cut (some limit.toInt) none
        ((rowsWith 1 convId (visit.order c.messages)).insertionSort
          (Descending 6))).map readMessage := by
  have hq : (messagesQuery convId limit).InRange :=
    ⟨by rintro p ⟨⟩; trivial, by rintro n ⟨⟩; exact inRange_int32 limit, nofun⟩
  unfold getMessages
  dsimp only
  rw [query_one (c.db false) visit hq (messagesQuery_piece hconv limit)
    (by simp [messagesQuery, Query.tokens, whereTokens, orderTokens, boundTokens,
      sign_not_mem_tokens])]
  rfl

/-- **The profile with the id**, if there is one. -/
theorem getUserProfile_db (p : UserProfile) {userId : Bytes} (hid : NulFree userId) :
    getUserProfile (c.db false) visit p userId =
      ((rowsWith 0 userId (visit.order c.profiles)).head?.map readProfile).getD p := by
  have hq : (profileQuery userId).InRange := ⟨by rintro q ⟨⟩; trivial, nofun, nofun⟩
  have hrun : (profileQuery userId).run visit (c.db false) =
      some (rowsWith 0 userId (visit.order c.profiles)) := rfl
  unfold getUserProfile
  dsimp only
  rw [query_one (c.db false) visit hq (profileQuery_piece hid)
    (by simp [profileQuery, Query.tokens, whereTokens, orderTokens, boundTokens,
      sign_not_mem_tokens]), hrun]
  cases rowsWith 0 userId (visit.order c.profiles) <;> rfl

/-- **The value of the setting**, or what the caller brought. -/
theorem getSetting_db {key : Bytes} (hkey : NulFree key) (defaultValue : Bytes) :
    getSetting (c.db false) visit key defaultValue =
      ((rowsWith 0 key (visit.order c.settings)).head?.bind fun row =>
        (columnText row 1).map cStr).getD defaultValue := by
  have hq : (settingQuery key).InRange := ⟨by rintro q ⟨⟩; trivial, nofun, nofun⟩
  have hrun : (settingQuery key).run visit (c.db false) =
      some ((rowsWith 0 key (visit.order c.settings)).map fun r => r[1]?.toList) := rfl
  unfold getSetting
  dsimp only
  rw [query_one (c.db false) visit hq (settingQuery_piece hkey)
    (by simp [settingQuery, Query.tokens, whereTokens, orderTokens, boundTokens,
      sign_not_mem_tokens]), hrun]
  cases rowsWith 0 key (visit.order c.settings) with
  | nil => rfl
  | cons row rows =>
    have hcol : columnText (row[1]?.toList) 0 = columnText row 1 := by
      unfold columnText
      cases row[1]? <;> rfl
    simp only [List.map_cons, hcol, List.head?_cons, Option.bind_some]
    cases columnText row 1 <;> rfl

end Readers

/-! ## 3. Every field comes back from its column -/

theorem readFlag (b : Bool) : (Int32.ofInt (if b then 1 else 0) != 0) = b := by
  cases b <;> decide

theorem readVideo_row {v : VideoItem} (h : v.Clean) : readVideo v.row = v := by
  obtain ⟨h0, h1, h2, h3, h4, h5⟩ := h
  have hread : readVideo v.row =
      ⟨cStr v.id, cStr v.url, cStr v.thumbnailUrl, cStr v.authorId, cStr v.authorName,
        cStr v.description, Int64.ofInt v.likes.toInt, Int64.ofInt v.comments.toInt,
        Int64.ofInt v.shares.toInt, Int64.ofInt v.timestamp.toInt,
        Int32.ofInt (if v.isLiked then 1 else 0) != 0,
        Int32.ofInt (if v.isFollowing then 1 else 0) != 0⟩ := rfl
  rw [hread]
  simp only [cStr_of_nulFree, h0, h1, h2, h3, h4, h5, Int64.ofInt_toInt, readFlag]

theorem readProfile_row {p : UserProfile} (h : p.Clean) : readProfile p.row = p := by
  obtain ⟨h0, h1, h2, h3, h4⟩ := h
  have hread : readProfile p.row =
      ⟨cStr p.id, cStr p.username, cStr p.displayName, cStr p.avatarUrl, cStr p.bio,
        Int64.ofInt p.followers.toInt, Int64.ofInt p.following.toInt,
        Int64.ofInt p.videoCount.toInt, Int32.ofInt (if p.isFollowing then 1 else 0) != 0⟩ := rfl
  rw [hread]
  simp only [cStr_of_nulFree, h0, h1, h2, h3, h4, Int64.ofInt_toInt, readFlag]

theorem readMessage_row {m : StoredMessage} (h : m.Clean) : readMessage m.row = m := by
  obtain ⟨h0, h1, h2, h3, h4⟩ := h
  have hread : readMessage m.row =
      ⟨cStr m.id, cStr m.convId, cStr m.senderId, cStr m.text, cStr m.mediaUrl,
        Int32.ofInt m.type.toInt, Int32.ofInt m.status.toInt,
        Int64.ofInt m.timestamp.toInt⟩ := rfl
  rw [hread]
  simp only [cStr_of_nulFree, h0, h1, h2, h3, h4, Int64.ofInt_toInt, Int32.ofInt_toInt]

/-- A record of the settings table, read back whole. -/
def readSetting (row : Row) : Setting := ⟨col row 0, col row 1⟩

theorem readSetting_row {s : Setting} (h : s.Clean) : readSetting s.row = s := by
  have hread : readSetting s.row = ⟨cStr s.key, cStr s.value⟩ := rfl
  rw [hread, cStr_of_nulFree h.1, cStr_of_nulFree h.2]

end Viral.Storage
