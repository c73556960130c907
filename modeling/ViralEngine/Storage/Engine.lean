/-
  File:      ViralEngine/Storage/Engine.lean
  Subject:   THE STORAGE ENGINE AS IT TALKS TO SQLITE
             (ViralEngine/core/ViralStorageEngine.h, ViralStorageEngine.cpp).

  Every call puts a text together and hands it to SQLite as a C string; what comes back is read
  column by column, by number. SQLite is the fragment of Lib/Sql.lean: it runs the text it is
  given, and leaves open in which order rows come that no ORDER BY tells apart (`Visit`).

  * `VideoItem`, `UserProfile`, `StoredMessage`, `CacheEntry` -- the records of the header;
  * `esc`, `exec`, `cStr` -- the helpers, and the end of a C string at its first NUL;
  * `createTables`, `opened` -- the tables, from the text of the source;
  * `saveFeedVideos`, `getFeedVideos`, `setVideoLiked`, `clearFeedCache`, `saveUserProfile`,
    `getUserProfile`, `setFollowing`, `saveMessage`, `getMessages`, `updateMessageStatus`,
    `setSetting`, `getSetting`, `clearAll` -- the calls;
  * `Call`, `Call.run` -- the calls that write, as one type.

  The disk cache (`registerCacheEntry` and what follows it) is not here: of its table only the
  DELETE of `clearAll` is.
-/
import ViralEngine.Lib.Sql

namespace Viral.Storage

open Viral.Lib.Sql

/-! ## 1. Records -/

/-- `VideoItem`. -/
structure VideoItem where
  id : Bytes
  url : Bytes
  thumbnailUrl : Bytes
  authorId : Bytes
  authorName : Bytes
  description : Bytes
  likes : Int64
  comments : Int64
  shares : Int64
  timestamp : Int64
  isLiked : Bool
  isFollowing : Bool
  deriving DecidableEq, Repr

/-- `UserProfile`. -/
structure UserProfile where
  id : Bytes
  username : Bytes
  displayName : Bytes
  avatarUrl : Bytes
  bio : Bytes
  followers : Int64
  following : Int64
  videoCount : Int64
  isFollowing : Bool
  deriving DecidableEq, Repr

/-- `StoredMessage`. -/
structure StoredMessage where
  id : Bytes
  convId : Bytes
  senderId : Bytes
  text : Bytes
  mediaUrl : Bytes
  type : Int32
  status : Int32
  timestamp : Int64
  deriving DecidableEq, Repr

/-- `CacheEntry`. -/
structure CacheEntry where
  key : Bytes
  localPath : Bytes
  size : Int64
  lastAccess : Int64
  deriving DecidableEq, Repr

/-! ## 2. Helpers -/

/-- A C string ends at its first NUL. -/
def cStr (s : Bytes) : Bytes := s.takeWhile (· ≠ 0)

/-- `exec`: run the text, and whether SQLite answered `SQLITE_OK`. The calls below do not look. -/
def exec (db : Db) (sql : Bytes) : Db × Bool := execText db (cStr sql)

/-- `esc`: each quote is doubled. -/
def esc (s : Bytes) : Bytes :=
  s.foldl (fun out c => if c = 39 then out ++ ascii "''" else out ++ [c]) []

/-- `std::to_string` of a signed integer. -/
def toString (n : Int) : Bytes := signed n

/-- `sqlite3_column_text`. -/
def columnText (row : Row) (i : Nat) : Option Bytes :=
  row[i]?.map fun
    | .text s => s
    | .int n => signed n

/-- The lambda `col` of the readers. -/
def col (row : Row) (i : Nat) : Bytes :=
  match columnText row i with
  | some t => cStr t
  | none => ascii ""

/-- `sqlite3_column_int64`. -/
def columnInt64 (row : Row) (i : Nat) : Int64 := Int64.ofInt (intAt i row)

/-- `sqlite3_column_int`: the lower 32 bits. -/
def columnInt (row : Row) (i : Nat) : Int32 := Int32.ofInt (intAt i row)

/-- `std::to_string(b ? 1 : 0)`. -/
def flag (b : Bool) : Bytes := toString (if b then 1 else 0)

/-! ## 3. The tables -/

/-- A line of a raw string literal: the newline in front of it, its indentation, its text. -/
def line (indent : Nat) (s : String) : Bytes := 10 :: (List.replicate indent 32 ++ ascii s)

/-- `createTables`: one statement after the other, whatever becomes of them. -/
def createTables (db : Db) : Db :=
  let db := (exec db (
      line 8 "CREATE TABLE IF NOT EXISTS feed_videos (" ++
      line 12 "id TEXT PRIMARY KEY," ++
      line 12 "url TEXT, thumbnail_url TEXT," ++
      line 12 "author_id TEXT, author_name TEXT," ++
      line 12 "description TEXT," ++
      line 12 "likes INTEGER DEFAULT 0," ++
      line 12 "comments INTEGER DEFAULT 0," ++
      line 12 "shares INTEGER DEFAULT 0," ++
      line 12 "timestamp INTEGER DEFAULT 0," ++
      line 12 "is_liked INTEGER DEFAULT 0," ++
      line 12 "is_following INTEGER DEFAULT 0" ++
      line 8 ");" ++
      line 4 "")).1
  let db := (exec db (
      line 8 "CREATE TABLE IF NOT EXISTS user_profiles (" ++
      line 12 "id TEXT PRIMARY KEY," ++
      line 12 "username TEXT, display_name TEXT," ++
      line 12 "avatar_url TEXT, bio TEXT," ++
      line 12 "followers INTEGER DEFAULT 0," ++
      line 12 "following_count INTEGER DEFAULT 0," ++
      line 12 "video_count INTEGER DEFAULT 0," ++
      line 12 "is_following INTEGER DEFAULT 0" ++
      line 8 ");" ++
      line 4 "")).1
  let db := (exec db (
      line 8 "CREATE TABLE IF NOT EXISTS chat_messages (" ++
      line 12 "id TEXT PRIMARY KEY," ++
      line 12 "conv_id TEXT, sender_id TEXT," ++
      line 12 "type INTEGER DEFAULT 1," ++
      line 12 "text TEXT, media_url TEXT," ++
      line 12 "timestamp INTEGER DEFAULT 0," ++
      line 12 "status INTEGER DEFAULT 0" ++
      line 8 ");" ++
      line 8 "CREATE INDEX IF NOT EXISTS idx_chat_conv ON chat_messages(conv_id, timestamp);" ++
      line 4 "")).1
  let db := (exec db (
      line 8 "CREATE TABLE IF NOT EXISTS disk_cache (" ++
      line 12 "key TEXT PRIMARY KEY," ++
      line 12 "local_path TEXT," ++
      line 12 "size INTEGER DEFAULT 0," ++
      line 12 "last_access INTEGER DEFAULT 0" ++
      line 8 ");" ++
      line 4 "")).1
  (exec db (
      line 8 "CREATE TABLE IF NOT EXISTS settings (" ++
      line 12 "key TEXT PRIMARY KEY," ++
      line 12 "value TEXT" ++
      line 8 ");" ++
      line 4 "")).1

/-- The constructor, on a database file that is new. -/
def opened : Db :=
  let db : Db := ⟨[], false⟩
  let db := (exec db (ascii "PRAGMA journal_mode=WAL;")).1
  let db := (exec db (ascii "PRAGMA synchronous=NORMAL;")).1
  createTables db

/-! ## 4. Feed videos -/

/-- The text of one round of `saveFeedVideos`. -/
def feedVideoSql (v : VideoItem) : Bytes :=
  ascii "INSERT OR REPLACE INTO feed_videos VALUES ('"
    ++ esc v.id ++ ascii "','"
    ++ esc v.url ++ ascii "','"
    ++ esc v.thumbnailUrl ++ ascii "','"
    ++ esc v.authorId ++ ascii "','"
    ++ esc v.authorName ++ ascii "','"
    ++ esc v.description ++ ascii "',"
    ++ toString v.likes.toInt ++ ascii ","
    ++ toString v.comments.toInt ++ ascii ","
    ++ toString v.shares.toInt ++ ascii ","
    ++ toString v.timestamp.toInt ++ ascii ","
    ++ flag v.isLiked ++ ascii ","
    ++ flag v.isFollowing ++ ascii ");"

/-- `saveFeedVideos`: a failed INSERT stops neither the loop nor the COMMIT. -/
def saveFeedVideos (db : Db) (videos : List VideoItem) : Db :=
  let db := (exec db (ascii "BEGIN TRANSACTION;")).1
  let db := videos.foldl (fun db v => (exec db (feedVideoSql v)).1) db
  (exec db (ascii "COMMIT;")).1

/-- One round of the reading loop of `getFeedVideos`. -/
def readVideo (row : Row) : VideoItem where
  id := col row 0
  url := col row 1
  thumbnailUrl := col row 2
  authorId := col row 3
  authorName := col row 4
  description := col row 5
  likes := columnInt64 row 6
  comments := columnInt64 row 7
  shares := columnInt64 row 8
  timestamp := columnInt64 row 9
  isLiked := columnInt row 10 != 0
  isFollowing := columnInt row 11 != 0

/-- `getFeedVideos`: nothing where the query fails. -/
def getFeedVideos (db : Db) (visit : Visit) (limit offset : Int32) : List VideoItem :=
  let sql := ascii "SELECT * FROM feed_videos ORDER BY timestamp DESC LIMIT "
    ++ toString limit.toInt ++ ascii " OFFSET " ++ toString offset.toInt ++ ascii ";"
  match queryText db visit (cStr sql) with
  | none => []
  | some rows => rows.map readVideo

/-- `setVideoLiked`. -/
def setVideoLiked (db : Db) (videoId : Bytes) (liked : Bool) : Db :=
  (exec db (ascii "UPDATE feed_videos SET is_liked=" ++ (if liked then ascii "1" else ascii "0")
    ++ ascii " WHERE id='" ++ esc videoId ++ ascii "';")).1

/-- `clearFeedCache`. -/
def clearFeedCache (db : Db) : Db := (exec db (ascii "DELETE FROM feed_videos;")).1

/-! ## 5. User profiles -/

/-- `saveUserProfile`. -/
def saveUserProfile (db : Db) (p : UserProfile) : Db :=
  let sql := ascii "INSERT OR REPLACE INTO user_profiles VALUES ('"
    ++ esc p.id ++ ascii "','"
    ++ esc p.username ++ ascii "','"
    ++ esc p.displayName ++ ascii "','"
    ++ esc p.avatarUrl ++ ascii "','"
    ++ esc p.bio ++ ascii "',"
    ++ toString p.followers.toInt ++ ascii ","
    ++ toString p.following.toInt ++ ascii ","
    ++ toString p.videoCount.toInt ++ ascii ","
    ++ flag p.isFollowing ++ ascii ");"
  (exec db sql).1

/-- The record `getUserProfile` fills from a row. -/
def readProfile (row : Row) : UserProfile where
  id := col row 0
  username := col row 1
  displayName := col row 2
  avatarUrl := col row 3
  bio := col row 4
  followers := columnInt64 row 5
  following := columnInt64 row 6
  videoCount := columnInt64 row 7
  isFollowing := columnInt row 8 != 0

/-- `p` is the record as `getUserProfile` declares it: its numbers are not initialised. -/
def getUserProfile (db : Db) (visit : Visit) (p : UserProfile) (userId : Bytes) : UserProfile :=
  let sql := ascii "SELECT * FROM user_profiles WHERE id='" ++ esc userId ++ ascii "';"
  match queryText db visit (cStr sql) with
  | some (row :: _) => readProfile row
  | some [] | none => p

/-- `setFollowing`. -/
def setFollowing (db : Db) (userId : Bytes) (following : Bool) : Db :=
  (exec db (ascii "UPDATE user_profiles SET is_following="
    ++ (if following then ascii "1" else ascii "0")
    ++ ascii " WHERE id='" ++ esc userId ++ ascii "';")).1

/-! ## 6. Chat messages -/

/-- `saveMessage`. -/
def saveMessage (db : Db) (convId msgId senderId : Bytes) (type : Int32) (text mediaUrl : Bytes)
    (timestamp : Int64) (status : Int32) : Db :=
  let sql := ascii "INSERT OR REPLACE INTO chat_messages VALUES ('"
    ++ esc msgId ++ ascii "','"
    ++ esc convId ++ ascii "','"
    ++ esc senderId ++ ascii "',"
    ++ toString type.toInt ++ ascii ",'"
    ++ esc text ++ ascii "','"
    ++ esc mediaUrl ++ ascii "',"
    ++ toString timestamp.toInt ++ ascii ","
    ++ toString status.toInt ++ ascii ");"
  (exec db sql).1

/-- One round of the reading loop of `getMessages`. -/
def readMessage (row : Row) : StoredMessage where
  id := col row 0
  convId := col row 1
  senderId := col row 2
  type := columnInt row 3
  text := col row 4
  mediaUrl := col row 5
  timestamp := columnInt64 row 6
  status := columnInt row 7

/-- `getMessages`: the newest first. -/
def getMessages (db : Db) (visit : Visit) (convId : Bytes) (limit : Int32) : List StoredMessage :=
  let sql := ascii "SELECT * FROM chat_messages WHERE conv_id='" ++ esc convId
    ++ ascii "' ORDER BY timestamp DESC LIMIT " ++ toString limit.toInt ++ ascii ";"
  match queryText db visit (cStr sql) with
  | none => []
  | some rows => rows.map readMessage

/-- `updateMessageStatus`. -/
def updateMessageStatus (db : Db) (msgId : Bytes) (status : Int32) : Db :=
  (exec db (ascii "UPDATE chat_messages SET status=" ++ toString status.toInt
    ++ ascii " WHERE id='" ++ esc msgId ++ ascii "';")).1

/-! ## 7. Settings, and everything at once -/

/-- `setSetting`. -/
def setSetting (db : Db) (key value : Bytes) : Db :=
  (exec db (ascii "INSERT OR REPLACE INTO settings VALUES ('"
    ++ esc key ++ ascii "','" ++ esc value ++ ascii "');")).1

/-- `getSetting`: the default also for a NULL. -/
def getSetting (db : Db) (visit : Visit) (key defaultValue : Bytes) : Bytes :=
  let sql := ascii "SELECT value FROM settings WHERE key='" ++ esc key ++ ascii "';"
  match queryText db visit (cStr sql) with
  | some (row :: _) =>
    match columnText row 0 with
    | some t => cStr t
    | none => defaultValue
  | some [] | none => defaultValue

/-- `clearAll`: table after table. -/
def clearAll (db : Db) : Db :=
  let db := (exec db (ascii "DELETE FROM feed_videos;")).1
  let db := (exec db (ascii "DELETE FROM user_profiles;")).1
  let db := (exec db (ascii "DELETE FROM chat_messages;")).1
  let db := (exec db (ascii "DELETE FROM disk_cache;")).1
  (exec db (ascii "DELETE FROM settings;")).1

/-! ## 8. Calls -/

/-- The calls that write. -/
inductive Call where
  | saveFeedVideos (videos : List VideoItem)
  | setVideoLiked (videoId : Bytes) (liked : Bool)
  | clearFeedCache
  | saveUserProfile (profile : UserProfile)
  | setFollowing (userId : Bytes) (following : Bool)
  | saveMessage (convId msgId senderId : Bytes) (type : Int32) (text mediaUrl : Bytes)
      (timestamp : Int64) (status : Int32)
  | updateMessageStatus (msgId : Bytes) (status : Int32)
  | setSetting (key value : Bytes)
  | clearAll
  deriving DecidableEq, Repr

/-- A call, on the database. -/
def Call.run (db : Db) : Call → Db
  | .saveFeedVideos videos => Storage.saveFeedVideos db videos
  | .setVideoLiked videoId liked => Storage.setVideoLiked db videoId liked
  | .clearFeedCache => Storage.clearFeedCache db
  | .saveUserProfile profile => Storage.saveUserProfile db profile
  | .setFollowing userId following => Storage.setFollowing db userId following
  | .saveMessage convId msgId senderId type text mediaUrl timestamp status =>
    Storage.saveMessage db convId msgId senderId type text mediaUrl timestamp status
  | .updateMessageStatus msgId status => Storage.updateMessageStatus db msgId status
  | .setSetting key value => Storage.setSetting db key value
  | .clearAll => Storage.clearAll db

end Viral.Storage
