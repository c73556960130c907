/-
  File:      ViralEngine/Storage/Texts.lean
  Subject:   THE TEXTS WITH ARGUMENTS: WHAT THEY TOKENISE TO, AND WHAT A NUL DOES TO THEM.

  Whatever the strings are, a text of the engine comes out of the scanner as the same tokens, with
  the arguments where the literals stand. A NUL cuts the text off inside its literal, and then it
  is no statement at all.

  * `Text`, `Text.sql` -- the texts that have arguments, as the calls build them;
  * `writes_text`, `reads_text` -- the calls hand over these;
  * `Form`, `Form.shape`, `fill` -- the fixed tokens of each, with gaps for the literals;
  * `Built`, `sql_built` -- the four ways in which the texts are put together;
  * `sql_piece`, `literalsHold` -- **each text is read as its shape with its arguments in the
    gaps**, so no argument gets out of its literal;
  * `exec_cut` -- a text with a NUL in one of its strings is an error;
  * `registerRow_db`, `getCachedPath_db` -- **the calls of the cache, on its rows**, whatever their
    strings are.
-/
import ViralEngine.Storage.Cache

namespace Viral.Storage

open Viral.Lib.Sql

/-! ## 1. The texts -/

/-- The texts with arguments, by the call that builds them. -/
inductive Text where
  | saveFeedVideos (v : VideoItem)
  | setVideoLiked (videoId : Bytes) (liked : Bool)
  | saveUserProfile (p : UserProfile)
  | setFollowing (userId : Bytes) (following : Bool)
  | saveMessage (m : StoredMessage)
  | getMessages (convId : Bytes) (limit : Int32)
  | updateMessageStatus (msgId : Bytes) (status : Int32)
  | registerCacheEntry (e : CacheEntry)
  | getCachedPath (key : Bytes)
  | touch (key : Bytes) (nowMs : Int64)
  | setSetting (s : Setting)
  | getSetting (key : Bytes)
  deriving DecidableEq, Repr

/-- The text, as the call puts it together. -/
def Text.sql : Text → Bytes
  | .saveFeedVideos v => feedVideoSql v
  | .setVideoLiked videoId liked =>
    ascii "UPDATE feed_videos SET is_liked=" ++ (if liked then ascii "1" else ascii "0")
      ++ ascii " WHERE id='" ++ esc videoId ++ ascii "';"
  | .saveUserProfile p =>
    ascii "INSERT OR REPLACE INTO user_profiles VALUES ('"
      ++ esc p.id ++ ascii "','"
      ++ esc p.username ++ ascii "','"
      ++ esc p.displayName ++ ascii "','"
      ++ esc p.avatarUrl ++ ascii "','"
      ++ esc p.bio ++ ascii "',"
      ++ toString p.followers.toInt ++ ascii ","
      ++ toString p.following.toInt ++ ascii ","
      ++ toString p.videoCount.toInt ++ ascii ","
      ++ flag p.isFollowing ++ ascii ");"
  | .setFollowing userId following =>
    ascii "UPDATE user_profiles SET is_following=" ++ (if following then ascii "1" else ascii "0")
      ++ ascii " WHERE id='" ++ esc userId ++ ascii "';"
  | .saveMessage m =>
    ascii "INSERT OR REPLACE INTO chat_messages VALUES ('"
      ++ esc m.id ++ ascii "','"
      ++ esc m.convId ++ ascii "','"
      ++ esc m.senderId ++ ascii "',"
      ++ toString m.type.toInt ++ ascii ",'"
      ++ esc m.text ++ ascii "','"
      ++ esc m.mediaUrl ++ ascii "',"
      ++ toString m.timestamp.toInt ++ ascii ","
      ++ toString m.status.toInt ++ ascii ");"
  | .getMessages convId limit =>
    ascii "SELECT * FROM chat_messages WHERE conv_id='" ++ esc convId
      ++ ascii "' ORDER BY timestamp DESC LIMIT " ++ toString limit.toInt ++ ascii ";"
  | .updateMessageStatus msgId status =>
    ascii "UPDATE chat_messages SET status=" ++ toString status.toInt
      ++ ascii " WHERE id='" ++ esc msgId ++ ascii "';"
  | .registerCacheEntry e => registerSql e.key e.localPath e.size e.lastAccess
  | .getCachedPath key =>
    ascii "SELECT local_path FROM disk_cache WHERE key='" ++ esc key ++ ascii "';"
  | .touch key nowMs => touchSql key nowMs
  | .setSetting s =>
    ascii "INSERT OR REPLACE INTO settings VALUES ('"
      ++ esc s.key ++ ascii "','" ++ esc s.value ++ ascii "');"
  | .getSetting key =>
    ascii "SELECT value FROM settings WHERE key='" ++ esc key ++ ascii "';"

/-- The arguments, in the order in which their literals stand in the text. -/
def Text.values : Text → List Value
  | .saveFeedVideos v => v.row
  | .setVideoLiked videoId liked => [flagValue liked, .text videoId]
  | .saveUserProfile p => p.row
  | .setFollowing userId following => [flagValue following, .text userId]
  | .saveMessage m => m.row
  | .getMessages convId limit => [.text convId, .int limit.toInt]
  | .updateMessageStatus msgId status => [.int status.toInt, .text msgId]
  | .registerCacheEntry e => e.row
  | .getCachedPath key => [.text key]
  | .touch key nowMs => [.int nowMs.toInt, .text key]
  | .setSetting s => s.row
  | .getSetting key => [.text key]

/-- The calls that write hand these over. -/
theorem writes_text (db : Db) :
    (∀ videos, saveFeedVideos db videos =
      (exec (videos.foldl (fun db v => (exec db (Text.saveFeedVideos v).sql).1)
        (exec db (ascii "BEGIN TRANSACTION;")).1) (ascii "COMMIT;")).1) ∧
    (∀ videoId liked, setVideoLiked db videoId liked =
      (exec db (Text.setVideoLiked videoId liked).sql).1) ∧
    (∀ p, saveUserProfile db p = (exec db (Text.saveUserProfile p).sql).1) ∧
    (∀ userId following, setFollowing db userId following =
      (exec db (Text.setFollowing userId following).sql).1) ∧
    (∀ convId msgId senderId type text mediaUrl timestamp status,
      saveMessage db convId msgId senderId type text mediaUrl timestamp status =
        (exec db (Text.saveMessage
          ⟨msgId, convId, senderId, text, mediaUrl, type, status, timestamp⟩).sql).1) ∧
    (∀ msgId status, updateMessageStatus db msgId status =
      (exec db (Text.updateMessageStatus msgId status).sql).1) ∧
    (∀ key localPath size nowMs, registerRow db key localPath size nowMs =
      (exec db (Text.registerCacheEntry ⟨key, localPath, size, nowMs⟩).sql).1) ∧
    (∀ key value, setSetting db key value = (exec db (Text.setSetting ⟨key, value⟩).sql).1) :=
  ⟨fun _ => rfl, fun _ _ => rfl, fun _ => rfl, fun _ _ => rfl, fun _ _ _ _ _ _ _ _ => rfl,
    fun _ _ => rfl, fun _ _ _ _ => rfl, fun _ _ => rfl⟩

/-- So do the readers, and `getCachedPath` writes the time of the access. -/
theorem reads_text (db : Db) (visit : Visit) :
    (∀ convId limit, getMessages db visit convId limit =
      match queryText db visit (cStr (Text.getMessages convId limit).sql) with
      | none => []
      | some rows => rows.map readMessage) ∧
    (∀ key defaultValue, getSetting db visit key defaultValue =
      match queryText db visit (cStr (Text.getSetting key).sql) with
      | some (row :: _) =>
        match columnText row 0 with
        | some t => cStr t
        | none => defaultValue
      | some [] | none => defaultValue) ∧
    (∀ nowMs key, getCachedPath db visit nowMs key =
      match queryText db visit (cStr (Text.getCachedPath key).sql) with
      | some (row :: _) => ((exec db (Text.touch key nowMs).sql).1,
        match columnText row 0 with
        | some t => cStr t
        | none => ascii "")
      | some [] | none => (db, ascii "")) :=
  ⟨fun _ _ => rfl, fun _ _ => rfl, fun _ _ => rfl⟩

/-! ## 2. Their shapes -/

/-- The forms of the texts: the table of an INSERT with the number of its columns, the tables and
    columns of an UPDATE, and the three queries. -/
inductive Form where
  | insert (table : String) (columns : Nat)
  | update (table column key : String)
  | lookup (column table key : String)
  | conversation
  deriving DecidableEq, Repr

/-- The shape of the statement of a call. -/
def Text.form : Text → Form
  | .saveFeedVideos _ => .insert "feed_videos" 12
  | .setVideoLiked _ _ => .update "feed_videos" "is_liked" "id"
  | .saveUserProfile _ => .insert "user_profiles" 9
  | .setFollowing _ _ => .update "user_profiles" "is_following" "id"
  | .saveMessage _ => .insert "chat_messages" 8
  | .getMessages _ _ => .conversation
  | .updateMessageStatus _ _ => .update "chat_messages" "status" "id"
  | .registerCacheEntry _ => .insert "disk_cache" 4
  | .getCachedPath _ => .lookup "local_path" "disk_cache" "key"
  | .touch _ _ => .update "disk_cache" "last_access" "key"
  | .setSetting _ => .insert "settings" 2
  | .getSetting _ => .lookup "value" "settings" "key"

/-- A place where this word stands. -/
def keyword (w : String) : Option Token := some (.word (ascii w))

/-- So many literals with commas between them. -/
def gaps : Nat → List (Option Token)
  | 0 => []
  | 1 => [none]
  | n + 2 => none :: some (.sign 44) :: gaps (n + 1)

/-- The tokens of a form; `none` is a literal. -/
def Form.shape : Form → List (Option Token)
  | .insert table columns =>
    [keyword "insert", keyword "or", keyword "replace", keyword "into", keyword table,
      keyword "values", some (.sign 40)] ++ (gaps columns ++ [some (.sign 41)])
  | .update table column key =>
    [keyword "update", keyword table, keyword "set", keyword column, some (.sign 61), none,
      keyword "where", keyword key, some (.sign 61), none]
  | .lookup column table key =>
    [keyword "select", keyword column, keyword "from", keyword table, keyword "where",
      keyword key, some (.sign 61), none]
  | .conversation =>
    [keyword "select", some (.sign 42), keyword "from", keyword "chat_messages", keyword "where",
      keyword "conv_id", some (.sign 61), none, keyword "order", keyword "by",
      keyword "timestamp", keyword "desc", keyword "limit", none]

/-- The tokens with the values in the gaps. -/
def fill : List (Option Token) → List Value → List Token
  | [], _ => []
  | some t :: shape, vs => t :: fill shape vs
  | none :: shape, v :: vs => v.tokens ++ fill shape vs
  | none :: shape, [] => fill shape []

/-- The row of an INSERT. -/
theorem fill_gaps (vs : List Value) (shape : List (Option Token)) :
    fill (gaps vs.length ++ shape) vs = rowTokens vs ++ fill shape [] := by
  induction vs with
  | nil => rfl
  | cons v vs ih =>
    cases vs with
    | nil => simp [gaps, fill, rowTokens]
    | cons w vs =>
      have hrow : rowTokens (v :: w :: vs) = v.tokens ++ (.sign 44 :: rowTokens (w :: vs)) := by
        simp [rowTokens, List.intercalate_cons_cons]
      show v.tokens ++ (.sign 44 :: fill (gaps (w :: vs).length ++ shape) (w :: vs)) = _
      rw [ih, hrow, List.append_assoc, List.cons_append]

/-! ## 3. How they are built -/

theorem cacheSql_eq (e : CacheEntry) :
    registerSql e.key e.localPath e.size e.lastAccess =
      ascii "INSERT OR REPLACE INTO disk_cache VALUES (" ++ (literals e.row ++ ascii ");") := by
  have hhead : ascii "INSERT OR REPLACE INTO disk_cache VALUES ('" =
      ascii "INSERT OR REPLACE INTO disk_cache VALUES (" ++ [39] := by decide
  have hsep : ascii "','" = [39, 44, 39] := rfl
  have hlast : ascii "'," = [39, 44] := rfl
  have hcomma : ascii "," = [44] := rfl
  unfold registerSql
  rw [hhead, hsep, hlast, hcomma]
  simp only [esc_eq]
  simp only [CacheEntry.row, literals_cons, literals_one]
  simp only [Value.literal, toString]
  simp only [List.append_assoc, List.cons_append, List.nil_append]

/-- The end of the UPDATE of the cache. -/
theorem whereKeySql_eq (head value key : Bytes) :
    head ++ value ++ ascii " WHERE key='" ++ esc key ++ ascii "';" =
      head ++ ((value ++ [32]) ++ (ascii "WHERE key=" ++ ((Value.text key).literal ++ [59]))) := by
  have hwhere : ascii " WHERE key='" = 32 :: (ascii "WHERE key=" ++ [39]) := by decide
  have hend : ascii "';" = [39, 59] := rfl
  rw [hwhere, hend, esc_eq]
  simp only [Value.literal]
  simp only [List.append_assoc, List.cons_append, List.nil_append]

/-- The end of a query for a key. -/
theorem keySql_eq (head key : Bytes) :
    (head ++ [39]) ++ esc key ++ ascii "';" = head ++ ((Value.text key).literal ++ [59]) := by
  have hend : ascii "';" = [39, 59] := rfl
  rw [hend, esc_eq]
  simp only [Value.literal]
  simp only [List.append_assoc, List.cons_append, List.nil_append]

/-- **A text is put together from fixed pieces and literals** in one of these ways. -/
inductive Built : Bytes → Form → List Value → Prop
  | insert {head : Bytes} {table : String} {vs : List Value} :
    Piece head (insertHead (ascii table)) → vs ≠ [] →
    Built (head ++ (literals vs ++ ascii ");")) (.insert table vs.length) vs
  | update {head whereHead : Bytes} {table column key : String} {value keyValue : Value} :
    Piece head [.word (ascii "update"), .word (ascii table), .word (ascii "set"),
      .word (ascii column), .sign 61] →
    Piece whereHead [.word (ascii "where"), .word (ascii key), .sign 61] →
    Built (head ++ ((value.literal ++ [32]) ++ (whereHead ++ (keyValue.literal ++ [59]))))
      (.update table column key) [value, keyValue]
  | lookup {head : Bytes} {column table key : String} {value : Value} :
    Piece head [.word (ascii "select"), .word (ascii column), .word (ascii "from"),
      .word (ascii table), .word (ascii "where"), .word (ascii key), .sign 61] →
    Built (head ++ (value.literal ++ [59])) (.lookup column table key) [value]
  | conversation {head orderHead : Bytes} {conv limit : Value} :
    Piece head [.word (ascii "select"), .sign 42, .word (ascii "from"),
      .word (ascii "chat_messages"), .word (ascii "where"), .word (ascii "conv_id"),
      .sign 61] →
    Piece orderHead [.word (ascii "order"), .word (ascii "by"), .word (ascii "timestamp"),
      .word (ascii "desc"), .word (ascii "limit")] →
    Built (head ++ ((conv.literal ++ [32]) ++ (orderHead ++ (limit.literal ++ [59]))))
      .conversation [conv, limit]

/-- The text of a flag. -/
theorem flag_literal (b : Bool) :
    (if b then ascii "1" else ascii "0") = (flagValue b).literal := by
  cases b <;> decide

/-- **Every text is built so from its arguments.** -/
theorem sql_built (t : Text) : Built t.sql t.form t.values := by
  cases t with
  | saveFeedVideos v =>
    have htext : (Text.saveFeedVideos v).sql = _ := feedVideoSql_eq v
    rw [htext]
    exact .insert (by decide) (List.cons_ne_nil _ _)
  | setVideoLiked videoId liked =>
    have htext : (Text.setVideoLiked videoId liked).sql = _ := whereSql_eq _ _ videoId
    rw [htext, flag_literal]
    exact .update (by decide) (by decide)
  | saveUserProfile p =>
    have htext : (Text.saveUserProfile p).sql = _ := profileSql_eq p
    rw [htext]
    exact .insert (by decide) (List.cons_ne_nil _ _)
  | setFollowing userId following =>
    have htext : (Text.setFollowing userId following).sql = _ := whereSql_eq _ _ userId
    rw [htext, flag_literal]
    exact .update (by decide) (by decide)
  | saveMessage m =>
    have htext : (Text.saveMessage m).sql = _ := messageSql_eq m
    rw [htext]
    exact .insert (by decide) (List.cons_ne_nil _ _)
  | getMessages convId limit =>
    have hhead : ascii "SELECT * FROM chat_messages WHERE conv_id='" =
        ascii "SELECT * FROM chat_messages WHERE conv_id=" ++ [39] := by decide
    have horder : ascii "' ORDER BY timestamp DESC LIMIT " =
        39 :: 32 :: ascii "ORDER BY timestamp DESC LIMIT " := by decide
    have hend : ascii ";" = [59] := rfl
    have htext : (Text.getMessages convId limit).sql =
        ascii "SELECT * FROM chat_messages WHERE conv_id=" ++
          (((Value.text convId).literal ++ [32]) ++ (ascii "ORDER BY timestamp DESC LIMIT " ++
            ((Value.int limit.toInt).literal ++ [59]))) := by
      show ascii "SELECT * FROM chat_messages WHERE conv_id='" ++ esc convId
        ++ ascii "' ORDER BY timestamp DESC LIMIT " ++ toString limit.toInt ++ ascii ";" = _
      rw [hhead, horder, hend, esc_eq]
      simp only [Value.literal, toString]
      simp only [List.append_assoc, List.cons_append, List.nil_append]
    rw [htext]
    exact .conversation (by decide) (by decide)
  | updateMessageStatus msgId status =>
    have htext : (Text.updateMessageStatus msgId status).sql = _ := whereSql_eq _ _ msgId
    have hlit : toString status.toInt = (Value.int status.toInt).literal := rfl
    rw [htext, hlit]
    exact .update (by decide) (by decide)
  | registerCacheEntry e =>
    have htext : (Text.registerCacheEntry e).sql = _ := cacheSql_eq e
    rw [htext]
    exact .insert (by decide) (List.cons_ne_nil _ _)
  | getCachedPath key =>
    have hhead : ascii "SELECT local_path FROM disk_cache WHERE key='" =
        ascii "SELECT local_path FROM disk_cache WHERE key=" ++ [39] := by decide
    show Built (ascii "SELECT local_path FROM disk_cache WHERE key='" ++ esc key ++ ascii "';") _ _
    rw [hhead, keySql_eq]
    exact .lookup (by decide)
  | touch key nowMs =>
    have htext : (Text.touch key nowMs).sql = _ := whereKeySql_eq _ _ key
    have hlit : toString nowMs.toInt = (Value.int nowMs.toInt).literal := rfl
    rw [htext, hlit]
    exact .update (by decide) (by decide)
  | setSetting s =>
    have htext : (Text.setSetting s).sql = _ := settingSql_eq s
    rw [htext]
    exact .insert (by decide) (List.cons_ne_nil _ _)
  | getSetting key =>
    have hhead : ascii "SELECT value FROM settings WHERE key='" =
        ascii "SELECT value FROM settings WHERE key=" ++ [39] := by decide
    show Built (ascii "SELECT value FROM settings WHERE key='" ++ esc key ++ ascii "';") _ _
    rw [hhead, keySql_eq]
    exact .lookup (by decide)

theorem inRange_text (s : Bytes) : (Value.text s).InRange := trivial

/-- Strings, and integers of the source. -/
theorem values_inRange (t : Text) : ∀ v ∈ t.values, v.InRange := by
  cases t <;>
    simp only [Text.values, VideoItem.row, UserProfile.row, StoredMessage.row, CacheEntry.row,
      Setting.row, List.forall_mem_cons, List.not_mem_nil, false_imp_iff, implies_true,
      inRange_text, inRange_int64, inRange_int32, inRange_flag, and_self]

/-! ## 4. What they are read as -/

/-- **A text that is built so is read as its shape with its values in the gaps.** -/
theorem Built.piece {sql : Bytes} {form : Form} {vs : List Value} (h : Built sql form vs)
    (hvs : ∀ v ∈ vs, Carried v) : Piece sql (fill form.shape vs ++ [.sign 59]) := by
  cases h with
  | @insert head table vs hhead hne =>
    have hrow : Piece (literals vs ++ [41]) (rowTokens vs ++ [.sign 41]) :=
      ⟨(nulFree_literals fun v hv => (hvs v hv).2).append (by decide), reads_row hne⟩
    have htext := hhead.append (hrow.append (show Piece [59] [.sign 59] by decide))
    rw [List.append_assoc (literals vs), ← List.append_assoc (insertHead (ascii table))] at htext
    have hfill : fill (Form.shape (.insert table vs.length)) vs =
        insertHead (ascii table) ++ (rowTokens vs ++ [.sign 41]) :=
      congrArg (insertHead (ascii table) ++ ·) (fill_gaps vs [some (.sign 41)])
    rw [hfill]
    exact htext
  | @update _ _ _ _ _ value keyValue hhead hwhere =>
    have hv : Carried value := hvs value List.mem_cons_self
    have hk : Carried keyValue := hvs keyValue (List.mem_cons_of_mem _ List.mem_cons_self)
    have htext := hhead.append ((piece_literal hv (c := 32) rfl (by decide)).append
      (hwhere.append (piece_literal hk (c := 59) rfl (by decide))))
    simpa [Form.shape, fill, keyword, closing, isSpace] using htext
  | @lookup _ _ _ _ value hhead =>
    have hv : Carried value := hvs value List.mem_cons_self
    have htext := hhead.append (piece_literal hv (c := 59) rfl (by decide))
    simpa [Form.shape, fill, keyword, closing, isSpace] using htext
  | @conversation _ _ conv limit hhead horder =>
    have hc : Carried conv := hvs conv List.mem_cons_self
    have hl : Carried limit := hvs limit (List.mem_cons_of_mem _ List.mem_cons_self)
    have htext := hhead.append ((piece_literal hc (c := 32) rfl (by decide)).append
      (horder.append (piece_literal hl (c := 59) rfl (by decide))))
    simpa [Form.shape, fill, keyword, closing, isSpace] using htext

/-- **Each text is read as its shape with its arguments in the gaps.** -/
theorem sql_piece {t : Text} (h : ∀ v ∈ t.values, ValueNulFree v) :
    Piece t.sql (fill t.form.shape t.values ++ [.sign 59]) :=
  (sql_built t).piece fun v hv => ⟨values_inRange t v hv, h v hv⟩

/-- No token of a shape is a semicolon, and none comes from a value. -/
theorem sign_not_mem_fill {shape : List (Option Token)} (h : some (Token.sign 59) ∉ shape)
    (vs : List Value) : Token.sign 59 ∉ fill shape vs := by
  induction shape generalizing vs with
  | nil => exact List.not_mem_nil
  | cons o shape ih =>
    rw [List.mem_cons, not_or] at h
    cases o with
    | some t =>
      have ht : Token.sign 59 ≠ t := fun e => h.1 (congrArg some e)
      rw [fill, List.mem_cons, not_or]
      exact ⟨ht, ih h.2 vs⟩
    | none =>
      cases vs with
      | nil => exact ih h.2 []
      | cons v vs =>
        rw [fill, List.mem_append, not_or]
        exact ⟨sign_not_mem_tokens v (by decide), ih h.2 vs⟩

theorem sign_not_mem_gaps (n : Nat) : some (Token.sign 59) ∉ gaps n := by
  induction n with
  | zero => exact List.not_mem_nil
  | succ n ih =>
    cases n with
    | zero => simp [gaps]
    | succ n =>
      rw [gaps, List.mem_cons, List.mem_cons, not_or, not_or]
      exact ⟨nofun, by decide, ih⟩

theorem sign_not_mem_shape (f : Form) : some (Token.sign 59) ∉ f.shape := by
  cases f with
  | insert table columns =>
    have := sign_not_mem_gaps columns
    simp [Form.shape, keyword, this]
  | update | lookup | conversation => simp [Form.shape, keyword]

/-- **No argument gets out of its literal.** A string between quotes, escaped by `esc`, is read
    back as itself up to the closing quote; and every text with arguments is one statement: the
    fixed tokens of its form, with the arguments as its literals. -/
theorem literalsHold :
    (∀ s rest : Bytes, rest.head? ≠ some 39 →
      stringLiteral (39 :: (esc s ++ 39 :: rest)) = some (s, rest)) ∧
    ∀ t : Text, (∀ v ∈ t.values, ValueNulFree v) →
      lex (cStr t.sql) = some (fill t.form.shape t.values ++ [.sign 59]) ∧
      statements (fill t.form.shape t.values ++ [.sign 59]) = [fill t.form.shape t.values] := by
  refine ⟨fun s rest h => ?_, fun t h => ⟨?_, ?_⟩⟩
  · rw [esc_eq]
    exact stringLiteral_doubled s h
  · have hp := sql_piece h
    rw [cStr_of_nulFree hp.nulFree]
    exact hp.reads.lex
  · refine statements_one ?_ (sign_not_mem_fill (sign_not_mem_shape _) _)
    cases t <;> exact List.cons_ne_nil _ _

/-- A message that tries to end its literal, with quotes at both ends. -/
theorem literalsHold_quotes :
    stringLiteral (ascii "'''a''''';") = some (ascii "'a''", ascii ";") ∧
    lex (cStr (Text.getMessages (ascii "' OR ''='") 50).sql) =
      some (fill Form.conversation.shape [.text (ascii "' OR ''='"), .int 50] ++ [.sign 59]) := by
  have hliteral := literalsHold.1 (ascii "'a''") (ascii ";") (by decide)
  have hclean : ∀ v ∈ (Text.getMessages (ascii "' OR ''='") 50).values, ValueNulFree v := by
    rintro v (_ | ⟨_, _ | ⟨_, ⟨⟩⟩⟩)
    · exact (by decide : NulFree (ascii "' OR ''='"))
    · trivial
  exact ⟨hliteral, (literalsHold.2 _ hclean).1⟩

/-! ## 5. A NUL in a string -/

/-- The C string of the text ends inside a string literal. -/
def Cut (s : Bytes) : Prop := ∃ toks a, scan ⟨[], .gap⟩ (cStr s) = ⟨toks, .str a⟩

theorem cStr_append {s : Bytes} (hs : NulFree s) (t : Bytes) : cStr (s ++ t) = s ++ cStr t := by
  unfold cStr
  refine List.takeWhile_append_of_pos fun c hc => ?_
  simp only [decide_eq_true_eq]
  rintro rfl
  exact hs hc

theorem Piece.cut {s t : Bytes} {ts : List Token} (hs : Piece s ts) (ht : Cut t) :
    Cut (s ++ t) := by
  obtain ⟨toks, a, hscan⟩ := ht
  have hframe := scan_frame ts ⟨[], .gap⟩ (cStr t)
  rw [hscan, List.append_nil] at hframe
  refine ⟨ts ++ toks, a, ?_⟩
  rw [cStr_append hs.nulFree, scan_append, hs.reads, hframe]

/-- The string is cut off in front of its first NUL, inside the quotes. -/
theorem cut_literal {v : Value} (h : ¬ ValueNulFree v) (rest : Bytes) :
    Cut (v.literal ++ rest) := by
  have hcut : ∀ s : Bytes, ¬ NulFree s → ∀ rest, cStr (doubled s ++ rest) = doubled (cStr s) := by
    intro s hs rest
    induction s with
    | nil => exact absurd List.not_mem_nil hs
    | cons c s ih =>
      by_cases hc : c = 0
      · subst hc
        rfl
      · have hs' : ¬ NulFree s := fun hn => hs (List.not_mem_cons_of_ne_of_not_mem (Ne.symm hc) hn)
        have hone : NulFree (if c = 39 then [39, 39] else [c]) := by
          split
          · decide
          · exact fun hm => hc (List.mem_singleton.mp hm).symm
        have hsplit : doubled (c :: s) = (if c = 39 then [39, 39] else [c]) ++ doubled s := rfl
        have hcstr : cStr (c :: s) = c :: cStr s := by
          simp [cStr, hc]
        rw [hsplit, List.append_assoc, cStr_append hone, ih hs', hcstr]
        rfl
  cases v with
  | int n => exact absurd trivial h
  | text s =>
    refine ⟨[], cStr s, ?_⟩
    have htext : (Value.text s).literal ++ rest = [39] ++ (doubled s ++ ([39] ++ rest)) := by
      simp only [Value.literal, List.append_assoc, List.cons_append, List.nil_append]
    have hopen : scan ⟨[], .gap⟩ [39] = ⟨[], .str []⟩ := rfl
    rw [htext, cStr_append (by decide), hcut s h, scan_append, hopen, scan_doubled,
      List.nil_append]

theorem cut_literals {vs : List Value} (hvs : ∀ v ∈ vs, v.InRange)
    (h : ∃ v ∈ vs, ¬ ValueNulFree v) (rest : Bytes) : Cut (literals vs ++ rest) := by
  induction vs with
  | nil =>
    obtain ⟨v, hv, _⟩ := h
    exact absurd hv List.not_mem_nil
  | cons v vs ih =>
    cases vs with
    | nil =>
      obtain ⟨w, hw, hnul⟩ := h
      rw [List.mem_singleton.mp hw] at hnul
      rw [literals_one]
      exact cut_literal hnul rest
    | cons w vs =>
      have htext : literals (v :: w :: vs) ++ rest =
          (v.literal ++ [44]) ++ (literals (w :: vs) ++ rest) := by
        simp only [literals_cons, List.append_assoc, List.cons_append, List.nil_append]
      rw [htext]
      by_cases hv : ValueNulFree v
      · have hpiece : Piece (v.literal ++ [44]) _ :=
          piece_literal ⟨hvs v List.mem_cons_self, hv⟩ (c := 44) rfl (by decide)
        refine hpiece.cut (ih (fun x hx => hvs x (List.mem_cons_of_mem v hx)) ?_)
        obtain ⟨x, hx, hnul⟩ := h
        rcases List.mem_cons.mp hx with rfl | hx
        · exact absurd hv hnul
        · exact ⟨x, hx, hnul⟩
      · rw [List.append_assoc]
        exact cut_literal hv _

/-- **A NUL in a string cuts the text off inside its literal.** -/
theorem Built.cut {sql : Bytes} {form : Form} {vs : List Value} (h : Built sql form vs)
    (hvs : ∀ v ∈ vs, v.InRange) (hnul : ∃ v ∈ vs, ¬ ValueNulFree v) : Cut sql := by
  have hmem : ∀ {v : Value}, v ∈ vs → ∀ {c : UInt8} {rest : Bytes}, closes c = true → c ≠ 0 →
      (ValueNulFree v → Cut rest) → Cut ((v.literal ++ [c]) ++ rest) := by
    intro v hv c rest hc hz hrest
    by_cases hclean : ValueNulFree v
    · exact (piece_literal ⟨hvs v hv, hclean⟩ hc hz).cut (hrest hclean)
    · rw [List.append_assoc]
      exact cut_literal hclean _
  cases h with
  | insert hhead hne => exact hhead.cut (cut_literals hvs hnul _)
  | @update _ _ _ _ _ value keyValue hhead hwhere =>
    refine hhead.cut (hmem List.mem_cons_self rfl (by decide) fun hv => hwhere.cut ?_)
    refine cut_literal (fun hk => ?_) _
    obtain ⟨x, hx, hx'⟩ := hnul
    simp only [List.mem_cons, List.not_mem_nil, or_false] at hx
    rcases hx with rfl | rfl
    · exact hx' hv
    · exact hx' hk
  | @lookup _ _ _ _ value hhead =>
    obtain ⟨x, hx, hx'⟩ := hnul
    rw [List.mem_singleton.mp hx] at hx'
    exact hhead.cut (cut_literal hx' _)
  | @conversation _ _ conv limit hhead horder =>
    refine hhead.cut (hmem List.mem_cons_self rfl (by decide) fun hv => horder.cut ?_)
    refine cut_literal (fun hk => ?_) _
    obtain ⟨x, hx, hx'⟩ := hnul
    simp only [List.mem_cons, List.not_mem_nil, or_false] at hx
    rcases hx with rfl | rfl
    · exact hx' hv
    · exact hx' hk

theorem Cut.lex {s : Bytes} (h : Cut s) : lex (cStr s) = none := by
  obtain ⟨toks, a, hscan⟩ := h
  unfold Lib.Sql.lex
  rw [hscan]

/-- **A text with a NUL in one of its strings is an error**, and changes nothing. -/
theorem exec_cut (db : Db) {t : Text} (h : ∃ v ∈ t.values, ¬ ValueNulFree v) :
    exec db t.sql = (db, false) := by
  have hcut := (sql_built t).cut (values_inRange t) h
  unfold exec execText
  rw [hcut.lex]

/-- A query with a NUL in its string has no answer. -/
theorem query_cut (db : Db) (visit : Visit) {t : Text} (h : ∃ v ∈ t.values, ¬ ValueNulFree v) :
    queryText db visit (cStr t.sql) = none := by
  have hcut := (sql_built t).cut (values_inRange t) h
  unfold queryText
  rw [hcut.lex]
  rfl

/-! ## 6. The calls of the cache, on its rows -/

instance (e : CacheEntry) : Decidable e.Clean := inferInstanceAs (Decidable (_ ∧ _))

theorem CacheEntry.row_ok {e : CacheEntry} (h : e.Clean) : ∀ x ∈ e.row, Carried x := by
  simp only [CacheEntry.row, List.forall_mem_cons, List.not_mem_nil, false_imp_iff, implies_true]
  exact ⟨⟨trivial, h.1⟩, ⟨trivial, h.2⟩, ⟨inRange_int64 _, trivial⟩, ⟨inRange_int64 _, trivial⟩,
    trivial⟩

/-- The rows behind the INSERT of `registerCacheEntry`. -/
def registered (rows : List Row) (e : CacheEntry) : List Row :=
  if e.Clean then upsertRow rows e.row else rows

/-- The rows behind `getCachedPath`. -/
def touched (rows : List Row) (key : Bytes) (nowMs : Int64) : List Row :=
  if NulFree key then setColumn rows key 3 (.int nowMs.toInt) else rows

/-- The records behind them. -/
def registerEntries (entries : List CacheEntry) (e : CacheEntry) : List CacheEntry :=
  if e.Clean then entries.filter (fun x => x.key ≠ e.key) ++ [e] else entries

/-- The entries behind a use of a key; a key with a NUL is cut short and hits none. -/
def touchEntries (entries : List CacheEntry) (key : Bytes) (nowMs : Int64) : List CacheEntry :=
  if NulFree key then
    entries.map fun x => if x.key = key then { x with lastAccess := nowMs } else x
  else entries

theorem registered_map (entries : List CacheEntry) (e : CacheEntry) :
    registered (entries.map CacheEntry.row) e =
      (registerEntries entries e).map CacheEntry.row := by
  unfold registered registerEntries
  split
  · rw [upsertRow, List.filter_map, List.map_append]
    congr 2
    refine List.filter_congr fun x _ => ?_
    have hx : x.row[0]? = some (Value.text x.key) := rfl
    have he : e.row[0]? = some (Value.text e.key) := rfl
    simp [hx, he]
  · rfl

theorem touched_map (entries : List CacheEntry) (key : Bytes) (nowMs : Int64) :
    touched (entries.map CacheEntry.row) key nowMs =
      (touchEntries entries key nowMs).map CacheEntry.row := by
  unfold touched touchEntries
  split
  · rw [setColumn, List.map_map, List.map_map]
    refine List.map_congr_left fun x _ => ?_
    have hx : x.row[0]? = some (Value.text x.key) := rfl
    simp only [Function.comp_apply, hx, Option.some.injEq, Value.text.injEq]
    split <;> rfl
  · rfl

section Cache

variable (c : Contents) (b : Bool)

theorem registerRow_db (e : CacheEntry) :
    registerRow (c.db b) e.key e.localPath e.size e.lastAccess =
      { c with cache := registered c.cache e }.db b := by
  unfold registered
  by_cases he : e.Clean
  · rw [if_pos he, registerRow, cacheSql_eq]
    exact exec_insert (ascii "disk_cache") (by decide) (List.cons_ne_nil _ _)
      (CacheEntry.row_ok he) rfl
  · have hnul : ∃ v ∈ (Text.registerCacheEntry e).values, ¬ ValueNulFree v := by
      by_contra hno
      have hall : ∀ v ∈ e.row, ValueNulFree v := fun v hv => by_contra fun hn => hno ⟨v, hv, hn⟩
      exact he ⟨hall (.text e.key) List.mem_cons_self,
        hall (.text e.localPath) (List.mem_cons_of_mem _ List.mem_cons_self)⟩
    rw [if_neg he]
    exact congrArg Prod.fst (exec_cut (c.db b) hnul)

/-- The query for the path of a key. -/
def pathQuery (key : Bytes) : Query :=
  ⟨some (ascii "local_path"), ascii "disk_cache", some (ascii "key", .text key), none, none,
    none⟩

theorem queryPath_db (visit : Visit) {key : Bytes} (hkey : NulFree key) :
    queryText (c.db b) visit (cStr (Text.getCachedPath key).sql) =
      some ((rowsWith 0 key (visit.order c.cache)).map fun r => r[1]?.toList) := by
  have hvalues : ∀ v ∈ (Text.getCachedPath key).values, ValueNulFree v := by
    intro v hv
    rw [List.mem_singleton.mp hv]
    exact hkey
  have hq : (pathQuery key).InRange := ⟨by rintro q ⟨⟩; trivial, nofun, nofun⟩
  have hpiece : Piece (Text.getCachedPath key).sql ((pathQuery key).tokens ++ [.sign 59]) :=
    sql_piece hvalues
  rw [query_one (c.db b) visit hq hpiece (by simp [pathQuery, Query.tokens, whereTokens,
    orderTokens, boundTokens, sign_not_mem_tokens])]
  rfl

theorem touch_db (key : Bytes) (nowMs : Int64) :
    (exec (c.db b) (Text.touch key nowMs).sql).1 =
      { c with cache := touched c.cache key nowMs }.db b := by
  unfold touched
  by_cases hkey : NulFree key
  · have hlit : toString nowMs.toInt = (Value.int nowMs.toInt).literal := rfl
    have htext : (Text.touch key nowMs).sql = _ := whereKeySql_eq _ _ key
    rw [if_pos hkey, htext, hlit]
    exact exec_update (ascii "disk_cache") (ascii "last_access") (ascii "key") (by decide)
      (by decide) ⟨inRange_int64 nowMs, trivial⟩ ⟨trivial, hkey⟩ rfl
  · have hnul : ∃ v ∈ (Text.touch key nowMs).values, ¬ ValueNulFree v :=
      ⟨.text key, List.mem_cons_of_mem _ List.mem_cons_self, hkey⟩
    rw [if_neg hkey]
    exact congrArg Prod.fst (exec_cut (c.db b) hnul)

/-- The key is found. -/
def Cached (rows : List Row) (key : Bytes) : Prop :=
  NulFree key ∧ ∃ r ∈ rows, r[0]? = some (Value.text key)

/-- **`getCachedPath` sets the time of the key**, and answers the empty string if it is not
    there. -/
theorem getCachedPath_db (visit : Visit) (nowMs : Int64) (key : Bytes) :
    (getCachedPath (c.db b) visit nowMs key).1 =
        { c with cache := touched c.cache key nowMs }.db b ∧
      (¬ Cached c.cache key → (getCachedPath (c.db b) visit nowMs key).2 = []) := by
  rw [(reads_text (c.db b) visit).2.2 nowMs key]
  by_cases hkey : NulFree key
  · rw [queryPath_db c b visit hkey]
    cases hrows : rowsWith 0 key (visit.order c.cache) with
    | nil =>
      refine ⟨?_, fun _ => rfl⟩
      have hnone : ∀ r ∈ c.cache, r[0]? ≠ some (Value.text key) := by
        intro r hr e
        have hmem : r ∈ rowsWith 0 key (visit.order c.cache) :=
          List.mem_filter.mpr ⟨(visit.perm c.cache).mem_iff.mpr hr, decide_eq_true e⟩
        rw [hrows] at hmem
        cases hmem
      have hsame : touched c.cache key nowMs = c.cache := by
        unfold touched setColumn
        rw [if_pos hkey]
        exact (List.map_congr_left fun r hr => if_neg (hnone r hr)).trans (List.map_id _)
      rw [hsame]
      rfl
    | cons r rows =>
      refine ⟨touch_db c b key nowMs, fun hno => absurd ⟨hkey, r, ?_⟩ hno⟩
      have hmem : r ∈ rowsWith 0 key (visit.order c.cache) := by
        rw [hrows]
        exact List.mem_cons_self
      obtain ⟨hr, hk⟩ := List.mem_filter.mp hmem
      exact ⟨(visit.perm c.cache).mem_iff.mp hr, of_decide_eq_true hk⟩
  · have hnul : ∃ v ∈ (Text.getCachedPath key).values, ¬ ValueNulFree v :=
      ⟨.text key, List.mem_cons_self, hkey⟩
    have hsame : touched c.cache key nowMs = c.cache := if_neg hkey
    rw [query_cut (c.db b) visit hnul, hsame]
    exact ⟨rfl, fun _ => rfl⟩

end Cache

end Viral.Storage
