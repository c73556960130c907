/-
  File:      ViralEngine/Chat/RoundTrip.lean
  Subject:   WHAT A MESSAGE FRAME IS READ BACK AS

  `buildMessageJson` writes the fields between quotes as they are, and `jsonGet` looks for the
  first `"key":"` anywhere in the frame. Cut at its quotes (Lib/Search.lean), a frame is a list of
  pieces: a field without a quote is one piece, a field with quotes is several, and a key can be
  matched only by a piece of its own, followed by the piece `:`.

  * `jsonGet_eq` -- `jsonGet` is a walk over the pieces of a frame;
  * `pieces_build` -- the pieces of a message frame;
  * `roundTrip_iff` -- a message is read back as it was exactly when no field has a quote;
  * `forgedUrl`, `sameButText_iff` -- what a text can do to the other fields: only to the media
    url, and exactly when it brings a `mediaUrl` key of its own.
-/
import Mathlib.Data.List.TakeWhile
import ViralEngine.Lib.Search
import ViralEngine.Chat.Engine

namespace Viral.Chat

open Viral.Lib

/-! ## 1. `find` as a walk -/

/-- The double quote. -/
def quote : UInt8 := 34

/-- A text cut at its quotes. -/
def pieces (s : Bytes) : List Bytes := s.splitOn quote

theorem findFrom_nil (p : Bytes) :
    findFrom [] p 0 = if p.isPrefixOf [] then some 0 else none := by
  show List.find? _ [0] = _
  rw [List.find?_singleton]
  rfl

theorem findFrom_cons (a : UInt8) (s p : Bytes) :
    findFrom (a :: s) p 0 =
      if p.isPrefixOf (a :: s) then some 0 else (findFrom s p 0).map (· + 1) := by
  unfold findFrom
  rw [List.drop_zero, List.drop_zero, List.length_cons, List.range_succ_eq_map, List.find?_cons,
    List.find?_map]
  cases hp : p.isPrefixOf ((a :: s).drop 0) with
  | true => exact (if_pos hp).symm
  | false =>
    have hp' : ¬ p.isPrefixOf (a :: s) = true := by
      rw [show (a :: s) = (a :: s).drop 0 from rfl, hp]
      exact Bool.false_ne_true
    rw [if_neg hp']
    rfl

/-- What stands behind the place that `find` answers. -/
theorem behind_findFrom (s p : Bytes) :
    (findFrom s p 0).map (fun i => s.drop (i + p.length)) = behind p s := by
  induction s with
  | nil =>
    rw [findFrom_nil]
    cases p with
    | nil => rfl
    | cons b p => rfl
  | cons a s ih =>
    rw [findFrom_cons, behind]
    by_cases hp : p.isPrefixOf (a :: s) = true
    · rw [if_pos hp, if_pos hp]
      show some ((a :: s).drop (0 + p.length)) = _
      rw [Nat.zero_add]
    · rw [if_neg hp, if_neg hp, ← ih]
      cases findFrom s p 0 with
      | none => rfl
      | some i =>
        show some ((a :: s).drop (i + 1 + p.length)) = some (s.drop (i + p.length))
        rw [show i + 1 + p.length = (i + p.length) + 1 by omega, List.drop_succ_cons]

/-- A search from a place on is a search in the rest. -/
theorem findFrom_drop {s p : Bytes} {pos : Nat} (h : pos ≤ s.length) :
    findFrom s p pos = (findFrom (s.drop pos) p 0).map (pos + ·) := by
  unfold findFrom
  have hrange : (List.range (s.length + 1)).drop pos =
      (List.range ((s.drop pos).length + 1)).map (pos + ·) := by
    rw [List.length_drop, List.range_eq_range', List.drop_range', List.range_eq_range',
      List.map_add_range']
    congr 1 <;> omega
  rw [hrange, List.find?_map, List.drop_zero]
  congr 2
  funext i
  show p.isPrefixOf (s.drop (pos + i)) = p.isPrefixOf ((s.drop pos).drop i)
  rw [List.drop_drop]

/-- The next quote stands behind the text up to it. -/
theorem findFrom_quote (r : Bytes) : findFrom r [quote] 0 =
    if quote ∈ r then some (r.takeWhile fun b => b ≠ quote).length else none := by
  induction r with
  | nil => rfl
  | cons a r ih =>
    rw [findFrom_cons, ih]
    by_cases ha : a = quote
    · simp [ha]
    · have ha' : ¬ quote = a := fun e => ha e.symm
      by_cases hr : quote ∈ r
      · simp [ha, ha', hr]
      · simp [ha', hr]

/-! ## 2. `jsonGet` -/

/-- A place that `find` answers leaves room for the pattern. -/
theorem findFrom_room {s p : Bytes} {i : Nat} (h : findFrom s p 0 = some i) :
    i + p.length ≤ s.length := by
  have hfound := List.find?_some h
  have hlen := (List.isPrefixOf_iff_prefix.mp hfound).length_le
  have hmem := List.mem_of_find?_eq_some h
  rw [List.drop_zero, List.mem_range] at hmem
  rw [List.length_drop] at hlen
  omega

/-- A text cut out up to where its bytes first fail `p`, or to its end: `stop` is that place, or
    none. -/
theorem substr_until {json : Bytes} {pos : Nat} {p : UInt8 → Bool} {stop : Option Nat}
    (hlen : json.length ≤ npos) (hpos : pos ≤ json.length)
    (hstop : (stop = none ∧ ∀ b ∈ json.drop pos, p b = true) ∨
      stop = some (pos + ((json.drop pos).takeWhile p).length)) :
    substr json pos ((stop.getD npos + 2 ^ 64 - pos) % 2 ^ 64) =
      some ((json.drop pos).takeWhile p) := by
  have hbound : json.length < 2 ^ 64 := by
    unfold npos at hlen
    omega
  have hroom : (json.drop pos).length = json.length - pos := List.length_drop
  have hprefix := List.takeWhile_prefix p (l := json.drop pos)
  unfold substr
  rw [if_neg (by omega)]
  refine congrArg some ?_
  rcases hstop with ⟨rfl, hall⟩ | rfl
  · rw [List.takeWhile_eq_self_iff.mpr hall]
    refine List.take_of_length_le ?_
    show _ ≤ (npos + 2 ^ 64 - pos) % 2 ^ 64
    unfold npos at hlen ⊢
    omega
  · have hle := hprefix.length_le
    have hcount : (pos + ((json.drop pos).takeWhile p).length + 2 ^ 64 - pos) % 2 ^ 64 =
        ((json.drop pos).takeWhile p).length := by
      rw [show pos + ((json.drop pos).takeWhile p).length + 2 ^ 64 - pos =
        ((json.drop pos).takeWhile p).length + 2 ^ 64 by omega, Nat.add_mod_right]
      exact Nat.mod_eq_of_lt (by omega)
    show (json.drop pos).take ((pos + _ + 2 ^ 64 - pos) % 2 ^ 64) = _
    rw [hcount]
    exact (List.prefix_iff_eq_take.mp hprefix).symm

/-- Behind a quoted value's key: the text up to the next quote, or to the end. -/
theorem substr_quote {json : Bytes} {pos : Nat} (hlen : json.length ≤ npos)
    (hpos : pos ≤ json.length) :
    substr json pos ((((findFrom json (ascii "\"") pos).getD npos) + 2 ^ 64 - pos) % 2 ^ 64) =
      some ((json.drop pos).takeWhile fun b => b ≠ quote) := by
  refine substr_until hlen hpos ?_
  rw [findFrom_drop hpos, show ascii "\"" = [quote] from rfl, findFrom_quote]
  by_cases hq : quote ∈ json.drop pos
  · rw [if_pos hq]
    exact Or.inr rfl
  · rw [if_neg hq]
    exact Or.inl ⟨rfl, fun b hb => decide_eq_true fun e => hq (e ▸ hb)⟩

/-- The bytes in front of the comma or the brace that ends a bare value. -/
def inBare (b : UInt8) : Bool := b ≠ 44 ∧ b ≠ 125

theorem findIdx?_not (l : Bytes) (p : UInt8 → Bool) :
    (l.findIdx? fun b => !p b) = none ∧ (∀ b ∈ l, p b = true) ∨
      (l.findIdx? fun b => !p b) = some (l.takeWhile p).length := by
  induction l with
  | nil => exact Or.inl ⟨rfl, nofun⟩
  | cons a l ih =>
    rw [List.findIdx?_cons]
    cases ha : p a with
    | false => exact Or.inr (by simp [ha])
    | true =>
      rcases ih with ⟨hnone, hall⟩ | hsome
      · refine Or.inl ⟨by simp [hnone], fun b hb => ?_⟩
        rcases List.mem_cons.mp hb with rfl | hb
        · exact ha
        · exact hall b hb
      · exact Or.inr (by simp [hsome, ha])

/-- Behind a bare value's key: the text up to the next comma or brace, or to the end. -/
theorem substr_bare {json : Bytes} {pos : Nat} (hlen : json.length ≤ npos)
    (hpos : pos ≤ json.length) :
    substr json pos
        ((((findFirstOf json (ascii ",\x7d") pos).getD npos) + 2 ^ 64 - pos) % 2 ^ 64) =
      some ((json.drop pos).takeWhile inBare) := by
  have hset : (fun b => (ascii ",\x7d").contains b) = fun b => !inBare b := by
    funext b
    show List.contains [44, 125] b = _
    unfold inBare
    rw [Bool.eq_iff_iff]
    simp only [List.contains_cons, List.contains_nil, Bool.or_false, Bool.or_eq_true, beq_iff_eq,
      Bool.not_eq_true', decide_eq_false_iff_not, not_and_or, not_not]
  refine substr_until hlen hpos ?_
  unfold findFirstOf
  rw [hset]
  rcases findIdx?_not (json.drop pos) inBare with ⟨hnone, hall⟩ | hsome
  · exact Or.inl ⟨by rw [hnone]; rfl, hall⟩
  · exact Or.inr (by rw [hsome]; rfl)

/-- **`jsonGet` on any frame, for any key**: the text behind the first `"key":"` up to a quote; or
    else the one behind the first `"key":` up to a comma or a brace; or else nothing. A
    `std::string` is no longer than `npos`. -/
theorem jsonGet_behind {json : Bytes} (hlen : json.length ≤ npos) (key : Bytes) :
    jsonGet json key = some
      (((behind (ascii "\"" ++ key ++ ascii "\":\"") json).map
        (List.takeWhile fun b => b ≠ quote)).getD
      (((behind (ascii "\"" ++ key ++ ascii "\":") json).map (List.takeWhile inBare)).getD [])) := by
  rw [← behind_findFrom, ← behind_findFrom]
  unfold jsonGet
  cases hfind : findFrom json (ascii "\"" ++ key ++ ascii "\":\"") 0 with
  | some i =>
    simp only [hfind]
    rw [substr_quote hlen (findFrom_room hfind)]
    rfl
  | none =>
    cases hfind' : findFrom json (ascii "\"" ++ key ++ ascii "\":") 0 with
    | none =>
      simp only [hfind, hfind']
      rfl
    | some i =>
      simp only [hfind, hfind']
      rw [substr_bare hlen (findFrom_room hfind')]
      rfl

/-- **`jsonGet` is a walk over the pieces**: the piece behind the key and its colon, if a quoted
    value stands there; or else what stands behind the first key with a colon, up to a comma or a
    brace. -/
theorem jsonGet_eq {json key : Bytes} (hlen : json.length ≤ npos) (hkey : quote ∉ key) :
    jsonGet json key = some ((entry key (ascii ":") (pieces json).tail).getD
      (((openEntry quote key (ascii ":") (pieces json).tail).map (List.takeWhile inBare)).getD
        [])) := by
  have hcolon : quote ∉ ascii ":" := by decide
  have hsearch : ascii "\"" ++ key ++ ascii "\":\"" =
      quote :: (key ++ quote :: (ascii ":" ++ [quote])) := by
    show [quote] ++ key ++ _ = _
    rw [List.append_assoc]
    rfl
  have hbare : ascii "\"" ++ key ++ ascii "\":" = quote :: (key ++ quote :: ascii ":") := by
    show [quote] ++ key ++ _ = _
    rw [List.append_assoc]
    rfl
  rw [jsonGet_behind hlen, hsearch, hbare, takeWhile_behind hkey hcolon, behind_open hkey hcolon]
  rfl

/-- A key that the frame has with a quoted value answers the piece behind it. -/
theorem jsonGet_of_entry {json key v : Bytes} (hlen : json.length ≤ npos) (hkey : quote ∉ key)
    (h : entry key (ascii ":") (pieces json).tail = some v) : jsonGet json key = some v := by
  rw [jsonGet_eq hlen hkey, h]
  rfl

/-! ## 3. The pieces of a message frame -/

/-- One member of a frame, behind the quote that ends the one before it. -/
def memberText (key value rest : Bytes) : Bytes :=
  ascii "," ++ quote :: (key ++ quote :: (ascii ":" ++ quote :: (value ++ quote :: rest)))

/-- Its pieces. -/
def member (key value : Bytes) : List Bytes := ascii "," :: key :: ascii ":" :: pieces value

theorem pieces_append_quote (a b : Bytes) : pieces (a ++ quote :: b) = pieces a ++ pieces b :=
  List.splitOn_append_cons_self a b

/-- A text without a quote is one piece. -/
theorem pieces_plain {a : Bytes} (h : quote ∉ a) : pieces a = [a] := List.splitOn_eq_singleton h

theorem pieces_memberText {key : Bytes} (hkey : quote ∉ key) (value rest : Bytes) :
    pieces (memberText key value rest) = member key value ++ pieces rest := by
  have hcomma : pieces (ascii ",") = [ascii ","] := pieces_plain (by decide)
  have hcolon : pieces (ascii ":") = [ascii ":"] := pieces_plain (by decide)
  unfold memberText member
  rw [pieces_append_quote, pieces_append_quote, pieces_append_quote, pieces_append_quote,
    hcomma, hcolon, pieces_plain hkey]
  rfl

theorem buildMessageJson_eq (m : ChatMessage) : buildMessageJson m =
    ascii "\x7b" ++ quote :: (ascii "type" ++ quote :: (ascii ":" ++ quote :: (ascii "message" ++
      quote :: memberText (ascii "id") m.id
        (memberText (ascii "conversationId") m.conversationId
          (memberText (ascii "senderId") m.senderId
            (memberText (ascii "recipientId") m.recipientId
              (memberText (ascii "msgType") (typeStr m.type)
                (memberText (ascii "text") m.text
                  (memberText (ascii "mediaUrl") m.mediaUrl (ascii "\x7d")))))))))) := by
  have hopen : ascii "\x7b\"type\":\"message\"," = ascii "\x7b" ++ quote :: (ascii "type" ++
      quote :: (ascii ":" ++ quote :: (ascii "message" ++ quote :: ascii ","))) := by decide
  have hnext : ascii "\"," = quote :: ascii "," := by decide
  have hclose : ascii "\"\x7d" = quote :: ascii "\x7d" := by decide
  have hid : ascii "\"id\":\"" = quote :: (ascii "id" ++ quote :: (ascii ":" ++ [quote])) := by
    decide
  have hconv : ascii "\"conversationId\":\"" =
      quote :: (ascii "conversationId" ++ quote :: (ascii ":" ++ [quote])) := by decide
  have hsender : ascii "\"senderId\":\"" =
      quote :: (ascii "senderId" ++ quote :: (ascii ":" ++ [quote])) := by decide
  have hrecipient : ascii "\"recipientId\":\"" =
      quote :: (ascii "recipientId" ++ quote :: (ascii ":" ++ [quote])) := by decide
  have htype : ascii "\"msgType\":\"" =
      quote :: (ascii "msgType" ++ quote :: (ascii ":" ++ [quote])) := by decide
  have htext : ascii "\"text\":\"" =
      quote :: (ascii "text" ++ quote :: (ascii ":" ++ [quote])) := by decide
  have hmedia : ascii "\"mediaUrl\":\"" =
      quote :: (ascii "mediaUrl" ++ quote :: (ascii ":" ++ [quote])) := by decide
  unfold buildMessageJson memberText
  rw [hopen, hnext, hclose, hid, hconv, hsender, hrecipient, htype, htext, hmedia]
  simp only [List.append_assoc, List.cons_append, List.nil_append]

/-- The pieces in front of the text: the members before it and its key. -/
def frontPieces (m : ChatMessage) : List Bytes :=
  [ascii "type", ascii ":", ascii "message"] ++ member (ascii "id") m.id ++
    member (ascii "conversationId") m.conversationId ++ member (ascii "senderId") m.senderId ++
    member (ascii "recipientId") m.recipientId ++ member (ascii "msgType") (typeStr m.type) ++
    [ascii ","]

/-- **The pieces of a message frame** behind its first quote. -/
theorem pieces_build (m : ChatMessage) : (pieces (buildMessageJson m)).tail =
    frontPieces m ++ ascii "text" :: ascii ":" :: (pieces m.text ++
      (member (ascii "mediaUrl") m.mediaUrl ++ [ascii "\x7d"])) := by
  rw [buildMessageJson_eq, pieces_append_quote, pieces_append_quote, pieces_append_quote,
    pieces_append_quote, pieces_memberText (by decide), pieces_memberText (by decide),
    pieces_memberText (by decide), pieces_memberText (by decide), pieces_memberText (by decide),
    pieces_memberText (by decide), pieces_memberText (by decide),
    show pieces (ascii "\x7b") = [ascii "\x7b"] from pieces_plain (by decide),
    show pieces (ascii "type") = [ascii "type"] from pieces_plain (by decide),
    show pieces (ascii ":") = [ascii ":"] from pieces_plain (by decide),
    show pieces (ascii "message") = [ascii "message"] from pieces_plain (by decide),
    show pieces (ascii "\x7d") = [ascii "\x7d"] from pieces_plain (by decide)]
  simp [frontPieces, member]

/-! ## 4. Reading a message frame -/

/-- What `onRawMessage` reads for a key. -/
def read (m : ChatMessage) (key : String) : Option Bytes :=
  entry (ascii key) (ascii ":") (pieces (buildMessageJson m)).tail

/-- The members of a message frame. -/
def members (m : ChatMessage) : List (Bytes × Bytes) :=
  [(ascii "type", ascii "message"), (ascii "id", m.id),
   (ascii "conversationId", m.conversationId), (ascii "senderId", m.senderId),
   (ascii "recipientId", m.recipientId), (ascii "msgType", typeStr m.type),
   (ascii "text", m.text), (ascii "mediaUrl", m.mediaUrl)]

theorem pieces_members (m : ChatMessage) : ascii "," :: (pieces (buildMessageJson m)).tail =
    ((members m).flatMap fun p => member p.1 p.2) ++ [ascii "\x7d"] := by
  have hmessage : pieces (ascii "message") = [ascii "message"] := pieces_plain (by decide)
  rw [pieces_build]
  simp [members, frontPieces, member, hmessage]

/-- A member that is there is found, at its own place or in front of it. -/
theorem entry_member {ms : List (Bytes × Bytes)} {k value : Bytes} (h : (k, value) ∈ ms)
    (rest : List Bytes) :
    ∃ v, entry k (ascii ":") ((ms.flatMap fun p => member p.1 p.2) ++ rest) = some v := by
  obtain ⟨l, l', rfl⟩ := List.append_of_mem h
  obtain ⟨u, us, hu⟩ := List.exists_cons_of_ne_nil (List.splitOn_ne_nil quote value)
  have hmember : member k value = ascii "," :: k :: ascii ":" :: u :: us := by
    unfold member pieces
    rw [hu]
  obtain ⟨w, hw⟩ := entry_exists k (ascii ":") u
    ((l.flatMap fun p => member p.1 p.2) ++ [ascii ","])
    (us ++ (l'.flatMap fun p => member p.1 p.2) ++ rest)
  refine ⟨w, ?_⟩
  rw [List.flatMap_append, List.flatMap_cons, hmember, ← hw]
  simp

/-- A piece other than the key is passed over, such as the comma in front of a member. -/
theorem entry_other {k a : Bytes} (h : k ≠ a) (l : List Bytes) :
    entry k (ascii ":") (a :: l) = entry k (ascii ":") l := by
  refine entry_cons_of_not ?_
  rintro ⟨v, rest, e⟩
  exact h (List.cons.inj e).1.symm

/-- A key of the frame is found. -/
theorem read_exists (m : ChatMessage) (key : String) {value : Bytes}
    (h : (ascii key, value) ∈ members m) (hcomma : ascii key ≠ ascii ",") :
    ∃ v, read m key = some v := by
  obtain ⟨v, hv⟩ := entry_member h [ascii "\x7d"]
  refine ⟨v, ?_⟩
  unfold read
  rw [← entry_other hcomma, pieces_members, hv]

/-- What is read holds no quote. -/
theorem read_plain {m : ChatMessage} {key : String} {v : Bytes} (h : read m key = some v) :
    quote ∉ v :=
  not_mem_of_mem_splitOn (List.mem_of_mem_tail (entry_mem h))

/-- **A frame whose members hold no quote is read back as the list of its members.** -/
theorem entry_members {ms : List (Bytes × Bytes)} {k : Bytes} (h : ∀ p ∈ ms, quote ∉ p.2)
    (hcomma : k ≠ ascii ",") (hcolon : k ≠ ascii ":") :
    entry k (ascii ":") ((ms.flatMap fun p => member p.1 p.2) ++ [ascii "\x7d"]) =
      ms.lookup k := by
  induction ms with
  | nil => rfl
  | cons p ms ih =>
    obtain ⟨key, v⟩ := p
    have hv : pieces v = [v] := pieces_plain (h _ List.mem_cons_self)
    have hrest := ih fun p hp => h p (List.mem_cons_of_mem _ hp)
    have hmember : member key v = [ascii ",", key, ascii ":", v] := by
      unfold member
      rw [hv]
    rw [List.flatMap_cons, hmember, List.lookup_cons]
    by_cases hk : k = key
    · subst hk
      rw [beq_self_eq_true]
      show entry k (ascii ":") (ascii "," :: k :: ascii ":" :: v :: _) = some v
      simp [entry, Ne.symm hcomma]
    · rw [show (k == key) = false from beq_false_of_ne hk, ← hrest]
      -- what follows begins with a comma or is the closing brace
      obtain ⟨d, l, hd, e⟩ : ∃ d l, d ≠ ascii ":" ∧
          (ms.flatMap fun p => member p.1 p.2) ++ [ascii "\x7d"] = d :: l := by
        cases ms with
        | nil => exact ⟨ascii "\x7d", [], by decide, rfl⟩
        | cons p ms => exact ⟨ascii ",", _, by decide, rfl⟩
      rw [List.append_assoc, e]
      refine entry_skip hd ?_ l
      simp [entry, Ne.symm hcomma, Ne.symm hcolon, Ne.symm hk]

/-- The type `onRawMessage` makes of the `msgType` member. -/
def readType (msgType : Bytes) : MessageType :=
  if msgType = ascii "image" then .image
  else if msgType = ascii "video" then .video
  else if msgType = ascii "like" then .like
  else .text

theorem jsonGet_read {m : ChatMessage} {key : String} {v : Bytes}
    (hlen : (buildMessageJson m).length ≤ npos) (hkey : quote ∉ ascii key)
    (h : read m key = some v) : jsonGet (buildMessageJson m) (ascii key) = some v :=
  jsonGet_of_entry hlen hkey h

theorem receive_message {s : State} {json : Bytes} {timestamp : Int}
    {id conversationId senderId text mediaUrl msgType : Bytes}
    (hframe : jsonGet json (ascii "type") = some (ascii "message"))
    (hid : jsonGet json (ascii "id") = some id)
    (hconversation : jsonGet json (ascii "conversationId") = some conversationId)
    (hsender : jsonGet json (ascii "senderId") = some senderId)
    (htext : jsonGet json (ascii "text") = some text)
    (hmedia : jsonGet json (ascii "mediaUrl") = some mediaUrl)
    (htype : jsonGet json (ascii "msgType") = some msgType) :
    receive s json timestamp = some { s with ws := .store {
      id := id
      conversationId := conversationId
      senderId := senderId
      recipientId := s.userId
      type := readType msgType
      text := text
      mediaUrl := mediaUrl
      status := .delivered
      timestamp := timestamp } } := by
  unfold receive decodeMessage
  rw [hframe, hid, hconversation, hsender, htext, hmedia, htype]
  rfl

/-- **`onRawMessage` on a message frame goes on to store the message it reads.** -/
theorem receive_build {s : State} {m : ChatMessage} {timestamp : Int}
    {id conversationId senderId text mediaUrl msgType : Bytes}
    (hlen : (buildMessageJson m).length ≤ npos)
    (hid : read m "id" = some id) (hconversation : read m "conversationId" = some conversationId)
    (hsender : read m "senderId" = some senderId) (htext : read m "text" = some text)
    (hmedia : read m "mediaUrl" = some mediaUrl) (htype : read m "msgType" = some msgType) :
    receive s (buildMessageJson m) timestamp = some { s with ws := .store {
      id := id
      conversationId := conversationId
      senderId := senderId
      recipientId := s.userId
      type := readType msgType
      text := text
      mediaUrl := mediaUrl
      status := .delivered
      timestamp := timestamp } } := by
  have hframe : jsonGet (buildMessageJson m) (ascii "type") = some (ascii "message") := by
    refine jsonGet_of_entry hlen (by decide) ?_
    rw [pieces_build]
    exact if_pos ⟨rfl, rfl⟩
  exact receive_message hframe (jsonGet_read hlen (by decide) hid)
    (jsonGet_read hlen (by decide) hconversation) (jsonGet_read hlen (by decide) hsender)
    (jsonGet_read hlen (by decide) htext) (jsonGet_read hlen (by decide) hmedia)
    (jsonGet_read hlen (by decide) htype)

/-- The message `onRawMessage` reads out of a frame and goes on to store. -/
def Decodes (s : State) (json : Bytes) (timestamp : Int) (msg : ChatMessage) : Prop :=
  receive s json timestamp = some { s with ws := .store msg }

/-- **Every message frame is decoded**, field by field to what `read` answers. -/
theorem decodes_build (s : State) (m : ChatMessage) (timestamp : Int)
    (hlen : (buildMessageJson m).length ≤ npos) :
    ∃ msg, Decodes s (buildMessageJson m) timestamp msg ∧ read m "id" = some msg.id ∧
      read m "conversationId" = some msg.conversationId ∧ read m "senderId" = some msg.senderId ∧
      read m "text" = some msg.text ∧ read m "mediaUrl" = some msg.mediaUrl ∧
      ∃ msgType, read m "msgType" = some msgType ∧ msg.type = readType msgType := by
  obtain ⟨id, hid⟩ := read_exists m "id"
    (show (_, m.id) ∈ members m by simp [members]) (by decide)
  obtain ⟨conversationId, hconversation⟩ := read_exists m "conversationId"
    (show (_, m.conversationId) ∈ members m by simp [members]) (by decide)
  obtain ⟨senderId, hsender⟩ := read_exists m "senderId"
    (show (_, m.senderId) ∈ members m by simp [members]) (by decide)
  obtain ⟨text, htext⟩ := read_exists m "text"
    (show (_, m.text) ∈ members m by simp [members]) (by decide)
  obtain ⟨mediaUrl, hmedia⟩ := read_exists m "mediaUrl"
    (show (_, m.mediaUrl) ∈ members m by simp [members]) (by decide)
  obtain ⟨msgType, htype⟩ := read_exists m "msgType"
    (show (_, typeStr m.type) ∈ members m by simp [members]) (by decide)
  exact ⟨_, receive_build hlen hid hconversation hsender htext hmedia htype, hid, hconversation,
    hsender, htext, hmedia, msgType, htype, rfl⟩

/-! ## 5. The round trip -/

/-- The fields that a frame carries are the same. -/
def SameContent (a b : ChatMessage) : Prop :=
  a.id = b.id ∧ a.conversationId = b.conversationId ∧ a.senderId = b.senderId ∧ a.text = b.text ∧
    a.mediaUrl = b.mediaUrl ∧ a.type = b.type

/-- None of the fields holds a quote. -/
def PlainFields (m : ChatMessage) : Prop :=
  quote ∉ m.id ∧ quote ∉ m.conversationId ∧ quote ∉ m.senderId ∧ quote ∉ m.text ∧
    quote ∉ m.mediaUrl

instance (m : ChatMessage) : Decidable (PlainFields m) := inferInstanceAs (Decidable (_ ∧ _))

/-- **`onRawMessage` stores exactly the message `msg`**: receiving the frame leaves the store as it
    is, and the next step of the socket thread, whatever the other threads did meanwhile, adds
    `msg` and nothing else. -/
def StoresOne (s : State) (json : Bytes) (timestamp : Int) (msg : ChatMessage) : Prop :=
  ∃ u, step s (.receive json timestamp) = some u ∧ u.messages = s.messages ∧
    ∀ v accepted, v.ws = u.ws →
      ∃ t, wsStep v accepted = some t ∧ t.messages = (storeMessage v msg).messages

/-- A store tells which message was added last. -/
theorem storeMessage_inj {s : State} {msg msg' : ChatMessage}
    (h : (storeMessage s msg).messages = (storeMessage s msg').messages) : msg = msg' := by
  have e := congrFun h msg.conversationId
  simp only [storeMessage, if_pos] at e
  split at e
  · simpa using e
  · simp at e

theorem wsStep_store {s : State} {msg : ChatMessage} (h : s.ws = .store msg) (accepted : Bool) :
    wsStep s accepted = some { (storeMessage s msg).record (.handed (deliveredJson msg.id)) with
      ws := .ack (.test (deliveredJson msg.id)) } := by
  unfold wsStep
  rw [h]

theorem storesOne_iff {s : State} {json : Bytes} {timestamp : Int} {d msg : ChatMessage}
    (hlisten : s.listening = true) (hready : s.ready ≠ .closed) (h : Decodes s json timestamp d) :
    StoresOne s json timestamp msg ↔ msg = d := by
  have hstep : step s (.receive json timestamp) = some { s with ws := .store d } := by
    unfold step
    dsimp only
    rw [if_pos ⟨hlisten, hready⟩, h]
  constructor
  · rintro ⟨u, hu, _, hstore⟩
    rw [hstep] at hu
    obtain rfl := Option.some.inj hu
    obtain ⟨t, ht, hmessages⟩ := hstore { s with ws := .store d } true rfl
    cases ht
    exact (storeMessage_inj hmessages).symm
  · rintro rfl
    exact ⟨_, hstep, rfl, fun v accepted hv => ⟨_, wsStep_store hv accepted, rfl⟩⟩

/-- The type of a message that is not a system message comes back. -/
theorem readType_typeStr {type : MessageType} (h : type ≠ .system) :
    readType (typeStr type) = type := by
  cases type with
  | system => exact absurd rfl h
  | text | image | video | like => decide

theorem typeStr_plain (type : MessageType) : quote ∉ typeStr type := by
  cases type <;> decide

/-- Without a quote in a field, every key is read back as its member. -/
theorem read_members {m : ChatMessage} (hm : PlainFields m) (hrecipient : quote ∉ m.recipientId)
    (key : String) (hcomma : ascii key ≠ ascii ",") (hcolon : ascii key ≠ ascii ":") :
    read m key = (members m).lookup (ascii key) := by
  obtain ⟨hid, hconversation, hsender, htext, hmedia⟩ := hm
  have hplain : ∀ p ∈ members m, quote ∉ p.2 := by
    have hmessage : quote ∉ ascii "message" := by decide
    have htype := typeStr_plain m.type
    simp only [members, List.forall_mem_cons]
    exact ⟨hmessage, hid, hconversation, hsender, hrecipient, htype, htext, hmedia,
      fun _ h => absurd h List.not_mem_nil⟩
  unfold read
  rw [← entry_other hcomma, pieces_members, entry_members hplain hcomma hcolon]

/-- **A message comes back as it was sent exactly when none of its fields holds a quote**, for
    every message that is no system message and whose recipient has none, at every engine that
    listens. -/
theorem roundTrip_iff {s : State} {m : ChatMessage} {timestamp : Int}
    (hlisten : s.listening = true) (hready : s.ready ≠ .closed)
    (hlen : (buildMessageJson m).length ≤ npos) (hkind : m.type ≠ .system)
    (hrecipient : quote ∉ m.recipientId) :
    (∃ msg, StoresOne s (buildMessageJson m) timestamp msg ∧ SameContent msg m) ↔
      PlainFields m := by
  obtain ⟨d, hd, hid, hconversation, hsender, htext, hmedia, msgType, htype, hreadType⟩ :=
    decodes_build s m timestamp hlen
  constructor
  · rintro ⟨msg, hstored, hsame⟩
    rw [storesOne_iff hlisten hready hd] at hstored
    subst hstored
    obtain ⟨eid, econversation, esender, etext, emedia, _⟩ := hsame
    rw [eid] at hid
    rw [econversation] at hconversation
    rw [esender] at hsender
    rw [etext] at htext
    rw [emedia] at hmedia
    exact ⟨read_plain hid, read_plain hconversation, read_plain hsender, read_plain htext,
      read_plain hmedia⟩
  · intro hm
    refine ⟨d, (storesOne_iff hlisten hready hd).mpr rfl, ?_⟩
    rw [read_members hm hrecipient "id" (by decide) (by decide)] at hid
    rw [read_members hm hrecipient "conversationId" (by decide) (by decide)] at hconversation
    rw [read_members hm hrecipient "senderId" (by decide) (by decide)] at hsender
    rw [read_members hm hrecipient "text" (by decide) (by decide)] at htext
    rw [read_members hm hrecipient "mediaUrl" (by decide) (by decide)] at hmedia
    rw [read_members hm hrecipient "msgType" (by decide) (by decide)] at htype
    refine ⟨(Option.some.inj hid).symm, (Option.some.inj hconversation).symm,
      (Option.some.inj hsender).symm, (Option.some.inj htext).symm,
      (Option.some.inj hmedia).symm, ?_⟩
    rw [hreadType, ← Option.some.inj htype, readType_typeStr hkind]

/-- An engine whose socket is open and idle. -/
def listeningState : State :=
  { State.init with userId := ascii "bob", ready := .opened, started := true }

/-- A message of ann to bob. -/
def annToBob (text mediaUrl : Bytes) : ChatMessage where
  id := ascii "msg-1"
  conversationId := ascii "c1"
  senderId := ascii "ann"
  recipientId := ascii "bob"
  type := .text
  text := text
  mediaUrl := mediaUrl
  status := .pending
  timestamp := 7

theorem roundTrip_hello : ∃ msg,
    StoresOne listeningState (buildMessageJson (annToBob (ascii "hello") [])) 0 msg ∧
      SameContent msg (annToBob (ascii "hello") []) :=
  (roundTrip_iff (by decide) (by decide) (by decide +kernel) (by decide) (by decide)).mpr
    (by decide)

/-! ## 6. What a text can forge -/

/-- Two messages agree on everything but the text. -/
def SameButText (a b : ChatMessage) : Prop :=
  a.id = b.id ∧ a.conversationId = b.conversationId ∧ a.senderId = b.senderId ∧
    a.mediaUrl = b.mediaUrl ∧ a.type = b.type

instance (a b : ChatMessage) : Decidable (SameButText a b) := inferInstanceAs (Decidable (_ ∧ _))

/-- A field in front of the text already brings a `"mediaUrl":"` key. -/
def KeyInFront (m : ChatMessage) : Prop :=
  entry (ascii "mediaUrl") (ascii ":") (frontPieces m ++ [ascii "text"]) ≠ none

/-- The url behind the `"mediaUrl":"` key that a text brings; the quotes around the text may be
    part of that key. -/
def forgedUrl (text : Bytes) : Option Bytes :=
  entry (ascii "mediaUrl") (ascii ":") (pieces text ++ [ascii ","])

/-- The url behind the text: the forged one, or else the message's own up to its first quote. -/
def carriedUrl (m : ChatMessage) (text : Bytes) : Bytes :=
  (forgedUrl text).getD (m.mediaUrl.takeWhile fun b => b ≠ quote)

/-- A key whose member stands in front of the text is read in front of it. -/
theorem read_front {m : ChatMessage} {key : String} {v : Bytes}
    (h : entry (ascii key) (ascii ":") (frontPieces m) = some v) : read m key = some v := by
  unfold read
  rw [pieces_build]
  exact entry_append h _

/-- The members in front of the text have their entries there. -/
theorem front_exists {m : ChatMessage} {key : String} {value : Bytes}
    (h : (ascii key, value) ∈ (members m).take 6) (hcomma : ascii key ≠ ascii ",") :
    ∃ v, entry (ascii key) (ascii ":") (frontPieces m) = some v := by
  obtain ⟨v, hv⟩ := entry_member h [ascii ","]
  refine ⟨v, ?_⟩
  rw [← entry_other hcomma, ← hv]
  have hmessage : pieces (ascii "message") = [ascii "message"] := pieces_plain (by decide)
  simp [members, frontPieces, member, hmessage]

/-- Such a key is read whatever the text is. -/
theorem read_text_irrelevant {m : ChatMessage} {key : String} (text value : Bytes)
    (h : (ascii key, value) ∈ (members m).take 6) (hcomma : ascii key ≠ ascii ",") :
    read { m with text := text } key = read m key := by
  obtain ⟨v, hv⟩ := front_exists h hcomma
  rw [read_front hv]
  exact read_front hv

/-- **What is read as the media url**: the one in front of the text, if there is one there, or
    else the one the text carries. -/
theorem read_mediaUrl (m : ChatMessage) : read m "mediaUrl" =
    (entry (ascii "mediaUrl") (ascii ":") (frontPieces m ++ [ascii "text"])).or
      (some (carriedUrl m m.text)) := by
  unfold read
  rw [pieces_build]
  cases hfront : entry (ascii "mediaUrl") (ascii ":") (frontPieces m ++ [ascii "text"]) with
  | some v =>
    have h := entry_append hfront (ascii ":" :: (pieces m.text ++
      (member (ascii "mediaUrl") m.mediaUrl ++ [ascii "\x7d"])))
    rw [List.append_assoc] at h
    exact h
  | none =>
    rw [entry_skip (by decide) hfront, entry_other (by decide), entry_other (by decide)]
    show _ = some (carriedUrl m m.text)
    unfold carriedUrl
    cases hforged : forgedUrl m.text with
    | some v =>
      have h := entry_append hforged (ascii "mediaUrl" :: ascii ":" :: (pieces m.mediaUrl ++
        [ascii "\x7d"]))
      rw [List.append_assoc] at h
      exact h
    | none =>
      have h := entry_skip (by decide) hforged (ascii "mediaUrl" :: ascii ":" ::
        (pieces m.mediaUrl ++ [ascii "\x7d"]))
      refine h.trans ?_
      obtain ⟨u, us, hu⟩ := List.exists_cons_of_ne_nil (List.splitOn_ne_nil quote m.mediaUrl)
      have hhead := head_splitOn quote m.mediaUrl
      rw [hu] at hhead
      rw [entry_other (by decide)]
      show entry (ascii "mediaUrl") (ascii ":") (ascii "mediaUrl" :: ascii ":" ::
        (m.mediaUrl.splitOn quote ++ [ascii "\x7d"])) = _
      rw [hu, Option.getD_none, ← Option.some.inj hhead]
      exact if_pos ⟨rfl, rfl⟩

/-- **Two messages that differ only in the text are read alike, up to the text, exactly when the
    media url is already read in front of the text or the two texts carry the same url.** All the
    other fields are read in front of the text. -/
theorem sameButText_iff (s : State) (m : ChatMessage) (text text' : Bytes) (timestamp : Int)
    (hlen : (buildMessageJson { m with text := text }).length ≤ npos)
    (hlen' : (buildMessageJson { m with text := text' }).length ≤ npos) :
    ∃ d d', Decodes s (buildMessageJson { m with text := text }) timestamp d ∧
      Decodes s (buildMessageJson { m with text := text' }) timestamp d' ∧
      (SameButText d d' ↔ KeyInFront m ∨ carriedUrl m text = carriedUrl m text') := by
  obtain ⟨d, hd, hid, hconversation, hsender, _, hmedia, msgType, htype, hkind⟩ :=
    decodes_build s { m with text := text } timestamp hlen
  obtain ⟨d', hd', hid', hconversation', hsender', _, hmedia', msgType', htype', hkind'⟩ :=
    decodes_build s { m with text := text' } timestamp hlen'
  refine ⟨d, d', hd, hd', ?_⟩
  rw [read_text_irrelevant _ m.id (by simp [members]) (by decide)] at hid hid'
  rw [read_text_irrelevant _ m.conversationId (by simp [members]) (by decide)]
    at hconversation hconversation'
  rw [read_text_irrelevant _ m.senderId (by simp [members]) (by decide)]
    at hsender hsender'
  rw [read_text_irrelevant _ (typeStr m.type) (by simp [members]) (by decide)]
    at htype htype'
  have eid : d.id = d'.id := Option.some.inj (hid.symm.trans hid')
  have econversation : d.conversationId = d'.conversationId :=
    Option.some.inj (hconversation.symm.trans hconversation')
  have esender : d.senderId = d'.senderId := Option.some.inj (hsender.symm.trans hsender')
  have ekind : d.type = d'.type := by
    rw [hkind, hkind', Option.some.inj (htype.symm.trans htype')]
  rw [read_mediaUrl] at hmedia hmedia'
  have hsame : SameButText d d' ↔ d.mediaUrl = d'.mediaUrl :=
    ⟨fun h => h.2.2.2.1, fun h => ⟨eid, econversation, esender, h, ekind⟩⟩
  rw [hsame]
  unfold KeyInFront
  have hfront : ∀ text, frontPieces { m with text := text } = frontPieces m := fun _ => rfl
  rw [hfront] at hmedia hmedia'
  cases hkey : entry (ascii "mediaUrl") (ascii ":") (frontPieces m ++ [ascii "text"]) with
  | some v =>
    rw [hkey] at hmedia hmedia'
    exact iff_of_true (Option.some.inj (hmedia.symm.trans hmedia')) (Or.inl nofun)
  | none =>
    rw [hkey] at hmedia hmedia'
    have e : carriedUrl m text = d.mediaUrl := Option.some.inj hmedia
    have e' : carriedUrl m text' = d'.mediaUrl := Option.some.inj hmedia'
    rw [e, e']
    exact ⟨Or.inr, fun h => h.resolve_left fun hne => hne rfl⟩

theorem sameButText_plain : ∃ d d',
    Decodes listeningState (buildMessageJson (annToBob (ascii "hi") (ascii "u"))) 0 d ∧
    Decodes listeningState (buildMessageJson (annToBob (ascii "say \"yo\"") (ascii "u"))) 0 d' ∧
    SameButText d d' := by
  obtain ⟨d, d', hd, hd', hiff⟩ := sameButText_iff listeningState (annToBob [] (ascii "u"))
    (ascii "hi") (ascii "say \"yo\"") 0 (by decide +kernel) (by decide +kernel)
  exact ⟨d, d', hd, hd', hiff.mpr (Or.inr (by decide))⟩

/-- A text that ends its own member and begins another one. -/
def forgingText : Bytes := ascii "hi\",\"mediaUrl\":\"http://evil"

/-- **A text forges the media url**: the two messages differ only in the text, and the second one
    is read with the url that its text brings. -/
theorem mediaUrl_forged : ∃ d d',
    Decodes listeningState (buildMessageJson (annToBob (ascii "hi") (ascii "u"))) 0 d ∧
    Decodes listeningState (buildMessageJson (annToBob forgingText (ascii "u"))) 0 d' ∧
    d.mediaUrl = ascii "u" ∧ d'.mediaUrl = ascii "http://evil" ∧ ¬ SameButText d d' := by
  obtain ⟨d, hd, _, _, _, _, hmedia, _⟩ :=
    decodes_build listeningState (annToBob (ascii "hi") (ascii "u")) 0 (by decide +kernel)
  obtain ⟨d', hd', _, _, _, _, hmedia', _⟩ :=
    decodes_build listeningState (annToBob forgingText (ascii "u")) 0 (by decide +kernel)
  have hown : read (annToBob (ascii "hi") (ascii "u")) "mediaUrl" = some (ascii "u") := by
    decide +kernel
  have hforged : read (annToBob forgingText (ascii "u")) "mediaUrl" =
      some (ascii "http://evil") := by decide +kernel
  have e : d.mediaUrl = ascii "u" := Option.some.inj (hmedia.symm.trans hown)
  have e' : d'.mediaUrl = ascii "http://evil" := Option.some.inj (hmedia'.symm.trans hforged)
  refine ⟨d, d', hd, hd', e, e', fun hsame => ?_⟩
  have hurl := hsame.2.2.2.1
  rw [e, e'] at hurl
  exact absurd hurl (by decide)

end Viral.Chat
