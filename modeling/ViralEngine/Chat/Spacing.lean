/-
  File:      ViralEngine/Chat/Spacing.lean
  Subject:   WHAT BLANKS DO TO AN INCOMING FRAME.

  `onRawMessage` reads the `type` of a frame and, by it, a few other keys; what it reads is what
  the frame's members show (FlatFrames.lean). Blanks are seen in three places only: in front of a
  colon they hide a member, behind it they let the value be read with its blanks and its quotes,
  and behind a bare value they are read with it. So two renderings of one object are treated alike
  exactly when their blanks there are, for the keys that are looked at.

  * `Reaction`, `onRawMessage` -- what is done with a frame of each type; `receive_onRawMessage`:
    the step of the engine;
  * `reaction`, `onRawMessage_render` -- by what the members show;
  * `Line.spacing`, `face_eq_iff`, `face_word_iff` -- what the blanks of a member do to its key;
  * `counting`, `shown_eq_iff` -- the member that counts for a key, and when two renderings show
    the same for it; `countAlike_distinct`: where no name is there twice;
  * `ReadAlike`, `sameReaction_iff` -- two renderings of one object;
    `sameReaction_spacedType` -- one blank behind the colon of `type`.
-/
import ViralEngine.Chat.FlatFrames

namespace Viral.Chat

open Viral.Lib

/-! ## 1. `onRawMessage` -/

/-- What `onRawMessage` does with a frame: it stores a message, passes it to `m_onMessage` and
    acknowledges it with `deliveredJson`, or it calls one of the other callbacks. -/
inductive Reaction where
  | message (msg : ChatMessage)
  | status (msgId : Bytes) (ms : MessageStatus)
  | typing (convId : Bytes) (isTyping : Bool)
  | presence (userId : Bytes) (isOnline : Bool)
  | ignored
  deriving DecidableEq, Repr

/-- The status of a `status` frame. -/
def readStatus (status : Bytes) : MessageStatus :=
  if status = ascii "delivered" then .delivered
  else if status = ascii "read" then .read
  else .sent

/-- `isTyping` and `isOnline`. -/
def readFlag (flag : Bytes) : Bool := flag = ascii "true" ∨ flag = ascii "1"

/-- **`onRawMessage`.** `timestamp` is what the field holds that the function does not write. -/
def onRawMessage (userId json : Bytes) (timestamp : Int) : Option Reaction := do
  let type ← jsonGet json (ascii "type")
  if type = ascii "message" then
    let msg ← decodeMessage userId json timestamp
    some (.message msg)
  else if type = ascii "status" then
    let msgId ← jsonGet json (ascii "msgId")
    let status ← jsonGet json (ascii "status")
    some (.status msgId (readStatus status))
  else if type = ascii "typing" then
    let convId ← jsonGet json (ascii "conversationId")
    let isTyping ← jsonGet json (ascii "isTyping")
    some (.typing convId (readFlag isTyping))
  else if type = ascii "presence" then
    let userId ← jsonGet json (ascii "userId")
    let isOnline ← jsonGet json (ascii "isOnline")
    some (.presence userId (readFlag isOnline))
  else some .ignored

/-- The message a frame is stored and acknowledged as. -/
def Reaction.stores : Reaction → Option ChatMessage
  | .message msg => some msg
  | _ => none

/-- **The engine's step on a frame** goes on to store the message of the reaction, if it has one. -/
theorem receive_onRawMessage {s : State} {json : Bytes} {timestamp : Int} {r : Reaction}
    (h : onRawMessage s.userId json timestamp = some r) :
    receive s json timestamp = some { s with ws := (r.stores.map WsPc.store).getD s.ws } := by
  unfold onRawMessage at h
  unfold receive
  obtain ⟨type, htype, h⟩ := Option.bind_eq_some_iff.mp h
  rw [htype, Option.bind_eq_bind, Option.bind_some]
  split at h
  · rename_i hm
    obtain ⟨msg, hmsg, h⟩ := Option.bind_eq_some_iff.mp h
    cases h
    rw [if_pos hm, hmsg]
    rfl
  rename_i hm
  rw [if_neg hm]
  split at h
  · obtain ⟨_, _, h⟩ := Option.bind_eq_some_iff.mp h
    obtain ⟨_, _, h⟩ := Option.bind_eq_some_iff.mp h
    cases h
    rfl
  split at h
  · obtain ⟨_, _, h⟩ := Option.bind_eq_some_iff.mp h
    obtain ⟨_, _, h⟩ := Option.bind_eq_some_iff.mp h
    cases h
    rfl
  split at h
  · obtain ⟨_, _, h⟩ := Option.bind_eq_some_iff.mp h
    obtain ⟨_, _, h⟩ := Option.bind_eq_some_iff.mp h
    cases h
    rfl
  · cases h
    rfl

/-! ## 2. By what the members show -/

/-- What the members show for a key of the engine. -/
def look (ls : List Line) (key : String) : Bytes := shown (ascii key) ls

/-- The kinds of frames that `onRawMessage` tells apart. -/
inductive Kind where
  | message | status | typing | presence | other
  deriving DecidableEq, Repr

/-- The branches of `onRawMessage`, by the type. -/
def readKind (type : Bytes) : Kind :=
  if type = ascii "message" then .message
  else if type = ascii "status" then .status
  else if type = ascii "typing" then .typing
  else if type = ascii "presence" then .presence
  else .other

/-- The reaction to a frame, by what its members show. -/
def reaction (userId : Bytes) (timestamp : Int) (ls : List Line) : Reaction :=
  match readKind (look ls "type") with
  | .message => .message {
      id := look ls "id"
      conversationId := look ls "conversationId"
      senderId := look ls "senderId"
      recipientId := userId
      type := readType (look ls "msgType")
      text := look ls "text"
      mediaUrl := look ls "mediaUrl"
      status := .delivered
      timestamp := timestamp }
  | .status => .status (look ls "msgId") (readStatus (look ls "status"))
  | .typing => .typing (look ls "conversationId") (readFlag (look ls "isTyping"))
  | .presence => .presence (look ls "userId") (readFlag (look ls "isOnline"))
  | .other => .ignored

/-- **`onRawMessage` on a flat object, however it is spaced.** -/
theorem onRawMessage_render {f : Frame} (hlen : f.render.length ≤ npos) (userId : Bytes)
    (timestamp : Int) :
    onRawMessage userId f.render timestamp = some (reaction userId timestamp f.lines) := by
  have hget : ∀ key : String, (ascii key).all isAlnum = true →
      jsonGet f.render (ascii key) = some (look f.lines key) := fun _ hk => jsonGet_render hlen hk
  unfold onRawMessage decodeMessage reaction readKind
  rw [hget "type" (by decide), hget "id" (by decide), hget "conversationId" (by decide),
    hget "senderId" (by decide), hget "text" (by decide), hget "mediaUrl" (by decide),
    hget "msgType" (by decide), hget "msgId" (by decide), hget "status" (by decide),
    hget "isTyping" (by decide), hget "userId" (by decide), hget "isOnline" (by decide)]
  simp only [Option.bind_eq_bind, Option.bind_some]
  split
  · rfl
  split
  · rfl
  split
  · rfl
  split <;> rfl

/-! ## 3. What the blanks of one member do -/

/-- How a member is spaced, as far as its key shows it: its string can be read as it is, its value
    is read with the blanks around it, or it is hidden. (Behind a string with a comma or a brace
    nothing is read any more.) -/
inductive Spacing where
  | tight
  | opened (after trail : Bytes)
  | hidden
  deriving DecidableEq, Repr

/-- Where the blanks of a member stand. -/
def Line.spacing (l : Line) : Spacing :=
  if l.before ≠ [] then .hidden
  else match l.value with
    | .str raw =>
      if l.after = [] then .tight
      else .opened l.after (if raw.all inBare = true then l.trail else [])
    | .lit _ => .opened l.after l.trail

/-- What a spacing shows of a value. -/
def Value.face (v : Value) : Spacing → Bytes
  | .tight => match v with
    | .str raw => raw.takeWhile fun b => b ≠ quote
    | .lit text => text
  | .opened after trail => (after ++ (v.text ++ trail)).takeWhile inBare
  | .hidden => []

/-- Behind a byte that ends a bare value, nothing is read. -/
theorem takeWhile_append_stop {p : UInt8 → Bool} {s : Bytes} (h : ¬ s.all p = true) (r : Bytes) :
    (s ++ r).takeWhile p = s.takeWhile p := by
  rw [List.takeWhile_append]
  refine if_neg fun hlen => h ?_
  have e := List.IsPrefix.eq_of_length (List.takeWhile_prefix p) hlen
  rw [List.all_eq_true]
  intro b hb
  rw [← e] at hb
  exact List.mem_takeWhile_imp hb

/-- **What a member shows for its name is what its spacing shows of its value.** -/
theorem Line.face_spacing (l : Line) :
    (l.tight (lastPiece l.key)).getD ((l.opened (lastPiece l.key)).getD []) =
      l.value.face l.spacing := by
  unfold Line.tight Line.opened Line.spacing
  by_cases hbefore : l.before = []
  · simp only [hbefore, true_and, ne_eq, not_true_eq_false, if_false]
    cases hv : l.value with
    | lit text => simp [Value.face]
    | str raw =>
      by_cases hafter : l.after = []
      · simp [hafter, Value.face]
      · simp only [hafter, if_false, if_true, Option.getD_none, Option.getD_some, Value.face]
        split
        · rfl
        · -- the string has a comma or a brace
          rename_i hall
          have hstop : ¬ (l.after ++ (quote :: (raw ++ [quote]))).all inBare = true := by
            intro h
            rw [List.all_append, List.all_cons, List.all_append] at h
            simp only [Bool.and_eq_true] at h
            exact hall h.2.2.1
          show (l.after ++ (quote :: (raw ++ [quote]) ++ l.trail)).takeWhile inBare =
            (l.after ++ (quote :: (raw ++ [quote]) ++ [])).takeWhile inBare
          rw [← List.append_assoc, takeWhile_append_stop hstop, List.append_nil]
  · simp [hbefore, Value.face]

/-- Blanks in front of a byte that is none are told by the text. -/
theorem blanks_inj {a a' r r' : Bytes} {b b' : UInt8} (ha : a.all Json.isBlank = true)
    (ha' : a'.all Json.isBlank = true) (hb : ¬ Json.isBlank b = true)
    (hb' : ¬ Json.isBlank b' = true) (h : a ++ b :: r = a' ++ b' :: r') :
    a = a' ∧ b :: r = b' :: r' := by
  have hfront : ∀ {a r : Bytes} {b : UInt8}, a.all Json.isBlank = true →
      ¬ Json.isBlank b = true → (a ++ b :: r).takeWhile Json.isBlank = a := by
    intro a r b ha hb
    rw [List.takeWhile_append_of_pos (List.all_eq_true.mp ha), List.takeWhile_cons_of_neg hb,
      List.append_nil]
  have e : a = a' := by
    rw [← hfront (r := r) ha hb, h, hfront ha' hb']
  subst e
  exact ⟨rfl, List.append_cancel_left h⟩

theorem blank_inBare {t : Bytes} (h : t.all Json.isBlank = true) : ∀ b ∈ t, inBare b = true := by
  intro b hb
  have hblank := List.all_eq_true.mp h b hb
  unfold inBare
  refine decide_eq_true ⟨?_, ?_⟩ <;> rintro rfl <;> exact absurd hblank (by decide)

theorem bare_inBare {t : Bytes} (h : t.all isBare = true) : ∀ b ∈ t, inBare b = true := by
  intro b hb
  have hbare := List.all_eq_true.mp h b hb
  unfold inBare
  refine decide_eq_true ⟨?_, ?_⟩ <;> rintro rfl <;> exact absurd hbare (by decide)

/-- What an opened string shows: its blanks, its quote, and so on up to a comma or a brace. -/
theorem face_opened_str {a t raw : Bytes} (ha : a.all Json.isBlank = true) :
    (Value.str raw).face (.opened a t) =
      a ++ quote :: (raw ++ quote :: t).takeWhile inBare := by
  show (a ++ (quote :: (raw ++ [quote]) ++ t)).takeWhile inBare = _
  rw [List.takeWhile_append_of_pos (blank_inBare ha), List.cons_append,
    List.takeWhile_cons_of_pos (by decide), List.append_assoc]
  rfl

theorem face_opened_lit {a t text : Bytes} (ha : a.all Json.isBlank = true)
    (htext : text.all isBare = true) (ht : t.all Json.isBlank = true) :
    (Value.lit text).face (.opened a t) = a ++ (text ++ t) := by
  show (a ++ (text ++ t)).takeWhile inBare = _
  rw [List.takeWhile_append_of_pos (blank_inBare ha),
    List.takeWhile_append_of_pos (bare_inBare htext),
    List.takeWhile_eq_self_iff.mpr (blank_inBare ht)]

/-- The spacings a string may have. -/
theorem Line.spacing_str {l : Line} {raw : Bytes} (hv : l.value = .str raw) :
    l.spacing = .tight ∨ l.spacing = .hidden ∨ ∃ a t, l.spacing = .opened a t ∧
      a.all Json.isBlank = true ∧ t.all Json.isBlank = true ∧
      (raw.all inBare = true ∨ t = []) := by
  obtain ⟨_, _, hafter, htrail⟩ := l.blanks
  unfold Line.spacing
  split
  · exact Or.inr (Or.inl rfl)
  rw [hv]
  dsimp only
  split
  · exact Or.inl rfl
  · refine Or.inr (Or.inr ⟨_, _, rfl, hafter, ?_⟩)
    split
    · rename_i hall
      exact ⟨htrail, Or.inl hall⟩
    · exact ⟨rfl, Or.inr rfl⟩

/-- The spacings a bare value may have. -/
theorem Line.spacing_lit {l : Line} {text : Bytes} (hv : l.value = .lit text) :
    l.spacing = .hidden ∨ ∃ a t, l.spacing = .opened a t ∧
      a.all Json.isBlank = true ∧ t.all Json.isBlank = true := by
  obtain ⟨_, _, hafter, htrail⟩ := l.blanks
  unfold Line.spacing
  split
  · exact Or.inl rfl
  rw [hv]
  exact Or.inr ⟨_, _, rfl, hafter, htrail⟩

/-- An empty string, read as it is or hidden: nothing is shown either way. -/
def Blank (v : Value) (p : Spacing) : Prop := v = .str [] ∧ (p = .tight ∨ p = .hidden)

theorem bare_not_blank {b : UInt8} (h : isBare b = true) : ¬ Json.isBlank b = true := by
  intro hb
  have hb : b = 32 ∨ b = 9 ∨ b = 10 ∨ b = 13 := of_decide_eq_true hb
  rcases hb with rfl | rfl | rfl | rfl <;> exact absurd h (by decide)

/-- A string does not begin with a quote. -/
theorem written_front {raw : Bytes} (h : isWritten raw = true)
    (hfront : (raw.takeWhile fun b => b ≠ quote) = []) : raw = [] := by
  cases raw with
  | nil => rfl
  | cons b rest =>
    by_cases hb : b = quote
    · subst hb
      cases rest <;> exact absurd h (by simp [isWritten, Json.backslash, quote])
    · simp [hb] at hfront

/-- A string that is read as it is has no quote, one that is opened has. -/
theorem front_ne_opened (raw a : Bytes) (rest : Bytes) :
    (raw.takeWhile fun b => b ≠ quote) ≠ a ++ quote :: rest := by
  intro h
  have hmem : quote ∈ raw.takeWhile fun b => b ≠ quote :=
    h ▸ List.mem_append_right a List.mem_cons_self
  have := List.mem_takeWhile_imp hmem
  simp at this

/-- Behind a string without comma and brace, its blanks are read. -/
theorem trail_inj {raw t t' : Bytes} (ht : t.all Json.isBlank = true)
    (ht' : t'.all Json.isBlank = true) (htrail : raw.all inBare = true ∨ t = [])
    (htrail' : raw.all inBare = true ∨ t' = [])
    (h : (raw ++ quote :: t).takeWhile inBare = (raw ++ quote :: t').takeWhile inBare) :
    t = t' := by
  have hread : ∀ {t : Bytes}, raw.all inBare = true → t.all Json.isBlank = true →
      (raw ++ quote :: t).takeWhile inBare = raw ++ quote :: t := by
    intro t hall ht
    rw [List.takeWhile_append_of_pos (List.all_eq_true.mp hall),
      List.takeWhile_cons_of_pos (by decide), List.takeWhile_eq_self_iff.mpr (blank_inBare ht)]
  by_cases hall : raw.all inBare = true
  · rw [hread hall ht, hread hall ht'] at h
    exact (List.cons.inj (List.append_cancel_left h)).2
  · rw [htrail.resolve_left hall, htrail'.resolve_left hall]

section Face

variable {l l' : Line}

theorem spacing_of_face_lit {text : Bytes} (hv : l.value = .lit text) (hv' : l'.value = .lit text)
    (h : (Value.lit text).face l.spacing = (Value.lit text).face l'.spacing) :
    l.spacing = l'.spacing := by
  have hok := l.written.2
  rw [hv] at hok
  obtain ⟨hne, hbare⟩ := ok_lit.mp hok
  obtain ⟨b, text, rfl⟩ := List.exists_cons_of_ne_nil hne
  have hb : ¬ Json.isBlank b = true :=
    bare_not_blank (List.all_eq_true.mp hbare b List.mem_cons_self)
  rcases l.spacing_lit hv with hs | ⟨a, t, hs, ha, ht⟩ <;>
    rcases l'.spacing_lit hv' with hs' | ⟨a', t', hs', ha', ht'⟩ <;>
    rw [hs, hs'] at h ⊢
  · rw [face_opened_lit ha' hbare ht'] at h
    exact absurd h (by simp [Value.face])
  · rw [face_opened_lit ha hbare ht] at h
    exact absurd h (by simp [Value.face])
  · rw [face_opened_lit ha hbare ht, face_opened_lit ha' hbare ht'] at h
    obtain ⟨rfl, e⟩ := blanks_inj ha ha' hb hb h
    rw [List.append_cancel_left (List.cons.inj e).2]

theorem spacing_of_face_str {raw : Bytes} (hv : l.value = .str raw) (hv' : l'.value = .str raw)
    (h : (Value.str raw).face l.spacing = (Value.str raw).face l'.spacing) :
    l.spacing = l'.spacing ∨ (Blank (.str raw) l.spacing ∧ Blank (.str raw) l'.spacing) := by
  have hok := l.written.2
  rw [hv] at hok
  have hquote : ¬ Json.isBlank quote = true := by decide
  have hempty : (raw.takeWhile fun b => b ≠ quote) = [] → Value.str raw = .str [] := fun h =>
    congrArg Value.str (written_front hok h)
  rcases l.spacing_str hv with hs | hs | ⟨a, t, hs, ha, ht, htrail⟩ <;>
    rcases l'.spacing_str hv' with hs' | hs' | ⟨a', t', hs', ha', ht', htrail'⟩ <;>
    rw [hs, hs'] at h ⊢
  · exact Or.inl rfl
  · exact Or.inr ⟨⟨hempty h, Or.inl rfl⟩, hempty h, Or.inr rfl⟩
  · rw [face_opened_str ha'] at h
    exact absurd h (front_ne_opened raw a' _)
  · exact Or.inr ⟨⟨hempty h.symm, Or.inr rfl⟩, hempty h.symm, Or.inl rfl⟩
  · exact Or.inl rfl
  · rw [face_opened_str ha'] at h
    exact absurd h (by simp [Value.face])
  · rw [face_opened_str ha] at h
    exact absurd h.symm (front_ne_opened raw a _)
  · rw [face_opened_str ha] at h
    exact absurd h (by simp [Value.face])
  · rw [face_opened_str ha, face_opened_str ha'] at h
    obtain ⟨rfl, e⟩ := blanks_inj ha ha' hquote hquote h
    rw [trail_inj ht ht' htrail htrail' (List.cons.inj e).2]
    exact Or.inl rfl

/-- **Two spacings of a member show the same exactly when they are the same**, or the member is an
    empty string that both read as it is or hide. -/
theorem face_eq_iff (hv : l.value = l'.value) :
    l.value.face l.spacing = l'.value.face l'.spacing ↔
      l.spacing = l'.spacing ∨ (Blank l.value l.spacing ∧ Blank l'.value l'.spacing) := by
  constructor
  · intro h
    cases hval : l.value with
    | lit text =>
      have hval' := hv ▸ hval
      rw [hval, hval'] at h
      exact Or.inl (spacing_of_face_lit hval hval' h)
    | str raw =>
      have hval' := hv ▸ hval
      rw [hval, hval'] at h
      rw [hval']
      exact spacing_of_face_str hval hval' h
  · rintro (h | ⟨⟨hval, hs⟩, ⟨hval', hs'⟩⟩)
    · rw [h, hv]
    · rw [hval, hval']
      rcases hs with hs | hs <;> rcases hs' with hs' | hs' <;> rw [hs, hs'] <;> rfl

/-- A member that is not hidden shows nothing exactly if it is an empty string read as it is. -/
theorem face_eq_nil_iff (hne : l.spacing ≠ .hidden) :
    l.value.face l.spacing = [] ↔ l.value = .str [] ∧ l.spacing = .tight := by
  constructor
  · intro h
    have hok := l.written.2
    cases hv : l.value with
    | lit text =>
      rw [hv] at h hok
      obtain ⟨htext, hbare⟩ := ok_lit.mp hok
      rcases l.spacing_lit hv with hs | ⟨a, t, hs, ha, ht⟩
      · exact absurd hs hne
      · rw [hs, face_opened_lit ha hbare ht, List.append_eq_nil_iff, List.append_eq_nil_iff] at h
        exact absurd h.2.1 htext
    | str raw =>
      rw [hv] at h hok
      rcases l.spacing_str hv with hs | hs | ⟨a, t, hs, ha, -, -⟩
      · rw [hs] at h ⊢
        exact ⟨congrArg Value.str (written_front hok h), rfl⟩
      · exact absurd hs hne
      · rw [hs, face_opened_str ha] at h
        exact absurd h (by simp)
  · rintro ⟨hv, hs⟩
    rw [hv, hs]
    rfl

/-- The member is the word: a string read as it is, or a bare text without blanks around it. -/
def Line.isWord (w : Bytes) (l : Line) : Bool :=
  match l.value with
  | .str raw => l.spacing == .tight && (raw.takeWhile fun b => b ≠ quote) == w
  | .lit text => l.spacing == .opened [] [] && text == w

theorem blank_word {a : Bytes} (ha : a.all Json.isBlank = true) (hw : a.all isAlnum = true) :
    a = [] := by
  cases a with
  | nil => rfl
  | cons b a =>
    have hb := List.all_eq_true.mp ha b List.mem_cons_self
    have hb' := List.all_eq_true.mp hw b List.mem_cons_self
    exact absurd hb (bare_not_blank (by simp [isBare, hb']))

/-- **A member shows a word exactly if it is that word.** -/
theorem face_word_iff {w : Bytes} (hw : w.all isAlnum = true) (hne : w ≠ []) :
    l.value.face l.spacing = w ↔ l.isWord w = true := by
  have hok := l.written.2
  unfold Line.isWord
  cases hv : l.value with
  | lit text =>
    rw [hv] at hok
    obtain ⟨-, hbare⟩ := ok_lit.mp hok
    simp only [Bool.and_eq_true, beq_iff_eq]
    rcases l.spacing_lit hv with hs | ⟨a, t, hs, ha, ht⟩
    · rw [hs]
      exact ⟨fun h => absurd h.symm hne, fun h => nomatch h.1⟩
    · rw [hs, face_opened_lit ha hbare ht]
      constructor
      · rintro rfl
        simp only [List.all_append, Bool.and_eq_true] at hw
        rw [blank_word ha hw.1, blank_word ht hw.2.2]
        exact ⟨rfl, by simp⟩
      · rintro ⟨hs, rfl⟩
        obtain ⟨rfl, rfl⟩ := Spacing.opened.inj hs
        simp
  | str raw =>
    simp only [Bool.and_eq_true, beq_iff_eq]
    rcases l.spacing_str hv with hs | hs | ⟨a, t, hs, ha, -, -⟩
    · rw [hs]
      exact ⟨fun h => ⟨rfl, h⟩, fun h => h.2⟩
    · rw [hs]
      exact ⟨fun h => absurd h.symm hne, fun h => nomatch h.1⟩
    · rw [hs, face_opened_str ha]
      refine ⟨?_, fun h => nomatch h.1⟩
      rintro rfl
      simp only [List.all_append, List.all_cons, Bool.and_eq_true] at hw
      exact absurd hw.2.1 (by decide)

end Face

/-! ## 4. Which member counts -/

/-- The member that counts for a key, with its place: of those of that name the first one that can
    be read as it is, or else the first one that is not hidden. -/
def counting (k : Bytes) (ls : List Line) : Option (Line × Nat) :=
  (ls.zipIdx.find? fun x => lastPiece x.1.key == k && x.1.spacing == .tight).or
    (ls.zipIdx.find? fun x => lastPiece x.1.key == k && x.1.spacing != .hidden)

section Counting

variable {k : Bytes} {ls ls' : List Line} {l l' : Line} {i j : Nat}

theorem findSome?_eq_find? {α β : Type} {f : α → Option β} {p : α → Bool} {g : α → β} {l : List α}
    (h : ∀ x ∈ l, f x = if p x then some (g x) else none) : l.findSome? f = (l.find? p).map g := by
  induction l with
  | nil => rfl
  | cons x l ih =>
    obtain ⟨hx, hl⟩ := List.forall_mem_cons.mp h
    rw [List.findSome?_cons, List.find?_cons, hx]
    cases p x
    · exact ih hl
    · rfl

theorem find?_zipIdx {α : Type} (p : α → Bool) (l : List α) :
    (l.zipIdx.find? fun x => p x.1).map Prod.fst = l.find? p := by
  have h : (l.zipIdx.map Prod.fst).find? p =
      (l.zipIdx.find? (p ∘ Prod.fst)).map Prod.fst := List.find?_map
  rw [List.zipIdx_map_fst] at h
  exact h.symm

theorem Line.tight_eq (k : Bytes) (l : Line) : l.tight k =
    if lastPiece l.key == k && l.spacing == .tight then some (l.value.face l.spacing)
    else none := by
  unfold Line.tight Line.spacing
  by_cases hkey : lastPiece l.key = k <;> by_cases hbefore : l.before = [] <;>
    by_cases hafter : l.after = [] <;> cases hv : l.value <;>
    simp [hkey, hbefore, hafter, Value.face]

theorem Line.opened_eq (k : Bytes) (l : Line) (h : lastPiece l.key = k → l.spacing ≠ .tight) :
    l.opened k = if lastPiece l.key == k && l.spacing != .hidden then
      some (l.value.face l.spacing) else none := by
  by_cases hkey : lastPiece l.key = k
  · have hface := l.face_spacing
    have htight : l.tight k = none := by
      rw [Line.tight_eq, if_neg]
      simp [h hkey]
    rw [hkey, htight, Option.getD_none] at hface
    by_cases hbefore : l.before = []
    · have hopen : l.opened k = some ((l.after ++ (l.value.text ++ l.trail)).takeWhile inBare) :=
        if_pos ⟨hkey, hbefore⟩
      have hnot : l.spacing ≠ .hidden := by
        unfold Line.spacing
        rw [if_neg (not_not.mpr hbefore)]
        split
        · split <;> exact nofun
        · exact nofun
      rw [hopen, Option.getD_some] at hface
      rw [hopen, hface, if_pos]
      simp [hkey, hnot]
    · have hhidden : l.spacing = .hidden := if_pos hbefore
      rw [hhidden]
      simp [Line.opened, hbefore]
  · rw [(Line.silent hkey).2, if_neg]
    simp [hkey]

/-- **What an object shows for a key** is what the member that counts shows. -/
theorem shown_counting (k : Bytes) (ls : List Line) :
    shown k ls = ((counting k ls).map fun x => x.1.value.face x.1.spacing).getD [] := by
  have htight := findSome?_eq_find? (l := ls) fun l _ => l.tight_eq k
  unfold shown counting
  rw [htight, ← find?_zipIdx (fun l : Line => lastPiece l.key == k && l.spacing == .tight) ls]
  cases hfound : ls.zipIdx.find? fun x => lastPiece x.1.key == k && x.1.spacing == .tight with
  | some x => rfl
  | none =>
    have hnone : ∀ l ∈ ls, lastPiece l.key = k → l.spacing ≠ .tight := by
      intro l hl hkey hs
      obtain ⟨i, hi⟩ := List.getElem?_of_mem hl
      have := List.find?_eq_none.mp hfound (l, i) (List.mem_zipIdx_iff_getElem?.mpr hi)
      exact this (by simp [hkey, hs])
    rw [findSome?_eq_find? (l := ls) fun l hl => l.opened_eq k (hnone l hl),
      ← find?_zipIdx (fun l : Line => lastPiece l.key == k && l.spacing != .hidden) ls]
    cases ls.zipIdx.find? fun x => lastPiece x.1.key == k && x.1.spacing != .hidden <;> rfl

theorem counting_some (h : counting k ls = some (l, i)) : ls[i]? = some l ∧ l.spacing ≠ .hidden := by
  rcases Option.or_eq_some_iff.mp h with h | ⟨-, h⟩
  · obtain ⟨hp, hmem⟩ := And.intro (List.find?_some h) (List.mem_of_find?_eq_some h)
    simp only [Bool.and_eq_true, beq_iff_eq] at hp
    refine ⟨List.mem_zipIdx_iff_getElem?.mp hmem, ?_⟩
    rw [hp.2]
    exact nofun
  · obtain ⟨hp, hmem⟩ := And.intro (List.find?_some h) (List.mem_of_find?_eq_some h)
    simp only [Bool.and_eq_true, bne_iff_ne, ne_eq] at hp
    exact ⟨List.mem_zipIdx_iff_getElem?.mp hmem, hp.2⟩

/-- Alike, for the members that count: one member with the same blanks behind its colon, where they
    are read; two members of one name that read alike; or an empty string beside nothing. -/
def CountAlike : Option (Line × Nat) → Option (Line × Nat) → Prop
  | some (l, i), some (l', j) =>
    (i = j → l.spacing = l'.spacing) ∧
      (i ≠ j → l.value.face l.spacing = l'.value.face l'.spacing)
  | some (l, _), none | none, some (l, _) => l.value = .str [] ∧ l.spacing = .tight
  | none, none => True

instance : ∀ c c', Decidable (CountAlike c c')
  | some (_, _), some (_, _) => inferInstanceAs (Decidable (_ ∧ _))
  | some (_, _), none | none, some (_, _) => inferInstanceAs (Decidable (_ ∧ _))
  | none, none => inferInstanceAs (Decidable True)

/-- Each name has one member. -/
def Distinct (ls : List Line) : Prop := (ls.map fun l => lastPiece l.key).Nodup

instance (ls : List Line) : Decidable (Distinct ls) := inferInstanceAs (Decidable (List.Nodup _))

/-- Spaced alike, or an empty string that is shown in neither. -/
def Line.Alike (l l' : Line) : Prop :=
  l.spacing = l'.spacing ∨ Blank l.value l.spacing ∧ Blank l'.value l'.spacing

/-- **Two renderings of one object show the same for a key exactly if the members that count for it
    are alike.** -/
theorem shown_eq_iff (hsame : ls.map Line.member = ls'.map Line.member) :
    shown k ls = shown k ls' ↔ CountAlike (counting k ls) (counting k ls') := by
  rw [shown_counting, shown_counting]
  cases hc : counting k ls with
  | none =>
    cases hc' : counting k ls' with
    | none => exact ⟨fun _ => trivial, fun _ => rfl⟩
    | some x' =>
      obtain ⟨-, hne⟩ := counting_some hc'
      exact eq_comm.trans (face_eq_nil_iff hne)
  | some x =>
    obtain ⟨hi, hne⟩ := counting_some hc
    cases hc' : counting k ls' with
    | none => exact face_eq_nil_iff hne
    | some x' =>
      obtain ⟨hi', hne'⟩ := counting_some hc'
      show x.1.value.face x.1.spacing = x'.1.value.face x'.1.spacing ↔ _ ∧ _
      by_cases hij : x.2 = x'.2
      · -- one member of the object
        have hv : x.1.value = x'.1.value := by
          have h := congrArg (fun ms => ms[x.2]?) hsame
          rw [List.getElem?_map, List.getElem?_map, hi, hij, hi'] at h
          exact (Prod.mk.inj (Option.some.inj h)).2
        rw [face_eq_iff hv]
        simp only [hij, forall_const, ne_eq, not_true_eq_false, false_imp_iff, and_true]
        refine or_iff_left_of_imp fun ⟨hb, hb'⟩ => ?_
        rw [hb.2.resolve_right hne, hb'.2.resolve_right hne']
      · simp [hij]

/-- A name has one place. -/
theorem Distinct.place (h : Distinct ls) (hi : ls[i]? = some l) (hj : ls[j]? = some l')
    (hname : lastPiece l.key = lastPiece l'.key) : i = j := by
  have hlt : i < (ls.map fun l => lastPiece l.key).length := by
    rw [List.length_map]
    exact (List.getElem?_eq_some_iff.mp hi).1
  refine (List.getElem?_inj hlt h).mp ?_
  rw [List.getElem?_map, List.getElem?_map, hi, hj, Option.map_some, Option.map_some, hname]

/-- The member of a name is found by it. -/
theorem find?_distinct (hdistinct : Distinct ls) (hi : ls[i]? = some l) (hk : lastPiece l.key = k)
    (p : Spacing → Bool) : (ls.zipIdx.find? fun x => lastPiece x.1.key == k && p x.1.spacing) =
      if p l.spacing = true then some (l, i) else none := by
  have honly : ∀ x ∈ ls.zipIdx, lastPiece x.1.key = k → x = (l, i) := by
    intro x hx hkey
    have hxi := List.mem_zipIdx_iff_getElem?.mp hx
    have hij : x.2 = i := hdistinct.place hxi hi (hkey.trans hk.symm)
    refine Prod.ext ?_ hij
    rw [hij, hi] at hxi
    exact (Option.some.inj hxi).symm
  split
  case isTrue hp =>
    have hmem : (l, i) ∈ ls.zipIdx := List.mem_zipIdx_iff_getElem?.mpr hi
    cases hfound : ls.zipIdx.find? fun x => lastPiece x.1.key == k && p x.1.spacing with
    | none => exact absurd (List.find?_eq_none.mp hfound _ hmem) (by simp [hk, hp])
    | some x =>
      have hx := List.find?_some hfound
      simp only [Bool.and_eq_true, beq_iff_eq] at hx
      rw [honly x (List.mem_of_find?_eq_some hfound) hx.1]
  case isFalse hp =>
    refine List.find?_eq_none.mpr fun x hx => ?_
    simp only [Bool.and_eq_true, beq_iff_eq, not_and]
    intro hkey
    rw [honly x hx hkey]
    exact hp

theorem counting_distinct (hdistinct : Distinct ls) (hi : ls[i]? = some l)
    (hk : lastPiece l.key = k) :
    counting k ls = if l.spacing = .hidden then none else some (l, i) := by
  unfold counting
  rw [find?_distinct hdistinct hi hk (· == .tight), find?_distinct hdistinct hi hk (· != .hidden)]
  cases l.spacing <;> rfl

/-- What an object shows for a name is what its one member shows. -/
theorem shown_distinct (hdistinct : Distinct ls) (hi : ls[i]? = some l)
    (hk : lastPiece l.key = k) : shown k ls = l.value.face l.spacing := by
  rw [shown_counting, counting_distinct hdistinct hi hk]
  split
  case isTrue hhidden =>
    rw [hhidden]
    rfl
  case isFalse => rfl

theorem shown_nothing (h : k ∉ ls.map fun l => lastPiece l.key) : shown k ls = [] := by
  have hnone : ∀ p : Spacing → Bool,
      (ls.zipIdx.find? fun x => lastPiece x.1.key == k && p x.1.spacing) = none := by
    refine fun p => List.find?_eq_none.mpr fun x hx => ?_
    have hne : lastPiece x.1.key ≠ k := fun hk =>
      h (List.mem_map.mpr ⟨x.1, List.fst_mem_of_mem_zipIdx hx, hk⟩)
    simp [hne]
  rw [shown_counting, counting, hnone (· == .tight), hnone (· != .hidden)]
  rfl

/-- **Where each name has one member**, two renderings show the same for a key exactly if its member
    is spaced alike in both. -/
theorem countAlike_distinct (hsame : ls.map Line.member = ls'.map Line.member)
    (hdistinct : Distinct ls) :
    CountAlike (counting k ls) (counting k ls') ↔
      ∀ x ∈ ls.zip ls', lastPiece x.1.key = k → x.1.Alike x.2 := by
  have hnames : ls.map (fun l => lastPiece l.key) = ls'.map fun l => lastPiece l.key := by
    have h := congrArg (List.map fun m : Bytes × Value => lastPiece m.1) hsame
    rw [List.map_map, List.map_map] at h
    exact h
  have hdistinct' : Distinct ls' := by
    unfold Distinct at hdistinct ⊢
    rwa [← hnames]
  have hat : ∀ x ∈ ls.zip ls', lastPiece x.1.key = k →
      (CountAlike (counting k ls) (counting k ls') ↔ x.1.Alike x.2) := by
    intro x hx hk
    obtain ⟨i, hi⟩ := List.getElem?_of_mem hx
    obtain ⟨hi, hi'⟩ := List.getElem?_zip_eq_some.mp hi
    have hmember : x.1.member = x.2.member := by
      have h := congrArg (fun ms => ms[i]?) hsame
      rw [List.getElem?_map, List.getElem?_map, hi, hi'] at h
      exact Option.some.inj h
    have hk' : lastPiece x.2.key = k := (congrArg (fun m => lastPiece m.1) hmember).symm.trans hk
    rw [← shown_eq_iff hsame, shown_distinct hdistinct hi hk, shown_distinct hdistinct' hi' hk']
    exact face_eq_iff (congrArg Prod.snd hmember)
  by_cases hex : ∃ x ∈ ls.zip ls', lastPiece x.1.key = k
  · obtain ⟨x, hx, hk⟩ := hex
    exact ⟨fun h y hy hky => (hat y hy hky).mp h, fun h => (hat x hx hk).mpr (h x hx hk)⟩
  · have hnone : ∀ x ∈ ls.zip ls', lastPiece x.1.key ≠ k := fun x hx hk => hex ⟨x, hx, hk⟩
    refine ⟨fun _ x hx hk => absurd hk (hnone x hx), fun _ => ?_⟩
    have hlen : ls.length = ls'.length := by simpa using congrArg List.length hsame
    have hnot : k ∉ ls.map fun l => lastPiece l.key := by
      intro hmem
      obtain ⟨l, hl, hk⟩ := List.mem_map.mp hmem
      rw [← List.map_fst_zip hlen.le] at hl
      obtain ⟨x, hx, rfl⟩ := List.mem_map.mp hl
      exact hnone x hx hk
    rw [← shown_eq_iff hsame, shown_nothing hnot, shown_nothing (hnames ▸ hnot)]

end Counting

/-- The member that counts for the key is the word. -/
def isWord (ls : List Line) (key word : String) : Bool :=
  (counting (ascii key) ls).any fun x => x.1.isWord (ascii word)

theorem look_word_iff (ls : List Line) (key word : String)
    (hw : (ascii word).all isAlnum = true) (hne : ascii word ≠ []) :
    look ls key = ascii word ↔ isWord ls key word = true := by
  unfold look isWord
  rw [shown_counting]
  cases counting (ascii key) ls with
  | none => exact ⟨fun h => absurd h.symm hne, fun h => nomatch h⟩
  | some x => exact face_word_iff hw hne

/-! ## 5. Two renderings of one object -/

/-- Two renderings of one object: they differ in their blanks alone. -/
structure Respaced where
  first : Frame
  second : Frame
  same : first.members = second.members

/-- The kind of a frame, by the word its `type` is. -/
def kindOf (ls : List Line) : Kind :=
  if isWord ls "type" "message" then .message
  else if isWord ls "type" "status" then .status
  else if isWord ls "type" "typing" then .typing
  else if isWord ls "type" "presence" then .presence
  else .other

/-- A flag is set by one of two words. -/
def flagSet (ls : List Line) (key : String) : Bool := isWord ls key "true" || isWord ls key "1"

/-- The members that count for a key that is passed on are alike. -/
def SpacedAlike (ls ls' : List Line) (key : String) : Prop :=
  CountAlike (counting (ascii key) ls) (counting (ascii key) ls')

/-- A key that is compared with words is the same of them, or none. -/
def SameWord (ls ls' : List Line) (key : String) (words : List String) : Prop :=
  ∀ word ∈ words, isWord ls key word = isWord ls' key word

instance (ls ls' : List Line) (key : String) : Decidable (SpacedAlike ls ls' key) :=
  inferInstanceAs (Decidable (CountAlike _ _))

instance (ls ls' : List Line) (key : String) (words : List String) :
    Decidable (SameWord ls ls' key words) := inferInstanceAs (Decidable (∀ _ ∈ _, _))

/-- Alike, for a frame of the kind: the keys that are passed on, and those that are compared. -/
def AlikeAs (ls ls' : List Line) : Kind → Prop
  | .message =>
    (∀ key ∈ ["id", "conversationId", "senderId", "text", "mediaUrl"], SpacedAlike ls ls' key) ∧
      SameWord ls ls' "msgType" ["image", "video", "like"]
  | .status => SpacedAlike ls ls' "msgId" ∧ SameWord ls ls' "status" ["delivered", "read"]
  | .typing => SpacedAlike ls ls' "conversationId" ∧ flagSet ls "isTyping" = flagSet ls' "isTyping"
  | .presence => SpacedAlike ls ls' "userId" ∧ flagSet ls "isOnline" = flagSet ls' "isOnline"
  | .other => True

instance (ls ls' : List Line) : ∀ kind, Decidable (AlikeAs ls ls' kind)
  | .message | .status | .typing | .presence => inferInstanceAs (Decidable (_ ∧ _))
  | .other => inferInstanceAs (Decidable True)

/-- **The blanks leave alike what `onRawMessage` looks at**: the word that is the type, and by it
    what it goes on to look at. -/
def ReadAlike (ls ls' : List Line) : Prop :=
  kindOf ls = kindOf ls' ∧ AlikeAs ls ls' (kindOf ls)

instance (ls ls' : List Line) : Decidable (ReadAlike ls ls') :=
  inferInstanceAs (Decidable (_ ∧ _))

section Alike

variable {ls ls' : List Line}

theorem readKind_look (ls : List Line) : readKind (look ls "type") = kindOf ls := by
  unfold readKind kindOf
  simp only [look_word_iff ls "type" "message" (by decide) (by decide),
    look_word_iff ls "type" "status" (by decide) (by decide),
    look_word_iff ls "type" "typing" (by decide) (by decide),
    look_word_iff ls "type" "presence" (by decide) (by decide)]

theorem readFlag_look (ls : List Line) (key : String) :
    readFlag (look ls key) = flagSet ls key := by
  unfold readFlag flagSet
  rw [Bool.eq_iff_iff, decide_eq_true_iff, Bool.or_eq_true,
    look_word_iff ls key "true" (by decide) (by decide),
    look_word_iff ls key "1" (by decide) (by decide)]

theorem readStatus_eq_iff (x y : Bytes) : readStatus x = readStatus y ↔
    (x = ascii "delivered" ↔ y = ascii "delivered") ∧ (x = ascii "read" ↔ y = ascii "read") := by
  have hne : ascii "delivered" ≠ ascii "read" := by decide
  unfold readStatus
  split_ifs <;> simp_all

theorem readType_eq_iff (x y : Bytes) : readType x = readType y ↔
    (x = ascii "image" ↔ y = ascii "image") ∧ (x = ascii "video" ↔ y = ascii "video") ∧
      (x = ascii "like" ↔ y = ascii "like") := by
  have h1 : ascii "image" ≠ ascii "video" := by decide
  have h2 : ascii "image" ≠ ascii "like" := by decide
  have h3 : ascii "video" ≠ ascii "like" := by decide
  unfold readType
  split_ifs <;> simp_all

theorem isWord_eq_iff (key word : String) (hw : (ascii word).all isAlnum = true)
    (hne : ascii word ≠ []) : isWord ls key word = isWord ls' key word ↔
      (look ls key = ascii word ↔ look ls' key = ascii word) := by
  rw [Bool.eq_iff_iff, look_word_iff ls key word hw hne, look_word_iff ls' key word hw hne]

/-- The status that is read is one, exactly if the words are the same of those it is compared
    with. -/
theorem readStatus_look_iff (key : String) :
    readStatus (look ls key) = readStatus (look ls' key) ↔
      SameWord ls ls' key ["delivered", "read"] := by
  rw [readStatus_eq_iff, ← isWord_eq_iff key "delivered" (by decide) (by decide),
    ← isWord_eq_iff key "read" (by decide) (by decide)]
  simp [SameWord]

theorem readType_look_iff (key : String) :
    readType (look ls key) = readType (look ls' key) ↔
      SameWord ls ls' key ["image", "video", "like"] := by
  rw [readType_eq_iff, ← isWord_eq_iff key "image" (by decide) (by decide),
    ← isWord_eq_iff key "video" (by decide) (by decide),
    ← isWord_eq_iff key "like" (by decide) (by decide)]
  simp [SameWord]

/-- **Two renderings of one object are treated alike exactly if their blanks leave alike what is
    looked at.** -/
theorem reaction_eq_iff (hsame : ls.map Line.member = ls'.map Line.member) (userId : Bytes)
    (timestamp : Int) :
    reaction userId timestamp ls = reaction userId timestamp ls' ↔ ReadAlike ls ls' := by
  have hlook : ∀ key, look ls key = look ls' key ↔ SpacedAlike ls ls' key := fun _ =>
    shown_eq_iff hsame
  have hmsgType : readType (look ls "msgType") = readType (look ls' "msgType") ↔ _ :=
    readType_look_iff "msgType"
  have hstatus : readStatus (look ls "status") = readStatus (look ls' "status") ↔ _ :=
    readStatus_look_iff "status"
  unfold ReadAlike reaction
  rw [readKind_look, readKind_look]
  cases hkind : kindOf ls <;> cases hkind' : kindOf ls' <;>
    simp [AlikeAs, hlook, hmsgType, hstatus, readFlag_look, and_comm, and_left_comm]

end Alike

/-- **Two renderings of one object have the same effect exactly when their blanks leave alike what
    `onRawMessage` looks at**; and where no name is there twice, that is said of a key that is
    passed on by the blanks of its member. -/
theorem sameReaction_iff (p : Respaced) (hlen : p.first.render.length ≤ npos)
    (hlen' : p.second.render.length ≤ npos) (userId : Bytes) (timestamp : Int) :
    (onRawMessage userId p.first.render timestamp = onRawMessage userId p.second.render timestamp ↔
      ReadAlike p.first.lines p.second.lines) ∧
    (Distinct p.first.lines → ∀ key,
      (SpacedAlike p.first.lines p.second.lines key ↔
        ∀ x ∈ p.first.lines.zip p.second.lines,
          lastPiece x.1.key = ascii key → x.1.Alike x.2)) := by
  refine ⟨?_, fun hdistinct key => countAlike_distinct p.same hdistinct⟩
  rw [onRawMessage_render hlen, onRawMessage_render hlen', Option.some.injEq, reaction_eq_iff p.same]

/-- A member that is a string, with blanks. -/
def textLine (key value : String) (front after trail : Bytes)
    (written : isWritten (ascii key) = true ∧ isWritten (ascii value) = true)
    (blank : (front ++ (after ++ trail)).all Json.isBlank = true) : Line where
  key := ascii key
  value := .str (ascii value)
  front := front
  before := []
  after := after
  trail := trail
  written := written
  blank := by
    rw [List.append_nil, List.append_assoc]
    exact blank

/-- A typing frame, and the same one with blanks at its commas and braces. -/
def typingRespaced : Respaced where
  first := Frame.bare [
    textLine "type" "typing" [] [] [] (by decide) (by decide),
    textLine "conversationId" "c1" [] [] [] (by decide) (by decide),
    textLine "isTyping" "true" [] [] [] (by decide) (by decide)]
  second := {
    lead := [32], inner := [10], tail := [13, 10], blank := by decide
    lines := [textLine "type" "typing" [9] [] [32] (by decide) (by decide),
      textLine "conversationId" "c1" [32] [] [32] (by decide) (by decide),
      textLine "isTyping" "true" [10] [] [10] (by decide) (by decide)] }
  same := by decide

theorem sameReaction_typing :
    onRawMessage (ascii "bob") typingRespaced.first.render 0 =
        onRawMessage (ascii "bob") typingRespaced.second.render 0 ∧
      ∀ x ∈ typingRespaced.first.lines.zip typingRespaced.second.lines,
        lastPiece x.1.key = ascii "conversationId" → x.1.Alike x.2 := by
  have h := sameReaction_iff typingRespaced (by decide +kernel) (by decide +kernel) (ascii "bob") 0
  constructor
  · exact h.1.mpr (by decide +kernel)
  · exact (h.2 (by decide +kernel) "conversationId").mp (by decide +kernel)

/-- A message frame, and the same one with a blank behind the colon of its type. -/
def messageRespaced : Respaced where
  first := Frame.bare [
    textLine "type" "message" [] [] [] (by decide) (by decide),
    textLine "id" "m1" [] [] [] (by decide) (by decide)]
  second := Frame.bare [
    textLine "type" "message" [] [32] [] (by decide) (by decide),
    textLine "id" "m1" [] [] [] (by decide) (by decide)]
  same := by decide

/-- **One blank behind a colon**: the frame is not seen to be a message, and is ignored. -/
theorem sameReaction_spacedType :
    messageRespaced.first.render = ascii "\x7b\"type\":\"message\",\"id\":\"m1\"\x7d" ∧
    messageRespaced.second.render = ascii "\x7b\"type\": \"message\",\"id\":\"m1\"\x7d" ∧
    (onRawMessage (ascii "bob") messageRespaced.first.render 0).map
      (fun r => r.stores.map ChatMessage.id) = some (some (ascii "m1")) ∧
    onRawMessage (ascii "bob") messageRespaced.second.render 0 = some .ignored ∧
    onRawMessage (ascii "bob") messageRespaced.first.render 0 ≠
      onRawMessage (ascii "bob") messageRespaced.second.render 0 := by
  decide +kernel

end Viral.Chat
