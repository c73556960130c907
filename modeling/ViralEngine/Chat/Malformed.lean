/-
  File:      ViralEngine/Chat/Malformed.lean
  Subject:   A FRAME CANNOT MAKE `onRawMessage` THROW.

  A frame may be cut off anywhere, or be no frame at all. `jsonGet` then finds a key at the very end,
  or a value that nothing ends, and computes its count from `npos`. What could throw is `substr`,
  and it does only for a start behind the end of the text.

  * `SubstrCall`, `jsonGetCall` -- the call of `substr` that `jsonGet` makes, with its arguments;
    `jsonGet_call`: what comes of it is what `jsonGet` answers;
  * `Cuts` -- what such a call has to cut out of the frame; `jsonGetCall_cuts`: it does, for every
    frame and every key;
  * `onRawMessage_some` -- every frame is reacted to;
  * `frame_handled` -- in the engine: the socket thread takes every frame, and is never stopped in
    front of the end of `onRawMessage`, whatever the other threads do.
-/
import ViralEngine.Chat.Delivery
import ViralEngine.Chat.Spacing

namespace Viral.Chat

open Viral.Lib

/-! ## 1. The call of `substr` -/

/-- The two ways a value is found: as a string, or behind the bare key ("numeric"). -/
inductive ValueForm where
  | string | bare
  deriving DecidableEq, Repr

/-- What is searched for a key. -/
def ValueForm.search (key : Bytes) : ValueForm → Bytes
  | .string => ascii "\"" ++ key ++ ascii "\":\""
  | .bare => ascii "\"" ++ key ++ ascii "\":"

/-- The search for the end of the value, from its start on. -/
def ValueForm.stop (json : Bytes) (pos : Nat) : ValueForm → Option Nat
  | .string => findFrom json (ascii "\"") pos
  | .bare => findFirstOf json (ascii ",\x7d") pos

/-- The bytes that do not end the value. -/
def ValueForm.inside : ValueForm → UInt8 → Bool
  | .string => fun b => b ≠ quote
  | .bare => inBare

/-- A call `json.substr(pos, count)`. -/
structure SubstrCall where
  form : ValueForm
  pos : Nat
  count : Nat
  deriving DecidableEq, Repr

/-- The call that `jsonGet` makes; `none`: it returns `""` without one. -/
def jsonGetCall (json key : Bytes) : Option SubstrCall :=
  match findFrom json (ValueForm.search key .string) 0 with
  | none =>
    match findFrom json (ValueForm.search key .bare) 0 with
    | none => none
    | some pos =>
      let pos := pos + (ValueForm.search key .bare).length
      let stop := (ValueForm.stop json pos .bare).getD npos
      some { form := .bare, pos := pos, count := (stop + 2 ^ 64 - pos) % 2 ^ 64 }
  | some pos =>
    let pos := pos + (ValueForm.search key .string).length
    let stop := (ValueForm.stop json pos .string).getD npos
    some { form := .string, pos := pos, count := (stop + 2 ^ 64 - pos) % 2 ^ 64 }

/-- **`jsonGet` is its call of `substr`**, and throws exactly where that throws. -/
theorem jsonGet_call (json key : Bytes) : jsonGet json key =
    ((jsonGetCall json key).map fun c => substr json c.pos c.count).getD (some []) := by
  unfold jsonGet jsonGetCall
  cases hfind : findFrom json (ascii "\"" ++ key ++ ascii "\":\"") 0 with
  | some i =>
    simp only [ValueForm.search, hfind]
    rfl
  | none =>
    cases hfind' : findFrom json (ascii "\"" ++ key ++ ascii "\":") 0 with
    | none =>
      simp only [ValueForm.search, hfind, hfind']
      rfl
    | some i =>
      simp only [ValueForm.search, hfind, hfind']
      rfl

/-- The arguments of the call. -/
theorem jsonGetCall_some {json key : Bytes} {c : SubstrCall} (h : jsonGetCall json key = some c) :
    ∃ i, findFrom json (c.form.search key) 0 = some i ∧ c.pos = i + (c.form.search key).length ∧
      c.count = ((c.form.stop json c.pos).getD npos + 2 ^ 64 - c.pos) % 2 ^ 64 := by
  unfold jsonGetCall at h
  split at h
  · split at h
    · cases h
    · rename_i i hfind
      cases h
      exact ⟨i, hfind, rfl, rfl⟩
  · rename_i i hfind
    cases h
    exact ⟨i, hfind, rfl, rfl⟩

/-! ## 2. What it cuts out -/

/-- **What a call has to cut out of the frame**: it starts in the frame, right behind the first
    place of what is searched, and returns the text from there up to the first byte that ends such
    a value, or else up to the end of the frame. -/
structure Cuts (json key : Bytes) (c : SubstrCall) (v : Bytes) : Prop where
  inFrame : c.pos ≤ json.length
  start : ∃ i, FirstAt (c.form.search key) json i ∧ c.pos = i + (c.form.search key).length
  returns : substr json c.pos c.count = some v
  value : UpTo c.form.inside (json.drop c.pos) v

/-- `find` answers the first place. -/
theorem findFrom_iff {s p : Bytes} {i : Nat} : findFrom s p 0 = some i ↔ FirstAt p s i := by
  unfold findFrom FirstAt
  rw [List.drop_zero, List.find?_range_eq_some]
  simp only [List.isPrefixOf_iff_prefix, List.mem_range, Bool.not_eq_true', ← Bool.not_eq_true]
  refine and_congr_right fun hp => and_iff_right_of_imp fun hfirst => ?_
  -- behind the end only the empty text stands, and that stands at the front
  refine Nat.lt_succ_of_le (Nat.le_of_not_lt fun hi => ?_)
  rw [List.drop_eq_nil_of_le (Nat.le_of_lt hi)] at hp
  obtain rfl := List.prefix_nil.mp hp
  exact hfirst s.length hi List.nil_prefix

/-- **`end - pos` selects the value**, in both forms: up to its end, or to the end of the frame. -/
theorem substr_value {json : Bytes} {pos : Nat} (hlen : json.length ≤ npos)
    (hpos : pos ≤ json.length) (form : ValueForm) :
    substr json pos (((form.stop json pos).getD npos + 2 ^ 64 - pos) % 2 ^ 64) =
      some ((json.drop pos).takeWhile form.inside) := by
  cases form with
  | string => exact substr_quote hlen hpos
  | bare => exact substr_bare hlen hpos

theorem jsonGetCall_cuts {json key : Bytes} {c : SubstrCall} (hlen : json.length ≤ npos)
    (h : jsonGetCall json key = some c) :
    Cuts json key c ((json.drop c.pos).takeWhile c.form.inside) := by
  obtain ⟨i, hfind, hpos, hcount⟩ := jsonGetCall_some h
  have hin : c.pos ≤ json.length := hpos ▸ findFrom_room hfind
  exact {
    inFrame := hin
    start := ⟨i, findFrom_iff.mp hfind, hpos⟩
    returns := by
      rw [hcount]
      exact substr_value hlen hin c.form
    value := upTo_iff.mpr rfl }

/-- A value in the form of a string holds no quote. -/
theorem Cuts.plain {json key v : Bytes} {c : SubstrCall} (h : Cuts json key c v)
    (hform : c.form = .string) : quote ∉ v := by
  obtain ⟨_, _, hin, _⟩ := h.value
  intro hq
  have hinside := hin quote hq
  rw [hform] at hinside
  exact absurd hinside (by decide)

/-! ## 3. `onRawMessage` -/

/-- **Every frame is reacted to.** -/
theorem onRawMessage_some {json : Bytes} (hlen : json.length ≤ npos) (userId : Bytes)
    (timestamp : Int) : ∃ r, onRawMessage userId json timestamp = some r := by
  obtain ⟨get, hget⟩ : ∃ get : Bytes → Bytes, ∀ key, jsonGet json key = some (get key) :=
    ⟨_, jsonGet_behind hlen⟩
  unfold onRawMessage decodeMessage
  simp only [hget, Option.bind_eq_bind, Option.bind_some]
  split
  · exact ⟨_, rfl⟩
  split
  · exact ⟨_, rfl⟩
  split
  · exact ⟨_, rfl⟩
  split <;> exact ⟨_, rfl⟩

/-- **Malformed frames cannot throw.** For every frame and every key, `jsonGet` answers `""`
    without a call of `substr`, or its call cuts out the value and that is the answer, which in the
    form of a string holds no quote; and `onRawMessage` comes to its end on every frame. A
    `std::string` is no longer than `npos`. -/
theorem malformed_harmless (json : Bytes) (hlen : json.length ≤ npos) :
    (∀ key, jsonGetCall json key = none → jsonGet json key = some []) ∧
    (∀ key c, jsonGetCall json key = some c →
      ∃ v, jsonGet json key = some v ∧ Cuts json key c v ∧ (c.form = .string → quote ∉ v)) ∧
    ∀ userId timestamp, ∃ r, onRawMessage userId json timestamp = some r := by
  refine ⟨fun key hcall => ?_, fun key c hcall => ?_, onRawMessage_some hlen⟩
  · rw [jsonGet_call, hcall]
    rfl
  · have hcuts := jsonGetCall_cuts hlen hcall
    refine ⟨_, ?_, hcuts, hcuts.plain⟩
    rw [jsonGet_call, hcall]
    exact hcuts.returns

/-- A frame that is cut off inside a value: nothing ends it. -/
def cutOff : Bytes := ascii "\x7b\"type\":\"message\",\"id\":\"m1"

/-- One that is cut off right behind a bare key: the value is empty, and starts at the end. -/
def cutOffBare : Bytes := ascii "\x7b\"type\":\"typing\",\"isTyping\":"

theorem malformed_cutOff :
    (∃ v, jsonGet cutOff (ascii "id") = some v ∧
      Cuts cutOff (ascii "id") ⟨.string, 24, npos - 24⟩ v ∧ quote ∉ v) ∧
    (∃ v, jsonGet cutOffBare (ascii "isTyping") = some v ∧
      Cuts cutOffBare (ascii "isTyping") ⟨.bare, 28, npos - 28⟩ v) ∧
    ∃ r, onRawMessage (ascii "bob") cutOff 0 = some r := by
  obtain ⟨_, hcalls, hraw⟩ := malformed_harmless cutOff (by decide +kernel)
  obtain ⟨_, hcalls', _⟩ := malformed_harmless cutOffBare (by decide +kernel)
  obtain ⟨v, hv, hcuts, hplain⟩ :=
    hcalls (ascii "id") ⟨.string, 24, npos - 24⟩ (by decide +kernel)
  obtain ⟨w, hw, hcuts', _⟩ :=
    hcalls' (ascii "isTyping") ⟨.bare, 28, npos - 28⟩ (by decide +kernel)
  exact ⟨⟨v, hv, hcuts, hplain rfl⟩, ⟨w, hw, hcuts'⟩, hraw (ascii "bob") 0⟩

/-! ## 4. The engine -/

/-- The steps that `sendRaw` has still to take. -/
def SendPc.left : SendPc → Nat
  | .test _ => 2
  | .send _ | .push _ => 1

/-- The steps that the socket thread has still to take in `onRawMessage`. -/
def WsPc.left : WsPc → Nat
  | .store _ => 3
  | .ack p => p.left
  | _ => 0

/-- A step of the socket's thread. -/
def Act.isWs : Act → Bool
  | .ws _ => true
  | _ => false

theorem SendPc.left_pos (p : SendPc) : 0 < p.left := by
  cases p with
  | test => exact Nat.two_pos
  | send | push => exact Nat.one_pos

/-- Inside `onRawMessage` the thread does not hold the mutex that a push waits for. -/
theorem mutexFree_ack {s : State} {p : SendPc} (h : s.ws = .ack p) : s.mutexFree = true := by
  unfold State.mutexFree
  rw [h]

/-- One step of the acknowledgement. -/
theorem sendRawStep_ack {s : State} {p : SendPc} (h : s.ws = .ack p) (accepted : Bool) :
    ∃ u next, sendRawStep s p accepted = some (u, next) ∧
      (next.elim 0 SendPc.left) + 1 = p.left := by
  cases p with
  | test json =>
    refine ⟨s, _, rfl, ?_⟩
    cases s.connected <;> rfl
  | send json => exact ⟨_, none, rfl, rfl⟩
  | push json =>
    unfold sendRawStep
    dsimp only
    rw [if_pos (mutexFree_ack h)]
    exact ⟨_, none, rfl, rfl⟩

/-- **A step of the socket thread inside `onRawMessage`** is never stopped, and the last one leaves
    the thread idle. -/
theorem wsStep_left {s : State} (h : 0 < s.ws.left) (accepted : Bool) :
    ∃ t, wsStep s accepted = some t ∧ t.ws.left + 1 = s.ws.left ∧
      (t.ws.left = 0 → t.ws = .idle) := by
  cases hws : s.ws with
  | idle | onConnected | presence | flushLock | flushTest | flushSend | flushPop =>
    rw [hws] at h
    exact absurd h (Nat.lt_irrefl 0)
  | store msg => exact ⟨_, wsStep_store hws accepted, rfl, nofun⟩
  | ack p =>
    obtain ⟨u, next, hstep, hleft⟩ := sendRawStep_ack hws accepted
    refine ⟨{ u with ws := next.elim .idle .ack }, ?_, ?_, ?_⟩
    · unfold wsStep
      simp only [hws, hstep]
      cases next <;> rfl
    · cases next <;> exact hleft
    · cases next with
      | none => exact fun _ => rfl
      | some q => exact fun hzero => absurd hzero (Nat.ne_of_gt q.left_pos)

/-- **A step of anyone else** leaves the thread where it is in `onRawMessage`. -/
theorem step_ws {s t : State} {a : Act} (h : step s a = some t) (hleft : 0 < s.ws.left)
    (ha : a.isWs = false) : t.ws = s.ws := by
  have hbusy : s.ws ≠ .idle := by
    intro hidle
    rw [hidle] at hleft
    exact absurd hleft (Nat.lt_irrefl 0)
  cases step_do h with
  | call tid accepted _ h =>
    obtain ⟨pc, u, next, _, hmove, rfl⟩ := callStep_some h
    cases callMove_do hmove with
    | store msg => rfl
    | raw p _ _ hm => exact (sendRawStep_spec hm).1
    | stopJoin hidle => exact absurd hidle hbusy
    | stopStore => rfl
  | ws => cases ha
  | request tid r => cases r <;> rfl
  | connect | disconnect | closing | dropping | dropped | connectError | passed => rfl
  | opened hidle | message _ _ _ hidle => exact absurd hidle hbusy

/-- **A run inside `onRawMessage`**: each step of the socket thread is one step less, whatever the
    other threads and the network do. -/
theorem exec_left {as : List Act} {s t : State} (h : engine.exec s as = some t)
    (hlt : as.countP Act.isWs < s.ws.left) : t.ws.left + as.countP Act.isWs = s.ws.left := by
  induction as generalizing s with
  | nil =>
    cases h
    rfl
  | cons a as ih =>
    obtain ⟨u, hu, hrest⟩ := Machine.exec_cons_some h
    have hpos : 0 < s.ws.left := Nat.zero_lt_of_lt hlt
    rw [List.countP_cons] at hlt ⊢
    by_cases ha : a.isWs = true
    · obtain ⟨accepted, rfl⟩ : ∃ accepted, a = .ws accepted := by
        cases a with
        | ws accepted => exact ⟨accepted, rfl⟩
        | _ => cases ha
      obtain ⟨v, hv, hleft, _⟩ := wsStep_left hpos accepted
      obtain rfl := Option.some.inj (hu.symm.trans hv)
      rw [if_pos ha] at hlt ⊢
      have hrun := ih hrest (by omega)
      omega
    · have hws := step_ws hu hpos (Bool.eq_false_iff.mpr ha)
      rw [if_neg ha, ← hws] at hlt ⊢
      exact ih hrest hlt

/-- **Every frame is handled.** A listening engine takes the frame, whatever it is. The socket
    thread then has at most three steps to take; none of them is ever stopped, whatever the other
    threads and the network did before it, and behind the last one the thread listens again. -/
theorem frame_handled {s : State} {json : Bytes} {timestamp : Int} (hlen : json.length ≤ npos)
    (hlisten : s.listening = true) (hready : s.ready ≠ .closed) :
    ∃ u, step s (.receive json timestamp) = some u ∧ u.ws.left ≤ 3 ∧
      ∀ as t, engine.exec u as = some t → as.countP Act.isWs < u.ws.left → ∀ accepted,
        ∃ v, step t (.ws accepted) = some v ∧
          v.ws.left + (as.countP Act.isWs + 1) = u.ws.left ∧ (v.ws.left = 0 → v.ws = .idle) := by
  obtain ⟨r, hr⟩ := onRawMessage_some hlen s.userId timestamp
  refine ⟨{ s with ws := (r.stores.map WsPc.store).getD s.ws }, ?_, ?_, ?_⟩
  · show (if s.listening = true ∧ s.ready ≠ .closed then receive s json timestamp else none) = _
    rw [if_pos ⟨hlisten, hready⟩]
    exact receive_onRawMessage hr
  · cases r.stores with
    | none =>
      show s.ws.left ≤ 3
      rw [idle_of_listening hlisten]
      exact Nat.zero_le 3
    | some msg => exact Nat.le_refl 3
  · intro as t hrun hlt accepted
    have hleft := exec_left hrun hlt
    obtain ⟨v, hv, hstep, hidle⟩ := wsStep_left (s := t) (by omega) accepted
    exact ⟨v, hv, by omega, hidle⟩

end Viral.Chat
