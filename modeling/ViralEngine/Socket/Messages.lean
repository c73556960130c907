/-
  File:      ViralEngine/Socket/Messages.lean
  Subject:   THE TRANSPORT PUTS MESSAGES TOGETHER AS THE PROTOCOL SAYS, AND CUTS THEM UP SO.

  `Lib/WebSocket` says which messages a row of frames makes up. The transport keeps the message
  under way in `_chunks` and `_fragmentedMessageKind`; `sendData` cuts a long message by counting
  steps. Both are the protocol's.

  * `under`, `Kinded` -- the message under way, and that its kind is known;
  * `Reads`, `wholeFrame_reads` -- a frame in its place is taken as the protocol takes it;
  * `slices`, `fragments_cutUp`, `fragments_absorbs` -- the fragments of a message make it up.
-/
import ViralEngine.Socket.Reading

namespace Viral.Socket

open Viral.Lib Viral.Lib.WebSocket
open Viral.Chat (Bytes validateUtf8)

/-! ## 1. Taking a frame -/

/-- The kind of a message, as the transport calls it. -/
def MessageKind.ofKind : Kind → MessageKind
  | .text => .msgText
  | .binary => .msgBinary

@[simp] theorem heard_message (k : Kind) (s : Bytes) :
    heard [.message (.ofKind k) s] = [(k, s)] := by
  cases k <;> rfl

/-- A message that may be handed on: a text is UTF-8. -/
def Valid (m : Kind × Bytes) : Prop := m.1 = .text → validateUtf8 m.2 = true

instance (m : Kind × Bytes) : Decidable (Valid m) :=
  inferInstanceAs (Decidable (m.1 = .text → validateUtf8 m.2 = true))

namespace Transport

/-- The message under way. -/
def under (t : Transport) : Option Partial :=
  if t.chunks = [] then none
  else some ⟨if t.fragmentedMessageKind = .msgText then .text else .binary, t.chunks.flatten⟩

/-- The kind of the message under way is known. -/
def Kinded (t : Transport) : Prop :=
  t.chunks ≠ [] → t.fragmentedMessageKind = .msgText ∨ t.fragmentedMessageKind = .msgBinary

theorem under_none {t : Transport} (h : t.under = none) : t.chunks = [] := by
  by_contra hc
  rw [under, if_neg hc] at h
  cases h

theorem under_some {t : Transport} {p : Partial} (hk : t.Kinded) (h : t.under = some p) :
    t.chunks ≠ [] ∧ t.fragmentedMessageKind = .ofKind p.kind ∧ t.chunks.flatten = p.payload := by
  by_cases hc : t.chunks = []
  · rw [under, if_pos hc] at h
    cases h
  · rw [under, if_neg hc] at h
    obtain rfl := Option.some.inj h
    refine ⟨hc, ?_, rfl⟩
    rcases hk hc with hk | hk <;> simp [hk, MessageKind.ofKind]

theorem under_of_receiving {t t' : Transport} (h : t'.receiving = t.receiving) :
    t'.under = t.under ∧ (t.Kinded → t'.Kinded) ∧ heard t'.log = heard t.log := by
  simp only [Transport.receiving, Prod.mk.injEq] at h
  obtain ⟨-, -, hc, hk, hl⟩ := h
  refine ⟨by simp [under, hc, hk], fun h => ?_, hl⟩
  rw [Kinded, hc, hk]
  exact h

theorem emitMessage_valid (t : Transport) {k : Kind} {s : Bytes} (h : Valid (k, s)) :
    t.emitMessage (.ofKind k) s = t.record (.message (.ofKind k) s) := by
  refine if_neg fun ⟨hk, hs⟩ => hs (h ?_)
  cases k with
  | text => rfl
  | binary => cases hk

end Transport

/-- **A frame has been taken**: nothing but control frames has been written, the message under way
    is `q`, and what the frame completed has been handed on. -/
structure Reads (t t' : Transport) (q : Option Partial) (is : List Item) : Prop where
  signals : ∃ fs, Emits t t' fs ∧ ∀ f ∈ fs, Sound f ∧ f.opcode.IsControl
  under : t'.under = q
  kinded : t'.Kinded
  hears : heard t'.log = heard t.log ++ messages is

/-- What only answers a control frame. -/
theorem Signals.reads {t t' : Transport} (h : Signals t t') (hk : t.Kinded) {is : List Item}
    (hm : messages is = []) : Reads t t' t.under is := by
  obtain ⟨fs, hw, hf⟩ := h
  obtain ⟨hu, hkk, hh⟩ := Transport.under_of_receiving hw.receiving
  exact ⟨⟨fs, hw.emits, hf⟩, hu, hkk hk, by simp [hh, hm]⟩

/-- What only takes a data frame. -/
theorem Reads.data {t t' : Transport} {q : Option Partial} {is : List Item} {c : List Bytes}
    {k : MessageKind} {l : List Event}
    (h : t' = { t with chunks := c, fragmentedMessageKind := k, log := l })
    (hu : t'.under = q) (hk : t'.Kinded) (hh : heard t'.log = heard t.log ++ messages is) :
    Reads t t' q is := by
  refine ⟨⟨[], ?_, fun _ hf => absurd hf List.not_mem_nil⟩, hu, hk, hh⟩
  subst h
  simp [emits_iff]

namespace Transport

/-- A control frame, whatever message is under way. -/
theorem controlFrame_reads {t : Transport} {f : Frame} (hk : t.Kinded)
    (hc : f.opcode.IsControl) (hping : f.opcode = .ping → f.payload.length ≤ 125)
    (hclose : f.opcode = .close → f.payload.length < kChunkSize) :
    Reads t (t.wholeFrame f.opcode f.fin f.payload) t.under [.control f.opcode f.payload] := by
  have hdata : ¬ (f.opcode = .text ∨ f.opcode = .binary ∨ f.opcode = .continuation) := by
    rintro (h | h | h) <;> rw [h] at hc <;> exact absurd hc (by decide)
  unfold wholeFrame
  rw [if_neg hdata]
  refine Signals.reads ?_ hk rfl
  split
  · rename_i ho
    exact t.pingFrame_signals (hping ho)
  · split
    · refine Signals.trans (Writes.signals ?_) (record_writes rfl).signals
      constructor <;> simp [emits_iff, Transport.receiving]
    · split
      · rename_i ho
        exact t.closeFrame_signals (hclose ho)
      · exact t.close_signals _ _ (by decide)

/-- What is not valid closes the connection. -/
theorem emitMessage_invalid (t : Transport) {k : Kind} {s : Bytes} (h : ¬ Valid (k, s)) :
    t.emitMessage (.ofKind k) s =
      t.close kInvalidFramePayloadData kInvalidFramePayloadDataMessage := by
  cases k with
  | text => exact if_pos ⟨rfl, fun hv => h fun _ => hv⟩
  | binary => exact absurd (fun hk => by cases hk) h

theorem inSequence_first {t : Transport} (k : Kind) (hc : t.chunks = []) :
    t.inSequence k.opcode = t.setKind (.ofKind k) := by
  cases k <;> simp [inSequence, Kind.opcode, Opcode.text, Opcode.binary, Opcode.continuation,
    setKind, hc, MessageKind.ofKind]

/-- The first frame of a message. -/
theorem firstFrame_reads {t : Transport} {k : Kind} {fin : Bool} {s : Bytes}
    (hu : t.under = none) (hv : fin = true → Valid (k, s)) :
    Reads t (t.dataFrame k.opcode fin s)
      (if fin then none else some ⟨k, s⟩) (if fin then [.message k s] else []) := by
  have hc := under_none hu
  unfold dataFrame collect
  rw [inSequence_first k hc]
  cases fin with
  | true =>
    rw [if_pos ⟨rfl, hc⟩]
    have hemit := (t.setKind (.ofKind k)).emitMessage_valid (hv rfl)
    have hkind : (t.setKind (.ofKind k)).fragmentedMessageKind = .ofKind k := rfl
    rw [hkind, hemit]
    refine Reads.data rfl ?_ ?_ ?_
    · simp [setKind, record, under, hc]
    · simp [setKind, record, Kinded, hc]
    · simp [setKind, record, messages]
  | false =>
    refine Reads.data rfl ?_ ?_ ?_
    · cases k <;> simp [emitMessage, setKind, pushChunk, record, under, hc, MessageKind.ofKind]
    · cases k <;> simp [emitMessage, setKind, pushChunk, record, Kinded, MessageKind.ofKind]
    · simp [emitMessage, setKind, pushChunk, record, messages, heard]

/-- A continuation of a message. -/
theorem nextFrame_reads {t : Transport} {p : Partial} {fin : Bool} {s : Bytes} (hk : t.Kinded)
    (hu : t.under = some p) (hv : fin = true → Valid (p.kind, p.payload ++ s)) :
    Reads t (t.dataFrame .continuation fin s)
      (if fin then none else some { p with payload := p.payload ++ s })
      (if fin then [.message p.kind (p.payload ++ s)] else []) := by
  obtain ⟨hc, hkind, hpay⟩ := under_some hk hu
  have hseq : t.inSequence .continuation = t := by
    simp [inSequence, hc]
  have hflat : (t.chunks ++ [s]).flatten = p.payload ++ s := by
    simp [hpay]
  unfold dataFrame collect
  rw [hseq, if_neg (fun h => hc h.2)]
  cases fin with
  | true =>
    have hemit := (t.pushChunk s).emitMessage_valid (hv rfl)
    have hall : (t.pushChunk s).emitMessage (t.pushChunk s).fragmentedMessageKind
        (t.pushChunk s).chunks.flatten =
        (t.pushChunk s).record (.message (.ofKind p.kind) (p.payload ++ s)) := by
      rw [← hemit, ← hkind, ← hflat]
      rfl
    simp only [if_true, hall]
    refine Reads.data rfl ?_ ?_ ?_
    · simp [clearChunks, under]
    · simp [clearChunks, Kinded]
    · simp [clearChunks, record, pushChunk, messages]
  | false =>
    refine Reads.data rfl ?_ ?_ ?_
    · cases hpk : p.kind <;>
        simp [emitMessage, pushChunk, record, under, hkind, hpk, hpay, MessageKind.ofKind]
    · intro _
      exact hk hc
    · simp [emitMessage, pushChunk, record, messages, heard]

/-- **A frame in its place is taken as the protocol takes it.** -/
theorem wholeFrame_reads {t : Transport} {f : Frame} {q : Option Partial} {is : List Item}
    (hk : t.Kinded) (hping : f.opcode = .ping → f.payload.length ≤ 125)
    (hclose : f.opcode = .close → f.payload.length < kChunkSize)
    (ha : absorb t.under f.piece = some (q, is)) (hv : ∀ m ∈ messages is, Valid m) :
    Reads t (t.wholeFrame f.opcode f.fin f.payload) q is := by
  rcases absorb_cases ha with ⟨hc, -, rfl, rfl⟩ | ⟨ho, p, hu, rfl, rfl⟩ | ⟨k, ho, hu, rfl, rfl⟩
  · exact controlFrame_reads hk hc hping hclose
  · rw [show t.wholeFrame f.opcode f.fin f.payload = t.dataFrame .continuation f.fin f.payload by
      rw [show f.opcode = .continuation from ho]; rfl]
    exact nextFrame_reads hk hu fun hfin => hv _ (by simp [hfin, Frame.piece, messages])
  · rw [show t.wholeFrame f.opcode f.fin f.payload = t.dataFrame k.opcode f.fin f.payload by
      rw [show f.opcode = k.opcode from ho]; cases k <;> rfl]
    exact firstFrame_reads hu fun hfin => hv _ (by simp [hfin, Frame.piece, messages])

end Transport

/-! ## 2. Cutting a message up -/

/-- The pieces of a long message: whole `kChunkSize`s, and what is left with the last one. -/
def slices : (steps : Nat) → Bytes → List Bytes
  | 0, _ => []
  | 1, s => [s]
  | k + 2, s => s.take kChunkSize :: slices (k + 1) (s.drop kChunkSize)

theorem slices_ne_nil (k : Nat) (s : Bytes) : slices (k + 1) s ≠ [] := by
  cases k <;> simp [slices]

theorem slices_flatten (k : Nat) (s : Bytes) : (slices (k + 1) s).flatten = s := by
  induction k generalizing s with
  | zero => simp [slices]
  | succ k ih => simp [slices, ih]

/-- No piece is as long as two. -/
theorem slices_length {k : Nat} {s : Bytes} (h : s.length < (k + 2) * kChunkSize) :
    ∀ p ∈ slices (k + 1) s, p.length < 2 * kChunkSize := by
  induction k generalizing s with
  | zero => simpa [slices] using h
  | succ k ih =>
    intro p hp
    rcases List.mem_cons.mp hp with rfl | hp
    · calc (s.take kChunkSize).length ≤ kChunkSize := List.length_take_le _ _
        _ < 2 * kChunkSize := by decide
    · refine ih ?_ p hp
      rw [Nat.succ_mul (k + 2)] at h
      rw [List.length_drop]
      rcases Nat.lt_or_ge s.length kChunkSize with hs | hs
      · rw [Nat.sub_eq_zero_of_le hs.le]
        exact Nat.mul_pos (by omega) (by decide)
      · exact (Nat.sub_lt_iff_lt_add' hs).mpr (by rwa [Nat.add_comm])

/-- A fragment as the other side reads it. -/
def Fragment.piece (f : Fragment) : Piece := ⟨f.type, f.fin, f.message⟩

/-- The steps from the `i`th on, when `k + 1` of them are left. -/
theorem steps_cutUp (type : Opcode) (message : Bytes) (i k : Nat) :
    (List.range (k + 1)).map (fun j => (⟨if i + j = 0 then type else .continuation,
      decide (j = k), if j = k then message.drop ((i + j) * kChunkSize)
        else (message.drop ((i + j) * kChunkSize)).take kChunkSize⟩ : Piece)) =
      cutUp (if i = 0 then type else .continuation)
        (slices (k + 1) (message.drop (i * kChunkSize))) := by
  induction k generalizing i with
  | zero => simp [slices, cutUp]
  | succ k ih =>
    rw [List.range_succ_eq_map, List.map_cons, List.map_map, slices, cutUp_cons _ _
      (slices_ne_nil _ _), List.drop_drop, ← Nat.succ_mul]
    have hnext := ih (i + 1)
    rw [if_neg (Nat.succ_ne_zero i)] at hnext
    rw [← hnext]
    congr 1
    refine List.map_congr_left fun j _ => ?_
    simp [Nat.add_assoc, Nat.add_comm 1 j]

/-- **`sendData` cuts a message up as the protocol does.** -/
theorem fragments_cutUp (type : Opcode) (message : Bytes) :
    (fragments type message).map Fragment.piece =
      cutUp type (slices (max 1 (message.length / kChunkSize)) message) := by
  unfold fragments
  split
  · rename_i h
    rw [Nat.div_eq_of_lt h]
    rfl
  · rename_i h
    obtain ⟨k, hk⟩ : ∃ k, message.length / kChunkSize = k + 1 :=
      ⟨message.length / kChunkSize - 1, by
        have := Nat.div_pos (Nat.not_lt.mp h) (by decide)
        omega⟩
    have hsteps := steps_cutUp type message 0 k
    rw [hk, Nat.max_eq_right (by omega)]
    simp only [List.map_map]
    rw [if_pos rfl, Nat.zero_mul, List.drop_zero] at hsteps
    rw [← hsteps]
    refine List.map_congr_left fun j _ => ?_
    simp [Fragment.piece]

/-- **The fragments of a message make it up.** -/
theorem fragments_absorbs (k : Kind) (message : Bytes) :
    absorbs none ((fragments k.opcode message).map Fragment.piece) =
      some (none, [.message k message]) := by
  obtain ⟨n, hn⟩ : ∃ n, max 1 (message.length / kChunkSize) = n + 1 :=
    ⟨max 1 (message.length / kChunkSize) - 1, by omega⟩
  rw [fragments_cutUp, hn, absorbs_cutUp k (slices_ne_nil _ _), slices_flatten]

theorem cutUp_mem {o : Opcode} {ss : List Bytes} {p : Piece} (h : p ∈ cutUp o ss) :
    p.payload ∈ ss ∧ (p.opcode = o ∨ p.opcode = .continuation) := by
  induction ss generalizing o with
  | nil => cases h
  | cons s ss ih =>
    by_cases hss : ss = []
    · subst hss
      obtain rfl := List.mem_singleton.mp h
      exact ⟨List.mem_cons_self, .inl rfl⟩
    · rw [cutUp_cons o s hss] at h
      rcases List.mem_cons.mp h with rfl | h
      · exact ⟨List.mem_cons_self, .inl rfl⟩
      · obtain ⟨h1, h2⟩ := ih h
        exact ⟨List.mem_cons_of_mem _ h1, .inr (or_self_iff.mp h2)⟩

/-- A fragment is shorter than 64 KiB. -/
theorem fragments_short {k : Kind} {message : Bytes} {f : Fragment}
    (h : f ∈ fragments k.opcode message) : f.message.length < 2 ^ 16 ∧ ¬ f.type.IsControl := by
  have hmem : f.piece ∈ (fragments k.opcode message).map Fragment.piece :=
    List.mem_map_of_mem h
  obtain ⟨n, hn⟩ : ∃ n, max 1 (message.length / kChunkSize) = n + 1 :=
    ⟨max 1 (message.length / kChunkSize) - 1, by omega⟩
  rw [fragments_cutUp, hn] at hmem
  obtain ⟨hp, ho⟩ := cutUp_mem hmem
  have hlen : message.length < (n + 2) * kChunkSize := by
    have hdiv : message.length / kChunkSize < n + 2 := by omega
    exact (Nat.div_lt_iff_lt_mul (by decide)).mp hdiv
  refine ⟨slices_length hlen _ hp, ?_⟩
  rcases ho with ho | ho
  · rw [show f.type = k.opcode from ho]
    cases k <;> decide
  · rw [show f.type = .continuation from ho]
    decide

theorem fragments_ne_nil (type : Opcode) (message : Bytes) : fragments type message ≠ [] := by
  intro h
  have hcut := fragments_cutUp type message
  obtain ⟨n, hn⟩ : ∃ n, max 1 (message.length / kChunkSize) = n + 1 :=
    ⟨max 1 (message.length / kChunkSize) - 1, by omega⟩
  rw [h, hn] at hcut
  cases hs : slices (n + 1) message with
  | nil => exact slices_ne_nil n message hs
  | cons s ss =>
    rw [hs] at hcut
    cases ss <;> cases hcut

end Viral.Socket
