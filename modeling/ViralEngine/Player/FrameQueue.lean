/-
  File:      ViralEngine/Player/FrameQueue.lean
  Subject:   THE FRAMES BETWEEN A DECODER AND THE SCREEN
             (ijk-player/ijkmedia/ijkplayer/ff_ffplay.c, `frame_queue_*`).

  The decoder writes into the slot it is given, without the mutex, moves `windex` on without it
  and counts the frame with it. The screen reads its slots without it, too, and goes on one frame
  in the same two steps. Where `keep_last` is set the last frame shown stays in its slot.

  * `FrameQueue` -- the slots and the two indices; a frame is what it is;
  * `Frames`, `FramesAct`, `frames` -- the queue, its writer and its reader;
  * `FramesOk`, `frames_step` -- what every step keeps;
  * `taken_inOrder` -- what the reader sees;
  * `stuck_iff` -- when both wait for one another.
-/
import ViralEngine.Lib.Machine
import ViralEngine.Lib.Slots

namespace Viral.Ijk

open Viral.Lib

/-! ## 1. The queue -/

/-- The length of the array `queue`; `max_size` is never more. -/
def FRAME_QUEUE_SIZE : Nat := 16

/-- `FrameQueue`, without the mutex and the packet queue it looks to for an abort. -/
structure FrameQueue (α : Type) where
  queue : List α
  rindex : Nat
  windex : Nat
  size : Int
  maxSize : Nat
  keepLast : Bool
  rindexShown : Nat
  deriving DecidableEq, Repr

namespace FrameQueue

variable {α : Type}

/-- `frame_queue_init`. -/
def init (blank : α) (maxSize : Nat) (keepLast : Bool) : FrameQueue α where
  queue := List.replicate FRAME_QUEUE_SIZE blank
  rindex := 0
  windex := 0
  size := 0
  maxSize := min maxSize FRAME_QUEUE_SIZE
  keepLast := keepLast
  rindexShown := 0

/-- `frame_queue_peek`. -/
def peek (f : FrameQueue α) : Option α := f.queue[(f.rindex + f.rindexShown) % f.maxSize]?

/-- `frame_queue_peek_next`. -/
def peekNext (f : FrameQueue α) : Option α :=
  f.queue[(f.rindex + f.rindexShown + 1) % f.maxSize]?

/-- `frame_queue_peek_last`. -/
def peekLast (f : FrameQueue α) : Option α := f.queue[f.rindex]?

/-- `frame_queue_nb_remaining`. -/
def nbRemaining (f : FrameQueue α) : Int := f.size - f.rindexShown

/-- What the writer puts into its slot. -/
def write (f : FrameQueue α) (v : α) : FrameQueue α := { f with queue := f.queue.set f.windex v }

/-- `frame_queue_push` in front of the mutex. -/
def advance (f : FrameQueue α) : FrameQueue α := { f with windex := wrap f.maxSize f.windex }

/-- `frame_queue_next` in front of the mutex, where a frame leaves. -/
def discard (unref : α → α) (f : FrameQueue α) : FrameQueue α :=
  { f with queue := f.queue.modify f.rindex unref, rindex := wrap f.maxSize f.rindex }

end FrameQueue

/-! ## 2. The two threads -/

/-- The writer: between two frames, in its slot, between `windex` and the mutex, and gone. -/
inductive WriterPc where
  | idle | writing | pushing | gone
  deriving DecidableEq, Repr

/-- The reader: between two calls, between `rindex` and the mutex, and gone. -/
inductive ReaderPc where
  | idle | leaving | gone
  deriving DecidableEq, Repr

/-- The queue and its two threads. `known`: how many frames the reader knows to be there, since it
    went on last. `pushed` are the frames as the writer left them, `taken` those the reader went on
    by, as it saw them then. -/
structure Frames (α : Type) where
  f : FrameQueue α
  abortRequest : Bool
  writer : WriterPc
  reader : ReaderPc
  known : Int
  pushed : List α
  taken : List α
  deriving DecidableEq, Repr

/-- The steps. `leave`: the writer has no frame after all. -/
inductive FramesAct (α : Type) where
  | abort
  | writable
  | write (v : α)
  | leave
  | advance
  | count
  | remaining
  | readable
  | next
  | uncount
  deriving DecidableEq, Repr

namespace Frames

variable {α : Type}

/-- Both threads are outside of their calls, and nothing is in the queue. -/
def start (blank : α) (maxSize : Nat) (keepLast : Bool) : Frames α where
  f := .init blank maxSize keepLast
  abortRequest := false
  writer := .idle
  reader := .idle
  known := 0
  pushed := []
  taken := []

/-- `frame_queue_next` up to the mutex. -/
def goOn (unref : α → α) (s : Frames α) : Frames α :=
  let taken := s.taken ++ s.f.peek.toList
  if s.f.keepLast ∧ s.f.rindexShown = 0 then
    { s with f := { s.f with rindexShown := 1 }, known := 0, taken := taken }
  else { s with f := s.f.discard unref, reader := .leaving, known := 0, taken := taken }

/-- **One step.** -/
def step (unref : α → α) (s : Frames α) : FramesAct α → Option (Frames α)
  | .abort => some { s with abortRequest := true }
  -- `frame_queue_peek_writable`
  | .writable =>
    if s.writer = .idle then
      if s.abortRequest then some { s with writer := .gone }
      else if s.f.size < s.f.maxSize then some { s with writer := .writing }
      else none
    else none
  | .write v => if s.writer = .writing then some { s with f := s.f.write v } else none
  | .leave => if s.writer = .writing then some { s with writer := .idle } else none
  | .advance =>
    if s.writer = .writing then
      some { s with
        f := s.f.advance
        writer := .pushing
        pushed := s.pushed ++ s.f.queue[s.f.windex]?.toList }
    else none
  | .count =>
    if s.writer = .pushing then some { s with f.size := s.f.size + 1, writer := .idle } else none
  | .remaining => if s.reader = .idle then some { s with known := s.f.nbRemaining } else none
  -- `frame_queue_peek_readable`
  | .readable =>
    if s.reader = .idle then
      if s.abortRequest then some { s with reader := .gone }
      else if 0 < s.f.nbRemaining then some { s with known := 1 }
      else none
    else none
  | .next => if s.reader = .idle ∧ 0 < s.known then some (s.goOn unref) else none
  | .uncount =>
    if s.reader = .leaving then some { s with f.size := s.f.size - 1, reader := .idle } else none

end Frames

/-- **A queue of frames** and its two threads. -/
def frames {α : Type} (unref : α → α) (blank : α) (maxSize : Nat) (keepLast : Bool) :
    Machine (Frames α) (FramesAct α) :=
  ⟨.start blank maxSize keepLast, Frames.step unref⟩

/-! ## 3. What every step keeps -/

/-- A frame that `size` does not count yet. -/
def WriterPc.uncounted (w : WriterPc) : Nat := if w = .pushing then 1 else 0

/-- A frame that `size` still counts. -/
def ReaderPc.counted (r : ReaderPc) : Nat := if r = .leaving then 1 else 0

/-- **What holds of the queue**: `lo` frames have left it, and the others lie in their slots. -/
structure FramesOk {α : Type} (m : Nat) (kept : Bool) (s : Frames α) (lo : Nat) : Prop where
  slots : InSlots m s.f.queue s.pushed lo
  length : m ≤ s.f.queue.length
  maxSize : s.f.maxSize = m
  keepLast : s.f.keepLast = kept
  windex : s.f.windex = s.pushed.length % m
  rindex : s.f.rindex = lo % m
  size : s.f.size + lo + s.writer.uncounted = s.pushed.length + s.reader.counted
  room : s.pushed.length + s.reader.counted ≤ lo + m
  free : s.writer = .writing → s.pushed.length + s.reader.counted < lo + m
  shown : s.f.rindexShown ≤ if kept then 1 else 0
  ahead : lo + s.f.rindexShown + s.writer.uncounted ≤ s.pushed.length
  known : 0 < s.known →
    lo + s.f.rindexShown + s.writer.uncounted + s.known ≤ s.pushed.length
  taken : s.taken = s.pushed.take (lo + s.f.rindexShown)

section Ok

variable {α : Type} {m lo : Nat} {kept : Bool} {s t : Frames α} {unref : α → α}

theorem frames_start (blank : α) {maxSize : Nat} :
    FramesOk (min maxSize FRAME_QUEUE_SIZE) kept (.start blank maxSize kept) 0 where
  slots := inSlots_nil _ _ _
  length := by simp [Frames.start, FrameQueue.init]
  maxSize := rfl
  keepLast := rfl
  windex := (Nat.zero_mod _).symm
  rindex := (Nat.zero_mod _).symm
  size := rfl
  room := Nat.zero_le _
  free := fun h => nomatch h
  shown := Nat.zero_le _
  ahead := Nat.le_refl _
  known := fun h => absurd h (Int.lt_irrefl _)
  taken := rfl

/-! ### The writer -/

theorem frames_writable (h : FramesOk m kept s lo) (hw : s.writer = .idle)
    (hs : s.f.size < s.f.maxSize) : FramesOk m kept { s with writer := .writing } lo := by
  have hsize := h.size
  have hahead := h.ahead
  have hknown := h.known
  rw [hw] at hsize hahead hknown
  rw [h.maxSize] at hs
  exact { h with
    size := hsize
    ahead := hahead
    known := hknown
    free := fun _ => by
      have hc : (s.f.size : Int) + lo + 0 = s.pushed.length + s.reader.counted := hsize
      show s.pushed.length + s.reader.counted < lo + m
      omega }

/-- Another place of the writer where nothing is uncounted. -/
theorem FramesOk.writerAt (h : FramesOk m kept s lo) (hw : s.writer.uncounted = 0)
    {w : WriterPc} (hw' : w.uncounted = 0) (hne : w ≠ .writing) :
    FramesOk m kept { s with writer := w } lo := by
  have hsize := h.size
  have hahead := h.ahead
  have hknown := h.known
  rw [hw, ← hw'] at hsize hahead hknown
  exact { h with
    size := hsize
    ahead := hahead
    known := hknown
    free := fun hf => absurd hf hne }

/-- **Writing** touches no frame that is in the queue. -/
theorem frames_write (h : FramesOk m kept s lo) (hw : s.writer = .writing) (v : α) :
    FramesOk m kept { s with f := s.f.write v } lo :=
  { h with
    slots := by
      have hfree := h.free hw
      show InSlots m (s.f.queue.set s.f.windex v) s.pushed lo
      rw [h.windex]
      exact inSlots_write h.slots (by omega) v
    length := by
      show m ≤ (s.f.queue.set s.f.windex v).length
      rw [List.length_set]
      exact h.length }

/-- The slot of the writer is one. -/
theorem FramesOk.slot (h : FramesOk m kept s lo) (hm : 0 < m) :
    ∃ x, s.f.queue[s.f.windex]? = some x := by
  have hlt : s.f.windex < s.f.queue.length := by
    rw [h.windex]
    exact Nat.lt_of_lt_of_le (Nat.mod_lt _ hm) h.length
  exact ⟨_, List.getElem?_eq_getElem hlt⟩

/-- **Moving on**: what is in the slot of the writer is in the queue. -/
theorem frames_advance (h : FramesOk m kept s lo) (hm : 0 < m) (hw : s.writer = .writing) :
    FramesOk m kept { s with
      f := s.f.advance
      writer := .pushing
      pushed := s.pushed ++ s.f.queue[s.f.windex]?.toList } lo := by
  obtain ⟨x, hx⟩ := h.slot hm
  have hsize := h.size
  have hahead := h.ahead
  have hknown := h.known
  have hfree := h.free hw
  rw [hw] at hsize hahead hknown
  simp only [WriterPc.uncounted, reduceCtorEq, if_false] at hsize hahead hknown
  rw [hx, Option.toList_some]
  exact {
    slots := inSlots_push h.slots (by rw [← h.windex, hx])
    length := h.length
    maxSize := h.maxSize
    keepLast := h.keepLast
    windex := by
      show wrap s.f.maxSize s.f.windex = _
      rw [h.maxSize, h.windex, wrap_mod hm, List.length_append, List.length_singleton]
    rindex := h.rindex
    size := by
      simp only [FrameQueue.advance, WriterPc.uncounted, if_true, List.length_append,
        List.length_singleton]
      omega
    room := by
      simp only [List.length_append, List.length_singleton]
      omega
    free := fun hf => nomatch hf
    shown := h.shown
    ahead := by
      simp only [FrameQueue.advance, WriterPc.uncounted, if_true, List.length_append,
        List.length_singleton]
      omega
    known := fun hk => by
      have := hknown hk
      simp only [FrameQueue.advance, WriterPc.uncounted, if_true, List.length_append,
        List.length_singleton]
      omega
    taken := by
      show s.taken = (s.pushed ++ [x]).take (lo + s.f.rindexShown)
      rw [List.take_append_of_le_length (by omega)]
      exact h.taken }

theorem frames_count (h : FramesOk m kept s lo) (hw : s.writer = .pushing) :
    FramesOk m kept { s with f.size := s.f.size + 1, writer := .idle } lo := by
  have hsize := h.size
  have hahead := h.ahead
  have hknown := h.known
  rw [hw] at hsize hahead hknown
  simp only [WriterPc.uncounted, if_true] at hsize hahead hknown
  exact { h with
    size := by
      simp only [WriterPc.uncounted, reduceCtorEq, if_false]
      omega
    free := fun hf => nomatch hf
    ahead := by
      simp only [WriterPc.uncounted, reduceCtorEq, if_false]
      omega
    known := fun hk => by
      have := hknown hk
      simp only [WriterPc.uncounted, reduceCtorEq, if_false]
      omega }

/-! ### The reader -/

/-- What the reader knows of it does not lose. -/
theorem frames_know (h : FramesOk m kept s lo) {n : Int} (hr : s.reader = .idle)
    (hn : n ≤ s.f.nbRemaining) : FramesOk m kept { s with known := n } lo := by
  have hsize := h.size
  rw [hr] at hsize
  simp only [ReaderPc.counted, reduceCtorEq, if_false] at hsize
  simp only [FrameQueue.nbRemaining] at hn
  exact { h with known := fun _ => by simp only; omega }

theorem FramesOk.taken_length (h : FramesOk m kept s lo) :
    s.taken.length = lo + s.f.rindexShown := by
  have hahead := h.ahead
  rw [h.taken, List.length_take]
  omega

/-- **The next frame**, where the reader knows that there is one. -/
theorem FramesOk.peek (h : FramesOk m kept s lo) (hk : 0 < s.known) :
    ∃ p, s.pushed[s.taken.length]? = some p ∧ s.f.peek = some p := by
  have hknown := h.known hk
  have hlt : lo + s.f.rindexShown < s.pushed.length := by omega
  rw [h.taken_length, FrameQueue.peek, h.maxSize, h.rindex, Nat.mod_add_mod,
    h.slots _ (Nat.le_add_right _ _) hlt]
  exact ⟨_, List.getElem?_eq_getElem hlt, List.getElem?_eq_getElem hlt⟩

/-- **The frame behind it.** -/
theorem FramesOk.peekNext (h : FramesOk m kept s lo) (hk : 1 < s.known) :
    ∃ p, s.pushed[s.taken.length + 1]? = some p ∧ s.f.peekNext = some p := by
  have hknown := h.known (by omega)
  have hlt : lo + s.f.rindexShown + 1 < s.pushed.length := by omega
  rw [h.taken_length, FrameQueue.peekNext, h.maxSize, h.rindex, Nat.add_assoc (lo % m),
    Nat.mod_add_mod, ← Nat.add_assoc, h.slots _ (by omega) hlt]
  exact ⟨_, List.getElem?_eq_getElem hlt, List.getElem?_eq_getElem hlt⟩

/-- **The last frame shown**, where the queue keeps it. -/
theorem FramesOk.peekLast (h : FramesOk m kept s lo) (hs : s.f.rindexShown = 1) :
    ∃ p, s.taken.getLast? = some p ∧ s.f.peekLast = some p := by
  have hahead := h.ahead
  have hlt : lo < s.pushed.length := by omega
  rw [FrameQueue.peekLast, h.rindex, h.slots lo (Nat.le_refl lo) hlt, h.taken, hs,
    List.getLast?_take]
  simp [hlt]

theorem FramesOk.taken_next (h : FramesOk m kept s lo) (hk : 0 < s.known) :
    s.taken ++ s.f.peek.toList = s.pushed.take (lo + s.f.rindexShown + 1) := by
  obtain ⟨p, hp, hpeek⟩ := h.peek hk
  rw [hpeek, ← hp, h.taken_length, h.taken, List.take_add_one]

/-- **Going on.** -/
theorem frames_next (h : FramesOk m kept s lo) (hm : 0 < m) (hr : s.reader = .idle)
    (hk : 0 < s.known) : ∃ lo', FramesOk m kept (s.goOn unref) lo' := by
  have hknown := h.known hk
  have hsize := h.size
  have hroom := h.room
  have hfree := h.free
  rw [hr] at hsize hroom hfree
  simp only [ReaderPc.counted, reduceCtorEq, if_false] at hsize hroom hfree
  have htaken := h.taken_next hk
  unfold Frames.goOn
  by_cases hc : s.f.keepLast = true ∧ s.f.rindexShown = 0
  · -- the first frame shown stays in its slot
    rw [if_pos hc]
    rw [hc.2] at hknown htaken
    exact ⟨lo, { h with
      shown := by
        rw [← h.keepLast, hc.1]
        exact Nat.le_refl 1
      ahead := by
        simp only
        omega
      known := fun hk => absurd hk (Int.lt_irrefl _)
      taken := htaken }⟩
  · rw [if_neg hc]
    exact ⟨lo + 1, {
      slots := by
        show InSlots m (s.f.queue.modify s.f.rindex unref) s.pushed (lo + 1)
        rw [h.rindex]
        exact inSlots_drop h.slots (by omega) unref
      length := by
        show m ≤ (s.f.queue.modify s.f.rindex unref).length
        rw [List.length_modify]
        exact h.length
      maxSize := h.maxSize
      keepLast := h.keepLast
      windex := h.windex
      rindex := by
        show wrap s.f.maxSize s.f.rindex = _
        rw [h.maxSize, h.rindex, wrap_mod hm]
      size := by
        simp only [FrameQueue.discard, ReaderPc.counted, if_true]
        omega
      room := by
        simp only [ReaderPc.counted, if_true]
        omega
      free := fun hw => by
        have := hfree hw
        simp only [ReaderPc.counted, if_true]
        omega
      shown := h.shown
      ahead := by
        simp only [FrameQueue.discard]
        omega
      known := fun hk => absurd hk (Int.lt_irrefl _)
      taken := by
        show _ = s.pushed.take (lo + 1 + s.f.rindexShown)
        rw [Nat.add_right_comm]
        exact htaken }⟩

theorem frames_uncount (h : FramesOk m kept s lo) (hr : s.reader = .leaving) :
    FramesOk m kept { s with f.size := s.f.size - 1, reader := .idle } lo := by
  have hsize := h.size
  have hroom := h.room
  have hfree := h.free
  rw [hr] at hsize hroom hfree
  simp only [ReaderPc.counted, if_true] at hsize hroom hfree
  exact { h with
    size := by
      simp only [ReaderPc.counted, reduceCtorEq, if_false]
      omega
    room := by
      simp only [ReaderPc.counted, reduceCtorEq, if_false]
      omega
    free := fun hw => by
      have := hfree hw
      simp only [ReaderPc.counted, reduceCtorEq, if_false]
      omega }

/-- **One step.** -/
theorem frames_step (h : FramesOk m kept s lo) (hm : 0 < m) {a : FramesAct α}
    (ht : s.step unref a = some t) : ∃ lo', FramesOk m kept t lo' := by
  cases a with
  | abort =>
    cases ht
    exact ⟨lo, { h with }⟩
  | writable =>
    simp only [Frames.step] at ht
    split at ht
    case isTrue hw =>
      split at ht
      · cases ht
        exact ⟨lo, h.writerAt (by rw [hw]; rfl) rfl (by decide)⟩
      · split at ht
        case isTrue hs =>
          cases ht
          exact ⟨lo, frames_writable h hw hs⟩
        case isFalse => cases ht
    case isFalse => cases ht
  | write v =>
    simp only [Frames.step] at ht
    split at ht
    case isTrue hw =>
      cases ht
      exact ⟨lo, frames_write h hw v⟩
    case isFalse => cases ht
  | leave =>
    simp only [Frames.step] at ht
    split at ht
    case isTrue hw =>
      cases ht
      exact ⟨lo, h.writerAt (by rw [hw]; rfl) rfl (by decide)⟩
    case isFalse => cases ht
  | advance =>
    simp only [Frames.step] at ht
    split at ht
    case isTrue hw =>
      cases ht
      exact ⟨lo, frames_advance h hm hw⟩
    case isFalse => cases ht
  | count =>
    simp only [Frames.step] at ht
    split at ht
    case isTrue hw =>
      cases ht
      exact ⟨lo, frames_count h hw⟩
    case isFalse => cases ht
  | remaining =>
    simp only [Frames.step] at ht
    split at ht
    case isTrue hr =>
      cases ht
      exact ⟨lo, frames_know h hr (Int.le_refl _)⟩
    case isFalse => cases ht
  | readable =>
    simp only [Frames.step] at ht
    split at ht
    case isTrue hr =>
      split at ht
      · cases ht
        refine ⟨lo, { h with size := ?_, room := ?_, free := ?_ }⟩
        · have hsize := h.size
          rw [hr] at hsize
          exact hsize
        · have hroom := h.room
          rw [hr] at hroom
          exact hroom
        · have hfree := h.free
          rw [hr] at hfree
          exact hfree
      · split at ht
        case isTrue hpos =>
          cases ht
          exact ⟨lo, frames_know h hr hpos⟩
        case isFalse => cases ht
    case isFalse => cases ht
  | next =>
    simp only [Frames.step] at ht
    split at ht
    case isTrue hc =>
      cases ht
      exact frames_next h hm hc.1 hc.2
    case isFalse => cases ht
  | uncount =>
    simp only [Frames.step] at ht
    split at ht
    case isTrue hr =>
      cases ht
      exact ⟨lo, frames_uncount h hr⟩
    case isFalse => cases ht

end Ok

/-! ## 4. What the reader sees -/

section Reader

variable {α : Type} {unref : α → α} {blank : α} {maxSize : Nat} {keepLast : Bool} {s : Frames α}

theorem frames_ok (hm : 0 < maxSize)
    (h : (frames unref blank maxSize keepLast).Reach Machine.Any s) :
    ∃ lo, FramesOk (min maxSize FRAME_QUEUE_SIZE) keepLast s lo := by
  refine h.invariant (I := fun s => ∃ lo, FramesOk (min maxSize FRAME_QUEUE_SIZE) keepLast s lo)
    ⟨0, frames_start blank⟩ ?_
  rintro u a v ⟨lo, hu⟩ - hs
  exact frames_step hu (by simp [FRAME_QUEUE_SIZE, hm]) hs

/-- **Each frame once, in their order, none touched.** However the writer and the reader take
    turns, also between an index and the mutex: the frames the reader went on by are the first
    ones that were pushed, as the writer left them; the one it looks at next is the next of these;
    so is the one behind it; the last one it went on by, if the queue keeps it, is still in its
    slot; and the number in the queue never passes `max_size`, which is as the queue was made. -/
theorem taken_inOrder (hm : 0 < maxSize)
    (h : (frames unref blank maxSize keepLast).Reach Machine.Any s) :
    s.taken <+: s.pushed ∧
      (0 < s.known → ∃ p, s.pushed[s.taken.length]? = some p ∧ s.f.peek = some p) ∧
      (1 < s.known → ∃ p, s.pushed[s.taken.length + 1]? = some p ∧ s.f.peekNext = some p) ∧
      (s.f.rindexShown = 1 → ∃ p, s.taken.getLast? = some p ∧ s.f.peekLast = some p) ∧
      0 ≤ s.f.size ∧ s.f.size ≤ s.f.maxSize ∧
      s.f.maxSize = min maxSize FRAME_QUEUE_SIZE := by
  obtain ⟨lo, hok⟩ := frames_ok hm h
  have hsize := hok.size
  have hahead := hok.ahead
  have hroom := hok.room
  have hmax := hok.maxSize
  refine ⟨hok.taken ▸ List.take_prefix _ _, hok.peek, hok.peekNext, hok.peekLast, ?_, ?_, hmax⟩ <;>
    omega

/-- Four frames through three slots, while the last one shown is kept. -/
def aroundOnce : List (FramesAct Nat) :=
  [.writable, .write 10, .advance, .count, .writable, .write 11, .advance, .remaining, .next,
    .count, .writable, .write 12, .advance, .count, .remaining, .next, .uncount, .remaining, .next,
    .uncount, .writable, .write 13, .advance, .count, .remaining]

theorem taken_inOrder_around : ∃ s, (frames id 0 3 true).Reach Machine.Any s ∧
    s.taken = [10, 11, 12] ∧ s.f.peekLast = some 12 ∧ s.f.peek = some 13 ∧ s.f.windex = 1 ∧
    s.taken <+: s.pushed := by
  obtain ⟨s, hs, htaken, hlast, hpeek, hwindex⟩ : ∃ s,
      (frames id 0 3 true).exec (frames id 0 3 true).init aroundOnce = some s ∧
      s.taken = [10, 11, 12] ∧ s.f.peekLast = some 12 ∧ s.f.peek = some 13 ∧ s.f.windex = 1 :=
    ⟨_, rfl, rfl, rfl, rfl, rfl⟩
  have hreach := Machine.steps_of_exec hs (Machine.meets_any _ _)
  exact ⟨s, hreach, htaken, hlast, hpeek, hwindex, (taken_inOrder (by decide) hreach).1⟩

/-- Both threads wait in their calls, and nobody has stopped the stream. -/
def Frames.Stuck (unref : α → α) (s : Frames α) : Prop :=
  s.abortRequest = false ∧ s.writer = .idle ∧ s.reader = .idle ∧
    s.step unref .writable = none ∧ s.step unref .readable = none

theorem stuck_full (h : s.Stuck unref) : s.f.maxSize ≤ s.f.size ∧ s.f.size ≤ s.f.rindexShown := by
  obtain ⟨ha, hw, hr, hfull, hnone⟩ := h
  simp only [Frames.step, ha, hw, if_true, Bool.false_eq_true, if_false] at hfull
  simp only [Frames.step, ha, hr, if_true, Bool.false_eq_true, if_false,
    FrameQueue.nbRemaining] at hnone
  split at hfull
  · cases hfull
  · split at hnone
    · cases hnone
    · omega

/-- One frame, shown. -/
def showOne : List (FramesAct α) := [.writable, .advance, .count, .remaining, .next]

/-- **When they wait for one another**: only if the one slot there is keeps the last frame. -/
theorem stuck_iff (hm : 0 < maxSize) :
    (∃ s, (frames unref blank maxSize keepLast).Reach Machine.Any s ∧ s.Stuck unref) ↔
      keepLast = true ∧ maxSize = 1 := by
  constructor
  · rintro ⟨s, h, hstuck⟩
    obtain ⟨lo, hok⟩ := frames_ok hm h
    obtain ⟨hfull, hshown⟩ := stuck_full hstuck
    have hbound := hok.shown
    rw [hok.maxSize] at hfull
    cases keepLast with
    | false =>
      simp only [Bool.false_eq_true, if_false] at hbound
      simp only [FRAME_QUEUE_SIZE] at hfull
      omega
    | true =>
      simp only [if_true] at hbound
      simp only [FRAME_QUEUE_SIZE] at hfull
      exact ⟨rfl, by omega⟩
  · rintro ⟨rfl, rfl⟩
    obtain ⟨t, ht, hstuck⟩ : ∃ t, (frames unref blank 1 true).exec (.start blank 1 true) showOne =
        some t ∧ t.Stuck unref := ⟨_, rfl, rfl, rfl, rfl, rfl, rfl⟩
    exact ⟨t, Machine.steps_of_exec ht (Machine.meets_any _ _), hstuck⟩

theorem stuck_iff_one : ∃ s, (frames id 0 1 true).Reach Machine.Any s ∧ s.Stuck id :=
  (stuck_iff (by decide)).mpr ⟨rfl, rfl⟩

end Reader

end Viral.Ijk
