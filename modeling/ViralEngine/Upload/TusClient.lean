/-
  File:      ViralEngine/Upload/TusClient.lean
  Subject:   ONE ATTEMPT OF `TUS::TusClient` (ctus-main/lib/ctus/src/ctus/TusClient.cpp).

  `upload()` runs on the worker thread while the progress poller may call `cancel()` and
  `pause()` on the same object from its own thread. What the two threads share is the atomic
  `m_status` (and `m_tusLocation`, `m_progress`), so `upload()` is cut at every access to
  `m_status`: `UploadPc` names the place, `uploadStep` makes one move. What the network and the
  file system answer comes in from outside as a `TusEvent`.

  * `TusClient`, `UploadPc`, `TusEvent`, `Outcome` -- the object, the places, the answers;
  * `uploadStep` -- `upload()` with `getUploadInfo`, `uploadChunks`, `uploadChunk`,
    `handleSuccessfulUpload`, `handleUploadError` and `stop` inlined at their places;
  * `cancelNow`, `pauseStore` -- `cancel()`, and the store of `pause()` after its test;
  * `sizeT` -- the conversion of the `int` offset to `size_t` in the two comparisons with
    `m_uploadLength`.

  Request texts, logging and the cache file are not modelled: nothing here reads them.
-/
import Mathlib.Algebra.Ring.Int.Defs
import Mathlib.Data.Rat.Defs
import Mathlib.Data.List.Basic

namespace Viral.Upload

/-- `TUS::TusStatus`. -/
inductive TusStatus where
  | ready | uploading | failed | finished | paused | canceled
  deriving DecidableEq, Repr

/-- The fields of `TusClient` that its methods read and write. `fileSize` is what
    `std::filesystem::file_size` answers for the file. -/
structure TusClient where
  status : TusStatus := .ready
  chunkNumber : Int := 0
  uploadedChunks : Int := 0
  tusLocation : String := ""
  uploadOffset : Int := 0
  uploadLength : Nat := 0
  fileSize : Nat := 0
  progress : ℚ := 0
  token : String := ""

/-- The places of `upload()`. `loop`, `chunk` and `patch` carry the loop counter `i`. -/
inductive UploadPc where
  | chunkFile
  | post
  | head
  | save
  | begin
  | begun
  | loop (i : Int)
  | chunk (i : Int)
  | patch (i : Int)
  | stop
  | stopCheck
  | stopFinish
  | cleanup
  deriving DecidableEq, Repr

/-- What the file system and the network answer. `info` and `patched` carry the header values
    as `std::stoi` parses them (`none`: it throws, and the exception is logged away);
    `netError` is a transport error or a code from 400 on, with the reply's body. A `409` that
    reaches `onPatchSuccess` is no event: `handleUploadConflict` calls `execute()` inside
    `execute()` and waits for ever for `m_queueMutex`. -/
inductive TusEvent where
  | go
  | chunked (n : Int) (size : Nat)
  | posted (location : String)
  | info (offset length : Option Int)
  | patched (offset : Option Int)
  | rejected
  | aborted
  | netError (data : String)
  | loadFailed
  | throws (what : String)
  deriving DecidableEq, Repr

/-- How one move of `upload()` ends. -/
inductive Outcome where
  | at (pc : UploadPc)
  | returned (success : Bool)
  | threw (what : String)
  deriving DecidableEq, Repr

/-- `int` to `size_t`: a negative offset wraps to the top of the 64-bit range. -/
def sizeT (n : Int) : Nat := (n % 2 ^ 64).toNat

/-- The `Location` header behind its last slash, what `onPostSuccess` keeps. -/
def locationName (location : String) : String :=
  String.ofList (location.toList.reverse.takeWhile (· ≠ '/')).reverse

namespace TusClient

/-- The `headSuccess` callback of `getUploadInfo`: both `std::stoi` stand in one `try`, so a
    length is stored only behind a parsed offset. -/
def headSuccess (c : TusClient) (offset length : Option Int) : TusClient :=
  match offset with
  | none => c
  | some o =>
    match length with
    | none => { c with uploadOffset := o }
    | some l => { c with uploadOffset := o, uploadLength := sizeT l }

/-- `handleSuccessfulUpload`. -/
def handleSuccessfulUpload (c : TusClient) (offset : Option Int) : TusClient :=
  if c.status = .canceled then c
  else
    let c := { c with uploadedChunks := c.uploadedChunks + 1 }
    match offset with
    | none => c
    | some o => { c with uploadOffset := o, progress := (o : ℚ) / (c.fileSize : ℚ) * 100 }

/-- `m_uploadOffset < m_uploadLength`, compared as `size_t`. -/
def MoreToSend (c : TusClient) : Prop := sizeT c.uploadOffset < c.uploadLength

instance (c : TusClient) : Decidable c.MoreToSend := inferInstanceAs (Decidable (_ < _))

/-- `m_uploadOffset == m_uploadLength`, compared as `size_t`. -/
def AllSent (c : TusClient) : Prop := sizeT c.uploadOffset = c.uploadLength

instance (c : TusClient) : Decidable c.AllSent := inferInstanceAs (Decidable (_ = _))

/-- **One move of `upload()`.** An event that cannot occur at the place answers `none`; a
    `throws` is an exception other than `TUSException`, which nothing inside `upload()`
    catches. -/
def uploadStep (c : TusClient) : UploadPc → TusEvent → Option (TusClient × Outcome)
  | _, .throws what => some (c, .threw what)
  | .chunkFile, .chunked n size =>
    let c := { c with chunkNumber := n, fileSize := size }
    if n = -1 then some (c, .returned false) else some (c, .at .post)
  | .post, .posted location => some ({ c with tusLocation := locationName location }, .at .head)
  | .post, .netError data => some ({ c with status := .failed }, .threw data)
  | .head, .info offset length => some (c.headSuccess offset length, .at .save)
  | .head, .netError _ =>
    some ({ c with status := .failed }, .threw "Error: Unable to get upload information")
  | .save, .go => some (c, .at .begin)
  | .begin, .go => some ({ c with status := .uploading }, .at .begun)
  | .begun, .loadFailed =>
    if c.chunkNumber = 0 then
      some ({ c with status := .failed }, .threw "Error: Unable to load chunks")
    else none
  | .begun, .go =>
    if c.uploadLength = 0 then some ({ c with status := .finished }, .returned true)
    else some (c, .at (.loop c.uploadedChunks))
  | .loop i, .go =>
    if c.MoreToSend ∧ c.status = .uploading then some (c, .at (.chunk i))
    else some (c, .at .stop)
  | .chunk i, .go =>
    -- `uploadChunk` returns at once when the status has moved on; the loop still counts `i` up
    if c.status ≠ .uploading then some (c, .at (.loop (i + 1)))
    else if c.chunkNumber ≤ i then some (c, .threw "vector::_M_range_check")
    else some (c, .at (.patch i))
  | .patch i, .patched offset => some (c.handleSuccessfulUpload offset, .at (.loop (i + 1)))
  | .patch _, .rejected => some ({ c with status := .failed }, .returned false)
  | .patch i, .aborted =>
    if c.status = .paused ∨ c.status = .canceled then some (c, .at (.loop (i + 1))) else none
  | .patch i, .netError _ =>
    if c.status ≠ .canceled ∧ c.status ≠ .paused then
      some ({ c with status := .failed }, .returned false)
    else some (c, .at (.loop (i + 1)))
  | .stop, .go =>
    if c.status = .paused then some (c, .returned true) else some (c, .at .stopCheck)
  | .stopCheck, .go =>
    if c.AllSent ∧ c.status ≠ .canceled ∧ c.status ≠ .failed then some (c, .at .stopFinish)
    else some (c, .at .cleanup)
  | .stopFinish, .go => some ({ c with status := .finished }, .at .cleanup)
  | .cleanup, .go => some (c, .returned true)
  | _, _ => none

/-- `cancel()`: without an upload location it only logs. -/
def cancelNow (c : TusClient) : TusClient :=
  if c.tusLocation = "" then c else { c with status := .canceled }

/-- The store of `pause()`, behind its test that the status is `UPLOADING`. -/
def pauseStore (c : TusClient) : TusClient := { c with status := .paused }

/-! ## What `upload()` can return -/

/-- A known length is at least the offset: the server has not reported an offset beyond the
    length it reported. -/
def InRange (c : TusClient) : Prop := c.uploadLength ≠ 0 → sizeT c.uploadOffset ≤ c.uploadLength

/-- The event does not bring an offset beyond the length. -/
def OffsetOk (c : TusClient) (e : TusEvent) : Prop :=
  match e with
  | .info (some o) (some l) => sizeT l ≠ 0 → sizeT o ≤ sizeT l
  | .info (some o) none => c.uploadLength ≠ 0 → sizeT o ≤ c.uploadLength
  | .patched (some o) => c.uploadLength ≠ 0 → sizeT o ≤ c.uploadLength
  | _ => True

instance (c : TusClient) : ∀ e : TusEvent, Decidable (c.OffsetOk e)
  | .info (some _) (some _) => inferInstanceAs (Decidable (_ → _))
  | .info (some _) none => inferInstanceAs (Decidable (_ → _))
  | .patched (some _) => inferInstanceAs (Decidable (_ → _))
  | .info none _ | .patched none | .go | .chunked _ _ | .posted _ | .rejected | .aborted
  | .netError _ | .loadFailed | .throws _ => inferInstanceAs (Decidable True)

/-- The transfer was interrupted from the poller's thread. -/
def Interrupted (c : TusClient) : Prop := c.status = .paused ∨ c.status = .canceled

/-- What holds of the object at each place: once UPLOADING is stored, only an interruption or
    the end of the transfer moves the status. -/
def PcOk (c : TusClient) : UploadPc → Prop
  | .begun => c.status = .uploading ∨ c.Interrupted
  | .loop _ | .chunk _ | .patch _ =>
    (c.status = .uploading ∨ c.Interrupted) ∧ c.uploadLength ≠ 0
  | .stop | .stopCheck =>
    (c.status = .uploading ∧ ¬ c.MoreToSend ∨ c.Interrupted) ∧ c.uploadLength ≠ 0
  | .cleanup => c.status = .finished ∨ c.Interrupted
  | _ => True

/-- What holds of the object and the next place behind a move of `upload()`. -/
def OutcomeOk (c : TusClient) : Outcome → Prop
  | .at pc => c.PcOk pc
  | .returned true => c.status = .finished ∨ c.Interrupted
  | _ => True

theorem inRange_headSuccess {c : TusClient} {offset length : Option Int} (hc : c.InRange)
    (he : c.OffsetOk (.info offset length)) : (c.headSuccess offset length).InRange := by
  cases offset with
  | none => exact hc
  | some o =>
    cases length with
    | none => exact he
    | some l => exact he

theorem inRange_handleSuccessfulUpload {c : TusClient} {offset : Option Int} (hc : c.InRange)
    (he : c.OffsetOk (.patched offset)) : (c.handleSuccessfulUpload offset).InRange := by
  unfold handleSuccessfulUpload
  split
  · exact hc
  · cases offset with
    | none => exact hc
    | some o => exact he

@[simp] theorem handleSuccessfulUpload_status (c : TusClient) (offset : Option Int) :
    (c.handleSuccessfulUpload offset).status = c.status := by
  unfold handleSuccessfulUpload
  split
  · rfl
  · cases offset <;> rfl

@[simp] theorem handleSuccessfulUpload_uploadLength (c : TusClient) (offset : Option Int) :
    (c.handleSuccessfulUpload offset).uploadLength = c.uploadLength := by
  unfold handleSuccessfulUpload
  split
  · rfl
  · cases offset <;> rfl

@[simp] theorem headSuccess_status (c : TusClient) (offset length : Option Int) :
    (c.headSuccess offset length).status = c.status := by
  cases offset <;> cases length <;> rfl

/-- The loop is left with everything sent, if the offset is in range. -/
theorem allSent_of_not_more {c : TusClient} (hc : c.InRange) (hlen : c.uploadLength ≠ 0)
    (hmore : ¬ c.MoreToSend) : c.AllSent :=
  Nat.le_antisymm (hc hlen) (Nat.le_of_not_lt hmore)

/-- An interruption from the poller's thread is foreseen at every place. -/
theorem pcOk_interrupt {c c' : TusClient} {pc : UploadPc} (h : c.PcOk pc)
    (hlen : c'.uploadLength = c.uploadLength) (hi : c'.Interrupted) : c'.PcOk pc := by
  cases pc with
  | begun | cleanup => exact Or.inr hi
  | loop i | chunk i | patch i | stop | stopCheck => exact ⟨Or.inr hi, hlen ▸ h.2⟩
  | chunkFile | post | head | save | begin | stopFinish => trivial

/-- **One move of `upload()` keeps the places' invariant**, and where it returns `true` the
    status is FINISHED, PAUSED or CANCELED: the chunk loop was run to its end or left early. -/
theorem uploadStep_ok {c c' : TusClient} {pc : UploadPc} {e : TusEvent} {o : Outcome}
    (h : c.uploadStep pc e = some (c', o)) (hc : c.InRange) (hpc : c.PcOk pc)
    (he : c.OffsetOk e) : c'.InRange ∧ c'.OutcomeOk o := by
  revert h
  fun_cases uploadStep c pc e <;> intro h
  case case11 | case22 | case31 => cases h
  all_goals obtain ⟨rfl, rfl⟩ := Prod.mk.inj (Option.some.inj h)
  case case6 => exact ⟨inRange_headSuccess hc he, trivial⟩
  case case9 => exact ⟨hc, Or.inl rfl⟩
  case case12 => exact ⟨hc, Or.inl rfl⟩
  case case13 hlen => exact ⟨hc, hpc, hlen⟩
  case case14 => exact ⟨hc, hpc⟩
  case case15 hleave =>
    -- the loop is left: nothing more to send, or the status has moved on
    refine ⟨hc, ?_, hpc.2⟩
    rcases hpc.1 with hup | hi
    · exact Or.inl ⟨hup, fun hmore => hleave ⟨hmore, hup⟩⟩
    · exact Or.inr hi
  case case16 => exact ⟨hc, hpc⟩
  case case18 => exact ⟨hc, hpc⟩
  case case19 =>
    refine ⟨inRange_handleSuccessfulUpload hc he, ?_⟩
    simpa only [OutcomeOk, PcOk, Interrupted, handleSuccessfulUpload_status,
      handleSuccessfulUpload_uploadLength] using hpc
  case case21 => exact ⟨hc, hpc⟩
  case case24 => exact ⟨hc, hpc⟩
  case case25 hpaused => exact ⟨hc, Or.inr (Or.inl hpaused)⟩
  case case26 => exact ⟨hc, hpc⟩
  case case28 hnot =>
    refine ⟨hc, Or.inr ?_⟩
    rcases hpc.1 with ⟨hup, hmore⟩ | hi
    · exact absurd ⟨allSent_of_not_more hc hpc.2 hmore, hup ▸ nofun, hup ▸ nofun⟩ hnot
    · exact hi
  case case29 => exact ⟨hc, Or.inl rfl⟩
  case case30 => exact ⟨hc, hpc⟩
  all_goals exact ⟨hc, trivial⟩

/-- Only the poller's thread makes the status PAUSED or CANCELED. -/
theorem uploadStep_interrupted {c c' : TusClient} {pc : UploadPc} {e : TusEvent} {o : Outcome}
    (h : c.uploadStep pc e = some (c', o)) (hi : c'.Interrupted) : c'.status = c.status := by
  revert h
  fun_cases uploadStep c pc e <;> intro h
  case case11 | case22 | case31 => cases h
  all_goals obtain ⟨rfl, rfl⟩ := Prod.mk.inj (Option.some.inj h)
  case case6 => exact headSuccess_status c _ _
  case case19 => exact handleSuccessfulUpload_status c _
  case case5 | case7 | case9 | case10 | case12 | case20 | case23 | case29 =>
    rcases hi with hi | hi <;> cases hi
  all_goals rfl

end TusClient

end Viral.Upload
