/-
  File:      ViralEngine/Upload/Transfer.lean
  Subject:   A FILE, ITS CHUNKS, `upload()` AND A SERVER THAT KEEPS THE PROTOCOL
             (ctus-main/lib/ctus/src/ctus/TusClient.cpp, `upload`, `getUploadInfo`, `uploadChunks`,
             `uploadChunk`, `cancel`, `pause`, with http/HttpClient.cpp, `execute`, `abortAll`, and
             chunk/FileChunker.cpp).

  `uploadStep` takes what the network answers from outside. Here the other side is a server of the
  protocol: behind a POST its resource is empty, HEAD answers how much it has, a PATCH at that
  offset is appended and answered with the new one, and a DELETE takes the resource away. An answer
  may be lost, with any part of the body taken.

  All requests go through one queue, which the thread of `upload()` shares with the poller's, and
  with it `m_abort`. `abortAll` in `pause()` and `cancel()` empties the queue and sets the flag; the
  thread that then comes upon either inside `execute()` returns, and no callback is called. A round
  of `execute` locks twice and is one step here: an `abortAll` in between would free the handle it
  has in its hands.

  A `cancel()` that comes when the client is READY is stored over by UPLOADING, and its `abortAll`
  drops a request of an upload that goes on. `NoneTooEarly` are the steps that begin no such call.

  * `stoi` -- the offsets and lengths as the client reads them;
  * `Transfer`, `TransferAct`, `transfer` -- both sides, the queue and the poller;
  * `TransferMove`, `step_move` -- every move, with what it finds.
-/
import ViralEngine.Upload.Chunks
import ViralEngine.Upload.Completion
import ViralEngine.Upload.References

namespace Viral.Upload

open Viral.Lib

/-! ## 1. Both sides -/

/-- `std::stoi` of a number without a sign: it throws beyond an `int`. -/
def stoi (n : Nat) : Option Int := if n < 2 ^ 31 then some n else none

/-- The requests in `m_requestsQueue`: that of `upload()`, and the DELETE of `cancel()`. -/
inductive Request where
  | own
  | delete
  deriving DecidableEq, Repr

/-- The threads that call `execute()`. -/
inductive Caller where
  | upload
  | poller
  deriving DecidableEq, Repr

/-- The thread of `upload()` is outside of `execute()`, or inside with its request not performed
    yet, or inside behind that. -/
inductive Waiting where
  | outside
  | unanswered
  | answered
  deriving DecidableEq, Repr

/-- The places of the poller's thread: outside of both calls; in `pause()` behind its test; in front
    of the loop of `abortAll()` and behind it, called by `cancel()` or by `pause()`; in `cancel()`
    in front of its DELETE, and inside `execute()`; and behind an exception. -/
inductive CallPlace where
  | idle
  | pausing
  | aborting (cancels : Bool)
  | emptied (cancels : Bool)
  | deleting
  | executing
  | left
  deriving DecidableEq, Repr

/-- An upload. `place` is that of the client, `resource` what the server has, and `gone` holds
    behind a DELETE. -/
structure Transfer where
  client : TusClient
  place : Outcome
  waiting : Waiting
  chunks : List (List UInt8)
  resource : List UInt8
  gone : Bool
  queue : List Request
  abort : Bool
  poller : CallPlace

/-- The places in front of a request. -/
def UploadPc.requests : UploadPc → Bool
  | .post | .head | .patch _ => true
  | _ => false

/-- The place behind a request without a callback. -/
def UploadPc.dropped : UploadPc → UploadPc
  | .post => .head
  | .head => .save
  | .patch i => .loop (i + 1)
  | pc => pc

/-- The same, of the client. -/
def Outcome.dropped : Outcome → Outcome
  | .at pc => .at pc.dropped
  | o => o

/-- Nothing goes over the wire. -/
def TusEvent.Own : TusEvent → Prop
  | .go | .loadFailed | .throws _ => True
  | _ => False

/-- No good answer comes back. -/
def TusEvent.Lost : TusEvent → Prop
  | .rejected | .netError _ => True
  | _ => False

/-- Nothing is answered that the client stores. -/
def TusEvent.Quiet : TusEvent → Prop
  | .chunked _ _ | .posted _ | .info _ _ | .patched _ => False
  | _ => True

instance : DecidablePred TusEvent.Own
  | .go | .loadFailed | .throws _ => .isTrue trivial
  | .chunked _ _ | .posted _ | .info _ _ | .patched _ | .rejected | .aborted | .netError _ =>
    .isFalse id

instance : DecidablePred TusEvent.Lost
  | .rejected | .netError _ => .isTrue trivial
  | .go | .chunked _ _ | .posted _ | .info _ _ | .patched _ | .aborted | .loadFailed
  | .throws _ => .isFalse id

theorem TusEvent.Own.quiet {e : TusEvent} (h : e.Own) : e.Quiet := by
  cases e with
  | go | loadFailed | throws => trivial
  | chunked | posted | info | patched | rejected | aborted | netError => exact h.elim

theorem TusEvent.Lost.quiet {e : TusEvent} (h : e.Lost) : e.Quiet := by
  cases e with
  | rejected | netError => trivial
  | go | chunked | posted | info | patched | aborted | loadFailed | throws => exact h.elim

/-- The steps: of the client alone `own`, `cut`, `cutFailed` and `push`; inside `execute()`, of
    either thread, `post` to `leave`; and of the poller's thread. -/
inductive TransferAct where
  | own (e : TusEvent)
  | cut
  | cutFailed
  | push
  | post (t : Caller) (location : String)
  | info (t : Caller)
  | patch (t : Caller)
  | lost (t : Caller) (taken : Nat) (e : TusEvent)
  | deleted (t : Caller) (done : Bool)
  | leave (t : Caller)
  | pauseTest
  | pauseStore
  | cancel
  | empty
  | abort
  | delete
  deriving DecidableEq, Repr

namespace Transfer

/-- In front of `upload()`. -/
def start : Transfer := ⟨{}, .at .chunkFile, .outside, [], [], false, [], false, .idle⟩

/-- A move of `upload()` outside of `execute()`. -/
def move (s : Transfer) (e : TusEvent) : Option Transfer :=
  match s.place, s.waiting with
  | .at pc, .outside =>
    (s.client.uploadStep pc e).map fun r => { s with client := r.1, place := r.2 }
  | _, _ => none

/-- The request is put into the queue, and `execute()` called. -/
def push (s : Transfer) : Option Transfer :=
  match s.place, s.waiting with
  | .at pc, .outside =>
    if pc.requests = true then
      some { s with waiting := .unanswered, queue := s.queue ++ [.own] }
    else none
  | _, _ => none

/-- The thread is inside `execute()`. -/
def Executes (s : Transfer) : Caller → Prop
  | .upload => s.waiting ≠ .outside
  | .poller => s.poller = .executing

instance (s : Transfer) : DecidablePred s.Executes
  | .upload => inferInstanceAs (Decidable (_ ≠ _))
  | .poller => inferInstanceAs (Decidable (_ = _))

/-- Behind the callback of the request of `upload()`. An exception leaves `execute()` in front of
    the `pop()`, and it leaves the call that `execute()` was called in. -/
def answer (s : Transfer) (t : Caller) (queue : List Request) (c : TusClient) :
    Outcome → Transfer
  | .at pc => { s with client := c, place := .at pc, waiting := .answered, queue := queue }
  | o =>
    match t with
    | .upload => { s with client := c, place := o, waiting := .outside }
    | .poller => { s with client := c, poller := .left }

/-- A round of `execute()` with the request of `upload()`, whose callback is told `e`. -/
def perform (s : Transfer) (t : Caller) (e : TusEvent) : Option Transfer :=
  if s.Executes t ∧ s.abort = false ∧ s.waiting = .unanswered then
    match s.queue, s.place with
    | .own :: queue, .at pc => (s.client.uploadStep pc e).map fun r => s.answer t queue r.1 r.2
    | _, _ => none
  else none

/-- A round of `execute()` with the DELETE, which tells `upload()` nothing. -/
def delete (s : Transfer) (t : Caller) (done : Bool) : Option Transfer :=
  match s.queue with
  | .delete :: queue =>
    if s.Executes t ∧ s.abort = false then
      some { s with
        queue := queue
        resource := if done then [] else s.resource
        gone := s.gone || done }
    else none
  | _ => none

/-- The last round of `execute()`: `m_abort` is set, or nothing is left. A request that has not been
    performed is dropped. -/
def leave (s : Transfer) (t : Caller) : Option Transfer :=
  if s.Executes t ∧ (s.abort = true ∨ s.queue = []) then
    match t with
    | .upload =>
      some { s with
        place := if s.waiting = .unanswered then s.place.dropped else s.place
        waiting := .outside, queue := [], abort := false }
    | .poller => some { s with queue := [], abort := false, poller := .idle }
  else none

/-- The body the server takes: that of the PATCH under way, if its `Upload-Offset` is the end of
    what the server has. -/
def body (s : Transfer) : Option (List UInt8) :=
  match s.place with
  | .at (.patch i) =>
    if s.gone = false ∧ s.client.uploadOffset = s.resource.length then s.chunks[i.toNat]? else none
  | _ => none

/-- **One step.** -/
def step (chunkSize : Int) (file : List UInt8) (s : Transfer) : TransferAct → Option Transfer
  | .own e => if e.Own then s.move e else none
  | .cut =>
    { s with chunks := (FileChunker.loaded chunkSize file).chunks }.move
      (.chunked (FileChunker.loaded chunkSize file).chunkNumber file.length)
  | .cutFailed =>
    -- a file of a chunk cannot be made; with no chunks there is none to make
    if 0 < (FileChunker.loaded chunkSize file).chunkNumber then
      s.move (.chunked (-1) file.length)
    else none
  | .push => s.push
  | .post t location => { s with resource := [], gone := false }.perform t (.posted location)
  | .info t =>
    if s.gone then none else s.perform t (.info (stoi s.resource.length) (stoi file.length))
  | .patch t =>
    s.body.bind fun body =>
      { s with resource := s.resource ++ body }.perform t
        (.patched (stoi (s.resource ++ body).length))
  | .lost t taken e =>
    if e.Lost then
      { s with resource := s.resource ++ (s.body.getD []).take taken }.perform t e
    else none
  | .deleted t done => s.delete t done
  | .leave t => s.leave t
  | .pauseTest =>
    if s.poller = .idle then
      some { s with poller := if s.client.status = .uploading then .pausing else .idle }
    else none
  | .pauseStore =>
    if s.poller = .pausing then
      some { s with client := s.client.pauseStore, poller := .aborting false }
    else none
  | .cancel =>
    if s.poller = .idle then
      if s.client.tusLocation = "" then some s
      else some { s with client := s.client.cancelNow, poller := .aborting true }
    else none
  | .empty =>
    match s.poller with
    | .aborting cancels => some { s with queue := [], poller := .emptied cancels }
    | _ => none
  | .abort =>
    match s.poller with
    | .emptied cancels =>
      some { s with abort := true, poller := if cancels then .deleting else .idle }
    | _ => none
  | .delete =>
    if s.poller = .deleting then
      some { s with queue := s.queue ++ [.delete], poller := .executing }
    else none

end Transfer

/-- **An upload of a file**, with the size of the chunks that the client is given. -/
def transfer (chunkSize : Int) (file : List UInt8) : Machine Transfer TransferAct :=
  ⟨.start, Transfer.step chunkSize file⟩

/-- `cancel()` does not come while the client is READY, unless there is no upload to cancel yet. -/
def NoneTooEarly (s : Transfer) : TransferAct → Prop
  | .cancel => s.client.status = .ready → s.client.tusLocation = ""
  | _ => True

instance (s : Transfer) : (a : TransferAct) → Decidable (NoneTooEarly s a)
  | .cancel => inferInstanceAs (Decidable (_ → _))
  | .own _ | .cut | .cutFailed | .push | .post _ _ | .info _ | .patch _ | .lost _ _ _
  | .deleted _ _ | .leave _ | .pauseTest | .pauseStore | .empty | .abort | .delete =>
    inferInstanceAs (Decidable True)

/-! ## 2. The moves -/

section Moves

variable {chunkSize : Int} {file : List UInt8} {s t : Transfer} {e : TusEvent} {caller : Caller}

/-- **The moves of a transfer**, with what each finds in front of it. -/
inductive TransferMove (chunkSize : Int) (file : List UInt8) (s : Transfer) :
    TransferAct → Transfer → Prop where
  | own (e : TusEvent) (pc : UploadPc) (c : TusClient) (o : Outcome) (he : e.Own)
      (hpc : s.place = .at pc) (hout : s.waiting = .outside)
      (hs : s.client.uploadStep pc e = some (c, o)) :
      TransferMove chunkSize file s (.own e) { s with client := c, place := o }
  | cut (pc : UploadPc) (c : TusClient) (o : Outcome) (hpc : s.place = .at pc)
      (hout : s.waiting = .outside)
      (hs : s.client.uploadStep pc
        (.chunked (FileChunker.loaded chunkSize file).chunkNumber file.length) = some (c, o)) :
      TransferMove chunkSize file s .cut
        { s with chunks := (FileChunker.loaded chunkSize file).chunks, client := c, place := o }
  | cutFailed (pc : UploadPc) (c : TusClient) (o : Outcome)
      (hnumber : 0 < (FileChunker.loaded chunkSize file).chunkNumber) (hpc : s.place = .at pc)
      (hout : s.waiting = .outside)
      (hs : s.client.uploadStep pc (.chunked (-1) file.length) = some (c, o)) :
      TransferMove chunkSize file s .cutFailed { s with client := c, place := o }
  | push (pc : UploadPc) (hpc : s.place = .at pc) (hout : s.waiting = .outside)
      (hr : pc.requests = true) :
      TransferMove chunkSize file s .push
        { s with waiting := .unanswered, queue := s.queue ++ [.own] }
  | post (caller : Caller) (location : String) (t : Transfer)
      (ht : { s with resource := [], gone := false }.perform caller (.posted location) = some t) :
      TransferMove chunkSize file s (.post caller location) t
  | info (caller : Caller) (t : Transfer)
      (ht : s.perform caller (.info (stoi s.resource.length) (stoi file.length)) = some t) :
      TransferMove chunkSize file s (.info caller) t
  | patch (caller : Caller) (i : Int) (body : List UInt8) (t : Transfer)
      (hpc : s.place = .at (.patch i)) (hbody : s.body = some body)
      (ht : { s with resource := s.resource ++ body }.perform caller
        (.patched (stoi (s.resource ++ body).length)) = some t) :
      TransferMove chunkSize file s (.patch caller) t
  | lost (caller : Caller) (taken : Nat) (e : TusEvent) (t : Transfer) (he : e.Lost)
      (ht : { s with resource := s.resource ++ (s.body.getD []).take taken }.perform caller e =
        some t) :
      TransferMove chunkSize file s (.lost caller taken e) t
  | deleted (caller : Caller) (done : Bool) (queue : List Request)
      (hqueue : s.queue = .delete :: queue) (hx : s.Executes caller) (ha : s.abort = false) :
      TransferMove chunkSize file s (.deleted caller done)
        { s with
          queue := queue, resource := if done then [] else s.resource, gone := s.gone || done }
  | leaveUpload (hx : s.waiting ≠ .outside) (hend : s.abort = true ∨ s.queue = []) :
      TransferMove chunkSize file s (.leave .upload)
        { s with
          place := if s.waiting = .unanswered then s.place.dropped else s.place
          waiting := .outside, queue := [], abort := false }
  | leavePoller (hx : s.poller = .executing) :
      TransferMove chunkSize file s (.leave .poller)
        { s with queue := [], abort := false, poller := .idle }
  | pauseTest (hp : s.poller = .idle) :
      TransferMove chunkSize file s .pauseTest
        { s with poller := if s.client.status = .uploading then .pausing else .idle }
  | pauseStore (hp : s.poller = .pausing) :
      TransferMove chunkSize file s .pauseStore
        { s with client := s.client.pauseStore, poller := .aborting false }
  | cancelNothing (hp : s.poller = .idle) (hlocation : s.client.tusLocation = "") :
      TransferMove chunkSize file s .cancel s
  | cancel (hp : s.poller = .idle) (hlocation : s.client.tusLocation ≠ "") :
      TransferMove chunkSize file s .cancel
        { s with client := { s.client with status := .canceled }, poller := .aborting true }
  | empty (cancels : Bool) (hp : s.poller = .aborting cancels) :
      TransferMove chunkSize file s .empty { s with queue := [], poller := .emptied cancels }
  | abort (cancels : Bool) (hp : s.poller = .emptied cancels) :
      TransferMove chunkSize file s .abort
        { s with abort := true, poller := if cancels then .deleting else .idle }
  | delete (hp : s.poller = .deleting) :
      TransferMove chunkSize file s .delete
        { s with queue := s.queue ++ [.delete], poller := .executing }

theorem move_some (h : s.move e = some t) : ∃ pc c o, s.place = .at pc ∧ s.waiting = .outside ∧
    s.client.uploadStep pc e = some (c, o) ∧ t = { s with client := c, place := o } := by
  unfold Transfer.move at h
  split at h
  case h_1 pc hpc hout =>
    obtain ⟨⟨c, o⟩, hs, rfl⟩ := Option.map_eq_some_iff.mp h
    exact ⟨pc, c, o, hpc, hout, hs, rfl⟩
  case h_2 => cases h

/-- A round of `execute()` with the request of `upload()`. -/
theorem perform_some (h : s.perform caller e = some t) : ∃ queue pc c o, s.Executes caller ∧
    s.abort = false ∧ s.waiting = .unanswered ∧ s.queue = .own :: queue ∧ s.place = .at pc ∧
      s.client.uploadStep pc e = some (c, o) ∧ t = s.answer caller queue c o := by
  unfold Transfer.perform at h
  split at h
  case isTrue hif =>
    obtain ⟨hx, ha, hw⟩ := hif
    split at h
    case h_1 queue pc hqueue hpc =>
      obtain ⟨⟨c, o⟩, hs, rfl⟩ := Option.map_eq_some_iff.mp h
      exact ⟨queue, pc, c, o, hx, ha, hw, hqueue, hpc, hs, rfl⟩
    case h_2 => cases h
  case isFalse => cases h

/-- **Every step is one of the moves.** -/
theorem step_move {a : TransferAct} (h : s.step chunkSize file a = some t) :
    TransferMove chunkSize file s a t := by
  cases a with
  | own e =>
    simp only [Transfer.step] at h
    split at h
    case isTrue he =>
      obtain ⟨pc, c, o, hpc, hout, hs, rfl⟩ := move_some h
      exact .own e pc c o he hpc hout hs
    case isFalse => cases h
  | cut =>
    obtain ⟨pc, c, o, hpc, hout, hs, rfl⟩ := move_some h
    exact .cut pc c o hpc hout hs
  | cutFailed =>
    simp only [Transfer.step] at h
    split at h
    case isTrue hnumber =>
      obtain ⟨pc, c, o, hpc, hout, hs, rfl⟩ := move_some h
      exact .cutFailed pc c o hnumber hpc hout hs
    case isFalse => cases h
  | push =>
    simp only [Transfer.step, Transfer.push] at h
    split at h
    case h_1 pc hpc hout =>
      split at h
      case isTrue hr =>
        cases h
        exact .push pc hpc hout hr
      case isFalse => cases h
    case h_2 => cases h
  | post caller location => exact .post caller location t h
  | info caller =>
    simp only [Transfer.step] at h
    split at h
    · cases h
    · exact .info caller t h
  | patch caller =>
    obtain ⟨body, hbody, ht⟩ := Option.bind_eq_some_iff.mp h
    obtain ⟨i, hpc⟩ : ∃ i, s.place = .at (.patch i) := by
      unfold Transfer.body at hbody
      split at hbody
      case h_1 i hpc => exact ⟨i, hpc⟩
      case h_2 => cases hbody
    exact .patch caller i body t hpc hbody ht
  | lost caller taken e =>
    simp only [Transfer.step] at h
    split at h
    case isTrue he => exact .lost caller taken e t he h
    case isFalse => cases h
  | deleted caller done =>
    simp only [Transfer.step, Transfer.delete] at h
    split at h
    case h_1 queue hqueue =>
      split at h
      case isTrue hif =>
        cases h
        exact .deleted caller done queue hqueue hif.1 hif.2
      case isFalse => cases h
    case h_2 => cases h
  | leave caller =>
    simp only [Transfer.step, Transfer.leave] at h
    split at h
    case isTrue hif =>
      cases caller with
      | upload =>
        cases h
        exact .leaveUpload hif.1 hif.2
      | poller =>
        cases h
        exact .leavePoller hif.1
    case isFalse => cases h
  | pauseTest =>
    simp only [Transfer.step] at h
    split at h
    case isTrue hp =>
      cases h
      exact .pauseTest hp
    case isFalse => cases h
  | pauseStore =>
    simp only [Transfer.step] at h
    split at h
    case isTrue hp =>
      cases h
      exact .pauseStore hp
    case isFalse => cases h
  | cancel =>
    simp only [Transfer.step] at h
    split at h
    case isTrue hp =>
      split at h
      case isTrue hlocation =>
        cases h
        exact .cancelNothing hp hlocation
      case isFalse hlocation =>
        cases h
        rw [TusClient.cancelNow, if_neg hlocation]
        exact .cancel hp hlocation
    case isFalse => cases h
  | empty =>
    simp only [Transfer.step] at h
    split at h
    case h_1 cancels hp =>
      cases h
      exact .empty cancels hp
    case h_2 => cases h
  | abort =>
    simp only [Transfer.step] at h
    split at h
    case h_1 cancels hp =>
      cases h
      exact .abort cancels hp
    case h_2 => cases h
  | delete =>
    simp only [Transfer.step] at h
    split at h
    case isTrue hp =>
      cases h
      exact .delete hp
    case isFalse => cases h

end Moves

end Viral.Upload
