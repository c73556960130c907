/-
  File:      ViralEngine/Upload/Engine.lean
  Subject:   THE UPLOAD ENGINE AS A MACHINE OF THREE THREADS
             (ViralEngine/core/ViralUploadEngine.h, ViralUploadEngine.cpp).

  Clients call the engine from any thread; `workerLoop` serves the queue on the worker thread;
  each attempt runs a progress poller beside `TusClient::upload()`. A critical section under
  `m_mutex` is one step; only the poller holds the mutex over several steps (it calls
  `cancel()` and `pause()` under it), and the sections of the others wait for it
  (`State.mutexFree`). Everything the threads read or write outside the mutex is a step of its
  own.

  * `UploadStatus`, `UploadJob`, `StatusNote` -- the records of the header;
  * `enqueue`, `pause`, `resume`, `cancel`, `retry`, `getStatus`, `getProgress`, `getAllJobs`
    -- the client calls;
  * `workerStep` -- `workerLoop` and `processJob`, with `uploadStep` at the place of the
    blocking `upload()`;
  * `pollerStep` -- the `progressPoller` lambda;
  * `engine` -- the machine.

  `m_jobs` is a vector with references into it (Lib/RefVector.lean): the worker and the poller
  keep a reference to their job over the whole attempt, while `enqueue` may move the vector.
-/
import ViralEngine.Lib.Machine
import ViralEngine.Lib.RefVector
import ViralEngine.Upload.TusClient

namespace Viral.Upload

open Viral.Lib

/-! ## 1. Records -/

/-- `UploadStatus`. -/
inductive UploadStatus where
  | queued | compressing | uploading | paused | completed | failed | cancelled
  deriving DecidableEq, Repr

/-- `UploadJob`. -/
structure UploadJob where
  id : String
  filePath : String
  serverUrl : String
  title : String
  description : String
  status : UploadStatus
  progress : ℚ
  retryCount : Int

/-- `VIRAL_UPLOAD_MAX_RETRY`. -/
def viralUploadMaxRetry : Int := 3

/-- `VIRAL_UPLOAD_QUEUE_MAX`. -/
def viralUploadQueueMax : Int := 10

/-- One call of `m_statusCb`. -/
structure StatusNote where
  jobId : String
  status : UploadStatus
  message : String
  deriving DecidableEq, Repr

/-! ## 2. Threads -/

/-- The places of `workerLoop` and, from `start` on, of `processJob`. `jobId` and `job` are the
    locals of the source: the popped id and the reference `jobPtr`. -/
inductive WorkerPc where
  | head
  | testPaused
  | testEmpty
  | pop
  | find (jobId : String)
  | check (jobId : String) (job : Ref)
  | start (jobId : String) (job : Ref)
  | notify (job : Ref)
  | construct (job : Ref)
  | spawn (job : Ref)
  | upload (job : Ref) (pc : UploadPc)
  | returned (job : Ref) (success : Bool)
  | join (job : Ref) (success : Bool)
  | result (job : Ref) (success : Bool)
  | caught (job : Ref) (what : String)
  | finished
  | terminated
  deriving DecidableEq, Repr

/-- The places of the `progressPoller` lambda. From `cancel` to `setDone` it holds `m_mutex`. -/
inductive PollerPc where
  | none
  | loop
  | read
  | store (p : ℚ)
  | report (p : ℚ)
  | check
  | cancel
  | pauseTest
  | pauseStore
  | setDone
  | exited
  deriving DecidableEq

/-- What an exception that leaves `upload()` does. The `std::thread` of the poller is still
    joinable when the `try` block is left, and destroying it ends the process; `reachesCatch`
    is the engine in which the exception gets to the `catch` clause. -/
inductive Unwind where
  | terminates | reachesCatch
  deriving DecidableEq, Repr

/-- What the engine takes from its environment: the growth of `std::vector`, and the end of an
    exception of `upload()`. -/
structure Cfg where
  grow : Nat → Nat
  unwind : Unwind

/-- The engine: its members, the places of the worker and of the poller, and the locals of
    `processJob` that both of them use. -/
structure State where
  jobs : RefVector UploadJob
  queue : List String
  running : Bool
  paused : Bool
  authToken : String
  worker : WorkerPc
  poller : PollerPc
  uploadDone : Bool
  tus : TusClient
  statusLog : List StatusNote
  progressLog : List (String × ℚ)

/-- The engine as its constructor leaves it, with the worker thread about to enter its loop. -/
def State.init : State where
  jobs := .empty
  queue := []
  running := true
  paused := false
  authToken := ""
  worker := .head
  poller := .none
  uploadDone := false
  tus := {}
  statusLog := []
  progressLog := []

/-- No one is inside a critical section that lasts over several steps. -/
def State.mutexFree (s : State) : Bool :=
  match s.poller with
  | .cancel | .pauseTest | .pauseStore | .setDone => false
  | _ => true

/-- `m_statusCb(jobId, status, message)`. -/
def State.note (s : State) (jobId : String) (status : UploadStatus) (message : String) : State :=
  { s with statusLog := s.statusLog ++ [⟨jobId, status, message⟩] }

/-! ## 3. Client calls -/

/-- The record `enqueue` appends. -/
def newJob (jobId filePath serverUrl title description : String) : UploadJob where
  id := jobId
  filePath := filePath
  serverUrl := serverUrl
  title := title
  description := description
  status := .queued
  progress := 0
  retryCount := 0

/-- `enqueue`; `jobId` is what `generateJobId` draws. -/
def enqueue (cfg : Cfg) (s : State) (jobId filePath serverUrl title description : String) :
    State × String :=
  if (s.queue.length : Int) ≥ viralUploadQueueMax then
    (s.note "" .failed "Upload queue is full", "")
  else
    let s := { s with
      jobs := s.jobs.pushBack cfg.grow (newJob jobId filePath serverUrl title description)
      queue := s.queue ++ [jobId] }
    (s.note jobId .queued "", jobId)

/-- The scheme of `pause`, `resume`, `cancel` and `retry`: the first job with the id that passes
    `guard` is changed, perhaps pushed on the queue, and reported. -/
def updateFirst (s : State) (jobId : String) (guard : UploadJob → Bool)
    (change : UploadJob → UploadJob) (push : Bool) (status : UploadStatus) (message : String) :
    State :=
  match s.jobs.elems.findIdx? (fun job => job.id == jobId && guard job) with
  | none => s
  | some i =>
    let s := { s with
      jobs := s.jobs.modifyAt i change
      queue := if push then s.queue ++ [jobId] else s.queue }
    s.note jobId status message

/-- `pause`. -/
def pause (s : State) (jobId : String) : State :=
  updateFirst s jobId (fun job => job.status == .uploading)
    (fun job => { job with status := .paused }) false .paused ""

/-- `resume`. -/
def resume (s : State) (jobId : String) : State :=
  updateFirst s jobId (fun job => job.status == .paused)
    (fun job => { job with status := .queued }) true .queued "Resuming..."

/-- `cancel`: whatever the status is; the id stays in the queue. -/
def cancel (s : State) (jobId : String) : State :=
  updateFirst s jobId (fun _ => true)
    (fun job => { job with status := .cancelled }) false .cancelled ""

/-- `retry`. -/
def retry (s : State) (jobId : String) : State :=
  updateFirst s jobId (fun job => job.status == .failed)
    (fun job => { job with status := .queued, retryCount := 0, progress := 0 }) true .queued
    "Retrying..."

/-- `getStatus`: an unknown job is a cancelled one. -/
def getStatus (s : State) (jobId : String) : UploadStatus :=
  match s.jobs.elems.find? (fun job => job.id == jobId) with
  | some job => job.status
  | none => .cancelled

/-- `getProgress`. -/
def getProgress (s : State) (jobId : String) : ℚ :=
  match s.jobs.elems.find? (fun job => job.id == jobId) with
  | some job => job.progress
  | none => 0

/-- `getAllJobs`. -/
def getAllJobs (s : State) : List UploadJob := s.jobs.elems

/-! ## 4. The worker -/

/-- The `Handle result` section of `processJob`, for the record `job` read through `r`. -/
def handleResult (s : State) (r : Ref) (job : UploadJob) (success : Bool) : State :=
  let s := { s with worker := .head, poller := .none }
  if job.status = .cancelled then s
  else if job.status = .paused then s
  else if success then
    let s := { s with
      jobs := s.jobs.assign r fun j => { j with status := .completed, progress := 1 } }
    s.note job.id .completed ""
  else if job.retryCount + 1 < viralUploadMaxRetry then
    let s := { s with
      jobs := s.jobs.assign r fun j =>
        { j with retryCount := j.retryCount + 1, status := .queued }
      queue := s.queue ++ [job.id] }
    s.note job.id .queued
      ("Retrying (" ++ toString (job.retryCount + 1) ++ "/" ++ toString viralUploadMaxRetry ++ ")")
  else
    let s := { s with
      jobs := s.jobs.assign r fun j =>
        { j with retryCount := j.retryCount + 1, status := .failed } }
    s.note job.id .failed
      ("Upload failed after " ++ toString viralUploadMaxRetry ++ " retries")

/-- The `catch` clause of `processJob`. -/
def handleException (s : State) (r : Ref) (job : UploadJob) (what : String) : State :=
  let s := { s with
    worker := .head
    poller := .none
    jobs := s.jobs.assign r fun j => { j with status := .failed } }
  s.note job.id .failed what

/-- **One step of the worker thread.** The event is what `TusClient` meets; the other places
    do not look at it. `none`: the worker is blocked (the mutex, the join) or gone. -/
def workerStep (cfg : Cfg) (s : State) (e : TusEvent) : Option State :=
  match s.worker with
  | .head => some { s with worker := if s.running then .testPaused else .finished }
  | .testPaused => some { s with worker := if s.paused then .head else .testEmpty }
  | .testEmpty => some { s with worker := if s.queue.isEmpty then .head else .pop }
  | .pop =>
    if s.mutexFree then
      match s.queue with
      | [] => some { s with worker := .head }
      | jobId :: queue => some { s with worker := .find jobId, queue := queue }
    else none
  | .find jobId =>
    if s.mutexFree then
      match s.jobs.elems.findIdx? (fun j => j.id == jobId) with
      | none => some { s with worker := .head }
      | some i => some { s with worker := .check jobId (s.jobs.refAt i) }
    else none
  | .check jobId r => do
    -- outside the mutex
    let job ← s.jobs.deref r
    if job.status = .cancelled then some { s with worker := .head }
    else some { s with worker := .start jobId r }
  | .start _ r =>
    if s.mutexFree then
      some { s with
        worker := .notify r
        jobs := s.jobs.assign r fun j => { j with status := .uploading } }
    else none
  | .notify r => do
    let job ← s.jobs.deref r
    some { s.note job.id .uploading "" with worker := .construct r }
  | .construct r =>
    match e with
    | .throws what => some { s with worker := .caught r what }
    | _ => some { s with worker := .spawn r, tus := {} }
  | .spawn r =>
    match e with
    | .throws what => some { s with worker := .caught r what }
    | _ =>
      let tus := if s.authToken = "" then s.tus else { s.tus with token := s.authToken }
      some { s with
        tus := tus
        uploadDone := false
        poller := .loop
        worker := .upload r .chunkFile }
  | .upload r pc => do
    let (tus, outcome) ← s.tus.uploadStep pc e
    match outcome with
    | .at pc => some { s with tus := tus, worker := .upload r pc }
    | .returned success => some { s with tus := tus, worker := .returned r success }
    | .threw what =>
      match cfg.unwind with
      | .terminates => some { s with tus := tus, poller := .none, worker := .terminated }
      | .reachesCatch =>
        if s.mutexFree then some { s with tus := tus, poller := .none, worker := .caught r what }
        else none
  | .returned r success => some { s with uploadDone := true, worker := .join r success }
  | .join r success =>
    if s.poller = .exited then some { s with worker := .result r success } else none
  | .result r success =>
    if s.mutexFree then do
      let job ← s.jobs.deref r
      some (handleResult s r job success)
    else none
  | .caught r what =>
    if s.mutexFree then do
      let job ← s.jobs.deref r
      some (handleException s r job what)
    else none
  | .finished | .terminated => none

/-! ## 5. The poller -/

/-- The reference the worker holds, from the lookup to the end of the attempt. The poller
    captures the same one. -/
def WorkerPc.job : WorkerPc → Option Ref
  | .check _ r | .start _ r | .notify r | .construct r | .spawn r | .upload r _
  | .returned r _ | .join r _ | .result r _ | .caught r _ => some r
  | _ => none

/-- **One step of the poller thread.** -/
def pollerStep (s : State) : Option State := do
  let r ← s.worker.job
  match s.poller with
  | .none | .exited => none
  | .loop => some { s with poller := if s.uploadDone then .exited else .read }
  | .read => some { s with poller := .store s.tus.progress }
  | .store p =>
    some { s with
      poller := .report p
      jobs := s.jobs.assign r fun j => { j with progress := p } }
  | .report p =>
    let job ← s.jobs.deref r
    some { s with poller := .check, progressLog := s.progressLog ++ [(job.id, p)] }
  | .check =>
    let job ← s.jobs.deref r
    if job.status = .cancelled then some { s with poller := .cancel }
    else if job.status = .paused then some { s with poller := .pauseTest }
    else some { s with poller := .loop }
  | .cancel => some { s with poller := .setDone, tus := s.tus.cancelNow }
  | .pauseTest =>
    some { s with poller := if s.tus.status = .uploading then .pauseStore else .setDone }
  | .pauseStore => some { s with poller := .setDone, tus := s.tus.pauseStore }
  | .setDone => some { s with poller := .exited, uploadDone := true }

/-! ## 6. The machine -/

/-- The client calls, the worker's and the poller's steps. `destroy` is the part of the
    destructor in front of its `join`. -/
inductive Act where
  | enqueue (jobId filePath serverUrl title description : String)
  | pause (jobId : String)
  | resume (jobId : String)
  | cancel (jobId : String)
  | retry (jobId : String)
  | pauseAll
  | resumeAll
  | setAuthToken (token : String)
  | destroy
  | worker (e : TusEvent)
  | poller
  deriving DecidableEq, Repr

/-- A client call that takes `m_mutex`. -/
def State.locked (s : State) (t : State) : Option State := if s.mutexFree then some t else none

/-- **One step of the engine.** A process that `std::terminate` has ended takes no step. -/
def step (cfg : Cfg) (s : State) (a : Act) : Option State :=
  if s.worker = .terminated then none
  else match a with
    | .enqueue jobId filePath serverUrl title description =>
      s.locked (enqueue cfg s jobId filePath serverUrl title description).1
    | .pause jobId => s.locked (pause s jobId)
    | .resume jobId => s.locked (resume s jobId)
    | .cancel jobId => s.locked (cancel s jobId)
    | .retry jobId => s.locked (retry s jobId)
    | .pauseAll => some { s with paused := true }
    | .resumeAll => some { s with paused := false }
    | .setAuthToken token => s.locked { s with authToken := token }
    | .destroy => some { s with running := false }
    | .worker e => workerStep cfg s e
    | .poller => pollerStep s

/-- The upload engine under a configuration. -/
def engine (cfg : Cfg) : Machine State Act := ⟨State.init, step cfg⟩

end Viral.Upload
