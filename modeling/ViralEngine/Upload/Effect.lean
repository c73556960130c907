/-
  File:      ViralEngine/Upload/Effect.lean
  Subject:   WHAT ONE STEP OF THE UPLOAD ENGINE DOES TO THE JOBS, THE QUEUE AND THE WORKER'S
             HOLD ON A JOB.

  The invariants of the queue and of the job records do not look at the `TusClient`, at the
  poller's place or at the logs. `Ledger` keeps what they do look at, `Effect` lists every
  change one step can make to it, and `step_effect` says that the list is complete. Each
  invariant is then one case analysis over `Effect`, without opening `step`.

  * `Hold` -- how far the worker is with a job: the id popped, the record found, the test for
    CANCELLED passed, the attempt running;
  * `Effect` -- the changes, with the guards the source puts in front of them;
  * `step_effect` -- every step has one of these effects.
-/
import ViralEngine.Upload.Moves

namespace Viral.Upload

open Viral.Lib

/-! ## 1. The ledger -/

/-- How far the worker is with a job. -/
inductive Hold where
  | idle
  | popped (jobId : String)
  | found (jobId : String) (job : Ref)
  | cleared (jobId : String) (job : Ref)
  | running (job : Ref)
  deriving DecidableEq, Repr

/-- The job the worker has in hand, by its id or through the reference. -/
def WorkerPc.hold : WorkerPc → Hold
  | .find jobId => .popped jobId
  | .check jobId r => .found jobId r
  | .start jobId r => .cleared jobId r
  | .notify r | .construct r | .spawn r | .upload r _ | .returned r _ | .join r _ | .result r _
  | .caught r _ => .running r
  | _ => .idle

/-- The worker is in front of the `catch` clause. -/
def WorkerPc.catching : WorkerPc → Option Ref
  | .caught r _ => some r
  | _ => none

/-- The reference of a hold. -/
def Hold.job : Hold → Option Ref
  | .found _ r | .cleared _ r | .running r => some r
  | _ => none

/-- The id that is popped and not yet set to UPLOADING. -/
def Hold.pending : Hold → Option String
  | .popped jobId | .found jobId _ | .cleared jobId _ => some jobId
  | _ => none

/-- The reference `processJob` is running on, behind its store of UPLOADING. -/
def Hold.started : Hold → Option Ref
  | .running r => some r
  | _ => none

theorem WorkerPc.hold_job (w : WorkerPc) : w.hold.job = w.job := by
  cases w <;> rfl

/-- The job records, the queue and the worker's hold. -/
structure Ledger where
  jobs : RefVector UploadJob
  queue : List String
  hold : Hold

/-- The jobs, the ids, and the one in hand. -/
def State.ledger (s : State) : Ledger := ⟨s.jobs, s.queue, s.worker.hold⟩

@[simp] theorem ledger_jobs (s : State) : s.ledger.jobs = s.jobs := rfl

@[simp] theorem ledger_queue (s : State) : s.ledger.queue = s.queue := rfl

@[simp] theorem ledger_hold (s : State) : s.ledger.hold = s.worker.hold := rfl

@[simp] theorem ledger_note (s : State) (jobId : String) (status : UploadStatus)
    (message : String) : (s.note jobId status message).ledger = s.ledger := rfl

/-! ## 2. Effects -/

/-- **Every change one step makes to the ledger.** `catching` is the reference of the worker in
    front of the `catch` clause. -/
inductive Effect (cfg : Cfg) (catching : Option Ref) : Ledger → Act → Ledger → Prop where
  | quiet (L : Ledger) (a : Act) : Effect cfg catching L a L
  | enqueue (L : Ledger) (jobId filePath serverUrl title description : String)
      (hroom : (L.queue.length : Int) < viralUploadQueueMax) :
      Effect cfg catching L (.enqueue jobId filePath serverUrl title description)
        { L with
          jobs := L.jobs.pushBack cfg.grow (newJob jobId filePath serverUrl title description)
          queue := L.queue ++ [jobId] }
  | pause (L : Ledger) (i : Nat) (job : UploadJob) (hi : L.jobs.elems[i]? = some job)
      (hst : job.status = .uploading) :
      Effect cfg catching L (.pause job.id)
        { L with jobs := L.jobs.modifyAt i fun j => { j with status := .paused } }
  | resume (L : Ledger) (i : Nat) (job : UploadJob) (hi : L.jobs.elems[i]? = some job)
      (hst : job.status = .paused) :
      Effect cfg catching L (.resume job.id)
        { L with
          jobs := L.jobs.modifyAt i fun j => { j with status := .queued }
          queue := L.queue ++ [job.id] }
  | cancel (L : Ledger) (i : Nat) (job : UploadJob) (hi : L.jobs.elems[i]? = some job) :
      Effect cfg catching L (.cancel job.id)
        { L with jobs := L.jobs.modifyAt i fun j => { j with status := .cancelled } }
  | retry (L : Ledger) (i : Nat) (job : UploadJob) (hi : L.jobs.elems[i]? = some job)
      (hst : job.status = .failed) :
      Effect cfg catching L (.retry job.id)
        { L with
          jobs := L.jobs.modifyAt i fun j =>
            { j with status := .queued, retryCount := 0, progress := 0 }
          queue := L.queue ++ [job.id] }
  | pop (L : Ledger) (e : TusEvent) (jobId : String) (queue : List String)
      (hh : L.hold = .idle) (hq : L.queue = jobId :: queue) :
      Effect cfg catching L (.worker e) { L with queue := queue, hold := .popped jobId }
  | lose (L : Ledger) (e : TusEvent) (jobId : String) (hh : L.hold = .popped jobId)
      (hnone : ∀ job ∈ L.jobs.elems, job.id ≠ jobId) :
      Effect cfg catching L (.worker e) { L with hold := .idle }
  | find (L : Ledger) (e : TusEvent) (i : Nat) (job : UploadJob)
      (hh : L.hold = .popped job.id)
      (hi : L.jobs.elems.findIdx? (fun j => j.id == job.id) = some i)
      (hj : L.jobs.elems[i]? = some job) :
      Effect cfg catching L (.worker e) { L with hold := .found job.id (L.jobs.refAt i) }
  | skip (L : Ledger) (e : TusEvent) (jobId : String) (r : Ref) (job : UploadJob)
      (hh : L.hold = .found jobId r) (hr : L.jobs.deref r = some job)
      (hst : job.status = .cancelled) :
      Effect cfg catching L (.worker e) { L with hold := .idle }
  | clear (L : Ledger) (e : TusEvent) (jobId : String) (r : Ref) (job : UploadJob)
      (hh : L.hold = .found jobId r) (hr : L.jobs.deref r = some job)
      (hst : job.status ≠ .cancelled) :
      Effect cfg catching L (.worker e) { L with hold := .cleared jobId r }
  | start (L : Ledger) (e : TusEvent) (jobId : String) (r : Ref)
      (hh : L.hold = .cleared jobId r) :
      Effect cfg catching L (.worker e)
        { L with
          jobs := L.jobs.assign r fun j => { j with status := .uploading }
          hold := .running r }
  | progress (L : Ledger) (r : Ref) (p : ℚ) (hh : L.hold.job = some r) :
      Effect cfg catching L .poller
        { L with jobs := L.jobs.assign r fun j => { j with progress := p } }
  | keep (L : Ledger) (e : TusEvent) (r : Ref) (job : UploadJob) (hh : L.hold = .running r)
      (hr : L.jobs.deref r = some job)
      (hst : job.status = .cancelled ∨ job.status = .paused) :
      Effect cfg catching L (.worker e) { L with hold := .idle }
  | complete (L : Ledger) (e : TusEvent) (r : Ref) (job : UploadJob) (hh : L.hold = .running r)
      (hr : L.jobs.deref r = some job) (hc : job.status ≠ .cancelled)
      (hp : job.status ≠ .paused) :
      Effect cfg catching L (.worker e)
        { L with
          jobs := L.jobs.assign r fun j => { j with status := .completed, progress := 1 }
          hold := .idle }
  | requeue (L : Ledger) (e : TusEvent) (r : Ref) (job : UploadJob) (hh : L.hold = .running r)
      (hr : L.jobs.deref r = some job) (hc : job.status ≠ .cancelled)
      (hp : job.status ≠ .paused) (hn : job.retryCount + 1 < viralUploadMaxRetry) :
      Effect cfg catching L (.worker e)
        { jobs := L.jobs.assign r fun j =>
            { j with retryCount := j.retryCount + 1, status := .queued }
          queue := L.queue ++ [job.id]
          hold := .idle }
  | fail (L : Ledger) (e : TusEvent) (r : Ref) (job : UploadJob) (hh : L.hold = .running r)
      (hr : L.jobs.deref r = some job) (hc : job.status ≠ .cancelled)
      (hp : job.status ≠ .paused) (hn : ¬ job.retryCount + 1 < viralUploadMaxRetry) :
      Effect cfg catching L (.worker e)
        { L with
          jobs := L.jobs.assign r fun j =>
            { j with retryCount := j.retryCount + 1, status := .failed }
          hold := .idle }
  | caught (L : Ledger) (e : TusEvent) (r : Ref) (job : UploadJob) (hh : L.hold = .running r)
      (hr : L.jobs.deref r = some job) (hc : catching = some r) :
      Effect cfg catching L (.worker e)
        { L with
          jobs := L.jobs.assign r fun j => { j with status := .failed }
          hold := .idle }
  | terminate (L : Ledger) (e : TusEvent) (r : Ref) (hh : L.hold = .running r)
      (hu : cfg.unwind = .terminates) : Effect cfg catching L (.worker e) { L with hold := .idle }

/-! ## 3. Every step has an effect -/

section Inversion

variable {cfg : Cfg} {c : Option Ref} {s t : State}

/-- A step that leaves the ledger alone. -/
theorem effect_of_eq {a : Act} (h : t.ledger = s.ledger) : Effect cfg c s.ledger a t.ledger := by
  rw [h]
  exact .quiet _ _

/-- What `findIdx?` finds carries the id and passes the guard. -/
theorem findIdx?_job {jobs : List UploadJob} {jobId : String} {guard : UploadJob → Bool} {i : Nat}
    (h : jobs.findIdx? (fun job => job.id == jobId && guard job) = some i) :
    ∃ job, jobs[i]? = some job ∧ job.id = jobId ∧ guard job = true := by
  obtain ⟨hi, hp, _⟩ := List.findIdx?_eq_some_iff_getElem.mp h
  simp only [Bool.and_eq_true, beq_iff_eq] at hp
  exact ⟨jobs[i], List.getElem?_eq_getElem hi, hp.1, hp.2⟩

/-- A locked call that runs is the call itself. -/
theorem locked_some {u : State} (h : s.locked u = some t) : t = u := by
  unfold State.locked at h
  split at h
  · exact (Option.some.inj h).symm
  · cases h

/-- `updateFirst` finds no job, or changes the one it finds. -/
theorem updateFirst_cases (s : State) (jobId : String) (guard : UploadJob → Bool)
    (change : UploadJob → UploadJob) (push : Bool) (status : UploadStatus) (message : String) :
    (updateFirst s jobId guard change push status message).ledger = s.ledger ∨
    ∃ i job, s.jobs.elems[i]? = some job ∧ job.id = jobId ∧ guard job = true ∧
      (updateFirst s jobId guard change push status message).ledger =
        { s.ledger with
          jobs := s.jobs.modifyAt i change
          queue := if push then s.queue ++ [jobId] else s.queue } := by
  unfold updateFirst
  cases hf : s.jobs.elems.findIdx? (fun job => job.id == jobId && guard job) with
  | none => exact Or.inl rfl
  | some i =>
    obtain ⟨job, hi, hid, hg⟩ := findIdx?_job hf
    exact Or.inr ⟨i, job, hi, hid, hg, rfl⟩

theorem enqueue_effect (jobId filePath serverUrl title description : String)
    (h : t = (enqueue cfg s jobId filePath serverUrl title description).1) :
    Effect cfg c s.ledger (.enqueue jobId filePath serverUrl title description) t.ledger := by
  subst h
  unfold enqueue
  split
  · exact .quiet _ _
  · rename_i hroom
    exact .enqueue s.ledger jobId filePath serverUrl title description (by simpa using hroom)

theorem pause_effect (jobId : String) :
    Effect cfg c s.ledger (.pause jobId) (pause s jobId).ledger := by
  obtain h | ⟨i, job, hi, rfl, hg, h⟩ := updateFirst_cases s jobId
    (fun job => job.status == .uploading) (fun job => { job with status := .paused }) false
    .paused ""
  · exact effect_of_eq h
  · unfold pause
    rw [h]
    exact .pause s.ledger i job hi (by simpa using hg)

theorem resume_effect (jobId : String) :
    Effect cfg c s.ledger (.resume jobId) (resume s jobId).ledger := by
  obtain h | ⟨i, job, hi, rfl, hg, h⟩ := updateFirst_cases s jobId
    (fun job => job.status == .paused) (fun job => { job with status := .queued }) true
    .queued "Resuming..."
  · exact effect_of_eq h
  · unfold resume
    rw [h]
    exact .resume s.ledger i job hi (by simpa using hg)

theorem cancel_effect (jobId : String) :
    Effect cfg c s.ledger (.cancel jobId) (cancel s jobId).ledger := by
  obtain h | ⟨i, job, hi, rfl, _, h⟩ := updateFirst_cases s jobId (fun _ => true)
    (fun job => { job with status := .cancelled }) false .cancelled ""
  · exact effect_of_eq h
  · unfold cancel
    rw [h]
    exact .cancel s.ledger i job hi

theorem retry_effect (jobId : String) :
    Effect cfg c s.ledger (.retry jobId) (retry s jobId).ledger := by
  obtain h | ⟨i, job, hi, rfl, hg, h⟩ := updateFirst_cases s jobId
    (fun job => job.status == .failed)
    (fun job => { job with status := .queued, retryCount := 0, progress := 0 }) true
    .queued "Retrying..."
  · exact effect_of_eq h
  · unfold retry
    rw [h]
    exact .retry s.ledger i job hi (by simpa using hg)

/-- The result section: one effect for each of its four ways out. -/
theorem handleResult_effect {r : Ref} {job : UploadJob} {success : Bool} {e : TusEvent}
    (hh : s.worker.hold = .running r) (hr : s.jobs.deref r = some job) :
    Effect cfg c s.ledger (.worker e) (handleResult s r job success).ledger := by
  unfold handleResult
  by_cases hc : job.status = .cancelled
  · rw [if_pos hc]
    exact .keep s.ledger e r job hh hr (Or.inl hc)
  rw [if_neg hc]
  by_cases hp : job.status = .paused
  · rw [if_pos hp]
    exact .keep s.ledger e r job hh hr (Or.inr hp)
  rw [if_neg hp]
  cases success with
  | true => exact .complete s.ledger e r job hh hr hc hp
  | false =>
    by_cases hn : job.retryCount + 1 < viralUploadMaxRetry
    · rw [if_neg Bool.false_ne_true, if_pos hn]
      exact .requeue s.ledger e r job hh hr hc hp hn
    · rw [if_neg Bool.false_ne_true, if_neg hn]
      exact .fail s.ledger e r job hh hr hc hp hn

theorem workerStep_effect {e : TusEvent} (h : workerStep cfg s e = some t)
    (hcatch : ∀ r, s.worker.catching = some r → c = some r) :
    Effect cfg c s.ledger (.worker e) t.ledger := by
  have hold : ∀ {w : WorkerPc}, s.worker = w → s.ledger.hold = w.hold := by
    intro w hw
    rw [ledger_hold, hw]
  cases workerStep_move h with
  | head hw =>
    refine effect_of_eq ?_
    cases hr : s.running <;> simp [State.ledger, WorkerPc.hold, hw]
  | testPaused hw =>
    refine effect_of_eq ?_
    cases hr : s.paused <;> simp [State.ledger, WorkerPc.hold, hw]
  | testEmpty hw =>
    refine effect_of_eq ?_
    cases hr : s.queue.isEmpty <;> simp [State.ledger, WorkerPc.hold, hw]
  | popNone hw | construct r hw | noClient r what hw | noThread r what hw | spawn r hw
  | upload r pc pc' tus hw | uploaded r pc tus success hw | unwind r pc tus what hw
  | returned r success hw | join r success hw =>
    exact effect_of_eq (by simp [State.ledger, WorkerPc.hold, hw])
  | notify r job hw => exact effect_of_eq (by simp [State.ledger, State.note, WorkerPc.hold, hw])
  | pop jobId queue hw hq => exact .pop s.ledger e jobId queue (hold hw) hq
  | lose jobId hw hf =>
    refine .lose s.ledger e jobId (hold hw) fun job hjob => ?_
    simpa using List.findIdx?_eq_none_iff.mp hf job hjob
  | find jobId i hw hf =>
    obtain ⟨hi, hp, _⟩ := List.findIdx?_eq_some_iff_getElem.mp hf
    have hid : s.jobs.elems[i].id = jobId := by simpa using hp
    subst hid
    exact .find s.ledger e i s.jobs.elems[i] (hold hw) hf (List.getElem?_eq_getElem hi)
  | skip jobId r job hw hr hst => exact .skip s.ledger e jobId r job (hold hw) hr hst
  | clear jobId r job hw hr hst => exact .clear s.ledger e jobId r job (hold hw) hr hst
  | start jobId r hw => exact .start s.ledger e jobId r (hold hw)
  | terminate r pc tus what hw _ hu => exact .terminate s.ledger e r (hold hw) hu
  | result r success job hw _ hr => exact handleResult_effect (hold hw) hr
  | caught r what job hw _ hr =>
    exact .caught s.ledger e r job (hold hw) hr (hcatch r (by rw [hw]; rfl))

theorem pollerStep_effect (h : pollerStep s = some t) :
    Effect cfg c s.ledger .poller t.ledger := by
  cases pollerStep_move h with
  | store r p _ hh =>
    exact .progress s.ledger r p (by rw [ledger_hold, WorkerPc.hold_job]; exact hh)
  | loop | read | report | seesCancel | seesPause | seesNothing | cancel | pauseTest | pauseStore
  | setDone => exact .quiet _ _

/-- **Every step of the engine has one of the listed effects on the ledger.** -/
theorem step_effect {a : Act} (h : step cfg s a = some t) :
    Effect cfg s.worker.catching s.ledger a t.ledger := by
  unfold step at h
  split at h
  · cases h
  cases a with
  | enqueue jobId filePath serverUrl title description =>
    exact enqueue_effect jobId filePath serverUrl title description (locked_some h)
  | pause jobId => rw [locked_some h]; exact pause_effect jobId
  | resume jobId => rw [locked_some h]; exact resume_effect jobId
  | cancel jobId => rw [locked_some h]; exact cancel_effect jobId
  | retry jobId => rw [locked_some h]; exact retry_effect jobId
  | setAuthToken token => rw [locked_some h]; exact .quiet _ _
  | pauseAll | resumeAll | destroy =>
    cases h
    exact .quiet _ _
  | worker e => exact workerStep_effect h fun _ hr => hr
  | poller => exact pollerStep_effect h

/-- What the worker thread does when it is its turn. -/
theorem step_worker {e : TusEvent} (hs : step cfg s (.worker e) = some t) :
    workerStep cfg s e = some t := by
  unfold step at hs
  split at hs
  · cases hs
  · exact hs

theorem step_poller (hs : step cfg s .poller = some t) : pollerStep s = some t := by
  unfold step at hs
  split at hs
  · cases hs
  · exact hs

end Inversion

end Viral.Upload
