/-
  File:      ViralEngine/Upload/Moves.lean
  Subject:   EVERY MOVE OF THE WORKER AND OF THE POLLER, ONE BY ONE.

  `workerStep` and `pollerStep` decide what a thread does where it stands; `WorkerMove` and
  `PollerMove` list the moves with what each of them finds and leaves. What is proved of all steps
  of a thread is proved by cases over the list.

  * `WorkerMove`, `workerStep_move` -- the worker: `workerLoop` and `processJob`;
  * `PollerMove`, `pollerStep_move` -- the poller.
-/
import ViralEngine.Upload.Engine

namespace Viral.Upload

open Viral.Lib

/-- **The moves of the worker thread**, each with the place it starts from, what it tests there
    and the state it leaves. -/
inductive WorkerMove (cfg : Cfg) (s : State) (e : TusEvent) : State → Prop where
  | head (hw : s.worker = .head) :
      WorkerMove cfg s e { s with worker := if s.running then .testPaused else .finished }
  | testPaused (hw : s.worker = .testPaused) :
      WorkerMove cfg s e { s with worker := if s.paused then .head else .testEmpty }
  | testEmpty (hw : s.worker = .testEmpty) :
      WorkerMove cfg s e { s with worker := if s.queue.isEmpty then .head else .pop }
  | popNone (hw : s.worker = .pop) (hq : s.queue = []) :
      WorkerMove cfg s e { s with worker := .head }
  | pop (jobId : String) (queue : List String) (hw : s.worker = .pop)
      (hq : s.queue = jobId :: queue) :
      WorkerMove cfg s e { s with worker := .find jobId, queue := queue }
  | lose (jobId : String) (hw : s.worker = .find jobId)
      (hf : s.jobs.elems.findIdx? (fun j => j.id == jobId) = none) :
      WorkerMove cfg s e { s with worker := .head }
  | find (jobId : String) (i : Nat) (hw : s.worker = .find jobId)
      (hf : s.jobs.elems.findIdx? (fun j => j.id == jobId) = some i) :
      WorkerMove cfg s e { s with worker := .check jobId (s.jobs.refAt i) }
  | skip (jobId : String) (r : Ref) (job : UploadJob) (hw : s.worker = .check jobId r)
      (hr : s.jobs.deref r = some job) (hst : job.status = .cancelled) :
      WorkerMove cfg s e { s with worker := .head }
  | clear (jobId : String) (r : Ref) (job : UploadJob) (hw : s.worker = .check jobId r)
      (hr : s.jobs.deref r = some job) (hst : job.status ≠ .cancelled) :
      WorkerMove cfg s e { s with worker := .start jobId r }
  | start (jobId : String) (r : Ref) (hw : s.worker = .start jobId r) :
      WorkerMove cfg s e { s with
        worker := .notify r
        jobs := s.jobs.assign r fun j => { j with status := .uploading } }
  | notify (r : Ref) (job : UploadJob) (hw : s.worker = .notify r)
      (hr : s.jobs.deref r = some job) :
      WorkerMove cfg s e { s.note job.id .uploading "" with worker := .construct r }
  | noClient (r : Ref) (what : String) (hw : s.worker = .construct r) (he : e = .throws what) :
      WorkerMove cfg s e { s with worker := .caught r what }
  | construct (r : Ref) (hw : s.worker = .construct r) :
      WorkerMove cfg s e { s with worker := .spawn r, tus := {} }
  | noThread (r : Ref) (what : String) (hw : s.worker = .spawn r) (he : e = .throws what) :
      WorkerMove cfg s e { s with worker := .caught r what }
  | spawn (r : Ref) (hw : s.worker = .spawn r) :
      WorkerMove cfg s e { s with
        tus := if s.authToken = "" then s.tus else { s.tus with token := s.authToken }
        uploadDone := false
        poller := .loop
        worker := .upload r .chunkFile }
  | upload (r : Ref) (pc pc' : UploadPc) (tus : TusClient) (hw : s.worker = .upload r pc)
      (hup : s.tus.uploadStep pc e = some (tus, .at pc')) :
      WorkerMove cfg s e { s with tus := tus, worker := .upload r pc' }
  | uploaded (r : Ref) (pc : UploadPc) (tus : TusClient) (success : Bool)
      (hw : s.worker = .upload r pc)
      (hup : s.tus.uploadStep pc e = some (tus, .returned success)) :
      WorkerMove cfg s e { s with tus := tus, worker := .returned r success }
  | terminate (r : Ref) (pc : UploadPc) (tus : TusClient) (what : String)
      (hw : s.worker = .upload r pc) (hup : s.tus.uploadStep pc e = some (tus, .threw what))
      (hu : cfg.unwind = .terminates) :
      WorkerMove cfg s e { s with tus := tus, poller := .none, worker := .terminated }
  | unwind (r : Ref) (pc : UploadPc) (tus : TusClient) (what : String)
      (hw : s.worker = .upload r pc) (hup : s.tus.uploadStep pc e = some (tus, .threw what))
      (hu : cfg.unwind = .reachesCatch) :
      WorkerMove cfg s e { s with tus := tus, poller := .none, worker := .caught r what }
  | returned (r : Ref) (success : Bool) (hw : s.worker = .returned r success) :
      WorkerMove cfg s e { s with uploadDone := true, worker := .join r success }
  | join (r : Ref) (success : Bool) (hw : s.worker = .join r success)
      (hp : s.poller = .exited) : WorkerMove cfg s e { s with worker := .result r success }
  | result (r : Ref) (success : Bool) (job : UploadJob) (hw : s.worker = .result r success)
      (hfree : s.mutexFree = true) (hr : s.jobs.deref r = some job) :
      WorkerMove cfg s e (handleResult s r job success)
  | caught (r : Ref) (what : String) (job : UploadJob) (hw : s.worker = .caught r what)
      (hfree : s.mutexFree = true) (hr : s.jobs.deref r = some job) :
      WorkerMove cfg s e (handleException s r job what)

/-- **The moves of the poller thread.** -/
inductive PollerMove (s : State) : State → Prop where
  | loop (hp : s.poller = .loop) :
      PollerMove s { s with poller := if s.uploadDone then .exited else .read }
  | read (hp : s.poller = .read) : PollerMove s { s with poller := .store s.tus.progress }
  | store (r : Ref) (p : ℚ) (hp : s.poller = .store p) (hh : s.worker.job = some r) :
      PollerMove s { s with
        poller := .report p
        jobs := s.jobs.assign r fun j => { j with progress := p } }
  | report (r : Ref) (p : ℚ) (job : UploadJob) (hp : s.poller = .report p)
      (hh : s.worker.job = some r) (hr : s.jobs.deref r = some job) :
      PollerMove s { s with poller := .check, progressLog := s.progressLog ++ [(job.id, p)] }
  | seesCancel (r : Ref) (job : UploadJob) (hp : s.poller = .check) (hh : s.worker.job = some r)
      (hr : s.jobs.deref r = some job) (hst : job.status = .cancelled) :
      PollerMove s { s with poller := .cancel }
  | seesPause (r : Ref) (job : UploadJob) (hp : s.poller = .check) (hh : s.worker.job = some r)
      (hr : s.jobs.deref r = some job) (hst : job.status = .paused) :
      PollerMove s { s with poller := .pauseTest }
  | seesNothing (r : Ref) (job : UploadJob) (hp : s.poller = .check) (hh : s.worker.job = some r)
      (hr : s.jobs.deref r = some job) (hc : job.status ≠ .cancelled)
      (hn : job.status ≠ .paused) : PollerMove s { s with poller := .loop }
  | cancel (hp : s.poller = .cancel) :
      PollerMove s { s with poller := .setDone, tus := s.tus.cancelNow }
  | pauseTest (hp : s.poller = .pauseTest) :
      PollerMove s { s with
        poller := if s.tus.status = .uploading then .pauseStore else .setDone }
  | pauseStore (hp : s.poller = .pauseStore) :
      PollerMove s { s with poller := .setDone, tus := s.tus.pauseStore }
  | setDone (hp : s.poller = .setDone) :
      PollerMove s { s with poller := .exited, uploadDone := true }

variable {cfg : Cfg} {s t : State}

/-- **Every step of the worker is one of its moves.** -/
theorem workerStep_move {e : TusEvent} (h : workerStep cfg s e = some t) :
    WorkerMove cfg s e t := by
  unfold workerStep at h
  cases hw : s.worker with
  | head => simp only [hw] at h; cases h; exact .head hw
  | testPaused => simp only [hw] at h; cases h; exact .testPaused hw
  | testEmpty => simp only [hw] at h; cases h; exact .testEmpty hw
  | pop =>
    simp only [hw] at h
    split at h
    · split at h
      · rename_i hq
        cases h
        exact .popNone hw hq
      · rename_i jobId queue hq
        cases h
        exact .pop jobId queue hw hq
    · cases h
  | find jobId =>
    simp only [hw] at h
    split at h
    · split at h
      · rename_i hf
        cases h
        exact .lose jobId hw hf
      · rename_i i hf
        cases h
        exact .find jobId i hw hf
    · cases h
  | check jobId r =>
    simp only [hw] at h
    obtain ⟨job, hr, h⟩ := Option.bind_eq_some_iff.mp h
    split at h
    · rename_i hst
      cases h
      exact .skip jobId r job hw hr hst
    · rename_i hst
      cases h
      exact .clear jobId r job hw hr hst
  | start jobId r =>
    simp only [hw] at h
    split at h <;> cases h
    exact .start jobId r hw
  | notify r =>
    simp only [hw] at h
    obtain ⟨job, hr, h⟩ := Option.bind_eq_some_iff.mp h
    cases h
    exact .notify r job hw hr
  | construct r =>
    simp only [hw] at h
    split at h <;> cases h
    · exact .noClient r _ hw rfl
    · exact .construct r hw
  | spawn r =>
    simp only [hw] at h
    split at h <;> cases h
    · exact .noThread r _ hw rfl
    · exact .spawn r hw
  | upload r pc =>
    simp only [hw] at h
    obtain ⟨⟨tus, outcome⟩, hup, h⟩ := Option.bind_eq_some_iff.mp h
    cases outcome with
    | «at» pc' => cases h; exact .upload r pc pc' tus hw hup
    | returned success => cases h; exact .uploaded r pc tus success hw hup
    | threw what =>
      dsimp only at h
      split at h
      · rename_i hu
        cases h
        exact .terminate r pc tus what hw hup hu
      · rename_i hu
        split at h <;> cases h
        exact .unwind r pc tus what hw hup hu
  | returned r success => simp only [hw] at h; cases h; exact .returned r success hw
  | join r success =>
    simp only [hw] at h
    split at h <;> cases h
    rename_i hp
    exact .join r success hw hp
  | result r success =>
    simp only [hw] at h
    split at h
    · rename_i hfree
      obtain ⟨job, hr, h⟩ := Option.bind_eq_some_iff.mp h
      cases h
      exact .result r success job hw hfree hr
    · cases h
  | caught r what =>
    simp only [hw] at h
    split at h
    · rename_i hfree
      obtain ⟨job, hr, h⟩ := Option.bind_eq_some_iff.mp h
      cases h
      exact .caught r what job hw hfree hr
    · cases h
  | finished | terminated => simp only [hw] at h; cases h

/-- **Every step of the poller is one of its moves.** -/
theorem pollerStep_move (h : pollerStep s = some t) : PollerMove s t := by
  unfold pollerStep at h
  obtain ⟨r, hh, h⟩ := Option.bind_eq_some_iff.mp h
  cases hp : s.poller with
  | none | exited => simp only [hp] at h; cases h
  | loop => simp only [hp] at h; cases h; exact .loop hp
  | read => simp only [hp] at h; cases h; exact .read hp
  | store p => simp only [hp] at h; cases h; exact .store r p hp hh
  | report p =>
    simp only [hp] at h
    obtain ⟨job, hr, h⟩ := Option.bind_eq_some_iff.mp h
    cases h
    exact .report r p job hp hh hr
  | check =>
    simp only [hp] at h
    obtain ⟨job, hr, h⟩ := Option.bind_eq_some_iff.mp h
    split at h
    · rename_i hst
      cases h
      exact .seesCancel r job hp hh hr hst
    · rename_i hc
      split at h
      · rename_i hst
        cases h
        exact .seesPause r job hp hh hr hst
      · rename_i hn
        cases h
        exact .seesNothing r job hp hh hr hc hn
  | cancel => simp only [hp] at h; cases h; exact .cancel hp
  | pauseTest => simp only [hp] at h; cases h; exact .pauseTest hp
  | pauseStore => simp only [hp] at h; cases h; exact .pauseStore hp
  | setDone => simp only [hp] at h; cases h; exact .setDone hp

end Viral.Upload
