/-
  File:      ViralEngine/Upload/Completion.lean
  Subject:   IS A COMPLETED UPLOAD A FINISHED ONE?

  `upload()` returns `true` when its chunk loop is left, also when `pause()` or `cancel()` made
  it leave early. `processJob` tells the cases apart by the status of the job record, which it
  reads again behind the attempt: PAUSED and CANCELLED are left alone, everything else becomes
  COMPLETED. So the record has to stay PAUSED or CANCELLED for as long as the attempt's
  `TusClient` is.

  * `Truthful` -- no `resume` of the job of an attempt whose `TusClient` is PAUSED, and no reply
    with an offset beyond the length;
  * `StatusMove`, `effect_statusMove` -- what a step can do to the record of a running attempt;
  * `AttemptOk`, `step_attemptOk` -- an interrupted `TusClient` shows in the record, kept by
    every step;
  * `completionTruthful` -- then COMPLETED is stored only behind a FINISHED transfer;
  * `completion_resumedAfterPause` -- pause, then resume before the attempt is over: COMPLETED
    with nothing sent.
-/
import ViralEngine.Upload.References

namespace Viral.Upload

open Viral.Lib

/-! ## 1. The condition -/

/-- The reference of an attempt whose `TusClient` exists and whose result is not yet handled. -/
def WorkerPc.attempt : WorkerPc → Option Ref
  | .upload r _ | .returned r _ | .join r _ | .result r _ => some r
  | _ => none

/-- The worker is inside `upload()`. -/
def WorkerPc.uploading : WorkerPc → Bool
  | .upload _ _ => true
  | _ => false

/-- No `resume` of the PAUSED job of an attempt that its `TusClient` has already left PAUSED,
    and no reply of the server with an offset beyond the length. -/
def Truthful (s : State) : Act → Prop
  | .resume jobId => ∀ r ∈ s.worker.attempt, s.jobs.Current r → ∀ job ∈ s.jobs.deref r,
      job.id = jobId → job.status = .paused → s.tus.status ≠ .paused
  | .worker e => s.worker.uploading → s.tus.OffsetOk e
  | _ => True

instance (s : State) : ∀ a : Act, Decidable (Truthful s a)
  | .resume _ => inferInstanceAs (Decidable (∀ r ∈ s.worker.attempt, _))
  | .worker _ => inferInstanceAs (Decidable (_ → _))
  | .enqueue .. | .pause _ | .cancel _ | .retry _ | .pauseAll | .resumeAll | .setAuthToken _
  | .destroy | .poller => inferInstanceAs (Decidable True)

theorem hold_of_attempt {w : WorkerPc} {r : Ref} (h : w.attempt = some r) :
    w.hold = .running r := by
  cases w <;> cases h <;> rfl

/-! ## 2. What a step does to the record of a running attempt -/

/-- How the status under the held reference moves while the attempt goes on. -/
inductive StatusMove (v : RefVector UploadJob) (r : Ref) (job : UploadJob) :
    Act → UploadStatus → Prop where
  | same (a : Act) : StatusMove v r job a job.status
  | pause (h : job.status = .uploading) : StatusMove v r job (.pause job.id) .paused
  | resume (h : job.status = .paused) (hcur : v.Current r) :
      StatusMove v r job (.resume job.id) .queued
  | cancel : StatusMove v r job (.cancel job.id) .cancelled
  | retry (h : job.status = .failed) : StatusMove v r job (.retry job.id) .queued

/-- A change of a record through the vector, seen through a reference: the reference does not
    see it, or it is a current reference to the changed record. -/
theorem deref_modifyAt_cases {v : RefVector UploadJob} {i : Nat} {old job : UploadJob} {r : Ref}
    (f : UploadJob → UploadJob) (hi : v.elems[i]? = some old) (hr : v.deref r = some job) :
    (v.modifyAt i f).deref r = some job ∨
      v.Current r ∧ old = job ∧ (v.modifyAt i f).deref r = some (f job) := by
  rw [RefVector.deref_modifyAt]
  by_cases hcond : v.Current r ∧ i = r.idx
  · refine Or.inr ⟨hcond.1, ?_, by rw [if_pos hcond, hr]; rfl⟩
    rw [RefVector.deref_of_current hcond.1, ← hcond.2, hi] at hr
    exact Option.some.inj hr
  · rw [if_neg hcond]
    exact Or.inl hr

/-- **While the attempt goes on, only the client calls move the status of its record.** -/
theorem effect_statusMove {cfg : Cfg} {c : Option Ref} {L L' : Ledger} {a : Act} {r : Ref}
    {job : UploadJob} (h : Effect cfg c L a L') (hh : L.hold = .running r)
    (hh' : L'.hold = .running r) (hr : L.jobs.deref r = some job) :
    ∃ job', L'.jobs.deref r = some job' ∧ StatusMove L.jobs r job a job'.status := by
  cases h with
  | quiet => exact ⟨job, hr, .same _⟩
  | enqueue => exact ⟨job, RefVector.deref_pushBack hr, .same _⟩
  | pause i old hi hst =>
    rcases deref_modifyAt_cases (fun j => { j with status := .paused }) hi hr with
      hsame | ⟨_, rfl, hnew⟩
    · exact ⟨job, hsame, .same _⟩
    · exact ⟨_, hnew, .pause hst⟩
  | resume i old hi hst =>
    rcases deref_modifyAt_cases (fun j => { j with status := .queued }) hi hr with
      hsame | ⟨hcur, rfl, hnew⟩
    · exact ⟨job, hsame, .same _⟩
    · exact ⟨_, hnew, .resume hst hcur⟩
  | cancel i old hi =>
    rcases deref_modifyAt_cases (fun j => { j with status := .cancelled }) hi hr with
      hsame | ⟨_, rfl, hnew⟩
    · exact ⟨job, hsame, .same _⟩
    · exact ⟨_, hnew, .cancel⟩
  | retry i old hi hst =>
    rcases deref_modifyAt_cases
        (fun j => { j with status := .queued, retryCount := 0, progress := 0 }) hi hr with
      hsame | ⟨_, rfl, hnew⟩
    · exact ⟨job, hsame, .same _⟩
    · exact ⟨_, hnew, .retry hst⟩
  | progress q p hq =>
    rw [hh] at hq
    obtain rfl : r = q := Option.some.inj hq
    exact ⟨{ job with progress := p }, by rw [RefVector.deref_assign, hr]; rfl, .same _⟩
  | pop | lose | find | skip | clear | keep | complete | requeue | fail | caught | terminate =>
    cases hh'
  | start e jobId q hq =>
    rw [hh] at hq
    cases hq

/-! ## 3. The invariant of an attempt -/

/-- The poller is not about to interrupt the `TusClient`. -/
def PollerPc.calm : PollerPc → Bool
  | .cancel | .pauseTest | .pauseStore => false
  | _ => true

/-- What the status of the record tells about the `TusClient` and the poller. -/
structure Shows (tus : TusClient) (poller : PollerPc) (status : UploadStatus) : Prop where
  paused : tus.status = .paused → status = .paused ∨ status = .cancelled
  canceled : tus.status = .canceled → status = .cancelled
  pausing : poller = .pauseTest ∨ poller = .pauseStore → status = .paused
  canceling : poller = .cancel → status = .cancelled

/-- What holds of the `TusClient` at the worker's place. -/
def PlaceOk (tus : TusClient) : WorkerPc → Prop
  | .spawn _ => tus = {}
  | .upload _ pc => tus.InRange ∧ tus.PcOk pc
  | .returned _ true | .join _ true | .result _ true => tus.status = .finished ∨ tus.Interrupted
  | _ => True

/-- **The invariant of an attempt**: an interruption of the `TusClient` shows in the job's
    record, the `TusClient` is as its place says, and there is a poller only beside an
    attempt. -/
structure AttemptOk (s : State) : Prop where
  shows : ∀ r job, s.worker.attempt = some r → s.jobs.deref r = some job →
    Shows s.tus s.poller job.status
  place : PlaceOk s.tus s.worker
  alone : s.worker.attempt = none → s.poller = .none

theorem attemptOk_init : AttemptOk State.init := ⟨nofun, trivial, fun _ => rfl⟩

/-- Beside a poller that is not about to interrupt, only the `TusClient` counts. -/
theorem Shows.of_calm {tus : TusClient} {p : PollerPc} {status : UploadStatus}
    (hpause : tus.status = .paused → status = .paused ∨ status = .cancelled)
    (hcancel : tus.status = .canceled → status = .cancelled) (hp : p.calm = true) :
    Shows tus p status := by
  refine ⟨hpause, hcancel, ?_, ?_⟩
  · rintro (rfl | rfl) <;> cases hp
  · rintro rfl
    cases hp

theorem Shows.poller {tus : TusClient} {p q : PollerPc} {status : UploadStatus}
    (h : Shows tus p status) (hq : q.calm = true) : Shows tus q status :=
  .of_calm h.paused h.canceled hq

/-- A client call under the mutex: the poller is not about to interrupt, and what the call does
    to the record keeps an interruption visible. -/
theorem Shows.move {v : RefVector UploadJob} {r : Ref} {job : UploadJob} {a : Act}
    {status : UploadStatus} {tus : TusClient} {p : PollerPc} (h : Shows tus p job.status)
    (hm : StatusMove v r job a status)
    (hfree : status = job.status ∨ p.calm = true)
    (hres : ∀ jobId, a = .resume jobId → v.Current r → job.id = jobId → job.status = .paused →
      tus.status ≠ .paused) : Shows tus p status := by
  rcases hfree with e | hcalm
  · rw [e]
    exact h
  have hp : tus.status = .paused → status = .paused ∨ status = .cancelled := by
    intro htus
    cases hm with
    | same => exact h.paused htus
    | pause => exact Or.inl rfl
    | resume hst hcur => exact absurd htus (hres job.id rfl hcur rfl hst)
    | cancel => exact Or.inr rfl
    | retry hst =>
      have := h.paused htus
      rw [hst] at this
      rcases this with this | this <;> cases this
  have hc : tus.status = .canceled → status = .cancelled := by
    intro htus
    have hst := h.canceled htus
    cases hm with
    | same => exact hst
    | pause hst' | resume hst' _ | retry hst' => rw [hst] at hst'; cases hst'
    | cancel => rfl
  exact .of_calm hp hc hcalm

/-! ## 4. Every step keeps the invariant -/

section Steps

variable {cfg : Cfg} {s t : State}

/-- `updateFirst` touches neither the threads nor the `TusClient` nor the flag between them. -/
theorem updateFirst_frame (s : State) (jobId : String) (guard : UploadJob → Bool)
    (change : UploadJob → UploadJob) (push : Bool) (status : UploadStatus) (message : String) :
    let t := updateFirst s jobId guard change push status message
    t.worker = s.worker ∧ t.poller = s.poller ∧ t.tus = s.tus ∧ t.uploadDone = s.uploadDone := by
  unfold updateFirst
  cases s.jobs.elems.findIdx? (fun job => job.id == jobId && guard job) <;>
    exact ⟨rfl, rfl, rfl, rfl⟩

theorem enqueue_frame (jobId filePath serverUrl title description : String) :
    let t := (enqueue cfg s jobId filePath serverUrl title description).1
    t.worker = s.worker ∧ t.poller = s.poller ∧ t.tus = s.tus ∧ t.uploadDone = s.uploadDone := by
  unfold enqueue
  split <;> exact ⟨rfl, rfl, rfl, rfl⟩

theorem locked_free {u : State} (h : s.locked u = some t) : s.mutexFree = true := by
  unfold State.locked at h
  split at h
  · assumption
  · cases h

/-- **A client call changes job records at most, and only with the mutex free.** -/
theorem client_frame {a : Act} (h : step cfg s a = some t) (hw : ∀ e, a ≠ .worker e)
    (hp : a ≠ .poller) :
    (t.worker = s.worker ∧ t.poller = s.poller ∧ t.tus = s.tus ∧ t.uploadDone = s.uploadDone) ∧
      (t.jobs = s.jobs ∨ s.mutexFree = true) := by
  unfold step at h
  split at h
  · cases h
  cases a with
  | enqueue jobId filePath serverUrl title description =>
    rw [locked_some h]
    exact ⟨enqueue_frame .., Or.inr (locked_free h)⟩
  | pause jobId | resume jobId | cancel jobId | retry jobId =>
    rw [locked_some h]
    exact ⟨updateFirst_frame .., Or.inr (locked_free h)⟩
  | setAuthToken token =>
    rw [locked_some h]
    exact ⟨⟨rfl, rfl, rfl, rfl⟩, Or.inl rfl⟩
  | pauseAll | resumeAll | destroy =>
    cases h
    exact ⟨⟨rfl, rfl, rfl, rfl⟩, Or.inl rfl⟩
  | worker e => exact absurd rfl (hw e)
  | poller => exact absurd rfl hp

theorem calm_of_free (h : s.mutexFree = true) : s.poller.calm = true := by
  unfold State.mutexFree at h
  cases hp : s.poller <;> simp [hp, PollerPc.calm] at h ⊢

/-- The record of a running attempt, before a step that lets the attempt go on. -/
theorem attempt_statusMove {a : Act} {r : Ref} {job' : UploadJob} (hs : step cfg s a = some t)
    (hO : HoldOk s.ledger) (hr : s.worker.attempt = some r) (hr' : t.worker.attempt = some r)
    (hjob' : t.jobs.deref r = some job') :
    ∃ job, s.jobs.deref r = some job ∧ StatusMove s.jobs r job a job'.status := by
  have hh : s.ledger.hold = .running r := hold_of_attempt hr
  have hh' : t.ledger.hold = .running r := hold_of_attempt hr'
  obtain ⟨_, ⟨job, hjob, _⟩, _⟩ := hO r (by rw [hh]; rfl)
  obtain ⟨new, hnew, hm⟩ := effect_statusMove (step_effect hs) hh hh' hjob
  have e : new = job' := Option.some.inj (hnew.symm.trans hjob')
  exact ⟨job, hjob, e ▸ hm⟩

theorem client_attemptOk {a : Act} (hs : step cfg s a = some t) (hw : ∀ e, a ≠ .worker e)
    (hp : a ≠ .poller) (hT : Truthful s a) (hO : HoldOk s.ledger) (hA : AttemptOk s) :
    AttemptOk t := by
  obtain ⟨⟨ew, ep, et, _⟩, hfree⟩ := client_frame hs hw hp
  refine ⟨?_, by rw [et, ew]; exact hA.place, by rw [ew, ep]; exact hA.alone⟩
  intro r job' hr' hjob'
  have hr : s.worker.attempt = some r := by rw [← ew]; exact hr'
  obtain ⟨job, hjob, hm⟩ := attempt_statusMove hs hO hr hr' hjob'
  rw [et, ep]
  refine (hA.shows r job hr hjob).move hm ?_ ?_
  · rcases hfree with hsame | hfree
    · rw [hsame, hjob] at hjob'
      cases hjob'
      exact Or.inl rfl
    · exact Or.inr (calm_of_free hfree)
  · intro jobId ha hcur hid hst
    subst ha
    exact hT r hr hcur job hjob hid hst

/-- A poller's step keeps the invariant if it keeps what the status shows and the
    `TusClient`'s place. -/
theorem attemptOk_of_poller (hs : step cfg s .poller = some t) (ew : t.worker = s.worker)
    (hO : HoldOk s.ledger) (hA : AttemptOk s) (hne : s.poller ≠ .none)
    (hshow : ∀ r job, s.worker.job = some r → s.jobs.deref r = some job →
      Shows s.tus s.poller job.status → Shows t.tus t.poller job.status)
    (hplace : PlaceOk s.tus s.worker → PlaceOk t.tus s.worker) : AttemptOk t := by
  refine ⟨?_, by rw [ew]; exact hplace hA.place, ?_⟩
  · intro r job' hr' hjob'
    have hr : s.worker.attempt = some r := by rw [← ew]; exact hr'
    obtain ⟨job, hjob, hm⟩ := attempt_statusMove hs hO hr hr' hjob'
    have hstatus : job'.status = job.status := by
      generalize hst : job'.status = status at hm
      cases hm with
      | same => rfl
    have hheld : s.worker.job = some r := by
      rw [← WorkerPc.hold_job, hold_of_attempt hr]
      rfl
    rw [hstatus]
    exact hshow r job hheld hjob (hA.shows r job hr hjob)
  · intro hnone
    rw [ew] at hnone
    exact absurd (hA.alone hnone) hne

/-- `cancel()` and the store of `pause()` interrupt at any place. -/
theorem placeOk_interrupt {tus tus' : TusClient} {w : WorkerPc} (hsp : ∀ r, w ≠ .spawn r)
    (h : PlaceOk tus w) (hrange : tus.InRange → tus'.InRange)
    (hlen : tus'.uploadLength = tus.uploadLength) (hi : tus'.Interrupted) : PlaceOk tus' w := by
  cases w with
  | spawn r => exact absurd rfl (hsp r)
  | upload r pc => exact ⟨hrange h.1, TusClient.pcOk_interrupt h.2 hlen hi⟩
  | returned r b | join r b | result r b =>
    cases b with
    | true => exact Or.inr hi
    | false => trivial
  | _ => trivial

theorem poller_attemptOk (hs : step cfg s .poller = some t) (hO : HoldOk s.ledger)
    (hA : AttemptOk s) : AttemptOk t := by
  have hsp : s.poller ≠ .none → ∀ r, s.worker ≠ .spawn r := by
    intro hne r hw
    exact hne (hA.alone (by rw [hw]; rfl))
  -- the poller reads the record of the attempt
  have hsame : ∀ {r q job old}, s.worker.job = some q → s.jobs.deref q = some job →
      s.worker.job = some r → s.jobs.deref r = some old → old = job := by
    intro r q job old hq hjob hr hold
    rw [hq] at hr
    cases hr
    exact Option.some.inj (hold.symm.trans hjob)
  cases pollerStep_move (step_poller hs) with
  | loop hp =>
    refine attemptOk_of_poller hs rfl hO hA (by rw [hp]; nofun)
      (fun r job _ _ hsh => hsh.poller ?_) id
    dsimp only
    split <;> rfl
  | read hp | store _ _ hp | report _ _ _ hp | seesNothing _ _ hp | setDone hp =>
    exact attemptOk_of_poller hs rfl hO hA (by rw [hp]; nofun)
      (fun r job _ _ hsh => hsh.poller rfl) id
  | seesCancel q job hp hq hjob hst =>
    refine attemptOk_of_poller hs rfl hO hA (by rw [hp]; nofun) (fun r old hr hold hsh => ?_) id
    rw [hsame hq hjob hr hold] at hsh ⊢
    exact ⟨hsh.paused, hsh.canceled, (by rintro (e | e) <;> cases e), fun _ => hst⟩
  | seesPause q job hp hq hjob hst =>
    refine attemptOk_of_poller hs rfl hO hA (by rw [hp]; nofun) (fun r old hr hold hsh => ?_) id
    rw [hsame hq hjob hr hold] at hsh ⊢
    exact ⟨hsh.paused, hsh.canceled, fun _ => hst, nofun⟩
  | cancel hp =>
    have hne : s.poller ≠ .none := by rw [hp]; nofun
    by_cases hloc : s.tus.tusLocation = ""
    · have e : s.tus.cancelNow = s.tus := if_pos hloc
      refine attemptOk_of_poller hs rfl hO hA hne (fun r job _ _ hsh => ?_) (by rw [e]; exact id)
      dsimp only
      rw [e]
      exact hsh.poller rfl
    · have e : s.tus.cancelNow = { s.tus with status := .canceled } := if_neg hloc
      refine attemptOk_of_poller hs rfl hO hA hne (fun r job _ _ hsh => ?_) (fun hpl => ?_)
      · have hst := hsh.canceling hp
        exact .of_calm (fun _ => Or.inr hst) (fun _ => hst) rfl
      · dsimp only
        rw [e]
        exact placeOk_interrupt (hsp hne) hpl id rfl (Or.inr rfl)
  | pauseTest hp =>
    refine attemptOk_of_poller hs rfl hO hA (by rw [hp]; nofun) (fun r job _ _ hsh => ?_) id
    have hst := hsh.pausing (Or.inl hp)
    refine ⟨hsh.paused, hsh.canceled, fun _ => hst, ?_⟩
    dsimp only
    split <;> nofun
  | pauseStore hp =>
    have hne : s.poller ≠ .none := by rw [hp]; nofun
    refine attemptOk_of_poller hs rfl hO hA hne (fun r job _ _ hsh => ?_) (fun hpl => ?_)
    · have hst := hsh.pausing (Or.inr hp)
      exact .of_calm (fun _ => Or.inl hst) nofun rfl
    · exact placeOk_interrupt (hsp hne) hpl id rfl (Or.inl rfl)

/-- Outside an attempt there is nothing to show. -/
theorem attemptOk_idle (hw : t.worker.attempt = none) (hp : t.poller = .none)
    (hplace : PlaceOk t.tus t.worker) : AttemptOk t := by
  refine ⟨fun r job hr _ => ?_, hplace, fun _ => hp⟩
  rw [hw] at hr
  cases hr

/-- The result section leads to the top of the loop, without a poller, and leaves the client and
    the progress reports alone. -/
theorem handleResult_frame (s : State) (r : Ref) (job : UploadJob) (success : Bool) :
    (handleResult s r job success).worker = .head ∧
      (handleResult s r job success).poller = .none ∧
      (handleResult s r job success).tus = s.tus ∧
      (handleResult s r job success).progressLog = s.progressLog := by
  unfold handleResult
  dsimp only
  repeat' split
  all_goals exact ⟨rfl, rfl, rfl, rfl⟩

/-- A move of `upload()` leaves the client to show what it showed: its status turns PAUSED or
    CANCELED by the poller alone. -/
theorem upload_shows {e : TusEvent} {r : Ref} {pc : UploadPc} {tus : TusClient} {o : Outcome}
    (hw : s.worker = .upload r pc) (hup : s.tus.uploadStep pc e = some (tus, o))
    (hA : AttemptOk s) {job : UploadJob} (hjob : s.jobs.deref r = some job) :
    Shows tus s.poller job.status := by
  have hsh := hA.shows r job (by rw [hw]; rfl) hjob
  refine ⟨fun hst => hsh.paused ?_, fun hst => hsh.canceled ?_, hsh.pausing, hsh.canceling⟩
  · rw [← TusClient.uploadStep_interrupted hup (Or.inl hst)]
    exact hst
  · rw [← TusClient.uploadStep_interrupted hup (Or.inr hst)]
    exact hst

/-- **Every move of the worker keeps the invariant.** -/
theorem worker_attemptOk {e : TusEvent} (h : workerStep cfg s e = some t)
    (hoff : s.worker.uploading → s.tus.OffsetOk e) (hA : AttemptOk s) : AttemptOk t := by
  have halone := hA.alone
  have hplace := hA.place
  cases workerStep_move h with
  | head hw | testPaused hw | testEmpty hw =>
    rw [hw] at halone
    refine attemptOk_idle ?_ (halone rfl) ?_ <;> dsimp only <;> split <;> trivial
  | popNone hw | pop _ _ hw | lose _ hw | find _ _ hw | skip _ _ _ hw | clear _ _ _ hw
  | start _ _ hw | notify _ _ hw | noClient _ _ hw | noThread _ _ hw =>
    rw [hw] at halone
    exact attemptOk_idle rfl (halone rfl) trivial
  | construct r hw =>
    rw [hw] at halone
    exact attemptOk_idle rfl (halone rfl) rfl
  | spawn r hw =>
    -- a fresh `TusClient`, with the token at most
    rw [hw] at hplace
    have hfresh : s.tus = {} := hplace
    have hready : ∀ token, (if token = "" then s.tus else { s.tus with token := token }).status =
          .ready ∧
        (if token = "" then s.tus else { s.tus with token := token }).uploadLength = 0 := by
      intro token
      rw [hfresh]
      split <;> exact ⟨rfl, rfl⟩
    obtain ⟨hst, hlen⟩ := hready s.authToken
    refine ⟨fun q job _ _ => .of_calm ?_ ?_ rfl, ⟨fun hne => absurd hlen hne, trivial⟩, nofun⟩
    · intro hp
      rw [hst] at hp
      cases hp
    · intro hc
      rw [hst] at hc
      cases hc
  | upload r pc pc' tus hw hup =>
    rw [hw] at hplace hoff
    refine ⟨fun q job hq hjob => ?_, TusClient.uploadStep_ok hup hplace.1 hplace.2 (hoff rfl), nofun⟩
    cases hq
    exact upload_shows hw hup hA hjob
  | uploaded r pc tus success hw hup =>
    rw [hw] at hplace hoff
    obtain ⟨_, hout⟩ := TusClient.uploadStep_ok hup hplace.1 hplace.2 (hoff rfl)
    refine ⟨fun q job hq hjob => ?_, ?_, nofun⟩
    · cases hq
      exact upload_shows hw hup hA hjob
    · cases success with
      | true => exact hout
      | false => trivial
  | terminate | unwind | caught => exact attemptOk_idle rfl rfl trivial
  | returned r success hw | join r success hw =>
    refine ⟨fun q job hq hjob => hA.shows q job (by rw [hw]; exact hq) hjob, ?_, nofun⟩
    rw [hw] at hplace
    cases success <;> exact hplace
  | result r success job =>
    obtain ⟨ew, ep, _⟩ := handleResult_frame s r job success
    exact attemptOk_idle (by rw [ew]; rfl) ep (by rw [ew]; trivial)

/-- **Every step that meets `Truthful` keeps the invariant of an attempt.** -/
theorem step_attemptOk {a : Act} (hs : step cfg s a = some t) (hT : Truthful s a)
    (hO : HoldOk s.ledger) (hA : AttemptOk s) : AttemptOk t := by
  cases a with
  | worker e => exact worker_attemptOk (step_worker hs) hT hA
  | poller => exact poller_attemptOk hs hO hA
  | _ => exact client_attemptOk hs nofun nofun hT hO hA

theorem reach_attemptOk (h : (engine cfg).Reach Truthful s) : AttemptOk s ∧ HoldOk s.ledger := by
  refine Machine.Steps.invariant (I := fun s => AttemptOk s ∧ HoldOk s.ledger) h
    ⟨attemptOk_init, nofun⟩ ?_
  intro u a v hI hc hs
  exact ⟨step_attemptOk hs hc hI.2 hI.1, effect_holdOk (step_effect hs) hI.2⟩

end Steps

/-! ## 5. COMPLETED means FINISHED -/

/-- The step sets the record the reference denotes to COMPLETED. -/
def Completes (s t : State) (r : Ref) : Prop :=
  ∃ job job', s.jobs.deref r = some job ∧ t.jobs.deref r = some job' ∧
    job.status ≠ .completed ∧ job'.status = .completed

/-- A change through one reference, read through another. -/
theorem deref_assign_cases {v : RefVector UploadJob} {q r : Ref} {job : UploadJob}
    (f : UploadJob → UploadJob) (hr : v.deref r = some job) :
    (v.assign q f).deref r = some job ∨ q = r ∧ (v.assign q f).deref r = some (f job) := by
  by_cases hq : q = r
  · subst hq
    exact Or.inr ⟨rfl, by rw [RefVector.deref_assign, hr]; rfl⟩
  · exact Or.inl ((RefVector.deref_assign_ne v f hq).trans hr)

/-- **Only the worker sets COMPLETED, on the record it runs on**, and it looks at the status
    first. -/
theorem effect_completes {cfg : Cfg} {c : Option Ref} {L L' : Ledger} {a : Act} {r : Ref}
    {job job' : UploadJob} (h : Effect cfg c L a L') (hr : L.jobs.deref r = some job)
    (hr' : L'.jobs.deref r = some job') (hne : job.status ≠ .completed)
    (hst : job'.status = .completed) :
    (∃ e, a = .worker e) ∧ L.hold = .running r ∧ job.status ≠ .cancelled ∧
      job.status ≠ .paused := by
  -- the record is unchanged, or changed to a record with another status
  have hsame : L'.jobs.deref r ≠ some job := by
    intro e
    rw [hr'] at e
    cases e
    exact hne hst
  have hother : ∀ new : UploadJob, new.status ≠ .completed → L'.jobs.deref r ≠ some new := by
    intro new hnew e
    rw [hr'] at e
    cases e
    exact hnew hst
  cases h with
  | quiet | pop | lose | find | skip | clear | keep | terminate => exact absurd hr hsame
  | enqueue => exact absurd (RefVector.deref_pushBack hr) hsame
  | pause i old hi _ | resume i old hi _ | cancel i old hi | retry i old hi _ =>
    rcases deref_modifyAt_cases _ hi hr with e | ⟨_, _, e⟩
    · exact absurd e hsame
    · exact absurd e (hother _ nofun)
  | start e jobId q _ | requeue e q old _ _ _ _ _ | fail e q old _ _ _ _ _ | caught e q old _ _ _ =>
    rcases deref_assign_cases _ hr with e | ⟨_, e⟩
    · exact absurd e hsame
    · exact absurd e (hother _ nofun)
  | progress q p _ =>
    rcases deref_assign_cases _ hr with e | ⟨_, e⟩
    · exact absurd e hsame
    · exact absurd e (hother _ hne)
  | complete e q old hh hold hc hp =>
    by_cases hq : q = r
    · subst hq
      rw [hr] at hold
      cases hold
      exact ⟨⟨e, rfl⟩, hh, hc, hp⟩
    · exact absurd ((RefVector.deref_assign_ne L.jobs _ hq).trans hr) hsame

/-- Behind a `false` of `upload()` the result section does not store COMPLETED. -/
theorem handleResult_false {s : State} {r : Ref} {job job' : UploadJob}
    (hr : s.jobs.deref r = some job) (hne : job.status ≠ .completed)
    (hr' : (handleResult s r job false).jobs.deref r = some job') : job'.status ≠ .completed := by
  have hassign : ∀ f : UploadJob → UploadJob, (∀ j, (f j).status ≠ .completed) →
      (s.jobs.assign r f).deref r = some job' → job'.status ≠ .completed := by
    intro f hf h
    rw [RefVector.deref_assign, hr] at h
    cases h
    exact hf job
  have hkeep : s.jobs.deref r = some job' → job'.status ≠ .completed := by
    intro h
    rw [hr] at h
    cases h
    exact hne
  unfold handleResult at hr'
  by_cases hc : job.status = .cancelled
  · rw [if_pos hc] at hr'
    exact hkeep hr'
  rw [if_neg hc] at hr'
  by_cases hp : job.status = .paused
  · rw [if_pos hp] at hr'
    exact hkeep hr'
  rw [if_neg hp, if_neg Bool.false_ne_true] at hr'
  by_cases hn : job.retryCount + 1 < viralUploadMaxRetry
  · rw [if_pos hn] at hr'
    refine hassign _ ?_ hr'
    exact fun _ => nofun
  · rw [if_neg hn] at hr'
    refine hassign _ ?_ hr'
    exact fun _ => nofun

/-- COMPLETED is stored behind a `true` of `upload()`. -/
theorem completes_result {cfg : Cfg} {s t : State} {a : Act} {r : Ref}
    (hs : step cfg s a = some t) (hc : Completes s t r) :
    s.worker = .result r true ∧ ∃ job, s.jobs.deref r = some job ∧ job.status ≠ .cancelled ∧
      job.status ≠ .paused := by
  obtain ⟨job, job', hr, hr', hne, hst⟩ := hc
  obtain ⟨⟨e, rfl⟩, hh, hnc, hnp⟩ := effect_completes (step_effect hs) hr hr' hne hst
  refine ⟨?_, job, hr, hnc, hnp⟩
  have hsame : t.jobs ≠ s.jobs := by
    intro e
    rw [e, hr] at hr'
    cases hr'
    exact hne hst
  change s.worker.hold = .running r at hh
  cases workerStep_move (step_worker hs) with
  | head hw | testPaused hw | testEmpty hw | popNone hw | pop _ _ hw | lose _ hw | find _ _ hw
  | skip _ _ _ hw | clear _ _ _ hw | start _ _ hw =>
    rw [hw] at hh
    cases hh
  | notify | noClient | construct | noThread | spawn | upload | uploaded | terminate | unwind
  | returned | join => exact absurd rfl hsame
  | result q b old hw hfree hold =>
    rw [hw] at hh
    obtain rfl : q = r := Hold.running.inj hh
    cases b with
    | true => exact hw
    | false =>
      rw [hr] at hold
      cases hold
      exact absurd hst (handleResult_false hr hne hr')
  | caught q what old hw hfree hold =>
    rw [hw] at hh
    obtain rfl : q = r := Hold.running.inj hh
    have e : (s.jobs.assign q fun j => { j with status := .failed }).deref q = some job' := hr'
    rw [RefVector.deref_assign, hr] at e
    cases e
    cases hst

/-- **Completion is truthful**, in every run in which no `resume` meets a job whose attempt is
    still inside `processJob` with its `TusClient` PAUSED, and in which the server reports no
    offset beyond the length: a record is set to COMPLETED only when the `TusClient` of the
    attempt ended FINISHED. -/
theorem completionTruthful {cfg : Cfg} {s t : State} {a : Act} {r : Ref}
    (h : (engine cfg).Reach Truthful s) (hs : step cfg s a = some t) (hc : Completes s t r) :
    s.worker.attempt = some r ∧ s.tus.status = .finished := by
  obtain ⟨hA, _⟩ := reach_attemptOk h
  obtain ⟨hw, job, hjob, hnc, hnp⟩ := completes_result hs hc
  have hattempt : s.worker.attempt = some r := by
    rw [hw]
    rfl
  have hplace := hA.place
  rw [hw] at hplace
  have hsh := hA.shows r job hattempt hjob
  refine ⟨hattempt, ?_⟩
  rcases hplace with hfin | hpaused | hcanceled
  · exact hfin
  · rcases hsh.paused hpaused with e | e
    · exact absurd e hnp
    · exact absurd e hnc
  · exact absurd (hsh.canceled hcanceled) hnc

theorem completionTruthful_emptyFile : ∃ s t, (engine defaultCfg).Reach Truthful s ∧
    step defaultCfg s (.worker .go) = some t ∧ Completes s t ⟨1, 0⟩ ∧
    s.worker.attempt = some ⟨1, 0⟩ ∧ s.tus.status = .finished := by
  have h : ((engine defaultCfg).exec State.init
      (oneAttempt ++ begins 0 ++ finishes.take 4)).bind (fun s =>
        (step defaultCfg s (.worker .go)).map fun t =>
          ((s.jobs.deref ⟨1, 0⟩).map (·.status), (t.jobs.deref ⟨1, 0⟩).map (·.status))) =
      some (some .uploading, some .completed) := by
    decide
  obtain ⟨s, hs, h⟩ := Option.bind_eq_some_iff.mp h
  obtain ⟨t, ht, hobs⟩ := Option.map_eq_some_iff.mp h
  simp only [Prod.mk.injEq, Option.map_eq_some_iff] at hobs
  obtain ⟨⟨job, hjob, hst⟩, job', hjob', hst'⟩ := hobs
  have hreach : (engine defaultCfg).Reach Truthful s := Machine.steps_of_exec hs (by decide)
  have hc : Completes s t ⟨1, 0⟩ := ⟨job, job', hjob, hjob', by rw [hst]; nofun, hst'⟩
  exact ⟨s, t, hreach, ht, hc, completionTruthful hreach ht hc⟩

/-- The poller sees PAUSED and pauses the `TusClient`; the chunk loop is left before its first
    round, and before the result is handled the job is resumed. -/
def pausedThenResumed : List Act :=
  oneAttempt ++ begins 10000000 ++ .pause "job-a" :: pollerRound ++
    [.worker .go, .worker .go, .worker .go, .resume "job-a", .worker .go, .worker .go]

/-- **Pause and resume inside one attempt**: the record is set to COMPLETED with the `TusClient`
    PAUSED and not a byte of the file sent. -/
theorem completion_resumedAfterPause : ∃ s t, (engine defaultCfg).Reach ChunksAsCut s ∧
    step defaultCfg s (.worker .go) = some t ∧ Completes s t ⟨1, 0⟩ ∧
    s.tus.status = .paused ∧ s.tus.uploadOffset = 0 ∧ s.tus.uploadLength = 10000000 := by
  have h : ((engine defaultCfg).exec State.init pausedThenResumed).bind (fun s =>
      (step defaultCfg s (.worker .go)).map fun t =>
        ((s.jobs.deref ⟨1, 0⟩).map (·.status), (t.jobs.deref ⟨1, 0⟩).map (·.status),
          s.tus.status, s.tus.uploadOffset, s.tus.uploadLength)) =
      some (some .queued, some .completed, .paused, 0, 10000000) := by
    decide
  obtain ⟨s, hs, h⟩ := Option.bind_eq_some_iff.mp h
  obtain ⟨t, ht, hobs⟩ := Option.map_eq_some_iff.mp h
  simp only [Prod.mk.injEq, Option.map_eq_some_iff] at hobs
  obtain ⟨⟨job, hjob, hst⟩, ⟨job', hjob', hst'⟩, htus, hoff, hlen⟩ := hobs
  exact ⟨s, t, Machine.steps_of_exec hs (by decide), ht,
    ⟨job, job', hjob, hjob', by rw [hst]; nofun, hst'⟩, htus, hoff, hlen⟩

end Viral.Upload
