/-
  File:      ViralEngine/Upload/Interrupt.lean
  Subject:   DOES A PAUSE OR A CANCEL STOP THE TRANSFER?

  A client call only stores PAUSED or CANCELLED in the job's record. The poller reads it there,
  makes ONE call of `pause()` or `cancel()` on the `TusClient`, and is gone. `pause()` does
  nothing unless the status is UPLOADING, `cancel()` nothing without a location, and the store
  of UPLOADING in `upload()` overwrites what came before it. From its last look at the status on
  `upload()` is not to be stopped any more. So it counts at which place of `upload()` the one
  call arrives.

  * `TusClient.CancelReaches`, `TusClient.PauseReaches`, `TusClient.LastTest` -- the places;
  * `Heeded` -- the condition on a step: the poller's call arrives in time, nothing waits for the
    poller when the last test is passed, and no call comes behind it;
  * `Heed` -- the history of an attempt: FINISHED reached, the job's status when `upload()`
    returned;
  * `TusClient.Stopped`, `uploadStep_stopped` -- a call that arrived in time stays in force;
  * `HeedOk`, `step_heedOk` -- the invariant, kept by every step that meets the condition;
  * `takesEffect` -- then a job that is left PAUSED or CANCELLED was not uploaded to the end;
  * `takesEffect_pausedWhileReady` -- a pause that meets the `TusClient` before its store of
    UPLOADING: the job is left PAUSED with the file uploaded.
-/
import ViralEngine.Upload.Completion

namespace Viral.Upload

open Viral.Lib

/-! ## 1. Where a call on the `TusClient` arrives -/

namespace TusClient

/-- `cancel()` at this place is seen by a later test of the status. -/
def CancelReaches (c : TusClient) : UploadPc → Prop
  | .begun => c.tusLocation ≠ "" ∧ c.uploadLength ≠ 0
  | .loop _ | .chunk _ | .patch _ | .stop | .stopCheck => c.tusLocation ≠ ""
  | .cleanup => True
  | _ => False

/-- The store of `pause()` at this place is seen by a later test of the status. The test in
    `stopCheck` looks for CANCELED and FAILED only. -/
def PauseReaches (c : TusClient) : UploadPc → Prop
  | .begun => c.uploadLength ≠ 0
  | .loop _ | .chunk _ | .patch _ | .stop | .cleanup => True
  | .stopCheck => ¬ c.AllSent
  | _ => False

/-- The next move goes past the last look at the status, to FINISHED. -/
def LastTest (c : TusClient) : UploadPc → Prop
  | .begun => c.uploadLength = 0
  | .stopCheck => c.AllSent ∧ c.status ≠ .canceled ∧ c.status ≠ .failed
  | _ => False

/-- The last look at the status is behind. -/
def PastTest (c : TusClient) (pc : UploadPc) : Prop := pc = .stopFinish ∨ c.status = .finished

instance (c : TusClient) : ∀ pc : UploadPc, Decidable (c.CancelReaches pc)
  | .begun => inferInstanceAs (Decidable (_ ∧ _))
  | .loop _ | .chunk _ | .patch _ | .stop | .stopCheck => inferInstanceAs (Decidable (_ ≠ _))
  | .cleanup => inferInstanceAs (Decidable True)
  | .chunkFile | .post | .head | .save | .begin | .stopFinish =>
    inferInstanceAs (Decidable False)

instance (c : TusClient) : ∀ pc : UploadPc, Decidable (c.PauseReaches pc)
  | .begun => inferInstanceAs (Decidable (_ ≠ _))
  | .loop _ | .chunk _ | .patch _ | .stop | .cleanup => inferInstanceAs (Decidable True)
  | .stopCheck => inferInstanceAs (Decidable (¬ _))
  | .chunkFile | .post | .head | .save | .begin | .stopFinish =>
    inferInstanceAs (Decidable False)

instance (c : TusClient) : ∀ pc : UploadPc, Decidable (c.LastTest pc)
  | .begun => inferInstanceAs (Decidable (_ = _))
  | .stopCheck => inferInstanceAs (Decidable (_ ∧ _))
  | .chunkFile | .post | .head | .save | .begin | .loop _ | .chunk _ | .patch _ | .stop
  | .stopFinish | .cleanup => inferInstanceAs (Decidable False)

instance (c : TusClient) (pc : UploadPc) : Decidable (c.PastTest pc) :=
  inferInstanceAs (Decidable (_ ∨ _))

/-- **The transfer is stopped**: whatever comes in, the rest of `upload()` does not reach
    FINISHED. -/
def Stopped (c : TusClient) : UploadPc → Prop
  | .begun => c.Interrupted ∧ c.uploadLength ≠ 0
  | .loop _ | .chunk _ | .patch _ | .stop => c.Interrupted
  | .stopCheck => c.status = .canceled ∨ c.status = .paused ∧ ¬ c.AllSent
  | .cleanup => c.status ≠ .finished
  | _ => False

/-- From the store of UPLOADING to the last test, only the poller's thread moves the status. -/
def Running (c : TusClient) : UploadPc → Prop
  | .begun | .loop _ | .chunk _ | .patch _ | .stop | .stopCheck =>
    c.status = .uploading ∨ c.Interrupted
  | _ => True

theorem Interrupted.ne_finished {c : TusClient} (h : c.Interrupted) : c.status ≠ .finished := by
  rcases h with h | h <;> rw [h] <;> nofun

theorem interrupted_congr {c c' : TusClient} (h : c'.status = c.status) (hi : c.Interrupted) :
    c'.Interrupted := by
  unfold Interrupted
  rw [h]
  exact hi

theorem Stopped.ne_finished {c : TusClient} {pc : UploadPc} (h : c.Stopped pc) :
    c.status ≠ .finished := by
  cases pc with
  | begun => exact h.1.ne_finished
  | loop i | chunk i | patch i | stop => exact Interrupted.ne_finished h
  | stopCheck => rcases h with h | h <;> simp [h]
  | cleanup => exact h
  | chunkFile | post | head | save | begin | stopFinish => exact h.elim

theorem Stopped.running {c : TusClient} {pc : UploadPc} (h : c.Stopped pc) : c.Running pc := by
  cases pc with
  | begun => exact Or.inr h.1
  | loop i | chunk i | patch i | stop => exact Or.inr h
  | stopCheck => exact Or.inr (h.elim Or.inr fun hp => Or.inl hp.1)
  | _ => trivial

/-- `cancel()` in time stops the transfer. -/
theorem stopped_cancelNow {c : TusClient} {pc : UploadPc} (h : c.CancelReaches pc)
    (hc : c.status ≠ .finished) : c.cancelNow.Stopped pc := by
  have hset : c.tusLocation ≠ "" → c.cancelNow = { c with status := .canceled } :=
    fun hl => if_neg hl
  cases pc with
  | begun =>
    rw [hset h.1]
    exact ⟨Or.inr rfl, h.2⟩
  | loop i | chunk i | patch i | stop =>
    rw [hset h]
    exact Or.inr rfl
  | stopCheck =>
    rw [hset h]
    exact Or.inl rfl
  | cleanup =>
    unfold cancelNow
    split
    · exact hc
    · nofun
  | chunkFile | post | head | save | begin | stopFinish => exact h.elim

/-- The store of `pause()` in time stops the transfer. -/
theorem stopped_pauseStore {c : TusClient} {pc : UploadPc} (h : c.PauseReaches pc) :
    c.pauseStore.Stopped pc := by
  cases pc with
  | begun => exact ⟨Or.inl rfl, h⟩
  | loop i | chunk i | patch i | stop => exact Or.inl rfl
  | stopCheck => exact Or.inr ⟨rfl, h⟩
  | cleanup => nofun
  | chunkFile | post | head | save | begin | stopFinish => exact h.elim

/-- A `pause()` that is refused behind the store of UPLOADING finds the transfer stopped. -/
theorem stopped_refused {c : TusClient} {pc : UploadPc} (h : c.PauseReaches pc)
    (hr : c.Running pc) (hup : c.status ≠ .uploading) (hc : c.status ≠ .finished) :
    c.Stopped pc := by
  cases pc with
  | begun => exact ⟨hr.resolve_left hup, h⟩
  | loop i | chunk i | patch i | stop => exact hr.resolve_left hup
  | stopCheck => exact (hr.resolve_left hup).elim (fun hp => Or.inr ⟨hp, h⟩) Or.inl
  | cleanup => exact hc
  | chunkFile | post | head | save | begin | stopFinish => exact h.elim

/-- What holds of the object behind a move of `upload()` that leaves it inside. -/
def OutcomeAt (P : UploadPc → Prop) : Outcome → Prop
  | .at pc => P pc
  | _ => True

/-- **A stopped transfer stays stopped**, through every move of `upload()`. -/
theorem uploadStep_stopped {c c' : TusClient} {pc : UploadPc} {e : TusEvent} {o : Outcome}
    (h : c.uploadStep pc e = some (c', o)) (hc : c.Stopped pc) :
    c'.status ≠ .finished ∧ OutcomeAt c'.Stopped o := by
  have hne := hc.ne_finished
  revert h
  fun_cases uploadStep c pc e <;> intro h
  case case11 | case22 | case31 => cases h
  all_goals obtain ⟨rfl, rfl⟩ := Prod.mk.inj (Option.some.inj h)
  case case2 | case3 | case4 | case5 | case6 | case7 | case8 | case9 | case29 => exact hc.elim
  case case12 hlen => exact absurd hlen hc.2
  case case13 => exact ⟨hne, hc.1⟩
  case case14 hmore =>
    rcases hc with hi | hi <;> rw [hmore.2] at hi <;> cases hi
  case case15 => exact ⟨hne, hc⟩
  case case16 => exact ⟨hne, hc⟩
  case case18 => exact ⟨hne, hc⟩
  case case19 =>
    refine ⟨?_, interrupted_congr (handleSuccessfulUpload_status c _) hc⟩
    rw [handleSuccessfulUpload_status]
    exact hne
  case case21 => exact ⟨hne, hc⟩
  case case24 => exact ⟨hne, hc⟩
  case case26 hnot =>
    -- PAUSED has returned here, so the interruption was a `cancel()`
    exact ⟨hne, Or.inl (hc.resolve_left hnot)⟩
  case case27 htest =>
    rcases hc with hi | ⟨_, hi⟩
    · exact absurd hi htest.2.1
    · exact absurd htest.1 hi
  case case28 => exact ⟨hne, hne⟩
  case case10 | case20 | case23 =>
    refine ⟨?_, trivial⟩
    intro hfinished
    cases hfinished
  all_goals exact ⟨hne, trivial⟩

/-- **The ways to FINISHED**: behind the last test, or with nothing to send. -/
theorem uploadStep_finished {c c' : TusClient} {pc : UploadPc} {e : TusEvent} {o : Outcome}
    (h : c.uploadStep pc e = some (c', o)) (hc : c.status ≠ .finished)
    (hc' : c'.status = .finished) :
    pc = .stopFinish ∧ o = .at .cleanup ∨
      c.LastTest pc ∧ e = .go ∧ ∃ success, o = .returned success := by
  revert h
  fun_cases uploadStep c pc e <;> intro h
  case case11 | case22 | case31 => cases h
  all_goals obtain ⟨rfl, rfl⟩ := Prod.mk.inj (Option.some.inj h)
  case case5 | case7 | case9 | case10 | case20 | case23 => cases hc'
  case case6 => exact absurd ((headSuccess_status c _ _).symm.trans hc') hc
  case case19 => exact absurd ((handleSuccessfulUpload_status c _).symm.trans hc') hc
  case case12 hlen => exact Or.inr ⟨hlen, rfl, true, rfl⟩
  case case29 => exact Or.inl ⟨rfl, rfl⟩
  all_goals exact absurd hc' hc

/-- The place behind the last test is reached by passing it. -/
theorem uploadStep_stopFinish {c c' : TusClient} {pc : UploadPc} {e : TusEvent}
    (h : c.uploadStep pc e = some (c', .at .stopFinish)) : c.LastTest pc ∧ e = .go := by
  revert h
  fun_cases uploadStep c pc e <;> intro h
  case case11 | case22 | case31 => cases h
  case case27 htest => exact ⟨htest, rfl⟩
  all_goals cases (Prod.mk.inj (Option.some.inj h)).2

/-- From the last place of `upload()` there is no way back into it. -/
theorem uploadStep_cleanup {c c' : TusClient} {e : TusEvent} {o : Outcome}
    (h : c.uploadStep .cleanup e = some (c', o)) : c' = c ∧ ∀ pc, o ≠ .at pc := by
  cases e with
  | throws what | go =>
    obtain ⟨rfl, rfl⟩ := Prod.mk.inj (Option.some.inj h)
    exact ⟨rfl, nofun⟩
  | _ => cases h

/-- **`upload()` itself leaves UPLOADING only for FAILED and FINISHED.** -/
theorem uploadStep_running {c c' : TusClient} {pc : UploadPc} {e : TusEvent} {o : Outcome}
    (h : c.uploadStep pc e = some (c', o)) (hc : c.Running pc) : OutcomeAt c'.Running o := by
  revert h
  fun_cases uploadStep c pc e <;> intro h
  case case11 | case22 | case31 => cases h
  all_goals obtain ⟨rfl, rfl⟩ := Prod.mk.inj (Option.some.inj h)
  case case9 => exact Or.inl rfl
  case case13 | case14 | case15 | case16 | case18 | case21 | case24 | case26 => exact hc
  case case19 =>
    simpa only [OutcomeAt, Running, Interrupted, handleSuccessfulUpload_status] using hc
  all_goals trivial

end TusClient

/-! ## 2. The condition and the history -/

/-- The client has asked for the transfer to end. -/
def UploadStatus.Asked (status : UploadStatus) : Prop := status = .paused ∨ status = .cancelled

instance (status : UploadStatus) : Decidable status.Asked := inferInstanceAs (Decidable (_ ∨ _))

/-- The poller has made its call on the `TusClient`. -/
def PollerPc.forwarded : PollerPc → Bool
  | .setDone | .exited => true
  | _ => false

/-- The reference and the place of a worker inside `upload()`. -/
def WorkerPc.place : WorkerPc → Option (Ref × UploadPc)
  | .upload r pc => some (r, pc)
  | _ => none

/-- The call the poller is about to make arrives in time. -/
def Arrives (c : TusClient) (pc : UploadPc) : PollerPc → Prop
  | .cancel => c.CancelReaches pc
  | .pauseTest | .pauseStore => c.PauseReaches pc
  | _ => True

instance (c : TusClient) (pc : UploadPc) : ∀ p : PollerPc, Decidable (Arrives c pc p)
  | .cancel => inferInstanceAs (Decidable (c.CancelReaches pc))
  | .pauseTest | .pauseStore => inferInstanceAs (Decidable (c.PauseReaches pc))
  | .none | .loop | .read | .store _ | .report _ | .check | .setDone | .exited =>
    inferInstanceAs (Decidable True)

/-- **The condition.** While the worker is inside `upload()`: the poller's call arrives in time;
    the last test is not passed with a request in the record that the poller has yet to hand on;
    and no `pause` or `cancel` changes the record behind the last test. -/
def Heeded (s : State) : Act → Prop
  | .poller => ∀ w ∈ s.worker.place, Arrives s.tus w.2 s.poller
  | .worker e => ∀ w ∈ s.worker.place, e = .go → s.tus.LastTest w.2 →
      s.poller.forwarded = false → ∀ job ∈ s.jobs.deref w.1, ¬ job.status.Asked
  | .pause jobId => ∀ w ∈ s.worker.place, s.tus.PastTest w.2 → s.jobs.Current w.1 →
      ∀ job ∈ s.jobs.deref w.1, job.id = jobId → job.status ≠ .uploading
  | .cancel jobId => ∀ w ∈ s.worker.place, s.tus.PastTest w.2 → s.jobs.Current w.1 →
      ∀ job ∈ s.jobs.deref w.1, job.id ≠ jobId
  | _ => True

instance (s : State) : ∀ a : Act, Decidable (Heeded s a)
  | .poller => inferInstanceAs (Decidable (∀ w ∈ s.worker.place, _))
  | .worker _ => inferInstanceAs (Decidable (∀ w ∈ s.worker.place, _))
  | .pause _ => inferInstanceAs (Decidable (∀ w ∈ s.worker.place, _))
  | .cancel _ => inferInstanceAs (Decidable (∀ w ∈ s.worker.place, _))
  | .enqueue .. | .resume _ | .retry _ | .pauseAll | .resumeAll | .setAuthToken _ | .destroy =>
    inferInstanceAs (Decidable True)

/-- What is remembered of an attempt: its `TusClient` has been FINISHED; the status of the job
    when `upload()` returned. -/
structure Heed where
  finished : Bool
  atReturn : Option UploadStatus
  deriving DecidableEq, Repr

/-- Every attempt starts with a blank memory; each move of `upload()` is looked at. -/
def Heed.note (g : Heed) (s : State) (a : Act) (t : State) : Heed :=
  match a, s.worker with
  | .worker _, .spawn _ => ⟨false, none⟩
  | .worker _, .upload r _ =>
    { finished := g.finished || t.tus.status == .finished
      atReturn :=
        match t.worker with
        | .returned _ _ => (t.jobs.deref r).map (·.status)
        | _ => g.atReturn }
  | _, _ => g

/-- The engine with the memory of its attempts. -/
def heeding (cfg : Cfg) : Machine (State × Heed) Act := (engine cfg).watch ⟨false, none⟩ Heed.note

/-! ## 3. The invariant -/

/-- What holds while the worker is at `pc` of `upload()`, for the status of the job's record. -/
structure Heard (c : TusClient) (p : PollerPc) (uploadDone : Bool) (pc : UploadPc)
    (status : UploadStatus) : Prop where
  running : c.Running pc
  done : c.status = .finished → pc = .cleanup
  pausing : p = .pauseTest ∨ p = .pauseStore → status = .paused
  canceling : p = .cancel → status = .cancelled
  stopped : p.forwarded = true → c.Stopped pc
  waiting : p.forwarded = false → uploadDone = false
  past : c.PastTest pc → ¬ status.Asked

/-- `upload()` has returned and its result is not yet handled. -/
def WorkerPc.returning : WorkerPc → Bool
  | .returned _ _ | .join _ _ | .result _ _ => true
  | _ => false

theorem WorkerPc.attempt_of_returning {w : WorkerPc} (h : w.returning = true) :
    w.attempt ≠ none := by
  cases w <;> cases h <;> nofun

/-- **The invariant of the engine and its memory.** -/
structure HeedOk (s : State) (g : Heed) : Prop where
  heard : ∀ r pc job, s.worker = .upload r pc → s.jobs.deref r = some job →
    Heard s.tus s.poller s.uploadDone pc job.status
  now : ∀ r pc, s.worker = .upload r pc → g.finished = true → s.tus.status = .finished
  returning : s.worker.returning = true → ∀ status, g.atReturn = some status → status.Asked →
    g.finished = false
  fresh : ∀ r, s.worker = .spawn r → s.tus = {}
  alone : s.worker.attempt = none → s.poller = .none

theorem heedOk_init : HeedOk State.init ⟨false, none⟩ where
  heard _ _ _ hw := nomatch hw
  now _ _ hw := nomatch hw
  returning hr := nomatch hr
  fresh _ hw := nomatch hw
  alone _ := rfl

section Heard

variable {c c' : TusClient} {p q : PollerPc} {d : Bool} {pc : UploadPc} {status : UploadStatus}

/-- The poller goes on without a call on the `TusClient`. -/
theorem Heard.goes_on (h : Heard c p d pc status) (hp : p.forwarded = false) (hq : q.calm = true)
    (hq' : q.forwarded = false) : Heard c q d pc status := by
  refine ⟨h.running, h.done, ?_, ?_, ?_, fun _ => h.waiting hp, h.past⟩
  · rintro (rfl | rfl) <;> cases hq
  · rintro rfl
    cases hq
  · intro hf
    rw [hq'] at hf
    cases hf

/-- The poller has made its call, and the transfer is stopped. -/
theorem Heard.hands_on (hs : c.Stopped pc) : Heard c .setDone d pc status := by
  refine ⟨hs.running, fun hf => absurd hf hs.ne_finished, by simp, nofun, fun _ => hs, nofun, ?_⟩
  rintro (rfl | hf)
  · exact hs.elim
  · exact absurd hf hs.ne_finished

/-- **A move of `upload()` to FINISHED, or past the last test, with no request in the record.** -/
theorem Heard.past_step {e : TusEvent} {o : Outcome} (h : Heard c p d pc status)
    (hup : c.uploadStep pc e = some (c', o))
    (hlast : e = .go → c.LastTest pc → p.forwarded = false → ¬ status.Asked)
    (ho : o = .at .stopFinish ∨ c'.status = .finished) : ¬ status.Asked := by
  by_cases hpast : c.PastTest pc
  · exact h.past hpast
  have hpassed : c.LastTest pc ∧ e = .go := by
    rcases ho with rfl | hf
    · exact TusClient.uploadStep_stopFinish hup
    · rcases TusClient.uploadStep_finished hup (fun hc => hpast (Or.inr hc)) hf with
        ⟨hpc, _⟩ | ⟨ht, he, _⟩
      · exact absurd (Or.inl hpc) hpast
      · exact ⟨ht, he⟩
  -- a transfer the poller has stopped does not get here
  refine hlast hpassed.2 hpassed.1 ?_
  cases hp : p.forwarded with
  | false => rfl
  | true =>
    obtain ⟨hne, hat⟩ := TusClient.uploadStep_stopped hup (h.stopped hp)
    rcases ho with rfl | hf
    · exact hat.elim
    · exact absurd hf hne

/-- **A move inside `upload()` keeps what holds there.** -/
theorem Heard.move {e : TusEvent} {pc' : UploadPc} (h : Heard c p d pc status)
    (hup : c.uploadStep pc e = some (c', .at pc'))
    (hlast : e = .go → c.LastTest pc → p.forwarded = false → ¬ status.Asked) :
    Heard c' p d pc' status := by
  refine ⟨TusClient.uploadStep_running hup h.running, ?_, h.pausing, h.canceling,
    fun hp => (TusClient.uploadStep_stopped hup (h.stopped hp)).2, h.waiting, ?_⟩
  · intro hf
    by_cases hc : c.status = .finished
    · obtain rfl := h.done hc
      exact absurd rfl ((TusClient.uploadStep_cleanup hup).2 pc')
    · rcases TusClient.uploadStep_finished hup hc hf with ⟨_, ho⟩ | ⟨_, _, _, ho⟩
      · exact Outcome.at.inj ho
      · cases ho
  · intro hpast
    exact h.past_step hup hlast (hpast.imp_left (congrArg Outcome.at))

end Heard

/-! ## 4. Client calls and the poller -/

/-- **A request gets into the record of a running attempt by a `pause` or a `cancel` of its id.** -/
theorem effect_asked {cfg : Cfg} {c : Option Ref} {L L' : Ledger} {a : Act} {r : Ref}
    {job job' : UploadJob} (h : Effect cfg c L a L') (hh : L.hold = .running r)
    (hh' : L'.hold = .running r) (hr : L.jobs.deref r = some job)
    (hr' : L'.jobs.deref r = some job') (hask : job'.status.Asked) :
    job.status.Asked ∨ L.jobs.Current r ∧
      (a = .pause job.id ∧ job.status = .uploading ∨ a = .cancel job.id) := by
  obtain ⟨new, hnew, hm⟩ := effect_statusMove h hh hh' hr
  obtain rfl : new = job' := Option.some.inj (hnew.symm.trans hr')
  have hsame : L'.jobs.deref r = some job → job.status.Asked := by
    intro e
    rw [hr'] at e
    cases e
    exact hask
  generalize hst : new.status = status at hm hask
  cases hm with
  | same => exact Or.inl hask
  | resume | retry => rcases hask with e | e <;> cases e
  | pause hup =>
    generalize job.id = jobId at h
    cases h with
    | quiet => exact Or.inl (hsame hr)
    | pause i old hi _ =>
      rcases deref_modifyAt_cases _ hi hr with e | ⟨hcur, _, _⟩
      · exact Or.inl (hsame e)
      · exact Or.inr ⟨hcur, Or.inl ⟨rfl, hup⟩⟩
  | cancel =>
    generalize job.id = jobId at h
    cases h with
    | quiet => exact Or.inl (hsame hr)
    | cancel i old hi =>
      rcases deref_modifyAt_cases _ hi hr with e | ⟨hcur, _, _⟩
      · exact Or.inl (hsame e)
      · exact Or.inr ⟨hcur, Or.inr rfl⟩

section Steps

variable {cfg : Cfg} {s t : State} {g : Heed}

/-- The record a worker inside `upload()` holds, before a step that leaves it there. -/
theorem upload_job {a : Act} {r : Ref} {pc pc' : UploadPc} {job' : UploadJob}
    (hs : step cfg s a = some t) (hO : HoldOk s.ledger) (hw : s.worker = .upload r pc)
    (hw' : t.worker = .upload r pc') (hjob' : t.jobs.deref r = some job') :
    ∃ job, s.jobs.deref r = some job ∧ StatusMove s.jobs r job a job'.status :=
  attempt_statusMove hs hO (by rw [hw]; rfl) (by rw [hw']; rfl) hjob'

theorem upload_holds {r : Ref} {pc : UploadPc} (hO : HoldOk s.ledger)
    (hw : s.worker = .upload r pc) : ∃ job, s.jobs.deref r = some job := by
  obtain ⟨_, ⟨job, hjob, _⟩, _⟩ := hO r (by rw [ledger_hold, hw]; rfl)
  exact ⟨job, hjob⟩

theorem client_heedOk {a : Act} (hs : step cfg s a = some t) (hw : ∀ e, a ≠ .worker e)
    (hp : a ≠ .poller) (hC : Heeded s a) (hO : HoldOk s.ledger) (hI : HeedOk s g) :
    HeedOk t g := by
  obtain ⟨⟨ew, ep, et, ed⟩, hfree⟩ := client_frame hs hw hp
  refine ⟨?_, by rw [ew, et]; exact hI.now, by rw [ew]; exact hI.returning,
    by rw [ew, et]; exact hI.fresh, by rw [ew, ep]; exact hI.alone⟩
  intro r pc job' hw' hjob'
  have hup : s.worker = .upload r pc := by rw [← ew]; exact hw'
  have hh : s.ledger.hold = .running r := by
    rw [ledger_hold, hup]
    rfl
  have hh' : t.ledger.hold = .running r := by
    rw [ledger_hold, hw']
    rfl
  obtain ⟨job, hjob, _⟩ := upload_job hs hO hup hw' hjob'
  have hH := hI.heard r pc job hup hjob
  have hplace : s.worker.place = some (r, pc) := by
    rw [hup]
    rfl
  rw [et, ep, ed]
  have hpast : s.tus.PastTest pc → ¬ job'.status.Asked := by
    intro htest hask
    rcases effect_asked (step_effect hs) hh hh' hjob hjob' hask with h | ⟨hcur, ⟨rfl, hst⟩ | rfl⟩
    · exact hH.past htest h
    · exact hC (r, pc) hplace htest hcur job hjob rfl hst
    · exact hC (r, pc) hplace htest hcur job hjob rfl
  -- with the mutex held by the poller the record does not change
  rcases hfree with hsame | hfree
  · rw [hsame, hjob] at hjob'
    cases hjob'
    exact hH
  · have hcalm := calm_of_free hfree
    refine ⟨hH.running, hH.done, ?_, ?_, hH.stopped, hH.waiting, hpast⟩
    · rintro (e | e) <;> rw [e] at hcalm <;> cases hcalm
    · intro e
      rw [e] at hcalm
      cases hcalm

/-- The poller's thread moves only while it exists, leaves the worker's place alone, and changes
    the `TusClient` by its two calls only. -/
theorem pollerStep_frame (h : pollerStep s = some t) :
    t.worker = s.worker ∧ s.poller ≠ .none ∧
      (t.tus = s.tus ∨ s.poller = .cancel ∨ s.poller = .pauseStore) := by
  have hne : ∀ {p : PollerPc}, s.poller = p → p ≠ .none → s.poller ≠ .none := fun hp h => hp ▸ h
  cases pollerStep_move h with
  | loop hp | read hp | store _ _ hp | report _ _ _ hp | seesCancel _ _ hp | seesPause _ _ hp
  | seesNothing _ _ hp | pauseTest hp | setDone hp => exact ⟨rfl, hne hp nofun, Or.inl rfl⟩
  | cancel hp => exact ⟨rfl, hne hp nofun, Or.inr (Or.inl hp)⟩
  | pauseStore hp => exact ⟨rfl, hne hp nofun, Or.inr (Or.inr hp)⟩

/-- What the poller's step does beside a worker inside `upload()`. -/
theorem pollerStep_heard {r : Ref} {pc : UploadPc} {job : UploadJob} (h : pollerStep s = some t)
    (hw : s.worker = .upload r pc) (hjob : s.jobs.deref r = some job)
    (harr : Arrives s.tus pc s.poller)
    (hH : Heard s.tus s.poller s.uploadDone pc job.status) :
    Heard t.tus t.poller t.uploadDone pc job.status := by
  have hasked : job.status.Asked → s.tus.status ≠ .finished := fun ha hf => hH.past (Or.inr hf) ha
  -- the poller reads the record of the attempt
  have hsame : ∀ {q : Ref} {old : UploadJob}, s.worker.job = some q → s.jobs.deref q = some old →
      old = job := by
    intro q old hq hold
    rw [hw] at hq
    cases hq
    exact Option.some.inj (hold.symm.trans hjob)
  cases pollerStep_move h with
  | loop hp =>
    rw [hp] at hH
    have hd : s.uploadDone = false := hH.waiting rfl
    dsimp only
    rw [if_neg (by rw [hd]; nofun)]
    exact hH.goes_on rfl rfl rfl
  | read hp | store _ _ hp | report _ _ _ hp | seesNothing _ _ hp =>
    rw [hp] at hH
    exact hH.goes_on rfl rfl rfl
  | seesCancel q old hp hq hold hst =>
    rw [hp] at hH
    rw [hsame hq hold] at hst
    exact ⟨hH.running, hH.done, by simp, fun _ => hst, nofun, fun _ => hH.waiting rfl, hH.past⟩
  | seesPause q old hp hq hold hst =>
    rw [hp] at hH
    rw [hsame hq hold] at hst
    exact ⟨hH.running, hH.done, fun _ => hst, nofun, nofun, fun _ => hH.waiting rfl, hH.past⟩
  | cancel hp =>
    rw [hp] at hH harr
    exact .hands_on (TusClient.stopped_cancelNow harr (hasked (Or.inr (hH.canceling rfl))))
  | pauseTest hp =>
    rw [hp] at hH harr
    have hst := hH.pausing (Or.inl rfl)
    dsimp only
    split
    · exact ⟨hH.running, hH.done, fun _ => hst, nofun, nofun, fun _ => hH.waiting rfl, hH.past⟩
    · rename_i hup
      exact .hands_on (TusClient.stopped_refused harr hH.running hup (hasked (Or.inl hst)))
  | pauseStore hp =>
    rw [hp] at harr
    exact .hands_on (TusClient.stopped_pauseStore harr)
  | setDone hp =>
    rw [hp] at hH
    exact ⟨hH.running, hH.done, by simp, nofun, fun _ => hH.stopped rfl, nofun, hH.past⟩

/-- The record keeps its status under the poller. -/
theorem poller_heedOk (hs : step cfg s .poller = some t) (hC : Heeded s .poller)
    (hO : HoldOk s.ledger) (hI : HeedOk s g) : HeedOk t g := by
  have h : pollerStep s = some t := step_poller hs
  obtain ⟨ew, hne, htus⟩ := pollerStep_frame h
  have hne' : s.worker.attempt ≠ none := fun hnone => hne (hI.alone hnone)
  refine ⟨?_, ?_, by rw [ew]; exact hI.returning, ?_, fun hnone => ?_⟩
  · intro r pc job' hw' hjob'
    have hw : s.worker = .upload r pc := by rw [← ew]; exact hw'
    obtain ⟨job, hjob, hm⟩ := upload_job hs hO hw hw' hjob'
    have hstatus : job'.status = job.status := by
      generalize hst : job'.status = status at hm
      cases hm with
      | same => rfl
    rw [hstatus]
    exact pollerStep_heard h hw hjob (hC (r, pc) (by rw [hw]; rfl)) (hI.heard r pc job hw hjob)
  · intro r pc hw hf
    rw [ew] at hw
    have hfin := hI.now r pc hw hf
    obtain ⟨job, hjob⟩ := upload_holds hO hw
    have hH := hI.heard r pc job hw hjob
    rcases htus with e | e | e
    · rw [e]
      exact hfin
    · exact absurd (Or.inr (hH.canceling e)) (hH.past (Or.inr hfin))
    · exact absurd (Or.inl (hH.pausing (Or.inr e))) (hH.past (Or.inr hfin))
  · intro r hw
    rw [ew] at hw
    exact absurd (by rw [hw]; rfl) hne'
  · rw [ew] at hnone
    exact absurd hnone hne'

end Steps

/-! ## 5. The worker -/

/-- **What one step of the worker does to an attempt**: it begins one, moves inside `upload()`,
    leaves it, waits for the poller behind it, or is outside an attempt. -/
inductive WorkerDo (s : State) (e : TusEvent) (t : State) : Prop where
  | spawns (r : Ref) (hw : s.worker = .spawn r) (hw' : t.worker = .upload r .chunkFile)
      (htus : t.tus.status = s.tus.status) (hp : t.poller = .loop) (hd : t.uploadDone = false)
  | moves (r : Ref) (pc pc' : UploadPc) (hw : s.worker = .upload r pc)
      (hup : s.tus.uploadStep pc e = some (t.tus, .at pc')) (hw' : t.worker = .upload r pc')
      (hp : t.poller = s.poller) (hd : t.uploadDone = s.uploadDone) (hj : t.jobs = s.jobs)
  | leaves (r : Ref) (pc : UploadPc) (success : Bool) (hw : s.worker = .upload r pc)
      (hup : s.tus.uploadStep pc e = some (t.tus, .returned success))
      (hw' : t.worker = .returned r success) (hj : t.jobs = s.jobs)
  | waits (hw : s.worker.returning = true) (hw' : t.worker.returning = true)
  | outside (hw' : t.worker.attempt = none)
      (hp : t.poller = .none ∨ s.worker.attempt = none ∧ t.poller = s.poller)
      (hfresh : ∀ r, t.worker = .spawn r → t.tus = {})

section Steps

variable {cfg : Cfg} {s t : State} {g : Heed}

theorem workerStep_do {e : TusEvent} (h : workerStep cfg s e = some t) : WorkerDo s e t := by
  have hno : ∀ {w : WorkerPc}, s.worker = w → w.attempt = none → s.worker.attempt = none := by
    intro w hw hnone
    rw [hw]
    exact hnone
  cases workerStep_move h with
  | head hw | testPaused hw | testEmpty hw =>
    refine .outside ?_ (Or.inr ⟨hno hw rfl, rfl⟩) ?_ <;> dsimp only <;> split <;>
      first | rfl | nofun
  | popNone hw | pop _ _ hw | lose _ hw | find _ _ hw | skip _ _ _ hw | clear _ _ _ hw
  | start _ _ hw | notify _ _ hw | noClient _ _ hw | noThread _ _ hw =>
    exact .outside rfl (Or.inr ⟨hno hw rfl, rfl⟩) nofun
  | construct r hw => exact .outside rfl (Or.inr ⟨hno hw rfl, rfl⟩) fun _ _ => rfl
  | spawn r hw =>
    refine .spawns r hw rfl ?_ rfl rfl
    dsimp only
    split <;> rfl
  | upload r pc pc' tus hw hup => exact .moves r pc pc' hw hup rfl rfl rfl rfl
  | uploaded r pc tus success hw hup => exact .leaves r pc success hw hup rfl rfl
  | terminate | unwind => exact .outside rfl (Or.inl rfl) nofun
  | returned r success hw => exact .waits (by rw [hw]; rfl) rfl
  | join r success hw _ => exact .waits (by rw [hw]; rfl) rfl
  | result r success job hw _ _ =>
    obtain ⟨ew, ep, _⟩ := handleResult_frame s r job success
    exact .outside (by rw [ew]; rfl) (Or.inl ep) (by rw [ew]; nofun)
  | caught => exact .outside rfl (Or.inl rfl) nofun

/-- Outside an attempt the memory says nothing. -/
theorem heedOk_outside (hw : t.worker.attempt = none) (hp : t.poller = .none)
    (hfresh : ∀ r, t.worker = .spawn r → t.tus = {}) : HeedOk t g := by
  refine ⟨fun r pc job hr _ => ?_, fun r pc hr => ?_,
    fun ho => absurd hw (WorkerPc.attempt_of_returning ho), hfresh, fun _ => hp⟩
  · rw [hr] at hw
    cases hw
  · rw [hr] at hw
    cases hw

/-- A new attempt: the poller at its first test, the `TusClient` READY. -/
theorem spawn_heedOk {r : Ref} (hw : t.worker = .upload r .chunkFile) (htus : t.tus.status = .ready)
    (hp : t.poller = .loop) (hd : t.uploadDone = false) : HeedOk t ⟨false, none⟩ := by
  refine ⟨fun q pc job hq _ => ?_, nofun, fun _ => nofun, ?_, ?_⟩
  · rw [hw] at hq
    cases hq
    rw [hp, hd]
    refine ⟨trivial, fun hf => ?_, by simp, nofun, nofun, fun _ => rfl, ?_⟩
    · rw [htus] at hf
      cases hf
    · rintro (e | hf)
      · cases e
      · rw [htus] at hf
        cases hf
  · intro q hq
    rw [hw] at hq
    cases hq
  · intro hnone
    rw [hw] at hnone
    cases hnone

theorem worker_heedOk {e : TusEvent} (h : workerStep cfg s e = some t)
    (hC : Heeded s (.worker e)) (hO : HoldOk s.ledger) (hI : HeedOk s g) :
    HeedOk t (g.note s (.worker e) t) := by
  cases workerStep_do h with
  | outside hw' hp hfresh =>
    refine heedOk_outside hw' ?_ hfresh
    rcases hp with hp | ⟨hnone, hp⟩
    · exact hp
    · rw [hp]
      exact hI.alone hnone
  | spawns r hw hw' htus hp hd =>
    have hst : t.tus.status = .ready := by
      rw [htus, hI.fresh r hw]
    simpa only [Heed.note, hw] using spawn_heedOk hw' hst hp hd
  | waits hw hw' =>
    have hnote : g.note s (.worker e) t = g := by
      cases hs : s.worker <;> rw [hs] at hw <;> cases hw <;> simp only [Heed.note, hs]
    rw [hnote]
    refine ⟨fun r pc job hr _ => ?_, fun r pc hr => ?_, fun _ => hI.returning hw, fun r hr => ?_,
      fun hnone => absurd hnone (WorkerPc.attempt_of_returning hw')⟩
    · rw [hr] at hw'
      cases hw'
    · rw [hr] at hw'
      cases hw'
    · rw [hr] at hw'
      cases hw'
  | moves r pc pc' hw hup hw' hp hd hj =>
    obtain ⟨job, hjob⟩ := upload_holds hO hw
    have hH := hI.heard r pc job hw hjob
    have hlast : e = .go → s.tus.LastTest pc → s.poller.forwarded = false → ¬ job.status.Asked :=
      fun he ht hf => hC (r, pc) (by rw [hw]; rfl) he ht hf job hjob
    have hmove := hH.move hup hlast
    simp only [Heed.note, hw, hw']
    refine ⟨fun q k new hq hnew => ?_, fun q k _ hf => ?_, ?_, fun q hq => ?_, fun hnone => ?_⟩
    · cases hq.symm.trans hw'
      rw [hj, hjob] at hnew
      cases hnew
      rw [hp, hd]
      exact hmove
    · -- FINISHED before the move: the place was the last one, and no move stays inside
      simp only [Bool.or_eq_true, beq_iff_eq] at hf
      rcases hf with hf | hf
      · obtain rfl := hH.done (hI.now r pc hw hf)
        exact absurd rfl ((TusClient.uploadStep_cleanup hup).2 pc')
      · exact hf
    · rw [hw']
      nofun
    · rw [hw'] at hq
      cases hq
    · rw [hw'] at hnone
      cases hnone
  | leaves r pc success hw hup hw' hj =>
    obtain ⟨job, hjob⟩ := upload_holds hO hw
    have hH := hI.heard r pc job hw hjob
    have hlast : e = .go → s.tus.LastTest pc → s.poller.forwarded = false → ¬ job.status.Asked :=
      fun he ht hf => hC (r, pc) (by rw [hw]; rfl) he ht hf job hjob
    simp only [Heed.note, hw, hw', hj]
    refine ⟨fun q k new hq _ => ?_, fun q k hq => ?_, fun _ status hat hask => ?_,
      fun q hq => ?_, fun hnone => ?_⟩
    · rw [hw'] at hq
      cases hq
    · rw [hw'] at hq
      cases hq
    · dsimp only at hat
      rw [hjob] at hat
      obtain rfl : job.status = status := Option.some.inj hat
      rw [Bool.or_eq_false_iff, beq_eq_false_iff_ne]
      refine ⟨?_, fun hf => hH.past_step hup hlast (Or.inr hf) hask⟩
      cases hg : g.finished with
      | false => rfl
      | true => exact absurd hask (hH.past (Or.inr (hI.now r pc hw hg)))
    · rw [hw'] at hq
      cases hq
    · rw [hw'] at hnone
      cases hnone

/-- **Every step that meets the condition keeps the invariant.** -/
theorem step_heedOk {a : Act} (hs : step cfg s a = some t) (hC : Heeded s a)
    (hO : HoldOk s.ledger) (hI : HeedOk s g) : HeedOk t (g.note s a t) := by
  cases a with
  | worker e => exact worker_heedOk (step_worker hs) hC hO hI
  | poller => exact poller_heedOk hs hC hO hI
  | _ => exact client_heedOk hs nofun nofun hC hO hI

theorem reach_heedOk {x : State × Heed}
    (h : (heeding cfg).Reach (fun x a => Heeded x.1 a) x) : HeedOk x.1 x.2 := by
  refine (Machine.Steps.invariant (I := fun x => HeedOk x.1 x.2 ∧ HoldOk x.1.ledger) h
    ⟨heedOk_init, nofun⟩ ?_).1
  intro u a v hI hc hs
  obtain ⟨hstep, hnote⟩ := Machine.watch_step_some hs
  refine ⟨?_, effect_holdOk (step_effect hstep) hI.2⟩
  rw [hnote]
  exact step_heedOk hstep hc hI.2 hI.1

end Steps

/-! ## 6. Pause and cancel take effect -/

/-- In front of the end of `processJob`: a job that is PAUSED or CANCELLED, as it was when
    `upload()` returned, has a `TusClient` that never was FINISHED. -/
def TakesEffect (s : State) (g : Heed) : Prop :=
  ∀ r success job, s.worker = .result r success → s.jobs.deref r = some job →
    job.status = .paused ∨ job.status = .cancelled → g.atReturn = some job.status →
    g.finished = false

/-- **A pause or a cancel takes effect on the transfer**, in every run in which the poller's call
    arrives in time, nothing waits for the poller when `upload()` passes its last test, and no
    call comes behind it. -/
theorem takesEffect {cfg : Cfg} {s : State} {g : Heed}
    (h : (heeding cfg).Reach (fun x a => Heeded x.1 a) (s, g)) : TakesEffect s g := by
  intro r success job hw _ hst hat
  exact (reach_heedOk h).returning (by rw [hw]; rfl) job.status hat hst

/-- A pause in front of the first round of the chunk loop: the loop is left. -/
def pausedInTime : List Act :=
  oneAttempt ++ begins 10000000 ++ [.worker .go, .pause "job-a"] ++ pollerRound ++
    [.worker .go, .worker .go, .worker .go, .worker .go]

theorem takesEffect_pausedInTime : ∃ s g job,
    (heeding defaultCfg).Reach (fun x a => Heeded x.1 a) (s, g) ∧
    s.worker = .result ⟨1, 0⟩ true ∧ s.jobs.deref ⟨1, 0⟩ = some job ∧ job.status = .paused ∧
    g.atReturn = some .paused ∧ g.finished = false := by
  have h : ((heeding defaultCfg).exec (heeding defaultCfg).init pausedInTime).map (fun x =>
      (x.1.worker, (x.1.jobs.deref ⟨1, 0⟩).map (·.status), x.2.atReturn)) =
      some (.result ⟨1, 0⟩ true, some .paused, some .paused) := by
    decide
  obtain ⟨⟨s, g⟩, hs, hobs⟩ := Option.map_eq_some_iff.mp h
  simp only [Prod.mk.injEq, Option.map_eq_some_iff] at hobs
  obtain ⟨hw, ⟨job, hjob, hst⟩, hat⟩ := hobs
  have hreach : (heeding defaultCfg).Reach (fun x a => Heeded x.1 a) (s, g) :=
    Machine.steps_of_exec hs (by decide)
  exact ⟨s, g, job, hreach, hw, hjob, hst, hat,
    takesEffect hreach _ _ job hw hjob (Or.inl hst) (hst ▸ hat)⟩

/-- The job is paused, and the poller makes its one call, before the upload of the empty file is
    created on the server. -/
def pausedWhileReady : List Act :=
  oneAttempt ++ .pause "job-a" :: List.replicate 7 .poller ++ begins 0 ++
    [.worker .go, .worker .go, .worker .go]

/-- **A pause while the `TusClient` is READY**: `pause()` does nothing, the poller is gone, the
    upload is created and FINISHED, and the job is left PAUSED. -/
theorem takesEffect_pausedWhileReady : ∃ s g,
    (heeding defaultCfg).Reach (fun x a => ChunksAsCut x.1 a) (s, g) ∧
    s.tus.status = .finished ∧ s.tus.tusLocation = "1" ∧ ¬ TakesEffect s g := by
  have h : ((heeding defaultCfg).exec (heeding defaultCfg).init pausedWhileReady).map (fun x =>
      (x.1.worker, (x.1.jobs.deref ⟨1, 0⟩).map (·.status), x.2, x.1.tus.status,
        x.1.tus.tusLocation)) =
      some (.result ⟨1, 0⟩ true, some .paused, ⟨true, some .paused⟩, .finished, "1") := by
    decide
  obtain ⟨⟨s, g⟩, hs, hobs⟩ := Option.map_eq_some_iff.mp h
  simp only [Prod.mk.injEq, Option.map_eq_some_iff] at hobs
  obtain ⟨hw, ⟨job, hjob, hst⟩, rfl, hfinished, hloc⟩ := hobs
  refine ⟨s, _, Machine.steps_of_exec hs (by decide), hfinished, hloc, fun heff => ?_⟩
  have hfin := heff _ _ job hw hjob (Or.inl hst) (congrArg some hst.symm)
  cases hfin

end Viral.Upload
