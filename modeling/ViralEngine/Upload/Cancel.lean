/-
  File:      ViralEngine/Upload/Cancel.lean
  Subject:   IS A CANCELLED JOB CANCELLED FOR EVER?

  Every writer of `status` but two looks at the status it overwrites, and none of those accepts
  CANCELLED. The two are the store of UPLOADING at the head of `processJob`, whose test for
  CANCELLED stands outside the mutex in `workerLoop`, and the `catch` clause, which has no test.

  * `CancelRespected` -- no `cancel` falls between the worker's test and its store of UPLOADING,
    and the `catch` clause does not meet a CANCELLED job;
  * `ClearedOk`, `effect_clearedOk` -- then the job behind the test is not CANCELLED;
  * `effect_cancelled`, `cancelFinal` -- then CANCELLED stays, in every later state;
  * `cancelFinal_lateCancel` -- a `cancel` between test and store is overwritten.
-/
import ViralEngine.Upload.References

namespace Viral.Upload

open Viral.Lib

/-! ## 1. The condition -/

/-- The worker is between its test for CANCELLED and its store of UPLOADING. -/
def WorkerPc.starting : WorkerPc → Option (String × Ref)
  | .start jobId r => some (jobId, r)
  | _ => none

/-- No `cancel` of the job whose test for CANCELLED the worker has just passed, and no `catch`
    on a CANCELLED job (both as far as the worker's reference is to the live record). -/
def CancelRespected (s : State) : Act → Prop
  | .cancel jobId => ∀ p ∈ s.worker.starting, p.1 = jobId → ¬ s.jobs.Current p.2
  | .worker _ => ∀ r ∈ s.worker.catching, s.jobs.Current r →
      ∀ job ∈ s.jobs.deref r, job.status ≠ .cancelled
  | _ => True

instance (s : State) : ∀ a : Act, Decidable (CancelRespected s a)
  | .cancel _ => inferInstanceAs (Decidable (∀ p ∈ s.worker.starting, _))
  | .worker _ => inferInstanceAs (Decidable (∀ r ∈ s.worker.catching, _))
  | .enqueue .. | .pause _ | .resume _ | .retry _ | .pauseAll | .resumeAll | .setAuthToken _
  | .destroy | .poller => inferInstanceAs (Decidable True)

theorem starting_of_hold {w : WorkerPc} {jobId : String} {r : Ref}
    (h : w.hold = .cleared jobId r) : w.starting = some (jobId, r) := by
  cases w <;> cases h
  rfl

/-! ## 2. Behind the test the job is not CANCELLED -/

/-- The record the worker has tested and not yet started is not CANCELLED. -/
def ClearedOk (L : Ledger) : Prop :=
  ∀ jobId r job, L.hold = .cleared jobId r → L.jobs.Current r →
    L.jobs.elems[r.idx]? = some job → job.status ≠ .cancelled

/-- A change of one record through the vector: the tested record keeps its status, or it is the
    one changed. -/
theorem ClearedOk.modifyAt {L : Ledger} (hL : ClearedOk L) {i : Nat} {f : UploadJob → UploadJob}
    {queue : List String}
    (hf : ∀ jobId r job, L.hold = .cleared jobId r → L.jobs.Current r → i = r.idx →
      L.jobs.elems[i]? = some job → (f job).status ≠ .cancelled) :
    ClearedOk { L with jobs := L.jobs.modifyAt i f, queue := queue } := by
  intro jobId r job hh hcur hjob
  rw [RefVector.elems_modifyAt, List.getElem?_modify] at hjob
  by_cases hi : i = r.idx
  · obtain ⟨old, hold, e⟩ := Option.map_eq_some_iff.mp hjob
    rw [if_pos hi] at e
    subst e
    exact hf jobId r old hh hcur hi (hi ▸ hold)
  · simp only [hi, if_false, id_map'] at hjob
    exact hL jobId r job hh hcur hjob

theorem effect_clearedOk {cfg : Cfg} {c : Option Ref} {L L' : Ledger} {a : Act}
    (h : Effect cfg c L a L')
    (hc : ∀ jobId r, a = .cancel jobId → L.hold = .cleared jobId r → ¬ L.jobs.Current r)
    (hO : HoldOk L) (hL : ClearedOk L) : ClearedOk L' := by
  cases h with
  | quiet => exact hL
  | enqueue jobId f u t d _ =>
    intro popped r job hh hcur hjob
    obtain ⟨_, ⟨old, hold, _⟩, _⟩ := hO r (by rw [show L.hold = .cleared popped r from hh]; rfl)
    have hread : L.jobs.Current r := RefVector.current_of_pushBack hold hcur
    rw [RefVector.deref_of_current hread] at hold
    rw [RefVector.elems_pushBack,
      List.getElem?_append_left (List.getElem?_eq_some_iff.mp hold).1] at hjob
    exact hL popped r job hh hread hjob
  | pause => exact hL.modifyAt fun _ _ _ _ _ _ _ => nofun
  | resume => exact hL.modifyAt fun _ _ _ _ _ _ _ => nofun
  | retry => exact hL.modifyAt fun _ _ _ _ _ _ _ => nofun
  | cancel i job hi =>
    refine hL.modifyAt fun jobId r old hh hcur hidx hold => ?_
    -- the id under the reference is the popped one, so this is the excluded call
    obtain ⟨x, ⟨j, hj, hid⟩, hpop⟩ := hO r (by rw [hh]; rfl)
    rw [RefVector.deref_of_current hcur, ← hidx, hi] at hj
    cases hj
    have hx : jobId = job.id := (hpop jobId (by rw [hh]; rfl)).trans hid.symm
    subst hx
    exact absurd hcur (hc job.id r rfl hh)
  | clear e jobId q job hh hq hst =>
    intro popped r old hh' hcur hold
    cases hh'
    rw [RefVector.deref_of_current hcur] at hq
    rw [hq] at hold
    cases hold
    exact hst
  | progress q p hh =>
    intro popped r job hh' hcur hjob
    have hcur' : L.jobs.Current r := (RefVector.current_assign _ _ _ _).mp hcur
    rw [show L.hold = .cleared popped r from hh'] at hh
    obtain rfl : r = q := Option.some.inj hh
    rw [RefVector.elems_assign, if_pos hcur', List.getElem?_modify_eq] at hjob
    obtain ⟨old, hold, rfl⟩ := Option.map_eq_some_iff.mp hjob
    exact hL popped r old hh' hcur' hold
  | pop | lose | find | skip | start | keep | complete | requeue | fail | caught | terminate =>
    intro popped r job hh
    cases hh

/-! ## 3. CANCELLED stays -/

/-- The record at the index has this id and is CANCELLED. -/
def CancelledAt (s : State) (i : Nat) (jobId : String) : Prop :=
  rowOf s.jobs i = some (jobId, .cancelled)

instance (s : State) (i : Nat) (jobId : String) : Decidable (CancelledAt s i jobId) :=
  inferInstanceAs (Decidable (_ = _))

/-- A store through the worker's reference that does not meet a live CANCELLED record keeps
    every CANCELLED row. -/
theorem cancelled_assign {v : RefVector UploadJob} {r : Ref} {f : UploadJob → UploadJob}
    {i : Nat} {jobId : String} (h : rowOf v i = some (jobId, .cancelled))
    (hf : ∀ job, v.Current r → v.deref r = some job → job.status ≠ .cancelled) :
    rowOf (v.assign r f) i = some (jobId, .cancelled) := by
  by_cases hcur : v.Current r
  · obtain ⟨job, hjob, hrow⟩ := Option.map_eq_some_iff.mp h
    have hne : i ≠ r.idx := by
      intro e
      subst e
      exact hf job hcur ((RefVector.deref_of_current hcur).trans hjob) (Prod.mk.inj hrow).2
    have e : v.assign r f = v.modifyAt r.idx f := if_pos hcur
    unfold rowOf
    rw [e, RefVector.elems_modifyAt, List.getElem?_modify_ne _ _ hne.symm]
    exact h
  · rw [rowOf_assign_stale f hcur]
    exact h

/-- **One step keeps a CANCELLED job CANCELLED**, outside the two unguarded stores. -/
theorem effect_cancelled {cfg : Cfg} {c : Option Ref} {L L' : Ledger} {a : Act} {i : Nat}
    {jobId : String} (he : Effect cfg c L a L')
    (hcatch : ∀ e r job, a = .worker e → c = some r → L.jobs.Current r →
      L.jobs.deref r = some job → job.status ≠ .cancelled)
    (hL : ClearedOk L) (h : rowOf L.jobs i = some (jobId, .cancelled)) :
    rowOf L'.jobs i = some (jobId, .cancelled) := by
  cases he with
  | quiet | pop | lose | find | skip | clear | keep | terminate => exact h
  | enqueue =>
    rw [rowOf_pushBack, if_neg (Nat.ne_of_lt (rowOf_lt h))]
    exact h
  | cancel k job hk =>
    rw [rowOf_modifyAt _ hk]
    split
    · rename_i e
      subst e
      rw [rowOf_of_get hk] at h
      rw [(Prod.mk.inj (Option.some.inj h)).1]
    · exact h
  | pause k job hk hst | resume k job hk hst | retry k job hk hst =>
    -- the changed record was not CANCELLED
    have hne : i ≠ k := by
      intro e
      subst e
      rw [rowOf_of_get hk, hst] at h
      cases h
    rw [rowOf_modifyAt _ hk, if_neg hne]
    exact h
  | progress q p hq =>
    by_cases hcur : L.jobs.Current q
    · unfold rowOf at h ⊢
      rw [RefVector.elems_assign, if_pos hcur, List.getElem?_modify]
      cases hi : L.jobs.elems[i]? with
      | none => rw [hi] at h; cases h
      | some job =>
        rw [hi] at h
        split <;> exact h
    · exact (rowOf_assign_stale _ hcur i).trans h
  | start e popped q hh =>
    refine cancelled_assign h fun job hcur hq => ?_
    rw [RefVector.deref_of_current hcur] at hq
    exact hL popped q job hh hcur hq
  | complete e q job _ hq hnc _ | requeue e q job _ hq hnc _ _ | fail e q job _ hq hnc _ _ =>
    refine cancelled_assign h fun job' _ hq' => ?_
    have e := Option.some.inj (hq.symm.trans hq')
    subst e
    exact hnc
  | caught e q job _ hq hc =>
    exact cancelled_assign h fun job' hcur hq' => hcatch e q job' rfl hc hcur hq'

theorem reach_clearedOk {cfg : Cfg} {s : State} (h : (engine cfg).Reach CancelRespected s) :
    ClearedOk s.ledger ∧ HoldOk s.ledger := by
  refine Machine.Steps.invariant (I := fun s => ClearedOk s.ledger ∧ HoldOk s.ledger) h
    ⟨nofun, nofun⟩ ?_
  intro u a v hI hc hs
  obtain ⟨hL, hO⟩ := hI
  have he := step_effect hs
  refine ⟨effect_clearedOk he (fun jobId r e hh => ?_) hO hL, effect_holdOk he hO⟩
  subst e
  exact hc (jobId, r) (starting_of_hold hh) rfl

/-- **Cancellation is final**, in every run in which no `cancel` falls between the worker's test
    for CANCELLED and its store of UPLOADING of the same job, and no exception reaches the
    `catch` clause on a CANCELLED job: a job that is CANCELLED is CANCELLED in every later
    state. -/
theorem cancelFinal {cfg : Cfg} {s t : State} (h : (engine cfg).Reach CancelRespected s)
    (ht : (engine cfg).Steps CancelRespected s t) {i : Nat} {jobId : String}
    (hs : CancelledAt s i jobId) : CancelledAt t i jobId := by
  induction ht with
  | start => exact hs
  | step u v a hsu hc hstep ih =>
    refine effect_cancelled (step_effect hstep) (fun e r job ha hr hcur hjob => ?_)
      (reach_clearedOk (Machine.Steps.trans h hsu)).1 ih
    subst ha
    exact hc r hr hcur job hjob

/-- A round of the worker on an idle engine: head, the two tests, pop, lookup, test. -/
def workerRound : List Act :=
  [.worker .go, .worker .go, .worker .go, .worker .go, .worker .go, .worker .go]

/-- A job cancelled in the queue: the worker takes it out and lets it go. -/
theorem cancelFinal_queued : ∃ s t, (engine defaultCfg).Reach CancelRespected s ∧
    (engine defaultCfg).Steps CancelRespected s t ∧ s.queue = ["job-a"] ∧ t.queue = [] ∧
    CancelledAt t 0 "job-a" := by
  have h : ((engine defaultCfg).exec State.init
      [.enqueue "job-a" "/a.mp4" "https://up/" "" "", .cancel "job-a"]).bind (fun s =>
        ((engine defaultCfg).exec s workerRound).map fun t =>
          (decide (CancelledAt s 0 "job-a"),
            decide ((engine defaultCfg).meets CancelRespected s workerRound), s.queue, t.queue)) =
      some (true, true, ["job-a"], []) := by
    decide
  obtain ⟨s, hs, h⟩ := Option.bind_eq_some_iff.mp h
  obtain ⟨t, ht, hobs⟩ := Option.map_eq_some_iff.mp h
  simp only [Prod.mk.injEq, decide_eq_true_eq] at hobs
  obtain ⟨hcan, hmeets, hq, hq'⟩ := hobs
  have hreach : (engine defaultCfg).Reach CancelRespected s :=
    Machine.steps_of_exec hs (by decide)
  have hsteps := Machine.steps_of_exec ht hmeets
  exact ⟨s, t, hreach, hsteps, hq, hq', cancelFinal hreach hsteps hcan⟩

/-- **A `cancel` between the test and the store is overwritten**: the job goes from CANCELLED to
    UPLOADING. -/
theorem cancelFinal_lateCancel : ∃ s t, (engine defaultCfg).Reach Machine.Any s ∧
    (engine defaultCfg).Steps Machine.Any s t ∧ CancelledAt s 0 "job-a" ∧
    ¬ CancelledAt t 0 "job-a" ∧ getStatus t "job-a" = .uploading := by
  have h : ((engine defaultCfg).exec State.init (oneJobFound ++ [.cancel "job-a"])).bind (fun s =>
        ((engine defaultCfg).exec s [.worker .go]).map fun t =>
          (decide (CancelledAt s 0 "job-a"), decide (CancelledAt t 0 "job-a"),
            getStatus t "job-a")) =
      some (true, false, .uploading) := by
    decide
  obtain ⟨s, hs, h⟩ := Option.bind_eq_some_iff.mp h
  obtain ⟨t, ht, hobs⟩ := Option.map_eq_some_iff.mp h
  simp only [Prod.mk.injEq, decide_eq_true_eq, decide_eq_false_iff_not] at hobs
  obtain ⟨hcan, hnot, hget⟩ := hobs
  exact ⟨s, t, Machine.steps_of_exec hs (Machine.meets_any _ _),
    Machine.steps_of_exec ht (Machine.meets_any _ _), hcan, hnot, hget⟩

end Viral.Upload
