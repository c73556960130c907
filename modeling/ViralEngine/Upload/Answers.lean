/-
  File:      ViralEngine/Upload/Answers.lean
  Subject:   WHAT `getStatus` ANSWERS BEHIND A CHANGE OF THE RECORDS.

  `getStatus` answers for the first record of an id, whatever the ids are. A change that searches
  by id and status need not find that record, and a change through a reference left behind finds
  none of the records in use.

  * `answer` -- the answer over a list of records, and what an append, a guarded search and a
    change of a first record do to it;
  * `FirstHeld`, `effect_firstHeld` -- the record the worker holds is the first of its id;
  * `updateFirst_getStatus`, `pause_getStatus`, `cancel_getStatus`, `enqueue_getStatus`,
    `assign_getStatus` -- the same for the engine's changes;
  * `handleResult_cases`, `workerStep_turn` -- the ways out of the result section, and the places
    at which the worker changes records or queue.
-/
import ViralEngine.Upload.PauseAll

namespace Viral.Upload

open Viral.Lib

/-! ## 1. Lists of records -/

/-- The answer of `getStatus` over a list of records. -/
def answer (jobs : List UploadJob) (jobId : String) : UploadStatus :=
  match jobs.find? (fun job => job.id == jobId) with
  | some job => job.status
  | none => .cancelled

theorem getStatus_eq (s : State) (jobId : String) :
    getStatus s jobId = answer s.jobs.elems jobId := rfl

theorem answer_cons (job : UploadJob) (jobs : List UploadJob) (x : String) :
    answer (job :: jobs) x = if job.id = x then job.status else answer jobs x := by
  unfold answer
  rw [List.find?_cons]
  by_cases h : job.id = x
  · rw [if_pos h, beq_iff_eq.mpr h]
  · rw [if_neg h, beq_eq_false_iff_ne.mpr h]

/-- A new record is answered for only if its id is new. -/
theorem answer_append (jobs : List UploadJob) (job : UploadJob) (x : String) :
    answer (jobs ++ [job]) x =
      if x ∈ jobs.map (·.id) then answer jobs x
      else if job.id = x then job.status else .cancelled := by
  induction jobs with
  | nil => exact answer_cons job [] x
  | cons old jobs ih =>
    rw [List.cons_append, answer_cons, ih, answer_cons, List.map_cons]
    by_cases h : old.id = x
    · rw [if_pos h, if_pos h, if_pos (h ▸ List.mem_cons_self)]
    · have hiff : x ∈ old.id :: jobs.map (·.id) ↔ x ∈ jobs.map (·.id) := by
        rw [List.mem_cons]
        exact or_iff_right fun e => h e.symm
      rw [if_neg h, if_neg h]
      simp only [hiff]

/-- **A change of the first record with the id and a status of the guard**: the answer changes
    exactly if that is the first record of the id. -/
theorem answer_modify_guard {guard : UploadStatus → Bool} {f : UploadJob → UploadJob}
    {st : UploadStatus} (hf : ∀ job, (f job).id = job.id ∧ (f job).status = st) {jobId : String}
    {jobs : List UploadJob} {i : Nat}
    (hi : jobs.findIdx? (fun job => job.id == jobId && guard job.status) = some i) (x : String) :
    answer (jobs.modify i f) x =
      if x = jobId ∧ guard (answer jobs jobId) = true then st else answer jobs x := by
  induction jobs generalizing i with
  | nil => cases hi
  | cons job jobs ih =>
    rw [List.findIdx?_cons] at hi
    rw [answer_cons job jobs, answer_cons job jobs]
    by_cases hp : (job.id == jobId && guard job.status) = true
    · -- this record
      rw [if_pos hp] at hi
      cases hi
      simp only [Bool.and_eq_true, beq_iff_eq] at hp
      obtain ⟨rfl, hg⟩ := hp
      show answer (f job :: jobs) x = _
      rw [answer_cons, (hf job).1, (hf job).2, if_pos rfl]
      by_cases hx : job.id = x
      · rw [if_pos hx, if_pos ⟨hx.symm, hg⟩]
      · rw [if_neg hx, if_neg hx, if_neg fun h => hx h.1.symm]
    · rw [if_neg hp] at hi
      obtain ⟨k, hk, rfl⟩ := Option.map_eq_some_iff.mp hi
      show answer (job :: jobs.modify k f) x = _
      rw [answer_cons]
      by_cases hid : job.id = jobId
      · -- the first record of the id does not pass the guard
        have hno : ¬ (x = jobId ∧ guard job.status = true) := fun h => hp (by simp [hid, h.2])
        rw [if_pos hid, if_neg hno]
        by_cases hx : job.id = x
        · rw [if_pos hx, if_pos hx]
        · rw [if_neg hx, if_neg hx, ih hk, if_neg fun h => hx (hid.trans h.1.symm)]
      · rw [if_neg hid]
        by_cases hx : job.id = x
        · rw [if_pos hx, if_pos hx, if_neg fun h => hid (hx.trans h.1)]
        · rw [if_neg hx, if_neg hx, ih hk]

/-- A change of the first record of an id. -/
theorem answer_modify_first {f : UploadJob → UploadJob} {jobId : String} {jobs : List UploadJob}
    {i : Nat} {job : UploadJob} (hi : jobs[i]? = some job) (hf : (f job).id = job.id)
    (hid : (jobs.map (·.id))[i]? = some jobId)
    (hfirst : ∀ k < i, (jobs.map (·.id))[k]? ≠ some jobId) (x : String) :
    answer (jobs.modify i f) x = if x = jobId then (f job).status else answer jobs x := by
  induction jobs generalizing i with
  | nil => cases hi
  | cons old jobs ih =>
    cases i with
    | zero =>
      obtain rfl : old = job := Option.some.inj hi
      obtain rfl : old.id = jobId := Option.some.inj hid
      show answer (f old :: jobs) x = _
      rw [answer_cons, answer_cons, hf]
      by_cases hx : old.id = x
      · rw [if_pos hx, if_pos hx.symm]
      · rw [if_neg hx, if_neg hx, if_neg fun e => hx e.symm]
    | succ i =>
      have hne : old.id ≠ jobId := fun e => hfirst 0 (Nat.zero_lt_succ i) (congrArg some e)
      show answer (old :: jobs.modify i f) x = _
      rw [answer_cons, answer_cons,
        ih hi hid fun k hk => hfirst (k + 1) (Nat.succ_lt_succ hk)]
      by_cases hx : old.id = x
      · rw [if_pos hx, if_pos hx, if_neg fun e => hne (hx.trans e)]
      · rw [if_neg hx, if_neg hx]

/-! ## 2. The record the worker holds -/

/-- The record of the held reference is the first of its id, in whatever buffer. -/
def FirstHeld (L : Ledger) : Prop :=
  ∀ r, L.hold.job = some r →
    ∃ jobId, L.ids[r.idx]? = some jobId ∧ ∀ k < r.idx, L.ids[k]? ≠ some jobId

theorem effect_firstHeld {cfg : Cfg} {c : Option Ref} {L L' : Ledger} {a : Act}
    (h : Effect cfg c L a L') (hL : FirstHeld L) : FirstHeld L' := by
  intro r hr
  by_cases hold : L.hold.job = some r
  · exact effect_first h (hL r hold)
  · -- only the lookup takes a new reference
    cases h with
    | find e i job hh hi hj =>
      cases hr
      obtain ⟨hlt, _, hmin⟩ := List.findIdx?_eq_some_iff_getElem.mp hi
      refine ⟨job.id, ?_, fun k hk hkid => ?_⟩
      · show (L.jobs.elems.map (·.id))[i]? = some job.id
        rw [List.getElem?_map, hj]
        rfl
      · change (L.jobs.elems.map (·.id))[k]? = some job.id at hkid
        rw [List.getElem?_map, List.getElem?_eq_getElem (Nat.lt_trans hk hlt)] at hkid
        have := hmin k hk
        simp only [beq_iff_eq] at this
        exact this (Option.some.inj hkid)
    | clear e jobId q job hh _ _ | start e jobId q hh =>
      rw [hh] at hold
      exact absurd hr hold
    | quiet | enqueue | pause | resume | cancel | retry | progress => exact absurd hr hold
    | pop | lose | skip | keep | complete | requeue | fail | caught | terminate => cases hr

/-! ## 3. The engine's changes -/

section Changes

variable {cfg : Cfg} {s t : State}

/-- A client call of the common scheme changes the answer for its id alone, and exactly if the
    answer passes the guard. -/
theorem updateFirst_getStatus {jobId : String} {guard : UploadStatus → Bool}
    {change : UploadJob → UploadJob} {push : Bool} {status : UploadStatus} {message : String}
    (hf : ∀ job, (change job).id = job.id ∧ (change job).status = status)
    (hg : guard .cancelled = true → status = .cancelled) (x : String) :
    getStatus (updateFirst s jobId (fun job => guard job.status) change push status message) x =
      if x = jobId ∧ guard (getStatus s jobId) = true then status else getStatus s x := by
  unfold updateFirst
  cases hi : s.jobs.elems.findIdx? (fun job => job.id == jobId && guard job.status) with
  | some i => exact answer_modify_guard hf hi x
  | none =>
    show getStatus s x = _
    by_cases hx : x = jobId ∧ guard (getStatus s jobId) = true
    · -- no record passes, so there is none of the id
      obtain ⟨rfl, hgx⟩ := hx
      have hnone : s.jobs.elems.find? (fun job => job.id == x) = none := by
        cases hfind : s.jobs.elems.find? (fun job => job.id == x) with
        | none => rfl
        | some job =>
          have hjob := List.findIdx?_eq_none_iff.mp hi job (List.mem_of_find?_eq_some hfind)
          have hid := List.find?_some hfind
          have hst : getStatus s x = job.status := by
            unfold getStatus
            rw [hfind]
          rw [hst] at hgx
          simp [hid, hgx] at hjob
      have hst : getStatus s x = .cancelled := by
        unfold getStatus
        rw [hnone]
      rw [if_pos ⟨rfl, hgx⟩, hg (hst ▸ hgx)]
      exact hst
    · rw [if_neg hx]

theorem pause_getStatus (s : State) (jobId x : String) : getStatus (pause s jobId) x =
    if x = jobId ∧ (getStatus s jobId == .uploading) = true then .paused else getStatus s x := by
  have hf : ∀ job : UploadJob, ({ job with status := .paused } : UploadJob).id = job.id ∧
      ({ job with status := .paused } : UploadJob).status = .paused := fun _ => ⟨rfl, rfl⟩
  exact @updateFirst_getStatus s jobId (· == .uploading) _ false .paused "" hf nofun x

theorem cancel_getStatus (s : State) (jobId x : String) : getStatus (cancel s jobId) x =
    if x = jobId then .cancelled else getStatus s x := by
  have hf : ∀ job : UploadJob, ({ job with status := .cancelled } : UploadJob).id = job.id ∧
      ({ job with status := .cancelled } : UploadJob).status = .cancelled := fun _ => ⟨rfl, rfl⟩
  have h := @updateFirst_getStatus s jobId (fun _ => true) _ false .cancelled "" hf (fun _ => rfl) x
  simp only [and_true] at h
  exact h

theorem enqueue_getStatus {jobId f u n d : String}
    (hroom : ¬ (s.queue.length : Int) ≥ viralUploadQueueMax) (x : String) :
    getStatus (enqueue cfg s jobId f u n d).1 x =
      if x ∈ s.ledger.ids then getStatus s x else if jobId = x then .queued else .cancelled := by
  unfold enqueue
  rw [if_neg hroom, getStatus_eq]
  show answer (s.jobs.pushBack _ _).elems x = _
  rw [RefVector.elems_pushBack]
  exact answer_append _ _ x

/-- A held reference into the records in use reads what the getters answer for. -/
theorem getStatus_held {r : Ref} {job : UploadJob} (hF : FirstHeld s.ledger)
    (hh : s.worker.job = some r) (hr : s.jobs.deref r = some job) (hcur : s.jobs.Current r) :
    getStatus s job.id = job.status := by
  rw [RefVector.deref_of_current hcur] at hr
  obtain ⟨jobId, hid, hfirst⟩ := hF r (by rw [ledger_hold, WorkerPc.hold_job]; exact hh)
  obtain ⟨e, _⟩ := find_first hid hfirst hr
  rw [← e] at hid hfirst
  exact statusOf_first ⟨hid, hfirst⟩ hr

/-- A store through the held reference changes the answer for its job alone, and exactly if the
    reference is into the records in use. -/
theorem assign_getStatus {r : Ref} {job : UploadJob} {f : UploadJob → UploadJob}
    (hF : FirstHeld s.ledger) (hh : s.worker.job = some r) (hr : s.jobs.deref r = some job)
    (hf : (f job).id = job.id) (x : String) :
    answer (s.jobs.assign r f).elems x =
      if s.jobs.Current r ∧ x = job.id then (f job).status else getStatus s x := by
  rw [RefVector.elems_assign]
  by_cases hcur : s.jobs.Current r
  · rw [if_pos hcur]
    rw [RefVector.deref_of_current hcur] at hr
    obtain ⟨jobId, hid, hfirst⟩ := hF r (by rw [ledger_hold, WorkerPc.hold_job]; exact hh)
    obtain ⟨rfl, _⟩ := find_first hid hfirst hr
    rw [answer_modify_first hr hf hid hfirst]
    by_cases hx : x = job.id
    · rw [if_pos hx, if_pos ⟨hcur, hx⟩]
    · rw [if_neg hx, if_neg fun h => hx h.2, getStatus_eq]
  · rw [if_neg hcur, if_neg fun h => hcur h.1, getStatus_eq]

/-- **The ways out of the result section**, by what they store and push. -/
inductive ResultCase (s : State) (r : Ref) (job : UploadJob) (success : Bool) : Prop where
  | kept (hst : job.status = .cancelled ∨ job.status = .paused)
      (hjobs : (handleResult s r job success).jobs = s.jobs)
      (hqueue : (handleResult s r job success).queue = s.queue)
  | stored (f : UploadJob → UploadJob) (hst : job.status ≠ .cancelled ∧ job.status ≠ .paused)
      (hn : success = true ∨ ¬ job.retryCount + 1 < viralUploadMaxRetry)
      (hf : (f job).id = job.id ∧ (f job).status ≠ .queued ∧ (f job).status ≠ .uploading)
      (hjobs : (handleResult s r job success).jobs = s.jobs.assign r f)
      (hqueue : (handleResult s r job success).queue = s.queue)
  | requeued (f : UploadJob → UploadJob) (hst : job.status ≠ .cancelled ∧ job.status ≠ .paused)
      (hn : success = false ∧ job.retryCount + 1 < viralUploadMaxRetry)
      (hf : (f job).id = job.id ∧ (f job).status = .queued)
      (hjobs : (handleResult s r job success).jobs = s.jobs.assign r f)
      (hqueue : (handleResult s r job success).queue = s.queue ++ [job.id])

theorem handleResult_cases (s : State) (r : Ref) (job : UploadJob) (success : Bool) :
    ResultCase s r job success := by
  by_cases hc : job.status = .cancelled
  · have e : handleResult s r job success = { s with worker := .head, poller := .none } := by
      unfold handleResult
      exact if_pos hc
    exact .kept (Or.inl hc) (by rw [e]) (by rw [e])
  by_cases hp : job.status = .paused
  · have e : handleResult s r job success = { s with worker := .head, poller := .none } := by
      unfold handleResult
      rw [if_neg hc]
      exact if_pos hp
    exact .kept (Or.inr hp) (by rw [e]) (by rw [e])
  cases success with
  | true =>
    refine .stored (fun j => { j with status := .completed, progress := 1 }) ⟨hc, hp⟩
      (Or.inl rfl) ⟨rfl, nofun, nofun⟩ ?_ ?_ <;>
      (unfold handleResult; rw [if_neg hc, if_neg hp]; rfl)
  | false =>
    by_cases hn : job.retryCount + 1 < viralUploadMaxRetry
    · refine .requeued (fun j => { j with retryCount := j.retryCount + 1, status := .queued })
        ⟨hc, hp⟩ ⟨rfl, hn⟩ ⟨rfl, rfl⟩ ?_ ?_ <;>
        (unfold handleResult
         rw [if_neg hc, if_neg hp, if_neg Bool.false_ne_true, if_pos hn]
         rfl)
    · refine .stored (fun j => { j with retryCount := j.retryCount + 1, status := .failed })
        ⟨hc, hp⟩ (Or.inr hn) ⟨rfl, nofun, nofun⟩ ?_ ?_ <;>
        (unfold handleResult
         rw [if_neg hc, if_neg hp, if_neg Bool.false_ne_true, if_neg hn]
         rfl)

/-- **What a step of the worker does to the records and the queue**: at three places it stores
    through its reference, at one it takes an id, elsewhere it changes neither. -/
inductive WorkerTurn (cfg : Cfg) (s : State) (t : State) : Prop where
  | plain (hjobs : t.jobs = s.jobs) (hqueue : t.queue = s.queue)
      (hw : (∀ jobId r, s.worker ≠ .start jobId r) ∧ (∀ r success, s.worker ≠ .result r success) ∧
        ∀ r what, s.worker ≠ .caught r what)
  | pops (jobId : String) (hw : s.worker = .pop) (hjobs : t.jobs = s.jobs)
      (hqueue : s.queue = jobId :: t.queue) (hw' : t.worker = .find jobId)
  | starts (jobId : String) (r : Ref) (hw : s.worker = .start jobId r)
      (ht : t = { s with
        worker := .notify r, jobs := s.jobs.assign r fun j => { j with status := .uploading } })
  | results (r : Ref) (success : Bool) (job : UploadJob) (hw : s.worker = .result r success)
      (hr : s.jobs.deref r = some job) (ht : t = handleResult s r job success)
  | catches (r : Ref) (what : String) (job : UploadJob) (hw : s.worker = .caught r what)
      (hr : s.jobs.deref r = some job) (ht : t = handleException s r job what)

theorem workerStep_turn {e : TusEvent} (h : workerStep cfg s e = some t) :
    WorkerTurn cfg s t := by
  have hplain : ∀ {u : State} {w : WorkerPc}, u.jobs = s.jobs → u.queue = s.queue →
      s.worker = w → ((∀ jobId r, w ≠ .start jobId r) ∧ (∀ r success, w ≠ .result r success) ∧
        ∀ r what, w ≠ .caught r what) → WorkerTurn cfg s u :=
    fun hj hq hw hno => .plain hj hq (hw ▸ hno)
  cases workerStep_move h with
  | head hw | testPaused hw | testEmpty hw | popNone hw | lose _ hw | find _ _ hw | skip _ _ _ hw
  | clear _ _ _ hw | notify _ _ hw | noClient _ _ hw | construct _ hw | noThread _ _ hw
  | spawn _ hw | upload _ _ _ _ hw | uploaded _ _ _ _ hw | terminate _ _ _ _ hw
  | unwind _ _ _ _ hw | returned _ _ hw | join _ _ hw =>
    exact hplain rfl rfl hw ⟨nofun, nofun, nofun⟩
  | pop jobId queue hw hq => exact .pops jobId hw rfl hq rfl
  | start jobId r hw => exact .starts jobId r hw rfl
  | result r success job hw _ hr => exact .results r success job hw hr rfl
  | caught r what job hw _ hr => exact .catches r what job hw hr rfl

/-- The poller's step leaves the queue and every answer alone. -/
theorem poller_getStatus (h : pollerStep s = some t) (hF : FirstHeld s.ledger)
    (hO : HoldOk s.ledger) :
    t.queue = s.queue ∧ ∀ x, getStatus t x = getStatus s x := by
  cases pollerStep_move h with
  | store r p _ hh =>
    obtain ⟨_, ⟨job, hr, _⟩, _⟩ := hO r (by rw [ledger_hold, WorkerPc.hold_job]; exact hh)
    refine ⟨rfl, fun x => ?_⟩
    have hget := @assign_getStatus s r job (fun j => { j with progress := p }) hF hh hr rfl x
    refine Eq.trans (b := answer (s.jobs.assign r _).elems x) rfl (hget.trans ?_)
    split
    · rename_i hx
      obtain ⟨hcur, rfl⟩ := hx
      exact (getStatus_held hF hh hr hcur).symm
    · rfl
  | loop | read | report | seesCancel | seesPause | seesNothing | cancel | pauseTest | pauseStore
  | setDone => exact ⟨rfl, fun _ => rfl⟩

end Changes

end Viral.Upload
