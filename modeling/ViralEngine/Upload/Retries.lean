/-
  File:      ViralEngine/Upload/Retries.lean
  Subject:   HOW OFTEN A JOB IS TRIED: the retry counter, and the attempts that failed since the
             last `enqueue` or `retry`.

  The counter is raised in the result section alone and set back in `retry` alone, while attempts
  begin wherever the queue has an entry. The bound holds as long as an attempt begins on a job
  that has not FAILED, and a failure is counted in the records in use.

  * `failing`, `recount` -- the attempts that end in failure, counted beside the engine for each
    record;
  * `RetriesBounded` -- the bound;
  * `Counted` -- what the worker's steps must find;
  * `Tried`, `step_tried` -- the failures never run ahead of the counter of a job that may still
    be tried;
  * `retriesBounded` -- the bound in every run; `retriesBounded_resumedInFlight` -- with a second
    entry each time, a job fails four times and is never counted.
-/
import ViralEngine.Upload.Contained

namespace Viral.Upload

open Viral.Lib

/-! ## 1. Attempts that end in failure -/

/-- The record whose attempt the worker's next step ends in failure: the result section finds it
    neither CANCELLED nor PAUSED behind an `upload()` that was false, or the `catch` clause runs.
    (An exception that ends the process ends no attempt.) -/
def failing (s : State) : Option Ref :=
  match s.worker with
  | .result r false => do
    let job ← s.jobs.deref r
    if job.status = .cancelled ∨ job.status = .paused then none else some r
  | .caught r _ => some r
  | _ => none

/-- The failures of each record since its `enqueue` or last `retry`, behind one more step. -/
def recount (failures : Nat → Nat) (s : State) (a : Act) (_ : State) : Nat → Nat :=
  match a with
  | .enqueue .. => Function.update failures s.jobs.elems.length 0
  | .retry jobId =>
    match s.jobs.elems.findIdx? (fun job => job.id == jobId && job.status == .failed) with
    | none => failures
    | some i => Function.update failures i 0
  | .worker _ =>
    match failing s with
    | none => failures
    | some r => Function.update failures r.idx (failures r.idx + 1)
  | _ => failures

/-- The engine with the count beside it. -/
def counted (cfg : Cfg) : Machine (State × (Nat → Nat)) Act :=
  (engine cfg).watch (fun _ => 0) recount

/-- **Automatic retries are bounded.** -/
structure RetriesBounded (s : State) (failures : Nat → Nat) : Prop where
  counter : ∀ job ∈ s.jobs.elems, 0 ≤ job.retryCount ∧ job.retryCount ≤ viralUploadMaxRetry
  spent : ∀ job ∈ s.jobs.elems, job.retryCount = viralUploadMaxRetry →
    job.status = .failed ∨ job.status = .cancelled
  attempts : ∀ i < s.jobs.elems.length, (failures i : Int) ≤ viralUploadMaxRetry

/-- The reference of the worker's test for CANCELLED. -/
def WorkerPc.testing : WorkerPc → Option Ref
  | .check _ r => some r
  | _ => none

/-- **What the worker's step must find**: its test for CANCELLED a job that has not FAILED, and an
    attempt that ends in failure a reference into the records in use. -/
def Counted (s : State) : Act → Prop
  | .worker _ =>
    (∀ r ∈ s.worker.testing, s.jobs.Current r → ∀ job ∈ s.jobs.deref r, job.status ≠ .failed) ∧
      ∀ r ∈ failing s, s.jobs.Current r
  | _ => True

instance (s : State) : ∀ a : Act, Decidable (Counted s a)
  | .worker _ => inferInstanceAs (Decidable (_ ∧ _))
  | .enqueue .. | .pause _ | .resume _ | .cancel _ | .retry _ | .pauseAll | .resumeAll
  | .setAuthToken _ | .destroy | .poller => inferInstanceAs (Decidable True)

/-! ## 2. The invariant -/

/-- The reference of a worker behind its test for CANCELLED. -/
def Hold.past : Hold → Option Ref
  | .cleared _ r | .running r => some r
  | _ => none

theorem past_job {h : Hold} {r : Ref} (hr : h.past = some r) : h.job = some r := by
  cases h <;> first | exact hr | cases hr

/-- The record at `i` may still be tried: it has not ended, or an attempt on it is under way. -/
def MayTry (v : RefVector UploadJob) (past : Option Ref) (i : Nat) (job : UploadJob) : Prop :=
  (job.status ≠ .failed ∧ job.status ≠ .cancelled) ∨ ∃ r, past = some r ∧ v.Current r ∧ r.idx = i

/-- **The failures never run ahead of the counter** of a record that may still be tried. -/
structure Tried (v : RefVector UploadJob) (past : Option Ref) (failures : Nat → Nat) : Prop where
  bounds : ∀ i job, v.elems[i]? = some job → 0 ≤ job.retryCount ∧
    job.retryCount ≤ viralUploadMaxRetry ∧ (failures i : Int) ≤ viralUploadMaxRetry
  live : ∀ i job, v.elems[i]? = some job → MayTry v past i job →
    (failures i : Int) ≤ job.retryCount ∧ job.retryCount < viralUploadMaxRetry

section Tried

variable {v v' : RefVector UploadJob} {past past' : Option Ref} {f f' : Nat → Nat}

theorem Tried.bounded {s : State} (h : Tried s.jobs past f) : RetriesBounded s f where
  counter job hjob := by
    obtain ⟨i, hi⟩ := List.mem_iff_getElem?.mp hjob
    obtain ⟨h0, h1, _⟩ := h.bounds i job hi
    exact ⟨h0, h1⟩
  spent job hjob hrc := by
    obtain ⟨i, hi⟩ := List.mem_iff_getElem?.mp hjob
    by_contra hno
    obtain ⟨_, hlt⟩ := h.live i job hi (Or.inl (not_or.mp hno))
    exact absurd hrc (Int.ne_of_lt hlt)
  attempts i hi := (h.bounds i _ (List.getElem?_eq_getElem hi)).2.2

/-- The records stay, the worker lets go or stays where it is. -/
theorem Tried.release (h : Tried v past f) (hpast : ∀ r, past' = some r → past = some r) :
    Tried v past' f where
  bounds := h.bounds
  live i job hi hmay := h.live i job hi (hmay.imp_right fun ⟨r, hr, hcur, e⟩ =>
    ⟨r, hpast r hr, hcur, e⟩)

/-- The records in use stay. -/
theorem Tried.congr (h : Tried v past f) (helems : v'.elems = v.elems)
    (hcur : ∀ r, v'.Current r → v.Current r) : Tried v' past f where
  bounds i job hi := h.bounds i job (helems ▸ hi)
  live i job hi hmay := h.live i job (helems ▸ hi) (hmay.imp_right fun ⟨r, hr, hc, e⟩ =>
    ⟨r, hr, hcur r hc, e⟩)

/-- The worker passes its test on a record that may be tried. -/
theorem Tried.clear (h : Tried v past f) {r : Ref} {job : UploadJob} (hr : v.deref r = some job)
    (hc : job.status ≠ .cancelled) (hf : v.Current r → job.status ≠ .failed) :
    Tried v (some r) f where
  bounds := h.bounds
  live i job' hi hmay := by
    rcases hmay with hst | ⟨q, hq, hcur, rfl⟩
    · exact h.live i job' hi (Or.inl hst)
    · obtain rfl := Option.some.inj hq
      rw [RefVector.deref_of_current hcur, hi] at hr
      obtain rfl := Option.some.inj hr
      exact h.live _ job' hi (Or.inl ⟨hf hcur, hc⟩)

/-- **One record changes**, with its count. -/
theorem Tried.change (h : Tried v past f) {i : Nat} {job : UploadJob}
    {g : UploadJob → UploadJob} (hi : v.elems[i]? = some job)
    (helems : v'.elems = v.elems.modify i g) (hcur : ∀ r, v'.Current r → v.Current r)
    (hpast : ∀ r, past' = some r → past = some r) (hf : ∀ k, k ≠ i → f' k = f k)
    (hbounds : 0 ≤ (g job).retryCount ∧ (g job).retryCount ≤ viralUploadMaxRetry ∧
      (f' i : Int) ≤ viralUploadMaxRetry)
    (hlive : MayTry v' past' i (g job) →
      (f' i : Int) ≤ (g job).retryCount ∧ (g job).retryCount < viralUploadMaxRetry) :
    Tried v' past' f' := by
  have hget : ∀ k job', v'.elems[k]? = some job' →
      (k = i ∧ job' = g job) ∨ (k ≠ i ∧ v.elems[k]? = some job') := by
    intro k job' hk
    rw [helems, List.getElem?_modify] at hk
    by_cases hki : i = k
    · subst hki
      simp only [hi, if_true] at hk
      exact Or.inl ⟨rfl, (Option.some.inj hk).symm⟩
    · simp only [hki, if_false] at hk
      exact Or.inr ⟨Ne.symm hki, by simpa using hk⟩
  refine ⟨fun k job' hk => ?_, fun k job' hk hmay => ?_⟩
  · rcases hget k job' hk with ⟨rfl, rfl⟩ | ⟨hne, hk⟩
    · exact hbounds
    · rw [hf k hne]
      exact h.bounds k job' hk
  · rcases hget k job' hk with ⟨rfl, rfl⟩ | ⟨hne, hk⟩
    · exact hlive hmay
    · rw [hf k hne]
      exact h.live k job' hk (hmay.imp_right fun ⟨r, hr, hc, e⟩ => ⟨r, hpast r hr, hcur r hc, e⟩)

/-- A record changes its status and keeps its counter. -/
theorem Tried.restatus (h : Tried v past f) {i : Nat} {job : UploadJob}
    {g : UploadJob → UploadJob} (hi : v.elems[i]? = some job)
    (helems : v'.elems = v.elems.modify i g) (hcur : ∀ r, v'.Current r → v.Current r)
    (hpast : ∀ r, past' = some r → past = some r) (hg : (g job).retryCount = job.retryCount)
    (hmay : MayTry v' past' i (g job) → MayTry v past i job) : Tried v' past' f := by
  refine h.change hi helems hcur hpast (fun _ _ => rfl) ?_ fun hm => ?_
  · rw [hg]
    exact h.bounds i job hi
  · rw [hg]
    exact h.live i job hi (hmay hm)

/-- **A store through the reference of a worker behind its test**: seen in the records in use, or
    counted nowhere. -/
theorem Tried.store {r : Ref} {job : UploadJob} {g : UploadJob → UploadJob}
    (h : Tried v (some r) f) (hr : v.deref r = some job)
    (hpast : ∀ q, past' = some q → q = r) (hf : ∀ k, k ≠ r.idx → f' k = f k)
    (hstale : v.Current r ∨ f' = f)
    (hnew : (f r.idx : Int) ≤ job.retryCount → 0 ≤ job.retryCount →
      job.retryCount < viralUploadMaxRetry →
      (0 ≤ (g job).retryCount ∧ (g job).retryCount ≤ viralUploadMaxRetry ∧
        (f' r.idx : Int) ≤ viralUploadMaxRetry) ∧
      (past' = none → (g job).status = .failed ∨
        (f' r.idx : Int) ≤ (g job).retryCount ∧ (g job).retryCount < viralUploadMaxRetry) ∧
      (past' ≠ none →
        (f' r.idx : Int) ≤ (g job).retryCount ∧ (g job).retryCount < viralUploadMaxRetry)) :
    Tried (v.assign r g) past' f' := by
  have hcur' : ∀ q, (v.assign r g).Current q → v.Current q := fun q =>
    (RefVector.current_assign v r q g).mp
  by_cases hcur : v.Current r
  · have hi := (RefVector.deref_of_current hcur).symm.trans hr
    obtain ⟨h0, _, _⟩ := h.bounds r.idx job hi
    obtain ⟨hle, hlt⟩ := h.live r.idx job hi (Or.inr ⟨r, rfl, hcur, rfl⟩)
    obtain ⟨hb, hidle, hbusy⟩ := hnew hle h0 hlt
    refine h.change hi (by rw [RefVector.elems_assign, if_pos hcur]) hcur'
      (fun q hq => congrArg some (hpast q hq).symm) hf hb fun hm => ?_
    cases hp : past' with
    | some q => exact hbusy (by rw [hp]; nofun)
    | none =>
      rcases hidle hp with hfailed | hlive
      · rcases hm with ⟨hne, _⟩ | ⟨q, hq, _⟩
        · exact absurd hfailed hne
        · rw [hp] at hq
          cases hq
      · exact hlive
  · obtain rfl := hstale.resolve_left hcur
    have helems : (v.assign r g).elems = v.elems := by rw [RefVector.elems_assign, if_neg hcur]
    exact (h.congr helems hcur').release fun q hq => congrArg some (hpast q hq).symm

/-- A new record, not yet tried. -/
theorem Tried.enqueue (h : Tried v past f) (grow : Nat → Nat) {job : UploadJob}
    (hrc : job.retryCount = 0) (hreads : ∀ r, past = some r → ∃ job, v.deref r = some job) :
    Tried (v.pushBack grow job) past (Function.update f v.elems.length 0) := by
  have hget : ∀ k job', (v.pushBack grow job).elems[k]? = some job' →
      (k = v.elems.length ∧ job' = job) ∨ (k ≠ v.elems.length ∧ v.elems[k]? = some job') := by
    intro k job' hk
    rw [RefVector.elems_pushBack, List.getElem?_append] at hk
    split at hk
    · rename_i hlt
      exact Or.inr ⟨Nat.ne_of_lt hlt, hk⟩
    · rename_i hge
      obtain ⟨hlt, e⟩ := List.getElem?_eq_some_iff.mp hk
      rw [List.length_singleton] at hlt
      exact Or.inl ⟨by omega, e.symm.trans (by simp)⟩
  refine ⟨fun k job' hk => ?_, fun k job' hk hm => ?_⟩
  · rcases hget k job' hk with ⟨rfl, rfl⟩ | ⟨hne, hk⟩
    · rw [Function.update_self, hrc]
      decide
    · rw [Function.update_of_ne hne]
      exact h.bounds k job' hk
  · rcases hget k job' hk with ⟨rfl, rfl⟩ | ⟨hne, hk⟩
    · rw [Function.update_self, hrc]
      decide
    · rw [Function.update_of_ne hne]
      refine h.live k job' hk (hm.imp_right fun ⟨r, hr, hc, e⟩ => ?_)
      obtain ⟨_, hread⟩ := hreads r hr
      exact ⟨r, hr, RefVector.current_of_pushBack hread hc, e⟩

end Tried

/-! ## 3. One step -/

section Step

variable {cfg : Cfg} {s t : State} {a : Act} {f : Nat → Nat}

theorem updateFirst_tried {past : Option Ref} {jobId : String} {guard : UploadJob → Bool}
    {change : UploadJob → UploadJob} {push : Bool} {status : UploadStatus} {message : String}
    (h : Tried s.jobs past f) (hrc : ∀ job, (change job).retryCount = job.retryCount)
    (hst : ∀ job, guard job = true → (change job).status ≠ .cancelled → job.status ≠ .failed ∧
      job.status ≠ .cancelled) :
    Tried (updateFirst s jobId guard change push status message).jobs past f := by
  unfold updateFirst
  cases hf : s.jobs.elems.findIdx? (fun job => job.id == jobId && guard job) with
  | none => exact h
  | some i =>
    obtain ⟨job, hi, _, hg⟩ := findIdx?_job hf
    exact h.restatus hi rfl (fun _ hr => hr) (fun _ hr => hr) (hrc job)
      (Or.imp_left fun hlive => hst job hg hlive.2)

/-- **A client's call keeps the failures behind the counters.** -/
theorem client_tried (hs : step cfg s a = some t) (hw : ∀ e, a ≠ .worker e) (hp : a ≠ .poller)
    (hO : HoldOk s.ledger) (hT : Tried s.jobs s.worker.hold.past f) :
    Tried t.jobs t.worker.hold.past (recount f s a t) := by
  obtain ⟨⟨ew, _⟩, _⟩ := client_frame hs hw hp
  rw [ew]
  unfold step at hs
  split at hs
  · cases hs
  cases a with
  | worker e => exact absurd rfl (hw e)
  | poller => exact absurd rfl hp
  | pauseAll | resumeAll | destroy =>
    cases hs
    exact hT
  | setAuthToken token =>
    rw [locked_some hs]
    exact hT
  | enqueue jobId filePath serverUrl title description =>
    rw [locked_some hs]
    unfold enqueue
    split
    · -- no record is appended: the count of the place behind the records is not looked at
      have hsame : ∀ i job, s.jobs.elems[i]? = some job →
          Function.update f s.jobs.elems.length 0 i = f i := fun i job hi =>
        Function.update_of_ne (Nat.ne_of_lt (List.getElem?_eq_some_iff.mp hi).1) _ _
      refine ⟨fun i job hi => ?_, fun i job hi hm => ?_⟩
      · rw [recount, hsame i job hi]
        exact hT.bounds i job hi
      · rw [recount, hsame i job hi]
        exact hT.live i job hi hm
    · refine hT.enqueue cfg.grow rfl fun r hr => ?_
      obtain ⟨_, ⟨job, hread, _⟩, _⟩ := hO r (past_job hr)
      exact ⟨job, hread⟩
  | pause jobId =>
    rw [locked_some hs]
    exact updateFirst_tried hT (fun _ => rfl) fun job hg _ => by
      rw [eq_of_beq hg]
      exact ⟨nofun, nofun⟩
  | resume jobId =>
    rw [locked_some hs]
    exact updateFirst_tried hT (fun _ => rfl) fun job hg _ => by
      rw [eq_of_beq hg]
      exact ⟨nofun, nofun⟩
  | cancel jobId =>
    rw [locked_some hs]
    exact updateFirst_tried hT (fun _ => rfl) fun job _ hno => absurd rfl hno
  | retry jobId =>
    rw [locked_some hs]
    unfold retry updateFirst recount
    dsimp only
    cases hf : s.jobs.elems.findIdx? (fun job => job.id == jobId && job.status == .failed) with
    | none => exact hT
    | some i =>
      obtain ⟨job, hi, _⟩ := findIdx?_job hf
      refine hT.change hi rfl (fun _ hr => hr) (fun _ hr => hr)
        (fun k hk => Function.update_of_ne hk _ _) ?_ fun _ => ?_
      · dsimp only
        rw [Function.update_self]
        decide
      · dsimp only
        rw [Function.update_self]
        decide

/-- A step of the worker that ends no attempt in failure leaves the count alone. -/
theorem recount_worker {e : TusEvent} (h : failing s = none) :
    recount f s (.worker e) t = f := by
  unfold recount
  simp only [h]

theorem recount_failing {e : TusEvent} {r : Ref} (h : failing s = some r) :
    recount f s (.worker e) t = Function.update f r.idx (f r.idx + 1) := by
  unfold recount
  simp only [h]

/-- The result section's ways out, as far as records and count go. -/
theorem handleResult_tried {e : TusEvent} {r : Ref} {job : UploadJob} {success : Bool}
    (hw : s.worker = .result r success) (hr : s.jobs.deref r = some job)
    (hC : ∀ q ∈ failing s, s.jobs.Current q) (hT : Tried s.jobs (some r) f) :
    Tried (handleResult s r job success).jobs (handleResult s r job success).worker.hold.past
      (recount f s (.worker e) (handleResult s r job success)) := by
  have hidle : (handleResult s r job success).worker.hold.past = none := by
    rw [(handleResult_frame s r job success).1]
    rfl
  rw [hidle]
  by_cases hkept : job.status = .cancelled ∨ job.status = .paused
  · have hnone : failing s = none := by
      unfold failing
      rw [hw]
      cases success with
      | true => rfl
      | false => simp [hr, hkept]
    have hjobs : (handleResult s r job success).jobs = s.jobs := by
      unfold handleResult
      rcases hkept with hst | hst <;> simp [hst]
    rw [recount_worker hnone, hjobs]
    exact hT.release nofun
  · have hno := not_or.mp hkept
    cases success with
    | true =>
      have hnone : failing s = none := by
        unfold failing
        rw [hw]
      have hjobs : (handleResult s r job true).jobs =
          s.jobs.assign r fun j => { j with status := .completed, progress := 1 } := by
        unfold handleResult
        rw [if_neg hno.1, if_neg hno.2]
        rfl
      rw [recount_worker hnone, hjobs]
      refine hT.store hr nofun (fun _ _ => rfl) (Or.inr rfl) fun hle h0 hlt => ?_
      have hf0 : (f r.idx : Int) ≤ viralUploadMaxRetry := Int.le_trans hle (Int.le_of_lt hlt)
      exact ⟨⟨h0, Int.le_of_lt hlt, hf0⟩, fun _ => Or.inr ⟨hle, hlt⟩, fun h => absurd rfl h⟩
    | false =>
      have hfails : failing s = some r := by
        unfold failing
        rw [hw]
        simp [hr, hkept]
      have hcur := hC r hfails
      rw [recount_failing hfails]
      by_cases hn : job.retryCount + 1 < viralUploadMaxRetry
      · have hjobs : (handleResult s r job false).jobs = s.jobs.assign r fun j =>
            { j with retryCount := j.retryCount + 1, status := .queued } := by
          unfold handleResult
          rw [if_neg hno.1, if_neg hno.2, if_neg Bool.false_ne_true, if_pos hn]
          rfl
        rw [hjobs]
        refine hT.store hr nofun (fun k hk => Function.update_of_ne hk _ _) (Or.inl hcur)
          fun hle h0 hlt => ?_
        rw [Function.update_self]
        dsimp only
        push_cast
        refine ⟨⟨by omega, by omega, by omega⟩, fun _ => Or.inr ⟨by omega, hn⟩,
          fun h => absurd rfl h⟩
      · have hjobs : (handleResult s r job false).jobs = s.jobs.assign r fun j =>
            { j with retryCount := j.retryCount + 1, status := .failed } := by
          unfold handleResult
          rw [if_neg hno.1, if_neg hno.2, if_neg Bool.false_ne_true, if_neg hn]
          rfl
        rw [hjobs]
        refine hT.store hr nofun (fun k hk => Function.update_of_ne hk _ _) (Or.inl hcur)
          fun hle h0 hlt => ?_
        rw [Function.update_self]
        dsimp only
        push_cast
        exact ⟨⟨by omega, by omega, by omega⟩, fun _ => Or.inl rfl, fun h => absurd rfl h⟩

/-- **A step of the worker keeps the failures behind the counters**, if it finds what it must. -/
theorem worker_tried {e : TusEvent} (h : workerStep cfg s e = some t)
    (hC : Counted s (.worker e)) (hO : HoldOk s.ledger)
    (hT : Tried s.jobs s.worker.hold.past f) :
    Tried t.jobs t.worker.hold.past (recount f s (.worker e) t) := by
  obtain ⟨htest, hfail⟩ := hC
  have hcalm : ∀ {w : WorkerPc}, s.worker = w → (∀ r b, w ≠ .result r b) →
      (∀ r what, w ≠ .caught r what) → failing s = none := by
    intro w hw hres hcaught
    unfold failing
    rw [hw]
    cases w <;> first | rfl | exact absurd rfl (hres _ _) | exact absurd rfl (hcaught _ _)
  cases workerStep_move h with
  | head hw =>
    rw [recount_worker (hcalm hw nofun nofun)]
    refine hT.release fun r hr => ?_
    cases hrun : s.running <;> rw [hrun] at hr <;> cases hr
  | testPaused hw =>
    rw [recount_worker (hcalm hw nofun nofun)]
    refine hT.release fun r hr => ?_
    cases hrun : s.paused <;> rw [hrun] at hr <;> cases hr
  | testEmpty hw =>
    rw [recount_worker (hcalm hw nofun nofun)]
    refine hT.release fun r hr => ?_
    cases hrun : s.queue.isEmpty <;> rw [hrun] at hr <;> cases hr
  | popNone hw | pop _ _ hw | lose _ hw | find _ _ hw | skip _ _ _ hw | terminate _ _ _ _ hw =>
    rw [recount_worker (hcalm hw nofun nofun)]
    exact hT.release nofun
  | clear jobId r job hw hr hst =>
    rw [recount_worker (hcalm hw nofun nofun)]
    exact hT.clear hr hst fun hcur => htest r (by rw [hw]; rfl) hcur job hr
  | notify r _ hw | noClient r _ hw | construct r hw | noThread r _ hw | spawn r hw
  | upload r _ _ _ hw | uploaded r _ _ _ hw | unwind r _ _ _ hw | returned r _ hw
  | join r _ hw =>
    rw [recount_worker (hcalm hw nofun nofun)]
    rw [hw] at hT
    exact hT
  | start jobId r hw =>
    obtain ⟨_, ⟨job, hr, _⟩, _⟩ := hO r (by rw [ledger_hold, hw]; rfl)
    rw [recount_worker (hcalm hw nofun nofun)]
    rw [hw] at hT
    refine hT.store hr (fun q hq => (Option.some.inj hq).symm) (fun _ _ => rfl) (Or.inr rfl)
      fun hle h0 hlt => ⟨⟨h0, Int.le_of_lt hlt, ?_⟩, nofun, fun _ => ⟨hle, hlt⟩⟩
    exact Int.le_trans hle (Int.le_of_lt hlt)
  | result r success job hw _ hr =>
    rw [hw] at hT
    exact handleResult_tried hw hr hfail hT
  | caught r what job hw _ hr =>
    have hfails : failing s = some r := by
      unfold failing
      rw [hw]
    rw [recount_failing hfails]
    rw [hw] at hT
    refine hT.store hr nofun (fun k hk => Function.update_of_ne hk _ _)
      (Or.inl (hfail r hfails)) fun hle h0 hlt => ?_
    rw [Function.update_self]
    dsimp only
    push_cast
    exact ⟨⟨h0, by omega, by omega⟩, fun _ => Or.inl rfl, fun h => absurd rfl h⟩

/-- **A step of the poller** changes no counter and no status. -/
theorem poller_tried (h : pollerStep s = some t) (hO : HoldOk s.ledger)
    (hT : Tried s.jobs s.worker.hold.past f) : Tried t.jobs t.worker.hold.past f := by
  cases pollerStep_move h with
  | store r p hp hh =>
    have hcur' : ∀ q, (s.jobs.assign r fun j => { j with progress := p }).Current q →
        s.jobs.Current q := fun q => (RefVector.current_assign s.jobs r q _).mp
    by_cases hcur : s.jobs.Current r
    · obtain ⟨_, ⟨job, hr, _⟩, _⟩ := hO r (by rw [ledger_hold, WorkerPc.hold_job]; exact hh)
      have hi := (RefVector.deref_of_current hcur).symm.trans hr
      have helems := RefVector.elems_assign s.jobs r fun j => { j with progress := p }
      rw [if_pos hcur] at helems
      refine hT.restatus hi helems hcur' (fun _ hq => hq) rfl fun hm => ?_
      exact hm.imp_right fun ⟨q, hq, hc, e⟩ => ⟨q, hq, hcur' q hc, e⟩
    · exact hT.congr (by rw [RefVector.elems_assign, if_neg hcur]) hcur'
  | loop | read | report | seesCancel | seesPause | seesNothing | cancel | pauseTest | pauseStore
  | setDone => exact hT

/-- **Every step keeps the failures behind the counters**, if the worker finds what it must. -/
theorem step_tried (hs : step cfg s a = some t) (hC : Counted s a) (hO : HoldOk s.ledger)
    (hT : Tried s.jobs s.worker.hold.past f) :
    Tried t.jobs t.worker.hold.past (recount f s a t) := by
  by_cases hw : ∃ e, a = .worker e
  · obtain ⟨e, rfl⟩ := hw
    exact worker_tried (step_worker hs) hC hO hT
  by_cases hp : a = .poller
  · subst hp
    exact poller_tried (step_poller hs) hO hT
  · exact client_tried hs (fun e h => hw ⟨e, h⟩) hp hO hT

end Step

/-! ## 4. The law over runs -/

/-- **Automatic retries are bounded** in every run in which no attempt begins on a FAILED job and
    every attempt that ends in failure is stored in the records in use: each counter is between 0
    and the limit, a job at the limit is FAILED or CANCELLED, and no job fails more often than the
    limit between its `enqueue` or `retry` and the next `retry`. -/
theorem retriesBounded {cfg : Cfg} {s : State} {failures : Nat → Nat}
    (h : (counted cfg).Reach (fun p a => Counted p.1 a) (s, failures)) :
    RetriesBounded s failures := by
  have hI := Machine.Steps.invariant
    (I := fun p => Tried p.1.jobs p.1.worker.hold.past p.2 ∧ HoldOk p.1.ledger) h
    ⟨⟨nofun, nofun⟩, nofun⟩ fun p a q hp hC hstep => ?_
  · exact hI.1.bounded
  · obtain ⟨hT, hO⟩ := hp
    obtain ⟨hs, hf⟩ := Machine.watch_step_some hstep
    rw [hf]
    exact ⟨step_tried hs hC hO hT, effect_holdOk (step_effect hs) hO⟩

/-- The `TusClient` cannot be made, and the attempt ends in the `catch` clause. -/
def notMade : List Act := [.worker (.throws "no chunk directory"), .worker .go]

/-- The worker takes the next entry up to its report of UPLOADING; the job is paused and resumed,
    and its `TusClient` cannot be made. -/
def resumedNotMade : List Act :=
  List.replicate 7 (.worker .go) ++ [.pause "job-a", .resume "job-a", .worker .go] ++ notMade

/-- What the bound looks at, with the count of the first record. -/
def tally (p : State × (Nat → Nat)) : List (UploadStatus × Int) × Nat :=
  (p.1.jobs.elems.map fun job => (job.status, job.retryCount), p.2 0)

/-- One failure, `retry`, and an attempt that succeeds. -/
theorem retriesBounded_retried : ∃ p, (counted defaultCfg).Reach
      (fun p a => Counted p.1 a) p ∧ tally p = ([(.completed, 0)], 0) ∧
    RetriesBounded p.1 p.2 := by
  have h : ((counted defaultCfg).exec (counted defaultCfg).init
      (oneAttempt.take 9 ++ notMade ++ .retry "job-a" :: List.replicate 10 (.worker .go) ++
        begins 0 ++ finishes)).map tally = some ([(.completed, 0)], 0) := by
    decide
  obtain ⟨p, hp, htally⟩ := Option.map_eq_some_iff.mp h
  have hreach : (counted defaultCfg).Reach (fun p a => Counted p.1 a) p :=
    Machine.steps_of_exec hp (by decide)
  exact ⟨p, hreach, htally, retriesBounded hreach⟩

/-- **Paused and resumed while its attempt was running**, the job has a second entry: FAILED as it
    is, it is served again, four times in all, and none of its failures is counted. -/
theorem retriesBounded_resumedInFlight : ∃ p, (counted defaultCfg).Reach
      (fun p a => ChunksAsCut p.1 a) p ∧
    tally p = ([(.failed, 0)], 4) ∧ ¬ RetriesBounded p.1 p.2 := by
  have h : ((counted defaultCfg).exec (counted defaultCfg).init
      (.enqueue "job-a" "/a.mp4" "https://up/" "" "" :: resumedNotMade ++ resumedNotMade ++
        resumedNotMade ++ resumedNotMade)).map tally = some ([(.failed, 0)], 4) := by
    decide
  obtain ⟨p, hp, htally⟩ := Option.map_eq_some_iff.mp h
  refine ⟨p, Machine.steps_of_exec hp (by decide), htally, fun hb => ?_⟩
  obtain ⟨hjobs, hfailures⟩ := Prod.mk.inj htally
  have hlen : p.1.jobs.elems.length = 1 := by
    rw [← List.length_map, hjobs]
    rfl
  have hle := hb.attempts 0 (by omega)
  rw [hfailures] at hle
  exact absurd hle (by decide)

end Viral.Upload
