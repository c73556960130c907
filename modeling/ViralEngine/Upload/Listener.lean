/-
  File:      ViralEngine/Upload/Listener.lean
  Subject:   WHAT THE STATUS LISTENER LAST HEARD OF A JOB, and when it is the job's status.

  Every status is stored under `m_mutex`, and `m_statusCb` is called in the same critical section,
  but for one: `processJob` stores UPLOADING under the mutex and reports it behind it. A client
  call in between is reported first and overtaken.

  * `lastNote` -- the status `m_statusCb` was last given for an id;
  * `Tells`, `step_tells` -- what one step does to the records and to the log, side by side;
  * `ReportsInOrder` -- UPLOADING is reported while it is still the status, and the end of an
    attempt is stored where the getters look;
  * `Synced`, `tells_synced` -- every job's last note is its status, but for the one report the
    worker still owes;
  * `listenerConverges` -- so with no `processJob` running the listener is up to date;
    `listenerConverges_overtaken` -- a job cancelled in front of the report stays UPLOADING for
    the listener.
-/
import ViralEngine.Upload.Queue

namespace Viral.Upload

open Viral.Lib

/-! ## 1. The log by job -/

/-- The status `m_statusCb` was last given for `jobId`. -/
def lastNote (log : List StatusNote) (jobId : String) : Option UploadStatus :=
  (log.reverse.find? fun n => n.jobId == jobId).map (·.status)

theorem lastNote_append (log : List StatusNote) (n : StatusNote) (jobId : String) :
    lastNote (log ++ [n]) jobId =
      if n.jobId = jobId then some n.status else lastNote log jobId := by
  unfold lastNote
  rw [List.reverse_append, List.reverse_singleton, List.singleton_append, List.find?_cons]
  by_cases h : n.jobId = jobId
  · simp [h]
  · rw [if_neg h, beq_false_of_ne h]

/-- No `processJob` is running. A client call is one step, so none is ever half done. -/
def Resting (s : State) : Prop :=
  s.worker.hold.started = none ∧ ∀ jobId r, s.worker ≠ .start jobId r

/-! ## 2. Stores and reports -/

/-- A change of a record that keeps its id and its status changes no row. -/
theorem rowOf_assign_kept {f : UploadJob → UploadJob}
    (hf : ∀ job, (f job).id = job.id ∧ (f job).status = job.status) (v : RefVector UploadJob)
    (r : Ref) (k : Nat) : rowOf (v.assign r f) k = rowOf v k := by
  unfold rowOf
  rw [RefVector.elems_assign]
  split
  · rw [List.getElem?_modify]
    cases v.elems[k]? with
    | none => rfl
    | some job =>
      by_cases hk : r.idx = k
      · simp [hk, hf job]
      · simp [hk]
  · rfl

/-- The report of UPLOADING is still ahead. -/
def Owes (s : State) (r : Ref) : Prop := s.worker = .notify r

/-- The worker is about to store the end of an attempt in the record `job`, read through `r`. -/
def Ends (s : State) (r : Ref) (job : UploadJob) : Prop :=
  (∃ success, s.worker = .result r success ∧ job.status ≠ .cancelled ∧ job.status ≠ .paused) ∨
    ∃ what, s.worker = .caught r what

/-- **What one step does to the records and to the log.** -/
inductive Tells (cfg : Cfg) (s : State) (a : Act) (t : State) : Prop where
  | quiet (hrows : ∀ k, rowOf t.jobs k = rowOf s.jobs k)
      (hlog : t.statusLog = s.statusLog ∨
        t.statusLog = s.statusLog ++ [⟨"", .failed, "Upload queue is full"⟩])
      (hw : ∀ r, Owes s r → Owes t r)
  | added (jobId f u n d : String) (ha : a = .enqueue jobId f u n d)
      (hjobs : t.jobs = s.jobs.pushBack cfg.grow (newJob jobId f u n d))
      (hlog : t.statusLog = s.statusLog ++ [⟨jobId, .queued, ""⟩]) (hw : t.worker = s.worker)
  | wrote (i : Nat) (jobId message : String) (st st' : UploadStatus)
      (hrow : RowChange s.jobs t.jobs i jobId st st')
      (hlog : t.statusLog = s.statusLog ++ [⟨jobId, st', message⟩])
      (hw : ∀ r, Owes s r → Owes t r)
  | started (e : TusEvent) (jobId : String) (r : Ref) (ha : a = .worker e)
      (hs : s.worker = .start jobId r) (ht : Owes t r)
      (hjobs : t.jobs = s.jobs.assign r fun j => { j with status := .uploading })
      (hlog : t.statusLog = s.statusLog)
  | reported (e : TusEvent) (r : Ref) (job : UploadJob) (ha : a = .worker e) (hs : Owes s r)
      (hr : s.jobs.deref r = some job) (hjobs : t.jobs = s.jobs)
      (hlog : t.statusLog = s.statusLog ++ [⟨job.id, .uploading, ""⟩])
  | stray (e : TusEvent) (r : Ref) (job : UploadJob) (ha : a = .worker e) (hs : Ends s r job)
      (hr : s.jobs.deref r = some job) (hstale : ¬ s.jobs.Current r)
      (hlog : ∃ n, t.statusLog = s.statusLog ++ [n])

section Inversion

variable {cfg : Cfg} {s t : State}

theorem tells_enqueue (jobId f u n d : String) :
    Tells cfg s (.enqueue jobId f u n d) (enqueue cfg s jobId f u n d).1 := by
  unfold enqueue
  split
  · exact .quiet (fun _ => rfl) (Or.inr rfl) (fun _ h => h)
  · exact .added jobId f u n d rfl rfl rfl rfl

/-- The four client calls of one scheme: nothing found, or one row stored and reported. -/
theorem tells_updateFirst {a : Act} (jobId : String) (guard : UploadJob → Bool)
    (change : UploadJob → UploadJob) (push : Bool) (status : UploadStatus) (message : String)
    (hchange : ∀ job, (change job).id = job.id ∧ (change job).status = status) :
    Tells cfg s a (updateFirst s jobId guard change push status message) := by
  unfold updateFirst
  cases hf : s.jobs.elems.findIdx? (fun job => job.id == jobId && guard job) with
  | none => exact .quiet (fun _ => rfl) (Or.inl rfl) (fun _ h => h)
  | some i =>
    obtain ⟨job, hi, rfl, _⟩ := findIdx?_job hf
    have hrow := RowChange.ofModify hi (hchange job).1
    rw [(hchange job).2] at hrow
    exact .wrote i job.id message job.status status hrow rfl (fun _ h => h)

/-- A store of the worker through its reference, with the report in the same section. -/
theorem tells_assign {e : TusEvent} {r : Ref} {job : UploadJob} {f : UploadJob → UploadJob}
    {st' : UploadStatus} {message : String}
    (hs : Ends s r job) (hr : s.jobs.deref r = some job)
    (hf : (f job).id = job.id ∧ (f job).status = st')
    (hjobs : t.jobs = s.jobs.assign r f)
    (hlog : t.statusLog = s.statusLog ++ [⟨job.id, st', message⟩]) :
    Tells cfg s (.worker e) t := by
  by_cases hcur : s.jobs.Current r
  · have hrow := RowChange.ofAssign hcur hr hf.1
    rw [hf.2, ← hjobs] at hrow
    refine .wrote r.idx job.id message job.status st' hrow hlog fun q hq => ?_
    rcases hs with ⟨_, h, _⟩ | ⟨_, h⟩ <;> exact absurd (hq.symm.trans h) nofun
  · exact .stray e r job rfl hs hr hcur ⟨_, hlog⟩

theorem tells_handleResult {e : TusEvent} {r : Ref} {job : UploadJob} {success : Bool}
    (hw : s.worker = .result r success) (hr : s.jobs.deref r = some job) :
    Tells cfg s (.worker e) (handleResult s r job success) := by
  have hkeep : Tells cfg s (.worker e) { s with worker := .head, poller := .none } :=
    .quiet (fun _ => rfl) (Or.inl rfl) fun q hq => absurd (hq.symm.trans hw) nofun
  unfold handleResult
  by_cases hc : job.status = .cancelled
  · rw [if_pos hc]
    exact hkeep
  rw [if_neg hc]
  by_cases hp : job.status = .paused
  · rw [if_pos hp]
    exact hkeep
  rw [if_neg hp]
  have hs : Ends s r job := Or.inl ⟨success, hw, hc, hp⟩
  split
  · exact tells_assign hs hr ⟨rfl, rfl⟩ rfl rfl
  · split <;> exact tells_assign hs hr ⟨rfl, rfl⟩ rfl rfl

/-- A step of the worker that touches neither the records nor the log. -/
theorem tells_move {e : TusEvent} (hw : ∀ r, s.worker ≠ .notify r) (hjobs : t.jobs = s.jobs)
    (hlog : t.statusLog = s.statusLog) : Tells cfg s (.worker e) t := by
  refine .quiet (fun k => ?_) (Or.inl hlog) (fun r hr => absurd hr (hw r))
  rw [hjobs]

theorem tells_worker {e : TusEvent} (h : workerStep cfg s e = some t) :
    Tells cfg s (.worker e) t := by
  cases workerStep_move h with
  | head hw | testPaused hw | testEmpty hw | popNone hw | pop _ _ hw | lose _ hw | find _ _ hw
  | skip _ _ _ hw | clear _ _ _ hw | noClient _ _ hw | construct _ hw | noThread _ _ hw | spawn _ hw
  | upload _ _ _ _ hw | uploaded _ _ _ _ hw | terminate _ _ _ _ hw | unwind _ _ _ _ hw
  | returned _ _ hw | join _ _ hw => exact tells_move (by simp [hw]) rfl rfl
  | start jobId r hw => exact .started e jobId r rfl hw rfl rfl rfl
  | notify r job hw hr => exact .reported e r job rfl hw hr rfl rfl
  | result r success job hw _ hr => exact tells_handleResult hw hr
  | caught r what job hw _ hr => exact tells_assign (Or.inr ⟨what, hw⟩) hr ⟨rfl, rfl⟩ rfl rfl

theorem tells_poller (h : pollerStep s = some t) : Tells cfg s .poller t := by
  cases pollerStep_move h with
  | loop | read | report | seesCancel | seesPause | seesNothing | cancel | pauseTest | pauseStore
  | setDone => exact .quiet (fun _ => rfl) (Or.inl rfl) (fun _ h => h)
  | store r p =>
    refine .quiet (fun k => ?_) (Or.inl rfl) (fun _ h => h)
    exact rowOf_assign_kept (f := fun j => { j with progress := p }) (fun _ => ⟨rfl, rfl⟩) _ r k

/-- **Every step stores and reports in one of the listed ways.** -/
theorem step_tells {a : Act} (h : step cfg s a = some t) : Tells cfg s a t := by
  have hquiet : ∀ {u : State}, u.jobs = s.jobs → u.statusLog = s.statusLog →
      u.worker = s.worker → Tells cfg s a u := by
    intro u hj hl hw
    exact .quiet (fun k => by rw [hj]) (Or.inl hl) fun r hr => hw.trans hr
  unfold step at h
  split at h
  · cases h
  cases a with
  | enqueue jobId f u n d =>
    rw [locked_some h]
    exact tells_enqueue jobId f u n d
  | pause jobId | resume jobId | cancel jobId | retry jobId =>
    rw [locked_some h]
    exact tells_updateFirst _ _ _ _ _ _ fun _ => ⟨rfl, rfl⟩
  | setAuthToken token =>
    rw [locked_some h]
    exact hquiet rfl rfl rfl
  | pauseAll | resumeAll | destroy =>
    cases h
    exact hquiet rfl rfl rfl
  | worker e => exact tells_worker h
  | poller => exact tells_poller h

/-- Nothing is taken out of the log. -/
theorem step_statusLog {a : Act} (h : step cfg s a = some t) : s.statusLog <+: t.statusLog := by
  have hone : ∀ {n : StatusNote}, t.statusLog = s.statusLog ++ [n] → s.statusLog <+: t.statusLog :=
    fun e => e ▸ List.prefix_append _ _
  cases step_tells h with
  | quiet _ hlog _ => exact hlog.elim (fun e => e ▸ List.prefix_rfl) hone
  | added _ _ _ _ _ _ _ hlog _ | wrote _ _ _ _ _ _ hlog _ | reported _ _ _ _ _ _ _ hlog =>
    exact hone hlog
  | started _ _ _ _ _ _ _ hlog => exact hlog ▸ List.prefix_rfl
  | stray _ _ _ _ _ _ _ hlog => exact hone hlog.choose_spec

end Inversion

/-! ## 3. The listener is up to date, but for one report -/

/-- What the worker's next step must find: the report of UPLOADING comes while `getStatus` says
    UPLOADING, and the end of an attempt is stored in the records the getters read (or finds
    CANCELLED or PAUSED and stores nothing). -/
def WorkerInOrder (s : State) : WorkerPc → Prop
  | .notify r => ∀ job ∈ s.jobs.deref r, getStatus s job.id = .uploading
  | .result r _ =>
    s.jobs.Current r ∨ ∀ job ∈ s.jobs.deref r, job.status = .cancelled ∨ job.status = .paused
  | .caught r _ => s.jobs.Current r
  | _ => True

instance (s : State) : ∀ w : WorkerPc, Decidable (WorkerInOrder s w)
  | .notify r => inferInstanceAs (Decidable (∀ job ∈ s.jobs.deref r, _))
  | .result r _ => inferInstanceAs (Decidable (_ ∨ ∀ job ∈ s.jobs.deref r, _))
  | .caught .. => inferInstanceAs (Decidable (_ = _))
  | .head | .testPaused | .testEmpty | .pop | .find _ | .check .. | .start .. | .construct _
  | .spawn _ | .upload .. | .returned .. | .join .. | .finished | .terminated =>
    inferInstanceAs (Decidable True)

/-- The steps behind which listener and records stay together; `generateJobId` draws an id of
    its own, never the empty one of the queue-full report. -/
def ReportsInOrder (s : State) : Act → Prop
  | .enqueue jobId .. => jobId ≠ "" ∧ ∀ job ∈ s.jobs.elems, job.id ≠ jobId
  | .worker _ => WorkerInOrder s s.worker
  | _ => True

instance (s : State) : ∀ a : Act, Decidable (ReportsInOrder s a)
  | .enqueue .. => inferInstanceAs (Decidable (_ ∧ ∀ job ∈ s.jobs.elems, _))
  | .worker _ => inferInstanceAs (Decidable (WorkerInOrder s s.worker))
  | .pause _ | .resume _ | .cancel _ | .retry _ | .pauseAll | .resumeAll | .setAuthToken _
  | .destroy | .poller => inferInstanceAs (Decidable True)

/-- Every job's last note is its status, but for the report the worker still owes. -/
structure Synced (s : State) : Prop where
  distinct : Distinct s.jobs
  named : ∀ i jobId st, rowOf s.jobs i = some (jobId, st) → jobId ≠ ""
  told : ∀ i jobId st, rowOf s.jobs i = some (jobId, st) → lastNote s.statusLog jobId = some st ∨
    st = .uploading ∧ ∃ r, Owes s r ∧ ReadsId s.jobs r jobId

/-- The getters answer from the row of the id. -/
theorem getStatus_of_row {s : State} (hd : Distinct s.jobs) {i : Nat} {jobId : String}
    {st : UploadStatus} (hi : rowOf s.jobs i = some (jobId, st)) : getStatus s jobId = st := by
  obtain ⟨job, hjob, e⟩ := Option.map_eq_some_iff.mp hi
  obtain ⟨rfl, rfl⟩ := Prod.mk.inj e
  unfold getStatus
  cases hf : s.jobs.elems.find? (fun j => j.id == job.id) with
  | none =>
    have := List.find?_eq_none.mp hf job (List.mem_of_getElem? hjob)
    simp at this
  | some job' =>
    obtain ⟨hid, k, hk, hget, _⟩ := List.find?_eq_some_iff_getElem.mp hf
    have hrow : rowOf s.jobs k = some (job.id, job'.status) := by
      rw [← beq_iff_eq.mp hid]
      exact rowOf_of_get (List.getElem?_eq_some_iff.mpr ⟨hk, hget⟩)
    have e := hd i k job.id _ _ hi hrow
    subst e
    rw [hi] at hrow
    exact (Prod.mk.inj (Option.some.inj hrow)).2.symm

section Synced

variable {s t : State}

/-- The report owed is still owed, for the same job. -/
def OwesOn (s t : State) : Prop :=
  ∀ r jobId, Owes s r → ReadsId s.jobs r jobId → Owes t r ∧ ReadsId t.jobs r jobId

theorem Synced.kept (hS : Synced s) (hrows : ∀ k, rowOf t.jobs k = rowOf s.jobs k)
    (hlog : t.statusLog = s.statusLog ∨
      t.statusLog = s.statusLog ++ [⟨"", .failed, "Upload queue is full"⟩])
    (ho : OwesOn s t) : Synced t := by
  have hlast : ∀ x, x ≠ "" → lastNote t.statusLog x = lastNote s.statusLog x := by
    intro x hx
    rcases hlog with e | e
    · rw [e]
    · rw [e, lastNote_append, if_neg fun e => hx e.symm]
  refine ⟨fun i k x st st' hi hk => ?_, fun i x st hi => ?_, fun i x st hi => ?_⟩
  · rw [hrows] at hi hk
    exact hS.distinct i k x st st' hi hk
  · rw [hrows] at hi
    exact hS.named i x st hi
  · rw [hrows] at hi
    rw [hlast x (hS.named i x st hi)]
    refine (hS.told i x st hi).imp id fun ⟨hst, r, hr, hid⟩ => ⟨hst, r, ?_⟩
    exact ho r x hr hid

/-- A status stored and reported in one section. -/
theorem Synced.wrote (hS : Synced s) {i : Nat} {jobId message : String} {st st' : UploadStatus}
    (hrow : RowChange s.jobs t.jobs i jobId st st')
    (hlog : t.statusLog = s.statusLog ++ [⟨jobId, st', message⟩]) (ho : OwesOn s t) :
    Synced t := by
  refine ⟨hrow.distinct hS.distinct, fun k x sx hk => ?_, fun k x sx hk => ?_⟩
  · obtain ⟨s0, hk'⟩ := hrow.id_old hk
    exact hS.named k x s0 hk'
  rw [hlog, lastNote_append]
  by_cases hx : jobId = x
  · subst hx
    have e := (hrow.distinct hS.distinct) k i jobId _ _ hk hrow.new_self
    subst e
    rw [hrow.new_self] at hk
    cases hk
    exact Or.inl (if_pos rfl)
  · rw [if_neg hx]
    rw [hrow.new] at hk
    split at hk
    · cases hk
      exact absurd rfl hx
    · refine (hS.told k x sx hk).imp id fun ⟨hst, r, hr, hid⟩ => ⟨hst, r, ?_⟩
      exact ho r x hr hid

/-- A new row with the report that goes with it. -/
theorem Synced.added (hS : Synced s) (grow : Nat → Nat) (job : UploadJob) {message : String}
    (hne : job.id ≠ "") (hfresh : ∀ j ∈ s.jobs.elems, j.id ≠ job.id)
    (hjobs : t.jobs = s.jobs.pushBack grow job)
    (hlog : t.statusLog = s.statusLog ++ [⟨job.id, job.status, message⟩]) (ho : OwesOn s t) :
    Synced t := by
  refine ⟨?_, fun k x sx hk => ?_, fun k x sx hk => ?_⟩
  · rw [hjobs]
    exact distinct_pushBack hS.distinct grow hfresh
  · rw [hjobs, rowOf_pushBack] at hk
    split at hk
    · cases hk
      exact hne
    · exact hS.named k x sx hk
  · rw [hlog, lastNote_append]
    rw [hjobs, rowOf_pushBack] at hk
    split at hk
    · cases hk
      exact Or.inl (if_pos rfl)
    · have hx : job.id ≠ x := by
        intro e
        subst e
        exact rowOf_ne_fresh hfresh k sx hk
      rw [if_neg hx]
      refine (hS.told k x sx hk).imp id fun ⟨hst, r, hr, hid⟩ => ⟨hst, r, ?_⟩
      exact ho r x hr hid

/-- UPLOADING stored, with the report ahead. Through a reference left behind nothing changes. -/
theorem Synced.started (hS : Synced s) {r : Ref} {job : UploadJob}
    (hs : ∀ q, ¬ Owes s q) (hr : s.jobs.deref r = some job) (ht : Owes t r)
    (hjobs : t.jobs = s.jobs.assign r fun j => { j with status := .uploading })
    (hlog : t.statusLog = s.statusLog) : Synced t := by
  by_cases hcur : s.jobs.Current r
  · have hrow := RowChange.ofAssign (f := fun j => { j with status := .uploading }) hcur hr rfl
    rw [← hjobs] at hrow
    refine ⟨hrow.distinct hS.distinct, fun k x sx hk => ?_, fun k x sx hk => ?_⟩
    · obtain ⟨s0, hk'⟩ := hrow.id_old hk
      exact hS.named k x s0 hk'
    · rw [hrow.new] at hk
      split at hk
      · cases hk
        refine Or.inr ⟨rfl, r, ht, ?_⟩
        rw [hjobs]
        exact readsId_assign (f := fun j => { j with status := .uploading }) (fun _ => rfl)
          ⟨job, hr, rfl⟩
      · rw [hlog]
        exact Or.inl ((hS.told k x sx hk).resolve_right fun ⟨_, q, hq, _⟩ => hs q hq)
  · refine hS.kept (fun k => ?_) (Or.inl hlog) fun q _ hq => absurd hq (hs q)
    rw [hjobs]
    exact rowOf_assign_stale _ hcur k

/-- The report of UPLOADING, while it is the status. -/
theorem Synced.reported (hS : Synced s) {r : Ref} {job : UploadJob} (hs : Owes s r)
    (hr : s.jobs.deref r = some job) (hup : getStatus s job.id = .uploading)
    (hjobs : t.jobs = s.jobs) (hlog : t.statusLog = s.statusLog ++ [⟨job.id, .uploading, ""⟩]) :
    Synced t := by
  refine ⟨hjobs ▸ hS.distinct, hjobs ▸ hS.named, fun k x sx hk => Or.inl ?_⟩
  rw [hjobs] at hk
  rw [hlog, lastNote_append]
  by_cases hx : job.id = x
  · subst hx
    rw [getStatus_of_row hS.distinct hk] at hup
    rw [if_pos rfl, hup]
  · rw [if_neg hx]
    refine (hS.told k x sx hk).resolve_right fun ⟨_, q, hq, job', hq', hid⟩ => hx ?_
    have e : q = r := by
      have := hq.symm.trans hs
      cases this
      rfl
    subst e
    rw [hr] at hq'
    cases hq'
    exact hid

end Synced

/-- **One step in order keeps listener and records together.** -/
theorem tells_synced {cfg : Cfg} {s t : State} {a : Act} (h : Tells cfg s a t)
    (hc : ReportsInOrder s a) (hO : HoldOk s.ledger)
    (hread : ∀ r jobId, Owes s r → ReadsId s.jobs r jobId → ReadsId t.jobs r jobId)
    (hS : Synced s) : Synced t := by
  have ho : (∀ r, Owes s r → Owes t r) → OwesOn s t :=
    fun hw r jobId hr hid => ⟨hw r hr, hread r jobId hr hid⟩
  cases h with
  | quiet hrows hlog hw => exact hS.kept hrows hlog (ho hw)
  | added jobId f u n d ha hjobs hlog hw =>
    subst ha
    exact hS.added cfg.grow (newJob jobId f u n d) hc.1 hc.2 hjobs hlog
      (ho fun r hr => hw.trans hr)
  | wrote i jobId message st st' hrow hlog hw => exact hS.wrote hrow hlog (ho hw)
  | started e jobId r _ hs ht hjobs hlog =>
    obtain ⟨_, ⟨job, hjob, _⟩, _⟩ := hO r (by rw [ledger_hold, hs]; rfl)
    exact hS.started (fun q hq => absurd (hq.symm.trans hs) nofun) hjob ht hjobs hlog
  | reported e r job ha hs hr hjobs hlog =>
    subst ha
    have hup : WorkerInOrder s (.notify r) := hs ▸ hc
    exact hS.reported hs hr (hup job hr) hjobs hlog
  | stray e r job ha hs hr hstale _ =>
    subst ha
    -- excluded: the store of an attempt's end goes to the records in use
    rcases hs with ⟨success, hw, hnc, hnp⟩ | ⟨what, hw⟩
    · have hin : WorkerInOrder s (.result r success) := hw ▸ hc
      rcases hin with hcur | hst
      · exact absurd hcur hstale
      · rcases hst job hr with e | e
        · exact absurd e hnc
        · exact absurd e hnp
    · have hin : WorkerInOrder s (.caught r what) := hw ▸ hc
      exact absurd hin hstale

theorem reach_synced {cfg : Cfg} {s : State} (h : (engine cfg).Reach ReportsInOrder s) :
    Synced s ∧ HoldOk s.ledger := by
  refine Machine.Steps.invariant (I := fun s => Synced s ∧ HoldOk s.ledger) h ?_ ?_
  · exact ⟨⟨nofun, nofun, nofun⟩, nofun⟩
  · intro u a v ⟨hS, hO⟩ hc hs
    refine ⟨tells_synced (step_tells hs) hc hO (fun r jobId hr hid => ?_) hS,
      effect_holdOk (step_effect hs) hO⟩
    exact effect_readsId (step_effect hs) (by rw [ledger_hold, hr]; rfl) hid

/-- **The listener's view converges**: in every run in which UPLOADING is reported while it is
    still the status and no attempt ends on a record left behind, whenever no engine call and no
    `processJob` is running the last note delivered for each job carries the job's status. -/
theorem listenerConverges {cfg : Cfg} {s : State} (h : (engine cfg).Reach ReportsInOrder s)
    (hrest : Resting s) : ∀ job ∈ s.jobs.elems, lastNote s.statusLog job.id = some job.status := by
  intro job hjob
  obtain ⟨i, hi⟩ := List.getElem?_of_mem hjob
  refine ((reach_synced h).1.told i job.id job.status (rowOf_of_get hi)).resolve_right ?_
  rintro ⟨_, r, hr, _⟩
  have := hrest.1
  rw [show s.worker = .notify r from hr] at this
  cases this

theorem listenerConverges_oneJob : ∃ s, (engine defaultCfg).Reach ReportsInOrder s ∧
    getStatus s "job-a" = .completed ∧ lastNote s.statusLog "job-a" = some .completed := by
  have h : ((engine defaultCfg).exec State.init (oneAttempt ++ begins 0 ++ finishes)).map (fun s =>
      (s.worker, s.jobs.elems.map (fun j => (j.id, j.status)))) =
      some (.head, [("job-a", .completed)]) := by
    decide
  obtain ⟨s, hs, hobs⟩ := Option.map_eq_some_iff.mp h
  obtain ⟨hw, hjobs⟩ := Prod.mk.inj hobs
  have hreach : (engine defaultCfg).Reach ReportsInOrder s :=
    Machine.steps_of_exec hs (by decide)
  have hrest : Resting s := by
    refine ⟨by rw [hw]; rfl, fun _ _ => by rw [hw]; nofun⟩
  have hmem : ("job-a", UploadStatus.completed) ∈ s.jobs.elems.map fun j => (j.id, j.status) := by
    rw [hjobs]
    exact List.mem_singleton_self _
  obtain ⟨job, hjob, hrow⟩ := List.mem_map.mp hmem
  obtain ⟨hid, hst⟩ := Prod.mk.inj hrow
  obtain ⟨i, hi⟩ := List.getElem?_of_mem hjob
  have hget := getStatus_of_row (reach_synced hreach).1.distinct (rowOf_of_get hi)
  have hnote := listenerConverges hreach hrest job hjob
  rw [hid, hst] at hget hnote
  exact ⟨s, hreach, hget, hnote⟩

/-- **A job cancelled between the store of UPLOADING and its report**: the listener hears
    QUEUED, CANCELLED, UPLOADING, and nothing behind it; the job is CANCELLED, and its empty file
    FINISHED. -/
theorem listenerConverges_overtaken : ∃ s, (engine defaultCfg).Reach ChunksAsCut s ∧
    Resting s ∧ s.jobs.elems.map (fun j => (j.id, j.status)) = [("job-a", .cancelled)] ∧
    lastNote s.statusLog "job-a" = some .uploading := by
  have h : ((engine defaultCfg).exec State.init (oneJobFound ++ [.worker .go, .cancel "job-a",
      .worker .go, .worker .go, .worker .go] ++ begins 0 ++ finishes)).map (fun s =>
      (s.worker, s.jobs.elems.map (fun j => (j.id, j.status)), lastNote s.statusLog "job-a")) =
      some (.head, [("job-a", .cancelled)], some .uploading) := by
    decide
  obtain ⟨s, hs, hobs⟩ := Option.map_eq_some_iff.mp h
  simp only [Prod.mk.injEq] at hobs
  obtain ⟨hw, hjobs, hnote⟩ := hobs
  refine ⟨s, Machine.steps_of_exec hs (by decide), ⟨?_, fun _ _ => ?_⟩, hjobs, hnote⟩
  · rw [hw]
    rfl
  · rw [hw]
    nofun

end Viral.Upload
