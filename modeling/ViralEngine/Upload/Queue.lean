/-
  File:      ViralEngine/Upload/Queue.lean
  Subject:   QUEUE AND JOB RECORDS AGREE: no QUEUED job is forgotten, at most one is UPLOADING,
             and the queue holds waiting jobs only.

  * `RowChange` -- one record changes its status; `Distinct` -- no two records have one id;
  * `Served`, `effect_served` -- a QUEUED job is in the queue or in the worker's hand, an
    UPLOADING job is the one `processJob` runs on;
  * `noJobForgotten` -- so in every reachable state, for distinct ids and references that stay
    valid;
  * `QueueOk`, `effect_queueOk` -- the queue has no repetition, its jobs are QUEUED or
    CANCELLED, and the job in the worker's hand is not in it;
  * `queueDiscipline` -- so in every run in which no paused job is resumed while its attempt is
    still inside `processJob`; `queueDiscipline_resumedInFlight` -- without that a COMPLETED job
    has an entry, and a job gets two.
-/
import ViralEngine.Upload.References
import Mathlib.Data.List.Nodup

namespace Viral.Upload

open Viral.Lib

/-! ## 1. Changes of one row -/

/-- No two rows have one id. -/
def Distinct (v : RefVector UploadJob) : Prop :=
  ∀ i k jobId st st', rowOf v i = some (jobId, st) → rowOf v k = some (jobId, st') → i = k

/-- `v'` is `v` with the status at index `i` changed. -/
structure RowChange (v v' : RefVector UploadJob) (i : Nat) (jobId : String)
    (st st' : UploadStatus) : Prop where
  old : rowOf v i = some (jobId, st)
  new : ∀ k, rowOf v' k = if k = i then some (jobId, st') else rowOf v k

section RowChange

variable {v v' : RefVector UploadJob} {i : Nat} {jobId : String} {st st' : UploadStatus}

theorem RowChange.ofModify {job : UploadJob} {f : UploadJob → UploadJob}
    (hi : v.elems[i]? = some job) (hf : (f job).id = job.id) :
    RowChange v (v.modifyAt i f) i job.id job.status (f job).status :=
  ⟨rowOf_of_get hi, fun k => hf ▸ rowOf_modifyAt f hi k⟩

theorem RowChange.ofAssign {r : Ref} {job : UploadJob} {f : UploadJob → UploadJob}
    (hcur : v.Current r) (hr : v.deref r = some job) (hf : (f job).id = job.id) :
    RowChange v (v.assign r f) r.idx job.id job.status (f job).status := by
  refine ⟨?_, fun k => hf ▸ rowOf_assign f hcur hr k⟩
  rw [RefVector.deref_of_current hcur] at hr
  exact rowOf_of_get hr

theorem RowChange.new_self (h : RowChange v v' i jobId st st') :
    rowOf v' i = some (jobId, st') := by
  rw [h.new, if_pos rfl]

/-- The new rows have the old ids. -/
theorem RowChange.id_old (h : RowChange v v' i jobId st st') {k : Nat} {x : String}
    {s : UploadStatus} (hk : rowOf v' k = some (x, s)) : ∃ s0, rowOf v k = some (x, s0) := by
  rw [h.new] at hk
  split at hk
  · rename_i e
    subst e
    cases hk
    exact ⟨st, h.old⟩
  · exact ⟨s, hk⟩

theorem RowChange.id_new (h : RowChange v v' i jobId st st') {k : Nat} {x : String}
    {s : UploadStatus} (hk : rowOf v k = some (x, s)) : ∃ s0, rowOf v' k = some (x, s0) := by
  rw [h.new]
  split
  · rename_i e
    subst e
    rw [h.old] at hk
    cases hk
    exact ⟨st', rfl⟩
  · exact ⟨s, hk⟩

theorem RowChange.distinct (h : RowChange v v' i jobId st st') (hd : Distinct v) :
    Distinct v' := by
  intro a b x s s' ha hb
  obtain ⟨s0, ha'⟩ := h.id_old ha
  obtain ⟨s1, hb'⟩ := h.id_old hb
  exact hd a b x s0 s1 ha' hb'

end RowChange

/-- A fresh id is on no row. -/
theorem rowOf_ne_fresh {v : RefVector UploadJob} {jobId : String}
    (hfresh : ∀ j ∈ v.elems, j.id ≠ jobId) (k : Nat) (st : UploadStatus) :
    rowOf v k ≠ some (jobId, st) := by
  intro hk
  obtain ⟨j, hj, e⟩ := Option.map_eq_some_iff.mp hk
  exact hfresh j (List.mem_of_getElem? hj) (congrArg Prod.fst e)

theorem distinct_pushBack {v : RefVector UploadJob} (hd : Distinct v) (grow : Nat → Nat)
    {job : UploadJob} (hfresh : ∀ j ∈ v.elems, j.id ≠ job.id) :
    Distinct (v.pushBack grow job) := by
  intro a b x s s' ha hb
  rw [rowOf_pushBack] at ha hb
  split at ha <;> split at hb
  · rename_i ea eb
    exact ea.trans eb.symm
  · cases ha
    exact absurd hb (rowOf_ne_fresh hfresh b s')
  · cases hb
    exact absurd ha (rowOf_ne_fresh hfresh a s)
  · exact hd a b x s s' ha hb

/-- The held reference is current and reads the row of the popped id. -/
theorem held_row {L : Ledger} (hF : RefFresh L) (hO : HoldOk L) {r : Ref}
    (hr : L.hold.job = some r) :
    L.jobs.Current r ∧ ∃ job, L.jobs.deref r = some job ∧
      rowOf L.jobs r.idx = some (job.id, job.status) ∧
      ∀ popped, L.hold.pending = some popped → popped = job.id := by
  obtain ⟨hcur, _⟩ := hF r hr
  obtain ⟨jobId, ⟨job, hjob, hid⟩, hpop⟩ := hO r hr
  refine ⟨hcur, job, hjob, ?_, fun popped hp => (hpop popped hp).trans hid.symm⟩
  rw [RefVector.deref_of_current hcur] at hjob
  exact rowOf_of_get hjob

/-! ## 2. No job is forgotten, at most one is in flight -/

/-- `enqueue` draws an id no job has. -/
def FreshId (s : State) : Act → Prop
  | .enqueue jobId .. => ∀ job ∈ s.jobs.elems, job.id ≠ jobId
  | _ => True

instance (s : State) : ∀ a : Act, Decidable (FreshId s a)
  | .enqueue .. => inferInstanceAs (Decidable (∀ job ∈ s.jobs.elems, _))
  | .pause _ | .resume _ | .cancel _ | .retry _ | .pauseAll | .resumeAll | .setAuthToken _
  | .destroy | .worker _ | .poller => inferInstanceAs (Decidable True)

/-- Ids are distinct; a QUEUED job is in the queue or popped; an UPLOADING job is the one
    `processJob` runs on. -/
structure Served (L : Ledger) : Prop where
  distinct : Distinct L.jobs
  queued : ∀ i jobId, rowOf L.jobs i = some (jobId, .queued) →
    jobId ∈ L.queue ∨ L.hold.pending = some jobId
  uploading : ∀ i jobId, rowOf L.jobs i = some (jobId, .uploading) →
    ∃ r, L.hold = .running r ∧ r.idx = i


/-- What a change of one row must bring along to keep `Served`: a row that becomes QUEUED its
    entry, a row that becomes UPLOADING its `processJob`. -/
theorem Served.change {L L' : Ledger} (hS : Served L) {i : Nat} {jobId : String}
    {st st' : UploadStatus} (hc : RowChange L.jobs L'.jobs i jobId st st')
    (hqueue : ∀ x ∈ L.queue, x ∈ L'.queue)
    (hpend : ∀ x, x ≠ jobId → L.hold.pending = some x → L'.hold.pending = some x)
    (hrun : ∀ r, r.idx ≠ i → L.hold = .running r → L'.hold = .running r)
    (hq : st' = .queued → jobId ∈ L'.queue ∨ L'.hold.pending = some jobId)
    (hu : st' = .uploading → ∃ r, L'.hold = .running r ∧ r.idx = i) : Served L' := by
  refine ⟨hc.distinct hS.distinct, fun k x hk => ?_, fun k x hk => ?_⟩
  · rw [hc.new] at hk
    split at hk
    · cases hk
      exact hq rfl
    · rename_i hne
      rcases hS.queued k x hk with hmem | hp
      · exact Or.inl (hqueue x hmem)
      · have hx : x ≠ jobId := by
          intro e
          subst e
          exact hne (hS.distinct k i x .queued st hk hc.old)
        exact Or.inr (hpend x hx hp)
  · rw [hc.new] at hk
    split at hk
    · rename_i e
      subst e
      cases hk
      exact hu rfl
    · rename_i hne
      obtain ⟨r, hr, e⟩ := hS.uploading k x hk
      exact ⟨r, hrun r (fun e' => hne (e.symm.trans e')) hr, e⟩

/-- What a change of the queue and the hold alone must keep. -/
theorem Served.move {L : Ledger} (hS : Served L) {queue : List String} {hold : Hold}
    (hq : ∀ i jobId, rowOf L.jobs i = some (jobId, .queued) →
      jobId ∈ L.queue ∨ L.hold.pending = some jobId → jobId ∈ queue ∨ hold.pending = some jobId)
    (hu : ∀ i jobId, rowOf L.jobs i = some (jobId, .uploading) →
      ∀ r, L.hold = .running r → r.idx = i → hold = .running r) :
    Served { L with queue := queue, hold := hold } where
  distinct := hS.distinct
  queued i jobId hi := hq i jobId hi (hS.queued i jobId hi)
  uploading i jobId hi := by
    obtain ⟨r, hr, e⟩ := hS.uploading i jobId hi
    exact ⟨r, hu i jobId hi r hr e, e⟩

/-- A new row behind the others, QUEUED and with an entry. -/
theorem Served.enqueue {L : Ledger} (hS : Served L) (grow : Nat → Nat) {job : UploadJob}
    (hst : job.status = .queued) (hfresh : ∀ j ∈ L.jobs.elems, j.id ≠ job.id) :
    Served { L with jobs := L.jobs.pushBack grow job, queue := L.queue ++ [job.id] } := by
  have hrow := rowOf_pushBack grow L.jobs job
  refine ⟨distinct_pushBack hS.distinct grow hfresh, fun k x hk => ?_, fun k x hk => ?_⟩
  · simp only [hrow] at hk
    split at hk
    · obtain ⟨rfl, _⟩ := Prod.mk.inj (Option.some.inj hk)
      exact Or.inl (List.mem_append_right _ (List.mem_singleton_self _))
    · exact (hS.queued k x hk).imp (List.mem_append_left _) id
  · simp only [hrow] at hk
    split at hk
    · rw [hst] at hk
      cases hk
    · exact hS.uploading k x hk

/-- **One step keeps `Served`**, as long as references stay valid, ids are distinct and an
    exception of `upload()` reaches the `catch` clause. -/
theorem effect_served {cfg : Cfg} {c : Option Ref} {L L' : Ledger} {a : Act}
    (h : Effect cfg c L a L')
    (hu : cfg.unwind = .reachesCatch)
    (hfresh : ∀ jobId f u t d, a = .enqueue jobId f u t d → ∀ job ∈ L.jobs.elems, job.id ≠ jobId)
    (hF : RefFresh L) (hO : HoldOk L) (hS : Served L) : Served L' := by
  cases h with
  | quiet => exact hS
  | enqueue jobId f u t d _ => exact hS.enqueue cfg.grow rfl (hfresh jobId f u t d rfl)
  | pause i job hi _ =>
    exact hS.change (.ofModify hi rfl) (fun _ h => h) (fun _ _ h => h)
      (fun _ _ h => h) nofun nofun
  | cancel i job hi =>
    exact hS.change (.ofModify hi rfl) (fun _ h => h) (fun _ _ h => h)
      (fun _ _ h => h) nofun nofun
  | resume i job hi _ =>
    exact hS.change (.ofModify hi rfl) (fun _ => List.mem_append_left _)
      (fun _ _ h => h) (fun _ _ h => h)
      (fun _ => Or.inl (List.mem_append_right _ (List.mem_singleton_self _))) nofun
  | retry i job hi _ =>
    exact hS.change (.ofModify hi rfl) (fun _ => List.mem_append_left _)
      (fun _ _ h => h) (fun _ _ h => h)
      (fun _ => Or.inl (List.mem_append_right _ (List.mem_singleton_self _))) nofun
  | pop e jobId queue hh hq =>
    refine hS.move (fun i x _ hx => ?_) (fun i x _ r hr => ?_)
    · rcases hx with hmem | hp
      · rw [hq] at hmem
        rcases List.mem_cons.mp hmem with rfl | hmem'
        · exact Or.inr rfl
        · exact Or.inl hmem'
      · rw [hh] at hp
        cases hp
    · rw [hh] at hr
      cases hr
  | lose e jobId hh hnone =>
    refine hS.move (fun i x hi hx => ?_) (fun i x _ r hr => ?_)
    · rcases hx with hmem | hp
      · exact Or.inl hmem
      · rw [hh] at hp
        cases hp
        obtain ⟨job, hjob, e⟩ := Option.map_eq_some_iff.mp hi
        exact absurd (congrArg Prod.fst e) (hnone job (List.mem_of_getElem? hjob))
    · rw [hh] at hr
      cases hr
  | find e i job hh _ _ =>
    refine hS.move (fun k x _ hx => ?_) (fun k x _ r hr => ?_)
    · rw [hh] at hx
      exact hx
    · rw [hh] at hr
      cases hr
  | clear e jobId q job hh _ _ =>
    refine hS.move (fun k x _ hx => ?_) (fun k x _ r hr => ?_)
    · rw [hh] at hx
      exact hx
    · rw [hh] at hr
      cases hr
  | skip e jobId q job hh hq hst =>
    -- the job let go is CANCELLED, so it is not the QUEUED one
    obtain ⟨hcur, job', hjob', hrow, hpop⟩ := held_row hF hO (r := q) (by rw [hh]; rfl)
    rw [hq] at hjob'
    cases hjob'
    refine hS.move (fun k x hk hx => ?_) (fun k x _ r hr => ?_)
    · rcases hx with hmem | hp
      · exact Or.inl hmem
      · have hx := hpop x hp
        subst hx
        have e' := hS.distinct k q.idx job.id _ _ hk hrow
        subst e'
        rw [hrow, hst] at hk
        cases hk
    · rw [hh] at hr
      cases hr
  | start e jobId q hh =>
    obtain ⟨hcur, job, hjob, hrow, hpop⟩ := held_row hF hO (r := q) (by rw [hh]; rfl)
    refine hS.change (.ofAssign hcur hjob rfl) (fun _ h => h) (fun x hx hp => ?_)
      (fun r _ hr => ?_) nofun (fun _ => ⟨q, rfl, rfl⟩)
    · exact absurd (hpop x hp) hx
    · rw [hh] at hr
      cases hr
  | progress q p hh =>
    obtain ⟨hcur, job, hjob, hrow, _⟩ := held_row hF hO hh
    exact hS.change (.ofAssign hcur hjob rfl) (fun _ h => h) (fun _ _ h => h)
      (fun _ _ h => h) (fun hst => hS.queued q.idx job.id (hst ▸ hrow))
      (fun hst => hS.uploading q.idx job.id (hst ▸ hrow))
  | keep e q job hh hq hst =>
    obtain ⟨_, job', hjob', hrow, _⟩ := held_row hF hO (r := q) (by rw [hh]; rfl)
    rw [hq] at hjob'
    cases hjob'
    refine hS.move (fun k x _ hx => ?_) (fun k x hk r hr hidx => ?_)
    · rw [hh] at hx
      exact hx
    · rw [hh] at hr
      cases hr
      subst hidx
      rw [hrow] at hk
      obtain ⟨_, e⟩ := Prod.mk.inj (Option.some.inj hk)
      rcases hst with h | h <;> rw [h] at e <;> cases e
  | complete e q job hh hq _ _ | fail e q job hh hq _ _ _ | caught e q job hh hq _ =>
    obtain ⟨hcur, job', hjob', hrow, _⟩ := held_row hF hO (r := q) (by rw [hh]; rfl)
    rw [hq] at hjob'
    cases hjob'
    refine hS.change (.ofAssign hcur hq rfl) (fun _ h => h) (fun x _ hp => ?_)
      (fun r hne hr => ?_) nofun nofun
    · rw [hh] at hp
      cases hp
    · rw [hh] at hr
      cases hr
      exact absurd rfl hne
  | requeue e q job hh hq _ _ _ =>
    obtain ⟨hcur, job', hjob', hrow, _⟩ := held_row hF hO (r := q) (by rw [hh]; rfl)
    rw [hq] at hjob'
    cases hjob'
    refine hS.change (.ofAssign hcur hq rfl) (fun _ => List.mem_append_left _)
      (fun x _ hp => ?_) (fun r hne hr => ?_)
      (fun _ => Or.inl (List.mem_append_right _ (List.mem_singleton_self _))) nofun
    · rw [hh] at hp
      cases hp
    · rw [hh] at hr
      cases hr
      exact absurd rfl hne
  | terminate e q hh hu' =>
    rw [hu] at hu'
    cases hu'

/-- The conditions of a run with distinct ids whose references stay valid. -/
def DistinctStable (s : State) (a : Act) : Prop := FreshId s a ∧ KeepsBuffer s a

instance (s : State) (a : Act) : Decidable (DistinctStable s a) :=
  inferInstanceAs (Decidable (_ ∧ _))

theorem freshId_elim {s : State} {a : Act} (h : FreshId s a) :
    ∀ jobId f u t d, a = .enqueue jobId f u t d → ∀ job ∈ s.ledger.jobs.elems,
      job.id ≠ jobId := by
  intro jobId f u t d e
  subst e
  exact h

theorem reach_served {cfg : Cfg} (hu : cfg.unwind = .reachesCatch) {s : State}
    (h : (engine cfg).Reach DistinctStable s) :
    Served s.ledger ∧ RefFresh s.ledger ∧ HoldOk s.ledger := by
  refine Machine.Steps.invariant
    (I := fun s => Served s.ledger ∧ RefFresh s.ledger ∧ HoldOk s.ledger) h ?_ ?_
  · exact ⟨⟨nofun, nofun, nofun⟩, nofun, nofun⟩
  · intro u a v hI hc hs
    obtain ⟨hS, hF, hO⟩ := hI
    have he := step_effect hs
    exact ⟨effect_served he hu (freshId_elim hc.1) hF hO hS, effect_refFresh he hc.2 hF,
      effect_holdOk he hO⟩

/-- **No upload job is forgotten and at most one is in flight**: in every reachable state every
    QUEUED job is in the queue or is the one the worker has popped and not yet set to
    UPLOADING, at most one job is UPLOADING, and it is the one `processJob` is running on. -/
theorem noJobForgotten {cfg : Cfg} (hu : cfg.unwind = .reachesCatch) {s : State}
    (h : (engine cfg).Reach DistinctStable s) :
    (∀ job ∈ s.jobs.elems, job.status = .queued →
      job.id ∈ s.queue ∨ s.worker.hold.pending = some job.id) ∧
    (∀ (i k : Nat) (job job' : UploadJob), s.jobs.elems[i]? = some job →
      s.jobs.elems[k]? = some job' →
      job.status = .uploading → job'.status = .uploading → i = k) ∧
    (∀ i job, s.jobs.elems[i]? = some job → job.status = .uploading →
      s.worker.hold.started = some (s.jobs.refAt i)) := by
  obtain ⟨hS, hF, _⟩ := reach_served hu h
  have hup : ∀ i job, s.jobs.elems[i]? = some job → job.status = .uploading →
      ∃ r, s.worker.hold = .running r ∧ r.idx = i := by
    intro i job hi hst
    have hrow := rowOf_of_get hi
    rw [hst] at hrow
    exact hS.uploading i job.id hrow
  refine ⟨fun job hmem hst => ?_, fun i k job job' hi hk hst hst' => ?_, fun i job hi hst => ?_⟩
  · obtain ⟨i, hi⟩ := List.getElem?_of_mem hmem
    have hrow := rowOf_of_get hi
    rw [hst] at hrow
    exact hS.queued i job.id hrow
  · obtain ⟨r, hr, rfl⟩ := hup i job hi hst
    obtain ⟨r', hr', rfl⟩ := hup k job' hk hst'
    rw [hr] at hr'
    cases hr'
    rfl
  · obtain ⟨r, hr, rfl⟩ := hup i job hi hst
    have hcur : s.jobs.Current r := (hF r (by rw [ledger_hold, hr]; rfl)).1
    rw [hr]
    exact congrArg some (Ref.ext hcur rfl)

/-- The engine in which an exception of `upload()` gets to the `catch` clause. -/
def catchCfg : Cfg := ⟨fun n => 2 * n, .reachesCatch⟩

theorem noJobForgotten_oneJob : ∃ s, (engine catchCfg).Reach DistinctStable s ∧
    getStatus s "job-a" = .uploading ∧ s.worker.hold.started = some (s.jobs.refAt 0) := by
  have h : ((engine catchCfg).exec State.init (oneJobFound ++ [.worker .go])).map (fun s =>
      (s.jobs.elems[0]?.map (·.status), getStatus s "job-a")) =
      some (some .uploading, .uploading) := by
    decide
  obtain ⟨s, hs, hobs⟩ := Option.map_eq_some_iff.mp h
  obtain ⟨hjob, hget⟩ := Prod.mk.inj hobs
  obtain ⟨job, hi, hst⟩ := Option.map_eq_some_iff.mp hjob
  have hreach : (engine catchCfg).Reach DistinctStable s :=
    Machine.steps_of_exec hs (by decide)
  exact ⟨s, hreach, hget, (noJobForgotten rfl hreach).2.2 0 job hi hst⟩

/-! ## 3. The queue holds waiting jobs only -/

/-- The job in the worker's hand: popped, or being processed. -/
def InHand (L : Ledger) (i : Nat) (jobId : String) : Prop :=
  L.hold.pending = some jobId ∨ ∃ r, L.hold = .running r ∧ r.idx = i

/-- The queue discipline, with what it needs of the job in the worker's hand: it is not in the
    queue, waits before its attempt and is UPLOADING, PAUSED or CANCELLED during it. -/
structure QueueOk (L : Ledger) : Prop where
  distinct : Distinct L.jobs
  nodup : L.queue.Nodup
  known : ∀ jobId, jobId ∈ L.queue ∨ L.hold.pending = some jobId →
    ∃ i st, rowOf L.jobs i = some (jobId, st)
  waiting : ∀ i jobId st, rowOf L.jobs i = some (jobId, st) → jobId ∈ L.queue →
    st = .queued ∨ st = .cancelled
  out : ∀ i jobId st, rowOf L.jobs i = some (jobId, st) → InHand L i jobId → jobId ∉ L.queue
  before : ∀ i jobId st, rowOf L.jobs i = some (jobId, st) → L.hold.pending = some jobId →
    st = .queued ∨ st = .cancelled
  during : ∀ r jobId st, L.hold = .running r → rowOf L.jobs r.idx = some (jobId, st) →
    st = .uploading ∨ st = .paused ∨ st = .cancelled

/-- What a change of one row must bring along to keep `QueueOk` when the queue stays. -/
theorem QueueOk.change {L L' : Ledger} (hQ : QueueOk L) {i : Nat} {jobId : String}
    {st st' : UploadStatus} (hc : RowChange L.jobs L'.jobs i jobId st st')
    (hqueue : L'.queue = L.queue)
    (hwait : jobId ∈ L.queue → st' = .queued ∨ st' = .cancelled)
    (hpend : ∀ x, L'.hold.pending = some x → L.hold.pending = some x)
    (hhand : ∀ k x s, rowOf L.jobs k = some (x, s) → InHand L' k x → InHand L k x)
    (hbefore : L'.hold.pending = some jobId → st' = .queued ∨ st' = .cancelled)
    (hduring : ∀ r, L'.hold = .running r →
      (r.idx = i ∧ (st' = .uploading ∨ st' = .paused ∨ st' = .cancelled)) ∨
      (r.idx ≠ i ∧ L.hold = .running r)) : QueueOk L' := by
  refine ⟨hc.distinct hQ.distinct, ?_, fun x hx => ?_, fun k x s hk hx => ?_,
    fun k x s hk hx => ?_, fun k x s hk hx => ?_, fun r x s hr hk => ?_⟩
  · rw [hqueue]
    exact hQ.nodup
  · rw [hqueue] at hx
    obtain ⟨k, s, hk⟩ := hQ.known x (hx.imp id (hpend x))
    obtain ⟨s0, hk'⟩ := hc.id_new hk
    exact ⟨k, s0, hk'⟩
  · rw [hqueue] at hx
    rw [hc.new] at hk
    split at hk
    · cases hk
      exact hwait hx
    · exact hQ.waiting k x s hk hx
  · obtain ⟨s0, hk'⟩ := hc.id_old hk
    rw [hqueue]
    exact hQ.out k x s0 hk' (hhand k x s0 hk' hx)
  · rw [hc.new] at hk
    split at hk
    · cases hk
      exact hbefore hx
    · exact hQ.before k x s hk (hpend x hx)
  · rcases hduring r hr with ⟨e, hst⟩ | ⟨hne, hr'⟩
    · rw [hc.new, if_pos e] at hk
      cases hk
      exact hst
    · rw [hc.new, if_neg hne] at hk
      exact hQ.during r x s hr' hk

/-- A row that becomes QUEUED and is pushed: it was not in the queue and does not stay in the
    worker's hand. -/
theorem QueueOk.push {L L' : Ledger} (hQ : QueueOk L) {i : Nat} {jobId : String}
    {st : UploadStatus} (hc : RowChange L.jobs L'.jobs i jobId st .queued)
    (hout : jobId ∉ L.queue) (hqueue : L'.queue = L.queue ++ [jobId])
    (hfree : ¬ InHand L' i jobId)
    (hpend : ∀ x, L'.hold.pending = some x → L.hold.pending = some x)
    (hrun : ∀ r, L'.hold = .running r → L.hold = .running r) : QueueOk L' := by
  -- first the row alone, then the entry
  have hbase : QueueOk { L' with queue := L.queue } := by
    refine hQ.change hc rfl (fun h => absurd h hout) hpend (fun k x s _ hx => ?_)
      (fun _ => Or.inl rfl) (fun r hr => ?_)
    · exact hx.imp (hpend x) fun ⟨r, hr, e⟩ => ⟨r, hrun r hr, e⟩
    · exact Or.inr ⟨fun e => hfree (Or.inr ⟨r, hr, e⟩), hrun r hr⟩
  have hsame : ∀ k s, rowOf L'.jobs k = some (jobId, s) → k = i ∧ s = .queued := by
    intro k s hk
    have e := hbase.distinct k i jobId s .queued hk hc.new_self
    subst e
    rw [hc.new_self] at hk
    cases hk
    exact ⟨rfl, rfl⟩
  refine ⟨hbase.distinct, ?_, fun x hx => ?_, fun k x s hk hx => ?_, fun k x s hk hx => ?_,
    hbase.before, hbase.during⟩
  · rw [hqueue]
    exact List.concat_eq_append ▸ List.Nodup.concat hout hQ.nodup
  · rw [hqueue, List.mem_append, List.mem_singleton] at hx
    rcases hx with (hx | rfl) | hp
    · exact hbase.known x (Or.inl hx)
    · exact ⟨i, .queued, hc.new_self⟩
    · exact hbase.known x (Or.inr hp)
  · rw [hqueue, List.mem_append, List.mem_singleton] at hx
    rcases hx with hx | rfl
    · exact hbase.waiting k x s hk hx
    · exact Or.inl (hsame k s hk).2
  · rw [hqueue, List.mem_append, List.mem_singleton]
    rintro (hmem | rfl)
    · exact hbase.out k x s hk hx hmem
    · obtain ⟨rfl, _⟩ := hsame k s hk
      exact hfree hx

/-- What a change of the queue and the hold alone must keep. -/
theorem QueueOk.release {L : Ledger} (hQ : QueueOk L) {hold : Hold}
    (hpend : ∀ x, hold.pending = some x → L.hold.pending = some x)
    (hrun : ∀ r, hold = .running r → L.hold = .running r) : QueueOk { L with hold := hold } where
  distinct := hQ.distinct
  nodup := hQ.nodup
  known x hx := hQ.known x (hx.imp id (hpend x))
  waiting := hQ.waiting
  out k x s hk hx := hQ.out k x s hk
    (hx.imp (hpend x) fun ⟨r, hr, e⟩ => ⟨r, hrun r hr, e⟩)
  before k x s hk hx := hQ.before k x s hk (hpend x hx)
  during r x s hr hk := hQ.during r x s (hrun r hr) hk

/-- The id at the head of the queue goes into the worker's hand. -/
theorem QueueOk.pop {L : Ledger} (hQ : QueueOk L) {jobId : String} {queue : List String}
    (hq : L.queue = jobId :: queue) :
    QueueOk { L with queue := queue, hold := .popped jobId } := by
  have hnd := hQ.nodup
  rw [hq, List.nodup_cons] at hnd
  have hsub : ∀ x, x ∈ queue → x ∈ L.queue := by
    intro x hx
    rw [hq]
    exact List.mem_cons_of_mem _ hx
  have hhead : jobId ∈ L.queue := by
    rw [hq]
    exact List.mem_cons_self
  refine ⟨hQ.distinct, hnd.2, fun x hx => ?_, fun k x s hk hx => ?_, fun k x s hk hx => ?_,
    fun k x s hk hx => ?_, fun r x s hr _ => ?_⟩
  · rcases hx with hx | hx
    · exact hQ.known x (Or.inl (hsub x hx))
    · cases hx
      exact hQ.known jobId (Or.inl hhead)
  · exact hQ.waiting k x s hk (hsub x hx)
  · rcases hx with hx | ⟨r, hr, _⟩
    · cases hx
      exact hnd.1
    · cases hr
  · cases hx
    exact hQ.waiting k jobId s hk hhead
  · cases hr

/-- A new row behind the others, QUEUED and with an entry. -/
theorem QueueOk.enqueue {L : Ledger} (hQ : QueueOk L) (grow : Nat → Nat) {job : UploadJob}
    (hst : job.status = .queued) (hfresh : ∀ j ∈ L.jobs.elems, j.id ≠ job.id)
    (hlt : ∀ r, L.hold = .running r → r.idx < L.jobs.elems.length) :
    QueueOk { L with jobs := L.jobs.pushBack grow job, queue := L.queue ++ [job.id] } := by
  have hrow := rowOf_pushBack grow L.jobs job
  have hnew := rowOf_ne_fresh hfresh
  have hfree : ∀ x, x ∈ L.queue ∨ L.hold.pending = some x → x ≠ job.id := by
    intro x hx e
    obtain ⟨k, st, hk⟩ := hQ.known x hx
    exact hnew k st (e ▸ hk)
  have hkeep : ∀ k x s, rowOf L.jobs k = some (x, s) →
      rowOf (L.jobs.pushBack grow job) k = some (x, s) := by
    intro k x s hk
    rw [hrow, if_neg (Nat.ne_of_lt (rowOf_lt hk))]
    exact hk
  refine ⟨distinct_pushBack hQ.distinct grow hfresh, ?_, fun x hx => ?_,
    fun k x s hk hx => ?_, fun k x s hk hx => ?_, fun k x s hk hx => ?_, fun r x s hr hk => ?_⟩
  · exact List.concat_eq_append ▸
      List.Nodup.concat (fun hmem => hfree job.id (Or.inl hmem) rfl) hQ.nodup
  · simp only [List.mem_append, List.mem_singleton] at hx
    rcases hx with (hx | rfl) | hp
    · obtain ⟨k, s, hk⟩ := hQ.known x (Or.inl hx)
      exact ⟨k, s, hkeep k x s hk⟩
    · exact ⟨L.jobs.elems.length, job.status, by rw [hrow, if_pos rfl]⟩
    · obtain ⟨k, s, hk⟩ := hQ.known x (Or.inr hp)
      exact ⟨k, s, hkeep k x s hk⟩
  · simp only [hrow] at hk
    split at hk
    · obtain ⟨_, rfl⟩ := Prod.mk.inj (Option.some.inj hk)
      exact Or.inl hst
    · simp only [List.mem_append, List.mem_singleton] at hx
      rcases hx with hx | rfl
      · exact hQ.waiting k x s hk hx
      · exact absurd hk (hnew k s)
  · simp only [hrow] at hk
    simp only [List.mem_append, List.mem_singleton, not_or]
    split at hk
    · -- the new row is in no one's hand
      rename_i e
      obtain ⟨rfl, _⟩ := Prod.mk.inj (Option.some.inj hk)
      rcases hx with hp | ⟨r, hr, hidx⟩
      · exact absurd rfl (hfree job.id (Or.inr hp))
      · have := hlt r hr
        omega
    · refine ⟨hQ.out k x s hk hx, fun e => ?_⟩
      subst e
      exact hnew k s hk
  · simp only [hrow] at hk
    split at hk
    · obtain ⟨rfl, _⟩ := Prod.mk.inj (Option.some.inj hk)
      exact absurd rfl (hfree job.id (Or.inr hx))
    · exact hQ.before k x s hk hx
  · simp only [hrow] at hk
    rw [if_neg (Nat.ne_of_lt (hlt r hr))] at hk
    exact hQ.during r x s hr hk

/-- `resume` does not find the job PAUSED while its attempt is still inside `processJob`. -/
def NotResumedInFlight (s : State) : Act → Prop
  | .resume jobId =>
    ∀ job ∈ s.worker.job.bind s.jobs.deref, ¬ (job.id = jobId ∧ job.status = .paused)
  | _ => True

instance (s : State) : ∀ a : Act, Decidable (NotResumedInFlight s a)
  | .resume _ => inferInstanceAs (Decidable (∀ job ∈ s.worker.job.bind s.jobs.deref, _))
  | .enqueue .. | .pause _ | .cancel _ | .retry _ | .pauseAll | .resumeAll | .setAuthToken _
  | .destroy | .worker _ | .poller => inferInstanceAs (Decidable True)

/-- A row that waits for nothing in the queue. -/
theorem QueueOk.not_queued {L : Ledger} (hQ : QueueOk L) {i : Nat} {jobId : String}
    {st : UploadStatus} (hi : rowOf L.jobs i = some (jobId, st)) (hq : st ≠ .queued)
    (hc : st ≠ .cancelled) : jobId ∉ L.queue := by
  intro hmem
  rcases hQ.waiting i jobId st hi hmem with e | e
  · exact hq e
  · exact hc e

/-- A row with a final status is not in the worker's hand. -/
theorem QueueOk.not_inHand {L : Ledger} (hQ : QueueOk L) {i : Nat} {jobId : String}
    (hi : rowOf L.jobs i = some (jobId, .failed)) : ¬ InHand L i jobId := by
  rintro (hp | ⟨r, hr, rfl⟩)
  · rcases hQ.before i jobId .failed hi hp with e | e <;> cases e
  · rcases hQ.during r jobId .failed hr hi with e | e | e <;> cases e

/-- **One step keeps `QueueOk`**, as long as references stay valid, ids are distinct and no job
    is resumed while its attempt is running. -/
theorem effect_queueOk {cfg : Cfg} {c : Option Ref} {L L' : Ledger} {a : Act}
    (h : Effect cfg c L a L')
    (hfresh : ∀ jobId f u t d, a = .enqueue jobId f u t d → ∀ job ∈ L.jobs.elems, job.id ≠ jobId)
    (hres : ∀ jobId r job, a = .resume jobId → L.hold.job = some r → L.jobs.deref r = some job →
      ¬ (job.id = jobId ∧ job.status = .paused))
    (hF : RefFresh L) (hO : HoldOk L) (hQ : QueueOk L) : QueueOk L' := by
  cases h with
  | quiet => exact hQ
  | enqueue jobId f u t d _ =>
    refine hQ.enqueue cfg.grow rfl (hfresh jobId f u t d rfl) fun r hr => ?_
    obtain ⟨_, job, _, hrow, _⟩ := held_row hF hO (r := r) (by rw [hr]; rfl)
    exact rowOf_lt hrow
  | pause i job hi hst =>
    have hrow := rowOf_of_get hi
    have hout : job.id ∉ L.queue := hQ.not_queued hrow (by rw [hst]; nofun) (by rw [hst]; nofun)
    refine hQ.change (.ofModify hi rfl) rfl (fun h => absurd h hout) (fun _ h => h)
      (fun _ _ _ _ h => h) (fun hp => ?_) (fun r hr => ?_)
    · rcases hQ.before i job.id job.status hrow hp with e | e <;> rw [hst] at e <;> cases e
    · by_cases hidx : r.idx = i
      · exact Or.inl ⟨hidx, Or.inr (Or.inl rfl)⟩
      · exact Or.inr ⟨hidx, hr⟩
  | cancel i job hi =>
    refine hQ.change (.ofModify hi rfl) rfl (fun _ => Or.inr rfl) (fun _ h => h)
      (fun _ _ _ _ h => h) (fun _ => Or.inr rfl) (fun r hr => ?_)
    by_cases hidx : r.idx = i
    · exact Or.inl ⟨hidx, Or.inr (Or.inr rfl)⟩
    · exact Or.inr ⟨hidx, hr⟩
  | resume i job hi hst =>
    have hrow := rowOf_of_get hi
    have hout : job.id ∉ L.queue := hQ.not_queued hrow (by rw [hst]; nofun) (by rw [hst]; nofun)
    refine hQ.push (.ofModify hi rfl) hout rfl ?_ (fun _ h => h) (fun _ h => h)
    rintro (hp | ⟨r, hr, rfl⟩)
    · rcases hQ.before i job.id job.status hrow hp with e | e <;> rw [hst] at e <;> cases e
    · -- the attempt on this job is still running: excluded
      have hold : L.hold.job = some r := by rw [show L.hold = .running r from hr]; rfl
      have hread : L.jobs.deref r = some job :=
        (RefVector.deref_of_current (hF r hold).1).trans hi
      exact hres job.id r job rfl hold hread ⟨rfl, hst⟩
  | retry i job hi hst =>
    have hrow := rowOf_of_get hi
    have hout : job.id ∉ L.queue := hQ.not_queued hrow (by rw [hst]; nofun) (by rw [hst]; nofun)
    rw [hst] at hrow
    exact hQ.push (.ofModify hi rfl) hout rfl (hQ.not_inHand hrow) (fun _ h => h) (fun _ h => h)
  | pop e jobId queue _ hq => exact hQ.pop hq
  | lose | skip | keep | terminate => exact hQ.release nofun nofun
  | find e i job hh _ _ =>
    refine hQ.release (fun x hx => ?_) nofun
    rw [hh]
    exact hx
  | clear e jobId q job hh _ _ =>
    refine hQ.release (fun x hx => ?_) nofun
    rw [hh]
    exact hx
  | start e jobId q hh =>
    obtain ⟨hcur, job, hjob, hrow, hpop⟩ := held_row hF hO (r := q) (by rw [hh]; rfl)
    have hpend : L.hold.pending = some job.id := by
      rw [hh]
      exact congrArg some (hpop jobId (by rw [hh]; rfl))
    have hout := hQ.out q.idx job.id _ hrow (Or.inl hpend)
    refine hQ.change (.ofAssign hcur hjob rfl) rfl (fun h => absurd h hout) nofun
      (fun k x s hk hx => ?_) nofun (fun r hr => ?_)
    · rcases hx with hx | ⟨r, hr, rfl⟩
      · cases hx
      · cases hr
        rw [hrow] at hk
        cases hk
        exact Or.inl hpend
    · cases hr
      exact Or.inl ⟨rfl, Or.inl rfl⟩
  | progress q p hh =>
    obtain ⟨hcur, job, hjob, hrow, _⟩ := held_row hF hO hh
    refine hQ.change (.ofAssign hcur hjob rfl) rfl (hQ.waiting q.idx job.id job.status hrow)
      (fun _ h => h) (fun _ _ _ _ h => h) (hQ.before q.idx job.id job.status hrow) (fun r hr => ?_)
    by_cases hidx : r.idx = q.idx
    · exact Or.inl ⟨hidx, hQ.during r job.id job.status hr (by rw [hidx]; exact hrow)⟩
    · exact Or.inr ⟨hidx, hr⟩
  | complete e q job hh hq _ _ | fail e q job hh hq _ _ _ | caught e q job hh hq _ =>
    obtain ⟨hcur, job', hjob', hrow, _⟩ := held_row hF hO (r := q) (by rw [hh]; rfl)
    rw [hq] at hjob'
    cases hjob'
    have hout := hQ.out q.idx job.id _ hrow (Or.inr ⟨q, hh, rfl⟩)
    refine hQ.change (.ofAssign hcur hq rfl) rfl (fun h => absurd h hout) nofun
      (fun k x s _ hx => ?_) nofun nofun
    rcases hx with hx | ⟨r, hr, _⟩
    · cases hx
    · cases hr
  | requeue e q job hh hq _ _ _ =>
    obtain ⟨hcur, job', hjob', hrow, _⟩ := held_row hF hO (r := q) (by rw [hh]; rfl)
    rw [hq] at hjob'
    cases hjob'
    have hout := hQ.out q.idx job.id _ hrow (Or.inr ⟨q, hh, rfl⟩)
    refine hQ.push (.ofAssign hcur hq rfl) hout rfl ?_ nofun nofun
    rintro (hp | ⟨r, hr, _⟩)
    · cases hp
    · cases hr

/-- The conditions of a run that keeps the queue disciplined. -/
def Disciplined (s : State) (a : Act) : Prop := DistinctStable s a ∧ NotResumedInFlight s a

instance (s : State) (a : Act) : Decidable (Disciplined s a) :=
  inferInstanceAs (Decidable (_ ∧ _))

theorem reach_queueOk {cfg : Cfg} {s : State} (h : (engine cfg).Reach Disciplined s) :
    QueueOk s.ledger ∧ RefFresh s.ledger ∧ HoldOk s.ledger := by
  refine Machine.Steps.invariant
    (I := fun s => QueueOk s.ledger ∧ RefFresh s.ledger ∧ HoldOk s.ledger) h ?_ ?_
  · refine ⟨⟨nofun, List.nodup_nil, fun x hx => ?_, nofun, nofun, nofun, nofun⟩, nofun, nofun⟩
    rcases hx with hx | hx <;> cases hx
  · intro u a v hI hc hs
    obtain ⟨hQ, hF, hO⟩ := hI
    obtain ⟨⟨hfresh, hbuf⟩, hres⟩ := hc
    have he := step_effect hs
    refine ⟨effect_queueOk he (freshId_elim hfresh) ?_ hF hO hQ, effect_refFresh he hbuf hF,
      effect_holdOk he hO⟩
    intro jobId r job e hr hread
    subst e
    refine hres job ?_
    rw [ledger_hold, WorkerPc.hold_job] at hr
    rw [hr]
    exact hread

/-- **Queue discipline**: in every run in which no paused job is resumed while its attempt is
    still inside `processJob` (and ids are distinct and the vector is not moved under a held
    reference), no id occurs twice in the queue and every id in it belongs to a job that is
    QUEUED or CANCELLED. -/
theorem queueDiscipline {cfg : Cfg} {s : State} (h : (engine cfg).Reach Disciplined s) :
    s.queue.Nodup ∧ ∀ jobId ∈ s.queue, ∃ job ∈ s.jobs.elems, job.id = jobId ∧
      (job.status = .queued ∨ job.status = .cancelled) := by
  obtain ⟨hQ, _, _⟩ := reach_queueOk h
  refine ⟨hQ.nodup, fun jobId hmem => ?_⟩
  obtain ⟨i, st, hi⟩ := hQ.known jobId (Or.inl hmem)
  obtain ⟨job, hjob, e⟩ := Option.map_eq_some_iff.mp hi
  obtain ⟨rfl, rfl⟩ := Prod.mk.inj e
  exact ⟨job, List.mem_of_getElem? hjob, rfl, hQ.waiting i job.id job.status hi hmem⟩

theorem queueDiscipline_twoJobs : ∃ s, (engine defaultCfg).Reach Disciplined s ∧
    s.queue = ["job-a", "job-b"] ∧ s.queue.Nodup := by
  have h : ((engine defaultCfg).exec State.init
      [.enqueue "job-a" "/a.mp4" "https://up/" "" "",
        .enqueue "job-b" "/b.mp4" "https://up/" "" ""]).map (·.queue) =
      some ["job-a", "job-b"] := by
    decide
  obtain ⟨s, hs, hq⟩ := Option.map_eq_some_iff.mp h
  have hreach : (engine defaultCfg).Reach Disciplined s :=
    Machine.steps_of_exec hs (by decide)
  exact ⟨s, hreach, hq, (queueDiscipline hreach).1⟩

/-- **A job with a pending entry that is not waiting, and one with two entries**: an empty file is
    paused and resumed inside `upload()`, so it is COMPLETED with its id in the queue; a job paused
    and resumed before the `TusClient` cannot be made is FAILED with its id in the queue, and
    `retry` pushes it again. -/
theorem queueDiscipline_resumedInFlight :
    (∃ s, (engine defaultCfg).Reach ChunksAsCut s ∧ s.queue = ["job-a"] ∧
      s.jobs.elems.map (fun job => (job.id, job.status)) = [("job-a", .completed)]) ∧
    ∃ s, (engine defaultCfg).Reach ChunksAsCut s ∧ s.queue = ["job-a", "job-a"] ∧
      ¬ s.queue.Nodup := by
  constructor
  · have h : ((engine defaultCfg).exec State.init (oneAttempt ++
        [.pause "job-a", .resume "job-a"] ++ begins 0 ++ finishes)).map (fun s =>
          (s.queue, s.jobs.elems.map fun job => (job.id, job.status))) =
        some (["job-a"], [("job-a", .completed)]) := by
      decide
    obtain ⟨s, hs, hobs⟩ := Option.map_eq_some_iff.mp h
    obtain ⟨hq, hjobs⟩ := Prod.mk.inj hobs
    exact ⟨s, Machine.steps_of_exec hs (by decide), hq, hjobs⟩
  · have h : ((engine defaultCfg).exec State.init (oneJobFound ++
        [.worker .go, .pause "job-a", .resume "job-a", .worker .go,
          .worker (.throws "no chunk directory"), .worker .go, .retry "job-a"])).map (·.queue) =
        some ["job-a", "job-a"] := by
      decide
    obtain ⟨s, hs, hq⟩ := Option.map_eq_some_iff.mp h
    refine ⟨s, Machine.steps_of_exec hs (by decide), hq, ?_⟩
    rw [hq]
    decide

end Viral.Upload
