/-
  File:      ViralEngine/Upload/Capacity.lean
  Subject:   HOW MANY JOBS WAIT, AND WHOM `enqueue` TURNS AWAY.

  `enqueue` compares the number of entries of `m_queue` with the limit. The entries are jobs that
  wait only as far as the other calls keep them so: `resume`, `retry` and the automatic retry push
  without a test, `cancel` leaves the entry in the queue, and an attempt that was resumed in
  flight goes on beside its entry.

  * `CapacityExact` -- at most ten entries, and `enqueue` rejects exactly if ten QUEUED jobs wait;
    `capacityExact_iff`: a full queue holds ten distinct QUEUED jobs;
  * `PushFits`, `StoreFits`, `Fits` -- what a push and a store of a status must find;
  * `fits_iff` -- one step; `capacity_iff` -- so a run keeps the capacity exact at every step
    exactly if every step fits;
  * `capacity_cancelledFull` -- a job cancelled in the full queue.
-/
import ViralEngine.Upload.Answers
import Mathlib.Data.List.Dedup

namespace Viral.Upload

open Viral.Lib

/-! ## 1. Capacity -/

/-- `enqueue` turns every file away. -/
def Rejects (cfg : Cfg) (s : State) : Prop :=
  ∀ jobId f u n d, (enqueue cfg s jobId f u n d).2 = ""

/-- The jobs with status QUEUED that wait in `m_queue`, each once. -/
def queuedWaiting (s : State) : List String :=
  s.queue.dedup.filter fun jobId => getStatus s jobId = .queued

/-- **The capacity is exact**: not more entries than the limit, and `enqueue` rejects exactly if
    that many QUEUED jobs wait. -/
structure CapacityExact (cfg : Cfg) (s : State) : Prop where
  bound : (s.queue.length : Int) ≤ viralUploadQueueMax
  exact : Rejects cfg s ↔ ((queuedWaiting s).length : Int) = viralUploadQueueMax

/-- Every entry is a job of its own that waits. -/
def AllWait (s : State) : Prop :=
  s.queue.Nodup ∧ ∀ jobId ∈ s.queue, getStatus s jobId = .queued

instance (s : State) : Decidable (AllWait s) := inferInstanceAs (Decidable (_ ∧ _))

/-- The queue has reached the limit. -/
def AtLimit (s : State) : Prop := (s.queue.length : Int) ≥ viralUploadQueueMax

instance (s : State) : Decidable (AtLimit s) := inferInstanceAs (Decidable (_ ≤ _))

/-- `enqueue` with room in the queue. -/
theorem enqueue_of_room {cfg : Cfg} {s : State} (h : ¬ AtLimit s) (jobId f u n d : String) :
    enqueue cfg s jobId f u n d = (({ s with
      jobs := s.jobs.pushBack cfg.grow (newJob jobId f u n d)
      queue := s.queue ++ [jobId] } : State).note jobId .queued "", jobId) := if_neg h

theorem rejects_iff {cfg : Cfg} {s : State} : Rejects cfg s ↔ AtLimit s := by
  constructor
  · intro h
    by_contra hroom
    have hone := h "job" "" "" "" ""
    rw [enqueue_of_room hroom] at hone
    have hid : "job" = "" := hone
    exact absurd hid (by decide)
  · intro h jobId f u n d
    have e : enqueue cfg s jobId f u n d = (s.note "" .failed "Upload queue is full", "") :=
      if_pos h
    rw [e]

theorem queuedWaiting_le (s : State) : (queuedWaiting s).length ≤ s.queue.length :=
  ((List.filter_sublist).trans (List.dedup_sublist _)).length_le

/-- Every entry counts exactly if it is a job of its own that waits. -/
theorem queuedWaiting_eq_iff {s : State} :
    (queuedWaiting s).length = s.queue.length ↔ AllWait s := by
  constructor
  · intro h
    have hsub : (queuedWaiting s).Sublist s.queue :=
      List.filter_sublist.trans (List.dedup_sublist _)
    have e : queuedWaiting s = s.queue := hsub.eq_of_length h
    refine ⟨?_, fun jobId hmem => ?_⟩
    · rw [← e]
      exact (List.nodup_dedup _).filter _
    · rw [← e] at hmem
      simpa using (List.mem_filter.mp hmem).2
  · rintro ⟨hnodup, hall⟩
    unfold queuedWaiting
    rw [hnodup.dedup, List.filter_eq_self.mpr fun jobId hmem => by simpa using hall jobId hmem]

theorem capacityExact_iff {cfg : Cfg} {s : State} :
    CapacityExact cfg s ↔
      (s.queue.length : Int) ≤ viralUploadQueueMax ∧ (AtLimit s → AllWait s) := by
  have hle := queuedWaiting_le s
  constructor
  · rintro ⟨hbound, hexact⟩
    refine ⟨hbound, fun hfull => queuedWaiting_eq_iff.mp ?_⟩
    have hten := hexact.mp (rejects_iff.mpr hfull)
    unfold AtLimit at hfull
    omega
  · rintro ⟨hbound, hwait⟩
    refine ⟨hbound, rejects_iff.trans ⟨fun hfull => ?_, fun hten => ?_⟩⟩
    · rw [queuedWaiting_eq_iff.mpr (hwait hfull)]
      exact Int.le_antisymm hbound hfull
    · unfold AtLimit
      omega

/-! ## 2. What a step must find -/

/-- A push finds room: it does not fill the queue, or it fills it with a job that is not in it,
    beside jobs that all wait, and that is QUEUED then. -/
def PushFits (s : State) (jobId : String) (queued : Prop) : Prop :=
  (s.queue.length : Int) + 1 < viralUploadQueueMax ∨
    (s.queue.length : Int) + 1 = viralUploadQueueMax ∧ jobId ∉ s.queue ∧ AllWait s ∧ queued

/-- A store through the worker's reference meets no job of a full queue. -/
def StoreFits (s : State) (r : Ref) : Prop :=
  AtLimit s → s.jobs.Current r → ∀ job ∈ s.jobs.deref r, job.id ∉ s.queue

/-- What the worker's step must find. -/
def WorkerFits (s : State) : WorkerPc → Prop
  | .start _ r | .caught r _ => StoreFits s r
  | .result r success => ∀ job ∈ s.jobs.deref r, job.status ≠ .cancelled → job.status ≠ .paused →
      if success = false ∧ job.retryCount + 1 < viralUploadMaxRetry then
        PushFits s job.id (s.jobs.Current r ∨ getStatus s job.id = .queued)
      else StoreFits s r
  | _ => True

/-- **The step fits the queue**: a push finds room, and no job of a full queue is cancelled or
    changed by an attempt that is still running on it. -/
def Fits (s : State) : Act → Prop
  | .enqueue jobId .. => ¬ AtLimit s →
      PushFits s jobId (jobId ∈ s.ledger.ids → getStatus s jobId = .queued)
  | .resume jobId => (∃ job ∈ s.jobs.elems, job.id = jobId ∧ job.status = .paused) →
      PushFits s jobId (getStatus s jobId = .paused ∨ getStatus s jobId = .queued)
  | .retry jobId => (∃ job ∈ s.jobs.elems, job.id = jobId ∧ job.status = .failed) →
      PushFits s jobId (getStatus s jobId = .failed ∨ getStatus s jobId = .queued)
  | .cancel jobId => AtLimit s → jobId ∉ s.queue
  | .worker _ => WorkerFits s s.worker
  | _ => True

instance (s : State) (jobId : String) (queued : Prop) [Decidable queued] :
    Decidable (PushFits s jobId queued) := inferInstanceAs (Decidable (_ ∨ _))

instance (s : State) (r : Ref) : Decidable (StoreFits s r) :=
  inferInstanceAs (Decidable (_ → _ → ∀ job ∈ s.jobs.deref r, _))

instance (s : State) : ∀ w : WorkerPc, Decidable (WorkerFits s w)
  | .start _ r | .caught r _ => inferInstanceAs (Decidable (StoreFits s r))
  | .result r _ => inferInstanceAs (Decidable (∀ job ∈ s.jobs.deref r, _))
  | .head | .testPaused | .testEmpty | .pop | .find _ | .check _ _ | .notify _ | .construct _
  | .spawn _ | .upload _ _ | .returned _ _ | .join _ _ | .finished | .terminated =>
    inferInstanceAs (Decidable True)

instance (s : State) : ∀ a : Act, Decidable (Fits s a)
  | .enqueue .. | .cancel _ => inferInstanceAs (Decidable (_ → _))
  | .resume _ | .retry _ => inferInstanceAs (Decidable ((∃ job ∈ s.jobs.elems, _) → _))
  | .worker _ => inferInstanceAs (Decidable (WorkerFits s s.worker))
  | .pause _ | .pauseAll | .resumeAll | .setAuthToken _ | .destroy | .poller =>
    inferInstanceAs (Decidable True)

/-! ## 3. One step -/

/-- Not more entries than the limit, and at the limit they all wait. -/
def Full (s : State) : Prop :=
  (s.queue.length : Int) ≤ viralUploadQueueMax ∧ (AtLimit s → AllWait s)

section Step

variable {cfg : Cfg} {s t : State}

theorem atLimit_congr (hq : t.queue = s.queue) : AtLimit t ↔ AtLimit s := by
  unfold AtLimit
  rw [hq]

/-- Queue and answers as they were, as far as a full queue goes. -/
theorem full_still (h : Full s) (hq : t.queue = s.queue)
    (hst : AtLimit s → ∀ x ∈ s.queue, getStatus t x = getStatus s x) : Full t := by
  refine ⟨by rw [hq]; exact h.1, fun hfull => ?_⟩
  rw [atLimit_congr hq] at hfull
  obtain ⟨hnodup, hall⟩ := h.2 hfull
  refine ⟨by rw [hq]; exact hnodup, fun x hx => ?_⟩
  rw [hq] at hx
  exact (hst hfull x hx).trans (hall x hx)

/-- An entry less. -/
theorem full_pop (h : Full s) {x : String} (hq : s.queue = x :: t.queue) : Full t := by
  have hlen : (t.queue.length : Int) + 1 ≤ viralUploadQueueMax := by
    have hb := h.1
    rw [hq, List.length_cons] at hb
    exact_mod_cast hb
  refine ⟨by omega, fun hfull => ?_⟩
  unfold AtLimit at hfull
  omega

/-- A status other than QUEUED is stored for one job. -/
theorem full_store_iff (h : Full s) (hq : t.queue = s.queue) {P : Prop} [Decidable P]
    {jobId : String} {st : UploadStatus} (hne : st ≠ .queued)
    (hst : ∀ x, getStatus t x = if P ∧ x = jobId then st else getStatus s x) :
    Full t ↔ (AtLimit s → P → jobId ∉ s.queue) := by
  constructor
  · rintro ⟨_, hwait⟩ hfull hP hmem
    have hall := (hwait ((atLimit_congr hq).mpr hfull)).2 jobId (by rw [hq]; exact hmem)
    rw [hst, if_pos ⟨hP, rfl⟩] at hall
    exact hne hall
  · intro hout
    refine full_still h hq fun hfull x hx => ?_
    rw [hst, if_neg]
    rintro ⟨hP, rfl⟩
    exact hout hfull hP hx

/-- An entry more. -/
theorem full_push_iff (h : Full s) {jobId : String} (hq : t.queue = s.queue ++ [jobId])
    (hst : ∀ x, x ≠ jobId → getStatus t x = getStatus s x) :
    Full t ↔ PushFits s jobId (getStatus t jobId = .queued) := by
  have hlen : (t.queue.length : Int) = (s.queue.length : Int) + 1 := by
    rw [hq, List.length_append, List.length_singleton]
    rfl
  have hb := h.1
  unfold PushFits
  constructor
  · rintro ⟨hbound, hwait⟩
    rw [hlen] at hbound
    rcases Int.lt_or_eq_of_le hbound with hlt | heq
    · exact Or.inl hlt
    · refine Or.inr ⟨heq, ?_⟩
      obtain ⟨hnodup, hall⟩ := hwait (by unfold AtLimit; omega)
      rw [hq] at hnodup hall
      have hout : jobId ∉ s.queue := fun hmem =>
        List.disjoint_of_nodup_append hnodup hmem (List.mem_singleton_self _)
      refine ⟨hout, ⟨(List.nodup_append.mp hnodup).1, fun x hx => ?_⟩,
        hall jobId (List.mem_append_right _ (List.mem_singleton_self _))⟩
      rw [← hst x fun e => hout (e ▸ hx)]
      exact hall x (List.mem_append_left _ hx)
  · rintro (hlt | ⟨heq, hout, ⟨hnodup, hall⟩, hnew⟩)
    · refine ⟨by omega, fun hfull => ?_⟩
      unfold AtLimit at hfull
      omega
    · refine ⟨by omega, fun _ => ⟨?_, fun x hx => ?_⟩⟩
      · rw [hq]
        exact List.concat_eq_append ▸ List.Nodup.concat hout hnodup
      · rw [hq, List.mem_append, List.mem_singleton] at hx
        rcases hx with hx | rfl
        · rw [hst x fun e => hout (e ▸ hx)]
          exact hall x hx
        · exact hnew

theorem pushFits_congr {jobId : String} {p q : Prop} (h : p ↔ q) :
    PushFits s jobId p ↔ PushFits s jobId q := by
  unfold PushFits
  rw [h]

/-- A call that searches a PAUSED or FAILED job and pushes it. -/
theorem full_pushing_iff (h : Full s) {jobId : String} {st : UploadStatus}
    {change : UploadJob → UploadJob} {message : String}
    (hf : ∀ job, (change job).id = job.id ∧ (change job).status = .queued) (hst : st ≠ .cancelled) :
    Full (updateFirst s jobId (fun job => job.status == st) change true .queued message) ↔
      ((∃ job ∈ s.jobs.elems, job.id = jobId ∧ job.status = st) →
        PushFits s jobId (getStatus s jobId = st ∨ getStatus s jobId = .queued)) := by
  have hget := @updateFirst_getStatus s jobId (· == st) change true .queued message hf
    fun e => absurd (beq_iff_eq.mp e).symm hst
  by_cases hex : ∃ job ∈ s.jobs.elems, job.id = jobId ∧ job.status = st
  · have hq : (updateFirst s jobId (fun job => job.status == st) change true .queued
        message).queue = s.queue ++ [jobId] := by
      unfold updateFirst
      cases hi : s.jobs.elems.findIdx? (fun job => job.id == jobId && job.status == st) with
      | some i => rfl
      | none =>
        obtain ⟨job, hmem, hid, hjob⟩ := hex
        have := List.findIdx?_eq_none_iff.mp hi job hmem
        simp [hid, hjob] at this
    rw [full_push_iff h hq fun x hx => (hget x).trans (if_neg fun hc => hx hc.1),
      hget jobId]
    have hiff : (if jobId = jobId ∧ (getStatus s jobId == st) = true then UploadStatus.queued
        else getStatus s jobId) = .queued ↔ getStatus s jobId = st ∨ getStatus s jobId = .queued := by
      by_cases hs : getStatus s jobId = st
      · rw [if_pos ⟨rfl, beq_iff_eq.mpr hs⟩]
        exact iff_of_true rfl (Or.inl hs)
      · rw [if_neg fun hc => hs (beq_iff_eq.mp hc.2)]
        exact (or_iff_right hs).symm
    rw [pushFits_congr hiff]
    exact ⟨fun hfits _ => hfits, fun hfits => hfits hex⟩
  · have e : updateFirst s jobId (fun job => job.status == st) change true .queued message = s := by
      unfold updateFirst
      cases hi : s.jobs.elems.findIdx? (fun job => job.id == jobId && job.status == st) with
      | none => rfl
      | some i =>
        obtain ⟨job, hjob, hid, hg⟩ := @findIdx?_job _ _ (fun job => job.status == st) _ hi
        exact absurd ⟨job, List.mem_of_getElem? hjob, hid, beq_iff_eq.mp hg⟩ hex
    rw [e]
    exact iff_of_true h fun hc => absurd hc hex

/-- The worker's step. -/
theorem full_worker_iff {e : TusEvent} (hs : workerStep cfg s e = some t) (h : Full s)
    (hF : FirstHeld s.ledger) (hO : HoldOk s.ledger) : Full t ↔ WorkerFits s s.worker := by
  have hreads : ∀ r, s.worker.job = some r → ∃ job, s.jobs.deref r = some job := by
    intro r hr
    obtain ⟨_, ⟨job, hjob, _⟩, _⟩ := hO r (by rw [ledger_hold, WorkerPc.hold_job]; exact hr)
    exact ⟨job, hjob⟩
  -- a store of another status through the reference
  have hstore : ∀ {r : Ref} {job : UploadJob} {f : UploadJob → UploadJob},
      s.worker.job = some r → s.jobs.deref r = some job →
      (f job).id = job.id → (f job).status ≠ .queued → t.queue = s.queue →
      t.jobs = s.jobs.assign r f → (Full t ↔ StoreFits s r) := by
    intro r job f hh hr hid hne hq hj
    rw [full_store_iff (P := s.jobs.Current r) h hq hne fun x => ?_]
    · refine ⟨fun hout hfull hcur j hj => ?_, fun hout hfull hcur => hout hfull hcur job hr⟩
      have e : j = job := Option.some.inj (hj.symm.trans hr)
      rw [e]
      exact hout hfull hcur
    · rw [getStatus_eq, hj]
      exact assign_getStatus hF hh hr hid x
  cases workerStep_turn hs with
  | plain hj hq hw =>
    refine iff_of_true (full_still h hq fun _ x _ => by rw [getStatus_eq, hj, getStatus_eq]) ?_
    unfold WorkerFits
    cases hworker : s.worker with
    | start jobId r => exact absurd hworker (hw.1 jobId r)
    | result r success => exact absurd hworker (hw.2.1 r success)
    | caught r what => exact absurd hworker (hw.2.2 r what)
    | _ => trivial
  | pops jobId hw _ hq _ =>
    refine iff_of_true (full_pop h hq) ?_
    rw [hw]
    trivial
  | starts jobId r hw ht =>
    obtain ⟨job, hr⟩ := hreads r (by rw [hw]; rfl)
    rw [hw]
    exact hstore (by rw [hw]; rfl) hr (f := fun j => { j with status := .uploading }) rfl nofun
      (by rw [ht]) (by rw [ht])
  | catches r what job hw hr ht =>
    rw [hw]
    exact hstore (by rw [hw]; rfl) hr (f := fun j => { j with status := .failed }) rfl nofun
      (by rw [ht]; rfl) (by rw [ht]; rfl)
  | results r success job hw hr ht =>
    have hh : s.worker.job = some r := by rw [hw]; rfl
    have hone : WorkerFits s s.worker ↔ (job.status ≠ .cancelled → job.status ≠ .paused →
        if success = false ∧ job.retryCount + 1 < viralUploadMaxRetry then
          PushFits s job.id (s.jobs.Current r ∨ getStatus s job.id = .queued)
        else StoreFits s r) := by
      rw [hw]
      refine ⟨fun hall => hall job hr, fun hj j hjr => ?_⟩
      have e : j = job := Option.some.inj (hjr.symm.trans hr)
      rw [e]
      exact hj
    rw [hone, ht]
    cases handleResult_cases s r job success with
    | kept hst hj hq =>
      refine iff_of_true (full_still h hq fun _ x _ => by rw [getStatus_eq, hj, getStatus_eq]) ?_
      intro hc hp
      exact (hst.elim hc hp).elim
    | stored f hst hn hf hj hq =>
      have hcase : ¬ (success = false ∧ job.retryCount + 1 < viralUploadMaxRetry) := by
        rintro ⟨rfl, hlt⟩
        exact hn.elim nofun fun hge => hge hlt
      rw [if_neg hcase, ← ht]
      rw [← ht] at hj hq
      rw [hstore hh hr hf.1 hf.2.1 hq hj]
      exact ⟨fun hs _ _ => hs, fun hs => hs hst.1 hst.2⟩
    | requeued f hst hn hf hj hq =>
      have hget := fun x => assign_getStatus hF hh hr hf.1 x
      rw [if_pos hn, full_push_iff h hq fun x hx => by
        rw [getStatus_eq, hj, hget, if_neg fun hc => hx hc.2]]
      have hiff : getStatus (handleResult s r job success) job.id = .queued ↔
          s.jobs.Current r ∨ getStatus s job.id = .queued := by
        rw [getStatus_eq, hj, hget, hf.2]
        by_cases hcur : s.jobs.Current r
        · rw [if_pos ⟨hcur, rfl⟩]
          exact iff_of_true rfl (Or.inl hcur)
        · rw [if_neg fun hc => hcur hc.1]
          exact (or_iff_right hcur).symm
      rw [pushFits_congr hiff]
      exact ⟨fun hs _ _ => hs, fun hs => hs hst.1 hst.2⟩

/-- **One step**: it leaves at most ten entries, all waiting if they are ten, exactly if it
    fits. -/
theorem fits_iff {a : Act} (hs : step cfg s a = some t) (h : Full s) (hF : FirstHeld s.ledger)
    (hO : HoldOk s.ledger) : Full t ↔ Fits s a := by
  unfold step at hs
  split at hs
  · cases hs
  cases a with
  | enqueue jobId f u n d =>
    rw [locked_some hs]
    by_cases hfull : AtLimit s
    · have e : enqueue cfg s jobId f u n d = (s.note "" .failed "Upload queue is full", "") :=
        if_pos hfull
      rw [e]
      exact iff_of_true h fun hroom => absurd hfull hroom
    · have hget : ∀ x, getStatus (enqueue cfg s jobId f u n d).1 x = _ :=
        fun x => enqueue_getStatus hfull x
      have hother : ∀ x, x ≠ jobId →
          getStatus (enqueue cfg s jobId f u n d).1 x = getStatus s x := by
        intro x hx
        rw [hget]
        by_cases hin : x ∈ s.ledger.ids
        · rw [if_pos hin]
        · -- an unknown id is answered with CANCELLED before and behind
          rw [if_neg hin, if_neg fun e => hx e.symm]
          have hnone : s.jobs.elems.find? (fun job => job.id == x) = none := by
            rw [List.find?_eq_none]
            exact fun j hj hid => hin (List.mem_map.mpr ⟨j, hj, by simpa using hid⟩)
          unfold getStatus
          rw [hnone]
      rw [full_push_iff h (by rw [enqueue_of_room hfull]; rfl) hother, hget, if_pos rfl]
      have hiff : (if jobId ∈ s.ledger.ids then getStatus s jobId else .queued) = .queued ↔
          (jobId ∈ s.ledger.ids → getStatus s jobId = .queued) := by
        by_cases hin : jobId ∈ s.ledger.ids
        · rw [if_pos hin]
          exact ⟨fun hq _ => hq, fun hq => hq hin⟩
        · rw [if_neg hin]
          exact iff_of_true rfl fun hc => absurd hc hin
      rw [pushFits_congr hiff]
      exact ⟨fun hfits _ => hfits, fun hfits => hfits hfull⟩
  | pause jobId =>
    rw [locked_some hs]
    refine iff_of_true (full_still h ?_ fun hfull x hx => ?_) trivial
    · unfold pause updateFirst
      split <;> rfl
    · have hwait := (h.2 hfull).2 x hx
      refine (pause_getStatus s jobId x).trans (if_neg ?_)
      rintro ⟨rfl, hg⟩
      rw [hwait] at hg
      cases hg
  | resume jobId =>
    rw [locked_some hs]
    exact full_pushing_iff h (fun _ => ⟨rfl, rfl⟩) nofun
  | retry jobId =>
    rw [locked_some hs]
    exact full_pushing_iff h (fun _ => ⟨rfl, rfl⟩) nofun
  | cancel jobId =>
    rw [locked_some hs]
    have hq : (cancel s jobId).queue = s.queue := by
      unfold cancel updateFirst
      split <;> rfl
    rw [full_store_iff (P := True) h hq (by decide : UploadStatus.cancelled ≠ .queued) fun x => by
      simpa only [true_and] using cancel_getStatus s jobId x]
    exact forall_congr' fun _ => ⟨fun hout => hout trivial, fun hout _ => hout⟩
  | setAuthToken token => rw [locked_some hs]; exact iff_of_true h trivial
  | pauseAll | resumeAll | destroy => cases hs; exact iff_of_true h trivial
  | worker e => exact full_worker_iff hs h hF hO
  | poller =>
    obtain ⟨hq, hget⟩ := poller_getStatus hs hF hO
    exact iff_of_true (full_still h hq fun _ x _ => hget x) trivial

end Step

/-! ## 4. Runs -/

/-- **The queue's capacity is exact at every step of a run if and only if every step fits.** -/
theorem capacity_iff {cfg : Cfg} {as : List Act} {s : State}
    (hrun : (engine cfg).exec State.init as = some s) :
    (engine cfg).meets (fun s a => ∀ t, step cfg s a = some t → CapacityExact cfg t)
        State.init as ↔
      (engine cfg).meets Fits State.init as := by
  refine Machine.meets_after_run (I := fun s => Full s ∧ FirstHeld s.ledger ∧ HoldOk s.ledger)
    (P := CapacityExact cfg) ?_ ?_ ⟨⟨by decide, ?_⟩, nofun, nofun⟩ hrun
  · intro s a t hI hs
    rw [capacityExact_iff]
    exact fits_iff hs hI.1 hI.2.1 hI.2.2
  · intro s a t hI hc hs
    have he := step_effect hs
    exact ⟨(fits_iff hs hI.1 hI.2.1 hI.2.2).mpr hc, effect_firstHeld he hI.2.1,
      effect_holdOk he hI.2.2⟩
  · intro hfull
    exact absurd hfull (by decide)

/-- The calls that enqueue the files of these ids. -/
def enqueueAll (ids : List String) : List Act :=
  ids.map fun jobId => .enqueue jobId "/a.mp4" "https://up/" "" ""

/-- As many as the queue takes. -/
def tenIds : List String := ["a", "b", "c", "d", "e", "f", "g", "h", "i", "j"]

/-- Ten jobs fill the queue. -/
theorem capacity_tenJobs : ∃ s, (engine defaultCfg).exec State.init (enqueueAll tenIds) = some s ∧
    s.queue = tenIds ∧ (engine defaultCfg).meets
      (fun s a => ∀ t, step defaultCfg s a = some t → CapacityExact defaultCfg t)
      State.init (enqueueAll tenIds) := by
  have h : ((engine defaultCfg).exec State.init (enqueueAll tenIds)).map (·.queue) =
      some tenIds := by
    decide
  obtain ⟨s, hs, hq⟩ := Option.map_eq_some_iff.mp h
  have hfits : (engine defaultCfg).meets Fits State.init (enqueueAll tenIds) := by decide
  exact ⟨s, hs, hq, (capacity_iff hs).mpr hfits⟩

/-- **A job of the full queue is cancelled**: its entry stays, `enqueue` turns a file away although
    only nine QUEUED jobs wait. -/
theorem capacity_cancelledFull : ∃ s, (engine defaultCfg).Reach Machine.Any s ∧
    (queuedWaiting s).length = 9 ∧ (enqueue defaultCfg s "k" "/k.mp4" "https://up/" "" "").2 = "" ∧
    ¬ CapacityExact defaultCfg s := by
  have h : ((engine defaultCfg).exec State.init (enqueueAll tenIds ++ [.cancel "a"])).map
      (fun s => (s.queue, (queuedWaiting s).length)) = some (tenIds, 9) := by
    decide
  obtain ⟨s, hs, hobs⟩ := Option.map_eq_some_iff.mp h
  obtain ⟨hq, hn⟩ := Prod.mk.inj hobs
  have hfull : AtLimit s := by
    unfold AtLimit
    rw [hq]
    decide
  refine ⟨s, Machine.steps_of_exec hs (Machine.meets_any _ _), hn,
    rejects_iff.mpr hfull "k" "/k.mp4" "https://up/" "" "", fun hexact => ?_⟩
  have hten := hexact.exact.mp (rejects_iff.mpr hfull)
  rw [hn] at hten
  exact absurd hten (by decide)

end Viral.Upload
