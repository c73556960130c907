/-
  File:      ViralEngine/Upload/PauseAll.lean
  Subject:   PAUSING THE ENGINE: what the worker may still start behind `pauseAll`.

  `m_paused` is tested at the top of the loop and nowhere else; the test of the queue, the pop, the
  lookup, the test for CANCELLED and the store of UPLOADING come behind it.

  * `Enters` -- the step in which `processJob` stores UPLOADING; `enters_of_uploading`: no other
    step makes a record UPLOADING;
  * `MayStart` -- the worker is past its test of `m_paused` with a job it will start, or with none
    yet;
  * `safe_step` -- where it is not, every step but `resumeAll` keeps it so;
  * `goes_of_mayStart` -- where it is, the worker's own steps (and, for an empty queue, one
    `enqueue`) lead to the store;
  * `pauseAll_iff` -- so `pauseAll` stops new uploads exactly where it is not;
    `pauseAll_pastTheTest` -- one call in front of which it was.
-/
import ViralEngine.Upload.Interrupt
import ViralEngine.Upload.Service
import Mathlib.Data.Fintype.EquivFin

namespace Viral.Upload

open Viral.Lib

/-! ## 1. Entering UPLOADING -/

/-- `processJob` stores UPLOADING in the record of its job. -/
def Enters (s : State) (a : Act) (t : State) : Prop :=
  (∃ e, a = .worker e) ∧ ∃ jobId r job, s.worker = .start jobId r ∧ t.worker = .notify r ∧
    t.jobs.deref r = some job ∧ job.status = .uploading

/-- `resumeAll` is not called. -/
def NoResumeAll (_ : State) (a : Act) : Prop := a ≠ .resumeAll

instance (s : State) (a : Act) : Decidable (NoResumeAll s a) := inferInstanceAs (Decidable (_ ≠ _))

/-- From `pauseAll` on, as long as `resumeAll` is not called, no job enters UPLOADING. -/
def PauseAllHolds (cfg : Cfg) (s : State) : Prop :=
  ∀ t, step cfg s .pauseAll = some t → ∀ u a v, (engine cfg).Steps NoResumeAll t u →
    NoResumeAll u a → step cfg u a = some v → ¬ Enters u a v

/-- The worker is past its test of `m_paused`: it will start the job it has or takes next, or it
    has found none yet and a new one may come. -/
def MayStart (s : State) : Prop :=
  match s.worker with
  | .testEmpty | .pop =>
    match s.queue with
    | [] => True
    | jobId :: _ => getStatus s jobId ≠ .cancelled
  | .find jobId => getStatus s jobId ≠ .cancelled
  | .check _ r => ∀ job ∈ s.jobs.deref r, job.status ≠ .cancelled
  | .start _ _ => True
  | _ => False

section Enters

variable {cfg : Cfg} {s t : State} {a : Act}

theorem starting_of_cleared {w : WorkerPc} {jobId : String} {r : Ref}
    (h : w.hold = .cleared jobId r) : w = .start jobId r := by
  cases w <;> cases h
  rfl

/-- A change of a record that does not make it UPLOADING. -/
theorem status_of_map {o : Option UploadJob} {f : UploadJob → UploadJob} {job job' : UploadJob}
    (ho : o = some job) (h : o.map f = some job') : job' = f job := by
  subst ho
  exact (Option.some.inj h).symm

/-- What a change through the vector leaves a reference to read. -/
theorem deref_modifyAt_or {v : RefVector UploadJob} {i : Nat} {f : UploadJob → UploadJob} {r : Ref}
    {job job' : UploadJob} (hr : v.deref r = some job) (h : (v.modifyAt i f).deref r = some job') :
    job' = job ∨ job' = f job := by
  rw [RefVector.deref_modifyAt] at h
  split at h
  · exact Or.inr (status_of_map hr h)
  · exact Or.inl (Option.some.inj (h.symm.trans hr))

theorem deref_assign_or {v : RefVector UploadJob} {q : Ref} {f : UploadJob → UploadJob} {r : Ref}
    {job job' : UploadJob} (hr : v.deref r = some job) (h : (v.assign q f).deref r = some job') :
    job' = job ∨ q = r ∧ job' = f job := by
  by_cases hq : q = r
  · subst hq
    rw [RefVector.deref_assign] at h
    exact Or.inr ⟨rfl, status_of_map hr h⟩
  · rw [RefVector.deref_assign_ne v f hq] at h
    exact Or.inl (Option.some.inj (h.symm.trans hr))

/-- **A record becomes UPLOADING in no other step**, whichever buffer it is read from. -/
theorem enters_of_uploading (hs : step cfg s a = some t) {r : Ref} {job job' : UploadJob}
    (hr : s.jobs.deref r = some job) (hst : job.status ≠ .uploading)
    (hr' : t.jobs.deref r = some job') (hst' : job'.status = .uploading) : Enters s a t := by
  have he := step_effect hs
  generalize hL : s.ledger = L at he
  generalize hL' : t.ledger = L' at he
  have hj : s.jobs = L.jobs := by rw [← hL]; rfl
  have hj' : t.jobs = L'.jobs := by rw [← hL']; rfl
  rw [hj] at hr
  rw [hj'] at hr'
  have hsame : ∀ {j : UploadJob}, j = job → j.status = .uploading → False := by
    intro j e hu
    subst e
    exact hst hu
  cases he with
  | quiet | pop | lose | find | skip | clear | keep | terminate =>
    exact (hsame (Option.some.inj (hr'.symm.trans hr)) hst').elim
  | enqueue =>
    exact (hsame (Option.some.inj (hr'.symm.trans (RefVector.deref_pushBack hr))) hst').elim
  | pause | resume | cancel | retry =>
    rcases deref_modifyAt_or hr hr' with e | e
    · exact (hsame e hst').elim
    · rw [e] at hst'
      cases hst'
  | progress =>
    rcases deref_assign_or hr hr' with e | ⟨_, e⟩
    · exact (hsame e hst').elim
    · rw [e] at hst'
      exact absurd hst' hst
  | complete | requeue | fail | caught =>
    rcases deref_assign_or hr hr' with e | ⟨_, e⟩
    · exact (hsame e hst').elim
    · rw [e] at hst'
      cases hst'
  | start e jobId q hh =>
    rcases deref_assign_or hr hr' with e' | ⟨rfl, _⟩
    · exact (hsame e' hst').elim
    · have hw : s.worker = .start jobId q := starting_of_cleared (by rw [← hh, ← hL]; rfl)
      refine ⟨⟨e, rfl⟩, jobId, q, job', hw, ?_, by rw [hj']; exact hr', hst'⟩
      have hstep := step_worker hs
      unfold workerStep at hstep
      simp only [hw] at hstep
      split at hstep <;> cases hstep
      rfl

end Enters

/-! ## 2. What holds in every run -/

/-- There is a poller only beside an attempt. -/
def Alone (s : State) : Prop := s.worker.attempt = none → s.poller = .none

theorem step_alone {cfg : Cfg} {s t : State} {a : Act} (hs : step cfg s a = some t)
    (h : Alone s) : Alone t := by
  by_cases hw : ∃ e, a = .worker e
  · obtain ⟨e, rfl⟩ := hw
    intro hno
    cases workerStep_do (step_worker hs) with
    | spawns r _ hw' _ _ _ => rw [hw'] at hno; cases hno
    | moves r pc pc' _ _ hw' _ _ _ => rw [hw'] at hno; cases hno
    | leaves r pc success _ _ hw' _ => rw [hw'] at hno; cases hno
    | waits _ hw' => exact absurd hno (WorkerPc.attempt_of_returning hw')
    | outside _ hp _ =>
      rcases hp with hp | ⟨hnone, hp⟩
      · exact hp
      · exact hp.trans (h hnone)
  · have hw : ∀ e, a ≠ .worker e := fun e he => hw ⟨e, he⟩
    intro hno
    by_cases hp : a = .poller
    · subst hp
      obtain ⟨ew, hne, _⟩ := pollerStep_frame (step_poller hs)
      rw [ew] at hno
      exact absurd (h hno) hne
    · obtain ⟨⟨ew, ep, _⟩, _⟩ := client_frame hs hw hp
      rw [ew] at hno
      exact ep.trans (h hno)

/-- The books of the queue and the hold, in every run of the engine. -/
def Bookkept (s : State) : Prop := ∃ h : Service, Lined s.ledger h ∧ HoldOk s.ledger

theorem step_bookkept {cfg : Cfg} {s t : State} {a : Act} (hs : step cfg s a = some t)
    (h : Bookkept s) : Bookkept t := by
  obtain ⟨g, hL, hO⟩ := h
  have hstep : (served cfg).step (s, g) a = some (t, g.next s.ledger t.ledger) := by
    show (step cfg s a).map _ = _
    rw [hs]
    rfl
  exact ⟨_, (served_step hstep ⟨hL, hO⟩).1⟩

theorem bookkept_init : Bookkept State.init :=
  ⟨⟨[], [], []⟩, ⟨rfl, nofun, nofun, nofun, nofun, Nat.le_refl 0⟩, nofun⟩

theorem reach_bookkept {cfg : Cfg} {C : State → Act → Prop} {s : State}
    (h : (engine cfg).Reach C s) : Bookkept s :=
  Machine.Steps.invariant (I := Bookkept) h bookkept_init
    fun _ _ _ hu _ hs => step_bookkept hs hu

theorem reach_alone {cfg : Cfg} {C : State → Act → Prop} {s : State}
    (h : (engine cfg).Reach C s) : Alone s :=
  Machine.Steps.invariant (I := Alone) h (fun _ => rfl) fun _ _ _ hu _ hs => step_alone hs hu

theorem Alone.free {s : State} (h : Alone s) (hw : s.worker.attempt = none) :
    s.mutexFree = true := by
  unfold State.mutexFree
  rw [h hw]

/-! ## 3. Where nothing is started -/

section Safe

variable {cfg : Cfg} {s t : State} {a : Act}

/-- Only `resumeAll` takes the pause back. -/
theorem step_paused (hs : step cfg s a = some t) (ha : a ≠ .resumeAll) (hp : s.paused = true) :
    t.paused = true := by
  have hfirst : ∀ jobId guard change push status message,
      (updateFirst s jobId guard change push status message).paused = true := by
    intro jobId guard change push status message
    unfold updateFirst
    split <;> exact hp
  have hcall := hs
  unfold step at hcall
  split at hcall
  · cases hcall
  cases a with
  | enqueue jobId f u n d =>
    rw [locked_some hcall]
    unfold enqueue
    split <;> exact hp
  | pause jobId | resume jobId | cancel jobId | retry jobId =>
    rw [locked_some hcall]
    exact hfirst _ _ _ _ _ _
  | setAuthToken token => rw [locked_some hcall]; exact hp
  | pauseAll | destroy => cases hcall; first | rfl | exact hp
  | resumeAll => exact absurd rfl ha
  | worker e =>
    cases workerStep_move hcall with
    | result r success job =>
      unfold handleResult
      dsimp only
      repeat' split
      all_goals exact hp
    | _ => exact hp
  | poller => cases pollerStep_move hcall <;> exact hp

/-- A CANCELLED record is left CANCELLED by the clients, through every reference. -/
theorem client_cancelled {cfg : Cfg} {c : Option Ref} {L L' : Ledger} {a : Act} {r : Ref}
    {job : UploadJob} (he : Effect cfg c L a L') (hw : ∀ e, a ≠ .worker e) (hp : a ≠ .poller)
    (hr : L.jobs.deref r = some job) (hst : job.status = .cancelled) :
    ∃ job', L'.jobs.deref r = some job' ∧ job'.status = .cancelled := by
  cases he with
  | quiet => exact ⟨job, hr, hst⟩
  | enqueue => exact ⟨job, RefVector.deref_pushBack hr, hst⟩
  | pause i old hi hst' | resume i old hi hst' | retry i old hi hst' =>
    rw [RefVector.deref_modifyAt]
    split
    · -- the changed record was not CANCELLED
      rename_i hc
      rw [RefVector.deref_of_current hc.1, ← hc.2, hi] at hr
      cases hr
      rw [hst] at hst'
      cases hst'
    · exact ⟨job, hr, hst⟩
  | cancel i old hi =>
    rw [RefVector.deref_modifyAt, hr]
    split
    · exact ⟨_, rfl, rfl⟩
    · exact ⟨job, rfl, hst⟩
  | progress => exact absurd rfl hp
  | pop e | lose e | find e | skip e | clear e | start e | keep e | complete e | requeue e | fail e
  | caught e | terminate e => exact absurd rfl (hw e)

/-- The first record of a known id. -/
theorem exists_first {L : Ledger} {jobId : String} (h : jobId ∈ L.ids) :
    ∃ (i : Nat) (job : UploadJob), L.jobs.elems[i]? = some job ∧
      L.ids[i]? = some jobId ∧ ∀ k < i, L.ids[k]? ≠ some jobId := by
  obtain ⟨job, hfind⟩ : ∃ job, L.jobs.elems.find? (fun j => j.id == jobId) = some job := by
    obtain ⟨job, hjob, hid⟩ := List.mem_map.mp h
    exact Option.isSome_iff_exists.mp (List.find?_isSome.mpr ⟨job, hjob, by simpa using hid⟩)
  obtain ⟨hid, i, hi, hget, hmin⟩ := List.find?_eq_some_iff_getElem.mp hfind
  refine ⟨i, job, (List.getElem?_eq_getElem hi).trans (congrArg some hget), ?_, fun k hk => ?_⟩
  · unfold Ledger.ids
    rw [List.getElem?_map, List.getElem?_eq_getElem hi, hget]
    simpa using hid
  · unfold Ledger.ids
    rw [List.getElem?_map, List.getElem?_eq_getElem (Nat.lt_trans hk hi)]
    simpa using hmin k hk

/-- The answer CANCELLED for a known id stays, as far as the clients go. -/
theorem client_statusOf {cfg : Cfg} {c : Option Ref} {L L' : Ledger} {a : Act} {jobId : String}
    (he : Effect cfg c L a L') (hw : ∀ e, a ≠ .worker e) (hp : a ≠ .poller) (hin : jobId ∈ L.ids)
    (hst : L.statusOf jobId = .cancelled) : L'.statusOf jobId = .cancelled := by
  obtain ⟨i, job, hi, hfirst⟩ := exists_first hin
  have hjob : job.status = .cancelled := (statusOf_first hfirst hi).symm.trans hst
  have hfirst' : L'.ids[i]? = some jobId ∧ ∀ k < i, L'.ids[k]? ≠ some jobId := by
    rcases effect_ids he with e | ⟨x, _, _, _, _, _, e⟩
    · rw [e]
      exact hfirst
    · rw [e]
      exact first_append hfirst
  have hrow : ∃ job', L'.jobs.elems[i]? = some job' ∧ job'.status = .cancelled := by
    by_cases hcur : L'.jobs.Current (L.jobs.refAt i)
    · obtain ⟨job', hr', hst'⟩ := client_cancelled he hw hp
        ((RefVector.deref_of_current (RefVector.current_refAt L.jobs i)).trans hi) hjob
      exact ⟨job', (RefVector.deref_of_current hcur).symm.trans hr', hst'⟩
    · -- only an append gives the buffer up, and it copies the record
      cases he with
      | enqueue =>
        refine ⟨job, ?_, hjob⟩
        rw [RefVector.elems_pushBack,
          List.getElem?_append_left (List.getElem?_eq_some_iff.mp hi).1]
        exact hi
      | quiet | pause | resume | cancel | retry => exact absurd rfl hcur
      | progress => exact absurd rfl hp
      | pop e | lose e | find e | skip e | clear e | start e | keep e | complete e | requeue e
      | fail e | caught e | terminate e => exact absurd rfl (hw e)
  obtain ⟨job', hi', hst'⟩ := hrow
  exact (statusOf_first hfirst' hi').trans hst'

/-- The clients append to the queue at most. -/
theorem client_queue {cfg : Cfg} {c : Option Ref} {L L' : Ledger} {a : Act}
    (he : Effect cfg c L a L') (hw : ∀ e, a ≠ .worker e) : L.queue <+: L'.queue := by
  cases he with
  | quiet | pause | cancel | progress => exact List.prefix_rfl
  | enqueue | resume | retry => exact List.prefix_append _ _
  | pop e | lose e | find e | skip e | clear e | start e | keep e | complete e | requeue e | fail e
  | caught e | terminate e => exact absurd rfl (hw e)

/-- **A client's call leaves the worker in front of nothing to start.** -/
theorem client_safe (hs : step cfg s a = some t) (hw : ∀ e, a ≠ .worker e) (hp : a ≠ .poller)
    (hB : Bookkept s) (hn : ¬ MayStart s) : ¬ MayStart t := by
  obtain ⟨h, hL, hO⟩ := hB
  obtain ⟨⟨ew, _⟩, _⟩ := client_frame hs hw hp
  have he := step_effect hs
  have hknown := hL.known
  have hstays : ∀ jobId, jobId ∈ s.ledger.hold.waiting ++ s.ledger.queue →
      getStatus s jobId = .cancelled → getStatus t jobId = .cancelled :=
    fun jobId hin hc => client_statusOf he hw hp (hknown jobId hin) hc
  unfold MayStart at hn ⊢
  rw [ew]
  cases hworker : s.worker with
  | testEmpty | pop =>
    simp only [hworker] at hn
    cases hq : s.queue with
    | nil => simp [hq] at hn
    | cons jobId queue =>
      simp only [hq] at hn
      have hin : jobId ∈ s.ledger.queue := by
        rw [ledger_queue, hq]
        exact List.mem_cons_self
      have hc := hstays jobId (List.mem_append_right _ hin) (Classical.not_not.mp hn)
      obtain ⟨rest, hrest⟩ := client_queue he hw
      have hq' : t.queue = jobId :: (queue ++ rest) := by
        rw [← ledger_queue t, ← hrest, ledger_queue, hq]
        rfl
      simp only [hq']
      exact Classical.not_not.mpr hc
  | find jobId =>
    simp only [hworker] at hn
    have hin : jobId ∈ s.ledger.hold.waiting ++ s.ledger.queue := by
      rw [ledger_hold, hworker]
      exact List.mem_cons_self
    exact Classical.not_not.mpr (hstays jobId hin (Classical.not_not.mp hn))
  | check jobId r =>
    simp only [hworker] at hn
    obtain ⟨_, ⟨job, hr, _⟩, _⟩ := hO r (by rw [ledger_hold, hworker]; rfl)
    have hst : job.status = .cancelled := by
      refine Classical.not_not.mp fun hne => hn fun j hj => ?_
      have e : j = job := Option.some.inj (hj.symm.trans hr)
      exact e ▸ hne
    obtain ⟨job', hr', hst'⟩ := client_cancelled he hw hp hr hst
    exact fun hall => hall job' hr' hst'
  | start => simp [hworker] at hn
  | head | testPaused | notify | construct | spawn | upload | returned | join | result | caught
  | finished | terminated => exact id

/-- What a lookup finds first is what `getStatus` answers for. -/
theorem getStatus_of_findIdx {jobId : String} {i : Nat} {job : UploadJob}
    (hf : s.jobs.elems.findIdx? (fun j => j.id == jobId) = some i)
    (hi : s.jobs.elems[i]? = some job) : getStatus s jobId = job.status := by
  obtain ⟨hlt, hp, hmin⟩ := List.findIdx?_eq_some_iff_getElem.mp hf
  have hjob : s.jobs.elems[i] = job := (List.getElem?_eq_some_iff.mp hi).2
  have hfind : s.jobs.elems.find? (fun j => j.id == jobId) = some job :=
    List.find?_eq_some_iff_getElem.mpr
      ⟨hjob ▸ hp, i, hlt, hjob, fun k hk => by simpa using hmin k hk⟩
  unfold getStatus
  rw [hfind]

/-- Past the test of `m_paused` and in front of the store of UPLOADING. -/
def WorkerPc.past : WorkerPc → Bool
  | .testEmpty | .pop | .find _ | .check _ _ | .start _ _ => true
  | _ => false

theorem past_of_mayStart (h : MayStart s) : s.worker.past = true := by
  unfold MayStart at h
  cases hw : s.worker <;> first | rfl | (simp only [hw] at h)

/-- From any other place the paused worker does not get past its test. -/
theorem worker_past {e : TusEvent} (hs : workerStep cfg s e = some t) (hp : s.paused = true)
    (hn : s.worker.past = false) : t.worker.past = false := by
  cases workerStep_move hs with
  | head => dsimp only; split <;> rfl
  | testPaused => rw [hp]; rfl
  | result r success job => rw [(handleResult_frame s r job success).1]; rfl
  | testEmpty hw | popNone hw | pop _ _ hw | lose _ hw | find _ _ hw | skip _ _ _ hw
  | clear _ _ _ hw | start _ _ hw =>
    rw [hw] at hn
    cases hn
  | notify | noClient | construct | noThread | spawn | upload | uploaded | terminate | unwind
  | returned | join | caught => rfl

/-- **A step of the paused worker leads it to nothing to start.** -/
theorem worker_safe {e : TusEvent} (hs : workerStep cfg s e = some t) (hpaused : s.paused = true)
    (hn : ¬ MayStart s) : ¬ MayStart t := by
  have hout : t.worker.past = false → ¬ MayStart t := by
    intro hw hm
    rw [past_of_mayStart hm] at hw
    cases hw
  by_cases hpast : s.worker.past = false
  · exact hout (worker_past hs hpaused hpast)
  unfold MayStart at hn
  cases workerStep_move hs with
  | testEmpty hw =>
    simp only [hw] at hn
    cases hq : s.queue with
    | nil => simp [hq] at hn
    | cons jobId queue =>
      simp only [hq] at hn
      unfold MayStart
      simp only [List.isEmpty_cons, Bool.false_eq_true, if_false]
      exact hn
  | popNone hw hq => simp [hw, hq] at hn
  | pop jobId queue hw hq =>
    simp only [hw, hq] at hn
    exact hn
  | find jobId i hw hf =>
    -- the record found is the one `getStatus` answers for
    simp only [hw] at hn
    obtain ⟨hlt, _⟩ := List.findIdx?_eq_some_iff_getElem.mp hf
    have hi := List.getElem?_eq_getElem hlt
    have hst : s.jobs.elems[i].status = .cancelled :=
      (getStatus_of_findIdx hf hi).symm.trans (Classical.not_not.mp hn)
    have hr : s.jobs.deref (s.jobs.refAt i) = some s.jobs.elems[i] :=
      (RefVector.deref_of_current (RefVector.current_refAt _ _)).trans hi
    exact fun hall => hall _ hr hst
  | clear jobId r job hw hr hst =>
    simp only [hw] at hn
    refine absurd (fun j hj => ?_) hn
    have e : j = job := Option.some.inj (hj.symm.trans hr)
    exact e ▸ hst
  | lose | skip => exact hout rfl
  | start jobId r hw => simp [hw] at hn
  | head hw | testPaused hw | notify _ _ hw | noClient _ _ hw | construct _ hw | noThread _ _ hw
  | spawn _ hw | upload _ _ _ _ hw | uploaded _ _ _ _ hw | terminate _ _ _ _ hw
  | unwind _ _ _ _ hw | returned _ _ hw | join _ _ hw | result _ _ _ hw | caught _ _ _ hw =>
    exact absurd (by rw [hw]; rfl) hpast

/-- **Every step but `resumeAll` keeps a paused engine from starting anything.** -/
theorem safe_step (hs : step cfg s a = some t) (ha : a ≠ .resumeAll) (hB : Bookkept s)
    (hA : Alone s) (hp : s.paused = true) (hn : ¬ MayStart s) :
    t.paused = true ∧ ¬ MayStart t := by
  refine ⟨step_paused hs ha hp, ?_⟩
  by_cases hw : ∃ e, a = .worker e
  · obtain ⟨e, rfl⟩ := hw
    exact worker_safe (step_worker hs) hp hn
  by_cases hpoll : a = .poller
  · -- the poller runs beside an attempt only, which is behind the store
    subst hpoll
    obtain ⟨ew, hne, _⟩ := pollerStep_frame (step_poller hs)
    intro hm
    have hpast := past_of_mayStart hm
    rw [ew] at hpast
    refine hne (hA ?_)
    cases hw' : s.worker <;> first | rfl | (rw [hw'] at hpast; cases hpast)
  · exact client_safe hs (fun e he => hw ⟨e, he⟩) hpoll hB hn

end Safe

/-! ## 4. Where something is started -/

/-- Some continuation without `resumeAll` stores UPLOADING. -/
def Goes (cfg : Cfg) (s : State) : Prop :=
  ∃ u a v, (engine cfg).Steps NoResumeAll s u ∧ NoResumeAll u a ∧ step cfg u a = some v ∧
    Enters u a v

section Goes

variable {cfg : Cfg} {s t : State} {a : Act}

theorem Goes.step (hs : step cfg s a = some t) (ha : a ≠ .resumeAll) (h : Goes cfg t) :
    Goes cfg s := by
  obtain ⟨u, b, v, hsteps, hb, hv, hin⟩ := h
  exact ⟨u, b, v, Machine.Steps.trans (.step s t a .start ha hs) hsteps, hb, hv, hin⟩

/-- The worker's turn. -/
theorem Goes.worker (hs : workerStep cfg s .go = some t) (hw : s.worker ≠ .terminated)
    (h : Goes cfg t) : Goes cfg s := by
  refine h.step (a := .worker .go) ?_ nofun
  unfold Upload.step
  rw [if_neg hw]
  exact hs

theorem goes_start {jobId : String} {r : Ref} {job : UploadJob} (hw : s.worker = .start jobId r)
    (hfree : s.mutexFree = true) (hr : s.jobs.deref r = some job) : Goes cfg s := by
  have hs : step cfg s (.worker .go) = some { s with
      worker := .notify r
      jobs := s.jobs.assign r fun j => { j with status := .uploading } } := by
    unfold Upload.step workerStep
    rw [if_neg (by rw [hw]; nofun)]
    simp only [hw, hfree, if_true]
  refine ⟨s, .worker .go, _, .start, nofun, hs, ⟨.go, rfl⟩, jobId, r,
    { job with status := .uploading }, hw, rfl, ?_, rfl⟩
  show (s.jobs.assign r _).deref r = _
  rw [RefVector.deref_assign, hr]
  rfl

theorem goes_check {jobId : String} {r : Ref} {job : UploadJob} (hw : s.worker = .check jobId r)
    (hfree : s.mutexFree = true) (hr : s.jobs.deref r = some job)
    (hst : job.status ≠ .cancelled) : Goes cfg s := by
  have hs : workerStep cfg s .go = some { s with worker := .start jobId r } := by
    unfold workerStep
    simp only [hw, hr]
    exact if_neg hst
  refine Goes.worker hs (by rw [hw]; nofun) ?_
  exact goes_start rfl hfree hr

theorem goes_find {jobId : String} (hw : s.worker = .find jobId) (hfree : s.mutexFree = true)
    (hst : getStatus s jobId ≠ .cancelled) : Goes cfg s := by
  cases hf : s.jobs.elems.findIdx? (fun j => j.id == jobId) with
  | none =>
    -- an unknown id is answered with CANCELLED
    refine absurd ?_ hst
    have hfind : s.jobs.elems.find? (fun j => j.id == jobId) = none := by
      rw [List.find?_eq_none]
      exact fun j hj => by simpa using List.findIdx?_eq_none_iff.mp hf j hj
    unfold getStatus
    rw [hfind]
  | some i =>
    obtain ⟨hlt, _⟩ := List.findIdx?_eq_some_iff_getElem.mp hf
    have hi := List.getElem?_eq_getElem hlt
    have hs : workerStep cfg s .go = some { s with worker := .check jobId (s.jobs.refAt i) } := by
      unfold workerStep
      simp only [hw, hfree, if_true, hf]
    have hr : s.jobs.deref (s.jobs.refAt i) = some s.jobs.elems[i] :=
      (RefVector.deref_of_current (RefVector.current_refAt _ _)).trans hi
    refine Goes.worker hs (by rw [hw]; nofun) ?_
    refine goes_check rfl hfree hr ?_
    rw [← getStatus_of_findIdx hf hi]
    exact hst

theorem goes_pop {jobId : String} {queue : List String} (hw : s.worker = .pop)
    (hfree : s.mutexFree = true) (hq : s.queue = jobId :: queue)
    (hst : getStatus s jobId ≠ .cancelled) : Goes cfg s := by
  have hs : workerStep cfg s .go = some { s with worker := .find jobId, queue := queue } := by
    unfold workerStep
    simp only [hw, hfree, if_true, hq]
  refine Goes.worker hs (by rw [hw]; nofun) ?_
  exact goes_find rfl hfree hst

theorem goes_testEmpty {jobId : String} {queue : List String} (hw : s.worker = .testEmpty)
    (hfree : s.mutexFree = true) (hq : s.queue = jobId :: queue)
    (hst : getStatus s jobId ≠ .cancelled) : Goes cfg s := by
  have hs : workerStep cfg s .go = some { s with worker := .pop } := by
    unfold workerStep
    simp only [hw, hq, List.isEmpty_cons, Bool.false_eq_true, if_false]
  refine Goes.worker hs (by rw [hw]; nofun) ?_
  exact goes_pop rfl hfree hq hst

/-- **From wherever the worker may start a job, it can**: by its own steps, behind an `enqueue`
    where the queue is empty. -/
theorem goes_of_mayStart (hB : Bookkept s) (hA : Alone s) (hm : MayStart s) : Goes cfg s := by
  have hpast := past_of_mayStart hm
  have hfree : s.mutexFree = true := by
    refine hA.free ?_
    cases hw : s.worker <;> first | rfl | (rw [hw] at hpast; cases hpast)
  obtain ⟨h, _, hO⟩ := hB
  -- an empty queue: a client enqueues a new job first
  have hnew : s.queue = [] → s.worker = .testEmpty ∨ s.worker = .pop → Goes cfg s := by
    intro hq hw
    obtain ⟨jobId, hfresh⟩ := Infinite.exists_notMem_finset s.ledger.ids.toFinset
    have hfind : s.jobs.elems.find? (fun j => j.id == jobId) = none := by
      rw [List.find?_eq_none]
      intro j hj hid
      refine hfresh (List.mem_toFinset.mpr (List.mem_map.mpr ⟨j, hj, ?_⟩))
      simpa using hid
    have hs : step cfg s (.enqueue jobId "" "" "" "") =
        some (enqueue cfg s jobId "" "" "" "").1 := by
      unfold Upload.step
      have hrunning : ¬ s.worker = .terminated := by
        rcases hw with e | e <;> rw [e] <;> intro h <;> cases h
      rw [if_neg hrunning]
      exact if_pos hfree
    have hcall : (enqueue cfg s jobId "" "" "" "").1 = ({ s with
        jobs := s.jobs.pushBack cfg.grow (newJob jobId "" "" "" "")
        queue := [jobId] } : State).note jobId .queued "" := by
      unfold enqueue
      rw [hq]
      rfl
    have hnewest : (enqueue cfg s jobId "" "" "" "").1.jobs.elems.find? (fun j => j.id == jobId) =
        some (newJob jobId "" "" "" "") := by
      rw [hcall]
      show (s.jobs.pushBack _ _).elems.find? _ = _
      rw [RefVector.elems_pushBack, List.find?_append, hfind]
      simp [newJob]
    have hst : getStatus (enqueue cfg s jobId "" "" "" "").1 jobId ≠ .cancelled := by
      unfold getStatus
      rw [hnewest]
      simp [newJob]
    refine Goes.step hs (fun e => by cases e) ?_
    rw [hcall] at hst ⊢
    rcases hw with e | e
    · exact goes_testEmpty e hfree rfl hst
    · exact goes_pop e hfree rfl hst
  unfold MayStart at hm
  cases hw : s.worker with
  | testEmpty | pop =>
    simp only [hw] at hm
    cases hq : s.queue with
    | nil => exact hnew hq (by rw [hw]; first | exact Or.inl rfl | exact Or.inr rfl)
    | cons jobId queue =>
      simp only [hq] at hm
      first | exact goes_testEmpty hw hfree hq hm | exact goes_pop hw hfree hq hm
  | find jobId =>
    simp only [hw] at hm
    exact goes_find hw hfree hm
  | check jobId r =>
    simp only [hw] at hm
    obtain ⟨_, ⟨job, hr, _⟩, _⟩ := hO r (by rw [ledger_hold, hw]; rfl)
    exact goes_check hw hfree hr (hm job hr)
  | start jobId r =>
    obtain ⟨_, ⟨job, hr, _⟩, _⟩ := hO r (by rw [ledger_hold, hw]; rfl)
    exact goes_start hw hfree hr
  | head | testPaused | notify | construct | spawn | upload | returned | join | result | caught
  | finished | terminated => rw [hw] at hpast; cases hpast

end Goes

/-! ## 5. The call -/

/-- **`pauseAll` stops new uploads exactly where the worker is not past its test of `m_paused`
    with a job to start**: in every reachable state, no continuation of the call without
    `resumeAll` has a job enter UPLOADING, if and only if the worker may not start one. -/
theorem pauseAll_iff {cfg : Cfg} {s : State} (h : (engine cfg).Reach Machine.Any s) :
    PauseAllHolds cfg s ↔ ¬ MayStart s := by
  by_cases hend : s.worker = .terminated
  · -- no call runs any more
    refine iff_of_true (fun t ht => ?_) (fun hm => ?_)
    · unfold step at ht
      rw [if_pos hend] at ht
      cases ht
    · have hpast := past_of_mayStart hm
      rw [hend] at hpast
      cases hpast
  have hcall : step cfg s .pauseAll = some { s with paused := true } := by
    unfold step
    rw [if_neg hend]
  have hreach : (engine cfg).Reach Machine.Any { s with paused := true } :=
    .step s _ .pauseAll h trivial hcall
  constructor
  · intro hholds hm
    obtain ⟨u, a, v, hsteps, ha, hv, hin⟩ :=
      @goes_of_mayStart cfg _ (reach_bookkept hreach) (reach_alone hreach) hm
    exact hholds _ hcall u a v hsteps ha hv hin
  · intro hn t ht u a v hsteps ha hv hin
    rw [hcall] at ht
    cases ht
    have hI : (engine cfg).Reach Machine.Any u ∧ u.paused = true ∧ ¬ MayStart u := by
      refine Machine.Steps.invariant
        (I := fun u => (engine cfg).Reach Machine.Any u ∧ u.paused = true ∧ ¬ MayStart u) hsteps
        ⟨hreach, rfl, hn⟩ ?_
      intro u a v hI ha hs
      obtain ⟨hu, hp, hn⟩ := hI
      exact ⟨.step u v a hu trivial hs,
        safe_step hs ha (reach_bookkept hu) (reach_alone hu) hp hn⟩
    obtain ⟨_, jobId, r, _, hw, _⟩ := hin
    refine hI.2.2 ?_
    unfold MayStart
    rw [hw]
    trivial

/-- A job waits and the worker is at the top of its loop. -/
theorem pauseAll_atTheTop : ∃ s, (engine defaultCfg).Reach Machine.Any s ∧
    s.queue = ["job-a"] ∧ PauseAllHolds defaultCfg s := by
  have h : ((engine defaultCfg).exec State.init
      [.enqueue "job-a" "/a.mp4" "https://up/" "" "", .worker .go]).map
        (fun s => (s.worker, s.queue)) = some (.testPaused, ["job-a"]) := by
    decide
  obtain ⟨s, hs, hobs⟩ := Option.map_eq_some_iff.mp h
  obtain ⟨hw, hq⟩ := Prod.mk.inj hobs
  have hreach : (engine defaultCfg).Reach Machine.Any s :=
    Machine.steps_of_exec hs (Machine.meets_any _ _)
  refine ⟨s, hreach, hq, (pauseAll_iff hreach).mpr fun hm => ?_⟩
  have hpast := past_of_mayStart hm
  rw [hw] at hpast
  cases hpast

/-- **`pauseAll` while the worker is past its test**: the worker has seen `m_paused` false and the
    queue not empty; the call returns; the worker pops the job, looks it up and starts it. -/
theorem pauseAll_pastTheTest : ∃ s t u v, (engine defaultCfg).Reach Machine.Any s ∧
    step defaultCfg s .pauseAll = some t ∧
    (engine defaultCfg).Steps NoResumeAll t u ∧ step defaultCfg u (.worker .go) = some v ∧
    getStatus u "job-a" = .queued ∧ getStatus v "job-a" = .uploading ∧
    ¬ PauseAllHolds defaultCfg s := by
  have h : ((engine defaultCfg).exec State.init (oneJobFound.take 4)).bind (fun s =>
      (step defaultCfg s .pauseAll).bind fun t =>
        ((engine defaultCfg).exec t (List.replicate 3 (.worker .go))).bind fun u =>
          (step defaultCfg u (.worker .go)).map fun v =>
            (decide ((engine defaultCfg).meets NoResumeAll t (List.replicate 3 (.worker .go))),
              (u.jobs.deref ⟨1, 0⟩).map (·.status), (v.jobs.deref ⟨1, 0⟩).map (·.status),
              getStatus u "job-a", getStatus v "job-a")) =
      some (true, some .queued, some .uploading, .queued, .uploading) := by
    decide
  obtain ⟨s, hs, h⟩ := Option.bind_eq_some_iff.mp h
  obtain ⟨t, ht, h⟩ := Option.bind_eq_some_iff.mp h
  obtain ⟨u, hu, h⟩ := Option.bind_eq_some_iff.mp h
  obtain ⟨v, hv, hobs⟩ := Option.map_eq_some_iff.mp h
  simp only [Prod.mk.injEq, decide_eq_true_eq, Option.map_eq_some_iff] at hobs
  obtain ⟨hmeets, ⟨job, hr, hst⟩, ⟨job', hr', hst'⟩, hsu, hsv⟩ := hobs
  have hsteps : (engine defaultCfg).Steps NoResumeAll t u := Machine.steps_of_exec hu hmeets
  refine ⟨s, t, u, v, Machine.steps_of_exec hs (Machine.meets_any _ _), ht, hsteps, hv, hsu, hsv,
    fun hholds => ?_⟩
  refine hholds t ht u (.worker .go) v hsteps nofun hv ?_
  exact enters_of_uploading hv hr (by rw [hst]; nofun) hr' hst'

end Viral.Upload
