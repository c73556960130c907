/-
  File:      ViralEngine/Upload/Service.lean
  Subject:   THE ORDER IN WHICH `workerLoop` SERVES `m_queue`.

  The pushes come from four code paths, the pops from one; the worker takes an id off the queue,
  looks its record up and tests it for CANCELLED in three steps of their own. `Service` is the
  history beside the engine: what was pushed, what the worker examined (with the status of the
  job at that moment), and what `processJob` was called on.

  * `Service`, `Service.next`, `served` -- the history, and the engine beside it;
  * `Lined`, `effect_lined` -- examined, in hand and queued ids are the pushed ids, in order, and
    each of them has a record;
  * `Fifo`, `fifoService` -- the law of the queue holds in a run exactly if at no test a pointer
    left behind hides that the job is CANCELLED;
  * `fifoService_pointerLeftBehind` -- a run in which it does.
-/
import ViralEngine.Upload.Queue

namespace Viral.Upload

open Viral.Lib

/-! ## 1. The history of the service -/

/-- What was pushed on `m_queue`, the entries the worker has examined (with "its job was
    CANCELLED then"), and the jobs `processJob` was called on. -/
structure Service where
  pushed : List String
  examined : List (String × Bool)
  processed : List String
  deriving DecidableEq

/-- What `getStatus` answers. -/
def Ledger.statusOf (L : Ledger) (jobId : String) : UploadStatus :=
  match L.jobs.elems.find? (fun job => job.id == jobId) with
  | some job => job.status
  | none => .cancelled

/-- The entry examined between two ledgers: the worker lets a found record go or starts on it.
    An id without a record would be let go unexamined. -/
def examinedBetween (L L' : Ledger) : List (String × Bool) :=
  match L.hold, L'.hold with
  | .popped jobId, .idle => [(jobId, false)]
  | .found jobId _, .idle | .found jobId _, .cleared _ _ =>
    [(jobId, decide (L.statusOf jobId = .cancelled))]
  | _, _ => []

/-- The job `processJob` is called on between two ledgers. -/
def processedBetween (L L' : Ledger) : List String :=
  match L.hold, L'.hold with
  | .found _ r, .cleared _ _ => ((L.jobs.deref r).map (·.id)).toList
  | _, _ => []

/-- The history behind a step. A step either takes the head of the queue or appends to it. -/
def Service.next (h : Service) (L L' : Ledger) : Service where
  pushed := h.pushed ++ L'.queue.drop L.queue.length
  examined := h.examined ++ examinedBetween L L'
  processed := h.processed ++ processedBetween L L'

/-- The engine with the history of its service. -/
def served (cfg : Cfg) : Machine (State × Service) Act :=
  (engine cfg).watch ⟨[], [], []⟩ fun h s _ t => h.next s.ledger t.ledger

/-- The entries of a list that are left when the CANCELLED ones are deleted. -/
def kept (examined : List (String × Bool)) : List String :=
  (examined.filter fun entry => !entry.2).map (·.1)

/-- **The law of the queue**: the worker has examined a prefix of what was pushed, in order, and
    called `processJob` on exactly the entries whose job was not CANCELLED then. -/
def Fifo (h : Service) : Prop :=
  h.examined.map (·.1) <+: h.pushed ∧ h.processed = kept h.examined

theorem kept_append (l : List (String × Bool)) (jobId : String) (cancelled : Bool) :
    kept (l ++ [(jobId, cancelled)]) = kept l ++ if cancelled then [] else [jobId] := by
  unfold kept
  cases cancelled <;> simp

/-! ## 2. Pushed, examined, in hand, queued -/

/-- The id popped and not yet tested for CANCELLED. -/
def Hold.waiting : Hold → List String
  | .popped jobId | .found jobId _ => [jobId]
  | _ => []

/-- The queue's books: nothing pushed is lost or comes twice, every id that waits has a record,
    and the record found is the first one of its id. -/
structure Lined (L : Ledger) (h : Service) : Prop where
  line : h.pushed = h.examined.map (·.1) ++ (L.hold.waiting ++ L.queue)
  known : ∀ jobId ∈ L.hold.waiting ++ L.queue, jobId ∈ L.ids
  held : ∀ r, L.hold.job = some r → ∃ jobId ∈ L.ids, ReadsId L.jobs r jobId
  first : ∀ jobId r, L.hold = .found jobId r →
    L.ids[r.idx]? = some jobId ∧ ∀ k < r.idx, L.ids[k]? ≠ some jobId
  copy : ∀ jobId r job, L.hold = .found jobId r → L.jobs.deref r = some job →
    job.status = .cancelled → ∃ job', L.jobs.elems[r.idx]? = some job' ∧ job'.status = .cancelled
  longer : (kept h.examined).length ≤ h.processed.length

theorem effect_ids_mem {cfg : Cfg} {c : Option Ref} {L L' : Ledger} {a : Act}
    (h : Effect cfg c L a L') {jobId : String} (hid : jobId ∈ L.ids) : jobId ∈ L'.ids := by
  rcases effect_ids h with e | ⟨x, _, _, _, _, _, e⟩
  · exact e ▸ hid
  · exact e ▸ List.mem_append_left _ hid

theorem mem_ids_of_get {L : Ledger} {i : Nat} {job : UploadJob} (h : L.jobs.elems[i]? = some job) :
    job.id ∈ L.ids :=
  List.mem_map_of_mem (List.mem_of_getElem? h)

/-- The first record of an id decides its status. -/
theorem statusOf_first {L : Ledger} {i : Nat} {jobId : String} {job : UploadJob}
    (hfirst : L.ids[i]? = some jobId ∧ ∀ k < i, L.ids[k]? ≠ some jobId)
    (hi : L.jobs.elems[i]? = some job) : L.statusOf jobId = job.status := by
  obtain ⟨_, hfind⟩ := find_first hfirst.1 hfirst.2 hi
  unfold Ledger.statusOf
  rw [hfind]

/-- A hold that stays shows no examination. -/
theorem between_same {L L' : Ledger} (h : L'.hold = L.hold) :
    examinedBetween L L' = [] ∧ processedBetween L L' = [] := by
  unfold examinedBetween processedBetween
  rw [h]
  cases L.hold <;> exact ⟨rfl, rfl⟩

section Books

variable {cfg : Cfg} {c : Option Ref} {L L' : Ledger} {a : Act} {h : Service}

/-- A step that leaves queue and hold alone leaves the line alone. -/
theorem line_still (hl : h.pushed = h.examined.map (·.1) ++ (L.hold.waiting ++ L.queue))
    (hq : L'.queue = L.queue) (hh : L'.hold = L.hold) :
    (h.next L L').pushed =
      (h.next L L').examined.map (·.1) ++ (L'.hold.waiting ++ L'.queue) := by
  simp only [Service.next, (between_same hh).1, hq, hh, List.drop_length, List.append_nil]
  exact hl

/-- A push with the hold as it is. -/
theorem line_push {jobId : String}
    (hl : h.pushed = h.examined.map (·.1) ++ (L.hold.waiting ++ L.queue))
    (hq : L'.queue = L.queue ++ [jobId]) (hw : L'.hold.waiting = L.hold.waiting)
    (hb : examinedBetween L L' = []) :
    (h.next L L').pushed =
      (h.next L L').examined.map (·.1) ++ (L'.hold.waiting ++ L'.queue) := by
  simp only [Service.next, hb, hq, hw, List.drop_left, List.append_nil, hl, List.append_assoc]

/-- **No id is lost, doubled or moved**: what was pushed is what was examined, is in hand and is
    queued. -/
theorem effect_line (he : Effect cfg c L a L') (hL : Lined L h) :
    (h.next L L').pushed =
      (h.next L L').examined.map (·.1) ++ (L'.hold.waiting ++ L'.queue) := by
  have hl := hL.line
  cases he with
  | quiet | pause | cancel | progress => exact line_still hl rfl rfl
  | enqueue | resume | retry => exact line_push hl rfl rfl (between_same rfl).1
  | pop e jobId queue hh hq =>
    have hb : examinedBetween L { L with queue := queue, hold := .popped jobId } = [] := by
      unfold examinedBetween
      rw [hh]
    have hd : queue.drop L.queue.length = [] := by
      refine List.drop_eq_nil_of_le ?_
      rw [hq]
      exact Nat.le_succ _
    simp only [Service.next, hb, hd, List.append_nil]
    rw [hl, hh, hq]
    rfl
  | lose e jobId hh hnone =>
    -- there is no such step: the popped id has a record
    have hin : jobId ∈ L.ids := hL.known jobId (by rw [hh]; exact List.mem_cons_self)
    obtain ⟨job, hjob, hid⟩ := List.mem_map.mp hin
    exact absurd hid (hnone job hjob)
  | find e i job hh _ _ =>
    simp only [Service.next, examinedBetween, hh, List.drop_length, List.append_nil]
    rw [hl, hh]
    rfl
  | skip e jobId r job hh _ _ | clear e jobId r job hh _ _ =>
    simp only [Service.next, examinedBetween, hh, List.drop_length, List.append_nil,
      List.map_append, List.append_assoc]
    rw [hl, hh]
    rfl
  | start e jobId r hh | keep e r job hh | complete e r job hh | fail e r job hh
  | caught e r job hh | terminate e r hh =>
    simp only [Service.next, examinedBetween, hh, List.drop_length, List.append_nil]
    rw [hl, hh]
    rfl
  | requeue e r job hh =>
    refine line_push hl rfl ?_ ?_
    · rw [hh]
      rfl
    · unfold examinedBetween
      rw [hh]

/-- The record a held reference reads has its id in the list. -/
theorem effect_held (he : Effect cfg c L a L') (hL : Lined L h) :
    ∀ r, L'.hold.job = some r → ∃ jobId ∈ L'.ids, ReadsId L'.jobs r jobId := by
  intro r hr
  by_cases hold : L.hold.job = some r
  · obtain ⟨jobId, hin, hread⟩ := hL.held r hold
    exact ⟨jobId, effect_ids_mem he hin, effect_readsId he hold hread⟩
  · cases he with
    | find e i job hh hi hj =>
      cases hr
      have hread : L.jobs.deref (L.jobs.refAt i) = some job :=
        (RefVector.deref_of_current (RefVector.current_refAt _ _)).trans hj
      exact ⟨job.id, mem_ids_of_get hj, job, hread, rfl⟩
    | clear e jobId q job hh _ _ =>
      rw [hh] at hold
      exact absurd hr hold
    | start e jobId q hh =>
      rw [hh] at hold
      exact absurd hr hold
    | quiet | enqueue | pause | resume | cancel | retry | progress => exact absurd hr hold
    | pop | lose | skip | keep | complete | requeue | fail | caught | terminate => cases hr

/-- Every id that waits has a record. -/
theorem effect_known (he : Effect cfg c L a L') (hL : Lined L h) :
    ∀ jobId ∈ L'.hold.waiting ++ L'.queue, jobId ∈ L'.ids := by
  intro x hx
  -- an id that waited before, or the one the step pushed
  have hmono : ∀ y ∈ L.ids, y ∈ L'.ids := fun y => effect_ids_mem he
  have hold : x ∈ L.hold.waiting ++ L.queue → x ∈ L'.ids := fun hin => hmono x (hL.known x hin)
  have hpush : ∀ y ∈ L'.ids, x ∈ L.hold.waiting ++ (L.queue ++ [y]) → x ∈ L'.ids := by
    intro y hy hin
    rw [← List.append_assoc, List.mem_append, List.mem_singleton] at hin
    rcases hin with hin | rfl
    · exact hold hin
    · exact hy
  cases he with
  | quiet | pause | cancel | progress => exact hold hx
  | enqueue jobId f u t d _ =>
    refine hpush jobId ?_ hx
    simp [Ledger.ids, newJob]
  | resume i job hi _ | retry i job hi _ =>
    exact hpush job.id (hmono job.id (mem_ids_of_get hi)) hx
  | pop e jobId queue hh hq =>
    refine hold ?_
    rw [hh, hq]
    exact hx
  | lose e jobId hh _ =>
    exact hold (List.mem_append_right _ hx)
  | find e i job hh _ _ =>
    refine hold ?_
    rw [hh]
    exact hx
  | skip e jobId r job hh _ _ | clear e jobId r job hh _ _ | start e jobId r hh
  | keep e r job hh | complete e r job hh | fail e r job hh | caught e r job hh
  | terminate e r hh => exact hold (List.mem_append_right _ hx)
  | requeue e r job hh hr hc hp hn =>
    obtain ⟨jobId, hin, job', hr', hid⟩ := hL.held r (by rw [hh]; rfl)
    rw [hr] at hr'
    cases hr'
    refine hpush job.id (hmono job.id (hid ▸ hin)) ?_
    rw [hh]
    exact hx

/-- The record found stays the first one of its id. -/
theorem effect_firstFound (he : Effect cfg c L a L') (hL : Lined L h) :
    ∀ jobId r, L'.hold = .found jobId r →
      L'.ids[r.idx]? = some jobId ∧ ∀ k < r.idx, L'.ids[k]? ≠ some jobId := by
  intro x r hr
  by_cases hold : L.hold = .found x r
  · have hf := hL.first x r hold
    rcases effect_ids he with e | ⟨y, _, _, _, _, _, e⟩
    · rw [e]
      exact hf
    · rw [e]
      exact first_append hf
  · cases he with
    | find e i job hh hi hj =>
      cases hr
      obtain ⟨hlt, _, hmin⟩ := List.findIdx?_eq_some_iff_getElem.mp hi
      refine ⟨?_, fun k hk hkid => ?_⟩
      · show (L.jobs.elems.map (·.id))[i]? = some job.id
        rw [List.getElem?_map, hj]
        rfl
      · change (L.jobs.elems.map (·.id))[k]? = some job.id at hkid
        rw [List.getElem?_map, List.getElem?_eq_getElem (Nat.lt_trans hk hlt)] at hkid
        have := hmin k hk
        simp only [beq_iff_eq] at this
        exact this (Option.some.inj hkid)
    | quiet | enqueue | pause | resume | cancel | retry | progress => exact absurd hr hold
    | pop | lose | skip | clear | start | keep | complete | requeue | fail | caught
    | terminate => cases hr

/-- Where the pointer left behind reads CANCELLED, so does the record: nothing takes a job out
    of CANCELLED but an attempt on it. -/
theorem effect_copy (he : Effect cfg c L a L') (hO : HoldOk L) (hL : Lined L h) :
    ∀ jobId r job, L'.hold = .found jobId r → L'.jobs.deref r = some job →
      job.status = .cancelled →
      ∃ job', L'.jobs.elems[r.idx]? = some job' ∧ job'.status = .cancelled := by
  intro x r job hh' hr hst
  by_cases hcur : L'.jobs.Current r
  · exact ⟨job, (RefVector.deref_of_current hcur).symm.trans hr, hst⟩
  -- the pointer was left behind now or before
  cases he with
  | quiet => exact hL.copy x r job hh' hr hst
  | enqueue jobId f u t d _ =>
    obtain ⟨_, ⟨job0, hr0, _⟩, _⟩ := hO r (by rw [show L.hold = _ from hh']; rfl)
    have e : job0 = job := Option.some.inj ((RefVector.deref_pushBack hr0).symm.trans hr)
    subst e
    obtain ⟨job', hj', hst'⟩ := hL.copy x r job0 hh' hr0 hst
    refine ⟨job', ?_, hst'⟩
    rw [RefVector.elems_pushBack, List.getElem?_append_left (List.getElem?_eq_some_iff.mp hj').1]
    exact hj'
  | pause i job0 hi hst0 | resume i job0 hi hst0 | retry i job0 hi hst0 =>
    rw [RefVector.deref_modifyAt, if_neg fun hc => hcur hc.1] at hr
    obtain ⟨job', hj', hst'⟩ := hL.copy x r job hh' hr hst
    have hne : i ≠ r.idx := by
      intro e
      rw [e, hj'] at hi
      cases hi
      rw [hst0] at hst'
      cases hst'
    refine ⟨job', ?_, hst'⟩
    rw [RefVector.elems_modifyAt, List.getElem?_modify_ne _ _ hne]
    exact hj'
  | cancel i job0 hi =>
    rw [RefVector.deref_modifyAt, if_neg fun hc => hcur hc.1] at hr
    obtain ⟨job', hj', hst'⟩ := hL.copy x r job hh' hr hst
    rw [RefVector.elems_modifyAt]
    by_cases e : i = r.idx
    · rw [e, List.getElem?_modify_eq, hj']
      exact ⟨_, rfl, rfl⟩
    · rw [List.getElem?_modify_ne _ _ e]
      exact ⟨job', hj', hst'⟩
  | find e i job0 hh hi hj =>
    cases hh'
    exact absurd (RefVector.current_refAt _ _) hcur
  | progress q p hq =>
    rw [show L.hold = .found x r from hh'] at hq
    cases hq
    rw [RefVector.deref_assign] at hr
    obtain ⟨job0, hr0, rfl⟩ := Option.map_eq_some_iff.mp hr
    rw [RefVector.elems_assign, if_neg fun hc => hcur ((RefVector.current_assign _ _ _ _).mpr hc)]
    exact hL.copy x r job0 hh' hr0 hst
  | pop | lose | skip | clear | start | keep | complete | requeue | fail | caught
  | terminate => cases hh'

end Books

/-! ## 3. The test for CANCELLED -/

/-- At the test for CANCELLED: the pointer is into the records in use, or the job is not
    CANCELLED, or the pointer left behind reads CANCELLED too. -/
def CheckSees (s : State) : WorkerPc → Prop
  | .check jobId r =>
    s.jobs.Current r ∨ getStatus s jobId ≠ .cancelled ∨
      ∀ job ∈ s.jobs.deref r, job.status = .cancelled
  | _ => True

/-- No test misses a cancellation. -/
def SeesCancel (s : State) : Act → Prop
  | .worker _ => CheckSees s s.worker
  | _ => True

section Test

variable {cfg : Cfg} {s t : State} {e : TusEvent} {h : Service}

theorem hold_found {w : WorkerPc} {jobId : String} {r : Ref} (h : w.hold = .found jobId r) :
    w = .check jobId r := by
  cases w <;> cases h
  rfl

/-- A found record let go. -/
theorem next_skip {L : Ledger} {jobId : String} {r : Ref} (hh : L.hold = .found jobId r) :
    h.next L { L with hold := .idle } =
      { h with examined := h.examined ++ [(jobId, decide (L.statusOf jobId = .cancelled))] } := by
  simp [Service.next, examinedBetween, processedBetween, hh]

/-- A found record started on. -/
theorem next_clear {L : Ledger} {jobId : String} {r : Ref} {job : UploadJob}
    (hh : L.hold = .found jobId r) (hr : L.jobs.deref r = some job) :
    h.next L { L with hold := .cleared jobId r } =
      { h with
        examined := h.examined ++ [(jobId, decide (L.statusOf jobId = .cancelled))]
        processed := h.processed ++ [job.id] } := by
  simp [Service.next, examinedBetween, processedBetween, hh, hr]

/-- **The step out of the test**: the law survives it exactly if the test sees the
    cancellation. -/
theorem check_fifo_iff (hs : workerStep cfg s e = some t) (hL : Lined s.ledger h)
    (hO : HoldOk s.ledger) {jobId : String} {r : Ref} (hw : s.worker = .check jobId r) :
    ((h.next s.ledger t.ledger).processed = kept (h.next s.ledger t.ledger).examined ↔
      h.processed = kept h.examined ∧ CheckSees s (.check jobId r)) ∧
    (kept (h.next s.ledger t.ledger).examined).length ≤
      (h.next s.ledger t.ledger).processed.length := by
  have hh : s.ledger.hold = .found jobId r := by
    rw [ledger_hold, hw]
    rfl
  obtain ⟨popped, ⟨job, hr, hid⟩, hpop⟩ := hO r (by rw [hh]; rfl)
  have hjob : job.id = jobId := hid.trans (hpop jobId (by rw [hh]; rfl)).symm
  have hfirst := hL.first jobId r hh
  unfold workerStep at hs
  simp only [hw] at hs
  obtain ⟨job', hr', hs⟩ := Option.bind_eq_some_iff.mp hs
  have e : job' = job := Option.some.inj (hr'.symm.trans hr)
  subst e
  by_cases hst : job'.status = .cancelled
  · -- let go: where the pointer reads CANCELLED the job is CANCELLED
    rw [if_pos hst] at hs
    cases hs
    obtain ⟨row, hrow, hrst⟩ := hL.copy jobId r job' hh hr hst
    have hc : s.ledger.statusOf jobId = .cancelled := (statusOf_first hfirst hrow).trans hrst
    have hn : h.next s.ledger ({ s with worker := .head } : State).ledger = _ := next_skip hh
    rw [hn]
    simp only [kept_append, hc, decide_true, if_true, List.append_nil]
    refine ⟨⟨fun hp => ⟨hp, Or.inr (Or.inr fun j hj => ?_)⟩, And.left⟩, hL.longer⟩
    have e : j = job' := Option.some.inj (hj.symm.trans hr)
    exact e ▸ hst
  · -- started: right exactly if the job is not CANCELLED
    rw [if_neg hst] at hs
    cases hs
    have hn : h.next s.ledger ({ s with worker := .start jobId r } : State).ledger = _ :=
      next_clear hh hr
    rw [hn]
    simp only [kept_append, hjob]
    by_cases hc : s.ledger.statusOf jobId = .cancelled
    · simp only [hc, decide_true, if_true, List.append_nil]
      refine ⟨iff_of_false (fun hp => ?_) ?_, ?_⟩
      · have hlen := congrArg List.length hp
        have hle := hL.longer
        rw [List.length_append, List.length_singleton] at hlen
        omega
      · rintro ⟨_, hcur | hne | hall⟩
        · -- a pointer into the records in use reads the job's status
          have hrow := (RefVector.deref_of_current hcur).symm.trans hr
          exact hst ((statusOf_first hfirst hrow).symm.trans hc)
        · exact hne hc
        · exact hst (hall job' hr)
      · rw [List.length_append]
        exact Nat.le_add_right_of_le hL.longer
    · simp only [hc, decide_false, Bool.false_eq_true, if_false, List.append_cancel_right_eq,
        List.length_append]
      refine ⟨⟨fun hp => ⟨hp, Or.inr (Or.inl hc)⟩, And.left⟩, ?_⟩
      exact Nat.add_le_add_right hL.longer _

/-- A step that is not out of the test examines nothing. -/
theorem examined_still {c : Option Ref} {L L' : Ledger} {a : Act} (he : Effect cfg c L a L')
    (hL : Lined L h) (hnot : ∀ e jobId r, a = .worker e → L.hold ≠ .found jobId r) :
    examinedBetween L L' = [] ∧ processedBetween L L' = [] := by
  cases he with
  | quiet | enqueue | pause | resume | cancel | retry | progress => exact between_same rfl
  | lose e jobId hh hnone =>
    have hin : jobId ∈ L.ids := hL.known jobId (by rw [hh]; exact List.mem_cons_self)
    obtain ⟨job, hjob, hid⟩ := List.mem_map.mp hin
    exact absurd hid (hnone job hjob)
  | skip e jobId r job hh _ _ | clear e jobId r job hh _ _ => exact absurd hh (hnot e jobId r rfl)
  | pop e jobId queue hh _ | find e i job hh _ _ | start e jobId r hh | keep e r job hh
  | complete e r job hh | requeue e r job hh | fail e r job hh | caught e r job hh
  | terminate e r hh =>
    unfold examinedBetween processedBetween
    rw [hh]
    exact ⟨rfl, rfl⟩

end Test

/-! ## 4. The law over runs -/

/-- What every step keeps: the books, and that the worker's pointer reads the popped job. -/
def Booked (p : State × Service) : Prop := Lined p.1.ledger p.2 ∧ HoldOk p.1.ledger

/-- **One step**: the books stay right, and the law holds behind it exactly if it held before and
    a test, if it was one, saw the cancellation. -/
theorem served_step {cfg : Cfg} {p q : State × Service} {a : Act}
    (hs : (served cfg).step p a = some q) (hI : Booked p) :
    Booked q ∧ (Fifo q.2 ↔ Fifo p.2 ∧ SeesCancel p.1 a) := by
  obtain ⟨s, h⟩ := p
  obtain ⟨t, h'⟩ := q
  obtain ⟨hstep, hn⟩ := Machine.watch_step_some hs
  obtain ⟨hL, hO⟩ := hI
  simp only at hstep hn hL hO ⊢
  subst hn
  have he := step_effect hstep
  -- the part of the law that never fails
  have hpre : ∀ {L : Ledger} {g : Service}, g.pushed = g.examined.map (·.1) ++
      (L.hold.waiting ++ L.queue) → g.examined.map (·.1) <+: g.pushed :=
    fun e => e ▸ List.prefix_append _ _
  have hline := effect_line he hL
  have htest : ((h.next s.ledger t.ledger).processed = kept (h.next s.ledger t.ledger).examined ↔
      h.processed = kept h.examined ∧ SeesCancel s a) ∧
      (kept (h.next s.ledger t.ledger).examined).length ≤
        (h.next s.ledger t.ledger).processed.length := by
    by_cases hat : ∃ e jobId r, a = .worker e ∧ s.ledger.hold = .found jobId r
    · obtain ⟨e, jobId, r, rfl, hh⟩ := hat
      have hw := hold_found hh
      have hiff := check_fifo_iff (step_worker hstep) hL hO hw
      rw [← hw] at hiff
      exact hiff
    · have hnone := examined_still he hL fun e jobId r ha hh => hat ⟨e, jobId, r, ha, hh⟩
      have hC : SeesCancel s a := by
        cases a with
        | worker e =>
          show CheckSees s s.worker
          cases hw : s.worker with
          | check jobId r =>
            exact absurd ⟨e, jobId, r, rfl, by rw [ledger_hold, hw]; rfl⟩ hat
          | _ => trivial
        | _ => trivial
      simp only [Service.next, hnone.1, hnone.2, List.append_nil]
      exact ⟨⟨fun hp => ⟨hp, hC⟩, And.left⟩, hL.longer⟩
  refine ⟨⟨⟨hline, effect_known he hL, effect_held he hL, effect_firstFound he hL,
    effect_copy he hO hL, htest.2⟩, effect_holdOk he hO⟩, ?_⟩
  unfold Fifo
  rw [htest.1]
  refine ⟨fun ⟨_, hp, hc⟩ => ⟨⟨hpre hL.line, hp⟩, hc⟩, fun ⟨⟨_, hp⟩, hc⟩ => ?_⟩
  exact ⟨hpre hline, hp, hc⟩

/-- **FIFO service**: in every run the jobs `processJob` was called on are a prefix of the pushed
    ids with exactly the entries deleted whose job was CANCELLED when examined, if and only if no
    test in the run has a pointer left behind hide a cancellation. -/
theorem fifoService {cfg : Cfg} {as : List Act} {s : State} {h : Service}
    (hrun : (served cfg).exec (served cfg).init as = some (s, h)) :
    Fifo h ↔ (served cfg).meets (fun p a => SeesCancel p.1 a) (served cfg).init as := by
  have hbase : Booked (served cfg).init := by
    refine ⟨⟨rfl, nofun, nofun, nofun, nofun, Nat.le_refl 0⟩, nofun⟩
  have hiff := Machine.exec_iff_meets (I := Booked) (Q := fun p => Fifo p.2)
    (C := fun p a => SeesCancel p.1 a) (fun p a q hI hs => (served_step hs hI).1)
    (fun p a q hI hs => (served_step hs hI).2) hbase hrun
  rw [hiff]
  exact and_iff_right ⟨List.nil_prefix, rfl⟩

/-- Two jobs, the first cancelled in the queue: it is examined and deleted, the second served. -/
def cancelledInQueue : List Act :=
  [.enqueue "job-a" "/a.mp4" "https://up/" "" "", .enqueue "job-b" "/b.mp4" "https://up/" "" "",
    .cancel "job-a"] ++ List.replicate 12 (.worker .go)

theorem fifoService_cancelledInQueue : ∃ s h,
    (served defaultCfg).exec (served defaultCfg).init cancelledInQueue = some (s, h) ∧
    h = ⟨["job-a", "job-b"], [("job-a", true), ("job-b", false)], ["job-b"]⟩ ∧
    (served defaultCfg).meets (fun p a => SeesCancel p.1 a) (served defaultCfg).init
      cancelledInQueue := by
  have h : ((served defaultCfg).exec (served defaultCfg).init cancelledInQueue).map (·.2) =
      some ⟨["job-a", "job-b"], [("job-a", true), ("job-b", false)], ["job-b"]⟩ := by
    decide
  obtain ⟨⟨s, h⟩, hs, hobs⟩ := Option.map_eq_some_iff.mp h
  refine ⟨s, h, hs, hobs, (fifoService hs).mp ?_⟩
  rw [show h = _ from hobs]
  exact ⟨by decide, by decide⟩

/-- **A second `enqueue` moves `m_jobs` between the lookup of the first job and its test, and then
    the first job is cancelled**: the pointer left behind still reads QUEUED, and `processJob` is
    called on a CANCELLED job. -/
theorem fifoService_pointerLeftBehind : ∃ s h,
    (served defaultCfg).exec (served defaultCfg).init
      (oneJobFound.take 6 ++ [.enqueue "job-b" "/b.mp4" "https://up/" "" "", .cancel "job-a",
        .worker .go]) = some (s, h) ∧
    h = ⟨["job-a", "job-b"], [("job-a", true)], ["job-a"]⟩ ∧ ¬ Fifo h := by
  have h : ((served defaultCfg).exec (served defaultCfg).init
      (oneJobFound.take 6 ++ [.enqueue "job-b" "/b.mp4" "https://up/" "" "", .cancel "job-a",
        .worker .go])).map (·.2) =
      some ⟨["job-a", "job-b"], [("job-a", true)], ["job-a"]⟩ := by
    decide
  obtain ⟨⟨s, h⟩, hs, hobs⟩ := Option.map_eq_some_iff.mp h
  refine ⟨s, h, hs, hobs, fun hf => ?_⟩
  rw [show h = _ from hobs] at hf
  exact absurd hf.2 (by decide)

end Viral.Upload
