/-
  File:      ViralEngine/Upload/References.lean
  Subject:   THE REFERENCE OF THE WORKER INTO `m_jobs`, and when a write through it is seen.

  `workerLoop` takes a pointer into `m_jobs` and keeps it over the whole attempt; `enqueue`
  appends to the same vector. An append to a full vector moves the records and leaves the
  pointer behind.

  * `rowOf` -- a record seen as its id and its status, and what each kind of change does to it;
  * `Ledger.ids`, `effect_ids` -- a job never changes its id, and only `enqueue` adds one;
  * `HoldOk`, `effect_holdOk` -- in every run the held reference reads a record, and it is the
    record of the popped id (so the worker is never stuck on it);
  * `KeepsBuffer` -- no `enqueue` moves the vector while the worker holds a reference;
  * `RefFresh`, `effect_refFresh` -- under that condition the reference denotes the record that
    a lookup by id finds;
  * `noLostUpdate` -- then every write through the reference is what the getters see next, and
    every write of a client is what the worker and the poller read next;
  * `lostUpdate_vectorMoved` -- without it an UPLOADING is lost;
  * `ChunksAsCut` -- what `chunkFile` answers to the engine, for the runs on fixed inputs here and
    in the modules above this one.
-/
import ViralEngine.Upload.Chunks
import ViralEngine.Upload.Effect

namespace Viral.Upload

open Viral.Lib

/-! ## 1. Rows -/

/-- The record at an index, as its id and its status. -/
def rowOf (v : RefVector UploadJob) (i : Nat) : Option (String × UploadStatus) :=
  v.elems[i]?.map fun job => (job.id, job.status)

theorem rowOf_of_get {v : RefVector UploadJob} {i : Nat} {job : UploadJob}
    (h : v.elems[i]? = some job) : rowOf v i = some (job.id, job.status) := by
  unfold rowOf
  rw [h]
  rfl

theorem rowOf_modifyAt {v : RefVector UploadJob} {i : Nat} {job : UploadJob}
    (f : UploadJob → UploadJob) (h : v.elems[i]? = some job) (k : Nat) :
    rowOf (v.modifyAt i f) k =
      if k = i then some ((f job).id, (f job).status) else rowOf v k := by
  unfold rowOf
  rw [RefVector.elems_modifyAt, List.getElem?_modify]
  by_cases hk : k = i
  · subst hk
    simp [h]
  · have hk' : ¬ i = k := fun e => hk e.symm
    simp [hk, hk']

theorem rowOf_assign {v : RefVector UploadJob} {r : Ref} {job : UploadJob}
    (f : UploadJob → UploadJob) (hcur : v.Current r) (h : v.deref r = some job) (k : Nat) :
    rowOf (v.assign r f) k =
      if k = r.idx then some ((f job).id, (f job).status) else rowOf v k := by
  have e : v.assign r f = v.modifyAt r.idx f := if_pos hcur
  rw [e]
  rw [RefVector.deref_of_current hcur] at h
  exact rowOf_modifyAt f h k

theorem rowOf_assign_stale {v : RefVector UploadJob} {r : Ref} (f : UploadJob → UploadJob)
    (hstale : ¬ v.Current r) (k : Nat) : rowOf (v.assign r f) k = rowOf v k := by
  unfold rowOf
  rw [RefVector.elems_assign, if_neg hstale]

theorem rowOf_pushBack (grow : Nat → Nat) (v : RefVector UploadJob) (job : UploadJob) (k : Nat) :
    rowOf (v.pushBack grow job) k =
      if k = v.elems.length then some (job.id, job.status) else rowOf v k := by
  unfold rowOf
  rw [RefVector.elems_pushBack]
  by_cases hk : k = v.elems.length
  · subst hk
    simp
  · rw [if_neg hk]
    rcases Nat.lt_or_gt_of_ne hk with hlt | hgt
    · rw [List.getElem?_append_left hlt]
    · rw [List.getElem?_eq_none (by simp; omega), List.getElem?_eq_none (by omega)]

theorem rowOf_lt {v : RefVector UploadJob} {i : Nat} {row : String × UploadStatus}
    (h : rowOf v i = some row) : i < v.elems.length := by
  obtain ⟨job, hjob, _⟩ := Option.map_eq_some_iff.mp h
  exact (List.getElem?_eq_some_iff.mp hjob).1

/-! ## 2. Ids do not change -/

/-- The ids of the records, in order. -/
def Ledger.ids (L : Ledger) : List String := L.jobs.elems.map (·.id)

/-- A change of a record that keeps its id. -/
def KeepsId (f : UploadJob → UploadJob) : Prop := ∀ job, (f job).id = job.id

theorem map_id_modify {f : UploadJob → UploadJob} (hf : KeepsId f) (l : List UploadJob) (i : Nat) :
    (l.modify i f).map (·.id) = l.map (·.id) := by
  refine List.ext_getElem? fun k => ?_
  rw [List.getElem?_map, List.getElem?_map, List.getElem?_modify]
  cases l[k]? with
  | none => rfl
  | some job =>
    by_cases hk : i = k
    · simp [hk, hf job]
    · simp [hk]

theorem map_id_assign {f : UploadJob → UploadJob} (hf : KeepsId f) (v : RefVector UploadJob)
    (r : Ref) : (v.assign r f).elems.map (·.id) = v.elems.map (·.id) := by
  rw [RefVector.elems_assign]
  split
  · exact map_id_modify hf _ _
  · rfl

/-- **Only `enqueue` changes the ids, and it appends one.** -/
theorem effect_ids {cfg : Cfg} {c : Option Ref} {L L' : Ledger} {a : Act}
    (h : Effect cfg c L a L') :
    L'.ids = L.ids ∨ ∃ jobId filePath serverUrl title description,
      a = .enqueue jobId filePath serverUrl title description ∧ L'.ids = L.ids ++ [jobId] := by
  cases h with
  | enqueue jobId filePath serverUrl title description _ =>
    refine Or.inr ⟨jobId, filePath, serverUrl, title, description, rfl, ?_⟩
    simp [Ledger.ids, newJob]
  | pause | resume | cancel | retry => exact Or.inl (map_id_modify (by intro _; rfl) _ _)
  | start | progress | complete | requeue | fail | caught =>
    exact Or.inl (map_id_assign (by intro _; rfl) _ _)
  | quiet | pop | lose | find | skip | clear | keep | terminate => exact Or.inl rfl

/-! ## 3. The held reference reads the popped job -/

/-- The reference reads a record with this id. -/
def ReadsId (v : RefVector UploadJob) (r : Ref) (jobId : String) : Prop :=
  ∃ job, v.deref r = some job ∧ job.id = jobId

theorem readsId_modifyAt {f : UploadJob → UploadJob} (hf : KeepsId f) {v : RefVector UploadJob}
    {r : Ref} {jobId : String} (i : Nat) (h : ReadsId v r jobId) :
    ReadsId (v.modifyAt i f) r jobId := by
  obtain ⟨job, hr, hid⟩ := h
  unfold ReadsId
  rw [RefVector.deref_modifyAt, hr]
  split
  · exact ⟨f job, rfl, (hf job).trans hid⟩
  · exact ⟨job, rfl, hid⟩

theorem readsId_assign {f : UploadJob → UploadJob} (hf : KeepsId f) {v : RefVector UploadJob}
    {r : Ref} {jobId : String} (h : ReadsId v r jobId) : ReadsId (v.assign r f) r jobId := by
  obtain ⟨job, hr, hid⟩ := h
  exact ⟨f job, by rw [RefVector.deref_assign, hr]; rfl, (hf job).trans hid⟩

theorem readsId_pushBack {grow : Nat → Nat} {v : RefVector UploadJob} {x : UploadJob} {r : Ref}
    {jobId : String} (h : ReadsId v r jobId) : ReadsId (v.pushBack grow x) r jobId := by
  obtain ⟨job, hr, hid⟩ := h
  exact ⟨job, RefVector.deref_pushBack hr, hid⟩

/-- What the held reference reads keeps its id over every step. -/
theorem effect_readsId {cfg : Cfg} {c : Option Ref} {L L' : Ledger} {a : Act}
    {r : Ref} {jobId : String}
    (h : Effect cfg c L a L') (hr : L.hold.job = some r) (hid : ReadsId L.jobs r jobId) :
    ReadsId L'.jobs r jobId := by
  cases h with
  | enqueue => exact readsId_pushBack hid
  | pause | resume | cancel | retry => exact readsId_modifyAt (by intro _; rfl) _ hid
  | start e jobId q hh =>
    rw [hh] at hr
    cases hr
    exact readsId_assign (by intro _; rfl) hid
  | progress q p hh =>
    rw [hh] at hr
    cases hr
    exact readsId_assign (by intro _; rfl) hid
  | complete e q job hh | requeue e q job hh | fail e q job hh | caught e q job hh =>
    rw [hh] at hr
    cases hr
    exact readsId_assign (by intro _; rfl) hid
  | quiet | pop | lose | find | skip | clear | keep | terminate => exact hid

/-- The held reference reads a record: the one of the popped id. -/
def HoldOk (L : Ledger) : Prop :=
  ∀ r, L.hold.job = some r →
    ∃ jobId, ReadsId L.jobs r jobId ∧ ∀ popped, L.hold.pending = some popped → popped = jobId

theorem effect_holdOk {cfg : Cfg} {c : Option Ref} {L L' : Ledger} {a : Act}
    (h : Effect cfg c L a L')
    (hL : HoldOk L) : HoldOk L' := by
  intro r hr
  -- a hold that was there before the step: the record keeps its id
  have hkeep : L.hold.job = some r →
      (∀ popped, L'.hold.pending = some popped → L.hold.pending = some popped) →
      ∃ jobId, ReadsId L'.jobs r jobId ∧ ∀ popped, L'.hold.pending = some popped →
        popped = jobId := by
    intro hr' hp
    obtain ⟨jobId, hread, hpop⟩ := hL r hr'
    exact ⟨jobId, effect_readsId h hr' hread, fun popped hpopped => hpop popped (hp popped hpopped)⟩
  cases h with
  | quiet | enqueue | pause | resume | cancel | retry | progress =>
    exact hkeep hr fun _ hp => hp
  | find e i job hh hi hj =>
    cases hr
    refine ⟨job.id, ⟨job, hj ▸ RefVector.deref_of_current (RefVector.current_refAt _ _), rfl⟩, ?_⟩
    intro popped hp
    exact (Option.some.inj hp).symm
  | clear e jobId q job hh _ _ =>
    refine hkeep ?_ ?_
    · rw [hh]
      exact hr
    · intro popped hp
      rw [hh]
      exact hp
  | start e jobId q hh =>
    refine hkeep ?_ ?_
    · rw [hh]
      exact hr
    · intro popped hp
      cases hp
  | pop | lose | skip | keep | complete | requeue | fail | caught | terminate => cases hr

/-- **In every run the worker's reference reads a record.** -/
theorem reach_holdOk {cfg : Cfg} {C : State → Act → Prop} {s : State}
    (h : (engine cfg).Reach C s) : HoldOk s.ledger := by
  refine Machine.Steps.invariant (I := fun s => HoldOk s.ledger) h ?_ ?_
  · intro r hr
    cases hr
  · intro u a v hu _ hs
    exact effect_holdOk (step_effect hs) hu

/-! ## 4. Under `KeepsBuffer` the reference is the record a lookup finds -/

/-- No `enqueue` moves `m_jobs` to a new buffer while the worker holds a reference into it. -/
def KeepsBuffer (s : State) : Act → Prop
  | .enqueue .. =>
    s.worker.job = none ∨ ¬ s.jobs.Full ∨ viralUploadQueueMax ≤ (s.queue.length : Int)
  | _ => True

instance (s : State) : ∀ a : Act, Decidable (KeepsBuffer s a)
  | .enqueue .. => inferInstanceAs (Decidable (_ ∨ _ ∨ _))
  | .pause _ | .resume _ | .cancel _ | .retry _ | .pauseAll | .resumeAll | .setAuthToken _
  | .destroy | .worker _ | .poller => inferInstanceAs (Decidable True)

/-- The held reference denotes a place of the buffer in use, and its record is the first one
    with its id. -/
def RefFresh (L : Ledger) : Prop :=
  ∀ r, L.hold.job = some r → L.jobs.Current r ∧
    ∃ jobId, L.ids[r.idx]? = some jobId ∧ ∀ k < r.idx, L.ids[k]? ≠ some jobId

/-- A reference into the buffer in use stays one. -/
theorem effect_current {cfg : Cfg} {c : Option Ref} {s t : State} {a : Act} {r : Ref}
    (h : Effect cfg c s.ledger a t.ledger) (hc : KeepsBuffer s a) (hr : s.worker.job = some r)
    (hcur : s.jobs.Current r) : t.jobs.Current r := by
  generalize hL' : t.ledger = L' at h
  have hjobs : t.jobs = L'.jobs := by rw [← hL']; rfl
  rw [hjobs]
  cases h with
  | enqueue jobId filePath serverUrl title description hroom =>
    refine RefVector.current_pushBack ?_ hcur
    rcases hc with hnone | hroom' | hfull
    · rw [hr] at hnone
      cases hnone
    · exact hroom'
    · exact absurd hroom (Int.not_lt.mpr hfull)
  | pause | resume | cancel | retry => exact hcur
  | start | progress | complete | requeue | fail | caught =>
    exact (RefVector.current_assign _ _ _ _).mpr hcur
  | quiet | pop | lose | find | skip | clear | keep | terminate => exact hcur

/-- The first place of an id stays its first place when ids are appended. -/
theorem first_append {ids : List String} {x jobId : String} {i : Nat}
    (h : ids[i]? = some jobId ∧ ∀ k < i, ids[k]? ≠ some jobId) :
    (ids ++ [x])[i]? = some jobId ∧ ∀ k < i, (ids ++ [x])[k]? ≠ some jobId := by
  have hi : i < ids.length := (List.getElem?_eq_some_iff.mp h.1).1
  refine ⟨by rw [List.getElem?_append_left hi]; exact h.1, fun k hk => ?_⟩
  rw [List.getElem?_append_left (Nat.lt_trans hk hi)]
  exact h.2 k hk

theorem effect_first {cfg : Cfg} {c : Option Ref} {L L' : Ledger} {a : Act} {i : Nat}
    (h : Effect cfg c L a L')
    (hf : ∃ jobId, L.ids[i]? = some jobId ∧ ∀ k < i, L.ids[k]? ≠ some jobId) :
    ∃ jobId, L'.ids[i]? = some jobId ∧ ∀ k < i, L'.ids[k]? ≠ some jobId := by
  rcases effect_ids h with e | ⟨x, _, _, _, _, _, e⟩
  · rw [e]
    exact hf
  · rw [e]
    obtain ⟨jobId, hjob⟩ := hf
    exact ⟨jobId, first_append hjob⟩

theorem effect_refFresh {cfg : Cfg} {c : Option Ref} {s t : State} {a : Act}
    (h : Effect cfg c s.ledger a t.ledger)
    (hc : KeepsBuffer s a) (hF : RefFresh s.ledger) : RefFresh t.ledger := by
  intro r hr
  by_cases hold : s.ledger.hold.job = some r
  · obtain ⟨hcur, hfirst⟩ := hF r hold
    have hjob : s.worker.job = some r := by rw [← WorkerPc.hold_job]; exact hold
    exact ⟨effect_current h hc hjob hcur, effect_first h hfirst⟩
  · -- only the lookup takes a new reference
    generalize hL : s.ledger = L at h hold
    generalize hL' : t.ledger = L' at h hr ⊢
    cases h with
    | find e i job hh hi hj =>
      cases hr
      obtain ⟨hlt, _, hmin⟩ := List.findIdx?_eq_some_iff_getElem.mp hi
      refine ⟨rfl, job.id, ?_, fun k hk hkid => ?_⟩
      · show (L.jobs.elems.map (·.id))[i]? = some job.id
        rw [List.getElem?_map, hj]
        rfl
      · change (L.jobs.elems.map (·.id))[k]? = some job.id at hkid
        rw [List.getElem?_map, List.getElem?_eq_getElem (Nat.lt_trans hk hlt)] at hkid
        have := hmin k hk
        simp only [beq_iff_eq] at this
        exact this (Option.some.inj hkid)
    | clear e jobId q job hh _ _ =>
      rw [hh] at hold
      exact absurd hr hold
    | start e jobId q hh =>
      rw [hh] at hold
      exact absurd hr hold
    | quiet | enqueue | pause | resume | cancel | retry | progress => exact absurd hr hold
    | pop | lose | skip | keep | complete | requeue | fail | caught | terminate => cases hr

theorem reach_refFresh {cfg : Cfg} {s : State} (h : (engine cfg).Reach KeepsBuffer s) :
    RefFresh s.ledger := by
  refine Machine.Steps.invariant (I := fun s => RefFresh s.ledger) h ?_ ?_
  · intro r hr
    cases hr
  · intro u a v hu hc hs
    exact effect_refFresh (step_effect hs) hc hu

/-! ## 5. What is written is what is seen -/

/-- The record the reference reads is the record `getAllJobs`, `getStatus` and `getProgress`
    give for its id. -/
def SeenByGetters (s : State) (r : Ref) : Prop :=
  ∃ job, s.jobs.deref r = some job ∧
    (getAllJobs s).find? (fun j => j.id == job.id) = some job ∧
    getStatus s job.id = job.status ∧ getProgress s job.id = job.progress

/-- A lookup finds the first record of an id. -/
theorem find_first {L : Ledger} {i : Nat} {jobId : String} {job : UploadJob}
    (hid : L.ids[i]? = some jobId) (hfirst : ∀ k < i, L.ids[k]? ≠ some jobId)
    (hjob : L.jobs.elems[i]? = some job) :
    job.id = jobId ∧ L.jobs.elems.find? (fun j => j.id == jobId) = some job := by
  unfold Ledger.ids at hid hfirst
  rw [List.getElem?_map, hjob] at hid
  obtain rfl : job.id = jobId := Option.some.inj hid
  obtain ⟨hlt, hget⟩ := List.getElem?_eq_some_iff.mp hjob
  refine ⟨rfl, List.find?_eq_some_iff_getElem.mpr ⟨by simp, i, hlt, hget, fun k hk => ?_⟩⟩
  have hne := hfirst k hk
  rw [List.getElem?_map, List.getElem?_eq_getElem (Nat.lt_trans hk hlt)] at hne
  simpa using fun e => hne (congrArg some e)

/-- A current reference to the first record of its id is seen by the getters. -/
theorem seenByGetters_of_first {s : State} {r : Ref} {jobId : String}
    (hcur : s.jobs.Current r) (hid : s.ledger.ids[r.idx]? = some jobId)
    (hfirst : ∀ k < r.idx, s.ledger.ids[k]? ≠ some jobId) : SeenByGetters s r := by
  have hmap : (s.jobs.elems.map (·.id))[r.idx]? = some jobId := hid
  rw [List.getElem?_map, Option.map_eq_some_iff] at hmap
  obtain ⟨job, hjob, _⟩ := hmap
  obtain ⟨rfl, hfind⟩ := find_first hid hfirst hjob
  change s.jobs.elems.find? (fun j => j.id == job.id) = some job at hfind
  refine ⟨job, (RefVector.deref_of_current hcur).trans hjob, hfind, ?_, ?_⟩
  · unfold getStatus
    rw [hfind]
  · unfold getProgress
    rw [hfind]

/-- **No update is lost while `m_jobs` stays in its buffer.** After every step of a run in which
    no `enqueue` moves the vector under a held reference, the record the worker's reference
    reads is the record the getters see: what the worker and the poller write through it is
    seen by the clients, and what a client writes is read through it. -/
theorem noLostUpdate {cfg : Cfg} {s t : State} {a : Act} {r : Ref}
    (h : (engine cfg).Reach KeepsBuffer s) (hc : KeepsBuffer s a) (hs : step cfg s a = some t)
    (hr : s.worker.job = some r) : SeenByGetters t r := by
  have hold : s.ledger.hold.job = some r := by
    rw [ledger_hold, WorkerPc.hold_job]
    exact hr
  obtain ⟨hcur, hfirst⟩ := reach_refFresh h r hold
  obtain ⟨jobId, hid, hmin⟩ := effect_first (step_effect hs) hfirst
  exact seenByGetters_of_first (effect_current (step_effect hs) hc hr hcur) hid hmin

/-- The growth of libstdc++ and libc++, and what C++ does with a joinable thread. -/
def defaultCfg : Cfg := ⟨fun n => 2 * n, .terminates⟩

/-- One job, looked up and about to be set to UPLOADING. -/
def oneJobFound : List Act :=
  [.enqueue "job-a" "/a.mp4" "https://up/" "" "", .worker .go, .worker .go, .worker .go,
    .worker .go, .worker .go, .worker .go]

/-- Three jobs, so that `m_jobs` has room for a fourth; it is enqueued while the worker holds its
    pointer to the first. -/
def fourthFits : List Act :=
  .enqueue "job-b" "/b.mp4" "https://up/" "" "" :: .enqueue "job-c" "/c.mp4" "https://up/" "" "" ::
    oneJobFound ++ [.enqueue "job-d" "/d.mp4" "https://up/" "" ""]

theorem noLostUpdate_fourthFits : ∃ s t, (engine defaultCfg).Reach KeepsBuffer s ∧
    s.jobs.elems.map (·.id) = ["job-b", "job-c", "job-a", "job-d"] ∧
    step defaultCfg s (.worker .go) = some t ∧ SeenByGetters t ⟨3, 0⟩ := by
  have h : ((engine defaultCfg).exec State.init fourthFits).bind (fun s =>
      (step defaultCfg s (.worker .go)).map fun _ =>
        (s.worker.job, s.jobs.elems.map (·.id))) =
      some (some ⟨3, 0⟩, ["job-b", "job-c", "job-a", "job-d"]) := by
    decide
  obtain ⟨s, hs, h⟩ := Option.bind_eq_some_iff.mp h
  obtain ⟨t, ht, hobs⟩ := Option.map_eq_some_iff.mp h
  obtain ⟨hr, hids⟩ := Prod.mk.inj hobs
  have hreach : (engine defaultCfg).Reach KeepsBuffer s :=
    Machine.steps_of_exec hs (by decide)
  exact ⟨s, t, hreach, hids, ht, noLostUpdate (a := .worker .go) hreach trivial ht hr⟩

/-- **A second `enqueue` while the first job is about to start moves the vector: the worker
    writes UPLOADING to the buffer given up, and `getStatus` keeps answering QUEUED.** -/
theorem lostUpdate_vectorMoved : ∃ s t, (engine defaultCfg).Reach Machine.Any s ∧
    s.worker.job = some ⟨1, 0⟩ ∧ step defaultCfg s (.worker .go) = some t ∧
    (t.jobs.deref ⟨1, 0⟩).map (·.status) = some .uploading ∧
    getStatus t "job-a" = .queued ∧ ¬ SeenByGetters t ⟨1, 0⟩ := by
  have h : ((engine defaultCfg).exec State.init
      (oneJobFound ++ [.enqueue "job-b" "/b.mp4" "https://up/" "" ""])).bind (fun s =>
      (step defaultCfg s (.worker .go)).map fun t =>
        (s.worker.job, (t.jobs.deref ⟨1, 0⟩).map (fun j => (j.id, j.status)),
          getStatus t "job-a")) =
      some (some ⟨1, 0⟩, some ("job-a", .uploading), .queued) := by
    decide
  obtain ⟨s, hs, h⟩ := Option.bind_eq_some_iff.mp h
  obtain ⟨t, ht, hobs⟩ := Option.map_eq_some_iff.mp h
  simp only [Prod.mk.injEq, Option.map_eq_some_iff] at hobs
  obtain ⟨hr, ⟨job, hjob, hid, hst⟩, hget⟩ := hobs
  refine ⟨s, t, ?_, hr, ht, ?_, hget, ?_⟩
  · exact Machine.steps_of_exec hs (Machine.meets_any _ _)
  · rw [hjob]
    exact congrArg some hst
  · rintro ⟨job', hjob', _, hstatus, _⟩
    rw [hjob] at hjob'
    cases hjob'
    rw [hid, hget, hst] at hstatus
    cases hstatus

/-! ## 6. What `chunkFile` answers -/

/-- The size of the chunks that `processJob` gives, `VIRAL_UPLOAD_CHUNK_MB` of them. -/
def viralUploadChunkSize : Int := 5 * 1024 * 1024

/-- `chunkFile` answers what it does for the chunk size of the engine, or that it failed. -/
def ChunksAsCut (_ : State) : Act → Prop
  | .worker (.chunked n size) =>
    n = -1 ∨ n = (FileChunker.make viralUploadChunkSize size).chunkNumber
  | _ => True

instance (s : State) : DecidablePred (ChunksAsCut s)
  | .worker (.chunked _ _) => inferInstanceAs (Decidable (_ ∨ _))
  | .worker .go | .worker (.posted _) | .worker (.info _ _) | .worker (.patched _)
  | .worker .rejected | .worker .aborted | .worker (.netError _) | .worker .loadFailed
  | .worker (.throws _) | .enqueue .. | .pause _ | .resume _ | .cancel _ | .retry _ | .pauseAll
  | .resumeAll | .setAuthToken _ | .destroy | .poller => inferInstanceAs (Decidable True)

/-- The attempt of `job-a` up to the start of its poller. -/
def oneAttempt : List Act := oneJobFound ++ [.worker .go, .worker .go, .worker .go, .worker .go]

/-- `upload()` from its first place to the store of UPLOADING: the engine's `chunkFile` has counted
    no chunks, and the server answers for a file of this size. -/
def begins (size : Nat) : List Act :=
  [.worker (.chunked 0 size), .worker (.posted "https://up/files/1"),
    .worker (.info (some 0) (some size)), .worker .go, .worker .go]

/-- An empty file is FINISHED behind that store, and the attempt comes to its end. -/
def finishes : List Act := [.worker .go, .worker .go, .poller, .worker .go, .worker .go]

/-- A round of the poller that finds the job PAUSED or CANCELLED, and the `TusClient` UPLOADING. -/
def pollerRound : List Act := List.replicate 8 .poller

end Viral.Upload
