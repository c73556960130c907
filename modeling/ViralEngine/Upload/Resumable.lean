/-
  File:      ViralEngine/Upload/Resumable.lean
  Subject:   WHAT THE SERVER IS SENT OF A JOB OVER ALL ITS ATTEMPTS.

  `processJob` makes a `TusClient` of its own for every attempt and calls `upload()` on it, never
  `resume()`. `upload()` begins with a POST, and `uploadChunks` begins with the first chunk. What
  an earlier attempt of the job has left on the server is not asked for.

  * `Wire`, `Wire.note`, `wired` -- the history of a run on the wire: POSTs answered, chunks
    accepted, chunks sent that had been accepted before, each for jobs not reported COMPLETED;
  * `Resumable` -- one upload resource for each job, and no accepted chunk sent again;
  * `FirstUpload` -- `upload()` is called only on jobs without an upload resource;
  * `Hop`, `uploadStep_hop` -- the ways through `upload()`, as far as the wire can tell;
  * `SentOk`, `hop_wire`, `step_wireOk` -- what then holds at each place of `upload()`;
  * `uploadsResumable` -- so in every such run; `uploadsResumable_resumed` -- one pause and resume
    is enough to break it.
-/
import ViralEngine.Upload.Interrupt
import ViralEngine.Upload.Listener

namespace Viral.Upload

open Viral.Lib

/-! ## 1. The history on the wire -/

/-- What went over the wire, by job: POSTs answered with a location, chunks acknowledged, and
    chunks sent although an earlier PATCH with them had been acknowledged. -/
structure Wire where
  created : List String
  accepted : List (String × Int)
  resent : List (String × Int)
  deriving DecidableEq

/-- The job was reported COMPLETED. -/
def State.Completed (s : State) (jobId : String) : Prop :=
  ∃ n ∈ s.statusLog, n.jobId = jobId ∧ n.status = .completed

instance (s : State) (jobId : String) : Decidable (s.Completed jobId) :=
  inferInstanceAs (Decidable (∃ n ∈ s.statusLog, _))

/-- The chunk of the PATCH that a worker has under way. -/
def WorkerPc.sending : WorkerPc → Option Int
  | .upload _ (.patch i) => some i
  | _ => none

/-- One move of `upload()` for a job; `sent` is the chunk of the PATCH that is under way behind
    it. -/
def Wire.move (w : Wire) (jobId : String) (sent : Option Int) : UploadPc → TusEvent → Wire
  | .post, .posted _ => { w with created := w.created ++ [jobId] }
  | .patch i, .patched _ => { w with accepted := w.accepted ++ [(jobId, i)] }
  | .chunk _, _ =>
    match sent with
    | some i => if (jobId, i) ∈ w.accepted then { w with resent := w.resent ++ [(jobId, i)] } else w
    | none => w
  | _, _ => w

/-- The history behind a step: between its `enqueue` and COMPLETED a job's traffic is kept. -/
def Wire.note (w : Wire) (s : State) (a : Act) (t : State) : Wire :=
  match a, s.worker with
  | .worker e, .upload r pc =>
    match s.jobs.deref r with
    | some job => if s.Completed job.id then w else w.move job.id t.worker.sending pc e
    | none => w
  | _, _ => w

/-- The engine with the history of its traffic. -/
def wired (cfg : Cfg) : Machine (State × Wire) Act := (engine cfg).watch ⟨[], [], []⟩ Wire.note

/-- **Resumable**: at most one upload resource for each job, and nothing that was accepted is sent
    again. -/
def Resumable (w : Wire) : Prop := w.created.Nodup ∧ w.resent = []

/-- `upload()` is called on a job only if none of its attempts has had its POST answered. -/
def UploadsFirst (p : State × Wire) : WorkerPc → Prop
  | .spawn r => ∀ job ∈ p.1.jobs.deref r, ¬ p.1.Completed job.id → job.id ∉ p.2.created
  | _ => True

/-- No step calls `upload()` on a job that has an upload resource. -/
def FirstUpload (p : State × Wire) : Act → Prop
  | .worker _ => UploadsFirst p p.1.worker
  | _ => True

instance (p : State × Wire) : ∀ w : WorkerPc, Decidable (UploadsFirst p w)
  | .spawn r => inferInstanceAs (Decidable (∀ job ∈ p.1.jobs.deref r, _))
  | .head | .testPaused | .testEmpty | .pop | .find _ | .check .. | .start .. | .notify _
  | .construct _ | .upload .. | .returned .. | .join .. | .result .. | .caught .. | .finished
  | .terminated => inferInstanceAs (Decidable True)

instance (p : State × Wire) : ∀ a : Act, Decidable (FirstUpload p a)
  | .worker _ => inferInstanceAs (Decidable (UploadsFirst p p.1.worker))
  | .enqueue .. | .pause _ | .resume _ | .cancel _ | .retry _ | .pauseAll | .resumeAll
  | .setAuthToken _ | .destroy | .poller => inferInstanceAs (Decidable True)

/-! ## 2. One attempt -/

/-- The answer to a request that adds to the traffic of a job. -/
def TusEvent.Acknowledges : TusEvent → Prop
  | .posted _ | .patched _ => True
  | _ => False

/-- The chunk of the PATCH that an outcome has under way. -/
def Outcome.sending : Outcome → Option Int
  | .at (.patch i) => some i
  | _ => none

/-- **The ways through `upload()`**, as far as the wire can tell: a POST answered, a PATCH sent,
    a chunk acknowledged or given up, or a move that leaves the traffic alone. -/
inductive Hop : UploadPc → TusEvent → Outcome → Prop where
  | posted (location : String) : Hop .post (.posted location) (.at .head)
  | sent (i : Int) : Hop (.chunk i) .go (.at (.patch i))
  | acked (i : Int) (offset : Option Int) : Hop (.patch i) (.patched offset) (.at (.loop (i + 1)))
  | counted (pc : UploadPc) (e : TusEvent) (i : Int) (hpc : pc = .chunk i ∨ pc = .patch i)
      (he : ¬ e.Acknowledges) : Hop pc e (.at (.loop (i + 1)))
  | looped (i : Int) : Hop (.loop i) .go (.at (.chunk i))
  | entered (i : Int) : Hop .begun .go (.at (.loop i))
  | chunked (e : TusEvent) (he : ¬ e.Acknowledges) : Hop .chunkFile e (.at .post)
  | early (pc pc' : UploadPc) (e : TusEvent) (he : ¬ e.Acknowledges)
      (hpc : pc = .head ∧ pc' = .save ∨ pc = .save ∧ pc' = .begin ∨ pc = .begin ∧ pc' = .begun) :
      Hop pc e (.at pc')
  | late (pc pc' : UploadPc) (e : TusEvent) (he : ¬ e.Acknowledges)
      (hpc' : pc' = .stop ∨ pc' = .stopCheck ∨ pc' = .stopFinish ∨ pc' = .cleanup) :
      Hop pc e (.at pc')
  | left (pc : UploadPc) (e : TusEvent) (o : Outcome) (he : ¬ e.Acknowledges)
      (ho : ∀ pc', o ≠ .at pc') : Hop pc e o

theorem uploadStep_hop {c c' : TusClient} {pc : UploadPc} {e : TusEvent} {o : Outcome}
    (h : c.uploadStep pc e = some (c', o)) : Hop pc e o := by
  revert h
  fun_cases TusClient.uploadStep c pc e <;> intro h
  case case11 | case22 | case31 => cases h
  all_goals obtain ⟨rfl, rfl⟩ := Prod.mk.inj (Option.some.inj h)
  case case3 => exact .chunked _ id
  case case4 => exact .posted _
  case case6 => exact .early _ _ _ id (Or.inl ⟨rfl, rfl⟩)
  case case8 => exact .early _ _ _ id (Or.inr (Or.inl ⟨rfl, rfl⟩))
  case case9 => exact .early _ _ _ id (Or.inr (Or.inr ⟨rfl, rfl⟩))
  case case13 => exact .entered _
  case case14 => exact .looped _
  case case15 => exact .late _ _ _ id (Or.inl rfl)
  case case16 => exact .counted _ _ _ (Or.inl rfl) id
  case case18 => exact .sent _
  case case19 => exact .acked _ _
  case case21 => exact .counted _ _ _ (Or.inr rfl) id
  case case24 => exact .counted _ _ _ (Or.inr rfl) id
  case case26 => exact .late _ _ _ id (Or.inr (Or.inl rfl))
  case case27 => exact .late _ _ _ id (Or.inr (Or.inr (Or.inl rfl)))
  case case28 => exact .late _ _ _ id (Or.inr (Or.inr (Or.inr rfl)))
  case case29 => exact .late _ _ _ id (Or.inr (Or.inr (Or.inr rfl)))
  all_goals refine .left _ _ _ id fun pc' e => ?_
  all_goals cases e

/-- What holds of a job's traffic while its attempt is at a place of `upload()`: no resource in
    front of the POST, nothing accepted in front of the loop, and only chunks below the counter
    in it. -/
def SentOk (w : Wire) (jobId : String) : UploadPc → Prop
  | .chunkFile | .post => jobId ∉ w.created
  | .head | .save | .begin | .begun => jobId ∈ w.created ∧ ∀ k, (jobId, k) ∉ w.accepted
  | .loop i | .chunk i | .patch i => jobId ∈ w.created ∧ ∀ k, (jobId, k) ∈ w.accepted → k < i
  | .stop | .stopCheck | .stopFinish | .cleanup => True

/-- The books over all jobs: the law, and nothing accepted without a resource. -/
structure BooksOk (w : Wire) : Prop where
  resumable : Resumable w
  posted : ∀ jobId k, (jobId, k) ∈ w.accepted → jobId ∈ w.created

section Attempt

variable {w : Wire} {jobId : String} {pc : UploadPc} {e : TusEvent} {o : Outcome}

/-- A move without an acknowledgement and without a PATCH leaves the traffic alone. -/
theorem move_still (he : ¬ e.Acknowledges) : w.move jobId none pc e = w := by
  unfold Wire.move
  split
  · exact absurd trivial he
  · exact absurd trivial he
  · rfl
  · rfl

/-- **One move of `upload()`** keeps the books, and what holds at the next place of it. -/
theorem hop_wire (h : Hop pc e o) (hb : BooksOk w) (hp : SentOk w jobId pc) :
    BooksOk (w.move jobId o.sending pc e) ∧
      ∀ pc', o = .at pc' → SentOk (w.move jobId o.sending pc e) jobId pc' := by
  have hstill : ¬ e.Acknowledges → o.sending = none → (∀ pc', o = .at pc' → SentOk w jobId pc') →
      BooksOk (w.move jobId o.sending pc e) ∧
        ∀ pc', o = .at pc' → SentOk (w.move jobId o.sending pc e) jobId pc' := by
    intro he hs hpl
    rw [hs, move_still he]
    exact ⟨hb, hpl⟩
  cases h with
  | posted location =>
    -- the first resource of the job: nothing of it has been accepted
    refine ⟨⟨⟨?_, hb.resumable.2⟩, fun x k hk => ?_⟩, ?_⟩
    · have hnd := List.Nodup.concat hp hb.resumable.1
      rwa [List.concat_eq_append] at hnd
    · exact List.mem_append_left _ (hb.posted x k hk)
    · intro pc' e
      cases e
      exact ⟨List.mem_append_right _ (List.mem_singleton_self _),
        fun k hk => hp (hb.posted jobId k hk)⟩
  | sent i =>
    -- the counter is above every chunk accepted
    have hnew : (jobId, i) ∉ w.accepted := fun hin => Int.lt_irrefl i (hp.2 i hin)
    have hm : w.move jobId (Outcome.at (.patch i)).sending (.chunk i) .go = w := if_neg hnew
    rw [hm]
    refine ⟨hb, fun pc' e => ?_⟩
    cases e
    exact hp
  | acked i offset =>
    refine ⟨⟨hb.resumable, fun x k hk => ?_⟩, fun pc' e => ?_⟩
    · rcases List.mem_append.mp hk with hk | hk
      · exact hb.posted x k hk
      · cases List.mem_singleton.mp hk
        exact hp.1
    · cases e
      refine ⟨hp.1, fun k hk => ?_⟩
      rcases List.mem_append.mp hk with hk | hk
      · exact Int.lt_trans (hp.2 k hk) (Int.lt_succ i)
      · cases List.mem_singleton.mp hk
        exact Int.lt_succ i
  | counted _ _ i hpc he =>
    refine hstill he rfl fun pc' e => ?_
    cases e
    have hp' : jobId ∈ w.created ∧ ∀ k, (jobId, k) ∈ w.accepted → k < i := by
      rcases hpc with rfl | rfl <;> exact hp
    exact ⟨hp'.1, fun k hk => Int.lt_trans (hp'.2 k hk) (Int.lt_succ i)⟩
  | looped i =>
    refine hstill id rfl fun pc' e => ?_
    cases e
    exact hp
  | entered i =>
    refine hstill id rfl fun pc' e => ?_
    cases e
    exact ⟨hp.1, fun k hk => absurd hk (hp.2 k)⟩
  | chunked _ he =>
    refine hstill he rfl fun pc' e => ?_
    cases e
    exact hp
  | early _ pc' _ he hpc =>
    rcases hpc with ⟨rfl, rfl⟩ | ⟨rfl, rfl⟩ | ⟨rfl, rfl⟩ <;>
      refine hstill he rfl fun pc' e => ?_ <;> cases e <;> exact hp
  | late _ pc' _ he hpc' =>
    rcases hpc' with rfl | rfl | rfl | rfl <;>
      refine hstill he rfl fun pc' e => ?_ <;> cases e <;> trivial
  | left _ _ _ he ho =>
    refine hstill he ?_ fun pc' e => absurd e (ho pc')
    cases o with
    | «at» pc' => exact absurd rfl (ho pc')
    | returned => rfl
    | threw => rfl

end Attempt

/-! ## 3. All attempts -/

/-- The books, and what holds at the place of the attempt under way. -/
structure WireOk (p : State × Wire) : Prop where
  books : BooksOk p.2
  place : ∀ r pc jobId, p.1.worker = .upload r pc → ReadsId p.1.jobs r jobId →
    ¬ p.1.Completed jobId → SentOk p.2 jobId pc

theorem completed_mono {s t : State} (h : s.statusLog <+: t.statusLog) {jobId : String}
    (hc : s.Completed jobId) : t.Completed jobId := by
  obtain ⟨n, hn, hid⟩ := hc
  exact ⟨n, h.subset hn, hid⟩

/-- A step outside `upload()` adds nothing to the traffic. -/
theorem note_outside {w : Wire} {s t : State} {a : Act}
    (h : ∀ e r pc, a = .worker e → s.worker ≠ .upload r pc) : w.note s a t = w := by
  unfold Wire.note
  split
  · rename_i e r pc hw
    exact absurd hw (h e r pc rfl)
  · rfl

section Steps

variable {cfg : Cfg} {s t : State} {w : Wire}

/-- The worker inside `upload()` makes one move of it. -/
theorem worker_inside {e : TusEvent} {r : Ref} {pc : UploadPc}
    (h : workerStep cfg s e = some t) (hw : s.worker = .upload r pc) :
    ∃ c o, s.tus.uploadStep pc e = some (c, o) ∧ t.jobs = s.jobs ∧
      t.worker.sending = o.sending ∧ ∀ q pc', t.worker = .upload q pc' → q = r ∧ o = .at pc' := by
  have hat : ∀ {q pc'}, s.worker = .upload q pc' → q = r ∧ pc' = pc := by
    intro q pc' h'
    rw [hw] at h'
    cases h'
    exact ⟨rfl, rfl⟩
  cases workerStep_move h with
  | upload q pc0 pc' tus hw' hup =>
    obtain ⟨rfl, rfl⟩ := hat hw'
    refine ⟨tus, _, hup, rfl, ?_, fun q' pc'' e => ?_⟩
    · cases pc' <;> rfl
    · cases e
      exact ⟨rfl, rfl⟩
  | uploaded q pc0 tus success hw' hup =>
    obtain ⟨rfl, rfl⟩ := hat hw'
    exact ⟨tus, _, hup, rfl, rfl, nofun⟩
  | terminate q pc0 tus what hw' hup | unwind q pc0 tus what hw' hup =>
    obtain ⟨rfl, rfl⟩ := hat hw'
    exact ⟨tus, _, hup, rfl, rfl, nofun⟩
  | head hw' | testPaused hw' | testEmpty hw' | popNone hw' | pop _ _ hw' | lose _ hw'
  | find _ _ hw' | skip _ _ _ hw' | clear _ _ _ hw' | start _ _ hw' | notify _ _ hw'
  | noClient _ _ hw' | construct _ hw' | noThread _ _ hw' | spawn _ hw' | returned _ _ hw'
  | join _ _ hw' | result _ _ _ hw' | caught _ _ _ hw' =>
    rw [hw] at hw'
    cases hw'

/-- The worker gets into `upload()` by calling it. -/
theorem worker_enters {e : TusEvent} {r : Ref} {pc : UploadPc} (h : workerStep cfg s e = some t)
    (hs : ∀ q pc', s.worker ≠ .upload q pc') (ht : t.worker = .upload r pc) :
    s.worker = .spawn r ∧ pc = .chunkFile := by
  cases workerStep_do h with
  | spawns q hw hw' =>
    rw [hw'] at ht
    cases ht
    exact ⟨hw, rfl⟩
  | moves q pc' _ hw => exact absurd hw (hs q pc')
  | leaves q pc' _ hw => exact absurd hw (hs q pc')
  | waits _ hw' =>
    rw [ht] at hw'
    cases hw'
  | outside hw' =>
    rw [ht] at hw'
    cases hw'

/-- A step of another thread leaves the worker where it is. -/
theorem worker_stays {a : Act} (h : step cfg s a = some t) (hw : ∀ e, a ≠ .worker e) :
    t.worker = s.worker := by
  by_cases hp : a = .poller
  · subst hp
    exact (pollerStep_frame (step_poller h)).1
  · exact (client_frame h hw hp).1.1

/-- What a held reference reads has one id. -/
theorem readsId_unique {v : RefVector UploadJob} {r : Ref} {x y : String} (hx : ReadsId v r x)
    (hy : ReadsId v r y) : x = y := by
  obtain ⟨job, hr, rfl⟩ := hx
  obtain ⟨job', hr', rfl⟩ := hy
  rw [hr] at hr'
  cases hr'
  rfl

/-- **One step** keeps the books, if it does not call `upload()` on a job that has a resource. -/
theorem step_wireOk {a : Act} (h : step cfg s a = some t) (hC : FirstUpload (s, w) a)
    (hO : HoldOk s.ledger) (hI : WireOk (s, w)) : WireOk (t, w.note s a t) := by
  have hlog := step_statusLog h
  -- an attempt that is under way on both sides of the step is on one job
  have hsame : ∀ r x, s.worker.job = some r → ReadsId t.jobs r x → ReadsId s.jobs r x := by
    intro r x hr hx
    have hh : s.ledger.hold.job = some r := by
      rw [ledger_hold, WorkerPc.hold_job]
      exact hr
    obtain ⟨y, hy, _⟩ := hO r hh
    rwa [readsId_unique hx (effect_readsId (step_effect h) hh hy)]
  by_cases hat : ∃ e r pc, a = .worker e ∧ s.worker = .upload r pc
  · obtain ⟨e, r, pc, rfl, hw⟩ := hat
    obtain ⟨c, o, hup, hjobs, hsend, hto⟩ := worker_inside (step_worker h) hw
    obtain ⟨_, ⟨job, hr, _⟩, _⟩ := hO r (by rw [ledger_hold, hw]; rfl)
    have hr' : s.jobs.deref r = some job := hr
    have hnote : w.note s (.worker e) t =
        if s.Completed job.id then w else w.move job.id o.sending pc e := by
      simp only [Wire.note, hw, hr', hsend]
    rw [hnote]
    by_cases hc : s.Completed job.id
    · rw [if_pos hc]
      refine ⟨hI.books, fun q pc' x ht hx hnc => ?_⟩
      obtain ⟨rfl, rfl⟩ := hto q pc' ht
      have hx' := hsame q x (by rw [hw]; rfl) hx
      rw [readsId_unique hx' ⟨job, hr', rfl⟩] at hnc
      exact absurd (completed_mono hlog hc) hnc
    · rw [if_neg hc]
      have hp := hI.place r pc job.id hw ⟨job, hr', rfl⟩ hc
      obtain ⟨hb, hnext⟩ := hop_wire (uploadStep_hop hup) hI.books hp
      refine ⟨hb, fun q pc' x ht hx _ => ?_⟩
      obtain ⟨rfl, ho⟩ := hto q pc' ht
      have hx' := hsame q x (by rw [hw]; rfl) hx
      rw [readsId_unique hx' ⟨job, hr', rfl⟩]
      exact hnext pc' ho
  · have hnote : w.note s a t = w := note_outside fun e r pc ha hw => hat ⟨e, r, pc, ha, hw⟩
    rw [hnote]
    refine ⟨hI.books, fun r pc x ht hx hnc => ?_⟩
    have hnc' : ¬ s.Completed x := fun hc => hnc (completed_mono hlog hc)
    by_cases hwork : ∃ e, a = .worker e
    · -- `upload()` is called
      obtain ⟨e, rfl⟩ := hwork
      obtain ⟨hw, rfl⟩ := worker_enters (step_worker h)
        (fun q pc' hw => hat ⟨e, q, pc', rfl, hw⟩) ht
      obtain ⟨job, hr, hid⟩ := hsame r x (by rw [hw]; rfl) hx
      have hfirst : UploadsFirst (s, w) (.spawn r) := hw ▸ hC
      exact hid ▸ hfirst job hr (hid.symm ▸ hnc')
    · have hw := (worker_stays h fun e ha => hwork ⟨e, ha⟩).symm.trans ht
      exact hI.place r pc x hw (hsame r x (by rw [hw]; rfl) hx) hnc'

end Steps

theorem reach_wireOk {cfg : Cfg} {p : State × Wire} (h : (wired cfg).Reach FirstUpload p) :
    WireOk p ∧ HoldOk p.1.ledger := by
  refine Machine.Steps.invariant (I := fun p => WireOk p ∧ HoldOk p.1.ledger) h ?_ ?_
  · exact ⟨⟨⟨⟨List.nodup_nil, rfl⟩, nofun⟩, nofun⟩, nofun⟩
  · intro ⟨s, w⟩ a ⟨t, w'⟩ ⟨hI, hO⟩ hC hs
    obtain ⟨hstep, hn⟩ := Machine.watch_step_some hs
    simp only at hn
    subst hn
    exact ⟨step_wireOk hstep hC hO hI, effect_holdOk (step_effect hstep) hO⟩

/-- **Uploads are resumable where nothing has to be resumed**: in every run in which `upload()` is
    called only on jobs none of whose attempts has had its POST answered, every job has at most
    one upload resource up to its COMPLETED, and no chunk the server has acknowledged is sent
    again. -/
theorem uploadsResumable {cfg : Cfg} {s : State} {w : Wire}
    (h : (wired cfg).Reach FirstUpload (s, w)) : Resumable w := (reach_wireOk h).1.books.resumable

theorem uploadsResumable_oneAttempt : ∃ s w, (wired defaultCfg).Reach FirstUpload (s, w) ∧
    w = ⟨["job-a"], [], []⟩ ∧ Resumable w := by
  have h : ((wired defaultCfg).exec (wired defaultCfg).init
      (oneAttempt ++ begins 100)).map (·.2) = some ⟨["job-a"], [], []⟩ := by
    decide
  obtain ⟨⟨s, w⟩, hs, hobs⟩ := Option.map_eq_some_iff.mp h
  have hreach : (wired defaultCfg).Reach FirstUpload (s, w) :=
    Machine.steps_of_exec hs (by decide)
  exact ⟨s, w, hreach, hobs, uploadsResumable hreach⟩

/-- The first attempt is paused behind its POST, and comes to its end; the job is resumed and
    served again. -/
def pausedAndResumed : List Act :=
  oneAttempt ++ begins 100 ++ .pause "job-a" :: pollerRound ++ List.replicate 6 (.worker .go) ++
    .resume "job-a" :: List.replicate 10 (.worker .go) ++ begins 100

/-- **Paused and resumed**: the second attempt makes a second upload resource, and sends nothing to
    the first. -/
theorem uploadsResumable_resumed : ∃ s w,
    (wired defaultCfg).Reach (fun x a => ChunksAsCut x.1 a) (s, w) ∧
    w.created = ["job-a", "job-a"] ∧ getStatus s "job-a" = .uploading ∧ ¬ Resumable w := by
  have h : ((wired defaultCfg).exec (wired defaultCfg).init pausedAndResumed).map (fun p =>
      (p.2.created, getStatus p.1 "job-a")) = some (["job-a", "job-a"], .uploading) := by
    decide
  obtain ⟨⟨s, w⟩, hs, hobs⟩ := Option.map_eq_some_iff.mp h
  obtain ⟨hc, hst⟩ := Prod.mk.inj hobs
  refine ⟨s, w, Machine.steps_of_exec hs (by decide), hc, hst, fun hR => ?_⟩
  exact absurd (hc ▸ hR.1) (by decide)

end Viral.Upload
