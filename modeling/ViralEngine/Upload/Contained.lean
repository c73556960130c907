/-
  File:      ViralEngine/Upload/Contained.lean
  Subject:   HOW `processJob` ENDS: returned with its poller joined and its job settled, or not.

  The poller is a local `std::thread` of the `try` block. Every way out of the block that passes
  the `join` is safe; an exception of `upload()` leaves it before that, and the destructor of a
  joinable thread ends the process. So the engine here is the one in which it does.

  * `Contained` -- what a step of the engine must leave where it ends `processJob`;
  * `TusClient.Throws`, `uploadStep_threw_iff` -- the moves of `upload()` that throw;
  * `Holds` -- what the step must find: no throw, and a reference into the records in use (or a
    record that another attempt has settled);
  * `Behind`, `rest`, `behind_step`, `behind_enabled` -- behind `upload()` the two threads come to
    the end in a bounded number of steps, whatever the clients do;
  * `contained_iff` -- both together over runs; `contained_postFails` -- a transport error of the
    POST ends the process.
-/
import ViralEngine.Upload.Answers

namespace Viral.Upload

open Viral.Lib

/-! ## 1. The end of `processJob` -/

/-- **An attempt ended in order**: the process lives, and where the step takes the worker out of
    `processJob` the poller has finished and is joined (or was never made), the job is not
    UPLOADING, and behind an exception it is FAILED. -/
structure Contained (s t : State) : Prop where
  alive : t.worker ≠ .terminated
  joined : ∀ r, s.worker.hold = .running r → t.worker.hold = .idle →
    (s.poller = .exited ∨ s.poller = .none) ∧ t.poller = .none
  ended : ∀ r job, s.worker.hold = .running r → t.worker.hold = .idle →
    s.jobs.deref r = some job → getStatus t job.id ≠ .uploading
  failed : ∀ r what job, s.worker = .caught r what → t.worker.hold = .idle →
    s.jobs.deref r = some job → getStatus t job.id = .failed

namespace TusClient

/-- The moves of `upload()` that end in an exception nothing inside it catches: the POST and the
    HEAD in a transport error, chunks that cannot be loaded, a chunk number beyond the chunks, and
    an exception of another kind anywhere. -/
def Throws (c : TusClient) : UploadPc → TusEvent → Prop
  | _, .throws _ | .post, .netError _ | .head, .netError _ => True
  | .begun, .loadFailed => c.chunkNumber = 0
  | .chunk i, .go => c.status = .uploading ∧ c.chunkNumber ≤ i
  | _, _ => False

instance (c : TusClient) : ∀ (pc : UploadPc) (e : TusEvent), Decidable (c.Throws pc e)
  | pc, .throws _ => .isTrue (by cases pc <;> trivial)
  | .post, .netError _ | .head, .netError _ => .isTrue trivial
  | .begun, .loadFailed => inferInstanceAs (Decidable (c.chunkNumber = 0))
  | .chunk i, .go => inferInstanceAs (Decidable (c.status = .uploading ∧ c.chunkNumber ≤ i))
  | pc, e => by
    unfold Throws
    split <;> infer_instance

theorem uploadStep_threw_iff {c c' : TusClient} {pc : UploadPc} {e : TusEvent} {o : Outcome}
    (h : c.uploadStep pc e = some (c', o)) : (∃ what, o = .threw what) ↔ c.Throws pc e := by
  revert h
  fun_cases uploadStep c pc e <;> intro h
  case case11 | case22 | case31 => cases h
  all_goals obtain ⟨rfl, rfl⟩ := Prod.mk.inj (Option.some.inj h)
  all_goals simp_all [Throws]

end TusClient

/-- `upload()` throws at this event. -/
def ThrowsAt (s : State) (e : TusEvent) : Prop :=
  match s.worker with
  | .upload _ pc => s.tus.Throws pc e
  | _ => False

/-- What the worker's step must find. -/
def WorkerHolds (s : State) (e : TusEvent) : WorkerPc → Prop
  | .upload _ pc => ¬ s.tus.Throws pc e
  | .result r _ => s.jobs.Current r ∨ ∀ job ∈ s.jobs.deref r, getStatus s job.id ≠ .uploading
  | .caught r _ => s.jobs.Current r ∨ ∀ job ∈ s.jobs.deref r, getStatus s job.id = .failed
  | _ => True

instance (s : State) (e : TusEvent) : ∀ w : WorkerPc, Decidable (WorkerHolds s e w)
  | .upload _ pc => inferInstanceAs (Decidable (¬ s.tus.Throws pc e))
  | .result r _ | .caught r _ =>
    inferInstanceAs (Decidable (_ ∨ ∀ job ∈ s.jobs.deref r, _))
  | .head | .testPaused | .testEmpty | .pop | .find _ | .check _ _ | .start _ _ | .notify _
  | .construct _ | .spawn _ | .returned _ _ | .join _ _ | .finished | .terminated =>
    inferInstanceAs (Decidable True)

/-- **The failure is contained**: `upload()` does not throw, and the end of the attempt is stored
    in the records in use, unless the record there says it already. -/
def Holds (s : State) : Act → Prop
  | .worker e => WorkerHolds s e s.worker
  | _ => True

instance (s : State) : ∀ a : Act, Decidable (Holds s a)
  | .worker e => inferInstanceAs (Decidable (WorkerHolds s e s.worker))
  | .enqueue .. | .pause _ | .resume _ | .cancel _ | .retry _ | .pauseAll | .resumeAll
  | .setAuthToken _ | .destroy | .poller => inferInstanceAs (Decidable True)

/-! ## 2. One step -/

section Step

variable {cfg : Cfg} {s t : State}

/-- **A step of the worker inside `processJob`**: it stays inside, or it ends by a throw, by the
    result section or by the `catch` clause. -/
theorem running_step {e : TusEvent} {r : Ref} (hu : cfg.unwind = .terminates)
    (h : workerStep cfg s e = some t) (hh : s.worker.hold = .running r) :
    (t.worker.hold = .running r ∧ ¬ ThrowsAt s e ∧ (∀ q b, s.worker ≠ .result q b) ∧
      ∀ q w, s.worker ≠ .caught q w) ∨
    (t.worker = .terminated ∧ ThrowsAt s e) ∨
    (∃ success job, s.worker = .result r success ∧ s.jobs.deref r = some job ∧
      t = handleResult s r job success) ∨
    ∃ what job, s.worker = .caught r what ∧ s.jobs.deref r = some job ∧
      t = handleException s r job what := by
  have hat : ∀ {w : WorkerPc}, s.worker = w → (∀ q pc, w ≠ .upload q pc) → ¬ ThrowsAt s e := by
    intro w hw hno hc
    unfold ThrowsAt at hc
    rw [hw] at hc
    cases w <;> first | exact hc | exact hno _ _ rfl
  have hstay : ∀ {q : Ref} {w : WorkerPc}, s.worker = w → w.hold = .running q → q = r := by
    intro q w hw hq
    rw [hw, hq] at hh
    cases hh
    rfl
  cases workerStep_move h with
  | notify q job hw | noClient q what hw | construct q hw | noThread q what hw | spawn q hw
  | returned q success hw | join q success hw =>
    obtain rfl := hstay hw rfl
    exact Or.inl ⟨rfl, hat hw nofun, by rw [hw]; nofun, by rw [hw]; nofun⟩
  | upload q pc _ _ hw hup | uploaded q pc _ _ hw hup =>
    obtain rfl := hstay hw rfl
    refine Or.inl ⟨rfl, fun hc => ?_, by rw [hw]; nofun, by rw [hw]; nofun⟩
    unfold ThrowsAt at hc
    rw [hw] at hc
    obtain ⟨_, he⟩ := (TusClient.uploadStep_threw_iff hup).mpr hc
    cases he
  | terminate q pc tus what hw hup =>
    refine Or.inr (Or.inl ⟨rfl, ?_⟩)
    unfold ThrowsAt
    rw [hw]
    exact (TusClient.uploadStep_threw_iff hup).mp ⟨what, rfl⟩
  | unwind _ _ _ _ _ _ hu' =>
    rw [hu] at hu'
    cases hu'
  | result q success job hw _ hr =>
    obtain rfl := hstay hw rfl
    exact Or.inr (Or.inr (Or.inl ⟨success, job, hw, hr, rfl⟩))
  | caught q what job hw _ hr =>
    obtain rfl := hstay hw rfl
    exact Or.inr (Or.inr (Or.inr ⟨what, job, hw, hr, rfl⟩))
  | head hw | testPaused hw | testEmpty hw | popNone hw | pop _ _ hw | lose _ hw | find _ _ hw
  | skip _ _ _ hw | clear _ _ _ hw | start _ _ hw =>
    rw [hw] at hh
    cases hh

/-- An attempt has its poller, which has finished where the result is handled and was told to where
    it is joined. -/
structure Joining (s : State) : Prop where
  present : s.worker.attempt ≠ none → s.poller ≠ .none
  exited : ∀ r success, s.worker = .result r success → s.poller = .exited
  told : ∀ r success, s.worker = .join r success → s.uploadDone = true

theorem step_joining {a : Act} (hs : step cfg s a = some t) (h : Joining s) : Joining t := by
  by_cases hw : ∃ e, a = .worker e
  · obtain ⟨e, rfl⟩ := hw
    have hthere : ∀ {w : WorkerPc}, s.worker = w → w.attempt ≠ none → s.poller ≠ .none :=
      fun hw hno => h.present (hw ▸ hno)
    cases workerStep_move (step_worker hs) with
    | head | testPaused | testEmpty =>
      refine ⟨fun hc => ?_, fun _ _ hc => ?_, fun _ _ hc => ?_⟩ <;> dsimp only at hc <;>
        split at hc <;> first | cases hc | exact absurd rfl hc
    | result r success job =>
      obtain ⟨ew, _⟩ := handleResult_frame s r job success
      exact ⟨by rw [ew]; exact fun hc => absurd rfl hc, by rw [ew]; nofun, by rw [ew]; nofun⟩
    | spawn => exact ⟨fun _ => nofun, nofun, nofun⟩
    | upload _ _ _ _ hw | uploaded _ _ _ _ hw => exact ⟨fun _ => hthere hw nofun, nofun, nofun⟩
    | returned _ _ hw => exact ⟨fun _ => hthere hw nofun, nofun, fun _ _ _ => rfl⟩
    | join _ _ hw hp => exact ⟨fun _ => hthere hw nofun, fun _ _ _ => hp, nofun⟩
    | _ => exact ⟨fun hc => absurd rfl hc, nofun, nofun⟩
  have hw : ∀ e, a ≠ .worker e := fun e he => hw ⟨e, he⟩
  by_cases hp : a = .poller
  · -- a poller that has finished moves no more, and none takes the flag back
    subst hp
    have hex : ∀ r success, s.worker = .result r success → s.poller = .exited := h.exited
    cases pollerStep_move (step_poller hs) with
    | loop hq =>
      refine ⟨fun _ => ?_, fun r b hr => absurd (hq.symm.trans (hex r b hr)) nofun, h.told⟩
      dsimp only
      split <;> nofun
    | pauseTest hq =>
      refine ⟨fun _ => ?_, fun r b hr => absurd (hq.symm.trans (hex r b hr)) nofun, h.told⟩
      dsimp only
      split <;> nofun
    | read hq | store _ _ hq | report _ _ _ hq | seesCancel _ _ hq | seesPause _ _ hq
    | seesNothing _ _ hq | cancel hq | pauseStore hq =>
      exact ⟨fun _ => nofun, fun r b hr => absurd (hq.symm.trans (hex r b hr)) nofun, h.told⟩
    | setDone => exact ⟨fun _ => nofun, fun _ _ _ => rfl, fun _ _ _ => rfl⟩
  · obtain ⟨⟨ew, ep, _, ed⟩, _⟩ := client_frame hs hw hp
    refine ⟨fun hr => ?_, fun r success hr => ?_, fun r success hr => ?_⟩
    · rw [ew] at hr
      rw [ep]
      exact h.present hr
    · rw [ew] at hr
      rw [ep]
      exact h.exited r success hr
    · rw [ew] at hr
      rw [ed]
      exact h.told r success hr

/-- The result section in the records the getters read. -/
theorem result_getStatus {r : Ref} {job : UploadJob} {success : Bool}
    (hF : FirstHeld s.ledger) (hw : s.worker = .result r success)
    (hr : s.jobs.deref r = some job) :
    getStatus (handleResult s r job success) job.id ≠ .uploading ↔
      s.jobs.Current r ∨ getStatus s job.id ≠ .uploading := by
  have hh : s.worker.job = some r := by rw [hw]; rfl
  have hassign : ∀ {f : UploadJob → UploadJob}, (f job).id = job.id →
      (f job).status ≠ .uploading →
      (handleResult s r job success).jobs = s.jobs.assign r f →
      (getStatus (handleResult s r job success) job.id ≠ .uploading ↔
        s.jobs.Current r ∨ getStatus s job.id ≠ .uploading) := by
    intro f hid hne hj
    rw [getStatus_eq, hj, assign_getStatus hF hh hr hid]
    by_cases hcur : s.jobs.Current r
    · rw [if_pos ⟨hcur, rfl⟩]
      exact iff_of_true hne (Or.inl hcur)
    · rw [if_neg fun hc => hcur hc.1]
      exact (or_iff_right hcur).symm
  cases handleResult_cases s r job success with
  | kept hst hj _ =>
    have e : getStatus (handleResult s r job success) job.id = getStatus s job.id := by
      rw [getStatus_eq, hj, getStatus_eq]
    rw [e]
    refine ⟨Or.inr, fun hc => hc.elim (fun hcur => ?_) id⟩
    rw [getStatus_held hF hh hr hcur]
    rcases hst with hst | hst <;> rw [hst] <;> nofun
  | stored f _ _ hf hj _ => exact hassign hf.1 hf.2.2 hj
  | requeued f _ _ hf hj _ => exact hassign hf.1 (by rw [hf.2]; nofun) hj

/-- The `catch` clause in the records the getters read. -/
theorem exception_getStatus {r : Ref} {job : UploadJob} {what : String}
    (hF : FirstHeld s.ledger) (hw : s.worker = .caught r what)
    (hr : s.jobs.deref r = some job) :
    getStatus (handleException s r job what) job.id = .failed ↔
      s.jobs.Current r ∨ getStatus s job.id = .failed := by
  have hget := @assign_getStatus s r job (fun j => { j with status := .failed }) hF
    (by rw [hw]; rfl) hr rfl job.id
  have e : getStatus (handleException s r job what) job.id =
      answer (s.jobs.assign r fun j => { j with status := .failed }).elems job.id := rfl
  rw [e, hget]
  by_cases hcur : s.jobs.Current r
  · rw [if_pos ⟨hcur, rfl⟩]
    exact iff_of_true rfl (Or.inl hcur)
  · rw [if_neg fun hc => hcur hc.1]
    exact (or_iff_right hcur).symm

/-- What every run keeps and the end of an attempt rests on. -/
structure Attended (s : State) : Prop where
  holds : HoldOk s.ledger
  first : FirstHeld s.ledger
  alone : Alone s
  joining : Joining s

theorem step_attended {a : Act} (hs : step cfg s a = some t) (h : Attended s) : Attended t where
  holds := effect_holdOk (step_effect hs) h.holds
  first := effect_firstHeld (step_effect hs) h.first
  alone := step_alone hs h.alone
  joining := step_joining hs h.joining

theorem attended_init : Attended State.init where
  holds := nofun
  first := nofun
  alone := fun _ => rfl
  joining := ⟨fun hc => absurd rfl hc, nofun, nofun⟩

/-- A step that leaves the worker inside `processJob`, or had it outside. -/
theorem contained_of_goesOn (halive : t.worker ≠ .terminated)
    (h : ∀ r, s.worker.hold = .running r → t.worker.hold ≠ .idle) : Contained s t where
  alive := halive
  joined r hr ht := absurd ht (h r hr)
  ended r job hr ht := absurd ht (h r hr)
  failed r what job hw ht := absurd ht (h r (by rw [hw]; rfl))

theorem step_alive {a : Act} (hs : step cfg s a = some t) : s.worker ≠ .terminated := by
  intro hend
  unfold step at hs
  rw [if_pos hend] at hs
  cases hs

/-- **One step**: what it ends, it ends in order exactly if it finds what it must. -/
theorem contained_step_iff {a : Act} (hu : cfg.unwind = .terminates)
    (hs : step cfg s a = some t) (hA : Attended s) : Contained s t ↔ Holds s a := by
  by_cases hw : ∃ e, a = .worker e
  · obtain ⟨e, rfl⟩ := hw
    have hstep := step_worker hs
    show Contained s t ↔ WorkerHolds s e s.worker
    by_cases hrun : ∃ r, s.worker.hold = .running r
    · obtain ⟨r, hh⟩ := hrun
      rcases running_step hu hstep hh with ⟨ht, hno, hres, hca⟩ | ⟨ht, hthrow⟩ |
        ⟨success, job, hw, hr, rfl⟩ | ⟨what, job, hw, hr, rfl⟩
      · -- it goes on
        refine iff_of_true (contained_of_goesOn ?_ fun _ _ => ?_) ?_
        · intro hend
          rw [hend] at ht
          cases ht
        · rw [ht]
          nofun
        · unfold ThrowsAt at hno
          unfold WorkerHolds
          cases hw : s.worker with
          | upload q pc => rw [hw] at hno; exact hno
          | result q b => exact absurd hw (hres q b)
          | caught q w => exact absurd hw (hca q w)
          | _ => trivial
      · -- the exception meets the joinable thread
        refine iff_of_false (fun hc => hc.alive ht) ?_
        unfold ThrowsAt at hthrow
        cases hw : s.worker with
        | upload q pc => rw [hw] at hthrow; exact fun hc => hc hthrow
        | _ => rw [hw] at hthrow; exact hthrow.elim
      · -- the result section
        rw [hw]
        obtain ⟨ew, ep, _⟩ := handleResult_frame s r job success
        have hex := hA.joining.exited r success hw
        have hiff := result_getStatus hA.first hw hr
        constructor
        · intro hc
          refine (hiff.mp (hc.ended r job hh (by rw [ew]; rfl) hr)).imp id fun hne j hj => ?_
          have e : j = job := Option.some.inj (hj.symm.trans hr)
          exact e ▸ hne
        · intro hc
          have hend := hiff.mpr (hc.imp id fun hall => hall job hr)
          refine ⟨by rw [ew]; nofun, fun _ _ _ => ⟨Or.inl hex, ep⟩, fun q j hq _ hj => ?_,
            fun q w j hq => by rw [hw] at hq; cases hq⟩
          obtain rfl : r = q := by
            rw [hh] at hq
            exact Hold.running.inj hq
          have e : j = job := Option.some.inj (hj.symm.trans hr)
          exact e ▸ hend
      · -- the `catch` clause
        rw [hw]
        have hiff := @exception_getStatus s r job what hA.first hw hr
        have hnone : s.poller = .none := hA.alone (by rw [hw]; rfl)
        constructor
        · intro hc
          refine (hiff.mp (hc.failed r what job hw rfl hr)).imp id fun hne j hj => ?_
          have e : j = job := Option.some.inj (hj.symm.trans hr)
          exact e ▸ hne
        · intro hc
          have hend := hiff.mpr (hc.imp id fun hall => hall job hr)
          have hone : ∀ q j, s.worker.hold = .running q → s.jobs.deref q = some j → j = job := by
            intro q j hq hj
            obtain rfl : r = q := by
              rw [hh] at hq
              exact Hold.running.inj hq
            exact Option.some.inj (hj.symm.trans hr)
          refine ⟨nofun, fun _ _ _ => ⟨Or.inr hnone, rfl⟩, fun q j hq _ hj => ?_,
            fun q w j hq _ hj => ?_⟩
          · rw [hone q j hq hj, hend]
            nofun
          · rw [hone q j (by rw [hq]; rfl) hj]
            exact hend
    · -- outside `processJob` nothing ends
      refine iff_of_true (contained_of_goesOn ?_ fun r hr => absurd ⟨r, hr⟩ hrun) ?_
      · intro hend
        cases workerStep_move hstep with
        | terminate r _ _ _ hw => exact hrun ⟨r, by rw [hw]; rfl⟩
        | head | testPaused | testEmpty => dsimp only at hend; split at hend <;> cases hend
        | result r success job => rw [(handleResult_frame s r job success).1] at hend; cases hend
        | _ => cases hend
      · unfold WorkerHolds
        cases hw : s.worker with
        | upload r _ | result r _ | caught r _ => exact absurd ⟨r, by rw [hw]; rfl⟩ hrun
        | _ => trivial
  · -- the clients and the poller leave the worker where it is
    have hstay : t.worker = s.worker := by
      by_cases hp : a = .poller
      · subst hp
        exact (pollerStep_frame (step_poller hs)).1
      · exact (client_frame hs (fun e he => hw ⟨e, he⟩) hp).1.1
    refine iff_of_true (contained_of_goesOn ?_ fun r hr => ?_) ?_
    · rw [hstay]
      exact step_alive hs
    · rw [hstay, hr]
      nofun
    · cases a with
      | worker e => exact absurd ⟨e, rfl⟩ hw
      | _ => trivial

end Step

/-! ## 3. The way to the end -/

/-- `upload()` is over: the join or the end of `processJob` is ahead. -/
def WorkerPc.behind : WorkerPc → Bool
  | .join _ _ | .result _ _ | .caught _ _ => true
  | _ => false

/-- The steps the worker has left. -/
def WorkerPc.left : WorkerPc → Nat
  | .join _ _ => 2
  | .result _ _ | .caught _ _ => 1
  | _ => 0

/-- The steps the poller has left once it is told. -/
def PollerPc.left : PollerPc → Nat
  | .read => 7
  | .store _ => 6
  | .report _ => 5
  | .check => 4
  | .pauseTest => 3
  | .cancel | .pauseStore => 2
  | .loop | .setDone => 1
  | .none | .exited => 0

/-- The steps the two threads have left. -/
def rest (s : State) : Nat := s.worker.left + s.poller.left

/-- A step of the worker or of the poller. -/
def Act.ofThread : Act → Bool
  | .worker _ | .poller => true
  | _ => false

theorem rest_le (s : State) : rest s ≤ 9 := by
  have hw : s.worker.left ≤ 2 := by cases s.worker <;> simp [WorkerPc.left]
  have hp : s.poller.left ≤ 7 := by cases s.poller <;> simp [PollerPc.left]
  exact Nat.add_le_add hw hp

section Rest

variable {cfg : Cfg} {s t : State} {a : Act}

/-- **Behind `upload()` a step of the two threads brings the end nearer**, and a client's call
    does not take it away. -/
theorem behind_step (hs : step cfg s a = some t) (hA : Attended s)
    (hb : s.worker.behind = true) : t.worker = .head ∨
      t.worker.behind = true ∧ rest t + (if a.ofThread = true then 1 else 0) ≤ rest s := by
  by_cases hw : ∃ e, a = .worker e
  · obtain ⟨e, rfl⟩ := hw
    cases workerStep_move (step_worker hs) with
    | join r success hw _ =>
      refine Or.inr ⟨rfl, ?_⟩
      unfold rest
      rw [hw]
      simp only [WorkerPc.left, Act.ofThread, if_true]
      omega
    | result r success job => exact Or.inl (handleResult_frame s r job success).1
    | caught => exact Or.inl rfl
    | head hw | testPaused hw | testEmpty hw | popNone hw | pop _ _ hw | lose _ hw | find _ _ hw
    | skip _ _ _ hw | clear _ _ _ hw | start _ _ hw | notify _ _ hw | noClient _ _ hw
    | construct _ hw | noThread _ _ hw | spawn _ hw | upload _ _ _ _ hw | uploaded _ _ _ _ hw
    | terminate _ _ _ _ hw | unwind _ _ _ _ hw | returned _ _ hw =>
      rw [hw] at hb
      cases hb
  have hw : ∀ e, a ≠ .worker e := fun e he => hw ⟨e, he⟩
  by_cases hp : a = .poller
  · subst hp
    have hstep := step_poller hs
    obtain ⟨ew, _⟩ := pollerStep_frame hstep
    refine Or.inr ⟨ew ▸ hb, ?_⟩
    -- at the join the poller has been told; nowhere else behind `upload()` does it move
    have hdone : s.poller = .loop → s.uploadDone = true := by
      intro hq
      cases hworker : s.worker with
      | join r success => exact hA.joining.told r success hworker
      | result r success => exact absurd (hq.symm.trans (hA.joining.exited r success hworker)) nofun
      | caught r what => exact absurd (hq.symm.trans (hA.alone (by rw [hworker]; rfl))) nofun
      | _ => rw [hworker] at hb; cases hb
    unfold rest
    rw [ew]
    simp only [Act.ofThread, if_true]
    have hleft : t.poller.left + 1 ≤ s.poller.left := by
      cases pollerStep_move hstep with
      | loop hq =>
        rw [hdone hq, hq]
        exact Nat.le_refl 1
      | pauseTest hq =>
        rw [hq]
        dsimp only
        split <;> decide
      | read hq | store _ _ hq | report _ _ _ hq | seesCancel _ _ hq | seesPause _ _ hq
      | seesNothing _ _ hq | cancel hq | pauseStore hq | setDone hq =>
        rw [hq]
        simp only [PollerPc.left]
        omega
    omega
  · obtain ⟨⟨ew, ep, _⟩, _⟩ := client_frame hs hw hp
    refine Or.inr ⟨ew ▸ hb, ?_⟩
    have hno : a.ofThread = false := by
      cases a with
      | worker e => exact absurd rfl (hw e)
      | poller => exact absurd rfl hp
      | _ => rfl
    unfold rest
    rw [ew, ep, hno]
    exact Nat.le_refl _

/-- **Behind `upload()` the two threads are not both blocked.** -/
theorem behind_enabled (hA : Attended s) (hb : s.worker.behind = true) :
    (∃ t, step cfg s (.worker .go) = some t) ∨ ∃ t, step cfg s .poller = some t := by
  have halive : s.worker ≠ .terminated := by
    intro hend
    rw [hend] at hb
    cases hb
  have hworker : ∀ {u : State}, workerStep cfg s .go = some u →
      ∃ t, step cfg s (.worker .go) = some t := by
    intro u hu
    refine ⟨u, ?_⟩
    unfold step
    rw [if_neg halive]
    exact hu
  have hreads : ∀ r, s.worker.job = some r → ∃ job, s.jobs.deref r = some job := by
    intro r hr
    obtain ⟨_, ⟨job, hjob, _⟩, _⟩ :=
      hA.holds r (by rw [ledger_hold, WorkerPc.hold_job]; exact hr)
    exact ⟨job, hjob⟩
  cases hw : s.worker with
  | join r success =>
    by_cases hexit : s.poller = .exited
    · refine Or.inl (hworker (u := { s with worker := .result r success }) ?_)
      unfold workerStep
      simp only [hw, hexit, if_true]
    · -- the poller is on its way
      refine Or.inr ?_
      have hh : s.worker.job = some r := by rw [hw]; rfl
      obtain ⟨job, hr⟩ := hreads r hh
      have hthere := hA.joining.present (by rw [hw]; nofun)
      unfold step
      rw [if_neg halive]
      show ∃ t, pollerStep s = some t
      unfold pollerStep
      rw [hh]
      cases hq : s.poller with
      | none => exact absurd hq hthere
      | exited => exact absurd hq hexit
      | report p => exact ⟨_, by simp only [Option.bind_eq_bind, Option.bind_some, hr]; rfl⟩
      | check =>
        simp only [Option.bind_eq_bind, Option.bind_some, hr]
        by_cases hc : job.status = .cancelled
        · exact ⟨_, if_pos hc⟩
        · by_cases hn : job.status = .paused
          · exact ⟨_, (if_neg hc).trans (if_pos hn)⟩
          · exact ⟨_, (if_neg hc).trans (if_neg hn)⟩
      | _ => exact ⟨_, rfl⟩
  | result r success =>
    obtain ⟨job, hr⟩ := hreads r (by rw [hw]; rfl)
    have hfree : s.mutexFree = true := by
      unfold State.mutexFree
      rw [hA.joining.exited r success hw]
    refine Or.inl (hworker (u := handleResult s r job success) ?_)
    unfold workerStep
    simp only [hw, hfree, if_true, hr]
    rfl
  | caught r what =>
    obtain ⟨job, hr⟩ := hreads r (by rw [hw]; rfl)
    have hfree : s.mutexFree = true := hA.alone.free (by rw [hw]; rfl)
    refine Or.inl (hworker (u := handleException s r job what) ?_)
    unfold workerStep
    simp only [hw, hfree, if_true, hr]
    rfl
  | _ => rw [hw] at hb; cases hb

/-- **Every run behind `upload()`** gets back to the top of `workerLoop`, or has taken no more
    steps of the two threads than there were left. -/
theorem behind_run {as : List Act} (hrun : (engine cfg).exec s as = some t) (hA : Attended s)
    (hb : s.worker.behind = true) :
    (∃ bs u, bs <+: as ∧ (engine cfg).exec s bs = some u ∧ u.worker = .head) ∨
      t.worker.behind = true ∧ rest t + as.countP Act.ofThread ≤ rest s := by
  induction as generalizing s with
  | nil =>
    cases hrun
    exact Or.inr ⟨hb, Nat.le_refl _⟩
  | cons a as ih =>
    obtain ⟨u, hu, hrest⟩ := Machine.exec_cons_some hrun
    have hone : ∀ {bs : List Act} {v : State}, (engine cfg).exec u bs = some v →
        (engine cfg).exec s (a :: bs) = some v := by
      intro bs v hv
      show ((engine cfg).step s a).bind _ = _
      rw [hu]
      exact hv
    rcases behind_step hu hA hb with htop | ⟨hb', hle⟩
    · exact Or.inl ⟨[a], u, ⟨as, rfl⟩, hone rfl, htop⟩
    · rcases ih hrest (step_attended hu hA) hb' with ⟨bs, v, hpre, hv, htop⟩ | ⟨hbt, hcount⟩
      · exact Or.inl ⟨a :: bs, v, (List.prefix_cons_inj a).mpr hpre, hone hv, htop⟩
      · refine Or.inr ⟨hbt, ?_⟩
        rw [List.countP_cons]
        omega

end Rest

/-! ## 4. The law over runs -/

/-- **`processJob` comes to its end**: the worker goes on from `upload()` to the join; behind it
    one of the two threads can always step, and nine steps of them are enough, whatever the
    clients do between them. -/
structure Returns (cfg : Cfg) (s : State) : Prop where
  joins : ∀ r success, s.worker = .returned r success →
    ∃ t, step cfg s (.worker .go) = some t ∧ t.worker = .join r success
  enabled : s.worker.behind = true →
    (∃ t, step cfg s (.worker .go) = some t) ∨ ∃ t, step cfg s .poller = some t
  bounded : s.worker.behind = true → ∀ as t, (engine cfg).exec s as = some t →
    9 < as.countP Act.ofThread →
      ∃ bs u, bs <+: as ∧ (engine cfg).exec s bs = some u ∧ u.worker = .head

theorem returns_of_attended {cfg : Cfg} {s : State} (hA : Attended s) : Returns cfg s where
  joins r success hw := by
    refine ⟨{ s with uploadDone := true, worker := .join r success }, ?_, rfl⟩
    unfold step workerStep
    rw [if_neg (by rw [hw]; nofun)]
    simp only [hw]
  enabled := behind_enabled hA
  bounded hb as t hrun hmany := by
    rcases behind_run hrun hA hb with htop | ⟨_, hle⟩
    · exact htop
    · have := rest_le s
      omega

/-- **Failures are contained exactly where they do not throw**: with the destructor of a joinable
    thread ending the process, every step of a run that ends an attempt ends it in order if and
    only if every step finds what it must; and in every run an attempt that is behind `upload()`
    comes to its end. -/
theorem contained_iff {cfg : Cfg} (hu : cfg.unwind = .terminates) {as : List Act} {s : State}
    (hrun : (engine cfg).exec State.init as = some s) :
    ((engine cfg).meets (fun s a => ∀ t, step cfg s a = some t → Contained s t) State.init as ↔
      (engine cfg).meets Holds State.init as) ∧ Returns cfg s := by
  refine ⟨?_, returns_of_attended ?_⟩
  · refine Machine.meets_congr_run (I := Attended) (fun _ _ _ hA hs => step_attended hs hA) ?_
      attended_init hrun
    intro s a t hA hs
    rw [← contained_step_iff hu hs hA]
    exact ⟨fun h => h t hs, fun h u hu => Option.some.inj (hs.symm.trans hu) ▸ h⟩
  · exact Machine.Steps.invariant (I := Attended)
      (Machine.steps_of_exec hrun (Machine.meets_any _ _)) attended_init
      fun _ _ _ hA _ hs => step_attended hs hA

/-- Two attempts: the first `TusClient` cannot be made and the job is FAILED, the second one uploads
    an empty file. -/
def failedThenFinished : List Act :=
  oneAttempt.take 9 ++ [.worker (.throws "no chunk directory"), .worker .go, .retry "job-a"] ++
    List.replicate 10 (.worker .go) ++ begins 0 ++ finishes

theorem contained_failedThenFinished :
    ∃ s, (engine defaultCfg).exec State.init failedThenFinished = some s ∧
      getStatus s "job-a" = .completed ∧
      s.statusLog.map (·.status) =
        [.queued, .uploading, .failed, .queued, .uploading, .completed] ∧
      Returns defaultCfg s ∧
      (engine defaultCfg).meets (fun s a => ∀ t, step defaultCfg s a = some t → Contained s t)
        State.init failedThenFinished := by
  have h : ((engine defaultCfg).exec State.init failedThenFinished).map (fun s =>
      (getStatus s "job-a", s.statusLog.map (·.status))) =
      some (.completed, [.queued, .uploading, .failed, .queued, .uploading, .completed]) := by
    decide
  obtain ⟨s, hs, hobs⟩ := Option.map_eq_some_iff.mp h
  obtain ⟨hst, hlog⟩ := Prod.mk.inj hobs
  obtain ⟨hiff, hret⟩ := contained_iff rfl hs
  exact ⟨s, hs, hst, hlog, hret, hiff.mpr (by decide)⟩

/-- **The POST of the upload meets a transport error**: its callback throws through `upload()`, the
    poller's thread is still joinable when the `try` block is left, and the process ends. -/
theorem contained_postFails : ∃ s t, (engine defaultCfg).Reach ChunksAsCut s ∧
    s.poller = .loop ∧ getStatus s "job-a" = .uploading ∧
    step defaultCfg s (.worker (.netError "timeout")) = some t ∧ t.worker = .terminated ∧
    ¬ Contained s t := by
  have h : ((engine defaultCfg).exec State.init
      (oneAttempt ++ [.worker (.chunked 0 100)])).bind (fun s =>
        (step defaultCfg s (.worker (.netError "timeout"))).map fun t =>
          (decide (s.poller = .loop), getStatus s "job-a", t.worker)) =
      some (true, .uploading, .terminated) := by
    decide
  obtain ⟨s, hs, h⟩ := Option.bind_eq_some_iff.mp h
  obtain ⟨t, ht, hobs⟩ := Option.map_eq_some_iff.mp h
  simp only [Prod.mk.injEq, decide_eq_true_eq] at hobs
  obtain ⟨hp, hst, hw⟩ := hobs
  exact ⟨s, t, Machine.steps_of_exec hs (by decide), hp, hst, ht, hw, fun hc => hc.alive hw⟩

end Viral.Upload
