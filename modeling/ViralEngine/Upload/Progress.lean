/-
  File:      ViralEngine/Upload/Progress.lean
  Subject:   THE UNIT OF THE PROGRESS: what `TusClient::progress()` answers, and what the poller
             makes of it.

  `handleSuccessfulUpload` stores a percentage of the file; the poller reads it as a fraction,
  stores it in the job and passes it to the callback. What it reads is the last offset a `PATCH`
  was answered with, a hundred times over; but the engine sends no `PATCH`, so it reads 0.

  * `ack`, `Acked`, `uploadStep_acked` -- the last acknowledged offset beside the engine, and the
    progress as its percentage;
  * `InUnit`, `ProgressOk` -- the documented range, of the jobs' fields and of the callback's
    arguments;
  * `SmallWhenRead`, `progress_hundredth` -- the offsets that are a fraction as well as a
    percentage, and the range in every run that reads no others, whatever `chunkFile` answers;
  * `progressInUnit` -- the range in every run of the engine.
-/
import ViralEngine.Upload.Contained
import ViralEngine.Upload.Uncut
import Mathlib.Algebra.Order.Field.Basic
import Mathlib.Algebra.Order.Ring.Rat
import Mathlib.Algebra.Field.Rat

namespace Viral.Upload

open Viral.Lib

/-! ## 1. The last acknowledged offset -/

namespace TusClient

/-- The last acknowledged offset behind a move of `upload()`. -/
def acks (c : TusClient) (acked : Int) : UploadPc → TusEvent → Int
  | .patch _, .patched (some o) => if c.status = .canceled then acked else o
  | _, _ => acked

/-- The server's answer is about the file: an offset lies inside it. -/
def InFile (c : TusClient) : TusEvent → Prop
  | .patched (some o) => 0 ≤ o ∧ o ≤ c.fileSize
  | _ => True

/-- `m_progress` is the percentage of the last acknowledged offset. -/
structure Acked (c : TusClient) (acked : Int) : Prop where
  value : c.progress = (acked : ℚ) / (c.fileSize : ℚ) * 100
  nonneg : 0 ≤ acked
  inFile : acked ≤ c.fileSize

/-- **One move of `upload()`** keeps `m_progress` the percentage of the last acknowledged
    offset. -/
theorem uploadStep_acked {c c' : TusClient} {pc : UploadPc} {e : TusEvent} {o : Outcome}
    {acked : Int} (h : c.uploadStep pc e = some (c', o)) (hA : c.Acked acked)
    (hfirst : pc = .chunkFile → acked = 0) (hin : ∀ i, pc = .patch i → c.InFile e) :
    c'.Acked (c.acks acked pc e) ∧ o ≠ .at .chunkFile := by
  have hzero : ∀ {n : Int} {size : Nat}, acked = 0 →
      ({ c with chunkNumber := n, fileSize := size } : TusClient).Acked acked := by
    intro n size h0
    refine ⟨?_, hA.nonneg, by rw [h0]; exact Int.natCast_nonneg _⟩
    rw [hA.value, h0]
    simp
  revert h
  fun_cases uploadStep c pc e <;> intro h
  case case11 | case22 | case31 => cases h
  all_goals obtain ⟨rfl, rfl⟩ := Prod.mk.inj (Option.some.inj h)
  case case2 | case3 => exact ⟨hzero (hfirst rfl), fun e => by cases e⟩
  case case19 i offset =>
    refine ⟨?_, fun e => by cases e⟩
    unfold handleSuccessfulUpload acks
    cases offset with
    | none =>
      split
      · exact hA
      · exact ⟨hA.value, hA.nonneg, hA.inFile⟩
    | some x =>
      split
      · exact hA
      · exact ⟨rfl, (hin i rfl).1, (hin i rfl).2⟩
  case case1 what => exact ⟨by cases pc <;> exact hA, fun e => by cases e⟩
  case case6 offset length =>
    refine ⟨?_, fun e => by cases e⟩
    cases offset <;> cases length <;> exact ⟨hA.value, hA.nonneg, hA.inFile⟩
  all_goals exact ⟨⟨hA.value, hA.nonneg, hA.inFile⟩, fun e => by cases e⟩

end TusClient

/-- The last acknowledged offset of the attempt's client, behind one more step; a new client has
    none. -/
def ack (acked : Int) (s : State) (a : Act) (t : State) : Int :=
  match s.worker, a with
  | .construct r, .worker _ => if t.worker = .spawn r then 0 else acked
  | .upload _ pc, .worker e => s.tus.acks acked pc e
  | _, _ => acked

/-- The engine with the last acknowledged offset beside it. -/
def acknowledged (cfg : Cfg) : Machine (State × Int) Act := (engine cfg).watch 0 ack

/-! ## 2. The range -/

/-- The documented range. -/
def InUnit (p : ℚ) : Prop := 0 ≤ p ∧ p ≤ 1

instance (p : ℚ) : Decidable (InUnit p) := inferInstanceAs (Decidable (_ ∧ _))

/-- **Progress is a fraction**: in every job's field, and in every call of the callback. -/
structure ProgressOk (s : State) : Prop where
  stored : ∀ job ∈ s.jobs.elems, InUnit job.progress
  reported : ∀ n ∈ s.progressLog, InUnit n.2

/-- The server's answer to a PATCH is about the file. -/
def OffsetsInFile (s : State) : Act → Prop
  | .worker e => ∀ r i, s.worker = .upload r (.patch i) → s.tus.InFile e
  | _ => True

/-- **At most a hundredth of the file** is acknowledged where the poller reads the progress. -/
def SmallWhenRead (p : State × Int) (a : Act) : Prop :=
  a = .poller → p.1.poller = .read → 100 * p.2 ≤ p.1.tus.fileSize

/-- The value the poller has read and not yet reported. -/
def PollerPc.value : PollerPc → Option ℚ
  | .store p | .report p => some p
  | _ => Option.none

/-- The attempt's client has not begun with its file. -/
def WorkerPc.fresh : WorkerPc → Bool
  | .spawn _ | .upload _ .chunkFile => true
  | _ => false

/-- The client's progress is the percentage of the acknowledged offset, 0 in front of the file. -/
structure Measured (s : State) (acked : Int) : Prop where
  client : s.tus.Acked acked
  fresh : s.worker.fresh = true → acked = 0

section Values

variable {α : Type} {P : α → Prop} {l : List α} {f : α → α}

theorem forall_modify (h : ∀ x ∈ l, P x) (hf : ∀ x, P x → P (f x)) (i : Nat) :
    ∀ x ∈ l.modify i f, P x := by
  intro x hx
  obtain ⟨k, hk⟩ := List.mem_iff_getElem?.mp hx
  rw [List.getElem?_modify] at hk
  obtain ⟨y, hy, rfl⟩ := Option.map_eq_some_iff.mp hk
  have hP := h y (List.mem_of_getElem? hy)
  split
  · exact hf y hP
  · exact hP

theorem forall_assign {v : RefVector α} (h : ∀ x ∈ v.elems, P x) (hf : ∀ x, P x → P (f x))
    (r : Ref) : ∀ x ∈ (v.assign r f).elems, P x := by
  rw [RefVector.elems_assign]
  split
  · exact forall_modify h hf r.idx
  · exact h

end Values

/-! ## 3. One step -/

section Step

variable {cfg : Cfg} {s t : State} {a : Act} {acked : Int}

/-- **Away from the poller** a job's progress is kept, or becomes 0 or 1. -/
theorem effect_inUnit {c : Option Ref} {L L' : Ledger} (h : Effect cfg c L a L')
    (hp : a ≠ .poller) (hL : ∀ job ∈ L.jobs.elems, InUnit job.progress) :
    ∀ job ∈ L'.jobs.elems, InUnit job.progress := by
  have hzero : InUnit 0 := by decide
  have hone : InUnit 1 := by decide
  cases h with
  | quiet | pop | lose | find | skip | clear | keep | terminate => exact hL
  | enqueue jobId f u t d _ =>
    intro job hjob
    rw [RefVector.elems_pushBack, List.mem_append, List.mem_singleton] at hjob
    rcases hjob with hjob | rfl
    · exact hL job hjob
    · exact hzero
  | pause i | resume i | cancel i =>
    refine forall_modify hL ?_ i
    exact fun _ h => h
  | retry i =>
    refine forall_modify hL ?_ i
    exact fun _ _ => hzero
  | start _ _ r | requeue _ r | fail _ r | caught _ r =>
    refine forall_assign hL ?_ r
    exact fun _ h => h
  | complete _ r =>
    refine forall_assign hL ?_ r
    exact fun _ _ => hone
  | progress => exact absurd rfl hp

/-- Only the poller calls the callback. -/
theorem step_progressLog (hs : step cfg s a = some t) (hp : a ≠ .poller) :
    t.progressLog = s.progressLog := by
  have hfirst : ∀ {jobId guard change push status message},
      (updateFirst s jobId guard change push status message).progressLog = s.progressLog := by
    intro jobId guard change push status message
    unfold updateFirst
    split <;> rfl
  by_cases hw : ∃ e, a = .worker e
  · obtain ⟨e, rfl⟩ := hw
    cases workerStep_move (step_worker hs) with
    | result r success job => exact (handleResult_frame s r job success).2.2.2
    | _ => rfl
  unfold step at hs
  split at hs
  · cases hs
  cases a with
  | worker e => exact absurd ⟨e, rfl⟩ hw
  | poller => exact absurd rfl hp
  | pauseAll | resumeAll | destroy => cases hs; rfl
  | setAuthToken token => rw [locked_some hs]
  | enqueue jobId f u n d =>
    rw [locked_some hs]
    unfold enqueue
    split <;> rfl
  | pause jobId | resume jobId | cancel jobId | retry jobId =>
    rw [locked_some hs]
    exact hfirst

/-- Away from the poller its value is kept or dropped. -/
theorem step_poller_value (hs : step cfg s a = some t) (hp : a ≠ .poller) :
    t.poller.value = s.poller.value ∨ t.poller.value = none := by
  by_cases hw : ∃ e, a = .worker e
  · obtain ⟨e, rfl⟩ := hw
    cases workerStep_move (step_worker hs) with
    | spawn | terminate | unwind | caught => exact Or.inr rfl
    | result r success job =>
      rw [(handleResult_frame s r job success).2.1]
      exact Or.inr rfl
    | _ => exact Or.inl rfl
  · obtain ⟨⟨_, ep, _⟩, _⟩ := client_frame hs (fun e h => hw ⟨e, h⟩) hp
    exact Or.inl (by rw [ep])

/-- **A percentage is in the range exactly up to a hundredth of the file.** -/
theorem inUnit_iff_small {c : TusClient} (hA : c.Acked acked) :
    InUnit c.progress ↔ 100 * acked ≤ c.fileSize := by
  obtain ⟨hvalue, h0, hle⟩ := hA
  unfold InUnit
  rw [hvalue]
  rcases Nat.eq_zero_or_pos c.fileSize with hsize | hsize
  · -- an empty file: no offset but 0
    have hacked : acked = 0 := by omega
    simp [hsize, hacked]
  · have hpos : (0 : ℚ) < (c.fileSize : ℚ) := by exact_mod_cast hsize
    have hnonneg : (0 : ℚ) ≤ (acked : ℚ) / (c.fileSize : ℚ) * 100 := by
      refine mul_nonneg (div_nonneg ?_ hpos.le) (by decide)
      exact_mod_cast h0
    rw [div_mul_eq_mul_div, div_le_one hpos, ← div_mul_eq_mul_div, and_iff_right hnonneg, mul_comm]
    exact_mod_cast Iff.rfl

/-- **The client's progress stays the percentage of the acknowledged offset**, whatever the
    threads do. -/
theorem step_measured (hs : step cfg s a = some t) (hin : OffsetsInFile s a)
    (hM : Measured s acked) : Measured t (ack acked s a t) := by
  obtain ⟨hA, hfresh⟩ := hM
  by_cases hw : ∃ e, a = .worker e
  · obtain ⟨e, rfl⟩ := hw
    have hkeep : ∀ {w : WorkerPc}, s.worker = w → (∀ r, w ≠ .construct r) →
        (∀ r pc, w ≠ .upload r pc) → ack acked s (.worker e) t = acked := by
      intro w hw hc hu
      unfold ack
      rw [hw]
      cases w <;> first | rfl | exact absurd rfl (hc _) | exact absurd rfl (hu _ _)
    have hmoves : ∀ {r pc tus o}, s.worker = .upload r pc →
        s.tus.uploadStep pc e = some (tus, o) →
        tus.Acked (ack acked s (.worker e) t) ∧ o ≠ .at .chunkFile := by
      intro r pc tus o hw hup
      have hack : ack acked s (.worker e) t = s.tus.acks acked pc e := by
        unfold ack
        rw [hw]
      rw [hack]
      refine TusClient.uploadStep_acked hup hA (fun hpc => hfresh ?_) fun i hpc => hin r i ?_
      · rw [hw, hpc]
        rfl
      · rw [hw, hpc]
    cases workerStep_move (step_worker hs) with
    | head hw | testPaused hw | testEmpty hw =>
      rw [hkeep hw nofun nofun]
      refine ⟨hA, fun hc => ?_⟩
      dsimp only at hc
      split at hc <;> cases hc
    | popNone hw | pop _ _ hw | lose _ hw | find _ _ hw | skip _ _ _ hw | clear _ _ _ hw
    | start _ _ hw | notify _ _ hw | returned _ _ hw | join _ _ hw | noThread _ _ hw =>
      rw [hkeep hw nofun nofun]
      exact ⟨hA, nofun⟩
    | noClient r what hw =>
      simp only [ack, hw, reduceCtorEq, if_false]
      exact ⟨hA, nofun⟩
    | construct r hw =>
      simp only [ack, hw, if_true]
      exact ⟨⟨by simp, Int.le_refl 0, Int.le_refl 0⟩, fun _ => rfl⟩
    | spawn r hw =>
      rw [hkeep hw nofun nofun]
      have h0 : acked = 0 := hfresh (by rw [hw]; rfl)
      refine ⟨?_, fun _ => h0⟩
      dsimp only
      split
      · exact hA
      · exact ⟨hA.value, hA.nonneg, hA.inFile⟩
    | upload r pc pc' tus hw hup =>
      obtain ⟨hA', hne⟩ := hmoves hw hup
      refine ⟨hA', fun hc => ?_⟩
      cases pc' with
      | chunkFile => exact absurd rfl hne
      | _ => cases hc
    | uploaded r pc tus success hw hup | terminate r pc tus what hw hup
    | unwind r pc tus what hw hup =>
      exact ⟨(hmoves hw hup).1, nofun⟩
    | result r success job hw =>
      rw [hkeep hw nofun nofun]
      obtain ⟨ew, _, etus, _⟩ := handleResult_frame s r job success
      exact ⟨etus ▸ hA, fun hc => by rw [ew] at hc; cases hc⟩
    | caught r what job hw =>
      rw [hkeep hw nofun nofun]
      exact ⟨hA, nofun⟩
  have hack : ack acked s a t = acked := by
    unfold ack
    cases hq : s.worker <;> cases a <;> first | rfl | exact absurd ⟨_, rfl⟩ hw
  rw [hack]
  by_cases hp : a = .poller
  · subst hp
    cases pollerStep_move (step_poller hs) with
    | cancel =>
      refine ⟨?_, hfresh⟩
      dsimp only [TusClient.cancelNow]
      split
      · exact hA
      · exact ⟨hA.value, hA.nonneg, hA.inFile⟩
    | pauseStore => exact ⟨⟨hA.value, hA.nonneg, hA.inFile⟩, hfresh⟩
    | _ => exact ⟨hA, hfresh⟩
  · obtain ⟨⟨ew, _, etus, _⟩, _⟩ := client_frame hs (fun e h => hw ⟨e, h⟩) hp
    exact ⟨etus ▸ hA, fun hc => hfresh (ew ▸ hc)⟩

/-- **The range and the value the poller holds**: kept by every step that reads a small
    offset. -/
theorem step_progressOk (hs : step cfg s a = some t) (hM : Measured s acked)
    (hC : SmallWhenRead (s, acked) a) (hO : ProgressOk s)
    (hV : ∀ p, s.poller.value = some p → InUnit p) :
    ProgressOk t ∧ ∀ p, t.poller.value = some p → InUnit p := by
  by_cases hp : a = .poller
  · subst hp
    have hmove := pollerStep_move (step_poller hs)
    cases hmove with
    | read hq =>
      refine ⟨⟨hO.stored, hO.reported⟩, fun p hp => ?_⟩
      obtain rfl := Option.some.inj hp
      exact (inUnit_iff_small hM.client).mpr (hC rfl hq)
    | store r p hq =>
      have hin := hV p (by rw [hq]; rfl)
      refine ⟨⟨?_, hO.reported⟩, fun p' hp' => ?_⟩
      · refine forall_assign hO.stored ?_ r
        exact fun _ _ => hin
      · obtain rfl := Option.some.inj hp'
        exact hin
    | report r p job hq =>
      have hin := hV p (by rw [hq]; rfl)
      refine ⟨⟨hO.stored, fun n hn => ?_⟩, nofun⟩
      rcases List.mem_append.mp hn with hn | hn
      · exact hO.reported n hn
      · obtain rfl := List.mem_singleton.mp hn
        exact hin
    | loop | pauseTest =>
      refine ⟨⟨hO.stored, hO.reported⟩, fun p hp => ?_⟩
      dsimp only at hp
      split at hp <;> cases hp
    | seesCancel | seesPause | seesNothing | cancel | pauseStore | setDone =>
      exact ⟨⟨hO.stored, hO.reported⟩, nofun⟩
  · refine ⟨⟨?_, ?_⟩, fun p hp' => ?_⟩
    · exact effect_inUnit (step_effect hs) hp hO.stored
    · rw [step_progressLog hs hp]
      exact hO.reported
    · rcases step_poller_value hs hp with e | e
      · exact hV p (e ▸ hp')
      · rw [e] at hp'
        cases hp'

/-- **Without a PATCH** nothing is acknowledged. -/
theorem noPatch_unacknowledged (hN : NoPatch s) :
    OffsetsInFile s a ∧ ack 0 s a t = 0 := by
  constructor
  · cases a with
    | worker e => exact fun r i hw => (hN.upload r _ hw).elim
    | _ => trivial
  · unfold ack
    split
    · split <;> rfl
    case h_2 r pc e hw =>
      cases pc with
      | patch i => exact (hN.upload r _ hw).elim
      | _ => rfl
    · rfl

/-- **Behind a larger offset the poller's next two steps report a value out of the range.** -/
theorem leaves_of_large (hM : Measured s acked) (hA : Alone s) (hO : HoldOk s.ledger)
    (hp : s.poller = .read) (hlarge : ¬ 100 * acked ≤ s.tus.fileSize) :
    ∃ t, (engine cfg).exec s [.poller, .poller, .poller] = some t ∧ ¬ ProgressOk t := by
  have hattempt : s.worker.attempt ≠ none := by
    intro hnone
    rw [hA hnone] at hp
    cases hp
  have halive : s.worker ≠ .terminated := fun hend => hattempt (by rw [hend]; rfl)
  obtain ⟨r, hr⟩ : ∃ r, s.worker.job = some r := by
    cases hw : s.worker <;> first | exact ⟨_, rfl⟩ | exact absurd (by rw [hw]; rfl) hattempt
  obtain ⟨_, ⟨job, hjob, _⟩, _⟩ := hO r (by rw [ledger_hold, WorkerPc.hold_job]; exact hr)
  let v := s.tus.progress
  have hread : step cfg s .poller = some { s with poller := .store v } := by
    unfold step
    rw [if_neg halive]
    show pollerStep s = _
    unfold pollerStep
    simp only [hr, hp, Option.bind_eq_bind, Option.bind_some, v]
  let u : State := { s with
    poller := .report v, jobs := s.jobs.assign r fun j => { j with progress := v } }
  have hstore : step cfg { s with poller := .store v } .poller = some u := by
    unfold step
    rw [if_neg halive]
    show pollerStep _ = _
    unfold pollerStep
    simp only [hr, Option.bind_eq_bind, Option.bind_some, u]
  have hderef : u.jobs.deref r = some { job with progress := v } := by
    show (s.jobs.assign r _).deref r = _
    rw [RefVector.deref_assign]
    exact congrArg (Option.map _) hjob
  let t : State := { u with poller := .check, progressLog := s.progressLog ++ [(job.id, v)] }
  have hreport : step cfg u .poller = some t := by
    unfold step
    rw [if_neg halive]
    show pollerStep u = _
    unfold pollerStep
    have hru : u.worker.job = some r := hr
    simp only [hru, hderef, Option.bind_eq_bind, Option.bind_some, u, t]
  refine ⟨t, ?_, fun hok => ?_⟩
  · show ((engine cfg).step s .poller).bind _ = _
    rw [show (engine cfg).step s .poller = _ from hread]
    show ((engine cfg).step _ .poller).bind _ = _
    rw [show (engine cfg).step _ .poller = _ from hstore]
    show ((engine cfg).step u .poller).bind _ = _
    rw [show (engine cfg).step u .poller = _ from hreport]
    rfl
  · have hin := hok.reported (job.id, v) (List.mem_append_right _ (List.mem_singleton_self _))
    exact hlarge ((inUnit_iff_small hM.client).mp hin)

theorem measured_init : Measured State.init 0 :=
  ⟨⟨by simp [State.init], Int.le_refl 0, Int.le_refl 0⟩, nofun⟩

end Step

/-! ## 4. The law over runs -/

/-- **The percentage is a fraction** in every run whose poller reads the progress only while at most
    a hundredth of the file is acknowledged; where it reads a larger one, its next two steps report
    a value out of the range. This is for any answers of `chunkFile`. -/
theorem progress_hundredth {cfg : Cfg} {s : State} {acked : Int}
    (h : (acknowledged cfg).Reach (fun p a => OffsetsInFile p.1 a) (s, acked)) :
    ((acknowledged cfg).Reach (fun p a => OffsetsInFile p.1 a ∧ SmallWhenRead p a) (s, acked) →
      ProgressOk s) ∧
    (s.poller = .read → ¬ 100 * acked ≤ s.tus.fileSize →
      ∃ t, (engine cfg).exec s [.poller, .poller, .poller] = some t ∧ ¬ ProgressOk t) := by
  refine ⟨fun hsmall => ?_, fun hp hlarge => ?_⟩
  · have hI := Machine.Steps.invariant
      (I := fun p => Measured p.1 p.2 ∧ ProgressOk p.1 ∧
        ∀ v, p.1.poller.value = some v → InUnit v) hsmall ⟨measured_init, ⟨nofun, nofun⟩, nofun⟩
      fun p a q hI hC hstep => ?_
    · exact hI.2.1
    · obtain ⟨hM, hO, hV⟩ := hI
      obtain ⟨hs, hack⟩ := Machine.watch_step_some hstep
      rw [hack]
      exact ⟨step_measured hs hC.1 hM, step_progressOk hs hM hC.2 hO hV⟩
  · have hI := Machine.Steps.invariant
      (I := fun p => Measured p.1 p.2 ∧ Alone p.1 ∧ HoldOk p.1.ledger) h
      ⟨measured_init, fun _ => rfl, nofun⟩ fun p a q hI hC hstep => ?_
    · exact leaves_of_large hI.1 hI.2.1 hI.2.2 hp hlarge
    · obtain ⟨hM, hA, hO⟩ := hI
      obtain ⟨hs, hack⟩ := Machine.watch_step_some hstep
      rw [hack]
      exact ⟨step_measured hs hC hM, step_alone hs hA, effect_holdOk (step_effect hs) hO⟩

/-- **Progress is a fraction** in every run of the engine, where `chunkFile` answers as it does for
    `VIRAL_UPLOAD_CHUNK_MB`: no PATCH is under way, nothing is acknowledged, and what the poller
    reads is 0. -/
theorem progressInUnit {cfg : Cfg} {s : State} (h : (engine cfg).Reach ChunksAsCut s) :
    ProgressOk s := by
  have hI := h.invariant (I := fun s => NoPatch s ∧ Measured s 0 ∧ ProgressOk s ∧
      ∀ v, s.poller.value = some v → InUnit v)
    ⟨⟨nofun, nofun⟩, measured_init, ⟨nofun, nofun⟩, nofun⟩ fun u a v hI hC hs => ?_
  · exact hI.2.2.1
  · obtain ⟨hN, hM, hO, hV⟩ := hI
    obtain ⟨hin, hack⟩ := noPatch_unacknowledged (a := a) (t := v) hN
    have hsmall : SmallWhenRead (u, 0) a := fun _ _ => by simp
    have hM' := step_measured hs hin hM
    rw [hack] at hM'
    exact ⟨step_noPatch hN hC hs, hM', step_progressOk hs hM hsmall hO hV⟩

/-- An attempt on an empty file with one round of the poller in it. -/
theorem progressInUnit_emptyFile : ∃ s, (engine defaultCfg).Reach ChunksAsCut s ∧
    s.progressLog = [("job-a", 0)] ∧ s.jobs.elems.map (·.progress) = [1] ∧ ProgressOk s := by
  have h : ((engine defaultCfg).exec State.init (oneAttempt ++ begins 0 ++
      List.replicate 5 .poller ++ finishes)).map (fun s =>
        (s.progressLog, s.jobs.elems.map (·.progress))) = some ([("job-a", 0)], [1]) := by
    decide +kernel
  obtain ⟨s, hs, hobs⟩ := Option.map_eq_some_iff.mp h
  obtain ⟨hlog, hjobs⟩ := Prod.mk.inj hobs
  have hreach : (engine defaultCfg).Reach ChunksAsCut s := Machine.steps_of_exec hs (by decide)
  exact ⟨s, hreach, hlog, hjobs, progressInUnit hreach⟩

end Viral.Upload
