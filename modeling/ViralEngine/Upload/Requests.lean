/-
  File:      ViralEngine/Upload/Requests.lean
  Subject:   THE QUEUE OF THE REQUESTS, `m_abort`, AND WHAT THE SERVER HAS IN THE END.

  A request of `upload()` that has not been performed is in the queue, or the upload is interrupted;
  and the flag is set by an interruption only. So a request is dropped only of an upload that is
  paused or cancelled, and it was a PATCH. A DELETE goes out behind an `execute()` of `upload()` that
  has taken the flag back: the upload is then on its way out of its loop, and sends nothing more.

  * `Settled`, `HttpOk`, `http_move` to `http_pushDelete` -- the queue, the flag and the two threads;
  * `transfer_step`, `http_step`, `transfer_ok` -- every step, and every run;
  * `transfer_whole` -- what the server has when the client is FINISHED.
-/
import ViralEngine.Upload.Sending

namespace Viral.Upload

open Viral.Lib

/-! ## 1. The queue and the flag -/

/-- `pause()` or `cancel()` has stored its status. -/
def CallPlace.Stored : CallPlace → Prop
  | .aborting _ | .emptied _ | .deleting | .executing => True
  | _ => False

/-- It was `cancel()`. -/
def CallPlace.Cancels : CallPlace → Prop
  | .aborting cancels | .emptied cancels => cancels = true
  | .deleting | .executing => True
  | _ => False

/-- The places of `upload()` behind a request that was performed. -/
def UploadPc.answered : UploadPc → Bool
  | .head | .save | .loop _ => true
  | _ => false

/-- The places from which a cancelled upload comes to its end. -/
def UploadPc.ending : UploadPc → Bool
  | .loop _ | .chunk _ | .stop | .stopCheck | .cleanup => true
  | _ => false

/-- The upload is cancelled and makes no request any more. -/
structure Settled (s : Transfer) : Prop where
  status : s.client.status = .canceled
  outside : s.waiting = .outside
  queue : .own ∉ s.queue
  place : ∀ pc, s.place = .at pc → pc.ending = true

/-- **What holds of the queue and the two threads.** -/
structure HttpOk (s : Transfer) : Prop where
  ready : s.client.status = .ready → s.poller = .idle ∧ s.abort = false
  unanswered : s.waiting = .unanswered → ∃ pc, s.place = .at pc ∧ pc.requests = true ∧
    (.own ∈ s.queue ∧ s.abort = false ∨ s.client.Interrupted)
  answered : s.waiting = .answered → ∃ pc, s.place = .at pc ∧ pc.answered = true
  stored : s.abort = true ∨ s.poller.Stored →
    s.client.status ≠ .ready ∧ s.client.status ≠ .uploading
  cancels : s.poller.Cancels → s.client.status ≠ .paused
  settled : (s.poller = .deleting ∨ s.poller = .executing) ∧ s.abort = false ∨ s.gone = true →
    Settled s
  deletes : .delete ∈ s.queue → s.poller = .executing

section Ok

variable {chunkSize : Int} {file : List UInt8} {s t : Transfer} {c : TusClient} {pc : UploadPc}
  {e : TusEvent} {o : Outcome} {caller : Caller}

theorem http_start : HttpOk .start where
  ready := fun _ => ⟨rfl, rfl⟩
  unanswered := fun h => by cases h
  answered := fun h => by cases h
  stored := fun h => h.elim (fun h => by cases h) False.elim
  cancels := False.elim
  settled := by
    rintro (⟨h | h, -⟩ | h) <;> cases h
  deletes := fun h => by cases h

/-- What a move of `upload()` makes of the status. -/
theorem uploadStep_status {c' : TusClient} (h : c.uploadStep pc e = some (c', o)) :
    c'.status = c.status ∨ c'.status = .failed ∨ c'.status = .finished ∨
      pc = .begin ∧ c'.status = .uploading := by
  revert h
  fun_cases TusClient.uploadStep c pc e <;> intro h
  case case11 | case22 | case31 => cases h
  all_goals obtain ⟨rfl, rfl⟩ := Prod.mk.inj (Option.some.inj h)
  case case6 => exact .inl (TusClient.headSuccess_status c _ _)
  case case19 => exact .inl (TusClient.handleSuccessfulUpload_status c _)
  case case5 | case7 | case10 | case20 | case23 => exact .inr (.inl rfl)
  case case12 | case29 => exact .inr (.inr (.inl rfl))
  case case9 => exact .inr (.inr (.inr ⟨rfl, rfl⟩))
  all_goals exact .inl rfl

/-- **A cancelled upload comes to its end.** -/
theorem uploadStep_ending {c' : TusClient} (h : c.uploadStep pc e = some (c', o))
    (hc : c.status = .canceled) (hp : pc.ending = true) :
    c'.status = .canceled ∧ ∀ pc', o = .at pc' → pc'.ending = true := by
  have hup : c.status ≠ .uploading := hc ▸ nofun
  have hpaused : c.status ≠ .paused := hc ▸ nofun
  revert h
  fun_cases TusClient.uploadStep c pc e <;> intro h
  case case11 | case22 | case31 => cases h
  all_goals obtain ⟨rfl, rfl⟩ := Prod.mk.inj (Option.some.inj h)
  case case1 | case17 | case25 | case30 => exact ⟨hc, fun _ ho => by cases ho⟩
  case case14 hmore => exact absurd hmore.2 hup
  case case15 | case16 | case26 | case28 =>
    refine ⟨hc, ?_⟩
    intro _ ho
    cases ho
    rfl
  case case18 hstill _ => exact absurd (not_not.mp hstill) hup
  case case27 hall => exact absurd hc hall.2.1
  all_goals cases hp

/-- Once a status is stored over READY and UPLOADING, `upload()` is interrupted at a PATCH or
    behind it. -/
theorem interrupted_at (h : TransferOk chunkSize file s) (hpc : s.place = .at pc)
    (hr : pc.requests = true ∨ pc.answered = true)
    (hst : s.client.status ≠ .ready ∧ s.client.status ≠ .uploading) :
    s.client.Interrupted ∧ ∃ i, pc = .patch i ∨ pc = .loop i := by
  have hp := h.place pc hpc
  cases pc with
  | post | head | save => exact absurd hp.2.2 hst.1
  | loop i => exact ⟨hp.1.status.resolve_left hst.2, i, .inr rfl⟩
  | patch i => exact ⟨hp.1.status.resolve_left hst.2, i, .inl rfl⟩
  | chunkFile | begin | begun | chunk | stop | stopCheck | stopFinish | cleanup =>
    rcases hr with hr | hr <;> cases hr

/-- The request of `upload()` has gone, or may go, only if `upload()` is interrupted. -/
theorem HttpOk.interrupted (h : HttpOk s) (hok : TransferOk chunkSize file s)
    (hst : s.abort = true ∨ s.poller.Stored) (hw : s.waiting = .unanswered) :
    s.client.Interrupted := by
  obtain ⟨pc, hpc, hr, -⟩ := h.unanswered hw
  exact (interrupted_at hok hpc (.inl hr) (h.stored hst)).1

/-- Behind a request that is performed. -/
theorem uploadStep_answered {c' : TusClient} {pc' : UploadPc} (hr : pc.requests = true)
    (h : c.uploadStep pc e = some (c', .at pc')) : pc'.answered = true := by
  revert h
  fun_cases TusClient.uploadStep c pc e <;> intro h
  case case11 | case22 | case31 => cases h
  all_goals obtain ⟨-, ho⟩ := Prod.mk.inj (Option.some.inj h)
  case case1 | case5 | case7 | case20 | case23 => cases ho
  case case4 | case6 | case19 | case21 | case24 =>
    obtain rfl := Outcome.at.inj ho
    rfl
  all_goals cases hr

/-- What the threads and the queue rest on, behind a move of `upload()`. -/
theorem HttpOk.stores (h : HttpOk s) (hbegin : pc = .begin → s.client.status = .ready)
    (hs : s.client.uploadStep pc e = some (c, o)) :
    (c.status = .ready → s.poller = .idle ∧ s.abort = false) ∧
      (s.abort = true ∨ s.poller.Stored → c.status ≠ .ready ∧ c.status ≠ .uploading) ∧
      (s.poller.Cancels → c.status ≠ .paused) := by
  rcases uploadStep_status hs with he | he | he | ⟨hb, he⟩
  · rw [he]
    exact ⟨h.ready, h.stored, h.cancels⟩
  · rw [he]
    exact ⟨nofun, fun _ => ⟨nofun, nofun⟩, fun _ => nofun⟩
  · rw [he]
    exact ⟨nofun, fun _ => ⟨nofun, nofun⟩, fun _ => nofun⟩
  · -- UPLOADING is stored over READY only
    rw [he]
    exact ⟨nofun, fun ha => absurd (hbegin hb) (h.stored ha).1, fun _ => nofun⟩

/-- The file has no part in it, and the server only where something is gone. -/
theorem HttpOk.server (h : HttpOk s) (chunks : List (List UInt8)) (resource : List UInt8)
    {gone : Bool} (hgone : gone = true → s.gone = true) :
    HttpOk { s with chunks := chunks, resource := resource, gone := gone } :=
  { h with settled := fun ha => { h.settled (ha.imp_right hgone) with } }

/-- **A move of `upload()`** outside of `execute()`. -/
theorem http_move (h : HttpOk s) (hok : TransferOk chunkSize file s) (hpc : s.place = .at pc)
    (hout : s.waiting = .outside) (hs : s.client.uploadStep pc e = some (c, o)) :
    HttpOk { s with client := c, place := o } := by
  have hbegin : pc = .begin → s.client.status = .ready := by
    rintro rfl
    exact (hok.place _ hpc).2.2
  obtain ⟨hready, hstored, hcancels⟩ := h.stores hbegin hs
  exact {
    ready := hready
    unanswered := fun hw => by cases hout.symm.trans hw
    answered := fun hw => by cases hout.symm.trans hw
    stored := hstored
    cancels := hcancels
    settled := fun ha => by
      have hold := h.settled ha
      obtain ⟨hc, hend⟩ := uploadStep_ending hs hold.status (hold.place pc hpc)
      exact ⟨hc, hold.outside, hold.queue, hend⟩
    deletes := h.deletes }

theorem http_push (h : HttpOk s) (hok : TransferOk chunkSize file s) (hpc : s.place = .at pc)
    (hr : pc.requests = true) :
    HttpOk { s with waiting := .unanswered, queue := s.queue ++ [.own] } where
  ready := h.ready
  unanswered := fun _ => by
    refine ⟨pc, hpc, hr, ?_⟩
    by_cases ha : s.abort = true
    · exact .inr (interrupted_at hok hpc (.inl hr) (h.stored (.inl ha))).1
    · exact .inl ⟨List.mem_append_right _ (List.mem_singleton_self _), Bool.not_eq_true _ ▸ ha⟩
  answered := fun hw => by cases hw
  stored := h.stored
  cancels := h.cancels
  settled := fun ha => by
    -- none of the places of a settled upload is in front of a request
    have hend := (h.settled ha).place pc hpc
    cases pc with
    | chunkFile | save | begin | begun | loop | chunk | stop | stopCheck | stopFinish | cleanup =>
      cases hr
    | post | head | patch => cases hend
  deletes := fun hd => by
    rcases List.mem_append.mp hd with hd | hd
    · exact h.deletes hd
    · cases List.mem_singleton.mp hd

/-- **The request of `upload()` is performed by its own thread.** -/
theorem perform_own (h : HttpOk s) (ht : s.perform caller e = some t) :
    ∃ queue pc c o, s.waiting = .unanswered ∧ s.queue = .own :: queue ∧ s.place = .at pc ∧
      s.client.uploadStep pc e = some (c, o) ∧ t = s.answer .upload queue c o := by
  obtain ⟨queue, pc, c, o, hx, ha, hw, hqueue, hpc, hs, rfl⟩ := perform_some ht
  refine ⟨queue, pc, c, o, hw, hqueue, hpc, hs, ?_⟩
  cases caller with
  | upload => rfl
  | poller => cases (h.settled (.inl ⟨.inr hx, ha⟩)).outside.symm.trans hw

theorem TransferOk.answer {queue : List Request}
    (h : TransferOk chunkSize file { s with client := c, place := o }) :
    TransferOk chunkSize file (s.answer .upload queue c o) := by
  cases o <;> exact h.same rfl rfl rfl rfl id

theorem http_answer (h : HttpOk s) (hpc : s.place = .at pc) {queue : List Request}
    (hw : s.waiting = .unanswered) (hqueue : s.queue = .own :: queue)
    (hs : s.client.uploadStep pc e = some (c, o)) : HttpOk (s.answer .upload queue c o) := by
  obtain ⟨pc₀, hpc₀, hr, -⟩ := h.unanswered hw
  obtain rfl : pc₀ = pc := Outcome.at.inj (hpc₀.symm.trans hpc)
  have hbegin : pc₀ = .begin → s.client.status = .ready := by
    rintro rfl
    cases hr
  obtain ⟨hready, hstored, hcancels⟩ := h.stores hbegin hs
  have hnot : ∀ {p : Prop}, Settled s → p := fun hold => by cases hold.outside.symm.trans hw
  have hdeletes : .delete ∈ queue → s.poller = .executing := fun hd =>
    h.deletes (hqueue ▸ List.mem_cons_of_mem _ hd)
  cases o with
  | «at» pc' =>
    exact {
      ready := hready
      unanswered := fun hw => by cases hw
      answered := fun _ => ⟨pc', rfl, uploadStep_answered hr hs⟩
      stored := hstored
      cancels := hcancels
      settled := fun ha => hnot (h.settled ha)
      deletes := hdeletes }
  | returned | threw =>
    exact {
      ready := hready
      unanswered := fun hw => by cases hw
      answered := fun hw => by cases hw
      stored := hstored
      cancels := hcancels
      settled := fun ha => hnot (h.settled ha)
      deletes := h.deletes }

/-- **The thread of `upload()` leaves `execute()`**, and takes `m_abort` back. -/
theorem http_leave (h : HttpOk s) (hok : TransferOk chunkSize file s)
    (hx : s.waiting ≠ .outside) :
    HttpOk { s with
      place := if s.waiting = .unanswered then s.place.dropped else s.place
      waiting := .outside, queue := [], abort := false } where
  ready := fun hr => ⟨(h.ready hr).1, rfl⟩
  unanswered := fun hw => by cases hw
  answered := fun hw => by cases hw
  stored := fun ha => h.stored (.inr (ha.resolve_left fun h => by cases h))
  cancels := h.cancels
  settled := fun ha => by
    rcases ha with ⟨hp, -⟩ | hgone
    case inr => exact absurd (h.settled (.inr hgone)).outside hx
    -- the flag was set, so the upload is cancelled
    have habort : s.abort = true := by
      by_contra hno
      exact hx (h.settled (.inl ⟨hp, by simpa using hno⟩)).outside
    have hcancels : s.poller.Cancels := by rcases hp with hp | hp <;> rw [hp] <;> trivial
    have hstored := h.stored (.inl habort)
    cases hw : s.waiting with
    | outside => exact absurd hw hx
    | unanswered =>
      obtain ⟨pc, hpc, hr, -⟩ := h.unanswered hw
      obtain ⟨hi, i, rfl | rfl⟩ := interrupted_at hok hpc (.inl hr) hstored
      · refine ⟨hi.resolve_left (h.cancels hcancels), rfl, List.not_mem_nil, ?_⟩
        rw [hpc]
        intro _ ho
        cases ho
        rfl
      · cases hr
    | answered =>
      obtain ⟨pc, hpc, hr⟩ := h.answered hw
      obtain ⟨hi, i, rfl | rfl⟩ := interrupted_at hok hpc (.inr hr) hstored
      · cases hr
      · refine ⟨hi.resolve_left (h.cancels hcancels), rfl, List.not_mem_nil, ?_⟩
        rw [hpc]
        intro _ ho
        cases ho
        rfl
  deletes := fun hd => by cases hd

/-- The poller's thread leaves `execute()`. -/
theorem http_returns (h : HttpOk s) (hok : TransferOk chunkSize file s)
    (hp : s.poller = .executing) :
    HttpOk { s with queue := [], abort := false, poller := .idle } where
  ready := fun _ => ⟨rfl, rfl⟩
  unanswered := fun hw => by
    obtain ⟨pc, hpc, hr, -⟩ := h.unanswered hw
    exact ⟨pc, hpc, hr, .inr (h.interrupted hok (.inr (hp ▸ trivial)) hw)⟩
  answered := h.answered
  stored := fun ha => by
    rcases ha with ha | ha
    · cases ha
    · exact ha.elim
  cancels := False.elim
  settled := fun ha => by
    rcases ha with ⟨hp | hp, -⟩ | hgone
    · cases hp
    · cases hp
    · exact { h.settled (.inr hgone) with queue := List.not_mem_nil }
  deletes := fun hd => by cases hd

/-- **A DELETE reaches the server only of an upload that is settled.** -/
theorem HttpOk.settled_delete (h : HttpOk s) {queue : List Request}
    (hqueue : s.queue = .delete :: queue) (ha : s.abort = false) : Settled s := by
  have hp : s.poller = .executing := h.deletes (hqueue ▸ List.mem_cons_self)
  exact h.settled (.inl ⟨.inr hp, ha⟩)

theorem http_delete (h : HttpOk s) (hsettled : Settled s) {queue : List Request}
    (hqueue : s.queue = .delete :: queue) (resource : List UInt8) (gone : Bool) :
    HttpOk { s with queue := queue, resource := resource, gone := gone } :=
  { h with
    unanswered := fun hw => by cases hsettled.outside.symm.trans hw
    settled := fun _ =>
      { hsettled with
        queue := fun hq => hsettled.queue (hqueue ▸ List.mem_cons_of_mem _ hq) }
    deletes := fun hd => h.deletes (hqueue ▸ List.mem_cons_of_mem _ hd) }

/-! ## 2. The calls of the poller's thread -/

theorem http_pauseTest (h : HttpOk s) (hp : s.poller = .idle) :
    HttpOk { s with poller := if s.client.status = .uploading then .pausing else .idle } where
  ready := fun hr => ⟨if_neg (hr ▸ nofun), (h.ready hr).2⟩
  unanswered := h.unanswered
  answered := h.answered
  stored := fun ha => by
    rcases ha with ha | ha
    · exact h.stored (.inl ha)
    · dsimp only at ha
      split at ha <;> exact ha.elim
  cancels := fun hc => by
    dsimp only at hc
    split at hc <;> exact hc.elim
  settled := fun ha => by
    rcases ha with ⟨hd, -⟩ | hgone
    · dsimp only at hd
      split at hd <;> rcases hd with hd | hd <;> cases hd
    · exact { h.settled (.inr hgone) with }
  deletes := fun hd => by cases hp.symm.trans (h.deletes hd)

/-- A status is stored by `pause()` or by `cancel()`. -/
theorem http_store (h : HttpOk s) {x : TusStatus} {cancels : Bool}
    (hx : x = if cancels then .canceled else .paused) (hp : s.poller ≠ .executing)
    (hgone : s.gone = true → cancels = true) :
    HttpOk { s with client := { s.client with status := x }, poller := .aborting cancels } := by
  have hi : x = .paused ∨ x = .canceled := by
    cases cancels
    · exact .inl hx
    · exact .inr hx
  exact {
    ready := fun hr => by rcases hi with rfl | rfl <;> cases hr
    unanswered := fun hw => by
      obtain ⟨pc, hpc, hr, -⟩ := h.unanswered hw
      exact ⟨pc, hpc, hr, .inr hi⟩
    answered := h.answered
    stored := fun _ => by rcases hi with rfl | rfl <;> exact ⟨nofun, nofun⟩
    cancels := fun hc => by
      rw [show cancels = true from hc] at hx
      rw [hx]
      exact nofun
    settled := fun ha => by
      rcases ha with ⟨hd | hd, -⟩ | hg
      · cases hd
      · cases hd
      · have hcancels := hgone hg
        rw [hcancels] at hx
        exact { h.settled (.inr hg) with status := hx }
    deletes := fun hd => absurd (h.deletes hd) hp }

theorem http_empty (h : HttpOk s) (hok : TransferOk chunkSize file s) {cancels : Bool}
    (hp : s.poller = .aborting cancels) :
    HttpOk { s with queue := [], poller := .emptied cancels } where
  ready := fun hr => absurd hr (h.stored (.inr (hp ▸ trivial))).1
  unanswered := fun hw => by
    obtain ⟨pc, hpc, hr, -⟩ := h.unanswered hw
    exact ⟨pc, hpc, hr, .inr (h.interrupted hok (.inr (hp ▸ trivial)) hw)⟩
  answered := h.answered
  stored := fun _ => h.stored (.inr (hp ▸ trivial))
  cancels := fun hc => h.cancels (hp ▸ hc)
  settled := fun ha => by
    rcases ha with ⟨hd | hd, -⟩ | hgone
    · cases hd
    · cases hd
    · exact { h.settled (.inr hgone) with queue := List.not_mem_nil }
  deletes := fun hd => by cases hd

theorem http_abort (h : HttpOk s) (hok : TransferOk chunkSize file s) {cancels : Bool}
    (hp : s.poller = .emptied cancels) :
    HttpOk { s with abort := true, poller := if cancels then .deleting else .idle } where
  ready := fun hr => absurd hr (h.stored (.inr (hp ▸ trivial))).1
  unanswered := fun hw => by
    obtain ⟨pc, hpc, hr, -⟩ := h.unanswered hw
    exact ⟨pc, hpc, hr, .inr (h.interrupted hok (.inr (hp ▸ trivial)) hw)⟩
  answered := h.answered
  stored := fun _ => h.stored (.inr (hp ▸ trivial))
  cancels := fun hc => by
    cases cancels with
    | true => exact h.cancels (hp ▸ rfl)
    | false => exact hc.elim
  settled := fun ha => by
    rcases ha with ⟨-, ha⟩ | hgone
    · cases ha
    · exact { h.settled (.inr hgone) with }
  deletes := fun hd => by cases hp.symm.trans (h.deletes hd)

theorem http_pushDelete (h : HttpOk s) (hp : s.poller = .deleting) :
    HttpOk { s with queue := s.queue ++ [.delete], poller := .executing } where
  ready := fun hr => absurd hr (h.stored (.inr (hp ▸ trivial))).1
  unanswered := fun hw => by
    obtain ⟨pc, hpc, hr, hq⟩ := h.unanswered hw
    exact ⟨pc, hpc, hr, hq.imp_left fun hq => ⟨List.mem_append_left _ hq.1, hq.2⟩⟩
  answered := h.answered
  stored := fun _ => h.stored (.inr (hp ▸ trivial))
  cancels := fun _ => h.cancels (hp ▸ trivial)
  settled := fun ha => by
    have hold := h.settled (ha.imp_left fun ha => ⟨.inl hp, ha.2⟩)
    refine { hold with queue := fun hq => ?_ }
    rcases List.mem_append.mp hq with hq | hq
    · exact hold.queue hq
    · cases List.mem_singleton.mp hq
  deletes := fun _ => rfl

/-! ## 3. One step -/

/-- **The resource is taken away** from an upload that is settled. -/
theorem transfer_gone (h : TransferOk chunkSize file s) (hsettled : Settled s) :
    TransferOk chunkSize file { s with resource := [] } where
  place := fun pc hpc => by
    have hp := h.place pc hpc
    have hend := hsettled.place pc hpc
    have hstatus := hsettled.status
    cases pc with
    | loop i | chunk i => exact ⟨hp.1, .inr (.inr hstatus)⟩
    | stop => exact .inr (.inr hstatus)
    | stopCheck => exact .inr hstatus
    | cleanup => trivial
    | chunkFile | post | head | save | begin | begun | patch | stopFinish => cases hend
  chunks := h.chunks
  part := List.nil_prefix
  finished := fun hf => by cases hsettled.status.symm.trans hf
  pausing := h.pausing

/-- Where a request is performed, the resource is there. -/
theorem HttpOk.there (h : HttpOk s) (hw : s.waiting = .unanswered) : s.gone = false := by
  by_contra hgone
  have hout := (h.settled (.inr (Bool.eq_true_of_not_eq_false hgone))).outside
  cases hout.symm.trans hw

/-- **One step** of what the client and the server have. -/
theorem transfer_step (h : TransferOk chunkSize file s) (hh : HttpOk s) {a : TransferAct}
    (ha : NoneTooEarly s a) (ht : s.step chunkSize file a = some t) :
    TransferOk chunkSize file t := by
  cases step_move ht with
  | own e pc c o he hpc _ hs => exact transfer_quiet h hpc he.quiet hs
  | cut pc c o hpc _ hs => exact transfer_cut h hpc hs
  | cutFailed pc c o _ hpc _ hs => exact transfer_cutFailed h hpc hs
  | post caller location _ ht =>
    obtain ⟨queue, pc, c, o, -, -, hpc, hs, rfl⟩ :=
      perform_own (hh.server s.chunks [] (fun hg => by cases hg)) ht
    exact (transfer_post h hpc hs).answer
  | info caller _ ht =>
    obtain ⟨queue, pc, c, o, -, -, hpc, hs, rfl⟩ := perform_own hh ht
    exact (transfer_info h hpc hs).answer
  | patch caller i body _ hat hbody ht =>
    obtain ⟨queue, pc, c, o, hw, -, hpc, hs, rfl⟩ :=
      perform_own (hh.server s.chunks (s.resource ++ body) id) ht
    obtain rfl : pc = .patch i := Outcome.at.inj (hpc.symm.trans hat)
    exact (transfer_patch h hat (hh.there hw) hbody hs).answer
  | lost caller taken e _ he ht =>
    obtain ⟨queue, pc, c, o, hw, -, hpc, hs, rfl⟩ :=
      perform_own (hh.server s.chunks (s.resource ++ (s.body.getD []).take taken) id) ht
    exact (transfer_lost h hpc (hh.there hw) he hs).answer
  | deleted caller done queue hqueue _ habort =>
    cases done with
    | true =>
      exact (transfer_gone h (hh.settled_delete hqueue habort)).same rfl rfl rfl rfl id
    | false => exact h.same rfl rfl rfl rfl id
  | leaveUpload hx hend =>
    by_cases hw : s.waiting = .unanswered
    · obtain ⟨pc, hpc, hr, hq⟩ := hh.unanswered hw
      have hi : s.client.Interrupted := by
        refine hq.resolve_left fun hq => ?_
        rcases hend with hend | hend
        · cases hq.2.symm.trans hend
        · cases hend ▸ hq.1
      simp only [hw, if_true, hpc]
      exact (transfer_dropped h hpc hr hi).same rfl rfl rfl rfl id
    · simp only [hw, if_false]
      exact h.same rfl rfl rfl rfl id
  | pauseTest hp =>
    refine { h with pausing := fun hp hc => ?_ }
    dsimp only at hp
    split at hp
    case isTrue hup => cases hup.symm.trans hc
    case isFalse => cases hp
  | pauseStore hp =>
    refine h.interrupt (.inr rfl) (fun hready => ?_) (fun _ => h.pausing hp) nofun
    cases (hh.ready hready).1.symm.trans hp
  | cancelNothing => exact h
  | cancel _ hlocation =>
    exact h.interrupt (.inl rfl) (fun hready => hlocation (ha hready)) (fun hx => by cases hx)
      nofun
  | push => exact h.same rfl rfl rfl rfl id
  | leavePoller | empty | delete => exact h.same rfl rfl rfl rfl fun hp => by cases hp
  | abort cancels => exact h.same rfl rfl rfl rfl fun hp => by cases cancels <;> cases hp

/-- **One step** of the queue and the two threads. -/
theorem http_step (h : TransferOk chunkSize file s) (hh : HttpOk s) {a : TransferAct}
    (ht : s.step chunkSize file a = some t) : HttpOk t := by
  cases step_move ht with
  | own e pc c o _ hpc hout hs => exact http_move hh h hpc hout hs
  | cut pc c o hpc hout hs => exact (http_move hh h hpc hout hs).server _ _ id
  | cutFailed pc c o _ hpc hout hs => exact http_move hh h hpc hout hs
  | push pc hpc _ hr => exact http_push hh h hpc hr
  | post caller location _ ht =>
    have hh' := hh.server s.chunks [] fun hg : false = true => by cases hg
    obtain ⟨queue, pc, c, o, hw, hqueue, hpc, hs, rfl⟩ := perform_own hh' ht
    exact http_answer hh' hpc hw hqueue hs
  | info caller _ ht =>
    obtain ⟨queue, pc, c, o, hw, hqueue, hpc, hs, rfl⟩ := perform_own hh ht
    exact http_answer hh hpc hw hqueue hs
  | patch caller i body _ _ _ ht =>
    have hh' := hh.server s.chunks (s.resource ++ body) id
    obtain ⟨queue, pc, c, o, hw, hqueue, hpc, hs, rfl⟩ := perform_own hh' ht
    exact http_answer hh' hpc hw hqueue hs
  | lost caller taken e _ _ ht =>
    have hh' := hh.server s.chunks (s.resource ++ (s.body.getD []).take taken) id
    obtain ⟨queue, pc, c, o, hw, hqueue, hpc, hs, rfl⟩ := perform_own hh' ht
    exact http_answer hh' hpc hw hqueue hs
  | deleted caller done queue hqueue _ ha =>
    exact http_delete hh (hh.settled_delete hqueue ha) hqueue _ _
  | leaveUpload hx => exact http_leave hh h hx
  | leavePoller hx => exact http_returns hh h hx
  | pauseTest hp => exact http_pauseTest hh hp
  | pauseStore hp =>
    refine http_store hh rfl (hp ▸ nofun) fun hgone => ?_
    exact absurd (hh.settled (.inr hgone)).status (h.pausing hp)
  | cancelNothing => exact hh
  | cancel hp => exact http_store hh rfl (hp ▸ nofun) fun _ => rfl
  | empty cancels hp => exact http_empty hh h hp
  | abort cancels hp => exact http_abort hh h hp
  | delete hp => exact http_pushDelete hh hp

/-- What holds in every state, as long as `cancel()` does not come too early. -/
theorem transfer_ok (h : (transfer chunkSize file).Reach NoneTooEarly s) :
    TransferOk chunkSize file s := by
  have hboth : TransferOk chunkSize file s ∧ HttpOk s := by
    refine h.invariant (I := fun s => TransferOk chunkSize file s ∧ HttpOk s)
      ⟨transfer_start chunkSize file, http_start⟩ ?_
    intro u a v hu ha hs
    exact ⟨transfer_step hu.1 hu.2 ha hs, http_step hu.1 hu.2 hs⟩
  exact hboth.1

end Ok

/-! ## 4. What the server has -/

/-- **A finished upload is whole**: in every run in which `cancel()` does not come while the client
    is READY, whatever of the answers is lost and whenever the upload is paused or cancelled, what
    the server has is the beginning of the file; and where the client is FINISHED it is the file,
    exactly if the length of the file is below 2³¹: beyond that the length is not read, and nothing
    at all has been sent. -/
theorem transfer_whole {chunkSize : Int} {file : List UInt8} {s : Transfer}
    (h : (transfer chunkSize file).Reach NoneTooEarly s) :
    s.resource <+: file ∧
      (s.client.status = .finished → (s.resource = file ↔ file.length < 2 ^ 31)) := by
  have hok := transfer_ok h
  refine ⟨hok.part, fun hf => ?_⟩
  have hresource := hok.finished hf
  constructor
  · intro hw
    by_contra hlong
    have hnil : s.resource = [] := hresource.trans (if_neg hlong)
    rw [← hw, hnil] at hlong
    exact hlong (by decide)
  · intro hshort
    exact hresource.trans (if_pos hshort)

/-- A request is put into the queue, answered as `a` says, and `execute()` is left. -/
def request (a : TransferAct) : List TransferAct := [.push, a, .leave .upload]

/-- Up to the loop of the chunks. -/
def toTheLoop : List TransferAct :=
  .cut :: request (.post .upload "https://up/files/7") ++ request (.info .upload) ++
    List.replicate 3 (.own .go)

theorem transfer_whole_short : ∃ s, (transfer 0 [7, 8, 9]).Reach NoneTooEarly s ∧
    s.client.status = .finished ∧ s.resource = [7, 8, 9] := by
  obtain ⟨s, hs, hf⟩ : ∃ s, (transfer 0 [7, 8, 9]).exec (transfer 0 [7, 8, 9]).init
      (toTheLoop ++ List.replicate 2 (.own .go) ++ request (.patch .upload) ++
        List.replicate 4 (.own .go)) = some s ∧ s.client.status = .finished := ⟨_, rfl, rfl⟩
  have hreach : (transfer 0 [7, 8, 9]).Reach NoneTooEarly s :=
    Machine.steps_of_exec hs (by decide)
  exact ⟨s, hreach, hf, ((transfer_whole hreach).2 hf).mpr (by decide)⟩

/-- `cancel()` comes between the two requests, and its `abortAll` drops the second one. -/
def cancelledEarly : List TransferAct :=
  .cut :: request (.post .upload "https://up/files/7") ++
    [.push, .cancel, .empty, .leave .upload, .own .go, .own .go, .own .go]

/-- The client is FINISHED, and the server has nothing of the file. -/
example : ((transfer 0 [7, 8, 9]).exec (transfer 0 [7, 8, 9]).init cancelledEarly).map
    (fun s => (s.client.status, s.place, s.resource)) =
      some (.finished, .returned true, []) := by decide

end Viral.Upload
