/-
  File:      ViralEngine/Upload/Uncut.lean
  Subject:   A CLIENT THAT IS GIVEN THE SIZE OF ITS CHUNKS.

  `FileChunker` counts its chunks in the constructor without a size only; where one is given the
  count is 0, and `getChunks` throws at the first chunk. So nothing of a file is ever sent; and the
  engine gives a size.

  * `NoChunk`, `uploadStep_noChunk` -- a move of such a client;
  * `Unfilled`, `unfilled_step`, `transfer_fixed` -- with a server;
  * `NoPatch`, `step_noPatch`, `engine_noPatch` -- in the engine.
-/
import ViralEngine.Upload.Requests

namespace Viral.Upload

open Viral.Lib

/-! ## 1. The client -/

/-- The chunks are none, wherever `upload()` is; and a chunk is never below the first. -/
def NoChunk (c : TusClient) : UploadPc → Prop
  | .patch _ => False
  | .loop i | .chunk i => c.chunkNumber ≤ 0 ∧ 0 ≤ c.uploadedChunks ∧ 0 ≤ i
  | _ => c.chunkNumber ≤ 0 ∧ 0 ≤ c.uploadedChunks

section NoChunk

variable {c : TusClient} {pc pc' : UploadPc} {e : TusEvent}

theorem noChunk_status {c' : TusClient} (h : NoChunk c pc)
    (hnumber : c'.chunkNumber = c.chunkNumber) (hcounted : c'.uploadedChunks = c.uploadedChunks) :
    NoChunk c' pc := by
  cases pc <;> simp only [NoChunk, hnumber, hcounted] at h ⊢ <;> exact h

/-- **One move of `upload()`**: the first chunk is not there. -/
theorem uploadStep_noChunk (h : NoChunk c pc) (hC : ∀ n size, e = .chunked n size → n ≤ 0)
    {c' : TusClient} (hs : c.uploadStep pc e = some (c', .at pc')) : NoChunk c' pc' := by
  revert hs
  fun_cases TusClient.uploadStep c pc e <;> intro hs
  case case11 | case22 | case31 => cases hs
  all_goals obtain ⟨rfl, ho⟩ := Prod.mk.inj (Option.some.inj hs)
  case case1 | case2 | case5 | case7 | case10 | case12 | case17 | case20 | case23 | case25
    | case30 => cases ho
  all_goals obtain rfl := Outcome.at.inj ho
  case case3 => exact ⟨hC _ _ rfl, h.2⟩
  case case4 => exact h
  case case6 offset length => cases offset <;> cases length <;> exact h
  case case8 | case9 | case14 => exact h
  case case13 => exact ⟨h.1, h.2, h.2⟩
  case case15 => exact ⟨h.1, h.2.1⟩
  case case16 => exact ⟨h.1, h.2.1, by have := h.2.2; omega⟩
  case case18 hlt => exact absurd (Int.le_trans h.1 h.2.2) hlt
  case case19 | case21 | case24 => exact h.elim
  case case26 | case27 | case28 | case29 => exact h

/-- Where `upload()` is left, nothing is counted any more. -/
theorem noChunk_left (h : NoChunk c pc) (he : ∀ n size, e ≠ .chunked n size) {c' : TusClient}
    {o : Outcome} (hs : c.uploadStep pc e = some (c', o)) (ho : ∀ pc', o ≠ .at pc') :
    NoChunk c' pc := by
  revert hs
  fun_cases TusClient.uploadStep c pc e <;> intro hs
  case case11 | case22 | case31 => cases hs
  all_goals obtain ⟨rfl, rfl⟩ := Prod.mk.inj (Option.some.inj hs)
  case case2 => exact absurd rfl (he _ _)
  case case1 | case5 | case7 | case10 | case12 | case17 | case20 | case23 | case25 | case30 =>
    exact noChunk_status h rfl rfl
  all_goals exact absurd rfl (ho _)

end NoChunk

/-! ## 2. With a server -/

/-- Nothing is sent, and nothing will be. -/
structure Unfilled (s : Transfer) : Prop where
  resource : s.resource = []
  place : ∀ pc, s.place = .at pc → NoChunk s.client pc

section Unfilled

variable {chunkSize : Int} {file : List UInt8} {s t : Transfer} {c : TusClient} {pc : UploadPc}
  {e : TusEvent} {o : Outcome} {caller : Caller}

theorem Unfilled.body (h : Unfilled s) : s.body = none := by
  unfold Transfer.body
  split
  case h_1 i hi => exact (h.place _ hi).elim
  case h_2 => rfl

/-- Behind a move of the client, or a callback. -/
theorem Unfilled.moved (h : Unfilled s) (hpc : s.place = .at pc)
    (hC : ∀ n size, e = .chunked n size → n ≤ 0) (hs : s.client.uploadStep pc e = some (c, o)) :
    Unfilled { s with client := c, place := o } where
  resource := h.resource
  place := fun pc' ho => by
    rw [show o = .at pc' from ho] at hs
    exact uploadStep_noChunk (h.place pc hpc) hC hs

/-- The threads and the queue have no part in it. -/
theorem Unfilled.same (h : Unfilled s) (hresource : t.resource = []) (hplace : t.place = s.place)
    (hnumber : t.client.chunkNumber = s.client.chunkNumber)
    (hcounted : t.client.uploadedChunks = s.client.uploadedChunks) : Unfilled t where
  resource := hresource
  place := fun pc hpc => noChunk_status (h.place pc (hplace ▸ hpc)) hnumber hcounted

/-- Behind a round of `execute()`, in whichever thread. -/
theorem Unfilled.performed (h : Unfilled s) (he : ∀ n size, e ≠ .chunked n size)
    (ht : s.perform caller e = some t) : Unfilled t := by
  obtain ⟨queue, pc, c, o, -, -, -, -, hpc, hs, rfl⟩ := perform_some ht
  have hmoved := h.moved hpc (fun n size heq => absurd heq (he n size)) hs
  cases o with
  | «at» pc' => exact ⟨hmoved.resource, hmoved.place⟩
  | returned | threw =>
    cases caller with
    | upload => exact ⟨hmoved.resource, hmoved.place⟩
    | poller =>
      -- the exception goes up in the other thread, and the place stays
      refine ⟨h.resource, fun pc' hpc' => ?_⟩
      obtain rfl : pc = pc' := Outcome.at.inj (hpc.symm.trans hpc')
      exact noChunk_left (h.place pc hpc) he hs fun _ ho => by cases ho

end Unfilled

/-- What holds of the engine with such answers. -/
structure NoPatch (s : State) : Prop where
  spawn : ∀ r, s.worker = .spawn r → NoChunk s.tus .chunkFile
  upload : ∀ r pc, s.worker = .upload r pc → NoChunk s.tus pc

section Engine

variable {cfg : Cfg} {s t : State} {c : TusClient} {pc pc' : UploadPc} {e : TusEvent}

theorem step_noPatch {a : Act} (h : NoPatch s) (hC : ChunksAsCut s a)
    (hs : step cfg s a = some t) : NoPatch t := by
  by_cases hp : a = .poller
  · subst hp
    have hstep := step_poller hs
    have hframe := pollerStep_move hstep
    cases hframe with
    | cancel _ =>
      unfold TusClient.cancelNow
      split
      · exact ⟨h.spawn, h.upload⟩
      · exact ⟨fun r hw => noChunk_status (h.spawn r hw) rfl rfl,
          fun r pc hw => noChunk_status (h.upload r pc hw) rfl rfl⟩
    | pauseStore _ =>
      exact ⟨fun r hw => noChunk_status (h.spawn r hw) rfl rfl,
        fun r pc hw => noChunk_status (h.upload r pc hw) rfl rfl⟩
    | loop | read | store | report | seesCancel | seesPause | seesNothing | pauseTest | setDone =>
      exact ⟨h.spawn, h.upload⟩
  · by_cases hw : ∃ e, a = .worker e
    · obtain ⟨e, rfl⟩ := hw
      have hzero : ∀ n size, e = .chunked n size → n ≤ 0 := by
        rintro n size rfl
        rcases hC with rfl | rfl
        · decide
        · rw [FileChunker.make, if_pos (by decide)]
      cases workerStep_move (step_worker hs) with
      | construct r _ =>
        exact ⟨fun _ _ => ⟨Int.le_refl 0, Int.le_refl 0⟩, fun _ _ hw => by cases hw⟩
      | spawn r hw =>
        refine ⟨fun _ hw => (by cases hw), ?_⟩
        rintro _ _ ⟨rfl, rfl⟩
        have hspawn := h.spawn r hw
        dsimp only
        split <;> exact hspawn
      | upload r pc pc' tus hw hup =>
        refine ⟨fun _ hw => (by cases hw), ?_⟩
        rintro _ _ ⟨rfl, rfl⟩
        exact uploadStep_noChunk (h.upload r pc hw) hzero hup
      | head | testPaused | testEmpty =>
        refine ⟨fun _ hw => ?_, fun _ _ hw => ?_⟩ <;> dsimp only at hw <;> split at hw <;> cases hw
      | result r success job =>
        have hw := (handleResult_frame s r job success).1
        refine ⟨fun _ hw' => ?_, fun _ _ hw' => ?_⟩ <;> rw [hw] at hw' <;> cases hw'
      | popNone | pop | lose | find | skip | clear | start | notify | noClient | noThread
      | uploaded | terminate | unwind | returned | join | caught =>
        exact ⟨fun _ hw => (by cases hw), fun _ _ hw => by cases hw⟩
    · obtain ⟨⟨hworker, -, htus, -⟩, -⟩ := client_frame hs (fun e he => hw ⟨e, he⟩) hp
      refine ⟨fun r hr => ?_, fun r pc hr => ?_⟩
      · rw [htus]
        exact h.spawn r (hworker ▸ hr)
      · rw [htus]
        exact h.upload r pc (hworker ▸ hr)

end Engine

/-- **The engine sends no chunk of any file**: in every run in which `chunkFile` answers as it does
    for `VIRAL_UPLOAD_CHUNK_MB`, whatever the clients and the network do, no PATCH is ever under
    way. -/
theorem engine_noPatch {cfg : Cfg} {s : State} (h : (engine cfg).Reach ChunksAsCut s) (r : Ref)
    (i : Int) : s.worker ≠ .upload r (.patch i) := by
  have hok : NoPatch s := by
    refine h.invariant ⟨nofun, nofun⟩ ?_
    intro u a v hu hC hs
    exact step_noPatch hu hC hs
  intro hw
  exact hok.upload r _ hw

/-- A job is taken, its file cut, its resource made. -/
def servedUncut : List Act :=
  .enqueue "job-a" "/a.mp4" "https://up/" "" "" :: List.replicate 10 (.worker .go) ++
    [.worker (.chunked 0 100), .worker (.posted "https://up/1"),
      .worker (.info (some 0) (some 100)), .worker .go, .worker .go, .worker .go, .worker .go]

theorem engine_noPatch_served : ∃ s, (engine defaultCfg).Reach ChunksAsCut s ∧
    s.worker = .upload ⟨1, 0⟩ (.chunk 0) ∧ s.worker ≠ .upload ⟨1, 0⟩ (.patch 0) := by
  obtain ⟨s, hs, hw⟩ : ∃ s, (engine defaultCfg).exec (engine defaultCfg).init servedUncut = some s ∧
      s.worker = .upload ⟨1, 0⟩ (.chunk 0) := by
    have hrun : ((engine defaultCfg).exec (engine defaultCfg).init servedUncut).map State.worker =
        some (.upload ⟨1, 0⟩ (.chunk 0)) := by decide
    exact Option.map_eq_some_iff.mp hrun
  have hreach : (engine defaultCfg).Reach ChunksAsCut s := Machine.steps_of_exec hs (by decide)
  exact ⟨s, hreach, hw, engine_noPatch hreach _ _⟩

end Viral.Upload
