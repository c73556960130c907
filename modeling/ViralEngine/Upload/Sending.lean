/-
  File:      ViralEngine/Upload/Sending.lean
  Subject:   WHAT THE SERVER HAS AT EACH PLACE OF `upload()`.

  In front of the loop of the chunks nothing has been sent. In the loop the server has the chunks in
  front of the one under way, and the client its length as the offset; or the upload is paused or
  cancelled, and of a PATCH without an answer nothing is known. Behind the loop the server has the
  file, unless the loop was left by an interruption.

  * `StageOk` -- so, by places; `TransferOk` -- of a transfer, in any state;
  * `transfer_quiet` to `transfer_lost` -- the moves of the client keep it, whatever of an answer
    comes back;
  * `TransferOk.interrupt`, `transfer_dropped` -- so do the calls of the poller's thread, and a
    request that is dropped.
-/
import ViralEngine.Upload.Transfer

namespace Viral.Upload

open Viral.Lib

/-! ## 1. By places -/

/-- The length of the file is read as it is. -/
def Readable (file : List UInt8) : Prop := file.length < 2 ^ 31

instance (file : List UInt8) : Decidable (Readable file) :=
  inferInstanceAs (Decidable (_ < _))

/-- Nothing has been sent. -/
structure Unsent (c : TusClient) (resource : List UInt8) : Prop where
  offset : c.uploadOffset = 0
  counted : c.uploadedChunks = 0
  resource : resource = []

/-- The loop is under way at chunk `i`. -/
structure Sending (file : List UInt8) (c : TusClient) (i : Int) : Prop where
  nonneg : 0 ≤ i
  readable : Readable file
  length : c.uploadLength = file.length
  status : c.status = .uploading ∨ c.Interrupted

/-- The server has the chunks in front of `i`, and the client knows it. -/
def Sent (c : TusClient) (chunks : List (List UInt8)) (resource : List UInt8) (i : Int) : Prop :=
  resource = (chunks.take i.toNat).flatten ∧ c.uploadOffset = resource.length

/-- The server has the file. -/
def Whole (file resource : List UInt8) : Prop := resource = file ∧ Readable file

/-- What holds at each place of `upload()`. -/
def StageOk (file : List UInt8) (c : TusClient) (chunks : List (List UInt8))
    (resource : List UInt8) : UploadPc → Prop
  | .chunkFile | .post | .head => Unsent c resource ∧ c.uploadLength = 0 ∧ c.status = .ready
  | .save | .begin =>
    Unsent c resource ∧ (c.uploadLength = if Readable file then file.length else 0) ∧
      c.status = .ready
  | .begun =>
    Unsent c resource ∧ (c.uploadLength = if Readable file then file.length else 0) ∧
      (c.status = .uploading ∨ c.Interrupted)
  | .loop i | .chunk i => Sending file c i ∧ (Sent c chunks resource i ∨ c.Interrupted)
  | .patch i => Sending file c i ∧ Sent c chunks resource i ∧ i < c.chunkNumber
  | .stop => Whole file resource ∨ c.Interrupted
  | .stopCheck => Whole file resource ∨ c.status = .canceled
  | .stopFinish => Whole file resource
  | .cleanup => True

/-- **What holds of an upload.** -/
structure TransferOk (chunkSize : Int) (file : List UInt8) (s : Transfer) : Prop where
  place : ∀ pc, s.place = .at pc → StageOk file s.client s.chunks s.resource pc
  chunks : ∀ pc, s.place = .at pc → pc ≠ .chunkFile →
    s.chunks = (FileChunker.loaded chunkSize file).chunks ∧
      s.client.chunkNumber.toNat = s.chunks.length
  part : s.resource <+: file
  finished : s.client.status = .finished → s.resource = if Readable file then file else []
  pausing : s.poller = .pausing → s.client.status ≠ .canceled

section Ok

variable {chunkSize : Int} {file : List UInt8} {s t : Transfer} {c : TusClient} {pc : UploadPc}
  {e : TusEvent} {o : Outcome} {caller : Caller}

theorem transfer_start (chunkSize : Int) (file : List UInt8) :
    TransferOk chunkSize file .start where
  place := by
    rintro pc h
    cases h
    exact ⟨⟨rfl, rfl, rfl⟩, rfl, rfl⟩
  chunks := by
    rintro pc h hne
    cases h
    exact absurd rfl hne
  part := List.nil_prefix
  finished := fun h => by cases h
  pausing := fun h => by cases h

/-! ## 2. The client -/

/-- Behind a move of the client that leaves the server alone. -/
theorem TransferOk.moved (h : TransferOk chunkSize file s) (hpc : s.place = .at pc)
    (hne : ∀ pc', o = .at pc' → pc ≠ .chunkFile) (hnumber : c.chunkNumber = s.client.chunkNumber)
    (hplace : ∀ pc', o = .at pc' → StageOk file c s.chunks s.resource pc')
    (hfin : c.status = .finished → s.resource = if Readable file then file else [])
    (hcan : c.status = .canceled → s.client.status = .canceled) :
    TransferOk chunkSize file { s with client := c, place := o } where
  place := hplace
  chunks := fun pc' ho _ => by
    obtain ⟨h1, h2⟩ := h.chunks pc hpc (hne pc' ho)
    exact ⟨h1, hnumber ▸ h2⟩
  part := h.part
  finished := hfin
  pausing := fun hp hc => h.pausing hp (hcan hc)

/-- The threads and the queue have no part in it. -/
theorem TransferOk.same (h : TransferOk chunkSize file s) (hclient : t.client = s.client)
    (hplace : t.place = s.place) (hchunks : t.chunks = s.chunks)
    (hresource : t.resource = s.resource) (hpausing : t.poller = .pausing → s.poller = .pausing) :
    TransferOk chunkSize file t where
  place := by
    rw [hclient, hplace, hchunks, hresource]
    exact h.place
  chunks := by
    rw [hclient, hplace, hchunks]
    exact h.chunks
  part := hresource ▸ h.part
  finished := by
    rw [hclient, hresource]
    exact h.finished
  pausing := fun hp => hclient ▸ h.pausing (hpausing hp)

/-- A number no longer than the file is read, and compared, as it is. -/
theorem stoi_readable {n : Nat} (h : n < 2 ^ 31) : stoi n = some (n : Int) := if_pos h

theorem sizeT_natCast {n : Nat} (h : n < 2 ^ 31) : sizeT n = n := by
  unfold sizeT
  omega

theorem Sending.next {i : Int} (h : Sending file c i) : Sending file c (i + 1) :=
  { h with nonneg := Int.le_trans h.nonneg (by omega) }

/-- A failed PATCH that is no failure of the upload. -/
theorem Sending.interrupted {i : Int} (h : Sending file c i)
    (hnot : ¬ (c.status ≠ .canceled ∧ c.status ≠ .paused)) : c.Interrupted := by
  rcases h.status with hup | hi
  · rw [hup] at hnot
    exact absurd ⟨nofun, nofun⟩ hnot
  · exact hi

/-- **The loop is left with the file on the server.** -/
theorem sent_whole {chunks : List (List UInt8)} {resource : List UInt8} {i : Int}
    (hsending : Sending file c i) (hpart : resource <+: file) (hsent : Sent c chunks resource i)
    (hmore : ¬ c.MoreToSend) : Whole file resource := by
  have hreadable : file.length < 2 ^ 31 := hsending.readable
  have hle := hpart.length_le
  unfold TusClient.MoreToSend at hmore
  rw [hsent.2, sizeT_natCast (by omega), hsending.length] at hmore
  exact ⟨hpart.eq_of_length (by omega), hsending.readable⟩

theorem Whole.finished {resource : List UInt8} (h : Whole file resource) :
    resource = if Readable file then file else [] := by
  rw [if_pos h.2, h.1]

/-- **A move of the client alone**, or one that gets no good answer while the server takes
    nothing. -/
theorem transfer_quiet (h : TransferOk chunkSize file s) (hpc : s.place = .at pc)
    (he : e.Quiet) (hs : s.client.uploadStep pc e = some (c, o)) :
    TransferOk chunkSize file { s with client := c, place := o } := by
  have hp := h.place pc hpc
  have hfin := h.finished
  have hpart := h.part
  have hmoved := fun hne => h.moved (c := c) (o := o) hpc hne
  have hnofin : ∀ x : TusStatus, x ≠ .finished → x = .finished →
      s.resource = if Readable file then file else [] := fun x hne heq => absurd heq hne
  obtain ⟨client, place, waiting, chunks, resource, gone, queue, abort, poller⟩ := s
  simp only at hpc hp hs hfin hmoved hpart hnofin ⊢
  revert hs
  fun_cases TusClient.uploadStep client pc e <;> intro hs
  case case11 | case22 | case31 => cases hs
  all_goals obtain ⟨rfl, rfl⟩ := Prod.mk.inj (Option.some.inj hs)
  case case1 => exact hmoved (fun _ ho => by cases ho) rfl (fun _ ho => by cases ho) hfin id
  case case2 | case3 | case4 | case6 | case19 => exact he.elim
  case case5 | case7 | case10 | case20 | case23 =>
    exact hmoved (fun _ ho => by cases ho) rfl (fun _ ho => by cases ho)
      (hnofin _ (fun hf => by cases hf)) (fun hc => by cases hc)
  case case8 =>
    refine hmoved (fun _ _ hi => by cases hi) rfl ?_ hfin id
    intro _ ho
    cases ho
    exact hp
  case case9 =>
    refine hmoved (fun _ _ hi => by cases hi) rfl ?_ (hnofin _ (fun hf => by cases hf))
      (fun hc => by cases hc)
    intro _ ho
    cases ho
    exact ⟨{ hp.1 with }, hp.2.1, .inl rfl⟩
  case case12 hzero =>
    -- nothing to upload, or a length that is not read
    refine hmoved (fun _ ho => by cases ho) rfl (fun _ ho => by cases ho) (fun _ => ?_)
      (fun hc => by cases hc)
    obtain ⟨hunsent, hlen, -⟩ := hp
    have hresource : resource = [] := hunsent.resource
    rw [hzero] at hlen
    rw [hresource]
    split at hlen
    case isTrue hr => rw [if_pos hr, List.eq_nil_of_length_eq_zero hlen.symm]
    case isFalse hr => rw [if_neg hr]
  case case13 hzero =>
    refine hmoved (fun _ _ hi => by cases hi) rfl ?_ hfin id
    intro _ ho
    cases ho
    obtain ⟨hunsent, hlen, hstatus⟩ := hp
    have hcounted : client.uploadedChunks = 0 := hunsent.counted
    have hresource : resource = [] := hunsent.resource
    have hoffset : client.uploadOffset = 0 := hunsent.offset
    split at hlen
    case isTrue hr =>
      rw [hcounted, hresource]
      exact ⟨⟨Int.le_refl 0, hr, hlen, hstatus⟩, .inl ⟨rfl, hoffset⟩⟩
    case isFalse => exact absurd hlen hzero
  case case14 =>
    refine hmoved (fun _ _ hi => by cases hi) rfl ?_ hfin id
    intro _ ho
    cases ho
    exact hp
  case case15 hleave =>
    refine hmoved (fun _ _ hi => by cases hi) rfl ?_ hfin id
    intro _ ho
    cases ho
    obtain ⟨hsending, hsent | hi⟩ := hp
    · rcases hsending.status with hup | hi
      · exact .inl (sent_whole hsending hpart hsent fun hmore => hleave ⟨hmore, hup⟩)
      · exact .inr hi
    · exact .inr hi
  case case16 hnot =>
    refine hmoved (fun _ _ hi => by cases hi) rfl ?_ hfin id
    intro _ ho
    cases ho
    have hi := hp.1.status.resolve_left hnot
    exact ⟨hp.1.next, .inr hi⟩
  case case17 => exact hmoved (fun _ ho => by cases ho) rfl (fun _ ho => by cases ho) hfin id
  case case18 hup hlt =>
    refine hmoved (fun _ _ hi => by cases hi) rfl ?_ hfin id
    intro _ ho
    cases ho
    rw [not_not] at hup
    obtain ⟨hsending, hsent | hi⟩ := hp
    · exact ⟨hsending, hsent, Int.not_le.mp hlt⟩
    · rcases hi with hi | hi <;> exact absurd (hup.symm.trans hi) (by decide)
  case case21 hi =>
    refine hmoved (fun _ _ hi => by cases hi) rfl ?_ hfin id
    intro _ ho
    cases ho
    exact ⟨hp.1.next, .inr hi⟩
  case case24 hnot =>
    refine hmoved (fun _ _ hi => by cases hi) rfl ?_ hfin id
    intro _ ho
    cases ho
    exact ⟨hp.1.next, .inr (hp.1.interrupted hnot)⟩
  case case25 => exact hmoved (fun _ ho => by cases ho) rfl (fun _ ho => by cases ho) hfin id
  case case26 hnot =>
    refine hmoved (fun _ _ hi => by cases hi) rfl ?_ hfin id
    intro _ ho
    cases ho
    exact hp.imp_right fun hi => hi.resolve_left hnot
  case case27 hall =>
    refine hmoved (fun _ _ hi => by cases hi) rfl ?_ hfin id
    intro _ ho
    cases ho
    exact hp.resolve_right hall.2.1
  case case28 =>
    refine hmoved (fun _ _ hi => by cases hi) rfl ?_ hfin id
    intro _ ho
    cases ho
    trivial
  case case29 =>
    refine hmoved (fun _ _ hi => by cases hi) rfl ?_ (fun _ => hp.finished) (fun hc => by cases hc)
    intro _ ho
    cases ho
    trivial
  case case30 => exact hmoved (fun _ ho => by cases ho) rfl (fun _ ho => by cases ho) hfin id

/-- **The file is cut.** -/
theorem transfer_cut (h : TransferOk chunkSize file s) (hpc : s.place = .at pc)
    (hs : s.client.uploadStep pc
      (.chunked (FileChunker.loaded chunkSize file).chunkNumber file.length) = some (c, o)) :
    TransferOk chunkSize file
      { s with chunks := (FileChunker.loaded chunkSize file).chunks, client := c, place := o } := by
  cases pc with
  | chunkFile =>
    have hp := h.place _ hpc
    simp only [TusClient.uploadStep] at hs
    split at hs
    all_goals obtain ⟨rfl, rfl⟩ := Prod.mk.inj (Option.some.inj hs)
    · exact { h with
        place := fun _ ho => by cases ho
        chunks := fun _ ho => by cases ho }
    · exact { h with
        place := by
          intro _ ho
          cases ho
          exact ⟨{ hp.1 with }, hp.2⟩
        chunks := by
          rintro _ ⟨rfl⟩ -
          refine ⟨rfl, ?_⟩
          show _ = (FileChunker.loaded chunkSize file).chunks.length
          rw [loaded_chunks, readChunks_length]
          rfl }
  | post | head | save | begin | begun | loop | chunk | patch | stop | stopCheck | stopFinish
  | cleanup => cases hs

theorem transfer_cutFailed (h : TransferOk chunkSize file s) (hpc : s.place = .at pc)
    (hs : s.client.uploadStep pc (.chunked (-1) file.length) = some (c, o)) :
    TransferOk chunkSize file { s with client := c, place := o } := by
  cases pc with
  | chunkFile =>
    simp only [TusClient.uploadStep, if_true] at hs
    obtain ⟨rfl, rfl⟩ := Prod.mk.inj (Option.some.inj hs)
    exact { h with
      place := fun _ ho => by cases ho
      chunks := fun _ ho => by cases ho }
  | post | head | save | begin | begun | loop | chunk | patch | stop | stopCheck | stopFinish
  | cleanup => cases hs

/-- **The resource is made.** -/
theorem transfer_post (h : TransferOk chunkSize file s) (hpc : s.place = .at pc)
    {location : String} (hs : s.client.uploadStep pc (.posted location) = some (c, o)) :
    TransferOk chunkSize file { s with resource := [], gone := false, client := c, place := o } := by
  cases pc with
  | post =>
    have hp := h.place _ hpc
    have hready : s.client.status = .ready := hp.2.2
    obtain ⟨rfl, rfl⟩ := Prod.mk.inj (Option.some.inj hs)
    exact {
      place := by
        intro _ ho
        cases ho
        exact ⟨{ hp.1 with resource := rfl }, hp.2⟩
      chunks := fun _ _ _ => h.chunks _ hpc nofun
      part := List.nil_prefix
      finished := fun hf => by cases hready.symm.trans hf
      pausing := h.pausing }
  | chunkFile | head | save | begin | begun | loop | chunk | patch | stop | stopCheck | stopFinish
  | cleanup => cases hs

/-- **HEAD**: nothing is there, and the length is that of the file, or is not read. -/
theorem transfer_info (h : TransferOk chunkSize file s) (hpc : s.place = .at pc)
    (hs : s.client.uploadStep pc
      (.info (stoi s.resource.length) (stoi file.length)) = some (c, o)) :
    TransferOk chunkSize file { s with client := c, place := o } := by
  cases pc with
  | head =>
    obtain ⟨hunsent, hlen, hready⟩ := h.place _ hpc
    have hzero : stoi s.resource.length = some 0 := by
      rw [hunsent.resource]
      rfl
    rw [hzero] at hs
    obtain ⟨rfl, rfl⟩ := Prod.mk.inj (Option.some.inj hs)
    refine h.moved hpc (fun _ _ => nofun) ?_ ?_ ?_ ?_
    · cases stoi file.length <;> rfl
    · intro _ ho
      cases ho
      by_cases hr : Readable file
      · rw [stoi_readable hr]
        refine ⟨⟨rfl, hunsent.counted, hunsent.resource⟩, ?_, hready⟩
        rw [if_pos hr]
        exact sizeT_natCast hr
      · have hnone : stoi file.length = none := if_neg hr
        rw [hnone]
        refine ⟨⟨rfl, hunsent.counted, hunsent.resource⟩, ?_, hready⟩
        rw [if_neg hr]
        exact hlen
    · rw [TusClient.headSuccess_status]
      exact h.finished
    · rw [TusClient.headSuccess_status]
      exact id
  | chunkFile | post | save | begin | begun | loop | chunk | patch | stop | stopCheck | stopFinish
  | cleanup => cases hs

/-- The chunk under way, where there is one. -/
theorem patch_body {i : Int} (h : TransferOk chunkSize file s) (hpc : s.place = .at (.patch i))
    (hgone : s.gone = false) :
    ∃ body, s.body = some body ∧ s.resource ++ body = (s.chunks.take (i + 1).toNat).flatten ∧
      s.resource ++ body <+: file := by
  obtain ⟨hsending, ⟨hresource, hoffset⟩, hlt⟩ := h.place _ hpc
  obtain ⟨hchunks, hnumber⟩ := h.chunks _ hpc nofun
  have hnonneg := hsending.nonneg
  have hin : i.toNat < s.chunks.length := by omega
  have hbody : s.body = some s.chunks[i.toNat] := by
    rw [Transfer.body, hpc]
    simp only [hgone, hoffset, and_self, if_true]
    exact List.getElem?_eq_getElem hin
  have hnext : s.resource ++ s.chunks[i.toNat] = (s.chunks.take (i + 1).toNat).flatten := by
    have hsucc : (i + 1).toNat = i.toNat + 1 := by omega
    rw [hsucc, List.take_succ_eq_append_getElem hin, List.flatten_append, ← hresource,
      List.flatten_singleton]
  refine ⟨_, hbody, hnext, ?_⟩
  rw [hnext]
  obtain ⟨rest, hrest⟩ := List.take_prefix (i + 1).toNat s.chunks
  have hflat : (s.chunks.take (i + 1).toNat).flatten <+: s.chunks.flatten :=
    ⟨rest.flatten, by rw [← List.flatten_append, hrest]⟩
  refine hflat.trans ?_
  rw [hchunks, loaded_chunks, readChunks_flatten]
  exact List.take_prefix _ _

/-- **A chunk is taken**, and the answer comes back. -/
theorem transfer_patch (h : TransferOk chunkSize file s) {i : Int}
    (hpc : s.place = .at (.patch i)) (hgone : s.gone = false) {body : List UInt8}
    (hbody : s.body = some body)
    (hs : s.client.uploadStep (.patch i)
      (.patched (stoi (s.resource ++ body).length)) = some (c, o)) :
    TransferOk chunkSize file
      { s with resource := s.resource ++ body, client := c, place := o } := by
  obtain ⟨hsending, -, -⟩ := h.place _ hpc
  obtain ⟨body', hbody', hnext, hpart⟩ := patch_body h hpc hgone
  obtain rfl := Option.some.inj (hbody'.symm.trans hbody)
  have hreadable : file.length < 2 ^ 31 := hsending.readable
  have hle := hpart.length_le
  rw [stoi_readable (by omega)] at hs
  obtain ⟨rfl, rfl⟩ := Prod.mk.inj (Option.some.inj hs)
  have hstatus := TusClient.handleSuccessfulUpload_status s.client
    (some ((s.resource ++ body').length : Int))
  have hlength := TusClient.handleSuccessfulUpload_uploadLength s.client
    (some ((s.resource ++ body').length : Int))
  exact {
    place := by
      intro _ ho
      cases ho
      refine ⟨⟨hsending.next.nonneg, hsending.readable, hlength.trans hsending.length, ?_⟩, ?_⟩
      · unfold TusClient.Interrupted
        rw [hstatus]
        exact hsending.status
      · by_cases hc : s.client.status = .canceled
        · refine .inr (.inr ?_)
          rw [hstatus]
          exact hc
        · refine .inl ⟨hnext, ?_⟩
          simp only [TusClient.handleSuccessfulUpload, hc, if_false]
    chunks := fun _ _ _ => by
      obtain ⟨h1, h2⟩ := h.chunks _ hpc nofun
      refine ⟨h1, ?_⟩
      rw [← h2]
      unfold TusClient.handleSuccessfulUpload
      split <;> rfl
    part := hpart
    finished := fun hf => by
      rw [hstatus] at hf
      rcases hsending.status with hup | hi | hi
      · cases hup.symm.trans hf
      · cases hi.symm.trans hf
      · cases hi.symm.trans hf
    pausing := fun hp hc => h.pausing hp (hstatus ▸ hc) }

/-- Of a PATCH without a good answer nothing is known. -/
theorem lost_patch {i : Int} (he : e.Lost) (hsending : Sending file s.client i)
    (hs : s.client.uploadStep (.patch i) e = some (c, o)) :
    c.chunkNumber = s.client.chunkNumber ∧ c.status ≠ .finished ∧
      (c.status = .canceled → s.client.status = .canceled) ∧
      (∀ pc, o = .at pc → pc = .loop (i + 1) ∧ Sending file c (i + 1) ∧ c.Interrupted) := by
  have hnofin : s.client.status ≠ .finished := by
    rcases hsending.status with h | h | h <;> rw [h] <;> exact fun h => by cases h
  cases e with
  | rejected =>
    obtain ⟨rfl, rfl⟩ := Prod.mk.inj (Option.some.inj hs)
    exact ⟨rfl, fun h => (by cases h), fun h => (by cases h), fun _ h => by cases h⟩
  | netError data =>
    simp only [TusClient.uploadStep] at hs
    split at hs
    · obtain ⟨rfl, rfl⟩ := Prod.mk.inj (Option.some.inj hs)
      exact ⟨rfl, fun h => (by cases h), fun h => (by cases h), fun _ h => by cases h⟩
    case isFalse hnot =>
      obtain ⟨rfl, rfl⟩ := Prod.mk.inj (Option.some.inj hs)
      refine ⟨rfl, hnofin, id, ?_⟩
      intro _ ho
      cases ho
      exact ⟨rfl, hsending.next, hsending.interrupted hnot⟩
  | go | chunked | posted | info | patched | aborted | loadFailed | throws => exact he.elim

/-- **No good answer comes back**: a part of the chunk may be there. -/
theorem transfer_lost (h : TransferOk chunkSize file s) (hpc : s.place = .at pc)
    (hgone : s.gone = false) {taken : Nat} (he : e.Lost)
    (hs : s.client.uploadStep pc e = some (c, o)) :
    TransferOk chunkSize file
      { s with
        resource := s.resource ++ (s.body.getD []).take taken, client := c, place := o } := by
  by_cases hat : ∃ i, pc = .patch i
  · obtain ⟨i, rfl⟩ := hat
    obtain ⟨hsending, -, -⟩ := h.place _ hpc
    obtain ⟨body, hbody, -, hpart⟩ := patch_body h hpc hgone
    obtain ⟨hnumber, hfin, hcan, hplace⟩ := lost_patch he hsending hs
    rw [hbody, Option.getD_some]
    exact {
      place := fun pc ho => by
        obtain ⟨rfl, hnext, hi⟩ := hplace pc ho
        exact ⟨hnext, .inr hi⟩
      chunks := fun _ _ _ => by
        obtain ⟨h1, h2⟩ := h.chunks _ hpc nofun
        exact ⟨h1, hnumber ▸ h2⟩
      part := ((List.prefix_append_right_inj _).mpr (List.take_prefix _ _)).trans hpart
      finished := fun hf => absurd hf hfin
      pausing := fun hp hc => h.pausing hp (hcan hc) }
  · have hbody : s.body = none := by
      unfold Transfer.body
      split
      case h_1 i hi => exact absurd ⟨i, Outcome.at.inj (hpc.symm.trans hi)⟩ hat
      case h_2 => rfl
    rw [hbody, Option.getD_none, List.take_nil, List.append_nil]
    exact transfer_quiet h hpc he.quiet hs

/-! ## 3. The poller's thread -/

/-- Behind READY the poller's thread makes the status PAUSED or CANCELED, and nothing else. -/
theorem stageOk_poller {chunks : List (List UInt8)} {resource : List UInt8} {x : TusStatus}
    (h : StageOk file c chunks resource pc) (hx : x = .canceled ∨ x = .paused)
    (hready : c.status ≠ .ready) (hcan : x = .paused → c.status ≠ .canceled) :
    StageOk file { c with status := x } chunks resource pc := by
  have hi : ({ c with status := x } : TusClient).Interrupted := hx.symm
  cases pc with
  | chunkFile | post | head | save | begin => exact absurd h.2.2 hready
  | begun => exact ⟨{ h.1 with }, h.2.1, .inr hi⟩
  | loop i | chunk i => exact ⟨{ h.1 with status := .inr hi }, .inr hi⟩
  | patch i => exact ⟨{ h.1 with status := .inr hi }, h.2⟩
  | stop => exact .inr hi
  | stopCheck =>
    rcases h with hw | hc
    · exact .inl hw
    · rcases hx with rfl | rfl
      · exact .inr rfl
      · exact absurd hc (hcan rfl)
  | stopFinish => exact h
  | cleanup => trivial

theorem TransferOk.interrupt (h : TransferOk chunkSize file s) {x : TusStatus} {p : CallPlace}
    (hx : x = .canceled ∨ x = .paused) (hready : s.client.status ≠ .ready)
    (hcan : x = .paused → s.client.status ≠ .canceled) (hp : p ≠ .pausing) :
    TransferOk chunkSize file { s with client := { s.client with status := x }, poller := p } where
  place := fun pc hpc => stageOk_poller (h.place pc hpc) hx hready hcan
  chunks := h.chunks
  part := h.part
  finished := fun hf => by rcases hx with rfl | rfl <;> cases hf
  pausing := fun hpausing => absurd hpausing hp

/-- **A request is dropped**: it was a PATCH. -/
theorem transfer_dropped (h : TransferOk chunkSize file s) (hpc : s.place = .at pc)
    (hr : pc.requests = true) (hi : s.client.Interrupted) :
    TransferOk chunkSize file { s with place := .at pc.dropped } := by
  have hp := h.place pc hpc
  cases pc with
  | post | head => rcases hi with hi | hi <;> cases hp.2.2.symm.trans hi
  | patch i =>
    have hs : s.client.uploadStep (.patch i) .aborted = some (s.client, .at (.loop (i + 1))) :=
      if_pos hi
    have hquiet : TusEvent.Quiet .aborted := trivial
    exact transfer_quiet h hpc hquiet hs
  | chunkFile | save | begin | begun | loop | chunk | stop | stopCheck | stopFinish | cleanup =>
    cases hr

end Ok

end Viral.Upload
