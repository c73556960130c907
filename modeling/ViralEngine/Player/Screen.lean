/-
  File:      ViralEngine/Player/Screen.lean
  Subject:   FROM THE PACKETS TO THE PICTURES ON THE SCREEN
             (ijk-player/ijkmedia/ijkplayer/ff_ffplay.c, `ffplay_video_thread`, `queue_picture`,
             `video_refresh`).

  Three threads: the reader of the file, the decoder, which puts its frames into the queue of the
  pictures, and the screen, which tests the serial of the next picture against that of the packets
  and goes on by it, whether it is shown or not. A seek can come between any two steps.

  * `Verdict`, `Video`, `VideoAct`, `video` -- the three threads;
  * `VideoOk`, `video_step` -- what every step keeps;
  * `painted_current` -- what gets onto the screen.
-/
import ViralEngine.Player.Decoder
import ViralEngine.Player.FrameQueue

namespace Viral.Ijk

open Viral.Lib

/-! ## 1. The three threads -/

/-- A frame: its serial, and what the codec had when it was made. -/
abbrev Picture := Int × List Int

/-- `frame_queue_unref_item`. -/
def unrefItem (p : Picture) : Picture := (p.1, [])

/-- What the screen knows of the next picture. -/
inductive Verdict where
  | untested
  | old
  | current (serial : Int)
  deriving DecidableEq, Repr

/-- The video stream. `hand`: the frame the decoder has made and not put into a slot, `filled`: it
    is in the slot of the writer. `fresh`: the picture gone on by last is to be shown, and the
    serial it was tested against; `painted` are the pictures shown. -/
structure Video where
  track : Track
  frames : Frames Picture
  hand : Option Picture
  filled : Bool
  verdict : Verdict
  fresh : Option Int
  painted : List (Picture × Int)
  deriving DecidableEq, Repr

/-- The steps of the decoder. -/
def TrackAct.OfDecoder : TrackAct → Prop
  | .test | .receive _ | .fetch | .check | .decide _ | .subtitle _ => True
  | _ => False

instance : DecidablePred TrackAct.OfDecoder := fun a => by
  cases a <;> unfold TrackAct.OfDecoder <;> infer_instance

/-- The steps: of the stream; of the decoder with a frame in its hands, from `drop` to `count`; of
    the screen, from `remaining` on. -/
inductive VideoAct where
  | track (a : TrackAct)
  | drop
  | writable
  | write (v : Picture)
  | fill
  | leave
  | advance
  | count
  | remaining
  | judge
  | skip
  | present
  | uncount
  | display
  deriving DecidableEq, Repr

namespace Video

/-- No packet, no frame, and nothing on the screen. -/
def start (sizeofPkt1 : Int32) (maxSize : Nat) : Video where
  track := .start sizeofPkt1
  frames := .start (0, []) maxSize true
  hand := none
  filled := false
  verdict := .untested
  fresh := none
  painted := []

/-- A step of the queue of the pictures. -/
def queued (s : Video) (a : FramesAct Picture) : Option Video :=
  (s.frames.step unrefItem a).map fun f => { s with frames := f }

/-- A step of the stream: it may leave a frame in the decoder's hands, and the queue of the pictures
    reads the same `abort_request`. -/
def streamed (s : Video) (t : Track) : Video :=
  { s with
    track := t
    frames.abortRequest := t.queue.abortRequest
    hand := if s.track.frames.length < t.frames.length then t.frames.getLast? else s.hand }

/-- The test of the serial of the next picture. -/
def judge (s : Video) (vp : Picture) : Verdict :=
  if vp.1 = s.track.queue.serial then .current vp.1 else .old

/-- **One step.** -/
def step (sizeofPkt1 : Int32) (packetBuffering : Bool) (s : Video) : VideoAct → Option Video
  | .track a =>
    if a.OfDecoder ∧ (s.hand.isSome ∨ s.frames.writer ≠ .idle) then none
    else (s.track.step sizeofPkt1 packetBuffering false a).map s.streamed
  | .drop => if s.frames.writer = .idle then some { s with hand := none } else none
  | .writable => if s.hand.isSome then s.queued .writable else none
  | .write v => { s with filled := false }.queued (.write v)
  | .fill => s.hand.bind fun p => { s with filled := true }.queued (.write p)
  | .leave => { s with hand := none, filled := false }.queued .leave
  | .advance => if s.filled then { s with hand := none, filled := false }.queued .advance else none
  | .count => s.queued .count
  | .remaining => { s with verdict := .untested, fresh := none }.queued .remaining
  | .judge =>
    if s.frames.reader = .idle ∧ 0 < s.frames.known then
      s.frames.f.peek.map fun vp => { s with verdict := s.judge vp }
    else none
  | .skip =>
    if s.verdict ≠ .untested then { s with verdict := .untested, fresh := none }.queued .next
    else none
  | .present =>
    match s.verdict with
    | .current serial => { s with verdict := .untested, fresh := some serial }.queued .next
    | _ => none
  | .uncount => s.queued .uncount
  | .display =>
    if s.frames.reader = .idle then
      s.fresh.bind fun serial => s.frames.f.peekLast.map fun vp =>
        { s with fresh := none, painted := s.painted ++ [(vp, serial)] }
    else none

end Video

/-- **The video stream**, from its packets to the screen. -/
def video (sizeofPkt1 : Int32) (packetBuffering : Bool) (maxSize : Nat) : Machine Video VideoAct :=
  ⟨.start sizeofPkt1 maxSize, Video.step sizeofPkt1 packetBuffering⟩

/-! ## 2. What every step keeps -/

/-- **What holds of the video stream.** -/
structure VideoOk (z : Int32) (m : Nat) (s : Video) : Prop where
  track : ∃ l e, TrackOk z false s.track l e
  frames : ∃ lo, FramesOk m true s.frames lo
  made : (s.frames.pushed ++ s.hand.toList).Sublist s.track.frames
  filled : s.filled = true → s.frames.writer = .writing ∧
    ∃ p, s.hand = some p ∧ s.frames.f.queue[s.frames.f.windex]? = some p
  current : ∀ n, s.verdict = .current n → 0 < s.frames.known ∧
    ∃ p, s.frames.pushed[s.frames.taken.length]? = some p ∧ p.1 = n
  fresh : ∀ n, s.fresh = some n → s.frames.f.rindexShown = 1 ∧
    ∃ p, s.frames.taken.getLast? = some p ∧ p.1 = n ∧
      (s.painted.map Prod.fst ++ [p]).Sublist s.frames.taken
  painted : (s.painted.map Prod.fst).Sublist s.frames.taken
  tested : ∀ p ∈ s.painted, p.1.1 = p.2

section Ok

variable {z : Int32} {b : Bool} {m : Nat} {s t : Video}

theorem video_start {maxSize : Nat} :
    VideoOk z (min maxSize FRAME_QUEUE_SIZE) (.start z maxSize) where
  track := ⟨_, 0, track_start z false⟩
  frames := ⟨0, frames_start _⟩
  made := List.Sublist.refl []
  filled := fun h => nomatch h
  current := fun _ h => nomatch h
  fresh := fun _ h => nomatch h
  painted := List.Sublist.refl []
  tested := fun _ h => nomatch h

theorem queued_some {a : FramesAct Picture} (h : s.queued a = some t) :
    ∃ g, s.frames.step unrefItem a = some g ∧ t = { s with frames := g } := by
  obtain ⟨g, hg, rfl⟩ := Option.map_eq_some_iff.mp h
  exact ⟨g, hg, rfl⟩

/-- **Under the eyes of the screen nothing changes**, but that there may be more pictures. -/
theorem VideoOk.unseen (h : VideoOk z m s) {g : Frames Picture} {hand : Option Picture}
    {filled : Bool} (hok : ∃ lo, FramesOk m true g lo) (htaken : g.taken = s.frames.taken)
    (hknown : g.known = s.frames.known) (hshown : g.f.rindexShown = s.frames.f.rindexShown)
    (hpushed : s.frames.pushed <+: g.pushed)
    (hmade : (g.pushed ++ hand.toList).Sublist s.track.frames)
    (hfilled : filled = true → g.writer = .writing ∧
      ∃ p, hand = some p ∧ g.f.queue[g.f.windex]? = some p) :
    VideoOk z m { s with frames := g, hand := hand, filled := filled } where
  track := h.track
  frames := hok
  made := hmade
  filled := hfilled
  current := by
    intro n hn
    obtain ⟨hk, p, hp, hserial⟩ := h.current n hn
    obtain ⟨rest, hrest⟩ := hpushed
    refine ⟨hknown ▸ hk, p, ?_, hserial⟩
    show g.pushed[g.taken.length]? = some p
    rw [htaken, ← hrest, List.getElem?_append_left (List.getElem?_eq_some_iff.mp hp).1]
    exact hp
  fresh := by
    intro n hn
    obtain ⟨hs, hp⟩ := h.fresh n hn
    refine ⟨hshown.trans hs, ?_⟩
    show ∃ p, g.taken.getLast? = some p ∧ _
    rw [htaken]
    exact hp
  painted := by
    show (s.painted.map Prod.fst).Sublist g.taken
    rw [htaken]
    exact h.painted
  tested := h.tested

/-! ### The stream -/

theorem track_frames {s t : Track} {a : TrackAct} (ht : s.step z b false a = some t) :
    t.frames = s.frames ∨ a.OfDecoder ∧ ∃ p, t.frames = s.frames ++ [p] := by
  cases a with
  | put | discontinuity | seek | seeked | test =>
    simp only [Track.step] at ht
    split at ht
    · cases ht
      exact .inl rfl
    · cases ht
  | abort =>
    cases ht
    exact .inl rfl
  | receive a =>
    simp only [Track.step] at ht
    split at ht
    · split at ht
      · cases ht
        exact .inl rfl
      · cases ht
        cases a with
        | frame => exact .inr ⟨trivial, _, rfl⟩
        | eof | again | failed => exact .inl rfl
    · cases ht
  | fetch =>
    simp only [Track.step] at ht
    split at ht
    · unfold Track.fetch at ht
      split at ht
      · cases ht
        exact .inl rfl
      · dsimp only at ht
        split at ht
        · split at ht <;> cases ht <;> exact .inl rfl
        · split at ht
          · cases ht
            exact .inl rfl
          · cases ht
    · cases ht
  | check =>
    simp only [Track.step] at ht
    split at ht
    · cases ht
      exact .inl rfl
    · cases ht
  | decide full =>
    simp only [Track.step] at ht
    split at ht
    · cases ht
      left
      unfold Track.decide
      split
      · rfl
      · split <;> rfl
    · cases ht
  | subtitle a =>
    simp only [Track.step] at ht
    split at ht
    · rw [if_neg fun hc => by cases hc.1] at ht
      cases ht
    · cases ht

theorem video_track (h : VideoOk z m s) {a : TrackAct} {u : Track}
    (hgate : ¬ (a.OfDecoder ∧ (s.hand.isSome ∨ s.frames.writer ≠ .idle)))
    (hu : s.track.step z b false a = some u) : VideoOk z m (s.streamed u) := by
  obtain ⟨l, e, htrack⟩ := h.track
  obtain ⟨l', e', htrack'⟩ := track_step htrack (fresh_false _ _) hu
  obtain ⟨lo, hframes⟩ := h.frames
  rcases track_frames hu with hsame | ⟨hdec, p, hp⟩
  · exact {
      track := ⟨l', e', htrack'⟩
      frames := ⟨lo, { hframes with }⟩
      made := by
        simp only [Video.streamed, hsame, Nat.lt_irrefl, if_false]
        exact h.made
      filled := by
        simp only [Video.streamed, hsame, Nat.lt_irrefl, if_false]
        exact h.filled
      current := h.current
      fresh := h.fresh
      painted := h.painted
      tested := h.tested }
  · -- the decoder had nothing in its hands
    rw [not_and, not_or, not_not] at hgate
    obtain ⟨hhand, hidle⟩ := hgate hdec
    rw [Bool.not_eq_true, Option.isSome_eq_false_iff, Option.isNone_iff_eq_none] at hhand
    have hmade := h.made
    rw [hhand, Option.toList_none, List.append_nil] at hmade
    exact {
      track := ⟨l', e', htrack'⟩
      frames := ⟨lo, { hframes with }⟩
      made := by
        simp only [Video.streamed, hp, List.length_append, List.length_singleton,
          Nat.lt_add_one, if_true, List.getLast?_concat, Option.toList_some]
        exact hmade.append (List.Sublist.refl [p])
      filled := fun hf => by
        rw [(h.filled hf).1] at hidle
        cases hidle
      current := h.current
      fresh := h.fresh
      painted := h.painted
      tested := h.tested }

/-! ### The decoder with a frame -/

theorem VideoOk.hand_none (h : VideoOk z m s) : s.frames.pushed.Sublist s.track.frames :=
  (List.sublist_append_left _ _).trans h.made

/-- **The frame is in the slot of the writer.** -/
theorem video_fill (h : VideoOk z m s) (hm : 0 < m) {p : Picture} (hp : s.hand = some p)
    {g : Frames Picture} (hg : s.frames.step unrefItem (.write p) = some g) :
    VideoOk z m { s with frames := g, filled := true } := by
  obtain ⟨lo, hok⟩ := h.frames
  have hok' := frames_step hok hm hg
  obtain ⟨x, hx⟩ := hok.slot hm
  simp only [Frames.step] at hg
  split at hg
  case isTrue hw =>
    cases hg
    refine h.unseen hok' rfl rfl rfl (List.prefix_refl _) h.made fun _ => ?_
    refine ⟨hw, p, hp, ?_⟩
    exact List.getElem?_set_self (List.getElem?_eq_some_iff.mp hx).1
  case isFalse => cases hg

/-- **The queue has it.** -/
theorem video_advance (h : VideoOk z m s) (hm : 0 < m) (hf : s.filled = true)
    {g : Frames Picture} (hg : s.frames.step unrefItem .advance = some g) :
    VideoOk z m { s with frames := g, hand := none, filled := false } := by
  obtain ⟨lo, hok⟩ := h.frames
  have hok' := frames_step hok hm hg
  obtain ⟨-, p, hp, hslot⟩ := h.filled hf
  simp only [Frames.step] at hg
  split at hg
  · cases hg
    refine h.unseen hok' rfl rfl rfl (List.prefix_append _ _) ?_ (fun hf => by cases hf)
    have hmade := h.made
    rw [hp] at hmade
    simpa [hslot] using hmade
  · cases hg

/-- The steps of the writer that put no frame into the queue. -/
theorem video_writer (h : VideoOk z m s) (hm : 0 < m) {a : FramesAct Picture}
    (ha : a = .writable ∨ (∃ v, a = .write v) ∨ a = .leave ∨ a = .count)
    {g : Frames Picture} (hg : s.frames.step unrefItem a = some g) {hand : Option Picture}
    (hhand : hand = none ∨ hand = s.hand) {filled : Bool}
    (hfilled : filled = false ∨ filled = s.filled ∧ (a = .writable ∨ a = .count)) :
    VideoOk z m { s with frames := g, hand := hand, filled := filled } := by
  obtain ⟨lo, hok⟩ := h.frames
  have hok' := frames_step hok hm hg
  have hmade : (s.frames.pushed ++ hand.toList).Sublist s.track.frames := by
    rcases hhand with rfl | rfl
    · simpa using h.hand_none
    · exact h.made
  have hwriting : filled = true → s.frames.writer = .writing ∧ (a = .writable ∨ a = .count) := by
    intro hf
    rcases hfilled with hno | ⟨heq, ha⟩
    · rw [hno] at hf
      cases hf
    · exact ⟨(h.filled (heq ▸ hf)).1, ha⟩
  rcases ha with rfl | ⟨v, rfl⟩ | rfl | rfl
  · simp only [Frames.step] at hg
    split at hg
    case isTrue hw =>
      have hno : filled = true → False := fun hf => by
        rw [(hwriting hf).1] at hw
        cases hw
      split at hg
      · cases hg
        exact h.unseen hok' rfl rfl rfl (List.prefix_refl _) hmade fun hf => (hno hf).elim
      · split at hg
        · cases hg
          exact h.unseen hok' rfl rfl rfl (List.prefix_refl _) hmade fun hf => (hno hf).elim
        · cases hg
    case isFalse => cases hg
  · simp only [Frames.step] at hg
    split at hg
    · cases hg
      refine h.unseen hok' rfl rfl rfl (List.prefix_refl _) hmade fun hf => ?_
      rcases (hwriting hf).2 with ha | ha <;> cases ha
    · cases hg
  · simp only [Frames.step] at hg
    split at hg
    · cases hg
      refine h.unseen hok' rfl rfl rfl (List.prefix_refl _) hmade fun hf => ?_
      rcases (hwriting hf).2 with ha | ha <;> cases ha
    · cases hg
  · simp only [Frames.step] at hg
    split at hg
    case isTrue hw =>
      cases hg
      refine h.unseen hok' rfl rfl rfl (List.prefix_refl _) hmade fun hf => ?_
      rw [(hwriting hf).1] at hw
      cases hw
    case isFalse => cases hg

/-! ### The screen -/

theorem video_remaining (h : VideoOk z m s) (hm : 0 < m) {g : Frames Picture}
    (hg : s.frames.step unrefItem .remaining = some g) :
    VideoOk z m { s with frames := g, verdict := .untested, fresh := none } := by
  obtain ⟨lo, hok⟩ := h.frames
  have hok' := frames_step hok hm hg
  simp only [Frames.step] at hg
  split at hg
  · cases hg
    exact { h with
      frames := hok'
      current := fun _ hn => by cases hn
      fresh := fun _ hn => by cases hn }
  · cases hg

/-- **The test**: of the next picture that was pushed. -/
theorem video_judge (h : VideoOk z m s) (hk : 0 < s.frames.known) {vp : Picture}
    (hp : s.frames.f.peek = some vp) : VideoOk z m { s with verdict := s.judge vp } := by
  obtain ⟨lo, hok⟩ := h.frames
  obtain ⟨p, hpushed, hpeek⟩ := hok.peek hk
  obtain rfl := Option.some.inj (hp.symm.trans hpeek)
  refine { h with current := fun n hn => ⟨hk, vp, hpushed, ?_⟩ }
  simp only [Video.judge] at hn
  split at hn
  · exact Verdict.current.inj hn
  · cases hn

/-- What going on leaves. -/
theorem goOn_spec {lo : Nat} {f : Frames Picture} (hok : FramesOk m true f lo)
    (hk : 0 < f.known) :
    (f.goOn unrefItem).pushed = f.pushed ∧ (f.goOn unrefItem).writer = f.writer ∧
      (f.goOn unrefItem).f.rindexShown = 1 ∧
      (f.goOn unrefItem).taken = f.taken ++ f.f.peek.toList ∧
      (f.writer = .writing → (f.goOn unrefItem).f.windex = f.f.windex ∧
        (f.goOn unrefItem).f.queue[f.f.windex]? = f.f.queue[f.f.windex]?) := by
  have hshown := hok.shown
  unfold Frames.goOn
  split
  · exact ⟨rfl, rfl, rfl, rfl, fun _ => ⟨rfl, rfl⟩⟩
  case isFalse hc =>
    simp only [hok.keepLast, true_and] at hc
    simp only [if_true] at hshown
    refine ⟨rfl, rfl, ?_, rfl, fun hw => ⟨rfl, ?_⟩⟩
    · show f.f.rindexShown = 1
      omega
    · have hfree := hok.free hw
      have hknown := hok.known hk
      show (f.f.queue.modify f.f.rindex unrefItem)[f.f.windex]? = _
      rw [hok.rindex, hok.windex]
      exact List.getElem?_modify_ne _ _ (slot_ne (by omega) (by omega))

/-- **Going on**: a picture that is to be shown has been tested. -/
theorem video_next (h : VideoOk z m s) (hm : 0 < m) {g : Frames Picture}
    (hg : s.frames.step unrefItem .next = some g) {fresh : Option Int}
    (hfresh : ∀ n, fresh = some n → s.verdict = .current n) :
    VideoOk z m { s with frames := g, verdict := .untested, fresh := fresh } := by
  obtain ⟨lo, hok⟩ := h.frames
  have hok' := frames_step hok hm hg
  simp only [Frames.step] at hg
  split at hg
  case isTrue hc =>
    cases hg
    obtain ⟨p, hpushed, hpeek⟩ := hok.peek hc.2
    obtain ⟨h1, h2, h3, h4, h5⟩ := goOn_spec hok hc.2
    rw [hpeek, Option.toList_some] at h4
    exact {
      track := h.track
      frames := hok'
      made := by
        show ((s.frames.goOn unrefItem).pushed ++ s.hand.toList).Sublist _
        rw [h1]
        exact h.made
      filled := fun hf => by
        obtain ⟨hw, p, hp, hslot⟩ := h.filled hf
        obtain ⟨hwindex, hqueue⟩ := h5 hw
        refine ⟨h2.trans hw, p, hp, ?_⟩
        show (s.frames.goOn unrefItem).f.queue[(s.frames.goOn unrefItem).f.windex]? = some p
        rw [hwindex, hqueue]
        exact hslot
      current := fun _ hn => by cases hn
      fresh := fun n hn => by
        obtain ⟨-, q, hq, hserial⟩ := h.current n (hfresh n hn)
        obtain rfl := Option.some.inj (hq.symm.trans hpushed)
        refine ⟨h3, q, ?_, hserial, ?_⟩
        · show (s.frames.goOn unrefItem).taken.getLast? = some q
          rw [h4, List.getLast?_concat]
        · show (s.painted.map Prod.fst ++ [q]).Sublist (s.frames.goOn unrefItem).taken
          rw [h4]
          exact h.painted.append (List.Sublist.refl [q])
      painted := by
        show (s.painted.map Prod.fst).Sublist (s.frames.goOn unrefItem).taken
        rw [h4]
        exact h.painted.trans (List.sublist_append_left _ _)
      tested := h.tested }
  case isFalse => cases hg

/-- **On the screen**: what was gone on by last, as it was pushed. -/
theorem video_display (h : VideoOk z m s) {n : Int} (hn : s.fresh = some n) {vp : Picture}
    (hp : s.frames.f.peekLast = some vp) :
    VideoOk z m { s with fresh := none, painted := s.painted ++ [(vp, n)] } := by
  obtain ⟨lo, hok⟩ := h.frames
  obtain ⟨hshown, p, hlast, hserial, hsub⟩ := h.fresh n hn
  obtain ⟨q, hq, hpeek⟩ := hok.peekLast hshown
  obtain rfl := Option.some.inj (hp.symm.trans hpeek)
  obtain rfl := Option.some.inj (hlast.symm.trans hq)
  exact { h with
    fresh := fun _ hn => nomatch hn
    painted := by simpa using hsub
    tested := by
      intro q hq
      rcases List.mem_append.mp hq with hm | hm
      · exact h.tested q hm
      · rw [List.mem_singleton.mp hm]
        exact hserial }

/-- **One step.** -/
theorem video_step (h : VideoOk z m s) (hm : 0 < m) {a : VideoAct} (ht : s.step z b a = some t) :
    VideoOk z m t := by
  cases a with
  | track a =>
    simp only [Video.step] at ht
    split at ht
    case isTrue => cases ht
    case isFalse hgate =>
      obtain ⟨u, hu, rfl⟩ := Option.map_eq_some_iff.mp ht
      exact video_track h hgate hu
  | drop =>
    simp only [Video.step] at ht
    split at ht
    case isTrue hw =>
      cases ht
      refine h.unseen h.frames rfl rfl rfl (List.prefix_refl _) (by simpa using h.hand_none)
        fun hf => ?_
      rw [(h.filled hf).1] at hw
      cases hw
    case isFalse => cases ht
  | writable =>
    simp only [Video.step] at ht
    split at ht
    · obtain ⟨g, hg, rfl⟩ := queued_some ht
      exact video_writer h hm (.inl rfl) hg (.inr rfl) (.inr ⟨rfl, .inl rfl⟩)
    · cases ht
  | write v =>
    obtain ⟨g, hg, rfl⟩ := queued_some ht
    exact video_writer h hm (.inr (.inl ⟨v, rfl⟩)) hg (.inr rfl) (.inl rfl)
  | fill =>
    obtain ⟨p, hp, hq⟩ := Option.bind_eq_some_iff.mp ht
    obtain ⟨g, hg, rfl⟩ := queued_some hq
    exact video_fill h hm hp hg
  | leave =>
    obtain ⟨g, hg, rfl⟩ := queued_some ht
    exact video_writer h hm (.inr (.inr (.inl rfl))) hg (.inl rfl) (.inl rfl)
  | advance =>
    simp only [Video.step] at ht
    split at ht
    case isTrue hf =>
      obtain ⟨g, hg, rfl⟩ := queued_some ht
      exact video_advance h hm hf hg
    case isFalse => cases ht
  | count =>
    obtain ⟨g, hg, rfl⟩ := queued_some ht
    exact video_writer h hm (.inr (.inr (.inr rfl))) hg (.inr rfl) (.inr ⟨rfl, .inr rfl⟩)
  | remaining =>
    obtain ⟨g, hg, rfl⟩ := queued_some ht
    exact video_remaining h hm hg
  | judge =>
    simp only [Video.step] at ht
    split at ht
    case isTrue hc =>
      obtain ⟨vp, hp, rfl⟩ := Option.map_eq_some_iff.mp ht
      exact video_judge h hc.2 hp
    case isFalse => cases ht
  | skip =>
    simp only [Video.step] at ht
    split at ht
    · obtain ⟨g, hg, rfl⟩ := queued_some ht
      exact video_next h hm hg (fun _ hn => nomatch hn)
    · cases ht
  | present =>
    simp only [Video.step] at ht
    split at ht
    case h_1 serial hv =>
      obtain ⟨g, hg, rfl⟩ := queued_some ht
      refine video_next h hm hg fun n hn => ?_
      rw [hv, Option.some.inj hn]
    case h_2 => cases ht
  | uncount =>
    obtain ⟨g, hg, rfl⟩ := queued_some ht
    obtain ⟨lo, hok⟩ := h.frames
    have hok' := frames_step hok hm hg
    simp only [Frames.step] at hg
    split at hg
    · cases hg
      exact h.unseen hok' rfl rfl rfl (List.prefix_refl _) h.made h.filled
    · cases hg
  | display =>
    simp only [Video.step] at ht
    split at ht
    · obtain ⟨n, hn, hq⟩ := Option.bind_eq_some_iff.mp ht
      obtain ⟨vp, hp, rfl⟩ := Option.map_eq_some_iff.mp hq
      exact video_display h hn hp
    · cases ht

end Ok

/-! ## 3. What gets onto the screen -/

/-- **Only what belongs together, in its order, and never from before a seek.** However the reader,
    the decoder and the screen take turns: each picture shown has the serial the packets had when it
    was tested, and is made of packets of that serial only; each is one of the frames the decoder
    made, none is shown twice or out of order; and the serials never go back. -/
theorem painted_current {z : Int32} {b : Bool} {maxSize : Nat} {s : Video} (hm : 0 < maxSize)
    (h : (video z b maxSize).Reach Machine.Any s) :
    (∀ p ∈ s.painted, p.1.1 = p.2 ∧ p.2 ≤ s.track.queue.serial ∧ ∀ x ∈ p.1.2, x = p.2) ∧
      (s.painted.map Prod.fst).Sublist s.track.frames ∧
      (s.painted.map Prod.snd).Pairwise (· ≤ ·) := by
  have hok : VideoOk z (min maxSize FRAME_QUEUE_SIZE) s := by
    refine h.invariant (I := VideoOk z (min maxSize FRAME_QUEUE_SIZE)) video_start ?_
    intro u a v hu _ hs
    exact video_step hu (by simp [FRAME_QUEUE_SIZE, hm]) hs
  obtain ⟨l, e, htrack⟩ := hok.track
  obtain ⟨lo, hframes⟩ := hok.frames
  have hpainted : s.frames.taken.Sublist s.frames.pushed := by
    rw [hframes.taken]
    exact List.take_sublist _ _
  have hsub : (s.painted.map Prod.fst).Sublist s.track.frames :=
    hok.painted.trans (hpainted.trans hok.hand_none)
  refine ⟨fun p hp => ?_, hsub, ?_⟩
  · obtain ⟨hle, hpure⟩ := htrack.made p.1 (hsub.subset (List.mem_map_of_mem hp))
    have htested := hok.tested p hp
    refine ⟨htested, ?_, fun x hx => (hpure x hx).trans htested⟩
    rw [htrack.queue.serial, ← htested]
    exact Int.le_trans hle htrack.ahead.got
  · have hsorted : ((s.painted.map Prod.fst).map Prod.fst).Pairwise (· ≤ ·) :=
      htrack.sorted.sublist (hsub.map Prod.fst)
    rw [List.map_map] at hsorted
    rwa [List.map_congr_left fun p hp => (hok.tested p hp).symm]

/-- A picture from before a seek waits for the screen when the seek comes. -/
def soughtPicture : List VideoAct :=
  let data : AVPacket := ⟨.buffer 1, 10, 1⟩
  let sent : List VideoAct := [.track .test, .track .fetch, .track .check, .track (.decide false)]
  let again : List VideoAct := [.track .test, .track (.receive .again), .track .fetch,
    .track .check, .track (.decide false)]
  let made : List VideoAct :=
    [.track .test, .track (.receive .frame), .writable, .fill, .advance, .count]
  sent ++ [.track (.put data)] ++ again ++ made ++ [.remaining, .judge, .present, .display] ++
    [.track (.put data)] ++ again ++ made ++ [.track .seek, .track .seeked, .track (.put data)] ++
    sent ++ again ++ made ++
    [.remaining, .judge, .skip, .uncount, .remaining, .judge, .present, .uncount, .display]

theorem painted_current_sought : ∃ s, (video 48 true 3).Reach Machine.Any s ∧
    s.painted = [((1, [1]), 1), ((2, [2]), 2)] ∧
    (s.painted.map Prod.fst).Sublist s.track.frames := by
  obtain ⟨s, hs, hf⟩ : ∃ s, (video 48 true 3).exec (video 48 true 3).init soughtPicture = some s ∧
      s.painted = [((1, [1]), 1), ((2, [2]), 2)] := by
    have hrun : ((video 48 true 3).exec (video 48 true 3).init soughtPicture).map Video.painted =
        some [((1, [1]), 1), ((2, [2]), 2)] := by decide +kernel
    exact Option.map_eq_some_iff.mp hrun
  have hreach := Machine.steps_of_exec hs (Machine.meets_any _ _)
  exact ⟨s, hreach, hf, (painted_current (by decide) hreach).2.1⟩

end Viral.Ijk
