/-
  File:      ViralEngine/Player/Decoder.lean
  Subject:   A SEEK BETWEEN THE READER AND A DECODER
             (ijk-player/ijkmedia/ijkplayer/ff_ffplay.c, `decoder_decode_frame`,
             `packet_queue_get_or_buffering`, and what `read_thread` puts into a queue).

  The reader empties the queue at a seek and puts `flush_pkt` with two calls; the decoder compares
  serials without the mutex, before and behind each packet. In between the other thread may run.
  The codec is not under the sources of the player: it is what it has been sent since it was
  flushed last, and it answers as it likes.

  A decoder of subtitles makes one from a packet on the spot and returns it from the next round of
  its loop, by `ret`, which nothing but that round resets. When `flush_pkt` is taken in between, the
  subtitle from before the seek is returned as one from behind it.

  * `Track`, `TrackAct`, `track` -- one stream, its queue and the two threads;
  * `Follows`, `Rises` -- a serial changes at a `flush_pkt` only;
  * `Fresh` -- the steps that take no `flush_pkt` while a subtitle waits;
  * `TrackOk`, `track_step` -- what every such step keeps;
  * `frames_pure` -- no frame is made of packets from before and behind a seek.
-/
import ViralEngine.Lib.Machine
import ViralEngine.Player.PacketQueue

namespace Viral.Ijk

open Viral.Lib

/-! ## 1. The two threads -/

/-- The places of the decoder: in front of the test of the serial, at `avcodec_receive_frame`, at
    the queue, behind a packet, in front of the test for `flush_pkt`, and gone. -/
inductive DecoderPc where
  | top
  | receiving
  | fetching
  | checking (pkt : AVPacket)
  | deciding (pkt : AVPacket)
  | gone
  deriving DecidableEq, Repr

/-- What `avcodec_receive_frame` answers. -/
inductive Received where
  | frame | eof | again | failed
  deriving DecidableEq, Repr

/-- What `avcodec_decode_subtitle2` answers: an error, or `got_frame`. -/
inductive Decoded where
  | failed | gotFrame | nothing
  deriving DecidableEq, Repr

/-- `ret`, as a decoder of subtitles finds it in front of its loop: 0, `AVERROR(EAGAIN)` or
    `AVERROR_EOF`. -/
inductive Ret where
  | zero | again | eof
  deriving DecidableEq, Repr

/-- One stream. `seeking`: the reader is between `packet_queue_flush` and the `flush_pkt`. `codec`
    are the serials of the packets the codec has been sent since it was flushed, `sub` those of the
    subtitle made last, `frames` the frames and subtitles returned: the serial each is given, and
    what the codec had then. -/
structure Track where
  queue : PacketQueue
  pktSerial : Int
  finished : Int
  pending : Option AVPacket
  pc : DecoderPc
  seeking : Bool
  ret : Ret
  sub : List Int
  codec : List Int
  frames : List (Int × List Int)
  deriving DecidableEq, Repr

/-- The steps: of the reader `put`, `discontinuity`, `seek` and `seeked`, of whoever stops the
    stream `abort`, and the rest of the decoder; `subtitle` is the one in which a decoder of
    subtitles takes a packet. -/
inductive TrackAct where
  | put (pkt : AVPacket)
  | discontinuity
  | seek
  | seeked
  | abort
  | test
  | receive (a : Received)
  | fetch
  | check
  | decide (full : Bool)
  | subtitle (a : Decoded)
  deriving DecidableEq, Repr

namespace Track

/-- Behind `decoder_init` and `packet_queue_start`. -/
def start (sizeofPkt1 : Int32) : Track where
  queue := PacketQueue.init.start sizeofPkt1 true
  pktSerial := 0
  finished := 0
  pending := none
  pc := .top
  seeking := false
  ret := .again
  sub := []
  codec := []
  frames := []

/-- `packet_queue_get_or_buffering`, or the packet that is pending. -/
def fetch (sizeofPkt1 : Int32) (packetBuffering : Bool) (s : Track) : Option Track :=
  match s.pending with
  | some pkt => some { s with pending := none, pc := .checking pkt }
  | none =>
    let (queue, answer) := s.queue.get sizeofPkt1
    match answer.got with
    | some p =>
      let s := { s with queue := queue, pktSerial := p.serial }
      if packetBuffering ∧ s.finished = s.pktSerial then some s
      else some { s with pc := .checking p.pkt }
    | none => if answer.ret < 0 then some { s with pc := .gone } else none

/-- What the decoder does with a packet; `full`: the codec takes no more. -/
def decide (s : Track) (pkt : AVPacket) (full : Bool) : Track :=
  if pkt.data = .flushPkt then { s with codec := [], finished := 0, pc := .top }
  else if full then { s with pending := some pkt, pc := .top }
  else { s with codec := s.codec ++ [s.pktSerial], pc := .top }

/-- What a decoder of subtitles does with a packet that is not `flush_pkt`. -/
def decodeSubtitle (s : Track) (pkt : AVPacket) (a : Decoded) : Track :=
  let s := { s with codec := s.codec ++ [s.pktSerial], pc := .top }
  match a with
  | .failed => { s with ret := .again }
  | .gotFrame =>
    { s with
      pending := if pkt.data = .null then some pkt else s.pending
      ret := .zero
      sub := s.codec }
  | .nothing => { s with ret := if pkt.data = .null then .eof else .again }

/-- What it does with `ret` at the place of `avcodec_receive_frame`. -/
def returnSubtitle (s : Track) : Track :=
  match s.ret with
  | .zero => { s with frames := s.frames ++ [(s.pktSerial, s.sub)], ret := .again, pc := .top }
  | .eof => { s with finished := s.pktSerial, codec := [], ret := .again, pc := .top }
  | .again => { s with pc := .fetching }

/-- **One step**, while there is memory for the packets. `subtitle`: the codec is one of
    subtitles. -/
def step (sizeofPkt1 : Int32) (packetBuffering subtitle : Bool) (s : Track) :
    TrackAct → Option Track
  | .put pkt =>
    if ¬ s.seeking ∧ pkt.data ≠ .flushPkt then
      some { s with queue := (s.queue.putPrivate sizeofPkt1 pkt true).1 }
    else none
  | .discontinuity =>
    if ¬ s.seeking then
      some { s with queue := (s.queue.putPrivate sizeofPkt1 flushPkt true).1 }
    else none
  | .seek =>
    if ¬ s.seeking then some { s with queue := s.queue.flush, seeking := true } else none
  | .seeked =>
    if s.seeking then
      some { s with queue := (s.queue.putPrivate sizeofPkt1 flushPkt true).1, seeking := false }
    else none
  | .abort => some { s with queue := s.queue.abort }
  | .test =>
    if s.pc = .top then
      some { s with pc := if s.queue.serial = s.pktSerial then .receiving else .fetching }
    else none
  | .receive a =>
    if s.pc = .receiving then
      if s.queue.abortRequest then some { s with pc := .gone }
      else if subtitle then some s.returnSubtitle
      else
        some (match a with
          | .frame => { s with frames := s.frames ++ [(s.pktSerial, s.codec)], pc := .top }
          | .eof => { s with finished := s.pktSerial, codec := [], pc := .top }
          | .again => { s with pc := .fetching }
          | .failed => s)
    else none
  | .fetch => if s.pc = .fetching then s.fetch sizeofPkt1 packetBuffering else none
  | .check =>
    match s.pc with
    | .checking pkt =>
      some { s with pc := if s.queue.serial = s.pktSerial then .deciding pkt else .fetching }
    | _ => none
  | .decide full =>
    match s.pc with
    | .deciding pkt =>
      if subtitle ∧ pkt.data ≠ .flushPkt then none else some (s.decide pkt full)
    | _ => none
  | .subtitle a =>
    match s.pc with
    | .deciding pkt =>
      if subtitle ∧ pkt.data ≠ .flushPkt then some (s.decodeSubtitle pkt a) else none
    | _ => none

end Track

/-- **A stream** and its two threads. -/
def track (sizeofPkt1 : Int32) (packetBuffering subtitle : Bool) : Machine Track TrackAct :=
  ⟨.start sizeofPkt1, Track.step sizeofPkt1 packetBuffering subtitle⟩

/-- The step takes no `flush_pkt` while a subtitle waits to be returned. Where the codec is none of
    subtitles, no step does. -/
def Fresh (subtitle : Bool) (s : Track) : TrackAct → Prop
  | .decide _ => ¬ (subtitle = true ∧ s.ret = .zero)
  | _ => True

theorem fresh_false (s : Track) (a : TrackAct) : Fresh false s a := by
  cases a with
  | decide full => exact fun h => nomatch h.1
  | put | discontinuity | seek | seeked | abort | test | receive | fetch | check | subtitle =>
    trivial

/-! ## 2. The serials in the queue -/

/-- A packet behind one of serial `s`. -/
def Follows (s : Int) (p : MyAVPacketList) : Prop :=
  p.serial = s ∨ p.pkt.data = .flushPkt ∧ s < p.serial

/-- Each packet follows the one before it, the first one `s`. -/
def Rises : Int → List MyAVPacketList → Prop
  | _, [] => True
  | s, p :: ps => Follows s p ∧ Rises p.serial ps

/-- The serial of the last packet. -/
def lastSerial : Int → List MyAVPacketList → Int
  | s, [] => s
  | _, p :: ps => lastSerial p.serial ps

theorem rises_append {s : Int} {ps : List MyAVPacketList} {p : MyAVPacketList} (h : Rises s ps)
    (hp : Follows (lastSerial s ps) p) : Rises s (ps ++ [p]) := by
  induction ps generalizing s with
  | nil => exact ⟨hp, trivial⟩
  | cons q ps ih => exact ⟨h.1, ih h.2 hp⟩

@[simp] theorem lastSerial_append (s : Int) (ps : List MyAVPacketList) (p : MyAVPacketList) :
    lastSerial s (ps ++ [p]) = p.serial := by
  induction ps generalizing s with
  | nil => rfl
  | cons q ps ih => exact ih q.serial

theorem lastSerial_le {s m : Int} {ps : List MyAVPacketList} (hs : s ≤ m)
    (hps : ∀ p ∈ ps, p.serial ≤ m) : lastSerial s ps ≤ m := by
  induction ps generalizing s with
  | nil => exact hs
  | cons p ps ih =>
    exact ih (hps p List.mem_cons_self) fun q hq => hps q (List.mem_cons_of_mem p hq)

/-- What the decoder can still get: the packets, behind the serial `s` it got last. Unless a seek
    is under way, the last of them has the serial of the queue. -/
structure Ahead (s : Int) (seeking : Bool) (l : PacketList) : Prop where
  rises : Rises s l.pkts
  last : seeking = true ∨ l.aborted = true ∨ lastSerial s l.pkts = l.serial
  got : s ≤ l.serial
  below : ∀ p ∈ l.pkts, p.serial ≤ l.serial

/-- The packet in the decoder's hands is `flush_pkt`. -/
def DecoderPc.HoldsFlush : DecoderPc → Prop
  | .checking pkt | .deciding pkt => pkt.data = .flushPkt
  | _ => False

/-- **What holds of a stream**, of the packets ahead and of the serial `e` of the codec: what the
    decoder got last has the serial of the codec, or is outdated, or begins a new one. -/
structure TrackOk (z : Int32) (b : Bool) (s : Track) (l : PacketList) (e : Int) : Prop where
  queue : RefinesPkts z s.queue l
  ahead : Ahead s.pktSerial s.seeking l
  codec : ∀ x ∈ s.codec, x = e
  sub : b = true → s.ret = .zero → ∀ x ∈ s.sub, x = e
  place : s.pktSerial = e ∨ s.pktSerial < l.serial ∨ s.pc.HoldsFlush
  receiving : s.pc = .receiving → s.pktSerial = e
  deciding : ∀ pkt, s.pc = .deciding pkt → pkt.data ≠ .flushPkt → s.pktSerial = e
  pending : ∀ pkt, s.pending = some pkt → pkt.data ≠ .flushPkt
  finished : s.finished ≤ s.pktSerial
  positive : 0 ≤ s.pktSerial
  made : ∀ f ∈ s.frames, f.1 ≤ s.pktSerial ∧ ∀ x ∈ f.2, x = f.1
  sorted : (s.frames.map Prod.fst).Pairwise (· ≤ ·)

/-! ## 3. The reader's steps -/

section Reader

variable {z : Int32} {e : Int} {b : Bool} {s : Track} {l l' : PacketList}

theorem track_start (z : Int32) (b : Bool) :
    TrackOk z b (.start z) (PacketList.init.start true) 0 where
  queue := (pktCall_refines (init_refinesPkts z) (.start true)).2
  ahead := by
    refine ⟨⟨.inr ⟨rfl, Int.one_pos⟩, trivial⟩, .inr (.inr rfl), Int.zero_le_ofNat 1, ?_⟩
    intro p hp
    rw [List.mem_singleton.mp hp]
    decide
  codec := fun _ hx => nomatch hx
  sub := fun _ h => nomatch h
  place := .inl rfl
  receiving := fun _ => rfl
  deciding := fun _ h => nomatch h
  pending := fun _ h => nomatch h
  finished := Int.le_refl 0
  positive := Int.le_refl 0
  made := fun _ hf => nomatch hf
  sorted := .nil

/-- Another queue under the same decoder. -/
theorem TrackOk.withQueue (h : TrackOk z b s l e) {q : PacketQueue} {seeking : Bool}
    (hq : RefinesPkts z q l') (ha : Ahead s.pktSerial seeking l')
    (hle : l.serial ≤ l'.serial) :
    TrackOk z b { s with queue := q, seeking := seeking } l' e where
  queue := hq
  ahead := ha
  codec := h.codec
  sub := h.sub
  place := by
    rcases h.place with hp | hp | hp
    · exact .inl hp
    · exact .inr (.inl (Int.lt_of_lt_of_le hp hle))
    · exact .inr (.inr hp)
  receiving := h.receiving
  deciding := h.deciding
  pending := h.pending
  finished := h.finished
  positive := h.positive
  made := h.made
  sorted := h.sorted

theorem le_nextSerial (l : PacketList) (pkt : AVPacket) : l.serial ≤ l.nextSerial pkt := by
  unfold PacketList.nextSerial
  split <;> omega

theorem putPrivate_aborted (ha : l.aborted = true) (pkt : AVPacket) :
    (l.putPrivate pkt true).1 = l := by
  rw [PacketList.putPrivate, if_pos (.inl ha)]

theorem putPrivate_running (ha : l.aborted = false) (pkt : AVPacket) :
    (l.putPrivate pkt true).1 = { l with
      pkts := l.pkts ++ [⟨pkt, l.nextSerial pkt⟩], spare := l.spare - 1,
      serial := l.nextSerial pkt } := by
  rw [PacketList.putPrivate, if_neg (by simp [ha])]

/-- **A packet more**: in the middle of a seek it must be `flush_pkt`. -/
theorem track_put (h : TrackOk z b s l e) (pkt : AVPacket)
    (hp : s.seeking = true → pkt.data = .flushPkt) :
    TrackOk z b { s with queue := (s.queue.putPrivate z pkt true).1, seeking := false }
      (l.putPrivate pkt true).1 e := by
  obtain ⟨hrises, hlast, hgot, hbelow⟩ := h.ahead
  have hqueue := (putPkt_refines h.queue pkt true).2
  cases ha : l.aborted with
  | true =>
    rw [putPrivate_aborted ha] at hqueue ⊢
    exact h.withQueue hqueue ⟨hrises, .inr (.inl ha), hgot, hbelow⟩ (Int.le_refl _)
  | false =>
    rw [putPrivate_running ha] at hqueue ⊢
    have hle := le_nextSerial l pkt
    refine h.withQueue hqueue ⟨rises_append hrises ?_, .inr (.inr ?_), ?_, ?_⟩ hle
    · -- the packet follows the last one
      have hbound : lastSerial s.pktSerial l.pkts ≤ l.serial := lastSerial_le hgot hbelow
      by_cases hd : pkt.data = .flushPkt
      · refine .inr ⟨hd, ?_⟩
        show _ < l.nextSerial pkt
        rw [PacketList.nextSerial, if_pos hd]
        exact Int.lt_add_one_of_le hbound
      · rcases hlast with hs | hab | heq
        · exact absurd (hp hs) hd
        · rw [ha] at hab
          cases hab
        · refine .inl ?_
          show l.nextSerial pkt = _
          rw [PacketList.nextSerial, if_neg hd]
          exact heq.symm
    · exact lastSerial_append _ _ _
    · exact Int.le_trans hgot hle
    · intro p hmem
      rcases List.mem_append.mp hmem with hm | hm
      · exact Int.le_trans (hbelow p hm) hle
      · obtain rfl := List.mem_singleton.mp hm
        exact Int.le_refl _

/-- **A seek begins.** -/
theorem track_flush (h : TrackOk z b s l e) :
    TrackOk z b { s with queue := s.queue.flush, seeking := true } l.flush e :=
  h.withQueue (flushPkts_refines h.queue)
    ⟨trivial, .inl rfl, h.ahead.got, fun _ hp => nomatch hp⟩ (Int.le_refl _)

theorem track_abort (h : TrackOk z b s l e) :
    TrackOk z b { s with queue := s.queue.abort } { l with aborted := true } e :=
  h.withQueue (pktCall_refines h.queue .abort).2
    { h.ahead with last := .inr (.inl rfl) } (Int.le_refl _)

end Reader

/-! ## 4. The decoder's steps -/

section Decoder

variable {z : Int32} {e : Int} {b : Bool} {s t : Track} {l : PacketList}

/-- Another place of the decoder, with nothing new in its hands. -/
theorem TrackOk.at (h : TrackOk z b s l e) (pc : DecoderPc)
    (hplace : s.pktSerial = e ∨ s.pktSerial < l.serial ∨ pc.HoldsFlush)
    (hrec : pc = .receiving → s.pktSerial = e)
    (hdec : ∀ pkt, pc = .deciding pkt → pkt.data ≠ .flushPkt → s.pktSerial = e) :
    TrackOk z b { s with pc := pc } l e where
  queue := h.queue
  ahead := h.ahead
  codec := h.codec
  sub := h.sub
  place := hplace
  receiving := hrec
  deciding := hdec
  pending := h.pending
  finished := h.finished
  positive := h.positive
  made := h.made
  sorted := h.sorted

/-- A serial equal to that of the queue is that of the codec. -/
theorem TrackOk.current (h : TrackOk z b s l e) (hs : s.queue.serial = s.pktSerial)
    (hpc : ¬ s.pc.HoldsFlush) : s.pktSerial = e := by
  rcases h.place with hp | hp | hp
  · exact hp
  · rw [← h.queue.serial, hs] at hp
    exact absurd hp (Int.lt_irrefl _)
  · exact absurd hp hpc

/-- Any other is outdated. -/
theorem TrackOk.outdated (h : TrackOk z b s l e) (hs : s.queue.serial ≠ s.pktSerial) :
    s.pktSerial < l.serial := by
  have hgot := h.ahead.got
  rw [h.queue.serial] at hs
  omega

/-- **The test in front of the codec.** -/
theorem track_test (h : TrackOk z b s l e) (hpc : s.pc = .top) :
    TrackOk z b { s with pc := if s.queue.serial = s.pktSerial then .receiving else .fetching }
      l e := by
  by_cases hs : s.queue.serial = s.pktSerial
  · rw [if_pos hs]
    have he := h.current hs (by rw [hpc]; exact id)
    exact h.at _ (.inl he) (fun _ => he) (fun _ hd => nomatch hd)
  · rw [if_neg hs]
    exact h.at _ (.inr (.inl (h.outdated hs))) (fun hd => nomatch hd) (fun _ hd => nomatch hd)

/-- **The test behind a packet.** -/
theorem track_check (h : TrackOk z b s l e) {pkt : AVPacket} (hpc : s.pc = .checking pkt) :
    TrackOk z b { s with pc := if s.queue.serial = s.pktSerial then .deciding pkt else .fetching }
      l e := by
  by_cases hs : s.queue.serial = s.pktSerial
  · rw [if_pos hs]
    by_cases hd : pkt.data = .flushPkt
    · refine h.at _ (.inr (.inr hd)) (fun hr => nomatch hr) fun p hp hne => ?_
      obtain rfl := DecoderPc.deciding.inj hp
      exact absurd hd hne
    · have he := h.current hs (by rw [hpc]; exact hd)
      exact h.at _ (.inl he) (fun _ => he) (fun _ _ _ => he)
  · rw [if_neg hs]
    exact h.at _ (.inr (.inl (h.outdated hs))) (fun hd => nomatch hd) (fun _ hd => nomatch hd)

/-- A frame made of packets of the serial `e`, which it is given. -/
theorem made_append (h : TrackOk z b s l e) (he : s.pktSerial = e) {made : List Int}
    (hmade : ∀ x ∈ made, x = e) :
    ∀ f ∈ s.frames ++ [(s.pktSerial, made)], f.1 ≤ s.pktSerial ∧ ∀ x ∈ f.2, x = f.1 := by
  intro f hf
  rcases List.mem_append.mp hf with hm | hm
  · exact h.made f hm
  · rw [List.mem_singleton.mp hm]
    exact ⟨Int.le_refl _, fun x hx => (hmade x hx).trans he.symm⟩

theorem sorted_append (h : TrackOk z b s l e) (made : List Int) :
    ((s.frames ++ [(s.pktSerial, made)]).map Prod.fst).Pairwise (· ≤ ·) := by
  rw [List.map_append, List.pairwise_append]
  refine ⟨h.sorted, List.pairwise_singleton _ _, ?_⟩
  intro x hx y hy
  obtain ⟨f, hf, rfl⟩ := List.mem_map.mp hx
  rw [List.mem_singleton.mp hy]
  exact (h.made f hf).1

/-- One packet more in the codec. -/
theorem codec_append (h : TrackOk z b s l e) (he : s.pktSerial = e) :
    ∀ x ∈ s.codec ++ [s.pktSerial], x = e := by
  intro x hx
  rcases List.mem_append.mp hx with hm | hm
  · exact h.codec x hm
  · rw [List.mem_singleton.mp hm]
    exact he

/-- **The codec answers.** -/
theorem track_receive (h : TrackOk z b s l e) (hpc : s.pc = .receiving) (a : Received) :
    TrackOk z b (match a with
      | .frame => { s with frames := s.frames ++ [(s.pktSerial, s.codec)], pc := .top }
      | .eof => { s with finished := s.pktSerial, codec := [], pc := .top }
      | .again => { s with pc := .fetching }
      | .failed => s) l e := by
  have he := h.receiving hpc
  cases a with
  | frame =>
    exact { h.at .top (.inl he) (fun hd => nomatch hd) (fun _ hd => nomatch hd) with
      made := made_append h he h.codec
      sorted := sorted_append h s.codec }
  | eof =>
    exact { h.at .top (.inl he) (fun hd => nomatch hd) (fun _ hd => nomatch hd) with
      codec := fun _ hx => nomatch hx
      finished := Int.le_refl _ }
  | again => exact h.at _ (.inl he) (fun hd => nomatch hd) (fun _ hd => nomatch hd)
  | failed => exact h

/-- **A subtitle is returned**, or there is none. -/
theorem track_returnSubtitle (h : TrackOk z true s l e) (hpc : s.pc = .receiving) :
    TrackOk z true s.returnSubtitle l e := by
  have he := h.receiving hpc
  have htop := h.at .top (.inl he) (fun hd => nomatch hd) (fun _ hd => nomatch hd)
  unfold Track.returnSubtitle
  cases hret : s.ret with
  | zero =>
    exact { htop with
      sub := fun _ hd => nomatch hd
      made := made_append h he (h.sub rfl hret)
      sorted := sorted_append h s.sub }
  | eof =>
    exact { htop with
      codec := fun _ hx => nomatch hx
      sub := fun _ hd => nomatch hd
      finished := Int.le_refl _ }
  | again =>
    have hout := h.at .fetching (.inl he) (fun hd => nomatch hd) (fun _ hd => nomatch hd)
    exact { hout with sub := fun _ hd => nomatch hd }

/-- **A packet for the codec of subtitles.** -/
theorem track_decodeSubtitle (h : TrackOk z b s l e) {pkt : AVPacket} (hpc : s.pc = .deciding pkt)
    (hd : pkt.data ≠ .flushPkt) (a : Decoded) : TrackOk z b (s.decodeSubtitle pkt a) l e := by
  have he := h.deciding pkt hpc hd
  have htop := h.at .top (.inl he) (fun hr => nomatch hr) (fun _ hr => nomatch hr)
  have hcodec : ∀ x ∈ s.codec ++ [s.pktSerial], x = e := codec_append h he
  unfold Track.decodeSubtitle
  cases a with
  | failed => exact { htop with codec := hcodec, sub := fun _ hr => nomatch hr }
  | gotFrame =>
    refine { htop with codec := hcodec, sub := fun _ _ => hcodec, pending := fun p hp => ?_ }
    have hmoved : (if pkt.data = .null then some pkt else s.pending) = some p := hp
    split at hmoved
    · exact Option.some.inj hmoved ▸ hd
    · exact h.pending p hmoved
  | nothing =>
    refine { htop with codec := hcodec, sub := fun _ hr => ?_ }
    have hret : (if pkt.data = .null then Ret.eof else .again) = .zero := hr
    split at hret <;> cases hret

/-- **A packet for the codec**, or a serial that begins, when no subtitle waits. -/
theorem track_decide (h : TrackOk z b s l e) {pkt : AVPacket} (hpc : s.pc = .deciding pkt)
    (full : Bool) (hfresh : ¬ (b = true ∧ s.ret = .zero)) :
    ∃ e', TrackOk z b (s.decide pkt full) l e' := by
  unfold Track.decide
  by_cases hd : pkt.data = .flushPkt
  · rw [if_pos hd]
    exact ⟨s.pktSerial,
      { h with
        codec := fun _ hx => nomatch hx
        sub := fun hb hr => absurd ⟨hb, hr⟩ hfresh
        place := .inl rfl
        receiving := fun _ => rfl
        deciding := fun _ _ _ => rfl
        finished := h.positive }⟩
  · rw [if_neg hd]
    have he := h.deciding pkt hpc hd
    have htop := h.at .top (.inl he) (fun hr => nomatch hr) (fun _ hr => nomatch hr)
    cases full with
    | true =>
      exact ⟨e, { htop with
        pending := fun p hp => Option.some.inj hp ▸ hd }⟩
    | false =>
      exact ⟨e, { htop with codec := codec_append h he }⟩

/-- **What comes out of the queue.** -/
theorem track_get (h : TrackOk z b s l e) (hpc : s.pc = .fetching) {p : MyAVPacketList}
    (hp : (s.queue.get z).2.got = some p) : ∃ l',
      TrackOk z b { s with queue := (s.queue.get z).1, pktSerial := p.serial, pc := .checking p.pkt }
        l' e ∧ l'.serial = l.serial ∧ (s.finished = p.serial → p.serial = s.pktSerial) := by
  obtain ⟨hans, hq⟩ := getPkt_refines h.queue
  obtain ⟨hrises, hlast, hgot, hbelow⟩ := h.ahead
  rw [hans] at hp
  unfold PacketList.get at hp hq
  cases ha : l.aborted with
  | true =>
    rw [if_pos ha] at hp
    cases hp
  | false =>
    rw [if_neg (by simp [ha])] at hp hq
    cases hpkts : l.pkts with
    | nil =>
      rw [hpkts] at hp
      cases hp
    | cons p' ps =>
      rw [hpkts] at hp hq hrises hlast hbelow
      obtain rfl := Option.some.inj hp
      obtain ⟨hfollows, hrest⟩ := hrises
      have hup : s.pktSerial ≤ p'.serial := by
        rcases hfollows with hf | hf
        · exact Int.le_of_eq hf.symm
        · exact Int.le_of_lt hf.2
      refine ⟨_, { h with
        queue := hq
        ahead := ⟨hrest, hlast, hbelow p' List.mem_cons_self,
          fun x hx => hbelow x (List.mem_cons_of_mem _ hx)⟩
        place := ?_
        receiving := fun hr => nomatch hr
        deciding := fun _ hr => nomatch hr
        finished := Int.le_trans h.finished hup
        positive := Int.le_trans h.positive hup
        made := fun f hf => ⟨Int.le_trans (h.made f hf).1 hup, (h.made f hf).2⟩ }, rfl, ?_⟩
      · rcases hfollows with hf | hf
        · -- the serial it was
          have hplace := h.place
          rw [hpc] at hplace
          rcases hplace with hp | hp | hp
          · exact .inl (hf.trans hp)
          · exact .inr (.inl (hf ▸ hp))
          · exact hp.elim
        · exact .inr (.inr hf.1)
      · intro hfin
        exact Int.le_antisymm (hfin ▸ h.finished) hup

theorem track_fetch (h : TrackOk z b s l e) (hpc : s.pc = .fetching) {buffering : Bool}
    (ht : s.fetch z buffering = some t) : ∃ l', TrackOk z b t l' e := by
  have hplace : s.pktSerial = e ∨ s.pktSerial < l.serial := by
    have hplace := h.place
    rw [hpc] at hplace
    exact hplace.imp_right fun hp => hp.resolve_right id
  unfold Track.fetch at ht
  cases hpend : s.pending with
  | some pkt =>
    rw [hpend] at ht
    cases ht
    refine ⟨l, { h.at (.checking pkt) (hplace.imp_right .inl) (fun hr => nomatch hr)
      (fun _ hr => nomatch hr) with pending := fun _ hp => nomatch hp }⟩
  | none =>
    simp only [hpend] at ht
    cases hgot : (s.queue.get z).2.got with
    | some p =>
      simp only [hgot] at ht
      obtain ⟨l', h', hserial, hfin⟩ := track_get h hpc hgot
      refine ⟨l', ?_⟩
      by_cases hdrop : buffering = true ∧ s.finished = p.serial
      · -- behind the end of the file the packets of its serial are left out
        rw [if_pos hdrop] at ht
        cases ht
        have hsame := hfin hdrop.2
        rw [← hpend, hpc]
        refine h'.at .fetching ?_ (fun hr => nomatch hr) (fun _ hr => nomatch hr)
        rcases hplace with hp | hp
        · exact .inl (hsame.trans hp)
        · refine .inr (.inl ?_)
          rw [hserial]
          exact hsame ▸ hp
      · rw [if_neg hdrop] at ht
        cases ht
        rw [← hpend]
        exact h'
    | none =>
      simp only [hgot] at ht
      split at ht
      · cases ht
        rw [← hpend]
        exact ⟨l, h.at .gone (hplace.imp_right .inl) (fun hr => nomatch hr)
          (fun _ hr => nomatch hr)⟩
      · cases ht

/-- **One step.** -/
theorem track_step (h : TrackOk z b s l e) {buffering : Bool} {a : TrackAct} (ha : Fresh b s a)
    (ht : s.step z buffering b a = some t) : ∃ l' e', TrackOk z b t l' e' := by
  cases a with
  | put pkt =>
    simp only [Track.step] at ht
    split at ht
    case isTrue hc =>
      cases ht
      have hs := hc.1
      rw [Bool.not_eq_true] at hs
      have h' := track_put h pkt fun hp => absurd hp hc.1
      exact ⟨_, e, hs ▸ h'⟩
    case isFalse => cases ht
  | discontinuity =>
    simp only [Track.step] at ht
    split at ht
    case isTrue hc =>
      cases ht
      rw [Bool.not_eq_true] at hc
      exact ⟨_, e, hc ▸ track_put h flushPkt fun _ => rfl⟩
    case isFalse => cases ht
  | seek =>
    simp only [Track.step] at ht
    split at ht
    · cases ht
      exact ⟨_, e, track_flush h⟩
    · cases ht
  | seeked =>
    simp only [Track.step] at ht
    split at ht
    · cases ht
      exact ⟨_, e, track_put h flushPkt fun _ => rfl⟩
    · cases ht
  | abort =>
    cases ht
    exact ⟨_, e, track_abort h⟩
  | test =>
    simp only [Track.step] at ht
    split at ht
    case isTrue hc =>
      cases ht
      exact ⟨l, e, track_test h hc⟩
    case isFalse => cases ht
  | receive a =>
    simp only [Track.step] at ht
    split at ht
    case isTrue hc =>
      split at ht
      · cases ht
        exact ⟨l, e, h.at _ (.inl (h.receiving hc)) (fun hr => nomatch hr) (fun _ hr => nomatch hr)⟩
      · split at ht
        case isTrue hb =>
          cases ht
          subst hb
          exact ⟨l, e, track_returnSubtitle h hc⟩
        case isFalse =>
          cases ht
          exact ⟨l, e, track_receive h hc a⟩
    case isFalse => cases ht
  | fetch =>
    simp only [Track.step] at ht
    split at ht
    case isTrue hc =>
      obtain ⟨l', h'⟩ := track_fetch h hc ht
      exact ⟨l', e, h'⟩
    case isFalse => cases ht
  | check =>
    simp only [Track.step] at ht
    split at ht
    case h_1 pkt hpc =>
      cases ht
      exact ⟨l, e, track_check h hpc⟩
    case h_2 => cases ht
  | decide full =>
    simp only [Track.step] at ht
    split at ht
    case h_1 pkt hpc =>
      split at ht
      · cases ht
      · cases ht
        exact ⟨l, track_decide h hpc full ha⟩
    case h_2 => cases ht
  | subtitle a =>
    simp only [Track.step] at ht
    split at ht
    case h_1 pkt hpc =>
      split at ht
      case isTrue hc =>
        cases ht
        exact ⟨l, e, track_decodeSubtitle h hpc hc.2 a⟩
      case isFalse => cases ht
    case h_2 => cases ht

end Decoder

/-- **No frame is made of packets from before and behind a seek.** However the reader, the decoder
    and whoever stops the stream take turns, and whatever the codec answers: the packets a frame is
    made from were all put under the serial it is given, and the serials of the frames never go
    back, nor beyond that of the queue. Of sound and pictures this holds in every run, of subtitles
    in those in which no `flush_pkt` is taken while one waits to be returned. -/
theorem frames_pure {z : Int32} {buffering b : Bool} {s : Track}
    (h : (track z buffering b).Reach (Fresh b) s) :
    (∀ f ∈ s.frames, f.1 ≤ s.queue.serial ∧ ∀ x ∈ f.2, x = f.1) ∧
      (s.frames.map Prod.fst).Pairwise (· ≤ ·) := by
  obtain ⟨l, e, hok⟩ : ∃ l e, TrackOk z b s l e := by
    refine h.invariant (I := fun s => ∃ l e, TrackOk z b s l e) ⟨_, 0, track_start z b⟩ ?_
    rintro u a v ⟨l, e, hu⟩ hfresh hs
    exact track_step hu hfresh hs
  refine ⟨fun f hf => ⟨?_, (hok.made f hf).2⟩, hok.sorted⟩
  rw [hok.queue.serial]
  exact Int.le_trans (hok.made f hf).1 hok.ahead.got

/-- A seek while the decoder has a packet in its hands. -/
def sought : List TrackAct :=
  let data : AVPacket := ⟨.buffer 1, 10, 1⟩
  [.test, .fetch, .check, .decide false, .put data, .put data, .test, .receive .again, .fetch,
    .check, .decide false, .test, .receive .frame, .test, .receive .again, .fetch, .seek, .check,
    .decide false, .seeked, .put data, .test, .fetch, .check, .decide false, .test, .receive .again,
    .fetch, .check, .decide false, .test, .receive .frame]

theorem frames_pure_sought : ∃ s, (track 48 true false).Reach (Fresh false) s ∧
    s.frames = [(1, [1]), (2, [2])] ∧ (s.frames.map Prod.fst).Pairwise (· ≤ ·) := by
  obtain ⟨s, hs, hf⟩ : ∃ s, (track 48 true false).exec (track 48 true false).init sought = some s ∧
      s.frames = [(1, [1]), (2, [2])] := by
    have hrun : ((track 48 true false).exec (track 48 true false).init sought).map Track.frames =
        some [(1, [1]), (2, [2])] := by decide +kernel
    exact Option.map_eq_some_iff.mp hrun
  have hreach := (Machine.steps_of_exec hs (Machine.meets_any _ _)).mono
    fun s a _ => fresh_false s a
  exact ⟨s, hreach, hf, (frames_pure hreach).2⟩

/-- A subtitle made before a seek is returned with the serial behind it. -/
example : ((track 48 true true).exec (track 48 true true).init
    [.test, .fetch, .check, .decide false, .put ⟨.buffer 1, 10, 1⟩, .test, .receive .again, .fetch,
      .check, .subtitle .gotFrame, .seek, .seeked, .test, .fetch, .check, .decide false, .test,
      .receive .again]).map Track.frames = some [(2, [1])] := by decide +kernel

end Viral.Ijk
