/-
  File:      ViralEngine/Player/PacketQueue.lean
  Subject:   THE PACKETS BETWEEN THE DEMUXER AND A DECODER
             (ijk-player/ijkmedia/ijkplayer/ff_ffplay.c, `packet_queue_*`, built without FFP_MERGE).

  The same linked nodes as in the message queue, with a serial on each packet: `&flush_pkt` begins
  a new one. The counters are those the reader stops at when the queue is full; they are of the
  machine's types and wrap around. Every function holds the queue's mutex, so each is one call here;
  a call of `packet_queue_get` that would wait answers 0, as one that does not block.

  * `AVPacket`, `MyAVPacketList`, `PacketQueue` -- the queue; `sizeofPkt1` is the size of a node;
  * `PacketCall`, `PacketQueue.call` -- its functions;
  * `PacketList` -- a list of packets with their serials, and a number of spare nodes;
  * `packetList_refines` -- all calls answer alike, and the counters are sums over the list, as
    far as their types hold them.
-/
import Mathlib.Algebra.BigOperators.Group.List.Basic
import Mathlib.Algebra.Order.BigOperators.Group.List
import Mathlib.Algebra.Order.Ring.Int
import ViralEngine.Lib.Linked

namespace Viral.Ijk

open Viral.Lib

/-! ## 1. The queue -/

/-- What `data` points to. -/
inductive PktData where
  | null
  | flushPkt
  | buffer (address : Nat)
  deriving DecidableEq, Repr

/-- The fields of a packet that the queue and the decoders read. -/
structure AVPacket where
  data : PktData
  size : Int32
  duration : Int64
  deriving DecidableEq, Repr

/-- `flush_pkt`: the only packet with this `data`. -/
def flushPkt : AVPacket := ⟨.flushPkt, 0, 0⟩

/-- A packet and the serial it was put with. -/
structure MyAVPacketList where
  pkt : AVPacket
  serial : Int
  deriving DecidableEq, Repr

/-- What a packet without a duration counts for. -/
def MIN_PKT_DURATION : Int64 := 15

/-- `FFMAX`. -/
def FFMAX (a b : Int64) : Int64 := if b < a then a else b

/-- `PacketQueue`; the list of the packets and the one of the nodes out of use are `links`. -/
structure PacketQueue where
  links : Linked MyAVPacketList
  nbPackets : Int32
  size : Int32
  duration : Int64
  abortRequest : Bool
  serial : Int
  recycleCount : Nat
  allocCount : Nat
  deriving DecidableEq, Repr

/-- What a call answers: the value it returns, 0 where it is `void`, and the packet and the serial
    it fills in. -/
structure PacketAnswer where
  ret : Int
  got : Option MyAVPacketList
  deriving DecidableEq, Repr

/-- The calls. `malloc`: there is memory for a node. -/
inductive PacketCall where
  | put (pkt : AVPacket) (malloc : Bool)
  | flush
  | abort
  | start (malloc : Bool)
  | get
  deriving DecidableEq, Repr

namespace PacketQueue

/-- `packet_queue_init`. -/
def init : PacketQueue := ⟨.empty, 0, 0, 0, true, 0, 0, 0⟩

/-- `packet_queue_put_private`. -/
def putPrivate (sizeofPkt1 : Int32) (q : PacketQueue) (pkt : AVPacket) (malloc : Bool) :
    PacketQueue × Int :=
  if q.abortRequest then (q, -1)
  else
    let q :=
      if q.links.recycle.isSome then { q with recycleCount := q.recycleCount + 1 }
      else { q with allocCount := q.allocCount + 1 }
    let serial := if pkt.data = .flushPkt then q.serial + 1 else q.serial
    match q.links.put ⟨pkt, serial⟩ malloc with
    | none => (q, -1)
    | some links =>
      ({ q with
        links := links
        serial := serial
        nbPackets := q.nbPackets + 1
        size := q.size + (pkt.size + sizeofPkt1)
        duration := q.duration + FFMAX pkt.duration MIN_PKT_DURATION }, 0)

/-- `packet_queue_flush`. -/
def flush (q : PacketQueue) : PacketQueue :=
  { q with links := (q.links.flush id).1, nbPackets := 0, size := 0, duration := 0 }

/-- `packet_queue_abort`. -/
def abort (q : PacketQueue) : PacketQueue := { q with abortRequest := true }

/-- `abort_request` is taken back. -/
def running (q : PacketQueue) : PacketQueue := { q with abortRequest := false }

/-- `packet_queue_start`. -/
def start (sizeofPkt1 : Int32) (q : PacketQueue) (malloc : Bool) : PacketQueue :=
  (q.running.putPrivate sizeofPkt1 flushPkt malloc).1

/-- `packet_queue_get`. -/
def get (sizeofPkt1 : Int32) (q : PacketQueue) : PacketQueue × PacketAnswer :=
  if q.abortRequest then (q, ⟨-1, none⟩)
  else
    match q.links.get id with
    | some (pkt1, links) =>
      ({ q with
        links := links
        nbPackets := q.nbPackets - 1
        size := q.size - (pkt1.pkt.size + sizeofPkt1)
        duration := q.duration - FFMAX pkt1.pkt.duration MIN_PKT_DURATION }, ⟨1, some pkt1⟩)
    | none => (q, ⟨0, none⟩)

/-- The function that a call is a call of. -/
def call (sizeofPkt1 : Int32) (q : PacketQueue) : PacketCall → PacketQueue × PacketAnswer
  | .put pkt malloc =>
    ((q.putPrivate sizeofPkt1 pkt malloc).1, ⟨(q.putPrivate sizeofPkt1 pkt malloc).2, none⟩)
  | .flush => (q.flush, ⟨0, none⟩)
  | .abort => (q.abort, ⟨0, none⟩)
  | .start malloc => (q.start sizeofPkt1 malloc, ⟨0, none⟩)
  | .get => q.get sizeofPkt1

end PacketQueue

/-! ## 2. A list of packets -/

/-- The packets, and how many nodes are out of use. -/
structure PacketList where
  pkts : List MyAVPacketList
  spare : Nat
  aborted : Bool
  serial : Int
  deriving DecidableEq, Repr

namespace PacketList

/-- Behind `packet_queue_init`. -/
def init : PacketList := ⟨[], 0, true, 0⟩

/-- The serial of a packet put now. -/
def nextSerial (l : PacketList) (pkt : AVPacket) : Int :=
  if pkt.data = .flushPkt then l.serial + 1 else l.serial

/-- The packet comes behind the others. -/
def putPrivate (l : PacketList) (pkt : AVPacket) (malloc : Bool) : PacketList × Int :=
  if l.aborted ∨ l.spare = 0 ∧ malloc = false then (l, -1)
  else
    ({ l with
      pkts := l.pkts ++ [⟨pkt, l.nextSerial pkt⟩]
      spare := l.spare - 1
      serial := l.nextSerial pkt }, 0)

/-- All packets go, their nodes stay. -/
def flush (l : PacketList) : PacketList :=
  { l with pkts := [], spare := l.pkts.length + l.spare }

/-- No call is refused any more. -/
def running (l : PacketList) : PacketList := { l with aborted := false }

/-- `flush_pkt` is put on a list that runs. -/
def start (l : PacketList) (malloc : Bool) : PacketList :=
  (l.running.putPrivate flushPkt malloc).1

/-- The first packet is taken. -/
def get (l : PacketList) : PacketList × PacketAnswer :=
  if l.aborted then (l, ⟨-1, none⟩)
  else
    match l.pkts with
    | p :: ps => ({ l with pkts := ps, spare := l.spare + 1 }, ⟨1, some p⟩)
    | [] => (l, ⟨0, none⟩)

/-- The same calls, on the list. -/
def call (l : PacketList) : PacketCall → PacketList × PacketAnswer
  | .put pkt malloc => ((l.putPrivate pkt malloc).1, ⟨(l.putPrivate pkt malloc).2, none⟩)
  | .flush => (l.flush, ⟨0, none⟩)
  | .abort => ({ l with aborted := true }, ⟨0, none⟩)
  | .start malloc => (l.start malloc, ⟨0, none⟩)
  | .get => l.get

/-- The bytes of the packets and their nodes. -/
def size (sizeofPkt1 : Int32) (l : PacketList) : Int :=
  (l.pkts.map fun p => p.pkt.size.toInt + sizeofPkt1.toInt).sum

/-- The time the packets last, each at least `MIN_PKT_DURATION`. -/
def duration (l : PacketList) : Int :=
  (l.pkts.map fun p => (FFMAX p.pkt.duration MIN_PKT_DURATION).toInt).sum

theorem duration_nonneg (l : PacketList) : 0 ≤ l.duration := by
  refine List.sum_nonneg fun x hx => ?_
  obtain ⟨p, -, rfl⟩ := List.mem_map.mp hx
  have hmin : (0 : Int) ≤ MIN_PKT_DURATION.toInt := by decide
  unfold FFMAX
  split
  · rename_i hlt
    exact hmin.trans (Int64.lt_iff_toInt_lt.mp hlt).le
  · exact hmin

end PacketList

/-! ## 3. The queue is the list -/

/-- **The nodes hold the list**, and the counters are sums over it, wrapped around. -/
structure RefinesPkts (sizeofPkt1 : Int32) (q : PacketQueue) (l : PacketList) : Prop where
  nodes : ∃ xs ys, q.links.Holds xs ys ∧ l.pkts = xs.map Prod.snd ∧ l.spare = ys.length
  count : q.nbPackets = .ofNat l.pkts.length
  size : q.size = .ofInt (l.size sizeofPkt1)
  duration : q.duration = .ofInt l.duration
  abort : q.abortRequest = l.aborted
  serial : q.serial = l.serial

section Refines

variable {z : Int32} {q : PacketQueue} {l : PacketList}

theorem init_refinesPkts (z : Int32) : RefinesPkts z .init .init :=
  ⟨⟨[], [], Linked.empty_holds, rfl, rfl⟩, rfl, rfl, rfl, rfl, rfl⟩

theorem RefinesPkts.running (h : RefinesPkts z q l) : RefinesPkts z q.running l.running :=
  ⟨h.nodes, h.count, h.size, h.duration, rfl, h.serial⟩

theorem putPkt_refines (h : RefinesPkts z q l) (pkt : AVPacket) (malloc : Bool) :
    (q.putPrivate z pkt malloc).2 = (l.putPrivate pkt malloc).2 ∧
      RefinesPkts z (q.putPrivate z pkt malloc).1 (l.putPrivate pkt malloc).1 := by
  obtain ⟨⟨xs, ys, hl, hxs, hys⟩, hcount, hsize, hduration, habort, hserial⟩ := h
  unfold PacketQueue.putPrivate PacketList.putPrivate
  cases ha : l.aborted with
  | true =>
    rw [if_pos (habort.trans ha), if_pos (.inl rfl)]
    exact ⟨rfl, ⟨xs, ys, hl, hxs, hys⟩, hcount, hsize, hduration, habort, hserial⟩
  | false =>
    rw [if_neg (by rw [habort, ha]; decide)]
    -- the counters of the nodes apart, the queue is the same
    obtain ⟨r, hr, hlinks, hnb, hsz, hdu, hab, hse⟩ : ∃ r : PacketQueue,
        (if q.links.recycle.isSome then { q with recycleCount := q.recycleCount + 1 }
          else { q with allocCount := q.allocCount + 1 }) = r ∧ r.links = q.links ∧
        r.nbPackets = q.nbPackets ∧ r.size = q.size ∧ r.duration = q.duration ∧
        r.abortRequest = q.abortRequest ∧ r.serial = q.serial :=
      ⟨_, rfl, by split <;> rfl, by split <;> rfl, by split <;> rfl, by split <;> rfl,
        by split <;> rfl, by split <;> rfl⟩
    have hnext : (if pkt.data = .flushPkt then r.serial + 1 else r.serial) = l.nextSerial pkt := by
      rw [hse, hserial]
      rfl
    simp only [hr, hnext, hlinks]
    by_cases hm : ys ≠ [] ∨ malloc = true
    · obtain ⟨links, a, hput, hholds⟩ :=
        Linked.put_holds hl ⟨pkt, l.nextSerial pkt⟩ malloc hm
      rw [hput, if_neg (by rw [hys]; rcases hm with hm | hm <;> simp [hm])]
      refine ⟨rfl, ⟨_, _, hholds, by simp [hxs], by simp [hys]⟩, ?_, ?_, ?_, ?_, rfl⟩
      · simp [hnb, hcount]
      · simp [PacketList.size, hsz, hsize]
      · simp [PacketList.duration, hdu, hduration]
      · exact (hab.trans habort).trans ha
    · rw [not_or, not_not, Bool.not_eq_true] at hm
      obtain ⟨rfl, rfl⟩ := hm
      have hput : q.links.put ⟨pkt, l.nextSerial pkt⟩ false = none := by
        have hrec : q.links.recycle = none := hl.spare
        rw [Linked.put, hrec]
        rfl
      rw [hput, if_pos (.inr ⟨hys, rfl⟩)]
      exact ⟨rfl, ⟨xs, [], hlinks ▸ hl, hxs, hys⟩, hnb.trans hcount, hsz.trans hsize,
        hdu.trans hduration, hab.trans habort, hse.trans hserial⟩

theorem flushPkts_refines (h : RefinesPkts z q l) : RefinesPkts z q.flush l.flush := by
  obtain ⟨⟨xs, ys, hl, hxs, hys⟩, -, -, -, habort, hserial⟩ := h
  refine ⟨⟨_, _, (Linked.flush_holds hl id).2, rfl, ?_⟩, rfl, rfl, rfl, habort, hserial⟩
  simp [PacketList.flush, hxs, hys]

theorem getPkt_refines (h : RefinesPkts z q l) :
    (q.get z).2 = l.get.2 ∧ RefinesPkts z (q.get z).1 l.get.1 := by
  obtain ⟨⟨xs, ys, hl, hxs, hys⟩, hcount, hsize, hduration, habort, hserial⟩ := h
  unfold PacketQueue.get PacketList.get
  cases ha : l.aborted with
  | true =>
    rw [if_pos (habort.trans ha), if_pos rfl]
    exact ⟨rfl, ⟨xs, ys, hl, hxs, hys⟩, hcount, hsize, hduration, habort, hserial⟩
  | false =>
    rw [if_neg (by rw [habort, ha]; decide), if_neg (by decide)]
    cases xs with
    | nil =>
      rw [Linked.get_none hl, hxs]
      exact ⟨rfl, ⟨[], ys, hl, hxs, hys⟩, hcount, hsize, hduration, habort, hserial⟩
    | cons x xs =>
      obtain ⟨a, p⟩ := x
      obtain ⟨links, hget, hholds⟩ := Linked.get_holds hl id
      rw [hget, hxs]
      refine ⟨rfl, ⟨_, _, hholds, rfl, by simp [hys]⟩, ?_, ?_, ?_, habort.trans ha, hserial⟩
      · rw [hxs] at hcount
        simp [hcount]
      · -- what was added in front is taken away again
        show q.size - (p.pkt.size + z) = _
        rw [hsize, PacketList.size, hxs, List.map_cons, List.map_cons, List.sum_cons,
          Int32.ofInt_add, Int32.ofInt_add, Int32.ofInt_toInt, Int32.ofInt_toInt, Int32.add_comm,
          Int32.add_sub_cancel]
        rfl
      · show q.duration - FFMAX p.pkt.duration MIN_PKT_DURATION = _
        rw [hduration, PacketList.duration, hxs, List.map_cons, List.map_cons, List.sum_cons,
          Int64.ofInt_add, Int64.ofInt_toInt, Int64.add_comm, Int64.add_sub_cancel]
        rfl

theorem pktCall_refines (h : RefinesPkts z q l) (c : PacketCall) :
    (q.call z c).2 = (l.call c).2 ∧ RefinesPkts z (q.call z c).1 (l.call c).1 := by
  cases c with
  | put pkt malloc =>
    obtain ⟨h1, h2⟩ := putPkt_refines h pkt malloc
    exact ⟨by simp only [PacketQueue.call, PacketList.call, h1], h2⟩
  | flush => exact ⟨rfl, flushPkts_refines h⟩
  | abort => exact ⟨rfl, h.nodes, h.count, h.size, h.duration, rfl, h.serial⟩
  | start malloc => exact ⟨rfl, (putPkt_refines h.running flushPkt malloc).2⟩
  | get => exact getPkt_refines h

end Refines

/-- What a row of calls answers, and the queue behind it. -/
def PacketQueue.calls (sizeofPkt1 : Int32) (q : PacketQueue) :
    List PacketCall → List PacketAnswer × PacketQueue
  | [] => ([], q)
  | c :: cs =>
    ((q.call sizeofPkt1 c).2 :: ((q.call sizeofPkt1 c).1.calls sizeofPkt1 cs).1,
      ((q.call sizeofPkt1 c).1.calls sizeofPkt1 cs).2)

/-- The same row of calls, on the list. -/
def PacketList.calls (l : PacketList) : List PacketCall → List PacketAnswer × PacketList
  | [] => ([], l)
  | c :: cs => ((l.call c).2 :: ((l.call c).1.calls cs).1, ((l.call c).1.calls cs).2)

theorem pktCalls_refine {z : Int32} {q : PacketQueue} {l : PacketList} (h : RefinesPkts z q l)
    (cs : List PacketCall) : (q.calls z cs).1 = (l.calls cs).1 ∧
      RefinesPkts z (q.calls z cs).2 (l.calls cs).2 := by
  induction cs generalizing q l with
  | nil => exact ⟨rfl, h⟩
  | cons c cs ih =>
    obtain ⟨h1, h2⟩ := pktCall_refines h c
    obtain ⟨h3, h4⟩ := ih h2
    exact ⟨by simp only [PacketQueue.calls, PacketList.calls, h1, h3], h4⟩

/-- **The queue is a list of packets**: from `packet_queue_init` on every row of calls, of whichever
    threads, answers what it would on the list, whether there is memory or not; and the counters
    that the reader goes by are the number of the packets in it, their bytes and nodes, and the
    time they last, none of them below `MIN_PKT_DURATION`. They wrap around on the way, so they are
    these sums up to a multiple of `2 ^ 32`, of `2 ^ 64` for the time; and a counter whose sum fits
    in its type is the sum, however far it has been out of it in between. -/
theorem packetList_refines (sizeofPkt1 : Int32) (cs : List PacketCall) :
    (PacketQueue.init.calls sizeofPkt1 cs).1 = (PacketList.init.calls cs).1 ∧
      let q := (PacketQueue.init.calls sizeofPkt1 cs).2
      let l := (PacketList.init.calls cs).2
      (q.nbPackets = .ofNat l.pkts.length ∧ q.size = .ofInt (l.size sizeofPkt1) ∧
        q.duration = .ofInt l.duration) ∧
      (l.pkts.length < 2 ^ 31 → q.nbPackets.toInt = l.pkts.length) ∧
      (-2 ^ 31 ≤ l.size sizeofPkt1 → l.size sizeofPkt1 < 2 ^ 31 →
        q.size.toInt = l.size sizeofPkt1) ∧
      (l.duration < 2 ^ 63 → q.duration.toInt = l.duration) := by
  obtain ⟨h1, h2⟩ := pktCalls_refine (init_refinesPkts sizeofPkt1) cs
  refine ⟨h1, ⟨h2.count, h2.size, h2.duration⟩, fun h => ?_, fun h h' => ?_, fun h => ?_⟩
  · rw [h2.count]
    exact Int32.toInt_ofNat_of_lt h
  · rw [h2.size]
    exact Int32.toInt_ofInt_of_le h h'
  · rw [h2.duration]
    have := PacketList.duration_nonneg (PacketList.init.calls cs).2
    exact Int64.toInt_ofInt_of_le (by omega) h

end Viral.Ijk
