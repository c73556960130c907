/-
  File:      ViralEngine/Player/MessageQueue.lean
  Subject:   THE MESSAGE QUEUE OF A PLAYER
             (ijk-player/ijkmedia/ijkplayer/ff_ffmsg_queue.h, built without FFP_MERGE).

  The threads of a player put messages into the queue, and the loop of the application takes them
  out. Every function holds the queue's mutex, so each is one call here; a call of `msg_queue_get`
  that would wait answers 0, as one that does not block. A message may carry an object, which
  belongs to the message until it is freed or handed on with it.

  * `AVMessage`, `MessageQueue` -- the queue, on the linked nodes of Lib/Linked.lean;
  * `Call`, `Answer`, `MessageQueue.call` -- its functions;
  * `Mailbox` -- two lists: what waits, and what is left in the nodes out of use;
  * `mailbox_refines` -- all calls answer alike, however many there are;
  * `Life`, `got_inOrder`, `objects_once` -- what is got, and what becomes of the objects;
  * `Mirrors`, `player_mirrors` -- the queue that Feed/IjkPlayer.lean gives a player.
-/
import Mathlib.Data.List.Perm.Subperm
import ViralEngine.Lib.Linked
import ViralEngine.Lib.Machine
import ViralEngine.Feed.IjkPlayer

namespace Viral.Ijk

open Viral.Lib

/-! ## 1. The queue -/

/-- The queue was started. -/
def FFP_MSG_FLUSH : Int := 0

/-- The player has failed. -/
def FFP_MSG_ERROR : Int := 100

/-- The player is ready to start. -/
def FFP_MSG_PREPARED : Int := 200

/-- The video was played to its end. -/
def FFP_MSG_COMPLETED : Int := 300

/-- Nothing is left to play for now. -/
def FFP_MSG_BUFFERING_START : Int := 500

/-- The state of the player is another one. -/
def FFP_MSG_PLAYBACK_STATE_CHANGED : Int := 700

/-- A request to the message thread itself: start. -/
def FFP_REQ_START : Int := 20001

/-- A request to the message thread itself: pause. -/
def FFP_REQ_PAUSE : Int := 20002

/-- A message; `obj` is the address of its object, which `free_l` gives back. -/
structure AVMessage where
  what : Int
  arg1 : Int
  arg2 : Int
  obj : Option Nat
  deriving DecidableEq, Repr

/-- `msg_init_msg` and a `what`. -/
def AVMessage.simple (what : Int) : AVMessage := ⟨what, 0, 0, none⟩

/-- A message without its object. -/
def AVMessage.bare (m : AVMessage) : AVMessage := { m with obj := none }

/-- `MessageQueue`, without the mutex; `links` has the nodes and the three pointers to them. -/
structure MessageQueue where
  links : Linked AVMessage
  nbMessages : Int
  abortRequest : Bool
  recycleCount : Nat
  allocCount : Nat
  deriving DecidableEq, Repr

/-- What a call answers: the value it returns, 0 where it is `void`, the message it fills in, and
    the objects it frees. -/
structure Answer where
  ret : Int
  msg : Option AVMessage
  freed : List Nat
  deriving DecidableEq, Repr

/-- The calls. `malloc`: there is memory for a node. -/
inductive Call where
  | put (msg : AVMessage) (malloc : Bool)
  | flush
  | abort
  | start (malloc : Bool)
  | get
  | remove (what : Int)
  deriving DecidableEq, Repr

namespace MessageQueue

/-- `msg_queue_init`. -/
def init : MessageQueue := ⟨.empty, 0, true, 0, 0⟩

/-- `msg_queue_put_private`. -/
def putPrivate (q : MessageQueue) (msg : AVMessage) (malloc : Bool) : MessageQueue × Int :=
  if q.abortRequest then (q, -1)
  else
    let q :=
      if q.links.recycle.isSome then { q with recycleCount := q.recycleCount + 1 }
      else { q with allocCount := q.allocCount + 1 }
    match q.links.put msg malloc with
    | none => (q, -1)
    | some links => ({ q with links := links, nbMessages := q.nbMessages + 1 }, 0)

/-- `msg_queue_flush`: the objects stay in the nodes. -/
def flush (q : MessageQueue) : MessageQueue :=
  { q with links := (q.links.flush id).1, nbMessages := 0 }

/-- `msg_queue_abort`. -/
def abort (q : MessageQueue) : MessageQueue := { q with abortRequest := true }

/-- `abort_request` is taken back. -/
def running (q : MessageQueue) : MessageQueue := { q with abortRequest := false }

/-- `msg_queue_start`. -/
def start (q : MessageQueue) (malloc : Bool) : MessageQueue :=
  (q.running.putPrivate (.simple FFP_MSG_FLUSH) malloc).1

/-- `msg_queue_get`: the object goes to the caller. -/
def get (q : MessageQueue) : MessageQueue × Answer :=
  if q.abortRequest then (q, ⟨-1, none, []⟩)
  else
    match q.links.get AVMessage.bare with
    | some (msg, links) =>
      ({ q with links := links, nbMessages := q.nbMessages - 1 }, ⟨1, some msg, []⟩)
    | none => (q, ⟨0, none, []⟩)

/-- `msg_queue_remove`. -/
def remove (q : MessageQueue) (what : Int) : MessageQueue × List Nat :=
  if q.abortRequest then (q, [])
  else
    let (links, removed) := q.links.remove (fun m => m.what == what) AVMessage.bare
    ({ q with links := links, nbMessages := q.nbMessages - removed.length },
      removed.filterMap AVMessage.obj)

/-- The objects `msg_queue_destroy` frees. -/
def destroy (q : MessageQueue) : List Nat := q.flush.links.drain.1.filterMap AVMessage.obj

/-- One call, and what it answers. -/
def call (q : MessageQueue) : Call → MessageQueue × Answer
  | .put msg malloc => ((q.putPrivate msg malloc).1, ⟨(q.putPrivate msg malloc).2, none, []⟩)
  | .flush => (q.flush, ⟨0, none, []⟩)
  | .abort => (q.abort, ⟨0, none, []⟩)
  | .start malloc => (q.start malloc, ⟨0, none, []⟩)
  | .get => q.get
  | .remove what => ((q.remove what).1, ⟨0, none, (q.remove what).2⟩)

end MessageQueue

/-! ## 2. Two lists -/

/-- What waits, in its order, and what is left in the nodes out of use, the next one to be used in
    front. -/
structure Mailbox where
  msgs : List AVMessage
  spare : List AVMessage
  aborted : Bool
  deriving DecidableEq, Repr

namespace Mailbox

/-- `msg_queue_init`: nothing is taken until it is started. -/
def init : Mailbox := ⟨[], [], true⟩

/-- `msg_queue_put_private`: a spare node is used where there is one. -/
def putPrivate (b : Mailbox) (msg : AVMessage) (malloc : Bool) : Mailbox × Int :=
  if b.aborted ∨ b.spare = [] ∧ malloc = false then (b, -1)
  else ({ b with msgs := b.msgs ++ [msg], spare := b.spare.tail }, 0)

/-- `msg_queue_flush`: every node becomes a spare one, with its message still in it. -/
def flush (b : Mailbox) : Mailbox := { b with msgs := [], spare := b.msgs.reverse ++ b.spare }

/-- `q->abort_request = 0`. -/
def running (b : Mailbox) : Mailbox := { b with aborted := false }

/-- `msg_queue_start`: the first message says so. -/
def start (b : Mailbox) (malloc : Bool) : Mailbox :=
  (b.running.putPrivate (.simple FFP_MSG_FLUSH) malloc).1

/-- `msg_queue_get` without a wait; a node taken out keeps no object. -/
def get (b : Mailbox) : Mailbox × Answer :=
  if b.aborted then (b, ⟨-1, none, []⟩)
  else
    match b.msgs with
    | m :: ms => ({ b with msgs := ms, spare := m.bare :: b.spare }, ⟨1, some m, []⟩)
    | [] => (b, ⟨0, none, []⟩)

/-- `msg_queue_remove`: all messages of a kind are taken out, and their objects given back. -/
def remove (b : Mailbox) (what : Int) : Mailbox × List Nat :=
  if b.aborted then (b, [])
  else
    let removed := b.msgs.filter fun m => m.what == what
    ({ b with
      msgs := b.msgs.filter fun m => !(m.what == what)
      spare := (removed.map AVMessage.bare).reverse ++ b.spare },
      removed.filterMap AVMessage.obj)

/-- `msg_queue_destroy`: the objects it gives back. -/
def destroy (b : Mailbox) : List Nat := (b.msgs.reverse ++ b.spare).filterMap AVMessage.obj

/-- The same calls on the two lists. -/
def call (b : Mailbox) : Call → Mailbox × Answer
  | .put msg malloc => ((b.putPrivate msg malloc).1, ⟨(b.putPrivate msg malloc).2, none, []⟩)
  | .flush => (b.flush, ⟨0, none, []⟩)
  | .abort => ({ b with aborted := true }, ⟨0, none, []⟩)
  | .start malloc => (b.start malloc, ⟨0, none, []⟩)
  | .get => b.get
  | .remove what => ((b.remove what).1, ⟨0, none, (b.remove what).2⟩)

end Mailbox

/-! ## 3. The queue is the two lists -/

/-- **The nodes hold the two lists**, and the counter is right. -/
structure Refines (q : MessageQueue) (b : Mailbox) : Prop where
  nodes : ∃ xs ys, q.links.Holds xs ys ∧ b.msgs = xs.map Prod.snd ∧ b.spare = ys.map Prod.snd
  count : q.nbMessages = b.msgs.length
  abort : q.abortRequest = b.aborted

theorem init_refines : Refines .init .init := ⟨⟨[], [], Linked.empty_holds, rfl, rfl⟩, rfl, rfl⟩

section Refines

variable {q : MessageQueue} {b : Mailbox}

theorem put_refines (h : Refines q b) (msg : AVMessage) (malloc : Bool) :
    (q.putPrivate msg malloc).2 = (b.putPrivate msg malloc).2 ∧
      Refines (q.putPrivate msg malloc).1 (b.putPrivate msg malloc).1 := by
  obtain ⟨⟨xs, ys, hl, hxs, hys⟩, hcount, habort⟩ := h
  unfold MessageQueue.putPrivate Mailbox.putPrivate
  cases ha : b.aborted with
  | true =>
    rw [if_pos (habort.trans ha), if_pos (.inl rfl)]
    exact ⟨rfl, ⟨xs, ys, hl, hxs, hys⟩, hcount, habort⟩
  | false =>
    rw [if_neg (by rw [habort, ha]; decide)]
    -- the counters apart, the queue is the same
    obtain ⟨r, hr, hlinks, hnb, hab⟩ : ∃ r : MessageQueue,
        (if q.links.recycle.isSome then { q with recycleCount := q.recycleCount + 1 }
          else { q with allocCount := q.allocCount + 1 }) = r ∧ r.links = q.links ∧
        r.nbMessages = q.nbMessages ∧ r.abortRequest = q.abortRequest :=
      ⟨_, rfl, by split <;> rfl, by split <;> rfl, by split <;> rfl⟩
    simp only [hr, hlinks]
    by_cases hm : ys ≠ [] ∨ malloc = true
    · obtain ⟨links, a, hput, hholds⟩ := Linked.put_holds hl msg malloc hm
      rw [hput, if_neg (by rw [hys]; rcases hm with hm | hm <;> simp [hm])]
      refine ⟨rfl, ⟨_, _, hholds, by simp [hxs], by simp [hys, List.map_tail]⟩, ?_, ?_⟩
      · simp [hnb, hcount]
      · exact (hab.trans habort).trans ha
    · rw [not_or, not_not, Bool.not_eq_true] at hm
      obtain ⟨rfl, rfl⟩ := hm
      have hput : q.links.put msg false = none := by
        have hrec : q.links.recycle = none := hl.spare
        rw [Linked.put, hrec]
        rfl
      rw [hput, if_pos (.inr ⟨hys, rfl⟩)]
      exact ⟨rfl, ⟨xs, [], hlinks ▸ hl, hxs, hys⟩, hnb.trans hcount, hab.trans habort⟩

theorem Refines.running (h : Refines q b) : Refines q.running b.running :=
  ⟨h.nodes, h.count, rfl⟩

theorem flush_refines (h : Refines q b) : Refines q.flush b.flush := by
  obtain ⟨⟨xs, ys, hl, hxs, hys⟩, -, habort⟩ := h
  refine ⟨⟨_, _, (Linked.flush_holds hl id).2, rfl, ?_⟩, rfl, habort⟩
  simp [Mailbox.flush, hxs, hys, List.map_reverse]

theorem get_refines (h : Refines q b) :
    q.get.2 = b.get.2 ∧ Refines q.get.1 b.get.1 := by
  obtain ⟨⟨xs, ys, hl, hxs, hys⟩, hcount, habort⟩ := h
  unfold MessageQueue.get Mailbox.get
  cases ha : b.aborted with
  | true =>
    rw [if_pos (habort.trans ha), if_pos rfl]
    exact ⟨rfl, ⟨xs, ys, hl, hxs, hys⟩, hcount, habort⟩
  | false =>
    rw [if_neg (by rw [habort, ha]; decide), if_neg (by decide)]
    cases xs with
    | nil =>
      rw [Linked.get_none hl, hxs]
      exact ⟨rfl, ⟨[], ys, hl, hxs, hys⟩, hcount, habort⟩
    | cons x xs =>
      obtain ⟨a, m⟩ := x
      obtain ⟨links, hget, hholds⟩ := Linked.get_holds hl AVMessage.bare
      rw [hget, hxs]
      refine ⟨rfl, ⟨_, _, hholds, rfl, by simp [hys]⟩, ?_, habort.trans ha⟩
      rw [hxs] at hcount
      simp [hcount]

theorem remove_refines (h : Refines q b) (what : Int) :
    (q.remove what).2 = (b.remove what).2 ∧ Refines (q.remove what).1 (b.remove what).1 := by
  obtain ⟨⟨xs, ys, hl, hxs, hys⟩, hcount, habort⟩ := h
  unfold MessageQueue.remove Mailbox.remove
  cases ha : b.aborted with
  | true =>
    rw [if_pos (habort.trans ha), if_pos rfl]
    exact ⟨rfl, ⟨xs, ys, hl, hxs, hys⟩, hcount, habort⟩
  | false =>
    rw [if_neg (by rw [habort, ha]; decide), if_neg (by decide)]
    obtain ⟨hremoved, hholds⟩ :=
      Linked.remove_holds hl (fun m => m.what == what) AVMessage.bare
    have hfilter : (q.links.remove (fun m => m.what == what) AVMessage.bare).2 =
        b.msgs.filter fun m => m.what == what := by
      rw [hremoved, hxs, List.filter_map]
      rfl
    refine ⟨by simp only [hfilter], ⟨_, _, hholds, ?_, ?_⟩, ?_, habort.trans ha⟩
    · simp [Linked.keep, hxs, List.filter_map, Function.comp_def]
    · simp [Linked.thrown, hxs, hys, List.filter_map, List.map_reverse, Function.comp_def]
    · have hsplit := List.length_eq_length_filter_add (l := b.msgs) fun m => m.what == what
      simp only [hfilter]
      omega

/-- **Every call** answers as the two lists do. -/
theorem call_refines (h : Refines q b) (c : Call) :
    (q.call c).2 = (b.call c).2 ∧ Refines (q.call c).1 (b.call c).1 := by
  cases c with
  | put msg malloc =>
    obtain ⟨h1, h2⟩ := put_refines h msg malloc
    exact ⟨by simp only [MessageQueue.call, Mailbox.call, h1], h2⟩
  | flush => exact ⟨rfl, flush_refines h⟩
  | abort => exact ⟨rfl, h.nodes, h.count, rfl⟩
  | start malloc =>
    exact ⟨rfl, (put_refines h.running (.simple FFP_MSG_FLUSH) malloc).2⟩
  | get => exact get_refines h
  | remove what =>
    obtain ⟨h1, h2⟩ := remove_refines h what
    exact ⟨by simp only [MessageQueue.call, Mailbox.call, h1], h2⟩

theorem destroy_refines (h : Refines q b) : q.destroy = b.destroy := by
  obtain ⟨⟨xs, ys, hl, hxs, hys⟩, -, -⟩ := h
  have hdrain := Linked.drain_holds (Linked.flush_holds hl id).2
  unfold MessageQueue.destroy MessageQueue.flush Mailbox.destroy
  rw [hdrain]
  simp [hxs, hys, List.map_reverse]

end Refines

/-- What a row of calls answers, and the queue behind it. -/
def MessageQueue.calls (q : MessageQueue) : List Call → List Answer × MessageQueue
  | [] => ([], q)
  | c :: cs => (((q.call c).2) :: ((q.call c).1.calls cs).1, ((q.call c).1.calls cs).2)

/-- Call upon call, with all answers. -/
def Mailbox.calls (b : Mailbox) : List Call → List Answer × Mailbox
  | [] => ([], b)
  | c :: cs => (((b.call c).2) :: ((b.call c).1.calls cs).1, ((b.call c).1.calls cs).2)

theorem calls_refine {q : MessageQueue} {b : Mailbox} (h : Refines q b) (cs : List Call) :
    (q.calls cs).1 = (b.calls cs).1 ∧ Refines (q.calls cs).2 (b.calls cs).2 := by
  induction cs generalizing q b with
  | nil => exact ⟨rfl, h⟩
  | cons c cs ih =>
    obtain ⟨h1, h2⟩ := call_refines h c
    obtain ⟨h3, h4⟩ := ih h2
    exact ⟨by simp only [MessageQueue.calls, Mailbox.calls, h1, h3], h4⟩

/-- **The queue is a list of messages**: from `msg_queue_init` on every row of calls, of whichever
    threads, answers and frees what it would on two lists, whether there is memory or not; the
    counter is the length of the first one, and at the end `msg_queue_destroy` frees the objects
    of both. -/
theorem mailbox_refines (cs : List Call) :
    (MessageQueue.init.calls cs).1 = (Mailbox.init.calls cs).1 ∧
      (MessageQueue.init.calls cs).2.nbMessages = (Mailbox.init.calls cs).2.msgs.length ∧
      (MessageQueue.init.calls cs).2.destroy = (Mailbox.init.calls cs).2.destroy := by
  obtain ⟨h1, h2⟩ := calls_refine init_refines cs
  exact ⟨h1, h2.count, destroy_refines h2⟩

/-! ## 4. In order -/

/-- The messages a call puts into the queue. -/
def MessageQueue.accepts (q : MessageQueue) : Call → List AVMessage
  | .put msg malloc => if (q.putPrivate msg malloc).2 = 0 then [msg] else []
  | .start malloc =>
    if (q.running.putPrivate (.simple FFP_MSG_FLUSH) malloc).2 = 0 then
      [.simple FFP_MSG_FLUSH]
    else []
  | _ => []

/-- The messages a row of calls puts in. -/
def MessageQueue.sent (q : MessageQueue) : List Call → List AVMessage
  | [] => []
  | c :: cs => q.accepts c ++ (q.call c).1.sent cs

/-- The calls that take messages out without handing them on. -/
def Call.Drops : Call → Prop
  | .flush | .remove _ => True
  | _ => False

section Order

variable {q : MessageQueue} {b : Mailbox}

/-- Where a message goes. -/
theorem Mailbox.put_cases (b : Mailbox) (msg : AVMessage) (malloc : Bool) :
    (b.putPrivate msg malloc = (b, -1)) ∨
      b.putPrivate msg malloc = ({ b with msgs := b.msgs ++ [msg], spare := b.spare.tail }, 0) ∧
        b.aborted = false := by
  unfold Mailbox.putPrivate
  split
  · exact .inl rfl
  · rename_i h
    rw [not_or, Bool.not_eq_true] at h
    exact .inr ⟨rfl, h.1⟩

/-- The messages a call puts in. -/
def Mailbox.accepts (b : Mailbox) : Call → List AVMessage
  | .put msg malloc => if (b.putPrivate msg malloc).2 = 0 then [msg] else []
  | .start malloc =>
    if (b.running.putPrivate (.simple FFP_MSG_FLUSH) malloc).2 = 0 then
      [.simple FFP_MSG_FLUSH]
    else []
  | _ => []

theorem accepts_refines (h : Refines q b) (c : Call) : q.accepts c = b.accepts c := by
  cases c with
  | put msg malloc => rw [MessageQueue.accepts, (put_refines h msg malloc).1]; rfl
  | start malloc =>
    rw [MessageQueue.accepts, (put_refines h.running (.simple FFP_MSG_FLUSH) malloc).1]
    rfl
  | flush | abort | get | remove what => rfl

/-- What one call hands on and leaves. -/
theorem call_order (h : Refines q b) (c : Call) :
    ((b.call c).2.msg.toList ++ (b.call c).1.msgs).Sublist (b.msgs ++ q.accepts c) ∧
      (¬ c.Drops → (b.call c).2.msg.toList ++ (b.call c).1.msgs = b.msgs ++ q.accepts c) := by
  have hput : ∀ (b' : Mailbox) (msg : AVMessage) (malloc : Bool),
      (b'.putPrivate msg malloc).1.msgs =
        b'.msgs ++ if (b'.putPrivate msg malloc).2 = 0 then [msg] else [] := by
    intro b' msg malloc
    rcases b'.put_cases msg malloc with heq | ⟨heq, -⟩ <;> rw [heq] <;> simp
  have hsame : ∀ l m : List AVMessage, l = m → l.Sublist m ∧ (¬ c.Drops → l = m) :=
    fun l m heq => ⟨heq ▸ List.Sublist.refl _, fun _ => heq⟩
  rw [accepts_refines h c]
  cases c with
  | put msg malloc => exact hsame _ _ (hput b msg malloc)
  | start malloc => exact hsame _ _ (hput b.running _ malloc)
  | abort => exact hsame _ _ (List.append_nil _).symm
  | get =>
    refine hsame _ _ ?_
    simp only [Mailbox.call, Mailbox.get, Mailbox.accepts]
    split
    · simp
    · split <;> rename_i hm <;> simp [hm]
  | flush =>
    refine ⟨?_, fun hd => absurd trivial hd⟩
    simp [Mailbox.call, Mailbox.flush]
  | remove what =>
    refine ⟨?_, fun hd => absurd trivial hd⟩
    simp only [Mailbox.call, Mailbox.remove]
    split <;> simp

theorem calls_order (h : Refines q b) (cs : List Call) :
    (((q.calls cs).1.filterMap Answer.msg) ++ (b.calls cs).2.msgs).Sublist
        (b.msgs ++ q.sent cs) ∧
      ((∀ c ∈ cs, ¬ c.Drops) →
        ((q.calls cs).1.filterMap Answer.msg) ++ (b.calls cs).2.msgs = b.msgs ++ q.sent cs) := by
  induction cs generalizing q b with
  | nil => simp [MessageQueue.calls, Mailbox.calls, MessageQueue.sent]
  | cons c cs ih =>
    obtain ⟨hans, hnext⟩ := call_refines h c
    obtain ⟨h1, h2⟩ := call_order h c
    obtain ⟨h3, h4⟩ := ih hnext
    have hgot : (q.calls (c :: cs)).1.filterMap Answer.msg =
        (b.call c).2.msg.toList ++ ((q.call c).1.calls cs).1.filterMap Answer.msg := by
      simp only [MessageQueue.calls, List.filterMap_cons, hans]
      cases (b.call c).2.msg <;> rfl
    constructor
    · have hrest := ((List.Sublist.refl (b.call c).2.msg.toList).append h3)
      rw [← List.append_assoc, ← List.append_assoc, ← hgot] at hrest
      refine hrest.trans ?_
      rw [MessageQueue.sent, ← List.append_assoc]
      exact h1.append (List.Sublist.refl _)
    · intro hd
      have hc := h2 (hd c List.mem_cons_self)
      have hcs := h4 fun d hmem => hd d (List.mem_cons_of_mem c hmem)
      rw [hgot, List.append_assoc]
      show (b.call c).2.msg.toList ++ (_ ++ ((b.call c).1.calls cs).2.msgs) = _
      rw [hcs, ← List.append_assoc, hc, MessageQueue.sent, List.append_assoc]

end Order

/-- **Messages are got in the order in which they were put**, none of them twice: what has been got
    and what still waits are some of the messages put, in their order, and all of them as long as
    nothing is flushed or removed. -/
theorem got_inOrder (cs : List Call) :
    ((MessageQueue.init.calls cs).1.filterMap Answer.msg ++
        (Mailbox.init.calls cs).2.msgs).Sublist (MessageQueue.init.sent cs) ∧
      ((∀ c ∈ cs, ¬ c.Drops) →
        (MessageQueue.init.calls cs).1.filterMap Answer.msg ++ (Mailbox.init.calls cs).2.msgs =
          MessageQueue.init.sent cs) :=
  calls_order init_refines cs

/-! ## 5. The objects -/

/-- The queue and whoever uses it: `made` counts the objects that `msg_queue_put_simple4` has
    allocated, which are numbered so; `refused` are those of messages that were not queued. -/
structure Life where
  queue : MessageQueue
  made : Nat
  handed : List Nat
  freed : List Nat
  refused : List Nat
  deriving DecidableEq, Repr

/-- The calls as they are made: `send` is `msg_queue_put_simple3`, or `msg_queue_put_simple4` with
    an object. -/
inductive LifeAct where
  | send (what arg1 arg2 : Int) (obj malloc : Bool)
  | flush
  | abort
  | start (malloc : Bool)
  | get
  | remove (what : Int)
  deriving DecidableEq, Repr

namespace LifeAct

/-- The object that is made. -/
def makes (made : Nat) : LifeAct → List Nat
  | .send _ _ _ true _ => [made]
  | _ => []

/-- The call this is, where `made` objects have been made. -/
def call (made : Nat) : LifeAct → Call
  | .send what arg1 arg2 obj malloc =>
    .put ⟨what, arg1, arg2, if obj then some made else none⟩ malloc
  | .flush => .flush
  | .abort => .abort
  | .start malloc => .start malloc
  | .get => .get
  | .remove what => .remove what

end LifeAct

/-- One call: what is handed out and what is given back is noted. -/
def Life.step (s : Life) (a : LifeAct) : Life where
  queue := (s.queue.call (a.call s.made)).1
  made := s.made + (a.makes s.made).length
  handed := s.handed ++ (s.queue.call (a.call s.made)).2.msg.toList.filterMap AVMessage.obj
  freed := s.freed ++ (s.queue.call (a.call s.made)).2.freed
  refused := s.refused ++
    if s.queue.accepts (a.call s.made) = [] then a.makes s.made else []

/-- **The life of a queue**, between `msg_queue_init` and `msg_queue_destroy`. -/
def life : Machine Life LifeAct := ⟨⟨.init, 0, [], [], []⟩, fun s a => some (s.step a)⟩

/-- The object left in the node that will be used next. -/
def MessageQueue.leftover (q : MessageQueue) : Option Nat :=
  (q.links.recycle.bind fun a => q.links.nodes[a]?).bind fun n => n.data.obj

/-- The call writes over an object that a flush has left in a node. -/
def MessageQueue.Overwrites (q : MessageQueue) (c : Call) : Prop :=
  q.accepts c ≠ [] ∧ q.leftover ≠ none

instance (q : MessageQueue) (c : Call) : Decidable (q.Overwrites c) :=
  inferInstanceAs (Decidable (_ ∧ _))

section Objects

variable {q : MessageQueue} {b : Mailbox}

/-- The same of two lists. -/
def Mailbox.leftover (b : Mailbox) : Option Nat := b.spare.head?.bind AVMessage.obj

theorem leftover_refines (h : Refines q b) : q.leftover = b.leftover := by
  obtain ⟨⟨xs, ys, hl, -, hys⟩, -, -⟩ := h
  unfold MessageQueue.leftover Mailbox.leftover
  cases ys with
  | nil =>
    have hr : q.links.recycle = none := hl.spare
    rw [hr, hys]
    rfl
  | cons y ys =>
    obtain ⟨hr, s, hnode, -⟩ := hl.spare
    rw [hr, hys, Option.bind_some, hnode]
    rfl

/-- The objects that a call writes over. -/
def Mailbox.loses (b : Mailbox) (c : Call) : List Nat :=
  if b.accepts c = [] then [] else b.leftover.toList

theorem put_objects (b : Mailbox) (msg : AVMessage) (malloc : Bool) :
    ((b.putPrivate msg malloc).1.destroy ++
        if (b.putPrivate msg malloc).2 = 0 then b.leftover.toList else []).Perm
      (b.destroy ++
        if (b.putPrivate msg malloc).2 = 0 then msg.obj.toList else []) := by
  rcases b.put_cases msg malloc with heq | ⟨heq, -⟩
  · rw [heq]
    exact .refl _
  · rw [heq]
    have hspare : (b.spare.filterMap AVMessage.obj) =
        b.leftover.toList ++ b.spare.tail.filterMap AVMessage.obj := by
      unfold Mailbox.leftover
      cases b.spare with
      | nil => rfl
      | cons m l => cases hm : m.obj <;> simp [hm]
    have hmsg : [msg].filterMap AVMessage.obj = msg.obj.toList := by
      cases hm : msg.obj <;> simp [hm]
    simp only [Mailbox.destroy, List.reverse_append, List.reverse_singleton,
      List.filterMap_append, hspare, hmsg, if_true]
    grind

theorem bare_objects (l : List AVMessage) :
    (l.map AVMessage.bare).filterMap AVMessage.obj = [] := by
  induction l with
  | nil => rfl
  | cons m l ih => simp [AVMessage.bare]

/-- **What becomes of the objects in one call**: none appears from nowhere and none is gone but by
    being handed on, freed or written over. -/
theorem call_objects (b : Mailbox) (c : Call) :
    ((b.call c).1.destroy ++ ((b.call c).2.msg.toList.filterMap AVMessage.obj ++
        (b.call c).2.freed ++ b.loses c)).Perm
      (b.destroy ++ (b.accepts c).filterMap AVMessage.obj) := by
  have hput : ∀ (b' : Mailbox) (msg : AVMessage) (malloc : Bool),
      b'.destroy = b.destroy → b'.leftover = b.leftover →
      ((b'.putPrivate msg malloc).1.destroy ++
        if (if (b'.putPrivate msg malloc).2 = 0 then [msg] else []) = [] then []
        else b.leftover.toList).Perm
      (b.destroy ++ (if (b'.putPrivate msg malloc).2 = 0 then [msg]
        else []).filterMap AVMessage.obj) := by
    intro b' msg malloc hd hl
    have h := put_objects b' msg malloc
    rw [hd, hl] at h
    have hmsg : [msg].filterMap AVMessage.obj = msg.obj.toList := by
      cases hm : msg.obj <;> simp [hm]
    split <;> rename_i hret
    · simpa [hret, hmsg] using h
    · simpa [hret] using h
  cases c with
  | put msg malloc =>
    simpa [Mailbox.call, Mailbox.loses, Mailbox.accepts] using hput b msg malloc rfl rfl
  | start malloc =>
    simpa [Mailbox.call, Mailbox.start, Mailbox.loses, Mailbox.accepts] using
      hput b.running (.simple FFP_MSG_FLUSH) malloc rfl rfl
  | flush => simp [Mailbox.call, Mailbox.loses, Mailbox.accepts, Mailbox.flush, Mailbox.destroy]
  | abort => simp [Mailbox.call, Mailbox.loses, Mailbox.accepts, Mailbox.destroy]
  | get =>
    simp only [Mailbox.call, Mailbox.get, Mailbox.loses, Mailbox.accepts, if_true,
      List.append_nil, List.filterMap_nil]
    split
    · simp
    · split <;> rename_i hm
      · rename_i m ms
        simp only [Mailbox.destroy, hm, List.reverse_cons, List.append_assoc,
          List.filterMap_append, AVMessage.bare, List.filterMap_cons_none, Option.toList_some,
          List.append_nil, List.cons_append, List.nil_append]
        cases hobj : m.obj with
        | none => simp [hobj]
        | some v =>
          simp only [List.filterMap_cons, hobj, List.filterMap_nil]
          exact List.Perm.append_left _ (List.perm_append_singleton _ _)
      · simp
  | remove what =>
    simp only [Mailbox.call, Mailbox.remove, Mailbox.loses, Mailbox.accepts, if_true,
      List.append_nil, List.filterMap_nil, Option.toList_none, List.nil_append]
    split
    · simp
    · have hperm := ((List.filter_append_perm (fun m : AVMessage => m.what == what)
        b.msgs).filterMap AVMessage.obj)
      simp only [Mailbox.destroy, List.filterMap_append, List.filterMap_reverse, bare_objects,
        List.reverse_nil, List.nil_append] at hperm ⊢
      refine List.Perm.trans ?_ (List.Perm.append_right _ (hperm.trans (List.reverse_perm _).symm))
      grind

/-! ### Over a whole life -/

/-- Where the objects are: in the nodes, with whoever got a message, freed, or refused. -/
def Life.placed (s : Life) : List Nat :=
  s.queue.destroy ++ (s.handed ++ s.freed ++ s.refused)

/-- Every object made is in one place, but for those in `lost`. -/
def Accounted (s : Life) (lost : List Nat) : Prop :=
  (s.placed ++ lost).Perm (List.range s.made)

theorem accounted_step {s : Life} {lost : List Nat} (h : Refines s.queue b)
    (hall : Accounted s lost) (a : LifeAct) :
    Accounted (s.step a) (lost ++ b.loses (a.call s.made)) := by
  obtain ⟨hans, hnext⟩ := call_refines h (a.call s.made)
  have hobj := call_objects b (a.call s.made)
  have hnew : (a.makes s.made).Perm ((b.accepts (a.call s.made)).filterMap AVMessage.obj ++
      if b.accepts (a.call s.made) = [] then a.makes s.made else []) := by
    cases a with
    | send what arg1 arg2 obj malloc =>
      have hmakes : LifeAct.makes s.made (.send what arg1 arg2 obj malloc) =
          ([⟨what, arg1, arg2, if obj then some s.made else none⟩] : List AVMessage).filterMap
            AVMessage.obj := by cases obj <;> rfl
      have hacc : b.accepts (LifeAct.call s.made (.send what arg1 arg2 obj malloc)) =
            [⟨what, arg1, arg2, if obj then some s.made else none⟩] ∨
          b.accepts (LifeAct.call s.made (.send what arg1 arg2 obj malloc)) = [] :=
        ite_eq_or_eq _ _ _
      rcases hacc with hacc | hacc <;> rw [hacc]
      · rw [← hmakes, if_neg (List.cons_ne_nil _ _), List.append_nil]
      · exact .refl _
    | start malloc =>
      have hacc : b.accepts (LifeAct.call s.made (.start malloc)) = [.simple FFP_MSG_FLUSH] ∨
          b.accepts (LifeAct.call s.made (.start malloc)) = [] := ite_eq_or_eq _ _ _
      rcases hacc with hacc | hacc <;> rw [hacc] <;> exact .refl _
    | flush | abort | get | remove what => simp [LifeAct.call, Mailbox.accepts, LifeAct.makes]
  have hmade : (List.range (s.step a).made).Perm (List.range s.made ++ a.makes s.made) := by
    cases a with
    | send what arg1 arg2 obj malloc =>
      cases obj with
      | true => exact .of_eq List.range_succ
      | false => exact .of_eq (List.append_nil _).symm
    | flush | abort | start malloc | get | remove what => exact .of_eq (List.append_nil _).symm
  refine List.Perm.trans ?_ ((hall.append hnew.symm).trans hmade.symm)
  simp only [Life.placed, Life.step, hans, destroy_refines hnext, destroy_refines h,
    accepts_refines h]
  generalize (b.call (a.call s.made)).1.destroy = d' at hobj ⊢
  generalize (b.call (a.call s.made)).2.msg.toList.filterMap AVMessage.obj = m at hobj ⊢
  generalize (b.call (a.call s.made)).2.freed = f at hobj ⊢
  generalize b.loses (a.call s.made) = l at hobj ⊢
  generalize (b.accepts (a.call s.made)).filterMap AVMessage.obj = n at hobj ⊢
  generalize (if b.accepts (a.call s.made) = [] then a.makes s.made else []) = r
  rw [List.perm_iff_count] at hobj ⊢
  intro x
  have hx := hobj x
  simp only [List.count_append] at hx ⊢
  omega

/-- What every run keeps. -/
def LifeOk (s : Life) : Prop := ∃ b lost, Refines s.queue b ∧ Accounted s lost

theorem accounted_length {s : Life} {lost : List Nat} (h : Accounted s lost) :
    Accounted s [] ↔ lost = [] := by
  refine ⟨fun h0 => ?_, fun h0 => h0 ▸ h⟩
  have h1 := h.length_eq
  have h2 := h0.length_eq
  rw [List.append_nil] at h2
  rw [List.length_append, ← h2] at h1
  exact List.length_eq_zero_iff.mp (by omega)

theorem loses_nil {s : Life} (h : Refines s.queue b) (a : LifeAct) :
    b.loses (a.call s.made) = [] ↔ ¬ s.queue.Overwrites (a.call s.made) := by
  unfold Mailbox.loses MessageQueue.Overwrites
  rw [accepts_refines h, leftover_refines h]
  cases b.leftover <;> by_cases hacc : b.accepts (a.call s.made) = [] <;> simp [hacc]

/-- Nothing but a flush leaves an object in a node. -/
theorem call_spare (hb : ∀ m ∈ b.spare, m.obj = none) {c : Call} (hc : c ≠ .flush) :
    ∀ m ∈ (b.call c).1.spare, m.obj = none := by
  have hput : ∀ (b' : Mailbox) (msg : AVMessage) (malloc : Bool),
      (∀ m ∈ b'.spare, m.obj = none) →
      ∀ m ∈ (b'.putPrivate msg malloc).1.spare, m.obj = none := by
    intro b' msg malloc hb' m hm
    rcases b'.put_cases msg malloc with heq | ⟨heq, -⟩ <;> rw [heq] at hm
    · exact hb' m hm
    · exact hb' m (List.mem_of_mem_tail hm)
  cases c with
  | put msg malloc => exact hput b msg malloc hb
  | start malloc => exact hput b.running _ malloc hb
  | abort => exact hb
  | flush => exact absurd rfl hc
  | get =>
    simp only [Mailbox.call, Mailbox.get]
    split
    · exact hb
    · split
      · intro m hm
        rcases List.mem_cons.mp hm with rfl | hm
        · rfl
        · exact hb m hm
      · exact hb
  | remove what =>
    simp only [Mailbox.call, Mailbox.remove]
    split
    · exact hb
    · intro m hm
      rcases List.mem_append.mp hm with hm | hm
      · obtain ⟨m', -, rfl⟩ := List.mem_map.mp (List.mem_reverse.mp hm)
        rfl
      · exact hb m hm

theorem noFlush_meets {acts : List LifeAct} (hacts : ∀ a ∈ acts, a ≠ .flush) {s : Life}
    (h : Refines s.queue b) (hb : ∀ m ∈ b.spare, m.obj = none) :
    life.meets (fun s a => ¬ s.queue.Overwrites (a.call s.made)) s acts := by
  induction acts generalizing s b with
  | nil => trivial
  | cons a acts ih =>
    have hflush : a.call s.made ≠ .flush := by
      have ha := hacts a List.mem_cons_self
      cases a with
      | flush => exact absurd rfl ha
      | send what arg1 arg2 obj malloc => nofun
      | abort | start malloc | get | remove what => nofun
    refine (Machine.meets_cons_iff (show life.step s a = some (s.step a) from rfl)).mpr
      ⟨fun hover => hover.2 ?_, ih (fun c hc => hacts c (List.mem_cons_of_mem a hc))
        (call_refines h (a.call s.made)).2 (call_spare hb hflush)⟩
    rw [leftover_refines h, Mailbox.leftover]
    cases hs : b.spare with
    | nil => rfl
    | cons m l => exact hb m (hs ▸ List.mem_cons_self)

/-- **Every object is freed or handed on, once.** In every run from `msg_queue_init` on, no object
    is in two places, so none is freed twice and none that was handed on is freed as well; and when
    the queue is destroyed, all that were made are with someone who got them, freed, or refused,
    exactly if no call has written over an object that a flush had left in a node. Without a flush,
    as a player makes none before the end, no call does. -/
theorem objects_once (acts : List LifeAct) (s : Life) (h : life.exec life.init acts = some s) :
    (s.queue.destroy ++ (s.handed ++ s.freed ++ s.refused)).Nodup ∧
      ((s.queue.destroy ++ (s.handed ++ s.freed ++ s.refused)).Perm (List.range s.made) ↔
        life.meets (fun s a => ¬ s.queue.Overwrites (a.call s.made)) life.init acts) ∧
      ((∀ a ∈ acts, a ≠ .flush) →
        life.meets (fun s a => ¬ s.queue.Overwrites (a.call s.made)) life.init acts) := by
  have hinit : Accounted life.init [] := .refl _
  have hok : LifeOk s := by
    refine (Machine.steps_of_exec h (Machine.meets_any _ _)).invariant
      ⟨.init, [], init_refines, hinit⟩ ?_
    rintro u a v ⟨b, lost, hr, hl⟩ - hs
    obtain rfl := Option.some.inj hs
    exact ⟨_, _, (call_refines hr _).2, accounted_step hr hl a⟩
  have hrun := Machine.exec_iff_meets (M := life)
    (C := fun s a => ¬ s.queue.Overwrites (a.call s.made)) (I := LifeOk)
    (Q := fun s => Accounted s [])
    (by
      rintro u a v ⟨b, lost, hr, hl⟩ hs
      obtain rfl := Option.some.inj hs
      exact ⟨_, _, (call_refines hr _).2, accounted_step hr hl a⟩)
    (by
      rintro u a v ⟨b, lost, hr, hl⟩ hs
      obtain rfl := Option.some.inj hs
      rw [accounted_length hl, accounted_length (accounted_step hr hl a), List.append_eq_nil_iff,
        loses_nil hr])
    ⟨.init, [], init_refines, hinit⟩ h
  obtain ⟨b, lost, -, hl⟩ := hok
  refine ⟨?_, ?_, fun hacts => noFlush_meets hacts init_refines (by simp [Mailbox.init])⟩
  · have hnodup : (s.placed ++ lost).Nodup := hl.nodup_iff.mpr List.nodup_range
    exact hnodup.of_append_left
  · have hplaced : Accounted s [] ↔ s.placed.Perm (List.range s.made) := by
      unfold Accounted
      rw [List.append_nil]
    exact hplaced.symm.trans (hrun.trans (and_iff_right hinit))

end Objects

/-- Two timed texts: the first is got, the second is removed. -/
def timedTexts : List LifeAct :=
  [.start true, .send 800 0 0 true true, .get, .send 800 0 0 true true, .get, .remove 800]

theorem objects_once_timedTexts : ∃ s, life.exec life.init timedTexts = some s ∧
    s.handed = [0] ∧ s.freed = [1] ∧
    (s.queue.destroy ++ (s.handed ++ s.freed ++ s.refused)).Perm (List.range 2) := by
  have hrun : (life.exec life.init timedTexts).any (fun s =>
      s.handed = [0] ∧ s.freed = [1] ∧ s.made = 2) = true := by decide +kernel
  obtain ⟨s, hs, hobs⟩ := (Option.any_eq_true _ _).mp hrun
  obtain ⟨h1, h2, h3⟩ := of_decide_eq_true hobs
  have hall := objects_once timedTexts s hs
  exact ⟨s, hs, h1, h2, h3 ▸ hall.2.1.mpr (hall.2.2 (by decide))⟩

/-! ## 6. The queue of a player -/

/-- The messages that Feed/IjkPlayer.lean tells apart. -/
def Msg.ofWhat (what : Int) : Msg :=
  if what = FFP_MSG_FLUSH then .flush
  else if what = FFP_MSG_ERROR then .error
  else if what = FFP_MSG_PREPARED then .prepared
  else if what = FFP_MSG_COMPLETED then .completed
  else if what = FFP_MSG_BUFFERING_START then .bufferingStart
  else if what = FFP_MSG_PLAYBACK_STATE_CHANGED then .stateChanged
  else if what = FFP_REQ_START then .reqStart
  else if what = FFP_REQ_PAUSE then .reqPause
  else .other

/-- **The list that stands for the queue** in Feed/IjkPlayer.lean is the one the nodes hold. -/
def Mirrors (P : Player) (q : MessageQueue) : Prop :=
  ∃ b, Refines q b ∧ P.queue = b.msgs.map (fun m => Msg.ofWhat m.what) ∧ P.aborted = b.aborted

theorem ofWhat_isReq (what : Int) :
    (Msg.ofWhat what).isReq = (what == FFP_REQ_START || what == FFP_REQ_PAUSE) := by
  unfold Msg.ofWhat
  split_ifs <;> simp_all [Msg.isReq, FFP_REQ_START, FFP_REQ_PAUSE, FFP_MSG_FLUSH, FFP_MSG_ERROR,
    FFP_MSG_PREPARED, FFP_MSG_COMPLETED, FFP_MSG_BUFFERING_START, FFP_MSG_PLAYBACK_STATE_CHANGED]

/-- What Feed/IjkPlayer.lean does with the list of a player. -/
inductive PlayerCall where
  | put (msg : AVMessage)
  | removeReqs
  | shutdown
  | start
  | take
  deriving DecidableEq, Repr

/-- The call on the list, and the place a thread that takes a message comes to; `none`: it waits. -/
def Player.queueCall (P : Player) : PlayerCall → Player × Option LoopPc
  | .put msg => (P.put (.ofWhat msg.what), none)
  | .removeReqs => (P.removeReqs, none)
  | .shutdown => (P.shutdown, none)
  | .start => ({ P with aborted := false }.put .flush, none)
  | .take =>
    match P.take with
    | some (P', pc) => (P', some pc)
    | none => (P, none)

/-- The same on the nodes, while there is memory. -/
def MessageQueue.queueCall (q : MessageQueue) : PlayerCall → MessageQueue × Option LoopPc
  | .put msg => ((q.putPrivate msg true).1, none)
  | .removeReqs => (((q.remove FFP_REQ_START).1.remove FFP_REQ_PAUSE).1, none)
  | .shutdown => (q.abort, none)
  | .start => (q.start true, none)
  | .take =>
    (q.get.1,
      if q.get.2.ret < 0 then some .ended
      else q.get.2.msg.map fun m => .got (.ofWhat m.what))

theorem mirrors_put {P : Player} {q : MessageQueue} (h : Mirrors P q) (msg : AVMessage) :
    Mirrors (P.put (.ofWhat msg.what)) (q.putPrivate msg true).1 := by
  obtain ⟨b, hr, hqueue, habort⟩ := h
  refine ⟨_, (put_refines hr msg true).2, ?_⟩
  unfold Player.put Mailbox.putPrivate
  cases ha : b.aborted <;> simp [habort, ha, hqueue]

theorem mirrors_call {P : Player} {q : MessageQueue} (h : Mirrors P q) (c : PlayerCall) :
    (P.queueCall c).2 = (q.queueCall c).2 ∧ Mirrors (P.queueCall c).1 (q.queueCall c).1 := by
  have hmirrors := h
  obtain ⟨b, hr, hqueue, habort⟩ := h
  cases c with
  | put msg => exact ⟨rfl, mirrors_put hmirrors msg⟩
  | removeReqs =>
    refine ⟨rfl, _, (remove_refines (remove_refines hr FFP_REQ_START).2 FFP_REQ_PAUSE).2, ?_⟩
    simp only [Player.queueCall]
    unfold Player.removeReqs Mailbox.remove
    cases ha : b.aborted with
    | true => simp [habort, ha, hqueue]
    | false =>
      simp [habort, ha, hqueue, List.filter_map, List.filter_filter, Function.comp_def,
        ofWhat_isReq, Bool.and_comm]
  | shutdown => exact ⟨rfl, _, (call_refines hr .abort).2, hqueue, rfl⟩
  | start =>
    have hrunning : Mirrors { P with aborted := false } q.running :=
      ⟨_, hr.running, hqueue, rfl⟩
    exact ⟨rfl, mirrors_put hrunning (.simple FFP_MSG_FLUSH)⟩
  | take =>
    obtain ⟨hans, hnext⟩ := get_refines hr
    simp only [Player.queueCall, MessageQueue.queueCall]
    unfold Player.take
    rw [hans, habort, hqueue]
    unfold Mailbox.get at hnext ⊢
    cases ha : b.aborted with
    | true =>
      rw [ha] at hnext
      exact ⟨rfl, _, hnext, hqueue, habort⟩
    | false =>
      cases hm : b.msgs with
      | nil =>
        rw [ha, hm] at hnext
        exact ⟨rfl, _, hnext, hqueue, habort⟩
      | cons m ms =>
        rw [ha, hm] at hnext
        exact ⟨rfl, _, hnext, rfl, rfl⟩

/-- The calls of a player's queue, on the list of messages. -/
def Player.queueCalls (P : Player) : List PlayerCall → List (Option LoopPc) × Player
  | [] => ([], P)
  | c :: cs =>
    ((P.queueCall c).2 :: ((P.queueCall c).1.queueCalls cs).1, ((P.queueCall c).1.queueCalls cs).2)

/-- The same calls on the nodes. -/
def MessageQueue.queueCalls (q : MessageQueue) :
    List PlayerCall → List (Option LoopPc) × MessageQueue
  | [] => ([], q)
  | c :: cs =>
    ((q.queueCall c).2 :: ((q.queueCall c).1.queueCalls cs).1, ((q.queueCall c).1.queueCalls cs).2)

theorem mirrors_calls {P : Player} {q : MessageQueue} (h : Mirrors P q) (cs : List PlayerCall) :
    (P.queueCalls cs).1 = (q.queueCalls cs).1 ∧
      Mirrors (P.queueCalls cs).2 (q.queueCalls cs).2 := by
  induction cs generalizing P q with
  | nil => exact ⟨rfl, h⟩
  | cons c cs ih =>
    obtain ⟨h1, h2⟩ := mirrors_call h c
    obtain ⟨h3, h4⟩ := ih h2
    exact ⟨by simp only [Player.queueCalls, MessageQueue.queueCalls, h1, h3], h4⟩

/-- **The list of a player is its queue**: from `ijkmp_create` on, whatever messages are put,
    removed and taken, a thread that takes one comes to the same place, or waits, whether it works
    on the list of Feed/IjkPlayer.lean or on the nodes. -/
theorem player_mirrors (slot : Feed.Slot) (cs : List PlayerCall) :
    ((Player.create slot).queueCalls cs).1 = (MessageQueue.init.queueCalls cs).1 ∧
      Mirrors ((Player.create slot).queueCalls cs).2 (MessageQueue.init.queueCalls cs).2 :=
  mirrors_calls ⟨.init, init_refines, rfl, rfl⟩ cs

end Viral.Ijk
