/-
  File:      ViralEngine/Lib/Linked.lean
  Subject:   A QUEUE OF LINKED NODES THAT KEEPS ITS NODES. No program fact.

  The nodes lie in a memory and are named by their addresses. A queue runs from `first` to `last`;
  a node that leaves it goes in front of a second list, `recycle`, from which the next node to be
  queued is taken before memory is asked for one.

  * `Node`, `Linked` -- the memory and the three pointers into it;
  * `put`, `get`, `flush`, `remove`, `drain` -- the operations, pointer by pointer; what becomes of
    the data of a node that leaves the queue is a parameter, and the data there was is answered;
  * `Seg` -- the nodes between two pointers, `Holds` -- both lists, and that they share no node and
    leave none out;
  * `put_holds`, `get_holds`, `flush_holds`, `remove_holds`, `drain_holds` -- the same operations on
    two lists.
-/
import Mathlib.Data.List.Basic
import Mathlib.Data.List.Perm.Basic
import Mathlib.Data.List.Nodup

namespace Viral.Lib

/-! ## 1. The nodes -/

/-- A node, and the address of the next one. -/
structure Node (α : Type) where
  data : α
  next : Option Nat
  deriving DecidableEq, Repr

/-- The memory, an address being a place in it, and the pointers. -/
structure Linked (α : Type) where
  nodes : List (Node α)
  first : Option Nat
  last : Option Nat
  recycle : Option Nat
  deriving DecidableEq, Repr

namespace Linked

variable {α : Type}

/-- No node, and all pointers null. -/
def empty : Linked α := ⟨[], none, none, none⟩

/-- The pointer a node holds. -/
def next (q : Linked α) (a : Nat) : Option Nat := q.nodes[a]?.bind Node.next

/-- `node->next = p`. -/
def setNext (q : Linked α) (a : Nat) (p : Option Nat) : Linked α :=
  { q with nodes := q.nodes.modify a fun n => { n with next := p } }

@[simp] theorem setNext_nodes (q : Linked α) (a : Nat) (p : Option Nat) :
    (q.setNext a p).nodes = q.nodes.modify a fun n => { n with next := p } := rfl

/-- A node behind the last one. -/
def link (q : Linked α) (a : Nat) : Linked α :=
  match q.last with
  | none => { q with first := some a, last := some a }
  | some l => { q.setNext l (some a) with last := some a }

/-- Queue `d`, in a node that is out of use or else a new one. `none`: there is no memory. -/
def put (q : Linked α) (d : α) (malloc : Bool) : Option (Linked α) :=
  match q.recycle with
  | some a => some (link { q with recycle := q.next a, nodes := q.nodes.set a ⟨d, none⟩ } a)
  | none =>
    if malloc then some (link { q with nodes := q.nodes ++ [⟨d, none⟩] } q.nodes.length) else none

/-- A node goes out of use, with this data. -/
def discard (q : Linked α) (a : Nat) (d : α) : Linked α :=
  { q with nodes := q.nodes.set a ⟨d, q.recycle⟩, recycle := some a }

/-- The data of the first node, which is left with `f` of it. -/
def get (q : Linked α) (f : α → α) : Option (α × Linked α) :=
  (q.first.bind fun a => q.nodes[a]?.map fun n => (a, n)).map fun (a, n) =>
    (n.data, { q with
      first := n.next
      last := if n.next = none then none else q.last }.discard a (f n.data))

/-- The loop of `flush`, for at most so many nodes, and the data it finds in them. -/
def flushLoop (f : α → α) : Nat → Option Nat → Linked α → Linked α × List α
  | n + 1, some a, q =>
    match q.nodes[a]? with
    | some node =>
      let (q, ds) := flushLoop f n node.next (q.discard a (f node.data))
      (q, node.data :: ds)
    | none => (q, [])
  | _, _, q => (q, [])

/-- Every node goes out of use. -/
def flush (q : Linked α) (f : α → α) : Linked α × List α :=
  let (q, ds) := flushLoop f q.nodes.length q.first q
  ({ q with first := none, last := none }, ds)

/-- The pointer at a place: `first`, or the `next` of a node. -/
def deref (q : Linked α) : Option Nat → Option Nat
  | none => q.first
  | some a => q.next a

/-- A store through the pointer of a node, or through the one to the first where there is none. -/
def store (q : Linked α) : Option Nat → Option Nat → Linked α
  | none, p => { q with first := p }
  | some a, p => q.setNext a p

/-- The loop of `remove`: the place it has come to, and the last node that stays. -/
def removeLoop (p : α → Bool) (f : α → α) :
    Nat → Option Nat → Option Nat → Linked α → Linked α × Option Nat × List α
  | 0, _, last, q => (q, last, [])
  | n + 1, place, last, q =>
    match (q.deref place).bind fun a => q.nodes[a]?.map fun node => (a, node) with
    | none => (q, last, [])
    | some (a, node) =>
      if p node.data then
        let (q, last, ds) :=
          removeLoop p f n place last ((q.store place node.next).discard a (f node.data))
        (q, last, node.data :: ds)
      else removeLoop p f n (some a) (some a) q

/-- The nodes with `p` go out of use. -/
def remove (q : Linked α) (p : α → Bool) (f : α → α) : Linked α × List α :=
  if q.first = none then (q, [])
  else
    let (q, last, ds) := removeLoop p f q.nodes.length none q.first q
    ({ q with last := if q.first = none then none else last }, ds)

/-- What is left in the nodes out of use, which are given back. -/
def drainLoop : Nat → Linked α → List α × Linked α
  | 0, q => ([], q)
  | n + 1, q =>
    match q.recycle.bind fun a => q.nodes[a]? with
    | none => ([], q)
    | some node =>
      let (ds, q) := drainLoop n { q with recycle := node.next }
      (node.data :: ds, q)

/-- All the nodes out of use are given back, with what is left in them. -/
def drain (q : Linked α) : List α × Linked α := drainLoop q.nodes.length q

/-! ## 2. Segments -/

/-- **The nodes from `p` up to `r`**, each with its address. -/
def Seg (nodes : List (Node α)) : Option Nat → List (Nat × α) → Option Nat → Prop
  | p, [], r => p = r
  | p, (a, d) :: l, r => p = some a ∧ ∃ s, nodes[a]? = some ⟨d, s⟩ ∧ Seg nodes s l r

variable {nodes nodes' : List (Node α)} {p r : Option Nat} {l m : List (Nat × α)}

theorem seg_append : Seg nodes p (l ++ m) r ↔ ∃ s, Seg nodes p l s ∧ Seg nodes s m r := by
  induction l generalizing p with
  | nil => simp [Seg]
  | cons x l ih =>
    obtain ⟨a, d⟩ := x
    simp only [List.cons_append, Seg, ih]
    constructor
    · rintro ⟨hp, s, hs, u, h1, h2⟩
      exact ⟨u, ⟨hp, s, hs, h1⟩, h2⟩
    · rintro ⟨u, ⟨hp, s, hs, h1⟩, h2⟩
      exact ⟨hp, s, hs, u, h1, h2⟩

/-- **Frame**: a segment asks for its own nodes only. -/
theorem seg_frame (h : Seg nodes p l r) (hsame : ∀ x ∈ l, nodes'[x.1]? = nodes[x.1]?) :
    Seg nodes' p l r := by
  induction l generalizing p with
  | nil => exact h
  | cons x l ih =>
    obtain ⟨a, d⟩ := x
    obtain ⟨hp, s, hs, hrest⟩ := h
    refine ⟨hp, s, ?_, ih hrest fun y hy => hsame y (List.mem_cons_of_mem _ hy)⟩
    rw [hsame _ List.mem_cons_self]
    exact hs

theorem seg_lt (h : Seg nodes p l r) : ∀ x ∈ l, x.1 < nodes.length := by
  induction l generalizing p with
  | nil => simp
  | cons x l ih =>
    obtain ⟨a, d⟩ := x
    obtain ⟨-, s, hs, hrest⟩ := h
    intro y hy
    rcases List.mem_cons.mp hy with rfl | hy
    · exact (List.getElem?_eq_some_iff.mp hs).1
    · exact ih hrest y hy

/-- A node elsewhere. -/
theorem seg_set (h : Seg nodes p l r) {a : Nat} (ha : a ∉ l.map Prod.fst) (n : Node α) :
    Seg (nodes.set a n) p l r := by
  refine seg_frame h fun x hx => List.getElem?_set_ne fun heq : a = x.1 => ha ?_
  exact heq ▸ List.mem_map_of_mem hx

theorem seg_push (h : Seg nodes p l r) (n : Node α) : Seg (nodes ++ [n]) p l r :=
  seg_frame h fun x hx => List.getElem?_append_left (seg_lt h x hx)

/-- The pointer of the last node, which leads out of the segment. -/
theorem seg_modify {a : Nat} {d : α} (h : Seg nodes p (l ++ [(a, d)]) r)
    (ha : a ∉ l.map Prod.fst) (s : Option Nat) :
    Seg (nodes.modify a fun n => { n with next := s }) p (l ++ [(a, d)]) s := by
  obtain ⟨u, h1, h2⟩ := seg_append.mp h
  obtain ⟨rfl, v, hv, -⟩ := h2
  refine seg_append.mpr ⟨some a, ?_, rfl, s, ?_, rfl⟩
  · refine seg_frame h1 fun x hx => ?_
    exact List.getElem?_modify_ne _ _ fun heq : a = x.1 => ha (heq ▸ List.mem_map_of_mem hx)
  · rw [List.getElem?_modify, hv]
    simp

/-! ## 3. The two lists -/

/-- **The queue holds `xs`, and out of use are `ys`.** -/
structure Holds (q : Linked α) (xs ys : List (Nat × α)) : Prop where
  queue : Seg q.nodes q.first xs none
  last : q.last = xs.getLast?.map Prod.fst
  spare : Seg q.nodes q.recycle ys none
  each : ((xs ++ ys).map Prod.fst).Perm (List.range q.nodes.length)

section Holds

variable {q : Linked α} {xs ys : List (Nat × α)}

theorem empty_holds : Holds (empty : Linked α) [] [] := ⟨rfl, rfl, rfl, .refl _⟩

theorem Holds.nodup (h : Holds q xs ys) : ((xs ++ ys).map Prod.fst).Nodup :=
  h.each.nodup_iff.mpr List.nodup_range

theorem Holds.length (h : Holds q xs ys) : xs.length + ys.length = q.nodes.length := by
  have hlen := h.each.length_eq
  simpa using hlen

/-- The addresses are what counts. -/
theorem Holds.of_perm {xs' ys' : List (Nat × α)} {q' : Linked α} (h : Holds q xs ys)
    (hlen : q'.nodes.length = q.nodes.length)
    (hperm : ((xs' ++ ys').map Prod.fst).Perm ((xs ++ ys).map Prod.fst))
    (hq : Seg q'.nodes q'.first xs' none) (hlast : q'.last = xs'.getLast?.map Prod.fst)
    (hs : Seg q'.nodes q'.recycle ys' none) : Holds q' xs' ys' :=
  ⟨hq, hlast, hs, hlen ▸ hperm.trans h.each⟩

theorem Holds.first_none (h : Holds q xs ys) : q.first = none ↔ xs = [] := by
  cases xs with
  | nil => exact iff_of_true h.queue rfl
  | cons x xs =>
    obtain ⟨hp, -⟩ := h.queue
    rw [hp]
    simp

/-- A node that is in neither list is linked behind the last one. -/
theorem link_holds {a : Nat} {d : α} (hq : Seg q.nodes q.first xs none)
    (hlast : q.last = xs.getLast?.map Prod.fst) (hs : Seg q.nodes q.recycle ys none)
    (hnode : q.nodes[a]? = some ⟨d, none⟩)
    (hperm : ((xs ++ [(a, d)] ++ ys).map Prod.fst).Perm (List.range q.nodes.length)) :
    Holds (q.link a) (xs ++ [(a, d)]) ys := by
  have hnodup : ((xs ++ [(a, d)] ++ ys).map Prod.fst).Nodup :=
    hperm.nodup_iff.mpr List.nodup_range
  unfold link
  rcases List.eq_nil_or_concat' xs with rfl | ⟨front, ⟨b, e⟩, rfl⟩
  · rw [hlast]
    exact ⟨⟨rfl, none, hnode, rfl⟩, rfl, hs, hperm⟩
  · have hb : q.last = some b := by simp [hlast]
    rw [hb]
    simp only [List.append_assoc, List.map_append, List.map_cons,
      List.nodup_append, List.cons_append, List.nil_append, List.nodup_cons] at hnodup
    obtain ⟨-, hrest, hdis⟩ := hnodup
    have hbfront : b ∉ front.map Prod.fst := fun hm => hdis b hm b List.mem_cons_self rfl
    have hba : b ≠ a := fun heq => hrest.1 (heq ▸ List.mem_cons_self)
    have hbys : b ∉ ys.map Prod.fst := fun hm => hrest.1 (List.mem_cons_of_mem _ hm)
    refine ⟨?_, by simp, ?_, by simpa [setNext] using hperm⟩
    · refine seg_append.mpr ⟨some a, seg_modify hq hbfront (some a), rfl, none, ?_, rfl⟩
      rw [setNext_nodes, List.getElem?_modify_ne _ _ hba, hnode]
    · refine seg_frame hs fun x hx => ?_
      exact List.getElem?_modify_ne _ _ fun heq : b = x.1 => hbys (heq ▸ List.mem_map_of_mem hx)

/-- **Queueing**: in the first node out of use, or in a new one. -/
theorem put_holds (h : Holds q xs ys) (d : α) (malloc : Bool) (hm : ys ≠ [] ∨ malloc = true) :
    ∃ q' a, q.put d malloc = some q' ∧ Holds q' (xs ++ [(a, d)]) ys.tail := by
  have hnodup := h.nodup
  cases ys with
  | nil =>
    have hr : q.recycle = none := h.spare
    obtain rfl : malloc = true := hm.resolve_left (by simp)
    refine ⟨_, q.nodes.length, by rw [put, hr]; rfl, ?_⟩
    refine link_holds (seg_push h.queue _) h.last rfl ?_ ?_
    · simp
    · have heach := h.each
      simp only [List.append_nil] at heach
      simp only [List.append_nil, List.map_append, List.map_cons, List.map_nil,
        List.length_append, List.length_singleton, List.range_succ, List.tail_nil]
      exact heach.append_right _
  | cons y ys =>
    obtain ⟨a, e⟩ := y
    obtain ⟨hr, s, hnode, hrest⟩ := h.spare
    refine ⟨_, a, by rw [put, hr], ?_⟩
    have hlt : a < q.nodes.length := (List.getElem?_eq_some_iff.mp hnode).1
    have hnext : q.next a = s := by rw [next, hnode]; rfl
    rw [List.map_append, List.map_cons, List.nodup_append] at hnodup
    obtain ⟨-, hcons, hdis⟩ := hnodup
    have hxs : a ∉ xs.map Prod.fst := fun hmem => hdis a hmem a List.mem_cons_self rfl
    have hys : a ∉ ys.map Prod.fst := (List.nodup_cons.mp hcons).1
    refine link_holds (seg_set h.queue hxs _) h.last ?_ ?_ ?_
    · rw [hnext]
      exact seg_set hrest hys _
    · simp [hlt]
    · have heach := h.each
      simpa using heach

/-- Out of use: a node in front of the second list. -/
theorem discard_spare {a : Nat} (hs : Seg q.nodes q.recycle ys none) (ha : a < q.nodes.length)
    (hys : a ∉ ys.map Prod.fst) (d : α) :
    Seg (q.discard a d).nodes (q.discard a d).recycle ((a, d) :: ys) none := by
  refine ⟨rfl, q.recycle, ?_, seg_set hs hys _⟩
  simp [discard, ha]

/-- **Taking the first one**: its node goes out of use. -/
theorem get_holds {a : Nat} {d : α} (h : Holds q ((a, d) :: xs) ys) (f : α → α) :
    ∃ q', q.get f = some (d, q') ∧ Holds q' xs ((a, f d) :: ys) := by
  have hnodup := h.nodup
  rw [List.cons_append, List.map_cons, List.nodup_cons, List.map_append, List.mem_append,
    not_or] at hnodup
  obtain ⟨hp, s, hnode, hrest⟩ := h.queue
  have hlt : a < q.nodes.length := (List.getElem?_eq_some_iff.mp hnode).1
  refine ⟨_, by rw [get, hp, Option.bind_some, hnode]; rfl, ?_⟩
  refine h.of_perm (by simp [discard]) ?_ (seg_set hrest hnodup.1.1 _) ?_
    (discard_spare h.spare hlt hnodup.1.2 _)
  · simp only [List.map_append, List.map_cons, List.cons_append]
    exact List.perm_middle
  · show (if s = none then none else q.last) = _
    cases xs with
    | nil => exact if_pos hrest
    | cons x xs =>
      rw [if_neg (by rw [hrest.1]; simp), h.last]
      rfl

theorem get_none (h : Holds q [] ys) (f : α → α) : q.get f = none := by
  have hp : q.first = none := h.queue
  rw [get, hp]
  rfl

/-- What the loop of `flush` has still before it is `xs`. -/
theorem flushLoop_holds {n : Nat} {p : Option Nat} (f : α → α) (hlen : xs.length ≤ n)
    (hq : Seg q.nodes p xs none) (hs : Seg q.nodes q.recycle ys none)
    (hperm : ((xs ++ ys).map Prod.fst).Perm (List.range q.nodes.length)) :
    ∃ q', flushLoop f n p q = (q', xs.map Prod.snd) ∧ q'.nodes.length = q.nodes.length ∧
      Seg q'.nodes q'.recycle ((xs.map fun x => (x.1, f x.2)).reverse ++ ys) none := by
  induction xs generalizing n p q ys with
  | nil =>
    obtain rfl : p = none := hq
    exact ⟨q, by cases n <;> rfl, rfl, hs⟩
  | cons x xs ih =>
    obtain ⟨a, d⟩ := x
    obtain ⟨rfl, s, hnode, hrest⟩ := hq
    have hlt : a < q.nodes.length := (List.getElem?_eq_some_iff.mp hnode).1
    have hnodup := hperm.nodup_iff.mpr List.nodup_range
    rw [List.cons_append, List.map_cons, List.nodup_cons, List.map_append, List.mem_append,
      not_or] at hnodup
    cases n with
    | zero => cases hlen
    | succ n =>
      have hqueue : Seg (q.discard a (f d)).nodes s xs none := seg_set hrest hnodup.1.1 _
      have hspare : Seg (q.discard a (f d)).nodes (q.discard a (f d)).recycle
          ((a, f d) :: ys) none := discard_spare hs hlt hnodup.1.2 _
      have heach : ((xs ++ (a, f d) :: ys).map Prod.fst).Perm
          (List.range (q.discard a (f d)).nodes.length) := by
        simp only [List.map_append, List.map_cons, List.cons_append] at hperm ⊢
        exact List.perm_middle.trans (by simpa [discard] using hperm)
      obtain ⟨q', h1, h2, h3⟩ := ih (Nat.le_of_succ_le_succ hlen) hqueue hspare heach
      refine ⟨q', ?_, by simpa [discard] using h2, by simpa using h3⟩
      rw [flushLoop, hnode]
      simp only [h1]
      rfl

/-- **Everything goes out of use**, the last one in front. -/
theorem flush_holds (h : Holds q xs ys) (f : α → α) : (q.flush f).2 = xs.map Prod.snd ∧
    Holds (q.flush f).1 [] ((xs.map fun x => (x.1, f x.2)).reverse ++ ys) := by
  have hlen : xs.length ≤ q.nodes.length := by
    have := h.length
    omega
  obtain ⟨q', h1, h2, h3⟩ := flushLoop_holds f hlen h.queue h.spare h.each
  unfold flush
  rw [h1]
  refine ⟨rfl, h.of_perm h2 ?_ rfl rfl h3⟩
  simp only [List.nil_append, List.map_append, List.map_reverse, List.map_map]
  exact (List.reverse_perm _).append_right _

end Holds

/-! ## 4. Removing -/

section Remove

variable {q : Linked α} {xs ys : List (Nat × α)} {kept left : List (Nat × α)}

/-- Where the loop of `remove` stands: behind the last of the nodes it has kept. -/
def Place (place : Option Nat) (kept : List (Nat × α)) : Prop :=
  place = kept.getLast?.map Prod.fst

theorem deref_place {place : Option Nat} (hp : Place place kept)
    (hq : Seg q.nodes q.first (kept ++ left) none) : Seg q.nodes (q.deref place) left none := by
  obtain ⟨s, h1, h2⟩ := seg_append.mp hq
  rcases List.eq_nil_or_concat' kept with rfl | ⟨front, ⟨b, e⟩, rfl⟩
  · obtain rfl : place = none := hp
    obtain rfl : q.first = s := h1
    exact h2
  · obtain rfl : place = some b := by simpa [Place] using hp
    obtain ⟨u, -, -, v, hv, rfl⟩ := seg_append.mp h1
    show Seg q.nodes (q.next b) left none
    rw [next, hv]
    exact h2

/-- The pointer at the place is led past a node. -/
theorem store_place {place s : Option Nat} {a : Nat} {d : α} (hp : Place place kept)
    (hq : Seg q.nodes q.first (kept ++ (a, d) :: left) none)
    (hs : q.nodes[a]? = some ⟨d, s⟩) (hnodup : (kept ++ (a, d) :: left).map Prod.fst |>.Nodup) :
    Seg (q.store place s).nodes (q.store place s).first (kept ++ left) none := by
  obtain ⟨u, h1, rfl, s', hnode, h2⟩ := seg_append.mp hq
  obtain rfl : s' = s := by
    rw [hs] at hnode
    exact (Node.mk.inj (Option.some.inj hnode)).2.symm
  rcases List.eq_nil_or_concat' kept with rfl | ⟨front, ⟨b, e⟩, rfl⟩
  · obtain rfl : place = none := hp
    exact h2
  · obtain rfl : place = some b := by simpa [Place] using hp
    simp only [List.append_assoc, List.map_append, List.map_cons, List.nodup_append,
      List.cons_append, List.nil_append, List.nodup_cons] at hnodup
    obtain ⟨-, ⟨hb, -⟩, hdis⟩ := hnodup
    have hfront : b ∉ front.map Prod.fst := fun hm => hdis b hm b List.mem_cons_self rfl
    have hleft : b ∉ left.map Prod.fst := fun hm => hb (List.mem_cons_of_mem _ hm)
    refine seg_append.mpr ⟨s', seg_modify h1 hfront s', seg_frame h2 fun x hx => ?_⟩
    exact List.getElem?_modify_ne _ _ fun heq : b = x.1 =>
      hleft (heq ▸ List.mem_map_of_mem hx)

@[simp] theorem store_recycle (q : Linked α) (place s : Option Nat) :
    (q.store place s).recycle = q.recycle := by cases place <;> rfl

@[simp] theorem store_length (q : Linked α) (place s : Option Nat) :
    (q.store place s).nodes.length = q.nodes.length := by
  cases place <;> simp [store]

/-- Other nodes than those kept stay as they are. -/
theorem store_frame {place s p r : Option Nat} {m : List (Nat × α)} (hp : Place place kept)
    (hdis : ∀ x ∈ m, x.1 ∉ kept.map Prod.fst) (h : Seg q.nodes p m r) :
    Seg (q.store place s).nodes p m r := by
  cases place with
  | none => exact h
  | some b =>
    refine seg_frame h fun x hx => List.getElem?_modify_ne _ _ fun heq : b = x.1 => ?_
    obtain ⟨y, hy, rfl⟩ := Option.map_eq_some_iff.mp hp.symm
    exact hdis x hx (heq ▸ List.mem_map_of_mem (List.mem_of_getLast? hy))

/-- The nodes with `p` are left out. -/
def keep (p : α → Bool) (xs : List (Nat × α)) : List (Nat × α) := xs.filter fun x => !p x.2

/-- The nodes with `p`, as they go out of use. -/
def thrown (p : α → Bool) (f : α → α) (xs : List (Nat × α)) : List (Nat × α) :=
  ((xs.filter fun x => p x.2).map fun x => (x.1, f x.2)).reverse

/-- **The loop of `remove`**: `kept` is behind it, `left` before it. -/
theorem removeLoop_holds {n : Nat} {place last : Option Nat} (p : α → Bool) (f : α → α)
    (hlen : left.length ≤ n) (hp : Place place kept)
    (hlast : kept ≠ [] → last = kept.getLast?.map Prod.fst)
    (hq : Seg q.nodes q.first (kept ++ left) none) (hs : Seg q.nodes q.recycle ys none)
    (hnodup : ((kept ++ left ++ ys).map Prod.fst).Nodup) :
    ∃ q' last', removeLoop p f n place last q =
        (q', last', (left.filter fun x => p x.2).map Prod.snd) ∧
      q'.nodes.length = q.nodes.length ∧
      Seg q'.nodes q'.first (kept ++ keep p left) none ∧
      (kept ++ keep p left ≠ [] → last' = (kept ++ keep p left).getLast?.map Prod.fst) ∧
      Seg q'.nodes q'.recycle (thrown p f left ++ ys) none := by
  induction left generalizing n place last q ys kept with
  | nil =>
    have hnone : q.deref place = none := deref_place hp hq
    refine ⟨q, last, ?_, rfl, hq, by simpa [keep] using hlast, hs⟩
    cases n with
    | zero => rfl
    | succ n => rw [removeLoop, hnone]; rfl
  | cons x left ih =>
    obtain ⟨a, d⟩ := x
    obtain ⟨hderef, s, hnode, hrest⟩ := deref_place hp hq
    have hlt : a < q.nodes.length := (List.getElem?_eq_some_iff.mp hnode).1
    cases n with
    | zero => cases hlen
    | succ n =>
      have hle := Nat.le_of_succ_le_succ hlen
      rw [removeLoop, hderef, Option.bind_some, hnode]
      simp only [Option.map_some]
      cases hpd : p d with
      | false =>
        -- the node stays, and the place moves behind it
        have hplace : Place (some a) (kept ++ [(a, d)]) := by simp [Place]
        have hend : kept ++ [(a, d)] ≠ [] →
            some a = (kept ++ [(a, d)]).getLast?.map Prod.fst := by simp
        have hqueue : Seg q.nodes q.first (kept ++ [(a, d)] ++ left) none := by simpa using hq
        have hdis : ((kept ++ [(a, d)] ++ left ++ ys).map Prod.fst).Nodup := by
          simpa using hnodup
        obtain ⟨q', last', h1, h2, h3, h4, h5⟩ := ih hle hplace hend hqueue hs hdis
        refine ⟨q', last', by simp [hpd, h1], h2, ?_, ?_, ?_⟩
        · simpa [keep, hpd] using h3
        · simpa [keep, hpd] using h4
        · simpa [thrown, hpd] using h5
      | true =>
        have hpart := hnodup
        simp only [List.append_assoc, List.map_append, List.map_cons, List.nodup_append,
          List.cons_append, List.nodup_cons] at hpart
        obtain ⟨-, ⟨ha, -, -, hleftys⟩, hdis⟩ := hpart
        have hkept : a ∉ (kept ++ left).map Prod.fst := by
          rw [List.map_append, List.mem_append, not_or]
          exact ⟨fun hm => hdis a hm a List.mem_cons_self rfl,
            fun hm => ha (List.mem_append_left _ hm)⟩
        have hys : a ∉ ys.map Prod.fst := fun hm => ha (List.mem_append_right _ hm)
        have hother : ∀ x ∈ ys, x.1 ∉ kept.map Prod.fst := fun x hx hm =>
          hdis x.1 hm x.1 (List.mem_cons_of_mem _ (List.mem_append_right _
            (List.mem_map_of_mem hx))) rfl
        have hstored := store_place hp hq hnode (by
          rw [List.map_append] at hnodup
          exact hnodup.of_append_left)
        have hspare : Seg (q.store place s).nodes (q.store place s).recycle ys none := by
          rw [store_recycle]
          exact store_frame hp hother hs
        have hqueue : Seg ((q.store place s).discard a (f d)).nodes
            ((q.store place s).discard a (f d)).first (kept ++ left) none :=
          seg_set hstored hkept _
        have hthrown : Seg ((q.store place s).discard a (f d)).nodes
            ((q.store place s).discard a (f d)).recycle ((a, f d) :: ys) none :=
          discard_spare hspare (by simpa using hlt) hys _
        have hmoved : ((kept ++ left ++ (a, f d) :: ys).map Prod.fst).Nodup := by
          simp only [List.append_assoc, List.map_append, List.map_cons, List.cons_append]
            at hnodup ⊢
          refine (List.Perm.nodup_iff ?_).mpr hnodup
          exact (List.Perm.append_left _ List.perm_middle)
        obtain ⟨q', last', h1, h2, h3, h4, h5⟩ := ih hle hp hlast hqueue hthrown hmoved
        refine ⟨q', last', by simp [hpd, h1], by simpa [discard] using h2, ?_, ?_, ?_⟩
        · simpa [keep, hpd] using h3
        · simpa [keep, hpd] using h4
        · simpa [thrown, hpd] using h5

theorem keep_thrown_perm (p : α → Bool) (f : α → α) (xs ys : List (Nat × α)) :
    ((keep p xs ++ (thrown p f xs ++ ys)).map Prod.fst).Perm ((xs ++ ys).map Prod.fst) := by
  have hthrown : (thrown p f xs).map Prod.fst =
      ((xs.filter fun x => p x.2).map Prod.fst).reverse := by
    simp [thrown, List.map_reverse, Function.comp_def]
  rw [List.map_append, List.map_append, hthrown, List.map_append, ← List.append_assoc]
  refine List.Perm.append_right _ ?_
  refine ((List.reverse_perm _).append_left _).trans ?_
  rw [← List.map_append]
  refine List.Perm.map _ ?_
  refine List.perm_append_comm.trans ?_
  exact List.filter_append_perm (fun x => p x.2) xs

/-- **Removing**: the nodes without `p` stay in their order. -/
theorem remove_holds (h : Holds q xs ys) (p : α → Bool) (f : α → α) :
    (q.remove p f).2 = (xs.filter fun x => p x.2).map Prod.snd ∧
      Holds (q.remove p f).1 (keep p xs) (thrown p f xs ++ ys) := by
  unfold remove
  by_cases hnil : xs = []
  · subst hnil
    rw [if_pos (h.first_none.mpr rfl)]
    exact ⟨rfl, h⟩
  · rw [if_neg fun hf => hnil (h.first_none.mp hf)]
    have hlen : xs.length ≤ q.nodes.length := by
      have := h.length
      omega
    have hplace : Place none ([] : List (Nat × α)) := rfl
    have hqueue : Seg q.nodes q.first ([] ++ xs) none := h.queue
    have hdis : (([] ++ xs ++ ys).map Prod.fst).Nodup := by simpa using h.nodup
    have hend : ([] : List (Nat × α)) ≠ [] →
        q.first = ([] : List (Nat × α)).getLast?.map Prod.fst := fun hk => absurd rfl hk
    obtain ⟨q', last', h1, h2, h3, h4, h5⟩ := removeLoop_holds p f hlen hplace hend hqueue h.spare
      hdis
    simp only [h1, true_and]
    refine h.of_perm h2 (keep_thrown_perm p f xs ys) h3 ?_ h5
    by_cases hk : keep p xs = []
    · have hfirst : q'.first = none := by
        rw [List.nil_append, hk] at h3
        exact h3
      rw [if_pos hfirst, hk]
      rfl
    · have hfirst : q'.first ≠ none := by
        intro hf
        cases hkeep : keep p xs with
        | nil => exact hk hkeep
        | cons x l =>
          rw [List.nil_append, hkeep, hf] at h3
          exact absurd h3.1 (by simp)
      rw [if_neg hfirst]
      exact h4 hk

end Remove

/-! ## 5. Giving the nodes back -/

section Drain

variable {q : Linked α} {xs ys : List (Nat × α)}

theorem drainLoop_spare {n : Nat} (hlen : ys.length ≤ n)
    (hs : Seg q.nodes q.recycle ys none) :
    drainLoop n q = (ys.map Prod.snd, { q with recycle := none }) := by
  induction ys generalizing n q with
  | nil =>
    have hr : q.recycle = none := hs
    rw [show ({ q with recycle := none } : Linked α) = q by rw [← hr]]
    cases n with
    | zero => rfl
    | succ n => rw [drainLoop, hr]; rfl
  | cons y ys ih =>
    obtain ⟨a, d⟩ := y
    obtain ⟨hr, s, hnode, hrest⟩ := hs
    cases n with
    | zero => cases hlen
    | succ n =>
      rw [drainLoop, hr, Option.bind_some, hnode]
      simp only
      rw [ih (n := n) (q := { q with recycle := s }) (Nat.le_of_succ_le_succ hlen) hrest]
      rfl

/-- **What is left in the nodes out of use.** -/
theorem drain_holds (h : Holds q xs ys) :
    q.drain = (ys.map Prod.snd, { q with recycle := none }) :=
  drainLoop_spare (by have := h.length; omega) h.spare

end Drain

end Linked

end Viral.Lib
