/-
  File:      ViralEngine/Lib/RefVector.lean
  Subject:   A GROWING VECTOR AND THE REFERENCES INTO IT. No program fact.

  A vector keeps its elements in one buffer. Appending to a full vector moves the elements to
  a new buffer; a reference taken before keeps denoting the place in the buffer it was taken
  from. A reference is therefore a buffer number and an index, and a vector remembers the
  buffers it has given up.

  * `pushBack` -- append, with the move when the buffer is full;
  * `modifyAt` -- a change made through the vector itself;
  * `deref`, `assign` -- a read and a change made through a reference;
  * `Current` -- the reference denotes a place of the buffer in use;
  * `deref_modifyAt`, `deref_assign`, `deref_pushBack`, `elems_assign` -- how the two ways of
    access see each other, and when they do not.
-/
import Mathlib.Data.List.Basic

namespace Viral.Lib

/-- A reference to an element: the buffer it was taken from and the place in it. -/
@[ext] structure Ref where
  buffer : Nat
  idx : Nat
  deriving DecidableEq, Repr

/-- The buffer in use, its capacity, and the buffers given up (oldest first). -/
structure RefVector (α : Type) where
  elems : List α
  capacity : Nat
  old : List (List α)
  fits : elems.length ≤ capacity

namespace RefVector

variable {α : Type}

/-! ## 1. Operations -/

/-- The empty vector, without a buffer of its own. -/
def empty : RefVector α := ⟨[], 0, [], Nat.le_refl 0⟩

/-- There is no room left in the buffer in use. -/
def Full (v : RefVector α) : Prop := v.elems.length = v.capacity

instance (v : RefVector α) : Decidable v.Full := inferInstanceAs (Decidable (_ = _))

/-- Append. A full vector moves to a buffer whose capacity `grow` chooses (at least one more
    element than it holds). -/
def pushBack (grow : Nat → Nat) (v : RefVector α) (x : α) : RefVector α :=
  if h : v.Full then
    { elems := v.elems ++ [x]
      capacity := max (grow v.capacity) (v.elems.length + 1)
      old := v.old ++ [v.elems]
      fits := by
        rw [List.length_append, List.length_singleton]
        exact Nat.le_max_right _ _ }
  else
    { v with
      elems := v.elems ++ [x]
      fits := by
        have hf := v.fits
        unfold Full at h
        simp only [List.length_append, List.length_singleton]
        omega }

/-- Change the element at index `i` of the buffer in use. -/
def modifyAt (v : RefVector α) (i : Nat) (f : α → α) : RefVector α :=
  { v with elems := v.elems.modify i f, fits := by rw [List.length_modify]; exact v.fits }

/-- A reference to index `i` of the buffer in use. -/
def refAt (v : RefVector α) (i : Nat) : Ref := ⟨v.old.length, i⟩

/-- The reference denotes a place of the buffer in use. -/
def Current (v : RefVector α) (r : Ref) : Prop := r.buffer = v.old.length

instance (v : RefVector α) (r : Ref) : Decidable (v.Current r) :=
  inferInstanceAs (Decidable (_ = _))

/-- Read through a reference. -/
def deref (v : RefVector α) (r : Ref) : Option α :=
  if v.Current r then v.elems[r.idx]? else v.old[r.buffer]?.bind (·[r.idx]?)

/-- Change through a reference. -/
def assign (v : RefVector α) (r : Ref) (f : α → α) : RefVector α :=
  if v.Current r then v.modifyAt r.idx f
  else { v with old := v.old.modify r.buffer (·.modify r.idx f) }

/-! ## 2. The shape of the results -/

@[simp] theorem elems_pushBack (grow : Nat → Nat) (v : RefVector α) (x : α) :
    (v.pushBack grow x).elems = v.elems ++ [x] := by
  unfold pushBack
  split <;> rfl

@[simp] theorem elems_modifyAt (v : RefVector α) (i : Nat) (f : α → α) :
    (v.modifyAt i f).elems = v.elems.modify i f := rfl

@[simp] theorem current_modifyAt (v : RefVector α) (i : Nat) (f : α → α) (r : Ref) :
    (v.modifyAt i f).Current r ↔ v.Current r := Iff.rfl

@[simp] theorem current_assign (v : RefVector α) (r q : Ref) (f : α → α) :
    (v.assign r f).Current q ↔ v.Current q := by
  unfold assign
  split
  · exact Iff.rfl
  · simp only [Current, List.length_modify]

@[simp] theorem current_refAt (v : RefVector α) (i : Nat) : v.Current (v.refAt i) := rfl

/-- An append with room left keeps every reference of the buffer in use. -/
theorem current_pushBack {grow : Nat → Nat} {v : RefVector α} {x : α} {r : Ref}
    (hroom : ¬ v.Full) (hr : v.Current r) : (v.pushBack grow x).Current r := by
  unfold pushBack
  rw [dif_neg hroom]
  exact hr

/-- **A change through a reference is seen by the vector exactly when the reference is
    current.** -/
theorem elems_assign (v : RefVector α) (r : Ref) (f : α → α) :
    (v.assign r f).elems = if v.Current r then v.elems.modify r.idx f else v.elems := by
  unfold assign
  split <;> rfl

/-! ## 3. Reading through a reference -/

theorem deref_of_current {v : RefVector α} {r : Ref} (hr : v.Current r) :
    v.deref r = v.elems[r.idx]? := by
  unfold deref
  rw [if_pos hr]

/-- **A change through the vector is seen by a reference exactly when the reference is
    current** (and names the changed place). -/
theorem deref_modifyAt (v : RefVector α) (i : Nat) (f : α → α) (r : Ref) :
    (v.modifyAt i f).deref r =
      if v.Current r ∧ i = r.idx then (v.deref r).map f else v.deref r := by
  by_cases hr : v.Current r
  · rw [deref_of_current ((current_modifyAt v i f r).mpr hr), deref_of_current hr,
      elems_modifyAt, List.getElem?_modify]
    by_cases hi : i = r.idx
    · simp [hr, hi]
    · simp [hi]
  · have hne : ¬ (v.modifyAt i f).Current r := hr
    unfold deref
    rw [if_neg hne, if_neg hr, if_neg (fun h => hr h.1)]
    rfl

/-- A change through a reference is what that reference reads next. -/
theorem deref_assign (v : RefVector α) (r : Ref) (f : α → α) :
    (v.assign r f).deref r = (v.deref r).map f := by
  by_cases hr : v.Current r
  · have e : v.assign r f = v.modifyAt r.idx f := if_pos hr
    rw [e, deref_modifyAt, if_pos ⟨hr, rfl⟩]
  · have e : v.assign r f = { v with old := v.old.modify r.buffer (·.modify r.idx f) } :=
      if_neg hr
    have hne : ¬ (v.assign r f).Current r := fun h => hr ((current_assign v r r f).mp h)
    unfold deref
    rw [if_neg hne, if_neg hr, e]
    simp only [List.getElem?_modify]
    cases v.old[r.buffer]? with
    | none => rfl
    | some b => simp

/-- A change through a reference is read by that reference alone. -/
theorem deref_assign_ne (v : RefVector α) {q r : Ref} (f : α → α) (hne : q ≠ r) :
    (v.assign q f).deref r = v.deref r := by
  by_cases hq : v.Current q
  · have e : v.assign q f = v.modifyAt q.idx f := if_pos hq
    rw [e, deref_modifyAt]
    refine if_neg fun hr => hne ?_
    have hb : q.buffer = r.buffer := Eq.trans hq hr.1.symm
    exact Ref.ext hb hr.2
  · have e : v.assign q f = { v with old := v.old.modify q.buffer (·.modify q.idx f) } :=
      if_neg hq
    by_cases hr : v.Current r
    · rw [deref_of_current hr, deref_of_current ((current_assign v q r f).mpr hr), e]
    · have hr' : ¬ (v.assign q f).Current r := fun h => hr ((current_assign v q r f).mp h)
      unfold deref
      rw [if_neg hr, if_neg hr', e]
      simp only [List.getElem?_modify]
      cases v.old[r.buffer]? with
      | none => rfl
      | some b =>
        by_cases hb : q.buffer = r.buffer
        · have hi : q.idx ≠ r.idx := fun hi => hne (Ref.ext hb hi)
          simp [hb, hi]
        · simp [hb]

/-- A reference that reads something denotes a buffer the vector knows. -/
theorem buffer_le_of_deref {v : RefVector α} {r : Ref} {y : α} (h : v.deref r = some y) :
    r.buffer ≤ v.old.length := by
  by_cases hr : v.Current r
  · exact Nat.le_of_eq hr
  · unfold deref at h
    rw [if_neg hr] at h
    obtain ⟨b, hb, _⟩ := Option.bind_eq_some_iff.mp h
    exact Nat.le_of_lt (List.getElem?_eq_some_iff.mp hb).1

/-- A move leaves every reference behind. -/
theorem not_current_of_full {grow : Nat → Nat} {v : RefVector α} {x y : α} {r : Ref}
    (hfull : v.Full) (h : v.deref r = some y) : ¬ (v.pushBack grow x).Current r := by
  have hle := buffer_le_of_deref h
  unfold pushBack Current
  rw [dif_pos hfull, List.length_append, List.length_singleton]
  omega

/-- A reference that is current behind an append was current before it. -/
theorem current_of_pushBack {grow : Nat → Nat} {v : RefVector α} {x y : α} {r : Ref}
    (h : v.deref r = some y) (hr : (v.pushBack grow x).Current r) : v.Current r := by
  by_cases hfull : v.Full
  · exact absurd hr (not_current_of_full hfull h)
  · unfold pushBack at hr
    rw [dif_neg hfull] at hr
    exact hr

/-- An append never changes what a reference reads, whether the vector moves or not. -/
theorem deref_pushBack {grow : Nat → Nat} {v : RefVector α} {x y : α} {r : Ref}
    (h : v.deref r = some y) : (v.pushBack grow x).deref r = some y := by
  by_cases hfull : v.Full
  · -- the move: a current reference now reads the buffer just given up
    have e : (v.pushBack grow x).old = v.old ++ [v.elems] := by
      unfold pushBack
      rw [dif_pos hfull]
    have hne : ¬ (v.pushBack grow x).Current r := not_current_of_full hfull h
    have hle := buffer_le_of_deref h
    by_cases hr : v.Current r
    · rw [deref_of_current hr] at h
      unfold deref
      unfold Current at hr
      rw [if_neg hne, e, hr, List.getElem?_append_right (Nat.le_refl _), Nat.sub_self]
      exact h
    · unfold deref at h ⊢
      have hlt' : r.buffer < v.old.length := by
        unfold Current at hr
        omega
      rw [if_neg hr] at h
      rw [if_neg hne, e, List.getElem?_append_left hlt']
      exact h
  · by_cases hr : v.Current r
    · rw [deref_of_current hr] at h
      rw [deref_of_current (current_pushBack hfull hr), elems_pushBack,
        List.getElem?_append_left (List.getElem?_eq_some_iff.mp h).1]
      exact h
    · have hold : (v.pushBack grow x).old = v.old := by
        unfold pushBack
        rw [dif_neg hfull]
      have hne : ¬ (v.pushBack grow x).Current r := by
        unfold Current
        rw [hold]
        exact hr
      unfold deref at h ⊢
      rw [if_neg hr] at h
      rw [if_neg hne, hold]
      exact h

end RefVector

end Viral.Lib
