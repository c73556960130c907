/-
  File:      ViralEngine/Lib/Slots.lean
  Subject:   A LIST THAT GROWS, IN SLOTS USED ROUND AND ROUND. No program fact.

  Element `i` of the list lies in slot `i % m`, from the first one still in use on. What has left is
  written over by what comes.

  * `wrap` -- the slot behind a slot;
  * `InSlots` -- the elements from `lo` on lie in their slots;
  * `inSlots_write`, `inSlots_push`, `inSlots_drop` -- the slot behind the last element can be
    written, be taken in, and the first one be given up.
-/
import Mathlib.Data.List.Basic
import Mathlib.Data.Nat.ModEq

namespace Viral.Lib

variable {α : Type} {m lo : Nat} {slots xs : List α}

/-- The slot behind slot `i` of `m`. -/
def wrap (m i : Nat) : Nat := if i + 1 = m then 0 else i + 1

theorem wrap_mod (hm : 0 < m) (n : Nat) : wrap m (n % m) = (n + 1) % m := by
  have hlt := Nat.mod_lt n hm
  rw [← Nat.mod_add_mod]
  unfold wrap
  split
  case isTrue h => rw [h, Nat.mod_self]
  case isFalse h => exact (Nat.mod_eq_of_lt (by omega)).symm

/-- Fewer than `m` apart, two elements have different slots. -/
theorem slot_ne {i j : Nat} (hij : i < j) (hj : j < i + m) : i % m ≠ j % m := by
  intro h
  have hdvd := (Nat.modEq_iff_dvd' (Nat.le_of_lt hij)).mp h
  have hle := Nat.le_of_dvd (by omega) hdvd
  omega

/-- The elements of `xs` from `lo` on lie in their slots. -/
def InSlots (m : Nat) (slots xs : List α) (lo : Nat) : Prop :=
  ∀ i, lo ≤ i → i < xs.length → slots[i % m]? = xs[i]?

theorem inSlots_nil (m : Nat) (slots : List α) (lo : Nat) : InSlots m slots [] lo :=
  fun _ _ hi => nomatch hi

/-- **Writing** the slot behind the last element, while one is free. -/
theorem inSlots_write (h : InSlots m slots xs lo) (hroom : xs.length < lo + m) (x : α) :
    InSlots m (slots.set (xs.length % m) x) xs lo := by
  intro i hlo hi
  rw [List.getElem?_set_ne (slot_ne hi (by omega)).symm]
  exact h i hlo hi

/-- **Taking in** what has been written there. -/
theorem inSlots_push (h : InSlots m slots xs lo) {x : α} (hx : slots[xs.length % m]? = some x) :
    InSlots m slots (xs ++ [x]) lo := by
  intro i hlo hi
  rw [List.length_append, List.length_singleton] at hi
  rcases Nat.lt_succ_iff_lt_or_eq.mp hi with hlt | rfl
  · rw [List.getElem?_append_left hlt]
    exact h i hlo hlt
  · rw [hx, List.getElem?_append_right (Nat.le_refl _), Nat.sub_self]
    rfl

/-- **Giving up** the first element. -/
theorem inSlots_drop (h : InSlots m slots xs lo) (hlen : xs.length ≤ lo + m) (f : α → α) :
    InSlots m (slots.modify (lo % m) f) xs (lo + 1) := by
  intro i hlo hi
  rw [List.getElem?_modify_ne _ _ (slot_ne hlo (by omega))]
  exact h i (by omega) hi

end Viral.Lib
