/-
  File:      ViralEngine/Lib/Windows.lean
  Subject:   READING A LIST WINDOW BY WINDOW, EACH WINDOW OUT OF ANOTHER ORDER. No program fact.

  A list in descending order of a key is not determined where keys are equal. If every window is cut
  out of an order of its own, the windows fit together exactly where no two elements with equal keys
  stand on different sides of a cut.

  * `window`, `Falling` -- a window, and a descending order;
  * `take_perm` -- **two descending orders of one list agree up to a cut where the key drops**;
  * `swap_tie` -- where it does not drop, the two elements at the cut can be swapped;
  * `windows_perm` -- the windows of the orders are the list, if the key drops at every cut.
-/
import Mathlib.Data.List.Sort

namespace Viral.Lib

variable {α κ : Type}

/-! ## 1. Windows -/

/-- Window `j` of width `p`. -/
def window (p j : Nat) (l : List α) : List α := (l.drop (j * p)).take p

theorem window_eq_nil {p : Nat} (hp : 0 < p) (j : Nat) (l : List α) :
    window p j l = [] ↔ l.length ≤ j * p := by
  unfold window
  rw [List.take_eq_nil_iff, List.drop_eq_nil_iff]
  exact or_iff_right (Nat.ne_of_gt hp)

/-- The next window goes on where the list was cut. -/
theorem take_window (p j : Nat) (l : List α) :
    l.take ((j + 1) * p) = l.take (j * p) ++ window p j l := by
  rw [Nat.succ_mul]
  exact List.take_add

theorem mem_window {p j i : Nat} {l : List α} (hlo : j * p ≤ i) (hhi : i < (j + 1) * p)
    (hi : i < l.length) : l[i] ∈ window p j l := by
  rw [Nat.succ_mul] at hhi
  unfold window
  refine List.mem_take_iff_getElem.mpr ⟨i - j * p, ?_, ?_⟩
  · rw [List.length_drop]
    omega
  · rw [List.getElem_drop]
    congr 1
    omega

/-! ## 2. Descending orders -/

section Orders

variable [LinearOrder κ] {key : α → κ}

/-- In descending order of the key. -/
def Falling (key : α → κ) (l : List α) : Prop := l.Pairwise fun a b => key b ≤ key a

theorem falling_map {l : List α} : Falling key l ↔ (l.map key).Pairwise (· ≥ ·) := by
  rw [List.pairwise_map]
  exact Iff.rfl

/-- The keys of a descending order are determined. -/
theorem keys_eq {l l' : List α} (hp : l.Perm l') (hl : Falling key l) (hl' : Falling key l') :
    l.map key = l'.map key :=
  (hp.map key).eq_of_pairwise' (falling_map.mp hl) (falling_map.mp hl')

/-- The key does not drop at the cut, which is inside the list. -/
def TiesAt (keys : List κ) (k : Nat) : Prop :=
  0 < k ∧ k < keys.length ∧ keys[k - 1]? = keys[k]?

/-- In front of a cut where the key drops stand the elements with at least the last key. -/
theorem filter_eq_take {l : List α} (hl : Falling key l) {k : Nat} (hk1 : k - 1 < l.length)
    (hk : k < l.length) (h0 : 0 < k) (hdrop : key l[k - 1] ≠ key l[k]) {t : κ}
    (ht : t = key l[k - 1]) : (l.filter fun a => t ≤ key a) = l.take k := by
  have hget := List.pairwise_iff_getElem.mp hl
  have hfront : ∀ a ∈ l.take k, t ≤ key a := by
    intro a ha
    obtain ⟨i, hi, rfl⟩ := List.mem_take_iff_getElem.mp ha
    rw [ht]
    rcases Nat.lt_or_ge i (k - 1) with h | h
    · exact hget i (k - 1) (by omega) (by omega) h
    · have hik : i = k - 1 := by omega
      subst hik
      exact le_refl _
  have hback : ∀ a ∈ l.drop k, ¬ t ≤ key a := by
    intro a ha
    obtain ⟨i, hi, rfl⟩ := List.mem_drop_iff_getElem.mp ha
    have hlast : key l[k] ≤ key l[k - 1] := hget (k - 1) k hk1 hk (by omega)
    have hi' : key l[k + i] ≤ key l[k] := by
      rcases Nat.eq_zero_or_pos i with h | h
      · subst h
        exact le_refl _
      · exact hget k (k + i) hk (by omega) (by omega)
    rw [ht]
    exact not_le.mpr (lt_of_le_of_lt hi' (lt_of_le_of_ne hlast (Ne.symm hdrop)))
  have hsplit := List.filter_append (p := fun a => decide (t ≤ key a)) (l.take k) (l.drop k)
  rw [List.take_append_drop] at hsplit
  rw [hsplit, List.filter_eq_self.mpr fun a ha => decide_eq_true (hfront a ha),
    List.filter_eq_nil_iff.mpr fun a ha h => hback a ha (of_decide_eq_true h), List.append_nil]

/-- **Two descending orders agree up to a cut where the key drops.** -/
theorem take_perm {l l' : List α} (hp : l.Perm l') (hl : Falling key l) (hl' : Falling key l')
    {k : Nat} (hk : ¬ TiesAt (l.map key) k) : (l.take k).Perm (l'.take k) := by
  have hkeys := keys_eq hp hl hl'
  have hlen := hp.length_eq
  by_cases h0 : 0 < k
  · by_cases hlt : k < l.length
    · have hlt' : k < l'.length := by omega
      have hk1 : k - 1 < l.length := by omega
      have hk1' : k - 1 < l'.length := by omega
      have hat : ∀ i (hi : i < l.length) (hi' : i < l'.length), key l[i] = key l'[i] := by
        intro i hi hi'
        have h := congrArg (fun ks => ks[i]?) hkeys
        simpa [hi, hi'] using h
      have hdrop : key l[k - 1] ≠ key l[k] := by
        intro heq
        refine hk ⟨h0, by rw [List.length_map]; exact hlt, ?_⟩
        simp [hk1, hlt, heq]
      have hdrop' : key l'[k - 1] ≠ key l'[k] := by
        rw [← hat (k - 1) hk1 hk1', ← hat k hlt hlt']
        exact hdrop
      rw [← filter_eq_take hl hk1 hlt h0 hdrop rfl,
        ← filter_eq_take hl' hk1' hlt' h0 hdrop' (hat (k - 1) hk1 hk1')]
      exact hp.filter _
    · rw [List.take_of_length_le (by omega), List.take_of_length_le (by omega)]
      exact hp
  · have hzero : k = 0 := by omega
    subst hzero
    exact List.Perm.refl _

/-- **At a tie the two elements can be swapped.** -/
theorem swap_tie {l : List α} (hl : Falling key l) {k : Nat} (hk : TiesAt (l.map key) k) :
    ∃ l' : List α, l'.Perm l ∧ Falling key l' ∧ l'[k]? = l[k - 1]? := by
  obtain ⟨h0, hlt, heq⟩ := hk
  rw [List.length_map] at hlt
  obtain ⟨j, rfl⟩ : ∃ j, k = j + 1 := ⟨k - 1, by omega⟩
  have hj : j < l.length := by omega
  have hkey : key l[j] = key l[j + 1] := by
    simpa [hj, hlt] using heq
  have hsplit : l = l.take j ++ (l[j] :: l[j + 1] :: l.drop (j + 2)) := by
    rw [← List.drop_eq_getElem_cons hlt, ← List.drop_eq_getElem_cons hj, List.take_append_drop]
  have hkeys : (l.take j ++ (l[j + 1] :: l[j] :: l.drop (j + 2))).map key = l.map key := by
    conv => rhs; rw [hsplit]
    simp only [List.map_append, List.map_cons, hkey]
  refine ⟨l.take j ++ (l[j + 1] :: l[j] :: l.drop (j + 2)), ?_, ?_, ?_⟩
  · conv => rhs; rw [hsplit]
    exact List.Perm.append_left _ (List.Perm.swap _ _ _)
  · rw [falling_map, hkeys]
    exact falling_map.mp hl
  · have hlen : (l.take j).length = j := by
      rw [List.length_take]
      omega
    rw [List.getElem?_append_right (by omega), hlen]
    simp [hj]

/-- **The windows of the orders are the list**, if the key drops at every cut. -/
theorem windows_perm {p : Nat} {base : List α} {order : Nat → List α}
    (hperm : ∀ j, (order j).Perm base) (hfalling : ∀ j, Falling key (order j))
    (hbase : Falling key base) (hdrop : ∀ j, ¬ TiesAt (base.map key) (j * p)) (n : Nat) :
    ((List.range n).flatMap fun j => window p j (order j)).Perm (base.take (n * p)) := by
  induction n with
  | zero =>
    rw [Nat.zero_mul]
    exact List.Perm.refl _
  | succ n ih =>
    rw [List.range_succ, List.flatMap_append, List.flatMap_singleton]
    have hfront := take_perm (hperm n).symm hbase (hfalling n) (hdrop n)
    have hnext := take_perm (hperm n).symm hbase (hfalling n) (hdrop (n + 1))
    refine List.Perm.trans ?_ hnext.symm
    rw [take_window]
    exact (ih.trans hfront).append_right _

end Orders

end Viral.Lib
