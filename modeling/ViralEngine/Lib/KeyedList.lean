/-
  File:      ViralEngine/Lib/KeyedList.lean
  Subject:   A LIST OF RECORDS WITH DISTINCT KEYS, AS A MAP. No program fact.

  A table with a primary key is a list of records; what it is for is a map from keys to records.
  `Lists key m l` says that `l` holds the records of `m`, each once, in some order. The changes
  of the list that a store makes are changes of the map at one key.

  * `Lists` -- the list holds exactly the records of the map;
  * `Lists.upsert`, `Lists.modify`, `Lists.filter` -- replace or add one, change one, keep some;
  * `Lists.perm`, `Lists.unique` -- the order does not count;
  * `lists_find` -- a list with distinct keys is the map of its records;
  * `Lists.filter_key` -- looking one key up finds the map's record;
  * `firsts`, `firsts_eq_self_iff` -- the records that come in with a new key.
-/
import Mathlib.Data.List.Basic
import Mathlib.Data.List.Induction
import Mathlib.Data.List.Nodup
import Mathlib.Logic.Function.Basic

namespace Viral.Lib

variable {κ α : Type} {key : α → κ} {m : κ → Option α} {l l' : List α}

/-- **The list holds exactly the records of the map, each once**, and the map has every record at
    its key. -/
structure Lists (key : α → κ) (m : κ → Option α) (l : List α) : Prop where
  nodup : (l.map key).Nodup
  mem : ∀ a, a ∈ l ↔ m (key a) = some a
  keyed : ∀ k a, m k = some a → key a = k

theorem lists_nil (key : α → κ) : Lists key (fun _ => none) [] :=
  ⟨List.nodup_nil, fun _ => ⟨nofun, nofun⟩, nofun⟩

/-- The order does not count. -/
theorem Lists.perm (h : Lists key m l) (hp : l'.Perm l) : Lists key m l' :=
  ⟨(hp.map key).nodup_iff.mpr h.nodup, fun a => hp.mem_iff.trans (h.mem a), h.keyed⟩

/-- Nothing else does. -/
theorem Lists.unique (h : Lists key m l) (h' : Lists key m l') : l.Perm l' :=
  (List.perm_ext_iff_of_nodup h.nodup.of_map h'.nodup.of_map).mpr
    fun a => (h.mem a).trans (h'.mem a).symm

/-- The records that pass a test. -/
theorem Lists.filter (h : Lists key m l) (p : α → Bool) :
    Lists key (fun k => (m k).filter p) (l.filter p) := by
  refine ⟨h.nodup.sublist (List.filter_sublist.map key), fun a => ?_, fun k a hk => ?_⟩
  · rw [List.mem_filter, h.mem a, Option.filter_eq_some_iff]
  · exact h.keyed k a (Option.filter_eq_some_iff.mp hk).1

section Changes

variable [DecidableEq κ]

/-- **A list with distinct keys is the map of its records.** -/
theorem lists_find (hl : (l.map key).Nodup) :
    Lists key (fun k => l.find? fun a => key a = k) l := by
  have hsome : ∀ k a, l.find? (fun a => key a = k) = some a → a ∈ l ∧ key a = k := by
    intro k a h
    exact ⟨List.mem_of_find?_eq_some h, by simpa using List.find?_some h⟩
  refine ⟨hl, fun a => ⟨fun ha => ?_, fun h => (hsome _ a h).1⟩, fun k a h => (hsome k a h).2⟩
  cases hfind : l.find? (fun b => key b = key a) with
  | none => exact absurd (decide_eq_true rfl) (List.find?_eq_none.mp hfind a ha)
  | some b =>
    obtain ⟨hb, hkey⟩ := hsome _ b hfind
    rw [List.inj_on_of_nodup_map hl hb ha hkey]

/-- **A record replaces the one with its key, or comes in new.** -/
theorem Lists.upsert (h : Lists key m l) (a : α) :
    Lists key (Function.update m (key a) (some a)) (l.filter (fun b => key b ≠ key a) ++ [a]) := by
  refine ⟨?_, fun b => ?_, fun k b hk => ?_⟩
  · rw [List.map_append, List.map_singleton, List.nodup_append']
    refine ⟨h.nodup.sublist (List.filter_sublist.map key), List.nodup_singleton _, ?_⟩
    rw [List.disjoint_singleton]
    intro hmem
    obtain ⟨b, hb, hkey⟩ := List.mem_map.mp hmem
    simp only [List.mem_filter, decide_eq_true_eq] at hb
    exact hb.2 hkey
  · simp only [List.mem_append, List.mem_filter, decide_eq_true_eq, List.mem_singleton]
    by_cases hkey : key b = key a
    · rw [hkey, Function.update_self]
      constructor
      · rintro (hb | rfl)
        · exact absurd rfl hb.2
        · rfl
      · intro e
        exact Or.inr (Option.some.inj e).symm
    · rw [Function.update_of_ne hkey, ← h.mem b]
      constructor
      · rintro (hb | rfl)
        · exact hb.1
        · exact absurd rfl hkey
      · intro hb
        exact Or.inl ⟨hb, hkey⟩
  · by_cases hka : k = key a
    · rw [hka, Function.update_self] at hk
      rw [hka, Option.some.inj hk]
    · rw [Function.update_of_ne hka] at hk
      exact h.keyed k b hk

/-- **The record of one key is changed, if there is one.** -/
theorem Lists.modify (h : Lists key m l) (k : κ) {f : α → α} (hf : ∀ a, key (f a) = key a) :
    Lists key (Function.update m k ((m k).map f))
      (l.map fun a => if key a = k then f a else a) := by
  have hkey : ∀ a, key (if key a = k then f a else a) = key a := by
    intro a
    split
    · exact hf a
    · rfl
  refine ⟨?_, fun b => ?_, fun k' b hb => ?_⟩
  · rw [List.map_map]
    exact (List.map_congr_left fun a _ => hkey a) ▸ h.nodup
  · rw [List.mem_map]
    constructor
    · rintro ⟨a, ha, rfl⟩
      rw [hkey]
      have hma := (h.mem a).mp ha
      by_cases hk : key a = k
      · rw [if_pos hk, hk, Function.update_self, ← hk, hma]
        rfl
      · rw [if_neg hk, Function.update_of_ne hk]
        exact hma
    · intro hb
      by_cases hk : key b = k
      · rw [hk, Function.update_self] at hb
        obtain ⟨a, ha, rfl⟩ := Option.map_eq_some_iff.mp hb
        have hak := h.keyed k a ha
        exact ⟨a, (h.mem a).mpr (by rw [hak]; exact ha), if_pos hak⟩
      · rw [Function.update_of_ne hk] at hb
        exact ⟨b, (h.mem b).mpr hb, if_neg hk⟩
  · by_cases hk : k' = k
    · subst hk
      rw [Function.update_self] at hb
      obtain ⟨a, ha, rfl⟩ := Option.map_eq_some_iff.mp hb
      rw [hf]
      exact h.keyed k' a ha
    · rw [Function.update_of_ne hk] at hb
      exact h.keyed k' b hb

/-- **Looking one key up finds the map's record.** -/
theorem Lists.filter_key (h : Lists key m l) (k : κ) :
    l.filter (fun a => key a = k) = (m k).toList := by
  have hperm : (l.filter (fun a => key a = k)).Perm (m k).toList := by
    rw [List.perm_ext_iff_of_nodup (h.nodup.of_map key |>.filter _)
      (by cases m k <;> simp)]
    intro a
    rw [List.mem_filter, h.mem a, decide_eq_true_eq, Option.mem_toList]
    constructor
    · rintro ⟨ha, rfl⟩
      exact ha
    · intro ha
      have hk := h.keyed k a ha
      exact ⟨by rw [hk]; exact ha, hk⟩
  cases hm : m k with
  | none =>
    rw [hm] at hperm
    exact hperm.eq_nil
  | some a =>
    rw [hm] at hperm
    exact List.perm_singleton.mp hperm

/-- A record comes in if its key is new. -/
def keepNew (key : α → κ) (kept : List α) (a : α) : List α :=
  if key a ∈ kept.map key then kept else kept ++ [a]

/-- **The first record of each key**, in the order in which they come in. -/
def firsts (key : α → κ) (l : List α) : List α := l.foldl (keepNew key) []

@[simp] theorem firsts_nil : firsts key [] = [] := rfl

theorem firsts_concat (l : List α) (a : α) :
    firsts key (l ++ [a]) = keepNew key (firsts key l) a :=
  List.foldl_concat _ _ _ _

/-- **Each key occurs once.** -/
theorem firsts_nodup (l : List α) : ((firsts key l).map key).Nodup := by
  induction l using List.reverseRecOn with
  | nil => exact List.nodup_nil
  | append_singleton l a ih =>
    rw [firsts_concat]
    unfold keepNew
    split
    · exact ih
    · rename_i hnew
      rw [List.map_append, List.map_singleton, ← List.concat_eq_append]
      exact ih.concat hnew

/-- **Nothing is left out exactly if all keys are different.** -/
theorem firsts_eq_self_iff : firsts key l = l ↔ (l.map key).Nodup := by
  constructor
  · intro h
    rw [← h]
    exact firsts_nodup l
  · intro h
    induction l using List.reverseRecOn with
    | nil => rfl
    | append_singleton l a ih =>
      rw [List.map_append, List.map_singleton, ← List.concat_eq_append, List.nodup_concat] at h
      obtain ⟨hnew, hl⟩ := h
      rw [firsts_concat, ih hl]
      exact if_neg hnew

end Changes

end Viral.Lib
