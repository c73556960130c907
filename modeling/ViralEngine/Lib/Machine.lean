/-
  File:      ViralEngine/Lib/Machine.lean
  Subject:   LABELLED MACHINES AND THEIR RUNS. No program fact.

  A machine is a start state and a partial step function: an action that is not enabled in a
  state answers `none`. Several threads share one machine by giving each thread its own
  actions, so a list of actions is one interleaving.

  * `Machine.exec` -- run a list of actions;
  * `Machine.meets` -- every step of such a run meets a condition on the state before the
    step and the action taken there;
  * `Machine.Steps`, `Machine.Reach` -- the same runs as a relation, for inductions;
  * `Machine.steps_of_exec` -- from the first form to the second;
  * `Machine.Steps.invariant` -- what one step keeps, a run keeps;
  * `Machine.exec_iff_meets`, `Machine.meets_after_iff`, `Machine.meets_after_run` -- a property
    behind a run, or all along it, and a condition on its steps;
  * `Machine.watch` -- a history beside the state.
-/
import Mathlib.Data.List.Basic

namespace Viral.Lib

/-- A start state and a partial step function; the action names the thread and the choices of
    the environment. -/
structure Machine (σ α : Type) where
  init : σ
  step : σ → α → Option σ

namespace Machine

variable {σ α : Type}

/-! ## 1. Runs as lists of actions -/

/-- Run a list of actions; `none` as soon as one of them is not enabled. -/
def exec (M : Machine σ α) : σ → List α → Option σ
  | s, [] => some s
  | s, a :: as => (M.step s a).bind fun t => M.exec t as

/-- Every step of the run meets `C`, a condition on the state before it and its action. -/
def meets (M : Machine σ α) (C : σ → α → Prop) : σ → List α → Prop
  | _, [] => True
  | s, a :: as => C s a ∧ match M.step s a with
    | none => True
    | some t => M.meets C t as

instance meetsDecidable (M : Machine σ α) (C : σ → α → Prop) [∀ s a, Decidable (C s a)] :
    ∀ (s : σ) (as : List α), Decidable (M.meets C s as)
  | _, [] => inferInstanceAs (Decidable True)
  | s, a :: as =>
    have : Decidable (match M.step s a with
        | none => True
        | some t => M.meets C t as) :=
      match M.step s a with
      | none => inferInstanceAs (Decidable True)
      | some t => meetsDecidable M C t as
    inferInstanceAs (Decidable (_ ∧ _))

theorem exec_cons_some {M : Machine σ α} {s t : σ} {a : α} {as : List α}
    (h : M.exec s (a :: as) = some t) : ∃ u, M.step s a = some u ∧ M.exec u as = some t :=
  Option.bind_eq_some_iff.mp h

theorem meets_cons_iff {M : Machine σ α} {C : σ → α → Prop} {s t : σ} {a : α} {as : List α}
    (h : M.step s a = some t) : M.meets C s (a :: as) ↔ C s a ∧ M.meets C t as := by
  simp only [meets, h]

/-- Conditions that agree on every step agree on every run. -/
theorem meets_congr {M : Machine σ α} {C C' : σ → α → Prop} (h : ∀ s a, C s a ↔ C' s a)
    (s : σ) (as : List α) : M.meets C s as ↔ M.meets C' s as := by
  induction as generalizing s with
  | nil => exact Iff.rfl
  | cons a as ih =>
    refine and_congr (h s a) ?_
    cases M.step s a with
    | none => exact Iff.rfl
    | some t => exact ih t

/-- Conditions that agree on every step of a run agree on the run. -/
theorem meets_congr_run {M : Machine σ α} {C C' : σ → α → Prop} {I : σ → Prop}
    (hinv : ∀ s a t, I s → M.step s a = some t → I t)
    (h : ∀ s a t, I s → M.step s a = some t → (C s a ↔ C' s a)) {as : List α} {s t : σ}
    (h0 : I s) (hrun : M.exec s as = some t) : M.meets C s as ↔ M.meets C' s as := by
  induction as generalizing s with
  | nil => exact Iff.rfl
  | cons a as ih =>
    obtain ⟨u, hu, hrest⟩ := exec_cons_some hrun
    rw [meets_cons_iff hu, meets_cons_iff hu, h s a u h0 hu]
    exact and_congr_right fun _ => ih (hinv s a u h0 hu) hrest

/-- **Every state of a run**: where a property holds behind a step exactly if the step meets `C`,
    and the steps that meet `C` keep what this rests on, the property holds all along a run
    exactly if every step of the run meets `C`. -/
theorem meets_after_iff {M : Machine σ α} {C : σ → α → Prop} {I P : σ → Prop}
    (hstep : ∀ s a, I s → ((∀ t, M.step s a = some t → P t) ↔ C s a))
    (hkeep : ∀ s a t, I s → C s a → M.step s a = some t → I t) {s : σ} (h0 : I s)
    (as : List α) :
    M.meets (fun s a => ∀ t, M.step s a = some t → P t) s as ↔ M.meets C s as := by
  induction as generalizing s with
  | nil => exact Iff.rfl
  | cons a as ih =>
    cases hs : M.step s a with
    | none =>
      simp only [meets, hs]
      rw [← hstep s a h0]
      simp only [hs]
    | some t =>
      rw [meets_cons_iff hs, meets_cons_iff hs, hstep s a h0]
      exact and_congr_right fun hc => ih (hkeep s a t h0 hc hs)

/-- The same for the runs that go through, where the step lemma speaks of steps that are taken. -/
theorem meets_after_run {M : Machine σ α} {C : σ → α → Prop} {I P : σ → Prop}
    (hstep : ∀ s a t, I s → M.step s a = some t → (P t ↔ C s a))
    (hkeep : ∀ s a t, I s → C s a → M.step s a = some t → I t) {as : List α} {s t : σ}
    (h0 : I s) (hrun : M.exec s as = some t) :
    M.meets (fun s a => ∀ t, M.step s a = some t → P t) s as ↔ M.meets C s as := by
  induction as generalizing s with
  | nil => exact Iff.rfl
  | cons a as ih =>
    obtain ⟨u, hu, hrest⟩ := exec_cons_some hrun
    have hone : (∀ t, M.step s a = some t → P t) ↔ C s a := by
      rw [← hstep s a u h0 hu]
      exact ⟨fun h => h u hu, fun h t ht => Option.some.inj (hu.symm.trans ht) ▸ h⟩
    rw [meets_cons_iff hu, meets_cons_iff hu, hone]
    exact and_congr_right fun hc => ih (hkeep s a u h0 hc hu) hrest

/-- The last step of a run meets what all its steps meet. -/
theorem meets_append_single {M : Machine σ α} {C : σ → α → Prop} {s t : σ} {as : List α} {a : α}
    (h : M.exec s as = some t) (hm : M.meets C s (as ++ [a])) : C t a := by
  induction as generalizing s with
  | nil =>
    cases h
    exact hm.1
  | cons b as ih =>
    obtain ⟨u, hu, hrest⟩ := exec_cons_some h
    exact ih hrest ((meets_cons_iff hu).mp hm).2

/-- **Step lemma to run lemma, both ways**: where a property holds behind a step exactly if it
    held before it and the step met `C`, it holds behind a run exactly if it held before it and
    every step met `C`. -/
theorem exec_iff_meets {M : Machine σ α} {C : σ → α → Prop} {I Q : σ → Prop}
    (hinv : ∀ s a t, I s → M.step s a = some t → I t)
    (hstep : ∀ s a t, I s → M.step s a = some t → (Q t ↔ Q s ∧ C s a)) {as : List α} {s t : σ}
    (h0 : I s) (h : M.exec s as = some t) : Q t ↔ Q s ∧ M.meets C s as := by
  induction as generalizing s with
  | nil =>
    cases h
    exact (and_iff_left trivial).symm
  | cons a as ih =>
    obtain ⟨u, hu, hrest⟩ := exec_cons_some h
    rw [ih (hinv s a u h0 hu) hrest, hstep s a u h0 hu, meets_cons_iff hu, and_assoc]

/-! ## 2. Runs as a relation -/

/-- `t` is reached from `s` by steps that all meet `C`. -/
inductive Steps (M : Machine σ α) (C : σ → α → Prop) (s : σ) : σ → Prop where
  | start : Steps M C s s
  | step (t u : σ) (a : α) (h : Steps M C s t) (hc : C t a) (hs : M.step t a = some u) :
      Steps M C s u

/-- Reachable from the start state by steps that all meet `C`. -/
def Reach (M : Machine σ α) (C : σ → α → Prop) (s : σ) : Prop := M.Steps C M.init s

/-- The condition every step meets: the machine unrestricted. -/
def Any (_ : σ) (_ : α) : Prop := True

section Steps

variable {M : Machine σ α} {C : σ → α → Prop}

theorem meets_any (s : σ) (as : List α) : M.meets Any s as := by
  induction as generalizing s with
  | nil => trivial
  | cons a as ih =>
    refine ⟨trivial, ?_⟩
    cases M.step s a with
    | none => trivial
    | some t => exact ih t

theorem Steps.trans {s t u : σ} (h1 : M.Steps C s t) (h2 : M.Steps C t u) : M.Steps C s u := by
  induction h2 with
  | start => exact h1
  | step v w a _ hc hs ih => exact .step v w a ih hc hs

theorem Steps.mono {C' : σ → α → Prop} (hC : ∀ s a, C s a → C' s a) {s t : σ}
    (h : M.Steps C s t) : M.Steps C' s t := by
  induction h with
  | start => exact .start
  | step u v a _ hc hs ih => exact .step u v a ih (hC u a hc) hs

/-- **Step lemma to run lemma**: what every step meeting `C` keeps, every run of such steps
    keeps. -/
theorem Steps.invariant {I : σ → Prop} {s t : σ} (h : M.Steps C s t) (h0 : I s)
    (hstep : ∀ u a v, I u → C u a → M.step u a = some v → I v) : I t := by
  induction h with
  | start => exact h0
  | step u v a _ hc hs ih => exact hstep u a v ih hc hs

/-- A list run that meets `C` is a run of the relation. -/
theorem steps_of_exec {as : List α} {s t : σ} (h : M.exec s as = some t)
    (hm : M.meets C s as) : M.Steps C s t := by
  induction as generalizing s with
  | nil =>
    cases h
    exact .start
  | cons a as ih =>
    obtain ⟨u, hu, hrest⟩ := exec_cons_some h
    obtain ⟨hc, hm'⟩ := (meets_cons_iff hu).mp hm
    exact Steps.trans (.step s u a .start hc hu) (ih hrest hm')

end Steps

/-! ## 3. A history beside the state -/

/-- The machine with a history: `note` reads every step and stops none. -/
def watch {γ : Type} (M : Machine σ α) (g : γ) (note : γ → σ → α → σ → γ) : Machine (σ × γ) α :=
  ⟨(M.init, g), fun p a => (M.step p.1 a).map fun t => (t, note p.2 p.1 a t)⟩

section Watch

variable {γ : Type} {M : Machine σ α} {g : γ} {note : γ → σ → α → σ → γ}

theorem watch_step_some {p q : σ × γ} {a : α} (h : (M.watch g note).step p a = some q) :
    M.step p.1 a = some q.1 ∧ q.2 = note p.2 p.1 a q.1 := by
  obtain ⟨t, ht, rfl⟩ := Option.map_eq_some_iff.mp h
  exact ⟨ht, rfl⟩

end Watch

end Machine

end Viral.Lib
