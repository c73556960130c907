/-
  File:      ViralEngine/Lib/Loop.lean
  Subject:   WHILE LOOPS WITH A TEST THAT MAY ANSWER DIFFERENTLY IN EVERY ROUND. No program fact.

  A loop is a test and a body; both are given the number of the round, for what they ask the
  environment may change its answer. `run` counts the tests down, so it computes; `Ends` says that
  some number of tests is enough.

  * `after`, `run`, `Ends` -- the state in front of a round, the loop, and that it ends;
  * `StopsAt`, `ends_iff` -- it ends in front of the first round whose test fails;
  * `StopsAt.unique`, `exists_stopsAt` -- there is one such round, if any test fails.
-/
import Mathlib.Data.Nat.Find

namespace Viral.Lib.Loop

variable {σ : Type} {test : Nat → σ → Bool} {body : Nat → σ → σ}

/-- The state in front of round `k`, whatever the tests say. -/
def after (body : Nat → σ → σ) (s : σ) : Nat → σ
  | 0 => s
  | k + 1 => body k (after body s k)

/-- The loop from round `i` on, with at most so many tests. -/
def run (test : Nat → σ → Bool) (body : Nat → σ → σ) : (tests : Nat) → (i : Nat) → σ → Option σ
  | 0, _, _ => none
  | n + 1, i, s => if test i s then run test body n (i + 1) (body i s) else some s

/-- The loop ends, in `t`. -/
def Ends (test : Nat → σ → Bool) (body : Nat → σ → σ) (s t : σ) : Prop :=
  ∃ n, run test body n 0 s = some t

/-- Round `k` is the first one whose test fails. -/
structure StopsAt (test : Nat → σ → Bool) (body : Nat → σ → σ) (s : σ) (k : Nat) : Prop where
  goes : ∀ j < k, test j (after body s j) = true
  stops : test k (after body s k) = false

/-- The loop in front of round `i`, and from there on. -/
theorem run_after (s t : σ) (n i : Nat) :
    run test body n i (after body s i) = some t ↔
      ∃ k, i ≤ k ∧ k < i + n ∧ (∀ j, i ≤ j → j < k → test j (after body s j) = true) ∧
        test k (after body s k) = false ∧ t = after body s k := by
  induction n generalizing i with
  | zero =>
    constructor
    · nofun
    · rintro ⟨k, h1, h2, _⟩
      omega
  | succ n ih =>
    cases htest : test i (after body s i) with
    | false =>
      simp only [run, htest, Bool.false_eq_true, if_false, Option.some.injEq]
      constructor
      · rintro rfl
        exact ⟨i, Nat.le_refl i, by omega, fun j h1 h2 => absurd h1 (by omega), htest, rfl⟩
      · rintro ⟨k, h1, _, hgoes, _, rfl⟩
        rcases Nat.eq_or_lt_of_le h1 with rfl | hlt
        · rfl
        · have hi := hgoes i (Nat.le_refl i) hlt
          rw [htest] at hi
          cases hi
    | true =>
      have hrun : run test body (n + 1) i (after body s i) =
          run test body n (i + 1) (after body s (i + 1)) := by
        simp only [run, htest, if_true]
        rfl
      rw [hrun, ih (i + 1)]
      constructor
      · rintro ⟨k, h1, h2, hgoes, hstop, rfl⟩
        refine ⟨k, by omega, by omega, fun j h3 h4 => ?_, hstop, rfl⟩
        rcases Nat.eq_or_lt_of_le h3 with rfl | hlt
        · exact htest
        · exact hgoes j hlt h4
      · rintro ⟨k, h1, h2, hgoes, hstop, rfl⟩
        rcases Nat.eq_or_lt_of_le h1 with rfl | hlt
        · rw [htest] at hstop
          cases hstop
        · exact ⟨k, hlt, by omega, fun j h3 h4 => hgoes j (by omega) h4, hstop, rfl⟩

/-- **A loop ends in front of the first round whose test fails.** -/
theorem ends_iff {s t : σ} :
    Ends test body s t ↔ ∃ k, StopsAt test body s k ∧ t = after body s k := by
  constructor
  · rintro ⟨n, hn⟩
    obtain ⟨k, _, _, hgoes, hstop, e⟩ := (run_after s t n 0).mp hn
    exact ⟨k, ⟨fun j hj => hgoes j (Nat.zero_le j) hj, hstop⟩, e⟩
  · rintro ⟨k, h, e⟩
    exact ⟨k + 1, (run_after s t (k + 1) 0).mpr
      ⟨k, Nat.zero_le k, by omega, fun j _ hj => h.goes j hj, h.stops, e⟩⟩

theorem StopsAt.unique {s : σ} {k l : Nat} (hk : StopsAt test body s k)
    (hl : StopsAt test body s l) : k = l := by
  rcases Nat.lt_trichotomy k l with h | h | h
  · have := hl.goes k h
    rw [hk.stops] at this
    cases this
  · exact h
  · have := hk.goes l h
    rw [hl.stops] at this
    cases this

/-- Some test fails, so one fails first. -/
theorem exists_stopsAt {s : σ} {k : Nat} (h : test k (after body s k) = false) :
    ∃ l ≤ k, StopsAt test body s l := by
  have hex : ∃ k, test k (after body s k) = false := ⟨k, h⟩
  refine ⟨Nat.find hex, Nat.find_min' hex h, fun j hj => ?_, Nat.find_spec hex⟩
  exact eq_true_of_ne_false (Nat.find_min hex hj)

end Viral.Lib.Loop
