import FlintInit.Library.Runs
import Mathlib.Data.Stream.Init

/-!
# Runs that wait for deadlines

A program that polls until a deadline is stopped by the clock, not by the
answers it gets.  Here the answers of the world are an endless stream, each of
them with a reading of the clock, and each state waits for at most one
deadline.

`run_ends` is the rule for termination.  A step lowers a rank, or it is taken
before the deadline and leaves the rank and the deadline as they are; if the
clock passes every deadline that a run sets, the run ends.
-/

namespace Runs

variable {σ ω : Type} {step : ω → σ → σ}

/-- The state after `n` steps under an endless stream of answers. -/
def after (step : ω → σ → σ) (s : σ) (world : Stream' ω) (n : Nat) : σ :=
  run step s (world.take n)

/-- An endless run goes on by one step at a time. -/
theorem after_succ (s : σ) (world : Stream' ω) (n : Nat) :
    after step s world (n + 1) = step (world.get n) (after step s world n) := by
  rw [after, Stream'.take_succ', run_append, run, run, after]

/-- The clock eventually passes each deadline that the run sets. -/
def PassesDeadlines (step : ω → σ → σ) (now : ω → Nat)
    (deadline : σ → Option Nat) (s : σ) (world : Stream' ω) : Prop :=
  ∀ n t, deadline (after step s world n) = some t →
    ∃ m, n ≤ m ∧ t ≤ now (world.get m)

/-- A clock that goes on for ever and never back passes all deadlines. -/
theorem PassesDeadlines.of_mono {now : ω → Nat} {deadline : σ → Option Nat}
    {s : σ} {world : Stream' ω}
    (hmono : ∀ n, now (world.get n) ≤ now (world.get (n + 1)))
    (hpass : ∀ t, ∃ n, t ≤ now (world.get n)) :
    PassesDeadlines step now deadline s world := by
  intro n t _
  obtain ⟨m, hm⟩ := hpass t
  have hlater : ∀ k, now (world.get m) ≤ now (world.get (m + k)) := by
    intro k
    induction k with
    | zero => exact Nat.le_refl _
    | succ k ih => exact Nat.le_trans ih (hmono (m + k))
  exact ⟨m + n, Nat.le_add_left n m, Nat.le_trans hm (hlater n)⟩

/-- **Termination under a clock.**  The outer induction is on the rank, the
inner one on the number of steps until the clock passes the deadline. -/
theorem run_ends {now : ω → Nat} {deadline : σ → Option Nat} {s : σ}
    {world : Stream' ω} (Done : σ → Prop) (rank : σ → Nat)
    (hstep : ∀ w s, ¬ Done s → rank (step w s) < rank s ∨
      (rank (step w s) = rank s ∧
        ∃ t, deadline s = some t ∧ deadline (step w s) = some t ∧ now w < t))
    (hclock : PassesDeadlines step now deadline s world) :
    ∃ n, Done (after step s world n) := by
  have hnext : ∀ n, ¬ Done (after step s world n) →
      rank (after step s world (n + 1)) < rank (after step s world n) ∨
        (rank (after step s world (n + 1)) = rank (after step s world n) ∧
          ∃ t, deadline (after step s world n) = some t ∧
            deadline (after step s world (n + 1)) = some t ∧
            now (world.get n) < t) := by
    intro n hgoing
    rw [after_succ]
    exact hstep (world.get n) _ hgoing
  suffices hrank : ∀ r n, rank (after step s world n) = r →
      ∃ m, Done (after step s world m) from hrank (rank s) 0 rfl
  intro r
  induction r using Nat.strong_induction_on with
  | _ r ih =>
      -- before the deadline the state goes on waiting for the same one
      have hwait : ∀ gap n t, deadline (after step s world n) = some t →
          t ≤ now (world.get (n + gap)) → rank (after step s world n) = r →
          ∃ m, Done (after step s world m) := by
        intro gap
        induction gap with
        | zero =>
            intro n t hset hpassed hr
            by_cases hdone : Done (after step s world n)
            · exact ⟨n, hdone⟩
            rcases hnext n hdone with hlow | ⟨_, t', hset', _, hearly⟩
            · exact ih _ (hr ▸ hlow) (n + 1) rfl
            · rw [hset, Option.some_inj] at hset'
              rw [Nat.add_zero] at hpassed
              omega
        | succ gap ihgap =>
            intro n t hset hpassed hr
            by_cases hdone : Done (after step s world n)
            · exact ⟨n, hdone⟩
            rcases hnext n hdone with hlow | ⟨hsame, t', hset', hkept, _⟩
            · exact ih _ (hr ▸ hlow) (n + 1) rfl
            · rw [hset, Option.some_inj] at hset'
              subst hset'
              refine ihgap (n + 1) t hkept ?_ (hsame.trans hr)
              rwa [Nat.add_right_comm]
      intro n hr
      by_cases hdone : Done (after step s world n)
      · exact ⟨n, hdone⟩
      rcases hnext n hdone with hlow | ⟨_, t, hset, _⟩
      · exact ih _ (hr ▸ hlow) (n + 1) rfl
      · obtain ⟨m, hnm, hpassed⟩ := hclock n t hset
        obtain ⟨gap, rfl⟩ := Nat.exists_eq_add_of_le hnm
        exact hwait gap n t hset hpassed hr

end Runs
