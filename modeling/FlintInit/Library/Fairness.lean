import FlintInit.Library.Deadlines
import Mathlib.Order.WellFounded

/-!
# Endless runs

Rules for what a run comes to when its answers never end.  Times are natural
numbers, and a property of times says what is true of the state then.

* `reaches_of_rank`: what lowers a rank at each step until it is reached, is
  reached;
* `settles_eventually`: a number that is never raised stays the same from some
  time on;
* `ends_of_work`: a run ends if the work left is never raised and cannot stay
  the same for ever.
-/

namespace Runs

/-- **Progress by a rank.** -/
theorem reaches_of_rank {goal : Nat → Prop} (rank : Nat → Nat) {a : Nat}
    (h : ∀ t, a ≤ t → ¬ goal t → rank (t + 1) < rank t) :
    ∃ t, a ≤ t ∧ goal t := by
  suffices hrank : ∀ r t, a ≤ t → rank t = r → ∃ u, t ≤ u ∧ goal u from
    hrank (rank a) a (Nat.le_refl a) rfl
  intro r
  induction r using Nat.strong_induction_on with
  | _ r ih =>
      intro t hat hr
      by_cases hgoal : goal t
      · exact ⟨t, Nat.le_refl t, hgoal⟩
      · have hlow := h t hat hgoal
        obtain ⟨u, htu, hu⟩ := ih (rank (t + 1)) (by omega) (t + 1)
          (by omega) rfl
        exact ⟨u, by omega, hu⟩

/-- A number that is never raised stays the same from some time on. -/
theorem settles_eventually {f : Nat → Nat} {a : Nat}
    (h : ∀ t, a ≤ t → f (t + 1) ≤ f t) :
    ∃ b, a ≤ b ∧ ∀ t, b ≤ t → f t = f b := by
  have hle : ∀ b, a ≤ b → ∀ k, f (b + k) ≤ f b := by
    intro b hb k
    induction k with
    | zero => exact Nat.le_refl _
    | succ k ih => exact Nat.le_trans (h (b + k) (by omega)) ih
  suffices hlow : ∀ r b, a ≤ b → f b = r →
      ∃ c, a ≤ c ∧ ∀ t, c ≤ t → f t = f c from
    hlow (f a) a (Nat.le_refl a) rfl
  intro r
  induction r using Nat.strong_induction_on with
  | _ r ih =>
      intro b hb hr
      by_cases hstays : ∀ t, b ≤ t → f t = f b
      · exact ⟨b, hb, hstays⟩
      · push Not at hstays
        obtain ⟨t, hbt, hne⟩ := hstays
        obtain ⟨k, rfl⟩ := Nat.exists_eq_add_of_le hbt
        have hless := hle b hb k
        exact ih (f (b + k)) (by omega) (b + k) (by omega) rfl

/-- **Termination by work.**  The work left is not raised from `a` on, and it
does not stay the same for ever unless the run has ended. -/
theorem ends_of_work {done : Nat → Prop} (work : Nat → Nat) (a : Nat)
    (hwork : ∀ t, a ≤ t → ¬ done t → done (t + 1) ∨ work (t + 1) ≤ work t)
    (hstall : ∀ b, a ≤ b → (∀ t, b ≤ t → ¬ done t) →
      ¬ ∀ t, b ≤ t → work t = work b) :
    ∃ t, done t := by
  by_contra hnever
  push Not at hnever
  have hmono : ∀ t, a ≤ t → work (t + 1) ≤ work t := fun t ht =>
    (hwork t ht (hnever t)).resolve_left (hnever (t + 1))
  obtain ⟨b, hab, hconst⟩ := settles_eventually hmono
  exact hstall b hab (fun t _ => hnever t) hconst

end Runs
