import FlintInit.Library.Runs

/-!
# Interleavings

Several parties take their steps in any order, so a run is a list of actions
and each action is some party's.

* `run_enters`: what holds at the end of a run and not at its start began to
  hold in one of its steps;
* `run_erase`: if the actions of some parties show nothing to the others, the
  others see the same run with those actions left out;
* `flatMap_set_perm`: what all have sent, when one of them sends.
-/

namespace Runs

variable {σ ω : Type} {step : ω → σ → σ}

/-- **The step in which something begins.** -/
theorem run_enters (P : σ → Prop) :
    ∀ (ws : List ω) (s : σ), ¬ P s → P (run step s ws) →
      ∃ before w after, ws = before ++ w :: after ∧
        ¬ P (run step s before) ∧ P (step w (run step s before)) := by
  intro ws
  induction ws with
  | nil => intro s hs hend; exact absurd hend hs
  | cons w ws ih =>
      intro s hs hend
      by_cases hnext : P (step w s)
      · exact ⟨[], w, ws, rfl, hs, hnext⟩
      · obtain ⟨before, v, after, heq, hbefore, hv⟩ := ih (step w s) hnext hend
        exact ⟨w :: before, v, after, by rw [heq, List.cons_append], hbefore,
          hv⟩

/-- The steps that satisfy an invariant keep it. -/
theorem run_keeps (Inv : σ → Prop) (usual : ω → Prop)
    (hinv : ∀ w s, usual w → Inv s → Inv (step w s)) :
    ∀ (ws : List ω) (s : σ), (∀ w ∈ ws, usual w) → Inv s →
      Inv (run step s ws) := by
  intro ws
  induction ws with
  | nil => intro s _ hs; exact hs
  | cons w ws ih =>
      intro s husual hs
      exact ih (step w s) (fun v hv => husual v (List.mem_cons_of_mem _ hv))
        (hinv w s (husual w List.mem_cons_self) hs)

/-- **Hidden actions can be left out.**  `Same s t` says that the observer
cannot tell `s` from `t`.  If a hidden action leads to a state that looks the
same, and any other action leads from two states that look the same to two
states that look the same, then a run looks as it does without its hidden
actions. -/
theorem run_erase (hidden : ω → Bool) (usual : ω → Prop) (Inv : σ → Prop)
    (Same : σ → σ → Prop) (hinv : ∀ w s, usual w → Inv s → Inv (step w s))
    (hhidden : ∀ w s t, usual w → hidden w = true → Inv s → Same s t →
      Same (step w s) t)
    (hseen : ∀ w s t, usual w → hidden w = false → Same s t →
      Same (step w s) (step w t)) :
    ∀ (ws : List ω) (s t : σ), (∀ w ∈ ws, usual w) → Inv s → Same s t →
      Same (run step s ws) (run step t (ws.filter fun w => !hidden w)) := by
  intro ws
  induction ws with
  | nil => intro s t _ _ hst; exact hst
  | cons w ws ih =>
      intro s t husual hs hst
      have hw : usual w := husual w List.mem_cons_self
      have hrest : ∀ v ∈ ws, usual v := fun v hv =>
        husual v (List.mem_cons_of_mem _ hv)
      have hnext : Inv (step w s) := hinv w s hw hs
      cases hkind : hidden w with
      | true =>
          rw [List.filter_cons_of_neg (by simp [hkind])]
          exact ih (step w s) t hrest hnext (hhidden w s t hw hkind hs hst)
      | false =>
          rw [List.filter_cons_of_pos (by simp [hkind])]
          exact ih (step w s) (step w t) hrest hnext
            (hseen w s t hw hkind hst)

/-! ## What the parties have sent -/

/-- If one party of many sends something more, then so have all together. -/
theorem flatMap_set_perm {α β : Type} {f : α → List β} {a b : α}
    {new : List β} (hf : f b = new ++ f a) :
    ∀ {as : List α} {i : Nat}, as[i]? = some a →
      ((as.set i b).flatMap f).Perm (as.flatMap f ++ new) := by
  intro as
  induction as with
  | nil => intro i h; simp at h
  | cons c as ih =>
      intro i h
      cases i with
      | zero =>
          cases h
          rw [List.set_cons_zero, List.flatMap_cons, List.flatMap_cons, hf,
            List.append_assoc]
          exact List.perm_append_comm
      | succ i =>
          rw [List.set_cons_succ, List.flatMap_cons, List.flatMap_cons,
            List.append_assoc]
          exact (ih h).append_left (f c)

end Runs
