import Mathlib.Tactic.Tauto

/-!
# Runs of a deterministic step function

A program that waits for the outside world is a function `step` from the
world's answers and the current state to the next state.  A run folds it over
a list of answers, so "every reachable state" is "the state after every list".

`Meets ok s ws` says that each step of the run from `s` is taken in a state,
and with answers, that `ok` allows.  `run_invariant` is the induction that
turns a step lemma into a statement about runs.

A state that keeps a record of what happened, latest first, lets a statement
about the order of events be one about a list: `Preceded P` says that each
entry was made over a record that `P` allows.
-/

namespace Runs

variable {σ ω : Type} (step : ω → σ → σ)

/-- The state after the answers `ws`, from `s`. -/
def run (s : σ) : List ω → σ
  | [] => s
  | w :: ws => run (step w s) ws

/-- Every step of the run from `s` is allowed by `ok`. -/
def Meets (ok : ω → σ → Prop) (s : σ) : List ω → Prop
  | [] => True
  | w :: ws => ok w s ∧ Meets ok (step w s) ws

instance Meets.decidable (ok : ω → σ → Prop) [∀ w s, Decidable (ok w s)]
    (s : σ) (ws : List ω) : Decidable (Meets step ok s ws) :=
  match ws with
  | [] => isTrue True.intro
  | w :: rest =>
      have := Meets.decidable ok (step w s) rest
      inferInstanceAs (Decidable (ok w s ∧ Meets step ok (step w s) rest))

variable {step}

/-- A run goes on where another has ended. -/
theorem run_append (s : σ) (ws vs : List ω) :
    run step s (ws ++ vs) = run step (run step s ws) vs := by
  induction ws generalizing s with
  | nil => rfl
  | cons w ws ih => exact ih (step w s)

/-- **Invariants of runs.**  What every allowed step preserves holds in every
state that allowed steps reach. -/
theorem run_invariant {ok : ω → σ → Prop} (Inv : σ → Prop)
    (hstep : ∀ w s, ok w s → Inv s → Inv (step w s)) :
    ∀ (ws : List ω) (s : σ), Meets step ok s ws → Inv s →
      Inv (run step s ws) := by
  intro ws
  induction ws with
  | nil => intro s _ hs; exact hs
  | cons w ws ih =>
      intro s hmeets hs
      exact ih (step w s) hmeets.2 (hstep w s hmeets.1 hs)

/-- No demand on the steps is met by every run. -/
theorem Meets.trivial (s : σ) (ws : List ω) :
    Meets step (fun _ _ => True) s ws := by
  induction ws generalizing s with
  | nil => exact True.intro
  | cons w ws ih => exact ⟨True.intro, ih _⟩

/-- A weaker demand on the steps is met by the same runs. -/
theorem Meets.mono {ok ok' : ω → σ → Prop}
    (h : ∀ w s, ok w s → ok' w s) :
    ∀ (ws : List ω) (s : σ), Meets step ok s ws → Meets step ok' s ws := by
  intro ws
  induction ws with
  | nil => intro _ _; exact True.intro
  | cons w ws ih =>
      intro s hmeets
      exact ⟨h w s hmeets.1, ih (step w s) hmeets.2⟩

/-- What the invariant and a demand imply of each step is met by the run. -/
theorem Meets.of_invariant {ok ok' : ω → σ → Prop} (Inv : σ → Prop)
    (hstep : ∀ w s, ok w s → Inv s → Inv (step w s))
    (himp : ∀ w s, ok w s → Inv s → ok' w s) :
    ∀ (ws : List ω) (s : σ), Meets step ok s ws → Inv s →
      Meets step ok' s ws := by
  intro ws
  induction ws with
  | nil => intro _ _ _; exact True.intro
  | cons w ws ih =>
      intro s hmeets hs
      exact ⟨himp w s hmeets.1 hs,
        ih (step w s) hmeets.2 (hstep w s hmeets.1 hs)⟩

/-- **Runs into a trap.**  When bad states are never left, and a step from a
good state that keeps the invariant leads to a good one exactly when it is
allowed, a run ends in a good state exactly when each of its steps is
allowed. -/
theorem run_avoids_iff_of_invariant {ok : ω → σ → Prop} (Inv Bad : σ → Prop)
    (usual : ω → Prop) (hinv : ∀ w s, Inv s → Inv (step w s))
    (htrap : ∀ w s, Bad s → Bad (step w s))
    (hstep : ∀ w s, usual w → Inv s → ¬ Bad s →
      (¬ Bad (step w s) ↔ ok w s)) :
    ∀ (ws : List ω) (s : σ), (∀ w ∈ ws, usual w) → Inv s → ¬ Bad s →
      (¬ Bad (run step s ws) ↔ Meets step ok s ws) := by
  have hstay : ∀ (ws : List ω) (s : σ), Bad s → Bad (run step s ws) := by
    intro ws
    induction ws with
    | nil => intro s hs; exact hs
    | cons w ws ih => intro s hs; exact ih _ (htrap w s hs)
  intro ws
  induction ws with
  | nil => intro s _ _ hs; exact iff_of_true hs True.intro
  | cons w ws ih =>
      intro s husual hkept hs
      have hfirst := hstep w s (husual w List.mem_cons_self) hkept hs
      by_cases hbad : Bad (step w s)
      · refine iff_of_false ?_ ?_
        · exact not_not_intro (hstay ws _ hbad)
        · exact fun hmeets => hfirst.mpr hmeets.1 hbad
      · have hrest := ih (step w s)
          (fun w hw => husual w (List.mem_cons_of_mem _ hw))
          (hinv w s hkept) hbad
        exact hrest.trans
          ⟨fun hmeets => ⟨hfirst.mp hbad, hmeets⟩, And.right⟩

/-- The same where no invariant is needed. -/
theorem run_avoids_iff {ok : ω → σ → Prop} (Bad : σ → Prop)
    (usual : ω → Prop) (htrap : ∀ w s, Bad s → Bad (step w s))
    (hstep : ∀ w s, usual w → ¬ Bad s → (¬ Bad (step w s) ↔ ok w s))
    (ws : List ω) (s : σ) (husual : ∀ w ∈ ws, usual w) (hs : ¬ Bad s) :
    ¬ Bad (run step s ws) ↔ Meets step ok s ws :=
  run_avoids_iff_of_invariant (fun _ => True) Bad usual
    (fun _ _ _ => True.intro) htrap (fun w s hw _ => hstep w s hw) ws s
    husual True.intro hs

/-! ## Faults that a later step clears -/

/-- A step sets the fault and no later step clears it. -/
def SetForGood (step : ω → σ → σ) (sets clears : ω → σ → Prop) (s : σ) :
    List ω → Prop
  | [] => False
  | w :: ws =>
      (sets w s ∧ Meets step (fun w s => ¬ clears w s) (step w s) ws) ∨
        SetForGood step sets clears (step w s) ws

/-- **Faults of runs.**  When a step leads to a fault exactly by setting it or
by not clearing it, a run ends in a fault exactly when a step has set it for
good, or when it was there and no step clears it. -/
theorem run_fault_iff {sets clears : ω → σ → Prop} (Inv Fault : σ → Prop)
    (hinv : ∀ w s, Inv s → Inv (step w s))
    (hstep : ∀ w s, Inv s →
      (Fault (step w s) ↔ sets w s ∨ (Fault s ∧ ¬ clears w s))) :
    ∀ (ws : List ω) (s : σ), Inv s →
      (Fault (run step s ws) ↔ SetForGood step sets clears s ws ∨
        (Fault s ∧ Meets step (fun w s => ¬ clears w s) s ws)) := by
  intro ws
  induction ws with
  | nil =>
      intro s _
      exact ⟨fun h => .inr ⟨h, True.intro⟩,
        fun h => (h.resolve_left id).1⟩
  | cons w ws ih =>
      intro s hs
      have hrest := ih (step w s) (hinv w s hs)
      rw [hstep w s hs] at hrest
      rw [run, hrest, SetForGood, Meets]
      tauto

/-! ## What a run has come past -/

/-- `P` holds in a state that the run from `s` comes past. -/
def Passed (step : ω → σ → σ) (P : σ → Prop) (s : σ) (ws : List ω) : Prop :=
  ∃ before rest, ws = before ++ rest ∧ P (run step s before)

/-- **Evidence.**  If a step comes to evidence only from evidence or from or
to a state where `P` holds, then a run that ends in evidence without having
started from it has come past such a state. -/
theorem passed_of_evidence (P Evidence : σ → Prop)
    (hstep : ∀ w s, Evidence (step w s) →
      Evidence s ∨ P s ∨ P (step w s)) :
    ∀ (ws : List ω) (s : σ), Evidence (run step s ws) →
      Evidence s ∨ Passed step P s ws := by
  intro ws
  induction ws with
  | nil => intro s h; exact .inl h
  | cons w ws ih =>
      intro s h
      rcases ih (step w s) h with hnow | ⟨before, rest, heq, hlater⟩
      · rcases hstep w s hnow with hs | hs | hs
        · exact .inl hs
        · exact .inr ⟨[], w :: ws, rfl, hs⟩
        · exact .inr ⟨[w], ws, rfl, hs⟩
      · exact .inr ⟨w :: before, rest, by rw [heq, List.cons_append], hlater⟩

/-! ## Records of a run -/

/-- What the steps of the run from `s` take in, in order. -/
def collect {α : Type} (step : ω → σ → σ) (taken : ω → σ → List α) (s : σ) :
    List ω → List α
  | [] => []
  | w :: ws => taken w s ++ collect step taken (step w s) ws

/-- **Invariants of what is taken in.**  What every allowed step preserves,
with what it takes in added to what was taken in before, holds of every run of
allowed steps. -/
theorem collect_invariant {α : Type} {ok : ω → σ → Prop}
    {taken : ω → σ → List α} (Inv : List α → σ → Prop)
    (hstep : ∀ w s acc, ok w s → Inv acc s →
      Inv (acc ++ taken w s) (step w s)) :
    ∀ (ws : List ω) (s : σ) (acc : List α), Meets step ok s ws →
      Inv acc s → Inv (acc ++ collect step taken s ws) (run step s ws) := by
  intro ws
  induction ws with
  | nil =>
      intro s acc _ hs
      rw [collect, List.append_nil]
      exact hs
  | cons w ws ih =>
      intro s acc hmeets hs
      rw [collect, ← List.append_assoc]
      exact ih (step w s) _ hmeets.2 (hstep w s acc hmeets.1 hs)

/-- Each entry was made over a record that `P` allows for it. -/
def Preceded {ε : Type} (P : ε → List ε → Prop) : List ε → Prop
  | [] => True
  | e :: log => P e log ∧ Preceded P log

/-- What is true of an entry and the record before it, wherever it stands. -/
theorem Preceded.of_split {ε : Type} {P : ε → List ε → Prop} {e : ε}
    {earlier : List ε} :
    ∀ {later : List ε}, Preceded P (later ++ e :: earlier) → P e earlier := by
  intro later
  induction later with
  | nil => intro h; exact h.1
  | cons a later ih => intro h; exact ih h.2

end Runs
