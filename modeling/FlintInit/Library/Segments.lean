import Mathlib.Data.List.Basic

/-!
# Resolving a path segment by segment

A path is a list of segments read from the root: some stand for the directory
already reached, some for the one above it, and every other segment enters a
directory.  Resolving keeps the stack of directories entered, and going up
from the root stays there.
-/

namespace Segments

variable {σ : Type} {skip up : σ → Bool}

/-- The stack after one more segment. -/
def enter (skip up : σ → Bool) (stack : List σ) (seg : σ) : List σ :=
  if skip seg then stack
  else if up seg then stack.dropLast
  else stack ++ [seg]

/-- The directories entered on the way from the root. -/
def resolve (skip up : σ → Bool) (segs : List σ) : List σ :=
  segs.foldl (enter skip up) []

/-- From any stack on, segments that never go up add those not skipped. -/
theorem foldl_enter_of_no_up {segs : List σ} (h : ∀ s ∈ segs, up s = false)
    (stack : List σ) :
    segs.foldl (enter skip up) stack =
      stack ++ segs.filter (fun s => !skip s) := by
  induction segs generalizing stack with
  | nil => simp
  | cons s segs ih =>
      have hs : up s = false := h s List.mem_cons_self
      rw [List.foldl_cons,
        ih (fun s' hs' => h s' (List.mem_cons_of_mem _ hs'))]
      by_cases hskip : skip s = true
      · simp [enter, hskip]
      · simp [enter, hskip, hs]

/-- **A path that never goes up** resolves to its segments, those skipped left
out. -/
theorem resolve_of_no_up {segs : List σ} (h : ∀ s ∈ segs, up s = false) :
    resolve skip up segs = segs.filter (fun s => !skip s) :=
  foldl_enter_of_no_up h []

/-- What is entered is one of the segments, and enters a directory. -/
theorem mem_resolve {segs : List σ} {s : σ} (h : s ∈ resolve skip up segs) :
    s ∈ segs ∧ skip s = false ∧ up s = false := by
  have hall : ∀ (rest stack : List σ),
      s ∈ rest.foldl (enter skip up) stack →
      s ∈ stack ∨ s ∈ rest ∧ skip s = false ∧ up s = false := by
    intro rest
    induction rest with
    | nil => intro stack hs; exact .inl hs
    | cons seg rest ih =>
        intro stack hs
        rcases ih _ hs with hstack | ⟨hrest, hends⟩
        · rw [enter] at hstack
          split at hstack
          · exact .inl hstack
          · split at hstack
            · exact .inl (List.dropLast_subset stack hstack)
            · rename_i hskip hup
              rcases List.mem_append.mp hstack with hold | hnew
              · exact .inl hold
              · rw [List.mem_singleton.mp hnew]
                exact .inr ⟨List.mem_cons_self, Bool.eq_false_iff.mpr hskip,
                  Bool.eq_false_iff.mpr hup⟩
        · exact .inr ⟨List.mem_cons_of_mem _ hrest, hends⟩
  rcases hall segs [] h with hnil | hseg
  · cases hnil
  · exact hseg

end Segments
