import Mathlib.Data.List.Basic

/-!
# Lists cut at separators

A predicate calls some elements separators.  The words of a list are its
maximal pieces without a separator, as a splitter of blank-separated fields
returns them.

* `words_append_sep` cuts at one separator, and `words_seps`, `words_word` and
  `words_word_gap` read the words of a list off the way it was put together;
* `of_mem_words` and `mem_splitOnP` say what a word can hold;
* `head?_dropWhile` finds the first word by skipping leading separators.
-/

namespace Splitting

variable {α : Type} {p : α → Bool}

/-- A character is in one of the pieces when it is in the list and does not
split it. -/
theorem mem_splitOnP {c : α} :
    ∀ xs : List α, (∃ piece ∈ xs.splitOnP p, c ∈ piece) ↔
      c ∈ xs ∧ p c = false := by
  intro xs
  induction xs with
  | nil => simp
  | cons x xs ih =>
      rw [List.splitOnP_cons_eq_if_modifyHead]
      by_cases hx : p x = true
      · rw [if_pos hx, List.exists_mem_cons_iff, ih, List.mem_cons]
        constructor
        · rintro (h | ⟨hmem, hc⟩)
          · exact nomatch h
          · exact ⟨.inr hmem, hc⟩
        · rintro ⟨rfl | hmem, hc⟩
          · rw [hx] at hc
            cases hc
          · exact .inr ⟨hmem, hc⟩
      · cases hsplit : xs.splitOnP p with
        | nil => exact absurd hsplit (List.splitOnP_ne_nil _ _)
        | cons piece rest =>
            rw [hsplit, List.exists_mem_cons_iff] at ih
            rw [if_neg hx, List.modifyHead_cons, List.exists_mem_cons_iff,
              List.mem_cons, List.mem_cons, or_assoc, ih, or_and_right]
            refine or_congr_left ?_
            rw [Bool.not_eq_true] at hx
            exact ⟨fun h => ⟨h, h ▸ hx⟩, And.left⟩

/-- The non-empty pieces between separators. -/
def words (p : α → Bool) (xs : List α) : List (List α) :=
  (xs.splitOnP p).filter (· ≠ [])

/-- There is no word in an empty text. -/
@[simp] theorem words_nil : words p [] = [] := by
  simp [words]

/-- **Words end at a separator.**  The other equations follow from this
one. -/
theorem words_append_sep (xs : List α) {s : α} (hs : p s = true)
    (ys : List α) : words p (xs ++ s :: ys) = words p xs ++ words p ys := by
  simp [words, List.splitOnP_append_cons xs ys hs]

/-- A separator at the end changes no word. -/
theorem words_concat_sep (xs : List α) {s : α} (hs : p s = true) :
    words p (xs ++ [s]) = words p xs := by
  rw [words_append_sep xs hs, words_nil, List.append_nil]

/-- Leading separators start no word. -/
theorem words_seps {seps : List α} (hseps : ∀ s ∈ seps, p s = true)
    (xs : List α) : words p (seps ++ xs) = words p xs := by
  induction seps with
  | nil => rfl
  | cons s seps ih =>
      have hs : words p (s :: (seps ++ xs)) = words p (seps ++ xs) :=
        words_append_sep [] (hseps s List.mem_cons_self) _
      rw [List.cons_append, hs]
      exact ih (fun s' hs' => hseps s' (List.mem_cons_of_mem _ hs'))

/-- A list without separators is one word. -/
theorem words_word {w : List α} (hne : w ≠ [])
    (hw : ∀ c ∈ w, p c = false) : words p w = [w] := by
  simp [words, List.splitOnP_eq_singleton hw, hne]

/-- A word ends at a gap of separators. -/
theorem words_word_gap {w : List α} (hne : w ≠ [])
    (hw : ∀ c ∈ w, p c = false) {gap : List α} (hgap : gap ≠ [])
    (hseps : ∀ s ∈ gap, p s = true) (xs : List α) :
    words p (w ++ (gap ++ xs)) = w :: words p xs := by
  cases gap with
  | nil => exact absurd rfl hgap
  | cons s gap =>
      rw [List.cons_append, words_append_sep w (hseps s List.mem_cons_self),
        words_word hne hw,
        words_seps (fun s' hs' => hseps s' (List.mem_cons_of_mem _ hs'))]
      rfl

/-- A word is not empty, and its characters are characters of the list that do
not separate. -/
theorem of_mem_words {w xs : List α} (h : w ∈ words p xs) :
    w ≠ [] ∧ ∀ c ∈ w, c ∈ xs ∧ p c = false := by
  obtain ⟨hmem, hne⟩ := List.mem_filter.mp h
  have hchars : ∀ c ∈ w, c ∈ xs ∧ p c = false := fun c hc =>
    (mem_splitOnP xs).mp ⟨w, hmem, hc⟩
  exact ⟨of_decide_eq_true hne, hchars⟩

/-- Behind the leading separators the first word begins. -/
theorem head?_dropWhile (xs : List α) :
    (xs.dropWhile p).head? = (words p xs).head?.bind List.head? := by
  induction xs with
  | nil => simp
  | cons x xs ih =>
      by_cases hx : p x = true
      · have hsep : words p (x :: xs) = words p xs :=
          words_append_sep [] hx xs
        rw [List.dropWhile_cons_of_pos hx, ih, hsep]
      · rw [List.dropWhile_cons_of_neg hx, List.head?_cons]
        cases hsplit : xs.splitOnP p with
        | nil => exact absurd hsplit (List.splitOnP_ne_nil _ _)
        | cons piece rest =>
            simp [words, List.splitOnP_cons_eq_if_modifyHead, hx, hsplit]

end Splitting
