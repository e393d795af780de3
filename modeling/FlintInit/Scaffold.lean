import FlintInit.Text
import Mathlib.Tactic.ByContra

/-!
# The foreground flag of a scaffold

`detect_foreground_flag` takes the first of its flags that occurs anywhere in
the `--help` text, also inside a longer option: every text with `--config-file`
contains `-f`.  A flag is documented where it stands as a whole token.  Which
characters are letters and digits is a parameter, so the result holds for any
alphabet.
-/

namespace FlintInit

/-- `FOREGROUND_FLAGS`. -/
def foregroundFlags : List String :=
  ["--foreground", "--no-daemon", "--nodaemon", "--no-fork", "--nofork", "-f"]

/-- Scan `--help` output for a foreground flag. -/
def detectForegroundFlag (helpOutput : String) : Option String :=
  foregroundFlags.find? (contains helpOutput)

/-! ## Where a text contains a string -/

/-- To occur is to stand somewhere between two other parts of the text. -/
theorem occursIn_iff {pat : List Char} :
    ∀ {text : List Char}, occursIn pat text = true ↔
      ∃ before after, text = before ++ (pat ++ after) := by
  intro text
  induction text with
  | nil =>
      rw [occursIn, List.isPrefixOf_iff_prefix]
      constructor
      · rintro ⟨after, h⟩
        exact ⟨[], after, h.symm⟩
      · rintro ⟨before, after, h⟩
        exact ⟨after, (List.append_eq_nil_iff.mp h.symm).2⟩
  | cons c text ih =>
      rw [occursIn, Bool.or_eq_true, ih, List.isPrefixOf_iff_prefix]
      constructor
      · rintro (⟨after, h⟩ | ⟨before, after, rfl⟩)
        · exact ⟨[], after, h.symm⟩
        · exact ⟨c :: before, after, rfl⟩
      · rintro ⟨before, after, h⟩
        cases before with
        | nil => exact .inl ⟨after, h.symm⟩
        | cons b before =>
            exact .inr ⟨before, after, (List.cons.inj h).2⟩

section Tokens

variable (alphanumeric : Char → Bool) (help : String)

/-- Letters, digits and hyphens: the characters an option goes on with. -/
def inToken (c : Char) : Bool := alphanumeric c || c == '-'

/-- The text has the flag as a whole token. -/
def Documents (flag : String) : Prop :=
  ∃ before after, help.toList = before ++ (flag.toList ++ after) ∧
    (∀ c ∈ before.getLast?, inToken alphanumeric c = false) ∧
    ∀ c ∈ after.head?, inToken alphanumeric c = false

/-- A flag is looked for at each position of the text. -/
theorem documents_iff {flag : String} :
    Documents alphanumeric help flag ↔
      ∃ i ∈ List.range (help.toList.length + 1),
        flag.toList.isPrefixOf (help.toList.drop i) = true ∧
        (help.toList.take i).getLast?.all (!inToken alphanumeric ·) = true ∧
        (help.toList.drop (i + flag.toList.length)).head?.all
          (!inToken alphanumeric ·) = true := by
  simp only [Option.all_eq_true, Bool.not_eq_true']
  constructor
  · rintro ⟨before, after, htext, hbefore, hafter⟩
    refine ⟨before.length, ?_, ?_, ?_, ?_⟩
    · rw [htext, List.mem_range, List.length_append]
      omega
    · rw [htext, List.drop_left, List.isPrefixOf_iff_prefix]
      exact List.prefix_append _ _
    · rw [htext, List.take_left]
      exact hbefore
    · rw [htext, ← List.drop_drop, List.drop_left, List.drop_left]
      exact hafter
  · rintro ⟨i, -, hstart, hbefore, hafter⟩
    obtain ⟨after, hsplit⟩ := List.isPrefixOf_iff_prefix.mp hstart
    have hrest : help.toList.drop (i + flag.toList.length) = after := by
      rw [← List.drop_drop, ← hsplit, List.drop_left]
    rw [hrest] at hafter
    refine ⟨help.toList.take i, after, ?_, hbefore, hafter⟩
    rw [hsplit, List.take_append_drop]

instance (flag : String) : Decidable (Documents alphanumeric help flag) :=
  decidable_of_iff _ (documents_iff alphanumeric help).symm

/-- The pick is the first documented flag, and one is picked when one is
documented. -/
structure PicksDocumented : Prop where
  picked : ∀ flag, detectForegroundFlag help = some flag →
    Documents alphanumeric help flag ∧
    ∃ earlier later, foregroundFlags = earlier ++ flag :: later ∧
      ∀ other ∈ earlier, ¬ Documents alphanumeric help other
  found : ∀ flag ∈ foregroundFlags, Documents alphanumeric help flag →
    detectForegroundFlag help ≠ none

/-- Every flag that occurs only inside longer words stands behind a
documented one in the list. -/
def Outranked : Prop :=
  ∀ earlier flag later, foregroundFlags = earlier ++ flag :: later →
    contains help flag = true → ¬ Documents alphanumeric help flag →
    ∃ other ∈ earlier, Documents alphanumeric help other

variable {alphanumeric help}

/-- A flag that is documented as a word of its own is found by the substring
test. -/
theorem contains_of_documents {flag : String}
    (h : Documents alphanumeric help flag) : contains help flag = true := by
  obtain ⟨before, after, htext, -⟩ := h
  exact occursIn_iff.mpr ⟨before, after, htext⟩

/-- **When the pick is a documented flag.**  The scan finds the first
documented flag exactly when no flag that is part of longer words only comes
before all documented ones. -/
theorem foreground_flag_documented_iff (alphanumeric : Char → Bool)
    (help : String) :
    PicksDocumented alphanumeric help ↔ Outranked alphanumeric help := by
  constructor
  · intro hpicks earlier flag later hsplit hin hnot
    cases hearlier : earlier.find? (contains help) with
    | none =>
        -- nothing before it occurs, so the scan takes this flag
        have hpick : detectForegroundFlag help = some flag := by
          unfold detectForegroundFlag
          rw [hsplit, List.find?_append, hearlier, Option.none_or,
            List.find?_cons_of_pos hin]
        exact absurd (hpicks.picked flag hpick).1 hnot
    | some other =>
        have hpick : detectForegroundFlag help = some other := by
          unfold detectForegroundFlag
          rw [hsplit, List.find?_append, hearlier, Option.some_or]
        exact ⟨other, List.mem_of_find?_eq_some hearlier,
          (hpicks.picked other hpick).1⟩
  · intro hrank
    constructor
    · intro flag hpick
      obtain ⟨hin, earlier, later, hsplit, hnone⟩ :=
        List.find?_eq_some_iff_append.mp hpick
      have habsent : ∀ other ∈ earlier,
          ¬ Documents alphanumeric help other := by
        intro other hother hdoc
        have hno := hnone other hother
        rw [contains_of_documents hdoc] at hno
        cases hno
      refine ⟨?_, earlier, later, hsplit, habsent⟩
      by_contra hnot
      obtain ⟨other, hother, hdoc⟩ := hrank earlier flag later hsplit hin hnot
      exact habsent other hother hdoc
    · intro flag hmem hdoc hnone
      have hno := List.find?_eq_none.mp hnone flag hmem
      exact hno (contains_of_documents hdoc)

end Tokens

/-- `-f` is part of `--config-file`, and the scan picks it. -/
theorem config_file_picks_f :
    ¬ PicksDocumented Char.isAlphanum "  --config-file PATH\n" := by
  intro h
  have hpick : detectForegroundFlag "  --config-file PATH\n" = some "-f" := by
    decide
  exact absurd (h.picked "-f" hpick).1 (by decide)

end FlintInit
