import Mathlib.Data.Finset.Basic

/-!
# Settings read from left to right

A toggle switches some settings off and some on.  Along a list of toggles a
later one overrides an earlier one, so a setting is on at the end when some
toggle switched it on and none after it switched it off.
-/

namespace Toggles

variable {α : Type} [DecidableEq α]

/-- What is switched off, and then what is switched on. -/
structure Toggle (α : Type) where
  off : Finset α
  on : Finset α
  deriving DecidableEq

/-- A toggle that switches nothing off. -/
def Toggle.switchOn (on : Finset α) : Toggle α := ⟨∅, on⟩

/-- A toggle that switches nothing on. -/
def Toggle.switchOff (off : Finset α) : Toggle α := ⟨off, ∅⟩

/-- A toggle without effect. -/
def Toggle.idle : Toggle α := ⟨∅, ∅⟩

/-- The settings after one toggle. -/
def apply (s : Finset α) (t : Toggle α) : Finset α := (s \ t.off) ∪ t.on

/-- The settings after a list of toggles. -/
def applyAll (s : Finset α) (ts : List (Toggle α)) : Finset α :=
  ts.foldl apply s

/-- To switch flags on is to add them. -/
@[simp] theorem apply_switchOn (s on : Finset α) :
    apply s (.switchOn on) = s ∪ on := by
  simp [apply, Toggle.switchOn]

/-- An idle option changes no flag. -/
@[simp] theorem apply_idle (s : Finset α) : apply s .idle = s := by
  simp [apply, Toggle.idle]

/-- A flag is on after an option that has it on, or that does not have it off
if it was on. -/
theorem mem_apply {s : Finset α} {t : Toggle α} {a : α} :
    a ∈ apply s t ↔ (a ∈ s ∧ a ∉ t.off) ∨ a ∈ t.on := by
  simp [apply]

/-- **The last word on a setting.**  It is on at the end when a toggle with no
toggle against it behind it switched it on, or when it was on at first and
nothing switched it off. -/
theorem mem_applyAll {a : α} {ts : List (Toggle α)} {s : Finset α} :
    a ∈ applyAll s ts ↔
      (∃ front t back, ts = front ++ t :: back ∧ a ∈ t.on ∧
        ∀ u ∈ back, a ∉ u.off) ∨
      (a ∈ s ∧ ∀ t ∈ ts, a ∉ t.off) := by
  induction ts generalizing s with
  | nil => simp [applyAll]
  | cons t ts ih =>
      have hstep : applyAll s (t :: ts) = applyAll (apply s t) ts := rfl
      rw [hstep, ih, mem_apply]
      constructor
      · rintro (⟨front, u, back, rfl, hon, hoff⟩ | ⟨⟨hs, hno⟩ | hon, hoff⟩)
        · exact .inl ⟨t :: front, u, back, rfl, hon, hoff⟩
        · exact .inr ⟨hs, List.forall_mem_cons.mpr ⟨hno, hoff⟩⟩
        · exact .inl ⟨[], t, ts, rfl, hon, hoff⟩
      · rintro (⟨front, u, back, hsplit, hon, hoff⟩ | ⟨hs, hoff⟩)
        · cases front with
          | nil =>
              obtain ⟨rfl, rfl⟩ := List.cons.inj hsplit
              exact .inr ⟨.inr hon, hoff⟩
          | cons v front =>
              obtain ⟨-, rfl⟩ := List.cons.inj hsplit
              exact .inl ⟨front, u, back, rfl, hon, hoff⟩
        · obtain ⟨hno, hrest⟩ := List.forall_mem_cons.mp hoff
          exact .inr ⟨.inl ⟨hs, hno⟩, hrest⟩

/-- A setting that no toggle switches off is on as soon as one switches it
on. -/
theorem mem_applyAll_of_no_off {a : α} {ts : List (Toggle α)} {s : Finset α}
    (h : ∀ t ∈ ts, a ∉ t.off) :
    a ∈ applyAll s ts ↔ a ∈ s ∨ ∃ t ∈ ts, a ∈ t.on := by
  rw [mem_applyAll]
  constructor
  · rintro (⟨front, t, back, rfl, hon, -⟩ | ⟨hs, -⟩)
    · exact .inr ⟨t, by simp, hon⟩
    · exact .inl hs
  · rintro (hs | ⟨t, ht, hon⟩)
    · exact .inr ⟨hs, h⟩
    · obtain ⟨front, back, rfl⟩ := List.append_of_mem ht
      exact .inl ⟨front, t, back, rfl, hon, fun u hu => h u (by simp [hu])⟩

end Toggles
