import FlintInit.Library.Runs
import Mathlib.Logic.Function.Basic

/-!
# Replacing a file

A file is replaced by writing its new text to a temporary file, in pieces, and
renaming that file.  Files are numbered; a name leads to a number, and a file
that is open stays open whatever becomes of its name.  Any number of writers
use the same two names, each takes its own steps, and a writer may give up
anywhere.

`Tidy` is kept as long as a writer opens the temporary file only while no other
has it open:

* `content_step`, `content_rename`: the text under the target's name changes
  only when a writer that has written all of its text renames the file, and it
  changes to that text, so that the target is a register that is set at once;
* `sealed_step`: a file that is not being written is never written again,
  so who has opened the target reads one text from beginning to end.
-/

namespace Replacement

/-- What the numbers hold, the next number that is free, and where the two
names lead. -/
structure Folder (α : Type) where
  data : Nat → List α
  next : Nat
  tmp : Option Nat
  target : Option Nat

/-- What is written at a place in a file; beyond its end there is nothing. -/
def overlay {α : Type} [Inhabited α] (old : List α) (offset : Nat)
    (piece : List α) : List α :=
  old.take offset ++ List.replicate (offset - old.length) default ++ piece ++
    old.drop (offset + piece.length)

/-- A piece written at the end of a file is appended to it. -/
theorem overlay_end {α : Type} [Inhabited α] (old piece : List α) :
    overlay old old.length piece = old ++ piece := by
  simp [overlay]

namespace Folder

variable {α : Type}

/-- The text under the target's name. -/
def content (f : Folder α) : Option (List α) := f.target.map f.data

/-- The number of the temporary file, once it is opened. -/
def scratch (f : Folder α) : Nat := f.tmp.getD f.next

/-- Open the temporary file for writing; it is made or emptied. -/
def create (f : Folder α) : Folder α where
  data := Function.update f.data f.scratch []
  next := max f.next (f.scratch + 1)
  tmp := some f.scratch
  target := f.target

/-- Write a piece of a file. -/
def put [Inhabited α] (f : Folder α) (file offset : Nat) (piece : List α) :
    Folder α :=
  { f with data :=
      Function.update f.data file (overlay (f.data file) offset piece) }

/-- Rename the temporary file, if there is one. -/
def rename (f : Folder α) : Option (Folder α) :=
  f.tmp.map fun n => { f with tmp := none, target := some n }

end Folder

/-- A writer has the temporary file open, with some of its text written. -/
inductive Writer (α : Type) where
  | idle
  | writing (file : Nat) (sent rest : List α)

structure State (ι α : Type) where
  folder : Folder α
  writers : ι → Writer α

inductive Action (ι α : Type) where
  | create (i : ι) (text : List α)
  | put (i : ι) (k : Nat)
  | rename (i : ι)
  | drop (i : ι)

variable {ι α : Type} [DecidableEq ι] [Inhabited α]

/-- One step of a writer. -/
def step (action : Action ι α) (s : State ι α) : State ι α :=
  match action with
  | .create i text =>
      match s.writers i with
      | .writing _ _ _ => s
      | .idle =>
          { folder := s.folder.create
            writers := Function.update s.writers i
              (.writing s.folder.scratch [] text) }
  | .put i k =>
      match s.writers i with
      | .idle => s
      | .writing file sent rest =>
          { folder := s.folder.put file sent.length (rest.take k)
            writers := Function.update s.writers i
              (.writing file (sent ++ rest.take k) (rest.drop k)) }
  | .rename i =>
      match s.writers i with
      | .writing _ _ [] =>
          { folder := s.folder.rename.getD s.folder
            writers := Function.update s.writers i .idle }
      | _ => s
  | .drop i => { s with writers := Function.update s.writers i .idle }

/-- A writer that is idle opens the temporary file, made anew or emptied. -/
theorem step_create {i : ι} {s : State ι α} (h : s.writers i = .idle)
    (text : List α) :
    step (.create i text) s = ⟨s.folder.create,
      Function.update s.writers i (.writing s.folder.scratch [] text)⟩ := by
  simp [step, h]

/-- A writer goes on with the next piece, in the file that it has open. -/
theorem step_put {i : ι} {s : State ι α} {file : Nat} {sent rest : List α}
    (h : s.writers i = .writing file sent rest) (k : Nat) :
    step (.put i k) s = ⟨s.folder.put file sent.length (rest.take k),
      Function.update s.writers i
        (.writing file (sent ++ rest.take k) (rest.drop k))⟩ := by
  simp [step, h]

/-- A writer that has written everything gives the temporary file the name of
the target. -/
theorem step_rename {i : ι} {s : State ι α} {file : Nat} {sent : List α}
    (h : s.writers i = .writing file sent []) :
    step (.rename i) s = ⟨s.folder.rename.getD s.folder,
      Function.update s.writers i .idle⟩ := by
  simp [step, h]

/-- A writer opens the temporary file only while no other has it open. -/
def Alone (action : Action ι α) (s : State ι α) : Prop :=
  match action with
  | .create _ _ => ∀ j, s.writers j = .idle
  | _ => True

/-- The text that an action begins to write satisfies `Whole`. -/
def Begins (Whole : List α → Prop) : Action ι α → Prop
  | .create _ text => Whole text
  | _ => True

/-- What is kept: at most one writer has the temporary file open, which holds
what that writer has written, and the target is another file. -/
structure Tidy (Whole : List α → Prop) (s : State ι α) : Prop where
  bounded : ∀ n, s.folder.tmp = some n ∨ s.folder.target = some n →
    n < s.folder.next
  apart : ∀ n, s.folder.tmp = some n → s.folder.target ≠ some n
  whole : ∀ text, s.folder.content = some text → Whole text
  alone : ∀ i j, s.writers i ≠ .idle → s.writers j ≠ .idle → i = j
  writing : ∀ i file sent rest, s.writers i = .writing file sent rest →
    s.folder.tmp = some file ∧ s.folder.data file = sent ∧ Whole (sent ++ rest)

omit [DecidableEq ι] [Inhabited α] in
/-- A weaker demand on the texts is met as well. -/
theorem Tidy.mono {Whole Whole' : List α → Prop} {s : State ι α}
    (h : Tidy Whole s) (himp : ∀ text, Whole text → Whole' text) :
    Tidy Whole' s :=
  ⟨h.bounded, h.apart, fun text htext => himp text (h.whole text htext),
    h.alone, fun i file sent rest hi =>
      ⟨(h.writing i file sent rest hi).1, (h.writing i file sent rest hi).2.1,
        himp _ (h.writing i file sent rest hi).2.2⟩⟩

/-- A file that nobody is writing and that has lost the temporary name. -/
structure Sealed (s : State ι α) (n : Nat) : Prop where
  made : n < s.folder.next
  unnamed : s.folder.tmp ≠ some n
  closed : ∀ i file sent rest, s.writers i = .writing file sent rest →
    file ≠ n

/-- What a step can do. -/
inductive StepCase (s s' : State ι α) : Action ι α → Prop
  | still {action : Action ι α} (hsame : s' = s) : StepCase s s' action
  | created {i : ι} {text : List α} (hidle : s.writers i = .idle)
      (hnext : s' = ⟨s.folder.create,
        Function.update s.writers i (.writing s.folder.scratch [] text)⟩) :
      StepCase s s' (.create i text)
  | wrote {i : ι} {k file : Nat} {sent rest : List α}
      (hwriter : s.writers i = .writing file sent rest)
      (hnext : s' = ⟨s.folder.put file sent.length (rest.take k),
        Function.update s.writers i
          (.writing file (sent ++ rest.take k) (rest.drop k))⟩) :
      StepCase s s' (.put i k)
  | renamed {i : ι} {file n : Nat} {sent : List α}
      (hwriter : s.writers i = .writing file sent [])
      (htmp : s.folder.tmp = some n)
      (hnext : s' = ⟨{ s.folder with tmp := none, target := some n },
        Function.update s.writers i .idle⟩) :
      StepCase s s' (.rename i)
  | dropped {action : Action ι α} {i : ι}
      (hnext : s' = { s with writers := Function.update s.writers i .idle }) :
      StepCase s s' action

/-- **The cases of a step**, with all that is tested. -/
theorem step_cases (action : Action ι α) (s : State ι α) :
    StepCase s (step action s) action := by
  cases action with
  | create i text =>
      unfold step
      dsimp only
      split
      · exact .still rfl
      · exact .created ‹_› rfl
  | put i k =>
      unfold step
      dsimp only
      split
      · exact .still rfl
      · exact .wrote ‹_› rfl
  | rename i =>
      unfold step
      dsimp only
      split
      · rename_i hwriter
        cases htmp : s.folder.tmp with
        | none =>
            refine .dropped (i := i) ?_
            simp [Folder.rename, htmp]
        | some n =>
            refine .renamed hwriter htmp ?_
            simp [Folder.rename, htmp]
      · exact .still rfl
  | drop i => exact .dropped rfl

section Steps

variable {Whole : List α → Prop} {s : State ι α}

omit [DecidableEq ι] [Inhabited α] in
/-- The target can be read. -/
theorem Tidy.sealed (h : Tidy Whole s) {n : Nat}
    (hn : s.folder.target = some n) : Sealed s n := by
  refine ⟨h.bounded n (.inr hn), fun htmp => h.apart n htmp hn, ?_⟩
  rintro i file sent rest hwriter rfl
  exact h.apart file (h.writing i file sent rest hwriter).1 hn

omit [Inhabited α] in
/-- A writer that gives up, or is done, leaves the rest as it is. -/
theorem Tidy.drop (h : Tidy Whole s) (i : ι) :
    Tidy Whole { s with writers := Function.update s.writers i .idle } := by
  have hother : ∀ j, Function.update s.writers i .idle j ≠ .idle →
      Function.update s.writers i .idle j = s.writers j := by
    intro j hj
    rcases eq_or_ne j i with rfl | hne
    · exact absurd (Function.update_self ..) hj
    · exact Function.update_of_ne hne ..
  refine ⟨h.bounded, h.apart, h.whole, ?_, ?_⟩
  · intro j k hj hk
    exact h.alone j k (hother j hj ▸ hj) (hother k hk ▸ hk)
  · intro j file sent rest hj
    have hne : Function.update s.writers i .idle j ≠ .idle := by
      intro hidle
      cases hidle.symm.trans hj
    exact h.writing j file sent rest ((hother j hne).symm.trans hj)

omit [DecidableEq ι] [Inhabited α] in
/-- Only one writer has anything open. -/
theorem Tidy.others_idle (h : Tidy Whole s) {i : ι}
    (hi : s.writers i ≠ .idle) {j : ι} (hj : j ≠ i) : s.writers j = .idle := by
  by_contra hne
  exact hj (h.alone j i hne hi)

omit [Inhabited α] in
/-- One writer goes on while the others are idle. -/
theorem tidy_update {f : Folder α} {i : ι} {w : Writer α}
    (hothers : ∀ j, j ≠ i → s.writers j = .idle)
    (hbounded : ∀ n, f.tmp = some n ∨ f.target = some n → n < f.next)
    (hapart : ∀ n, f.tmp = some n → f.target ≠ some n)
    (hwhole : ∀ text, f.content = some text → Whole text)
    (hwriting : ∀ file sent rest, w = .writing file sent rest →
      f.tmp = some file ∧ f.data file = sent ∧ Whole (sent ++ rest)) :
    Tidy Whole ⟨f, Function.update s.writers i w⟩ := by
  have honly : ∀ j, Function.update s.writers i w j ≠ .idle → j = i := by
    intro j hj
    by_contra hne
    rw [Function.update_of_ne hne] at hj
    exact hj (hothers j hne)
  refine ⟨hbounded, hapart, hwhole, ?_, ?_⟩
  · intro j k hj hk
    rw [honly j hj, honly k hk]
  · intro j file sent rest hj
    dsimp only at hj
    rcases eq_or_ne j i with rfl | hne
    · rw [Function.update_self] at hj
      exact hwriting file sent rest hj
    · rw [Function.update_of_ne hne, hothers j hne] at hj
      cases hj

omit [DecidableEq ι] [Inhabited α] in
/-- What is opened for writing is no sealed file. -/
theorem Sealed.ne_scratch {n : Nat} (h : Sealed s n) :
    s.folder.scratch ≠ n := by
  unfold Folder.scratch
  cases htmp : s.folder.tmp with
  | none => exact Nat.ne_of_gt h.made
  | some m =>
      rintro rfl
      exact h.unnamed htmp

/-- **A sealed file stays as it is.** -/
theorem sealed_step {n : Nat} (h : Sealed s n) (action : Action ι α) :
    Sealed (step action s) n ∧
      (step action s).folder.data n = s.folder.data n := by
  have hstill : ∀ {i : ι} {w : Writer α} {j : ι} {file sent rest},
      (∀ file' sent' rest', w = .writing file' sent' rest' → file' ≠ n) →
      Function.update s.writers i w j = .writing file sent rest →
        file ≠ n := by
    intro i w j file sent rest hw hj
    rcases eq_or_ne j i with rfl | hne
    · rw [Function.update_self] at hj
      exact hw file sent rest hj
    · rw [Function.update_of_ne hne] at hj
      exact h.closed j file sent rest hj
  cases step_cases action s with
  | still hsame =>
      rw [hsame]
      exact ⟨h, rfl⟩
  | created hidle hnext =>
      rw [hnext]
      have hne := h.ne_scratch
      refine ⟨⟨?_, ?_, ?_⟩, Function.update_of_ne hne.symm ..⟩
      · exact Nat.lt_of_lt_of_le h.made (Nat.le_max_left ..)
      · exact fun htmp => hne (Option.some.inj htmp)
      · intro j file sent rest hj
        refine hstill ?_ hj
        rintro _ _ _ ⟨⟩
        exact hne
  | @wrote i k file sent rest hwriter hnext =>
      rw [hnext]
      have hne := h.closed i file sent rest hwriter
      refine ⟨⟨h.made, h.unnamed, ?_⟩, Function.update_of_ne hne.symm ..⟩
      intro j file' sent' rest' hj
      refine hstill ?_ hj
      rintro _ _ _ ⟨⟩
      exact hne
  | renamed hwriter htmp hnext =>
      rw [hnext]
      refine ⟨⟨h.made, nofun, ?_⟩, rfl⟩
      intro j file sent rest hj
      exact hstill (fun _ _ _ hw => by cases hw) hj
  | dropped hnext =>
      rw [hnext]
      refine ⟨⟨h.made, h.unnamed, ?_⟩, rfl⟩
      intro j file sent rest hj
      exact hstill (fun _ _ _ hw => by cases hw) hj

/-- **Every step keeps the folder tidy**, if writers open the temporary file
one at a time. -/
theorem tidy_step (h : Tidy Whole s) {action : Action ι α}
    (halone : Alone action s) (hbegins : Begins Whole action) :
    Tidy Whole (step action s) := by
  cases step_cases action s with
  | still hsame => rwa [hsame]
  | dropped hnext =>
      rw [hnext]
      exact h.drop _
  | @created i text hidle hnext =>
      rw [hnext]
      have hscratch : ∀ n, s.folder.target = some n →
          s.folder.scratch ≠ n :=
        fun n hn => (h.sealed hn).ne_scratch
      refine tidy_update (fun j _ => halone j) ?_ ?_ ?_ ?_
      · rintro n (htmp | htarget)
        · cases htmp
          exact Nat.le_max_right ..
        · exact Nat.lt_of_lt_of_le (h.bounded n (.inr htarget))
            (Nat.le_max_left ..)
      · rintro n htmp htarget
        exact hscratch n htarget (Option.some.inj htmp)
      · intro t ht
        refine h.whole t ?_
        obtain ⟨n, hn, rfl⟩ := Option.map_eq_some_iff.mp ht
        refine Option.map_eq_some_iff.mpr ⟨n, hn, ?_⟩
        exact (Function.update_of_ne (hscratch n hn).symm ..).symm
      · rintro _ _ _ ⟨⟩
        exact ⟨rfl, Function.update_self .., hbegins⟩
  | @wrote i k file sent rest hwriter hnext =>
      rw [hnext]
      have hnotidle : s.writers i ≠ .idle := by
        rw [hwriter]
        exact nofun
      obtain ⟨htmp, hdata, hall⟩ := h.writing i file sent rest hwriter
      refine tidy_update (fun j hj => h.others_idle hnotidle hj) h.bounded
        h.apart ?_ ?_
      · intro t ht
        refine h.whole t ?_
        obtain ⟨n, hn, rfl⟩ := Option.map_eq_some_iff.mp ht
        refine Option.map_eq_some_iff.mpr ⟨n, hn, ?_⟩
        have hne : n ≠ file := by
          rintro rfl
          exact h.apart n htmp hn
        exact (Function.update_of_ne hne ..).symm
      · rintro _ _ _ ⟨⟩
        refine ⟨htmp, ?_, ?_⟩
        · change Function.update s.folder.data file _ file = _
          rw [Function.update_self, hdata, overlay_end]
        · rwa [List.append_assoc, List.take_append_drop]
  | @renamed i file n sent hwriter htmp hnext =>
      rw [hnext]
      have hnotidle : s.writers i ≠ .idle := by
        rw [hwriter]
        exact nofun
      obtain ⟨hfile, hdata, hall⟩ := h.writing i file sent [] hwriter
      refine tidy_update (fun j hj => h.others_idle hnotidle hj) ?_ nofun ?_
        nofun
      · rintro m (hm | hm)
        · cases hm
        · cases hm
          exact h.bounded n (.inl htmp)
      · rintro t ⟨⟩
        cases htmp.symm.trans hfile
        rw [List.append_nil] at hall
        rwa [hdata]

/-- **The target is set at once**: nothing but a renaming changes its text. -/
theorem content_step (h : Tidy Whole s) (action : Action ι α)
    (haction : ∀ i, action ≠ .rename i) :
    (step action s).folder.content = s.folder.content := by
  have hsame : (step action s).folder.target = s.folder.target →
      (step action s).folder.content = s.folder.content := by
    intro htarget
    unfold Folder.content
    rw [htarget]
    cases hn : s.folder.target with
    | none => rfl
    | some n => exact congrArg some (sealed_step (h.sealed hn) action).2
  refine hsame ?_
  cases step_cases action s with
  | still hnext => rw [hnext]
  | created hidle hnext =>
      rw [hnext]
      rfl
  | wrote hwriter hnext =>
      rw [hnext]
      rfl
  | dropped hnext => rw [hnext]
  | renamed hwriter htmp hnext => exact absurd rfl (haction _)

/-- A renaming puts the whole text in the target's place. -/
theorem content_rename (h : Tidy Whole s) {i : ι} {file : Nat} {text : List α}
    (hwriter : s.writers i = .writing file text []) :
    (step (.rename i) s).folder.content = some text := by
  obtain ⟨hfile, hdata, _⟩ := h.writing i file text [] hwriter
  rw [step_rename hwriter]
  simp [Folder.rename, Folder.content, hfile, hdata]

end Steps

/-! ## Writers in a list -/

section Lists

variable {τ : Type} {writer : τ → Writer α} {tasks : List τ} {t : τ} {i : Nat}

/-- The writers of a list of tasks, by their places. -/
def writersOf (writer : τ → Writer α) (tasks : List τ) (i : Nat) : Writer α :=
  (tasks[i]?.map writer).getD .idle

omit [Inhabited α] in
/-- A task stands for the writer it is. -/
theorem writersOf_of (hi : tasks[i]? = some t) :
    writersOf writer tasks i = writer t := by
  simp [writersOf, hi]

omit [Inhabited α] in
/-- A task that has come further is another writer at its place. -/
theorem writersOf_set (hi : i < tasks.length) :
    writersOf writer (tasks.set i t) =
      Function.update (writersOf writer tasks) i (writer t) := by
  funext j
  unfold writersOf
  rcases eq_or_ne i j with rfl | hne
  · rw [List.getElem?_set_self hi, Function.update_self]
    rfl
  · rw [List.getElem?_set_ne hne, Function.update_of_ne hne.symm]

omit [Inhabited α] in
/-- A task that has nothing open makes no difference. -/
theorem writersOf_concat (ht : writer t = .idle) :
    writersOf writer (tasks ++ [t]) = writersOf writer tasks := by
  funext j
  unfold writersOf
  rcases Nat.lt_trichotomy j tasks.length with hlt | rfl | hgt
  · rw [List.getElem?_append_left hlt]
  · rw [List.getElem?_concat_length, List.getElem?_eq_none (Nat.le_refl _)]
    exact ht
  · rw [List.getElem?_eq_none (Nat.le_of_lt hgt), List.getElem?_eq_none]
    rw [List.length_append]
    exact hgt

omit [Inhabited α] in
/-- Where no task has anything open all writers are idle. -/
theorem writersOf_idle (h : ∀ t ∈ tasks, writer t = .idle) (i : Nat) :
    writersOf writer tasks i = .idle := by
  cases hi : tasks[i]? with
  | none => simp [writersOf, hi]
  | some t =>
      rw [writersOf_of hi]
      exact h t (List.mem_of_getElem? hi)

end Lists

end Replacement
