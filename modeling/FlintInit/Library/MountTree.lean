import Mathlib.Data.List.Infix

/-!
# A tree of mounts

File systems are mounted on directories of one another.  A path is followed
from the root file system, which is `0`, and at each of its prefixes crosses
into the file system mounted there; a mount goes on top of what its path leads
to at that time, and a detached mount takes everything mounted below it along.

`Stacked` is what any history of mounts and detachments leaves: read in order,
each mount sits on what its path led to among the earlier ones.  Hence
`unwind`: detaching some of the mounts in reverse order meets each of them, as
long as no mount that is left hides one of them.
-/

namespace MountTree

structure Mount (σ τ : Type) where
  id : Nat
  parent : Nat
  point : List σ
  kind : τ
  deriving DecidableEq

variable {σ τ : Type}

/-- Takes in what sits on a mount taken in before. -/
def gather (ids : List Nat) (m : Mount σ τ) : List Nat :=
  if m.parent ∈ ids then m.id :: ids else ids

/-- The ids at and below a mount. -/
def tree (ms : List (Mount σ τ)) (top : Nat) : List Nat :=
  ms.foldl gather [top]

/-- Being at or below a mount. -/
inductive Under (ms : List (Mount σ τ)) (top : Nat) : Nat → Prop
  | here : Under ms top top
  | on {m : Mount σ τ} (mem : m ∈ ms) (parent : Under ms top m.parent) :
      Under ms top m.id

def detach (ms : List (Mount σ τ)) (top : Nat) : List (Mount σ τ) :=
  ms.filter (fun m => m.id ∉ tree ms top)

variable [DecidableEq σ]

/-- Crosses into a mount on the directory reached. -/
def cross (reached : List σ) (cur : Nat) (m : Mount σ τ) : Nat :=
  if m.parent = cur ∧ m.point = reached then m.id else cur

/-- Crosses into all that is mounted there. -/
def enter (ms : List (Mount σ τ)) (cur : Nat) (reached : List σ) : Nat :=
  ms.foldl (cross reached) cur

/-- The file system a path leads into. -/
def walk (ms : List (Mount σ τ)) (path : List σ) : Nat :=
  path.inits.foldl (enter ms) 0

/-- Mounts in the order in which they were made, each on what its path led
into then. -/
inductive Stacked : List (Mount σ τ) → Prop
  | nil : Stacked []
  | mount {ms : List (Mount σ τ)} {m : Mount σ τ} (below : Stacked ms)
      (pos : 0 < m.id) (fresh : m.id ∉ ms.map Mount.id)
      (parent : m.parent = walk ms m.point) : Stacked (ms ++ [m])

/-- Mounts a file system on a path. -/
def attach (ms : List (Mount σ τ)) (path : List σ) (kind : τ) :
    List (Mount σ τ) :=
  ms ++ [⟨(ms.map Mount.id).foldr max 0 + 1, walk ms path, path, kind⟩]

/-- Detaches what a path leads into, which must be mounted on that path. -/
def umount (ms : List (Mount σ τ)) (path : List σ) :
    Option (List (Mount σ τ)) :=
  if ∃ m ∈ ms, m.id = walk ms path ∧ m.point = path then
    some (detach ms (walk ms path))
  else none

/-! ## Following a path -/

omit [DecidableEq σ] in
/-- The prefixes of a path end with the path itself. -/
theorem inits_eq (path : List σ) :
    ∃ shorter, path.inits = shorter ++ [path] ∧ path ∉ shorter := by
  induction path with
  | nil => exact ⟨[], rfl, List.not_mem_nil⟩
  | cons s path ih =>
      obtain ⟨shorter, heq, hne⟩ := ih
      refine ⟨[] :: shorter.map (s :: ·), by simp [heq], ?_⟩
      simpa using hne

/-- A later mount is entered after the earlier ones. -/
theorem enter_append (ms later : List (Mount σ τ)) (cur : Nat)
    (reached : List σ) :
    enter (ms ++ later) cur reached = enter later (enter ms cur reached)
      reached :=
  List.foldl_append

/-- Entering leads to a mount of the list, or stays where it was. -/
theorem enter_mem (ms : List (Mount σ τ)) (cur : Nat) (reached : List σ) :
    enter ms cur reached = cur ∨
      enter ms cur reached ∈ ms.map Mount.id := by
  unfold enter
  induction ms generalizing cur with
  | nil => exact .inl rfl
  | cons m ms ih =>
      rw [List.foldl_cons, List.map_cons, List.mem_cons]
      rcases ih (cross reached cur m) with hstay | hmem
      · rw [hstay, cross]
        split
        · exact .inr (.inl rfl)
        · exact .inl rfl
      · exact .inr (.inr hmem)

/-- A path leads into the root or one of the mounts. -/
theorem walk_mem (ms : List (Mount σ τ)) (path : List σ) :
    walk ms path = 0 ∨ walk ms path ∈ ms.map Mount.id := by
  have hall : ∀ (prefixes : List (List σ)) (cur : Nat),
      (cur = 0 ∨ cur ∈ ms.map Mount.id) →
      prefixes.foldl (enter ms) cur = 0 ∨
        prefixes.foldl (enter ms) cur ∈ ms.map Mount.id := by
    intro prefixes
    induction prefixes with
    | nil => intro cur h; exact h
    | cons reached rest ih =>
        intro cur h
        apply ih
        rcases enter_mem ms cur reached with hstay | hmem
        · rw [hstay]; exact h
        · exact .inr hmem
  exact hall path.inits 0 (.inl rfl)

/-- Mounts on other paths are not crossed into. -/
theorem enter_of_ne {ms : List (Mount σ τ)} {reached : List σ}
    (h : ∀ m ∈ ms, m.point ≠ reached) (cur : Nat) :
    enter ms cur reached = cur := by
  unfold enter
  induction ms with
  | nil => rfl
  | cons m ms ih =>
      have hm : cross reached cur m = cur :=
        if_neg fun hcross => h m List.mem_cons_self hcross.2
      rw [List.foldl_cons, hm]
      exact ih fun s hs => h s (List.mem_cons_of_mem m hs)

/-- Later mounts off the path do not change where it leads. -/
theorem walk_append {ms later : List (Mount σ τ)} {path : List σ}
    (h : ∀ s ∈ later, ¬ s.point <+: path) :
    walk (ms ++ later) path = walk ms path := by
  unfold walk
  apply List.foldl_ext
  intro cur reached hreached
  rw [enter_append]
  apply enter_of_ne
  rintro s hs rfl
  exact h s hs ((List.mem_inits _ _).mp hreached)

/-- A path leads into what has just been mounted on it. -/
theorem walk_mounted {ms : List (Mount σ τ)} {m : Mount σ τ}
    (h : m.parent = walk ms m.point) : walk (ms ++ [m]) m.point = m.id := by
  obtain ⟨shorter, hinits, hne⟩ := inits_eq m.point
  unfold walk at h ⊢
  rw [hinits, List.foldl_append] at h ⊢
  have hbefore : shorter.foldl (enter (ms ++ [m])) 0 =
      shorter.foldl (enter ms) 0 := by
    apply List.foldl_ext
    intro cur reached hreached
    rw [enter_append]
    apply enter_of_ne
    intro s hs heq
    rw [List.mem_singleton.mp hs] at heq
    exact hne (heq ▸ hreached)
  rw [hbefore, List.foldl_cons, List.foldl_nil, enter_append]
  exact if_pos ⟨h, rfl⟩

/-! ## Stacked mounts -/

/-- The last mount sits on what its path led into before it was made. -/
theorem stacked_concat {ms : List (Mount σ τ)} {m : Mount σ τ} :
    Stacked (ms ++ [m]) ↔ Stacked ms ∧ 0 < m.id ∧
      m.id ∉ ms.map Mount.id ∧ m.parent = walk ms m.point := by
  constructor
  · intro h
    generalize hall : ms ++ [m] = all at h
    cases h with
    | nil => exact absurd hall (by simp)
    | mount below pos fresh parent =>
        obtain ⟨rfl, hm⟩ := List.append_inj' hall rfl
        cases hm
        exact ⟨below, pos, fresh, parent⟩
  · rintro ⟨below, pos, fresh, parent⟩
    exact .mount below pos fresh parent

namespace Stacked

variable {ms : List (Mount σ τ)}

/-- What was there before later mounts was stacked, too. -/
theorem of_append {later : List (Mount σ τ)} (h : Stacked (ms ++ later)) :
    Stacked ms := by
  induction later using List.reverseRecOn with
  | nil => rwa [List.append_nil] at h
  | append_singleton later s ih =>
      rw [← List.append_assoc] at h
      exact ih (stacked_concat.mp h).1

/-- The mounts up to one of them. -/
theorem at_mount {m : Mount σ τ} {later : List (Mount σ τ)}
    (h : Stacked (ms ++ m :: later)) : Stacked (ms ++ [m]) := by
  rw [List.append_cons] at h
  exact h.of_append

/-- The number 0 is the root's alone. -/
theorem pos (h : Stacked ms) {m : Mount σ τ} (hm : m ∈ ms) : 0 < m.id := by
  obtain ⟨before, later, rfl⟩ := List.append_of_mem hm
  exact (stacked_concat.mp h.at_mount).2.1

/-- A mount sits on the root or on an earlier one. -/
theorem parent_mem {m : Mount σ τ} {later : List (Mount σ τ)}
    (h : Stacked (ms ++ m :: later)) :
    m.parent = 0 ∨ m.parent ∈ ms.map Mount.id := by
  rw [(stacked_concat.mp h.at_mount).2.2.2]
  exact walk_mem ms m.point

/-- A file system that is mounted gets a number of its own and sits on what its
path leads into. -/
theorem attach (h : Stacked ms) (path : List σ) (kind : τ) :
    Stacked (attach ms path kind) := by
  have hmax : ∀ ids : List Nat, ∀ i ∈ ids, i ≤ ids.foldr max 0 := by
    intro ids
    induction ids with
    | nil => intro i hi; cases hi
    | cons j ids ih =>
        intro i hi
        rw [List.foldr_cons]
        rcases List.mem_cons.mp hi with rfl | hi
        · exact Nat.le_max_left _ _
        · exact (ih i hi).trans (Nat.le_max_right _ _)
  refine .mount h (Nat.succ_pos _) (fun hmem => ?_) rfl
  have hle := hmax _ _ hmem
  dsimp only at hle
  omega

/-- What sits on a mount of a tree is in the tree. -/
theorem tree_closed (h : Stacked ms) {top : Nat} {m : Mount σ τ}
    (hm : m ∈ ms) (hparent : m.parent ∈ tree ms top) :
    m.id ∈ tree ms top := by
  induction h generalizing m with
  | nil => cases hm
  | @mount ms s below pos fresh parent ih =>
      have htree : tree (ms ++ [s]) top =
          if s.parent ∈ tree ms top then s.id :: tree ms top
          else tree ms top := by
        rw [tree, List.foldl_append]
        rfl
      rw [htree] at hparent ⊢
      rcases List.mem_append.mp hm with hm | hm
      · have hold : m.parent ∈ tree ms top := by
          split at hparent
          · rcases List.mem_cons.mp hparent with heq | hold
            · -- nothing earlier sits on the newest mount
              obtain ⟨before, later, rfl⟩ := List.append_of_mem hm
              exfalso
              rcases below.parent_mem with hzero | hmem
              · omega
              · rw [heq] at hmem
                exact fresh (by simp [List.mem_map.mp hmem])
            · exact hold
          · exact hparent
        have hid := ih hm hold
        split
        · exact List.mem_cons_of_mem _ hid
        · exact hid
      · rw [List.mem_singleton.mp hm] at hparent ⊢
        split
        · exact List.mem_cons_self
        · rename_i hnot
          rw [if_neg hnot] at hparent
          exact absurd hparent hnot

/-- The tree of a mount is the mount and all that is mounted under it. -/
theorem mem_tree (h : Stacked ms) {top i : Nat} :
    i ∈ tree ms top ↔ Under ms top i := by
  constructor
  · have hall : ∀ (rest : List (Mount σ τ)) (ids : List Nat),
        (∀ m ∈ rest, m ∈ ms) → (∀ j ∈ ids, Under ms top j) →
        ∀ j ∈ rest.foldl gather ids, Under ms top j := by
      intro rest
      induction rest with
      | nil => intro ids _ hids; exact hids
      | cons m rest ih =>
          intro ids hrest hids
          refine ih _ (fun s hs => hrest s (List.mem_cons_of_mem m hs)) ?_
          intro j hj
          rw [gather] at hj
          split at hj
          · rename_i hparent
            rcases List.mem_cons.mp hj with rfl | hj
            · exact .on (hrest m List.mem_cons_self) (hids _ hparent)
            · exact hids j hj
          · exact hids j hj
    apply hall ms [top] (fun m hm => hm)
    intro j hj
    rw [List.mem_singleton.mp hj]
    exact .here
  · intro hunder
    induction hunder with
    | here =>
        have hkeep : ∀ (rest : List (Mount σ τ)) (ids : List Nat), top ∈ ids →
            top ∈ rest.foldl gather ids := by
          intro rest
          induction rest with
          | nil => intro ids hids; exact hids
          | cons m rest ih =>
              intro ids hids
              apply ih
              rw [gather]
              split
              · exact List.mem_cons_of_mem _ hids
              · exact hids
        exact hkeep ms [top] List.mem_cons_self
    | on hm _ ih => exact h.tree_closed hm ih

/-- Nothing before a mount is at or below it. -/
theorem not_under {m : Mount σ τ} {later : List (Mount σ τ)}
    (h : Stacked (ms ++ m :: later)) {i : Nat}
    (hi : Under (ms ++ m :: later) m.id i) :
    0 < i ∧ i ∉ ms.map Mount.id := by
  induction hi with
  | here => exact ⟨h.pos (by simp), (stacked_concat.mp h.at_mount).2.2.1⟩
  | @on s hs _ ih =>
      refine ⟨h.pos hs, fun hmem => ?_⟩
      rcases List.mem_append.mp hs with hbefore | hlater
      · obtain ⟨before, rest, rfl⟩ := List.append_of_mem hbefore
        rw [List.append_assoc, List.cons_append] at h
        rcases h.parent_mem with hzero | hparent
        · omega
        · exact ih.2 (by simp [List.mem_map.mp hparent])
      · -- ids are distinct
        obtain ⟨between, rest, hsplit⟩ := List.append_of_mem hlater
        rw [hsplit, ← List.append_assoc] at h
        have hfresh := (stacked_concat.mp h.at_mount).2.2.1
        rw [List.map_append, List.mem_append] at hfresh
        exact hfresh (.inl hmem)

end Stacked

/-! ## Keeping some of the mounts -/

section Keep

variable {ms : List (Mount σ τ)} {keep : Nat → Bool}
  (hkeep : ∀ m ∈ ms, keep m.id = true → keep m.parent = true)
include hkeep

/-- Where mounts are left out but the one that is entered, the same mount is
entered. -/
theorem enter_filter {reached : List σ} {cur : Nat}
    (h : keep (enter ms cur reached) = true) :
    keep cur = true ∧
      enter (ms.filter (fun m => keep m.id)) cur reached =
        enter ms cur reached := by
  unfold enter at h ⊢
  induction ms generalizing cur with
  | nil => exact ⟨h, rfl⟩
  | cons m ms ih =>
      rw [List.foldl_cons] at h ⊢
      obtain ⟨hnext, hfold⟩ :=
        ih (fun s hs => hkeep s (List.mem_cons_of_mem m hs)) h
      rw [← hfold, List.filter_cons]
      by_cases hcross : m.parent = cur ∧ m.point = reached
      · have hid : cross reached cur m = m.id := if_pos hcross
        rw [hid] at hnext
        refine ⟨hcross.1 ▸ hkeep m List.mem_cons_self hnext, ?_⟩
        rw [if_pos hnext, List.foldl_cons]
      · have hid : cross reached cur m = cur := if_neg hcross
        rw [hid] at hnext ⊢
        refine ⟨hnext, ?_⟩
        split
        · rw [List.foldl_cons, hid]
        · rfl

/-- A path into a mount that is kept leads there over mounts that are kept. -/
theorem walk_filter {path : List σ} (h : keep (walk ms path) = true) :
    walk (ms.filter (fun m => keep m.id)) path = walk ms path := by
  have hall : ∀ (prefixes : List (List σ)) (cur : Nat),
      keep (prefixes.foldl (enter ms) cur) = true →
      keep cur = true ∧
      prefixes.foldl (enter (ms.filter (fun m => keep m.id))) cur =
        prefixes.foldl (enter ms) cur := by
    intro prefixes
    induction prefixes with
    | nil => intro cur hcur; exact ⟨hcur, rfl⟩
    | cons reached rest ih =>
        intro cur hlast
        obtain ⟨hnext, hrest⟩ := ih _ hlast
        obtain ⟨hcur, henter⟩ := enter_filter hkeep hnext
        refine ⟨hcur, ?_⟩
        rw [List.foldl_cons, List.foldl_cons, henter]
        exact hrest
  exact (hall path.inits 0 h).2

omit [DecidableEq σ] in
/-- What is left is under the same mounts as before, when each of them is left
with its parent. -/
theorem under_filter {top i : Nat} (hi : keep i = true) :
    Under (ms.filter (fun m => keep m.id)) top i ↔ Under ms top i := by
  constructor
  · intro h
    induction h with
    | here => exact .here
    | on hm _ ih =>
        have hmem := List.mem_filter.mp hm
        exact .on hmem.1 (ih (hkeep _ hmem.1 hmem.2))
  · intro h
    induction h with
    | here => exact .here
    | @on m hm _ ih =>
        exact .on (List.mem_filter.mpr ⟨hm, hi⟩) (ih (hkeep m hm hi))

end Keep

/-- Mounts that are left with their parents are still stacked: no path leads
elsewhere. -/
theorem Stacked.filter {ms : List (Mount σ τ)} (h : Stacked ms)
    {keep : Nat → Bool}
    (hkeep : ∀ m ∈ ms, keep m.id = true → keep m.parent = true) :
    Stacked (ms.filter (fun m => keep m.id)) := by
  induction h with
  | nil => exact .nil
  | @mount ms m below pos fresh parent ih =>
      have hbelow : ∀ s ∈ ms, keep s.id = true → keep s.parent = true :=
        fun s hs => hkeep s (List.mem_append_left _ hs)
      rw [List.filter_append, List.filter_cons]
      split
      · rename_i hm
        have hparent : keep (walk ms m.point) = true :=
          parent ▸ hkeep m (by simp) hm
        refine .mount (ih hbelow) pos (fun hmem => ?_)
          (parent.trans (walk_filter hbelow hparent).symm)
        obtain ⟨s, hs, heq⟩ := List.mem_map.mp hmem
        exact fresh (heq ▸ List.mem_map_of_mem (List.mem_filter.mp hs).1)
      · rw [List.filter_nil, List.append_nil]
        exact ih hbelow

/-- A tree taken out leaves the rest stacked. -/
theorem Stacked.umount {ms ms' : List (Mount σ τ)} (h : Stacked ms)
    {path : List σ} (humount : umount ms path = some ms') : Stacked ms' := by
  unfold MountTree.umount at humount
  split at humount
  · cases humount
    have hkeep : ∀ m ∈ ms, decide (m.id ∉ tree ms (walk ms path)) = true →
        decide (m.parent ∉ tree ms (walk ms path)) = true := by
      intro m hm hid
      rw [decide_eq_true_eq] at hid ⊢
      exact fun hparent => hid (h.tree_closed hm hparent)
    exact @Stacked.filter _ _ _ ms h
      (fun i => decide (i ∉ tree ms (walk ms path))) hkeep
  · cases humount

/-! ## Detaching in reverse order -/

/-- An id with none of some mounts at or above it. -/
def clearOf (ms tops : List (Mount σ τ)) (i : Nat) : Bool :=
  tops.all (fun top => i ∉ tree ms top.id)

omit [DecidableEq σ] in
/-- A mount is clear of others when it is in none of their trees. -/
theorem clearOf_eq_true {ms tops : List (Mount σ τ)} {i : Nat} :
    clearOf ms tops i = true ↔ ∀ top ∈ tops, i ∉ tree ms top.id := by
  simp [clearOf]

omit [DecidableEq σ] in
/-- To be clear of one more is to be outside its tree, too. -/
theorem clearOf_cons (ms tops : List (Mount σ τ)) (top : Mount σ τ)
    (i : Nat) : clearOf ms (top :: tops) i =
      (decide (i ∉ tree ms top.id) && clearOf ms tops i) :=
  List.all_cons

/-- A mount clear of them sits on one that is clear of them. -/
theorem Stacked.clearOf_closed {ms tops : List (Mount σ τ)} (h : Stacked ms) :
    ∀ m ∈ ms, clearOf ms tops m.id = true →
      clearOf ms tops m.parent = true := by
  intro m hm hclear
  rw [clearOf_eq_true] at hclear ⊢
  exact fun top htop hparent => hclear top htop (h.tree_closed hm hparent)

/-- No mount that is left lies over an earlier one that is not. -/
def Uncovered (selected : Mount σ τ → Bool) (ms : List (Mount σ τ)) : Prop :=
  ms.Pairwise (fun m s => selected m = true → selected s = false →
    ¬ s.point <+: m.point)

instance (selected : Mount σ τ → Bool) (ms : List (Mount σ τ)) :
    Decidable (Uncovered selected ms) :=
  inferInstanceAs (Decidable (ms.Pairwise _))

section Unwind

variable {selected : Mount σ τ → Bool}

/-- With the later selected mounts gone, a path of a mount leads to it. -/
theorem walk_exposed {before later : List (Mount σ τ)} {m : Mount σ τ}
    (h : Stacked (before ++ m :: later))
    (hover : ∀ s ∈ later, selected s = false → ¬ s.point <+: m.point) :
    walk ((before ++ m :: later).filter (fun s => clearOf
      (before ++ m :: later) (later.filter selected) s.id)) m.point =
      m.id := by
  have hearly : ∀ s ∈ before ++ [m], clearOf (before ++ m :: later)
      (later.filter selected) s.id = true := by
    intro s hs
    rw [clearOf_eq_true]
    intro top htop hmem
    obtain ⟨between, rest, rfl⟩ :=
      List.append_of_mem (List.mem_filter.mp htop).1
    have hsplit : before ++ m :: (between ++ top :: rest) =
        (before ++ m :: between) ++ top :: rest := by simp
    rw [hsplit] at h hmem
    apply (h.not_under (h.mem_tree.mp hmem)).2
    apply List.mem_map_of_mem
    rcases List.mem_append.mp hs with hs | hs
    · exact List.mem_append_left _ hs
    · rw [List.mem_singleton.mp hs]
      simp
  have hlate : ∀ s ∈ later, clearOf (before ++ m :: later)
      (later.filter selected) s.id = true → ¬ s.point <+: m.point := by
    intro s hs hclear
    apply hover s hs
    rw [← Bool.not_eq_true]
    intro hselected
    have hown := clearOf_eq_true.mp hclear s
      (List.mem_filter.mpr ⟨hs, hselected⟩)
    exact hown (h.mem_tree.mpr .here)
  generalize clearOf (before ++ m :: later) (later.filter selected) = clear
    at hearly hlate ⊢
  rw [List.append_cons, List.filter_append, List.filter_eq_self.mpr hearly,
    walk_append]
  · exact walk_mounted (stacked_concat.mp h.at_mount).2.2.2
  · intro s hs
    obtain ⟨hlater, hclear⟩ := List.mem_filter.mp hs
    exact hlate s hlater hclear

/-- Detaching one more mount, the later selected ones being gone. -/
theorem umount_exposed {before later : List (Mount σ τ)} {m : Mount σ τ}
    (h : Stacked (before ++ m :: later))
    (hover : ∀ s ∈ later, selected s = false → ¬ s.point <+: m.point) :
    umount ((before ++ m :: later).filter (fun s => clearOf
        (before ++ m :: later) (later.filter selected) s.id)) m.point =
      some ((before ++ m :: later).filter (fun s => clearOf
        (before ++ m :: later) (m :: later.filter selected) s.id)) := by
  have hwalk := walk_exposed h hover
  generalize hms : before ++ m :: later = ms at h hwalk
  have hkeep : ∀ s ∈ ms, clearOf ms (later.filter selected) s.id = true →
      clearOf ms (later.filter selected) s.parent = true := h.clearOf_closed
  have hstacked := h.filter hkeep
  have hm : m ∈ ms.filter (fun s =>
      clearOf ms (later.filter selected) s.id) := by
    have hid : m.id ∈ (ms.filter (fun s =>
        clearOf ms (later.filter selected) s.id)).map Mount.id := by
      rcases walk_mem _ m.point with hzero | hmem
      · have hpos := h.pos (m := m) (by simp [← hms])
        rw [hwalk] at hzero
        omega
      · exact hwalk ▸ hmem
    rw [List.mem_filter]
    obtain ⟨s, hs, heq⟩ := List.mem_map.mp hid
    refine ⟨by simp [← hms], ?_⟩
    rw [← heq]
    exact (List.mem_filter.mp hs).2
  rw [umount, if_pos ⟨m, hm, hwalk.symm, rfl⟩, hwalk, detach,
    List.filter_filter]
  congr 1
  apply List.filter_congr
  intro s hs
  rw [clearOf_cons]
  by_cases hclear : clearOf ms (later.filter selected) s.id = true
  · have htree : s.id ∈ tree (ms.filter (fun s =>
          clearOf ms (later.filter selected) s.id)) m.id ↔
        s.id ∈ tree ms m.id := by
      rw [hstacked.mem_tree, h.mem_tree]
      exact under_filter hkeep hclear
    simp only [htree]
  · rw [Bool.not_eq_true] at hclear
    rw [hclear, Bool.and_false, Bool.and_false]

/-- **Detaching in reverse order.**  If no mount that is left covers one that
is to go, each of these is met by its path, and in the end all are gone that
have one of them at or above them. -/
theorem unwind {ms : List (Mount σ τ)} (h : Stacked ms)
    (huncovered : Uncovered selected ms) :
    ((ms.filter selected).map Mount.point).reverse.foldlM umount ms =
      some (ms.filter
        (fun m => clearOf ms (ms.filter selected) m.id)) := by
  have hall : ∀ later before, before ++ later = ms →
      ((later.filter selected).map Mount.point).reverse.foldlM umount ms =
        some (ms.filter
          (fun m => clearOf ms (later.filter selected) m.id)) := by
    intro later
    induction later with
    | nil =>
        intro before _
        simp [clearOf]
    | cons m later ih =>
        intro before hsplit
        have hlater := ih (before ++ [m]) (by simp [← hsplit])
        rw [List.filter_cons]
        split
        · rename_i hselected
          rw [List.map_cons, List.reverse_cons, List.foldlM_append, hlater]
          subst hsplit
          have hpairs := (List.pairwise_append.mp huncovered).2.1
          have hover := (List.pairwise_cons.mp hpairs).1
          have hnext := umount_exposed h fun s hs => hover s hs hselected
          rw [Option.bind_eq_bind, Option.bind_some, List.foldlM_cons, hnext]
          rfl
        · exact hlater
  exact hall ms [] rfl

end Unwind

end MountTree
