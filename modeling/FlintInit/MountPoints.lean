import FlintInit.Mounts
import FlintInit.RuntimePaths

/-!
# What is mounted at boot

`mount_all` leaves out the root, virtual types and `noauto` entries, each by
comparing one string.  A swap area, a relative mount point and another
spelling of the root pass these comparisons, and a directory is created and a
mount issued for them.
-/

namespace FlintInit

/-- An entry for a file system with a place of its own in the tree. -/
structure RealMount (entry : FstabEntry) : Prop where
  absolute : isAbsolute entry.file = true
  notRoot : resolve entry.file ≠ []
  notSwap : entry.vfstype ≠ "swap"
  notNone : entry.file ≠ "none"

/-- The three tests of `should_mount`. -/
theorem shouldMount_iff {entry : FstabEntry} :
    shouldMount entry = true ↔ entry.file ≠ "/" ∧
      "noauto" ∉ (split entry.options ',').map trim ∧
      entry.vfstype ∉ virtualTypes := by
  have hauto : (split entry.options ',').any (fun o => trim o = "noauto") =
      true ↔ "noauto" ∈ (split entry.options ',').map trim := by
    simp only [List.any_eq_true, decide_eq_true_eq, List.mem_map]
  unfold shouldMount
  by_cases hroot : entry.file = "/"
  · simp [hroot]
  · by_cases hno : "noauto" ∈ (split entry.options ',').map trim
    · simp [hroot, hauto.mpr hno, hno]
    · by_cases hvirtual : entry.vfstype ∈ virtualTypes
      · simp [hvirtual]
      · simp [hroot, hauto, hno, hvirtual]

/-- The entries of a table are read off its lines. -/
theorem mem_parseFstab {content : String} {entry : FstabEntry} :
    entry ∈ parseFstab content ↔ ∃ line ∈ lines content,
      entryOfWords (splitWhitespace line) = some entry := by
  rw [parseFstab_eq, List.mem_filterMap]

/-- The first four words of a line are its entry, if there are as many and the
line is no comment. -/
theorem entryOfWords_eq_some {ws : List String} {entry : FstabEntry} :
    entryOfWords ws = some entry ↔ ∃ rest,
      ws = entry.spec :: entry.file :: entry.vfstype :: entry.options :: rest ∧
      startsWith entry.spec "#" = false := by
  constructor
  · intro h
    unfold entryOfWords at h
    split at h
    · rename_i rest
      split at h
      · cases h
      · rename_i hcomment
        cases h
        exact ⟨rest, rfl, Bool.eq_false_iff.mpr hcomment⟩
    · cases h
  · rintro ⟨rest, rfl, hcomment⟩
    simp [entryOfWords, hcomment]

section MountAll

variable {createDirAll : Nat → String → Except IoError Unit}
  {mount : Nat → MountRequest → Except String Unit} {content : String}

/-- What `mount_all` does is done for one of the entries it takes. -/
theorem mem_mountAll {e : MountEvent} {done : FstabEntry → Prop}
    (hdone : ∀ k entry, e ∈ mountEntry (createDirAll k) (mount k) entry ↔
      done entry) :
    e ∈ mountAll createDirAll mount (fun _ => .ok content) ↔
      ∃ entry ∈ parseFstab content, shouldMount entry = true ∧ done entry := by
  simp only [mountAll, List.mem_flatMap, hdone, Prod.exists]
  constructor
  · rintro ⟨entry, k, hin, hentry⟩
    obtain ⟨hmem, hmount⟩ := List.mem_filter.mp
      (List.fst_mem_of_mem_zipIdx hin)
    exact ⟨entry, hmem, hmount, hentry⟩
  · rintro ⟨entry, hmem, hmount, hentry⟩
    obtain ⟨k, hk⟩ := List.mem_iff_getElem?.mp
      (List.mem_filter.mpr ⟨hmem, hmount⟩)
    exact ⟨entry, k, List.mem_zipIdx_iff_getElem?.mpr hk, hentry⟩

/-- The directories created are the mount points of the entries mounted. -/
theorem createDirAll_mem_mountAll {path : String} :
    .createDirAll path ∈ mountAll createDirAll mount (fun _ => .ok content) ↔
      ∃ entry ∈ parseFstab content, shouldMount entry = true ∧
        path = entry.file := by
  apply mem_mountAll
  intro k entry
  unfold mountEntry
  cases createDirAll k entry.file <;> simp

/-- One mount is issued for each of these entries. -/
theorem mount_mem_mountAll {request : MountRequest} :
    .mount request ∈ mountAll createDirAll mount (fun _ => .ok content) ↔
      ∃ entry ∈ parseFstab content, shouldMount entry = true ∧
        request = mountRequest entry := by
  apply mem_mountAll
  intro k entry
  unfold mountEntry
  cases createDirAll k entry.file <;> simp

end MountAll

/-- Every entry `mount_all` takes is a real mount, and no other path gets to
`create_dir_all` or `mount`. -/
structure TouchesRealMounts
    (createDirAll : Nat → String → Except IoError Unit)
    (mount : Nat → MountRequest → Except String Unit) (content : String) :
    Prop where
  entries : ∀ entry ∈ parseFstab content, shouldMount entry = true →
    RealMount entry
  created : ∀ path,
    .createDirAll path ∈ mountAll createDirAll mount (fun _ => .ok content) →
    isAbsolute path = true ∧ resolve path ≠ []
  mounted : ∀ request,
    .mount request ∈ mountAll createDirAll mount (fun _ => .ok content) →
    isAbsolute request.target = true ∧ resolve request.target ≠ [] ∧
      request.fstype ≠ "swap"

/-- A line that gets past the comparisons although its mount point is
relative, or the root in another spelling, or it is a swap area. -/
def StrayLine (line : String) : Prop :=
  ∃ spec file vfstype options rest,
    splitWhitespace line = spec :: file :: vfstype :: options :: rest ∧
    startsWith spec "#" = false ∧ file ≠ "/" ∧
    "noauto" ∉ (split options ',').map trim ∧ vfstype ∉ virtualTypes ∧
    (isAbsolute file = false ∨ resolve file = [] ∨ vfstype = "swap")

/-- An entry that is taken and no real mount comes from a stray line. -/
theorem realMount_of_no_stray {line : String} {entry : FstabEntry}
    (hline : entryOfWords (splitWhitespace line) = some entry)
    (hmount : shouldMount entry = true) (h : ¬ StrayLine line) :
    RealMount entry := by
  obtain ⟨rest, hwords, hcomment⟩ := entryOfWords_eq_some.mp hline
  obtain ⟨hroot, hauto, hvirtual⟩ := shouldMount_iff.mp hmount
  have hreal : ¬ (isAbsolute entry.file = false ∨ resolve entry.file = [] ∨
      entry.vfstype = "swap") := by
    intro hstray
    exact h ⟨_, _, _, _, rest, hwords, hcomment, hroot, hauto, hvirtual,
      hstray⟩
  rw [not_or, not_or, Bool.not_eq_false] at hreal
  obtain ⟨habs, hnotRoot, hswap⟩ := hreal
  refine ⟨habs, hnotRoot, hswap, ?_⟩
  intro hnone
  rw [hnone] at habs
  exact absurd habs (by decide)

/-- **When only real mount points are touched.**  `mount_all` keeps to real
mount points exactly when no line of the table is a stray one. -/
theorem mounts_real_iff (createDirAll : Nat → String → Except IoError Unit)
    (mount : Nat → MountRequest → Except String Unit) (content : String) :
    TouchesRealMounts createDirAll mount content ↔
      ∀ line ∈ lines content, ¬ StrayLine line := by
  constructor
  · rintro htouch line hline ⟨spec, file, vfstype, options, rest, hwords,
      hcomment, hroot, hauto, hvirtual, hstray⟩
    have hentry : (⟨spec, file, vfstype, options⟩ : FstabEntry) ∈
        parseFstab content := by
      refine mem_parseFstab.mpr ⟨line, hline, ?_⟩
      exact entryOfWords_eq_some.mpr ⟨rest, hwords, hcomment⟩
    have hreal := htouch.entries _ hentry
      (shouldMount_iff.mpr ⟨hroot, hauto, hvirtual⟩)
    rcases hstray with h | h | h
    · have habs := hreal.absolute
      rw [h] at habs
      cases habs
    · exact hreal.notRoot h
    · exact hreal.notSwap h
  · intro h
    have hentries : ∀ entry ∈ parseFstab content, shouldMount entry = true →
        RealMount entry := by
      intro entry hmem hmount
      obtain ⟨line, hline, hentry⟩ := mem_parseFstab.mp hmem
      exact realMount_of_no_stray hentry hmount (h line hline)
    constructor
    · exact hentries
    · intro path hpath
      obtain ⟨entry, hmem, hmount, rfl⟩ := createDirAll_mem_mountAll.mp hpath
      have hreal := hentries entry hmem hmount
      exact ⟨hreal.absolute, hreal.notRoot⟩
    · intro request hrequest
      obtain ⟨entry, hmem, hmount, rfl⟩ := mount_mem_mountAll.mp hrequest
      have hreal := hentries entry hmem hmount
      exact ⟨hreal.absolute, hreal.notRoot, hreal.notSwap⟩

/-- The swap line of an ordinary table: a directory `none` is created in the
current directory. -/
theorem swap_line_is_mounted :
    ¬ TouchesRealMounts (fun _ _ => .ok ()) (fun _ _ => .ok ())
      "UUID=abc123  none  swap  sw  0  0\n" := by
  intro h
  have hcreated := h.created "none" (by decide)
  exact absurd hcreated.1 (by decide)

end FlintInit
