import FlintInit.Cache
import FlintInit.Library.Splitting
import Mathlib.Data.Finset.Basic
import Mathlib.Data.List.TakeWhile

/-!
# Mounting and unmounting

`fstab.rs`, and `unmount_all` of `pid1.rs`.  Both read a table of mounts line
by line and split a line into fields at white space.  `parseFstab_eq` and
`unmountPaths_eq` state what they read: a line counts through its words alone.
-/

namespace FlintInit

open Splitting

structure FstabEntry where
  spec : String
  file : String
  vfstype : String
  options : String
  deriving DecidableEq

/-- `VIRTUAL_TYPES`. -/
def virtualTypes : List String :=
  ["proc", "sysfs", "devtmpfs", "devpts", "tmpfs", "cgroup", "cgroup2",
    "efivarfs", "bpf", "debugfs", "pstore", "securityfs", "hugetlbfs",
    "mqueue", "tracefs", "fusectl", "rootfs"]

/-! ## The table -/

/-- Lines that are neither comments nor blank. -/
def isEntryLine (l : String) : Bool :=
  !startsWith (trimStart l) "#" && trim l != ""

/-- The first four fields of a line; none when it has fewer. -/
def parseLine (line : String) : Option FstabEntry :=
  match splitWhitespace line with
  | spec :: file :: vfstype :: options :: _ =>
      some ⟨spec, file, vfstype, options⟩
  | _ => none

def parseFstab (content : String) : List FstabEntry :=
  ((lines content).filter isEntryLine).filterMap parseLine

def shouldMount (entry : FstabEntry) : Bool :=
  if entry.file = "/" then false
  else if (split entry.options ',').any (fun o => trim o = "noauto") then
    false
  else if entry.vfstype ∈ virtualTypes then false
  else true

def resolveSpec (spec : String) : String :=
  match stripPrefix spec "UUID=" with
  | some uuid => join "/dev/disk/by-uuid" uuid
  | none =>
      match stripPrefix spec "LABEL=" with
      | some label => join "/dev/disk/by-label" label
      | none => spec

/-! ## The options -/

/-- The flags of mount(2). -/
inductive MsFlag where
  | rdonly
  | nosuid
  | nodev
  | noexec
  | synchronous
  | remount
  | mandlock
  | dirsync
  | nosymfollow
  | noatime
  | nodiratime
  | bind
  | move
  | recursive
  | silent
  | unbindable
  | «private»
  | slave
  | shared
  | relatime
  | iVersion
  | strictatime
  | lazytime
  deriving DecidableEq

abbrev MsFlags := Finset MsFlag

/-- One round of the loop over the options. -/
def parseOption (acc : MsFlags × List String) (opt : String) :
    MsFlags × List String :=
  match trim opt with
  | "ro" => (acc.1 ∪ {.rdonly}, acc.2)
  | "rw" | "defaults" | "auto" | "noauto" => acc
  | "noexec" => (acc.1 ∪ {.noexec}, acc.2)
  | "nosuid" => (acc.1 ∪ {.nosuid}, acc.2)
  | "nodev" => (acc.1 ∪ {.nodev}, acc.2)
  | "relatime" => (acc.1 ∪ {.relatime}, acc.2)
  | "strictatime" => (acc.1 ∪ {.strictatime}, acc.2)
  | "sync" => (acc.1 ∪ {.synchronous}, acc.2)
  | other => if other ≠ "" then (acc.1, acc.2 ++ [other]) else acc

/-- The flags, and the data string for the file system. -/
def parseFlags (options : String) : MsFlags × String :=
  let acc := (split options ',').foldl parseOption (∅, [])
  (acc.1, ",".intercalate acc.2)

/-! ## Mounting -/

/-- The arguments of mount(2). -/
structure MountRequest where
  source : String
  target : String
  fstype : String
  flags : MsFlags
  data : Option String
  deriving DecidableEq

/-- What mounting and unmounting do to the system and print. -/
inductive MountEvent where
  | eprintln (text : String)
  | createDirAll (path : String)
  | mount (request : MountRequest)
  | umount2 (path : String)
  | sync
  deriving DecidableEq

/-- The request for an entry; an empty data string is not passed. -/
def mountRequest (entry : FstabEntry) : MountRequest :=
  let (flags, data) := parseFlags entry.options
  ⟨resolveSpec entry.spec, entry.file, entry.vfstype, flags,
    if data = "" then none else some data⟩

/-- The body of the loop over the entries. -/
def mountEntry (createDirAll : String → Except IoError Unit)
    (mount : MountRequest → Except String Unit) (entry : FstabEntry) :
    List MountEvent :=
  let created :=
    match createDirAll entry.file with
    | .ok () => []
    | .error e =>
        [.eprintln ("[fstab] warning: cannot create " ++ entry.file ++ ": " ++
          e.text)]
  let mounted :=
    match mount (mountRequest entry) with
    | .ok () =>
        "[fstab] mounted " ++ entry.spec ++ " on " ++ entry.file
    | .error e =>
        "[fstab] warning: failed to mount " ++ entry.spec ++ " on " ++
          entry.file ++ ": " ++ e
  .createDirAll entry.file :: created ++
    [.mount (mountRequest entry), .eprintln mounted]

/-- What the entries lead to.  The system may answer each entry differently:
`createDirAll k` and `mount k` are its answers to the one at place `k`. -/
def mountAll (createDirAll : Nat → String → Except IoError Unit)
    (mount : Nat → MountRequest → Except String Unit)
    (readToString : String → Except IoError String) : List MountEvent :=
  match readToString "/etc/fstab" with
  | .error e =>
      [.eprintln ("[fstab] warning: cannot read /etc/fstab: " ++ e.text)]
  | .ok content =>
      ((parseFstab content).filter shouldMount).zipIdx.flatMap
        fun (entry, k) => mountEntry (createDirAll k) (mount k) entry

/-! ## Unmounting -/

/-- `SKIP_TYPES` of `unmount_all`. -/
def skipTypes : List String :=
  ["proc", "sysfs", "devtmpfs", "devpts", "cgroup", "cgroup2", "tmpfs",
    "efivarfs", "bpf", "debugfs", "pstore", "securityfs", "hugetlbfs",
    "mqueue", "tracefs", "fusectl", "rootfs"]

/-- The mount point of a line of the table, unless it is left mounted. -/
def mountPoint (line : String) : Option String :=
  match splitWhitespace line with
  | _ :: mountpoint :: vfstype :: _ =>
      if mountpoint = "/" then none
      else if vfstype ∈ skipTypes then none
      else some mountpoint
  | _ => none

/-- The paths `unmount_all` detaches, deepest first. -/
def unmountPaths (mounts : String) : List String :=
  ((lines mounts).filterMap mountPoint).reverse

def unmountAll (umount2 : String → Except String Unit)
    (readToString : String → Except IoError String) : List MountEvent :=
  match readToString "/proc/mounts" with
  | .error e =>
      [.eprintln ("[pid1] cannot read /proc/mounts: " ++ e.text)]
  | .ok mounts =>
      (unmountPaths mounts).flatMap (fun path =>
        let failed :=
          match umount2 path with
          | .ok () => []
          | .error e =>
              [.eprintln ("[pid1] umount2 " ++ path ++ ": " ++ e)]
        .eprintln ("[pid1] unmounting " ++ path) :: .umount2 path :: failed) ++
      [.sync, .eprintln "[pid1] filesystems detached and synced"]

/-! ## A line counts through its words -/

/-- The words of a line. -/
def wordsOf (line : List Char) : List String :=
  (words isWhitespace line).map String.ofList

/-- The words of `split_whitespace` are those of the library. -/
theorem splitWhitespace_eq (line : String) :
    splitWhitespace line = wordsOf line.toList := rfl

/-- The entry in the words of a line. -/
def entryOfWords : List String → Option FstabEntry
  | spec :: file :: vfstype :: options :: _ =>
      if startsWith spec "#" then none
      else some ⟨spec, file, vfstype, options⟩
  | _ => none

/-- The mount point in the words of a line. -/
def mountPointOfWords : List String → Option String
  | _ :: mountpoint :: vfstype :: _ =>
      if mountpoint = "/" then none
      else if vfstype ∈ skipTypes then none
      else some mountpoint
  | _ => none

/-- To start with `#` is to have it as the first character. -/
theorem startsWith_hash {s : String} :
    startsWith s "#" = true ↔ s.toList.head? = some '#' := by
  unfold startsWith
  refine List.isPrefixOf_iff_prefix.trans ?_
  cases s.toList with
  | nil => decide
  | cons c cs =>
      have hash : "#".toList = ['#'] := rfl
      rw [hash, List.cons_prefix_cons, List.head?_cons, Option.some.injEq]
      exact ⟨fun h => h.1.symm, fun h => ⟨h.symm, List.nil_prefix⟩⟩

/-- A comment is a line whose first word starts with `#`. -/
theorem startsWith_trimStart {line : String} :
    startsWith (trimStart line) "#" = true ↔
      ∃ w ws, wordsOf line.toList = w :: ws ∧ startsWith w "#" = true := by
  have hhead := head?_dropWhile (p := isWhitespace) line.toList
  rw [startsWith_hash, trimStart, String.toList_ofList, hhead]
  unfold wordsOf
  cases hwords : words isWhitespace line.toList with
  | nil => simp
  | cons w ws => simp [startsWith_hash]

/-- The first word begins with a character that is not white space. -/
theorem head_word {line w : List Char} {ws : List (List Char)}
    (h : words isWhitespace line = w :: ws) :
    ∃ c, w.head? = some c ∧ isWhitespace c = false := by
  have hw : w ∈ words isWhitespace line := h ▸ List.mem_cons_self
  obtain ⟨hne, hchars⟩ := of_mem_words hw
  cases w with
  | nil => exact absurd rfl hne
  | cons c cs => exact ⟨c, rfl, (hchars c List.mem_cons_self).2⟩

/-- A line with a word in it is not blank. -/
theorem trim_ne_empty {line : String}
    (h : words isWhitespace line.toList ≠ []) : trim line ≠ "" := by
  intro htrim
  have hrest : (line.toList.dropWhile isWhitespace).reverse.dropWhile
      isWhitespace = [] := by
    have hlist := congrArg String.toList htrim
    rw [trim, String.toList_ofList] at hlist
    exact List.reverse_eq_nil_iff.mp hlist
  have hall : ∀ c ∈ line.toList.dropWhile isWhitespace,
      isWhitespace c = true := by
    intro c hc
    exact List.dropWhile_eq_nil_iff.mp hrest c (List.mem_reverse.mpr hc)
  cases hwords : words isWhitespace line.toList with
  | nil => exact h hwords
  | cons w ws =>
      obtain ⟨c, hhead, hblank⟩ := head_word hwords
      have hskip := head?_dropWhile (p := isWhitespace) line.toList
      rw [hwords, List.head?_cons, Option.bind_some, hhead] at hskip
      rw [hall c (List.mem_of_head? hskip)] at hblank
      cases hblank

/-- What `parse_fstab` makes of one line. The line is trimmed to be tested and
split to be parsed, and both tests are on its first word: none at all, or one
that starts a comment. -/
theorem parseLine_eq (line : String) :
    (if isEntryLine line then parseLine line else none) =
      entryOfWords (splitWhitespace line) := by
  rw [splitWhitespace_eq]
  unfold isEntryLine parseLine
  rw [splitWhitespace_eq]
  cases hwords : wordsOf line.toList with
  | nil => simp [entryOfWords]
  | cons w ws =>
      have hne : words isWhitespace line.toList ≠ [] := by
        intro h
        rw [wordsOf, h] at hwords
        cases hwords
      have htrim : (trim line != "") = true := by
        simpa using trim_ne_empty hne
      have hcomment : startsWith (trimStart line) "#" = startsWith w "#" := by
        rw [Bool.eq_iff_iff, startsWith_trimStart, hwords]
        constructor
        · rintro ⟨w', ws', heq, h⟩
          rw [(List.cons.inj heq).1]
          exact h
        · intro h
          exact ⟨w, ws, rfl, h⟩
      rw [hcomment, htrim, Bool.and_true]
      unfold entryOfWords
      rcases ws with _ | ⟨file, _ | ⟨vfstype, _ | ⟨options, rest⟩⟩⟩
      · simp
      · simp
      · simp
      · by_cases hhash : startsWith w "#" = true
        · simp [hhash]
        · simp [hhash]

/-- A carriage return at the end of a line is in no word. -/
theorem wordsOf_dropCr (piece : List Char) :
    wordsOf (if piece.getLast? = some '\r' then piece.dropLast else piece) =
      wordsOf piece := by
  split
  · rename_i hlast
    have hpiece : piece = piece.dropLast ++ ['\r'] :=
      (List.dropLast_append_getLast? '\r' hlast).symm
    have hcr : words isWhitespace piece =
        words isWhitespace piece.dropLast := by
      rw [hpiece, words_concat_sep _ (by decide), ← hpiece]
    rw [wordsOf, wordsOf, hcr]
  · rfl

/-- What is read off the words of each line can be read off the pieces between
newlines. -/
theorem filterMap_lines {β : Type} {f : List String → Option β}
    (hnil : f [] = none) (content : String) :
    (lines content).filterMap (fun line => f (splitWhitespace line)) =
      (content.toList.splitOn '\n').filterMap (fun piece =>
        f (wordsOf piece)) := by
  have hpieces : ∀ pieces : List (List Char),
      ((linePieces pieces).map String.ofList).filterMap
          (fun line => f (splitWhitespace line)) =
        pieces.filterMap (fun piece => f (wordsOf piece)) := by
    intro pieces
    induction pieces with
    | nil => rfl
    | cons piece rest ih =>
        cases rest with
        | nil =>
            by_cases hempty : piece = []
            · subst hempty
              simp [linePieces, wordsOf, hnil]
            · have hlast : linePieces [piece] = [piece] := if_neg hempty
              rw [hlast, List.map_singleton, List.filterMap_cons,
                splitWhitespace_eq, String.toList_ofList]
              rfl
        | cons next rest =>
            have hcons : linePieces (piece :: next :: rest) =
                (if piece.getLast? = some '\r' then piece.dropLast
                  else piece) :: linePieces (next :: rest) := rfl
            rw [hcons, List.map_cons, List.filterMap_cons, ih,
              splitWhitespace_eq, String.toList_ofList, wordsOf_dropCr]
            rfl
  exact hpieces (content.toList.splitOn '\n')

/-- **What `parse_fstab` reads.** -/
theorem parseFstab_eq (content : String) :
    parseFstab content = (lines content).filterMap
      (fun line => entryOfWords (splitWhitespace line)) := by
  unfold parseFstab
  rw [List.filterMap_filter]
  exact List.filterMap_congr fun line _ => parseLine_eq line

/-- **What `unmount_all` reads.** -/
theorem unmountPaths_eq (mounts : String) :
    unmountPaths mounts = ((lines mounts).filterMap
      (fun line => mountPointOfWords (splitWhitespace line))).reverse :=
  rfl

end FlintInit
