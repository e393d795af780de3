import FlintInit.MountTables
import FlintInit.Library.MountTree

/-!
# The mounts the kernel has

A namespace is the root file system and the tree of what is mounted on it, and
`/proc/mounts` shows it line by line in the order of mounting.  `unmount_all`
reads that text once and detaches the paths in it from the last line up, while
the namespace changes under it.  `unmountAll_detaches` says that every call
meets its mount, and what is left.
-/

namespace FlintInit

open MountTree Splitting

/-- What is mounted: the source, the type and the options shown. -/
structure FsInfo where
  source : String
  fstype : String
  options : String
  deriving DecidableEq

/-- The root file system, and the mounts in their order. -/
structure Namespace where
  root : FsInfo
  mounts : List (Mount String FsInfo)
  deriving DecidableEq

/-- A path from the root. -/
def pathText (point : List String) : String := "/" ++ "/".intercalate point

/-! ## `/proc/mounts` -/

/-- The line of a mount. -/
def procLine (info : FsInfo) (point : List String) : List Char :=
  encodeField info.source ++ ([' '] ++ (encodeField (pathText point) ++
    ([' '] ++ (encodeField info.fstype ++ ([' '] ++
      (encodeField info.options ++ " 0 0".toList))))))

def Namespace.procLines (ns : Namespace) : List (List Char) :=
  procLine ns.root [] :: ns.mounts.map (fun m => procLine m.kind m.point)

/-- What reading `/proc/mounts` returns. -/
def Namespace.procMounts (ns : Namespace) : String :=
  String.ofList (ns.procLines.flatMap (· ++ ['\n']))

/-! ## The calls -/

/-- A file system that `unmount_all` is to detach. -/
def detachable (m : Mount String FsInfo) : Bool :=
  m.point ≠ [] ∧ m.kind.fstype ∉ skipTypes

namespace Namespace

variable (succeeds : MountRequest → Bool) (shown : MountRequest → String)

/-- What one call does to a namespace; none when the kernel refuses it.
Mounts succeed as told, and detaching needs a mount point. -/
def perform (ns : Namespace) : MountEvent → Option Namespace
  | .mount request =>
      if succeeds request then
        some { ns with
          mounts := attach ns.mounts (resolve request.target)
            ⟨request.source, request.fstype, shown request⟩ }
      else some ns
  | .umount2 path =>
      (umount ns.mounts (resolve path)).map (fun mounts =>
        { ns with mounts := mounts })
  | .eprintln _ | .createDirAll _ | .sync => some ns

/-- The namespace without the detachable mounts, and without what is mounted
below them. -/
def detached (ns : Namespace) : Namespace :=
  { ns with
    mounts := ns.mounts.filter (fun m =>
      clearOf ns.mounts (ns.mounts.filter detachable) m.id) }

end Namespace

/-! ## Reading `/proc/mounts` -/

/-- Fields that stay one word each in `/proc/mounts`. -/
structure Legible (info : FsInfo) : Prop where
  source : info.source ≠ "" ∧
    ∀ c ∈ info.source.toList, isWhitespace c = false
  fstype : info.fstype ≠ "" ∧ PlainField info.fstype

/-- A mount point whose names are written as they are. -/
def PlainPoint (point : List String) : Prop :=
  ∀ name ∈ point, PlainName name ∧ PlainField name

/-- The test for white space, for each character. -/
theorem unbroken_iff_all {s : String} :
    s.toList.all (fun c => !isWhitespace c) = true ↔
      ∀ c ∈ s.toList, isWhitespace c = false := by
  simp [List.all_eq_true]

instance (field : String) : Decidable (PlainField field) :=
  decidable_of_iff
    (field.toList.all (fun c => !isWhitespace c && c != '\\') = true)
    (by simp [PlainField, List.all_eq_true])

instance (name : String) : Decidable (PlainName name) :=
  decidable_of_iff (name ≠ "" ∧ '/' ∉ name.toList ∧ name ≠ "." ∧ name ≠ "..")
    ⟨fun h => ⟨h.1, h.2.1, h.2.2.1, h.2.2.2⟩,
      fun h => ⟨h.nonempty, h.noSlash, h.notHere, h.notUp⟩⟩

instance (info : FsInfo) : Decidable (Legible info) :=
  decidable_of_iff ((info.source ≠ "" ∧
      info.source.toList.all (fun c => !isWhitespace c) = true) ∧
      info.fstype ≠ "" ∧ PlainField info.fstype)
    ⟨fun h => ⟨⟨h.1.1, unbroken_iff_all.mp h.1.2⟩, h.2⟩,
      fun h => ⟨⟨h.source.1, unbroken_iff_all.mpr h.source.2⟩, h.fstype⟩⟩

instance (point : List String) : Decidable (PlainPoint point) :=
  inferInstanceAs (Decidable (∀ name ∈ point, _))

/-- The text of a path: a slash, and its components between slashes. -/
theorem pathText_toList (point : List String) :
    (pathText point).toList =
      '/' :: ['/'].intercalate (point.map String.toList) := by
  rw [pathText, String.toList_append, String.toList_intercalate]
  rfl

/-- A mount point is found under its path. The path is a slash before each
name, and names that are plain stay here or go up in no place, so each of them
comes back. -/
theorem resolve_pathText {point : List String} (h : PlainPoint point) :
    resolve (pathText point) = point := by
  by_cases hnil : point = []
  · subst hnil
    decide
  · have hnames : ∀ name ∈ point, PlainName name := fun n hn => (h n hn).1
    have hsplit : (pathText point).toList.splitOn '/' =
        [] :: point.map String.toList := by
      have hjoin := @splitOn_join_names "" point hnil hnames
      have htext : "" ++ "/" ++ "/".intercalate point = pathText point := rfl
      rw [htext] at hjoin
      simpa using hjoin
    have hup : ∀ s ∈ [] :: point.map String.toList, goesUp s = false := by
      intro s hs
      rcases List.mem_cons.mp hs with rfl | hs
      · rfl
      · obtain ⟨name, hname, rfl⟩ := List.mem_map.mp hs
        exact (hnames name hname).not_goesUp
    have hhere : ∀ s ∈ point.map String.toList, (!staysHere s) = true := by
      intro s hs
      obtain ⟨name, hname, rfl⟩ := List.mem_map.mp hs
      have hne := (hnames name hname).nonempty
      have hdot := (hnames name hname).notHere
      simp only [staysHere, Bool.not_eq_true', decide_eq_false_iff_not, not_or]
      refine ⟨fun h => hne (String.toList_eq_nil_iff.mp h), fun h => hdot ?_⟩
      exact String.toList_inj.mp h
    rw [resolve, hsplit, Segments.resolve_of_no_up hup,
      List.filter_cons_of_neg (by decide), List.filter_eq_self.mpr hhere]
    simp [List.map_map]

/-- The root can be shown in a line. -/
theorem PlainPoint.nil : PlainPoint [] := by
  intro name hname
  cases hname

/-- The text of a plain path has neither white space nor a backslash. Its
characters are those of the names and the slashes between them; the induction
is on the names. -/
theorem PlainPoint.plainField {point : List String} (h : PlainPoint point) :
    PlainField (pathText point) := by
  intro c hc
  rw [pathText_toList] at hc
  have hall : ∀ names : List String, (∀ name ∈ names, PlainField name) →
      ∀ c ∈ ['/'].intercalate (names.map String.toList),
        isWhitespace c = false ∧ c ≠ '\\' := by
    intro names
    induction names with
    | nil => intro _ c hc; cases hc
    | cons name names ih =>
        intro hnames c hc
        have hrest := ih fun n hn => hnames n (List.mem_cons_of_mem _ hn)
        have hname := hnames name List.mem_cons_self
        cases names with
        | nil => exact hname c (by simpa [List.intercalate] using hc)
        | cons next names =>
            have hcat : ['/'].intercalate
                  ((name :: next :: names).map String.toList) =
                name.toList ++ '/' ::
                  ['/'].intercalate ((next :: names).map String.toList) := by
              simp [List.intercalate]
            rw [hcat] at hc
            rcases List.mem_append.mp hc with hc | hc
            · exact hname c hc
            · rcases List.mem_cons.mp hc with rfl | hc
              · decide
              · exact hrest c hc
  rcases List.mem_cons.mp hc with rfl | hc
  · decide
  · exact hall point (fun name hname => (h name hname).2) c hc

/-- A line is read as the mount point it is for. The first three fields come
back as words, and the root and the types to be skipped are told by the second
and the third. -/
theorem mountPoint_procLine {info : FsInfo} {point : List String}
    (hinfo : Legible info) (hpoint : PlainPoint point) :
    mountPointOfWords (wordsOf (procLine info point)) =
      if point ≠ [] ∧ info.fstype ∉ skipTypes then some (pathText point)
      else none := by
  have hgap : ∀ c ∈ [' '], isWhitespace c = true :=
    List.forall_mem_singleton.mpr (by decide)
  have hfield : ∀ {field : String}, field ≠ "" →
      (∀ c ∈ field.toList, isWhitespace c = false) → ∀ rest,
      words isWhitespace (encodeField field ++ ([' '] ++ rest)) =
        encodeField field :: words isWhitespace rest := by
    intro field hne hunbroken rest
    exact words_word_gap (encodeField_ne_nil hne)
      (encodeField_unbroken hunbroken) (by simp) hgap rest
  have hpath : pathText point ≠ "" := by
    intro h
    have hlist := congrArg String.toList h
    rw [pathText_toList] at hlist
    cases hlist
  have hplain := hpoint.plainField
  have hroot : pathText point = "/" ↔ point = [] := by
    constructor
    · intro h
      rw [← resolve_pathText hpoint, h]
      decide
    · rintro rfl
      rfl
  rw [wordsOf, procLine, hfield hinfo.source.1 hinfo.source.2,
    hfield hpath fun c hc => (hplain c hc).1,
    hfield hinfo.fstype.1 fun c hc => (hinfo.fstype.2 c hc).1,
    hplain.encode, hinfo.fstype.2.encode, List.map_cons, List.map_cons,
    List.map_cons, String.ofList_toList, String.ofList_toList,
    mountPointOfWords]
  by_cases hnil : point = []
  · rw [if_pos (hroot.mpr hnil)]
    simp [hnil]
  · by_cases hskip : info.fstype ∈ skipTypes
    · simp [hnil, hskip]
    · simp [hroot, hnil, hskip]

/-- A line of the table is one line, whatever its fields hold, since newlines
are written in octal. -/
theorem newline_notMem_procLine (info : FsInfo) (point : List String) :
    '\n' ∉ procLine info point := by
  simp only [procLine, List.mem_append, not_or]
  refine ⟨newline_notMem_encodeField _, by decide,
    newline_notMem_encodeField _, by decide, newline_notMem_encodeField _,
    by decide, newline_notMem_encodeField _, by decide⟩

/-- What is read off lines that each end in a newline. -/
theorem filterMap_newlines {β : Type} {f : List String → Option β}
    (hnil : f [] = none) {ls : List (List Char)} (h : ∀ l ∈ ls, '\n' ∉ l) :
    (lines (String.ofList (ls.flatMap (· ++ ['\n'])))).filterMap
        (fun line => f (splitWhitespace line)) =
      ls.filterMap (fun l => f (wordsOf l)) := by
  rw [filterMap_lines hnil, String.toList_ofList]
  induction ls with
  | nil => simp [wordsOf, hnil]
  | cons l ls ih =>
      have hl := h l List.mem_cons_self
      rw [List.flatMap_cons, List.append_assoc, List.singleton_append,
        List.splitOn_append_cons_self, List.splitOn_eq_singleton hl,
        List.filterMap_append,
        ih fun l' hl' => h l' (List.mem_cons_of_mem l hl'),
        ← List.filterMap_append]
      rfl

/-- A namespace whose lines are read as what they show. -/
structure Namespace.Readable (ns : Namespace) : Prop where
  root : Legible ns.root
  mounts : ∀ m ∈ ns.mounts, Legible m.kind ∧ PlainPoint m.point

instance (ns : Namespace) : Decidable ns.Readable :=
  decidable_of_iff (Legible ns.root ∧
      ∀ m ∈ ns.mounts, Legible m.kind ∧ PlainPoint m.point)
    ⟨fun h => ⟨h.1, h.2⟩, fun h => ⟨h.root, h.mounts⟩⟩

/-- `unmount_all` takes the detachable mounts, from the last one up. The table
has one line for the root, which is skipped, and then one for each mount, in
order. -/
theorem unmountPaths_procMounts {ns : Namespace} (h : ns.Readable) :
    unmountPaths ns.procMounts =
      (((ns.mounts.filter detachable).map Mount.point).reverse).map
        pathText := by
  have hline : ∀ l ∈ ns.procLines, '\n' ∉ l := by
    intro l hl
    rcases List.mem_cons.mp hl with rfl | hl
    · exact newline_notMem_procLine _ _
    · obtain ⟨m, -, rfl⟩ := List.mem_map.mp hl
      exact newline_notMem_procLine _ _
  have hmounts : ∀ ms : List (Mount String FsInfo),
      (∀ m ∈ ms, Legible m.kind ∧ PlainPoint m.point) →
      (ms.map (fun m => procLine m.kind m.point)).filterMap
          (fun l => mountPointOfWords (wordsOf l)) =
        ((ms.filter detachable).map Mount.point).map pathText := by
    intro ms
    induction ms with
    | nil => intro _; rfl
    | cons m ms ih =>
        intro hms
        obtain ⟨hinfo, hpoint⟩ := hms m List.mem_cons_self
        have hrest := ih fun s hs => hms s (List.mem_cons_of_mem m hs)
        rw [List.map_cons, List.filterMap_cons,
          mountPoint_procLine hinfo hpoint, hrest, List.filter_cons]
        by_cases hdet : m.point ≠ [] ∧ m.kind.fstype ∉ skipTypes
        · have hm : detachable m = true := decide_eq_true hdet
          rw [if_pos hdet, if_pos hm]
          rfl
        · rw [if_neg hdet, if_neg (by simpa [detachable] using hdet)]
  have hrootLine : mountPointOfWords (wordsOf (procLine ns.root [])) =
      none := by
    rw [mountPoint_procLine h.root .nil]
    rfl
  rw [unmountPaths_eq, Namespace.procMounts, filterMap_newlines rfl hline,
    Namespace.procLines, List.filterMap_cons, hrootLine, hmounts _ h.mounts,
    List.map_reverse]

/-! ## Detaching -/

section Detaching

variable {succeeds : MountRequest → Bool} {shown : MountRequest → String}

/-- The calls of `unmount_all` on the namespace they change. -/
theorem perform_umounts {points : List (List String)}
    (hplain : ∀ point ∈ points, PlainPoint point) (ns : Namespace) :
    ((points.map pathText).flatMap (fun path =>
        [MountEvent.eprintln ("[pid1] unmounting " ++ path),
          .umount2 path])).foldlM (Namespace.perform succeeds shown) ns =
      (points.foldlM umount ns.mounts).map (fun mounts =>
        { ns with mounts := mounts }) := by
  induction points generalizing ns with
  | nil => rfl
  | cons point points ih =>
      have hpoint := resolve_pathText (hplain point List.mem_cons_self)
      have hrest := ih fun p hp => hplain p (List.mem_cons_of_mem point hp)
      rw [List.map_cons, List.flatMap_cons, List.foldlM_append,
        List.foldlM_cons, List.foldlM_cons]
      simp only [Namespace.perform, hpoint, Option.bind_eq_bind,
        Option.bind_some, List.foldlM_cons, List.foldlM_nil]
      cases umount ns.mounts point with
      | none => rfl
      | some mounts => exact hrest _

/-- **What `unmount_all` leaves mounted.**  Over a namespace in which no mount
of a type it skips lies over an earlier one that it is to detach, every call
meets its mount, and in the end these mounts are gone together with what was
mounted below them. -/
theorem unmountAll_detaches {ns : Namespace} (hstacked : Stacked ns.mounts)
    (hread : ns.Readable) (huncovered : Uncovered detachable ns.mounts) :
    (unmountAll (fun _ => .ok ()) (fun _ => .ok ns.procMounts)).foldlM
      (Namespace.perform succeeds shown) ns = some ns.detached := by
  have hpaths := unmountPaths_procMounts hread
  have hplain : ∀ point ∈
      ((ns.mounts.filter detachable).map Mount.point).reverse,
      PlainPoint point := by
    intro point hpoint
    obtain ⟨m, hm, rfl⟩ := List.mem_map.mp (List.mem_reverse.mp hpoint)
    exact (hread.mounts m (List.mem_filter.mp hm).1).2
  unfold unmountAll
  dsimp only
  rw [hpaths, List.foldlM_append, perform_umounts hplain,
    unwind hstacked huncovered]
  rfl

end Detaching

end FlintInit
