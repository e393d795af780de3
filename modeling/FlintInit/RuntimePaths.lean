import FlintInit.Service
import FlintInit.Library.Segments

/-!
# Where a ready path leads

`resolve` reads a path segment by segment from the root, as a file system
without symbolic links does.  The check of `ready.path` mixes a reading of the
path's components, which excludes `..`, with a comparison of the text's first
characters.  Together they confine the path: without `..` every segment only
leads further down, and the first characters are whole segments.
-/

namespace FlintInit

/-- Segments that stay in the directory reached. -/
def staysHere (segment : List Char) : Bool :=
  segment = [] ∨ segment = ['.']

/-- The segment for the directory above. -/
def goesUp (segment : List Char) : Bool := segment = ['.', '.']

/-- The names entered when a path is followed from the root. -/
def resolve (path : String) : List String :=
  (Segments.resolve staysHere goesUp (path.toList.splitOn '/')).map
    String.ofList

example : resolve "/run//x/./../y/" = ["run", "y"] ∧ resolve "/.././" = [] := by
  decide

/-- The component `..` is a segment of two dots. -/
theorem segmentComponent_eq_parentDir {segment : List Char} :
    segmentComponent segment = some .parentDir ↔ goesUp segment = true := by
  unfold segmentComponent goesUp
  grind

/-- A path has a `..` component when it has a `..` segment. -/
theorem parentDir_mem_components {path : String} :
    Component.parentDir ∈ components path ↔
      ∃ segment ∈ path.toList.splitOn '/', goesUp segment = true := by
  have hbody : Component.parentDir ∈
      (path.toList.splitOn '/').filterMap segmentComponent ↔
      ∃ segment ∈ path.toList.splitOn '/', goesUp segment = true := by
    simp only [List.mem_filterMap, segmentComponent_eq_parentDir]
  unfold components
  dsimp only
  split
  · simpa using hbody
  · split
    · simpa using hbody
    · exact hbody

/-- A path that starts in a directory has the directory's segments first. -/
theorem splitOn_of_startsWith {path dir : String}
    (h : startsWith path (dir ++ "/") = true) :
    ∃ below : List Char, path.toList.splitOn '/' =
      dir.toList.splitOn '/' ++ below.splitOn '/' := by
  obtain ⟨below, hbelow⟩ := List.isPrefixOf_iff_prefix.mp h
  refine ⟨below, ?_⟩
  have htext : path.toList = dir.toList ++ '/' :: below := by
    rw [← hbelow, String.toList_append]
    simp
  rw [htext, List.splitOn_append_cons_self]

/-- A path without `..` in a directory resolves to a path in that
directory. -/
theorem resolve_of_startsWith (dir : String) {path : String}
    (hup : Component.parentDir ∉ components path)
    (h : startsWith path (dir ++ "/") = true) :
    ((dir.toList.splitOn '/').filter (fun s => !staysHere s)).map
      String.ofList <+: resolve path := by
  have hno : ∀ segment ∈ path.toList.splitOn '/', goesUp segment = false := by
    intro segment hsegment
    by_contra hgoes
    rw [Bool.not_eq_false] at hgoes
    exact hup (parentDir_mem_components.mpr ⟨segment, hsegment, hgoes⟩)
  obtain ⟨below, hsegments⟩ := splitOn_of_startsWith h
  unfold resolve
  rw [Segments.resolve_of_no_up hno, hsegments, List.filter_append,
    List.map_append]
  exact List.prefix_append _ _

/-- A name that is one segment of a path and enters a directory. -/
structure PlainName (name : String) : Prop where
  nonempty : name ≠ ""
  noSlash : '/' ∉ name.toList
  notHere : name ≠ "."
  notUp : name ≠ ".."

/-- A plain name does not lead up. -/
theorem PlainName.not_goesUp {name : String} (h : PlainName name) :
    goesUp name.toList = false := by
  unfold goesUp
  refine decide_eq_false fun hname => h.notUp ?_
  exact String.toList_inj.mp hname

/-- Joining plain names under a directory gives the segments of both. -/
theorem splitOn_join_names {dir : String} {names : List String}
    (hne : names ≠ []) (hnames : ∀ name ∈ names, PlainName name) :
    (dir ++ "/" ++ "/".intercalate names).toList.splitOn '/' =
      dir.toList.splitOn '/' ++ names.map String.toList := by
  have htext : (dir ++ "/" ++ "/".intercalate names).toList =
      dir.toList ++ '/' :: ['/'].intercalate (names.map String.toList) := by
    rw [String.toList_append, String.toList_append, String.toList_intercalate]
    simp
  have hslash : ∀ name ∈ names.map String.toList, '/' ∉ name := by
    intro name hname
    obtain ⟨s, hs, rfl⟩ := List.mem_map.mp hname
    exact (hnames s hs).noSlash
  rw [htext, List.splitOn_append_cons_self,
    List.splitOn_intercalate '/' hslash (by simpa using hne)]

/-- Plain names under a runtime directory are accepted. -/
theorem runtimePath_of_names {dir : String} {names : List String}
    (hdir : dir = "/run" ∨ dir = "/var/run") (hne : names ≠ [])
    (hnames : ∀ name ∈ names, PlainName name) :
    RuntimePath (dir ++ "/" ++ "/".intercalate names) := by
  have hstart : ∀ pre : String, pre.toList <+: (dir ++ "/").toList →
      startsWith (dir ++ "/" ++ "/".intercalate names) pre = true := by
    intro pre hpre
    unfold startsWith
    rw [String.toList_append]
    refine List.isPrefixOf_iff_prefix.mpr ?_
    exact hpre.trans (List.prefix_append _ _)
  have hdirUp : ∀ segment ∈ dir.toList.splitOn '/',
      goesUp segment = false := by
    rcases hdir with rfl | rfl <;> decide
  constructor
  · refine hstart "/" ?_
    rcases hdir with rfl | rfl <;> decide
  · rw [parentDir_mem_components, splitOn_join_names hne hnames]
    rintro ⟨segment, hsegment, hup⟩
    have hno : goesUp segment = false := by
      rcases List.mem_append.mp hsegment with hs | hs
      · exact hdirUp segment hs
      · obtain ⟨name, hname, rfl⟩ := List.mem_map.mp hs
        exact (hnames name hname).not_goesUp
    rw [hno] at hup
    cases hup
  · rcases hdir with rfl | rfl
    · exact .inl (hstart "/run/" List.prefix_rfl)
    · exact .inr (hstart "/var/run/" List.prefix_rfl)

/-- **Validation confines the ready path.**  A definition that passes has a
ready path that resolves into `/run` or `/var/run`, and plain names under
these directories pass. -/
theorem ready_path_confined (svc : ServiceDef) :
    (svc.validate = .ok () → ∀ path, svc.readyPath = some path →
      ["run"] <+: resolve path ∨ ["var", "run"] <+: resolve path) ∧
    (∀ base ∈ ["/run/", "/var/run/"], ∀ names : List String, names ≠ [] →
      (∀ name ∈ names, PlainName name) →
      svc.readyPath = some (base ++ "/".intercalate names) →
      svc.validate = .ok ()) := by
  constructor
  · intro hvalid path hpath
    have hrun := svc.validate_eq_ok_iff.mp hvalid path hpath
    rcases hrun.confined with h | h
    · exact .inl (resolve_of_startsWith "/run" hrun.noParent h)
    · exact .inr (resolve_of_startsWith "/var/run" hrun.noParent h)
  · intro base hbase names hne hnames hpath
    obtain ⟨dir, hdir, rfl⟩ :
        ∃ dir, (dir = "/run" ∨ dir = "/var/run") ∧ base = dir ++ "/" := by
      rcases List.mem_cons.mp hbase with rfl | hbase
      · exact ⟨"/run", .inl rfl, rfl⟩
      · exact ⟨"/var/run", .inr rfl, List.mem_singleton.mp hbase⟩
    refine svc.validate_eq_ok_iff.mpr fun path hmem => ?_
    have heq : path = dir ++ "/" ++ "/".intercalate names :=
      Option.some.inj (hmem.symm.trans hpath)
    rw [heq]
    exact runtimePath_of_names hdir hne hnames

/-- A definition with a pidfile. -/
def withPidfile (name path : String) : ServiceDef :=
  { makeService name [] [] with ready := some ⟨.pidfile, some path⟩ }

/-- A path with empty segments and `.` in it stays in the runtime directory,
and a usual pid file is accepted. -/
theorem ready_path_confined_db :
    (["run"] <+: resolve "/run//./db/" ∨
      ["var", "run"] <+: resolve "/run//./db/") ∧
    (withPidfile "db" "/var/run/db/db.pid").validate = .ok () := by
  constructor
  · exact (ready_path_confined (withPidfile "db" "/run//./db/")).1
      (by decide) _ rfl
  · refine (ready_path_confined (withPidfile "db" "/var/run/db/db.pid")).2
      "/var/run/" (by decide) ["db", "db.pid"] (by decide) ?_ rfl
    intro name hname
    rcases List.mem_cons.mp hname with rfl | hname
    · exact ⟨by decide, by decide, by decide, by decide⟩
    · cases List.mem_singleton.mp hname
      exact ⟨by decide, by decide, by decide, by decide⟩

end FlintInit
