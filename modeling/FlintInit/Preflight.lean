import FlintInit.CacheLoad
import FlintInit.Executor
import FlintInit.HasCycle
import FlintInit.Library.Splitting

/-!
# The preflight check

`check::run_preflight` over a service directory: it reads and parses the
`.toml` files by itself, looks for cycles with `has_cycle`, and sorts the
services into those that are fine, those with warnings and those with errors.

A directory without errors parses as a load parses it, and its graph can be
built.  What the check does not look at is whether `exec` gives a program:
`clean_preflight_boots_iff` says which clean directories boot.
-/

namespace FlintInit

structure PreflightResult where
  ok : List String
  warnings : List (String × String)
  errors : List (String × String)
  deriving DecidableEq

/-- What `metadata` says about a path. -/
structure Metadata where
  isFile : Bool
  mode : Nat

/-- Paths that are not checked for writability. -/
def isEphemeralPath (path : String) : Bool :=
  startsWith path "/run/" || startsWith path "/var/run/" ||
    startsWith path "/dev/"

/-- `Path::file_stem` of a file name. -/
def fileStem (filename : String) : String :=
  match extension filename with
  | none => filename
  | some ext => String.ofList (filename.toList.take
      (filename.toList.length - ext.toList.length - 1))

/-- `sort_by` on the first components, which is stable. -/
def sortByName (xs : List (String × String)) : List (String × String) :=
  xs.mergeSort (fun a b => a.1 ≤ b.1)

namespace PreflightResult

def empty : PreflightResult := ⟨[], [], []⟩

def addOk (r : PreflightResult) (name : String) : PreflightResult :=
  { r with ok := r.ok ++ [name] }

def addWarning (r : PreflightResult) (name text : String) :
    PreflightResult :=
  { r with warnings := r.warnings ++ [(name, text)] }

def addError (r : PreflightResult) (name text : String) : PreflightResult :=
  { r with errors := r.errors ++ [(name, text)] }

def sort (r : PreflightResult) : PreflightResult :=
  ⟨Collections.sorted r.ok, sortByName r.warnings, sortByName r.errors⟩

end PreflightResult

section Check

variable {Bytes : Type} (fromStr : String → Except String ServiceDef)
  (disk : Disk Bytes) (metadata : String → Except IoError Metadata)
  (dir : String)

def isExecutable (path : String) : Bool :=
  match metadata path with
  | .error _ => false
  | .ok m => m.isFile && m.mode &&& 0o111 != 0

/-- One item of the listing: an error, or one more definition. -/
def readService (acc : PreflightResult × List ServiceDef)
    (entry : DirEntry) : PreflightResult × List ServiceDef :=
  if extension entry.filename ≠ some "toml" then acc
  else
    let name := fileStem entry.filename
    match disk.readToString (join dir entry.filename) with
    | .error e => (acc.1.addError name ("read error: " ++ e.text), acc.2)
    | .ok content =>
        match fromStr (trimEndNul content) with
        | .error e => (acc.1.addError name ("parse error: " ++ e), acc.2)
        | .ok defn =>
            match defn.validate with
            | .error e => (acc.1.addError name e, acc.2)
            | .ok () => (acc.1, acc.2 ++ [defn])

/-- Binary exists and is executable. -/
def execWarnings (svc : ServiceDef) : List String :=
  let execBin := (splitWhitespace svc.service.exec).headD ""
  if execBin ≠ "" ∧ isExecutable metadata execBin = false then
    [execBin ++ " not found"]
  else []

/-- `needs` deps must all be installed. -/
def needsErrors (serviceNames : List String) (svc : ServiceDef) :
    List String :=
  (svc.needs.filter (· ∉ serviceNames)).map
    (fun dep => "broken needs-dep \"" ++ dep ++ "\" (not installed)")

/-- `after` deps missing are a warning. -/
def afterWarnings (serviceNames : List String) (svc : ServiceDef) :
    List String :=
  match svc.deps with
  | none => []
  | some deps =>
      (deps.after.filter (· ∉ serviceNames)).map
        (fun dep => "unknown after-dep \"" ++ dep ++ "\"")

/-- Writability of the parent of `ready.path`. -/
def readyWarnings (svc : ServiceDef) : List String :=
  match svc.readyPath with
  | none => []
  | some path =>
      if isEphemeralPath path then []
      else
        match parent path with
        | none => []
        | some up =>
            match metadata up with
            | .error _ => []
            | .ok m =>
                if m.mode &&& 0o200 = 0 then
                  ["parent dir of " ++ path ++ " may not be writable"]
                else []

/-- The verdict on one service. -/
def checkService (serviceNames : List String) (r : PreflightResult)
    (svc : ServiceDef) : PreflightResult :=
  let svcErrors := needsErrors serviceNames svc
  let svcWarnings := execWarnings metadata svc ++
    afterWarnings serviceNames svc ++ readyWarnings metadata svc
  if svcErrors ≠ [] then
    r.addError svc.name ("; ".intercalate svcErrors)
  else if svcWarnings ≠ [] then
    r.addWarning svc.name ("; ".intercalate svcWarnings)
  else r.addOk svc.name

/-- Items that cannot be listed are passed over. -/
def runPreflight (orders : CycleOrders) : Except Fault PreflightResult :=
  match disk.readDir with
  | .error _ => .ok .empty
  | .ok items =>
      let entries := items.filterMap Except.toOption
      let found := entries.foldl (readService fromStr disk dir) (.empty, [])
      let services := found.2
      match hasCycle orders services with
      | .error fault => .error fault
      | .ok cycle =>
          let r := services.foldl
            (checkService metadata (services.map ServiceDef.name)) found.1
          let r :=
            if cycle then r.addError "(graph)" "dependency cycle detected"
            else r
          .ok r.sort

end Check

/-! ## Which definitions can be executed -/

/-- The characters of the pieces are those that are not white space. -/
theorem mem_splitWhitespace {s : String} {c : Char} :
    (∃ piece ∈ splitWhitespace s, c ∈ piece.toList) ↔
      c ∈ s.toList ∧ isWhitespace c = false := by
  rw [← Splitting.mem_splitOnP]
  unfold splitWhitespace
  constructor
  · rintro ⟨piece, hpiece, hc⟩
    obtain ⟨chars, hchars, rfl⟩ := List.mem_map.mp hpiece
    rw [String.toList_ofList] at hc
    exact ⟨chars, List.mem_of_mem_filter hchars, hc⟩
  · rintro ⟨chars, hchars, hc⟩
    refine ⟨String.ofList chars, List.mem_map_of_mem ?_, ?_⟩
    · refine List.mem_filter.mpr ⟨hchars, ?_⟩
      exact decide_eq_true (List.ne_nil_of_mem hc)
    · rw [String.toList_ofList]
      exact hc

/-- A word has at least one character. -/
theorem ne_empty_of_mem_splitWhitespace {s piece : String}
    (h : piece ∈ splitWhitespace s) : ∃ c, c ∈ piece.toList := by
  obtain ⟨chars, hchars, rfl⟩ := List.mem_map.mp h
  have hne := of_decide_eq_true (List.mem_filter.mp hchars).2
  rw [String.toList_ofList]
  exact List.exists_mem_of_ne_nil _ hne

/-- `exec` and `args` give a program. -/
def Runnable (svc : ServiceDef) : Prop :=
  match svc.service.args with
  | some args =>
      svc.service.exec ≠ "" ∧ hasNul svc.service.exec = false ∧
        ∀ arg ∈ args, hasNul arg = false
  | none =>
      (∃ c ∈ svc.service.exec.toList, isWhitespace c = false) ∧
        hasNul svc.service.exec = false

/-- A NUL is looked for among the characters. -/
theorem hasNul_eq_true {s : String} :
    hasNul s = true ↔ '\x00' ∈ s.toList := by
  simp [hasNul]

/-- NUL is no white space, so splitting neither drops nor hides one. -/
theorem any_hasNul_splitWhitespace (s : String) :
    (splitWhitespace s).any hasNul = hasNul s := by
  rw [Bool.eq_iff_iff, List.any_eq_true, hasNul_eq_true]
  simp only [hasNul_eq_true]
  rw [mem_splitWhitespace]
  exact and_iff_left (by decide)

/-- **Which definitions can be executed.**  Building the arguments succeeds on
these only, and does not panic on them. -/
theorem buildExecArgs_eq_ok_iff {svc : ServiceDef} :
    (∃ argv, buildExecArgs svc = .ok argv) ↔ Runnable svc := by
  unfold buildExecArgs Runnable
  cases svc.service.args with
  | some args =>
      dsimp only
      by_cases hempty : svc.service.exec = ""
      · simp [hempty]
      · rw [if_neg hempty]
        by_cases hnul : hasNul svc.service.exec = true
        · simp [hnul]
        · rw [if_neg hnul]
          by_cases hargs : args.any hasNul = true
          · rw [if_pos hargs]
            obtain ⟨arg, harg, hbad⟩ := List.any_eq_true.mp hargs
            refine iff_of_false (fun ⟨_, h⟩ => nomatch h) ?_
            rintro ⟨-, -, hall⟩
            rw [hall arg harg] at hbad
            cases hbad
          · rw [if_neg hargs]
            refine iff_of_true ⟨_, rfl⟩ ⟨hempty, by simpa using hnul, ?_⟩
            simpa using hargs
  | none =>
      dsimp only
      rw [any_hasNul_splitWhitespace]
      by_cases hexec : hasNul svc.service.exec = true
      · simp [hexec]
      · rw [if_neg hexec]
        rw [Bool.not_eq_true] at hexec
        cases hparts : splitWhitespace svc.service.exec with
        | nil =>
            refine iff_of_false (fun ⟨_, h⟩ => nomatch h) ?_
            rintro ⟨⟨c, hc⟩, -⟩
            obtain ⟨piece, hpiece, -⟩ := mem_splitWhitespace.mpr hc
            rw [hparts] at hpiece
            cases hpiece
        | cons program rest =>
            refine iff_of_true ⟨_, rfl⟩ ⟨?_, hexec⟩
            have hin : program ∈ splitWhitespace svc.service.exec :=
              hparts ▸ List.mem_cons_self
            obtain ⟨c, hc⟩ := ne_empty_of_mem_splitWhitespace hin
            exact ⟨c, mem_splitWhitespace.mp ⟨program, hin, hc⟩⟩

/-! ## A check without errors -/

/-- Whether a file is taken for a service file. -/
abbrev IsToml (entry : DirEntry) : Prop :=
  extension entry.filename = some "toml"

/-- The definitions are what the files parse to, in order. -/
def ParseTo (parse : String → Except LoadError ServiceDef)
    (filenames : List String) (services : List ServiceDef) : Prop :=
  List.Forall₂ (fun filename svc => parse filename = .ok svc) filenames
    services

/-- The definitions are those that some file of the directory parses to. -/
theorem ParseTo.mem_iff {parse : String → Except LoadError ServiceDef}
    {filenames : List String} {services : List ServiceDef}
    (h : ParseTo parse filenames services) {svc : ServiceDef} :
    svc ∈ services ↔ ∃ filename ∈ filenames, parse filename = .ok svc := by
  unfold ParseTo at h
  induction h with
  | nil => simp
  | @cons filename svc' rest services' hparse _ ih =>
      rw [List.mem_cons, List.exists_mem_cons_iff, ih, hparse,
        Except.ok.injEq, eq_comm]

section Clean

variable {Bytes : Type} {fromStr : String → Except String ServiceDef}
  {disk : Disk Bytes} {metadata : String → Except IoError Metadata}
  {dir : String}

/-- Reading one item adds an error or the definition its file parses to. Of an
item that is not a service file nothing is read, and nothing is added. -/
theorem readService_clean {acc : PreflightResult × List ServiceDef}
    {entry : DirEntry}
    (h : (readService fromStr disk dir acc entry).1.errors = []) :
    acc.1.errors = [] ∧
      ((¬ IsToml entry ∧ (readService fromStr disk dir acc entry).2 = acc.2) ∨
        IsToml entry ∧ ∃ svc,
          parseToml fromStr disk.readToString dir entry.filename = .ok svc ∧
          (readService fromStr disk dir acc entry).2 = acc.2 ++ [svc]) := by
  unfold readService at h ⊢
  unfold parseToml parseContent
  by_cases htoml : extension entry.filename = some "toml"
  · rw [if_neg (not_not_intro htoml)] at h ⊢
    dsimp only at h ⊢
    cases hread : disk.readToString (join dir entry.filename) with
    | error e => simp [hread, PreflightResult.addError] at h
    | ok content =>
        simp only [hread] at h ⊢
        cases hparse : fromStr (trimEndNul content) with
        | error e => simp [hparse, PreflightResult.addError] at h
        | ok svc =>
            simp only [hparse] at h ⊢
            cases hvalid : svc.validate with
            | error e => simp [hvalid, PreflightResult.addError] at h
            | ok u =>
                simp only [hvalid] at h ⊢
                exact ⟨h, .inr ⟨htoml, svc, rfl, rfl⟩⟩
  · rw [if_pos htoml] at h ⊢
    exact ⟨h, .inl ⟨htoml, rfl⟩⟩

/-- **The first loop without errors** has parsed every service file. -/
theorem readServices_clean :
    ∀ (entries : List DirEntry) (acc : PreflightResult × List ServiceDef),
      (entries.foldl (readService fromStr disk dir) acc).1.errors = [] →
      acc.1.errors = [] ∧ ∃ services,
        (entries.foldl (readService fromStr disk dir) acc).2 =
          acc.2 ++ services ∧
        ParseTo (parseToml fromStr disk.readToString dir)
          ((entries.filter (IsToml ·)).map DirEntry.filename) services := by
  intro entries
  induction entries with
  | nil => intro acc h; exact ⟨h, [], (List.append_nil _).symm, .nil⟩
  | cons entry rest ih =>
      intro acc h
      rw [List.foldl_cons] at h ⊢
      obtain ⟨hfirst, services, heq, hparse⟩ := ih _ h
      obtain ⟨hacc, ⟨htoml, hsame⟩ | ⟨htoml, svc, hsvc, hadded⟩⟩ :=
        readService_clean hfirst
      · rw [hsame] at heq
        rw [List.filter_cons_of_neg (by simpa using htoml)]
        exact ⟨hacc, services, heq, hparse⟩
      · rw [hadded, List.append_assoc] at heq
        rw [List.filter_cons_of_pos (by simpa using htoml), List.map_cons]
        exact ⟨hacc, svc :: services, heq, .cons hsvc hparse⟩

/-- A verdict takes no error back. -/
theorem checkService_clean {names : List String} {r : PreflightResult}
    {svc : ServiceDef}
    (h : (checkService metadata names r svc).errors = []) :
    r.errors = [] := by
  unfold checkService at h
  dsimp only at h
  split at h
  · simp [PreflightResult.addError] at h
  · split at h <;> exact h

/-- Errors are never taken back: what ends clean was clean before. -/
theorem checkServices_clean {names : List String} :
    ∀ (services : List ServiceDef) (r : PreflightResult),
      (services.foldl (checkService metadata names) r).errors = [] →
      r.errors = [] := by
  intro services
  induction services with
  | nil => intro r h; exact h
  | cons svc rest ih => intro r h; exact checkService_clean (ih _ h)

/-- Sorting for the report takes no error away. -/
theorem sort_clean {r : PreflightResult} (h : r.sort.errors = []) :
    r.errors = [] := by
  have hperm : (sortByName r.errors).Perm r.errors := List.mergeSort_perm ..
  exact List.perm_nil.mp (hperm.symm.trans (.of_eq h))

/-- **A check without errors** has parsed every service file of the listing,
and found no cycle. -/
theorem runPreflight_clean {orders : CycleOrders} {r : PreflightResult}
    {items : List (Except IoError DirEntry)}
    (hlisted : disk.readDir = .ok items)
    (hrun : runPreflight fromStr disk metadata dir orders = .ok r)
    (hclean : r.errors = []) :
    ∃ services, ParseTo (parseToml fromStr disk.readToString dir)
        (((items.filterMap Except.toOption).filter (IsToml ·)).map
          DirEntry.filename) services ∧
      hasCycle orders services = .ok false := by
  unfold runPreflight at hrun
  rw [hlisted] at hrun
  dsimp only at hrun
  let found := (items.filterMap Except.toOption).foldl
    (readService fromStr disk dir) (.empty, [])
  cases hcycle : hasCycle orders found.2 with
  | error fault =>
      rw [hcycle] at hrun
      cases hrun
  | ok cycle =>
      rw [hcycle] at hrun
      cases hrun
      have hfound := sort_clean hclean
      cases cycle with
      | true => simp [PreflightResult.addError] at hfound
      | false =>
          obtain ⟨-, services, heq, hparse⟩ :=
            readServices_clean _ _ (checkServices_clean _ _ hfound)
          rw [List.nil_append] at heq
          exact ⟨services, hparse, heq ▸ hcycle⟩

/-- The check always returns. -/
theorem runPreflight_returns (orders : CycleOrders) :
    ∃ r, runPreflight fromStr disk metadata dir orders = .ok r := by
  unfold runPreflight
  cases disk.readDir with
  | error e => exact ⟨_, rfl⟩
  | ok items =>
      dsimp only
      obtain ⟨M, -, hcycle⟩ := hasCycle_eq orders
        ((items.filterMap Except.toOption).foldl
          (readService fromStr disk dir) (.empty, [])).2
      rw [hcycle]
      exact ⟨_, rfl⟩

end Clean

/-! ## The load after it -/

section Load

variable {fromStr : String → Except String ServiceDef} {codec : Bincode}
  {disk : Disk codec.Bytes} {dir : String}

/-- A directory whose listing is read, and dates its service files from the
epoch on. -/
structure Readable (disk : Disk codec.Bytes) (entries : List DirEntry) :
    Prop where
  listed : disk.readDir = .ok (entries.map .ok)
  dated : ∀ entry ∈ entries, IsToml entry →
    ∃ t, entry.modified = .ok t ∧ 0 ≤ t

/-- The scan of such a directory finds its service files, in the order in which
the directory lists them. Only an item whose time cannot be read could stop it;
that no time lies before the epoch is for the comparison after it. -/
theorem scan_readable :
    ∀ (entries : List DirEntry) (files : List (String × SystemTime)),
      (∀ entry ∈ entries, IsToml entry →
        ∃ t, entry.modified = .ok t ∧ 0 ≤ t) →
      ∃ found : List (String × SystemTime),
        (entries.map Except.ok).foldlM scanEntry files =
          .ok (files ++ found) ∧
        found.map Prod.fst =
          (entries.filter (IsToml ·)).map DirEntry.filename ∧
        ∀ file ∈ found, 0 ≤ file.2 := by
  intro entries
  induction entries with
  | nil =>
      intro files _
      exact ⟨[], by rw [List.append_nil]; rfl, rfl, fun _ h => nomatch h⟩
  | cons entry rest ih =>
      intro files hdated
      have hrest := fun e he => hdated e (List.mem_cons_of_mem _ he)
      rw [List.map_cons, List.foldlM_cons, scanEntry]
      by_cases htoml : extension entry.filename = some "toml"
      · obtain ⟨t, ht, hpos⟩ := hdated entry List.mem_cons_self htoml
        obtain ⟨found, hscan, hnames, htimes⟩ :=
          ih (files ++ [(entry.filename, t)]) hrest
        rw [if_pos htoml, ht,
          List.filter_cons_of_pos (by simpa using htoml)]
        refine ⟨(entry.filename, t) :: found, ?_, ?_, ?_⟩
        · rw [List.append_assoc] at hscan
          exact hscan
        · rw [List.map_cons, List.map_cons, hnames]
        · intro file hfile
          rcases List.mem_cons.mp hfile with rfl | hfile
          · exact hpos
          · exact htimes file hfile
      · obtain ⟨found, hscan, hnames, htimes⟩ := ih files hrest
        rw [if_neg htoml,
          List.filter_cons_of_neg (by simpa using htoml)]
        exact ⟨found, hscan, hnames, htimes⟩

/-- A full build over files that parse. It appends one entry for each file, so
the definitions come in the order of the files. -/
theorem build_parsed {parse : String → Except LoadError ServiceDef} :
    ∀ (files : List (String × SystemTime)) (services : List ServiceDef)
      (entries : List ManifestEntry),
      ParseTo parse (files.map Prod.fst) services →
      (∀ file ∈ files, 0 ≤ file.2) →
      ∃ entries', files.foldlM (buildEntry parse) entries = .ok entries' ∧
        entries'.map (·.defn) = entries.map (·.defn) ++ services := by
  intro files
  induction files with
  | nil =>
      intro services entries hparse _
      cases hparse
      exact ⟨entries, rfl, (List.append_nil _).symm⟩
  | cons file rest ih =>
      intro services entries hparse htimes
      cases hparse with
      | @cons _ svc _ services' hsvc hrest =>
          have hsecs : asSecs file.2 = .ok (file.2.toNat / 1000000000) := by
            have hpos := htimes file List.mem_cons_self
            rw [asSecs, if_neg (not_lt.mpr hpos)]
          obtain ⟨entries', hbuild, hdefns⟩ := ih services'
            (entries ++ [⟨file.1, file.2.toNat / 1000000000, svc⟩]) hrest
            (fun f hf => htimes f (List.mem_cons_of_mem _ hf))
          refine ⟨entries', ?_, ?_⟩
          · rw [List.foldlM_cons, buildEntry, hsecs, hsvc]
            exact hbuild
          · rw [hdefns, List.map_append, List.append_assoc]
            rfl

/-- **A load without a manifest** returns what the files parse to, if the
manifest can be written. -/
theorem load_parsed {entries : List DirEntry} {services : List ServiceDef}
    (hdir : Readable disk entries)
    (hnone : readManifest codec disk (join dir manifestFilename) = .ok none)
    (hparse : ParseTo (parseToml fromStr disk.readToString dir)
      ((entries.filter (IsToml ·)).map DirEntry.filename) services)
    {loaded : List ServiceDef} :
    loadServicesCached fromStr codec disk dir = .ok loaded ↔
      loaded = services ∧ Writable disk (join dir manifestFilename) := by
  obtain ⟨files, hscan, hnames, htimes⟩ :=
    scan_readable entries [] hdir.dated
  rw [List.nil_append] at hscan
  rw [← hnames] at hparse
  obtain ⟨built, hbuild, hdefns⟩ := build_parsed files services [] hparse
    htimes
  rw [List.map_nil, List.nil_append] at hdefns
  have hdraft : loadManifest fromStr codec disk dir =
      .ok ⟨⟨manifestVersion, built⟩, true⟩ := by
    have hlist : scanTomlFiles disk = .ok files := by
      rw [scanTomlFiles, hdir.listed]
      exact hscan
    unfold loadManifest buildManifest
    rw [hlist]
    dsimp only
    rw [hnone, hbuild]
  rw [loadServicesCached_ok]
  constructor
  · rintro ⟨draft, hload, rfl, hwrite⟩
    cases hdraft.symm.trans hload
    exact ⟨hdefns, writeManifest_ok.mp (hwrite rfl)⟩
  · rintro ⟨rfl, hwritable⟩
    exact ⟨_, hdraft, hdefns.symm, fun _ => writeManifest_ok.mpr hwritable⟩

/-- Booting does not abort on the configuration. -/
def Boots (fromStr : String → Except String ServiceDef) (codec : Bincode)
    (disk : Disk codec.Bytes) (dir : String) (orders : BuildOrders) :
    Prop :=
  ∃ services, loadServicesCached fromStr codec disk dir = .ok services ∧
    (∃ g, ServiceGraph.build orders services = .ok (.ok g)) ∧
    ∀ svc ∈ services, ∃ argv, buildExecArgs svc = .ok argv

end Load

/-- **A clean preflight** lets a directory without a manifest boot exactly
when every definition gives a program and the manifest can be written. -/
theorem clean_preflight_boots_iff
    (fromStr : String → Except String ServiceDef) (codec : Bincode)
    (disk : Disk codec.Bytes)
    (metadata : String → Except IoError Metadata) (dir : String)
    (checkOrders : CycleOrders) (buildOrders : BuildOrders)
    (entries : List DirEntry) (hdir : Readable disk entries)
    (hnone : readManifest codec disk (join dir manifestFilename) = .ok none)
    (r : PreflightResult)
    (hrun : runPreflight fromStr disk metadata dir checkOrders = .ok r)
    (hclean : r.errors = []) :
    Boots fromStr codec disk dir buildOrders ↔
      (∀ entry ∈ entries, IsToml entry → ∀ svc,
        parseToml fromStr disk.readToString dir entry.filename = .ok svc →
        Runnable svc) ∧
      Writable disk (join dir manifestFilename) := by
  obtain ⟨services, hparse, hcycle⟩ :=
    runPreflight_clean hdir.listed hrun hclean
  have hitems : (entries.map Except.ok).filterMap
      (Except.toOption : Except IoError DirEntry → _) = entries := by
    rw [List.filterMap_map]
    exact List.filterMap_some
  rw [hitems] at hparse
  obtain ⟨g, hbuild⟩ := build_of_acyclic hcycle buildOrders
  have hrunnable : (∀ svc ∈ services, Runnable svc) ↔
      ∀ entry ∈ entries, IsToml entry → ∀ svc,
        parseToml fromStr disk.readToString dir entry.filename = .ok svc →
        Runnable svc := by
    constructor
    · intro hall entry hentry htoml svc hsvc
      refine hall svc (hparse.mem_iff.mpr ⟨entry.filename, ?_, hsvc⟩)
      exact List.mem_map_of_mem
        (List.mem_filter.mpr ⟨hentry, decide_eq_true htoml⟩)
    · intro hall svc hsvc
      obtain ⟨filename, hin, hsvc⟩ := hparse.mem_iff.mp hsvc
      obtain ⟨entry, hentry, rfl⟩ := List.mem_map.mp hin
      obtain ⟨hentry, htoml⟩ := List.mem_filter.mp hentry
      exact hall entry hentry (of_decide_eq_true htoml) svc hsvc
  rw [← hrunnable, and_comm]
  constructor
  · rintro ⟨loaded, hload, -, hargs⟩
    obtain ⟨rfl, hwritable⟩ := (load_parsed hdir hnone hparse).mp hload
    exact ⟨hwritable,
      fun svc hsvc => buildExecArgs_eq_ok_iff.mp (hargs svc hsvc)⟩
  · rintro ⟨hwritable, hall⟩
    exact ⟨services, (load_parsed hdir hnone hparse).mpr ⟨rfl, hwritable⟩,
      ⟨g, hbuild⟩,
      fun svc hsvc => buildExecArgs_eq_ok_iff.mpr (hall svc hsvc)⟩

/-- A service with nothing but a name and `exec`, as definition and text. -/
def execOnly (exec : String) : ServiceDef :=
  { makeService "db" [] [] with service := ⟨"db", exec, none, none, none⟩ }

def execOnlyToml (exec : String) : String :=
  "[service]\nname = \"db\"\nexec = \"" ++ exec ++ "\"\n"

def parseExecOnly (text : String) : Except String ServiceDef :=
  if text = execOnlyToml "/bin/db" then .ok (execOnly "/bin/db")
  else if text = execOnlyToml "" then .ok (execOnly "")
  else .error "TOML parse error"

/-- A directory with one service file and no manifest. -/
def dbDisk (text : String) : Disk Bincode.plain.Bytes where
  readDir := .ok [.ok ⟨"db.toml", .ok 0⟩]
  distinct := by
    intro entries h
    cases h
    decide
  readToString path :=
    if path = "/etc/flint/services/db.toml" then .ok text
    else .error ⟨true, "No such file or directory (os error 2)"⟩
  read _ := .error ⟨true, "No such file or directory (os error 2)"⟩
  write _ := .ok ()
  rename _ _ := .ok ()

/-- A directory with one file that can be read. -/
theorem dbDisk_readable (text : String) :
    Readable (dbDisk text) [⟨"db.toml", .ok 0⟩] where
  listed := rfl
  dated := by
    intro entry hentry _
    cases List.mem_singleton.mp hentry
    exact ⟨0, rfl, le_refl 0⟩

/-- Every path is an executable file. -/
def executable : String → Except IoError Metadata :=
  fun _ => .ok ⟨true, 0o755⟩

/-- A preflight without errors is followed by a boot. -/
theorem clean_preflight_boots_iff_db :
    Boots parseExecOnly .plain (dbDisk (execOnlyToml "/bin/db"))
      "/etc/flint/services" .asStored := by
  have hrun : runPreflight parseExecOnly (dbDisk (execOnlyToml "/bin/db"))
      executable "/etc/flint/services" .asStored =
      .ok ⟨["db"], [], []⟩ := by decide +kernel
  apply (clean_preflight_boots_iff parseExecOnly .plain
    (dbDisk (execOnlyToml "/bin/db")) executable "/etc/flint/services"
    .asStored .asStored _ (dbDisk_readable _) rfl _ hrun rfl).mpr
  refine ⟨?_, by decide⟩
  intro entry hentry _ svc hsvc
  cases List.mem_singleton.mp hentry
  have hparse : parseToml parseExecOnly
      (dbDisk (execOnlyToml "/bin/db")).readToString "/etc/flint/services"
      "db.toml" = .ok (execOnly "/bin/db") := by decide +kernel
  cases hparse.symm.trans hsvc
  exact ⟨⟨'/', by decide, by decide⟩, by decide⟩

/-- **An empty `exec`** passes the check without even a warning, and cannot be
started. -/
theorem empty_exec_passes_preflight :
    Readable (dbDisk (execOnlyToml "")) [⟨"db.toml", .ok 0⟩] ∧
    runPreflight parseExecOnly (dbDisk (execOnlyToml "")) executable
      "/etc/flint/services" .asStored = .ok ⟨["db"], [], []⟩ ∧
    ¬ Boots parseExecOnly .plain (dbDisk (execOnlyToml ""))
      "/etc/flint/services" .asStored := by
  refine ⟨dbDisk_readable _, by decide +kernel, ?_⟩
  rintro ⟨services, hload, -, hargs⟩
  have hloaded : loadServicesCached parseExecOnly .plain
      (dbDisk (execOnlyToml "")) "/etc/flint/services" =
      .ok [execOnly ""] := by decide +kernel
  cases hloaded.symm.trans hload
  obtain ⟨argv, hargv⟩ := hargs _ List.mem_cons_self
  cases hargv

end FlintInit
