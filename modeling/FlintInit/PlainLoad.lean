import FlintInit.CacheReconcile

/-!
# Loading without a cache

`load_services_from_dir` reads the directory in one loop, with no manifest and
no modification times, and validates each definition.  `cached_agrees` compares
the load that goes through the manifest with it: over a manifest whose current
entries record what their files say, both return the same definitions, and
validation is all that the cached load leaves out.
-/

namespace FlintInit

open KeyedVec

/-- Why a plain load fails. -/
inductive PlainError where
  | load (e : LoadError)
  | invalid (path e : String)
  deriving DecidableEq

def PlainError.text : PlainError → String
  | .load e => e.text
  | .invalid path e => "Failed to validate " ++ debugStr path ++ ": " ++ e

/-- What is done with one `.toml` file of the directory. -/
def plainFile (fromStr : String → Except String ServiceDef)
    (readToString : String → Except IoError String) (dir : String)
    (services : List ServiceDef) (filename : String) :
    Except PlainError (List ServiceDef) :=
  let path := join dir filename
  match parseContent fromStr path (readToString path) with
  | .error e => .error (.load e)
  | .ok defn =>
      match defn.validate with
      | .error e => .error (.invalid path e)
      | .ok () => .ok (services ++ [defn])

/-- One round of the plain load. -/
def plainEntry (fromStr : String → Except String ServiceDef)
    (readToString : String → Except IoError String) (dir : String)
    (services : List ServiceDef) :
    Except IoError DirEntry → Except PlainError (List ServiceDef)
  | .error e => .error (.load (.io e))
  | .ok entry =>
      if extension entry.filename = some "toml" then
        plainFile fromStr readToString dir services entry.filename
      else .ok services

/-- Load all `.toml` files from a directory. -/
def loadServicesFromDir {Bytes : Type}
    (fromStr : String → Except String ServiceDef) (disk : Disk Bytes)
    (dir : String) : Except PlainError (List ServiceDef) :=
  match disk.readDir with
  | .error e => .error (.load (.io e))
  | .ok entries => entries.foldlM (plainEntry fromStr disk.readToString dir) []

section Plain

variable {fromStr : String → Except String ServiceDef}
  {readToString : String → Except IoError String} {dir : String}

/-- Where the scan reads every time, the plain load is a loop over the files
scanned. -/
theorem plainEntries_eq :
    ∀ {entries : List (Except IoError DirEntry)}
      {files all : List (String × SystemTime)},
      entries.foldlM scanEntry files = .ok all →
      ∃ new : List (String × SystemTime), all = files ++ new ∧
        ∀ services, entries.foldlM (plainEntry fromStr readToString dir)
          services =
            (new.map Prod.fst).foldlM (plainFile fromStr readToString dir)
              services := by
  intro entries
  induction entries with
  | nil =>
      intro files all h
      cases h
      exact ⟨[], (List.append_nil _).symm, fun _ => rfl⟩
  | cons item rest ih =>
      intro files all h
      rw [List.foldlM_cons] at h
      cases item with
      | error e => cases h
      | ok entry =>
          by_cases hext : extension entry.filename = some "toml"
          · cases hmod : entry.modified with
            | error e =>
                simp only [scanEntry, hext, if_true, hmod] at h
                cases h
            | ok mtime =>
                simp only [scanEntry, hext, if_true, hmod] at h
                obtain ⟨new, rfl, hloop⟩ := ih h
                refine ⟨(entry.filename, mtime) :: new, by simp, ?_⟩
                intro services
                rw [List.foldlM_cons, List.map_cons, List.foldlM_cons]
                simp only [plainEntry, hext, if_true]
                cases plainFile fromStr readToString dir services
                  entry.filename with
                | error e => rfl
                | ok services' => exact hloop services'
          · simp only [scanEntry, hext, if_false] at h
            obtain ⟨new, hall, hloop⟩ := ih h
            refine ⟨new, hall, fun services => ?_⟩
            rw [List.foldlM_cons]
            simp only [plainEntry, hext, if_false]
            exact hloop services

/-- The plain load as a loop over the files scanned. -/
theorem loadServicesFromDir_eq {Bytes : Type} {disk : Disk Bytes}
    {files : List (String × SystemTime)}
    (hscan : scanTomlFiles disk = .ok files) :
    loadServicesFromDir fromStr disk dir =
      (files.map Prod.fst).foldlM (plainFile fromStr disk.readToString dir)
        [] := by
  unfold scanTomlFiles at hscan
  unfold loadServicesFromDir
  cases hdir : disk.readDir with
  | error e => rw [hdir] at hscan; cases hscan
  | ok entries =>
      rw [hdir] at hscan
      obtain ⟨new, rfl, hloop⟩ := plainEntries_eq hscan
      exact hloop []

/-- What a round does, by what the file parses to. -/
theorem plainFile_ok {services services' : List ServiceDef}
    {filename : String} :
    plainFile fromStr readToString dir services filename = .ok services' ↔
      ∃ defn, parseToml fromStr readToString dir filename = .ok defn ∧
        defn.validate = .ok () ∧ services' = services ++ [defn] := by
  unfold plainFile parseToml
  dsimp only
  cases parseContent fromStr (join dir filename)
    (readToString (join dir filename)) with
  | error e => simp
  | ok defn =>
      cases hvalid : defn.validate with
      | error e => simp [hvalid]
      | ok u => simp [hvalid, eq_comm]

/-- A plain load that runs through has parsed and accepted every file. -/
theorem plainFiles_ok :
    ∀ {names : List String} {services services' : List ServiceDef},
      names.foldlM (plainFile fromStr readToString dir) services =
        .ok services' →
      ∀ name ∈ names, ∃ defn,
        parseToml fromStr readToString dir name = .ok defn ∧
          defn.validate = .ok () := by
  intro names
  induction names with
  | nil => intro _ _ _ name hname; cases hname
  | cons first rest ih =>
      intro services services' h
      rw [List.foldlM_cons] at h
      cases hround : plainFile fromStr readToString dir services first with
      | error e => rw [hround] at h; cases h
      | ok middle =>
          rw [hround] at h
          obtain ⟨defn, hparse, hvalid, -⟩ := plainFile_ok.mp hround
          intro name hname
          rcases List.mem_cons.mp hname with rfl | hrest
          · exact ⟨defn, hparse, hvalid⟩
          · exact ih h name hrest

/-- The loop over files that all parse appends their definitions, or stops at
the first one that validation refuses. -/
theorem plainFiles_parsed :
    ∀ {names : List String} {defs : List ServiceDef},
      List.Forall₂ (fun name defn =>
        parseToml fromStr readToString dir name = .ok defn) names defs →
      ∀ services,
        ((∀ defn ∈ defs, defn.validate = .ok ()) ∧
          names.foldlM (plainFile fromStr readToString dir) services =
            .ok (services ++ defs)) ∨
        ∃ name ∈ names, ∃ defn ∈ defs, ∃ e,
          parseToml fromStr readToString dir name = .ok defn ∧
            defn.validate = .error e ∧
            names.foldlM (plainFile fromStr readToString dir) services =
              .error (.invalid (join dir name) e) := by
  intro names defs hall
  induction hall with
  | nil =>
      intro services
      refine .inl ⟨?_, by simp [pure, Except.pure]⟩
      intro defn hdefn
      cases hdefn
  | @cons name defn names defs hparse _ ih =>
      intro services
      rw [List.foldlM_cons]
      cases hvalid : defn.validate with
      | error e =>
          refine .inr ⟨name, List.mem_cons_self, defn, List.mem_cons_self, e,
            hparse, hvalid, ?_⟩
          have hround : plainFile fromStr readToString dir services name =
              .error (.invalid (join dir name) e) := by
            unfold plainFile
            unfold parseToml at hparse
            simp only [hparse, hvalid]
          rw [hround]
          rfl
      | ok u =>
          have hround : plainFile fromStr readToString dir services name =
              .ok (services ++ [defn]) :=
            plainFile_ok.mpr ⟨defn, hparse, hvalid, rfl⟩
          rw [hround]
          rcases ih (services ++ [defn]) with
            ⟨hvalids, hloop⟩ | ⟨name', hname', defn', hdefn', e, h⟩
          · left
            constructor
            · intro d hd
              rcases List.mem_cons.mp hd with rfl | hd
              · exact hvalid
              · exact hvalids d hd
            · rw [List.append_assoc] at hloop
              exact hloop
          · exact .inr ⟨name', List.mem_cons_of_mem _ hname', defn',
              List.mem_cons_of_mem _ hdefn', e, h⟩

end Plain

section Load

variable {fromStr : String → Except String ServiceDef} {codec : Bincode}
  {disk : Disk codec.Bytes} {dir : String}
  {files : List (String × SystemTime)} {found : Option Manifest}

/-- Entries that pass for current record what their files say now. -/
def Honest (parse : String → Except LoadError ServiceDef)
    (files : List (String × SystemTime)) (entries : List ManifestEntry) :
    Prop :=
  ∀ file ∈ files, ∀ e, Current entries file e → parse file.1 = .ok e.defn

/-- Over an honest manifest, what is recorded for a file is what it parses
to. -/
theorem Recorded.parsed {parse : String → Except LoadError ServiceDef}
    {entries : List ManifestEntry} {file : String × SystemTime}
    {e : ManifestEntry} (h : Recorded parse entries file e)
    (hhonest : Honest parse files entries) (hfile : file ∈ files) :
    parse file.1 = .ok e.defn := by
  rcases h.defn with ⟨e', hcur, heq⟩ | ⟨_, hparse⟩
  · rw [← heq]
    exact hhonest file hfile e' hcur
  · exact hparse

/-- The definitions a cached load returns, in the order of the files. -/
theorem cached_parsed (hscan : scanTomlFiles disk = .ok files)
    (hread : readManifest codec disk (join dir manifestFilename) =
      .ok found)
    (hdistinct : ((foundEntries found).map (·.filename)).Nodup)
    (hhonest : Honest (parseToml fromStr disk.readToString dir) files
      (foundEntries found))
    {services : List ServiceDef}
    (hload : loadServicesCached fromStr codec disk dir = .ok services) :
    ∃ defs, defs.Perm services ∧
      List.Forall₂ (fun name defn =>
        parseToml fromStr disk.readToString dir name = .ok defn)
        (files.map Prod.fst) defs := by
  obtain ⟨draft, hdraft, rfl, -⟩ := loadServicesCached_ok.mp hload
  rw [loadManifest_eq hscan hread] at hdraft
  have hnd := scanTomlFiles_nodup hscan
  have hupd := upsertFiles_spec hnd hdraft
  have hkeys : (draft.entries.map (·.filename)).Nodup := by
    apply hupd.nodup.mpr
    rw [startingDraft_entries]
    exact nodup_retain hdistinct
  have hrecorded := Updated.forall_recorded
    (fun file (hfile : file ∈ files) => hupd.recorded hfile)
  refine ⟨_, (perm_lookups hkeys hnd hupd.mem_keys).map (·.defn), ?_⟩
  rw [List.forall₂_map_left_iff, List.forall₂_map_right_iff]
  rw [List.forall₂_iff_get] at hrecorded ⊢
  refine ⟨hrecorded.1, fun i hi hi' => ?_⟩
  exact (hrecorded.2 i hi hi').parsed hhonest (List.get_mem files ⟨i, hi⟩)

/-- **The cached load agrees with the plain one.**  Take a manifest that names
no file twice and whose current entries record what their files parse to, and
files with readable times.  When the cached load succeeds, the plain one
returns the same definitions, or fails at one of them that validation refuses.
When the plain one succeeds, so does the cached one, if no time is before the
epoch and the manifest can be written. -/
theorem cached_agrees (hscan : scanTomlFiles disk = .ok files)
    (hread : readManifest codec disk (join dir manifestFilename) =
      .ok found)
    (hdistinct : ((foundEntries found).map (·.filename)).Nodup)
    (hhonest : Honest (parseToml fromStr disk.readToString dir) files
      (foundEntries found)) :
    (∀ services,
      loadServicesCached fromStr codec disk dir = .ok services →
      ((∀ svc ∈ services, svc.validate = .ok ()) ∧
        ∃ plain, loadServicesFromDir fromStr disk dir = .ok plain ∧
          plain.Perm services) ∨
      ∃ file ∈ files, ∃ svc ∈ services, ∃ e,
        parseToml fromStr disk.readToString dir file.1 = .ok svc ∧
        svc.validate = .error e ∧
        loadServicesFromDir fromStr disk dir =
          .error (.invalid (join dir file.1) e)) ∧
    ∀ plain, loadServicesFromDir fromStr disk dir = .ok plain →
      (∀ file ∈ files, 0 ≤ file.2) →
      Writable disk (join dir manifestFilename) →
      ∃ services, loadServicesCached fromStr codec disk dir = .ok services ∧
        plain.Perm services := by
  have hforth : ∀ services,
      loadServicesCached fromStr codec disk dir = .ok services →
      ((∀ svc ∈ services, svc.validate = .ok ()) ∧
        ∃ plain, loadServicesFromDir fromStr disk dir = .ok plain ∧
          plain.Perm services) ∨
      ∃ file ∈ files, ∃ svc ∈ services, ∃ e,
        parseToml fromStr disk.readToString dir file.1 = .ok svc ∧
        svc.validate = .error e ∧
        loadServicesFromDir fromStr disk dir =
          .error (.invalid (join dir file.1) e) := by
    intro services hload
    obtain ⟨defs, hperm, hparsed⟩ :=
      cached_parsed hscan hread hdistinct hhonest hload
    rw [loadServicesFromDir_eq hscan]
    rcases plainFiles_parsed hparsed [] with
      ⟨hvalid, hloop⟩ | ⟨name, hname, svc, hsvc, e, hparse, hinvalid, hloop⟩
    · left
      refine ⟨fun svc hsvc => hvalid svc (hperm.mem_iff.mpr hsvc), defs, ?_,
        hperm⟩
      rw [hloop, List.nil_append]
    · right
      obtain ⟨file, hfile, rfl⟩ := List.mem_map.mp hname
      exact ⟨file, hfile, svc, hperm.mem_iff.mp hsvc, e, hparse, hinvalid,
        hloop⟩
  refine ⟨hforth, ?_⟩
  intro plain hplain htimes hwritable
  have hnd := scanTomlFiles_nodup hscan
  have hfiles := hplain
  rw [loadServicesFromDir_eq hscan] at hfiles
  have hruns : ∃ draft, loadManifest fromStr codec disk dir = .ok draft := by
    rw [loadManifest_eq hscan hread]
    apply upsertFiles_runs hnd
    intro file hfile
    obtain ⟨defn, hparse, -⟩ :=
      plainFiles_ok hfiles file.1 (List.mem_map_of_mem hfile)
    have hsecs : asSecs file.2 = .ok (file.2.toNat / 1000000000) :=
      if_neg (Int.not_lt.mpr (htimes file hfile))
    exact .inr ⟨⟨file.1, _, defn⟩, rfl, hsecs, hparse⟩
  obtain ⟨draft, hdraft⟩ := hruns
  have hload : loadServicesCached fromStr codec disk dir =
      .ok (draft.entries.map (·.defn)) :=
    loadServicesCached_ok.mpr ⟨draft, hdraft, rfl,
      fun _ => writeManifest_ok.mpr hwritable⟩
  refine ⟨_, hload, ?_⟩
  rcases hforth _ hload with
    ⟨-, plain', hplain', hperm⟩ | ⟨_, _, _, _, _, _, _, hfails⟩
  · rw [hplain] at hplain'
    cases hplain'
    exact hperm
  · rw [hplain] at hfails
    cases hfails

end Load

/-- A directory with a new file whose ready path leaves the runtime
directories. -/
def strayDb : Disk Bincode.plain.Bytes where
  readDir := .ok [.ok ⟨"db.toml", .ok 1500000000⟩,
    .ok ⟨"notes.txt", .ok 0⟩, .ok ⟨"stray.toml", .ok 2000000000⟩]
  distinct := by
    intro entries h
    cases h
    show ["db.toml", "notes.txt", "stray.toml"].Nodup
    decide
  readToString path :=
    .ok (if path = "/etc/flint/services/db.toml" then dbToml else "stray")
  read _ := .ok dbManifest
  write _ := .ok ()
  rename _ _ := .ok ()

/-- A service that is ready with a file outside the runtime directories. -/
def straySvc : ServiceDef :=
  { makeService "stray" [] [] with
    ready := some ⟨.pidfile, some "/etc/passwd"⟩ }

def parseStray (text : String) : Except String ServiceDef :=
  if text = "stray" then .ok straySvc else parseDbToml text

/-- The cached load serves the stray service; the plain one refuses it, since
its readiness file lies outside the runtime directories. -/
theorem cached_agrees_stray :
    ((∀ svc ∈ [makeService "db" [] [], straySvc], svc.validate = .ok ()) ∧
      ∃ plain, loadServicesFromDir parseStray strayDb "/etc/flint/services" =
        .ok plain ∧ plain.Perm [makeService "db" [] [], straySvc]) ∨
    ∃ file ∈ [("db.toml", (1500000000 : SystemTime)),
        ("stray.toml", 2000000000)],
      ∃ svc ∈ [makeService "db" [] [], straySvc], ∃ e,
        parseToml parseStray strayDb.readToString "/etc/flint/services"
          file.1 = .ok svc ∧
        svc.validate = .error e ∧
        loadServicesFromDir parseStray strayDb "/etc/flint/services" =
          .error (.invalid (join "/etc/flint/services" file.1) e) := by
  have hread : readManifest .plain strayDb
      (join "/etc/flint/services" manifestFilename) = .ok (some dbManifest) :=
    rfl
  refine (cached_agrees (by decide) hread (by decide) ?_).1 _ (by decide)
  intro file hfile e hcur
  rcases List.mem_cons.mp hfile with rfl | hfile
  · have hlook := hcur.1
    cases hlook
    decide
  · cases List.mem_singleton.mp hfile
    have hlook := hcur.1
    cases hlook

end FlintInit
