import FlintInit.Boot
import FlintInit.ManifestContents

/-!
# Deleting readiness files

`main` deletes the readiness file of every service before it spawns the
watchers, and the launch loop deletes it again before it spawns the service.
`ServiceDef::validate` was written to keep these deletions in the runtime
directories, but neither the loader nor `Reload` calls it.
`deletes_only_runtime_files` says what that leaves to the writers of service
files: everything a boot takes from the directory and the manifest, and every
definition a reload installs for a service that is still to be launched, has
to pass the check by itself.
-/

namespace FlintInit

open Collections Release Runs

/-- A readiness path of a definition that passes validation. -/
def ValidatedPath (path : String) : Prop :=
  ∃ svc : ServiceDef, svc.readyPath = some path ∧ svc.validate = .ok ()

/-- The file of a definition that passes validation lies in a runtime
directory. -/
theorem ValidatedPath.runtimePath {path : String} (h : ValidatedPath path) :
    RuntimePath path := by
  obtain ⟨svc, hpath, hvalid⟩ := h
  exact svc.validate_eq_ok_iff.mp hvalid path hpath

/-- The definition that a reload installs in this step, under its name. -/
def installed (cfg : Config) (w : World) (s : State) :
    Option (String × ServiceDef) :=
  match s.phase, w.command with
  | .commands, some (.reload n _) =>
      match reread cfg w s n with
      | .changed _ svc => some (n, svc)
      | _ => none
  | _, _ => none

/-- A reload of a service that is still to be launched installs a definition
that passes validation. -/
def ReloadsVetted (names : List String) (cfg : Config) (w : World)
    (s : State) : Prop :=
  ∀ x ∈ installed cfg w s, x.1 ∈ names → x.1 ∉ s.view.popped →
    x.2.validate = .ok ()

instance (names : List String) (cfg : Config) (w : World) (s : State) :
    Decidable (ReloadsVetted names cfg w s) :=
  inferInstanceAs (Decidable (∀ x ∈ installed cfg w s, _))

/-- No move forgets what was taken from the queue. -/
theorem Move.popped_mono {t : Trigger} {v v' : View} (h : Move t v v') :
    v.popped ⊆ v'.popped := by
  have hcons : ∀ n : String, v.popped ⊆ n :: v.popped :=
    fun n => List.subset_cons_self n _
  cases h with
  | popBlocked hq hb hnew => exact hcons _
  | popIdle hq hb => exact hcons _
  | launch hq hb hfresh => exact hcons _
  | _ => exact List.Subset.refl _

/-- What is still to be launched passes validation, and so did everything
whose file was deleted. -/
structure Vetted (N : Net String) (s : State) : Prop where
  queued : Queued N s.view
  defs : ∀ n ∈ N.nodes, n ∉ s.view.popped → ∀ svc,
    s.svcByName.lookup n = some svc → svc.validate = .ok ()
  removed : ∀ path ∈ s.removed, ValidatedPath path

/-- **One step of the loop.** A definition still to be launched is that of the
boot, or one that a reload has installed and that is asked to be valid; so what
is removed for a launch is a path that was checked. -/
theorem Vetted.step {N : Net String} {names : List String} {s : State}
    (h : Vetted N s) (hnames : ∀ n ∈ N.nodes, n ∈ names) (cfg : Config)
    (w : World) (hreload : ReloadsVetted names cfg w s) :
    Vetted N (step cfg w s) := by
  obtain ⟨t, hmove, _⟩ := step_move cfg w s
  refine ⟨h.queued.move hmove, ?_, ?_⟩
  · intro n hn hpopped svc hsvc
    have hbefore : n ∉ s.view.popped := fun hin =>
      hpopped (hmove.popped_mono hin)
    rcases step_defs cfg w s with hsame | ⟨k, reply, raw, new, hphase,
      hcommand, hread, hdefs⟩
    · rw [hsame] at hsvc
      exact h.defs n hn hbefore svc hsvc
    · rw [hdefs, lookup_insert_eq] at hsvc
      by_cases hk : n = k
      · rw [if_pos hk] at hsvc
        cases hsvc
        subst hk
        have hinstalled : installed cfg w s = some (n, svc) := by
          simp only [installed, hphase, hcommand, hread]
        exact hreload _ hinstalled (hnames n hn) hbefore
      · rw [if_neg hk] at hsvc
        exact h.defs n hn hbefore svc hsvc
  · intro path hpath
    rcases step_removed cfg w s with hsame | ⟨n, svc, own, hpop, hsvc,
      hown, hremoved⟩
    · exact h.removed path (hsame ▸ hpath)
    · rw [hremoved] at hpath
      rcases List.mem_cons.mp hpath with heq | hpath
      · -- What is launched is still to be launched, hence vetted.
        obtain ⟨rest, hqueue⟩ := queue_of_nextPop hpop
        have hmem : n ∈ s.view.queue := by rw [hqueue]; simp
        have hvalid := h.defs n (h.queued.queue_sub hmem).1
          (h.queued.notMem_popped hqueue) svc hsvc
        exact ⟨svc, heq ▸ hown, hvalid⟩
      · exact h.removed path hpath

/-! ## A whole boot -/

/-- The check reads nothing but the readiness path. -/
theorem vetted_iff_paths (services : List ServiceDef) :
    (∀ svc ∈ services, svc.validate = .ok ()) ↔
      ∀ path, some path ∈ services.map ServiceDef.readyPath →
        RuntimePath path := by
  constructor
  · intro h path hpath
    obtain ⟨svc, hsvc, hready⟩ := List.mem_map.mp hpath
    exact svc.validate_eq_ok_iff.mp (h svc hsvc) path hready
  · intro h svc hsvc
    apply svc.validate_eq_ok_iff.mpr
    intro path hready
    exact h path (List.mem_map.mpr ⟨svc, hsvc, hready⟩)

/-- When the loop is entered no file has been deleted, and all definitions are
those of the boot. -/
theorem initial_vetted {orders : BuildOrders} {services : List ServiceDef}
    {g : ServiceGraph}
    (hg : ServiceGraph.build orders services = .ok (.ok g))
    (hvalid : ∀ svc ∈ services, svc.validate = .ok ()) (cfg : Config)
    (readFile : String → Except String String) (order : IterOrder String) :
    Vetted (waitNet orders services)
      (initial cfg readFile order g services) where
  queued := initial_queued cfg readFile order hg
  defs _ _ _ svc hsvc := hvalid svc (mem_of_initial_defs hsvc)
  removed _ h := nomatch h

section Boot

variable (fromStr : String → Except String ServiceDef) (codec : Bincode)
  (env : Surroundings codec.Bytes) (dir : String)

/-- The configuration `executor::run` enters the loop with. -/
def runConfig : Config := ⟨some dir, some "/run/flint/ready", fromStr⟩

/-- Every path passed to `remove_file`, by `main` and by the launch loop. -/
def deletedPaths (readFile : String → Except String String)
    (order : IterOrder String) (ws : List World) : List String :=
  let booted := boot fromStr codec env dir
  match booted.2 with
  | .stopped _ => booted.1
  | .entered g services =>
      booted.1 ++ (runWithMarker (runConfig fromStr dir) readFile order g
        services ws).removed

/-- The definitions a load takes from the directory and the manifest pass
validation. -/
def SourcesVetted (disk : Disk codec.Bytes) : Prop :=
  ∀ files found, scanTomlFiles disk = .ok files →
    readManifest codec disk (join dir manifestFilename) = .ok found →
    ∀ file ∈ files, ∀ svc,
      Taken (parseToml fromStr disk.readToString dir) (foundEntries found)
        file svc → svc.validate = .ok ()

variable {fromStr codec env dir}

/-- What `main` deletes is deleted whatever the launch loop does. -/
theorem mem_deletedPaths_of_boot {readFile : String → Except String String}
    {order : IterOrder String} {ws : List World} {path : String}
    (h : path ∈ (boot fromStr codec env dir).1) :
    path ∈ deletedPaths fromStr codec env dir readFile order ws := by
  unfold deletedPaths
  dsimp only
  split
  · exact h
  · exact List.mem_append_left _ h

/-- What a load returns passes validation when its sources do. -/
theorem loaded_vetted_iff
    (hleft : ∀ found,
      readManifest codec env.disk (join dir manifestFilename) = .ok found →
      LeftBehind fromStr codec dir found)
    {services : List ServiceDef}
    (hload : loadServicesCached fromStr codec env.disk dir = .ok services) :
    (∀ svc ∈ services, svc.validate = .ok ()) ↔
      SourcesVetted fromStr codec dir env.disk := by
  constructor
  · intro h files found hscan hread file hfile svc htaken
    apply h
    exact (mem_loadServicesCached hscan hread (hleft found hread).nodup
      hload).mpr ⟨file, hfile, htaken⟩
  · intro h svc hsvc
    obtain ⟨draft, hdraft, _⟩ := loadServicesCached_ok.mp hload
    obtain ⟨files, found, hscan, hread⟩ := loadManifest_inputs hdraft
    obtain ⟨file, hfile, htaken⟩ := (mem_loadServicesCached hscan hread
      (hleft found hread).nodup hload).mp hsvc
    exact h files found hscan hread file hfile svc htaken

/-- **What `main` deletes.**  A boot that enters the loop has deleted only
validated paths exactly when the sources of its definitions pass
validation. -/
theorem boot_deletes_validated_iff
    (hleft : ∀ found,
      readManifest codec env.disk (join dir manifestFilename) = .ok found →
      LeftBehind fromStr codec dir found)
    {g : ServiceGraph} {services : List ServiceDef}
    (hentered : (boot fromStr codec env dir).2 = .entered g services) :
    (∀ path ∈ (boot fromStr codec env dir).1, ValidatedPath path) ↔
      SourcesVetted fromStr codec dir env.disk := by
  obtain ⟨_, hall, raw, hload, happly⟩ :=
    (boot_deletes fromStr codec env dir).2 g services hentered
  rw [← loaded_vetted_iff hleft hload, vetted_iff_paths, hall]
  have hpaths : ∀ path, path ∈ services.filterMap ServiceDef.readyPath ↔
      some path ∈ raw.map ServiceDef.readyPath := by
    intro path
    rw [← env.flintCfg.readyPaths_applyTo, ← happly, List.mem_filterMap,
      List.mem_map]
  constructor
  · intro h path hpath
    exact (h path ((hpaths path).mpr hpath)).runtimePath
  · intro h path hpath
    obtain ⟨svc, hsvc, hready⟩ := List.mem_map.mp ((hpaths path).mp hpath)
    exact ⟨svc, hready, (vetted_iff_paths raw).mpr h svc hsvc⟩

variable (fromStr codec env dir)

/-- **Deleting readiness files.**  Let the manifest be one that earlier loads
and watchers left, or none.  When the definitions taken from the directory and
the manifest pass validation, and so does every definition a reload installs
for a service that is still to be launched, only validated readiness paths are
deleted, hence only runtime paths. -/
theorem deletes_only_runtime_files
    (hleft : ∀ found,
      readManifest codec env.disk (join dir manifestFilename) = .ok found →
      LeftBehind fromStr codec dir found)
    (hsources : SourcesVetted fromStr codec dir env.disk)
    (readFile : String → Except String String) (order : IterOrder String)
    (ws : List World)
    (hreload : ∀ g services,
      (boot fromStr codec env dir).2 = .entered g services →
      EveryStep (ReloadsVetted (services.map ServiceDef.name)
          (runConfig fromStr dir))
        (runConfig fromStr dir) readFile order g services ws) :
    ∀ path ∈ deletedPaths fromStr codec env dir readFile order ws,
      ValidatedPath path ∧ RuntimePath path := by
  obtain ⟨hloaded, hentered⟩ := boot_deletes fromStr codec env dir
  have hmain : ∀ path ∈ (boot fromStr codec env dir).1,
      ValidatedPath path := by
    intro path hpath
    obtain ⟨raw, hload, hready⟩ := hloaded path hpath
    obtain ⟨svc, hsvc, hown⟩ := List.mem_map.mp hready
    exact ⟨svc, hown, (loaded_vetted_iff hleft hload).mpr hsources svc hsvc⟩
  intro path hpath
  have hvalid : ValidatedPath path := by
    unfold deletedPaths at hpath
    cases hboot : (boot fromStr codec env dir).2 with
    | stopped reason =>
        simp only [hboot] at hpath
        exact hmain path hpath
    | entered g services =>
        simp only [hboot, List.mem_append] at hpath
        rcases hpath with hpath | hpath
        · exact hmain path hpath
        · obtain ⟨hg, _, raw, hload, happly⟩ := hentered g services hboot
          have hservices : ∀ svc ∈ services, svc.validate = .ok () := by
            rw [vetted_iff_paths, happly, FlintConfig.readyPaths_applyTo,
              ← vetted_iff_paths]
            exact (loaded_vetted_iff hleft hload).mpr hsources
          have hrun := run_invariant (Vetted (waitNet env.orders services))
            (fun w s hok h => h.step
              (fun n hn => mem_waitNet_nodes.mp hn) _ w hok)
            ws _ (hreload g services hboot)
            (initial_vetted hg hservices _ readFile order)
          exact hrun.removed path hpath
  exact ⟨hvalid, hvalid.runtimePath⟩

end Boot

/-- A service with a readiness file, as a definition and as a text. -/
def readyDb (path : String) : ServiceDef :=
  { makeService "db" [] [] with ready := some ⟨.pidfile, some path⟩ }

def readyToml (path : String) : String :=
  "[service]\nname = \"db\"\nexec = \"/bin/db\"\n\n[ready]\n" ++
    "strategy = \"pidfile\"\npath = \"" ++ path ++ "\"\n"

/-- Parses that text for two paths. -/
def parseReadyToml (text : String) : Except String ServiceDef :=
  if text = readyToml "/run/db.pid" then .ok (readyDb "/run/db.pid")
  else if text = readyToml "/etc/hosts" then .ok (readyDb "/etc/hosts")
  else .error "TOML parse error"

/-- A first boot on a directory with that service file. -/
def firstBoot (path : String) : Surroundings Bincode.plain.Bytes where
  flintCfg := ⟨none⟩
  disk :=
    { readDir := .ok [.ok ⟨"db.toml", .ok 1000000000⟩]
      distinct := by
        intro entries h
        cases h
        show ["db.toml"].Nodup
        decide
      readToString := fun _ => .ok (readyToml path)
      read := fun _ => .error ⟨true, "No such file or directory"⟩
      write := fun _ => .ok ()
      rename := fun _ _ => .ok () }
  createDirAll _ := .ok ()
  orders := .asStored

/-- The service is launched, and a reload then finds its file changed. -/
def reloadedDb : List World :=
  List.replicate 9 .idle ++
    [{ World.idle with
        command := some (.reload "db" 0)
        readFile := fun _ => .ok (readyToml "/etc/hosts") }]

/-- The reload comes too late for the launch loop, and what was deleted is the
path of the first definition. -/
theorem deletes_only_runtime_files_late_reload :
    let paths := deletedPaths parseReadyToml .plain (firstBoot "/run/db.pid")
      "/etc/flint/services" (fun _ => .ok (readyToml "/run/db.pid"))
      (.asStored _) reloadedDb
    paths = ["/run/db.pid", "/run/db.pid"] ∧
      ∀ path ∈ paths, ValidatedPath path ∧ RuntimePath path := by
  refine ⟨by decide +kernel, ?_⟩
  have hread : ∀ found, readManifest .plain (firstBoot "/run/db.pid").disk
      (join "/etc/flint/services" manifestFilename) = .ok found →
      found = none := by
    intro found h
    cases h
    rfl
  apply deletes_only_runtime_files
  · intro found h
    cases hread found h
    exact ⟨0, ∅, [], rfl⟩
  · intro files found hscan h
    cases hread found h
    have hfiles : files = [("db.toml", 1000000000)] := by
      have hlist : scanTomlFiles (firstBoot "/run/db.pid").disk =
          .ok [("db.toml", 1000000000)] := by decide
      rw [hlist] at hscan
      exact (Except.ok.inj hscan).symm
    intro file hfile svc htaken
    rw [hfiles, List.mem_singleton] at hfile
    subst hfile
    rcases htaken with ⟨e, he, _⟩ | ⟨_, hparse⟩
    · cases he.1
    · have hdb : parseToml parseReadyToml
          (firstBoot "/run/db.pid").disk.readToString "/etc/flint/services"
          "db.toml" = .ok (readyDb "/run/db.pid") := by decide +kernel
      rw [hdb] at hparse
      cases hparse
      decide
  · intro g services hboot
    cases hboot
    decide +kernel

/-- **Nothing keeps a boot from deleting other files.**  The path of this
definition does not pass validation, and `main` deletes it. -/
theorem boot_deletes_hosts :
    (readyDb "/etc/hosts").validate = .error ("service 'db': ready.path " ++
      "'/etc/hosts' must be under /run/ or /var/run/") ∧
    ¬ RuntimePath "/etc/hosts" ∧
    (boot parseReadyToml .plain (firstBoot "/etc/hosts")
      "/etc/flint/services").1 = ["/etc/hosts"] ∧
    ¬ ∀ path ∈ deletedPaths parseReadyToml .plain (firstBoot "/etc/hosts")
      "/etc/flint/services" (fun _ => .ok (readyToml "/etc/hosts"))
      (.asStored _) [], ValidatedPath path ∧ RuntimePath path := by
  have hnot : ¬ RuntimePath "/etc/hosts" := by
    intro h
    have hconfined := h.confined
    revert hconfined
    decide
  have hboot : (boot parseReadyToml .plain (firstBoot "/etc/hosts")
      "/etc/flint/services").1 = ["/etc/hosts"] := by
    decide +kernel
  refine ⟨by decide, hnot, hboot, ?_⟩
  intro hall
  have hdeleted : "/etc/hosts" ∈ deletedPaths parseReadyToml .plain
      (firstBoot "/etc/hosts") "/etc/flint/services"
      (fun _ => .ok (readyToml "/etc/hosts")) (.asStored _) [] := by
    apply mem_deletedPaths_of_boot
    rw [hboot]
    exact List.mem_singleton_self _
  exact hnot (hall _ hdeleted).2

end FlintInit
