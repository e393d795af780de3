import FlintInit.CacheLoad
import FlintInit.Library.Collections
import FlintInit.Library.Runs
import Mathlib.Logic.Relation

/-!
# Loads, watchers and edits side by side

`load_services_cached` and the event handler of `flint-watch` taken apart into
their accesses to the file system, so that any number of them can run while
files are edited.  A load reads the modification times first and the files
later; the handler reads the file first and its modification time later.  Both
write the manifest through one temporary file.

`fs::write` and `fs::rename` are one step each.  An event of the watcher may
come late, twice or never, and a process may stop anywhere.
-/

namespace FlintInit

open Collections KeyedVec

/-- A file of the service directory. -/
structure ServiceFile where
  modified : SystemTime
  text : String
  deriving DecidableEq

abbrev Files := Table String ServiceFile

/-- The service directory, the manifest in it, and its temporary file. -/
structure Store (Bytes : Type) where
  clock : SystemTime
  files : Files
  manifest : Option Bytes
  tmp : Option Bytes

/-- The error of a file that does not exist. -/
def missing : IoError := ⟨true, "No such file or directory (os error 2)"⟩

/-- `fs::read_to_string` of a file of the directory. -/
def readText (files : Files) (filename : String) : Except IoError String :=
  match files.lookup filename with
  | none => .error missing
  | some file => .ok file.text

/-- `metadata` and `modified` of a file of the directory. -/
def readModified (files : Files) (filename : String) :
    Except IoError SystemTime :=
  match files.lookup filename with
  | none => .error missing
  | some file => .ok file.modified

def tomlNames (files : Files) : List String :=
  files.keys.filter (fun name => extension name = some "toml")

section Steps

variable (fromStr : String → Except String ServiceDef) (codec : Bincode)
  (dir : String)

/-- Parse a file of the directory. -/
def parseFile (files : Files) (filename : String) :
    Except LoadError ServiceDef :=
  parseContent fromStr (join dir filename) (readText files filename)

/-- The manifest as `read_manifest` finds it. -/
def Store.found (store : Store codec.Bytes) : Option Manifest :=
  store.manifest.bind (decodeManifest codec)

/-- The first half of `write_manifest`. -/
def Store.writeTmp (store : Store codec.Bytes) (m : Manifest) :
    Store codec.Bytes :=
  { store with tmp := some (codec.serialize m) }

/-- The second half of `write_manifest`: someone else may have taken the
temporary file away. -/
def Store.rename {Bytes : Type} (store : Store Bytes) :
    Except IoError (Store Bytes) :=
  match store.tmp with
  | none => .error missing
  | some bytes => .ok { store with manifest := some bytes, tmp := none }

/-! ## A load -/

/-- Where a call of `load_services_cached` is.  A full build is the loop over
an empty manifest. -/
inductive Loader where
  | scan (found : List (String × SystemTime)) (names : List String)
  | scanned (found : List (String × SystemTime))
  | upsert (draft : Draft) (todo : List (String × SystemTime))
  | write (m : Manifest)
  | rename (m : Manifest)
  | returned (services : List ServiceDef)
  | failed (e : LoadError)
  deriving DecidableEq

/-- The next step of a load. -/
def Loader.step (store : Store codec.Bytes) :
    Loader → Store codec.Bytes × Loader
  | .scan found [] => (store, .scanned found)
  | .scan found (name :: rest) =>
      match readModified store.files name with
      | .error e => (store, .failed (.io e))
      | .ok mtime => (store, .scan (found ++ [(name, mtime)]) rest)
  | .scanned found =>
      (store, .upsert
        (startingDraft (store.found codec) (found.map Prod.fst)) found)
  | .upsert draft (file :: rest) =>
      match upsertFile (parseFile fromStr dir store.files) draft file with
      | .error e => (store, .failed e)
      | .ok draft' => (store, .upsert draft' rest)
  | .upsert draft [] =>
      (store,
        if draft.changed then .write draft.manifest
        else .returned (draft.entries.map (·.defn)))
  | .write m => (store.writeTmp codec m, .rename m)
  | .rename m =>
      match store.rename with
      | .error e => (store, .failed (.io e))
      | .ok store' => (store', .returned (m.entries.map (·.defn)))
  | .returned services => (store, .returned services)
  | .failed e => (store, .failed e)

/-! ## The handler of `flint-watch` -/

/-- Where the handling of one event is. -/
inductive Handler where
  | start (filename : String) (deleted : Bool)
  | read (filename : String) (m : Manifest)
  | stat (filename : String) (m : Manifest) (defn : ServiceDef)
  | write (m : Manifest)
  | rename (m : Manifest)
  | done
  | failed (e : LoadError)
  deriving DecidableEq

/-- The entry made from what was read and the time found after it. -/
def statEntry (files : Files) (filename : String) (defn : ServiceDef) :
    Except LoadError ManifestEntry :=
  match readModified files filename with
  | .error e => .error (.io e)
  | .ok mtime =>
      match asSecs mtime with
      | .error e => .error e
      | .ok mtimeSecs => .ok ⟨filename, mtimeSecs, defn⟩

/-- The next step of the handler.  A file that cannot be read, parsed or
dated leaves the manifest as it is. -/
def Handler.step (store : Store codec.Bytes) :
    Handler → Store codec.Bytes × Handler
  | .start filename deleted =>
      let m := (store.found codec).getD ⟨manifestVersion, []⟩
      (store,
        if deleted then
          .write { m with
            entries := m.entries.filter (fun e => e.filename ≠ filename) }
        else .read filename m)
  | .read filename m =>
      match parseFile fromStr dir store.files filename with
      | .error _ => (store, .write m)
      | .ok defn => (store, .stat filename m defn)
  | .stat filename m defn =>
      match statEntry store.files filename defn with
      | .error _ => (store, .write m)
      | .ok entry => (store, .write (m.record entry))
  | .write m => (store.writeTmp codec m, .rename m)
  | .rename _ =>
      match store.rename with
      | .error e => (store, .failed (.io e))
      | .ok store' => (store', .done)
  | .done => (store, .done)
  | .failed e => (store, .failed e)

/-! ## All of them together -/

/-- A process: a load with the number of edits before it, or a handler. -/
inductive Process where
  | load (since : Nat) (loader : Loader)
  | handle (handler : Handler)
  | stopped
  deriving DecidableEq

def Process.step (store : Store codec.Bytes) :
    Process → Store codec.Bytes × Process
  | .load since loader =>
      let next := loader.step fromStr codec dir store
      (next.1, .load since next.2)
  | .handle handler =>
      let next := handler.step fromStr codec dir store
      (next.1, .handle next.2)
  | .stopped => (store, .stopped)

/-- The directory, the processes, and the number of edits so far. -/
structure Scene (Bytes : Type) where
  store : Store Bytes
  procs : List Process
  edits : Nat

/-- What can happen next. -/
inductive Action where
  | tick (nanos : Nat)
  | edit (filename text : String)
  | remove (filename : String)
  | load (order : IterOrder String)
  | event (filename : String) (deleted : Bool)
  | advance (i : Nat)
  | stop (i : Nat)

namespace Scene

variable {codec}

/-- A change of the files of the directory. -/
def change (s : Scene codec.Bytes) (files : Files) : Scene codec.Bytes :=
  { s with
    store := { s.store with files := files }
    edits := s.edits + 1 }

def spawn (s : Scene codec.Bytes) (p : Process) : Scene codec.Bytes :=
  { s with procs := s.procs ++ [p] }

variable (codec)

/-- One action.  An edit sets the modification time to the current time, and
the watcher ignores names that do not end in `.toml`. -/
def step (a : Action) (s : Scene codec.Bytes) : Scene codec.Bytes :=
  match a with
  | .tick nanos =>
      { s with store := { s.store with clock := s.store.clock + nanos } }
  | .edit filename text =>
      s.change (s.store.files.insert filename ⟨s.store.clock, text⟩)
  | .remove filename => s.change (s.store.files.erase filename)
  | .load order =>
      s.spawn (.load s.edits
        (.scan [] (order.arrange (tomlNames s.store.files))))
  | .event filename deleted =>
      if endsWith filename ".toml" then
        s.spawn (.handle (.start filename deleted))
      else s
  | .advance i =>
      match s.procs[i]? with
      | none => s
      | some p =>
          let next := p.step fromStr codec dir s.store
          { s with store := next.1, procs := s.procs.set i next.2 }
  | .stop i => { s with procs := s.procs.set i .stopped }

/-- A directory without a manifest, and no process yet. -/
def initial (clock : SystemTime) (files : Files) : Scene codec.Bytes :=
  ⟨⟨clock, files, none, none⟩, [], 0⟩

end Scene

/-- The scene after a list of actions. -/
def sceneAfter (clock : SystemTime) (files : Files)
    (actions : List Action) : Scene codec.Bytes :=
  Runs.run (Scene.step fromStr codec dir) (Scene.initial codec clock files)
    actions

end Steps

/-! ## A load by itself -/

section Alone

open Relation

variable (fromStr : String → Except String ServiceDef) (codec : Bincode)
  (dir : String)

/-- What `read_dir` says about a file. -/
def listItem (files : Files) (name : String) : Except IoError DirEntry :=
  .ok ⟨name, readModified files name⟩

/-- Listing a directory gives the names of its files. -/
theorem listItem_names (files : Files) (names : List String) :
    (names.map (listItem files)).filterMap entryName = names := by
  induction names with
  | nil => rfl
  | cons name rest ih => exact congrArg (name :: ·) ih

/-- A store as a load finds it when nothing else happens. -/
def Store.disk {Bytes : Type} (store : Store Bytes) : Disk Bytes where
  readDir := .ok (store.files.keys.map (listItem store.files))
  distinct := by
    intro entries h
    cases h
    rw [listItem_names]
    exact store.files.nodupKeys
  readToString path :=
    match store.files.keys.find? (fun name => join dir name = path) with
    | none => .error missing
    | some name => readText store.files name
  read _ :=
    match store.manifest with
    | none => .error missing
    | some bytes => .ok bytes
  write _ := .ok ()
  rename _ _ := .ok ()

/-- Where a load is after the loop. -/
def Loader.afterLoop : Except LoadError Draft → Loader
  | .error e => .failed e
  | .ok draft => .upsert draft []

/-- Where a load is that has ended. -/
def Loader.ended : Except LoadError (List ServiceDef) → Loader
  | .error e => .failed e
  | .ok services => .returned services

/-- One step of a load that nothing else interrupts. -/
def LoadStep (before after : Store codec.Bytes × Loader) : Prop :=
  after = before.2.step fromStr codec dir before.1

variable {fromStr codec dir} {store : Store codec.Bytes}

/-- A load that has taken one step comes to where the rest of its steps leads.
-/
theorem LoadStep.next {loader : Loader}
    {last : Store codec.Bytes × Loader}
    (h : ReflTransGen (LoadStep fromStr codec dir)
      (loader.step fromStr codec dir store) last) :
    ReflTransGen (LoadStep fromStr codec dir) (store, loader) last :=
  .head rfl h

/-- The scan finds what the listing says. The induction is on the names listed;
between two of them nothing else happens, so each is looked at in the same
directory. -/
theorem scan_alone :
    ∀ (names : List String) (found : List (String × SystemTime)),
      (∀ name ∈ names, name ∈ store.files.keys) →
      ∃ found', (names.map (listItem store.files)).foldlM scanEntry found =
          .ok found' ∧
        (∀ file ∈ found', file ∈ found ∨ file.1 ∈ names) ∧
        ReflTransGen (LoadStep fromStr codec dir)
          (store, .scan found
            (names.filter (fun name => extension name = some "toml")))
          (store, .scanned found') := by
  intro names
  induction names with
  | nil =>
      intro found _
      exact ⟨found, rfl, fun _ h => .inl h, .single rfl⟩
  | cons name rest ih =>
      intro found hkeys
      have hrest := fun k hk => hkeys k (List.mem_cons_of_mem _ hk)
      rw [List.map_cons, List.foldlM_cons, List.filter_cons, listItem,
        scanEntry]
      by_cases hext : extension name = some "toml"
      · obtain ⟨file, hfile⟩ := mem_keys_iff_lookup.mp
          (hkeys name List.mem_cons_self)
        have hmod : readModified store.files name = .ok file.modified := by
          rw [readModified, hfile]
        obtain ⟨found', hscan, hfrom, hsteps⟩ :=
          ih (found ++ [(name, file.modified)]) hrest
        rw [if_pos hext, if_pos (by simpa using hext), hmod]
        refine ⟨found', hscan, ?_, LoadStep.next ?_⟩
        · intro x hx
          rcases hfrom x hx with hx | hx
          · rcases List.mem_append.mp hx with hx | hx
            · exact .inl hx
            · cases List.mem_singleton.mp hx
              exact .inr List.mem_cons_self
          · exact .inr (List.mem_cons_of_mem _ hx)
        · rw [Loader.step, hmod]
          exact hsteps
      · obtain ⟨found', hscan, hfrom, hsteps⟩ := ih found hrest
        rw [if_neg hext, if_neg (by simpa using hext)]
        refine ⟨found', hscan, fun x hx => ?_, hsteps⟩
        exact (hfrom x hx).imp_right (List.mem_cons_of_mem _)

/-- A round of the loop parses one file. -/
theorem upsertFile_congr {parse parse' : String → Except LoadError ServiceDef}
    {draft : Draft} {file : String × SystemTime}
    (h : parse file.1 = parse' file.1) :
    upsertFile parse draft file = upsertFile parse' draft file := by
  unfold upsertFile
  rw [h]

/-- The loop does what the fold says. -/
theorem upsert_alone {parse : String → Except LoadError ServiceDef} :
    ∀ {todo : List (String × SystemTime)} {draft : Draft},
      (∀ file ∈ todo,
        parse file.1 = parseFile fromStr dir store.files file.1) →
      ReflTransGen (LoadStep fromStr codec dir) (store, .upsert draft todo)
        (store, .afterLoop (todo.foldlM (upsertFile parse) draft)) := by
  intro todo
  induction todo with
  | nil => intro draft _; exact .refl
  | cons file rest ih =>
      intro draft hparse
      have hround : upsertFile (parseFile fromStr dir store.files) draft file =
          upsertFile parse draft file :=
        (upsertFile_congr (hparse file List.mem_cons_self)).symm
      apply LoadStep.next
      rw [List.foldlM_cons, Loader.step, hround]
      cases upsertFile parse draft file with
      | error e => exact .refl
      | ok draft' =>
          exact ih (fun f hf => hparse f (List.mem_cons_of_mem _ hf))

/-- Different file names give different paths. -/
theorem join_injective {a b : String} (ha : isAbsolute a = false)
    (hb : isAbsolute b = false) (h : join dir a = join dir b) : a = b := by
  unfold join at h
  simp only [ha, hb, Bool.false_eq_true, if_false] at h
  split at h
  · exact (String.append_right_inj dir).mp h
  · exact (String.append_right_inj (dir ++ "/")).mp h

/-- Reading a path of the directory is reading its file. -/
theorem readToString_disk
    (hplain : ∀ name ∈ store.files.keys, isAbsolute name = false)
    {name : String} (hname : name ∈ store.files.keys) :
    (store.disk dir).readToString (join dir name) =
      readText store.files name := by
  unfold Store.disk
  dsimp only
  cases hfind : store.files.keys.find?
      (fun other => join dir other = join dir name) with
  | none =>
      rw [List.find?_eq_none] at hfind
      exact absurd (decide_eq_true rfl) (hfind name hname)
  | some other =>
      have hin := List.mem_of_find?_eq_some hfind
      have heq : join dir other = join dir name := by
        simpa using List.find?_some hfind
      rw [join_injective (hplain other hin) (hplain name hname) heq]

/-- After the loop the manifest is written, if it has changed. -/
theorem write_alone (draft : Draft) :
    ∃ store', ReflTransGen (LoadStep fromStr codec dir)
      (store, .upsert draft [])
      (store', .returned (draft.entries.map (·.defn))) ∧
      store'.manifest =
        if draft.changed then some (codec.serialize draft.manifest)
        else store.manifest := by
  cases hchanged : draft.changed with
  | false =>
      refine ⟨store, .single ?_, rfl⟩
      simp [LoadStep, Loader.step, hchanged]
  | true =>
      have hfirst : LoadStep fromStr codec dir (store, .upsert draft [])
          (store, .write draft.manifest) := by
        simp [LoadStep, Loader.step, hchanged]
      exact ⟨_, .head hfirst (.head rfl (.head rfl .refl)), rfl⟩

/-- **A load by itself.**  On a directory of plain file names, the steps of a
load that nothing interrupts end in what `loadServicesCached` returns, with
the manifest it has written in place of the old one. -/
theorem load_alone_stores
    (hplain : ∀ name ∈ store.files.keys, isAbsolute name = false) :
    ∃ store', ReflTransGen (LoadStep fromStr codec dir)
      (store, .scan [] (tomlNames store.files))
      (store', .ended
        (loadServicesCached fromStr codec (store.disk dir) dir)) ∧
      store'.manifest =
        match rewritten fromStr codec (store.disk dir) dir with
        | none => store.manifest
        | some m => some (codec.serialize m) := by
  obtain ⟨files, hlist, hfrom, hsteps⟩ :
      ∃ files, (store.files.keys.map (listItem store.files)).foldlM scanEntry
          [] = .ok files ∧
        (∀ file ∈ files, file ∈ [] ∨ file.1 ∈ store.files.keys) ∧
        ReflTransGen (LoadStep fromStr codec dir)
          (store, .scan [] (tomlNames store.files))
          (store, .scanned files) :=
    scan_alone store.files.keys [] (fun _ h => h)
  have hscan : scanTomlFiles (store.disk dir) = .ok files := hlist
  have hread : readManifest codec (store.disk dir)
      (join dir manifestFilename) = .ok (store.found codec) := by
    unfold readManifest Store.found Store.disk
    cases store.manifest <;> rfl
  have hparse : ∀ file ∈ files, parseToml fromStr
      (store.disk dir).readToString dir file.1 =
      parseFile fromStr dir store.files file.1 := by
    intro file hfile
    have hkey := (hfrom file hfile).resolve_left (fun h => nomatch h)
    rw [parseToml, readToString_disk hplain hkey]
    rfl
  have hloop : ReflTransGen (LoadStep fromStr codec dir)
      (store, .scanned files)
      (store, .afterLoop
        (loadManifest fromStr codec (store.disk dir) dir)) := by
    rw [loadManifest_eq hscan hread]
    exact .head rfl (upsert_alone hparse)
  have hall := hsteps.trans hloop
  unfold loadServicesCached rewritten
  cases hdraft : loadManifest fromStr codec (store.disk dir) dir with
  | error e =>
      rw [hdraft] at hall
      exact ⟨store, hall, rfl⟩
  | ok draft =>
      rw [hdraft] at hall
      obtain ⟨store', hwrite, hmanifest⟩ := write_alone draft
      refine ⟨store', ?_, ?_⟩
      · dsimp only
        split <;> exact hall.trans hwrite
      · rw [hmanifest]
        cases hchanged : draft.changed <;> simp [hchanged]

/-- What it ends in, whatever it has written. -/
theorem load_alone
    (hplain : ∀ name ∈ store.files.keys, isAbsolute name = false) :
    ∃ store', ReflTransGen (LoadStep fromStr codec dir)
      (store, .scan [] (tomlNames store.files))
      (store', .ended
        (loadServicesCached fromStr codec (store.disk dir) dir)) := by
  obtain ⟨store', hsteps, -⟩ := load_alone_stores hplain
  exact ⟨store', hsteps⟩

end Alone

end FlintInit
