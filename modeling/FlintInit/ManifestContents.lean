import FlintInit.Watcher

/-!
# What manifests hold

The manifest, its temporary file and the processes between reading and writing
hold lists of entries.  `AllGood P` says that each of them has one entry for a
file at most, and that `P` holds of every entry.  A step adds an entry in two
places only, where a load parses a file and where the watcher looks at the
modification time of what it has read, so `P` has to be shown there
(`AllGood.step`).  With nothing to show, `manifest_names_distinct` follows for
every run.
-/

namespace FlintInit

open Collections KeyedVec Runs

/-- One entry for a file at most, and `P` for each of them. -/
structure Good (P : ManifestEntry → Prop) (entries : List ManifestEntry) :
    Prop where
  nodup : (entries.map (·.filename)).Nodup
  all : ∀ e ∈ entries, P e

/-- A definition the current content of a file parses to. -/
def ParsesTo (fromStr : String → Except String ServiceDef) (files : Files)
    (filename : String) (svc : ServiceDef) : Prop :=
  ∃ file, files.lookup filename = some file ∧
    fromStr (trimEndNul file.text) = .ok svc

/-- The entries in some bytes. -/
def stored (codec : Bincode) (bytes : Option codec.Bytes) :
    List ManifestEntry :=
  foundEntries (bytes.bind (decodeManifest codec))

def Loader.entries : Loader → List ManifestEntry
  | .upsert draft _ => draft.entries
  | .write m => m.entries
  | .rename m => m.entries
  | _ => []

def Handler.entries : Handler → List ManifestEntry
  | .read _ m => m.entries
  | .stat _ m _ => m.entries
  | .write m => m.entries
  | .rename m => m.entries
  | _ => []

def Process.entries : Process → List ManifestEntry
  | .load _ loader => loader.entries
  | .handle handler => handler.entries
  | .stopped => []

/-- What a handler has read before it looks at the modification time. -/
def Handler.seen : Handler → Option (String × ServiceDef)
  | .stat filename _ defn => some (filename, defn)
  | _ => none

/-- The handler a process runs. -/
def Process.handling : Process → Option Handler
  | .handle handler => some handler
  | _ => none

section Entries

variable {P : ManifestEntry → Prop}
  {fromStr : String → Except String ServiceDef} {codec : Bincode}
  {dir : String} {files : Files}

/-- Every list of entries that the store or a process holds. -/
def Scene.records (s : Scene codec.Bytes) : List (List ManifestEntry) :=
  stored codec s.store.manifest :: stored codec s.store.tmp ::
    s.procs.map Process.entries

namespace Good

/-- An empty list of entries is good. -/
theorem nil : Good P [] := ⟨List.nodup_nil, fun _ h => nomatch h⟩

/-- Entries may be dropped. -/
theorem sublist {entries kept : List ManifestEntry} (h : Good P entries)
    (hsub : kept.Sublist entries) : Good P kept where
  nodup := h.nodup.sublist (hsub.map _)
  all e he := h.all e (hsub.mem he)

/-- An entry with the property may be recorded. -/
theorem record {m : Manifest} {e : ManifestEntry} (h : Good P m.entries)
    (he : P e) : Good P (m.record e).entries where
  nodup := nodup_upsert.mpr h.nodup
  all e' he' := by
    rcases mem_of_mem_upsert he' with rfl | hmem
    · exact he
    · exact h.all e' hmem

/-- What is written is read back, or not read at all. -/
theorem stored {m : Manifest} (h : Good P m.entries) :
    Good P (stored codec (some (codec.serialize m))) := by
  have hdecode : decodeManifest codec (codec.serialize m) =
      if m.version = manifestVersion then some m else none := by
    rw [decodeManifest, codec.round_trip]
  rw [FlintInit.stored, Option.bind_some, hdecode]
  split
  · exact h
  · exact .nil

end Good

/-! ## One process -/

/-- What the store and a process hold. -/
structure Held (P : ManifestEntry → Prop) (codec : Bincode)
    (store : Store codec.Bytes) (own : List ManifestEntry) : Prop where
  manifest : Good P (stored codec store.manifest)
  tmp : Good P (stored codec store.tmp)
  own : Good P own

namespace Held

variable {store : Store codec.Bytes} {own : List ManifestEntry}

/-- What somebody holds for himself may be replaced by other good entries. -/
theorem congr (h : Held P codec store own) {own' : List ManifestEntry}
    (hown : Good P own') : Held P codec store own' :=
  ⟨h.manifest, h.tmp, hown⟩

/-- A good draft may be written to the temporary file. -/
theorem writeTmp {m : Manifest} (h : Held P codec store m.entries) :
    Held P codec (store.writeTmp codec m) m.entries :=
  ⟨h.manifest, h.own.stored, h.own⟩

/-- The renaming puts a good text under the manifest's name and leaves the
service files alone. -/
theorem rename {store' : Store codec.Bytes} (h : Held P codec store own)
    (hrename : store.rename = .ok store') :
    store'.files = store.files ∧ Held P codec store' [] := by
  unfold Store.rename at hrename
  cases htmp : store.tmp with
  | none => rw [htmp] at hrename; cases hrename
  | some bytes =>
      rw [htmp] at hrename
      cases hrename
      exact ⟨rfl, htmp ▸ h.tmp, .nil, .nil⟩

/-- The entries a manifest is read with. -/
theorem found (h : Held P codec store own) :
    Good P (foundEntries (store.found codec)) :=
  h.manifest

end Held

/-- Parsing a file of the directory. -/
theorem parseFile_ok {filename : String} {defn : ServiceDef}
    (h : parseFile fromStr dir files filename = .ok defn) :
    ParsesTo fromStr files filename defn := by
  unfold parseFile readText at h
  cases hfile : files.lookup filename with
  | none => rw [hfile] at h; cases h
  | some file =>
      rw [hfile] at h
      unfold parseContent at h
      cases hparse : fromStr (trimEndNul file.text) with
      | error e => simp [hparse] at h
      | ok svc =>
          simp only [hparse, Except.ok.injEq] at h
          exact ⟨file, hfile, h ▸ hparse⟩

/-- **One step of a load** adds an entry only where it parses a file. All other
steps list, read, compare or write what the load already holds, so its entries
stay good if those of the manifest are. -/
theorem Loader.step_held (dir : String) {store : Store codec.Bytes}
    {loader : Loader} (h : Held P codec store loader.entries)
    (hparse : ∀ e, ParsesTo fromStr store.files e.filename e.defn → P e) :
    (loader.step fromStr codec dir store).1.files = store.files ∧
      Held P codec (loader.step fromStr codec dir store).1
        (loader.step fromStr codec dir store).2.entries := by
  cases loader with
  | scan found names =>
      cases names with
      | nil => exact ⟨rfl, h⟩
      | cons name rest =>
          rw [Loader.step]
          split
          · exact ⟨rfl, h⟩
          · exact ⟨rfl, h⟩
  | scanned found =>
      refine ⟨rfl, h.congr ?_⟩
      change Good P (startingDraft _ _).entries
      rw [startingDraft_entries]
      exact h.found.sublist List.filter_sublist
  | upsert draft todo =>
      cases todo with
      | nil =>
          rw [Loader.step]
          cases draft.changed with
          | true => exact ⟨rfl, h⟩
          | false => exact ⟨rfl, h.congr .nil⟩
      | cons file rest =>
          rw [Loader.step]
          cases hround : upsertFile (parseFile fromStr dir store.files) draft
              file with
          | error e => exact ⟨rfl, h.congr .nil⟩
          | ok draft' =>
              refine ⟨rfl, h.congr ?_⟩
              rcases upsertFile_ok.mp hround with
                ⟨_, rfl⟩ | ⟨_, e, hparsed, rfl⟩
              · exact h.own
              · apply h.own.record
                apply hparse
                rw [hparsed.filename]
                exact parseFile_ok hparsed.defn
  | write m => exact ⟨rfl, h.writeTmp⟩
  | rename m =>
      rw [Loader.step]
      cases hrename : store.rename with
      | error e => exact ⟨rfl, h.congr .nil⟩
      | ok store' => exact h.rename hrename
  | returned services => exact ⟨rfl, h⟩
  | failed e => exact ⟨rfl, h⟩

/-- **One step of the handler** adds an entry only where it looks at the
modification time of what it has read. -/
theorem Handler.step_held (dir : String) {store : Store codec.Bytes}
    {handler : Handler} (h : Held P codec store handler.entries)
    (hseen : ∀ x ∈ handler.seen, ∀ e : ManifestEntry,
      e.filename = x.1 → e.defn = x.2 → P e) :
    (handler.step fromStr codec dir store).1.files = store.files ∧
      Held P codec (handler.step fromStr codec dir store).1
        (handler.step fromStr codec dir store).2.entries := by
  cases handler with
  | start filename deleted =>
      have hm : Good P
          ((store.found codec).getD ⟨manifestVersion, []⟩).entries := by
        have hfound := h.found
        cases hread : store.found codec with
        | none => exact .nil
        | some m => rwa [hread] at hfound
      rw [Handler.step]
      cases deleted with
      | true => exact ⟨rfl, h.congr (hm.sublist List.filter_sublist)⟩
      | false => exact ⟨rfl, h.congr hm⟩
  | read filename m =>
      rw [Handler.step]
      split
      · exact ⟨rfl, h⟩
      · exact ⟨rfl, h⟩
  | stat filename m defn =>
      rw [Handler.step]
      cases hentry : statEntry store.files filename defn with
      | error e => exact ⟨rfl, h⟩
      | ok entry =>
          have hfields : entry.filename = filename ∧ entry.defn = defn := by
            unfold statEntry at hentry
            split at hentry
            · cases hentry
            · split at hentry
              · cases hentry
              · cases hentry
                exact ⟨rfl, rfl⟩
          refine ⟨rfl, h.congr (h.own.record ?_)⟩
          exact hseen (filename, defn) rfl entry hfields.1 hfields.2
  | write m => exact ⟨rfl, h.writeTmp⟩
  | rename m =>
      rw [Handler.step]
      cases hrename : store.rename with
      | error e => exact ⟨rfl, h.congr .nil⟩
      | ok store' => exact h.rename hrename
  | done => exact ⟨rfl, h⟩
  | failed e => exact ⟨rfl, h⟩

/-- One step of a process leaves the files alone. -/
theorem Process.step_held (dir : String) {store : Store codec.Bytes}
    {p : Process} (h : Held P codec store p.entries)
    (hparse : ∀ e, ParsesTo fromStr store.files e.filename e.defn → P e)
    (hseen : ∀ handler ∈ p.handling, ∀ x ∈ handler.seen,
      ∀ e : ManifestEntry, e.filename = x.1 → e.defn = x.2 → P e) :
    (p.step fromStr codec dir store).1.files = store.files ∧
      Held P codec (p.step fromStr codec dir store).1
        (p.step fromStr codec dir store).2.entries := by
  cases p with
  | load since loader => exact Loader.step_held dir h hparse
  | handle handler => exact Handler.step_held dir h (hseen handler rfl)
  | stopped => exact ⟨rfl, h⟩

/-! ## All processes -/

/-- Every list of entries is good. -/
def AllGood (P : ManifestEntry → Prop) (codec : Bincode)
    (s : Scene codec.Bytes) : Prop :=
  ∀ entries ∈ s.records, Good P entries

namespace AllGood

variable {s : Scene codec.Bytes}

/-- Whoever has good entries holds them over a store in which all is good. -/
theorem held (h : AllGood P codec s) {own : List ManifestEntry}
    (hown : Good P own) : Held P codec s.store own where
  manifest := h _ List.mem_cons_self
  tmp := h _ (List.mem_cons_of_mem _ List.mem_cons_self)
  own := hown

/-- Each process has good entries in hand. -/
theorem process (h : AllGood P codec s) {p : Process} (hp : p ∈ s.procs) :
    Good P p.entries := by
  apply h
  exact List.mem_cons_of_mem _ (List.mem_cons_of_mem _
    (List.mem_map_of_mem hp))

/-- The lists of a scene put together. -/
theorem of_parts {store : Store codec.Bytes} {procs : List Process}
    {edits : Nat} (hstore : Held P codec store [])
    (hprocs : ∀ p ∈ procs, Good P p.entries) :
    AllGood P codec ⟨store, procs, edits⟩ := by
  intro entries hin
  rcases List.mem_cons.mp hin with rfl | hin
  · exact hstore.manifest
  · rcases List.mem_cons.mp hin with rfl | hin
    · exact hstore.tmp
    · obtain ⟨p, hp, rfl⟩ := List.mem_map.mp hin
      exact hprocs p hp

/-- A new process holds nothing yet. -/
theorem spawn (h : AllGood P codec s) {p : Process} (hp : p.entries = []) :
    AllGood P codec (s.spawn p) := by
  apply of_parts (h.held .nil)
  intro q hq
  rcases List.mem_append.mp hq with hq | hq
  · exact h.process hq
  · cases List.mem_singleton.mp hq
    rw [hp]
    exact .nil

/-- A process is replaced by what it has become. -/
theorem replace (h : AllGood P codec s) {i : Nat} {p : Process}
    {store : Store codec.Bytes} (hheld : Held P codec store p.entries) :
    AllGood P codec ⟨store, s.procs.set i p, s.edits⟩ := by
  apply of_parts (hheld.congr .nil)
  intro q hq
  rcases List.mem_or_eq_of_mem_set hq with hq | rfl
  · exact h.process hq
  · exact hheld.own

/-- **One action** adds entries where a file is parsed, and where the watcher
looks at the modification time of what it has read. -/
theorem step (h : AllGood P codec s) (a : Action)
    (hparse : ∀ e, ParsesTo fromStr s.store.files e.filename e.defn → P e)
    (hseen : ∀ i, a = .advance i →
      ∀ handler ∈ s.procs[i]?.bind Process.handling, ∀ x ∈ handler.seen,
        ∀ e : ManifestEntry, e.filename = x.1 → e.defn = x.2 → P e) :
    AllGood P codec (Scene.step fromStr codec dir a s) := by
  cases a with
  | tick nanos => exact h
  | edit filename text => exact h
  | remove filename => exact h
  | load order => exact h.spawn rfl
  | event filename deleted =>
      rw [Scene.step]
      split
      · exact h.spawn rfl
      · exact h
  | advance i =>
      rw [Scene.step]
      cases hp : s.procs[i]? with
      | none => exact h
      | some p =>
          have hgood := h.process (List.mem_of_getElem? hp)
          apply h.replace
          apply (Process.step_held dir (h.held hgood) hparse ?_).2
          intro handler hhandler
          exact hseen i rfl handler (by rw [hp]; exact hhandler)
  | stop i => exact h.replace (p := .stopped) (h.held .nil)

/-- At the start there is no manifest and no process. -/
theorem initial (clock : SystemTime) (files : Files) :
    AllGood P codec (Scene.initial codec clock files) :=
  of_parts ⟨.nil, .nil, .nil⟩ (fun _ h => nomatch h)

end AllGood

/-- **Manifests name no file twice**, whatever was edited, loaded and watched
before. -/
theorem manifest_names_distinct
    (fromStr : String → Except String ServiceDef) (codec : Bincode)
    (dir : String) (clock : SystemTime) (files : Files)
    (actions : List Action) :
    ((foundEntries ((sceneAfter fromStr codec dir clock files
      actions).store.found codec)).map (·.filename)).Nodup := by
  have hrun : AllGood (fun _ => True) codec
      (sceneAfter fromStr codec dir clock files actions) := by
    apply run_invariant (AllGood (fun _ => True) codec) ?_ actions _
      (Meets.trivial _ actions) (.initial clock files)
    intro a s _ h
    apply h.step a
    · intro e _
      exact True.intro
    · intro _ _ _ _ _ _ _ _ _
      exact True.intro
  exact (hrun.held .nil).found.nodup

end Entries

/-- A manifest that earlier loads and watchers have left, or none. -/
def LeftBehind (fromStr : String → Except String ServiceDef)
    (codec : Bincode) (dir : String) (found : Option Manifest) : Prop :=
  ∃ clock files actions,
    (sceneAfter fromStr codec dir clock files actions).store.found codec =
      found

/-- A manifest that was left behind names no file twice. -/
theorem LeftBehind.nodup {fromStr : String → Except String ServiceDef}
    {codec : Bincode} {dir : String} {found : Option Manifest}
    (h : LeftBehind fromStr codec dir found) :
    ((foundEntries found).map (·.filename)).Nodup := by
  obtain ⟨clock, files, actions, rfl⟩ := h
  exact manifest_names_distinct fromStr codec dir clock files actions

end FlintInit
