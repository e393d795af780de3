import FlintInit.ManifestContents

/-!
# What the cache may serve

An entry is sound when its file either has another whole-second modification
time or parses to the entry's definition.  Loads and watchers only ever make
sound entries out of sound ones, but for two situations: a file is edited
again in the second some entry of it was made under, and a file is edited
between the watcher's read of it and the watcher's look at its modification
time.  `load_serves_current` shows that in every run without them a load that
started after the last edit serves exactly what the files hold.
-/

namespace FlintInit

open Collections KeyedVec Runs

/-! ## Sound entries -/

section Sound

variable (fromStr : String → Except String ServiceDef) (files : Files)

/-- An entry that is not stale under the modification time of its file. -/
def Sound (e : ManifestEntry) : Prop :=
  ∀ file, files.lookup e.filename = some file →
    asSecs file.modified = .ok e.mtimeSecs →
    fromStr (trimEndNul file.text) = .ok e.defn

/-- An entry for each service file, under its modification time. -/
structure Complete (entries : List ManifestEntry) : Prop where
  dated : ∀ e ∈ entries, ∃ file, files.lookup e.filename = some file ∧
    asSecs file.modified = .ok e.mtimeSecs
  names : ∀ name, name ∈ entries.map (·.filename) ↔ name ∈ tomlNames files

/-- For each service file exactly the definition its content parses to. -/
def Serves (services : List ServiceDef) : Prop :=
  ∃ names : List String, names.Perm (tomlNames files) ∧
    List.Forall₂ (ParsesTo fromStr files) names services

end Sound

section Entries

variable {fromStr : String → Except String ServiceDef} {codec : Bincode}
  {dir : String} {files : Files}

/-- A directory has no two files of one name. -/
theorem nodup_tomlNames : (tomlNames files).Nodup :=
  List.Nodup.filter _ files.nodupKeys

/-- An entry made from what its file holds now is sound. -/
theorem ParsesTo.sound {e : ManifestEntry}
    (h : ParsesTo fromStr files e.filename e.defn) :
    Sound fromStr files e := by
  obtain ⟨file, hfile, hparse⟩ := h
  intro file' hfile' _
  rw [hfile] at hfile'
  cases hfile'
  exact hparse

/-- An edit leaves an entry sound that it does not mistake for its own. -/
theorem Sound.edit {e : ManifestEntry} {filename text : String}
    {clock : SystemTime} (h : Sound fromStr files e)
    (hown : e.filename = filename → asSecs clock = .ok e.mtimeSecs →
      fromStr (trimEndNul text) = .ok e.defn) :
    Sound fromStr (files.insert filename ⟨clock, text⟩) e := by
  intro file hfile hmtime
  rw [lookup_insert_eq] at hfile
  by_cases hname : e.filename = filename
  · rw [if_pos hname] at hfile
    cases hfile
    exact hown hname hmtime
  · rw [if_neg hname] at hfile
    exact h file hfile hmtime

/-- Removing a file can only make an entry's file disappear, which a sound
entry allows. -/
theorem Sound.remove {e : ManifestEntry} {filename : String}
    (h : Sound fromStr files e) :
    Sound fromStr (files.erase filename) e := by
  intro file hfile hmtime
  rw [lookup_erase_eq] at hfile
  split at hfile
  · cases hfile
  · exact h file hfile hmtime

/-- Sound entries for all files, under their times, serve the files. -/
theorem serves_of_complete {entries : List ManifestEntry}
    (h : Good (Sound fromStr files) entries)
    (hall : Complete files entries) :
    Serves fromStr files (entries.map (·.defn)) := by
  refine ⟨entries.map (·.filename), ?_, ?_⟩
  · apply (List.perm_ext_iff_of_nodup h.nodup nodup_tomlNames).mpr
    exact hall.names
  · rw [List.forall₂_map_left_iff, List.forall₂_map_right_iff,
      List.forall₂_same]
    intro e he
    obtain ⟨file, hfile, hmtime⟩ := hall.dated e he
    exact ⟨file, hfile, h.all e he file hfile hmtime⟩

/-! ## Loads on files that stay as they are -/

/-- The modification times found are those of the files. -/
def Dated (files : Files) (found : List (String × SystemTime)) : Prop :=
  ∀ x ∈ found, ∃ file, files.lookup x.1 = some file ∧ file.modified = x.2

/-- How far a load has come since it started on these files. -/
def Progress (fromStr : String → Except String ServiceDef) (files : Files) :
    Loader → Prop
  | .scan found names => Dated files found ∧
      (found.map Prod.fst ++ names).Perm (tomlNames files)
  | .scanned found => Dated files found ∧
      (found.map Prod.fst).Perm (tomlNames files)
  | .upsert draft todo => ∃ earlier, Dated files (earlier ++ todo) ∧
      ((earlier ++ todo).map Prod.fst).Perm (tomlNames files) ∧
      (∀ name ∈ draft.entries.map (·.filename), name ∈ tomlNames files) ∧
      ∀ file ∈ earlier, ∃ e, Current draft.entries file e
  | .write m => Complete files m.entries
  | .rename m => Complete files m.entries
  | .returned services => Serves fromStr files services
  | .failed _ => True

/-- At the end of the loop there is an entry for each file. -/
theorem complete_of_loop {draft : Draft}
    {found : List (String × SystemTime)} (hdated : Dated files found)
    (hperm : (found.map Prod.fst).Perm (tomlNames files))
    (hsub : ∀ name ∈ draft.entries.map (·.filename),
      name ∈ tomlNames files)
    (hcur : ∀ file ∈ found, ∃ e, Current draft.entries file e)
    (hnd : (draft.entries.map (·.filename)).Nodup) :
    Complete files draft.entries where
  dated e he := by
    have hname : e.filename ∈ found.map Prod.fst :=
      hperm.mem_iff.mpr (hsub _ (List.mem_map_of_mem he))
    obtain ⟨x, hx, hfst⟩ := List.mem_map.mp hname
    obtain ⟨e', hlook, hmtime⟩ := hcur x hx
    obtain ⟨file, hfile, hmodified⟩ := hdated x hx
    rw [hfst, lookup_of_mem hnd he] at hlook
    cases hlook
    exact ⟨file, hfst ▸ hfile, hmodified ▸ hmtime⟩
  names name := by
    constructor
    · exact hsub name
    · intro hname
      obtain ⟨x, hx, hfst⟩ := List.mem_map.mp (hperm.mem_iff.mpr hname)
      obtain ⟨e, hlook, _⟩ := hcur x hx
      obtain ⟨hmem, hkey⟩ := of_lookup hlook
      exact hfst ▸ hkey ▸ List.mem_map_of_mem hmem

/-- A round of the loop gets one file further. Either the entry is current, and
sound by the invariant, or the file is parsed, and the definition is that of
its present content. -/
theorem progress_round {draft draft' : Draft} {file : String × SystemTime}
    {rest : List (String × SystemTime)}
    (hp : Progress fromStr files (.upsert draft (file :: rest)))
    (hround : upsertFile (parseFile fromStr dir files) draft file =
      .ok draft') :
    Progress fromStr files (.upsert draft' rest) := by
  obtain ⟨earlier, hdated, hperm, hsub, hcur⟩ := hp
  have hsplit : earlier ++ file :: rest = (earlier ++ [file]) ++ rest := by
    simp
  have hnd := hperm.nodup_iff.mpr nodup_tomlNames
  rw [hsplit] at hdated hperm
  refine ⟨earlier ++ [file], hdated, hperm, ?_, ?_⟩
  · rcases upsertFile_ok.mp hround with ⟨_, rfl⟩ | ⟨_, e, hparsed, rfl⟩
    · exact hsub
    · intro name hname
      rcases mem_keys_upsert.mp hname with rfl | hname
      · rw [hparsed.filename]
        apply hperm.mem_iff.mp
        simp
      · exact hsub name hname
  · intro x hx
    have hout : x ∈ earlier → x.1 ≠ file.1 := by
      intro hin heq
      rw [List.map_append, List.nodup_append] at hnd
      exact hnd.2.2 x.1 (List.mem_map_of_mem hin) file.1 (by simp) heq
    rcases upsertFile_ok.mp hround with
      ⟨⟨e, he⟩, rfl⟩ | ⟨_, e, hparsed, rfl⟩
    · rcases List.mem_append.mp hx with hx | hx
      · exact hcur x hx
      · cases List.mem_singleton.mp hx
        exact ⟨e, he⟩
    · rcases List.mem_append.mp hx with hx | hx
      · obtain ⟨e', he'⟩ := hcur x hx
        refine ⟨e', (current_record ?_).mpr he'⟩
        rw [hparsed.filename]
        exact hout hx
      · cases List.mem_singleton.mp hx
        refine ⟨e, ?_, hparsed.mtime⟩
        rw [Draft.entries, Manifest.record, lookup_upsert,
          if_pos hparsed.filename.symm]

/-- **One step of a load on files that stay as they are.** The listing, the
manifest that is read and each entry that is made are compared with the files
as they are now; with no edit in between this is what they will be at the end.
-/
theorem Loader.step_progress {store : Store codec.Bytes} {loader : Loader}
    (h : Good (Sound fromStr store.files) loader.entries)
    (hp : Progress fromStr store.files loader) :
    Progress fromStr store.files
      (loader.step fromStr codec dir store).2 := by
  cases loader with
  | scan found names =>
      obtain ⟨hdated, hperm⟩ := hp
      cases names with
      | nil =>
          rw [List.append_nil] at hperm
          exact ⟨hdated, hperm⟩
      | cons name rest =>
          rw [Loader.step]
          cases hmod : readModified store.files name with
          | error e => exact True.intro
          | ok mtime =>
              refine ⟨?_, by simpa using hperm⟩
              intro x hx
              rcases List.mem_append.mp hx with hx | hx
              · exact hdated x hx
              · cases List.mem_singleton.mp hx
                unfold readModified at hmod
                cases hfile : store.files.lookup name with
                | none => rw [hfile] at hmod; cases hmod
                | some file =>
                    rw [hfile] at hmod
                    exact ⟨file, rfl, Except.ok.inj hmod⟩
  | scanned found =>
      obtain ⟨hdated, hperm⟩ := hp
      refine ⟨[], hdated, hperm, ?_, fun _ hx => absurd hx List.not_mem_nil⟩
      intro name hname
      exact hperm.mem_iff.mp (mem_startingDraft_keys hname)
  | upsert draft todo =>
      cases todo with
      | nil =>
          obtain ⟨earlier, hdated, hperm, hsub, hcur⟩ := hp
          rw [List.append_nil] at hdated hperm
          have hall := complete_of_loop hdated hperm hsub hcur h.nodup
          rw [Loader.step]
          cases draft.changed with
          | true => exact hall
          | false => exact serves_of_complete h hall
      | cons file rest =>
          rw [Loader.step]
          cases hround : upsertFile (parseFile fromStr dir store.files) draft
              file with
          | error e => exact True.intro
          | ok draft' => exact progress_round hp hround
  | write m => exact hp
  | rename m =>
      rw [Loader.step]
      cases hrename : store.rename with
      | error e => exact True.intro
      | ok store' => exact serves_of_complete h hp
  | returned services => exact hp
  | failed e => exact True.intro

/-! ## All processes together -/

/-- The file still parses to what the handler has read. -/
def Undisturbed (fromStr : String → Except String ServiceDef)
    (files : Files) (handler : Handler) : Prop :=
  ∀ x ∈ handler.seen, ∀ file ∈ files.lookup x.1,
    fromStr (trimEndNul file.text) = .ok x.2

instance (fromStr : String → Except String ServiceDef) (files : Files)
    (handler : Handler) : Decidable (Undisturbed fromStr files handler) :=
  inferInstanceAs (Decidable (∀ x ∈ handler.seen, _))

/-- The two situations an action must not get into: an edit in the second an
entry of the file was made under, unless it changes nothing, and a look at the
modification time of a file that was changed since it was read. -/
def Unambiguous (fromStr : String → Except String ServiceDef)
    (codec : Bincode) (a : Action) (s : Scene codec.Bytes) : Prop :=
  match a with
  | .edit filename text => ∀ entries ∈ s.records, ∀ e ∈ entries,
      e.filename = filename → asSecs s.store.clock = .ok e.mtimeSecs →
        fromStr (trimEndNul text) = .ok e.defn
  | .advance i => ∀ handler ∈ s.procs[i]?.bind Process.handling,
      Undisturbed fromStr s.store.files handler
  | _ => True

instance (fromStr : String → Except String ServiceDef) (codec : Bincode)
    (a : Action) (s : Scene codec.Bytes) :
    Decidable (Unambiguous fromStr codec a s) :=
  match a with
  | .edit _ _ => inferInstanceAs (Decidable (∀ entries ∈ s.records, _))
  | .advance i => inferInstanceAs
      (Decidable (∀ handler ∈ s.procs[i]?.bind Process.handling, _))
  | .tick _ => isTrue True.intro
  | .remove _ => isTrue True.intro
  | .load _ => isTrue True.intro
  | .event _ _ => isTrue True.intro
  | .stop _ => isTrue True.intro

/-- Everything held is sound, and each load that no edit has overtaken is on
its way to serving the files. -/
structure Coherent (fromStr : String → Except String ServiceDef)
    (codec : Bincode) (s : Scene codec.Bytes) : Prop where
  good : AllGood (Sound fromStr s.store.files) codec s
  loads : ∀ since loader, Process.load since loader ∈ s.procs →
    since ≤ s.edits ∧
      (since = s.edits → Progress fromStr s.store.files loader)

/-- What the watcher has read is sound when it looks at the modification
time. -/
theorem Undisturbed.sound {handler : Handler}
    (h : Undisturbed fromStr files handler) :
    ∀ x ∈ handler.seen, ∀ e : ManifestEntry, e.filename = x.1 →
      e.defn = x.2 → Sound fromStr files e := by
  intro x hx e hname hdefn file hfile _
  rw [hname] at hfile
  rw [hdefn]
  exact h x hx file hfile

namespace Coherent

variable {s : Scene codec.Bytes}

/-- An unambiguous action leaves all entries sound, under the files as they
were. -/
theorem allGood (h : Coherent fromStr codec s) (dir : String) {a : Action}
    (hok : Unambiguous fromStr codec a s) :
    AllGood (Sound fromStr s.store.files) codec
      (Scene.step fromStr codec dir a s) := by
  apply h.good.step a
  · intro e he
    exact he.sound
  · intro i hi handler hhandler
    subst hi
    exact (hok handler hhandler).sound

/-- A change of the files overtakes every load. -/
theorem change (h : Coherent fromStr codec s) {files' : Files}
    (hsound : ∀ entries ∈ s.records, ∀ e ∈ entries,
      Sound fromStr s.store.files e → Sound fromStr files' e) :
    Coherent fromStr codec (s.change files') where
  good entries hin := by
    have hgood := h.good entries hin
    exact ⟨hgood.nodup, fun e he => hsound entries hin e he (hgood.all e he)⟩
  loads since loader hin := by
    have hle : since ≤ s.edits := (h.loads since loader hin).1
    have hedits : (s.change files').edits = s.edits + 1 := rfl
    rw [hedits]
    constructor
    · omega
    · intro heq
      omega

/-- A load starts with the edits there are. -/
theorem loads_spawn (h : Coherent fromStr codec s) {p : Process}
    (hload : ∀ since loader, p = .load since loader →
      since = s.edits ∧ Progress fromStr s.store.files loader) :
    ∀ since loader, Process.load since loader ∈ (s.spawn p).procs →
      since ≤ s.edits ∧
        (since = s.edits → Progress fromStr s.store.files loader) := by
  intro since loader hq
  rcases List.mem_append.mp hq with hq | hq
  · exact h.loads since loader hq
  · obtain ⟨hsince, hprogress⟩ :=
      hload since loader (List.mem_singleton.mp hq).symm
    exact ⟨le_of_eq hsince, fun _ => hprogress⟩

/-- A process takes a step that leaves the files alone. -/
theorem replace (h : Coherent fromStr codec s) {i : Nat} {p : Process}
    {store : Store codec.Bytes} (hfiles : store.files = s.store.files)
    (hgood : AllGood (Sound fromStr s.store.files) codec
      ⟨store, s.procs.set i p, s.edits⟩)
    (hload : ∀ since loader, p = .load since loader → since ≤ s.edits ∧
      (since = s.edits → Progress fromStr s.store.files loader)) :
    Coherent fromStr codec ⟨store, s.procs.set i p, s.edits⟩ where
  good := by
    change AllGood (Sound fromStr store.files) codec _
    rwa [hfiles]
  loads since loader hq := by
    change since ≤ s.edits ∧
      (since = s.edits → Progress fromStr store.files loader)
    rw [hfiles]
    rcases List.mem_or_eq_of_mem_set hq with hq | hq
    · exact h.loads since loader hq
    · exact hload since loader hq.symm

/-- A load that no edit has overtaken gets on. -/
theorem load_step (h : Coherent fromStr codec s) {p : Process}
    (hp : p ∈ s.procs) {since : Nat} {loader : Loader}
    (heq : (p.step fromStr codec dir s.store).2 = .load since loader) :
    since ≤ s.edits ∧
      (since = s.edits → Progress fromStr s.store.files loader) := by
  cases p with
  | load since' loader' =>
      cases heq
      obtain ⟨hle, hprogress⟩ := h.loads since loader' hp
      refine ⟨hle, fun hsince => ?_⟩
      exact Loader.step_progress (h.good.process hp) (hprogress hsince)
  | handle handler => cases heq
  | stopped => cases heq

/-- **Every unambiguous action keeps the scene coherent.** An edit only has to
leave no entry that is taken for current while its content is another; a load
that it overtakes is not promised to serve the files, and whatever entries the
load has made are tested by their time. -/
theorem step (h : Coherent fromStr codec s) {a : Action}
    (hok : Unambiguous fromStr codec a s) :
    Coherent fromStr codec (Scene.step fromStr codec dir a s) := by
  have hgood := h.allGood dir hok
  cases a with
  | tick nanos => exact ⟨hgood, h.loads⟩
  | edit filename text =>
      apply h.change
      intro entries hin e he hsound
      exact hsound.edit (hok entries hin e he)
  | remove filename =>
      apply h.change
      intro entries _ e _ hsound
      exact hsound.remove
  | load order =>
      refine ⟨hgood, h.loads_spawn ?_⟩
      intro since loader heq
      cases heq
      refine ⟨rfl, fun _ hx => absurd hx List.not_mem_nil, ?_⟩
      exact order.perm _
  | event filename deleted =>
      rw [Scene.step] at hgood ⊢
      split
      · rename_i hname
        rw [if_pos hname] at hgood
        refine ⟨hgood, h.loads_spawn ?_⟩
        rintro _ _ ⟨⟩
      · exact h
  | advance i =>
      rw [Scene.step] at hgood ⊢
      cases hp : s.procs[i]? with
      | none => exact h
      | some p =>
          have hin := List.mem_of_getElem? hp
          have hheld := h.good.held (h.good.process hin)
          have hseen : ∀ handler ∈ p.handling, Undisturbed fromStr
              s.store.files handler := by
            intro handler hhandler
            exact hok handler (by rw [hp]; exact hhandler)
          rw [hp] at hgood
          apply h.replace ?_ hgood (fun since loader heq => h.load_step hin heq)
          exact (Process.step_held dir hheld (fun e he => he.sound)
            (fun handler hhandler => (hseen handler hhandler).sound)).1
  | stop i =>
      apply h.replace (p := .stopped) rfl hgood
      rintro _ _ ⟨⟩

end Coherent

/-- Without a manifest and without processes there is nothing to be stale. -/
theorem initial_coherent (fromStr : String → Except String ServiceDef)
    (codec : Bincode) (clock : SystemTime) (files : Files) :
    Coherent fromStr codec (Scene.initial codec clock files) :=
  ⟨.initial clock files, fun _ _ h => nomatch h⟩

end Entries

/-- **The cache serves what the files hold.**  In every run in which no file is
edited in the second an entry of it was made under, and no file changes
between the watcher's read and its look at the modification time, a load that
started after the last edit and returned serves for each service file exactly
the definition its content parses to. -/
theorem load_serves_current (fromStr : String → Except String ServiceDef)
    (codec : Bincode) (dir : String) (clock : SystemTime) (files : Files)
    (actions : List Action)
    (hrun : Meets (Scene.step fromStr codec dir) (Unambiguous fromStr codec)
      (Scene.initial codec clock files) actions)
    (since : Nat) (services : List ServiceDef) :
    let s := sceneAfter fromStr codec dir clock files actions
    .load since (.returned services) ∈ s.procs → since = s.edits →
      Serves fromStr s.store.files services := by
  intro s hload hsince
  have hinv := run_invariant (Coherent fromStr codec)
    (fun a s hok h => h.step hok) actions _ hrun
    (initial_coherent fromStr codec clock files)
  exact (hinv.loads since _ hload).2 hsince

/-! ## Runs -/

/-- Two versions of a service, as definitions and as texts. -/
def dbVersion (v : String) : ServiceDef :=
  { makeService "db" [] [] with
    service := ⟨"db", "/bin/db-" ++ v, none, none, none⟩ }

def dbVersionToml (v : String) : String :=
  "[service]\nname = \"db\"\nexec = \"/bin/db-" ++ v ++ "\"\n"

def parseDbVersion (text : String) : Except String ServiceDef :=
  if text = dbVersionToml "1" then .ok (dbVersion "1")
  else if text = dbVersionToml "2" then .ok (dbVersion "2")
  else .error "TOML parse error"

/-- A directory with the first version. -/
def firstVersion : Files :=
  (∅ : Files).insert "db.toml" ⟨0, dbVersionToml "1"⟩

/-- A load, and all of its steps. -/
def wholeLoad (i : Nat) : List Action :=
  .load (.asStored _) :: List.replicate 7 (.advance i)

/-- The second version comes a second after the first was loaded, and the
watcher takes notice of it. -/
def noticedEdit : List Action :=
  wholeLoad 0 ++ [.tick 1000000000, .edit "db.toml" (dbVersionToml "2"),
    .event "db.toml" false] ++ List.replicate 5 (.advance 1) ++ wholeLoad 2

/-- What becomes of that directory. -/
def firstVersionAfter (actions : List Action) : Scene Bincode.plain.Bytes :=
  sceneAfter parseDbVersion .plain "/etc/flint/services" 0 firstVersion
    actions

/-- The handler has noticed the edit, so the load that comes after it serves
the second version. -/
theorem load_serves_current_noticed :
    let s := firstVersionAfter noticedEdit
    s.procs[2]? = some (.load 1 (.returned [dbVersion "2"])) ∧
      Serves parseDbVersion s.store.files [dbVersion "2"] := by
  intro s
  have hload : s.procs[2]? = some (.load 1 (.returned [dbVersion "2"])) := by
    decide +kernel
  refine ⟨hload, ?_⟩
  exact load_serves_current parseDbVersion .plain "/etc/flint/services" 0
    firstVersion noticedEdit (by decide +kernel) 1 _
    (List.mem_of_getElem? hload) (by decide +kernel)

/-- The second version comes in the second in which the first was loaded. -/
def sameSecond : List Action :=
  wholeLoad 0 ++ [.edit "db.toml" (dbVersionToml "2")] ++ wholeLoad 1

/-- The second version comes after the watcher has read the first, and before
it looks at the modification time. -/
def lateStat : List Action :=
  [.event "db.toml" false, .advance 0, .advance 0, .tick 1000000000,
    .edit "db.toml" (dbVersionToml "2")] ++ List.replicate 3 (.advance 0) ++
    wholeLoad 1

/-- A directory in which the second version lies is not served by the first
one, whatever second the file was written in. -/
theorem not_serves_first {files : Files}
    (htoml : tomlNames files = ["db.toml"])
    (hfile : files.lookup "db.toml" =
      some ⟨0, dbVersionToml "2"⟩ ∨ files.lookup "db.toml" =
      some ⟨1000000000, dbVersionToml "2"⟩) :
    ¬ Serves parseDbVersion files [dbVersion "1"] := by
  have hparse : parseDbVersion (trimEndNul (dbVersionToml "2")) ≠
      .ok (dbVersion "1") := by decide +kernel
  intro ⟨names, hperm, hall⟩
  rw [htoml] at hperm
  rw [List.perm_singleton.mp hperm] at hall
  obtain ⟨⟨file, hlook, hfirst⟩, _⟩ := List.forall₂_cons.mp hall
  rcases hfile with hfile | hfile
  · rw [hfile] at hlook
    cases hlook
    exact hparse hfirst
  · rw [hfile] at hlook
    cases hlook
    exact hparse hfirst

/-- A load that no edit has overtaken has returned the first version, which
is not what the file holds. -/
def ServesFirst (s : Scene Bincode.plain.Bytes) : Prop :=
  (∃ since, .load since (.returned [dbVersion "1"]) ∈ s.procs ∧
    since = s.edits) ∧
  ¬ Serves parseDbVersion s.store.files [dbVersion "1"]

/-- **Both situations hide an edit.**  A load that starts after the last edit
returns the first version, though the file holds the second. -/
theorem hidden_edits_serve_first_version :
    ServesFirst (firstVersionAfter sameSecond) ∧
      ServesFirst (firstVersionAfter lateStat) := by
  have hsecond : (firstVersionAfter sameSecond).procs[1]? =
      some (.load 1 (.returned [dbVersion "1"])) := by decide +kernel
  have hlate : (firstVersionAfter lateStat).procs[1]? =
      some (.load 1 (.returned [dbVersion "1"])) := by decide +kernel
  refine ⟨⟨⟨1, List.mem_of_getElem? hsecond, by decide +kernel⟩, ?_⟩,
    ⟨⟨1, List.mem_of_getElem? hlate, by decide +kernel⟩, ?_⟩⟩
  · apply not_serves_first
    · decide +kernel
    · exact .inl (by decide +kernel)
  · apply not_serves_first
    · decide +kernel
    · exact .inr (by decide +kernel)

end FlintInit
