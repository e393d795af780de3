import FlintInit.CacheFallback
import FlintInit.Watcher

/-!
# A load reconciles the manifest with the directory

After a load the stored manifest has one entry for each `.toml` file, with the
file's time and the definition the load has taken for it.  Dropping, replacing
and appending entries set the changed flag exactly when the manifest is out of
date, so a load after a load finds every entry current and writes nothing.
-/

namespace FlintInit

open KeyedVec

/-- The entry records the time of the file and the definition taken for it. -/
structure Recorded (parse : String → Except LoadError ServiceDef)
    (entries : List ManifestEntry) (file : String × SystemTime)
    (e : ManifestEntry) : Prop where
  filename : e.filename = file.1
  mtime : asSecs file.2 = .ok e.mtimeSecs
  defn : Taken parse entries file e.defn

section Load

variable (fromStr : String → Except String ServiceDef) (codec : Bincode)
  (disk : Disk codec.Bytes) (dir : String)

/-- What the manifest's path holds after a load: the rename puts the new bytes
there, and nothing before it touches the old ones. -/
def storedAfter : Except IoError codec.Bytes :=
  match rewritten fromStr codec disk dir with
  | none => disk.read (join dir manifestFilename)
  | some m =>
      match writeManifest disk (join dir manifestFilename) with
      | .ok () => .ok (codec.serialize m)
      | .error _ => disk.read (join dir manifestFilename)

/-- A load that returns `services` over the listed `files`, with `found` for a
manifest before it, and `m` for one after it. -/
structure Reconciled (files : List (String × SystemTime))
    (found : Option Manifest) (m : Manifest) (services : List ServiceDef) :
    Prop where
  stored : ∃ bytes, storedAfter fromStr codec disk dir = .ok bytes ∧
    decodeManifest codec bytes = some m
  /-- The entries are those recorded for the files, one for each. -/
  entries : ∃ recorded, recorded.Perm m.entries ∧
    List.Forall₂ (Recorded (parseToml fromStr disk.readToString dir)
      (foundEntries found)) files recorded
  returned : services = m.entries.map (·.defn)
  /-- It is written if there was none, a file had no current entry, or an
  entry had no file. -/
  rewritten : rewritten fromStr codec disk dir ≠ none ↔ found = none ∨
    (∃ file ∈ files, ∀ e, ¬ Current (foundEntries found) file e) ∨
    ∃ e ∈ foundEntries found, e.filename ∉ files.map Prod.fst
  /-- A load of the same files finds nothing to do, whatever the order in
  which they are listed. -/
  again : ∀ disk' : Disk codec.Bytes, ∀ files',
    scanTomlFiles disk' = .ok files' → files'.Perm files →
    disk'.read (join dir manifestFilename) =
      storedAfter fromStr codec disk dir →
    loadServicesCached fromStr codec disk' dir = .ok services ∧
      FlintInit.rewritten fromStr codec disk' dir = none

end Load

/-! ## The loop over current files -/

/-- A loop over files with current entries leaves the draft as it is. -/
theorem upsertFiles_current {parse : String → Except LoadError ServiceDef}
    {draft : Draft} :
    ∀ {files : List (String × SystemTime)},
      (∀ file ∈ files, ∃ e, Current draft.entries file e) →
      files.foldlM (upsertFile parse) draft = .ok draft := by
  intro files
  induction files with
  | nil => intro _; rfl
  | cons file rest ih =>
      intro h
      have hround : upsertFile parse draft file = .ok draft :=
        upsertFile_ok.mpr (.inl ⟨h file List.mem_cons_self, rfl⟩)
      rw [List.foldlM_cons, hround]
      exact ih (fun f hf => h f (List.mem_cons_of_mem _ hf))

/-- A manifest that has entries for listed files only loses none. -/
theorem startingDraft_eq {m : Manifest} {onDisk : List String}
    (h : ∀ e ∈ m.entries, e.filename ∈ onDisk) :
    startingDraft (some m) onDisk = ⟨m, false⟩ := by
  have hretain : retain ManifestEntry.filename onDisk m.entries =
      m.entries := by
    rw [retain, List.filter_eq_self]
    simpa using h
  simp [startingDraft, dropDeleted, hretain]

/-- A current entry for each file, and none for others. -/
structure AllCurrent (files : List (String × SystemTime)) (m : Manifest) :
    Prop where
  current : ∀ file ∈ files, ∃ e, Current m.entries file e
  listed : ∀ e ∈ m.entries, e.filename ∈ files.map Prod.fst

section Load

variable {fromStr : String → Except String ServiceDef} {codec : Bincode}
  {disk : Disk codec.Bytes} {dir : String}
  {files : List (String × SystemTime)} {found : Option Manifest}

/-- A load that finds its manifest up to date. -/
theorem loadManifest_allCurrent {m : Manifest}
    (hscan : scanTomlFiles disk = .ok files)
    (hread : readManifest codec disk (join dir manifestFilename) =
      .ok (some m)) (h : AllCurrent files m) :
    loadManifest fromStr codec disk dir = .ok ⟨m, false⟩ := by
  rw [loadManifest_eq hscan hread, startingDraft_eq h.listed]
  exact upsertFiles_current h.current

/-- When a draft has changed, with and without a manifest. -/
theorem changed_iff {parse : String → Except LoadError ServiceDef}
    {draft : Draft} (h : Updated parse files
      (startingDraft found (files.map Prod.fst)) draft) :
    draft.changed = true ↔ found = none ∨
      (∃ file ∈ files, ∀ e, ¬ Current (foundEntries found) file e) ∨
      ∃ e ∈ foundEntries found, e.filename ∉ files.map Prod.fst := by
  cases found with
  | some m =>
      rw [changed_iff_outdated h]
      simp [foundEntries]
  | none =>
      refine iff_of_true ?_ (.inl rfl)
      rw [← Bool.not_eq_false]
      exact fun hfalse => nomatch (h.changed.mp hfalse).1

/-- What the loop makes is recorded for its file. -/
theorem Updated.recorded {parse : String → Except LoadError ServiceDef}
    {draft : Draft} (h : Updated parse files
      (startingDraft found (files.map Prod.fst)) draft)
    {file : String × SystemTime} (hfile : file ∈ files) :
    ∃ e, lookup ManifestEntry.filename draft.entries file.1 = some e ∧
      Recorded parse (foundEntries found) file e := by
  obtain ⟨e, hlook, hstep⟩ := h.entry file hfile
  refine ⟨e, hlook, (of_lookup hlook).2, ?_, ?_⟩
  · rcases hstep with hcur | ⟨_, hparsed⟩
    · exact hcur.2
    · exact hparsed.mtime
  · rcases hstep with hcur | ⟨hnone, hparsed⟩
    · exact .inl ⟨e, (current_startingDraft hfile).mp hcur, rfl⟩
    · refine .inr ⟨fun e' hcur => ?_, hparsed.defn⟩
      exact hnone e' ((current_startingDraft hfile).mpr hcur)

/-- After the loop there is an entry for each file of the directory and for
nothing else. -/
theorem Updated.mem_keys {parse : String → Except LoadError ServiceDef}
    {draft : Draft} (h : Updated parse files
      (startingDraft found (files.map Prod.fst)) draft) (k : String) :
    k ∈ draft.entries.map (·.filename) ↔ k ∈ files.map Prod.fst := by
  rw [h.keys]
  exact or_iff_right_of_imp mem_startingDraft_keys

/-- After the loop the entry of each file records the modification time that
the file has. -/
theorem Updated.allCurrent {parse : String → Except LoadError ServiceDef}
    {draft : Draft} (h : Updated parse files
      (startingDraft found (files.map Prod.fst)) draft) :
    AllCurrent files draft.manifest where
  current := by
    intro file hfile
    obtain ⟨e, hlook, hrecorded⟩ := h.recorded hfile
    exact ⟨e, hlook, hrecorded.mtime⟩
  listed := by
    intro e he
    exact (h.mem_keys e.filename).mp (List.mem_map_of_mem he)

/-- The same files in another order. -/
theorem AllCurrent.perm {m : Manifest} (h : AllCurrent files m)
    {files' : List (String × SystemTime)} (hperm : files'.Perm files) :
    AllCurrent files' m where
  current := fun file hfile => h.current file (hperm.mem_iff.mp hfile)
  listed := fun e he =>
    ((hperm.map Prod.fst).mem_iff).mpr (h.listed e he)

/-- One entry is recorded for each file. -/
theorem Updated.forall_recorded
    {parse : String → Except LoadError ServiceDef} {draft : Draft} :
    ∀ {todo : List (String × SystemTime)},
      (∀ file ∈ todo, ∃ e,
        lookup ManifestEntry.filename draft.entries file.1 = some e ∧
          Recorded parse (foundEntries found) file e) →
      List.Forall₂ (Recorded parse (foundEntries found)) todo
        ((todo.map Prod.fst).filterMap
          (lookup ManifestEntry.filename draft.entries)) := by
  intro todo
  induction todo with
  | nil => intro _; exact .nil
  | cons file rest ih =>
      intro h
      obtain ⟨e, hlook, hrecorded⟩ := h file List.mem_cons_self
      rw [List.map_cons, List.filterMap_cons_some hlook]
      exact .cons hrecorded (ih fun f hf => h f (List.mem_cons_of_mem _ hf))

/-- A usable manifest has the current version. -/
theorem startingDraft_version {onDisk : List String}
    (hread : readManifest codec disk (join dir manifestFilename) =
      .ok found) :
    (startingDraft found onDisk).manifest.version = manifestVersion := by
  cases found with
  | none => rfl
  | some m =>
      unfold readManifest at hread
      cases hbytes : disk.read (join dir manifestFilename) with
      | error e =>
          rw [hbytes] at hread
          dsimp only at hread
          split at hread <;> cases hread
      | ok bytes =>
          rw [hbytes] at hread
          have hdecode := Except.ok.inj hread
          unfold decodeManifest at hdecode
          cases hbin : codec.deserialize bytes with
          | error e => rw [hbin] at hdecode; cases hdecode
          | ok m' =>
              rw [hbin] at hdecode
              dsimp only at hdecode
              split at hdecode
              · rename_i hversion
                cases hdecode
                exact hversion
              · cases hdecode

/-- Reading what is stored. -/
theorem readManifest_of_stored {bytes : codec.Bytes} {path : String}
    (h : disk.read path = .ok bytes) :
    readManifest codec disk path = .ok (decodeManifest codec bytes) := by
  rw [readManifest, h]

/-- What a load writes is read back by the next one: the versions agree. -/
theorem decode_serialize {m : Manifest} (h : m.version = manifestVersion) :
    decodeManifest codec (codec.serialize m) = some m := by
  rw [decodeManifest, codec.round_trip]
  exact if_pos h

/-- A load that succeeds has its manifest stored. If the draft has changed it
was written, and otherwise the file holds the same entries already, as the
draft was made from it. -/
theorem stored_of_ok {draft : Draft}
    (hscan : scanTomlFiles disk = .ok files)
    (hread : readManifest codec disk (join dir manifestFilename) =
      .ok found)
    (hdraft : loadManifest fromStr codec disk dir = .ok draft)
    (hwrite : draft.changed = true →
      writeManifest disk (join dir manifestFilename) = .ok ()) :
    ∃ bytes, storedAfter fromStr codec disk dir = .ok bytes ∧
      decodeManifest codec bytes = some draft.manifest := by
  have hloop := (loadManifest_eq hscan hread).symm.trans hdraft
  have hupd := upsertFiles_spec (scanTomlFiles_nodup hscan) hloop
  cases hchanged : draft.changed with
  | true =>
      refine ⟨codec.serialize draft.manifest, ?_, decode_serialize ?_⟩
      · simp only [storedAfter, rewritten, hdraft, hchanged, if_true,
          hwrite hchanged]
      · rw [hupd.version, startingDraft_version hread]
  | false =>
      have hkept := hchanged
      rw [← Bool.not_eq_true, changed_iff hupd] at hkept
      push Not at hkept
      obtain ⟨hfound, hcurrent, hlisted⟩ := hkept
      obtain ⟨m, rfl⟩ := Option.ne_none_iff_exists'.mp hfound
      have hsame : loadManifest fromStr codec disk dir = .ok ⟨m, false⟩ :=
        loadManifest_allCurrent hscan hread ⟨hcurrent, hlisted⟩
      rw [hdraft] at hsame
      cases hsame
      have hstored : storedAfter fromStr codec disk dir =
          disk.read (join dir manifestFilename) := by
        simp only [storedAfter, rewritten, hdraft, Bool.false_eq_true,
          if_false]
      rw [hstored]
      unfold readManifest at hread
      cases hbytes : disk.read (join dir manifestFilename) with
      | error e =>
          rw [hbytes] at hread
          dsimp only at hread
          split at hread <;> cases hread
      | ok bytes =>
          rw [hbytes] at hread
          exact ⟨bytes, rfl, Except.ok.inj hread⟩

end Load

/-- **A load reconciles exactly.**  Over any directory, and a manifest that is
missing, unusable or without repeated file names: a load that succeeds leaves
one entry for each file, with its time and the definition taken for it, and
returns these definitions; it writes exactly if the manifest was missing or
out of date, and a second load over the same files returns the same list and
writes nothing.  A load that fails leaves the stored manifest as it was. -/
theorem load_reconciles (fromStr : String → Except String ServiceDef)
    (codec : Bincode) (disk : Disk codec.Bytes) (dir : String)
    (hdistinct : ∀ m, readManifest codec disk (join dir manifestFilename) =
      .ok (some m) → (m.entries.map (·.filename)).Nodup) :
    (∀ services, loadServicesCached fromStr codec disk dir = .ok services →
      ∃ files found m, scanTomlFiles disk = .ok files ∧
        readManifest codec disk (join dir manifestFilename) = .ok found ∧
        Reconciled fromStr codec disk dir files found m services) ∧
    ∀ e, loadServicesCached fromStr codec disk dir = .error e →
      storedAfter fromStr codec disk dir =
        disk.read (join dir manifestFilename) := by
  constructor
  · intro services hload
    obtain ⟨draft, hdraft, rfl, hwrite⟩ := loadServicesCached_ok.mp hload
    obtain ⟨files, found, hscan, hread⟩ := loadManifest_inputs hdraft
    have hnd := scanTomlFiles_nodup hscan
    have hupd := upsertFiles_spec hnd
      ((loadManifest_eq hscan hread).symm.trans hdraft)
    have hkeys : (draft.entries.map (·.filename)).Nodup := by
      apply hupd.nodup.mpr
      rw [startingDraft_entries]
      apply nodup_retain
      cases found with
      | none => exact List.nodup_nil
      | some m => exact hdistinct m hread
    have hstored := stored_of_ok hscan hread hdraft hwrite
    refine ⟨files, found, draft.manifest, hscan, hread, hstored, ?_, rfl, ?_,
      ?_⟩
    · exact ⟨_, perm_lookups hkeys hnd hupd.mem_keys,
        Updated.forall_recorded (fun file hfile => hupd.recorded hfile)⟩
    · rw [← changed_iff hupd, rewritten, hdraft]
      cases hchanged : draft.changed <;> simp [hchanged]
    · intro disk' files' hscan' hperm hsame
      obtain ⟨bytes, hbytes, hdecode⟩ := hstored
      have hread' : readManifest codec disk' (join dir manifestFilename) =
          .ok (some draft.manifest) := by
        rw [readManifest_of_stored (hsame.trans hbytes), hdecode]
      have hagain : loadManifest fromStr codec disk' dir =
          .ok ⟨draft.manifest, false⟩ :=
        loadManifest_allCurrent hscan' hread' (hupd.allCurrent.perm hperm)
      refine ⟨?_, ?_⟩
      · rw [loadServicesCached, hagain]
        rfl
      · rw [rewritten, hagain]
        rfl
  · intro e hload
    unfold loadServicesCached at hload
    unfold storedAfter rewritten
    cases hdraft : loadManifest fromStr codec disk dir with
    | error e' => rfl
    | ok draft =>
        rw [hdraft] at hload
        dsimp only at hload ⊢
        cases hchanged : draft.changed with
        | false =>
            rw [hchanged] at hload
            cases hload
        | true =>
            rw [if_pos hchanged] at hload
            rw [if_pos rfl]
            dsimp only
            cases hwrite : writeManifest disk (join dir manifestFilename) with
            | error e' => rfl
            | ok u =>
                rw [hwrite] at hload
                cases hload

/-- A directory in which a file has been renamed since the manifest was
written. -/
def renamedDb : Disk Bincode.plain.Bytes where
  readDir := .ok [.ok ⟨"db.toml", .ok 2000000000⟩, .ok ⟨"services.bin", .ok 0⟩]
  distinct := by
    intro entries h
    cases h
    show ["db.toml", "services.bin"].Nodup
    decide
  readToString _ := .ok dbToml
  read _ := .ok ⟨1, [⟨"database.toml", 1, makeService "db" [] []⟩]⟩
  write _ := .ok ()
  rename _ _ := .ok ()

/-- The manifest still names `db` by its old file name; a load drops that entry
and makes a new one. -/
theorem load_reconciles_renamed :
    ∃ files found m, scanTomlFiles renamedDb = .ok files ∧
      readManifest .plain renamedDb
        (join "/etc/flint/services" manifestFilename) = .ok found ∧
      Reconciled parseDbToml .plain renamedDb "/etc/flint/services" files
        found m [makeService "db" [] []] := by
  refine (load_reconciles parseDbToml .plain renamedDb "/etc/flint/services"
    ?_).1 _ (by decide)
  intro m h
  cases h
  decide

example : storedAfter parseDbToml .plain renamedDb "/etc/flint/services" =
    .ok ⟨1, [⟨"db.toml", 2, makeService "db" [] []⟩]⟩ := by
  rfl

/-- The small steps of a load that nothing interrupts leave the same manifest
behind. -/
theorem storedAfter_of_steps {fromStr : String → Except String ServiceDef}
    {codec : Bincode} {dir : String} {store : Store codec.Bytes}
    (hplain : ∀ name ∈ store.files.keys, isAbsolute name = false) :
    ∃ store', Relation.ReflTransGen (LoadStep fromStr codec dir)
      (store, .scan [] (tomlNames store.files))
      (store', .ended
        (loadServicesCached fromStr codec (store.disk dir) dir)) ∧
      (store'.disk dir).read (join dir manifestFilename) =
        storedAfter fromStr codec (store.disk dir) dir := by
  obtain ⟨store', hsteps, hmanifest⟩ :=
    @load_alone_stores fromStr codec dir store hplain
  refine ⟨store', hsteps, ?_⟩
  unfold storedAfter
  cases hwritten : rewritten fromStr codec (store.disk dir) dir with
  | none =>
      rw [hwritten] at hmanifest
      unfold Store.disk
      rw [hmanifest]
  | some m =>
      rw [hwritten] at hmanifest
      unfold Store.disk
      rw [hmanifest]
      rfl

end FlintInit
