import FlintInit.CacheLoad

/-!
# Booting past a bad edit

`flint-watch` leaves the old entry of a file it cannot parse in the manifest,
with the modification time that entry was recorded under.  The loader trusts
an entry only while the file still has that time, and returns the parse error
otherwise.  `boots_past_bad_edits_iff` says for which directories and manifests
the loader then does fall back on the old definitions: an edit that breaks a
file must leave its whole-second time as it was.
-/

namespace FlintInit

open KeyedVec

/-- The entry holds what a boot should use for its file: what the file parses
to now, or the definition the manifest had if it does not parse. -/
def Usable (parse : String → Except LoadError ServiceDef) (m : Manifest)
    (e : ManifestEntry) : Prop :=
  match parse e.filename with
  | .ok defn => e.defn = defn
  | .error _ => ∃ old,
      lookup ManifestEntry.filename m.entries e.filename = some old ∧
        e.defn = old.defn

/-- The load succeeds with one usable definition for each file. -/
def BootsPast (fromStr : String → Except String ServiceDef)
    (codec : Bincode) (disk : Disk codec.Bytes) (dir : String)
    (files : List (String × SystemTime)) (m : Manifest) : Prop :=
  ∃ draft, loadManifest fromStr codec disk dir = .ok draft ∧
    loadServicesCached fromStr codec disk dir =
      .ok (draft.entries.map (·.defn)) ∧
    (draft.entries.map (·.filename)).Perm (files.map Prod.fst) ∧
    ∀ e ∈ draft.entries,
      Usable (parseToml fromStr disk.readToString dir) m e

/-- What has to hold of the files and the manifest. -/
structure Tolerated (parse : String → Except LoadError ServiceDef)
    (files : List (String × SystemTime)) (m : Manifest) (canWrite : Prop) :
    Prop where
  /-- No file is older than the epoch. -/
  dated : ∀ file ∈ files, ∃ secs, asSecs file.2 = .ok secs
  /-- A file that does not parse has the time its entry was recorded under. -/
  broken : ∀ file ∈ files, (∃ err, parse file.1 = .error err) →
    ∃ e, Current m.entries file e
  /-- A file that has the time of its entry and parses, parses to it. -/
  fresh : ∀ file ∈ files, ∀ e defn, Current m.entries file e →
    parse file.1 = .ok defn → e.defn = defn
  /-- No file of the directory has two entries. -/
  distinct : ((retain ManifestEntry.filename (files.map Prod.fst)
    m.entries).map (·.filename)).Nodup
  /-- The manifest can be written unless it is up to date. -/
  writable : ((∃ file ∈ files, ∀ e, ¬ Current m.entries file e) ∨
    ∃ e ∈ m.entries, e.filename ∉ files.map Prod.fst) → canWrite

section Start

variable {files : List (String × SystemTime)} {m : Manifest}

/-- A draft that has not changed is an up-to-date manifest. The loop marks the
draft as changed in two places, where an entry is dropped with its file and
where a file is parsed, and these are the two ways for a manifest to be out of
date. -/
theorem changed_iff_outdated
    {parse : String → Except LoadError ServiceDef} {draft : Draft}
    (h : Updated parse files
      (startingDraft (some m) (files.map Prod.fst)) draft) :
    draft.changed = true ↔
      (∃ file ∈ files, ∀ e, ¬ Current m.entries file e) ∨
        ∃ e ∈ m.entries, e.filename ∉ files.map Prod.fst := by
  rw [← Bool.not_eq_false, h.changed, startingDraft_changed, not_and_or]
  constructor
  · intro hout
    rcases hout with hgone | hstale
    · apply Or.inr
      by_contra hall
      apply hgone
      intro e he
      by_contra hout
      exact hall ⟨e, he, hout⟩
    · apply Or.inl
      by_contra hall
      apply hstale
      intro file hfile
      by_contra hnone
      apply hall
      refine ⟨file, hfile, fun e he => hnone ⟨e, ?_⟩⟩
      exact (current_startingDraft hfile).mpr he
  · intro hout
    rcases hout with ⟨file, hfile, hnone⟩ | ⟨e, he, hgone⟩
    · apply Or.inr
      intro hall
      obtain ⟨e, he⟩ := hall file hfile
      exact hnone e ((current_startingDraft hfile).mp he)
    · exact .inl (fun hall => hgone (hall e he))

end Start

section Fallback

variable {fromStr : String → Except String ServiceDef} {codec : Bincode}
  {disk : Disk codec.Bytes} {dir : String}
  {files : List (String × SystemTime)} {m : Manifest}

/-- What a load has to find for it to boot past bad edits. Each condition is
read off the loop: a file that does not parse was not parsed, so its entry is
current; and the definitions returned are those of the entries. -/
theorem tolerated_of_bootsPast (hscan : scanTomlFiles disk = .ok files)
    (hread : readManifest codec disk (join dir manifestFilename) =
      .ok (some m))
    (h : BootsPast fromStr codec disk dir files m) :
    Tolerated (parseToml fromStr disk.readToString dir) files m
      (Writable disk (join dir manifestFilename)) := by
  obtain ⟨draft, hdraft, hservices, hperm, husable⟩ := h
  have hnd := scanTomlFiles_nodup hscan
  have hupd := upsertFiles_spec hnd
    ((loadManifest_eq hscan hread).symm.trans hdraft)
  refine ⟨?_, ?_, ?_, ?_, ?_⟩
  · intro file hfile
    obtain ⟨e, _, hcur | ⟨_, hparsed⟩⟩ := hupd.entry file hfile
    · exact ⟨_, hcur.2⟩
    · exact ⟨_, hparsed.mtime⟩
  · intro file hfile ⟨err, herr⟩
    obtain ⟨e, _, hcur | ⟨_, hparsed⟩⟩ := hupd.entry file hfile
    · exact ⟨e, (current_startingDraft hfile).mp hcur⟩
    · have hdefn := hparsed.defn
      rw [herr] at hdefn
      cases hdefn
  · intro file hfile e defn hcur hdefn
    have hkept : Current
        (startingDraft (some m) (files.map Prod.fst)).entries file e :=
      (current_startingDraft hfile).mpr hcur
    obtain ⟨e', hlook, hstep⟩ := hupd.entry file hfile
    have he : e' = e := by
      rcases hstep with ⟨hlook', _⟩ | ⟨hnone, _⟩
      · rw [hkept.1] at hlook'
        exact (Option.some.inj hlook').symm
      · exact absurd hkept (hnone e)
    obtain ⟨hmem, hname⟩ := of_lookup hlook
    have huse := husable e' hmem
    unfold Usable at huse
    rw [hname, hdefn] at huse
    exact he ▸ huse
  · have hkeys := hupd.nodup.mp (hperm.nodup_iff.mpr hnd)
    rw [startingDraft_entries] at hkeys
    exact hkeys
  · intro hout
    obtain ⟨draft', hdraft', _, hwrite⟩ := loadServicesCached_ok.mp hservices
    rw [hdraft] at hdraft'
    cases hdraft'
    apply writeManifest_ok.mp
    exact hwrite ((changed_iff_outdated hupd).mpr hout)

/-- What is enough for a load to boot past bad edits. Every file has a current
entry or parses, so the loop runs through; what it keeps is usable under the
conditions on the entries. -/
theorem bootsPast_of_tolerated (hscan : scanTomlFiles disk = .ok files)
    (hread : readManifest codec disk (join dir manifestFilename) =
      .ok (some m))
    (h : Tolerated (parseToml fromStr disk.readToString dir) files m
      (Writable disk (join dir manifestFilename))) :
    BootsPast fromStr codec disk dir files m := by
  have hnd := scanTomlFiles_nodup hscan
  have hrounds : ∀ file ∈ files,
      (∃ e, Current (startingDraft (some m) (files.map Prod.fst)).entries
        file e) ∨
      ∃ e, Parsed (parseToml fromStr disk.readToString dir) file e := by
    intro file hfile
    obtain ⟨secs, hsecs⟩ := h.dated file hfile
    cases hparse : parseToml fromStr disk.readToString dir file.1 with
    | error err =>
        obtain ⟨e, he⟩ := h.broken file hfile ⟨err, hparse⟩
        exact .inl ⟨e, (current_startingDraft hfile).mpr he⟩
    | ok defn => exact .inr ⟨⟨file.1, secs, defn⟩, rfl, hsecs, hparse⟩
  obtain ⟨draft, hrun⟩ := upsertFiles_runs hnd hrounds
  have hupd := upsertFiles_spec hnd hrun
  have hdraft : loadManifest fromStr codec disk dir = .ok draft :=
    (loadManifest_eq hscan hread).trans hrun
  have hkeys : (draft.entries.map (·.filename)).Nodup := by
    apply hupd.nodup.mpr
    rw [startingDraft_entries]
    exact h.distinct
  refine ⟨draft, hdraft, ?_, ?_, ?_⟩
  · apply loadServicesCached_ok.mpr
    refine ⟨draft, hdraft, rfl, fun hchanged => writeManifest_ok.mpr ?_⟩
    exact h.writable ((changed_iff_outdated hupd).mp hchanged)
  · apply (List.perm_ext_iff_of_nodup hkeys hnd).mpr
    intro k
    rw [hupd.keys]
    exact or_iff_right_of_imp mem_startingDraft_keys
  · intro e he
    obtain ⟨file, hfile, hfilename, hstep⟩ := hupd.of_mem hkeys he
    unfold Usable
    rw [← hfilename]
    rcases hstep with hcur | ⟨_, hparsed⟩
    · cases hparse : parseToml fromStr disk.readToString dir file.1 with
      | ok defn => exact h.fresh file hfile e defn hcur hparse
      | error err => exact ⟨e, hcur.1, rfl⟩
    · rw [hparsed.defn]

/-- **Booting past a bad edit.**  On a directory with a manifest, a load
returns the old definition of each file that does not parse and the current
one of each other file exactly when the directory can be listed, every broken
file still has the modification time of its entry, every entry trusted for its
time is what the file parses to, no file has two entries, no time lies before
the epoch, and the manifest can be written if it is outdated. -/
theorem boots_past_bad_edits_iff
    (hread : readManifest codec disk (join dir manifestFilename) =
      .ok (some m)) :
    (∃ files, scanTomlFiles disk = .ok files ∧
        BootsPast fromStr codec disk dir files m) ↔
      ∃ files, scanTomlFiles disk = .ok files ∧
        Tolerated (parseToml fromStr disk.readToString dir) files m
          (Writable disk (join dir manifestFilename)) := by
  constructor
  · intro ⟨files, hscan, h⟩
    exact ⟨files, hscan, tolerated_of_bootsPast hscan hread h⟩
  · intro ⟨files, hscan, h⟩
    exact ⟨files, hscan, bootsPast_of_tolerated hscan hread h⟩

end Fallback

/-- A service file, and the definition it parses to. -/
def dbToml : String := "[service]\nname = \"db\"\nexec = \"/bin/db\"\n"

def parseDbToml (text : String) : Except String ServiceDef :=
  if text = dbToml then .ok (makeService "db" [] [])
  else .error "TOML parse error"

/-- The manifest of a directory with that file, last modified in second 1. -/
def dbManifest : Manifest := ⟨1, [⟨"db.toml", 1, makeService "db" [] []⟩]⟩

/-- The directory after an edit at `mtime` that cut the file off. -/
def brokenDb (mtime : SystemTime) : Disk Bincode.plain.Bytes where
  readDir := .ok [.ok ⟨"db.toml", .ok mtime⟩, .ok ⟨"services.bin", .ok 0⟩]
  distinct := by
    intro entries h
    cases h
    show ["db.toml", "services.bin"].Nodup
    decide
  readToString _ := .ok "[service"
  read _ := .ok dbManifest
  write _ := .ok ()
  rename _ _ := .ok ()

/-- An edit in the same second is not noticed, and the old definition boots. -/
theorem boots_past_bad_edits_iff_same_second :
    ∃ files, scanTomlFiles (brokenDb 1500000000) = .ok files ∧
      BootsPast parseDbToml .plain (brokenDb 1500000000)
        "/etc/flint/services" files dbManifest := by
  apply (boots_past_bad_edits_iff rfl).mpr
  have hbroken : parseToml parseDbToml (brokenDb 1500000000).readToString
      "/etc/flint/services" "db.toml" =
      .error (.parse "/etc/flint/services/db.toml" "TOML parse error") := by
    decide
  have hcur : Current dbManifest.entries ("db.toml", 1500000000)
      ⟨"db.toml", 1, makeService "db" [] []⟩ := ⟨rfl, by decide⟩
  refine ⟨[("db.toml", 1500000000)], by decide, ?_, ?_, ?_, by decide,
    fun _ => by decide⟩
  · intro file hfile
    cases List.mem_singleton.mp hfile
    exact ⟨1, by decide⟩
  · intro file hfile _
    cases List.mem_singleton.mp hfile
    exact ⟨_, hcur⟩
  · intro file hfile e defn _ hdefn
    cases List.mem_singleton.mp hfile
    rw [hbroken] at hdefn
    cases hdefn

/-- An edit a second later fails the boot. -/
theorem bad_edit_fails_boot :
    scanTomlFiles (brokenDb 2000000000) = .ok [("db.toml", 2000000000)] ∧
    readManifest .plain (brokenDb 2000000000)
      (join "/etc/flint/services" manifestFilename) = .ok (some dbManifest) ∧
    loadServicesCached parseDbToml .plain (brokenDb 2000000000)
        "/etc/flint/services" =
      .error (.parse "/etc/flint/services/db.toml" "TOML parse error") ∧
    ¬ ∃ files, scanTomlFiles (brokenDb 2000000000) = .ok files ∧
      BootsPast parseDbToml .plain (brokenDb 2000000000)
        "/etc/flint/services" files dbManifest := by
  have hload : loadServicesCached parseDbToml .plain (brokenDb 2000000000)
      "/etc/flint/services" =
      .error (.parse "/etc/flint/services/db.toml" "TOML parse error") := by
    decide
  refine ⟨by decide, rfl, hload, ?_⟩
  intro ⟨files, _, draft, _, hservices, _⟩
  rw [hload] at hservices
  cases hservices

end FlintInit
