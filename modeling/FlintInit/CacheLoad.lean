import FlintInit.Cache

/-!
# What a load does

A load is a loop over the files of the directory, with and without a manifest
(`loadManifest_eq`).  `upsertFile_ok` says what one round of it does and
`upsertFiles_spec` what all of them do; `mem_loadServicesCached` says where
the definitions come from that a load returns.
-/

namespace FlintInit

open KeyedVec

/-- The file's recorded entry, when its whole-second time is the file's. -/
def Current (entries : List ManifestEntry) (file : String × SystemTime)
    (e : ManifestEntry) : Prop :=
  lookup ManifestEntry.filename entries file.1 = some e ∧
    asSecs file.2 = .ok e.mtimeSecs

/-- An entry made by reading the file. -/
structure Parsed (parse : String → Except LoadError ServiceDef)
    (file : String × SystemTime) (e : ManifestEntry) : Prop where
  filename : e.filename = file.1
  mtime : asSecs file.2 = .ok e.mtimeSecs
  defn : parse file.1 = .ok e.defn

section Loop

variable {parse : String → Except LoadError ServiceDef}

/-- The comparison of modification times, in whole seconds, finds exactly the
entries that are current for the file. -/
theorem cachedMtime_eq_some {entries : List ManifestEntry}
    {file : String × SystemTime} {secs : Nat}
    (hsecs : asSecs file.2 = .ok secs) :
    cachedMtime entries file.1 = some secs ↔
      ∃ e, Current entries file e := by
  rw [cachedMtime, Option.map_eq_some_iff]
  constructor
  · intro ⟨e, hlook, heq⟩
    exact ⟨e, hlook, by rw [hsecs, heq]⟩
  · intro ⟨e, hlook, heq⟩
    rw [hsecs] at heq
    exact ⟨e, hlook, (Except.ok.inj heq).symm⟩

/-- **One round of the loop.**  It leaves the manifest alone when the file's
entry is current, and otherwise records what the file parses to. -/
theorem upsertFile_ok {draft draft' : Draft} {file : String × SystemTime} :
    upsertFile parse draft file = .ok draft' ↔
      ((∃ e, Current draft.entries file e) ∧ draft' = draft) ∨
      ((∀ e, ¬ Current draft.entries file e) ∧
        ∃ e, Parsed parse file e ∧
          draft' = ⟨draft.manifest.record e, true⟩) := by
  unfold upsertFile
  cases hsecs : asSecs file.2 with
  | error err =>
      constructor
      · intro h; cases h
      · intro h
        rcases h with ⟨⟨e, _, he⟩, _⟩ | ⟨_, e, he, _⟩
        · rw [hsecs] at he; cases he
        · have := he.mtime; rw [hsecs] at this; cases this
  | ok secs =>
      dsimp only
      by_cases hcur : ∃ e, Current draft.entries file e
      · rw [if_pos ((cachedMtime_eq_some hsecs).mpr hcur)]
        constructor
        · intro h; cases h; exact .inl ⟨hcur, rfl⟩
        · intro h
          rcases h with ⟨_, rfl⟩ | ⟨hnone, _⟩
          · rfl
          · obtain ⟨e, he⟩ := hcur
            exact absurd he (hnone e)
      · rw [if_neg (fun h => hcur ((cachedMtime_eq_some hsecs).mp h))]
        cases hparse : parse file.1 with
        | error err =>
            constructor
            · intro h; cases h
            · intro h
              rcases h with ⟨h, _⟩ | ⟨_, e, he, _⟩
              · exact absurd h hcur
              · have := he.defn; rw [hparse] at this; cases this
        | ok defn =>
            constructor
            · intro h
              cases h
              refine .inr ⟨not_exists.mp hcur, _, ?_, rfl⟩
              exact ⟨rfl, hsecs, hparse⟩
            · intro h
              rcases h with ⟨h, _⟩ | ⟨_, e, he, rfl⟩
              · exact absurd h hcur
              · obtain ⟨hname, hmtime, hdefn⟩ := he
                rw [hsecs] at hmtime
                rw [hparse] at hdefn
                cases hmtime
                cases hdefn
                rw [← hname]

/-- Recording an entry of one file leaves the others current as they were. -/
theorem current_record {m : Manifest} {e e' : ManifestEntry}
    {file : String × SystemTime} (hne : file.1 ≠ e.filename) :
    Current (m.record e).entries file e' ↔ Current m.entries file e' := by
  unfold Current Manifest.record
  rw [lookup_upsert, if_neg hne]

/-- What the loop makes of a draft. -/
structure Updated (parse : String → Except LoadError ServiceDef)
    (files : List (String × SystemTime)) (draft draft' : Draft) : Prop where
  version : draft'.manifest.version = draft.manifest.version
  entry : ∀ file ∈ files, ∃ e,
    lookup ManifestEntry.filename draft'.entries file.1 = some e ∧
      (Current draft.entries file e ∨
        (∀ e', ¬ Current draft.entries file e') ∧ Parsed parse file e)
  other : ∀ k ∉ files.map Prod.fst,
    lookup ManifestEntry.filename draft'.entries k =
      lookup ManifestEntry.filename draft.entries k
  keys : ∀ k, k ∈ draft'.entries.map (·.filename) ↔
    k ∈ draft.entries.map (·.filename) ∨ k ∈ files.map Prod.fst
  nodup : (draft'.entries.map (·.filename)).Nodup ↔
    (draft.entries.map (·.filename)).Nodup
  changed : draft'.changed = false ↔ draft.changed = false ∧
    ∀ file ∈ files, ∃ e, Current draft.entries file e

namespace Updated

/-- With no file to look at the draft stays as it is. -/
theorem nil (draft : Draft) : Updated parse [] draft draft where
  version := rfl
  entry := fun _ h => nomatch h
  other := fun _ _ => rfl
  keys := by simp
  nodup := Iff.rfl
  changed := by simp

/-- A round that finds the entry current adds its file. The draft is not
touched, so the entry is still there at the end, as the later rounds look at
other names. -/
theorem cons_current {draft draft' : Draft} {file : String × SystemTime}
    {rest : List (String × SystemTime)} {e : ManifestEntry}
    (hcur : Current draft.entries file e)
    (hnew : file.1 ∉ rest.map Prod.fst)
    (h : Updated parse rest draft draft') :
    Updated parse (file :: rest) draft draft' where
  version := h.version
  entry := by
    intro f hf
    rcases List.mem_cons.mp hf with rfl | hf
    · exact ⟨e, (h.other _ hnew).trans hcur.1, .inl hcur⟩
    · exact h.entry f hf
  other := by
    intro k hk
    rw [List.map_cons, List.mem_cons, not_or] at hk
    exact h.other k hk.2
  keys := by
    intro k
    have hin : file.1 ∈ draft.entries.map (·.filename) := by
      obtain ⟨hmem, hname⟩ := of_lookup hcur.1
      exact hname ▸ List.mem_map_of_mem hmem
    rw [h.keys, List.map_cons, List.mem_cons]
    constructor
    · intro hk
      rcases hk with hk | hk
      · exact .inl hk
      · exact .inr (.inr hk)
    · intro hk
      rcases hk with hk | rfl | hk
      · exact .inl hk
      · exact .inl hin
      · exact .inr hk
  nodup := h.nodup
  changed := by
    rw [h.changed, List.forall_mem_cons]
    constructor
    · intro ⟨hdraft, hrest⟩; exact ⟨hdraft, ⟨e, hcur⟩, hrest⟩
    · intro ⟨hdraft, _, hrest⟩; exact ⟨hdraft, hrest⟩

/-- A round that parses its file adds it, and the manifest has changed. The new
entry stands under the file's name and replaces the one that was there. -/
theorem cons_parsed {draft draft' : Draft} {file : String × SystemTime}
    {rest : List (String × SystemTime)} {e : ManifestEntry}
    (hnone : ∀ e', ¬ Current draft.entries file e')
    (hparsed : Parsed parse file e) (hnew : file.1 ∉ rest.map Prod.fst)
    (h : Updated parse rest ⟨draft.manifest.record e, true⟩ draft') :
    Updated parse (file :: rest) draft draft' where
  version := h.version
  entry := by
    intro f hf
    rcases List.mem_cons.mp hf with rfl | hf
    · refine ⟨e, (h.other _ hnew).trans ?_, .inr ⟨hnone, hparsed⟩⟩
      rw [Draft.entries, Manifest.record, lookup_upsert,
        if_pos hparsed.filename.symm]
    · obtain ⟨e', hlook, he'⟩ := h.entry f hf
      have hne : f.1 ≠ e.filename := by
        rw [hparsed.filename]
        intro heq
        exact hnew (heq ▸ List.mem_map_of_mem hf)
      refine ⟨e', hlook, he'.imp (current_record hne).mp ?_⟩
      intro ⟨hno, hp⟩
      exact ⟨fun e'' hc => hno e'' ((current_record hne).mpr hc), hp⟩
  other := by
    intro k hk
    rw [List.map_cons, List.mem_cons, not_or] at hk
    rw [h.other k hk.2, Draft.entries, Manifest.record, lookup_upsert,
      hparsed.filename, if_neg hk.1, Draft.entries]
  keys := by
    intro k
    rw [h.keys, Draft.entries, Manifest.record, mem_keys_upsert,
      hparsed.filename, List.map_cons, List.mem_cons]
    tauto
  nodup := h.nodup.trans nodup_upsert
  changed := by
    constructor
    · intro hfalse; cases (h.changed.mp hfalse).1
    · intro ⟨_, hall⟩
      obtain ⟨e', hcur⟩ := hall file List.mem_cons_self
      exact absurd hcur (hnone e')

end Updated

/-- **All rounds of the loop**, over files with distinct names. -/
theorem upsertFiles_spec :
    ∀ {files : List (String × SystemTime)} {draft draft' : Draft},
      (files.map Prod.fst).Nodup →
      files.foldlM (upsertFile parse) draft = .ok draft' →
      Updated parse files draft draft' := by
  intro files
  induction files with
  | nil =>
      intro draft draft' _ h
      cases h
      exact .nil draft
  | cons file rest ih =>
      intro draft draft' hnd h
      obtain ⟨hnew, hrest⟩ := List.nodup_cons.mp hnd
      rw [List.foldlM_cons] at h
      cases hround : upsertFile parse draft file with
      | error err => rw [hround] at h; cases h
      | ok middle =>
          rw [hround] at h
          have hrounds := ih hrest h
          rcases upsertFile_ok.mp hround with
            ⟨⟨e, hcur⟩, rfl⟩ | ⟨hnone, e, hparsed, rfl⟩
          · exact hrounds.cons_current hcur hnew
          · exact hrounds.cons_parsed hnone hparsed hnew

/-- The loop runs through when every file has a current entry or parses.
Nothing else can stop it: a time before the epoch would, and neither a current
entry nor a parsed file has one. -/
theorem upsertFiles_runs :
    ∀ {files : List (String × SystemTime)} {draft : Draft},
      (files.map Prod.fst).Nodup →
      (∀ file ∈ files, (∃ e, Current draft.entries file e) ∨
        ∃ e, Parsed parse file e) →
      ∃ draft', files.foldlM (upsertFile parse) draft = .ok draft' := by
  intro files
  induction files with
  | nil => intro draft _ _; exact ⟨draft, rfl⟩
  | cons file rest ih =>
      intro draft hnd h
      obtain ⟨hnew, hrest⟩ := List.nodup_cons.mp hnd
      rw [List.foldlM_cons]
      by_cases hcur : ∃ e, Current draft.entries file e
      · rw [upsertFile_ok.mpr (.inl ⟨hcur, rfl⟩)]
        exact ih hrest (fun f hf => h f (List.mem_cons_of_mem _ hf))
      · rcases h file List.mem_cons_self with habs | ⟨e, hparsed⟩
        · exact absurd habs hcur
        · rw [upsertFile_ok.mpr
            (.inr ⟨not_exists.mp hcur, e, hparsed, rfl⟩)]
          apply ih hrest
          intro f hf
          have hne : f.1 ≠ e.filename := by
            rw [hparsed.filename]
            intro heq
            exact hnew (heq ▸ List.mem_map_of_mem hf)
          apply (h f (List.mem_cons_of_mem _ hf)).imp_left
          intro ⟨e', he'⟩
          exact ⟨e', (current_record hne).mpr he'⟩

/-- A draft made by a full build. -/
def builtDraft : Except LoadError (List ManifestEntry) →
    Except LoadError Draft
  | .error e => .error e
  | .ok entries => .ok ⟨⟨manifestVersion, entries⟩, true⟩

/-- On a file without an entry, a round of the loop is one of a full build. -/
theorem upsertFile_new {entries : List ManifestEntry}
    {file : String × SystemTime}
    (hnew : file.1 ∉ entries.map (·.filename)) :
    upsertFile parse ⟨⟨manifestVersion, entries⟩, true⟩ file =
      builtDraft (buildEntry parse entries file) := by
  have hlook : ∀ secs, cachedMtime
      (⟨⟨manifestVersion, entries⟩, true⟩ : Draft).entries file.1 ≠
        some secs := by
    intro secs
    simp [cachedMtime, Draft.entries, lookup_eq_none.mpr hnew]
  have hrecord : ∀ secs defn, (⟨manifestVersion, entries⟩ : Manifest).record
      ⟨file.1, secs, defn⟩ =
      ⟨manifestVersion, entries ++ [⟨file.1, secs, defn⟩]⟩ :=
    fun secs defn => congrArg _ (upsert_of_not_mem hnew)
  unfold upsertFile buildEntry
  cases asSecs file.2 with
  | error err => rfl
  | ok secs =>
      dsimp only
      rw [if_neg (hlook secs)]
      cases parse file.1 with
      | error err => rfl
      | ok defn =>
          dsimp only
          rw [hrecord]
          rfl

/-- A full build is the loop over an empty manifest. Where there is no entry
none is current, so each file is parsed and appended in its turn. -/
theorem buildFiles_eq :
    ∀ {files : List (String × SystemTime)} {entries : List ManifestEntry},
      (files.map Prod.fst).Nodup →
      (∀ file ∈ files, file.1 ∉ entries.map (·.filename)) →
      files.foldlM (upsertFile parse) ⟨⟨manifestVersion, entries⟩, true⟩ =
        builtDraft (files.foldlM (buildEntry parse) entries) := by
  intro files
  induction files with
  | nil => intro entries _ _; rfl
  | cons file rest ih =>
      intro entries hnd hout
      obtain ⟨hnew, hrest⟩ := List.nodup_cons.mp hnd
      rw [List.foldlM_cons, List.foldlM_cons,
        upsertFile_new (hout file List.mem_cons_self)]
      cases hround : buildEntry parse entries file with
      | error err => rfl
      | ok entries' =>
          apply ih hrest
          intro f hf hmem
          have hkeys : entries'.map (·.filename) =
              entries.map (·.filename) ++ [file.1] := by
            unfold buildEntry at hround
            split at hround
            · cases hround
            · split at hround
              · cases hround
              · cases hround
                simp
          rw [hkeys, List.mem_append] at hmem
          rcases hmem with hmem | hmem
          · exact hout f (List.mem_cons_of_mem _ hf) hmem
          · have heq : f.1 = file.1 := List.mem_singleton.mp hmem
            exact hnew (heq ▸ List.mem_map_of_mem hf)

end Loop

/-- The draft the loop starts from. -/
def startingDraft (found : Option Manifest) (onDisk : List String) : Draft :=
  match found with
  | some m => dropDeleted m onDisk
  | none => ⟨⟨manifestVersion, []⟩, true⟩

/-- The entries found, none without a manifest. -/
def foundEntries (found : Option Manifest) : List ManifestEntry :=
  match found with
  | some m => m.entries
  | none => []

/-- The loop over the files starts from the entries found, without those whose
file is gone. -/
theorem startingDraft_entries (found : Option Manifest)
    (onDisk : List String) :
    (startingDraft found onDisk).entries =
      retain ManifestEntry.filename onDisk (foundEntries found) := by
  cases found with
  | none => rfl
  | some m => rfl

/-- Dropping deleted files leaves the entries of the others as they are. -/
theorem current_startingDraft {found : Option Manifest}
    {files : List (String × SystemTime)} {file : String × SystemTime}
    (hfile : file ∈ files) {e : ManifestEntry} :
    Current (startingDraft found (files.map Prod.fst)).entries file e ↔
      Current (foundEntries found) file e := by
  have hmem : file.1 ∈ files.map Prod.fst := List.mem_map_of_mem hfile
  unfold Current
  rw [startingDraft_entries, lookup_retain, if_pos hmem]

/-- Only files of the directory are left in the draft. -/
theorem mem_startingDraft_keys {found : Option Manifest}
    {onDisk : List String} {k : String}
    (h : k ∈ (startingDraft found onDisk).entries.map (·.filename)) :
    k ∈ onDisk := by
  rw [startingDraft_entries] at h
  obtain ⟨e, he, rfl⟩ := List.mem_map.mp h
  exact (mem_retain.mp he).2

/-- An entry of the result is current for a file of the directory, or made by
parsing one. -/
theorem Updated.of_mem {parse : String → Except LoadError ServiceDef}
    {found : Option Manifest} {files : List (String × SystemTime)}
    {draft : Draft}
    (h : Updated parse files (startingDraft found (files.map Prod.fst)) draft)
    (hnd : (draft.entries.map (·.filename)).Nodup) {e : ManifestEntry}
    (he : e ∈ draft.entries) :
    ∃ file ∈ files, file.1 = e.filename ∧
      (Current (foundEntries found) file e ∨
        (∀ e', ¬ Current (foundEntries found) file e') ∧
          Parsed parse file e) := by
  have hname : e.filename ∈ files.map Prod.fst := by
    rcases (h.keys _).mp (List.mem_map_of_mem he) with hk | hk
    · exact mem_startingDraft_keys hk
    · exact hk
  obtain ⟨file, hfile, hfilename⟩ := List.mem_map.mp hname
  obtain ⟨e', hlook, hstep⟩ := h.entry file hfile
  rw [hfilename, lookup_of_mem hnd he] at hlook
  cases hlook
  refine ⟨file, hfile, hfilename, ?_⟩
  rcases hstep with hcur | ⟨hnone, hparsed⟩
  · exact .inl ((current_startingDraft hfile).mp hcur)
  · apply Or.inr
    refine ⟨fun e' hcur => ?_, hparsed⟩
    exact hnone e' ((current_startingDraft hfile).mpr hcur)

/-- The draft counts as unchanged at the start exactly when no entry has been
dropped. -/
theorem startingDraft_changed {m : Manifest} {onDisk : List String} :
    (startingDraft (some m) onDisk).changed = false ↔
      ∀ e ∈ m.entries, e.filename ∈ onDisk := by
  have hlen : (startingDraft (some m) onDisk).changed = false ↔
      (retain ManifestEntry.filename onDisk m.entries).length =
        m.entries.length := by
    simp [startingDraft, dropDeleted]
  rw [hlen, retain, List.length_filter_eq_length_iff]
  simp

/-- A round of the scan appends nothing, or the name it looks at. -/
theorem scanEntry_names {item : Except IoError DirEntry}
    {files files' : List (String × SystemTime)}
    (h : scanEntry files item = .ok files') :
    ∃ new : List (String × SystemTime), files' = files ++ new ∧
      (new.map Prod.fst).Sublist (entryName item).toList := by
  cases item with
  | error e => cases h
  | ok entry =>
      rw [scanEntry] at h
      split at h
      · cases hmod : entry.modified with
        | error e => rw [hmod] at h; cases h
        | ok mtime =>
            rw [hmod] at h
            cases h
            exact ⟨_, rfl, List.Sublist.refl _⟩
      · cases h
        exact ⟨[], (List.append_nil _).symm, List.nil_sublist _⟩

/-- The scan appends some of the listed names. -/
theorem scanEntries_names :
    ∀ {entries : List (Except IoError DirEntry)}
      {files files' : List (String × SystemTime)},
      entries.foldlM scanEntry files = .ok files' →
      ∃ new : List (String × SystemTime), files' = files ++ new ∧
        (new.map Prod.fst).Sublist (entries.filterMap entryName) := by
  intro entries
  induction entries with
  | nil =>
      intro files files' h
      cases h
      exact ⟨[], by simp, .slnil⟩
  | cons item rest ih =>
      intro files files' h
      rw [List.foldlM_cons] at h
      cases hround : scanEntry files item with
      | error e => rw [hround] at h; cases h
      | ok middle =>
          rw [hround] at h
          obtain ⟨first, rfl, hfirst⟩ := scanEntry_names hround
          obtain ⟨new, rfl, hnew⟩ := ih h
          refine ⟨first ++ new, by simp, ?_⟩
          have hnames : (item :: rest).filterMap entryName =
              (entryName item).toList ++ rest.filterMap entryName := by
            cases item <;> rfl
          rw [hnames, List.map_append]
          exact hfirst.append hnew

/-- The scan finds no name twice. -/
theorem scanTomlFiles_nodup {Bytes : Type} {disk : Disk Bytes}
    {files : List (String × SystemTime)}
    (h : scanTomlFiles disk = .ok files) : (files.map Prod.fst).Nodup := by
  unfold scanTomlFiles at h
  cases hdir : disk.readDir with
  | error e => rw [hdir] at h; cases h
  | ok entries =>
      rw [hdir] at h
      obtain ⟨new, rfl, hsub⟩ := scanEntries_names h
      exact (disk.distinct entries hdir).sublist hsub

section Load

variable {fromStr : String → Except String ServiceDef} {codec : Bincode}
  {disk : Disk codec.Bytes} {dir : String}
  {files : List (String × SystemTime)} {found : Option Manifest}

/-- With and without a manifest, a load is the loop over its files. -/
theorem loadManifest_eq (hscan : scanTomlFiles disk = .ok files)
    (hread : readManifest codec disk (join dir manifestFilename) =
      .ok found) :
    loadManifest fromStr codec disk dir =
      files.foldlM (upsertFile (parseToml fromStr disk.readToString dir))
        (startingDraft found (files.map Prod.fst)) := by
  have hnd := scanTomlFiles_nodup hscan
  unfold loadManifest
  rw [hscan]
  dsimp only
  rw [hread]
  cases found with
  | some m => rfl
  | none =>
      dsimp only
      rw [startingDraft, buildFiles_eq hnd (by simp), buildManifest]
      cases files.foldlM (buildEntry _) [] <;> rfl

/-- A load that gets to a draft has read the directory and the manifest. -/
theorem loadManifest_inputs {draft : Draft}
    (h : loadManifest fromStr codec disk dir = .ok draft) :
    ∃ files found, scanTomlFiles disk = .ok files ∧
      readManifest codec disk (join dir manifestFilename) = .ok found := by
  unfold loadManifest at h
  cases hscan : scanTomlFiles disk with
  | error e => rw [hscan] at h; cases h
  | ok files =>
      rw [hscan] at h
      dsimp only at h
      cases hread : readManifest codec disk (join dir manifestFilename) with
      | error e => rw [hread] at h; cases h
      | ok found => exact ⟨files, found, rfl, rfl⟩

/-- A load succeeds when its manifest can be written, if that is needed. What
it returns are the definitions of the entries, in their order, whether or not
anything was written. -/
theorem loadServicesCached_ok {services : List ServiceDef} :
    loadServicesCached fromStr codec disk dir = .ok services ↔
      ∃ draft, loadManifest fromStr codec disk dir = .ok draft ∧
        services = draft.entries.map (·.defn) ∧
        (draft.changed = true →
          writeManifest disk (join dir manifestFilename) = .ok ()) := by
  unfold loadServicesCached
  cases hload : loadManifest fromStr codec disk dir with
  | error e =>
      constructor
      · intro h; cases h
      · intro ⟨_, h, _⟩; cases h
  | ok draft =>
      dsimp only
      constructor
      · intro h
        refine ⟨draft, rfl, ?_⟩
        split at h
        · split at h
          · cases h
          · rename_i hwrite
            cases h
            exact ⟨rfl, fun _ => hwrite⟩
        · rename_i hunchanged
          cases h
          exact ⟨rfl, fun hchanged => absurd hchanged hunchanged⟩
      · intro ⟨_, heq, hservices, hwrite⟩
        cases heq
        subst hservices
        by_cases hchanged : draft.changed = true
        · rw [if_pos hchanged, hwrite hchanged]
        · rw [if_neg hchanged]

/-- The two answers a write needs. -/
def Writable {Bytes : Type} (disk : Disk Bytes) (path : String) : Prop :=
  disk.write (withExtension path "tmp") = .ok () ∧
    disk.rename (withExtension path "tmp") path = .ok ()

instance {Bytes : Type} (disk : Disk Bytes) (path : String) :
    Decidable (Writable disk path) :=
  inferInstanceAs (Decidable (_ ∧ _))

/-- A manifest is written when the temporary file can be written and be
renamed, and only then. -/
theorem writeManifest_ok {Bytes : Type} {disk : Disk Bytes} {path : String} :
    writeManifest disk path = .ok () ↔ Writable disk path := by
  unfold writeManifest Writable
  dsimp only
  cases disk.write (withExtension path "tmp") with
  | error e => simp
  | ok u => cases disk.rename (withExtension path "tmp") path <;> simp

/-- The definition a load takes for a file: that of the current entry, or
what the file parses to when it has none. -/
def Taken (parse : String → Except LoadError ServiceDef)
    (entries : List ManifestEntry) (file : String × SystemTime)
    (svc : ServiceDef) : Prop :=
  (∃ e, Current entries file e ∧ e.defn = svc) ∨
    (∀ e, ¬ Current entries file e) ∧ parse file.1 = .ok svc

/-- **What a load returns.**  With at most one entry for each file, these are
the definitions taken for the files of the directory. -/
theorem mem_loadServicesCached (hscan : scanTomlFiles disk = .ok files)
    (hread : readManifest codec disk (join dir manifestFilename) =
      .ok found)
    (hdistinct : ((foundEntries found).map (·.filename)).Nodup)
    {services : List ServiceDef}
    (hload : loadServicesCached fromStr codec disk dir = .ok services)
    {svc : ServiceDef} :
    svc ∈ services ↔
      ∃ file ∈ files, Taken (parseToml fromStr disk.readToString dir)
        (foundEntries found) file svc := by
  obtain ⟨draft, hdraft, rfl, _⟩ := loadServicesCached_ok.mp hload
  rw [loadManifest_eq hscan hread] at hdraft
  have hupd := upsertFiles_spec (scanTomlFiles_nodup hscan) hdraft
  have hkeys : (draft.entries.map (·.filename)).Nodup := by
    apply hupd.nodup.mpr
    rw [startingDraft_entries]
    exact nodup_retain hdistinct
  constructor
  · intro hsvc
    obtain ⟨e, he, rfl⟩ := List.mem_map.mp hsvc
    obtain ⟨file, hfile, _, hcur | ⟨hnone, hparsed⟩⟩ := hupd.of_mem hkeys he
    · exact ⟨file, hfile, .inl ⟨e, hcur, rfl⟩⟩
    · exact ⟨file, hfile, .inr ⟨hnone, hparsed.defn⟩⟩
  · intro ⟨file, hfile, htaken⟩
    obtain ⟨e, hlook, hstep⟩ := hupd.entry file hfile
    have hdefn : e.defn = svc := by
      rcases htaken with ⟨e', hcur, rfl⟩ | ⟨hnone, hparse⟩
      · have hkept := (current_startingDraft hfile).mpr hcur
        rcases hstep with ⟨hstart, _⟩ | ⟨hnone, _⟩
        · rw [hkept.1] at hstart
          cases hstart
          rfl
        · exact absurd hkept (hnone e')
      · rcases hstep with hcur | ⟨_, hparsed⟩
        · exact absurd ((current_startingDraft hfile).mp hcur) (hnone e)
        · rw [hparsed.defn] at hparse
          exact Except.ok.inj hparse
    exact hdefn ▸ List.mem_map_of_mem (of_lookup hlook).1

end Load

end FlintInit
