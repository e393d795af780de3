import FlintInit.Service
import FlintInit.Library.KeyedVec

/-!
# The binary cache

`cache.rs`: the definitions of a service directory are kept, with the
modification time of the file each was read from, in a manifest.  A load lists
the `.toml` files, drops the entries of files that are gone, parses the files
whose whole-second modification time is not the recorded one, and writes the
manifest back if anything changed.  Without a readable manifest it parses
every file.

A `Disk` holds what the file system answers while one load runs; file names
are taken to be valid Unicode.  The encoding of a manifest is a parameter
with the one property the program relies on, that what was written is read
back.
-/

namespace FlintInit

open KeyedVec

def manifestVersion : Nat := 1

def manifestFilename : String := "services.bin"

/-- An error of the file system: whether its kind is `NotFound`, and its
text. -/
structure IoError where
  notFound : Bool
  text : String
  deriving DecidableEq

/-- Nanoseconds since the epoch. -/
abbrev SystemTime := Int

/-- Why a load fails. -/
inductive LoadError where
  | io (e : IoError)
  | beforeEpoch
  | parse (path e : String)
  deriving DecidableEq

/-- The text of a failure. -/
def LoadError.text : LoadError → String
  | .io e => e.text
  | .beforeEpoch => "second time provided was later than self"
  | .parse path e => "Failed to parse " ++ debugStr path ++ ": " ++ e

/-- `duration_since(UNIX_EPOCH)`, in whole seconds. -/
def asSecs (t : SystemTime) : Except LoadError Nat :=
  if t < 0 then .error .beforeEpoch else .ok (t.toNat / 1000000000)

structure ManifestEntry where
  filename : String
  mtimeSecs : Nat
  defn : ServiceDef
  deriving DecidableEq

structure Manifest where
  version : Nat
  entries : List ManifestEntry
  deriving DecidableEq

/-- The binary encoding of manifests.  Encoding into a vector cannot fail on
these types. -/
structure Bincode where
  Bytes : Type
  serialize : Manifest → Bytes
  deserialize : Bytes → Except String Manifest
  round_trip : ∀ m, deserialize (serialize m) = .ok m

/-- An encoding that leaves manifests as they are. -/
def Bincode.plain : Bincode where
  Bytes := Manifest
  serialize := id
  deserialize m := .ok m
  round_trip _ := rfl

structure DirEntry where
  filename : String
  modified : Except IoError SystemTime

/-- The name an item of a directory listing has. -/
def entryName : Except IoError DirEntry → Option String
  | .ok entry => some entry.filename
  | .error _ => none

/-- What the file system answers during one load, which writes at most once.
A directory lists no name twice. -/
structure Disk (Bytes : Type) where
  readDir : Except IoError (List (Except IoError DirEntry))
  distinct : ∀ entries, readDir = .ok entries →
    (entries.filterMap entryName).Nodup
  readToString : String → Except IoError String
  read : String → Except IoError Bytes
  write : String → Except IoError Unit
  rename : String → String → Except IoError Unit

/-! ## Reading and writing the manifest -/

/-- The manifest in some bytes; other versions and garbage count as none. -/
def decodeManifest (codec : Bincode) (bytes : codec.Bytes) :
    Option Manifest :=
  match codec.deserialize bytes with
  | .ok m => if m.version = manifestVersion then some m else none
  | .error _ => none

def readManifest (codec : Bincode) (disk : Disk codec.Bytes)
    (path : String) : Except LoadError (Option Manifest) :=
  match disk.read path with
  | .error e => if e.notFound then .ok none else .error (.io e)
  | .ok bytes => .ok (decodeManifest codec bytes)

/-- Whether writing a manifest succeeds; the bytes written are
`codec.serialize` of it. -/
def writeManifest {Bytes : Type} (disk : Disk Bytes) (path : String) :
    Except LoadError Unit :=
  let tmp := withExtension path "tmp"
  match disk.write tmp with
  | .error e => .error (.io e)
  | .ok () =>
      match disk.rename tmp path with
      | .error e => .error (.io e)
      | .ok () => .ok ()

/-! ## Listing and parsing -/

/-- One round of the scan. -/
def scanEntry (files : List (String × SystemTime)) :
    Except IoError DirEntry → Except LoadError (List (String × SystemTime))
  | .error e => .error (.io e)
  | .ok entry =>
      if extension entry.filename = some "toml" then
        match entry.modified with
        | .error e => .error (.io e)
        | .ok mtime => .ok (files ++ [(entry.filename, mtime)])
      else .ok files

/-- All `.toml` files of the directory with their modification times. -/
def scanTomlFiles {Bytes : Type} (disk : Disk Bytes) :
    Except LoadError (List (String × SystemTime)) :=
  match disk.readDir with
  | .error e => .error (.io e)
  | .ok entries => entries.foldlM scanEntry []

/-- What is done with the content of a service file once it is read. -/
def parseContent (fromStr : String → Except String ServiceDef)
    (path : String) : Except IoError String → Except LoadError ServiceDef
  | .error e => .error (.io e)
  | .ok content =>
      match fromStr (trimEndNul content) with
      | .error e => .error (.parse path e)
      | .ok defn => .ok defn

/-- Parse a single `.toml` file. -/
def parseToml (fromStr : String → Except String ServiceDef)
    (readToString : String → Except IoError String) (dir filename : String) :
    Except LoadError ServiceDef :=
  parseContent fromStr (join dir filename) (readToString (join dir filename))

/-! ## Bringing a manifest up to date -/

/-- The manifest being brought up to date, and whether it has changed. -/
structure Draft where
  manifest : Manifest
  changed : Bool
  deriving DecidableEq

def Draft.entries (draft : Draft) : List ManifestEntry :=
  draft.manifest.entries

/-- The modification time recorded for a file. -/
def cachedMtime (entries : List ManifestEntry) (filename : String) :
    Option Nat :=
  (lookup ManifestEntry.filename entries filename).map (·.mtimeSecs)

/-- The manifest without the entries of deleted files. -/
def dropDeleted (m : Manifest) (onDisk : List String) : Draft :=
  let entries := retain ManifestEntry.filename onDisk m.entries
  ⟨{ m with entries := entries }, entries.length != m.entries.length⟩

/-- The manifest with one entry inserted or replaced. -/
def Manifest.record (m : Manifest) (entry : ManifestEntry) : Manifest :=
  { m with entries := upsert ManifestEntry.filename entry m.entries }

/-- One round of the upsert loop. -/
def upsertFile (parse : String → Except LoadError ServiceDef)
    (draft : Draft) (file : String × SystemTime) : Except LoadError Draft :=
  match asSecs file.2 with
  | .error e => .error e
  | .ok mtimeSecs =>
      if cachedMtime draft.entries file.1 = some mtimeSecs then .ok draft
      else
        match parse file.1 with
        | .error e => .error e
        | .ok defn =>
            .ok ⟨draft.manifest.record ⟨file.1, mtimeSecs, defn⟩, true⟩

/-- One round of a full build. -/
def buildEntry (parse : String → Except LoadError ServiceDef)
    (entries : List ManifestEntry) (file : String × SystemTime) :
    Except LoadError (List ManifestEntry) :=
  match asSecs file.2 with
  | .error e => .error e
  | .ok mtimeSecs =>
      match parse file.1 with
      | .error e => .error e
      | .ok defn => .ok (entries ++ [⟨file.1, mtimeSecs, defn⟩])

/-- A fresh manifest of all files. -/
def buildManifest (parse : String → Except LoadError ServiceDef)
    (files : List (String × SystemTime)) : Except LoadError Manifest :=
  match files.foldlM (buildEntry parse) [] with
  | .error e => .error e
  | .ok entries => .ok ⟨manifestVersion, entries⟩

section Load

variable (fromStr : String → Except String ServiceDef) (codec : Bincode)
  (disk : Disk codec.Bytes) (dir : String)

/-- The manifest a load takes its result from. -/
def loadManifest : Except LoadError Draft :=
  match scanTomlFiles disk with
  | .error e => .error e
  | .ok files =>
      let parse := parseToml fromStr disk.readToString dir
      match readManifest codec disk (join dir manifestFilename) with
      | .error e => .error e
      | .ok (some m) =>
          files.foldlM (upsertFile parse)
            (dropDeleted m (files.map Prod.fst))
      | .ok none =>
          match buildManifest parse files with
          | .error e => .error e
          | .ok m => .ok ⟨m, true⟩

/-- Load service definitions, using and updating the binary manifest. -/
def loadServicesCached : Except LoadError (List ServiceDef) :=
  match loadManifest fromStr codec disk dir with
  | .error e => .error e
  | .ok draft =>
      let services := draft.entries.map (·.defn)
      if draft.changed then
        match writeManifest disk (join dir manifestFilename) with
        | .error e => .error e
        | .ok () => .ok services
      else .ok services

/-- The manifest that a load hands to `write_manifest`, if it does. -/
def rewritten : Option Manifest :=
  match loadManifest fromStr codec disk dir with
  | .error _ => none
  | .ok draft => if draft.changed then some draft.manifest else none

end Load

end FlintInit
