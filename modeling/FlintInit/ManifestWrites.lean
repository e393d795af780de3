import FlintInit.Library.Interleaving
import FlintInit.Library.Replacement
import FlintInit.CacheFreshness

/-!
# The manifest, piece by piece

In a `Scene` a process reads the manifest, or writes its temporary file, in one
step.  In a `PieceScene` it opens the file, reads or writes it in pieces of any
size, and may be stopped anywhere, half-written files included; the others run
in between.

As long as no process opens the temporary file while another one has it open,
this makes no difference (`pieces_refine_scene`): every run of a `PieceScene`
has a run of a `Scene` with the same files, the same manifest, and the same
processes.  What is proved of scenes then holds byte by byte.
-/

namespace FlintInit

open Collections

/-- A binary encoding of manifests as lists of bytes. -/
structure ByteCodec (β : Type) where
  serialize : Manifest → List β
  deserialize : List β → Except String Manifest
  round_trip : ∀ m, deserialize (serialize m) = .ok m

abbrev ByteCodec.bincode {β : Type} (c : ByteCodec β) : Bincode where
  Bytes := List β
  serialize := c.serialize
  deserialize := c.deserialize
  round_trip := c.round_trip

/-! ## The accesses of a process to the manifest -/

namespace Process

/-- The next step reads the manifest. -/
def readsManifest : Process → Bool
  | .load _ (.scanned _) => true
  | .handle (.start _ _) => true
  | _ => false

/-- The manifest that the next step writes to the temporary file. -/
def toWrite : Process → Option Manifest
  | .load _ (.write m) => some m
  | .handle (.write m) => some m
  | _ => none

/-- The manifest whose temporary file the next step renames. -/
def toRename : Process → Option Manifest
  | .load _ (.rename m) => some m
  | .handle (.rename m) => some m
  | _ => none

end Process

/-- What a process has open: the manifest, with what it has read of it, or the
temporary file, with what it has written and what is left. -/
inductive Access (β : Type) where
  | none
  | reading (file : Nat) (got : List β)
  | writing (file : Nat) (sent rest : List β)
  deriving DecidableEq

def Access.writer {β : Type} : Access β → Replacement.Writer β
  | .writing file sent rest => .writing file sent rest
  | _ => .idle

/-- The temporary file is open. -/
def Access.writes {β : Type} : Access β → Bool
  | .writing _ _ _ => true
  | _ => false

/-- A process and the file it has open. -/
structure Task (β : Type) where
  proc : Process
  access : Access β
  deriving DecidableEq

/-- The service directory, the folder of the manifest, the processes, and the
number of edits so far. -/
structure PieceScene (β : Type) where
  clock : SystemTime
  files : Files
  folder : Replacement.Folder β
  tasks : List (Task β)
  edits : Nat

inductive PieceAction where
  | tick (nanos : Nat)
  | edit (filename text : String)
  | remove (filename : String)
  | load (order : IterOrder String)
  | event (filename : String) (deleted : Bool)
  /-- A process takes a step; a piece it reads or writes has at most `k + 1`
  bytes. -/
  | advance (i k : Nat)
  | stop (i : Nat)

namespace PieceScene

variable {β : Type} [Inhabited β]

/-- The directory as a process finds it that has read `manifest`. -/
def view (f : PieceScene β) (manifest : Option (List β)) :
    Store (List β) where
  clock := f.clock
  files := f.files
  manifest := manifest
  tmp := f.folder.tmp.map f.folder.data

/-- The `i`-th process has come further. -/
def moveTo (f : PieceScene β) (i : Nat) (folder : Replacement.Folder β)
    (proc : Process) (access : Access β) : PieceScene β :=
  { f with
    folder := folder
    tasks := f.tasks.set i ⟨proc, access⟩ }

def spawn (f : PieceScene β) (proc : Process) : PieceScene β :=
  { f with tasks := f.tasks ++ [⟨proc, .none⟩] }

/-- A change of the files of the directory. -/
def change (f : PieceScene β) (files : Files) : PieceScene β :=
  { f with
    files := files
    edits := f.edits + 1 }

variable (fromStr : String → Except String ServiceDef) (c : ByteCodec β)
  (dir : String)

/-- A step of the `i`-th process. -/
def advance (f : PieceScene β) (i k : Nat) (t : Task β) : PieceScene β :=
  let next (manifest : Option (List β)) : Process :=
    (t.proc.step fromStr c.bincode dir (f.view manifest)).2
  match t.access with
  | .none =>
      match t.proc.toWrite with
      | some m =>
          f.moveTo i f.folder.create t.proc
            (.writing f.folder.scratch [] (c.serialize m))
      | none =>
          match t.proc.readsManifest, f.folder.target with
          | true, some n => f.moveTo i f.folder t.proc (.reading n [])
          | _, _ => f.moveTo i f.folder (next f.folder.content) .none
  | .reading n got =>
      match (f.folder.data n).drop got.length with
      | [] =>
          -- the end of the file
          f.moveTo i f.folder (next (some got)) .none
      | rest =>
          f.moveTo i f.folder t.proc (.reading n (got ++ rest.take (k + 1)))
  | .writing file sent [] =>
      match t.proc.toRename with
      | some _ =>
          f.moveTo i (f.folder.rename.getD f.folder)
            (next f.folder.content) .none
      | none =>
          f.moveTo i f.folder (next f.folder.content) (.writing file sent [])
  | .writing file sent rest =>
      f.moveTo i (f.folder.put file sent.length (rest.take (k + 1))) t.proc
        (.writing file (sent ++ rest.take (k + 1)) (rest.drop (k + 1)))

def step (a : PieceAction) (f : PieceScene β) : PieceScene β :=
  match a with
  | .tick nanos => { f with clock := f.clock + nanos }
  | .edit filename text =>
      f.change (f.files.insert filename ⟨f.clock, text⟩)
  | .remove filename => f.change (f.files.erase filename)
  | .load order =>
      f.spawn (.load f.edits (.scan [] (order.arrange (tomlNames f.files))))
  | .event filename deleted =>
      if endsWith filename ".toml" then
        f.spawn (.handle (.start filename deleted))
      else f
  | .advance i k =>
      match f.tasks[i]? with
      | none => f
      | some t => f.advance fromStr c dir i k t
  | .stop i => { f with tasks := f.tasks.set i ⟨.stopped, .none⟩ }

/-- A directory without a manifest, and no process yet. -/
def initial (clock : SystemTime) (files : Files) : PieceScene β :=
  ⟨clock, files, ⟨fun _ => [], 0, none, none⟩, [], 0⟩

/-- The `i`-th process is about to open the temporary file. -/
def creates (f : PieceScene β) (i : Nat) : Bool :=
  match f.tasks[i]? with
  | some ⟨proc, .none⟩ => proc.toWrite.isSome
  | _ => false

/-- The temporary file is opened only while no process has it open. -/
def Serial (a : PieceAction) (f : PieceScene β) : Prop :=
  match a with
  | .advance i _ =>
      f.creates i = true → ∀ t ∈ f.tasks, t.access.writes = false
  | _ => True

instance (a : PieceAction) (f : PieceScene β) : Decidable (f.Serial a) := by
  cases a <;> unfold Serial <;> infer_instance

end PieceScene

/-! ## Steps of a process -/

section Steps

variable {fromStr : String → Except String ServiceDef} {codec : Bincode}
  {dir : String}

/-- A manifest is renamed after it has been written. The step behind the write
keeps the manifest at hand, and no other step comes to a rename. -/
theorem Process.toRename_step (p : Process) (store : Store codec.Bytes) :
    (p.step fromStr codec dir store).2.toRename = p.toWrite := by
  cases p with
  | stopped => rfl
  | load since loader =>
      cases loader with
      | scan found names =>
          cases names with
          | nil => rfl
          | cons name rest =>
              simp only [Process.step, Loader.step]
              split <;> rfl
      | upsert draft todo =>
          cases todo with
          | nil =>
              simp only [Process.step, Loader.step]
              split <;> rfl
          | cons file rest =>
              simp only [Process.step, Loader.step]
              split <;> rfl
      | rename m =>
          simp only [Process.step, Loader.step]
          split <;> rfl
      | _ => rfl
  | handle handler =>
      cases handler with
      | start filename deleted => cases deleted <;> rfl
      | read filename m =>
          simp only [Process.step, Handler.step]
          split <;> rfl
      | stat filename m defn =>
          simp only [Process.step, Handler.step]
          split <;> rfl
      | rename m =>
          simp only [Process.step, Handler.step]
          split <;> rfl
      | _ => rfl

/-- The manifest is written to the temporary file. -/
theorem Process.step_toWrite {p : Process} {m : Manifest}
    (h : p.toWrite = some m) (store : Store codec.Bytes) :
    (p.step fromStr codec dir store).1 = store.writeTmp codec m := by
  unfold Process.toWrite at h
  split at h
  · cases h
    rfl
  · cases h
    rfl
  · cases h

/-- The temporary file is renamed. -/
theorem Process.step_toRename {p : Process} {m : Manifest}
    (h : p.toRename = some m) {store : Store codec.Bytes}
    {bytes : codec.Bytes} (htmp : store.tmp = some bytes) :
    (p.step fromStr codec dir store).1 =
      { store with manifest := some bytes, tmp := none } := by
  have hrename : store.rename =
      .ok { store with manifest := some bytes, tmp := none } := by
    unfold Store.rename
    rw [htmp]
  unfold Process.toRename at h
  split at h
  · simp only [Process.step, Loader.step, hrename]
  · simp only [Process.step, Handler.step, hrename]
  · cases h

/-- Other steps leave the directory as it is. A process that neither writes nor
renames only reads files, or works on what it has read. -/
theorem Process.step_quiet {p : Process} (hwrite : p.toWrite = none)
    (hrename : p.toRename = none) (store : Store codec.Bytes) :
    (p.step fromStr codec dir store).1 = store := by
  cases p with
  | stopped => rfl
  | load since loader =>
      cases loader with
      | scan found names =>
          cases names with
          | nil => rfl
          | cons name rest =>
              simp only [Process.step, Loader.step]
              split <;> rfl
      | upsert draft todo =>
          cases todo with
          | nil => rfl
          | cons file rest =>
              simp only [Process.step, Loader.step]
              split <;> rfl
      | write m => cases hwrite
      | rename m => cases hrename
      | _ => rfl
  | handle handler =>
      cases handler with
      | read filename m =>
          simp only [Process.step, Handler.step]
          split <;> rfl
      | stat filename m defn =>
          simp only [Process.step, Handler.step]
          split <;> rfl
      | write m => cases hwrite
      | rename m => cases hrename
      | _ => rfl

/-- What a process does next depends on the files, and on the manifest and the
temporary file where it reads the one or renames the other. -/
theorem Process.step_congr {p : Process} {store store' : Store codec.Bytes}
    (hfiles : store.files = store'.files)
    (hreads : p.readsManifest = true → store.manifest = store'.manifest)
    (hrenames : p.toRename.isSome = true →
      store.tmp.isSome = store'.tmp.isSome) :
    (p.step fromStr codec dir store).2 =
      (p.step fromStr codec dir store').2 := by
  have hfound : p.readsManifest = true →
      store.found codec = store'.found codec := by
    intro h
    unfold Store.found
    rw [hreads h]
  have hrename : p.toRename.isSome = true →
      ((∃ e, store.rename = .error e ∧ store'.rename = .error e) ∨
        ∃ s s', store.rename = .ok s ∧ store'.rename = .ok s') := by
    intro h
    have hsame := hrenames h
    unfold Store.rename
    cases htmp : store.tmp with
    | none =>
        rw [htmp] at hsame
        have hnone : store'.tmp = none := by simpa using hsame.symm
        rw [hnone]
        exact .inl ⟨_, rfl, rfl⟩
    | some bytes =>
        rw [htmp] at hsame
        obtain ⟨bytes', htmp'⟩ := Option.isSome_iff_exists.mp hsame.symm
        rw [htmp']
        exact .inr ⟨_, _, rfl, rfl⟩
  cases p with
  | stopped => rfl
  | load since loader =>
      cases loader with
      | scan found names =>
          cases names with
          | nil => rfl
          | cons name rest =>
              simp only [Process.step, Loader.step, hfiles]
              split <;> rfl
      | scanned found => simp only [Process.step, Loader.step, hfound rfl]
      | upsert draft todo =>
          cases todo with
          | nil => rfl
          | cons file rest =>
              simp only [Process.step, Loader.step, hfiles]
              split <;> rfl
      | rename m =>
          simp only [Process.step, Loader.step]
          rcases hrename rfl with ⟨e, he, he'⟩ | ⟨s, s', hs, hs'⟩
          · rw [he, he']
          · rw [hs, hs']
      | _ => rfl
  | handle handler =>
      cases handler with
      | start filename deleted =>
          simp only [Process.step, Handler.step, hfound rfl]
      | read filename m =>
          simp only [Process.step, Handler.step, hfiles]
          split <;> rfl
      | stat filename m defn =>
          simp only [Process.step, Handler.step, hfiles]
          split <;> rfl
      | rename m =>
          simp only [Process.step, Handler.step]
          rcases hrename rfl with ⟨e, he, he'⟩ | ⟨s, s', hs, hs'⟩
          · rw [he, he']
          · rw [hs, hs']
      | _ => rfl

/-- After a read, all depends on what has been read. -/
theorem Process.step_reads {p : Process} (h : p.readsManifest = true)
    {store store' : Store codec.Bytes}
    (hsame : store.manifest = store'.manifest) :
    (p.step fromStr codec dir store).2 =
      (p.step fromStr codec dir store').2 := by
  have hfound : store.found codec = store'.found codec := by
    unfold Store.found
    rw [hsame]
  unfold Process.readsManifest at h
  split at h
  · simp only [Process.step, Loader.step, hfound]
  · simp only [Process.step, Handler.step, hfound]
  · cases h

/-- A process that is about to read has nothing to write or to rename. -/
theorem Process.toWrite_of_reads {p : Process} (h : p.readsManifest = true) :
    p.toWrite = none ∧ p.toRename = none := by
  unfold Process.readsManifest at h
  split at h
  · exact ⟨rfl, rfl⟩
  · exact ⟨rfl, rfl⟩
  · cases h

end Steps

/-! ## One scene stands for the other -/

section Mirror

open Replacement (Tidy Sealed)

variable {β : Type}

/-- The folder and who is writing. -/
def PieceScene.replacement (f : PieceScene β) : Replacement.State Nat β where
  folder := f.folder
  writers := Replacement.writersOf (fun t => t.access.writer) f.tasks

/-- A process that reads and writes at once stands for one that does it in
pieces: a read counts from its beginning, and a write from its end. -/
inductive Mirrors (fromStr : String → Except String ServiceDef)
    (c : ByteCodec β) (dir : String) (f : PieceScene β)
    (s : Scene (List β)) : Task β → Process → Prop
  | same {p : Process} (hrename : p.toRename = none) :
      Mirrors fromStr c dir f s ⟨p, .none⟩ p
  | reading {p p' : Process} {n : Nat} {got : List β}
      (hreads : p.readsManifest = true) (hsealed : Sealed f.replacement n)
      (hgot : got <+: f.folder.data n)
      (hnext : ∀ store : Store (List β),
        store.manifest = some (f.folder.data n) →
          p' = (p.step fromStr c.bincode dir store).2) :
      Mirrors fromStr c dir f s ⟨p, .reading n got⟩ p'
  | writing {p : Process} {m : Manifest} {file : Nat} {sent rest : List β}
      (hm : p.toWrite = some m) (hall : sent ++ rest = c.serialize m) :
      Mirrors fromStr c dir f s ⟨p, .writing file sent rest⟩ p
  | written {p : Process} {m : Manifest} {file : Nat} {sent : List β}
      (hm : p.toRename = some m) (hall : sent = c.serialize m)
      (htmp : s.store.tmp = some sent) :
      Mirrors fromStr c dir f s ⟨p, .writing file sent []⟩ p

/-- The text of a manifest. -/
def ByteCodec.Wrote (c : ByteCodec β) (text : List β) : Prop :=
  ∃ m, text = c.serialize m

structure Mirror (fromStr : String → Except String ServiceDef)
    (c : ByteCodec β) (dir : String) (f : PieceScene β)
    (s : Scene (List β)) : Prop where
  clock : s.store.clock = f.clock
  files : s.store.files = f.files
  manifest : s.store.manifest = f.folder.content
  edits : s.edits = f.edits
  tidy : Tidy c.Wrote f.replacement
  length : f.tasks.length = s.procs.length
  tasks : ∀ (i : Nat) (t : Task β) (p : Process), f.tasks[i]? = some t →
    s.procs[i]? = some p → Mirrors fromStr c dir f s t p

variable {fromStr : String → Except String ServiceDef} {c : ByteCodec β}
  {dir : String} {f f' : PieceScene β} {s s' : Scene (List β)}

/-- What one process does to the folder is nothing to another, which reads a
sealed file, or writes while the first does not. -/
theorem Mirrors.other {t : Task β} {p : Process}
    (h : Mirrors fromStr c dir f s t p)
    (hsealed : ∀ n, Sealed f.replacement n → Sealed f'.replacement n ∧
      f'.folder.data n = f.folder.data n)
    (htmp : t.access.writes = true → s'.store.tmp = s.store.tmp) :
    Mirrors fromStr c dir f' s' t p := by
  cases h with
  | same hrename => exact .same hrename
  | @reading _ _ n got hreads hn hgot hnext =>
      obtain ⟨hn', hdata⟩ := hsealed n hn
      refine .reading hreads hn' ?_ ?_
      · rwa [hdata]
      · rwa [hdata]
  | writing hm hall => exact .writing hm hall
  | written hm hall hwritten =>
      exact .written hm hall ((htmp rfl).trans hwritten)

/-- One process has come further, and the folder is what it has made of it. -/
theorem replacement_moveTo (f : PieceScene β) {i : Nat}
    (hi : i < f.tasks.length) (folder : Replacement.Folder β)
    (proc : Process) (access : Access β) :
    (f.moveTo i folder proc access).replacement =
      ⟨folder, Function.update f.replacement.writers i access.writer⟩ := by
  unfold PieceScene.replacement PieceScene.moveTo
  dsimp only
  rw [Replacement.writersOf_set hi]

/-- The scenes still match after a step of one process, if this one matches
and no other is disturbed. -/
theorem Mirror.moveTo (h : Mirror fromStr c dir f s) {i : Nat} {t : Task β}
    (hi : f.tasks[i]? = some t) {folder : Replacement.Folder β}
    {proc p' : Process} {access : Access β} {store' : Store (List β)}
    (hclock : store'.clock = s.store.clock)
    (hfiles : store'.files = s.store.files)
    (hmanifest : store'.manifest = folder.content)
    (htidy : Tidy c.Wrote (f.moveTo i folder proc access).replacement)
    (hsealed : ∀ n, Sealed f.replacement n →
      Sealed (f.moveTo i folder proc access).replacement n ∧
        folder.data n = f.folder.data n)
    (htmp : ∀ (j : Nat) (u : Task β), j ≠ i → f.tasks[j]? = some u →
      u.access.writes = true → store'.tmp = s.store.tmp)
    (hown : Mirrors fromStr c dir (f.moveTo i folder proc access)
      { s with store := store', procs := s.procs.set i p' } ⟨proc, access⟩
      p') :
    Mirror fromStr c dir (f.moveTo i folder proc access)
      { s with store := store', procs := s.procs.set i p' } := by
  have hlt : i < f.tasks.length := (List.getElem?_eq_some_iff.mp hi).1
  refine ⟨hclock.trans h.clock, hfiles.trans h.files, hmanifest, h.edits,
    htidy, ?_, ?_⟩
  · change (f.tasks.set i _).length = (s.procs.set i p').length
    rw [List.length_set, List.length_set]
    exact h.length
  · intro j u p hu hp
    change (f.tasks.set i _)[j]? = _ at hu
    change (s.procs.set i p')[j]? = _ at hp
    rcases eq_or_ne i j with rfl | hne
    · rw [List.getElem?_set_self hlt] at hu
      rw [List.getElem?_set_self (h.length ▸ hlt)] at hp
      cases hu
      cases hp
      exact hown
    · rw [List.getElem?_set_ne hne] at hu hp
      exact (h.tasks j u p hu hp).other hsealed (htmp j u hne.symm hu)

/-- The same where the folder is left as it is. The files that were sealed stay
so, and what is left to show is how the process itself matches in its new
place. -/
theorem Mirror.moveOn (h : Mirror fromStr c dir f s) {i : Nat} {t : Task β}
    (hi : f.tasks[i]? = some t) (proc p' : Process) (access : Access β)
    {store' : Store (List β)} (hclock : store'.clock = s.store.clock)
    (hfiles : store'.files = s.store.files)
    (hmanifest : store'.manifest = s.store.manifest)
    (hwriter : access.writer = t.access.writer)
    (htmp : ∀ (j : Nat) (u : Task β), j ≠ i → f.tasks[j]? = some u →
      u.access.writes = true → store'.tmp = s.store.tmp)
    (hown : (∀ n, Sealed f.replacement n →
        Sealed (f.moveTo i f.folder proc access).replacement n) →
      Mirrors fromStr c dir (f.moveTo i f.folder proc access)
        { s with store := store', procs := s.procs.set i p' } ⟨proc, access⟩
        p') :
    Mirror fromStr c dir (f.moveTo i f.folder proc access)
      { s with store := store', procs := s.procs.set i p' } := by
  have hsame : (f.moveTo i f.folder proc access).replacement =
      f.replacement := by
    rw [replacement_moveTo f (List.getElem?_eq_some_iff.mp hi).1, hwriter]
    have hwas : f.replacement.writers i = t.access.writer :=
      Replacement.writersOf_of hi
    rw [← hwas, Function.update_eq_self]
    rfl
  rw [← hsame] at hown
  refine h.moveTo hi hclock hfiles (hmanifest.trans h.manifest) ?_ ?_ htmp
    (hown fun _ hn => hn)
  · rw [hsame]
    exact h.tidy
  · intro n hn
    rw [hsame]
    exact ⟨hn, rfl⟩

/-- The writer of a task. -/
theorem writers_of {i : Nat} {t : Task β} (hi : f.tasks[i]? = some t) :
    f.replacement.writers i = t.access.writer :=
  Replacement.writersOf_of hi

/-- No other process has the temporary file open. -/
theorem Mirror.not_writes (h : Mirror fromStr c dir f s) {i j : Nat}
    {t u : Task β} (hi : f.tasks[i]? = some t) (hj : f.tasks[j]? = some u)
    (hne : j ≠ i) (ht : t.access.writes = true) : u.access.writes = false := by
  have hwriting : ∀ {v : Task β}, v.access.writes = true →
      v.access.writer ≠ .idle := by
    rintro ⟨proc, access⟩ hv
    cases access with
    | writing file sent rest => exact nofun
    | _ => cases hv
  cases hu : u.access.writes with
  | false => rfl
  | true =>
      refine absurd (h.tidy.alone j i ?_ ?_) hne
      · rw [writers_of hj]
        exact hwriting hu
      · rw [writers_of hi]
        exact hwriting ht

variable [Inhabited β]

/-- The same where the process takes a step of the library. That the folder
stays tidy, and that sealed files keep their contents, are the library's own
rules. -/
theorem Mirror.moveBy (h : Mirror fromStr c dir f s) {i : Nat} {t : Task β}
    (hi : f.tasks[i]? = some t) {folder : Replacement.Folder β}
    (proc p' : Process) (access : Access β) {store' : Store (List β)}
    (hclock : store'.clock = s.store.clock)
    (hfiles : store'.files = s.store.files)
    (hmanifest : store'.manifest = folder.content)
    {a : Replacement.Action Nat β}
    (hstep : Replacement.step a f.replacement =
      ⟨folder, Function.update f.replacement.writers i access.writer⟩)
    (halone : Replacement.Alone a f.replacement)
    (hbegins : Replacement.Begins c.Wrote a)
    (htmp : ∀ (j : Nat) (u : Task β), j ≠ i → f.tasks[j]? = some u →
      u.access.writes = true → store'.tmp = s.store.tmp)
    (hown : Mirrors fromStr c dir (f.moveTo i folder proc access)
      { s with store := store', procs := s.procs.set i p' } ⟨proc, access⟩
      p') :
    Mirror fromStr c dir (f.moveTo i folder proc access)
      { s with store := store', procs := s.procs.set i p' } := by
  have hnext : (f.moveTo i folder proc access).replacement =
      Replacement.step a f.replacement := by
    rw [replacement_moveTo f (List.getElem?_eq_some_iff.mp hi).1, hstep]
  refine h.moveTo hi hclock hfiles hmanifest ?_ ?_ htmp hown
  · rw [hnext]
    exact Replacement.tidy_step h.tidy halone hbegins
  · intro n hn
    have hkept := Replacement.sealed_step hn a
    rw [← hnext] at hkept
    exact hkept

omit [Inhabited β] in
/-- The temporary file is opened while nobody has it open. -/
theorem writers_idle (hnone : ∀ t ∈ f.tasks, t.access.writes = false)
    (i : Nat) : f.replacement.writers i = .idle := by
  refine Replacement.writersOf_idle ?_ i
  rintro ⟨proc, access⟩ ht
  cases access with
  | writing file sent rest => cases hnone _ ht
  | _ => rfl

section Advance

variable {i k : Nat} {p : Process}

omit [Inhabited β] in
/-- To put a process where it stands changes nothing. -/
theorem set_proc (hp : s.procs[i]? = some p) : s.procs.set i p = s.procs := by
  obtain ⟨hlt, rfl⟩ := List.getElem?_eq_some_iff.mp hp
  exact List.set_getElem_self hlt

omit [Inhabited β] in
/-- A step of the scene takes one process and the store further. -/
theorem scene_advance (hp : s.procs[i]? = some p) :
    Scene.step fromStr c.bincode dir (.advance i) s =
      { s with
        store := (p.step fromStr c.bincode dir s.store).1
        procs := s.procs.set i (p.step fromStr c.bincode dir s.store).2 } := by
  simp only [Scene.step, hp]

omit [Inhabited β] in
/-- A process that does not rename takes the step that it takes in the
scene. -/
theorem Mirror.next_eq (h : Mirror fromStr c dir f s)
    (hrename : p.toRename.isSome = true →
      f.folder.tmp.isSome = s.store.tmp.isSome) :
    (p.step fromStr c.bincode dir (f.view f.folder.content)).2 =
      (p.step fromStr c.bincode dir s.store).2 := by
  refine Process.step_congr h.files.symm (fun _ => h.manifest.symm) ?_
  intro hsome
  rw [← hrename hsome]
  unfold PieceScene.view
  rw [Option.isSome_map]

/-- A process that has nothing open. If it is about to write, it opens the
temporary file and the other scene waits; if it is about to read, the other
scene reads now, since the file that is opened can no longer change; every
other step is the same in both. -/
theorem Mirror.advance_none (h : Mirror fromStr c dir f s)
    (hi : f.tasks[i]? = some ⟨p, .none⟩) (hp : s.procs[i]? = some p)
    (hrename : p.toRename = none) (hserial : f.Serial (.advance i k)) :
    Mirror fromStr c dir (f.advance fromStr c dir i k ⟨p, .none⟩) s ∨
      Mirror fromStr c dir (f.advance fromStr c dir i k ⟨p, .none⟩)
        (s.step fromStr c.bincode dir (.advance i)) := by
  unfold PieceScene.advance
  dsimp only
  cases hwrite : p.toWrite with
  | some m =>
      left
      have hcreates : f.creates i = true := by
        simp [PieceScene.creates, hi, hwrite]
      have hidle := writers_idle (hserial hcreates)
      have hstep := Replacement.step_create (hidle i) (c.serialize m)
      have hcontent := Replacement.content_step h.tidy
        (.create i (c.serialize m)) nofun
      rw [hstep] at hcontent
      have hnext := h.moveBy hi p p
        (.writing f.folder.scratch [] (c.serialize m)) rfl rfl
        (h.manifest.trans hcontent.symm) hstep hidle ⟨m, rfl⟩
        (fun _ _ _ _ _ => rfl) (.writing hwrite rfl)
      rwa [set_proc hp] at hnext
  | none =>
      right
      dsimp only
      rw [scene_advance hp, Process.step_quiet hwrite hrename]
      split
      · rename_i n hreads htarget
        refine h.moveOn hi p _ (.reading n []) rfl rfl rfl rfl
          (fun _ _ _ _ _ => rfl) ?_
        intro hkept
        refine .reading hreads (hkept n (h.tidy.sealed htarget))
          List.nil_prefix ?_
        intro store hstore
        refine Process.step_reads hreads ?_
        rw [h.manifest, hstore]
        unfold Replacement.Folder.content
        rw [htarget]
        rfl
      · rw [h.next_eq (p := p) (by rw [hrename]; exact nofun)]
        refine h.moveOn hi _ _ .none rfl rfl rfl rfl
          (fun _ _ _ _ _ => rfl) ?_
        intro _
        refine .same ?_
        rw [Process.toRename_step, hwrite]

/-- A process that reads the manifest has taken its step at the beginning. It
reads on in a sealed file, so at the end it holds the text that the other scene
read at once. -/
theorem Mirror.advance_reading (h : Mirror fromStr c dir f s) {q : Process}
    {n : Nat} {got : List β} (hi : f.tasks[i]? = some ⟨q, .reading n got⟩)
    (hp : s.procs[i]? = some p) (hreads : q.readsManifest = true)
    (hsealed : Sealed f.replacement n) (hgot : got <+: f.folder.data n)
    (hnext : ∀ store : Store (List β),
      store.manifest = some (f.folder.data n) →
        p = (q.step fromStr c.bincode dir store).2) :
    Mirror fromStr c dir (f.advance fromStr c dir i k ⟨q, .reading n got⟩)
      s := by
  obtain ⟨rest, hrest⟩ := hgot
  unfold PieceScene.advance
  dsimp only
  rw [← hrest, List.drop_left]
  split
  · rw [List.append_nil] at hrest
    have hdone := hnext (f.view (some got)) (by rw [← hrest]; rfl)
    rw [← hdone]
    have hrename : p.toRename = none := by
      rw [hdone, Process.toRename_step]
      exact (Process.toWrite_of_reads hreads).1
    have hmoved := h.moveOn hi p p .none rfl rfl rfl rfl
      (fun _ _ _ _ _ => rfl) (fun _ => .same hrename)
    rwa [set_proc hp] at hmoved
  · have hmore : got ++ rest.take (k + 1) <+: f.folder.data n := by
      rw [← hrest]
      exact (List.prefix_append_right_inj got).mpr (List.take_prefix _ _)
    have hmoved := h.moveOn hi q p (.reading n (got ++ rest.take (k + 1)))
      rfl rfl rfl rfl (fun _ _ _ _ _ => rfl)
      (fun hkept => .reading hreads (hkept n hsealed) hmore hnext)
    rwa [set_proc hp] at hmoved

/-- A process that writes the temporary file takes its step at the end. As long
as bytes are left the other scene waits; when there are none the call returns,
and the other scene writes the whole text at once. -/
theorem Mirror.advance_writing (h : Mirror fromStr c dir f s) {m : Manifest}
    {file : Nat} {sent rest : List β}
    (hi : f.tasks[i]? = some ⟨p, .writing file sent rest⟩)
    (hp : s.procs[i]? = some p) (hm : p.toWrite = some m)
    (hall : sent ++ rest = c.serialize m) :
    Mirror fromStr c dir
        (f.advance fromStr c dir i k ⟨p, .writing file sent rest⟩) s ∨
      Mirror fromStr c dir
        (f.advance fromStr c dir i k ⟨p, .writing file sent rest⟩)
        (s.step fromStr c.bincode dir (.advance i)) := by
  cases rest with
  | nil =>
      right
      rw [List.append_nil] at hall
      have hrename : p.toRename = none := by
        unfold Process.toWrite at hm
        split at hm
        · rfl
        · rfl
        · cases hm
      unfold PieceScene.advance
      simp only [hrename]
      rw [scene_advance hp, Process.step_toWrite hm,
        h.next_eq (p := p) (by rw [hrename]; exact nofun)]
      refine h.moveOn hi _ _ (.writing file sent []) rfl rfl rfl rfl ?_
        (fun _ => ?_)
      · intro j u hne hj hu
        rw [h.not_writes hi hj hne rfl] at hu
        cases hu
      · refine .written (m := m) ?_ hall (congrArg some hall.symm)
        rw [Process.toRename_step, hm]
  | cons b rest =>
      left
      have hstep := Replacement.step_put (writers_of hi) (k + 1)
      have hcontent := Replacement.content_step h.tidy
        (.put i (k + 1)) nofun
      rw [hstep] at hcontent
      rw [← List.take_append_drop (k + 1) (b :: rest), ← List.append_assoc]
        at hall
      have hnext := h.moveBy (a := .put i (k + 1)) hi p p
        (.writing file (sent ++ (b :: rest).take (k + 1))
          ((b :: rest).drop (k + 1))) rfl rfl
        (h.manifest.trans hcontent.symm) hstep True.intro True.intro
        (fun _ _ _ _ _ => rfl) (.writing hm hall)
      rwa [set_proc hp] at hnext

/-- A process that has written the temporary file renames it. Both scenes do so
at once, and what the name of the manifest leads to is in both the text that
was written. -/
theorem Mirror.advance_written (h : Mirror fromStr c dir f s) {m : Manifest}
    {file : Nat} {sent : List β}
    (hi : f.tasks[i]? = some ⟨p, .writing file sent []⟩)
    (hp : s.procs[i]? = some p) (hm : p.toRename = some m)
    (htmp : s.store.tmp = some sent) :
    Mirror fromStr c dir
      (f.advance fromStr c dir i k ⟨p, .writing file sent []⟩)
      (s.step fromStr c.bincode dir (.advance i)) := by
  have hwriter := writers_of hi
  obtain ⟨hfile, -⟩ := h.tidy.writing i file sent [] hwriter
  have hwrite : p.toWrite = none := by
    unfold Process.toRename at hm
    split at hm
    · rfl
    · rfl
    · cases hm
  have hstep := Replacement.step_rename hwriter
  have hcontent := Replacement.content_rename h.tidy hwriter
  rw [hstep] at hcontent
  have hsome : f.folder.tmp.isSome = s.store.tmp.isSome := by
    rw [htmp, show f.folder.tmp = some file from hfile]
    rfl
  unfold PieceScene.advance
  simp only [hm]
  rw [scene_advance hp, Process.step_toRename hm htmp,
    h.next_eq (fun _ => hsome)]
  refine h.moveBy (a := .rename i) hi _ _ .none rfl rfl hcontent.symm hstep
    True.intro True.intro ?_ (.same ?_)
  · intro j u hne hj hu
    rw [h.not_writes hi hj hne rfl] at hu
    cases hu
  · rw [Process.toRename_step, hwrite]

end Advance

/-- **A step of a process is its step in the scene, or nothing.** -/
theorem Mirror.advance (h : Mirror fromStr c dir f s) {i k : Nat} {t : Task β}
    (hi : f.tasks[i]? = some t) (hserial : f.Serial (.advance i k)) :
    Mirror fromStr c dir (f.advance fromStr c dir i k t) s ∨
      Mirror fromStr c dir (f.advance fromStr c dir i k t)
        (s.step fromStr c.bincode dir (.advance i)) := by
  obtain ⟨hlt, -⟩ := List.getElem?_eq_some_iff.mp hi
  obtain ⟨p, hp⟩ : ∃ p, s.procs[i]? = some p :=
    ⟨_, List.getElem?_eq_getElem (h.length ▸ hlt)⟩
  cases h.tasks i t p hi hp with
  | same hrename => exact h.advance_none hi hp hrename hserial
  | reading hreads hsealed hgot hnext =>
      exact .inl (h.advance_reading hi hp hreads hsealed hgot hnext)
  | writing hm hall => exact h.advance_writing hi hp hm hall
  | written hm hall htmp => exact .inr (h.advance_written hi hp hm htmp)

omit [Inhabited β] in
/-- The scenes still match after what happens around the processes, the clock
or an edit of a service file, which touches neither the folder nor a process.
-/
theorem Mirror.around (h : Mirror fromStr c dir f s)
    (hfolder : f'.folder = f.folder) (htasks : f'.tasks = f.tasks)
    (hprocs : s'.procs = s.procs) (hmanifest : s'.store.manifest =
      s.store.manifest) (htmp : s'.store.tmp = s.store.tmp)
    (hclock : s'.store.clock = f'.clock) (hfiles : s'.store.files = f'.files)
    (hedits : s'.edits = f'.edits) : Mirror fromStr c dir f' s' := by
  have hsame : f'.replacement = f.replacement := by
    unfold PieceScene.replacement
    rw [hfolder, htasks]
  refine ⟨hclock, hfiles, ?_, hedits, ?_, ?_, ?_⟩
  · rw [hmanifest, hfolder]
    exact h.manifest
  · rw [hsame]
    exact h.tidy
  · rw [htasks, hprocs]
    exact h.length
  · intro i t p hi hp
    rw [htasks] at hi
    rw [hprocs] at hp
    refine (h.tasks i t p hi hp).other ?_ (fun _ => htmp)
    intro n hn
    rw [hsame, hfolder]
    exact ⟨hn, rfl⟩

omit [Inhabited β] in
/-- The scenes still match after a process has been started in both. It has
nothing open, and the processes before it keep their numbers. -/
theorem Mirror.spawn (h : Mirror fromStr c dir f s) {p : Process}
    (hp : p.toRename = none) :
    Mirror fromStr c dir (f.spawn p) { s with procs := s.procs ++ [p] } := by
  have hsame : (f.spawn p).replacement = f.replacement := by
    unfold PieceScene.replacement PieceScene.spawn
    dsimp only
    rw [Replacement.writersOf_concat rfl]
  refine ⟨h.clock, h.files, h.manifest, h.edits, ?_, ?_, ?_⟩
  · rw [hsame]
    exact h.tidy
  · change (f.tasks ++ _).length = (s.procs ++ _).length
    rw [List.length_append, List.length_append, h.length]
    rfl
  · intro i t q hi hq
    change (f.tasks ++ _)[i]? = _ at hi
    change (s.procs ++ _)[i]? = _ at hq
    by_cases hlt : i < f.tasks.length
    · rw [List.getElem?_append_left hlt] at hi
      rw [List.getElem?_append_left (h.length ▸ hlt)] at hq
      refine (h.tasks i t q hi hq).other ?_ (fun _ => rfl)
      intro n hn
      rw [hsame]
      exact ⟨hn, rfl⟩
    · rw [List.getElem?_append_right (by omega)] at hi
      rw [List.getElem?_append_right (by have := h.length; omega),
        ← h.length] at hq
      cases hk : i - f.tasks.length with
      | zero =>
          rw [hk] at hi hq
          cases hi
          cases hq
          exact .same hp
      | succ k =>
          rw [hk] at hi
          cases hi

/-- **Every step** of one scene is a step of the other, or nothing. The cases
are the actions: what goes on around the processes is the same in both scenes,
a process that goes on is the lemma before, and one that is stopped drops the
file that it has open. -/
theorem Mirror.step (h : Mirror fromStr c dir f s) {a : PieceAction}
    (hserial : f.Serial a) :
    ∃ as, Mirror fromStr c dir (f.step fromStr c dir a)
      (Runs.run (Scene.step fromStr c.bincode dir) s as) := by
  cases a with
  | tick nanos =>
      exact ⟨[.tick nanos], h.around rfl rfl rfl rfl rfl
        (congrArg (· + (nanos : Int)) h.clock) h.files h.edits⟩
  | edit filename text =>
      refine ⟨[.edit filename text], h.around rfl rfl rfl rfl rfl h.clock ?_
        (congrArg (· + 1) h.edits)⟩
      change s.store.files.insert _ ⟨s.store.clock, text⟩ = _
      rw [h.files, h.clock]
      rfl
  | remove filename =>
      exact ⟨[.remove filename], h.around rfl rfl rfl rfl rfl h.clock
        (congrArg (·.erase filename) h.files) (congrArg (· + 1) h.edits)⟩
  | load order =>
      have hnext := h.spawn (p := .load f.edits
        (.scan [] (order.arrange (tomlNames f.files)))) rfl
      refine ⟨[.load order], ?_⟩
      unfold Runs.run Scene.step
      rw [h.edits, h.files]
      exact hnext
  | event filename deleted =>
      refine ⟨[.event filename deleted], ?_⟩
      simp only [Runs.run, Scene.step, PieceScene.step]
      split
      · exact h.spawn rfl
      · exact h
  | advance i k =>
      unfold PieceScene.step
      dsimp only
      split
      · exact ⟨[], h⟩
      · rename_i t hi
        rcases h.advance hi hserial with hnext | hnext
        · exact ⟨[], hnext⟩
        · exact ⟨[.advance i], hnext⟩
  | stop i =>
      refine ⟨[.stop i], ?_⟩
      change Mirror fromStr c dir
        { f with tasks := f.tasks.set i ⟨.stopped, .none⟩ }
        { s with procs := s.procs.set i .stopped }
      cases hi : f.tasks[i]? with
      | none =>
          have hlen := List.getElem?_eq_none_iff.mp hi
          rw [List.set_eq_of_length_le hlen,
            List.set_eq_of_length_le (h.length ▸ hlen)]
          exact h
      | some t =>
          exact h.moveBy (a := .drop i) hi .stopped .stopped .none rfl rfl
            h.manifest rfl True.intro True.intro (fun _ _ _ _ _ => rfl)
            (.same rfl)

omit [Inhabited β] in
/-- Before the first action the two runs agree. -/
theorem Mirror.initial (clock : SystemTime) (files : Files) :
    Mirror fromStr c dir (PieceScene.initial clock files)
      (Scene.initial c.bincode clock files) := by
  refine ⟨rfl, rfl, rfl, rfl, ⟨?_, nofun, nofun, ?_, nofun⟩, rfl, ?_⟩
  · rintro n (h | h)
    · cases h
    · cases h
  · intro i j hi
    exact absurd rfl hi
  · intro i t p hi
    cases hi

/-- Every run of one scene has a run of the other. -/
theorem Mirror.run (h : Mirror fromStr c dir f s) :
    ∀ (actions : List PieceAction),
      Runs.Meets (PieceScene.step fromStr c dir) PieceScene.Serial f actions →
      ∃ as, Mirror fromStr c dir
        (Runs.run (PieceScene.step fromStr c dir) f actions)
        (Runs.run (Scene.step fromStr c.bincode dir) s as) := by
  intro actions
  induction actions generalizing f s with
  | nil => exact fun _ => ⟨[], h⟩
  | cons a actions ih =>
      intro hserial
      obtain ⟨as, hnext⟩ := h.step hserial.1
      obtain ⟨bs, hend⟩ := ih hnext hserial.2
      refine ⟨as ++ bs, ?_⟩
      rw [Runs.run_append]
      exact hend

/-- **Pieces make no difference.**  In every run in which the temporary file is
opened only while nobody has it open, wherever processes are stopped: the
manifest is what some process wrote as a whole, and there is a run of a scene,
in which files are read and written at once, with the same files, the same
manifest, and the same state of each process that has no file open. -/
theorem pieces_refine_scene (fromStr : String → Except String ServiceDef)
    (c : ByteCodec β) (dir : String) (clock : SystemTime) (files : Files)
    (actions : List PieceAction)
    (hserial : Runs.Meets (PieceScene.step fromStr c dir) PieceScene.Serial
      (PieceScene.initial clock files) actions) :
    let f := Runs.run (PieceScene.step fromStr c dir)
      (PieceScene.initial clock files) actions
    (∀ bytes, f.folder.content = some bytes →
      ∃ m, bytes = c.serialize m) ∧
      ∃ as, let s := sceneAfter fromStr c.bincode dir clock files as
        s.store.clock = f.clock ∧ s.store.files = f.files ∧
          s.store.manifest = f.folder.content ∧ s.edits = f.edits ∧
          s.procs.length = f.tasks.length ∧
          ∀ (i : Nat) (p : Process), f.tasks[i]? = some ⟨p, .none⟩ →
            s.procs[i]? = some p := by
  intro f
  have hinitial : Mirror fromStr c dir (PieceScene.initial clock files)
      (Scene.initial c.bincode clock files) := .initial clock files
  obtain ⟨as, h⟩ := hinitial.run actions hserial
  refine ⟨fun bytes hbytes => h.tidy.whole bytes hbytes, as, h.clock, h.files,
    h.manifest, h.edits, h.length.symm, ?_⟩
  intro i p hi
  obtain ⟨hlt, -⟩ := List.getElem?_eq_some_iff.mp hi
  have hp := List.getElem?_eq_getElem (h.length ▸ hlt)
  have hsame := h.tasks i _ _ hi hp
  cases hsame
  exact hp

end Mirror

/-! ## A load that is stopped in the middle of its write -/

/-- An encoding in two pieces. -/
def ByteCodec.twice : ByteCodec Manifest where
  serialize m := [m, m]
  deserialize
    | [m, m'] => if m = m' then .ok m else .error "invalid manifest"
    | _ => .error "unexpected end of file"
  round_trip _ := if_pos rfl

instance : Inhabited Manifest := ⟨⟨manifestVersion, []⟩⟩

/-- Two loads: the first is stopped with half of the manifest written, and the
second begins again. -/
def stoppedLoad : List PieceAction :=
  .load (.asStored _) :: List.replicate 7 (.advance 0 0) ++ .stop 0 ::
    .load (.asStored _) :: List.replicate 10 (.advance 1 0)

/-- What becomes of a directory with the first version. -/
def firstVersionPieces (actions : List PieceAction) : PieceScene Manifest :=
  Runs.run (PieceScene.step parseDbVersion .twice "/etc/flint/services")
    (.initial 0 firstVersion) actions

/-- The second load returns, and a run with whole reads and writes returns the
same. -/
theorem pieces_refine_scene_stopped :
    let f := firstVersionPieces stoppedLoad
    f.tasks[1]? = some ⟨.load 0 (.returned [dbVersion "1"]), .none⟩ ∧
      ∃ as : List Action,
        let s : Scene (List Manifest) := sceneAfter parseDbVersion
          ByteCodec.twice.bincode "/etc/flint/services" 0 firstVersion as
        s.store.manifest = f.folder.content ∧
          s.procs[1]? = some (.load 0 (.returned [dbVersion "1"])) := by
  intro f
  have hload : f.tasks[1]? =
      some ⟨.load 0 (.returned [dbVersion "1"]), .none⟩ := by
    decide +kernel
  obtain ⟨-, as, -, -, hmanifest, -, -, hprocs⟩ := pieces_refine_scene
    parseDbVersion .twice "/etc/flint/services" 0 firstVersion stoppedLoad
    (by decide +kernel)
  exact ⟨hload, as, hmanifest, hprocs 1 _ hload⟩

/-- Two loads that write at the same time, one from before an edit. -/
def mixedLoads : List PieceAction :=
  .load (.asStored _) :: List.replicate 7 (.advance 0 0) ++
    [.tick 1000000000, .edit "db.toml" (dbVersionToml "2"),
      .load (.asStored _)] ++ List.replicate 7 (.advance 1 0) ++
    List.replicate 3 (.advance 0 0)

-- without the condition the manifest may be made up of two
example : (firstVersionPieces mixedLoads).folder.content.map
    (List.map fun m => m.entries.map (·.defn)) =
      some [[dbVersion "2"], [dbVersion "1"]] := by
  decide +kernel

end FlintInit
