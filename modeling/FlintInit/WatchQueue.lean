import FlintInit.CacheFreshness
import Mathlib.Algebra.GroupWithZero.Nat

/-!
# The event queue of flint-watch

An operation on the service directory makes the kernel queue the events of the
watch mask, in order.  `flint-watch` takes them one at a time and handles each
against the directory as it is by then.  Operations and handlings may come in
any order; no operation comes while an event is being handled.

`Followed` says what keeps the manifest right although events arrive late: a
file either has its current entry and no event waiting, or the last event
waiting for it is an update.  `Stray` says what goes wrong: a file is gone, its
entry is not, and no deletion is waiting.
-/

namespace FlintInit

open Collections KeyedVec Runs

inductive EventMask where
  | create
  | modify
  | closeWrite
  | movedFrom
  | movedTo
  | delete
  | deleteSelf
  | ignored
  deriving DecidableEq

structure InotifyEvent where
  mask : EventMask
  name : Option String
  deriving DecidableEq

def watchMask : List EventMask :=
  [.closeWrite, .movedTo, .delete, .deleteSelf]

/-- The events that are queued. -/
def delivered (events : List InotifyEvent) : List InotifyEvent :=
  events.filter (fun event => event.mask ∈ watchMask)

/-- An operation on a file of the directory. -/
inductive Operation where
  | write (filename : String) (file : ServiceFile)
  | delete (filename : String)
  | moveIn (filename : String) (file : ServiceFile)
  | moveOut (filename : String)
  | rename (source target : String)

/-- The files after an operation, and everything inotify can report of it.  An
operation on a file that does not exist fails. -/
def Operation.apply (files : Files) : Operation → Files × List InotifyEvent
  | .write filename file =>
      (files.insert filename file,
        (if (files.lookup filename).isSome then []
          else [⟨.create, some filename⟩]) ++
        [⟨.modify, some filename⟩, ⟨.closeWrite, some filename⟩])
  | .delete filename =>
      match files.lookup filename with
      | none => (files, [])
      | some _ => (files.erase filename, [⟨.delete, some filename⟩])
  | .moveIn filename file =>
      (files.insert filename file, [⟨.movedTo, some filename⟩])
  | .moveOut filename =>
      match files.lookup filename with
      | none => (files, [])
      | some _ => (files.erase filename, [⟨.movedFrom, some filename⟩])
  | .rename source target =>
      match files.lookup source with
      | none => (files, [])
      | some file =>
          if source = target then (files, [])
          else
            ((files.erase source).insert target file,
              [⟨.movedFrom, some source⟩, ⟨.movedTo, some target⟩])

/-- What writing the manifest reports: it lies in the same directory. -/
def manifestEvents : List InotifyEvent :=
  [⟨.create, some "services.tmp"⟩, ⟨.modify, some "services.tmp"⟩,
    ⟨.closeWrite, some "services.tmp"⟩, ⟨.movedFrom, some "services.tmp"⟩,
    ⟨.movedTo, some "services.bin"⟩]

/-- The directory, the queue, and whether `flint-watch` has ended. -/
structure Watch (Bytes : Type) where
  store : Store Bytes
  queue : List InotifyEvent
  exited : Bool

inductive WatchAction where
  | operate (op : Operation)
  | handle

section Watching

variable (fromStr : String → Except String ServiceDef) (codec : Bincode)
  (dir : String)

/-- One event, from reading the manifest to renaming the new one. -/
def handleEvent (store : Store codec.Bytes) (filename : String)
    (deleted : Bool) : Store codec.Bytes × Handler :=
  (fun p : Store codec.Bytes × Handler => p.2.step fromStr codec dir p.1)^[5]
    (store, .start filename deleted)

namespace Watch

def operate {Bytes : Type} (s : Watch Bytes) (op : Operation) :
    Watch Bytes :=
  let result := op.apply s.store.files
  { s with
    store := { s.store with files := result.1 }
    queue := s.queue ++ delivered result.2 }

/-- One round of the event loop. -/
def handle (s : Watch codec.Bytes) : Watch codec.Bytes :=
  match s.queue with
  | [] => s
  | event :: rest =>
      let s := { s with queue := rest }
      if event.mask = .deleteSelf ∨ event.mask = .ignored then
        { s with exited := true }
      else
        match event.name with
        | none => s
        | some filename =>
            if endsWith filename ".toml" then
              match handleEvent fromStr codec dir s.store filename
                (event.mask = .delete) with
              | (store, .done) =>
                  { s with
                    store := store
                    queue := rest ++ delivered manifestEvents }
              | (store, _) => { s with store := store, exited := true }
            else s

def step (action : WatchAction) (s : Watch codec.Bytes) :
    Watch codec.Bytes :=
  match action with
  | .operate op => s.operate op
  | .handle => if s.exited then s else s.handle fromStr codec dir

end Watch

/-! ## Handling one event -/

/-- What the manifest is to hold for a file, if it parses. -/
def currentEntry (filename : String) (file : ServiceFile) :
    Option ManifestEntry :=
  match fromStr (trimEndNul file.text), asSecs file.modified with
  | .ok defn, .ok mtimeSecs => some ⟨filename, mtimeSecs, defn⟩
  | _, _ => none

/-- The entries after an event for `filename` has been handled. -/
def handledEntries (files : Files) (entries : List ManifestEntry)
    (filename : String) (deleted : Bool) : List ManifestEntry :=
  if deleted then entries.filter (fun e => e.filename ≠ filename)
  else
    match (files.lookup filename).bind (currentEntry fromStr filename) with
    | some entry => upsert ManifestEntry.filename entry entries
    | none => entries

variable {fromStr codec dir}

/-- The two reads of the handler find what the file holds. -/
theorem handler_reads (files : Files) (filename : String) :
    (match parseFile fromStr dir files filename with
      | .error _ => none
      | .ok defn =>
          match statEntry files filename defn with
          | .error _ => none
          | .ok entry => some entry) =
      (files.lookup filename).bind (currentEntry fromStr filename) := by
  unfold parseFile statEntry readText readModified parseContent
  cases files.lookup filename with
  | none => rfl
  | some file =>
      simp only [Option.bind_some, currentEntry]
      cases fromStr (trimEndNul file.text) with
      | error e => rfl
      | ok defn => cases asSecs file.modified <;> rfl

/-- **One event** is handled to its end, and changes the entry of its file
only. -/
theorem handleEvent_spec (store : Store codec.Bytes) (filename : String)
    (deleted : Bool) :
    ∃ store', handleEvent fromStr codec dir store filename deleted =
        (store', .done) ∧ store'.files = store.files ∧
      stored codec store'.manifest = handledEntries fromStr store.files
        (stored codec store.manifest) filename deleted := by
  have hversion : ((store.found codec).getD ⟨manifestVersion, []⟩).version =
      manifestVersion := by
    unfold Store.found
    cases store.manifest with
    | none => rfl
    | some bytes =>
        simp only [Option.bind_some, decodeManifest]
        cases codec.deserialize bytes with
        | error e => rfl
        | ok m =>
            dsimp only
            by_cases hm : m.version = manifestVersion
            · rw [if_pos hm]
              exact hm
            · rw [if_neg hm]
              rfl
  have hentries : ((store.found codec).getD ⟨manifestVersion, []⟩).entries =
      stored codec store.manifest := by
    change _ = foundEntries (store.found codec)
    cases store.found codec <;> rfl
  have hstored : ∀ m : Manifest, m.version = manifestVersion →
      stored codec (some (codec.serialize m)) = m.entries := by
    intro m hm
    simp only [stored, Option.bind_some, decodeManifest, codec.round_trip,
      if_pos hm, foundEntries]
  cases deleted with
  | true =>
      refine ⟨_, rfl, rfl, ?_⟩
      rw [handledEntries, if_pos rfl, ← hentries]
      exact hstored _ hversion
  | false =>
      have hreads := @handler_reads fromStr dir store.files filename
      rw [handledEntries, if_neg Bool.false_ne_true, ← hreads, ← hentries]
      unfold handleEvent
      simp only [Function.iterate_succ_apply, Function.iterate_zero_apply,
        Handler.step, Bool.false_eq_true, if_false]
      cases parseFile fromStr dir store.files filename with
      | error e => exact ⟨_, rfl, rfl, hstored _ hversion⟩
      | ok defn =>
          dsimp only [Handler.step]
          cases statEntry store.files filename defn with
          | error e => exact ⟨_, rfl, rfl, hstored _ hversion⟩
          | ok entry => exact ⟨_, rfl, rfl, hstored _ hversion⟩

end Watching

/-! ## What an operation does to one file -/

/-- The events waiting for a file. -/
def pending (f : String) (queue : List InotifyEvent) : List InotifyEvent :=
  queue.filter (fun event => event.name = some f)

/-- The events that wait for a file are those of both parts of the queue. -/
theorem pending_append (f : String) (front back : List InotifyEvent) :
    pending f (front ++ back) = pending f front ++ pending f back :=
  List.filter_append ..

/-- An event waits for the file it names. -/
theorem pending_cons (f : String) (event : InotifyEvent)
    (rest : List InotifyEvent) :
    pending f (event :: rest) =
      if event.name = some f then event :: pending f rest
      else pending f rest := by
  simp [pending, List.filter_cons]

/-- The events that make the watcher read a file. -/
def EventMask.updates : EventMask → Bool
  | .closeWrite => true
  | .movedTo => true
  | _ => false

/-- The file an operation takes away under a name of its own. -/
def Operation.departing (files : Files) : Operation → Option String
  | .moveOut filename =>
      if (files.lookup filename).isSome then some filename else none
  | .rename source target =>
      if (files.lookup source).isSome ∧ source ≠ target then some source
      else none
  | _ => none

/-- What becomes of the file `f`, and which events are queued for it. -/
inductive Fate (files : Files) (op : Operation) (f : String) : Prop
  | kept (hfile : (op.apply files).1.lookup f = files.lookup f)
      (hevents : pending f (delivered (op.apply files).2) = [])
      (hstays : op.departing files ≠ some f)
  | written {file : ServiceFile} {mask : EventMask}
      (hfile : (op.apply files).1.lookup f = some file)
      (hevents : pending f (delivered (op.apply files).2) =
        [⟨mask, some f⟩])
      (hupdates : mask.updates = true)
      (hstays : op.departing files ≠ some f)
  | deleted (hbefore : (files.lookup f).isSome = true)
      (hfile : (op.apply files).1.lookup f = none)
      (hevents : pending f (delivered (op.apply files).2) =
        [⟨.delete, some f⟩])
      (hstays : op.departing files ≠ some f)
  | departed (hbefore : (files.lookup f).isSome = true)
      (hfile : (op.apply files).1.lookup f = none)
      (hevents : pending f (delivered (op.apply files).2) = [])
      (hdeparts : op.departing files = some f)

/-- **The fate of a file.**  Only moving it away leaves no trace in the
queue. -/
theorem Operation.fate (op : Operation) (files : Files) (f : String) :
    Fate files op f := by
  cases op with
  | write filename file =>
      have hevents : pending f (delivered
          ((Operation.write filename file).apply files).2) =
          if filename = f then [⟨.closeWrite, some f⟩] else [] := by
        by_cases h : filename = f
        · subst h
          simp only [Operation.apply]
          split <;> simp [pending, delivered, watchMask]
        · simp only [Operation.apply]
          split <;> simp [pending, delivered, watchMask, h]
      have hfile : ((Operation.write filename file).apply files).1.lookup f =
          if f = filename then some file else files.lookup f :=
        lookup_insert_eq ..
      have hstays : (Operation.write filename file).departing files ≠
          some f := fun h => nomatch h
      by_cases h : f = filename
      · rw [if_pos h] at hfile
        rw [if_pos h.symm] at hevents
        exact .written hfile hevents rfl hstays
      · rw [if_neg h] at hfile
        rw [if_neg (Ne.symm h)] at hevents
        exact .kept hfile hevents hstays
  | delete filename =>
      cases hlook : files.lookup filename with
      | none =>
          refine .kept ?_ ?_ (fun h => nomatch h)
          · simp only [Operation.apply, hlook]
          · simp only [Operation.apply, hlook]
            rfl
      | some file =>
          by_cases h : f = filename
          · subst h
            refine .deleted (by rw [hlook]; rfl) ?_ ?_ (fun h => nomatch h)
            · simp [Operation.apply, hlook]
            · simp [Operation.apply, hlook, pending, delivered, watchMask]
          · refine .kept ?_ ?_ (fun h => nomatch h)
            · simp [Operation.apply, hlook, h]
            · simp [Operation.apply, hlook, pending, delivered, watchMask,
                Ne.symm h]
  | moveIn filename file =>
      have hfile : ((Operation.moveIn filename file).apply files).1.lookup f =
          if f = filename then some file else files.lookup f :=
        lookup_insert_eq ..
      have hstays : (Operation.moveIn filename file).departing files ≠
          some f := fun h => nomatch h
      by_cases h : f = filename
      · rw [if_pos h] at hfile
        subst h
        refine .written hfile ?_ (rfl : EventMask.movedTo.updates = true)
          hstays
        simp [Operation.apply, pending, delivered, watchMask]
      · rw [if_neg h] at hfile
        refine .kept hfile ?_ hstays
        simp [Operation.apply, pending, delivered, watchMask, Ne.symm h]
  | moveOut filename =>
      cases hlook : files.lookup filename with
      | none =>
          refine .kept ?_ ?_ ?_
          · simp only [Operation.apply, hlook]
          · simp only [Operation.apply, hlook]
            rfl
          · simp [Operation.departing, hlook]
      | some file =>
          by_cases h : f = filename
          · subst h
            refine .departed (by rw [hlook]; rfl) ?_ ?_ ?_
            · simp [Operation.apply, hlook]
            · simp [Operation.apply, hlook, pending, delivered, watchMask]
            · simp [Operation.departing, hlook]
          · refine .kept ?_ ?_ ?_
            · simp [Operation.apply, hlook, h]
            · simp [Operation.apply, hlook, pending, delivered, watchMask]
            · simp [Operation.departing, hlook, Ne.symm h]
  | rename source target =>
      cases hlook : files.lookup source with
      | none =>
          refine .kept ?_ ?_ ?_
          · simp only [Operation.apply, hlook]
          · simp only [Operation.apply, hlook]
            rfl
          · simp [Operation.departing, hlook]
      | some file =>
          by_cases hsame : source = target
          · refine .kept ?_ ?_ ?_
            · simp [Operation.apply, hlook, hsame]
            · simp [Operation.apply, hlook, hsame, pending, delivered]
            · simp [Operation.departing, hsame]
          · by_cases htarget : f = target
            · subst htarget
              have hevents : pending f (delivered
                  ((Operation.rename source f).apply files).2) =
                  [⟨.movedTo, some f⟩] := by
                simp [Operation.apply, hlook, hsame, pending, delivered,
                  watchMask]
              have hfile : ((Operation.rename source f).apply files).1.lookup
                  f = some file := by
                simp [Operation.apply, hlook, hsame]
              refine .written hfile hevents rfl ?_
              simp [Operation.departing, hsame]
            · by_cases hsource : f = source
              · subst hsource
                refine .departed (by rw [hlook]; rfl) ?_ ?_ ?_
                · simp [Operation.apply, hlook, hsame]
                · simp [Operation.apply, hlook, hsame, pending, delivered,
                    watchMask, Ne.symm htarget]
                · simp [Operation.departing, hlook, hsame]
              · refine .kept ?_ ?_ ?_
                · simp [Operation.apply, hlook, hsame, htarget,
                    hsource]
                · simp [Operation.apply, hlook, hsame, pending, delivered,
                    watchMask, Ne.symm htarget]
                · simp [Operation.departing, Ne.symm hsource]

/-- The queue is never asked to end the watcher. That is done by the deletion
of the directory itself, and the operations are on files in it. -/
theorem Operation.not_fatal (op : Operation) (files : Files) :
    ∀ event ∈ delivered (op.apply files).2,
      ¬ (event.mask = .deleteSelf ∨ event.mask = .ignored) := by
  have hall : ∀ event ∈ (op.apply files).2,
      event.mask ≠ .deleteSelf ∧ event.mask ≠ .ignored := by
    cases op with
    | write filename file =>
        simp only [Operation.apply]
        split <;> simp
    | delete filename =>
        simp only [Operation.apply]
        split <;> simp
    | moveIn filename file => simp [Operation.apply]
    | moveOut filename =>
        simp only [Operation.apply]
        split <;> simp
    | rename source target =>
        simp only [Operation.apply]
        split
        · simp
        · split <;> simp
  intro event hin
  exact not_or.mpr (hall event (List.mem_of_mem_filter hin))

/-! ## Runs of the watcher -/

section Watched

variable {fromStr : String → Except String ServiceDef} {codec : Bincode}
  {dir : String}

def Watch.entries (s : Watch codec.Bytes) : List ManifestEntry :=
  stored codec s.store.manifest

/-- An update is the last event that waits for the file. -/
def LastUpdates (events : List InotifyEvent) : Prop :=
  ∃ event, events.getLast? = some event ∧ event.mask.updates = true

/-- A queue that ends in an update has one as its last event. -/
theorem LastUpdates.append {events : List InotifyEvent}
    {event : InotifyEvent} (h : event.mask.updates = true) :
    LastUpdates (events ++ [event]) :=
  ⟨event, List.getLast?_concat, h⟩

/-- One event less, or none left. -/
theorem LastUpdates.tail {event : InotifyEvent} {rest : List InotifyEvent}
    (h : LastUpdates (event :: rest)) :
    LastUpdates rest ∨ (rest = [] ∧ event.mask.updates = true) := by
  obtain ⟨last, hlast, hupdates⟩ := h
  cases rest with
  | nil =>
      cases hlast
      exact .inr ⟨rfl, hupdates⟩
  | cons next rest =>
      rw [List.getLast?_cons_cons] at hlast
      exact .inl ⟨last, hlast, hupdates⟩

/-- A file with its current entry, or with an update that waits. -/
def Followed (fromStr : String → Except String ServiceDef)
    (s : Watch codec.Bytes) (f : String) : Prop :=
  ∀ file entry, s.store.files.lookup f = some file →
    currentEntry fromStr f file = some entry →
    (pending f s.queue = [] ∧
      lookup ManifestEntry.filename s.entries f = some entry) ∨
    LastUpdates (pending f s.queue)

/-- What holds at any time between two events. -/
structure UpToDate (fromStr : String → Except String ServiceDef)
    (s : Watch codec.Bytes) : Prop where
  running : s.exited = false
  watched : ∀ event ∈ s.queue,
    ¬ (event.mask = .deleteSelf ∨ event.mask = .ignored)
  entries : Good (fun e => endsWith e.filename ".toml" = true) s.entries
  followed : ∀ f, endsWith f ".toml" = true → Followed fromStr s f

/-- An entry for a file that is gone, and no deletion that waits. -/
structure Stray (s : Watch codec.Bytes) (f : String) : Prop where
  gone : s.store.files.lookup f = none
  kept : (lookup ManifestEntry.filename s.entries f).isSome = true
  unnoticed : ∀ event ∈ pending f s.queue, event.mask ≠ .delete

/-- An entry is made under the name of its file. -/
theorem currentEntry_filename {f : String} {file : ServiceFile}
    {entry : ManifestEntry} (h : currentEntry fromStr f file = some entry) :
    entry.filename = f := by
  unfold currentEntry at h
  split at h
  · cases h
    rfl
  · cases h

/-- Handling an event changes the entry of its own file only: it is dropped, or
replaced if the file can be read and parsed. -/
theorem lookup_handledEntries (files : Files) (entries : List ManifestEntry)
    (g f : String) (deleted : Bool) :
    lookup ManifestEntry.filename
        (handledEntries fromStr files entries g deleted) f =
      if f = g then
        if deleted then none
        else ((files.lookup g).bind (currentEntry fromStr g)).or
          (lookup ManifestEntry.filename entries f)
      else lookup ManifestEntry.filename entries f := by
  unfold handledEntries
  cases deleted with
  | true =>
      rw [if_pos rfl, if_pos rfl]
      exact lookup_without entries g f
  | false =>
      rw [if_neg Bool.false_ne_true, if_neg Bool.false_ne_true]
      cases hread : (files.lookup g).bind (currentEntry fromStr g) with
      | none => exact (ite_self _).symm
      | some entry =>
          obtain ⟨file, -, hentry⟩ := Option.bind_eq_some_iff.mp hread
          dsimp only
          rw [lookup_upsert, currentEntry_filename hentry]
          rfl

/-- Handling an event keeps one entry for a file. -/
theorem Good.handled {P : ManifestEntry → Prop}
    {entries : List ManifestEntry} (h : Good P entries) (files : Files)
    (g : String) (deleted : Bool)
    (hnew : ∀ entry : ManifestEntry, entry.filename = g → P entry) :
    Good P (handledEntries fromStr files entries g deleted) := by
  unfold handledEntries
  split
  · exact h.sublist List.filter_sublist
  · cases hread : (files.lookup g).bind (currentEntry fromStr g) with
    | none => exact h
    | some entry =>
        obtain ⟨file, -, hentry⟩ := Option.bind_eq_some_iff.mp hread
        exact Good.record (m := ⟨manifestVersion, entries⟩) h
          (hnew entry (currentEntry_filename hentry))

/-! ### One event -/

/-- Whether the watcher goes on with an event. -/
def InotifyEvent.concernsToml (event : InotifyEvent) : Bool :=
  event.name.any (fun filename => endsWith filename ".toml")

/-- What handling the event at the head of the queue does. -/
structure Handled (fromStr : String → Except String ServiceDef)
    (event : InotifyEvent) (rest : List InotifyEvent)
    (s s' : Watch codec.Bytes) : Prop where
  running : s'.exited = s.exited
  files : s'.store.files = s.store.files
  queue : s'.queue =
    if event.concernsToml then rest ++ delivered manifestEvents else rest
  entries : s'.entries = s.entries ∧
      (∀ f, endsWith f ".toml" = true → event.name ≠ some f) ∨
    ∃ g, event.name = some g ∧ endsWith g ".toml" = true ∧
      s'.entries = handledEntries fromStr s.store.files s.entries g
        (event.mask = .delete)

/-- **What handling an event does**, for every event but the end of the watched
directory. -/
theorem Watch.handle_spec {s : Watch codec.Bytes} {event : InotifyEvent}
    {rest : List InotifyEvent} (hqueue : s.queue = event :: rest)
    (hevent : ¬ (event.mask = .deleteSelf ∨ event.mask = .ignored)) :
    Handled fromStr event rest s (s.handle fromStr codec dir) := by
  unfold Watch.handle
  rw [hqueue]
  dsimp only
  rw [if_neg hevent]
  cases hname : event.name with
  | none =>
      refine ⟨rfl, rfl, ?_, .inl ⟨rfl, ?_⟩⟩
      · rw [InotifyEvent.concernsToml, hname]
        rfl
      · intro f _ h
        cases hname.symm.trans h
  | some g =>
      have hconcerns : event.concernsToml = endsWith g ".toml" := by
        rw [InotifyEvent.concernsToml, hname]
        rfl
      dsimp only
      by_cases hg : endsWith g ".toml" = true
      · obtain ⟨store', hhandle, hfiles, hentries⟩ :=
          @handleEvent_spec fromStr codec dir s.store g
            (event.mask = .delete)
        rw [if_pos hg, hhandle]
        refine ⟨rfl, hfiles, ?_, .inr ⟨g, hname, hg, hentries⟩⟩
        rw [if_pos (hconcerns.trans hg)]
      · rw [if_neg hg]
        refine ⟨rfl, rfl, ?_, .inl ⟨rfl, ?_⟩⟩
        · rw [if_neg (by rwa [hconcerns])]
        · intro f hf h
          cases hname.symm.trans h
          exact hg hf

namespace Handled

variable {s s' : Watch codec.Bytes} {event : InotifyEvent}
  {rest : List InotifyEvent}

/-- What is queued after handling was there before, or comes of writing the
manifest. -/
theorem queued (h : Handled fromStr event rest s s') :
    ∀ e ∈ s'.queue, e ∈ rest ∨ e ∈ delivered manifestEvents := by
  intro e hin
  rw [h.queue] at hin
  split at hin
  · exact List.mem_append.mp hin
  · exact .inl hin

/-- The watcher does not follow its own writing. -/
theorem pending_eq (h : Handled fromStr event rest s s') {f : String}
    (hf : endsWith f ".toml" = true) :
    pending f s'.queue = pending f rest := by
  have hown : pending f (delivered manifestEvents) = [] := by
    rw [pending, List.filter_eq_nil_iff]
    intro e hin hname
    have hnames : ∀ e ∈ delivered manifestEvents, ∀ g, e.name = some g →
        endsWith g ".toml" = false := by decide
    rw [hnames e hin f (of_decide_eq_true hname)] at hf
    exact Bool.false_ne_true hf
  rw [h.queue]
  split
  · rw [pending_append, hown, List.append_nil]
  · rfl

end Handled

namespace UpToDate

variable {s : Watch codec.Bytes}

/-- **An operation** leaves every file with its entry or a waiting update. Its
events go to the end of the queue, and an operation that changes a file queues
an update of it last. -/
theorem operate (h : UpToDate fromStr s) (op : Operation) :
    UpToDate fromStr (s.operate op) where
  running := h.running
  watched event hin := by
    rcases List.mem_append.mp hin with hin | hin
    · exact h.watched event hin
    · exact op.not_fatal s.store.files event hin
  entries := h.entries
  followed f hf file entry hfile hentry := by
    have hqueue : pending f (s.operate op).queue = pending f s.queue ++
        pending f (delivered (op.apply s.store.files).2) :=
      pending_append f _ _
    rw [hqueue]
    cases op.fate s.store.files f with
    | kept hsame hevents hstays =>
        rw [hevents, List.append_nil]
        exact h.followed f hf file entry (hsame.symm.trans hfile) hentry
    | written hnow hevents hupdates hstays =>
        rw [hevents]
        exact .inr (.append hupdates)
    | deleted hbefore hgone hevents hstays => cases hgone.symm.trans hfile
    | departed hbefore hgone hevents hdeparts =>
        cases hgone.symm.trans hfile

/-- **Handling one event** leaves every file with its entry or a waiting
update. The entry made for the file of the event is that of its present
content, and what waits for other files still waits. -/
theorem handled (h : UpToDate fromStr s) {s' : Watch codec.Bytes}
    {event : InotifyEvent} {rest : List InotifyEvent}
    (hqueue : s.queue = event :: rest)
    (hspec : Handled fromStr event rest s s') : UpToDate fromStr s' where
  running := hspec.running.trans h.running
  watched e hin := by
    rcases hspec.queued e hin with hin | hin
    · exact h.watched e (hqueue ▸ List.mem_cons_of_mem _ hin)
    · have hown : ∀ e ∈ delivered manifestEvents,
          ¬ (e.mask = .deleteSelf ∨ e.mask = .ignored) := by decide
      exact hown e hin
  entries := by
    rcases hspec.entries with ⟨hsame, -⟩ | ⟨g, -, hg, hentries⟩
    · rw [hsame]
      exact h.entries
    · rw [hentries]
      apply h.entries.handled
      intro entry hname
      rw [hname]
      exact hg
  followed f hf file entry hfile hentry := by
    rw [hspec.files] at hfile
    have hbefore := h.followed f hf file entry hfile hentry
    rw [hqueue, pending_cons] at hbefore
    rw [hspec.pending_eq hf]
    by_cases hname : event.name = some f
    · -- the file has an event waiting, so the last of them is an update
      rw [if_pos hname] at hbefore
      have hlast := hbefore.resolve_left (fun hnone => nomatch hnone.1)
      rcases hlast.tail with hlast | ⟨hempty, hupdates⟩
      · exact .inr hlast
      · refine .inl ⟨hempty, ?_⟩
        rcases hspec.entries with ⟨-, hother⟩ | ⟨g, hg, -, hentries⟩
        · exact absurd hname (hother f hf)
        · cases hg.symm.trans hname
          have hupdate : ¬ event.mask = .delete := by
            intro heq
            rw [heq] at hupdates
            cases hupdates
          rw [hentries, lookup_handledEntries, if_pos rfl,
            if_neg (by simpa using hupdate), hfile, Option.bind_some, hentry]
          rfl
    · rw [if_neg hname] at hbefore
      refine hbefore.imp_left (fun hfound => ⟨hfound.1, ?_⟩)
      rcases hspec.entries with ⟨hsame, -⟩ | ⟨g, hg, -, hentries⟩
      · rw [hsame]
        exact hfound.2
      · have hne : f ≠ g := fun heq => hname (heq ▸ hg)
        rw [hentries, lookup_handledEntries, if_neg hne]
        exact hfound.2

/-- Every step keeps the watcher up to date: an operation leaves its event on
the queue, and handling takes in what the file holds then. -/
theorem step (h : UpToDate fromStr s) (action : WatchAction) :
    UpToDate fromStr (s.step fromStr codec dir action) := by
  cases action with
  | operate op => exact h.operate op
  | handle =>
      rw [Watch.step, if_neg (by rw [h.running]; exact Bool.false_ne_true)]
      cases hqueue : s.queue with
      | nil =>
          unfold Watch.handle
          rw [hqueue]
          exact h
      | cons event rest =>
          have hevent := h.watched event (hqueue ▸ List.mem_cons_self)
          exact h.handled hqueue (Watch.handle_spec hqueue hevent)

end UpToDate

/-! ### Strays -/

/-- The step takes a file away that has an entry, and no deletion waits. -/
def Strands (f : String) (action : WatchAction) (s : Watch codec.Bytes) :
    Prop :=
  match action with
  | .operate op =>
      op.departing s.store.files = some f ∧
        (lookup ManifestEntry.filename s.entries f).isSome = true ∧
        ∀ event ∈ pending f s.queue, event.mask ≠ .delete
  | .handle => False

/-- The file is there after the operation. -/
def Restores (f : String) (action : WatchAction) (s : Watch codec.Bytes) :
    Prop :=
  match action with
  | .operate op => ((op.apply s.store.files).1.lookup f).isSome = true
  | .handle => False

/-- **When an entry is stray after an operation**: the operation has stranded
it, or it was stray and the file has not come back. -/
theorem stray_operate {s : Watch codec.Bytes} (op : Operation) (f : String) :
    Stray (s.operate op) f ↔
      Strands f (.operate op) s ∨
        (Stray s f ∧ ¬ Restores f (.operate op) s) := by
  have hqueue : pending f (s.operate op).queue = pending f s.queue ++
      pending f (delivered (op.apply s.store.files).2) :=
    pending_append f _ _
  have hentries : (s.operate op).entries = s.entries := rfl
  have hfiles : (s.operate op).store.files = (op.apply s.store.files).1 := rfl
  cases op.fate s.store.files f with
  | kept hsame hevents hstays =>
      rw [hevents, List.append_nil] at hqueue
      have hstray : Stray (s.operate op) f ↔ Stray s f := by
        constructor
        · intro h
          exact ⟨hsame.symm.trans h.gone, h.kept, hqueue ▸ h.unnoticed⟩
        · intro h
          exact ⟨hsame.trans h.gone, h.kept, hqueue.symm ▸ h.unnoticed⟩
      rw [hstray]
      constructor
      · intro h
        refine .inr ⟨h, ?_⟩
        rw [Restores, hsame, h.gone]
        exact Bool.false_ne_true
      · intro h
        exact (h.resolve_left (fun hleft => hstays hleft.1)).1
  | written hnow hevents hupdates hstays =>
      refine iff_of_false (fun h => nomatch hnow.symm.trans h.gone) ?_
      rintro (hleft | ⟨-, hrestores⟩)
      · exact hstays hleft.1
      · exact hrestores (by rw [Restores, hnow]; rfl)
  | deleted hbefore hgone hevents hstays =>
      refine iff_of_false ?_ ?_
      · intro h
        refine h.unnoticed ⟨.delete, some f⟩ ?_ rfl
        rw [hqueue, hevents]
        exact List.mem_concat_self
      · rintro (hleft | ⟨hstray, -⟩)
        · exact hstays hleft.1
        · rw [hstray.gone] at hbefore
          cases hbefore
  | departed hbefore hgone hevents hdeparts =>
      rw [hevents, List.append_nil] at hqueue
      constructor
      · intro h
        exact .inl ⟨hdeparts, h.kept, hqueue ▸ h.unnoticed⟩
      · rintro (⟨-, hkept, hunnoticed⟩ | ⟨hstray, -⟩)
        · exact ⟨hgone, hkept, hqueue.symm ▸ hunnoticed⟩
        · rw [hstray.gone] at hbefore
          cases hbefore

/-- Handling an event makes no stray entry and removes none. An entry whose
file is gone goes only with a deletion, and as long as one waits for it the
entry is no stray. -/
theorem stray_handled {s s' : Watch codec.Bytes} {event : InotifyEvent}
    {rest : List InotifyEvent} (hqueue : s.queue = event :: rest)
    (hspec : Handled fromStr event rest s s') {f : String}
    (hf : endsWith f ".toml" = true) : Stray s' f ↔ Stray s f := by
  have hpending := hspec.pending_eq hf
  have hbefore : pending f s.queue = if event.name = some f then
      event :: pending f rest else pending f rest := by
    rw [hqueue, pending_cons]
  by_cases hname : event.name = some f
  · rw [if_pos hname] at hbefore
    rcases hspec.entries with ⟨-, hother⟩ | ⟨g, hg, -, hentries⟩
    · exact absurd hname (hother f hf)
    · cases hg.symm.trans hname
      have hlook := @lookup_handledEntries fromStr
        s.store.files s.entries f f (event.mask = .delete)
      rw [← hentries, if_pos rfl] at hlook
      by_cases hdelete : event.mask = .delete
      · rw [if_pos (by simpa using hdelete)] at hlook
        refine iff_of_false ?_ ?_
        · intro h
          have hkept := h.kept
          rw [hlook] at hkept
          cases hkept
        · intro h
          refine h.unnoticed event ?_ hdelete
          rw [hbefore]
          exact List.mem_cons_self
      · rw [if_neg (by simpa using hdelete)] at hlook
        constructor
        · intro h
          have hgone := h.gone
          have hkept := h.kept
          rw [hspec.files] at hgone
          rw [hlook, hgone] at hkept
          refine ⟨hgone, hkept, ?_⟩
          rw [hbefore]
          intro e hin
          rcases List.mem_cons.mp hin with rfl | hin
          · exact hdelete
          · exact h.unnoticed e (hpending.symm ▸ hin)
        · intro h
          refine ⟨hspec.files ▸ h.gone, ?_, ?_⟩
          · rw [hlook, h.gone]
            exact h.kept
          · intro e hin
            refine h.unnoticed e ?_
            rw [hbefore]
            exact List.mem_cons_of_mem _ (hpending ▸ hin)
  · rw [if_neg hname] at hbefore
    have hsame : lookup ManifestEntry.filename s'.entries f =
        lookup ManifestEntry.filename s.entries f := by
      rcases hspec.entries with ⟨hsame, -⟩ | ⟨g, hg, -, hentries⟩
      · rw [hsame]
      · have hne : f ≠ g := fun heq => hname (heq ▸ hg)
        rw [hentries, lookup_handledEntries, if_neg hne]
    rw [← hbefore] at hpending
    constructor
    · intro h
      exact ⟨hspec.files ▸ h.gone, hsame ▸ h.kept, hpending ▸ h.unnoticed⟩
    · intro h
      exact ⟨hspec.files.symm ▸ h.gone, hsame.symm ▸ h.kept,
        hpending.symm ▸ h.unnoticed⟩

/-- **Strays** come from moving a file away, and go when it comes back. -/
theorem stray_step {s : Watch codec.Bytes} (h : UpToDate fromStr s)
    (action : WatchAction) {f : String} (hf : endsWith f ".toml" = true) :
    Stray (s.step fromStr codec dir action) f ↔
      Strands f action s ∨ (Stray s f ∧ ¬ Restores f action s) := by
  cases action with
  | operate op => exact stray_operate op f
  | handle =>
      have hsame : Stray (s.step fromStr codec dir .handle) f ↔
          Stray s f := by
        rw [Watch.step, if_neg (by rw [h.running]; exact Bool.false_ne_true)]
        cases hqueue : s.queue with
        | nil =>
            unfold Watch.handle
            rw [hqueue]
        | cons event rest =>
            have hevent := h.watched event (hqueue ▸ List.mem_cons_self)
            exact stray_handled hqueue (Watch.handle_spec hqueue hevent) hf
      rw [hsame, Strands, Restores]
      simp

/-! ### Whole runs -/

/-- The rounds that a queue takes, those for the watcher's own writing
included. -/
def rounds (queue : List InotifyEvent) : Nat :=
  (queue.map (fun event => if event.concernsToml then 3 else 1)).sum

/-- **The queue drains** when nothing else happens. Each round takes one event,
and those that it queues itself are about the manifest and make no further
round of writing. -/
theorem queue_drains (dir : String) :
    ∀ (n : Nat) (s : Watch codec.Bytes), UpToDate fromStr s →
      rounds s.queue ≤ n →
      ∃ k, (run (Watch.step fromStr codec dir) s
        (List.replicate k .handle)).queue = [] := by
  intro n
  induction n with
  | zero =>
      intro s _ hrounds
      refine ⟨0, ?_⟩
      change s.queue = []
      cases hqueue : s.queue with
      | nil => rfl
      | cons event rest =>
          rw [hqueue, rounds, List.map_cons, List.sum_cons] at hrounds
          split at hrounds <;> omega
  | succ n ih =>
      intro s h hrounds
      cases hqueue : s.queue with
      | nil => exact ⟨0, hqueue⟩
      | cons event rest =>
          have hstep : s.step fromStr codec dir .handle =
              s.handle fromStr codec dir := by
            rw [Watch.step,
              if_neg (by rw [h.running]; exact Bool.false_ne_true)]
          have hevent := h.watched event (hqueue ▸ List.mem_cons_self)
          have hspec : Handled fromStr event rest s
              (s.step fromStr codec dir .handle) := by
            rw [hstep]
            exact Watch.handle_spec hqueue hevent
          have hfewer : rounds (s.step fromStr codec dir .handle).queue ≤
              n := by
            have hown : rounds (delivered manifestEvents) = 2 := by decide
            rw [hqueue, rounds, List.map_cons, List.sum_cons] at hrounds
            rw [hspec.queue]
            by_cases hconcerns : event.concernsToml = true
            · rw [if_pos hconcerns] at hrounds ⊢
              rw [rounds, List.map_append, List.sum_append]
              rw [rounds] at hown
              omega
            · rw [if_neg hconcerns] at hrounds ⊢
              rw [rounds]
              omega
          obtain ⟨k, hk⟩ := ih _ (h.step .handle) hfewer
          exact ⟨k + 1, hk⟩

/-- A manifest that matches the directory: entries for its `.toml` files
only, not more than one for a file, and the current one for each that
parses. -/
structure Matches (fromStr : String → Except String ServiceDef)
    (store : Store codec.Bytes) : Prop where
  entries : Good (fun e => endsWith e.filename ".toml" = true)
    (stored codec store.manifest)
  found : ∀ e ∈ stored codec store.manifest,
    (store.files.lookup e.filename).isSome = true
  current : ∀ f file defn, endsWith f ".toml" = true →
    store.files.lookup f = some file →
    fromStr (trimEndNul file.text) = .ok defn →
    ∃ mtimeSecs, asSecs file.modified = .ok mtimeSecs ∧
      (stored codec store.manifest).filter (fun e => e.filename = f) =
        [⟨f, mtimeSecs, defn⟩]

/-- The watcher after it has brought the manifest up to date. -/
def Watch.started {Bytes : Type} (store : Store Bytes) : Watch Bytes :=
  ⟨store, [], false⟩

/-- A manifest that matches has no stray. -/
theorem Matches.no_stray {s : Watch codec.Bytes}
    (h : Matches fromStr s.store) (f : String) : ¬ Stray s f := by
  intro hstray
  obtain ⟨e, he⟩ := Option.isSome_iff_exists.mp hstray.kept
  obtain ⟨hmem, rfl⟩ := of_lookup he
  have hfound := h.found e hmem
  rw [hstray.gone] at hfound
  cases hfound

/-- A time has whole seconds since the epoch unless it is before. -/
theorem asSecs_eq_ok {t : SystemTime} :
    (∃ secs, asSecs t = .ok secs) ↔ 0 ≤ t := by
  unfold asSecs
  split
  · simpa
  · exact iff_of_true ⟨_, rfl⟩ (not_lt.mp ‹_›)

/-- A watcher that is started over a manifest that matches is up to date, with
an empty queue. -/
theorem UpToDate.of_matches {store : Store codec.Bytes}
    (h : Matches fromStr store) : UpToDate fromStr (Watch.started store) where
  running := rfl
  watched _ hin := nomatch hin
  entries := h.entries
  followed f hf file entry hfile hentry := by
    refine .inl ⟨rfl, ?_⟩
    unfold currentEntry at hentry
    split at hentry
    · next defn mtimeSecs hdefn hsecs =>
        cases hentry
        obtain ⟨secs, hsecs', hfilter⟩ := h.current f file defn hf hfile hdefn
        cases hsecs.symm.trans hsecs'
        exact (filter_eq_singleton h.entries.nodup).mp hfilter
    · cases hentry

/-- With an empty queue, what can be wrong is a stray or a time before the
epoch. -/
theorem UpToDate.matches_iff {s : Watch codec.Bytes}
    (h : UpToDate fromStr s) (hqueue : s.queue = []) :
    Matches fromStr s.store ↔
      (∀ f, endsWith f ".toml" = true → ¬ Stray s f) ∧
      ∀ f file defn, endsWith f ".toml" = true →
        s.store.files.lookup f = some file →
        fromStr (trimEndNul file.text) = .ok defn → 0 ≤ file.modified := by
  constructor
  · intro hmatches
    constructor
    · exact fun f _ => hmatches.no_stray f
    · intro f file defn hf hfile hdefn
      obtain ⟨secs, hsecs, -⟩ := hmatches.current f file defn hf hfile hdefn
      exact asSecs_eq_ok.mp ⟨secs, hsecs⟩
  · rintro ⟨hstrays, htimes⟩
    refine ⟨h.entries, ?_, ?_⟩
    · intro e hmem
      have htoml := h.entries.all e hmem
      cases hfile : s.store.files.lookup e.filename with
      | some file => rfl
      | none =>
          refine absurd ⟨hfile, ?_, ?_⟩ (hstrays e.filename htoml)
          · rw [lookup_of_mem h.entries.nodup hmem]
            rfl
          · rw [hqueue]
            exact fun _ hin => nomatch hin
    · intro f file defn hf hfile hdefn
      obtain ⟨secs, hsecs⟩ :=
        asSecs_eq_ok.mpr (htimes f file defn hf hfile hdefn)
      have hentry : currentEntry fromStr f file = some ⟨f, secs, defn⟩ := by
        rw [currentEntry, hdefn, hsecs]
      refine ⟨secs, hsecs, (filter_eq_singleton h.entries.nodup).mpr ?_⟩
      rcases h.followed f hf file _ hfile hentry with ⟨-, hlook⟩ | hlast
      · exact hlook
      · obtain ⟨event, hlast, -⟩ := hlast
        rw [hqueue] at hlast
        cases hlast

end Watched

/-- **flint-watch keeps the manifest current** exactly when no file with an
entry is moved away for good, and no file that parses has a time before the
epoch. -/
theorem manifest_followed_iff (fromStr : String → Except String ServiceDef)
    (codec : Bincode) (dir : String) (store : Store codec.Bytes)
    (actions : List WatchAction) (hstart : Matches fromStr store)
    (hdone : (run (Watch.step fromStr codec dir) (Watch.started store)
      actions).queue = []) :
    let step := Watch.step fromStr codec dir
    let last := (run step (Watch.started store) actions).store
    Matches fromStr last ↔
      (∀ f, endsWith f ".toml" = true →
        ¬ SetForGood step (Strands f) (Restores f) (Watch.started store)
          actions) ∧
      ∀ f file defn, endsWith f ".toml" = true →
        last.files.lookup f = some file →
        fromStr (trimEndNul file.text) = .ok defn → 0 ≤ file.modified := by
  intro step last
  have hbegin := UpToDate.of_matches hstart
  have hend : UpToDate fromStr (run step (Watch.started store) actions) := by
    apply run_invariant (UpToDate fromStr) ?_ actions _
      (Meets.trivial _ actions) hbegin
    exact fun action s _ h => h.step action
  have hstrays : ∀ f, endsWith f ".toml" = true →
      (Stray (run step (Watch.started store) actions) f ↔
        SetForGood step (Strands f) (Restores f) (Watch.started store)
          actions) := by
    intro f hf
    have hnone : ¬ Stray (Watch.started store) f := hstart.no_stray f
    have hinv : ∀ action s, UpToDate fromStr s →
        UpToDate fromStr (step action s) := fun action s h => h.step action
    have hstep : ∀ action s, UpToDate fromStr s →
        (Stray (step action s) f ↔
          Strands f action s ∨ (Stray s f ∧ ¬ Restores f action s)) :=
      fun action s h => stray_step h action hf
    have hfault := run_fault_iff (UpToDate fromStr) (Stray · f) hinv hstep
      actions _ hbegin
    exact hfault.trans (or_iff_left (fun h => hnone h.1))
  refine (hend.matches_iff hdone).trans (and_congr_left' ?_)
  exact forall₂_congr (fun f hf => not_congr (hstrays f hf))

/-- The first version of a service, and a manifest that matches it. -/
def firstStore : Store Bincode.plain.Bytes :=
  ⟨0, firstVersion, some ⟨manifestVersion, [⟨"db.toml", 0, dbVersion "1"⟩]⟩,
    none⟩

/-- The manifest of the first version matches its directory. -/
theorem firstStore_matches : Matches parseDbVersion firstStore where
  entries := ⟨by decide, by decide⟩
  found := by decide
  current := by
    intro f file defn hf hfile hdefn
    change ((∅ : Files).insert "db.toml" _).lookup f = some file at hfile
    rw [lookup_insert_eq] at hfile
    split at hfile
    · next hname =>
        subst hname
        cases hfile
        have hparse : parseDbVersion (trimEndNul (dbVersionToml "1")) =
            .ok (dbVersion "1") := by decide +kernel
        cases hparse.symm.trans hdefn
        exact ⟨0, rfl, rfl⟩
    · cases hfile

/-- The watcher over some operations. -/
def watched (actions : List WatchAction) : Watch Bincode.plain.Bytes :=
  run (Watch.step parseDbVersion .plain "/etc/flint/services")
    (Watch.started firstStore) actions

/-- The file is deleted, and the second version moved in before the watcher
looks. -/
def replaced : List WatchAction :=
  [.operate (.delete "db.toml"),
    .operate (.moveIn "db.toml" ⟨1000000000, dbVersionToml "2"⟩)] ++
    List.replicate 6 .handle

/-- The file is gone and another one is there before the watcher looks; the
manifest follows. -/
theorem manifest_followed_iff_replaced :
    Matches parseDbVersion (watched replaced).store := by
  have hdone : (watched replaced).queue = [] := by decide +kernel
  apply (manifest_followed_iff parseDbVersion .plain "/etc/flint/services"
    firstStore replaced firstStore_matches hdone).mpr
  constructor
  · intro f _ hset
    simp [replaced, SetForGood, Strands, Operation.departing] at hset
  · intro f file defn _ hfile _
    have hfiles : (watched replaced).store.files =
        (firstVersion.erase "db.toml").insert "db.toml"
          ⟨1000000000, dbVersionToml "2"⟩ :=
      AList.ext (by decide +kernel)
    change (watched replaced).store.files.lookup f = some file at hfile
    rw [hfiles, lookup_insert_eq, lookup_erase_eq] at hfile
    by_cases hname : f = "db.toml"
    · rw [if_pos hname] at hfile
      cases hfile
      decide
    · rw [if_neg hname, if_neg hname] at hfile
      change ((∅ : Files).insert "db.toml" _).lookup f = some file at hfile
      rw [lookup_insert_eq, if_neg hname] at hfile
      cases hfile

/-- **A disabled service stays in the manifest.**  Its file is renamed, and no
event of the watch mask says that the old name is gone. -/
theorem renamed_file_stays_in_manifest :
    let last := watched [.operate (.rename "db.toml" "db.toml.disabled"),
      .handle]
    Matches parseDbVersion firstStore ∧ last.queue = [] ∧
      ¬ Matches parseDbVersion last.store := by
  intro last
  refine ⟨firstStore_matches, by decide +kernel, ?_⟩
  intro h
  have hentry : (⟨"db.toml", 0, dbVersion "1"⟩ : ManifestEntry) ∈
      stored .plain last.store.manifest := by decide +kernel
  have hgone : (last.store.files.lookup "db.toml").isSome = false := by
    decide +kernel
  rw [h.found _ hentry] at hgone
  cases hgone

end FlintInit
