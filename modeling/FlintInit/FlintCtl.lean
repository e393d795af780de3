import FlintInit.Cache
import FlintInit.Catalog
import Mathlib.Data.Stream.Init

/-!
# `flint-ctl get`

`cmd_get` checks the requested name against the catalog once, and
`fetch_and_install` then installs it and, on request, whatever it needs, by
calling itself.  The recursion is bounded by a depth here; a call that reaches
the bound ends as `running`, with all that was written before.

The file system is given by what the program relies on: a file that was
written is there, under every path that names it, and nothing disappears.
-/

namespace FlintInit.Get

open Collections

/-! ## The surroundings -/

/-- A file system; `locate` says which file a path names. -/
structure FileSystem {File : Type} (locate : String → File) where
  State : Type
  onDisk : State → String → Bool
  createDirAll : State → String → Except IoError State
  write : State → String → String → Except IoError State
  onDisk_write : ∀ {disk disk' : State} {path content : String},
    write disk path content = .ok disk' →
    ∀ path', locate path' = locate path → onDisk disk' path' = true
  write_keeps : ∀ {disk disk' : State} {path content : String},
    write disk path content = .ok disk' →
    ∀ path', onDisk disk path' = true → onDisk disk' path' = true
  createDirAll_keeps : ∀ {disk disk' : State} {path : String},
    createDirAll disk path = .ok disk' →
    ∀ path', onDisk disk path' = true → onDisk disk' path' = true

/-- The file system that is the set of its files, with no write failing. -/
@[reducible] def FileSystem.ofFiles {File : Type} [DecidableEq File]
    (locate : String → File) : FileSystem locate where
  State := File → Bool
  onDisk files path := files (locate path)
  createDirAll files _ := .ok files
  write files path _ := .ok (fun file => file = locate path || files file)
  onDisk_write := by
    rintro files _ path content ⟨⟩ path' heq
    simp [heq]
  write_keeps := by
    rintro files _ path content ⟨⟩ path' hthere
    simp [hthere]
  createDirAll_keeps := by
    rintro files _ path ⟨⟩ path' hthere
    exact hthere

/-- What a call prints and writes. -/
inductive Event where
  | stdout (text : String)
  | stderr (text : String)
  | wrote (path content : String)
  deriving DecidableEq

/-- How a call ends: it returns, the process exits, or it is still running at
the bound on the depth. -/
inductive Ending where
  | returned
  | exited
  | running
  deriving DecidableEq

variable {File : Type} {locate : String → File}

/-- The process while `flint-ctl get` runs: the disk, the lines it will read
from its standard input, and what it has done so far. -/
structure Session (fs : FileSystem locate) where
  disk : fs.State
  input : Stream' String
  log : List Event

namespace Session

variable {fs : FileSystem locate}

def record (s : Session fs) (e : Event) : Session fs :=
  { s with log := s.log ++ [e] }

/-- Print a warning, if there is one. -/
def warn (s : Session fs) (warning : Option String) : Session fs :=
  warning.elim s (fun text => s.record (.stderr text))

/-- A warning is a line on stderr, and no warning is no line. -/
theorem warn_eq (s : Session fs) (warning : Option String) :
    s.warn warning =
      { s with log := s.log ++ warning.toList.map Event.stderr } := by
  cases warning <;> simp [warn, record]

/-- An error is printed and the process exits. -/
def exit (s : Session fs) (text : String) : Ending × Session fs :=
  (.exited, s.record (.stderr text))

end Session

/-! ## The commands -/

/-- Whether a line of input says yes.  Beyond ASCII no character has `y`, `e`
or `s` for its lowercase. -/
def isYes (line : String) : Bool :=
  let word := String.ofList ((trim line).toList.map Char.toLower)
  word = "y" ∨ word = "yes"

def Session.prompt {fs : FileSystem locate} (s : Session fs) (msg : String) :
    Bool × Session fs :=
  (isYes s.input.head, { s.record (.stdout msg) with input := s.input.tail })

/-- `y` is a yes, as the prompt says. -/
theorem isYes_y : isYes "y" = true := by decide +kernel

/-- An empty line is a no, as the prompt's `[y/N]` says. -/
theorem isYes_empty : isYes "" = false := by decide +kernel

/-- A prompt prints its question and takes one line of the input. -/
@[simp] theorem Session.prompt_cons {fs : FileSystem locate} (disk : fs.State)
    (line : String) (rest : Stream' String) (log : List Event) (msg : String) :
    (⟨disk, Stream'.cons line rest, log⟩ : Session fs).prompt msg =
      (isYes line, ⟨disk, rest, log ++ [.stdout msg]⟩) := rfl

/-- `SERVICES_DIR`. -/
def servicesDir : String := "/etc/flint/services"

/-- The file a service is installed in. -/
def servicePath (name : String) : String :=
  join servicesDir (name ++ ".toml")

/-- The question whether a missing dependency is to be fetched. -/
def requiresQuestion (name dep : String) : String :=
  name ++ " requires " ++ dep ++ " — fetch it too? [y/N] "

/-- The warning about a dependency that is not fetched. -/
def missingWarning (name dep : String) : String :=
  "warning: " ++ name ++ " installed but " ++ dep ++ " is missing."

section Install

variable (get : String → Response) (fromStr : String → Except String ServiceDef)
  (distro : String) {fs : FileSystem locate}

/-- Whether an installed service is to be overwritten. -/
def mayWrite (name : String) (s : Session fs) : Bool × Session fs :=
  if fs.onDisk s.disk (servicePath name) then
    s.prompt (name ++ ".toml already exists — overwrite? [y/N] ")
  else (true, s)

/-- Fetch a definition and write it.  Gives the dependencies that were missing
before, or the message the process exits with. -/
def writeService (name : String) (s : Session fs) :
    Except String (List String × Session fs) :=
  let dest := servicePath name
  match fetchServiceToml get distro name with
  | .error e => .error ("flint-ctl: " ++ e)
  | .ok tomlStr =>
      match missingDeps fromStr (fs.onDisk s.disk) tomlStr servicesDir with
      | .error e =>
          .error ("flint-ctl: failed to parse deps for " ++ name ++ ": " ++ e)
      | .ok missing =>
          match fs.createDirAll s.disk servicesDir with
          | .error e =>
              .error ("flint-ctl: cannot create " ++ servicesDir ++ ": " ++
                e.text)
          | .ok disk =>
              match fs.write disk dest tomlStr with
              | .error e =>
                  .error ("flint-ctl: cannot write " ++ dest ++ ": " ++ e.text)
              | .ok disk =>
                  .ok (missing,
                    ({ s with disk := disk }.record (.wrote dest tomlStr)).record
                      (.stdout ("installed: " ++ dest)))

/-- The loop over the missing dependencies, and the warnings after it. -/
def installDeps (install : String → Session fs → Ending × Session fs)
    (name : String) :
    List String → List String → Session fs → Ending × Session fs
  | [], skipped, s =>
      (.returned, skipped.foldl
        (fun s dep => s.record (.stderr (missingWarning name dep))) s)
  | dep :: rest, skipped, s =>
      match s.prompt (requiresQuestion name dep) with
      | (true, s) =>
          match install dep s with
          | (.returned, s) => installDeps install name rest skipped s
          | (.exited, s) => (.exited, s)
          | (.running, s) => (.running, s)
      | (false, s) => installDeps install name rest (skipped ++ [dep]) s

/-- `fetch_and_install`, down to a depth. -/
def fetchAndInstall : Nat → String → Session fs → Ending × Session fs
  | 0, _, s => (.running, s)
  | depth + 1, name, s =>
      match mayWrite name s with
      | (false, s) => (.returned, s)
      | (true, s) =>
          match writeService get fromStr distro name s with
          | .error e => s.exit e
          | .ok (missing, s) =>
              installDeps (fetchAndInstall depth) name missing [] s

end Install

/-- `cmd_get`, with the answer to the request for the catalog and the text of
`/etc/os-release`. -/
def cmdGet (get : String → Response)
    (fromStr : String → Except String ServiceDef)
    (osRelease : Option String) (catalog : Except String Catalog)
    {fs : FileSystem locate} (depth : Nat) (name : String)
    (s : Session fs) : Ending × Session fs :=
  let distro := (detectDistro osRelease).1
  let s := s.warn (detectDistro osRelease).2
  match catalog with
  | .error e => s.exit ("flint-ctl: " ++ e)
  | .ok cat =>
      match cat.lookup name with
      | none =>
          s.exit ("flint-ctl: \"" ++ name ++ "\" not found in catalog. " ++
            "Run flint-ctl get --list to see available services.")
      | some entry =>
          if entry.availableFor distro then
            fetchAndInstall get fromStr distro depth name s
          else
            s.exit ("flint-ctl: \"" ++ name ++ "\" is not available for " ++
              distro ++ ".")

/-- Whether the catalog has the service, for this distro. -/
def Offers (cat : Catalog) (distro name : String) : Prop :=
  ∃ entry, cat.lookup name = some entry ∧ entry.availableFor distro = true

/-- `get` installs what the catalogue offers for the distribution, and refuses
everything else. -/
theorem cmdGet_cases (get : String → Response)
    (fromStr : String → Except String ServiceDef) (osRelease : Option String)
    (cat : Catalog) {fs : FileSystem locate} (depth : Nat) (name : String)
    (s : Session fs) :
    (Offers cat (detectDistro osRelease).1 name ∧
      cmdGet get fromStr osRelease (.ok cat) depth name s =
        fetchAndInstall get fromStr (detectDistro osRelease).1 depth name
          (s.warn (detectDistro osRelease).2)) ∨
    (¬ Offers cat (detectDistro osRelease).1 name ∧
      ∃ e, cmdGet get fromStr osRelease (.ok cat) depth name s =
        (s.warn (detectDistro osRelease).2).exit e) := by
  simp only [cmdGet, Offers]
  cases cat.lookup name with
  | none => exact .inr ⟨by simp, _, rfl⟩
  | some entry =>
      cases havailable : entry.availableFor (detectDistro osRelease).1 with
      | true => exact .inl ⟨⟨entry, rfl, havailable⟩, if_pos havailable⟩
      | false =>
          have hnot : ¬ entry.availableFor (detectDistro osRelease).1 = true := by
            simp [havailable]
          refine .inr ⟨?_, _, if_neg hnot⟩
          rintro ⟨entry', hentry, hoffered⟩
          cases hentry
          exact hnot hoffered

/-! ## What every call keeps -/

/-- The log goes on, and no file disappears. -/
structure Extends {fs : FileSystem locate} (s s' : Session fs) : Prop where
  log : s.log <+: s'.log
  onDisk : ∀ path, fs.onDisk s.disk path = true →
    fs.onDisk s'.disk path = true

namespace Extends

variable {fs : FileSystem locate} {s s' s'' : Session fs}

/-- A session extends itself. -/
theorem refl (s : Session fs) : Extends s s :=
  ⟨List.prefix_rfl, fun _ h => h⟩

/-- What a longer session extends, it extends through each part of it. -/
theorem trans (h : Extends s s') (h' : Extends s' s'') : Extends s s'' :=
  ⟨h.log.trans h'.log, fun path hpath => h'.onDisk path (h.onDisk path hpath)⟩

/-- Recording an event touches no file. -/
theorem record (s : Session fs) (e : Event) : Extends s (s.record e) :=
  ⟨List.prefix_append _ _, fun _ h => h⟩

/-- Nor does a question. -/
theorem prompt (s : Session fs) (msg : String) : Extends s (s.prompt msg).2 :=
  ⟨List.prefix_append _ _, fun _ h => h⟩

end Extends

section Rules

variable {get : String → Response}
  {fromStr : String → Except String ServiceDef} {distro : String}
  {fs : FileSystem locate} {s s' : Session fs} {name : String}

/-- The question about an installed service changes nothing on the disk, and
writes nothing. -/
theorem mayWrite_eq {may : Bool} (h : mayWrite name s = (may, s')) :
    s'.disk = s.disk ∧ ∃ asked : List Event, s'.log = s.log ++ asked ∧
      ∀ path content, Event.wrote path content ∉ asked := by
  have hsnd : (mayWrite name s).2 = s' := congrArg Prod.snd h
  subst hsnd
  unfold mayWrite
  split
  · exact ⟨rfl, [_], rfl, by simp⟩
  · exact ⟨rfl, [], by simp, by simp⟩

/-- A file that is not to be written is there already. -/
theorem onDisk_of_mayWrite (h : mayWrite name s = (false, s')) :
    fs.onDisk s'.disk (servicePath name) = true := by
  rw [(mayWrite_eq h).1]
  unfold mayWrite at h
  split at h
  · rename_i hthere
    exact hthere
  · exact absurd (congrArg Prod.fst h) (by simp)

/-- Nor does the question whether an existing file may be replaced. -/
theorem extends_mayWrite {may : Bool} (h : mayWrite name s = (may, s')) :
    Extends s s' := by
  obtain ⟨hdisk, asked, hlog, -⟩ := mayWrite_eq h
  exact ⟨⟨asked, hlog.symm⟩, fun path hpath => by rwa [hdisk]⟩

/-- What a successful write has done: the definition was fetched under the
service's name, the missing dependencies are those of the disk before, and the
file is there afterwards. -/
structure Written (get : String → Response)
    (fromStr : String → Except String ServiceDef) (distro name : String)
    (s : Session fs) (missing : List String) (s' : Session fs)
    (tomlStr : String) (defn : ServiceDef) : Prop where
  fetched : fetchServiceToml get distro name = .ok tomlStr
  parsed : fromStr tomlStr = .ok defn
  missing : missing = defn.needs.filter
    (fun dep => !fs.onDisk s.disk (servicePath dep))
  keeps : ∀ path, fs.onDisk s.disk path = true →
    fs.onDisk s'.disk path = true
  installed : ∀ path, locate path = locate (servicePath name) →
    fs.onDisk s'.disk path = true
  log : s'.log = s.log ++ [.wrote (servicePath name) tomlStr,
    .stdout ("installed: " ++ servicePath name)]

/-- A service that has been written was fetched and parsed, and its missing
needs were found. -/
theorem writeService_ok {missing : List String}
    (h : writeService get fromStr distro name s = .ok (missing, s')) :
    ∃ tomlStr defn,
      Written get fromStr distro name s missing s' tomlStr defn := by
  unfold writeService at h
  dsimp only at h
  split at h
  · cases h
  rename_i tomlStr hfetch
  split at h
  · cases h
  rename_i missing' hmissing
  split at h
  · cases h
  rename_i disk hcreate
  split at h
  · cases h
  rename_i disk' hwrite
  cases h
  obtain ⟨defn, hparse, rfl⟩ := missingDeps_eq_ok.mp hmissing
  exact ⟨tomlStr, defn,
    { fetched := hfetch
      parsed := hparse
      missing := rfl
      keeps := fun path hpath => fs.write_keeps hwrite path
        (fs.createDirAll_keeps hcreate path hpath)
      installed := fs.onDisk_write hwrite
      log := by simp [Session.record] }⟩

/-- Writing a service removes no file: it only replaces the one under its name.
-/
theorem Written.extends {missing : List String} {tomlStr : String}
    {defn : ServiceDef}
    (h : Written get fromStr distro name s missing s' tomlStr defn) :
    Extends s s' :=
  ⟨⟨_, h.log.symm⟩, h.keeps⟩

/-- The rule of the loop: what holds before it, and is kept by the questions,
the warnings and every installation, holds however it ends. -/
theorem installDeps_post (Post : Ending → Session fs → Prop)
    {install : String → Session fs → Ending × Session fs}
    (hwarn : ∀ s text, Post .returned s →
      Post .returned (s.record (.stderr text)))
    (hprompt : ∀ s msg, Post .returned s → Post .returned (s.prompt msg).2)
    {missing : List String}
    (hinstall : ∀ dep ∈ missing, ∀ s, Post .returned s →
      Post (install dep s).1 (install dep s).2)
    {skipped : List String} (h : Post .returned s) :
    Post (installDeps install name missing skipped s).1
      (installDeps install name missing skipped s).2 := by
  induction missing generalizing skipped s with
  | nil =>
      simp only [installDeps]
      induction skipped generalizing s with
      | nil => exact h
      | cons dep rest ih => exact ih (hwarn _ _ h)
  | cons dep rest ih =>
      have hrest := fun dep' hmem => hinstall dep' (List.mem_cons_of_mem _ hmem)
      have hasked := hprompt s (requiresQuestion name dep) h
      rw [installDeps]
      split
      · rename_i s₁ heq
        rw [heq] at hasked
        have hdone := hinstall dep List.mem_cons_self s₁ hasked
        split
        all_goals rename_i s₂ hend; rw [hend] at hdone
        · exact ih hrest hdone
        · exact hdone
        · exact hdone
      · rename_i s₁ heq
        rw [heq] at hasked
        exact ih hrest hasked

variable (get fromStr distro) in
/-- The ways through one call. -/
theorem fetchAndInstall_cases (depth : Nat) (name : String) (s : Session fs) :
    (∃ s₁, mayWrite name s = (false, s₁) ∧
      fetchAndInstall get fromStr distro (depth + 1) name s =
        (.returned, s₁)) ∨
    (∃ s₁ e, mayWrite name s = (true, s₁) ∧
      fetchAndInstall get fromStr distro (depth + 1) name s = s₁.exit e) ∨
    (∃ s₁ missing s₂ tomlStr defn, mayWrite name s = (true, s₁) ∧
      Written get fromStr distro name s₁ missing s₂ tomlStr defn ∧
      fetchAndInstall get fromStr distro (depth + 1) name s =
        installDeps (fetchAndInstall get fromStr distro depth) name missing []
          s₂) := by
  rw [fetchAndInstall]
  split
  · rename_i s₁ hmay
    exact .inl ⟨s₁, hmay, rfl⟩
  · rename_i s₁ hmay
    split
    · rename_i e _
      exact .inr (.inl ⟨s₁, e, hmay, rfl⟩)
    · rename_i missing s₂ hwrite
      obtain ⟨tomlStr, defn, hwritten⟩ := writeService_ok hwrite
      exact .inr (.inr ⟨s₁, missing, s₂, tomlStr, defn, hmay, hwritten, rfl⟩)

variable (name) in
/-- The loop over the dependencies keeps what each installation keeps. -/
theorem extends_installDeps
    {install : String → Session fs → Ending × Session fs}
    (hinstall : ∀ dep s, Extends s (install dep s).2)
    (missing skipped : List String) (s : Session fs) :
    Extends s (installDeps install name missing skipped s).2 :=
  installDeps_post (fun _ => Extends s)
    (fun s' _ h => h.trans (.record s' _))
    (fun s' _ h => h.trans (.prompt s' _))
    (fun dep _ s' h => h.trans (hinstall dep s')) (.refl s)

/-- A call extends the log and the disk, at whatever depth it is cut. -/
theorem extends_fetchAndInstall (depth : Nat) (name : String)
    (s : Session fs) :
    Extends s (fetchAndInstall get fromStr distro depth name s).2 := by
  induction depth generalizing name s with
  | zero => exact .refl s
  | succ depth ih =>
      obtain ⟨s₁, hmay, heq⟩ | ⟨s₁, e, hmay, heq⟩ |
        ⟨s₁, missing, s₂, tomlStr, defn, hmay, hwritten, heq⟩ :=
        fetchAndInstall_cases get fromStr distro depth name s
      · rw [heq]
        exact extends_mayWrite hmay
      · rw [heq]
        exact (extends_mayWrite hmay).trans (.record s₁ _)
      · rw [heq]
        exact ((extends_mayWrite hmay).trans hwritten.extends).trans
          (extends_installDeps name ih missing [] s₂)

end Rules

end FlintInit.Get
