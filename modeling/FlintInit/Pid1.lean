import FlintInit.Mounts

/-!
# The first process

`pid1.rs`: `setup` mounts the kernel's file systems before anything starts,
and `supervise_forever` detaches the others and stops the machine.

Each is the list of what it does, given what the system answers.  The kernel's
file systems are mounted alike, but for what is said when one is there already
and for the cgroup hierarchy, which may fail.
-/

namespace FlintInit

/-! ## Runtime directories -/

def octalDigit (c : Char) : Option Nat :=
  if '0' ≤ c ∧ c ≤ '7' then some (c.toNat - '0'.toNat) else none

/-- `u32::from_str_radix` to the base 8. -/
def parseOctal (s : String) : Option Nat :=
  let digits :=
    match s.toList with
    | '+' :: rest => rest
    | cs => cs
  if digits = [] then none
  else
    match digits.mapM octalDigit with
    | none => none
    | some ds =>
        let value := ds.foldl (fun value d => 8 * value + d) 0
        if value < 0x100000000 then some value else none

/-- The directory and the mode a line of tmpfiles.d declares, if it has type
`d` or `D`. -/
def tmpfilesLine (line : String) : Option (String × Nat) :=
  let line := trim line
  if startsWith line "#" || line == "" then none
  else
    match splitWhitespace line with
    | kind :: dirPath :: rest =>
        if kind = "d" ∨ kind = "D" then
          some (dirPath, (rest.head?.bind parseOctal).getD 0o755)
        else none
    | _ => none

section Tmpfiles

variable (readDir : String → Except IoError (List (Except IoError String)))
  (readToString : String → Except IoError String)

/-- What one file of a directory declares; one that cannot be read declares
nothing. -/
def tmpfilesConf (confDir filename : String) : List (String × Nat) :=
  if extension filename ≠ some "conf" then []
  else
    match readToString (join confDir filename) with
    | .error _ => []
    | .ok content => (lines content).filterMap tmpfilesLine

/-- The directories `apply_tmpfiles` creates. -/
def applyTmpfiles : List (String × Nat) :=
  ["/usr/lib/tmpfiles.d", "/etc/tmpfiles.d"].flatMap (fun confDir =>
    match readDir confDir with
    | .error _ => []
    | .ok entries => (entries.filterMap Except.toOption).flatMap
        (tmpfilesConf readToString confDir))

end Tmpfiles

example : tmpfilesLine "d /run/sshd 0750 root root -" =
      some ("/run/sshd", 0o750) ∧
    tmpfilesLine " D\t/run/lock - " = some ("/run/lock", 0o755) ∧
    tmpfilesLine "L /run/shm" = none := by
  decide

/-! ## Setting up -/

/-- Why a mount fails: the file system is mounted there already, or another
reason. -/
inductive MountError where
  | busy
  | other (text : String)
  deriving DecidableEq

def MountError.text : MountError → String
  | .busy => "EBUSY: Device or resource busy"
  | .other text => text

/-- Why `setup` fails: what it was about, and the cause. -/
structure SetupError where
  context : String
  cause : String
  deriving DecidableEq

/-- What setting up does to the system and prints. -/
inductive SetupEvent where
  | mounts (e : MountEvent)
  | makeDirs (path : String) (mode : Nat)
  | symlink (original link : String)
  | redirectStderr
  deriving DecidableEq

/-- What the system answers.  Each directory to be created and each mount may
be answered differently; they are counted from 0. -/
structure SetupAnswers where
  isInit : Bool
  createDirAll : Nat → String → Except IoError Unit
  mount : Nat → MountRequest → Except MountError Unit
  readDir : String → Except IoError (List (Except IoError String))
  readToString : String → Except IoError String
  kmsgOpens : Bool

/-- What a part of the setup does, and how it ends. -/
abbrev SetupPart := List SetupEvent × Except SetupError Unit

/-- One part after another, unless it fails. -/
def SetupPart.andThen (first next : SetupPart) : SetupPart :=
  match first.2 with
  | .error _ => first
  | .ok () => (first.1 ++ next.1, next.2)

/-- A file system of the kernel: what is mounted where, what is printed when
it is there already, and what is printed when mounting it fails, if that is
not fatal. -/
structure EarlyMount where
  source : String
  target : String
  fstype : String
  data : Option String
  busy : String
  failed : Option String

def EarlyMount.request (m : EarlyMount) : MountRequest :=
  ⟨m.source, m.target, m.fstype, ∅, m.data⟩

/-- The `k`th directory and mount of the setup, for the kernel's file
systems. -/
def earlyMount (sys : SetupAnswers) (k : Nat) (m : EarlyMount) : SetupPart :=
  let create : SetupEvent := .mounts (.createDirAll m.target)
  match sys.createDirAll k m.target with
  | .error e => ([create], .error ⟨"create " ++ m.target, e.text⟩)
  | .ok () =>
      let tried := [create, .mounts (.mount m.request)]
      match sys.mount k m.request with
      | .ok () => (tried, .ok ())
      | .error .busy => (tried ++ [.mounts (.eprintln m.busy)], .ok ())
      | .error (.other e) =>
          match m.failed with
          | none => (tried, .error ⟨"mount " ++ m.target, e⟩)
          | some text => (tried ++ [.mounts (.eprintln (text ++ e))], .ok ())

def procMount : EarlyMount where
  source := "proc"
  target := "/proc"
  fstype := "proc"
  data := none
  busy := "[pid1] /proc already mounted (initramfs), skipping"
  failed := none

def sysMount : EarlyMount where
  source := "sysfs"
  target := "/sys"
  fstype := "sysfs"
  data := none
  busy := "[pid1] /sys already mounted (initramfs), skipping"
  failed := none

def runMount : EarlyMount where
  source := "tmpfs"
  target := "/run"
  fstype := "tmpfs"
  data := some "mode=755,size=128m"
  busy := "[pid1] /run already mounted, skipping"
  failed := none

def cgroupMount : EarlyMount where
  source := "cgroup2"
  target := "/sys/fs/cgroup"
  fstype := "cgroup2"
  data := none
  busy := "[pid1] /sys/fs/cgroup already mounted, skipping"
  failed := some "[pid1] /sys/fs/cgroup mount failed: "

def devMount : EarlyMount where
  source := "devtmpfs"
  target := "/dev"
  fstype := "devtmpfs"
  data := none
  busy := "[pid1] /dev already mounted by kernel (DEVTMPFS_MOUNT=y), skipping"
  failed := none

/-- The links and the redirection that follow `/dev`. -/
def devLinks (sys : SetupAnswers) : List SetupEvent :=
  [.symlink "/proc/self/fd" "/dev/fd",
    .symlink "/proc/self/fd/0" "/dev/stdin",
    .symlink "/proc/self/fd/1" "/dev/stdout",
    .symlink "/proc/self/fd/2" "/dev/stderr"] ++
  (if sys.kmsgOpens then [.redirectStderr] else [])

/-- What the entries of fstab lead to, after the five early mounts. -/
def fstabMounts (sys : SetupAnswers) : List MountEvent :=
  mountAll (fun k => sys.createDirAll (5 + k))
    (fun k request => (sys.mount (5 + k) request).mapError MountError.text)
    sys.readToString

/-- Mount essential kernel filesystems. No-op when not running as PID 1. -/
def setup (sys : SetupAnswers) : SetupPart :=
  if sys.isInit = false then ([], .ok ())
  else
    (earlyMount sys 0 procMount).andThen <|
    (earlyMount sys 1 sysMount).andThen <|
    (earlyMount sys 2 runMount).andThen <|
    SetupPart.andThen
      ((applyTmpfiles sys.readDir sys.readToString).map
        (fun dir => .makeDirs dir.1 dir.2), .ok ()) <|
    (earlyMount sys 3 cgroupMount).andThen <|
    (earlyMount sys 4 devMount).andThen
      (devLinks sys ++ (fstabMounts sys).map .mounts ++
        [.mounts (.eprintln
          "[pid1] mounted /proc, /sys, /sys/fs/cgroup, /dev")], .ok ())

/-! ## Stopping the machine -/

inductive RebootMode where
  | autoboot
  | haltSystem
  deriving DecidableEq

inductive HaltEvent where
  | mounts (e : MountEvent)
  | reboot (mode : RebootMode)
  deriving DecidableEq

/-- What the system answers: to the calls of each run of `unmount_all`, and
whether `reboot` comes back. -/
structure HaltAnswers where
  umount2 : Nat → String → Except String Unit
  readToString : Nat → String → Except IoError String
  returns : RebootMode → Bool

/-- Detaching the file systems for the `k`th time, and asking for the end. -/
def stopMachine (sys : HaltAnswers) (k : Nat) (text : String)
    (mode : RebootMode) : List HaltEvent :=
  (unmountAll (sys.umount2 k) (sys.readToString k)).map .mounts ++
    [.mounts (.eprintln text), .reboot mode]

/-- Called after the executor returns, up to the loop that reaps zombies.
`onExit` is the variable `FLINT_ON_EXIT`. -/
def superviseForever (sys : HaltAnswers) (reboot : Bool)
    (onExit : Option String) : List HaltEvent :=
  let first :=
    if reboot then stopMachine sys 0 "[pid1] rebooting" .autoboot else []
  if reboot && !sys.returns .autoboot then first
  else
    let k := if reboot then 1 else 0
    let (text, mode) : String × RebootMode :=
      match onExit with
      | some "halt" => ("[pid1] FLINT_ON_EXIT=halt — halting", .haltSystem)
      | some "reboot" =>
          ("[pid1] FLINT_ON_EXIT=reboot — rebooting", .autoboot)
      | _ => ("[pid1] all services done — halting", .haltSystem)
    first ++ stopMachine sys k text mode ++
      (if sys.returns mode then
        [.mounts (.eprintln "[pid1] entering zombie-reap loop")] else [])

end FlintInit
