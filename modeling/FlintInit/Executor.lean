import FlintInit.Graph

/-!
# The supervisor loop

`executor::run_with_marker` as a step function.  The locals of the source are
the fields of `State`, the place in the loop is its `Phase`, and everything
the loop asks the outside world during one step is a `World`: the next command
and readiness message, the answers of `waitpid`, `fork`, the user database and
the file system, the shutdown flag, and the order in which `pid_to_name`
happens to be enumerated.  `step` is total, so every list of worlds is a run
and every interleaving of messages, exits and commands is one of them.

The fields after `phase` are a record of what happened (`log`, `removed`,
`kills`, `replies`, `marker`); no decision reads them.  A panic and an error
return are phases.  Entering the shutdown branch leaves the loop with the
children as they are; the branch itself only signals and reaps them.
-/

namespace FlintInit

open Collections

abbrev Pid := Nat

/-- The sending end a command is to be answered on. -/
abbrev ReplySender := Nat

def maxRestarts : Nat := 5

inductive ServiceState where
  | pending
  | running (pid : Pid)
  | ready
  | exited (code : Int)
  | failed
  deriving DecidableEq

inductive ExecutorError where
  | fork (errno : String)
  | emptyExec (service : String)
  | unknownUser (service user : String)
  deriving DecidableEq

/-- Why a command is refused. -/
inductive ReplyError where
  | alreadyRunning (service : String)
  | unknownService (service : String)
  | spawnFailed (e : ExecutorError)
  | cannotRead (path e : String)
  | parseError (e : String)
  deriving DecidableEq

def ExecutorError.debug : ExecutorError → String
  | .fork errno => "Fork(" ++ errno ++ ")"
  | .emptyExec service => "EmptyExec(" ++ debugStr service ++ ")"
  | .unknownUser service user =>
      "UnknownUser(" ++ debugStr service ++ ", " ++ debugStr user ++ ")"

/-- The text of a refusal. -/
def ReplyError.text : ReplyError → String
  | .alreadyRunning service => "service '" ++ service ++ "' is already running"
  | .unknownService service => "unknown service '" ++ service ++ "'"
  | .spawnFailed e => "spawn failed: " ++ e.debug
  | .cannotRead path e => "cannot read " ++ debugStr path ++ ": " ++ e
  | .parseError e => "parse error: " ++ e

inductive CtlCommand where
  | start (service : String) (reply : ReplySender)
  | restart (service : String) (reply : ReplySender)
  | reload (service : String) (reply : ReplySender)
  deriving DecidableEq

/-- Per-service status as seen by the control socket. -/
structure ServiceInfo where
  name : String
  state : String
  pid : Option Nat
  deriving DecidableEq

inductive Signal where
  | sigterm
  | sighup
  deriving DecidableEq

/-- What one non-blocking `waitpid` answers. -/
inductive Waitpid where
  | stillAlive
  | exited (code : Int)
  | signaled (sig : Nat)
  | other
  | echild
  | eintr
  | failed (errno : String)
  deriving DecidableEq

/-- The outside world during one step of the loop. -/
structure World where
  shutdown : Bool
  command : Option CtlCommand
  ready : Option String
  readFile : String → Except String String
  /-- `User::from_name`: the user's ids, if it exists. -/
  fromName : String → Except String (Option (Nat × Nat))
  /-- `fork`, among the children that have not been reaped. -/
  fork : List Pid → Except String Pid
  fork_fresh : ∀ children pid, fork children = .ok pid → pid ∉ children
  waitpid : Waitpid
  order : IterOrder Pid

/-- What does not change during a run: where the services live, the marker to
write, and `toml::from_str` at the type of service definitions. -/
structure Config where
  serviceDir : Option String
  readyMarker : Option String
  fromStr : String → Except String ServiceDef

/-! ## Spawning -/

/-- The outcome of a call that may also panic. -/
inductive Outcome (α : Type) where
  | ok (a : α)
  | error (e : ExecutorError)
  | panicked

/-- `CString::new` fails on an interior NUL. -/
def hasNul (s : String) : Bool := s.toList.contains '\x00'

/-- Build the program path and argument vector of a definition.  Without an
`args` list the pieces of `exec` go through an unwrapped `CString::new`. -/
def buildExecArgs (svc : ServiceDef) : Outcome (String × List String) :=
  match svc.service.args with
  | some explicitArgs =>
      if svc.service.exec = "" then .error (.emptyExec svc.service.name)
      else if hasNul svc.service.exec then .error (.emptyExec svc.service.name)
      else if explicitArgs.any hasNul then
        .error (.emptyExec svc.service.name)
      else .ok (svc.service.exec, svc.service.exec :: explicitArgs)
  | none =>
      let parts := splitWhitespace svc.service.exec
      if parts.any hasNul then .panicked
      else
        match parts with
        | [] => .error (.emptyExec svc.service.name)
        | program :: _ => .ok (program, parts)

/-- The fork, in the parent. -/
def forkChild (w : World) (children : List Pid) : Outcome Pid :=
  match w.fork children with
  | .ok pid => .ok pid
  | .error errno => .error (.fork errno)

/-- Spawn a service: check its arguments, resolve its user, fork. -/
def spawnService (w : World) (children : List Pid) (svc : ServiceDef) :
    Outcome Pid :=
  match buildExecArgs svc with
  | .panicked => .panicked
  | .error e => .error e
  | .ok _ =>
      match svc.service.user with
      | none => forkChild w children
      | some user =>
          match w.fromName user with
          | .ok (some _) => forkChild w children
          | .ok none => .error (.unknownUser svc.service.name user)
          | .error _ => .error (.unknownUser svc.service.name user)

/-- Decide whether to restart a service after it exits with the given code. -/
def shouldRestart (policy : Option RestartPolicy) (code : Int)
    (isSignal : Bool) : Bool :=
  match policy with
  | some .always => true
  | some .onFailure => code != 0 || isSignal
  | _ => false

/-- How a child ended. -/
inductive Ending where
  | exited (code : Int)
  | signaled
  deriving DecidableEq

namespace Ending

/-- The two branches ask `should_restart` about the code or about a signal. -/
def restarts (ending : Ending) (policy : Option RestartPolicy) : Bool :=
  match ending with
  | .exited code => shouldRestart policy code false
  | .signaled => shouldRestart policy 1 true

/-- The code a finished service shows. -/
def code : Ending → Int
  | .exited code => code
  | .signaled => -1

/-- Whether dependents that need the service are to be blocked. -/
def fails (ending : Ending) (exhausted : Bool) : Bool :=
  match ending with
  | .exited code => exhausted || code != 0
  | .signaled => true

end Ending

/-! ## The state of the loop -/

/-- Which place in the code spawned a process. -/
inductive Cause where
  | launch
  | command
  | manualRestart
  | autoRestart
  deriving DecidableEq

/-- What happened to the services, as the log lines of the source tell. -/
inductive Event where
  | popped (name : String)
  | spawned (cause : Cause) (name : String) (pid : Pid)
  | blocked (name : String)
  | ready (name : String)
  | marked (name : String)
  | finished (name : String) (ending : Ending) (exhausted : Bool)
  | lost (pid : Pid)
  deriving DecidableEq

/-- How the main loop is left without shutdown. -/
inductive Exit where
  | allCompleted
  | noChildren
  deriving DecidableEq

inductive Phase where
  | top
  | commands
  | readiness
  | launch
  | wait
  | poll (pids : List Pid)
  | shutdown
  | left (exit : Exit)
  | returned
  | failed (e : ExecutorError)
  | panicked
  deriving DecidableEq

structure State where
  graph : ServiceGraph
  svcByName : Table String ServiceDef
  pidToName : Table Pid String
  readyReported : Finset String
  blockedServices : Finset String
  restartCounts : Table String Nat
  serviceStates : Table String ServiceState
  pendingRestart : Finset String
  restartReplies : Table String ReplySender
  serviceRaw : Table String String
  shared : Table String ServiceInfo
  toStart : List String
  total : Nat
  completed : Nat
  phase : Phase
  log : List Event
  removed : List String
  kills : List (Pid × Signal)
  replies : List (ReplySender × Except ReplyError Unit)
  marker : Option String

def syncState (shared : Table String ServiceInfo) (name : String)
    (svcState : ServiceState) : Table String ServiceInfo :=
  entry shared name ⟨name, "pending", none⟩ (fun info =>
    match svcState with
    | .pending => { info with state := "pending", pid := none }
    | .running pid => { info with state := "running", pid := some pid }
    | .ready => { info with state := "ready" }
    | .exited _ => { info with state := "exited", pid := none }
    | .failed => { info with state := "failed", pid := none })

namespace State

/-- Record an event. -/
def note (s : State) (e : Event) : State := { s with log := e :: s.log }

/-- `service_states.insert` and `sync_state`, which the source always calls
together. -/
def setState (s : State) (name : String) (svcState : ServiceState) : State :=
  { s with
    serviceStates := s.serviceStates.insert name svcState
    shared := syncState s.shared name svcState }

/-- A new child of a service is tracked. -/
def track (s : State) (cause : Cause) (name : String) (pid : Pid) : State :=
  let s := (s.setState name (.running pid)).note (.spawned cause name pid)
  { s with pidToName := s.pidToName.insert pid name }

/-- `graph.mark_ready`, extending the launch queue. -/
def markReady (s : State) (name : String) : State :=
  let marked := s.graph.markReady name
  { s.note (.marked name) with
    graph := marked.1
    toStart := s.toStart ++ marked.2 }

/-- Block the services that need `name`. -/
def blockDependents (s : State) (name : String) : State :=
  { s with
    blockedServices :=
      s.blockedServices ∪ (s.graph.needsDependentsOf name).toFinset }

/-- `reply.send`. -/
def send (s : State) (reply : ReplySender) (answer : Except ReplyError Unit) :
    State :=
  { s with replies := (reply, answer) :: s.replies }

/-- `kill`. -/
def kill (s : State) (pid : Pid) (signal : Signal) : State :=
  { s with kills := (pid, signal) :: s.kills }

/-- The first pid of a service, in the enumeration order of the table. -/
def findPid (s : State) (w : World) (service : String) : Option Pid :=
  (w.order.arrange s.pidToName.keys).find?
    (fun pid => s.pidToName.lookup pid = some service)

end State

/-! ## Commands -/

/-- Spawn a service that has no process and answer; the three commands share
this block. -/
def spawnOnDemand (w : World) (s : State) (service : String)
    (reply : ReplySender) : State :=
  match s.svcByName.lookup service with
  | none => s.send reply (.error (.unknownService service))
  | some svc =>
      match spawnService w s.pidToName.keys svc with
      | .panicked => { s with phase := .panicked }
      | .error e => s.send reply (.error (.spawnFailed e))
      | .ok pid => (s.track .command service pid).send reply (.ok ())

def startCommand (w : World) (s : State) (service : String)
    (reply : ReplySender) : State :=
  match s.serviceStates.lookup service with
  | some (.running _) => s.send reply (.error (.alreadyRunning service))
  | some .ready => s.send reply (.error (.alreadyRunning service))
  | none => s.send reply (.error (.unknownService service))
  | some _ => spawnOnDemand w s service reply

/-- Terminate the process of a service, if one is found, and leave the answer
to the branch that sees it exit. -/
def requestRestart (w : World) (s : State) (service : String)
    (reply : ReplySender) : State :=
  let s :=
    match s.findPid w service with
    | some pid => s.kill pid .sigterm
    | none => s
  { s with
    pendingRestart := insert service s.pendingRestart
    restartReplies := s.restartReplies.insert service reply }

def restartCommand (w : World) (s : State) (service : String)
    (reply : ReplySender) : State :=
  match s.serviceStates.lookup service with
  | none => s.send reply (.error (.unknownService service))
  | some (.running _) => requestRestart w s service reply
  | some .ready => requestRestart w s service reply
  | some _ => spawnOnDemand w s service reply

/-- What reading a service file again finds. -/
inductive Reread where
  | noDir
  | unreadable (path e : String)
  | unchanged
  | unparsable (e : String)
  | changed (raw : String) (svc : ServiceDef)

/-- Step 2 of a reload: read the file again and compare. -/
def reread (cfg : Config) (w : World) (s : State) (service : String) :
    Reread :=
  match cfg.serviceDir with
  | none => .noDir
  | some dir =>
      let path := join dir (service ++ ".toml")
      match w.readFile path with
      | .error e => .unreadable path e
      | .ok newRaw =>
          let oldRaw := (s.serviceRaw.lookup service).getD ""
          if trim newRaw = trim oldRaw then .unchanged
          else
            match cfg.fromStr newRaw with
            | .error e => .unparsable e
            | .ok svc => .changed newRaw svc

/-- Step 1 of a reload: SIGHUP if a process is running. -/
def hangUp (w : World) (s : State) (service : String) : State :=
  match s.findPid w service with
  | some pid => s.kill pid .sighup
  | none => s

/-- The tables with a reloaded definition in them. -/
def install (s : State) (service raw : String) (svc : ServiceDef) : State :=
  { s with
    serviceRaw := s.serviceRaw.insert service raw
    svcByName := s.svcByName.insert service svc }

def reloadCommand (cfg : Config) (w : World) (s : State) (service : String)
    (reply : ReplySender) : State :=
  let s := hangUp w s service
  match reread cfg w s service with
  | .noDir => s.send reply (.ok ())
  | .unreadable path e => s.send reply (.error (.cannotRead path e))
  | .unchanged => s.send reply (.ok ())
  | .unparsable e => s.send reply (.error (.parseError e))
  | .changed raw svc =>
      let s := install s service raw svc
      match s.findPid w service with
      | some _ => requestRestart w s service reply
      | none => spawnOnDemand w s service reply

def runCommand (cfg : Config) (w : World) (s : State) : CtlCommand → State
  | .start service reply => startCommand w s service reply
  | .restart service reply => restartCommand w s service reply
  | .reload service reply => reloadCommand cfg w s service reply

/-! ## Readiness, launching and polling -/

/-- A readiness message; only the first one for a name counts. -/
def reportReady (s : State) (name : String) : State :=
  if name ∈ s.readyReported then s
  else
    let s := { s with readyReported := insert name s.readyReported }
    ((s.note (.ready name)).setState name .ready).markReady name

/-- The blocked branch of the launch loop. -/
def skipBlocked (s : State) (name : String) : State :=
  let s := (s.note (.blocked name)).setState name .failed
  let s := (s.blockDependents name).markReady name
  { s with completed := s.completed + 1 }

/-- Delete a stale readiness file before the service is spawned. -/
def removeStale (s : State) (svc : ServiceDef) : State :=
  match svc.readyPath with
  | some path => { s with removed := path :: s.removed }
  | none => s

/-- `spawn_service(def)?` and the tracking of the child: a failed spawn is
returned from the loop. -/
def spawnOrReturn (w : World) (s : State) (cause : Cause) (name : String)
    (svc : ServiceDef) : State :=
  match spawnService w s.pidToName.keys svc with
  | .panicked => { s with phase := .panicked }
  | .error e => { s with phase := .failed e }
  | .ok pid => s.track cause name pid

/-- One round of the launch loop, `name` already taken from the queue. -/
def launchService (w : World) (s : State) (name : String) : State :=
  let s := s.note (.popped name)
  if name ∈ s.blockedServices then skipBlocked s name
  else
    match s.svcByName.lookup name with
    | none => s
    | some svc => spawnOrReturn w (removeStale s svc) .launch name svc

/-- The answer parked for a restart, if there is one. -/
def answerRestart (s : State) (name : String)
    (answer : Except ReplyError Unit) : State :=
  match s.restartReplies.lookup name with
  | some reply =>
      { s.send reply answer with restartReplies := s.restartReplies.erase name }
  | none => s

/-- A manually requested restart, after the old process has exited. -/
def manualRestart (w : World) (s : State) (name : String) : State :=
  match s.svcByName.lookup name with
  | none => { s with phase := .panicked }
  | some svc =>
      match spawnService w s.pidToName.keys svc with
      | .panicked => { s with phase := .panicked }
      | .ok pid => answerRestart (s.track .manualRestart name pid) name (.ok ())
      | .error e =>
          (answerRestart s name (.error (.spawnFailed e))).setState name .failed

/-- The restart policy in force for a service. -/
def policyOf (s : State) (name : String) : Option RestartPolicy :=
  (s.svcByName.lookup name).bind (·.service.restart)

/-- The automatic restarts a service has used. -/
def restartsUsed (s : State) (name : String) : Nat :=
  (s.restartCounts.lookup name).getD 0

/-- Whether the child that ended is to be respawned automatically. -/
def restartDue (w : World) (s : State) (name : String) (ending : Ending) :
    Bool :=
  ending.restarts (policyOf s name) &&
    restartsUsed s name < maxRestarts && !w.shutdown

/-- Whether the policy asks for a restart that the budget refuses. -/
def restartExhausted (s : State) (name : String) (ending : Ending) : Bool :=
  ending.restarts (policyOf s name) && maxRestarts ≤ restartsUsed s name

/-- An automatic restart; its count has been taken already. -/
def autoRestart (w : World) (s : State) (name : String) : State :=
  match s.svcByName.lookup name with
  | none => { s with phase := .panicked }
  | some svc => spawnOrReturn w s .autoRestart name svc

/-- The state, the count and the blocking of a service that ends for good. -/
def countEnding (s : State) (name : String) (ending : Ending)
    (exhausted : Bool) : State :=
  let s := s.note (.finished name ending exhausted)
  let s := s.setState name
    (if exhausted then .failed else .exited ending.code)
  let s := { s with completed := s.completed + 1 }
  if ending.fails exhausted && decide (name ∉ s.readyReported) then
    s.blockDependents name
  else s

/-- A service that ends for good. -/
def finishService (s : State) (name : String) (ending : Ending) : State :=
  let s := countEnding s name ending (restartExhausted s name ending)
  if name ∈ s.readyReported then s
  else
    { s with readyReported := insert name s.readyReported }.markReady name

/-- The common course of the `Exited` and `Signaled` branches. -/
def childEnded (w : World) (s : State) (pid : Pid) (ending : Ending) :
    State :=
  match s.pidToName.lookup pid with
  | none => s
  | some name =>
      let s := { s with pidToName := s.pidToName.erase pid }
      if name ∈ s.pendingRestart then
        manualRestart w
          { s with pendingRestart := s.pendingRestart.erase name } name
      else if restartDue w s name ending then
        autoRestart w
          { s with restartCounts := entry s.restartCounts name 0 (· + 1) } name
      else
        finishService
          { s with restartCounts := entry s.restartCounts name 0 id }
          name ending

/-- One polled child. -/
def pollChild (w : World) (s : State) (pid : Pid) : State :=
  match w.waitpid with
  | .exited code => childEnded w s pid (.exited code)
  | .signaled _ => childEnded w s pid .signaled
  | .stillAlive => s
  | .other => s
  | .echild =>
      { s.note (.lost pid) with
        pidToName := s.pidToName.erase pid
        completed := s.completed + 1 }
  | .eintr => s
  | .failed errno => { s with phase := .failed (.fork errno) }

/-- The exit tests after the launch loop. -/
def afterLaunch (s : State) : Phase :=
  if s.total ≤ s.completed then .left .allCompleted
  else if s.pidToName.keys = [] then .left .noChildren
  else .wait

/-- One step of `run_with_marker`. -/
def step (cfg : Config) (w : World) (s : State) : State :=
  match s.phase with
  | .top => { s with phase := if w.shutdown then .shutdown else .commands }
  | .commands =>
      match w.command with
      | none => { s with phase := .readiness }
      | some command => runCommand cfg w s command
  | .readiness =>
      match w.ready with
      | none => { s with phase := .launch }
      | some name => reportReady s name
  | .launch =>
      match pop s.toStart with
      | none => { s with phase := afterLaunch s }
      | some (name, rest) => launchService w { s with toStart := rest } name
  | .wait =>
      let s :=
        match w.ready with
        | none => s
        | some name => reportReady s name
      { s with phase := .poll (w.order.arrange s.pidToName.keys) }
  | .poll [] => { s with phase := .top }
  | .poll (pid :: rest) => pollChild w { s with phase := .poll rest } pid
  | .left _ =>
      { s with
        phase := .returned
        marker := if w.shutdown then s.marker else cfg.readyMarker }
  | .shutdown => s
  | .returned => s
  | .failed _ => s
  | .panicked => s

/-- The raw texts read for later comparison; unreadable files have none. -/
def loadRaw (cfg : Config) (readFile : String → Except String String)
    (names : List String) : Table String String :=
  match cfg.serviceDir with
  | none => ∅
  | some dir =>
      names.foldl (fun t name =>
        match readFile (join dir (name ++ ".toml")) with
        | .ok raw => t.insert name raw
        | .error _ => t) ∅

/-- The state in which `run_with_marker` enters its loop. -/
def initial (cfg : Config) (readFile : String → Except String String)
    (order : IterOrder String) (g : ServiceGraph)
    (services : List ServiceDef) : State :=
  let svcByName : Table String ServiceDef :=
    services.foldl (fun t svc => t.insert svc.name svc) ∅
  { graph := g
    svcByName := svcByName
    pidToName := ∅
    readyReported := ∅
    blockedServices := ∅
    restartCounts := ∅
    serviceStates := svcByName.keys.foldl (fun t n => t.insert n .pending) ∅
    pendingRestart := ∅
    restartReplies := ∅
    serviceRaw := loadRaw cfg readFile svcByName.keys
    shared := svcByName.keys.foldl (fun t n => syncState t n .pending) ∅
    toStart := g.initiallyReady order
    total := g.len
    completed := 0
    phase := .top
    log := []
    removed := []
    kills := []
    replies := []
    marker := none }

/-- No service directory, no marker, and no file that parses. -/
def Config.bare : Config := ⟨none, none, fun _ => .error "invalid TOML"⟩

/-- A world in which nothing happens and every fork succeeds. -/
def World.idle : World where
  shutdown := false
  command := none
  ready := none
  readFile _ := .error "No such file or directory (os error 2)"
  fromName _ := .ok (some (0, 0))
  fork children := .ok (children.foldr max 0 + 1)
  fork_fresh := by
    intro children pid h
    cases h
    have hle : ∀ c ∈ children, c ≤ children.foldr max 0 := by
      intro c hc
      induction children with
      | nil => cases hc
      | cons d rest ih =>
          rcases List.mem_cons.mp hc with rfl | hc
          · exact Nat.le_max_left ..
          · exact Nat.le_trans (ih hc) (Nat.le_max_right ..)
    exact fun hin => Nat.not_succ_le_self _ (hle _ hin)
  waitpid := .stillAlive
  order := .asStored _

end FlintInit
