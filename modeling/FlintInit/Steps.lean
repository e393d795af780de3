import FlintInit.Supervision

/-!
# The places of the loop

`step` sorted by the place of the source it stands for.  `StepCase` has one
constructor for each place at which something can happen, with the guards
that lead there and the call that is made; `CommandCase` does the same for
the commands.  What a later file has to know about one step it reads off
these cases, and none unfolds `step` again.
-/

namespace FlintInit

open Collections

/-- The end of a child, if `waitpid` reports one. -/
def Waitpid.ending : Waitpid → Option Ending
  | .exited code => some (.exited code)
  | .signaled _ => some .signaled
  | _ => none

/-- The tracked child whose end is reported in this step. -/
def endedChild (w : World) (s : State) : Option (Pid × String × Ending) :=
  match s.phase with
  | .poll (pid :: _) =>
      match w.waitpid.ending, s.pidToName.lookup pid with
      | some ending, some n => some (pid, n, ending)
      | _, _ => none
  | _ => none

/-- A child ends in the poll that finds it, under the name it is tracked by. -/
theorem endedChild_eq_some {w : World} {s : State} {pid : Pid} {n : String}
    {ending : Ending} (h : endedChild w s = some (pid, n, ending)) :
    ∃ rest, s.phase = .poll (pid :: rest) ∧
      w.waitpid.ending = some ending ∧ s.pidToName.lookup pid = some n := by
  unfold endedChild at h
  split at h
  · rename_i hphase
    split at h
    · rename_i hend hlive
      cases h
      exact ⟨_, hphase, hend, hlive⟩
    · cases h
  · cases h

/-- A poll whose answer is an end ends a child that is tracked. -/
theorem endedChild_of_poll {w : World} {s : State} {pid : Pid}
    {rest : List Pid} {n : String} {ending : Ending}
    (hphase : s.phase = .poll (pid :: rest))
    (hend : w.waitpid.ending = some ending)
    (hlive : s.pidToName.lookup pid = some n) :
    endedChild w s = some (pid, n, ending) := by
  simp only [endedChild, hphase, hend, hlive]

/-- A step that takes a readiness message takes no command, no name from the
queue and no child. -/
theorem alone_of_readyMessage {w : World} {s : State} {n : String}
    (h : readyMessage w s = some n) :
    s.phase ≠ .commands ∧ nextPop s = none ∧ endedChild w s = none := by
  unfold readyMessage at h
  split at h
  · rename_i hphase
    simp [nextPop, endedChild, hphase]
  · rename_i hphase
    simp [nextPop, endedChild, hphase]
  · cases h

/-- The child that `waitpid` does not know in this step. -/
def lostChild (w : World) (s : State) : Option Pid :=
  match s.phase, w.waitpid with
  | .poll (pid :: _), .echild => some pid
  | _, _ => none

/-- The child `pid` is off the table, and `rest` is still to be polled. -/
def State.reapChild (s : State) (pid : Pid) (rest : List Pid) : State :=
  { s with phase := .poll rest, pidToName := s.pidToName.erase pid }

/-- What a step is, by place. -/
inductive StepCase (cfg : Config) (w : World) (s : State) : State → Prop
  /-- Nothing happens but that the loop goes on. -/
  | still (phase : Phase) (marker : Option String)
      (hdead : phase.dead = false ∨ phase = s.phase)
      (hpop : nextPop s = none) (hended : endedChild w s = none)
      (hcommand : s.phase = .commands → w.command = none) :
      StepCase cfg w s { s with phase := phase, marker := marker }
  | command {command : CtlCommand} (hphase : s.phase = .commands)
      (hcommand : w.command = some command) :
      StepCase cfg w s (runCommand cfg w s command)
  | ready {n : String} (phase : Phase) (hn : readyMessage w s = some n)
      (hdead : phase.dead = false) :
      StepCase cfg w s { reportReady s n with phase := phase }
  | pop {n : String} {rest : List String} (hphase : s.phase = .launch)
      (hqueue : s.toStart = rest ++ [n]) :
      StepCase cfg w s (launchService w { s with toStart := rest } n)
  | manual {pid : Pid} {rest : List Pid} {n : String} {ending : Ending}
      (hphase : s.phase = .poll (pid :: rest))
      (hend : w.waitpid.ending = some ending)
      (hlive : s.pidToName.lookup pid = some n)
      (hpending : n ∈ s.pendingRestart) :
      StepCase cfg w s
        (manualRestart w
          { s.reapChild pid rest with
            pendingRestart := s.pendingRestart.erase n } n)
  | auto {pid : Pid} {rest : List Pid} {n : String} {ending : Ending}
      (hphase : s.phase = .poll (pid :: rest))
      (hend : w.waitpid.ending = some ending)
      (hlive : s.pidToName.lookup pid = some n)
      (hpending : n ∉ s.pendingRestart)
      (hdue : restartDue w s n ending = true) :
      StepCase cfg w s
        (autoRestart w
          { s.reapChild pid rest with
            restartCounts := entry s.restartCounts n 0 (· + 1) } n)
  | finish {pid : Pid} {rest : List Pid} {n : String} {ending : Ending}
      (hphase : s.phase = .poll (pid :: rest))
      (hend : w.waitpid.ending = some ending)
      (hlive : s.pidToName.lookup pid = some n)
      (hpending : n ∉ s.pendingRestart)
      (hdue : restartDue w s n ending = false) :
      StepCase cfg w s
        (finishService
          { s.reapChild pid rest with
            restartCounts := entry s.restartCounts n 0 id } n ending)
  | lost {pid : Pid} {rest : List Pid}
      (hphase : s.phase = .poll (pid :: rest))
      (hwait : w.waitpid = .echild) :
      StepCase cfg w s
        { (s.reapChild pid rest).note (.lost pid) with
          completed := s.completed + 1 }
  /-- `waitpid` fails, and the loop returns its error. -/
  | refused {pid : Pid} {rest : List Pid} {errno : String}
      (hphase : s.phase = .poll (pid :: rest))
      (hwait : w.waitpid = .failed errno) :
      StepCase cfg w s { s with phase := .failed (.fork errno) }

/-- Outside of launching and polling the loop just goes on. -/
private theorem StepCase.goOn {cfg : Config} {w : World} {s : State}
    (phase : Phase) (marker : Option String)
    (hdead : phase.dead = false ∨ phase = s.phase)
    (hlaunch : s.phase ≠ .launch)
    (hpoll : ∀ pid rest, s.phase ≠ .poll (pid :: rest))
    (hcommand : s.phase = .commands → w.command = none) :
    StepCase cfg w s { s with phase := phase, marker := marker } := by
  refine .still phase marker hdead ?_ ?_ hcommand
  · unfold nextPop
    split
    · rename_i h
      exact absurd h hlaunch
    · rfl
  · unfold endedChild
    split
    · rename_i h
      exact absurd h (hpoll _ _)
    · rfl

/-- The end of a polled child. If the child is tracked, a restart that was
promised comes before one that is due, and without either the end is final. -/
private theorem childEnded_case {cfg : Config} {w : World} {s : State}
    {pid : Pid} {rest : List Pid} {ending : Ending}
    (hphase : s.phase = .poll (pid :: rest))
    (hend : w.waitpid.ending = some ending) :
    StepCase cfg w s
      (childEnded w { s with phase := .poll rest } pid ending) := by
  unfold childEnded
  cases hlive : s.pidToName.lookup pid with
  | none =>
      refine .still _ _ (.inl rfl) ?_ ?_ ?_
      · simp only [nextPop, hphase]
      · simp only [endedChild, hphase, hend, hlive]
      · simp [hphase]
  | some n =>
      dsimp only
      by_cases hpending : n ∈ s.pendingRestart
      · rw [if_pos hpending]
        exact .manual hphase hend hlive hpending
      · rw [if_neg hpending]
        cases hdue : restartDue w s n ending with
        | true =>
            rw [if_pos (by exact hdue)]
            exact .auto hphase hend hlive hpending hdue
        | false =>
            rw [if_neg (by rw [Bool.not_eq_true]; exact hdue)]
            exact .finish hphase hend hlive hpending hdue

/-- A polled child. -/
private theorem pollChild_case {cfg : Config} {w : World} {s : State}
    {pid : Pid} {rest : List Pid} (hphase : s.phase = .poll (pid :: rest)) :
    StepCase cfg w s (pollChild w { s with phase := .poll rest } pid) := by
  have hon : w.waitpid.ending = none →
      StepCase cfg w s { s with phase := .poll rest } := by
    intro hend
    refine .still _ s.marker (.inl rfl) ?_ ?_ ?_
    · simp only [nextPop, hphase]
    · simp only [endedChild, hphase, hend]
    · simp [hphase]
  unfold pollChild
  cases hwait : w.waitpid with
  | exited code => exact childEnded_case hphase (by rw [hwait]; rfl)
  | signaled sig => exact childEnded_case hphase (by rw [hwait]; rfl)
  | echild => exact .lost hphase hwait
  | failed errno => exact .refused hphase hwait
  | stillAlive => exact hon (by rw [hwait]; rfl)
  | other => exact hon (by rw [hwait]; rfl)
  | eintr => exact hon (by rw [hwait]; rfl)

/-- **The cases of a step.** They follow the phases of the loop, and within a
phase what the world has answered: a command, a message, the end of a child, or
nothing. -/
theorem step_cases (cfg : Config) (w : World) (s : State) :
    StepCase cfg w s (step cfg w s) := by
  cases hphase : s.phase with
  | commands =>
      cases hcommand : w.command with
      | none =>
          simp only [step, hphase, hcommand]
          exact .goOn _ _ (.inl rfl) (by simp [hphase]) (by simp [hphase])
            (fun _ => hcommand)
      | some command =>
          simp only [step, hphase, hcommand]
          exact .command hphase hcommand
  | readiness =>
      cases hready : w.ready with
      | none =>
          simp only [step, hphase, hready]
          exact .goOn _ _ (.inl rfl) (by simp [hphase]) (by simp [hphase])
            (by simp [hphase])
      | some n =>
          simp only [step, hphase, hready]
          refine .ready (reportReady s n).phase ?_ ?_
          · simp only [readyMessage, hphase, hready]
          · have hsame : (reportReady s n).phase = s.phase := by
              unfold reportReady
              split <;> rfl
            rw [hsame, hphase]
            rfl
  | launch =>
      cases hpop : pop s.toStart with
      | none =>
          simp only [step, hphase, hpop]
          refine .still _ _ (.inl ?_) ?_ ?_ ?_
          · unfold afterLaunch
            split
            · rfl
            · split <;> rfl
          · simp only [nextPop, hphase, hpop, Option.map_none]
          · simp only [endedChild, hphase]
          · simp [hphase]
      | some taken =>
          obtain ⟨n, rest⟩ := taken
          have hstep : step cfg w s =
              launchService w { s with toStart := rest } n := by
            simp only [step, hphase, hpop]
          rw [hstep]
          exact .pop hphase (pop_eq_some.mp hpop)
  | wait =>
      cases hready : w.ready with
      | none =>
          simp only [step, hphase, hready]
          exact .goOn _ _ (.inl rfl) (by simp [hphase]) (by simp [hphase])
            (by simp [hphase])
      | some n =>
          simp only [step, hphase, hready]
          refine .ready _ ?_ rfl
          simp only [readyMessage, hphase, hready]
  | poll pids =>
      cases pids with
      | nil =>
          simp only [step, hphase]
          exact .goOn _ _ (.inl rfl) (by simp [hphase]) (by simp [hphase])
            (by simp [hphase])
      | cons pid rest =>
          simp only [step, hphase]
          exact pollChild_case hphase
  | top =>
      simp only [step, hphase]
      refine .goOn _ _ (.inl ?_) (by simp [hphase]) (by simp [hphase])
        (by simp [hphase])
      split <;> rfl
  | left exit =>
      simp only [step, hphase]
      exact .goOn _ _ (.inl rfl) (by simp [hphase]) (by simp [hphase])
        (by simp [hphase])
  | _ =>
      simp only [step, hphase]
      exact .goOn s.phase s.marker (.inr rfl) (by simp [hphase])
        (by simp [hphase]) (by simp [hphase])

/-! ## Commands -/

namespace CtlCommand

def service : CtlCommand → String
  | .start service _ => service
  | .restart service _ => service
  | .reload service _ => service

def reply : CtlCommand → ReplySender
  | .start _ reply => reply
  | .restart _ reply => reply
  | .reload _ reply => reply

end CtlCommand

/-- The service a command asks to be restarted, with the answer parked until
its process has ended. -/
def asks (cfg : Config) (w : World) (s : State) : CtlCommand → Option String
  | .start .. => none
  | .restart service _ =>
      match s.serviceStates.lookup service with
      | some st => if st.up then some service else none
      | none => none
  | .reload service _ =>
      match reread cfg w s service, s.findPid w service with
      | .changed .., some _ => some service
      | _, _ => none

/-- The service a command of this step asks to be restarted. -/
def asked (cfg : Config) (w : World) (s : State) : Option String :=
  match s.phase, w.command with
  | .commands, some command => asks cfg w s command
  | _, _ => none

/-- The state in which a command comes to spawn a service or to ask for its
restart: a reload has installed what it has read. -/
inductive Prepared (cfg : Config) (w : World) (s : State) :
    CtlCommand → State → Prop
  | plain {command : CtlCommand} : Prepared cfg w s command s
  | reloaded {n : String} {reply : ReplySender}
      (kills : List (Pid × Signal)) {raw : String} {svc : ServiceDef}
      (hread : reread cfg w s n = .changed raw svc) :
      Prepared cfg w s (.reload n reply)
        (install { s with kills := kills } n raw svc)

/-- What a command does. -/
inductive CommandCase (cfg : Config) (w : World) (s : State) :
    CtlCommand → State → Prop
  | answered (command : CtlCommand) (kills : List (Pid × Signal))
      (answer : Except ReplyError Unit) :
      CommandCase cfg w s command
        (({ s with kills := kills } : State).send command.reply answer)
  | asked (command : CtlCommand) {base : State}
      (hbase : Prepared cfg w s command base)
      (hask : asks cfg w s command = some command.service) :
      CommandCase cfg w s command
        (requestRestart w base command.service command.reply)
  | demanded (command : CtlCommand) {base : State}
      (hbase : Prepared cfg w s command base)
      (hidle : (∃ st, s.serviceStates.lookup command.service = some st ∧
          st.up = false) ∨ s.findPid w command.service = none) :
      CommandCase cfg w s command
        (spawnOnDemand w base command.service command.reply)

/-- **The cases of a command.** It is answered at once, or asks for the restart
of a service that is up, or spawns one that is not; a reload may have stored a
definition before. -/
theorem runCommand_cases (cfg : Config) (w : World) (s : State)
    (command : CtlCommand) :
    CommandCase cfg w s command (runCommand cfg w s command) := by
  cases command with
  | start n reply =>
      unfold runCommand startCommand
      dsimp only
      split
      · exact .answered (.start n reply) s.kills _
      · exact .answered (.start n reply) s.kills _
      · exact .answered (.start n reply) s.kills _
      · rename_i st hrunning hready hst
        refine .demanded (.start n reply) .plain (.inl ⟨st, hst, ?_⟩)
        cases st with
        | running pid => exact absurd rfl (hrunning pid)
        | ready => exact absurd rfl hready
        | _ => rfl
  | restart n reply =>
      unfold runCommand restartCommand
      dsimp only
      split
      · exact .answered (.restart n reply) s.kills _
      · rename_i hst
        exact .asked (.restart n reply) .plain (by
          simp only [asks, hst]
          rfl)
      · rename_i hst
        exact .asked (.restart n reply) .plain (by
          simp only [asks, hst]
          rfl)
      · rename_i st hrunning hready hst
        refine .demanded (.restart n reply) .plain (.inl ⟨st, hst, ?_⟩)
        cases st with
        | running pid => exact absurd rfl (hrunning pid)
        | ready => exact absurd rfl hready
        | _ => rfl
  | reload n reply =>
      obtain ⟨kills, hkills⟩ := hangUp_eq w s n
      unfold runCommand reloadCommand
      dsimp only
      rw [hkills]
      have hsame : reread cfg w { s with kills := kills } n =
          reread cfg w s n := rfl
      rw [hsame]
      cases hread : reread cfg w s n with
      | changed raw svc =>
          have hbase : Prepared cfg w s (.reload n reply)
              (install { s with kills := kills } n raw svc) :=
            .reloaded kills hread
          have hfind : (install { s with kills := kills } n raw svc).findPid
              w n = s.findPid w n := rfl
          dsimp only
          rw [hfind]
          cases hpid : s.findPid w n with
          | some pid =>
              refine .asked (.reload n reply) hbase ?_
              simp only [asks, hread, hpid]
              rfl
          | none => exact .demanded (.reload n reply) hbase (.inr hpid)
      | _ => exact .answered (.reload n reply) kills _

/-! ## Processes -/

/-- Why this step spawns a process for a service. -/
inductive SpawnReason (cfg : Config) (w : World) (s : State) :
    Cause → String → Prop
  | launch {n : String} (hpop : nextPop s = some n) :
      SpawnReason cfg w s .launch n
  | command {command : CtlCommand} (hphase : s.phase = .commands)
      (hcommand : w.command = some command) :
      SpawnReason cfg w s .command command.service
  | manualRestart {n : String} (hpending : n ∈ s.pendingRestart) :
      SpawnReason cfg w s .manualRestart n
  | autoRestart {pid : Pid} {rest : List Pid} {n : String} {ending : Ending}
      (hphase : s.phase = .poll (pid :: rest))
      (hend : w.waitpid.ending = some ending)
      (hlive : s.pidToName.lookup pid = some n)
      (hpending : n ∉ s.pendingRestart)
      (hdue : restartDue w s n ending = true) :
      SpawnReason cfg w s .autoRestart n

/-- A process spawned in the step from `s` to `s'` has a reason, and runs the
definition in force. -/
def SpawnsInForce (cfg : Config) (w : World) (s s' : State) : Prop :=
  ∃ new, s'.log = new ++ s.log ∧
    ∀ cause n pid, .spawned cause n pid ∈ new →
      SpawnReason cfg w s cause n ∧
        ∃ svc children, s'.svcByName.lookup n = some svc ∧
          spawnService w children svc = .ok pid

namespace SpawnsInForce

variable {cfg : Config} {w : World} {s s' : State}

/-- A step in which no process is spawned. -/
theorem none (new : List Event) (hlog : s'.log = new ++ s.log)
    (hnone : ∀ cause n pid, .spawned cause n pid ∉ new) :
    SpawnsInForce cfg w s s' :=
  ⟨new, hlog, fun cause n pid hin => absurd hin (hnone cause n pid)⟩

/-- A step that ends in the tracking of a new child. -/
theorem track {base : State} {cause : Cause} {n : String} {pid : Pid}
    {svc : ServiceDef} {children : List Pid} (new : List Event)
    (hlog : base.log = new ++ s.log)
    (hnone : ∀ cause n pid, .spawned cause n pid ∉ new)
    (hreason : SpawnReason cfg w s cause n)
    (hsvc : base.svcByName.lookup n = some svc)
    (hspawn : spawnService w children svc = .ok pid)
    (hlog' : s'.log = (base.track cause n pid).log)
    (hdefs : s'.svcByName = base.svcByName) :
    SpawnsInForce cfg w s s' := by
  refine ⟨.spawned cause n pid :: new, ?_, ?_⟩
  · rw [hlog', List.cons_append, ← hlog]
    rfl
  · intro cause' n' pid' hin
    rcases List.mem_cons.mp hin with heq | hin
    · cases heq
      exact ⟨hreason, svc, children, hdefs ▸ hsvc, hspawn⟩
    · exact absurd hin (hnone cause' n' pid')

end SpawnsInForce

/-- An answer is not logged and installs nothing. -/
private theorem answerRestart_log (s : State) (n : String)
    (answer : Except ReplyError Unit) :
    (answerRestart s n answer).log = s.log ∧
      (answerRestart s n answer).svcByName = s.svcByName := by
  obtain ⟨replies, restartReplies, heq⟩ := answerRestart_eq s n answer
  rw [heq]
  exact ⟨rfl, rfl⟩

/-- A restart that is promised is not logged. -/
private theorem requestRestart_log (w : World) (s : State) (n : String)
    (reply : ReplySender) : (requestRestart w s n reply).log = s.log := by
  obtain ⟨kills, heq⟩ := requestRestart_eq w s n reply
  rw [heq]

/-- Nor is a definition that a reload installs. -/
private theorem Prepared.log {cfg : Config} {w : World} {s base : State}
    {command : CtlCommand} (h : Prepared cfg w s command base) :
    base.log = s.log := by
  cases h <;> rfl

/-- A stale file is deleted without a trace in the log. -/
private theorem removeStale_log (s : State) (svc : ServiceDef) :
    (removeStale s svc).log = s.log ∧
      (removeStale s svc).svcByName = s.svcByName := by
  obtain ⟨removed, heq⟩ := removeStale_eq s svc
  rw [heq]
  exact ⟨rfl, rfl⟩

/-- A command spawns its own service from the definition in force. -/
private theorem CommandCase.spawns {cfg : Config} {w : World}
    {s s' : State} {command : CtlCommand} (h : CommandCase cfg w s command s')
    (hphase : s.phase = .commands) (hcommand : w.command = some command) :
    SpawnsInForce cfg w s s' := by
  cases h with
  | answered => exact .none [] rfl (by simp)
  | asked hbase hask =>
      exact .none [] ((requestRestart_log ..).trans hbase.log) (by simp)
  | @demanded base hbase =>
      unfold spawnOnDemand
      cases hsvc : base.svcByName.lookup command.service with
      | none => exact .none [] hbase.log (by simp)
      | some svc =>
          dsimp only
          cases hspawn : spawnService w base.pidToName.keys svc with
          | panicked => exact .none [] hbase.log (by simp)
          | error e => exact .none [] hbase.log (by simp)
          | ok pid =>
              exact .track [] hbase.log (by simp) (.command hphase hcommand)
                hsvc hspawn rfl rfl

/-- Every spawn of a step uses the definition that is in force after it. Only a
reload changes a definition, and it does so before it spawns. -/
private theorem StepCase.spawns {cfg : Config} {w : World} {s s' : State}
    (h : StepCase cfg w s s') : SpawnsInForce cfg w s s' := by
  cases h with
  | still => exact .none [] rfl (by simp)
  | @command command hphase hcommand =>
      exact (runCommand_cases cfg w s command).spawns hphase hcommand
  | @ready n phase hn hdead =>
      unfold reportReady
      split
      · exact .none [] rfl (by simp)
      · exact .none [.marked n, .ready n] rfl (by simp)
  | @pop n rest hphase hqueue =>
      have hpop : nextPop s = some n := by
        simp [nextPop, hphase, pop_eq_some.mpr hqueue]
      rcases launchService_cases w { s with toStart := rest } n with
        ⟨_, heq⟩ | ⟨_, _, heq⟩ | ⟨svc, _, hsvc, heq⟩
      · rw [heq]
        exact .none [.marked n, .blocked n, .popped n] rfl (by simp)
      · rw [heq]
        exact .none [.popped n] rfl (by simp)
      · have hstale := removeStale_log
          (({ s with toStart := rest } : State).note (.popped n)) svc
        rw [heq]
        unfold spawnOrReturn
        split
        · exact .none [.popped n] hstale.1 (by simp)
        · exact .none [.popped n] hstale.1 (by simp)
        · rename_i pid hspawn
          refine .track [.popped n] hstale.1 (by simp) (.launch hpop) ?_
            hspawn rfl rfl
          rw [hstale.2]
          exact hsvc
  | @manual pid rest n ending hphase hend hlive hpending =>
      unfold manualRestart
      split
      · exact .none [] rfl (by simp)
      · rename_i svc hsvc
        split
        · exact .none [] rfl (by simp)
        · rename_i new hspawn
          have hanswer := answerRestart_log
            (State.track { s.reapChild pid rest with
              pendingRestart := s.pendingRestart.erase n } .manualRestart n
              new) n (.ok ())
          exact .track [] rfl (by simp) (.manualRestart hpending) hsvc hspawn
            hanswer.1 hanswer.2
        · exact .none [] (answerRestart_log ..).1 (by simp)
  | @auto pid rest n ending hphase hend hlive hpending hdue =>
      unfold autoRestart
      split
      · exact .none [] rfl (by simp)
      · rename_i svc hsvc
        unfold spawnOrReturn
        split
        · exact .none [] rfl (by simp)
        · exact .none [] rfl (by simp)
        · rename_i new hspawn
          exact .track [] rfl (by simp)
            (.autoRestart hphase hend hlive hpending hdue) hsvc hspawn rfl rfl
  | @finish pid rest n ending hphase hend hlive hpending hdue =>
      obtain ⟨st, new, graph, blocked, reported, toStart, -, hnone, heq⟩ :=
        finishService_eq
          { s.reapChild pid rest with
            restartCounts := entry s.restartCounts n 0 id } n ending
      exact .none new (by rw [heq]; rfl) hnone
  | lost => exact .none [.lost _] rfl (by simp)
  | refused => exact .none [] rfl (by simp)

/-- **Where processes come from.**  Whatever is spawned in a step has one of
four reasons, and runs the definition that is then in force. -/
theorem step_spawns (cfg : Config) (w : World) (s : State) :
    SpawnsInForce cfg w s (step cfg w s) :=
  (step_cases cfg w s).spawns

end FlintInit
