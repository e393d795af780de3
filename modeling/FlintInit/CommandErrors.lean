import FlintInit.LiveProcesses
import FlintInit.Steps

/-!
# Spawn errors

A command that cannot spawn a service is told so.  Two places of the loop have
no one to tell and return the error from `run_with_marker`: the launch loop
and the automatic restart.  A reload installs the definition it has read
before it is known to spawn, so either place may meet a definition that the
boot never saw.  `no_error_returned_iff` says that this is the only way to end
the loop with an error, when forking works and every definition of the boot
spawns.
-/

namespace FlintInit

open Collections Runs

/-- What `spawn_service` refuses before it forks: no usable program and
arguments, or a user that does not exist. -/
def rejected (w : World) (svc : ServiceDef) : Bool :=
  match buildExecArgs svc with
  | .error _ => true
  | .panicked => false
  | .ok _ =>
      match svc.service.user with
      | none => false
      | some user =>
          match w.fromName user with
          | .ok (some _) => false
          | _ => true

/-- A world in which forking works and `waitpid` reports only ends. -/
structure Forking (w : World) : Prop where
  fork : ∀ children, ∃ pid, w.fork children = .ok pid
  waitpid : w.waitpid.ordinary = true

/-- Forking gives a child, whatever children there are already. -/
theorem forkChild_ok {w : World} (h : Forking w) (children : List Pid) :
    ∃ pid, forkChild w children = .ok pid := by
  obtain ⟨pid, hpid⟩ := h.fork children
  exact ⟨pid, by simp only [forkChild, hpid]⟩

/-- When forking works only rejected definitions fail to spawn. -/
theorem spawnService_error_iff {w : World} (h : Forking w)
    (children : List Pid) (svc : ServiceDef) :
    (∃ e, spawnService w children svc = .error e) ↔
      rejected w svc = true := by
  obtain ⟨pid, hfork⟩ := forkChild_ok h children
  unfold spawnService rejected
  cases buildExecArgs svc with
  | error e => simp
  | panicked => simp
  | ok args =>
      cases svc.service.user with
      | none => simp [hfork]
      | some user =>
          dsimp only
          cases w.fromName user with
          | error e => simp
          | ok ids => cases ids <;> simp [hfork]

/-- The service a step spawns without a command, where a failure has no one to
be told. -/
def ownSpawn (w : World) (s : State) : Option String :=
  match nextPop s with
  | some n => if n ∈ s.blockedServices then none else some n
  | none =>
      match endedChild w s with
      | some (_, n, ending) =>
          if n ∉ s.pendingRestart ∧ restartDue w s n ending then some n
          else none
      | none => none

/-- What the loop spawns without a command is a definition of the boot, or
one that a reload has installed and that is not rejected. -/
def SpawnsReloaded (services : List ServiceDef) (w : World) (s : State) :
    Prop :=
  ∀ n ∈ ownSpawn w s, ∀ svc ∈ s.svcByName.lookup n,
    svc ∈ services ∨ rejected w svc = false

instance (services : List ServiceDef) (w : World) (s : State) :
    Decidable (SpawnsReloaded services w s) :=
  inferInstanceAs (Decidable (∀ n ∈ ownSpawn w s, _))

/-! ## One step -/

/-- `run_with_marker` has returned an error. -/
def Phase.errs : Phase → Bool
  | .failed _ => true
  | _ => false

/-- A spawn whose failure is returned fails on rejected definitions. -/
theorem spawnOrReturn_errs {w : World} (h : Forking w) {s : State}
    (hs : s.phase.errs = false) (cause : Cause) (n : String)
    (svc : ServiceDef) :
    (spawnOrReturn w s cause n svc).phase.errs = rejected w svc := by
  have hiff := spawnService_error_iff h s.pidToName.keys svc
  unfold spawnOrReturn
  cases hspawn : spawnService w s.pidToName.keys svc with
  | error e =>
      have hyes : rejected w svc = true := hiff.mp ⟨e, hspawn⟩
      rw [hyes]
      rfl
  | panicked =>
      have hno : rejected w svc = false := by
        rw [← Bool.not_eq_true, ← hiff, hspawn]
        exact fun ⟨e, he⟩ => nomatch he
      rw [hno]
      rfl
  | ok pid =>
      have hno : rejected w svc = false := by
        rw [← Bool.not_eq_true, ← hiff, hspawn]
        exact fun ⟨e, he⟩ => nomatch he
      rw [hno]
      exact hs

/-- No command returns an error from the loop. -/
private theorem CommandCase.errs {cfg : Config} {w : World} {s s' : State}
    {command : CtlCommand} (h : CommandCase cfg w s command s')
    (hs : s.phase.errs = false) : s'.phase.errs = false := by
  have hbase : ∀ {base : State}, Prepared cfg w s command base →
      base.phase.errs = false := by
    intro base hbase
    cases hbase <;> exact hs
  cases h with
  | answered => exact hs
  | @asked base hprep hask =>
      have hs' := hbase hprep
      obtain ⟨kills, heq⟩ :=
        requestRestart_eq w base command.service command.reply
      rw [heq]
      exact hs'
  | @demanded base hprep =>
      have hs' := hbase hprep
      unfold spawnOnDemand
      split
      · exact hs'
      · split
        · rfl
        · exact hs'
        · exact hs'

/-- Nor does a restart that a command has asked for. -/
private theorem manualRestart_errs {w : World} {s : State} {n : String}
    (hs : s.phase.errs = false) :
    (manualRestart w s n).phase.errs = false := by
  have hanswer : ∀ (s' : State) (answer : Except ReplyError Unit),
      s'.phase.errs = false →
      (answerRestart s' n answer).phase.errs = false := by
    intro s' answer hs'
    obtain ⟨replies, restartReplies, heq⟩ := answerRestart_eq s' n answer
    rw [heq]
    exact hs'
  unfold manualRestart
  split
  · rfl
  · split
    · rfl
    · exact hanswer _ _ hs
    · exact hanswer _ _ hs

/-- A service that ends for good does not end the loop with an error. -/
private theorem finishService_errs {s : State} {n : String}
    {ending : Ending} (hs : s.phase.errs = false) :
    (finishService s n ending).phase.errs = false := by
  obtain ⟨st, new, graph, blocked, reported, toStart, hdown, hnew, heq⟩ :=
    finishService_eq s n ending
  rw [heq]
  exact hs

/-- **The two places that return an error.**  A step ends the loop with an
error exactly when what it spawns without a command is rejected. -/
theorem step_errs_iff {cfg : Config} {w : World} (h : Forking w)
    {s s' : State} (hcase : StepCase cfg w s s')
    (hs : s.phase.errs = false) :
    s'.phase.errs = false ↔
      ∀ n ∈ ownSpawn w s, ∀ svc ∈ s.svcByName.lookup n,
        rejected w svc = false := by
  have hquiet : ownSpawn w s = none → s'.phase.errs = false →
      (s'.phase.errs = false ↔ ∀ n ∈ ownSpawn w s,
        ∀ svc ∈ s.svcByName.lookup n, rejected w svc = false) := by
    intro hown hs'
    rw [hown]
    exact iff_of_true hs' (fun _ hn => nomatch hn)
  cases hcase with
  | still phase marker hdead hpop hended hcommand =>
      refine hquiet (by simp only [ownSpawn, hpop, hended]) ?_
      rcases hdead with hdead | hsame
      · cases phase <;> first | rfl | cases hdead
      · rw [hsame]
        exact hs
  | @command command hphase hcommand =>
      refine hquiet ?_ ((runCommand_cases cfg w s command).errs hs)
      simp only [ownSpawn, nextPop, endedChild, hphase]
  | @ready n phase hn hdead =>
      refine hquiet ?_ ?_
      · obtain ⟨-, hpop, hended⟩ := alone_of_readyMessage hn
        simp only [ownSpawn, hpop, hended]
      · cases phase <;> first | rfl | cases hdead
  | @pop n rest hphase hqueue =>
      have hpop : nextPop s = some n := by
        simp [nextPop, hphase, pop_eq_some.mpr hqueue]
      have hown : n ∉ s.blockedServices → ownSpawn w s = some n := by
        intro hblocked
        simp only [ownSpawn, hpop, if_neg hblocked]
      rcases launchService_cases w { s with toStart := rest } n with
        ⟨hblocked, heq⟩ | ⟨hblocked, hsvc, heq⟩ | ⟨svc, hblocked, hsvc, heq⟩
      · change n ∈ s.blockedServices at hblocked
        refine hquiet (by simp only [ownSpawn, hpop, if_pos hblocked]) ?_
        rw [heq]
        exact hs
      · change s.svcByName.lookup n = none at hsvc
        rw [heq, hown hblocked]
        exact iff_of_true hs (by simp [hsvc])
      · change s.svcByName.lookup n = some svc at hsvc
        have hstale : (removeStale
            (({ s with toStart := rest } : State).note (.popped n))
            svc).phase.errs = false := by
          obtain ⟨removed, hstale⟩ := removeStale_eq
            (({ s with toStart := rest } : State).note (.popped n)) svc
          rw [hstale]
          exact hs
        rw [heq, hown hblocked, spawnOrReturn_errs h hstale]
        simp [hsvc]
  | @manual pid rest n ending hphase hend hlive hpending =>
      refine hquiet ?_ (manualRestart_errs rfl)
      simp only [ownSpawn, nextPop, endedChild, hphase, hend, hlive,
        hpending, not_true_eq_false, false_and, if_false]
  | @auto pid rest n ending hphase hend hlive hpending hdue =>
      have hown : ownSpawn w s = some n := by
        simp [ownSpawn, nextPop, endedChild, hphase, hend, hlive, hpending,
          hdue]
      rw [hown]
      unfold autoRestart
      split
      · rename_i hsvc
        change s.svcByName.lookup n = none at hsvc
        simp [hsvc, Phase.errs]
      · rename_i svc hsvc
        change s.svcByName.lookup n = some svc at hsvc
        rw [spawnOrReturn_errs h rfl]
        simp [hsvc]
  | @finish pid rest n ending hphase hend hlive hpending hdue =>
      refine hquiet ?_ (finishService_errs rfl)
      simp [ownSpawn, nextPop, endedChild, hphase, hend, hlive, hdue]
  | @lost pid rest hphase hwait =>
      refine hquiet ?_ rfl
      simp [ownSpawn, nextPop, endedChild, hphase, hwait, Waitpid.ending]
  | refused hphase hwait =>
      have hordinary := h.waitpid
      rw [hwait] at hordinary
      cases hordinary

/-- An error is one way for the loop to be dead. -/
theorem Phase.dead_of_errs {phase : Phase} (h : phase.errs = true) :
    phase.dead = true := by
  cases phase <;> first | rfl | cases h

/-! ## Runs -/

/-- **Only a reloaded definition ends the loop with an error.**  When forking
works, `waitpid` reports only ends, and every definition of the boot can be
spawned, the loop never returns an error exactly when whatever it spawns
without a command is a definition of the boot or not rejected. -/
theorem no_error_returned_iff (cfg : Config)
    (readFile : String → Except String String) (order : IterOrder String)
    (g : ServiceGraph) (services : List ServiceDef) (ws : List World)
    (hworlds : ∀ w ∈ ws, Forking w ∧ ∀ svc ∈ services,
      rejected w svc = false) :
    (∀ e, (runWithMarker cfg readFile order g services ws).phase ≠
        .failed e) ↔
      EveryStep (SpawnsReloaded services) cfg readFile order g services
        ws := by
  have hruns : ¬ (runWithMarker cfg readFile order g services
        ws).phase.errs = true ↔
      EveryStep (SpawnsReloaded services) cfg readFile order g services
        ws := by
    refine run_avoids_iff (fun s : State => s.phase.errs = true)
      (fun w => Forking w ∧ ∀ svc ∈ services, rejected w svc = false)
      (fun w s hs => by rw [step_dead (Phase.dead_of_errs hs)]; exact hs)
      ?_ ws _ hworlds (fun h => nomatch h)
    intro w s ⟨hfork, hboot⟩ hs
    rw [Bool.not_eq_true] at hs
    rw [Bool.not_eq_true, step_errs_iff hfork (step_cases cfg w s) hs]
    constructor
    · intro h n hn svc hsvc
      exact .inr (h n hn svc hsvc)
    · intro h n hn svc hsvc
      rcases h n hn svc hsvc with hin | hok
      · exact hboot svc hin
      · exact hok
  rw [← hruns]
  cases (runWithMarker cfg readFile order g services ws).phase <;>
    simp [Phase.errs]

/-- A reload that reads `svc`, whatever the text. -/
def readsAs (svc : ServiceDef) : Config :=
  ⟨some "/etc/flint/services", none, fun _ => .ok svc⟩

/-- `web` is reloaded while `db` is still coming up, and is launched later. -/
def reloadedEarly : List World :=
  List.replicate 9 .idle ++
    [{ World.idle with
        command := some (.reload "web" 0)
        readFile := fun _ => .ok "[service]" },
      .idle, { World.idle with ready := some "db" }, .idle, .idle]

/-- In this run forking works, and the definitions of the boot can be spawned.
-/
private theorem reloadedEarly_forking :
    ∀ w ∈ reloadedEarly, Forking w ∧ ∀ svc ∈ dbAndWeb,
      rejected w svc = false := by
  intro w hw
  simp only [reloadedEarly, List.mem_append, List.mem_replicate,
    List.mem_cons, List.not_mem_nil, or_false] at hw
  rcases hw with ⟨_, rfl⟩ | rfl | rfl | rfl | rfl | rfl
  all_goals exact ⟨⟨fun _ => ⟨_, rfl⟩, rfl⟩, by decide⟩

/-- A reload installs a definition that can be spawned, so the loop does not
end with an error. -/
theorem no_error_returned_iff_reload :
    ∃ g, ServiceGraph.build .asStored dbAndWeb = .ok (.ok g) ∧
      ∀ e, (runWithMarker (readsAs (makeService "web" [] []))
        (fun _ => .error "") (.asStored _) g dbAndWeb
        reloadedEarly).phase ≠ .failed e :=
  ⟨_, rfl, (no_error_returned_iff (readsAs (makeService "web" [] []))
    (fun _ => .error "") (.asStored _) _ dbAndWeb reloadedEarly
    reloadedEarly_forking).mpr (by decide +kernel)⟩

/-- A definition of `web` without a program. -/
def webWithoutExec : ServiceDef :=
  { makeService "web" ["db"] [] with
    service := ⟨"web", "", none, none, none⟩ }

/-- **A refused reload ends the supervisor later.**  The reload is answered
that the spawn failed, and the launch of `web` then returns the error. -/
theorem refused_reload_ends_loop :
    ∃ g, ServiceGraph.build .asStored dbAndWeb = .ok (.ok g) ∧
      (∀ w ∈ reloadedEarly, Forking w ∧ ∀ svc ∈ dbAndWeb,
        rejected w svc = false) ∧
      let s := runWithMarker (readsAs webWithoutExec) (fun _ => .error "")
        (.asStored _) g dbAndWeb reloadedEarly
      s.replies = [(0, .error (.spawnFailed (.emptyExec "web")))] ∧
        s.phase = .failed (.emptyExec "web") :=
  ⟨_, rfl, reloadedEarly_forking, by decide +kernel, by decide +kernel⟩

end FlintInit
