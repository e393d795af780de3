import FlintInit.Executor

/-!
# What one step can do to the services

The abstract view of the loop: which child belongs to which service, the state
shown for each service, the counters and the launch queue, the two sets of
names, the completion count and the log.  `Move` lists everything that can
happen to it, one constructor for each kind of event.

`step_move` is the simulation: each step of the loop is one of these moves,
and `Triggered` ties the move to the place in the code and to the answers of
the world that caused it.  All invariants of the loop are proved over moves.
-/

namespace FlintInit

open Collections

/-- The parts of a graph that no mark changes. -/
structure Shape where
  dependents : String → List String
  needs : String → List String

structure View where
  shape : Shape
  total : Nat
  live : Pid → Option String
  state : String → Option ServiceState
  degree : String → Nat
  queue : List String
  reported : Finset String
  blocked : Finset String
  completed : Nat
  log : List Event

/-- What a loop state shows. -/
def State.view (s : State) : View where
  shape := ⟨s.graph.dependentsOf, s.graph.needsDependentsOf⟩
  total := s.total
  live pid := s.pidToName.lookup pid
  state n := s.serviceStates.lookup n
  degree := s.graph.degree
  queue := s.toStart
  reported := s.readyReported
  blocked := s.blockedServices
  completed := s.completed
  log := s.log

/-- The states in which `Start` finds a service already running. -/
def ServiceState.up : ServiceState → Bool
  | .running _ => true
  | .ready => true
  | _ => false

namespace View

def note (v : View) (e : Event) : View := { v with log := e :: v.log }

def setState (v : View) (n : String) (st : ServiceState) : View :=
  { v with state := Function.update v.state n (some st) }

/-- The child `pid` is gone. -/
def reap (v : View) (pid : Pid) : View :=
  { v with live := Function.update v.live pid none }

/-- The child `pid` runs for `n`. -/
def run (v : View) (cause : Cause) (n : String) (pid : Pid) : View :=
  { v with
    state := Function.update v.state n (some (.running pid))
    log := .spawned cause n pid :: v.log
    live := Function.update v.live pid (some n) }

/-- `n` is marked, which releases the services in `newly`. -/
def mark (v : View) (n : String) (newly : List String) : View :=
  { v with
    log := .marked n :: v.log
    degree := fun x => v.degree x - (v.shape.dependents n).count x
    queue := v.queue ++ newly }

def report (v : View) (n : String) : View :=
  { v with reported := insert n v.reported }

def block (v : View) (n : String) : View :=
  { v with blocked := v.blocked ∪ (v.shape.needs n).toFinset }

def count (v : View) : View := { v with completed := v.completed + 1 }

def popTo (v : View) (n : String) (rest : List String) : View :=
  { v with queue := rest, log := .popped n :: v.log }

/-- `n` has ended for good. -/
def finish (v : View) (n : String) (ending : Ending) (exhausted : Bool) :
    View :=
  { v with
    state := Function.update v.state n
      (some (if exhausted then .failed else .exited ending.code))
    log := .finished n ending exhausted :: v.log
    completed := v.completed + 1
    blocked :=
      if ending.fails exhausted && decide (n ∉ v.reported) then
        v.blocked ∪ (v.shape.needs n).toFinset
      else v.blocked }

/-- `newly` are the names whose counter marking `n` uses up. -/
def Releases (v : View) (n : String) (newly : List String) : Prop :=
  newly.Nodup ∧ ∀ x, x ∈ newly ↔
    0 < v.degree x ∧ v.degree x ≤ (v.shape.dependents n).count x

/-- No process runs for `n`. -/
def Idle (v : View) (n : String) : Prop := ∀ pid, v.live pid ≠ some n

end View

/-- The kinds of moves, with the names and children concerned. -/
inductive Trigger where
  | quiet
  | ready (n : String)
  | popBlocked (n : String)
  | popIdle (n : String)
  | launch (n : String) (pid : Pid)
  | demand (n : String) (pid : Pid)
  | respawn (cause : Cause) (n : String) (old new : Pid)
  | fallen (n : String) (pid : Pid)
  | reaped (n : String) (pid : Pid)
  | finish (n : String) (pid : Pid) (ending : Ending) (exhausted : Bool)
  | lost (pid : Pid)

/-- Everything a step can do to the view. -/
inductive Move : Trigger → View → View → Prop
  | quiet (v : View) : Move .quiet v v
  | ready {v : View} {n : String} {newly : List String}
      (hn : n ∉ v.reported) (hnew : v.Releases n newly) :
      Move (.ready n) v
        ((((v.report n).note (.ready n)).setState n .ready).mark n newly)
  | popBlocked {v : View} {n : String} {rest newly : List String}
      (hq : v.queue = rest ++ [n]) (hb : n ∈ v.blocked)
      (hnew : v.Releases n newly) :
      Move (.popBlocked n) v
        ((((((v.popTo n rest).note (.blocked n)).setState n .failed).block
          n).mark n newly).count)
  | popIdle {v : View} {n : String} {rest : List String}
      (hq : v.queue = rest ++ [n]) (hb : n ∉ v.blocked) :
      Move (.popIdle n) v (v.popTo n rest)
  | launch {v : View} {n : String} {rest : List String} {pid : Pid}
      (hq : v.queue = rest ++ [n]) (hb : n ∉ v.blocked)
      (hfresh : v.live pid = none) :
      Move (.launch n pid) v ((v.popTo n rest).run .launch n pid)
  | demand {v : View} {n : String} {pid : Pid}
      (hidle : (∃ st, v.state n = some st ∧ st.up = false) ∨ v.Idle n)
      (hfresh : v.live pid = none) :
      Move (.demand n pid) v (v.run .command n pid)
  | respawn {v : View} {n : String} {old new : Pid} {cause : Cause}
      (hlive : v.live old = some n)
      (hcause : cause = .manualRestart ∨ cause = .autoRestart)
      (hfresh : (v.reap old).live new = none) :
      Move (.respawn cause n old new) v ((v.reap old).run cause n new)
  | fallen {v : View} {n : String} {pid : Pid} (hlive : v.live pid = some n) :
      Move (.fallen n pid) v ((v.reap pid).setState n .failed)
  | reaped {v : View} {n : String} {pid : Pid} (hlive : v.live pid = some n) :
      Move (.reaped n pid) v (v.reap pid)
  | finishAgain {v : View} {n : String} {pid : Pid} {ending : Ending}
      {exhausted : Bool} (hlive : v.live pid = some n)
      (hn : n ∈ v.reported) :
      Move (.finish n pid ending exhausted) v
        ((v.reap pid).finish n ending exhausted)
  | finishFirst {v : View} {n : String} {pid : Pid} {ending : Ending}
      {exhausted : Bool} {newly : List String}
      (hlive : v.live pid = some n) (hn : n ∉ v.reported)
      (hnew : v.Releases n newly) :
      Move (.finish n pid ending exhausted) v
        ((((v.reap pid).finish n ending exhausted).report n).mark n newly)
  | lost (v : View) (pid : Pid) :
      Move (.lost pid) v (((v.reap pid).note (.lost pid)).count)

/-- The graph's edges never change. -/
theorem Move.shape {t : Trigger} {v v' : View} (h : Move t v v') :
    v'.shape = v.shape := by
  cases h <;> rfl

/-! ## What the smaller operations change -/

section Changes

variable (w : World) (s : State) (n : String)

/-- A hang-up only sends a signal. -/
theorem hangUp_eq : ∃ kills, hangUp w s n = { s with kills := kills } := by
  unfold hangUp
  cases s.findPid w n with
  | none => exact ⟨s.kills, rfl⟩
  | some pid => exact ⟨_, rfl⟩

/-- A restart is noted, its sender parked. -/
theorem requestRestart_eq (reply : ReplySender) :
    ∃ kills, requestRestart w s n reply = { s with
      kills := kills
      pendingRestart := insert n s.pendingRestart
      restartReplies := s.restartReplies.insert n reply } := by
  unfold requestRestart
  cases s.findPid w n with
  | none => exact ⟨s.kills, rfl⟩
  | some pid => exact ⟨_, rfl⟩

/-- Answering a restart touches the replies only. -/
theorem answerRestart_eq (answer : Except ReplyError Unit) :
    ∃ replies restartReplies, answerRestart s n answer = { s with
      replies := replies
      restartReplies := restartReplies } := by
  unfold answerRestart
  cases s.restartReplies.lookup n with
  | none => exact ⟨s.replies, s.restartReplies, rfl⟩
  | some reply => exact ⟨_, _, rfl⟩

/-- A stale readiness file is removed, and nothing else happens. -/
theorem removeStale_eq (svc : ServiceDef) :
    ∃ removed, removeStale s svc = { s with removed := removed } := by
  unfold removeStale
  cases svc.readyPath with
  | none => exact ⟨s.removed, rfl⟩
  | some path => exact ⟨_, rfl⟩

/-- What the launch of a name comes to: it is skipped, it is unknown, or its
definition is spawned. -/
theorem launchService_cases :
    (n ∈ s.blockedServices ∧
      launchService w s n = skipBlocked (s.note (.popped n)) n) ∨
    (n ∉ s.blockedServices ∧ s.svcByName.lookup n = none ∧
      launchService w s n = s.note (.popped n)) ∨
    ∃ svc, n ∉ s.blockedServices ∧ s.svcByName.lookup n = some svc ∧
      launchService w s n =
        spawnOrReturn w (removeStale (s.note (.popped n)) svc) .launch n
          svc := by
  -- taking the name leaves the blocked services and the definitions alone
  by_cases hblocked : n ∈ (s.note (.popped n)).blockedServices
  · exact .inl ⟨hblocked, if_pos hblocked⟩
  · cases hsvc : (s.note (.popped n)).svcByName.lookup n with
    | none =>
        refine .inr (.inl ⟨hblocked, hsvc, ?_⟩)
        simp only [launchService, if_neg hblocked, hsvc]
    | some svc =>
        refine .inr (.inr ⟨svc, hblocked, hsvc, ?_⟩)
        simp only [launchService, if_neg hblocked, hsvc]

/-- An automatic restart of a service that is defined. -/
theorem autoRestart_of_defined (svc : ServiceDef)
    (hsvc : s.svcByName.lookup n = some svc) :
    autoRestart w s n = spawnOrReturn w s .autoRestart n svc := by
  unfold autoRestart
  rw [hsvc]

/-- The count of a final end, but for the services it blocks. -/
theorem countEnding_eq (ending : Ending) (exhausted : Bool) :
    ∃ blocked, countEnding s n ending exhausted =
      { (s.note (.finished n ending exhausted)).setState n
          (if exhausted then .failed else .exited ending.code) with
        completed := s.completed + 1
        blockedServices := blocked } := by
  unfold countEnding
  cases hfails : ending.fails exhausted && decide (n ∉ s.readyReported) with
  | true =>
      exact ⟨s.blockedServices ∪ (s.graph.needsDependentsOf n).toFinset,
        if_pos hfails⟩
  | false =>
      rw [← Bool.not_eq_true] at hfails
      exact ⟨s.blockedServices, if_neg hfails⟩

/-- A final end leaves a state that is not up, and spawns nothing. What it may
do besides is to block, to report and to release, and to count one more that is
completed. -/
theorem finishService_eq (ending : Ending) :
    ∃ (st : ServiceState) (new : List Event) (graph : ServiceGraph)
      (blocked reported : Finset String) (toStart : List String),
      st.up = false ∧ (∀ cause m pid, .spawned cause m pid ∉ new) ∧
      finishService s n ending = { s.setState n st with
        graph := graph
        readyReported := reported
        blockedServices := blocked
        toStart := toStart
        completed := s.completed + 1
        log := new ++ s.log } := by
  have hdown : ∀ exhausted : Bool, (if exhausted then ServiceState.failed
      else .exited ending.code).up = false := by
    intro exhausted
    cases exhausted <;> rfl
  unfold finishService
  generalize restartExhausted s n ending = exhausted
  obtain ⟨blocked, hcount⟩ := countEnding_eq s n ending exhausted
  rw [hcount]
  generalize hst : (if exhausted then ServiceState.failed
    else .exited ending.code) = st
  dsimp only
  split
  · refine ⟨st, [.finished n ending exhausted], _, _, _, _,
      hst ▸ hdown exhausted, ?_, rfl⟩
    simp
  · refine ⟨st, [.marked n, .finished n ending exhausted], _, _, _, _,
      hst ▸ hdown exhausted, ?_, rfl⟩
    simp

end Changes

/-! ## Reading the code's operations off the view -/

section Views

variable (s : State) (n : String) (pid : Pid)

@[simp] theorem view_note (e : Event) : (s.note e).view = s.view.note e := rfl

@[simp] theorem view_phase (phase : Phase) :
    ({ s with phase := phase } : State).view = s.view := rfl

@[simp] theorem view_send (reply : ReplySender)
    (answer : Except ReplyError Unit) :
    (s.send reply answer).view = s.view := rfl

@[simp] theorem view_kill (signal : Signal) :
    (s.kill pid signal).view = s.view := rfl

@[simp] theorem view_install (raw : String) (svc : ServiceDef) :
    (install s n raw svc).view = s.view := rfl

@[simp] theorem view_blockDependents :
    (s.blockDependents n).view = s.view.block n := rfl

/-- A table of states after an insertion, as a function. -/
private theorem state_insert (t : Table String ServiceState)
    (st : ServiceState) :
    (fun x => (t.insert n st).lookup x) =
      Function.update (fun x => t.lookup x) n (some st) := by
  funext x
  rw [lookup_insert_eq, Function.update_apply]

private theorem live_insert (t : Table Pid String) :
    (fun p => (t.insert pid n).lookup p) =
      Function.update (fun p => t.lookup p) pid (some n) := by
  funext p
  rw [lookup_insert_eq, Function.update_apply]

private theorem live_erase (t : Table Pid String) :
    (fun p => (t.erase pid).lookup p) =
      Function.update (fun p => t.lookup p) pid none := by
  funext p
  rw [lookup_erase_eq, Function.update_apply]

@[simp] theorem view_setState (st : ServiceState) :
    (s.setState n st).view = s.view.setState n st := by
  simp only [State.setState, State.view, View.setState, state_insert]

@[simp] theorem view_track (cause : Cause) :
    (s.track cause n pid).view = s.view.run cause n pid := by
  simp only [State.track, State.setState, State.note, State.view, View.run,
    state_insert, live_insert]

@[simp] theorem view_reap :
    ({ s with pidToName := s.pidToName.erase pid } : State).view =
      s.view.reap pid := by
  simp only [State.view, View.reap, live_erase]

/-- Marking a name lowers its dependents' counters and queues the services it
releases. -/
theorem view_markReady :
    ∃ newly, s.view.Releases n newly ∧
      (s.markReady n).view = s.view.mark n newly := by
  obtain ⟨hdeg, hnd, hmem⟩ := s.graph.markReady_spec n
  refine ⟨(s.graph.markReady n).2, ⟨hnd, hmem⟩, ?_⟩
  have hdeg' : (s.graph.markReady n).1.degree = fun x =>
      s.graph.degree x - (s.graph.dependentsOf n).count x := funext hdeg
  have hdep : (s.graph.markReady n).1.dependentsOf =
      s.graph.dependentsOf := by
    funext d
    simp [ServiceGraph.dependentsOf]
  have hneeds : (s.graph.markReady n).1.needsDependentsOf =
      s.graph.needsDependentsOf := by
    funext d
    simp [ServiceGraph.needsDependentsOf]
  simp only [State.markReady, State.note, State.view, View.mark, hdeg', hdep,
    hneeds]

@[simp] theorem view_requestRestart (w : World) (reply : ReplySender) :
    (requestRestart w s n reply).view = s.view := by
  obtain ⟨kills, heq⟩ := requestRestart_eq w s n reply
  rw [heq]
  rfl

@[simp] theorem view_hangUp (w : World) : (hangUp w s n).view = s.view := by
  obtain ⟨kills, heq⟩ := hangUp_eq w s n
  rw [heq]
  rfl

@[simp] theorem view_answerRestart (answer : Except ReplyError Unit) :
    (answerRestart s n answer).view = s.view := by
  obtain ⟨replies, restartReplies, heq⟩ := answerRestart_eq s n answer
  rw [heq]
  rfl

end Views

/-- The search for a pid fails exactly when no process runs for the name. -/
theorem findPid_eq_none {s : State} {w : World} {n : String} :
    s.findPid w n = none ↔ s.view.Idle n := by
  simp only [State.findPid, List.find?_eq_none, IterOrder.mem_arrange,
    mem_keys_iff_lookup, decide_eq_true_eq]
  constructor
  · intro h pid hlive
    exact h pid ⟨n, hlive⟩ hlive
  · intro h pid _
    exact h pid

/-- A child just forked is none of those tracked. The kernel gives no number
that a tracked child still has, since that child has not been reaped. -/
theorem spawnService_fresh {w : World} {s : State} {svc : ServiceDef}
    {pid : Pid} (h : spawnService w s.pidToName.keys svc = .ok pid) :
    s.view.live pid = none := by
  have hfork : forkChild w s.pidToName.keys = .ok pid →
      s.view.live pid = none := by
    intro hok
    unfold forkChild at hok
    split at hok
    case h_1 pid' heq =>
      cases hok
      have hout := w.fork_fresh _ _ heq
      rw [← AList.mem_keys, ← AList.lookup_eq_none] at hout
      exact hout
    case h_2 => cases hok
  unfold spawnService at h
  split at h
  · cases h
  · cases h
  · split at h
    · exact hfork h
    · split at h
      · exact hfork h
      · cases h
      · cases h

/-! ## What causes a move -/

/-- An error return or a panic. -/
def Phase.dead : Phase → Bool
  | .failed _ => true
  | .panicked => true
  | _ => false

/-- A dead phase is the end of the run. -/
theorem step_dead {cfg : Config} {w : World} {s : State}
    (h : s.phase.dead = true) : step cfg w s = s := by
  cases hphase : s.phase with
  | failed e => simp only [step, hphase]
  | panicked => simp only [step, hphase]
  | _ =>
      rw [hphase] at h
      cases h

/-- The name the launch loop takes from the queue in this step. -/
def nextPop (s : State) : Option String :=
  match s.phase with
  | .launch => (pop s.toStart).map Prod.fst
  | _ => none

/-- The readiness message read in this step. -/
def readyMessage (w : World) (s : State) : Option String :=
  match s.phase with
  | .readiness => w.ready
  | .wait => w.ready
  | _ => none

/-- The service a command finds without a process, and the definition it is
to be spawned from. -/
def onDemand (cfg : Config) (w : World) (s : State) :
    CtlCommand → Option (String × ServiceDef)
  | .start service _ => stopped service
  | .restart service _ => stopped service
  | .reload service _ =>
      match reread cfg w s service, s.findPid w service with
      | .changed _ svc, none => some (service, svc)
      | _, _ => none
where
  stopped (service : String) : Option (String × ServiceDef) :=
    match s.serviceStates.lookup service, s.svcByName.lookup service with
    | some st, some svc => if st.up then none else some (service, svc)
    | _, _ => none

/-- The service a command spawns in this step. -/
def demanded (cfg : Config) (w : World) (s : State) : Option String :=
  match s.phase, w.command with
  | .commands, some command =>
      match onDemand cfg w s command with
      | some (service, svc) =>
          match spawnService w s.pidToName.keys svc with
          | .ok _ => some service
          | _ => none
      | none => none
  | _, _ => none

/-- The service of `pid`, unless its end leads to a respawn. -/
def finalEnd (w : World) (s : State) (pid : Pid) (ending : Ending) :
    Option String :=
  match s.pidToName.lookup pid with
  | none => none
  | some name =>
      if name ∈ s.pendingRestart ∨ restartDue w s name ending then none
      else some name

/-- The service that ends for good in this step. -/
def endedForGood (w : World) (s : State) : Option String :=
  match s.phase with
  | .poll (pid :: _) =>
      match w.waitpid with
      | .exited code => finalEnd w s pid (.exited code)
      | .signaled _ => finalEnd w s pid .signaled
      | _ => none
  | _ => none

/-- What has to hold for a step to be a given move. -/
def Triggered (cfg : Config) (w : World) (s : State) : Trigger → Prop
  | .quiet => True
  | .ready n => readyMessage w s = some n
  | .popBlocked n => nextPop s = some n
  | .popIdle n => nextPop s = some n ∧
      (s.svcByName.lookup n = none ∨ (step cfg w s).phase.dead)
  | .launch n _ => nextPop s = some n
  | .demand n _ => demanded cfg w s = some n
  | .respawn .. => True
  | .fallen n _ => n ∈ s.pendingRestart
  | .reaped .. => (step cfg w s).phase.dead
  | .finish n .. => endedForGood w s = some n
  | .lost _ => w.waitpid = .echild

/-! ## Each place of the loop makes one of the moves -/

/-- A readiness message that counts is the move `ready`; a second one is quiet.
-/
theorem reportReady_move (s : State) (n : String) :
    ∃ t, Move t s.view (reportReady s n).view ∧
      (t = .quiet ∨ t = .ready n) := by
  unfold reportReady
  by_cases hn : n ∈ s.readyReported
  · rw [if_pos hn]
    exact ⟨.quiet, .quiet _, .inl rfl⟩
  · rw [if_neg hn]
    obtain ⟨newly, hnew, hview⟩ := view_markReady
      ((({ s with readyReported := insert n s.readyReported }).note
        (.ready n)).setState n .ready) n
    rw [view_setState] at hview
    refine ⟨.ready n, ?_, .inr rfl⟩
    rw [hview]
    exact .ready hn hnew

/-- A spawn whose failure is returned. -/
theorem spawnOrReturn_cases (w : World) (s : State) (cause : Cause)
    (n : String) (svc : ServiceDef) :
    ((spawnOrReturn w s cause n svc).view = s.view ∧
      (spawnOrReturn w s cause n svc).phase.dead = true) ∨
    ∃ pid, s.view.live pid = none ∧
      (spawnOrReturn w s cause n svc).view = s.view.run cause n pid := by
  unfold spawnOrReturn
  cases hspawn : spawnService w s.pidToName.keys svc with
  | panicked => exact .inl ⟨rfl, rfl⟩
  | error e => exact .inl ⟨rfl, rfl⟩
  | ok pid =>
      exact .inr ⟨pid, spawnService_fresh hspawn, view_track s n pid cause⟩

/-- The view shows no files. -/
theorem view_removeStale (s : State) (svc : ServiceDef) :
    (removeStale s svc).view = s.view := by
  obtain ⟨removed, heq⟩ := removeStale_eq s svc
  rw [heq]
  rfl

/-- The pops, all of a name at the end of the queue. A blocked name is skipped
and marked, one without a definition only taken, and the others are launched.
-/
theorem launchService_move {cfg : Config} {w : World} {s : State}
    {n : String} {rest : List String} (hphase : s.phase = .launch)
    (hq : s.toStart = rest ++ [n]) :
    ∃ t, Move t s.view (launchService w { s with toStart := rest } n).view ∧
      Triggered cfg w s t := by
  have hpop : pop s.toStart = some (n, rest) := pop_eq_some.mpr hq
  have hnext : nextPop s = some n := by simp [nextPop, hphase, hpop]
  have hstep : step cfg w s = launchService w { s with toStart := rest } n := by
    simp only [step, hphase, hpop]
  let s₀ : State := ({ s with toStart := rest } : State).note (.popped n)
  have hview₀ : s₀.view = s.view.popTo n rest := rfl
  rcases launchService_cases w { s with toStart := rest } n with
    ⟨hb, hlaunch⟩ | ⟨hb, hdef, hlaunch⟩ | ⟨svc, hb, hdef, hlaunch⟩
  · obtain ⟨newly, hnew, hview⟩ := view_markReady
      (((s₀.note (.blocked n)).setState n .failed).blockDependents n) n
    simp only [view_blockDependents, view_setState, view_note, hview₀]
      at hnew hview
    refine ⟨.popBlocked n, ?_, hnext⟩
    rw [hlaunch,
      show (skipBlocked s₀ n).view = _ from congrArg View.count hview]
    exact .popBlocked hq hb hnew
  · refine ⟨.popIdle n, ?_, hnext, .inl hdef⟩
    rw [hlaunch]
    exact .popIdle hq hb
  · rcases spawnOrReturn_cases w (removeStale s₀ svc) .launch n svc with
      ⟨hview, hdead⟩ | ⟨pid, hfresh, hview⟩
    · refine ⟨.popIdle n, ?_, hnext, .inr ?_⟩
      · rw [hlaunch, hview, view_removeStale]
        exact .popIdle hq hb
      · rw [hstep, hlaunch]
        exact hdead
    · rw [view_removeStale] at hfresh hview
      refine ⟨.launch n pid, ?_, hnext⟩
      rw [hlaunch, hview]
      exact .launch hq hb hfresh

/-- A command that gets as far as spawning, from tables `s'` that show the same
services as before the command. -/
theorem spawnOnDemand_move {cfg : Config} {w : World} {s s' : State}
    {n : String} {reply : ReplySender} {command : CtlCommand}
    (hphase : s.phase = .commands) (hcommand : w.command = some command)
    (hview : s'.view = s.view) (hpids : s'.pidToName = s.pidToName)
    (hidle : (∃ st, s.view.state n = some st ∧ st.up = false) ∨
      s.view.Idle n)
    (hon : ∀ svc, s'.svcByName.lookup n = some svc →
      onDemand cfg w s command = some (n, svc)) :
    ∃ t, Move t s.view (spawnOnDemand w s' n reply).view ∧
      Triggered cfg w s t := by
  have hquiet : Move .quiet s.view s'.view := by
    rw [hview]
    exact .quiet _
  unfold spawnOnDemand
  cases hdef : s'.svcByName.lookup n with
  | none => exact ⟨.quiet, hquiet, True.intro⟩
  | some svc =>
      dsimp only
      cases hspawn : spawnService w s'.pidToName.keys svc with
      | panicked => exact ⟨.quiet, hquiet, True.intro⟩
      | error e => exact ⟨.quiet, hquiet, True.intro⟩
      | ok pid =>
          have hfresh := spawnService_fresh hspawn
          rw [hview] at hfresh
          rw [hpids] at hspawn
          refine ⟨.demand n pid, ?_, ?_⟩
          · simp only [view_send, view_track, hview]
            exact .demand hidle hfresh
          · simp only [Triggered, demanded, hphase, hcommand, hon svc hdef,
              hspawn]

/-- `Start` and `Restart` of a service that is known and not up. -/
theorem stopped_move {cfg : Config} {w : World} {s : State} {n : String}
    {reply : ReplySender} {command : CtlCommand}
    (hphase : s.phase = .commands) (hcommand : w.command = some command)
    (hon : onDemand cfg w s command = onDemand.stopped s n)
    {st : ServiceState} (hst : s.serviceStates.lookup n = some st)
    (hup : st.up = false) :
    ∃ t, Move t s.view (spawnOnDemand w s n reply).view ∧
      Triggered cfg w s t := by
  refine spawnOnDemand_move hphase hcommand rfl rfl (.inl ⟨st, hst, hup⟩) ?_
  intro svc hdef
  simp [hon, onDemand.stopped, hst, hdef, hup]

/-- A reload spawns, promises a restart or answers. The signal it may send
before and the definition it may install are not in the view. -/
theorem reloadCommand_move {cfg : Config} {w : World} {s : State}
    {n : String} {reply : ReplySender} (hphase : s.phase = .commands)
    (hcommand : w.command = some (.reload n reply)) :
    ∃ t, Move t s.view (reloadCommand cfg w s n reply).view ∧
      Triggered cfg w s t := by
  obtain ⟨kills, hkills⟩ := hangUp_eq w s n
  have hreread : reread cfg w (hangUp w s n) n = reread cfg w s n := by
    rw [hkills]
    rfl
  have hpids : (hangUp w s n).pidToName = s.pidToName := by
    rw [hkills]
  unfold reloadCommand
  dsimp only
  rw [hreread]
  cases hre : reread cfg w s n with
  | changed raw svc =>
      have hfind : (install (hangUp w s n) n raw svc).findPid w n =
          s.findPid w n := by
        simp only [State.findPid, install, hpids]
      dsimp only
      rw [hfind]
      cases hpid : s.findPid w n with
      | some pid =>
          refine ⟨.quiet, ?_, True.intro⟩
          simp only [view_requestRestart, view_install, view_hangUp]
          exact .quiet _
      | none =>
          refine spawnOnDemand_move hphase hcommand ?_ hpids
            (.inr (findPid_eq_none.mp hpid)) ?_
          · rw [view_install, view_hangUp]
          · intro svc' hdef
            have heq : svc = svc' := by simpa [install] using hdef
            simp [onDemand, hre, hpid, heq]
  | _ =>
      refine ⟨.quiet, ?_, True.intro⟩
      simp only [view_send, view_hangUp]
      exact .quiet _

/-- **A command** makes the move `demand`, or none that the view shows. For a
name that is up it only promises a restart, which is not in the view either. -/
theorem runCommand_move {cfg : Config} {w : World} {s : State}
    {command : CtlCommand} (hphase : s.phase = .commands)
    (hcommand : w.command = some command) :
    ∃ t, Move t s.view (runCommand cfg w s command).view ∧
      Triggered cfg w s t := by
  have hquiet : ∃ t, Move t s.view s.view ∧ Triggered cfg w s t :=
    ⟨.quiet, .quiet _, True.intro⟩
  cases command with
  | start n reply =>
      have hdown : ∀ st, s.serviceStates.lookup n = some st →
          st.up = false → ∃ t, Move t s.view (spawnOnDemand w s n reply).view ∧
            Triggered cfg w s t :=
        fun st => stopped_move hphase hcommand rfl
      unfold runCommand startCommand
      dsimp only
      cases hst : s.serviceStates.lookup n with
      | none => exact hquiet
      | some st =>
          cases st with
          | running _ => exact hquiet
          | ready => exact hquiet
          | pending => exact hdown _ hst rfl
          | exited code => exact hdown _ hst rfl
          | failed => exact hdown _ hst rfl
  | restart n reply =>
      have hdown : ∀ st, s.serviceStates.lookup n = some st →
          st.up = false → ∃ t, Move t s.view (spawnOnDemand w s n reply).view ∧
            Triggered cfg w s t :=
        fun st => stopped_move hphase hcommand rfl
      have hup : ∃ t, Move t s.view (requestRestart w s n reply).view ∧
          Triggered cfg w s t :=
        ⟨.quiet, by rw [view_requestRestart]; exact .quiet _, True.intro⟩
      unfold runCommand restartCommand
      dsimp only
      cases hst : s.serviceStates.lookup n with
      | none => exact hquiet
      | some st =>
          cases st with
          | running _ => exact hup
          | ready => exact hup
          | pending => exact hdown _ hst rfl
          | exited code => exact hdown _ hst rfl
          | failed => exact hdown _ hst rfl
  | reload n reply => exact reloadCommand_move hphase hcommand

/-- A restart asked for by a command, once the old child is gone. The service
has a new process, or has fallen if the spawn fails; without a definition, or
in a panic, the child is only reaped. -/
theorem manualRestart_move {w : World} {s s' : State} {n : String}
    {pid : Pid} (hlive : s.view.live pid = some n)
    (hview : s'.view = s.view.reap pid) :
    ∃ t, Move t s.view (manualRestart w s' n).view ∧
      ((∃ new, t = .respawn .manualRestart n pid new) ∨ t = .fallen n pid ∨
        (t = .reaped n pid ∧ (manualRestart w s' n).phase.dead = true)) := by
  unfold manualRestart
  cases hdef : s'.svcByName.lookup n with
  | none =>
      refine ⟨.reaped n pid, ?_, .inr (.inr ⟨rfl, rfl⟩)⟩
      simp only [view_phase, hview]
      exact .reaped hlive
  | some svc =>
      dsimp only
      cases hspawn : spawnService w s'.pidToName.keys svc with
      | panicked =>
          refine ⟨.reaped n pid, ?_, .inr (.inr ⟨rfl, rfl⟩)⟩
          simp only [view_phase, hview]
          exact .reaped hlive
      | ok new =>
          have hfresh := spawnService_fresh hspawn
          rw [hview] at hfresh
          refine ⟨.respawn .manualRestart n pid new, ?_, .inl ⟨new, rfl⟩⟩
          simp only [view_answerRestart, view_track, hview]
          exact .respawn hlive (.inl rfl) hfresh
      | error e =>
          refine ⟨.fallen n pid, ?_, .inr (.inl rfl)⟩
          simp only [view_setState, view_answerRestart, hview]
          exact .fallen hlive

/-- An automatic restart replaces the child, or ends the run with the child
reaped. -/
theorem autoRestart_move {w : World} {s s' : State} {n : String}
    {pid : Pid} (hlive : s.view.live pid = some n)
    (hview : s'.view = s.view.reap pid) :
    ∃ t, Move t s.view (autoRestart w s' n).view ∧
      ((∃ new, t = .respawn .autoRestart n pid new) ∨
        (t = .reaped n pid ∧ (autoRestart w s' n).phase.dead = true)) := by
  unfold autoRestart
  cases hdef : s'.svcByName.lookup n with
  | none =>
      refine ⟨.reaped n pid, ?_, .inr ⟨rfl, rfl⟩⟩
      simp only [view_phase, hview]
      exact .reaped hlive
  | some svc =>
      rcases spawnOrReturn_cases w s' .autoRestart n svc with
        ⟨hsame, hdead⟩ | ⟨new, hfresh, hrun⟩
      · refine ⟨.reaped n pid, ?_, .inr ⟨rfl, hdead⟩⟩
        simp only [hsame, hview]
        exact .reaped hlive
      · rw [hview] at hfresh
        refine ⟨.respawn .autoRestart n pid new, ?_, .inl ⟨new, rfl⟩⟩
        simp only [hrun, hview]
        exact .respawn hlive (.inr rfl) hfresh

/-- The bookkeeping of a final end. -/
theorem view_countEnding (s : State) (n : String) (ending : Ending)
    (exhausted : Bool) :
    (countEnding s n ending exhausted).view =
      s.view.finish n ending exhausted := by
  have hended := view_setState (s.note (.finished n ending exhausted)) n
    (if exhausted then .failed else .exited ending.code)
  unfold countEnding View.finish
  cases hfails : ending.fails exhausted && decide (n ∉ s.readyReported) with
  | true =>
      have hview : ending.fails exhausted && decide (n ∉ s.view.reported) :=
        hfails
      rw [if_pos hview]
      refine (congrArg State.view (if_pos hfails)).trans ?_
      rw [view_blockDependents]
      exact congrArg (fun v => v.count.block n) hended
  | false =>
      have hview : ¬ (ending.fails exhausted &&
          decide (n ∉ s.view.reported)) = true := by
        rw [Bool.not_eq_true]
        exact hfails
      rw [if_neg hview]
      refine (congrArg State.view (if_neg ?_)).trans ?_
      · rw [Bool.not_eq_true]
        exact hfails
      · exact congrArg View.count hended

/-- A final end, whether or not the name is new to `ready_reported`. Only if it
is new are the services that wait for it released. -/
theorem finishService_move {s s' : State} {n : String} {pid : Pid}
    (ending : Ending) (hlive : s.view.live pid = some n)
    (hview : s'.view = s.view.reap pid) :
    ∃ exhausted, Move (.finish n pid ending exhausted) s.view
      (finishService s' n ending).view := by
  let exhausted := restartExhausted s' n ending
  have hcount := view_countEnding s' n ending exhausted
  rw [hview] at hcount
  have hreported : (countEnding s' n ending exhausted).readyReported =
      s.readyReported := congrArg View.reported hcount
  refine ⟨exhausted, ?_⟩
  unfold finishService
  dsimp only
  rw [hreported]
  by_cases hn : n ∈ s.readyReported
  · rw [if_pos hn, hcount]
    exact .finishAgain hlive hn
  · rw [if_neg hn]
    have hreport : ({ countEnding s' n ending exhausted with
        readyReported := insert n s.readyReported } : State).view =
        ((s.view.reap pid).finish n ending exhausted).report n := by
      rw [← hcount, ← hreported]
      rfl
    obtain ⟨newly, hnew, hmark⟩ := view_markReady
      { countEnding s' n ending exhausted with
        readyReported := insert n s.readyReported } n
    rw [hreport] at hnew hmark
    rw [hmark]
    exact .finishFirst hlive hn hnew

/-- A child that is reported gone. For a child that is not tracked nothing
moves; otherwise the move is that of the restart promised, of the automatic
one, or of the final end. -/
theorem childEnded_move {cfg : Config} {w : World} {s : State} {pid : Pid}
    {rest : List Pid} {ending : Ending}
    (hstep : step cfg w s =
      childEnded w { s with phase := .poll rest } pid ending)
    (hfinal : endedForGood w s = finalEnd w s pid ending) :
    ∃ t, Move t s.view
      (childEnded w { s with phase := .poll rest } pid ending).view ∧
      Triggered cfg w s t := by
  cases hlive : s.pidToName.lookup pid with
  | none =>
      have hsame : childEnded w { s with phase := .poll rest } pid ending =
          { s with phase := .poll rest } := by
        simp only [childEnded, hlive]
      refine ⟨.quiet, ?_, True.intro⟩
      rw [hsame, view_phase]
      exact .quiet _
  | some n =>
      have hended : childEnded w { s with phase := .poll rest } pid ending =
          let s' : State :=
            { s with phase := .poll rest, pidToName := s.pidToName.erase pid }
          if n ∈ s.pendingRestart then
            manualRestart w
              { s' with pendingRestart := s.pendingRestart.erase n } n
          else if restartDue w s n ending then
            autoRestart w
              { s' with restartCounts := entry s.restartCounts n 0 (· + 1) } n
          else
            finishService
              { s' with restartCounts := entry s.restartCounts n 0 id } n
              ending := by
        simp only [childEnded, hlive]
        rfl
      rw [hended] at hstep ⊢
      dsimp only at hstep ⊢
      by_cases hpending : n ∈ s.pendingRestart
      · rw [if_pos hpending] at hstep ⊢
        have hview : ({ s with
            phase := .poll rest
            pidToName := s.pidToName.erase pid
            pendingRestart := s.pendingRestart.erase n } : State).view =
            s.view.reap pid := view_reap s pid
        obtain ⟨t, hmove, ht⟩ := manualRestart_move (w := w) hlive hview
        refine ⟨t, hmove, ?_⟩
        rcases ht with ⟨new, rfl⟩ | rfl | ⟨rfl, hdead⟩
        · exact True.intro
        · exact hpending
        · rw [Triggered, hstep]
          exact hdead
      · rw [if_neg hpending] at hstep ⊢
        by_cases hdue : restartDue w s n ending = true
        · rw [if_pos hdue] at hstep ⊢
          have hview : ({ s with
              phase := .poll rest
              pidToName := s.pidToName.erase pid
              restartCounts := entry s.restartCounts n 0 (· + 1) } :
                State).view = s.view.reap pid := view_reap s pid
          obtain ⟨t, hmove, ht⟩ := autoRestart_move (w := w) hlive hview
          refine ⟨t, hmove, ?_⟩
          rcases ht with ⟨new, rfl⟩ | ⟨rfl, hdead⟩
          · exact True.intro
          · rw [Triggered, hstep]
            exact hdead
        · rw [if_neg hdue] at hstep ⊢
          have hview : ({ s with
              phase := .poll rest
              pidToName := s.pidToName.erase pid
              restartCounts := entry s.restartCounts n 0 id } :
                State).view = s.view.reap pid := view_reap s pid
          obtain ⟨exhausted, hmove⟩ :=
            finishService_move ending hlive hview
          refine ⟨_, hmove, ?_⟩
          rw [Triggered, hfinal, finalEnd, hlive]
          exact if_neg (by simp [hpending, hdue])

/-- One polled child. An exit status or a signal is the end of the child, an
error of `waitpid` may lose it, and any other answer leaves it as it is. -/
theorem pollChild_move {cfg : Config} {w : World} {s : State} {pid : Pid}
    {rest : List Pid} (hphase : s.phase = .poll (pid :: rest)) :
    ∃ t, Move t s.view
      (pollChild w { s with phase := .poll rest } pid).view ∧
      Triggered cfg w s t := by
  have hstep : step cfg w s =
      pollChild w { s with phase := .poll rest } pid := by
    simp only [step, hphase]
  unfold pollChild at hstep ⊢
  cases hwait : w.waitpid with
  | exited code =>
      rw [hwait] at hstep
      refine childEnded_move hstep ?_
      simp only [endedForGood, hphase, hwait]
  | signaled sig =>
      rw [hwait] at hstep
      refine childEnded_move hstep ?_
      simp only [endedForGood, hphase, hwait]
  | echild =>
      refine ⟨.lost pid, ?_, hwait⟩
      have hview := view_reap s pid
      refine (congrArg (Move (.lost pid) s.view)
        (congrArg (fun v => (v.note (.lost pid)).count) hview)).mpr ?_
      exact .lost s.view pid
  | _ => exact ⟨.quiet, .quiet _, True.intro⟩

/-- **The loop makes only these moves.**  Each step of `run_with_marker`
changes the services in one of the ways `Move` lists, at the place in the code
and for the answers of the world that `Triggered` names. -/
theorem step_move (cfg : Config) (w : World) (s : State) :
    ∃ t, Move t s.view (step cfg w s).view ∧ Triggered cfg w s t := by
  have hready : ∀ n, readyMessage w s = some n →
      ∃ t, Move t s.view (reportReady s n).view ∧ Triggered cfg w s t := by
    intro n hn
    obtain ⟨t, hmove, ht⟩ := reportReady_move s n
    rcases ht with rfl | rfl
    · exact ⟨_, hmove, True.intro⟩
    · exact ⟨_, hmove, hn⟩
  have hquiet : (step cfg w s).view = s.view →
      ∃ t, Move t s.view (step cfg w s).view ∧ Triggered cfg w s t := by
    intro hview
    exact ⟨.quiet, hview.symm ▸ .quiet _, True.intro⟩
  cases hphase : s.phase with
  | commands =>
      cases hcommand : w.command with
      | none => exact hquiet (by simp only [step, hphase, hcommand]; rfl)
      | some command =>
          simpa only [step, hphase, hcommand] using
            runCommand_move hphase hcommand
  | readiness =>
      cases hn : w.ready with
      | none => exact hquiet (by simp only [step, hphase, hn]; rfl)
      | some n =>
          simpa only [step, hphase, hn] using
            hready n (by simp only [readyMessage, hphase, hn])
  | launch =>
      cases hpop : pop s.toStart with
      | none => exact hquiet (by simp only [step, hphase, hpop]; rfl)
      | some taken =>
          obtain ⟨n, rest⟩ := taken
          simpa only [step, hphase, hpop] using
            launchService_move hphase (pop_eq_some.mp hpop)
  | wait =>
      cases hn : w.ready with
      | none => exact hquiet (by simp only [step, hphase, hn]; rfl)
      | some n =>
          simpa only [step, hphase, hn, view_phase] using
            hready n (by simp only [readyMessage, hphase, hn])
  | poll pids =>
      cases pids with
      | nil => exact hquiet (by simp only [step, hphase]; rfl)
      | cons pid rest =>
          simpa only [step, hphase] using pollChild_move hphase
  | top => exact hquiet (by simp only [step, hphase]; rfl)
  | left exit => exact hquiet (by simp only [step, hphase]; rfl)
  | _ => exact hquiet (by simp only [step, hphase])

end FlintInit
