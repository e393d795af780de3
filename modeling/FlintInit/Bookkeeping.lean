import FlintInit.GraphRelease
import FlintInit.Library.Runs
import FlintInit.Supervision

/-!
# What every run of the loop keeps

The invariants of the launch queue and of the processes.

`Queued`: a service is put on the launch queue when its counter reaches zero
and never again, so the names taken from the queue and those still on it are
distinct services whose counter is zero.

`Single`: as long as the launch loop and the commands spawn for services
without a process, no service has two.  `Tracked`: as long as the launch loop
takes no service that has one, a service with a process is also shown running
or ready, and `Start` and `Restart` then spawn nothing that runs already.

All are proved over moves and carried to runs by the simulation.
-/

namespace FlintInit

open Collections Release Runs

/-! ## Reading the log -/

namespace Event

def poppedName : Event → Option String
  | .popped n => some n
  | _ => none

/-- The events that add one to `completed` for a service. -/
def countedName : Event → Option String
  | .blocked n => some n
  | .finished n _ _ => some n
  | _ => none

def markedName : Event → Option String
  | .marked n => some n
  | _ => none

def spawnedName : Event → Option String
  | .spawned _ n _ => some n
  | _ => none

/-- The services spawned by the launch loop. -/
def launchedName : Event → Option String
  | .spawned .launch n _ => some n
  | _ => none

end Event

namespace View

variable (v : View)

/-- The names the launch loop has taken from the queue. -/
def popped : List String := v.log.filterMap Event.poppedName

/-- The names counted as completed. -/
def counted : List String := v.log.filterMap Event.countedName

/-- The names `mark_ready` was called with. -/
def marks : List String := v.log.filterMap Event.markedName

/-- The names a process was spawned for. -/
def spawned : List String := v.log.filterMap Event.spawnedName

/-- A service is counted by being skipped as blocked or by ending for good;
nothing else adds to `completed` under a name. -/
theorem mem_counted {v : View} {n : String} :
    n ∈ v.counted ↔
      .blocked n ∈ v.log ∨ ∃ ending x, .finished n ending x ∈ v.log := by
  simp only [counted, List.mem_filterMap]
  constructor
  · intro ⟨e, he, hn⟩
    cases e with
    | blocked m =>
        cases hn
        exact .inl he
    | finished m ending x =>
        cases hn
        exact .inr ⟨ending, x, he⟩
    | _ => cases hn
  · intro he
    rcases he with he | ⟨ending, x, he⟩
    · exact ⟨_, he, rfl⟩
    · exact ⟨_, he, rfl⟩

end View

/-! ## The launch queue -/

/-- What the launch queue holds and has held: the services whose counter is
zero, each of them once. -/
structure Queued (N : Net String) (v : View) : Prop where
  total : v.total = N.nodes.card
  dependents : v.shape.dependents = N.succs
  nodup : (v.popped ++ v.queue).Nodup
  mem_iff : ∀ x, x ∈ v.popped ++ v.queue ↔ x ∈ N.nodes ∧ v.degree x = 0

namespace Queued

variable {N : Net String} {v v' : View}

/-- Only the graph, the counters and the queue matter. -/
theorem congr (h : Queued N v) (htotal : v'.total = v.total)
    (hshape : v'.shape = v.shape) (hpopped : v'.popped = v.popped)
    (hqueue : v'.queue = v.queue) (hdegree : v'.degree = v.degree) :
    Queued N v' := by
  refine ⟨?_, ?_, ?_, ?_⟩
  · rw [htotal]; exact h.total
  · rw [hshape]; exact h.dependents
  · rw [hpopped, hqueue]; exact h.nodup
  · rw [hpopped, hqueue, hdegree]; exact h.mem_iff

/-- What the launch loop has taken from its queue is a service of the graph
that waits for nothing any more. -/
theorem popped_sub (h : Queued N v) {x : String} (hx : x ∈ v.popped) :
    x ∈ N.nodes ∧ v.degree x = 0 :=
  (h.mem_iff x).mp (List.mem_append_left _ hx)

/-- So is what still stands on the queue. -/
theorem queue_sub (h : Queued N v) {x : String} (hx : x ∈ v.queue) :
    x ∈ N.nodes ∧ v.degree x = 0 :=
  (h.mem_iff x).mp (List.mem_append_right _ hx)

/-- **One mark** queues the services whose counter it brings to zero, hence
none that has been on the queue before. -/
theorem mark (h : Queued N v) {n : String} {newly : List String}
    (hnew : v.Releases n newly) : Queued N (v.mark n newly) := by
  have happ : (v.mark n newly).popped ++ (v.mark n newly).queue =
      (v.popped ++ v.queue) ++ newly :=
    (List.append_assoc v.popped v.queue newly).symm
  refine ⟨h.total, h.dependents, ?_, fun x => ?_⟩
  · rw [happ]
    refine h.nodup.append hnew.1 ?_
    intro x hx hx'
    have hzero := ((h.mem_iff x).mp hx).2
    have hpos := ((hnew.2 x).mp hx').1
    omega
  · rw [happ, List.mem_append, h.mem_iff, hnew.2]
    change _ ↔ x ∈ N.nodes ∧ v.degree x - (v.shape.dependents n).count x = 0
    constructor
    · intro hx
      rcases hx with ⟨hnode, hzero⟩ | ⟨hpos, hle⟩
      · exact ⟨hnode, by omega⟩
      · refine ⟨?_, by omega⟩
        rw [h.dependents] at hle
        exact N.dst_mem (List.count_pos_iff.mp (Nat.lt_of_lt_of_le hpos hle))
    · intro ⟨hnode, hzero⟩
      by_cases hdeg : v.degree x = 0
      · exact .inl ⟨hnode, hdeg⟩
      · exact .inr (by omega)

/-- A pop moves a name from one list to the other. -/
theorem popTo (h : Queued N v) {n : String} {rest : List String}
    (hq : v.queue = rest ++ [n]) : Queued N (v.popTo n rest) := by
  have hperm : ((v.popTo n rest).popped ++ (v.popTo n rest).queue).Perm
      (v.popped ++ v.queue) := by
    change (n :: (v.popped ++ rest)).Perm (v.popped ++ v.queue)
    rw [hq, ← List.append_assoc]
    exact (List.perm_append_singleton n (v.popped ++ rest)).symm
  refine ⟨h.total, h.dependents, hperm.nodup_iff.mpr h.nodup, fun x => ?_⟩
  rw [hperm.mem_iff]
  exact h.mem_iff x

/-- **Every move keeps the queue exact.** -/
theorem move (h : Queued N v) {t : Trigger} (hmove : Move t v v') :
    Queued N v' := by
  cases hmove with
  | quiet => exact h
  | @ready _ n newly hn hnew =>
      have hready : Queued N (((v.report n).note (.ready n)).setState n
          .ready) := h.congr rfl rfl rfl rfl rfl
      exact hready.mark hnew
  | @popBlocked _ n rest newly hq hb hnew =>
      have hblocked : Queued N ((((v.popTo n rest).note (.blocked n)).setState
          n .failed).block n) := (h.popTo hq).congr rfl rfl rfl rfl rfl
      exact (hblocked.mark hnew).congr rfl rfl rfl rfl rfl
  | popIdle hq hb => exact h.popTo hq
  | launch hq hb hfresh => exact (h.popTo hq).congr rfl rfl rfl rfl rfl
  | @finishFirst _ n pid ending exhausted newly hlive hn hnew =>
      have hreport : Queued N (((v.reap pid).finish n ending exhausted).report
          n) := h.congr rfl rfl rfl rfl rfl
      exact hreport.mark hnew
  | _ => exact h.congr rfl rfl rfl rfl rfl

/-- What is on the queue has not been taken from it before. -/
theorem notMem_popped (h : Queued N v) {n : String} {rest : List String}
    (hq : v.queue = rest ++ [n]) : n ∉ v.popped := by
  intro hn
  have hdisj := (List.nodup_append.mp h.nodup).2.2
  exact hdisj n hn n (by simp [hq]) rfl

end Queued

/-! ## Processes -/

/-- The name a move takes from the launch queue. -/
def Trigger.pops : Trigger → Option String
  | .popBlocked n => some n
  | .popIdle n => some n
  | .launch n _ => some n
  | _ => none

/-- A pop is caused by the launch loop. -/
theorem nextPop_of_pops {cfg : Config} {w : World} {s : State} {t : Trigger}
    {n : String} (ht : Triggered cfg w s t) (hpops : t.pops = some n) :
    nextPop s = some n := by
  cases t with
  | popBlocked m => cases hpops; exact ht
  | popIdle m => cases hpops; exact ht.1
  | launch m pid => cases hpops; exact ht
  | _ => cases hpops

/-- What is taken from the queue is at its end. -/
theorem queue_of_nextPop {s : State} {n : String} (h : nextPop s = some n) :
    ∃ rest, s.view.queue = rest ++ [n] := by
  unfold nextPop at h
  split at h
  · obtain ⟨taken, hpop, heq⟩ := Option.map_eq_some_iff.mp h
    subst heq
    exact ⟨taken.2, pop_eq_some.mp hpop⟩
  · cases h

/-- Each service has one process at most. -/
def Single (v : View) : Prop :=
  ∀ p q n, v.live p = some n → v.live q = some n → p = q

/-- Each service has one process at most, and is shown up if it has one. -/
structure Tracked (v : View) : Prop where
  single : Single v
  up : ∀ p n, v.live p = some n → ∃ st, v.state n = some st ∧ st.up = true

section Live

variable {v v' : View}

/-- What lives on after one child has been reaped. -/
theorem View.live_reap {pid p : Pid} {n : String} :
    (v.reap pid).live p = some n ↔ p ≠ pid ∧ v.live p = some n := by
  by_cases hp : p = pid
  · simp [View.reap, hp]
  · simp [View.reap, hp]

/-- What lives on after a spawn: the new child, and what is not hidden by its
pid. -/
theorem View.live_run {cause : Cause} {n m : String} {pid p : Pid} :
    (v.run cause n pid).live p = some m ↔
      (p = pid ∧ m = n) ∨ (p ≠ pid ∧ v.live p = some m) := by
  by_cases hp : p = pid
  · simp [View.run, hp, eq_comm]
  · simp [View.run, hp]

namespace Single

/-- Only the tracked children matter. -/
theorem congr (h : Single v) (hlive : v'.live = v.live) : Single v' := by
  unfold Single
  rw [hlive]
  exact h

/-- A child less leaves no service with more processes. -/
theorem reap (h : Single v) (pid : Pid) : Single (v.reap pid) := by
  intro p q n hp hq
  exact h p q n (View.live_reap.mp hp).2 (View.live_reap.mp hq).2

/-- With its process gone a service has none. -/
theorem idle_reap (h : Single v) {pid : Pid} {n : String}
    (hlive : v.live pid = some n) : (v.reap pid).Idle n := by
  intro p hp
  obtain ⟨hne, hp⟩ := View.live_reap.mp hp
  exact hne (h p pid n hp hlive)

/-- A new process of a service that has none. -/
theorem run (h : Single v) {n : String} (hidle : v.Idle n) (cause : Cause)
    (pid : Pid) : Single (v.run cause n pid) := by
  intro p q m hp hq
  rcases View.live_run.mp hp with ⟨rfl, rfl⟩ | ⟨_, hp'⟩
  · rcases View.live_run.mp hq with ⟨rfl, _⟩ | ⟨_, hq'⟩
    · rfl
    · exact absurd hq' (hidle q)
  · rcases View.live_run.mp hq with ⟨rfl, rfl⟩ | ⟨_, hq'⟩
    · exact absurd hp' (hidle p)
    · exact h p q m hp' hq'

/-- **Every move keeps one process per service**, provided the launch loop and
the commands spawn for services without one. -/
theorem move (h : Single v) {t : Trigger} (hmove : Move t v v')
    (hlaunch : ∀ n pid, t = .launch n pid → n ∉ v.blocked → v.Idle n)
    (hdemand : ∀ n pid, t = .demand n pid → v.Idle n) : Single v' := by
  cases hmove with
  | @launch _ n rest pid hq hb hfresh =>
      have hpop : Single (v.popTo n rest) := h
      exact hpop.run (hlaunch n pid rfl hb) .launch pid
  | @demand _ n pid hidle hfresh =>
      exact h.run (hdemand n pid rfl) .command pid
  | @respawn _ n old new cause hlive hcause hfresh =>
      exact (h.reap old).run (h.idle_reap hlive) cause new
  | @fallen _ n pid hlive => exact (h.reap pid).congr rfl
  | @reaped _ n pid hlive => exact h.reap pid
  | @finishAgain _ n pid ending exhausted hlive hn =>
      exact (h.reap pid).congr rfl
  | @finishFirst _ n pid ending exhausted newly hlive hn hnew =>
      exact (h.reap pid).congr rfl
  | lost _ pid => exact (h.reap pid).congr rfl
  | _ => exact h.congr rfl

end Single

end Live

namespace Tracked

variable {v v' : View}

/-- Only the tracked children and the states matter. -/
theorem congr (h : Tracked v) (hlive : v'.live = v.live)
    (hstate : v'.state = v.state) : Tracked v' := by
  refine ⟨h.single.congr hlive, ?_⟩
  rw [hlive, hstate]
  exact h.up

/-- Reaping a child leaves the others with their states. -/
theorem reap (h : Tracked v) (pid : Pid) : Tracked (v.reap pid) :=
  ⟨h.single.reap pid, fun p n hp => h.up p n (View.live_reap.mp hp).2⟩

/-- The state of a service may change freely if it has no process, and from
up to up if it has. -/
theorem setState (h : Tracked v) {n : String} {st : ServiceState}
    (hst : v.Idle n ∨ st.up = true) : Tracked (v.setState n st) := by
  refine ⟨h.single, fun p m hp => ?_⟩
  change ∃ st', Function.update v.state n (some st) m = some st' ∧ _
  by_cases hm : m = n
  · subst hm
    rcases hst with hidle | hup
    · exact absurd hp (hidle p)
    · exact ⟨st, by simp, hup⟩
  · rw [Function.update_of_ne hm]
    exact h.up p m hp

/-- A new process of a service that has none. -/
theorem run (h : Tracked v) {n : String} (hidle : v.Idle n) (cause : Cause)
    (pid : Pid) : Tracked (v.run cause n pid) := by
  refine ⟨h.single.run hidle cause pid, fun p m hp => ?_⟩
  change ∃ st, Function.update v.state n (some (.running pid)) m =
    some st ∧ st.up = true
  by_cases hm : m = n
  · subst hm
    exact ⟨.running pid, by simp, rfl⟩
  · rw [Function.update_of_ne hm]
    rcases View.live_run.mp hp with ⟨_, rfl⟩ | ⟨_, hp'⟩
    · exact absurd rfl hm
    · exact h.up p m hp'

/-- What a command may spawn has no process. -/
theorem idle_of_demand (h : Tracked v) {n : String}
    (hidle : (∃ st, v.state n = some st ∧ st.up = false) ∨ v.Idle n) :
    v.Idle n := by
  rcases hidle with ⟨st, hst, hdown⟩ | hidle
  · intro p hp
    obtain ⟨st', hst', hup⟩ := h.up p n hp
    rw [hst] at hst'
    cases hst'
    rw [hdown] at hup
    cases hup
  · exact hidle

/-- **Every move keeps the processes and their states together**, provided the
launch loop takes no service that has one. -/
theorem move (h : Tracked v) {t : Trigger} (hmove : Move t v v')
    (hpops : ∀ n, t.pops = some n → v.Idle n) : Tracked v' := by
  cases hmove with
  | quiet => exact h
  | ready hn hnew =>
      exact (h.setState (.inr rfl)).congr rfl rfl
  | popBlocked hq hb hnew =>
      exact (h.setState (.inl (hpops _ rfl))).congr rfl rfl
  | popIdle hq hb => exact h.congr rfl rfl
  | @launch _ n rest pid hq hb hfresh =>
      have hpop : Tracked (v.popTo n rest) := h.congr rfl rfl
      exact hpop.run (hpops _ rfl) .launch pid
  | demand hidle hfresh => exact h.run (h.idle_of_demand hidle) _ _
  | respawn hlive hcause hfresh =>
      exact (h.reap _).run (h.single.idle_reap hlive) _ _
  | fallen hlive =>
      exact (h.reap _).setState (.inl (h.single.idle_reap hlive))
  | reaped hlive => exact h.reap _
  | finishAgain hlive hn =>
      exact ((h.reap _).setState (.inl (h.single.idle_reap hlive))).congr
        rfl rfl
  | finishFirst hlive hn hnew =>
      exact ((h.reap _).setState (.inl (h.single.idle_reap hlive))).congr
        rfl rfl
  | lost _ pid => exact (h.reap pid).congr rfl rfl

end Tracked

/-! ## The state in which the loop is entered -/

/-- The loop after the answers `ws` of the world. -/
def runWithMarker (cfg : Config) (readFile : String → Except String String)
    (order : IterOrder String) (g : ServiceGraph)
    (services : List ServiceDef) (ws : List World) : State :=
  run (step cfg) (initial cfg readFile order g services) ws

/-- Each step of that run is taken in a state, and with answers, that `ok`
allows. -/
def EveryStep (ok : World → State → Prop) (cfg : Config)
    (readFile : String → Except String String) (order : IterOrder String)
    (g : ServiceGraph) (services : List ServiceDef) (ws : List World) : Prop :=
  Meets (step cfg) ok (initial cfg readFile order g services) ws

instance (ok : World → State → Prop) [∀ w s, Decidable (ok w s)]
    (cfg : Config) (readFile : String → Except String String)
    (order : IterOrder String) (g : ServiceGraph)
    (services : List ServiceDef) (ws : List World) :
    Decidable (EveryStep ok cfg readFile order g services ws) :=
  inferInstanceAs (Decidable (Meets (step cfg) ok _ ws))

section Initial

variable {orders : BuildOrders} {services : List ServiceDef}
  {g : ServiceGraph} (cfg : Config)
  (readFile : String → Except String String) (order : IterOrder String)

/-- When the loop is entered, the queue holds the services that depend on
nothing known, each of them once, and nothing has been taken. -/
theorem initial_queued
    (hg : ServiceGraph.build orders services = .ok (.ok g)) :
    Queued (waitNet orders services)
      (initial cfg readFile order g services).view := by
  have hbuilt := build_built hg
  refine ⟨?_, funext hbuilt.graphAt.dependents,
    nodup_initiallyReady g order, fun x => ?_⟩
  · change g.len = (services.map ServiceDef.name).toFinset.card
    rw [List.toFinset_card_of_nodup hbuilt.nodup, hbuilt.len,
      List.length_map]
  · change x ∈ g.initiallyReady order ↔ _ ∧ g.degree x = 0
    rw [hbuilt.mem_initiallyReady, hbuilt.graphAt.degree, mem_waitNet_nodes]

/-- When the loop is entered there are no children at all. -/
theorem initial_tracked (g : ServiceGraph) (services : List ServiceDef) :
    Tracked (initial cfg readFile order g services).view :=
  ⟨fun _ _ _ hp => (nomatch hp), fun _ _ hp => (nomatch hp)⟩

end Initial

/-! ## Leaving the loop -/

/-- Spawning and answering go on in the same phase or end the run. -/
private theorem spawnOnDemand_phase (w : World) (s : State) (n : String)
    (reply : ReplySender) :
    (spawnOnDemand w s n reply).phase = s.phase ∨
      (spawnOnDemand w s n reply).phase.dead = true := by
  unfold spawnOnDemand
  cases s.svcByName.lookup n with
  | none => exact .inl rfl
  | some svc =>
      dsimp only
      cases spawnService w s.pidToName.keys svc with
      | panicked => exact .inr rfl
      | error e => exact .inl rfl
      | ok pid => exact .inl rfl

/-- A restart that is asked for does not move the loop on. -/
theorem requestRestart_phase (w : World) (s : State) (n : String)
    (reply : ReplySender) : (requestRestart w s n reply).phase = s.phase := by
  obtain ⟨kills, heq⟩ := requestRestart_eq w s n reply
  rw [heq]

/-- A command is answered in the same phase, or its spawn ends the run. Only a
panic in splitting `exec` does: a spawn that fails is answered to whoever asked
for it. -/
private theorem runCommand_phase (cfg : Config) (w : World) (s : State)
    (command : CtlCommand) :
    (runCommand cfg w s command).phase = s.phase ∨
      (runCommand cfg w s command).phase.dead = true := by
  cases command with
  | start n reply =>
      have hspawn := spawnOnDemand_phase w s n reply
      unfold runCommand startCommand
      dsimp only
      split
      · exact .inl rfl
      · exact .inl rfl
      · exact .inl rfl
      · exact hspawn
  | restart n reply =>
      have hspawn := spawnOnDemand_phase w s n reply
      have hask := requestRestart_phase w s n reply
      unfold runCommand restartCommand
      dsimp only
      split
      · exact .inl rfl
      · exact .inl hask
      · exact .inl hask
      · exact hspawn
  | reload n reply =>
      have hang : (hangUp w s n).phase = s.phase := by
        obtain ⟨kills, heq⟩ := hangUp_eq w s n
        rw [heq]
      unfold runCommand reloadCommand
      dsimp only
      split
      · exact .inl hang
      · exact .inl hang
      · exact .inl hang
      · exact .inl hang
      · split
        · rw [requestRestart_phase]
          exact .inl hang
        · rw [← hang]
          exact spawnOnDemand_phase w _ n reply

/-- A readiness report does not move the loop on. -/
private theorem reportReady_phase (s : State) (n : String) :
    (reportReady s n).phase = s.phase := by
  unfold reportReady
  split <;> rfl

/-- A spawn whose error is returned goes on in the same phase or ends the run.
-/
private theorem spawnOrReturn_phase (w : World) (s : State) (cause : Cause)
    (n : String) (svc : ServiceDef) :
    (spawnOrReturn w s cause n svc).phase = s.phase ∨
      (spawnOrReturn w s cause n svc).phase.dead = true := by
  unfold spawnOrReturn
  split
  · exact .inr rfl
  · exact .inr rfl
  · exact .inl rfl

/-- A name taken from the queue leaves the loop in its phase, unless its spawn
ends the run. -/
private theorem launchService_phase (w : World) (s : State) (n : String) :
    (launchService w s n).phase = s.phase ∨
      (launchService w s n).phase.dead = true := by
  rcases launchService_cases w s n with
    ⟨_, heq⟩ | ⟨_, _, heq⟩ | ⟨svc, _, _, heq⟩
  · rw [heq]
    exact .inl rfl
  · rw [heq]
    exact .inl rfl
  · have hremove : (removeStale (s.note (.popped n)) svc).phase =
        s.phase := by
      obtain ⟨removed, hstale⟩ := removeStale_eq (s.note (.popped n)) svc
      rw [hstale]
      rfl
    rw [heq, ← hremove]
    exact spawnOrReturn_phase w _ .launch n svc

/-- A service that ends for good does not move the loop on. -/
theorem finishService_phase (s : State) (n : String)
    (ending : Ending) : (finishService s n ending).phase = s.phase := by
  obtain ⟨st, new, graph, blocked, reported, toStart, -, -, heq⟩ :=
    finishService_eq s n ending
  rw [heq]
  rfl

/-- Nor does the answer to who asked for a restart. -/
private theorem answerRestart_phase (s : State) (n : String)
    (answer : Except ReplyError Unit) :
    (answerRestart s n answer).phase = s.phase := by
  obtain ⟨replies, restartReplies, heq⟩ := answerRestart_eq s n answer
  rw [heq]

/-- The end of a child leaves the loop in its phase, unless a respawn fails and
is returned. -/
private theorem childEnded_phase (w : World) (s : State) (pid : Pid)
    (ending : Ending) :
    (childEnded w s pid ending).phase = s.phase ∨
      (childEnded w s pid ending).phase.dead = true := by
  unfold childEnded
  dsimp only
  split
  · exact .inl rfl
  · split
    · unfold manualRestart
      split
      · exact .inr rfl
      · split
        · exact .inr rfl
        · exact .inl (answerRestart_phase _ _ _)
        · exact .inl (answerRestart_phase _ _ _)
    · split
      · unfold autoRestart
        split
        · exact .inr rfl
        · exact spawnOrReturn_phase w _ .autoRestart _ _
      · exact .inl (finishService_phase _ _ _)

/-- So does a poll, whatever `waitpid` answers. -/
private theorem pollChild_phase (w : World) (s : State) (pid : Pid) :
    (pollChild w s pid).phase = s.phase ∨
      (pollChild w s pid).phase.dead = true := by
  unfold pollChild
  split
  · exact childEnded_phase w s pid _
  · exact childEnded_phase w s pid _
  · exact .inl rfl
  · exact .inl rfl
  · exact .inl rfl
  · exact .inl rfl
  · exact .inr rfl

/-- The loop is left from the end of the launch loop only, and leaving it
changes nothing. -/
theorem step_left {cfg : Config} {w : World} {s : State} {exit : Exit}
    (h : (step cfg w s).phase = .left exit) :
    s.phase = .launch ∧ s.toStart = [] ∧ afterLaunch s = .left exit ∧
      step cfg w s = { s with phase := .left exit } := by
  -- A place that stays in its phase or ends the run does not leave the loop.
  have hkept : ∀ s' : State, step cfg w s = s' →
      s'.phase = s.phase ∨ s'.phase.dead = true → s.phase = .left exit := by
    intro s' hstep hphase
    rw [hstep] at h
    rcases hphase with hsame | hdead
    · rw [← hsame, h]
    · rw [h] at hdead
      cases hdead
  cases hphase : s.phase with
  | top =>
      simp only [step, hphase] at h
      split at h <;> cases h
  | commands =>
      cases hcommand : w.command with
      | none => simp [step, hphase, hcommand] at h
      | some command =>
          have hleft := hkept (runCommand cfg w s command)
            (by simp only [step, hphase, hcommand]) (runCommand_phase ..)
          rw [hphase] at hleft
          cases hleft
  | readiness =>
      cases hready : w.ready with
      | none => simp [step, hphase, hready] at h
      | some n =>
          have hleft := hkept (reportReady s n)
            (by simp only [step, hphase, hready])
            (.inl (reportReady_phase s n))
          rw [hphase] at hleft
          cases hleft
  | launch =>
      cases hpop : pop s.toStart with
      | none =>
          have hstep : step cfg w s = { s with phase := afterLaunch s } := by
            simp only [step, hphase, hpop]
          rw [hstep] at h ⊢
          have hafter : afterLaunch s = .left exit := h
          exact ⟨rfl, pop_eq_none.mp hpop, hafter, by rw [hafter]⟩
      | some taken =>
          obtain ⟨n, rest⟩ := taken
          have hleft := hkept
            (launchService w { s with toStart := rest } n)
            (by simp only [step, hphase, hpop]) (launchService_phase ..)
          rw [hphase] at hleft
          cases hleft
  | wait => simp [step, hphase] at h
  | poll pids =>
      cases pids with
      | nil => simp [step, hphase] at h
      | cons pid rest =>
          have hstep : step cfg w s =
              pollChild w { s with phase := .poll rest } pid := by
            simp only [step, hphase]
          rw [hstep] at h
          rcases pollChild_phase w { s with phase := .poll rest } pid with
            hsame | hdead
          · rw [h] at hsame
            cases hsame
          · rw [h] at hdead
            cases hdead
  | shutdown => simp [step, hphase] at h
  | left exit' => simp [step, hphase] at h
  | returned => simp [step, hphase] at h
  | failed e => simp [step, hphase] at h
  | panicked => simp [step, hphase] at h

/-- What the two exit tests say. -/
def Exit.Test (s : State) : Exit → Prop
  | .allCompleted => s.total ≤ s.completed
  | .noChildren => s.pidToName.keys = []

/-- In a state that has just left the loop the queue is empty and the test
that was passed still holds. -/
theorem step_left_test {cfg : Config} {w : World} {s : State} {exit : Exit}
    (h : (step cfg w s).phase = .left exit) :
    (step cfg w s).toStart = [] ∧ exit.Test (step cfg w s) := by
  obtain ⟨_, hqueue, hafter, hstep⟩ := step_left h
  rw [hstep]
  refine ⟨hqueue, ?_⟩
  unfold afterLaunch at hafter
  by_cases hall : s.total ≤ s.completed
  · rw [if_pos hall] at hafter
    cases hafter
    exact hall
  · rw [if_neg hall] at hafter
    by_cases hnone : s.pidToName.keys = []
    · rw [if_pos hnone] at hafter
      cases hafter
      exact hnone
    · rw [if_neg hnone] at hafter
      cases hafter

/-- There is no further step: the executor returns from here. -/
def Phase.finished : Phase → Bool
  | .shutdown => true
  | .returned => true
  | .failed _ => true
  | .panicked => true
  | _ => false

/-- The loop has been left. -/
def Phase.over : Phase → Bool
  | .shutdown => true
  | .left _ => true
  | .returned => true
  | .failed _ => true
  | .panicked => true
  | _ => false

/-- How a step leaves the loop: it ends the run, it finds the shutdown flag
set, or it has passed one of the exit tests. -/
theorem step_over {cfg : Config} {w : World} {s : State}
    (hgoing : s.phase.over = false)
    (h : (step cfg w s).phase.over = true) :
    (step cfg w s).phase.dead = true ∨
      ((step cfg w s).phase = .shutdown ∧ w.shutdown = true) ∨
      ∃ exit, (step cfg w s).phase = .left exit := by
  have hkept : ∀ s' : State, step cfg w s = s' →
      s'.phase = s.phase ∨ s'.phase.dead = true →
      (step cfg w s).phase.dead = true := by
    intro s' hstep hphase
    rw [hstep] at h ⊢
    rcases hphase with hsame | hdead
    · rw [hsame, hgoing] at h
      cases h
    · exact hdead
  cases hphase : s.phase with
  | top =>
      cases hshut : w.shutdown with
      | true =>
          refine .inr (.inl ⟨?_, rfl⟩)
          simp only [step, hphase, hshut]
          rfl
      | false =>
          simp only [step, hphase, hshut] at h
          cases h
  | commands =>
      cases hcommand : w.command with
      | none =>
          simp only [step, hphase, hcommand] at h
          cases h
      | some command =>
          exact .inl (hkept (runCommand cfg w s command)
            (by simp only [step, hphase, hcommand]) (runCommand_phase ..))
  | readiness =>
      cases hready : w.ready with
      | none =>
          simp only [step, hphase, hready] at h
          cases h
      | some n =>
          exact .inl (hkept (reportReady s n)
            (by simp only [step, hphase, hready])
            (.inl (reportReady_phase s n)))
  | launch =>
      cases hpop : pop s.toStart with
      | none =>
          simp only [step, hphase, hpop] at h ⊢
          unfold afterLaunch at h ⊢
          split
          · exact .inr (.inr ⟨_, rfl⟩)
          · split
            · exact .inr (.inr ⟨_, rfl⟩)
            · rename_i hall hsome
              rw [if_neg hall, if_neg hsome] at h
              cases h
      | some taken =>
          obtain ⟨n, rest⟩ := taken
          exact .inl (hkept (launchService w { s with toStart := rest } n)
            (by simp only [step, hphase, hpop]) (launchService_phase ..))
  | wait =>
      simp only [step, hphase] at h
      cases h
  | poll pids =>
      cases pids with
      | nil =>
          simp only [step, hphase] at h
          cases h
      | cons pid rest =>
          have hstep : step cfg w s =
              pollChild w { s with phase := .poll rest } pid := by
            simp only [step, hphase]
          rcases pollChild_phase w { s with phase := .poll rest } pid with
            hsame | hdead
          · rw [hstep, hsame] at h
            cases h
          · rw [hstep]
            exact .inl hdead
  | _ =>
      rw [hphase] at hgoing
      cases hgoing

end FlintInit
