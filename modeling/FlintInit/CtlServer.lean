import FlintInit.FailedServices

/-!
# Stop requests

`flint-ctl stop` is served by a thread of the control server, next to the
executor: it reads the pid that the shared table shows, sends SIGTERM and
answers.  The executor hears nothing of it; what it does when the process ends
is decided by the restart policy.

`System` puts the executor and any number of such requests side by side, each
taking its own steps, in any order.
-/

namespace FlintInit

open Collections Release Runs

inductive Response where
  | ok
  | error (text : String)
  deriving DecidableEq

/-- A connection that carries a stop request, and how far it has come. -/
inductive StopRequest where
  | received (uid : Option Nat) (service : String)
  | found (service : String) (pid : Pid)
  | signalled (service : String)
  | answered (service : String) (response : Response)
  deriving DecidableEq

/-- The next step of `handle_connection`: check the peer and look the service
up under the lock, send the signal, answer.  Errors of `kill` are ignored. -/
def StopRequest.step (shared : Table String ServiceInfo) :
    StopRequest → StopRequest × List (String × Pid × Signal)
  | .received uid service =>
      if uid = some 0 then
        match (shared.lookup service).bind (·.pid) with
        | some pid => (.found service pid, [])
        | none =>
            (.answered service (.error ("service '" ++ service ++
              "' not found or not running")), [])
      else
        (.answered service
          (.error "permission denied: root access required"), [])
  | .found service pid => (.signalled service, [(service, pid, .sigterm)])
  | .signalled service => (.answered service .ok, [])
  | .answered service response => (.answered service response, [])

/-- The executor, the requests being served, and the signals they have sent,
each with the service it was meant for. -/
structure System where
  executor : State
  requests : List StopRequest
  signals : List (String × Pid × Signal)

/-- Who acts next. -/
inductive CtlAction where
  | executor (w : World)
  | connect (uid : Option Nat) (service : String)
  | serve (i : Nat)

def System.step (cfg : Config) (action : CtlAction) (sys : System) : System :=
  match action with
  | .executor w => { sys with executor := FlintInit.step cfg w sys.executor }
  | .connect uid service =>
      { sys with requests := sys.requests ++ [.received uid service] }
  | .serve i =>
      match sys.requests[i]? with
      | none => sys
      | some request =>
          let next := request.step sys.executor.shared
          { sys with
            requests := sys.requests.set i next.1
            signals := next.2 ++ sys.signals }

/-- The system when the executor enters its loop. -/
def System.initial (cfg : Config) (readFile : String → Except String String)
    (order : IterOrder String) (g : ServiceGraph)
    (services : List ServiceDef) : System :=
  ⟨FlintInit.initial cfg readFile order g services, [], []⟩

/-! ## What a request does -/

/-- The service a request claims to have sent a signal for. -/
def StopRequest.claims : StopRequest → Option String
  | .signalled n => some n
  | .answered n .ok => some n
  | _ => none

/-- A request comes to such a claim by sending the signal. -/
theorem StopRequest.claims_step (shared : Table String ServiceInfo)
    (request : StopRequest) {n : String}
    (h : (request.step shared).1.claims = some n) :
    request.claims = some n ∨
      ∃ pid, (n, pid, .sigterm) ∈ (request.step shared).2 := by
  cases request with
  | received uid service =>
      unfold StopRequest.step at h
      dsimp only at h
      split at h
      · split at h <;> cases h
      · cases h
  | found service pid =>
      cases h
      exact .inr ⟨pid, List.mem_singleton_self _⟩
  | signalled service => exact .inl h
  | answered service response => exact .inl h

/-- Every claim is true. -/
def Truthful (sys : System) : Prop :=
  ∀ request ∈ sys.requests, ∀ n ∈ request.claims,
    ∃ pid, (n, pid, .sigterm) ∈ sys.signals

/-- A request claims to have signalled only after it has sent the signal, and
no signal is taken back. -/
theorem Truthful.step {sys : System} (h : Truthful sys) (cfg : Config)
    (action : CtlAction) : Truthful (sys.step cfg action) := by
  cases action with
  | executor w => exact h
  | connect uid service =>
      intro request hin n hn
      rcases List.mem_append.mp hin with hold | hnew
      · exact h request hold n hn
      · cases List.mem_singleton.mp hnew
        cases hn
  | serve i =>
      cases hi : sys.requests[i]? with
      | none =>
          have hsame : sys.step cfg (.serve i) = sys := by
            simp only [System.step, hi]
          rw [hsame]
          exact h
      | some moved =>
          have hstep : sys.step cfg (.serve i) =
              { sys with
                requests := sys.requests.set i
                  (moved.step sys.executor.shared).1
                signals := (moved.step sys.executor.shared).2 ++
                  sys.signals } := by
            simp only [System.step, hi]
          rw [hstep]
          have hold : ∀ request ∈ sys.requests, ∀ n ∈ request.claims,
              ∃ pid, (n, pid, .sigterm) ∈
                (moved.step sys.executor.shared).2 ++ sys.signals := by
            intro request hin n hn
            obtain ⟨pid, hpid⟩ := h request hin n hn
            exact ⟨pid, List.mem_append_right _ hpid⟩
          intro request hin n hn
          rcases List.mem_or_eq_of_mem_set hin with hin | rfl
          · exact hold request hin n hn
          · rcases moved.claims_step sys.executor.shared hn with hn | hsent
            · exact hold moved (List.mem_of_getElem? hi) n hn
            · obtain ⟨pid, hpid⟩ := hsent
              exact ⟨pid, List.mem_append_left _ hpid⟩

/-! ## What the executor spawns afterwards -/

/-- No command for `n` is read in this step. -/
def Uncommanded (n : String) (w : World) (s : State) : Prop :=
  s.phase = .commands → ∀ command ∈ w.command, command.service ≠ n

instance (n : String) (w : World) (s : State) :
    Decidable (Uncommanded n w s) :=
  inferInstanceAs (Decidable (s.phase = .commands → ∀ command ∈ w.command, _))

/-- A process of `n` has ended, and its policy and budget call for an automatic
restart. -/
def RestartCalledFor (n : String) (w : World) (s : State) : Prop :=
  ∃ pid ending, endedChild w s = some (pid, n, ending) ∧
    restartDue w s n ending = true

/-- If a process is spawned for `n` in this step, then `P`. -/
def SpawnsOnlyIf (P : Prop) (cfg : Config) (n : String) (w : World)
    (s : State) : Prop :=
  ∀ new, (step cfg w s).log = new ++ s.log →
    ∀ cause pid, .spawned cause n pid ∈ new → P

/-- A service that has been launched, with no restart asked for. -/
structure Unasked (N : Net String) (n : String) (s : State) : Prop where
  queued : Queued N s.view
  popped : .popped n ∈ s.log
  pending : n ∉ s.pendingRestart

/-- A command asks at most for the restart of its own service. So for another
service a restart is pending after the command only if it was before. -/
private theorem CommandCase.pending {cfg : Config} {w : World}
    {s s' : State} {command : CtlCommand}
    (h : CommandCase cfg w s command s') :
    s'.pendingRestart ⊆ insert command.service s.pendingRestart := by
  have hbase : ∀ {base : State}, Prepared cfg w s command base →
      base.pendingRestart = s.pendingRestart := by
    intro base hprep
    cases hprep <;> rfl
  cases h with
  | answered => exact Finset.subset_insert _ _
  | @asked base hprep hask =>
      obtain ⟨kills, heq⟩ :=
        requestRestart_eq w base command.service command.reply
      rw [heq]
      change insert command.service base.pendingRestart ⊆ _
      rw [hbase hprep]
  | @demanded base hprep hidle =>
      have hsub : base.pendingRestart ⊆
          insert command.service s.pendingRestart := by
        rw [hbase hprep]
        exact Finset.subset_insert _ _
      unfold spawnOnDemand
      split
      · exact hsub
      · split
        · exact hsub
        · exact hsub
        · exact hsub

/-- What is tracked after a step was tracked before, or is spawned in it. -/
theorem Move.tracks {t : Trigger} {v v' : View} (h : Move t v v') {p : Pid}
    {n : String} (hp : v'.live p = some n) :
    v.live p = some n ∨ ∃ cause new, v'.log = new ++ v.log ∧
      .spawned cause n p ∈ new := by
  cases h with
  | @launch _ m rest pid hq hb hfresh =>
      rcases View.live_run.mp hp with ⟨rfl, rfl⟩ | ⟨_, hp⟩
      · exact .inr ⟨.launch, [.spawned .launch n p, .popped n], rfl,
          List.mem_cons_self⟩
      · exact .inl hp
  | @demand _ m pid hidle hfresh =>
      rcases View.live_run.mp hp with ⟨rfl, rfl⟩ | ⟨_, hp⟩
      · exact .inr ⟨.command, [.spawned .command n p], rfl,
          List.mem_cons_self⟩
      · exact .inl hp
  | @respawn _ m old new cause hlive hcause hfresh =>
      rcases View.live_run.mp hp with ⟨rfl, rfl⟩ | ⟨_, hp⟩
      · exact .inr ⟨cause, [.spawned cause n p], rfl, List.mem_cons_self⟩
      · exact .inl (View.live_reap.mp hp).2
  | fallen hlive => exact .inl (View.live_reap.mp hp).2
  | reaped hlive => exact .inl (View.live_reap.mp hp).2
  | finishAgain hlive hn => exact .inl (View.live_reap.mp hp).2
  | finishFirst hlive hn hnew => exact .inl (View.live_reap.mp hp).2
  | lost => exact .inl (View.live_reap.mp hp).2
  | _ => exact .inl hp

namespace Unasked

variable {N : Net String} {n : String} {s : State}

/-- As long as no command comes for the service, nobody asks for its restart.
-/
theorem step (h : Unasked N n s) (cfg : Config) (w : World)
    (hno : Uncommanded n w s) : Unasked N n (step cfg w s) := by
  obtain ⟨t, hmove, _⟩ := step_move cfg w s
  refine ⟨h.queued.move hmove, (step_grows cfg w s).1 h.popped, ?_⟩
  intro hpending
  by_cases hquiet : s.phase = .commands → w.command = none
  · exact h.pending (step_pending cfg s hquiet hpending)
  · rw [Classical.not_imp] at hquiet
    obtain ⟨hphase, hsome⟩ := hquiet
    obtain ⟨command, hcommand⟩ := Option.ne_none_iff_exists'.mp hsome
    have hstep : FlintInit.step cfg w s = runCommand cfg w s command := by
      simp only [FlintInit.step, hphase, hcommand]
    rw [hstep] at hpending
    have hsub := (runCommand_cases cfg w s command).pending hpending
    rcases Finset.mem_insert.mp hsub with heq | hold
    · exact hno hphase command hcommand heq.symm
    · exact h.pending hold

/-- **Only an automatic restart** spawns a launched service for which there is
no command. -/
theorem spawns (h : Unasked N n s) (cfg : Config) (w : World)
    (hno : Uncommanded n w s) :
    SpawnsOnlyIf (RestartCalledFor n w s) cfg n w s := by
  intro new hnew cause pid hin
  obtain ⟨new', hnew', hall⟩ := step_spawns cfg w s
  have hsame : new = new' :=
    List.append_cancel_right (hnew.symm.trans hnew')
  subst hsame
  cases (hall cause n pid hin).1 with
  | launch hpop =>
      obtain ⟨rest, hq⟩ := queue_of_nextPop hpop
      refine absurd ?_ (h.queued.notMem_popped hq)
      exact List.mem_filterMap.mpr ⟨_, h.popped, rfl⟩
  | command hphase hcommand => exact absurd rfl (hno hphase _ hcommand)
  | manualRestart hpending => exact absurd hpending h.pending
  | @autoRestart pid rest _ ending hphase hend hlive hpending hdue =>
      exact ⟨pid, ending, endedChild_of_poll hphase hend hlive, hdue⟩

end Unasked

/-- Such a service, with no process left. -/
structure AtRest (N : Net String) (n : String) (s : State) : Prop where
  unasked : Unasked N n s
  idle : s.view.Idle n

namespace AtRest

variable {N : Net String} {n : String} {s : State}

/-- Without a process there is nothing to restart. -/
theorem spawns (h : AtRest N n s) (cfg : Config) (w : World)
    (hno : Uncommanded n w s) : SpawnsOnlyIf False cfg n w s := by
  intro new hnew cause pid hin
  obtain ⟨p, ending, hended, _⟩ :=
    h.unasked.spawns cfg w hno new hnew cause pid hin
  obtain ⟨_, _, _, hlive⟩ := endedChild_eq_some hended
  exact h.idle p hlive

/-- As long as no command comes for it, a service at rest stays at rest. -/
theorem step (h : AtRest N n s) (cfg : Config) (w : World)
    (hno : Uncommanded n w s) : AtRest N n (step cfg w s) := by
  refine ⟨h.unasked.step cfg w hno, ?_⟩
  obtain ⟨t, hmove, _⟩ := step_move cfg w s
  intro pid hlive
  rcases hmove.tracks hlive with hold | ⟨cause, new, hnew, hin⟩
  · exact h.idle pid hold
  · exact h.spawns cfg w hno new hnew cause pid hin

end AtRest

/-! ## Runs of the system -/

/-- What `ok` says of a step, if it is the executor that takes it. -/
def Executes (ok : World → State → Prop) (action : CtlAction) (sys : System) :
    Prop :=
  match action with
  | .executor w => ok w sys.executor
  | _ => True

instance (ok : World → State → Prop) [∀ w s, Decidable (ok w s)]
    (action : CtlAction) (sys : System) : Decidable (Executes ok action sys) :=
  match action with
  | .executor w => inferInstanceAs (Decidable (ok w sys.executor))
  | .connect .. => .isTrue True.intro
  | .serve _ => .isTrue True.intro

/-- What the steps of the executor keep, the others keep as well. -/
theorem executor_keeps {cfg : Config} (Inv : State → Prop)
    {ok : World → State → Prop}
    (hstep : ∀ w s, ok w s → Inv s → Inv (step cfg w s)) (action : CtlAction)
    (sys : System) (hok : Executes ok action sys) (h : Inv sys.executor) :
    Inv (sys.step cfg action).executor := by
  cases action with
  | executor w => exact hstep w sys.executor hok h
  | connect uid service => exact h
  | serve i =>
      unfold System.step
      dsimp only
      split <;> exact h

/-- What the executor's state implies of its own step. -/
theorem Executes.of_inv (Inv : State → Prop) {ok ok' : World → State → Prop}
    (himp : ∀ w s, ok w s → Inv s → ok' w s) (action : CtlAction)
    (sys : System) (hok : Executes ok action sys) (h : Inv sys.executor) :
    Executes ok' action sys := by
  cases action with
  | executor w => exact himp w sys.executor hok h
  | connect uid service => exact True.intro
  | serve i => exact True.intro

/-- **What a stop leaves to the executor.**  When a stop of a launched service
has been answered with `ok`, and no restart was pending, SIGTERM has been sent
for it, and until the next command for the service a process is spawned for it
only where one has ended and its policy and budget call for an automatic
restart.  Once no process of it is left, none is spawned at all. -/
theorem stop_leaves_automatic_restarts {orders : BuildOrders}
    {services : List ServiceDef} {g : ServiceGraph}
    (hg : ServiceGraph.build orders services = .ok (.ok g)) (cfg : Config)
    (readFile : String → Except String String) (order : IterOrder String)
    (before after : List CtlAction) (n : String) :
    let sys := run (System.step cfg)
      (System.initial cfg readFile order g services) before
    .answered n .ok ∈ sys.requests → .popped n ∈ sys.executor.log →
      n ∉ sys.executor.pendingRestart →
      Meets (System.step cfg) (Executes (Uncommanded n)) sys after →
      (∃ pid, (n, pid, .sigterm) ∈ sys.signals) ∧
      Meets (System.step cfg)
        (Executes fun w s => SpawnsOnlyIf (RestartCalledFor n w s) cfg n w s)
        sys after ∧
      ((∀ pid, sys.executor.pidToName.lookup pid ≠ some n) →
        Meets (System.step cfg) (Executes (SpawnsOnlyIf False cfg n)) sys
          after) := by
  intro sys hanswered hpopped hpending hafter
  have hqueued : Queued (waitNet orders services) sys.executor.view := by
    refine run_invariant
      (fun sys : System => Queued (waitNet orders services) sys.executor.view)
      ?_ before _ (Meets.trivial _ before)
      (initial_queued cfg readFile order hg)
    intro action sys _ h
    refine executor_keeps (fun s => Queued (waitNet orders services) s.view)
      (fun w s (_ : True) h => ?_) action sys ?_ h
    · obtain ⟨t, hmove, _⟩ := step_move cfg w s
      exact h.move hmove
    · cases action <;> exact True.intro
  have hunasked : Unasked (waitNet orders services) n sys.executor :=
    ⟨hqueued, hpopped, hpending⟩
  refine ⟨?_, ?_, ?_⟩
  · have htruthful : Truthful sys := by
      refine run_invariant Truthful (fun action sys _ h => h.step cfg action)
        before _ (Meets.trivial _ before) ?_
      exact fun request hin => nomatch hin
    exact htruthful _ hanswered n rfl
  · refine Meets.of_invariant
      (fun sys : System => Unasked (waitNet orders services) n sys.executor)
      ?_ ?_ after sys hafter hunasked
    · exact executor_keeps (Unasked _ n) fun w s hno h => h.step cfg w hno
    · exact Executes.of_inv (Unasked _ n) fun w s hno h =>
        h.spawns cfg w hno
  · intro hidle
    refine Meets.of_invariant
      (fun sys : System => AtRest (waitNet orders services) n sys.executor)
      ?_ ?_ after sys hafter ⟨hunasked, hidle⟩
    · exact executor_keeps (AtRest _ n) fun w s hno h => h.step cfg w hno
    · exact Executes.of_inv (AtRest _ n) fun w s hno h => h.spawns cfg w hno

/-- The executor takes `k` steps in which nothing happens. -/
def idleSteps (k : Nat) : List CtlAction :=
  List.replicate k (.executor .idle)

/-- A job is running, and root stops it. -/
def jobStopped : List CtlAction :=
  idleSteps 9 ++ [.connect (some 0) "job", .serve 0, .serve 0, .serve 0]

/-- The executor sees the job die of the signal. -/
def jobDies : List CtlAction :=
  idleSteps 4 ++ [.executor { World.idle with waitpid := .signaled 15 }] ++
    idleSteps 6

/-- A job without a restart policy is stopped and stays down, as no restart has
been called for. -/
theorem stop_leaves_automatic_restarts_job :
    ∃ g, ServiceGraph.build .asStored oneJob = .ok (.ok g) ∧
      let sys := run (System.step .bare)
        (System.initial .bare (fun _ => .error "") (.asStored _) g oneJob)
        jobStopped
      (∃ pid, ("job", pid, .sigterm) ∈ sys.signals) ∧
        Meets (System.step .bare)
          (Executes fun w s =>
            SpawnsOnlyIf (RestartCalledFor "job" w s) .bare "job" w s)
          sys jobDies :=
  have h := stop_leaves_automatic_restarts
    (rfl : ServiceGraph.build .asStored oneJob = .ok (.ok _)) .bare
    (fun _ => .error "") (.asStored _) jobStopped jobDies "job"
    (by decide +kernel) (by decide +kernel) (by decide +kernel)
    (by decide +kernel)
  ⟨_, rfl, h.1, h.2.1⟩

/-- The same job, to be respawned whenever it exits. -/
def alwaysJob : List ServiceDef :=
  [{ makeService "job" [] [] with
      service := ⟨"job", "/bin/job", some .always, none, none⟩ }]

/-- **A stopped job comes back.**  The stop is answered with `ok`, the executor
sees the process die of the signal, no command ever arrives, and the job is
spawned again. -/
theorem stopped_job_respawned :
    ∃ g, ServiceGraph.build .asStored alwaysJob = .ok (.ok g) ∧
      let sys := run (System.step .bare)
        (System.initial .bare (fun _ => .error "") (.asStored _) g alwaysJob)
        (jobStopped ++ idleSteps 4)
      let w := { World.idle with waitpid := .signaled 15 }
      .answered "job" .ok ∈ sys.requests ∧
        sys.executor.pendingRestart = ∅ ∧
        endedChild w sys.executor = some (1, "job", .signaled) ∧
        (step .bare w sys.executor).log.head? =
          some (.spawned .autoRestart "job" 1) :=
  ⟨_, rfl, by decide +kernel⟩

end FlintInit
