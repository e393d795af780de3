import FlintInit.CommandErrors
import FlintInit.LoadedDefs
import FlintInit.Preflight

/-!
# Panics

A panic of the supervisor is a panic of process 1.  The places that could
panic are the two lookups of a definition after a child has ended, and the
`CString` of each piece of `exec` when a definition has no `args`.

The lookups always succeed: whatever is tracked was spawned from a definition,
and no definition is ever dropped.  So a run panics exactly when it spawns a
definition without `args` whose `exec` has a NUL in it.
-/

namespace FlintInit

open Collections Runs

/-! ## Splitting `exec` -/

/-- The definition has `args`, or no NUL in what is split for lack of them. -/
def Splittable (svc : ServiceDef) : Prop :=
  svc.service.args = none → hasNul svc.service.exec = false

instance (svc : ServiceDef) : Decidable (Splittable svc) :=
  inferInstanceAs (Decidable (_ → _))

/-- Where nothing is handed to `spawn_service` nothing can be unsplittable. -/
theorem none_splittable : ∀ svc ∈ (none : Option ServiceDef), Splittable svc :=
  nofun

/-- The branch that finds `args` reports a NUL as an error, the other one
panics. -/
theorem buildExecArgs_panics_iff {svc : ServiceDef} :
    buildExecArgs svc = .panicked ↔ ¬ Splittable svc := by
  unfold buildExecArgs Splittable
  cases svc.service.args with
  | some args =>
      refine iff_of_false ?_ (not_not_intro fun h => nomatch h)
      dsimp only
      split
      · simp
      · split
        · simp
        · split <;> simp
  | none =>
      dsimp only
      rw [any_hasNul_splitWhitespace]
      cases hasNul svc.service.exec with
      | true => simp
      | false =>
          rw [if_neg Bool.false_ne_true]
          refine iff_of_false ?_ (not_not_intro fun _ => rfl)
          split <;> simp

/-- Nothing else in `spawn_service` panics. -/
theorem spawnService_panics_iff {w : World} {children : List Pid}
    {svc : ServiceDef} :
    spawnService w children svc = .panicked ↔ ¬ Splittable svc := by
  have hfork : forkChild w children ≠ .panicked := by
    unfold forkChild
    split <;> simp
  rw [← buildExecArgs_panics_iff]
  unfold spawnService
  cases buildExecArgs svc with
  | panicked => simp
  | error e => simp
  | ok args =>
      refine iff_of_false ?_ (by simp)
      dsimp only
      split
      · exact hfork
      · split
        · exact hfork
        · simp
        · simp

/-- A spawn that does not panic has split what it had to split. -/
theorem splittable_of_spawn {w : World} {children : List Pid}
    {svc : ServiceDef} {outcome : Outcome Pid}
    (h : spawnService w children svc = outcome) (hok : outcome ≠ .panicked) :
    Splittable svc := by
  by_contra hno
  exact hok (h.symm.trans (spawnService_panics_iff.mpr hno))

/-! ## Every child has a definition -/

/-- What is tracked after a move was tracked before, or the move spawned it.
The event that logs the spawn names the new process and its service. -/
theorem Move.live_cases {t : Trigger} {v v' : View} (h : Move t v v') :
    ∃ new, v'.log = new ++ v.log ∧ ∀ pid n, v'.live pid = some n →
      v.live pid = some n ∨ ∃ cause, Event.spawned cause n pid ∈ new := by
  cases h with
  | quiet => exact ⟨[], rfl, fun _ _ => .inl⟩
  | @ready _ n => exact ⟨[.marked n, .ready n], rfl, fun _ _ => .inl⟩
  | @popBlocked _ n =>
      exact ⟨[.marked n, .blocked n, .popped n], rfl, fun _ _ => .inl⟩
  | @popIdle _ n => exact ⟨[.popped n], rfl, fun _ _ => .inl⟩
  | @launch _ n rest pid =>
      refine ⟨[.spawned .launch n pid, .popped n], rfl, fun p m hp => ?_⟩
      rcases View.live_run.mp hp with ⟨rfl, rfl⟩ | ⟨_, hp⟩
      · exact .inr ⟨_, List.mem_cons_self⟩
      · exact .inl hp
  | @demand _ n pid =>
      refine ⟨[.spawned .command n pid], rfl, fun p m hp => ?_⟩
      rcases View.live_run.mp hp with ⟨rfl, rfl⟩ | ⟨_, hp⟩
      · exact .inr ⟨_, List.mem_cons_self⟩
      · exact .inl hp
  | @respawn _ n old new cause =>
      refine ⟨[.spawned cause n new], rfl, fun p m hp => ?_⟩
      rcases View.live_run.mp hp with ⟨rfl, rfl⟩ | ⟨_, hp⟩
      · exact .inr ⟨_, List.mem_cons_self⟩
      · exact .inl (View.live_reap.mp hp).2
  | fallen => exact ⟨[], rfl, fun _ _ hp => .inl (View.live_reap.mp hp).2⟩
  | reaped => exact ⟨[], rfl, fun _ _ hp => .inl (View.live_reap.mp hp).2⟩
  | @finishAgain _ n _ ending exhausted =>
      exact ⟨[.finished n ending exhausted], rfl,
        fun _ _ hp => .inl (View.live_reap.mp hp).2⟩
  | @finishFirst _ n _ ending exhausted =>
      exact ⟨[.marked n, .finished n ending exhausted], rfl,
        fun _ _ hp => .inl (View.live_reap.mp hp).2⟩
  | lost _ pid =>
      exact ⟨[.lost pid], rfl, fun _ _ hp => .inl (View.live_reap.mp hp).2⟩

/-- The service of each tracked child has a definition. -/
def Defined (s : State) : Prop :=
  ∀ pid n, s.pidToName.lookup pid = some n →
    ∃ svc, s.svcByName.lookup n = some svc

/-- No step takes a definition away from a service that can be spawned. -/
theorem Defined.step {s : State} (h : Defined s) (cfg : Config) (w : World) :
    Defined (step cfg w s) := by
  obtain ⟨t, hmove, -⟩ := step_move cfg w s
  obtain ⟨new, hlog, hlive⟩ := hmove.live_cases
  obtain ⟨new', hlog', hforce⟩ := step_spawns cfg w s
  have hsame : new = new' := List.append_cancel_right (hlog.symm.trans hlog')
  subst hsame
  intro pid n hpid
  rcases hlive pid n hpid with hold | ⟨cause, hspawned⟩
  · obtain ⟨svc, hsvc⟩ := h pid n hold
    rcases step_defs cfg w s with hdefs | ⟨m, _, _, svc', _, _, _, hdefs⟩
    · exact ⟨svc, by rw [hdefs, hsvc]⟩
    · rw [hdefs, lookup_insert_eq]
      by_cases hn : n = m
      · exact ⟨svc', if_pos hn⟩
      · exact ⟨svc, by rw [if_neg hn, hsvc]⟩
  · obtain ⟨-, svc, -, hsvc, -⟩ := hforce cause n pid hspawned
    exact ⟨svc, hsvc⟩

/-! ## One step -/

/-- The service whose child has ended and is to be spawned again because a
command asked for it. -/
def askedAgain (w : World) (s : State) : Option String :=
  match endedChild w s with
  | some (_, n, _) => if n ∈ s.pendingRestart then some n else none
  | none => none

/-- The definition that this step hands to `spawn_service`. -/
def handed (cfg : Config) (w : World) (s : State) : Option ServiceDef :=
  match s.phase, w.command with
  | .commands, some command => (onDemand cfg w s command).map Prod.snd
  | _, _ =>
      ((ownSpawn w s).or (askedAgain w s)).bind
        (fun n => s.svcByName.lookup n)

/-- What is handed to `spawn_service` has `args`, or an `exec` without NUL. -/
def SpawnsSplittable (cfg : Config) (w : World) (s : State) : Prop :=
  ∀ svc ∈ handed cfg w s, Splittable svc

instance (cfg : Config) (w : World) (s : State) :
    Decidable (SpawnsSplittable cfg w s) :=
  inferInstanceAs (Decidable (∀ svc ∈ handed cfg w s, _))

/-- A spawn whose failure is returned panics on what cannot be split. -/
theorem spawnOrReturn_panics_iff {w : World} {s : State} {cause : Cause}
    {n : String} {svc : ServiceDef} (hs : s.phase ≠ .panicked) :
    (spawnOrReturn w s cause n svc).phase ≠ .panicked ↔ Splittable svc := by
  unfold spawnOrReturn
  cases hspawn : spawnService w s.pidToName.keys svc with
  | panicked =>
      exact iff_of_false (not_not_intro rfl)
        (spawnService_panics_iff.mp hspawn)
  | error e =>
      exact iff_of_true (by simp) (splittable_of_spawn hspawn (by simp))
  | ok pid =>
      exact iff_of_true hs (splittable_of_spawn hspawn (by simp))

/-- So does a spawn on demand. -/
theorem spawnOnDemand_panics_iff {w : World} {s : State} {n : String}
    {reply : ReplySender} (hs : s.phase ≠ .panicked) :
    (spawnOnDemand w s n reply).phase ≠ .panicked ↔
      ∀ svc ∈ s.svcByName.lookup n, Splittable svc := by
  unfold spawnOnDemand
  cases hsvc : s.svcByName.lookup n with
  | none => exact iff_of_true hs none_splittable
  | some svc =>
      simp only [Option.mem_some, forall_eq']
      cases hspawn : spawnService w s.pidToName.keys svc with
      | panicked =>
          exact iff_of_false (not_not_intro rfl)
            (spawnService_panics_iff.mp hspawn)
      | error e =>
          exact iff_of_true hs (splittable_of_spawn hspawn (by simp))
      | ok pid =>
          exact iff_of_true hs (splittable_of_spawn hspawn (by simp))

/-- A command panics on the definition it finds for a stopped service. A
service that is up is only signalled, and for a name that has no state nothing
is spawned at all. -/
theorem runCommand_panics_iff {cfg : Config} {w : World} {s : State}
    (hs : s.phase ≠ .panicked) (command : CtlCommand) :
    (runCommand cfg w s command).phase ≠ .panicked ↔
      ∀ svc ∈ (onDemand cfg w s command).map Prod.snd, Splittable svc := by
  have hstopped : ∀ n reply st, s.serviceStates.lookup n = some st →
      st.up = false →
      ((spawnOnDemand w s n reply).phase ≠ .panicked ↔
        ∀ svc ∈ (onDemand.stopped s n).map Prod.snd, Splittable svc) := by
    intro n reply st hst hup
    rw [spawnOnDemand_panics_iff hs]
    unfold onDemand.stopped
    rw [hst]
    cases s.svcByName.lookup n with
    | none => simp
    | some svc => simp [hup]
  have hnone : ∀ n, (s.serviceStates.lookup n = none ∨
      ∃ st, s.serviceStates.lookup n = some st ∧ st.up = true) →
      onDemand.stopped s n = none := by
    intro n h
    unfold onDemand.stopped
    rcases h with h | ⟨st, hst, hup⟩
    · rw [h]
    · rw [hst]
      cases s.svcByName.lookup n with
      | none => rfl
      | some svc => exact if_pos hup
  cases command with
  | start n reply =>
      unfold runCommand startCommand onDemand
      dsimp only
      cases hst : s.serviceStates.lookup n with
      | none =>
          rw [hnone n (.inl hst)]
          exact iff_of_true hs none_splittable
      | some st =>
          cases hup : st.up with
          | true =>
              rw [hnone n (.inr ⟨st, hst, hup⟩)]
              refine iff_of_true ?_ none_splittable
              cases st <;> first | exact hs | cases hup
          | false =>
              have hdemand := hstopped n reply st hst hup
              cases st <;> first | exact hdemand | cases hup
  | restart n reply =>
      unfold runCommand restartCommand onDemand
      dsimp only
      cases hst : s.serviceStates.lookup n with
      | none =>
          rw [hnone n (.inl hst)]
          exact iff_of_true hs none_splittable
      | some st =>
          cases hup : st.up with
          | true =>
              rw [hnone n (.inr ⟨st, hst, hup⟩)]
              refine iff_of_true ?_ none_splittable
              have hasked : (requestRestart w s n reply).phase ≠ .panicked := by
                rw [requestRestart_phase]
                exact hs
              cases st <;> first | exact hasked | cases hup
          | false =>
              have hdemand := hstopped n reply st hst hup
              cases st <;> first | exact hdemand | cases hup
  | reload n reply =>
      obtain ⟨kills, hkills⟩ := hangUp_eq w s n
      unfold runCommand reloadCommand onDemand
      dsimp only
      rw [hkills]
      have hsame : reread cfg w { s with kills := kills } n =
          reread cfg w s n := rfl
      rw [hsame]
      cases hread : reread cfg w s n with
      | changed raw svc =>
          have hfind : (install { s with kills := kills } n raw svc).findPid
              w n = s.findPid w n := rfl
          dsimp only
          rw [hfind]
          cases hpid : s.findPid w n with
          | some pid =>
              refine iff_of_true ?_ none_splittable
              dsimp only
              rw [requestRestart_phase]
              exact hs
          | none =>
              dsimp only
              rw [spawnOnDemand_panics_iff (by exact hs)]
              have hinstalled : (install { s with kills := kills } n raw
                  svc).svcByName.lookup n = some svc := by
                change (s.svcByName.insert n svc).lookup n = some svc
                rw [lookup_insert_eq, if_pos rfl]
              rw [hinstalled]
              rfl
      | _ => exact iff_of_true hs none_splittable

/-- A restart asked for by a command, of a service with a definition. -/
theorem manualRestart_panics_iff {w : World} {s : State} {n : String}
    {svc : ServiceDef} (hsvc : s.svcByName.lookup n = some svc)
    (hs : s.phase ≠ .panicked) :
    (manualRestart w s n).phase ≠ .panicked ↔ Splittable svc := by
  have hanswer : ∀ (s' : State) (answer : Except ReplyError Unit),
      s'.phase ≠ .panicked → (answerRestart s' n answer).phase ≠ .panicked := by
    intro s' answer hs'
    obtain ⟨replies, restartReplies, heq⟩ := answerRestart_eq s' n answer
    rw [heq]
    exact hs'
  unfold manualRestart
  rw [hsvc]
  dsimp only
  cases hspawn : spawnService w s.pidToName.keys svc with
  | panicked =>
      exact iff_of_false (not_not_intro rfl)
        (spawnService_panics_iff.mp hspawn)
  | error e =>
      exact iff_of_true (hanswer _ _ hs)
        (splittable_of_spawn hspawn (by simp))
  | ok pid =>
      exact iff_of_true (hanswer _ _ hs)
        (splittable_of_spawn hspawn (by simp))

/-- Outside the drain of commands, what is handed to `spawn_service` is the
definition in force of the service launched or respawned. -/
theorem handed_of_phase {cfg : Config} {w : World} {s : State}
    (h : s.phase ≠ .commands) :
    handed cfg w s = ((ownSpawn w s).or (askedAgain w s)).bind
      (fun n => s.svcByName.lookup n) := by
  unfold handed
  split
  · rename_i hphase _
    exact absurd hphase h
  · rfl

/-- **One step panics** exactly on what it hands to `spawn_service`. In each
case of the step that is one definition at most: the one launched, the one
respawned, or the one that a command asks for. -/
theorem step_panics_iff {cfg : Config} {w : World} {s s' : State}
    (hcase : StepCase cfg w s s') (hdef : Defined s)
    (hs : s.phase ≠ .panicked) :
    s'.phase ≠ .panicked ↔ SpawnsSplittable cfg w s := by
  unfold SpawnsSplittable
  cases hcase with
  | still phase marker hdead hpop hended hcommand =>
      have hnone : handed cfg w s = none := by
        unfold handed
        split
        · rename_i hphase hc
          rw [hcommand hphase] at hc
          cases hc
        · simp only [ownSpawn, askedAgain, hpop, hended, Option.or_none,
            Option.bind_none]
      rw [hnone]
      refine iff_of_true ?_ none_splittable
      rcases hdead with hdead | hsame
      · exact fun h => by cases h; cases hdead
      · rw [hsame]
        exact hs
  | @command command hphase hcommand =>
      have hhanded : handed cfg w s =
          (onDemand cfg w s command).map Prod.snd := by
        simp only [handed, hphase, hcommand]
      rw [hhanded]
      exact runCommand_panics_iff hs command
  | @ready n phase hn hdead =>
      have hnone : handed cfg w s = none := by
        obtain ⟨hphase, hpop, hended⟩ := alone_of_readyMessage hn
        rw [handed_of_phase hphase]
        simp only [ownSpawn, askedAgain, hpop, hended, Option.or_none,
          Option.bind_none]
      rw [hnone]
      exact iff_of_true (fun h => by cases h; cases hdead) none_splittable
  | @pop n rest hphase hqueue =>
      have hpop : nextPop s = some n := by
        simp [nextPop, hphase, pop_eq_some.mpr hqueue]
      rw [handed_of_phase (by simp [hphase])]
      have hown : n ∉ s.blockedServices → ownSpawn w s = some n := by
        intro hblocked
        simp only [ownSpawn, hpop, if_neg hblocked]
      rcases launchService_cases w { s with toStart := rest } n with
        ⟨hblocked, heq⟩ | ⟨hblocked, hsvc, heq⟩ | ⟨svc, hblocked, hsvc, heq⟩
      · change n ∈ s.blockedServices at hblocked
        rw [heq]
        refine iff_of_true hs ?_
        simp [ownSpawn, hpop, hblocked, askedAgain, endedChild, hphase]
      · change s.svcByName.lookup n = none at hsvc
        rw [heq, hown hblocked, Option.some_or, Option.bind_some, hsvc]
        exact iff_of_true hs none_splittable
      · change s.svcByName.lookup n = some svc at hsvc
        have hstale : (removeStale
            (({ s with toStart := rest } : State).note (.popped n))
            svc).phase ≠ .panicked := by
          obtain ⟨removed, hstale⟩ := removeStale_eq
            (({ s with toStart := rest } : State).note (.popped n)) svc
          rw [hstale]
          exact hs
        rw [heq, hown hblocked, Option.some_or, Option.bind_some,
          spawnOrReturn_panics_iff hstale, hsvc]
        simp
  | @manual pid rest n ending hphase hend hlive hpending =>
      obtain ⟨svc, hsvc⟩ := hdef pid n hlive
      have hended := endedChild_of_poll hphase hend hlive
      have hhanded : handed cfg w s = some svc := by
        rw [handed_of_phase (by simp [hphase])]
        simp [ownSpawn, nextPop, askedAgain, hended, hphase, hpending, hsvc]
      rw [hhanded]
      refine (manualRestart_panics_iff (by exact hsvc) ?_).trans ?_
      · simp [State.reapChild]
      · simp
  | @auto pid rest n ending hphase hend hlive hpending hdue =>
      obtain ⟨svc, hsvc⟩ := hdef pid n hlive
      have hended := endedChild_of_poll hphase hend hlive
      have hhanded : handed cfg w s = some svc := by
        rw [handed_of_phase (by simp [hphase])]
        simp [ownSpawn, nextPop, hended, hphase, hpending, hdue, hsvc]
      rw [hhanded, autoRestart_of_defined w _ n svc (by exact hsvc),
        spawnOrReturn_panics_iff (by simp [State.reapChild])]
      simp
  | @finish pid rest n ending hphase hend hlive hpending hdue =>
      have hended := endedChild_of_poll hphase hend hlive
      rw [finishService_phase, handed_of_phase (by simp [hphase])]
      refine iff_of_true (by simp [State.reapChild]) ?_
      simp [ownSpawn, nextPop, askedAgain, hended, hphase, hpending, hdue]
  | @lost pid rest hphase hwait =>
      rw [handed_of_phase (by simp [hphase])]
      refine iff_of_true (by simp [State.reapChild, State.note]) ?_
      simp [ownSpawn, nextPop, askedAgain, endedChild, hphase, hwait,
        Waitpid.ending]
  | refused hphase hwait =>
      rw [handed_of_phase (by simp [hphase])]
      refine iff_of_true (by simp) ?_
      simp [ownSpawn, nextPop, askedAgain, endedChild, hphase, hwait,
        Waitpid.ending]

/-! ## Runs -/

/-- **What makes the supervisor panic.**  `build` returns; in every run the
service of each tracked child has a definition; and the run does not panic
exactly when whatever it hands to `spawn_service` has `args`, or an `exec`
without NUL. -/
theorem no_panic_iff (orders : BuildOrders) (cfg : Config)
    (readFile : String → Except String String) (order : IterOrder String)
    (g : ServiceGraph) (services : List ServiceDef) (ws : List World) :
    (∃ built, ServiceGraph.build orders services = .ok built) ∧
    Defined (runWithMarker cfg readFile order g services ws) ∧
    ((runWithMarker cfg readFile order g services ws).phase ≠ .panicked ↔
      EveryStep (SpawnsSplittable cfg) cfg readFile order g services ws) := by
  have hstart : Defined (initial cfg readFile order g services) := nofun
  refine ⟨build_returns orders services, ?_, ?_⟩
  · exact run_invariant Defined (fun w s _ h => h.step cfg w) ws _
      (Meets.trivial _ ws) hstart
  · exact run_avoids_iff_of_invariant Defined
      (fun s : State => s.phase = .panicked) (fun _ => True)
      (fun w s h => h.step cfg w)
      (fun w s hs => by rw [step_dead (by rw [hs]; rfl)]; exact hs)
      (fun w s _ hdef hs => step_panics_iff (step_cases cfg w s) hdef hs)
      ws _ (fun _ _ => True.intro) hstart nofun

/-- A definition with a NUL in `exec` and no `args` takes the supervisor down
when it is launched; with `args` it would be refused. -/
theorem nul_in_exec_panics :
    ∃ g, ServiceGraph.build .asStored [execOnly "/bin/db\x00"] =
        .ok (.ok g) ∧
      (runWithMarker .bare (fun _ => .error "") (.asStored _) g
        [execOnly "/bin/db\x00"] (List.replicate 4 .idle)).phase =
          .panicked ∧
      buildExecArgs { execOnly "/bin/db\x00" with
        service := ⟨"db", "/bin/db\x00", none, none, some []⟩ } =
          .error (.emptyExec "db") :=
  ⟨_, rfl, by decide +kernel, rfl⟩

end FlintInit
