import FlintInit.QuietBoot
import FlintInit.Steps

/-!
# Services that have failed

A service whose end is final is to be marked, so that nothing waits for it,
and the services that need it are to be blocked if it never was ready.  The
loop does this by hand in several branches.  `Turn` lists the branches that
change the state of a service, with what each of them records; the invariants
of this file are read off it.
-/

namespace FlintInit

open Collections Release Runs

/-! ## How states change -/

/-- The service whose requested restart cannot be spawned in this step. -/
def fallenChild (w : World) (s : State) : Option String :=
  match endedChild w s with
  | some (pid, n, _) =>
      if n ∈ s.pendingRestart then
        match s.svcByName.lookup n with
        | some svc =>
            match spawnService w (s.pidToName.erase pid).keys svc with
            | .error _ => some n
            | _ => none
        | none => none
      else none
  | none => none

/-- The service that ends in this step with its restarts used up. -/
def exhaustedChild (w : World) (s : State) : Option String :=
  match endedChild w s with
  | some (_, n, ending) =>
      if n ∉ s.pendingRestart ∧ restartExhausted s n ending then some n
      else none
  | none => none

/-- The change of a service's state in the step from `s` to `s'`. -/
inductive Turn (w : World) (s s' : State) : Prop
  | same (hstates : s'.serviceStates = s.serviceStates)
      (hreported : s'.readyReported = s.readyReported)
  | runs (n : String) (pid : Pid)
      (hstates : s'.serviceStates = s.serviceStates.insert n (.running pid))
      (hreported : s'.readyReported = s.readyReported)
  | ready (n : String)
      (hstates : s'.serviceStates = s.serviceStates.insert n .ready)
      (hreported : s'.readyReported = insert n s.readyReported)
      (hmarked : .marked n ∈ s'.log)
  | blocked (n : String)
      (hstates : s'.serviceStates = s.serviceStates.insert n .failed)
      (hreported : s'.readyReported = s.readyReported)
      (hmarked : .marked n ∈ s'.log)
      (hneeds : ∀ x ∈ s.graph.needsDependentsOf n, x ∈ s'.blockedServices)
  | fallen (n : String) (hn : fallenChild w s = some n)
      (hstates : s'.serviceStates = s.serviceStates.insert n .failed)
      (hreported : s'.readyReported = s.readyReported)
  | ended (n : String) (ending : Ending)
      (hn : restartExhausted s n ending = true → exhaustedChild w s = some n)
      (hstates : s'.serviceStates = s.serviceStates.insert n
        (if restartExhausted s n ending then .failed
          else .exited ending.code))
      (hreported : s'.readyReported = insert n s.readyReported)
      (hmarked : n ∈ s.readyReported ∨ .marked n ∈ s'.log)
      (hneeds : restartExhausted s n ending = true → n ∉ s.readyReported →
        ∀ x ∈ s.graph.needsDependentsOf n, x ∈ s'.blockedServices)

/-- A spawn that is returned from the loop when it fails. -/
private theorem Turn.spawnOrReturn {w : World} {s base : State}
    (hstates : base.serviceStates = s.serviceStates)
    (hreported : base.readyReported = s.readyReported) (cause : Cause)
    (n : String) (svc : ServiceDef) :
    Turn w s (spawnOrReturn w base cause n svc) := by
  unfold FlintInit.spawnOrReturn
  split
  · exact .same hstates hreported
  · exact .same hstates hreported
  · rename_i pid hspawn
    refine .runs n pid ?_ hreported
    rw [← hstates]
    rfl

/-- A command spawns its own service or leaves all states as they are. A
restart that is asked for changes no state before the process has ended. -/
private theorem CommandCase.turn {cfg : Config} {w : World} {s s' : State}
    {command : CtlCommand} (h : CommandCase cfg w s command s') :
    Turn w s s' := by
  have hbase : ∀ {base : State}, Prepared cfg w s command base →
      base.serviceStates = s.serviceStates ∧
        base.readyReported = s.readyReported := by
    intro base hprep
    cases hprep <;> exact ⟨rfl, rfl⟩
  cases h with
  | answered => exact .same rfl rfl
  | @asked base hprep hask =>
      obtain ⟨hstates, hreported⟩ := hbase hprep
      obtain ⟨kills, heq⟩ :=
        requestRestart_eq w base command.service command.reply
      rw [heq]
      exact .same hstates hreported
  | @demanded base hprep hidle =>
      obtain ⟨hstates, hreported⟩ := hbase hprep
      unfold spawnOnDemand
      split
      · exact .same hstates hreported
      · split
        · exact .same hstates hreported
        · exact .same hstates hreported
        · rename_i pid hspawn
          refine .runs command.service pid ?_ hreported
          rw [← hstates]
          rfl

/-- What the count of a final end leaves. -/
private theorem countEnding_rows (s : State) (n : String) (ending : Ending)
    (exhausted : Bool) :
    (countEnding s n ending exhausted).serviceStates =
        s.serviceStates.insert n
          (if exhausted then .failed else .exited ending.code) ∧
      (countEnding s n ending exhausted).readyReported = s.readyReported ∧
      (exhausted = true → n ∉ s.readyReported →
        ∀ x ∈ s.graph.needsDependentsOf n,
          x ∈ (countEnding s n ending exhausted).blockedServices) := by
  unfold countEnding
  refine ⟨(apply_ite State.serviceStates _ _ _).trans (ite_self _),
    (apply_ite State.readyReported _ _ _).trans (ite_self _), ?_⟩
  intro hexhausted hnew x hx
  have hfails : ending.fails exhausted = true := by
    rw [hexhausted]
    cases ending <;> rfl
  have hcond : (ending.fails exhausted &&
      decide (n ∉ s.readyReported)) = true := by
    simp [hfails, hnew]
  dsimp only
  rw [if_pos (by exact hcond)]
  exact Finset.mem_union_right _ (List.mem_toFinset.mpr hx)

/-- **The branches that change a state.** Each of them says which service is
concerned, to what state it comes, and whether it is entered in
`ready_reported`; all other steps leave states and reports alone. -/
theorem StepCase.turn {cfg : Config} {w : World} {s s' : State}
    (h : StepCase cfg w s s') : Turn w s s' := by
  cases h with
  | still => exact .same rfl rfl
  | @command command hphase hcommand =>
      exact (runCommand_cases cfg w s command).turn
  | @ready n phase hn hdead =>
      unfold reportReady
      split
      · exact .same rfl rfl
      · exact .ready n rfl rfl List.mem_cons_self
  | @pop n rest hphase hqueue =>
      rcases launchService_cases w { s with toStart := rest } n with
        ⟨_, heq⟩ | ⟨_, _, heq⟩ | ⟨svc, _, _, heq⟩
      · rw [heq]
        refine .blocked n rfl rfl List.mem_cons_self ?_
        intro x hx
        exact Finset.mem_union_right _ (List.mem_toFinset.mpr hx)
      · rw [heq]
        exact .same rfl rfl
      · obtain ⟨removed, hstale⟩ := removeStale_eq
          (({ s with toStart := rest } : State).note (.popped n)) svc
        rw [heq, hstale]
        refine Turn.spawnOrReturn ?_ ?_ .launch n svc <;> rfl
  | @manual pid rest n ending hphase hend hlive hpending =>
      have hanswer : ∀ (s' : State) (answer : Except ReplyError Unit),
          (answerRestart s' n answer).serviceStates = s'.serviceStates ∧
            (answerRestart s' n answer).readyReported =
              s'.readyReported := by
        intro s' answer
        obtain ⟨replies, restartReplies, heq⟩ :=
          answerRestart_eq s' n answer
        rw [heq]
        exact ⟨rfl, rfl⟩
      unfold manualRestart
      split
      · exact .same rfl rfl
      · rename_i svc hsvc
        change s.svcByName.lookup n = some svc at hsvc
        split
        · exact .same rfl rfl
        · rename_i new hspawn
          obtain ⟨hstates, hreported⟩ := hanswer (State.track
            { s.reapChild pid rest with
              pendingRestart := s.pendingRestart.erase n } .manualRestart n
            new) (.ok ())
          exact .runs n new hstates hreported
        · rename_i e hspawn
          change spawnService w (s.pidToName.erase pid).keys svc = .error e
            at hspawn
          obtain ⟨hstates, hreported⟩ := hanswer
            { s.reapChild pid rest with
              pendingRestart := s.pendingRestart.erase n }
            (.error (.spawnFailed e))
          refine .fallen n ?_ ?_ hreported
          · simp only [fallenChild, endedChild, hphase, hend, hlive,
              if_pos hpending, hsvc, hspawn]
          · exact congrArg (·.insert n ServiceState.failed) hstates
  | @auto pid rest n ending hphase hend hlive hpending hdue =>
      unfold autoRestart
      split
      · exact .same rfl rfl
      · refine Turn.spawnOrReturn ?_ ?_ .. <;> rfl
  | @finish pid rest n ending hphase hend hlive hpending hdue =>
      -- the entry of a zero count changes no count that is read
      have hused : restartsUsed { s.reapChild pid rest with
          restartCounts := entry s.restartCounts n 0 id } n =
          restartsUsed s n := by
        simp [restartsUsed, lookup_entry]
      have hexhausted : restartExhausted { s.reapChild pid rest with
          restartCounts := entry s.restartCounts n 0 id } n ending =
          restartExhausted s n ending := by
        simp only [restartExhausted, hused]
        rfl
      obtain ⟨hstates, hreported, hneeds⟩ := countEnding_rows
        { s.reapChild pid rest with
          restartCounts := entry s.restartCounts n 0 id } n ending
        (restartExhausted s n ending)
      have hchild : restartExhausted s n ending = true →
          exhaustedChild w s = some n := by
        intro hyes
        simp [exhaustedChild, endedChild, hphase, hend, hlive, hpending,
          hyes]
      unfold finishService
      dsimp only
      rw [hexhausted]
      split
      · rename_i hin
        rw [hreported] at hin
        refine .ended n ending hchild hstates ?_ (.inl hin) hneeds
        rw [hreported]
        exact (Finset.insert_eq_of_mem hin).symm
      · refine .ended n ending hchild hstates ?_ (.inr List.mem_cons_self)
          hneeds
        exact congrArg (insert n) hreported
  | lost => exact .same rfl rfl
  | refused => exact .same rfl rfl

/-- What a run records it keeps: the log and the blocked services grow, and
the graph's edges stay. -/
theorem Move.grows {t : Trigger} {v v' : View} (h : Move t v v') :
    v.log ⊆ v'.log ∧ v.blocked ⊆ v'.blocked := by
  cases h with
  | popBlocked hq hb hnew =>
      refine ⟨?_, Finset.subset_union_left⟩
      intro e he
      simp only [View.count, View.mark, View.block, View.setState, View.note,
        View.popTo, List.mem_cons]
      exact .inr (.inr (.inr he))
  | finishAgain hlive hn =>
      refine ⟨List.subset_cons_self _ _, ?_⟩
      simp [View.finish, View.reap, hn]
  | finishFirst hlive hn hnew =>
      refine ⟨?_, ?_⟩
      · intro e he
        exact List.mem_cons_of_mem _ (List.mem_cons_of_mem _ he)
      · change v.blocked ⊆ if _ then _ else _
        split
        · exact Finset.subset_union_left
        · exact Finset.Subset.refl _
  | _ =>
      refine ⟨?_, Finset.Subset.refl _⟩
      intro e he
      simp [View.mark, View.note, View.setState, View.report, View.popTo,
        View.run, View.reap, View.count, he]

/-- The log and the blocked services only grow, and the edges of the graph
stay. -/
theorem step_grows (cfg : Config) (w : World) (s : State) :
    s.log ⊆ (step cfg w s).log ∧
      s.blockedServices ⊆ (step cfg w s).blockedServices ∧
      (step cfg w s).graph.needsDependentsOf =
        s.graph.needsDependentsOf := by
  obtain ⟨t, hmove, _⟩ := step_move cfg w s
  exact ⟨hmove.grows.1, hmove.grows.2, congrArg Shape.needs hmove.shape⟩

/-- At the start nothing has been looked at. -/
theorem initial_states {cfg : Config}
    {readFile : String → Except String String} {order : IterOrder String}
    {g : ServiceGraph} {services : List ServiceDef} {n : String}
    {st : ServiceState}
    (h : (initial cfg readFile order g services).serviceStates.lookup n =
      some st) : st = .pending := by
  have hfold : ∀ (keys : List String) (t : Table String ServiceState),
      (∀ st, t.lookup n = some st → st = .pending) → ∀ st,
      (keys.foldl (fun t m => t.insert m .pending) t).lookup n = some st →
        st = .pending := by
    intro keys
    induction keys with
    | nil => intro t ht; exact ht
    | cons m keys ih =>
        intro t ht
        refine ih _ ?_
        intro st hst
        rw [lookup_insert_eq] at hst
        by_cases hn : n = m
        · rw [if_pos hn] at hst
          cases hst
          rfl
        · rw [if_neg hn] at hst
          exact ht st hst
  exact hfold _ ∅ (fun st hst => nomatch hst) st h

/-! ## What a failed service needs to have left -/

/-- Nothing that needs `d` is still to be launched. -/
def Cut (s : State) (d : String) : Prop :=
  ∀ x ∈ s.graph.needsDependentsOf d,
    x ∈ s.blockedServices ∨ .popped x ∈ s.log

instance (s : State) (d : String) : Decidable (Cut s d) :=
  inferInstanceAs (Decidable (∀ x ∈ s.graph.needsDependentsOf d, _))

/-- The loop does not come to spawn a service while one that it needs has
failed. -/
def LaunchesUnfailed (s : State) : Prop :=
  ∀ n ∈ nextPop s, n ∉ s.blockedServices →
    ∀ svc ∈ s.svcByName.lookup n, ∀ d ∈ svc.needs,
      s.serviceStates.lookup d ≠ some .failed

/-- When a service that has been ready uses up its restarts, the services that
need it have been taken from the queue or are blocked. -/
def ExhaustsCut (w : World) (s : State) : Prop :=
  ∀ n ∈ exhaustedChild w s, n ∈ s.readyReported → Cut s n

instance (w : World) (s : State) : Decidable (ExhaustsCut w s) :=
  inferInstanceAs (Decidable (∀ n ∈ exhaustedChild w s, _))

/-- A boot without commands that has left nothing to be launched onto a failed
service. -/
structure FailuresCut (N : Net String) (g : ServiceGraph)
    (services : List ServiceDef) (s : State) : Prop where
  queued : Queued N s.view
  needs : s.graph.needsDependentsOf = g.needsDependentsOf
  defs : ∀ n svc, s.svcByName.lookup n = some svc →
    svc ∈ services ∧ svc.name = n
  pending : s.pendingRestart = ∅
  cut : ∀ d, s.serviceStates.lookup d = some .failed → Cut s d

namespace FailuresCut

variable {N : Net String} {g : ServiceGraph} {services : List ServiceDef}
  {s : State}

/-- No restart has been asked for, so none falls through. -/
private theorem no_fallen (h : FailuresCut N g services s) (w : World) :
    fallenChild w s = none := by
  unfold fallenChild
  rw [h.pending]
  split
  · rw [if_neg (Finset.notMem_empty _)]
  · rfl

/-- Nothing is launched onto a failed service, as long as whatever uses up its
restarts after having been ready has no one left to launch. -/
theorem step (h : FailuresCut N g services s) (cfg : Config) (w : World)
    (hcommand : w.command = none) (hok : ExhaustsCut w s) :
    FailuresCut N g services (step cfg w s) := by
  obtain ⟨hlog, hblocked, hedges⟩ := step_grows cfg w s
  obtain ⟨t, hmove, _⟩ := step_move cfg w s
  have hkeep : ∀ d, Cut s d → Cut (FlintInit.step cfg w s) d := by
    intro d hcut x hx
    rw [hedges] at hx
    rcases hcut x hx with hb | hpop
    · exact .inl (hblocked hb)
    · exact .inr (hlog hpop)
  have hother : ∀ {n : String} {st : ServiceState},
      (FlintInit.step cfg w s).serviceStates =
        s.serviceStates.insert n st →
      (st = .failed → Cut (FlintInit.step cfg w s) n) →
      ∀ d, (FlintInit.step cfg w s).serviceStates.lookup d =
        some .failed → Cut (FlintInit.step cfg w s) d := by
    intro n st hstates hn d hd
    rw [hstates, lookup_insert_eq] at hd
    by_cases hdn : d = n
    · subst hdn
      rw [if_pos rfl] at hd
      exact hn (Option.some.inj hd)
    · rw [if_neg hdn] at hd
      exact hkeep d (h.cut d hd)
  refine ⟨h.queued.move hmove, hedges.trans h.needs, ?_, ?_, ?_⟩
  · rcases step_defs cfg w s with hsame | ⟨n, reply, raw, svc, _, hc, _⟩
    · rw [hsame]
      exact h.defs
    · rw [hcommand] at hc
      cases hc
  · have hsub := step_pending cfg s (fun _ => hcommand)
    rw [h.pending] at hsub
    exact Finset.subset_empty.mp hsub
  · cases (step_cases cfg w s).turn with
    | same hstates hreported =>
        intro d hd
        rw [hstates] at hd
        exact hkeep d (h.cut d hd)
    | runs n pid hstates hreported =>
        exact hother hstates (fun hst => nomatch hst)
    | ready n hstates hreported hmarked =>
        exact hother hstates (fun hst => nomatch hst)
    | blocked n hstates hreported hmarked hneeds =>
        refine hother hstates (fun _ x hx => .inl (hneeds x ?_))
        rw [hedges] at hx
        exact hx
    | fallen n hn hstates hreported =>
        rw [h.no_fallen w] at hn
        cases hn
    | ended n ending hn hstates hreported hmarked hneeds =>
        refine hother hstates (fun hst => ?_)
        have hexhausted : restartExhausted s n ending = true := by
          by_contra hno
          rw [if_neg hno] at hst
          cases hst
        by_cases hin : n ∈ s.readyReported
        · exact hkeep n (hok n (hn hexhausted) hin)
        · intro x hx
          rw [hedges] at hx
          exact .inl (hneeds hexhausted hin x hx)

/-- What is next on the queue is not launched onto a failed service. -/
theorem launches {orders : BuildOrders}
    (h : FailuresCut N g services s) (hbuilt : Built orders services g) :
    LaunchesUnfailed s := by
  intro n hn hunblocked svc hsvc d hd hfailed
  obtain ⟨hmem, hname⟩ := h.defs n svc hsvc
  have hneeds : n ∈ s.graph.needsDependentsOf d := by
    rw [h.needs]
    exact (hbuilt.needs d n).mpr ⟨svc, hmem, hname, hd⟩
  rcases h.cut d hfailed n hneeds with hb | hpop
  · exact hunblocked hb
  · obtain ⟨rest, hq⟩ := queue_of_nextPop hn
    refine h.queued.notMem_popped hq ?_
    exact List.mem_filterMap.mpr ⟨_, hpop, rfl⟩

end FailuresCut

/-- **Needs are hard for the whole boot.**  In every run on a built graph
without commands, in which the services that need a once ready service have
been taken from the queue or blocked when that service uses up its restarts,
the launch loop never comes to spawn a service while one that it needs has
failed. -/
theorem launches_unfailed {orders : BuildOrders}
    {services : List ServiceDef} {g : ServiceGraph}
    (hg : ServiceGraph.build orders services = .ok (.ok g)) (cfg : Config)
    (readFile : String → Except String String) (order : IterOrder String)
    (ws : List World)
    (hrun : EveryStep (fun w s => w.command = none ∧ ExhaustsCut w s)
      cfg readFile order g services ws) :
    EveryStep (fun _ s => LaunchesUnfailed s) cfg readFile order g services
      ws := by
  have hbuilt := build_built hg
  refine Meets.of_invariant (FailuresCut (waitNet orders services) g services)
    (fun w s hok h => h.step cfg w hok.1 hok.2)
    (fun w s _ h => h.launches hbuilt) ws _ hrun ?_
  refine ⟨initial_queued cfg readFile order hg, rfl, ?_, rfl, ?_⟩
  · intro n svc hsvc
    exact ⟨mem_of_initial_defs hsvc, name_of_initial_defs hsvc⟩
  · intro d hd
    cases initial_states hd

/-- `db` restarts, and `web` needs it and comes after `cache`. -/
def restartingDb : List ServiceDef :=
  [{ makeService "db" [] [] with
      service := ⟨"db", "/bin/db", some .always, none, none⟩ },
    makeService "cache" [] [], makeService "web" ["cache"] ["db"]]

/-- The polled child crashes. -/
def World.crash : World := { World.idle with waitpid := .exited 1 }

/-- `db` and `cache` are ready, `web` is launched, and then `db` crashes until
its restarts are used up. -/
def crashesAfterLaunch : List World :=
  List.replicate 12 .idle ++
    [{ World.idle with ready := some "db" },
      { World.idle with ready := some "cache" }] ++
    List.replicate 6 .idle ++ [.crash] ++ List.replicate 6 .idle ++
    (List.replicate 4 (.crash :: List.replicate 8 .idle)).flatten ++ [.crash]

/-- `db` gives up when `web` has been launched already, which the condition
allows. -/
theorem launches_unfailed_gives_up :
    ∃ g, ServiceGraph.build .asStored restartingDb = .ok (.ok g) ∧
      EveryStep (fun _ s => LaunchesUnfailed s) .bare (fun _ => .error "")
        (.asStored _) g restartingDb crashesAfterLaunch :=
  ⟨_, rfl, launches_unfailed
    (rfl : ServiceGraph.build .asStored restartingDb = .ok (.ok _)) .bare
    (fun _ => .error "") (.asStored _) _ (by decide +kernel)⟩

/-- `db` is ready and crashes until its restarts are used up, and only then
is `cache` ready. -/
def crashesBeforeLaunch : List World :=
  List.replicate 12 .idle ++ [{ World.idle with ready := some "db" }] ++
    List.replicate 4 .idle ++ [.crash] ++ List.replicate 6 .idle ++
    (List.replicate 4 (.crash :: List.replicate 7 .idle)).flatten ++
    [.crash] ++ List.replicate 4 .idle ++
    [{ World.idle with ready := some "cache" }, .idle]

/-- **A service is launched onto a failed one that it needs.**  The end of `db`
blocks nothing, as `db` has been ready before. -/
theorem launched_onto_failed :
    ∃ g, ServiceGraph.build .asStored restartingDb = .ok (.ok g) ∧
      (∀ w ∈ crashesBeforeLaunch, w.shutdown = false ∧ w.command = none ∧
        w.waitpid.ordinary = true) ∧
      let s := runWithMarker .bare (fun _ => .error "") (.asStored _) g
        restartingDb crashesBeforeLaunch
      s.serviceStates.lookup "db" = some .failed ∧
        (step .bare .idle s).log.head? = some (.spawned .launch "web" 3) :=
  ⟨_, rfl, by decide +kernel, by decide +kernel, by decide +kernel⟩

/-! ## What a finished service leaves -/

/-- A process has been spawned for the service. -/
def Started (s : State) (x : String) : Prop :=
  ∃ e ∈ s.log, e.spawnedName = some x

instance (s : State) (x : String) : Decidable (Started s x) :=
  inferInstanceAs (Decidable (∃ e ∈ s.log, _))

/-- No service that needs `n` is left waiting for it. -/
def Spared (s : State) (n : String) : Prop :=
  .ready n ∈ s.log ∨
    ∀ x ∈ s.graph.needsDependentsOf n, x ∈ s.blockedServices ∨ Started s x

instance (s : State) (n : String) : Decidable (Spared s n) :=
  inferInstanceAs (Decidable (_ ∨ ∀ x ∈ s.graph.needsDependentsOf n, _))

/-- The two ends at which the loop blocks nothing come only to services that
leave no one waiting: a restart that cannot be spawned, and the end of a
reported service with its restarts used up. -/
structure EndsSpared (w : World) (s : State) : Prop where
  fallen : ∀ n ∈ fallenChild w s, .marked n ∈ s.log ∧ Spared s n
  exhausted : ∀ n ∈ exhaustedChild w s, n ∈ s.readyReported → Spared s n

instance (w : World) (s : State) : Decidable (EndsSpared w s) :=
  decidable_of_iff
    ((∀ n ∈ fallenChild w s, .marked n ∈ s.log ∧ Spared s n) ∧
      ∀ n ∈ exhaustedChild w s, n ∈ s.readyReported → Spared s n)
    ⟨fun ⟨h₁, h₂⟩ => ⟨h₁, h₂⟩, fun h => ⟨h.fallen, h.exhausted⟩⟩

/-- Whatever is over has been marked, and whatever has failed leaves no one
waiting. -/
structure EndsMarked (s : State) : Prop where
  marked : ∀ n st, s.serviceStates.lookup n = some st → st.over = true →
    .marked n ∈ s.log
  failed : ∀ n, s.serviceStates.lookup n = some .failed → Spared s n
  reported : ∀ n ∈ s.readyReported, .marked n ∈ s.log

namespace EndsMarked

variable {s s' : State}

/-- A step in which `n` comes to the state `st`. Of the others nothing is new;
`n` itself has to be marked if it is over, and to leave no one waiting if it
has failed. -/
private theorem insert (h : EndsMarked s) (hlog : s.log ⊆ s'.log)
    (hspared : ∀ n, Spared s n → Spared s' n) {n : String}
    {st : ServiceState}
    (hstates : s'.serviceStates = s.serviceStates.insert n st)
    (hreported : s'.readyReported = s.readyReported ∨
      s'.readyReported = Insert.insert n s.readyReported ∧
        .marked n ∈ s'.log)
    (hover : st.over = true → .marked n ∈ s'.log)
    (hfailed : st = .failed → Spared s' n) : EndsMarked s' := by
  refine ⟨?_, ?_, ?_⟩
  · intro m st' hst' hover'
    rw [hstates, lookup_insert_eq] at hst'
    by_cases hm : m = n
    · rw [if_pos hm] at hst'
      cases hst'
      rw [hm]
      exact hover hover'
    · rw [if_neg hm] at hst'
      exact hlog (h.marked m st' hst' hover')
  · intro m hm'
    rw [hstates, lookup_insert_eq] at hm'
    by_cases hm : m = n
    · rw [if_pos hm] at hm'
      rw [hm]
      exact hfailed (Option.some.inj hm')
    · rw [if_neg hm] at hm'
      exact hspared m (h.failed m hm')
  · intro m hm
    rcases hreported with hsame | ⟨hnew, hmarked⟩
    · rw [hsame] at hm
      exact hlog (h.reported m hm)
    · rw [hnew] at hm
      rcases Finset.mem_insert.mp hm with rfl | hm
      · exact hmarked
      · exact hlog (h.reported m hm)

/-- Whatever comes to its end is marked, and leaves no one waiting if it fails,
unless it fails in one of the two places. -/
theorem step (h : EndsMarked s) (cfg : Config) (w : World)
    (hok : EndsSpared w s) : EndsMarked (step cfg w s) := by
  obtain ⟨hlog, hblocked, hedges⟩ := step_grows cfg w s
  have hspared : ∀ n, Spared s n → Spared (FlintInit.step cfg w s) n := by
    intro n hn
    rcases hn with hready | hall
    · exact .inl (hlog hready)
    · refine .inr fun x hx => ?_
      rw [hedges] at hx
      rcases hall x hx with hb | ⟨e, he, hname⟩
      · exact .inl (hblocked hb)
      · exact .inr ⟨e, hlog he, hname⟩
  have hblocks : ∀ {n}, (∀ x ∈ s.graph.needsDependentsOf n,
      x ∈ (FlintInit.step cfg w s).blockedServices) →
      Spared (FlintInit.step cfg w s) n := by
    intro n hn
    refine .inr fun x hx => .inl (hn x ?_)
    rw [hedges] at hx
    exact hx
  cases (step_cases cfg w s).turn with
  | same hstates hreported =>
      refine ⟨?_, ?_, ?_⟩
      · rw [hstates]
        exact fun n st hst hover => hlog (h.marked n st hst hover)
      · rw [hstates]
        exact fun n hn => hspared n (h.failed n hn)
      · rw [hreported]
        exact fun n hn => hlog (h.reported n hn)
  | runs n pid hstates hreported =>
      exact h.insert hlog hspared hstates (.inl hreported)
        (fun hover => nomatch hover) (fun hst => nomatch hst)
  | ready n hstates hreported hmarked =>
      exact h.insert hlog hspared hstates (.inr ⟨hreported, hmarked⟩)
        (fun hover => nomatch hover) (fun hst => nomatch hst)
  | blocked n hstates hreported hmarked hneeds =>
      exact h.insert hlog hspared hstates (.inl hreported)
        (fun _ => hmarked) (fun _ => hblocks hneeds)
  | fallen n hn hstates hreported =>
      obtain ⟨hmarked, hleft⟩ := hok.fallen n hn
      exact h.insert hlog hspared hstates (.inl hreported)
        (fun _ => hlog hmarked) (fun _ => hspared n hleft)
  | ended n ending hn hstates hreported hmarked hneeds =>
      have hmarked' : .marked n ∈ (FlintInit.step cfg w s).log := by
        rcases hmarked with hin | hmarked
        · exact hlog (h.reported n hin)
        · exact hmarked
      refine h.insert hlog hspared hstates (.inr ⟨hreported, hmarked'⟩)
        (fun _ => hmarked') (fun hst => ?_)
      have hexhausted : restartExhausted s n ending = true := by
        by_contra hno
        rw [if_neg hno] at hst
        cases hst
      by_cases hin : n ∈ s.readyReported
      · exact hspared n (hok.exhausted n (hn hexhausted) hin)
      · exact hblocks (hneeds hexhausted hin)

end EndsMarked

/-- **A finished service leaves no one waiting.**  In every run in which the
two ends that block nothing come only to services that leave no one waiting,
each service that has exited or failed has been marked, and when it has failed
without having been ready, each service that needs it is blocked or has been
started. -/
theorem finished_leaves_no_one_waiting (cfg : Config)
    (readFile : String → Except String String) (order : IterOrder String)
    (g : ServiceGraph) (services : List ServiceDef) (ws : List World)
    (hrun : EveryStep EndsSpared cfg readFile order g services ws)
    (n : String) (st : ServiceState) :
    let s := runWithMarker cfg readFile order g services ws
    s.serviceStates.lookup n = some st → st.over = true →
      .marked n ∈ s.log ∧
        (st = .failed → .ready n ∉ s.log →
          ∀ x ∈ s.graph.needsDependentsOf n,
            x ∈ s.blockedServices ∨ Started s x) := by
  intro s hst hover
  have hends : EndsMarked s := by
    refine run_invariant EndsMarked (fun w s hok h => h.step cfg w hok) ws _
      hrun ⟨?_, ?_, fun n hn => nomatch hn⟩
    · intro n st hst hover
      cases initial_states hst
      cases hover
    · intro n hn
      cases initial_states hn
  refine ⟨hends.marked n st hst hover, ?_⟩
  intro hfailed hnever
  subst hfailed
  rcases hends.failed n hst with hready | hall
  · exact absurd hready hnever
  · exact hall

/-- `web` needs `db`. -/
def webNeedsDb : List ServiceDef :=
  [makeService "db" [] [], makeService "web" [] ["db"]]

/-- The polled child is terminated, and no process can be forked. -/
def World.noFork : World :=
  { World.idle with
    waitpid := .signaled 15
    fork := fun _ => .error "EAGAIN"
    fork_fresh := fun _ _ h => nomatch h }

/-- `db` is ready and `web` runs; then `db` is restarted, in vain. -/
def restartedLate : List World :=
  List.replicate 10 .idle ++ [{ World.idle with ready := some "db" }] ++
    List.replicate 8 .idle ++
    [{ World.idle with command := some (.restart "db" 0) }] ++
    List.replicate 5 .idle ++ [.noFork]

/-- A restart of `db` fails, but `db` has been marked and `web` runs, so no one
is left waiting. -/
theorem finished_leaves_no_one_waiting_restart :
    ∃ g, ServiceGraph.build .asStored webNeedsDb = .ok (.ok g) ∧
      let s := runWithMarker .bare (fun _ => .error "") (.asStored _) g
        webNeedsDb restartedLate
      s.serviceStates.lookup "db" = some .failed ∧ .marked "db" ∈ s.log :=
  have hdb : (runWithMarker .bare (fun _ => .error "") (.asStored _) _
      webNeedsDb restartedLate).serviceStates.lookup "db" = some .failed := by
    decide +kernel
  ⟨_, rfl, hdb, (finished_leaves_no_one_waiting .bare (fun _ => .error "")
    (.asStored _) _ webNeedsDb restartedLate (by decide +kernel) "db" .failed
    hdb rfl).1⟩

/-- `db` is restarted before it is ready, in vain. -/
def restartedEarly : List World :=
  List.replicate 9 .idle ++
    [{ World.idle with command := some (.restart "db" 0) }] ++
    List.replicate 4 .idle ++ [.noFork, .idle]

/-- **A failed restart leaves `web` waiting.**  `db` has failed, but it is not
marked, and `web`, which needs it, is neither blocked nor started. -/
theorem failed_restart_leaves_waiting :
    ∃ g, ServiceGraph.build .asStored webNeedsDb = .ok (.ok g) ∧
      let s := runWithMarker .bare (fun _ => .error "") (.asStored _) g
        webNeedsDb restartedEarly
      s.phase = .top ∧ s.serviceStates.lookup "db" = some .failed ∧
        .marked "db" ∉ s.log ∧ .ready "db" ∉ s.log ∧
        "web" ∈ s.graph.needsDependentsOf "db" ∧
        "web" ∉ s.blockedServices ∧ ¬ Started s "web" :=
  ⟨_, rfl, by decide +kernel⟩

end FlintInit
