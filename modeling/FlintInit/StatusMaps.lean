import FlintInit.LiveProcesses
import FlintInit.Steps

/-!
# What the control socket shows

The loop keeps a service in three tables: `service_states` for its own
decisions, `shared` for the control socket and `pid_to_name` for the children.
`Stop` and `Status` see only `shared`.  The tables say the same about a service
as long as the loop spawns nothing that runs already and believes no readiness
message of a service that does not run; `views_agree` is the invariant, kept
by each place of the loop that touches one of the tables.
-/

namespace FlintInit

open Collections Runs

/-- The name under which a state is shown. -/
def ServiceState.label : ServiceState → String
  | .pending => "pending"
  | .running _ => "running"
  | .ready => "ready"
  | .exited _ => "exited"
  | .failed => "failed"

/-- The pid that `Stop` would signal. -/
def State.shownPid (s : State) (n : String) : Option Pid :=
  (s.shared.lookup n).bind (·.pid)

/-- The three tables agree about `n`. -/
structure AgreesOn (s : State) (n : String) : Prop where
  up : (∃ st, s.serviceStates.lookup n = some st ∧ st.up = true) ↔
    ∃ pid, s.pidToName.lookup pid = some n
  label : (s.shared.lookup n).map (·.state) =
    (s.serviceStates.lookup n).map ServiceState.label
  shown : ∀ pid, s.shownPid n = some pid → s.pidToName.lookup pid = some n
  reached : ∀ pid, s.pidToName.lookup pid = some n → s.shownPid n = some pid

/-- The tables agree about every service but `n`, which has no process. -/
structure AgreesBut (s : State) (n : String) : Prop where
  others : ∀ m, m ≠ n → AgreesOn s m
  idle : ∀ pid, s.pidToName.lookup pid ≠ some n

/-- What `sync_state` shows of the service it is called for. -/
theorem lookup_syncState_self (shared : Table String ServiceInfo)
    (n : String) (st : ServiceState) :
    ((syncState shared n st).lookup n).map (·.state) = some st.label ∧
      ((syncState shared n st).lookup n).bind (·.pid) =
        match st with
        | .running pid => some pid
        | .ready => (shared.lookup n).bind (·.pid)
        | _ => none := by
  unfold syncState
  rw [lookup_entry, if_pos rfl]
  cases st <;> cases shared.lookup n <;> exact ⟨rfl, rfl⟩

/-- `sync_state` touches the row of its own service only. -/
theorem lookup_syncState_other (shared : Table String ServiceInfo)
    {n m : String} (hm : m ≠ n) (st : ServiceState) :
    (syncState shared n st).lookup m = shared.lookup m := by
  unfold syncState
  rw [lookup_entry, if_neg hm]

/-! ## The places that touch a table -/

section Places

variable {s s' : State} {n : String}

/-- Agreement about `n` reads the rows of `n` alone. -/
theorem AgreesOn.of_rows (h : AgreesOn s n)
    (hstate : s'.serviceStates.lookup n = s.serviceStates.lookup n)
    (hshared : s'.shared.lookup n = s.shared.lookup n)
    (hlive : ∀ pid, s'.pidToName.lookup pid = some n ↔
      s.pidToName.lookup pid = some n) : AgreesOn s' n := by
  have hshown : s'.shownPid n = s.shownPid n := by
    simp only [State.shownPid, hshared]
  refine ⟨?_, ?_, ?_, ?_⟩
  · simp only [hstate, hlive]
    exact h.up
  · rw [hstate, hshared]
    exact h.label
  · intro pid hpid
    rw [hshown] at hpid
    exact (hlive pid).mpr (h.shown pid hpid)
  · intro pid hpid
    rw [hshown]
    exact h.reached pid ((hlive pid).mp hpid)

/-- Agreement reads the three tables and nothing else. -/
theorem AgreesOn.congr (h : AgreesOn s n)
    (hstates : s'.serviceStates = s.serviceStates)
    (hshared : s'.shared = s.shared)
    (hlive : s'.pidToName = s.pidToName) : AgreesOn s' n :=
  h.of_rows (by rw [hstates]) (by rw [hshared]) (fun _ => by rw [hlive])

/-- So does agreement about all services but one. -/
theorem AgreesBut.congr (h : AgreesBut s n)
    (hstates : s'.serviceStates = s.serviceStates)
    (hshared : s'.shared = s.shared)
    (hlive : s'.pidToName = s.pidToName) : AgreesBut s' n :=
  ⟨fun m hm => (h.others m hm).congr hstates hshared hlive, by
    rw [hlive]
    exact h.idle⟩

/-- Where nothing runs for `n`, everything but `n` agrees in particular. -/
theorem AgreesBut.of_idle (h : ∀ m, AgreesOn s m)
    (hidle : ∀ pid, s.pidToName.lookup pid ≠ some n) : AgreesBut s n :=
  ⟨fun m _ => h m, hidle⟩

/-- The state that is set is the one in force. -/
private theorem state_setState (s : State) (n : String) (st : ServiceState) :
    (s.setState n st).serviceStates.lookup n = some st :=
  (lookup_insert_eq ..).trans (if_pos rfl)

/-- It is also the one that is shown. -/
private theorem label_setState (s : State) (n : String) (st : ServiceState) :
    ((s.setState n st).shared.lookup n).map (·.state) =
      ((s.setState n st).serviceStates.lookup n).map ServiceState.label := by
  rw [state_setState]
  exact (lookup_syncState_self s.shared n st).1

/-- Setting one state says nothing about the others. -/
theorem AgreesOn.setState_other {m : String} (h : AgreesOn s m) (hm : m ≠ n)
    (st : ServiceState) : AgreesOn (s.setState n st) m :=
  h.of_rows ((lookup_insert_eq ..).trans (if_neg hm))
    (lookup_syncState_other s.shared hm st) (fun _ => Iff.rfl)

/-- A service without a process is set to a state that is not up. -/
theorem AgreesBut.down (h : AgreesBut s n) (st : ServiceState)
    (hst : st.up = false) (m : String) : AgreesOn (s.setState n st) m := by
  by_cases hm : m = n
  · subst hm
    have hshown : (s.setState m st).shownPid m = none := by
      refine (lookup_syncState_self s.shared m st).2.trans ?_
      cases st <;> first | rfl | cases hst
    refine ⟨?_, label_setState s m st, ?_, ?_⟩
    · rw [state_setState]
      refine iff_of_false ?_ (fun ⟨pid, hpid⟩ => h.idle pid hpid)
      intro ⟨st', hst', hup⟩
      cases hst'
      rw [hst] at hup
      cases hup
    · intro pid hpid
      rw [hshown] at hpid
      cases hpid
    · intro pid hpid
      exact absurd hpid (h.idle pid)
  · exact (h.others m hm).setState_other hm st

/-- A new child of a service without a process is tracked and shown. Its own
rows are written anew, with the number of the child, and those of other
services are as before. -/
theorem AgreesBut.track (h : AgreesBut s n) (cause : Cause) {pid : Pid}
    (hfresh : s.pidToName.lookup pid = none) (m : String) :
    AgreesOn (s.track cause n pid) m := by
  have hlive : ∀ p, (s.track cause n pid).pidToName.lookup p =
      if p = pid then some n else s.pidToName.lookup p := by
    intro p
    exact lookup_insert_eq ..
  by_cases hm : m = n
  · subst hm
    have hstate : (s.track cause m pid).serviceStates.lookup m =
        some (.running pid) := state_setState s m (.running pid)
    have hshown : (s.track cause m pid).shownPid m = some pid :=
      (lookup_syncState_self s.shared m (.running pid)).2
    have hself : (s.track cause m pid).pidToName.lookup pid = some m := by
      rw [hlive, if_pos rfl]
    refine ⟨?_, label_setState s m (.running pid), ?_, ?_⟩
    · exact iff_of_true ⟨_, hstate, rfl⟩ ⟨pid, hself⟩
    · intro p hp
      rw [hshown] at hp
      cases hp
      exact hself
    · intro p hp
      rw [hlive] at hp
      by_cases hpid : p = pid
      · rw [hshown, hpid]
      · rw [if_neg hpid] at hp
        exact absurd hp (h.idle p)
  · have hother := (h.others m hm).setState_other hm (.running pid)
    refine hother.of_rows rfl rfl ?_
    intro p
    rw [hlive]
    by_cases hpid : p = pid
    · subst hpid
      rw [if_pos rfl]
      refine iff_of_false ?_ ?_
      · intro hp
        exact hm (Option.some.inj hp).symm
      · intro hp
        exact nomatch hfresh.symm.trans hp
    · rw [if_neg hpid]
      exact Iff.rfl

/-- The one child of a service is gone. No other child of that service is
tracked, since the shared table shows one number only, so nothing is left to
disagree with but its own rows. -/
theorem AgreesBut.of_reap (h : ∀ m, AgreesOn s m) {pid : Pid}
    (hlive : s.pidToName.lookup pid = some n)
    (hstates : s'.serviceStates = s.serviceStates)
    (hshared : s'.shared = s.shared)
    (hreap : s'.pidToName = s.pidToName.erase pid) : AgreesBut s' n := by
  have hlookup : ∀ p, s'.pidToName.lookup p =
      if p = pid then none else s.pidToName.lookup p := by
    intro p
    rw [hreap, lookup_erase_eq]
  refine ⟨fun m hm => ?_, fun p hp => ?_⟩
  · refine (h m).of_rows (by rw [hstates]) (by rw [hshared]) ?_
    intro p
    rw [hlookup]
    by_cases hpid : p = pid
    · subst hpid
      rw [if_pos rfl, hlive]
      refine iff_of_false (fun hp => nomatch hp) ?_
      intro hp
      exact hm (Option.some.inj hp).symm
    · rw [if_neg hpid]
  · rw [hlookup] at hp
    by_cases hpid : p = pid
    · rw [if_pos hpid] at hp
      cases hp
    · rw [if_neg hpid] at hp
      -- two children of one service would both be shown
      have hboth := ((h n).reached p hp).symm.trans ((h n).reached pid hlive)
      exact hpid (Option.some.inj hboth)

/-- A running service is ready, under the pid it had. -/
theorem AgreesOn.setReady (h : ∀ m, AgreesOn s m)
    (hlive : ∃ pid, s.pidToName.lookup pid = some n) (m : String) :
    AgreesOn (s.setState n .ready) m := by
  by_cases hm : m = n
  · subst hm
    have hshown : (s.setState m .ready).shownPid m = s.shownPid m :=
      (lookup_syncState_self s.shared m .ready).2
    refine ⟨?_, label_setState s m .ready, ?_, ?_⟩
    · exact iff_of_true ⟨_, state_setState s m .ready, rfl⟩ hlive
    · rw [hshown]
      exact (h m).shown
    · rw [hshown]
      exact (h m).reached
  · exact (h m).setState_other hm .ready

end Places

/-! ## One step -/

/-- A readiness message that counts comes from a service with a process. -/
def ReadyTracked (w : World) (s : State) : Prop :=
  ∀ n ∈ readyMessage w s, n ∉ s.readyReported →
    ∃ pid ∈ s.pidToName.keys, s.pidToName.lookup pid = some n

instance (w : World) (s : State) : Decidable (ReadyTracked w s) :=
  inferInstanceAs (Decidable (∀ n ∈ readyMessage w s, _))

/-- What keeps the tables together: the launch loop takes no name that has a
process, readiness messages come from services that have one, and every
tracked child is the loop's own. -/
structure KeepsViews (w : World) (s : State) : Prop where
  launches : LaunchesIdle s
  ready : ReadyTracked w s
  lost : lostChild w s = none

instance (w : World) (s : State) : Decidable (KeepsViews w s) :=
  decidable_of_iff
    (LaunchesIdle s ∧ ReadyTracked w s ∧ lostChild w s = none)
    ⟨fun ⟨h₁, h₂, h₃⟩ => ⟨h₁, h₂, h₃⟩,
      fun h => ⟨h.launches, h.ready, h.lost⟩⟩

/-- The tables agree about every service, unless the loop has been left with
an error. -/
def Agrees (s : State) : Prop := s.phase.dead = true ∨ ∀ n, AgreesOn s n

/-- A spawn whose failure ends the loop. -/
theorem AgreesBut.spawnOrReturn {s : State} {n : String}
    (h : AgreesBut s n) (w : World) (cause : Cause) (svc : ServiceDef) :
    Agrees (spawnOrReturn w s cause n svc) := by
  unfold FlintInit.spawnOrReturn
  split
  · exact .inl rfl
  · exact .inl rfl
  · rename_i pid hspawn
    exact .inr (h.track cause (spawnService_fresh hspawn))

/-- A restart that was asked for tracks and shows the new child, or fails and
shows the service as failed. -/
theorem AgreesBut.manualRestart {s : State} {n : String}
    (h : AgreesBut s n) (w : World) : Agrees (manualRestart w s n) := by
  have hanswer : ∀ (s' : State) (answer : Except ReplyError Unit),
      (answerRestart s' n answer).serviceStates = s'.serviceStates ∧
        (answerRestart s' n answer).shared = s'.shared ∧
        (answerRestart s' n answer).pidToName = s'.pidToName := by
    intro s' answer
    obtain ⟨replies, restartReplies, heq⟩ := answerRestart_eq s' n answer
    rw [heq]
    exact ⟨rfl, rfl, rfl⟩
  unfold FlintInit.manualRestart
  split
  · exact .inl rfl
  · split
    · exact .inl rfl
    · rename_i pid hspawn
      refine .inr fun m => ?_
      have htrack := h.track .manualRestart (spawnService_fresh hspawn) m
      obtain ⟨hstates, hshared, hlive⟩ := hanswer
        (s.track .manualRestart n pid) (.ok ())
      exact htrack.congr hstates hshared hlive
    · rename_i e hspawn
      refine .inr fun m => ?_
      obtain ⟨hstates, hshared, hlive⟩ := hanswer s (.error (.spawnFailed e))
      exact (h.congr hstates hshared hlive).down .failed rfl m

/-- The state a final end leaves is not up, and no other row is touched. -/
private theorem finishService_rows (s : State) (n : String)
    (ending : Ending) :
    ∃ st : ServiceState, st.up = false ∧
      (finishService s n ending).serviceStates =
        (s.setState n st).serviceStates ∧
      (finishService s n ending).shared = (s.setState n st).shared ∧
      (finishService s n ending).pidToName = s.pidToName := by
  obtain ⟨st, new, graph, blocked, reported, toStart, hdown, hnew, heq⟩ :=
    finishService_eq s n ending
  rw [heq]
  exact ⟨st, hdown, rfl, rfl, rfl⟩

/-- A command finds the service it spawns without a process. A stopped state
says so, by the agreement itself, and a reload has looked for the process; the
other commands leave the tables alone. -/
theorem CommandCase.agrees {cfg : Config} {w : World} {s s' : State}
    {command : CtlCommand} (hcase : CommandCase cfg w s command s')
    (h : ∀ n, AgreesOn s n) : Agrees s' := by
  have hbase : ∀ {base : State}, Prepared cfg w s command base →
      base.serviceStates = s.serviceStates ∧ base.shared = s.shared ∧
        base.pidToName = s.pidToName := by
    intro base hprep
    cases hprep <;> exact ⟨rfl, rfl, rfl⟩
  cases hcase with
  | answered => exact .inr fun n => (h n).congr rfl rfl rfl
  | @asked base hprep hask =>
      obtain ⟨hstates, hshared, hlive⟩ := hbase hprep
      obtain ⟨kills, heq⟩ :=
        requestRestart_eq w base command.service command.reply
      rw [heq]
      exact .inr fun n => (h n).congr hstates hshared hlive
  | @demanded base hprep hidle =>
      obtain ⟨hstates, hshared, hlive⟩ := hbase hprep
      have hnone : ∀ pid,
          s.pidToName.lookup pid ≠ some command.service := by
        rcases hidle with ⟨st, hst, hdown⟩ | hfind
        · intro pid hpid
          obtain ⟨st', hst', hup⟩ := (h command.service).up.mpr ⟨pid, hpid⟩
          rw [hst] at hst'
          cases hst'
          rw [hdown] at hup
          cases hup
        · exact findPid_eq_none.mp hfind
      have hbut : AgreesBut base command.service :=
        (AgreesBut.of_idle h hnone).congr hstates hshared hlive
      have hall : ∀ n, AgreesOn base n :=
        fun n => (h n).congr hstates hshared hlive
      unfold spawnOnDemand
      split
      · exact .inr fun n => (hall n).congr rfl rfl rfl
      · split
        · exact .inl rfl
        · exact .inr fun n => (hall n).congr rfl rfl rfl
        · rename_i pid hspawn
          refine .inr fun n => ?_
          exact (hbut.track .command (spawnService_fresh hspawn) n).congr
            rfl rfl rfl

/-- **The tables stay together** over a step that spawns nothing twice,
believes no message of a service without a process and loses no child. -/
theorem StepCase.agrees {cfg : Config} {w : World} {s s' : State}
    (hcase : StepCase cfg w s s') (hok : KeepsViews w s)
    (h : ∀ n, AgreesOn s n) : Agrees s' := by
  cases hcase with
  | still => exact .inr fun n => (h n).congr rfl rfl rfl
  | @command command hphase hcommand =>
      exact (runCommand_cases cfg w s command).agrees h
  | @ready n phase hn hdead =>
      refine .inr fun m => ?_
      unfold reportReady
      split
      · exact (h m).congr rfl rfl rfl
      · rename_i hnew
        obtain ⟨pid, _, hlive⟩ := hok.ready n hn hnew
        exact (AgreesOn.setReady h ⟨pid, hlive⟩ m).congr rfl rfl rfl
  | @pop n rest hphase hqueue =>
      have hpop : nextPop s = some n := by
        simp [nextPop, hphase, pop_eq_some.mpr hqueue]
      have hbut : AgreesBut s n :=
        .of_idle h (State.noProcess_iff.mp (hok.launches n hpop))
      rcases launchService_cases w { s with toStart := rest } n with
        ⟨_, heq⟩ | ⟨_, _, heq⟩ | ⟨svc, _, _, heq⟩
      · rw [heq]
        refine .inr fun m => ?_
        exact (hbut.down .failed rfl m).congr rfl rfl rfl
      · rw [heq]
        exact .inr fun m => (h m).congr rfl rfl rfl
      · obtain ⟨removed, hstale⟩ := removeStale_eq
          (({ s with toStart := rest } : State).note (.popped n)) svc
        rw [heq, hstale]
        refine AgreesBut.spawnOrReturn (hbut.congr ?_ ?_ ?_) w .launch svc
        all_goals rfl
  | @manual pid rest n ending hphase hend hlive hpending =>
      refine AgreesBut.manualRestart ?_ w
      exact .of_reap h hlive rfl rfl rfl
  | @auto pid rest n ending hphase hend hlive hpending hdue =>
      unfold autoRestart
      split
      · exact .inl rfl
      · refine AgreesBut.spawnOrReturn ?_ ..
        exact .of_reap h hlive rfl rfl rfl
  | @finish pid rest n ending hphase hend hlive hpending hdue =>
      have hbut : AgreesBut (s.reapChild pid rest) n :=
        .of_reap h hlive rfl rfl rfl
      obtain ⟨st, hdown, hstates, hshared, hsame⟩ := finishService_rows
        { s.reapChild pid rest with
          restartCounts := entry s.restartCounts n 0 id } n ending
      exact .inr fun m => (hbut.down st hdown m).congr hstates hshared hsame
  | @lost pid rest hphase hwait =>
      have hlost := hok.lost
      simp only [lostChild, hphase, hwait] at hlost
      cases hlost
  | refused => exact .inl rfl

/-- The tables stay together over every step of the loop that meets the
condition. -/
theorem Agrees.step {cfg : Config} {w : World} {s : State}
    (hok : KeepsViews w s) (h : Agrees s) : Agrees (step cfg w s) := by
  rcases h with hdead | h
  · rw [step_dead hdead]
    exact .inl hdead
  · exact (step_cases cfg w s).agrees hok h

/-! ## Runs -/

/-- The rows of a service that has not been looked at yet. The loop at the
start writes `pending` to both tables for each name, so the rows agree after it
if they did before. -/
private theorem pending_rows (n : String) :
    ∀ (keys : List String) (states : Table String ServiceState)
      (shared : Table String ServiceInfo),
      let states' := keys.foldl (fun t m => t.insert m .pending) states
      let shared' := keys.foldl (fun t m => syncState t m .pending) shared
      ((shared.lookup n).map (·.state) =
          (states.lookup n).map ServiceState.label ∧
        (shared.lookup n).bind (·.pid) = none ∧
        ∀ st, states.lookup n = some st → st.up = false) →
      (shared'.lookup n).map (·.state) =
          (states'.lookup n).map ServiceState.label ∧
        (shared'.lookup n).bind (·.pid) = none ∧
        ∀ st, states'.lookup n = some st → st.up = false := by
  intro keys
  induction keys with
  | nil => intro states shared states' shared' h; exact h
  | cons m keys ih =>
      intro states shared states' shared' h
      refine ih (states.insert m .pending) (syncState shared m .pending) ?_
      rw [lookup_insert_eq]
      by_cases hn : n = m
      · subst hn
        rw [if_pos rfl]
        obtain ⟨hlabel, hpid⟩ := lookup_syncState_self shared n .pending
        refine ⟨hlabel, hpid, ?_⟩
        intro st hst
        cases hst
        rfl
      · rw [if_neg hn, lookup_syncState_other shared hn]
        exact h

/-- When the loop is entered every service is pending in all tables, and none
has a process. -/
theorem initial_agrees (cfg : Config)
    (readFile : String → Except String String) (order : IterOrder String)
    (g : ServiceGraph) (services : List ServiceDef) (n : String) :
    AgreesOn (initial cfg readFile order g services) n := by
  have hnone : ∀ pid, (initial cfg readFile order g
      services).pidToName.lookup pid ≠ some n := fun _ h => nomatch h
  obtain ⟨hlabel, hpid, hdown⟩ := pending_rows n
    (initial cfg readFile order g services).svcByName.keys ∅ ∅
    ⟨rfl, rfl, fun st hst => nomatch hst⟩
  have hshown : (initial cfg readFile order g services).shownPid n = none :=
    hpid
  refine ⟨?_, hlabel, ?_, fun pid h => absurd h (hnone pid)⟩
  · refine iff_of_false ?_ (fun ⟨pid, h⟩ => hnone pid h)
    intro ⟨st, hst, hup⟩
    rw [hdown st hst] at hup
    cases hup
  · intro pid h
    rw [hshown] at h
    cases h

/-- **The views of a service agree.**  In every run whose launch loop takes no
name that has a process, in which readiness messages come from services that
have one, and which loses no child to someone else, the three tables agree
about every service whenever the loop is at its top. -/
theorem views_agree (cfg : Config)
    (readFile : String → Except String String) (order : IterOrder String)
    (g : ServiceGraph) (services : List ServiceDef) (ws : List World)
    (hrun : EveryStep KeepsViews cfg readFile order g services ws)
    (htop : (runWithMarker cfg readFile order g services ws).phase = .top)
    (n : String) :
    AgreesOn (runWithMarker cfg readFile order g services ws) n := by
  have hagrees := run_invariant Agrees
    (fun w s hok h => Agrees.step hok h) ws _ hrun
    (.inr (initial_agrees cfg readFile order g services))
  rcases hagrees with hdead | hagrees
  · change (runWithMarker cfg readFile order g services ws).phase.dead = true
      at hdead
    rw [htop] at hdead
    cases hdead
  · exact hagrees n

/-- `web` comes up after `db` and is restarted by command. -/
def restartedWeb : List World :=
  List.replicate 10 .idle ++ [{ World.idle with ready := some "db" }] ++
    List.replicate 8 .idle ++
    [{ World.idle with command := some (.restart "web" 0) }] ++
    List.replicate 4 .idle ++ [{ World.idle with waitpid := .signaled 15 }] ++
    List.replicate 2 .idle

/-- After the restart of `web` its new process is the one that `Stop` would
signal. -/
theorem views_agree_restart :
    ∃ g, ServiceGraph.build .asStored dbAndWeb = .ok (.ok g) ∧
      let s := runWithMarker .bare (fun _ => .error "") (.asStored _) g
        dbAndWeb restartedWeb
      s.shownPid "web" = some 2 ∧ ∀ n, AgreesOn s n :=
  ⟨_, rfl, by decide +kernel, views_agree .bare (fun _ => .error "")
    (.asStored _) _ dbAndWeb restartedWeb (by decide +kernel)
    (by decide +kernel)⟩

/-- `web` is reported ready while it is still waiting for `db`. -/
def reportedEarly : List World :=
  List.replicate 10 .idle ++ [{ World.idle with ready := some "web" }] ++
    List.replicate 5 .idle

/-- **The views part in two ways.**  A service reported ready before it runs is
shown as ready without a process, and of a service launched a second time one
process is not shown, so `Stop` cannot reach it. -/
theorem views_part :
    ∃ g, ServiceGraph.build .asStored dbAndWeb = .ok (.ok g) ∧
      (let s := runWithMarker .bare (fun _ => .error "") (.asStored _) g
        dbAndWeb reportedEarly
      s.phase = .top ∧ s.serviceStates.lookup "web" = some .ready ∧
        ∀ pid ∈ s.pidToName.keys, s.pidToName.lookup pid ≠ some "web") ∧
      let s := runWithMarker .bare (fun _ => .error "") (.asStored _) g
        dbAndWeb (startedEarly ++ List.replicate 6 .idle)
      s.phase = .top ∧ s.pidToName.lookup 2 = some "web" ∧
        s.shownPid "web" ≠ some 2 :=
  ⟨_, rfl, by decide +kernel, by decide +kernel⟩

end FlintInit
