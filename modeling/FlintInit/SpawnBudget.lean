import FlintInit.RestartAccounts

/-!
# How many processes a run can spawn

Process 1 must not fork for ever.  Each spawn is paid for by something that
happens only so often: a name leaves the launch queue once, a service has five
automatic restarts, and a command pays for one process, either at once or when
the restart it has asked for is carried out.

`Spend` sorts the steps by what they pay.  `WithinBudget` is the ledger of one
service, and adding the ledgers up bounds the run by the services and the
commands alone, whatever the processes do.
-/

namespace FlintInit

open Collections Release Runs

/-- The command received in this step. -/
def commandTaken (w : World) (s : State) : List CtlCommand :=
  match s.phase, w.command with
  | .commands, some command => [command]
  | _, _ => []

/-- A command is taken when one is there in the phase of commands. -/
theorem commandTaken_of {w : World} {s : State} {command : CtlCommand}
    (hphase : s.phase = .commands) (hcommand : w.command = some command) :
    commandTaken w s = [command] := by
  simp only [commandTaken, hphase, hcommand]

/-- The commands received in the course of a run. -/
def commandsTaken (cfg : Config) (s : State) (ws : List World) :
    List CtlCommand :=
  collect (step cfg) commandTaken s ws

/-- No process is spawned in these events. -/
def NoSpawn (events : List Event) : Prop :=
  ∀ cause n pid, .spawned cause n pid ∉ events

/-- What pays for a process of `n`. -/
inductive Payment (w : World) (s s' : State) (n : String) (pre : List Event) :
    Prop
  | launch (hpopped : .popped n ∈ pre)
      (hcounts : s'.restartCounts = s.restartCounts)
  | command {command : CtlCommand} (hcommand : commandTaken w s = [command])
      (hn : command.service = n)
      (hcounts : s'.restartCounts = s.restartCounts)
  | promise {old : Pid} (hlive : s.pidToName.lookup old = some n)
      (hpending : n ∈ s.pendingRestart) (hpending' : n ∉ s'.pendingRestart)
      (hcounts : s'.restartCounts = s.restartCounts)
  | restart {old : Pid} (hlive : s.pidToName.lookup old = some n)
      (hused : restartsUsed s n < maxRestarts)
      (hcounts : s'.restartCounts = entry s.restartCounts n 0 (· + 1))

/-- What a step costs. -/
inductive Spend (w : World) (s s' : State) : Prop
  | nothing (new : List Event) (hlog : s'.log = new ++ s.log)
      (hnew : NoSpawn new)
      (hlive : ∀ p n, s'.pidToName.lookup p = some n →
        s.pidToName.lookup p = some n)
      (hpending : s'.pendingRestart ⊆ s.pendingRestart)
      (hcounts : ∀ n, restartsUsed s' n = restartsUsed s n)
  /-- An automatic restart whose spawn fails has been counted. -/
  | wasted {n : String} (hlog : s'.log = s.log)
      (hlive : ∀ p n, s'.pidToName.lookup p = some n →
        s.pidToName.lookup p = some n)
      (hpending : s'.pendingRestart ⊆ s.pendingRestart)
      (hused : restartsUsed s n < maxRestarts)
      (hcounts : s'.restartCounts = entry s.restartCounts n 0 (· + 1))
  | asked {command : CtlCommand} (hcommand : commandTaken w s = [command])
      (hlog : s'.log = s.log)
      (hlive : ∀ p n, s'.pidToName.lookup p = some n →
        s.pidToName.lookup p = some n)
      (hpending : s'.pendingRestart ⊆
        insert command.service s.pendingRestart)
      (hcounts : s'.restartCounts = s.restartCounts)
  | spawned (cause : Cause) (n : String) (pid : Pid) (pre : List Event)
      (hlog : s'.log = .spawned cause n pid :: (pre ++ s.log))
      (hpre : NoSpawn pre)
      (hlive : ∀ p m, s'.pidToName.lookup p = some m →
        (p = pid ∧ m = n) ∨ s.pidToName.lookup p = some m)
      (hpending : s'.pendingRestart ⊆ s.pendingRestart)
      (hpaid : Payment w s s' n pre) : Spend w s s'

/-- The restarts used are read from their table alone. -/
theorem restartsUsed_congr {s s' : State}
    (h : s'.restartCounts = s.restartCounts) (n : String) :
    restartsUsed s' n = restartsUsed s n := by
  unfold restartsUsed
  rw [h]

/-- The automatic restarts after one more. -/
theorem restartsUsed_entry {s s' : State} {m : String}
    (h : s'.restartCounts = entry s.restartCounts m 0 (· + 1)) (n : String) :
    restartsUsed s' n =
      if n = m then restartsUsed s m + 1 else restartsUsed s n := by
  unfold restartsUsed
  rw [h, lookup_entry]
  split
  · rfl
  · rfl

/-- Reading a count does not change it. -/
theorem restartsUsed_read {s s' : State} {m : String}
    (h : s'.restartCounts = entry s.restartCounts m 0 id) (n : String) :
    restartsUsed s' n = restartsUsed s n := by
  unfold restartsUsed
  rw [h, lookup_entry]
  split
  · rename_i hn
    rw [hn]
    rfl
  · rfl

/-! ## One step -/

section Step

variable {cfg : Config} {w : World} {s s' : State}

/-- After a spawn the live children are the new one and those from before. -/
theorem live_of_track {base : State} (cause : Cause) {m : String}
    {pid p : Pid} {n : String}
    (h : (base.track cause m pid).pidToName.lookup p = some n) :
    (p = pid ∧ n = m) ∨ base.pidToName.lookup p = some n := by
  change (base.pidToName.insert pid m).lookup p = some n at h
  rw [lookup_insert_eq] at h
  split at h
  · rename_i hp
    cases h
    exact .inl ⟨hp, rfl⟩
  · exact .inr h

/-- After a reap no child is new. -/
theorem live_of_reap {pid : Pid} (rest : List Pid) {p : Pid} {n : String}
    (h : (s.reapChild pid rest).pidToName.lookup p = some n) :
    s.pidToName.lookup p = some n := by
  change (s.pidToName.erase pid).lookup p = some n at h
  rw [lookup_erase_eq] at h
  split at h
  · cases h
  · exact h

/-- A command costs a spawn for its own service at most, or the promise of one.
-/
theorem CommandCase.spend {command : CtlCommand}
    (hcase : CommandCase cfg w s command s')
    (htaken : commandTaken w s = [command]) : Spend w s s' := by
  cases hcase with
  | answered =>
      exact .nothing [] rfl nofun (fun _ _ h => h) (Finset.Subset.refl _)
        (fun _ => rfl)
  | @asked base hbase =>
      obtain ⟨kills, heq⟩ :=
        requestRestart_eq w base command.service command.reply
      rw [heq]
      cases hbase with
      | plain =>
          exact .asked htaken rfl (fun _ _ h => h) (Finset.Subset.refl _) rfl
      | reloaded =>
          exact .asked htaken rfl (fun _ _ h => h) (Finset.Subset.refl _) rfl
  | @demanded base hbase =>
      have hsame : base.log = s.log ∧ base.pidToName = s.pidToName ∧
          base.pendingRestart = s.pendingRestart ∧
          base.restartCounts = s.restartCounts := by
        cases hbase with
        | plain => exact ⟨rfl, rfl, rfl, rfl⟩
        | reloaded => exact ⟨rfl, rfl, rfl, rfl⟩
      obtain ⟨hlog, hlive, hpending, hcounts⟩ := hsame
      have hnone : ∀ {t : State}, t.log = base.log →
          t.pidToName = base.pidToName →
          t.pendingRestart = base.pendingRestart →
          t.restartCounts = base.restartCounts → Spend w s t := by
        intro t h₁ h₂ h₃ h₄
        refine .nothing [] (h₁.trans hlog) nofun ?_ ?_ ?_
        · rw [h₂, hlive]
          exact fun _ _ h => h
        · rw [h₃, hpending]
        · exact restartsUsed_congr (h₄.trans hcounts)
      unfold spawnOnDemand
      split
      · exact hnone rfl rfl rfl rfl
      · split
        · exact hnone rfl rfl rfl rfl
        · exact hnone rfl rfl rfl rfl
        · rename_i pid _
          refine .spawned .command command.service pid [] ?_ nofun ?_
            (Finset.subset_of_eq hpending) (.command htaken rfl hcounts)
          · rw [← hlog]
            rfl
          · intro p m hp
            rw [← hlive]
            exact live_of_track .command hp

/-- **What each step costs.**  A spawn is paid for by a launch, by an automatic
restart that is counted, by a command, or by the promise that a command was
given; every other step costs nothing. -/
theorem StepCase.spend (hcase : StepCase cfg w s s') : Spend w s s' := by
  cases hcase with
  | still =>
      exact .nothing [] rfl nofun (fun _ _ h => h) (Finset.Subset.refl _)
        (fun _ => rfl)
  | @command command hphase hcommand =>
      exact (runCommand_cases cfg w s command).spend
        (commandTaken_of hphase hcommand)
  | @ready n =>
      unfold reportReady
      split
      · exact .nothing [] rfl nofun (fun _ _ h => h) (Finset.Subset.refl _)
          (fun _ => rfl)
      · exact .nothing [.marked n, .ready n] rfl (by simp [NoSpawn])
          (fun _ _ h => h) (Finset.Subset.refl _) (fun _ => rfl)
  | @pop n rest hphase hqueue =>
      rcases launchService_cases w { s with toStart := rest } n with
        ⟨_, heq⟩ | ⟨_, _, heq⟩ | ⟨svc, _, _, heq⟩
      · rw [heq]
        exact .nothing [.marked n, .blocked n, .popped n] rfl
          (by simp [NoSpawn]) (fun _ _ h => h) (Finset.Subset.refl _)
          (fun _ => rfl)
      · rw [heq]
        exact .nothing [.popped n] rfl (by simp [NoSpawn])
          (fun _ _ h => h) (Finset.Subset.refl _) (fun _ => rfl)
      · rw [heq]
        obtain ⟨removed, hstale⟩ := removeStale_eq
          (({ s with toStart := rest } : State).note (.popped n)) svc
        rw [hstale]
        unfold spawnOrReturn
        split
        · exact .nothing [.popped n] rfl (by simp [NoSpawn])
            (fun _ _ h => h) (Finset.Subset.refl _) (fun _ => rfl)
        · exact .nothing [.popped n] rfl (by simp [NoSpawn])
            (fun _ _ h => h) (Finset.Subset.refl _) (fun _ => rfl)
        · rename_i pid _
          refine .spawned .launch n pid [.popped n] rfl (by simp [NoSpawn])
            ?_ (Finset.Subset.refl _) (.launch List.mem_cons_self rfl)
          intro p m hp
          exact live_of_track .launch hp
  | @manual pid rest n ending hphase hend hlive hpending =>
      have herase := Finset.erase_subset n s.pendingRestart
      unfold manualRestart
      split
      · exact .nothing [] rfl nofun (fun _ _ => live_of_reap rest) herase
          (fun _ => rfl)
      · split
        · exact .nothing [] rfl nofun (fun _ _ => live_of_reap rest) herase
            (fun _ => rfl)
        · rename_i new _
          obtain ⟨replies, parked, heq⟩ := answerRestart_eq
            (State.track { s.reapChild pid rest with
              pendingRestart := s.pendingRestart.erase n } .manualRestart n
              new) n (.ok ())
          rw [heq]
          refine .spawned .manualRestart n new [] rfl nofun ?_ herase
            (.promise hlive hpending (Finset.notMem_erase n _) rfl)
          intro p m hp
          rcases live_of_track .manualRestart hp with hnew | hold
          · exact .inl hnew
          · exact .inr (live_of_reap rest hold)
        · rename_i e _
          obtain ⟨replies, parked, heq⟩ := answerRestart_eq
            { s.reapChild pid rest with
              pendingRestart := s.pendingRestart.erase n } n
            (.error (.spawnFailed e))
          rw [heq]
          exact .nothing [] rfl nofun (fun _ _ => live_of_reap rest) herase
            (fun _ => rfl)
  | @auto pid rest n ending hphase hend hlive hpending hdue =>
      have hused : restartsUsed s n < maxRestarts := by
        simp only [restartDue, Bool.and_eq_true, decide_eq_true_eq] at hdue
        exact hdue.1.2
      have hwasted : ∀ {t : State}, t.log = s.log →
          t.pidToName = (s.reapChild pid rest).pidToName →
          t.pendingRestart = s.pendingRestart →
          t.restartCounts = entry s.restartCounts n 0 (· + 1) →
          Spend w s t := by
        intro t h₁ h₂ h₃ h₄
        refine .wasted h₁ ?_ (Finset.subset_of_eq h₃) hused h₄
        rw [h₂]
        exact fun _ _ => live_of_reap rest
      unfold autoRestart
      split
      · exact hwasted rfl rfl rfl rfl
      · unfold spawnOrReturn
        split
        · exact hwasted rfl rfl rfl rfl
        · exact hwasted rfl rfl rfl rfl
        · rename_i new _
          refine .spawned .autoRestart n new [] rfl nofun ?_
            (Finset.Subset.refl _) (.restart hlive hused rfl)
          intro p m hp
          rcases live_of_track .autoRestart hp with hnew | hold
          · exact .inl hnew
          · exact .inr (live_of_reap rest hold)
  | @finish pid rest n ending =>
      obtain ⟨st, new, graph, blocked, reported, toStart, -, hnone, heq⟩ :=
        finishService_eq
          { s.reapChild pid rest with
            restartCounts := entry s.restartCounts n 0 id } n ending
      rw [heq]
      exact .nothing new rfl hnone (fun _ _ => live_of_reap rest)
        (Finset.Subset.refl _) (restartsUsed_read rfl)
  | @lost pid rest =>
      exact .nothing [.lost _] rfl (by simp [NoSpawn])
        (fun _ _ => live_of_reap rest) (Finset.Subset.refl _) (fun _ => rfl)
  | refused =>
      exact .nothing [] rfl nofun (fun _ _ h => h) (Finset.Subset.refl _)
        (fun _ => rfl)

end Step

/-! ## The ledger of one service -/

section Ledger

variable {w : World} {s s' : State} {n : String}

/-- Events without a spawn leave the list of spawns as it is. -/
theorem spawned_of_noSpawn {new log : List Event} (hnew : NoSpawn new) :
    (new ++ log).filterMap Event.spawnedName =
      log.filterMap Event.spawnedName := by
  have hnone : new.filterMap Event.spawnedName = [] := by
    rw [List.filterMap_eq_nil_iff]
    intro e he
    cases e with
    | spawned cause m pid => exact absurd he (hnew cause m pid)
    | _ => rfl
  rw [List.filterMap_append, hnone, List.nil_append]

/-- So does a step that logs no others. -/
theorem view_spawned_eq {new : List Event} (hnew : NoSpawn new)
    (hlog : s'.log = new ++ s.log) : s'.view.spawned = s.view.spawned := by
  change s'.log.filterMap Event.spawnedName = _
  rw [hlog, spawned_of_noSpawn hnew]
  rfl

/-- The names taken are those of the new events and those from before. -/
theorem view_popped_eq {new : List Event} (hlog : s'.log = new ++ s.log) :
    s'.view.popped = new.filterMap Event.poppedName ++ s.view.popped := by
  change s'.log.filterMap Event.poppedName = _
  rw [hlog, List.filterMap_append]
  rfl

/-- One if a restart of the service has been asked for and not carried out. -/
def promised (n : String) (s : State) : Nat :=
  if n ∈ s.pendingRestart then 1 else 0

/-- A promise that is kept, or dropped, is not made anew. -/
theorem promised_le (h : s'.pendingRestart ⊆ s.pendingRestart) :
    promised n s' ≤ promised n s := by
  unfold promised
  by_cases hn : n ∈ s'.pendingRestart
  · rw [if_pos hn, if_pos (h hn)]
  · rw [if_neg hn]
    exact Nat.zero_le _

/-- The commands for one service. -/
def ordersOf (n : String) (commands : List CtlCommand) : Nat :=
  commands.countP (fun command => decide (command.service = n))

/-- The commands for a service are counted as they come. -/
theorem ordersOf_append (acc new : List CtlCommand) :
    ordersOf n (acc ++ new) = ordersOf n acc + ordersOf n new :=
  List.countP_append

/-- A single command counts for its own service. -/
theorem ordersOf_singleton (command : CtlCommand) :
    ordersOf n [command] = if command.service = n then 1 else 0 := by
  by_cases h : command.service = n
  · simp [ordersOf, h]
  · simp [ordersOf, h]

/-- The processes of a service and the one promised to it have been paid
for, and a service that has or had a process was launched or commanded. -/
structure WithinBudget (n : String) (acc : List CtlCommand) (s : State) :
    Prop where
  paid : s.view.spawned.count n + promised n s ≤
    s.view.popped.count n + restartsUsed s n + ordersOf n acc
  used : restartsUsed s n ≤ maxRestarts
  concerned : (∃ pid, s.pidToName.lookup pid = some n) ∨
    n ∈ s.view.spawned → n ∈ s.view.popped ∨ 0 < ordersOf n acc

namespace WithinBudget

variable {acc : List CtlCommand}

/-- What no step takes away. -/
theorem concerned_mono {new : List Event} (hlog : s'.log = new ++ s.log)
    (more : List CtlCommand)
    (h : n ∈ s.view.popped ∨ 0 < ordersOf n acc) :
    n ∈ s'.view.popped ∨ 0 < ordersOf n (acc ++ more) := by
  rcases h with hpopped | horders
  · rw [view_popped_eq hlog]
    exact .inl (List.mem_append_right _ hpopped)
  · rw [ordersOf_append]
    exact .inr (by omega)

/-- A step that spawns nothing. -/
theorem of_noSpawn (h : WithinBudget n acc s) (new : List Event)
    (hlog : s'.log = new ++ s.log) (hnew : NoSpawn new)
    (hlive : ∀ p m, s'.pidToName.lookup p = some m →
      s.pidToName.lookup p = some m) (more : List CtlCommand)
    (hused : restartsUsed s' n ≤ maxRestarts)
    (hbooks : promised n s' + restartsUsed s n ≤
      promised n s + restartsUsed s' n + ordersOf n more) :
    WithinBudget n (acc ++ more) s' := by
  have hpopped : s.view.popped.count n ≤ s'.view.popped.count n := by
    rw [view_popped_eq hlog, List.count_append]
    exact Nat.le_add_left _ _
  refine ⟨?_, hused, ?_⟩
  · have hpaid := h.paid
    rw [view_spawned_eq hnew hlog, ordersOf_append]
    omega
  · rw [view_spawned_eq hnew hlog]
    rintro (⟨pid, hpid⟩ | hspawned)
    · exact concerned_mono hlog more (h.concerned (.inl ⟨pid, hlive _ _ hpid⟩))
    · exact concerned_mono hlog more (h.concerned (.inr hspawned))

/-- A new process that has been paid for. Its payment is a pop, a command, a
promise or an automatic restart, and each side of the balance moves by one; a
process of another service leaves the balance of `n` alone. -/
theorem of_spawn (h : WithinBudget n acc s) {cause : Cause} {m : String}
    {pid : Pid} {pre : List Event}
    (hlog : s'.log = .spawned cause m pid :: (pre ++ s.log))
    (hpre : NoSpawn pre)
    (hlive : ∀ p k, s'.pidToName.lookup p = some k →
      (p = pid ∧ k = m) ∨ s.pidToName.lookup p = some k)
    (hpending : s'.pendingRestart ⊆ s.pendingRestart)
    (hpaid : Payment w s s' m pre) :
    WithinBudget n (acc ++ commandTaken w s) s' := by
  have hspawned : s'.view.spawned = m :: s.view.spawned := by
    change s'.log.filterMap Event.spawnedName = _
    rw [hlog]
    change m :: (pre ++ s.log).filterMap Event.spawnedName = _
    rw [spawned_of_noSpawn hpre]
    rfl
  have hlog' : s'.log = (.spawned cause m pid :: pre) ++ s.log := by
    rw [hlog, List.cons_append]
  have hpopped : s'.view.popped =
      pre.filterMap Event.poppedName ++ s.view.popped := by
    rw [view_popped_eq hlog']
    rfl
  have hbefore := h.paid
  have hpromised : promised n s' ≤ promised n s := promised_le hpending
  by_cases hn : m = n
  · subst hn
    refine ⟨?_, ?_, ?_⟩
    · rw [hspawned, hpopped, List.count_cons_self, List.count_append,
        ordersOf_append]
      cases hpaid with
      | launch hin hcounts =>
          have hpos : 0 < (pre.filterMap Event.poppedName).count m :=
            List.count_pos_iff.mpr (List.mem_filterMap.mpr ⟨_, hin, rfl⟩)
          rw [restartsUsed_congr hcounts]
          omega
      | command hcommand hservice hcounts =>
          rw [restartsUsed_congr hcounts, hcommand, ordersOf_singleton,
            if_pos hservice]
          omega
      | promise hold hin hout hcounts =>
          have hone : promised m s = 1 := if_pos hin
          have hzero : promised m s' = 0 := if_neg hout
          rw [restartsUsed_congr hcounts]
          omega
      | restart hold hused hcounts =>
          rw [restartsUsed_entry hcounts, if_pos rfl]
          omega
    · cases hpaid with
      | restart hold hused hcounts =>
          rw [restartsUsed_entry hcounts, if_pos rfl]
          exact hused
      | launch _ hcounts => exact restartsUsed_congr hcounts m ▸ h.used
      | command _ _ hcounts => exact restartsUsed_congr hcounts m ▸ h.used
      | promise _ _ _ hcounts => exact restartsUsed_congr hcounts m ▸ h.used
    · intro _
      cases hpaid with
      | launch hin hcounts =>
          rw [hpopped]
          exact .inl (List.mem_append_left _
            (List.mem_filterMap.mpr ⟨_, hin, rfl⟩))
      | command hcommand hservice hcounts =>
          rw [ordersOf_append, hcommand, ordersOf_singleton, if_pos hservice]
          exact .inr (by omega)
      | promise hold =>
          exact concerned_mono hlog' _ (h.concerned (.inl ⟨_, hold⟩))
      | restart hold =>
          exact concerned_mono hlog' _ (h.concerned (.inl ⟨_, hold⟩))
  · have hcounts : restartsUsed s' n = restartsUsed s n := by
      cases hpaid with
      | restart hold hused hcounts =>
          rw [restartsUsed_entry hcounts, if_neg (Ne.symm hn)]
      | launch _ hcounts => exact restartsUsed_congr hcounts n
      | command _ _ hcounts => exact restartsUsed_congr hcounts n
      | promise _ _ _ hcounts => exact restartsUsed_congr hcounts n
    refine ⟨?_, hcounts ▸ h.used, ?_⟩
    · rw [hspawned, hpopped, List.count_cons_of_ne hn, List.count_append,
        ordersOf_append, hcounts]
      omega
    · rw [hspawned]
      rintro (⟨p, hp⟩ | hin)
      · rcases hlive p n hp with ⟨_, rfl⟩ | hold
        · exact absurd rfl hn
        · exact concerned_mono hlog' _ (h.concerned (.inl ⟨p, hold⟩))
      · rcases List.mem_cons.mp hin with heq | hin
        · exact absurd heq.symm hn
        · exact concerned_mono hlog' _ (h.concerned (.inr hin))

/-- **The ledger balances** after every step. A step that spawns has paid; a
command that is only noted adds to what may be spent; and a restart that fails
has been counted for nothing. -/
theorem next (h : WithinBudget n acc s) (hspend : Spend w s s') :
    WithinBudget n (acc ++ commandTaken w s) s' := by
  cases hspend with
  | nothing new hlog hnew hlive hpending hcounts =>
      have hpromised : promised n s' ≤ promised n s := promised_le hpending
      have hused := h.used
      refine h.of_noSpawn new hlog hnew hlive _ ?_ ?_
      · rw [hcounts]
        exact hused
      · rw [hcounts]
        omega
  | @wasted m hlog hlive hpending hused hcounts =>
      have hpromised : promised n s' ≤ promised n s := promised_le hpending
      have hold := h.used
      refine h.of_noSpawn [] hlog nofun hlive _ ?_ ?_
      · rw [restartsUsed_entry hcounts]
        split
        · exact hused
        · exact hold
      · rw [restartsUsed_entry hcounts]
        split
        · rename_i hn
          subst hn
          omega
        · omega
  | asked hcommand hlog hlive hpending hcounts =>
      refine h.of_noSpawn [] hlog nofun hlive _ ?_ ?_
      · rw [restartsUsed_congr hcounts]
        exact h.used
      · rw [restartsUsed_congr hcounts, hcommand, ordersOf_singleton]
        unfold promised
        by_cases hn : n ∈ s'.pendingRestart
        · rcases Finset.mem_insert.mp (hpending hn) with rfl | hold
          · rw [if_pos hn, if_pos rfl]
            omega
          · rw [if_pos hn, if_pos hold]
            omega
        · rw [if_neg hn]
          omega
  | spawned cause m pid pre hlog hpre hlive hpending hpaid =>
      exact h.of_spawn hlog hpre hlive hpending hpaid

end WithinBudget

end Ledger

/-! ## Runs -/

/-- Counting some of the names counts no entry twice. -/
theorem sum_count_le {α : Type} [DecidableEq α] (names : Finset α) :
    ∀ xs : List α, ∑ n ∈ names, xs.count n ≤ xs.length := by
  intro xs
  induction xs with
  | nil => simp
  | cons x xs ih =>
      have hone : (∑ n ∈ names, if x = n then 1 else 0) ≤ 1 := by
        rw [Finset.sum_ite_eq]
        split <;> omega
      have hcons : ∀ n, (x :: xs).count n =
          xs.count n + if x = n then 1 else 0 := by
        intro n
        rw [List.count_cons]
        simp
      rw [Finset.sum_congr rfl (fun n _ => hcons n), Finset.sum_add_distrib,
        List.length_cons]
      omega

/-- The commands for a service, as often as their list names it. -/
theorem ordersOf_eq_count (n : String) (commands : List CtlCommand) :
    ordersOf n commands = (commands.map CtlCommand.service).count n := by
  unfold ordersOf List.count
  rw [List.countP_map]
  rfl

section Run

variable {orders : BuildOrders} {services : List ServiceDef}
  {g : ServiceGraph}

/-- No run spends more than it has been given. -/
theorem withinBudget_run (cfg : Config)
    (readFile : String → Except String String) (order : IterOrder String)
    (g : ServiceGraph) (services : List ServiceDef) (ws : List World)
    (n : String) :
    WithinBudget n
      (commandsTaken cfg (initial cfg readFile order g services) ws)
      (runWithMarker cfg readFile order g services ws) := by
  have hrun := collect_invariant (WithinBudget n)
    (fun w s acc _ h => h.next (step_cases cfg w s).spend) ws
    (initial cfg readFile order g services) [] (Meets.trivial _ ws)
  refine hrun ⟨Nat.zero_le _, Nat.zero_le _, ?_⟩
  rintro (⟨pid, hpid⟩ | hin)
  · cases hpid
  · exact absurd hin List.not_mem_nil

/-- The launch queue is exact in every run on a built graph. -/
theorem queued_run (hg : ServiceGraph.build orders services = .ok (.ok g))
    (cfg : Config) (readFile : String → Except String String)
    (order : IterOrder String) (ws : List World) :
    Queued (waitNet orders services)
      (runWithMarker cfg readFile order g services ws).view := by
  refine run_invariant
    (fun s : State => Queued (waitNet orders services) s.view)
    (fun w s _ h => ?_) ws _ (Meets.trivial _ ws)
    (initial_queued cfg readFile order hg)
  obtain ⟨t, hmove, _⟩ := step_move cfg w s
  exact h.move hmove

end Run

end FlintInit
