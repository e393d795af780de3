import FlintInit.Bookkeeping

/-!
# Definitions during a run

Which steps touch the table of definitions, the restarts asked for, and the
files: a definition changes only where `Reload` installs the text it has just
read, a file is removed only where the launch loop spawns a service with a
readiness path, and restarts are asked for only by commands.
-/

namespace FlintInit

open Collections

/-- What most places of the loop leave alone. -/
structure Frame (s s' : State) : Prop where
  defs : s'.svcByName = s.svcByName
  pending : s'.pendingRestart ⊆ s.pendingRestart
  removed : s'.removed = s.removed

namespace Frame

/-- What leaves the definitions and the files alone may change everything else.
-/
theorem of_eq {s s' : State} (hdefs : s'.svcByName = s.svcByName)
    (hpending : s'.pendingRestart = s.pendingRestart)
    (hremoved : s'.removed = s.removed) : Frame s s' :=
  ⟨hdefs, hpending ▸ Finset.Subset.refl _, hremoved⟩

/-- Two steps keep what each of them keeps. -/
theorem after {s s' s'' : State} (h' : Frame s' s'') (h : Frame s s') :
    Frame s s'' :=
  ⟨h'.defs.trans h.defs, h'.pending.trans h.pending,
    h'.removed.trans h.removed⟩

/-- Only the definitions, the promised restarts and the files removed matter.
-/
theorem congr {s s' s'' : State} (h : Frame s s')
    (hdefs : s''.svcByName = s'.svcByName)
    (hpending : s''.pendingRestart = s'.pendingRestart)
    (hremoved : s''.removed = s'.removed) : Frame s s'' :=
  (of_eq hdefs hpending hremoved).after h

end Frame

/-- A readiness report is about states and counters. -/
theorem reportReady_frame (s : State) (n : String) :
    Frame s (reportReady s n) := by
  unfold reportReady
  split
  · exact .of_eq rfl rfl rfl
  · exact .of_eq rfl rfl rfl

/-- A spawn is about processes and states. -/
theorem spawnOrReturn_frame (w : World) (s : State) (cause : Cause)
    (n : String) (svc : ServiceDef) :
    Frame s (spawnOrReturn w s cause n svc) := by
  unfold spawnOrReturn
  split
  · exact .of_eq rfl rfl rfl
  · exact .of_eq rfl rfl rfl
  · exact .of_eq rfl rfl rfl

/-- An answer is about its sender. -/
theorem answerRestart_frame (s : State) (n : String)
    (answer : Except ReplyError Unit) :
    Frame s (answerRestart s n answer) := by
  obtain ⟨replies, restartReplies, heq⟩ := answerRestart_eq s n answer
  rw [heq]
  exact .of_eq rfl rfl rfl

/-- A restart that was asked for spawns the definition in force and installs
none. -/
theorem manualRestart_frame (w : World) (s : State) (n : String) :
    Frame s (manualRestart w s n) := by
  unfold manualRestart
  split
  · exact .of_eq rfl rfl rfl
  · split
    · exact .of_eq rfl rfl rfl
    · exact (answerRestart_frame _ n _).after (.of_eq rfl rfl rfl)
    · exact (answerRestart_frame s n _).congr rfl rfl rfl

/-- So does an automatic one. -/
theorem autoRestart_frame (w : World) (s : State) (n : String) :
    Frame s (autoRestart w s n) := by
  unfold autoRestart
  split
  · exact .of_eq rfl rfl rfl
  · exact spawnOrReturn_frame w s _ n _

/-- An end for good is about states and counters. -/
theorem finishService_frame (s : State) (n : String) (ending : Ending) :
    Frame s (finishService s n ending) := by
  obtain ⟨st, new, graph, blocked, reported, toStart, -, -, heq⟩ :=
    finishService_eq s n ending
  rw [heq]
  exact .of_eq rfl rfl rfl

/-- The end of a child installs no definition, whatever follows from it. -/
theorem childEnded_frame (w : World) (s : State) (pid : Pid)
    (ending : Ending) : Frame s (childEnded w s pid ending) := by
  unfold childEnded
  split
  · exact .of_eq rfl rfl rfl
  · dsimp only
    split
    · refine (manualRestart_frame w _ _).after ⟨rfl, ?_, rfl⟩
      exact Finset.erase_subset _ _
    · split
      · exact (autoRestart_frame w _ _).after (.of_eq rfl rfl rfl)
      · exact (finishService_frame _ _ _).after (.of_eq rfl rfl rfl)

/-- Nor does a poll. -/
theorem pollChild_frame (w : World) (s : State) (pid : Pid) :
    Frame s (pollChild w s pid) := by
  unfold pollChild
  split
  · exact childEnded_frame w s pid _
  · exact childEnded_frame w s pid _
  · exact .of_eq rfl rfl rfl
  · exact .of_eq rfl rfl rfl
  · exact .of_eq rfl rfl rfl
  · exact .of_eq rfl rfl rfl
  · exact .of_eq rfl rfl rfl

/-! ## The definitions a run starts with -/

/-- A table filled from a list holds definitions of the list under their names,
besides what it held. -/
private theorem lookup_loaded {n : String} {svc : ServiceDef} :
    ∀ (services : List ServiceDef) (t : Table String ServiceDef),
      (services.foldl (fun t svc => t.insert svc.name svc) t).lookup n =
          some svc →
        (svc ∈ services ∧ svc.name = n) ∨ t.lookup n = some svc := by
  intro services
  induction services with
  | nil => intro t h; exact .inr h
  | cons first services ih =>
      intro t h
      rcases ih _ h with ⟨hmem, hname⟩ | hlook
      · exact .inl ⟨List.mem_cons_of_mem _ hmem, hname⟩
      · rw [lookup_insert_eq] at hlook
        by_cases hn : n = first.name
        · rw [if_pos hn] at hlook
          cases hlook
          exact .inl ⟨List.mem_cons_self, hn.symm⟩
        · rw [if_neg hn] at hlook
          exact .inr hlook

/-- Each name of the list has a definition in the table. -/
private theorem exists_loaded {n : String} :
    ∀ (services : List ServiceDef) (t : Table String ServiceDef),
      (n ∈ services.map ServiceDef.name ∨ ∃ svc, t.lookup n = some svc) →
        ∃ svc, (services.foldl (fun t svc => t.insert svc.name svc)
          t).lookup n = some svc := by
  intro services
  induction services with
  | nil =>
      intro t h
      rcases h with h | h
      · cases h
      · exact h
  | cons first services ih =>
      intro t h
      refine ih _ ?_
      by_cases hn : n = first.name
      · exact .inr ⟨first, by rw [lookup_insert_eq, if_pos hn]⟩
      · rcases h with h | ⟨svc, hsvc⟩
        · rw [List.map_cons, List.mem_cons, or_iff_right hn] at h
          exact .inl h
        · exact .inr ⟨svc, by rw [lookup_insert_eq, if_neg hn, hsvc]⟩

section Initial

variable {cfg : Config} {readFile : String → Except String String}
  {order : IterOrder String} {g : ServiceGraph} {services : List ServiceDef}
  {n : String}

/-- A definition the run starts with is one of those it was given. -/
theorem mem_of_initial_defs {svc : ServiceDef}
    (h : (initial cfg readFile order g services).svcByName.lookup n =
      some svc) : svc ∈ services := by
  rcases lookup_loaded services ∅ h with ⟨hmem, _⟩ | hempty
  · exact hmem
  · cases hempty

/-- It is filed under its own name. -/
theorem name_of_initial_defs {svc : ServiceDef}
    (h : (initial cfg readFile order g services).svcByName.lookup n =
      some svc) : svc.name = n := by
  rcases lookup_loaded services ∅ h with ⟨_, hname⟩ | hempty
  · exact hname
  · cases hempty

/-- Every service of the list has a definition at the start. -/
theorem exists_initial_defs (h : n ∈ services.map ServiceDef.name) :
    ∃ svc, (initial cfg readFile order g services).svcByName.lookup n =
      some svc :=
  exists_loaded services ∅ (.inl h)

end Initial

/-! ## Commands -/

/-- Spawning on demand installs nothing and removes no file. -/
private theorem spawnOnDemand_defs (w : World) (s : State) (n : String)
    (reply : ReplySender) :
    (spawnOnDemand w s n reply).svcByName = s.svcByName ∧
      (spawnOnDemand w s n reply).removed = s.removed := by
  unfold spawnOnDemand
  split
  · exact ⟨rfl, rfl⟩
  · split
    · exact ⟨rfl, rfl⟩
    · exact ⟨rfl, rfl⟩
    · exact ⟨rfl, rfl⟩

/-- Nor does asking for a restart. -/
private theorem requestRestart_defs (w : World) (s : State) (n : String)
    (reply : ReplySender) :
    (requestRestart w s n reply).svcByName = s.svcByName ∧
      (requestRestart w s n reply).removed = s.removed := by
  obtain ⟨kills, heq⟩ := requestRestart_eq w s n reply
  rw [heq]
  exact ⟨rfl, rfl⟩

/-- No command removes a file, and only a reload that finds a changed text
installs a definition. -/
theorem runCommand_defs (cfg : Config) (w : World) (s : State)
    (command : CtlCommand) :
    (runCommand cfg w s command).removed = s.removed ∧
    ((runCommand cfg w s command).svcByName = s.svcByName ∨
      ∃ n reply raw svc, command = .reload n reply ∧
        reread cfg w s n = .changed raw svc ∧
        (runCommand cfg w s command).svcByName =
          s.svcByName.insert n svc) := by
  cases command with
  | start n reply =>
      have hspawn := spawnOnDemand_defs w s n reply
      unfold runCommand startCommand
      dsimp only
      split
      · exact ⟨rfl, .inl rfl⟩
      · exact ⟨rfl, .inl rfl⟩
      · exact ⟨rfl, .inl rfl⟩
      · exact ⟨hspawn.2, .inl hspawn.1⟩
  | restart n reply =>
      have hspawn := spawnOnDemand_defs w s n reply
      have hask := requestRestart_defs w s n reply
      unfold runCommand restartCommand
      dsimp only
      split
      · exact ⟨rfl, .inl rfl⟩
      · exact ⟨hask.2, .inl hask.1⟩
      · exact ⟨hask.2, .inl hask.1⟩
      · exact ⟨hspawn.2, .inl hspawn.1⟩
  | reload n reply =>
      obtain ⟨kills, hkills⟩ := hangUp_eq w s n
      have hang : (hangUp w s n).svcByName = s.svcByName ∧
          (hangUp w s n).removed = s.removed := by
        rw [hkills]
        exact ⟨rfl, rfl⟩
      have hreread : reread cfg w (hangUp w s n) n = reread cfg w s n := by
        rw [hkills]
        rfl
      unfold runCommand reloadCommand
      dsimp only
      rw [hreread]
      cases hre : reread cfg w s n with
      | changed raw svc =>
          dsimp only
          have hdefs : (install (hangUp w s n) n raw svc).svcByName =
              s.svcByName.insert n svc := by
            simp only [install, hang.1]
          have hremoved : (install (hangUp w s n) n raw svc).removed =
              s.removed := hang.2
          split
          · have hask := requestRestart_defs w
              (install (hangUp w s n) n raw svc) n reply
            exact ⟨hask.2.trans hremoved, .inr ⟨n, reply, raw, svc, rfl, hre,
              hask.1.trans hdefs⟩⟩
          · have hspawn := spawnOnDemand_defs w
              (install (hangUp w s n) n raw svc) n reply
            exact ⟨hspawn.2.trans hremoved, .inr ⟨n, reply, raw, svc, rfl,
              hre, hspawn.1.trans hdefs⟩⟩
      | _ => exact ⟨hang.2, .inl hang.1⟩

/-! ## Launching -/

/-- The launch loop removes the readiness file of the service it spawns. The
path is that of the definition in force, and no definition is changed by it. -/
theorem launchService_defs (w : World) (s : State) (n : String) :
    (launchService w s n).svcByName = s.svcByName ∧
    (launchService w s n).pendingRestart = s.pendingRestart ∧
    ((launchService w s n).removed = s.removed ∨
      ∃ svc path, n ∉ s.blockedServices ∧ s.svcByName.lookup n = some svc ∧
        svc.readyPath = some path ∧
        (launchService w s n).removed = path :: s.removed) := by
  rcases launchService_cases w s n with
    ⟨_, hlaunch⟩ | ⟨_, _, hlaunch⟩ | ⟨svc, hb, hdef, hlaunch⟩
  · rw [hlaunch]
    exact ⟨rfl, rfl, .inl rfl⟩
  · rw [hlaunch]
    exact ⟨rfl, rfl, .inl rfl⟩
  · have hspawn : ∀ s' : State,
        (spawnOrReturn w s' .launch n svc).svcByName = s'.svcByName ∧
        (spawnOrReturn w s' .launch n svc).pendingRestart =
          s'.pendingRestart ∧
        (spawnOrReturn w s' .launch n svc).removed = s'.removed := by
      intro s'
      unfold spawnOrReturn
      split <;> exact ⟨rfl, rfl, rfl⟩
    obtain ⟨hdefs, hpending, hremoved⟩ :=
      hspawn (removeStale (s.note (.popped n)) svc)
    rw [hlaunch, hdefs, hpending, hremoved]
    unfold removeStale
    cases hpath : svc.readyPath with
    | none => exact ⟨rfl, rfl, .inl rfl⟩
    | some path =>
        exact ⟨rfl, rfl, .inr ⟨svc, path, hb, hdef, hpath, rfl⟩⟩

/-! ## One step -/

/-- Outside of commands and of the launch loop nothing here changes, but for
restarts that are carried out. -/
theorem step_frame {cfg : Config} {w : World} {s : State}
    (hcommands : s.phase = .commands → w.command = none)
    (hlaunch : s.phase = .launch → s.toStart = []) :
    Frame s (step cfg w s) := by
  cases hphase : s.phase with
  | commands =>
      simp only [step, hphase, hcommands hphase]
      exact .of_eq rfl rfl rfl
  | launch =>
      simp only [step, hphase, pop_eq_none.mpr (hlaunch hphase)]
      exact .of_eq rfl rfl rfl
  | readiness =>
      simp only [step, hphase]
      split
      · exact .of_eq rfl rfl rfl
      · exact reportReady_frame s _
  | wait =>
      simp only [step, hphase]
      split
      · exact .of_eq rfl rfl rfl
      · exact (reportReady_frame s _).congr rfl rfl rfl
  | poll pids =>
      cases pids with
      | nil =>
          simp only [step, hphase]
          exact .of_eq rfl rfl rfl
      | cons pid rest =>
          simp only [step, hphase]
          exact (pollChild_frame w _ pid).after (.of_eq rfl rfl rfl)
  | _ =>
      simp only [step, hphase]
      exact .of_eq rfl rfl rfl

/-- **Where definitions come from.**  A step that changes the table of
definitions is a reload that has read a changed text. -/
theorem step_defs (cfg : Config) (w : World) (s : State) :
    (step cfg w s).svcByName = s.svcByName ∨
      ∃ n reply raw svc, s.phase = .commands ∧
        w.command = some (.reload n reply) ∧
        reread cfg w s n = .changed raw svc ∧
        (step cfg w s).svcByName = s.svcByName.insert n svc := by
  by_cases hphase : s.phase = .commands
  · cases hcommand : w.command with
    | none => exact .inl (by simp only [step, hphase, hcommand])
    | some command =>
        have hstep : step cfg w s = runCommand cfg w s command := by
          simp only [step, hphase, hcommand]
        rw [hstep]
        rcases (runCommand_defs cfg w s command).2 with
          hsame | ⟨n, reply, raw, svc, rfl, hre, hdefs⟩
        · exact .inl hsame
        · exact .inr ⟨n, reply, raw, svc, hphase, rfl, hre, hdefs⟩
  · refine .inl ?_
    by_cases hlaunch : s.phase = .launch
    · cases hpop : pop s.toStart with
      | none => simp only [step, hlaunch, hpop]
      | some taken =>
          have hstep : step cfg w s =
              launchService w { s with toStart := taken.2 } taken.1 := by
            simp only [step, hlaunch, hpop]
          rw [hstep]
          exact (launchService_defs w _ taken.1).1
    · exact (step_frame (fun h => absurd h hphase)
        (fun h => absurd h hlaunch)).defs

/-- **What is removed.**  A step that removes a file is the launch of a
service whose definition names it. -/
theorem step_removed (cfg : Config) (w : World) (s : State) :
    (step cfg w s).removed = s.removed ∨
      ∃ n svc path, nextPop s = some n ∧
        s.svcByName.lookup n = some svc ∧ svc.readyPath = some path ∧
        (step cfg w s).removed = path :: s.removed := by
  by_cases hlaunch : s.phase = .launch
  · cases hpop : pop s.toStart with
    | none => exact .inl (by simp only [step, hlaunch, hpop])
    | some taken =>
        have hstep : step cfg w s =
            launchService w { s with toStart := taken.2 } taken.1 := by
          simp only [step, hlaunch, hpop]
        rw [hstep]
        rcases (launchService_defs w { s with toStart := taken.2 }
          taken.1).2.2 with hsame | ⟨svc, path, _, hdef, hpath, hremoved⟩
        · exact .inl hsame
        · refine .inr ⟨taken.1, svc, path, ?_, hdef, hpath, hremoved⟩
          simp [nextPop, hlaunch, hpop]
  · refine .inl ?_
    by_cases hphase : s.phase = .commands
    · cases hcommand : w.command with
      | none => simp only [step, hphase, hcommand]
      | some command =>
          have hstep : step cfg w s = runCommand cfg w s command := by
            simp only [step, hphase, hcommand]
          rw [hstep]
          exact (runCommand_defs cfg w s command).1
    · exact (step_frame (fun h => absurd h hphase)
        (fun h => absurd h hlaunch)).removed

/-- Without a command no restart is asked for. -/
theorem step_pending (cfg : Config) {w : World} (s : State)
    (hcommand : s.phase = .commands → w.command = none) :
    (step cfg w s).pendingRestart ⊆ s.pendingRestart := by
  by_cases hlaunch : s.phase = .launch
  · cases hpop : pop s.toStart with
    | none =>
        simp only [step, hlaunch, hpop]
        exact Finset.Subset.refl _
    | some taken =>
        have hstep : step cfg w s =
            launchService w { s with toStart := taken.2 } taken.1 := by
          simp only [step, hlaunch, hpop]
        rw [hstep, (launchService_defs w _ taken.1).2.1]
  · exact (step_frame hcommand (fun h => absurd h hlaunch)).pending

end FlintInit
