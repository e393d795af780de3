import FlintInit.CommandErrors
import FlintInit.Reload

/-!
# Refused reloads

A reload is refused when the file cannot be read, when it does not parse, and
when the new definition cannot be spawned.  The first two change nothing, and
as long as the file stays as it is they are repeated by every later reload.
The third comes after the new text and definition have been stored: nothing
takes them back, and the next reload finds the file unchanged and answers
`Ok`.
-/

namespace FlintInit

open Collections Runs

/-- Nothing that is kept about the services has changed. -/
structure SameTables (s s' : State) : Prop where
  defs : s'.svcByName = s.svcByName
  raw : s'.serviceRaw = s.serviceRaw
  states : s'.serviceStates = s.serviceStates
  pids : s'.pidToName = s.pidToName
  pending : s'.pendingRestart = s.pendingRestart
  shared : s'.shared = s.shared

/-- The step answers on `reply`. -/
def Answers (cfg : Config) (w : World) (s : State) (reply : ReplySender)
    (answer : Except ReplyError Unit) : Prop :=
  (step cfg w s).replies = (reply, answer) :: s.replies

/-- The file of the service reads the same in both worlds. -/
def SameFile (cfg : Config) (n : String) (w w' : World) : Prop :=
  ∀ dir ∈ cfg.serviceDir, w'.readFile (join dir (n ++ ".toml")) =
    w.readFile (join dir (n ++ ".toml"))

/-- From `s` on a reload is refused with `e`, as long as the file of the
service reads as it does in `w`. -/
def RefusedAgain (cfg : Config) (w : World) (s : State) (n : String)
    (e : ReplyError) : Prop :=
  ∀ ws w' reply, (∀ v ∈ ws, SameFile cfg n w v) → SameFile cfg n w w' →
    (run (step cfg) s ws).phase = .commands →
    w'.command = some (.reload n reply) →
    Answers cfg w' (run (step cfg) s ws) reply (.error e)

/-- A reload that this step refuses changes nothing, and is refused again. -/
def RefusalKeeps (cfg : Config) (w : World) (s : State) : Prop :=
  ∀ n reply e, s.phase = .commands → w.command = some (.reload n reply) →
    Answers cfg w s reply (.error e) →
    SameTables s (step cfg w s) ∧ RefusedAgain cfg w (step cfg w s) n e

/-- `spawn_service` refuses the definition, or cannot fork. -/
def Unspawnable (w : World) (s : State) (svc : ServiceDef) : Prop :=
  rejected w svc = true ∨ ((∃ argv, buildExecArgs svc = .ok argv) ∧
    ∃ errno, w.fork s.pidToName.keys = .error errno)

/-- The step reloads a service without a process from a changed text, whose
definition cannot be spawned. -/
def InstallsUnspawnable (cfg : Config) (w : World) (s : State) : Prop :=
  ∃ n reply raw svc, s.phase = .commands ∧
    w.command = some (.reload n reply) ∧
    reread cfg w s n = .changed raw svc ∧ s.findPid w n = none ∧
    Unspawnable w s svc

/-- Forking fails when the kernel says so. -/
theorem forkChild_error_iff {w : World} {children : List Pid} :
    (∃ e, forkChild w children = .error e) ↔
      ∃ errno, w.fork children = .error errno := by
  unfold forkChild
  cases w.fork children <;> simp

/-- What cannot be spawned is what has no usable program, no user, or no child
forked for it. -/
theorem spawnService_error_iff_unspawnable {w : World} {s : State}
    {svc : ServiceDef} :
    (∃ e, spawnService w s.pidToName.keys svc = .error e) ↔
      Unspawnable w s svc := by
  have hfork := @forkChild_error_iff w s.pidToName.keys
  unfold spawnService Unspawnable rejected
  cases buildExecArgs svc with
  | error e => simp
  | panicked => simp
  | ok args =>
      cases svc.service.user with
      | none => simp [hfork]
      | some user =>
          dsimp only
          cases w.fromName user with
          | error e => simp
          | ok ids => cases ids <;> simp [hfork]

/-! ## Answers before anything is stored -/

/-- How a reload is answered for what it reads. -/
def Reread.answer : Reread → Option (Except ReplyError Unit)
  | .noDir => some (.ok ())
  | .unreadable path e => some (.error (.cannotRead path e))
  | .unchanged => some (.ok ())
  | .unparsable e => some (.error (.parseError e))
  | .changed _ _ => none

section Reload

variable {cfg : Config} {w : World} {s : State} {n : String}
  {reply : ReplySender}

/-- An answer to what is read changes nothing. -/
theorem step_answer {answer : Except ReplyError Unit}
    (hphase : s.phase = .commands)
    (hcommand : w.command = some (.reload n reply))
    (hread : (reread cfg w s n).answer = some answer) :
    Answers cfg w s reply answer ∧ SameTables s (step cfg w s) := by
  obtain ⟨kills, hkills⟩ := hangUp_eq w s n
  have hsame : reread cfg w { s with kills := kills } n =
      reread cfg w s n := rfl
  unfold Answers
  rw [step_reload hphase hcommand, reloadCommand]
  dsimp only
  rw [hkills, hsame]
  cases hre : reread cfg w s n with
  | changed raw svc =>
      rw [hre] at hread
      cases hread
  | _ =>
      rw [hre] at hread
      cases hread
      exact ⟨rfl, ⟨rfl, rfl, rfl, rfl, rfl, rfl⟩⟩

/-- Two reloads that see the same text, old and new, read the same. -/
theorem reread_congr {w' : World} {s' : State} (hfile : SameFile cfg n w w')
    (hraw : s'.serviceRaw.lookup n = s.serviceRaw.lookup n) :
    reread cfg w' s' n = reread cfg w s n := by
  unfold reread
  cases hdir : cfg.serviceDir with
  | none => rfl
  | some dir =>
      dsimp only
      rw [hfile dir hdir, hraw]

/-! ## The texts kept for comparison -/

/-- Spawning on demand leaves the texts read as they are. -/
private theorem spawnOnDemand_raw (w : World) (s : State) (n : String)
    (reply : ReplySender) :
    (spawnOnDemand w s n reply).serviceRaw = s.serviceRaw := by
  unfold spawnOnDemand
  split
  · rfl
  · split <;> rfl

/-- So does every other spawn. -/
private theorem spawnOrReturn_raw (w : World) (s : State) (cause : Cause)
    (n : String) (svc : ServiceDef) :
    (spawnOrReturn w s cause n svc).serviceRaw = s.serviceRaw := by
  unfold spawnOrReturn
  split <;> rfl

/-- So does an answer. -/
private theorem answerRestart_raw (s : State) (n : String)
    (answer : Except ReplyError Unit) :
    (answerRestart s n answer).serviceRaw = s.serviceRaw := by
  obtain ⟨replies, restartReplies, heq⟩ := answerRestart_eq s n answer
  rw [heq]

/-- So does the launch loop. -/
private theorem launchService_raw (w : World) (s : State) (n : String) :
    (launchService w s n).serviceRaw = s.serviceRaw := by
  rcases launchService_cases w s n with
    ⟨_, heq⟩ | ⟨_, _, heq⟩ | ⟨svc, _, _, heq⟩
  · rw [heq]
    rfl
  · rw [heq]
    rfl
  · obtain ⟨removed, hstale⟩ := removeStale_eq (s.note (.popped n)) svc
    rw [heq, spawnOrReturn_raw, hstale]
    rfl

/-- So does a restart that was asked for. -/
private theorem manualRestart_raw (w : World) (s : State) (n : String) :
    (manualRestart w s n).serviceRaw = s.serviceRaw := by
  unfold manualRestart
  split
  · rfl
  · split
    · rfl
    · rw [answerRestart_raw]
      rfl
    · change (answerRestart s n _).serviceRaw = s.serviceRaw
      rw [answerRestart_raw]

/-- And so does an automatic one. -/
private theorem autoRestart_raw (w : World) (s : State) (n : String) :
    (autoRestart w s n).serviceRaw = s.serviceRaw := by
  unfold autoRestart
  split
  · rfl
  · rw [spawnOrReturn_raw]

/-- A text is stored only where a reload finds it changed. Other commands and
other steps leave the stored texts alone, and a reload stores the text of its
own service. -/
theorem step_raw (cfg : Config) (w : World) (s : State) (n : String) :
    (step cfg w s).serviceRaw.lookup n = s.serviceRaw.lookup n ∨
      ∃ raw svc, reread cfg w s n = .changed raw svc := by
  have hprepared : ∀ {command base}, Prepared cfg w s command base →
      base.serviceRaw.lookup n = s.serviceRaw.lookup n ∨
        ∃ raw svc, reread cfg w s n = .changed raw svc := by
    intro command base hbase
    cases hbase with
    | plain => exact .inl rfl
    | @reloaded m reply kills raw svc hread =>
        by_cases hn : n = m
        · subst hn
          exact .inr ⟨raw, svc, hread⟩
        · refine .inl ?_
          change (s.serviceRaw.insert m raw).lookup n = _
          rw [lookup_insert_eq, if_neg hn]
  have hcase := step_cases cfg w s
  generalize step cfg w s = s' at hcase ⊢
  cases hcase with
  | @command command hphase hcommand =>
      have hrun := runCommand_cases cfg w s command
      generalize runCommand cfg w s command = s' at hrun ⊢
      cases hrun with
      | answered => exact .inl rfl
      | @asked base hbase hask =>
          obtain ⟨kills, heq⟩ :=
            requestRestart_eq w base command.service command.reply
          have hraw := hprepared hbase
          rw [heq]
          exact hraw
      | @demanded base hbase hidle =>
          rw [spawnOnDemand_raw]
          exact hprepared hbase
  | @ready m phase hm hdead =>
      refine .inl ?_
      unfold reportReady
      split <;> rfl
  | pop => exact .inl (by rw [launchService_raw])
  | manual => exact .inl (by rw [manualRestart_raw]; rfl)
  | auto => exact .inl (by rw [autoRestart_raw]; rfl)
  | @finish pid rest m ending =>
      obtain ⟨st, new, graph, blocked, reported, toStart, -, -, heq⟩ :=
        finishService_eq { s.reapChild pid rest with
          restartCounts := entry s.restartCounts m 0 id } m ending
      refine .inl ?_
      rw [heq]
      rfl
  | _ => exact .inl rfl

/-- While the file reads the same and is not found changed, the text it is
compared with stays. -/
theorem run_raw (hunchanged : ∀ raw svc, reread cfg w s n ≠ .changed raw svc) :
    ∀ (ws : List World) (s' : State), (∀ v ∈ ws, SameFile cfg n w v) →
      s'.serviceRaw.lookup n = s.serviceRaw.lookup n →
      (run (step cfg) s' ws).serviceRaw.lookup n =
        s.serviceRaw.lookup n := by
  intro ws
  induction ws with
  | nil => intro s' _ hraw; exact hraw
  | cons v ws ih =>
      intro s' hfile hraw
      have hv := hfile v List.mem_cons_self
      apply ih _ (fun v' hv' => hfile v' (List.mem_cons_of_mem _ hv'))
      rcases step_raw cfg v s' n with hsame | ⟨raw, svc, hread⟩
      · exact hsame.trans hraw
      · rw [reread_congr hv hraw] at hread
        exact absurd hread (hunchanged raw svc)

/-- **A refusal of what is read** changes nothing and is repeated. -/
theorem refusal_keeps {e : ReplyError} (hphase : s.phase = .commands)
    (hcommand : w.command = some (.reload n reply))
    (hread : (reread cfg w s n).answer = some (.error e)) :
    SameTables s (step cfg w s) ∧
      RefusedAgain cfg w (step cfg w s) n e := by
  have hsame := (step_answer hphase hcommand hread).2
  have hunchanged : ∀ raw svc, reread cfg w s n ≠ .changed raw svc := by
    intro raw svc hchanged
    rw [hchanged] at hread
    cases hread
  refine ⟨hsame, fun ws w' reply' hws hw' hphase' hcommand' => ?_⟩
  have hraw := run_raw hunchanged ws (step cfg w s) hws (by rw [hsame.raw])
  refine (step_answer hphase' hcommand' ?_).1
  rw [reread_congr hw' hraw, hread]

/-! ## Refusals after the text is stored -/

/-- A changed text is not the one it is compared with. The comparison is of the
trimmed texts, so texts that are the same are never changed. -/
theorem lookup_ne_of_changed {raw : String} {svc : ServiceDef}
    (h : reread cfg w s n = .changed raw svc) :
    s.serviceRaw.lookup n ≠ some raw := by
  intro hraw
  unfold reread at h
  cases hdir : cfg.serviceDir with
  | none =>
      rw [hdir] at h
      cases h
  | some dir =>
      rw [hdir] at h
      dsimp only at h
      cases hfile : w.readFile (join dir (n ++ ".toml")) with
      | error e =>
          rw [hfile] at h
          cases h
      | ok newRaw =>
          rw [hfile, hraw] at h
          dsimp only [Option.getD_some] at h
          by_cases hnew : trim newRaw = trim raw
          · rw [if_pos hnew] at h
            cases h
          · rw [if_neg hnew] at h
            cases hparse : cfg.fromStr newRaw with
            | error e =>
                rw [hparse] at h
                cases h
            | ok svc' =>
                rw [hparse] at h
                cases h
                exact hnew rfl

/-- A service without a process is spawned from what has been stored. If the
spawn returns, its result is the answer to the sender; the definition stays
installed whatever it is. -/
theorem step_changed_idle {raw : String} {svc : ServiceDef}
    (hphase : s.phase = .commands)
    (hcommand : w.command = some (.reload n reply))
    (hread : reread cfg w s n = .changed raw svc)
    (hidle : s.findPid w n = none) :
    ∃ kills, step cfg w s =
      match spawnService w s.pidToName.keys svc with
      | .panicked =>
          { install { s with kills := kills } n raw svc with
            phase := .panicked }
      | .error e =>
          (install { s with kills := kills } n raw svc).send reply
            (.error (.spawnFailed e))
      | .ok pid =>
          ((install { s with kills := kills } n raw svc).track .command n
            pid).send reply (.ok ()) := by
  obtain ⟨kills, hkills⟩ := hangUp_eq w s n
  have hsame : reread cfg w { s with kills := kills } n = .changed raw svc :=
    hread
  have hfind : (install { s with kills := kills } n raw svc).findPid w n =
      none := hidle
  have hstored : (install { s with kills := kills } n raw
      svc).svcByName.lookup n = some svc := by
    change (s.svcByName.insert n svc).lookup n = some svc
    rw [lookup_insert_eq, if_pos rfl]
  refine ⟨kills, ?_⟩
  rw [step_reload hphase hcommand, reloadCommand]
  dsimp only
  rw [hkills, hsame]
  dsimp only
  rw [hfind]
  dsimp only
  rw [spawnOnDemand, hstored]
  rfl

/-- The definition is stored although it is refused. -/
theorem step_unspawnable {raw : String} {svc : ServiceDef}
    (hphase : s.phase = .commands)
    (hcommand : w.command = some (.reload n reply))
    (hread : reread cfg w s n = .changed raw svc)
    (hidle : s.findPid w n = none) (hspawn : Unspawnable w s svc) :
    ∃ e, Answers cfg w s reply (.error (.spawnFailed e)) ∧
      (step cfg w s).serviceRaw.lookup n = some raw := by
  obtain ⟨e, he⟩ := spawnService_error_iff_unspawnable.mpr hspawn
  obtain ⟨kills, hstep⟩ := step_changed_idle hphase hcommand hread hidle
  rw [he] at hstep
  refine ⟨e, ?_, ?_⟩
  · rw [Answers, hstep]
    rfl
  · rw [hstep]
    change (s.serviceRaw.insert n raw).lookup n = some raw
    rw [lookup_insert_eq, if_pos rfl]

/-- A reload that stores a definition is refused only if it cannot be
spawned. -/
theorem unspawnable_of_refused {raw : String} {svc : ServiceDef}
    {e : ReplyError} (hphase : s.phase = .commands)
    (hcommand : w.command = some (.reload n reply))
    (hread : reread cfg w s n = .changed raw svc)
    (hanswer : Answers cfg w s reply (.error e)) :
    s.findPid w n = none ∧ Unspawnable w s svc := by
  unfold Answers at hanswer
  cases hpid : s.findPid w n with
  | some pid =>
      obtain ⟨kills, hkills⟩ := hangUp_eq w s n
      have hsame : reread cfg w { s with kills := kills } n =
          .changed raw svc := hread
      have hfind : (install { s with kills := kills } n raw svc).findPid w n =
          some pid := hpid
      obtain ⟨kills', hask⟩ := requestRestart_eq w
        (install { s with kills := kills } n raw svc) n reply
      rw [step_reload hphase hcommand, reloadCommand] at hanswer
      dsimp only at hanswer
      rw [hkills, hsame] at hanswer
      dsimp only at hanswer
      rw [hfind] at hanswer
      dsimp only at hanswer
      rw [hask] at hanswer
      exact absurd hanswer.symm (List.cons_ne_self _ _)
  | none =>
      refine ⟨rfl, ?_⟩
      obtain ⟨kills, hstep⟩ := step_changed_idle hphase hcommand hread hpid
      rw [← spawnService_error_iff_unspawnable]
      rw [hstep] at hanswer
      cases hspawn : spawnService w s.pidToName.keys svc with
      | panicked =>
          rw [hspawn] at hanswer
          exact absurd hanswer.symm (List.cons_ne_self _ _)
      | error e' => exact ⟨e', rfl⟩
      | ok pid =>
          rw [hspawn] at hanswer
          have hhead := (List.cons.inj hanswer).1
          cases hhead

end Reload

/-- **One refused reload** keeps what it is to keep exactly when it has not
stored a definition that cannot be spawned. -/
theorem refusalKeeps_iff {cfg : Config} {w : World} {s : State} :
    RefusalKeeps cfg w s ↔ ¬ InstallsUnspawnable cfg w s := by
  constructor
  · rintro hkeeps ⟨n, reply, raw, svc, hphase, hcommand, hread, hidle, hspawn⟩
    obtain ⟨e, hanswer, hraw⟩ :=
      step_unspawnable hphase hcommand hread hidle hspawn
    obtain ⟨hsame, -⟩ := hkeeps n reply _ hphase hcommand hanswer
    rw [hsame.raw] at hraw
    exact lookup_ne_of_changed hread hraw
  · intro hno n reply e hphase hcommand hanswer
    cases hread : (reread cfg w s n).answer with
    | some answer =>
        obtain ⟨hfirst, -⟩ := step_answer hphase hcommand hread
        have hhead := (List.cons.inj (hfirst.symm.trans hanswer)).1
        cases hhead
        exact refusal_keeps hphase hcommand hread
    | none =>
        cases hre : reread cfg w s n with
        | changed raw svc =>
            obtain ⟨hidle, hspawn⟩ :=
              unspawnable_of_refused hphase hcommand hre hanswer
            exact absurd
              ⟨n, reply, raw, svc, hphase, hcommand, hre, hidle, hspawn⟩ hno
        | _ =>
            rw [hre] at hread
            cases hread

/-- **Refused reloads in a run.**  Every reload that is refused at once leaves
all tables as they were and is refused again while the file stays the same,
exactly when no reload stores a definition that cannot be spawned. -/
theorem refused_reloads_change_nothing_iff (cfg : Config)
    (readFile : String → Except String String) (order : IterOrder String)
    (g : ServiceGraph) (services : List ServiceDef) (ws : List World) :
    EveryStep (RefusalKeeps cfg) cfg readFile order g services ws ↔
      EveryStep (fun w s => ¬ InstallsUnspawnable cfg w s) cfg readFile order
        g services ws :=
  ⟨Meets.mono (fun _ _ => refusalKeeps_iff.mp) ws _,
    Meets.mono (fun _ _ => refusalKeeps_iff.mpr) ws _⟩

/-- A reload of `web`, whose file has a new text. -/
def reloadWeb (reply : ReplySender) : World :=
  { World.idle with
    command := some (.reload "web" reply)
    readFile := fun _ => .ok "[service]" }

/-- `web` is reloaded twice from a definition without a program.  The first
reload is refused and its definition is kept; the second one finds the file
unchanged and answers `Ok`, and nothing runs. -/
theorem refused_reload_accepted_next :
    ∃ g, ServiceGraph.build .asStored [makeService "web" [] []] =
        .ok (.ok g) ∧
      let after (ws : List World) : State :=
        runWithMarker (readsAs webWithoutExec) (fun _ => .error "")
          (.asStored _) g [makeService "web" [] []] ws
      (after [.idle]).svcByName.lookup "web" =
          some (makeService "web" [] []) ∧
        (after [.idle, reloadWeb 0]).replies =
          [(0, .error (.spawnFailed (.emptyExec "web")))] ∧
        (after [.idle, reloadWeb 0]).svcByName.lookup "web" =
          some webWithoutExec ∧
        (after [.idle, reloadWeb 0, reloadWeb 1]).replies =
          [(1, .ok ()), (0, .error (.spawnFailed (.emptyExec "web")))] ∧
        (after [.idle, reloadWeb 0, reloadWeb 1]).pidToName.keys = [] :=
  ⟨_, rfl, by decide +kernel⟩

end FlintInit
