import FlintInit.Boot
import FlintInit.Steps

/-!
# Reloading and booting

`Reload` and `main` read a service file by two pipelines of their own: a boot
takes trailing NULs off, parses and expands `%U`, a reload only parses.
`reload_as_boot_iff` says for which contents the reload installs what a boot
would have loaded.  What is installed stays in force, and is what every later
process of the service runs, until the service is reloaded again.
-/

namespace FlintInit

open Collections Runs

/-- The definition a boot makes of the content of a service file. -/
def bootDefn (fromStr : String → Except String ServiceDef)
    (flintCfg : FlintConfig) (dir filename raw : String) :
    Option ServiceDef :=
  match parseToml fromStr (fun _ => .ok raw) dir filename with
  | .error _ => none
  | .ok defn => (flintCfg.applyTo [defn]).head?

/-- The step may take a reload of the service. -/
def Reloads (n : String) (w : World) : Prop :=
  ∃ reply, w.command = some (.reload n reply)

/-- Every process that the step spawns for the service runs `d`. -/
def SpawnsAs (cfg : Config) (w : World) (s : State) (n : String)
    (d : ServiceDef) : Prop :=
  ∃ new, (step cfg w s).log = new ++ s.log ∧
    ∀ cause pid, .spawned cause n pid ∈ new →
      ∃ children, spawnService w children d = .ok pid

/-- The reload of `n` in this step does with the definition `d` what it is
meant to do with the content it reads. -/
structure ReloadsAs (cfg : Config) (w : World) (s : State) (n : String)
    (reply : ReplySender) (d : ServiceDef) : Prop where
  noParseError : ∀ e, (step cfg w s).replies ≠
    (reply, .error (.parseError e)) :: s.replies
  installed : (step cfg w s).svcByName.lookup n = some d
  /-- A restart is asked for, or the service is spawned at once. -/
  respawned : n ∈ (step cfg w s).pendingRestart ∨
    ∃ base : State, base.svcByName.lookup n = some d ∧
      step cfg w s = spawnOnDemand w base n reply
  now : SpawnsAs cfg w s n d
  /-- Nothing but another reload of the service changes that. -/
  later : ∀ ws : List World, (∀ w' ∈ ws, ¬ Reloads n w') →
    let s' := run (step cfg) (step cfg w s) ws
    s'.svcByName.lookup n = some d ∧
      ∀ w', ¬ Reloads n w' → SpawnsAs cfg w' s' n d

/-! ## What is installed stays -/

section Stays

variable {cfg : Config} {n : String} {d : ServiceDef}

/-- A step that is no reload of the service leaves its definition in force. -/
theorem step_installed {w : World} {s : State} (hw : ¬ Reloads n w)
    (h : s.svcByName.lookup n = some d) :
    (step cfg w s).svcByName.lookup n = some d := by
  rcases step_defs cfg w s with
    hsame | ⟨m, reply, raw, svc, hphase, hcommand, hread, hdefs⟩
  · rw [hsame]
    exact h
  · have hne : n ≠ m := fun heq => hw ⟨reply, heq ▸ hcommand⟩
    rw [hdefs, lookup_insert_eq, if_neg hne]
    exact h

/-- Until it is reloaded again, a service keeps its definition. -/
theorem run_installed (cfg : Config) {ws : List World}
    (hws : ∀ w ∈ ws, ¬ Reloads n w) :
    ∀ s : State, s.svcByName.lookup n = some d →
      (run (step cfg) s ws).svcByName.lookup n = some d := by
  induction ws with
  | nil => intro s h; exact h
  | cons w rest ih =>
      intro s h
      apply ih (fun w' hw' => hws w' (List.mem_cons_of_mem _ hw'))
      exact step_installed (hws w List.mem_cons_self) h

/-- A step that leaves `d` in force spawns nothing else. -/
theorem spawnsAs_of_installed {w : World} {s : State}
    (h : (step cfg w s).svcByName.lookup n = some d) :
    SpawnsAs cfg w s n d := by
  obtain ⟨new, hlog, hspawns⟩ := step_spawns cfg w s
  refine ⟨new, hlog, ?_⟩
  intro cause pid hin
  obtain ⟨-, svc, children, hsvc, hspawn⟩ := hspawns cause n pid hin
  cases hsvc.symm.trans h
  exact ⟨children, hspawn⟩

end Stays

/-! ## One reload -/

section Reload

variable {cfg : Config} {w : World} {s : State} {n : String}
  {reply : ReplySender}

/-- A reload is taken from the queue in the phase of commands. -/
theorem step_reload (hphase : s.phase = .commands)
    (hcommand : w.command = some (.reload n reply)) :
    step cfg w s = reloadCommand cfg w s n reply := by
  simp only [step, hphase, hcommand, runCommand]

/-- A reload that finds a text that does not parse. -/
theorem step_unparsable {e : String} (hphase : s.phase = .commands)
    (hcommand : w.command = some (.reload n reply))
    (hread : reread cfg w s n = .unparsable e) :
    (step cfg w s).replies =
      (reply, .error (.parseError e)) :: s.replies := by
  obtain ⟨kills, hkills⟩ := hangUp_eq w s n
  have hsame : reread cfg w { s with kills := kills } n = .unparsable e :=
    hread
  rw [step_reload hphase hcommand, reloadCommand]
  dsimp only
  rw [hkills, hsame]
  rfl

/-- A restart is promised without an answer, and installs nothing. -/
private theorem requestRestart_reply (w : World) (s : State) (n : String)
    (reply : ReplySender) :
    (requestRestart w s n reply).replies = s.replies ∧
      (requestRestart w s n reply).svcByName = s.svcByName ∧
      n ∈ (requestRestart w s n reply).pendingRestart := by
  obtain ⟨kills, heq⟩ := requestRestart_eq w s n reply
  rw [heq]
  exact ⟨rfl, rfl, Finset.mem_insert_self n s.pendingRestart⟩

/-- Spawning on demand never answers with a parse error, and installs nothing.
-/
private theorem spawnOnDemand_reply (w : World) (s : State) (n : String)
    (reply : ReplySender) (e : String) :
    (spawnOnDemand w s n reply).replies ≠
      (reply, .error (.parseError e)) :: s.replies ∧
      (spawnOnDemand w s n reply).svcByName = s.svcByName := by
  unfold spawnOnDemand
  split
  · exact ⟨by simp [State.send], rfl⟩
  · split
    · exact ⟨fun h => (List.cons_ne_self _ _ h.symm).elim, rfl⟩
    · exact ⟨by simp [State.send], rfl⟩
    · exact ⟨by simp [State.send, State.track, State.setState, State.note],
        rfl⟩

/-- A reload that finds a changed text installs what it has parsed, and then
restarts the service or spawns it. -/
theorem step_changed {raw : String} {svc : ServiceDef}
    (hphase : s.phase = .commands)
    (hcommand : w.command = some (.reload n reply))
    (hread : reread cfg w s n = .changed raw svc) :
    ∃ base : State, base.svcByName.lookup n = some svc ∧
      base.replies = s.replies ∧
      (step cfg w s = requestRestart w base n reply ∨
        step cfg w s = spawnOnDemand w base n reply) := by
  obtain ⟨kills, hkills⟩ := hangUp_eq w s n
  have hsame : reread cfg w { s with kills := kills } n =
      .changed raw svc := hread
  have hstep : step cfg w s = reloadCommand cfg w s n reply :=
    step_reload hphase hcommand
  refine ⟨install { s with kills := kills } n raw svc, ?_, rfl, ?_⟩
  · change (s.svcByName.insert n svc).lookup n = some svc
    rw [lookup_insert_eq, if_pos rfl]
  · cases hpid : (install { s with kills := kills } n raw svc).findPid w n with
    | some pid =>
        apply Or.inl
        simp only [hstep, reloadCommand, hkills, hsame, hpid]
    | none =>
        apply Or.inr
        simp only [hstep, reloadCommand, hkills, hsame, hpid]

/-- **A reload that finds a changed text** does with what it has parsed what
it is meant to do. -/
theorem reloadsAs_changed {raw : String} {svc : ServiceDef}
    (hphase : s.phase = .commands)
    (hcommand : w.command = some (.reload n reply))
    (hread : reread cfg w s n = .changed raw svc) :
    ReloadsAs cfg w s n reply svc := by
  obtain ⟨base, hbase, hreplies, hstep⟩ :=
    step_changed hphase hcommand hread
  have hinstalled : (step cfg w s).svcByName.lookup n = some svc := by
    rcases hstep with hstep | hstep
    · rw [hstep, (requestRestart_reply w base n reply).2.1]
      exact hbase
    · rw [hstep, (spawnOnDemand_reply w base n reply "").2]
      exact hbase
  refine ⟨?_, hinstalled, ?_, spawnsAs_of_installed hinstalled, ?_⟩
  · intro e
    rw [← hreplies]
    rcases hstep with hstep | hstep
    · rw [hstep, (requestRestart_reply w base n reply).1]
      exact fun h => (List.cons_ne_self _ _ h.symm).elim
    · rw [hstep]
      exact (spawnOnDemand_reply w base n reply e).1
  · rcases hstep with hstep | hstep
    · rw [hstep]
      exact .inl (requestRestart_reply w base n reply).2.2
    · exact .inr ⟨base, hbase, hstep⟩
  · intro ws hws
    have hlater := run_installed cfg hws _ hinstalled
    exact ⟨hlater, fun w' hw' =>
      spawnsAs_of_installed (step_installed hw' hlater)⟩

end Reload

/-! ## The two pipelines -/

/-- Only trailing NULs are taken off. -/
theorem trimEndNul_of_not_endsWith {raw : String}
    (h : endsWith raw "\x00" = false) : trimEndNul raw = raw := by
  have hdrop : raw.toList.reverse.dropWhile (· == '\x00') =
      raw.toList.reverse := by
    unfold endsWith at h
    cases hrev : raw.toList.reverse with
    | nil => rfl
    | cons c rest =>
        have hnul : "\x00".toList.reverse = ['\x00'] := rfl
        rw [hrev, hnul, List.isPrefixOf, List.isPrefixOf, Bool.and_true] at h
        rw [List.dropWhile_cons_of_neg]
        rw [Bool.beq_comm, h]
        exact Bool.false_ne_true
  rw [trimEndNul, hdrop, List.reverse_reverse, String.ofList_toList]

/-- Expanding `%U` leaves a definition alone unless it has that user and the
session user has another name. -/
theorem applyTo_eq_self_iff {flintCfg : FlintConfig} {defn : ServiceDef} :
    (flintCfg.applyTo [defn]).head? = some defn ↔
      (defn.service.user = some "%U" →
        flintCfg.sessionUser = some "%U") := by
  rw [FlintConfig.applyTo, List.map_singleton, List.head?_cons,
    Option.some.injEq]
  by_cases huser : defn.service.user = some "%U"
  · rw [if_pos huser]
    constructor
    · intro h _
      rw [← huser]
      exact congrArg (·.service.user) h
    · intro h
      rw [h huser, ← huser]
  · rw [if_neg huser]
    exact iff_of_true rfl (fun h => absurd h huser)

/-- **Reload loads what a boot would load** exactly when the content has no
trailing NUL and its user needs no expansion.  TOML has no text that ends in
a NUL. -/
theorem reload_as_boot_iff (cfg : Config) (flintCfg : FlintConfig)
    (hnul : ∀ text, endsWith text "\x00" = true →
      ∃ e, cfg.fromStr text = .error e)
    (w : World) (s : State) (dir n raw : String) (reply : ReplySender)
    (d : ServiceDef) (hphase : s.phase = .commands)
    (hcommand : w.command = some (.reload n reply))
    (hdir : cfg.serviceDir = some dir)
    (hread : w.readFile (join dir (n ++ ".toml")) = .ok raw)
    (hchanged : trim raw ≠ trim ((s.serviceRaw.lookup n).getD ""))
    (haccept : bootDefn cfg.fromStr flintCfg dir (n ++ ".toml") raw =
      some d) :
    ReloadsAs cfg w s n reply d ↔
      endsWith raw "\x00" = false ∧
        ∀ defn, cfg.fromStr raw = .ok defn →
          defn.service.user = some "%U" →
            flintCfg.sessionUser = some "%U" := by
  have hunparsable : ∀ e, cfg.fromStr raw = .error e →
      reread cfg w s n = .unparsable e := by
    intro e he
    simp only [reread, hdir, hread, if_neg hchanged, he]
  have hparsed : ∀ svc, cfg.fromStr raw = .ok svc →
      reread cfg w s n = .changed raw svc := by
    intro svc hsvc
    simp only [reread, hdir, hread, if_neg hchanged, hsvc]
  by_cases hend : endsWith raw "\x00" = true
  · obtain ⟨e, he⟩ := hnul raw hend
    refine iff_of_false ?_ ?_
    · intro h
      exact h.noParseError e
        (step_unparsable hphase hcommand (hunparsable e he))
    · rintro ⟨hnone, -⟩
      rw [hend] at hnone
      cases hnone
  · rw [Bool.not_eq_true] at hend
    unfold bootDefn parseToml parseContent at haccept
    dsimp only at haccept
    rw [trimEndNul_of_not_endsWith hend] at haccept
    cases hparse : cfg.fromStr raw with
    | error e =>
        rw [hparse] at haccept
        cases haccept
    | ok defn =>
        rw [hparse] at haccept
        have hstep := reloadsAs_changed hphase hcommand (hparsed defn hparse)
        have hsame : ReloadsAs cfg w s n reply d ↔ defn = d := by
          constructor
          · intro h
            exact Option.some.inj (hstep.installed.symm.trans h.installed)
          · rintro rfl
            exact hstep
        have huser := @applyTo_eq_self_iff flintCfg defn
        dsimp only at haccept
        rw [haccept, Option.some.injEq, eq_comm] at huser
        rw [hsame, huser, and_iff_right hend]
        constructor
        · intro h other heq
          cases heq
          exact h
        · intro h
          exact h defn rfl

/-- A service with a user, as definition and text. -/
def withUser (user : String) : ServiceDef :=
  { makeService "desk" [] [] with
    service := ⟨"desk", "/bin/desk", none, some user, none⟩ }

def withUserToml (user : String) : String :=
  "[service]\nname = \"desk\"\nexec = \"/bin/desk\"\nuser = \"" ++ user ++
    "\"\n"

def parseWithUser (text : String) : Except String ServiceDef :=
  if text = withUserToml "%U" then .ok (withUser "%U")
  else if text = withUserToml "desk" then .ok (withUser "desk")
  else .error "TOML parse error"

/-- A text that ends in NUL does not parse, when nothing trims it. -/
theorem parseWithUser_nul {text : String} (h : endsWith text "\x00" = true) :
    ∃ e, parseWithUser text = .error e := by
  unfold parseWithUser
  have hfirst : text ≠ withUserToml "%U" := by
    rintro rfl
    revert h
    decide
  have hsecond : text ≠ withUserToml "desk" := by
    rintro rfl
    revert h
    decide
  rw [if_neg hfirst, if_neg hsecond]
  exact ⟨_, rfl⟩

/-- `desk` is to run as the session user, who is called `desk`. -/
def deskConfig : FlintConfig := ⟨some ⟨some "desk"⟩⟩

def deskExecutor : Config :=
  ⟨some "/etc/flint/services", none, parseWithUser⟩

def deskGraph : ServiceGraph :=
  match ServiceGraph.build .asStored [withUser "desk"] with
  | .ok (.ok g) => g
  | _ => ⟨∅, ∅, ∅, ∅⟩

/-- The loop with one service, about to take commands. -/
def deskState : State :=
  runWithMarker deskExecutor (fun _ => .ok "[service]") (.asStored _)
    deskGraph [withUser "desk"] [.idle]

/-- `desk` is to be reloaded, and its file has changed. -/
def deskReload (raw : String) : World :=
  { World.idle with
    command := some (.reload "desk" 0)
    readFile := fun _ => .ok raw }

/-- The desk service is read by a reload as it was at boot. -/
theorem reload_as_boot_iff_desk :
    ReloadsAs deskExecutor (deskReload (withUserToml "desk")) deskState
      "desk" 0 (withUser "desk") := by
  refine (reload_as_boot_iff deskExecutor deskConfig
    (fun _ => parseWithUser_nul) (deskReload (withUserToml "desk")) deskState
    "/etc/flint/services" "desk" (withUserToml "desk") 0 (withUser "desk")
    rfl rfl rfl rfl (by decide +kernel) (by decide +kernel)).mpr ?_
  refine ⟨by decide +kernel, ?_⟩
  intro defn hdefn huser
  have hparse : parseWithUser (withUserToml "desk") =
      .ok (withUser "desk") := by decide +kernel
  cases hparse.symm.trans hdefn
  exact absurd huser (by decide)

/-- **A session service is reloaded with the user `%U`**, which a boot would
have replaced, and a file padded with NULs is refused. -/
theorem reloaded_session_service_keeps_placeholder :
    (bootDefn parseWithUser deskConfig "/etc/flint/services" "desk.toml"
        (withUserToml "%U") = some (withUser "desk") ∧
      ¬ ReloadsAs deskExecutor (deskReload (withUserToml "%U")) deskState
        "desk" 0 (withUser "desk")) ∧
    bootDefn parseWithUser deskConfig "/etc/flint/services" "desk.toml"
        (withUserToml "desk" ++ "\x00") = some (withUser "desk") ∧
      ¬ ReloadsAs deskExecutor (deskReload (withUserToml "desk" ++ "\x00"))
        deskState "desk" 0 (withUser "desk") := by
  refine ⟨⟨by decide +kernel, ?_⟩, by decide +kernel, ?_⟩
  · intro h
    have hkept : (step deskExecutor (deskReload (withUserToml "%U"))
        deskState).svcByName.lookup "desk" = some (withUser "%U") := by
      decide +kernel
    have hsame := hkept.symm.trans h.installed
    revert hsame
    decide +kernel
  · intro h
    refine h.noParseError "TOML parse error" ?_
    decide +kernel

end FlintInit
