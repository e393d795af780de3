import FlintInit.Bookkeeping

/-!
# Live processes

Two promises of the loop about the children it tracks, and the exact runs in
which it keeps them.

No service has two processes as long as nothing is spawned for a name that has
one.  The launch loop never looks at what is running.  `Reload` does, and
`Start` and `Restart` look at the state they have recorded, which says that a
service is down although it runs only after the launch loop has taken its name
as blocked.

The exit test compares the bare counter `completed` with the number of
services.  The counter says how many services are done as long as a command
spawns only what the launch loop has launched and nothing has counted yet; the
loop then never walks away from a child.
-/

namespace FlintInit

open Collections Release Runs

/-! ## One process per service -/

/-- No child of the loop belongs to `n`. -/
def State.NoProcess (s : State) (n : String) : Prop :=
  ∀ pid ∈ s.pidToName.keys, s.pidToName.lookup pid ≠ some n

instance (s : State) (n : String) : Decidable (s.NoProcess n) :=
  inferInstanceAs (Decidable (∀ pid ∈ s.pidToName.keys, _))

/-- The keys of `pid_to_name` are all that has to be looked at. -/
theorem State.noProcess_iff {s : State} {n : String} :
    s.NoProcess n ↔ s.view.Idle n := by
  constructor
  · intro h pid hlive
    exact h pid (mem_keys_iff_lookup.mpr ⟨n, hlive⟩) hlive
  · intro h pid _ hlive
    exact h pid hlive

/-- Neither the launch loop nor a command spawns for a name that has a
process. -/
structure SpawnsIdle (cfg : Config) (w : World) (s : State) : Prop where
  launches : ∀ n ∈ nextPop s, n ∉ s.blockedServices → s.NoProcess n
  commands : ∀ n ∈ demanded cfg w s, s.NoProcess n

instance (cfg : Config) (w : World) (s : State) :
    Decidable (SpawnsIdle cfg w s) :=
  decidable_of_iff
    ((∀ n ∈ nextPop s, n ∉ s.blockedServices → s.NoProcess n) ∧
      ∀ n ∈ demanded cfg w s, s.NoProcess n)
    ⟨fun ⟨h₁, h₂⟩ => ⟨h₁, h₂⟩, fun h => ⟨h.launches, h.commands⟩⟩

/-- A step that spawns for idle names only keeps one process per service. -/
theorem Single.step {s : State} (h : Single s.view) {cfg : Config}
    {w : World} (hidle : SpawnsIdle cfg w s) :
    Single (step cfg w s).view := by
  obtain ⟨t, hmove, ht⟩ := step_move cfg w s
  refine h.move hmove ?_ ?_
  · rintro n pid rfl hb
    exact State.noProcess_iff.mp (hidle.launches n ht hb)
  · rintro n pid rfl
    exact State.noProcess_iff.mp (hidle.commands n ht)

/-- **One process per service.**  In every run in which nothing is spawned for
a name that already has a process, two tracked children never belong to the
same service. -/
theorem one_process_per_service (cfg : Config)
    (readFile : String → Except String String) (order : IterOrder String)
    (g : ServiceGraph) (services : List ServiceDef) (ws : List World)
    (hrun : EveryStep (SpawnsIdle cfg) cfg readFile order g services ws)
    (p q : Pid) (n : String) :
    let s := runWithMarker cfg readFile order g services ws
    s.pidToName.lookup p = some n → s.pidToName.lookup q = some n → p = q := by
  intro s hp hq
  have hsingle := run_invariant (fun s : State => Single s.view)
    (fun w s hidle h => h.step hidle) ws _ hrun
    (initial_tracked cfg readFile order g services).single
  exact hsingle p q n hp hq

/-- Two services, the second waiting for the first. -/
def dbAndWeb : List ServiceDef :=
  [makeService "db" [] [], makeService "web" ["db"] []]

/-- `web` is started by command while `db` is still coming up. -/
def startedEarly : List World :=
  List.replicate 9 .idle ++
    [{ World.idle with command := some (.start "web" 0) }, .idle,
      { World.idle with ready := some "db" }, .idle, .idle]

/-- The launch loop spawns `web` a second time. -/
theorem started_early_runs_twice :
    ∃ g, ServiceGraph.build .asStored dbAndWeb = .ok (.ok g) ∧
      let s := runWithMarker .bare (fun _ => .error "") (.asStored _) g
        dbAndWeb startedEarly
      s.pidToName.lookup 2 = some "web" ∧ s.pidToName.lookup 3 = some "web" :=
  ⟨_, rfl, by decide +kernel⟩

def oneJob : List ServiceDef := [makeService "job" [] []]

/-- A boot of a single job with a restart by command in it. -/
def restartedJob : List World :=
  List.replicate 9 .idle ++
    [{ World.idle with command := some (.restart "job" 0) }, .idle, .idle,
      .idle, .idle, { World.idle with waitpid := .signaled 15 }]

/-- A job that runs and is restarted by command keeps a single process. -/
theorem one_process_per_service_restart :
    ∃ g, ServiceGraph.build .asStored oneJob = .ok (.ok g) ∧
      let s := runWithMarker .bare (fun _ => .error "") (.asStored _) g
        oneJob restartedJob
      s.pidToName.lookup 1 = some "job" ∧
        ∀ p, s.pidToName.lookup p = some "job" → p = 1 := by
  refine ⟨_, rfl, ?_⟩
  intro s
  have hjob : s.pidToName.lookup 1 = some "job" := by decide +kernel
  refine ⟨hjob, fun p hp => ?_⟩
  exact one_process_per_service .bare (fun _ => .error "") (.asStored _) _ _ _
    (by decide +kernel) p 1 "job" hp hjob

/-- The launch loop takes no name that has a process, not even as blocked. -/
def LaunchesIdle (s : State) : Prop := ∀ n ∈ nextPop s, s.NoProcess n

instance (s : State) : Decidable (LaunchesIdle s) :=
  inferInstanceAs (Decidable (∀ n ∈ nextPop s, _))

/-- What a command spawns is recorded as down, or was looked for in vain among
the children. -/
theorem idle_of_demanded {cfg : Config} {w : World} {s : State} {n : String}
    (h : demanded cfg w s = some n) :
    (∃ st, s.view.state n = some st ∧ st.up = false) ∨ s.view.Idle n := by
  have hstopped : ∀ {m : String} {svc : ServiceDef},
      onDemand.stopped s m = some (n, svc) →
        ∃ st, s.view.state n = some st ∧ st.up = false := by
    intro m svc hstop
    unfold onDemand.stopped at hstop
    split at hstop
    · rename_i st _ hst _
      split at hstop
      · cases hstop
      · rename_i hdown
        cases hstop
        exact ⟨st, hst, Bool.eq_false_iff.mpr hdown⟩
    · cases hstop
  obtain ⟨command, svc, hon⟩ : ∃ command svc,
      onDemand cfg w s command = some (n, svc) := by
    unfold demanded at h
    split at h
    · rename_i command _ _
      split at h
      · rename_i m svc hon
        split at h
        · cases h
          exact ⟨command, svc, hon⟩
        · cases h
      · cases h
    · cases h
  cases command with
  | start m reply => exact .inl (hstopped hon)
  | restart m reply => exact .inl (hstopped hon)
  | reload m reply =>
      simp only [onDemand] at hon
      split at hon
      · rename_i hfind
        cases hon
        exact .inr (findPid_eq_none.mp hfind)
      · cases hon

/-- **The commands are not to blame.**  In a run in which the launch loop takes
no name that has a process, the commands spawn for none either. -/
theorem spawnsIdle_of_launchesIdle (cfg : Config)
    (readFile : String → Except String String) (order : IterOrder String)
    (g : ServiceGraph) (services : List ServiceDef) (ws : List World)
    (hrun : EveryStep (fun _ s => LaunchesIdle s) cfg readFile order g
      services ws) :
    EveryStep (SpawnsIdle cfg) cfg readFile order g services ws := by
  refine Meets.of_invariant (fun s : State => Tracked s.view) ?_ ?_ ws _ hrun
    (initial_tracked cfg readFile order g services)
  · intro w s hidle h
    obtain ⟨t, hmove, ht⟩ := step_move cfg w s
    refine h.move hmove (fun n hn => ?_)
    exact State.noProcess_iff.mp (hidle n (nextPop_of_pops ht hn))
  · intro w s hidle h
    refine ⟨fun n hn _ => hidle n hn, fun n hn => ?_⟩
    exact State.noProcess_iff.mpr (h.idle_of_demand (idle_of_demanded hn))

/-! ## The exit test -/

/-- What `waitpid` answers about a child that has not been reaped before. -/
def Waitpid.ordinary : Waitpid → Bool
  | .stillAlive => true
  | .exited _ => true
  | .signaled _ => true
  | _ => false

/-- A command spawns only what the launch loop has taken from its queue and
nothing has counted as completed. -/
def DemandsLaunched (cfg : Config) (w : World) (s : State) : Prop :=
  ∀ n ∈ demanded cfg w s, n ∈ s.view.popped ∧ n ∉ s.view.counted

instance (cfg : Config) (w : World) (s : State) :
    Decidable (DemandsLaunched cfg w s) :=
  inferInstanceAs (Decidable (∀ n ∈ demanded cfg w s, _))

/-- The counter counts distinct launched services without a process. -/
structure Counted (N : Net String) (v : View) : Prop where
  queued : Queued N v
  tracked : Tracked v
  nodup : v.counted.Nodup
  completed : v.completed = v.counted.length
  sub : ∀ n ∈ v.counted, n ∈ v.popped
  running : ∀ p n, v.live p = some n → n ∈ v.popped ∧ n ∉ v.counted

namespace Counted

variable {N : Net String} {v v' : View}

/-- What is next on the queue has no process. -/
theorem idle_of_queue (h : Counted N v) {n : String} {rest : List String}
    (hq : v.queue = rest ++ [n]) : v.Idle n := by
  intro p hp
  exact h.queued.notMem_popped hq (h.running p n hp).1

/-- What a move takes from the queue has no process. -/
theorem idle_of_pops (h : Counted N v) {t : Trigger} (hmove : Move t v v')
    {n : String} (hpops : t.pops = some n) : v.Idle n := by
  cases hmove with
  | popBlocked hq hb hnew => cases hpops; exact h.idle_of_queue hq
  | popIdle hq hb => cases hpops; exact h.idle_of_queue hq
  | launch hq hb hfresh => cases hpops; exact h.idle_of_queue hq
  | _ => cases hpops

/-- A service that ends for good moves from the running to the counted. -/
theorem of_finish (h : Counted N v) {pid : Pid} {n : String}
    (hlive : v.live pid = some n) (hqueued : Queued N v')
    (htracked : Tracked v') (hpopped : v'.popped = v.popped)
    (hcounted : v'.counted = n :: v.counted)
    (hcompleted : v'.completed = v.completed + 1)
    (hreap : v'.live = (v.reap pid).live) : Counted N v' := by
  obtain ⟨hpop, hnot⟩ := h.running pid n hlive
  refine ⟨hqueued, htracked, ?_, ?_, ?_, ?_⟩
  · rw [hcounted]
    exact List.nodup_cons.mpr ⟨hnot, h.nodup⟩
  · rw [hcompleted, hcounted, h.completed, List.length_cons]
  · intro m hm
    rw [hcounted] at hm
    rw [hpopped]
    rcases List.mem_cons.mp hm with rfl | hm
    · exact hpop
    · exact h.sub m hm
  · intro p m hp
    rw [hreap] at hp
    obtain ⟨hmpop, hmnot⟩ := h.running p m (View.live_reap.mp hp).2
    rw [hpopped, hcounted]
    refine ⟨hmpop, fun hm => ?_⟩
    rcases List.mem_cons.mp hm with rfl | hm
    · exact h.tracked.single.idle_reap hlive p hp
    · exact hmnot hm

/-- **Every move keeps the count**, but for a lost child and for commands that
spawn something else than what is launched and not counted. -/
theorem move (h : Counted N v) {t : Trigger} (hmove : Move t v v')
    (hlost : ∀ pid, t ≠ .lost pid)
    (hdemand : ∀ n pid, t = .demand n pid → n ∈ v.popped ∧ n ∉ v.counted) :
    Counted N v' := by
  have hqueued := h.queued.move hmove
  have htracked := h.tracked.move hmove (fun n hn => h.idle_of_pops hmove hn)
  have hnew : ∀ {n : String} {rest : List String}, v.queue = rest ++ [n] →
      n ∉ v.popped := fun hq => h.queued.notMem_popped hq
  cases hmove with
  | quiet => exact h
  | ready hn hnew =>
      exact ⟨hqueued, htracked, h.nodup, h.completed, h.sub, h.running⟩
  | @popBlocked _ n rest newly hq hb hnewly =>
      have hcounted : n ∉ v.counted := fun hn => hnew hq (h.sub n hn)
      refine ⟨hqueued, htracked, List.nodup_cons.mpr ⟨hcounted, h.nodup⟩,
        congrArg (· + 1) h.completed, ?_, ?_⟩
      · intro m hm
        rcases List.mem_cons.mp hm with rfl | hm
        · exact List.mem_cons_self
        · exact List.mem_cons_of_mem _ (h.sub m hm)
      · intro p m hp
        obtain ⟨hpop, hcount⟩ := h.running p m hp
        refine ⟨List.mem_cons_of_mem _ hpop, ?_⟩
        intro hm
        rcases List.mem_cons.mp hm with rfl | hm
        · exact hnew hq hpop
        · exact hcount hm
  | @popIdle _ n rest hq hb =>
      refine ⟨hqueued, htracked, h.nodup, h.completed, ?_, ?_⟩
      · intro m hm
        exact List.mem_cons_of_mem _ (h.sub m hm)
      · intro p m hp
        obtain ⟨hpop, hcount⟩ := h.running p m hp
        exact ⟨List.mem_cons_of_mem _ hpop, hcount⟩
  | @launch _ n rest pid hq hb hfresh =>
      refine ⟨hqueued, htracked, h.nodup, h.completed, ?_, ?_⟩
      · intro m hm
        exact List.mem_cons_of_mem _ (h.sub m hm)
      · intro p m hp
        rcases View.live_run.mp hp with ⟨_, rfl⟩ | ⟨_, hp⟩
        · exact ⟨List.mem_cons_self, fun hn => hnew hq (h.sub _ hn)⟩
        · obtain ⟨hpop, hcount⟩ := h.running p m hp
          exact ⟨List.mem_cons_of_mem _ hpop, hcount⟩
  | @demand _ n pid hidle hfresh =>
      refine ⟨hqueued, htracked, h.nodup, h.completed, h.sub, ?_⟩
      intro p m hp
      rcases View.live_run.mp hp with ⟨_, rfl⟩ | ⟨_, hp⟩
      · exact hdemand _ pid rfl
      · exact h.running p m hp
  | @respawn _ n old new cause hlive hcause hfresh =>
      refine ⟨hqueued, htracked, h.nodup, h.completed, h.sub, ?_⟩
      intro p m hp
      rcases View.live_run.mp hp with ⟨_, rfl⟩ | ⟨_, hp⟩
      · exact h.running old _ hlive
      · exact h.running p m (View.live_reap.mp hp).2
  | fallen hlive =>
      exact ⟨hqueued, htracked, h.nodup, h.completed, h.sub,
        fun p m hp => h.running p m (View.live_reap.mp hp).2⟩
  | reaped hlive =>
      exact ⟨hqueued, htracked, h.nodup, h.completed, h.sub,
        fun p m hp => h.running p m (View.live_reap.mp hp).2⟩
  | finishAgain hlive hn =>
      exact h.of_finish hlive hqueued htracked rfl rfl rfl rfl
  | finishFirst hlive hn hnewly =>
      exact h.of_finish hlive hqueued htracked rfl rfl rfl rfl
  | lost _ pid => exact absurd rfl (hlost pid)

/-- With everything counted no process is left. -/
theorem no_live (h : Counted N v) (hall : v.total ≤ v.completed) (p : Pid) :
    v.live p = none := by
  cases hp : v.live p with
  | none => rfl
  | some n =>
      exfalso
      obtain ⟨hpop, hnot⟩ := h.running p n hp
      have hsub : (n :: v.counted).toFinset ⊆ N.nodes := by
        intro m hm
        rw [List.mem_toFinset] at hm
        rcases List.mem_cons.mp hm with rfl | hm
        · exact (h.queued.popped_sub hpop).1
        · exact (h.queued.popped_sub (h.sub m hm)).1
      have hle := Finset.card_le_card hsub
      rw [List.toFinset_card_of_nodup (List.nodup_cons.mpr ⟨hnot, h.nodup⟩),
        List.length_cons, ← h.queued.total, ← h.completed] at hle
      omega

end Counted

/-- When the loop is entered, nothing is counted and nothing runs. -/
theorem initial_counted {orders : BuildOrders} {services : List ServiceDef}
    {g : ServiceGraph}
    (hg : ServiceGraph.build orders services = .ok (.ok g)) (cfg : Config)
    (readFile : String → Except String String) (order : IterOrder String) :
    Counted (waitNet orders services)
      (initial cfg readFile order g services).view :=
  ⟨initial_queued cfg readFile order hg,
    initial_tracked cfg readFile order g services, List.nodup_nil, rfl,
    fun _ hn => (nomatch hn), fun _ _ hp => (nomatch hp)⟩

/-- **The loop does not walk away from a child.**  In every run on a built
graph in which no child was reaped by someone else and the commands spawn only
what is launched and not counted, the exit `completed >= total` is taken with
no child left. -/
theorem exit_leaves_no_child {orders : BuildOrders}
    {services : List ServiceDef} {g : ServiceGraph}
    (hg : ServiceGraph.build orders services = .ok (.ok g)) (cfg : Config)
    (readFile : String → Except String String) (order : IterOrder String)
    (ws : List World)
    (hrun : EveryStep
      (fun w s => w.waitpid.ordinary = true ∧ DemandsLaunched cfg w s)
      cfg readFile order g services ws)
    (hexit : (runWithMarker cfg readFile order g services ws).phase =
      .left .allCompleted) :
    (runWithMarker cfg readFile order g services ws).pidToName.keys = [] := by
  have hinv := run_invariant
    (fun s : State => Counted (waitNet orders services) s.view ∧
      (s.phase = .left .allCompleted → s.total ≤ s.completed))
    (fun w s hok h => ?_) ws _ hrun
    ⟨initial_counted hg cfg readFile order, fun hphase => nomatch hphase⟩
  · rw [keys_eq_nil_iff]
    exact hinv.1.no_live (hinv.2 hexit)
  · obtain ⟨hordinary, hdemands⟩ := hok
    obtain ⟨t, hmove, ht⟩ := step_move cfg w s
    refine ⟨h.1.move hmove ?_ ?_, fun hleft => (step_left_test hleft).2⟩
    · intro pid hlost
      subst hlost
      rw [Triggered] at ht
      rw [ht] at hordinary
      cases hordinary
    · intro n pid hdemand
      subst hdemand
      exact hdemands n ht

/-- The restarted job ends a second time, and the loop exits with no child
left. -/
theorem exit_leaves_no_child_restart :
    ∃ g, ServiceGraph.build .asStored oneJob = .ok (.ok g) ∧
      (runWithMarker .bare (fun _ => .error "") (.asStored _) g oneJob
        (restartedJob ++ List.replicate 6 .idle ++
          [{ World.idle with waitpid := .exited 0 }] ++
          List.replicate 5 .idle)).pidToName.keys = [] :=
  ⟨_, rfl, exit_leaves_no_child
    (rfl : ServiceGraph.build .asStored oneJob = .ok (.ok _)) .bare
    (fun _ => .error "") (.asStored _) _ (by decide +kernel)
    (by decide +kernel)⟩

/-- Two services that do not depend on each other. -/
def shortAndLong : List ServiceDef :=
  [makeService "short" [] [], makeService "long" [] []]

/-- `short` exits, is started again by command and exits again. -/
def startedAgain : List World :=
  List.replicate 8 .idle ++
    [{ World.idle with waitpid := .exited 0 }, .idle, .idle,
      { World.idle with command := some (.start "short" 0) }] ++
    List.replicate 4 .idle ++
    [{ World.idle with waitpid := .exited 0 }] ++ List.replicate 6 .idle

/-- Both ends of `short` are counted, so the loop exits with `long` alive. -/
theorem started_again_leaves_long :
    ∃ g, ServiceGraph.build .asStored shortAndLong = .ok (.ok g) ∧
      (∀ w ∈ startedAgain, w.shutdown = false ∧ w.waitpid.ordinary = true) ∧
      let s := runWithMarker .bare (fun _ => .error "") (.asStored _) g
        shortAndLong startedAgain
      s.phase = .left .allCompleted ∧ s.pidToName.lookup 2 = some "long" :=
  ⟨_, rfl, by decide +kernel, by decide +kernel, by decide +kernel⟩

end FlintInit
