import FlintInit.Library.Fairness
import FlintInit.Panics
import FlintInit.SpawnBudget

/-!
# The loop comes to an end

Nothing in `run_with_marker` counts its rounds: it goes on as long as a child
is tracked and services are left.  It ends all the same once the messages end,
if every child ends and `waitpid` then says so.

The reason is the work left: services not yet launched, automatic restarts not
yet used, restarts promised, and children.  A step that launches a service or
sees a child end leaves less of it, and the other steps go once around the
loop and come to every child.
-/

namespace FlintInit

open Collections Release Runs

/-- The child polled in this step. -/
def polled (s : State) : Option Pid :=
  match s.phase with
  | .poll (pid :: _) => some pid
  | _ => none

/-- A child is polled as the first of those left in this round. -/
theorem phase_of_polled {s : State} {pid : Pid} (h : polled s = some pid) :
    ∃ rest, s.phase = .poll (pid :: rest) := by
  unfold polled at h
  split at h
  · rename_i heq
    cases h
    exact ⟨_, heq⟩
  · cases h

/-- The answers after which the loop leaves a child as it is. -/
def Waitpid.silent : Waitpid → Bool
  | .stillAlive => true
  | .other => true
  | .eintr => true
  | _ => false

/-! ## The work left -/

section Work

variable (N : Net String) {cfg : Config} {w : World} {s s' : State}

/-- The services that have not been taken from the launch queue. -/
def unpopped (s : State) : Nat :=
  (N.nodes.filter (fun n => n ∉ s.view.popped)).card

/-- The automatic restarts that are left to the defined services. -/
def spare (s : State) : Nat :=
  ∑ n ∈ s.svcByName.keys.toFinset, (maxRestarts - restartsUsed s n)

/-- A launch pays for a child, and so counts twice. -/
def workLeft (s : State) : Nat :=
  2 * unpopped N s + spare s + s.pendingRestart.card + s.pidToName.keys.length

variable {N}

/-- The restarts left depend on the definitions and on the counts alone. -/
theorem spare_congr (hdefs : s'.svcByName = s.svcByName)
    (hcounts : ∀ n, restartsUsed s' n = restartsUsed s n) :
    spare s' = spare s := by
  unfold spare
  rw [hdefs]
  exact Finset.sum_congr rfl (fun n _ => by rw [hcounts])

/-- An automatic restart is used up. -/
theorem spare_entry {n : String} {svc : ServiceDef}
    (hsvc : s.svcByName.lookup n = some svc)
    (hused : restartsUsed s n < maxRestarts)
    (hdefs : s'.svcByName = s.svcByName)
    (hcounts : s'.restartCounts = entry s.restartCounts n 0 (· + 1)) :
    spare s' < spare s := by
  unfold spare
  rw [hdefs]
  have hin : n ∈ s.svcByName.keys.toFinset :=
    List.mem_toFinset.mpr (mem_keys_iff_lookup.mpr ⟨svc, hsvc⟩)
  refine Finset.sum_lt_sum ?_ ⟨n, hin, ?_⟩
  · intro m _
    rw [restartsUsed_entry hcounts]
    split
    · rename_i hm
      rw [hm]
      omega
    · exact Nat.le_refl _
  · rw [restartsUsed_entry hcounts, if_pos rfl]
    omega

/-- A child that is reaped is one less. -/
theorem length_keys_erase {pid : Pid} {n : String}
    (h : s.pidToName.lookup pid = some n) :
    (s.pidToName.erase pid).keys.length + 1 = s.pidToName.keys.length := by
  have hin : pid ∈ s.pidToName.keys := mem_keys_iff_lookup.mpr ⟨n, h⟩
  have hpos := List.length_pos_of_mem hin
  rw [AList.keys_erase, List.length_erase_of_mem hin]
  omega

/-- A spawn adds one child at most. -/
theorem length_keys_insert_le (t : Table Pid String) (pid : Pid)
    (n : String) : (t.insert pid n).keys.length ≤ t.keys.length + 1 := by
  rw [AList.keys_insert, List.length_cons]
  exact Nat.succ_le_succ (List.length_erase_le)

/-- A name leaves the launch queue. -/
theorem unpopped_cons {n : String} (hn : n ∈ N.nodes)
    (hold : n ∉ s.view.popped)
    (hpopped : s'.view.popped = n :: s.view.popped) :
    unpopped N s' < unpopped N s := by
  unfold unpopped
  refine Finset.card_lt_card ?_
  rw [Finset.ssubset_iff_of_subset]
  · refine ⟨n, Finset.mem_filter.mpr ⟨hn, hold⟩, ?_⟩
    rw [Finset.mem_filter, hpopped]
    exact fun h => h.2 List.mem_cons_self
  · intro m hm
    rw [Finset.mem_filter, hpopped] at hm
    exact Finset.mem_filter.mpr
      ⟨hm.1, fun h => hm.2 (List.mem_cons_of_mem n h)⟩

/-- Work goes down, or the loop has been left. -/
def Works (N : Net String) (s s' : State) : Prop :=
  s'.phase.over = true ∨ workLeft N s' < workLeft N s

/-- What is left to launch depends on the names taken from the queue alone. -/
theorem unpopped_congr (h : ∀ n, n ∈ s'.view.popped ↔ n ∈ s.view.popped) :
    unpopped N s' = unpopped N s := by
  unfold unpopped
  simp only [h]

/-- The end of a service takes no name from the queue. -/
theorem finishService_popped (s : State) (n : String) (ending : Ending)
    (m : String) :
    m ∈ (finishService s n ending).view.popped ↔ m ∈ s.view.popped := by
  have hrecord : ((finishService s n ending).record m).popped =
      (s.record m).popped := by
    by_cases hm : n = m
    · subst hm
      rw [record_finishService]
    · rw [record_finishService_other hm]
  exact iff_of_eq hrecord

/-- Spawning for the launch loop, which has taken the name. The name taken pays
twice, once for the pop and once for the child that may come of it. -/
theorem launchService_works (hq : Queued N s.view) {n : String}
    {rest : List String} (hqueue : s.toStart = rest ++ [n]) :
    Works N s (launchService w { s with toStart := rest } n) := by
  have hmem : n ∈ s.view.queue := by
    change n ∈ s.toStart
    rw [hqueue]
    exact List.mem_append_right _ List.mem_cons_self
  have hnode := (hq.queue_sub hmem).1
  have hold := hq.notMem_popped hqueue
  -- whatever else it does, the launch takes the name and spawns once at most
  have hless : ∀ t : State, t.view.popped = n :: s.view.popped →
      t.svcByName = s.svcByName → t.restartCounts = s.restartCounts →
      t.pendingRestart = s.pendingRestart →
      t.pidToName.keys.length ≤ s.pidToName.keys.length + 1 →
      Works N s t := by
    intro t hpopped hdefs hcounts hpending hlen
    have hfewer := unpopped_cons hnode hold hpopped
    have hspare : spare t = spare s :=
      spare_congr hdefs (restartsUsed_congr hcounts)
    refine .inr ?_
    unfold workLeft
    rw [hspare, hpending]
    omega
  rcases launchService_cases w { s with toStart := rest } n with
    ⟨_, heq⟩ | ⟨_, _, heq⟩ | ⟨svc, _, _, heq⟩
  · rw [heq]
    exact hless _ rfl rfl rfl rfl (Nat.le_succ _)
  · rw [heq]
    exact hless _ rfl rfl rfl rfl (Nat.le_succ _)
  · obtain ⟨removed, hstale⟩ := removeStale_eq
      (({ s with toStart := rest } : State).note (.popped n)) svc
    rw [heq, hstale]
    unfold spawnOrReturn
    split
    · exact .inl rfl
    · exact .inl rfl
    · exact hless _ rfl rfl rfl rfl (length_keys_insert_le s.pidToName _ n)

/-- The end of a child that is tracked. The child is gone, and at most one new
one comes for it: by a restart that was promised, or by an automatic one, which
is counted; so less work is left in each case. -/
theorem childEnded_works {pid : Pid} {n : String}
    (hlive : s.pidToName.lookup pid = some n) (ending : Ending) :
    Works N s (childEnded w s pid ending) := by
  have hreaped := length_keys_erase hlive
  unfold childEnded
  rw [hlive]
  dsimp only
  split
  · -- the promise is kept, so a new child makes no more work
    rename_i hpending
    have hcard := Finset.card_erase_add_one hpending
    have hless : ∀ t : State, t.view.popped = s.view.popped →
        t.svcByName = s.svcByName → t.restartCounts = s.restartCounts →
        t.pendingRestart = s.pendingRestart.erase n →
        t.pidToName.keys.length ≤ (s.pidToName.erase pid).keys.length + 1 →
        Works N s t := by
      intro t hpopped hdefs hcounts hpend hlen
      have hsame : unpopped N t = unpopped N s :=
        unpopped_congr (fun m => by rw [hpopped])
      have hspare : spare t = spare s :=
        spare_congr hdefs (restartsUsed_congr hcounts)
      refine .inr ?_
      unfold workLeft
      rw [hspare, hpend, hsame]
      omega
    unfold manualRestart
    split
    · exact .inl rfl
    · split
      · exact .inl rfl
      · obtain ⟨replies, parked, heq⟩ := answerRestart_eq
          (State.track { s with
            pidToName := s.pidToName.erase pid
            pendingRestart := s.pendingRestart.erase n } .manualRestart n _)
          n (.ok ())
        rw [heq]
        exact hless _ rfl rfl rfl rfl
          (length_keys_insert_le (s.pidToName.erase pid) _ n)
      · rename_i e _
        obtain ⟨replies, parked, heq⟩ := answerRestart_eq
          { s with
            pidToName := s.pidToName.erase pid
            pendingRestart := s.pendingRestart.erase n } n
          (.error (.spawnFailed e))
        rw [heq]
        exact hless _ rfl rfl rfl rfl (Nat.le_succ _)
  · split
    · rename_i hdue
      have hused : restartsUsed s n < maxRestarts := by
        simp only [restartDue, Bool.and_eq_true, decide_eq_true_eq] at hdue
        exact hdue.1.2
      unfold autoRestart
      split
      · exact .inl rfl
      · rename_i svc hsvc
        have hless : ∀ t : State, t.view.popped = s.view.popped →
            t.svcByName = s.svcByName →
            t.restartCounts = entry s.restartCounts n 0 (· + 1) →
            t.pendingRestart = s.pendingRestart →
            t.pidToName.keys.length ≤ (s.pidToName.erase pid).keys.length + 1 →
            Works N s t := by
          intro t hpopped hdefs hcounts hpend hlen
          have hsame : unpopped N t = unpopped N s :=
            unpopped_congr (fun m => by rw [hpopped])
          have hspare : spare t < spare s :=
            spare_entry hsvc hused hdefs hcounts
          refine .inr ?_
          unfold workLeft
          rw [hpend, hsame]
          omega
        unfold spawnOrReturn
        split
        · exact .inl rfl
        · exact .inl rfl
        · exact hless _ rfl rfl rfl rfl
            (length_keys_insert_le (s.pidToName.erase pid) _ n)
    · have hless : ∀ base : State, base.view.popped = s.view.popped →
          base.svcByName = s.svcByName →
          base.restartCounts = entry s.restartCounts n 0 id →
          base.pendingRestart = s.pendingRestart →
          base.pidToName = s.pidToName.erase pid →
          Works N s (finishService base n ending) := by
        intro base hpopped hdefs hcounts hpend hpids
        have hsame : unpopped N (finishService base n ending) =
            unpopped N s := by
          refine unpopped_congr (fun m => ?_)
          rw [finishService_popped, hpopped]
        obtain ⟨st, new, graph, blocked, reported, toStart, -, -, heq⟩ :=
          finishService_eq base n ending
        have hspare : spare (finishService base n ending) = spare s := by
          rw [heq]
          exact spare_congr hdefs (restartsUsed_read hcounts)
        have hrest : (finishService base n ending).pendingRestart =
              s.pendingRestart ∧
            (finishService base n ending).pidToName =
              s.pidToName.erase pid := by
          rw [heq]
          exact ⟨hpend, hpids⟩
        refine .inr ?_
        unfold workLeft
        rw [hsame, hspare, hrest.1, hrest.2]
        omega
      exact hless _ rfl rfl rfl rfl rfl

/-! ## One step -/

/-- The phase that follows when nothing happens. -/
def turn (w : World) (s : State) : Phase :=
  match s.phase with
  | .top => .commands
  | .commands => .readiness
  | .readiness => .launch
  | .launch => .wait
  | .wait => .poll (w.order.arrange s.pidToName.keys)
  | .poll [] => .top
  | .poll (_ :: rest) => .poll rest
  | phase => phase

/-- The loop goes on, with the same children and the same work. -/
structure Turns (N : Net String) (w : World) (s s' : State) : Prop where
  phase : s'.phase = turn w s
  pids : s'.pidToName = s.pidToName
  work : workLeft N s' = workLeft N s
  children : s.phase = .launch → s.pidToName.keys ≠ []

/-- A child that is polled and does not stay as it was. It has ended, or was
reaped by someone else, and is tracked no longer. -/
theorem step_works_of_polled (cfg : Config) {pid : Pid}
    (hpolled : polled s = some pid) (htracked : pid ∈ s.pidToName.keys)
    (hloud : w.waitpid.silent = false) : Works N s (step cfg w s) := by
  obtain ⟨rest, hphase⟩ := phase_of_polled hpolled
  obtain ⟨n, hlive⟩ := mem_keys_iff_lookup.mp htracked
  have hended : ∀ ending : Ending, Works N s
      (childEnded w { s with phase := .poll rest } pid ending) := fun ending =>
    childEnded_works
      (show ({ s with phase := .poll rest } : State).pidToName.lookup pid =
        some n from hlive) ending
  have hstep : step cfg w s =
      pollChild w { s with phase := .poll rest } pid := by
    simp only [step, hphase]
  rw [hstep]
  unfold pollChild
  cases hwait : w.waitpid with
  | exited code => exact hended (.exited code)
  | signaled sig => exact hended .signaled
  | echild =>
      have hreaped := length_keys_erase hlive
      refine .inr ?_
      change 2 * unpopped N s + spare s + s.pendingRestart.card +
        (s.pidToName.erase pid).keys.length < workLeft N s
      unfold workLeft
      omega
  | failed errno => exact .inl rfl
  | stillAlive =>
      rw [hwait] at hloud
      cases hloud
  | other =>
      rw [hwait] at hloud
      cases hloud
  | eintr =>
      rw [hwait] at hloud
      cases hloud

/-- A poll of a child that is not tracked, or of one that stays as it was.
Nothing changes but the list of children still to be polled in this round, so
the step comes closer to the next launch phase. -/
theorem step_turns_of_poll (cfg : Config) {pid : Pid} {rest : List Pid}
    (hphase : s.phase = .poll (pid :: rest))
    (hstays : pid ∉ s.pidToName.keys ∨ w.waitpid.silent = true) :
    (step cfg w s).phase.over = true ∨ Turns N w s (step cfg w s) := by
  have hturn : turn w s = .poll rest := by simp only [turn, hphase]
  have hlaunch : s.phase = .launch → s.pidToName.keys ≠ [] := by
    rw [hphase]
    exact fun h => nomatch h
  have hstep : step cfg w s =
      pollChild w { s with phase := .poll rest } pid := by
    simp only [step, hphase]
  have hsame : Turns N w s { s with phase := .poll rest } :=
    ⟨hturn.symm, rfl, rfl, hlaunch⟩
  rw [hstep]
  unfold pollChild
  have hended : pid ∉ s.pidToName.keys → ∀ ending : Ending,
      childEnded w { s with phase := .poll rest } pid ending =
        { s with phase := .poll rest } := by
    intro hout ending
    have hnone : s.pidToName.lookup pid = none := by
      rw [AList.lookup_eq_none, AList.mem_keys]
      exact hout
    unfold childEnded
    simp only [hnone]
  cases hwait : w.waitpid with
  | stillAlive => exact .inr hsame
  | other => exact .inr hsame
  | eintr => exact .inr hsame
  | failed errno => exact .inl rfl
  | exited code =>
      rw [hwait] at hstays
      have hout := hstays.resolve_right Bool.false_ne_true
      dsimp only
      rw [hended hout]
      exact .inr hsame
  | signaled sig =>
      rw [hwait] at hstays
      have hout := hstays.resolve_right Bool.false_ne_true
      dsimp only
      rw [hended hout]
      exact .inr hsame
  | echild =>
      rw [hwait] at hstays
      have hout := hstays.resolve_right Bool.false_ne_true
      have hpids : s.pidToName.erase pid = s.pidToName :=
        AList.ext (List.kerase_of_notMem_keys hout)
      refine .inr ⟨hturn.symm, hpids, ?_, hlaunch⟩
      change 2 * unpopped N s + spare s + s.pendingRestart.card +
        (s.pidToName.erase pid).keys.length = workLeft N s
      rw [hpids]
      rfl

/-- **A step without messages** leaves less work, leaves the loop, or goes
once on around it. -/
theorem step_works_or_turns (hq : Queued N s.view) (cfg : Config)
    (hcommand : w.command = none) (hready : w.ready = none)
    (hgoing : s.phase.over = false) :
    Works N s (step cfg w s) ∨ Turns N w s (step cfg w s) := by
  have hturns : ∀ phase, turn w s = phase → s.phase ≠ .launch →
      Turns N w s { s with phase := phase } := fun phase hphase hlaunch =>
    ⟨hphase.symm, rfl, rfl, fun h => absurd h hlaunch⟩
  cases hphase : s.phase with
  | top =>
      simp only [step, hphase]
      cases hshut : w.shutdown with
      | true => exact .inl (.inl rfl)
      | false => exact .inr (hturns .commands (by simp only [turn, hphase])
          (by simp [hphase]))
  | commands =>
      simp only [step, hphase, hcommand]
      exact .inr (hturns .readiness (by simp only [turn, hphase])
        (by simp [hphase]))
  | readiness =>
      simp only [step, hphase, hready]
      exact .inr (hturns .launch (by simp only [turn, hphase])
        (by simp [hphase]))
  | launch =>
      cases hpop : pop s.toStart with
      | some taken =>
          obtain ⟨n, rest⟩ := taken
          have hstep : step cfg w s =
              launchService w { s with toStart := rest } n := by
            simp only [step, hphase, hpop]
          rw [hstep]
          exact .inl (launchService_works hq (pop_eq_some.mp hpop))
      | none =>
          simp only [step, hphase, hpop]
          unfold afterLaunch
          by_cases hall : s.total ≤ s.completed
          · rw [if_pos hall]
            exact .inl (.inl rfl)
          · rw [if_neg hall]
            by_cases hnone : s.pidToName.keys = []
            · rw [if_pos hnone]
              exact .inl (.inl rfl)
            · rw [if_neg hnone]
              exact .inr ⟨by simp only [turn, hphase], rfl, rfl,
                fun _ => hnone⟩
  | wait =>
      simp only [step, hphase, hready]
      exact .inr (hturns _ (by simp only [turn, hphase]) (by simp [hphase]))
  | poll pids =>
      cases pids with
      | nil =>
          simp only [step, hphase]
          exact .inr (hturns .top (by simp only [turn, hphase])
            (by simp [hphase]))
      | cons pid rest =>
          by_cases hstays : pid ∉ s.pidToName.keys ∨ w.waitpid.silent = true
          · rcases step_turns_of_poll cfg hphase hstays with hover | hturned
            · exact .inl (.inl hover)
            · exact .inr hturned
          · rw [not_or, not_not, Bool.not_eq_true] at hstays
            have hpolled : polled s = some pid := by
              simp only [polled, hphase]
            exact .inl (step_works_of_polled cfg hpolled hstays.1 hstays.2)
  | _ =>
      rw [hphase] at hgoing
      cases hgoing

end Work

/-! ## Endless runs -/

/-- The loop after `t` steps of an endless run. -/
def loopAfter (cfg : Config) (readFile : String → Except String String)
    (order : IterOrder String) (g : ServiceGraph)
    (services : List ServiceDef) (world : Stream' World) (t : Nat) : State :=
  after (step cfg) (initial cfg readFile order g services) world t

/-- From some time on no command and no readiness message arrives. -/
def MessagesEnd (world : Stream' World) : Prop :=
  ∃ a, ∀ t, a ≤ t →
    (world.get t).command = none ∧ (world.get t).ready = none

/-- Every child ends: there is a time from which on, as long as it is tracked
without a break, `waitpid` tells so when it is polled. -/
def ChildrenEnd (states : Nat → State) (world : Stream' World) : Prop :=
  ∀ t pid, pid ∈ (states t).pidToName.keys →
    ∃ d, ∀ u, d ≤ u →
      (∀ v, t ≤ v → v ≤ u → pid ∈ (states v).pidToName.keys) →
      polled (states u) = some pid → (world.get u).waitpid.silent = false

/-- The steps to the next launch phase, with `m` children. -/
def roundRank (m : Nat) : Phase → Nat
  | .readiness => 1
  | .commands => 2
  | .top => 3
  | .poll pids => 4 + pids.length
  | .wait => 5 + m
  | _ => 0

/-- Every step but that of the launch loop comes closer to the next launch
phase. -/
theorem roundRank_turn (w : World) {s : State} {m : Nat}
    (hm : s.pidToName.keys.length = m) (hgoing : s.phase.over = false)
    (hlaunch : s.phase ≠ .launch) :
    roundRank m (turn w s) < roundRank m s.phase := by
  cases hphase : s.phase with
  | top => simp [turn, hphase, roundRank]
  | commands => simp [turn, hphase, roundRank]
  | readiness => simp [turn, hphase, roundRank]
  | launch => exact absurd hphase hlaunch
  | wait =>
      have hlen : (w.order.arrange s.pidToName.keys).length = m :=
        (w.order.perm _).length_eq.trans hm
      simp only [turn, hphase, roundRank, hlen]
      omega
  | poll pids =>
      cases pids with
      | nil => simp [turn, hphase, roundRank]
      | cons pid rest => simp [turn, hphase, roundRank]
  | _ =>
      rw [hphase] at hgoing
      cases hgoing

/-- The loop only goes round and round from `b` on. -/
def Stalled (N : Net String) (states : Nat → State) (world : Stream' World)
    (b : Nat) : Prop :=
  ∀ t, b ≤ t → (states t).phase.over = false ∧
    Turns N (world.get t) (states t) (states (t + 1))

namespace Stalled

variable {N : Net String} {states : Nat → State} {world : Stream' World}
  {b : Nat}

/-- While no work is done, the children stay the same. -/
theorem pids (h : Stalled N states world b) {t : Nat} (ht : b ≤ t) :
    (states t).pidToName = (states b).pidToName := by
  induction t, ht using Nat.le_induction with
  | base => rfl
  | succ t ht ih => rw [(h t ht).2.pids, ih]

/-- The launch phase comes again. -/
theorem launch (h : Stalled N states world b) {c : Nat} (hc : b ≤ c) :
    ∃ u, c ≤ u ∧ (states u).phase = .launch := by
  refine reaches_of_rank
    (fun t => roundRank (states b).pidToName.keys.length (states t).phase) ?_
  intro t hct hlaunch
  obtain ⟨hgoing, hturns⟩ := h t (by omega)
  rw [hturns.phase]
  refine roundRank_turn _ ?_ hgoing hlaunch
  rw [h.pids (by omega)]

/-- A child on the list to be polled is polled. -/
theorem poll (h : Stalled N states world b) {pid : Pid} :
    ∀ (pids : List Pid) (t : Nat), b ≤ t → (states t).phase = .poll pids →
      pid ∈ pids → ∃ u, t ≤ u ∧ polled (states u) = some pid := by
  intro pids
  induction pids with
  | nil =>
      intro t _ _ hin
      exact absurd hin List.not_mem_nil
  | cons first rest ih =>
      intro t ht hphase hin
      rcases List.mem_cons.mp hin with rfl | hin
      · exact ⟨t, Nat.le_refl t, by simp only [polled, hphase]⟩
      · have hnext : (states (t + 1)).phase = .poll rest := by
          rw [(h t ht).2.phase]
          simp only [turn, hphase]
        obtain ⟨u, htu, hu⟩ := ih (t + 1) (by omega) hnext hin
        exact ⟨u, by omega, hu⟩

/-- Every child is polled again and again. -/
theorem polled_again (h : Stalled N states world b) {pid : Pid}
    (hpid : pid ∈ (states b).pidToName.keys) {c : Nat} (hc : b ≤ c) :
    ∃ u, c ≤ u ∧ polled (states u) = some pid := by
  obtain ⟨v, hcv, hlaunch⟩ := h.launch hc
  have hwait : (states (v + 1)).phase = .wait := by
    rw [(h v (by omega)).2.phase]
    simp only [turn, hlaunch]
  have hpoll : (states (v + 2)).phase =
      .poll ((world.get (v + 1)).order.arrange
        (states b).pidToName.keys) := by
    rw [(h (v + 1) (by omega)).2.phase]
    simp only [turn, hwait]
    rw [h.pids (by omega)]
  obtain ⟨u, hvu, hu⟩ := h.poll _ (v + 2) (by omega) hpoll
    ((IterOrder.mem_arrange _).mpr hpid)
  exact ⟨u, by omega, hu⟩

/-- Some child is tracked. -/
theorem exists_child (h : Stalled N states world b) :
    ∃ pid, pid ∈ (states b).pidToName.keys := by
  obtain ⟨v, hbv, hlaunch⟩ := h.launch (Nat.le_refl b)
  have hsome := (h v hbv).2.children hlaunch
  rw [h.pids hbv] at hsome
  exact List.exists_mem_of_ne_nil _ hsome

end Stalled

section Endless

variable {orders : BuildOrders} {services : List ServiceDef}
  {g : ServiceGraph}

/-- **The loop ends.**  On a built graph, if messages end and every child
ends, then the loop is left, whatever else happens. -/
theorem loop_ends (hg : ServiceGraph.build orders services = .ok (.ok g))
    (cfg : Config) (readFile : String → Except String String)
    (order : IterOrder String) (world : Stream' World)
    (hmessages : MessagesEnd world)
    (hchildren : ChildrenEnd
      (loopAfter cfg readFile order g services world) world) :
    ∃ t, (loopAfter cfg readFile order g services world t).phase.over =
      true := by
  let N := waitNet orders services
  let states := loopAfter cfg readFile order g services world
  obtain ⟨a, hquiet⟩ := hmessages
  have hnext : ∀ t, states (t + 1) = step cfg (world.get t) (states t) :=
    fun t => after_succ _ world t
  have hstep : ∀ t, a ≤ t → (states t).phase.over = false →
      Works N (states t) (states (t + 1)) ∨
        Turns N (world.get t) (states t) (states (t + 1)) := by
    intro t ht hgoing
    rw [hnext]
    exact step_works_or_turns (queued_run hg cfg readFile order _) cfg
      (hquiet t ht).1 (hquiet t ht).2 hgoing
  refine ends_of_work (fun t => workLeft N (states t)) a ?_ ?_
  · intro t ht hgoing
    rcases hstep t ht (Bool.eq_false_iff.mpr hgoing) with
      (hover | hless) | hturns
    · exact .inl hover
    · exact .inr (Nat.le_of_lt hless)
    · exact .inr (Nat.le_of_eq hturns.work)
  · intro b hab hgoing hconst
    have hstalled : Stalled N states world b := by
      intro t ht
      have hgoing' := Bool.eq_false_iff.mpr (hgoing t ht)
      refine ⟨hgoing', ?_⟩
      rcases hstep t (by omega) hgoing' with (hover | hless) | hturns
      · exact absurd hover (hgoing (t + 1) (by omega))
      · have hsame := (hconst (t + 1) (by omega)).trans (hconst t ht).symm
        exact absurd hsame (Nat.ne_of_lt hless)
      · exact hturns
    obtain ⟨pid, hpid⟩ := hstalled.exists_child
    have htracked : ∀ t, b ≤ t → pid ∈ (states t).pidToName.keys := by
      intro t ht
      rw [hstalled.pids ht]
      exact hpid
    obtain ⟨d, hd⟩ := hchildren b pid hpid
    obtain ⟨u, hu, hpolled⟩ :=
      hstalled.polled_again hpid (Nat.le_max_left b d)
    have hloud := hd u (by omega) (fun v hv _ => htracked v hv) hpolled
    have hworks := step_works_of_polled (N := N) cfg hpolled
      (htracked u (by omega)) hloud
    rw [← hnext] at hworks
    rcases hworks with hover | hless
    · exact hgoing (u + 1) (by omega) hover
    · have hsame := (hconst (u + 1) (by omega)).trans
        (hconst u (by omega)).symm
      exact absurd hsame (Nat.ne_of_lt hless)

/-! ## Boots that complete -/

/-- No command and no shutdown; forking works, `waitpid` reports only ends,
and the users of all services exist. -/
structure Spawning (services : List ServiceDef) (w : World) : Prop where
  command : w.command = none
  shutdown : w.shutdown = false
  forking : Forking w
  accepted : ∀ svc ∈ services, rejected w svc = false

/-- Without a command only definitions in force are handed to
`spawn_service`. -/
theorem exists_lookup_of_handed {cfg : Config} {w : World} {s : State}
    {svc : ServiceDef} (hcommand : w.command = none)
    (h : handed cfg w s = some svc) :
    ∃ n, s.svcByName.lookup n = some svc := by
  unfold handed at h
  split at h
  · rename_i hsome
    rw [hcommand] at hsome
    cases hsome
  · obtain ⟨n, _, hn⟩ := Option.bind_eq_some_iff.mp h
    exact ⟨n, hn⟩

/-- What a boot under way keeps when nothing can fail to spawn. -/
structure Booting (N : Net String) (g : ServiceGraph)
    (services : List ServiceDef) (s : State) : Prop where
  quiet : QuietState N g s
  defined : Defined s
  defs : ∀ n svc, s.svcByName.lookup n = some svc → svc ∈ services
  alive : s.phase.dead = false
  running : s.phase ≠ .shutdown

namespace Booting

variable {N : Net String} {cfg : Config} {w : World} {s : State}

/-- No step fails or panics. What is handed to `spawn_service` are definitions
of the boot, which are all accepted and can all be split. -/
theorem alive_step (h : Booting N g services s) (hw : Spawning services w)
    (hsplit : ∀ svc ∈ services, Splittable svc) :
    (step cfg w s).phase.dead = false := by
  have herrs : s.phase.errs = false := by
    have halive := h.alive
    cases hphase : s.phase with
    | failed e =>
        rw [hphase] at halive
        cases halive
    | _ => rfl
  have hpanicked : s.phase ≠ .panicked := by
    intro hphase
    have halive := h.alive
    rw [hphase] at halive
    cases halive
  have hcase := step_cases cfg w s
  have hfine := (step_errs_iff hw.forking hcase herrs).mpr
    (fun n _ svc hsvc => hw.accepted svc (h.defs n svc hsvc))
  have hcalm := (step_panics_iff hcase h.defined hpanicked).mpr
    (fun svc hsvc => by
      obtain ⟨n, hn⟩ := exists_lookup_of_handed hw.command hsvc
      exact hsplit svc (h.defs n svc hn))
  cases hphase : (step cfg w s).phase with
  | failed e =>
      rw [hphase] at hfine
      cases hfine
  | panicked => exact absurd hphase hcalm
  | _ => rfl

/-- Without the shutdown flag no step leads to the shutdown. The flag is read
at the top of the loop, and no other place goes there. -/
theorem running_step (h : Booting N g services s) (hw : Spawning services w)
    (halive : (step cfg w s).phase.dead = false) :
    (step cfg w s).phase ≠ .shutdown := by
  intro hshut
  cases hover : s.phase.over with
  | false =>
      rcases step_over hover (by rw [hshut]; rfl) with
        hdead | ⟨_, hflag⟩ | ⟨exit, hleft⟩
      · rw [halive] at hdead
        cases hdead
      · rw [hw.shutdown] at hflag
        cases hflag
      · rw [hshut] at hleft
        cases hleft
  | true =>
      cases hphase : s.phase with
      | shutdown => exact h.running hphase
      | left exit =>
          simp only [FlintInit.step, hphase] at hshut
          cases hshut
      | returned =>
          simp only [FlintInit.step, hphase] at hshut
          cases hshut
      | failed e =>
          simp only [FlintInit.step, hphase] at hshut
          cases hshut
      | panicked =>
          simp only [FlintInit.step, hphase] at hshut
          cases hshut
      | _ =>
          rw [hphase] at hover
          cases hover

/-- A boot under way goes on: nothing fails, nothing panics, and the
definitions stay those of the boot. -/
theorem step (h : Booting N g services s) (hw : Spawning services w)
    (hsplit : ∀ svc ∈ services, Splittable svc)
    (hready : ∀ n ∈ readyMessage w s, ∃ e ∈ s.log,
      e.launchedName = some n) :
    Booting N g services (FlintInit.step cfg w s) := by
  have halive : (FlintInit.step cfg w s).phase.dead = false :=
    h.alive_step hw hsplit
  refine ⟨?_, h.defined.step cfg w, ?_, halive, h.running_step hw halive⟩
  · have hquiet := QuietState.step cfg w
      ⟨hw.command, hw.forking.waitpid, hready⟩ (.inr h.quiet)
    rcases hquiet with hdead | hquiet
    · rw [halive] at hdead
      cases hdead
    · exact hquiet
  · rcases step_defs cfg w s with hsame | ⟨_, _, _, _, _, hcommand, _⟩
    · rw [hsame]
      exact h.defs
    · rw [hw.command] at hcommand
      cases hcommand

end Booting

/-- **A boot completes.**  On a built graph, without commands and shutdown,
when every service can be spawned and is reported ready only once launched:
if the messages end and every child ends, `run_with_marker` returns with its
marker written, no child left and every service over. -/
theorem boot_completes
    (hg : ServiceGraph.build orders services = .ok (.ok g))
    (cfg : Config) (readFile : String → Except String String)
    (order : IterOrder String) (world : Stream' World)
    (hworld : ∀ t, Spawning services (world.get t))
    (hsplit : ∀ svc ∈ services, Splittable svc)
    (hready : ∀ t, let s := loopAfter cfg readFile order g services world t
      ∀ n ∈ readyMessage (world.get t) s, ∃ e ∈ s.log,
        e.launchedName = some n)
    (hmessages : ∃ a, ∀ t, a ≤ t → (world.get t).ready = none)
    (hchildren : ChildrenEnd
      (loopAfter cfg readFile order g services world) world) :
    ∃ t, let s := loopAfter cfg readFile order g services world t
      s.phase = .returned ∧ s.marker = cfg.readyMarker ∧
        s.pidToName.keys = [] ∧
        ∀ x ∈ services.map ServiceDef.name,
          ∃ st, s.serviceStates.lookup x = some st ∧ st.over = true := by
  let states := loopAfter cfg readFile order g services world
  have hnext : ∀ t, states (t + 1) = step cfg (world.get t) (states t) :=
    fun t => after_succ _ world t
  have hbooting : ∀ t, Booting (waitNet orders services) g services
      (states t) := by
    intro t
    induction t with
    | zero =>
        exact ⟨initial_quiet hg cfg readFile order, nofun,
          fun n svc hsvc => mem_of_initial_defs hsvc, rfl, nofun⟩
    | succ t ih =>
        rw [hnext]
        exact ih.step (hworld t) hsplit (hready t)
  have hover : ∃ t, (states t).phase.over = true := by
    obtain ⟨a, ha⟩ := hmessages
    exact loop_ends hg cfg readFile order world
      ⟨a, fun t ht => ⟨(hworld t).command, ha t ht⟩⟩ hchildren
  -- the first time at which the loop has been left
  obtain ⟨t, htover, hfirst⟩ :=
    (⟨Nat.find hover, Nat.find_spec hover, fun u => Nat.find_min hover⟩ :
      ∃ t, (states t).phase.over = true ∧
        ∀ u, u < t → ¬ (states u).phase.over = true)
  cases t with
  | zero => cases htover
  | succ t =>
      have hgoing : (states t).phase.over = false :=
        Bool.eq_false_iff.mpr (hfirst t (Nat.lt_succ_self t))
      have hb := hbooting (t + 1)
      have hleft : ∃ exit, (states (t + 1)).phase = .left exit := by
        rw [hnext] at htover hb ⊢
        rcases step_over hgoing htover with hdead | ⟨hshut, _⟩ | hleft
        · rw [hb.alive] at hdead
          cases hdead
        · exact absurd hshut hb.running
        · exact hleft
      obtain ⟨exit, hexit⟩ := hleft
      obtain ⟨hempty, htest⟩ : (states (t + 1)).toStart = [] ∧
          exit.Test (states (t + 1)) := by
        rw [hnext] at hexit ⊢
        exact step_left_test hexit
      have hlive : ∀ p, (states (t + 1)).view.live p = none := by
        cases exit with
        | allCompleted =>
            exact hb.quiet.verdicts.lives.counted.no_live htest
        | noChildren => exact keys_eq_nil_iff.mp htest
      have hstep : states (t + 2) = { states (t + 1) with
          phase := .returned
          marker := cfg.readyMarker } := by
        rw [hnext (t + 1)]
        simp only [step, hexit, (hworld (t + 1)).shutdown]
        rfl
      refine ⟨t + 2, ?_⟩
      intro s
      have hs : s = { states (t + 1) with
          phase := .returned
          marker := cfg.readyMarker } := hstep
      rw [hs]
      refine ⟨rfl, rfl, keys_eq_nil_iff.mpr hlive, ?_⟩
      intro x hx
      have hall := hb.quiet.verdicts.all_counted
        (fun y hy => (build_built hg).acc y (mem_waitNet_nodes.mp hy)) hempty
        hlive (mem_waitNet_nodes.mpr hx)
      exact hb.quiet.verdicts.lives.ended x hall.2

end Endless

/-- Every child has ended by the time it is polled. -/
def World.reaping : World := { World.idle with waitpid := .exited 0 }

/-- When every poll reports an end, every child ends. -/
theorem childrenEnd_reaping (states : Nat → State) :
    ChildrenEnd states (Stream'.const .reaping) :=
  fun _ _ _ => ⟨0, fun _ _ _ _ => rfl⟩

/-- A job that is to be respawned unconditionally. -/
def respawnedJob : List ServiceDef := [restarted "job" .always]

/-- Each of the six processes is found to have ended, and only then is the loop
left. -/
theorem loop_ends_respawned :
    ∃ g, ServiceGraph.build .asStored respawnedJob = .ok (.ok g) ∧
      let states := loopAfter .bare (fun _ => .error "") (.asStored _) g
        respawnedJob (Stream'.const .reaping)
      (states 35).view.spawned = List.replicate 6 "job" ∧
        (states 35).phase.over = false ∧ ∃ t, (states t).phase.over = true :=
  ⟨_, rfl, by decide +kernel, by decide +kernel, loop_ends
    (rfl : ServiceGraph.build .asStored respawnedJob = .ok (.ok _)) .bare
    (fun _ => .error "") (.asStored _) (Stream'.const .reaping)
    ⟨0, fun _ _ => ⟨rfl, rfl⟩⟩ (childrenEnd_reaping _)⟩

/-- Both services exit, and the boot is over for `web`, too. -/
theorem boot_completes_db_and_web :
    ∃ g, ServiceGraph.build .asStored dbAndWeb = .ok (.ok g) ∧
      ∃ t,
        let s := loopAfter .bare (fun _ => .error "") (.asStored _) g
          dbAndWeb (Stream'.const .reaping) t
        s.phase = .returned ∧
          ∃ st, s.serviceStates.lookup "web" = some st ∧ st.over = true := by
  have hspawning : Spawning dbAndWeb .reaping :=
    ⟨rfl, rfl, ⟨fun _ => ⟨_, rfl⟩, rfl⟩, by decide⟩
  have hsilent : ∀ s, readyMessage .reaping s = none := by
    intro s
    unfold readyMessage
    split <;> rfl
  obtain ⟨t, hphase, -, -, hover⟩ := boot_completes
    (rfl : ServiceGraph.build .asStored dbAndWeb = .ok (.ok _)) .bare
    (fun _ => .error "") (.asStored _) (Stream'.const .reaping)
    (fun _ => hspawning) (by decide)
    (fun t n hn => by
      have hsome : readyMessage .reaping _ = some n := hn
      rw [hsilent] at hsome
      cases hsome)
    ⟨0, fun _ _ => rfl⟩ (childrenEnd_reaping _)
  exact ⟨_, rfl, t, hphase, hover "web" (by decide)⟩

end FlintInit
