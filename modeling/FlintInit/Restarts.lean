import FlintInit.Panics
import FlintInit.ServiceRecords

/-!
# How often a service is restarted

`Life` is what becomes of one service: it waits for its launch, it is up after
a number of restarts, or it is over.  Only the statuses its own processes end
with move it on, and `after_eq` says where a list of statuses leads: each of
them is answered by a restart until one asks for none or five restarts are
used up.

The loop follows these lives side by side.  In a run without commands and
shutdown, in which every spawn succeeds, a step of the loop is a step of one
life at most (`step_life`), and so the runs of a service and the state it ends
in depend on its own statuses only.
-/

namespace FlintInit

open Collections Release Runs

/-! ## The life of one service -/

/-- Where a service is: up after `used` restarts, or over in the state `st`
after `runs` processes. -/
inductive Life where
  | waiting
  | up (used : Nat)
  | past (runs : Nat) (st : ServiceState)
  deriving DecidableEq

/-- The statuses before the first one that asks for no restart. -/
def restarting (policy : Option RestartPolicy) (seen : List Ending) : Nat :=
  (seen.takeWhile (·.restarts policy)).length

namespace Life

/-- A process of the service ends. -/
def ends (policy : Option RestartPolicy) : Life → Ending → Life
  | .waiting, _ => .waiting
  | .up used, ending =>
      if ending.restarts policy && used < maxRestarts then .up (used + 1)
      else
        .past (used + 1)
          (if ending.restarts policy then .failed else .exited ending.code)
  | .past runs st, _ => .past runs st

/-- Where the statuses `seen` lead from the launch on. -/
def after (policy : Option RestartPolicy) (seen : List Ending) : Life :=
  seen.foldl (ends policy) (.up 0)

variable {policy : Option RestartPolicy}

/-- A life that is over stays as it is, whatever statuses follow. -/
theorem foldl_past (runs : Nat) (st : ServiceState) (seen : List Ending) :
    seen.foldl (ends policy) (.past runs st) = .past runs st := by
  induction seen with
  | nil => rfl
  | cons ending seen ih => exact ih

/-- **Where statuses lead**, from a service that has used some restarts. The
induction is on the statuses: one that asks for a restart uses up one more, up
to the bound, and one that asks for none is the last that counts. -/
theorem foldl_up :
    ∀ (seen : List Ending) (used : Nat), used ≤ maxRestarts →
      seen.foldl (ends policy) (.up used) =
        if maxRestarts < used + restarting policy seen then
          .past (maxRestarts + 1) .failed
        else
          match seen[restarting policy seen]? with
          | some ending =>
              .past (used + restarting policy seen + 1) (.exited ending.code)
          | none => .up (used + restarting policy seen) := by
  intro seen
  induction seen with
  | nil =>
      intro used hused
      have hno : ¬ maxRestarts < used + restarting policy [] := by
        change ¬ maxRestarts < used + 0
        omega
      rw [if_neg hno]
      rfl
  | cons ending seen ih =>
      intro used hused
      rw [List.foldl_cons]
      cases hrestart : ending.restarts policy with
      | false =>
          have hzero : restarting policy (ending :: seen) = 0 := by
            simp [restarting, hrestart]
          have hno : ¬ maxRestarts < used + 0 := by omega
          rw [hzero, if_neg hno]
          have hends : ends policy (.up used) ending =
              .past (used + 1) (.exited ending.code) := by
            simp [ends, hrestart]
          rw [hends, foldl_past]
          rfl
      | true =>
          have hsucc : restarting policy (ending :: seen) =
              restarting policy seen + 1 := by
            simp [restarting, hrestart]
          rw [hsucc, List.getElem?_cons_succ]
          by_cases hlast : used < maxRestarts
          · have hends : ends policy (.up used) ending = .up (used + 1) := by
              simp [ends, hrestart, hlast]
            have hsum : used + 1 + restarting policy seen =
                used + (restarting policy seen + 1) := by omega
            rw [hends, ih (used + 1) hlast, hsum]
          · have hends : ends policy (.up used) ending =
                .past (used + 1) .failed := by
              simp [ends, hrestart, hlast]
            have hfull : used = maxRestarts := by omega
            rw [hends, foldl_past, hfull, if_pos (by omega)]

/-- The same from the launch on. -/
theorem after_eq (policy : Option RestartPolicy) (seen : List Ending) :
    after policy seen =
      if maxRestarts < restarting policy seen then
        .past (maxRestarts + 1) .failed
      else
        match seen[restarting policy seen]? with
        | some ending =>
            .past (restarting policy seen + 1) (.exited ending.code)
        | none => .up (restarting policy seen) := by
  have h := @foldl_up policy seen 0 (Nat.zero_le _)
  rw [Nat.zero_add] at h
  exact h

/-- A life that is over stays as it is, whatever statuses would follow. -/
theorem after_of_prefix {seen all : List Ending} {runs : Nat}
    {st : ServiceState} (hfront : seen <+: all)
    (hpast : after policy seen = .past runs st) :
    after policy all = .past runs st := by
  obtain ⟨rest, rfl⟩ := hfront
  rw [after, List.foldl_append]
  rw [after] at hpast
  rw [hpast, foldl_past]

end Life

/-- The entries of a service at a place of its life. -/
def Life.Shown : Life → Record → Prop
  | .waiting, r => r.spawned = 0 ∧ r.used = 0 ∧ (r.counted → r.popped) ∧
      ∀ pid, ¬ r.live pid
  | .up used, r => r.spawned = used + 1 ∧ r.used = used ∧
      used ≤ maxRestarts ∧ (∃ st, r.state = some st ∧ st.up = true) ∧
      r.popped ∧ ¬ r.counted ∧ ∀ p q, r.live p → r.live q → p = q
  | .past runs st, r => r.spawned = runs ∧ r.state = some st ∧
      st.up = false ∧ r.popped ∧ r.reported ∧ ∀ pid, ¬ r.live pid

/-- Skipping the service itself spawns nothing. -/
theorem shown_skipBlocked {s : State} {n : String}
    (h : Life.waiting.Shown (s.record n))
    (hpopped : (s.record n).popped) :
    Life.waiting.Shown ((skipBlocked s n).record n) := by
  have hskip : (skipBlocked s n).record n =
      ((((s.note (.blocked n)).setState n .failed).blockDependents
        n).markReady n).record n := rfl
  have hblock : (((s.note (.blocked n)).setState n .failed).blockDependents
      n).record n = ((s.note (.blocked n)).setState n .failed).record n := rfl
  rw [hskip, record_markReady, hblock, record_setState]
  exact ⟨h.1, h.2.1, fun _ => hpopped, h.2.2.2⟩

/-! ## One step -/

def Outcome.isOk {α : Type} : Outcome α → Bool
  | .ok _ => true
  | _ => false

/-- The children that have not been reaped when this step comes to spawn. -/
def childrenAt (w : World) (s : State) : List Pid :=
  match endedChild w s with
  | some (pid, _, _) => (s.pidToName.erase pid).keys
  | none => s.pidToName.keys

/-- What the step spawns is spawned. -/
def SpawnsSucceed (cfg : Config) (w : World) (s : State) : Prop :=
  ∀ svc ∈ handed cfg w s, (spawnService w (childrenAt w s) svc).isOk = true

instance (cfg : Config) (w : World) (s : State) :
    Decidable (SpawnsSucceed cfg w s) :=
  inferInstanceAs (Decidable (∀ svc ∈ handed cfg w s, _))

/-- No command, no shutdown, and no spawn that fails. -/
def Unattended (cfg : Config) (w : World) (s : State) : Prop :=
  (w.command = none ∧ w.shutdown = false) ∧ SpawnsSucceed cfg w s

instance (cfg : Config) (w : World) (s : State) :
    Decidable (Unattended cfg w s) :=
  inferInstanceAs (Decidable (_ ∧ _))

/-- The status of a process of the service that ends in this step. -/
def observed (n : String) (w : World) (s : State) : List Ending :=
  match endedChild w s with
  | some (_, m, ending) => if m = n then [ending] else []
  | none => []

/-- The statuses lead from one place of a life to the next; without any, a
service that waits may be launched. -/
def Life.Moves (policy : Option RestartPolicy) (life : Life)
    (seen : List Ending) (life' : Life) : Prop :=
  (life' = seen.foldl (Life.ends policy) life ∧
      (life = .waiting → seen = [])) ∨
    (life = .waiting ∧ seen = [] ∧ life' = .up 0)

/-- Without a status a life may stay where it is. -/
theorem Life.Moves.stay {policy : Option RestartPolicy} {life : Life} :
    life.Moves policy [] life :=
  .inl ⟨rfl, fun _ => rfl⟩

/-- The end of a child is observed for its own service only. -/
theorem observed_of_ended {n m : String} {w : World} {s : State} {pid : Pid}
    {ending : Ending} (h : endedChild w s = some (pid, m, ending)) :
    observed n w s = if m = n then [ending] else [] := by
  simp only [observed, h]

/-- Where no child ends nothing is observed. -/
theorem observed_of_none {n : String} {w : World} {s : State}
    (h : endedChild w s = none) : observed n w s = [] := by
  simp only [observed, h]

/-- A spawn that succeeds tracks a child. -/
theorem spawnOrReturn_of_isOk (w : World) (s : State) (cause : Cause)
    (n : String) (svc : ServiceDef)
    (h : (spawnService w s.pidToName.keys svc).isOk = true) :
    ∃ pid, s.view.live pid = none ∧
      spawnOrReturn w s cause n svc = s.track cause n pid := by
  unfold spawnOrReturn
  cases hspawn : spawnService w s.pidToName.keys svc with
  | panicked => rw [hspawn] at h; cases h
  | error e => rw [hspawn] at h; cases h
  | ok pid => exact ⟨pid, spawnService_fresh hspawn, rfl⟩

section Step

variable {N : Net String} {cfg : Config} {w : World} {s : State}
  {n : String} {svc : ServiceDef} {life : Life}

/-- The launch loop takes the service itself. It is the first time, so the
service was waiting; it stays so if it is blocked, and otherwise has its first
process. -/
theorem life_launch {rest : List String} (hq : Queued N s.view)
    (hphase : s.phase = .launch) (hqueue : s.toStart = rest ++ [n])
    (hsvc : s.svcByName.lookup n = some svc)
    (hspawn : SpawnsSucceed cfg w s) (hlife : life.Shown (s.record n)) :
    life = .waiting ∧ ∃ life', (life' = Life.waiting ∨ life' = .up 0) ∧
      life'.Shown
        ((launchService w { s with toStart := rest } n).record n) := by
  have hnew : n ∉ s.view.popped := hq.notMem_popped hqueue
  have hwaiting : life = .waiting := by
    cases life with
    | waiting => rfl
    | up used => exact absurd hlife.2.2.2.2.1 hnew
    | past runs st => exact absurd hlife.2.2.2.1 hnew
  subst hwaiting
  refine ⟨rfl, ?_⟩
  have hended : endedChild w s = none := by
    simp only [endedChild, hphase]
  have hpop : nextPop s = some n := by
    simp [nextPop, hphase, pop_eq_some.mpr hqueue]
  have htaken : (({ s with toStart := rest } : State).note
      (.popped n)).record n = { s.record n with popped := True } :=
    record_popped { s with toStart := rest } n
  rcases launchService_cases w { s with toStart := rest } n with
    ⟨_, heq⟩ | ⟨_, hnone, _⟩ | ⟨svc', hblocked, hsvc', heq⟩
  · refine ⟨.waiting, .inl rfl, ?_⟩
    rw [heq]
    apply shown_skipBlocked
    · rw [htaken]
      exact ⟨hlife.1, hlife.2.1, fun _ => True.intro, hlife.2.2.2⟩
    · rw [htaken]
      exact True.intro
  · change s.svcByName.lookup n = none at hnone
    rw [hsvc] at hnone
    cases hnone
  · refine ⟨.up 0, .inr rfl, ?_⟩
    change n ∉ s.blockedServices at hblocked
    have hsame : svc' = svc := Option.some.inj (hsvc'.symm.trans hsvc)
    subst hsame
    have hhanded : handed cfg w s = some svc' := by
      rw [handed_of_phase (by simp [hphase])]
      simp [ownSpawn, hpop, hblocked, hsvc]
    have hok := hspawn svc' hhanded
    obtain ⟨removed, hstale⟩ := removeStale_eq
      (({ s with toStart := rest } : State).note (.popped n)) svc'
    have hpids : (removeStale (({ s with toStart := rest } : State).note
        (.popped n)) svc').pidToName = s.pidToName := by
      rw [hstale]
      rfl
    obtain ⟨pid, hfresh, hspawned⟩ := spawnOrReturn_of_isOk w
      (removeStale (({ s with toStart := rest } : State).note (.popped n))
        svc')
      .launch n svc' (by
        rw [hpids]
        simpa only [childrenAt, hended] using hok)
    rw [heq, hspawned, record_track, record_removeStale, htaken]
    obtain ⟨hnone, hused, hcounted, hidle⟩ := hlife
    refine ⟨?_, hused, Nat.zero_le _, ⟨_, rfl, rfl⟩, True.intro, ?_, ?_⟩
    · dsimp only
      rw [hnone]
    · exact fun hcount => hnew (hcounted hcount)
    · intro p q hp hq
      have hp := hp.resolve_right (hidle p)
      have hq := hq.resolve_right (hidle q)
      rw [hp, hq]

/-- The process of the service ends, and the life goes on as the policy
says. -/
theorem life_auto {pid : Pid} {rest : List Pid} {ending : Ending}
    (hphase : s.phase = .poll (pid :: rest))
    (hend : w.waitpid.ending = some ending)
    (hlive : s.pidToName.lookup pid = some n)
    (hpending : n ∉ s.pendingRestart)
    (hdue : restartDue w s n ending = true)
    (hsvc : s.svcByName.lookup n = some svc)
    (hspawn : SpawnsSucceed cfg w s) (hlife : life.Shown (s.record n)) :
    life ≠ .waiting ∧ (life.ends svc.service.restart ending).Shown
      ((autoRestart w { s.reapChild pid rest with
        restartCounts := entry s.restartCounts n 0 (· + 1) } n).record
          n) := by
  have hended := endedChild_of_poll hphase hend hlive
  have hhanded : handed cfg w s = some svc := by
    rw [handed_of_phase (by simp [hphase])]
    simp [ownSpawn, nextPop, hended, hphase, hpending, hdue, hsvc]
  have hok := hspawn svc hhanded
  simp only [childrenAt, hended] at hok
  cases life with
  | waiting => exact absurd hlive (hlife.2.2.2 pid)
  | past runs st => exact absurd hlive (hlife.2.2.2.2.2 pid)
  | up used =>
      refine ⟨by simp, ?_⟩
      obtain ⟨hspawned, hused, hle, hup, hpopped, hcounted, hsingle⟩ := hlife
      have hpolicy : policyOf s n = svc.service.restart := by
        simp [policyOf, hsvc]
      have hused' : restartsUsed s n = used := hused
      rw [restartDue, hpolicy, hused', Bool.and_eq_true] at hdue
      have hends : (Life.up used).ends svc.service.restart ending =
          .up (used + 1) := if_pos hdue.1
      have hlt : used < maxRestarts := by
        have hboth := hdue.1
        rw [Bool.and_eq_true] at hboth
        exact of_decide_eq_true hboth.2
      have hbase : ({ s.reapChild pid rest with
          restartCounts := entry s.restartCounts n 0 (· + 1) } :
            State).record n = { s.record n with
              used := (s.record n).used + 1
              live := fun p => p ≠ pid ∧ (s.record n).live p } :=
        (record_counts (s.reapChild pid rest) n (· + 1)).trans
          (by rw [record_reap])
      obtain ⟨new, hfresh, hnew⟩ := spawnOrReturn_of_isOk w
        { s.reapChild pid rest with
          restartCounts := entry s.restartCounts n 0 (· + 1) }
        .autoRestart n svc hok
      rw [autoRestart_of_defined w _ n svc (by exact hsvc), hnew,
        record_track, hbase, hends]
      refine ⟨?_, ?_, hlt, ⟨_, rfl, rfl⟩, hpopped, hcounted, ?_⟩
      · dsimp only
        rw [hspawned]
      · dsimp only
        rw [hused]
      · -- the old process was the only one
        have hgone : ∀ p, ¬ (p ≠ pid ∧ (s.record n).live p) :=
          fun p hp => hp.1 (hsingle p pid hp.2 hlive)
        intro p q hp hq
        have hp := hp.resolve_right (hgone p)
        have hq := hq.resolve_right (hgone q)
        rw [hp, hq]

/-- The process of the service ends for good. It does because the status asks
for no restart, or because all restarts are used; that is what sets the states
`exited` and `failed` apart. -/
theorem life_finish {pid : Pid} (rest : List Pid) {ending : Ending}
    (hlive : s.pidToName.lookup pid = some n)
    (hshutdown : w.shutdown = false)
    (hdue : restartDue w s n ending = false)
    (hsvc : s.svcByName.lookup n = some svc)
    (hlife : life.Shown (s.record n)) :
    life ≠ .waiting ∧ (life.ends svc.service.restart ending).Shown
      ((finishService { s.reapChild pid rest with
        restartCounts := entry s.restartCounts n 0 id } n ending).record
          n) := by
  cases life with
  | waiting => exact absurd hlive (hlife.2.2.2 pid)
  | past runs st => exact absurd hlive (hlife.2.2.2.2.2 pid)
  | up used =>
      refine ⟨by simp, ?_⟩
      obtain ⟨hspawned, hused, hle, hup, hpopped, hcounted, hsingle⟩ := hlife
      have hpolicy : policyOf s n = svc.service.restart := by
        simp [policyOf, hsvc]
      have hused' : restartsUsed s n = used := hused
      rw [restartDue, hpolicy, hused', hshutdown, Bool.not_false,
        Bool.and_true] at hdue
      have hends : (Life.up used).ends svc.service.restart ending =
          .past (used + 1) (if ending.restarts svc.service.restart
            then .failed else .exited ending.code) :=
        if_neg (by rw [hdue]; exact Bool.false_ne_true)
      have hbase : ({ s.reapChild pid rest with
          restartCounts := entry s.restartCounts n 0 id } :
            State).record n = { s.record n with
              live := fun p => p ≠ pid ∧ (s.record n).live p } :=
        (record_counts (s.reapChild pid rest) n id).trans
          (by rw [record_reap]; rfl)
      have hexhausted : restartExhausted { s.reapChild pid rest with
          restartCounts := entry s.restartCounts n 0 id } n ending =
          ending.restarts svc.service.restart := by
        have hcount : restartsUsed { s.reapChild pid rest with
            restartCounts := entry s.restartCounts n 0 id } n = used := by
          rw [← hused']
          simp [restartsUsed, lookup_entry]
        have hpolicy' : policyOf { s.reapChild pid rest with
            restartCounts := entry s.restartCounts n 0 id } n =
            svc.service.restart := hpolicy
        rw [restartExhausted, hcount, hpolicy']
        cases hrestart : ending.restarts svc.service.restart with
        | false => rfl
        | true =>
            rw [hrestart, Bool.true_and] at hdue
            have hfull : ¬ used < maxRestarts := of_decide_eq_false hdue
            rw [Bool.true_and]
            exact decide_eq_true (by omega)
      rw [record_finishService, hexhausted, hbase, hends]
      refine ⟨hspawned, rfl, ?_, hpopped, True.intro, ?_⟩
      · split <;> rfl
      · intro p hp
        exact hp.1 (hsingle p pid hp.2 hlive)

/-- A readiness message leaves a life where it is. -/
theorem life_ready {m : String} (hlife : life.Shown (s.record n)) :
    life.Shown ((reportReady s m).record n) := by
  by_cases hm : m = n
  · subst hm
    by_cases hreported : m ∈ s.readyReported
    · rw [reportReady, if_pos hreported]
      exact hlife
    · rw [record_reportReady hreported]
      cases life with
      | waiting => exact hlife
      | past runs st => exact absurd hlife.2.2.2.2.1 hreported
      | up used =>
          obtain ⟨hspawned, hused, hle, -, hrest⟩ := hlife
          exact ⟨hspawned, hused, hle, ⟨_, rfl, rfl⟩, hrest⟩
  · rw [record_reportReady_other hm]
    exact hlife

/-- Neither does a child that `waitpid` does not know. -/
theorem life_lost {pid : Pid} {rest : List Pid}
    (hlife : life.Shown (s.record n)) :
    life.Shown (State.record { (s.reapChild pid rest).note (.lost pid) with
      completed := s.completed + 1 } n) := by
  have hreaped : State.record { (s.reapChild pid rest).note (.lost pid) with
      completed := s.completed + 1 } n =
      (s.reapChild pid rest).record n :=
    (record_congr rfl rfl rfl Iff.rfl fun _ => Iff.rfl).trans
      (record_note ⟨nofun, nofun, nofun⟩)
  rw [hreaped, record_reap]
  cases life with
  | waiting =>
      exact ⟨hlife.1, hlife.2.1, hlife.2.2.1,
        fun p hp => hlife.2.2.2 p hp.2⟩
  | up used =>
      obtain ⟨hspawned, hused, hle, hup, hpopped, hcounted, hsingle⟩ := hlife
      exact ⟨hspawned, hused, hle, hup, hpopped, hcounted,
        fun p q hp hq => hsingle p q hp.2 hq.2⟩
  | past runs st =>
      obtain ⟨hspawned, hstate, hup, hpopped, hreported, hidle⟩ := hlife
      exact ⟨hspawned, hstate, hup, hpopped, hreported,
        fun p hp => hidle p hp.2⟩

end Step

/-- **One step of the loop** is a step of one life at most: that of the
service whose process ends or which is launched. -/
theorem step_life {N : Net String} {cfg : Config} {w : World} {s s' : State}
    {n : String} {svc : ServiceDef} {life : Life}
    (hcase : StepCase cfg w s s') (hq : Queued N s.view)
    (hpending : s.pendingRestart = ∅)
    (hsvc : s.svcByName.lookup n = some svc) (hok : Unattended cfg w s)
    (hlife : life.Shown (s.record n)) :
    ∃ life' : Life, life'.Shown (s'.record n) ∧
      life.Moves svc.service.restart (observed n w s) life' := by
  obtain ⟨⟨hnocommand, hshutdown⟩, hspawn⟩ := hok
  cases hcase with
  | still phase marker hdead hpop hended hcommand =>
      rw [observed_of_none hended]
      exact ⟨life, hlife, .stay⟩
  | command hphase hcommand =>
      rw [hnocommand] at hcommand
      cases hcommand
  | @ready m phase hm hdead =>
      have hended := (alone_of_readyMessage hm).2.2
      rw [observed_of_none hended]
      exact ⟨life, life_ready hlife, .stay⟩
  | @pop m rest hphase hqueue =>
      have hended : endedChild w s = none := by
        simp only [endedChild, hphase]
      rw [observed_of_none hended]
      by_cases hm : m = n
      · subst hm
        obtain ⟨rfl, life', hlife', hshown⟩ :=
          life_launch hq hphase hqueue hsvc hspawn hlife
        refine ⟨life', hshown, ?_⟩
        rcases hlife' with rfl | rfl
        · exact .stay
        · exact .inr ⟨rfl, rfl, rfl⟩
      · refine ⟨life, ?_, .stay⟩
        have htaken : (({ s with toStart := rest } : State).note
            (.popped m)).record n = s.record n :=
          record_note ⟨by simp [Event.spawnedName],
            by simpa [Event.poppedName] using hm, by simp [Event.countedName]⟩
        rcases launchService_cases w { s with toStart := rest } m with
          ⟨_, heq⟩ | ⟨_, _, heq⟩ | ⟨svc', _, _, heq⟩
        · rw [heq, record_skipBlocked_other hm, htaken]
          exact hlife
        · rw [heq, htaken]
          exact hlife
        · rw [heq, record_spawnOrReturn_other hm, record_removeStale, htaken]
          exact hlife
  | @manual pid rest m ending hphase hend hlive hin =>
      rw [hpending] at hin
      exact absurd hin (Finset.notMem_empty m)
  | @auto pid rest m ending hphase hend hlive hin hdue =>
      have hended := endedChild_of_poll hphase hend hlive
      rw [observed_of_ended hended]
      by_cases hm : m = n
      · subst hm
        obtain ⟨hne, hshown⟩ :=
          life_auto hphase hend hlive hin hdue hsvc hspawn hlife
        rw [if_pos rfl]
        exact ⟨_, hshown, .inl ⟨rfl, fun h => absurd h hne⟩⟩
      · rw [if_neg hm]
        refine ⟨life, ?_, .stay⟩
        have hbase : ({ s.reapChild pid rest with
            restartCounts := entry s.restartCounts m 0 (· + 1) } :
              State).record n = s.record n :=
          (record_counts_other hm (· + 1)).trans
            (record_reap_other hm hlive rest)
        unfold autoRestart
        split
        · rw [← hbase] at hlife
          exact hlife
        · rw [record_spawnOrReturn_other hm, hbase]
          exact hlife
  | @finish pid rest m ending hphase hend hlive hin hdue =>
      have hended := endedChild_of_poll hphase hend hlive
      rw [observed_of_ended hended]
      by_cases hm : m = n
      · subst hm
        obtain ⟨hne, hshown⟩ :=
          life_finish rest hlive hshutdown hdue hsvc hlife
        rw [if_pos rfl]
        exact ⟨_, hshown, .inl ⟨rfl, fun h => absurd h hne⟩⟩
      · rw [if_neg hm]
        refine ⟨life, ?_, .stay⟩
        have hbase : ({ s.reapChild pid rest with
            restartCounts := entry s.restartCounts m 0 id } :
              State).record n = s.record n :=
          (record_counts_other hm id).trans (record_reap_other hm hlive rest)
        rw [record_finishService_other hm, hbase]
        exact hlife
  | @lost pid rest hphase hwait =>
      have hended : endedChild w s = none := by
        simp [endedChild, hphase, hwait, Waitpid.ending]
      rw [observed_of_none hended]
      exact ⟨life, life_lost hlife, .stay⟩
  | @refused pid rest errno hphase hwait =>
      have hended : endedChild w s = none := by
        simp [endedChild, hphase, hwait, Waitpid.ending]
      rw [observed_of_none hended]
      exact ⟨life, hlife, .stay⟩

/-! ## Runs -/

/-- The statuses the processes of a service end with in a run. -/
def statuses (cfg : Config) (readFile : String → Except String String)
    (order : IterOrder String) (g : ServiceGraph)
    (services : List ServiceDef) (ws : List World) (n : String) :
    List Ending :=
  collect (step cfg) (observed n) (initial cfg readFile order g services) ws

section Run

variable {orders : BuildOrders} {services : List ServiceDef}
  {g : ServiceGraph} {cfg : Config}
  {readFile : String → Except String String} {order : IterOrder String}
  {svc : ServiceDef} {ws : List World}

/-- What the run keeps, with the statuses seen so far. -/
structure Lived (N : Net String) (svc : ServiceDef) (seen : List Ending)
    (s : State) : Prop where
  queued : Queued N s.view
  pending : s.pendingRestart = ∅
  defn : s.svcByName.lookup svc.name = some svc
  life : (Life.waiting.Shown (s.record svc.name) ∧ seen = []) ∨
    (Life.after svc.service.restart seen).Shown (s.record svc.name)

/-- A step that spawns without failing takes the life of the service from the
statuses seen to those seen with this step. -/
theorem Lived.next {N : Net String} {seen : List Ending} {w : World}
    {s : State} (h : Lived N svc seen s) (hok : Unattended cfg w s) :
    Lived N svc (seen ++ observed svc.name w s) (step cfg w s) := by
  obtain ⟨t, hmove, -⟩ := step_move cfg w s
  have hcommand := hok.1.1
  refine ⟨h.queued.move hmove, ?_, ?_, ?_⟩
  · have hsub := step_pending cfg s (fun _ => hcommand)
    rw [h.pending] at hsub
    exact Finset.subset_empty.mp hsub
  · rcases step_defs cfg w s with hsame | ⟨_, _, _, _, _, hreload, _⟩
    · rw [hsame]
      exact h.defn
    · rw [hcommand] at hreload
      cases hreload
  · have hstep : ∀ life : Life, life.Shown (s.record svc.name) →
        ∃ life' : Life, life'.Shown ((step cfg w s).record svc.name) ∧
          life.Moves svc.service.restart (observed svc.name w s) life' :=
      fun life hlife => step_life (step_cases cfg w s) h.queued h.pending
        h.defn hok hlife
    rcases h.life with ⟨hwaiting, rfl⟩ | hafter
    · obtain ⟨life', hshown, hmoves⟩ := hstep _ hwaiting
      rcases hmoves with ⟨rfl, hnone⟩ | ⟨-, hnone, rfl⟩
      · rw [hnone rfl] at hshown ⊢
        exact .inl ⟨hshown, rfl⟩
      · rw [hnone]
        exact .inr hshown
    · obtain ⟨life', hshown, hmoves⟩ := hstep _ hafter
      rcases hmoves with ⟨rfl, -⟩ | ⟨hlife, -, -⟩
      · refine .inr ?_
        rw [Life.after, List.foldl_append]
        exact hshown
      · rw [Life.after_eq] at hlife
        split at hlife
        · cases hlife
        · split at hlife <;> cases hlife

/-- So the record of a service is told from its statuses at every moment of a
run. -/
theorem lived_run (hg : ServiceGraph.build orders services = .ok (.ok g))
    (hsvc : svc ∈ services)
    (hrun : EveryStep (Unattended cfg) cfg readFile order g services ws) :
    Lived (waitNet orders services) svc
      (statuses cfg readFile order g services ws svc.name)
      (runWithMarker cfg readFile order g services ws) := by
  have hname : svc.name ∈ services.map ServiceDef.name :=
    List.mem_map_of_mem hsvc
  refine collect_invariant
    (Lived (waitNet orders services) svc) (fun w s seen hok h => h.next hok)
    ws _ [] hrun ?_
  refine ⟨initial_queued cfg readFile order hg, rfl, ?_, .inl ⟨?_, rfl⟩⟩
  · obtain ⟨svc', hsvc'⟩ : ∃ svc',
        (initial cfg readFile order g services).svcByName.lookup svc.name =
          some svc' := exists_initial_defs hname
    have hsame : svc' = svc :=
      List.inj_on_of_nodup_map (build_built hg).nodup
        (mem_of_initial_defs hsvc') hsvc (name_of_initial_defs hsvc')
    rw [hsvc', hsame]
  · exact ⟨rfl, rfl, nofun, nofun⟩

/-- **The life of a launched service** is the one its statuses lead to. -/
theorem life_of_launched
    (hg : ServiceGraph.build orders services = .ok (.ok g))
    (hsvc : svc ∈ services)
    (hrun : EveryStep (Unattended cfg) cfg readFile order g services ws)
    (hlaunched : svc.name ∈
      (runWithMarker cfg readFile order g services ws).view.spawned) :
    (Life.after svc.service.restart
      (statuses cfg readFile order g services ws svc.name)).Shown
      ((runWithMarker cfg readFile order g services ws).record
        svc.name) := by
  have hlived := lived_run hg hsvc hrun
  rcases hlived.life with ⟨hwaiting, -⟩ | hafter
  · exact absurd (List.count_pos_iff.mpr hlaunched)
      (Nat.not_lt.mpr (Nat.le_of_eq hwaiting.1))
  · exact hafter

end Run

end FlintInit
