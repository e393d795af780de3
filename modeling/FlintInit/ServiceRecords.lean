import FlintInit.QuietBoot
import FlintInit.Steps

/-!
# The entries of one service

The loop keeps its books by name: processes spawned, restarts used, the state,
the launch queue, the services counted and reported, the table of children.
`State.record` is what they say about one service.  A branch of the loop that
is about another service leaves the record as it is; what a branch does to the
record of its own service is stated field by field.
-/

namespace FlintInit

open Collections

/-- The entries of one service. -/
@[ext] structure Record where
  spawned : Nat
  used : Nat
  state : Option ServiceState
  popped : Prop
  counted : Prop
  reported : Prop
  live : Pid → Prop

def State.record (s : State) (n : String) : Record where
  spawned := s.view.spawned.count n
  used := restartsUsed s n
  state := s.serviceStates.lookup n
  popped := n ∈ s.view.popped
  counted := n ∈ s.view.counted
  reported := n ∈ s.readyReported
  live pid := s.pidToName.lookup pid = some n

section Records

variable {s s' : State} {n m : String}

/-- The record of a service reads its rows of the tables and the log. -/
theorem record_congr (hlog : s'.log = s.log)
    (hcounts : s'.restartCounts.lookup n = s.restartCounts.lookup n)
    (hstates : s'.serviceStates.lookup n = s.serviceStates.lookup n)
    (hreported : n ∈ s'.readyReported ↔ n ∈ s.readyReported)
    (hlive : ∀ pid, s'.pidToName.lookup pid = some n ↔
      s.pidToName.lookup pid = some n) : s'.record n = s.record n := by
  simp [State.record, State.view, View.spawned, View.popped, View.counted,
    restartsUsed, hlog, hcounts, hstates, hreported, hlive]

/-- The log entry is not about the service. -/
def Event.Foreign (n : String) (e : Event) : Prop :=
  e.spawnedName ≠ some n ∧ e.poppedName ≠ some n ∧ e.countedName ≠ some n

/-- An event about another service does not touch the record. -/
theorem record_note {e : Event} (he : e.Foreign n) :
    (s.note e).record n = s.record n := by
  obtain ⟨hspawned, hpopped, hcounted⟩ := he
  have hcount : ∀ log : List Event,
      ((e :: log).filterMap Event.spawnedName).count n =
        (log.filterMap Event.spawnedName).count n := by
    intro log
    rw [List.filterMap_cons]
    cases hname : e.spawnedName with
    | none => rfl
    | some x =>
        have hne : x ≠ n := fun heq => hspawned (by rw [hname, heq])
        exact List.count_cons_of_ne hne
  have hmem : ∀ (name : Event → Option String), name e ≠ some n →
      ∀ log : List Event, n ∈ (e :: log).filterMap name ↔
        n ∈ log.filterMap name := by
    intro name hname log
    simp [List.mem_filterMap, hname]
  simp only [State.record, State.view, State.note, View.spawned, View.popped,
    View.counted, restartsUsed, hcount, hmem _ hpopped, hmem _ hcounted]

/-- The state of another service is set. -/
theorem record_setState_other (h : m ≠ n) (st : ServiceState) :
    (s.setState m st).record n = s.record n := by
  refine record_congr rfl rfl ?_ Iff.rfl (fun _ => Iff.rfl)
  change (s.serviceStates.insert m st).lookup n = _
  rw [lookup_insert_eq, if_neg (Ne.symm h)]

/-- A child of another service is tracked. -/
theorem record_track_other (h : m ≠ n) {pid : Pid}
    (hfresh : s.pidToName.lookup pid = none) (cause : Cause) :
    (s.track cause m pid).record n = s.record n := by
  have hnoted : ((s.setState m (.running pid)).note
      (.spawned cause m pid)).record n = s.record n := by
    rw [record_note, record_setState_other h]
    exact ⟨by simpa [Event.spawnedName] using h, by simp [Event.poppedName],
      by simp [Event.countedName]⟩
  rw [← hnoted]
  refine record_congr rfl rfl rfl Iff.rfl (fun p => ?_)
  change (s.pidToName.insert pid m).lookup p = some n ↔
    s.pidToName.lookup p = some n
  rw [lookup_insert_eq]
  by_cases hp : p = pid
  · subst hp
    rw [if_pos rfl, hfresh]
    simp [h]
  · rw [if_neg hp]

/-- Marking a service moves no service on. -/
theorem record_markReady : (s.markReady m).record n = s.record n := by
  have hnoted : (s.note (.marked m)).record n = s.record n :=
    record_note ⟨by simp [Event.spawnedName], by simp [Event.poppedName],
      by simp [Event.countedName]⟩
  rw [← hnoted]
  exact record_congr rfl rfl rfl Iff.rfl (fun _ => Iff.rfl)

/-- The child of another service is taken off the table. -/
theorem record_reap_other (h : m ≠ n) {pid : Pid}
    (hlive : s.pidToName.lookup pid = some m) (rest : List Pid) :
    (s.reapChild pid rest).record n = s.record n := by
  refine record_congr rfl rfl rfl Iff.rfl (fun p => ?_)
  change (s.pidToName.erase pid).lookup p = some n ↔ _
  rw [lookup_erase_eq]
  by_cases hp : p = pid
  · subst hp
    rw [if_pos rfl, hlive]
    simp [h]
  · rw [if_neg hp]

/-- The count of another service is raised or read. -/
theorem record_counts_other (h : m ≠ n) (f : Nat → Nat) :
    ({ s with restartCounts := entry s.restartCounts m 0 f } :
      State).record n = s.record n := by
  refine record_congr rfl ?_ rfl Iff.rfl (fun _ => Iff.rfl)
  change (entry s.restartCounts m 0 f).lookup n = _
  rw [lookup_entry, if_neg (Ne.symm h)]

/-! ## The operations on the service itself -/

/-- A child that is tracked for a service is one spawn more, and the service
runs. -/
theorem record_track (s : State) (cause : Cause) (n : String) (pid : Pid) :
    (s.track cause n pid).record n = { s.record n with
      spawned := (s.record n).spawned + 1
      state := some (.running pid)
      live := fun p => p = pid ∨ (s.record n).live p } := by
  ext p
  · simp [State.record, State.track, State.setState, State.note, State.view,
      View.spawned, Event.spawnedName]
  · rfl
  · simp [State.record, State.track, State.setState, State.note,
      lookup_insert_eq]
  · simp [State.record, State.track, State.setState, State.note, State.view,
      View.popped, Event.poppedName]
  · simp [State.record, State.track, State.setState, State.note, State.view,
      View.counted, Event.countedName]
  · rfl
  · by_cases hp : p = pid
    · simp [State.record, State.track, State.setState, State.note,
        lookup_insert_eq, hp]
    · simp [State.record, State.track, State.setState, State.note,
        lookup_insert_eq, hp]

/-- A service that the launch loop takes is popped from then on. -/
theorem record_popped (s : State) (n : String) :
    (s.note (.popped n)).record n =
      { s.record n with popped := True } := by
  ext p
  · rfl
  · rfl
  · rfl
  · simp [State.record, State.note, State.view, View.popped,
      Event.poppedName]
  · rfl
  · rfl
  · rfl

/-- A child that is reaped is taken from the live ones. -/
theorem record_reap (s : State) (n : String) (pid : Pid) (rest : List Pid) :
    (s.reapChild pid rest).record n = { s.record n with
      live := fun p => p ≠ pid ∧ (s.record n).live p } := by
  ext p
  · rfl
  · rfl
  · rfl
  · rfl
  · rfl
  · rfl
  · by_cases hp : p = pid
    · simp [State.record, State.reapChild, lookup_erase_eq, hp]
    · simp [State.record, State.reapChild, lookup_erase_eq, hp]

/-- The count of restarts is the service's own row. -/
theorem record_counts (s : State) (n : String) (f : Nat → Nat) :
    ({ s with restartCounts := entry s.restartCounts n 0 f } :
      State).record n =
        { s.record n with used := f (s.record n).used } := by
  ext p
  · rfl
  · simp [State.record, restartsUsed, lookup_entry]
  · rfl
  · rfl
  · rfl
  · rfl
  · rfl

/-- A state that is set is the state shown. -/
theorem record_setState (s : State) (n : String) (st : ServiceState) :
    (s.setState n st).record n = { s.record n with state := some st } := by
  ext p
  · rfl
  · rfl
  · simp [State.record, State.setState]
  · rfl
  · rfl
  · rfl
  · rfl

/-- The names reported ready, with one more. -/
theorem record_report (s : State) (n : String) :
    ({ s with readyReported := insert n s.readyReported } :
      State).record n = { s.record n with reported := True } := by
  ext p
  · rfl
  · rfl
  · rfl
  · rfl
  · rfl
  · simp [State.record]
  · rfl

/-- A report about another service does not touch the record. -/
theorem record_report_other (h : m ≠ n) :
    ({ s with readyReported := insert m s.readyReported } :
      State).record n = s.record n := by
  refine record_congr rfl rfl rfl ?_ (fun _ => Iff.rfl)
  change n ∈ insert m s.readyReported ↔ _
  rw [Finset.mem_insert, or_iff_right (Ne.symm h)]

/-- An end for good is counted. -/
theorem record_finished (s : State) (n : String) (ending : Ending)
    (exhausted : Bool) :
    (s.note (.finished n ending exhausted)).record n =
      { s.record n with counted := True } := by
  ext p
  · rfl
  · rfl
  · rfl
  · rfl
  · simp [State.record, State.note, State.view, View.counted,
      Event.countedName]
  · rfl
  · rfl

/-! ## The branches of the loop -/

/-- A readiness file that is deleted is no part of the record. -/
theorem record_removeStale (s : State) (n : String) (svc : ServiceDef) :
    (removeStale s svc).record n = s.record n := by
  obtain ⟨removed, heq⟩ := removeStale_eq s svc
  rw [heq]
  rfl

/-- A readiness message for another service. -/
theorem record_reportReady_other (h : m ≠ n) :
    (reportReady s m).record n = s.record n := by
  unfold reportReady
  split
  · rfl
  · dsimp only
    rw [record_markReady, record_setState_other h, record_note,
      record_report_other h]
    exact ⟨nofun, nofun, nofun⟩

/-- A first readiness report makes the service ready and reported, and nothing
else. -/
theorem record_reportReady (hn : n ∉ s.readyReported) :
    (reportReady s n).record n = { s.record n with
      state := some .ready
      reported := True } := by
  unfold reportReady
  rw [if_neg hn]
  dsimp only
  rw [record_markReady, record_setState, record_note, record_report]
  exact ⟨nofun, nofun, nofun⟩

/-- Another service is skipped. -/
theorem record_skipBlocked_other (h : m ≠ n) :
    (skipBlocked s m).record n = s.record n := by
  have hskip : (skipBlocked s m).record n =
      ((((s.note (.blocked m)).setState m .failed).blockDependents
        m).markReady m).record n := rfl
  have hblock : (((s.note (.blocked m)).setState m .failed).blockDependents
      m).record n = ((s.note (.blocked m)).setState m .failed).record n := rfl
  rw [hskip, record_markReady, hblock, record_setState_other h, record_note]
  exact ⟨by simp [Event.spawnedName], by simp [Event.poppedName],
    by simpa [Event.countedName] using h⟩

/-- Another service ends for good. -/
theorem record_finishService_other (h : m ≠ n) (ending : Ending) :
    (finishService s m ending).record n = s.record n := by
  unfold finishService
  generalize restartExhausted s m ending = exhausted
  obtain ⟨blocked, hcount⟩ := countEnding_eq s m ending exhausted
  have hcounted : (countEnding s m ending exhausted).record n =
      s.record n := by
    rw [hcount]
    change ((s.note (.finished m ending exhausted)).setState m _).record n = _
    rw [record_setState_other h, record_note]
    exact ⟨by simp [Event.spawnedName], by simp [Event.poppedName],
      by simpa [Event.countedName] using h⟩
  dsimp only
  split
  · exact hcounted
  · rw [record_markReady, record_report_other h, hcounted]

/-- **A final end** leaves the service failed or exited, counted and reported.
-/
theorem record_finishService (s : State) (n : String) (ending : Ending) :
    (finishService s n ending).record n = { s.record n with
      state := some (if restartExhausted s n ending then .failed
        else .exited ending.code)
      counted := True
      reported := True } := by
  unfold finishService
  generalize restartExhausted s n ending = exhausted
  obtain ⟨blocked, hcount⟩ := countEnding_eq s n ending exhausted
  have hcounted : (countEnding s n ending exhausted).record n =
      { s.record n with
        state := some (if exhausted then .failed else .exited ending.code)
        counted := True } := by
    rw [hcount]
    change ((s.note (.finished n ending exhausted)).setState n _).record n = _
    rw [record_setState, record_finished]
  dsimp only
  split
  · rename_i hin
    rw [hcounted]
    have hreported : (s.record n).reported = True := by
      rw [hcount] at hin
      exact eq_true hin
    dsimp only
    rw [hreported]
  · rw [record_markReady, record_report, hcounted]

/-- Spawning for another service, or failing to. -/
theorem record_spawnOrReturn_other {w : World}
    (h : m ≠ n) (cause : Cause) (svc : ServiceDef) :
    (spawnOrReturn w s cause m svc).record n = s.record n := by
  unfold spawnOrReturn
  split
  · rfl
  · rfl
  · rename_i pid hspawn
    exact record_track_other h (spawnService_fresh hspawn) cause

end Records

end FlintInit
