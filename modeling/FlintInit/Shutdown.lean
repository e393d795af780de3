import FlintInit.ShutdownOrder
import FlintInit.Supervision
import FlintInit.Library.Deadlines

/-!
# The shutdown branch

The branch takes the running names in the order of `shutdown_order`, looks up
a child of each, terminates it, waits for it for a while, kills it if need be
and forgets it.  Names do not tell two children of one service apart, so a
second loop goes over the children that are left.

A step of `Shutdown.step` makes at most one reading of the clock and one call
of `waitpid`.  What it does to the children is a sequence of moves of a
`Parting`, which says what a shutdown is for: each child is told once, and the
next one is told only when the last is attended to.  The orders of the names
and of the table decide only who comes when.
-/

namespace FlintInit

open Collections Release Relation Runs

/-- `Duration::from_secs`, in nanoseconds. -/
def fromSecs (secs : Nat) : Nat := secs * 1000000000

/-- The system calls of the branch that are about a child. -/
inductive StopCall where
  | sigterm (pid : Pid)
  | sigkill (pid : Pid)
  | waitpid (pid : Pid) (answer : Waitpid)
  deriving DecidableEq

/-- The outside world during one step of the branch. -/
structure Moment where
  now : Nat
  waitpid : Waitpid
  order : IterOrder Pid

/-- The place in the branch; the deadlines are instants. -/
inductive StopPhase where
  | names (killOrder : List String)
  | termWait (pid : Pid) (deadline : Nat) (killOrder : List String)
  | sigkilled (pid : Pid) (killOrder : List String)
  | killWait (pid : Pid) (killDeadline : Nat) (killOrder : List String)
  | stragglers (pids : List Pid)
  | stragglerWait (pid : Pid) (stragglerDeadline : Nat) (pids : List Pid)
  | left
  deriving DecidableEq

/-- The state of the branch.  The calls are a record, latest first; no
decision reads them. -/
structure Shutdown where
  pidToName : Table Pid String
  phase : StopPhase
  calls : List StopCall

/-- `running_names`: the names in the table, each of them once. -/
def runningNames (pidToName : Table Pid String) : List String :=
  (values pidToName).dedup

/-- The state in which the branch has its `kill_order`. -/
def ServiceGraph.shutdownBranch (g : ServiceGraph) (orders : ShutdownOrders)
    (pidToName : Table Pid String) : Except Fault Shutdown :=
  (g.shutdownOrder orders (runningNames pidToName)).map
    (fun run => ⟨pidToName, .names run.order, []⟩)

namespace Shutdown

/-- Record a call. -/
def call (s : Shutdown) (c : StopCall) : Shutdown :=
  { s with calls := c :: s.calls }

/-- The first child of a service, in the enumeration order of the table. -/
def findPid (s : Shutdown) (w : Moment) (name : String) : Option Pid :=
  (w.order.arrange s.pidToName.keys).find?
    (fun pid => s.pidToName.lookup pid = some name)

/-- `pid_to_name.retain(|p, _| *p != pid)`, and on to the next name. -/
def forget (s : Shutdown) (pid : Pid) (killOrder : List String) : Shutdown :=
  { s with
    pidToName := s.pidToName.erase pid
    phase := .names killOrder }

/-- One step of the shutdown branch. -/
def step (w : Moment) (s : Shutdown) : Shutdown :=
  match s.phase with
  | .names [] =>
      { s with phase := .stragglers (w.order.arrange s.pidToName.keys) }
  | .names (name :: killOrder) =>
      match s.findPid w name with
      | none => { s with phase := .names killOrder }
      | some pid =>
          { s.call (.sigterm pid) with
            phase := .termWait pid (w.now + fromSecs 5) killOrder }
  | .termWait pid deadline killOrder =>
      let s := s.call (.waitpid pid w.waitpid)
      match w.waitpid with
      | .stillAlive =>
          if deadline ≤ w.now then
            { s.call (.sigkill pid) with phase := .sigkilled pid killOrder }
          else s
      | _ => s.forget pid killOrder
  | .sigkilled pid killOrder =>
      { s with phase := .killWait pid (w.now + fromSecs 1) killOrder }
  | .killWait pid killDeadline killOrder =>
      let s := s.call (.waitpid pid w.waitpid)
      match w.waitpid with
      | .stillAlive =>
          if killDeadline ≤ w.now then s.forget pid killOrder else s
      | _ => s.forget pid killOrder
  | .stragglers [] => { s with phase := .left }
  | .stragglers (pid :: pids) =>
      { s.call (.sigterm pid) with
        phase := .stragglerWait pid (w.now + fromSecs 2) pids }
  | .stragglerWait pid stragglerDeadline pids =>
      let s := s.call (.waitpid pid w.waitpid)
      match w.waitpid with
      | .stillAlive =>
          if stragglerDeadline ≤ w.now then
            { s.call (.sigkill pid) with phase := .stragglers pids }
          else s
      | _ => { s with phase := .stragglers pids }
  | .left => s

/-- The child that is waited for. -/
def current (s : Shutdown) : Option Pid :=
  match s.phase with
  | .termWait pid _ _ => some pid
  | .sigkilled pid _ => some pid
  | .killWait pid _ _ => some pid
  | .stragglerWait pid _ _ => some pid
  | _ => none

/-- The deadline that the branch is waiting for. -/
def deadline (s : Shutdown) : Option Nat :=
  match s.phase with
  | .termWait _ deadline _ => some deadline
  | .killWait _ killDeadline _ => some killDeadline
  | .stragglerWait _ stragglerDeadline _ => some stragglerDeadline
  | _ => none

/-! ## What one step does -/

/-- The child that is found has the name. -/
theorem findPid_eq_some {s : Shutdown} {w : Moment} {name : String}
    {pid : Pid} (h : s.findPid w name = some pid) :
    s.pidToName.lookup pid = some name := by
  have hfound := List.find?_some h
  simpa using hfound

/-- No child is found when none has the name. -/
theorem findPid_eq_none {s : Shutdown} {w : Moment} {name : String} :
    s.findPid w name = none ↔ ∀ pid, s.pidToName.lookup pid ≠ some name := by
  simp only [findPid, List.find?_eq_none, IterOrder.mem_arrange,
    decide_eq_true_eq]
  refine ⟨fun h pid hpid => h pid ?_ hpid, fun h pid _ => h pid⟩
  exact AList.mem_keys.mp (AList.lookup_isSome.mp (by rw [hpid]; rfl))

/-- Everything a step can do. -/
inductive Turn (w : Moment) (s : Shutdown) : Shutdown → Prop
  | survey (hphase : s.phase = .names []) :
      Turn w s
        { s with phase := .stragglers (w.order.arrange s.pidToName.keys) }
  | skip {name : String} {killOrder : List String}
      (hphase : s.phase = .names (name :: killOrder))
      (hnone : ∀ pid, s.pidToName.lookup pid ≠ some name) :
      Turn w s { s with phase := .names killOrder }
  | tell {name : String} {killOrder : List String} {pid : Pid}
      (hphase : s.phase = .names (name :: killOrder))
      (hpid : s.pidToName.lookup pid = some name) :
      Turn w s
        { s.call (.sigterm pid) with
          phase := .termWait pid (w.now + fromSecs 5) killOrder }
  | poll {pid : Pid} {t : Nat} (hcurrent : s.current = some pid)
      (hset : s.deadline = some t) (hearly : w.now < t) :
      Turn w s (s.call (.waitpid pid w.waitpid))
  | kill {pid : Pid} {t : Nat} {killOrder : List String}
      (hphase : s.phase = .termWait pid t killOrder) :
      Turn w s
        { (s.call (.waitpid pid w.waitpid)).call (.sigkill pid) with
          phase := .sigkilled pid killOrder }
  | grace {pid : Pid} {killOrder : List String}
      (hphase : s.phase = .sigkilled pid killOrder) :
      Turn w s
        { s with phase := .killWait pid (w.now + fromSecs 1) killOrder }
  | gone {pid : Pid} {t : Nat} {killOrder : List String}
      (hphase : s.phase = .termWait pid t killOrder)
      (hanswer : w.waitpid ≠ .stillAlive) :
      Turn w s ((s.call (.waitpid pid w.waitpid)).forget pid killOrder)
  | giveUp {pid : Pid} {t : Nat} {killOrder : List String}
      (hphase : s.phase = .killWait pid t killOrder) :
      Turn w s ((s.call (.waitpid pid w.waitpid)).forget pid killOrder)
  | tellStraggler {pid : Pid} {pids : List Pid}
      (hphase : s.phase = .stragglers (pid :: pids)) :
      Turn w s
        { s.call (.sigterm pid) with
          phase := .stragglerWait pid (w.now + fromSecs 2) pids }
  | killStraggler {pid : Pid} {t : Nat} {pids : List Pid}
      (hphase : s.phase = .stragglerWait pid t pids) :
      Turn w s
        { (s.call (.waitpid pid w.waitpid)).call (.sigkill pid) with
          phase := .stragglers pids }
  | stragglerGone {pid : Pid} {t : Nat} {pids : List Pid}
      (hphase : s.phase = .stragglerWait pid t pids)
      (hanswer : w.waitpid ≠ .stillAlive) :
      Turn w s
        { s.call (.waitpid pid w.waitpid) with phase := .stragglers pids }
  | leave (hphase : s.phase = .stragglers []) :
      Turn w s { s with phase := .left }
  | stay (hphase : s.phase = .left) : Turn w s s

/-- **The cases of a step**: each place of the branch makes one of the turns.
-/
theorem step_turn (w : Moment) (s : Shutdown) : Turn w s (step w s) := by
  obtain ⟨table, phase, calls⟩ := s
  cases phase with
  | names killOrder =>
      cases killOrder with
      | nil => exact .survey rfl
      | cons name killOrder =>
          simp only [step]
          split
          · rename_i hfind
            exact .skip rfl (findPid_eq_none.mp hfind)
          · rename_i pid hfind
            exact .tell rfl (findPid_eq_some hfind)
  | termWait pid t killOrder =>
      simp only [step]
      split
      · split
        · exact .kill rfl
        · exact .poll rfl rfl (by omega)
      · rename_i hanswer
        exact .gone rfl hanswer
  | sigkilled pid killOrder => exact .grace rfl
  | killWait pid t killOrder =>
      simp only [step]
      split
      · split
        · exact .giveUp rfl
        · exact .poll rfl rfl (by omega)
      · exact .giveUp rfl
  | stragglers pids =>
      cases pids with
      | nil => exact .leave rfl
      | cons pid pids => exact .tellStraggler rfl
  | stragglerWait pid t pids =>
      simp only [step]
      split
      · split
        · exact .killStraggler rfl
        · exact .poll rfl rfl (by omega)
      · rename_i hanswer
        exact .stragglerGone rfl hanswer
  | left => exact .stay rfl

/-! ## Termination -/

/-- What is left to do: up to five steps for a name that is not waiting for
the clock, up to three for a child in the second loop. -/
def rank (s : Shutdown) : Nat :=
  let children := s.pidToName.keys.length
  match s.phase with
  | .names killOrder => 5 * killOrder.length + 3 * children + 2
  | .termWait _ _ killOrder => 5 * killOrder.length + 3 * children + 6
  | .sigkilled _ killOrder => 5 * killOrder.length + 3 * children + 5
  | .killWait _ _ killOrder => 5 * killOrder.length + 3 * children + 4
  | .stragglers pids => 3 * pids.length + 1
  | .stragglerWait _ _ pids => 3 * pids.length + 2
  | .left => 0

/-- Without one child, the rest takes at most as long. -/
theorem rank_forget (s : Shutdown) (pid : Pid) (killOrder : List String) :
    (s.forget pid killOrder).rank ≤
      5 * killOrder.length + 3 * s.pidToName.keys.length + 2 := by
  have hfewer : (s.pidToName.erase pid).keys.length ≤
      s.pidToName.keys.length := by
    rw [AList.keys_erase]
    exact List.length_erase_le
  simp only [forget, rank]
  omega

/-- **One step** lowers the rank or waits for a deadline. Only the poll of a
child that still runs, before its deadline, does not lower it. -/
theorem rank_step (w : Moment) (s : Shutdown) (hgoing : s.phase ≠ .left) :
    (step w s).rank < s.rank ∨
      ((step w s).rank = s.rank ∧ ∃ t, s.deadline = some t ∧
        (step w s).deadline = some t ∧ w.now < t) := by
  have hturn := step_turn w s
  generalize step w s = s' at hturn ⊢
  cases hturn with
  | survey hphase =>
      have hlength := (w.order.perm s.pidToName.keys).length_eq
      left
      simp only [rank, hphase, List.length_nil]
      omega
  | skip hphase hnone =>
      left
      simp only [rank, hphase, List.length_cons]
      omega
  | tell hphase hpid =>
      left
      simp only [rank, call, hphase, List.length_cons]
      omega
  | @poll pid t hcurrent hset hearly =>
      exact .inr ⟨rfl, t, hset, hset, hearly⟩
  | kill hphase =>
      left
      simp only [rank, call, hphase]
      omega
  | grace hphase =>
      left
      simp only [rank, hphase]
      omega
  | @gone pid t killOrder hphase hanswer =>
      left
      refine Nat.lt_of_le_of_lt (rank_forget _ pid killOrder) ?_
      simp only [rank, call, hphase]
      omega
  | @giveUp pid t killOrder hphase =>
      left
      refine Nat.lt_of_le_of_lt (rank_forget _ pid killOrder) ?_
      simp only [rank, call, hphase]
      omega
  | tellStraggler hphase =>
      left
      simp only [rank, hphase, List.length_cons]
      omega
  | killStraggler hphase =>
      left
      simp only [rank, hphase]
      omega
  | stragglerGone hphase hanswer =>
      left
      simp only [rank, hphase]
      omega
  | leave hphase =>
      left
      simp only [rank, hphase]
      omega
  | stay hphase => exact absurd hphase hgoing

/-- **The branch ends** if the clock passes its deadlines, whatever `waitpid`
answers. -/
theorem ends {start : Shutdown} {world : Stream' Moment}
    (hclock : PassesDeadlines step Moment.now deadline start world) :
    ∃ n, (after step start world n).phase = .left :=
  run_ends (fun s => s.phase = .left) rank rank_step hclock

end Shutdown

/-! ## What a shutdown is for -/

/-- A child is attended to when `waitpid` has reported something else than
that it is alive, or when it has been killed. -/
def Attended (pid : Pid) (calls : List StopCall) : Prop :=
  .sigkill pid ∈ calls ∨
    ∃ answer, answer ≠ .stillAlive ∧ .waitpid pid answer ∈ calls

/-- What has been attended to stays so. -/
theorem Attended.call {pid : Pid} {calls : List StopCall}
    (h : Attended pid calls) (c : StopCall) : Attended pid (c :: calls) := by
  rcases h with h | ⟨answer, hanswer, h⟩
  · exact .inl (List.mem_cons_of_mem c h)
  · exact .inr ⟨answer, hanswer, List.mem_cons_of_mem c h⟩

/-- A shutdown in the abstract: the children that have not been told, the one
that is waited for, and the calls, latest first. -/
structure Parting where
  waiting : Finset Pid
  current : Option Pid
  calls : List StopCall

namespace Parting

/-- What may happen to the children. -/
inductive Move : Parting → Parting → Prop
  | tell {p : Parting} {pid : Pid} (hidle : p.current = none)
      (hpid : pid ∈ p.waiting) :
      Move p ⟨p.waiting.erase pid, some pid, .sigterm pid :: p.calls⟩
  | ask {p : Parting} {pid : Pid} (answer : Waitpid)
      (hpid : p.current = some pid) :
      Move p { p with calls := .waitpid pid answer :: p.calls }
  | kill {p : Parting} {pid : Pid} (hpid : p.current = some pid) :
      Move p { p with calls := .sigkill pid :: p.calls }
  | leave {p : Parting} {pid : Pid} (hpid : p.current = some pid)
      (hdone : Attended pid p.calls) : Move p { p with current := none }

/-- Each child that is not waiting has been told once, and all of these but
the current one have been attended to. -/
structure Kept (tracked : Finset Pid) (p : Parting) : Prop where
  sub : p.waiting ⊆ tracked
  once : ∀ pid, p.calls.count (.sigterm pid) =
    if pid ∈ tracked ∧ pid ∉ p.waiting then 1 else 0
  attended : ∀ pid ∈ tracked, pid ∉ p.waiting → p.current ≠ some pid →
    Attended pid p.calls

/-- At the start every child waits and none has been told. -/
theorem Kept.start (tracked : Finset Pid) : Kept tracked ⟨tracked, none, []⟩ :=
  ⟨fun _ h => h, fun pid => by simp, fun _ hin hout => absurd hin hout⟩

/-- Only a SIGTERM tells a child. -/
theorem Kept.call {tracked : Finset Pid} {p : Parting} (h : Kept tracked p)
    (c : StopCall) (hc : ∀ pid, c ≠ .sigterm pid) :
    Kept tracked { p with calls := c :: p.calls } := by
  refine ⟨h.sub, fun pid => ?_, fun pid hpid hout hne =>
    (h.attended pid hpid hout hne).call c⟩
  exact (List.count_cons_of_ne (hc pid)).trans (h.once pid)

/-- A move tells a child when it takes it from those that wait, and leaves it
only when it has been attended to. -/
theorem Kept.move {tracked : Finset Pid} {p p' : Parting}
    (h : Kept tracked p) (hmove : Move p p') : Kept tracked p' := by
  cases hmove with
  | @tell told hidle htold =>
      have hin := h.sub htold
      refine ⟨fun x hx => h.sub (Finset.mem_of_mem_erase hx), fun pid => ?_,
        fun pid hpid hout hcurrent => ?_⟩
      · have honce := h.once pid
        by_cases heq : pid = told
        · subst heq
          simp_all
        · have hne : StopCall.sigterm told ≠ .sigterm pid := by
            intro hcall
            cases hcall
            exact heq rfl
          rw [List.count_cons_of_ne hne, honce]
          simp [heq]
      · have heq : pid ≠ told := fun heq => hcurrent (heq ▸ rfl)
        refine (h.attended pid hpid ?_ ?_).call _
        · exact fun hwait => hout (Finset.mem_erase.mpr ⟨heq, hwait⟩)
        · rw [hidle]
          exact nofun
  | ask answer hcurrent => exact h.call _ (fun pid => by simp)
  | kill hcurrent => exact h.call _ (fun pid => by simp)
  | @leave last hcurrent hdone =>
      refine ⟨h.sub, h.once, fun pid hpid hout _ => ?_⟩
      by_cases heq : pid = last
      · exact heq ▸ hdone
      · refine h.attended pid hpid hout ?_
        rw [hcurrent]
        exact fun hsome => heq (Option.some.inj hsome).symm

/-- So do several moves in turn. -/
theorem Kept.moves {tracked : Finset Pid} {p p' : Parting}
    (h : Kept tracked p) (hmoves : ReflTransGen Move p p') :
    Kept tracked p' := by
  induction hmoves with
  | refl => exact h
  | tail _ hmove ih => exact ih.move hmove

/-- No move adds to the children that wait. -/
theorem waiting_moves {p p' : Parting} (hmoves : ReflTransGen Move p p') :
    p'.waiting ⊆ p.waiting := by
  induction hmoves with
  | refl => exact fun _ hx => hx
  | tail _ hmove ih =>
      refine Finset.Subset.trans ?_ ih
      cases hmove with
      | tell _ _ => exact Finset.erase_subset _ _
      | ask _ _ => exact fun _ hx => hx
      | kill _ => exact fun _ hx => hx
      | leave _ _ => exact fun _ hx => hx

end Parting

/-! ## The branch is a shutdown -/

/-- The child that is waited for after a SIGKILL. -/
def StopPhase.killed : StopPhase → Option Pid
  | .sigkilled pid _ => some pid
  | .killWait pid _ _ => some pid
  | _ => none

/-- The children that the second loop has before it. -/
def StopPhase.pids : StopPhase → List Pid
  | .stragglers pids => pids
  | .stragglerWait _ _ pids => pids
  | _ => []

/-- The names that the first loop has before it. -/
def StopPhase.killOrder : StopPhase → List String
  | .names killOrder => killOrder
  | .termWait _ _ killOrder => killOrder
  | .sigkilled _ killOrder => killOrder
  | .killWait _ _ killOrder => killOrder
  | _ => []

namespace Shutdown

/-- The children that have not been told yet. -/
def waiting (s : Shutdown) : Finset Pid :=
  match s.phase with
  | .names _ => s.pidToName.keys.toFinset
  | .termWait pid _ _ => (s.pidToName.erase pid).keys.toFinset
  | .sigkilled pid _ => (s.pidToName.erase pid).keys.toFinset
  | .killWait pid _ _ => (s.pidToName.erase pid).keys.toFinset
  | .stragglers pids => pids.toFinset
  | .stragglerWait _ _ pids => pids.toFinset
  | .left => ∅

/-- What a state of the branch shows. -/
def parting (s : Shutdown) : Parting := ⟨s.waiting, s.current, s.calls⟩

/-- Who is waited for after a SIGKILL has got it, and the second loop goes
over each child once. -/
structure Sound (s : Shutdown) : Prop where
  killed : ∀ pid, s.phase.killed = some pid → .sigkill pid ∈ s.calls
  nodup : s.phase.pids.Nodup

/-- A child that is forgotten is not waiting. -/
theorem keys_erase_toFinset (table : Table Pid String) (pid : Pid) :
    (table.erase pid).keys.toFinset = table.keys.toFinset.erase pid := by
  have hnd : table.keys.Nodup := AList.keys_nodup table
  ext x
  rw [Finset.mem_erase, List.mem_toFinset, List.mem_toFinset,
    AList.keys_erase, hnd.mem_erase_iff]

/-- **The simulation.** Each step of the branch is a sequence of moves. A step
that only looks at the table or sleeps shows as no move at all, and one that
ends a wait as two or three. -/
theorem step_moves (w : Moment) {s : Shutdown} (h : s.Sound) :
    (step w s).Sound ∧
      ReflTransGen Parting.Move s.parting (step w s).parting := by
  have hturn := step_turn w s
  generalize step w s = s' at hturn ⊢
  obtain ⟨table, phase, calls⟩ := s
  cases hturn with
  | survey hphase =>
      cases hphase
      have hnd : (w.order.arrange table.keys).Nodup :=
        (IterOrder.nodup_arrange _).mpr (AList.keys_nodup table)
      have hsame : (w.order.arrange table.keys).toFinset =
          table.keys.toFinset := by
        ext x
        simp
      refine ⟨⟨by simp [StopPhase.killed], hnd⟩, ?_⟩
      simp only [parting, waiting, current, hsame]
      exact .refl
  | skip hphase hnone =>
      cases hphase
      exact ⟨⟨by simp [StopPhase.killed], List.nodup_nil⟩, .refl⟩
  | @tell name killOrder pid hphase hpid =>
      cases hphase
      have hin : pid ∈ table.keys.toFinset := by
        rw [List.mem_toFinset, ← AList.mem_keys, ← AList.lookup_isSome, hpid]
        rfl
      refine ⟨⟨by simp [StopPhase.killed], List.nodup_nil⟩, .single ?_⟩
      simp only [parting, waiting, current, call, keys_erase_toFinset]
      exact .tell rfl hin
  | poll hcurrent hset hearly =>
      refine ⟨⟨fun x hx => ?_, h.nodup⟩, .single (.ask _ hcurrent)⟩
      exact List.mem_cons_of_mem _ (h.killed x hx)
  | kill hphase =>
      cases hphase
      refine ⟨⟨by simp [StopPhase.killed, call], List.nodup_nil⟩, ?_⟩
      exact .head (.ask _ rfl) (.single (.kill rfl))
  | grace hphase =>
      cases hphase
      exact ⟨⟨h.killed, List.nodup_nil⟩, .refl⟩
  | gone hphase hanswer =>
      cases hphase
      refine ⟨⟨by simp [StopPhase.killed, forget], List.nodup_nil⟩, ?_⟩
      exact .head (.ask w.waitpid rfl) (.single (.leave rfl
        (.inr ⟨w.waitpid, hanswer, List.mem_cons_self⟩)))
  | @giveUp pid t killOrder hphase =>
      cases hphase
      -- whatever the answer, the SIGKILL has been sent
      have hkilled : .sigkill pid ∈ calls := h.killed pid rfl
      refine ⟨⟨by simp [StopPhase.killed, forget], List.nodup_nil⟩, ?_⟩
      exact .head (.ask w.waitpid rfl) (.single (.leave rfl
        (.inl (List.mem_cons_of_mem _ hkilled))))
  | @tellStraggler pid pids hphase =>
      cases hphase
      have hnd : (pid :: pids).Nodup := h.nodup
      obtain ⟨hpid, hpids⟩ := List.nodup_cons.mp hnd
      have herase : pids.toFinset = (pid :: pids).toFinset.erase pid := by
        rw [List.toFinset_cons, Finset.erase_insert]
        rwa [List.mem_toFinset]
      refine ⟨⟨by simp [StopPhase.killed], hpids⟩, .single ?_⟩
      simp only [parting, waiting, current, call]
      rw [herase]
      exact .tell rfl (by simp)
  | killStraggler hphase =>
      cases hphase
      refine ⟨⟨by simp [StopPhase.killed], h.nodup⟩, ?_⟩
      exact .head (.ask _ rfl) (.head (.kill rfl) (.single (.leave rfl
        (.inl List.mem_cons_self))))
  | stragglerGone hphase hanswer =>
      cases hphase
      refine ⟨⟨by simp [StopPhase.killed], h.nodup⟩, ?_⟩
      exact .head (.ask w.waitpid rfl) (.single (.leave rfl
        (.inr ⟨w.waitpid, hanswer, List.mem_cons_self⟩)))
  | leave hphase =>
      cases hphase
      exact ⟨⟨by simp [StopPhase.killed], List.nodup_nil⟩, .refl⟩
  | stay => exact ⟨h, .refl⟩

/-- The state keeps to the children of `table`. -/
def Reaches (table : Table Pid String) (s : Shutdown) : Prop :=
  s.Sound ∧ s.parting.Kept table.keys.toFinset

/-- Every step makes moves, so the children of the table are kept to. -/
theorem Reaches.step {table : Table Pid String} {s : Shutdown}
    (h : s.Reaches table) (w : Moment) : (step w s).Reaches table :=
  have hmoves := step_moves w h.1
  ⟨hmoves.1, h.2.moves hmoves.2⟩

/-- When the branch leaves, no child is waiting or waited for. -/
theorem Reaches.left {table : Table Pid String} {s : Shutdown}
    (h : s.Reaches table) (hleft : s.phase = .left) {pid : Pid}
    (hpid : pid ∈ table.keys) :
    s.calls.count (.sigterm pid) = 1 ∧ Attended pid s.calls := by
  have hin : pid ∈ table.keys.toFinset := List.mem_toFinset.mpr hpid
  have hout : pid ∉ s.waiting := by simp [waiting, hleft]
  have hidle : s.current = none := by simp [current, hleft]
  refine ⟨?_, h.2.attended pid hin hout ?_⟩
  · exact (h.2.once pid).trans (if_pos ⟨hin, hout⟩)
  · change s.current ≠ some pid
    rw [hidle]
    exact nofun

end Shutdown

/-! ## The order of the children -/

/-- No two children have one name. -/
def NoSharedName (table : Table Pid String) : Prop :=
  ∀ p q name, table.lookup p = some name → table.lookup q = some name → p = q

/-- A child is told after the children that come before it by name. -/
def ToldInOrder (Before : String → String → Prop) (table : Table Pid String) :
    StopCall → List StopCall → Prop
  | .sigterm pid, earlier => ∀ d x px, table.lookup pid = some d →
      table.lookup px = some x → Before x d → Attended px earlier
  | _, _ => True

namespace Shutdown

/-- A child that is left has the name it had. -/
theorem lookup_of_erase {table : Table Pid String} {old pid : Pid}
    {name : String} (h : (table.erase old).lookup pid = some name) :
    table.lookup pid = some name := by
  rw [lookup_erase_eq] at h
  split at h
  · cases h
  · exact h

/-- The state keeps to the order of the names: no child waits whose name has
been taken. -/
structure Orderly (Before : String → String → Prop) (stopOrder : List String)
    (table : Table Pid String) (s : Shutdown) : Prop where
  reaches : s.Reaches table
  sub : ∀ pid name, s.pidToName.lookup pid = some name →
    table.lookup pid = some name
  suffix : s.phase.killOrder <:+ stopOrder
  taken : ∀ pid name, table.lookup pid = some name →
    name ∉ s.phase.killOrder → pid ∉ s.waiting
  told : Preceded (ToldInOrder Before table) s.calls

section Order

variable {Before : String → String → Prop} {stopOrder : List String}
  {table : Table Pid String}

/-- Calls that tell no child keep the order. -/
theorem preceded_append {calls : List StopCall}
    (h : Preceded (ToldInOrder Before table) calls) :
    ∀ added : List StopCall, (∀ pid, .sigterm pid ∉ added) →
      Preceded (ToldInOrder Before table) (added ++ calls) := by
  intro added
  induction added with
  | nil => intro _; exact h
  | cons c added ih =>
      intro hadded
      refine ⟨?_, ih fun pid hin => hadded pid (List.mem_cons_of_mem c hin)⟩
      cases c with
      | sigterm pid => exact absurd List.mem_cons_self (hadded pid)
      | sigkill _ => exact True.intro
      | waitpid _ _ => exact True.intro

/-- A name is passed over when no child has it. -/
theorem Orderly.skip {s : Shutdown} (h : s.Orderly Before stopOrder table)
    {name : String} {rest : List String}
    (hphase : s.phase = .names (name :: rest))
    (hnone : ∀ pid, s.pidToName.lookup pid ≠ some name)
    (hreaches : Reaches table { s with phase := .names rest }) :
    Orderly Before stopOrder table { s with phase := .names rest } := by
  have horder : s.phase.killOrder = name :: rest := by rw [hphase]; rfl
  have htail : rest <:+ stopOrder :=
    (List.suffix_cons name rest).trans (horder ▸ h.suffix)
  refine ⟨hreaches, h.sub, htail, fun p n hp hn hin => ?_, h.told⟩
  -- a child that waits under the name would have been found
  have hkeys : p ∈ s.pidToName.keys := List.mem_toFinset.mp hin
  obtain ⟨n', hn'⟩ := Option.isSome_iff_exists.mp
    (AList.lookup_isSome.mpr (AList.mem_keys.mpr hkeys))
  have heq : n' = n := by
    have hsub := h.sub p n' hn'
    rw [hp] at hsub
    exact (Option.some.inj hsub).symm
  by_cases hname : n = name
  · exact hnone p (by rw [hn', heq, hname])
  · refine h.taken p n hp ?_ ?_
    · rw [horder]
      exact fun hcons => (List.mem_cons.mp hcons).elim hname hn
    · simpa [waiting, hphase] using hkeys

/-- A name is told when all that come before it have been taken, hence told
and attended to. -/
theorem Orderly.tell {s : Shutdown} (h : s.Orderly Before stopOrder table)
    (hdistinct : NoSharedName table) (hnodup : stopOrder.Nodup)
    (hbefore : ∀ early late x d, stopOrder = early ++ d :: late →
      (∃ px, table.lookup px = some x) → Before x d → x ∈ early)
    {name : String} {rest : List String} {pid : Pid} {t : Nat}
    (hphase : s.phase = .names (name :: rest))
    (hpid : s.pidToName.lookup pid = some name)
    (hreaches : Reaches table { s.call (.sigterm pid) with
      phase := .termWait pid t rest }) :
    Orderly Before stopOrder table { s.call (.sigterm pid) with
      phase := .termWait pid t rest } := by
  have horder : s.phase.killOrder = name :: rest := by rw [hphase]; rfl
  have htail : rest <:+ stopOrder :=
    (List.suffix_cons name rest).trans (horder ▸ h.suffix)
  have htable := h.sub pid name hpid
  refine ⟨hreaches, h.sub, htail, fun p n hp hn hin => ?_, ?_, h.told⟩
  · change p ∈ (s.pidToName.erase pid).keys.toFinset at hin
    rw [keys_erase_toFinset, Finset.mem_erase] at hin
    have hname : n ≠ name := by
      rintro rfl
      exact hin.1 (hdistinct p pid n hp htable)
    refine h.taken p n hp ?_ ?_
    · rw [horder]
      exact fun hcons => (List.mem_cons.mp hcons).elim hname hn
    · simpa [waiting, hphase] using hin.2
  · intro d x px hd hx hlists
    have hd : d = name := Option.some.inj (hd.symm.trans htable)
    subst hd
    obtain ⟨early, hsplit⟩ := horder ▸ h.suffix
    have hearly : x ∈ early :=
      hbefore early rest x d hsplit.symm ⟨px, hx⟩ hlists
    have hgone : x ∉ s.phase.killOrder := by
      rw [← hsplit] at hnodup
      rw [horder]
      intro hin
      exact (List.nodup_append.mp hnodup).2.2 x hearly x hin rfl
    have hout : px ∉ s.waiting := h.taken px x hx hgone
    have hkey : px ∈ table.keys := AList.mem_keys.mp
      (AList.lookup_isSome.mp (by rw [hx]; rfl))
    refine h.reaches.2.attended px (List.mem_toFinset.mpr hkey) hout ?_
    change s.current ≠ some px
    simp [current, hphase]

/-- Steps that tell no child and take no name keep the order. -/
theorem Orderly.quiet {s s' : Shutdown}
    (h : s.Orderly Before stopOrder table) (hreaches : s'.Reaches table)
    (hwaiting : s'.waiting ⊆ s.waiting)
    (added : List StopCall) (hcalls : s'.calls = added ++ s.calls)
    (hadded : ∀ pid, .sigterm pid ∉ added)
    (horder : s'.phase.killOrder = s.phase.killOrder)
    (hsub : ∀ pid name, s'.pidToName.lookup pid = some name →
      s.pidToName.lookup pid = some name) :
    s'.Orderly Before stopOrder table := by
  refine ⟨hreaches, fun p n hp => h.sub p n (hsub p n hp), ?_, ?_, ?_⟩
  · rw [horder]
    exact h.suffix
  · rw [horder]
    exact fun p n hp hn hin => h.taken p n hp hn (hwaiting hin)
  · rw [hcalls]
    exact preceded_append h.told added hadded

/-- **One step keeps the order.**  The second loop finds no child, since all
names have been taken. -/
theorem Orderly.step {s : Shutdown} (h : s.Orderly Before stopOrder table)
    (hdistinct : NoSharedName table) (hnodup : stopOrder.Nodup)
    (hbefore : ∀ early late x d, stopOrder = early ++ d :: late →
      (∃ px, table.lookup px = some x) → Before x d → x ∈ early)
    (w : Moment) : (step w s).Orderly Before stopOrder table := by
  have hwaiting : (Shutdown.step w s).waiting ⊆ s.waiting :=
    Parting.waiting_moves (step_moves w h.reaches.1).2
  have hreaches := h.reaches.step w
  have hturn := step_turn w s
  generalize Shutdown.step w s = s' at hturn hwaiting hreaches ⊢
  have hquiet := h.quiet hreaches hwaiting
  cases hturn with
  | skip hphase hnone => exact h.skip hphase hnone hreaches
  | tell hphase hpid =>
      exact h.tell hdistinct hnodup hbefore hphase hpid hreaches
  | @tellStraggler pid pids hphase =>
      have hwait : pid ∈ s.waiting := by simp [waiting, hphase]
      have hkey : pid ∈ table.keys :=
        List.mem_toFinset.mp (h.reaches.2.sub hwait)
      obtain ⟨name, hname⟩ := Option.isSome_iff_exists.mp
        (AList.lookup_isSome.mpr (AList.mem_keys.mpr hkey))
      refine absurd hwait (h.taken pid name hname ?_)
      simp [hphase, StopPhase.killOrder]
  | survey hphase =>
      exact hquiet [] rfl (by simp) (by rw [hphase]; rfl) (fun _ _ => id)
  | @poll pid _ _ _ _ =>
      exact hquiet [.waitpid pid w.waitpid] rfl (by simp) rfl (fun _ _ => id)
  | @kill pid _ _ hphase =>
      exact hquiet [.sigkill pid, .waitpid pid w.waitpid] rfl (by simp)
        (by rw [hphase]; rfl) (fun _ _ => id)
  | grace hphase =>
      exact hquiet [] rfl (by simp) (by rw [hphase]; rfl) (fun _ _ => id)
  | @gone pid _ _ hphase hanswer =>
      exact hquiet [.waitpid pid w.waitpid] rfl (by simp)
        (by rw [hphase]; rfl) (fun _ _ => lookup_of_erase)
  | @giveUp pid _ _ hphase =>
      exact hquiet [.waitpid pid w.waitpid] rfl (by simp)
        (by rw [hphase]; rfl) (fun _ _ => lookup_of_erase)
  | @killStraggler pid _ _ hphase =>
      exact hquiet [.sigkill pid, .waitpid pid w.waitpid] rfl (by simp)
        (by rw [hphase]; rfl) (fun _ _ => id)
  | @stragglerGone pid _ _ hphase hanswer =>
      exact hquiet [.waitpid pid w.waitpid] rfl (by simp)
        (by rw [hphase]; rfl) (fun _ _ => id)
  | leave hphase =>
      exact hquiet [] rfl (by simp) (by rw [hphase]; rfl) (fun _ _ => id)
  | stay hphase => exact h

end Order

/-- At the start no child has been told. -/
theorem Reaches.start (table : Table Pid String) (killOrder : List String) :
    Reaches table ⟨table, .names killOrder, []⟩ :=
  ⟨⟨fun _ h => (nomatch h), List.nodup_nil⟩, Parting.Kept.start _⟩

/-- At the start no name has been taken, and every child has one of the names.
-/
theorem Orderly.start (Before : String → String → Prop)
    {table : Table Pid String} {killOrder : List String}
    (hall : ∀ pid name, table.lookup pid = some name → name ∈ killOrder) :
    Orderly Before killOrder table ⟨table, .names killOrder, []⟩ :=
  ⟨Reaches.start table killOrder, fun _ _ => id, List.suffix_refl _,
    fun pid name hname hout => absurd (hall pid name hname) hout, True.intro⟩

end Shutdown

/-! ## Graphs returned by `build` -/

/-- A name is collected once, however many children have it. -/
theorem nodup_runningNames (pidToName : Table Pid String) :
    (runningNames pidToName).Nodup := List.nodup_dedup _

/-- The names collected are those of the children. -/
theorem mem_runningNames {pidToName : Table Pid String} {name : String} :
    name ∈ runningNames pidToName ↔
      ∃ pid, pidToName.lookup pid = some name := by
  rw [runningNames, List.mem_dedup, values, List.mem_map]
  constructor
  · rintro ⟨⟨pid, n⟩, hin, rfl⟩
    exact ⟨pid, AList.mem_lookup_iff.mpr hin⟩
  · rintro ⟨pid, hpid⟩
    exact ⟨⟨pid, name⟩, AList.mem_lookup_iff.mp hpid, rfl⟩

section Built

variable {orders : BuildOrders} {services : List ServiceDef}
  {g : ServiceGraph}

/-- The branch takes the names in the order of the peeled net. -/
theorem Built.shutdownBranch_eq (h : Built orders services g)
    {g' : ServiceGraph} (hsame : g'.dependentsOf = g.dependentsOf)
    (shutdownOrders : ShutdownOrders) (pidToName : Table Pid String) :
    g'.shutdownBranch shutdownOrders pidToName = .ok ⟨pidToName, .names
      ((stopNet g.dependentsOf (runningNames pidToName).toFinset).peel
        (runningNames pidToName).length ∅), []⟩ := by
  rw [ServiceGraph.shutdownBranch, h.shutdownOrder_marked hsame shutdownOrders
    (nodup_runningNames pidToName)]
  rfl

/-- **The branch that a run of the supervisor enters** is the one of the graph
that was built: marks do not change the edges. -/
theorem shutdownBranch_of_run (cfg : Config)
    (readFile : String → Except String String) (order : IterOrder String)
    (hg : ServiceGraph.build orders services = .ok (.ok g))
    (ws : List World) (shutdownOrders : ShutdownOrders)
    (pidToName : Table Pid String) :
    (run (step cfg) (initial cfg readFile order g services)
        ws).graph.shutdownBranch shutdownOrders pidToName =
      g.shutdownBranch shutdownOrders pidToName := by
  have hsame : (run (step cfg) (initial cfg readFile order g services)
      ws).graph.dependentsOf = g.dependentsOf := by
    refine run_invariant
      (fun s : State => s.graph.dependentsOf = g.dependentsOf) ?_ ws _
      (Meets.trivial _ _) rfl
    intro w s _ hs
    obtain ⟨t, hmove, _⟩ := step_move cfg w s
    exact (congrArg Shape.dependents hmove.shape).trans hs
  have hbuilt := build_built hg
  rw [hbuilt.shutdownBranch_eq hsame, hbuilt.shutdownBranch_eq rfl]

/-- **Shutdown reaches every child.**  On a built graph, and whatever is in the
table, the branch leaves once the clock has passed its deadlines.  By then it
has sent one SIGTERM to each child, and each child was reported as no longer
alive or was sent a SIGKILL.  If no two children share a name, a child of a
service of the graph is told only when this has been achieved for the children
of all services that depend on it. -/
theorem shutdown_reaches_every_child
    (hg : ServiceGraph.build orders services = .ok (.ok g))
    (shutdownOrders : ShutdownOrders) (pidToName : Table Pid String) :
    ∃ start, g.shutdownBranch shutdownOrders pidToName = .ok start ∧
      ∀ world : Stream' Moment,
        (PassesDeadlines Shutdown.step Moment.now Shutdown.deadline start
            world →
          ∃ n, (after Shutdown.step start world n).phase = .left) ∧
        ∀ n,
          ((after Shutdown.step start world n).phase = .left →
            ∀ pid ∈ pidToName.keys,
              (after Shutdown.step start world n).calls.count
                (.sigterm pid) = 1 ∧
              Attended pid (after Shutdown.step start world n).calls) ∧
          (NoSharedName pidToName → ∀ d x pd px later earlier,
            pidToName.lookup pd = some d → pidToName.lookup px = some x →
            Lists services x d →
            (after Shutdown.step start world n).calls =
              later ++ .sigterm pd :: earlier → Attended px earlier) := by
  have hbuilt := build_built hg
  refine ⟨_, hbuilt.shutdownBranch_eq rfl shutdownOrders pidToName,
    fun world => ⟨Shutdown.ends, fun n => ⟨?_, ?_⟩⟩⟩
  · intro hleft pid hpid
    refine Shutdown.Reaches.left ?_ hleft hpid
    exact run_invariant (Shutdown.Reaches pidToName)
      (fun w _ _ hs => hs.step w) _ _ (Meets.trivial _ _)
      (Shutdown.Reaches.start pidToName _)
  · intro hdistinct d x pd px later earlier hd hx hlists hcalls
    have horderly := run_invariant
      (Shutdown.Orderly (Lists services) _ pidToName)
      (fun w s _ hs => hs.step hdistinct (Net.nodup_peel _ _)
        (fun early late x d hsplit hx hlists =>
          hbuilt.stopped_before hsplit (mem_runningNames.mpr hx) hlists) w)
      (world.take n) _ (Meets.trivial _ _)
      (Shutdown.Orderly.start (Lists services) fun pid name hname =>
        (hbuilt.mem_stopOrder _ _).mpr (mem_runningNames.mpr ⟨pid, hname⟩))
    have htold := horderly.told
    rw [show run Shutdown.step _ (world.take n) =
      after Shutdown.step _ world n from rfl, hcalls] at htold
    exact htold.of_split d x px hd hx hlists

end Built

/-- Distinct names, as the table shows them. -/
theorem noSharedName_of_nodup {table : Table Pid String}
    (h : (values table).Nodup) : NoSharedName table := by
  intro p q name hp hq
  have hp := AList.mem_lookup_iff.mp hp
  have hq := AList.mem_lookup_iff.mp hq
  have hsame := List.inj_on_of_nodup_map h hp hq rfl
  exact congrArg Sigma.fst hsame

/-- Children that answer nothing, and a clock that goes on a second at a
time. -/
def stubborn : Stream' Moment :=
  fun n => ⟨fromSecs n, .stillAlive, .asStored _⟩

/-- The clock goes on past every deadline. -/
theorem stubborn_passes (start : Shutdown) :
    PassesDeadlines Shutdown.step Moment.now Shutdown.deadline start
      stubborn := by
  refine .of_mono (fun n => ?_) (fun t => ⟨t, ?_⟩)
  · change fromSecs n ≤ fromSecs (n + 1)
    simp only [fromSecs]
    omega
  · change t ≤ fromSecs t
    simp only [fromSecs]
    omega

/-- A child of each of two services, one of which depends on the other. -/
def twoChildren : Table Pid String :=
  (AList.insert 11 "left" ∅).insert 10 "root"

/-- Two children that never die are told once each and killed, and `root` is
told after its dependent has been attended to. -/
theorem shutdown_reaches_every_child_diamond :
    ∃ g, ServiceGraph.build .asStored diamond = .ok (.ok g) ∧
      ∃ start, g.shutdownBranch .asStored twoChildren = .ok start ∧
        ∃ n, (after Shutdown.step start stubborn n).phase = .left ∧
          (∀ pid ∈ [10, 11],
            (after Shutdown.step start stubborn n).calls.count
              (.sigterm pid) = 1 ∧
            Attended pid (after Shutdown.step start stubborn n).calls) ∧
          ∀ later earlier, (after Shutdown.step start stubborn n).calls =
            later ++ .sigterm 10 :: earlier → Attended 11 earlier := by
  obtain ⟨start, hstart, hworld⟩ := shutdown_reaches_every_child
    (rfl : ServiceGraph.build .asStored diamond = .ok (.ok _)) .asStored
    twoChildren
  obtain ⟨hends, hall⟩ := hworld stubborn
  obtain ⟨n, hleft⟩ := hends (stubborn_passes start)
  refine ⟨_, rfl, start, hstart, n, hleft, (hall n).1 hleft, ?_⟩
  intro later earlier
  refine (hall n).2 (noSharedName_of_nodup (by decide)) "root" "left" 10 11
    later earlier rfl rfl ?_
  exact ⟨by decide, makeService "left" ["root"] [], by decide, rfl, by decide⟩

/-- A child whose name the graph does not know is told before a child that
depends on it. -/
theorem unknown_dependency_told_first :
    ∃ g, ServiceGraph.build .asStored [makeService "web" ["db"] []] =
        .ok (.ok g) ∧
      NoSharedName ((AList.insert 11 "web" ∅).insert 10 "db") ∧
      "db" ∈ (makeService "web" ["db"] []).allDeps ∧
      ∃ start, g.shutdownBranch .asStored
          ((AList.insert 11 "web" ∅).insert 10 "db") = .ok start ∧
        (after Shutdown.step start stubborn 1).calls = [.sigterm 10] ∧
        ¬ Attended 11 [] :=
  ⟨_, rfl, noSharedName_of_nodup (by decide), by decide, _, rfl, rfl,
    by simp [Attended]⟩

end FlintInit
