import FlintInit.Library.Interleaving
import FlintInit.LiveProcesses
import FlintInit.ReadyWatch

/-!
# From readiness files to the executor

Before the executor starts, `main` goes through the services: it deletes the
stale readiness file of each, creates the file's directory and starts a
watcher.  The watchers send on one channel, and the executor reads it in
between its own steps and deletes a readiness file once more before it
launches the service.

`Machine` puts `main`, the watchers, the channel, the executor and the
directories side by side, each taking its own steps in any order, while
anything may be done to the directories.  An operation on a directory is seen
by every watcher of that directory.  What is done while `main` deals with one
service comes before or after it; the watcher, which begins with a look at its
path, cannot tell.

A stale file may still be open when `main` deletes it, and is then closed under
its name when the watcher is already there.  So a report that a service is
ready has one of two causes, `ready_file_is_new_or_closed` says: its path has
come into being after its watcher was started, or such a file has been closed.
-/

namespace FlintInit.Readiness

open Collections Runs

/-- `Path::file_name`. -/
def fileName (path : String) : Option String :=
  match (components path).reverse with
  | .normal name :: _ => some name
  | _ => none

/-- A path with a file name has a parent. -/
theorem parent_isSome (path : String) :
    (fileName path).isSome → (parent path).isSome := by
  unfold fileName parent
  cases (components path).reverse with
  | nil => exact fun h => h
  | cons c rest => cases c <;> simp

/-- Where paths lead: the directory that a path stands for, and whether a path
without a file name exists. -/
structure Tree (Dir : Type) where
  resolve : String → Dir
  bareExists : String → Bool

section Definitions

variable {Dir : Type} [DecidableEq Dir] (tree : Tree Dir)

/-- The directory entry that a path stands for. -/
def Tree.place (path : String) : Option (Dir × String) :=
  match parent path, fileName path with
  | some dir, some name => some (tree.resolve dir, name)
  | _, _ => none

/-- The readiness path of a service and the watcher started for it. -/
def watchOf (svc : ServiceDef) : Option (String × ReadyWatch.Job) :=
  match svc.ready with
  | none => none
  | some ready =>
      match ready.path with
      | none => none
      | some path =>
          let start :=
            match ready.strategy with
            | .pidfile => ReadyWatch.watchPidfile
            | .socket => ReadyWatch.watchSocket
          some (path, start (parent path) (fileName path)
            (parent_isSome path) (tree.bareExists path) svc.name)

/-- The directories, the services that `main` has still to come to, the
watchers, the channel, the executor, and a record of the messages read. -/
structure Machine (Dir : Type) where
  dirs : Dir → ReadyWatch.Directory
  pending : List ServiceDef
  watchers : List (ReadyWatch.Job × ReadyWatch.State)
  channel : List String
  executor : State
  received : List String
  ended : Bool

namespace Machine

/-- Something is done to a directory. -/
def operate (m : Machine Dir) (dir : Dir) (op : ReadyWatch.DirectoryOp) :
    Machine Dir :=
  { m with
    dirs := Function.update m.dirs dir (op.apply (m.dirs dir)).1
    watchers := m.watchers.map fun watcher =>
      (watcher.1, if watcher.1.parent.map tree.resolve = some dir then
        watcher.2.operate op else watcher.2) }

/-- `remove_file`. -/
def unlink (m : Machine Dir) (path : String) : Machine Dir :=
  match tree.place path with
  | some (dir, name) => m.operate tree dir (.remove name)
  | none => m

/-- The directory of a watcher when it is started. -/
def found (m : Machine Dir) (job : ReadyWatch.Job) : ReadyWatch.Directory :=
  match job.parent with
  | some dir => m.dirs (tree.resolve dir)
  | none => ⟨∅, ∅⟩

/-- `main` comes to the next service: whether the file is deleted, and whether
its directory is created. -/
def prepare (m : Machine Dir) (removes creates : Bool) : Machine Dir :=
  match m.pending with
  | [] => m
  | svc :: rest =>
      match watchOf tree svc with
      | none => { m with pending := rest }
      | some (path, job) =>
          let m := if removes then m.unlink tree path else m
          if creates || (parent path).isNone then
            { m with
              pending := rest
              watchers := m.watchers ++
                [(job, ReadyWatch.started (m.found tree job))] }
          else
            -- the error is returned from `main`
            { m with pending := [], ended := true }

/-- A watcher takes a step; its message goes into the channel, unless nobody
reads it. -/
def watch (m : Machine Dir) (i : Nat) (a : ReadyWatch.Answers) :
    Machine Dir :=
  match m.watchers[i]? with
  | none => m
  | some (job, s) =>
      let send := if m.ended then .error "sending on a closed channel"
        else .ok ()
      let s' := ReadyWatch.watchStep job { a with send := send } s
      { m with
        watchers := m.watchers.set i (job, s')
        channel := m.channel ++
          s'.messages.take (s'.messages.length - s.messages.length) }

/-- The world of the executor's next step: its next message is the first in
the channel. -/
def world (m : Machine Dir) (w : World) : World :=
  { w with ready := m.channel.head? }

/-- The executor takes a step; whether the file it deletes goes away. -/
def execute (cfg : Config) (m : Machine Dir) (w : World) (unlinks : Bool) :
    Machine Dir :=
  let read := (readyMessage (m.world w) m.executor).toList
  let executor := step cfg (m.world w) m.executor
  let next := { m with
    executor := executor
    received := m.received ++ read
    channel := m.channel.drop read.length }
  match executor.removed.take
      (executor.removed.length - m.executor.removed.length) with
  | [] => next
  | path :: _ => if unlinks then next.unlink tree path else next

end Machine

/-- Who acts next. -/
inductive Action (Dir : Type) where
  | prepare (removes creates : Bool)
  | operate (dir : Dir) (op : ReadyWatch.DirectoryOp)
  | watch (i : Nat) (answers : ReadyWatch.Answers)
  | execute (w : World) (unlinks : Bool)
  /-- The executor returns, and drops its end of the channel. -/
  | disconnect

/-- One step of the machine.  The executor is started when `main` has come
past all services. -/
def Machine.step (cfg : Config) (action : Action Dir) (m : Machine Dir) :
    Machine Dir :=
  match action with
  | .prepare removes creates => m.prepare tree removes creates
  | .operate dir op => m.operate tree dir op
  | .watch i answers => m.watch i answers
  | .execute w unlinks =>
      if m.pending = [] ∧ m.ended = false then m.execute tree cfg w unlinks
      else m
  | .disconnect =>
      if m.executor.phase.finished then { m with ended := true } else m

/-- The machine when `main` comes to its services. -/
def Machine.initial (dirs : Dir → ReadyWatch.Directory) (cfg : Config)
    (readFile : String → Except String String) (order : IterOrder String)
    (g : ServiceGraph) (services : List ServiceDef) : Machine Dir where
  dirs := dirs
  pending := services
  watchers := []
  channel := []
  executor := FlintInit.initial cfg readFile order g services
  received := []
  ended := false

/-- The path is there. -/
def Machine.There (m : Machine Dir) (path : String) : Prop :=
  match tree.place path with
  | some (dir, name) => name ∈ (m.dirs dir).files
  | none => tree.bareExists path = true

instance (m : Machine Dir) (path : String) : Decidable (m.There tree path) :=
  match h : tree.place path with
  | some (dir, name) => decidable_of_iff (name ∈ (m.dirs dir).files) (by
      simp [Machine.There, h])
  | none => decidable_of_iff (tree.bareExists path = true) (by
      simp [Machine.There, h])

end Definitions

/-! ## What a step can do -/

section Cases

variable {Dir : Type} [DecidableEq Dir] {tree : Tree Dir} {cfg : Config}
  {m m' : Machine Dir}

/-- A file may have been removed, and nothing else has happened. -/
def Swept (tree : Tree Dir) (m m' : Machine Dir) : Prop :=
  m' = m ∨ ∃ dir name, m' = m.operate tree dir (.remove name)

/-- To unlink a path is to remove an entry of its directory, or nothing. -/
theorem swept_unlink (m : Machine Dir) (path : String) :
    Swept tree m (m.unlink tree path) := by
  unfold Machine.unlink
  split
  · exact .inr ⟨_, _, rfl⟩
  · exact .inl rfl

/-- The machine after a step of the executor, but for the file deleted. -/
def Machine.executed (cfg : Config) (m : Machine Dir) (w : World) :
    Machine Dir :=
  let read := (readyMessage (m.world w) m.executor).toList
  { m with
    executor := FlintInit.step cfg (m.world w) m.executor
    received := m.received ++ read
    channel := m.channel.drop read.length }

/-- The machine after a step of a watcher that was in state `s`. -/
def Machine.watched (m : Machine Dir) (i : Nat) (job : ReadyWatch.Job)
    (s s' : ReadyWatch.State) : Machine Dir :=
  { m with
    watchers := m.watchers.set i (job, s')
    channel := m.channel ++
      s'.messages.take (s'.messages.length - s.messages.length) }

/-- Everything one step of the machine can come to. -/
inductive StepCase (tree : Tree Dir) (cfg : Config) (m m' : Machine Dir) :
    Action Dir → Prop
  | still {action : Action Dir} (hsame : m' = m) :
      StepCase tree cfg m m' action
  | skipped {removes creates : Bool} {svc : ServiceDef}
      {rest : List ServiceDef} (hpending : m.pending = svc :: rest)
      (hwatch : watchOf tree svc = none)
      (hnext : m' = { m with pending := rest }) :
      StepCase tree cfg m m' (.prepare removes creates)
  | started {removes creates : Bool} {svc : ServiceDef}
      {rest : List ServiceDef} {path : String} {job : ReadyWatch.Job}
      {swept : Machine Dir} (hpending : m.pending = svc :: rest)
      (hwatch : watchOf tree svc = some (path, job))
      (hswept : Swept tree m swept)
      (hnext : m' = { swept with
        pending := rest
        watchers := swept.watchers ++
          [(job, ReadyWatch.started (swept.found tree job))] }) :
      StepCase tree cfg m m' (.prepare removes creates)
  | aborted {removes creates : Bool} {swept : Machine Dir}
      (hswept : Swept tree m swept)
      (hnext : m' = { swept with pending := [], ended := true }) :
      StepCase tree cfg m m' (.prepare removes creates)
  | operated {dir : Dir} {op : ReadyWatch.DirectoryOp}
      (hnext : m' = m.operate tree dir op) :
      StepCase tree cfg m m' (.operate dir op)
  | watched {i : Nat} {answers a : ReadyWatch.Answers}
      {job : ReadyWatch.Job} {s : ReadyWatch.State}
      (hwatcher : m.watchers[i]? = some (job, s))
      (hnext : m' = m.watched i job s (ReadyWatch.watchStep job a s)) :
      StepCase tree cfg m m' (.watch i answers)
  | executed {w : World} {unlinks : Bool} (hpending : m.pending = [])
      (hgoing : m.ended = false) (hswept : Swept tree (m.executed cfg w) m') :
      StepCase tree cfg m m' (.execute w unlinks)
  | disconnected (hfinished : m.executor.phase.finished = true)
      (hnext : m' = { m with ended := true }) :
      StepCase tree cfg m m' .disconnect

/-- `main` comes to the next service: it removes the stale file, or may not be
able to, and starts the watcher unless the directory of the file cannot be
created, which ends the boot. -/
theorem prepare_cases (m : Machine Dir) (removes creates : Bool) :
    StepCase tree cfg m (m.prepare tree removes creates)
      (.prepare removes creates) := by
  unfold Machine.prepare
  split
  · exact .still rfl
  · rename_i svc rest hpending
    split
    · rename_i hwatch
      exact .skipped hpending hwatch rfl
    · rename_i path job hwatch
      have hswept : Swept tree m
          (if removes then m.unlink tree path else m) := by
        cases removes with
        | true => exact swept_unlink m path
        | false => exact .inl rfl
      dsimp only
      split
      · exact .started hpending hwatch hswept rfl
      · exact .aborted hswept rfl

/-- A step of the executor is the executor's own, and the deletion of a file at
most. -/
theorem execute_swept (m : Machine Dir) (w : World) (unlinks : Bool) :
    Swept tree (m.executed cfg w) (m.execute tree cfg w unlinks) := by
  unfold Machine.execute
  dsimp only
  split
  · exact .inl rfl
  · split
    · exact swept_unlink _ _
    · exact .inl rfl

/-- **The cases of a step of the machine.** -/
theorem step_cases (tree : Tree Dir) (cfg : Config) (m : Machine Dir)
    (action : Action Dir) :
    StepCase tree cfg m (m.step tree cfg action) action := by
  cases action with
  | prepare removes creates => exact prepare_cases m removes creates
  | operate dir op => exact .operated rfl
  | watch i answers =>
      change StepCase tree cfg m (m.watch i answers) _
      unfold Machine.watch
      split
      · exact .still rfl
      · rename_i job s hwatcher
        exact .watched hwatcher rfl
  | execute w unlinks =>
      unfold Machine.step
      dsimp only
      split
      · rename_i hstarted
        exact .executed hstarted.1 hstarted.2 (execute_swept m w unlinks)
      · exact .still rfl
  | disconnect =>
      unfold Machine.step
      dsimp only
      split
      · rename_i hfinished
        exact .disconnected hfinished rfl
      · exact .still rfl

/-! ## One watcher among the others -/

/-- What a step of the machine is to one watcher. -/
inductive Moved (tree : Tree Dir) (job : ReadyWatch.Job)
    (s : ReadyWatch.State) : Action Dir → ReadyWatch.State → Prop
  | still {action : Action Dir} : Moved tree job s action s
  | swept {action : Action Dir} (name : String) :
      Moved tree job s action (s.operate (.remove name))
  | operated {dir : Dir} {op : ReadyWatch.DirectoryOp}
      (hdir : job.parent.map tree.resolve = some dir) :
      Moved tree job s (.operate dir op) (s.operate op)
  | watched {i : Nat} {answers : ReadyWatch.Answers} (a : ReadyWatch.Answers) :
      Moved tree job s (.watch i answers) (ReadyWatch.watchStep job a s)

/-- A watcher after an operation on a directory. -/
theorem moved_operate {dir : Dir} {op : ReadyWatch.DirectoryOp} {i : Nat}
    {job : ReadyWatch.Job} {s' : ReadyWatch.State}
    (h : (m.operate tree dir op).watchers[i]? = some (job, s')) :
    ∃ s, m.watchers[i]? = some (job, s) ∧
      (s' = s.operate op ∧ job.parent.map tree.resolve = some dir ∨
        s' = s ∧ job.parent.map tree.resolve ≠ some dir) := by
  unfold Machine.operate at h
  dsimp only at h
  rw [List.getElem?_map, Option.map_eq_some_iff] at h
  obtain ⟨⟨old, s⟩, hold, heq⟩ := h
  obtain ⟨rfl, hs⟩ := Prod.mk.inj heq
  refine ⟨s, hold, ?_⟩
  by_cases hdir : old.parent.map tree.resolve = some dir
  · exact .inl ⟨hs.symm.trans (if_pos hdir), hdir⟩
  · exact .inr ⟨hs.symm.trans (if_neg hdir), hdir⟩

/-- To a watcher, a file that may have been removed is an operation on its
directory or nothing. -/
theorem Swept.moved (h : Swept tree m m') {i : Nat} {job : ReadyWatch.Job}
    {s' : ReadyWatch.State} (action : Action Dir)
    (hi : m'.watchers[i]? = some (job, s')) :
    ∃ s, m.watchers[i]? = some (job, s) ∧ Moved tree job s action s' := by
  rcases h with rfl | ⟨dir, name, rfl⟩
  · exact ⟨s', hi, .still⟩
  · obtain ⟨s, hs, ⟨rfl, _⟩ | ⟨rfl, _⟩⟩ := moved_operate hi
    · exact ⟨s, hs, .swept name⟩
    · exact ⟨s', hs, .still⟩

/-- No watcher comes or goes when a file is removed. -/
theorem Swept.length (h : Swept tree m m') :
    m'.watchers.length = m.watchers.length := by
  rcases h with rfl | ⟨dir, name, rfl⟩
  · rfl
  · exact List.length_map _

/-- **A step is one step for each watcher**, or it starts the watcher. A file
that is removed on the way is an operation on one directory, and only the
watchers of that directory are told. -/
theorem StepCase.moved {action : Action Dir}
    (h : StepCase tree cfg m m' action) {i : Nat} {job : ReadyWatch.Job}
    {s' : ReadyWatch.State} (hi : m'.watchers[i]? = some (job, s')) :
    (∃ s, m.watchers[i]? = some (job, s) ∧ Moved tree job s action s') ∨
      (m.watchers.length = i ∧ ∃ d, s' = ReadyWatch.started d) := by
  cases h with
  | still hsame =>
      rw [hsame] at hi
      exact .inl ⟨s', hi, .still⟩
  | skipped hpending hwatch hnext =>
      rw [hnext] at hi
      exact .inl ⟨s', hi, .still⟩
  | @started _ _ _ _ _ _ swept hpending hwatch hswept hnext =>
      rw [hnext] at hi
      dsimp only at hi
      by_cases hlt : i < swept.watchers.length
      · rw [List.getElem?_append_left hlt] at hi
        exact .inl (hswept.moved _ hi)
      · rw [List.getElem?_append_right (by omega)] at hi
        have hlen := hswept.length
        cases hk : i - swept.watchers.length with
        | zero =>
            rw [hk] at hi
            cases hi
            exact .inr ⟨by omega, _, rfl⟩
        | succ k =>
            rw [hk] at hi
            cases hi
  | aborted hswept hnext =>
      rw [hnext] at hi
      exact .inl (hswept.moved _ hi)
  | operated hnext =>
      rw [hnext] at hi
      obtain ⟨s, hs, ⟨rfl, hdir⟩ | ⟨rfl, _⟩⟩ := moved_operate hi
      · exact .inl ⟨s, hs, .operated hdir⟩
      · exact .inl ⟨s', hs, .still⟩
  | @watched j answers a job' s hwatcher hnext =>
      rw [hnext] at hi
      unfold Machine.watched at hi
      dsimp only at hi
      rw [List.getElem?_set] at hi
      split at hi
      · rename_i hij
        subst hij
        split at hi
        · cases hi
          exact .inl ⟨s, hwatcher, .watched a⟩
        · cases hi
      · exact .inl ⟨s', hi, .still⟩
  | executed hpending hgoing hswept => exact .inl (hswept.moved _ hi)
  | disconnected hfinished hnext =>
      rw [hnext] at hi
      exact .inl ⟨s', hi, .still⟩

/-! ## The path -/

/-- A step that brings a path into being is an operation on its directory.
`main` and the executor only delete files, and a watcher only reads. -/
theorem StepCase.appears {action : Action Dir}
    (h : StepCase tree cfg m m' action) {path : String}
    (hbefore : ¬ m.There tree path) (hafter : m'.There tree path) :
    ∃ dir op, action = .operate dir op := by
  unfold Machine.There at hbefore hafter
  have hdirs : ∀ {m₁ m₂ : Machine Dir}, m₁.dirs = m.dirs →
      Swept tree m₁ m₂ → m'.dirs = m₂.dirs → False := by
    rintro m₁ m₂ hstart (rfl | ⟨dir, name, rfl⟩) hend
    · rw [hend, hstart] at hafter
      exact hbefore hafter
    · rw [hend] at hafter
      split at hafter
      · rename_i dir' name' hplace
        rw [hplace] at hbefore
        dsimp only at hbefore
        refine hbefore ?_
        unfold Machine.operate at hafter
        dsimp only at hafter
        rw [hstart] at hafter
        by_cases hdir : dir' = dir
        · subst hdir
          rw [Function.update_self] at hafter
          unfold ReadyWatch.DirectoryOp.apply at hafter
          dsimp only at hafter
          split at hafter
          · exact Finset.mem_of_mem_erase hafter
          · exact hafter
        · rw [Function.update_of_ne hdir] at hafter
          exact hafter
      · rename_i hplace
        rw [hplace] at hbefore
        exact hbefore hafter
  cases h with
  | operated hnext => exact ⟨_, _, rfl⟩
  | still hsame => exact (hdirs rfl (.inl rfl) (by rw [hsame])).elim
  | skipped hpending hwatch hnext =>
      exact (hdirs rfl (.inl rfl) (by rw [hnext])).elim
  | started hpending hwatch hswept hnext =>
      exact (hdirs rfl hswept (by rw [hnext])).elim
  | aborted hswept hnext => exact (hdirs rfl hswept (by rw [hnext])).elim
  | watched hwatcher hnext =>
      exact (hdirs rfl (.inl rfl) (by rw [hnext]; rfl)).elim
  | @executed w unlinks hpending hgoing hswept =>
      have hsame : (m.executed cfg w).dirs = m.dirs := rfl
      exact (hdirs hsame hswept rfl).elim
  | disconnected hfinished hnext =>
      exact (hdirs rfl (.inl rfl) (by rw [hnext])).elim

/-! ## Evidence of the `i`-th watcher -/

/-- The `i`-th watcher has something to show that its path was there. -/
def EvidenceOf (i : Nat) (m : Machine Dir) : Prop :=
  ∃ job s, m.watchers[i]? = some (job, s) ∧ ReadyWatch.Evidence job s

/-- The `i`-th watcher would find its path there. -/
def SeenBy (i : Nat) (m : Machine Dir) : Prop :=
  ∃ job s, m.watchers[i]? = some (job, s) ∧
    job.pathExists s.directory = true

/-- A file is closed that has lost the name of the `i`-th watcher's path. -/
def StaleBy (tree : Tree Dir) (i : Nat) (m : Machine Dir)
    (action : Action Dir) : Prop :=
  ∃ job s dir op, m.watchers[i]? = some (job, s) ∧
    job.parent.map tree.resolve = some dir ∧ action = .operate dir op ∧
    ReadyWatch.ClosesStale job s.directory op

/-- The `i`-th watcher comes to evidence with its path there, or by the closing
of a file that has lost the name. -/
theorem StepCase.evidence {action : Action Dir}
    (h : StepCase tree cfg m m' action) {i : Nat} (hi : EvidenceOf i m') :
    EvidenceOf i m ∨ SeenBy i m ∨ SeenBy i m' ∨ StaleBy tree i m action := by
  obtain ⟨job, s', hs', hevidence⟩ := hi
  rcases h.moved hs' with ⟨s, hs, hmoved⟩ | ⟨_, d, rfl⟩
  · cases hmoved with
    | still => exact .inl ⟨job, _, hs, hevidence⟩
    | swept name =>
        rcases ReadyWatch.Evidence.of_operate hevidence with
          hold | hnew | ⟨_, _, hop, _⟩
        · exact .inl ⟨job, s, hs, hold⟩
        · exact .inr (.inr (.inl ⟨job, _, hs', hnew⟩))
        · cases hop
    | operated hdir =>
        rcases ReadyWatch.Evidence.of_operate hevidence with
          hold | hnew | hstale
        · exact .inl ⟨job, s, hs, hold⟩
        · exact .inr (.inr (.inl ⟨job, _, hs', hnew⟩))
        · exact .inr (.inr (.inr ⟨job, s, _, _, hs, hdir, rfl, hstale⟩))
    | watched a =>
        rcases ReadyWatch.Evidence.of_watchStep hevidence with hold | hold
        · exact .inl ⟨job, s, hs, hold⟩
        · exact .inr (.inl ⟨job, s, hs, hold⟩)
  · exact absurd hevidence (ReadyWatch.not_evidence_started job d)

/-- A name is lost only by a file that has it. So a name that is lost and was
not so before belonged to a file that was there in this very step. -/
theorem StepCase.gone {action : Action Dir}
    (h : StepCase tree cfg m m' action) {dir : Dir} {filename : String}
    (hgone : filename ∈ (m'.dirs dir).gone) :
    filename ∈ (m.dirs dir).gone ∨ filename ∈ (m.dirs dir).files := by
  have hoperate : ∀ {m₁ : Machine Dir} (dir' : Dir)
      (op : ReadyWatch.DirectoryOp), m₁.dirs = m.dirs →
        filename ∈ ((m₁.operate tree dir' op).dirs dir).gone →
          filename ∈ (m.dirs dir).gone ∨ filename ∈ (m.dirs dir).files := by
    intro m₁ dir' op hsame hafter
    rw [← hsame]
    unfold Machine.operate at hafter
    dsimp only at hafter
    by_cases hdir : dir = dir'
    · subst hdir
      rw [Function.update_self] at hafter
      exact ReadyWatch.there_of_gone hafter
    · rw [Function.update_of_ne hdir] at hafter
      exact .inl hafter
  have hswept : ∀ {m₁ m₂ : Machine Dir}, m₁.dirs = m.dirs →
      Swept tree m₁ m₂ → m'.dirs = m₂.dirs →
        filename ∈ (m.dirs dir).gone ∨ filename ∈ (m.dirs dir).files := by
    rintro m₁ m₂ hsame (rfl | ⟨dir', name, rfl⟩) hend
    · rw [hend, hsame] at hgone
      exact .inl hgone
    · rw [hend] at hgone
      exact hoperate dir' _ hsame hgone
  cases h with
  | operated hnext => exact hoperate _ _ rfl (hnext ▸ hgone)
  | still hsame => exact hswept rfl (.inl rfl) (by rw [hsame])
  | skipped hpending hwatch hnext =>
      exact hswept rfl (.inl rfl) (by rw [hnext])
  | started hpending hwatch hclean hnext =>
      exact hswept rfl hclean (by rw [hnext])
  | aborted hclean hnext => exact hswept rfl hclean (by rw [hnext])
  | watched hwatcher hnext => exact hswept rfl (.inl rfl) (by rw [hnext]; rfl)
  | @executed w unlinks hpending hgoing hclean =>
      have hsame : (m.executed cfg w).dirs = m.dirs := rfl
      exact hswept hsame hclean rfl
  | disconnected hfinished hnext =>
      exact hswept rfl (.inl rfl) (by rw [hnext])

/-! ## What is kept -/

/-- A step of a watcher sends nothing, or its one message. It returns behind
the message, so a thread that has returned without this step had returned
before. -/
theorem messages_watchStep (job : ReadyWatch.Job) (a : ReadyWatch.Answers)
    (s : ReadyWatch.State) :
    ((ReadyWatch.watchStep job a s).messages = s.messages ∧
        ((ReadyWatch.watchStep job a s).phase = .returned →
          s.phase = .returned)) ∨
      (ReadyWatch.watchStep job a s).messages =
        job.serviceName :: s.messages := by
  obtain ⟨directory, watched, queue, phase, messages, notices⟩ := s
  cases phase with
  | found =>
      change _ ∨ (ReadyWatch.State.signal _ job a).messages = _
      rcases ReadyWatch.signal_cases
        ⟨directory, watched, queue, .found, messages, notices⟩ job a with
        ⟨e, notices', hend⟩ | ⟨notices', hend⟩
      · refine .inl ⟨?_, ?_⟩
        · change (ReadyWatch.State.signal _ job a).messages = _
          rw [hend]
        · change (ReadyWatch.State.signal _ job a).phase = _ → _
          rw [hend]
          exact fun h => nomatch h
      · rw [hend]
        exact .inr rfl
  | returned => exact .inl ⟨rfl, id⟩
  | failed e => exact .inl ⟨rfl, id⟩
  | firstCheck => left; simp only [ReadyWatch.watchStep]; split <;> simp
  | parts =>
      left
      simp only [ReadyWatch.watchStep]
      split <;> simp [ReadyWatch.State.fail]
  | init parent =>
      left
      simp only [ReadyWatch.watchStep]
      split <;> simp [ReadyWatch.State.fail]
  | add parent =>
      left
      simp only [ReadyWatch.watchStep]
      split <;> simp [ReadyWatch.State.fail]
  | secondCheck => left; simp only [ReadyWatch.watchStep]; split <;> simp
  | wait =>
      left
      simp only [ReadyWatch.watchStep]
      split
      · simp [ReadyWatch.State.fail]
      · split <;> simp
  | scan events =>
      left
      cases events with
      | nil => simp [ReadyWatch.watchStep]
      | cons event events =>
          simp only [ReadyWatch.watchStep]
          split <;> simp

/-- A watcher sees its directory as it is, overlooks nothing, and has sent its
message when it has returned. -/
structure InStep (tree : Tree Dir) (m : Machine Dir) (job : ReadyWatch.Job)
    (s : ReadyWatch.State) : Prop where
  directory : ∀ dir, job.parent = some dir →
    s.directory = m.dirs (tree.resolve dir)
  attentive : ReadyWatch.Attentive job s
  returned : s.phase = .returned → s.messages = [job.serviceName]

omit [DecidableEq Dir] in
/-- A watcher stays in step as long as nothing is done to the directories. -/
theorem InStep.of_dirs {job : ReadyWatch.Job} {s : ReadyWatch.State}
    (h : InStep tree m job s) (hdirs : m'.dirs = m.dirs) :
    InStep tree m' job s :=
  ⟨hdirs ▸ h.directory, h.attentive, h.returned⟩

omit [DecidableEq Dir] in
/-- A watcher stays in step when it takes a step. -/
theorem InStep.watchStep {job : ReadyWatch.Job} {s : ReadyWatch.State}
    (h : InStep tree m job s) (a : ReadyWatch.Answers)
    (hdirs : m'.dirs = m.dirs) :
    InStep tree m' job (ReadyWatch.watchStep job a s) := by
  have hattentive := h.attentive.watchStep a
  refine ⟨?_, hattentive, ?_⟩
  · intro dir hdir
    rw [ReadyWatch.directory_watchStep, hdirs]
    exact h.directory dir hdir
  · intro hdone
    rcases messages_watchStep job a s with ⟨hsame, hbefore⟩ | hsent
    · rw [hsame]
      exact h.returned (hbefore hdone)
    · rcases hattentive.sent with hnone | ⟨_, hone⟩
      · rw [hnone] at hsent
        cases hsent
      · exact hone

/-- The watchers that the services ask for. -/
def jobsOf (tree : Tree Dir) (services : List ServiceDef) :
    List ReadyWatch.Job :=
  services.filterMap fun svc => (watchOf tree svc).map Prod.snd

/-- What all the watchers have sent. -/
def Machine.sent (m : Machine Dir) : List String :=
  m.watchers.flatMap fun watcher => watcher.2.messages

/-- What every run of the machine keeps. -/
structure Tended (tree : Tree Dir) (services : List ServiceDef)
    (m : Machine Dir) : Prop where
  started : ∃ left, m.watchers.map Prod.fst ++ jobsOf tree m.pending ++ left =
    jobsOf tree services ∧ (m.ended = false → left = [])
  pending : m.pending <:+ services
  inStep : ∀ (i : Nat) job s, m.watchers[i]? = some (job, s) → InStep tree m job s
  conserved : (m.received ++ m.channel).Perm m.sent
  reported : ∀ n ∈ m.received, n ∈ m.executor.readyReported
  logged : ∀ n, .ready n ∈ m.executor.log → n ∈ m.received

namespace Tended

variable {services : List ServiceDef}

/-- An operation on a directory moves no message, and each watcher of the
directory sees it. -/
theorem operate (h : Tended tree services m) (dir : Dir)
    (op : ReadyWatch.DirectoryOp) :
    Tended tree services (m.operate tree dir op) := by
  refine ⟨?_, h.pending, ?_, ?_, h.reported, h.logged⟩
  · have hsame : (m.operate tree dir op).watchers.map Prod.fst =
        m.watchers.map Prod.fst := by
      unfold Machine.operate
      dsimp only
      rw [List.map_map]
      rfl
    rw [hsame]
    exact h.started
  · intro i job s' hi
    obtain ⟨s, hs, hmoved⟩ := moved_operate hi
    have hold := h.inStep i job s hs
    rcases hmoved with ⟨rfl, hdir⟩ | ⟨rfl, hdir⟩
    · refine ⟨?_, hold.attentive.operate op, hold.returned⟩
      intro parent hparent
      rw [hparent] at hdir
      have heq : tree.resolve parent = dir := Option.some.inj hdir
      have hhere : (m.operate tree dir op).dirs dir =
          (op.apply (m.dirs dir)).1 := Function.update_self ..
      rw [heq, hhere, ← heq, ← hold.directory parent hparent]
      rfl
    · refine ⟨?_, hold.attentive, hold.returned⟩
      intro parent hparent
      have hother : tree.resolve parent ≠ dir := by
        intro heq
        rw [hparent] at hdir
        exact hdir (congrArg some heq)
      have hsame : (m.operate tree dir op).dirs (tree.resolve parent) =
          m.dirs (tree.resolve parent) := Function.update_of_ne hother _ _
      rw [hsame]
      exact hold.directory parent hparent
  · have hsent : (m.operate tree dir op).sent = m.sent := by
      unfold Machine.sent Machine.operate
      dsimp only
      rw [List.flatMap_map]
      congr 1
      funext watcher
      dsimp only
      split <;> rfl
    rw [hsent]
    exact h.conserved

/-- The deletion of a stale file is such an operation. -/
theorem swept (h : Tended tree services m) (hswept : Swept tree m m') :
    Tended tree services m' := by
  rcases hswept with rfl | ⟨dir, name, rfl⟩
  · exact h
  · exact h.operate dir _

omit [DecidableEq Dir] in
/-- The next service is dealt with, and a watcher started, if it has one. The
watchers are in the order of the services that have one, so the new one comes
last. -/
theorem prepared (h : Tended tree services m)
    {svc : ServiceDef} {rest : List ServiceDef}
    (hpending : m.pending = svc :: rest)
    (more : List (ReadyWatch.Job × ReadyWatch.State))
    (hjobs : jobsOf tree [svc] = more.map Prod.fst)
    (hnew : ∀ watcher ∈ more, InStep tree m watcher.1 watcher.2 ∧
      watcher.2.messages = []) :
    Tended tree services
      { m with pending := rest, watchers := m.watchers ++ more } := by
  obtain ⟨left, heq, hleft⟩ := h.started
  refine ⟨⟨left, ?_, hleft⟩, ?_, ?_, ?_, h.reported, h.logged⟩
  · have hsplit : jobsOf tree (svc :: rest) =
        jobsOf tree [svc] ++ jobsOf tree rest := by
      unfold jobsOf
      rw [← List.filterMap_append]
      rfl
    rw [← heq, hpending, hsplit, hjobs, List.map_append]
    simp only [List.append_assoc]
  · refine List.IsSuffix.trans ?_ h.pending
    rw [hpending]
    exact List.suffix_cons svc rest
  · intro i job s hi
    dsimp only at hi
    rw [List.getElem?_append] at hi
    split at hi
    · exact (h.inStep i job s hi).of_dirs rfl
    · exact (hnew _ (List.mem_of_getElem? hi)).1.of_dirs rfl
  · have hnone : more.flatMap (fun watcher => watcher.2.messages) = [] := by
      rw [List.flatMap_eq_nil_iff]
      exact fun watcher hin => (hnew watcher hin).2
    have hsent : ({ m with
        pending := rest
        watchers := m.watchers ++ more } : Machine Dir).sent = m.sent := by
      unfold Machine.sent
      dsimp only
      rw [List.flatMap_append, hnone, List.append_nil]
    rw [hsent]
    exact h.conserved

omit [DecidableEq Dir] in
/-- A step of one watcher moves that watcher, and sends its message when it has
one. -/
theorem watched (h : Tended tree services m) {i : Nat}
    {job : ReadyWatch.Job} {s : ReadyWatch.State}
    (hwatcher : m.watchers[i]? = some (job, s)) (a : ReadyWatch.Answers) :
    Tended tree services
      (m.watched i job s (ReadyWatch.watchStep job a s)) := by
  refine ⟨?_, h.pending, ?_, ?_, h.reported, h.logged⟩
  · have hsame : (m.watched i job s
        (ReadyWatch.watchStep job a s)).watchers.map Prod.fst =
          m.watchers.map Prod.fst := by
      unfold Machine.watched
      dsimp only
      rw [List.map_set]
      refine List.ext_getElem? fun j => ?_
      rw [List.getElem?_set, List.getElem?_map]
      split
      · rename_i hij
        subst hij
        obtain ⟨hlt, heq⟩ := List.getElem?_eq_some_iff.mp hwatcher
        simp [hlt, heq]
      · rfl
    rw [hsame]
    exact h.started
  · intro j job' s' hj
    unfold Machine.watched at hj
    dsimp only at hj
    rw [List.getElem?_set] at hj
    split at hj
    · split at hj
      · cases hj
        exact (h.inStep i job s hwatcher).watchStep a rfl
      · cases hj
    · exact (h.inStep j job' s' hj).of_dirs rfl
  · obtain ⟨new, hnew, htake⟩ : ∃ new,
        (ReadyWatch.watchStep job a s).messages = new ++ s.messages ∧
          (ReadyWatch.watchStep job a s).messages.take
            ((ReadyWatch.watchStep job a s).messages.length -
              s.messages.length) = new := by
      rcases messages_watchStep job a s with ⟨hsame, _⟩ | hsent
      · exact ⟨[], by rw [hsame]; rfl, by simp [hsame]⟩
      · exact ⟨[job.serviceName], by rw [hsent]; rfl, by simp [hsent]⟩
    have hperm := flatMap_set_perm
      (f := fun watcher : ReadyWatch.Job × ReadyWatch.State =>
        watcher.2.messages)
      (a := (job, s)) (b := (job, ReadyWatch.watchStep job a s)) hnew hwatcher
    unfold Machine.watched
    dsimp only
    rw [htake, ← List.append_assoc]
    exact (h.conserved.append_right new).trans hperm.symm

end Tended

end Cases

/-! ## The executor's end of the channel -/

/-- Only a message read lets a move log that a service is ready. A final end
reports the service too, but logs only that it has finished. -/
theorem move_reads {t : Trigger} {v v' : View} (h : Move t v v') :
    v.reported ⊆ v'.reported ∧
      ∀ n, .ready n ∈ v'.log → .ready n ∈ v.log ∨ t = .ready n := by
  cases h with
  | @ready _ m newly hm hnew =>
      refine ⟨Finset.subset_insert _ _, ?_⟩
      intro n hn
      simp only [View.mark, View.setState, View.note, View.report,
        List.mem_cons, reduceCtorEq, false_or, Event.ready.injEq] at hn
      rcases hn with rfl | hn
      · exact .inr rfl
      · exact .inl hn
  | finishFirst hlive hm hnew =>
      refine ⟨Finset.subset_insert _ _, ?_⟩
      intro n hn
      simp only [View.mark, View.report, View.finish, View.reap,
        List.mem_cons, reduceCtorEq, false_or] at hn
      exact .inl hn
  | quiet => exact ⟨Finset.Subset.refl _, fun _ hn => .inl hn⟩
  | fallen hlive => exact ⟨Finset.Subset.refl _, fun _ hn => .inl hn⟩
  | reaped hlive => exact ⟨Finset.Subset.refl _, fun _ hn => .inl hn⟩
  | _ =>
      refine ⟨Finset.Subset.refl _, ?_⟩
      intro n hn
      simp only [View.mark, View.note, View.setState, View.popTo, View.run,
        View.reap, View.count, View.block, View.finish, List.mem_cons,
        reduceCtorEq, false_or] at hn
      exact .inl hn

/-- Reading a message reports its service, and the log tells of no service
for which no message was read. -/
theorem step_reads (cfg : Config) (w : World) (s : State) :
    s.readyReported ⊆ (step cfg w s).readyReported ∧
      (∀ n, readyMessage w s = some n →
        n ∈ (step cfg w s).readyReported) ∧
      ∀ n, .ready n ∈ (step cfg w s).log →
        .ready n ∈ s.log ∨ readyMessage w s = some n := by
  obtain ⟨t, hmove, htrigger⟩ := step_move cfg w s
  refine ⟨(move_reads hmove).1, ?_, ?_⟩
  · have hreport : ∀ n, n ∈ (reportReady s n).readyReported := by
      intro n
      unfold reportReady
      split
      · assumption
      · exact Finset.mem_insert_self n _
    intro n hn
    unfold readyMessage at hn
    split at hn
    · rename_i hphase
      simp only [step, hphase, hn]
      exact hreport n
    · rename_i hphase
      simp only [step, hphase, hn]
      exact hreport n
    · cases hn
  · intro n hn
    rcases (move_reads hmove).2 n hn with hold | rfl
    · exact .inl hold
    · exact .inr htrigger

section Runs

variable {Dir : Type} [DecidableEq Dir] {tree : Tree Dir} {cfg : Config}
  {m m' : Machine Dir} {services : List ServiceDef}

omit [DecidableEq Dir] in
/-- The executor's next message is the first in the channel. -/
theorem readyMessage_world (w : World) :
    (readyMessage (m.world w) m.executor).toList ++ m.channel.drop
      (readyMessage (m.world w) m.executor).toList.length = m.channel := by
  have hhead : m.channel.head?.toList ++
      m.channel.drop m.channel.head?.toList.length = m.channel := by
    cases m.channel with
    | nil => rfl
    | cons n rest => rfl
  unfold readyMessage
  split
  · exact hhead
  · exact hhead
  · rfl

omit [DecidableEq Dir] in
/-- The executor reads one message at most, and logs as ready what it has read.
-/
theorem Tended.executed (h : Tended tree services m) (w : World) :
    Tended tree services (m.executed cfg w) := by
  obtain ⟨hgrows, hreads, hlogs⟩ := step_reads cfg (m.world w) m.executor
  refine ⟨h.started, h.pending,
    fun i job s hi => (h.inStep i job s hi).of_dirs rfl, ?_, ?_, ?_⟩
  · change (m.received ++ _ ++ List.drop _ m.channel).Perm m.sent
    rw [List.append_assoc, readyMessage_world]
    exact h.conserved
  · intro n hn
    rcases List.mem_append.mp hn with hold | hnew
    · exact hgrows (h.reported n hold)
    · exact hreads n (Option.mem_toList.mp hnew)
  · intro n hn
    rcases hlogs n hn with hold | hnew
    · exact List.mem_append_left _ (h.logged n hold)
    · exact List.mem_append_right _ (Option.mem_toList.mpr hnew)

/-- **Every step is tended to.** A step of `main` goes on to the next service,
one of the executor reads the messages in the order in which they were sent,
and the others are steps of a watcher or of a directory. -/
theorem Tended.step (h : Tended tree services m) (cfg : Config)
    (action : Action Dir) :
    Tended tree services (m.step tree cfg action) := by
  cases step_cases tree cfg m action with
  | still hsame =>
      rw [hsame]
      exact h
  | @skipped _ _ svc rest hpending hwatch hnext =>
      rw [hnext]
      have hnone := h.prepared hpending [] (by simp [jobsOf, hwatch])
        (fun _ hin => nomatch hin)
      rw [List.append_nil] at hnone
      exact hnone
  | @started _ _ svc rest path job swept hpending hwatch hswept hnext =>
      rw [hnext]
      have hpending' : swept.pending = svc :: rest := by
        rcases hswept with rfl | ⟨dir, name, rfl⟩
        · exact hpending
        · exact hpending
      refine (h.swept hswept).prepared hpending' _ (by simp [jobsOf, hwatch])
        ?_
      intro watcher hin
      cases List.mem_singleton.mp hin
      refine ⟨⟨?_, ReadyWatch.Attentive.started job _, nofun⟩, rfl⟩
      intro dir hdir
      unfold Machine.found
      rw [hdir]
      rfl
  | @aborted _ _ swept hswept hnext =>
      rw [hnext]
      have hkept := h.swept hswept
      obtain ⟨left, heq, _⟩ := hkept.started
      refine ⟨⟨jobsOf tree swept.pending ++ left, ?_, nofun⟩,
        List.nil_suffix,
        fun i job s hi => (hkept.inStep i job s hi).of_dirs rfl,
        hkept.conserved, hkept.reported, hkept.logged⟩
      rw [← heq]
      simp [jobsOf]
  | operated hnext =>
      rw [hnext]
      exact h.operate _ _
  | watched hwatcher hnext =>
      rw [hnext]
      exact h.watched hwatcher _
  | executed hpending hgoing hswept => exact (h.executed _).swept hswept
  | disconnected hfinished hnext =>
      rw [hnext]
      obtain ⟨left, heq, _⟩ := h.started
      exact ⟨⟨left, heq, nofun⟩, h.pending,
        fun i job s hi => (h.inStep i job s hi).of_dirs rfl, h.conserved,
        h.reported, h.logged⟩

/-! ## The watcher of a service -/

omit [DecidableEq Dir] in
/-- The job of a service is made of its readiness path. -/
theorem watchOf_eq_some {svc : ServiceDef} {path : String}
    {job : ReadyWatch.Job} (h : watchOf tree svc = some (path, job)) :
    svc.readyPath = some path ∧ job.parent = parent path ∧
      job.fileName = fileName path ∧
      job.bareExists = tree.bareExists path ∧ job.serviceName = svc.name := by
  unfold watchOf at h
  split at h
  · cases h
  · rename_i ready hready
    split at h
    · cases h
    · rename_i path' hpath
      have hsvc : svc.readyPath = some path' := by
        simp [ServiceDef.readyPath, hready, hpath]
      cases hstrategy : ready.strategy with
      | pidfile =>
          rw [hstrategy] at h
          cases h
          exact ⟨hsvc, rfl, rfl, rfl, rfl⟩
      | socket =>
          rw [hstrategy] at h
          cases h
          exact ⟨hsvc, rfl, rfl, rfl, rfl⟩

omit [DecidableEq Dir] in
/-- Every service with a readiness path gets a watcher. -/
theorem exists_watchOf (tree : Tree Dir) {svc : ServiceDef} {path : String}
    (h : svc.readyPath = some path) :
    ∃ job, watchOf tree svc = some (path, job) := by
  unfold ServiceDef.readyPath at h
  unfold watchOf
  cases hready : svc.ready with
  | none => simp [hready] at h
  | some ready =>
      rw [hready] at h
      have hpath : ready.path = some path := h
      simp only [hpath]
      exact ⟨_, rfl⟩

/-- The parent of a path with a file name. -/
theorem parent_of_fileName {path name : String}
    (h : fileName path = some name) : ∃ dir, parent path = some dir :=
  Option.isSome_iff_exists.mp (parent_isSome path (by rw [h]; rfl))

omit [DecidableEq Dir] in
/-- A watcher in step finds its path there when it is there. -/
theorem InStep.pathExists_iff {svc : ServiceDef} {path : String}
    {job : ReadyWatch.Job} {s : ReadyWatch.State} (h : InStep tree m job s)
    (hwatch : watchOf tree svc = some (path, job)) :
    job.pathExists s.directory = true ↔ m.There tree path := by
  obtain ⟨_, hparent, hfile, hbare, _⟩ := watchOf_eq_some hwatch
  unfold ReadyWatch.Job.pathExists Machine.There Tree.place
  rw [hfile, hbare]
  cases hname : fileName path with
  | none =>
      cases parent path with
      | none => exact Iff.rfl
      | some dir => exact Iff.rfl
  | some name =>
      obtain ⟨dir, hdir⟩ := parent_of_fileName hname
      rw [hdir]
      dsimp only
      rw [decide_eq_true_eq, h.directory dir (hparent.trans hdir)]

omit [DecidableEq Dir] in
/-- Before `main` comes to the first service there is no watcher and no
message. -/
theorem Tended.initial (dirs : Dir → ReadyWatch.Directory)
    (readFile : String → Except String String) (order : IterOrder String)
    (g : ServiceGraph) (services : List ServiceDef) :
    Tended tree services
      (Machine.initial dirs cfg readFile order g services) := by
  refine ⟨⟨[], ?_, fun _ => rfl⟩, List.suffix_rfl, ?_, .refl _, ?_, ?_⟩
  · exact List.append_nil _
  · intro i job s hi
    cases hi
  · intro n hn
    cases hn
  · intro n hn
    cases hn

/-- Every state that is reached is tended to. -/
theorem Tended.run (h : Tended tree services m) (cfg : Config)
    (actions : List (Action Dir)) :
    Tended tree services (run (Machine.step tree cfg) m actions) :=
  run_keeps (Tended tree services) (fun _ => True)
    (fun action _ _ hs => hs.step cfg action) actions m (fun _ _ => True.intro) h

omit [DecidableEq Dir] in
/-- The watchers are started in the order of the services. -/
theorem Tended.job (h : Tended tree services m) {i : Nat}
    {job : ReadyWatch.Job} {s : ReadyWatch.State}
    (hi : m.watchers[i]? = some (job, s)) :
    (jobsOf tree services)[i]? = some job := by
  obtain ⟨left, heq, _⟩ := h.started
  have hlt : i < (m.watchers.map Prod.fst).length := by
    rw [List.length_map]
    exact (List.getElem?_eq_some_iff.mp hi).1
  rw [← heq, List.append_assoc, List.getElem?_append_left hlt,
    List.getElem?_map, hi]
  rfl

/-! ## Every readiness file is reported -/

/-- The watcher waits for the kernel, or is done. -/
def AtRest (s : ReadyWatch.State) : Prop :=
  (s.phase = .wait ∧ s.queue = []) ∨ s.phase = .returned ∨
    ∃ e, s.phase = .failed e

omit [DecidableEq Dir] in
/-- Of a channel that is empty, every message has been read. -/
theorem Tended.reported_of_returned (h : Tended tree services m)
    (hempty : m.channel = []) {i : Nat} {job : ReadyWatch.Job}
    {s : ReadyWatch.State} (hi : m.watchers[i]? = some (job, s))
    (hdone : s.phase = .returned) :
    job.serviceName ∈ m.executor.readyReported := by
  have hmessages := (h.inStep i job s hi).returned hdone
  have hsent : job.serviceName ∈ m.sent := by
    refine List.mem_flatMap.mpr ⟨(job, s), List.mem_of_getElem? hi, ?_⟩
    rw [hmessages]
    exact List.mem_singleton_self _
  have hread := h.conserved.mem_iff.mpr hsent
  rw [hempty, List.append_nil] at hread
  exact h.reported _ hread

omit [DecidableEq Dir] in
/-- When `main` has come past all services, each has its watcher. -/
theorem Tended.exists_watcher (h : Tended tree services m)
    (hpending : m.pending = []) (hgoing : m.ended = false)
    {svc : ServiceDef} (hsvc : svc ∈ services) {path : String}
    {job : ReadyWatch.Job} (hwatch : watchOf tree svc = some (path, job)) :
    ∃ (i : Nat) (s : ReadyWatch.State), m.watchers[i]? = some (job, s) := by
  obtain ⟨left, heq, hleft⟩ := h.started
  rw [hleft hgoing, hpending, List.append_nil] at heq
  have hjob : job ∈ jobsOf tree services := by
    refine List.mem_filterMap.mpr ⟨svc, hsvc, ?_⟩
    rw [hwatch]
    rfl
  have hnone : jobsOf tree [] = [] := rfl
  rw [← heq, hnone, List.append_nil] at hjob
  obtain ⟨⟨job', s⟩, hin, rfl⟩ := List.mem_map.mp hjob
  obtain ⟨i, hi⟩ := List.mem_iff_getElem?.mp hin
  exact ⟨i, s, hi⟩

/-- **Every readiness file is reported.**  Whatever the order in which `main`,
the watchers and the executor take their steps, and whatever is done to the
directories: the messages read and those in the channel are those that were
sent; and once all is at rest, each service whose readiness path is there has
been taken for ready, unless its watcher failed. -/
theorem every_ready_file_reported (tree : Tree Dir) (cfg : Config)
    (dirs : Dir → ReadyWatch.Directory)
    (readFile : String → Except String String) (order : IterOrder String)
    (g : ServiceGraph) (services : List ServiceDef)
    (actions : List (Action Dir)) (final : Machine Dir)
    (hfinal : final = Runs.run (Machine.step tree cfg)
      (Machine.initial dirs cfg readFile order g services) actions) :
    (final.received ++ final.channel).Perm final.sent ∧
      (final.pending = [] → final.ended = false → final.channel = [] →
        (∀ watcher ∈ final.watchers, AtRest watcher.2) →
        ∀ svc ∈ services, ∀ path, svc.readyPath = some path →
          final.There tree path →
            svc.name ∈ final.executor.readyReported ∨
              ∃ job s e, (job, s) ∈ final.watchers ∧
                watchOf tree svc = some (path, job) ∧
                s.phase = .failed e) := by
  have htended : Tended tree services final := by
    rw [hfinal]
    exact (Tended.initial dirs readFile order g services).run cfg actions
  refine ⟨htended.conserved, ?_⟩
  intro hpending hgoing hempty hrest svc hsvc path hpath hthere
  obtain ⟨job, hwatch⟩ := exists_watchOf tree hpath
  obtain ⟨i, s, hi⟩ := htended.exists_watcher hpending hgoing hsvc hwatch
  have hin := List.mem_of_getElem? hi
  have hname : job.serviceName = svc.name := (watchOf_eq_some hwatch).2.2.2.2
  rcases hrest _ hin with ⟨hwait, hqueue⟩ | hdone | ⟨e, hfailed⟩
  · -- an attentive watcher does not wait for a path that is there
    have hinstep := htended.inStep i job s hi
    obtain ⟨event, hevent, _⟩ := hinstep.attentive.ahead []
      (by rw [hwait]; rfl) ((hinstep.pathExists_iff hwatch).mpr hthere)
    rw [hqueue] at hevent
    cases hevent
  · left
    rw [← hname]
    exact htended.reported_of_returned hempty hi hdone
  · exact .inr ⟨job, s, e, hin, hwatch, hfailed⟩

/-! ## What a report comes of -/

omit [DecidableEq Dir] in
/-- A path with a file name stands for an entry of a directory. -/
theorem place_of_fileName (tree : Tree Dir) {path name : String}
    (h : fileName path = some name) :
    ∃ dir, tree.place path = some (dir, name) := by
  obtain ⟨dir, hdir⟩ := parent_of_fileName h
  refine ⟨tree.resolve dir, ?_⟩
  unfold Tree.place
  rw [hdir, h]

/-- A file that has been deleted is not there. -/
theorem not_there_unlink {path name : String}
    (h : fileName path = some name) :
    ¬ (m.unlink tree path).There tree path := by
  obtain ⟨dir, hplace⟩ := place_of_fileName tree h
  unfold Machine.There Machine.unlink
  rw [hplace]
  dsimp only [Machine.operate]
  rw [Function.update_self]
  unfold ReadyWatch.DirectoryOp.apply
  dsimp only
  split
  · exact Finset.notMem_erase name _
  · assumption

/-- The watcher of a service is the last that was started, and has done
nothing. -/
def JustStarted (tree : Tree Dir) (m : Machine Dir) (svc : ServiceDef)
    (path : String) : Prop :=
  ∃ job, watchOf tree svc = some (path, job) ∧
    m.watchers.getLast? = some (job, ReadyWatch.started (m.found tree job))

/-- What is true of a step that starts a watcher: it is for the next service,
whose path is then not there, if its file could be deleted. -/
structure Starts (tree : Tree Dir) (m m' : Machine Dir) (removes : Bool)
    (svc : ServiceDef) (path : String) : Prop where
  pending : svc ∈ m.pending
  started : JustStarted tree m' svc path
  length : m'.watchers.length = m.watchers.length + 1
  absent : removes = true → ∀ name, fileName path = some name →
    ¬ m'.There tree path

/-- A step starts no watcher, or one. That is the step of `main` at a service
with a readiness path, and `Starts` says what it found. -/
theorem length_watchers_step (tree : Tree Dir) (cfg : Config)
    (m : Machine Dir) (action : Action Dir) :
    (m.step tree cfg action).watchers.length = m.watchers.length ∨
      ∃ removes creates svc path, action = .prepare removes creates ∧
        Starts tree m (m.step tree cfg action) removes svc path := by
  cases action with
  | prepare removes creates =>
      change (m.prepare tree removes creates).watchers.length = _ ∨
        ∃ removes' creates' svc path, _ ∧
          Starts tree m (m.prepare tree removes creates) removes' svc path
      unfold Machine.prepare
      split
      · exact .inl rfl
      · rename_i svc rest hpending
        split
        · exact .inl rfl
        · rename_i path job hwatch
          have hlen : (if removes then m.unlink tree path else
              m).watchers.length = m.watchers.length := by
            split
            · exact (swept_unlink m path).length
            · rfl
          dsimp only
          split
          · refine .inr ⟨removes, creates, svc, path, rfl, ?_,
              ⟨job, hwatch, ?_⟩, ?_, ?_⟩
            · rw [hpending]
              exact List.mem_cons_self
            · rw [List.getLast?_concat]
              rfl
            · rw [List.length_append, hlen]
              rfl
            · intro hremoves name hname
              subst hremoves
              exact not_there_unlink hname
          · exact .inl hlen
  | operate dir op => exact .inl (List.length_map _)
  | watch i answers =>
      left
      change (m.watch i answers).watchers.length = _
      unfold Machine.watch
      split
      · rfl
      · exact List.length_set
  | execute w unlinks =>
      left
      unfold Machine.step
      dsimp only
      split
      · exact (execute_swept m w unlinks).length
      · rfl
  | disconnect =>
      left
      unfold Machine.step
      dsimp only
      split <;> rfl

omit [DecidableEq Dir] in
/-- The executor says that a service is ready when one of the watchers has sent
its message. -/
theorem Tended.sent_of_ready (h : Tended tree services m) {name : String}
    (hready : .ready name ∈ m.executor.log) :
    ∃ (i : Nat) (job : ReadyWatch.Job) (s : ReadyWatch.State),
      m.watchers[i]? = some (job, s) ∧ job.serviceName = name ∧
        s.messages ≠ [] := by
  have hread : name ∈ m.received ++ m.channel :=
    List.mem_append_left _ (h.logged name hready)
  obtain ⟨⟨job, s⟩, hin, hsent⟩ :=
    List.mem_flatMap.mp (h.conserved.mem_iff.mp hread)
  dsimp only at hsent
  obtain ⟨i, hi⟩ := List.mem_iff_getElem?.mp hin
  refine ⟨i, job, s, hi, ?_, List.ne_nil_of_mem hsent⟩
  rcases (h.inStep i job s hi).attentive.sent with hnone | ⟨_, hone⟩
  · rw [hnone] at hsent
    cases hsent
  · rw [hone] at hsent
    exact (List.mem_singleton.mp hsent).symm

/-- In the run from `m` there is an operation, at a moment when the path is not
there, that brings it into being, or that closes a file which had its name and
was gone in `m` already. -/
def NewOrClosed (tree : Tree Dir) (cfg : Config) (path : String)
    (m : Machine Dir) (actions : List (Action Dir)) : Prop :=
  ∃ before dir op after, actions = before ++ .operate dir op :: after ∧
    ¬ (Runs.run (Machine.step tree cfg) m before).There tree path ∧
    (((Runs.run (Machine.step tree cfg) m before).operate tree dir op).There
        tree path ∨
      ∃ filename, tree.place path = some (dir, filename) ∧
        op = .closeWrite filename ∧ filename ∈ (m.dirs dir).gone)

/-- A path that comes to be there is brought into being by an operation. -/
theorem new_of_passed {path : String} (habsent : ¬ m.There tree path)
    {actions : List (Action Dir)}
    (hpassed : Passed (Machine.step tree cfg) (fun m' => m'.There tree path) m
      actions) : NewOrClosed tree cfg path m actions := by
  obtain ⟨seen, rest, hactions, hthere⟩ := hpassed
  obtain ⟨before, action, after, hseen, hbefore, hafter⟩ :=
    run_enters (fun m' => m'.There tree path) seen m habsent hthere
  obtain ⟨dir, op, rfl⟩ :=
    (step_cases tree cfg _ action).appears hbefore hafter
  refine ⟨before, dir, op, after ++ rest, ?_, hbefore, .inl hafter⟩
  rw [hactions, hseen, List.append_assoc, List.cons_append]

/-- A file that is gone at the end of a run was gone at its start, or the run
has come past its being there. -/
theorem gone_run (tree : Tree Dir) (cfg : Config) {dir : Dir}
    {filename : String} {actions : List (Action Dir)}
    (hgone : filename ∈
      ((Runs.run (Machine.step tree cfg) m actions).dirs dir).gone) :
    filename ∈ (m.dirs dir).gone ∨
      Passed (Machine.step tree cfg)
        (fun m' => filename ∈ (m'.dirs dir).files) m actions :=
  passed_of_evidence (fun m' : Machine Dir => filename ∈ (m'.dirs dir).files)
    (fun m' => filename ∈ (m'.dirs dir).gone)
    (fun action m' hnext =>
      ((step_cases tree cfg m' action).gone hnext).imp_right .inl)
    actions m hgone

omit [DecidableEq Dir] in
/-- What a watcher is to look at: the place that its path stands for. -/
theorem place_of_watchOf {svc : ServiceDef} {path filename : String}
    {job : ReadyWatch.Job} {dir : Dir}
    (hwatch : watchOf tree svc = some (path, job))
    (hdir : job.parent.map tree.resolve = some dir)
    (hfile : job.fileName = some filename) :
    tree.place path = some (dir, filename) := by
  obtain ⟨_, hparent, hname, _, _⟩ := watchOf_eq_some hwatch
  obtain ⟨parent, hsome, rfl⟩ := Option.map_eq_some_iff.mp hdir
  unfold Tree.place
  rw [← hparent, hsome, ← hname, hfile]

omit [DecidableEq Dir] in
/-- What the `i`-th watcher would find is there. -/
theorem Tended.there_of_seen (h : Tended tree services m) {i : Nat}
    {svc : ServiceDef} {path : String} {job : ReadyWatch.Job}
    (hwatch : watchOf tree svc = some (path, job))
    (hjob : (jobsOf tree services)[i]? = some job) (hseen : SeenBy i m) :
    m.There tree path := by
  obtain ⟨job', s, hs, hexists⟩ := hseen
  have hsame : job' = job := Option.some.inj ((h.job hs).symm.trans hjob)
  subst hsame
  exact ((h.inStep i job' s hs).pathExists_iff hwatch).mp hexists

/-- **What a message comes of.**  If the `i`-th watcher starts in a state in
which its path is not there, and later has sent its message, then an operation
has brought the path into being or has closed a file that was gone before. -/
theorem Tended.new_or_closed (h : Tended tree services m) {i : Nat}
    {svc : ServiceDef} {path : String} {job : ReadyWatch.Job}
    (hwatch : watchOf tree svc = some (path, job)) {d : ReadyWatch.Directory}
    (hstart : m.watchers[i]? = some (job, ReadyWatch.started d))
    (habsent : ¬ m.There tree path) {actions : List (Action Dir)}
    {job' : ReadyWatch.Job} {s : ReadyWatch.State}
    (hend : (Runs.run (Machine.step tree cfg) m actions).watchers[i]? =
      some (job', s))
    (hsent : s.messages ≠ []) : NewOrClosed tree cfg path m actions := by
  by_cases hpassed : Passed (Machine.step tree cfg)
      (fun m' => m'.There tree path) m actions
  · exact new_of_passed habsent hpassed
  -- there is no evidence at the start; it begins in some step
  have hnone : ¬ EvidenceOf i m := by
    rintro ⟨job₀, s₀, hs₀, hevidence⟩
    rw [hstart] at hs₀
    cases hs₀
    exact ReadyWatch.not_evidence_started job d hevidence
  obtain ⟨before, action, after, hactions, hbefore, hafter⟩ :=
    run_enters (EvidenceOf i) actions m hnone
      ⟨job', s, hend, .inr (.inr (.inr hsent))⟩
  have hthen := h.run cfg before
  have hjob := h.job hstart
  have hnever : ¬ (Runs.run (Machine.step tree cfg) m before).There tree path :=
    fun hthere => hpassed ⟨before, _, hactions, hthere⟩
  rcases (step_cases tree cfg _ action).evidence hafter with
    hold | hseen | hseen | ⟨job₁, s₁, dir, op, hs₁, hdir, rfl, hstale⟩
  · exact absurd hold hbefore
  · exact absurd (hthen.there_of_seen hwatch hjob hseen) hnever
  · refine absurd ⟨before ++ [action], after, ?_, ?_⟩ hpassed
    · rw [hactions, List.append_assoc, List.singleton_append]
    · rw [run_append]
      exact (hthen.step cfg action).there_of_seen hwatch hjob hseen
  obtain ⟨filename, hfile, rfl, hgone⟩ := hstale
  have hsame : job₁ = job := Option.some.inj ((hthen.job hs₁).symm.trans hjob)
  subst hsame
  have hplace := place_of_watchOf hwatch hdir hfile
  obtain ⟨parent, hparent, rfl⟩ := Option.map_eq_some_iff.mp hdir
  rw [(hthen.inStep i job₁ s₁ hs₁).directory parent hparent] at hgone
  refine ⟨before, _, _, after, hactions, hnever, .inr
    ⟨filename, hplace, rfl, (gone_run tree cfg hgone).resolve_right ?_⟩⟩
  rintro ⟨seen, rest, rfl, hfiles⟩
  refine hpassed ⟨seen, _, hactions.trans (List.append_assoc _ _ _), ?_⟩
  unfold Machine.There
  rw [hplace]
  exact hfiles

/-- From a tended state without watchers, all that is reported has a cause in
the run. -/
theorem Tended.new_of_ready (h : Tended tree services m)
    (hnone : m.watchers = [])
    (hnamed : ∀ svc ∈ services, ∀ path, svc.readyPath = some path →
      ∃ name, fileName path = some name)
    {actions : List (Action Dir)}
    (hremoved : ∀ creates, Action.prepare false creates ∉ actions)
    {name : String}
    (hready : .ready name ∈
      (Runs.run (Machine.step tree cfg) m actions).executor.log) :
    ∃ svc ∈ services, svc.name = name ∧
      ∃ path, svc.readyPath = some path ∧
        ∃ earlier creates later,
          actions = earlier ++ .prepare true creates :: later ∧
          ∃ m', m' = Runs.run (Machine.step tree cfg) m
              (earlier ++ [.prepare true creates]) ∧
            JustStarted tree m' svc path ∧
            NewOrClosed tree cfg path m' later := by
  obtain ⟨i, job', s, hend, hname, hsent⟩ :=
    (h.run cfg actions).sent_of_ready hready
  have hstart : ¬ i < m.watchers.length := by
    rw [hnone]
    exact Nat.not_lt_zero i
  -- the step that starts the watcher
  obtain ⟨earlier, action, later, hactions, hbefore, hstarted⟩ :=
    run_enters (fun m' : Machine Dir => i < m'.watchers.length) actions m
      hstart (List.getElem?_eq_some_iff.mp hend).1
  have hm := h.run cfg earlier
  rw [hactions, run_append] at hend
  rw [hactions] at hremoved
  generalize hm₀ : Runs.run (Machine.step tree cfg) m earlier = m₀ at *
  rcases length_watchers_step tree cfg m₀ action with
    hsame | ⟨removes, creates, svc, path, rfl, hstarts⟩
  · rw [hsame] at hstarted
    exact absurd hstarted hbefore
  obtain ⟨job, hwatch, hlast⟩ := hstarts.started
  have hlen := hstarts.length
  have hi : i = (m₀.step tree cfg (.prepare removes creates)).watchers.length -
      1 := by
    omega
  rw [List.getLast?_eq_getElem?, ← hi] at hlast
  have hsvc := hm.pending.mem hstarts.pending
  obtain ⟨hpath, _, _, _, hserves⟩ := watchOf_eq_some hwatch
  obtain ⟨file, hfile⟩ := hnamed svc hsvc path hpath
  have hremoves : removes = true := by
    cases removes with
    | true => rfl
    | false =>
        exact absurd (List.mem_append_right _ List.mem_cons_self)
          (hremoved creates)
  subst hremoves
  have hnext := hm.step cfg (.prepare true creates)
  have hjob : job' = job :=
    Option.some.inj (((hnext.run cfg later).job hend).symm.trans
      (hnext.job hlast))
  refine ⟨svc, hsvc, ?_, path, hpath, earlier, creates, later, hactions,
    m₀.step tree cfg (.prepare true creates), ?_, hstarts.started, ?_⟩
  · rw [← hserves, ← hjob, hname]
  · rw [run_append, hm₀]
    rfl
  · exact hnext.new_or_closed hwatch hlast (hstarts.absent rfl file hfile) hend
      hsent

/-- **What a report comes of.**  If every stale file can be deleted and every
readiness path has a file name: whenever the executor says that a service is
ready, its watcher was started in some step of the run, and after that, at a
moment when the readiness path was not there, an operation either brought it
into being or closed a file that had its name and had been deleted or replaced
before the watcher was started. -/
theorem ready_file_is_new_or_closed (tree : Tree Dir) (cfg : Config)
    (dirs : Dir → ReadyWatch.Directory)
    (readFile : String → Except String String) (order : IterOrder String)
    (g : ServiceGraph) (services : List ServiceDef)
    (hnamed : ∀ svc ∈ services, ∀ path, svc.readyPath = some path →
      ∃ name, fileName path = some name)
    (actions : List (Action Dir))
    (hremoved : ∀ creates, Action.prepare false creates ∉ actions)
    (name : String)
    (hready : .ready name ∈ (Runs.run (Machine.step tree cfg)
      (Machine.initial dirs cfg readFile order g services)
      actions).executor.log) :
    ∃ svc ∈ services, svc.name = name ∧
      ∃ path, svc.readyPath = some path ∧
        ∃ earlier creates later,
          actions = earlier ++ .prepare true creates :: later ∧
          ∃ m, m = Runs.run (Machine.step tree cfg)
              (Machine.initial dirs cfg readFile order g services)
              (earlier ++ [.prepare true creates]) ∧
            JustStarted tree m svc path ∧
            NewOrClosed tree cfg path m later :=
  (Tended.initial dirs readFile order g services).new_of_ready rfl hnamed
    hremoved hready

end Runs

/-! ## A service that writes a pid file -/

def notifyingJob : List ServiceDef :=
  oneJob.map fun svc =>
    { svc with ready := some ⟨.pidfile, some "/run/job.pid"⟩ }

/-- Directories known by their paths. -/
def plainTree : Tree String := ⟨id, fun _ => false⟩

/-- A pid file of an earlier boot, which its daemon keeps open. -/
def staleFiles (dir : String) : ReadyWatch.Directory :=
  if dir = "/run" then ⟨{"job.pid"}, ∅⟩ else ⟨∅, ∅⟩

/-- Something is done to the directory while the watcher waits. -/
def notifiedBy (op : ReadyWatch.DirectoryOp) : List (Action String) :=
  .prepare true true :: List.replicate 5 (.watch 0 .fine) ++
    List.replicate 5 (.execute .idle true) ++
      .operate "/run" op ::
        (List.replicate 3 (.watch 0 .fine) ++ [.execute .idle true])

/-- The job writes its pid file. -/
def notified : List (Action String) := notifiedBy (.create "job.pid")

/-- The job's file is created when its watcher waits, and the job is taken for
ready. -/
theorem every_ready_file_reported_job :
    ∃ g, ServiceGraph.build .asStored notifyingJob = .ok (.ok g) ∧
      let final := Runs.run (Machine.step plainTree .bare)
        (Machine.initial staleFiles .bare (fun _ => .error "") (.asStored _) g
          notifyingJob) notified
      ∀ svc ∈ notifyingJob, svc.name ∈ final.executor.readyReported ∨
        ∃ job s e, (job, s) ∈ final.watchers ∧
          watchOf plainTree svc = some ("/run/job.pid", job) ∧
          s.phase = .failed e := by
  refine ⟨_, rfl, ?_⟩
  intro final svc hsvc
  have hdone : ∀ watcher ∈ final.watchers, watcher.2.phase = .returned := by
    decide +kernel
  have hpath : svc.readyPath = some "/run/job.pid" := by
    rw [List.mem_singleton.mp hsvc]
    rfl
  exact (every_ready_file_reported plainTree .bare staleFiles
    (fun _ => .error "") (.asStored _) _ notifyingJob notified final rfl).2
    (by decide +kernel) (by decide +kernel) (by decide +kernel)
    (fun watcher hin => .inr (.inl (hdone watcher hin))) svc hsvc _ hpath
    (by decide +kernel)

/-- The daemon of the earlier boot ends, which closes its pid file. -/
def closedByOldDaemon : List (Action String) :=
  notifiedBy (.closeWrite "job.pid")

/-- The old daemon closes the file that `main` has deleted, and the job is
taken for ready without a file. -/
theorem ready_file_is_new_or_closed_job :
    ∃ g, ServiceGraph.build .asStored notifyingJob = .ok (.ok g) ∧
      ∃ svc ∈ notifyingJob, svc.name = "job" ∧
        ∃ path, svc.readyPath = some path ∧
          ∃ earlier creates later,
            closedByOldDaemon = earlier ++ .prepare true creates :: later ∧
            ∃ m, m = Runs.run (Machine.step plainTree .bare)
                (Machine.initial staleFiles .bare (fun _ => .error "")
                  (.asStored _) g notifyingJob)
                (earlier ++ [.prepare true creates]) ∧
              JustStarted plainTree m svc path ∧
              NewOrClosed plainTree .bare path m later := by
  refine ⟨_, rfl, ready_file_is_new_or_closed plainTree .bare staleFiles
    (fun _ => .error "") (.asStored _) _ notifyingJob ?_ closedByOldDaemon ?_
    "job" ?_⟩
  · intro svc hsvc path hpath
    have hsame : svc.readyPath = some "/run/job.pid" := by
      rw [List.mem_singleton.mp hsvc]
      rfl
    cases hsame.symm.trans hpath
    exact ⟨"job.pid", by decide +kernel⟩
  · intro creates hin
    simp [closedByOldDaemon, notifiedBy] at hin
  · decide +kernel

end FlintInit.Readiness
