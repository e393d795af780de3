import FlintInit.LiveProcesses

/-!
# The order of the boot

`graph.mark_ready` is to be called once for each name, and the launch loop is
to spawn a service after everything it depends on is settled: reported ready,
ended for good, or blocked.  The guard against a second mark is the set
`ready_reported`, and the branch that marks a blocked service does not enter
the service in it.  Both promises hold in every run in which that branch and
the guarded places do not meet on one name, and `blocked_marked_twice` is a
run in which they do.

With one mark for each name the counters show the load of the waiting net
under the marks so far, so a service on the launch queue waits for marked
names only.
-/

namespace FlintInit

open Collections Release Runs

/-- A service its dependents need not wait for any more. -/
def Settled (log : List Event) (n : String) : Prop :=
  .ready n ∈ log ∨ (∃ ending exhausted, .finished n ending exhausted ∈ log) ∨
    .blocked n ∈ log

/-- What is settled stays settled: the log only grows. -/
theorem Settled.mono {log log' : List Event} (hsub : log ⊆ log') {n : String}
    (h : Settled log n) : Settled log' n := by
  rcases h with h | ⟨ending, exhausted, h⟩ | h
  · exact .inl (hsub h)
  · exact .inr (.inl ⟨ending, exhausted, hsub h⟩)
  · exact .inr (.inr (hsub h))

/-- The launch loop spawns a service over settled dependencies. -/
def LaunchAfter (N : Net String) (e : Event) (log : List Event) : Prop :=
  ∀ x pid, e = .spawned .launch x pid → ∀ d, N.Waits x d → Settled log d

/-- The marks so far, and what they say about the log and the counters. -/
structure Ordered (N : Net String) (v : View) : Prop where
  queued : Queued N v
  nodup : v.marks.Nodup
  mem : ∀ n, n ∈ v.marks ↔ n ∈ v.reported ∨ .blocked n ∈ v.log
  degree : ∀ x, v.degree x = N.load v.marks.toFinset x
  settled : ∀ n ∈ v.marks, Settled v.log n
  blocked : ∀ n, .blocked n ∈ v.log → n ∈ v.popped
  order : Preceded (LaunchAfter N) v.log

namespace Ordered

variable {N : Net String} {v v' : View}

/-- What is on the launch queue waits for settled services only. -/
theorem settled_of_queue (h : Ordered N v) {x d : String}
    (hx : x ∈ v.queue) (hw : N.Waits x d) : Settled v.log d := by
  have hzero := (h.queued.queue_sub hx).2
  rw [h.degree] at hzero
  have hd := N.load_eq_zero_iff.mp hzero d hw
  exact h.settled d (List.mem_toFinset.mp hd)

/-- A move without a mark. -/
theorem keep (h : Ordered N v) (hqueued : Queued N v')
    (hmarks : v'.marks = v.marks) (hdegree : v'.degree = v.degree)
    (hreported : v'.reported = v.reported)
    (hblocked : ∀ n, .blocked n ∈ v'.log ↔ .blocked n ∈ v.log)
    (hpopped : v.popped ⊆ v'.popped) (hlog : v.log ⊆ v'.log)
    (horder : Preceded (LaunchAfter N) v'.log) : Ordered N v' := by
  refine ⟨hqueued, ?_, ?_, ?_, ?_, ?_, horder⟩
  · rw [hmarks]; exact h.nodup
  · intro n
    rw [hmarks, hreported, hblocked]
    exact h.mem n
  · intro x
    rw [hmarks, hdegree]
    exact h.degree x
  · intro n hn
    rw [hmarks] at hn
    exact (h.settled n hn).mono hlog
  · intro n hn
    exact hpopped (h.blocked n ((hblocked n).mp hn))

/-- **A mark of a new name** keeps the counters equal to the load. -/
theorem mark (h : Ordered N v) {n : String} (hn : n ∉ v.marks)
    (hqueued : Queued N v') (hmarks : v'.marks = n :: v.marks)
    (hdegree : ∀ x, v'.degree x =
      v.degree x - (v.shape.dependents n).count x)
    (hmem : ∀ m, m ∈ v'.reported ∨ .blocked m ∈ v'.log ↔
      m = n ∨ m ∈ v.reported ∨ .blocked m ∈ v.log)
    (hsettled : Settled v'.log n)
    (hblocked : ∀ m, .blocked m ∈ v'.log → m ∈ v'.popped)
    (hlog : v.log ⊆ v'.log) (horder : Preceded (LaunchAfter N) v'.log) :
    Ordered N v' := by
  refine ⟨hqueued, ?_, ?_, ?_, ?_, hblocked, horder⟩
  · rw [hmarks]
    exact List.nodup_cons.mpr ⟨hn, h.nodup⟩
  · intro m
    rw [hmarks, List.mem_cons, hmem, h.mem]
  · intro x
    have hins : (n :: v.marks).toFinset = insert n v.marks.toFinset :=
      List.toFinset_cons
    rw [hmarks, hins, N.load_insert (by simpa using hn), hdegree, h.degree,
      h.queued.dependents]
  · intro m hm
    rw [hmarks] at hm
    rcases List.mem_cons.mp hm with rfl | hm
    · exact hsettled
    · exact (h.settled m hm).mono hlog

/-- **Every move keeps the order**, provided a name is never marked a second
time because it was blocked. -/
theorem move (h : Ordered N v) {t : Trigger} (hmove : Move t v v')
    (hready : ∀ n, t = .ready n → n ∉ v.reported → .blocked n ∉ v.log)
    (hfinish : ∀ n pid ending exhausted, t = .finish n pid ending exhausted →
      n ∉ v.reported → .blocked n ∉ v.log)
    (hpop : ∀ n, t = .popBlocked n → n ∉ v.reported) : Ordered N v' := by
  have hqueued := h.queued.move hmove
  have hunmarked : ∀ {n}, n ∉ v.reported → .blocked n ∉ v.log →
      n ∉ v.marks := by
    intro n hrep hblocked hn
    rcases (h.mem n).mp hn with hn | hn
    · exact hrep hn
    · exact hblocked hn
  -- An event that is not a launch puts no demand on the log before it.
  have hother : ∀ {e : Event} {log : List Event},
      (∀ x pid, e ≠ .spawned .launch x pid) →
      Preceded (LaunchAfter N) log → Preceded (LaunchAfter N) (e :: log) :=
    fun hne hlog => ⟨fun x pid he => absurd he (hne x pid), hlog⟩
  cases hmove with
  | quiet => exact h
  | @ready _ n newly hn hnew =>
      refine h.mark (hunmarked hn (hready n rfl hn)) hqueued rfl
        (fun _ => rfl) ?_ ?_ ?_ ?_ ?_
      · intro m
        simp [View.mark, View.setState, View.note, View.report, or_assoc]
      · exact .inl (by simp [View.mark, View.setState, View.note])
      · intro m hm
        simp only [View.mark, View.setState, View.note, View.report,
          List.mem_cons, reduceCtorEq, false_or] at hm
        exact h.blocked m hm
      · exact fun e he => List.mem_cons_of_mem _ (List.mem_cons_of_mem _ he)
      · exact hother (by simp) (hother (by simp) h.order)
  | @popBlocked _ n rest newly hq hb hnew =>
      have hnpop := h.queued.notMem_popped hq
      have hnblocked : .blocked n ∉ v.log := fun hn => hnpop (h.blocked n hn)
      refine h.mark (hunmarked (hpop n rfl) hnblocked) hqueued rfl
        (fun _ => rfl) ?_ ?_ ?_ ?_ ?_
      · intro m
        simp [View.mark, View.setState, View.note, View.popTo, View.block,
          View.count, or_left_comm]
      · exact .inr (.inr (by
          simp [View.mark, View.setState, View.note, View.block,
            View.count]))
      · intro m hm
        simp only [View.mark, View.setState, View.note, View.popTo,
          View.block, View.count, List.mem_cons, reduceCtorEq, false_or,
          Event.blocked.injEq] at hm
        rcases hm with rfl | hm
        · exact List.mem_cons_self
        · exact List.mem_cons_of_mem _ (h.blocked m hm)
      · exact fun e he => List.mem_cons_of_mem _
          (List.mem_cons_of_mem _ (List.mem_cons_of_mem _ he))
      · exact hother (by simp) (hother (by simp) (hother (by simp) h.order))
  | popIdle hq hb =>
      refine h.keep hqueued rfl rfl rfl ?_ ?_ ?_ (hother (by simp) h.order)
      · intro m; simp [View.popTo]
      · exact fun m hm => List.mem_cons_of_mem _ hm
      · exact fun e he => List.mem_cons_of_mem _ he
  | @launch _ n rest pid hq hb hfresh =>
      refine h.keep hqueued rfl rfl rfl ?_ ?_ ?_ ?_
      · intro m; simp [View.popTo, View.run]
      · exact fun m hm => List.mem_cons_of_mem _ hm
      · exact fun e he => List.mem_cons_of_mem _ (List.mem_cons_of_mem _ he)
      · refine ⟨?_, hother (by simp) h.order⟩
        intro x pid' he d hw
        cases he
        have hd := h.settled_of_queue (by simp [hq]) hw
        exact hd.mono (List.subset_cons_self ..)
  | demand hidle hfresh =>
      refine h.keep hqueued rfl rfl rfl ?_ ?_ ?_ (hother (by simp) h.order)
      · intro m; simp [View.run]
      · exact fun m hm => hm
      · exact fun e he => List.mem_cons_of_mem _ he
  | @respawn _ n old new cause hlive hcause hfresh =>
      refine h.keep hqueued rfl rfl rfl ?_ ?_ ?_ (hother ?_ h.order)
      · intro m; simp [View.run, View.reap]
      · exact fun m hm => hm
      · exact fun e he => List.mem_cons_of_mem _ he
      · rcases hcause with rfl | rfl <;> simp
  | fallen hlive =>
      exact h.keep hqueued rfl rfl rfl (fun _ => Iff.rfl)
        (fun _ hm => hm) (fun _ he => he) h.order
  | reaped hlive =>
      exact h.keep hqueued rfl rfl rfl (fun _ => Iff.rfl)
        (fun _ hm => hm) (fun _ he => he) h.order
  | finishAgain hlive hn =>
      refine h.keep hqueued rfl rfl rfl ?_ ?_ ?_ (hother (by simp) h.order)
      · intro m; simp [View.finish, View.reap]
      · exact fun m hm => hm
      · exact fun e he => List.mem_cons_of_mem _ he
  | @finishFirst _ n pid ending exhausted newly hlive hn hnew =>
      refine h.mark (hunmarked hn (hfinish n pid ending exhausted rfl hn))
        hqueued rfl (fun _ => rfl) ?_ ?_ ?_ ?_ ?_
      · intro m
        simp [View.mark, View.finish, View.report, View.reap, or_assoc]
      · exact .inr (.inl ⟨ending, exhausted, by
          simp [View.mark, View.finish, View.report]⟩)
      · intro m hm
        simp only [View.mark, View.finish, View.report, View.reap,
          List.mem_cons, reduceCtorEq, false_or] at hm
        exact h.blocked m hm
      · exact fun e he => List.mem_cons_of_mem _ (List.mem_cons_of_mem _ he)
      · exact hother (by simp) (hother (by simp) h.order)
  | lost _ pid =>
      refine h.keep hqueued rfl rfl rfl ?_ ?_ ?_ (hother (by simp) h.order)
      · intro m; simp [View.count, View.note, View.reap]
      · exact fun m hm => hm
      · exact fun e he => List.mem_cons_of_mem _ he

end Ordered

/-! ## Runs -/

/-- No service is both blocked and entered in `ready_reported`, in either
order. -/
def BlockedApart (w : World) (s : State) : Prop :=
  (∀ n ∈ readyMessage w s, n ∉ s.readyReported → Event.blocked n ∉ s.log) ∧
  (∀ n ∈ endedForGood w s, n ∉ s.readyReported → Event.blocked n ∉ s.log) ∧
  (∀ n ∈ nextPop s, n ∈ s.blockedServices → n ∉ s.readyReported)

instance (w : World) (s : State) : Decidable (BlockedApart w s) :=
  inferInstanceAs (Decidable ((∀ n ∈ readyMessage w s, _) ∧
    (∀ n ∈ endedForGood w s, _) ∧ ∀ n ∈ nextPop s, _))

/-- Before the first step nothing has been marked, spawned or blocked. -/
theorem initial_ordered {orders : BuildOrders} {services : List ServiceDef}
    {g : ServiceGraph}
    (hg : ServiceGraph.build orders services = .ok (.ok g)) (cfg : Config)
    (readFile : String → Except String String) (order : IterOrder String) :
    Ordered (waitNet orders services)
      (initial cfg readFile order g services).view := by
  refine ⟨initial_queued cfg readFile order hg, List.nodup_nil, ?_,
    (build_built hg).graphAt.degree, fun _ hn => (nomatch hn),
    fun _ hn => (nomatch hn), True.intro⟩
  intro n
  simp [View.marks, State.view, initial]

/-- What the popped name of a blocked pop is. -/
private theorem Move.popBlocked_blocked {v v' : View} {n : String}
    (h : Move (.popBlocked n) v v') : n ∈ v.blocked := by
  cases h with
  | popBlocked hq hb hnew => exact hb

/-- The order is kept by every step that does not mark a blocked service a
second time. -/
theorem Ordered.step {N : Net String} {s : State} (h : Ordered N s.view)
    (cfg : Config) (w : World) (hok : BlockedApart w s) :
    Ordered N (step cfg w s).view := by
  obtain ⟨hready, hended, hpop⟩ := hok
  obtain ⟨t, hmove, ht⟩ := step_move cfg w s
  refine h.move hmove ?_ ?_ ?_
  · intro n hn
    subst hn
    exact hready n ht
  · intro n pid ending exhausted hn
    subst hn
    exact hended n ht
  · intro n hn
    subst hn
    exact hpop n ht hmove.popBlocked_blocked

/-- **Boot order.**  In every run on a built graph in which no service is both
blocked and entered in `ready_reported`, `mark_ready` is called at most once
for each name, and whenever the launch loop spawns a service each of its known
dependencies has been reported ready, has ended for good or has been blocked
before. -/
theorem launch_after_dependencies {orders : BuildOrders}
    {services : List ServiceDef} {g : ServiceGraph}
    (hg : ServiceGraph.build orders services = .ok (.ok g)) (cfg : Config)
    (readFile : String → Except String String) (order : IterOrder String)
    (ws : List World)
    (hrun : EveryStep BlockedApart cfg readFile order g services ws) :
    let s := runWithMarker cfg readFile order g services ws
    s.view.marks.Nodup ∧
    ∀ later x pid earlier,
      s.log = later ++ .spawned .launch x pid :: earlier →
        ∀ d ∈ knownDeps services x, Settled earlier d := by
  intro s
  have hord := run_invariant
    (fun s : State => Ordered (waitNet orders services) s.view)
    (fun w s hok h => Ordered.step h cfg w hok) ws _ hrun
    (initial_ordered hg cfg readFile order)
  refine ⟨hord.nodup, ?_⟩
  intro later x pid earlier hlog d hd
  have horder : Preceded (LaunchAfter (waitNet orders services)) s.log :=
    hord.order
  rw [hlog] at horder
  exact horder.of_split x pid rfl d (waits_waitNet.mpr (mem_knownDeps.mp hd))

/-- `web` waits for `db` and is spawned after `db` has been reported ready. -/
theorem launch_after_dependencies_web :
    ∃ g, ServiceGraph.build .asStored dbAndWeb = .ok (.ok g) ∧
      let s := runWithMarker .bare (fun _ => .error "") (.asStored _) g
        dbAndWeb (List.replicate 10 .idle ++
          [{ World.idle with ready := some "db" }, .idle, .idle])
      .spawned .launch "web" 2 ∈ s.log ∧ s.view.marks.Nodup :=
  ⟨_, rfl, by decide +kernel, (launch_after_dependencies
    (rfl : ServiceGraph.build .asStored dbAndWeb = .ok (.ok _)) .bare
    (fun _ => .error "") (.asStored _) _ (by decide +kernel)).1⟩

/-- `b` needs `a`; `x` waits for `b` and for `c`. -/
def blockedBranch : List ServiceDef :=
  [makeService "a" [] [], makeService "b" [] ["a"], makeService "c" [] [],
    makeService "x" ["b", "c"] []]

/-- `a` fails, which blocks `b`; `b` is started by command and reported
ready. -/
def blockedThenReady : List World :=
  List.replicate 7 .idle ++
    [{ World.idle with waitpid := .exited 1 }] ++ List.replicate 11 .idle ++
    [{ World.idle with command := some (.start "b" 0) }, .idle,
      { World.idle with ready := some "b" }, .idle, .idle]

/-- Both marks of `b` count against `x`, which is launched while nothing is
known about `c`. -/
theorem blocked_marked_twice :
    ∃ g, ServiceGraph.build .asStored blockedBranch = .ok (.ok g) ∧
      let s := runWithMarker .bare (fun _ => .error "") (.asStored _) g
        blockedBranch blockedThenReady
      s.view.marks.count "b" = 2 ∧ .spawned .launch "x" 3 ∈ s.log ∧
        "c" ∈ knownDeps blockedBranch "x" ∧
        Event.ready "c" ∉ s.log ∧ "c" ∉ s.view.counted :=
  ⟨_, rfl, by decide +kernel⟩

end FlintInit
