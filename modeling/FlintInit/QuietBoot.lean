import FlintInit.BootOrder
import FlintInit.LoadedDefs

/-!
# A boot without commands

If nobody sends commands, children end by exiting or by a signal, and a
service is reported ready only after it has been launched, the boot finishes
every service: each is taken from the launch queue once, and when the loop is
left each has exited or failed and no child is left.

`Lives` follows a service from the queue to its end.  `Verdicts` says which
services are blocked: those that need a service which was blocked itself or
ended badly before it was ever ready.  The verdict on a service taken from the
queue never changes, because by then everything it needs has been marked.
-/

namespace FlintInit

open Collections Release Runs

/-- Ended for good by a non-zero exit, a signal or exhausted restarts, and
never reported ready. -/
def EndedBadly (log : List Event) (d : String) : Prop :=
  (∃ ending exhausted, .finished d ending exhausted ∈ log ∧
    (exhausted = true ∨ ending ≠ .exited 0)) ∧ .ready d ∉ log

/-- What keeps the services that need `d` from being launched. -/
def Bad (log : List Event) (d : String) : Prop :=
  .blocked d ∈ log ∨ EndedBadly log d

/-- A service fails with its restarts used up, or by any end but exit code 0.
-/
theorem fails_iff {ending : Ending} {exhausted : Bool} :
    ending.fails exhausted = true ↔ exhausted = true ∨ ending ≠ .exited 0 := by
  cases ending with
  | exited code => simp [Ending.fails]
  | signaled => simp [Ending.fails]

/-- The states in which a service is over. -/
def ServiceState.over : ServiceState → Bool
  | .exited _ => true
  | .failed => true
  | _ => false

/-- The moves of a boot without commands; a service is reported ready after it
was spawned. -/
def Trigger.Calm (v : View) : Trigger → Prop
  | .ready n => n ∈ v.spawned
  | .popIdle _ => False
  | .demand .. => False
  | .fallen .. => False
  | .reaped .. => False
  | .lost _ => False
  | _ => True

/-- The course of each service. -/
structure Lives (N : Net String) (v : View) : Prop where
  counted : Counted N v
  spawned : ∀ n, n ∈ v.spawned ↔ n ∈ v.popped ∧ .blocked n ∉ v.log
  running : ∀ n ∈ v.popped, n ∉ v.counted → ∃ p, v.live p = some n
  reported : ∀ n, n ∈ v.reported ↔
    .ready n ∈ v.log ∨ ∃ ending exhausted, .finished n ending exhausted ∈ v.log
  readied : ∀ n, .ready n ∈ v.log → n ∈ v.spawned
  ended : ∀ n ∈ v.counted, ∃ st, v.state n = some st ∧ st.over = true
  failed : ∀ n, .blocked n ∈ v.log → v.state n = some .failed

namespace Lives

variable {N : Net String} {v v' : View}

/-- A service is blocked when the launch loop takes it. -/
theorem blocked_popped (h : Lives N v) {n : String}
    (hn : .blocked n ∈ v.log) : n ∈ v.popped :=
  h.counted.sub n (View.mem_counted.mpr (.inl hn))

/-- A service that has been reported ready has been spawned, hence taken from
the queue. -/
theorem reported_spawned (h : Lives N v) {n : String}
    (hn : n ∈ v.reported) : n ∈ v.popped := by
  rcases (h.reported n).mp hn with hready | hfin
  · exact ((h.spawned n).mp (h.readied n hready)).1
  · exact h.counted.sub n (View.mem_counted.mpr (.inr hfin))

/-- A service with a process has been spawned, not blocked, and has not
finished. -/
theorem of_live (h : Lives N v) {p : Pid} {n : String}
    (hp : v.live p = some n) :
    n ∈ v.popped ∧ .blocked n ∉ v.log ∧
      ∀ ending exhausted, .finished n ending exhausted ∉ v.log := by
  obtain ⟨hpop, hnot⟩ := h.counted.running p n hp
  rw [View.mem_counted, not_or] at hnot
  exact ⟨hpop, hnot.1, fun ending exhausted hfin =>
    hnot.2 ⟨ending, exhausted, hfin⟩⟩

/-- A readiness report is about a service that has been spawned, and nothing
ends by it. -/
theorem ready (h : Lives N v) {n : String} (hcounted : Counted N v')
    (hn : n ∉ v.reported) (hspawned : n ∈ v.spawned)
    (hlog : v'.log = .marked n :: .ready n :: v.log)
    (hlive : v'.live = v.live)
    (hstate : v'.state = Function.update v.state n (some .ready))
    (hreported : v'.reported = insert n v.reported) : Lives N v' := by
  have hnames : v'.popped = v.popped ∧ v'.spawned = v.spawned ∧
      v'.counted = v.counted := by
    simp only [View.popped, View.spawned, View.counted, hlog]
    exact ⟨rfl, rfl, rfl⟩
  obtain ⟨hpop, hsp, hco⟩ := hnames
  have hblocked := ((h.spawned n).mp hspawned).2
  have hne : ∀ m ∈ v.counted, m ≠ n := by
    intro m hm heq
    subst heq
    rcases View.mem_counted.mp hm with hb | hfin
    · exact hblocked hb
    · exact hn ((h.reported m).mpr (.inr hfin))
  refine ⟨hcounted, ?_, ?_, ?_, ?_, ?_, ?_⟩
  · intro m
    rw [hsp, hpop, hlog, h.spawned m]
    simp
  · rw [hpop, hco, hlive]
    exact h.running
  · intro m
    rw [hreported, hlog, Finset.mem_insert, h.reported m]
    simp [or_assoc]
  · intro m hm
    rw [hlog] at hm
    rw [hsp]
    simp only [List.mem_cons, reduceCtorEq, false_or,
      Event.ready.injEq] at hm
    rcases hm with rfl | hm
    · exact hspawned
    · exact h.readied m hm
  · intro m hm
    rw [hco] at hm
    rw [hstate, Function.update_of_ne (hne m hm)]
    exact h.ended m hm
  · intro m hm
    have hm' : .blocked m ∈ v.log := by simpa [hlog] using hm
    rw [hstate,
      Function.update_of_ne (hne m (View.mem_counted.mpr (.inl hm')))]
    exact h.failed m hm'

/-- A blocked name is taken, counted and failed, and no process is spawned for
it. -/
theorem popBlocked (h : Lives N v) {n : String} (hcounted : Counted N v')
    (hn : n ∉ v.popped)
    (hlog : v'.log = .marked n :: .blocked n :: .popped n :: v.log)
    (hlive : v'.live = v.live)
    (hstate : v'.state = Function.update v.state n (some .failed))
    (hreported : v'.reported = v.reported) : Lives N v' := by
  have hnames : v'.popped = n :: v.popped ∧ v'.spawned = v.spawned ∧
      v'.counted = n :: v.counted := by
    simp only [View.popped, View.spawned, View.counted, hlog]
    exact ⟨rfl, rfl, rfl⟩
  obtain ⟨hpop, hsp, hco⟩ := hnames
  have hspawned : n ∉ v.spawned := fun hs => hn ((h.spawned n).mp hs).1
  refine ⟨hcounted, ?_, ?_, ?_, ?_, ?_, ?_⟩
  · intro m
    by_cases hm : m = n
    · subst hm
      simp [hsp, hspawned, hlog]
    · rw [hsp, hpop, hlog, h.spawned m]
      simp [hm]
  · intro m hm hnot
    rw [hco, List.mem_cons, not_or] at hnot
    rw [hpop, List.mem_cons, or_iff_right hnot.1] at hm
    rw [hlive]
    exact h.running m hm hnot.2
  · intro m
    rw [hreported, hlog, h.reported m]
    simp
  · intro m hm
    rw [hsp]
    exact h.readied m (by simpa [hlog] using hm)
  · intro m hm
    rw [hstate]
    by_cases heq : m = n
    · subst heq
      exact ⟨.failed, by simp, rfl⟩
    · rw [Function.update_of_ne heq]
      rw [hco, List.mem_cons, or_iff_right heq] at hm
      exact h.ended m hm
  · intro m hm
    rw [hstate]
    by_cases heq : m = n
    · subst heq
      simp
    · rw [Function.update_of_ne heq]
      exact h.failed m (by simpa [hlog, heq] using hm)

/-- A name that is taken and not blocked gets its first process. Its course
begins with that; no other service has its number, since the process is new. -/
theorem launch (h : Lives N v) {n : String} {pid : Pid}
    (hcounted : Counted N v') (hn : n ∉ v.popped)
    (hfresh : v.live pid = none)
    (hlog : v'.log = .spawned .launch n pid :: .popped n :: v.log)
    (hlive : v'.live = Function.update v.live pid (some n))
    (hstate : v'.state = Function.update v.state n (some (.running pid)))
    (hreported : v'.reported = v.reported) : Lives N v' := by
  have hnames : v'.popped = n :: v.popped ∧ v'.spawned = n :: v.spawned ∧
      v'.counted = v.counted := by
    simp only [View.popped, View.spawned, View.counted, hlog]
    exact ⟨rfl, rfl, rfl⟩
  obtain ⟨hpop, hsp, hco⟩ := hnames
  have hblocked : .blocked n ∉ v.log := fun hb => hn (h.blocked_popped hb)
  have hne : ∀ m ∈ v.counted, m ≠ n := by
    intro m hm heq
    exact hn (heq ▸ h.counted.sub m hm)
  refine ⟨hcounted, ?_, ?_, ?_, ?_, ?_, ?_⟩
  · intro m
    by_cases hm : m = n
    · subst hm
      simp [hsp, hpop, hlog, hblocked]
    · rw [hsp, hpop, hlog]
      simp [hm, h.spawned m]
  · intro m hm hnot
    rw [hco] at hnot
    rw [hlive]
    by_cases heq : m = n
    · subst heq
      exact ⟨pid, by simp⟩
    · rw [hpop, List.mem_cons, or_iff_right heq] at hm
      obtain ⟨p, hp⟩ := h.running m hm hnot
      refine ⟨p, ?_⟩
      rw [Function.update_of_ne ?_]
      · exact hp
      · intro hpp
        rw [hpp, hfresh] at hp
        cases hp
  · intro m
    rw [hreported, hlog, h.reported m]
    simp
  · intro m hm
    rw [hsp]
    exact List.mem_cons_of_mem _ (h.readied m (by simpa [hlog] using hm))
  · intro m hm
    rw [hco] at hm
    rw [hstate, Function.update_of_ne (hne m hm)]
    exact h.ended m hm
  · intro m hm
    have hm' : .blocked m ∈ v.log := by simpa [hlog] using hm
    rw [hstate,
      Function.update_of_ne (hne m (View.mem_counted.mpr (.inl hm')))]
    exact h.failed m hm'

/-- The process of a service is replaced by a new one. The service has been
launched and not counted, and this stays so; only the number of its process
changes. -/
theorem respawn (h : Lives N v) {n : String} {old new : Pid} {cause : Cause}
    (hcounted : Counted N v') (hold : v.live old = some n)
    (hfresh : (v.reap old).live new = none)
    (hlog : v'.log = .spawned cause n new :: v.log)
    (hlive : v'.live = Function.update (v.reap old).live new (some n))
    (hstate : v'.state = Function.update v.state n (some (.running new)))
    (hreported : v'.reported = v.reported) : Lives N v' := by
  have hnames : v'.popped = v.popped ∧ v'.spawned = n :: v.spawned ∧
      v'.counted = v.counted := by
    simp only [View.popped, View.spawned, View.counted, hlog]
    exact ⟨rfl, rfl, rfl⟩
  obtain ⟨hpop, hsp, hco⟩ := hnames
  obtain ⟨hnpop, hnblocked, _⟩ := h.of_live hold
  have hnspawned : n ∈ v.spawned := (h.spawned n).mpr ⟨hnpop, hnblocked⟩
  have hne : ∀ m ∈ v.counted, m ≠ n := by
    intro m hm heq
    exact (h.counted.running old n hold).2 (heq ▸ hm)
  refine ⟨hcounted, ?_, ?_, ?_, ?_, ?_, ?_⟩
  · intro m
    rw [hsp, hpop, hlog, List.mem_cons,
      or_iff_right_of_imp (fun heq => heq ▸ hnspawned), h.spawned m]
    simp
  · intro m hm hnot
    rw [hpop] at hm
    rw [hco] at hnot
    rw [hlive]
    by_cases heq : m = n
    · subst heq
      exact ⟨new, by simp⟩
    · obtain ⟨p, hp⟩ := h.running m hm hnot
      have hpo : p ≠ old := by
        intro hpo
        rw [hpo, hold] at hp
        exact heq (Option.some.inj hp).symm
      have hreap : (v.reap old).live p = some m :=
        View.live_reap.mpr ⟨hpo, hp⟩
      refine ⟨p, ?_⟩
      rw [Function.update_of_ne ?_]
      · exact hreap
      · intro hpn
        rw [hpn, hfresh] at hreap
        cases hreap
  · intro m
    rw [hreported, hlog, h.reported m]
    simp
  · intro m hm
    rw [hsp]
    exact List.mem_cons_of_mem _ (h.readied m (by simpa [hlog] using hm))
  · intro m hm
    rw [hco] at hm
    rw [hstate, Function.update_of_ne (hne m hm)]
    exact h.ended m hm
  · intro m hm
    have hm' : .blocked m ∈ v.log := by simpa [hlog] using hm
    rw [hstate,
      Function.update_of_ne (hne m (View.mem_counted.mpr (.inl hm')))]
    exact h.failed m hm'

/-- A final end; `marks` is empty if the name had been reported before. The
service is counted with it, and from then on it has no process. -/
theorem finish (h : Lives N v) {n : String} {pid : Pid} {ending : Ending}
    {exhausted : Bool} {marks : List Event} (hcounted : Counted N v')
    (hpid : v.live pid = some n)
    (hmarks : marks = [] ∧ n ∈ v.reported ∨ marks = [.marked n])
    (hlog : v'.log = marks ++ .finished n ending exhausted :: v.log)
    (hlive : v'.live = (v.reap pid).live)
    (hstate : v'.state = Function.update v.state n
      (some (if exhausted then .failed else .exited ending.code)))
    (hreported : v'.reported = insert n v.reported) : Lives N v' := by
  have hnames : v'.popped = v.popped ∧ v'.spawned = v.spawned ∧
      v'.counted = n :: v.counted := by
    rcases hmarks with ⟨rfl, _⟩ | rfl
    · simp only [View.popped, View.spawned, View.counted, hlog]
      exact ⟨rfl, rfl, rfl⟩
    · simp only [View.popped, View.spawned, View.counted, hlog]
      exact ⟨rfl, rfl, rfl⟩
  obtain ⟨hpop, hsp, hco⟩ := hnames
  have hother : ∀ e : Event, (∀ m, e ≠ .marked m) →
      (e ∈ v'.log ↔ e = .finished n ending exhausted ∨ e ∈ v.log) := by
    intro e he
    rcases hmarks with ⟨rfl, _⟩ | rfl
    · simp [hlog]
    · simp [hlog, he n]
  obtain ⟨hnpop, hnblocked, _⟩ := h.of_live hpid
  refine ⟨hcounted, ?_, ?_, ?_, ?_, ?_, ?_⟩
  · intro m
    rw [hsp, hpop, hother _ (by simp), h.spawned m]
    simp
  · intro m hm hnot
    rw [hco, List.mem_cons, not_or] at hnot
    rw [hpop] at hm
    obtain ⟨p, hp⟩ := h.running m hm hnot.2
    refine ⟨p, ?_⟩
    rw [hlive]
    refine View.live_reap.mpr ⟨?_, hp⟩
    intro hpp
    rw [hpp, hpid] at hp
    exact hnot.1 (Option.some.inj hp).symm
  · intro m
    rw [hreported, Finset.mem_insert, h.reported m, hother _ (by simp)]
    constructor
    · intro hm
      rcases hm with rfl | hm | ⟨e, x, hm⟩
      · exact .inr ⟨ending, exhausted, (hother _ (by simp)).mpr (.inl rfl)⟩
      · exact .inl (.inr hm)
      · exact .inr ⟨e, x, (hother _ (by simp)).mpr (.inr hm)⟩
    · intro hm
      rcases hm with (hm | hm) | ⟨e, x, hm⟩
      · cases hm
      · exact .inr (.inl hm)
      · rcases (hother _ (by simp)).mp hm with heq | hm
        · cases heq
          exact .inl rfl
        · exact .inr (.inr ⟨e, x, hm⟩)
  · intro m hm
    rw [hsp]
    rcases (hother _ (by simp)).mp hm with heq | hm
    · cases heq
    · exact h.readied m hm
  · intro m hm
    rw [hstate]
    by_cases heq : m = n
    · subst heq
      refine ⟨_, Function.update_self .., ?_⟩
      cases exhausted <;> rfl
    · rw [Function.update_of_ne heq]
      rw [hco, List.mem_cons, or_iff_right heq] at hm
      exact h.ended m hm
  · intro m hm
    rcases (hother _ (by simp)).mp hm with heq | hm
    · cases heq
    · have heq : m ≠ n := fun heq => hnblocked (heq ▸ hm)
      rw [hstate, Function.update_of_ne heq]
      exact h.failed m hm

/-- **Every calm move keeps the course of each service.** Of the moves that are
left each has its lemma; a command, a spawn that fails and a process reaped by
someone else are not calm. -/
theorem move (h : Lives N v) {t : Trigger} (hmove : Move t v v')
    (hcalm : t.Calm v) : Lives N v' := by
  have hcounted : Counted N v' := by
    refine h.counted.move hmove ?_ ?_
    · intro pid ht
      subst ht
      exact hcalm
    · intro n pid ht
      subst ht
      exact absurd hcalm id
  cases hmove with
  | quiet => exact h
  | ready hn hnew => exact h.ready hcounted hn hcalm rfl rfl rfl rfl
  | popBlocked hq hb hnew =>
      exact h.popBlocked hcounted (h.counted.queued.notMem_popped hq) rfl rfl
        rfl rfl
  | launch hq hb hfresh =>
      exact h.launch hcounted (h.counted.queued.notMem_popped hq) hfresh rfl
        rfl rfl rfl
  | respawn hlive hcause hfresh =>
      exact h.respawn hcounted hlive hfresh rfl rfl rfl rfl
  | finishAgain hlive hn =>
      refine h.finish hcounted hlive (.inl ⟨rfl, hn⟩) rfl rfl rfl ?_
      exact (Finset.insert_eq_of_mem hn).symm
  | finishFirst hlive hn hnew =>
      exact h.finish hcounted hlive (.inr rfl) rfl rfl rfl rfl
  | popIdle hq hb => exact absurd hcalm id
  | demand hidle hfresh => exact absurd hcalm id
  | fallen hlive => exact absurd hcalm id
  | reaped hlive => exact absurd hcalm id
  | lost => exact absurd hcalm id

end Lives

/-! ## How events change who is bad -/

section Bad

variable {log : List Event} {n d : String}

/-- An event that neither counts nor reports a service changes nothing about
who keeps others from being launched. -/
theorem bad_cons_other {e : Event} (hcounted : e.countedName = none)
    (hready : ∀ m, e ≠ .ready m) : Bad (e :: log) d ↔ Bad log d := by
  cases e with
  | blocked m => cases hcounted
  | finished m ending exhausted => cases hcounted
  | ready m => exact absurd rfl (hready m)
  | _ => simp [Bad, EndedBadly]

/-- A blocked service keeps those from being launched that need it. -/
theorem bad_cons_blocked : Bad (.blocked n :: log) d ↔ d = n ∨ Bad log d := by
  simp [Bad, EndedBadly, or_assoc]

/-- Being ready matters only to what has not ended. -/
theorem bad_cons_ready (hfin : ∀ e x, Event.finished n e x ∉ log) :
    Bad (.ready n :: log) d ↔ Bad log d := by
  have hended : EndedBadly (.ready n :: log) d ↔ EndedBadly log d := by
    by_cases hd : d = n
    · subst hd
      simp [EndedBadly, hfin]
    · simp [EndedBadly, hd]
  simp [Bad, hended]

/-- The first end of a service decides whether it is bad. -/
theorem bad_cons_finished (hblocked : Event.blocked n ∉ log)
    (hfin : ∀ e x, Event.finished n e x ∉ log) {ending : Ending}
    {exhausted : Bool} :
    Bad (.finished n ending exhausted :: log) d ↔
      (d = n ∧ ending.fails exhausted = true ∧ .ready n ∉ log) ∨
        Bad log d := by
  by_cases hd : d = n
  · subst hd
    have hnot : ¬ Bad log d := by
      intro hbad
      rcases hbad with hb | ⟨⟨e, x, he, _⟩, _⟩
      · exact hblocked hb
      · exact hfin e x he
    rw [or_iff_left hnot, fails_iff]
    constructor
    · intro hbad
      rcases hbad with hb | ⟨⟨e, x, he, hx⟩, hready⟩
      · exact absurd hb (by simp [hblocked])
      · rcases List.mem_cons.mp he with heq | he
        · cases heq
          exact ⟨rfl, hx, fun hr => hready (List.mem_cons_of_mem _ hr)⟩
        · exact absurd he (hfin e x)
    · intro ⟨_, hx, hready⟩
      refine .inr ⟨⟨ending, exhausted, List.mem_cons_self, hx⟩, ?_⟩
      simpa using hready
  · simp [Bad, EndedBadly, hd]

end Bad

/-! ## Who is blocked -/

/-- The blocked set and the log agree on who is blocked. -/
structure Verdicts (N : Net String) (v : View) : Prop where
  lives : Lives N v
  ordered : Ordered N v
  hard : ∀ d x, x ∈ v.shape.needs d → d ∈ N.nodes → N.Waits x d
  bad : ∀ x, x ∈ v.blocked ↔ ∃ d, x ∈ v.shape.needs d ∧ Bad v.log d
  verdict : ∀ x ∈ v.popped,
    (.blocked x ∈ v.log ↔ ∃ d, x ∈ v.shape.needs d ∧ Bad v.log d)

namespace Verdicts

variable {N : Net String} {v v' : View}

/-- What a popped service needs has been reported or blocked. -/
theorem need_settled (h : Verdicts N v) {x d : String} (hx : x ∈ v.popped)
    (hneed : x ∈ v.shape.needs d) (hd : d ∈ N.nodes) :
    d ∈ v.reported ∨ .blocked d ∈ v.log := by
  have hzero := (h.ordered.queued.popped_sub hx).2
  rw [h.ordered.degree] at hzero
  have hmark := N.load_eq_zero_iff.mp hzero d (h.hard d x hneed hd)
  exact (h.ordered.mem d).mp (List.mem_toFinset.mp hmark)

/-- The order of marks and launches is kept by the calm moves: a blocked
service has no process, so it is not reported. -/
theorem ordered_move (h : Verdicts N v) {t : Trigger} (hmove : Move t v v')
    (hcalm : t.Calm v) : Ordered N v' := by
  refine h.ordered.move hmove ?_ ?_ ?_
  · intro n ht _
    subst ht
    exact ((h.lives.spawned n).mp hcalm).2
  · intro n pid ending exhausted ht _
    subst ht
    cases hmove with
    | finishAgain hlive hn => exact (h.lives.of_live hlive).2.1
    | finishFirst hlive hn hnew => exact (h.lives.of_live hlive).2.1
  · intro n ht hn
    subst ht
    cases hmove with
    | popBlocked hq hb hnew =>
        exact h.ordered.queued.notMem_popped hq (h.lives.reported_spawned hn)

/-- A move that neither pops nor changes who is bad. -/
theorem keep (h : Verdicts N v) (hlives : Lives N v') (hordered : Ordered N v')
    (hshape : v'.shape = v.shape) (hblocked : v'.blocked = v.blocked)
    (hpopped : v'.popped = v.popped)
    (hlog : ∀ x, .blocked x ∈ v'.log ↔ .blocked x ∈ v.log)
    (hbad : ∀ d, Bad v'.log d ↔ Bad v.log d) : Verdicts N v' := by
  refine ⟨hlives, hordered, ?_, ?_, ?_⟩
  · rw [hshape]
    exact h.hard
  · intro x
    simp only [hblocked, hshape, hbad]
    exact h.bad x
  · intro x hx
    rw [hpopped] at hx
    simp only [hlog, hshape, hbad]
    exact h.verdict x hx

/-- A final end blocks the services that need the name if it was bad. It was if
the service has failed before it was ever ready, and that is also when the
executor adds what needs it to the blocked names. -/
theorem finish (h : Verdicts N v) (hlives : Lives N v')
    (hordered : Ordered N v') {n : String} {pid : Pid} {ending : Ending}
    {exhausted : Bool} (hpid : v.live pid = some n)
    (hshape : v'.shape = v.shape) (hpopped : v'.popped = v.popped)
    (hblocked : v'.blocked =
      if ending.fails exhausted && decide (n ∉ v.reported) then
        v.blocked ∪ (v.shape.needs n).toFinset
      else v.blocked)
    (hlog : ∀ x, .blocked x ∈ v'.log ↔ .blocked x ∈ v.log)
    (hbad : ∀ d, Bad v'.log d ↔
      Bad (.finished n ending exhausted :: v.log) d) : Verdicts N v' := by
  obtain ⟨hnpop, hnblocked, hnfin⟩ := h.lives.of_live hpid
  have hready : n ∈ v.reported ↔ .ready n ∈ v.log := by
    rw [h.lives.reported n]
    exact or_iff_left (fun ⟨e, x, he⟩ => hnfin e x he)
  refine ⟨hlives, hordered, ?_, ?_, ?_⟩
  · rw [hshape]
    exact h.hard
  · intro x
    simp only [hshape, hbad, bad_cons_finished hnblocked hnfin, hblocked]
    by_cases hfails : ending.fails exhausted = true ∧ n ∉ v.reported
    · have hcond : (ending.fails exhausted && decide (n ∉ v.reported)) =
          true := by simpa using hfails
      rw [if_pos hcond, Finset.mem_union, List.mem_toFinset, h.bad x]
      constructor
      · intro hx
        rcases hx with ⟨d, hneed, hd⟩ | hneed
        · exact ⟨d, hneed, .inr hd⟩
        · exact ⟨n, hneed, .inl ⟨rfl, hfails.1, mt hready.mpr hfails.2⟩⟩
      · intro ⟨d, hneed, hd⟩
        rcases hd with ⟨rfl, _⟩ | hd
        · exact .inr hneed
        · exact .inl ⟨d, hneed, hd⟩
    · have hcond : ¬ (ending.fails exhausted && decide (n ∉ v.reported)) =
          true := by simpa using hfails
      rw [if_neg hcond, h.bad x]
      constructor
      · intro ⟨d, hneed, hd⟩
        exact ⟨d, hneed, .inr hd⟩
      · intro ⟨d, hneed, hd⟩
        rcases hd with ⟨rfl, hf, hr⟩ | hd
        · exact absurd ⟨hf, mt hready.mp hr⟩ hfails
        · exact ⟨d, hneed, hd⟩
  · intro x hx
    rw [hpopped] at hx
    simp only [hlog, hshape, hbad, bad_cons_finished hnblocked hnfin]
    rw [h.verdict x hx]
    constructor
    · intro ⟨d, hneed, hd⟩
      exact ⟨d, hneed, .inr hd⟩
    · intro ⟨d, hneed, hd⟩
      rcases hd with ⟨rfl, _, hr⟩ | hd
      · -- `n` is still running, so what needs it is popped only if it was ready
        have hnode := (h.ordered.queued.popped_sub hnpop).1
        rcases h.need_settled hx hneed hnode with hrep | hb
        · exact absurd (hready.mp hrep) hr
        · exact absurd hb hnblocked
      · exact ⟨d, hneed, hd⟩

/-- **Every calm move keeps the verdicts.** A name popped while blocked is
itself bad for what needs it; a readiness report or a launch makes no name bad.
-/
theorem move (h : Verdicts N v) {t : Trigger} (hmove : Move t v v')
    (hcalm : t.Calm v) : Verdicts N v' := by
  have hlives := h.lives.move hmove hcalm
  have hordered := h.ordered_move hmove hcalm
  cases hmove with
  | quiet => exact h
  | @ready _ n newly hn hnew =>
      have hnfin : ∀ e x, .finished n e x ∉ v.log := fun e x he =>
        hn ((h.lives.reported n).mpr (.inr ⟨e, x, he⟩))
      refine h.keep hlives hordered rfl rfl rfl ?_ ?_
      · intro x
        simp [View.mark, View.setState, View.note, View.report]
      · intro d
        exact (bad_cons_other rfl (by simp)).trans (bad_cons_ready hnfin)
  | @popBlocked _ n rest newly hq hb hnew =>
      have hnpop := h.ordered.queued.notMem_popped hq
      have hnode := (h.ordered.queued.queue_sub (by simp [hq] :
        n ∈ v.queue)).1
      have hbad : ∀ d, Bad (.marked n :: .blocked n :: .popped n :: v.log) d ↔
          d = n ∨ Bad v.log d := by
        intro d
        rw [bad_cons_other rfl (by simp), bad_cons_blocked,
          bad_cons_other rfl (by simp)]
      refine ⟨hlives, hordered, h.hard, ?_, ?_⟩
      · intro x
        change x ∈ v.blocked ∪ (v.shape.needs n).toFinset ↔
          ∃ d, x ∈ v.shape.needs d ∧
            Bad (.marked n :: .blocked n :: .popped n :: v.log) d
        simp only [hbad, Finset.mem_union, List.mem_toFinset, h.bad x]
        constructor
        · intro hx
          rcases hx with ⟨d, hneed, hd⟩ | hneed
          · exact ⟨d, hneed, .inr hd⟩
          · exact ⟨n, hneed, .inl rfl⟩
        · rintro ⟨d, hneed, hd⟩
          rcases hd with rfl | hd
          · exact .inr hneed
          · exact .inl ⟨d, hneed, hd⟩
      · intro x hx
        change Event.blocked x ∈ (Event.marked n :: .blocked n :: .popped n ::
          v.log) ↔ ∃ d, x ∈ v.shape.needs d ∧
            Bad (.marked n :: .blocked n :: .popped n :: v.log) d
        simp only [hbad]
        rcases List.mem_cons.mp hx with rfl | hx'
        · obtain ⟨d, hneed, hd⟩ := (h.bad x).mp hb
          exact ⟨fun _ => ⟨d, hneed, .inr hd⟩, fun _ => by simp⟩
        · have hne : x ≠ n := fun heq => hnpop (heq ▸ hx')
          have hold : Event.blocked x ∈ (Event.marked n :: .blocked n ::
              .popped n :: v.log) ↔ .blocked x ∈ v.log := by simp [hne]
          rw [hold, h.verdict x hx']
          constructor
          · rintro ⟨d, hneed, hd⟩
            exact ⟨d, hneed, .inr hd⟩
          · rintro ⟨d, hneed, hd⟩
            rcases hd with rfl | hd
            · rcases h.need_settled hx' hneed hnode with hrep | hblk
              · exact absurd (h.lives.reported_spawned hrep) hnpop
              · exact absurd (h.lives.blocked_popped hblk) hnpop
            · exact ⟨d, hneed, hd⟩
  | @launch _ n rest pid hq hb hfresh =>
      have hnpop := h.ordered.queued.notMem_popped hq
      have hbad : ∀ d, Bad (.spawned .launch n pid :: .popped n :: v.log) d ↔
          Bad v.log d := by
        intro d
        rw [bad_cons_other rfl (by simp), bad_cons_other rfl (by simp)]
      refine ⟨hlives, hordered, h.hard, ?_, ?_⟩
      · intro x
        change x ∈ v.blocked ↔ ∃ d, x ∈ v.shape.needs d ∧
          Bad (.spawned .launch n pid :: .popped n :: v.log) d
        simp only [hbad]
        exact h.bad x
      · intro x hx
        change Event.blocked x ∈ (Event.spawned .launch n pid :: .popped n ::
          v.log) ↔ ∃ d, x ∈ v.shape.needs d ∧
            Bad (.spawned .launch n pid :: .popped n :: v.log) d
        have hold : Event.blocked x ∈ (Event.spawned .launch n pid ::
            .popped n :: v.log) ↔ .blocked x ∈ v.log := by simp
        simp only [hbad, hold]
        rcases List.mem_cons.mp hx with rfl | hx
        · rw [← h.bad x]
          exact iff_of_false (fun hblk => hnpop (h.lives.blocked_popped hblk))
            hb
        · exact h.verdict x hx
  | respawn hlive hcause hfresh =>
      refine h.keep hlives hordered rfl rfl rfl ?_ ?_
      · intro x
        simp [View.run, View.reap]
      · intro d
        exact bad_cons_other rfl (by simp)
  | finishAgain hlive hn =>
      refine h.finish hlives hordered hlive rfl rfl rfl ?_ ?_
      · intro x
        simp [View.finish, View.reap]
      · intro d
        exact Iff.rfl
  | finishFirst hlive hn hnew =>
      refine h.finish hlives hordered hlive rfl rfl rfl ?_ ?_
      · intro x
        simp [View.mark, View.report, View.finish, View.reap]
      · intro d
        exact bad_cons_other rfl (by simp)
  | popIdle hq hb => exact absurd hcalm id
  | demand hidle hfresh => exact absurd hcalm id
  | fallen hlive => exact absurd hcalm id
  | reaped hlive => exact absurd hcalm id
  | lost => exact absurd hcalm id

end Verdicts

/-! ## Runs -/

/-- No command, an ordinary answer of `waitpid`, and readiness messages only
for what the launch loop has spawned. -/
def QuietStep (w : World) (s : State) : Prop :=
  w.command = none ∧ w.waitpid.ordinary = true ∧
    ∀ n ∈ readyMessage w s, ∃ e ∈ s.log, e.launchedName = some n

instance (w : World) (s : State) : Decidable (QuietStep w s) :=
  inferInstanceAs (Decidable (_ ∧ _ ∧ ∀ n ∈ readyMessage w s, _))

/-- What a quiet boot keeps, unless an error or a panic has ended it. -/
structure QuietState (N : Net String) (g : ServiceGraph) (s : State) :
    Prop where
  verdicts : Verdicts N s.view
  needs : s.view.shape.needs = g.needsDependentsOf
  defs : ∀ n ∈ N.nodes, ∃ svc, s.svcByName.lookup n = some svc
  pending : s.pendingRestart = ∅

/-- What is taken from the queue stood on it. -/
private theorem Move.popIdle_mem {v v' : View} {n : String}
    (h : Move (.popIdle n) v v') : n ∈ v.queue := by
  cases h with
  | popIdle hq hb => simp [hq]

/-- Without commands and lost children, every step that does not end the run
makes a calm move. -/
theorem QuietState.calm {N : Net String} {g : ServiceGraph} {s : State}
    (h : QuietState N g s) {cfg : Config} {w : World} (hok : QuietStep w s)
    (hdead : (step cfg w s).phase.dead = false) {t : Trigger}
    (hmove : Move t s.view (step cfg w s).view)
    (ht : Triggered cfg w s t) : t.Calm s.view := by
  obtain ⟨hcommand, hordinary, hready⟩ := hok
  cases t with
  | ready n =>
      obtain ⟨e, he, hname⟩ := hready n ht
      refine List.mem_filterMap.mpr ⟨e, he, ?_⟩
      cases e with
      | spawned cause m pid =>
          cases cause with
          | launch => exact hname
          | _ => cases hname
      | _ => cases hname
  | popIdle n =>
      obtain ⟨hnext, hdef | hend⟩ := ht
      · have hnode :=
          (h.verdicts.ordered.queued.queue_sub hmove.popIdle_mem).1
        obtain ⟨svc, hsvc⟩ := h.defs n hnode
        rw [hdef] at hsvc
        cases hsvc
      · rw [hdead] at hend
        cases hend
  | demand n pid =>
      have hnone : demanded cfg w s = none := by
        unfold demanded
        rw [hcommand]
        split <;> simp_all
      rw [Triggered, hnone] at ht
      cases ht
  | fallen n pid =>
      rw [Triggered, h.pending] at ht
      exact absurd ht (Finset.notMem_empty n)
  | reaped n pid =>
      rw [Triggered, hdead] at ht
      cases ht
  | lost pid =>
      rw [Triggered] at ht
      rw [ht] at hordinary
      cases hordinary
  | _ => exact True.intro

/-- A quiet boot stays one, unless an error or a panic ends it. -/
theorem QuietState.step {N : Net String} {g : ServiceGraph} {s : State}
    (cfg : Config) (w : World) (hok : QuietStep w s)
    (h : s.phase.dead = true ∨ QuietState N g s) :
    (step cfg w s).phase.dead = true ∨ QuietState N g (step cfg w s) := by
  rcases h with hdead | h
  · rw [step_dead hdead]
    exact .inl hdead
  · cases hdead : (FlintInit.step cfg w s).phase.dead with
    | true => exact .inl rfl
    | false =>
        obtain ⟨t, hmove, ht⟩ := step_move cfg w s
        refine .inr ⟨?_, ?_, ?_, ?_⟩
        · exact h.verdicts.move hmove (h.calm hok hdead hmove ht)
        · rw [hmove.shape]
          exact h.needs
        · rcases step_defs cfg w s with hsame | ⟨n, reply, raw, svc, _, hc, _⟩
          · rw [hsame]
            exact h.defs
          · rw [hok.1] at hc
            cases hc
        · have hsub := step_pending cfg s (fun _ => hok.1)
          rw [h.pending] at hsub
          exact Finset.subset_empty.mp hsub

/-- When the loop is entered the boot is quiet: nothing has been launched or
blocked. -/
theorem initial_quiet {orders : BuildOrders} {services : List ServiceDef}
    {g : ServiceGraph}
    (hg : ServiceGraph.build orders services = .ok (.ok g)) (cfg : Config)
    (readFile : String → Except String String) (order : IterOrder String) :
    QuietState (waitNet orders services) g
      (initial cfg readFile order g services) := by
  have hbuilt := build_built hg
  have hnotbad : ∀ d, ¬ Bad [] d := by
    intro d
    simp [Bad, EndedBadly]
  refine ⟨⟨?_, initial_ordered hg cfg readFile order, ?_, ?_, ?_⟩, rfl, ?_,
    rfl⟩
  · refine ⟨initial_counted hg cfg readFile order, ?_, ?_, ?_, ?_, ?_, ?_⟩
    · intro n
      simp [View.spawned, View.popped, State.view, initial]
    · exact fun _ hn => absurd hn List.not_mem_nil
    · intro n
      simp [State.view, initial]
    · exact fun _ hn => absurd hn List.not_mem_nil
    · exact fun _ hn => absurd hn List.not_mem_nil
    · exact fun _ hn => absurd hn List.not_mem_nil
  · intro d x hneed hd
    obtain ⟨svc, hsvc, hname, hdep⟩ := (hbuilt.needs d x).mp hneed
    exact waits_waitNet.mpr ⟨mem_waitNet_nodes.mp hd, svc, hsvc, hname,
      svc.mem_allDeps_of_mem_needs hdep⟩
  · intro x
    refine iff_of_false (Finset.notMem_empty x) ?_
    rintro ⟨d, _, hd⟩
    exact hnotbad d hd
  · exact fun _ hx => absurd hx List.not_mem_nil
  · intro n hn
    exact exists_initial_defs (mem_waitNet_nodes.mp hn)

/-- The known services that `x` lists in `needs`. -/
def KnownNeed (services : List ServiceDef) (x d : String) : Prop :=
  d ∈ services.map ServiceDef.name ∧
    ∃ svc ∈ services, svc.name = x ∧ d ∈ svc.needs

/-- Failed without ever having had a process. -/
def FailedUnspawned (s : State) (x : String) : Prop :=
  s.serviceStates.lookup x = some .failed ∧
    ∀ cause pid, .spawned cause x pid ∉ s.log

/-- To be spawned is to have a process logged, for whatever cause. -/
theorem mem_spawned {v : View} {n : String} :
    n ∈ v.spawned ↔ ∃ cause pid, .spawned cause n pid ∈ v.log := by
  simp only [View.spawned, List.mem_filterMap]
  constructor
  · intro ⟨e, he, hn⟩
    cases e with
    | spawned cause m pid =>
        cases hn
        exact ⟨cause, pid, he⟩
    | _ => cases hn
  · intro ⟨cause, pid, he⟩
    exact ⟨_, he, rfl⟩

/-- When the loop is left, everything was taken from the queue and counted. The
queue is empty and no process is left, so by induction along the order of the
graph each service has been released, taken and counted. -/
theorem Verdicts.all_counted {N : Net String} {v : View} (h : Verdicts N v)
    (hacc : ∀ x ∈ N.nodes, Acc N.Below x) (hqueue : v.queue = [])
    (hlive : ∀ p, v.live p = none) {x : String} (hx : x ∈ N.nodes) :
    x ∈ v.popped ∧ x ∈ v.counted := by
  have hqueued := h.ordered.queued
  have hpopped : ∀ y ∈ N.nodes, v.degree y = 0 → y ∈ v.popped := by
    intro y hy hzero
    have hmem := (hqueued.mem_iff y).mpr ⟨hy, hzero⟩
    rwa [hqueue, List.append_nil] at hmem
  have hcounted : ∀ y ∈ v.popped, y ∈ v.counted := by
    intro y hy
    by_contra hnot
    obtain ⟨p, hp⟩ := h.lives.running y hy hnot
    rw [hlive p] at hp
    cases hp
  have hmarked : ∀ y ∈ v.counted, y ∈ v.marks.toFinset := by
    intro y hy
    rw [List.mem_toFinset, h.ordered.mem]
    rcases View.mem_counted.mp hy with hb | hfin
    · exact .inr hb
    · exact .inl ((h.lives.reported y).mpr (.inr hfin))
  have hall : ∀ y ∈ N.nodes, y ∈ v.marks.toFinset := by
    intro y hy
    refine N.mem_of_acc (fun z hz hzero => ?_) hy (hacc y hy)
    rw [← h.ordered.degree] at hzero
    exact hmarked z (hcounted z (hpopped z hz hzero))
  have hzero : v.degree x = 0 := by
    rw [h.ordered.degree, N.load_eq_zero_iff]
    exact fun d hd => hall d (N.src_mem hd)
  exact ⟨hpopped x hx hzero, hcounted x (hpopped x hx hzero)⟩

/-- A service taken from the queue was blocked exactly if it failed without
ever having had a process. -/
theorem Lives.failedUnspawned_iff {N : Net String} {s : State}
    (h : Lives N s.view) {x : String} (hx : x ∈ s.view.popped) :
    FailedUnspawned s x ↔ .blocked x ∈ s.log := by
  have hspawned : x ∈ s.view.spawned ↔ .blocked x ∉ s.log := by
    rw [h.spawned x, and_iff_right hx]
    rfl
  constructor
  · intro ⟨_, hnone⟩
    by_contra hb
    obtain ⟨cause, pid, he⟩ := mem_spawned.mp (hspawned.mpr hb)
    exact hnone cause pid he
  · intro hb
    refine ⟨h.failed x hb, fun cause pid he => ?_⟩
    exact hspawned.mp (mem_spawned.mpr ⟨cause, pid, he⟩) hb

section Runs

variable {orders : BuildOrders} {services : List ServiceDef}
  {g : ServiceGraph}

/-- How a quiet boot leaves the loop. The invariant holds in the last state as
in all others, and with its counts the test that let the loop end says that the
queue is empty and no process is left. -/
theorem quiet_exit (hg : ServiceGraph.build orders services = .ok (.ok g))
    {cfg : Config} {readFile : String → Except String String}
    {order : IterOrder String} {ws : List World}
    (hquiet : EveryStep QuietStep cfg readFile order g services ws)
    {exit : Exit}
    (hexit : (runWithMarker cfg readFile order g services ws).phase =
      .left exit) :
    let s := runWithMarker cfg readFile order g services ws
    QuietState (waitNet orders services) g s ∧ s.view.queue = [] ∧
      ∀ p, s.view.live p = none := by
  intro s
  have hrun : (s.phase.dead = true ∨
        QuietState (waitNet orders services) g s) ∧
      ∀ exit, s.phase = .left exit → s.toStart = [] ∧ exit.Test s := by
    refine run_invariant
      (fun s => (s.phase.dead = true ∨
          QuietState (waitNet orders services) g s) ∧
        ∀ exit, s.phase = .left exit → s.toStart = [] ∧ exit.Test s)
      (fun w s hok h => ⟨?_, fun _ hleft => step_left_test hleft⟩) ws _ hquiet
      ⟨.inr (initial_quiet hg cfg readFile order),
        fun _ hleft => (nomatch hleft)⟩
    exact QuietState.step cfg w hok h.1
  have hstate : QuietState (waitNet orders services) g s := by
    rcases hrun.1 with hdead | hstate
    · rw [hexit] at hdead
      cases hdead
    · exact hstate
  obtain ⟨hempty, htest⟩ := hrun.2 exit hexit
  refine ⟨hstate, hempty, ?_⟩
  cases exit with
  | allCompleted => exact hstate.verdicts.lives.counted.no_live htest
  | noChildren => exact keys_eq_nil_iff.mp htest

/-- The verdict on a popped service in terms of the definitions. -/
theorem QuietState.blocked_iff {s : State}
    (h : QuietState (waitNet orders services) g s)
    (hbuilt : Built orders services g) {x : String} (hx : x ∈ s.view.popped) :
    .blocked x ∈ s.log ↔
      ∃ d, KnownNeed services x d ∧ Bad s.log d := by
  have hneed : ∀ d, x ∈ s.view.shape.needs d ↔
      ∃ svc ∈ services, svc.name = x ∧ d ∈ svc.needs := by
    intro d
    rw [h.needs]
    exact hbuilt.needs d x
  have hcounted := h.verdicts.lives.counted
  refine (h.verdicts.verdict x hx).trans ⟨?_, ?_⟩
  · intro ⟨d, hxd, hd⟩
    have hmem : d ∈ s.view.counted := by
      rcases hd with hb | ⟨⟨e, ex, he, _⟩, _⟩
      · exact View.mem_counted.mpr (.inl hb)
      · exact View.mem_counted.mpr (.inr ⟨e, ex, he⟩)
    have hnode := (hcounted.queued.popped_sub (hcounted.sub d hmem)).1
    exact ⟨d, ⟨mem_waitNet_nodes.mp hnode, (hneed d).mp hxd⟩, hd⟩
  · intro ⟨d, ⟨_, hxd⟩, hd⟩
    exact ⟨d, (hneed d).mpr hxd, hd⟩

/-- **A quiet boot finishes every service.**  On a built graph, without
commands and with services reported ready only once launched, no service is
taken from the launch queue twice.  When the loop is left every service has
been counted, taken from the queue and is over, no child is left, and a
service failed without being spawned exactly if a known service it needs
failed so too, or ended badly without ever being ready. -/
theorem quiet_boot_finishes
    (hg : ServiceGraph.build orders services = .ok (.ok g)) (cfg : Config)
    (readFile : String → Except String String) (order : IterOrder String)
    (ws : List World)
    (hquiet : EveryStep QuietStep cfg readFile order g services ws) :
    let s := runWithMarker cfg readFile order g services ws
    s.view.popped.Nodup ∧
    ∀ exit, s.phase = .left exit →
      s.completed = g.len ∧
      s.pidToName.keys = [] ∧
      s.view.popped.Perm (services.map ServiceDef.name) ∧
      (∀ x ∈ services.map ServiceDef.name,
        ∃ st, s.serviceStates.lookup x = some st ∧ st.over = true) ∧
      (∀ x ∈ services.map ServiceDef.name,
        FailedUnspawned s x ↔ ∃ d, KnownNeed services x d ∧
          (FailedUnspawned s d ∨ EndedBadly s.log d)) := by
  intro s
  have hbuilt := build_built hg
  have hqueued : Queued (waitNet orders services) s.view :=
    run_invariant (fun s : State => Queued (waitNet orders services) s.view)
      (fun w s _ h => by
        obtain ⟨t, hmove, _⟩ := step_move cfg w s
        exact h.move hmove)
      ws _ hquiet (initial_queued cfg readFile order hg)
  have hnodup := (List.nodup_append.mp hqueued.nodup).1
  refine ⟨hnodup, ?_⟩
  intro exit hexit
  obtain ⟨hstate, hempty, hlive⟩ := quiet_exit hg hquiet hexit
  have hlives := hstate.verdicts.lives
  have hall : ∀ x ∈ services.map ServiceDef.name,
      x ∈ s.view.popped ∧ x ∈ s.view.counted := fun x hx =>
    hstate.verdicts.all_counted
      (fun y hy => hbuilt.acc y (mem_waitNet_nodes.mp hy)) hempty hlive
      (mem_waitNet_nodes.mpr hx)
  have hknown : ∀ x ∈ s.view.popped, x ∈ services.map ServiceDef.name :=
    fun x hx => mem_waitNet_nodes.mp (hqueued.popped_sub hx).1
  have hcounted : s.view.counted.Perm (services.map ServiceDef.name) :=
    (List.perm_ext_iff_of_nodup hlives.counted.nodup hbuilt.nodup).mpr
      (fun x => ⟨fun hx => hknown x (hlives.counted.sub x hx),
        fun hx => (hall x hx).2⟩)
  refine ⟨?_, keys_eq_nil_iff.mpr hlive, ?_, ?_, ?_⟩
  · have hlen := hcounted.length_eq
    rw [← hlives.counted.completed, List.length_map, ← hbuilt.len] at hlen
    exact hlen
  · exact (List.perm_ext_iff_of_nodup hnodup hbuilt.nodup).mpr
      (fun x => ⟨hknown x, fun hx => (hall x hx).1⟩)
  · exact fun x hx => hlives.ended x (hall x hx).2
  · intro x hx
    rw [hlives.failedUnspawned_iff (hall x hx).1,
      hstate.blocked_iff hbuilt (hall x hx).1]
    refine exists_congr (fun d => and_congr_right (fun hd => ?_))
    rw [hlives.failedUnspawned_iff (hall d hd.1).1]
    exact Iff.rfl

end Runs

/-- `web` needs `db`. -/
def dbNeeded : List ServiceDef :=
  [makeService "db" [] [], makeService "web" [] ["db"]]

/-- `db` fails before it is ready. -/
def dbFails : List World :=
  List.replicate 6 .idle ++ [{ World.idle with waitpid := .exited 1 }] ++
    List.replicate 6 .idle

/-- `db` exits with code 1, so `web`, which needs it, is counted as failed and
is never spawned. -/
theorem quiet_boot_finishes_db_fails :
    ∃ g, ServiceGraph.build .asStored dbNeeded = .ok (.ok g) ∧
      let s := runWithMarker .bare (fun _ => .error "") (.asStored _) g
        dbNeeded dbFails
      s.phase = .left .allCompleted ∧ s.completed = g.len ∧
        (FailedUnspawned s "web" ↔ ∃ d, KnownNeed dbNeeded "web" d ∧
          (FailedUnspawned s d ∨ EndedBadly s.log d)) := by
  refine ⟨_, rfl, ?_⟩
  intro s
  have hexit : s.phase = .left .allCompleted := by decide +kernel
  have h := (quiet_boot_finishes
    (rfl : ServiceGraph.build .asStored dbNeeded = .ok (.ok _)) .bare
    (fun _ => .error "") (.asStored _) dbFails (by decide +kernel)).2 _ hexit
  exact ⟨hexit, h.1, h.2.2.2.2 "web" (by decide)⟩

end FlintInit
