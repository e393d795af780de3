import FlintInit.CycleCheck

/-!
# The cycle detector of the preflight check

`has_cycle` as `check.rs` has it: tables of its own, seeded from the set of
names, and a pass whose decrement is guarded, where `build` seeds its tables
from the definitions and decrements unguarded.  The tables show the edges that
the tables of `build` show, and on them the guard never matters, so both
passes visit the same services.
-/

namespace FlintInit

open Collections Release Relation

/-- The enumeration orders met by one call of `has_cycle`: that of the set of
names, those of the dependency sets, and that of the counter table. -/
structure CycleOrders where
  names : IterOrder String
  allDeps : Nat → IterOrder String
  inDegree : IterOrder String

def CycleOrders.asStored : CycleOrders :=
  ⟨.asStored _, fun _ => .asStored _, .asStored _⟩

structure CycleTables where
  inDegree : Table String Nat
  adjacency : Table String (List String)

namespace CycleTables

def ofNames (names : List String) : CycleTables where
  inDegree := ofKeys names 0
  adjacency := ofKeys names []

/-- One edge from `dep` to the service called `name`. -/
def addEdge (names : List String) (name : String) (t : CycleTables)
    (dep : String) : CycleTables :=
  if dep ∈ names then
    { adjacency := entry t.adjacency dep [] (· ++ [name])
      inDegree := entry t.inDegree name 0 (· + 1) }
  else t

/-- The edges of one definition, over the set of its dependencies. -/
def addEdges (order : IterOrder String) (names : List String)
    (t : CycleTables) (svc : ServiceDef) : CycleTables :=
  (order.arrange svc.allDeps.dedup).foldl (addEdge names svc.name) t

/-- The loop over the services from position `i` on. -/
def addAllEdges (orders : CycleOrders) (names : List String) :
    Nat → List ServiceDef → CycleTables → CycleTables
  | _, [], t => t
  | i, svc :: rest, t =>
      addAllEdges orders names (i + 1) rest
        (t.addEdges (orders.allDeps i) names svc)

/-- The tables before the pass. -/
def build (orders : CycleOrders) (services : List ServiceDef) :
    CycleTables :=
  let names := services.map ServiceDef.name
  addAllEdges orders names 0 services
    (ofNames (orders.names.arrange names.dedup))

end CycleTables

/-- The inner loop's body: the decrement, guarded. -/
def Kahn.lower (k : Kahn) (dep : String) : Kahn :=
  let lowered := settle (k.tmpDegree, k.queue) dep
  { k with tmpDegree := lowered.1, queue := lowered.2 }

/-- The `while let Some(node) = queue.pop_front()` loop. -/
def cycleLoop (adjacency : Table String (List String)) :
    Nat → Kahn → Except Fault Kahn
  | 0, k => if k.queue = [] then .ok k else .error .outOfFuel
  | fuel + 1, k =>
      match k.queue with
      | [] => .ok k
      | node :: queue =>
          let k := { k with queue := queue, visited := k.visited + 1 }
          cycleLoop adjacency fuel
            (((adjacency.lookup node).getD []).foldl Kahn.lower k)

/-- Cycle detection of `check.rs`: whether a cycle exists. -/
def hasCycle (orders : CycleOrders) (services : List ServiceDef) :
    Except Fault Bool :=
  let t := CycleTables.build orders services
  let queue := keysWhere orders.inDegree t.inDegree (· == 0)
  match cycleLoop t.adjacency t.inDegree.keys.length
      ⟨queue, 0, t.inDegree⟩ with
  | .error fault => .error fault
  | .ok done => .ok (done.visited != services.length)

/-! ## The tables -/

namespace CycleTables

/-- The tables of `build` with the same edges. -/
def withServices (t : CycleTables) (serviceMap : Table String ServiceDef) :
    Tables :=
  ⟨serviceMap, t.adjacency, t.inDegree⟩

variable (serviceMap : Table String ServiceDef)

/-- An edge goes into the same two tables as in `build`. -/
theorem addEdge_withServices (names : List String) (name : String)
    (t : CycleTables) (dep : String) :
    (t.addEdge names name dep).withServices serviceMap =
      (t.withServices serviceMap).addEdge names name dep := by
  unfold addEdge Tables.addEdge
  split <;> rfl

/-- The loop over the dependencies is the one of `build`, without the table of
services. -/
theorem addEdges_withServices (names : List String) (name : String) :
    ∀ (deps : List String) (t : CycleTables),
      (deps.foldl (addEdge names name) t).withServices serviceMap =
        deps.foldl (Tables.addEdge names name)
          (t.withServices serviceMap) := by
  intro deps
  induction deps with
  | nil => intro t; rfl
  | cons dep deps ih =>
      intro t
      rw [List.foldl_cons, List.foldl_cons, ih, addEdge_withServices]

end CycleTables

/-- The orders of `build` that enumerate the same sets in the same order. -/
def CycleOrders.forBuild (orders : CycleOrders) : BuildOrders :=
  ⟨orders.allDeps, fun _ => .asStored _, orders.inDegree, .asStored _⟩

namespace CycleTables

/-- The edge loops of the two detectors do the same. -/
theorem addAllEdges_withServices (serviceMap : Table String ServiceDef)
    (orders : CycleOrders) (names : List String) :
    ∀ (services : List ServiceDef) (i : Nat) (t : CycleTables),
      (addAllEdges orders names i services t).withServices serviceMap =
        FlintInit.addAllEdges orders.forBuild names i services
          (t.withServices serviceMap) := by
  intro services
  induction services with
  | nil => intro i t; rfl
  | cons svc services ih =>
      intro i t
      rw [addAllEdges, ih, addEdges, addEdges_withServices]
      rfl

/-- **Both tables** show the edges of `build`, under the service names. The
loops of `has_cycle` register the names in another order and keep no table of
services, but add the same edges. -/
theorem build_spec (orders : CycleOrders) (services : List ServiceDef) :
    (∀ d, ((build orders services).adjacency.lookup d).getD [] =
      (waitNet orders.forBuild services).succs d) ∧
    (∀ x, degreeOf (build orders services).inDegree x =
      (waitNet orders.forBuild services).load ∅ x) ∧
    ∀ x, x ∈ (build orders services).inDegree.keys ↔
      x ∈ services.map ServiceDef.name := by
  let names := services.map ServiceDef.name
  let registered := services.foldl Tables.register Tables.empty
  let start := ofNames (orders.names.arrange names.dedup)
  have hlook : ∀ {V : Type} (v : V) (x : String),
      (ofKeys (orders.names.arrange names.dedup) v).lookup x =
        if x ∈ names then some v else none := by
    intro V v x
    rw [lookup_ofKeys]
    simp only [IterOrder.mem_arrange, List.mem_dedup]
  have hkeys : ∀ {V : Type} (v : V) (x : String),
      x ∈ (ofKeys (orders.names.arrange names.dedup) v).keys ↔
        x ∈ names := by
    intro V v x
    rw [mem_keys_iff_lookup, hlook]
    split
    · exact iff_of_true ⟨v, rfl⟩ ‹_›
    · refine iff_of_false ?_ ‹_›
      rintro ⟨_, h⟩
      cases h
  have hrec : Records (start.withServices registered.serviceMap) [] := by
    refine ⟨fun d => ?_, fun x => ?_⟩
    · change ((ofKeys _ []).lookup d).getD [] = _
      rw [hlook]
      split <;> rfl
    · change ((ofKeys _ 0).lookup x).getD 0 = _
      rw [hlook]
      split <;> rfl
  have hempty : Keyed [] Tables.empty := by
    refine ⟨fun x => ?_, fun x => ?_, fun x => ?_⟩ <;> simp [Tables.empty]
  have hkeyed : Keyed names (start.withServices registered.serviceMap) := by
    refine ⟨fun x => ?_, hkeys [], hkeys 0⟩
    exact (registerAll_keyed services [] _ hempty).serviceMap x
  obtain ⟨hr, hk⟩ := addAllEdges_spec orders.forBuild names services 0 _ []
    (fun svc hsvc => List.mem_map_of_mem hsvc) hrec hkeyed
  rw [← addAllEdges_withServices] at hr hk
  refine ⟨hr.dependents, fun x => ?_, hk.inDegree⟩
  rw [waitNet, Net.load_ofEdges_empty]
  exact hr.inDegree x

end CycleTables

/-! ## The pass -/

/-- The guarded decrements of a list of names. -/
theorem lowerAll_eq :
    ∀ (deps : List String) (k : Kahn), deps.foldl Kahn.lower k = { k with
      tmpDegree := (deps.foldl settle (k.tmpDegree, k.queue)).1
      queue := (deps.foldl settle (k.tmpDegree, k.queue)).2 } := by
  intro deps
  induction deps with
  | nil => intro k; rfl
  | cons dep deps ih =>
      intro k
      rw [List.foldl_cons, ih]
      rfl

/-- **The guard never matters** on counters that cover the edges to come. -/
theorem cycleLoop_eq_kahnLoop {N : Net String}
    {adjacency : Table String (List String)}
    (hdeps : ∀ d, (adjacency.lookup d).getD [] = N.succs d) :
    ∀ (fuel : Nat) (M : Finset String) (k : Kahn), KahnAt N M k →
      cycleLoop adjacency fuel k = kahnLoop adjacency fuel k := by
  intro fuel
  induction fuel with
  | zero => intro M k _; rfl
  | succ fuel ih =>
      intro M k h
      cases hq : k.queue with
      | nil => simp [cycleLoop, kahnLoop, hq]
      | cons node queue =>
          have hin : node ∈ k.queue := by rw [hq]; exact List.mem_cons_self
          have hM : node ∉ M := ((h.frontier.mem_iff node).mp hin).2.1
          obtain ⟨k', hrun, hvisit⟩ := h.visit hdeps hq
          have hlower := relaxAll_eq_settleAll (N.succs node)
            { k with queue := queue, visited := k.visited + 1 } (fun x => by
              rw [h.degree x]
              exact N.count_le_load hM x)
          rw [← lowerAll_eq, ← hdeps, hrun] at hlower
          simp only [cycleLoop, kahnLoop, hq]
          rw [hrun, ← Except.ok.inj hlower]
          exact ih _ k' hvisit

/-- **What `has_cycle` returns.**  Its pass ends, having visited the services
below which every descent ends. -/
theorem hasCycle_eq (orders : CycleOrders) (services : List ServiceDef) :
    ∃ M : Finset String,
      (∀ x, x ∈ M ↔ x ∈ services.map ServiceDef.name ∧
        Acc (waitNet orders.forBuild services).Below x) ∧
      hasCycle orders services = .ok (M.card != services.length) := by
  let N := waitNet orders.forBuild services
  let t := CycleTables.build orders services
  obtain ⟨hdeps, hdegree, hkeys⟩ := CycleTables.build_spec orders services
  have hstart : KahnAt N ∅
      ⟨keysWhere orders.inDegree t.inDegree (· == 0), 0, t.inDegree⟩ := by
    refine ⟨Frontier.start ?_ (fun x => ?_), by simp, hdegree, fun x => ?_⟩
    · exact List.Nodup.filter _
        ((IterOrder.nodup_arrange _).mpr (AList.keys_nodup _))
    · simp [keysWhere, t, N, hdegree x, hkeys x]
    · rw [hkeys, mem_waitNet_nodes]
  obtain ⟨M, k, hloop, hat, hM⟩ := hstart.pass hdeps
  refine ⟨M, fun x => ?_, ?_⟩
  · rw [hM, mem_waitNet_nodes]
  · unfold hasCycle
    dsimp only
    rw [cycleLoop_eq_kahnLoop hdeps _ ∅ _ hstart, hloop]
    dsimp only
    rw [hat.visited]

/-- Both detectors visit the same number of services and compare it with the
number of definitions. -/
theorem visited_alike (checkOrders : CycleOrders)
    (buildOrders : BuildOrders) (services : List ServiceDef) :
    ∃ n built, hasCycle checkOrders services = .ok (n != services.length) ∧
      ServiceGraph.build buildOrders services = .ok built ∧
      ((∃ e, built = .error e) ↔ n ≠ services.length) := by
  obtain ⟨M, hM, hcheck⟩ := hasCycle_eq checkOrders services
  obtain ⟨M', k, -, hM', hbuild⟩ := build_eq buildOrders services
  have hbelow : (waitNet checkOrders.forBuild services).Below =
      (waitNet buildOrders services).Below := by
    funext d x
    change Net.Waits _ x d = Net.Waits _ x d
    rw [waits_eq_lists, waits_eq_lists]
  have hsame : M = M' := by
    ext x
    rw [hM, hM', hbelow]
  refine ⟨M.card, _, hcheck, hbuild, ?_⟩
  rw [hsame]
  by_cases hcard : M'.card = services.length
  · rw [if_neg (not_not_intro hcard)]
    exact iff_of_false (fun ⟨_, h⟩ => nomatch h) (not_not_intro hcard)
  · rw [if_pos hcard]
    exact iff_of_true ⟨_, rfl⟩ hcard

/-- What the check finds free of cycles can be built. -/
theorem build_of_acyclic {checkOrders : CycleOrders}
    {services : List ServiceDef}
    (h : hasCycle checkOrders services = .ok false)
    (buildOrders : BuildOrders) :
    ∃ g, ServiceGraph.build buildOrders services = .ok (.ok g) := by
  obtain ⟨n, built, hcheck, hbuild, herror⟩ :=
    visited_alike checkOrders buildOrders services
  rw [hcheck, Except.ok.injEq, bne_eq_false_iff_eq] at h
  cases built with
  | error e => exact absurd h (herror.mp ⟨e, rfl⟩)
  | ok g => exact ⟨g, hbuild⟩

/-- **The two cycle detectors agree**, for all definitions and under all
enumeration orders: both return, and one reports a cycle when the other
does. -/
theorem cycle_detectors_agree (checkOrders : CycleOrders)
    (buildOrders : BuildOrders) (services : List ServiceDef) :
    ∃ cyclic built, hasCycle checkOrders services = .ok cyclic ∧
      ServiceGraph.build buildOrders services = .ok built ∧
      (cyclic = true ↔ ∃ e, built = .error e) := by
  obtain ⟨n, built, hcheck, hbuild, herror⟩ :=
    visited_alike checkOrders buildOrders services
  refine ⟨_, built, hcheck, hbuild, ?_⟩
  rw [bne_iff_ne, herror]

example : hasCycle .asStored
    [makeService "a" ["b"] [], makeService "b" [] ["a"]] = .ok true := by
  decide +kernel

/-! ## A name declared twice -/

/-- **A repeated name is taken for a cycle.**  The passes count the names they
visit and compare with the number of definitions.  So where a name is declared
twice and no dependency cycle exists, `build` reports a cycle without a
culprit, and the check reports one too. -/
theorem repeated_name_reported_as_cycle (checkOrders : CycleOrders)
    (buildOrders : BuildOrders) (services : List ServiceDef)
    (hrepeated : ¬ (services.map ServiceDef.name).Nodup)
    (hacyclic : ¬ ∃ x, TransGen (Lists services) x x) :
    ServiceGraph.build buildOrders services = .ok (.error (.cycle "")) ∧
      hasCycle checkOrders services = .ok true := by
  obtain ⟨M, k, hat, hM, hbuild⟩ := build_eq buildOrders services
  obtain ⟨n, built, hcheck, hbuilt, herror⟩ :=
    visited_alike checkOrders buildOrders services
  have hcard : M.card ≠ services.length := by
    intro hcard
    rw [if_neg (not_not_intro hcard)] at hbuild
    exact hrepeated ((build_ok_iff buildOrders services).mp ⟨_, hbuild⟩).1
  have hnone : keysWhere buildOrders.tmpDegree k.tmpDegree (0 < ·) = [] := by
    rw [List.eq_nil_iff_forall_not_mem]
    intro x hx
    exact (mem_cycleNodes hat hM).mp hx (acc_of_acyclic hacyclic x)
  rw [if_pos hcard, hnone] at hbuild
  refine ⟨hbuild, ?_⟩
  rw [hbuild, Except.ok.injEq] at hbuilt
  have hn : n ≠ services.length := herror.mp ⟨_, hbuilt.symm⟩
  rw [hcheck, bne_iff_ne.mpr hn]

/-- Two files that declare the service `db`, the second one after `net`. -/
def dbTwice : List ServiceDef :=
  [makeService "net" [] [], makeService "db" [] [],
    makeService "db" ["net"] []]

/-- No service of the three waits for itself, directly or through others. -/
theorem dbTwice_acyclic : ¬ ∃ x, TransGen (Lists dbTwice) x x := by
  have hedge : ∀ x d, Lists dbTwice x d → x = "db" ∧ d = "net" := by
    intro x d ⟨_, svc, hsvc, hname, hdep⟩
    simp only [dbTwice, List.mem_cons, List.not_mem_nil, or_false] at hsvc
    rcases hsvc with rfl | rfl | rfl
    · cases hdep
    · cases hdep
    · exact ⟨hname.symm, List.mem_singleton.mp hdep⟩
  intro ⟨x, hx⟩
  obtain ⟨d, hfirst, _⟩ := TransGen.head'_iff.mp hx
  obtain ⟨e, _, hlast⟩ := TransGen.tail'_iff.mp hx
  have hdb := (hedge x d hfirst).1
  rw [(hedge e x hlast).2] at hdb
  exact absurd hdb (by decide)

/-- Both detectors report a cycle, `build` one with an empty name. -/
theorem repeated_name_reported_as_cycle_db :
    ServiceGraph.build .asStored dbTwice = .ok (.error (.cycle "")) ∧
      hasCycle .asStored dbTwice = .ok true :=
  repeated_name_reported_as_cycle .asStored .asStored dbTwice (by decide)
    dbTwice_acyclic

/-- The graph of `db` declared twice is refused although nothing in it is
cyclic, and the error names no service. -/
theorem db_twice_has_no_cycle :
    ¬ (dbTwice.map ServiceDef.name).Nodup ∧
      (¬ ∃ x, TransGen (Lists dbTwice) x x) ∧
      (∃ e, ServiceGraph.build .asStored dbTwice = .ok (.error e) ∧
        e.message = "dependency cycle detected involving service(s): ") ∧
      hasCycle .asStored dbTwice = .ok true :=
  ⟨by decide, dbTwice_acyclic, ⟨.cycle "", rfl, rfl⟩, by decide +kernel⟩

end FlintInit
