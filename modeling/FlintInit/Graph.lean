import FlintInit.Library.Collections
import FlintInit.Library.Release
import FlintInit.Service

/-!
# The dependency graph

`ServiceGraph` as `graph.rs` builds and consumes it.  `build` registers the
services, adds one edge for each distinct known dependency of each definition,
records who needs whom, and runs Kahn's algorithm over a copy of the in-degree
counters.  `markReady` consumes the same edges at boot.

The enumeration orders of the hash collections involved are arguments, so a
statement about all of them is a statement about every hash seed.  The
subtraction of the Kahn pass is checked: `Fault.underflow` is the panic it
would raise, and `Fault.outOfFuel` a pass cut short by the model.

The lemma everything else rests on is `settleAll_spec`: what decrementing the
counters of a list of names does to every counter, and which names it
releases.
-/

namespace FlintInit

open Collections

inductive GraphError where
  | cycle (services : String)
  | unknownDep (service dep : String)
  deriving DecidableEq

/-- The text an error is displayed as. -/
def GraphError.message : GraphError → String
  | .cycle services =>
      "dependency cycle detected involving service(s): " ++ services
  | .unknownDep service dep =>
      "unknown dependency '" ++ dep ++ "' referenced by '" ++ service ++ "'"

/-- Dependency DAG with in-degree tracking for the parallel ready queue. -/
structure ServiceGraph where
  /-- All service definitions, keyed by name. -/
  services : Table String ServiceDef
  /-- Edges: name to the services that depend on it. -/
  dependents : Table String (List String)
  /-- Current in-degree for each service. -/
  inDegree : Table String Nat
  /-- Reverse adjacency covering only `needs` edges. -/
  needsDependents : Table String (List String)
  deriving DecidableEq

/-- Ways in which a call of `build` could fail to return. -/
inductive Fault where
  | underflow
  | outOfFuel
  deriving DecidableEq

/-- The enumeration orders met by one call of `build`: those of the sets made
for the service at each position, and those of the two counter tables. -/
structure BuildOrders where
  allDeps : Nat → IterOrder String
  uniqueNeeds : Nat → IterOrder String
  inDegree : IterOrder String
  tmpDegree : IterOrder String

/-- Every collection enumerated in storage order. -/
def BuildOrders.asStored : BuildOrders :=
  ⟨fun _ => .asStored _, fun _ => .asStored _, .asStored _, .asStored _⟩

/-- The tables filled before the cycle check. -/
structure Tables where
  serviceMap : Table String ServiceDef
  dependents : Table String (List String)
  inDegree : Table String Nat
  deriving DecidableEq

namespace Tables

def empty : Tables := ⟨∅, ∅, ∅⟩

/-- The first loop's body: the service exists and has no edges yet. -/
def register (t : Tables) (svc : ServiceDef) : Tables where
  serviceMap := t.serviceMap.insert svc.name svc
  inDegree := t.inDegree.insert svc.name 0
  dependents := entry t.dependents svc.name [] id

/-- One edge from `dep` to the service called `name`; a dependency that names
no service is skipped. -/
def addEdge (serviceNames : List String) (name : String) (t : Tables)
    (dep : String) : Tables :=
  if dep ∈ serviceNames then
    { t with
      dependents := entry t.dependents dep [] (· ++ [name])
      inDegree := entry t.inDegree name 0 (· + 1) }
  else t

/-- The second loop's body: the edges of one definition, over the set of its
dependencies. -/
def addEdges (order : IterOrder String) (serviceNames : List String)
    (t : Tables) (svc : ServiceDef) : Tables :=
  (order.arrange svc.allDeps.dedup).foldl (addEdge serviceNames svc.name) t

end Tables

/-- The second loop, over the services from position `i` on. -/
def addAllEdges (orders : BuildOrders) (serviceNames : List String) :
    Nat → List ServiceDef → Tables → Tables
  | _, [], t => t
  | i, svc :: rest, t =>
      addAllEdges orders serviceNames (i + 1) rest
        (t.addEdges (orders.allDeps i) serviceNames svc)

/-- The services that list `dep` under `needs`, one definition at a time. -/
def addNeeds (order : IterOrder String) (t : Table String (List String))
    (svc : ServiceDef) : Table String (List String) :=
  (order.arrange svc.needs.dedup).foldl
    (fun t dep => entry t dep [] (· ++ [svc.name])) t

/-- The loop filling `needs_dependents`, from position `i` on. -/
def addAllNeeds (orders : BuildOrders) :
    Nat → List ServiceDef → Table String (List String) →
      Table String (List String)
  | _, [], t => t
  | i, svc :: rest, t =>
      addAllNeeds orders (i + 1) rest (addNeeds (orders.uniqueNeeds i) t svc)

/-- The `needs_dependents` table: an entry for each service, then the edges. -/
def buildNeedsDependents (orders : BuildOrders) (services : List ServiceDef) :
    Table String (List String) :=
  addAllNeeds orders 0 services
    (services.foldl (fun t svc => entry t svc.name [] id) ∅)

/-- A counter, read as zero where the key is missing. -/
def degreeOf (degrees : Table String Nat) (name : String) : Nat :=
  (degrees.lookup name).getD 0

/-- The loop state of the Kahn pass. -/
structure Kahn where
  queue : List String
  visited : Nat
  tmpDegree : Table String Nat
  deriving DecidableEq

/-- The inner loop's body: `*d -= 1`, checked. -/
def Kahn.relax (k : Kahn) (dep : String) : Except Fault Kahn :=
  let d := degreeOf k.tmpDegree dep
  if d = 0 then .error .underflow
  else
    .ok { k with
      tmpDegree := k.tmpDegree.insert dep (d - 1)
      queue := if d - 1 = 0 then k.queue ++ [dep] else k.queue }

/-- The `while let Some(node) = queue.pop_front()` loop. -/
def kahnLoop (dependents : Table String (List String)) :
    Nat → Kahn → Except Fault Kahn
  | 0, k => if k.queue = [] then .ok k else .error .outOfFuel
  | fuel + 1, k =>
      match k.queue with
      | [] => .ok k
      | node :: queue => do
          let k := { k with queue := queue, visited := k.visited + 1 }
          let k ← ((dependents.lookup node).getD []).foldlM Kahn.relax k
          kahnLoop dependents fuel k

/-- The keys of a counter table whose counter satisfies `p`, as enumerated. -/
def keysWhere (order : IterOrder String) (degrees : Table String Nat)
    (p : Nat → Bool) : List String :=
  (order.arrange degrees.keys).filter (fun n => p (degreeOf degrees n))

namespace ServiceGraph

/-- The tables after both edge loops. -/
def buildTables (orders : BuildOrders) (services : List ServiceDef) : Tables :=
  addAllEdges orders (services.map ServiceDef.name) 0 services
    (services.foldl Tables.register Tables.empty)

def build (orders : BuildOrders) (services : List ServiceDef) :
    Except Fault (Except GraphError ServiceGraph) := do
  let t := buildTables orders services
  let start : Kahn :=
    ⟨keysWhere orders.inDegree t.inDegree (· == 0), 0, t.inDegree⟩
  let done ← kahnLoop t.dependents t.inDegree.keys.length start
  if done.visited ≠ services.length then
    let cycleNodes := keysWhere orders.tmpDegree done.tmpDegree (0 < ·)
    return .error (.cycle (", ".intercalate cycleNodes))
  else
    return .ok ⟨t.serviceMap, t.dependents, t.inDegree,
      buildNeedsDependents orders services⟩

/-- Services with in-degree zero, in name order. -/
def initiallyReady (order : IterOrder String) (g : ServiceGraph) :
    List String :=
  sorted (keysWhere order g.inDegree (· == 0))

end ServiceGraph

/-- One dependent of a service that became ready: the guarded decrement, and
the dependent itself when its counter reaches zero. -/
def settle (acc : Table String Nat × List String) (dep : String) :
    Table String Nat × List String :=
  let d := degreeOf acc.1 dep
  let degrees := entry acc.1 dep 0 id
  if 0 < d then
    let degrees := degrees.insert dep (d - 1)
    if d - 1 = 0 then (degrees, acc.2 ++ [dep]) else (degrees, acc.2)
  else (degrees, acc.2)

namespace ServiceGraph

/-- Mark a service ready.  Returns the names of services newly unblocked. -/
def markReady (g : ServiceGraph) (name : String) :
    ServiceGraph × List String :=
  match g.dependents.lookup name with
  | none => (g, sorted [])
  | some deps =>
      let settled := deps.foldl settle (g.inDegree, [])
      ({ g with inDegree := settled.1 }, sorted settled.2)

def len (g : ServiceGraph) : Nat := g.services.keys.length

/-- The services that need `name`; empty for an unknown name. -/
def needsDependentsOf (g : ServiceGraph) (name : String) : List String :=
  (g.needsDependents.lookup name).getD []

/-- The services waiting for `name`, with repetitions. -/
def dependentsOf (g : ServiceGraph) (name : String) : List String :=
  (g.dependents.lookup name).getD []

/-- The current in-degree of a service. -/
def degree (g : ServiceGraph) (name : String) : Nat := degreeOf g.inDegree name

end ServiceGraph

/-! ## What one mark does -/

/-- Setting a counter sets that counter alone. -/
theorem degreeOf_insert (t : Table String Nat) (k x : String) (d : Nat) :
    degreeOf (t.insert k d) x = if x = k then d else degreeOf t x := by
  unfold degreeOf
  rw [lookup_insert_eq]
  split <;> rfl

/-- So does `entry(..).or_insert(0)`; a missing counter counts as zero. -/
theorem degreeOf_entry (t : Table String Nat) (k x : String)
    (f : Nat → Nat) :
    degreeOf (entry t k 0 f) x =
      if x = k then f (degreeOf t k) else degreeOf t x :=
  degreeOf_insert t k x _

/-- One guarded decrement lowers one counter. -/
theorem degreeOf_settle (acc : Table String Nat × List String)
    (dep x : String) :
    degreeOf (settle acc dep).1 x =
      degreeOf acc.1 x - (if x = dep then 1 else 0) := by
  unfold settle
  by_cases hx : x = dep
  · subst hx
    by_cases hpos : 0 < degreeOf acc.1 x
    · by_cases hone : degreeOf acc.1 x - 1 = 0
      · simp [hpos, hone, degreeOf_insert]
      · simp [hpos, hone, degreeOf_insert]
    · have hzero : degreeOf acc.1 x = 0 := by omega
      simp [hzero, degreeOf_entry]
  · by_cases hpos : 0 < degreeOf acc.1 dep
    · by_cases hone : degreeOf acc.1 dep - 1 = 0
      · simp [hpos, hone, degreeOf_insert, degreeOf_entry, hx]
      · simp [hpos, hone, degreeOf_insert, degreeOf_entry, hx]
    · simp [hpos, degreeOf_entry, hx]

/-- The dependent is released when its counter was one. -/
theorem settle_snd (acc : Table String Nat × List String) (dep : String) :
    (settle acc dep).2 =
      acc.2 ++ (if degreeOf acc.1 dep = 1 then [dep] else []) := by
  unfold settle
  by_cases hpos : 0 < degreeOf acc.1 dep
  · by_cases hone : degreeOf acc.1 dep - 1 = 0
    · have h : degreeOf acc.1 dep = 1 := by omega
      simp [h]
    · have h : degreeOf acc.1 dep ≠ 1 := by omega
      simp [hpos, hone, h]
  · have h : degreeOf acc.1 dep ≠ 1 := by omega
    simp [hpos, h]

/-- A decrement only ever adds the key it was asked for. -/
theorem mem_keys_settle {acc : Table String Nat × List String}
    {dep x : String} :
    x ∈ (settle acc dep).1.keys ↔ x = dep ∨ x ∈ acc.1.keys := by
  unfold settle
  dsimp only
  split
  · split <;> simp only [mem_keys_entry, mem_keys_insert, or_self_left]
  · simp only [mem_keys_entry]

/-- **What a list of decrements does.**  Every counter drops by its number of
occurrences, and the names released are those whose counter was positive and
has been used up, each of them once. -/
theorem settleAll_spec :
    ∀ (deps : List String) (acc : Table String Nat × List String),
      (∀ x, degreeOf (deps.foldl settle acc).1 x =
        degreeOf acc.1 x - deps.count x) ∧
      ∃ newly, (deps.foldl settle acc).2 = acc.2 ++ newly ∧
        newly.Nodup ∧
        ∀ x, x ∈ newly ↔
          0 < degreeOf acc.1 x ∧ degreeOf acc.1 x ≤ deps.count x := by
  intro deps
  induction deps with
  | nil =>
      intro acc
      refine ⟨by simp, [], by simp, List.nodup_nil, fun x => ?_⟩
      simp only [List.not_mem_nil, List.count_nil, false_iff, not_and]
      omega
  | cons dep deps ih =>
      intro acc
      obtain ⟨hdeg, newly, hnewly, hnd, hmem⟩ := ih (settle acc dep)
      have hcount : ∀ x, (dep :: deps).count x =
          deps.count x + (if x = dep then 1 else 0) := by
        intro x
        by_cases hx : x = dep
        · simp [hx]
        · simp [hx, List.count_cons_of_ne (Ne.symm hx)]
      refine ⟨fun x => ?_, ?_⟩
      · rw [List.foldl_cons, hdeg, degreeOf_settle, hcount]
        omega
      · refine ⟨(if degreeOf acc.1 dep = 1 then [dep] else []) ++ newly,
          ?_, ?_, fun x => ?_⟩
        · rw [List.foldl_cons, hnewly, settle_snd, List.append_assoc]
        · by_cases hone : degreeOf acc.1 dep = 1
          · rw [if_pos hone]
            refine List.nodup_cons.mpr ⟨?_, hnd⟩
            intro hin
            have hpos := ((hmem dep).mp hin).1
            rw [degreeOf_settle, if_pos rfl] at hpos
            omega
          · simpa [hone] using hnd
        · have hx := hmem x
          rw [degreeOf_settle] at hx
          rw [List.mem_append, hx, hcount]
          by_cases heq : x = dep
          · subst heq
            by_cases hone : degreeOf acc.1 x = 1
            · simp [hone]
            · simp only [hone, if_false, List.not_mem_nil, false_or, if_true]
              omega
          · have hout : x ∉ (if degreeOf acc.1 dep = 1 then [dep] else []) := by
              split
              · simpa using heq
              · simp
            simp [hout, heq]

/-- The keys of the counter table after a list of decrements. -/
theorem mem_keys_settleAll {x : String} :
    ∀ (deps : List String) (acc : Table String Nat × List String),
      x ∈ (deps.foldl settle acc).1.keys ↔ x ∈ deps ∨ x ∈ acc.1.keys := by
  intro deps
  induction deps with
  | nil => intro acc; simp
  | cons dep deps ih =>
      intro acc
      rw [List.foldl_cons, ih, mem_keys_settle, List.mem_cons]
      tauto

namespace ServiceGraph

variable (g : ServiceGraph) (name : String)

/-- Marking leaves the edges as they are. -/
@[simp] theorem markReady_dependents :
    (g.markReady name).1.dependents = g.dependents := by
  unfold markReady
  split <;> rfl

/-- Marking leaves the table of needs as it is. -/
@[simp] theorem markReady_needsDependents :
    (g.markReady name).1.needsDependents = g.needsDependents := by
  unfold markReady
  split <;> rfl

/-- **What one mark does.**  The counter of each service drops by the edges
it has from the marked one; the services returned are those whose counter
reaches zero by it, each of them once. -/
theorem markReady_spec :
    (∀ x, (g.markReady name).1.degree x =
      g.degree x - (g.dependentsOf name).count x) ∧
    (g.markReady name).2.Nodup ∧
    (∀ x, x ∈ (g.markReady name).2 ↔
      0 < g.degree x ∧ g.degree x ≤ (g.dependentsOf name).count x) := by
  cases hdeps : g.dependents.lookup name with
  | none =>
      have hnone : g.dependentsOf name = [] := by simp [dependentsOf, hdeps]
      have hres : g.markReady name = (g, sorted []) := by
        simp [markReady, hdeps]
      refine ⟨fun x => ?_, ?_, fun x => ?_⟩
      · simp [hres, hnone]
      · simp [hres]
      · simp only [hres, hnone, mem_sorted, List.not_mem_nil, List.count_nil,
          false_iff, not_and]
        omega
  | some deps =>
      have hsome : g.dependentsOf name = deps := by simp [dependentsOf, hdeps]
      obtain ⟨hdeg, newly, hnewly, hnd, hmem⟩ :=
        settleAll_spec deps (g.inDegree, [])
      have hres : g.markReady name =
          ({ g with inDegree := (deps.foldl settle (g.inDegree, [])).1 },
            sorted newly) := by
        simp only [markReady, hdeps]
        rw [hnewly, List.nil_append]
      refine ⟨fun x => ?_, ?_, fun x => ?_⟩
      · rw [hres, hsome]; exact hdeg x
      · rw [hres]; exact nodup_sorted.mpr hnd
      · rw [hres, hsome, mem_sorted]; exact hmem x

/-- The names a mark returns are in order. -/
theorem markReady_sorted : (g.markReady name).2.SortedLE := by
  unfold markReady
  split
  · exact List.sortedLE_insertionSort
  · exact List.sortedLE_insertionSort

/-- Marking a service gives a counter to no one but its dependents. -/
theorem mem_keys_markReady {x : String} :
    x ∈ (g.markReady name).1.inDegree.keys ↔
      x ∈ g.dependentsOf name ∨ x ∈ g.inDegree.keys := by
  unfold markReady dependentsOf
  cases hdeps : g.dependents.lookup name with
  | none => simp
  | some deps =>
      simpa using mem_keys_settleAll deps (g.inDegree, [])

end ServiceGraph

end FlintInit
