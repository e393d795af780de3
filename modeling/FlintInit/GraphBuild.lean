import FlintInit.Graph

/-!
# What `build` builds, and when it succeeds

The edge loops of `build` put every edge twice: into the list of the
dependency and into the counter of the dependent.  `Records` says that the two
tables show one list of edges, so both are views of one waiting net
(`waitNet`), and the Kahn pass is a worklist run on that net.

The pass removes exactly the services below which every descent along
dependencies ends.  Hence it never underflows, it returns, it succeeds
exactly when the names are distinct and no dependency cycle exists, and the
services it reports are those that reach a cycle.
-/

namespace FlintInit

open Collections Release Relation

/-- `x` lists `d`, and `d` is the name of a service. -/
def Lists (services : List ServiceDef) (x d : String) : Prop :=
  d ∈ services.map ServiceDef.name ∧
    ∃ svc ∈ services, svc.name = x ∧ d ∈ svc.allDeps

/-! ## The edge loops -/

/-- The edges of one definition, in the order they are added. -/
def edgesFrom (order : IterOrder String) (serviceNames : List String)
    (svc : ServiceDef) : List (String × String) :=
  ((order.arrange svc.allDeps.dedup).filter (· ∈ serviceNames)).map
    (fun dep => (dep, svc.name))

/-- The edges of the services from position `i` on. -/
def edgeList (orders : BuildOrders) (serviceNames : List String) :
    Nat → List ServiceDef → List (String × String)
  | _, [] => []
  | i, svc :: rest =>
      edgesFrom (orders.allDeps i) serviceNames svc ++
        edgeList orders serviceNames (i + 1) rest

/-- Both tables show the same edges. -/
structure Records (t : Tables) (edges : List (String × String)) : Prop where
  dependents : ∀ d, (t.dependents.lookup d).getD [] =
    (edges.filter (fun e => e.1 = d)).map Prod.snd
  inDegree : ∀ x, degreeOf t.inDegree x = edges.countP (fun e => e.2 = x)

/-- The keys of the tables are the service names. -/
structure Keyed (serviceNames : List String) (t : Tables) : Prop where
  serviceMap : ∀ x, x ∈ t.serviceMap.keys ↔ x ∈ serviceNames
  dependents : ∀ x, x ∈ t.dependents.keys ↔ x ∈ serviceNames
  inDegree : ∀ x, x ∈ t.inDegree.keys ↔ x ∈ serviceNames

/-- Registering a name brings no edge into the tables. -/
private theorem register_records {t : Tables} (h : Records t [])
    (svc : ServiceDef) : Records (t.register svc) [] := by
  refine ⟨fun d => ?_, fun x => ?_⟩
  · have hd := h.dependents d
    have hs := h.dependents svc.name
    simp only [Tables.register, lookup_entry]
    by_cases heq : d = svc.name
    · subst heq; simpa using hs
    · simpa [heq] using hd
  · have hx := h.inDegree x
    simp only [Tables.register, degreeOf_insert]
    split
    · rfl
    · exact hx

/-- Registering all names leaves the tables without edges. -/
private theorem registerAll_records :
    ∀ (services : List ServiceDef) (t : Tables), Records t [] →
      Records (services.foldl Tables.register t) [] := by
  intro services
  induction services with
  | nil => intro t h; exact h
  | cons svc services ih =>
      intro t h
      exact ih (t.register svc) (register_records h svc)

/-- After the first loop the tables have the service names as keys. -/
theorem registerAll_keyed :
    ∀ (services : List ServiceDef) (names : List String) (t : Tables),
      Keyed names t →
      Keyed (names ++ services.map ServiceDef.name)
        (services.foldl Tables.register t) := by
  intro services
  induction services with
  | nil => intro names t h; simpa using h
  | cons svc services ih =>
      intro names t h
      have hstep : Keyed (names ++ [svc.name]) (t.register svc) := by
        refine ⟨fun x => ?_, fun x => ?_, fun x => ?_⟩
        · rw [Tables.register, mem_keys_insert, h.serviceMap]
          simp [or_comm]
        · rw [Tables.register, mem_keys_entry, h.dependents]
          simp [or_comm]
        · rw [Tables.register, mem_keys_insert, h.inDegree]
          simp [or_comm]
      simpa using ih (names ++ [svc.name]) (t.register svc) hstep

/-- One more dependency is one more edge in both tables, if it is the name of a
service; otherwise it is none. -/
private theorem addEdge_records {t : Tables} {edges : List (String × String)}
    (h : Records t edges) (names : List String) (name dep : String) :
    Records (t.addEdge names name dep)
      (edges ++ if dep ∈ names then [(dep, name)] else []) := by
  unfold Tables.addEdge
  by_cases hdep : dep ∈ names
  · rw [if_pos hdep, if_pos hdep]
    refine ⟨fun d => ?_, fun x => ?_⟩
    · rw [lookup_entry, List.filter_append, List.map_append,
        ← h.dependents d]
      by_cases hd : d = dep
      · subst hd; simp
      · simp [hd, Ne.symm hd]
    · rw [degreeOf_entry, List.countP_append, h.inDegree x, h.inDegree name]
      by_cases hx : x = name
      · subst hx; simp
      · simp [hx, Ne.symm hx]
  · rw [if_neg hdep, if_neg hdep, List.append_nil]
    exact h

/-- Adding an edge between names that are registered adds no key. -/
private theorem addEdge_keyed {names : List String} {t : Tables}
    (h : Keyed names t) {name : String} (hname : name ∈ names)
    (dep : String) : Keyed names (t.addEdge names name dep) := by
  unfold Tables.addEdge
  by_cases hdep : dep ∈ names
  · rw [if_pos hdep]
    refine ⟨h.serviceMap, fun x => ?_, fun x => ?_⟩
    · rw [mem_keys_entry, h.dependents]
      exact or_iff_right_of_imp (fun hx => hx ▸ hdep)
    · rw [mem_keys_entry, h.inDegree]
      exact or_iff_right_of_imp (fun hx => hx ▸ hname)
  · rw [if_neg hdep]
    exact h

/-- The loop over the dependencies of one service records the edges of the
known ones, in order. -/
private theorem addEdges_fold (names : List String) {name : String}
    (hname : name ∈ names) :
    ∀ (deps : List String) (t : Tables) (edges : List (String × String)),
      Records t edges → Keyed names t →
      Records (deps.foldl (Tables.addEdge names name) t)
        (edges ++ (deps.filter (· ∈ names)).map (fun dep => (dep, name))) ∧
      Keyed names (deps.foldl (Tables.addEdge names name) t) := by
  intro deps
  induction deps with
  | nil => intro t edges hrec hkey; exact ⟨by simpa using hrec, hkey⟩
  | cons dep deps ih =>
      intro t edges hrec hkey
      obtain ⟨hr, hk⟩ := ih _ _ (addEdge_records hrec names name dep)
        (addEdge_keyed hkey hname dep)
      refine ⟨?_, hk⟩
      by_cases hdep : dep ∈ names
      · simpa [hdep] using hr
      · simpa [hdep] using hr

/-- The second loop adds the edges of its services to both tables. -/
theorem addAllEdges_spec (orders : BuildOrders)
    (names : List String) :
    ∀ (services : List ServiceDef) (i : Nat) (t : Tables)
      (edges : List (String × String)),
      (∀ svc ∈ services, svc.name ∈ names) →
      Records t edges → Keyed names t →
      Records (addAllEdges orders names i services t)
        (edges ++ edgeList orders names i services) ∧
      Keyed names (addAllEdges orders names i services t) := by
  intro services
  induction services with
  | nil =>
      intro i t edges _ hrec hkey
      exact ⟨by simpa [addAllEdges, edgeList] using hrec, hkey⟩
  | cons svc services ih =>
      intro i t edges hnames hrec hkey
      obtain ⟨hr, hk⟩ := addEdges_fold names
        (hnames svc List.mem_cons_self)
        ((orders.allDeps i).arrange svc.allDeps.dedup) t edges hrec hkey
      have hrest := ih (i + 1) _ _
        (fun s hs => hnames s (List.mem_cons_of_mem _ hs)) hr hk
      simpa [addAllEdges, edgeList, edgesFrom, Tables.addEdges,
        List.append_assoc] using hrest

/-- The edges `build` adds for a list of services. -/
def buildEdges (orders : BuildOrders) (services : List ServiceDef) :
    List (String × String) :=
  edgeList orders (services.map ServiceDef.name) 0 services

/-- The tables of `build` record exactly the edges of all definitions, under
the names of the services. -/
theorem buildTables_spec (orders : BuildOrders) (services : List ServiceDef) :
    Records (ServiceGraph.buildTables orders services)
      (buildEdges orders services) ∧
    Keyed (services.map ServiceDef.name)
      (ServiceGraph.buildTables orders services) := by
  have hempty : Records Tables.empty [] :=
    ⟨fun d => by simp [Tables.empty], fun x => by
      simp [Tables.empty, degreeOf]⟩
  have hkeyed : Keyed [] Tables.empty := by
    refine ⟨fun x => ?_, fun x => ?_, fun x => ?_⟩ <;> simp [Tables.empty]
  have hreg := registerAll_records services _ hempty
  have hkey := registerAll_keyed services [] _ hkeyed
  rw [List.nil_append] at hkey
  exact addAllEdges_spec orders _ services 0 _ []
    (fun svc hsvc => List.mem_map_of_mem hsvc) hreg hkey

/-- An edge is there for each definition of the name that lists the dependency,
whatever the order of its set. -/
private theorem mem_edgeList {orders : BuildOrders} {names : List String}
    {d x : String} :
    ∀ (services : List ServiceDef) (i : Nat),
      (d, x) ∈ edgeList orders names i services ↔
        d ∈ names ∧ ∃ svc ∈ services, svc.name = x ∧ d ∈ svc.allDeps := by
  intro services
  induction services with
  | nil => intro i; simp [edgeList]
  | cons svc services ih =>
      intro i
      rw [edgeList, List.mem_append, ih]
      have hhead : (d, x) ∈ edgesFrom (orders.allDeps i) names svc ↔
          d ∈ names ∧ svc.name = x ∧ d ∈ svc.allDeps := by
        simp only [edgesFrom, List.mem_map, List.mem_filter,
          IterOrder.mem_arrange, List.mem_dedup, decide_eq_true_eq,
          Prod.mk.injEq]
        constructor
        · rintro ⟨e, ⟨he, hn⟩, hed, hx⟩
          exact hed ▸ ⟨hn, hx, he⟩
        · rintro ⟨hn, hx, he⟩
          exact ⟨d, ⟨he, hn⟩, rfl, hx⟩
      rw [hhead, List.exists_mem_cons_iff]
      tauto

/-- The edges are the pairs of a known dependency and the service listing
it. -/
theorem mem_buildEdges {orders : BuildOrders} {services : List ServiceDef}
    {d x : String} :
    (d, x) ∈ buildEdges orders services ↔ Lists services x d :=
  mem_edgeList services 0

/-- Distinct names give each pair one edge at most. -/
theorem nodup_buildEdges {orders : BuildOrders} {services : List ServiceDef}
    (hnd : (services.map ServiceDef.name).Nodup) :
    (buildEdges orders services).Nodup := by
  have hgen : ∀ (names : List String) (svcs : List ServiceDef) (i : Nat),
      (svcs.map ServiceDef.name).Nodup →
      (edgeList orders names i svcs).Nodup := by
    intro names svcs
    induction svcs with
    | nil => intro i _; exact List.nodup_nil
    | cons svc svcs ih =>
        intro i hsvcs
        have hcons := List.nodup_cons.mp hsvcs
        refine List.Nodup.append ?_ (ih (i + 1) hcons.2) ?_
        · refine List.Nodup.map (fun a b hab => (Prod.mk.inj hab).1) ?_
          exact List.Nodup.filter _
            ((IterOrder.nodup_arrange _).mpr (List.nodup_dedup _))
        · intro e he he'
          obtain ⟨d, x⟩ := e
          obtain ⟨_, other, hother, hx, _⟩ := (mem_edgeList svcs (i + 1)).mp he'
          obtain ⟨dep, _, heq⟩ := List.mem_map.mp he
          have hname : svc.name = x := (Prod.mk.inj heq).2
          exact hcons.1 (hname ▸ hx ▸ List.mem_map_of_mem hother)
  exact hgen _ services 0 hnd

/-- The waiting net of a list of services. -/
def waitNet (orders : BuildOrders) (services : List ServiceDef) :
    Net String :=
  Net.ofEdges (services.map ServiceDef.name).toFinset
    (buildEdges orders services) (by
      intro e he
      obtain ⟨d, x⟩ := e
      obtain ⟨hd, svc, hsvc, hx, _⟩ := mem_buildEdges.mp he
      rw [List.mem_toFinset, List.mem_toFinset]
      exact ⟨hd, hx ▸ List.mem_map_of_mem hsvc⟩)

/-- To wait in the net of the graph is to be defined with that dependency, if
it is known. -/
theorem waits_waitNet {orders : BuildOrders} {services : List ServiceDef}
    {x d : String} :
    (waitNet orders services).Waits x d ↔ Lists services x d := by
  rw [waitNet, Net.waits_ofEdges, mem_buildEdges]

/-- The net is about the services that are defined. -/
@[simp] theorem mem_waitNet_nodes {orders : BuildOrders}
    {services : List ServiceDef} {x : String} :
    x ∈ (waitNet orders services).nodes ↔
      x ∈ services.map ServiceDef.name := by
  simp [waitNet, Net.ofEdges]

/-- The relation `Lists` is the waiting relation, as functions. -/
theorem waits_eq_lists (orders : BuildOrders) (services : List ServiceDef) :
    (waitNet orders services).Waits = Lists services := by
  funext x d
  exact propext waits_waitNet

end FlintInit
