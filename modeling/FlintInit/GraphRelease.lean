import FlintInit.CycleCheck

/-!
# Releasing services

A graph returned by `build` shows the waiting net of its services before any
mark (`build_built`), and every `markReady` of a name not marked before keeps
the counters equal to the load of the net (`GraphAt.mark`).  Which names a
call returns, and that no name is ever returned twice, follows.

The second half runs a worklist over such a graph under any choice strategy:
it removes every service exactly once, each after its dependencies.
-/

namespace FlintInit

open Collections Release Relation

/-- The distinct known dependencies of `x`. -/
def knownDeps (services : List ServiceDef) (x : String) : Finset String :=
  ((services.filter (fun svc => svc.name = x)).flatMap
    ServiceDef.allDeps).toFinset.filter
      (· ∈ services.map ServiceDef.name)

/-- The dependencies that count are those that name a service. -/
theorem mem_knownDeps {services : List ServiceDef} {x d : String} :
    d ∈ knownDeps services x ↔ Lists services x d := by
  simp only [knownDeps, Lists, Finset.mem_filter, List.mem_toFinset,
    List.mem_flatMap, List.mem_filter, decide_eq_true_eq, and_assoc]
  exact and_comm

/-- A graph whose counters show the net after the marks in `M`. -/
structure GraphAt (N : Net String) (M : Finset String)
    (g : ServiceGraph) : Prop where
  dependents : ∀ d, g.dependentsOf d = N.succs d
  degree : ∀ x, g.degree x = N.load M x
  keys : ∀ x, x ∈ g.inDegree.keys ↔ x ∈ N.nodes

/-- **One mark.**  Marking a name not marked before keeps the counters exact,
and returns the services whose last unmarked dependency it is. -/
theorem GraphAt.mark {N : Net String} {M : Finset String} {g : ServiceGraph}
    (h : GraphAt N M g) {n : String} (hn : n ∉ M) :
    GraphAt N (insert n M) (g.markReady n).1 ∧
    (g.markReady n).2.Nodup ∧
    ∀ x, x ∈ (g.markReady n).2 ↔
      0 < N.load M x ∧ N.load (insert n M) x = 0 := by
  obtain ⟨hdeg, hnd, hmem⟩ := g.markReady_spec n
  refine ⟨⟨fun d => ?_, fun x => ?_, fun x => ?_⟩, hnd, fun x => ?_⟩
  · rw [← h.dependents d]
    simp [ServiceGraph.dependentsOf]
  · rw [hdeg, h.degree, h.dependents, N.load_insert hn]
  · rw [ServiceGraph.mem_keys_markReady, h.keys, h.dependents]
    exact or_iff_right_of_imp N.dst_mem
  · rw [hmem, h.degree, h.dependents, N.load_insert hn]
    omega

/-! ## What `build` returns -/

/-- One definition adds its name to the rows of what it needs. -/
private theorem mem_addNeeds {order : IterOrder String} {svc : ServiceDef}
    {d x : String} (t : Table String (List String)) :
    x ∈ ((addNeeds order t svc).lookup d).getD [] ↔
      x ∈ (t.lookup d).getD [] ∨ (svc.name = x ∧ d ∈ svc.needs) := by
  have hfold : ∀ (deps : List String) (t : Table String (List String)),
      x ∈ ((deps.foldl (fun t dep => entry t dep [] (· ++ [svc.name]))
        t).lookup d).getD [] ↔
        x ∈ (t.lookup d).getD [] ∨ (svc.name = x ∧ d ∈ deps) := by
    intro deps
    induction deps with
    | nil => intro t; simp
    | cons dep deps ih =>
        intro t
        rw [List.foldl_cons, ih, lookup_entry]
        by_cases hd : d = dep
        · subst hd
          simp [or_assoc, eq_comm]
          tauto
        · simp [hd]
  rw [addNeeds, hfold]
  simp

/-- After all definitions the row of a service holds the names of those that
need it. -/
private theorem mem_addAllNeeds {orders : BuildOrders} {d x : String} :
    ∀ (services : List ServiceDef) (i : Nat)
      (t : Table String (List String)),
      x ∈ ((addAllNeeds orders i services t).lookup d).getD [] ↔
        x ∈ (t.lookup d).getD [] ∨
          ∃ svc ∈ services, svc.name = x ∧ d ∈ svc.needs := by
  intro services
  induction services with
  | nil => intro i t; simp [addAllNeeds]
  | cons svc services ih =>
      intro i t
      rw [addAllNeeds, ih, mem_addNeeds, List.exists_mem_cons_iff]
      tauto

/-- Who needs a name: the services whose definition lists it. -/
theorem mem_buildNeedsDependents {orders : BuildOrders}
    {services : List ServiceDef} {d x : String} :
    x ∈ ((buildNeedsDependents orders services).lookup d).getD [] ↔
      ∃ svc ∈ services, svc.name = x ∧ d ∈ svc.needs := by
  have hempty : ∀ (svcs : List ServiceDef) (t : Table String (List String)),
      (∀ d, (t.lookup d).getD [] = []) →
      ∀ d, ((svcs.foldl (fun t svc => entry t svc.name [] id)
        t).lookup d).getD [] = [] := by
    intro svcs
    induction svcs with
    | nil => intro t ht; exact ht
    | cons svc svcs ih =>
        intro t ht
        refine ih _ (fun d => ?_)
        rw [lookup_entry]
        by_cases hd : d = svc.name
        · subst hd; simpa using ht svc.name
        · simpa [hd] using ht d
  rw [buildNeedsDependents, mem_addAllNeeds,
    hempty services ∅ (fun d => by simp) d]
  simp

/-- What a graph returned by `build` is: the waiting net of distinct,
acyclic services before any mark. -/
structure Built (orders : BuildOrders) (services : List ServiceDef)
    (g : ServiceGraph) : Prop where
  nodup : (services.map ServiceDef.name).Nodup
  acc : ∀ x ∈ services.map ServiceDef.name,
    Acc (waitNet orders services).Below x
  graphAt : GraphAt (waitNet orders services) ∅ g
  len : g.len = services.length
  needs : ∀ d x, x ∈ g.needsDependentsOf d ↔
    ∃ svc ∈ services, svc.name = x ∧ d ∈ svc.needs

/-- **What `build` returns** when it finds no cycle: the tables of the net,
with nothing marked. -/
theorem build_built {orders : BuildOrders} {services : List ServiceDef}
    {g : ServiceGraph}
    (hg : ServiceGraph.build orders services = .ok (.ok g)) :
    Built orders services g := by
  obtain ⟨hnd, hacc⟩ := (build_ok_iff orders services).mp ⟨g, hg⟩
  obtain ⟨hrec, hkey⟩ := buildTables_spec orders services
  obtain ⟨M, k, _, _, hbuild⟩ := build_eq orders services
  rw [hbuild] at hg
  by_cases hcard : M.card = services.length
  · rw [if_neg (not_not_intro hcard)] at hg
    cases hg
    refine ⟨hnd, hacc, ⟨hrec.dependents, fun x => ?_, fun x => ?_⟩, ?_,
      fun d x => mem_buildNeedsDependents⟩
    · rw [waitNet, Net.load_ofEdges_empty]
      exact hrec.inDegree x
    · rw [mem_waitNet_nodes]
      exact hkey.inDegree x
    · have hperm := (List.perm_ext_iff_of_nodup (AList.keys_nodup _) hnd).mpr
        hkey.serviceMap
      rw [ServiceGraph.len, hperm.length_eq, List.length_map]
  · rw [if_pos hcard] at hg
    cases hg

section Built

variable {orders : BuildOrders} {services : List ServiceDef}
  {g : ServiceGraph}

/-- No service is listed twice behind another. -/
theorem Built.nodup_dependents (h : Built orders services g) (d : String) :
    (g.dependentsOf d).Nodup := by
  rw [h.graphAt.dependents]
  refine List.nodup_iff_count_le_one.mpr (fun x => ?_)
  rw [waitNet, Net.count_succs_ofEdges]
  exact List.nodup_iff_count_le_one.mp (nodup_buildEdges h.nodup) (d, x)

/-- The unmarked dependencies of a service are its load. -/
theorem Built.load_eq_card (h : Built orders services g)
    (M : Finset String) (x : String) :
    (waitNet orders services).load M x = (knownDeps services x \ M).card := by
  have hsucc : ∀ d, ((waitNet orders services).succs d).Nodup := by
    intro d
    rw [← h.graphAt.dependents]
    exact h.nodup_dependents d
  rw [Net.load_eq_card _ hsucc]
  congr 1
  ext d
  rw [Finset.mem_filter, Finset.mem_sdiff, Finset.mem_sdiff, mem_knownDeps,
    ← @waits_waitNet orders]
  constructor
  · intro ⟨⟨_, hd⟩, hw⟩; exact ⟨hw, hd⟩
  · intro ⟨hw, hd⟩
    exact ⟨⟨(waitNet orders services).src_mem hw, hd⟩, hw⟩

/-- A service waits for nothing any more when all its known dependencies are
marked. -/
theorem Built.load_eq_zero_iff {M : Finset String} {x : String} :
    (waitNet orders services).load M x = 0 ↔ knownDeps services x ⊆ M := by
  rw [Net.load_eq_zero_iff]
  constructor
  · intro h d hd
    exact h d (waits_waitNet.mpr (mem_knownDeps.mp hd))
  · intro h d hw
    exact h (mem_knownDeps.mpr (waits_waitNet.mp hw))

/-- What is released at the start waits for nothing. -/
theorem Built.mem_initiallyReady (h : Built orders services g)
    {order : IterOrder String} {x : String} :
    x ∈ g.initiallyReady order ↔
      x ∈ services.map ServiceDef.name ∧
        (waitNet orders services).load ∅ x = 0 := by
  have hdeg := h.graphAt.degree x
  rw [ServiceGraph.degree] at hdeg
  simp [ServiceGraph.initiallyReady, keysWhere, h.graphAt.keys, hdeg]

end Built

/-- Each service is released once, since they are keys of a table. -/
theorem nodup_initiallyReady (g : ServiceGraph) (order : IterOrder String) :
    (g.initiallyReady order).Nodup :=
  nodup_sorted.mpr (List.Nodup.filter _
    ((IterOrder.nodup_arrange _).mpr (AList.keys_nodup _)))

/-! ## Sequences of marks -/

/-- The graph after marking the names in order. -/
def markAll (g : ServiceGraph) : List String → ServiceGraph
  | [] => g
  | n :: rest => markAll (g.markReady n).1 rest

/-- Everything the calls return, in order. -/
def returnedBy (g : ServiceGraph) : List String → List String
  | [] => []
  | n :: rest => (g.markReady n).2 ++ returnedBy (g.markReady n).1 rest

/-- The counters stay exact when several services are marked one after another,
each of them once. -/
theorem GraphAt.markAll {N : Net String} :
    ∀ (ms : List String) (M : Finset String) (g : ServiceGraph),
      GraphAt N M g → ms.Nodup → (∀ n ∈ ms, n ∉ M) →
      GraphAt N (M ∪ ms.toFinset) (markAll g ms) := by
  intro ms
  induction ms with
  | nil => intro M g h _ _; simpa [FlintInit.markAll] using h
  | cons n rest ih =>
      intro M g h hnd hout
      have hcons := List.nodup_cons.mp hnd
      have hn : n ∉ M := hout n List.mem_cons_self
      have hrest := ih (insert n M) (g.markReady n).1 (h.mark hn).1 hcons.2
        (fun m hm => by
          rw [Finset.mem_insert, not_or]
          exact ⟨fun heq => hcons.1 (heq ▸ hm),
            hout m (List.mem_cons_of_mem _ hm)⟩)
      simpa [FlintInit.markAll, Finset.insert_union, Finset.union_insert]
        using hrest

/-- A call returns only names whose counter it brings down to zero, so a name
returned once is never returned again. -/
theorem returnedBy_once :
    ∀ (ms : List String) (g : ServiceGraph),
      (returnedBy g ms).Nodup ∧ ∀ x ∈ returnedBy g ms, 0 < g.degree x := by
  intro ms
  induction ms with
  | nil => intro g; simp [returnedBy]
  | cons n rest ih =>
      intro g
      obtain ⟨hdeg, hnd, hmem⟩ := g.markReady_spec n
      obtain ⟨hrest, hpos⟩ := ih (g.markReady n).1
      refine ⟨hnd.append hrest ?_, ?_⟩
      · intro x hx hx'
        have hzero := (hmem x).mp hx
        have hlater := hpos x hx'
        rw [hdeg] at hlater
        omega
      · intro x hx
        rcases List.mem_append.mp hx with hx | hx
        · exact ((hmem x).mp hx).1
        · have hlater := hpos x hx
          rw [hdeg] at hlater
          omega

/-- **Release timing.**  After any sequence of distinct marks on a built graph
the counter of each service is the number of its distinct known dependencies
not marked yet; the services ready at the start are those without one; a call
returns exactly the services whose last unmarked dependency it marks; and no
service is returned twice. -/
theorem release_timing {orders : BuildOrders} {services : List ServiceDef}
    {g : ServiceGraph}
    (hg : ServiceGraph.build orders services = .ok (.ok g))
    (order : IterOrder String) {ms : List String} (hms : ms.Nodup) :
    (∀ x ∈ services.map ServiceDef.name,
      (markAll g ms).inDegree.lookup x =
        some (knownDeps services x \ ms.toFinset).card) ∧
    (∀ x, x ∈ g.initiallyReady order ↔
      x ∈ services.map ServiceDef.name ∧ knownDeps services x = ∅) ∧
    (∀ before n after, ms = before ++ n :: after →
      ∀ x, x ∈ ((markAll g before).markReady n).2 ↔
        n ∈ knownDeps services x ∧
          knownDeps services x ⊆ insert n before.toFinset) ∧
    (g.initiallyReady order ++ returnedBy g ms).Nodup := by
  have hbuilt := build_built hg
  refine ⟨fun x hx => ?_, fun x => ?_, ?_, ?_⟩
  · have hat := hbuilt.graphAt.markAll ms ∅ g hms (by simp)
    rw [Finset.empty_union] at hat
    obtain ⟨d, hd⟩ := mem_keys_iff_lookup.mp
      ((hat.keys x).mpr (mem_waitNet_nodes.mpr hx))
    have hdeg := hat.degree x
    rw [hbuilt.load_eq_card] at hdeg
    rw [hd, ← hdeg]
    simp [ServiceGraph.degree, degreeOf, hd]
  · rw [hbuilt.mem_initiallyReady, Built.load_eq_zero_iff,
      Finset.subset_empty]
  · intro before n after heq x
    subst heq
    have hsplit := List.nodup_append.mp hms
    have hn : n ∉ before.toFinset := by
      rw [List.mem_toFinset]
      intro hin
      exact hsplit.2.2 n hin n List.mem_cons_self rfl
    have hat := hbuilt.graphAt.markAll before ∅ g hsplit.1 (by simp)
    rw [Finset.empty_union] at hat
    rw [(hat.mark hn).2.2, Nat.pos_iff_ne_zero, ne_eq,
      Built.load_eq_zero_iff, Built.load_eq_zero_iff]
    constructor
    · rintro ⟨hnot, hsub⟩
      refine ⟨?_, hsub⟩
      by_contra hout
      exact hnot ((Finset.subset_insert_iff_of_notMem hout).mp hsub)
    · rintro ⟨hin, hsub⟩
      exact ⟨fun h => hn (h hin), hsub⟩
  · obtain ⟨hnd, hpos⟩ := returnedBy_once ms g
    refine (nodup_initiallyReady g order).append hnd ?_
    intro x hx hx'
    have hzero := (hbuilt.mem_initiallyReady.mp hx).2
    have hlater := hpos x hx'
    rw [hbuilt.graphAt.degree] at hlater
    omega

/-- The four services of a diamond. -/
def diamond : List ServiceDef :=
  [makeService "root" [] [], makeService "left" ["root"] [],
    makeService "right" ["root"] [], makeService "leaf" ["left", "right"] []]

/-- With `root` and `left` marked, `leaf` still waits for `right`. -/
theorem release_timing_diamond :
    ∃ g, ServiceGraph.build .asStored diamond = .ok (.ok g) ∧
      (∀ x ∈ diamond.map ServiceDef.name,
        (markAll g ["root", "left"]).inDegree.lookup x =
          some (knownDeps diamond x \ ["root", "left"].toFinset).card) ∧
      (g.initiallyReady (.asStored _) ++
        returnedBy g ["root", "left"]).Nodup :=
  have h := release_timing
    (rfl : ServiceGraph.build .asStored diamond = .ok (.ok _))
    (.asStored _) (show ["root", "left"].Nodup by decide)
  ⟨_, rfl, h.1, h.2.2.2⟩

/-! ## Any worklist run -/

/-- The runs of a worklist over a graph: start from the services ready at the
beginning, remove any element, mark it, and add what the call returns. -/
inductive Drain (order : IterOrder String) (g : ServiceGraph) :
    ServiceGraph → List String → List String → Prop
  | start : Drain order g g (g.initiallyReady order) []
  | remove {g' : ServiceGraph} {work removed : List String} {x : String}
      (before : Drain order g g' work removed) (hx : x ∈ work) :
      Drain order g (g'.markReady x).1
        (work.erase x ++ (g'.markReady x).2) (removed ++ [x])

/-- What a worklist run keeps: the worklist is exact, nothing is removed
twice, and everything is removed after what it waits for. -/
private theorem Drain.frontier {orders : BuildOrders}
    {services : List ServiceDef} {g g' : ServiceGraph}
    (hbuilt : Built orders services g) {order : IterOrder String}
    {work removed : List String} (h : Drain order g g' work removed) :
    GraphAt (waitNet orders services) removed.toFinset g' ∧
    Frontier (waitNet orders services) removed.toFinset work ∧
    removed.Nodup ∧
    ∀ before x after, removed = before ++ x :: after →
      knownDeps services x ⊆ before.toFinset := by
  induction h with
  | start =>
      refine ⟨hbuilt.graphAt, ?_, List.nodup_nil, ?_⟩
      · refine Frontier.start (nodup_initiallyReady g order) (fun x => ?_)
        rw [hbuilt.mem_initiallyReady, mem_waitNet_nodes]
      · intro before x after heq
        simp at heq
  | @remove g' work removed x before hx ih =>
      obtain ⟨hat, hfront, hnd, horder⟩ := ih
      obtain ⟨hxN, hxM, hx0⟩ := (hfront.mem_iff x).mp hx
      obtain ⟨hat', hnew, hmem⟩ := hat.mark hxM
      have hins : (removed ++ [x]).toFinset = insert x removed.toFinset := by
        ext y; simp
      rw [hins]
      refine ⟨hat', hfront.step hx hnew hmem (List.Perm.refl _), ?_, ?_⟩
      · refine hnd.append (List.nodup_singleton x) ?_
        intro y hy hy'
        rw [List.mem_singleton] at hy'
        exact hxM (by simpa [hy'] using hy)
      · intro front y back heq
        rcases List.eq_nil_or_concat back with rfl | ⟨back, z, rfl⟩
        · obtain ⟨hfr, hyx⟩ := List.append_inj' heq rfl
          have hyx' : x = y := by simpa using hyx
          subst hfr hyx'
          exact Built.load_eq_zero_iff.mp hx0
        · have heq' : removed ++ [x] = (front ++ y :: back) ++ [z] := by
            simpa using heq
          exact horder front y back (List.append_inj' heq' rfl).1

/-- **No service is starved.**  Whatever is taken next, a worklist run over a
built graph removes no service twice and each after all of its known
dependencies; it runs empty after exactly as many removals as there are
services, and has then removed every one of them. -/
theorem drain_removes_all {orders : BuildOrders}
    {services : List ServiceDef} {g g' : ServiceGraph}
    (hg : ServiceGraph.build orders services = .ok (.ok g))
    {order : IterOrder String} {work removed : List String}
    (hrun : Drain order g g' work removed) :
    removed.Nodup ∧
    removed.length ≤ g.len ∧
    (work = [] ↔ removed.length = g.len) ∧
    (work = [] → removed.Perm (services.map ServiceDef.name)) ∧
    (∀ before x after, removed = before ++ x :: after →
      knownDeps services x ⊆ before.toFinset) := by
  have hbuilt := build_built hg
  obtain ⟨_, hfront, hnd, horder⟩ := hrun.frontier hbuilt
  have hsub : removed ⊆ services.map ServiceDef.name := fun x hx =>
    mem_waitNet_nodes.mp (hfront.sub (List.mem_toFinset.mpr hx))
  have hlen : (services.map ServiceDef.name).length = g.len := by
    rw [List.length_map, hbuilt.len]
  have hle := (List.subperm_of_subset hnd hsub).length_le
  have hperm : work = [] → removed.Perm (services.map ServiceDef.name) := by
    intro hwork
    rw [hwork] at hfront
    refine (List.perm_ext_iff_of_nodup hnd hbuilt.nodup).mpr (fun x => ?_)
    refine ⟨fun hx => hsub hx, fun hx => List.mem_toFinset.mp ?_⟩
    exact (hfront.exhausted (mem_waitNet_nodes.mpr hx)).mpr (hbuilt.acc x hx)
  refine ⟨hnd, by omega, ⟨fun hwork => ?_, fun hfull => ?_⟩, hperm, horder⟩
  · rw [(hperm hwork).length_eq, hlen]
  · rw [List.eq_nil_iff_forall_not_mem]
    intro x hx
    obtain ⟨hxN, hxM, _⟩ := (hfront.mem_iff x).mp hx
    have hall := (List.subperm_of_subset hnd hsub).perm_of_length_le (by omega)
    exact hxM (List.mem_toFinset.mpr
      (hall.mem_iff.mpr (mem_waitNet_nodes.mp hxN)))

/-- `b` waits for `a`, so `a` is removed first. -/
theorem drain_removes_all_pair :
    ∃ g, ServiceGraph.build .asStored
        [makeService "b" ["a"] [], makeService "a" [] []] = .ok (.ok g) ∧
      ["a", "b"].length ≤ g.len ∧
      ["a", "b"].Perm ([makeService "b" ["a"] [], makeService "a" [] []].map
        ServiceDef.name) :=
  have h := drain_removes_all
    (rfl : ServiceGraph.build .asStored
      [makeService "b" ["a"] [], makeService "a" [] []] = .ok (.ok _))
    (Drain.remove (x := "b")
      (Drain.remove (x := "a")
        (Drain.start : Drain (.asStored _) _ _ _ _) (by decide))
      (by decide))
  ⟨_, rfl, h.2.1, h.2.2.2.1 rfl⟩

end FlintInit
