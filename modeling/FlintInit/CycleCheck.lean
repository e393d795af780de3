import FlintInit.GraphBuild

/-!
# The cycle check

The Kahn pass of `build` as a worklist run on the waiting net: `KahnAt N M k`
says that loop state `k` has visited exactly the services in `M`.  One round
visits the head of the queue, and when the queue is empty the unvisited
services are those that reach a cycle.
-/

namespace FlintInit

open Collections Release Relation

/-- The loop state after visiting the services in `M`. -/
structure KahnAt (N : Net String) (M : Finset String) (k : Kahn) : Prop where
  frontier : Frontier N M k.queue
  visited : k.visited = M.card
  degree : ∀ x, degreeOf k.tmpDegree x = N.load M x
  keys : ∀ x, x ∈ k.tmpDegree.keys ↔ x ∈ N.nodes

/-- A checked decrement of a positive counter is the guarded one. -/
private theorem relax_eq_settle {k : Kahn} {dep : String}
    (hpos : 0 < degreeOf k.tmpDegree dep) :
    k.relax dep = .ok { k with
      tmpDegree := (settle (k.tmpDegree, k.queue) dep).1
      queue := (settle (k.tmpDegree, k.queue) dep).2 } := by
  have hne : degreeOf k.tmpDegree dep ≠ 0 := by omega
  unfold Kahn.relax settle entry
  simp only [hne, hpos, if_false, if_true, AList.insert_insert]
  split <;> rfl

/-- No counter is decremented below zero while every counter covers the
occurrences still to come. -/
theorem relaxAll_eq_settleAll :
    ∀ (deps : List String) (k : Kahn),
      (∀ x, deps.count x ≤ degreeOf k.tmpDegree x) →
      deps.foldlM Kahn.relax k = .ok { k with
        tmpDegree := (deps.foldl settle (k.tmpDegree, k.queue)).1
        queue := (deps.foldl settle (k.tmpDegree, k.queue)).2 } := by
  intro deps
  induction deps with
  | nil => intro k _; rfl
  | cons dep deps ih =>
      intro k hcover
      have hdep : 0 < degreeOf k.tmpDegree dep := by
        have h := hcover dep
        rw [List.count_cons_self] at h
        omega
      rw [List.foldlM_cons, relax_eq_settle hdep]
      refine (ih _ (fun x => ?_)).trans rfl
      have hx := hcover x
      rw [degreeOf_settle]
      by_cases heq : x = dep
      · subst heq
        rw [List.count_cons_self] at hx
        simp only [if_true]
        omega
      · rw [List.count_cons_of_ne (Ne.symm heq)] at hx
        simpa [heq] using hx

section Pass

variable {N : Net String} {dependents : Table String (List String)}
  (hdeps : ∀ d, (dependents.lookup d).getD [] = N.succs d)

include hdeps

/-- **One round.**  Visiting the head of the queue marks it. -/
theorem KahnAt.visit {M : Finset String} {k : Kahn} (h : KahnAt N M k)
    {node : String} {queue : List String} (hq : k.queue = node :: queue) :
    ∃ k', ((dependents.lookup node).getD []).foldlM Kahn.relax
        { k with queue := queue, visited := k.visited + 1 } = .ok k' ∧
      KahnAt N (insert node M) k' := by
  have hin : node ∈ k.queue := by rw [hq]; exact List.mem_cons_self
  have hM : node ∉ M := ((h.frontier.mem_iff node).mp hin).2.1
  obtain ⟨hdeg, newly, hnewly, hnd, hmem⟩ :=
    settleAll_spec (N.succs node) (k.tmpDegree, queue)
  have hrun := relaxAll_eq_settleAll (N.succs node)
    { k with queue := queue, visited := k.visited + 1 } (fun x => by
      rw [h.degree x]
      exact N.count_le_load hM x)
  refine ⟨_, by rw [hdeps]; exact hrun, ?_, ?_, fun x => ?_, fun x => ?_⟩
  · refine h.frontier.step hin hnd (fun x => ?_) ?_
    · rw [hmem x, h.degree x, N.load_insert hM]
      omega
    · rw [hnewly, hq, List.erase_cons_head]
  · rw [Finset.card_insert_of_notMem hM, ← h.visited]
  · rw [hdeg x, h.degree x, N.load_insert hM]
  · rw [mem_keys_settleAll, h.keys]
    exact or_iff_right_of_imp N.dst_mem

/-- **The whole pass.**  With fuel for the unvisited services the loop returns
with an empty queue. -/
theorem KahnAt.loop :
    ∀ (fuel : Nat) (M : Finset String) (k : Kahn),
      KahnAt N M k → N.nodes.card ≤ M.card + fuel →
      ∃ M' k', kahnLoop dependents fuel k = .ok k' ∧
        KahnAt N M' k' ∧ k'.queue = [] := by
  intro fuel
  induction fuel with
  | zero =>
      intro M k h hfuel
      have hall : M = N.nodes :=
        Finset.eq_of_subset_of_card_le h.frontier.sub hfuel
      have hempty : k.queue = [] := by
        rw [List.eq_nil_iff_forall_not_mem]
        intro x hx
        obtain ⟨hxN, hxM, _⟩ := (h.frontier.mem_iff x).mp hx
        exact hxM (hall ▸ hxN)
      exact ⟨M, k, by simp [kahnLoop, hempty], h, hempty⟩
  | succ fuel ih =>
      intro M k h hfuel
      cases hq : k.queue with
      | nil => exact ⟨M, k, by simp [kahnLoop, hq], h, hq⟩
      | cons node queue =>
          obtain ⟨k₁, hrun, hvisit⟩ := h.visit hdeps hq
          have hM : node ∉ M :=
            ((h.frontier.mem_iff node).mp (by simp [hq])).2.1
          have hcard := Finset.card_insert_of_notMem hM
          obtain ⟨M', k', hloop, hat, hempty⟩ :=
            ih (insert node M) k₁ hvisit (by omega)
          refine ⟨M', k', ?_, hat, hempty⟩
          simp only [kahnLoop, hq]
          rw [hrun]
          exact hloop

/-- **The pass from the start.**  With fuel for all counters the loop returns,
having visited the services below which every descent ends. -/
theorem KahnAt.pass {k₀ : Kahn} (h : KahnAt N ∅ k₀) :
    ∃ M k, kahnLoop dependents k₀.tmpDegree.keys.length k₀ = .ok k ∧
      KahnAt N M k ∧ ∀ x, x ∈ M ↔ x ∈ N.nodes ∧ Acc N.Below x := by
  have hcard : N.nodes.card ≤ (∅ : Finset String).card +
      k₀.tmpDegree.keys.length := by
    rw [Finset.card_empty, Nat.zero_add,
      ← List.toFinset_card_of_nodup (AList.keys_nodup _)]
    refine Finset.card_le_card (fun x hx => ?_)
    rw [List.mem_toFinset, h.keys]
    exact hx
  obtain ⟨M, k, hloop, hat, hempty⟩ := h.loop hdeps _ _ _ hcard
  refine ⟨M, k, hloop, hat, fun x => ?_⟩
  have hfront := hat.frontier
  rw [hempty] at hfront
  constructor
  · intro hx
    have hxN := hfront.sub hx
    exact ⟨hxN, (hfront.exhausted hxN).mp hx⟩
  · intro hx
    exact (hfront.exhausted hx.1).mpr hx.2

end Pass

/-- The counters `build` starts the pass with. -/
private theorem kahnAt_start (orders : BuildOrders)
    (services : List ServiceDef) :
    KahnAt (waitNet orders services) ∅
      ⟨keysWhere orders.inDegree
        (ServiceGraph.buildTables orders services).inDegree (· == 0), 0,
        (ServiceGraph.buildTables orders services).inDegree⟩ := by
  obtain ⟨hrec, hkey⟩ := buildTables_spec orders services
  have hdeg : ∀ x,
      degreeOf (ServiceGraph.buildTables orders services).inDegree x =
        (waitNet orders services).load ∅ x := by
    intro x
    rw [hrec.inDegree, waitNet, Net.load_ofEdges_empty]
  refine ⟨Frontier.start ?_ (fun x => ?_), by simp, hdeg, fun x => ?_⟩
  · exact List.Nodup.filter _
      ((IterOrder.nodup_arrange _).mpr (AList.keys_nodup _))
  · simp [keysWhere, hdeg x, hkey.inDegree x]
  · rw [hkey.inDegree, mem_waitNet_nodes]

/-- The net of the graph has the edges of the table, in its order. -/
theorem succs_waitNet (orders : BuildOrders) (services : List ServiceDef)
    (d : String) :
    ((ServiceGraph.buildTables orders services).dependents.lookup d).getD [] =
      (waitNet orders services).succs d :=
  (buildTables_spec orders services).1.dependents d

/-- **What `build` returns.**  The pass always ends, having visited the
services below which every descent ends, and compares their number with the
number of definitions. -/
theorem build_eq (orders : BuildOrders) (services : List ServiceDef) :
    ∃ M k, KahnAt (waitNet orders services) M k ∧
      (∀ x, x ∈ M ↔ x ∈ services.map ServiceDef.name ∧
        Acc (waitNet orders services).Below x) ∧
      ServiceGraph.build orders services = .ok
        (if M.card ≠ services.length then
          .error (.cycle (", ".intercalate
            (keysWhere orders.tmpDegree k.tmpDegree (0 < ·))))
        else .ok
          ⟨(ServiceGraph.buildTables orders services).serviceMap,
            (ServiceGraph.buildTables orders services).dependents,
            (ServiceGraph.buildTables orders services).inDegree,
            buildNeedsDependents orders services⟩) := by
  obtain ⟨M, k, hloop, hat, hM⟩ := (kahnAt_start orders services).pass
    (succs_waitNet orders services)
  refine ⟨M, k, hat, fun x => ?_, ?_⟩
  · rw [hM, mem_waitNet_nodes]
  · simp only [ServiceGraph.build, hloop, bind, Except.bind, pure,
      Except.pure, hat.visited]
    split <;> rfl

/-- The counters left positive belong to the unvisited services. -/
theorem mem_cycleNodes {orders : BuildOrders}
    {services : List ServiceDef} {M : Finset String} {k : Kahn}
    (hat : KahnAt (waitNet orders services) M k)
    (hM : ∀ x, x ∈ M ↔ x ∈ services.map ServiceDef.name ∧
      Acc (waitNet orders services).Below x) {x : String} :
    x ∈ keysWhere orders.tmpDegree k.tmpDegree (0 < ·) ↔
      ¬ Acc (waitNet orders services).Below x := by
  simp only [keysWhere, List.mem_filter, IterOrder.mem_arrange, hat.keys,
    hat.degree, decide_eq_true_eq]
  constructor
  · rintro ⟨hxN, hpos⟩ hacc
    have hxM : x ∈ M := (hM x).mpr ⟨mem_waitNet_nodes.mp hxN, hacc⟩
    have hzero := hat.frontier.closed x hxM
    omega
  · intro hnacc
    have hpos : 0 < (waitNet orders services).load M x := by
      by_contra hzero
      apply hnacc
      refine Acc.intro _ (fun d hd => ?_)
      have hload : (waitNet orders services).load M x = 0 := by omega
      exact ((hM d).mp
        ((waitNet orders services).load_eq_zero_iff.mp hload d hd)).2
    exact ⟨(waitNet orders services).mem_nodes_of_load_pos hpos, hpos⟩

/-- The call always returns: no counter underflows, and the pass ends. -/
theorem build_returns (orders : BuildOrders) (services : List ServiceDef) :
    ∃ r, ServiceGraph.build orders services = .ok r := by
  obtain ⟨_, _, _, _, hbuild⟩ := build_eq orders services
  exact ⟨_, hbuild⟩

/-- **When a graph is built.**  The names are distinct and every descent along
known dependencies ends. -/
theorem build_ok_iff (orders : BuildOrders) (services : List ServiceDef) :
    (∃ g, ServiceGraph.build orders services = .ok (.ok g)) ↔
      (services.map ServiceDef.name).Nodup ∧
        ∀ x ∈ services.map ServiceDef.name,
          Acc (waitNet orders services).Below x := by
  obtain ⟨M, k, hat, hM, hbuild⟩ := build_eq orders services
  have hsub : M ⊆ (services.map ServiceDef.name).toFinset := fun x hx =>
    List.mem_toFinset.mpr ((hM x).mp hx).1
  have hlen : (services.map ServiceDef.name).length = services.length :=
    List.length_map ..
  rw [hbuild]
  by_cases hcard : M.card = services.length
  · rw [if_neg (not_not_intro hcard)]
    refine iff_of_true ⟨_, rfl⟩ ⟨?_, fun x hx => ?_⟩
    · refine Multiset.coe_nodup.mp
        (Multiset.toFinset_card_eq_card_iff_nodup.mp ?_)
      have hle := List.toFinset_card_le (services.map ServiceDef.name)
      have hge := Finset.card_le_card hsub
      change (services.map ServiceDef.name).toFinset.card = _
      rw [Multiset.coe_card]
      omega
    · have hall := Finset.eq_of_subset_of_card_le hsub (by
        have hle := List.toFinset_card_le (services.map ServiceDef.name)
        omega)
      exact ((hM x).mp (hall ▸ List.mem_toFinset.mpr hx)).2
  · rw [if_pos hcard]
    refine iff_of_false (fun ⟨g, hg⟩ => ?_) (fun ⟨hnd, hacc⟩ => hcard ?_)
    · cases hg
    · have hall : M = (services.map ServiceDef.name).toFinset := by
        refine Finset.Subset.antisymm hsub (fun x hx => ?_)
        have hx' := List.mem_toFinset.mp hx
        exact (hM x).mpr ⟨hx', hacc x hx'⟩
      rw [hall, List.toFinset_card_of_nodup hnd, hlen]

/-- Without a cycle every descent along known dependencies ends. -/
theorem acc_of_acyclic {orders : BuildOrders} {services : List ServiceDef}
    (hacyclic : ¬ ∃ x, TransGen (Lists services) x x) (x : String) :
    Acc (waitNet orders services).Below x := by
  by_contra hnacc
  obtain ⟨y, _, hy⟩ := (waitNet orders services).not_acc_iff.mp hnacc
  rw [waits_eq_lists] at hy
  exact hacyclic ⟨y, hy⟩

/-- The names from which every descent ends are all names exactly when there
is no cycle. -/
theorem acc_iff_acyclic {orders : BuildOrders} {services : List ServiceDef} :
    (∀ x ∈ services.map ServiceDef.name,
      Acc (waitNet orders services).Below x) ↔
      ¬ ∃ x, TransGen (Lists services) x x := by
  refine ⟨fun hacc ⟨x, hx⟩ => ?_,
    fun hacyclic x _ => acc_of_acyclic hacyclic x⟩
  have hname : x ∈ services.map ServiceDef.name := by
    obtain ⟨d, hd, _⟩ := TransGen.head'_iff.mp hx
    obtain ⟨_, svc, hsvc, hxn, _⟩ := hd
    exact hxn ▸ List.mem_map_of_mem hsvc
  refine (waitNet orders services).not_acc_iff.mpr ?_ (hacc x hname)
  rw [waits_eq_lists]
  exact ⟨x, ReflTransGen.refl, hx⟩

/-- **The cycle check is exact.**  For definitions with distinct names the
call returns, without an underflow; it returns a graph exactly when no service
reaches itself along known dependencies; and what it reports otherwise is the
joined list of the services that lie on a cycle or depend on one. -/
theorem build_decides_acyclicity (orders : BuildOrders)
    (services : List ServiceDef)
    (hnd : (services.map ServiceDef.name).Nodup) :
    (∃ r, ServiceGraph.build orders services = .ok r) ∧
    ((∃ g, ServiceGraph.build orders services = .ok (.ok g)) ↔
      ¬ ∃ x, TransGen (Lists services) x x) ∧
    (∀ e, ServiceGraph.build orders services = .ok (.error e) →
      ∃ names : List String, names.Nodup ∧
        e = .cycle (", ".intercalate names) ∧
        ∀ x, x ∈ names ↔ ∃ y, ReflTransGen (Lists services) x y ∧
          TransGen (Lists services) y y) := by
  refine ⟨build_returns orders services, ?_, ?_⟩
  · rw [build_ok_iff, ← acc_iff_acyclic]
    exact and_iff_right hnd
  · intro e he
    obtain ⟨M, k, hat, hM, hbuild⟩ := build_eq orders services
    rw [hbuild] at he
    by_cases hcard : M.card = services.length
    · rw [if_neg (not_not_intro hcard)] at he
      cases he
    · rw [if_pos hcard] at he
      cases he
      refine ⟨_, ?_, rfl, fun x => ?_⟩
      · exact List.Nodup.filter _
          ((IterOrder.nodup_arrange _).mpr (AList.keys_nodup _))
      · rw [mem_cycleNodes hat hM, Net.not_acc_iff, waits_eq_lists]

/-- Two services that wait for each other; `build` returns, and reports the
cycle. -/
theorem build_decides_acyclicity_two_cycle :
    (∃ r, ServiceGraph.build .asStored
      [makeService "a" ["b"] [], makeService "b" [] ["a"]] = .ok r) ∧
    ((∃ g, ServiceGraph.build .asStored
      [makeService "a" ["b"] [], makeService "b" [] ["a"]] = .ok (.ok g)) ↔
      ¬ ∃ x, TransGen
        (Lists [makeService "a" ["b"] [], makeService "b" [] ["a"]]) x x) :=
  have h := build_decides_acyclicity .asStored
    [makeService "a" ["b"] [], makeService "b" [] ["a"]] (by decide)
  ⟨h.1, h.2.1⟩

end FlintInit
