import FlintInit.GraphRelease
import FlintInit.Library.Layers

/-!
# The order of a shutdown

`shutdown_order` peels the running names off in layers.  It counts for each
name the running services that depend on it, takes all names with a count of
zero at once, and lowers the counts of what they depended on.

Here a name waits for its dependents to be stopped: the waiting net is the one
of the boot turned round (`stopNet`), the counts are its load, and the result
is `Net.peel` of it.  Nothing in that depends on an enumeration order.
-/

namespace FlintInit

open Collections Release Relation

/-- The enumeration orders met by one call of `shutdown_order`: that of the
set it is given, that of the graph's table, and that of the remaining names in
each round. -/
structure ShutdownOrders where
  running : IterOrder String
  dependents : IterOrder String
  remaining : Nat → IterOrder String

def ShutdownOrders.asStored : ShutdownOrders :=
  ⟨.asStored _, .asStored _, fun _ => .asStored _⟩

/-- The loop state of `shutdown_order`. -/
structure Stopping where
  remaining : List String
  depCount : Table String Nat
  order : List String
  deriving DecidableEq

/-- What `shutdown_order` returns, and whether it had to drain names that no
round could take. -/
structure ShutdownRun where
  order : List String
  drained : Bool
  deriving DecidableEq

/-- `if *c > 0 { *c -= 1; }` on the count of `dep`. -/
def lowerCount (counts : Table String Nat) (dep : String) :
    Table String Nat :=
  entry counts dep 0 (fun c => if 0 < c then c - 1 else c)

namespace ServiceGraph

variable (g : ServiceGraph) (orders : ShutdownOrders)

/-- The entry of `dep`: one for each dependent that is running too. -/
def countDependents (running : List String) (counts : Table String Nat)
    (dep : String) : Table String Nat :=
  if dep ∈ running then
    (g.dependentsOf dep).foldl
      (fun counts dependent =>
        if dependent ∈ running then entry counts dep 0 (· + 1) else counts)
      counts
  else counts

/-- The number of running services that depend on each running name. -/
def depCounts (running : List String) : Table String Nat :=
  (orders.dependents.arrange g.dependents.keys).foldl
    (g.countDependents running) (ofKeys (orders.running.arrange running) 0)

/-- One leaf is removed from the running names. -/
def removeLeaf (p : Stopping) (leaf : String) : Stopping :=
  let remaining := p.remaining.erase leaf
  { p with
    remaining := remaining
    depCount :=
      (orders.dependents.arrange g.dependents.keys).foldl
        (fun counts dep =>
          if dep ∈ remaining ∧ leaf ∈ g.dependentsOf dep then
            lowerCount counts dep
          else counts)
        p.depCount }

/-- The remaining names that no running service depends on. -/
def leaves (round : Nat) (p : Stopping) : List String :=
  sorted (((orders.remaining round).arrange p.remaining).filter
    (fun s => degreeOf p.depCount s = 0))

/-- The `while !remaining.is_empty()` loop. -/
def shutdownLoop : Nat → Nat → Stopping → Except Fault ShutdownRun
  | 0, _, p =>
      if p.remaining = [] then .ok ⟨p.order, false⟩ else .error .outOfFuel
  | fuel + 1, round, p =>
      if p.remaining = [] then .ok ⟨p.order, false⟩
      else
        let leaves := leaves orders round p
        if leaves = [] then
          let rest := sorted ((orders.remaining round).arrange p.remaining)
          .ok ⟨p.order ++ rest, true⟩
        else
          let p := leaves.foldl (g.removeLeaf orders) p
          shutdownLoop fuel (round + 1) { p with order := p.order ++ leaves }

/-- Running services in reverse topological order; `running` lists a set. -/
def shutdownOrder (running : List String) : Except Fault ShutdownRun :=
  shutdownLoop g orders running.length 0
    ⟨running, g.depCounts orders running, []⟩

end ServiceGraph

/-! ## Counts -/

/-- Going once over each key of a table of counts. -/
theorem degreeOf_foldl (step : Table String Nat → String → Table String Nat)
    (new : String → Nat → Nat)
    (hstep : ∀ counts k x, degreeOf (step counts k) x =
      if x = k then new k (degreeOf counts k) else degreeOf counts x) :
    ∀ (ks : List String) (counts : Table String Nat), ks.Nodup → ∀ x,
      degreeOf (ks.foldl step counts) x =
        if x ∈ ks then new x (degreeOf counts x) else degreeOf counts x := by
  intro ks
  induction ks with
  | nil => intro counts _ x; simp
  | cons k ks ih =>
      intro counts hnd x
      obtain ⟨hk, hks⟩ := List.nodup_cons.mp hnd
      rw [List.foldl_cons, ih _ hks, hstep]
      by_cases hx : x = k
      · subst hx
        simp [hk]
      · simp [hx]

/-- A count is raised once for each running dependent. -/
theorem degreeOf_raise (running : List String) (dep : String) :
    ∀ (deps : List String) (counts : Table String Nat) (x : String),
      degreeOf (deps.foldl
        (fun counts dependent =>
          if dependent ∈ running then entry counts dep 0 (· + 1) else counts)
        counts) x =
        if x = dep then degreeOf counts dep + deps.countP (· ∈ running)
        else degreeOf counts x := by
  intro deps
  induction deps with
  | nil => intro counts x; split <;> simp_all
  | cons d deps ih =>
      intro counts x
      rw [List.foldl_cons, ih]
      by_cases hd : d ∈ running
      · by_cases hx : x = dep
        · simp [hd, hx, degreeOf_entry]
          omega
        · simp [hd, hx, degreeOf_entry]
      · simp [hd]

section Counts

variable (g : ServiceGraph) (orders : ShutdownOrders)

/-- A name without an entry has no dependents. -/
theorem dependentsOf_of_notMem {x : String} (h : x ∉ g.dependents.keys) :
    g.dependentsOf x = [] := by
  have hnone : g.dependents.lookup x = none :=
    AList.lookup_eq_none.mpr (fun hin => h (AList.mem_keys.mp hin))
  simp [ServiceGraph.dependentsOf, hnone]

/-- The count of a running name is the number of its running dependents. Each
key of the table adds its dependents once, so the order of the keys does not
matter. -/
theorem degreeOf_depCounts {running : List String} {x : String}
    (hx : x ∈ running) :
    degreeOf (g.depCounts orders running) x =
      (g.dependentsOf x).countP (· ∈ running) := by
  have hzero : degreeOf (ofKeys (orders.running.arrange running) 0) x = 0 := by
    rw [degreeOf, lookup_ofKeys]
    split <;> rfl
  have hfold := degreeOf_foldl (g.countDependents running)
    (fun k c => if k ∈ running then
      c + (g.dependentsOf k).countP (· ∈ running) else c)
    (fun counts k x => by
      unfold ServiceGraph.countDependents
      by_cases hk : k ∈ running
      · rw [if_pos hk, degreeOf_raise, if_pos hk]
      · simp only [if_neg hk]
        split
        · rename_i heq
          rw [heq]
        · rfl)
    (orders.dependents.arrange g.dependents.keys)
    (ofKeys (orders.running.arrange running) 0)
    ((IterOrder.nodup_arrange _).mpr (AList.keys_nodup _)) x
  rw [ServiceGraph.depCounts, hfold, hzero]
  simp only [IterOrder.mem_arrange]
  by_cases hkey : x ∈ g.dependents.keys
  · simp [hkey, hx]
  · simp [hkey, dependentsOf_of_notMem g hkey]

/-- Removing a leaf lowers the counts of the remaining names it depends on. No
count goes below zero, and the order in which the table lists its keys does not
matter. -/
theorem degreeOf_removeLeaf (p : Stopping) (leaf x : String) :
    degreeOf (g.removeLeaf orders p leaf).depCount x =
      if x ∈ p.remaining.erase leaf ∧ leaf ∈ g.dependentsOf x then
        degreeOf p.depCount x - 1
      else degreeOf p.depCount x := by
  have hlower : ∀ c : Nat, (if 0 < c then c - 1 else c) = c - 1 := by
    intro c
    split <;> omega
  have hfold := degreeOf_foldl
    (fun counts dep =>
      if dep ∈ p.remaining.erase leaf ∧ leaf ∈ g.dependentsOf dep then
        lowerCount counts dep
      else counts)
    (fun k c =>
      if k ∈ p.remaining.erase leaf ∧ leaf ∈ g.dependentsOf k then c - 1
      else c)
    (fun counts k x => by
      by_cases hk : k ∈ p.remaining.erase leaf ∧ leaf ∈ g.dependentsOf k
      · simp only [if_pos hk]
        rw [lowerCount, degreeOf_entry, hlower]
      · simp only [if_neg hk]
        split
        · rename_i heq
          rw [heq]
        · rfl)
    (orders.dependents.arrange g.dependents.keys) p.depCount
    ((IterOrder.nodup_arrange _).mpr (AList.keys_nodup _)) x
  refine hfold.trans ?_
  simp only [IterOrder.mem_arrange]
  by_cases hkey : x ∈ g.dependents.keys
  · rw [if_pos hkey]
  · rw [if_neg hkey, dependentsOf_of_notMem g hkey, if_neg]
    exact fun h => absurd h.2 List.not_mem_nil

end Counts

/-! ## The net of a shutdown -/

/-- Each running name waits for the running services that depend on it. -/
noncomputable def stopNet (dependentsOf : String → List String)
    (running : Finset String) : Net String :=
  Net.ofRel running (fun x d => d ∈ dependentsOf x)

/-- A running name waits for the running names that depend on it. -/
theorem waits_stopNet {dependentsOf : String → List String}
    {running : Finset String} {x d : String} :
    (stopNet dependentsOf running).Waits x d ↔
      d ∈ running ∧ x ∈ running ∧ d ∈ dependentsOf x :=
  Net.waits_ofRel

/-- The loop state after the names in `M` have been taken. -/
structure StoppingAt (N : Net String) (M : Finset String) (p : Stopping) :
    Prop where
  remaining : ∀ x, x ∈ p.remaining ↔ x ∈ N.nodes ∧ x ∉ M
  nodup : p.remaining.Nodup
  count : ∀ x ∈ p.remaining, degreeOf p.depCount x = N.load M x

section Loop

variable {g : ServiceGraph} {running : List String}

/-- **At the start** the counts are the load of the net. Nothing has been
stopped, so every running dependent of a name is still one to wait for. -/
theorem StoppingAt.start (orders : ShutdownOrders)
    (hdeps : ∀ x, (g.dependentsOf x).Nodup) (hset : running.Nodup) :
    StoppingAt (stopNet g.dependentsOf running.toFinset) ∅
      ⟨running, g.depCounts orders running, []⟩ := by
  refine ⟨fun x => ?_, hset, fun x hx => ?_⟩
  · simp [stopNet, Net.ofRel]
  · have hcount : (g.dependentsOf x).countP (· ∈ running) =
        ((g.dependentsOf x).filter (· ∈ running)).toFinset.card := by
      rw [List.toFinset_card_of_nodup ((hdeps x).filter _),
        List.countP_eq_length_filter]
    rw [degreeOf_depCounts g orders hx, hcount,
      Net.load_eq_card (stopNet g.dependentsOf running.toFinset)
        Net.nodup_succs_ofRel]
    congr 1
    ext d
    have hwaits : x ∈ (stopNet g.dependentsOf running.toFinset).succs d ↔
        d ∈ running.toFinset ∧ x ∈ running.toFinset ∧
          d ∈ g.dependentsOf x := waits_stopNet
    have hnodes : d ∈ (stopNet g.dependentsOf running.toFinset).nodes ↔
        d ∈ running := List.mem_toFinset
    rw [Finset.mem_filter, hwaits, Finset.mem_sdiff, hnodes,
      List.mem_toFinset, List.mem_filter, List.mem_toFinset,
      List.mem_toFinset, decide_eq_true_eq]
    simp only [Finset.notMem_empty, not_false_iff]
    tauto

/-- **One leaf.**  Removing it lowers the load as it lowers the counts. -/
theorem StoppingAt.removeLeaf (orders : ShutdownOrders) {M : Finset String}
    {p : Stopping}
    (h : StoppingAt (stopNet g.dependentsOf running.toFinset) M p)
    {leaf : String} (hleaf : leaf ∈ p.remaining) :
    StoppingAt (stopNet g.dependentsOf running.toFinset) (insert leaf M)
      (g.removeLeaf orders p leaf) := by
  obtain ⟨hnode, hout⟩ := (h.remaining leaf).mp hleaf
  refine ⟨fun x => ?_, h.nodup.erase _, fun x hx => ?_⟩
  · change x ∈ p.remaining.erase leaf ↔ _
    rw [h.nodup.mem_erase_iff, h.remaining, Finset.mem_insert, not_or]
    tauto
  · change x ∈ p.remaining.erase leaf at hx
    have hin : x ∈ p.remaining := List.mem_of_mem_erase hx
    have hwaits := @waits_stopNet g.dependentsOf running.toFinset x leaf
    have hxnode := ((h.remaining x).mp hin).1
    rw [degreeOf_removeLeaf, Net.load_insert _ hout, h.count x hin]
    by_cases hdep : leaf ∈ g.dependentsOf x
    · have hone : ((stopNet g.dependentsOf running.toFinset).succs
          leaf).count x = 1 :=
        List.count_eq_one_of_mem (Net.nodup_succs_ofRel leaf)
          (hwaits.mpr ⟨hnode, hxnode, hdep⟩)
      rw [if_pos ⟨hx, hdep⟩, hone]
    · have hmem := fun hw => hdep (hwaits.mp hw).2.2
      rw [if_neg (fun hboth => hdep hboth.2), List.count_eq_zero.mpr hmem,
        Nat.sub_zero]

/-- The leaves of a layer are removed one after another, and the counts stay
exact. -/
theorem StoppingAt.removeLeaves (orders : ShutdownOrders) :
    ∀ (leaves : List String) (M : Finset String) (p : Stopping),
      StoppingAt (stopNet g.dependentsOf running.toFinset) M p →
      leaves.Nodup → (∀ leaf ∈ leaves, leaf ∈ p.remaining) →
      StoppingAt (stopNet g.dependentsOf running.toFinset)
        (M ∪ leaves.toFinset) (leaves.foldl (g.removeLeaf orders) p) := by
  intro leaves
  induction leaves with
  | nil => intro M p h _ _; simpa using h
  | cons leaf leaves ih =>
      intro M p h hnd hin
      obtain ⟨hleaf, hrest⟩ := List.nodup_cons.mp hnd
      have hnext := ih _ _
        (h.removeLeaf orders (hin leaf List.mem_cons_self)) hrest
        (fun other hother => ?_)
      · simpa [Finset.insert_union, Finset.union_insert] using hnext
      · change other ∈ p.remaining.erase leaf
        rw [h.nodup.mem_erase_iff]
        refine ⟨?_, hin other (List.mem_cons_of_mem _ hother)⟩
        rintro rfl
        exact hleaf hother

/-- The leaves of a round are the next layer. -/
theorem StoppingAt.leaves_eq {N : Net String} {M : Finset String}
    {p : Stopping} (h : StoppingAt N M p) (orders : ShutdownOrders)
    (round : Nat) :
    ServiceGraph.leaves orders round p = (N.layer M).sort := by
  refine sorted_eq_sort ?_ (fun x => ?_)
  · exact ((IterOrder.nodup_arrange _).mpr h.nodup).filter _
  · rw [List.mem_filter, IterOrder.mem_arrange, Net.mem_layer, ← and_assoc,
      ← h.remaining, decide_eq_true_eq]
    exact and_congr_right fun hx => by rw [h.count x hx]

/-- The rounds only add to the order. -/
theorem removeLeaves_order (orders : ShutdownOrders) :
    ∀ (leaves : List String) (p : Stopping),
      (leaves.foldl (g.removeLeaf orders) p).order = p.order := by
  intro leaves
  induction leaves with
  | nil => intro p; rfl
  | cons leaf leaves ih => intro p; exact ih _

/-- **The loop peels the net.**  Without a cycle among the dependents it never
drains. -/
theorem StoppingAt.loop (orders : ShutdownOrders)
    (hacc : ∀ x ∈ (stopNet g.dependentsOf running.toFinset).nodes,
      Acc (stopNet g.dependentsOf running.toFinset).Below x) :
    ∀ (fuel round : Nat) (M : Finset String) (p : Stopping),
      StoppingAt (stopNet g.dependentsOf running.toFinset) M p →
      ((stopNet g.dependentsOf running.toFinset).nodes \ M).card ≤ fuel →
      g.shutdownLoop orders fuel round p = .ok
        ⟨p.order ++ (stopNet g.dependentsOf running.toFinset).peel fuel M,
          false⟩ := by
  intro fuel
  induction fuel with
  | zero =>
      intro round M p h hfuel
      have hnone := Finset.card_eq_zero.mp (Nat.le_zero.mp hfuel)
      have hnil : p.remaining = [] := by
        rw [List.eq_nil_iff_forall_not_mem]
        intro x hx
        rw [h.remaining, ← Finset.mem_sdiff, hnone] at hx
        exact absurd hx (Finset.notMem_empty x)
      simp [ServiceGraph.shutdownLoop, hnil, Net.peel]
  | succ fuel ih =>
      intro round M p h hfuel
      unfold ServiceGraph.shutdownLoop
      by_cases hnil : p.remaining = []
      · have hpeel : (stopNet g.dependentsOf running.toFinset).peel
            (fuel + 1) M = [] := by
          rw [List.eq_nil_iff_forall_not_mem]
          intro x hx
          have hleft := (h.remaining x).mpr (Net.of_mem_peel _ M hx)
          rw [hnil] at hleft
          cases hleft
        rw [if_pos hnil, hpeel, List.append_nil]
      · obtain ⟨x, hx⟩ := List.exists_mem_of_ne_nil _ hnil
        obtain ⟨hnode, hout⟩ := (h.remaining x).mp hx
        obtain ⟨y, hy⟩ := Net.layer_nonempty hacc hnode hout
        have hleaves := h.leaves_eq orders round
        have hsome : ServiceGraph.leaves orders round p ≠ [] := by
          rw [hleaves]
          exact List.ne_nil_of_mem ((Finset.mem_sort _).mpr hy)
        have hin : ∀ leaf ∈ ServiceGraph.leaves orders round p,
            leaf ∈ p.remaining := by
          intro leaf hleaf
          rw [hleaves, Finset.mem_sort, Net.mem_layer] at hleaf
          exact (h.remaining leaf).mpr ⟨hleaf.1, hleaf.2.1⟩
        have hnd : (ServiceGraph.leaves orders round p).Nodup := by
          rw [hleaves]
          exact Finset.sort_nodup _ _
        have hnext := h.removeLeaves orders _ M p hnd hin
        rw [hleaves, Finset.sort_toFinset, ← hleaves] at hnext
        have hat : StoppingAt (stopNet g.dependentsOf running.toFinset)
            (M ∪ (stopNet g.dependentsOf running.toFinset).layer M)
            { (ServiceGraph.leaves orders round p).foldl
                (g.removeLeaf orders) p with
              order := ((ServiceGraph.leaves orders round p).foldl
                (g.removeLeaf orders) p).order ++
                  ServiceGraph.leaves orders round p } :=
          ⟨hnext.remaining, hnext.nodup, hnext.count⟩
        have hfewer := Net.card_sdiff_layer_lt hacc hnode hout
        rw [if_neg hnil, if_neg hsome, ih _ _ _ hat (by omega),
          removeLeaves_order, hleaves, List.append_assoc]
        rfl

end Loop

/-! ## Graphs returned by `build` -/

section Built

variable {orders : BuildOrders} {services : List ServiceDef}
  {g : ServiceGraph}

/-- The dependents of a service are those that list it. -/
theorem Built.mem_dependentsOf (h : Built orders services g) {x d : String} :
    x ∈ g.dependentsOf d ↔ Lists services x d := by
  rw [h.graphAt.dependents, ← @waits_waitNet orders]
  rfl

/-- Turned round, the net of a built graph has no endless descent either. -/
theorem Built.acc_stopNet (h : Built orders services g)
    (running : Finset String) (x : String) :
    Acc (stopNet g.dependentsOf running).Below x := by
  by_contra hnacc
  obtain ⟨y, _, hy⟩ := (Net.not_acc_iff _).mp hnacc
  have hturned : TransGen (Lists services) y y := by
    refine transGen_swap.mp (TransGen.mono ?_ _ _ hy)
    intro a b hab
    exact h.mem_dependentsOf.mp (waits_stopNet.mp hab).2.2
  exact acc_iff_acyclic.mp h.acc ⟨y, hturned⟩

/-- **What `shutdown_order` returns** is the peeled net, under all enumeration
orders and without draining.  Marks on the graph change nothing in that. -/
theorem Built.shutdownOrder_marked (h : Built orders services g)
    {g' : ServiceGraph} (hsame : g'.dependentsOf = g.dependentsOf)
    (shutdownOrders : ShutdownOrders) {running : List String}
    (hset : running.Nodup) :
    g'.shutdownOrder shutdownOrders running = .ok
      ⟨(stopNet g.dependentsOf running.toFinset).peel running.length ∅,
        false⟩ := by
  have hstart := StoppingAt.start (g := g') shutdownOrders
    (by rw [hsame]; exact h.nodup_dependents) hset
  have hacc : ∀ x ∈ (stopNet g'.dependentsOf running.toFinset).nodes,
      Acc (stopNet g'.dependentsOf running.toFinset).Below x := by
    rw [hsame]
    exact fun x _ => h.acc_stopNet _ x
  rw [← hsame]
  refine (hstart.loop shutdownOrders hacc running.length 0 ∅ _ ?_).trans ?_
  · rw [Finset.sdiff_empty]
    exact List.toFinset_card_le running
  · rw [List.nil_append]

/-- The order is the names peeled layer by layer, and the loop finds no cycle.
-/
theorem Built.shutdownOrder_eq (h : Built orders services g)
    (shutdownOrders : ShutdownOrders) {running : List String}
    (hset : running.Nodup) :
    g.shutdownOrder shutdownOrders running = .ok
      ⟨(stopNet g.dependentsOf running.toFinset).peel running.length ∅,
        false⟩ :=
  h.shutdownOrder_marked rfl shutdownOrders hset

/-- All running names are in the order. -/
theorem Built.mem_stopOrder (h : Built orders services g)
    (running : List String) (x : String) :
    x ∈ (stopNet g.dependentsOf running.toFinset).peel running.length ∅ ↔
      x ∈ running := by
  rw [Net.mem_peel (fun y _ => h.acc_stopNet _ y) running.length ∅ ?_]
  · simp [stopNet, Net.ofRel]
  · rw [Finset.sdiff_empty]
    exact List.toFinset_card_le running

/-- What stands before a service: all that depend on it. -/
theorem Built.stopped_before (h : Built orders services g)
    {running early late : List String} {x d : String}
    (hsplit : (stopNet g.dependentsOf running.toFinset).peel running.length ∅ =
      early ++ d :: late)
    (hx : x ∈ running) (hlists : Lists services x d) : x ∈ early := by
  have hd : d ∈ running := by
    rw [← h.mem_stopOrder, hsplit]
    simp
  have hwaits : (stopNet g.dependentsOf running.toFinset).Waits d x :=
    waits_stopNet.mpr ⟨List.mem_toFinset.mpr hx, List.mem_toFinset.mpr hd,
      h.mem_dependentsOf.mpr hlists⟩
  exact (Net.waits_before_peel _ _ hsplit hwaits).resolve_left
    (Finset.notMem_empty x)

/-- **A shutdown stops dependents first.**  On a built graph the call returns
the running names, each of them once, without draining and whatever the
enumeration orders; each service stands before the running services of the
graph that it depends on. -/
theorem shutdown_order_reverse_topological
    (hg : ServiceGraph.build orders services = .ok (.ok g))
    {running : List String} (hset : running.Nodup) :
    ∃ order : List String,
      (∀ shutdownOrders, g.shutdownOrder shutdownOrders running =
        .ok ⟨order, false⟩) ∧
      order.Perm running ∧
      ∀ before x after, order = before ++ x :: after →
        ∀ d ∈ running, Lists services x d → d ∈ after := by
  have hbuilt := build_built hg
  let N := stopNet g.dependentsOf running.toFinset
  have hmem := hbuilt.mem_stopOrder running
  have hnd : (N.peel running.length ∅).Nodup := Net.nodup_peel _ _
  refine ⟨N.peel running.length ∅,
    fun shutdownOrders => hbuilt.shutdownOrder_eq shutdownOrders hset,
    (List.perm_ext_iff_of_nodup hnd hset).mpr hmem, ?_⟩
  intro before x after heq d hd hlists
  have hx : x ∈ running := by
    rw [← hmem, heq]
    simp
  have hin := (hmem d).mpr hd
  rw [heq] at hin hnd
  obtain ⟨-, hlast, hdisjoint⟩ := List.nodup_append.mp hnd
  rcases List.mem_append.mp hin with hin | hin
  · -- before `x` it would have `x` before it as well
    obtain ⟨early, late, rfl⟩ := List.append_of_mem hin
    have hxin : x ∈ early := hbuilt.stopped_before (by
      rw [heq, List.append_assoc, List.cons_append]) hx hlists
    exact absurd rfl (hdisjoint x (List.mem_append_left _ hxin) x
      List.mem_cons_self)
  · rcases List.mem_cons.mp hin with rfl | hin
    · have hxin := hbuilt.stopped_before heq hx hlists
      exact absurd rfl (hdisjoint d hxin d List.mem_cons_self)
    · exact hin

end Built

/-- `left` is stopped before `root`, and a name that the graph does not know is
stopped, too. -/
theorem shutdown_order_reverse_topological_diamond :
    ∃ g, ServiceGraph.build .asStored diamond = .ok (.ok g) ∧
      ∃ order : List String,
        (∀ shutdownOrders, g.shutdownOrder shutdownOrders
          ["left", "root", "stray"] = .ok ⟨order, false⟩) ∧
        order.Perm ["left", "root", "stray"] ∧
        ∀ before x after, order = before ++ x :: after →
          ∀ d ∈ ["left", "root", "stray"], Lists diamond x d → d ∈ after :=
  ⟨_, rfl, shutdown_order_reverse_topological
    (rfl : ServiceGraph.build .asStored diamond = .ok (.ok _)) (by decide)⟩

example : (ServiceGraph.build .asStored diamond).map
    (·.map (·.shutdownOrder .asStored ["root", "leaf", "right", "left"])) =
      .ok (.ok (.ok ⟨["leaf", "left", "right", "root"], false⟩)) := by
  decide +kernel

/-- A name that the graph does not know is not waited for, although a service
of the graph lists it and it is running. -/
theorem unknown_dependency_stopped_first :
    ∃ g, ServiceGraph.build .asStored [makeService "web" ["db"] []] =
        .ok (.ok g) ∧
      g.shutdownOrder .asStored ["db", "web"] = .ok ⟨["db", "web"], false⟩ ∧
      "db" ∈ (makeService "web" ["db"] []).allDeps :=
  ⟨_, rfl, by decide +kernel, by decide⟩

end FlintInit
