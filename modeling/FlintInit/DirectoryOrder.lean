import FlintInit.ShutdownOrder

/-!
# Scheduling and directory order

`read_dir` lists the service files in any order, and `build` meets hash
collections in any order.  Two graphs built from the same definitions then
differ in the order of their tables and edge lists.  `Alike` says what they
have in common: the counters, and how often each service stands behind each
other.  Every call of the scheduler reads no more than that.
-/

namespace FlintInit

open Collections Release Relation

/-- Equal up to the order of tables and edge lists. -/
structure Alike (g g' : ServiceGraph) : Prop where
  degree : ∀ x, g.degree x = g'.degree x
  keys : ∀ x, x ∈ g.inDegree.keys ↔ x ∈ g'.inDegree.keys
  count : ∀ d x, (g.dependentsOf d).count x = (g'.dependentsOf d).count x

/-- What each of a sequence of `mark_ready` calls returns. -/
def markResults (g : ServiceGraph) : List String → List (List String)
  | [] => []
  | n :: rest => (g.markReady n).2 :: markResults (g.markReady n).1 rest

namespace Alike

variable {g g' : ServiceGraph}

/-- Graphs that are alike release the same services at the start, in the same
order, since names are sorted. -/
theorem initiallyReady (h : Alike g g') (order order' : IterOrder String) :
    g.initiallyReady order = g'.initiallyReady order' := by
  have hperm : (g.initiallyReady order).Perm (g'.initiallyReady order') := by
    refine (List.perm_ext_iff_of_nodup (nodup_initiallyReady g order)
      (nodup_initiallyReady g' order')).mpr (fun x => ?_)
    have hdegree : degreeOf g.inDegree x = degreeOf g'.inDegree x :=
      h.degree x
    simp [ServiceGraph.initiallyReady, keysWhere, h.keys x, hdegree]
  exact hperm.eq_of_sortedLE List.sortedLE_insertionSort
    List.sortedLE_insertionSort

/-- **One mark** returns the same names and leaves the graphs alike. -/
theorem mark (h : Alike g g') (n : String) :
    (g.markReady n).2 = (g'.markReady n).2 ∧
      Alike (g.markReady n).1 (g'.markReady n).1 := by
  obtain ⟨hdeg, hnd, hmem⟩ := g.markReady_spec n
  obtain ⟨hdeg', hnd', hmem'⟩ := g'.markReady_spec n
  constructor
  · have hperm : (g.markReady n).2.Perm (g'.markReady n).2 := by
      refine (List.perm_ext_iff_of_nodup hnd hnd').mpr (fun x => ?_)
      rw [hmem, hmem', h.degree, h.count]
    exact hperm.eq_of_sortedLE (g.markReady_sorted n) (g'.markReady_sorted n)
  · refine ⟨fun x => ?_, fun x => ?_, fun d x => ?_⟩
    · rw [hdeg, hdeg', h.degree, h.count]
    · have hlisted : x ∈ g.dependentsOf n ↔ x ∈ g'.dependentsOf n := by
        rw [← List.count_pos_iff, ← List.count_pos_iff, h.count]
      rw [ServiceGraph.mem_keys_markReady, ServiceGraph.mem_keys_markReady,
        h.keys, hlisted]
    · have hcount := h.count d x
      simpa [ServiceGraph.dependentsOf] using hcount

/-- **Any sequence of marks** returns the same. -/
theorem markResults :
    ∀ (ms : List String) {g g' : ServiceGraph}, Alike g g' →
      FlintInit.markResults g ms = FlintInit.markResults g' ms := by
  intro ms
  induction ms with
  | nil => intro g g' _; rfl
  | cons n rest ih =>
      intro g g' h
      obtain ⟨hsame, hnext⟩ := h.mark n
      rw [FlintInit.markResults, FlintInit.markResults, hsame, ih hnext]

end Alike

/-! ## Permuted definitions -/

section Permuted

variable {orders orders' : BuildOrders} {services services' : List ServiceDef}
  {g g' : ServiceGraph}

/-- Who waits for whom does not depend on the order of the files. -/
theorem lists_of_perm (hperm : services.Perm services') :
    Lists services = Lists services' := by
  funext x d
  have hnames := (hperm.map ServiceDef.name).mem_iff (a := d)
  simp only [Lists, hnames, hperm.mem_iff]

/-- Nor does it, whether a service can ever be reached. -/
theorem acc_of_perm (hperm : services.Perm services') {x : String} :
    Acc (waitNet orders services).Below x ↔
      Acc (waitNet orders' services').Below x := by
  have hbelow : (waitNet orders services).Below =
      (waitNet orders' services').Below := by
    funext d x
    change Net.Waits _ x d = Net.Waits _ x d
    rw [waits_eq_lists, waits_eq_lists, lists_of_perm hperm]
  rw [hbelow]

/-- Both succeed, or both fail. -/
theorem build_ok_of_perm (hperm : services.Perm services') :
    (∃ g, ServiceGraph.build orders services = .ok (.ok g)) ↔
      ∃ g, ServiceGraph.build orders' services' = .ok (.ok g) := by
  have hnames := hperm.map ServiceDef.name
  rw [build_ok_iff, build_ok_iff, hnames.nodup_iff]
  refine and_congr_right fun _ => forall_congr' fun x => ?_
  rw [hnames.mem_iff, acc_of_perm hperm]

/-- The two graphs show the same edges. -/
theorem Built.alike (h : Built orders services g)
    (h' : Built orders' services' g') (hperm : services.Perm services') :
    Alike g g' := by
  have hmem : ∀ d x, x ∈ g.dependentsOf d ↔ x ∈ g'.dependentsOf d := by
    intro d x
    rw [h.mem_dependentsOf, h'.mem_dependentsOf, lists_of_perm hperm]
  have hnames := hperm.map ServiceDef.name
  refine ⟨fun x => ?_, fun x => ?_, fun d x => ?_⟩
  · have hdeps : knownDeps services x = knownDeps services' x := by
      ext d
      rw [mem_knownDeps, mem_knownDeps, lists_of_perm hperm]
    rw [h.graphAt.degree, h'.graphAt.degree, h.load_eq_card,
      h'.load_eq_card, hdeps]
  · rw [h.graphAt.keys, h'.graphAt.keys, mem_waitNet_nodes,
      mem_waitNet_nodes, hnames.mem_iff]
  · rw [List.Nodup.count (h.nodup_dependents d),
      List.Nodup.count (h'.nodup_dependents d)]
    simp only [hmem]

/-- Turned round they are one net. -/
theorem Built.stopNet_eq (h : Built orders services g)
    (h' : Built orders' services' g') (hperm : services.Perm services')
    (running : Finset String) :
    stopNet g.dependentsOf running = stopNet g'.dependentsOf running := by
  have hrel : (fun x d => d ∈ g.dependentsOf x) =
      fun x d => d ∈ g'.dependentsOf x := by
    funext x d
    rw [h.mem_dependentsOf, h'.mem_dependentsOf, lists_of_perm hperm]
  rw [stopNet, stopNet, hrel]

end Permuted

/-- **Scheduling does not depend on directory order.**  Two calls of `build`
on the same definitions, in any order and under any enumeration orders,
succeed both or fail both.  The two graphs start the same services, release
the same ones at every mark of every sequence, stop every running set in the
same order, and agree on who needs whom. -/
theorem directory_order_irrelevant (orders orders' : BuildOrders)
    {services services' : List ServiceDef}
    (hperm : services.Perm services') :
    ((∃ g, ServiceGraph.build orders services = .ok (.ok g)) ↔
      ∃ g, ServiceGraph.build orders' services' = .ok (.ok g)) ∧
    ∀ g g', ServiceGraph.build orders services = .ok (.ok g) →
      ServiceGraph.build orders' services' = .ok (.ok g') →
      (∀ order order', g.initiallyReady order = g'.initiallyReady order') ∧
      (∀ ms, markResults g ms = markResults g' ms) ∧
      (∀ stops stops' running running', running.Nodup →
        running.Perm running' →
        g.shutdownOrder stops running = g'.shutdownOrder stops' running') ∧
      ∀ n x, x ∈ g.needsDependentsOf n ↔ x ∈ g'.needsDependentsOf n := by
  refine ⟨build_ok_of_perm hperm, fun g g' hg hg' => ?_⟩
  have hbuilt := build_built hg
  have hbuilt' := build_built hg'
  have halike := hbuilt.alike hbuilt' hperm
  refine ⟨halike.initiallyReady, fun ms => Alike.markResults ms halike, ?_,
    fun n x => ?_⟩
  · intro stops stops' running running' hset hsame
    have hset' := hsame.nodup_iff.mp hset
    have hfinset : running.toFinset = running'.toFinset := by
      ext x
      rw [List.mem_toFinset, List.mem_toFinset, hsame.mem_iff]
    rw [hbuilt.shutdownOrder_eq stops hset,
      hbuilt'.shutdownOrder_eq stops' hset', hfinset, hsame.length_eq,
      hbuilt.stopNet_eq hbuilt' hperm]
  · rw [hbuilt.needs, hbuilt'.needs]
    simp only [hperm.mem_iff]

/-- The edges of `root` are stored in another order when the files are listed
backwards; marking returns the same lists. -/
theorem directory_order_irrelevant_diamond :
    diamond.Perm diamond.reverse ∧
    ∃ g g', ServiceGraph.build .asStored diamond = .ok (.ok g) ∧
      ServiceGraph.build .asStored diamond.reverse = .ok (.ok g') ∧
      g.dependentsOf "root" ≠ g'.dependentsOf "root" ∧
      markResults g ["root", "left", "right"] =
        markResults g' ["root", "left", "right"] :=
  have h := directory_order_irrelevant .asStored .asStored
    (List.reverse_perm diamond).symm
  ⟨(List.reverse_perm diamond).symm, _, _, rfl, rfl, by decide,
    (h.2 _ _ rfl rfl).2.1 _⟩

end FlintInit
