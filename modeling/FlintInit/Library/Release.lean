import Mathlib.Algebra.BigOperators.Group.Finset.Basic
import Mathlib.Algebra.BigOperators.Group.Finset.Piecewise
import Mathlib.Algebra.Order.BigOperators.Group.Finset
import Mathlib.Data.Set.Finite.Basic
import Mathlib.Data.List.Count
import Mathlib.Logic.Relation
import Mathlib.Order.WellFounded

/-!
# Releasing the nodes of a waiting graph

A net is a finite set of nodes with, for each node `d`, the list of nodes that
wait for `d`.  A node may occur several times in such a list; each occurrence
then counts.  Marking `d` serves one waiting edge per occurrence, and a node
is released when the last edge into it has been served.

Nothing below depends on the order of the marks:

* `load_insert` — what one mark does to the number of unserved edges;
* `Frontier.step` — the worklist of released, unmarked nodes is kept exact by
  removing any element of it and adding the nodes its mark releases;
* `Frontier.exhausted` — when the worklist is empty the marked nodes are
  exactly those below which every descent ends;
* `not_acc_iff` — on a finite net the others are the nodes that reach a cycle.
-/

namespace Release

open Relation

variable {α : Type} [DecidableEq α]

/-- A finite waiting graph: `succs d` lists the nodes waiting for `d`. -/
structure Net (α : Type) [DecidableEq α] where
  nodes : Finset α
  succs : α → List α
  src_mem : ∀ {d x : α}, x ∈ succs d → d ∈ nodes
  dst_mem : ∀ {d x : α}, x ∈ succs d → x ∈ nodes

namespace Net

variable (N : Net α)

/-- `x` waits for `d`. -/
def Waits (x d : α) : Prop := x ∈ N.succs d

/-- The number of edges into `x` that the marks in `M` have not served. -/
def load (M : Finset α) (x : α) : Nat :=
  ∑ d ∈ N.nodes \ M, (N.succs d).count x

/-- No unserved edge is left exactly when everything waited for is marked. -/
theorem load_eq_zero_iff {M : Finset α} {x : α} :
    N.load M x = 0 ↔ ∀ d, N.Waits x d → d ∈ M := by
  simp only [load, Finset.sum_eq_zero_iff, Finset.mem_sdiff,
    List.count_eq_zero]
  constructor
  · intro h d hw
    by_contra hd
    exact h d ⟨N.src_mem hw, hd⟩ hw
  · intro h d hd hw
    exact hd.2 (h d hw)

/-- A node that is not in the net has nothing waiting for it. -/
theorem count_eq_zero_of_notMem {d : α} (hd : d ∉ N.nodes) (x : α) :
    (N.succs d).count x = 0 :=
  List.count_eq_zero.mpr (fun h => hd (N.src_mem h))

/-- Splitting off the edges served by an unmarked node. -/
theorem load_insert_add {M : Finset α} {d : α} (hd : d ∉ M) (x : α) :
    N.load (insert d M) x + (N.succs d).count x = N.load M x := by
  by_cases hn : d ∈ N.nodes
  · have hsplit : N.nodes \ M = insert d (N.nodes \ insert d M) := by
      ext e
      by_cases he : e = d
      · subst he; simp [hn, hd]
      · simp [he]
    have hout : d ∉ N.nodes \ insert d M := by simp
    unfold load
    rw [hsplit, Finset.sum_insert hout, Nat.add_comm]
  · have hsame : N.nodes \ insert d M = N.nodes \ M := by
      ext e
      by_cases he : e = d
      · subst he; simp [hn]
      · simp [he]
    simp [load, hsame, N.count_eq_zero_of_notMem hn x]

/-- One mark lowers the load of each node by the edges it serves. -/
theorem load_insert {M : Finset α} {d : α} (hd : d ∉ M) (x : α) :
    N.load (insert d M) x = N.load M x - (N.succs d).count x := by
  have h := N.load_insert_add hd x
  omega

/-- The edges served by one mark are among the unserved ones. -/
theorem count_le_load {M : Finset α} {d : α} (hd : d ∉ M) (x : α) :
    (N.succs d).count x ≤ N.load M x := by
  have h := N.load_insert_add hd x
  omega

/-- A node with unserved edges belongs to the net. -/
theorem mem_nodes_of_load_pos {M : Finset α} {x : α} (h : 0 < N.load M x) :
    x ∈ N.nodes := by
  by_contra hx
  have hzero : N.load M x = 0 :=
    N.load_eq_zero_iff.mpr (fun d hw => absurd (N.dst_mem hw) hx)
  omega

/-- More marks leave no more edges unserved. -/
theorem load_mono {M M' : Finset α} (h : M ⊆ M') (x : α) :
    N.load M' x ≤ N.load M x :=
  Finset.sum_le_sum_of_subset
    (Finset.sdiff_subset_sdiff (Finset.Subset.refl _) h)

/-- Without repeated edges the load counts the unmarked nodes waited for. -/
theorem load_eq_card (hnd : ∀ d, (N.succs d).Nodup) (M : Finset α) (x : α) :
    N.load M x = ((N.nodes \ M).filter (fun d => x ∈ N.succs d)).card := by
  rw [Finset.card_filter]
  refine Finset.sum_congr rfl (fun d _ => ?_)
  by_cases hx : x ∈ N.succs d
  · simp [hx, List.count_eq_one_of_mem (hnd d) hx]
  · simp [hx, List.count_eq_zero.mpr hx]

/-- Descent along waiting edges: `d` lies below `x` when `x` waits for it. -/
def Below (d x : α) : Prop := N.Waits x d

/-- On a finite net an infinite descent is a descent into a cycle. -/
theorem not_acc_iff {x : α} :
    ¬ Acc N.Below x ↔
      ∃ y, ReflTransGen N.Waits x y ∧ TransGen N.Waits y y := by
  constructor
  · intro hacc
    by_contra hno
    apply hacc
    -- the nodes reachable from `x`, on which strict descent is well founded
    let Reach := {y : α // ReflTransGen N.Waits x y}
    have hset : Set.Finite {y | ReflTransGen N.Waits x y} := by
      refine (Finset.finite_toSet (insert x N.nodes)).subset ?_
      intro y hy
      rcases ReflTransGen.cases_tail hy with rfl | ⟨z, _, hz⟩
      · simp
      · simp [N.src_mem hz]
    have hfin : Finite Reach := hset.to_subtype
    let Strict : Reach → Reach → Prop :=
      fun a b => TransGen N.Waits b.1 a.1
    have htrans : IsTrans Reach Strict :=
      ⟨fun _ _ _ hab hbc => hbc.trans hab⟩
    have hirr : Std.Irrefl Strict :=
      ⟨fun a ha => hno ⟨a.1, a.2, ha⟩⟩
    have hwf : WellFounded Strict := Finite.wellFounded_of_trans_of_irrefl _
    have hall : ∀ a : Reach, Acc N.Below a.1 := by
      intro a
      induction a using hwf.induction with
      | _ a ih =>
          refine Acc.intro _ (fun d hd => ?_)
          exact ih ⟨d, a.2.tail hd⟩ (TransGen.single hd)
    exact hall ⟨x, ReflTransGen.refl⟩
  · rintro ⟨y, hxy, hyy⟩ hacc
    have hy : Acc N.Below y := by
      clear hyy
      induction hxy with
      | refl => exact hacc
      | tail _ hstep ih => exact Acc.inv ih hstep
    have hloop : ∀ z, Acc N.Below z → ¬ TransGen N.Waits z z := by
      intro z hz
      induction hz with
      | intro z _ ih =>
          intro hcycle
          obtain ⟨d, hd, hrest⟩ := TransGen.head'_iff.mp hcycle
          exact ih d hd (TransGen.tail' hrest hd)
    exact hloop y hy hyy

/-- When every node without unserved edges is marked, so is every node below
which all descents end. -/
theorem mem_of_acc {M : Finset α}
    (hserved : ∀ x ∈ N.nodes, N.load M x = 0 → x ∈ M)
    {x : α} (hx : x ∈ N.nodes) (hacc : Acc N.Below x) : x ∈ M := by
  induction hacc with
  | intro x _ ih =>
      refine hserved x hx (N.load_eq_zero_iff.mpr (fun d hd => ?_))
      exact ih d hd (N.src_mem hd)

end Net

section Edges

variable (nodes : Finset α) (edges : List (α × α))

/-- The net with one waiting edge for each pair `(d, x)` of a list. -/
def Net.ofEdges (h : ∀ e ∈ edges, e.1 ∈ nodes ∧ e.2 ∈ nodes) : Net α where
  nodes := nodes
  succs d := (edges.filter (fun e => e.1 = d)).map Prod.snd
  src_mem := by
    intro d x hx
    obtain ⟨e, he, rfl⟩ := List.mem_map.mp hx
    have hmem := List.mem_filter.mp he
    have hd : e.1 = d := by simpa using hmem.2
    exact hd ▸ (h e hmem.1).1
  dst_mem := by
    intro d x hx
    obtain ⟨e, he, rfl⟩ := List.mem_map.mp hx
    exact (h e (List.mem_filter.mp he).1).2

variable (h : ∀ e ∈ edges, e.1 ∈ nodes ∧ e.2 ∈ nodes)

/-- Who waits for whom in a net given by its edges. -/
theorem Net.waits_ofEdges {x d : α} :
    (Net.ofEdges nodes edges h).Waits x d ↔ (d, x) ∈ edges := by
  simp only [Net.Waits, Net.ofEdges, List.mem_map, List.mem_filter,
    decide_eq_true_eq]
  constructor
  · intro ⟨e, ⟨he, hd⟩, hx⟩
    have heq : e = (d, x) := Prod.ext hd hx
    exact heq ▸ he
  · intro he
    exact ⟨(d, x), ⟨he, rfl⟩, rfl⟩

/-- The edges from `d` to `x` are the occurrences of `x` behind `d`. -/
theorem Net.count_succs_ofEdges (d x : α) :
    ((Net.ofEdges nodes edges h).succs d).count x = edges.count (d, x) := by
  simp only [Net.ofEdges, List.count, List.countP_map, List.countP_filter]
  refine List.countP_congr (fun e _ => ?_)
  obtain ⟨a, b⟩ := e
  simp [and_comm]

/-- Counting edges by their ends is counting them by their sources too. -/
theorem sum_count_eq_countP (x : α) (hsrc : ∀ e ∈ edges, e.1 ∈ nodes) :
    ∑ d ∈ nodes, edges.count (d, x) = edges.countP (fun e => e.2 = x) := by
  induction edges with
  | nil => simp
  | cons e edges ih =>
      obtain ⟨a, b⟩ := e
      have ha : a ∈ nodes := hsrc (a, b) List.mem_cons_self
      have hrest := ih (fun e he => hsrc e (List.mem_cons_of_mem _ he))
      simp only [List.count_cons, List.countP_cons, Finset.sum_add_distrib,
        hrest]
      congr 1
      by_cases hb : b = x
      · simp [hb, ha]
      · simp [hb]

/-- Before any mark the load of a node is the number of edges into it. -/
theorem Net.load_ofEdges_empty (x : α) :
    (Net.ofEdges nodes edges h).load ∅ x =
      edges.countP (fun e => e.2 = x) := by
  rw [← sum_count_eq_countP nodes edges x (fun e he => (h e he).1)]
  simp only [Net.load, Finset.sdiff_empty, Net.count_succs_ofEdges]
  rfl

end Edges

/-- `W` is the exact worklist after the marks in `M`: it holds each released,
unmarked node once, what a marked node waits for is marked, and every descent
from a marked node ends. -/
structure Frontier (N : Net α) (M : Finset α) (W : List α) : Prop where
  sub : M ⊆ N.nodes
  nodup : W.Nodup
  mem_iff : ∀ x, x ∈ W ↔ x ∈ N.nodes ∧ x ∉ M ∧ N.load M x = 0
  closed : ∀ m ∈ M, N.load M m = 0
  acc : ∀ m ∈ M, Acc N.Below m

namespace Frontier

variable {N : Net α} {M : Finset α} {W : List α}

/-- The worklist before any mark. -/
theorem start (hnd : W.Nodup)
    (hmem : ∀ x, x ∈ W ↔ x ∈ N.nodes ∧ N.load ∅ x = 0) :
    Frontier N ∅ W :=
  ⟨by simp, hnd, by simpa using hmem, by simp, by simp⟩

/-- What is on the worklist waits for marked nodes only. -/
theorem waits_marked (h : Frontier N M W) {x d : α} (hx : x ∈ W)
    (hw : N.Waits x d) : d ∈ M :=
  N.load_eq_zero_iff.mp ((h.mem_iff x).mp hx).2.2 d hw

/-- **One removal.**  Any element may be taken from the worklist, provided
the nodes whose last edge it serves are added. -/
theorem step (h : Frontier N M W) {w : α} (hw : w ∈ W)
    {newly : List α} (hnd : newly.Nodup)
    (hnew : ∀ x, x ∈ newly ↔
      0 < N.load M x ∧ N.load (insert w M) x = 0)
    {W' : List α} (hW' : W'.Perm (W.erase w ++ newly)) :
    Frontier N (insert w M) W' := by
  obtain ⟨hwN, hwM, hw0⟩ := (h.mem_iff w).mp hw
  have hdisj : ∀ x ∈ newly, x ∉ W := by
    intro x hx hxW
    have hpos := ((hnew x).mp hx).1
    have hzero := ((h.mem_iff x).mp hxW).2.2
    omega
  refine ⟨Finset.insert_subset hwN h.sub, ?_, ?_, ?_, ?_⟩
  · refine hW'.nodup_iff.mpr ((h.nodup.erase w).append hnd ?_)
    intro x hx hx'
    exact hdisj x hx' (List.mem_of_mem_erase hx)
  · intro x
    rw [hW'.mem_iff, List.mem_append, h.nodup.mem_erase_iff, h.mem_iff, hnew,
      Finset.mem_insert, not_or]
    have hmono : N.load (insert w M) x ≤ N.load M x :=
      N.load_mono (Finset.subset_insert w M) x
    constructor
    · rintro (⟨hne, hxN, hxM, hx0⟩ | ⟨hpos, hx0⟩)
      · exact ⟨hxN, ⟨hne, hxM⟩, by omega⟩
      · have hxM : x ∉ M := by
          intro hxM
          have hzero := h.closed x hxM
          omega
        refine ⟨N.mem_nodes_of_load_pos hpos, ⟨?_, hxM⟩, hx0⟩
        rintro rfl
        omega
    · rintro ⟨hxN, ⟨hne, hxM⟩, hx0⟩
      by_cases hpos : 0 < N.load M x
      · exact Or.inr ⟨hpos, hx0⟩
      · exact Or.inl ⟨hne, hxN, hxM, by omega⟩
  · intro m hm
    have hmono := N.load_mono (Finset.subset_insert w M) m
    rcases Finset.mem_insert.mp hm with rfl | hm
    · omega
    · have hzero := h.closed m hm
      omega
  · intro m hm
    rcases Finset.mem_insert.mp hm with rfl | hm
    · refine Acc.intro _ (fun d hd => h.acc d ?_)
      exact h.waits_marked hw hd
    · exact h.acc m hm

/-- **Exhaustion.**  An empty worklist leaves exactly the nodes with an
endless descent unmarked. -/
theorem exhausted (h : Frontier N M []) {x : α} (hx : x ∈ N.nodes) :
    x ∈ M ↔ Acc N.Below x := by
  constructor
  · exact h.acc x
  · refine N.mem_of_acc (fun y hy hzero => ?_) hx
    by_contra hyM
    exact absurd ((h.mem_iff y).mpr ⟨hy, hyM, hzero⟩) List.not_mem_nil

end Frontier

end Release
