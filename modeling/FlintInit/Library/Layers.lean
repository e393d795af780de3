import FlintInit.Library.Release
import Mathlib.Data.Finset.Sort

/-!
# Peeling a waiting graph in layers

Instead of one node at a time, a whole layer may be taken: all nodes released
by what was taken before, in their order.  `peel` lists the nodes layer by
layer.  On a net without an endless descent it lists every node once
(`mem_peel`, `nodup_peel`), each behind everything it waits for
(`waits_before_peel`).

`Net.ofRel` is the net of a relation on finitely many nodes.
-/

namespace Release

variable {α : Type} [DecidableEq α]

namespace Net

section Relations

open scoped Classical in
/-- The net with one waiting edge for each pair of related nodes: `x` waits
for `d` when `r x d`. -/
noncomputable def ofRel (nodes : Finset α) (r : α → α → Prop) : Net α where
  nodes := nodes
  succs d := if d ∈ nodes then (nodes.filter (fun x => r x d)).toList else []
  src_mem := by
    intro d x hx
    by_contra hd
    rw [if_neg hd] at hx
    cases hx
  dst_mem := by
    intro d x hx
    by_cases hd : d ∈ nodes
    · rw [if_pos hd, Finset.mem_toList] at hx
      exact (Finset.mem_filter.mp hx).1
    · rw [if_neg hd] at hx
      cases hx

variable {nodes : Finset α} {r : α → α → Prop}

/-- The net of a relation waits as the relation says, among its nodes. -/
theorem waits_ofRel {x d : α} :
    (ofRel nodes r).Waits x d ↔ d ∈ nodes ∧ x ∈ nodes ∧ r x d := by
  by_cases hd : d ∈ nodes
  · simp [Waits, ofRel, hd]
  · simp [Waits, ofRel, hd]

/-- Each pair is one edge. -/
theorem nodup_succs_ofRel (d : α) : ((ofRel nodes r).succs d).Nodup := by
  by_cases hd : d ∈ nodes
  · simp [ofRel, hd, Finset.nodup_toList]
  · simp [ofRel, hd]

end Relations

variable (N : Net α)

/-- The released nodes that are not marked yet. -/
def layer (M : Finset α) : Finset α :=
  (N.nodes \ M).filter (fun x => N.load M x = 0)

variable {N}

/-- A layer holds what is not done yet and waits for nothing that is not. -/
theorem mem_layer {M : Finset α} {x : α} :
    x ∈ N.layer M ↔ x ∈ N.nodes ∧ x ∉ M ∧ N.load M x = 0 := by
  rw [layer, Finset.mem_filter, Finset.mem_sdiff, and_assoc]

/-- Without an endless descent there is always a next layer. -/
theorem layer_nonempty (hacc : ∀ x ∈ N.nodes, Acc N.Below x) {M : Finset α}
    {x : α} (hx : x ∈ N.nodes) (hxM : x ∉ M) : (N.layer M).Nonempty := by
  by_contra hempty
  rw [Finset.not_nonempty_iff_eq_empty] at hempty
  refine hxM (N.mem_of_acc (fun y hy hzero => ?_) hx (hacc x hx))
  by_contra hyM
  have hin : y ∈ N.layer M := mem_layer.mpr ⟨hy, hyM, hzero⟩
  rw [hempty] at hin
  exact absurd hin (Finset.notMem_empty y)

/-- Taking a layer leaves fewer nodes, unless none was left. -/
theorem card_sdiff_layer_lt (hacc : ∀ x ∈ N.nodes, Acc N.Below x)
    {M : Finset α} {x : α} (hx : x ∈ N.nodes) (hxM : x ∉ M) :
    (N.nodes \ (M ∪ N.layer M)).card < (N.nodes \ M).card := by
  obtain ⟨y, hy⟩ := layer_nonempty hacc hx hxM
  obtain ⟨hnode, hout, _⟩ := mem_layer.mp hy
  refine Finset.card_lt_card
    ((Finset.ssubset_iff_of_subset ?_).mpr ⟨y, ?_, ?_⟩)
  · exact Finset.sdiff_subset_sdiff (Finset.Subset.refl _)
      Finset.subset_union_left
  · exact Finset.mem_sdiff.mpr ⟨hnode, hout⟩
  · intro hin
    exact (Finset.mem_sdiff.mp hin).2 (Finset.mem_union_right _ hy)

section Peel

variable [LinearOrder α]

/-- The nodes layer by layer, after the marks in `M`. -/
def peel (N : Net α) : Nat → Finset α → List α
  | 0, _ => []
  | rounds + 1, M => (N.layer M).sort ++ peel N rounds (M ∪ N.layer M)

/-- Only unmarked nodes are listed. -/
theorem of_mem_peel :
    ∀ (rounds : Nat) (M : Finset α) {x : α}, x ∈ N.peel rounds M →
      x ∈ N.nodes ∧ x ∉ M := by
  intro rounds
  induction rounds with
  | zero => intro M x hx; cases hx
  | succ rounds ih =>
      intro M x hx
      rcases List.mem_append.mp hx with hx | hx
      · have hlayer := mem_layer.mp ((Finset.mem_sort _).mp hx)
        exact ⟨hlayer.1, hlayer.2.1⟩
      · obtain ⟨hnode, hout⟩ := ih _ hx
        exact ⟨hnode, fun hxM => hout (Finset.mem_union_left _ hxM)⟩

/-- **No node is listed twice.** -/
theorem nodup_peel :
    ∀ (rounds : Nat) (M : Finset α), (N.peel rounds M).Nodup := by
  intro rounds
  induction rounds with
  | zero => intro M; exact List.nodup_nil
  | succ rounds ih =>
      intro M
      refine (Finset.sort_nodup _ _).append (ih _) ?_
      intro x hx hx'
      have hin : x ∈ N.layer M := (Finset.mem_sort _).mp hx
      exact (of_mem_peel rounds _ hx').2 (Finset.mem_union_right _ hin)

/-- **Every node is listed**, with a round for each unmarked node at hand. -/
theorem mem_peel (hacc : ∀ x ∈ N.nodes, Acc N.Below x) :
    ∀ (rounds : Nat) (M : Finset α), (N.nodes \ M).card ≤ rounds →
      ∀ x, x ∈ N.peel rounds M ↔ x ∈ N.nodes ∧ x ∉ M := by
  intro rounds
  induction rounds with
  | zero =>
      intro M hrounds x
      have hnone : N.nodes \ M = ∅ :=
        Finset.card_eq_zero.mp (Nat.le_zero.mp hrounds)
      rw [← Finset.mem_sdiff, hnone]
      simp [peel]
  | succ rounds ih =>
      intro M hrounds x
      refine ⟨of_mem_peel _ M, fun ⟨hx, hxM⟩ => ?_⟩
      rw [peel, List.mem_append, Finset.mem_sort]
      by_cases hlayer : x ∈ N.layer M
      · exact .inl hlayer
      · refine .inr ((ih _ ?_ x).mpr ⟨hx, ?_⟩)
        · have hlt := card_sdiff_layer_lt hacc hx hxM
          omega
        · rw [Finset.mem_union, not_or]
          exact ⟨hxM, hlayer⟩

/-- **What a node waits for is listed before it**, unless it was marked. -/
theorem waits_before_peel :
    ∀ (rounds : Nat) (M : Finset α) {before after : List α} {x d : α},
      N.peel rounds M = before ++ x :: after → N.Waits x d →
        d ∈ M ∨ d ∈ before := by
  intro rounds
  induction rounds with
  | zero =>
      intro M before after x d heq _
      simp [peel] at heq
  | succ rounds ih =>
      intro M before after x d heq hw
      rcases List.append_eq_append_iff.mp heq with
        ⟨early, rfl, hrest⟩ | ⟨late, hlayer, hrest⟩
      · rcases ih _ hrest hw with hd | hd
        · rcases Finset.mem_union.mp hd with hd | hd
          · exact .inl hd
          · refine .inr (List.mem_append_left _ ?_)
            exact (Finset.mem_sort _).mpr hd
        · exact .inr (List.mem_append_right _ hd)
      · cases late with
        | nil =>
            rw [List.append_nil] at hlayer
            rw [List.nil_append] at hrest
            have hnext : N.peel rounds (M ∪ N.layer M) =
                [] ++ x :: after := hrest.symm
            rcases ih _ hnext hw with hd | hd
            · rcases Finset.mem_union.mp hd with hd | hd
              · exact .inl hd
              · refine .inr ?_
                rw [← hlayer]
                exact (Finset.mem_sort _).mpr hd
            · cases hd
        | cons y late =>
            have hy : y = x := (List.cons.inj hrest).1.symm
            have hin : x ∈ N.layer M := by
              rw [← Finset.mem_sort (· ≤ ·), hlayer, ← hy]
              simp
            have hzero := (mem_layer.mp hin).2.2
            exact .inl (N.load_eq_zero_iff.mp hzero d hw)

end Peel

end Net

end Release
