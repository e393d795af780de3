import Mathlib.Data.Finset.Sort
import Mathlib.Data.List.AList
import Mathlib.Data.List.Sort
import Mathlib.Data.String.Basic

/-!
# Tables, enumeration orders and stacks

The collections of a program that keeps its state in hash tables, sets and
vectors.  A table is an association list without repeated keys.  A hash table
enumerates its keys in an order the program cannot rely on, so an enumeration
is always taken through an `IterOrder`, which may be any rearrangement.

* `lookup_insert_eq`, `lookup_erase_eq` and `lookup_entry` say what an update
  does to every later lookup;
* `lookup_ofKeys` says what a table made from its keys holds;
* `values_insert` and `values_erase` say what it does to the values;
* `pop_eq_some` identifies the end of a vector that `pop` takes;
* `sorted_perm` lets a sorted list be read as the collection it was made from,
  and `sorted_eq_sort` says that nothing else of it matters.
-/

namespace Collections

/-- A finite table with at most one value for each key. -/
abbrev Table (K V : Type) := AList (fun _ : K => V)

section Tables

variable {K V : Type} [DecidableEq K]

/-- The value of `k`, or `default` when the key is missing, replaced in place
by its image under `f`. -/
def entry (t : Table K V) (k : K) (default : V) (f : V → V) : Table K V :=
  t.insert k (f ((t.lookup k).getD default))

/-- A lookup after an insertion. -/
theorem lookup_insert_eq (t : Table K V) (k a : K) (v : V) :
    (t.insert k v).lookup a = if a = k then some v else t.lookup a := by
  by_cases h : a = k
  · subst h; simp [AList.lookup_insert]
  · simp [h, AList.lookup_insert_ne h]

/-- A lookup after a removal. -/
theorem lookup_erase_eq (t : Table K V) (k a : K) :
    (t.erase k).lookup a = if a = k then none else t.lookup a := by
  by_cases h : a = k
  · subst h; simp [AList.lookup_erase]
  · simp [h, AList.lookup_erase_ne h]

/-- A lookup after an update through `entry`. -/
theorem lookup_entry (t : Table K V) (k a : K) (default : V) (f : V → V) :
    (entry t k default f).lookup a =
      if a = k then some (f ((t.lookup k).getD default)) else t.lookup a :=
  lookup_insert_eq t k a _

/-- A key is listed exactly when a lookup finds it. -/
theorem mem_keys_iff_lookup {t : Table K V} {k : K} :
    k ∈ t.keys ↔ ∃ v, t.lookup k = some v := by
  rw [← AList.mem_keys, ← AList.lookup_isSome, Option.isSome_iff_exists]

/-- A table without keys is one that no lookup finds anything in. -/
theorem keys_eq_nil_iff {t : Table K V} :
    t.keys = [] ↔ ∀ k, t.lookup k = none := by
  constructor
  · intro h k
    rw [AList.lookup_eq_none, AList.mem_keys, h]
    exact List.not_mem_nil
  · intro h
    rw [List.eq_nil_iff_forall_not_mem]
    intro k hk
    rw [← AList.mem_keys, ← AList.lookup_isSome, h k] at hk
    exact absurd hk (by simp)

/-- Inserting a key only ever adds that key. -/
theorem mem_keys_insert {t : Table K V} {k a : K} {v : V} :
    a ∈ (t.insert k v).keys ↔ a = k ∨ a ∈ t.keys := by
  rw [← AList.mem_keys, AList.mem_insert, AList.mem_keys]

/-- An update through `entry` only ever adds its key. -/
theorem mem_keys_entry {t : Table K V} {k a : K} {v : V} {f : V → V} :
    a ∈ (entry t k v f).keys ↔ a = k ∨ a ∈ t.keys :=
  mem_keys_insert

/-- A table with one value under each of the keys. -/
def ofKeys (ks : List K) (v : V) : Table K V :=
  ks.foldl (fun t k => t.insert k v) ∅

/-- A table made of keys with one value holds that value at these keys and
nothing else. -/
theorem lookup_ofKeys (ks : List K) (v : V) (a : K) :
    (ofKeys ks v).lookup a = if a ∈ ks then some v else none := by
  have hfold : ∀ (ks : List K) (t : Table K V),
      (ks.foldl (fun t k => t.insert k v) t).lookup a =
        if a ∈ ks then some v else t.lookup a := by
    intro ks
    induction ks with
    | nil => intro t; rfl
    | cons k ks ih =>
        intro t
        rw [List.foldl_cons, ih, lookup_insert_eq]
        by_cases hk : a = k
        · simp [hk]
        · simp [hk]
  rw [ofKeys, hfold, AList.lookup_empty]

/-- The values of a table, one for each key. -/
def values (t : Table K V) : List V := t.entries.map fun e => e.2

/-- A value of the table is one that some key has. -/
theorem mem_values {t : Table K V} {v : V} :
    v ∈ values t ↔ ∃ k, t.lookup k = some v := by
  simp only [values, List.mem_map]
  constructor
  · rintro ⟨⟨k, v'⟩, hin, rfl⟩
    exact ⟨k, AList.mem_lookup_iff.mpr hin⟩
  · rintro ⟨k, hk⟩
    exact ⟨⟨k, v⟩, AList.mem_lookup_iff.mp hk, rfl⟩

/-- A new key adds its value. -/
theorem values_insert {t : Table K V} {k : K} (h : t.lookup k = none)
    (v : V) : values (t.insert k v) = v :: values t := by
  unfold values
  rw [AList.entries_insert_of_notMem (AList.lookup_eq_none.mp h)]
  rfl

/-- A removal takes the value of its key away. -/
theorem values_erase {t : Table K V} {k : K} {v : V}
    (h : t.lookup k = some v) :
    (values t).Perm (v :: values (t.erase k)) := by
  have hkey : k ∈ t.entries.keys := mem_keys_iff_lookup.mpr ⟨v, h⟩
  obtain ⟨v', front, back, _, hentries, herase⟩ := List.exists_of_kerase hkey
  have hv : t.lookup k = some v' := by
    refine AList.mem_lookup_iff.mpr ?_
    rw [hentries]
    exact List.mem_append_right _ List.mem_cons_self
  rw [h] at hv
  cases hv
  have hrest : (t.erase k).entries = front ++ back := herase
  unfold values
  rw [hentries, hrest, List.map_append, List.map_append, List.map_cons]
  exact List.perm_middle

end Tables

/-- The order in which a hash collection happens to enumerate its elements:
some rearrangement of them. -/
structure IterOrder (K : Type) where
  arrange : List K → List K
  perm : ∀ ks, (arrange ks).Perm ks

/-- The enumeration in storage order. -/
def IterOrder.asStored (K : Type) : IterOrder K :=
  ⟨id, fun _ => List.Perm.refl _⟩

/-- An iteration order leaves nothing out and adds nothing. -/
@[simp] theorem IterOrder.mem_arrange {K : Type} (o : IterOrder K)
    {ks : List K} {k : K} : k ∈ o.arrange ks ↔ k ∈ ks :=
  (o.perm ks).mem_iff

/-- Nor does it repeat anything. -/
@[simp] theorem IterOrder.nodup_arrange {K : Type} (o : IterOrder K)
    {ks : List K} : (o.arrange ks).Nodup ↔ ks.Nodup :=
  (o.perm ks).nodup_iff

/-- The last element of a vector with the rest before it. -/
def pop {α : Type} (xs : List α) : Option (α × List α) :=
  xs.getLast?.map (fun x => (x, xs.dropLast))

/-- What `pop` takes is the end of the vector. -/
theorem pop_eq_some {α : Type} {xs rest : List α} {x : α} :
    pop xs = some (x, rest) ↔ xs = rest ++ [x] := by
  constructor
  · intro h
    obtain ⟨y, hlast, heq⟩ := Option.map_eq_some_iff.mp h
    obtain ⟨rfl, rfl⟩ := Prod.mk.inj heq
    exact (List.dropLast_append_getLast? y hlast).symm
  · rintro rfl
    simp [pop]

/-- `pop` fails on the empty vector only. -/
theorem pop_eq_none {α : Type} {xs : List α} : pop xs = none ↔ xs = [] := by
  simp [pop]

/-- The sorted rearrangement of a list. -/
def sorted {α : Type} [LinearOrder α] (xs : List α) : List α :=
  xs.insertionSort (· ≤ ·)

/-- Sorting keeps the members. -/
theorem sorted_perm {α : Type} [LinearOrder α] (xs : List α) :
    (sorted xs).Perm xs :=
  List.perm_insertionSort (· ≤ ·) xs

/-- Sorting leaves nothing out and adds nothing. -/
@[simp] theorem mem_sorted {α : Type} [LinearOrder α] {xs : List α} {x : α} :
    x ∈ sorted xs ↔ x ∈ xs :=
  (sorted_perm xs).mem_iff

/-- Nor does it repeat anything. -/
@[simp] theorem nodup_sorted {α : Type} [LinearOrder α] {xs : List α} :
    (sorted xs).Nodup ↔ xs.Nodup :=
  (sorted_perm xs).nodup_iff

/-- Sorting a list without repetitions is sorting the set of its elements. -/
theorem sorted_eq_sort {α : Type} [LinearOrder α] {xs : List α}
    (hnd : xs.Nodup) {s : Finset α} (h : ∀ x, x ∈ xs ↔ x ∈ s) :
    sorted xs = s.sort := by
  have hperm : (sorted xs).Perm s.sort := by
    refine (sorted_perm xs).trans ?_
    refine (List.perm_ext_iff_of_nodup hnd (Finset.sort_nodup _ _)).mpr ?_
    intro x
    rw [h, Finset.mem_sort]
  exact hperm.eq_of_sortedLE List.sortedLE_insertionSort
    (Finset.pairwise_sort _ _).sortedLE

end Collections
