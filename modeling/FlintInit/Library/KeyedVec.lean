import Mathlib.Data.List.Nodup
import Mathlib.Data.List.Perm.Basic

/-!
# Vectors searched by a key

A vector of records in which a record is looked up by comparing keys from the
front, and replaced where it is found or appended when it is not.  Nothing in
the type keeps keys distinct; `upsert` and `retain` do not repeat one that was
not repeated before.

* `lookup_upsert` and `lookup_retain` say what an update does to every later
  lookup;
* `keys_upsert` gives the keys in their order.
-/

namespace KeyedVec

variable {K α : Type} [DecidableEq K] (key : α → K)

/-- The first record with the key. -/
def lookup (xs : List α) (k : K) : Option α :=
  xs.find? (fun a => key a = k)

/-- Replace the first record with the key of `a`, or append `a`. -/
def upsert (a : α) : List α → List α
  | [] => [a]
  | b :: rest => if key b = key a then a :: rest else b :: upsert a rest

/-- The records whose key is one of `ks`. -/
def retain (ks : List K) (xs : List α) : List α :=
  xs.filter (fun a => key a ∈ ks)

variable {key}

/-- The first record is looked at first. -/
theorem lookup_cons (b : α) (rest : List α) (k : K) :
    lookup key (b :: rest) k =
      if key b = k then some b else lookup key rest k := by
  unfold lookup
  rw [List.find?_cons]
  by_cases h : key b = k <;> simp [h]

/-- What a lookup finds is in the vector, under that key. -/
theorem of_lookup {xs : List α} {k : K} {a : α}
    (h : lookup key xs k = some a) : a ∈ xs ∧ key a = k :=
  ⟨List.mem_of_find?_eq_some h, by simpa using List.find?_some h⟩

/-- A lookup fails on the keys the vector does not have. -/
theorem lookup_eq_none {xs : List α} {k : K} :
    lookup key xs k = none ↔ k ∉ xs.map key := by
  simp [lookup, List.find?_eq_none]

/-- A key that some record has is found. -/
theorem exists_lookup {xs : List α} {k : K} (h : k ∈ xs.map key) :
    ∃ a, lookup key xs k = some a := by
  cases hlook : lookup key xs k with
  | none => exact absurd h (lookup_eq_none.mp hlook)
  | some a => exact ⟨a, rfl⟩

/-- Without repeated keys a lookup finds every record of the vector. -/
theorem lookup_of_mem {xs : List α} (hnd : (xs.map key).Nodup) {a : α}
    (ha : a ∈ xs) : lookup key xs (key a) = some a := by
  obtain ⟨b, hb⟩ := exists_lookup (List.mem_map_of_mem (f := key) ha)
  obtain ⟨hmem, hkey⟩ := of_lookup hb
  rw [hb, List.inj_on_of_nodup_map hnd hmem ha hkey]

/-- Looking up each key once gives all records of the vector. -/
theorem perm_lookups {xs : List α} {ks : List K}
    (hxs : (xs.map key).Nodup) (hks : ks.Nodup)
    (hmem : ∀ k, k ∈ xs.map key ↔ k ∈ ks) :
    (ks.filterMap (lookup key xs)).Perm xs := by
  refine (List.perm_ext_iff_of_nodup ?_ (List.Nodup.of_map key hxs)).mpr
    (fun a => ?_)
  · refine hks.filterMap fun k k' a hk hk' => ?_
    exact (of_lookup hk).2.symm.trans (of_lookup hk').2
  · rw [List.mem_filterMap]
    constructor
    · intro ⟨k, _, hk⟩
      exact (of_lookup hk).1
    · intro ha
      refine ⟨key a, ?_, lookup_of_mem hxs ha⟩
      exact (hmem _).mp (List.mem_map_of_mem ha)

/-! ## Updates -/

/-- A lookup after an `upsert`. -/
theorem lookup_upsert (a : α) (k : K) :
    ∀ xs : List α, lookup key (upsert key a xs) k =
      if k = key a then some a else lookup key xs k := by
  intro xs
  induction xs with
  | nil =>
      rw [upsert, lookup_cons]
      by_cases h : key a = k
      · simp [h]
      · rw [if_neg h, if_neg (Ne.symm h)]
  | cons b rest ih =>
      by_cases hb : key b = key a
      · rw [upsert, if_pos hb, lookup_cons, lookup_cons, hb]
        by_cases h : key a = k
        · simp [h]
        · simp [h, Ne.symm h]
      · rw [upsert, if_neg hb, lookup_cons, lookup_cons, ih]
        by_cases h : key b = k
        · have hne : k ≠ key a := fun heq => hb (h.trans heq)
          simp [h, hne]
        · simp [h]

/-- The keys after an `upsert`. -/
theorem keys_upsert (a : α) :
    ∀ xs : List α, (upsert key a xs).map key =
      if key a ∈ xs.map key then xs.map key else xs.map key ++ [key a] := by
  intro xs
  induction xs with
  | nil => rfl
  | cons b rest ih =>
      by_cases hb : key b = key a
      · simp [upsert, hb]
      · rw [upsert, if_neg hb, List.map_cons, ih]
        by_cases h : key a ∈ rest.map key
        · have hmem : key a ∈ (b :: rest).map key :=
            List.mem_cons_of_mem _ h
          rw [if_pos h, if_pos hmem, List.map_cons]
        · have hnot : key a ∉ (b :: rest).map key :=
            List.not_mem_cons_of_ne_of_not_mem (Ne.symm hb) h
          rw [if_neg h, if_neg hnot, List.map_cons, List.cons_append]

/-- The keys after an upsert are the old ones and that of the new record. -/
theorem mem_keys_upsert {a : α} {xs : List α} {k : K} :
    k ∈ (upsert key a xs).map key ↔ k = key a ∨ k ∈ xs.map key := by
  rw [keys_upsert]
  by_cases h : key a ∈ xs.map key
  · rw [if_pos h, or_iff_right_of_imp]
    intro heq
    exact heq ▸ h
  · rw [if_neg h, List.mem_append, List.mem_singleton, or_comm]

/-- An `upsert` repeats no key that was not repeated before. -/
theorem nodup_upsert {a : α} {xs : List α} :
    ((upsert key a xs).map key).Nodup ↔ (xs.map key).Nodup := by
  rw [keys_upsert]
  by_cases hmem : key a ∈ xs.map key
  · rw [if_pos hmem]
  · rw [if_neg hmem, List.nodup_append_comm]
    exact (List.nodup_cons).trans (and_iff_right hmem)

/-- A record with a new key goes to the end. -/
theorem upsert_of_not_mem {a : α} :
    ∀ {xs : List α}, key a ∉ xs.map key → upsert key a xs = xs ++ [a] := by
  intro xs
  induction xs with
  | nil => intro _; rfl
  | cons b rest ih =>
      intro h
      rw [List.map_cons, List.mem_cons, not_or] at h
      rw [upsert, if_neg (Ne.symm h.1), ih h.2, List.cons_append]

/-- An `upsert` keeps what it does not replace. -/
theorem mem_of_mem_upsert {a b : α} :
    ∀ {xs : List α}, b ∈ upsert key a xs → b = a ∨ b ∈ xs := by
  intro xs
  induction xs with
  | nil => intro h; exact .inl (List.mem_singleton.mp h)
  | cons c rest ih =>
      intro h
      rw [upsert] at h
      split at h
      · rcases List.mem_cons.mp h with h | h
        · exact .inl h
        · exact .inr (List.mem_cons_of_mem _ h)
      · rcases List.mem_cons.mp h with h | h
        · exact .inr (h ▸ List.mem_cons_self)
        · exact (ih h).imp_right (List.mem_cons_of_mem _)

/-- A lookup after `retain`. -/
theorem lookup_retain (ks : List K) (k : K) :
    ∀ xs : List α, lookup key (retain key ks xs) k =
      if k ∈ ks then lookup key xs k else none := by
  intro xs
  induction xs with
  | nil => simp [retain, lookup]
  | cons b rest ih =>
      have hcons : retain key ks (b :: rest) =
          if key b ∈ ks then b :: retain key ks rest
          else retain key ks rest := by
        simp [retain, List.filter_cons]
      rw [hcons]
      by_cases hb : key b ∈ ks
      · rw [if_pos hb, lookup_cons, lookup_cons, ih]
        by_cases h : key b = k
        · rw [if_pos h, if_pos h, if_pos (h ▸ hb)]
        · rw [if_neg h, if_neg h]
      · rw [if_neg hb, ih, lookup_cons]
        by_cases h : key b = k
        · rw [if_neg (h ▸ hb), if_neg (h ▸ hb)]
        · rw [if_neg h]

/-- What is retained is what was there under one of the keys. -/
theorem mem_retain {ks : List K} {xs : List α} {a : α} :
    a ∈ retain key ks xs ↔ a ∈ xs ∧ key a ∈ ks := by
  simp [retain]

/-- Without some of the records the keys stay distinct. -/
theorem nodup_retain {ks : List K} {xs : List α}
    (h : (xs.map key).Nodup) : ((retain key ks xs).map key).Nodup :=
  h.sublist (List.filter_sublist.map key)

/-- A lookup after the records with one key are removed. -/
theorem lookup_without (xs : List α) (k' k : K) :
    lookup key (xs.filter (fun a => key a ≠ k')) k =
      if k = k' then none else lookup key xs k := by
  induction xs with
  | nil => simp [lookup]
  | cons b rest ih =>
      by_cases hb : key b = k'
      · rw [List.filter_cons_of_neg (by simpa using hb), ih, lookup_cons]
        by_cases h : k = k'
        · rw [if_pos h, if_pos h]
        · have hne : key b ≠ k := fun heq => h (heq.symm.trans hb)
          rw [if_neg h, if_neg h, if_neg hne]
      · rw [List.filter_cons_of_pos (by simpa using hb), lookup_cons,
          lookup_cons, ih]
        by_cases h : key b = k
        · have hne : k ≠ k' := fun heq => hb (h.trans heq)
          rw [if_pos h, if_pos h, if_neg hne]
        · rw [if_neg h, if_neg h]

/-- Without repeated keys, the records with one key are the one that a lookup
finds. -/
theorem filter_eq_singleton {xs : List α} (hnd : (xs.map key).Nodup) {k : K}
    {a : α} :
    xs.filter (fun b => key b = k) = [a] ↔ lookup key xs k = some a := by
  have hhead : lookup key xs k = (xs.filter (fun b => key b = k)).head? := by
    rw [List.head?_filter]
    rfl
  constructor
  · intro h
    rw [hhead, h]
    rfl
  · intro h
    obtain ⟨hmem, hkey⟩ := of_lookup h
    have hall : ∀ b ∈ xs.filter (fun b => key b = k), b = a := by
      intro b hb
      obtain ⟨hbmem, hbkey⟩ := List.mem_filter.mp hb
      refine List.inj_on_of_nodup_map hnd hbmem hmem ?_
      rw [hkey]
      exact of_decide_eq_true hbkey
    have hnd' : (xs.filter (fun b => key b = k)).Nodup :=
      (List.Nodup.of_map key hnd).filter _
    rw [hhead] at h
    cases hfilter : xs.filter (fun b => key b = k) with
    | nil => rw [hfilter] at h; cases h
    | cons b rest =>
        rw [hfilter] at h hall hnd'
        cases h
        cases rest with
        | nil => rfl
        | cons c rest =>
            have hc : c = a := hall c (by simp)
            rw [List.nodup_cons] at hnd'
            exact absurd (hc ▸ List.mem_cons_self) hnd'.1

end KeyedVec
