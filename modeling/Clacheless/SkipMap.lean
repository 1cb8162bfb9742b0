import Mathlib.Data.List.Sort

set_option autoImplicit false

/-! # Ordered maps: the model of `SkipMap` and `HashMap`

Every map of the cache is a `crossbeam_skiplist::SkipMap`: the local cache (`String` keys), the
per-origin `NodeView`s (`u64` node ids) and the liveness map (`u32` ordinals). A skip list iterates
in increasing key order, and `get_highest_known_node_ordinal` depends on that order (it takes the
`last()` alive entry), so the model keeps the order: a `SkipMap` is an association list whose keys
strictly increase, and the invariant is a field of the structure, so no unsorted map can be built.

The `HashMap<u64, u64>` values exchanged between replicas (pushed views, gaps, `as_map()`) are
modelled by the same type. A `HashMap` iterates in an unspecified order; the only functions that
iterate one (`get_out_of_sync_node_id_and_baselines`) insert under distinct keys, so their result
does not depend on the order and the model iterates in key order.

The operations are the ones the source calls: `get`, `insert`, `compare_insert` (replace the
incumbent only when the closure accepts it) and the retain-style walk of the purgers (`filter`).
Each comes with its `get_*` lemma, and later modules reason through those lemmas only. -/

namespace Clacheless

/-- A finite map as an association list with strictly increasing keys. -/
structure SkipMap (K V : Type) [LinearOrder K] where
  /-- The entries in iteration (increasing key) order. -/
  entries : List (K × V)
  sorted : (entries.map Prod.fst).Sorted (· < ·)
deriving DecidableEq

/-- The `HashMap<u64, u64>` maps of the peer protocol, modelled by the same ordered map. -/
abbrev HashMap (K V : Type) [LinearOrder K] := SkipMap K V

namespace SkipMap

variable {K V : Type} [LinearOrder K] [DecidableEq K]

/-! ## Association-list operations -/

/-- The value stored under `k`, scanning from the smallest key. -/
def lookup (k : K) : List (K × V) → Option V
  | [] => none
  | (k', v) :: rest => if k = k' then some v else lookup k rest

/-- Insert `(k, v)` at its place in a sorted list. An incumbent under `k` is replaced only when
    `replace` accepts it (crossbeam's `compare_insert`); `insert` always replaces. -/
def insertWith (k : K) (v : V) (replace : V → Bool) : List (K × V) → List (K × V)
  | [] => [(k, v)]
  | (k', v') :: rest =>
    if k = k' then (k', if replace v' then v else v') :: rest
    else if k < k' then (k, v) :: (k', v') :: rest
    else (k', v') :: insertWith k v replace rest

theorem mem_keys_insertWith (k x : K) (v : V) (replace : V → Bool) (l : List (K × V))
    (hx : x ∈ (insertWith k v replace l).map Prod.fst) : x = k ∨ x ∈ l.map Prod.fst := by
  induction l with
  | nil => simpa [insertWith] using hx
  | cons e rest ih =>
    obtain ⟨k', v'⟩ := e
    simp only [List.map_cons, List.mem_cons]
    by_cases heq : k = k'
    · simpa [insertWith, heq] using hx
    by_cases hlt : k < k'
    · simpa [insertWith, heq, hlt] using hx
    · simp only [insertWith, if_neg heq, if_neg hlt, List.map_cons, List.mem_cons] at hx
      rcases hx with hx | hx
      · exact .inr (.inl hx)
      · rcases ih hx with h | h <;> tauto

theorem sorted_insertWith (k : K) (v : V) (replace : V → Bool) (l : List (K × V))
    (hs : (l.map Prod.fst).Sorted (· < ·)) :
    ((insertWith k v replace l).map Prod.fst).Sorted (· < ·) := by
  induction l with
  | nil => exact List.sorted_singleton k
  | cons e rest ih =>
    obtain ⟨k', v'⟩ := e
    simp only [List.map_cons, List.sorted_cons] at hs
    by_cases heq : k = k'
    · simpa [insertWith, heq, List.sorted_cons] using hs
    by_cases hlt : k < k'
    · simp only [insertWith, if_neg heq, if_pos hlt, List.map_cons, List.sorted_cons, List.mem_cons]
      exact ⟨fun b hb => hb.elim (· ▸ hlt) (fun hb => hlt.trans (hs.1 b hb)), hs.1, hs.2⟩
    · simp only [insertWith, if_neg heq, if_neg hlt, List.map_cons, List.sorted_cons]
      refine ⟨fun b hb => ?_, ih hs.2⟩
      rcases mem_keys_insertWith k b v replace rest hb with rfl | hb
      · exact lt_of_le_of_ne (not_lt.mp hlt) (Ne.symm heq)
      · exact hs.1 b hb

omit [LinearOrder K] in
theorem mem_keys_of_lookup_eq_some (k : K) (w : V) (l : List (K × V))
    (h : lookup k l = some w) : k ∈ l.map Prod.fst := by
  induction l with
  | nil => simp [lookup] at h
  | cons e rest ih =>
    obtain ⟨k', v'⟩ := e
    simp only [lookup] at h
    split_ifs at h with hk
    · simp [hk]
    · simp [ih h]

/-- A key below the first key of a sorted list is absent from it. -/
theorem lookup_eq_none_of_lt (k k' : K) (v' : V) (rest : List (K × V))
    (hs : (((k', v') :: rest).map Prod.fst).Sorted (· < ·)) (hlt : k < k') :
    lookup k ((k', v') :: rest) = none := by
  induction rest generalizing k' v' with
  | nil => simp [lookup, hlt.ne]
  | cons e rest ih =>
    obtain ⟨k'', v''⟩ := e
    have hlt' : k < k'' := hlt.trans (List.rel_of_sorted_cons hs k'' (by simp))
    rw [lookup, if_neg hlt.ne]
    exact ih k'' v'' hs.of_cons hlt'

/-- In a sorted list the first key does not occur again. -/
theorem lookup_tail_eq_none (k : K) (v : V) (rest : List (K × V))
    (hs : (((k, v) :: rest).map Prod.fst).Sorted (· < ·)) : lookup k rest = none := by
  cases hr : lookup k rest with
  | none => rfl
  | some w =>
    exact absurd (List.rel_of_sorted_cons hs k (mem_keys_of_lookup_eq_some k w rest hr))
      (lt_irrefl k)

/-- The value under `j` after a conditional insert of `(k, v)`. -/
theorem lookup_insertWith (k j : K) (v : V) (replace : V → Bool) (l : List (K × V))
    (hs : (l.map Prod.fst).Sorted (· < ·)) :
    lookup j (insertWith k v replace l) =
      if j = k then
        some (match lookup k l with
          | some old => if replace old then v else old
          | none => v)
      else lookup j l := by
  induction l with
  | nil => by_cases hj : j = k <;> simp [insertWith, lookup, hj]
  | cons e rest ih =>
    obtain ⟨k', v'⟩ := e
    by_cases heq : k = k'
    · subst heq
      rw [insertWith, if_pos rfl]
      by_cases hj : j = k <;> simp [lookup, hj]
    by_cases hlt : k < k'
    · rw [insertWith, if_neg heq, if_pos hlt, lookup_eq_none_of_lt k k' v' rest hs hlt]
      by_cases hj : j = k <;> simp [lookup, hj]
    · rw [insertWith, if_neg heq, if_neg hlt]
      have hk : lookup k ((k', v') :: rest) = lookup k rest := by simp [lookup, heq]
      rw [hk]
      by_cases hj : j = k'
      · subst hj
        simp [lookup, Ne.symm heq]
      · simp only [lookup, if_neg hj, ih hs.of_cons]

theorem lookup_filter (p : K → V → Bool) (k : K) (l : List (K × V))
    (hs : (l.map Prod.fst).Sorted (· < ·)) :
    lookup k (l.filter (fun e => p e.1 e.2)) = (lookup k l).filter (p k) := by
  induction l with
  | nil => rfl
  | cons e rest ih =>
    obtain ⟨k', v'⟩ := e
    rw [List.filter_cons]
    by_cases hk : k = k'
    · subst hk
      have hnone : lookup k (rest.filter (fun e => p e.1 e.2)) = none := by
        rw [ih hs.of_cons, lookup_tail_eq_none k v' rest hs]
        rfl
      by_cases hp : p k v' <;> simp [lookup, hp, hnone, Option.filter]
    · by_cases hp : p k' v' <;> simp [lookup, hk, hp, ih hs.of_cons]

theorem mem_iff_lookup (k : K) (v : V) (l : List (K × V)) (hs : (l.map Prod.fst).Sorted (· < ·)) :
    (k, v) ∈ l ↔ lookup k l = some v := by
  induction l with
  | nil => simp [lookup]
  | cons e rest ih =>
    obtain ⟨k', v'⟩ := e
    rw [List.mem_cons, ih hs.of_cons, lookup]
    by_cases hk : k = k'
    · subst hk
      simp [lookup_tail_eq_none k v' rest hs, eq_comm]
    · simp [hk]

/-! ## The map operations the source calls -/

/-- `SkipMap::default()` / `HashMap::new()`. -/
def empty : SkipMap K V := ⟨[], List.sorted_nil⟩

instance : EmptyCollection (SkipMap K V) := ⟨empty⟩

/-- `get(&k)`. -/
def get (m : SkipMap K V) (k : K) : Option V := lookup k m.entries

/-- `insert(k, v)`: an incumbent under `k` is replaced. -/
def insert (m : SkipMap K V) (k : K) (v : V) : SkipMap K V :=
  ⟨insertWith k v (fun _ => true) m.entries, sorted_insertWith _ _ _ _ m.sorted⟩

/-- `compare_insert(k, v, compare_fn)`: an incumbent under `k` is replaced only when `compare_fn`
    holds of it; an absent key is inserted without calling `compare_fn`. -/
def compareInsert (m : SkipMap K V) (k : K) (v : V) (compare_fn : V → Bool) : SkipMap K V :=
  ⟨insertWith k v compare_fn m.entries, sorted_insertWith _ _ _ _ m.sorted⟩

/-- Walking the entries and removing those `p` rejects, as the purgers do. -/
def filter (m : SkipMap K V) (p : K → V → Bool) : SkipMap K V :=
  ⟨m.entries.filter (fun e => p e.1 e.2), m.sorted.sublist ((List.filter_sublist _).map _)⟩

/-- `is_empty()`. -/
def isEmpty (m : SkipMap K V) : Bool := m.entries.isEmpty

@[simp] theorem get_empty (k : K) : (∅ : SkipMap K V).get k = none := rfl

@[simp] theorem get_insert (m : SkipMap K V) (k j : K) (v : V) :
    (m.insert k v).get j = if j = k then some v else m.get j := by
  simp only [get, insert, lookup_insertWith k j v _ m.entries m.sorted]
  split <;> [split <;> rfl; rfl]

theorem get_compareInsert (m : SkipMap K V) (k j : K) (v : V) (compare_fn : V → Bool) :
    (m.compareInsert k v compare_fn).get j =
      if j = k then
        some (match m.get k with
          | some old => if compare_fn old then v else old
          | none => v)
      else m.get j :=
  lookup_insertWith k j v compare_fn m.entries m.sorted

@[simp] theorem get_filter (m : SkipMap K V) (p : K → V → Bool) (k : K) :
    (m.filter p).get k = (m.get k).filter (p k) :=
  lookup_filter p k m.entries m.sorted

theorem mem_entries_iff (m : SkipMap K V) (k : K) (v : V) : (k, v) ∈ m.entries ↔ m.get k = some v :=
  mem_iff_lookup k v m.entries m.sorted

/-- The last key of a map is its greatest. -/
theorem le_of_getLast?_eq_some (m : SkipMap K V) {k : K} {v : V} (hk : m.get k = some v)
    {last : K × V} (hl : m.entries.getLast? = some last) : k ≤ last.1 := by
  rw [← mem_entries_iff] at hk
  obtain ⟨init, hinit⟩ := List.getLast?_eq_some_iff.mp hl
  have hs := m.sorted
  rw [hinit, List.map_append, List.Sorted, List.pairwise_append] at hs
  rw [hinit, List.mem_append, List.mem_singleton] at hk
  rcases hk with hk | rfl
  · exact le_of_lt (hs.2.2 k (List.mem_map_of_mem _ hk) last.1 (by simp))
  · exact le_rfl

theorem isEmpty_iff (m : SkipMap K V) : m.isEmpty = true ↔ ∀ k, m.get k = none := by
  obtain ⟨l, hs⟩ := m
  simp only [isEmpty, get, List.isEmpty_iff]
  constructor
  · rintro rfl k; rfl
  · intro h
    cases l with
    | nil => rfl
    | cons e rest => simpa [lookup] using h e.1

/-! ## Maps built by a loop of inserts -/

theorem lookup_foldl_insertSome {W : Type} (g : K → V → Option W) (j : K) (l : List (K × V))
    (hs : (l.map Prod.fst).Sorted (· < ·)) (ret : SkipMap K W) :
    (l.foldl (fun r e => (g e.1 e.2).elim r (r.insert e.1)) ret).get j =
      match lookup j l with
      | some v => (g j v).or (ret.get j)
      | none => ret.get j := by
  induction l generalizing ret with
  | nil => rfl
  | cons e rest ih =>
    obtain ⟨k, v⟩ := e
    rw [List.foldl_cons, ih hs.of_cons, lookup]
    by_cases hj : j = k
    · subst hj
      cases hg : g j v <;> simp [lookup_tail_eq_none j v rest hs, hg]
    · cases hl : lookup j rest <;> cases hg : g k v <;> simp [hj, hg]

/-- A loop over a map's entries that inserts `g k v` whenever it is `some`: the result under `j`
    is decided by `j`'s entry, if any, and otherwise by the start map. -/
theorem get_foldl_insertSome {W : Type} (g : K → V → Option W) (m : SkipMap K V) (j : K)
    (ret : SkipMap K W) :
    (m.entries.foldl (fun r e => (g e.1 e.2).elim r (r.insert e.1)) ret).get j =
      match m.get j with
      | some v => (g j v).or (ret.get j)
      | none => ret.get j :=
  lookup_foldl_insertSome g j m.entries m.sorted ret

/-- A loop over a map's entries that inserts `f k v` for every entry. -/
theorem get_foldl_insert {W : Type} (f : K → V → W) (m : SkipMap K V) (j : K)
    (ret : SkipMap K W) :
    (m.entries.foldl (fun r e => r.insert e.1 (f e.1 e.2)) ret).get j =
      match m.get j with
      | some v => some (f j v)
      | none => ret.get j := by
  have := get_foldl_insertSome (fun k v => some (f k v)) m j ret
  cases h : m.get j <;> simp_all

end SkipMap

end Clacheless
