import Mathlib.Data.List.Nodup
import Mathlib.Logic.Function.Basic

/-!
# Sharded sets

A family of lists, one for each shard, whose elements have keys; the key of an element tells its
shard.  As long as every element stands in its own shard and no key occurs twice there (`Placed`),
the family is a partial map from keys to elements, and neither the shards nor the order within one
can be seen from outside (`lookup_put`, `lookup_remove`).
-/

namespace Sharded

section

variable {α κ ι : Type*} (key : α → κ) (shard : κ → ι)

/-- Every element stands in its own shard, and every key once. -/
structure Placed (s : ι → List α) : Prop where
  shard : ∀ i, ∀ x ∈ s i, shard (key x) = i
  nodup : ∀ i, ((s i).map key).Nodup

variable {key shard} {s : ι → List α} {x y : α}

theorem placed_empty : Placed key shard fun _ : ι => [] :=
  ⟨fun _ _ hx => (by cases hx), fun _ => List.nodup_nil⟩

/-- A key has one shard, and one element there. -/
theorem Placed.eq (h : Placed key shard s) {i j : ι} (hx : x ∈ s i) (hy : y ∈ s j)
    (hkey : key x = key y) : i = j ∧ x = y := by
  have hij : i = j := by rw [← h.shard i x hx, ← h.shard j y hy, hkey]
  subst hij
  exact ⟨rfl, List.inj_on_of_nodup_map (h.nodup i) hx hy hkey⟩

end

variable {α κ ι : Type*} [DecidableEq κ] (key : α → κ) (shard : κ → ι)

/-- The element with the key. -/
def lookup (s : ι → List α) (k : κ) : Option α := (s (shard k)).find? fun x => key x = k

variable {key shard} {s : ι → List α} {k : κ} {x y : α}

theorem lookup_eq_some (h : Placed key shard s) :
    lookup key shard s k = some x ↔ x ∈ s (shard k) ∧ key x = k := by
  unfold lookup
  constructor
  · intro hfind
    exact ⟨List.mem_of_find?_eq_some hfind, by simpa using List.find?_some hfind⟩
  · rintro ⟨hx, hkey⟩
    cases hfind : (s (shard k)).find? fun x => key x = k with
    | none =>
      have hnone := List.find?_eq_none.1 hfind x hx
      simp only [decide_eq_true_eq] at hnone
      exact absurd hkey hnone
    | some y =>
      have hy : key y = k := by simpa using List.find?_some hfind
      rw [(h.eq (List.mem_of_find?_eq_some hfind) hx (hy.trans hkey.symm)).2]

theorem lookup_eq_none : lookup key shard s k = none ↔ ∀ x ∈ s (shard k), key x ≠ k := by
  unfold lookup
  rw [List.find?_eq_none]
  simp only [decide_eq_true_eq]

/-- Without the element of a key there is nothing to take away. -/
theorem filter_of_lookup_eq_none (h : lookup key shard s k = none) :
    ((s (shard k)).filter fun x => key x ≠ k) = s (shard k) := by
  rw [List.filter_eq_self]
  intro x hx
  simpa using lookup_eq_none.1 h x hx

theorem countP_eq_one (h : Placed key shard s) :
    (s (shard k)).countP (fun x => key x = k) = 1 ↔ (lookup key shard s k).isSome = true := by
  constructor
  · intro hcount
    have hpos : 0 < (s (shard k)).countP fun x => key x = k := by
      rw [hcount]
      exact Nat.one_pos
    obtain ⟨x, hx, hkey⟩ := List.countP_pos_iff.1 hpos
    rw [(lookup_eq_some h).2 ⟨hx, by simpa using hkey⟩]
    rfl
  · intro hsome
    obtain ⟨x, hx⟩ := Option.isSome_iff_exists.1 hsome
    obtain ⟨hmem, hkey⟩ := (lookup_eq_some h).1 hx
    have hcount := List.count_eq_one_of_mem (h.nodup (shard k)) (List.mem_map_of_mem (f := key) hmem)
    rw [hkey, List.count, List.countP_map] at hcount
    rw [← hcount]
    congr 1

/-! ## Changes -/

variable [DecidableEq ι]

/-- Take the element with the key away. -/
def remove (key : α → κ) (shard : κ → ι) (s : ι → List α) (k : κ) : ι → List α :=
  Function.update s (shard k) ((s (shard k)).filter fun x => key x ≠ k)

/-- Put an element in the place of the one with its key. -/
def put (key : α → κ) (shard : κ → ι) (s : ι → List α) (x : α) : ι → List α :=
  Function.update s (shard (key x)) (x :: (s (shard (key x))).filter fun y => key y ≠ key x)

theorem Placed.remove (h : Placed key shard s) (k : κ) : Placed key shard (remove key shard s k) := by
  refine ⟨fun i x hx => ?_, fun i => ?_⟩
  · unfold Sharded.remove at hx
    by_cases hi : i = shard k
    · subst hi
      rw [Function.update_self] at hx
      exact h.shard _ x (List.mem_of_mem_filter hx)
    · rw [Function.update_of_ne hi] at hx
      exact h.shard i x hx
  · unfold Sharded.remove
    by_cases hi : i = shard k
    · subst hi
      rw [Function.update_self]
      exact (List.filter_sublist.map key).nodup (h.nodup _)
    · rw [Function.update_of_ne hi]
      exact h.nodup i

theorem Placed.put (h : Placed key shard s) (x : α) : Placed key shard (put key shard s x) := by
  refine ⟨fun i y hy => ?_, fun i => ?_⟩
  · unfold Sharded.put at hy
    by_cases hi : i = shard (key x)
    · subst hi
      rw [Function.update_self] at hy
      rcases List.mem_cons.1 hy with rfl | hy
      · rfl
      · exact h.shard _ y (List.mem_of_mem_filter hy)
    · rw [Function.update_of_ne hi] at hy
      exact h.shard i y hy
  · unfold Sharded.put
    by_cases hi : i = shard (key x)
    · subst hi
      rw [Function.update_self, List.map_cons, List.nodup_cons]
      refine ⟨fun hmem => ?_, (List.filter_sublist.map key).nodup (h.nodup _)⟩
      obtain ⟨y, hy, hkey⟩ := List.mem_map.1 hmem
      have hne := (List.mem_filter.1 hy).2
      simp only [ne_eq, decide_eq_true_eq] at hne
      exact hne hkey
    · rw [Function.update_of_ne hi]
      exact h.nodup i

theorem lookup_remove (s : ι → List α) (k k' : κ) :
    lookup key shard (remove key shard s k) k' = if k' = k then none else lookup key shard s k' := by
  split_ifs with hk
  · subst hk
    rw [lookup_eq_none, Sharded.remove, Function.update_self]
    intro x hx
    simpa using (List.mem_filter.1 hx).2
  · unfold lookup Sharded.remove
    by_cases hi : shard k' = shard k
    · rw [hi, Function.update_self, List.find?_filter]
      congr 1
      funext x
      by_cases hx : key x = k'
      · simp [hx, hk]
      · simp [hx]
    · rw [Function.update_of_ne hi]

theorem lookup_put (s : ι → List α) (x : α) (k : κ) :
    lookup key shard (put key shard s x) k = if k = key x then some x else lookup key shard s k := by
  have hremove : lookup key shard (Sharded.remove key shard s (key x)) k =
      if k = key x then none else lookup key shard s k := lookup_remove s (key x) k
  unfold Sharded.remove at hremove
  split_ifs at hremove ⊢ with hk
  · subst hk
    unfold lookup Sharded.put
    rw [Function.update_self]
    exact List.find?_cons_of_pos (by simp)
  · unfold lookup Sharded.put at *
    by_cases hi : shard k = shard (key x)
    · rw [hi, Function.update_self] at hremove ⊢
      rw [List.find?_cons_of_neg (by simpa using fun h => hk h.symm)]
      exact hremove
    · rw [Function.update_of_ne hi]

end Sharded
