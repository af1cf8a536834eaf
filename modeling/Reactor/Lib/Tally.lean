import Mathlib.Algebra.BigOperators.Group.List.Basic
import Mathlib.Algebra.Order.BigOperators.Group.List
import Mathlib.Algebra.Ring.Int.Defs
import Mathlib.Data.Int.Order.Basic
import Mathlib.Data.List.Nodup

/-!
# Tallies

A map from keys to integers, kept as a list of entries with distinct keys: `map[key] += n`.  `sum p m`
is the sum of the entries whose key satisfies `p`; it is all that can be seen of a tally from outside,
and it makes sense for a list of entries in which keys occur more than once.

* `sum_bump`: what one `+=` does to every sum.
* `sum_perm`: the order of the entries does not matter.
-/

namespace Tally

variable {κ : Type*}

/-- The sum of the entries whose key satisfies `p`. -/
def sum (p : κ → Bool) (m : List (κ × ℤ)) : ℤ := ((m.filter fun e => p e.1).map Prod.snd).sum

theorem sum_nil (p : κ → Bool) : sum p [] = 0 := rfl

theorem sum_cons (p : κ → Bool) (e : κ × ℤ) (m : List (κ × ℤ)) :
    sum p (e :: m) = (if p e.1 then e.2 else 0) + sum p m := by
  unfold sum
  rw [List.filter_cons]
  split_ifs
  · rw [List.map_cons, List.sum_cons]
  · rw [zero_add]

theorem sum_append (p : κ → Bool) (m m' : List (κ × ℤ)) : sum p (m ++ m') = sum p m + sum p m' := by
  unfold sum
  rw [List.filter_append, List.map_append, List.sum_append]

theorem sum_perm (p : κ → Bool) {m m' : List (κ × ℤ)} (h : m.Perm m') : sum p m = sum p m' :=
  ((h.filter _).map _).sum_eq

/-- The entries of a part of the keys. -/
theorem sum_filter (p q : κ → Bool) (m : List (κ × ℤ)) :
    sum p (m.filter fun e => q e.1) = sum (fun k => p k && q k) m := by
  unfold sum
  rw [List.filter_filter]

theorem sum_nonneg (p : κ → Bool) {m : List (κ × ℤ)} (h : ∀ e ∈ m, 0 ≤ e.2) : 0 ≤ sum p m := by
  induction m with
  | nil => exact le_rfl
  | cons e m ih =>
    have he := h e List.mem_cons_self
    have hm := ih fun e he => h e (List.mem_cons_of_mem _ he)
    rw [sum_cons]
    split_ifs <;> omega

/-- A part of the entries. -/
theorem sum_le (p : κ → Bool) {m : List (κ × ℤ)} (h : ∀ e ∈ m, 0 ≤ e.2) :
    sum p m ≤ sum (fun _ => true) m := by
  induction m with
  | nil => exact le_rfl
  | cons e m ih =>
    have he := h e List.mem_cons_self
    have hm := ih fun e he => h e (List.mem_cons_of_mem _ he)
    rw [sum_cons, sum_cons, if_pos rfl]
    split_ifs <;> omega

theorem le_sum {m : List (κ × ℤ)} (h : ∀ e ∈ m, 0 ≤ e.2) {e : κ × ℤ} (he : e ∈ m) :
    e.2 ≤ sum (fun _ => true) m := by
  induction m with
  | nil => cases he
  | cons e' m ih =>
    have hm : ∀ e ∈ m, 0 ≤ e.2 := fun e he => h e (List.mem_cons_of_mem _ he)
    have hnonneg := sum_nonneg (fun _ => true) hm
    have he' := h e' List.mem_cons_self
    rw [sum_cons, if_pos rfl]
    rcases List.mem_cons.1 he with rfl | he
    · omega
    · have hle := ih hm he
      omega

variable [DecidableEq κ]

/-- `map[k] += n` -/
def bump : List (κ × ℤ) → κ → ℤ → List (κ × ℤ)
  | [], k, n => [(k, n)]
  | (k', n') :: m, k, n => if k' = k then (k', n' + n) :: m else (k', n') :: bump m k n

theorem sum_bump (p : κ → Bool) (m : List (κ × ℤ)) (k : κ) (n : ℤ) :
    sum p (bump m k n) = sum p m + if p k then n else 0 := by
  induction m with
  | nil =>
    rw [bump, sum_cons, sum_nil, zero_add, add_zero]
  | cons e m ih =>
    obtain ⟨k', n'⟩ := e
    rw [bump, sum_cons]
    by_cases hk : k' = k
    · subst hk
      rw [if_pos rfl, sum_cons]
      dsimp only
      split_ifs <;> omega
    · rw [if_neg hk, sum_cons, ih, add_assoc]

/-- A key has one entry. -/
theorem nodup_bump {m : List (κ × ℤ)} (h : (m.map Prod.fst).Nodup) (k : κ) (n : ℤ) :
    ((bump m k n).map Prod.fst).Nodup := by
  have hmem : ∀ (m : List (κ × ℤ)) (x : κ), x ∈ (bump m k n).map Prod.fst →
      x = k ∨ x ∈ m.map Prod.fst := by
    intro m x
    induction m with
    | nil => exact fun hx => Or.inl (List.mem_singleton.1 hx)
    | cons e m ih =>
      obtain ⟨k', n'⟩ := e
      intro hx
      rw [bump] at hx
      split_ifs at hx with hk
      · exact Or.inr hx
      · rcases List.mem_cons.1 hx with rfl | hx
        · exact Or.inr List.mem_cons_self
        · exact (ih hx).imp id (List.mem_cons_of_mem _)
  induction m with
  | nil => exact List.nodup_singleton k
  | cons e m ih =>
    obtain ⟨k', n'⟩ := e
    obtain ⟨hnotMem, hnodup⟩ := List.nodup_cons.1 h
    rw [bump]
    split_ifs with hk
    · exact h
    · refine List.nodup_cons.2 ⟨fun hx => ?_, ih hnodup⟩
      rcases hmem m k' hx with rfl | hx
      · exact hk rfl
      · exact hnotMem hx

theorem forall_bump {P : κ × ℤ → Prop} {m : List (κ × ℤ)} {k : κ} {n : ℤ} (hm : ∀ e ∈ m, P e)
    (hnew : P (k, n)) (hadd : ∀ n', P (k, n') → P (k, n' + n)) : ∀ e ∈ bump m k n, P e := by
  induction m with
  | nil =>
    intro e he
    obtain rfl := List.mem_singleton.1 he
    exact hnew
  | cons e m ih =>
    obtain ⟨k', n'⟩ := e
    have hm' : ∀ e ∈ m, P e := fun e he => hm e (List.mem_cons_of_mem _ he)
    rw [bump]
    split_ifs with hk
    · subst hk
      exact List.forall_mem_cons.2 ⟨hadd n' (hm _ List.mem_cons_self), hm'⟩
    · exact List.forall_mem_cons.2 ⟨hm _ List.mem_cons_self, ih hm'⟩

end Tally
