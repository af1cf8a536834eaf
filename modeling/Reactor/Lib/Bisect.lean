import Mathlib.Data.List.Basic
import Mathlib.Order.Lattice
import Mathlib.Tactic.SplitIfs

/-!
# Bisection

`std::lower_bound`: the range is halved, and the half that is kept depends on the element in the
middle.  Nothing is assumed of the range.  The position that is found has an element with the
property before it, unless it is the first, and an element without the property at it, unless it is
the end (`lowerBound_spec`).
-/

namespace Bisect

variable {α : Type*} {p : α → Bool}

/-- The loop: `half` elements are in front of the middle one. -/
def bisect (p : α → Bool) : ℕ → List α → ℕ
  | 0, _ => 0
  | fuel + 1, l =>
    match l.drop (l.length / 2) with
    | [] => 0
    | middle :: back =>
      if p middle then l.length / 2 + 1 + bisect p fuel back
      else bisect p fuel (l.take (l.length / 2))

/-- `std::lower_bound`, with the comparison of an element with the value as a predicate. -/
def lowerBound (p : α → Bool) (l : List α) : ℕ := bisect p l.length l

/-- A position where the property ends. -/
structure Border (p : α → Bool) (l : List α) (k : ℕ) : Prop where
  le_length : k ≤ l.length
  before : ∀ i x, k = i + 1 → l[i]? = some x → p x = true
  behind : ∀ x, l[k]? = some x → p x = false

variable {front back : List α} {middle : α} {k : ℕ}

/-- A border in the back half is one of the whole range. -/
theorem Border.append_back (h : Border p back k) (hmiddle : p middle = true) :
    Border p (front ++ middle :: back) (front.length + 1 + k) := by
  have hat : ∀ i, (front ++ middle :: back)[front.length + 1 + i]? = back[i]? := by
    intro i
    rw [Nat.add_assoc, List.getElem?_append_right (by omega), Nat.add_sub_cancel_left,
      Nat.add_comm 1 i, List.getElem?_cons_succ]
  refine ⟨?_, ?_, ?_⟩
  · have hle := h.le_length
    rw [List.length_append, List.length_cons]
    omega
  · intro i x hi hx
    cases k with
    | zero =>
      obtain rfl : i = front.length := by omega
      rw [List.getElem?_append_right le_rfl, Nat.sub_self, List.getElem?_cons_zero] at hx
      rw [← Option.some.inj hx]
      exact hmiddle
    | succ k =>
      obtain rfl : i = front.length + 1 + k := by omega
      rw [hat] at hx
      exact h.before k x rfl hx
  · intro x hx
    rw [hat] at hx
    exact h.behind x hx

/-- A border in the front half is one of the whole range. -/
theorem Border.append_front (h : Border p front k) (hmiddle : p middle = false) :
    Border p (front ++ middle :: back) k := by
  have hle := h.le_length
  refine ⟨?_, ?_, ?_⟩
  · rw [List.length_append]
    omega
  · intro i x hi hx
    rw [List.getElem?_append_left (by omega)] at hx
    exact h.before i x hi hx
  · intro x hx
    rcases Nat.lt_or_ge k front.length with hlt | hge
    · rw [List.getElem?_append_left hlt] at hx
      exact h.behind x hx
    · obtain rfl : k = front.length := by omega
      rw [List.getElem?_append_right le_rfl, Nat.sub_self, List.getElem?_cons_zero] at hx
      rw [← Option.some.inj hx]
      exact hmiddle

theorem bisect_spec {fuel : ℕ} {l : List α} (h : l.length ≤ fuel) : Border p l (bisect p fuel l) := by
  induction fuel generalizing l with
  | zero =>
    obtain rfl := List.length_eq_zero_iff.1 (Nat.le_zero.1 h)
    exact ⟨le_rfl, fun i x hi => (by cases hi), fun x hx => (by cases hx)⟩
  | succ fuel ih =>
    have hsplit := List.take_append_drop (l.length / 2) l
    have hfront : (l.take (l.length / 2)).length = l.length / 2 := by
      rw [List.length_take]
      omega
    rw [bisect]
    cases hdrop : l.drop (l.length / 2) with
    | nil =>
      have hlen : l.length = 0 := by
        have := congrArg List.length hdrop
        rw [List.length_drop, List.length_nil] at this
        omega
      obtain rfl := List.length_eq_zero_iff.1 hlen
      exact ⟨le_rfl, fun i x hi => (by cases hi), fun x hx => (by cases hx)⟩
    | cons middle back =>
      rw [hdrop] at hsplit
      generalize l.take (l.length / 2) = front at hsplit hfront ⊢
      have hlength : l.length = front.length + (back.length + 1) := by
        rw [← hsplit, List.length_append, List.length_cons]
      rw [← hfront, ← hsplit]
      dsimp only
      split_ifs with hmiddle
      · have hback : Border p back (bisect p fuel back) := ih (by omega)
        exact hback.append_back hmiddle
      · have hborder : Border p front (bisect p fuel front) := ih (by omega)
        exact hborder.append_front (Bool.eq_false_of_not_eq_true hmiddle)

theorem lowerBound_spec (p : α → Bool) (l : List α) : Border p l (lowerBound p l) := bisect_spec le_rfl

end Bisect
