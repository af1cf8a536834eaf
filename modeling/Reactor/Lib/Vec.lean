import Mathlib.Data.List.Basic
import Mathlib.Order.Lattice
import Mathlib.Tactic.SplitIfs

/-!
# Slices of growable arrays

A growable array is a list.  `slice v i j` are the elements at `i, …, j - 1`, `write v i d` stores
`d` from position `i` on, `resize` grows or cuts the array, and `copyWithin` is the element by
element copy of a range of the array to another place of the same array.  A forward copy to a
lower or equal position reads every element before it is overwritten (`copyWithin_eq_write`).
-/

namespace Vec

variable {α : Type*}

/-- The elements at positions `i, …, j - 1`. -/
def slice (v : List α) (i j : ℕ) : List α := (v.take j).drop i

/-- Store `d` at positions `i, …, i + d.length - 1`. -/
def write (v : List α) (i : ℕ) (d : List α) : List α := v.take i ++ d ++ v.drop (i + d.length)

/-- Make the array `n` long, cutting it or filling it up with `x`. -/
def resize (v : List α) (n : ℕ) (x : α) : List α := v.take n ++ List.replicate (n - v.length) x

/-- Copy `n` elements from position `src` on to position `dst` on, one after the other. -/
def copyWithin (v : List α) (src dst : ℕ) : ℕ → List α
  | 0 => v
  | n + 1 =>
    match v[src]? with
    | some x => copyWithin (v.set dst x) (src + 1) (dst + 1) n
    | none => v

/-! ## Slices -/

theorem getElem?_slice (v : List α) (i j k : ℕ) :
    (slice v i j)[k]? = if i + k < j then v[i + k]? else none := by
  rw [slice, List.getElem?_drop, List.getElem?_take]

theorem length_slice {v : List α} {i j : ℕ} (h : j ≤ v.length) : (slice v i j).length = j - i := by
  simp [slice, h]

@[simp] theorem slice_self (v : List α) (i : ℕ) : slice v i i = [] := by
  simp [slice]

theorem slice_append_slice {v : List α} {i j k : ℕ} (hij : i ≤ j) (hjk : j ≤ k)
    (hj : j ≤ v.length) : slice v i j ++ slice v j k = slice v i k := by
  apply List.ext_getElem?
  intro m
  rw [List.getElem?_append, length_slice hj]
  simp only [getElem?_slice]
  by_cases hm : m < j - i
  · rw [if_pos hm, if_pos (by omega), if_pos (by omega)]
  · rw [if_neg hm, show j + (m - (j - i)) = i + m by omega]

theorem take_slice (v : List α) (i j n : ℕ) : (slice v i j).take n = slice v i (min (i + n) j) := by
  apply List.ext_getElem?
  intro m
  rw [List.getElem?_take, getElem?_slice, getElem?_slice]
  by_cases hm : m < n
  · rw [if_pos hm]
    exact if_congr (by omega) rfl rfl
  · rw [if_neg hm, if_neg (by omega)]

theorem drop_slice (v : List α) (i j n : ℕ) : (slice v i j).drop n = slice v (i + n) j := by
  rw [slice, List.drop_drop, slice]

/-! ## Writing -/

theorem getElem?_write {v : List α} {i : ℕ} {d : List α} (h : i ≤ v.length) (k : ℕ) :
    (write v i d)[k]? =
      if k < i then v[k]? else if k < i + d.length then d[k - i]? else v[k]? := by
  have hi : (v.take i).length = i := List.length_take_of_le h
  rw [write, List.append_assoc, List.getElem?_append, hi]
  by_cases hk : k < i
  · rw [if_pos hk, if_pos hk, List.getElem?_take_of_lt hk]
  · rw [if_neg hk, if_neg hk, List.getElem?_append, List.getElem?_drop]
    by_cases hd : k < i + d.length
    · rw [if_pos (by omega), if_pos hd]
    · rw [if_neg (by omega), if_neg hd, show i + d.length + (k - i - d.length) = k by omega]

theorem length_write {v : List α} {i : ℕ} {d : List α} (h : i + d.length ≤ v.length) :
    (write v i d).length = v.length := by
  simp only [write, List.length_append, List.length_take, List.length_drop]
  omega

@[simp] theorem write_nil (v : List α) (i : ℕ) : write v i [] = v := by
  simp [write]

/-- What was written is read back. -/
theorem slice_write_self {v : List α} {i : ℕ} {d : List α} (h : i ≤ v.length) :
    slice (write v i d) i (i + d.length) = d := by
  apply List.ext_getElem?
  intro m
  rw [getElem?_slice, getElem?_write h]
  by_cases hm : m < d.length
  · rw [if_pos (by omega), if_neg (by omega), if_pos (by omega), Nat.add_sub_cancel_left]
  · rw [if_neg (by omega), List.getElem?_eq_none (by omega)]

/-- A slice that ends before the written range is unchanged. -/
theorem slice_write_of_le {v : List α} {i j k : ℕ} {d : List α} (hi : i ≤ v.length) (h : k ≤ i) :
    slice (write v i d) j k = slice v j k := by
  apply List.ext_getElem?
  intro m
  rw [getElem?_slice, getElem?_slice, getElem?_write hi]
  by_cases hm : j + m < k
  · rw [if_pos hm, if_pos hm, if_pos (by omega)]
  · rw [if_neg hm, if_neg hm]

/-- A slice that starts after the written range is unchanged. -/
theorem slice_write_of_ge {v : List α} {i j k : ℕ} {d : List α} (hi : i ≤ v.length)
    (h : i + d.length ≤ j) : slice (write v i d) j k = slice v j k := by
  apply List.ext_getElem?
  intro m
  have hm : ¬ j + m < i := by omega
  have hm' : ¬ j + m < i + d.length := by omega
  rw [getElem?_slice, getElem?_slice, getElem?_write hi, if_neg hm, if_neg hm']

/-! ## Resizing -/

theorem length_resize (v : List α) (n : ℕ) (x : α) : (resize v n x).length = n := by
  simp only [resize, List.length_append, List.length_take, List.length_replicate]
  omega

/-- Growing an array leaves its slices alone. -/
theorem slice_resize_of_le {v : List α} {n : ℕ} (x : α) {i j : ℕ} (hj : j ≤ v.length)
    (hn : v.length ≤ n) : slice (resize v n x) i j = slice v i j := by
  rw [slice, slice, resize, List.take_of_length_le hn, List.take_append_of_le_length hj]

/-! ## Copying -/

theorem slice_cons {v : List α} {i j : ℕ} {x : α} (hij : i < j) (hx : v[i]? = some x) :
    slice v i j = x :: slice v (i + 1) j := by
  apply List.ext_getElem?
  intro m
  rw [getElem?_slice]
  cases m with
  | zero => rw [Nat.add_zero, if_pos hij, hx, List.getElem?_cons_zero]
  | succ m =>
    rw [List.getElem?_cons_succ, getElem?_slice, show i + (m + 1) = i + 1 + m by omega]

theorem set_eq_write {v : List α} {i : ℕ} (x : α) (h : i < v.length) :
    v.set i x = write v i [x] := by
  apply List.ext_getElem?
  intro k
  rw [getElem?_write (by omega), List.getElem?_set]
  by_cases hk : i = k
  · subst hk
    simp [h]
  · rw [if_neg hk]
    split_ifs with h₁ h₂
    · rfl
    · simp only [List.length_singleton] at h₂
      omega
    · rfl

theorem write_cons {v : List α} {i : ℕ} (x : α) (d : List α) (h : i + (d.length + 1) ≤ v.length) :
    write v i (x :: d) = write (write v i [x]) (i + 1) d := by
  apply List.ext_getElem?
  intro k
  have hl : (write v i [x]).length = v.length := length_write (by simp; omega)
  rw [getElem?_write (by omega), getElem?_write (by omega), getElem?_write (by omega)]
  simp only [List.length_cons, List.length_nil]
  split_ifs <;> first | rfl | omega | skip
  · rw [show k - i = 0 by omega, List.getElem?_cons_zero, List.getElem?_cons_zero]
  · rw [show k - i = k - (i + 1) + 1 by omega, List.getElem?_cons_succ]

/-- A forward copy to a lower or equal position stores the slice as it was before the copy, also
when the two ranges overlap. -/
theorem copyWithin_eq_write {v : List α} {src dst n : ℕ} (hd : dst ≤ src)
    (h : src + n ≤ v.length) : copyWithin v src dst n = write v dst (slice v src (src + n)) := by
  induction n generalizing v src dst with
  | zero => simp [copyWithin]
  | succ n ih =>
    have hx : v[src]? = some (v[src]) := List.getElem?_eq_getElem (by omega)
    have hset := set_eq_write v[src] (show dst < v.length by omega)
    have hlen : (write v dst [v[src]]).length = v.length := length_write (by simp; omega)
    -- the element stored at `dst` lies before everything still to be read
    have hrest : slice (write v dst [v[src]]) (src + 1) (src + 1 + n) =
        slice v (src + 1) (src + 1 + n) :=
      slice_write_of_ge (by omega) (by simp; omega)
    rw [copyWithin, hx]
    simp only
    have hcons : slice v src (src + (n + 1)) = v[src] :: slice v (src + 1) (src + 1 + n) := by
      rw [slice_cons (by omega) hx, show src + (n + 1) = src + 1 + n by omega]
    have hroom : dst + ((slice v (src + 1) (src + 1 + n)).length + 1) ≤ v.length := by
      rw [length_slice (by omega)]
      omega
    rw [hset, ih (by omega) (by omega), hrest, hcons, write_cons v[src] _ hroom]

end Vec
