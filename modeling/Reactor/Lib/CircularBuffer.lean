import Mathlib.Data.List.Basic
import Mathlib.Tactic.Common

/-!
# Circular buffers and timing wheels

A buffer of fixed capacity: a new element at the back of a full one overwrites the element in front.

A buffer of buckets is a timing wheel.  `Newest k a buckets` says that the last bucket with `a` in it
has `k` buckets behind it: `a` goes into the bucket at the back, moves towards the front with every
push, and leaves the wheel when its bucket does.
-/

universe u

structure CircularBuffer (α : Type u) where
  capacity : ℕ
  items : List α
  size_le : items.length ≤ capacity

namespace CircularBuffer

variable {α : Type u}

def empty (capacity : ℕ) : CircularBuffer α := ⟨capacity, [], Nat.zero_le _⟩

/-- The capacity grows if it has to, and copies of `x` fill the buffer up. -/
def resize (b : CircularBuffer α) (n : ℕ) (x : α) : CircularBuffer α where
  capacity := max b.capacity n
  items := b.items.take n ++ List.replicate (n - b.items.length) x
  size_le := by
    rw [List.length_append, List.length_take, List.length_replicate]
    omega

def full (b : CircularBuffer α) : Prop := b.items.length = b.capacity

instance (b : CircularBuffer α) : Decidable b.full := inferInstanceAs (Decidable (_ = _))

/-- A full buffer loses the element in front. -/
def pushBack (b : CircularBuffer α) (x : α) : CircularBuffer α where
  capacity := b.capacity
  items := if b.full then (b.items ++ [x]).tail else b.items ++ [x]
  size_le := by
    have hle := b.size_le
    split_ifs with hfull
    · rw [List.length_tail, List.length_append, List.length_singleton]
      omega
    · rw [List.length_append, List.length_singleton]
      unfold full at hfull
      omega

/-- The elements that `pushBack` overwrites. -/
def overwritten (b : CircularBuffer α) : List α := if b.full then b.items.take 1 else []

/-- The element at the back is changed. -/
def modifyBack (b : CircularBuffer α) (f : α → α) : CircularBuffer α where
  capacity := b.capacity
  items := b.items.dropLast ++ (b.items.getLast?.map f).toList
  size_le := by
    refine Nat.le_trans ?_ b.size_le
    cases hlast : b.items.getLast? with
    | none => simp
    | some x =>
      have hne : b.items ≠ [] := by
        rintro hnil
        rw [hnil] at hlast
        cases hlast
      have hpos := List.length_pos_iff.2 hne
      simp only [Option.map_some, Option.toList_some, List.length_append, List.length_dropLast,
        List.length_singleton]
      omega

theorem items_modifyBack {b : CircularBuffer α} {init : List α} {x : α} (h : b.items = init ++ [x])
    (f : α → α) : (b.modifyBack f).items = init ++ [f x] := by
  simp only [modifyBack, h, List.dropLast_concat, List.getLast?_concat, Option.map_some,
    Option.toList_some]

theorem exists_items_of_pos {b : CircularBuffer α} (h : 0 < b.items.length) :
    ∃ init x, b.items = init ++ [x] :=
  ⟨_, _, (List.dropLast_append_getLast (List.length_pos_iff.1 h)).symm⟩

/-! ## Timing wheels -/

/-- The last bucket with `a` in it has `k` buckets behind it. -/
def Newest (k : ℕ) (a : α) (buckets : List (List α)) : Prop :=
  ∃ older bucket newer, buckets = older ++ bucket :: newer ∧ newer.length = k ∧ a ∈ bucket ∧
    ∀ b ∈ newer, a ∉ b

variable {k : ℕ} {a : α} {buckets init : List (List α)} {bucket : List α}

theorem Newest.mem (h : Newest k a buckets) : ∃ b ∈ buckets, a ∈ b := by
  obtain ⟨older, bucket, newer, rfl, -, hmem, -⟩ := h
  exact ⟨bucket, by simp, hmem⟩

theorem newest_insert [DecidableEq α] (init : List (List α)) (bucket : List α) (a : α) :
    Newest 0 a (init ++ [bucket.insert a]) :=
  ⟨init, _, [], rfl, rfl, List.mem_insert_self, fun _ h => (by cases h)⟩

/-- Another element goes into the bucket at the back. -/
theorem Newest.insert_of_ne [DecidableEq α] (h : Newest k a (init ++ [bucket])) {c : α} (hne : a ≠ c) :
    Newest k a (init ++ [bucket.insert c]) := by
  obtain ⟨older, found, newer, heq, hk, hmem, hnot⟩ := h
  rcases List.eq_nil_or_concat newer with rfl | ⟨newer, last, rfl⟩
  · obtain ⟨rfl, hlast⟩ := List.append_inj' heq rfl
    obtain rfl : bucket = found := List.head_eq_of_cons_eq hlast
    exact ⟨init, _, [], rfl, hk, List.mem_insert_of_mem hmem, hnot⟩
  · rw [List.concat_eq_append] at heq hk hnot
    have hsplit : init ++ [bucket] = (older ++ found :: newer) ++ [last] := by
      rw [heq]
      simp
    obtain ⟨rfl, hlast⟩ := List.append_inj' hsplit rfl
    obtain rfl : bucket = last := List.head_eq_of_cons_eq hlast
    refine ⟨older, found, newer ++ [bucket.insert c], by simp, by simpa using hk, hmem, ?_⟩
    intro b hb hab
    rcases List.mem_append.1 hb with hb | hb
    · exact hnot b (List.mem_append_left _ hb) hab
    · obtain rfl := List.mem_singleton.1 hb
      rcases List.mem_insert_iff.1 hab with heq | hab
      · exact hne heq
      · exact hnot bucket (List.mem_append_right _ List.mem_cons_self) hab

/-- The wheel turns, and the bucket moves towards the front. -/
theorem Newest.turn (h : Newest k a buckets) (hk : k + 1 < buckets.length) :
    Newest (k + 1) a ((buckets ++ [[]]).tail) := by
  obtain ⟨older, bucket, newer, rfl, rfl, hmem, hnot⟩ := h
  cases older with
  | nil =>
    rw [List.nil_append, List.length_cons] at hk
    omega
  | cons o older =>
    refine ⟨older, bucket, newer ++ [[]], by simp, by simp, hmem, ?_⟩
    intro b hb
    rcases List.mem_append.1 hb with hb | hb
    · exact hnot b hb
    · obtain rfl := List.mem_singleton.1 hb
      exact List.not_mem_nil

/-- The bucket was in front, and the wheel turns. -/
theorem Newest.leave (h : Newest k a buckets) (hk : k + 1 = buckets.length) :
    (∃ b ∈ buckets.take 1, a ∈ b) ∧ ∀ b ∈ (buckets ++ [[]]).tail, a ∉ b := by
  obtain ⟨older, bucket, newer, rfl, rfl, hmem, hnot⟩ := h
  cases older with
  | nil =>
    refine ⟨⟨bucket, by simp, hmem⟩, fun b hb => ?_⟩
    rcases List.mem_append.1 (show b ∈ newer ++ [[]] from hb) with hb | hb
    · exact hnot b hb
    · obtain rfl := List.mem_singleton.1 hb
      exact List.not_mem_nil
  | cons o older =>
    simp only [List.cons_append, List.length_cons, List.length_append] at hk
    omega

end CircularBuffer
