import Mathlib.Data.List.Sort
import Mathlib.Order.Lattice

/-!
# Ordered sets

`std::set`: a set over a linear order that is iterated in increasing order.  The elements are kept
as a strictly increasing list, so two sets with the same elements are equal and the first element is
the least.
-/

universe u

/-- A strictly increasing list. -/
structure OrdSet (α : Type u) [LinearOrder α] where
  toList : List α
  sorted : toList.Pairwise (· < ·)
  deriving DecidableEq

namespace OrdSet

variable {α : Type u} [LinearOrder α]

instance : Membership α (OrdSet α) := ⟨fun s a => a ∈ s.toList⟩

instance (s : OrdSet α) (a : α) : Decidable (a ∈ s) := inferInstanceAs (Decidable (a ∈ s.toList))

instance : EmptyCollection (OrdSet α) := ⟨⟨[], List.Pairwise.nil⟩⟩

def size (s : OrdSet α) : ℕ := s.toList.length

/-- The element at `begin()`, if there is one. -/
def first (s : OrdSet α) : Option α := s.toList.head?

/-- The element is inserted unless it is there, and the result says whether it was. -/
def insert (s : OrdSet α) (a : α) : OrdSet α × Bool :=
  if h : a ∈ s then (s, false)
  else (⟨s.toList.orderedInsert (· ≤ ·) a, by
    have hle : (s.toList.orderedInsert (· ≤ ·) a).Pairwise (· ≤ ·) :=
      List.Pairwise.orderedInsert a s.toList (s.sorted.imp le_of_lt)
    have hnodup : (s.toList.orderedInsert (· ≤ ·) a).Nodup :=
      (List.perm_orderedInsert _ a s.toList).nodup_iff.2
        (List.nodup_cons.2 ⟨h, s.sorted.imp ne_of_lt⟩)
    exact (hle.and hnodup).imp fun h => lt_of_le_of_ne h.1 h.2⟩, true)

/-- The element is erased if it is there, and the result says how many were. -/
def erase (s : OrdSet α) (a : α) : OrdSet α × ℕ :=
  if a ∈ s then (⟨s.toList.erase a, s.sorted.sublist List.erase_sublist⟩, 1) else (s, 0)

/-- The element behind `a`, if there is one. -/
def next (s : OrdSet α) (a : α) : Option α := (s.toList.dropWhile (· ≤ a)).head?

/-- The elements before `lower_bound(a)`. -/
def below (s : OrdSet α) (a : α) : List α := s.toList.takeWhile (· < a)

/-- The elements from `lower_bound(a)` on. -/
def fromLowerBound (s : OrdSet α) (a : α) : OrdSet α :=
  ⟨s.toList.dropWhile (· < a), s.sorted.sublist (List.dropWhile_sublist _)⟩

@[simp] theorem notMem_empty (a : α) : a ∉ (∅ : OrdSet α) := List.not_mem_nil

theorem nodup (s : OrdSet α) : s.toList.Nodup := s.sorted.imp ne_of_lt

theorem first_eq_none {s : OrdSet α} : s.first = none ↔ ∀ a, a ∉ s := by
  rw [first, List.head?_eq_none_iff]
  exact List.eq_nil_iff_forall_not_mem

/-- The first element is the least one. -/
theorem first_eq_some {s : OrdSet α} {a : α} :
    s.first = some a ↔ a ∈ s ∧ ∀ b ∈ s, a ≤ b := by
  obtain ⟨l, hl⟩ := s
  cases l with
  | nil => exact ⟨fun h => (nomatch h), fun h => (List.not_mem_nil h.1).elim⟩
  | cons b l =>
    have hlt := (List.pairwise_cons.1 hl).1
    constructor
    · rintro h
      obtain rfl : b = a := Option.some.inj h
      refine ⟨List.mem_cons_self, fun c hc => ?_⟩
      rcases List.mem_cons.1 hc with rfl | hc
      · exact le_rfl
      · exact (hlt c hc).le
    · rintro ⟨ha, hle⟩
      rcases List.mem_cons.1 ha with rfl | ha
      · rfl
      · exact absurd (hlt a ha) (not_lt_of_ge (hle b List.mem_cons_self))

theorem insert_of_notMem {s : OrdSet α} {a : α} (h : a ∉ s) : ∃ s', s.insert a = (s', true) ∧
    s'.size = s.size + 1 ∧ ∀ b, b ∈ s' ↔ b = a ∨ b ∈ s := by
  unfold insert
  rw [dif_neg h]
  exact ⟨_, rfl, List.orderedInsert_length _ _ _, fun b => List.mem_orderedInsert (· ≤ ·)⟩

theorem mem_insert {s : OrdSet α} {a b : α} : b ∈ (s.insert a).1 ↔ b = a ∨ b ∈ s := by
  by_cases h : a ∈ s
  · rw [insert, dif_pos h]
    refine ⟨Or.inr, ?_⟩
    rintro (rfl | hb)
    · exact h
    · exact hb
  · obtain ⟨s', hs', -, hmem⟩ := insert_of_notMem h
    rw [hs']
    exact hmem b

theorem erase_of_mem {s : OrdSet α} {a : α} (h : a ∈ s) : ∃ s', s.erase a = (s', 1) ∧
    s'.size + 1 = s.size ∧ ∀ b, b ∈ s' ↔ b ≠ a ∧ b ∈ s := by
  unfold erase
  rw [if_pos h]
  refine ⟨_, rfl, ?_, fun b => s.nodup.mem_erase_iff⟩
  have hlen := List.length_erase_of_mem h
  have hpos := List.length_pos_of_mem h
  simp only [size, hlen]
  omega

theorem mem_erase {s : OrdSet α} {a b : α} : b ∈ (s.erase a).1 ↔ b ≠ a ∧ b ∈ s := by
  by_cases h : a ∈ s
  · obtain ⟨s', hs', -, hmem⟩ := erase_of_mem h
    rw [hs']
    exact hmem b
  · rw [erase, if_neg h]
    refine ⟨fun hb => ⟨?_, hb⟩, fun hb => hb.2⟩
    rintro rfl
    exact h hb

/-- An iteration that erases the element it is at, after it moved on. -/
theorem next_erase_first {s : OrdSet α} {a : α} {l : List α} (h : s.toList = a :: l) :
    a ∈ s ∧ s.next a = l.head? ∧ (s.erase a).1.toList = l := by
  have hmem : a ∈ s := by
    show a ∈ s.toList
    rw [h]
    exact List.mem_cons_self
  have hlt : ∀ b ∈ l, a < b := by
    have hsorted := s.sorted
    rw [h] at hsorted
    exact (List.pairwise_cons.1 hsorted).1
  refine ⟨hmem, ?_, ?_⟩
  · rw [next, h, List.dropWhile_cons_of_pos (by simp)]
    cases l with
    | nil => rfl
    | cons b l =>
      rw [List.dropWhile_cons_of_neg (by simpa using hlt b List.mem_cons_self)]
  · rw [erase, if_pos hmem]
    show s.toList.erase a = l
    rw [h, List.erase_cons_head]

/-- In an increasing list the elements below a bound come first. -/
theorem takeWhile_lt_eq_filter {l : List α} (hl : l.Pairwise (· < ·)) (a : α) :
    l.takeWhile (· < a) = l.filter (· < a) ∧ l.dropWhile (· < a) = l.filter (a ≤ ·) := by
  induction l with
  | nil => exact ⟨rfl, rfl⟩
  | cons b l ih =>
    obtain ⟨hb, hl⟩ := List.pairwise_cons.1 hl
    by_cases hba : b < a
    · simp [hba, ih hl, not_le_of_gt hba]
    · have hab : a ≤ b := le_of_not_gt hba
      have hall : ∀ c ∈ l, a ≤ c := fun c hc => hab.trans (hb c hc).le
      have hnone : l.filter (· < a) = [] := by
        simpa [List.filter_eq_nil_iff] using hall
      have hevery : l.filter (a ≤ ·) = l := by
        simpa [List.filter_eq_self] using hall
      simp [hba, hab, hnone, hevery]

theorem mem_below {s : OrdSet α} {a b : α} : b ∈ s.below a ↔ b ∈ s ∧ b < a := by
  rw [below, (takeWhile_lt_eq_filter s.sorted a).1, List.mem_filter, decide_eq_true_iff]
  exact Iff.rfl

theorem mem_fromLowerBound {s : OrdSet α} {a b : α} :
    b ∈ s.fromLowerBound a ↔ b ∈ s ∧ a ≤ b := by
  change b ∈ s.toList.dropWhile (· < a) ↔ _
  rw [(takeWhile_lt_eq_filter s.sorted a).2, List.mem_filter, decide_eq_true_iff]
  exact Iff.rfl

theorem length_below_add_size (s : OrdSet α) (a : α) :
    (s.below a).length + (s.fromLowerBound a).size = s.size := by
  unfold below size fromLowerBound
  rw [← List.length_append, List.takeWhile_append_dropWhile]

end OrdSet
