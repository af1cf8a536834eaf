import Reactor.Base
import Reactor.Calendar
import Reactor.Lib.Bisect

/-!
# TimeZone

The data of a zone and the two conversions.  A time is converted to local time with the type in force
at it, which is found among the transitions by their times (`gmttime`).  The way back has only the
local time and searches by the local times of the transitions, each of which is computed with the
offset that begins there.  A `time_t` is an integer.
-/

namespace Reactor

structure Transition where
  gmttime : ℤ
  localtime : ℤ
  localtimeIdx : ℕ
  deriving DecidableEq, Repr

structure Localtime where
  gmtOffset : ℤ
  isDst : Bool
  arrbIdx : ℕ
  deriving DecidableEq, Repr

structure Comp where
  compareGmt : Bool

/-- `operator()` -/
def Comp.less (c : Comp) (lhs rhs : Transition) : Bool :=
  if c.compareGmt then lhs.gmttime < rhs.gmttime else lhs.localtime < rhs.localtime

def Comp.equal (c : Comp) (lhs rhs : Transition) : Bool :=
  if c.compareGmt then lhs.gmttime = rhs.gmttime else lhs.localtime = rhs.localtime

/-- A `struct tm`.  The zone is a position in the abbreviations, and `tm_isdst` is only asked
whether it is zero. -/
structure Tm extends Civil where
  isdst : Bool
  gmtoff : ℤ
  zone : ℕ
  deriving DecidableEq, Repr

namespace TimeZone

/-- `TimeZone::Data`, without the names, which nothing reads. -/
structure Data where
  transitions : List Transition
  localtimes : List Localtime
  abbreviation : Bytes
  deriving DecidableEq, Repr

/-- `data.localtimes[i]` -/
def Data.localtime (data : Data) (i : ℕ) : Except Fault Localtime :=
  match data.localtimes[i]? with
  | some l => return l
  | none => .error .outOfBounds

def findLocaltime (data : Data) (sentry : Transition) (comp : Comp) : Except Fault Localtime :=
  match data.transitions with
  | [] => data.localtime 0
  | front :: _ =>
    if comp.less sentry front then data.localtime 0
    else
      let transI := Bisect.lowerBound (comp.less · sentry) data.transitions
      match data.transitions[transI]? with
      | some transition =>
        if comp.equal sentry transition then data.localtime transition.localtimeIdx
        else do
          check .findLocaltime (transI ≠ 0)
          match data.transitions[transI - 1]? with
          | some transition => data.localtime transition.localtimeIdx
          | none => .error .outOfBounds
      | none =>
        match data.transitions.getLast? with
        | some back => data.localtime back.localtimeIdx
        | none => .error .outOfBounds

/-- `toLocalTime` of a zone that is valid. -/
def Data.toLocalTime (cal : Calendar) (data : Data) (seconds : ℤ) : Except Fault Tm := do
  let sentry := ⟨seconds, 0, 0⟩
  let «local» ← findLocaltime data sentry ⟨true⟩
  let localSeconds := seconds + «local».gmtOffset
  -- the terminating NUL of a `string` may be named too
  check .outOfBounds («local».arrbIdx ≤ data.abbreviation.length)
  return { cal.gmtime localSeconds with
    isdst := «local».isDst, gmtoff := «local».gmtOffset, zone := «local».arrbIdx }

/-- `fromLocalTime` of a zone that is valid. -/
def Data.fromLocalTime (cal : Calendar) (data : Data) (localTm : Tm) : Except Fault ℤ := do
  let seconds := cal.timegm localTm.toCivil
  let sentry := ⟨0, seconds, 0⟩
  let «local» ← findLocaltime data sentry ⟨false⟩
  if localTm.isdst then
    let tryTm ← data.toLocalTime cal (seconds - «local».gmtOffset)
    if !tryTm.isdst ∧ tryTm.hour = localTm.hour ∧ tryTm.min = localTm.min then
      return seconds - 3600 - «local».gmtOffset
    else return seconds - «local».gmtOffset
  else return seconds - «local».gmtOffset

end TimeZone

/-! ## The search -/

/-- The time that a comparison looks at. -/
def Comp.key (c : Comp) (transition : Transition) : ℤ :=
  if c.compareGmt then transition.gmttime else transition.localtime

theorem Comp.less_iff (c : Comp) (lhs rhs : Transition) : c.less lhs rhs = true ↔ c.key lhs < c.key rhs := by
  unfold Comp.less Comp.key
  split_ifs <;> exact decide_eq_true_iff

theorem Comp.equal_iff (c : Comp) (lhs rhs : Transition) :
    c.equal lhs rhs = true ↔ c.key lhs = c.key rhs := by
  unfold Comp.equal Comp.key
  split_ifs <;> exact decide_eq_true_iff

namespace TimeZone

/-- What the functions rely on: there is a type, and the indices of the transitions are valid. -/
structure Data.Indexed (data : Data) : Prop where
  localtimes : data.localtimes ≠ []
  transitions : ∀ transition ∈ data.transitions, transition.localtimeIdx < data.localtimes.length

theorem Data.localtime_eq_ok {data : Data} {i : ℕ} {l : Localtime} :
    data.localtime i = .ok l ↔ data.localtimes[i]? = some l := by
  unfold Data.localtime
  cases data.localtimes[i]? with
  | none => exact ⟨fun h => (by cases h), fun h => (by cases h)⟩
  | some l' => exact ⟨fun h => congrArg some (Except.ok.inj h), fun h => congrArg Except.ok (Option.some.inj h)⟩

theorem Data.localtime_of_lt {data : Data} {i : ℕ} (h : i < data.localtimes.length) :
    ∃ l ∈ data.localtimes, data.localtime i = .ok l :=
  ⟨data.localtimes[i], List.getElem_mem h, Data.localtime_eq_ok.2 (List.getElem?_eq_getElem h)⟩

/-- Whatever the order of the transitions: the search takes the first type if the sentry is before the
first transition.  Otherwise it takes the transition at the place where `lower_bound` stops, if that
one is at the sentry, and else the one in front of it, which is before the sentry.  When `lower_bound`
stops at the first transition, that one is neither before nor behind the sentry, so the assertion
holds. -/
theorem findLocaltime_cases (data : Data) (sentry : Transition) (comp : Comp) :
    (findLocaltime data sentry comp = data.localtime 0 ∧
      ∀ front ∈ data.transitions.head?, comp.key sentry < comp.key front) ∨
    (∀ front ∈ data.transitions.head?, comp.key front ≤ comp.key sentry) ∧
      ∃ (i : ℕ) (transition : Transition), data.transitions[i]? = some transition ∧
        findLocaltime data sentry comp = data.localtime transition.localtimeIdx ∧
        (i = Bisect.lowerBound (comp.less · sentry) data.transitions ∧
            comp.key transition = comp.key sentry ∨
          i + 1 = Bisect.lowerBound (comp.less · sentry) data.transitions ∧
            comp.key transition < comp.key sentry ∧
            ∀ next ∈ data.transitions[i + 1]?, comp.key sentry < comp.key next) := by
  unfold findLocaltime
  cases htrans : data.transitions with
  | nil => exact Or.inl ⟨rfl, fun front hfront => (by cases hfront)⟩
  | cons front rest =>
    dsimp only
    by_cases hbefore : comp.less sentry front = true
    · rw [if_pos hbefore]
      refine Or.inl ⟨rfl, fun front' hfront' => ?_⟩
      obtain rfl : front = front' := Option.some.inj hfront'
      exact (comp.less_iff _ _).1 hbefore
    rw [if_neg hbefore]
    rw [comp.less_iff, not_lt] at hbefore
    have hborder := Bisect.lowerBound_spec (comp.less · sentry) (front :: rest)
    generalize Bisect.lowerBound (comp.less · sentry) (front :: rest) = k at hborder
    refine Or.inr ⟨fun front' hfront' => ?_, ?_⟩
    · obtain rfl : front = front' := Option.some.inj hfront'
      exact hbefore
    cases hk : (front :: rest)[k]? with
    | none =>
      have hlen := List.getElem?_eq_none_iff.1 hk
      have hle := hborder.le_length
      rw [List.length_cons] at hlen hle
      have hlast : (front :: rest)[rest.length]? = some ((front :: rest).getLast (by simp)) := by
        rw [← List.getLast?_eq_some_getLast, List.getLast?_eq_getElem?, List.length_cons,
          Nat.add_sub_cancel]
      refine ⟨rest.length, _, hlast, ?_, Or.inr ⟨by omega, ?_, fun next hnext => ?_⟩⟩
      · rw [List.getLast?_eq_some_getLast (by simp)]
      · exact (comp.less_iff _ _).1 (hborder.before rest.length _ (by omega) hlast)
      · rw [List.getElem?_eq_none (by rw [List.length_cons])] at hnext
        cases hnext
    | some transition =>
      have hbehind := hborder.behind transition hk
      rw [← Bool.not_eq_true, comp.less_iff, not_lt] at hbehind
      dsimp only
      by_cases hequal : comp.equal sentry transition = true
      · rw [if_pos hequal]
        rw [comp.equal_iff] at hequal
        exact ⟨k, transition, hk, rfl, Or.inl ⟨rfl, hequal.symm⟩⟩
      rw [if_neg hequal]
      rw [comp.equal_iff] at hequal
      cases k with
      | zero =>
        obtain rfl : front = transition := Option.some.inj hk
        exact absurd (le_antisymm hbehind hbefore) hequal
      | succ i =>
        have hlt : i < (front :: rest).length := by
          have := hborder.le_length
          omega
        have hi := List.getElem?_eq_getElem hlt
        rw [check_of (Nat.succ_ne_zero i), ok_bind, Nat.add_sub_cancel, hi]
        refine ⟨i, _, hi, rfl, Or.inr ⟨rfl, ?_, fun next hnext => ?_⟩⟩
        · exact (comp.less_iff _ _).1 (hborder.before i _ rfl hi)
        · obtain rfl : transition = next := Option.some.inj (hk.symm.trans hnext)
          exact lt_of_le_of_ne hbehind hequal

theorem findLocaltime_ok {data : Data} (h : data.Indexed) (sentry : Transition) (comp : Comp) :
    ∃ l ∈ data.localtimes, findLocaltime data sentry comp = .ok l := by
  rcases findLocaltime_cases data sentry comp with ⟨hfind, -⟩ | ⟨-, i, transition, hi, hfind, -⟩
  · rw [hfind]
    exact Data.localtime_of_lt (List.length_pos_of_ne_nil h.localtimes)
  · rw [hfind]
    exact Data.localtime_of_lt (h.transitions transition (List.mem_of_getElem? hi))

/-- The type in force at a time: that of the last transition that is not behind it. -/
def Data.inForce (data : Data) (comp : Comp) (time : ℤ) : Option Localtime :=
  match (data.transitions.filter fun transition => comp.key transition ≤ time).getLast? with
  | some transition => data.localtimes[transition.localtimeIdx]?
  | none => data.localtimes.head?

theorem Data.inForce_of_last {data : Data} {comp : Comp} {time : ℤ} {transition : Transition}
    (h : (data.transitions.filter fun y => comp.key y ≤ time).getLast? = some transition) :
    data.inForce comp time = data.localtimes[transition.localtimeIdx]? := by
  unfold Data.inForce
  rw [h]

/-- The transitions are in order around a time: what is in front of one that is not behind the time
is before it. -/
def Data.InOrder (data : Data) (comp : Comp) (time : ℤ) : Prop :=
  data.transitions.Pairwise fun a b => comp.key b ≤ time → comp.key a < time

instance (data : Data) (comp : Comp) (time : ℤ) : Decidable (data.InOrder comp time) :=
  inferInstanceAs (Decidable (List.Pairwise _ _))

theorem Data.inOrder_of_ascending {data : Data} {comp : Comp}
    (h : data.transitions.Pairwise (comp.key · < comp.key ·)) (time : ℤ) : data.InOrder comp time :=
  h.imp fun hlt hle => hlt.trans_le hle

theorem getLast?_filter_of_behind {l : List Transition} {key : Transition → ℤ} {i : ℕ} {x : Transition}
    (hi : l[i]? = some x) {time : ℤ} (hx : key x ≤ time)
    (hbehind : ∀ (j : ℕ) (y : Transition), i < j → l[j]? = some y → time < key y) :
    (l.filter fun y => key y ≤ time).getLast? = some x := by
  have hsplit : l = l.take i ++ x :: l.drop (i + 1) := by
    obtain ⟨hlt, rfl⟩ := List.getElem?_eq_some_iff.1 hi
    rw [← List.drop_eq_getElem_cons hlt, List.take_append_drop]
  have hnone : (l.drop (i + 1)).filter (fun y => key y ≤ time) = [] := by
    rw [List.filter_eq_nil_iff]
    intro y hy
    rw [decide_eq_true_iff, not_le]
    obtain ⟨j, hj⟩ := List.mem_iff_getElem?.1 hy
    rw [List.getElem?_drop] at hj
    exact hbehind (i + 1 + j) y (by omega) hj
  rw [hsplit, List.filter_append, List.filter_cons_of_pos (by simpa using hx), hnone]
  exact List.getLast?_concat

namespace Data.InOrder

variable {data : Data} {comp : Comp} {time : ℤ} {i j : ℕ} {x y : Transition}

theorem lt_of_le (h : data.InOrder comp time) (hi : data.transitions[i]? = some x)
    (hj : data.transitions[j]? = some y) (hlt : i < j) (hy : comp.key y ≤ time) :
    comp.key x < time := by
  obtain ⟨hi', rfl⟩ := List.getElem?_eq_some_iff.1 hi
  obtain ⟨hj', rfl⟩ := List.getElem?_eq_some_iff.1 hj
  exact List.pairwise_iff_getElem.1 h i j hi' hj' hlt hy

/-- What is before the first transition is before all of them. -/
theorem lt_of_head (h : data.InOrder comp time) (hfront : ∀ front ∈ data.transitions.head?,
    time < comp.key front) : ∀ x ∈ data.transitions, time < comp.key x := by
  intro x hx
  obtain ⟨j, hj⟩ := List.mem_iff_getElem?.1 hx
  cases htrans : data.transitions with
  | nil => rw [htrans] at hx; cases hx
  | cons front rest =>
    have hlt := hfront front (by rw [htrans]; rfl)
    have hzero : data.transitions[0]? = some front := by rw [htrans]; rfl
    by_contra hle
    cases j with
    | zero =>
      obtain rfl : front = x := Option.some.inj (hzero.symm.trans hj)
      exact hle hlt
    | succ j => exact absurd (h.lt_of_le hzero hj (Nat.succ_pos j) (not_lt.1 hle)) hlt.asymm

/-- The transitions behind the one that the search stops at are later than the sentry. -/
theorem lt_of_behind (h : data.InOrder comp time) (hi : data.transitions[i]? = some x)
    (hnext : comp.key x = time ∨ ∀ z ∈ data.transitions[i + 1]?, time < comp.key z) (hlt : i < j)
    (hj : data.transitions[j]? = some y) : time < comp.key y := by
  by_contra hle
  have hx := h.lt_of_le hi hj hlt (not_lt.1 hle)
  rcases hnext with heq | hnext
  · exact hx.ne heq
  · rcases Nat.lt_or_ge (i + 1) j with hlater | hge
    · have hlen : i + 1 < data.transitions.length := by
        have hlenj := (List.getElem?_eq_some_iff.1 hj).1
        omega
      have hz := List.getElem?_eq_getElem hlen
      exact (hnext _ hz).asymm (h.lt_of_le hz hj hlater (not_lt.1 hle))
    · obtain rfl : j = i + 1 := by omega
      exact hle (hnext y hj)

end Data.InOrder

/-- Over transitions in order the search finds the type in force. -/
theorem findLocaltime_eq {data : Data} (h : data.Indexed) (comp : Comp) (sentry : Transition)
    (horder : data.InOrder comp (comp.key sentry)) :
    ∃ l, data.inForce comp (comp.key sentry) = some l ∧ findLocaltime data sentry comp = .ok l := by
  rcases findLocaltime_cases data sentry comp with ⟨hfind, hfront⟩ | ⟨-, i, transition, hi, hfind, hplace⟩
  · have hnone : data.transitions.filter (fun y => comp.key y ≤ comp.key sentry) = [] := by
      rw [List.filter_eq_nil_iff]
      intro y hy
      rw [decide_eq_true_iff, not_le]
      exact horder.lt_of_head hfront y hy
    unfold Data.inForce
    rw [hnone, hfind]
    obtain ⟨l, -, hl⟩ := Data.localtime_of_lt (List.length_pos_of_ne_nil h.localtimes)
    refine ⟨l, ?_, hl⟩
    rw [← Data.localtime_eq_ok.1 hl, ← List.head?_eq_getElem?]
    rfl
  · have hlast := getLast?_filter_of_behind hi
      (hplace.elim (fun hat => hat.2.le) fun hbefore => hbefore.2.1.le) fun j y hlt hj =>
        horder.lt_of_behind hi (hplace.imp And.right fun hbefore => hbefore.2.2) hlt hj
    rw [Data.inForce_of_last hlast, hfind]
    obtain ⟨l, -, hl⟩ := Data.localtime_of_lt (h.transitions transition (List.mem_of_getElem? hi))
    exact ⟨l, Data.localtime_eq_ok.1 hl, hl⟩

/-- The search finds the type of the last transition that is not behind the sentry, or takes the first
type if there is none. -/
theorem findLocaltime_in_force {data : Data} (h : data.Indexed) (comp : Comp)
    (horder : data.transitions.Pairwise (comp.key · < comp.key ·)) (sentry : Transition) :
    (∃ (i : ℕ) (transition : Transition) (l : Localtime), data.transitions[i]? = some transition ∧
      comp.key transition ≤ comp.key sentry ∧
      (∀ (j : ℕ) (later : Transition), i < j → data.transitions[j]? = some later →
        comp.key sentry < comp.key later) ∧
      data.localtimes[transition.localtimeIdx]? = some l ∧ findLocaltime data sentry comp = .ok l) ∨
    (∀ transition ∈ data.transitions, comp.key sentry < comp.key transition) ∧
      ∃ l, data.localtimes.head? = some l ∧ findLocaltime data sentry comp = .ok l := by
  have hsorted := Data.inOrder_of_ascending horder (comp.key sentry)
  rcases findLocaltime_cases data sentry comp with ⟨hfind, hfront⟩ | ⟨-, i, transition, hi, hfind, hplace⟩
  · obtain ⟨l, -, hl⟩ := Data.localtime_of_lt (List.length_pos_of_ne_nil h.localtimes)
    refine Or.inr ⟨hsorted.lt_of_head hfront, l, ?_, hfind.trans hl⟩
    rw [List.head?_eq_getElem?]
    exact Data.localtime_eq_ok.1 hl
  · obtain ⟨l, -, hl⟩ := Data.localtime_of_lt (h.transitions transition (List.mem_of_getElem? hi))
    exact Or.inl ⟨i, transition, l, hi,
      hplace.elim (fun hat => hat.2.le) fun hbefore => hbefore.2.1.le,
      fun j later hlt hj =>
        hsorted.lt_of_behind hi (hplace.imp And.right fun hbefore => hbefore.2.2) hlt hj,
      Data.localtime_eq_ok.1 hl, hfind.trans hl⟩

/-- An hour more from the second 100 to the second 200. -/
def twoTransitions : Data where
  transitions := [⟨100, 3700, 1⟩, ⟨200, 200, 0⟩]
  localtimes := [⟨0, false, 0⟩, ⟨3600, true, 0⟩]
  abbreviation := []

theorem findLocaltime_in_force_twoTransitions :
    findLocaltime twoTransitions ⟨199, 0, 0⟩ ⟨true⟩ = .ok ⟨3600, true, 0⟩ ∧
      ((∃ (i : ℕ) (transition : Transition) (l : Localtime),
        twoTransitions.transitions[i]? = some transition ∧ transition.gmttime ≤ 199 ∧
        (∀ (j : ℕ) (later : Transition), i < j → twoTransitions.transitions[j]? = some later →
          199 < later.gmttime) ∧
        twoTransitions.localtimes[transition.localtimeIdx]? = some l ∧
        findLocaltime twoTransitions ⟨199, 0, 0⟩ ⟨true⟩ = .ok l) ∨
      (∀ transition ∈ twoTransitions.transitions, 199 < transition.gmttime) ∧
        ∃ l, twoTransitions.localtimes.head? = some l ∧
          findLocaltime twoTransitions ⟨199, 0, 0⟩ ⟨true⟩ = .ok l) :=
  ⟨by decide, findLocaltime_in_force ⟨by decide, by decide⟩ ⟨true⟩ (by decide) ⟨199, 0, 0⟩⟩

end TimeZone

end Reactor
