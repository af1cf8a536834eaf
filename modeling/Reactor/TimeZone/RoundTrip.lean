import Reactor.TimeZone

/-!
# Local time and back

`fromLocalTime` looks the local time up among the local times of the transitions.  Where the clock was
put back, the reading in front of the transition is told as one behind it; the only way to correct
that is for a reading with the DST flag, by one hour.

* `roundTrips_iff`: a time comes back exactly when the local times of the transitions tell the offset
  in force at it, or one that is an hour less and the correction applies.
-/

namespace Reactor

namespace TimeZone

/-- A type, transitions to valid types, in the order of time. -/
structure Data.WellFormed (data : Data) : Prop extends data.Indexed where
  ascending : data.transitions.Pairwise (·.gmttime < ·.gmttime)

/-- No other time has the same local date, time of day and DST flag. -/
def Data.Unambiguous (cal : Calendar) (data : Data) (t : ℤ) : Prop :=
  ∀ t' tm tm', data.toLocalTime cal t = .ok tm → data.toLocalTime cal t' = .ok tm' →
    tm'.toCivil = tm.toCivil → tm'.isdst = tm.isdst → t' = t

/-- A time that its local time determines comes back. -/
def Data.RoundTrips (cal : Calendar) (data : Data) (t : ℤ) : Prop :=
  data.Unambiguous cal t → ∃ tm, data.toLocalTime cal t = .ok tm ∧ data.fromLocalTime cal tm = .ok t

/-- Two readings of the clock with the same hour and the same minute. -/
def SameMinute (cal : Calendar) (reading reading' : ℤ) : Prop :=
  (cal.gmtime reading).hour = (cal.gmtime reading').hour ∧
    (cal.gmtime reading).min = (cal.gmtime reading').min

instance (cal : Calendar) (reading reading' : ℤ) : Decidable (SameMinute cal reading reading') :=
  inferInstanceAs (Decidable (_ ∧ _))

/-- The name of the type is in the table of abbreviations. -/
def Data.Named (data : Data) (l : Localtime) : Prop := l.arrbIdx ≤ data.abbreviation.length

instance (data : Data) (l : Localtime) : Decidable (data.Named l) := inferInstanceAs (Decidable (_ ≤ _))

/-- The table as far as it counts for a reading of the clock: all of it, if the local times are in
order around the reading.  `lower_bound` asks for that.  Where they are not, the first transition may
be behind the reading, and then none counts; else nothing counts behind the place where halving the
table ends. -/
def Data.upTo (data : Data) (reading : ℤ) : Data :=
  if data.InOrder ⟨false⟩ reading then data
  else if ∃ front ∈ data.transitions.head?, reading < front.localtime then { data with transitions := [] }
  else { data with transitions :=
    data.transitions.take (Bisect.lowerBound (·.localtime < reading) data.transitions + 1) }

/-- The type that the table tells for a reading: that of the last transition whose local time is not
behind it. -/
def Data.told (data : Data) (reading : ℤ) : Option Localtime :=
  (data.upTo reading).inForce ⟨false⟩ reading

/-- The offset in force at the time is the one that the table tells for its reading of the clock.  Or
the table tells one that is an hour less, the time has the DST flag, and an hour later the clock shows
the same hour and minute without the flag. -/
def Data.Recovers (cal : Calendar) (data : Data) (t : ℤ) : Prop :=
  ∃ here told, data.inForce ⟨true⟩ t = some here ∧ data.Named here ∧
    data.told (t + here.gmtOffset) = some told ∧
    (told.gmtOffset = here.gmtOffset ∨
      here.isDst = true ∧ told.gmtOffset + 3600 = here.gmtOffset ∧
        ∃ later, data.inForce ⟨true⟩ (t + 3600) = some later ∧ data.Named later ∧
          later.isDst = false ∧
          SameMinute cal (t + 3600 + later.gmtOffset) (t + here.gmtOffset))

variable {cal : Calendar} {data : Data} {t : ℤ}

/-- The local time of a time, with the type in force at it. -/
def localTm (cal : Calendar) (l : Localtime) (t : ℤ) : Tm :=
  { cal.gmtime (t + l.gmtOffset) with isdst := l.isDst, gmtoff := l.gmtOffset, zone := l.arrbIdx }

theorem Data.WellFormed.find (h : data.WellFormed) (t : ℤ) :
    ∃ l, data.inForce ⟨true⟩ t = some l ∧ findLocaltime data ⟨t, 0, 0⟩ ⟨true⟩ = .ok l :=
  findLocaltime_eq h.toIndexed ⟨true⟩ ⟨t, 0, 0⟩
    (h.ascending.imp fun hlt hle => lt_of_lt_of_le hlt hle)

/-- Behind a transition nothing else of the table counts if the table is cut behind it, or behind the
next one and that one is later. -/
theorem getLast?_filter_take {l : List Transition} {key : Transition → ℤ} {i k : ℕ} {x : Transition}
    (hi : l[i]? = some x) {time : ℤ} (hx : key x ≤ time)
    (hcut : i = k ∨ i + 1 = k ∧ ∀ next ∈ l[i + 1]?, time < key next) :
    ((l.take (k + 1)).filter fun y => key y ≤ time).getLast? = some x := by
  refine getLast?_filter_of_behind ((List.getElem?_take_of_lt (by omega)).trans hi) hx
    fun j y hlt hj => ?_
  rcases Nat.lt_or_ge k j with hout | hin
  · rw [List.getElem?_take_eq_none hout] at hj
    cases hj
  · rw [List.getElem?_take_of_lt (Nat.lt_succ_of_le hin)] at hj
    obtain rfl | ⟨rfl, hnext⟩ := hcut
    · omega
    · obtain rfl : j = i + 1 := by omega
      exact hnext y hj

/-- The search by local time finds the type that the table tells. -/
theorem findLocaltime_told (h : data.Indexed) (reading : ℤ) :
    ∃ l, data.told reading = some l ∧ findLocaltime data ⟨0, reading, 0⟩ ⟨false⟩ = .ok l := by
  unfold Data.told Data.upTo
  by_cases horder : data.InOrder ⟨false⟩ reading
  · rw [if_pos horder]
    exact findLocaltime_eq h ⟨false⟩ ⟨0, reading, 0⟩ horder
  rw [if_neg horder]
  rcases findLocaltime_cases data ⟨0, reading, 0⟩ ⟨false⟩ with
    ⟨hfind, hfront⟩ | ⟨hfront, i, transition, hi, hfind, hplace⟩
  · have hbefore : ∃ front ∈ data.transitions.head?, reading < front.localtime := by
      cases htrans : data.transitions with
      | nil =>
        refine absurd ?_ horder
        unfold Data.InOrder
        rw [htrans]
        exact List.Pairwise.nil
      | cons front rest => exact ⟨front, rfl, hfront front (by rw [htrans]; rfl)⟩
    rw [if_pos hbefore, hfind]
    obtain ⟨l, -, hl⟩ := Data.localtime_of_lt (List.length_pos_of_ne_nil h.localtimes)
    refine ⟨l, ?_, hl⟩
    rw [← Data.localtime_eq_ok.1 hl, ← List.head?_eq_getElem?]
    rfl
  · have hnot : ¬ ∃ front ∈ data.transitions.head?, reading < front.localtime :=
      fun ⟨front, hmem, hlt⟩ => absurd (hfront front hmem) (not_le.2 hlt)
    rw [if_neg hnot, hfind]
    have hlast := getLast?_filter_take hi
      (hplace.elim (fun hat => hat.2.le) fun hbefore => hbefore.2.1.le)
      (hplace.imp And.left fun hbefore => ⟨hbefore.1, hbefore.2.2⟩)
    obtain ⟨l, -, hl⟩ := Data.localtime_of_lt (h.transitions transition (List.mem_of_getElem? hi))
    exact ⟨l, (Data.inForce_of_last hlast).trans (Data.localtime_eq_ok.1 hl), hl⟩

theorem Data.WellFormed.toLocalTime_eq_ok (h : data.WellFormed) {l : Localtime}
    (hl : data.inForce ⟨true⟩ t = some l) {tm : Tm} :
    data.toLocalTime cal t = .ok tm ↔ data.Named l ∧ localTm cal l t = tm := by
  obtain ⟨l', hl', hfind⟩ := h.find t
  obtain rfl : l' = l := Option.some.inj (hl'.symm.trans hl)
  unfold Data.toLocalTime
  dsimp only
  rw [hfind, ok_bind, check_bind_eq_ok]
  exact and_congr_right fun _ => ⟨Except.ok.inj, congrArg Except.ok⟩

/-- The way back from a local time that `toLocalTime` gave. -/
theorem fromLocalTime_localTm (data : Data) (here : Localtime) (t : ℤ) {told : Localtime}
    (htold : findLocaltime data ⟨0, t + here.gmtOffset, 0⟩ ⟨false⟩ = .ok told) :
    data.fromLocalTime cal (localTm cal here t) =
      if here.isDst then do
        let tryTm ← data.toLocalTime cal (t + here.gmtOffset - told.gmtOffset)
        if !tryTm.isdst ∧ tryTm.hour = (cal.gmtime (t + here.gmtOffset)).hour ∧
            tryTm.min = (cal.gmtime (t + here.gmtOffset)).min then
          return t + here.gmtOffset - 3600 - told.gmtOffset
        else return t + here.gmtOffset - told.gmtOffset
      else return t + here.gmtOffset - told.gmtOffset := by
  have hseconds : cal.timegm (localTm cal here t).toCivil = t + here.gmtOffset :=
    cal.timegm_gmtime _
  unfold Data.fromLocalTime
  dsimp only
  rw [hseconds, htold, ok_bind]
  rfl

theorem exists_roundTrip_iff (h : data.WellFormed) :
    (∃ tm, data.toLocalTime cal t = .ok tm ∧ data.fromLocalTime cal tm = .ok t) ↔
      data.Recovers cal t := by
  obtain ⟨here, hhere, -⟩ := h.find t
  obtain ⟨told, htell, htold⟩ := findLocaltime_told h.toIndexed (t + here.gmtOffset)
  constructor
  · rintro ⟨tm, hto, hfrom⟩
    obtain ⟨hnamed, rfl⟩ := (h.toLocalTime_eq_ok hhere).1 hto
    refine ⟨here, told, hhere, hnamed, htell, ?_⟩
    rw [fromLocalTime_localTm data here t htold] at hfrom
    by_cases hdst : here.isDst = true
    · rw [if_pos hdst] at hfrom
      obtain ⟨tryTm, htry, hfrom⟩ := bind_eq_ok.1 hfrom
      split_ifs at hfrom with hcond
      · have hback : t + here.gmtOffset - 3600 - told.gmtOffset = t := Except.ok.inj hfrom
        have hlater : t + here.gmtOffset - told.gmtOffset = t + 3600 := by omega
        obtain ⟨later, hlate, -⟩ := h.find (t + 3600)
        rw [hlater] at htry
        obtain ⟨hnamed', rfl⟩ := (h.toLocalTime_eq_ok hlate).1 htry
        refine Or.inr ⟨hdst, by omega, later, hlate, hnamed', ?_, hcond.2⟩
        simpa [localTm] using hcond.1
      · have hback : t + here.gmtOffset - told.gmtOffset = t := Except.ok.inj hfrom
        exact Or.inl (by omega)
    · rw [if_neg hdst] at hfrom
      have hback : t + here.gmtOffset - told.gmtOffset = t := Except.ok.inj hfrom
      exact Or.inl (by omega)
  · rintro ⟨here', told', hhere', hnamed, htell', hoffset⟩
    obtain rfl : here = here' := Option.some.inj (hhere.symm.trans hhere')
    obtain rfl : told = told' := Option.some.inj (htell.symm.trans htell')
    have hto : data.toLocalTime cal t = .ok (localTm cal here t) :=
      (h.toLocalTime_eq_ok hhere).2 ⟨hnamed, rfl⟩
    refine ⟨localTm cal here t, hto, ?_⟩
    rw [fromLocalTime_localTm data here t htold]
    rcases hoffset with hsame | ⟨hdst, hhour, later, hlate, hnamed', hstd, hminute⟩
    · -- the trial is made at the time itself, which has the flag
      rw [show t + here.gmtOffset - told.gmtOffset = t by omega]
      by_cases hdst : here.isDst = true
      · rw [if_pos hdst, hto, ok_bind, if_neg (by simp [localTm, hdst])]
        rfl
      · rw [if_neg hdst]
        rfl
    · -- the trial is made an hour later
      have htry : data.toLocalTime cal (t + 3600) = .ok (localTm cal later (t + 3600)) :=
        (h.toLocalTime_eq_ok hlate).2 ⟨hnamed', rfl⟩
      rw [if_pos hdst, show t + here.gmtOffset - told.gmtOffset = t + 3600 by omega, htry, ok_bind,
        if_pos ⟨by simp [localTm, hstd], hminute⟩, show t + here.gmtOffset - 3600 - told.gmtOffset = t by omega]
      rfl

theorem roundTrips_iff (cal : Calendar) {data : Data} (h : data.WellFormed) (t : ℤ) :
    data.RoundTrips cal t ↔ (data.Unambiguous cal t → data.Recovers cal t) :=
  imp_congr_right fun _ => exists_roundTrip_iff h

/-! ## Two zones -/

theorem Data.mem_of_inForce {comp : Comp} {l : Localtime} (h : data.inForce comp t = some l) :
    l ∈ data.localtimes := by
  unfold Data.inForce at h
  split at h
  · exact List.mem_of_getElem? h
  · exact List.mem_of_mem_head? h

/-- A time with the flag is unambiguous where all types with the flag have one offset. -/
theorem Data.WellFormed.unambiguous (h : data.WellFormed) (here : Localtime)
    (hhere : data.inForce ⟨true⟩ t = some here) (hdst : ∀ l ∈ data.localtimes,
      l.isDst = here.isDst → l.gmtOffset = here.gmtOffset) : data.Unambiguous cal t := by
  intro t' tm tm' hto hto' hcivil hisdst
  obtain ⟨l, hl, -⟩ := h.find t'
  obtain ⟨-, rfl⟩ := (h.toLocalTime_eq_ok hhere).1 hto
  obtain ⟨-, rfl⟩ := (h.toLocalTime_eq_ok hl).1 hto'
  have hreading : t' + l.gmtOffset = t + here.gmtOffset := cal.gmtime_injective hcivil
  have hoffset := hdst l (Data.mem_of_inForce hl) hisdst
  omega

/-- New York in 2006. -/
def newYork : Data where
  transitions := [⟨1143961200, 1143946800, 1⟩, ⟨1162101600, 1162083600, 0⟩]
  localtimes := [⟨-18000, false, 0⟩, ⟨-14400, true, 4⟩]
  abbreviation := ascii "EST\x00EDT\x00"

/-- Lord Howe Island in the summer of 2005, when the clock was half an hour ahead. -/
def lordHowe : Data where
  transitions := [⟨1130599800, 1130639400, 1⟩, ⟨1143903600, 1143941400, 0⟩]
  localtimes := [⟨37800, false, 0⟩, ⟨39600, true, 5⟩]
  abbreviation := ascii "LHST\x00LHDT\x00"

theorem newYork_wellFormed : newYork.WellFormed := ⟨⟨by decide, by decide⟩, by decide⟩

theorem lordHowe_wellFormed : lordHowe.WellFormed := ⟨⟨by decide, by decide⟩, by decide⟩

/-- The last second of the summer of 2006. -/
theorem roundTrips_newYork : newYork.WellFormed ∧ newYork.Unambiguous .gregorian 1162101599 ∧
    ∃ tm, newYork.toLocalTime .gregorian 1162101599 = .ok tm ∧
      newYork.fromLocalTime .gregorian tm = .ok 1162101599 := by
  have hunamb : newYork.Unambiguous .gregorian 1162101599 :=
    newYork_wellFormed.unambiguous ⟨-14400, true, 4⟩ (by decide) (by decide)
  have hrecovers : newYork.Recovers .gregorian 1162101599 :=
    ⟨⟨-14400, true, 4⟩, ⟨-18000, false, 0⟩, by decide, by decide, by decide,
      Or.inr ⟨by decide, by decide, ⟨-18000, false, 0⟩, by decide, by decide, by decide, by decide⟩⟩
  exact ⟨newYork_wellFormed, hunamb,
    (roundTrips_iff .gregorian newYork_wellFormed 1162101599).2 (fun _ => hrecovers) hunamb⟩

/-- The last second of the summer comes back half an hour early: the correction is a whole hour. -/
theorem lordHowe_not_roundTrips : lordHowe.WellFormed ∧
    (∀ transition ∈ lordHowe.transitions, some transition.localtime =
      lordHowe.localtimes[transition.localtimeIdx]?.map (transition.gmttime + ·.gmtOffset)) ∧
    ¬ lordHowe.RoundTrips .gregorian 1143903599 := by
  refine ⟨lordHowe_wellFormed, by decide, fun hround => ?_⟩
  have hunamb : lordHowe.Unambiguous .gregorian 1143903599 :=
    lordHowe_wellFormed.unambiguous ⟨39600, true, 5⟩ (by decide) (by decide)
  obtain ⟨here, told, hhere, -, htold, hoffset⟩ :=
    (exists_roundTrip_iff lordHowe_wellFormed).1 (hround hunamb)
  obtain rfl : ⟨39600, true, 5⟩ = here := Option.some.inj hhere
  obtain rfl : ⟨37800, false, 0⟩ = told := Option.some.inj htold
  rcases hoffset with hsame | ⟨-, hhour, -⟩
  · exact absurd hsame (by decide)
  · exact absurd hhour (by decide)

end TimeZone

end Reactor
