import Reactor.TimerQueue.Ownership

/-!
# The timer descriptor is armed in time

Outside `handleRead`, the first timer should be covered: the descriptor is armed for it or for an
earlier time, or has expired and its `handleRead` is still to come.  `insert` asks for the descriptor
to be set when the new timer expires after the first one instead of before, so adding a timer to a
queue that is not empty may lose this.  `timerfd_armed_in_time_iff` says exactly when it does.
-/

namespace Reactor

namespace TimerQueue

/-- A timer that expires at `time` is not slept past. -/
def Covers (fd : Timerfd) (time : Timestamp) : Prop :=
  fd.armed.any (· ≤ time) ∨ fd.readable ∨ fd.dispatched

instance (fd : Timerfd) (time : Timestamp) : Decidable (Covers fd time) :=
  inferInstanceAs (Decidable (_ ∨ _ ∨ _))

/-- Between two steps, the first timer is covered. -/
def ArmedInTime (q : TimerQueue) : Prop :=
  q.handling = none → ∀ e ∈ q.timers.first, Covers q.timerfd e.time

instance (q : TimerQueue) : Decidable (ArmedInTime q) :=
  inferInstanceAs (Decidable (_ = _ → ∀ e ∈ q.timers.first, Covers q.timerfd e.time))

/-- A timer is added to a queue that is not empty only after its `handleRead` was reported, or when
it does not expire after the first timer and the descriptor covers it already.  And no callback adds
a timer with an invalid expiration that nothing covers, since `reset` does not set the descriptor to
such a time. -/
def Timely (q : TimerQueue) : Action → Prop
  | .addTimerInLoop timer =>
    q.handling = none → ∀ t ∈ q.heap timer, ∀ e ∈ q.timers.first,
      q.timerfd.dispatched ∨ t.expiration ≤ e.time ∧ Covers q.timerfd t.expiration
  | .endHandleRead => ∀ e ∈ q.timers.first, 0 < e.time ∨ Covers q.timerfd e.time
  | .newTimer _ _ _ _ | .cancelInLoop _ | .expire | .poll | .beginHandleRead _ | .run => True

instance (q : TimerQueue) : ∀ act, Decidable (Timely q act)
  | .addTimerInLoop timer => inferInstanceAs (Decidable (_ = _ → ∀ t ∈ q.heap timer,
      ∀ e ∈ q.timers.first, _ ∨ t.expiration ≤ e.time ∧ Covers q.timerfd t.expiration))
  | .endHandleRead =>
    inferInstanceAs (Decidable (∀ e ∈ q.timers.first, 0 < e.time ∨ Covers q.timerfd e.time))
  | .newTimer _ _ _ _ | .cancelInLoop _ | .expire | .poll | .beginHandleRead _ | .run =>
    isTrue trivial

variable {q q' : TimerQueue} {a : Addr}

theorem Covers.mono {fd : Timerfd} {s t : Timestamp} (h : Covers fd s) (hst : s ≤ t) :
    Covers fd t := by
  rcases h with h | h
  · left
    rw [Option.any_eq_true] at h ⊢
    obtain ⟨u, hu, hle⟩ := h
    exact ⟨u, hu, by simpa using (le_trans (by simpa using hle) hst : u ≤ t)⟩
  · exact .inr h

/-- Timers may go as long as the descriptor stays as it is. -/
theorem ArmedInTime.of_subset (h : ArmedInTime q) (hsub : ∀ e ∈ q'.timers, e ∈ q.timers)
    (hfd : q'.timerfd = q.timerfd) (hh : q'.handling = q.handling) : ArmedInTime q' := by
  intro hnone e he
  rw [hfd]
  have hin := hsub e (OrdSet.first_eq_some.1 he).1
  cases hfirst : q.timers.first with
  | none => exact absurd hin (OrdSet.first_eq_none.1 hfirst e)
  | some f =>
    have hle : f ≤ e := (OrdSet.first_eq_some.1 hfirst).2 e hin
    exact (h (hh ▸ hnone) f hfirst).mono (Entry.time_le_of_le hle)

/-- The first timer after an insertion expires when the earlier of the two does. -/
theorem first_of_insert {when_ : Timestamp} {e : Entry}
    (hmem : ∀ f, f ∈ q'.timers ↔ f = ⟨when_, a⟩ ∨ f ∈ q.timers) (he : q.timers.first = some e) :
    ∃ f, q'.timers.first = some f ∧ f.time = min when_ e.time := by
  obtain ⟨hin, hmin⟩ := OrdSet.first_eq_some.1 he
  cases hfirst : q'.timers.first with
  | none => exact absurd ((hmem _).2 (.inl rfl)) (OrdSet.first_eq_none.1 hfirst _)
  | some f =>
    obtain ⟨hf, hleast⟩ := OrdSet.first_eq_some.1 hfirst
    have hnew : f.time ≤ when_ := Entry.time_le_of_le (hleast ⟨when_, a⟩ ((hmem _).2 (.inl rfl)))
    have hold : f.time ≤ e.time := Entry.time_le_of_le (hleast e ((hmem e).2 (.inr hin)))
    refine ⟨f, rfl, le_antisymm (le_min hnew hold) ?_⟩
    rcases (hmem f).1 hf with rfl | hf
    · exact min_le_left _ _
    · exact (min_le_right _ _).trans (Entry.time_le_of_le (hmin f hf))

theorem armedInTime_addTimerInLoop (h : Inv q) (hE : Env q (.addTimerInLoop a)) :
    ∃ q', machine.step q (.addTimerInLoop a) = .ok q' ∧ Inv q' ∧ q'.handling = q.handling ∧
      (ArmedInTime q' ↔ Timely q (.addTimerInLoop a)) := by
  obtain ⟨t, q', ht, hq', hI, hmem, hfd, hh⟩ := step_addTimerInLoop h hE
  refine ⟨q', hq', hI, hh, ?_⟩
  unfold ArmedInTime
  simp only [Timely]
  rw [hh, ht]
  refine imp_congr_right fun hnone => ?_
  cases hfirst : q.timers.first with
  | none =>
    -- the only timer: the descriptor is set to it
    have hchanged : q.earliestChanged t.expiration = true := by
      unfold earliestChanged
      rw [hfirst]
    refine ⟨fun _ u _ e he => (nomatch he), fun _ e he => ?_⟩
    rcases (hmem e).1 (OrdSet.first_eq_some.1 he).1 with rfl | hin
    · rw [hfd, if_pos hchanged]
      left
      simp
    · exact absurd hin (OrdSet.first_eq_none.1 hfirst e)
  | some e =>
    obtain ⟨f, hf, htime⟩ := first_of_insert hmem hfirst
    have hchanged : q.earliestChanged t.expiration = decide (e.time < t.expiration) := by
      unfold earliestChanged
      rw [hfirst]
    rw [hf, hfd, hchanged]
    simp only [Option.mem_def, Option.some.injEq, forall_eq', htime]
    by_cases hlt : e.time < t.expiration
    · -- the later timer is what the descriptor is set to
      rw [min_eq_right hlt.le, if_pos (decide_eq_true hlt)]
      simp [Covers, not_le_of_gt hlt]
    · rw [min_eq_left (not_lt.1 hlt), if_neg (by simpa using hlt)]
      simp only [not_lt.1 hlt, true_and]
      unfold Covers
      tauto

theorem armedInTime_endHandleRead (h : Inv q) {g : Handling} (hg : q.handling = some g)
    (hnow : 0 < g.now) :
    ∃ q', machine.step q .endHandleRead = .ok q' ∧ Inv q' ∧ q'.handling = none ∧
      (ArmedInTime q' ↔ Timely q .endHandleRead) := by
  obtain ⟨q', hq', hI, hh, hkeep, hnew, hfd⟩ := step_endHandleRead h hg
  refine ⟨q', hq', hI, hh, ?_⟩
  unfold ArmedInTime
  simp only [Timely]
  rw [hh, hfd]
  simp only [true_imp_iff]
  cases hfirst' : q'.timers.first with
  | none =>
    have hempty : q.timers.first = none := OrdSet.first_eq_none.2 fun e he =>
      OrdSet.first_eq_none.1 hfirst' e (hkeep e he)
    simp [hempty]
  | some e =>
    obtain ⟨hin, hmin⟩ := OrdSet.first_eq_some.1 hfirst'
    simp only [Option.mem_def, Option.some.injEq, forall_eq']
    by_cases hvalid : 0 < e.time
    · rw [if_pos hvalid]
      refine ⟨fun _ f hf => .inl ?_, fun _ => .inl (by simp)⟩
      have hle := hmin f (hkeep f (OrdSet.first_eq_some.1 hf).1)
      exact lt_of_lt_of_le hvalid (Entry.time_le_of_le hle)
    · -- restarted timers expire later than now, so this one was there before
      rw [if_neg hvalid]
      have hold : q.timers.first = some e := by
        refine OrdSet.first_eq_some.2 ⟨(hnew e hin).resolve_right fun hle => ?_,
          fun f hf => hmin f (hkeep f hf)⟩
        exact hvalid (lt_of_lt_of_le hnow hle)
      simp [hold, hvalid]

/-- Outside `handleRead` the first timer is covered in every state of a run exactly when every step
of the run is timely. -/
theorem timerfd_armed_in_time_iff (as : List Action) (hE : machine.Along Env new as) :
    machine.Always ArmedInTime new as ↔ machine.Along Timely new as := by
  let J (q : TimerQueue) : Prop := Inv q ∧ ∀ g, q.handling = some g → 0 < g.now
  refine Machine.always_iff_along (J := J) (fun q act hJ hE => ?_) ⟨inv_new, fun _ h => (nomatch h)⟩
    (fun _ e he => (nomatch he)) hE
  obtain ⟨hI, hnow⟩ := hJ
  cases act with
  | newTimer timer expiration interval repeat_ =>
    obtain ⟨q', hq', hI', ht, hfd, hh⟩ := step_newTimer hI hE
    refine ⟨q', hq', ⟨hI', hh ▸ hnow⟩, fun h => ⟨fun _ => trivial, fun _ => ?_⟩⟩
    exact h.of_subset (by rw [ht]; exact fun _ he => he) hfd hh
  | addTimerInLoop timer =>
    obtain ⟨q', hq', hI', hh, hiff⟩ := armedInTime_addTimerInLoop hI hE
    exact ⟨q', hq', ⟨hI', hh ▸ hnow⟩, fun _ => hiff⟩
  | cancelInLoop timer =>
    obtain ⟨q', hq', hI', hsub, hfd, hh⟩ := step_cancelInLoop hI timer
    exact ⟨q', hq', ⟨hI', hh ▸ hnow⟩, fun h => ⟨fun _ => trivial, fun _ => h.of_subset hsub hfd hh⟩⟩
  | expire =>
    refine ⟨_, rfl, ⟨hI.of_rep (hI.rep.congr rfl rfl rfl) rfl, hnow⟩, fun _ => ?_⟩
    exact ⟨fun _ => trivial, fun _ _ e _ => .inr (.inl rfl)⟩
  | poll =>
    refine ⟨_, rfl, ⟨hI.of_rep (hI.rep.congr rfl rfl rfl) rfl, hnow⟩, fun _ => ?_⟩
    exact ⟨fun _ => trivial, fun _ _ e _ => .inr (.inr rfl)⟩
  | beginHandleRead now =>
    obtain ⟨q', hq', hI', expired, hh⟩ := step_beginHandleRead hI hE
    refine ⟨q', hq', ⟨hI', fun g hg => ?_⟩, fun _ => ⟨fun _ => trivial, fun _ hnone => ?_⟩⟩
    · obtain rfl := Option.some.inj (hh.symm.trans hg)
      exact hE.2.2
    · rw [hh] at hnone
      cases hnone
  | run =>
    obtain ⟨q', hq', hI', g, g', hg, hg', hsame⟩ := step_run hI hE
    refine ⟨q', hq', ⟨hI', fun k hk => ?_⟩, fun _ => ⟨fun _ => trivial, fun _ hnone => ?_⟩⟩
    · obtain rfl := Option.some.inj (hg'.symm.trans hk)
      rw [hsame]
      exact hnow g hg
    · rw [hg'] at hnone
      cases hnone
  | endHandleRead =>
    obtain ⟨g, hg, -⟩ := (Option.any_eq_true _ _).1 (show q.handling.any _ = true from hE)
    obtain ⟨q', hq', hI', hh, hiff⟩ := armedInTime_endHandleRead hI hg (hnow g hg)
    refine ⟨q', hq', ⟨hI', fun k hk => ?_⟩, fun _ => hiff⟩
    rw [hh] at hk
    cases hk

/-- A timer is added, expires and adds a later one from its callback. -/
def oneAfterAnother : List Action :=
  [.newTimer 5 100 0 false, .addTimerInLoop 5, .expire, .poll, .beginHandleRead 120, .run,
    .newTimer 6 300 0 false, .addTimerInLoop 6, .endHandleRead, .cancelInLoop ⟨6, 2⟩]

theorem timerfd_armed_in_time_iff_oneAfterAnother :
    machine.Always ArmedInTime new oneAfterAnother :=
  (timerfd_armed_in_time_iff oneAfterAnother (by decide +kernel)).2 (by decide +kernel)

/-- Two timers are added, the second to expire after the first: the descriptor ends up armed for the
second. -/
theorem timerfd_armed_too_late :
    ¬ ∀ as : List Action, machine.Along Env new as → machine.Always ArmedInTime new as := by
  intro h
  have hrun := h [.newTimer 5 1000000 0 false, .addTimerInLoop 5, .newTimer 6 1500000 0 false,
    .addTimerInLoop 6] (by decide +kernel)
  revert hrun
  decide +kernel

end TimerQueue

end Reactor
