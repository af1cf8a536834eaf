import Reactor.TimerQueue.Cancel

/-!
# One tick of the timer queue

`getExpired` cuts `timers_` at a sentry with the largest address and mirrors the cut in
`activeTimers_`; `reset` brings the repeating timers back.  A queue that satisfies its invariant holds
exactly the timers that were passed to it and are alive (`Rep.mem_timers`,
`Rep.mem_activeTimers`), so both are described by what they do to the objects.

* `tick_runs_due_timers`: the expired timers of a tick, and what the queue holds before and after their
  callbacks when these neither add nor cancel a timer.
-/

namespace Reactor

namespace TimerQueue

variable {q q' : TimerQueue} {batch : List Addr} {now : Timestamp} {es : List Entry}

/-- The loop over the callbacks, none of which touches the queue. -/
def runCallbacks (q : TimerQueue) : List Entry → Except Fault Unit
  | [] => return
  | e :: es => do
    let _ ← q.deref e.timer
    q.runCallbacks es

/-- `handleRead` with callbacks that neither add nor cancel a timer. -/
def handleRead (q : TimerQueue) (now : Timestamp) : Except Fault TimerQueue := do
  let (expired, q) ← q.readTimerfd.getExpired now
  let q := { q with callingExpiredTimers := true, cancelingTimers := ∅ }
  q.runCallbacks expired
  { q with callingExpiredTimers := false }.reset expired now

/-! ## The steps of handleRead -/

theorem run_callbacks {expired todo : List Entry} (h : q.runCallbacks todo = .ok ()) (as : List Action) :
    machine.run { q with handling := some ⟨expired, todo, now⟩ }
        (List.replicate todo.length .run ++ as) =
      machine.run { q with handling := some ⟨expired, [], now⟩ } as := by
  induction todo with
  | nil => rfl
  | cons e todo ih =>
    obtain ⟨t, ht, hrest⟩ := bind_eq_ok.1 h
    have hstep : machine.step { q with handling := some ⟨expired, e :: todo, now⟩ } .run =
        .ok { q with handling := some ⟨expired, todo, now⟩ } := by
      show (q.deref e.timer >>= fun _ => _) = _
      rw [ht]
      rfl
    rw [List.length_cons, List.replicate_succ, List.cons_append, Machine.run_cons_ok hstep, ih hrest]

/-- A `handleRead` with such callbacks is a run of the steps that the machine cuts it into. -/
theorem run_handleRead (hnone : q.handling = none) (h : q.handleRead now = .ok q') :
    ∃ n, machine.run q (.beginHandleRead now :: (List.replicate n .run ++ [.endHandleRead])) =
      .ok q' := by
  unfold handleRead at h
  obtain ⟨⟨expired, q₁⟩, hget, h⟩ := bind_eq_ok.1 h
  obtain ⟨⟨⟩, hcallbacks, hreset⟩ := bind_eq_ok.1 h
  have hbegin : machine.step q (.beginHandleRead now) = .ok { q₁ with
      callingExpiredTimers := true, cancelingTimers := ∅, handling := some ⟨expired, expired, now⟩ } := by
    show (q.readTimerfd.getExpired now >>= fun r => _) = _
    rw [hget]
    rfl
  have hq₁ : q₁.handling = none := (frame_getExpired hget).handling.trans hnone
  have hend : machine.step { q₁ with
      callingExpiredTimers := true, cancelingTimers := ∅, handling := some ⟨expired, [], now⟩ }
      .endHandleRead = .ok q' := by
    cases q₁
    dsimp only at hq₁
    subst hq₁
    exact hreset
  refine ⟨expired.length, ?_⟩
  rw [Machine.run_cons_ok hbegin]
  refine (run_callbacks hcallbacks _).trans ?_
  rw [Machine.run_cons_ok hend]
  rfl

/-! ## What a queue holds -/

theorem Rep.mem_timers (h : Rep q batch) {e : Entry} :
    e ∈ q.timers ↔ e.timer ∉ batch ∧
      ∃ t, q.heap e.timer = some t ∧ t.passed = true ∧ t.expiration = e.time := by
  constructor
  · intro he
    obtain ⟨t, ht, hpassed, htime, -⟩ := h.entry e he
    exact ⟨h.outside e he, t, ht, hpassed, htime⟩
  · rintro ⟨hnot, t, ht, hpassed, htime⟩
    have hmem := (h.passed e.timer t ht hpassed).resolve_left hnot
    rwa [htime] at hmem

theorem Rep.mem_activeTimers (h : Rep q batch) {p : ActiveTimer} :
    p ∈ q.activeTimers ↔ p.timer ∉ batch ∧
      ∃ t, q.heap p.timer = some t ∧ t.passed = true ∧ t.sequence = p.sequence := by
  constructor
  · intro hp
    obtain ⟨t, ht, hseq, hmem⟩ := h.active p hp
    obtain ⟨u, hu, hpassed, -⟩ := h.entry _ hmem
    obtain rfl : t = u := Option.some.inj (ht.symm.trans hu)
    exact ⟨h.outside _ hmem, t, ht, hpassed, hseq⟩
  · rintro ⟨hnot, t, ht, hpassed, hseq⟩
    have hmem := (h.passed p.timer t ht hpassed).resolve_left hnot
    obtain ⟨u, hu, -, -, hactive⟩ := h.entry _ hmem
    obtain rfl : t = u := Option.some.inj (ht.symm.trans hu)
    rwa [hseq] at hactive

/-! ## The cut -/

theorem getExpired_below {expired : List Entry} (h : q.getExpired now = .ok (expired, q')) :
    expired = q.timers.below ⟨now, UINTPTR_MAX⟩ := by
  unfold getExpired at h
  obtain ⟨-, h⟩ := check_bind_eq_ok.1 h
  obtain ⟨-, h⟩ := check_bind_eq_ok.1 h
  obtain ⟨q₁, -, h⟩ := bind_eq_ok.1 h
  obtain ⟨-, h⟩ := check_bind_eq_ok.1 h
  exact (Prod.mk.inj (Except.ok.inj h)).1.symm

/-- The entries in front of the sentry are those that are due, ties included. -/
theorem Rep.mem_expired (h : Rep q batch) {expired : List Entry}
    (hget : q.getExpired now = .ok (expired, q')) {e : Entry} :
    e ∈ expired ↔ e ∈ q.timers ∧ e.time ≤ now := by
  rw [getExpired_below hget, OrdSet.mem_below]
  exact and_congr_right fun he => h.lt_sentry he

theorem getExpired_sorted {expired : List Entry} (h : q.getExpired now = .ok (expired, q')) :
    expired.Pairwise fun e f => e.time ≤ f.time := by
  rw [getExpired_below h]
  exact (q.timers.sorted.sublist (List.takeWhile_sublist _)).imp fun hlt =>
    Entry.time_le_of_le hlt.le

/-- An object is in the batch exactly when it is due. -/
theorem Rep.mem_expired_timer (h : Rep q []) {expired : List Entry}
    (hget : q.getExpired now = .ok (expired, q')) {a : Addr} {t : Timer} (ht : q.heap a = some t)
    (hpassed : t.passed = true) : a ∈ expired.map Entry.timer ↔ t.expiration ≤ now := by
  have hmem : (⟨t.expiration, a⟩ : Entry) ∈ q.timers :=
    h.mem_timers.2 ⟨List.not_mem_nil, t, ht, hpassed, rfl⟩
  constructor
  · intro ha
    obtain ⟨e, he, hea⟩ := List.mem_map.1 ha
    obtain ⟨hin, hle⟩ := (h.mem_expired hget).1 he
    obtain rfl := h.entry_eq hin hmem hea
    exact hle
  · intro hle
    exact List.mem_map.2 ⟨_, (h.mem_expired hget).2 ⟨hmem, hle⟩, rfl⟩

/-! ## The way back -/

/-- What `reset` makes of an expired timer. -/
def rearmed (q : TimerQueue) (now : Timestamp) (a : Addr) : Option Timer :=
  match q.heap a with
  | none => none
  | some t => if t.repeat_ ∧ ⟨a, t.sequence⟩ ∉ q.cancelingTimers then some (t.restart now) else none

theorem rearmed_of_heap {a : Addr} {t : Timer} (ht : q.heap a = some t)
    (hcancel : q.cancelingTimers = ∅) :
    q.rearmed now a =
      if t.repeat_ then some { t with expiration := now + t.interval } else none := by
  unfold rearmed
  rw [ht]
  dsimp only
  rw [hcancel]
  by_cases hrepeat : t.repeat_ = true
  · rw [if_pos ⟨hrepeat, OrdSet.notMem_empty _⟩, if_pos hrepeat, Timer.restart, if_pos hrepeat]
  · rw [if_neg fun hboth => hrepeat hboth.1, if_neg hrepeat]

theorem heap_resetExpired (hnodup : (es.map Entry.timer).Nodup)
    (h : q.resetExpired now es = .ok q') (a : Addr) :
    q'.heap a = if a ∈ es.map Entry.timer then q.rearmed now a else q.heap a := by
  induction es generalizing q with
  | nil =>
    obtain rfl := Except.ok.inj h
    rfl
  | cons e es ih =>
    rw [List.map_cons, List.nodup_cons] at hnodup
    rw [resetExpired] at h
    obtain ⟨t, hderef, h⟩ := bind_eq_ok.1 h
    have ht := heap_of_deref hderef
    -- the loop goes on with a heap that differs at the address of the first timer only
    have hrest : ∀ u (q₁ : TimerQueue), q₁.heap = (q.store e.timer u).heap →
        q₁.cancelingTimers = q.cancelingTimers → q₁.resetExpired now es = .ok q' → q.rearmed now e.timer = u →
        q'.heap a = if a ∈ (e :: es).map Entry.timer then q.rearmed now a else q.heap a := by
      intro u q₁ hheap hcancel hrun hu
      rw [ih hnodup.2 hrun]
      by_cases hae : a = e.timer
      · subst hae
        rw [if_neg hnodup.1, hheap, store_heap_self, if_pos (by simp), hu]
      · have hsame : q₁.heap a = q.heap a := by rw [hheap, store_heap_of_ne hae]
        simp only [rearmed, hsame, hcancel, List.map_cons, List.mem_cons, hae, false_or]
    by_cases hagain : t.repeat_ ∧ ⟨e.timer, t.sequence⟩ ∉ q.cancelingTimers
    · rw [if_pos hagain] at h
      obtain ⟨⟨changed, q₁⟩, hins, h⟩ := bind_eq_ok.1 h
      have hframe := frame_insert hins
      refine hrest (some (t.restart now)) q₁ hframe.heap hframe.cancelingTimers h ?_
      simp only [rearmed, ht]
      rw [if_pos hagain]
    · rw [if_neg hagain] at h
      obtain ⟨q₁, hdel, h⟩ := bind_eq_ok.1 h
      obtain rfl := delete_eq_ok hdel
      refine hrest none _ rfl rfl h ?_
      simp only [rearmed, ht]
      rw [if_neg hagain]

theorem Rep.reset (h : Rep q (es.map Entry.timer)) (now : Timestamp) :
    ∃ q', q.reset es now = .ok q' ∧ Rep q' [] := by
  obtain ⟨q₁, hloop, hrep, -⟩ := h.resetExpired now
  unfold TimerQueue.reset
  rw [hloop, ok_bind, hrep.nextExpire, ok_bind]
  refine ⟨_, rfl, ?_⟩
  split_ifs
  · exact hrep.congr rfl rfl rfl
  · exact hrep

theorem runCallbacks_ok (h : ∀ e ∈ es, ∃ t, q.heap e.timer = some t) : q.runCallbacks es = .ok () := by
  induction es with
  | nil => rfl
  | cons e es ih =>
    obtain ⟨t, ht⟩ := h e List.mem_cons_self
    rw [runCallbacks, deref_of_heap ht, ok_bind]
    exact ih fun f hf => h f (List.mem_cons_of_mem e hf)

/-! ## The tick -/

/-- The object of a timer after the tick. -/
def afterTick (t : Timer) (now : Timestamp) : Option Timer :=
  if now < t.expiration then some t
  else if t.repeat_ then some { t with expiration := now + t.interval }
  else none

theorem afterTick_eq_some {t u : Timer} : afterTick t now = some u ↔
    now < t.expiration ∧ u = t ∨
      t.expiration ≤ now ∧ t.repeat_ = true ∧ u = { t with expiration := now + t.interval } := by
  unfold afterTick
  split_ifs with hlate hrepeat
  · rw [Option.some_inj]
    constructor
    · rintro rfl
      exact .inl ⟨hlate, rfl⟩
    · rintro (⟨-, rfl⟩ | ⟨hdue, -⟩)
      · rfl
      · exact absurd hlate (not_lt_of_ge hdue)
  · rw [Option.some_inj]
    constructor
    · rintro rfl
      exact .inr ⟨le_of_not_gt hlate, hrepeat, rfl⟩
    · rintro (⟨hlt, -⟩ | ⟨-, -, rfl⟩)
      · exact absurd hlt hlate
      · rfl
  · constructor
    · intro hnone
      cases hnone
    · rintro (⟨hlt, -⟩ | ⟨-, hrep, -⟩)
      · exact absurd hlt hlate
      · exact absurd hrep hrepeat

/-- What a tick does to the objects. -/
def Ticked (now : Timestamp) (q q' : TimerQueue) : Prop :=
  ∀ a, q'.heap a = (q.heap a).bind fun t => if t.passed then afterTick t now else some t

theorem Rep.handleRead (h : Rep q []) (now : Timestamp) :
    ∃ q', q.handleRead now = .ok q' ∧ Rep q' [] ∧ Ticked now q q' := by
  have hread : Rep q.readTimerfd [] := h.congr rfl rfl rfl
  obtain ⟨expired, timers, activeTimers, hget, hrep⟩ := hread.getExpired now
  have hcalled : Rep { q.readTimerfd with
      timers := timers, activeTimers := activeTimers, callingExpiredTimers := false,
      cancelingTimers := ∅ } (expired.map Entry.timer) := hrep.congr rfl rfl rfl
  obtain ⟨q', hreset, hrep'⟩ := hcalled.reset now
  have hcallbacks : runCallbacks { q.readTimerfd with
      timers := timers, activeTimers := activeTimers, callingExpiredTimers := true,
      cancelingTimers := ∅ } expired = .ok () := by
    refine runCallbacks_ok fun e he => ?_
    obtain ⟨t, ht, -⟩ := hrep.alive e.timer (List.mem_map_of_mem he)
    exact ⟨t, ht⟩
  refine ⟨q', ?_, hrep', fun a => ?_⟩
  · unfold TimerQueue.handleRead
    rw [hget, ok_bind]
    dsimp only
    rw [hcallbacks, ok_bind]
    exact hreset
  · obtain ⟨q₁, hloop, hframe⟩ := frame_reset hreset
    rw [hframe.heap, heap_resetExpired hrep.nodup hloop]
    have hheap : ({ q.readTimerfd with
        timers := timers, activeTimers := activeTimers, callingExpiredTimers := false,
        cancelingTimers := ∅ } : TimerQueue).heap a = q.heap a := rfl
    cases ha : q.heap a with
    | none =>
      have hnot : a ∉ expired.map Entry.timer := fun hmem => by
        obtain ⟨t, ht, -⟩ := hrep.alive a hmem
        cases ha.symm.trans ht
      rw [if_neg hnot, hheap, ha]
      rfl
    | some t =>
      rw [Option.bind_some]
      cases hpassed : t.passed with
      | false =>
        have hnot : a ∉ expired.map Entry.timer := fun hmem => by
          obtain ⟨u, hu, hup⟩ := hrep.alive a hmem
          obtain rfl : t = u := Option.some.inj (ha.symm.trans hu)
          cases hpassed.symm.trans hup
        rw [if_neg hnot, hheap, ha]
        rfl
      | true =>
        have hdue := hread.mem_expired_timer hget ha hpassed
        rw [if_pos rfl, afterTick]
        by_cases hlate : now < t.expiration
        · rw [if_neg (by rw [hdue]; exact not_le_of_gt hlate), hheap, ha, if_pos hlate]
        · rw [if_pos (hdue.2 (le_of_not_gt hlate)), if_neg hlate]
          exact rearmed_of_heap (hheap.trans ha) rfl

/-! ## The members of the two sets -/

section Kept

variable {expired : List Entry} {timers : OrdSet Entry} {activeTimers : OrdSet ActiveTimer}

/-- The cut leaves the entries that are not due, -/
theorem Rep.mem_timers_kept (h : Rep q [])
    (hget : q.getExpired now = .ok (expired, { q with timers := timers, activeTimers := activeTimers }))
    (hrep : Rep { q with timers := timers, activeTimers := activeTimers } (expired.map Entry.timer))
    (e : Entry) : e ∈ timers ↔ e ∈ q.timers ∧ now < e.time := by
  refine hrep.mem_timers.trans ?_
  rw [h.mem_timers]
  constructor
  · rintro ⟨hnot, t, ht, hpassed, htime⟩
    rw [h.mem_expired_timer hget ht hpassed, htime] at hnot
    exact ⟨⟨List.not_mem_nil, t, ht, hpassed, htime⟩, lt_of_not_ge hnot⟩
  · rintro ⟨⟨-, t, ht, hpassed, htime⟩, hlate⟩
    refine ⟨?_, t, ht, hpassed, htime⟩
    rw [h.mem_expired_timer hget ht hpassed, htime]
    exact not_le_of_gt hlate

/-- and their timers. -/
theorem Rep.mem_activeTimers_kept (h : Rep q [])
    (hget : q.getExpired now = .ok (expired, { q with timers := timers, activeTimers := activeTimers }))
    (hrep : Rep { q with timers := timers, activeTimers := activeTimers } (expired.map Entry.timer))
    (p : ActiveTimer) : p ∈ activeTimers ↔ p ∈ q.activeTimers ∧
      ∃ t, q.heap p.timer = some t ∧ now < t.expiration := by
  refine hrep.mem_activeTimers.trans ?_
  rw [h.mem_activeTimers]
  constructor
  · rintro ⟨hnot, t, ht, hpassed, hseq⟩
    rw [h.mem_expired_timer hget ht hpassed] at hnot
    exact ⟨⟨List.not_mem_nil, t, ht, hpassed, hseq⟩, t, ht, lt_of_not_ge hnot⟩
  · rintro ⟨⟨-, t, ht, hpassed, hseq⟩, u, hu, hlate⟩
    obtain rfl : t = u := Option.some.inj (ht.symm.trans hu)
    refine ⟨?_, t, ht, hpassed, hseq⟩
    rw [h.mem_expired_timer hget ht hpassed]
    exact not_le_of_gt hlate

end Kept

/-- The object of a timer that was in the queue. -/
theorem Ticked.heap (h : Ticked now q q') {a : Addr} {t : Timer} (ht : q.heap a = some t)
    (hpassed : t.passed = true) : q'.heap a = afterTick t now := by
  rw [h a, ht, Option.bind_some, if_pos hpassed]

/-- A timer that is in the queue was in it. -/
theorem Ticked.exists_before (h : Ticked now q q') {a : Addr} {u : Timer} (hu : q'.heap a = some u)
    (hpassed : u.passed = true) :
    ∃ t, q.heap a = some t ∧ t.passed = true ∧ afterTick t now = some u := by
  rw [h a, Option.bind_eq_some_iff] at hu
  obtain ⟨t, ht, hu⟩ := hu
  split_ifs at hu with htp
  · exact ⟨t, ht, htp, hu⟩
  · obtain rfl := Option.some.inj hu
    exact absurd hpassed htp

theorem Ticked.mem_timers (hticked : Ticked now q q') (h : Rep q []) (h' : Rep q' []) (e : Entry) :
    e ∈ q'.timers ↔ e ∈ q.timers ∧ now < e.time ∨
      ∃ f ∈ q.timers, f.time ≤ now ∧ ∃ t, q.heap f.timer = some t ∧ t.repeat_ = true ∧
        e = ⟨now + t.interval, f.timer⟩ := by
  rw [h'.mem_timers]
  constructor
  · rintro ⟨-, u, hu, hup, hutime⟩
    obtain ⟨t, ht, htp, htick⟩ := hticked.exists_before hu hup
    have hmem : (⟨t.expiration, e.timer⟩ : Entry) ∈ q.timers :=
      h.mem_timers.2 ⟨List.not_mem_nil, t, ht, htp, rfl⟩
    rcases afterTick_eq_some.1 htick with ⟨hlate, rfl⟩ | ⟨hdue, hrepeat, rfl⟩
    · rw [hutime] at hmem hlate
      exact .inl ⟨hmem, hlate⟩
    · refine .inr ⟨_, hmem, hdue, t, ht, hrepeat, ?_⟩
      cases e
      dsimp only at hutime
      rw [hutime]
  · rintro (⟨he, hlate⟩ | ⟨f, hf, hdue, t, ht, hrepeat, rfl⟩)
    · obtain ⟨-, t, ht, htp, htime⟩ := h.mem_timers.1 he
      refine ⟨List.not_mem_nil, t, ?_, htp, htime⟩
      rw [hticked.heap ht htp]
      exact afterTick_eq_some.2 (.inl ⟨by rw [htime]; exact hlate, rfl⟩)
    · obtain ⟨-, u, hu, hup, hutime⟩ := h.mem_timers.1 hf
      obtain rfl : t = u := Option.some.inj (ht.symm.trans hu)
      refine ⟨List.not_mem_nil, { t with expiration := now + t.interval }, ?_, hup, rfl⟩
      rw [hticked.heap ht hup]
      exact afterTick_eq_some.2 (.inr ⟨by rw [hutime]; exact hdue, hrepeat, rfl⟩)

theorem Ticked.mem_activeTimers (hticked : Ticked now q q') (h : Rep q []) (h' : Rep q' [])
    (p : ActiveTimer) : p ∈ q'.activeTimers ↔ p ∈ q.activeTimers ∧
      ∃ t, q.heap p.timer = some t ∧ (now < t.expiration ∨ t.repeat_ = true) := by
  rw [h'.mem_activeTimers, h.mem_activeTimers]
  constructor
  · rintro ⟨-, u, hu, hup, huseq⟩
    obtain ⟨t, ht, htp, htick⟩ := hticked.exists_before hu hup
    rcases afterTick_eq_some.1 htick with ⟨hlate, rfl⟩ | ⟨-, hrepeat, rfl⟩
    · exact ⟨⟨List.not_mem_nil, _, ht, htp, huseq⟩, _, ht, .inl hlate⟩
    · exact ⟨⟨List.not_mem_nil, t, ht, htp, huseq⟩, t, ht, .inr hrepeat⟩
  · rintro ⟨⟨-, t, ht, htp, hseq⟩, u, hu, hstays⟩
    obtain rfl : t = u := Option.some.inj (ht.symm.trans hu)
    have hobject := hticked.heap ht htp
    rw [afterTick] at hobject
    split_ifs at hobject with hlate hrepeat
    · exact ⟨List.not_mem_nil, t, hobject, htp, hseq⟩
    · exact ⟨List.not_mem_nil, _, hobject, htp, hseq⟩
    · exact absurd hstays (by simp [hlate, hrepeat])

/-- A tick takes the timers that are due, in the order of their expirations, out of both sets, and
leaves the others; after the callbacks those that repeat are back with a new expiration, and those
that do not are deleted. -/
theorem tick_runs_due_timers (h : Rep q []) (now : Timestamp) :
    (∃ expired q₁, q.getExpired now = .ok (expired, q₁) ∧
      (∀ e, e ∈ expired ↔ e ∈ q.timers ∧ e.time ≤ now) ∧
      (expired.Pairwise fun e f => e.time ≤ f.time) ∧ (expired.map Entry.timer).Nodup ∧
      (∀ e, e ∈ q₁.timers ↔ e ∈ q.timers ∧ now < e.time) ∧
      ∀ p, p ∈ q₁.activeTimers ↔ p ∈ q.activeTimers ∧
        ∃ t, q.heap p.timer = some t ∧ now < t.expiration) ∧
    ∃ q₂, q.handleRead now = .ok q₂ ∧
      (∀ e, e ∈ q₂.timers ↔ e ∈ q.timers ∧ now < e.time ∨
        ∃ f ∈ q.timers, f.time ≤ now ∧ ∃ t, q.heap f.timer = some t ∧ t.repeat_ = true ∧
          e = ⟨now + t.interval, f.timer⟩) ∧
      (∀ p, p ∈ q₂.activeTimers ↔ p ∈ q.activeTimers ∧
        ∃ t, q.heap p.timer = some t ∧ (now < t.expiration ∨ t.repeat_ = true)) ∧
      ∀ e ∈ q.timers, ∃ t, q.heap e.timer = some t ∧ t.expiration = e.time ∧
        q₂.heap e.timer = if now < t.expiration then some t
          else if t.repeat_ then some { t with expiration := now + t.interval } else none := by
  constructor
  · obtain ⟨expired, timers, activeTimers, hget, hrep⟩ := h.getExpired now
    exact ⟨expired, _, hget, fun e => h.mem_expired hget, getExpired_sorted hget, hrep.nodup,
      h.mem_timers_kept hget hrep, h.mem_activeTimers_kept hget hrep⟩
  · obtain ⟨q₂, hq₂, hrep, hticked⟩ := h.handleRead now
    refine ⟨q₂, hq₂, hticked.mem_timers h hrep, hticked.mem_activeTimers h hrep, fun e he => ?_⟩
    obtain ⟨t, ht, hpassed, htime, -⟩ := h.entry e he
    exact ⟨t, ht, htime, hticked.heap ht hpassed⟩

/-- Two timers that expire together, of which one repeats, and one that expires later. -/
def sampleTimers : List Action :=
  [.newTimer 16 100 50 true, .addTimerInLoop 16, .newTimer 32 100 0 false, .addTimerInLoop 32,
    .newTimer 48 101 0 false, .addTimerInLoop 48]

theorem tick_runs_due_timers_sampleTimers :
    ∃ q q₂, machine.run new sampleTimers = .ok q ∧ q.handleRead 100 = .ok q₂ ∧
      (⟨150, 16⟩ : Entry) ∈ q₂.timers ∧ (⟨100, 32⟩ : Entry) ∉ q₂.timers ∧
      (⟨101, 48⟩ : Entry) ∈ q₂.timers := by
  obtain ⟨q, hq, hinv⟩ := Machine.run_ok_of_along (fun _ _ h hE => step_inv h hE) inv_new
    (show machine.Along Env new sampleTimers by decide +kernel)
  have hview : (machine.run new sampleTimers).toOption.any (fun q => q.handling = none ∧
      q.timers.toList = [⟨100, 16⟩, ⟨100, 32⟩, ⟨101, 48⟩] ∧
      (q.heap 16).map Timer.repeat_ = some true ∧ (q.heap 16).map Timer.interval = some 50 ∧
      (q.heap 32).map Timer.repeat_ = some false) := by
    decide +kernel
  rw [hq] at hview
  obtain ⟨hnone, htimers, hrepeat, hinterval, hshot⟩ := of_decide_eq_true hview
  have hrep : Rep q [] := by
    have hexpiring : q.expiring = [] := by
      rw [expiring, hnone]
    rw [← hexpiring]
    exact hinv.rep
  obtain ⟨-, q₂, hq₂, hmem, -⟩ := tick_runs_due_timers hrep 100
  have hin : ∀ e, e ∈ q.timers ↔ e ∈ [⟨100, 16⟩, ⟨100, 32⟩, ⟨101, 48⟩] := fun e => by
    rw [← htimers]
    rfl
  refine ⟨q, q₂, hq, hq₂, (hmem _).2 (.inr ⟨⟨100, 16⟩, (hin _).2 (by decide), le_rfl, ?_⟩),
    fun hgone => ?_, (hmem _).2 (.inl ⟨(hin _).2 (by decide), by decide⟩)⟩
  · obtain ⟨t, ht, htrue⟩ := Option.map_eq_some_iff.1 hrepeat
    rw [ht] at hinterval
    refine ⟨t, ht, htrue, ?_⟩
    rw [Option.some.inj hinterval]
    rfl
  · rcases (hmem _).1 hgone with ⟨-, hlate⟩ | ⟨f, -, -, t, ht, htrue, heq⟩
    · exact absurd hlate (by decide)
    · obtain ⟨-, hf⟩ := Entry.mk.inj heq
      rw [← hf] at ht
      rw [ht] at hshot
      cases htrue.symm.trans (Option.some.inj hshot)

end TimerQueue

end Reactor
