import Reactor.TimerQueue

/-!
# Which timers the queue owns

`Rep q batch` says that `timers_` and `activeTimers_` hold the same objects under their current
expirations, and that these together with the objects of `batch` are the timers that were passed to
the queue and are still alive.  Outside `handleRead` the batch is empty; inside it is the expired
timers.  Every operation keeps this, moves objects in and out of the batch, and therefore passes its
assertions and never touches a dead object (`queue_owns_its_timers`).
-/

namespace Reactor

namespace TimerQueue

structure Rep (q : TimerQueue) (batch : List Addr) : Prop where
  size : q.sizesAgree
  entry : ∀ e ∈ q.timers, ∃ t, q.heap e.timer = some t ∧ t.passed = true ∧ t.expiration = e.time ∧
    ⟨e.timer, t.sequence⟩ ∈ q.activeTimers
  active : ∀ p ∈ q.activeTimers, ∃ t, q.heap p.timer = some t ∧ t.sequence = p.sequence ∧
    ⟨t.expiration, p.timer⟩ ∈ q.timers
  alive : ∀ a ∈ batch, ∃ t, q.heap a = some t ∧ t.passed = true
  passed : ∀ a t, q.heap a = some t → t.passed = true →
    a ∈ batch ∨ ⟨t.expiration, a⟩ ∈ q.timers
  outside : ∀ e ∈ q.timers, e.timer ∉ batch
  nodup : batch.Nodup
  below : ∀ a t, q.heap a = some t → a < UINTPTR_MAX

variable {q : TimerQueue} {batch : List Addr} {a : Addr}

theorem deref_of_heap {t : Timer} (h : q.heap a = some t) : q.deref a = .ok t := by
  unfold deref
  rw [h]

theorem delete_of_heap {t : Timer} (h : q.heap a = some t) : q.delete a = .ok (q.store a none) := by
  unfold delete
  rw [check_of (by rw [h]; rfl)]
  rfl

theorem store_heap_of_ne {b : Addr} (h : b ≠ a) (t : Option Timer) :
    (q.store a t).heap b = q.heap b := by
  simp [store, h]

@[simp] theorem store_heap_self (t : Option Timer) : (q.store a t).heap a = t := by
  simp [store]

theorem rep_new : Rep new [] :=
  ⟨rfl, fun _ h => absurd h (OrdSet.notMem_empty _), fun _ h => absurd h (OrdSet.notMem_empty _),
    fun _ h => absurd h List.not_mem_nil, fun _ _ h => (nomatch h), fun _ _ => List.not_mem_nil,
    List.nodup_nil, fun _ _ h => (nomatch h)⟩

/-- `Rep` is about three members only. -/
theorem Rep.congr {q' : TimerQueue} (h : Rep q batch) (ht : q'.timers = q.timers)
    (ha : q'.activeTimers = q.activeTimers) (hh : q'.heap = q.heap) : Rep q' batch := by
  obtain ⟨timers, activeTimers, _, _, _, heap, _, _⟩ := q'
  dsimp only at ht ha hh
  subst ht ha hh
  exact ⟨h.size, h.entry, h.active, h.alive, h.passed, h.outside, h.nodup, h.below⟩

/-- The object at `a` has no entry in either set. -/
theorem Rep.ne_of_mem_batch (h : Rep q batch) (ha : a ∈ batch) {p : ActiveTimer}
    (hp : p ∈ q.activeTimers) : p.timer ≠ a := by
  obtain ⟨t, -, -, he⟩ := h.active p hp
  rintro rfl
  exact h.outside _ he ha

/-- An object of the batch may change. -/
theorem Rep.store_of_mem_batch (h : Rep q batch) (ha : a ∈ batch) {t : Timer}
    (ht : t.passed = true) : Rep (q.store a (some t)) batch := by
  have hne : ∀ e ∈ q.timers, e.timer ≠ a := fun e he hea => h.outside e he (hea ▸ ha)
  refine ⟨h.size, fun e he => ?_, fun p hp => ?_, fun b hb => ?_, fun b u hb hu => ?_, h.outside,
    h.nodup, fun b u hb => ?_⟩
  · rw [store_heap_of_ne (hne e he)]
    exact h.entry e he
  · rw [store_heap_of_ne (h.ne_of_mem_batch ha hp)]
    exact h.active p hp
  · by_cases hba : b = a
    · subst hba
      exact ⟨t, store_heap_self _, ht⟩
    · rw [store_heap_of_ne hba]
      exact h.alive b hb
  · by_cases hba : b = a
    · subst hba
      exact .inl ha
    · rw [store_heap_of_ne hba] at hb
      exact h.passed b u hb hu
  · by_cases hba : b = a
    · subst hba
      obtain ⟨u', hu', -⟩ := h.alive b ha
      exact h.below b u' hu'
    · rw [store_heap_of_ne hba] at hb
      exact h.below b u hb

/-- An object of the batch is deleted. -/
theorem Rep.delete (h : Rep q (a :: batch)) :
    q.delete a = .ok (q.store a none) ∧ Rep (q.store a none) batch := by
  have hmem : a ∈ a :: batch := List.mem_cons_self
  obtain ⟨hnot, hnodup⟩ := List.nodup_cons.1 h.nodup
  have hne : ∀ e ∈ q.timers, e.timer ≠ a := fun e he hea => h.outside e he (hea ▸ hmem)
  constructor
  · obtain ⟨t, ht, -⟩ := h.alive a hmem
    exact delete_of_heap ht
  refine ⟨h.size, fun e he => ?_, fun p hp => ?_, fun b hb => ?_, fun b u hb hu => ?_,
    fun e he hb => h.outside e he (List.mem_cons_of_mem a hb), hnodup, fun b u hb => ?_⟩
  · rw [store_heap_of_ne (hne e he)]
    exact h.entry e he
  · rw [store_heap_of_ne (h.ne_of_mem_batch hmem hp)]
    exact h.active p hp
  · have hba : b ≠ a := by
      rintro rfl
      exact hnot hb
    rw [store_heap_of_ne hba]
    exact h.alive b (List.mem_cons_of_mem a hb)
  · by_cases hba : b = a
    · subst hba
      simp at hb
    · rw [store_heap_of_ne hba] at hb
      exact (h.passed b u hb hu).imp_left fun hmem => (List.mem_cons.1 hmem).resolve_left hba
  · by_cases hba : b = a
    · subst hba
      simp at hb
    · rw [store_heap_of_ne hba] at hb
      exact h.below b u hb

/-- An object of the batch is inserted. -/
theorem Rep.insert (h : Rep q (a :: batch)) :
    ∃ t timers activeTimers, q.heap a = some t ∧
      q.insert a = .ok (q.earliestChanged t.expiration,
        { q with timers := timers, activeTimers := activeTimers }) ∧
      Rep { q with timers := timers, activeTimers := activeTimers } batch ∧
      ∀ e, e ∈ timers ↔ e = ⟨t.expiration, a⟩ ∨ e ∈ q.timers := by
  have hmem : a ∈ a :: batch := List.mem_cons_self
  obtain ⟨hnot, hnodup⟩ := List.nodup_cons.1 h.nodup
  obtain ⟨t, ht, hpassed⟩ := h.alive a hmem
  have hentry : (⟨t.expiration, a⟩ : Entry) ∉ q.timers := fun he => h.outside _ he hmem
  have hactive : (⟨a, t.sequence⟩ : ActiveTimer) ∉ q.activeTimers :=
    fun hp => h.ne_of_mem_batch hmem hp rfl
  obtain ⟨timers, htimers, hsize, htm⟩ := OrdSet.insert_of_notMem hentry
  obtain ⟨activeTimers, hactives, hsize', ham⟩ := OrdSet.insert_of_notMem hactive
  have hagree : sizesAgree { q with timers := timers, activeTimers := activeTimers } := by
    show timers.size = activeTimers.size
    rw [hsize, hsize', show q.timers.size = q.activeTimers.size from h.size]
  refine ⟨t, timers, activeTimers, ht, ?_, ?_, htm⟩
  · unfold TimerQueue.insert
    rw [check_of h.size, ok_bind, deref_of_heap ht, ok_bind]
    dsimp only
    rw [htimers]
    dsimp only
    rw [check_of rfl, ok_bind, hactives]
    dsimp only
    rw [check_of rfl, ok_bind, check_of hagree]
    rfl
  · refine ⟨hagree, fun e he => ?_, fun p hp => ?_,
      fun b hb => h.alive b (List.mem_cons_of_mem a hb), fun b u hb hu => ?_, fun e he => ?_, hnodup,
      h.below⟩
    · rcases (htm e).1 he with rfl | he
      · exact ⟨t, ht, hpassed, rfl, (ham _).2 (.inl rfl)⟩
      · obtain ⟨u, hu, hup, hue, hua⟩ := h.entry e he
        exact ⟨u, hu, hup, hue, (ham _).2 (.inr hua)⟩
    · rcases (ham p).1 hp with rfl | hp
      · exact ⟨t, ht, rfl, (htm _).2 (.inl rfl)⟩
      · obtain ⟨u, hu, hus, hue⟩ := h.active p hp
        exact ⟨u, hu, hus, (htm _).2 (.inr hue)⟩
    · rcases h.passed b u hb hu with hmem | hin
      · rcases List.mem_cons.1 hmem with rfl | hmem
        · obtain rfl : t = u := Option.some.inj (ht.symm.trans hb)
          exact .inr ((htm _).2 (.inl rfl))
        · exact .inl hmem
      · exact .inr ((htm _).2 (.inr hin))
    · rcases (htm e).1 he with rfl | he
      · exact hnot
      · exact fun hb => h.outside e he (List.mem_cons_of_mem a hb)

/-- An object is taken out of both sets and joins the batch. -/
theorem Rep.detach (h : Rep q batch) {t : Timer} (ht : q.heap a = some t)
    (hmem : ⟨t.expiration, a⟩ ∈ q.timers) :
    ∃ timers activeTimers, q.timers.erase ⟨t.expiration, a⟩ = (timers, 1) ∧
      q.activeTimers.erase ⟨a, t.sequence⟩ = (activeTimers, 1) ∧
      Rep { q with timers := timers, activeTimers := activeTimers } (a :: batch) ∧
      ∀ e ∈ timers, e ∈ q.timers := by
  have hactive : (⟨a, t.sequence⟩ : ActiveTimer) ∈ q.activeTimers := by
    obtain ⟨u, hu, -, -, hua⟩ := h.entry _ hmem
    obtain rfl : t = u := Option.some.inj (ht.symm.trans hu)
    exact hua
  have hpassed : t.passed = true := by
    obtain ⟨u, hu, hup, -⟩ := h.entry _ hmem
    obtain rfl : t = u := Option.some.inj (ht.symm.trans hu)
    exact hup
  obtain ⟨timers, htimers, hsize, htm⟩ := OrdSet.erase_of_mem hmem
  obtain ⟨activeTimers, hactives, hsize', ham⟩ := OrdSet.erase_of_mem hactive
  have hagree : timers.size = activeTimers.size := by
    have := h.size
    unfold sizesAgree at this
    omega
  -- another object has another address, since the heap has one object at each
  have hother : ∀ e ∈ timers, e.timer ≠ a := by
    intro e he hea
    obtain ⟨hne, he⟩ := (htm e).1 he
    obtain ⟨u, hu, -, hue, -⟩ := h.entry e he
    rw [hea] at hu
    obtain rfl : t = u := Option.some.inj (ht.symm.trans hu)
    apply hne
    cases e
    dsimp only at hue hea
    rw [hue, hea]
  refine ⟨timers, activeTimers, htimers, hactives, ⟨hagree, fun e he => ?_, fun p hp => ?_,
    fun b hb => ?_, fun b u hb hu => ?_, fun e he hb => ?_, List.nodup_cons.2 ⟨?_, h.nodup⟩,
    h.below⟩, fun e he => ((htm e).1 he).2⟩
  · obtain ⟨u, hu, hup, hue, hua⟩ := h.entry e ((htm e).1 he).2
    refine ⟨u, hu, hup, hue, (ham _).2 ⟨fun heq => hother e he ?_, hua⟩⟩
    exact congrArg ActiveTimer.timer heq
  · obtain ⟨hne, hp⟩ := (ham p).1 hp
    obtain ⟨u, hu, hus, hue⟩ := h.active p hp
    refine ⟨u, hu, hus, (htm _).2 ⟨fun heq => hne ?_, hue⟩⟩
    have hpa : p.timer = a := congrArg Entry.timer heq
    rw [hpa] at hu
    obtain rfl : t = u := Option.some.inj (ht.symm.trans hu)
    cases p
    dsimp only at hus hpa
    rw [hus, hpa]
  · rcases List.mem_cons.1 hb with rfl | hb
    · exact ⟨t, ht, hpassed⟩
    · exact h.alive b hb
  · rcases h.passed b u hb hu with hb' | hin
    · exact .inl (List.mem_cons_of_mem a hb')
    · by_cases hba : b = a
      · exact .inl (by simp [hba])
      · exact .inr ((htm _).2 ⟨fun heq => hba (congrArg Entry.timer heq), hin⟩)
  · rcases List.mem_cons.1 hb with hea | hb
    · exact hother e he hea
    · exact h.outside e ((htm e).1 he).2 hb
  · exact h.outside _ hmem

theorem Rep.addTimerInLoop (h : Rep q batch) {t : Timer} (ht : q.heap a = some t)
    (hnew : t.passed = false) :
    ∃ q', (q.store a (some { t with passed := true })).insert a =
        .ok (q.earliestChanged t.expiration, q') ∧
      Rep q' batch ∧ (∀ e, e ∈ q'.timers ↔ e = ⟨t.expiration, a⟩ ∨ e ∈ q.timers) ∧
      q'.heap a = some { t with passed := true } ∧ q'.timerfd = q.timerfd ∧
      q'.handling = q.handling := by
  have hnot : a ∉ batch := fun hmem => by
    obtain ⟨u, hu, hup⟩ := h.alive a hmem
    obtain rfl : t = u := Option.some.inj (ht.symm.trans hu)
    rw [hnew] at hup
    cases hup
  have hne : ∀ e ∈ q.timers, e.timer ≠ a := by
    rintro e he rfl
    obtain ⟨u, hu, hup, -⟩ := h.entry e he
    obtain rfl : t = u := Option.some.inj (ht.symm.trans hu)
    rw [hnew] at hup
    cases hup
  have hrep : Rep (q.store a (some { t with passed := true })) (a :: batch) := by
    refine ⟨h.size, fun e he => ?_, fun p hp => ?_, fun b hb => ?_, fun b u hb hu => ?_,
      fun e he hb => ?_, List.nodup_cons.2 ⟨hnot, h.nodup⟩, fun b u hb => ?_⟩
    · rw [store_heap_of_ne (hne e he)]
      exact h.entry e he
    · obtain ⟨u, hu, hus, hue⟩ := h.active p hp
      rw [store_heap_of_ne (hne _ hue)]
      exact ⟨u, hu, hus, hue⟩
    · by_cases hba : b = a
      · subst hba
        exact ⟨_, store_heap_self _, rfl⟩
      · rw [store_heap_of_ne hba]
        exact h.alive b ((List.mem_cons.1 hb).resolve_left hba)
    · by_cases hba : b = a
      · exact .inl (by simp [hba])
      · rw [store_heap_of_ne hba] at hb
        exact (h.passed b u hb hu).imp_left (List.mem_cons_of_mem a)
    · rcases List.mem_cons.1 hb with hea | hb
      · exact hne e he hea
      · exact h.outside e he hb
    · by_cases hba : b = a
      · subst hba
        exact h.below b t ht
      · rw [store_heap_of_ne hba] at hb
        exact h.below b u hb
  obtain ⟨u, timers, activeTimers, hu, hins, hrep', hmem⟩ := hrep.insert
  obtain rfl : { t with passed := true } = u :=
    Option.some.inj ((store_heap_self _).symm.trans hu)
  exact ⟨_, hins, hrep', hmem, hu, rfl, rfl⟩

theorem Rep.eraseTimer (h : Rep q batch) {p : ActiveTimer} (hp : p ∈ q.activeTimers) :
    ∃ q', q.eraseTimer p = .ok q' ∧ Rep q' batch ∧ (∀ e ∈ q'.timers, e ∈ q.timers) ∧
      q'.timerfd = q.timerfd ∧ q'.handling = q.handling := by
  obtain ⟨t, ht, hseq, hmem⟩ := h.active p hp
  obtain ⟨timers, activeTimers, htimers, hactives, hrep, hsub⟩ := h.detach ht hmem
  have hdel : ({ q with timers := timers } : TimerQueue).delete p.timer =
      .ok (({ q with timers := timers } : TimerQueue).store p.timer none) := delete_of_heap ht
  have hpt : (⟨p.timer, t.sequence⟩ : ActiveTimer) = p := by rw [hseq]
  rw [hpt] at hactives
  unfold TimerQueue.eraseTimer
  rw [deref_of_heap ht, ok_bind]
  simp only [htimers]
  rw [check_of trivial, ok_bind, hdel, ok_bind]
  simp only [store, hactives]
  exact ⟨_, rfl, hrep.delete.2, hsub, rfl, rfl⟩

theorem Rep.cancelInLoop (h : Rep q batch) (p : ActiveTimer) :
    ∃ q', q.cancelInLoop p = .ok q' ∧ Rep q' batch ∧ (∀ e ∈ q'.timers, e ∈ q.timers) ∧
      q'.timerfd = q.timerfd ∧ q'.handling = q.handling := by
  have hbody : ∃ q', q.cancelTimer p = .ok q' ∧ Rep q' batch ∧ (∀ e ∈ q'.timers, e ∈ q.timers) ∧
      q'.timerfd = q.timerfd ∧ q'.handling = q.handling := by
    unfold cancelTimer
    split_ifs with hp hcalling
    · exact h.eraseTimer hp
    · exact ⟨_, rfl, h.congr rfl rfl rfl, fun _ he => he, rfl, rfl⟩
    · exact ⟨q, rfl, h, fun _ he => he, rfl, rfl⟩
  obtain ⟨q', hq', hrep, hrest⟩ := hbody
  unfold TimerQueue.cancelInLoop
  rw [check_of h.size, ok_bind, hq', ok_bind, check_of hrep.size]
  exact ⟨q', rfl, hrep, hrest⟩

/-- The objects of a list are erased from `activeTimers_` one by one. -/
theorem eraseActive_spec {es : List Entry} (hnodup : (es.map Entry.timer).Nodup)
    (hes : ∀ e ∈ es, ∃ t, q.heap e.timer = some t ∧ ⟨e.timer, t.sequence⟩ ∈ q.activeTimers) :
    ∃ activeTimers, q.eraseActive es = .ok { q with activeTimers := activeTimers } ∧
      activeTimers.size + es.length = q.activeTimers.size ∧
      ∀ p, p ∈ activeTimers ↔ p ∈ q.activeTimers ∧
        ∀ e ∈ es, ∀ t, q.heap e.timer = some t → p ≠ ⟨e.timer, t.sequence⟩ := by
  induction es generalizing q with
  | nil => exact ⟨q.activeTimers, rfl, rfl, by simp⟩
  | cons e es ih =>
    obtain ⟨hnot, hnodup⟩ := List.nodup_cons.1 hnodup
    obtain ⟨t, ht, hmem⟩ := hes e List.mem_cons_self
    obtain ⟨actives, hactives, hsize, ham⟩ := OrdSet.erase_of_mem hmem
    obtain ⟨activeTimers, hrun, hlen, hiff⟩ := ih (q := { q with activeTimers := actives }) hnodup
      (fun f hf => by
        obtain ⟨u, hu, hua⟩ := hes f (List.mem_cons_of_mem e hf)
        refine ⟨u, hu, (ham _).2 ⟨fun heq => hnot ?_, hua⟩⟩
        rw [← show f.timer = e.timer from congrArg ActiveTimer.timer heq]
        exact List.mem_map_of_mem hf)
    refine ⟨activeTimers, ?_, ?_, fun p => ?_⟩
    · rw [eraseActive, deref_of_heap ht, ok_bind]
      simp only [hactives]
      rw [check_of trivial, ok_bind]
      exact hrun
    · rw [List.length_cons]
      dsimp only at hlen
      omega
    · rw [hiff p]
      dsimp only
      rw [ham p]
      constructor
      · rintro ⟨⟨hne, hp⟩, hrest⟩
        refine ⟨hp, fun f hf u hu => ?_⟩
        rcases List.mem_cons.1 hf with rfl | hf
        · obtain rfl : t = u := Option.some.inj (ht.symm.trans hu)
          exact hne
        · exact hrest f hf u hu
      · rintro ⟨hp, hall⟩
        exact ⟨⟨hall e List.mem_cons_self t ht, hp⟩,
          fun f hf => hall f (List.mem_cons_of_mem e hf)⟩

theorem Rep.entry_eq (h : Rep q batch) {e f : Entry} (he : e ∈ q.timers) (hf : f ∈ q.timers)
    (heq : e.timer = f.timer) : e = f := by
  obtain ⟨t, ht, -, hte, -⟩ := h.entry e he
  obtain ⟨u, hu, -, huf, -⟩ := h.entry f hf
  rw [heq] at ht
  obtain rfl : t = u := Option.some.inj (ht.symm.trans hu)
  cases e
  cases f
  dsimp only at hte huf heq
  rw [← hte, ← huf, heq]

/-- The sentry has a larger address than any timer. -/
theorem Rep.lt_sentry (h : Rep q batch) {e : Entry} (he : e ∈ q.timers) {now : Timestamp} :
    e < ⟨now, UINTPTR_MAX⟩ ↔ e.time ≤ now := by
  obtain ⟨t, ht, -⟩ := h.entry e he
  have hbelow := h.below _ t ht
  rw [Entry.lt_iff]
  constructor
  · rintro (hlt | ⟨heq, -⟩)
    · exact hlt.le
    · exact heq.le
  · intro hle
    rcases lt_or_eq_of_le hle with hlt | heq
    · exact .inl hlt
    · exact .inr ⟨heq, hbelow⟩

/-- The timers that are due leave both sets and are the batch. -/
theorem Rep.getExpired (h : Rep q []) (now : Timestamp) :
    ∃ expired timers activeTimers, q.getExpired now =
        .ok (expired, { q with timers := timers, activeTimers := activeTimers }) ∧
      Rep { q with timers := timers, activeTimers := activeTimers } (expired.map Entry.timer) := by
  let sentry : Entry := ⟨now, UINTPTR_MAX⟩
  have hmem : ∀ e, e ∈ q.timers.below sentry ↔ e ∈ q.timers ∧ e < sentry := fun e =>
    OrdSet.mem_below
  have hrest : ∀ e, e ∈ q.timers.fromLowerBound sentry ↔ e ∈ q.timers ∧ sentry ≤ e := fun e =>
    OrdSet.mem_fromLowerBound
  have hnodup : ((q.timers.below sentry).map Entry.timer).Nodup := by
    refine List.Nodup.map_on (fun e he f hf heq => ?_)
      (q.timers.nodup.sublist (List.takeWhile_sublist _))
    exact h.entry_eq ((hmem e).1 he).1 ((hmem f).1 hf).1 heq
  have hdue : (q.timers.fromLowerBound sentry).first.all fun e => now < e.time := by
    rw [Option.all_eq_true]
    intro e he
    obtain ⟨hin, hle⟩ := (hrest e).1 (OrdSet.first_eq_some.1 he).1
    rw [decide_eq_true_iff]
    exact lt_of_not_ge fun hge => not_lt_of_ge hle ((h.lt_sentry hin).2 hge)
  obtain ⟨activeTimers, hrun, hlen, hiff⟩ := eraseActive_spec
    (q := { q with timers := q.timers.fromLowerBound sentry }) hnodup (fun e he => by
      obtain ⟨t, ht, -, -, hta⟩ := h.entry e ((hmem e).1 he).1
      exact ⟨t, ht, hta⟩)
  have hagree : sizesAgree { q with
      timers := q.timers.fromLowerBound sentry, activeTimers := activeTimers } := by
    have hsplit := OrdSet.length_below_add_size q.timers sentry
    have hsize := h.size
    unfold sizesAgree at hsize ⊢
    dsimp only at hlen ⊢
    omega
  refine ⟨_, _, activeTimers, ?_, hagree, fun e he => ?_, fun p hp => ?_, fun b hb => ?_,
    fun b u hb hu => ?_, fun e he hb => ?_, hnodup, h.below⟩
  · unfold TimerQueue.getExpired
    rw [check_of h.size, ok_bind]
    dsimp only
    rw [check_of hdue, ok_bind, hrun, ok_bind, check_of hagree]
    rfl
  · obtain ⟨hin, hle⟩ := (hrest e).1 he
    obtain ⟨t, ht, htp, hte, hta⟩ := h.entry e hin
    refine ⟨t, ht, htp, hte, (hiff _).2 ⟨hta, fun f hf u _ heq => ?_⟩⟩
    obtain rfl := h.entry_eq hin ((hmem f).1 hf).1 (congrArg ActiveTimer.timer heq)
    exact not_lt_of_ge hle ((hmem e).1 hf).2
  · obtain ⟨hin, hne⟩ := (hiff p).1 hp
    obtain ⟨t, ht, hts, hte⟩ := h.active p hin
    refine ⟨t, ht, hts, (hrest _).2 ⟨hte, le_of_not_gt fun hlt => ?_⟩⟩
    exact hne _ ((hmem _).2 ⟨hte, hlt⟩) t ht (by rw [hts])
  · obtain ⟨e, he, rfl⟩ := List.mem_map.1 hb
    obtain ⟨t, ht, htp, -⟩ := h.entry e ((hmem e).1 he).1
    exact ⟨t, ht, htp⟩
  · have hin := (h.passed b u hb hu).resolve_left List.not_mem_nil
    by_cases hlt : (⟨u.expiration, b⟩ : Entry) < sentry
    · exact .inl (List.mem_map.2 ⟨_, (hmem _).2 ⟨hin, hlt⟩, rfl⟩)
    · exact .inr ((hrest _).2 ⟨hin, le_of_not_gt hlt⟩)
  · obtain ⟨f, hf, heq⟩ := List.mem_map.1 hb
    obtain ⟨hin, hle⟩ := (hrest e).1 he
    obtain rfl := h.entry_eq ((hmem f).1 hf).1 hin heq
    exact not_lt_of_ge hle ((hmem f).1 hf).2

/-- The batch is dissolved: its timers are inserted again or deleted. -/
theorem Rep.resetExpired {es : List Entry} (h : Rep q (es.map Entry.timer)) (now : Timestamp) :
    ∃ q', q.resetExpired now es = .ok q' ∧ Rep q' [] ∧ (∀ e ∈ q.timers, e ∈ q'.timers) ∧
      (∀ e ∈ q'.timers, e ∈ q.timers ∨ now ≤ e.time) ∧ q'.timerfd = q.timerfd ∧
      q'.handling = q.handling := by
  induction es generalizing q with
  | nil => exact ⟨q, rfl, h, fun _ he => he, fun _ he => .inl he, rfl, rfl⟩
  | cons e es ih =>
    have hmem : e.timer ∈ (e :: es).map Entry.timer := List.mem_map_of_mem List.mem_cons_self
    obtain ⟨t, ht, htp⟩ := h.alive e.timer hmem
    rw [TimerQueue.resetExpired, deref_of_heap ht, ok_bind]
    by_cases hagain : t.repeat_ ∧ ⟨e.timer, t.sequence⟩ ∉ q.cancelingTimers
    · have hrestart : t.restart now = { t with expiration := now + t.interval } := by
        unfold Timer.restart
        rw [if_pos hagain.1]
      have hstored := h.store_of_mem_batch hmem (t := t.restart now) (by rw [hrestart]; exact htp)
      obtain ⟨u, timers, activeTimers, hu, hins, hrep, htm⟩ := hstored.insert
      obtain rfl : t.restart now = u := Option.some.inj ((store_heap_self _).symm.trans hu)
      obtain ⟨q', hq', hrep', hkeep, hnew, hfd, hhandling⟩ := ih hrep
      rw [if_pos hagain, hins, ok_bind]
      refine ⟨q', hq', hrep', fun f hf => hkeep f ((htm f).2 (.inr hf)), fun f hf => ?_, hfd,
        hhandling⟩
      rcases hnew f hf with hf | hf
      · rcases (htm f).1 hf with rfl | hf
        · right
          rw [hrestart]
          exact Int.le_add_of_nonneg_right (Int.natCast_nonneg _)
        · exact .inl hf
      · exact .inr hf
    · obtain ⟨hdel, hrep⟩ := Rep.delete h
      obtain ⟨q', hq', hrest⟩ := ih hrep
      rw [if_neg hagain, hdel, ok_bind]
      exact ⟨q', hq', hrest⟩

theorem Rep.nextExpire (h : Rep q batch) :
    q.nextExpire = .ok (match q.timers.first with | none => 0 | some e => e.time) := by
  unfold TimerQueue.nextExpire
  cases hfirst : q.timers.first with
  | none => rfl
  | some e =>
    obtain ⟨t, ht, -, hte, -⟩ := h.entry e (OrdSet.first_eq_some.1 hfirst).1
    simp only
    rw [deref_of_heap ht, ok_bind, hte]
    rfl

/-! ## The machine -/

/-- The expired timers of a `handleRead` that is under way. -/
def expiring (q : TimerQueue) : List Addr :=
  match q.handling with
  | none => []
  | some h => h.expired.map Entry.timer

structure Inv (q : TimerQueue) : Prop where
  rep : Rep q q.expiring
  todo : ∀ h, q.handling = some h → ∀ e ∈ h.todo, e ∈ h.expired

theorem expiring_congr {q' : TimerQueue} (h : q'.handling = q.handling) : q'.expiring = q.expiring := by
  unfold expiring
  rw [h]

/-- The queue between two steps, when `handleRead` neither begins nor ends. -/
theorem Inv.of_rep {q' : TimerQueue} (h : Inv q) (hrep : Rep q' q.expiring)
    (hh : q'.handling = q.handling) : Inv q' := by
  refine ⟨?_, ?_⟩
  · rw [expiring_congr hh]
    exact hrep
  · rw [hh]
    exact h.todo

theorem inv_new : Inv new := ⟨rep_new, fun _ h => (nomatch h)⟩

theorem Rep.newTimer (h : Rep q batch) (hfree : q.heap a = none) (ha : a < UINTPTR_MAX) {t : Timer}
    (ht : t.passed = false) : Rep (q.store a (some t)) batch := by
  have hne : ∀ b u, q.heap b = some u → b ≠ a := by
    rintro b u hb rfl
    rw [hfree] at hb
    cases hb
  refine ⟨h.size, fun e he => ?_, fun p hp => ?_, fun b hb => ?_, fun b u hb hu => ?_, h.outside,
    h.nodup, fun b u hb => ?_⟩
  · obtain ⟨u, hu, hrest⟩ := h.entry e he
    exact ⟨u, by rw [store_heap_of_ne (hne _ u hu)]; exact hu, hrest⟩
  · obtain ⟨u, hu, hrest⟩ := h.active p hp
    exact ⟨u, by rw [store_heap_of_ne (hne _ u hu)]; exact hu, hrest⟩
  · obtain ⟨u, hu, hrest⟩ := h.alive b hb
    exact ⟨u, by rw [store_heap_of_ne (hne _ u hu)]; exact hu, hrest⟩
  · by_cases hba : b = a
    · subst hba
      obtain rfl : t = u := Option.some.inj ((store_heap_self _).symm.trans hb)
      rw [ht] at hu
      cases hu
    · rw [store_heap_of_ne hba] at hb
      exact h.passed b u hb hu
  · by_cases hba : b = a
    · subst hba
      exact ha
    · rw [store_heap_of_ne hba] at hb
      exact h.below b u hb

theorem step_newTimer (h : Inv q) {expiration : Timestamp} {interval : ℕ} {repeat_ : Bool}
    (hE : Env q (.newTimer a expiration interval repeat_)) :
    ∃ q', machine.step q (.newTimer a expiration interval repeat_) = .ok q' ∧ Inv q' ∧
      q'.timers = q.timers ∧ q'.timerfd = q.timerfd ∧ q'.handling = q.handling :=
  ⟨_, rfl, h.of_rep ((h.rep.newTimer hE.1 hE.2 rfl).congr rfl rfl rfl) rfl, rfl, rfl, rfl⟩

theorem step_addTimerInLoop (h : Inv q) (hE : Env q (.addTimerInLoop a)) :
    ∃ t q', q.heap a = some t ∧ machine.step q (.addTimerInLoop a) = .ok q' ∧ Inv q' ∧
      (∀ e, e ∈ q'.timers ↔ e = ⟨t.expiration, a⟩ ∨ e ∈ q.timers) ∧
      q'.timerfd = (if q.earliestChanged t.expiration then
        { q.timerfd with armed := some t.expiration, readable := false } else q.timerfd) ∧
      q'.handling = q.handling := by
  obtain ⟨t, ht, hnew⟩ : ∃ t, q.heap a = some t ∧ t.passed = false := by
    have : (q.heap a).any (fun t => !t.passed) = true := hE
    rw [Option.any_eq_true] at this
    obtain ⟨t, ht, hnew⟩ := this
    exact ⟨t, ht, by simpa using hnew⟩
  obtain ⟨q', hins, hrep, htm, hheap, hfd, hh⟩ := h.rep.addTimerInLoop ht hnew
  have hstep : machine.step q (.addTimerInLoop a) =
      (q.store a (some { t with passed := true })).addTimerInLoop a := by
    show TimerQueue.addTimerInLoop (q.store a ((q.heap a).map _)) a = _
    rw [ht]
    rfl
  rw [hstep]
  unfold TimerQueue.addTimerInLoop
  rw [hins, ok_bind]
  refine ⟨t, ?_⟩
  dsimp only
  rw [deref_of_heap hheap, ← hfd]
  by_cases hchanged : q.earliestChanged t.expiration
  · rw [if_pos hchanged, if_pos hchanged]
    exact ⟨_, ht, rfl, h.of_rep (hrep.congr rfl rfl rfl) hh, htm, rfl, hh⟩
  · rw [if_neg hchanged, if_neg hchanged]
    exact ⟨_, ht, rfl, h.of_rep hrep hh, htm, rfl, hh⟩

theorem step_cancelInLoop (h : Inv q) (p : ActiveTimer) :
    ∃ q', machine.step q (.cancelInLoop p) = .ok q' ∧ Inv q' ∧ (∀ e ∈ q'.timers, e ∈ q.timers) ∧
      q'.timerfd = q.timerfd ∧ q'.handling = q.handling := by
  obtain ⟨q', hq', hrep, hsub, hfd, hh⟩ := h.rep.cancelInLoop p
  exact ⟨q', hq', h.of_rep hrep hh, hsub, hfd, hh⟩

theorem step_beginHandleRead (h : Inv q) {now : Timestamp} (hE : Env q (.beginHandleRead now)) :
    ∃ q', machine.step q (.beginHandleRead now) = .ok q' ∧ Inv q' ∧
      ∃ expired, q'.handling = some ⟨expired, expired, now⟩ := by
  have hrep : Rep q.readTimerfd [] := by
    have := h.rep
    rw [expiring, hE.1] at this
    exact this.congr rfl rfl rfl
  obtain ⟨expired, timers, activeTimers, hrun, hrep'⟩ := hrep.getExpired now
  have hstep : machine.step q (.beginHandleRead now) =
      q.readTimerfd.getExpired now >>= fun r => .ok { r.2 with
        callingExpiredTimers := true, cancelingTimers := ∅, handling := some ⟨r.1, r.1, now⟩ } := rfl
  rw [hstep, hrun, ok_bind]
  refine ⟨_, rfl, ⟨hrep'.congr rfl rfl rfl, fun g hg e he => ?_⟩, expired, rfl⟩
  obtain rfl := Option.some.inj hg
  exact he

theorem step_run (h : Inv q) (hE : Env q .run) :
    ∃ q', machine.step q .run = .ok q' ∧ Inv q' ∧
      ∃ g g', q.handling = some g ∧ q'.handling = some g' ∧ g'.now = g.now := by
  obtain ⟨g, hg, htodo⟩ : ∃ g, q.handling = some g ∧ g.todo ≠ [] := by
    have : q.handling.any (fun g => g.todo ≠ []) = true := hE
    rw [Option.any_eq_true] at this
    simpa using this
  obtain ⟨expired, _ | ⟨e, todo⟩, now⟩ := g
  · exact absurd rfl htodo
  have hin : e ∈ expired := h.todo _ hg e List.mem_cons_self
  have hmem : e.timer ∈ q.expiring := by
    rw [expiring, hg]
    exact List.mem_map_of_mem hin
  obtain ⟨t, ht, -⟩ := h.rep.alive e.timer hmem
  have hstep : machine.step q .run = .ok { q with handling := some ⟨expired, todo, now⟩ } := by
    show TimerQueue.step q .run = _
    unfold TimerQueue.step
    rw [hg]
    simp only
    rw [deref_of_heap ht, ok_bind]
    rfl
  refine ⟨_, hstep, ⟨?_, fun g hg' f hf => ?_⟩, _, _, hg, rfl, rfl⟩
  · have hrep := h.rep
    rw [expiring, hg] at hrep
    exact hrep.congr rfl rfl rfl
  · obtain rfl := Option.some.inj hg'
    exact h.todo _ hg f (List.mem_cons_of_mem e hf)

/-- The end of `handleRead`: the descriptor is set to the first timer if that is valid. -/
theorem step_endHandleRead (h : Inv q) {g : Handling} (hg : q.handling = some g) :
    ∃ q', machine.step q .endHandleRead = .ok q' ∧ Inv q' ∧ q'.handling = none ∧
      (∀ e ∈ q.timers, e ∈ q'.timers) ∧ (∀ e ∈ q'.timers, e ∈ q.timers ∨ g.now ≤ e.time) ∧
      q'.timerfd = match q'.timers.first with
        | none => q.timerfd
        | some e => if 0 < e.time then { q.timerfd with armed := some e.time, readable := false }
          else q.timerfd := by
  obtain ⟨expired, todo, now⟩ := g
  have hrep : Rep { q with callingExpiredTimers := false, handling := none }
      (expired.map Entry.timer) := by
    have hrep := h.rep
    rw [expiring, hg] at hrep
    exact hrep.congr rfl rfl rfl
  obtain ⟨q', hq', hrep', hkeep, hnew, hfd, hh⟩ := hrep.resetExpired now
  have hstep : machine.step q .endHandleRead =
      ({ q with callingExpiredTimers := false, handling := none } : TimerQueue).reset expired now := by
    show TimerQueue.step q .endHandleRead = _
    unfold TimerQueue.step
    rw [hg]
  rw [hstep]
  unfold TimerQueue.reset
  rw [hq', ok_bind, hrep'.nextExpire, ok_bind]
  have hinv : ∀ q'' : TimerQueue, q''.timers = q'.timers → q''.activeTimers = q'.activeTimers →
      q''.heap = q'.heap → q''.handling = none → Inv q'' := by
    intro q'' h₁ h₂ h₃ h₄
    refine ⟨?_, fun g hg => by rw [h₄] at hg; cases hg⟩
    rw [expiring, h₄]
    exact hrep'.congr h₁ h₂ h₃
  refine ⟨_, rfl, ?_⟩
  cases hfirst : q'.timers.first with
  | none =>
    rw [if_neg (lt_irrefl _)]
    exact ⟨hinv q' rfl rfl rfl hh, hh, hkeep, hnew, by rw [hfirst]; exact hfd⟩
  | some e =>
    dsimp only
    by_cases hvalid : 0 < e.time
    · rw [if_pos hvalid]
      refine ⟨hinv _ rfl rfl rfl hh, hh, hkeep, hnew, ?_⟩
      rw [show (q'.resetTimerfd e.time).timers.first = some e from hfirst]
      dsimp only
      rw [if_pos hvalid, resetTimerfd, hfd]
    · rw [if_neg hvalid]
      refine ⟨hinv _ rfl rfl rfl hh, hh, hkeep, hnew, ?_⟩
      rw [hfirst]
      dsimp only
      rw [if_neg hvalid, hfd]

theorem step_inv (h : Inv q) {act : Action} (hE : Env q act) :
    ∃ q', machine.step q act = .ok q' ∧ Inv q' := by
  cases act with
  | newTimer timer expiration interval repeat_ =>
    obtain ⟨q', hq', hI, -⟩ := step_newTimer h hE
    exact ⟨q', hq', hI⟩
  | addTimerInLoop timer =>
    obtain ⟨t, q', -, hq', hI, -⟩ := step_addTimerInLoop h hE
    exact ⟨q', hq', hI⟩
  | cancelInLoop timer =>
    obtain ⟨q', hq', hI, -⟩ := step_cancelInLoop h timer
    exact ⟨q', hq', hI⟩
  | expire => exact ⟨_, rfl, h.of_rep (h.rep.congr rfl rfl rfl) rfl⟩
  | poll => exact ⟨_, rfl, h.of_rep (h.rep.congr rfl rfl rfl) rfl⟩
  | beginHandleRead now =>
    obtain ⟨q', hq', hI, -⟩ := step_beginHandleRead h hE
    exact ⟨q', hq', hI⟩
  | run =>
    obtain ⟨q', hq', hI, -⟩ := step_run h hE
    exact ⟨q', hq', hI⟩
  | endHandleRead =>
    obtain ⟨g, hg, -⟩ := (Option.any_eq_true _ _).1 (show q.handling.any _ = true from hE)
    obtain ⟨q', hq', hI, -⟩ := step_endHandleRead h hg
    exact ⟨q', hq', hI⟩

/-- The two sets hold the same objects under their current expirations; these and the expired batch,
which is empty outside `handleRead`, are the timers that were passed to the queue and not deleted. -/
structure Owns (q : TimerQueue) : Prop where
  same : ∀ a s, ⟨a, s⟩ ∈ q.activeTimers ↔
    ∃ e ∈ q.timers, e.timer = a ∧ ∃ t, q.heap a = some t ∧ t.sequence = s
  keys : ∀ e ∈ q.timers, ∃ t, q.heap e.timer = some t ∧ t.expiration = e.time
  owned : ∀ a, (∃ t, q.heap a = some t ∧ t.passed) ↔ (∃ e ∈ q.timers, e.timer = a) ∨ a ∈ q.expiring
  apart : ∀ e ∈ q.timers, e.timer ∉ q.expiring

theorem Inv.owns (h : Inv q) : Owns q := by
  refine ⟨fun a s => ⟨fun hp => ?_, ?_⟩, fun e he => ?_, fun a => ⟨?_, ?_⟩, h.rep.outside⟩
  · obtain ⟨t, ht, hts, hte⟩ := h.rep.active _ hp
    exact ⟨_, hte, rfl, t, ht, hts⟩
  · rintro ⟨e, he, rfl, t, ht, rfl⟩
    obtain ⟨u, hu, -, -, hua⟩ := h.rep.entry e he
    obtain rfl : t = u := Option.some.inj (ht.symm.trans hu)
    exact hua
  · obtain ⟨t, ht, -, hte, -⟩ := h.rep.entry e he
    exact ⟨t, ht, hte⟩
  · rintro ⟨t, ht, htp⟩
    rcases h.rep.passed a t ht htp with hb | hin
    · exact .inr hb
    · exact .inl ⟨_, hin, rfl⟩
  · rintro (⟨e, he, rfl⟩ | hb)
    · obtain ⟨t, ht, htp, -⟩ := h.rep.entry e he
      exact ⟨t, ht, htp⟩
    · exact h.rep.alive a hb

/-- In every run the assertions hold, no object is used or deleted after it was deleted, and the
queue owns exactly its timers. -/
theorem queue_owns_its_timers (as : List Action) (hE : machine.Along Env new as) :
    (∃ q, machine.run new as = .ok q) ∧ machine.Always Owns new as := by
  obtain ⟨hr, hI⟩ := Machine.run_ok_always_of_along (fun _ _ h hE => step_inv h hE) inv_new hE
  exact ⟨hr, hI.mono fun _ h => h.owns⟩

/-- Two timers expire together; the callback of the first cancels the second, which repeats, and
adds a third one. -/
def cancelInCallback : List Action :=
  [.newTimer 5 100 0 false, .addTimerInLoop 5, .newTimer 6 90 10 true, .addTimerInLoop 6, .expire,
    .poll, .beginHandleRead 120, .run, .cancelInLoop ⟨6, 2⟩, .newTimer 7 300 0 false,
    .addTimerInLoop 7, .run, .cancelInLoop ⟨5, 1⟩, .endHandleRead, .newTimer 5 250 0 false,
    .cancelInLoop ⟨5, 1⟩, .addTimerInLoop 5]

theorem queue_owns_its_timers_cancelInCallback :
    machine.Always Owns new cancelInCallback ∧ (machine.run new cancelInCallback).toOption.any
      (fun q => q.timers.toList = [⟨250, 5⟩, ⟨300, 7⟩] ∧
        q.activeTimers.toList = [⟨5, 4⟩, ⟨7, 3⟩]) :=
  ⟨(queue_owns_its_timers cancelInCallback (by decide +kernel)).2, by decide +kernel⟩

end TimerQueue

end Reactor
