import Reactor.TimerQueue.Ownership

/-!
# Cancelled timers

`cancelInLoop` deletes a timer that is active and notes one that is not, in case it belongs to the
expired batch; `reset` then does not insert it again.  Two places are out of its reach: a timer whose
`addTimerInLoop` is still queued is not noted at all, and one of the batch whose callback has not run
yet is noted, but the loop over the batch does not look at the notes.

* `cancelled_never_fires`: in runs in which no timer is cancelled in one of these places, no callback
  is started after its timer was cancelled.
-/

namespace Reactor

namespace TimerQueue

/-- The timer whose callback is started next. -/
def starts (q : TimerQueue) : Option ActiveTimer :=
  match q.handling with
  | some ⟨_, e :: _, _⟩ => (q.heap e.timer).map fun t => ⟨e.timer, t.sequence⟩
  | _ => none

/-- The queue, and the timers for which `cancelInLoop` has run. -/
structure Cancelling where
  queue : TimerQueue
  cancelled : List ActiveTimer

namespace Cancelling

def init : Cancelling := ⟨new, []⟩

/-- A `TimerId` has the sequence number of a timer that was created. -/
def noteCancel (s : Cancelling) : Action → List ActiveTimer
  | .cancelInLoop id => if id.sequence ≤ s.queue.numCreated then id :: s.cancelled else s.cancelled
  | _ => s.cancelled

def step (s : Cancelling) (a : Action) : Except Fault Cancelling :=
  return ⟨← s.queue.step a, s.noteCancel a⟩

def machine : Machine Cancelling Action Fault := ⟨step⟩

def Env (s : Cancelling) (a : Action) : Prop := TimerQueue.Env s.queue a

instance (s : Cancelling) (a : Action) : Decidable (Env s a) :=
  inferInstanceAs (Decidable (TimerQueue.Env s.queue a))

/-- No callback is started whose timer was cancelled. -/
def NeverFires (s : Cancelling) : Action → Prop
  | .run => ∀ id ∈ s.queue.starts, id ∉ s.cancelled
  | _ => True

instance (s : Cancelling) : ∀ a, Decidable (NeverFires s a)
  | .run => inferInstanceAs (Decidable (∀ id ∈ s.queue.starts, id ∉ s.cancelled))
  | .newTimer _ _ _ _ | .addTimerInLoop _ | .cancelInLoop _ | .expire | .poll | .beginHandleRead _
  | .endHandleRead => isTrue trivial

/-- The callback of the expired timer at `a` is still to run. -/
def Awaited (q : TimerQueue) (a : Addr) : Prop := ∃ g ∈ q.handling, a ∈ g.todo.map Entry.timer

instance (q : TimerQueue) (a : Addr) : Decidable (Awaited q a) :=
  inferInstanceAs (Decidable (∃ g ∈ q.handling, a ∈ g.todo.map Entry.timer))

/-- The timer, if it is alive, was passed to the queue and does not wait for its callback. -/
def InTime (s : Cancelling) : Action → Prop
  | .cancelInLoop id => ∀ t ∈ s.queue.heap id.timer, t.sequence = id.sequence →
      t.passed = true ∧ ¬ Awaited s.queue id.timer
  | _ => True

instance (s : Cancelling) : ∀ a, Decidable (InTime s a)
  | .cancelInLoop id => inferInstanceAs (Decidable (∀ t ∈ s.queue.heap id.timer,
      t.sequence = id.sequence → t.passed = true ∧ ¬ Awaited s.queue id.timer))
  | .newTimer _ _ _ _ | .addTimerInLoop _ | .run | .expire | .poll | .beginHandleRead _
  | .endHandleRead => isTrue trivial

end Cancelling

/-! ## What the operations leave alone -/

/-- Only the two sets and the descriptor differ. -/
structure Frame (q q' : TimerQueue) : Prop where
  heap : q'.heap = q.heap
  cancelingTimers : q'.cancelingTimers = q.cancelingTimers
  callingExpiredTimers : q'.callingExpiredTimers = q.callingExpiredTimers
  handling : q'.handling = q.handling
  numCreated : q'.numCreated = q.numCreated

theorem Frame.refl (q : TimerQueue) : Frame q q := ⟨rfl, rfl, rfl, rfl, rfl⟩

theorem Frame.trans {q₁ q₂ q₃ : TimerQueue} (h : Frame q₁ q₂) (h' : Frame q₂ q₃) : Frame q₁ q₃ :=
  ⟨h'.heap.trans h.heap, h'.cancelingTimers.trans h.cancelingTimers,
    h'.callingExpiredTimers.trans h.callingExpiredTimers, h'.handling.trans h.handling,
    h'.numCreated.trans h.numCreated⟩

variable {q q' : TimerQueue} {a : Addr} {now : Timestamp}

theorem frame_insert {changed : Bool} (h : q.insert a = .ok (changed, q')) : Frame q q' := by
  unfold insert at h
  obtain ⟨-, -, h⟩ := bind_eq_ok.1 h
  obtain ⟨t, -, h⟩ := bind_eq_ok.1 h
  obtain ⟨-, -, h⟩ := bind_eq_ok.1 h
  obtain ⟨-, -, h⟩ := bind_eq_ok.1 h
  obtain ⟨-, -, h⟩ := bind_eq_ok.1 h
  obtain ⟨-, rfl⟩ := Prod.mk.inj (Except.ok.inj h)
  exact ⟨rfl, rfl, rfl, rfl, rfl⟩

theorem frame_addTimerInLoop (h : q.addTimerInLoop a = .ok q') : Frame q q' := by
  unfold addTimerInLoop at h
  obtain ⟨⟨changed, q₁⟩, hins, h⟩ := bind_eq_ok.1 h
  have hframe := frame_insert hins
  dsimp only at h
  split_ifs at h
  · obtain ⟨t, -, h⟩ := bind_eq_ok.1 h
    obtain rfl := Except.ok.inj h
    exact hframe.trans ⟨rfl, rfl, rfl, rfl, rfl⟩
  · obtain rfl := Except.ok.inj h
    exact hframe

theorem frame_eraseActive {es : List Entry} (h : q.eraseActive es = .ok q') : Frame q q' := by
  induction es generalizing q with
  | nil =>
    obtain rfl := Except.ok.inj h
    exact Frame.refl _
  | cons e es ih =>
    rw [eraseActive] at h
    obtain ⟨t, -, h⟩ := bind_eq_ok.1 h
    obtain ⟨-, -, h⟩ := bind_eq_ok.1 h
    have hrest := ih h
    exact ⟨hrest.heap, hrest.cancelingTimers, hrest.callingExpiredTimers, hrest.handling,
      hrest.numCreated⟩

theorem frame_getExpired {expired : List Entry} (h : q.getExpired now = .ok (expired, q')) :
    Frame q q' := by
  unfold getExpired at h
  obtain ⟨-, -, h⟩ := bind_eq_ok.1 h
  obtain ⟨-, -, h⟩ := bind_eq_ok.1 h
  obtain ⟨q₁, herase, h⟩ := bind_eq_ok.1 h
  obtain ⟨-, -, h⟩ := bind_eq_ok.1 h
  obtain ⟨-, rfl⟩ := Prod.mk.inj (Except.ok.inj h)
  have hrest := frame_eraseActive herase
  exact ⟨hrest.heap, hrest.cancelingTimers, hrest.callingExpiredTimers, hrest.handling,
    hrest.numCreated⟩

theorem heap_of_deref {t : Timer} (h : q.deref a = .ok t) : q.heap a = some t := by
  unfold deref at h
  cases hheap : q.heap a with
  | none =>
    rw [hheap] at h
    cases h
  | some u =>
    rw [hheap] at h
    rw [Except.ok.inj h]

theorem restart_sequence (t : Timer) (now : Timestamp) : (t.restart now).sequence = t.sequence := by
  unfold Timer.restart
  split_ifs <;> rfl

theorem delete_eq_ok (h : q.delete a = .ok q') : q' = q.store a none := by
  unfold delete at h
  obtain ⟨-, -, h⟩ := bind_eq_ok.1 h
  exact (Except.ok.inj h).symm

/-- What is alive after `reset` was alive before it, and was not to be cancelled. -/
theorem resetExpired_heap {es : List Entry} (h : q.resetExpired now es = .ok q') {t' : Timer}
    (ht' : q'.heap a = some t') :
    ∃ t, q.heap a = some t ∧ t.sequence = t'.sequence ∧
      (a ∈ es.map Entry.timer → ⟨a, t.sequence⟩ ∉ q.cancelingTimers) := by
  induction es generalizing q with
  | nil =>
    obtain rfl := Except.ok.inj h
    exact ⟨t', ht', rfl, fun hmem => absurd hmem List.not_mem_nil⟩
  | cons e es ih =>
    rw [resetExpired] at h
    obtain ⟨t, ht, h⟩ := bind_eq_ok.1 h
    by_cases hagain : t.repeat_ ∧ ⟨e.timer, t.sequence⟩ ∉ q.cancelingTimers
    · rw [if_pos hagain] at h
      obtain ⟨⟨changed, q₁⟩, hins, h⟩ := bind_eq_ok.1 h
      have hframe := frame_insert hins
      obtain ⟨u, hu, hseq, hnot⟩ := ih h
      rw [hframe.heap] at hu
      rw [hframe.cancelingTimers] at hnot
      by_cases hae : a = e.timer
      · subst hae
        rw [store_heap_self] at hu
        obtain rfl := Option.some.inj hu
        refine ⟨t, heap_of_deref ht, ?_, fun _ => hagain.2⟩
        rw [← hseq, restart_sequence]
      · rw [store_heap_of_ne hae] at hu
        refine ⟨u, hu, hseq, fun hmem => hnot ?_⟩
        rw [List.map_cons] at hmem
        exact (List.mem_cons.1 hmem).resolve_left hae
    · rw [if_neg hagain] at h
      obtain ⟨q₁, hdel, h⟩ := bind_eq_ok.1 h
      obtain rfl := delete_eq_ok hdel
      obtain ⟨u, hu, hseq, hnot⟩ := ih h
      have hae : a ≠ e.timer := by
        rintro rfl
        rw [store_heap_self] at hu
        cases hu
      rw [store_heap_of_ne hae] at hu
      refine ⟨u, hu, hseq, fun hmem => hnot ?_⟩
      rw [List.map_cons] at hmem
      exact (List.mem_cons.1 hmem).resolve_left hae

/-- The rest of the queue is as before. -/
theorem resetExpired_same {es : List Entry} (h : q.resetExpired now es = .ok q') :
    q'.callingExpiredTimers = q.callingExpiredTimers ∧ q'.handling = q.handling ∧
      q'.numCreated = q.numCreated := by
  induction es generalizing q with
  | nil =>
    obtain rfl := Except.ok.inj h
    exact ⟨rfl, rfl, rfl⟩
  | cons e es ih =>
    rw [resetExpired] at h
    obtain ⟨t, -, h⟩ := bind_eq_ok.1 h
    split_ifs at h
    · obtain ⟨⟨changed, q₁⟩, hins, h⟩ := bind_eq_ok.1 h
      have hframe := frame_insert hins
      obtain ⟨hcall, hhandling, hnum⟩ := ih h
      exact ⟨hcall.trans hframe.callingExpiredTimers, hhandling.trans hframe.handling,
        hnum.trans hframe.numCreated⟩
    · obtain ⟨q₁, hdel, h⟩ := bind_eq_ok.1 h
      obtain rfl := delete_eq_ok hdel
      exact ih (q := q.store e.timer none) h

/-- The end of `handleRead` is the loop of `reset`, and at most the descriptor is set after it. -/
theorem frame_reset {es : List Entry} (h : q.reset es now = .ok q') :
    ∃ q₁, q.resetExpired now es = .ok q₁ ∧ Frame q₁ q' := by
  unfold reset at h
  obtain ⟨q₁, hloop, h⟩ := bind_eq_ok.1 h
  obtain ⟨next, -, h⟩ := bind_eq_ok.1 h
  refine ⟨q₁, hloop, ?_⟩
  obtain rfl := Except.ok.inj h
  split_ifs
  · exact ⟨rfl, rfl, rfl, rfl, rfl⟩
  · exact Frame.refl _

/-- What `cancelInLoop` does with an active timer, with another one during `handleRead`, and
otherwise. -/
theorem cancelInLoop_cases {id : ActiveTimer} (h : q.cancelInLoop id = .ok q') :
    (id ∈ q.activeTimers ∧ q'.heap = Function.update q.heap id.timer none ∧
      q'.cancelingTimers = q.cancelingTimers ∧ q'.callingExpiredTimers = q.callingExpiredTimers ∧
      q'.handling = q.handling ∧ q'.numCreated = q.numCreated) ∨
    (id ∉ q.activeTimers ∧ q.callingExpiredTimers = true ∧
      q' = { q with cancelingTimers := (q.cancelingTimers.insert id).1 }) ∨
    (id ∉ q.activeTimers ∧ q.callingExpiredTimers = false ∧ q' = q) := by
  unfold cancelInLoop at h
  obtain ⟨-, -, h⟩ := bind_eq_ok.1 h
  obtain ⟨q₁, hcancel, h⟩ := bind_eq_ok.1 h
  obtain ⟨-, -, h⟩ := bind_eq_ok.1 h
  obtain rfl := Except.ok.inj h
  unfold cancelTimer at hcancel
  split_ifs at hcancel with hmem hcalling
  · left
    unfold eraseTimer at hcancel
    obtain ⟨t, -, hcancel⟩ := bind_eq_ok.1 hcancel
    obtain ⟨-, -, hcancel⟩ := bind_eq_ok.1 hcancel
    obtain ⟨q₂, hdel, hcancel⟩ := bind_eq_ok.1 hcancel
    obtain rfl := delete_eq_ok hdel
    obtain rfl := Except.ok.inj hcancel
    exact ⟨hmem, rfl, rfl, rfl, rfl, rfl⟩
  · exact Or.inr (Or.inl ⟨hmem, hcalling, (Except.ok.inj hcancel).symm⟩)
  · exact Or.inr (Or.inr ⟨hmem, by simpa using hcalling, (Except.ok.inj hcancel).symm⟩)

/-! ## Runs -/

namespace Cancelling

/-- The timer has run its callback and is deleted at the end of `handleRead`. -/
structure Stopped (q : TimerQueue) (id : ActiveTimer) : Prop where
  expiring : id.timer ∈ q.expiring
  ran : ¬ Awaited q id.timer
  noted : id ∈ q.cancelingTimers

/-- A cancelled timer is dead or stopped. -/
structure Inv (s : Cancelling) : Prop where
  inv : s.queue.Inv
  calling : s.queue.callingExpiredTimers = s.queue.handling.isSome
  created : ∀ id ∈ s.cancelled, id.sequence ≤ s.queue.numCreated
  stopped : ∀ id ∈ s.cancelled, ∀ t, s.queue.heap id.timer = some t → t.sequence = id.sequence →
    Stopped s.queue id

theorem inv_init : Inv init :=
  ⟨inv_new, rfl, fun _ h => absurd h List.not_mem_nil, fun _ h => absurd h List.not_mem_nil⟩

variable {s : Cancelling}

theorem Inv.neverFires (h : Inv s) (act : Action) : NeverFires s act := by
  cases act with
  | run =>
    intro id hid hmem
    unfold starts at hid
    rcases hg : s.queue.handling with _ | ⟨expired, _ | ⟨e, todo⟩, now⟩
    · rw [hg] at hid
      cases hid
    · rw [hg] at hid
      cases hid
    · rw [hg] at hid
      obtain ⟨t, ht, rfl⟩ := Option.map_eq_some_iff.1 hid
      refine (h.stopped _ hmem t ht rfl).ran ⟨_, hg, ?_⟩
      exact List.mem_map_of_mem List.mem_cons_self
  | newTimer | addTimerInLoop | cancelInLoop | expire | poll | beginHandleRead | endHandleRead => trivial

/-- Outside `handleRead` a cancelled timer is dead. -/
theorem Inv.dead (h : Inv s) (hidle : s.queue.handling = none) {id : ActiveTimer}
    (hid : id ∈ s.cancelled) {t : Timer} (ht : s.queue.heap id.timer = some t) :
    t.sequence ≠ id.sequence := by
  intro hseq
  have hin := (h.stopped id hid t ht hseq).expiring
  rw [expiring, hidle] at hin
  exact absurd hin List.not_mem_nil

theorem awaited_congr {q q' : TimerQueue} (h : q'.handling = q.handling) (a : Addr) :
    Awaited q' a ↔ Awaited q a := by
  unfold Awaited
  rw [h]

/-- A step that neither begins nor ends `handleRead` and keeps what is to be cancelled. -/
theorem Stopped.of_handling {q q' : TimerQueue} {id : ActiveTimer} (h : Stopped q id)
    (hh : q'.handling = q.handling) (hnoted : id ∈ q'.cancelingTimers) : Stopped q' id :=
  ⟨by rw [expiring_congr hh]; exact h.expiring, by rw [awaited_congr hh]; exact h.ran, hnoted⟩

theorem Inv.newTimer (h : Inv s) {a : Addr} {expiration : Timestamp} {interval : ℕ} {repeat_ : Bool}
    (hE : Env s (.newTimer a expiration interval repeat_)) :
    ∃ s', machine.step s (.newTimer a expiration interval repeat_) = .ok s' ∧ Inv s' := by
  obtain ⟨q', hq', hI, -⟩ := step_newTimer h.inv hE
  obtain rfl := Except.ok.inj hq'
  refine ⟨_, rfl, hI, h.calling, fun id hid => (h.created id hid).trans (Nat.le_succ _),
    fun id hid t ht hseq => ?_⟩
  dsimp only at ht
  by_cases hia : id.timer = a
  · -- the new timer has a number of its own
    subst hia
    rw [store_heap_self] at ht
    obtain rfl := Option.some.inj ht
    have hle := h.created id hid
    dsimp only at hseq
    omega
  · rw [store_heap_of_ne hia] at ht
    exact (h.stopped id hid t ht hseq).of_handling rfl (h.stopped id hid t ht hseq).noted

theorem Inv.addTimerInLoop (h : Inv s) {a : Addr} (hE : Env s (.addTimerInLoop a)) :
    ∃ s', machine.step s (.addTimerInLoop a) = .ok s' ∧ Inv s' := by
  obtain ⟨t₀, q', ht₀, hq', hI, -, -, hh⟩ := step_addTimerInLoop h.inv hE
  have hstep : machine.step s (.addTimerInLoop a) = .ok ⟨q', s.cancelled⟩ := by
    show s.step (.addTimerInLoop a) = _
    rw [step, show s.queue.step (.addTimerInLoop a) = .ok q' from hq']
    rfl
  have hframe := frame_addTimerInLoop (show TimerQueue.addTimerInLoop _ a = .ok q' from hq')
  refine ⟨_, hstep, hI, ?_, fun id hid => ?_, fun id hid t ht hseq => ?_⟩
  · dsimp only
    rw [hframe.callingExpiredTimers, hh]
    exact h.calling
  · dsimp only
    rw [hframe.numCreated]
    exact h.created id hid
  · dsimp only at ht ⊢
    rw [hframe.heap] at ht
    obtain ⟨u, hu, huseq⟩ : ∃ u, s.queue.heap id.timer = some u ∧ u.sequence = t.sequence := by
      by_cases hia : id.timer = a
      · subst hia
        rw [store_heap_self, ht₀] at ht
        obtain rfl := Option.some.inj ht
        exact ⟨t₀, ht₀, rfl⟩
      · rw [store_heap_of_ne hia] at ht
        exact ⟨t, ht, rfl⟩
    have hstop := h.stopped id hid u hu (huseq.trans hseq)
    refine hstop.of_handling hh ?_
    rw [hframe.cancelingTimers]
    exact hstop.noted

theorem step_ok {act : Action} {q' : TimerQueue} (h : s.queue.step act = .ok q') :
    machine.step s act = .ok ⟨q', s.noteCancel act⟩ := by
  show s.step act = _
  rw [step, h]
  rfl

/-- The timer that is cancelled in time is dead after it, or stopped. -/
theorem Inv.stopped_cancel (h : Inv s) {id : ActiveTimer} (hC : InTime s (.cancelInLoop id))
    {q' : TimerQueue} (hq' : s.queue.cancelInLoop id = .ok q') {t : Timer}
    (ht : q'.heap id.timer = some t) (hseq : t.sequence = id.sequence) : Stopped q' id := by
  rcases cancelInLoop_cases hq' with ⟨-, hheap, -⟩ | ⟨hnot, hcalling, rfl⟩ | ⟨hnot, hcalling, rfl⟩
  · rw [hheap, Function.update_self] at ht
    cases ht
  · obtain ⟨hpassed, hran⟩ := hC t ht hseq
    have hin : id.timer ∈ s.queue.expiring := by
      refine (h.inv.rep.passed id.timer t ht hpassed).resolve_right fun hmem => hnot ?_
      obtain ⟨u, hu, -, -, hactive⟩ := h.inv.rep.entry _ hmem
      obtain rfl : t = u := Option.some.inj (ht.symm.trans hu)
      rw [hseq] at hactive
      exact hactive
    exact ⟨hin, hran, OrdSet.mem_insert.2 (Or.inl rfl)⟩
  · -- outside `handleRead` a timer that is alive and was passed is active
    obtain ⟨hpassed, -⟩ := hC t ht hseq
    have hidle : s.queue.handling = none := by
      have hsome := h.calling
      rw [hcalling] at hsome
      simpa using hsome.symm
    have hrep := h.inv.rep
    rw [expiring, hidle] at hrep
    have hmem := (hrep.passed id.timer t ht hpassed).resolve_left List.not_mem_nil
    obtain ⟨u, hu, -, -, hactive⟩ := hrep.entry _ hmem
    obtain rfl : t = u := Option.some.inj (ht.symm.trans hu)
    rw [hseq] at hactive
    exact absurd hactive hnot

/-- A timer that was cancelled before stays dead or stopped when another one is cancelled. -/
theorem Inv.stopped_of_cancelInLoop (h : Inv s) {id id' : ActiveTimer} {q' : TimerQueue}
    (hq' : s.queue.cancelInLoop id = .ok q') (hid' : id' ∈ s.cancelled) {t : Timer}
    (ht : q'.heap id'.timer = some t) (hseq : t.sequence = id'.sequence) : Stopped q' id' := by
  rcases cancelInLoop_cases hq' with ⟨-, hheap, hnoted, -, hh, -⟩ | ⟨-, -, rfl⟩ | ⟨-, -, rfl⟩
  · rw [hheap] at ht
    have hne : id'.timer ≠ id.timer := by
      intro heq
      rw [heq, Function.update_self] at ht
      cases ht
    rw [Function.update_of_ne hne] at ht
    have hstop := h.stopped id' hid' t ht hseq
    exact hstop.of_handling hh (by rw [hnoted]; exact hstop.noted)
  · have hstop := h.stopped id' hid' t ht hseq
    exact hstop.of_handling rfl (OrdSet.mem_insert.2 (Or.inr hstop.noted))
  · exact h.stopped id' hid' t ht hseq

theorem Inv.cancelInLoop (h : Inv s) {id : ActiveTimer} (hC : InTime s (.cancelInLoop id)) :
    ∃ s', machine.step s (.cancelInLoop id) = .ok s' ∧ Inv s' := by
  obtain ⟨q', hq', hI, -, -, hh⟩ := step_cancelInLoop h.inv id
  have hcancel : s.queue.cancelInLoop id = .ok q' := hq'
  obtain ⟨hcall, hnum⟩ : q'.callingExpiredTimers = s.queue.callingExpiredTimers ∧
      q'.numCreated = s.queue.numCreated := by
    rcases cancelInLoop_cases hcancel with ⟨-, -, -, hcall, -, hnum⟩ | ⟨-, -, rfl⟩ | ⟨-, -, rfl⟩
    · exact ⟨hcall, hnum⟩
    · exact ⟨rfl, rfl⟩
    · exact ⟨rfl, rfl⟩
  have hmem : ∀ id' ∈ s.noteCancel (.cancelInLoop id), id' ∈ s.cancelled ∨
      id' = id ∧ id.sequence ≤ s.queue.numCreated := by
    intro id' hid'
    rw [noteCancel] at hid'
    split_ifs at hid' with hle
    · rcases List.mem_cons.1 hid' with rfl | hid'
      · exact Or.inr ⟨rfl, hle⟩
      · exact Or.inl hid'
    · exact Or.inl hid'
  refine ⟨_, step_ok hq', hI, ?_, fun id' hid' => ?_, fun id' hid' t ht hseq => ?_⟩
  · dsimp only
    rw [hcall, hh]
    exact h.calling
  · dsimp only
    rw [hnum]
    rcases hmem id' hid' with hold | ⟨rfl, hle⟩
    · exact h.created id' hold
    · exact hle
  · rcases hmem id' hid' with hold | ⟨rfl, -⟩
    · exact h.stopped_of_cancelInLoop hcancel hold ht hseq
    · exact h.stopped_cancel hC hcancel ht hseq

theorem Inv.beginHandleRead (h : Inv s) {now : Timestamp} (hE : Env s (.beginHandleRead now)) :
    ∃ s', machine.step s (.beginHandleRead now) = .ok s' ∧ Inv s' := by
  obtain ⟨q', hq', hI, -⟩ := step_beginHandleRead h.inv hE
  obtain ⟨⟨expired, q₁⟩, hexp, hrest⟩ := bind_eq_ok.1
    (show (s.queue.readTimerfd.getExpired now >>= fun r => _) = .ok q' from hq')
  have hframe := frame_getExpired hexp
  obtain rfl := Except.ok.inj hrest
  refine ⟨_, step_ok hq', hI, rfl, fun id hid => ?_, fun id hid t ht hseq => ?_⟩
  · dsimp only
    rw [hframe.numCreated]
    exact h.created id hid
  · dsimp only at ht
    rw [hframe.heap] at ht
    exact absurd hseq (h.dead hE.1 hid ht)

theorem Inv.run (h : Inv s) (hE : Env s .run) :
    ∃ s', machine.step s .run = .ok s' ∧ Inv s' := by
  obtain ⟨q', hq', hI, -⟩ := step_run h.inv hE
  have hstep : s.queue.step .run = .ok q' := hq'
  rw [TimerQueue.step.eq_def] at hstep
  dsimp only at hstep
  rcases hg : s.queue.handling with _ | ⟨expired, _ | ⟨e, todo⟩, now⟩
  · rw [hg] at hstep
    obtain rfl := Except.ok.inj hstep
    exact ⟨_, step_ok hq', h⟩
  · rw [hg] at hstep
    obtain rfl := Except.ok.inj hstep
    exact ⟨_, step_ok hq', h⟩
  · rw [hg] at hstep
    obtain ⟨t₀, -, hstep⟩ := bind_eq_ok.1 hstep
    obtain rfl := Except.ok.inj hstep
    refine ⟨_, step_ok hq', hI, ?_, h.created, fun id hid t ht hseq => ?_⟩
    · have hcalling := h.calling
      rw [hg] at hcalling
      exact hcalling
    · have hstop := h.stopped id hid t ht hseq
      refine ⟨?_, ?_, hstop.noted⟩
      · have hin := hstop.expiring
        rw [expiring, hg] at hin
        exact hin
      · rintro ⟨g, hg', hmem⟩
        obtain rfl := Option.some.inj hg'
        exact hstop.ran ⟨_, hg, by rw [List.map_cons]; exact List.mem_cons_of_mem _ hmem⟩

theorem Inv.endHandleRead (h : Inv s) (hE : Env s .endHandleRead) :
    ∃ s', machine.step s .endHandleRead = .ok s' ∧ Inv s' := by
  obtain ⟨g, hg, -⟩ := (Option.any_eq_true _ _).1 (show s.queue.handling.any _ = true from hE)
  obtain ⟨q', hq', hI, hnone, -⟩ := step_endHandleRead h.inv hg
  have hstep : s.queue.step .endHandleRead = .ok q' := hq'
  unfold TimerQueue.step at hstep
  rw [hg] at hstep
  obtain ⟨q₁, hloop, hframe⟩ := frame_reset hstep
  obtain ⟨hcall, -, hnum⟩ := resetExpired_same hloop
  refine ⟨_, step_ok hq', hI, ?_, fun id hid => ?_, fun id hid t ht hseq => ?_⟩
  · dsimp only
    rw [hframe.callingExpiredTimers, hcall, hnone]
    rfl
  · dsimp only
    rw [hframe.numCreated, hnum]
    exact h.created id hid
  · dsimp only at ht
    rw [hframe.heap] at ht
    obtain ⟨u, hu, huseq, hnot⟩ := resetExpired_heap hloop ht
    have hstop := h.stopped id hid u hu (huseq.trans hseq)
    have hin := hstop.expiring
    rw [expiring, hg] at hin
    have hnoted := hstop.noted
    refine absurd hnoted ?_
    have hnot' := hnot hin
    rw [huseq, hseq] at hnot'
    exact hnot'

theorem Inv.step (h : Inv s) {act : Action} (hE : Env s act) (hC : InTime s act) :
    ∃ s', machine.step s act = .ok s' ∧ Inv s' := by
  cases act with
  | newTimer timer expiration interval repeat_ => exact h.newTimer hE
  | addTimerInLoop timer => exact h.addTimerInLoop hE
  | cancelInLoop id => exact h.cancelInLoop hC
  | expire | poll =>
    refine ⟨_, rfl, h.inv.of_rep (h.inv.rep.congr rfl rfl rfl) rfl, h.calling, h.created, ?_⟩
    exact fun id hid t ht hseq =>
      (h.stopped id hid t ht hseq).of_handling rfl (h.stopped id hid t ht hseq).noted
  | beginHandleRead now => exact h.beginHandleRead hE
  | run => exact h.run hE
  | endHandleRead => exact h.endHandleRead hE

/-- In runs in which every timer that is cancelled was passed to the queue and does not wait for its
callback in the expired batch, no callback is started after its timer was cancelled. -/
theorem cancelled_never_fires (as : List Action) (hE : machine.Along Env init as)
    (hC : machine.Along InTime init as) :
    (∃ s, machine.run init as = .ok s) ∧ machine.Along NeverFires init as := by
  have hboth := Machine.along_and.2 ⟨hE, hC⟩
  have hstep : ∀ s a, Inv s → Env s a ∧ InTime s a → ∃ s', machine.step s a = .ok s' ∧ Inv s' :=
    fun s a hs ha => hs.step ha.1 ha.2
  constructor
  · obtain ⟨s, hs, -⟩ := Machine.run_ok_of_along hstep inv_init hboth
    exact ⟨s, hs⟩
  · exact Machine.along_of_along (Machine.step_inv_of_exists hstep)
      (fun s a hs _ => hs.neverFires a) inv_init hboth

/-- A repeating timer cancels itself in its callback. -/
theorem cancelled_never_fires_itself :
    machine.Along NeverFires init [.newTimer 5 100 10 true, .addTimerInLoop 5, .expire, .poll,
      .beginHandleRead 120, .run, .cancelInLoop ⟨5, 1⟩, .endHandleRead, .newTimer 5 130 0 false,
      .addTimerInLoop 5, .expire, .poll, .beginHandleRead 140, .run] :=
  (cancelled_never_fires _ (by decide +kernel) (by decide +kernel)).2

/-- Of two timers that expire together the first cancels the second. -/
theorem cancelled_fires_in_batch :
    ¬ ∀ as : List Action, machine.Along Env init as → machine.Along NeverFires init as := by
  intro h
  have hrun := h [.newTimer 5 100 0 false, .addTimerInLoop 5, .newTimer 6 90 0 false,
    .addTimerInLoop 6, .expire, .poll, .beginHandleRead 120, .run, .cancelInLoop ⟨5, 1⟩, .run]
    (by decide +kernel)
  revert hrun
  decide +kernel

end Cancelling

end TimerQueue

end Reactor
