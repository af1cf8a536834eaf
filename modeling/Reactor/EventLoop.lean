import Reactor.Base
import Reactor.Lib.Machine

/-!
# EventLoop

The loop's own thread runs `loop()` step by step, from one statement that other threads can notice
to the next; handlers and functors are user code, in which the loop's thread may queue functors and
ask the loop to quit.  Other threads do the same at any time, in two steps each: they change the
loop, then they write to the eventfd.

A functor is a number here; what it does is the user code that runs while it is executed.
-/

namespace Reactor

namespace EventLoop

/-- Where the loop's thread is. -/
inductive Pc where
  -- not in `loop()`
  | outside
  -- in `loop()`, before `quit_ = false`
  | entered
  -- before `while (!quit_)`
  | test
  -- before `poller_->poll`
  | poll
  -- in the handlers of the active channels; `wakeup` while `handleRead` of the eventfd is among
  -- those still to run
  | handlers (wakeup : Bool)
  -- in `doPendingFunctors`, before the swap
  | swap
  -- in `doPendingFunctors`, with these functors still to run
  | functors (fs : List ℕ)
  deriving DecidableEq, Repr

end EventLoop

/-- `EventLoop`, with the threads that use it. -/
structure EventLoop where
  pc : EventLoop.Pc
  looping : Bool
  quit : Bool
  callingPendingFunctors : Bool
  pendingFunctors : List ℕ
  -- the counter of the eventfd
  wakeupFd : ℕ
  -- other threads between `push_back` and `wakeup()`, between `quit_ = true` and `wakeup()`, and
  -- behind their `quit()`
  pushed : ℕ
  quitting : ℕ
  quitted : ℕ
  deriving DecidableEq, Repr

namespace EventLoop

/-- The constructor; it leaves `callingPendingFunctors_` uninitialised. -/
def new (callingPendingFunctors : Bool) : EventLoop where
  pc := .outside
  looping := false
  quit := false
  callingPendingFunctors := callingPendingFunctors
  pendingFunctors := []
  wakeupFd := 0
  pushed := 0
  quitting := 0
  quitted := 0

/-- `wakeup`: the counter of a non-blocking eventfd stops at its maximum. -/
def wakeup (l : EventLoop) : EventLoop :=
  { l with wakeupFd := min (l.wakeupFd + 1) (2 ^ 64 - 2) }

/-- `handleRead`: a read takes the whole counter. -/
def handleRead (l : EventLoop) : EventLoop := { l with wakeupFd := 0 }

def push (l : EventLoop) (cb : ℕ) : EventLoop :=
  { l with pendingFunctors := l.pendingFunctors ++ [cb] }

/-- `queueInLoop` on the loop's thread. -/
def queueInLoop (l : EventLoop) (cb : ℕ) : EventLoop :=
  if (l.push cb).callingPendingFunctors then (l.push cb).wakeup else l.push cb

/-- The next step of the loop's thread in `loop()`; `wakeup` says whether a poll finds the eventfd
readable. -/
def advance (l : EventLoop) (wakeup : Bool) : Except Fault EventLoop :=
  match l.pc with
  | .outside => do
    check .loop (¬ l.looping)
    return { l with looping := true, pc := .entered }
  | .entered => return { l with quit := false, pc := .test }
  | .test =>
    if ¬ l.quit then return { l with pc := .poll }
    else return { l with looping := false, pc := .outside }
  | .poll => return { l with pc := .handlers wakeup }
  | .handlers true => return { l.handleRead with pc := .handlers false }
  | .handlers false => return { l with callingPendingFunctors := true, pc := .swap }
  | .swap => return { l with pendingFunctors := [], pc := .functors l.pendingFunctors }
  | .functors (_ :: fs) => return { l with pc := .functors fs }
  | .functors [] => return { l with callingPendingFunctors := false, pc := .test }

inductive Action where
  | advance (wakeup : Bool)
  -- the loop's thread, in user code
  | queueInLoop (cb : ℕ)
  | quitInLoop
  -- the two parts of `queueInLoop` and of `quit` on another thread
  | otherPush (cb : ℕ)
  | otherWakeup
  | otherQuit
  | otherQuitWakeup
  deriving DecidableEq, Repr

def step (l : EventLoop) : Action → Except Fault EventLoop
  | .advance wakeup => l.advance wakeup
  | .queueInLoop cb => return l.queueInLoop cb
  | .quitInLoop => return { l with quit := true }
  | .otherPush cb => return { l.push cb with pushed := l.pushed + 1 }
  | .otherWakeup => return { l.wakeup with pushed := l.pushed - 1 }
  | .otherQuit => return { l with quit := true, quitting := l.quitting + 1 }
  | .otherQuitWakeup =>
    return { l.wakeup with quitting := l.quitting - 1, quitted := l.quitted + 1 }

def machine : Machine EventLoop Action Fault := ⟨step⟩

/-- The loop's thread runs user code. -/
def Pc.inUserCode : Pc → Bool
  | .outside | .handlers _ | .functors _ => true
  | .entered | .test | .poll | .swap => false

/-- The eventfd is reported only when it is readable, user code runs where it can, and a thread ends
what it began. -/
def Env (l : EventLoop) : Action → Prop
  | .advance wakeup => l.pc = .poll → wakeup = true → 0 < l.wakeupFd
  | .queueInLoop _ | .quitInLoop => l.pc.inUserCode
  | .otherPush _ | .otherQuit => True
  | .otherWakeup => 0 < l.pushed
  | .otherQuitWakeup => 0 < l.quitting

instance (l : EventLoop) : ∀ a, Decidable (Env l a)
  | .advance _ => inferInstanceAs (Decidable (_ = _ → _ = _ → _ < _))
  | .queueInLoop _ | .quitInLoop => inferInstanceAs (Decidable (_ = true))
  | .otherPush _ | .otherQuit => isTrue trivial
  | .otherWakeup | .otherQuitWakeup => inferInstanceAs (Decidable (_ < _))

theorem wakeupFd_wakeup_pos (l : EventLoop) : 0 < l.wakeup.wakeupFd :=
  Nat.lt_min.2 ⟨Nat.succ_pos _, by decide⟩

/-- What a step of `loop()` means for a request to quit: only the step behind the entry of `loop()`
changes `quit_`. -/
theorem advance_spec {l : EventLoop} (h : l.looping = false ↔ l.pc = .outside) (wakeup : Bool) :
    ∃ l', l.advance wakeup = .ok l' ∧ (l'.looping = false ↔ l'.pc = .outside) ∧
      l'.quitting = l.quitting ∧ l'.quitted = l.quitted ∧
      (l.pc ≠ .entered → l'.quit = l.quit) ∧ (l'.pc = .entered ↔ l.pc = .outside) := by
  unfold advance
  cases hpc : l.pc with
  | outside =>
    have hfree : ¬ l.looping = true := by simp [h.2 hpc]
    dsimp only
    rw [check_of hfree, ok_bind]
    exact ⟨_, rfl, by simp, rfl, rfl, fun _ => rfl, by simp⟩
  | test =>
    dsimp only
    split_ifs
    · exact ⟨_, rfl, by simp, rfl, rfl, fun _ => rfl, by simp⟩
    · exact ⟨_, rfl, by simp [h, hpc], rfl, rfl, fun _ => rfl, by simp⟩
  | entered => exact ⟨_, rfl, by simp [h, hpc], rfl, rfl, fun hne => absurd rfl hne, by simp⟩
  | poll => exact ⟨_, rfl, by simp [h, hpc], rfl, rfl, fun _ => rfl, by simp⟩
  | handlers wakeup =>
    cases wakeup with
    | true => exact ⟨_, rfl, by simp [handleRead, h, hpc], rfl, rfl, fun _ => rfl, by simp⟩
    | false => exact ⟨_, rfl, by simp [h, hpc], rfl, rfl, fun _ => rfl, by simp⟩
  | swap => exact ⟨_, rfl, by simp [h, hpc], rfl, rfl, fun _ => rfl, by simp⟩
  | functors fs =>
    cases fs with
    | nil => exact ⟨_, rfl, by simp [h, hpc], rfl, rfl, fun _ => rfl, by simp⟩
    | cons f fs => exact ⟨_, rfl, by simp [h, hpc], rfl, rfl, fun _ => rfl, by simp⟩

/-! ## Lost wakeups -/

/-- The next poll returns at once, or a thread is about to make it return. -/
def Awake (l : EventLoop) : Prop := 0 < l.wakeupFd ∨ 0 < l.pushed

instance (l : EventLoop) : Decidable l.Awake := inferInstanceAs (Decidable (_ ∨ _))

/-- The loop's thread does not block while functors wait for it. -/
def NoLostWakeup (l : EventLoop) : Prop := l.pc = .poll → l.pendingFunctors ≠ [] → l.Awake

instance (l : EventLoop) : Decidable l.NoLostWakeup :=
  inferInstanceAs (Decidable (_ = _ → _ ≠ _ → l.Awake))

/-- The loop's thread queues a functor outside `loop()` only while `callingPendingFunctors_` happens
to be set or a wakeup is due anyway. -/
def QueuesInside (l : EventLoop) : Action → Prop
  | .queueInLoop _ => l.pc = .outside → l.callingPendingFunctors = true ∨ l.Awake
  | .advance _ | .quitInLoop | .otherPush _ | .otherWakeup | .otherQuit | .otherQuitWakeup => True

instance (l : EventLoop) : ∀ a, Decidable (QueuesInside l a)
  | .queueInLoop _ => inferInstanceAs (Decidable (_ = _ → _ = _ ∨ l.Awake))
  | .advance _ | .quitInLoop | .otherPush _ | .otherWakeup | .otherQuit | .otherQuitWakeup =>
    isTrue trivial

/-- The places from where the loop's thread goes to `doPendingFunctors` before it polls. -/
def Pc.beforePending : Pc → Bool
  | .handlers _ | .swap => true
  | .outside | .entered | .test | .poll | .functors _ => false

structure WakeupInv (l : EventLoop) : Prop where
  pending : l.pendingFunctors ≠ [] → l.Awake ∨ l.pc.beforePending
  calling : (l.pc = .swap ∨ ∃ fs, l.pc = .functors fs) → l.callingPendingFunctors = true
  looping : l.looping = false ↔ l.pc = .outside

variable {l l' : EventLoop}

theorem wakeupInv_new (calling : Bool) : WakeupInv (new calling) :=
  ⟨fun h => absurd rfl h, by simp [new], by simp [new]⟩

theorem WakeupInv.noLostWakeup (h : WakeupInv l) : NoLostWakeup l := by
  intro hpc hpending
  refine (h.pending hpending).resolve_right ?_
  rw [hpc]
  decide

/-- Where the thread does not go to `doPendingFunctors` first, functors mean that it is awake. -/
theorem WakeupInv.awake (h : WakeupInv l) (hpc : l.pc.beforePending = false)
    (hpending : l.pendingFunctors ≠ []) : l.Awake := by
  refine (h.pending hpending).resolve_right ?_
  rw [hpc]
  decide

theorem WakeupInv.advance (h : WakeupInv l) (wakeup : Bool) :
    ∃ l', l.advance wakeup = .ok l' ∧ WakeupInv l' := by
  have hlooping := h.looping
  unfold EventLoop.advance
  cases hpc : l.pc with
  | outside =>
    have hfree : ¬ l.looping = true := by simp [hlooping.2 hpc]
    dsimp only
    rw [check_of hfree, ok_bind]
    exact ⟨_, rfl, fun hp => .inl (h.awake (by rw [hpc]; rfl) hp), by simp, by simp⟩
  | entered =>
    refine ⟨_, rfl, fun hp => .inl (h.awake (by rw [hpc]; rfl) hp), by simp, ?_⟩
    simp [hlooping, hpc]
  | test =>
    dsimp only
    split_ifs
    · exact ⟨_, rfl, fun hp => .inl (h.awake (by rw [hpc]; rfl) hp), by simp, by simp⟩
    · refine ⟨_, rfl, fun hp => .inl (h.awake (by rw [hpc]; rfl) hp), by simp, ?_⟩
      simp [hlooping, hpc]
  | poll =>
    refine ⟨_, rfl, fun _ => .inr rfl, by simp, ?_⟩
    simp [hlooping, hpc]
  | handlers wakeup =>
    cases wakeup with
    | true =>
      refine ⟨_, rfl, fun _ => .inr rfl, by simp, ?_⟩
      simp [handleRead, hlooping, hpc]
    | false =>
      refine ⟨_, rfl, fun _ => .inr rfl, by simp, ?_⟩
      simp [hlooping, hpc]
  | swap =>
    refine ⟨_, rfl, fun hp => absurd rfl hp, fun _ => h.calling (.inl hpc), ?_⟩
    simp [hlooping, hpc]
  | functors fs =>
    cases fs with
    | nil =>
      refine ⟨_, rfl, fun hp => .inl (h.awake (by rw [hpc]; rfl) hp), by simp, ?_⟩
      simp [hlooping, hpc]
    | cons f fs =>
      refine ⟨_, rfl, fun hp => .inl (h.awake (by rw [hpc]; rfl) hp), fun _ => ?_, ?_⟩
      · exact h.calling (.inr ⟨_, hpc⟩)
      · simp [hlooping, hpc]

/-- The loop's thread queues a functor: inside a functor it wakes itself up, in a handler it comes to
`doPendingFunctors` before it polls. -/
theorem WakeupInv.queueInLoop (h : WakeupInv l) {cb : ℕ} (hE : Env l (.queueInLoop cb))
    (hC : QueuesInside l (.queueInLoop cb)) : WakeupInv (l.queueInLoop cb) := by
  unfold EventLoop.queueInLoop
  split_ifs with hcalling
  · exact ⟨fun _ => .inl (.inl (wakeupFd_wakeup_pos _)), h.calling, h.looping⟩
  · refine ⟨fun _ => ?_, h.calling, h.looping⟩
    cases hpc : l.pc with
    | outside => exact .inl ((hC hpc).resolve_left hcalling)
    | handlers wakeup => exact .inr (by simp [push, hpc, Pc.beforePending])
    | functors fs => exact absurd (h.calling (.inr ⟨fs, hpc⟩)) hcalling
    | entered => simp [Env, hpc, Pc.inUserCode] at hE
    | test => simp [Env, hpc, Pc.inUserCode] at hE
    | poll => simp [Env, hpc, Pc.inUserCode] at hE
    | swap => simp [Env, hpc, Pc.inUserCode] at hE

theorem WakeupInv.step {a : Action} (h : WakeupInv l) (hE : Env l a) (hC : QueuesInside l a) :
    ∃ l', machine.step l a = .ok l' ∧ WakeupInv l' := by
  cases a with
  | advance wakeup => exact h.advance wakeup
  | queueInLoop cb => exact ⟨_, rfl, h.queueInLoop hE hC⟩
  | quitInLoop => exact ⟨_, rfl, h.pending, h.calling, h.looping⟩
  | otherPush cb => exact ⟨_, rfl, fun _ => .inl (.inr (Nat.succ_pos _)), h.calling, h.looping⟩
  | otherWakeup =>
    exact ⟨_, rfl, fun _ => .inl (.inl (wakeupFd_wakeup_pos l)), h.calling, h.looping⟩
  | otherQuit => exact ⟨_, rfl, h.pending, h.calling, h.looping⟩
  | otherQuitWakeup =>
    exact ⟨_, rfl, fun _ => .inl (.inl (wakeupFd_wakeup_pos l)), h.calling, h.looping⟩

/-- The loop's thread queues a functor outside `loop()` with nothing to wake it up, enters `loop()` and
polls. -/
theorem WakeupInv.lost_wakeup (h : WakeupInv l) {cb : ℕ}
    (hno : ¬ QueuesInside l (.queueInLoop cb)) :
    ∃ bs, machine.Along Env l (.queueInLoop cb :: bs) ∧
      ¬ machine.Always NoLostWakeup l (.queueInLoop cb :: bs) := by
  simp only [QueuesInside, Classical.not_imp, not_or] at hno
  obtain ⟨hpc, hcalling, hasleep⟩ := hno
  have hlooping := h.looping.2 hpc
  have hqueue : machine.step l (.queueInLoop cb) = .ok (l.push cb) := by
    show Except.ok (l.queueInLoop cb) = _
    unfold EventLoop.queueInLoop
    rw [if_neg (show ¬ (l.push cb).callingPendingFunctors = true from hcalling)]
  have hwake : ∀ l' : EventLoop, Env l' (.advance false) := fun _ _ hfalse => (nomatch hfalse)
  have henter : machine.step (l.push cb) (.advance false) =
      .ok { l.push cb with looping := true, pc := .entered } := by
    show EventLoop.advance (l.push cb) false = _
    unfold EventLoop.advance push
    rw [hpc]
    dsimp only
    rw [check_of (by simp [hlooping])]
    rfl
  refine ⟨[.advance false, .advance false, .advance false], ?_, fun halways => ?_⟩
  · rw [Machine.along_cons_ok hqueue, Machine.along_cons_ok henter]
    refine ⟨?_, hwake _, hwake _, fun _ _ => ⟨hwake _, fun _ _ => trivial⟩⟩
    show l.pc.inUserCode = true
    rw [hpc]
    rfl
  · rw [Machine.always_cons_ok hqueue, Machine.always_cons_ok henter] at halways
    obtain ⟨-, -, -, hentered⟩ := halways
    have hpoll := (hentered _ rfl).2 _ rfl
    exact hasleep (hpoll rfl (by simp [push]))

/-- No wakeup is lost in a run in which the loop's thread queues functors inside `loop()` only.  And
from any state of such a run in which it queues one outside, with nothing to wake it up, the loop can
come to block while that functor waits. -/
theorem no_lost_wakeup (calling : Bool) (as : List Action)
    (hE : machine.Along Env (new calling) as) (hC : machine.Along QueuesInside (new calling) as) :
    machine.Always NoLostWakeup (new calling) as ∧
      ∃ l, machine.run (new calling) as = .ok l ∧
        ∀ cb, Env l (.queueInLoop cb) → ¬ QueuesInside l (.queueInLoop cb) →
          ∃ bs, machine.Along Env l (.queueInLoop cb :: bs) ∧
            ¬ machine.Always NoLostWakeup l (.queueInLoop cb :: bs) := by
  have hEC : machine.Along (fun l a => Env l a ∧ QueuesInside l a) (new calling) as :=
    Machine.along_and.2 ⟨hE, hC⟩
  have hstep : ∀ l a, WakeupInv l → Env l a ∧ QueuesInside l a →
      ∃ l', machine.step l a = .ok l' ∧ WakeupInv l' := fun l a h ha => h.step ha.1 ha.2
  constructor
  · exact (Machine.always_of_along (Machine.step_inv_of_exists hstep) (wakeupInv_new calling) hEC).mono
      fun _ h => h.noLostWakeup
  · obtain ⟨l, hl, hI⟩ := Machine.run_ok_of_along hstep (wakeupInv_new calling) hEC
    exact ⟨l, hl, fun cb _ hno => hI.lost_wakeup hno⟩

/-- A functor queued by another thread, one queued in a handler and one queued in a functor. -/
def queueEverywhere : List Action :=
  [.advance false, .advance false, .otherPush 1, .advance false, .otherWakeup, .advance true,
    .queueInLoop 2, .advance false, .advance false, .advance false, .queueInLoop 3, .advance false,
    .advance false, .advance false, .advance false]

theorem no_lost_wakeup_queueEverywhere :
    machine.Always NoLostWakeup (new false) queueEverywhere ∧
      (machine.run (new false) queueEverywhere).toOption.any
        (fun l => l.pc = .poll ∧ l.pendingFunctors = [3]) :=
  ⟨(no_lost_wakeup false queueEverywhere (by decide +kernel) (by decide +kernel)).1,
    by decide +kernel⟩

/-- A functor is queued before `loop()` is entered. -/
theorem lost_wakeup_before_loop :
    ¬ ∀ (calling : Bool) (as : List Action), machine.Along Env (new calling) as →
      machine.Always NoLostWakeup (new calling) as := by
  intro h
  have hrun := h false [.queueInLoop 1, .advance false, .advance false, .advance false]
    (by decide +kernel)
  revert hrun
  decide +kernel

end EventLoop

end Reactor
