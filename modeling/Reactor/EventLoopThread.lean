import Reactor.EventLoop

/-!
# EventLoopThread

`threadFunc` publishes the pointer to its loop and then calls `loop()`, which begins with
`quit_ = false`.  Whoever got the pointer may call `quit()` before that: the request is overwritten
and the loop runs on.  A `quit()` after that store is never lost (`quit_is_kept`).
-/

namespace Reactor

/-- `EventLoopThread`: `published` while `loop_` is not `NULL`, `entered` once `threadFunc` has called
`loop()`. -/
structure EventLoopThread where
  loop : EventLoop
  published : Bool
  entered : Bool
  deriving DecidableEq, Repr

namespace EventLoopThread

def new (callingPendingFunctors : Bool) : EventLoopThread :=
  ⟨EventLoop.new callingPendingFunctors, false, false⟩

inductive Action where
  -- `loop_ = &loop` and `loop_ = NULL`
  | publish
  | retire
  | run (a : EventLoop.Action)
  deriving DecidableEq, Repr

def step (t : EventLoopThread) : Action → Except Fault EventLoopThread
  | .publish => return { t with published := true }
  | .retire => return { t with published := false }
  | .run a => do
    let loop ← t.loop.step a
    return { t with loop := loop, entered := t.entered || loop.pc = .entered }

def machine : Machine EventLoopThread Action Fault := ⟨step⟩

/-- `threadFunc` publishes the pointer, calls `loop()` once and takes the pointer back; one other
thread calls `quit()` once while it can see the pointer. -/
def Env (t : EventLoopThread) : Action → Prop
  | .publish => t.published = false ∧ t.entered = false
  | .retire => t.entered = true ∧ t.loop.pc = .outside
  | .run (.advance wakeup) => EventLoop.Env t.loop (.advance wakeup) ∧
      (t.loop.pc = .outside → t.published = true ∧ t.entered = false)
  | .run .otherQuit => t.published = true ∧ t.loop.quitting = 0 ∧ t.loop.quitted = 0
  | .run a => EventLoop.Env t.loop a

instance (t : EventLoopThread) : ∀ a, Decidable (Env t a)
  | .publish | .retire => inferInstanceAs (Decidable (_ ∧ _))
  | .run (.advance wakeup) =>
    inferInstanceAs (Decidable (EventLoop.Env t.loop (.advance wakeup) ∧ (_ = _ → _ ∧ _)))
  | .run .otherQuit => inferInstanceAs (Decidable (_ ∧ _ ∧ _))
  | .run (.queueInLoop cb) => inferInstanceAs (Decidable (EventLoop.Env t.loop (.queueInLoop cb)))
  | .run .quitInLoop => inferInstanceAs (Decidable (EventLoop.Env t.loop .quitInLoop))
  | .run (.otherPush cb) => inferInstanceAs (Decidable (EventLoop.Env t.loop (.otherPush cb)))
  | .run .otherWakeup => inferInstanceAs (Decidable (EventLoop.Env t.loop .otherWakeup))
  | .run .otherQuitWakeup => inferInstanceAs (Decidable (EventLoop.Env t.loop .otherQuitWakeup))

/-- After `quit()` has returned, the loop's thread finds `quit_` set at its next test. -/
def Kept (t : EventLoopThread) : Prop :=
  0 < t.loop.quitted → t.loop.pc = .test → t.loop.quit = true

instance (t : EventLoopThread) : Decidable t.Kept :=
  inferInstanceAs (Decidable (_ < _ → _ = _ → _ = _))

/-- `loop()` has executed `quit_ = false`. -/
def Cleared (t : EventLoopThread) : Prop := t.entered = true ∧ t.loop.pc ≠ .entered

/-- `quit()` is called after that. -/
def QuitsAfterClear (t : EventLoopThread) : Action → Prop
  | .run .otherQuit => t.Cleared
  | .publish | .retire | .run (.advance _) | .run (.queueInLoop _) | .run .quitInLoop
  | .run (.otherPush _) | .run .otherWakeup | .run .otherQuitWakeup => True

instance (t : EventLoopThread) : ∀ a, Decidable (QuitsAfterClear t a)
  | .run .otherQuit => inferInstanceAs (Decidable (_ = _ ∧ _ ≠ _))
  | .publish | .retire | .run (.advance _) | .run (.queueInLoop _) | .run .quitInLoop
  | .run (.otherPush _) | .run .otherWakeup | .run .otherQuitWakeup => isTrue trivial

structure QuitInv (t : EventLoopThread) : Prop where
  kept : 0 < t.loop.quitting + t.loop.quitted → t.Cleared ∧ t.loop.quit = true
  outside : t.entered = false → t.loop.pc = .outside
  looping : t.loop.looping = false ↔ t.loop.pc = .outside

variable {t t' : EventLoopThread}

theorem quitInv_new (calling : Bool) : QuitInv (new calling) :=
  ⟨fun h => absurd h (by simp [new, EventLoop.new]), fun _ => rfl, ⟨fun _ => rfl, fun _ => rfl⟩⟩

theorem QuitInv.isKept (h : QuitInv t) : t.Kept :=
  fun hquitted _ => (h.kept (by omega)).2

theorem step_run {a : EventLoop.Action} {l : EventLoop} (h : t.loop.step a = .ok l) :
    machine.step t (.run a) =
      .ok { t with loop := l, entered := t.entered || l.pc = .entered } := by
  show EventLoopThread.step t (.run a) = _
  rw [EventLoopThread.step, h]
  rfl

/-- A step of the loop's thread. -/
theorem QuitInv.advance (h : QuitInv t) {wakeup : Bool} (hE : Env t (.run (.advance wakeup))) :
    ∃ t', machine.step t (.run (.advance wakeup)) = .ok t' ∧ QuitInv t' := by
  obtain ⟨l, hl, hlooping, hquitting, hquitted, hquit, hentered⟩ :=
    EventLoop.advance_spec h.looping wakeup
  refine ⟨_, step_run hl, fun hpos => ?_, fun hno => ?_, hlooping⟩
  · dsimp only at hpos
    rw [hquitting, hquitted] at hpos
    obtain ⟨⟨hin, hpc⟩, hset⟩ := h.kept hpos
    refine ⟨⟨by simp [hin], fun hpc' => ?_⟩, (hquit hpc).trans hset⟩
    have hagain := (hE.2 (hentered.1 hpc')).2
    rw [hin] at hagain
    cases hagain
  · -- before `loop()` is called, the next step calls it
    simp only [Bool.or_eq_false_iff, decide_eq_false_iff_not] at hno
    exact absurd (hentered.2 (h.outside hno.1)) hno.2

/-- A step that stays where it is. -/
theorem QuitInv.of_pc (h : QuitInv t) {l : EventLoop} (hpc : l.pc = t.loop.pc)
    (hlooping : l.looping = t.loop.looping)
    (hkept : 0 < l.quitting + l.quitted → t.Cleared ∧ l.quit = true) :
    QuitInv { t with loop := l, entered := t.entered || l.pc = .entered } := by
  have hentered : (t.entered || decide (l.pc = .entered)) = t.entered := by
    cases hin : t.entered with
    | true => rfl
    | false =>
      rw [hpc, h.outside hin]
      rfl
  rw [hentered]
  refine ⟨fun hpos => ?_, fun hno => hpc.trans (h.outside hno), ?_⟩
  · obtain ⟨⟨hin, hne⟩, hset⟩ := hkept hpos
    exact ⟨⟨hin, by rw [hpc]; exact hne⟩, hset⟩
  · rw [hpc, hlooping]
    exact h.looping

theorem QuitInv.step {a : Action} (h : QuitInv t) (hE : Env t a) (hC : QuitsAfterClear t a) :
    ∃ t', machine.step t a = .ok t' ∧ QuitInv t' := by
  cases a with
  | publish => exact ⟨_, rfl, h.kept, h.outside, h.looping⟩
  | retire => exact ⟨_, rfl, h.kept, h.outside, h.looping⟩
  | run a =>
    cases a with
    | advance wakeup => exact h.advance hE
    | queueInLoop cb =>
      refine ⟨_, rfl, h.of_pc ?_ ?_ ?_⟩ <;> unfold EventLoop.queueInLoop <;> split_ifs
      · rfl
      · rfl
      · rfl
      · rfl
      · exact h.kept
      · exact h.kept
    | quitInLoop => exact ⟨_, rfl, h.of_pc rfl rfl fun hpos => ⟨(h.kept hpos).1, rfl⟩⟩
    | otherPush cb => exact ⟨_, rfl, h.of_pc rfl rfl h.kept⟩
    | otherWakeup => exact ⟨_, rfl, h.of_pc rfl rfl h.kept⟩
    | otherQuit => exact ⟨_, rfl, h.of_pc rfl rfl fun _ => ⟨hC, rfl⟩⟩
    | otherQuitWakeup =>
      have hpos : 0 < t.loop.quitting := hE
      exact ⟨_, rfl, h.of_pc rfl rfl fun _ => h.kept (by omega)⟩

/-- `quit()` is called before `quit_ = false` is executed, and `loop()` comes to its test. -/
theorem QuitInv.lost_quit (h : QuitInv t) (hE : Env t (.run .otherQuit)) (hno : ¬ t.Cleared) :
    ∃ bs, machine.Along Env t (.run .otherQuit :: bs) ∧
      ¬ machine.Always Kept t (.run .otherQuit :: bs) := by
  obtain ⟨hpub, hquitting, hquitted⟩ := hE
  have hlooping := h.looping
  obtain ⟨⟨pc, looping, quit, calling, pending, wakeupFd, pushed, quitting, quitted⟩, published,
    entered⟩ := t
  dsimp only at hpub hquitting hquitted hlooping
  subst hpub hquitting hquitted
  cases hin : entered with
  | false =>
    -- `loop()` is not called yet
    have hpc : pc = .outside := h.outside hin
    obtain rfl : looping = false := hlooping.2 hpc
    subst hpc
    refine ⟨[.run .otherQuitWakeup, .run (.advance false), .run (.advance false)], ?_, fun h => ?_⟩
    · refine ⟨⟨rfl, rfl, rfl⟩, fun t₁ h₁ => ?_⟩
      obtain rfl := Except.ok.inj h₁
      refine ⟨Nat.one_pos, fun t₂ h₂ => ?_⟩
      obtain rfl := Except.ok.inj h₂
      refine ⟨⟨fun _ hfalse => (nomatch hfalse), fun _ => ⟨rfl, rfl⟩⟩, fun t₃ h₃ => ?_⟩
      obtain rfl := Except.ok.inj h₃
      exact ⟨⟨fun _ hfalse => (nomatch hfalse), fun hpc => (nomatch hpc)⟩, fun _ _ => trivial⟩
    · have htest := (((h.2 _ rfl).2 _ rfl).2 _ rfl).2 _ rfl
      cases htest Nat.one_pos rfl
  | true =>
    have hpc : pc = .entered := by
      by_contra hne
      exact hno ⟨hin, hne⟩
    subst hpc
    refine ⟨[.run .otherQuitWakeup, .run (.advance false)], ?_, fun h => ?_⟩
    · refine ⟨⟨rfl, rfl, rfl⟩, fun t₁ h₁ => ?_⟩
      obtain rfl := Except.ok.inj h₁
      refine ⟨Nat.one_pos, fun t₂ h₂ => ?_⟩
      obtain rfl := Except.ok.inj h₂
      exact ⟨⟨fun _ hfalse => (nomatch hfalse), fun hpc => (nomatch hpc)⟩, fun _ _ => trivial⟩
    · have htest := ((h.2 _ rfl).2 _ rfl).2 _ rfl
      cases htest Nat.one_pos rfl

/-- A quit request is kept in every run in which it comes after `quit_ = false`.  And from any state
of such a run in which it comes before, the loop can come to its test with the request lost. -/
theorem quit_is_kept (calling : Bool) (as : List Action) (hE : machine.Along Env (new calling) as)
    (hC : machine.Along QuitsAfterClear (new calling) as) :
    machine.Always Kept (new calling) as ∧
      ∃ t, machine.run (new calling) as = .ok t ∧
        (Env t (.run .otherQuit) → ¬ t.Cleared →
          ∃ bs, machine.Along Env t (.run .otherQuit :: bs) ∧
            ¬ machine.Always Kept t (.run .otherQuit :: bs)) := by
  have hEC : machine.Along (fun t a => Env t a ∧ QuitsAfterClear t a) (new calling) as :=
    Machine.along_and.2 ⟨hE, hC⟩
  have hstep : ∀ t a, QuitInv t → Env t a ∧ QuitsAfterClear t a →
      ∃ t', machine.step t a = .ok t' ∧ QuitInv t' := fun t a h ha => h.step ha.1 ha.2
  constructor
  · exact (Machine.always_of_along (Machine.step_inv_of_exists hstep) (quitInv_new calling) hEC).mono
      fun _ h => h.isKept
  · obtain ⟨t, ht, hI⟩ := Machine.run_ok_of_along hstep (quitInv_new calling) hEC
    exact ⟨t, ht, hI.lost_quit⟩

/-- The owner quits the loop while it is polling. -/
def quitWhilePolling : List Action :=
  [.publish, .run (.advance false), .run (.advance false), .run (.advance false), .run .otherQuit,
    .run .otherQuitWakeup, .run (.advance true), .run (.advance false), .run (.advance false),
    .run (.advance false), .run (.advance false), .run (.advance false), .retire]

theorem quit_is_kept_quitWhilePolling :
    machine.Always Kept (new false) quitWhilePolling ∧
      (machine.run (new false) quitWhilePolling).toOption.any
        (fun t => t.loop.pc = .outside ∧ t.entered) :=
  ⟨(quit_is_kept false quitWhilePolling (by decide +kernel) (by decide +kernel)).1,
    by decide +kernel⟩

/-- The owner destroys the `EventLoopThread` right after `startLoop` has returned. -/
theorem quit_is_lost :
    ¬ ∀ (calling : Bool) (as : List Action), machine.Along Env (new calling) as →
      machine.Always Kept (new calling) as := by
  intro h
  have hrun := h false [.publish, .run .otherQuit, .run .otherQuitWakeup, .run (.advance false),
    .run (.advance false)] (by decide +kernel)
  revert hrun
  decide +kernel

end EventLoopThread

end Reactor
