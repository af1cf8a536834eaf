import Reactor.Lib.Monitor

/-!
# Counting words: throttle

The main thread of a sender waits in `throttle` while `congestion_` is set.  The loop's thread sets it
in `onHighWaterMark` and clears it in `onWriteComplete`, which signals if it was set.

* `throttle_not_forgotten`: in every interleaving of the callbacks with the calls of `throttle`, the
  main thread leaves `throttle` only when there is no congestion, and is blocked in it only while there
  is one, or while the loop's thread is about to wake it.
-/

namespace Reactor

namespace WordCount

namespace Throttle

open Monitor

inductive Callback where
  | onHighWaterMark
  | onWriteComplete
  deriving DecidableEq, Repr

/-- `congestion_` -/
def monitor : Monitor Bool Callback where
  guard congestion := congestion
  op
    | .onHighWaterMark, _ => true
    | .onWriteComplete, _ => false
  signal
    | .onHighWaterMark, _ => .none
    | .onWriteComplete, oldCong => if oldCong then .one else .none

def machine : Machine (State Bool Callback) (Action Callback) Empty := monitor.machine

/-- Only the main thread, which is thread `0`, calls `throttle`. -/
def Env (s : State Bool Callback) (a : Action Callback) : Prop := Monitor.Env (fun t => t = 0) s a

/-- The main thread is not left behind in `throttle`. -/
def NotForgotten (s : State Bool Callback) : Prop :=
  (s.pc 0 = .waitUnlock → s.data = false) ∧
    (s.pc 0 = .blocked → s.data = true ∨ ∃ t, s.pc t = .opSignal .one)

theorem wakes : monitor.Wakes fun t => t = 0 := by
  refine ⟨fun cb congestion hbefore hafter => Or.inr ⟨?_, fun t u ht hu => ht.trans hu.symm⟩⟩
  cases cb with
  | onHighWaterMark => cases hafter
  | onWriteComplete =>
    have hcong : congestion = true := hbefore
    exact if_pos hcong

/-- No callback wakes all threads. -/
def NoBroadcast (s : State Bool Callback) : Prop := ∀ t, s.pc t ≠ .opSignal .all

theorem noBroadcast_next {s : State Bool Callback} (h : NoBroadcast s) (a : Action Callback) :
    NoBroadcast (monitor.next s a) := by
  have hgoto : ∀ {pc : Pc Callback} (t u : ℕ), pc ≠ .opSignal .all → (s.goto t pc).pc u ≠ .opSignal .all := by
    intro pc t u hpc
    by_cases hu : u = t
    · subst hu
      rw [goto_self]
      exact hpc
    · rw [goto_of_ne s pc hu]
      exact h u
  intro u
  cases a with
  | callWait t | callOp t cb | spurious t => exact hgoto t u (by simp)
  | step t w =>
    show (monitor.advance s t w).pc u ≠ _
    unfold advance
    cases hpc : s.pc t with
    | idle | blocked => exact h u
    | waitLock | woken | waitUnlock | opUnlock | opLock _ => exact hgoto t u (by simp)
    | waitTest =>
      dsimp only
      split_ifs <;> exact hgoto t u (by simp)
    | opRun cb =>
      refine hgoto t u ?_
      cases cb with
      | onHighWaterMark => simp [monitor]
      | onWriteComplete =>
        simp only [monitor]
        split_ifs <;> simp
    | opSignal sg =>
      dsimp only
      rcases wake_pc (s.goto t .opUnlock) w sg u with heq | ⟨-, hwoken⟩
      · rw [heq]
        exact hgoto t u (by simp)
      · rw [hwoken]
        simp

theorem notForgotten_of_inv {s : State Bool Callback} (h : monitor.Inv (fun t => t = 0) s)
    (hnone : NoBroadcast s) : NotForgotten s := by
  refine ⟨fun hreturns => h.returns 0 hreturns, fun hblocked => ?_⟩
  rcases h.awake 0 hblocked with hcong | ⟨t, sg, ht, hreach⟩
  · exact Or.inl hcong
  · right
    rcases hreach with rfl | ⟨rfl, -⟩
    · exact absurd ht (hnone t)
    · exact ⟨t, ht⟩

theorem throttle_not_forgotten (as : List (Action Callback))
    (hE : machine.Along Env (State.start false) as) :
    machine.Always NotForgotten (State.start false) as := by
  have hstep : ∀ s a s', (monitor.Inv (fun t => t = 0) s ∧ NoBroadcast s) → Env s a →
      machine.step s a = .ok s' → monitor.Inv (fun t => t = 0) s' ∧ NoBroadcast s' := by
    rintro s a s' ⟨hinv, hnone⟩ ha h
    obtain rfl : monitor.next s a = s' := Except.ok.inj h
    exact ⟨hinv.next wakes ha, noBroadcast_next hnone a⟩
  have hinv := Machine.always_of_along hstep ⟨Monitor.inv_start false, fun t ht => by cases ht⟩ hE
  exact hinv.mono fun s hs => notForgotten_of_inv hs.1 hs.2

/-- The congestion ends while the main thread is blocked. -/
theorem throttle_not_forgotten_blocked : machine.Always NotForgotten (State.start false)
    [.callOp 1 .onHighWaterMark, .step 1 0, .step 1 0, .step 1 0, .step 1 0, .callWait 0, .step 0 0,
      .step 0 0, .callOp 1 .onWriteComplete, .step 1 0, .step 1 0, .step 1 0] := by
  refine throttle_not_forgotten _ ?_
  refine (Machine.along_cons_ok rfl).2 ⟨rfl, ?_⟩
  refine (Machine.along_cons_ok rfl).2 ⟨rfl, ?_⟩
  refine (Machine.along_cons_ok rfl).2 ⟨trivial, ?_⟩
  refine (Machine.along_cons_ok rfl).2 ⟨trivial, ?_⟩
  refine (Machine.along_cons_ok rfl).2 ⟨trivial, ?_⟩
  refine (Machine.along_cons_ok rfl).2 ⟨⟨rfl, rfl⟩, ?_⟩
  refine (Machine.along_cons_ok rfl).2 ⟨rfl, ?_⟩
  refine (Machine.along_cons_ok rfl).2 ⟨trivial, ?_⟩
  refine (Machine.along_cons_ok rfl).2 ⟨rfl, ?_⟩
  refine (Machine.along_cons_ok rfl).2 ⟨rfl, ?_⟩
  refine (Machine.along_cons_ok rfl).2 ⟨trivial, ?_⟩
  exact (Machine.along_cons_ok rfl).2 ⟨fun _ => rfl, trivial⟩

end Throttle

end WordCount

end Reactor
