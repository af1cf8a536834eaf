import Reactor.CountDownLatch

/-!
# Thread

`Thread::start` creates the thread and waits at `latch_` until the new thread has stored its `tid` and
counted the latch down.

* `start_knows_tid`: in every interleaving of the two threads the assertion `tid_ > 0` at the end of
  `start` holds.
-/

namespace Reactor

namespace Thread

/-- Where `start` is: before `pthread_create`, before `latch_.wait()`, in it, or at its end. -/
inductive CallerPc where
  | outside
  | created
  | waiting
  | returned
  deriving DecidableEq, Repr

/-- Where `runInThread` is: not running, before its first statement, before `countDown`, or past
it. -/
inductive ChildPc where
  | none
  | begun
  | stored
  | counting
  deriving DecidableEq, Repr

end Thread

/-- A thread that is being started.  In its latch, `start` is thread `0` and `runInThread` is thread
`1`. -/
structure Thread where
  started : Bool
  tid : ℤ
  latch : Monitor.State ℤ Unit
  caller : Thread.CallerPc
  child : Thread.ChildPc

namespace Thread

open Monitor

def new : Thread := ⟨false, 0, State.start 1, .outside, .none⟩

inductive Fault where
  | start -- `!started_`
  | tid -- `tid_ > 0`
  deriving DecidableEq, Repr

inductive Action where
  -- `start`: `pthread_create` with its outcome, the call of `wait`, and what follows its return
  | create (created : Bool)
  | wait
  | resume
  -- `runInThread`: the store to `*tid_` and the call of `countDown`
  | store (tid : ℤ)
  | countDown
  -- a step of one of the two in the latch, and a wake-up without a signal
  | latch (t w : ℕ)
  | spurious

def step (s : Thread) : Action → Except Fault Thread
  | .create created =>
    if s.started then .error .start
    else if created then .ok { s with started := true, caller := .created, child := .begun }
    else .ok { s with started := false, caller := .returned }
  | .wait => .ok { s with latch := CountDownLatch.monitor.next s.latch (.callWait 0), caller := .waiting }
  | .resume => if 0 < s.tid then .ok { s with caller := .returned } else .error .tid
  | .store tid => .ok { s with tid := tid, child := .stored }
  | .countDown =>
    .ok { s with latch := CountDownLatch.monitor.next s.latch (.callOp 1 ()), child := .counting }
  | .latch t w => .ok { s with latch := CountDownLatch.monitor.next s.latch (.step t w) }
  | .spurious => .ok { s with latch := CountDownLatch.monitor.next s.latch (.spurious 0) }

def machine : Machine Thread Action Fault := ⟨step⟩

/-- Each of the two takes its own steps in turn; `gettid` is positive. -/
def Env (s : Thread) : Action → Prop
  | .create _ => s.caller = .outside
  | .wait => s.caller = .created
  | .resume => s.caller = .waiting ∧ s.latch.pc 0 = .idle
  | .store tid => s.child = .begun ∧ 0 < tid
  | .countDown => s.child = .stored
  | .latch t w => t < 2 ∧ Enabled s.latch t w
  | .spurious => s.latch.pc 0 = .blocked

/-- What `start` leaves behind. -/
def Known (s : Thread) : Prop := s.caller = .returned → s.started = true → 0 < s.tid

structure Inv (s : Thread) : Prop where
  latch : CountDownLatch.Inv 2 s.latch
  outside : s.caller = .outside → s.started = false ∧ s.child = .none
  caller : s.caller ≠ .waiting → s.latch.pc 0 = .idle
  waits : s.latch.pc 0 = .idle ∨ (s.latch.pc 0).Waits
  opened : s.caller = .waiting → s.latch.pc 0 = .idle → s.latch.data ≤ 0
  early : s.child ≠ .counting → s.latch.pc 1 = .idle ∧ s.latch.data = 1
  stored : s.child = .stored ∨ s.child = .counting → 0 < s.tid
  known : Known s

theorem inv_new : Inv Thread.new := by
  refine ⟨CountDownLatch.inv_start 2 1, fun _ => ⟨rfl, rfl⟩, fun _ => rfl, Or.inl rfl,
    fun h => (by cases h), fun _ => ⟨rfl, rfl⟩, fun h => ?_, fun h => (by cases h)⟩
  rcases h with h | h <;> cases h

variable {s : Thread}

/-- What a step in the latch keeps. -/
theorem latch_inv (h : Inv s) {t w : ℕ} (ht : t < 2) (ha : Enabled s.latch t w) :
    Inv { s with latch := CountDownLatch.monitor.next s.latch (.step t w) } := by
  have hlatch : CountDownLatch.Inv 2 (CountDownLatch.monitor.next s.latch (.step t w)) :=
    ⟨h.latch.base.next CountDownLatch.wakes ha, idle_next h.latch.idle ht⟩
  have hbusy : s.latch.pc t ≠ .idle := by
    intro hidle
    unfold Enabled at ha
    rw [hidle] at ha
    exact ha
  have hdata := CountDownLatch.next_data s.latch (.step t w)
  have hother : ∀ u, u ≠ t → (CountDownLatch.monitor.next s.latch (.step t w)).pc u = s.latch.pc u ∨
      s.latch.pc u = .blocked ∧ (CountDownLatch.monitor.next s.latch (.step t w)).pc u = .woken :=
    fun u hu => advance_pc_of_ne s.latch w hu
  rcases Nat.lt_or_ge t 1 with h0 | h1
  · -- `start`, which waits
    obtain rfl : t = 0 := by omega
    have hwaits : (s.latch.pc 0).Waits := h.waits.resolve_left hbusy
    have hwaiting : s.caller = .waiting := by
      by_contra hne
      exact hbusy (h.caller hne)
    obtain ⟨hsame, hpc⟩ : _ ∧ _ := advance_of_waits (M := CountDownLatch.monitor) w hwaits
    refine ⟨hlatch, h.outside, fun hne => absurd hwaiting hne, ?_, fun _ hidle => ?_, fun hchild => ?_,
      h.stored, h.known⟩
    · exact hpc.elim Or.inr fun hend => Or.inl hend.1
    · rcases hpc with hpc | ⟨-, hunlock⟩
      · have hidle' : (CountDownLatch.monitor.advance s.latch 0 w).pc 0 = .idle := hidle
        rw [hidle'] at hpc
        exact hpc.elim
      · have hgone : ¬ 0 < s.latch.data := of_decide_eq_false (h.latch.base.returns 0 hunlock)
        show (CountDownLatch.monitor.advance s.latch 0 w).data ≤ 0
        rw [hsame]
        omega
    · obtain ⟨hidle, hone⟩ := h.early hchild
      refine ⟨?_, hsame.trans hone⟩
      rcases hother 1 (by decide) with heq | ⟨hb, -⟩
      · exact heq.trans hidle
      · rw [hidle] at hb
        cases hb
  · -- `runInThread`, which counts down
    obtain rfl : t = 1 := by omega
    have hcounting : s.child = .counting := by
      by_contra hne
      exact hbusy (h.early hne).1
    refine ⟨hlatch, h.outside, fun hne => ?_, ?_, fun hwaiting hidle => ?_, fun hne => absurd hcounting hne,
      h.stored, h.known⟩
    · rcases hother 0 (by decide) with heq | ⟨hb, -⟩
      · exact heq.trans (h.caller hne)
      · rw [h.caller hne] at hb
        cases hb
    · rcases hother 0 (by decide) with heq | ⟨-, hwoken⟩
      · exact h.waits.imp heq.trans fun hw => by
          dsimp only
          rw [heq]
          exact hw
      · right
        dsimp only
        rw [hwoken]
        trivial
    · have hle : s.latch.data ≤ 0 := by
        rcases hother 0 (by decide) with heq | ⟨-, hwoken⟩
        · exact h.opened hwaiting (heq.symm.trans hidle)
        · cases hwoken.symm.trans hidle
      dsimp only
      omega

theorem step_inv (h : Inv s) {a : Action} (ha : Env s a) : ∃ s', machine.step s a = .ok s' ∧ Inv s' := by
  show ∃ s', step s a = .ok s' ∧ Inv s'
  cases a with
  | create created =>
    have hcaller : s.caller = .outside := ha
    obtain ⟨hstarted, hchild⟩ := h.outside hcaller
    have hpc := h.caller (by rw [hcaller]; decide)
    have hearly := h.early (by rw [hchild]; decide)
    rw [step, if_neg (by rw [hstarted]; decide)]
    cases created with
    | true =>
      refine ⟨_, rfl, h.latch, fun hne => (by cases hne), fun _ => hpc, h.waits,
        fun hne => (by cases hne), fun _ => hearly, fun hne => ?_, fun hne => (by cases hne)⟩
      rcases hne with hne | hne <;> cases hne
    | false =>
      exact ⟨_, rfl, h.latch, fun hne => (by cases hne), fun _ => hpc, h.waits,
        fun hne => (by cases hne), fun _ => hearly, h.stored, fun _ hne => (by cases hne)⟩
  | wait =>
    have hcaller : s.caller = .created := ha
    have hpc := h.caller (by rw [hcaller]; decide)
    have hlatch : CountDownLatch.Inv 2 (CountDownLatch.monitor.next s.latch (.callWait 0)) :=
      ⟨h.latch.base.next CountDownLatch.wakes ⟨hpc, trivial⟩, idle_next h.latch.idle (by decide)⟩
    refine ⟨_, rfl, hlatch, fun hne => (by cases hne), fun hne => absurd rfl hne, Or.inr trivial,
      fun _ hne => (by cases hne), fun hne => ?_, h.stored, fun hne => (by cases hne)⟩
    exact h.early hne
  | resume =>
    obtain ⟨hcaller, hidle⟩ : s.caller = .waiting ∧ s.latch.pc 0 = .idle := ha
    have hle := h.opened hcaller hidle
    have hcounting : s.child = .counting := by
      by_contra hne
      have hone := (h.early hne).2
      omega
    have htid := h.stored (Or.inr hcounting)
    rw [step, if_pos htid]
    exact ⟨_, rfl, h.latch, fun hne => (by cases hne), fun _ => hidle, h.waits,
      fun hne => (by cases hne), h.early, h.stored, fun _ _ => htid⟩
  | store tid =>
    obtain ⟨hchild, htid⟩ : s.child = .begun ∧ 0 < tid := ha
    have hearly := h.early (by rw [hchild]; decide)
    refine ⟨_, rfl, h.latch, fun hout => ?_, h.caller, h.waits, h.opened, fun _ => hearly, fun _ => htid,
      fun _ _ => htid⟩
    have hnone := (h.outside hout).2
    rw [hchild] at hnone
    cases hnone
  | countDown =>
    have hchild : s.child = .stored := ha
    obtain ⟨hpc, hdata⟩ := h.early (by rw [hchild]; decide)
    have hlatch : CountDownLatch.Inv 2 (CountDownLatch.monitor.next s.latch (.callOp 1 ())) :=
      ⟨h.latch.base.next CountDownLatch.wakes hpc, idle_next h.latch.idle (by decide)⟩
    refine ⟨_, rfl, hlatch, fun hout => ?_, h.caller, h.waits, h.opened, fun hne => absurd rfl hne,
      fun _ => h.stored (Or.inl hchild), h.known⟩
    have hnone := (h.outside hout).2
    rw [hchild] at hnone
    cases hnone
  | latch t w => exact ⟨_, rfl, latch_inv h ha.1 ha.2⟩
  | spurious =>
    have hblocked : s.latch.pc 0 = .blocked := ha
    have hwaiting : s.caller = .waiting := by
      by_contra hne
      cases (h.caller hne).symm.trans hblocked
    have hlatch : CountDownLatch.Inv 2 (CountDownLatch.monitor.next s.latch (.spurious 0)) :=
      ⟨h.latch.base.next CountDownLatch.wakes hblocked, idle_next h.latch.idle (by decide)⟩
    exact ⟨_, rfl, hlatch, h.outside, fun hne => absurd hwaiting hne, Or.inr trivial,
      fun _ hne => (by cases hne), h.early, h.stored, h.known⟩

theorem start_knows_tid (as : List Action) (hE : machine.Along Env Thread.new as) :
    (∃ s, machine.run Thread.new as = .ok s) ∧ machine.Always Known Thread.new as := by
  obtain ⟨hrun, hinv⟩ := Machine.run_ok_always_of_along
    (fun s a (hs : Inv s) ha => step_inv hs ha) inv_new hE
  exact ⟨hrun, hinv.mono fun s hs => hs.known⟩

/-- `start` is blocked before the new thread runs. -/
theorem start_knows_tid_blocked : machine.Always Known Thread.new [.create true, .wait, .latch 0 0,
    .latch 0 0, .store 17, .countDown, .latch 1 0, .latch 1 0, .latch 1 0] := by
  refine (start_knows_tid _ ?_).2
  refine (Machine.along_cons_ok rfl).2 ⟨rfl, ?_⟩
  refine (Machine.along_cons_ok rfl).2 ⟨rfl, ?_⟩
  refine (Machine.along_cons_ok rfl).2 ⟨⟨by decide, rfl⟩, ?_⟩
  refine (Machine.along_cons_ok rfl).2 ⟨⟨by decide, trivial⟩, ?_⟩
  refine (Machine.along_cons_ok rfl).2 ⟨⟨rfl, by decide⟩, ?_⟩
  refine (Machine.along_cons_ok rfl).2 ⟨rfl, ?_⟩
  refine (Machine.along_cons_ok rfl).2 ⟨⟨by decide, rfl⟩, ?_⟩
  refine (Machine.along_cons_ok rfl).2 ⟨⟨by decide, trivial⟩, ?_⟩
  exact (Machine.along_cons_ok rfl).2 ⟨⟨by decide, trivial⟩, trivial⟩

end Thread

end Reactor
