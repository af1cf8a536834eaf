import Reactor.Lib.Monitor

/-!
# CountDownLatch

A latch is a monitor whose guard is `count_ > 0`; `countDown` wakes all threads when it takes the
count to `0`, and only then, since the count passes `0` once.

* `latch_opens`: for any threads that call `wait` and `countDown` in any order, `wait` returns only
  after `count` calls of `countDown`, and after them all calls return within a bounded number of
  steps.
-/

namespace Reactor

namespace CountDownLatch

open Monitor

/-- `wait` and `countDown` on `count_`. -/
def monitor : Monitor ℤ Unit where
  guard count := 0 < count
  op _ count := count - 1
  signal _ count := if count - 1 = 0 then .all else .none

def machine : Machine (State ℤ Unit) (Action Unit) Empty := monitor.machine

/-- The actions of `n` threads. -/
def Env (n : ℕ) (s : State ℤ Unit) (a : Action Unit) : Prop :=
  Monitor.Env (fun _ => True) s a ∧ a.thread < n

/-- How often `--count_` is executed. -/
def downs (s : State ℤ Unit) : List (Action Unit) → ℕ
  | [] => 0
  | a :: as =>
    (match a with
      | .step t _ => if s.pc t = .opRun () then 1 else 0
      | .callWait _ | .callOp _ _ | .spurious _ => 0) + downs (monitor.next s a) as

theorem wakes : monitor.Wakes fun _ => True := by
  refine ⟨fun i count hbefore hafter => Or.inl ?_⟩
  have hpos : 0 < count := of_decide_eq_true hbefore
  have hgone : ¬ 0 < count - 1 := of_decide_eq_false hafter
  exact if_pos (by omega)

theorem stable : monitor.Stable := by
  intro i count hguard
  have hgone : ¬ 0 < count := of_decide_eq_false hguard
  exact decide_eq_false (show ¬ 0 < count - 1 by omega)

/-- Only `countDown` changes the count. -/
theorem next_data (s : State ℤ Unit) (a : Action Unit) :
    (monitor.next s a).data = s.data - (downs s [a] : ℕ) := by
  cases a with
  | callWait t | callOp t i | spurious t => simp [downs, next, State.goto]
  | step t w =>
    show (monitor.advance s t w).data = s.data - (downs s [.step t w] : ℕ)
    unfold advance downs downs
    cases hpc : s.pc t with
    | opRun i => simp [monitor, hpc]
    | idle | blocked | waitLock | woken | waitUnlock | opUnlock | opLock _ => simp [State.goto, hpc]
    | waitTest =>
      simp only [hpc]
      split_ifs <;> simp_all [State.goto]
    | opSignal sg =>
      dsimp only
      rw [(wake_data _ w sg).1]
      simp [State.goto, hpc]

theorem data_eq {s s' : State ℤ Unit} {as : List (Action Unit)} (h : machine.run s as = .ok s') :
    s'.data = s.data - (downs s as : ℕ) := by
  induction as generalizing s with
  | nil =>
    obtain rfl := Except.ok.inj h
    simp [downs]
  | cons a as ih =>
    have hnext := next_data s a
    have hrest := ih (s := monitor.next s a) h
    rw [hrest, hnext]
    simp only [downs]
    push_cast
    omega

/-- What holds of a latch whose count is gone: its threads go on until all have returned. -/
def Opens (n : ℕ) (s : State ℤ Unit) : Prop :=
  ∀ as s', machine.Along (fun s a => Env n s a ∧ a.Going n) s as → machine.run s as = .ok s' →
    as.length ≤ 4 * n ∧ ((∀ t, s'.pc t = .idle) ∨ ∃ t w, t < n ∧ Enabled s' t w)

structure Inv (n : ℕ) (s : State ℤ Unit) : Prop where
  base : monitor.Inv (fun _ => True) s
  idle : ∀ t, n ≤ t → s.pc t = .idle

theorem inv_start (n : ℕ) (count : ℤ) : Inv n (State.start count) :=
  ⟨Monitor.inv_start count, fun _ _ => rfl⟩

theorem step_inv {n : ℕ} {s : State ℤ Unit} {a : Action Unit} (h : Inv n s) (ha : Env n s a) :
    ∃ s', machine.step s a = .ok s' ∧ Inv n s' :=
  ⟨monitor.next s a, rfl, h.base.next wakes ha.1, idle_next h.idle ha.2⟩

theorem Inv.opens {n : ℕ} {s : State ℤ Unit} (h : Inv n s) (hcount : s.data ≤ 0) : Opens n s := by
  intro as s' has hrun
  have hguard : monitor.guard s.data = false := decide_eq_false (by omega)
  have hgoing : machine.Along (fun s a => Monitor.Env (fun _ => True) s a ∧ a.Going n) s as :=
    Machine.along_of_along (I := fun _ => True) (fun _ _ _ _ _ _ => trivial)
      (fun s a _ ha => ⟨ha.1.1, ha.2⟩) trivial has
  obtain ⟨t, ht, hinv, hguard', hlen⟩ := length_le_of_steps wakes stable h.base hguard hgoing
  obtain rfl : t = s' := Except.ok.inj (ht.symm.trans hrun)
  have hidle : ∀ u, n ≤ u → t.pc u = .idle :=
    (Machine.inv_of_along (Machine.step_inv_of_exists fun s a (hs : Inv n s) ha => step_inv hs ha) h
      ((Machine.along_and.1 has).1) hrun).idle
  refine ⟨le_trans (by omega) (toGo_le s n), ?_⟩
  by_cases hall : ∀ u, t.pc u = .idle
  · exact Or.inl hall
  · right
    obtain ⟨u, hu⟩ := not_forall.1 hall
    obtain ⟨v, w, hbusy, henabled⟩ := enabled_of_busy hinv hguard' hu
    refine ⟨v, w, ?_, henabled⟩
    by_contra hv
    exact hbusy (hidle v (by omega))

theorem latch_opens (n : ℕ) (count : ℤ) (as : List (Action Unit))
    (hE : machine.Along (Env n) (State.start count) as) :
    ∃ s, machine.run (State.start count) as = .ok s ∧ s.data = count - (downs (State.start count) as : ℕ) ∧
      (∀ t, s.pc t = .waitUnlock → s.data ≤ 0) ∧ (s.data ≤ 0 → Opens n s) := by
  obtain ⟨s, hrun, hinv⟩ :=
    Machine.run_ok_of_along (fun s a (hs : Inv n s) ha => step_inv hs ha) (inv_start n count) hE
  refine ⟨s, hrun, data_eq hrun, fun t ht => ?_, hinv.opens⟩
  have hgone : ¬ 0 < s.data := of_decide_eq_false (hinv.base.returns t ht)
  omega

/-- A thread blocks, and another one counts down. -/
theorem latch_opens_two :
    ∃ s, machine.run (State.start 1) [.callWait 0, .step 0 0, .step 0 0, .callOp 1 (), .step 1 0, .step 1 0,
      .step 1 0] = .ok s ∧ s.data = 1 - 1 ∧ (s.data ≤ 0 → Opens 2 s) := by
  have hE : machine.Along (Env 2) (State.start 1) [.callWait 0, .step 0 0, .step 0 0, .callOp 1 (),
      .step 1 0, .step 1 0, .step 1 0] := by
    refine (Machine.along_cons_ok rfl).2 ⟨⟨⟨rfl, trivial⟩, by decide⟩, ?_⟩
    refine (Machine.along_cons_ok rfl).2 ⟨⟨rfl, by decide⟩, ?_⟩
    refine (Machine.along_cons_ok rfl).2 ⟨⟨trivial, by decide⟩, ?_⟩
    refine (Machine.along_cons_ok rfl).2 ⟨⟨rfl, by decide⟩, ?_⟩
    refine (Machine.along_cons_ok rfl).2 ⟨⟨rfl, by decide⟩, ?_⟩
    refine (Machine.along_cons_ok rfl).2 ⟨⟨trivial, by decide⟩, ?_⟩
    exact (Machine.along_cons_ok rfl).2 ⟨⟨trivial, by decide⟩, trivial⟩
  obtain ⟨s, hrun, hdata, -, hopens⟩ := latch_opens 2 1 _ hE
  exact ⟨s, hrun, hdata.trans (by decide), hopens⟩

end CountDownLatch

end Reactor
