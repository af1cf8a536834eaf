import Mathlib.Algebra.BigOperators.Group.Finset.Piecewise
import Mathlib.Algebra.Order.BigOperators.Group.Finset
import Reactor.Lib.Machine

/-!
# Monitors

Data behind a mutex with one condition variable.  A thread may wait until a condition on the data is
gone (`while (guard) wait()`), or run an operation under the mutex that may signal at its end.
Threads are numbers; every action is one step of one thread, and a thread that is blocked may wake up
without a signal.

* `Inv.exclusive`: the thread that owns the mutex is the one inside.
* `Inv.returns`: a thread leaves its wait in a state without the guard.
* `Inv.awake`: when every operation that takes the guard away signals (all threads, or the only one
  that waits), no thread is blocked in a state without the guard, unless it is about to be woken.
* `enabled_of_busy`, `length_le_of_steps`: then, once the guard is gone for good, some thread that has
  begun can go on until all have returned, and they do so within a bounded number of steps.
-/

/-- What an operation does to the condition variable at its end. -/
inductive Signal where
  | none
  | one
  | all
  deriving DecidableEq, Repr

/-- The data of a monitor: when a thread has to wait, and what the operations do. -/
structure Monitor (σ ι : Type) where
  guard : σ → Bool
  op : ι → σ → σ
  /-- The signal of the operation, on the data it finds. -/
  signal : ι → σ → Signal

namespace Monitor

/-- Where a thread is. -/
inductive Pc (ι : Type) where
  | idle
  -- `lock`, the test of the guard, `pthread_cond_wait`, its `lock` after a signal, `unlock`
  | waitLock
  | waitTest
  | blocked
  | woken
  | waitUnlock
  -- `lock`, the operation, its signal, `unlock`
  | opLock (i : ι)
  | opRun (i : ι)
  | opSignal (sg : Signal)
  | opUnlock
  deriving DecidableEq, Repr

variable {σ ι : Type}

/-- The thread is between `lock` and `unlock`. -/
def Pc.Inside : Pc ι → Prop
  | .waitTest | .waitUnlock | .opRun _ | .opSignal _ | .opUnlock => True
  | .idle | .waitLock | .blocked | .woken | .opLock _ => False

/-- The thread has called `wait`. -/
def Pc.Waits : Pc ι → Prop
  | .waitLock | .waitTest | .blocked | .woken | .waitUnlock => True
  | .idle | .opLock _ | .opRun _ | .opSignal _ | .opUnlock => False

structure State (σ ι : Type) where
  data : σ
  owner : Option ℕ
  pc : ℕ → Pc ι

inductive Action (ι : Type) where
  | callWait (t : ℕ)
  | callOp (t : ℕ) (i : ι)
  -- the thread goes on; a signal to one thread goes to `w`
  | step (t w : ℕ)
  | spurious (t : ℕ)

def State.start (d : σ) : State σ ι := ⟨d, none, fun _ => .idle⟩

def State.goto (s : State σ ι) (t : ℕ) (pc : Pc ι) : State σ ι :=
  { s with pc := Function.update s.pc t pc }

/-- `pthread_cond_broadcast` and `pthread_cond_signal` -/
def State.wake (s : State σ ι) (w : ℕ) : Signal → State σ ι
  | .none => s
  | .one => match s.pc w with
    | .blocked => s.goto w .woken
    | _ => s
  | .all => { s with pc := fun t => match s.pc t with
    | .blocked => .woken
    | pc => pc }

variable (M : Monitor σ ι)

/-- One step of a thread. -/
def advance (s : State σ ι) (t w : ℕ) : State σ ι :=
  match s.pc t with
  | .idle | .blocked => s
  | .waitLock | .woken => { s.goto t .waitTest with owner := some t }
  | .waitTest =>
    if M.guard s.data then { s.goto t .blocked with owner := none } else s.goto t .waitUnlock
  | .opLock i => { s.goto t (.opRun i) with owner := some t }
  | .opRun i => { s.goto t (.opSignal (M.signal i s.data)) with data := M.op i s.data }
  | .opSignal sg => (s.goto t .opUnlock).wake w sg
  | .waitUnlock | .opUnlock => { s.goto t .idle with owner := none }

def next (s : State σ ι) : Action ι → State σ ι
  | .callWait t => s.goto t .waitLock
  | .callOp t i => s.goto t (.opLock i)
  | .step t w => M.advance s t w
  | .spurious t => s.goto t .woken

def machine : Machine (State σ ι) (Action ι) Empty := ⟨fun s a => .ok (M.next s a)⟩

/-- The thread can go on: the mutex is free if it needs it, and a signal to one thread goes to one that
is blocked. -/
def Enabled (s : State σ ι) (t w : ℕ) : Prop :=
  match s.pc t with
  | .idle | .blocked => False
  | .waitLock | .woken | .opLock _ => s.owner = none
  | .opSignal .one => (∃ u, s.pc u = .blocked) → s.pc w = .blocked
  | .waitTest | .waitUnlock | .opRun _ | .opSignal .none | .opSignal .all | .opUnlock => True

/-- `waiter` are the threads that may call `wait`. -/
def Env (waiter : ℕ → Prop) (s : State σ ι) : Action ι → Prop
  | .callWait t => s.pc t = .idle ∧ waiter t
  | .callOp t _ => s.pc t = .idle
  | .step t w => Enabled s t w
  | .spurious t => s.pc t = .blocked

/-- An operation that takes the guard away wakes every thread that may be blocked. -/
structure Wakes (waiter : ℕ → Prop) : Prop where
  signal : ∀ i d, M.guard d = true → M.guard (M.op i d) = false →
    M.signal i d = .all ∨ M.signal i d = .one ∧ ∀ t u, waiter t → waiter u → t = u

/-- The signal reaches every thread that is blocked. -/
def Reaches (waiter : ℕ → Prop) (sg : Signal) : Prop :=
  sg = .all ∨ sg = .one ∧ ∀ t u, waiter t → waiter u → t = u

structure Inv (waiter : ℕ → Prop) (s : State σ ι) : Prop where
  exclusive : ∀ t, s.owner = some t ↔ (s.pc t).Inside
  waits : ∀ t, (s.pc t).Waits → waiter t
  returns : ∀ t, s.pc t = .waitUnlock → M.guard s.data = false
  awake : ∀ t, s.pc t = .blocked → M.guard s.data = true ∨
    ∃ u sg, s.pc u = .opSignal sg ∧ Reaches waiter sg

variable {M} {waiter : ℕ → Prop} {s : State σ ι}

theorem inv_start (d : σ) : M.Inv waiter (State.start d) :=
  ⟨fun _ => ⟨fun h => (by cases h), fun h => h.elim⟩, fun _ h => h.elim, fun _ h => (by cases h),
    fun _ h => (by cases h)⟩

theorem goto_self (s : State σ ι) (t : ℕ) (pc : Pc ι) : (s.goto t pc).pc t = pc := by
  unfold State.goto
  dsimp only
  rw [Function.update_self]

theorem goto_of_ne (s : State σ ι) {t u : ℕ} (pc : Pc ι) (h : u ≠ t) : (s.goto t pc).pc u = s.pc u := by
  unfold State.goto
  dsimp only
  rw [Function.update_of_ne h]

/-- Two threads are not inside at once. -/
theorem Inv.eq_of_inside (h : M.Inv waiter s) {t u : ℕ} (ht : (s.pc t).Inside) (hu : (s.pc u).Inside) :
    t = u :=
  Option.some.inj (((h.exclusive t).2 ht).symm.trans ((h.exclusive u).2 hu))

/-! ## Steps -/

/-- A thread goes on without touching the data, from anywhere but a signal. -/
theorem Inv.move (h : M.Inv waiter s) {t : ℕ} {pc : Pc ι} {owner : Option ℕ}
    (howner : owner = some t ↔ pc.Inside) (hothers : ∀ u, u ≠ t → (owner = some u ↔ s.owner = some u))
    (hwaits : pc.Waits → waiter t) (hreturns : pc = .waitUnlock → M.guard s.data = false)
    (hblocked : pc = .blocked → M.guard s.data = true) (hsignal : ∀ sg, s.pc t ≠ .opSignal sg) :
    M.Inv waiter { s.goto t pc with owner := owner } := by
  refine ⟨fun u => ?_, fun u => ?_, fun u => ?_, fun u => ?_⟩ <;> by_cases hu : u = t
  · subst hu
    rw [goto_self]
    exact howner
  · rw [goto_of_ne s pc hu]
    exact (hothers u hu).trans (h.exclusive u)
  · subst hu
    rw [goto_self]
    exact hwaits
  · rw [goto_of_ne s pc hu]
    exact h.waits u
  · subst hu
    rw [goto_self]
    exact hreturns
  · rw [goto_of_ne s pc hu]
    exact h.returns u
  · subst hu
    rw [goto_self]
    exact fun hb => Or.inl (hblocked hb)
  · rw [goto_of_ne s pc hu]
    intro hb
    rcases h.awake u hb with hguard | ⟨v, sg, hv, hreach⟩
    · exact Or.inl hguard
    · refine Or.inr ⟨v, sg, ?_, hreach⟩
      have hvt : v ≠ t := by
        rintro rfl
        exact hsignal sg hv
      rw [goto_of_ne s pc hvt]
      exact hv

/-- A thread outside stays outside. -/
theorem Inv.stay (h : M.Inv waiter s) {t : ℕ} {pc : Pc ι} (hout : ¬ (s.pc t).Inside)
    (hpc : ¬ pc.Inside) (hwaits : pc.Waits → waiter t) (hblocked : pc ≠ .blocked) :
    M.Inv waiter (s.goto t pc) := by
  have howner : s.owner = some t ↔ pc.Inside := (h.exclusive t).trans (iff_of_false hout hpc)
  refine h.move howner (fun _ _ => Iff.rfl) hwaits ?_ (fun hb => absurd hb hblocked) ?_
  · rintro rfl
    exact absurd trivial hpc
  · intro sg hsg
    rw [hsg] at hout
    exact hout trivial

/-- The operation: whoever is blocked without the guard after it is about to be woken. -/
theorem Inv.run (hM : M.Wakes waiter) (h : M.Inv waiter s) {t : ℕ} {i : ι} (hpc : s.pc t = .opRun i) :
    M.Inv waiter { s.goto t (.opSignal (M.signal i s.data)) with data := M.op i s.data } := by
  have hin : (s.pc t).Inside := by rw [hpc]; trivial
  have hother : ∀ u, u ≠ t → ¬ (s.pc u).Inside := fun u hu hu' => hu (h.eq_of_inside hu' hin)
  refine ⟨fun u => ?_, fun u => ?_, fun u => ?_, fun u => ?_⟩ <;> by_cases hu : u = t
  · subst hu
    rw [goto_self]
    exact (h.exclusive u).trans (iff_of_true hin trivial)
  · rw [goto_of_ne s _ hu]
    exact h.exclusive u
  · subst hu
    rw [goto_self]
    exact fun hw => hw.elim
  · rw [goto_of_ne s _ hu]
    exact h.waits u
  · subst hu
    rw [goto_self]
    exact fun hw => (by cases hw)
  · rw [goto_of_ne s _ hu]
    intro hw
    exact absurd (by rw [hw]; trivial) (hother u hu)
  · subst hu
    rw [goto_self]
    exact fun hw => (by cases hw)
  · rw [goto_of_ne s _ hu]
    intro hb
    cases hguard : M.guard (M.op i s.data) with
    | true => exact Or.inl rfl
    | false =>
      right
      refine ⟨t, M.signal i s.data, goto_self s t _, ?_⟩
      rcases h.awake u hb with hbefore | ⟨v, sg, hv, -⟩
      · exact hM.signal i s.data hbefore hguard
      · -- nobody else is at a signal
        have hvt : v = t := h.eq_of_inside (by rw [hv]; trivial) hin
        rw [hvt, hpc] at hv
        cases hv

/-- What a wake-up leaves of the places of the threads. -/
theorem wake_pc (s : State σ ι) (w : ℕ) (sg : Signal) (u : ℕ) :
    (s.wake w sg).pc u = s.pc u ∨ s.pc u = .blocked ∧ (s.wake w sg).pc u = .woken := by
  cases sg with
  | none => exact Or.inl rfl
  | one =>
    rw [State.wake]
    split
    · rename_i hw
      by_cases hu : u = w
      · subst hu
        exact Or.inr ⟨hw, goto_self s u _⟩
      · exact Or.inl (goto_of_ne s _ hu)
    · exact Or.inl rfl
  | all =>
    rw [State.wake]
    dsimp only
    cases hu : s.pc u with
    | blocked => exact Or.inr ⟨rfl, rfl⟩
    | idle | waitLock | waitTest | woken | waitUnlock | opLock _ | opRun _ | opSignal _ | opUnlock =>
      exact Or.inl rfl

theorem wake_data (s : State σ ι) (w : ℕ) (sg : Signal) :
    (s.wake w sg).data = s.data ∧ (s.wake w sg).owner = s.owner := by
  cases sg with
  | none | all => exact ⟨rfl, rfl⟩
  | one =>
    rw [State.wake]
    split <;> exact ⟨rfl, rfl⟩

/-- A signal that reaches all leaves nobody blocked. -/
theorem not_blocked_of_reaches {s : State σ ι} {w : ℕ} {sg : Signal} (hreach : Reaches waiter sg)
    (hwaits : ∀ t, (s.pc t).Waits → waiter t)
    (hw : sg = .one → (∃ u, s.pc u = .blocked) → s.pc w = .blocked) (u : ℕ) :
    (s.wake w sg).pc u ≠ .blocked := by
  intro hblocked
  rcases hreach with rfl | ⟨rfl, honly⟩
  · rw [State.wake] at hblocked
    dsimp only at hblocked
    cases hu : s.pc u <;> rw [hu] at hblocked <;> cases hblocked
  · have hu : s.pc u = .blocked := by
      rcases wake_pc s w .one u with heq | ⟨hu, -⟩
      · exact heq.symm.trans hblocked
      · exact hu
    have hwb := hw rfl ⟨u, hu⟩
    obtain rfl : u = w := honly u w (hwaits u (by rw [hu]; trivial)) (hwaits w (by rw [hwb]; trivial))
    rw [State.wake, hwb] at hblocked
    dsimp only at hblocked
    rw [goto_self] at hblocked
    cases hblocked

theorem Inv.signal (h : M.Inv waiter s) {t w : ℕ} {sg : Signal} (hpc : s.pc t = .opSignal sg)
    (hw : sg = .one → (∃ u, s.pc u = .blocked) → s.pc w = .blocked) :
    M.Inv waiter ((s.goto t .opUnlock).wake w sg) := by
  have hin : (s.pc t).Inside := by rw [hpc]; trivial
  obtain ⟨hdata, howner⟩ := wake_data (s.goto t .opUnlock) w sg
  have hself : ((s.goto t .opUnlock).wake w sg).pc t = .opUnlock := by
    rcases wake_pc (s.goto t .opUnlock) w sg t with heq | ⟨hb, -⟩
    · rw [heq, goto_self]
    · rw [goto_self] at hb
      cases hb
  have hplace : ∀ u, u ≠ t → ((s.goto t .opUnlock).wake w sg).pc u = s.pc u ∨
      s.pc u = .blocked ∧ ((s.goto t .opUnlock).wake w sg).pc u = .woken := by
    intro u hu
    have hwake := wake_pc (s.goto t .opUnlock) w sg u
    rwa [goto_of_ne s _ hu] at hwake
  refine ⟨fun u => ?_, fun u hu => ?_, fun u hu => ?_, fun u hu => ?_⟩ <;> by_cases hut : u = t
  · subst hut
    rw [howner, hself]
    exact (h.exclusive u).trans (iff_of_true hin trivial)
  · rw [howner]
    refine (h.exclusive u).trans ?_
    rcases hplace u hut with heq | ⟨hb, hwoken⟩
    · rw [heq]
    · rw [hb, hwoken]
      exact Iff.rfl
  · subst hut
    rw [hself] at hu
    exact hu.elim
  · rcases hplace u hut with heq | ⟨hb, -⟩
    · rw [heq] at hu
      exact h.waits u hu
    · exact h.waits u (by rw [hb]; trivial)
  · subst hut
    rw [hself] at hu
    cases hu
  · rw [hdata]
    rcases hplace u hut with heq | ⟨-, hwoken⟩
    · exact h.returns u (heq.symm.trans hu)
    · rw [hwoken] at hu
      cases hu
  · subst hut
    rw [hself] at hu
    cases hu
  · have hb : s.pc u = .blocked := by
      rcases hplace u hut with heq | ⟨hb, -⟩
      · exact heq.symm.trans hu
      · exact hb
    rw [hdata]
    rcases h.awake u hb with hguard | ⟨v, sg', hv, hreach⟩
    · exact Or.inl hguard
    · -- the signal is the one that is given now
      obtain rfl : v = t := h.eq_of_inside (by rw [hv]; trivial) hin
      obtain rfl : sg' = sg := Pc.opSignal.inj (hv.symm.trans hpc)
      refine absurd hu (not_blocked_of_reaches hreach (fun x hx => ?_) (fun hone _ => ?_) u)
      · by_cases hxv : x = v
        · subst hxv
          rw [goto_self] at hx
          exact hx.elim
        · rw [goto_of_ne s _ hxv] at hx
          exact h.waits x hx
      · have hwb := hw hone ⟨u, hb⟩
        have hwv : w ≠ v := by
          rintro rfl
          rw [hpc] at hwb
          cases hwb
        rw [goto_of_ne s _ hwv]
        exact hwb

/-- Every action keeps the invariant. -/
theorem Inv.next (hM : M.Wakes waiter) (h : M.Inv waiter s) {a : Action ι} (ha : Env waiter s a) :
    M.Inv waiter (M.next s a) := by
  cases a with
  | callWait t =>
    obtain ⟨hidle, hwaiter⟩ := ha
    exact h.stay (by rw [hidle]; exact id) id (fun _ => hwaiter) (by simp)
  | callOp t i =>
    have hidle : s.pc t = .idle := ha
    exact h.stay (by rw [hidle]; exact id) id (fun hw => hw.elim) (by simp)
  | spurious t =>
    have hblocked : s.pc t = .blocked := ha
    exact h.stay (by rw [hblocked]; exact id) id (fun _ => h.waits t (by rw [hblocked]; trivial)) (by simp)
  | step t w =>
    have hstep : Enabled s t w := ha
    unfold Enabled at hstep
    show M.Inv waiter (M.advance s t w)
    unfold advance
    -- what taking and releasing the mutex means to the other threads
    have hfree : s.owner = none → ∀ u, u ≠ t → (some t = some u ↔ s.owner = some u) := by
      intro hnone u hu
      rw [hnone]
      exact iff_of_false (fun heq => hu (Option.some.inj heq).symm) (fun heq => by cases heq)
    have hrelease : (s.pc t).Inside → ∀ u, u ≠ t → (none = some u ↔ s.owner = some u) := by
      intro hin u hu
      rw [(h.exclusive t).2 hin]
      exact iff_of_false (fun heq => by cases heq) (fun heq => hu (Option.some.inj heq).symm)
    cases hpc : s.pc t with
    | idle | blocked =>
      rw [hpc] at hstep
      exact hstep.elim
    | waitLock | woken =>
      rw [hpc] at hstep
      exact h.move (iff_of_true rfl trivial) (hfree hstep)
        (fun _ => h.waits t (by rw [hpc]; trivial)) (fun hw => by cases hw) (fun hw => by cases hw)
        (fun sg => by rw [hpc]; simp)
    | waitTest =>
      have hin : (s.pc t).Inside := by rw [hpc]; trivial
      have hwaiter : waiter t := h.waits t (by rw [hpc]; trivial)
      dsimp only
      cases hguard : M.guard s.data with
      | true =>
        exact h.move (iff_of_false (fun hw => by cases hw) id) (hrelease hin) (fun _ => hwaiter)
          (fun hw => by cases hw) (fun _ => hguard) (fun sg => by rw [hpc]; simp)
      | false =>
        have howner : s.owner = some t ↔ (Pc.waitUnlock : Pc ι).Inside :=
          (h.exclusive t).trans (iff_of_true hin trivial)
        exact h.move howner (fun _ _ => Iff.rfl) (fun _ => hwaiter) (fun _ => hguard) (fun hw => by cases hw)
          (fun sg => by rw [hpc]; simp)
    | waitUnlock | opUnlock =>
      have hin : (s.pc t).Inside := by rw [hpc]; trivial
      exact h.move (iff_of_false (fun hw => by cases hw) id) (hrelease hin) (fun hw => hw.elim)
        (fun hw => by cases hw) (fun hw => by cases hw) (fun sg => by rw [hpc]; simp)
    | opLock i =>
      rw [hpc] at hstep
      exact h.move (iff_of_true rfl trivial) (hfree hstep) (fun hw => hw.elim) (fun hw => by cases hw)
        (fun hw => by cases hw) (fun sg => by rw [hpc]; simp)
    | opRun i => exact h.run hM hpc
    | opSignal sg =>
      refine h.signal hpc fun hone => ?_
      subst hone
      rw [hpc] at hstep
      exact hstep

/-- A step of one thread only wakes the others. -/
theorem advance_pc_of_ne (s : State σ ι) {t u : ℕ} (w : ℕ) (hu : u ≠ t) :
    (M.advance s t w).pc u = s.pc u ∨ s.pc u = .blocked ∧ (M.advance s t w).pc u = .woken := by
  unfold advance
  cases s.pc t with
  | idle | blocked => exact Or.inl rfl
  | waitLock | woken | waitUnlock | opUnlock | opLock _ | opRun _ => exact Or.inl (goto_of_ne s _ hu)
  | waitTest =>
    dsimp only
    split_ifs <;> exact Or.inl (goto_of_ne s _ hu)
  | opSignal sg =>
    have hwake := wake_pc (s.goto t .opUnlock) w sg u
    rwa [goto_of_ne s _ hu] at hwake

/-- A thread that waits leaves the data alone, and goes on waiting until it unlocks. -/
theorem advance_of_waits {t : ℕ} (w : ℕ) (ht : (s.pc t).Waits) :
    (M.advance s t w).data = s.data ∧
      (((M.advance s t w).pc t).Waits ∨ (M.advance s t w).pc t = .idle ∧ s.pc t = .waitUnlock) := by
  unfold advance
  cases hpc : s.pc t with
  | idle | opLock _ | opRun _ | opSignal _ | opUnlock =>
    rw [hpc] at ht
    exact ht.elim
  | blocked => exact ⟨rfl, Or.inl (by rw [hpc]; trivial)⟩
  | waitLock | woken => exact ⟨rfl, Or.inl (by rw [goto_self]; trivial)⟩
  | waitTest =>
    dsimp only
    split_ifs <;> exact ⟨rfl, Or.inl (by rw [goto_self]; trivial)⟩
  | waitUnlock => exact ⟨rfl, Or.inr ⟨goto_self s t _, rfl⟩⟩

/-- The thread that an action is a step of. -/
def Action.thread : Action ι → ℕ
  | .callWait t | .callOp t _ | .step t _ | .spurious t => t

/-- Threads that are not in a call are left alone. -/
theorem idle_next {n : ℕ} (h : ∀ t, n ≤ t → s.pc t = .idle) {a : Action ι} (ha : a.thread < n) (t : ℕ)
    (ht : n ≤ t) : (M.next s a).pc t = .idle := by
  have hgoto : ∀ (s : State σ ι) (pc : Pc ι), (∀ t, n ≤ t → s.pc t = .idle) →
      (s.goto a.thread pc).pc t = .idle := by
    intro s pc hs
    rw [goto_of_ne s pc (by omega)]
    exact hs t ht
  cases a with
  | callWait u | callOp u i | spurious u => exact hgoto s _ h
  | step u w =>
    show (M.advance s u w).pc t = .idle
    unfold advance
    cases hpc : s.pc u with
    | idle | blocked => exact h t ht
    | waitLock | woken | waitUnlock | opUnlock | opLock _ | opRun _ => exact hgoto s _ h
    | waitTest =>
      dsimp only
      split_ifs
      · exact hgoto s _ h
      · exact hgoto s _ h
    | opSignal sg =>
      rcases wake_pc (s.goto u .opUnlock) w sg t with heq | ⟨hb, -⟩
      · exact heq.trans (hgoto s _ h)
      · cases (hgoto s .opUnlock h).symm.trans hb

/-! ## Progress -/

/-- The thread is in a call. -/
def Busy (s : State σ ι) (t : ℕ) : Prop := s.pc t ≠ .idle

/-- As long as a thread is in a call and the guard is gone, some thread can go on. -/
theorem enabled_of_busy (h : M.Inv waiter s) (hguard : M.guard s.data = false) {t : ℕ} (ht : Busy s t) :
    ∃ u w, Busy s u ∧ Enabled s u w := by
  cases howner : s.owner with
  | some u =>
    -- the owner of the mutex
    have hin := (h.exclusive u).1 howner
    have hbusy : Busy s u := by
      intro hidle
      rw [hidle] at hin
      exact hin
    -- a signal to one thread goes to one that is blocked
    obtain ⟨w, hw⟩ : ∃ w, (∃ v, s.pc v = .blocked) → s.pc w = .blocked := by
      by_cases hb : ∃ v, s.pc v = .blocked
      · obtain ⟨v, hv⟩ := hb
        exact ⟨v, fun _ => hv⟩
      · exact ⟨0, fun hb' => absurd hb' hb⟩
    refine ⟨u, w, hbusy, ?_⟩
    unfold Enabled
    cases hpc : s.pc u with
    | idle | blocked | waitLock | woken | opLock _ =>
      rw [hpc] at hin
      exact hin.elim
    | opSignal sg =>
      cases sg with
      | one => exact hw
      | none | all => trivial
    | waitTest | waitUnlock | opRun _ | opUnlock => trivial
  | none =>
    have hout : ∀ u, ¬ (s.pc u).Inside := by
      intro u hin
      rw [(h.exclusive u).2 hin] at howner
      cases howner
    refine ⟨t, t, ht, ?_⟩
    unfold Enabled
    have houtt := hout t
    unfold Busy at ht
    cases hpc : s.pc t with
    | idle => exact absurd hpc ht
    | blocked =>
      rcases h.awake t hpc with hg | ⟨u, sg, hu, -⟩
      · rw [hguard] at hg
        cases hg
      · exact absurd (by rw [hu]; trivial) (hout u)
    | waitLock | woken | opLock _ => exact howner
    | waitTest | waitUnlock | opRun _ | opSignal _ | opUnlock =>
      rw [hpc] at houtt
      exact absurd trivial houtt

/-- How many steps a thread has at most before it, once the guard is gone. -/
def Pc.toGo : Pc ι → ℕ
  | .idle => 0
  | .waitUnlock | .opUnlock => 1
  | .waitTest | .opSignal _ => 2
  | .waitLock | .woken | .opRun _ => 3
  | .blocked | .opLock _ => 4

/-- The steps of the first `n` threads. -/
def State.toGo (s : State σ ι) (n : ℕ) : ℕ := ∑ t ∈ Finset.range n, (s.pc t).toGo

theorem toGo_le (s : State σ ι) (n : ℕ) : s.toGo n ≤ 4 * n := by
  have hle : s.toGo n ≤ ∑ _t ∈ Finset.range n, 4 := by
    refine Finset.sum_le_sum fun t _ => ?_
    cases s.pc t <;> simp only [Pc.toGo] <;> omega
  rw [Finset.sum_const_nat fun _ _ => rfl, Finset.card_range] at hle
  omega

theorem toGo_goto (s : State σ ι) {t n : ℕ} (ht : t < n) (pc : Pc ι) :
    (s.goto t pc).toGo n + (s.pc t).toGo = s.toGo n + pc.toGo := by
  have hsum : ∀ f : ℕ → ℕ, ∑ u ∈ Finset.range n, f u =
      f t + ∑ u ∈ (Finset.range n).erase t, f u := fun f =>
    (Finset.add_sum_erase _ f (Finset.mem_range.2 ht)).symm
  have hrest : ∑ u ∈ (Finset.range n).erase t, ((s.goto t pc).pc u).toGo =
      ∑ u ∈ (Finset.range n).erase t, (s.pc u).toGo := by
    refine Finset.sum_congr rfl fun u hu => ?_
    rw [goto_of_ne s pc (Finset.ne_of_mem_erase hu)]
  unfold State.toGo
  rw [hsum, hsum, goto_self, hrest]
  omega

theorem toGo_goto_lt {t n : ℕ} (ht : t < n) {pc : Pc ι} (hlt : pc.toGo < (s.pc t).toGo) :
    (s.goto t pc).toGo n < s.toGo n := by
  have heq := toGo_goto s ht pc
  omega

theorem toGo_wake_le (s : State σ ι) (w : ℕ) (sg : Signal) (n : ℕ) : (s.wake w sg).toGo n ≤ s.toGo n := by
  refine Finset.sum_le_sum fun u _ => ?_
  rcases wake_pc s w sg u with heq | ⟨hb, hwoken⟩
  · rw [heq]
  · rw [hb, hwoken]
    simp only [Pc.toGo]
    omega

/-- Without the guard, every step brings the threads nearer to their ends. -/
theorem toGo_advance_lt (hguard : M.guard s.data = false) {t w n : ℕ} (ht : t < n) (ha : Enabled s t w) :
    (M.advance s t w).toGo n < s.toGo n := by
  unfold Enabled at ha
  unfold advance
  cases hpc : s.pc t with
  | idle | blocked =>
    rw [hpc] at ha
    exact ha.elim
  | waitLock | woken | waitUnlock | opUnlock | opLock _ | opRun _ =>
    exact toGo_goto_lt ht (by rw [hpc]; simp only [Pc.toGo]; omega)
  | waitTest =>
    dsimp only
    rw [hguard, if_neg (by decide)]
    exact toGo_goto_lt ht (by rw [hpc]; simp only [Pc.toGo]; omega)
  | opSignal sg =>
    exact lt_of_le_of_lt (toGo_wake_le _ w sg n) (toGo_goto_lt ht (by rw [hpc]; simp only [Pc.toGo]; omega))

/-- No operation brings the guard back. -/
def Stable (M : Monitor σ ι) : Prop := ∀ i d, M.guard d = false → M.guard (M.op i d) = false

theorem guard_advance (hM : M.Stable) (hguard : M.guard s.data = false) (t w : ℕ) :
    M.guard (M.advance s t w).data = false := by
  unfold advance
  cases s.pc t with
  | idle | blocked | waitLock | woken | waitUnlock | opUnlock | opLock _ => exact hguard
  | waitTest =>
    dsimp only
    split_ifs <;> exact hguard
  | opRun i => exact hM i s.data hguard
  | opSignal sg => rw [(wake_data _ w sg).1]; exact hguard

/-- The action is a step of one of the first `n` threads, and no new call. -/
def Action.Going (n : ℕ) : Action ι → Prop
  | .step t _ | .spurious t => t < n
  | .callWait _ | .callOp _ _ => False

/-- Once the guard is gone for good, the threads need a bounded number of steps. -/
theorem length_le_of_steps (hM : M.Wakes waiter) (hstable : M.Stable) {n : ℕ} (h : M.Inv waiter s)
    (hguard : M.guard s.data = false) {as : List (Action ι)}
    (has : M.machine.Along (fun s a => Env waiter s a ∧ a.Going n) s as) :
    ∃ s', M.machine.run s as = .ok s' ∧ M.Inv waiter s' ∧ M.guard s'.data = false ∧
      as.length + s'.toGo n ≤ s.toGo n := by
  induction as generalizing s with
  | nil => exact ⟨s, rfl, h, hguard, by rw [List.length_nil, Nat.zero_add]⟩
  | cons a as ih =>
    obtain ⟨⟨henv, hgoing⟩, hrest⟩ := has
    have hnext : M.guard (M.next s a).data = false ∧ (M.next s a).toGo n < s.toGo n := by
      cases a with
      | callWait t | callOp t i => exact hgoing.elim
      | step t w => exact ⟨guard_advance hstable hguard t w, toGo_advance_lt hguard hgoing henv⟩
      | spurious t =>
        have hblocked : s.pc t = .blocked := henv
        exact ⟨hguard, toGo_goto_lt hgoing (by rw [hblocked]; simp only [Pc.toGo]; omega)⟩
    obtain ⟨s', hrun, hinv, hguard', hlen⟩ :=
      ih (h.next hM henv) hnext.1 (hrest _ rfl)
    refine ⟨s', hrun, hinv, hguard', ?_⟩
    rw [List.length_cons]
    have hlt := hnext.2
    omega

end Monitor
