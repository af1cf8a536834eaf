import Reactor.EventLoop

/-!
# The order of the functors

Every functor that is queued, by whatever thread, is recorded when it joins `pendingFunctors_`, and
again when `doPendingFunctors` has run it.  The swap detaches a batch; what is queued while the batch
runs, by other threads or by the functors themselves, joins the next one.

* `functors_in_order`: what ran is a prefix of what was queued, the rest is the rest of the batch and
  `pendingFunctors_`, and a call of `doPendingFunctors` runs the batch it detached and nothing else.
-/

namespace Reactor

namespace EventLoop

/-- The local `functors`, as far as they have not run. -/
def Pc.batch : Pc → List ℕ
  | .functors fs => fs
  | .outside | .entered | .test | .poll | .handlers _ | .swap => []

/-- A loop and what became of its functors: `pushed` and `executed` list the calls of `push_back` and
the functors that ran, and `detached` counts the functors queued by the time of the last swap. -/
structure Recorded where
  loop : EventLoop
  pushed : List ℕ
  executed : List ℕ
  detached : ℕ
  deriving DecidableEq, Repr

namespace Recorded

def new (calling : Bool) : Recorded := ⟨EventLoop.new calling, [], [], 0⟩

/-- The functors that join the queue. -/
def pushes : Action → List ℕ
  | .queueInLoop cb | .otherPush cb => [cb]
  | .advance _ | .quitInLoop | .otherWakeup | .otherQuit | .otherQuitWakeup => []

/-- The functors whose execution ends: the first of the batch, if there is one. -/
def executes (pc : Pc) : Action → List ℕ
  | .advance _ => pc.batch.take 1
  | .queueInLoop _ | .quitInLoop | .otherPush _ | .otherWakeup | .otherQuit | .otherQuitWakeup => []

/-- The step is the swap. -/
def detaches (pc : Pc) : Action → Bool
  | .advance _ => pc = .swap
  | .queueInLoop _ | .quitInLoop | .otherPush _ | .otherWakeup | .otherQuit | .otherQuitWakeup => false

def step (s : Recorded) (a : Action) : Except Fault Recorded := do
  return {
    loop := ← s.loop.step a
    pushed := s.pushed ++ pushes a
    executed := s.executed ++ executes s.loop.pc a
    detached := if detaches s.loop.pc a then s.pushed.length else s.detached }

def machine : Machine Recorded Action Fault := ⟨step⟩

/-- Functors run in the order in which they were queued, and a batch has those queued before it was
detached. -/
structure InOrder (s : Recorded) : Prop where
  executed : s.executed <+: s.pushed
  rest : s.pushed.drop s.executed.length = s.loop.pc.batch ++ s.loop.pendingFunctors
  batch : ∀ fs, s.loop.pc = .functors fs → s.executed ++ fs = s.pushed.take s.detached

/-! ## One step -/

variable {l l' : EventLoop} {s s' : Recorded}

/-- What a step of the loop's thread means for the functors: the swap, the end of a functor, or
nothing. -/
theorem advance_cases {wakeup : Bool} (h : l.advance wakeup = .ok l') :
    (l.pc = .swap ∧ l'.pc = .functors l.pendingFunctors ∧ l'.pendingFunctors = []) ∨
    (∃ f fs, l.pc = .functors (f :: fs) ∧ l'.pc = .functors fs ∧
      l'.pendingFunctors = l.pendingFunctors) ∨
    (l.pc ≠ .swap ∧ l.pc.batch = [] ∧ l'.pc.batch = [] ∧ (∀ fs, l'.pc ≠ .functors fs) ∧
      l'.pendingFunctors = l.pendingFunctors) := by
  unfold advance at h
  cases hpc : l.pc with
  | outside =>
    rw [hpc] at h
    obtain ⟨-, h⟩ := check_bind_eq_ok.1 h
    obtain rfl := Except.ok.inj h
    exact .inr (.inr ⟨by simp, rfl, rfl, by simp, rfl⟩)
  | entered | poll =>
    rw [hpc] at h
    obtain rfl := Except.ok.inj h
    exact .inr (.inr ⟨by simp, rfl, rfl, by simp, rfl⟩)
  | test =>
    rw [hpc] at h
    dsimp only at h
    split_ifs at h
    · obtain rfl := Except.ok.inj h
      exact .inr (.inr ⟨by simp, rfl, rfl, by simp, rfl⟩)
    · obtain rfl := Except.ok.inj h
      exact .inr (.inr ⟨by simp, rfl, rfl, by simp, rfl⟩)
  | handlers wakeup =>
    rw [hpc] at h
    cases wakeup with
    | true | false =>
      obtain rfl := Except.ok.inj h
      exact .inr (.inr ⟨by simp, rfl, rfl, by simp, rfl⟩)
  | swap =>
    rw [hpc] at h
    obtain rfl := Except.ok.inj h
    exact .inl ⟨rfl, rfl, rfl⟩
  | functors fs =>
    rw [hpc] at h
    cases fs with
    | nil =>
      obtain rfl := Except.ok.inj h
      exact .inr (.inr ⟨by simp, rfl, rfl, by simp, rfl⟩)
    | cons f fs =>
      obtain rfl := Except.ok.inj h
      exact .inr (.inl ⟨f, fs, rfl, rfl, rfl⟩)

/-- The other actions leave the loop's thread where it is, and add to the queue at its end. -/
theorem step_of_not_advance {a : Action} (ha : ∀ wakeup, a ≠ .advance wakeup) :
    ∃ l', l.step a = .ok l' ∧ l'.pc = l.pc ∧ l'.pendingFunctors = l.pendingFunctors ++ pushes a ∧
      executes l.pc a = [] ∧ detaches l.pc a = false := by
  cases a with
  | advance wakeup => exact absurd rfl (ha wakeup)
  | queueInLoop cb =>
    have hqueue : (l.queueInLoop cb).pc = l.pc ∧
        (l.queueInLoop cb).pendingFunctors = l.pendingFunctors ++ [cb] := by
      unfold queueInLoop
      split_ifs <;> exact ⟨rfl, rfl⟩
    exact ⟨l.queueInLoop cb, rfl, hqueue.1, hqueue.2, rfl, rfl⟩
  | otherPush cb => exact ⟨_, rfl, rfl, rfl, rfl, rfl⟩
  | quitInLoop | otherWakeup | otherQuit | otherQuitWakeup =>
    exact ⟨_, rfl, rfl, (List.append_nil _).symm, rfl, rfl⟩

/-! ## The invariant -/

structure Inv (s : Recorded) : Prop where
  pushed : s.pushed = s.executed ++ (s.loop.pc.batch ++ s.loop.pendingFunctors)
  detached : s.detached ≤ s.pushed.length
  batch : ∀ fs, s.loop.pc = .functors fs → s.executed ++ fs = s.pushed.take s.detached

theorem inv_new (calling : Bool) : Inv (new calling) :=
  ⟨rfl, Nat.le_refl _, fun _ h => by cases h⟩

theorem Inv.inOrder (h : Inv s) : InOrder s where
  executed := ⟨_, h.pushed.symm⟩
  rest := by
    rw [h.pushed]
    exact List.drop_left
  batch := h.batch

theorem Inv.advance (h : Inv s) {wakeup : Bool} (hl : s.loop.advance wakeup = .ok l') :
    Inv ⟨l', s.pushed, s.executed ++ executes s.loop.pc (.advance wakeup),
      if detaches s.loop.pc (.advance wakeup) then s.pushed.length else s.detached⟩ := by
  rcases advance_cases hl with ⟨hpc, hpc', hq⟩ | ⟨f, fs, hpc, hpc', hq⟩ |
    ⟨hswap, hpc, hpc', hnot, hq⟩
  · -- the swap: the batch is all that has not run
    have hpushed := h.pushed
    rw [hpc] at hpushed ⊢
    refine ⟨?_, Nat.le_refl _, fun fs hfs => ?_⟩
    · simpa [hpc', hq, Pc.batch, executes] using hpushed
    · rw [hpc', Pc.functors.injEq] at hfs
      simpa [executes, detaches, Pc.batch, ← hfs] using hpushed.symm
  · have hpushed := h.pushed
    have hbatch := h.batch (f :: fs) hpc
    rw [hpc] at hpushed ⊢
    refine ⟨?_, h.detached, fun fs' hfs => ?_⟩
    · simpa [hpc', hq, Pc.batch, executes] using hpushed
    · rw [hpc', Pc.functors.injEq] at hfs
      simpa [executes, detaches, Pc.batch, ← hfs] using hbatch
  · have hpushed := h.pushed
    rw [hpc] at hpushed
    refine ⟨?_, ?_, fun fs hfs => absurd hfs (hnot fs)⟩
    · simpa [executes, hpc, hpc', hq] using hpushed
    · simpa [detaches, hswap] using h.detached

theorem Inv.step (h : Inv s) {a : Action} (hs : machine.step s a = .ok s') : Inv s' := by
  obtain ⟨l', hl, hs⟩ := bind_eq_ok.1 hs
  obtain rfl := Except.ok.inj hs
  by_cases ha : ∃ wakeup, a = .advance wakeup
  · obtain ⟨wakeup, rfl⟩ := ha
    simpa [pushes] using h.advance hl
  · have ha : ∀ wakeup, a ≠ .advance wakeup := fun wakeup heq => ha ⟨wakeup, heq⟩
    obtain ⟨l'', hl'', hpc, hq, hexec, hdet⟩ := step_of_not_advance (l := s.loop) ha
    obtain rfl : l'' = l' := Except.ok.inj (hl''.symm.trans hl)
    rw [hexec, hdet, List.append_nil, if_neg Bool.false_ne_true]
    refine ⟨?_, ?_, fun fs hfs => ?_⟩
    · dsimp only
      rw [hpc, hq, h.pushed]
      simp only [List.append_assoc]
    · exact Nat.le_trans h.detached (by simp)
    · dsimp only at hfs ⊢
      rw [hpc] at hfs
      rw [List.take_append_of_le_length h.detached]
      exact h.batch fs hfs

/-! ## One call of doPendingFunctors -/

/-- How many steps of the loop's thread are among the actions. -/
def advances (as : List Action) : ℕ := as.countP fun a => a matches .advance _

/-- Whatever is queued meanwhile, the loop's thread works on the batch it has. -/
theorem run_of_functors {fs : List ℕ} {bs : List Action} (hpc : s.loop.pc = .functors fs)
    (hbs : advances bs ≤ fs.length) :
    ∃ s', machine.run s bs = .ok s' ∧ s'.loop.pc = .functors (fs.drop (advances bs)) ∧
      s'.executed = s.executed ++ fs.take (advances bs) := by
  induction bs generalizing s fs with
  | nil => exact ⟨s, rfl, hpc, (List.append_nil _).symm⟩
  | cons a bs ih =>
    by_cases ha : ∃ wakeup, a = .advance wakeup
    · obtain ⟨wakeup, rfl⟩ := ha
      have hcount : advances (.advance wakeup :: bs) = advances bs + 1 :=
        List.countP_cons_of_pos rfl
      rw [hcount] at hbs ⊢
      cases fs with
      | nil => simp at hbs
      | cons f fs =>
        have hadvance : s.loop.advance wakeup = .ok { s.loop with pc := .functors fs } := by
          rw [EventLoop.advance, hpc]
          rfl
        obtain ⟨s', hrun, hpc', hexec⟩ := ih (s := ⟨{ s.loop with pc := .functors fs },
          s.pushed ++ [], s.executed ++ [f], s.detached⟩) rfl (Nat.le_of_succ_le_succ hbs)
        refine ⟨s', ?_, by simpa using hpc', by simpa using hexec⟩
        have hstep : machine.step s (.advance wakeup) = .ok ⟨{ s.loop with pc := .functors fs },
            s.pushed ++ [], s.executed ++ [f], s.detached⟩ := by
          show (s.loop.advance wakeup >>= _) = _
          rw [hadvance, ok_bind, hpc]
          rfl
        rw [Machine.run_cons_ok hstep]
        exact hrun
    · have ha : ∀ wakeup, a ≠ .advance wakeup := fun wakeup heq => ha ⟨wakeup, heq⟩
      have hcount : advances (a :: bs) = advances bs := by
        refine List.countP_cons_of_neg ?_
        cases a with
        | advance wakeup => exact absurd rfl (ha wakeup)
        | _ => simp
      obtain ⟨l', hl', hpcl, -, hexec, hdet⟩ := step_of_not_advance (l := s.loop) ha
      rw [hcount] at hbs ⊢
      have hstep : machine.step s a = .ok ⟨l', s.pushed ++ pushes a, s.executed, s.detached⟩ := by
        show (s.loop.step a >>= _) = _
        rw [hl', ok_bind, hexec, hdet, List.append_nil]
        rfl
      rw [Machine.run_cons_ok hstep]
      exact ih (hpcl.trans hpc) hbs

/-- In every run, whatever is queued by whom and when: what ran is a prefix of what was queued, and
the rest is the rest of the batch and `pendingFunctors_`.  A call that has the functors `fs` before it
returns once it has run them, and runs no other. -/
theorem functors_in_order (calling : Bool) (as : List Action) :
    machine.Always InOrder (new calling) as ∧
      ∀ s fs, machine.run (new calling) as = .ok s → s.loop.pc = .functors fs →
        ∀ bs, advances bs = fs.length → ∀ wakeup, ∃ s',
          machine.run s (bs ++ [.advance wakeup]) = .ok s' ∧ s'.loop.pc = .test ∧
            s'.executed = s.executed ++ fs := by
  constructor
  · exact (Machine.always_of_step (fun s a s' h hs => Inv.step h hs) (inv_new calling) as).mono
      fun s h => h.inOrder
  · intro s fs _ hpc bs hbs wakeup
    obtain ⟨t, ht, htpc, hexec⟩ := run_of_functors hpc (Nat.le_of_eq hbs)
    rw [hbs, List.drop_length] at htpc
    rw [hbs, List.take_length] at hexec
    have hadvance : t.loop.advance wakeup =
        .ok { t.loop with callingPendingFunctors := false, pc := .test } := by
      rw [EventLoop.advance, htpc]
      rfl
    have hstep : machine.step t (.advance wakeup) = .ok ⟨{ t.loop with
        callingPendingFunctors := false, pc := .test }, t.pushed ++ [], t.executed ++ [],
        t.detached⟩ := by
      show (t.loop.advance wakeup >>= _) = _
      rw [hadvance, ok_bind, htpc]
      rfl
    refine ⟨_, (Machine.run_append ht _).trans (Machine.run_cons_ok hstep []), rfl, ?_⟩
    simpa using hexec

/-- A functor that queues itself again, while another thread queues one: the call runs the batch of
one functor, and the two wait for the next call. -/
theorem functors_in_order_requeued :
    ∃ s s', machine.run (new false) [.otherPush 7, .otherWakeup, .advance false, .advance false,
        .advance false, .advance true, .advance true, .advance true, .advance true] = .ok s ∧
      machine.run s ([.queueInLoop 7, .otherPush 8, .advance true, .queueInLoop 9] ++
        [.advance true]) = .ok s' ∧
      s'.executed = [7] ∧ s'.loop.pendingFunctors = [7, 8, 9] := by
  obtain ⟨-, h⟩ := functors_in_order false [.otherPush 7, .otherWakeup, .advance false,
    .advance false, .advance false, .advance true, .advance true, .advance true, .advance true]
  obtain ⟨s', hs', -, hexec⟩ := h _ [7] rfl rfl
    [.queueInLoop 7, .otherPush 8, .advance true, .queueInLoop 9] rfl true
  refine ⟨_, s', rfl, hs', hexec, ?_⟩
  obtain rfl := Except.ok.inj hs'
  rfl

end Recorded

end EventLoop

end Reactor
