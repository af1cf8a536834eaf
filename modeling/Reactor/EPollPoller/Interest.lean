import Reactor.EPollPoller

/-!
# What epoll watches

Runs of the setters and of `remove` over channels with distinct descriptors.  The map, the indices
and the interest list agree throughout, and every `epoll_ctl` the poller issues is one the kernel
accepts.  The events of a channel are looked at only when its index is `kAdded`, so that a setter
that leaves another channel without events adds it all the same, and the kernel reports its errors
and hang-ups.

* `bookkeeping_iff`: everything agrees in every run, and no channel without events is watched
  exactly as long as no such setter is called.
-/

namespace Reactor

namespace EPollPoller

/-- The operation of `epoll_ctl` that `updateChannel` issues. -/
def updateOp (x : Channel) : CtlOp :=
  if x.index = kNew ∨ x.index = kDeleted then .add else if x.isNoneEvent then .del else .mod

/-- The call of `epoll_ctl` that an operation makes: what, on which descriptor, with which event. -/
def ctl (s : Polled EPollPoller) : PollerAction → Option (CtlOp × ℤ × EPollEvent)
  | .set op c =>
    let x := op.apply (s.channel c)
    some (updateOp x, x.fd, ⟨x.events, c⟩)
  | .remove c =>
    let x := s.channel c
    if x.index = kAdded then some (.del, x.fd, ⟨x.events, c⟩) else none
  | .poll _ => none

def applyCtl (interest : List (ℤ × EPollEvent)) :
    Option (CtlOp × ℤ × EPollEvent) → List (ℤ × EPollEvent)
  | some (op, fd, event) => epollCtl interest fd event op
  | none => interest

/-- The rules of the kernel: what is added is absent, what is modified or deleted is present. -/
def Accepts (interest : List (ℤ × EPollEvent)) (fd : ℤ) : CtlOp → Prop
  | .add => ¬ hasInterest interest fd
  | .mod => hasInterest interest fd
  | .del => hasInterest interest fd

/-- The operation changes the interest list by the call of `ctl` alone, which the kernel accepts. -/
structure Issues (s : Polled EPollPoller) (a : PollerAction) : Prop where
  interest : ∀ s', poller.step s a = .ok s' →
    s'.poller.interest = applyCtl s.poller.interest (ctl s a)
  accepts : ∀ op fd event, ctl s a = some (op, fd, event) → Accepts s.poller.interest fd op

/-- `remove` is for a registered channel without events. -/
def Legal (s : Polled EPollPoller) : PollerAction → Prop
  | .set _ _ => True
  | .remove c => s.poller.channels (s.channel c).fd = some c ∧ (s.channel c).isNoneEvent = true
  | .poll _ => True

instance (s : Polled EPollPoller) : ∀ a, Decidable (Legal s a)
  | .set _ _ => isTrue trivial
  | .remove c => inferInstanceAs (Decidable (s.poller.channels (s.channel c).fd = some c ∧
      (s.channel c).isNoneEvent = true))
  | .poll _ => isTrue trivial

/-- The setter leaves the channel some events, or finds it in the interest list. -/
def Watches (s : Polled EPollPoller) : PollerAction → Prop
  | .set op c => (op.apply (s.channel c)).isNoneEvent = true → (s.channel c).index = kAdded
  | .remove _ => True
  | .poll _ => True

/-- The map, the indices and the interest list agree. -/
structure Agrees (s : Polled EPollPoller) : Prop where
  channels : ∀ c, s.poller.channels (s.channel c).fd = some c ↔
    (s.channel c).index = kAdded ∨ (s.channel c).index = kDeleted
  interest : ∀ c, hasInterest s.poller.interest (s.channel c).fd ↔ (s.channel c).index = kAdded
  event : ∀ c e, (((s.channel c).fd : ℤ), e) ∈ s.poller.interest → e = ⟨(s.channel c).events, c⟩

/-- A registered channel without events is not in the interest list, and `epoll_wait` does not
report it. -/
def Silent (s : Polled EPollPoller) : Prop :=
  ∀ c, s.poller.channels (s.channel c).fd = some c → (s.channel c).isNoneEvent = true →
    ¬ hasInterest s.poller.interest (s.channel c).fd ∧ ∀ k, c ∉ s.poller.activeOf k

def machine : Machine (Polled EPollPoller) PollerAction Fault := ⟨poller.step⟩

/-! ## The calls of `epoll_ctl` -/

variable {p p' : EPollPoller} {channel channel' : ℕ → Channel} {c : ℕ} {x : Channel}

theorem updateChannel_interest (h : p.updateChannel channel c = .ok (p', channel')) :
    p'.interest =
      epollCtl p.interest (channel c).fd ⟨(channel c).events, c⟩ (updateOp (channel c)) := by
  unfold updateChannel at h
  unfold updateOp
  dsimp only at h
  by_cases hnew : (channel c).index = kNew
  · rw [if_pos hnew] at h
    rw [if_pos (Or.inl hnew)]
    obtain ⟨-, h⟩ := check_bind_eq_ok.1 h
    obtain ⟨rfl, -⟩ := Prod.mk.inj (Except.ok.inj h)
    rfl
  · rw [if_neg hnew] at h
    by_cases hdel : (channel c).index = kDeleted
    · rw [if_pos hdel] at h
      rw [if_pos (Or.inr hdel)]
      obtain ⟨-, h⟩ := check_bind_eq_ok.1 h
      obtain ⟨rfl, -⟩ := Prod.mk.inj (Except.ok.inj h)
      rfl
    · rw [if_neg hdel] at h
      rw [if_neg (not_or.2 ⟨hnew, hdel⟩)]
      obtain ⟨-, h⟩ := check_bind_eq_ok.1 h
      obtain ⟨-, h⟩ := check_bind_eq_ok.1 h
      split_ifs at h ⊢
      · obtain ⟨rfl, -⟩ := Prod.mk.inj (Except.ok.inj h)
        rfl
      · obtain ⟨rfl, -⟩ := Prod.mk.inj (Except.ok.inj h)
        rfl

theorem removeChannel_interest (h : p.removeChannel channel c = .ok (p', channel')) :
    p'.interest = applyCtl p.interest (if (channel c).index = kAdded then
      some (.del, (channel c).fd, ⟨(channel c).events, c⟩) else none) := by
  unfold removeChannel at h
  dsimp only at h
  obtain ⟨-, h⟩ := check_bind_eq_ok.1 h
  obtain ⟨-, h⟩ := check_bind_eq_ok.1 h
  obtain ⟨-, h⟩ := check_bind_eq_ok.1 h
  split_ifs at h ⊢
  · obtain ⟨rfl, -⟩ := Prod.mk.inj (Except.ok.inj h)
    rfl
  · obtain ⟨rfl, -⟩ := Prod.mk.inj (Except.ok.inj h)
    rfl

theorem poll_interest {k : Kernel} {active : List ℕ}
    (h : p.poll channel k = .ok (p', channel', active)) : p'.interest = p.interest := by
  unfold poll at h
  dsimp only at h
  by_cases hpos : 0 < (p.epollWait k).length
  · rw [if_pos hpos] at h
    obtain ⟨⟨channel'', active'⟩, -, h⟩ := bind_eq_ok.1 h
    dsimp only at h
    split_ifs at h
    · obtain ⟨rfl, -⟩ := Prod.mk.inj (Except.ok.inj h)
      rfl
    · obtain ⟨rfl, -⟩ := Prod.mk.inj (Except.ok.inj h)
      rfl
  · rw [if_neg hpos] at h
    obtain ⟨rfl, -⟩ := Prod.mk.inj (Except.ok.inj h)
    rfl

theorem Wf.hasInterest_iff (h : p.Wf channel) (hinj : Function.Injective fun c => (channel c).fd) :
    hasInterest p.interest (channel c).fd ↔ (channel c).index = kAdded := by
  constructor
  · rintro ⟨⟨fd, e⟩, he, hfd⟩
    obtain ⟨hptr, hidx, -⟩ := (h.interest_iff fd e).1 he
    dsimp only at hfd
    have hc : e.ptr = c := hinj (by dsimp only; omega)
    rw [← hc]
    exact hidx
  · exact fun hidx => ⟨((channel c).fd, ⟨(channel c).events, c⟩),
      (h.interest_iff _ _).2 ⟨rfl, hidx, rfl⟩, rfl⟩

theorem Wf.agrees {s : Polled EPollPoller} (h : s.poller.Wf s.channel)
    (hinj : Function.Injective fun c => (s.channel c).fd) : Agrees s where
  channels := fun c => by
    have hcases := h.index_cases c
    rw [h.channels_iff]
    constructor
    · rintro ⟨-, hne⟩
      exact hcases.resolve_left hne
    · rintro (hidx | hidx)
      · exact ⟨rfl, by rw [hidx]; exact kAdded_ne_kNew⟩
      · exact ⟨rfl, by rw [hidx]; exact kDeleted_ne_kNew⟩
  interest := fun c => h.hasInterest_iff hinj
  event := fun c e he => by
    obtain ⟨hptr, -, hev⟩ := (h.interest_iff _ e).1 he
    have hc : e.ptr = c := hinj (by dsimp only; omega)
    rw [← hc, ← hev]

/-- What is watched without events is the trouble. -/
theorem Wf.silent_iff {s : Polled EPollPoller} (h : s.poller.Wf s.channel)
    (hinj : Function.Injective fun c => (s.channel c).fd) :
    Silent s ↔ ∀ c, (s.channel c).index = kAdded → ¬ (s.channel c).isNoneEvent = true := by
  constructor
  · intro hs c hidx hnone
    have hreg := ((h.agrees hinj).channels c).2 (Or.inl hidx)
    exact (hs c hreg hnone).1 ((h.hasInterest_iff hinj).2 hidx)
  · intro hev c _ hnone
    refine ⟨fun hint => hev c ((h.hasInterest_iff hinj).1 hint) hnone, fun k hk => ?_⟩
    exact hev c (h.of_mem_activeOf hk).1 hnone

/-! ## Runs -/

/-- The bookkeeping is in order and the descriptors are distinct. -/
structure Inv (s : Polled EPollPoller) : Prop where
  wf : s.poller.Wf s.channel
  injective : Function.Injective fun c => (s.channel c).fd

theorem inv_init {fd : ℕ → ℕ} (hfd : Function.Injective fd) : Inv (Polled.init fd new) :=
  ⟨wf_new fd, hfd⟩

variable {s : Polled EPollPoller}

/-- The descriptor of a channel is free or its own. -/
theorem Inv.free (h : Inv s) (c : ℕ) :
    s.poller.channels (s.channel c).fd = none ∨ s.poller.channels (s.channel c).fd = some c := by
  cases hd : s.poller.channels (s.channel c).fd with
  | none => exact Or.inl rfl
  | some d =>
    have hfd := ((h.wf.channels_iff d _).1 hd).1
    have hdc : d = c := h.injective (by dsimp only; omega)
    exact Or.inr (by rw [hdc])

/-- The kernel accepts what `updateChannel` issues. -/
theorem Inv.accepts_updateOp (h : Inv s) (hx : x.index = (s.channel c).index) :
    Accepts s.poller.interest (s.channel c).fd (updateOp x) := by
  have hint := h.wf.hasInterest_iff h.injective (c := c)
  unfold updateOp
  rw [hx]
  by_cases hadd : (s.channel c).index = kAdded
  · have hne : ¬ ((s.channel c).index = kNew ∨ (s.channel c).index = kDeleted) := by
      rw [hadd]
      decide
    rw [if_neg hne]
    by_cases hnone : x.isNoneEvent = true
    · rw [if_pos hnone]
      exact hint.2 hadd
    · rw [if_neg hnone]
      exact hint.2 hadd
  · have heq : (s.channel c).index = kNew ∨ (s.channel c).index = kDeleted :=
      (h.wf.index_cases c).imp_right fun hor => hor.resolve_left hadd
    rw [if_pos heq]
    exact fun hmem => hadd (hint.1 hmem)

/-- What one operation does: it passes its assertions, its call of `epoll_ctl` is accepted, and it
leaves nothing without events watched exactly when it is not a setter that adds such a channel. -/
structure Outcome (s : Polled EPollPoller) (a : PollerAction) (s' : Polled EPollPoller) : Prop where
  step : machine.step s a = .ok s'
  inv : Inv s'
  issues : Issues s a
  silent : Silent s → (Silent s' ↔ Watches s a)

theorem Inv.set (h : Inv s) (op : Setter) (c : ℕ) : ∃ s', Outcome s (.set op c) s' := by
  have hxfd := op.apply_fd (s.channel c)
  have hxidx := op.apply_index (s.channel c)
  obtain ⟨p', hp, hwf, -, -⟩ := h.wf.updateChannel hxfd hxidx (by rw [hxfd]; exact h.free c)
  set x := op.apply (s.channel c) with hx
  have hstep : machine.step s (.set op c) = _ := Poller.step_set_ok (V := poller) hp
  have hinj : Function.Injective fun d =>
      (Function.update s.channel c { x with index := nextIndex x } d).fd := by
    rw [fd_update s.channel (by exact hxfd)]
    exact h.injective
  refine ⟨_, hstep, ⟨hwf, hinj⟩, ⟨fun s' hs' => ?_, ?_⟩, ?_⟩
  · obtain rfl := Except.ok.inj (hstep.symm.trans hs')
    have hint := updateChannel_interest hp
    rw [Function.update_self] at hint
    exact hint
  · rintro op' fd event heq
    obtain ⟨rfl, rfl, -⟩ : updateOp x = op' ∧ (x.fd : ℤ) = fd ∧ (⟨x.events, c⟩ : EPollEvent) = event := by
      simpa [ctl, ← hx] using heq
    rw [hxfd]
    exact h.accepts_updateOp hxidx
  · intro hs
    rw [h.wf.silent_iff h.injective] at hs
    rw [Wf.silent_iff hwf hinj]
    dsimp only
    constructor
    · intro hall hnone
      by_contra hidx
      have hnext : nextIndex x = kAdded := if_neg fun hand => hidx (hxidx ▸ hand.1)
      refine hall c ?_ ?_
      · rw [Function.update_self, hnext]
      · rw [Function.update_self]
        exact hnone
    · intro hw d
      by_cases hd : d = c
      · subst hd
        rw [Function.update_self]
        intro hadd hnone
        have hidx : x.index = kAdded := hxidx.trans (hw hnone)
        have hnext : nextIndex x = kDeleted := if_pos ⟨hidx, hnone⟩
        exact kAdded_ne_kDeleted (hadd.symm.trans hnext)
      · rw [Function.update_of_ne hd]
        exact hs d

theorem Inv.remove (h : Inv s) {c : ℕ} (hreg : s.poller.channels (s.channel c).fd = some c)
    (hnone : (s.channel c).isNoneEvent = true) : ∃ s', Outcome s (.remove c) s' := by
  obtain ⟨p', hp, hwf, -, -⟩ := h.wf.removeChannel
    (x := { s.channel c with addedToLoop := false }) rfl rfl hreg hnone
  have hstep := Poller.step_remove_ok (V := poller) hnone hp
  have hinj : Function.Injective fun d =>
      (Function.update s.channel c { s.channel c with addedToLoop := false, index := kNew } d).fd := by
    rw [fd_update s.channel (by rfl)]
    exact h.injective
  refine ⟨_, hstep, ⟨hwf, hinj⟩, ⟨fun s' hs' => ?_, ?_⟩, ?_⟩
  · obtain rfl := Except.ok.inj (hstep.symm.trans hs')
    have hint := removeChannel_interest hp
    rw [Function.update_self] at hint
    exact hint
  · rintro op' fd event heq
    unfold ctl at heq
    dsimp only at heq
    by_cases hadd : (s.channel c).index = kAdded
    · rw [if_pos hadd] at heq
      obtain ⟨rfl, rfl, -⟩ : CtlOp.del = op' ∧ ((s.channel c).fd : ℤ) = fd ∧
          (⟨(s.channel c).events, c⟩ : EPollEvent) = event := by simpa using heq
      exact (h.wf.hasInterest_iff h.injective).2 hadd
    · rw [if_neg hadd] at heq
      cases heq
  · intro hs
    rw [h.wf.silent_iff h.injective] at hs
    rw [Wf.silent_iff hwf hinj]
    dsimp only
    refine iff_of_true (fun d => ?_) trivial
    by_cases hd : d = c
    · subst hd
      rw [Function.update_self]
      exact fun hadd => absurd hadd.symm kAdded_ne_kNew
    · rw [Function.update_of_ne hd]
      exact hs d

theorem Inv.poll (h : Inv s) (k : Kernel) : ∃ s', Outcome s (.poll k) s' := by
  obtain ⟨p', hp, hwf, -, -⟩ := h.wf.poll k
  have hstep := Poller.step_poll_ok (V := poller) hp
  have hsame := setRevents_eq k s.channel (s.poller.activeOf k)
  have hinj : Function.Injective fun d =>
      (setRevents k s.channel (s.poller.activeOf k) d).fd := by
    intro d e hde
    obtain ⟨r, hr⟩ := hsame d
    obtain ⟨r', hr'⟩ := hsame e
    dsimp only at hde
    rw [hr, hr'] at hde
    exact h.injective hde
  refine ⟨_, hstep, ⟨hwf, hinj⟩, ⟨fun s' hs' => ?_, fun op fd event heq => by cases heq⟩, ?_⟩
  · obtain rfl := Except.ok.inj (hstep.symm.trans hs')
    exact poll_interest hp
  · intro hs
    rw [h.wf.silent_iff h.injective] at hs
    rw [Wf.silent_iff hwf hinj]
    dsimp only
    refine iff_of_true (fun d => ?_) trivial
    obtain ⟨r, hr⟩ := hsame d
    rw [hr]
    exact hs d

theorem Inv.step (h : Inv s) {a : PollerAction} (ha : Legal s a) : ∃ s', Outcome s a s' := by
  cases a with
  | set op c => exact h.set op c
  | remove c => exact h.remove ha.1 ha.2
  | poll k => exact h.poll k

/-- The map, the indices and the interest list agree in every run and `epoll_ctl` is never refused.
A registered channel without events stays out of the interest list exactly when every setter that
leaves its channel without events finds it with the index `kAdded`. -/
theorem bookkeeping_iff {fd : ℕ → ℕ} (hfd : Function.Injective fd) (as : List PollerAction)
    (h : machine.Along Legal (Polled.init fd new) as) :
    (∃ s', machine.run (Polled.init fd new) as = .ok s') ∧
      machine.Along Issues (Polled.init fd new) as ∧
      machine.Always Agrees (Polled.init fd new) as ∧
      (machine.Always Silent (Polled.init fd new) as ↔
        machine.Along Watches (Polled.init fd new) as) := by
  have hinit := inv_init hfd
  have hsilent : Silent (Polled.init fd new) :=
    (hinit.wf.silent_iff hinit.injective).2 fun _ hidx => absurd hidx.symm kAdded_ne_kNew
  have hstep : ∀ s a, Inv s → Legal s a → ∃ s', machine.step s a = .ok s' ∧ Inv s' :=
    fun s a hs ha => (hs.step ha).imp fun s' hs' => ⟨hs'.step, hs'.inv⟩
  obtain ⟨hr, hinv⟩ := Machine.run_ok_always_of_along hstep hinit h
  refine ⟨hr, ?_, hinv.mono fun s hs => hs.wf.agrees hs.injective, ?_⟩
  · exact Machine.along_of_along (Machine.step_inv_of_exists hstep)
      (fun s a hs ha => (hs.step ha).elim fun _ hs' => hs'.issues) hinit h
  · exact Machine.always_iff_along
      (fun s a hs ha => (hs.step ha).imp fun s' hs' => ⟨hs'.step, hs'.inv, hs'.silent⟩)
      hinit hsilent h

theorem bookkeeping_two_channels :
    machine.Along Legal (Polled.init id new)
        [.set .enableReading 0, .set .enableWriting 1, .set .disableAll 0, .remove 0] ∧
      machine.Always Agrees (Polled.init id new)
        [.set .enableReading 0, .set .enableWriting 1, .set .disableAll 0, .remove 0] :=
  have h : machine.Along Legal (Polled.init id new)
      [.set .enableReading 0, .set .enableWriting 1, .set .disableAll 0, .remove 0] := by
    decide +kernel
  ⟨h, (bookkeeping_iff Function.injective_id _ h).2.2.1⟩

/-- A channel that is disabled twice is watched again, for no events. -/
theorem watched_after_disableAll_twice :
    machine.Along Legal (Polled.init id new)
        [.set .enableReading 0, .set .disableAll 0, .set .disableAll 0] ∧
      ¬ machine.Always Silent (Polled.init id new)
        [.set .enableReading 0, .set .disableAll 0, .set .disableAll 0] := by
  refine ⟨by decide +kernel, fun h => ?_⟩
  obtain ⟨-, h⟩ := h
  obtain ⟨-, h⟩ := h _ rfl
  obtain ⟨-, h⟩ := h _ rfl
  exact (h _ rfl 0 rfl rfl).1 ⟨(0, ⟨0, 0⟩), by decide +kernel, rfl⟩

end EPollPoller

end Reactor
