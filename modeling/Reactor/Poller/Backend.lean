import Reactor.EPollPoller
import Reactor.PollPoller.Entries

/-!
# Pollers and what their callers may rely on

`Backend` is a poller together with what holds of it as long as every channel is used as
`Tracked.Protocol` says and no two registered channels have one descriptor.  A descriptor may be
used again, by another channel, once its channel was removed.  Both pollers meet it
(`ePollPoller`, `pollPoller`); what is proved of a `Backend` holds of either.
-/

namespace Reactor

open PollPoller (Life)

/-- What an operation leaves as it is: the descriptors, and the events but for those of
`channel`. -/
structure Polled.Keeps {P : Type} (s s' : Polled P) (channel : ℕ → Channel) : Prop where
  fd : ∀ d, (s'.channel d).fd = (s.channel d).fd
  events : ∀ d, (s'.channel d).events = (channel d).events

/-- A poller, its channel map, and its bookkeeping in terms of the channels' lives. -/
structure Backend where
  P : Type
  poller : Poller P
  new : P
  channels : P → ℤ → Option ℕ
  Inv : Polled P → (ℕ → Life) → Prop
  init : ∀ fd, Inv (Polled.init fd new) fun _ => .unused
  set : ∀ {s life op c}, Inv s life → life c ≠ .removed →
    (life c = .unused → (op.apply (s.channel c)).isNoneEvent = false ∧
      ∀ d, life d = .registered → (s.channel d).fd ≠ (s.channel c).fd) →
    ∃ s', poller.step s (.set op c) = .ok s' ∧ Inv s' (Function.update life c .registered) ∧
      s.Keeps s' (Function.update s.channel c (op.apply (s.channel c)))
  remove : ∀ {s life c}, Inv s life → life c = .registered → (s.channel c).isNoneEvent = true →
    ∃ s', poller.step s (.remove c) = .ok s' ∧ Inv s' (Function.update life c .removed) ∧
      s.Keeps s' s.channel
  poll : ∀ {s life} k, Inv s life →
    ∃ s', poller.step s (.poll k) = .ok s' ∧ Inv s' life ∧ s.Keeps s' s.channel
  channels_iff : ∀ {s life} c, Inv s life →
    (channels s.poller (s.channel c).fd = some c ↔ life c = .registered)

namespace Backend

variable (B : Backend)

/-- `hasChannel` -/
def hasChannel (s : Polled B.P) (c : ℕ) : Prop := B.channels s.poller (s.channel c).fd = some c

instance (s : Polled B.P) (c : ℕ) : Decidable (B.hasChannel s c) :=
  inferInstanceAs (Decidable (_ = _))

end Backend

/-! ## `PollPoller` -/

namespace PollPoller

theorem Tracked.step_polled {s s' : Tracked} {a : PollerAction}
    (h : machine.step s a = .ok s') :
    poller.step s.polled a = .ok s'.polled ∧ s'.life = nextLife s.life a := by
  obtain ⟨polled, hp, hs'⟩ := bind_eq_ok.1 (show (poller.step s.polled a >>= _) = _ from h)
  obtain rfl := Except.ok.inj hs'
  exact ⟨hp, rfl⟩

/-- The pollers' bookkeeping, the lives apart from the state. -/
def Kept (s : Polled PollPoller) (life : ℕ → Life) : Prop := Tracked.Sound ⟨s, life⟩

/-- An operation of `Tracked`, seen on the poller. -/
theorem Kept.of_step {s : Polled PollPoller} {life : ℕ → Life} {a : PollerAction}
    {channel : ℕ → Channel}
    (h : ∃ s', Tracked.machine.step ⟨s, life⟩ a = .ok s' ∧ s'.Sound ∧
      Tracked.Keeps ⟨s, life⟩ s' channel) :
    ∃ s', poller.step s a = .ok s' ∧ Kept s' (Tracked.nextLife life a) ∧ s.Keeps s' channel := by
  obtain ⟨s', hs', hsound, hkeep⟩ := h
  obtain ⟨hp, hlife⟩ := Tracked.step_polled hs'
  obtain ⟨polled, life'⟩ := s'
  obtain rfl : life' = Tracked.nextLife life a := hlife
  exact ⟨polled, hp, hsound, hkeep.fd, hkeep.events⟩

end PollPoller

open PollPoller in
/-- `PollPoller` -/
def Backend.pollPoller : Backend where
  P := PollPoller
  poller := PollPoller.poller
  new := PollPoller.new
  channels := PollPoller.channels
  Inv := Kept
  init := Tracked.sound_init
  set := fun h hlife hnew => Kept.of_step
    (Tracked.Sound.set h ⟨hlife, fun hc => (hnew hc).1⟩ fun hc => (hnew hc).2)
  remove := fun h hlife hnone => Kept.of_step (Tracked.Sound.remove h ⟨hlife, hnone⟩)
  poll := fun k h => Kept.of_step (Tracked.Sound.poll h k)
  channels_iff := fun c h => (Tracked.Sound.registered h c).symm

/-! ## `EPollPoller` -/

namespace EPollPoller

/-- The registered channels are those with an index. -/
structure Kept (s : Polled EPollPoller) (life : ℕ → Life) : Prop where
  wf : s.poller.Wf s.channel
  registered : ∀ c, life c = .registered ↔ (s.channel c).index ≠ kNew

variable {s : Polled EPollPoller} {life : ℕ → Life} {c : ℕ}

theorem Kept.channels_iff (h : Kept s life) (c : ℕ) :
    s.poller.channels (s.channel c).fd = some c ↔ life c = .registered := by
  rw [h.wf.channels_iff, h.registered]
  exact and_iff_right rfl

theorem Kept.set (h : Kept s life) {op : Setter} (hlife : life c ≠ .removed)
    (hfree : life c = .unused → ∀ d, life d = .registered → (s.channel d).fd ≠ (s.channel c).fd) :
    ∃ s', poller.step s (.set op c) = .ok s' ∧ Kept s' (Function.update life c .registered) ∧
      s.Keeps s' (Function.update s.channel c (op.apply (s.channel c))) := by
  have hxfd := op.apply_fd (s.channel c)
  have hxidx := op.apply_index (s.channel c)
  have hown : s.poller.channels (op.apply (s.channel c)).fd = none ∨
      s.poller.channels (op.apply (s.channel c)).fd = some c := by
    rw [hxfd]
    cases hc : life c with
    | unused =>
      refine Or.inl (Option.eq_none_iff_forall_ne_some.2 fun d hd => ?_)
      obtain ⟨hfd, hidx⟩ := (h.wf.channels_iff d _).1 hd
      exact hfree hc d ((h.registered d).2 hidx) (by exact_mod_cast hfd)
    | registered => exact Or.inr ((h.channels_iff c).2 hc)
    | removed => exact absurd hc hlife
  obtain ⟨p', hp, hwf, -, -⟩ := h.wf.updateChannel hxfd hxidx hown
  refine ⟨_, Poller.step_set_ok (V := poller) hp, ⟨hwf, fun d => ?_⟩, fun d => ?_, fun d => ?_⟩
  · dsimp only
    by_cases hd : d = c
    · subst hd
      rw [Function.update_self, Function.update_self]
      refine iff_of_true rfl ?_
      show nextIndex _ ≠ kNew
      unfold nextIndex
      split_ifs
      · exact kDeleted_ne_kNew
      · exact kAdded_ne_kNew
    · rw [Function.update_of_ne hd, Function.update_of_ne hd]
      exact h.registered d
  · exact congrFun (fd_update s.channel (by exact hxfd)) d
  · dsimp only
    by_cases hd : d = c
    · subst hd
      rw [Function.update_self, Function.update_self]
    · rw [Function.update_of_ne hd, Function.update_of_ne hd]

theorem Kept.remove (h : Kept s life) (hlife : life c = .registered)
    (hnone : (s.channel c).isNoneEvent = true) :
    ∃ s', poller.step s (.remove c) = .ok s' ∧ Kept s' (Function.update life c .removed) ∧
      s.Keeps s' s.channel := by
  obtain ⟨p', hp, hwf, -, -⟩ := h.wf.removeChannel
    (x := { s.channel c with addedToLoop := false }) rfl rfl ((h.channels_iff c).2 hlife) hnone
  refine ⟨_, Poller.step_remove_ok (V := poller) hnone hp, ⟨hwf, fun d => ?_⟩, fun d => ?_,
    fun d => ?_⟩
  · dsimp only
    by_cases hd : d = c
    · subst hd
      rw [Function.update_self, Function.update_self]
      exact iff_of_false (by decide) fun hne => hne rfl
    · rw [Function.update_of_ne hd, Function.update_of_ne hd]
      exact h.registered d
  · exact congrFun (fd_update s.channel (by rfl)) d
  · dsimp only
    by_cases hd : d = c
    · subst hd
      rw [Function.update_self]
    · rw [Function.update_of_ne hd]

theorem Kept.poll (h : Kept s life) (k : Kernel) :
    ∃ s', poller.step s (.poll k) = .ok s' ∧ Kept s' life ∧ s.Keeps s' s.channel := by
  obtain ⟨p', hp, hwf, -, -⟩ := h.wf.poll k
  have hsame := setRevents_eq k s.channel (s.poller.activeOf k)
  refine ⟨_, Poller.step_poll_ok (V := poller) hp, ⟨hwf, fun d => ?_⟩, fun d => ?_, fun d => ?_⟩
  all_goals
    obtain ⟨r, hr⟩ := hsame d
    dsimp only
    rw [hr]
  exact h.registered d

end EPollPoller

/-- `EPollPoller` -/
def Backend.ePollPoller : Backend where
  P := EPollPoller
  poller := EPollPoller.poller
  new := EPollPoller.new
  channels := EPollPoller.channels
  Inv := EPollPoller.Kept
  init := fun fd => ⟨EPollPoller.wf_new fd, fun _ => ⟨fun h => (by cases h), fun h => absurd rfl h⟩⟩
  set := fun h hlife hnew => h.set hlife fun hc => (hnew hc).2
  remove := fun h hlife hnone => h.remove hlife hnone
  poll := fun k h => h.poll k
  channels_iff := fun c h => h.channels_iff c

end Reactor
