import Reactor.Poller
import Mathlib.Data.List.Basic

/-!
# PollPoller

The `poll(2)` poller: the map `channels_` and the vector `pollfds_`, in which a channel finds its
entry by its index.  The entry of a channel without events carries `-fd - 1` for a descriptor,
except after a first registration without events.  A removed channel keeps its index, and
`fillActiveChannels` does not set `revents_`.
-/

namespace Reactor

/-- `struct pollfd`; its events are of type `short`. -/
structure PollFd where
  fd : ℤ
  events : BitVec 16
  revents : BitVec 16
  deriving DecidableEq, Repr

structure PollPoller where
  channels : ℤ → Option ℕ
  pollfds : List PollFd

namespace PollPoller

/-- The constructor. -/
def new : PollPoller := ⟨fun _ => none, []⟩

/-- `poll(2)` on one entry; a negative descriptor is ignored. -/
def pollOne (k : Kernel) (e : PollFd) : PollFd :=
  { e with revents := if 0 ≤ e.fd then (k.report e.fd (e.events.signExtend 32)).setWidth 16 else 0 }

/-- The loop of `fillActiveChannels`: it stops when `numEvents` entries have been found. -/
def fillActiveChannels (p : PollPoller) (channel : ℕ → Channel) :
    List PollFd → ℕ → List ℕ → Except Fault (List ℕ)
  | [], _, active => return active
  | _, 0, active => return active
  | e :: pollfds, numEvents + 1, active =>
    if 0 < e.revents.toInt then
      match p.channels e.fd with
      | none => .error .fillActiveChannels
      | some c => do
        check .fillActiveChannels ((channel c).fd = e.fd)
        p.fillActiveChannels channel pollfds numEvents (active ++ [c])
    else p.fillActiveChannels channel pollfds (numEvents + 1) active

def poll (p : PollPoller) (channel : ℕ → Channel) (k : Kernel) :
    Except Fault (PollPoller × (ℕ → Channel) × List ℕ) := do
  let p := { p with pollfds := p.pollfds.map (pollOne k) }
  let numEvents : ℕ := p.pollfds.countP fun e => decide (e.revents ≠ 0)
  if 0 < numEvents then
    let active ← p.fillActiveChannels channel p.pollfds numEvents []
    return (p, channel, active)
  else return (p, channel, [])

/-- The entry of a channel that has one already. -/
def entryOf (x : Channel) : PollFd :=
  ⟨if x.isNoneEvent then -x.fd - 1 else x.fd, x.events.setWidth 16, 0⟩

def updateChannel (p : PollPoller) (channel : ℕ → Channel) (c : ℕ) :
    Except Fault (PollPoller × (ℕ → Channel)) :=
  let fd : ℤ := (channel c).fd
  let idx := (channel c).index
  if idx < 0 then do
    check .updateChannel (p.channels fd = none)
    return (⟨Function.update p.channels fd (some c),
        p.pollfds ++ [⟨fd, (channel c).events.setWidth 16, 0⟩]⟩,
      setIndex channel c p.pollfds.length)
  else do
    check .updateChannel (p.channels fd = some c)
    match p.pollfds[idx.toNat]? with
    | none => .error .updateChannel
    | some e =>
      check .updateChannel (e.fd = fd ∨ e.fd = -fd - 1)
      return ({ p with pollfds := p.pollfds.set idx.toNat (entryOf (channel c)) }, channel)

/-- The last entry takes the place of the entry `idx`, and its channel learns of it. -/
def swapOut (p : PollPoller) (channel : ℕ → Channel) (idx : ℕ) :
    Except Fault (PollPoller × (ℕ → Channel)) :=
  match p.pollfds.getLast? with
  | none => .error .outOfBounds
  | some last =>
    let channelAtEnd := if last.fd < 0 then -last.fd - 1 else last.fd
    match p.channels channelAtEnd with
    | none => .error .outOfBounds
    | some d => return ({ p with pollfds := (p.pollfds.set idx last).dropLast }, setIndex channel d idx)

def removeChannel (p : PollPoller) (channel : ℕ → Channel) (c : ℕ) :
    Except Fault (PollPoller × (ℕ → Channel)) := do
  let fd : ℤ := (channel c).fd
  let idx := (channel c).index
  check .removeChannel (p.channels fd = some c)
  check .removeChannel (channel c).isNoneEvent
  check .removeChannel (0 ≤ idx)
  match p.pollfds[idx.toNat]? with
  | none => .error .removeChannel
  | some e =>
    check .removeChannel (e.fd = -fd - 1 ∧ e.events.signExtend 32 = (channel c).events)
    let p := { p with channels := Function.update p.channels fd none }
    if idx.toNat = p.pollfds.length - 1 then
      return ({ p with pollfds := p.pollfds.dropLast }, channel)
    else p.swapOut channel idx.toNat

def poller : Poller PollPoller := ⟨updateChannel, removeChannel, poll⟩

/-! ## Bookkeeping -/

/-- The entry of a channel.  That of a channel without events may or may not be disabled. -/
structure Entry (x : Channel) (e : PollFd) : Prop where
  events : e.events = x.events.setWidth 16
  fd : e.fd = x.fd ∨ e.fd = -x.fd - 1 ∧ x.isNoneEvent

theorem entry_entryOf (x : Channel) : Entry x (entryOf x) := by
  refine ⟨rfl, ?_⟩
  unfold entryOf
  split_ifs with h
  · exact Or.inr ⟨rfl, h⟩
  · exact Or.inl rfl

theorem Entry.fd_eq {x : Channel} {e : PollFd} (h : Entry x e) :
    (x.fd : ℤ) = if e.fd < 0 then -e.fd - 1 else e.fd := by
  have hfd := h.fd
  split_ifs <;> omega

/-- The channel is in the map. -/
def Registered (p : PollPoller) (channel : ℕ → Channel) (c : ℕ) : Prop :=
  p.channels (channel c).fd = some c

/-- The channel has an entry that `poll(2)` looks at. -/
def Watched (p : PollPoller) (channel : ℕ → Channel) (c : ℕ) : Prop :=
  p.Registered channel c ∧
    ∃ e, p.pollfds[(channel c).index.toNat]? = some e ∧ e.fd = (channel c).fd

/-- A registered channel and its entry find each other by the channel's index. -/
structure Wf (p : PollPoller) (channel : ℕ → Channel) : Prop where
  channels_fd : ∀ {fd c}, p.channels fd = some c → (channel c).fd = fd
  entry : ∀ {c}, p.Registered channel c → ∃ (k : ℕ) (e : PollFd), (channel c).index = k ∧
    p.pollfds[k]? = some e ∧ Entry (channel c) e
  owner : ∀ {k : ℕ} {e}, p.pollfds[k]? = some e → ∃ c, p.Registered channel c ∧ (channel c).index = k

theorem wf_new (channel : ℕ → Channel) : new.Wf channel where
  channels_fd := by simp [new]
  entry := by simp [new, Registered]
  owner := by simp [new]

variable {p p' : PollPoller} {channel channel' : ℕ → Channel} {c d : ℕ} {x : Channel}

theorem Registered.eq_of_fd (hc : p.Registered channel c) (hd : p.Registered channel d)
    (hfd : (channel c).fd = (channel d).fd) : c = d := by
  unfold Registered at hc hd
  rw [hfd, hd] at hc
  exact (Option.some.inj hc).symm

theorem registered_of_fd (hfd : x.fd = (channel c).fd) (hreg : p.channels x.fd = some c) :
    p.Registered channel c := by
  rw [Registered, ← hfd]
  exact hreg

theorem Wf.eq_of_index (h : p.Wf channel) (hc : p.Registered channel c)
    (hd : p.Registered channel d) (hidx : (channel c).index = (channel d).index) : c = d := by
  obtain ⟨k, e, hk, he, hec⟩ := h.entry hc
  obtain ⟨l, e', hl, he', hed⟩ := h.entry hd
  obtain rfl : k = l := by omega
  obtain rfl : e = e' := Option.some.inj (he.symm.trans he')
  refine hc.eq_of_fd hd ?_
  have hcd := hec.fd_eq.trans hed.fd_eq.symm
  exact_mod_cast hcd

/-! ## updateChannel -/

/-- A first registration appends an entry, with the descriptor as it is. -/
theorem Wf.updateChannel_new (h : p.Wf channel) (hfd : x.fd = (channel c).fd)
    (hneg : x.index < 0) (hnone : p.channels x.fd = none) :
    ∃ p', p.updateChannel (Function.update channel c x) c =
        .ok (p', Function.update channel c { x with index := p.pollfds.length }) ∧
      p'.Wf (Function.update channel c { x with index := p.pollfds.length }) ∧
      p'.channels = Function.update p.channels x.fd (some c) ∧
      p'.pollfds = p.pollfds ++ [⟨x.fd, x.events.setWidth 16, 0⟩] := by
  have hother : ∀ {d}, p.Registered channel d → d ≠ c ∧ ((channel d).fd : ℤ) ≠ x.fd := by
    intro d hd
    have hne : ((channel d).fd : ℤ) ≠ x.fd := by
      intro heq
      rw [Registered, heq, hnone] at hd
      cases hd
    refine ⟨?_, hne⟩
    rintro rfl
    exact hne (by rw [hfd])
  unfold updateChannel
  dsimp only
  rw [Function.update_self, if_pos hneg, check_of hnone, ok_bind, setIndex_update]
  refine ⟨_, rfl, ⟨?_, ?_, ?_⟩, rfl, rfl⟩
  · intro fd d hd
    dsimp only at hd
    by_cases hf : fd = x.fd
    · subst hf
      rw [Function.update_self] at hd
      obtain rfl := Option.some.inj hd
      rw [Function.update_self]
    · rw [Function.update_of_ne hf] at hd
      have hdf := h.channels_fd hd
      rw [Function.update_of_ne]
      · exact hdf
      · rintro rfl
        exact hf (by rw [← hdf, hfd])
  · intro d hd
    by_cases hdc : d = c
    · subst hdc
      rw [Function.update_self]
      exact ⟨p.pollfds.length, _, rfl, List.getElem?_concat_length, rfl, Or.inl rfl⟩
    · unfold Registered at hd
      rw [Function.update_of_ne hdc] at hd ⊢
      dsimp only at hd
      have hne : ((channel d).fd : ℤ) ≠ x.fd := by
        intro heq
        rw [heq, Function.update_self] at hd
        exact hdc (Option.some.inj hd).symm
      rw [Function.update_of_ne hne] at hd
      obtain ⟨k, e, hk, he, hent⟩ := h.entry hd
      refine ⟨k, e, hk, ?_, hent⟩
      rw [List.getElem?_append_left (List.getElem?_eq_some_iff.1 he).1]
      exact he
  · intro k e he
    dsimp only at he
    by_cases hk : k < p.pollfds.length
    · rw [List.getElem?_append_left hk] at he
      obtain ⟨d, hd, hidx⟩ := h.owner he
      obtain ⟨hdc, hne⟩ := hother hd
      refine ⟨d, ?_, by rw [Function.update_of_ne hdc]; exact hidx⟩
      unfold Registered
      rw [Function.update_of_ne hdc]
      exact (Function.update_of_ne hne ..).trans hd
    · have hlt := (List.getElem?_eq_some_iff.1 he).1
      rw [List.length_append, List.length_singleton] at hlt
      obtain rfl : k = p.pollfds.length := by omega
      refine ⟨c, ?_, by rw [Function.update_self]⟩
      unfold Registered
      rw [Function.update_self]
      exact Function.update_self ..

theorem Wf.updateChannel_known (h : p.Wf channel) (hfd : x.fd = (channel c).fd)
    (hidx : x.index = (channel c).index) (hreg : p.channels x.fd = some c) :
    ∃ p', p.updateChannel (Function.update channel c x) c = .ok (p', Function.update channel c x) ∧
      p'.Wf (Function.update channel c x) ∧ p'.channels = p.channels ∧
      p'.pollfds = p.pollfds.set x.index.toNat (entryOf x) := by
  have hc := registered_of_fd hfd hreg
  obtain ⟨k, e, hk, he, hent⟩ := h.entry hc
  have hfde : e.fd = x.fd ∨ e.fd = -x.fd - 1 := by
    rw [hfd]
    exact hent.fd.imp_right And.left
  have hxk : x.index = k := hidx.trans hk
  have hlt := (List.getElem?_eq_some_iff.1 he).1
  unfold updateChannel
  dsimp only
  rw [Function.update_self, if_neg (by omega), check_of hreg, ok_bind, hxk, Int.toNat_natCast, he]
  dsimp only
  rw [check_of hfde, ok_bind]
  refine ⟨_, rfl, ⟨?_, ?_, ?_⟩, rfl, rfl⟩
  · intro fd d hd
    have hdf := h.channels_fd hd
    by_cases hdc : d = c
    · subst hdc
      rw [Function.update_self, hfd]
      exact hdf
    · rw [Function.update_of_ne hdc]
      exact hdf
  · intro d hd
    by_cases hdc : d = c
    · subst hdc
      rw [Function.update_self]
      exact ⟨k, entryOf x, hxk, List.getElem?_set_self hlt, entry_entryOf x⟩
    · unfold Registered at hd
      rw [Function.update_of_ne hdc] at hd ⊢
      obtain ⟨l, e', hl, he', hent'⟩ := h.entry hd
      have hkl : k ≠ l := by
        rintro rfl
        exact hdc (h.eq_of_index hd hc (hl.trans hk.symm))
      exact ⟨l, e', hl, by rw [List.getElem?_set_ne hkl]; exact he', hent'⟩
  · intro l e' he'
    dsimp only at he'
    by_cases hkl : k = l
    · subst hkl
      refine ⟨c, ?_, by rw [Function.update_self]; exact hxk⟩
      unfold Registered
      rw [Function.update_self]
      exact hreg
    · rw [List.getElem?_set_ne hkl] at he'
      obtain ⟨d, hd, hl⟩ := h.owner he'
      have hdc : d ≠ c := by
        rintro rfl
        omega
      refine ⟨d, ?_, by rw [Function.update_of_ne hdc]; exact hl⟩
      unfold Registered
      rw [Function.update_of_ne hdc]
      exact hd

/-- The other channels are watched as before, and the channel itself unless it has no events and
had an entry already. -/
theorem Wf.updateChannel (h : p.Wf channel) (hfd : x.fd = (channel c).fd)
    (hidx : x.index = (channel c).index)
    (hfree : p.channels x.fd = some c ∨ x.index < 0 ∧ p.channels x.fd = none) :
    ∃ p' i, p.updateChannel (Function.update channel c x) c =
        .ok (p', Function.update channel c { x with index := i }) ∧
      p'.Wf (Function.update channel c { x with index := i }) ∧
      p'.channels = Function.update p.channels x.fd (some c) ∧
      (∀ d, d ≠ c → p'.Watched (Function.update channel c { x with index := i }) d →
        p.Watched channel d) ∧
      (p'.Watched (Function.update channel c { x with index := i }) c →
        x.index < 0 ∨ x.isNoneEvent = false) := by
  rcases hfree with hreg | ⟨hneg, hnone⟩
  · obtain ⟨p', hok, hwf, hch, hpoll⟩ := h.updateChannel_known hfd hidx hreg
    refine ⟨p', x.index, hok, hwf, by rw [hch, ← hreg, Function.update_eq_self], ?_, ?_⟩
    · rintro d hdc ⟨hd, e, he, hon⟩
      unfold Registered at hd
      rw [Function.update_of_ne hdc] at hd he hon
      rw [hch] at hd
      refine ⟨hd, e, ?_, hon⟩
      obtain ⟨k, -, hk, -, -⟩ := h.entry hd
      have hc := registered_of_fd hfd hreg
      obtain ⟨l, -, hl, -, -⟩ := h.entry hc
      have hne : (channel d).index ≠ (channel c).index := fun heq => hdc (h.eq_of_index hd hc heq)
      rw [hpoll, List.getElem?_set_ne (by omega)] at he
      exact he
    · rintro ⟨-, e, he, hon⟩
      rw [Function.update_self] at he hon
      rw [hpoll, List.getElem?_set] at he
      split_ifs at he
      · obtain rfl := Option.some.inj he
        right
        by_contra hsome
        rw [entryOf, if_pos (by simpa using hsome)] at hon
        dsimp only at hon
        omega
      · contradiction
  · obtain ⟨p', hok, hwf, hch, hpoll⟩ := h.updateChannel_new hfd hneg hnone
    refine ⟨p', p.pollfds.length, hok, hwf, hch, ?_, fun _ => Or.inl hneg⟩
    rintro d hdc ⟨hd, e, he, hon⟩
    unfold Registered at hd
    rw [Function.update_of_ne hdc] at hd he hon
    have hne : ((channel d).fd : ℤ) ≠ x.fd := by
      intro heq
      rw [hch, heq, Function.update_self] at hd
      exact hdc (Option.some.inj hd).symm
    rw [hch, Function.update_of_ne hne] at hd
    refine ⟨hd, e, ?_, hon⟩
    obtain ⟨k, e', hk, he', -⟩ := h.entry hd
    have hlt := (List.getElem?_eq_some_iff.1 he').1
    rw [hpoll, List.getElem?_append_left (by omega)] at he
    exact he

/-- A channel that is not in the map and has an index, or whose descriptor is another one's. -/
theorem updateChannel_fault (hreg : p.channels x.fd ≠ some c)
    (hbusy : x.index < 0 → p.channels x.fd ≠ none) :
    p.updateChannel (Function.update channel c x) c = .error .updateChannel := by
  unfold updateChannel
  dsimp only
  rw [Function.update_self]
  by_cases hneg : x.index < 0
  · rw [if_pos hneg, check_of_not (hbusy hneg)]
    rfl
  · rw [if_neg hneg, check_of_not hreg]
    rfl

/-! ## removeChannel -/

/-- One channel leaves; the others keep their entries, at whatever position. -/
theorem Wf.erase (h : p.Wf channel) (hc : p.Registered channel c) {pollfds : List PollFd}
    (hfd : ∀ d, (channel' d).fd = (channel d).fd)
    (hev : ∀ d, (channel' d).events = (channel d).events)
    (hkeep : ∀ d (k : ℕ), d ≠ c → p.Registered channel d → (channel d).index = k →
      ∃ l : ℕ, (channel' d).index = l ∧ pollfds[l]? = p.pollfds[k]?)
    (howner : ∀ (l : ℕ) e, pollfds[l]? = some e →
      ∃ d, d ≠ c ∧ p.Registered channel d ∧ (channel' d).index = l)
    (hp : p' = ⟨Function.update p.channels (channel c).fd none, pollfds⟩) :
    p'.Wf channel' ∧ ∀ d, p'.Registered channel' d → p.Registered channel d ∧
      p'.pollfds[(channel' d).index.toNat]? = p.pollfds[(channel d).index.toNat]? := by
  subst hp
  have hold : ∀ {d}, Registered ⟨Function.update p.channels (channel c).fd none, pollfds⟩ channel' d →
      d ≠ c ∧ p.Registered channel d := by
    intro d hd
    unfold Registered at hd
    dsimp only at hd
    rw [hfd] at hd
    have hne : ((channel d).fd : ℤ) ≠ (channel c).fd := by
      intro heq
      rw [heq, Function.update_self] at hd
      cases hd
    rw [Function.update_of_ne hne] at hd
    refine ⟨?_, hd⟩
    rintro rfl
    exact hne rfl
  refine ⟨⟨?_, ?_, ?_⟩, ?_⟩
  · intro fd d hd
    dsimp only at hd
    by_cases hf : fd = (channel c).fd
    · subst hf
      rw [Function.update_self] at hd
      cases hd
    · rw [Function.update_of_ne hf] at hd
      rw [hfd]
      exact h.channels_fd hd
  · intro d hd
    obtain ⟨hdc, hd⟩ := hold hd
    obtain ⟨k, e, hk, he, hent⟩ := h.entry hd
    obtain ⟨l, hl, hget⟩ := hkeep d k hdc hd hk
    refine ⟨l, e, hl, hget.trans he, ?_, ?_⟩
    · rw [hev]
      exact hent.events
    · unfold Channel.isNoneEvent
      rw [hfd, hev]
      exact hent.fd
  · intro l e he
    obtain ⟨d, hdc, hd, hl⟩ := howner l e he
    refine ⟨d, ?_, hl⟩
    have hne : ((channel d).fd : ℤ) ≠ (channel c).fd := by
      intro heq
      exact hdc (hd.eq_of_fd hc (by exact_mod_cast heq))
    unfold Registered
    rw [hfd]
    exact (Function.update_of_ne hne ..).trans hd
  · intro d hd
    obtain ⟨hdc, hd⟩ := hold hd
    obtain ⟨k, e, hk, -, -⟩ := h.entry hd
    obtain ⟨l, hl, hget⟩ := hkeep d k hdc hd hk
    rw [hl, hk]
    exact ⟨hd, hget⟩

/-- The entry was the last one. -/
theorem Wf.erase_last (h : p.Wf channel) (hc : p.Registered channel c)
    (hk : (channel c).index = (p.pollfds.length - 1 : ℕ)) (hfd : x.fd = (channel c).fd)
    (hev : x.events = (channel c).events)
    (hp : p' = ⟨Function.update p.channels (channel c).fd none, p.pollfds.dropLast⟩) :
    p'.Wf (Function.update channel c x) ∧ ∀ d, p'.Registered (Function.update channel c x) d →
      p.Registered channel d ∧ p'.pollfds[(Function.update channel c x d).index.toNat]? =
        p.pollfds[(channel d).index.toNat]? := by
  have hsame : ∀ d, d ≠ c → Function.update channel c x d = channel d :=
    fun d hdc => Function.update_of_ne hdc ..
  refine h.erase hc (fun d => ?_) (fun d => ?_) (fun d k hdc hd hidx => ?_) (fun l e he => ?_) hp
  · by_cases hdc : d = c
    · rw [hdc, Function.update_self, hfd]
    · rw [hsame d hdc]
  · by_cases hdc : d = c
    · rw [hdc, Function.update_self, hev]
    · rw [hsame d hdc]
  · refine ⟨k, by rw [hsame d hdc]; exact hidx, ?_⟩
    obtain ⟨k', e, hk', he, -⟩ := h.entry hd
    have hlt := (List.getElem?_eq_some_iff.1 he).1
    have hne : (channel d).index ≠ (channel c).index := fun heq => hdc (h.eq_of_index hd hc heq)
    rw [List.getElem?_dropLast, if_pos (by omega)]
  · rw [List.getElem?_dropLast] at he
    split_ifs at he with hl
    obtain ⟨d, hd, hidx⟩ := h.owner he
    have hdc : d ≠ c := by
      rintro rfl
      omega
    exact ⟨d, hdc, hd, by rw [hsame d hdc]; exact hidx⟩

/-- The channel that has the last entry. -/
theorem Wf.last (h : p.Wf channel) (hne : p.pollfds ≠ []) :
    ∃ e d, p.pollfds[p.pollfds.length - 1]? = some e ∧ p.Registered channel d ∧
      (channel d).index = (p.pollfds.length - 1 : ℕ) ∧
      ((channel d).fd : ℤ) = if e.fd < 0 then -e.fd - 1 else e.fd := by
  have hlast : p.pollfds[p.pollfds.length - 1]? = some (p.pollfds.getLast hne) := by
    rw [← List.getLast?_eq_getElem?, List.getLast?_eq_some_getLast hne]
  obtain ⟨d, hd, hidx⟩ := h.owner hlast
  obtain ⟨k, e, hk, he, hent⟩ := h.entry hd
  obtain rfl : k = p.pollfds.length - 1 := by omega
  exact ⟨e, d, he, hd, hidx, hent.fd_eq⟩

/-- The entry was another one, and the last one moves to its place. -/
theorem Wf.erase_swap (h : p.Wf channel) (hc : p.Registered channel c) {k : ℕ}
    (hk : (channel c).index = k) (hfd : x.fd = (channel c).fd) (hev : x.events = (channel c).events)
    {last : PollFd} (hlast : p.pollfds[p.pollfds.length - 1]? = some last) (hd : p.Registered channel d)
    (hidx : (channel d).index = (p.pollfds.length - 1 : ℕ)) (hdc : d ≠ c)
    (hp : p' = ⟨Function.update p.channels (channel c).fd none, (p.pollfds.set k last).dropLast⟩)
    (hch : channel' = setIndex (Function.update channel c x) d k) :
    p'.Wf channel' ∧ ∀ d, p'.Registered channel' d → p.Registered channel d ∧
      p'.pollfds[(channel' d).index.toNat]? = p.pollfds[(channel d).index.toNat]? := by
  have hself : channel' d = { channel d with index := k } := by
    rw [hch, setIndex, Function.update_self, Function.update_of_ne hdc]
  have hleft : channel' c = x := by
    rw [hch, setIndex, Function.update_of_ne (Ne.symm hdc), Function.update_self]
  have hsame : ∀ a, a ≠ c → a ≠ d → channel' a = channel a := fun a hac had => by
    rw [hch, setIndex, Function.update_of_ne had, Function.update_of_ne hac]
  have hne : (channel d).index ≠ (channel c).index := fun heq => hdc (h.eq_of_index hd hc heq)
  obtain ⟨k', e, hk', he, -⟩ := h.entry hc
  have hlt := (List.getElem?_eq_some_iff.1 he).1
  refine h.erase hc (fun a => ?_) (fun a => ?_) (fun a j hac ha hj => ?_) (fun l e he => ?_) hp
  · by_cases hac : a = c
    · rw [hac, hleft, hfd]
    · by_cases had : a = d
      · rw [had, hself]
      · rw [hsame a hac had]
  · by_cases hac : a = c
    · rw [hac, hleft, hev]
    · by_cases had : a = d
      · rw [had, hself]
      · rw [hsame a hac had]
  · by_cases had : a = d
    · subst had
      refine ⟨k, by rw [hself], ?_⟩
      obtain rfl : j = p.pollfds.length - 1 := by omega
      rw [List.getElem?_dropLast, List.length_set, if_pos (by omega), List.getElem?_set_self (by omega)]
      exact hlast.symm
    · refine ⟨j, by rw [hsame a hac had]; exact hj, ?_⟩
      have hjk : (channel a).index ≠ (channel c).index := fun heq => hac (h.eq_of_index ha hc heq)
      have hjd : (channel a).index ≠ (channel d).index := fun heq => had (h.eq_of_index ha hd heq)
      obtain ⟨j', e', hj', he', -⟩ := h.entry ha
      have hlt' := (List.getElem?_eq_some_iff.1 he').1
      rw [List.getElem?_dropLast, List.length_set, if_pos (by omega), List.getElem?_set_ne (by omega)]
  · rw [List.getElem?_dropLast, List.length_set] at he
    split_ifs at he with hl
    by_cases hlk : k = l
    · subst hlk
      exact ⟨d, hdc, hd, by rw [hself]⟩
    · rw [List.getElem?_set_ne hlk] at he
      obtain ⟨a, ha, hidxa⟩ := h.owner he
      have hac : a ≠ c := by
        rintro rfl
        omega
      have had : a ≠ d := by
        rintro rfl
        omega
      exact ⟨a, hac, ha, by rw [hsame a hac had]; exact hidxa⟩

theorem Wf.removeChannel (h : p.Wf channel) (hfd : x.fd = (channel c).fd)
    (hidx : x.index = (channel c).index) (hev : x.events = (channel c).events)
    (hreg : p.channels x.fd = some c) (hnone : x.isNoneEvent = true)
    (hoff : ∀ e, p.pollfds[x.index.toNat]? = some e → e.fd ≠ x.fd) :
    ∃ p' channel', p.removeChannel (Function.update channel c x) c = .ok (p', channel') ∧
      p'.channels = Function.update p.channels x.fd none ∧
      (∀ d, ∃ i, channel' d = { Function.update channel c x d with index := i } ∧
        (i = (Function.update channel c x d).index ∨ p.Registered channel d)) ∧
      p'.Wf channel' ∧ ∀ d, p'.Registered channel' d → p.Registered channel d ∧
        p'.pollfds[(channel' d).index.toNat]? = p.pollfds[(channel d).index.toNat]? := by
  have hc := registered_of_fd hfd hreg
  obtain ⟨k, e, hk, he, hent⟩ := h.entry hc
  have hxk : x.index = k := hidx.trans hk
  have hlt := (List.getElem?_eq_some_iff.1 he).1
  have hentry : e.fd = -x.fd - 1 ∧ e.events.signExtend 32 = x.events := by
    have hx : x.events = 0 := by simpa [Channel.isNoneEvent, Channel.kNoneEvent] using hnone
    refine ⟨?_, by rw [hent.events, ← hev, hx]; rfl⟩
    rw [hfd]
    refine (hent.fd.resolve_left ?_).1
    rw [← hfd]
    exact hoff e (by rw [hxk, Int.toNat_natCast]; exact he)
  unfold PollPoller.removeChannel
  dsimp only
  rw [Function.update_self, check_of hreg, ok_bind, check_of hnone, ok_bind, check_of (by omega),
    ok_bind, hxk, Int.toNat_natCast, he]
  dsimp only
  rw [check_of hentry, ok_bind]
  by_cases hend : k = p.pollfds.length - 1
  · rw [if_pos hend]
    refine ⟨_, _, rfl, rfl,
      fun d => ⟨(Function.update channel c x d).index, rfl, Or.inl rfl⟩, ?_⟩
    exact h.erase_last hc (by rw [hk, hend]) hfd hev (by rw [hfd])
  · obtain ⟨last, d, hlast, hd, hidxd, hfdd⟩ := h.last (List.ne_nil_of_length_pos (by omega))
    have hdc : d ≠ c := by
      rintro rfl
      omega
    have hne : ((channel d).fd : ℤ) ≠ x.fd := fun heq =>
      hdc (hd.eq_of_fd hc (by rw [← hfd]; exact_mod_cast heq))
    rw [if_neg hend, swapOut, List.getLast?_eq_getElem?]
    dsimp only
    rw [hlast]
    dsimp only
    rw [← hfdd, Function.update_of_ne hne, show p.channels (channel d).fd = some d from hd]
    refine ⟨_, _, rfl, rfl, fun a => ?_,
      h.erase_swap hc hk hfd hev hlast hd hidxd hdc (by rw [hfd]) rfl⟩
    by_cases had : a = d
    · subst had
      exact ⟨k, by rw [setIndex, Function.update_self], Or.inr hd⟩
    · exact ⟨(Function.update channel c x a).index, by rw [setIndex, Function.update_of_ne had],
        Or.inl rfl⟩

/-- A channel that is not in the map. -/
theorem removeChannel_fault (hreg : p.channels x.fd ≠ some c) :
    p.removeChannel (Function.update channel c x) c = .error .removeChannel := by
  unfold PollPoller.removeChannel
  dsimp only
  rw [Function.update_self, check_of_not hreg]
  rfl

/-- A channel whose entry is not disabled. -/
theorem Wf.removeChannel_fault_of_fd (h : p.Wf channel) (hfd : x.fd = (channel c).fd)
    (hidx : x.index = (channel c).index) (hreg : p.channels x.fd = some c)
    (hnone : x.isNoneEvent = true) {e : PollFd} (he : p.pollfds[x.index.toNat]? = some e)
    (hon : e.fd = x.fd) :
    p.removeChannel (Function.update channel c x) c = .error .removeChannel := by
  have hc := registered_of_fd hfd hreg
  obtain ⟨k, -, hk, -, -⟩ := h.entry hc
  unfold PollPoller.removeChannel
  dsimp only
  rw [Function.update_self, check_of hreg, ok_bind, check_of hnone, ok_bind,
    check_of (by omega), ok_bind, he]
  dsimp only
  rw [check_of_not (by omega)]
  rfl

/-! ## Polling -/

theorem toNat_setWidth_of_lt {m : Mask} (h : m.toNat < 2 ^ 5) : (m.setWidth 16).toNat = m.toNat := by
  rw [BitVec.toNat_setWidth]
  omega

/-- Events survive the way through `short`. -/
theorem signExtend_setWidth {m : Mask} (h : m.toNat < 2 ^ 5) :
    (m.setWidth 16).signExtend 32 = m := by
  have hmsb : (m.setWidth 16).msb = false := by
    rw [BitVec.msb_eq_false_iff_two_mul_lt, toNat_setWidth_of_lt h]
    omega
  rw [BitVec.signExtend_eq_setWidth_of_msb_false hmsb]
  apply BitVec.eq_of_toNat_eq
  rw [BitVec.toNat_setWidth, toNat_setWidth_of_lt h]
  omega

theorem setWidth_eq_zero_iff {m : Mask} (h : m.toNat < 2 ^ 5) : m.setWidth 16 = 0 ↔ m = 0 := by
  rw [← BitVec.toNat_inj, ← BitVec.toNat_inj, toNat_setWidth_of_lt h]
  rfl

theorem toInt_setWidth_pos_iff {m : Mask} (h : m.toNat < 2 ^ 5) :
    0 < (m.setWidth 16).toInt ↔ m ≠ 0 := by
  have hnat := toNat_setWidth_of_lt h
  rw [BitVec.toInt_eq_toNat_of_lt (by omega), hnat, ne_eq, ← BitVec.toNat_inj]
  simp only [BitVec.ofNat_eq_ofNat, BitVec.toNat_ofNat, Nat.zero_mod]
  omega

theorem report_lt (k : Kernel) (fd : ℤ) {events : Mask} (h : events.toNat < 2 ^ 3) :
    (k.report fd events).toNat < 2 ^ 5 := by
  unfold Kernel.report
  rw [BitVec.toNat_and, BitVec.toNat_or]
  refine Nat.and_lt_two_pow _ (Nat.or_lt_two_pow ?_ (by decide))
  omega

theorem Wf.exists_owner (h : p.Wf channel) {e : PollFd} (he : e ∈ p.pollfds) :
    ∃ c, p.Registered channel c ∧ p.pollfds[(channel c).index.toNat]? = some e := by
  obtain ⟨i, hi⟩ := List.mem_iff_getElem?.1 he
  obtain ⟨c, hc, hidx⟩ := h.owner hi
  exact ⟨c, hc, by rw [hidx, Int.toNat_natCast]; exact hi⟩

/-- What `poll(2)` says of the entry of a channel. -/
theorem Wf.revents_pollOne (h : p.Wf channel) (k : Kernel) (hev : (channel c).events.toNat < 2 ^ 3)
    (hc : p.Registered channel c) {e : PollFd}
    (he : p.pollfds[(channel c).index.toNat]? = some e) :
    ((pollOne k e).revents = 0 ↔ ¬ 0 < (pollOne k e).revents.toInt) ∧
      (0 < (pollOne k e).revents.toInt ↔
        e.fd = (channel c).fd ∧ k.report (channel c).fd (channel c).events ≠ 0) := by
  obtain ⟨i, e', hi, he', hent⟩ := h.entry hc
  obtain rfl : e = e' := by
    rw [hi, Int.toNat_natCast, he'] at he
    exact (Option.some.inj he).symm
  have hlt := report_lt k e.fd hev
  unfold pollOne
  dsimp only
  rw [hent.events, signExtend_setWidth (by omega)]
  constructor
  · split_ifs
    · rw [setWidth_eq_zero_iff hlt, toInt_setWidth_pos_iff hlt, not_not]
    · simp
  · by_cases hfd : e.fd = (channel c).fd
    · rw [if_pos (by omega), toInt_setWidth_pos_iff hlt, hfd]
      simp
    · have hoff := (hent.fd.resolve_left hfd).1
      rw [if_neg (by omega)]
      simp [hfd]

/-- The loop finds every entry that has an event. -/
theorem fillActiveChannels_eq {pollfds : List PollFd}
    (hfind : ∀ e ∈ pollfds, 0 < e.revents.toInt → ∃ c, p.channels e.fd = some c ∧
      (channel c).fd = e.fd) {n : ℕ} (hn : pollfds.countP (fun e => decide (0 < e.revents.toInt)) ≤ n)
    (active : List ℕ) :
    p.fillActiveChannels channel pollfds n active = .ok (active ++
      pollfds.filterMap fun e => if 0 < e.revents.toInt then p.channels e.fd else none) := by
  induction pollfds generalizing n active with
  | nil => cases n <;> simp [fillActiveChannels, pure, Except.pure]
  | cons e pollfds ih =>
    have hfind' := fun e he => hfind e (List.mem_cons_of_mem _ he)
    by_cases hpos : 0 < e.revents.toInt
    · rw [List.countP_cons_of_pos (by simpa using hpos)] at hn
      obtain ⟨n, rfl⟩ : ∃ m, n = m + 1 := ⟨n - 1, by omega⟩
      obtain ⟨c, hc, hfd⟩ := hfind e List.mem_cons_self hpos
      rw [fillActiveChannels, if_pos hpos, hc]
      dsimp only
      rw [check_of hfd, ok_bind, ih hfind' (by omega),
        List.filterMap_cons_some (by rw [if_pos hpos, hc]), List.append_assoc, List.singleton_append]
    · rw [List.countP_cons_of_neg (by simpa using hpos)] at hn
      rw [List.filterMap_cons_none (by rw [if_neg hpos])]
      cases n with
      | zero =>
        rw [← ih hfind' hn active]
        cases pollfds <;> rfl
      | succ n => rw [fillActiveChannels, if_neg hpos, ih hfind' hn]

theorem getElem?_map_pollOne (k : Kernel) (i : ℕ) (e : PollFd) :
    (p.pollfds.map (pollOne k))[i]? = some e ↔ ∃ e', p.pollfds[i]? = some e' ∧ pollOne k e' = e := by
  rw [List.getElem?_map, Option.map_eq_some_iff]

theorem Wf.polled (h : p.Wf channel) (k : Kernel) :
    Wf { p with pollfds := p.pollfds.map (pollOne k) } channel := by
  refine ⟨h.channels_fd, fun hc => ?_, fun he => ?_⟩
  · obtain ⟨i, e, hi, he, hent⟩ := h.entry hc
    exact ⟨i, pollOne k e, hi, (getElem?_map_pollOne k i _).2 ⟨e, he, rfl⟩, hent.events, hent.fd⟩
  · obtain ⟨e', he', -⟩ := (getElem?_map_pollOne k _ _).1 he
    exact h.owner he'

/-- The active channels of a poll are those that are watched and have something to report.  The
channels themselves are left as they are. -/
theorem Wf.poll (h : p.Wf channel) (hev : ∀ c, (channel c).events.toNat < 2 ^ 3) (k : Kernel) :
    ∃ active, p.poll channel k =
        .ok ({ p with pollfds := p.pollfds.map (pollOne k) }, channel, active) ∧
      ∀ c, c ∈ active ↔ p.Watched channel c ∧ k.report (channel c).fd (channel c).events ≠ 0 := by
  have hzero : ∀ e ∈ p.pollfds.map (pollOne k), e.revents = 0 ↔ ¬ 0 < e.revents.toInt := by
    intro e he
    obtain ⟨e', he', rfl⟩ := List.mem_map.1 he
    obtain ⟨c, hc, hget⟩ := h.exists_owner he'
    exact (h.revents_pollOne k (hev c) hc hget).1
  have hfind : ∀ e ∈ p.pollfds.map (pollOne k), 0 < e.revents.toInt →
      ∃ c, p.channels e.fd = some c ∧ (channel c).fd = e.fd := by
    intro e he hpos
    obtain ⟨e', he', rfl⟩ := List.mem_map.1 he
    obtain ⟨c, hc, hget⟩ := h.exists_owner he'
    obtain ⟨hfd, -⟩ := (h.revents_pollOne k (hev c) hc hget).2.1 hpos
    refine ⟨c, ?_, hfd.symm⟩
    show p.channels e'.fd = some c
    rw [hfd]
    exact hc
  have hmem : ∀ c, c ∈ ((p.pollfds.map (pollOne k)).filterMap fun e =>
        if 0 < e.revents.toInt then p.channels e.fd else none) ↔
      p.Watched channel c ∧ k.report (channel c).fd (channel c).events ≠ 0 := by
    intro c
    rw [List.mem_filterMap]
    constructor
    · rintro ⟨e, he, heq⟩
      obtain ⟨e', he', rfl⟩ := List.mem_map.1 he
      obtain ⟨d, hd, hget⟩ := h.exists_owner he'
      split_ifs at heq with hpos
      obtain ⟨hfd, hrep⟩ := (h.revents_pollOne k (hev d) hd hget).2.1 hpos
      have hdc : p.channels e'.fd = some c := heq
      rw [hfd, show p.channels (channel d).fd = some d from hd] at hdc
      obtain rfl := Option.some.inj hdc
      exact ⟨⟨hd, e', hget, hfd⟩, hrep⟩
    · rintro ⟨⟨hc, e, he, hfd⟩, hrep⟩
      refine ⟨pollOne k e, List.mem_map_of_mem (List.mem_of_getElem? he), ?_⟩
      rw [if_pos ((h.revents_pollOne k (hev c) hc he).2.2 ⟨hfd, hrep⟩)]
      show p.channels e.fd = some c
      rw [hfd]
      exact hc
  unfold PollPoller.poll
  dsimp only
  by_cases hpos : 0 < (p.pollfds.map (pollOne k)).countP fun e => decide (e.revents ≠ 0)
  · have hle := List.countP_mono_left (l := p.pollfds.map (pollOne k))
      (p := fun e => decide (0 < e.revents.toInt)) (q := fun e => decide (e.revents ≠ 0))
      fun e he hp => by
        have hne : e.revents ≠ 0 := fun heq => (hzero e he).1 heq (of_decide_eq_true hp)
        exact decide_eq_true hne
    rw [if_pos hpos, fillActiveChannels_eq (p := { p with pollfds := p.pollfds.map (pollOne k) })
      hfind hle, ok_bind]
    exact ⟨_, rfl, hmem⟩
  · rw [if_neg hpos]
    refine ⟨[], rfl, fun c => ?_⟩
    rw [← hmem c, List.mem_filterMap]
    constructor
    · exact fun hc => absurd hc List.not_mem_nil
    · rintro ⟨e, he, heq⟩
      have hnone := List.countP_eq_zero.1 (Nat.eq_zero_of_not_pos hpos) e he
      split_ifs at heq with hp
      exact absurd ((hzero e he).1 (by simpa using hnone)) (not_not.2 hp)

end PollPoller

end Reactor
