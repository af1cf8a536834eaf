import Reactor.Channel
import Reactor.Lib.Machine

/-!
# The resolver

`Resolver` looks up names with the c-ares library, which calls back while one of its functions runs:
about its sockets, for which the resolver keeps channels, and with results.  A result is passed on to
the user, who may resolve the next name at once.  The library has to be called when a socket is
readable and when its time is up; for the latter there is one timer, `timerActive_`.

* `resolves_iff`: whatever the library, the poller and the user do in whatever order, the timer is due
  whenever a query is, so that no query is forgotten, the channels are those of the open sockets, and
  each query is answered at most once, unless an assertion fails.  That is so exactly in the runs
  where the library closes a socket whose channel is among those that the loop is handling, as it does
  when it reads an error.
-/

namespace Reactor

namespace Resolver

inductive Fault where
  | channel (fault : Reactor.Fault)
  | onTimer -- `timerActive_ == true`
  | onSockCreate -- `channels_.find(sockfd) == channels_.end()`
  | onSockStateChange -- `it != channels_.end()`
  | removeChannel -- the channel is the current one, or not an active one
  | channelDtor -- `!eventHandling_`, `!addedToLoop_`
  | queryData -- a `QueryData` that was deleted
  deriving DecidableEq, Repr

/-- The functions of the resolver that call the library. -/
inductive Frame where
  | resolve
  | onRead (sockfd : ℕ)
  | onTimer
  deriving DecidableEq, Repr

/-- What the library has open. -/
structure Ares where
  pending : List ℕ
  sockets : List ℕ

end Resolver

/-- A `Resolver`, with the library and the loop.  `timers` are the delays of the timers that were
started, `none` for one in the past. -/
structure Resolver where
  timerActive : Bool
  channels : ℕ → Option Channel
  queryData : List ℕ
  nextQuery : ℕ
  answers : List (ℕ × Option Bytes)
  ares : Resolver.Ares
  timers : List (Option ℕ)
  activeChannels : List ℕ
  eventHandling : Bool
  stack : List Resolver.Frame

namespace Resolver

def new : Resolver where
  timerActive := false
  channels _ := none
  queryData := []
  nextQuery := 0
  answers := []
  ares := ⟨[], []⟩
  timers := []
  activeChannels := []
  eventHandling := false
  stack := []

/-- `currentActiveChannel_` while a function of the resolver runs, if it is one of the resolver's. -/
def currentActiveChannel (r : Resolver) : Option ℕ :=
  match r.stack.getLast? with
  | some (.onRead sockfd) => some sockfd
  | some .resolve | some .onTimer | none => none

def onSockCreate (r : Resolver) (sockfd : ℕ) : Except Fault Resolver :=
  match r.channels sockfd with
  | some _ => .error .onSockCreate
  | none => .ok { r with
      channels := Function.update r.channels sockfd (some (Channel.new sockfd).enableReading) }

/-- `it->second->remove()` and the destructor of the channel. -/
def removeChannel (r : Resolver) (sockfd : ℕ) (channel : Channel) : Except Fault Resolver :=
  match channel.remove with
  | .error e => .error (.channel e)
  | .ok channel =>
    if r.eventHandling ∧ r.currentActiveChannel ≠ some sockfd ∧ sockfd ∈ r.activeChannels then
      .error .removeChannel
    else if r.currentActiveChannel = some sockfd ∨ channel.addedToLoop then .error .channelDtor
    else .ok { r with channels := Function.update r.channels sockfd none }

def onSockStateChange (r : Resolver) (sockfd : ℕ) (read : Bool) : Except Fault Resolver :=
  match r.channels sockfd with
  | none => .error .onSockStateChange
  | some channel => if read then .ok r else r.removeChannel sockfd channel.disableAll

/-- `ares_host_callback`; without a result the address is zero. -/
def onQueryResult (r : Resolver) (query : ℕ) (result : Option Bytes) : Except Fault Resolver :=
  if query ∈ r.queryData then
    .ok { r with queryData := r.queryData.erase query, answers := r.answers ++ [(query, result)] }
  else .error .queryData

/-- The call of the library is over, and `ares_timeout` gives what is left. -/
def returned (r : Resolver) (timeout : Option ℕ) : Resolver :=
  match r.stack with
  | [] => r
  | .resolve :: stack =>
    if r.timerActive then { r with stack := stack }
    else { r with stack := stack, timers := timeout :: r.timers, timerActive := true }
  | .onRead _ :: stack => { r with stack := stack }
  | .onTimer :: stack =>
    match timeout with
    | none => { r with stack := stack, timerActive := false }
    | some _ => { r with stack := stack, timers := timeout :: r.timers }

inductive Action where
  -- the loop: the channels that are ready, and the end of the loop over them
  | poll (active : List ℕ)
  | handled
  -- the functions of the resolver, up to the call of the library, and behind it
  | resolve
  | onRead (sockfd : ℕ)
  | onTimer
  | returned (timeout : Option ℕ)
  -- the callbacks of the library
  | sockCreate (sockfd : ℕ)
  | sockState (sockfd : ℕ) (read : Bool)
  | host (query : ℕ) (result : Option Bytes)

def step (r : Resolver) : Action → Except Fault Resolver
  | .poll active => .ok { r with activeChannels := active, eventHandling := true }
  | .handled => .ok { r with eventHandling := false }
  | .resolve => .ok { r with
      nextQuery := r.nextQuery + 1
      queryData := r.nextQuery :: r.queryData
      ares := { r.ares with pending := r.nextQuery :: r.ares.pending }
      stack := .resolve :: r.stack }
  | .onRead sockfd => .ok { r with stack := .onRead sockfd :: r.stack }
  | .onTimer =>
    if r.timerActive then .ok { r with timers := r.timers.tail, stack := .onTimer :: r.stack }
    else .error .onTimer
  | .returned timeout => .ok (r.returned timeout)
  | .sockCreate sockfd =>
    { r with ares := { r.ares with sockets := sockfd :: r.ares.sockets } }.onSockCreate sockfd
  | .sockState sockfd read =>
    let sockets := if read then r.ares.sockets else r.ares.sockets.erase sockfd
    { r with ares := { r.ares with sockets := sockets } }.onSockStateChange sockfd read
  | .host query result =>
    { r with ares := { r.ares with pending := r.ares.pending.erase query } }.onQueryResult query result

def machine : Machine Resolver Action Fault := ⟨step⟩

/-- The loop handles one event after the other, of channels that are registered.  The library calls
back while it runs: a new socket is not one that is open, the state of a socket is reported while it
is open, a query is answered once, and there is a time when it wants to be called as long as a query
is pending. -/
def Env (r : Resolver) : Action → Prop
  | .poll active => r.stack = [] ∧ r.eventHandling = false ∧ ∀ fd ∈ active, (r.channels fd).isSome
  | .handled => r.stack = [] ∧ r.eventHandling = true
  | .resolve => True
  | .onRead sockfd => r.stack = [] ∧ r.eventHandling = true ∧ sockfd ∈ r.activeChannels
  | .onTimer => r.stack = [] ∧ r.eventHandling = true ∧ r.timers ≠ []
  | .returned timeout => r.stack ≠ [] ∧ (timeout = none ↔ r.ares.pending = [])
  | .sockCreate sockfd => r.stack ≠ [] ∧ sockfd ∉ r.ares.sockets
  | .sockState sockfd _ => r.stack ≠ [] ∧ sockfd ∈ r.ares.sockets
  | .host query _ => r.stack ≠ [] ∧ query ∈ r.ares.pending

instance (r : Resolver) : ∀ a, Decidable (Env r a)
  | .poll _ | .handled | .onRead _ | .onTimer => inferInstanceAs (Decidable (_ ∧ _))
  | .resolve => isTrue trivial
  | .returned _ => inferInstanceAs (Decidable (_ ∧ (_ ↔ _)))
  | .sockCreate _ | .sockState _ _ | .host _ _ => inferInstanceAs (Decidable (_ ∧ _))

/-- No socket is closed whose channel the loop is handling, or has still to handle or has handled. -/
def Careful (r : Resolver) : Action → Prop
  | .sockState sockfd false => r.eventHandling = true → sockfd ∉ r.activeChannels
  | _ => True

instance (r : Resolver) : ∀ a, Decidable (Careful r a)
  | .sockState _ false => inferInstanceAs (Decidable (_ → _))
  | .sockState _ true | .poll _ | .handled | .resolve | .onRead _ | .onTimer | .returned _
  | .sockCreate _ | .host _ _ => isTrue trivial

/-- The timer is due when a query is, the channels are those of the open sockets, and each query is
pending or was answered once. -/
structure Good (r : Resolver) : Prop where
  armed : r.stack = [] → r.ares.pending ≠ [] → r.timers.length = 1
  channels : ∀ fd, r.channels fd =
    if fd ∈ r.ares.sockets then some (Channel.new fd).enableReading else none
  answered : (r.ares.pending ++ r.answers.map Prod.fst).Perm (List.range r.nextQuery)

/-! ## Invariant -/

structure Inv (r : Resolver) : Prop where
  channels : ∀ fd, r.channels fd =
    if fd ∈ r.ares.sockets then some (Channel.new fd).enableReading else none
  answered : (r.ares.pending ++ r.answers.map Prod.fst).Perm (List.range r.nextQuery)
  nodup : r.ares.sockets.Nodup
  queryData : r.queryData = r.ares.pending
  -- the timer is due, or its callback runs
  timers : r.timers.length + r.stack.count .onTimer = if r.timerActive then 1 else 0
  -- it will be started when `resolve` returns
  armed : r.ares.pending = [] ∨ r.timerActive = true ∨ .resolve ∈ r.stack
  handling : ∀ fd, r.stack.getLast? = some (.onRead fd) →
    r.eventHandling = true ∧ fd ∈ r.activeChannels

variable {r r' : Resolver} {f : Frame} {stack : List Frame} {sockfd : ℕ}

theorem inv_new : Inv Resolver.new :=
  ⟨fun _ => rfl, List.Perm.refl _, List.nodup_nil, rfl, rfl, Or.inl rfl, fun _ h => (by cases h)⟩

theorem Inv.good (h : Inv r) : Good r := by
  refine ⟨fun hstack hpending => ?_, h.channels, h.answered⟩
  have htimers := h.timers
  have hactive : r.timerActive = true := by
    rcases h.armed with hnil | hactive | hmem
    · exact absurd hnil hpending
    · exact hactive
    · rw [hstack] at hmem
      cases hmem
  rw [hstack, hactive, if_pos rfl] at htimers
  exact htimers

theorem currentActiveChannel_eq_some :
    r.currentActiveChannel = some sockfd ↔ r.stack.getLast? = some (.onRead sockfd) := by
  unfold Resolver.currentActiveChannel
  cases r.stack.getLast? with
  | none => simp
  | some frame => cases frame <;> simp

/-- The event that is handled does not change with the calls made for it. -/
theorem getLast?_push (hf : ∀ fd, f ≠ .onRead fd) {fd : ℕ}
    (h : (f :: stack).getLast? = some (.onRead fd)) : stack.getLast? = some (.onRead fd) := by
  rw [List.getLast?_cons] at h
  cases hlast : stack.getLast? with
  | none =>
    rw [hlast] at h
    exact absurd (Option.some.inj h) (hf fd)
  | some frame =>
    rw [hlast] at h
    exact h

theorem getLast?_pop {frame : Frame} (h : stack.getLast? = some frame) :
    (f :: stack).getLast? = some frame := by
  rw [List.getLast?_cons, h]
  rfl

/-! ## Calls of the library -/

theorem Inv.resolve (h : Inv r) : ∃ r', step r .resolve = .ok r' ∧ Inv r' := by
  refine ⟨_, rfl, h.channels, ?_, h.nodup, congrArg _ h.queryData, ?_,
    Or.inr (Or.inr List.mem_cons_self), fun fd hfd => h.handling fd (getLast?_push (by simp) hfd)⟩
  · dsimp only
    rw [List.range_succ, List.cons_append]
    exact (h.answered.cons _).trans (List.perm_append_singleton _ _).symm
  · dsimp only
    rw [List.count_cons_of_ne (by simp)]
    exact h.timers

theorem Inv.onRead (h : Inv r) (hE : Env r (.onRead sockfd)) :
    ∃ r', step r (.onRead sockfd) = .ok r' ∧ Inv r' := by
  obtain ⟨hstack, hhandling, hactive⟩ := hE
  refine ⟨_, rfl, h.channels, h.answered, h.nodup, h.queryData, ?_, ?_, fun fd hfd => ?_⟩
  · dsimp only
    rw [List.count_cons_of_ne (by simp)]
    exact h.timers
  · exact h.armed.imp_right (Or.imp_right (List.mem_cons_of_mem _))
  · dsimp only at hfd ⊢
    rw [hstack] at hfd
    cases hfd
    exact ⟨hhandling, hactive⟩

theorem Inv.onTimer (h : Inv r) (hE : Env r .onTimer) : ∃ r', step r .onTimer = .ok r' ∧ Inv r' := by
  obtain ⟨hstack, -, hdue⟩ := hE
  have htimers := h.timers
  have hpos := List.length_pos_iff.2 hdue
  have hactive : r.timerActive = true := by
    by_contra hidle
    rw [if_neg hidle] at htimers
    omega
  refine ⟨_, if_pos hactive, h.channels, h.answered, h.nodup, h.queryData, ?_,
    Or.inr (Or.inl hactive), fun fd hfd => ?_⟩
  · dsimp only
    rw [List.count_cons_self, List.length_tail, ← htimers]
    omega
  · dsimp only at hfd
    rw [hstack] at hfd
    cases hfd

theorem Inv.returned {timeout : Option ℕ} (h : Inv r) (hE : Env r (.returned timeout)) :
    Inv (r.returned timeout) := by
  obtain ⟨hstack, htimeout⟩ := hE
  have htimers := h.timers
  have harmed := h.armed
  have hhandling := h.handling
  unfold Resolver.returned
  cases hr : r.stack with
  | nil => exact absurd hr hstack
  | cons frame stack =>
    rw [hr] at htimers harmed hhandling
    have hpop : ∀ fd, stack.getLast? = some (.onRead fd) →
        r.eventHandling = true ∧ fd ∈ r.activeChannels := fun fd hfd => hhandling fd (getLast?_pop hfd)
    cases frame with
    | resolve =>
      rw [List.count_cons_of_ne (by simp)] at htimers
      dsimp only
      by_cases hactive : r.timerActive = true
      · rw [if_pos hactive]
        exact ⟨h.channels, h.answered, h.nodup, h.queryData, htimers, Or.inr (Or.inl hactive), hpop⟩
      · rw [if_neg hactive] at htimers ⊢
        refine ⟨h.channels, h.answered, h.nodup, h.queryData, ?_, Or.inr (Or.inl rfl), hpop⟩
        dsimp only
        rw [List.length_cons, if_pos rfl]
        omega
    | onRead sockfd =>
      rw [List.count_cons_of_ne (by simp)] at htimers
      refine ⟨h.channels, h.answered, h.nodup, h.queryData, htimers, ?_, hpop⟩
      exact harmed.imp_right (Or.imp_right fun hmem => (List.mem_cons.1 hmem).resolve_left (by simp))
    | onTimer =>
      rw [List.count_cons_self] at htimers
      have hactive : r.timerActive = true := by
        by_contra hidle
        rw [if_neg hidle] at htimers
        omega
      rw [if_pos hactive] at htimers
      cases timeout with
      | none =>
        refine ⟨h.channels, h.answered, h.nodup, h.queryData, ?_, Or.inl (htimeout.1 rfl), hpop⟩
        dsimp only
        rw [if_neg Bool.false_ne_true]
        omega
      | some delay =>
        refine ⟨h.channels, h.answered, h.nodup, h.queryData, ?_, Or.inr (Or.inl hactive), hpop⟩
        dsimp only
        rw [List.length_cons, if_pos hactive]
        omega

/-! ## Callbacks of the library -/

theorem Inv.sockCreate (h : Inv r) (hE : Env r (.sockCreate sockfd)) :
    ∃ r', step r (.sockCreate sockfd) = .ok r' ∧ Inv r' := by
  have hnone : r.channels sockfd = none := by
    rw [h.channels, if_neg hE.2]
  have hstep : step r (.sockCreate sockfd) = .ok { r with
      ares := { r.ares with sockets := sockfd :: r.ares.sockets }
      channels := Function.update r.channels sockfd (some (Channel.new sockfd).enableReading) } := by
    rw [step, Resolver.onSockCreate]
    dsimp only
    rw [hnone]
  refine ⟨_, hstep, fun fd => ?_, h.answered, List.nodup_cons.2 ⟨hE.2, h.nodup⟩, h.queryData, h.timers,
    h.armed, h.handling⟩
  dsimp only
  by_cases hfd : fd = sockfd
  · rw [hfd, Function.update_self, if_pos List.mem_cons_self]
  · rw [Function.update_of_ne hfd, h.channels]
    simp only [List.mem_cons, hfd, false_or]

/-- The channel that is closed has no events and is not in the loop. -/
theorem remove_disableAll (fd : ℕ) : ∃ channel, (Channel.new fd).enableReading.disableAll.remove =
    .ok channel ∧ channel.addedToLoop = false := ⟨_, rfl, rfl⟩

theorem Inv.sockState {read : Bool} (h : Inv r) (hE : Env r (.sockState sockfd read))
    (hC : Careful r (.sockState sockfd read)) :
    ∃ r', step r (.sockState sockfd read) = .ok r' ∧ Inv r' := by
  have hsome : r.channels sockfd = some (Channel.new sockfd).enableReading := by
    rw [h.channels, if_pos hE.2]
  unfold step Resolver.onSockStateChange
  dsimp only
  rw [hsome]
  cases read with
  | true => exact ⟨r, rfl, h⟩
  | false =>
    have hidle : r.eventHandling = true → sockfd ∉ r.activeChannels := hC
    obtain ⟨channel, hremove, hadded⟩ := remove_disableAll sockfd
    have hcurrent : r.stack.getLast? ≠ some (.onRead sockfd) := fun hlast => by
      obtain ⟨hhandling, hactive⟩ := h.handling sockfd hlast
      exact hidle hhandling hactive
    refine ⟨{ r with
      ares := { r.ares with sockets := r.ares.sockets.erase sockfd }
      channels := Function.update r.channels sockfd none }, ?_, ?_⟩
    · unfold Resolver.removeChannel
      dsimp only
      rw [if_neg Bool.false_ne_true, hremove]
      dsimp only
      rw [if_neg fun hbad => hidle hbad.1 hbad.2.2, if_neg]
      · rfl
      · rw [hadded]
        rintro (hbad | hbad)
        · exact hcurrent (currentActiveChannel_eq_some.1 hbad)
        · cases hbad
    · refine ⟨fun fd => ?_, h.answered, h.nodup.erase _, h.queryData, h.timers, h.armed, h.handling⟩
      dsimp only
      by_cases hfd : fd = sockfd
      · rw [hfd, Function.update_self, if_neg (h.nodup.not_mem_erase)]
      · rw [Function.update_of_ne hfd, h.channels]
        simp only [List.mem_erase_of_ne hfd]

/-- A socket whose channel is handled cannot be closed. -/
theorem Inv.not_careful (h : Inv r) (hE : Env r (.sockState sockfd false))
    (hC : ¬ Careful r (.sockState sockfd false)) (hr' : step r (.sockState sockfd false) = .ok r') :
    False := by
  have hsome : r.channels sockfd = some (Channel.new sockfd).enableReading := by
    rw [h.channels, if_pos hE.2]
  obtain ⟨hhandling, hactive⟩ := Classical.not_imp.1 hC
  obtain ⟨channel, hremove, -⟩ := remove_disableAll sockfd
  unfold step Resolver.onSockStateChange at hr'
  dsimp only at hr'
  rw [hsome] at hr'
  simp only [Bool.false_eq_true, if_false, Resolver.removeChannel, hremove] at hr'
  split_ifs at hr' with hother hcurrent
  exact hother ⟨hhandling, fun heq => hcurrent (Or.inl heq), Classical.not_not.1 hactive⟩

theorem Inv.host {query : ℕ} {result : Option Bytes} (h : Inv r) (hE : Env r (.host query result)) :
    ∃ r', step r (.host query result) = .ok r' ∧ Inv r' := by
  have hmem : query ∈ r.queryData := by
    rw [h.queryData]
    exact hE.2
  refine ⟨_, if_pos hmem, h.channels, ?_, h.nodup, congrArg (List.erase · query) h.queryData, h.timers, ?_,
    h.handling⟩
  · dsimp only
    rw [List.map_append, ← List.append_assoc]
    refine List.Perm.trans ?_ h.answered
    refine (List.perm_append_comm).trans ?_
    exact List.Perm.append_right _ (List.perm_cons_erase hE.2).symm
  · refine h.armed.imp_left fun hnil => ?_
    dsimp only
    rw [hnil]
    rfl

/-! ## Runs -/

theorem step_inv {a : Action} (h : Inv r) (hE : Env r a) (hC : Careful r a) :
    ∃ r', machine.step r a = .ok r' ∧ Inv r' := by
  cases a with
  | poll active =>
    refine ⟨_, rfl, h.channels, h.answered, h.nodup, h.queryData, h.timers, h.armed, fun fd hfd => ?_⟩
    dsimp only at hfd
    rw [hE.1] at hfd
    cases hfd
  | handled =>
    refine ⟨_, rfl, h.channels, h.answered, h.nodup, h.queryData, h.timers, h.armed, fun fd hfd => ?_⟩
    dsimp only at hfd
    rw [hE.1] at hfd
    cases hfd
  | resolve => exact h.resolve
  | onRead sockfd => exact h.onRead hE
  | onTimer => exact h.onTimer hE
  | returned timeout => exact ⟨_, rfl, h.returned hE⟩
  | sockCreate sockfd => exact h.sockCreate hE
  | sockState sockfd read => exact h.sockState hE hC
  | host query result => exact h.host hE

theorem Inv.careful {a : Action} (h : Inv r) (hE : Env r a) (hr' : machine.step r a = .ok r') :
    Careful r a := by
  by_contra hC
  cases a with
  | sockState sockfd read =>
    cases read with
    | true => exact hC trivial
    | false => exact h.not_careful hE hC hr'
  | _ => exact hC trivial

/-- The runs of the resolver: the careful ones return, and no others, and in them no query is
forgotten. -/
theorem resolves_iff (as : List Action) (hE : machine.Along Env Resolver.new as) :
    ((∃ r, machine.run Resolver.new as = .ok r) ↔ machine.Along Careful Resolver.new as) ∧
      (machine.Along Careful Resolver.new as → machine.Always Good Resolver.new as) := by
  have hstep : ∀ r a, Inv r → Env r a → Careful r a → ∃ r', machine.step r a = .ok r' ∧ Inv r' :=
    fun _ _ => step_inv
  refine ⟨Machine.run_ok_iff_along hstep (fun _ _ _ => Inv.careful) inv_new hE, fun hC => ?_⟩
  have hEC : machine.Along (fun r a => Env r a ∧ Careful r a) Resolver.new as :=
    Machine.along_and.2 ⟨hE, hC⟩
  obtain ⟨-, hinv⟩ :=
    Machine.run_ok_always_of_along (fun r a h hEC => hstep r a h hEC.1 hEC.2) inv_new hEC
  exact hinv.mono fun _ => Inv.good

/-- The answer to a name is read, the user resolves the next one in the callback, and the timer closes
the socket. -/
def twoNames : List Action :=
  [.resolve, .sockCreate 7, .returned (some 2), .poll [7], .onRead 7, .host 0 (some [10, 0, 0, 1]),
    .resolve, .returned (some 2), .returned (some 2), .handled, .poll [], .onTimer, .host 1 none,
    .sockState 7 false, .returned none, .handled]

theorem resolves_iff_twoNames :
    (∃ r, machine.run Resolver.new twoNames = .ok r) ∧ machine.Always Good Resolver.new twoNames := by
  obtain ⟨hreturns, hgood⟩ := resolves_iff twoNames (by decide)
  exact ⟨hreturns.2 (by decide), hgood (by decide)⟩

end Resolver

end Reactor
