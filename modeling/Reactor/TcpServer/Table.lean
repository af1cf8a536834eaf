import Reactor.Lib.Machine
import Reactor.TcpServer
import Mathlib.Data.List.Count

/-!
# The connection table

The accept loop and the I/O loops, with the functors they have left with one another.  A new
connection is established on its I/O loop, its close goes back to the accept loop, which takes it
out of the table and sends `connectDestroyed` to the I/O loop.  Where the two loops are the same,
`runInLoop` skips the queue.

A functor is counted from the moment it is issued, in the queue of its loop or among those that ran.
A removal is issued when the connection closes, and `connectDestroyed` when the removal runs; the
queue of the I/O loop keeps `connectDestroyed` behind `connectEstablished`.

* `table_follows`: in every run the names are distinct, the table holds the connections whose
  removal has not run, and every functor is issued and runs as it should.
-/

namespace Reactor

namespace TcpServer

/-- What the server leaves with the loops, for a connection. -/
inductive Functor where
  | connectEstablished (c : ℕ)
  | removeConnectionInLoop (c : ℕ)
  | connectDestroyed (c : ℕ)
  deriving DecidableEq, Repr

def Functor.conn : Functor → ℕ
  | .connectEstablished c => c
  | .removeConnectionInLoop c => c
  | .connectDestroyed c => c

/-- What is fixed when a connection is created. -/
structure Conn where
  name : Bytes
  ioLoop : ℕ
  deriving DecidableEq, Repr

/-- The server, the connections it created, and the queues of the loops.  `closed` lists the
connections that invoked `closeCallback_`, and `ran` the functors that ran. -/
structure System where
  server : TcpServer
  numConns : ℕ
  conn : ℕ → Conn
  pendingFunctors : ℕ → List Functor
  closed : List ℕ
  ran : List Functor

inductive Action where
  | newConnection
  | functor (l : ℕ)
  | close (c : ℕ)
  deriving DecidableEq, Repr

namespace System

/-- The loop a functor is meant for. -/
def home (s : System) : Functor → ℕ
  | .connectEstablished c => (s.conn c).ioLoop
  | .removeConnectionInLoop _ => 0
  | .connectDestroyed c => (s.conn c).ioLoop

def queueInLoop (s : System) (l : ℕ) (f : Functor) : System :=
  { s with pendingFunctors := Function.update s.pendingFunctors l (s.pendingFunctors l ++ [f]) }

/-- The functor runs on the thread of its loop. -/
def exec (s : System) : Functor → Except Fault System
  | .connectEstablished c => return { s with ran := s.ran ++ [.connectEstablished c] }
  | .removeConnectionInLoop c => do
    let server ← s.server.removeConnectionInLoop (s.conn c).name
    let s' := { s with server := server, ran := s.ran ++ [Functor.removeConnectionInLoop c] }
    return s'.queueInLoop (s.conn c).ioLoop (.connectDestroyed c)
  | .connectDestroyed c => return { s with ran := s.ran ++ [.connectDestroyed c] }

/-- `runInLoop` of the loop `l`, called on the thread of the loop `thread`. -/
def runInLoop (s : System) (thread l : ℕ) (f : Functor) : Except Fault System :=
  if thread = l then s.exec f else return s.queueInLoop l f

/-- The first functor of the queue leaves it. -/
def pop (s : System) (l : ℕ) : System :=
  { s with pendingFunctors := Function.update s.pendingFunctors l (s.pendingFunctors l).tail }

def step (s : System) : Action → Except Fault System
  | .newConnection => do
    let (name, ioLoop, server) ← s.server.newConnection s.numConns
    let s' := { s with
      server := server
      numConns := s.numConns + 1
      conn := Function.update s.conn s.numConns ⟨name, ioLoop⟩ }
    s'.runInLoop 0 ioLoop (.connectEstablished s.numConns)
  | .functor l =>
    match s.pendingFunctors l with
    | [] => return s
    | f :: _ => (s.pop l).exec f
  | .close c =>
    { s with closed := c :: s.closed }.runInLoop (s.conn c).ioLoop 0 (.removeConnectionInLoop c)

/-- How often the functor was issued: it waits in the queue of its loop, or it ran. -/
def issued (s : System) (f : Functor) : ℕ :=
  (s.pendingFunctors (s.home f)).count f + s.ran.count f

end System

def machine : Machine System Action Fault := ⟨System.step⟩

/-- A server that was started, with no connection yet. -/
def start (ntop : InetNtop) (listenAddr : InetAddress) (name : Bytes) (numThreads : ℕ) :
    Except Fault System := do
  return ⟨← new ntop listenAddr name numThreads, 0, fun _ => ⟨[], 0⟩, fun _ => [], [], []⟩

/-- Fewer than `2 ^ 31` connections are accepted, and each invokes its `closeCallback_` at most
once, at any time. -/
def Env (s : System) : Action → Prop
  | .newConnection => s.numConns + 1 < 2 ^ 31
  | .functor l => s.pendingFunctors l ≠ []
  | .close c => c < s.numConns ∧ c ∉ s.closed

instance (s : System) : ∀ a, Decidable (Env s a)
  | .newConnection => inferInstanceAs (Decidable (_ < _))
  | .functor _ => inferInstanceAs (Decidable (_ ≠ _))
  | .close _ => inferInstanceAs (Decidable (_ ∧ _))

/-- The table follows the lives of the connections. -/
structure Follows (s : System) : Prop where
  /-- no id is cut off -/
  text : ∀ c < s.numConns, (s.conn c).name =
    s.server.name ++ (ascii "-" ++ cString s.server.ipPort ++ ascii "#" ++ decimal (c + 1))
  names : ∀ c < s.numConns, ∀ d < s.numConns, (s.conn c).name = (s.conn d).name → c = d
  connections : ∀ name c, s.server.connections name = some c ↔
    c < s.numConns ∧ (s.conn c).name = name ∧ .removeConnectionInLoop c ∉ s.ran
  established : ∀ c < s.numConns, s.issued (.connectEstablished c) = 1
  removed : ∀ c < s.numConns,
    s.issued (.removeConnectionInLoop c) = if c ∈ s.closed then 1 else 0
  destroyed : ∀ c < s.numConns,
    s.issued (.connectDestroyed c) = s.ran.count (.removeConnectionInLoop c)
  before : ∀ c p q, s.ran = p ++ .connectDestroyed c :: q → .connectEstablished c ∈ p

/-! ## The invariant -/

/-- `g` may stand behind `f`. -/
def Behind (f g : Functor) : Prop := ∀ c, f = .connectDestroyed c → g ≠ .connectEstablished c

/-- The names, and what is in which queue in which order. -/
structure Core (s : System) : Prop where
  ipPort : s.server.ipPort.length ≤ 51
  pool : s.server.threadPool.Ready
  nextConnId : s.server.nextConnId = s.numConns + 1
  few : s.numConns < 2 ^ 31
  name : ∀ c < s.numConns, (s.conn c).name = connName s.server.name s.server.ipPort (c + 1)
  home : ∀ l, ∀ f ∈ s.pendingFunctors l, f.conn < s.numConns ∧ s.home f = l
  ran : ∀ f ∈ s.ran, f.conn < s.numConns
  closed : ∀ c ∈ s.closed, c < s.numConns
  queued : ∀ l, (s.pendingFunctors l).Pairwise Behind

structure Inv (s : System) : Prop extends Core s where
  connections : ∀ name c, s.server.connections name = some c ↔
    c < s.numConns ∧ (s.conn c).name = name ∧ .removeConnectionInLoop c ∉ s.ran
  established : ∀ c < s.numConns, s.issued (.connectEstablished c) = 1
  removed : ∀ c < s.numConns,
    s.issued (.removeConnectionInLoop c) = if c ∈ s.closed then 1 else 0
  destroyed : ∀ c < s.numConns,
    s.issued (.connectDestroyed c) = s.ran.count (.removeConnectionInLoop c)
  before : ∀ c p q, s.ran = p ++ .connectDestroyed c :: q → .connectEstablished c ∈ p

variable {s : System} {c l : ℕ} {f g : Functor}

theorem behind_of_ne_left (h : ∀ c, f ≠ .connectDestroyed c) (g : Functor) : Behind f g :=
  fun c hf => absurd hf (h c)

theorem behind_of_ne_right (h : ∀ c, g ≠ .connectEstablished c) (f : Functor) : Behind f g :=
  fun c _ => h c

/-- Distinct ids, distinct names. -/
theorem Core.names (h : Core s) (c : ℕ) (hc : c < s.numConns) (d : ℕ) (hd : d < s.numConns)
    (heq : (s.conn c).name = (s.conn d).name) : c = d := by
  have hfew := h.few
  rw [h.name c hc, h.name d hd] at heq
  have := connName_injOn h.ipPort (by omega) (by omega) heq
  omega

theorem Inv.follows (h : Inv s) : Follows s where
  text := fun c hc => by
    have hfew := h.few
    rw [h.name c hc, connName_eq h.ipPort (by omega)]
  names := h.names
  connections := h.connections
  established := h.established
  removed := h.removed
  destroyed := h.destroyed
  before := h.before

/-! ## Running a functor -/

/-- What a functor that runs leaves as it is. -/
structure Executed (s s' : System) (f : Functor) : Prop where
  numConns : s'.numConns = s.numConns
  conn : s'.conn = s.conn
  closed : s'.closed = s.closed
  ran : s'.ran = s.ran ++ [f]
  queued : ∀ l g, g ∈ s'.pendingFunctors l → g ∈ s.pendingFunctors l ∨ ∃ c, g = .connectDestroyed c

theorem executed_exec {s' : System} (h : s.exec f = .ok s') : Executed s s' f := by
  cases f with
  | connectEstablished c =>
    obtain rfl := Except.ok.inj h
    exact ⟨rfl, rfl, rfl, rfl, fun _ _ hg => Or.inl hg⟩
  | removeConnectionInLoop c =>
    obtain ⟨server, -, hs'⟩ := bind_eq_ok.1 h
    obtain rfl := Except.ok.inj hs'
    refine ⟨rfl, rfl, rfl, rfl, fun l g hg => ?_⟩
    have hg' : g ∈ Function.update s.pendingFunctors (s.conn c).ioLoop
        (s.pendingFunctors (s.conn c).ioLoop ++ [.connectDestroyed c]) l := hg
    by_cases hl : l = (s.conn c).ioLoop
    · subst hl
      rw [Function.update_self, List.mem_append, List.mem_singleton] at hg'
      exact hg'.imp_right fun heq => ⟨c, heq⟩
    · rw [Function.update_of_ne hl] at hg'
      exact Or.inl hg'
  | connectDestroyed c =>
    obtain rfl := Except.ok.inj h
    exact ⟨rfl, rfl, rfl, rfl, fun _ _ hg => Or.inl hg⟩

/-- The state once the functor in front of the queue `l` ran, its effect on the server apart. -/
def System.after (s : System) (l : ℕ) (f : Functor) : System :=
  { s.pop l with ran := s.ran ++ [f] }

/-- A functor that leaves its queue to run keeps its count. -/
theorem issued_after {fs : List Functor} (hq : s.pendingFunctors l = f :: fs) (hl : s.home f = l) :
    (s.after l f).issued g = s.issued g := by
  show (Function.update s.pendingFunctors l (s.pendingFunctors l).tail (s.home g)).count g +
    (s.ran ++ [f]).count g = (s.pendingFunctors (s.home g)).count g + s.ran.count g
  rw [List.count_append]
  by_cases hgl : s.home g = l
  · rw [hgl, Function.update_self, hq, List.tail_cons, List.count_cons, List.count_cons,
      List.count_nil]
    omega
  · have hne : f ≠ g := fun heq => hgl (heq ▸ hl)
    rw [Function.update_of_ne hgl, List.count_singleton, if_neg (by simpa using hne)]
    rfl

theorem Core.after {fs : List Functor} (h : Core s) (hq : s.pendingFunctors l = f :: fs) :
    Core (s.after l f) where
  ipPort := h.ipPort
  pool := h.pool
  nextConnId := h.nextConnId
  few := h.few
  name := h.name
  home := fun m g hg => by
    refine h.home m g ?_
    have hg' : g ∈ Function.update s.pendingFunctors l (s.pendingFunctors l).tail m := hg
    by_cases hm : m = l
    · subst hm
      rw [Function.update_self] at hg'
      exact List.mem_of_mem_tail hg'
    · rwa [Function.update_of_ne hm] at hg'
  ran := fun g hg => by
    rcases List.mem_append.1 hg with hg | hg
    · exact h.ran g hg
    · rw [List.mem_singleton.1 hg]
      exact (h.home l f (by rw [hq]; exact List.mem_cons_self)).1
  closed := h.closed
  queued := fun m => by
    show (Function.update s.pendingFunctors l (s.pendingFunctors l).tail m).Pairwise Behind
    by_cases hm : m = l
    · subst hm
      rw [Function.update_self]
      exact (h.queued m).tail
    · rw [Function.update_of_ne hm]
      exact h.queued m

/-- When `connectDestroyed` is in front of its queue, `connectEstablished` ran. -/
theorem Inv.established_of_front {fs : List Functor} (h : Inv s)
    (hq : s.pendingFunctors l = .connectDestroyed c :: fs) : .connectEstablished c ∈ s.ran := by
  obtain ⟨hc, hl⟩ := h.home l (.connectDestroyed c) (by rw [hq]; exact List.mem_cons_self)
  have hone := h.established c hc
  have hbehind := h.queued l
  rw [hq, List.pairwise_cons] at hbehind
  have hnone : (s.pendingFunctors l).count (.connectEstablished c) = 0 := by
    rw [hq, List.count_eq_zero, List.mem_cons, not_or]
    exact ⟨by simp, fun hmem => hbehind.1 _ hmem c rfl rfl⟩
  rw [System.issued, show s.home (.connectEstablished c) = l from hl, hnone] at hone
  exact List.count_pos_iff.1 (by omega)

/-- `connectEstablished` is among what ran in front of every `connectDestroyed`, also when `f` is
the last that ran. -/
theorem Inv.before_after {fs : List Functor} (h : Inv s) (hq : s.pendingFunctors l = f :: fs)
    (c : ℕ) (p q : List Functor) (heq : s.ran ++ [f] = p ++ .connectDestroyed c :: q) :
    .connectEstablished c ∈ p := by
  rcases List.eq_nil_or_concat q with rfl | ⟨q', g, rfl⟩
  · obtain ⟨rfl, hf⟩ := List.append_inj' heq rfl
    rw [List.singleton_inj.1 hf] at hq
    exact h.established_of_front hq
  · rw [List.concat_eq_append, ← List.cons_append, ← List.append_assoc] at heq
    exact h.before c p q' (List.append_inj' heq rfl).1

/-- The functor is put between the parts `a` and `b` of the queue of the loop `l`. -/
def System.insert (s : System) (l : ℕ) (a : List Functor) (f : Functor) (b : List Functor) : System :=
  { s with pendingFunctors := Function.update s.pendingFunctors l (a ++ f :: b) }

theorem issued_insert {a b : List Functor} (hab : s.pendingFunctors l = a ++ b)
    (hl : s.home f = l) :
    (s.insert l a f b).issued g = s.issued g + if f = g then 1 else 0 := by
  show (Function.update s.pendingFunctors l (a ++ f :: b) (s.home g)).count g + s.ran.count g =
    (s.pendingFunctors (s.home g)).count g + s.ran.count g + _
  by_cases hgl : s.home g = l
  · rw [hgl, Function.update_self, hab, List.count_append, List.count_append, List.count_cons]
    simp only [beq_iff_eq]
    omega
  · have hne : f ≠ g := fun heq => hgl (heq ▸ hl)
    rw [Function.update_of_ne hgl, if_neg hne]
    rfl

theorem Core.insert {a b : List Functor} (h : Core s) (hab : s.pendingFunctors l = a ++ b)
    (hl : s.home f = l) (hf : f.conn < s.numConns)
    (hbehind : ∀ g ∈ s.pendingFunctors l, Behind g f) (hahead : ∀ g ∈ b, Behind f g) :
    Core (s.insert l a f b) where
  ipPort := h.ipPort
  pool := h.pool
  nextConnId := h.nextConnId
  few := h.few
  name := h.name
  home := fun m g hg => by
    have hg' : g ∈ Function.update s.pendingFunctors l (a ++ f :: b) m := hg
    by_cases hm : m = l
    · subst hm
      rw [Function.update_self, List.mem_append, List.mem_cons] at hg'
      have hcases : g = f ∨ g ∈ s.pendingFunctors m := by
        rw [hab, List.mem_append]
        tauto
      rcases hcases with rfl | hmem
      · exact ⟨hf, hl⟩
      · exact h.home m g hmem
    · rw [Function.update_of_ne hm] at hg'
      exact h.home m g hg'
  ran := h.ran
  closed := h.closed
  queued := fun m => by
    show (Function.update s.pendingFunctors l (a ++ f :: b) m).Pairwise Behind
    by_cases hm : m = l
    · subst hm
      have hold := h.queued m
      rw [hab, List.pairwise_append] at hold
      obtain ⟨ha, hb, hcross⟩ := hold
      rw [Function.update_self, List.pairwise_append, List.pairwise_cons]
      refine ⟨ha, ⟨hahead, hb⟩, fun g hg g' hg' => ?_⟩
      rcases List.mem_cons.1 hg' with rfl | hg'
      · exact hbehind g (by rw [hab]; exact List.mem_append_left _ hg)
      · exact hcross g hg g' hg'
    · rw [Function.update_of_ne hm]
      exact h.queued m

/-- `connectEstablished` and `connectDestroyed` do not touch the server. -/
theorem Inv.after {fs : List Functor} (h : Inv s) (hq : s.pendingFunctors l = f :: fs)
    (hf : ∀ c, f ≠ .removeConnectionInLoop c) : Inv (s.after l f) := by
  have hl := (h.home l f (by rw [hq]; exact List.mem_cons_self)).2
  have hmem : ∀ c, .removeConnectionInLoop c ∈ s.ran ++ [f] ↔ .removeConnectionInLoop c ∈ s.ran := by
    intro c
    rw [List.mem_append, List.mem_singleton]
    exact or_iff_left (hf c).symm
  refine ⟨h.toCore.after hq, fun name c => ?_, fun c hc => ?_, fun c hc => ?_, fun c hc => ?_,
    h.before_after hq⟩
  · show _ ↔ _ ∧ _ ∧ .removeConnectionInLoop c ∉ s.ran ++ [f]
    rw [hmem]
    exact h.connections name c
  · rw [issued_after hq hl]
    exact h.established c hc
  · rw [issued_after hq hl]
    exact h.removed c hc
  · show _ = (s.ran ++ [f]).count (.removeConnectionInLoop c)
    rw [issued_after hq hl, List.count_append, List.count_singleton, if_neg (by simpa using hf c)]
    exact h.destroyed c hc

/-- A removal in front of the queue runs once, and finds its connection in the table. -/
theorem Inv.not_removed {fs : List Functor} (h : Inv s)
    (hq : s.pendingFunctors l = .removeConnectionInLoop c :: fs) :
    .removeConnectionInLoop c ∉ s.ran := by
  obtain ⟨hc, hl⟩ := h.home l (.removeConnectionInLoop c) (by rw [hq]; exact List.mem_cons_self)
  have hle : s.issued (.removeConnectionInLoop c) ≤ 1 := by
    rw [h.removed c hc]
    split_ifs <;> omega
  have hpos : 0 < (s.pendingFunctors l).count (.removeConnectionInLoop c) := by
    rw [hq]
    exact List.count_pos_iff.2 List.mem_cons_self
  rw [System.issued, hl] at hle
  exact List.count_eq_zero.1 (by omega)

theorem Inv.removeConnectionInLoop {fs : List Functor} (h : Inv s)
    (hq : s.pendingFunctors l = .removeConnectionInLoop c :: fs) :
    ∃ s', (s.pop l).exec (.removeConnectionInLoop c) = .ok s' ∧ Inv s' := by
  obtain ⟨hc, hl⟩ := h.home l (.removeConnectionInLoop c) (by rw [hq]; exact List.mem_cons_self)
  have hran := h.not_removed hq
  have hin : s.server.connections (s.conn c).name = some c := (h.connections _ c).2 ⟨hc, rfl, hran⟩
  -- the state between the removal and the call of `queueInLoop`
  set server : TcpServer := { s.server with
    connections := Function.update s.server.connections (s.conn c).name none } with hserver
  set t : System := { s.after l (.removeConnectionInLoop c) with server := server } with ht
  have hcore := h.toCore.after hq
  have hcoret : Core t := ⟨hcore.ipPort, hcore.pool, hcore.nextConnId, hcore.few, hcore.name,
    hcore.home, hcore.ran, hcore.closed, hcore.queued⟩
  have hstep : (s.pop l).exec (.removeConnectionInLoop c) =
      .ok (t.insert (s.conn c).ioLoop (t.pendingFunctors (s.conn c).ioLoop) (.connectDestroyed c) []) := by
    show (s.server.removeConnectionInLoop (s.conn c).name >>= _) = _
    rw [TcpServer.removeConnectionInLoop, check_of (by rw [hin]; simp)]
    rfl
  have hissued : ∀ g, t.issued g = s.issued g := fun g => issued_after hq hl
  have hhome : t.home (.connectDestroyed c) = (s.conn c).ioLoop := rfl
  have hinsert := fun g => issued_insert (g := g) (List.append_nil _).symm hhome
  refine ⟨_, hstep, hcoret.insert (List.append_nil _).symm hhome hc
    (fun g _ => behind_of_ne_right (by simp) g) (by simp), fun name d => ?_, fun d hd => ?_,
    fun d hd => ?_, fun d hd => ?_, h.before_after hq⟩
  · show Function.update s.server.connections (s.conn c).name none name = some d ↔
      d < s.numConns ∧ (s.conn d).name = name ∧
        Functor.removeConnectionInLoop d ∉ s.ran ++ [Functor.removeConnectionInLoop c]
    rw [List.mem_append, List.mem_singleton, not_or]
    by_cases hname : name = (s.conn c).name
    · subst hname
      rw [Function.update_self]
      constructor
      · rintro ⟨⟩
      · rintro ⟨hd, heq, -, hne⟩
        rw [h.names d hd c hc heq] at hne
        exact absurd rfl hne
    · rw [Function.update_of_ne hname, h.connections]
      constructor
      · rintro ⟨hd, heq, hnot⟩
        refine ⟨hd, heq, hnot, fun hdc => hname ?_⟩
        rw [← heq, Functor.removeConnectionInLoop.inj hdc]
      · rintro ⟨hd, heq, hnot, -⟩
        exact ⟨hd, heq, hnot⟩
  · rw [hinsert, hissued, h.established d hd]
    simp
  · rw [hinsert, hissued, h.removed d hd]
    simp only [reduceCtorEq, if_false, Nat.add_zero]
    rfl
  · rw [hinsert, hissued, h.destroyed d hd]
    show _ = (s.ran ++ [Functor.removeConnectionInLoop c]).count (.removeConnectionInLoop d)
    rw [List.count_append, List.count_singleton]
    simp only [Functor.connectDestroyed.injEq, beq_iff_eq, Functor.removeConnectionInLoop.injEq]

/-- Every functor in front of its queue runs. -/
theorem Inv.exec {fs : List Functor} (h : Inv s) (hq : s.pendingFunctors l = f :: fs) :
    ∃ s', (s.pop l).exec f = .ok s' ∧ Inv s' := by
  cases f with
  | connectEstablished c => exact ⟨_, rfl, h.after hq (by simp)⟩
  | removeConnectionInLoop c => exact h.removeConnectionInLoop hq
  | connectDestroyed c => exact ⟨_, rfl, h.after hq (by simp)⟩

/-- `runInLoop`: when the invariant holds with the functor in the queue of its loop, be it in front
or at the end, it holds afterwards. -/
theorem inv_runInLoop {thread : ℕ}
    (h : ∀ a b, s.pendingFunctors l = a ++ b → Inv (s.insert l a f b)) :
    ∃ s', s.runInLoop thread l f = .ok s' ∧ Inv s' := by
  unfold System.runInLoop
  by_cases hthread : thread = l
  · rw [if_pos hthread]
    have hpop : (s.insert l [] f (s.pendingFunctors l)).pop l = s := by
      simp [System.insert, System.pop]
    have hq : (s.insert l [] f (s.pendingFunctors l)).pendingFunctors l = f :: s.pendingFunctors l := by
      simp [System.insert]
    obtain ⟨s', hs', hinv⟩ := (h [] (s.pendingFunctors l) rfl).exec hq
    rw [hpop] at hs'
    exact ⟨s', hs', hinv⟩
  · rw [if_neg hthread]
    exact ⟨_, rfl, h _ [] (List.append_nil _).symm⟩

/-! ## The actions -/

/-- A connection that is not there yet has no functors. -/
theorem Core.fresh (h : Core s) (hf : s.numConns ≤ f.conn) (l : ℕ) :
    f ∉ s.pendingFunctors l ∧ f ∉ s.ran := by
  refine ⟨fun hmem => ?_, fun hmem => ?_⟩
  · have := (h.home l f hmem).1
    omega
  · have := h.ran f hmem
    omega

/-- The state with the new connection, before its `connectEstablished` is issued. -/
def System.accept (s : System) (server : TcpServer) (x : Conn) : System :=
  { s with
    server := server
    numConns := s.numConns + 1
    conn := Function.update s.conn s.numConns x }

section accept

variable {server : TcpServer} {x : Conn}

theorem accept_conn_new : (s.accept server x).conn s.numConns = x := Function.update_self ..

theorem accept_conn_old (hc : c < s.numConns) : (s.accept server x).conn c = s.conn c :=
  Function.update_of_ne (Nat.ne_of_lt hc) _ _

theorem accept_home (hf : f.conn < s.numConns) : (s.accept server x).home f = s.home f := by
  cases f with
  | connectEstablished c => rw [System.home, System.home, accept_conn_old (c := c) hf]
  | removeConnectionInLoop c => rfl
  | connectDestroyed c => rw [System.home, System.home, accept_conn_old (c := c) hf]

theorem accept_issued_old (hf : f.conn < s.numConns) :
    (s.accept server x).issued f = s.issued f := by
  rw [System.issued, accept_home hf]
  rfl

theorem Core.accept_issued_new (h : Core s) (hf : f.conn = s.numConns) :
    (s.accept server x).issued f = 0 := by
  obtain ⟨hq, hran⟩ := h.fresh (Nat.le_of_eq hf.symm) ((s.accept server x).home f)
  rw [System.issued, Nat.add_eq_zero_iff]
  exact ⟨List.count_eq_zero.2 hq, List.count_eq_zero.2 hran⟩

/-- The name of the next connection is not in use. -/
theorem Core.name_ne (h : Core s) (hfew : s.numConns + 1 < 2 ^ 31) (hc : c < s.numConns) :
    (s.conn c).name ≠ connName s.server.name s.server.ipPort s.server.nextConnId := by
  intro heq
  rw [h.name c hc, h.nextConnId] at heq
  have := connName_injOn h.ipPort (by omega) (by omega) heq
  omega

end accept

/-- The server once it has entered the next connection in its table. -/
def System.entered (s : System) (pool : EventLoopThreadPool) : TcpServer :=
  { s.server with
    threadPool := pool
    nextConnId := s.server.nextConnId + 1
    connections := Function.update s.server.connections
      (connName s.server.name s.server.ipPort s.server.nextConnId) (some s.numConns) }

theorem Core.accept (h : Core s) (hfew : s.numConns + 1 < 2 ^ 31) {pool : EventLoopThreadPool}
    (hpool : pool.Ready) (l : ℕ) :
    Core (s.accept (s.entered pool)
      ⟨connName s.server.name s.server.ipPort s.server.nextConnId, l⟩) where
  ipPort := h.ipPort
  pool := hpool
  nextConnId := by
    show s.server.nextConnId + 1 = _
    rw [h.nextConnId]
    rfl
  few := hfew
  name := fun c hc => by
    rcases Nat.lt_succ_iff_lt_or_eq.1 hc with hc | rfl
    · rw [accept_conn_old hc]
      exact h.name c hc
    · rw [accept_conn_new, h.nextConnId]
      rfl
  home := fun m f hf => by
    obtain ⟨hlt, hl⟩ := h.home m f hf
    exact ⟨Nat.lt_succ_of_lt hlt, (accept_home hlt).trans hl⟩
  ran := fun f hf => Nat.lt_succ_of_lt (h.ran f hf)
  closed := fun c hc => Nat.lt_succ_of_lt (h.closed c hc)
  queued := h.queued

theorem Inv.accept_connections (h : Inv s) (hfew : s.numConns + 1 < 2 ^ 31)
    {pool : EventLoopThreadPool} {t : System} {l : ℕ} (ht : t = s.accept (s.entered pool)
      ⟨connName s.server.name s.server.ipPort s.server.nextConnId, l⟩) (name : Bytes) (c : ℕ) :
    t.server.connections name = some c ↔
      c < t.numConns ∧ (t.conn c).name = name ∧ Functor.removeConnectionInLoop c ∉ t.ran := by
  subst ht
  show Function.update s.server.connections _ (some s.numConns) name = some c ↔
    c < s.numConns + 1 ∧ _ ∧ Functor.removeConnectionInLoop c ∉ s.ran
  by_cases hname : name = connName s.server.name s.server.ipPort s.server.nextConnId
  · subst hname
    rw [Function.update_self, Option.some.injEq]
    constructor
    · rintro rfl
      exact ⟨Nat.lt_succ_self _, by rw [accept_conn_new], (h.toCore.fresh (Nat.le_refl _) 0).2⟩
    · rintro ⟨hc, heq, -⟩
      rcases Nat.lt_succ_iff_lt_or_eq.1 hc with hc | rfl
      · rw [accept_conn_old hc] at heq
        exact absurd heq (h.toCore.name_ne hfew hc)
      · rfl
  · rw [Function.update_of_ne hname, h.connections]
    constructor
    · rintro ⟨hc, heq, hran⟩
      exact ⟨Nat.lt_succ_of_lt hc, by rw [accept_conn_old hc]; exact heq, hran⟩
    · rintro ⟨hc, heq, hran⟩
      rcases Nat.lt_succ_iff_lt_or_eq.1 hc with hc | rfl
      · exact ⟨hc, by rw [← accept_conn_old hc]; exact heq, hran⟩
      · rw [accept_conn_new] at heq
        exact absurd heq.symm hname

theorem Inv.newConnection (h : Inv s) (ha : s.numConns + 1 < 2 ^ 31) :
    ∃ s', machine.step s .newConnection = .ok s' ∧ Inv s' := by
  obtain ⟨l, pool, hpool, hready⟩ := h.pool.getNextLoop
  set t : System := s.accept (s.entered pool)
    ⟨connName s.server.name s.server.ipPort s.server.nextConnId, l⟩ with ht
  have hstep : machine.step s .newConnection = t.runInLoop 0 l (.connectEstablished s.numConns) := by
    show (s.server.newConnection s.numConns >>= _) = _
    rw [TcpServer.newConnection, hpool]
    rfl
  have hcore : Core t := h.toCore.accept ha hready l
  have hconnections := h.accept_connections ha ht
  have hl : t.home (.connectEstablished s.numConns) = l := by
    rw [System.home, ht, accept_conn_new]
  rw [hstep]
  refine inv_runInLoop fun a b hab => ?_
  have hinsert := fun g => issued_insert (g := g) hab hl
  refine ⟨hcore.insert hab hl (Nat.lt_succ_self _) (fun g hg c hgc hf => ?_)
    (fun g _ => behind_of_ne_left (by simp) g), hconnections, fun c hc => ?_,
    fun c hc => ?_, fun c hc => ?_, h.before⟩
  · have hlt := (h.home l g hg).1
    rw [hgc] at hlt
    rw [Functor.connectEstablished.inj hf] at hlt
    exact absurd hlt (Nat.lt_irrefl _)
  · rw [hinsert]
    rcases Nat.lt_succ_iff_lt_or_eq.1 hc with hc | rfl
    · rw [ht, accept_issued_old (f := .connectEstablished c) hc, h.established c hc,
        if_neg (by simp; omega)]
    · rw [ht, h.toCore.accept_issued_new rfl, if_pos rfl]
  · rw [hinsert, if_neg (by simp), Nat.add_zero]
    rcases Nat.lt_succ_iff_lt_or_eq.1 hc with hc | rfl
    · rw [ht, accept_issued_old (f := .removeConnectionInLoop c) hc]
      exact h.removed c hc
    · rw [ht, h.toCore.accept_issued_new rfl]
      exact (if_neg fun hmem => absurd (h.closed _ hmem) (Nat.lt_irrefl _)).symm
  · rw [hinsert, if_neg (by simp), Nat.add_zero]
    rcases Nat.lt_succ_iff_lt_or_eq.1 hc with hc | rfl
    · rw [ht, accept_issued_old (f := .connectDestroyed c) hc]
      exact h.destroyed c hc
    · rw [ht, h.toCore.accept_issued_new rfl]
      exact (List.count_eq_zero.2 (h.toCore.fresh (Nat.le_refl _) 0).2).symm

/-- What `newConnection` changes. -/
structure Accepted (s s' : System) : Prop where
  numConns : s'.numConns = s.numConns + 1
  conn : ∀ c < s.numConns, s'.conn c = s.conn c
  closed : s'.closed = s.closed
  mem_ran : ∀ f : Functor, f.conn < s.numConns → (f ∈ s'.ran ↔ f ∈ s.ran)
  established : ∀ f : Functor, f.conn = s.numConns →
    (f ∈ s'.ran ↔ f = .connectEstablished s.numConns ∧ (s'.conn s.numConns).ioLoop = 0)

theorem accepted_newConnection {s' : System} (h : Core s) (hs' : machine.step s .newConnection = .ok s') :
    Accepted s s' := by
  obtain ⟨⟨name, l, server⟩, -, hrun⟩ := bind_eq_ok.1
    (show (s.server.newConnection s.numConns >>= _) = _ from hs')
  set t : System := s.accept server ⟨name, l⟩ with ht
  have hrun' : t.runInLoop 0 l (.connectEstablished s.numConns) = .ok s' := hrun
  have hconn : ∀ c < s.numConns, t.conn c = s.conn c := fun c hc => accept_conn_old hc
  have hnew : t.conn s.numConns = ⟨name, l⟩ := accept_conn_new
  have hfresh : ∀ f : Functor, f.conn = s.numConns → f ∉ s.ran := fun f hf =>
    (h.fresh (Nat.le_of_eq hf.symm) 0).2
  unfold System.runInLoop at hrun'
  by_cases hl : 0 = l
  · rw [if_pos hl] at hrun'
    obtain ⟨h₁, h₂, h₃, h₄, -⟩ := executed_exec hrun'
    refine ⟨h₁, by rw [h₂]; exact hconn, h₃, fun f hf => ?_, fun f hf => ?_⟩
    · rw [h₄, List.mem_append, List.mem_singleton]
      refine or_iff_left ?_
      rintro rfl
      exact Nat.lt_irrefl _ hf
    · rw [h₄, List.mem_append, List.mem_singleton, h₂, hnew, ← hl]
      simp [hfresh f hf, show t.ran = s.ran from rfl]
  · rw [if_neg hl] at hrun'
    obtain rfl := Except.ok.inj hrun'
    refine ⟨rfl, hconn, rfl, fun f hf => Iff.rfl, fun f hf => ?_⟩
    refine iff_of_false (hfresh f hf) fun hand => hl ?_
    rw [← hand.2]
    exact congrArg Conn.ioLoop hnew

theorem Inv.close (h : Inv s) (hc : c < s.numConns) (hopen : c ∉ s.closed) :
    ∃ s', machine.step s (.close c) = .ok s' ∧ Inv s' := by
  set t : System := { s with closed := c :: s.closed } with ht
  have hclosed : ∀ d ∈ t.closed, d < s.numConns := by
    intro d hd
    rcases List.mem_cons.1 hd with rfl | hd
    · exact hc
    · exact h.closed d hd
  have hcore : Core t := ⟨h.ipPort, h.pool, h.nextConnId, h.few, h.name, h.home, h.ran, hclosed,
    h.queued⟩
  have hissued : ∀ f, t.issued f = s.issued f := fun _ => rfl
  have hl : t.home (.removeConnectionInLoop c) = 0 := rfl
  show ∃ s', t.runInLoop (s.conn c).ioLoop 0 (.removeConnectionInLoop c) = .ok s' ∧ Inv s'
  refine inv_runInLoop fun a b hab => ?_
  have hinsert := fun g => issued_insert (g := g) hab hl
  refine ⟨hcore.insert hab hl hc (fun g _ => behind_of_ne_right (by simp) g)
    (fun g _ => behind_of_ne_left (by simp) g), h.connections, fun d hd => ?_, fun d hd => ?_,
    fun d hd => ?_, h.before⟩
  · rw [hinsert, hissued, if_neg (by simp)]
    exact h.established d hd
  · show _ = if d ∈ c :: s.closed then 1 else 0
    rw [hinsert, hissued, h.removed d hd]
    by_cases hdc : c = d
    · subst hdc
      rw [if_neg hopen, if_pos rfl, if_pos List.mem_cons_self]
    · have hmem : d ∈ c :: s.closed ↔ d ∈ s.closed := by
        rw [List.mem_cons]
        exact or_iff_right (Ne.symm hdc)
      simp [hdc, hmem]
  · rw [hinsert, hissued, if_neg (by simp)]
    exact h.destroyed d hd

/-- What `removeConnection` changes. -/
structure Closed (s s' : System) (c : ℕ) : Prop where
  numConns : s'.numConns = s.numConns
  conn : s'.conn = s.conn
  closed : s'.closed = c :: s.closed
  established : ∀ d, .connectEstablished d ∈ s'.ran ↔ .connectEstablished d ∈ s.ran
  destroyed : ∀ d, .connectDestroyed d ∈ s'.ran ↔ .connectDestroyed d ∈ s.ran

theorem closed_close {s' : System} (hs' : machine.step s (.close c) = .ok s') : Closed s s' c := by
  have hrun : System.runInLoop { s with closed := c :: s.closed } (s.conn c).ioLoop 0
      (.removeConnectionInLoop c) = .ok s' := hs'
  unfold System.runInLoop at hrun
  split_ifs at hrun
  · obtain ⟨h₁, h₂, h₃, h₄, -⟩ := executed_exec hrun
    refine ⟨h₁, h₂, h₃, fun d => ?_, fun d => ?_⟩
    · rw [h₄]
      simp
    · rw [h₄]
      simp
  · obtain rfl := Except.ok.inj hrun
    exact ⟨rfl, rfl, rfl, fun _ => Iff.rfl, fun _ => Iff.rfl⟩

theorem Inv.functor (h : Inv s) (hne : s.pendingFunctors l ≠ []) :
    ∃ s', machine.step s (.functor l) = .ok s' ∧ Inv s' := by
  obtain ⟨f, fs, hq⟩ := List.exists_cons_of_ne_nil hne
  show ∃ s', s.step (.functor l) = .ok s' ∧ Inv s'
  rw [System.step, hq]
  exact h.exec hq

theorem Inv.step (h : Inv s) {a : Action} (ha : Env s a) :
    ∃ s', machine.step s a = .ok s' ∧ Inv s' := by
  cases a with
  | newConnection => exact h.newConnection ha
  | functor l => exact h.functor ha
  | close c => exact h.close ha.1 ha.2

theorem inv_start (ntop : InetNtop) (listenAddr : InetAddress) (name : Bytes) (numThreads : ℕ) :
    ∃ s, start ntop listenAddr name numThreads = .ok s ∧ Inv s := by
  obtain ⟨ipPort, hip, hlen⟩ := listenAddr.length_toIpPort ntop
  unfold start new
  rw [hip]
  refine ⟨_, rfl, ⟨hlen, EventLoopThreadPool.ready_start numThreads, rfl, Nat.two_pow_pos 31, ?_, ?_,
    ?_, ?_, ?_⟩, ?_, ?_, ?_, ?_, ?_⟩
  all_goals simp

/-- In every run of a server on any address the table follows the connections' lives. -/
theorem table_follows (ntop : InetNtop) (listenAddr : InetAddress) (name : Bytes) (numThreads : ℕ) :
    ∃ s, start ntop listenAddr name numThreads = .ok s ∧ ∀ as, machine.Along Env s as →
      (∃ s', machine.run s as = .ok s') ∧ machine.Always Follows s as := by
  obtain ⟨s, hs, hinv⟩ := inv_start ntop listenAddr name numThreads
  refine ⟨s, hs, fun as has => ?_⟩
  obtain ⟨hr, hI⟩ := Machine.run_ok_always_of_along (fun s a (h : Inv s) ha => h.step ha) hinv has
  exact ⟨hr, hI.mono fun s h => h.follows⟩

/-- Two I/O loops; the first connection closes, is removed and destroyed, the second stays. -/
theorem table_follows_close :
    ∃ s, start .numeric (.inet 0x7f000001 8080) (ascii "echo") 2 = .ok s ∧
      machine.Always Follows s
        [.newConnection, .newConnection, .functor 1, .close 0, .functor 2, .functor 0, .functor 1] := by
  have henv : (start .numeric (.inet 0x7f000001 8080) (ascii "echo") 2).toOption.all (fun s =>
      decide (machine.Along Env s
        [.newConnection, .newConnection, .functor 1, .close 0, .functor 2, .functor 0, .functor 1]))
      = true := by
    decide +kernel
  obtain ⟨s, hs, h⟩ := table_follows .numeric (.inet 0x7f000001 8080) (ascii "echo") 2
  rw [hs] at henv
  exact ⟨s, hs, (h _ (of_decide_eq_true henv)).2⟩

end TcpServer

end Reactor
