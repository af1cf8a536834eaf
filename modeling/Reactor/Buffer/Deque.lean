import Reactor.Buffer
import Reactor.Lib.Machine
import Mathlib.Logic.Function.Basic

/-!
# Buffers are byte deques

What a `Buffer` is for: a list of bytes that grows at both ends and is consumed at both ends.
`Deque` is that list, and `machine` runs arbitrary calls on any number of buffers, `swap` between
two of them included.  Every run of calls within their preconditions returns, keeps every buffer
well formed and follows the lists (`buffer_is_byte_deque`).
-/

namespace Reactor

namespace Buffer

/-- One call on a buffer.  `hasWritten` comes with the bytes the caller stored at `beginWrite()`
before, and `retrieveUntil` with the distance of its pointer from `peek()`. -/
inductive Op where
  | append (data : Bytes)
  | prepend (data : Bytes)
  | hasWritten (data : Bytes)
  | unwrite (len : ℕ)
  | retrieve (len : ℕ)
  | retrieveUntil (len : ℕ)
  | retrieveAll
  | retrieveAsString (len : ℕ)
  | ensureWritableBytes (len : ℕ)
  | shrink (reserve : ℕ)
  | readFd (result : ReadvResult)
  deriving DecidableEq, Repr

/-- A call on one of the buffers, or a swap of two of them. -/
inductive Action where
  | call (i : ℕ) (op : Op)
  | swap (i j : ℕ)
  deriving DecidableEq, Repr

/-- The assertion a call makes on its arguments; what `readv(2)` may deliver; and the content a
`StringPiece` can describe. -/
def Op.Pre (b : Buffer) : Op → Prop
  | .prepend data => data.length ≤ b.prependableBytes
  | .hasWritten data => data.length ≤ b.writableBytes
  | .unwrite len | .retrieve len | .retrieveUntil len | .retrieveAsString len =>
    len ≤ b.readableBytes
  | .shrink _ => b.readableBytes < 2 ^ 31
  | .readFd (.read data) => data.length ≤ b.readvRoom
  | .append _ | .retrieveAll | .ensureWritableBytes _ | .readFd (.fail _) => True

instance (b : Buffer) : ∀ op : Op, Decidable (op.Pre b)
  | .prepend _ | .hasWritten _ | .unwrite _ | .retrieve _ | .retrieveUntil _ | .retrieveAsString _
  | .readFd (.read _) => inferInstanceAs (Decidable (_ ≤ _))
  | .shrink _ => inferInstanceAs (Decidable (_ < _))
  | .append _ | .retrieveAll | .ensureWritableBytes _ | .readFd (.fail _) => isTrue trivial

/-- The call, and the string it returns if it returns one. -/
def Op.exec (b : Buffer) : Op → Except Fault (Option Bytes × Buffer)
  | .append data => return (none, ← b.append data)
  | .prepend data => return (none, ← b.prepend data)
  | .hasWritten data => return (none, ← (b.store data).hasWritten data.length)
  | .unwrite len => return (none, ← b.unwrite len)
  | .retrieve len => return (none, ← b.retrieve len)
  | .retrieveUntil len => return (none, ← b.retrieveUntil (b.peek + len))
  | .retrieveAll => return (none, b.retrieveAll)
  | .retrieveAsString len => do
    let (result, b) ← b.retrieveAsString len
    return (some result, b)
  | .ensureWritableBytes len => return (none, ← b.ensureWritableBytes len)
  | .shrink reserve => return (none, ← b.shrink reserve)
  | .readFd result => do
    let (_, b) ← b.readFd result
    return (none, b)

/-- The buffers, and the strings returned so far. -/
structure Pool where
  bufs : ℕ → Buffer
  strings : List Bytes

/-- All buffers are default-constructed. -/
def Pool.init : Pool := ⟨fun _ => empty, []⟩

def Pool.step (p : Pool) : Action → Except Fault Pool
  | .call i op => do
    let (result, b) ← op.exec (p.bufs i)
    return ⟨Function.update p.bufs i b, p.strings ++ result.toList⟩
  | .swap i j =>
    return { p with bufs := Function.update (Function.update p.bufs i (p.bufs j)) j (p.bufs i) }

/-- The machine of buffer calls. -/
def machine : Machine Pool Action Fault := ⟨Pool.step⟩

/-- The precondition of an action. -/
def Action.Pre (p : Pool) : Action → Prop
  | .call i op => op.Pre (p.bufs i)
  | .swap _ _ => True

instance (p : Pool) : ∀ a : Action, Decidable (a.Pre p)
  | .call i op => inferInstanceAs (Decidable (op.Pre (p.bufs i)))
  | .swap _ _ => isTrue trivial

/-! ## Deques -/

/-- The effect of a call on the list. -/
def Op.onList (xs : Bytes) : Op → Bytes
  | .append data | .hasWritten data | .readFd (.read data) => xs ++ data
  | .prepend data => data ++ xs
  | .unwrite len => xs.take (xs.length - len)
  | .retrieve len | .retrieveUntil len | .retrieveAsString len => xs.drop len
  | .retrieveAll => []
  | .ensureWritableBytes _ | .shrink _ | .readFd (.fail _) => xs

/-- The string a call returns. -/
def Op.result (xs : Bytes) : Op → Option Bytes
  | .retrieveAsString len => some (xs.take len)
  | _ => none

/-- The lists, and the strings returned so far. -/
structure Deque where
  bytes : ℕ → Bytes
  strings : List Bytes

def Deque.init : Deque := ⟨fun _ => [], []⟩

def Deque.step (d : Deque) : Action → Deque
  | .call i op =>
    ⟨Function.update d.bytes i (op.onList (d.bytes i)), d.strings ++ (op.result (d.bytes i)).toList⟩
  | .swap i j =>
    { d with bytes := Function.update (Function.update d.bytes i (d.bytes j)) j (d.bytes i) }

/-- Every buffer is well formed and holds its list. -/
structure Represents (p : Pool) (d : Deque) : Prop where
  wf : ∀ i, (p.bufs i).Wf
  bytes : ∀ i, (p.bufs i).readable = d.bytes i
  strings : p.strings = d.strings

theorem represents_init : Represents Pool.init Deque.init :=
  ⟨fun _ => wf_empty, fun _ => readable_empty, rfl⟩

/-- One call within its precondition. -/
theorem Wf.exec {b : Buffer} (h : b.Wf) {op : Op} (hpre : op.Pre b) :
    ∃ b', op.exec b = .ok (op.result b.readable, b') ∧ b'.Wf ∧
      b'.readable = op.onList b.readable := by
  cases op with
  | append data =>
    obtain ⟨b', hb', hwf, hread⟩ := h.append data
    exact ⟨b', by rw [Op.exec, hb']; rfl, hwf, hread⟩
  | prepend data =>
    obtain ⟨b', hb', hwf, hread⟩ := h.prepend hpre
    exact ⟨b', by rw [Op.exec, hb']; rfl, hwf, hread⟩
  | hasWritten data =>
    obtain ⟨hwf, hread⟩ := h.commit hpre
    exact ⟨_, by rw [Op.exec, h.hasWritten_store hpre]; rfl, hwf, hread⟩
  | unwrite len =>
    obtain ⟨b', hb', hwf, hread⟩ := h.unwrite hpre
    exact ⟨b', by rw [Op.exec, hb']; rfl, hwf, hread⟩
  | retrieve len =>
    obtain ⟨b', hb', hwf, hread⟩ := h.retrieve hpre
    exact ⟨b', by rw [Op.exec, hb']; rfl, hwf, hread⟩
  | retrieveUntil len =>
    obtain ⟨b', hb', hwf, hread⟩ := h.retrieveUntil hpre
    exact ⟨b', by rw [Op.exec, hb']; rfl, hwf, hread⟩
  | retrieveAll => exact ⟨_, rfl, h.retrieveAll, readable_retrieveAll b⟩
  | retrieveAsString len =>
    obtain ⟨b', hb', hwf, hread⟩ := h.retrieveAsString hpre
    exact ⟨b', by rw [Op.exec, hb']; rfl, hwf, hread⟩
  | ensureWritableBytes len =>
    obtain ⟨b', hb', hwf, hread, -⟩ := h.ensureWritableBytes len
    exact ⟨b', by rw [Op.exec, hb']; rfl, hwf, hread⟩
  | shrink reserve =>
    obtain ⟨b', hb', hwf, hread⟩ := h.shrink reserve hpre
    exact ⟨b', by rw [Op.exec, hb']; rfl, hwf, hread⟩
  | readFd result =>
    cases result with
    | fail errno => exact ⟨b, rfl, h, rfl⟩
    | read data =>
      obtain ⟨b', hb', hwf, hread⟩ := h.readFd_read data
      exact ⟨b', by rw [Op.exec, hb']; rfl, hwf, hread⟩

theorem refines_deque : Machine.Refines machine Deque.step Represents (fun p a => a.Pre p) := by
  constructor
  intro p d a hR hpre
  cases a with
  | call i op =>
    obtain ⟨b', hb', hwf, hread⟩ := (hR.wf i).exec hpre
    have hstep : machine.step p (.call i op) = .ok ⟨Function.update p.bufs i b',
        p.strings ++ (op.result (p.bufs i).readable).toList⟩ := by
      show Pool.step p (.call i op) = _
      rw [Pool.step, hb']
      rfl
    rw [hR.bytes i] at hread
    refine ⟨_, hstep, fun j => ?_, fun j => ?_, ?_⟩
    · by_cases hj : j = i
      · subst hj
        simpa using hwf
      · simpa [hj] using hR.wf j
    · by_cases hj : j = i
      · subst hj
        simpa [Deque.step] using hread
      · simpa [Deque.step, hj] using hR.bytes j
    · simp only [Deque.step, hR.strings, hR.bytes i]
  | swap i j =>
    refine ⟨_, rfl, fun k => ?_, fun k => ?_, hR.strings⟩
    · simp only [Function.update_apply]
      split_ifs <;> exact hR.wf _
    · simp only [Deque.step, Function.update_apply]
      split_ifs <;> exact hR.bytes _

/-- Calls within their preconditions return, keep the index order of every buffer, and follow the
deques. -/
theorem buffer_is_byte_deque (as : List Action)
    (h : machine.Along (fun p a => a.Pre p) Pool.init as) :
    ∃ p, machine.run Pool.init as = .ok p ∧
      p.strings = (as.foldl Deque.step Deque.init).strings ∧
      ∀ i, (p.bufs i).readerIndex ≤ (p.bufs i).writerIndex ∧
        (p.bufs i).writerIndex ≤ (p.bufs i).buffer.length ∧
        kCheapPrepend ≤ (p.bufs i).buffer.length ∧
        (p.bufs i).readable = (as.foldl Deque.step Deque.init).bytes i := by
  obtain ⟨p, hp, hR⟩ := refines_deque.run represents_init h
  refine ⟨p, hp, hR.strings, fun i => ?_⟩
  exact ⟨(hR.wf i).reader_le_writer, (hR.wf i).writer_le_size, (hR.wf i).cheapPrepend_le_size,
    hR.bytes i⟩

/-- Calls that prepend into the reserve, read from a descriptor, swap and shrink. -/
def sampleCalls : List Action :=
  [.call 0 (.append [1, 2, 3]), .call 0 (.retrieve 1), .call 0 (.prepend [7, 8]),
    .call 0 (.readFd (.read [9])), .swap 0 1, .call 1 (.shrink 5), .call 1 (.unwrite 1),
    .call 1 (.retrieveAsString 3)]

theorem buffer_is_byte_deque_sampleCalls :
    ∃ p, machine.run Pool.init sampleCalls = .ok p ∧ p.strings = [[7, 8, 2]] ∧
      (p.bufs 1).readable = [3] := by
  obtain ⟨p, hp, hs, hb⟩ := buffer_is_byte_deque sampleCalls (by decide +kernel)
  exact ⟨p, hp, hs, (hb 1).2.2.2⟩

end Buffer

end Reactor
