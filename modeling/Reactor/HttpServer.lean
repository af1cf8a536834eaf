import Reactor.HttpContext
import Reactor.Lib.Machine

/-!
# HttpServer::onMessage

One connection of an `HttpServer`: its parser context, its input buffer and what `onMessage` has
asked for so far.  The bytes of the peer arrive in chunks; `onMessage` runs after each one.

A request line that names a method and is refused leaves the method in the context and the line in
the buffer.  The answer is a 400 and a `shutdown` of the write half, which does not keep the peer
from sending: the next chunk makes `parseRequest` read the same line again, and `setMethod` finds
a method already set.

* `never_crashes_iff`: a sequence of chunks is survived exactly when no chunk but the last
  completes such a line.
-/

namespace Reactor

/-- What `onMessage` asks for: a 400 and a `shutdown`, or the handling of a request. -/
inductive Reply where
  | badRequest
  | onRequest (req : HttpRequest)

/-- The state that `onMessage` works on. -/
structure HttpServer where
  context : HttpContext
  inputBuffer : Buffer
  replies : List Reply

/-- Bytes of the peer, and when they were read. -/
structure Chunk where
  data : Bytes
  receiveTime : ℤ
  deriving DecidableEq, Repr

namespace HttpServer

/-- `onConnection`: the connection is up and has a fresh context. -/
def init : HttpServer := ⟨HttpContext.new, Buffer.empty, []⟩

/-- The bytes are in the input buffer already. -/
def onMessage (s : HttpServer) (receiveTime : ℤ) : Except Fault HttpServer := do
  let (ok, context, buf) ← s.context.parseRequest s.inputBuffer receiveTime
  let replies := if ok then s.replies else s.replies ++ [.badRequest]
  if context.gotAll then return ⟨context.reset, buf, replies ++ [.onRequest context.request]⟩
  else return ⟨context, buf, replies⟩

def deliver (s : HttpServer) (c : Chunk) : Except Fault HttpServer := do
  let buf ← s.inputBuffer.append c.data
  onMessage { s with inputBuffer := buf } c.receiveTime

def machine : Machine HttpServer Chunk Fault := ⟨deliver⟩

/-- The bytes hold a complete first line that begins with a known method and a space, and is not a
well-formed request line. -/
def BadLine (bytes : Bytes) : Prop :=
  ∃ n, Buffer.searchCRLF bytes = some n ∧ HttpRequest.NamesMethod (bytes.take n) ∧
    ¬ HttpRequest.WellFormedLine (bytes.take n)

/-- A request line is expected, and with the chunk there is a bad one. -/
def Malformed (s : HttpServer) (c : Chunk) : Prop :=
  s.context.state = .kExpectRequestLine ∧ BadLine (s.inputBuffer.readable ++ c.data)

/-- The context is fit for whatever comes next. -/
structure Ready (s : HttpServer) : Prop where
  wf : s.inputBuffer.Wf
  state : s.context.state = .kExpectRequestLine ∧ s.context.request.method = .kInvalid ∨
    s.context.state = .kExpectHeaders

/-- The context has a method and the buffer a request line that names one. -/
structure Stuck (s : HttpServer) : Prop where
  wf : s.inputBuffer.Wf
  state : s.context.state = .kExpectRequestLine
  method : s.context.request.method ≠ .kInvalid
  line : ∃ n, Buffer.searchCRLF s.inputBuffer.readable = some n ∧
    HttpRequest.NamesMethod (s.inputBuffer.readable.take n)

theorem ready_init : Ready init := ⟨Buffer.wf_empty, Or.inl ⟨rfl, rfl⟩⟩

/-! ## One chunk -/

/-- A parser that has read headers, or all, leaves a ready context behind. -/
theorem onMessage_of_headers {s : HttpServer} {receiveTime : ℤ} {ctx : HttpContext} {buf : Buffer}
    (hparse : s.context.parseRequest s.inputBuffer receiveTime = .ok (true, ctx, buf))
    (hwf : buf.Wf) (hstate : ctx.state = .kExpectHeaders ∨ ctx.state = .kGotAll) :
    ∃ s', s.onMessage receiveTime = .ok s' ∧ s'.Ready := by
  unfold onMessage
  rw [hparse, ok_bind]
  dsimp only
  rcases hstate with hh | hg
  · rw [if_neg (by simp [HttpContext.gotAll, hh])]
    exact ⟨_, rfl, hwf, Or.inr hh⟩
  · rw [if_pos (by simp [HttpContext.gotAll, hg])]
    exact ⟨_, rfl, hwf, Or.inl ⟨rfl, rfl⟩⟩

/-- A parser that still expects a request line leaves its context as it is. -/
theorem onMessage_of_requestLine {s : HttpServer} {receiveTime : ℤ} {ok : Bool} {r : HttpRequest}
    {buf : Buffer}
    (hparse : s.context.parseRequest s.inputBuffer receiveTime =
      .ok (ok, ⟨.kExpectRequestLine, r⟩, buf)) :
    ∃ s', s.onMessage receiveTime = .ok s' ∧ s'.context = ⟨.kExpectRequestLine, r⟩ ∧
      s'.inputBuffer = buf := by
  unfold onMessage
  rw [hparse, ok_bind]
  exact ⟨_, rfl, rfl, rfl⟩

theorem onMessage_ready {s : HttpServer} (h : s.Ready) (receiveTime : ℤ) :
    ∃ s', s.onMessage receiveTime = .ok s' ∧
      (s.context.state = .kExpectRequestLine ∧ BadLine s.inputBuffer.readable → s'.Stuck) ∧
      (¬ (s.context.state = .kExpectRequestLine ∧ BadLine s.inputBuffer.readable) → s'.Ready) := by
  obtain ⟨hwf, ⟨hstate, hmethod⟩ | hstate⟩ := h
  · cases hn : Buffer.searchCRLF s.inputBuffer.readable with
    | none =>
      have hparse : s.context.parseRequest s.inputBuffer receiveTime =
          .ok (true, ⟨.kExpectRequestLine, s.context.request⟩, s.inputBuffer) := by
        rw [HttpContext.parseRequest_no_line receiveTime hstate hn, ← hstate]
      obtain ⟨s', hs', hctx, hbuf⟩ := onMessage_of_requestLine hparse
      refine ⟨s', hs', ?_, fun _ => ⟨by rw [hbuf]; exact hwf, Or.inl ?_⟩⟩
      · rintro ⟨-, n, hsome, -⟩
        rw [hn] at hsome
        cases hsome
      · rw [hctx]
        exact ⟨rfl, hmethod⟩
    | some n =>
      by_cases hline : HttpRequest.WellFormedLine (s.inputBuffer.readable.take n)
      · obtain ⟨ctx, buf, hparse, hwf', hctx⟩ :=
          HttpContext.parseRequest_good_line receiveTime hstate hmethod hwf hn hline
        obtain ⟨s', hs', hready⟩ := onMessage_of_headers hparse hwf' hctx
        refine ⟨s', hs', ?_, fun _ => hready⟩
        rintro ⟨-, m, hm, -, hbad⟩
        rw [hn] at hm
        obtain rfl := Option.some.inj hm
        exact absurd hline hbad
      · obtain ⟨r, hparse, hr⟩ :=
          HttpContext.parseRequest_bad_line receiveTime hstate hmethod hwf hn hline
        obtain ⟨s', hs', hctx, hbuf⟩ := onMessage_of_requestLine hparse
        refine ⟨s', hs', ?_, ?_⟩
        · rintro ⟨-, m, hm, hnames, -⟩
          rw [hn] at hm
          obtain rfl := Option.some.inj hm
          refine ⟨by rw [hbuf]; exact hwf, by rw [hctx], by rw [hctx]; exact hr.2 hnames, n, ?_⟩
          rw [hbuf]
          exact ⟨hn, hnames⟩
        · intro hnot
          refine ⟨by rw [hbuf]; exact hwf, Or.inl ⟨by rw [hctx], ?_⟩⟩
          rw [hctx]
          by_contra hm
          exact hnot ⟨hstate, n, hn, hr.1 hm, hline⟩
  · obtain ⟨ctx, buf, hparse, hwf', hctx⟩ :=
      HttpContext.parseRequest_headers receiveTime hstate hwf
    obtain ⟨s', hs', hready⟩ := onMessage_of_headers hparse hwf' hctx
    refine ⟨s', hs', ?_, fun _ => hready⟩
    rintro ⟨hline, -⟩
    rw [hstate] at hline
    cases hline

theorem deliver_ready {s : HttpServer} (h : s.Ready) (c : Chunk) :
    ∃ s', s.deliver c = .ok s' ∧ (s.Malformed c → s'.Stuck) ∧ (¬ s.Malformed c → s'.Ready) := by
  obtain ⟨buf, hbuf, hwf, hread⟩ := h.wf.append c.data
  have hready : Ready { s with inputBuffer := buf } := ⟨hwf, h.state⟩
  obtain ⟨s', hs', hstuck, hnext⟩ := onMessage_ready hready c.receiveTime
  unfold deliver Malformed
  rw [hbuf, ok_bind, ← hread]
  exact ⟨s', hs', hstuck, hnext⟩

/-- The line is still in front of the buffer, whatever comes behind it. -/
theorem deliver_stuck {s : HttpServer} (h : s.Stuck) (c : Chunk) :
    s.deliver c = .error .setMethod := by
  obtain ⟨buf, hbuf, hwf, hread⟩ := h.wf.append c.data
  obtain ⟨n, hn, hline⟩ := h.line
  have hle := Buffer.searchCRLF_le hn
  have hline' : HttpRequest.NamesMethod (buf.readable.take n) := by
    rw [hread, List.take_append_of_le_length (by omega)]
    exact hline
  have hn' : Buffer.searchCRLF buf.readable = some n := by
    rw [hread]
    exact Buffer.searchCRLF_append hn c.data
  unfold deliver
  rw [hbuf, ok_bind, onMessage, HttpContext.parseRequest,
    HttpContext.parseLoop_fault _ _ h.state h.method hwf hn' hline'.space_mem]
  rfl

/-! ## A whole connection -/

theorem run_ready_iff {s : HttpServer} (h : s.Ready) (chunks : List Chunk) :
    (∃ t, machine.run s chunks = .ok t) ↔
      machine.Along (fun s c => ¬ s.Malformed c) s chunks.dropLast := by
  induction chunks generalizing s with
  | nil => exact ⟨fun _ => trivial, fun _ => ⟨s, rfl⟩⟩
  | cons c chunks ih =>
    obtain ⟨s', hs', hstuck, hready⟩ := deliver_ready h c
    have hstep : machine.step s c = .ok s' := hs'
    rw [Machine.run_cons_ok hstep]
    cases chunks with
    | nil => exact ⟨fun _ => trivial, fun _ => ⟨s', rfl⟩⟩
    | cons d chunks =>
      rw [List.dropLast_cons_of_ne_nil (List.cons_ne_nil d chunks), Machine.along_cons_ok hstep]
      by_cases hbad : s.Malformed c
      · have hfault : machine.step s' d = .error .setMethod := deliver_stuck (hstuck hbad) d
        rw [Machine.run_cons_error hfault]
        constructor
        · rintro ⟨t, ht⟩
          cases ht
        · exact fun hall => absurd hbad hall.1
      · rw [ih (hready hbad)]
        exact ⟨fun hall => ⟨hbad, hall⟩, fun hall => hall.2⟩

/-- No assertion fails over a connection's life exactly when every chunk that another one follows
leaves no bad request line at the front. -/
theorem never_crashes_iff (chunks : List Chunk) :
    (∃ s, machine.run init chunks = .ok s) ↔
      machine.Along (fun s c => ¬ s.Malformed c) init chunks.dropLast :=
  run_ready_iff ready_init chunks

example : (machine.run init
    [⟨ascii "GET /a?b HT", 0⟩, ⟨ascii "TP/1.1\r\nHost: x\r\n\r\n", 1⟩]).toOption.any
      (fun s => s.replies.length = 1 ∧ s.inputBuffer.readable = []) := by decide +kernel

/-- A request of an unknown protocol version, and one more byte. -/
theorem crashes_on_unknown_version :
    ¬ ∀ chunks : List Chunk, ∃ s, machine.run init chunks = .ok s := by
  intro h
  obtain ⟨s, hs⟩ := h [⟨ascii "GET / HTTP/2.0\r\n", 0⟩, ⟨ascii "\n", 1⟩]
  have hfault : (machine.run init [⟨ascii "GET / HTTP/2.0\r\n", 0⟩, ⟨ascii "\n", 1⟩]).toBool =
      false := by decide +kernel
  rw [hs] at hfault
  cases hfault

end HttpServer

end Reactor
