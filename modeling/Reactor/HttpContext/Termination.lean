import Reactor.Lib.Machine
import Reactor.HttpContext

/-!
# Termination of parseRequest

The loop of `parseRequest` goes on while `hasMore`.  A round takes a line out of the buffer or clears
`hasMore` in the states `kExpectRequestLine` and `kExpectHeaders`; in `kGotAll` it does neither.  So
a context that has got all of a request and is not reset loops for ever in the next call, whatever
the buffer holds, and it is the only reachable one that does.  Every other call returns, or stops at
the assertion of `setMethod`: a refused request line leaves its method behind.
-/

namespace Reactor

namespace HttpContext

/-- A call on the public class; every call may be given another buffer. -/
inductive Call where
  | parseRequest (buf : Buffer) (receiveTime : ℤ)
  | reset

def Call.step (ctx : HttpContext) : Call → Except Fault HttpContext
  | .parseRequest buf receiveTime => do
    let (_, ctx, _) ← ctx.parseRequest buf receiveTime
    return ctx
  | .reset => return ctx.reset

def machine : Machine HttpContext Call Fault := ⟨Call.step⟩

/-- Calls are given buffers that `Buffer`'s own operations built. -/
def Env (_ : HttpContext) : Call → Prop
  | .parseRequest buf _ => buf.Wf
  | .reset => True

/-- The loop comes to an end after some number of rounds, be it at an assertion. -/
def Ends (ctx : HttpContext) (buf : Buffer) (receiveTime : ℤ) : Prop :=
  ∃ fuel, parseLoop receiveTime fuel ctx buf ≠ .error .outOfFuel

/-- The loop returns after some number of rounds. -/
def Returns (ctx : HttpContext) (buf : Buffer) (receiveTime : ℤ) : Prop :=
  ∃ fuel r, parseLoop receiveTime fuel ctx buf = .ok r

/-- A line refused earlier has left its method in the request, and the line that is to be read as a
request line now has a space in it. -/
def SecondLine (ctx : HttpContext) (buf : Buffer) : Prop :=
  ctx.state = .kExpectRequestLine ∧ ctx.request.method ≠ .kInvalid ∧
    ∃ n, Buffer.searchCRLF buf.readable = some n ∧ 32 ∈ buf.readable.take n

/-- The call is not one of those that do not return. -/
def Safe (ctx : HttpContext) : Call → Prop
  | .parseRequest buf _ => ctx.gotAll = false ∧ ¬ SecondLine ctx buf
  | .reset => True

/-! ## One call -/

theorem gotAll_eq_false {ctx : HttpContext} : ctx.gotAll = false ↔ ctx.state ≠ .kGotAll := by
  simp [gotAll]

/-- In `kGotAll` a round changes nothing. -/
theorem parseLoop_gotAll (receiveTime : ℤ) {ctx : HttpContext} (h : ctx.state = .kGotAll)
    (buf : Buffer) (fuel : ℕ) : parseLoop receiveTime fuel ctx buf = .error .outOfFuel := by
  induction fuel with
  | zero => rfl
  | succ fuel ih =>
    rw [parseLoop, h]
    exact ih

theorem SecondLine.parseLoop {ctx : HttpContext} {buf : Buffer} (h : SecondLine ctx buf)
    (hwf : buf.Wf) (receiveTime : ℤ) (fuel : ℕ) :
    parseLoop receiveTime (fuel + 1) ctx buf = .error .setMethod := by
  obtain ⟨hstate, hmethod, n, hn, hspace⟩ := h
  exact parseLoop_fault receiveTime fuel hstate hmethod hwf hn hspace

/-- The request line that `parseRequest` finds is refused, or it goes on to the headers. -/
theorem parseRequest_requestLine (receiveTime : ℤ) {ctx : HttpContext} {buf : Buffer}
    (hstate : ctx.state = .kExpectRequestLine) (hwf : buf.Wf) (hsecond : ¬ SecondLine ctx buf) :
    ∃ ok ctx' buf', ctx.parseRequest buf receiveTime = .ok (ok, ctx', buf') ∧
      ctx'.state ≠ .kExpectBody := by
  cases hn : Buffer.searchCRLF buf.readable with
  | none => exact ⟨true, ctx, buf, parseRequest_no_line receiveTime hstate hn, by simp [hstate]⟩
  | some n =>
    by_cases hmethod : ctx.request.method = .kInvalid
    · by_cases hline : HttpRequest.WellFormedLine (buf.readable.take n)
      · obtain ⟨ctx', buf', hcall, -, hnext⟩ :=
          parseRequest_good_line receiveTime hstate hmethod hwf hn hline
        refine ⟨true, ctx', buf', hcall, ?_⟩
        rcases hnext with h | h <;> simp [h]
      · obtain ⟨r, hcall, -⟩ := parseRequest_bad_line receiveTime hstate hmethod hwf hn hline
        exact ⟨false, _, buf, hcall, by simp⟩
    · have hspace : 32 ∉ buf.readable.take n := fun h => hsecond ⟨hstate, hmethod, n, hn, h⟩
      refine ⟨false, ctx, buf, ?_, by simp [hstate]⟩
      rw [parseRequest, parseLoop_line receiveTime _ hstate hwf hn,
        HttpRequest.processRequestLine_of_no_space _ hspace]
      rfl

/-- Every line that is taken pays for a round, so the readable bytes are enough. -/
theorem parseRequest_of_safe (receiveTime : ℤ) {ctx : HttpContext} {buf : Buffer} (hwf : buf.Wf)
    (hbody : ctx.state ≠ .kExpectBody) (hgot : ctx.gotAll = false)
    (hsecond : ¬ SecondLine ctx buf) :
    ∃ ok ctx' buf', ctx.parseRequest buf receiveTime = .ok (ok, ctx', buf') ∧
      ctx'.state ≠ .kExpectBody := by
  cases hstate : ctx.state with
  | kExpectRequestLine => exact parseRequest_requestLine receiveTime hstate hwf hsecond
  | kExpectHeaders =>
    obtain ⟨ctx', buf', hcall, -, hnext⟩ := parseRequest_headers receiveTime hstate hwf
    refine ⟨true, ctx', buf', hcall, ?_⟩
    rcases hnext with h | h <;> simp [h]
  | kExpectBody => exact absurd hstate hbody
  | kGotAll => exact absurd hstate (gotAll_eq_false.1 hgot)

theorem returns_iff (receiveTime : ℤ) {ctx : HttpContext} {buf : Buffer} (hwf : buf.Wf)
    (hbody : ctx.state ≠ .kExpectBody) :
    Returns ctx buf receiveTime ↔ ctx.gotAll = false ∧ ¬ SecondLine ctx buf := by
  constructor
  · rintro ⟨fuel, r, hr⟩
    constructor
    · rw [gotAll_eq_false]
      intro hgot
      rw [parseLoop_gotAll receiveTime hgot] at hr
      cases hr
    · intro hsecond
      cases fuel with
      | zero => cases hr
      | succ fuel =>
        rw [hsecond.parseLoop hwf] at hr
        cases hr
  · rintro ⟨hgot, hsecond⟩
    obtain ⟨ok, ctx', buf', hcall, -⟩ := parseRequest_of_safe receiveTime hwf hbody hgot hsecond
    exact ⟨_, _, hcall⟩

theorem ends_iff (receiveTime : ℤ) {ctx : HttpContext} {buf : Buffer} (hwf : buf.Wf)
    (hbody : ctx.state ≠ .kExpectBody) : Ends ctx buf receiveTime ↔ ctx.gotAll = false := by
  constructor
  · rintro ⟨fuel, hfuel⟩
    rw [gotAll_eq_false]
    intro hgot
    exact hfuel (parseLoop_gotAll receiveTime hgot buf fuel)
  · intro hgot
    by_cases hsecond : SecondLine ctx buf
    · exact ⟨1, by rw [hsecond.parseLoop hwf]; simp⟩
    · obtain ⟨fuel, r, hr⟩ := (returns_iff receiveTime hwf hbody).2 ⟨hgot, hsecond⟩
      exact ⟨fuel, by rw [hr]; simp⟩

/-! ## Sequences of calls -/

theorem step_safe {ctx : HttpContext} {call : Call} (hbody : ctx.state ≠ .kExpectBody)
    (henv : Env ctx call) (hsafe : Safe ctx call) :
    ∃ ctx', machine.step ctx call = .ok ctx' ∧ ctx'.state ≠ .kExpectBody := by
  cases call with
  | reset => exact ⟨new, rfl, by decide⟩
  | parseRequest buf receiveTime =>
    obtain ⟨ok, ctx', buf', hcall, hbody'⟩ :=
      parseRequest_of_safe receiveTime henv hbody hsafe.1 hsafe.2
    refine ⟨ctx', ?_, hbody'⟩
    show Call.step ctx (.parseRequest buf receiveTime) = _
    rw [Call.step, hcall]
    rfl

theorem safe_of_step {ctx ctx' : HttpContext} {call : Call} (hbody : ctx.state ≠ .kExpectBody)
    (henv : Env ctx call) (hstep : machine.step ctx call = .ok ctx') : Safe ctx call := by
  cases call with
  | reset => trivial
  | parseRequest buf receiveTime =>
    obtain ⟨r, hr, -⟩ :=
      bind_eq_ok.1 (show Call.step ctx (.parseRequest buf receiveTime) = _ from hstep)
    exact (returns_iff receiveTime henv hbody).1 ⟨_, r, hr⟩

/-- The call returns. -/
def CallReturns (ctx : HttpContext) : Call → Prop
  | .parseRequest buf receiveTime => Returns ctx buf receiveTime
  | .reset => True

theorem callReturns_iff {ctx : HttpContext} {call : Call} (hbody : ctx.state ≠ .kExpectBody)
    (henv : Env ctx call) : CallReturns ctx call ↔ Safe ctx call := by
  cases call with
  | reset => exact Iff.rfl
  | parseRequest buf receiveTime => exact returns_iff receiveTime henv hbody

/-- No call leads to `kExpectBody`. -/
theorem step_expectBody (ctx : HttpContext) (call : Call) (ctx' : HttpContext)
    (hbody : ctx.state ≠ .kExpectBody) (henv : Env ctx call)
    (hstep : machine.step ctx call = .ok ctx') : ctx'.state ≠ .kExpectBody := by
  obtain ⟨ctx₁, hctx₁, hbody₁⟩ := step_safe hbody henv (safe_of_step hbody henv hstep)
  obtain rfl : ctx₁ = ctx' := Except.ok.inj (hctx₁.symm.trans hstep)
  exact hbody₁

/-- In every state that calls can reach, the loop of `parseRequest` ends exactly when the context has
not got all, and returns exactly when moreover no second line is read as a request line.  So every
call of a sequence returns exactly when every call of it is safe. -/
theorem parseRequest_returns_iff (calls : List Call) (hE : machine.Along Env new calls) :
    (∀ ctx buf receiveTime, machine.run new calls = .ok ctx → buf.Wf →
      (Ends ctx buf receiveTime ↔ ctx.gotAll = false) ∧
      (Returns ctx buf receiveTime ↔ ctx.gotAll = false ∧ ¬ SecondLine ctx buf)) ∧
    (machine.Along CallReturns new calls ↔ machine.Along Safe new calls) := by
  have hnew : new.state ≠ .kExpectBody := by decide
  constructor
  · intro ctx buf receiveTime hrun hwf
    have hbody : ctx.state ≠ .kExpectBody :=
      Machine.inv_of_along (I := fun ctx => ctx.state ≠ .kExpectBody) step_expectBody hnew hE hrun
    exact ⟨ends_iff receiveTime hwf hbody, returns_iff receiveTime hwf hbody⟩
  · exact Machine.along_congr (I := fun ctx => ctx.state ≠ .kExpectBody) step_expectBody
      (fun _ _ hbody henv => callReturns_iff hbody henv) hnew hE

/-- A buffer that holds one whole request. -/
def wholeRequest : Buffer := ⟨List.replicate 8 0 ++ ascii "GET / HTTP/1.1\r\n\r\n", 8, 26⟩

theorem wf_wholeRequest : wholeRequest.Wf := ⟨by decide, by decide, by decide⟩

/-- With a `reset` between two requests, both calls return. -/
theorem parseRequest_returns_iff_reset :
    machine.Along CallReturns new
      [.parseRequest wholeRequest 0, .reset, .parseRequest wholeRequest 1] := by
  refine (parseRequest_returns_iff _ ?_).2.2 ?_
  · exact ⟨wf_wholeRequest, fun _ _ => ⟨trivial, fun _ _ => ⟨wf_wholeRequest, fun _ _ => trivial⟩⟩⟩
  · refine ⟨⟨rfl, fun h => h.2.1 rfl⟩, fun _ _ => ⟨trivial, fun ctx hctx => ?_⟩⟩
    obtain rfl : new = ctx := Except.ok.inj hctx
    exact ⟨⟨rfl, fun h => h.2.1 rfl⟩, fun _ _ => trivial⟩

/-- After a whole request, without `reset`, `parseRequest` loops for ever on an empty buffer. -/
theorem parseRequest_not_returns :
    ¬ ∀ (calls : List Call) (ctx : HttpContext) (buf : Buffer) (receiveTime : ℤ),
      machine.Along Env new calls → machine.run new calls = .ok ctx → buf.Wf →
        Returns ctx buf receiveTime := by
  intro h
  have hgot : ∀ ctx ∈ (machine.run new [.parseRequest wholeRequest 0]).toOption,
      ctx.state = .kGotAll := by decide +kernel
  obtain ⟨ctx, hctx, -⟩ := @step_safe new (.parseRequest wholeRequest 0) (by decide)
    wf_wholeRequest ⟨rfl, fun hline => hline.2.1 rfl⟩
  have hrun : machine.run new [.parseRequest wholeRequest 0] = .ok ctx :=
    Machine.run_cons_ok hctx []
  obtain ⟨fuel, r, hr⟩ := h [.parseRequest wholeRequest 0] ctx Buffer.empty 1
    ⟨wf_wholeRequest, fun _ _ => trivial⟩ hrun Buffer.wf_empty
  rw [parseLoop_gotAll 1 (hgot ctx (by rw [hrun]; rfl))] at hr
  cases hr

end HttpContext

end Reactor
