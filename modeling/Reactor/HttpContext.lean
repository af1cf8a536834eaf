import Reactor.Buffer
import Mathlib.Data.List.DropRight
import Mathlib.Logic.Function.Basic

/-!
# HttpRequest and HttpContext

The request parser.  A request line is accepted exactly when it has the shape of `WellFormedLine`;
a line that begins with a known method sets `method_` whether it is accepted or not.
-/

namespace Reactor

/-- `std::find`: what stands before the first `c` and what stands behind it. -/
def splitFirst (c : Byte) : Bytes → Option (Bytes × Bytes)
  | [] => none
  | b :: bs => if b = c then some ([], bs) else (splitFirst c bs).map fun p => (b :: p.1, p.2)

theorem splitFirst_eq_none {c : Byte} {l : Bytes} : splitFirst c l = none ↔ c ∉ l := by
  induction l with
  | nil => simp [splitFirst]
  | cons b l ih =>
    rw [splitFirst]
    split_ifs with h
    · simp [h]
    · simp [ih, Ne.symm h]

theorem splitFirst_eq_some {c : Byte} {l x y : Bytes} :
    splitFirst c l = some (x, y) ↔ l = x ++ c :: y ∧ c ∉ x := by
  induction l generalizing x with
  | nil => simp [splitFirst]
  | cons b l ih =>
    rw [splitFirst]
    split_ifs with h
    · subst h
      cases x with
      | nil => simp [eq_comm]
      | cons a x =>
        simp only [Option.some.injEq, Prod.mk.injEq, List.cons_append, List.cons.injEq]
        constructor
        · rintro ⟨h, -⟩
          cases h
        · rintro ⟨⟨rfl, -⟩, hnot⟩
          exact absurd List.mem_cons_self hnot
    · rw [Option.map_eq_some_iff]
      constructor
      · rintro ⟨⟨x', y'⟩, hp, heq⟩
        obtain ⟨rfl, rfl⟩ := Prod.mk.inj heq
        obtain ⟨rfl, hnot⟩ := ih.1 hp
        exact ⟨rfl, by simp [hnot, Ne.symm h]⟩
      · rintro ⟨heq, hnot⟩
        cases x with
        | nil => exact absurd (List.cons.inj heq).1 h
        | cons a x =>
          obtain ⟨rfl, hl⟩ := List.cons.inj heq
          exact ⟨(x, y), ih.2 ⟨hl, fun hx => hnot (List.mem_cons_of_mem b hx)⟩, rfl⟩

/-- `HttpRequest::Method` -/
inductive Method where
  | kInvalid
  | kGet
  | kPost
  | kHead
  | kPut
  | kDelete
  deriving DecidableEq, Repr

/-- `HttpRequest::Version` -/
inductive Version where
  | kUnknown
  | kHttp10
  | kHttp11
  deriving DecidableEq, Repr

structure HttpRequest where
  method : Method
  version : Version
  path : Bytes
  query : Bytes
  receiveTime : ℤ
  headers : Bytes → Option Bytes

namespace HttpRequest

def new : HttpRequest := ⟨.kInvalid, .kUnknown, [], [], 0, fun _ => none⟩

def methodOf (m : Bytes) : Method :=
  if m = ascii "GET" then .kGet
  else if m = ascii "POST" then .kPost
  else if m = ascii "HEAD" then .kHead
  else if m = ascii "PUT" then .kPut
  else if m = ascii "DELETE" then .kDelete
  else .kInvalid

def setMethod (r : HttpRequest) (m : Bytes) : Except Fault (Bool × HttpRequest) := do
  check .setMethod (r.method = .kInvalid)
  let r := { r with method := methodOf m }
  return (r.method ≠ .kInvalid, r)

/-- `isspace` -/
def isSpace (c : Byte) : Bool := c = 32 ∨ 9 ≤ c ∧ c ≤ 13

/-- `addHeader`: the value loses the white space at both ends. -/
def addHeader (r : HttpRequest) (field value : Bytes) : HttpRequest :=
  { r with headers :=
      Function.update r.headers field (some ((value.dropWhile isSpace).rdropWhile isSpace)) }

def getHeader (r : HttpRequest) (field : Bytes) : Bytes := (r.headers field).getD []

def methodString (r : HttpRequest) : Bytes :=
  match r.method with
  | .kInvalid => ascii "UNKNOWN"
  | .kGet => ascii "GET"
  | .kPost => ascii "POST"
  | .kHead => ascii "HEAD"
  | .kPut => ascii "PUT"
  | .kDelete => ascii "DELETE"

/-- The request target: a path and, from a question mark on, a query. -/
def setTarget (r : HttpRequest) (target : Bytes) : HttpRequest :=
  match splitFirst 63 target with
  | some (path, query) => { r with path := path, query := 63 :: query }
  | none => { r with path := target }

/-- The end of `processRequestLine`: eight bytes, of which the last is the minor version. -/
def setProtocol (r : HttpRequest) (protocol : Bytes) : Bool × HttpRequest :=
  if protocol.length = 8 ∧ protocol.take 7 = ascii "HTTP/1." then
    if protocol.drop 7 = ascii "1" then (true, { r with version := .kHttp11 })
    else if protocol.drop 7 = ascii "0" then (true, { r with version := .kHttp10 })
    else (false, r)
  else (false, r)

/-- `HttpContext::processRequestLine` -/
def processRequestLine (r : HttpRequest) (line : Bytes) : Except Fault (Bool × HttpRequest) :=
  match splitFirst 32 line with
  | none => return (false, r)
  | some (method, rest) => do
    let (known, r) ← r.setMethod method
    if known then
      match splitFirst 32 rest with
      | none => return (false, r)
      | some (target, protocol) => return (r.setTarget target).setProtocol protocol
    else return (false, r)

end HttpRequest

/-- `HttpContext::HttpRequestParseState` -/
inductive ParseState where
  | kExpectRequestLine
  | kExpectHeaders
  | kExpectBody
  | kGotAll
  deriving DecidableEq, Repr

structure HttpContext where
  state : ParseState
  request : HttpRequest

namespace HttpContext

def new : HttpContext := ⟨.kExpectRequestLine, HttpRequest.new⟩

/-- The loop of `parseRequest`.  In the states `kExpectBody` and `kGotAll` it does nothing, and does
not end. -/
def parseLoop (receiveTime : ℤ) :
    ℕ → HttpContext → Buffer → Except Fault (Bool × HttpContext × Buffer)
  | 0, _, _ => .error .outOfFuel
  | fuel + 1, ctx, buf =>
    match ctx.state with
    | .kExpectRequestLine =>
      match buf.findCRLF with
      | none => return (true, ctx, buf)
      | some crlf => do
        let (ok, request) ← ctx.request.processRequestLine (Vec.slice buf.buffer buf.peek crlf)
        if ok then
          let buf ← buf.retrieveUntil (crlf + 2)
          parseLoop receiveTime fuel ⟨.kExpectHeaders, { request with receiveTime := receiveTime }⟩ buf
        else return (false, { ctx with request := request }, buf)
    | .kExpectHeaders =>
      match buf.findCRLF with
      | none => return (true, ctx, buf)
      | some crlf =>
        match splitFirst 58 (Vec.slice buf.buffer buf.peek crlf) with
        | some (field, value) => do
          let buf ← buf.retrieveUntil (crlf + 2)
          parseLoop receiveTime fuel { ctx with request := ctx.request.addHeader field value } buf
        | none => do
          let buf ← buf.retrieveUntil (crlf + 2)
          return (true, { ctx with state := .kGotAll }, buf)
    | .kExpectBody | .kGotAll => parseLoop receiveTime fuel ctx buf

/-- `parseRequest`.  A round of the loop takes two bytes or more, except the last one. -/
def parseRequest (ctx : HttpContext) (buf : Buffer) (receiveTime : ℤ) :
    Except Fault (Bool × HttpContext × Buffer) :=
  parseLoop receiveTime (buf.readableBytes + 1) ctx buf

def gotAll (ctx : HttpContext) : Bool := ctx.state = .kGotAll

/-- `reset` swaps the request with a fresh one. -/
def reset (_ctx : HttpContext) : HttpContext := new

end HttpContext

namespace HttpRequest

/-! ## Request lines -/

/-- The line begins with a known method and a space. -/
def NamesMethod (line : Bytes) : Prop :=
  ∃ method rest, methodOf method ≠ .kInvalid ∧ line = method ++ 32 :: rest

/-- The line is a known method, a target without spaces and a version of the protocol. -/
def WellFormedLine (line : Bytes) : Prop :=
  ∃ method target minor, methodOf method ≠ .kInvalid ∧ 32 ∉ target ∧
    (minor = ascii "1" ∨ minor = ascii "0") ∧
    line = method ++ 32 :: (target ++ 32 :: (ascii "HTTP/1." ++ minor))

theorem notMem_of_methodOf {m : Bytes} (h : methodOf m ≠ .kInvalid) : 32 ∉ m := by
  unfold methodOf at h
  split_ifs at h with h₁ h₂ h₃ h₄ h₅
  · rw [h₁]
    decide
  · rw [h₂]
    decide
  · rw [h₃]
    decide
  · rw [h₄]
    decide
  · rw [h₅]
    decide
  · exact absurd rfl h

theorem setTarget_method (r : HttpRequest) (target : Bytes) :
    (r.setTarget target).method = r.method := by
  unfold setTarget
  split <;> rfl

theorem setProtocol_spec (r : HttpRequest) (protocol : Bytes) :
    (r.setProtocol protocol).2.method = r.method ∧
      ((r.setProtocol protocol).1 = true ↔
        ∃ minor, (minor = ascii "1" ∨ minor = ascii "0") ∧ protocol = ascii "HTTP/1." ++ minor) := by
  have hlen : (ascii "HTTP/1.").length = 7 := by decide
  have hshape : (∃ minor, (minor = ascii "1" ∨ minor = ascii "0") ∧
      protocol = ascii "HTTP/1." ++ minor) ↔ protocol.length = 8 ∧
        protocol.take 7 = ascii "HTTP/1." ∧
        (protocol.drop 7 = ascii "1" ∨ protocol.drop 7 = ascii "0") := by
    constructor
    · rintro ⟨minor, hminor, rfl⟩
      have h8 : minor.length = 1 := by rcases hminor with rfl | rfl <;> decide
      refine ⟨by simp [hlen, h8], ?_, ?_⟩
      · rw [← hlen, List.take_left]
      · rw [← hlen, List.drop_left]
        exact hminor
    · rintro ⟨-, htake, hminor⟩
      exact ⟨_, hminor, by rw [← htake, List.take_append_drop]⟩
  rw [hshape]
  unfold setProtocol
  split_ifs with h h₁ h₀
  · exact ⟨rfl, by simp [h, h₁]⟩
  · exact ⟨rfl, by simp [h, h₀]⟩
  · exact ⟨rfl, by simp [h₁, h₀]⟩
  · refine ⟨rfl, ?_⟩
    simp only [false_iff]
    exact fun hall => h ⟨hall.1, hall.2.1⟩

theorem splitFirst_of_namesMethod {line : Bytes} (h : NamesMethod line) :
    ∃ m rest, splitFirst 32 line = some (m, rest) ∧ methodOf m ≠ .kInvalid := by
  obtain ⟨m, rest, hm, rfl⟩ := h
  exact ⟨m, rest, splitFirst_eq_some.2 ⟨rfl, notMem_of_methodOf hm⟩, hm⟩

theorem setMethod_of_invalid {r : HttpRequest} (h : r.method = .kInvalid) (m : Bytes) :
    r.setMethod m = .ok (decide (methodOf m ≠ .kInvalid), { r with method := methodOf m }) := by
  unfold setMethod
  rw [check_of h, ok_bind]
  rfl

theorem NamesMethod.space_mem {line : Bytes} (h : NamesMethod line) : 32 ∈ line := by
  obtain ⟨m, rest, -, rfl⟩ := h
  exact List.mem_append_right m List.mem_cons_self

/-- A request that has a method already does not survive a second request line with a space. -/
theorem processRequestLine_fault {r : HttpRequest} (h : r.method ≠ .kInvalid) {line : Bytes}
    (hline : 32 ∈ line) : r.processRequestLine line = .error .setMethod := by
  unfold processRequestLine
  cases hsplit : splitFirst 32 line with
  | none => exact absurd hline (splitFirst_eq_none.1 hsplit)
  | some p =>
    dsimp only
    rw [setMethod, check_of_not h]
    rfl

/-- A line without a space changes nothing. -/
theorem processRequestLine_of_no_space (r : HttpRequest) {line : Bytes} (hline : 32 ∉ line) :
    r.processRequestLine line = .ok (false, r) := by
  rw [processRequestLine, splitFirst_eq_none.2 hline]
  rfl

/-- The method is what stands in front of the first space. -/
theorem namesMethod_iff {line m rest : Bytes} (hsplit : splitFirst 32 line = some (m, rest)) :
    NamesMethod line ↔ methodOf m ≠ .kInvalid := by
  constructor
  · intro hn
    obtain ⟨m', rest', hsome, hm'⟩ := splitFirst_of_namesMethod hn
    rw [hsplit] at hsome
    obtain ⟨rfl, rfl⟩ := Prod.mk.inj (Option.some.inj hsome)
    exact hm'
  · intro hm
    exact ⟨m, rest, hm, (splitFirst_eq_some.1 hsplit).1⟩

theorem wellFormedLine_iff {line m rest : Bytes} (hsplit : splitFirst 32 line = some (m, rest)) :
    WellFormedLine line ↔ methodOf m ≠ .kInvalid ∧
      ∃ target minor, 32 ∉ target ∧ (minor = ascii "1" ∨ minor = ascii "0") ∧
        rest = target ++ 32 :: (ascii "HTTP/1." ++ minor) := by
  constructor
  · rintro ⟨m', target, minor, hm', htarget, hminor, heq⟩
    have hsplit' := splitFirst_eq_some.2 ⟨heq, notMem_of_methodOf hm'⟩
    rw [hsplit] at hsplit'
    obtain ⟨rfl, rfl⟩ := Prod.mk.inj (Option.some.inj hsplit')
    exact ⟨hm', target, minor, htarget, hminor, rfl⟩
  · rintro ⟨hm, target, minor, htarget, hminor, rfl⟩
    exact ⟨m, target, minor, hm, htarget, hminor, (splitFirst_eq_some.1 hsplit).1⟩

theorem processRequestLine_spec {r : HttpRequest} (h : r.method = .kInvalid) (line : Bytes) :
    ∃ ok r', r.processRequestLine line = .ok (ok, r') ∧ (ok = true ↔ WellFormedLine line) ∧
      (r'.method ≠ .kInvalid ↔ NamesMethod line) := by
  unfold processRequestLine
  cases hsplit : splitFirst 32 line with
  | none =>
    have hspace : ¬ NamesMethod line := fun hn => by
      obtain ⟨m, rest, hsome, -⟩ := splitFirst_of_namesMethod hn
      rw [hsplit] at hsome
      cases hsome
    refine ⟨false, r, rfl, ?_, by simp [h, hspace]⟩
    simp only [Bool.false_eq_true, false_iff]
    rintro ⟨m, target, minor, hm, -, -, rfl⟩
    exact hspace ⟨m, _, hm, rfl⟩
  | some p =>
    obtain ⟨m, rest⟩ := p
    obtain ⟨rfl, hnot⟩ := splitFirst_eq_some.1 hsplit
    dsimp only
    rw [setMethod_of_invalid h, ok_bind]
    dsimp only
    rw [namesMethod_iff hsplit, wellFormedLine_iff hsplit]
    by_cases hm : methodOf m = .kInvalid
    · rw [if_neg (by simp [hm])]
      exact ⟨false, _, rfl, by simp [hm], by simp⟩
    · rw [if_pos (by simp [hm])]
      cases hsplit' : splitFirst 32 rest with
      | none =>
        refine ⟨false, _, rfl, ?_, by simp [hm]⟩
        simp only [Bool.false_eq_true, false_iff]
        rintro ⟨-, target, minor, -, -, rfl⟩
        exact splitFirst_eq_none.1 hsplit' (by simp)
      | some p =>
        obtain ⟨target, protocol⟩ := p
        obtain ⟨rfl, htarget⟩ := splitFirst_eq_some.1 hsplit'
        have hspec :=
          setProtocol_spec (({ r with method := methodOf m } : HttpRequest).setTarget target) protocol
        dsimp only [pure, Except.pure]
        generalize (({ r with method := methodOf m } : HttpRequest).setTarget target).setProtocol
          protocol = res at hspec ⊢
        obtain ⟨ok, r'⟩ := res
        obtain ⟨hmethod, hok⟩ := hspec
        refine ⟨ok, r', rfl, ?_, ?_⟩
        · rw [hok]
          constructor
          · rintro ⟨minor, hminor, rfl⟩
            exact ⟨hm, target, minor, htarget, hminor, rfl⟩
          · rintro ⟨-, target', minor, htarget', hminor, heq⟩
            have hsplit'' := splitFirst_eq_some.2 ⟨heq, htarget'⟩
            rw [hsplit'] at hsplit''
            obtain ⟨rfl, rfl⟩ := Prod.mk.inj (Option.some.inj hsplit'')
            exact ⟨minor, hminor, rfl⟩
        · dsimp only at hmethod
          rw [hmethod, setTarget_method]

end HttpRequest

namespace HttpContext

/-! ## What a call of parseRequest does -/

/-- Behind a request line the parser does not fail: it waits for more header lines or has got all. -/
theorem parseLoop_headers (receiveTime : ℤ) {fuel : ℕ} {ctx : HttpContext} {buf : Buffer}
    (hstate : ctx.state = .kExpectHeaders) (hwf : buf.Wf) (hfuel : buf.readable.length < fuel) :
    ∃ ctx' buf', parseLoop receiveTime fuel ctx buf = .ok (true, ctx', buf') ∧ buf'.Wf ∧
      (ctx'.state = .kExpectHeaders ∨ ctx'.state = .kGotAll) := by
  -- every round that goes on has taken a line, so the readable bytes pay for the fuel
  induction fuel generalizing ctx buf with
  | zero => omega
  | succ fuel ih =>
    rw [parseLoop, hstate]
    dsimp only
    cases hn : Buffer.searchCRLF buf.readable with
    | none =>
      rw [Buffer.findCRLF, hn]
      exact ⟨ctx, buf, rfl, hwf, Or.inl hstate⟩
    | some n =>
      obtain ⟨buf', hret, hwf', hread⟩ := hwf.retrieveLine hn
      rw [Buffer.findCRLF, hn]
      dsimp only [Option.map_some]
      cases splitFirst 58 (Vec.slice buf.buffer buf.peek (buf.peek + n)) with
      | none =>
        dsimp only
        rw [hret, ok_bind]
        exact ⟨_, buf', rfl, hwf', Or.inr rfl⟩
      | some p =>
        dsimp only
        rw [hret, ok_bind]
        refine ih rfl hwf' ?_
        have hle := Buffer.searchCRLF_le hn
        rw [hread, List.length_drop]
        omega

theorem parseRequest_headers (receiveTime : ℤ) {ctx : HttpContext} {buf : Buffer}
    (hstate : ctx.state = .kExpectHeaders) (hwf : buf.Wf) :
    ∃ ctx' buf', ctx.parseRequest buf receiveTime = .ok (true, ctx', buf') ∧ buf'.Wf ∧
      (ctx'.state = .kExpectHeaders ∨ ctx'.state = .kGotAll) :=
  parseLoop_headers receiveTime hstate hwf (by rw [hwf.length_readable]; exact Nat.lt_succ_self _)

theorem parseRequest_no_line (receiveTime : ℤ) {ctx : HttpContext} {buf : Buffer}
    (hstate : ctx.state = .kExpectRequestLine) (hn : Buffer.searchCRLF buf.readable = none) :
    ctx.parseRequest buf receiveTime = .ok (true, ctx, buf) := by
  rw [parseRequest, parseLoop, hstate]
  dsimp only
  rw [Buffer.findCRLF, hn]
  rfl

/-- A round that has a request line to read. -/
theorem parseLoop_line (receiveTime : ℤ) (fuel : ℕ) {ctx : HttpContext} {buf : Buffer}
    (hstate : ctx.state = .kExpectRequestLine) (hwf : buf.Wf) {n : ℕ}
    (hn : Buffer.searchCRLF buf.readable = some n) :
    parseLoop receiveTime (fuel + 1) ctx buf = (do
      let (ok, request) ← ctx.request.processRequestLine (buf.readable.take n)
      if ok then
        let buf' ← buf.retrieveUntil (buf.peek + n + 2)
        parseLoop receiveTime fuel ⟨.kExpectHeaders, { request with receiveTime := receiveTime }⟩ buf'
      else return (false, { ctx with request := request }, buf)) := by
  rw [parseLoop, hstate]
  dsimp only
  rw [Buffer.findCRLF, hn]
  dsimp only [Option.map_some]
  rw [hwf.slice_line hn]

/-- A request line that is not well formed stays in the buffer; its method stays in the request. -/
theorem parseRequest_bad_line (receiveTime : ℤ) {ctx : HttpContext} {buf : Buffer}
    (hstate : ctx.state = .kExpectRequestLine) (hmethod : ctx.request.method = .kInvalid)
    (hwf : buf.Wf) {n : ℕ} (hn : Buffer.searchCRLF buf.readable = some n)
    (hline : ¬ HttpRequest.WellFormedLine (buf.readable.take n)) :
    ∃ r, ctx.parseRequest buf receiveTime = .ok (false, ⟨.kExpectRequestLine, r⟩, buf) ∧
      (r.method ≠ .kInvalid ↔ HttpRequest.NamesMethod (buf.readable.take n)) := by
  obtain ⟨ok, r, hproc, hok, hr⟩ := HttpRequest.processRequestLine_spec hmethod (buf.readable.take n)
  obtain rfl : ok = false := by
    cases ok with
    | false => rfl
    | true => exact absurd (hok.1 rfl) hline
  refine ⟨r, ?_, hr⟩
  rw [parseRequest, parseLoop_line receiveTime _ hstate hwf hn, hproc, ok_bind, ← hstate]
  rfl

theorem parseRequest_good_line (receiveTime : ℤ) {ctx : HttpContext} {buf : Buffer}
    (hstate : ctx.state = .kExpectRequestLine) (hmethod : ctx.request.method = .kInvalid)
    (hwf : buf.Wf) {n : ℕ} (hn : Buffer.searchCRLF buf.readable = some n)
    (hline : HttpRequest.WellFormedLine (buf.readable.take n)) :
    ∃ ctx' buf', ctx.parseRequest buf receiveTime = .ok (true, ctx', buf') ∧ buf'.Wf ∧
      (ctx'.state = .kExpectHeaders ∨ ctx'.state = .kGotAll) := by
  obtain ⟨ok, r, hproc, hok, -⟩ := HttpRequest.processRequestLine_spec hmethod (buf.readable.take n)
  obtain rfl := hok.2 hline
  obtain ⟨buf', hret, hwf', hread⟩ := hwf.retrieveLine hn
  rw [parseRequest, parseLoop_line receiveTime _ hstate hwf hn, hproc, ok_bind]
  dsimp only
  rw [if_pos rfl, hret, ok_bind]
  refine parseLoop_headers receiveTime rfl hwf' ?_
  have hle := Buffer.searchCRLF_le hn
  rw [hread, List.length_drop, ← hwf.length_readable]
  omega

/-- A request that has a method meets a second request line. -/
theorem parseLoop_fault (receiveTime : ℤ) (fuel : ℕ) {ctx : HttpContext} {buf : Buffer}
    (hstate : ctx.state = .kExpectRequestLine) (hmethod : ctx.request.method ≠ .kInvalid)
    (hwf : buf.Wf) {n : ℕ} (hn : Buffer.searchCRLF buf.readable = some n)
    (hline : 32 ∈ buf.readable.take n) :
    parseLoop receiveTime (fuel + 1) ctx buf = .error .setMethod := by
  rw [parseLoop_line receiveTime fuel hstate hwf hn,
    HttpRequest.processRequestLine_fault hmethod hline]
  rfl

end HttpContext

end Reactor
