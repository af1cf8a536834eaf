import Reactor.HttpContext.Chunks

/-!
# Requests are read back

`Message` is a request as its sender means it, and `Message.text` the bytes of it, with any blanks
around the values of the headers.

* `request_round_trip`: a fresh context that parses the text, with any bytes behind it, has got all
  of the message and leaves these bytes.
-/

namespace Reactor

/-- A header and the blanks around its value. -/
structure Header where
  field : Bytes
  before : Bytes
  value : Bytes
  after : Bytes
  field_ok : 58 ∉ field ∧ 13 ∉ field ∧ 10 ∉ field
  value_ok : 13 ∉ value ∧ 10 ∉ value
  head_ok : ∀ c ∈ value.head?, HttpRequest.isSpace c = false
  last_ok : ∀ c ∈ value.getLast?, HttpRequest.isSpace c = false
  blanks_ok : ∀ c ∈ before ++ after, HttpRequest.isSpace c = true ∧ c ≠ 13 ∧ c ≠ 10

/-- A request without a body. -/
structure Message where
  method : Method
  version : Version
  path : Bytes
  query : Bytes
  headers : List Header
  method_ok : method ≠ .kInvalid
  version_ok : version ≠ .kUnknown
  path_ok : 32 ∉ path ∧ 63 ∉ path ∧ 13 ∉ path ∧ 10 ∉ path
  query_start : query = [] ∨ query.head? = some 63
  query_ok : 32 ∉ query ∧ 13 ∉ query ∧ 10 ∉ query

def Header.line (h : Header) : Bytes := h.field ++ 58 :: (h.before ++ h.value ++ h.after)

namespace Message

/-- The name of the method, as in `HttpRequest::methodString`. -/
def methodName (m : Message) : Bytes :=
  HttpRequest.methodString { HttpRequest.new with method := m.method }

/-- The last byte of the version. -/
def minor (m : Message) : Bytes := if m.version = .kHttp11 then ascii "1" else ascii "0"

def requestLine (m : Message) : Bytes :=
  m.methodName ++ 32 :: ((m.path ++ m.query) ++ 32 :: (ascii "HTTP/1." ++ m.minor))

def text (m : Message) : Bytes := render (m.requestLine :: m.headers.map Header.line) ++ crlf

/-- The value of the last header with a field. -/
def lastValue (m : Message) (field : Bytes) : Bytes :=
  match m.headers.reverse.find? fun h => h.field = field with
  | some h => h.value
  | none => []

end Message

/-! ## One line -/

namespace Header

theorem trim_value (h : Header) :
    ((h.before ++ h.value ++ h.after).dropWhile HttpRequest.isSpace).rdropWhile HttpRequest.isSpace =
      h.value := by
  have hbefore : ∀ c ∈ h.before, HttpRequest.isSpace c = true :=
    fun c hc => (h.blanks_ok c (List.mem_append_left _ hc)).1
  have hafter : ∀ c ∈ h.after, HttpRequest.isSpace c = true :=
    fun c hc => (h.blanks_ok c (List.mem_append_right _ hc)).1
  have hdrop : (h.before ++ h.value ++ h.after).dropWhile HttpRequest.isSpace =
      (h.value ++ h.after).dropWhile HttpRequest.isSpace := by
    rw [List.append_assoc, List.dropWhile_append_of_pos hbefore]
  have hrdrop : (h.value ++ h.after).rdropWhile HttpRequest.isSpace =
      h.value.rdropWhile HttpRequest.isSpace := by
    rw [List.rdropWhile, List.reverse_append, List.dropWhile_append_of_pos, ← List.rdropWhile]
    exact fun c hc => hafter c (List.mem_reverse.1 hc)
  rw [hdrop]
  cases hvalue : h.value with
  | nil =>
    have hnil : ([] ++ h.after).dropWhile HttpRequest.isSpace = [] :=
      List.dropWhile_eq_nil_iff.2 hafter
    rw [hnil]
    rfl
  | cons c value =>
    have hhead : HttpRequest.isSpace c = false := h.head_ok c (by rw [hvalue]; rfl)
    have hlast : ∀ x ∈ (c :: value).getLast?, HttpRequest.isSpace x = false := by
      rw [← hvalue]
      exact h.last_ok
    rw [hvalue] at hrdrop
    have hstart : ((c :: value) ++ h.after).dropWhile HttpRequest.isSpace =
        (c :: value) ++ h.after := by
      rw [List.cons_append, List.dropWhile_cons_of_neg (by rw [hhead]; decide)]
    rw [hstart, hrdrop]
    refine List.rdropWhile_eq_self_iff.2 fun hne => ?_
    rw [hlast _ (List.getLast?_eq_some_getLast hne)]
    decide

theorem addHeader_eq (h : Header) (r : HttpRequest) :
    r.addHeader h.field (h.before ++ h.value ++ h.after) =
      { r with headers := Function.update r.headers h.field (some h.value) } := by
  rw [HttpRequest.addHeader, h.trim_value]

theorem searchCRLF_line (h : Header) : Buffer.searchCRLF h.line = none := by
  apply Buffer.searchCRLF_of_notMem
  have hblanks : 13 ∉ h.before ++ h.after := fun hmem => (h.blanks_ok 13 hmem).2.1 rfl
  simp only [List.mem_append, not_or] at hblanks
  simp [line, h.field_ok, h.value_ok, hblanks]

theorem splitFirst_line (h : Header) :
    splitFirst 58 h.line = some (h.field, h.before ++ h.value ++ h.after) :=
  splitFirst_eq_some.2 ⟨rfl, h.field_ok.1⟩

end Header

namespace Message

variable (m : Message)

theorem methodOf_methodName : HttpRequest.methodOf m.methodName = m.method := by
  unfold methodName HttpRequest.methodString
  dsimp only
  cases hm : m.method with
  | kInvalid => exact absurd hm m.method_ok
  | kGet => decide
  | kPost => decide
  | kHead => decide
  | kPut => decide
  | kDelete => decide

theorem notMem_methodName : 13 ∉ m.methodName := by
  unfold methodName HttpRequest.methodString
  dsimp only
  cases m.method <;> decide

theorem searchCRLF_requestLine : Buffer.searchCRLF m.requestLine = none := by
  apply Buffer.searchCRLF_of_notMem
  have hminor : 13 ∉ m.minor := by
    unfold minor
    split_ifs <;> decide
  have hprotocol : 13 ∉ ascii "HTTP/1." := by decide
  simp [requestLine, m.notMem_methodName, m.path_ok, m.query_ok, hminor, hprotocol]

/-- The target is cut where the query starts. -/
theorem setTarget_eq (r : HttpRequest) (hquery : r.query = []) :
    r.setTarget (m.path ++ m.query) = { r with path := m.path, query := m.query } := by
  unfold HttpRequest.setTarget
  cases hq : m.query with
  | nil =>
    rw [List.append_nil, splitFirst_eq_none.2 m.path_ok.2.1]
    dsimp only
    rw [← hquery]
  | cons c query =>
    have hstart := m.query_start
    rw [hq] at hstart
    obtain rfl : c = 63 := by simpa using hstart
    rw [splitFirst_eq_some.2 ⟨rfl, m.path_ok.2.1⟩]

theorem setProtocol_eq (r : HttpRequest) :
    r.setProtocol (ascii "HTTP/1." ++ m.minor) = (true, { r with version := m.version }) := by
  have hversion := m.version_ok
  unfold minor HttpRequest.setProtocol
  cases hv : m.version with
  | kUnknown => exact absurd hv hversion
  | kHttp10 => rw [if_pos (by decide), if_neg (by decide), if_pos (by decide)]
  | kHttp11 => rw [if_pos (by decide), if_pos (by decide)]

/-- What the request line leaves in a fresh request. -/
def request : HttpRequest :=
  { HttpRequest.new with
    method := m.method, version := m.version, path := m.path, query := m.query }

theorem processRequestLine_eq :
    HttpRequest.new.processRequestLine m.requestLine = .ok (true, m.request) := by
  have hmethod : HttpRequest.methodOf m.methodName ≠ .kInvalid := by
    rw [m.methodOf_methodName]
    exact m.method_ok
  have htarget : 32 ∉ m.path ++ m.query := by
    simp [m.path_ok, m.query_ok]
  unfold HttpRequest.processRequestLine requestLine
  rw [splitFirst_eq_some.2 ⟨rfl, HttpRequest.notMem_of_methodOf hmethod⟩]
  dsimp only
  rw [HttpRequest.setMethod_of_invalid rfl, ok_bind]
  dsimp only
  rw [if_pos (by simpa using hmethod), splitFirst_eq_some.2 ⟨rfl, htarget⟩]
  dsimp only
  rw [m.setTarget_eq _ rfl, m.setProtocol_eq, m.methodOf_methodName]
  rfl

end Message

/-! ## All lines -/

namespace HttpContext

/-- The headers of a list, added in order. -/
def addHeaders (r : HttpRequest) (headers : List Header) : HttpRequest :=
  headers.foldl (fun r h => { r with headers := Function.update r.headers h.field (some h.value) }) r

theorem take_line (line rest : Bytes) : (line ++ crlf ++ rest).take line.length = line := by
  rw [List.append_assoc, List.take_left]

theorem drop_line (line rest : Bytes) : (line ++ crlf ++ rest).drop (line.length + 2) = rest :=
  List.drop_left' (by rw [List.length_append]; rfl)

/-- Header lines up to the empty line. -/
theorem parses_headers (receiveTime : ℤ) (r : HttpRequest) (headers : List Header) (rest : Bytes) :
    Parses receiveTime ⟨.kExpectHeaders, r⟩ (render (headers.map Header.line) ++ (crlf ++ rest)) true
      ⟨.kGotAll, addHeaders r headers⟩ rest := by
  induction headers generalizing r with
  | nil =>
    have hempty : Buffer.searchCRLF [] = none := rfl
    have hdone : Parses receiveTime ⟨.kExpectHeaders, r⟩ ([] ++ crlf ++ rest) true
        ⟨.kGotAll, r⟩ (([] ++ crlf ++ rest).drop 2) :=
      Parses.done rfl (Buffer.searchCRLF_line hempty rest) rfl
    exact hdone
  | cons h headers ih =>
    rw [List.map_cons, render_cons_append]
    have hcolon := h.splitFirst_line
    rw [← take_line h.line (render (headers.map Header.line) ++ (crlf ++ rest))] at hcolon
    refine Parses.header rfl (Buffer.searchCRLF_line h.searchCRLF_line _) hcolon ?_
    rw [drop_line, h.addHeader_eq]
    exact ih _

theorem parses_text (receiveTime : ℤ) (m : Message) (rest : Bytes) :
    Parses receiveTime new (m.text ++ rest) true
      ⟨.kGotAll, addHeaders { m.request with receiveTime := receiveTime } m.headers⟩ rest := by
  rw [Message.text, List.append_assoc, render_cons_append]
  have hline := m.processRequestLine_eq
  rw [← take_line m.requestLine (render (m.headers.map Header.line) ++ (crlf ++ rest))] at hline
  refine Parses.line rfl (Buffer.searchCRLF_line m.searchCRLF_requestLine _) hline ?_
  rw [drop_line]
  exact parses_headers receiveTime _ m.headers rest

/-- Adding headers changes nothing else. -/
theorem addHeaders_eq (r : HttpRequest) (headers : List Header) :
    addHeaders r headers = { r with headers := (addHeaders r headers).headers } := by
  induction headers generalizing r with
  | nil => rfl
  | cons h headers ih =>
    have hrest := ih { r with headers := Function.update r.headers h.field (some h.value) }
    exact hrest

theorem addHeaders_concat (r : HttpRequest) (headers : List Header) (h : Header) :
    (addHeaders r (headers ++ [h])).headers =
      Function.update (addHeaders r headers).headers h.field (some h.value) := by
  rw [addHeaders, List.foldl_append]
  rfl

/-- The last header with a field is the one that stays. -/
theorem getHeader_addHeaders {r : HttpRequest} (hr : ∀ field, r.headers field = none)
    (headers : List Header) (field : Bytes) :
    (addHeaders r headers).getHeader field =
      match headers.reverse.find? fun h => h.field = field with
      | some h => h.value
      | none => [] := by
  unfold HttpRequest.getHeader
  induction headers using List.reverseRecOn with
  | nil => rw [show addHeaders r [] = r from rfl, hr]; rfl
  | append_singleton headers h ih =>
    rw [addHeaders_concat, List.reverse_append, List.reverse_singleton, List.singleton_append,
      List.find?_cons]
    by_cases hfield : h.field = field
    · subst hfield
      rw [Function.update_self, decide_eq_true rfl]
      rfl
    · rw [Function.update_of_ne (Ne.symm hfield), decide_eq_false hfield]
      exact ih

/-- A request is read back as it was meant, and the bytes behind it stay in the buffer. -/
theorem request_round_trip (m : Message) (rest : Bytes) (receiveTime : ℤ) (buf : Buffer)
    (hwf : buf.Wf) (hread : buf.readable = m.text ++ rest) :
    ∃ ctx buf', new.parseRequest buf receiveTime = .ok (true, ctx, buf') ∧ ctx.gotAll = true ∧
      ctx.request.method = m.method ∧ ctx.request.version = m.version ∧
      ctx.request.path = m.path ∧ ctx.request.query = m.query ∧
      (∀ field, ctx.request.getHeader field = m.lastValue field) ∧ buf'.readable = rest := by
  have hparses := parses_text receiveTime m rest
  rw [← hread] at hparses
  obtain ⟨buf', hcall, -, hrest⟩ := hparses.parseRequest hwf
  have hkept := addHeaders_eq { m.request with receiveTime := receiveTime } m.headers
  refine ⟨_, buf', hcall, rfl, ?_, ?_, ?_, ?_, fun field => ?_, hrest⟩
  · rw [hkept]
    rfl
  · rw [hkept]
    rfl
  · rw [hkept]
    rfl
  · rw [hkept]
    rfl
  · exact getHeader_addHeaders (fun _ => rfl) m.headers field

/-- A field that comes twice, a value with a colon and spaces inside, and an empty value. -/
def sampleMessage : Message where
  method := .kPost
  version := .kHttp10
  path := ascii "/a:b"
  query := ascii "?q=?"
  headers := [⟨ascii "Host", ascii " ", ascii "old", [], by decide +kernel, by decide +kernel,
      by decide +kernel, by decide +kernel, by decide +kernel⟩,
    ⟨ascii "Host", [], ascii "a: b", ascii " \t", by decide +kernel, by decide +kernel,
      by decide +kernel, by decide +kernel, by decide +kernel⟩,
    ⟨ascii "X", ascii "  ", [], [], by decide +kernel, by decide +kernel,
      by decide +kernel, by decide +kernel, by decide +kernel⟩]
  method_ok := by decide
  version_ok := by decide
  path_ok := by decide
  query_start := by decide
  query_ok := by decide

theorem request_round_trip_sampleMessage :
    ∃ buf ctx buf', Buffer.empty.append (sampleMessage.text ++ ascii "GET") = .ok buf ∧
      new.parseRequest buf 7 = .ok (true, ctx, buf') ∧
      ctx.request.getHeader (ascii "Host") = ascii "a: b" ∧
      ctx.request.getHeader (ascii "Accept") = [] ∧ buf'.readable = ascii "GET" := by
  obtain ⟨buf, happend, hwf, hread⟩ := Buffer.wf_empty.append (sampleMessage.text ++ ascii "GET")
  rw [Buffer.readable_empty, List.nil_append] at hread
  obtain ⟨ctx, buf', hcall, -, -, -, -, -, hheader, hrest⟩ :=
    request_round_trip sampleMessage (ascii "GET") 7 buf hwf hread
  refine ⟨buf, ctx, buf', happend, hcall, ?_, ?_, hrest⟩
  · rw [hheader]
    decide
  · rw [hheader]
    decide

end HttpContext

end Reactor
