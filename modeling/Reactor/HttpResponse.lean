import Reactor.Buffer
import Reactor.Decimal
import Mathlib.Data.List.TakeDrop
import Mathlib.Data.List.Forall2

/-!
# HttpResponse

A response on a connection that is kept open tells the length of its body in the `Content-Length`
line.  The length is that of the `std::string`; the strings of the response are appended as
`StringPiece`s, which end at the first NUL and whose length is an `int`.

* `framed_iff`: a client that reads responses by `Content-Length` gets their bodies exactly when no
  body has a NUL or 2^31 bytes, and no other string has a length that is negative as an `int`.
-/

namespace Reactor

/-- `HttpResponse::HttpStatusCode` -/
inductive HttpStatusCode where
  | kUnknown
  | k200OK
  | k301MovedPermanently
  | k400BadRequest
  | k404NotFound
  deriving DecidableEq, Repr

/-- The numbers of the enumeration; two of them are the same. -/
def HttpStatusCode.toNat : HttpStatusCode → ℕ
  | .kUnknown => 0
  | .k200OK => 200
  | .k301MovedPermanently => 301
  | .k400BadRequest => 400
  | .k404NotFound => 400

/-- `HttpResponse`.  The headers are a `std::map`, here its entries in the order of the keys. -/
structure HttpResponse where
  headers : List (Bytes × Bytes)
  statusCode : HttpStatusCode
  statusMessage : Bytes
  closeConnection : Bool
  body : Bytes
  deriving DecidableEq, Repr

namespace HttpResponse

def new (close : Bool) : HttpResponse := ⟨[], .kUnknown, [], close, []⟩

/-- `headers[key] = value`: the entry is replaced, or inserted before the first greater key. -/
def assign (key value : Bytes) : List (Bytes × Bytes) → List (Bytes × Bytes)
  | [] => [(key, value)]
  | header :: headers =>
    if header.1 = key then (key, value) :: headers
    else if key < header.1 then (key, value) :: header :: headers
    else header :: assign key value headers

def addHeader (r : HttpResponse) (key value : Bytes) : HttpResponse :=
  { r with headers := assign key value r.headers }

def setContentType (r : HttpResponse) (contentType : Bytes) : HttpResponse :=
  r.addHeader (ascii "Content-Type") contentType

/-- `output->append(str)`: the string is converted to a `StringPiece`. -/
def appendString (output : Buffer) (str : Bytes) : Except Fault Buffer :=
  output.appendPiece (.ofString str)

def appendHeader (output : Buffer) (header : Bytes × Bytes) : Except Fault Buffer := do
  let output ← appendString output header.1
  let output ← appendString output (ascii ": ")
  let output ← appendString output header.2
  appendString output crlf

def appendToBuffer (r : HttpResponse) (output : Buffer) : Except Fault Buffer := do
  let buf := snprintf 32 (ascii "HTTP/1.1 " ++ decimal r.statusCode.toNat ++ ascii " ")
  let output ← appendString output buf
  let output ← appendString output r.statusMessage
  let output ← appendString output crlf
  let output ←
    if r.closeConnection then appendString output (ascii "Connection: close\r\n")
    else do
      let buf := snprintf 32 (ascii "Content-Length: " ++ decimal r.body.length ++ crlf)
      let output ← appendString output buf
      appendString output (ascii "Connection: Keep-Alive\r\n")
  let output ← r.headers.foldlM appendHeader output
  let output ← appendString output crlf
  appendString output r.body

/-! ## A client -/

/-- The lines in front of the empty line, and the bytes behind it. -/
def readHead : ℕ → Bytes → Option (List Bytes × Bytes)
  | 0, _ => none
  | fuel + 1, s =>
    match Buffer.searchCRLF s with
    | none => none
    | some 0 => some ([], s.drop 2)
    | some (n + 1) =>
      (readHead fuel (s.drop (n + 3))).map fun p => (s.take (n + 1) :: p.1, p.2)

/-- The number in the first `Content-Length` line. -/
def contentLength (lines : List Bytes) : Option ℕ := do
  let line ← lines.find? fun line => (ascii "Content-Length: ").isPrefixOf line
  let digits := line.drop (ascii "Content-Length: ").length
  if digits ≠ [] ∧ digits.all isdigit then some (ofDecimal digits) else none

/-- The body of the response at the front of the stream, and the rest of the stream. -/
def readBody (s : Bytes) : Option (Bytes × Bytes) := do
  let (lines, s) ← readHead s.length s
  let length ← contentLength lines
  if length ≤ s.length then some (s.take length, s.drop length) else none

def readBodies : ℕ → Bytes → Option (List Bytes × Bytes)
  | 0, s => some ([], s)
  | k + 1, s => do
    let (body, s) ← readBody s
    let (bodies, s) ← readBodies k s
    return (body :: bodies, s)

/-! ## The specification -/

/-- The strings of the head, and a body whose length the `Content-Length` line can tell. -/
structure KeepAlive (r : HttpResponse) : Prop where
  closeConnection : r.closeConnection = false
  statusMessage : 13 ∉ r.statusMessage ∧ 10 ∉ r.statusMessage
  headers : ∀ header ∈ r.headers, (13 ∉ header.1 ∧ 10 ∉ header.1) ∧ 13 ∉ header.2 ∧ 10 ∉ header.2
  body : r.body.length < 10 ^ 12

/-- Whatever the buffer holds, these bytes are appended. -/
def Appends (r : HttpResponse) (text : Bytes) : Prop :=
  ∀ output : Buffer, output.Wf →
    ∃ output', r.appendToBuffer output = .ok output' ∧ output'.Wf ∧
      output'.readable = output.readable ++ text

/-- A line of the head. -/
structure Line (line : Bytes) : Prop where
  ne_nil : line ≠ []
  cr : 13 ∉ line
  lf : 10 ∉ line

/-- A status line, header lines and an empty line, followed by the body and nothing else; the
`Content-Length` line has the length of the body. -/
def WellFramed (code : HttpStatusCode) (text body : Bytes) : Prop :=
  ∃ message headers,
    let status := ascii "HTTP/1.1 " ++ decimal code.toNat ++ ascii " " ++ message
    text = render (status :: headers) ++ crlf ++ body ∧
      (∀ line ∈ status :: headers, Line line) ∧ (∀ header ∈ headers, 58 ∈ header) ∧
      contentLength headers = some body.length

/-- Every response is well framed, and a client recovers the bodies of all of them. -/
def Framed (rs : List HttpResponse) : Prop :=
  ∃ texts, List.Forall₂ (fun r text => r.Appends text ∧ WellFramed r.statusCode text r.body) rs texts ∧
    ∀ rest, readBodies rs.length (texts.flatten ++ rest) = some (rs.map body, rest)

/-- The length of the string, up to the first NUL, is not negative as an `int`. -/
def Fits (str : Bytes) : Prop := 0 ≤ intOfSize (cString str).length

/-- The body is appended as a whole, and the other strings do not end the process. -/
structure Sound (r : HttpResponse) : Prop where
  body : 0 ∉ r.body ∧ r.body.length < 2 ^ 31
  statusMessage : Fits r.statusMessage
  headers : ∀ header ∈ r.headers, Fits header.1 ∧ Fits header.2

/-! ## Appending strings -/

/-- What arrives of a string. -/
def sent (str : Bytes) : Bytes := str.take (intOfSize (cString str).length).toNat

theorem intOfSize_le (n : ℕ) : intOfSize n ≤ n := by
  unfold intOfSize Int.bmod
  dsimp only
  split <;> omega

theorem appendString_of_fits {output : Buffer} (h : output.Wf) {str : Bytes} (hfits : Fits str) :
    ∃ output', appendString output str = .ok output' ∧ output'.Wf ∧
      output'.readable = output.readable ++ sent str := by
  have hle : intOfSize (cString str).length ≤ str.length :=
    (intOfSize_le _).trans (by exact_mod_cast (cString_prefix_self str).length_le)
  have hread : (StringPiece.ofString str).read = .ok (sent str) := by
    unfold Fits at hfits
    unfold StringPiece.read StringPiece.ofString
    dsimp only
    rw [if_pos ⟨hfits, hle⟩, sent]
  unfold appendString Buffer.appendPiece
  rw [hread, ok_bind]
  exact h.append (sent str)

theorem appendString_of_not_fits (output : Buffer) {str : Bytes} (hfits : ¬ Fits str) :
    appendString output str = .error .outOfBounds := by
  have hread : (StringPiece.ofString str).read = .error .outOfBounds := by
    unfold Fits at hfits
    unfold StringPiece.read StringPiece.ofString
    dsimp only
    rw [if_neg fun h => hfits h.1]
  unfold appendString Buffer.appendPiece
  rw [hread]
  rfl

theorem appendStrings_of_fits {output : Buffer} (h : output.Wf) {strs : List Bytes}
    (hfits : ∀ str ∈ strs, Fits str) :
    ∃ output', strs.foldlM appendString output = .ok output' ∧ output'.Wf ∧
      output'.readable = output.readable ++ strs.flatMap sent := by
  induction strs generalizing output with
  | nil => exact ⟨output, rfl, h, (List.append_nil _).symm⟩
  | cons str strs ih =>
    obtain ⟨output₁, happ, hwf₁, hread₁⟩ := appendString_of_fits h (hfits str List.mem_cons_self)
    obtain ⟨output₂, hrest, hwf₂, hread₂⟩ :=
      ih hwf₁ fun str' hstr' => hfits str' (List.mem_cons_of_mem str hstr')
    refine ⟨output₂, ?_, hwf₂, ?_⟩
    · rw [List.foldlM_cons, happ, ok_bind, hrest]
    · rw [hread₂, hread₁, List.flatMap_cons, List.append_assoc]

theorem fits_of_appendStrings {output output' : Buffer} {strs : List Bytes}
    (h : strs.foldlM appendString output = .ok output') : ∀ str ∈ strs, Fits str := by
  induction strs generalizing output with
  | nil =>
    intro str hstr
    cases hstr
  | cons str strs ih =>
    rw [List.foldlM_cons] at h
    obtain ⟨output₁, happ, hrest⟩ := bind_eq_ok.1 h
    have hfits : Fits str := by
      by_contra hnot
      rw [appendString_of_not_fits output hnot] at happ
      cases happ
    intro str' hstr'
    rcases List.mem_cons.1 hstr' with rfl | hmem
    · exact hfits
    · exact ih hrest str' hmem

theorem fits_of_lt {str : Bytes} (h : str.length < 2 ^ 31) : Fits str := by
  have hle := (cString_prefix_self str).length_le
  rw [Fits, intOfSize_of_lt (by omega)]
  exact Int.natCast_nonneg _

/-- A string arrives as a whole exactly when it has no NUL and its length is an `int`. -/
theorem sent_eq_self_iff {str : Bytes} : sent str = str ↔ 0 ∉ str ∧ str.length < 2 ^ 31 := by
  constructor
  · intro h
    have hcut := (cString_prefix_self str).length_le
    have hint := intOfSize_le (cString str).length
    have hlen : str.length ≤ (intOfSize (cString str).length).toNat := by
      exact (List.take_eq_self_iff str).1 h
    have hwhole : (cString str).length = str.length := by omega
    refine ⟨cString_eq_self_iff.1 ((cString_prefix_self str).eq_of_length hwhole), ?_⟩
    rw [hwhole] at hlen
    unfold intOfSize Int.bmod at hlen
    dsimp only at hlen
    split at hlen <;> omega
  · rintro ⟨hzero, hlen⟩
    rw [sent, cString_eq_self_iff.2 hzero, intOfSize_of_lt hlen, Int.toNat_natCast, List.take_length]

/-- What arrives of a string is a part of it. -/
theorem mem_of_mem_sent {str : Bytes} {b : Byte} (h : b ∈ sent str) : b ∈ str :=
  List.mem_of_mem_take h

/-! ## The text of a response -/

/-- The strings that are appended, one after the other. -/
def pieces (r : HttpResponse) : List Bytes :=
  [snprintf 32 (ascii "HTTP/1.1 " ++ decimal r.statusCode.toNat ++ ascii " "), r.statusMessage, crlf,
    snprintf 32 (ascii "Content-Length: " ++ decimal r.body.length ++ crlf),
    ascii "Connection: Keep-Alive\r\n"] ++
  (r.headers.flatMap fun header => [header.1, ascii ": ", header.2, crlf]) ++ [crlf, r.body]

theorem foldlM_appendHeader (headers : List (Bytes × Bytes)) (output : Buffer) :
    headers.foldlM appendHeader output =
      (headers.flatMap fun header => [header.1, ascii ": ", header.2, crlf]).foldlM appendString
        output := by
  induction headers generalizing output with
  | nil => rfl
  | cons header headers ih =>
    rw [List.foldlM_cons, List.flatMap_cons, List.foldlM_append]
    have hheader : [header.1, ascii ": ", header.2, crlf].foldlM appendString output =
        appendHeader output header := by
      simp only [List.foldlM_cons, List.foldlM_nil, appendHeader, bind_pure]
    rw [hheader]
    exact bind_congr ih

theorem appendToBuffer_eq {r : HttpResponse} (h : r.closeConnection = false) (output : Buffer) :
    r.appendToBuffer output = r.pieces.foldlM appendString output := by
  unfold appendToBuffer pieces
  simp only [h, Bool.false_eq_true, if_false, List.foldlM_append, List.foldlM_cons, List.foldlM_nil,
    bind_pure, bind_assoc, foldlM_appendHeader]

/-- The status line and the header lines, as they arrive. -/
def headerLines (r : HttpResponse) : List Bytes :=
  (ascii "Content-Length: " ++ decimal r.body.length) :: ascii "Connection: Keep-Alive" ::
    r.headers.map fun header => sent header.1 ++ ascii ": " ++ sent header.2

def statusLine (r : HttpResponse) : Bytes :=
  ascii "HTTP/1.1 " ++ decimal r.statusCode.toNat ++ ascii " " ++ sent r.statusMessage

/-- The 32 bytes of `buf` hold both formatted lines, and neither has a NUL. -/
theorem sent_snprintf {text : Bytes} (hlen : text.length ≤ 31) (hzero : 0 ∉ text) :
    Fits (snprintf 32 text) ∧ sent (snprintf 32 text) = text := by
  have hcut : snprintf 32 text = text := List.take_of_length_le hlen
  rw [hcut]
  exact ⟨fits_of_lt (by omega), sent_eq_self_iff.2 ⟨hzero, by omega⟩⟩

theorem zero_notMem_decimal (n : ℕ) : 0 ∉ decimal n := by
  intro h
  exact absurd (digit_of_mem_decimal h).1 (by decide)

theorem sent_status (code : HttpStatusCode) :
    Fits (snprintf 32 (ascii "HTTP/1.1 " ++ decimal code.toNat ++ ascii " ")) ∧
      sent (snprintf 32 (ascii "HTTP/1.1 " ++ decimal code.toNat ++ ascii " ")) =
        ascii "HTTP/1.1 " ++ decimal code.toNat ++ ascii " " := by
  have hnum : (decimal code.toNat).length ≤ 3 :=
    length_decimal_le (by decide) (by cases code <;> decide)
  have hfront : (ascii "HTTP/1.1 ").length = 9 := by decide
  have hback : (ascii " ").length = 1 := by decide
  refine sent_snprintf ?_ ?_
  · simp only [List.length_append, hfront, hback]
    omega
  · simp only [List.mem_append, not_or]
    exact ⟨⟨by decide, zero_notMem_decimal _⟩, by decide⟩

theorem sent_contentLength {n : ℕ} (h : n < 10 ^ 12) :
    Fits (snprintf 32 (ascii "Content-Length: " ++ decimal n ++ crlf)) ∧
      sent (snprintf 32 (ascii "Content-Length: " ++ decimal n ++ crlf)) =
        ascii "Content-Length: " ++ decimal n ++ crlf := by
  have hnum : (decimal n).length ≤ 12 := length_decimal_le (by decide) h
  have hfront : (ascii "Content-Length: ").length = 16 := by decide
  have hback : crlf.length = 2 := by decide
  refine sent_snprintf ?_ ?_
  · simp only [List.length_append, hfront, hback]
    omega
  · simp only [List.mem_append, not_or]
    exact ⟨⟨by decide, zero_notMem_decimal _⟩, by decide⟩

theorem sent_crlf : sent crlf = crlf := by decide

theorem flatMap_sent_headers (headers : List (Bytes × Bytes)) :
    (headers.flatMap fun header => [header.1, ascii ": ", header.2, crlf]).flatMap sent =
      render (headers.map fun header => sent header.1 ++ ascii ": " ++ sent header.2) := by
  have hcolon : sent (ascii ": ") = ascii ": " := by decide
  induction headers with
  | nil => simp only [List.flatMap_nil, List.map_nil, render]
  | cons header headers ih =>
    simp only [render, List.flatMap_cons, List.flatMap_append, List.map_cons, List.flatMap_nil,
      List.append_nil, hcolon, sent_crlf, List.append_assoc] at ih ⊢
    rw [ih]

/-- The text of a response: its lines, the empty line, and what arrives of the body. -/
theorem flatMap_sent_pieces {r : HttpResponse} (h : r.KeepAlive) :
    r.pieces.flatMap sent = render (r.statusLine :: r.headerLines) ++ crlf ++ sent r.body := by
  have halive : sent (ascii "Connection: Keep-Alive\r\n") = ascii "Connection: Keep-Alive" ++ crlf := by
    decide
  unfold pieces statusLine headerLines
  simp only [List.flatMap_append, flatMap_sent_headers, List.flatMap_cons, List.flatMap_nil,
    List.append_nil, (sent_status r.statusCode).2, (sent_contentLength h.body).2, sent_crlf, halive]
  simp only [render, List.flatMap_cons, List.append_assoc]

theorem fits_pieces_iff {r : HttpResponse} (h : r.KeepAlive) :
    (∀ str ∈ r.pieces, Fits str) ↔ Fits r.statusMessage ∧ Fits r.body ∧
      ∀ header ∈ r.headers, Fits header.1 ∧ Fits header.2 := by
  have hcrlf : Fits crlf := fits_of_lt (by decide)
  have halive : Fits (ascii "Connection: Keep-Alive\r\n") := fits_of_lt (by decide)
  have hcolon : Fits (ascii ": ") := fits_of_lt (by decide)
  unfold pieces
  simp only [List.mem_append, List.mem_cons, List.not_mem_nil, or_false, List.mem_flatMap]
  constructor
  · intro hall
    refine ⟨hall _ (by simp), hall _ (by simp), fun header hheader => ⟨?_, ?_⟩⟩
    · exact hall _ (Or.inl (Or.inr ⟨header, hheader, Or.inl rfl⟩))
    · exact hall _ (Or.inl (Or.inr ⟨header, hheader, by simp⟩))
  · rintro ⟨hmessage, hbody, hheaders⟩ str
      (((rfl | rfl | rfl | rfl | rfl) | ⟨header, hheader, rfl | rfl | rfl | rfl⟩) | (rfl | rfl))
    · exact (sent_status _).1
    · exact hmessage
    · exact hcrlf
    · exact (sent_contentLength h.body).1
    · exact halive
    · exact (hheaders header hheader).1
    · exact hcolon
    · exact (hheaders header hheader).2
    · exact hcrlf
    · exact hcrlf
    · exact hbody

/-- A response is appended as a whole or not at all. -/
theorem appends_iff {r : HttpResponse} (h : r.KeepAlive) {text : Bytes} :
    r.Appends text ↔ (∀ str ∈ r.pieces, Fits str) ∧
      text = render (r.statusLine :: r.headerLines) ++ crlf ++ sent r.body := by
  rw [← flatMap_sent_pieces h]
  constructor
  · intro happ
    obtain ⟨output', hout, -, hread⟩ := happ Buffer.empty Buffer.wf_empty
    rw [appendToBuffer_eq h.closeConnection] at hout
    have hfits := fits_of_appendStrings hout
    obtain ⟨output'', hout', -, hread'⟩ := appendStrings_of_fits Buffer.wf_empty hfits
    obtain rfl : output' = output'' := Except.ok.inj (hout.symm.trans hout')
    rw [hread, Buffer.readable_empty, List.nil_append, List.nil_append] at hread'
    exact ⟨hfits, hread'⟩
  · rintro ⟨hfits, htext⟩ output hwf
    rw [htext]
    rw [appendToBuffer_eq h.closeConnection]
    exact appendStrings_of_fits hwf hfits

/-! ## Reading responses -/

theorem length_render_ge (lines : List Bytes) : lines.length ≤ (render lines).length := by
  have hcrlf : crlf.length = 2 := by decide
  induction lines with
  | nil => exact Nat.zero_le _
  | cons line lines ih =>
    simp only [render, List.flatMap_cons, List.length_append, List.length_cons, hcrlf] at ih ⊢
    omega

theorem readHead_render {lines : List Bytes} (h : ∀ line ∈ lines, Line line) (rest : Bytes) {fuel : ℕ}
    (hfuel : lines.length < fuel) :
    readHead fuel (render lines ++ crlf ++ rest) = some (lines, rest) := by
  induction lines generalizing fuel with
  | nil =>
    cases fuel with
    | zero => cases hfuel
    | succ fuel => rfl
  | cons line lines ih =>
    cases fuel with
    | zero => cases hfuel
    | succ fuel =>
      have hline := h line List.mem_cons_self
      obtain ⟨n, hn⟩ : ∃ n, line.length = n + 1 :=
        Nat.exists_eq_succ_of_ne_zero fun hzero => hline.ne_nil (List.length_eq_zero_iff.1 hzero)
      have hsplit : render (line :: lines) ++ crlf ++ rest =
          line ++ crlf ++ (render lines ++ crlf ++ rest) := by
        simp only [render, List.flatMap_cons, List.append_assoc]
      have hsearch := Buffer.searchCRLF_line (Buffer.searchCRLF_of_notMem hline.cr) (render lines ++ crlf ++ rest)
      rw [hn] at hsearch
      have hdrop : (line ++ crlf ++ (render lines ++ crlf ++ rest)).drop (n + 3) =
          render lines ++ crlf ++ rest := by
        have hfront : (line ++ crlf).length = n + 3 := by
          rw [List.length_append, hn]
          rfl
        rw [← hfront, List.drop_left]
      have htake : (line ++ crlf ++ (render lines ++ crlf ++ rest)).take (n + 1) = line := by
        rw [← hn, List.append_assoc, List.take_left]
      rw [hsplit, readHead, hsearch]
      dsimp only
      rw [hdrop, htake, ih (fun line' hline' => h line' (List.mem_cons_of_mem line hline'))
        (Nat.lt_of_succ_lt_succ hfuel)]
      rfl

theorem lt_length_render (lines : List Bytes) (rest : Bytes) :
    lines.length < (render lines ++ crlf ++ rest).length := by
  have hlen := length_render_ge lines
  have hcrlf : crlf.length = 2 := by decide
  simp only [List.length_append, hcrlf]
  omega

/-- A text has one head and one body. -/
theorem body_unique {lines lines' : List Bytes} {body body' : Bytes}
    (h : ∀ line ∈ lines, Line line) (h' : ∀ line ∈ lines', Line line)
    (heq : render lines ++ crlf ++ body = render lines' ++ crlf ++ body') : body = body' := by
  have hread := readHead_render h body (lt_length_render lines body)
  rw [heq, readHead_render h' body' (lt_length_render lines' body')] at hread
  exact (Prod.mk.inj (Option.some.inj hread)).2.symm

/-- The status line is not a `Content-Length` line. -/
theorem contentLength_status (code : HttpStatusCode) (message : Bytes) (headers : List Bytes) :
    contentLength ((ascii "HTTP/1.1 " ++ decimal code.toNat ++ ascii " " ++ message) :: headers) =
      contentLength headers := by
  unfold contentLength
  rw [List.find?_cons_of_neg (by simp [ascii])]

theorem WellFramed.readBody {code : HttpStatusCode} {text body : Bytes} (h : WellFramed code text body)
    (rest : Bytes) : readBody (text ++ rest) = some (body, rest) := by
  obtain ⟨message, headers, rfl, hlines, -, hlength⟩ := h
  rw [List.append_assoc, HttpResponse.readBody,
    readHead_render hlines (body ++ rest) (lt_length_render _ _)]
  simp only [Option.bind_eq_bind, Option.bind_some, contentLength_status, hlength]
  rw [if_pos (by rw [List.length_append]; omega), List.take_left, List.drop_left]

theorem readBodies_of_wellFramed {rs : List HttpResponse} {texts : List Bytes}
    (h : List.Forall₂ (fun r text => WellFramed r.statusCode text r.body) rs texts) (rest : Bytes) :
    readBodies rs.length (texts.flatten ++ rest) = some (rs.map body, rest) := by
  induction h with
  | nil => rfl
  | cons hframed _ ih =>
    rw [List.length_cons, List.flatten_cons, List.append_assoc, readBodies, hframed.readBody]
    simp only [Option.bind_eq_bind, Option.bind_some, ih]
    rfl

/-! ## Framing -/

theorem Line.append {front back : Bytes} (hfront : Line front) (hback : 13 ∉ back ∧ 10 ∉ back) :
    Line (front ++ back) where
  ne_nil := fun h => hfront.ne_nil (List.append_eq_nil_iff.1 h).1
  cr := fun h => (List.mem_append.1 h).elim hfront.cr hback.1
  lf := fun h => (List.mem_append.1 h).elim hfront.lf hback.2

theorem cr_lf_notMem_decimal (n : ℕ) : 13 ∉ decimal n ∧ 10 ∉ decimal n :=
  ⟨fun h => absurd (digit_of_mem_decimal h).1 (by decide),
    fun h => absurd (digit_of_mem_decimal h).1 (by decide)⟩

theorem cr_lf_notMem_sent {str : Bytes} (h : 13 ∉ str ∧ 10 ∉ str) : 13 ∉ sent str ∧ 10 ∉ sent str :=
  ⟨fun hmem => h.1 (mem_of_mem_sent hmem), fun hmem => h.2 (mem_of_mem_sent hmem)⟩

theorem KeepAlive.line {r : HttpResponse} (h : r.KeepAlive) :
    ∀ line ∈ r.statusLine :: r.headerLines, Line line := by
  have hstatus : Line (ascii "HTTP/1.1 ") := ⟨by decide, by decide, by decide⟩
  have hlength : Line (ascii "Content-Length: ") := ⟨by decide, by decide, by decide⟩
  have hcolon : 13 ∉ ascii ": " ∧ 10 ∉ ascii ": " := by decide
  intro line hline
  rcases List.mem_cons.1 hline with rfl | hline
  · exact ((hstatus.append (cr_lf_notMem_decimal _)).append (by decide)).append
      (cr_lf_notMem_sent h.statusMessage)
  rcases List.mem_cons.1 hline with rfl | hline
  · exact hlength.append (cr_lf_notMem_decimal _)
  rcases List.mem_cons.1 hline with rfl | hline
  · exact ⟨by decide, by decide, by decide⟩
  · obtain ⟨header, hheader, rfl⟩ := List.mem_map.1 hline
    obtain ⟨hkey, hvalue⟩ := h.headers header hheader
    refine ⟨by simp [ascii], ?_, ?_⟩ <;> simp only [List.mem_append, not_or]
    · exact ⟨⟨(cr_lf_notMem_sent hkey).1, hcolon.1⟩, (cr_lf_notMem_sent hvalue).1⟩
    · exact ⟨⟨(cr_lf_notMem_sent hkey).2, hcolon.2⟩, (cr_lf_notMem_sent hvalue).2⟩

theorem colon_mem_headerLines (r : HttpResponse) : ∀ header ∈ r.headerLines, 58 ∈ header := by
  have hcolon : 58 ∈ ascii ": " := by decide
  intro line hline
  rcases List.mem_cons.1 hline with rfl | hline
  · exact List.mem_append_left _ (by decide)
  rcases List.mem_cons.1 hline with rfl | hline
  · decide
  · obtain ⟨header, -, rfl⟩ := List.mem_map.1 hline
    exact List.mem_append_left _ (List.mem_append_right _ hcolon)

theorem contentLength_headerLines (r : HttpResponse) :
    contentLength r.headerLines = some r.body.length := by
  have hline : (ascii "Content-Length: ").isPrefixOf
      (ascii "Content-Length: " ++ decimal r.body.length) = true :=
    List.isPrefixOf_iff_prefix.2 (List.prefix_append _ _)
  unfold contentLength headerLines
  rw [List.find?_cons_of_pos hline]
  simp only [Option.bind_eq_bind, Option.bind_some]
  have hdigits : (decimal r.body.length).all isdigit = true :=
    List.all_eq_true.2 fun b hb => decide_eq_true (digit_of_mem_decimal hb)
  rw [List.drop_left, if_pos ⟨decimal_ne_nil _, hdigits⟩, ofDecimal_decimal]

/-- A response whose body arrives as a whole is well framed. -/
theorem wellFramed_of_sent {r : HttpResponse} (h : r.KeepAlive) (hbody : sent r.body = r.body) :
    WellFramed r.statusCode (render (r.statusLine :: r.headerLines) ++ crlf ++ sent r.body) r.body := by
  rw [hbody]
  exact ⟨sent r.statusMessage, r.headerLines, rfl, h.line, colon_mem_headerLines r,
    contentLength_headerLines r⟩

/-- The head of a text is found in one way only, so that a well-framed response has its whole body
behind it. -/
theorem sound_of_wellFramed {r : HttpResponse} (h : r.KeepAlive) {text : Bytes} (happ : r.Appends text)
    (hframed : WellFramed r.statusCode text r.body) : r.Sound := by
  obtain ⟨hfits, htext⟩ := (appends_iff h).1 happ
  obtain ⟨hmessage, -, hheaders⟩ := (fits_pieces_iff h).1 hfits
  obtain ⟨message, headers, htext', hlines, -, -⟩ := hframed
  have hbody : sent r.body = r.body := body_unique h.line hlines (htext.symm.trans htext')
  exact ⟨sent_eq_self_iff.1 hbody, hmessage, hheaders⟩

theorem framed_of_sound {r : HttpResponse} (h : r.KeepAlive) (hs : r.Sound) :
    r.Appends (render (r.statusLine :: r.headerLines) ++ crlf ++ sent r.body) ∧
      WellFramed r.statusCode (render (r.statusLine :: r.headerLines) ++ crlf ++ sent r.body) r.body := by
  have hfits := (fits_pieces_iff h).2 ⟨hs.statusMessage, fits_of_lt hs.body.2, hs.headers⟩
  exact ⟨(appends_iff h).2 ⟨hfits, rfl⟩, wellFramed_of_sent h (sent_eq_self_iff.2 hs.body)⟩

theorem sound_of_framed {rs : List HttpResponse} (h : ∀ r ∈ rs, r.KeepAlive) (hframed : Framed rs) :
    ∀ r ∈ rs, r.Sound := by
  obtain ⟨texts, hall, -⟩ := hframed
  induction hall with
  | nil =>
    intro r hr
    cases hr
  | cons hr _ ih =>
    intro r hmem
    rcases List.mem_cons.1 hmem with rfl | hmem
    · exact sound_of_wellFramed (h r List.mem_cons_self) hr.1 hr.2
    · exact ih (fun r' hr' => h r' (List.mem_cons_of_mem _ hr')) r hmem

theorem framed_iff (rs : List HttpResponse) (h : ∀ r ∈ rs, r.KeepAlive) :
    Framed rs ↔ ∀ r ∈ rs, r.Sound := by
  refine ⟨sound_of_framed h, fun hsound => ?_⟩
  have hall : List.Forall₂ (fun r text => r.Appends text ∧ WellFramed r.statusCode text r.body) rs
      (rs.map fun r => render (r.statusLine :: r.headerLines) ++ crlf ++ sent r.body) := by
    rw [List.forall₂_map_right_iff, List.forall₂_same]
    intro r hr
    exact framed_of_sound (h r hr) (hsound r hr)
  exact ⟨_, hall, readBodies_of_wellFramed (hall.imp fun _ _ hr => hr.2)⟩

/-- The response of the test server to `/hello`. -/
def hello : HttpResponse :=
  { (((new false).setContentType (ascii "text/plain")).addHeader (ascii "Server")
      (ascii "HttpServer")) with
    statusCode := .k200OK, statusMessage := ascii "OK", body := ascii "hello, world!\n" }

/-- The response of the test server to `/favicon.ico`, with the first bytes of the icon. -/
def favicon : HttpResponse :=
  { (new false).setContentType (ascii "image/png") with
    statusCode := .k200OK
    statusMessage := ascii "OK"
    body := [137, 80, 78, 71, 13, 10, 26, 10, 0, 0, 0, 13, 73, 72, 68, 82] }

theorem framed_iff_hello : (∀ r ∈ [hello, hello], r.KeepAlive) ∧ Framed [hello, hello] := by
  have hkeep : hello.KeepAlive := ⟨by decide, by decide, by decide, by decide⟩
  have hsound : hello.Sound := ⟨by decide, fits_of_lt (by decide), fun header hheader => by
    have hlen : ∀ header ∈ hello.headers, header.1.length < 2 ^ 31 ∧ header.2.length < 2 ^ 31 := by
      decide
    exact ⟨fits_of_lt (hlen header hheader).1, fits_of_lt (hlen header hheader).2⟩⟩
  have hall : ∀ r ∈ [hello, hello], r.KeepAlive := by
    simp only [List.mem_cons, List.not_mem_nil, or_false, or_self]
    rintro r rfl
    exact hkeep
  refine ⟨hall, (framed_iff _ hall).2 ?_⟩
  simp only [List.mem_cons, List.not_mem_nil, or_false, or_self]
  rintro r rfl
  exact hsound

/-- The body of the icon ends at its first NUL, the ninth byte. -/
theorem favicon_not_framed : (∀ r ∈ [favicon], r.KeepAlive) ∧ ¬ Framed [favicon] := by
  have hkeep : favicon.KeepAlive := ⟨by decide, by decide, by decide, by decide⟩
  have hall : ∀ r ∈ [favicon], r.KeepAlive := by
    simp only [List.mem_cons, List.not_mem_nil, or_false]
    rintro r rfl
    exact hkeep
  refine ⟨hall, fun hframed => ?_⟩
  exact (sound_of_framed hall hframed favicon List.mem_cons_self).body.1 (by decide)

end HttpResponse

end Reactor
