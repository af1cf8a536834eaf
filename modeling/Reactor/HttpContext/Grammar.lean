import Reactor.HttpContext.Chunks

/-!
# The grammar of requests

A request is a request line, header lines with a colon, and an empty line.  `parseRequest` takes the
first line without a colon for the end of the headers, whether it is empty or not, so it accepts
more than that.

* `Parses.outcome`: what a call on a fresh context has read, in terms of lines.
* `followsGrammar_iff`: the call accepts, refuses and waits as the grammar says, exactly when the
  first line without a colon is empty.
-/

namespace Reactor

namespace HttpContext

/-- A request line. -/
structure RequestLine (line : Bytes) : Prop where
  wellFormed : HttpRequest.WellFormedLine line
  no_crlf : ¬ crlf <:+: line

/-- A header line. -/
structure HeaderLine (line : Bytes) : Prop where
  colon : 58 ∈ line
  no_crlf : ¬ crlf <:+: line

/-- A whole request, without a body. -/
def IsRequest (text : Bytes) : Prop :=
  ∃ line headers, RequestLine line ∧ (∀ header ∈ headers, HeaderLine header) ∧
    text = render (line :: headers) ++ crlf

/-- The bytes begin with a request. -/
def Accepted (xs : Bytes) : Prop := ∃ request, IsRequest request ∧ request <+: xs

/-- The first line is complete and not a request line, or a later one, in front of the empty line, is
not empty and has no colon. -/
def Refused (xs : Bytes) : Prop :=
  (∃ line rest, ¬ crlf <:+: line ∧ ¬ HttpRequest.WellFormedLine line ∧ xs = line ++ crlf ++ rest) ∨
  ∃ line headers bad rest, (∀ l ∈ line :: (headers ++ [bad]), ¬ crlf <:+: l) ∧ [] ∉ headers ∧
    bad ≠ [] ∧ 58 ∉ bad ∧ xs = render (line :: headers) ++ (bad ++ crlf ++ rest)

/-- The outcome of a call that the grammar asks for. -/
structure Judged (xs : Bytes) (ok : Bool) (ctx : HttpContext) (rest : Bytes) : Prop where
  accepted : ok = true ∧ ctx.gotAll = true ↔ Accepted xs
  consumed : ∀ request, IsRequest request → request <+: xs → xs = request ++ rest
  refused : ok = false ↔ Refused xs
  waiting : ¬ Accepted xs → ¬ Refused xs → ok = true ∧ ctx.gotAll = false ∧
    ∃ lines, (∀ line ∈ lines, ¬ crlf <:+: line) ∧ ¬ crlf <:+: rest ∧ xs = render lines ++ rest

/-- A fresh context that is given the bytes at once does what the grammar asks for. -/
def FollowsGrammar (xs : Bytes) : Prop :=
  ∀ (receiveTime : ℤ) (buf : Buffer), buf.Wf → buf.readable = xs →
    ∃ ok ctx buf', new.parseRequest buf receiveTime = .ok (ok, ctx, buf') ∧ buf'.Wf ∧
      Judged xs ok ctx buf'.readable

/-- Behind a request line and header lines there is a line without a colon that is not empty. -/
def StrayLine (xs : Bytes) : Prop :=
  ∃ line headers stray rest, RequestLine line ∧ (∀ header ∈ headers, HeaderLine header) ∧
    ¬ crlf <:+: stray ∧ stray ≠ [] ∧ 58 ∉ stray ∧
    xs = render (line :: headers) ++ (stray ++ crlf ++ rest)

/-! ## What a call has read -/

variable {receiveTime : ℤ} {ctx ctx' : HttpContext} {xs rest : Bytes} {ok : Bool}

/-- Behind the request line: the header lines and the line that ends them, or no complete line more. -/
def ReadHeaders (xs : Bytes) (ctx : HttpContext) (rest : Bytes) : Prop :=
  ∃ headers, (∀ header ∈ headers, HeaderLine header) ∧
    (ctx.gotAll = true ∧ (∃ last, ¬ crlf <:+: last ∧ 58 ∉ last ∧
      xs = render headers ++ (last ++ crlf ++ rest)) ∨
    ctx.gotAll = false ∧ ¬ crlf <:+: rest ∧ xs = render headers ++ rest)

theorem ReadHeaders.cons {header : Bytes} (hheader : HeaderLine header)
    (h : ReadHeaders xs ctx rest) : ReadHeaders (header ++ crlf ++ xs) ctx rest := by
  obtain ⟨headers, hheaders, hread⟩ := h
  refine ⟨header :: headers, ?_, ?_⟩
  · intro line hline
    rcases List.mem_cons.1 hline with rfl | hline
    · exact hheader
    · exact hheaders line hline
  · rcases hread with ⟨hgot, last, hlast, hcolon, rfl⟩ | ⟨hgot, hrest, rfl⟩
    · refine Or.inl ⟨hgot, last, hlast, hcolon, ?_⟩
      rw [render_cons_append]
    · refine Or.inr ⟨hgot, hrest, ?_⟩
      rw [render_cons_append]

theorem Parses.readHeaders (h : Parses receiveTime ctx xs ok ctx' rest)
    (hstate : ctx.state = .kExpectHeaders) : ok = true ∧ ReadHeaders xs ctx' rest := by
  induction h with
  | noLine hline =>
    rw [hstate] at hline
    cases hline
  | badLine hline =>
    rw [hstate] at hline
    cases hline
  | line hline =>
    rw [hstate] at hline
    cases hline
  | noHeader _ hn =>
    refine ⟨rfl, [], fun _ h => (by cases h), Or.inr ⟨?_, Buffer.searchCRLF_eq_none.1 hn, rfl⟩⟩
    rw [gotAll, hstate]
    rfl
  | @header ctx xs n field value ok ctx' rest _ hn hcolon _ ih =>
    obtain ⟨hok, hread⟩ := ih hstate
    obtain ⟨hline, hcut⟩ := Buffer.searchCRLF_eq_some hn
    refine ⟨hok, ?_⟩
    rw [hcut]
    refine hread.cons ⟨?_, Buffer.searchCRLF_eq_none.1 hline⟩
    rw [(splitFirst_eq_some.1 hcolon).1]
    exact List.mem_append_right _ List.mem_cons_self
  | @done ctx xs n _ hn hcolon =>
    obtain ⟨hline, hcut⟩ := Buffer.searchCRLF_eq_some hn
    exact ⟨rfl, [], fun _ h => (by cases h), Or.inl ⟨rfl, xs.take n,
      Buffer.searchCRLF_eq_none.1 hline, splitFirst_eq_none.1 hcolon, hcut⟩⟩

theorem wellFormedLine_iff_of_processRequestLine {r r' : HttpRequest} (h : r.method = .kInvalid)
    {line : Bytes} (hproc : r.processRequestLine line = .ok (ok, r')) :
    ok = true ↔ HttpRequest.WellFormedLine line := by
  obtain ⟨ok', r'', hproc', hok, -⟩ := HttpRequest.processRequestLine_spec h line
  rw [hproc] at hproc'
  obtain ⟨rfl, -⟩ := Prod.mk.inj (Except.ok.inj hproc')
  exact hok

/-- A call on a fresh context has no line to read, or refuses the first one, or takes it and goes on
to the headers. -/
theorem Parses.outcome (h : Parses receiveTime new xs ok ctx' rest) :
    (ok = true ∧ ctx'.gotAll = false ∧ rest = xs ∧ ¬ crlf <:+: xs) ∨
    (ok = false ∧ ∃ line tail, ¬ crlf <:+: line ∧ ¬ HttpRequest.WellFormedLine line ∧
      xs = line ++ crlf ++ tail) ∨
    (ok = true ∧ ∃ line tail, RequestLine line ∧ xs = line ++ crlf ++ tail ∧
      ReadHeaders tail ctx' rest) := by
  generalize hctx : new = ctx at h
  cases h with
  | noLine _ hn =>
    subst hctx
    exact Or.inl ⟨rfl, rfl, rfl, Buffer.searchCRLF_eq_none.1 hn⟩
  | badLine _ hn hproc =>
    subst hctx
    obtain ⟨hline, hcut⟩ := Buffer.searchCRLF_eq_some hn
    have hformed := wellFormedLine_iff_of_processRequestLine (r := new.request) rfl hproc
    exact Or.inr (Or.inl ⟨rfl, _, _, Buffer.searchCRLF_eq_none.1 hline,
      fun h => (by cases hformed.2 h), hcut⟩)
  | line _ hn hproc hrest =>
    subst hctx
    obtain ⟨hline, hcut⟩ := Buffer.searchCRLF_eq_some hn
    have hformed := wellFormedLine_iff_of_processRequestLine (r := new.request) rfl hproc
    obtain ⟨hok, hread⟩ := hrest.readHeaders rfl
    exact Or.inr (Or.inr ⟨hok, _, _, ⟨hformed.1 rfl, Buffer.searchCRLF_eq_none.1 hline⟩, hcut, hread⟩)
  | noHeader hstate =>
    subst hctx
    cases hstate
  | header hstate =>
    subst hctx
    cases hstate
  | done hstate =>
    subst hctx
    cases hstate

/-! ## Lines are found in one way -/

theorem not_crlf_nil : ¬ crlf <:+: [] := by
  intro h
  exact absurd (List.eq_nil_of_infix_nil h) (by decide)

/-- The first line without a colon. -/
theorem last_unique {headers headers' : List Bytes} {last last' rest rest' : Bytes}
    (hheaders : ∀ header ∈ headers, HeaderLine header)
    (hheaders' : ∀ header ∈ headers', HeaderLine header)
    (hlast : ¬ crlf <:+: last ∧ 58 ∉ last) (hlast' : ¬ crlf <:+: last' ∧ 58 ∉ last')
    (heq : render headers ++ (last ++ crlf ++ rest) = render headers' ++ (last' ++ crlf ++ rest')) :
    last = last' ∧ rest = rest' := by
  induction headers generalizing headers' with
  | nil =>
    cases headers' with
    | nil => exact Buffer.line_unique hlast.1 hlast'.1 heq
    | cons header' headers' =>
      have hheader' := hheaders' header' List.mem_cons_self
      rw [render_cons_append] at heq
      obtain ⟨rfl, -⟩ := Buffer.line_unique hlast.1 hheader'.no_crlf heq
      exact absurd hheader'.colon hlast.2
  | cons header headers ih =>
    have hheader := hheaders header List.mem_cons_self
    rw [render_cons_append] at heq
    cases headers' with
    | nil =>
      obtain ⟨rfl, -⟩ := Buffer.line_unique hheader.no_crlf hlast'.1 heq
      exact absurd hheader.colon hlast'.2
    | cons header' headers' =>
      have hheader' := hheaders' header' List.mem_cons_self
      rw [render_cons_append] at heq
      obtain ⟨-, heq'⟩ := Buffer.line_unique hheader.no_crlf hheader'.no_crlf heq
      exact ih (fun l hl => hheaders l (List.mem_cons_of_mem header hl))
        (fun l hl => hheaders' l (List.mem_cons_of_mem header' hl)) heq'

/-- Header lines and an incomplete line have no line without a colon. -/
theorem not_last_of_open {headers headers' : List Bytes} {last rest rest' : Bytes}
    (hheaders' : ∀ header ∈ headers', HeaderLine header) (hheaders : ∀ header ∈ headers, HeaderLine header)
    (hlast : ¬ crlf <:+: last ∧ 58 ∉ last) (hrest' : ¬ crlf <:+: rest') :
    render headers ++ (last ++ crlf ++ rest) ≠ render headers' ++ rest' := by
  induction headers' generalizing headers with
  | nil =>
    intro heq
    refine hrest' ⟨render headers ++ last, rest, ?_⟩
    rw [render_nil, List.nil_append] at heq
    rw [← heq]
    simp only [List.append_assoc]
  | cons header' headers' ih =>
    intro heq
    have hheader' := hheaders' header' List.mem_cons_self
    rw [render_cons_append] at heq
    cases headers with
    | nil =>
      obtain ⟨rfl, -⟩ := Buffer.line_unique hlast.1 hheader'.no_crlf heq
      exact hlast.2 hheader'.colon
    | cons header headers =>
      have hheader := hheaders header List.mem_cons_self
      rw [render_cons_append] at heq
      obtain ⟨-, heq'⟩ := Buffer.line_unique hheader.no_crlf hheader'.no_crlf heq
      exact ih (fun l hl => hheaders' l (List.mem_cons_of_mem header' hl))
        (fun l hl => hheaders l (List.mem_cons_of_mem header hl)) heq'

/-- Among lines of which one has no colon there is a first one. -/
theorem exists_first_stray {headers : List Bytes} {bad : Bytes} (rest : Bytes)
    (hlines : ∀ l ∈ headers ++ [bad], ¬ crlf <:+: l) (hne : [] ∉ headers) (hbad : bad ≠ [])
    (hcolon : 58 ∉ bad) :
    ∃ front stray rest', (∀ header ∈ front, HeaderLine header) ∧ ¬ crlf <:+: stray ∧ stray ≠ [] ∧
      58 ∉ stray ∧ render headers ++ (bad ++ crlf ++ rest) = render front ++ (stray ++ crlf ++ rest') := by
  induction headers with
  | nil => exact ⟨[], bad, rest, fun _ h => (by cases h), hlines bad (by simp), hbad, hcolon, rfl⟩
  | cons header headers ih =>
    have hheader := hlines header (by simp)
    obtain ⟨hnil, hne⟩ := List.ne_and_not_mem_of_not_mem_cons hne
    by_cases hmem : 58 ∈ header
    · obtain ⟨front, stray, rest', hfront, hstray, hsne, hscolon, heq⟩ :=
        ih (fun l hl => hlines l (List.mem_cons_of_mem header hl)) hne
      refine ⟨header :: front, stray, rest', ?_, hstray, hsne, hscolon, ?_⟩
      · intro l hl
        rcases List.mem_cons.1 hl with rfl | hl
        · exact ⟨hmem, hheader⟩
        · exact hfront l hl
      · rw [render_cons_append, render_cons_append, heq]
    · exact ⟨[], header, render headers ++ (bad ++ crlf ++ rest), fun _ h => (by cases h), hheader,
        Ne.symm hnil, hmem, render_cons_append _ _ _⟩

/-- What is refused has a bad first line or a stray line. -/
theorem Refused.cases (h : Refused xs) :
    (∃ line rest, ¬ crlf <:+: line ∧ ¬ HttpRequest.WellFormedLine line ∧ xs = line ++ crlf ++ rest) ∨
      StrayLine xs := by
  rcases h with hfirst | ⟨line, headers, bad, rest, hlines, hne, hbad, hcolon, rfl⟩
  · exact Or.inl hfirst
  have hline := hlines line List.mem_cons_self
  by_cases hformed : HttpRequest.WellFormedLine line
  · obtain ⟨front, stray, rest', hfront, hstray, hsne, hscolon, heq⟩ := exists_first_stray rest
      (fun l hl => hlines l (List.mem_cons_of_mem line hl)) hne hbad hcolon
    refine Or.inr ⟨line, front, stray, rest', ⟨hformed, hline⟩, hfront, hstray, hsne, hscolon, ?_⟩
    rw [render_cons_append, heq, render_cons_append]
  · exact Or.inl ⟨line, _, hline, hformed, render_cons_append _ _ _⟩

theorem StrayLine.refused (h : StrayLine xs) : Refused xs := by
  obtain ⟨line, headers, stray, rest, hline, hheaders, hstray, hne, hcolon, rfl⟩ := h
  refine Or.inr ⟨line, headers, stray, rest, ?_, ?_, hne, hcolon, rfl⟩
  · intro l hl
    rcases List.mem_cons.1 hl with rfl | hl
    · exact hline.no_crlf
    rcases List.mem_append.1 hl with hl | hl
    · exact (hheaders l hl).no_crlf
    · obtain rfl := List.mem_singleton.1 hl
      exact hstray
  · intro hmem
    cases (hheaders [] hmem).colon

/-! ## The verdict -/

/-- A request in front of the bytes: its first line, its header lines, the empty line and the rest. -/
theorem Accepted.cut {request : Bytes} (h : IsRequest request) (hxs : request <+: xs) :
    ∃ line headers tail, RequestLine line ∧ (∀ header ∈ headers, HeaderLine header) ∧
      xs = request ++ tail ∧ xs = line ++ crlf ++ (render headers ++ ([] ++ crlf ++ tail)) := by
  obtain ⟨line, headers, hline, hheaders, rfl⟩ := h
  obtain ⟨tail, rfl⟩ := hxs
  refine ⟨line, headers, tail, hline, hheaders, rfl, ?_⟩
  rw [render_cons, List.nil_append]
  simp only [List.append_assoc]

theorem judged_of_no_line (h : ¬ crlf <:+: xs) (hgot : ctx.gotAll = false) : Judged xs true ctx xs := by
  have hnone : ∀ line rest, xs ≠ line ++ crlf ++ rest := fun line rest heq => h ⟨line, rest, heq.symm⟩
  have hnot : ∀ request, IsRequest request → ¬ request <+: xs := by
    intro request hreq hxs
    obtain ⟨line, headers, tail, -, -, -, heq⟩ := Accepted.cut hreq hxs
    exact hnone _ _ heq
  refine ⟨?_, fun request hreq hxs => absurd hxs (hnot request hreq), ?_, fun _ _ => ⟨rfl, hgot, ?_⟩⟩
  · rw [hgot]
    refine ⟨fun h => (by cases h.2), ?_⟩
    rintro ⟨request, hreq, hxs⟩
    exact absurd hxs (hnot request hreq)
  · refine ⟨fun h => (by cases h), fun href => ?_⟩
    rcases href.cases with ⟨line, rest, -, -, heq⟩ | ⟨line, headers, stray, rest, -, -, -, -, -, heq⟩
    · exact absurd heq (hnone _ _)
    · rw [render_cons_append] at heq
      exact absurd heq (hnone _ _)
  · exact ⟨[], fun _ h => (by cases h), h, rfl⟩

theorem judged_of_bad_line {line tail : Bytes} (hline : ¬ crlf <:+: line)
    (hformed : ¬ HttpRequest.WellFormedLine line) (hxs : xs = line ++ crlf ++ tail) :
    Judged xs false ctx rest := by
  have hrefused : Refused xs := Or.inl ⟨line, tail, hline, hformed, hxs⟩
  have hnot : ∀ request, IsRequest request → ¬ request <+: xs := by
    intro request hreq hprefix
    obtain ⟨line', headers, tail', hline', -, -, heq⟩ := Accepted.cut hreq hprefix
    obtain ⟨rfl, -⟩ := Buffer.line_unique hline hline'.no_crlf (hxs.symm.trans heq)
    exact hformed hline'.wellFormed
  refine ⟨⟨fun h => (by cases h.1), ?_⟩, fun request hreq h => absurd h (hnot request hreq),
    ⟨fun _ => hrefused, fun _ => rfl⟩, fun _ h => absurd hrefused h⟩
  rintro ⟨request, hreq, h⟩
  exact absurd h (hnot request hreq)

/-- Behind a request line nothing is refused for want of a stray line. -/
theorem not_refused_of_line {line tail : Bytes} (hline : RequestLine line)
    (hxs : xs = line ++ crlf ++ tail) (hstray : ¬ StrayLine xs) : ¬ Refused xs := by
  intro href
  rcases href.cases with ⟨line', rest', hline', hformed, heq⟩ | h
  · obtain ⟨rfl, -⟩ := Buffer.line_unique hline.no_crlf hline' (hxs.symm.trans heq)
    exact hformed hline.wellFormed
  · exact hstray h

theorem judged_of_headers {line tail : Bytes} (hline : RequestLine line)
    (hxs : xs = line ++ crlf ++ tail) (hread : ReadHeaders tail ctx rest) (hstray : ¬ StrayLine xs) :
    Judged xs true ctx rest := by
  have href := not_refused_of_line hline hxs hstray
  have hrefused : true = false ↔ Refused xs := ⟨fun h => (by cases h), fun h => absurd h href⟩
  obtain ⟨headers, hheaders, ⟨hgot, last, hlast, hcolon, rfl⟩ | ⟨hgot, hrest, rfl⟩⟩ := hread
  · -- all is got, at an empty line
    have hempty : last = [] := by
      by_contra hne
      exact hstray ⟨line, headers, last, rest, hline, hheaders, hlast, hne, hcolon,
        by rw [hxs, render_cons_append]⟩
    subst hempty
    have hreq : IsRequest (render (line :: headers) ++ crlf) := ⟨line, headers, hline, hheaders, rfl⟩
    have haccepted : Accepted xs := by
      refine ⟨_, hreq, rest, ?_⟩
      rw [hxs, render_cons, List.nil_append]
      simp only [List.append_assoc]
    refine ⟨⟨fun _ => haccepted, fun _ => ⟨rfl, hgot⟩⟩, ?_, hrefused, fun h => absurd haccepted h⟩
    intro request hrequest hprefix
    obtain ⟨line', headers', tail', hline', hheaders', hcut, heq⟩ := Accepted.cut hrequest hprefix
    obtain ⟨-, htail⟩ := Buffer.line_unique hline.no_crlf hline'.no_crlf (hxs.symm.trans heq)
    obtain ⟨-, rfl⟩ := last_unique hheaders hheaders' ⟨hlast, hcolon⟩ ⟨hlast, hcolon⟩ htail
    exact hcut
  · -- the last line is not complete
    have hnot : ∀ request, IsRequest request → ¬ request <+: xs := by
      intro request hrequest hprefix
      obtain ⟨line', headers', tail', hline', hheaders', -, heq⟩ := Accepted.cut hrequest hprefix
      obtain ⟨-, htail⟩ := Buffer.line_unique hline.no_crlf hline'.no_crlf (hxs.symm.trans heq)
      exact not_last_of_open hheaders hheaders' ⟨not_crlf_nil, List.not_mem_nil⟩ hrest htail.symm
    refine ⟨?_, fun request hreq h => absurd h (hnot request hreq), hrefused,
      fun _ _ => ⟨rfl, hgot, line :: headers, ?_, hrest, ?_⟩⟩
    · rw [hgot]
      refine ⟨fun h => (by cases h.2), ?_⟩
      rintro ⟨request, hreq, h⟩
      exact absurd h (hnot request hreq)
    · intro l hl
      rcases List.mem_cons.1 hl with rfl | hl
      · exact hline.no_crlf
      · exact (hheaders l hl).no_crlf
    · rw [hxs, render_cons_append]

theorem judged_of_parses (h : Parses receiveTime new xs ok ctx rest) (hstray : ¬ StrayLine xs) :
    Judged xs ok ctx rest := by
  rcases h.outcome with ⟨rfl, hgot, rfl, hnone⟩ | ⟨rfl, line, tail, hline, hformed, hxs⟩ |
    ⟨rfl, line, tail, hline, hxs, hread⟩
  · exact judged_of_no_line hnone hgot
  · exact judged_of_bad_line hline hformed hxs
  · exact judged_of_headers hline hxs hread hstray

/-- A stray line ends the headers where it should be refused. -/
theorem not_judged_of_stray (h : Parses receiveTime new xs ok ctx rest) (hstray : StrayLine xs) :
    ¬ Judged xs ok ctx rest := by
  intro hjudged
  have hok := hjudged.refused.2 hstray.refused
  obtain ⟨line, headers, stray, rest', hline, -, -, -, -, heq⟩ := hstray
  rw [render_cons_append] at heq
  rcases h.outcome with ⟨htrue, -⟩ | ⟨-, line', tail, hline', hformed, hxs⟩ | ⟨htrue, -⟩
  · rw [hok] at htrue
    cases htrue
  · obtain ⟨rfl, -⟩ := Buffer.line_unique hline' hline.no_crlf (hxs.symm.trans heq)
    exact hformed hline.wellFormed
  · rw [hok] at htrue
    cases htrue

theorem not_followsGrammar_of_stray (hstray : StrayLine xs) : ¬ FollowsGrammar xs := by
  intro hfollows
  obtain ⟨buf, -, hwf, hread⟩ := Buffer.wf_empty.append xs
  rw [Buffer.readable_empty, List.nil_append] at hread
  obtain ⟨ok, ctx, buf', hcall, -, hjudged⟩ := hfollows 0 buf hwf hread
  obtain ⟨ok', ctx', rest, hparses⟩ := fit_new.exists_parses 0 xs
  rw [← hread] at hparses
  obtain ⟨buf'', hcall', -, rfl⟩ := hparses.parseRequest hwf
  rw [hcall] at hcall'
  simp only [Except.ok.injEq, Prod.mk.injEq] at hcall'
  obtain ⟨rfl, rfl, rfl⟩ := hcall'
  rw [hread] at hparses
  exact not_judged_of_stray hparses hstray hjudged

theorem followsGrammar_iff (xs : Bytes) : FollowsGrammar xs ↔ ¬ StrayLine xs := by
  refine ⟨fun hfollows hstray => not_followsGrammar_of_stray hstray hfollows, fun hstray => ?_⟩
  intro receiveTime buf hwf hread
  obtain ⟨ok, ctx, rest, hparses⟩ := fit_new.exists_parses receiveTime xs
  have hjudged := judged_of_parses hparses hstray
  rw [← hread] at hparses
  obtain ⟨buf', hcall, hwf', rfl⟩ := hparses.parseRequest hwf
  exact ⟨ok, ctx, buf', hcall, hwf', hjudged⟩

/-- The second line is taken for the empty one. -/
theorem stray_line_accepted : ¬ FollowsGrammar (ascii "GET / HTTP/1.1\r\nHost\r\n\r\n") := by
  have hmethod : HttpRequest.methodOf (ascii "GET") ≠ .kInvalid := by decide
  have hline : RequestLine (ascii "GET / HTTP/1.1") :=
    ⟨⟨ascii "GET", ascii "/", ascii "1", hmethod, by decide, Or.inl rfl, by decide⟩,
      Buffer.searchCRLF_eq_none.1 (by decide)⟩
  have hstray : ¬ crlf <:+: ascii "Host" := Buffer.searchCRLF_eq_none.1 (by decide)
  exact not_followsGrammar_of_stray ⟨ascii "GET / HTTP/1.1", [], ascii "Host", ascii "\r\n", hline,
    fun _ h => (by cases h), hstray, by decide, by decide, by decide⟩

end HttpContext

end Reactor
