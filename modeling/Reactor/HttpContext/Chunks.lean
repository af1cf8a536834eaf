import Reactor.HttpContext

/-!
# Parsing in chunks

`Parses` says what a call of `parseRequest` makes of the readable bytes, line by line.  A call that
waits for more bytes has forgotten nothing that the bytes behind could change, and a call that is
done has not looked at them, so it does not matter where the bytes are cut.

* `Parses.append_wait`, `Parses.append_done`: the two ways a call may go on when more bytes come.
* `feed_eq_parseRequest`: the chunks one by one give what all of them at once give.
-/

namespace Reactor

namespace HttpContext

/-- A call of `parseRequest`: the context and the readable bytes before it, the result, and the
context and the readable bytes after it. -/
inductive Parses (receiveTime : ℤ) : HttpContext → Bytes → Bool → HttpContext → Bytes → Prop
  | noLine {ctx xs} (hstate : ctx.state = .kExpectRequestLine)
      (hn : Buffer.searchCRLF xs = none) : Parses receiveTime ctx xs true ctx xs
  | badLine {ctx xs n r} (hstate : ctx.state = .kExpectRequestLine)
      (hn : Buffer.searchCRLF xs = some n)
      (hline : ctx.request.processRequestLine (xs.take n) = .ok (false, r)) :
      Parses receiveTime ctx xs false { ctx with request := r } xs
  | line {ctx xs n r ok ctx' rest} (hstate : ctx.state = .kExpectRequestLine)
      (hn : Buffer.searchCRLF xs = some n)
      (hline : ctx.request.processRequestLine (xs.take n) = .ok (true, r))
      (hrest : Parses receiveTime ⟨.kExpectHeaders, { r with receiveTime := receiveTime }⟩
        (xs.drop (n + 2)) ok ctx' rest) : Parses receiveTime ctx xs ok ctx' rest
  | noHeader {ctx xs} (hstate : ctx.state = .kExpectHeaders)
      (hn : Buffer.searchCRLF xs = none) : Parses receiveTime ctx xs true ctx xs
  | header {ctx xs n field value ok ctx' rest} (hstate : ctx.state = .kExpectHeaders)
      (hn : Buffer.searchCRLF xs = some n)
      (hcolon : splitFirst 58 (xs.take n) = some (field, value))
      (hrest : Parses receiveTime { ctx with request := ctx.request.addHeader field value }
        (xs.drop (n + 2)) ok ctx' rest) : Parses receiveTime ctx xs ok ctx' rest
  | done {ctx xs n} (hstate : ctx.state = .kExpectHeaders)
      (hn : Buffer.searchCRLF xs = some n) (hcolon : splitFirst 58 (xs.take n) = none) :
      Parses receiveTime ctx xs true { ctx with state := .kGotAll } (xs.drop (n + 2))

/-- The context may be given to `parseRequest`. -/
def Fit (ctx : HttpContext) : Prop :=
  ctx.state = .kExpectRequestLine ∧ ctx.request.method = .kInvalid ∨ ctx.state = .kExpectHeaders

theorem fit_new : new.Fit := Or.inl ⟨rfl, rfl⟩

variable {receiveTime : ℤ} {ctx ctx' : HttpContext} {xs rest : Bytes} {ok : Bool} {buf : Buffer}

/-- What the loop does is what `Parses` says. -/
theorem Parses.parseLoop (h : Parses receiveTime ctx xs ok ctx' rest) (hwf : buf.Wf)
    (hxs : buf.readable = xs) {fuel : ℕ} (hfuel : xs.length < fuel) :
    ∃ buf', HttpContext.parseLoop receiveTime fuel ctx buf = .ok (ok, ctx', buf') ∧ buf'.Wf ∧
      buf'.readable = rest := by
  induction h generalizing buf fuel with
  | @noLine ctx xs hstate hn =>
    obtain ⟨fuel, rfl⟩ : ∃ k, fuel = k + 1 := ⟨fuel - 1, by omega⟩
    rw [HttpContext.parseLoop, hstate]
    dsimp only
    rw [Buffer.findCRLF, hxs, hn]
    exact ⟨buf, rfl, hwf, hxs⟩
  | @badLine ctx xs n r hstate hn hline =>
    obtain ⟨fuel, rfl⟩ : ∃ k, fuel = k + 1 := ⟨fuel - 1, by omega⟩
    rw [HttpContext.parseLoop, hstate]
    dsimp only
    subst hxs
    rw [Buffer.findCRLF, hn]
    dsimp only [Option.map_some]
    rw [hwf.slice_line hn, hline, ok_bind, ← hstate]
    exact ⟨buf, rfl, hwf, rfl⟩
  | @line ctx xs n r ok ctx' rest hstate hn hline hrest ih =>
    obtain ⟨fuel, rfl⟩ : ∃ k, fuel = k + 1 := ⟨fuel - 1, by omega⟩
    subst hxs
    obtain ⟨buf', hret, hwf', hread⟩ := hwf.retrieveLine hn
    have hle := Buffer.searchCRLF_le hn
    rw [HttpContext.parseLoop, hstate]
    dsimp only
    rw [Buffer.findCRLF, hn]
    dsimp only [Option.map_some]
    rw [hwf.slice_line hn, hline, ok_bind]
    dsimp only
    rw [if_pos rfl, hret, ok_bind]
    exact ih hwf' hread (by rw [List.length_drop]; omega)
  | @noHeader ctx xs hstate hn =>
    obtain ⟨fuel, rfl⟩ : ∃ k, fuel = k + 1 := ⟨fuel - 1, by omega⟩
    rw [HttpContext.parseLoop, hstate]
    dsimp only
    rw [Buffer.findCRLF, hxs, hn]
    exact ⟨buf, rfl, hwf, hxs⟩
  | @header ctx xs n field value ok ctx' rest hstate hn hcolon hrest ih =>
    obtain ⟨fuel, rfl⟩ : ∃ k, fuel = k + 1 := ⟨fuel - 1, by omega⟩
    subst hxs
    obtain ⟨buf', hret, hwf', hread⟩ := hwf.retrieveLine hn
    have hle := Buffer.searchCRLF_le hn
    rw [HttpContext.parseLoop, hstate]
    dsimp only
    rw [Buffer.findCRLF, hn]
    dsimp only [Option.map_some]
    rw [hwf.slice_line hn, hcolon]
    dsimp only
    rw [hret, ok_bind, ← hstate]
    exact ih hwf' hread (by rw [List.length_drop]; omega)
  | @done ctx xs n hstate hn hcolon =>
    obtain ⟨fuel, rfl⟩ : ∃ k, fuel = k + 1 := ⟨fuel - 1, by omega⟩
    subst hxs
    obtain ⟨buf', hret, hwf', hread⟩ := hwf.retrieveLine hn
    rw [HttpContext.parseLoop, hstate]
    dsimp only
    rw [Buffer.findCRLF, hn]
    dsimp only [Option.map_some]
    rw [hwf.slice_line hn, hcolon]
    dsimp only
    rw [hret, ok_bind]
    exact ⟨buf', rfl, hwf', hread⟩

theorem Parses.parseRequest (h : Parses receiveTime ctx buf.readable ok ctx' rest) (hwf : buf.Wf) :
    ∃ buf', ctx.parseRequest buf receiveTime = .ok (ok, ctx', buf') ∧ buf'.Wf ∧
      buf'.readable = rest :=
  h.parseLoop hwf rfl (by rw [hwf.length_readable]; exact Nat.lt_succ_self _)

theorem Parses.unique (h : Parses receiveTime ctx xs ok ctx' rest) {ok₂ : Bool}
    {ctx₂ : HttpContext} {rest₂ : Bytes} (h₂ : Parses receiveTime ctx xs ok₂ ctx₂ rest₂) :
    ok = ok₂ ∧ ctx' = ctx₂ ∧ rest = rest₂ := by
  obtain ⟨buf, -, hwf, hread⟩ := Buffer.wf_empty.append xs
  rw [Buffer.readable_empty, List.nil_append] at hread
  subst hread
  obtain ⟨buf₁, hcall, -, rfl⟩ := h.parseRequest hwf
  obtain ⟨buf₂, hcall₂, -, rfl⟩ := h₂.parseRequest hwf
  have heq := Except.ok.inj (hcall.symm.trans hcall₂)
  simp only [Prod.mk.injEq] at heq
  exact ⟨heq.1, heq.2.1, by rw [heq.2.2]⟩

/-- A call on a fit context returns; what it leaves is fit again, or has got all, or was refused. -/
theorem Fit.exists_parses (h : ctx.Fit) (receiveTime : ℤ) (xs : Bytes) :
    ∃ ok ctx' rest, Parses receiveTime ctx xs ok ctx' rest := by
  -- every line that is taken leaves fewer bytes
  induction hlen : xs.length using Nat.strong_induction_on generalizing ctx xs with
  | _ len ih =>
    subst hlen
    cases hn : Buffer.searchCRLF xs with
    | none =>
      rcases h with ⟨hstate, -⟩ | hstate
      · exact ⟨_, _, _, .noLine hstate hn⟩
      · exact ⟨_, _, _, .noHeader hstate hn⟩
    | some n =>
      have hle := Buffer.searchCRLF_le hn
      have hlt : (xs.drop (n + 2)).length < xs.length := by
        rw [List.length_drop]
        omega
      rcases h with ⟨hstate, hmethod⟩ | hstate
      · obtain ⟨ok, r, hproc, -, -⟩ := HttpRequest.processRequestLine_spec hmethod (xs.take n)
        cases ok with
        | false => exact ⟨_, _, _, .badLine hstate hn hproc⟩
        | true =>
          have hfit : HttpContext.Fit ⟨.kExpectHeaders, { r with receiveTime := receiveTime }⟩ :=
            Or.inr rfl
          obtain ⟨ok, ctx', rest, hrest⟩ := ih _ hlt hfit _ rfl
          exact ⟨ok, ctx', rest, .line hstate hn hproc hrest⟩
      · cases hcolon : splitFirst 58 (xs.take n) with
        | none => exact ⟨_, _, _, .done hstate hn hcolon⟩
        | some p =>
          have hfit : HttpContext.Fit { ctx with request := ctx.request.addHeader p.1 p.2 } :=
            Or.inr hstate
          obtain ⟨ok, ctx', rest, hrest⟩ := ih _ hlt hfit _ rfl
          exact ⟨ok, ctx', rest, .header hstate hn hcolon hrest⟩

theorem Parses.fit (h : Parses receiveTime ctx xs ok ctx' rest) (hfit : ctx.Fit) (hok : ok = true)
    (hmore : ctx'.gotAll = false) : ctx'.Fit := by
  induction h with
  | noLine => exact hfit
  | badLine => cases hok
  | line _ _ _ _ ih => exact ih (Or.inr rfl) hok hmore
  | noHeader => exact hfit
  | header hstate _ _ _ ih => exact ih (Or.inr hstate) hok hmore
  | done => cases hmore

/-! ## More bytes -/

theorem take_searchCRLF_append {n : ℕ} (hn : Buffer.searchCRLF xs = some n) (ys : Bytes) :
    (xs ++ ys).take n = xs.take n := by
  have hle := Buffer.searchCRLF_le hn
  exact List.take_append_of_le_length (by omega)

theorem drop_searchCRLF_append {n : ℕ} (hn : Buffer.searchCRLF xs = some n) (ys : Bytes) :
    (xs ++ ys).drop (n + 2) = xs.drop (n + 2) ++ ys :=
  List.drop_append_of_le_length (Buffer.searchCRLF_le hn)

/-- A call that is refused or has got all does not look at the bytes behind. -/
theorem Parses.append_done (h : Parses receiveTime ctx xs ok ctx' rest)
    (hdone : ok = false ∨ ctx'.gotAll = true) (ys : Bytes) :
    Parses receiveTime ctx (xs ++ ys) ok ctx' (rest ++ ys) := by
  have hopen : ∀ {ctx : HttpContext}, ctx.state = .kExpectRequestLine ∨ ctx.state = .kExpectHeaders →
      ¬ (true = false ∨ ctx.gotAll = true) := by
    rintro ctx (hstate | hstate) (hf | hg)
    · cases hf
    · simp [gotAll, hstate] at hg
    · cases hf
    · simp [gotAll, hstate] at hg
  induction h with
  | noLine hstate => exact absurd hdone (hopen (Or.inl hstate))
  | badLine hstate hn hline =>
    rw [← take_searchCRLF_append hn ys] at hline
    exact .badLine hstate (Buffer.searchCRLF_append hn ys) hline
  | line hstate hn hline _ ih =>
    rw [← take_searchCRLF_append hn ys] at hline
    refine .line hstate (Buffer.searchCRLF_append hn ys) hline ?_
    rw [drop_searchCRLF_append hn]
    exact ih hdone
  | noHeader hstate => exact absurd hdone (hopen (Or.inr hstate))
  | header hstate hn hcolon _ ih =>
    rw [← take_searchCRLF_append hn ys] at hcolon
    refine .header hstate (Buffer.searchCRLF_append hn ys) hcolon ?_
    rw [drop_searchCRLF_append hn]
    exact ih hdone
  | done hstate hn hcolon =>
    rw [← take_searchCRLF_append hn ys] at hcolon
    rw [← drop_searchCRLF_append hn]
    exact .done hstate (Buffer.searchCRLF_append hn ys) hcolon

/-- A call that waits for more can be made again from the start. -/
theorem Parses.append_wait (h : Parses receiveTime ctx xs ok ctx' rest) (hok : ok = true)
    (hmore : ctx'.gotAll = false) {ys rest' : Bytes} {ok' : Bool} {ctx'' : HttpContext}
    (h' : Parses receiveTime ctx' (rest ++ ys) ok' ctx'' rest') :
    Parses receiveTime ctx (xs ++ ys) ok' ctx'' rest' := by
  induction h with
  | noLine => exact h'
  | badLine => cases hok
  | line hstate hn hline _ ih =>
    rw [← take_searchCRLF_append hn ys] at hline
    refine .line hstate (Buffer.searchCRLF_append hn ys) hline ?_
    rw [drop_searchCRLF_append hn]
    exact ih hok hmore h'
  | noHeader => exact h'
  | header hstate hn hcolon _ ih =>
    rw [← take_searchCRLF_append hn ys] at hcolon
    refine .header hstate (Buffer.searchCRLF_append hn ys) hcolon ?_
    rw [drop_searchCRLF_append hn]
    exact ih hok hmore h'
  | done => cases hmore

/-! ## Chunk by chunk -/

/-- The chunks are appended one by one, with a call of `parseRequest` after each until one returns
false or the context has got all. -/
def feed (receiveTime : ℤ) :
    Bool → HttpContext → Buffer → List Bytes → Except Fault (Bool × HttpContext × Buffer)
  | ok, ctx, buf, [] => return (ok, ctx, buf)
  | ok, ctx, buf, chunk :: chunks => do
    let buf ← buf.append chunk
    if ok ∧ ¬ ctx.gotAll then
      let (ok, ctx, buf) ← ctx.parseRequest buf receiveTime
      feed receiveTime ok ctx buf chunks
    else feed receiveTime ok ctx buf chunks

theorem feed_parses {ys : Bytes} (h : Parses receiveTime new ys ok ctx buf.readable) (hwf : buf.Wf)
    (chunks : List Bytes) :
    ∃ ok' ctx' buf', feed receiveTime ok ctx buf chunks = .ok (ok', ctx', buf') ∧
      Parses receiveTime new (ys ++ chunks.flatten) ok' ctx' buf'.readable := by
  induction chunks generalizing ys ok ctx buf with
  | nil => exact ⟨ok, ctx, buf, rfl, by rw [List.flatten_nil, List.append_nil]; exact h⟩
  | cons chunk chunks ih =>
    obtain ⟨buf₁, happ, hwf₁, hread⟩ := hwf.append chunk
    rw [feed, happ, ok_bind, List.flatten_cons, ← List.append_assoc]
    by_cases hgo : ok ∧ ¬ ctx.gotAll
    · have hmore : ctx.gotAll = false := by simpa using hgo.2
      obtain ⟨ok₂, ctx₂, rest, hparse⟩ :=
        (h.fit fit_new hgo.1 hmore).exists_parses receiveTime buf₁.readable
      obtain ⟨buf₂, hcall, hwf₂, rfl⟩ := hparse.parseRequest hwf₁
      rw [if_pos hgo, hcall, ok_bind]
      rw [hread] at hparse
      exact ih (h.append_wait hgo.1 hmore hparse) hwf₂
    · rw [if_neg hgo]
      refine ih ?_ hwf₁
      rw [hread]
      refine h.append_done ?_ chunk
      by_cases hok : ok = true
      · exact Or.inr (by simpa [hok] using hgo)
      · exact Or.inl (by simpa using hok)

/-- Wherever the bytes are cut, the result, the context and the bytes that remain are those of one
call on all of them. -/
theorem feed_eq_parseRequest (receiveTime : ℤ) (chunks : List Bytes) :
    ∃ ok ctx buf whole rest, feed receiveTime true new Buffer.empty chunks = .ok (ok, ctx, buf) ∧
      Buffer.empty.append chunks.flatten = .ok whole ∧
      new.parseRequest whole receiveTime = .ok (ok, ctx, rest) ∧ buf.readable = rest.readable := by
  have hstart : Parses receiveTime new [] true new Buffer.empty.readable := by
    rw [Buffer.readable_empty]
    exact .noLine rfl rfl
  obtain ⟨ok, ctx, buf, hfeed, hparse⟩ := feed_parses hstart Buffer.wf_empty chunks
  obtain ⟨whole, happ, hwf, hread⟩ := Buffer.wf_empty.append chunks.flatten
  rw [Buffer.readable_empty] at hread
  rw [← hread] at hparse
  obtain ⟨rest, hcall, -, hrest⟩ := hparse.parseRequest hwf
  exact ⟨ok, ctx, buf, whole, rest, hfeed, happ, hcall, hrest.symm⟩

end HttpContext

end Reactor
