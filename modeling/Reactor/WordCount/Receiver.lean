import Mathlib.Algebra.BigOperators.Ring.Finset
import Mathlib.Algebra.Order.BigOperators.Group.Finset
import Reactor.WordCount

/-!
# Counting words: the receivers

`receiver.cpp` adds the records of all senders up, as they come in whatever chunks, and writes its
counts down when the last sender is gone.

* `message_spec`, `down_spec`: whatever the order and the chunks, the counts and what is still to come
  are the records of all senders.
* `Inv.exact`: so they are exact when the last sender is gone.
-/

namespace Reactor

namespace WordCount

open Session (isspace sign)

/-! ## WordCountReceiver -/

/-- `atoll` of the memory from a position on; a number that does not end there is read out of
bounds. -/
def atoll (memory : Bytes) : Except Fault ℤ :=
  let (negative, digits) := sign (memory.dropWhile isspace)
  if digits.all isdigit then .error .outOfBounds
  else
    let x : ℤ := ofDecimal (digits.takeWhile isdigit)
    .ok (if negative then max (-x) (-2 ^ 63) else min x (2 ^ 63 - 1))

/-- The result of an operation on `int64_t`, where it is one. -/
def int64 (value : ℤ) : Except Fault ℤ :=
  if -2 ^ 63 ≤ value ∧ value < 2 ^ 63 then .ok value else .error .overflow

/-- `wordcounts_[word] += cnt` -/
def add (wordcounts : WordCountMap) (word : Bytes) (cnt : ℤ) : Except Fault WordCountMap := do
  let _ ← int64 (Tally.sum (fun key => key = word) wordcounts + cnt)
  return Tally.bump wordcounts word cnt

/-- The loop of `onMessage`, and whether it called `shutdown`. -/
def messageLoop : ℕ → Buffer → WordCountMap → Except Fault (Bool × Buffer × WordCountMap)
  | 0, _, _ => .error .outOfFuel
  | fuel + 1, buf, wordcounts =>
    match buf.findCRLF with
    | none => return (false, buf, wordcounts)
    | some crlf => do
      let line := Vec.slice buf.buffer buf.peek crlf
      let word := line.takeWhile (· ≠ 9)
      if word.length < line.length then
        let cnt ← atoll (buf.buffer.drop (buf.peek + word.length))
        let wordcounts ← add wordcounts word cnt
        let buf ← buf.retrieveUntil (crlf + 2)
        messageLoop fuel buf wordcounts
      else
        let buf ← buf.retrieveUntil (crlf + 2)
        let (_, buf, wordcounts) ← messageLoop fuel buf wordcounts
        return (true, buf, wordcounts)

/-- `WordCountReceiver`; `shard` is the file that `output` writes, and `inputBuffers` and `shut` belong
to the connections. -/
structure WordCountReceiver where
  senders : ℤ
  wordcounts : WordCountMap
  shard : Option WordCountMap
  quit : Bool
  inputBuffers : ℕ → Buffer
  shut : ℕ → Bool

namespace WordCountReceiver

def start (senders : ℤ) : WordCountReceiver := ⟨senders, [], none, false, fun _ => Buffer.empty, fun _ => false⟩

/-- `onConnection` for a connection that is down. -/
def onDown (s : WordCountReceiver) : WordCountReceiver :=
  let s := { s with senders := s.senders - 1 }
  if s.senders = 0 then { s with shard := some s.wordcounts, quit := true } else s

def onMessage (s : WordCountReceiver) (c : ℕ) (data : Bytes) : Except Fault WordCountReceiver := do
  let (_, buf) ← (s.inputBuffers c).readFd (.read data)
  let (shut, buf, wordcounts) ← messageLoop (buf.readableBytes + 1) buf s.wordcounts
  return { s with
    wordcounts := wordcounts
    inputBuffers := Function.update s.inputBuffers c buf
    shut := Function.update s.shut c (s.shut c || shut) }

end WordCountReceiver

/-! ## What comes to a receiver -/

/-- A receiver, what its senders have still to deliver, and which of them are up. -/
structure Receiving where
  receiver : WordCountReceiver
  wire : ℕ → Bytes
  up : ℕ → Bool

namespace Receiving

/-- A receiver of `k` senders. -/
def start (k : ℕ) (wire : ℕ → Bytes) : Receiving := ⟨.start k, wire, fun c => c < k⟩

/-- The next bytes of a sender come. -/
def message (s : Receiving) (c n : ℕ) : Except Fault Receiving := do
  return { s with
    receiver := ← s.receiver.onMessage c ((s.wire c).take n)
    wire := Function.update s.wire c ((s.wire c).drop n) }

def down (s : Receiving) (c : ℕ) : Receiving :=
  { s with receiver := s.receiver.onDown, up := Function.update s.up c false }

end Receiving

/-- The receiver has written its counts when no sender is up, and not before. -/
def Exact (k : ℕ) (expected : (Bytes → Bool) → ℤ) (receiver : WordCountReceiver) (up : ℕ → Bool) :
    Prop :=
  (receiver.shard = none ↔ ∃ c < k, up c = true) ∧
    ∀ m ∈ receiver.shard, (m.map Prod.fst).Nodup ∧ ∀ p, Tally.sum p m = expected p

/-! ## One line -/

/-- A record as the senders make them. -/
structure Proper (e : Bytes × ℤ) : Prop where
  word : ∀ c ∈ e.1, isspace c = false
  nonneg : 0 ≤ e.2
  lt : e.2 < 2 ^ 63

theorem atoll_decimal {n : ℤ} (hnonneg : 0 ≤ n) (hlt : n < 2 ^ 63) (rest : Bytes) :
    atoll (9 :: decimalInt n ++ crlf ++ rest) = .ok n := by
  have hdigits : ∀ b ∈ decimal n.toNat, isdigit b = true := fun b hb =>
    decide_eq_true (digit_of_mem_decimal hb)
  have hvalue : (ofDecimal (decimal n.toNat) : ℤ) = n := by
    rw [ofDecimal_decimal]
    omega
  rw [decimalInt_of_nonneg hnonneg]
  cases hdecimal : decimal n.toNat with
  | nil => exact absurd hdecimal (decimal_ne_nil _)
  | cons d ds =>
    rw [hdecimal] at hdigits hvalue
    have hd := of_decide_eq_true (hdigits d List.mem_cons_self)
    have hskip : (9 :: (d :: ds) ++ crlf ++ rest).dropWhile isspace = d :: (ds ++ crlf ++ rest) := by
      rw [List.cons_append, List.cons_append, List.dropWhile_cons_of_pos (by decide)]
      exact Session.dropWhile_isspace (UInt8.lt_of_lt_of_le (by decide) hd.1) _
    have hsign : sign (d :: (ds ++ crlf ++ rest)) = (false, d :: (ds ++ crlf ++ rest)) := by
      unfold sign
      split
      · rename_i heq
        obtain ⟨rfl, -⟩ := List.cons.inj heq
        exact absurd hd.1 (by decide)
      · rename_i heq
        obtain ⟨rfl, -⟩ := List.cons.inj heq
        exact absurd hd.1 (by decide)
      · rfl
    have hend : (d :: (ds ++ crlf ++ rest)).takeWhile isdigit = d :: ds := by
      rw [List.append_assoc, ← List.cons_append, List.takeWhile_append_of_pos hdigits]
      show d :: ds ++ (13 :: 10 :: rest).takeWhile isdigit = d :: ds
      rw [List.takeWhile_cons_of_neg (by decide), List.append_nil]
    have hall : (d :: (ds ++ crlf ++ rest)).all isdigit = false := by
      rw [List.all_eq_false]
      exact ⟨13, by simp [crlf, ascii], by decide⟩
    unfold atoll
    rw [hskip, hsign]
    dsimp only
    rw [hall, if_neg (by decide), hend, hvalue, if_neg (by decide), min_eq_left (by omega)]

theorem notMem_cString {e : Bytes × ℤ} (h : Proper e) {b : Byte} (hb : isspace b = true) :
    b ∉ cString e.1 := fun hmem => by
  have hspace := h.word b ((cString_prefix_self e.1).subset hmem)
  rw [hb] at hspace
  cases hspace

/-- The line of a record ends at its CR LF, and its word ends at the tab. -/
theorem searchCRLF_record {e : Bytes × ℤ} (h : Proper e) (rest : Bytes) :
    Buffer.searchCRLF (line e ++ rest) = some (cString e.1 ++ 9 :: decimalInt e.2).length := by
  have hcr : 13 ∉ cString e.1 ++ 9 :: decimalInt e.2 := by
    rw [decimalInt_of_nonneg h.nonneg, List.mem_append, List.mem_cons]
    rintro (hw | hw | hw)
    · exact notMem_cString h (by decide) hw
    · exact absurd hw (by decide)
    · exact absurd (digit_of_mem_decimal hw).1 (by decide)
  exact Buffer.searchCRLF_line (Buffer.searchCRLF_of_notMem hcr) rest

theorem takeWhile_record {e : Bytes × ℤ} (h : Proper e) (digits : Bytes) :
    (cString e.1 ++ 9 :: digits).takeWhile (· ≠ 9) = cString e.1 := by
  rw [List.takeWhile_append_of_pos, List.takeWhile_cons_of_neg (by decide), List.append_nil]
  intro b hb
  refine decide_eq_true ?_
  rintro rfl
  exact notMem_cString h (by decide) hb

variable {buf : Buffer} {m : WordCountMap}

/-- The memory from the beginning of the readable bytes on. -/
theorem drop_peek (hwf : buf.Wf) : buf.readable <+: buf.buffer.drop buf.peek := by
  have hws := hwf.writer_le_size
  unfold Buffer.readable Vec.slice Buffer.peek
  rw [List.drop_take]
  exact List.take_prefix _ _

/-- A line that is there is counted, and the loop goes on with what is behind it. -/
theorem messageLoop_record {e : Bytes × ℤ} (h : Proper e) (hwf : buf.Wf) {after : Bytes}
    (hread : buf.readable = line e ++ after) {m' : WordCountMap} (hadd : add m (cString e.1) e.2 = .ok m') :
    ∃ buf', buf'.Wf ∧ buf'.readable = after ∧
      ∀ fuel, messageLoop (fuel + 1) buf m = messageLoop fuel buf' m' := by
  have hsearch : Buffer.searchCRLF buf.readable = some (cString e.1 ++ 9 :: decimalInt e.2).length := by
    rw [hread]
    exact searchCRLF_record h after
  have hfind : buf.findCRLF = some (buf.peek + (cString e.1 ++ 9 :: decimalInt e.2).length) := by
    rw [Buffer.findCRLF, hsearch]
    rfl
  have htake : buf.readable.take (cString e.1 ++ 9 :: decimalInt e.2).length =
      cString e.1 ++ 9 :: decimalInt e.2 := by
    rw [hread, line, List.append_assoc, List.take_left]
  obtain ⟨buf', hretrieve, hwf', hread'⟩ := hwf.retrieveLine hsearch
  refine ⟨buf', hwf', ?_, fun fuel => ?_⟩
  · rw [hread', hread]
    have hlen : (cString e.1 ++ 9 :: decimalInt e.2).length + 2 = (line e).length := by
      have hcrlf : crlf.length = 2 := rfl
      simp only [line, List.length_append, hcrlf]
    rw [hlen, List.drop_left]
  · obtain ⟨more, hmore⟩ := drop_peek hwf
    have hmemory : buf.buffer.drop (buf.peek + (cString e.1).length) =
        9 :: decimalInt e.2 ++ crlf ++ (after ++ more) := by
      rw [← List.drop_drop, ← hmore, hread, line]
      simp only [List.append_assoc, List.drop_left]
    rw [messageLoop, hfind]
    dsimp only
    rw [hwf.slice_line hsearch, htake, takeWhile_record h, if_pos (by simp), hmemory,
      atoll_decimal h.nonneg h.lt, ok_bind, hadd, ok_bind, hretrieve, ok_bind]

/-! ## The loop -/

/-- The sum is an `int64_t`. -/
theorem add_eq {word : Bytes} {n : ℤ} (hlow : 0 ≤ Tally.sum (fun key => key = word) m + n)
    (hhigh : Tally.sum (fun key => key = word) m + n < 2 ^ 63) :
    add m word n = .ok (Tally.bump m word n) := by
  unfold add int64
  rw [if_pos ⟨by omega, hhigh⟩]
  rfl

/-- The records are in the counts. -/
structure Added (m : WordCountMap) (records : WordCountMap) (m' : WordCountMap) : Prop where
  sum : ∀ p, Tally.sum p m' = Tally.sum p m + Tally.sum (fun w => p (cString w)) records
  nodup : (m.map Prod.fst).Nodup → (m'.map Prod.fst).Nodup
  nonneg : (∀ e ∈ m, 0 ≤ e.2) → ∀ e ∈ m', 0 ≤ e.2

theorem added_nil (m : WordCountMap) : Added m [] m :=
  ⟨fun p => by rw [Tally.sum_nil, add_zero], id, id⟩

theorem Added.cons {e : Bytes × ℤ} (he : 0 ≤ e.2) {records m' : WordCountMap}
    (h : Added (Tally.bump m (cString e.1) e.2) records m') : Added m (e :: records) m' := by
  refine ⟨fun p => ?_, fun hm => h.nodup (Tally.nodup_bump hm _ _), fun hm => h.nonneg ?_⟩
  · rw [h.sum, Tally.sum_bump, Tally.sum_cons, add_assoc]
  · refine Tally.forall_bump (P := fun e => 0 ≤ e.2) hm he fun n' hn' => ?_
    dsimp only at hn' ⊢
    omega

/-- The counts and the records together are within an `int64_t`. -/
structure Bounded (m records : WordCountMap) : Prop where
  nonneg : ∀ e ∈ m, 0 ≤ e.2
  proper : ∀ e ∈ records, Proper e
  lt : Tally.sum (fun _ => true) m + Tally.sum (fun _ => true) records < 2 ^ 63

theorem Bounded.add {e : Bytes × ℤ} {records : WordCountMap} (h : Bounded m (e :: records)) :
    add m (cString e.1) e.2 = .ok (Tally.bump m (cString e.1) e.2) ∧
      Bounded (Tally.bump m (cString e.1) e.2) records := by
  have hproper : ∀ e ∈ records, Proper e := fun e he => h.proper e (List.mem_cons_of_mem _ he)
  have he := (h.proper e List.mem_cons_self).nonneg
  have hlt := h.lt
  have hrest := Tally.sum_nonneg (fun _ => true) fun e he => (hproper e he).nonneg
  have hword := Tally.sum_nonneg (fun key => decide (key = cString e.1)) h.nonneg
  have hle := Tally.sum_le (fun key => decide (key = cString e.1)) h.nonneg
  rw [Tally.sum_cons, if_pos rfl] at hlt
  refine ⟨add_eq (by omega) (by omega), ?_, hproper, ?_⟩
  · exact (Added.cons he (added_nil _)).nonneg h.nonneg
  · rw [Tally.sum_bump, if_pos rfl]
    omega

/-- The loop counts the lines that the buffer holds. -/
theorem messageLoop_spec {records : WordCountMap} (h : Bounded m records) (hwf : buf.Wf) {wire : Bytes}
    (hlines : buf.readable ++ wire = records.flatMap line) {fuel : ℕ}
    (hfuel : buf.readable.length < fuel) :
    ∃ taken rest buf' m', records = taken ++ rest ∧ messageLoop fuel buf m = .ok (false, buf', m') ∧
      buf'.Wf ∧ buf'.readable ++ wire = rest.flatMap line ∧
      Buffer.searchCRLF buf'.readable = none ∧ Added m taken m' := by
  induction records generalizing buf m fuel with
  | nil =>
    obtain ⟨fuel, rfl⟩ : ∃ k, fuel = k + 1 := ⟨fuel - 1, by omega⟩
    obtain ⟨hempty, -⟩ := List.append_eq_nil_iff.1 hlines
    have hsearch : Buffer.searchCRLF buf.readable = none := by rw [hempty]; rfl
    refine ⟨[], [], buf, m, rfl, ?_, hwf, hlines, hsearch, added_nil m⟩
    rw [messageLoop, Buffer.findCRLF, hsearch]
    rfl
  | cons e records ih =>
    obtain ⟨fuel, rfl⟩ : ∃ k, fuel = k + 1 := ⟨fuel - 1, by omega⟩
    have hproper := h.proper e List.mem_cons_self
    cases hsearch : Buffer.searchCRLF buf.readable with
    | none =>
      refine ⟨[], e :: records, buf, m, rfl, ?_, hwf, hlines, hsearch, added_nil m⟩
      rw [messageLoop, Buffer.findCRLF, hsearch]
      rfl
    | some n =>
      -- the line that is found is the one of the record
      have hn : n = (cString e.1 ++ 9 :: decimalInt e.2).length := by
        have hwhole := Buffer.searchCRLF_append hsearch wire
        rw [hlines, List.flatMap_cons, searchCRLF_record hproper] at hwhole
        exact (Option.some.inj hwhole).symm
      have hle : (line e).length ≤ buf.readable.length := by
        have hcrlf : crlf.length = 2 := rfl
        have hfound := Buffer.searchCRLF_le hsearch
        rw [hn] at hfound
        simp only [line, List.length_append, hcrlf] at hfound ⊢
        omega
      obtain ⟨after, hafter⟩ : ∃ after, buf.readable = line e ++ after := by
        have hpre : line e <+: buf.readable ++ wire := by
          rw [hlines, List.flatMap_cons]
          exact List.prefix_append _ _
        obtain ⟨after, hafter⟩ :=
          List.prefix_of_prefix_length_le hpre (List.prefix_append _ _) hle
        exact ⟨after, hafter.symm⟩
      obtain ⟨hadd, hbounded⟩ := h.add
      obtain ⟨buf₁, hwf₁, hread₁, hloop₁⟩ := messageLoop_record hproper hwf hafter hadd
      have hlines₁ : buf₁.readable ++ wire = records.flatMap line := by
        rw [hafter, List.append_assoc, List.flatMap_cons, List.append_cancel_left_eq] at hlines
        rw [hread₁, hlines]
      have hfuel₁ : buf₁.readable.length < fuel := by
        have hpos : 0 < (line e).length := by
          simp only [line, List.length_append, List.length_cons]
          omega
        rw [hafter, List.length_append] at hfuel
        rw [hread₁]
        omega
      obtain ⟨taken, rest, buf', m', hrecords, hloop, hwf', hrest, hnone, hadded⟩ :=
        ih hbounded hwf₁ hlines₁ hfuel₁
      exact ⟨e :: taken, rest, buf', m', by rw [hrecords, List.cons_append],
        (hloop₁ fuel).trans hloop, hwf', hrest, hnone, hadded.cons hproper.nonneg⟩

/-- A rest whose lines are all in the buffer is empty. -/
theorem eq_nil_of_searchCRLF {records : WordCountMap} (hproper : ∀ e ∈ records, Proper e) {bytes : Bytes}
    (hlines : bytes = records.flatMap line) (hnone : Buffer.searchCRLF bytes = none) : records = [] := by
  cases records with
  | nil => rfl
  | cons e records =>
    rw [hlines, List.flatMap_cons, searchCRLF_record (hproper e List.mem_cons_self)] at hnone
    cases hnone

/-! ## All senders -/

section Senders

variable {k : ℕ} {recs : ℕ → WordCountMap}

/-- The records of every sender: those that are counted, and those whose lines have still to come. -/
structure Inv (k : ℕ) (recs : ℕ → WordCountMap) (got rest : ℕ → WordCountMap) (s : Receiving) : Prop where
  split : ∀ c, recs c = got c ++ rest c
  wf : ∀ c, (s.receiver.inputBuffers c).Wf
  lines : ∀ c < k, (s.receiver.inputBuffers c).readable ++ s.wire c = (rest c).flatMap line
  waits : ∀ c, Buffer.searchCRLF (s.receiver.inputBuffers c).readable = none
  sum : ∀ p, Tally.sum p s.receiver.wordcounts =
    ∑ c ∈ Finset.range k, Tally.sum (fun w => p (cString w)) (got c)
  nodup : (s.receiver.wordcounts.map Prod.fst).Nodup
  nonneg : ∀ e ∈ s.receiver.wordcounts, 0 ≤ e.2
  up : ∀ c, s.up c = true → c < k
  down : ∀ c < k, s.up c = false → rest c = []
  senders : s.receiver.senders = ∑ c ∈ Finset.range k, if s.up c then 1 else 0
  shard : s.receiver.shard = if s.receiver.senders = 0 then some s.receiver.wordcounts else none

theorem senders_eq_zero_iff {s : Receiving}
    (h : s.receiver.senders = ∑ c ∈ Finset.range k, if s.up c then 1 else 0) :
    s.receiver.senders = 0 ↔ ∀ c < k, s.up c = false := by
  rw [h, Finset.sum_eq_zero_iff_of_nonneg fun c _ => by split_ifs <;> decide]
  simp only [Finset.mem_range, ite_eq_right_iff, one_ne_zero, imp_false, Bool.not_eq_true]

/-- The records that are counted and those of one sender that are not are a part of all. -/
theorem Inv.bounded {got rest : ℕ → WordCountMap} {s : Receiving} (h : Inv k recs got rest s)
    (hproper : ∀ c, ∀ e ∈ recs c, Proper e)
    (hlt : ∑ c ∈ Finset.range k, Tally.sum (fun _ => true) (recs c) < 2 ^ 63) {c : ℕ} (hc : c < k) :
    Bounded s.receiver.wordcounts (rest c) := by
  have hrest : ∀ c, ∀ e ∈ rest c, Proper e := fun c e he =>
    hproper c e (by rw [h.split]; exact List.mem_append_right _ he)
  refine ⟨h.nonneg, hrest c, ?_⟩
  have hle : Tally.sum (fun _ => true) (rest c) ≤
      ∑ c ∈ Finset.range k, Tally.sum (fun _ => true) (rest c) :=
    Finset.single_le_sum (f := fun c => Tally.sum (fun _ => true) (rest c))
      (fun c _ => Tally.sum_nonneg _ fun e he => (hrest c e he).nonneg) (Finset.mem_range.2 hc)
  simp only [h.split, Tally.sum_append, Finset.sum_add_distrib] at hlt
  rw [h.sum]
  omega

/-- A sum when one of its terms changes. -/
theorem sum_update {α : Type} {c : ℕ} (hc : c < k) (f : ℕ → α) (a : α) (g : α → ℤ) :
    ∑ d ∈ Finset.range k, g (Function.update f c a d) =
      ∑ d ∈ Finset.range k, g (f d) + (g a - g (f c)) := by
  have hterm : ∀ d ∈ Finset.range k,
      g (Function.update f c a d) = g (f d) + if d = c then g a - g (f c) else 0 := by
    intro d _
    by_cases hd : d = c
    · subst hd
      rw [Function.update_self, if_pos rfl]
      omega
    · rw [Function.update_of_ne hd, if_neg hd, add_zero]
  rw [Finset.sum_congr rfl hterm, Finset.sum_add_distrib, Finset.sum_ite_eq',
    if_pos (Finset.mem_range.2 hc)]

theorem message_spec {got rest : ℕ → WordCountMap} {s : Receiving} (h : Inv k recs got rest s)
    (hproper : ∀ c, ∀ e ∈ recs c, Proper e)
    (hlt : ∑ c ∈ Finset.range k, Tally.sum (fun _ => true) (recs c) < 2 ^ 63) {c n : ℕ}
    (hup : s.up c = true) :
    ∃ s' got' rest', s.message c n = .ok s' ∧ Inv k recs got' rest' s' := by
  have hc := h.up c hup
  obtain ⟨buf, hread, hwf, hreadable⟩ := (h.wf c).readFd_read ((s.wire c).take n)
  have hlines : buf.readable ++ (s.wire c).drop n = (rest c).flatMap line := by
    rw [hreadable, List.append_assoc, List.take_append_drop, h.lines c hc]
  have hfuel : buf.readable.length < buf.readableBytes + 1 := by
    rw [hwf.length_readable]
    exact Nat.lt_succ_self _
  obtain ⟨taken, left, buf', m', hrest, hloop, hwf', hlines', hnone, hadded⟩ :=
    messageLoop_spec (h.bounded hproper hlt hc) hwf hlines hfuel
  have hpos : s.receiver.senders ≠ 0 := by
    intro hzero
    rw [(senders_eq_zero_iff h.senders).1 hzero c hc] at hup
    cases hup
  refine ⟨{ s with
      receiver := { s.receiver with
        wordcounts := m'
        inputBuffers := Function.update s.receiver.inputBuffers c buf'
        shut := Function.update s.receiver.shut c (s.receiver.shut c || false) }
      wire := Function.update s.wire c ((s.wire c).drop n) },
    Function.update got c (got c ++ taken), Function.update rest c left, ?_, ?_⟩
  · rw [Receiving.message, WordCountReceiver.onMessage, hread, ok_bind]
    dsimp only
    rw [hloop, ok_bind]
    rfl
  refine ⟨fun d => ?_, fun d => ?_, fun d hd => ?_, fun d => ?_, fun p => ?_, hadded.nodup h.nodup,
    hadded.nonneg h.nonneg, h.up, fun d hd hdown => ?_, h.senders, ?_⟩
  · by_cases hd : d = c
    · subst hd
      rw [Function.update_self, Function.update_self, h.split, hrest, List.append_assoc]
    · rw [Function.update_of_ne hd, Function.update_of_ne hd, h.split]
  · dsimp only
    by_cases hd : d = c
    · subst hd
      rwa [Function.update_self]
    · rw [Function.update_of_ne hd]
      exact h.wf d
  · dsimp only
    by_cases hdc : d = c
    · subst hdc
      rwa [Function.update_self, Function.update_self, Function.update_self]
    · rw [Function.update_of_ne hdc, Function.update_of_ne hdc, Function.update_of_ne hdc]
      exact h.lines d hd
  · dsimp only
    by_cases hd : d = c
    · subst hd
      rwa [Function.update_self]
    · rw [Function.update_of_ne hd]
      exact h.waits d
  · rw [hadded.sum, h.sum, sum_update hc got _ (Tally.sum fun w => p (cString w)), Tally.sum_append]
    omega
  · by_cases hdc : d = c
    · subst hdc
      rw [hup] at hdown
      cases hdown
    · rw [Function.update_of_ne hdc]
      exact h.down d hd hdown
  · show s.receiver.shard = if s.receiver.senders = 0 then some m' else none
    rw [h.shard, if_neg hpos, if_neg hpos]

theorem down_spec {got rest : ℕ → WordCountMap} {s : Receiving} (h : Inv k recs got rest s)
    (hproper : ∀ c, ∀ e ∈ recs c, Proper e) {c : ℕ} (hup : s.up c = true) (hwire : s.wire c = []) :
    Inv k recs got rest (s.down c) := by
  have hc := h.up c hup
  have hrest : rest c = [] := by
    have hlines := h.lines c hc
    rw [hwire, List.append_nil] at hlines
    exact eq_nil_of_searchCRLF (fun e he => hproper c e (by
      rw [h.split]
      exact List.mem_append_right _ he)) hlines (h.waits c)
  have hsenders : s.receiver.senders - 1 =
      ∑ d ∈ Finset.range k, if Function.update s.up c false d then 1 else 0 := by
    rw [h.senders, sum_update hc s.up false fun up => if up then 1 else 0, hup, if_pos rfl,
      if_neg (by decide)]
    omega
  have hpos : s.receiver.senders ≠ 0 := by
    intro hzero
    rw [(senders_eq_zero_iff h.senders).1 hzero c hc] at hup
    cases hup
  have hshard := h.shard
  rw [if_neg hpos] at hshard
  have hreceiver : s.receiver.onDown = { s.receiver with
      senders := s.receiver.senders - 1
      shard := if s.receiver.senders - 1 = 0 then some s.receiver.wordcounts else none
      quit := if s.receiver.senders - 1 = 0 then true else s.receiver.quit } := by
    unfold WordCountReceiver.onDown
    dsimp only
    split_ifs
    · rfl
    · rw [hshard]
  rw [Receiving.down, hreceiver]
  refine ⟨h.split, h.wf, h.lines, h.waits, h.sum, h.nodup, h.nonneg, fun d hd => ?_,
    fun d hd hdown => ?_, hsenders, rfl⟩
  · dsimp only at hd
    by_cases hdc : d = c
    · subst hdc
      exact hc
    · rw [Function.update_of_ne hdc] at hd
      exact h.up d hd
  · dsimp only at hdown
    by_cases hdc : d = c
    · subst hdc
      exact hrest
    · rw [Function.update_of_ne hdc] at hdown
      exact h.down d hd hdown

theorem inv_start (hk : 0 < k) (recs : ℕ → WordCountMap) {wire : ℕ → Bytes}
    (hwire : ∀ c < k, wire c = (recs c).flatMap line) :
    Inv k recs (fun _ => []) recs (Receiving.start k wire) := by
  have hempty : Buffer.empty.readable = [] := Buffer.readable_empty
  have hsenders : ((k : ℤ)) = ∑ c ∈ Finset.range k, if decide (c < k) then 1 else 0 := by
    rw [Finset.sum_congr rfl (g := fun _ => 1) fun c hc => by
      rw [if_pos (decide_eq_true (Finset.mem_range.1 hc))]]
    simp
  refine ⟨fun _ => rfl, fun _ => Buffer.wf_empty, fun c hc => ?_, fun _ => ?_, fun p => ?_, List.nodup_nil,
    fun e he => absurd he List.not_mem_nil, fun c hc => of_decide_eq_true hc, fun c hc hdown => ?_,
    hsenders, ?_⟩
  · show Buffer.empty.readable ++ wire c = _
    rw [hempty, List.nil_append, hwire c hc]
  · show Buffer.searchCRLF Buffer.empty.readable = none
    rw [hempty]
    rfl
  · exact (Finset.sum_const_zero).symm
  · exact absurd hc (of_decide_eq_false hdown)
  · have hne : ((k : ℤ)) ≠ 0 := by omega
    exact (if_neg hne).symm

theorem Inv.exact {got rest : ℕ → WordCountMap} {s : Receiving} (h : Inv k recs got rest s) :
    Exact k (fun p => ∑ c ∈ Finset.range k, Tally.sum (fun w => p (cString w)) (recs c)) s.receiver
      s.up := by
  have hzero := senders_eq_zero_iff h.senders
  constructor
  · rw [h.shard]
    constructor
    · intro hnone
      by_contra hall
      simp only [not_exists, not_and, Bool.not_eq_true] at hall
      rw [if_pos (hzero.2 hall)] at hnone
      cases hnone
    · rintro ⟨c, hc, hup⟩
      refine if_neg fun h0 => ?_
      rw [hzero.1 h0 c hc] at hup
      cases hup
  · intro m hm
    rw [h.shard] at hm
    split_ifs at hm with h0
    · obtain rfl := Option.some.inj hm
      refine ⟨h.nodup, fun p => ?_⟩
      rw [h.sum]
      refine Finset.sum_congr rfl fun c hc => ?_
      have hc' := Finset.mem_range.1 hc
      rw [h.split c, h.down c hc' (hzero.1 h0 c hc'), List.append_nil]
    · cases hm

end Senders

end WordCount

end Reactor
