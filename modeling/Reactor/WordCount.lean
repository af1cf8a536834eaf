import Reactor.Buffer
import Reactor.Decimal
import Reactor.Lib.Tally
import Reactor.Session.Commands

/-!
# Counting words: the senders

`hasher.cpp` counts the words of its files and sends a record for each word to the receiver that the
hash of the word tells.  A map that has grown too large is sent and begun anew, and the records go out
in batches, so neither shows in what a receiver gets: the records that are its own, one behind the
other.

* `processFiles_spec`: the strings that the connection to a receiver is passed are the lines of its
  records, and the records add up to the words of the files that are the receiver's.
-/

namespace Reactor

namespace WordCount

open Session (isspace sign)

abbrev WordCountMap := List (Bytes × ℤ)

def kMaxHashSize : ℕ := 10 * 1000 * 1000

/-- What the program leaves open: `g_batchSize`, `std::hash<string>`, and the order in which a map is
traversed. -/
structure Config where
  batchSize : ℕ
  hash : Bytes → ℕ
  order : WordCountMap → WordCountMap
  perm : ∀ m, (order m).Perm m

/-! ## SendThrottler -/

/-- `SendThrottler`; `sent` are the strings that the calls of `conn_->send` have queued. -/
structure SendThrottler where
  buffer : Buffer
  sent : List Bytes

/-- The digits of an `int64_t`. -/
def decimalInt (n : ℤ) : Bytes := if n < 0 then 45 :: decimal n.natAbs else decimal n.natAbs

namespace SendThrottler

def new : SendThrottler := ⟨Buffer.empty, []⟩

/-- `conn_->send(&buffer_)` on the main thread: the connection gets a string. -/
def connSend (t : SendThrottler) : Except Fault SendThrottler := do
  let (tmp, buffer) ← t.buffer.retrieveAllAsString
  return ⟨buffer, t.sent ++ [tmp]⟩

def send (t : SendThrottler) (batchSize : ℕ) (word : Bytes) (count : ℤ) :
    Except Fault SendThrottler := do
  let buffer ← t.buffer.appendPiece (StringPiece.ofString word)
  let buf := snprintf 64 (9 :: decimalInt count ++ crlf)
  let buffer ← buffer.appendPiece (StringPiece.ofString buf)
  let t := { t with buffer := buffer }
  if batchSize ≤ buffer.readableBytes then t.connSend else return t

/-- `disconnect`, up to the `shutdown` of the connection. -/
def disconnect (t : SendThrottler) : Except Fault SendThrottler :=
  if 0 < t.buffer.readableBytes then t.connSend else return t

end SendThrottler

/-! ## WordCountSender -/

/-- `in >> word`: the word, and what is left. -/
def extract (input : Bytes) : Option (Bytes × Bytes) :=
  match input.dropWhile isspace with
  | [] => none
  | c :: cs => some ((c :: cs).takeWhile (! isspace ·), (c :: cs).dropWhile (! isspace ·))

/-- The loop that fills a map: whether the stream is good after it, what is left of it, and the map. -/
def readWords (maxSize : ℕ) : ℕ → Bytes → WordCountMap → Bool × Bytes × WordCountMap
  | 0, input, wordcounts => (false, input, wordcounts)
  | fuel + 1, input, wordcounts =>
    match extract input with
    | none => (false, [], wordcounts)
    | some (word, input) =>
      let wordcounts := Tally.bump wordcounts word 1
      if maxSize < wordcounts.length then (true, input, wordcounts)
      else readWords maxSize fuel input wordcounts

/-- `WordCountSender`, with the number of its buckets. -/
structure WordCountSender where
  size : ℕ
  buckets : ℕ → SendThrottler

namespace WordCountSender

def new (size : ℕ) : WordCountSender := ⟨size, fun _ => SendThrottler.new⟩

/-- The loop that sends a map. -/
def sendRecords (cfg : Config) (s : WordCountSender) : WordCountMap → Except Fault WordCountSender
  | [] => return s
  | (word, count) :: records => do
    let idx := cfg.hash word % s.size
    check .outOfBounds (idx < s.size)
    let bucket ← (s.buckets idx).send cfg.batchSize word count
    sendRecords cfg { s with buckets := Function.update s.buckets idx bucket } records

/-- The loop of `processFile`; `maxSize` is `kMaxHashSize`. -/
def processLoop (cfg : Config) (maxSize : ℕ) :
    ℕ → WordCountSender → Bytes → Except Fault WordCountSender
  | 0, _, _ => .error .outOfFuel
  | fuel + 1, s, input => do
    let (good, rest, wordcounts) := readWords maxSize (input.length + 1) input []
    let s ← s.sendRecords cfg (cfg.order wordcounts)
    if good then processLoop cfg maxSize fuel s rest else return s

/-- `processFile`; a file that cannot be opened has no content. -/
def processFile (cfg : Config) (s : WordCountSender) : Option Bytes → Except Fault WordCountSender
  | none => return s
  | some content => s.processLoop cfg kMaxHashSize (content.length + 2) content

/-- The loop of `disconnectAll`, for the first buckets. -/
def disconnectLoop (s : WordCountSender) : ℕ → Except Fault WordCountSender
  | 0 => return s
  | i + 1 => do
    let s ← s.disconnectLoop i
    return { s with buckets := Function.update s.buckets i (← (s.buckets i).disconnect) }

def disconnectAll (s : WordCountSender) : Except Fault WordCountSender := s.disconnectLoop s.size

/-- `main`: all files, and then the ends of the connections. -/
def processFiles (cfg : Config) (s : WordCountSender) : List (Option Bytes) →
    Except Fault WordCountSender
  | [] => s.disconnectAll
  | file :: files => do
    let s ← s.processFile cfg file
    s.processFiles cfg files

end WordCountSender

/-! ## The words of a text -/

/-- The longest parts of a text without white space. -/
def words (text : Bytes) : List Bytes := (text.splitOnP isspace).filter (· ≠ [])

theorem words_cons_space {c : Byte} (h : isspace c = true) (text : Bytes) :
    words (c :: text) = words text := by
  rw [words, List.splitOnP_cons_eq_if_modifyHead, if_pos h, List.filter_cons_of_neg (by simp), words]

theorem words_dropWhile (text : Bytes) : words (text.dropWhile isspace) = words text := by
  induction text with
  | nil => rfl
  | cons c text ih =>
    by_cases h : isspace c = true
    · rw [List.dropWhile_cons_of_pos h, words_cons_space h, ih]
    · rw [List.dropWhile_cons_of_neg h]

/-- A stream of words is read word by word. -/
theorem words_of_extract {text word rest : Bytes} (h : extract text = some (word, rest)) :
    words text = word :: words rest ∧ rest.length < text.length ∧ (∀ c ∈ word, isspace c = false) := by
  unfold extract at h
  rw [← words_dropWhile]
  have hle : (text.dropWhile isspace).length ≤ text.length := (List.dropWhile_sublist _).length_le
  cases htext : text.dropWhile isspace with
  | nil =>
    rw [htext] at h
    cases h
  | cons c cs =>
    rw [htext] at h
    dsimp only at h
    obtain ⟨rfl, rfl⟩ := Prod.mk.inj (Option.some.inj h)
    have hc : isspace c = false := by
      have hhead := List.head?_dropWhile_not isspace text
      rw [htext] at hhead
      simpa using hhead
    have hword : ∀ x ∈ (c :: cs).takeWhile (! isspace ·), isspace x = false := by
      intro x hx
      simpa using List.mem_takeWhile_imp hx
    have hne : (c :: cs).takeWhile (! isspace ·) ≠ [] := by
      rw [List.takeWhile_cons_of_pos (by rw [hc]; rfl)]
      exact List.cons_ne_nil _ _
    have hcut := List.takeWhile_append_dropWhile (p := (! isspace ·)) (l := c :: cs)
    have hrest := congrArg List.length hcut
    have hpos := List.length_pos_iff.2 hne
    rw [List.length_append, ← htext] at hrest
    refine ⟨?_, by rw [htext] at hrest hle; omega, hword⟩
    conv_lhs => rw [← hcut]
    generalize (c :: cs).takeWhile (! isspace ·) = word at hword hne
    cases hback : (c :: cs).dropWhile (! isspace ·) with
    | nil =>
      rw [List.append_nil, words, List.splitOnP_eq_singleton hword,
        List.filter_cons_of_pos (by simpa using hne)]
      rfl
    | cons sep back =>
      have hsep : isspace sep = true := by
        have hhead := List.head?_dropWhile_not (! isspace ·) (c :: cs)
        rw [hback] at hhead
        simpa using hhead
      rw [words_cons_space hsep, words, List.splitOnP_append_cons_of_forall_mem hword sep hsep,
        List.filter_cons_of_pos (by simpa using hne), words]

theorem words_of_extract_none {text : Bytes} (h : extract text = none) : words text = [] := by
  unfold extract at h
  rw [← words_dropWhile]
  cases htext : text.dropWhile isspace with
  | nil => rfl
  | cons c cs =>
    rw [htext] at h
    cases h

theorem not_isspace_of_mem_words {text word : Bytes} (h : word ∈ words text) :
    ∀ c ∈ word, isspace c = false := by
  induction hlen : text.length using Nat.strong_induction_on generalizing text with
  | _ n ih =>
    cases hextract : extract text with
    | none =>
      rw [words_of_extract_none hextract] at h
      cases h
    | some p =>
      obtain ⟨first, rest⟩ := p
      obtain ⟨hwords, hlt, hfirst⟩ := words_of_extract hextract
      rw [hwords] at h
      rcases List.mem_cons.1 h with rfl | h
      · exact hfirst
      · exact ih rest.length (hlen ▸ hlt) h rfl

/-! ## Counting -/

/-- The entries add up to the words. -/
structure Counts (records : WordCountMap) (ws : List Bytes) : Prop where
  sum : ∀ p, Tally.sum p records = ws.countP p
  key : ∀ e ∈ records, e.1 ∈ ws
  nonneg : ∀ e ∈ records, 0 ≤ e.2

theorem counts_nil : Counts [] [] :=
  ⟨fun _ => rfl, fun _ he => absurd he List.not_mem_nil, fun _ he => absurd he List.not_mem_nil⟩

variable {m m' : WordCountMap} {ws ws' : List Bytes}

theorem Counts.bump (h : Counts m ws) (w : Bytes) : Counts (Tally.bump m w 1) (ws ++ [w]) := by
  refine ⟨fun p => ?_, ?_, ?_⟩
  · rw [Tally.sum_bump, h.sum, List.countP_append, List.countP_singleton]
    split_ifs <;> simp
  · refine Tally.forall_bump (P := fun e => e.1 ∈ ws ++ [w])
      (fun e he => List.mem_append_left _ (h.key e he)) ?_ fun _ hw => hw
    exact List.mem_append_right _ (List.mem_singleton_self w)
  · refine Tally.forall_bump (P := fun e => 0 ≤ e.2) h.nonneg (show (0 : ℤ) ≤ 1 by decide)
      fun n' hn' => ?_
    dsimp only at hn' ⊢
    omega

theorem Counts.append (h : Counts m ws) (h' : Counts m' ws') : Counts (m ++ m') (ws ++ ws') := by
  refine ⟨fun p => ?_, fun e he => ?_, fun e he => ?_⟩
  · rw [Tally.sum_append, h.sum, h'.sum, List.countP_append]
    push_cast
    rfl
  · rcases List.mem_append.1 he with he | he
    · exact List.mem_append_left _ (h.key e he)
    · exact List.mem_append_right _ (h'.key e he)
  · rcases List.mem_append.1 he with he | he
    · exact h.nonneg e he
    · exact h'.nonneg e he

theorem Counts.perm (h : Counts m ws) (hperm : m'.Perm m) : Counts m' ws :=
  ⟨fun p => (Tally.sum_perm p hperm).trans (h.sum p), fun e he => h.key e (hperm.mem_iff.1 he),
    fun e he => h.nonneg e (hperm.mem_iff.1 he)⟩

theorem Counts.le_length (h : Counts m ws) {e : Bytes × ℤ} (he : e ∈ m) : e.2 ≤ ws.length := by
  have hle := Tally.le_sum h.nonneg he
  rwa [h.sum, List.countP_true] at hle

theorem readWords_spec (maxSize : ℕ) {fuel : ℕ} {input : Bytes} (hfuel : input.length < fuel)
    (h : Counts m ws) :
    ∃ good rest m' ws', readWords maxSize fuel input m = (good, rest, m') ∧
      words input = ws' ++ words rest ∧ Counts m' (ws ++ ws') ∧
      (good = true → rest.length < input.length) ∧ (good = false → words rest = []) := by
  induction fuel generalizing input m ws with
  | zero => exact absurd hfuel (Nat.not_lt_zero _)
  | succ fuel ih =>
    rw [readWords]
    cases hextract : extract input with
    | none =>
      refine ⟨false, [], m, [], rfl, ?_, by rwa [List.append_nil], fun hf => (by cases hf), fun _ => rfl⟩
      rw [words_of_extract_none hextract]
      rfl
    | some p =>
      obtain ⟨word, rest⟩ := p
      obtain ⟨hwords, hlt, -⟩ := words_of_extract hextract
      have hbump := h.bump word
      dsimp only
      split_ifs with hfull
      · exact ⟨true, rest, _, [word], rfl, hwords, hbump, fun _ => hlt, fun hf => (by cases hf)⟩
      · obtain ⟨good, rest', m', ws', hread, hws, hcounts, hgood, hend⟩ :=
          ih (Nat.lt_of_lt_of_le hlt (Nat.le_of_lt_succ hfuel)) hbump
        refine ⟨good, rest', m', word :: ws', hread, by rw [hwords, hws, List.cons_append], ?_,
          fun hg => (hgood hg).trans hlt, hend⟩
        rwa [List.append_assoc, List.singleton_append] at hcounts

/-! ## Sending -/

/-- The line of a record. -/
def line (e : Bytes × ℤ) : Bytes := cString e.1 ++ 9 :: decimalInt e.2 ++ crlf

/-- A record that the throttler can send. -/
structure Sendable (batchSize : ℕ) (e : Bytes × ℤ) : Prop where
  nonneg : 0 ≤ e.2
  lt : e.2 < 2 ^ 63
  short : batchSize + e.1.length + 64 < 2 ^ 31

theorem decimalInt_of_nonneg {n : ℤ} (h : 0 ≤ n) : decimalInt n = decimal n.toNat := by
  rw [decimalInt, if_neg (by omega), show n.natAbs = n.toNat by omega]

/-- A string that a connection passes on as it is. -/
def Whole (message : Bytes) : Prop := message.length < 2 ^ 31 ∧ 0 ∉ message

/-- What the throttler keeps between two records. -/
structure Waiting (batchSize : ℕ) (t : SendThrottler) : Prop where
  wf : t.buffer.Wf
  short : t.buffer.readable.length ≤ batchSize
  no_nul : 0 ∉ t.buffer.readable
  sent : ∀ message ∈ t.sent, Whole message

/-- What `snprintf` prints behind the word is no longer than its buffer and has no NUL. -/
theorem count_text {n : ℤ} (hnonneg : 0 ≤ n) (hlt : n < 2 ^ 63) :
    (9 :: decimalInt n ++ crlf).length ≤ 63 ∧ 0 ∉ 9 :: decimalInt n ++ crlf := by
  have hlen : (decimal n.toNat).length ≤ 19 := length_decimal_le (by decide) (by omega)
  have hdigit : 0 ∉ decimal n.toNat := fun h => absurd (digit_of_mem_decimal h).1 (by decide)
  rw [decimalInt_of_nonneg hnonneg]
  constructor
  · simp only [List.cons_append, List.length_cons, List.length_append]
    have hcrlf : crlf.length = 2 := rfl
    omega
  · have hcrlf : (0 : Byte) ∉ crlf := by decide
    simp [hdigit, hcrlf]

theorem connSend_spec {t : SendThrottler} (hwf : t.buffer.Wf) (hlen : t.buffer.readable.length < 2 ^ 31)
    (hnul : 0 ∉ t.buffer.readable) (hsent : ∀ message ∈ t.sent, Whole message) :
    ∃ t', t.connSend = .ok t' ∧ t'.buffer.Wf ∧ t'.buffer.readable = [] ∧
      t'.sent.flatten = t.sent.flatten ++ t.buffer.readable ∧ ∀ message ∈ t'.sent, Whole message := by
  obtain ⟨buffer, hall, hwf', hread⟩ := hwf.retrieveAsString le_rfl
  rw [← hwf.length_readable, List.take_length] at hall
  rw [← hwf.length_readable, List.drop_length] at hread
  refine ⟨⟨buffer, t.sent ++ [t.buffer.readable]⟩, ?_, hwf', hread, ?_, fun message hm => ?_⟩
  · unfold SendThrottler.connSend Buffer.retrieveAllAsString
    rw [← hwf.length_readable, hall, ok_bind]
    rfl
  · rw [List.flatten_append, List.flatten_singleton]
  · rcases List.mem_append.1 hm with hm | hm
    · exact hsent message hm
    · obtain rfl := List.mem_singleton.1 hm
      exact ⟨hlen, hnul⟩

theorem send_spec {batchSize : ℕ} {t : SendThrottler} (h : Waiting batchSize t) {e : Bytes × ℤ}
    (he : Sendable batchSize e) :
    ∃ t', t.send batchSize e.1 e.2 = .ok t' ∧ Waiting batchSize t' ∧
      t'.sent.flatten ++ t'.buffer.readable = t.sent.flatten ++ t.buffer.readable ++ line e := by
  obtain ⟨word, n⟩ := e
  obtain ⟨hnonneg, hlt, hshort⟩ := he
  dsimp only at hnonneg hlt hshort ⊢
  obtain ⟨htext, hnul⟩ := count_text hnonneg hlt
  have hword := (cString_prefix_self word).length_le
  obtain ⟨b, hb, hwf, hread⟩ := h.wf.append (cString word)
  obtain ⟨b', hb', hwf', hread'⟩ := hwf.append (9 :: decimalInt n ++ crlf)
  have hline : b'.readable = t.buffer.readable ++ line (word, n) := by
    rw [hread', hread, List.append_assoc, line]
    simp only [List.append_assoc, List.cons_append]
  have hnul' : 0 ∉ b'.readable := by
    have hzero : 0 ∉ cString word := fun hmem => by simpa using List.mem_takeWhile_imp hmem
    rw [hread', hread, List.mem_append, List.mem_append]
    rintro ((hz | hz) | hz)
    · exact h.no_nul hz
    · exact hzero hz
    · exact hnul hz
  have hlen : b'.readable.length < 2 ^ 31 := by
    have hbuffer := h.short
    rw [hread', hread, List.length_append, List.length_append]
    omega
  unfold SendThrottler.send Buffer.appendPiece snprintf
  rw [List.take_of_length_le htext, StringPiece.read_ofString (by omega), ok_bind, hb, ok_bind]
  dsimp only
  rw [StringPiece.read_ofString (Nat.lt_of_le_of_lt htext (by omega)), cString_eq_self_iff.2 hnul,
    ok_bind, hb', ok_bind]
  by_cases hfull : batchSize ≤ b'.readableBytes
  · rw [if_pos hfull]
    obtain ⟨t', ht', hwf'', hempty, hsent, hwhole⟩ :=
      connSend_spec (t := { t with buffer := b' }) hwf' hlen hnul' h.sent
    refine ⟨t', ht', ⟨hwf'', ?_, ?_, hwhole⟩, ?_⟩
    · rw [hempty]
      exact Nat.zero_le _
    · rw [hempty]
      exact List.not_mem_nil
    · rw [hempty, List.append_nil, hsent, hline, List.append_assoc]
  · rw [if_neg hfull]
    refine ⟨{ t with buffer := b' }, rfl, ⟨hwf', ?_, hnul', h.sent⟩, ?_⟩
    · rw [hwf'.length_readable]
      omega
    · rw [hline, List.append_assoc]

/-- The records that go to a bucket. -/
def share (cfg : Config) (size i : ℕ) (records : WordCountMap) : WordCountMap :=
  records.filter fun e => cfg.hash e.1 % size = i

/-- A bucket has passed the records on, in strings that its connection leaves whole. -/
def Carried (t : SendThrottler) (records : WordCountMap) : Prop :=
  t.sent.flatten = records.flatMap line ∧ ∀ message ∈ t.sent, Whole message

/-- The records have been passed to the buckets. -/
structure Passed (cfg : Config) (s : WordCountSender) (records : WordCountMap) : Prop where
  waiting : ∀ i, Waiting cfg.batchSize (s.buckets i)
  stream : ∀ i, (s.buckets i).sent.flatten ++ (s.buckets i).buffer.readable =
    (share cfg s.size i records).flatMap line

theorem passed_new (cfg : Config) (size : ℕ) : Passed cfg (WordCountSender.new size) [] := by
  have hempty : SendThrottler.new.buffer.readable = [] := Buffer.readable_empty
  refine ⟨fun i => ⟨Buffer.wf_empty, ?_, ?_, fun _ hm => absurd hm List.not_mem_nil⟩, fun i => ?_⟩
  · show SendThrottler.new.buffer.readable.length ≤ _
    rw [hempty]
    exact Nat.zero_le _
  · show 0 ∉ SendThrottler.new.buffer.readable
    rw [hempty]
    exact List.not_mem_nil
  · show [] ++ SendThrottler.new.buffer.readable = _
    rw [hempty]
    rfl

theorem sendRecords_spec {cfg : Config} {s : WordCountSender} {done : WordCountMap}
    (h : Passed cfg s done) (hsize : 0 < s.size) {records : WordCountMap}
    (hrecords : ∀ e ∈ records, Sendable cfg.batchSize e) :
    ∃ s', s.sendRecords cfg records = .ok s' ∧ s'.size = s.size ∧ Passed cfg s' (done ++ records) := by
  induction records generalizing s done with
  | nil => exact ⟨s, rfl, rfl, by rwa [List.append_nil]⟩
  | cons e records ih =>
    obtain ⟨word, n⟩ := e
    have hidx : cfg.hash word % s.size < s.size := Nat.mod_lt _ hsize
    obtain ⟨t, ht, hwaiting, hstream⟩ :=
      send_spec (h.waiting (cfg.hash word % s.size)) (hrecords _ List.mem_cons_self)
    have hpassed : Passed cfg { s with
        buckets := Function.update s.buckets (cfg.hash word % s.size) t } (done ++ [(word, n)]) := by
      refine ⟨fun i => ?_, fun i => ?_⟩
      · dsimp only
        by_cases hi : i = cfg.hash word % s.size
        · subst hi
          rwa [Function.update_self]
        · rw [Function.update_of_ne hi]
          exact h.waiting i
      · dsimp only
        rw [share, List.filter_append, List.flatMap_append]
        by_cases hi : i = cfg.hash word % s.size
        · subst hi
          rw [Function.update_self, hstream, h.stream, List.filter_cons_of_pos (by simp)]
          simp [share]
        · rw [Function.update_of_ne hi, h.stream, List.filter_cons_of_neg (by simpa using Ne.symm hi)]
          simp [share]
    obtain ⟨s', hs', hsize', hpassed'⟩ :=
      ih hpassed hsize fun e he => hrecords e (List.mem_cons_of_mem _ he)
    refine ⟨s', ?_, hsize', by rwa [List.append_assoc, List.singleton_append] at hpassed'⟩
    rw [WordCountSender.sendRecords, check_of hidx, ok_bind, ht, ok_bind, hs']

/-- The words fit the buffers and the counts. -/
structure Countable (batchSize : ℕ) (ws : List Bytes) : Prop where
  short : ∀ w ∈ ws, batchSize + w.length + 64 < 2 ^ 31
  few : ws.length < 2 ^ 63

theorem Counts.sendable {batchSize : ℕ} (h : Counts m ws) (hws : Countable batchSize ws) :
    ∀ e ∈ m, Sendable batchSize e := fun e he =>
  ⟨h.nonneg e he, lt_of_le_of_lt (h.le_length he) (by exact_mod_cast hws.few),
    hws.short e.1 (h.key e he)⟩

theorem Countable.left {batchSize : ℕ} (h : Countable batchSize (ws ++ ws')) : Countable batchSize ws := by
  refine ⟨fun w hw => h.short w (List.mem_append_left _ hw), ?_⟩
  have hlen := h.few
  rw [List.length_append] at hlen
  omega

theorem Countable.right {batchSize : ℕ} (h : Countable batchSize (ws ++ ws')) :
    Countable batchSize ws' := by
  refine ⟨fun w hw => h.short w (List.mem_append_right _ hw), ?_⟩
  have hlen := h.few
  rw [List.length_append] at hlen
  omega

theorem processLoop_spec {cfg : Config} {maxSize fuel : ℕ} {s : WordCountSender} {done : WordCountMap}
    (h : Passed cfg s done) (hsize : 0 < s.size) {input : Bytes} (hfuel : input.length + 1 < fuel)
    (hwords : Countable cfg.batchSize (words input)) :
    ∃ s' records, s.processLoop cfg maxSize fuel input = .ok s' ∧ s'.size = s.size ∧
      Passed cfg s' (done ++ records) ∧ Counts records (words input) := by
  induction fuel generalizing s done input with
  | zero => exact absurd hfuel (Nat.not_lt_zero _)
  | succ fuel ih =>
    obtain ⟨good, rest, m, ws, hread, hws, hcounts, hgood, hend⟩ :=
      readWords_spec maxSize (Nat.lt_succ_self input.length) counts_nil
    rw [List.nil_append] at hcounts
    rw [hws] at hwords ⊢
    have hsent := (hcounts.perm (cfg.perm m)).sendable hwords.left
    obtain ⟨s₁, hs₁, hsize₁, hpassed₁⟩ := sendRecords_spec h hsize hsent
    rw [WordCountSender.processLoop, hread]
    dsimp only
    rw [hs₁, ok_bind]
    cases good with
    | false =>
      refine ⟨s₁, cfg.order m, rfl, hsize₁, hpassed₁, ?_⟩
      rw [hend rfl, List.append_nil]
      exact hcounts.perm (cfg.perm m)
    | true =>
      have hlt := hgood rfl
      obtain ⟨s₂, records, hs₂, hsize₂, hpassed₂, hcounts₂⟩ :=
        ih hpassed₁ (by rw [hsize₁]; exact hsize) (by omega) hwords.right
      refine ⟨s₂, cfg.order m ++ records, hs₂, hsize₂.trans hsize₁, ?_,
        (hcounts.perm (cfg.perm m)).append hcounts₂⟩
      rwa [← List.append_assoc]

/-- The words of the files that can be opened. -/
def allWords (files : List (Option Bytes)) : List Bytes :=
  files.flatMap fun file => words (file.getD [])

theorem processFile_spec {cfg : Config} {s : WordCountSender} {done : WordCountMap}
    (h : Passed cfg s done) (hsize : 0 < s.size) {file : Option Bytes}
    (hwords : Countable cfg.batchSize (words (file.getD []))) :
    ∃ s' records, s.processFile cfg file = .ok s' ∧ s'.size = s.size ∧
      Passed cfg s' (done ++ records) ∧ Counts records (words (file.getD [])) := by
  cases file with
  | none => exact ⟨s, [], rfl, rfl, by rwa [List.append_nil], counts_nil⟩
  | some content => exact processLoop_spec h hsize (Nat.lt_succ_self _) hwords

theorem disconnect_spec {batchSize : ℕ} (hbatch : batchSize < 2 ^ 31) {t : SendThrottler}
    (h : Waiting batchSize t) :
    ∃ t', t.disconnect = .ok t' ∧ t'.sent.flatten = t.sent.flatten ++ t.buffer.readable ∧
      ∀ message ∈ t'.sent, Whole message := by
  have hlen := h.short
  unfold SendThrottler.disconnect
  split_ifs with hpending
  · obtain ⟨t', ht', -, -, hsent⟩ := connSend_spec h.wf (by omega) h.no_nul h.sent
    exact ⟨t', ht', hsent⟩
  · have hempty : t.buffer.readable = [] := by
      rw [← List.length_eq_zero_iff, h.wf.length_readable]
      omega
    exact ⟨t, rfl, by rw [hempty, List.append_nil], h.sent⟩

theorem disconnectLoop_spec {cfg : Config} (hbatch : cfg.batchSize < 2 ^ 31) {s : WordCountSender}
    {records : WordCountMap} (h : Passed cfg s records) (k : ℕ) :
    ∃ s', s.disconnectLoop k = .ok s' ∧
      (∀ i < k, Carried (s'.buckets i) (share cfg s.size i records)) ∧
      ∀ i, k ≤ i → s'.buckets i = s.buckets i := by
  induction k with
  | zero => exact ⟨s, rfl, fun i hi => absurd hi (Nat.not_lt_zero i), fun _ _ => rfl⟩
  | succ k ih =>
    obtain ⟨s', hs', hdone, hleft⟩ := ih
    obtain ⟨t, ht, hsent, hwhole⟩ := disconnect_spec hbatch (h.waiting k)
    rw [h.stream] at hsent
    refine ⟨{ s' with buckets := Function.update s'.buckets k t }, ?_, fun i hi => ?_, fun i hi => ?_⟩
    · rw [WordCountSender.disconnectLoop, hs', ok_bind, hleft k le_rfl, ht]
      rfl
    · dsimp only
      by_cases hik : i = k
      · subst hik
        rw [Function.update_self]
        exact ⟨hsent, hwhole⟩
      · rw [Function.update_of_ne hik]
        exact hdone i (by omega)
    · dsimp only
      rw [Function.update_of_ne (by omega)]
      exact hleft i (by omega)

theorem processFiles_of_passed {cfg : Config} (hbatch : cfg.batchSize < 2 ^ 31) {s : WordCountSender}
    {done : WordCountMap} (h : Passed cfg s done) (hsize : 0 < s.size) {files : List (Option Bytes)}
    (hwords : Countable cfg.batchSize (allWords files)) :
    ∃ s' records, s.processFiles cfg files = .ok s' ∧ Counts records (allWords files) ∧
      ∀ i < s.size, Carried (s'.buckets i) (share cfg s.size i (done ++ records)) := by
  induction files generalizing s done with
  | nil =>
    obtain ⟨s', hs', hsent, -⟩ := disconnectLoop_spec hbatch h s.size
    exact ⟨s', [], hs', counts_nil, by rwa [List.append_nil]⟩
  | cons file files ih =>
    rw [allWords, List.flatMap_cons] at hwords
    obtain ⟨s₁, records₁, hs₁, hsize₁, hpassed₁, hcounts₁⟩ := processFile_spec h hsize hwords.left
    obtain ⟨s₂, records₂, hs₂, hcounts₂, hsent₂⟩ :=
      ih hpassed₁ (by rw [hsize₁]; exact hsize) hwords.right
    refine ⟨s₂, records₁ ++ records₂, ?_, ?_, ?_⟩
    · rw [WordCountSender.processFiles, hs₁, ok_bind, hs₂]
    · rw [allWords, List.flatMap_cons]
      exact hcounts₁.append hcounts₂
    · rwa [hsize₁, List.append_assoc] at hsent₂

/-- What goes to the receivers are records that add up to the words. -/
theorem processFiles_spec {cfg : Config} (hbatch : cfg.batchSize < 2 ^ 31) {size : ℕ} (hsize : 0 < size)
    {files : List (Option Bytes)} (hwords : Countable cfg.batchSize (allWords files)) :
    ∃ s records, (WordCountSender.new size).processFiles cfg files = .ok s ∧
      Counts records (allWords files) ∧
      ∀ i < size, Carried (s.buckets i) (share cfg size i records) :=
  processFiles_of_passed hbatch (passed_new cfg size) hsize hwords

end WordCount

end Reactor
