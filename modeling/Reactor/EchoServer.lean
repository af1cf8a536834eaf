import Reactor.Base
import Reactor.Lib.CircularBuffer
import Reactor.Lib.Machine
import Mathlib.Data.List.Count
import Mathlib.Data.List.Nodup
import Mathlib.Logic.Function.Basic

/-!
# EchoServer

The echo server that closes idle connections.  Its buckets share the ownership of an `Entry` for each
connection; a message puts the entry into the newest bucket once more, a tick drops the oldest bucket,
and an entry without a bucket shuts its connection down.

An `EntryPtr` is the number of its entry in the order of creation.  An entry is alive as long as a
bucket has it, which is what the use count of a shared pointer says between two calls.

* `idle_connection_closed`: the entry of a connection dies with the `idleSeconds`-th tick behind the
  last sign of life of the connection, and not before.
-/

namespace Reactor

/-- A `TcpConnection`. -/
abbrev ConnId := ℕ

/-- The number of an `Entry`. -/
abbrev EntryPtr := ℕ

/-- `EchoServer`, with the entries and connections it works on. -/
structure EchoServer where
  connectionBuckets : CircularBuffer (List EntryPtr)
  -- the number of entries that were created, and `weakConn_` of each
  numEntries : ℕ
  weakConn : EntryPtr → ConnId
  -- the context of a connection, a weak pointer to its entry
  context : ConnId → Option EntryPtr
  -- the connections that were destroyed, to which a weak pointer cannot be locked any more
  gone : List ConnId
  -- the entries that were destroyed, and the calls of `shutdown` by their destructors
  destroyed : List EntryPtr
  shutdowns : List ConnId

namespace EchoServer

/-- The constructor. -/
def new (idleSeconds : ℕ) : EchoServer where
  connectionBuckets := (CircularBuffer.empty idleSeconds).resize idleSeconds []
  numEntries := 0
  weakConn := fun _ => 0
  context := fun _ => none
  gone := []
  destroyed := []
  shutdowns := []

/-- A bucket has the entry. -/
def alive (s : EchoServer) (entry : EntryPtr) : Prop := ∃ b ∈ s.connectionBuckets.items, entry ∈ b

instance (s : EchoServer) (entry : EntryPtr) : Decidable (s.alive entry) :=
  inferInstanceAs (Decidable (∃ b ∈ s.connectionBuckets.items, entry ∈ b))

/-- The entry is in the newest bucket. -/
def inserted (s : EchoServer) (entry : EntryPtr) : EchoServer :=
  { s with connectionBuckets := s.connectionBuckets.modifyBack fun b => b.insert entry }

/-- `connectionBuckets_.back().insert(entry)` -/
def insertBack (s : EchoServer) (entry : EntryPtr) : Except Fault EchoServer := do
  check .outOfBounds (0 < s.connectionBuckets.items.length)
  return s.inserted entry

/-- `onConnection` of a connection that is up. -/
def onConnectionUp (s : EchoServer) (conn : ConnId) : Except Fault EchoServer := do
  let entry := s.numEntries
  let s := { s with numEntries := s.numEntries + 1, weakConn := Function.update s.weakConn entry conn }
  let s ← s.insertBack entry
  return { s with context := Function.update s.context conn (some entry) }

/-- `onConnection` of a connection that is down. -/
def onConnectionDown (s : EchoServer) (conn : ConnId) : Except Fault EchoServer := do
  check .echoContext (s.context conn).isSome
  return s

/-- `onMessage`, without the echo. -/
def onMessage (s : EchoServer) (conn : ConnId) : Except Fault EchoServer :=
  match s.context conn with
  | none => .error .echoContext
  | some weakEntry => if s.alive weakEntry then s.insertBack weakEntry else return s

/-- `~Entry` -/
def destroyEntry (s : EchoServer) (entry : EntryPtr) : EchoServer :=
  { s with
    destroyed := s.destroyed ++ [entry]
    shutdowns := if s.weakConn entry ∈ s.gone then s.shutdowns else s.shutdowns ++ [s.weakConn entry] }

/-- `onTimer`: the entries that only the overwritten bucket had are destroyed. -/
def onTimer (s : EchoServer) : EchoServer :=
  let dropped := s.connectionBuckets.overwritten.flatten
  let s := { s with connectionBuckets := s.connectionBuckets.pushBack [] }
  (dropped.filter fun entry => ¬ s.alive entry).foldl destroyEntry s

/-! ## The machine -/

inductive Event where
  | up (conn : ConnId)
  | down (conn : ConnId)
  | message (conn : ConnId)
  | timer
  -- the last shared pointer to a connection goes away
  | gone (conn : ConnId)
  deriving DecidableEq, Repr

def step (s : EchoServer) : Event → Except Fault EchoServer
  | .up conn => s.onConnectionUp conn
  | .down conn => s.onConnectionDown conn
  | .message conn => s.onMessage conn
  | .timer => return s.onTimer
  | .gone conn => return { s with gone := s.gone ++ [conn] }

def machine : Machine EchoServer Event Fault := ⟨step⟩

/-- A connection comes up once, before anything else is heard of it, and is there while one of its
callbacks runs. -/
def Env (s : EchoServer) : Event → Prop
  | .up conn => s.context conn = none ∧ conn ∉ s.gone
  | .down conn | .message conn | .gone conn => (s.context conn).isSome ∧ conn ∉ s.gone
  | .timer => True

instance (s : EchoServer) : ∀ e, Decidable (Env s e)
  | .up _ | .down _ | .message _ | .gone _ => inferInstanceAs (Decidable (_ ∧ _))
  | .timer => isTrue trivial

/-! ## Which entries are alive -/

/-- The server has as many buckets as there are idle seconds.  An entry that was created is in a
bucket or was destroyed, once, and belongs to one connection; only destructors call `shutdown`. -/
structure Inv (idleSeconds : ℕ) (s : EchoServer) : Prop where
  capacity : s.connectionBuckets.capacity = idleSeconds
  size : s.connectionBuckets.items.length = idleSeconds
  bucket_nodup : ∀ b ∈ s.connectionBuckets.items, b.Nodup
  alive_lt : ∀ entry, s.alive entry → entry < s.numEntries
  mem_destroyed : ∀ entry, entry ∈ s.destroyed ↔ entry < s.numEntries ∧ ¬ s.alive entry
  destroyed_nodup : s.destroyed.Nodup
  context_eq : ∀ conn entry, s.context conn = some entry ↔
    entry < s.numEntries ∧ s.weakConn entry = conn
  shutdown_destroyed : ∀ conn ∈ s.shutdowns, ∃ entry ∈ s.destroyed, s.weakConn entry = conn

variable {n : ℕ} {s s' : EchoServer} {entry : EntryPtr} {conn : ConnId}

theorem inv_new (n : ℕ) : Inv n (new n) := by
  have hitems : (new n).connectionBuckets.items = List.replicate n [] := by
    simp [new, CircularBuffer.resize, CircularBuffer.empty]
  have hdead : ∀ entry, ¬ (new n).alive entry := by
    rintro entry ⟨b, hb, hmem⟩
    rw [hitems] at hb
    rw [List.eq_of_mem_replicate hb] at hmem
    cases hmem
  refine ⟨max_self n, ?_, fun b hb => ?_, fun entry h => absurd h (hdead entry), fun entry => ?_,
    List.nodup_nil, fun conn entry => ?_, fun conn h => (by cases h)⟩
  · rw [hitems, List.length_replicate]
  · rw [hitems] at hb
    rw [List.eq_of_mem_replicate hb]
    exact List.nodup_nil
  · exact ⟨fun h => (by cases h), fun h => absurd h.1 (Nat.not_lt_zero _)⟩
  · exact ⟨fun h => (by cases h), fun h => absurd h.1 (Nat.not_lt_zero _)⟩

theorem insertBack_eq (hpos : 0 < s.connectionBuckets.items.length) (entry : EntryPtr) :
    s.insertBack entry = .ok (s.inserted entry) := by
  unfold insertBack
  rw [check_of hpos]
  rfl

/-- What is said about the wheel, after an entry went into the newest bucket. -/
structure Inserted (s : EchoServer) (entry : EntryPtr) (s' : EchoServer) : Prop where
  capacity : s'.connectionBuckets.capacity = s.connectionBuckets.capacity
  items : ∃ init b, s.connectionBuckets.items = init ++ [b] ∧
    s'.connectionBuckets.items = init ++ [b.insert entry]

theorem inserted_inserted (hpos : 0 < s.connectionBuckets.items.length) (entry : EntryPtr) :
    Inserted s entry (s.inserted entry) := by
  obtain ⟨init, b, hitems⟩ := CircularBuffer.exists_items_of_pos hpos
  exact ⟨rfl, init, b, hitems, CircularBuffer.items_modifyBack hitems _⟩

theorem Inserted.size (h : Inserted s entry s') :
    s'.connectionBuckets.items.length = s.connectionBuckets.items.length := by
  obtain ⟨init, b, hitems, hs'⟩ := h.items
  rw [hitems, hs', List.length_append, List.length_append, List.length_singleton,
    List.length_singleton]

theorem Inserted.bucket_nodup (h : Inserted s entry s')
    (hnodup : ∀ b ∈ s.connectionBuckets.items, b.Nodup) :
    ∀ b ∈ s'.connectionBuckets.items, b.Nodup := by
  obtain ⟨init, b, hitems, hs'⟩ := h.items
  rw [hitems] at hnodup
  rw [hs']
  intro c hc
  rcases List.mem_append.1 hc with hc | hc
  · exact hnodup c (List.mem_append_left _ hc)
  · obtain rfl := List.mem_singleton.1 hc
    exact (hnodup b (by simp)).insert

theorem Inserted.alive_iff (h : Inserted s entry s') {x : EntryPtr} :
    s'.alive x ↔ x = entry ∨ s.alive x := by
  obtain ⟨init, b, hitems, hs'⟩ := h.items
  unfold alive
  rw [hs', hitems]
  simp only [List.mem_append, List.mem_singleton]
  constructor
  · rintro ⟨c, hc | rfl, hx⟩
    · exact .inr ⟨c, .inl hc, hx⟩
    · rcases List.mem_insert_iff.1 hx with rfl | hx
      · exact .inl rfl
      · exact .inr ⟨b, .inr rfl, hx⟩
  · rintro (rfl | ⟨c, hc | rfl, hx⟩)
    · exact ⟨_, .inr rfl, List.mem_insert_self⟩
    · exact ⟨c, .inl hc, hx⟩
    · exact ⟨_, .inr rfl, List.mem_insert_of_mem hx⟩

/-! ## One event -/

/-- A new entry becomes the context of a connection that had none. -/
theorem Inv.context_up (h : Inv n s) (hnone : s.context conn = none) (c : ConnId) (x : EntryPtr) :
    Function.update s.context conn (some s.numEntries) c = some x ↔
      x < s.numEntries + 1 ∧ Function.update s.weakConn s.numEntries conn x = c := by
  by_cases hx : x = s.numEntries
  · subst hx
    rw [Function.update_self]
    by_cases hc : c = conn
    · subst hc
      rw [Function.update_self]
      simp
    · rw [Function.update_of_ne hc, h.context_eq]
      simp [Ne.symm hc]
  · have hlt : x < s.numEntries + 1 ↔ x < s.numEntries :=
      ⟨fun hle => lt_of_le_of_ne (Nat.le_of_lt_succ hle) hx, Nat.lt_succ_of_lt⟩
    rw [Function.update_of_ne hx, hlt, ← h.context_eq]
    by_cases hc : c = conn
    · subst hc
      rw [Function.update_self, hnone]
      simp [Ne.symm hx]
    · rw [Function.update_of_ne hc]

theorem step_up (h : Inv n s) (hn : 1 ≤ n) (hE : Env s (.up conn)) :
    ∃ s', s.step (.up conn) = .ok s' ∧ Inv n s' ∧ Inserted s s.numEntries s' ∧
      s'.context = Function.update s.context conn (some s.numEntries) := by
  have hpos : 0 < s.connectionBuckets.items.length := by
    rw [h.size]
    exact hn
  have hback := inserted_inserted hpos s.numEntries
  let s' : EchoServer := { s.inserted s.numEntries with
    numEntries := s.numEntries + 1
    weakConn := Function.update s.weakConn s.numEntries conn
    context := Function.update s.context conn (some s.numEntries) }
  have hins : Inserted s s.numEntries s' := ⟨hback.capacity, hback.items⟩
  have hnew : ¬ s.alive s.numEntries := fun halive => Nat.lt_irrefl _ (h.alive_lt _ halive)
  refine ⟨s', ?_, ?_, hins, rfl⟩
  · show s.onConnectionUp conn = _
    unfold onConnectionUp
    dsimp only
    rw [insertBack_eq (by exact hpos)]
    rfl
  · refine ⟨hins.capacity.trans h.capacity, hins.size.trans h.size, hins.bucket_nodup h.bucket_nodup,
      fun x hx => ?_, fun x => ?_, h.destroyed_nodup, fun c x => ?_, fun c hc => ?_⟩
    · show x < s.numEntries + 1
      rcases hins.alive_iff.1 hx with rfl | hx
      · exact Nat.lt_succ_self _
      · exact Nat.lt_succ_of_lt (h.alive_lt x hx)
    · rw [hins.alive_iff]
      show x ∈ s.destroyed ↔ x < s.numEntries + 1 ∧ _
      rw [h.mem_destroyed]
      constructor
      · rintro ⟨hlt, hdead⟩
        exact ⟨Nat.lt_succ_of_lt hlt, by simp [hdead, hlt.ne]⟩
      · rintro ⟨hlt, hdead⟩
        rw [not_or] at hdead
        exact ⟨lt_of_le_of_ne (Nat.le_of_lt_succ hlt) hdead.1, hdead.2⟩
    · exact h.context_up hE.1 c x
    · obtain ⟨x, hx, hconn⟩ := h.shutdown_destroyed c hc
      refine ⟨x, hx, ?_⟩
      show Function.update s.weakConn s.numEntries conn x = c
      rw [Function.update_of_ne ((h.mem_destroyed x).1 hx).1.ne, hconn]

theorem step_message (h : Inv n s) (hn : 1 ≤ n) (hcontext : s.context conn = some entry) :
    ∃ s', s.step (.message conn) = .ok s' ∧ Inv n s' ∧ s'.context = s.context ∧
      (s.alive entry → Inserted s entry s') ∧ (¬ s.alive entry → s' = s) := by
  by_cases halive : s.alive entry
  · have hpos : 0 < s.connectionBuckets.items.length := by
      rw [h.size]
      exact hn
    have hins := inserted_inserted hpos entry
    have hsame : ∀ x, (s.inserted entry).alive x ↔ s.alive x := by
      intro x
      rw [hins.alive_iff]
      constructor
      · rintro (rfl | hx)
        · exact halive
        · exact hx
      · exact .inr
    refine ⟨s.inserted entry, ?_, ?_, rfl, fun _ => hins, fun hdead => absurd halive hdead⟩
    · show s.onMessage conn = _
      unfold onMessage
      rw [hcontext]
      dsimp only
      rw [if_pos halive, insertBack_eq hpos]
    · refine ⟨hins.capacity.trans h.capacity, hins.size.trans h.size,
        hins.bucket_nodup h.bucket_nodup, fun x hx => h.alive_lt x ((hsame x).1 hx), fun x => ?_,
        h.destroyed_nodup, h.context_eq, h.shutdown_destroyed⟩
      rw [hsame]
      exact h.mem_destroyed x
  · refine ⟨s, ?_, h, rfl, fun h => absurd h halive, fun _ => rfl⟩
    show s.onMessage conn = _
    unfold onMessage
    rw [hcontext]
    dsimp only
    rw [if_neg halive]
    rfl

/-- The destructors of several entries. -/
theorem foldl_destroyEntry (s : EchoServer) (entries : List EntryPtr) :
    entries.foldl destroyEntry s = { s with
      destroyed := s.destroyed ++ entries
      shutdowns := s.shutdowns ++ (entries.map s.weakConn).filter fun conn => conn ∉ s.gone } := by
  induction entries generalizing s with
  | nil => simp
  | cons e entries ih =>
    rw [List.foldl_cons, ih]
    unfold destroyEntry
    by_cases hgone : s.weakConn e ∈ s.gone <;> simp [hgone]

theorem alive_of_tail {w : List (List EntryPtr)} {x : EntryPtr}
    (h : ∃ b ∈ (w ++ [[]]).tail, x ∈ b) : ∃ b ∈ w, x ∈ b := by
  obtain ⟨b, hb, hx⟩ := h
  rcases List.mem_append.1 (List.mem_of_mem_tail hb) with hb | hb
  · exact ⟨b, hb, hx⟩
  · rw [List.mem_singleton.1 hb] at hx
    cases hx

/-- What is in the wheel and not in its front bucket stays. -/
theorem mem_take_of_left {w : List (List EntryPtr)} {x : EntryPtr} (h : ∃ b ∈ w, x ∈ b)
    (hleft : ¬ ∃ b ∈ (w ++ [[]]).tail, x ∈ b) : ∃ b ∈ w.take 1, x ∈ b := by
  obtain ⟨b, hb, hx⟩ := h
  cases w with
  | nil => cases hb
  | cons front w =>
    rcases List.mem_cons.1 hb with rfl | hb
    · exact ⟨b, by simp, hx⟩
    · exact absurd ⟨b, List.mem_append_left _ hb, hx⟩ hleft

/-- A tick: the entries that leave the wheel with the oldest bucket are destroyed. -/
theorem onTimer_spec (h : Inv n s) :
    s.onTimer.connectionBuckets.items = (s.connectionBuckets.items ++ [[]]).tail ∧
    ∃ entries : List EntryPtr, entries.Nodup ∧ (∀ x, x ∈ entries ↔ s.alive x ∧ ¬ s.onTimer.alive x) ∧
      s.onTimer = { s with
        connectionBuckets := s.connectionBuckets.pushBack []
        destroyed := s.destroyed ++ entries
        shutdowns := s.shutdowns ++ (entries.map s.weakConn).filter fun conn => conn ∉ s.gone } := by
  have hfull : s.connectionBuckets.full := by
    rw [CircularBuffer.full, h.size, h.capacity]
  have hpush : (s.connectionBuckets.pushBack []).items = (s.connectionBuckets.items ++ [[]]).tail :=
    if_pos hfull
  have hdropped : s.connectionBuckets.overwritten = s.connectionBuckets.items.take 1 := if_pos hfull
  let turned : EchoServer := { s with connectionBuckets := s.connectionBuckets.pushBack [] }
  let entries := s.connectionBuckets.overwritten.flatten.filter fun x => ¬ turned.alive x
  have honTimer : s.onTimer = { s with
      connectionBuckets := s.connectionBuckets.pushBack []
      destroyed := s.destroyed ++ entries
      shutdowns := s.shutdowns ++ (entries.map s.weakConn).filter fun conn => conn ∉ s.gone } :=
    foldl_destroyEntry turned entries
  have halive : ∀ x, s.onTimer.alive x ↔ turned.alive x := fun x => by rw [honTimer]; rfl
  refine ⟨?_, entries, ?_, fun x => ?_, honTimer⟩
  · rw [honTimer]
    exact hpush
  · refine List.Nodup.filter _ ?_
    rw [hdropped]
    cases hitems : s.connectionBuckets.items with
    | nil => exact List.nodup_nil
    | cons front w =>
      have hfront := h.bucket_nodup front (by rw [hitems]; exact List.mem_cons_self)
      simpa using hfront
  · rw [halive, List.mem_filter, hdropped, List.mem_flatten, decide_eq_true_iff]
    constructor
    · rintro ⟨⟨b, hb, hx⟩, hdead⟩
      exact ⟨⟨b, List.mem_of_mem_take hb, hx⟩, hdead⟩
    · rintro ⟨hx, hdead⟩
      refine ⟨mem_take_of_left hx fun hleft => hdead ?_, hdead⟩
      rw [← hpush] at hleft
      exact hleft

theorem inv_onTimer (h : Inv n s) : Inv n s.onTimer := by
  obtain ⟨hitems, entries, hnodup, hmem, honTimer⟩ := onTimer_spec h
  have hsub : ∀ x, s.onTimer.alive x → s.alive x := by
    intro x hx
    unfold alive at hx
    rw [hitems] at hx
    exact alive_of_tail hx
  have hdestroyed : s.onTimer.destroyed = s.destroyed ++ entries := by rw [honTimer]
  have hshutdowns : s.onTimer.shutdowns =
      s.shutdowns ++ (entries.map s.weakConn).filter fun conn => conn ∉ s.gone := by rw [honTimer]
  have hnum : s.onTimer.numEntries = s.numEntries := by rw [honTimer]
  have hweak : s.onTimer.weakConn = s.weakConn := by rw [honTimer]
  have hcontext : s.onTimer.context = s.context := by rw [honTimer]
  refine ⟨?_, ?_, fun b hb => ?_, fun x hx => ?_, fun x => ?_, ?_, fun c x => ?_, fun c hc => ?_⟩
  · rw [honTimer]
    exact h.capacity
  · rw [hitems, List.length_tail, List.length_append, List.length_singleton, Nat.add_sub_cancel, h.size]
  · rw [hitems] at hb
    rcases List.mem_append.1 (List.mem_of_mem_tail hb) with hb | hb
    · exact h.bucket_nodup b hb
    · rw [List.mem_singleton.1 hb]
      exact List.nodup_nil
  · rw [hnum]
    exact h.alive_lt x (hsub x hx)
  · rw [hdestroyed, hnum, List.mem_append, h.mem_destroyed, hmem]
    constructor
    · rintro (⟨hlt, hdead⟩ | ⟨halive, hdead⟩)
      · exact ⟨hlt, fun hx => hdead (hsub x hx)⟩
      · exact ⟨h.alive_lt x halive, hdead⟩
    · rintro ⟨hlt, hdead⟩
      by_cases halive : s.alive x
      · exact .inr ⟨halive, hdead⟩
      · exact .inl ⟨hlt, halive⟩
  · rw [hdestroyed]
    refine List.Nodup.append h.destroyed_nodup hnodup fun x hx hx' => ?_
    exact ((h.mem_destroyed x).1 hx).2 ((hmem x).1 hx').1
  · rw [hcontext, hnum, hweak]
    exact h.context_eq c x
  · rw [hshutdowns] at hc
    rw [hdestroyed, hweak]
    rcases List.mem_append.1 hc with hc | hc
    · obtain ⟨x, hx, hconn⟩ := h.shutdown_destroyed c hc
      exact ⟨x, List.mem_append_left _ hx, hconn⟩
    · obtain ⟨x, hx, hconn⟩ := List.mem_map.1 (List.mem_filter.1 hc).1
      exact ⟨x, List.mem_append_right _ hx, hconn⟩

theorem step_inv (hn : 1 ≤ n) (h : Inv n s) {e : Event} (hE : Env s e) :
    ∃ s', s.step e = .ok s' ∧ Inv n s' := by
  cases e with
  | up conn =>
    obtain ⟨s', hs', hinv, -⟩ := step_up h hn hE
    exact ⟨s', hs', hinv⟩
  | down conn =>
    refine ⟨s, ?_, h⟩
    show s.onConnectionDown conn = _
    unfold onConnectionDown
    rw [check_of hE.1]
    rfl
  | message conn =>
    obtain ⟨entry, hentry⟩ := Option.isSome_iff_exists.1 hE.1
    obtain ⟨s', hs', hinv, -⟩ := step_message h hn hentry
    exact ⟨s', hs', hinv⟩
  | timer => exact ⟨_, rfl, inv_onTimer h⟩
  | gone conn =>
    exact ⟨_, rfl, h.capacity, h.size, h.bucket_nodup, h.alive_lt, h.mem_destroyed,
      h.destroyed_nodup, h.context_eq, h.shutdown_destroyed⟩

/-! ## The age of an entry -/

/-- The entry of a connection went into the newest bucket `k` ticks ago and not since. -/
structure Aged (n : ℕ) (conn : ConnId) (entry : EntryPtr) (k : ℕ) (s : EchoServer) : Prop where
  inv : Inv n s
  context : s.context conn = some entry
  young : k < n → CircularBuffer.Newest k entry s.connectionBuckets.items
  old : n ≤ k → ¬ s.alive entry

variable {k : ℕ}

theorem Aged.alive_iff (h : Aged n conn entry k s) : s.alive entry ↔ k < n := by
  constructor
  · intro halive
    exact lt_of_not_ge fun hle => h.old hle halive
  · intro hlt
    exact (h.young hlt).mem

/-- Another entry goes into the newest bucket. -/
theorem Aged.of_inserted {x : EntryPtr} (h : Aged n conn entry k s) (hins : Inserted s x s')
    (hne : entry ≠ x) (hinv : Inv n s') (hcontext : s'.context conn = some entry) :
    Aged n conn entry k s' := by
  refine ⟨hinv, hcontext, fun hlt => ?_, fun hle halive => ?_⟩
  · have hyoung := h.young hlt
    obtain ⟨init, b, hitems, hs'⟩ := hins.items
    rw [hitems] at hyoung
    rw [hs']
    exact hyoung.insert_of_ne hne
  · rcases hins.alive_iff.1 halive with heq | halive
    · exact hne heq
    · exact h.old hle halive

theorem aged_of_inserted (hins : Inserted s entry s') (hn : 1 ≤ n) (hinv : Inv n s')
    (hcontext : s'.context conn = some entry) : Aged n conn entry 0 s' := by
  refine ⟨hinv, hcontext, fun _ => ?_, fun hle => (by omega)⟩
  obtain ⟨init, b, -, hs'⟩ := hins.items
  rw [hs']
  exact CircularBuffer.newest_insert init b entry

theorem Aged.onTimer (h : Aged n conn entry k s) : Aged n conn entry (k + 1) s.onTimer := by
  obtain ⟨hitems, entries, -, -, honTimer⟩ := onTimer_spec h.inv
  have hsize := h.inv.size
  refine ⟨inv_onTimer h.inv, ?_, fun hlt => ?_, fun hle halive => ?_⟩
  · rw [honTimer]
    exact h.context
  · rw [hitems]
    exact (h.young (by omega)).turn (by omega)
  · unfold alive at halive
    rw [hitems] at halive
    rcases Nat.lt_or_ge k n with hlt | hge
    · obtain ⟨b, hb, hmem⟩ := halive
      exact ((h.young hlt).leave (by omega)).2 b hb hmem
    · exact h.old hge (alive_of_tail halive)

/-- An event other than a message of the connection. -/
theorem Aged.step (hn : 1 ≤ n) (h : Aged n conn entry k s) {e : Event} (hE : Env s e)
    (hquiet : e ≠ .message conn) :
    ∃ s', s.step e = .ok s' ∧ Aged n conn entry (k + if e = .timer then 1 else 0) s' := by
  cases e with
  | up c =>
    obtain ⟨s', hs', hinv, hins, hcontext⟩ := step_up h.inv hn hE
    have hc : conn ≠ c := by
      rintro rfl
      cases hE.1.symm.trans h.context
    have hlt := ((h.inv.context_eq conn entry).1 h.context).1
    refine ⟨s', hs', h.of_inserted hins hlt.ne hinv ?_⟩
    rw [hcontext, Function.update_of_ne hc]
    exact h.context
  | down c =>
    obtain ⟨s', hs', hinv⟩ := step_inv hn h.inv hE
    have hsame : s' = s := by
      obtain ⟨-, hok⟩ := check_bind_eq_ok.1 (show s.onConnectionDown c = .ok s' from hs')
      exact (Except.ok.inj hok).symm
    subst hsame
    exact ⟨s', hs', h⟩
  | message c =>
    have hc : conn ≠ c := by
      rintro rfl
      exact hquiet rfl
    obtain ⟨x, hx⟩ := Option.isSome_iff_exists.1 hE.1
    obtain ⟨s', hs', hinv, hcontext, hlive, hdead⟩ := step_message h.inv hn hx
    have hne : entry ≠ x := by
      rintro rfl
      exact hc (((h.inv.context_eq conn entry).1 h.context).2.symm.trans
        ((h.inv.context_eq c entry).1 hx).2)
    refine ⟨s', hs', ?_⟩
    by_cases halive : s.alive x
    · exact h.of_inserted (hlive halive) hne hinv (by rw [hcontext]; exact h.context)
    · rw [hdead halive]
      exact h
  | timer => exact ⟨_, rfl, h.onTimer⟩
  | gone c =>
    obtain ⟨s', hs', hinv⟩ := step_inv hn h.inv hE
    obtain rfl := Except.ok.inj (show Except.ok _ = Except.ok s' from hs')
    exact ⟨_, hs', hinv, h.context, h.young, h.old⟩

theorem Aged.run (hn : 1 ≤ n) (h : Aged n conn entry k s) {mid : List Event}
    (hE : machine.Along Env s mid) (hquiet : .message conn ∉ mid) :
    ∃ s', machine.run s mid = .ok s' ∧ Aged n conn entry (k + mid.count .timer) s' := by
  induction mid generalizing s k with
  | nil => exact ⟨s, rfl, h⟩
  | cons e mid ih =>
    obtain ⟨hne, hrest⟩ := List.ne_and_not_mem_of_not_mem_cons hquiet
    obtain ⟨s₁, hs₁, haged⟩ := h.step hn hE.1 (Ne.symm hne)
    have hstep : machine.step s e = .ok s₁ := hs₁
    obtain ⟨s', hs', haged'⟩ := ih haged ((Machine.along_cons_ok hstep).1 hE).2 hrest
    refine ⟨s', by rw [Machine.run_cons_ok hstep]; exact hs', ?_⟩
    rw [List.count_cons]
    have hsum : k + (mid.count .timer + if e == .timer then 1 else 0) =
        (k + if e = .timer then 1 else 0) + mid.count .timer := by
      simp only [beq_iff_eq]
      omega
    rw [hsum]
    exact haged'

/-- A sign of life: the connection comes up, or a message comes while its entry is alive. -/
theorem aged_of_touch (hn : 1 ≤ n) (h : Inv n s) {e : Event} (hE : Env s e)
    (htouch : e = .up conn ∨ e = .message conn ∧ ∃ entry, s.context conn = some entry ∧ s.alive entry) :
    ∃ s' entry, s.step e = .ok s' ∧ Aged n conn entry 0 s' := by
  rcases htouch with rfl | ⟨rfl, entry, hentry, halive⟩
  · obtain ⟨s', hs', hinv, hins, hcontext⟩ := step_up h hn hE
    exact ⟨s', _, hs', aged_of_inserted hins hn hinv (by rw [hcontext, Function.update_self])⟩
  · obtain ⟨s', hs', hinv, hcontext, hlive, -⟩ := step_message h hn hentry
    exact ⟨s', entry, hs', aged_of_inserted (hlive halive) hn hinv (by rw [hcontext]; exact hentry)⟩

/-! ## Destructors -/

theorem Inv.count_destroyed (h : Inv n s) (hlt : entry < s.numEntries) :
    s.destroyed.count entry = if s.alive entry then 0 else 1 := by
  split_ifs with halive
  · exact List.count_eq_zero.2 fun hmem => ((h.mem_destroyed entry).1 hmem).2 halive
  · exact List.count_eq_one_of_mem h.destroyed_nodup ((h.mem_destroyed entry).2 ⟨hlt, halive⟩)

theorem Aged.not_shutdown (h : Aged n conn entry k s) (hlt : k < n) : conn ∉ s.shutdowns := by
  intro hmem
  obtain ⟨x, hx, hconn⟩ := h.inv.shutdown_destroyed conn hmem
  obtain ⟨hx, hdead⟩ := (h.inv.mem_destroyed x).1 hx
  have heq := (h.inv.context_eq conn x).2 ⟨hx, hconn⟩
  obtain rfl := Option.some.inj (h.context.symm.trans heq)
  exact hdead (h.alive_iff.2 hlt)

/-- The last tick calls `shutdown` once, on a connection that is still there. -/
theorem Aged.count_shutdowns (h : Aged n conn entry k s) (hk : k + 1 = n) :
    s.onTimer.shutdowns.count conn = if conn ∈ s.gone then 0 else 1 := by
  obtain ⟨-, entries, hnodup, hmem, honTimer⟩ := onTimer_spec h.inv
  obtain ⟨hlt, hconn⟩ := (h.inv.context_eq conn entry).1 h.context
  have hentry : entry ∈ entries :=
    (hmem entry).2 ⟨h.alive_iff.2 (by omega), fun halive => by
      have := h.onTimer.alive_iff.1 halive
      omega⟩
  have hshutdowns : s.onTimer.shutdowns =
      s.shutdowns ++ (entries.map s.weakConn).filter fun conn => conn ∉ s.gone := by rw [honTimer]
  have hbefore : s.shutdowns.count conn = 0 := List.count_eq_zero.2 (h.not_shutdown (by omega))
  rw [hshutdowns, List.count_append, hbefore, Nat.zero_add]
  split_ifs with hgone
  · exact List.count_eq_zero.2 fun hin => by simpa [hgone] using (List.mem_filter.1 hin).2
  · have hinj : (entries.map s.weakConn).Nodup := by
      refine List.Nodup.map_on (fun x hx y hy heq => ?_) hnodup
      have hcx := (h.inv.context_eq _ x).2 ⟨h.inv.alive_lt x ((hmem x).1 hx).1, rfl⟩
      have hcy := (h.inv.context_eq _ y).2 ⟨h.inv.alive_lt y ((hmem y).1 hy).1, heq.symm⟩
      exact Option.some.inj (hcx.symm.trans hcy)
    refine List.count_eq_one_of_mem (hinj.filter _) (List.mem_filter.2 ⟨?_, by simpa using hgone⟩)
    exact List.mem_map.2 ⟨entry, hentry, hconn⟩

/-- Behind the last sign of life of a connection its entry is alive for `n - 1` ticks and is destroyed
by the `n`-th; only then is the connection shut down, if it is still there. -/
theorem idle_connection_closed {n : ℕ} (hn : 1 ≤ n) (conn : ConnId) (before mid : List Event)
    (e : Event) (hE : machine.Along Env (new n) (before ++ e :: mid))
    (htouch : e = .up conn ∨ e = .message conn ∧ ∀ s, machine.run (new n) before = .ok s →
      ∃ entry, s.context conn = some entry ∧ s.alive entry)
    (hquiet : .message conn ∉ mid) :
    ∃ s entry, machine.run (new n) (before ++ e :: mid) = .ok s ∧ s.context conn = some entry ∧
      (s.alive entry ↔ mid.count .timer < n) ∧
      s.destroyed.count entry = (if mid.count .timer < n then 0 else 1) ∧
      (mid.count .timer < n → conn ∉ s.shutdowns) ∧
      (mid.count .timer + 1 = n → ∃ s', machine.step s .timer = .ok s' ∧
        s'.destroyed.count entry = 1 ∧
        s'.shutdowns.count conn = if conn ∈ s.gone then 0 else 1) := by
  obtain ⟨hE₁, hE₂⟩ := Machine.along_append.1 hE
  obtain ⟨s₁, hs₁, hinv₁⟩ := Machine.run_ok_of_along (I := Inv n) (fun _ _ h hE => step_inv hn h hE)
    (inv_new n) hE₁
  obtain ⟨hEe, hEmid⟩ := hE₂ s₁ hs₁
  obtain ⟨s₂, entry, hs₂, haged⟩ := aged_of_touch hn hinv₁ hEe
    (htouch.imp_right fun h => ⟨h.1, h.2 s₁ hs₁⟩)
  obtain ⟨s, hs, haged⟩ := haged.run hn (hEmid s₂ hs₂) hquiet
  rw [Nat.zero_add] at haged
  have hlt := ((haged.inv.context_eq conn entry).1 haged.context).1
  refine ⟨s, entry, ?_, haged.context, haged.alive_iff, ?_, haged.not_shutdown, fun hk => ?_⟩
  · rw [Machine.run_append hs₁, Machine.run_cons_ok hs₂]
    exact hs
  · rw [haged.inv.count_destroyed hlt]
    exact if_congr haged.alive_iff rfl rfl
  · have hlast := haged.onTimer
    refine ⟨s.onTimer, rfl, ?_, haged.count_shutdowns hk⟩
    rw [hlast.inv.count_destroyed ((hlast.inv.context_eq conn entry).1 hlast.context).1,
      if_neg (by rw [hlast.alive_iff]; omega)]

/-- A message in the second before the last puts the shutdown off, while the other connection has its
own time. -/
theorem idle_connection_closed_two_seconds :
    ∃ s entry, machine.run (new 2)
        ([.up 7, .timer] ++ .message 7 :: [.up 8, .timer, .message 8]) = .ok s ∧
      s.context 7 = some entry ∧ s.alive entry ∧
      ∃ s', machine.step s .timer = .ok s' ∧ s'.destroyed.count entry = 1 ∧
        s'.shutdowns.count 7 = if 7 ∈ s.gone then 0 else 1 := by
  have halive : (machine.run (new 2) [.up 7, .timer]).toOption.any
      (fun s => s.context 7 = some 0 ∧ s.alive 0) := by
    decide +kernel
  obtain ⟨s, entry, hs, hcontext, hiff, -, -, hlast⟩ := idle_connection_closed (by decide) 7
    [.up 7, .timer] [.up 8, .timer, .message 8] (.message 7) (show machine.Along Env (new 2) _ by
      decide +kernel)
    (.inr ⟨rfl, fun s hs => ⟨0, by rw [hs] at halive; exact of_decide_eq_true halive⟩⟩)
    (by decide)
  exact ⟨s, entry, hs, hcontext, hiff.2 (by decide), hlast (by decide)⟩

end EchoServer

end Reactor
