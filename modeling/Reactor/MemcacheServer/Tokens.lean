import Reactor.MemcacheServer.Store

/-!
# Runs of the store

* `refines_map`: in every run of complete items whose lengths stay below `2 ^ 31`, every key stands in
  one shard and once there, the results and what is found are those of the map, a failing call leaves
  the map alone, the tokens of the stores increase, and a `cas` succeeds only if there was no store to
  its key since its token was read.
-/

namespace Reactor

namespace MemcacheServer

open Item

variable {hashRange : Bytes → ℕ}

/-! ## Runs -/

/-- A server and the results of the calls that were made. -/
structure System where
  server : MemcacheServer
  results : List Result

def init (startTime : ℤ) : System := ⟨new startTime, []⟩

variable (hashRange) in
def machine : Machine System Call Fault where
  step s c := do
    let (r, server) ← s.server.call hashRange c
    return ⟨server, s.results ++ [r]⟩

end MemcacheServer

namespace CasMap

open MemcacheServer

/-- The results of the calls and the map after them. -/
def step (t : List Result × CasMap) (c : Call) : List Result × CasMap :=
  (t.1 ++ [(t.2.call c).1], (t.2.call c).2)

def run (calls : List Call) : List Result × CasMap := calls.foldl step ([], empty)

/-- The token of a store that is carried out. -/
def token (m : CasMap) (c : Call) : Option ℕ :=
  match m.call c with
  | (.stored true _, m') => some m'.cas
  | _ => none

theorem call_failed {m : CasMap} {c : Call} (h : (m.call c).1.failed = true) : (m.call c).2 = m := by
  cases c with
  | store item policy =>
    cases haccepts : m.accepts policy item.keyBytes item.cas with
    | true =>
      rw [call_accepts haccepts] at h
      cases h
    | false => rw [call_rejects haccepts]
  | get key => rfl
  | delete key =>
    have hnone : m.map key.keyBytes = none := by
      cases hmap : m.map key.keyBytes with
      | none => rfl
      | some e => simp [call, Result.failed, hmap] at h
    show { m with map := Function.update m.map key.keyBytes none } = m
    rw [← hnone, Function.update_eq_self]

/-- A store that is carried out takes the next number as its token. -/
theorem token_eq_some {m : CasMap} {c : Call} {n : ℕ} (h : m.token c = some n) :
    n = m.cas + 1 ∧ (m.call c).2.cas = n := by
  unfold token at h
  cases c with
  | store item policy =>
    cases haccepts : m.accepts policy item.keyBytes item.cas with
    | true =>
      rw [call_accepts haccepts] at h ⊢
      have hn : m.cas + 1 = n := Option.some.inj h
      exact ⟨hn.symm, hn⟩
    | false =>
      rw [call_rejects haccepts] at h
      cases h
  | get key => cases h
  | delete key => cases h

theorem cas_le_call (m : CasMap) (c : Call) : m.cas ≤ (m.call c).2.cas := by
  cases c with
  | store item policy =>
    cases haccepts : m.accepts policy item.keyBytes item.cas with
    | true =>
      rw [call_accepts haccepts]
      exact Nat.le_succ _
    | false => rw [call_rejects haccepts]
  | get key => exact le_rfl
  | delete key => exact le_rfl

theorem cas_le_foldl (t : List Result × CasMap) (calls : List Call) :
    t.2.cas ≤ (calls.foldl step t).2.cas := by
  induction calls generalizing t with
  | nil => exact le_rfl
  | cons c calls ih => exact (cas_le_call t.2 c).trans (ih (step t c))

/-- No token is ahead of the counter. -/
def Bounded (m : CasMap) : Prop := ∀ key, ∀ e ∈ m.map key, e.cas ≤ m.cas

theorem Bounded.call {m : CasMap} (h : m.Bounded) (c : Call) : (m.call c).2.Bounded := by
  intro key e he
  cases c with
  | store item policy =>
    cases haccepts : m.accepts policy item.keyBytes item.cas with
    | true =>
      rw [call_accepts haccepts] at he ⊢
      simp only [put, Function.update_apply] at he ⊢
      split_ifs at he
      · obtain rfl := Option.some.inj he
        exact le_rfl
      · exact (h key e he).trans (Nat.le_succ _)
    | false =>
      rw [call_rejects haccepts] at he ⊢
      exact h key e he
  | get key' => exact h key e he
  | delete key' =>
    simp only [CasMap.call, Function.update_apply] at he
    split_ifs at he
    · cases he
    · exact h key e he

theorem bounded_foldl {t : List Result × CasMap} (h : t.2.Bounded) (calls : List Call) :
    (calls.foldl step t).2.Bounded := by
  induction calls generalizing t with
  | nil => exact h
  | cons c calls ih => exact ih (h.call c)

theorem bounded_run (calls : List Call) : (run calls).2.Bounded :=
  bounded_foldl (fun _ _ he => (by cases he)) calls

/-- What is stored under the key, if anything, is newer than the token. -/
def Newer (key : Bytes) (n : ℕ) (m : CasMap) : Prop :=
  n ≤ m.cas ∧ ∀ e ∈ m.map key, n < e.cas

theorem Newer.call {key : Bytes} {n : ℕ} {m : CasMap} (h : Newer key n m) (c : Call) :
    Newer key n (m.call c).2 := by
  refine ⟨h.1.trans (cas_le_call m c), fun e he => ?_⟩
  cases c with
  | store item policy =>
    cases haccepts : m.accepts policy item.keyBytes item.cas with
    | true =>
      rw [call_accepts haccepts] at he
      simp only [put, Function.update_apply] at he
      split_ifs at he
      · obtain rfl := Option.some.inj he
        exact Nat.lt_succ_of_le h.1
      · exact h.2 e he
    | false =>
      rw [call_rejects haccepts] at he
      exact h.2 e he
  | get key' => exact h.2 e he
  | delete key' =>
    simp only [CasMap.call, Function.update_apply] at he
    split_ifs at he
    · cases he
    · exact h.2 e he

theorem Newer.foldl {key : Bytes} {n : ℕ} {t : List Result × CasMap} (h : Newer key n t.2)
    (calls : List Call) : Newer key n (calls.foldl step t).2 := by
  induction calls generalizing t with
  | nil => exact h
  | cons c calls ih => exact ih (h.call c)

/-- A store makes what is under its key newer than every token so far. -/
theorem newer_of_token {m : CasMap} {c : Call} {n : ℕ} (hn : n ≤ m.cas) (h : m.token c ≠ none) :
    Newer c.item.keyBytes n (m.call c).2 := by
  refine ⟨hn.trans (cas_le_call m c), fun e he => ?_⟩
  cases c with
  | store item policy =>
    cases haccepts : m.accepts policy item.keyBytes item.cas with
    | true =>
      rw [call_accepts haccepts] at he
      simp only [put, Call.item, Function.update_self] at he
      obtain rfl := Option.some.inj he
      exact Nat.lt_succ_of_le hn
    | false =>
      unfold token at h
      rw [call_rejects haccepts] at h
      exact absurd rfl h
  | get key' => exact absurd rfl h
  | delete key' => exact absurd rfl h

/-- What is newer than a token does not accept it. -/
theorem Newer.token_eq_none {key : Bytes} {n : ℕ} {m : CasMap} (h : Newer key n m) {item : Item}
    (hkey : item.keyBytes = key) (hcas : item.cas = n) : m.token (.store item .kCas) = none := by
  subst hkey hcas
  have hrejects : m.accepts .kCas item.keyBytes item.cas = false := by
    unfold accepts
    dsimp only
    cases hmap : m.map item.keyBytes with
    | none => rfl
    | some e =>
      have hlt := h.2 e hmap
      exact decide_eq_false (by omega)
  unfold token
  rw [call_rejects hrejects]

end CasMap

namespace MemcacheServer

/-! ## Tokens -/

open Item

variable {hashRange : Bytes → ℕ}

variable (hashRange) in
/-- The token of the item that a call has stored, if it has stored one. -/
def token (s : MemcacheServer) (c : Call) : Option ℕ :=
  match s.call hashRange c with
  | .ok (.stored true _, s') => (s'.getItem c.item).map Item.cas
  | _ => none

variable {s s' : System} {t : List Result × CasMap} {m : CasMap} {calls : List Call} {startTime : ℤ}

/-- A system, and the results and the map it stands for. -/
structure Simulates (hashRange : Bytes → ℕ) (s : System) (t : List Result × CasMap) : Prop where
  results : s.results = t.1
  server : Represents hashRange s.server t.2

theorem simulates_init (startTime : ℤ) : Simulates hashRange (init startTime) ([], CasMap.empty) :=
  ⟨rfl, represents_new startTime⟩

theorem refines : Machine.Refines (machine hashRange) CasMap.step (Simulates hashRange)
    fun s c => Valid hashRange s.server c := by
  refine ⟨fun {s t c} hs hc => ?_⟩
  obtain ⟨server, hcall, hserver⟩ := hs.server.call hc
  refine ⟨⟨server, s.results ++ [(t.2.call c).1]⟩, bind_eq_ok.2 ⟨_, hcall, rfl⟩, ?_, hserver⟩
  show s.results ++ _ = t.1 ++ _
  rw [hs.results]

theorem Represents.token {s : MemcacheServer} (h : Represents hashRange s m) {c : Call}
    (hc : Valid hashRange s c) : s.token hashRange c = m.token c := by
  obtain ⟨s', hcall, hs'⟩ := h.call hc
  unfold MemcacheServer.token CasMap.token
  rw [hcall]
  cases c with
  | store item policy =>
    cases haccepts : m.accepts policy item.keyBytes item.cas with
    | true =>
      rw [CasMap.call_accepts haccepts] at hs' ⊢
      have hentry := congrArg (Option.map CasMap.Entry.cas) (hs'.getItem hc.1.toKeyed)
      rw [Option.map_map, CasMap.put] at hentry
      dsimp only at hentry
      rw [Function.update_self] at hentry
      exact hentry
    | false => rw [CasMap.call_rejects haccepts]
  | get key => rfl
  | delete key => rfl

/-- After a read, a `cas` with the token of what was read is carried out only if nothing was stored
under the key. -/
theorem Simulates.no_store (h : Simulates hashRange s t) {n : ℕ} (hn : n ≤ t.2.cas) {key : Bytes}
    (hvalid : (machine hashRange).Along (fun s c => Valid hashRange s.server c) s calls)
    (hend : ¬ CasMap.Newer key n (calls.foldl CasMap.step t).2) :
    (machine hashRange).Along (fun s c => c.item.keyBytes = key → s.server.token hashRange c = none)
      s calls := by
  induction calls generalizing s t with
  | nil => trivial
  | cons c calls ih =>
    obtain ⟨s', hstep, hs'⟩ := refines.step h hvalid.1
    rw [Machine.along_cons_ok hstep] at hvalid ⊢
    refine ⟨fun hkey => ?_, ih hs' (hn.trans (CasMap.cas_le_call _ c)) hvalid.2 hend⟩
    rw [h.server.token hvalid.1]
    by_contra htoken
    have hnewer := CasMap.newer_of_token hn htoken
    rw [hkey] at hnewer
    exact hend (CasMap.Newer.foldl (t := CasMap.step t c) hnewer calls)

variable (hashRange startTime)

/-- The tokens of the stores of a run increase. -/
def Increasing (calls : List Call) : Prop :=
  ∀ before c between c' after s s' n n', calls = before ++ c :: (between ++ c' :: after) →
    (machine hashRange).run (init startTime) before = .ok s →
    (machine hashRange).run (init startTime) (before ++ c :: between) = .ok s' →
    s.server.token hashRange c = some n → s'.server.token hashRange c' = some n' → n < n'

/-- A `cas` with a token that was read is carried out only if nothing was stored under its key in
between. -/
def Fresh (calls : List Call) : Prop :=
  ∀ before key between item after s s' x,
    calls = before ++ .get key :: (between ++ .store item .kCas :: after) →
    (machine hashRange).run (init startTime) (before ++ [.get key]) = .ok s →
    (machine hashRange).run s between = .ok s' →
    s.server.getItem key = some x → item.keyBytes = key.keyBytes → item.cas = x.cas →
    s'.server.token hashRange (.store item .kCas) ≠ none →
    (machine hashRange).Along
      (fun s c => c.item.keyBytes = key.keyBytes → s.server.token hashRange c = none) s between

variable {hashRange startTime}

/-- Part of a run of valid calls. -/
theorem simulates_before {before after : List Call}
    (hvalid : (machine hashRange).Along (fun s c => Valid hashRange s.server c) (init startTime)
      (before ++ after)) (hrun : (machine hashRange).run (init startTime) before = .ok s) :
    Simulates hashRange s (CasMap.run before) ∧
      (machine hashRange).Along (fun s c => Valid hashRange s.server c) s after := by
  obtain ⟨hbefore, hafter⟩ := Machine.along_append.1 hvalid
  obtain ⟨s₀, hrun₀, hs₀⟩ := refines.run (simulates_init startTime) hbefore
  obtain rfl := Except.ok.inj (hrun.symm.trans hrun₀)
  exact ⟨hs₀, hafter s hrun⟩

theorem increasing_of_valid
    (hvalid : (machine hashRange).Along (fun s c => Valid hashRange s.server c) (init startTime) calls) :
    Increasing hashRange startTime calls := by
  intro before c between c' after s s' n n' hcalls hrun hrun' htoken htoken'
  subst hcalls
  obtain ⟨hs, hafter⟩ := simulates_before hvalid hrun
  rw [hs.server.token hafter.1] at htoken
  have hsplit : before ++ c :: (between ++ c' :: after) = (before ++ c :: between) ++ c' :: after := by
    rw [List.append_assoc, List.cons_append]
  rw [hsplit] at hvalid
  obtain ⟨hs', hafter'⟩ := simulates_before hvalid hrun'
  rw [hs'.server.token hafter'.1] at htoken'
  have hle : n ≤ (CasMap.run (before ++ c :: between)).2.cas := by
    rw [CasMap.run, List.foldl_append, List.foldl_cons, ← (CasMap.token_eq_some htoken).2]
    exact CasMap.cas_le_foldl (CasMap.step (CasMap.run before) c) between
  rw [(CasMap.token_eq_some htoken').1]
  exact Nat.lt_succ_of_le hle

theorem keyed_of_valid {before after : List Call} {key : Item}
    (hvalid : (machine hashRange).Along (fun s c => Valid hashRange s.server c) (init startTime)
      (before ++ .get key :: after)) : key.Keyed hashRange := by
  obtain ⟨hbefore, hafter⟩ := Machine.along_append.1 hvalid
  obtain ⟨s, hrun, -⟩ := refines.run (simulates_init startTime) hbefore
  exact (hafter s hrun).1

theorem fresh_of_valid
    (hvalid : (machine hashRange).Along (fun s c => Valid hashRange s.server c) (init startTime) calls) :
    Fresh hashRange startTime calls := by
  intro before key between item after s s' x hcalls hrun hrun' hx hkey hcas htoken
  subst hcalls
  have hkeyed := keyed_of_valid hvalid
  have hsplit : before ++ .get key :: (between ++ .store item .kCas :: after) =
      (before ++ [.get key]) ++ (between ++ .store item .kCas :: after) := by
    rw [List.append_assoc, List.singleton_append]
  rw [hsplit] at hvalid
  obtain ⟨hs, hafter⟩ := simulates_before hvalid hrun
  obtain ⟨hbetween, hcas'⟩ := Machine.along_append.1 hafter
  obtain ⟨s₁, hrun₁, hs₁⟩ := refines.run hs hbetween
  obtain rfl := Except.ok.inj (hrun'.symm.trans hrun₁)
  rw [hs₁.server.token (hcas' s' hrun').1] at htoken
  have hle : x.cas ≤ (CasMap.run (before ++ [.get key])).2.cas := by
    have hentry := hs.server.getItem hkeyed
    rw [hx] at hentry
    exact CasMap.bounded_run _ _ _ hentry.symm
  exact hs.no_store hle hbetween fun hnewer =>
    htoken (CasMap.Newer.token_eq_none hnewer hkey hcas)

theorem refines_map (hashRange : Bytes → ℕ) (startTime : ℤ) (calls : List Call)
    (h : (machine hashRange).Along (fun s c => Valid hashRange s.server c) (init startTime) calls) :
    ∃ s, (machine hashRange).run (init startTime) calls = .ok s ∧
      Sharded.Placed keyBytes (keyShard hashRange) s.server.shards ∧
      s.results = (CasMap.run calls).1 ∧
      (∀ key : Item, key.Keyed hashRange →
        (s.server.getItem key).map Item.entry = (CasMap.run calls).2.map key.keyBytes) ∧
      (∀ c, Valid hashRange s.server c → ∃ r server, s.server.call hashRange c = .ok (r, server) ∧
        (r.failed = true → ∀ key : Item, key.Keyed hashRange →
          (server.getItem key).map Item.entry = (s.server.getItem key).map Item.entry)) ∧
      Increasing hashRange startTime calls ∧ Fresh hashRange startTime calls := by
  obtain ⟨s, hrun, hs⟩ := refines.run (simulates_init startTime) h
  refine ⟨s, hrun, hs.server.placed, hs.results, fun key hkey => hs.server.getItem hkey,
    fun c hc => ?_, increasing_of_valid h, fresh_of_valid h⟩
  obtain ⟨server, hcall, hserver⟩ := hs.server.call hc
  refine ⟨_, server, hcall, fun hfailed key hkey => ?_⟩
  rw [hserver.getItem hkey, CasMap.call_failed hfailed, hs.server.getItem hkey]

/-- `boost::hash_range` as its documentation describes it, for bytes below 128. -/
def boostHashRange (bytes : Bytes) : ℕ :=
  bytes.foldl (fun seed v => seed ^^^ ((v.toNat + 0x9e3779b9 + seed <<< 6 + seed >>> 2) % 2 ^ 64)) 0

/-- A value is set, read and appended to, after which its token is old. -/
def setReadAppend : List Call :=
  [.store (full boostHashRange (ascii "k") 7 0 (ascii "a") 0) .kSet,
    .get (full boostHashRange (ascii "k") 0 0 [] 0),
    .store (full boostHashRange (ascii "k") 0 0 (ascii "b") 0) .kAppend,
    .store (full boostHashRange (ascii "k") 0 0 (ascii "c") 1) .kCas,
    .delete (full boostHashRange (ascii "k") 0 0 [] 0)]

theorem refines_map_setReadAppend :
    (machine boostHashRange).Along (fun s c => Valid boostHashRange s.server c) (init 0) setReadAppend ∧
      ∃ s, (machine boostHashRange).run (init 0) setReadAppend = .ok s ∧
        s.results = [.stored true false, .got (some ⟨7, 0, ascii "a", 1⟩), .stored true true,
          .stored false true, .deleted true] := by
  have hvalid : (machine boostHashRange).Along (fun s c => Valid boostHashRange s.server c) (init 0)
      setReadAppend := by
    decide +kernel
  obtain ⟨s, hrun, -, hresults, -⟩ := refines_map boostHashRange 0 setReadAppend hvalid
  refine ⟨hvalid, s, hrun, ?_⟩
  rw [hresults]
  decide +kernel

end MemcacheServer

end Reactor
