import Mathlib.Data.List.Basic

/-!
# Machines that may fault

A `Machine` takes one action at a time: an action gives the next state or stops with a fault.  A
run is a list of actions, and what its environment promises (which actions it offers in which
state) is a condition `C : σ → α → Prop` that the run meets at every action (`Along C`).

* `inv_of_along`: an invariant that every admitted action keeps holds at the end of every run.
* `run_ok_of_along`, `run_ok_always_of_along`: if moreover no admitted action faults, no run does.
* `fault_always_of_along`, `fault_eq_always_of_along`: the same when there is one fault that they may
  raise.
* `along_congr`: conditions that agree in reachable states agree along a run.
* `always_iff_along`: if an action keeps the invariant exactly when it meets `C`, then the
  invariant holds throughout a run exactly when the run meets `C`.
* `run_ok_always_iff_along`, `run_ok_iff_along`: the same for machines whose actions fault when they do
  not meet `C`.
* `Refines.run`: a machine whose steps follow an abstract transition function follows it along
  whole runs.
-/

universe u v w x

/-- A machine whose actions may fault. -/
structure Machine (σ : Type u) (α : Type v) (ε : Type w) where
  /-- The effect of one action. -/
  step : σ → α → Except ε σ

namespace Machine

variable {σ : Type u} {α : Type v} {ε : Type w} {τ : Type x} (M : Machine σ α ε)

/-- The state after a list of actions, or the first fault. -/
def run : σ → List α → Except ε σ
  | s, [] => .ok s
  | s, a :: as =>
    match M.step s a with
    | .ok s' => run s' as
    | .error e => .error e

/-- Every action of the run is taken in a state that admits it. -/
def Along (C : σ → α → Prop) : σ → List α → Prop
  | _, [] => True
  | s, a :: as => C s a ∧ ∀ s', M.step s a = .ok s' → Along C s' as

/-- The property holds in every state of the run, its first and last included. -/
def Always (I : σ → Prop) : σ → List α → Prop
  | s, [] => I s
  | s, a :: as => I s ∧ ∀ s', M.step s a = .ok s' → Always I s' as

variable {M}

theorem run_cons_ok {s s' : σ} {a : α} (h : M.step s a = .ok s') (as : List α) :
    M.run s (a :: as) = M.run s' as := by
  simp only [run, h]

theorem run_cons_error {s : σ} {a : α} {e : ε} (h : M.step s a = .error e) (as : List α) :
    M.run s (a :: as) = .error e := by
  simp only [run, h]

theorem run_cons (s : σ) (a : α) (as : List α) :
    M.run s (a :: as) = M.step s a >>= fun s' => M.run s' as := by
  rw [run]
  cases M.step s a <;> rfl

theorem run_cons_eq_ok_iff {s t : σ} {a : α} {as : List α} :
    M.run s (a :: as) = .ok t ↔ ∃ s', M.step s a = .ok s' ∧ M.run s' as = .ok t := by
  rcases h : M.step s a with e | s'
  · rw [run_cons_error h]
    simp
  · rw [run_cons_ok h]
    simp

theorem run_append {s s' : σ} {as : List α} (h : M.run s as = .ok s') (bs : List α) :
    M.run s (as ++ bs) = M.run s' bs := by
  induction as generalizing s with
  | nil =>
    obtain rfl := Except.ok.inj h
    rfl
  | cons a as ih =>
    obtain ⟨t, ht, hr⟩ := run_cons_eq_ok_iff.1 h
    rw [List.cons_append, run_cons_ok ht]
    exact ih hr

/-- Where a run faults: some action faults in the state its predecessors reach. -/
theorem exists_fault {s : σ} {as : List α} {e : ε} (h : M.run s as = .error e) :
    ∃ p a q s', as = p ++ a :: q ∧ M.run s p = .ok s' ∧ M.step s' a = .error e := by
  induction as generalizing s with
  | nil => cases h
  | cons a as ih =>
    rcases ht : M.step s a with e' | t
    · rw [run_cons_error ht] at h
      obtain rfl := Except.error.inj h
      exact ⟨[], a, as, s, rfl, rfl, ht⟩
    · rw [run_cons_ok ht] at h
      obtain ⟨p, b, q, s', rfl, hp, hb⟩ := ih h
      exact ⟨a :: p, b, q, s', rfl, by rw [run_cons_ok ht]; exact hp, hb⟩

/-- A run from inside `P` to outside of it has an action that leaves `P`. -/
theorem exists_leaving {P : σ → Prop} {s t : σ} {as : List α} (h : M.run s as = .ok t) (hs : P s)
    (ht : ¬ P t) :
    ∃ p a q u u', as = p ++ a :: q ∧ M.run s p = .ok u ∧ M.step u a = .ok u' ∧ P u ∧ ¬ P u' := by
  induction as generalizing s with
  | nil =>
    obtain rfl := Except.ok.inj h
    exact absurd hs ht
  | cons a as ih =>
    obtain ⟨s', hs', hr⟩ := run_cons_eq_ok_iff.1 h
    by_cases hP : P s'
    · obtain ⟨p, b, q, u, u', rfl, hp, hb, hu, hu'⟩ := ih hr hP
      exact ⟨a :: p, b, q, u, u', rfl, by rw [run_cons_ok hs']; exact hp, hb, hu, hu'⟩
    · exact ⟨[], a, as, s, s', rfl, rfl, hs', hs, hP⟩

/-! ## Conditions along a run -/

theorem along_cons_ok {C : σ → α → Prop} {s s' : σ} {a : α} {as : List α}
    (h : M.step s a = .ok s') : M.Along C s (a :: as) ↔ C s a ∧ M.Along C s' as := by
  simp only [Along, h, Except.ok.injEq, forall_eq']

theorem along_cons_error {C : σ → α → Prop} {s : σ} {a : α} {as : List α} {e : ε}
    (h : M.step s a = .error e) : M.Along C s (a :: as) ↔ C s a := by
  simp [Along, h]

theorem along_true (s : σ) (as : List α) : M.Along (fun _ _ => True) s as := by
  induction as generalizing s with
  | nil => trivial
  | cons a as ih => exact ⟨trivial, fun s' _ => ih s'⟩

theorem along_of_forall {P : α → Prop} {as : List α} (h : ∀ a ∈ as, P a) (s : σ) :
    M.Along (fun _ a => P a) s as := by
  induction as generalizing s with
  | nil => trivial
  | cons a as ih =>
    exact ⟨h a List.mem_cons_self, fun s' _ => ih (fun b hb => h b (List.mem_cons_of_mem a hb)) s'⟩

/-- A concrete run is checked by running it. -/
instance decidableAlong (C : σ → α → Prop) [∀ s a, Decidable (C s a)] :
    ∀ (s : σ) (as : List α), Decidable (M.Along C s as)
  | _, [] => isTrue trivial
  | s, a :: as =>
    match h : M.step s a with
    | .ok s' =>
      have := decidableAlong C s' as
      decidable_of_iff _ (along_cons_ok h).symm
    | .error _ => decidable_of_iff _ (along_cons_error h).symm

theorem always_cons_ok {I : σ → Prop} {s s' : σ} {a : α} {as : List α}
    (h : M.step s a = .ok s') : M.Always I s (a :: as) ↔ I s ∧ M.Always I s' as := by
  simp only [Always, h, Except.ok.injEq, forall_eq']

theorem always_cons_error {I : σ → Prop} {s : σ} {a : α} {as : List α} {e : ε}
    (h : M.step s a = .error e) : M.Always I s (a :: as) ↔ I s := by
  simp [Always, h]

instance decidableAlways (I : σ → Prop) [∀ s, Decidable (I s)] :
    ∀ (s : σ) (as : List α), Decidable (M.Always I s as)
  | s, [] => inferInstanceAs (Decidable (I s))
  | s, a :: as =>
    match h : M.step s a with
    | .ok s' =>
      have := decidableAlways I s' as
      decidable_of_iff _ (always_cons_ok h).symm
    | .error _ => decidable_of_iff _ (always_cons_error h).symm

theorem along_append {C : σ → α → Prop} {s : σ} {as bs : List α} :
    M.Along C s (as ++ bs) ↔
      M.Along C s as ∧ ∀ s', M.run s as = .ok s' → M.Along C s' bs := by
  induction as generalizing s with
  | nil => simp [Along, run]
  | cons a as ih =>
    simp only [List.cons_append, Along, ih, run_cons_eq_ok_iff]
    constructor
    · rintro ⟨ha, h⟩
      exact ⟨⟨ha, fun t ht => (h t ht).1⟩, fun s' ⟨t, ht, hr⟩ => (h t ht).2 s' hr⟩
    · rintro ⟨⟨ha, h⟩, h'⟩
      exact ⟨ha, fun t ht => ⟨h t ht, fun s' hr => h' s' ⟨t, ht, hr⟩⟩⟩

/-- An action in the middle of a run. -/
theorem Along.through {C : σ → α → Prop} {s t : σ} {as bs : List α} {a : α}
    (h : M.Along C s (as ++ a :: bs)) (hr : M.run s (as ++ [a]) = .ok t) :
    ∃ u, M.run s as = .ok u ∧ C u a ∧ M.step u a = .ok t ∧ M.Along C t bs := by
  induction as generalizing s with
  | nil =>
    obtain ⟨t', ht, hr⟩ := run_cons_eq_ok_iff.1 hr
    obtain rfl := Except.ok.inj hr
    exact ⟨s, rfl, h.1, ht, h.2 t' ht⟩
  | cons b as ih =>
    obtain ⟨s', hs', hr⟩ := run_cons_eq_ok_iff.1 hr
    obtain ⟨u, hu, hC, hstep, hrest⟩ := ih (h.2 s' hs') hr
    exact ⟨u, (run_cons_ok hs' as).trans hu, hC, hstep, hrest⟩

theorem along_and {C D : σ → α → Prop} {s : σ} {as : List α} :
    M.Along (fun s a => C s a ∧ D s a) s as ↔ M.Along C s as ∧ M.Along D s as := by
  induction as generalizing s with
  | nil => simp [Along]
  | cons a as ih =>
    simp only [Along, ih]
    constructor
    · rintro ⟨⟨hc, hd⟩, h⟩
      exact ⟨⟨hc, fun s' hs' => (h s' hs').1⟩, hd, fun s' hs' => (h s' hs').2⟩
    · rintro ⟨⟨hc, h⟩, hd, h'⟩
      exact ⟨⟨hc, hd⟩, fun s' hs' => ⟨h s' hs', h' s' hs'⟩⟩

/-! ## Invariants -/

theorem inv_of_along {I : σ → Prop} {C : σ → α → Prop}
    (hstep : ∀ s a s', I s → C s a → M.step s a = .ok s' → I s') {s s' : σ} {as : List α}
    (hs : I s) (hC : M.Along C s as) (hr : M.run s as = .ok s') : I s' := by
  induction as generalizing s with
  | nil =>
    obtain rfl := Except.ok.inj hr
    exact hs
  | cons a as ih =>
    obtain ⟨t, ht, hr'⟩ := run_cons_eq_ok_iff.1 hr
    exact ih (hstep s a t hs hC.1 ht) (hC.2 t ht) hr'

theorem run_ok_of_along {I : σ → Prop} {C : σ → α → Prop}
    (hstep : ∀ s a, I s → C s a → ∃ s', M.step s a = .ok s' ∧ I s') {s : σ} {as : List α}
    (hs : I s) (hC : M.Along C s as) : ∃ s', M.run s as = .ok s' ∧ I s' := by
  induction as generalizing s with
  | nil => exact ⟨s, rfl, hs⟩
  | cons a as ih =>
    obtain ⟨t, ht, hI⟩ := hstep s a hs hC.1
    obtain ⟨s', hr, hI'⟩ := ih hI (hC.2 t ht)
    exact ⟨s', by rw [run_cons_ok ht]; exact hr, hI'⟩

/-- What holds of every fault that an admitted action can raise holds of the fault of a run. -/
theorem fault_of_along {I : σ → Prop} {C : σ → α → Prop} {P : ε → Prop}
    (hstep : ∀ s a s', I s → C s a → M.step s a = .ok s' → I s')
    (hfault : ∀ s a e, I s → C s a → M.step s a = .error e → P e) {s : σ} {as : List α} {e : ε}
    (hs : I s) (hC : M.Along C s as) (hr : M.run s as = .error e) : P e := by
  obtain ⟨p, a, q, t, rfl, hp, ha⟩ := exists_fault hr
  obtain ⟨hCp, hCa⟩ := along_append.1 hC
  exact hfault t a e (inv_of_along hstep hs hCp hp) (hCa t hp).1 ha

theorem always_of_along {I : σ → Prop} {C : σ → α → Prop}
    (hstep : ∀ s a s', I s → C s a → M.step s a = .ok s' → I s') {s : σ} {as : List α}
    (hs : I s) (hC : M.Along C s as) : M.Always I s as := by
  induction as generalizing s with
  | nil => exact hs
  | cons a as ih => exact ⟨hs, fun s' hs' => ih (hstep s a s' hs hC.1 hs') (hC.2 s' hs')⟩

/-- An invariant that every action keeps, whatever the environment does. -/
theorem always_of_step {I : σ → Prop} (hstep : ∀ s a s', I s → M.step s a = .ok s' → I s') {s : σ}
    (hs : I s) (as : List α) : M.Always I s as := by
  induction as generalizing s with
  | nil => exact hs
  | cons a as ih => exact ⟨hs, fun s' hs' => ih (hstep s a s' hs hs')⟩

/-- What holds of the state that an action is known to reach holds wherever it returns. -/
theorem step_inv_of_exists {I : σ → Prop} {C : σ → α → Prop}
    (hstep : ∀ s a, I s → C s a → ∃ s', M.step s a = .ok s' ∧ I s') :
    ∀ s a s', I s → C s a → M.step s a = .ok s' → I s' := by
  intro s a s' hs ha h
  obtain ⟨t, ht, hI⟩ := hstep s a hs ha
  obtain rfl : t = s' := Except.ok.inj (ht.symm.trans h)
  exact hI

theorem run_ok_always_of_along {I : σ → Prop} {C : σ → α → Prop}
    (hstep : ∀ s a, I s → C s a → ∃ s', M.step s a = .ok s' ∧ I s') {s : σ} {as : List α}
    (hs : I s) (hC : M.Along C s as) : (∃ s', M.run s as = .ok s') ∧ M.Always I s as := by
  obtain ⟨s', hr, -⟩ := run_ok_of_along hstep hs hC
  exact ⟨⟨s', hr⟩, always_of_along (step_inv_of_exists hstep) hs hC⟩

/-- When admitted actions raise no other fault than `e`, and that only where they do not meet `D`, no run
of them does. -/
theorem fault_along_of_along {I : σ → Prop} {C D : σ → α → Prop} {e : ε}
    (hstep : ∀ s a, I s → C s a →
      (∃ s', M.step s a = .ok s' ∧ I s') ∨ M.step s a = .error e ∧ ¬ D s a)
    {s : σ} {as : List α} (hs : I s) (hC : M.Along C s as) :
    (∀ f, M.run s as = .error f → f = e ∧ ¬ M.Along D s as) ∧ M.Always I s as := by
  have hok : ∀ s a s', I s → C s a → M.step s a = .ok s' → I s' := by
    intro s a s' hs ha h
    rcases hstep s a hs ha with ⟨t, ht, hI⟩ | ⟨he, -⟩
    · obtain rfl : t = s' := Except.ok.inj (ht.symm.trans h)
      exact hI
    · cases he.symm.trans h
  refine ⟨fun f hf => ?_, always_of_along hok hs hC⟩
  obtain ⟨p, a, q, t, rfl, hp, ha⟩ := exists_fault hf
  obtain ⟨hCp, hCa⟩ := along_append.1 hC
  rcases hstep t a (inv_of_along hok hs hCp hp) (hCa t hp).1 with ⟨u, hu, -⟩ | ⟨he, hD⟩
  · cases hu.symm.trans ha
  · refine ⟨Except.error.inj (ha.symm.trans he), fun h => hD ?_⟩
    exact ((along_append.1 h).2 t hp).1

/-- The same of a condition on the actions alone. -/
theorem fault_always_of_along {I : σ → Prop} {C : σ → α → Prop} {D : α → Prop} {e : ε}
    (hstep : ∀ s a, I s → C s a →
      (∃ s', M.step s a = .ok s' ∧ I s') ∨ M.step s a = .error e ∧ ¬ D a)
    {s : σ} {as : List α} (hs : I s) (hC : M.Along C s as) :
    (∀ f, M.run s as = .error f → f = e ∧ ∃ a ∈ as, ¬ D a) ∧ M.Always I s as := by
  refine (fault_along_of_along (D := fun _ a => D a) hstep hs hC).imp_left fun h f hf => ?_
  obtain ⟨hfe, hD⟩ := h f hf
  refine ⟨hfe, ?_⟩
  by_contra hno
  simp only [not_exists, not_and, not_not] at hno
  exact hD (along_of_forall hno s)

/-- When admitted actions raise no other fault than `e`, no run of them does. -/
theorem fault_eq_always_of_along {I : σ → Prop} {C : σ → α → Prop} {e : ε}
    (hstep : ∀ s a, I s → C s a → (∃ s', M.step s a = .ok s' ∧ I s') ∨ M.step s a = .error e)
    {s : σ} {as : List α} (hs : I s) (hC : M.Along C s as) :
    (∀ f, M.run s as = .error f → f = e) ∧ M.Always I s as := by
  obtain ⟨hfault, halways⟩ := fault_always_of_along (D := fun _ => False)
    (fun s a hs ha => (hstep s a hs ha).imp_right fun he => ⟨he, id⟩) hs hC
  exact ⟨fun f hf => (hfault f hf).1, halways⟩

/-- A run is no longer than the way that a measure has to go. -/
theorem length_le_of_along {I : σ → Prop} {C : σ → α → Prop} {μ : σ → ℕ}
    (hstep : ∀ s a s', I s → C s a → M.step s a = .ok s' → I s' ∧ μ s < μ s') {s s' : σ} {as : List α}
    (hs : I s) (hC : M.Along C s as) (hr : M.run s as = .ok s') : μ s + as.length ≤ μ s' := by
  induction as generalizing s with
  | nil =>
    obtain rfl := Except.ok.inj hr
    exact Nat.le_refl _
  | cons a as ih =>
    obtain ⟨t, ht, hr'⟩ := run_cons_eq_ok_iff.1 hr
    obtain ⟨hI, hlt⟩ := hstep s a t hs hC.1 ht
    have hle := ih hI (hC.2 t ht) hr'
    rw [List.length_cons]
    omega

/-- What every admitted action of a reachable state meets is met along the run. -/
theorem along_of_along {I : σ → Prop} {C D : σ → α → Prop}
    (hstep : ∀ s a s', I s → C s a → M.step s a = .ok s' → I s')
    (hD : ∀ s a, I s → C s a → D s a) {s : σ} {as : List α}
    (hs : I s) (hC : M.Along C s as) : M.Along D s as := by
  induction as generalizing s with
  | nil => trivial
  | cons a as ih =>
    exact ⟨hD s a hs hC.1, fun s' hs' => ih (hstep s a s' hs hC.1 hs') (hC.2 s' hs')⟩

/-- Conditions that agree on the admitted actions of reachable states agree along a run. -/
theorem along_congr {I : σ → Prop} {E C D : σ → α → Prop}
    (hstep : ∀ s a s', I s → E s a → M.step s a = .ok s' → I s')
    (hCD : ∀ s a, I s → E s a → (C s a ↔ D s a)) {s : σ} {as : List α}
    (hs : I s) (hE : M.Along E s as) : M.Along C s as ↔ M.Along D s as := by
  induction as generalizing s with
  | nil => exact Iff.rfl
  | cons a as ih =>
    exact and_congr (hCD s a hs hE.1)
      (forall₂_congr fun s' hs' => ih (hstep s a s' hs hE.1 hs') (hE.2 s' hs'))

theorem Always.mono {I I' : σ → Prop} (h : ∀ s, I s → I' s) {s : σ} {as : List α}
    (hs : M.Always I s as) : M.Always I' s as := by
  induction as generalizing s with
  | nil => exact h s hs
  | cons a as ih => exact ⟨h s hs.1, fun s' hs' => ih (hs.2 s' hs')⟩

theorem Always.start {I : σ → Prop} {s : σ} {as : List α} (h : M.Always I s as) : I s := by
  cases as with
  | nil => exact h
  | cons a as => exact h.1

/-- When `J` keeps the admitted actions from faulting, and such an action keeps `I` exactly when
it meets `C`, a run of admitted actions keeps `I` throughout exactly when it meets `C`
throughout. -/
theorem always_iff_along {I J : σ → Prop} {E C : σ → α → Prop}
    (hstep : ∀ s a, J s → E s a → ∃ s', M.step s a = .ok s' ∧ J s' ∧ (I s → (I s' ↔ C s a)))
    {s : σ} {as : List α} (hJ : J s) (hI : I s) (hE : M.Along E s as) :
    M.Always I s as ↔ M.Along C s as := by
  induction as generalizing s with
  | nil => exact ⟨fun _ => trivial, fun _ => hI⟩
  | cons a as ih =>
    obtain ⟨t, ht, hJt, hiff⟩ := hstep s a hJ hE.1
    rw [always_cons_ok ht, along_cons_ok ht]
    constructor
    · rintro ⟨-, h⟩
      have hIt : I t := h.start
      exact ⟨(hiff hI).1 hIt, (ih hJt hIt (hE.2 t ht)).1 h⟩
    · rintro ⟨hC, h⟩
      exact ⟨hI, (ih hJt ((hiff hI).2 hC) (hE.2 t ht)).2 h⟩

/-- When an admitted action of a `J` state returns with `I` exactly if it meets `C`, a run of admitted
actions returns and keeps `I` throughout exactly when it meets `C` throughout. -/
theorem run_ok_always_iff_along {I J : σ → Prop} {E C : σ → α → Prop} (hJI : ∀ s, J s → I s)
    (hstep : ∀ s a, J s → E s a → C s a → ∃ s', M.step s a = .ok s' ∧ J s')
    (hconv : ∀ s a s', J s → E s a → M.step s a = .ok s' → I s' → C s a)
    {s : σ} {as : List α} (hJ : J s) (hE : M.Along E s as) :
    ((∃ s', M.run s as = .ok s') ∧ M.Always I s as) ↔ M.Along C s as := by
  constructor
  · rintro ⟨⟨s', hr⟩, hI⟩
    induction as generalizing s with
    | nil => trivial
    | cons a as ih =>
      obtain ⟨t, ht, hr'⟩ := run_cons_eq_ok_iff.1 hr
      have hC : C s a := hconv s a t hJ hE.1 ht (hI.2 t ht).start
      have hJt : J t := step_inv_of_exists (C := fun s a => E s a ∧ C s a)
        (fun s a hs h => hstep s a hs h.1 h.2) s a t hJ ⟨hE.1, hC⟩ ht
      rw [along_cons_ok ht]
      exact ⟨hC, ih hJt (hE.2 t ht) (hI.2 t ht) hr'⟩
  · intro hC
    have hEC : M.Along (fun s a => E s a ∧ C s a) s as := along_and.2 ⟨hE, hC⟩
    have hstep' : ∀ s a, J s → E s a ∧ C s a → ∃ s', M.step s a = .ok s' ∧ J s' :=
      fun s a hs h => hstep s a hs h.1 h.2
    obtain ⟨hr, hJs⟩ := run_ok_always_of_along hstep' hJ hEC
    exact ⟨hr, hJs.mono hJI⟩

theorem run_ok_iff_along {J : σ → Prop} {E C : σ → α → Prop}
    (hstep : ∀ s a, J s → E s a → C s a → ∃ s', M.step s a = .ok s' ∧ J s')
    (hconv : ∀ s a s', J s → E s a → M.step s a = .ok s' → C s a)
    {s : σ} {as : List α} (hJ : J s) (hE : M.Along E s as) :
    (∃ s', M.run s as = .ok s') ↔ M.Along C s as := by
  have htrue : M.Always (fun _ => True) s as := always_of_step (fun _ _ _ _ _ => trivial) trivial as
  rw [← run_ok_always_iff_along (fun _ _ => trivial) hstep
    (fun s a s' hs ha h _ => hconv s a s' hs ha h) hJ hE]
  exact (and_iff_left htrue).symm

/-! ## Refinement -/

/-- Every admitted action of the machine follows the abstract transition function `f`. -/
structure Refines (M : Machine σ α ε) (f : τ → α → τ) (R : σ → τ → Prop) (C : σ → α → Prop) :
    Prop where
  step : ∀ {s : σ} {t : τ} {a : α}, R s t → C s a → ∃ s', M.step s a = .ok s' ∧ R s' (f t a)

theorem Refines.run {f : τ → α → τ} {R : σ → τ → Prop} {C : σ → α → Prop}
    (h : Refines M f R C) {s : σ} {t : τ} {as : List α} (hR : R s t) (hC : M.Along C s as) :
    ∃ s', M.run s as = .ok s' ∧ R s' (as.foldl f t) := by
  induction as generalizing s t with
  | nil => exact ⟨s, rfl, hR⟩
  | cons a as ih =>
    obtain ⟨u, hu, hR'⟩ := h.step hR hC.1
    obtain ⟨s', hr, hR''⟩ := ih hR' (hC.2 u hu)
    exact ⟨s', by rw [run_cons_ok hu]; exact hr, hR''⟩

end Machine
