import Mathlib.Data.List.Basic
import Mathlib.Data.Set.Insert
import Mathlib.Logic.Function.Basic

/-!
# Brokers with retained messages

A `Broker` keeps who has subscribed to what, and of every topic the message that was published last.
A publication is heard by the subscribers of the moment; who subscribes hears the retained message.

* `heard_run_follows`: what a client hears on a topic, as long as its subscription stands, is what is
  published on the topic.
-/

/-- The subscriptions, the retained messages, and what every client has heard. -/
structure Broker (κ τ μ : Type) where
  subscriptions : Set (κ × τ)
  retained : τ → Option μ
  heard : κ → List (τ × μ)

namespace Broker

inductive Op (κ τ μ : Type) where
  | subscribe (c : κ) (t : τ)
  | unsubscribe (c : κ) (t : τ)
  | publish (t : τ) (m : μ)
  | leave (c : κ)
  deriving DecidableEq, Repr

variable {κ τ μ : Type} [DecidableEq κ] [DecidableEq τ]

def empty : Broker κ τ μ := ⟨∅, fun _ => none, fun _ => []⟩

open scoped Classical in
/-- What one operation does. -/
noncomputable def apply (b : Broker κ τ μ) : Op κ τ μ → Broker κ τ μ
  | .subscribe c t =>
    { b with
      subscriptions := insert (c, t) b.subscriptions
      heard := Function.update b.heard c (b.heard c ++ (b.retained t).toList.map (t, ·)) }
  | .unsubscribe c t => { b with subscriptions := b.subscriptions \ {(c, t)} }
  | .publish t m =>
    { b with
      retained := Function.update b.retained t (some m)
      heard := fun c => b.heard c ++ if (c, t) ∈ b.subscriptions then [(t, m)] else [] }
  | .leave c => { b with subscriptions := {p ∈ b.subscriptions | p.1 ≠ c} }

noncomputable def run (b : Broker κ τ μ) (ops : List (Op κ τ μ)) : Broker κ τ μ := ops.foldl apply b

theorem run_append (b : Broker κ τ μ) (ops ops' : List (Op κ τ μ)) :
    b.run (ops ++ ops') = (b.run ops).run ops' :=
  List.foldl_append

/-! ## The view of one client -/

/-- The operation neither touches the subscription of the client to the topic nor repeats it. -/
def Op.Spares (c : κ) (t : τ) (op : Op κ τ μ) : Prop :=
  op ≠ .subscribe c t ∧ op ≠ .unsubscribe c t ∧ op ≠ .leave c

instance [DecidableEq μ] (c : κ) (t : τ) (op : Op κ τ μ) : Decidable (op.Spares c t) :=
  inferInstanceAs (Decidable (_ ∧ _ ∧ _))

/-- What the operation publishes on the topic. -/
def Op.published (t : τ) : Op κ τ μ → Option μ
  | .publish u m => if u = t then some m else none
  | .subscribe _ _ | .unsubscribe _ _ | .leave _ => none

/-- The message of the topic. -/
def on (t : τ) (p : τ × μ) : Option μ := if p.1 = t then some p.2 else none

variable {b : Broker κ τ μ} {c : κ} {t : τ}

theorem heard_publish (h : (c, t) ∈ b.subscriptions) (m : μ) :
    (b.apply (.publish t m)).heard c = b.heard c ++ [(t, m)] :=
  congrArg (b.heard c ++ ·) (if_pos h)

theorem heard_publish_of_notMem (h : (c, t) ∉ b.subscriptions) (m : μ) :
    (b.apply (.publish t m)).heard c = b.heard c :=
  (congrArg (b.heard c ++ ·) (if_neg h)).trans (List.append_nil _)

/-- One operation, heard on the topic of a subscription that it spares. -/
theorem heard_apply_follows (hsub : (c, t) ∈ b.subscriptions) {op : Op κ τ μ} (hop : op.Spares c t) :
    (c, t) ∈ (b.apply op).subscriptions ∧
      ∃ new, (b.apply op).heard c = b.heard c ++ new ∧ new.filterMap (on t) = (op.published t).toList := by
  obtain ⟨hsubscribe, hunsubscribe, hleave⟩ := hop
  cases op with
  | subscribe c' u =>
    refine ⟨Set.mem_insert_of_mem _ hsub, ?_⟩
    by_cases hc : c = c'
    · subst hc
      have hu : u ≠ t := fun heq => hsubscribe (by rw [heq])
      refine ⟨_, Function.update_self .., ?_⟩
      cases b.retained u with
      | none => rfl
      | some m => simp [on, hu, Op.published]
    · exact ⟨[], (Function.update_of_ne hc ..).trans (List.append_nil _).symm, rfl⟩
  | unsubscribe c' u =>
    refine ⟨⟨hsub, fun heq => hunsubscribe ?_⟩, [], (List.append_nil _).symm, rfl⟩
    obtain ⟨rfl, rfl⟩ := Prod.mk.inj heq
    rfl
  | publish u m =>
    refine ⟨hsub, ?_⟩
    by_cases hu : u = t
    · subst hu
      exact ⟨_, heard_publish hsub m, by simp [on, Op.published]⟩
    · by_cases hmem : (c, u) ∈ b.subscriptions
      · exact ⟨_, heard_publish hmem m, by simp [hu, on, Op.published]⟩
      · refine ⟨[], (heard_publish_of_notMem hmem m).trans (List.append_nil _).symm, ?_⟩
        simp [hu, Op.published]
  | leave c' =>
    refine ⟨⟨hsub, fun heq => hleave ?_⟩, [], (List.append_nil _).symm, rfl⟩
    exact congrArg Op.leave heq.symm

theorem heard_run_follows (hsub : (c, t) ∈ b.subscriptions) {ops : List (Op κ τ μ)}
    (hops : ∀ op ∈ ops, op.Spares c t) :
    ∃ new, (b.run ops).heard c = b.heard c ++ new ∧
      new.filterMap (on t) = ops.filterMap (Op.published t) := by
  induction ops generalizing b with
  | nil => exact ⟨[], (List.append_nil _).symm, rfl⟩
  | cons op ops ih =>
    obtain ⟨hsub', new, hnew, hon⟩ := heard_apply_follows hsub (hops op List.mem_cons_self)
    obtain ⟨more, hmore, hrest⟩ := ih hsub' fun op hop => hops op (List.mem_cons_of_mem _ hop)
    refine ⟨new ++ more, ?_, ?_⟩
    · rw [← List.append_assoc, ← hnew]
      exact hmore
    · rw [List.filterMap_append, hon, hrest, List.filterMap_cons]
      cases op.published t <;> rfl

end Broker
