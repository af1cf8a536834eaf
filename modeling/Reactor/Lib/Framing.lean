import Mathlib.Data.List.Basic

/-!
# Streams of frames

A reader takes a frame from the front of what has come of a stream, or waits for more of it.  What it
makes of a frame that is there does not depend on what comes behind, so it does not matter where the
stream is cut.
-/

namespace Framing

/-- What a reader does in a state with the elements that are there: it fails, it waits, or it goes to
another state and takes a number of elements. -/
structure Reader (σ β ε : Type) where
  step : σ → List β → Except ε (Option (σ × ℕ))
  /-- A frame is there as a whole. -/
  le_length : ∀ {s xs s' n}, step s xs = .ok (some (s', n)) → n ≤ xs.length
  /-- Only a reader that waits looks at what comes behind. -/
  step_append : ∀ {s xs} (ys : List β), step s xs ≠ .ok none → step s (xs ++ ys) = step s xs

/-- The reader takes frames until it waits: the state it gets to, and what is left. -/
inductive Drains {σ β ε : Type} (reader : Reader σ β ε) : σ → List β → σ → List β → Prop
  | wait {s xs} (h : reader.step s xs = .ok none) : Drains reader s xs s xs
  | take {s xs s' n s'' rest} (h : reader.step s xs = .ok (some (s', n)))
      (hrest : Drains reader s' (xs.drop n) s'' rest) : Drains reader s xs s'' rest

namespace Drains

variable {σ β ε : Type} {reader : Reader σ β ε} {s s' s'' : σ} {xs ys rest rest' : List β}

theorem waits (h : Drains reader s xs s' rest) : reader.step s' rest = .ok none := by
  induction h with
  | wait h => exact h
  | take _ _ ih => exact ih

/-- A stream may be read in two parts. -/
theorem split (h : Drains reader s (xs ++ ys) s'' rest') :
    ∃ s' rest, Drains reader s xs s' rest ∧ Drains reader s' (rest ++ ys) s'' rest' := by
  generalize hzs : xs ++ ys = zs at h
  induction h generalizing xs with
  | wait h =>
    subst hzs
    refine ⟨_, xs, .wait ?_, .wait h⟩
    by_contra hne
    exact hne ((reader.step_append ys hne).symm.trans h)
  | @take s zs s' n s'' rest' h hrest ih =>
    subst hzs
    by_cases hwait : reader.step s xs = .ok none
    · exact ⟨s, xs, .wait hwait, .take h hrest⟩
    · rw [reader.step_append ys hwait] at h
      obtain ⟨s₁, rest₁, hfirst, hsecond⟩ := ih (List.drop_append_of_le_length (reader.le_length h)).symm
      exact ⟨s₁, rest₁, .take h hfirst, hsecond⟩

/-- A frame in front of a stream. -/
theorem cons (h : reader.step s xs = .ok (some (s', xs.length))) (hrest : Drains reader s' ys s'' rest) :
    Drains reader s (xs ++ ys) s'' rest := by
  have hstep : reader.step s (xs ++ ys) = .ok (some (s', xs.length)) := by
    rw [reader.step_append ys (by rw [h]; exact fun hnone => (by cases hnone))]
    exact h
  refine .take hstep ?_
  rwa [List.drop_left]

end Drains

end Framing
