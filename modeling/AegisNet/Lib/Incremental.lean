import Mathlib.Data.List.Basic

/-!
# Incremental consumers of a growing input

A consumer reads a buffered input from the front, one step at a time, and stops when it cannot
go on with what is buffered. When a step that is possible stays possible, with the same effect,
however the input grows behind it, the place where the input was cut cannot be observed: feeding
the pieces one by one, draining after each, is draining their concatenation.

## Main definitions

- `Consumer σ α` — a step function on a state and the buffered input, prefix-stable and decreasing
- `Consumer.drain` — step until no step is possible
- `Consumer.feed` — one more piece of input arrives and is drained
-/

/-- A consumer with state `σ` of an input over `α`. `step s b` is `none` when the consumer has
    to wait with the input `b` buffered. -/
structure Consumer (σ α : Type*) where
  step : σ → List α → Option (σ × List α)
  /-- What a step makes smaller. -/
  rank : σ → List α → ℕ
  /-- A possible step is not affected by what arrives behind the buffered input. -/
  stable : ∀ {s b s' b'}, step s b = some (s', b') → ∀ e, step s (b ++ e) = some (s', b' ++ e)
  decreasing : ∀ {s b s' b'}, step s b = some (s', b') → rank s' b' < rank s b

namespace Consumer

variable {σ α : Type*} (M : Consumer σ α)

/-- Step until no step is possible. -/
def drain (s : σ) (b : List α) : σ × List α :=
  match _h : M.step s b with
  | none => (s, b)
  | some (s', b') => drain s' b'
termination_by M.rank s b
decreasing_by exact M.decreasing _h

theorem drain_of_none {s : σ} {b : List α} (h : M.step s b = none) : M.drain s b = (s, b) := by
  rw [drain]
  split
  · rfl
  · next h' => rw [h] at h'; cases h'

theorem drain_of_some {s s' : σ} {b b' : List α} (h : M.step s b = some (s', b')) :
    M.drain s b = M.drain s' b' := by
  rw [drain]
  split
  · next h' => rw [h] at h'; cases h'
  · next h' => rw [h] at h'; cases h'; rfl

/-- **Induction along a drain**: the case where the consumer waits, and the case of one step. -/
theorem drain_induction {P : σ → List α → Prop}
    (wait : ∀ s b, M.step s b = none → P s b)
    (next : ∀ s b s' b', M.step s b = some (s', b') → P s' b' → P s b) :
    ∀ s b, P s b := by
  intro s b
  induction h : M.rank s b using Nat.strongRecOn generalizing s b with
  | _ n ih =>
    cases hs : M.step s b with
    | none => exact wait s b hs
    | some p =>
      have hlt := M.decreasing hs
      exact next s b p.1 p.2 hs (ih _ (h ▸ hlt) _ _ rfl)

/-- A drain ends where no step is possible. -/
theorem step_drain (s : σ) (b : List α) : M.step (M.drain s b).1 (M.drain s b).2 = none := by
  induction s, b using M.drain_induction with
  | wait s b h => rw [M.drain_of_none h]; exact h
  | next s b s' b' h ih => rw [M.drain_of_some h]; exact ih

/-- A drain does not raise the rank. -/
theorem rank_drain_le (s : σ) (b : List α) :
    M.rank (M.drain s b).1 (M.drain s b).2 ≤ M.rank s b := by
  induction s, b using M.drain_induction with
  | wait s b h => exact (M.drain_of_none h) ▸ Nat.le_refl _
  | next s b s' b' h ih =>
    rw [M.drain_of_some h]
    exact Nat.le_trans ih (Nat.le_of_lt (M.decreasing h))

/-- Draining in two instalments is draining at once. -/
theorem drain_append (s : σ) (b e : List α) :
    M.drain s (b ++ e) = M.drain (M.drain s b).1 ((M.drain s b).2 ++ e) := by
  induction s, b using M.drain_induction with
  | wait s b h => rw [M.drain_of_none h]
  | next s b s' b' h ih => rw [M.drain_of_some (M.stable h e), M.drain_of_some h, ih]

/-- One more piece of input arrives and is drained. -/
def feed (x : σ × List α) (chunk : List α) : σ × List α := M.drain x.1 (x.2 ++ chunk)

/-- **Fragmentation independence**: feeding the pieces one by one is draining their
    concatenation, from any state in which nothing is left to do. -/
theorem foldl_feed (chunks : List (List α)) {x : σ × List α} (hx : M.step x.1 x.2 = none) :
    chunks.foldl M.feed x = M.drain x.1 (x.2 ++ chunks.flatten) := by
  induction chunks generalizing x with
  | nil => simp [M.drain_of_none hx]
  | cons c cs ih =>
    have hc : M.step (M.feed x c).1 (M.feed x c).2 = none := M.step_drain _ _
    rw [List.foldl_cons, ih hc, List.flatten_cons, ← List.append_assoc]
    exact (M.drain_append _ _ _).symm

end Consumer
