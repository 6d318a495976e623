import Mathlib.Tactic.Common

/-!
# Loops that may not end

A loop is given by its body, which goes on with a new state or leaves with a result. Whether the
loop leaves is a proposition: it does when a measure goes down in every round, and it does not from
a set of states that no round leads out of.

## Main definitions

- `Loop.Ends body n s r` — from `s` the loop leaves with `r` in its `n`th round
- `Loop.Reaches body s t` — some rounds lead from `s` to `t`
-/

namespace Loop

variable {σ ρ : Type*} {body : σ → σ ⊕ ρ}

/-- From `s` the loop leaves with `r` in its `n`th round. -/
inductive Ends (body : σ → σ ⊕ ρ) : ℕ → σ → ρ → Prop
  | leave {s : σ} {r : ρ} : body s = .inr r → Ends body 1 s r
  | again {n : ℕ} {s s' : σ} {r : ρ} : body s = .inl s' → Ends body n s' r → Ends body (n + 1) s r

/-- Some rounds lead from `s` to `t`. -/
inductive Reaches (body : σ → σ ⊕ ρ) : σ → σ → Prop
  | refl (s : σ) : Reaches body s s
  | again {s s' t : σ} : body s = .inl s' → Reaches body s' t → Reaches body s t

/-- **Measure rule**: when an invariant is kept and a measure goes down in every round that goes on,
    the loop leaves after at most as many rounds as the measure allows. -/
theorem ends_of_measure {I : σ → Prop} (μ : σ → ℕ)
    (hbody : ∀ s s', I s → body s = .inl s' → I s' ∧ μ s' < μ s) {s : σ} (hs : I s) :
    ∃ n r, n ≤ μ s + 1 ∧ Ends body n s r := by
  induction h : μ s using Nat.strongRecOn generalizing s with
  | _ m ih =>
    cases hb : body s with
    | inr r => exact ⟨1, r, Nat.le_add_left 1 m, .leave hb⟩
    | inl s' =>
      obtain ⟨hs', hlt⟩ := hbody s s' hs hb
      rw [h] at hlt
      obtain ⟨n, r, hn, hends⟩ := ih (μ s') hlt hs' rfl
      exact ⟨n + 1, r, by omega, .again hb hends⟩

/-- **Trap rule**: from a set of states that no round leads out of, the loop does not end. -/
theorem not_ends_of_trap {D : σ → Prop} (hbody : ∀ s, D s → ∃ s', body s = .inl s' ∧ D s') {n : ℕ}
    {s : σ} {r : ρ} (hs : D s) : ¬ Ends body n s r := by
  intro h
  induction h with
  | leave hb =>
    obtain ⟨s', hb', -⟩ := hbody _ hs
    rw [hb'] at hb
    cases hb
  | again hb _ ih =>
    obtain ⟨s', hb', hs'⟩ := hbody _ hs
    rw [hb'] at hb
    cases hb
    exact ih hs'

/-- What a round that goes on keeps holds of every state that rounds lead to. -/
theorem Reaches.invariant {I : σ → Prop} (hbody : ∀ s s', I s → body s = .inl s' → I s') {s t : σ}
    (h : Reaches body s t) (hs : I s) : I t := by
  induction h with
  | refl => exact hs
  | again hb _ ih => exact ih (hbody _ _ hs hb)

end Loop
