import Mathlib.Data.Int.CardIntervalMod

/-!
# Taking turns

A counter that goes up by one and starts again at zero when it has reached the number `r` of the
participants is the remainder of the number of turns. Whichever turns one looks at, no participant
has had more than one of them more than another one.

## Main results

- `Turns.wrap_mod` — the counter after one more turn
- `Turns.count_le` — the turns are dealt evenly in every window
-/

namespace Turns

variable {r : ℕ}

/-- The counter that starts again is the remainder. -/
theorem wrap_mod (hr : 0 < r) (k : ℕ) :
    (if r ≤ k % r + 1 then 0 else k % r + 1) = (k + 1) % r := by
  have hlt : k % r < r := Nat.mod_lt k hr
  have hstep : (k + 1) % r = (k % r + 1) % r := (Nat.mod_add_mod k r 1).symm
  by_cases hle : r ≤ k % r + 1
  · have heq : k % r + 1 = r := by omega
    rw [hstep, heq, Nat.mod_self, if_pos le_rfl]
  · rw [hstep, if_neg hle, Nat.mod_eq_of_lt (Nat.lt_of_not_le hle)]

/-- The turns of a participant in a window that begins with turn `a`, as a class of remainders. -/
theorem add_mod_eq_iff (a : ℕ) {i : ℕ} (hi : i < r) (m : ℕ) :
    (a + m) % r = i ↔ m ≡ i + (r - a % r) [MOD r] := by
  have hlt : a % r < r := Nat.mod_lt a (by omega)
  have hround : a + (i + (r - a % r)) ≡ i [MOD r] := by
    have hsplit : a + (i + (r - a % r)) = i + r * (a / r + 1) := by
      have hdiv := Nat.div_add_mod a r
      rw [Nat.mul_add, Nat.mul_one]
      omega
    rw [hsplit]
    exact Nat.add_mul_mod_self_left i r (a / r + 1)
  calc (a + m) % r = i ↔ a + m ≡ i [MOD r] := by rw [Nat.ModEq, Nat.mod_eq_of_lt hi]
    _ ↔ a + m ≡ a + (i + (r - a % r)) [MOD r] :=
      ⟨fun h => h.trans hround.symm, fun h => h.trans hround⟩
    _ ↔ m ≡ i + (r - a % r) [MOD r] := ⟨Nat.ModEq.add_left_cancel' a, Nat.ModEq.add_left a⟩

/-- **Fairness**: of `n` turns that follow one another, two participants differ by one at most. -/
theorem count_le (a n : ℕ) {i j : ℕ} (hi : i < r) (hj : j < r) :
    n.count (fun m => (a + m) % r = i) ≤ n.count (fun m => (a + m) % r = j) + 1 := by
  have hr : 0 < r := by omega
  simp only [add_mod_eq_iff a hi, add_mod_eq_iff a hj]
  rw [Nat.count_modEq_card _ hr, Nat.count_modEq_card _ hr]
  split <;> split <;> omega

end Turns
