import Mathlib.Logic.Hydra
import Mathlib.Tactic.Common

/-!
# Work lists

A worker takes the first item off its list and puts others in front of the rest, each of a lower
level. However many they are, the list is empty after finitely many of its steps: the levels on the
list, as a multiset, go down in a well-founded order.

## Main definitions

- `Worklist.Shrinks level l l'` — a step of the worker

## Main results

- `Worklist.eventually_nil` — a worker that works again and again gets to the end of its list
-/

namespace Worklist

/-- Where something happens after `n`, it happens for a first time. -/
theorem exists_first {P : ℕ → Prop} {n : ℕ} (h : ∃ m, n ≤ m ∧ P m) :
    ∃ m, n ≤ m ∧ P m ∧ ∀ j, n ≤ j → j < m → ¬ P j := by
  classical
  refine ⟨Nat.find h, (Nat.find_spec h).1, (Nat.find_spec h).2, fun j hj hlt hP => ?_⟩
  exact Nat.find_min h hlt ⟨hj, hP⟩

variable {T : Type*} (level : T → ℕ)

/-- The first item gives way to items of lower levels. -/
def Shrinks (l l' : List T) : Prop :=
  ∃ item rest items, l = item :: rest ∧ l' = items ++ rest ∧ ∀ o ∈ items, level o < level item

def levels (l : List T) : Multiset ℕ := (l.map level : List ℕ)

variable {level}

theorem Shrinks.cutExpand {l l' : List T} (h : Shrinks level l l') :
    Relation.CutExpand (· < ·) (levels level l') (levels level l) := by
  obtain ⟨item, rest, items, rfl, rfl, hitems⟩ := h
  refine ⟨levels level items, level item, fun n hn => ?_, ?_⟩
  · obtain ⟨o, ho, rfl⟩ := List.mem_map.mp (Multiset.mem_coe.mp hn)
    exact hitems o ho
  · rw [levels, levels, levels, List.map_append, List.map_cons, ← Multiset.coe_add,
      ← Multiset.cons_coe, ← Multiset.singleton_add]
    ac_rfl

/-- **The end of the list.** A list that only steps of its worker change, as long as there is
    something on it, and on which the worker makes a step again and again, gets empty again and
    again. -/
theorem eventually_nil {ρ : ℕ → List T}
    (hstep : ∀ n, ρ n ≠ [] → ρ (n + 1) = ρ n ∨ Shrinks level (ρ n) (ρ (n + 1)))
    (hoften : ∀ n, ∃ m, n ≤ m ∧ (ρ m = [] ∨ Shrinks level (ρ m) (ρ (m + 1)))) (n : ℕ) :
    ∃ m, n ≤ m ∧ ρ m = [] := by
  by_contra hnever
  have hne : ∀ m, n ≤ m → ρ m ≠ [] := fun m hm hnil => hnever ⟨m, hm, hnil⟩
  -- from any time on, by induction on the levels
  suffices hwf : ∀ (M : Multiset ℕ) (j : ℕ), n ≤ j → levels level (ρ j) = M → False from
    hwf _ n (Nat.le_refl n) rfl
  intro M
  induction M using (WellFounded.cutExpand (Nat.lt_wfRel.wf)).induction with
  | h M ih =>
    rintro j hj rfl
    obtain ⟨m, hjm, hm, hfirst⟩ := exists_first (hoften j)
    have hsame : ∀ i, j ≤ i → i ≤ m → ρ i = ρ j := by
      intro i hi
      induction i, hi using Nat.le_induction with
      | base => exact fun _ => rfl
      | succ i hi ih =>
        intro hle
        obtain hkeep | hshrink := hstep i (hne i (hj.trans hi))
        · rw [hkeep]
          exact ih (Nat.le_of_succ_le hle)
        · exact absurd (.inr hshrink) (hfirst i hi hle)
    obtain hnil | hshrink := hm
    · exact hne m (hj.trans hjm) hnil
    · have hcut := hshrink.cutExpand
      rw [hsame m hjm (Nat.le_refl m)] at hcut
      exact ih _ hcut (m + 1) (hj.trans (hjm.trans (Nat.le_succ m))) rfl

end Worklist
