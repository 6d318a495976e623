import Mathlib.Data.List.Basic
import Mathlib.Data.List.Infix

/-!
# First occurrences in lists

The search primitives of the C++ standard library on lists. `search pat l` is the offset of
the first occurrence of `pat` in `l`; the first occurrence of a single element is Mathlib's
`List.idxOf`, which answers the length of the list when there is none. The facts that matter
to a reader of a growing input are that an occurrence is never moved by what follows it.
-/

namespace ListSearch

variable {α : Type*} [DecidableEq α]

/-- The offset of the first occurrence of `pat` in a list. -/
def search (pat : List α) : List α → Option ℕ
  | [] => if pat = [] then some 0 else none
  | x :: xs => if pat <+: x :: xs then some 0 else (search pat xs).map (· + 1)

/-- Where the search stops, the pattern stands. -/
theorem search_spec {pat l : List α} {i : ℕ} (h : search pat l = some i) :
    ∃ r, l = l.take i ++ pat ++ r := by
  induction l generalizing i with
  | nil =>
    simp only [search] at h
    split at h
    · next hp => exact ⟨[], by simp [hp]⟩
    · cases h
  | cons x xs ih =>
    simp only [search] at h
    split at h
    · next hp =>
      obtain ⟨r, hr⟩ := hp
      cases h
      exact ⟨r, by simpa using hr.symm⟩
    · obtain ⟨j, hj, rfl⟩ := Option.map_eq_some_iff.mp h
      obtain ⟨r, hr⟩ := ih hj
      refine ⟨r, ?_⟩
      conv_lhs => rw [hr]
      simp

/-- An occurrence lies inside the list. -/
theorem search_le {pat l : List α} {i : ℕ} (h : search pat l = some i) :
    i + pat.length ≤ l.length := by
  obtain ⟨r, hr⟩ := search_spec h
  have hlen := congrArg List.length hr
  simp only [List.length_append, List.length_take] at hlen
  have hi : i ≤ l.length := by
    clear hr hlen
    induction l generalizing i with
    | nil =>
      simp only [search] at h
      split at h
      · cases h; simp
      · cases h
    | cons x xs ih =>
      simp only [search] at h
      split at h
      · cases h; simp
      · obtain ⟨j, hj, rfl⟩ := Option.map_eq_some_iff.mp h
        have := ih hj
        simp only [List.length_cons]
        omega
  omega

/-- The first occurrence stays the first when the list grows behind it. -/
theorem search_append {pat l : List α} {i : ℕ} (h : search pat l = some i) (e : List α) :
    search pat (l ++ e) = some i := by
  induction l generalizing i with
  | nil =>
    simp only [search] at h
    split at h
    · next hp =>
      cases h
      subst hp
      cases e <;> simp [search]
    · cases h
  | cons x xs ih =>
    simp only [search] at h
    simp only [List.cons_append, search]
    split at h
    · next hp =>
      cases h
      rw [if_pos]
      exact hp.trans (List.prefix_append (x :: xs) e)
    · next hp =>
      obtain ⟨j, hj, rfl⟩ := Option.map_eq_some_iff.mp h
      rw [if_neg, ih hj]
      · rfl
      · -- a match at the front would already fit in front of the later occurrence
        intro hp'
        have hlen : pat.length ≤ (x :: xs).length := by
          have := search_le hj
          simp only [List.length_cons]
          omega
        exact hp (List.prefix_of_prefix_length_le hp' (List.prefix_append (x :: xs) e) hlen)

/-- The search finds the pattern at the first offset where it stands. -/
theorem search_eq_some_iff {pat l : List α} {i : ℕ} :
    search pat l = some i ↔ pat <+: l.drop i ∧ ∀ j < i, ¬ pat <+: l.drop j := by
  induction l generalizing i with
  | nil =>
    simp only [search, List.drop_nil, List.prefix_nil]
    by_cases hp : pat = []
    · cases i with
      | zero => simp [hp]
      | succ i => exact iff_of_false (by simp [hp]) fun h => h.2 0 (Nat.succ_pos i) hp
    · simp [hp]
  | cons x xs ih =>
    rw [search]
    by_cases hp : pat <+: x :: xs
    · rw [if_pos hp]
      cases i with
      | zero => simpa using hp
      | succ i =>
        constructor
        · intro h
          cases h
        · rintro ⟨-, h⟩
          exact absurd hp (h 0 (Nat.succ_pos i))
    · rw [if_neg hp]
      cases i with
      | zero => simpa using hp
      | succ i =>
        have hmap : (search pat xs).map (· + 1) = some (i + 1) ↔ search pat xs = some i := by
          simp
        have hfront : (∀ j < i + 1, ¬ pat <+: (x :: xs).drop j) ↔
            ∀ j < i, ¬ pat <+: xs.drop j := by
          rw [Nat.forall_lt_succ_left]
          exact and_iff_right hp
        rw [hmap, ih, List.drop_succ_cons, hfront]

/-- A pattern of two elements. -/
theorem pair_prefix_iff {α : Type*} {a b : α} {l : List α} :
    [a, b] <+: l ↔ l[0]? = some a ∧ l[1]? = some b := by
  rcases l with _ | ⟨x, _ | ⟨y, r⟩⟩
  · simp
  · simp [List.cons_prefix_cons]
  · simp [List.cons_prefix_cons, eq_comm]

/-- The search fails exactly where the pattern stands nowhere. -/
theorem search_eq_none_iff {pat l : List α} :
    search pat l = none ↔ ∀ i, ¬ pat <+: l.drop i := by
  constructor
  · intro h i
    -- the first of the offsets where it stands would have been found
    induction i using Nat.strong_induction_on with
    | _ i ih =>
      intro hi
      have := search_eq_some_iff.mpr ⟨hi, ih⟩
      rw [h] at this
      cases this
  · intro h
    cases hs : search pat l with
    | none => rfl
    | some i => exact absurd (search_eq_some_iff.mp hs).1 (h i)

/-- What stands behind the first occurrence is not needed to find it. -/
theorem search_take {pat l : List α} {i : ℕ} (h : search pat l = some i) :
    search pat (l.take (i + pat.length)) = some i := by
  obtain ⟨hi, hfirst⟩ := search_eq_some_iff.mp h
  refine search_eq_some_iff.mpr ⟨?_, fun j hj hpre => ?_⟩
  · rw [List.drop_take, Nat.add_sub_cancel_left]
    exact List.prefix_take_iff.mpr ⟨hi, le_refl _⟩
  · apply hfirst j hj
    rw [List.drop_take] at hpre
    exact hpre.trans (List.take_prefix _ _)

/-- A pattern whose first element does not occur in `l` is first found right after `l`. -/
theorem search_append_of_notMem {a : α} {as l : List α} (h : a ∉ l) (r : List α) :
    search (a :: as) (l ++ (a :: as) ++ r) = some l.length := by
  induction l with
  | nil =>
    simp only [List.nil_append, List.cons_append, search]
    rw [if_pos]
    · rfl
    · exact List.prefix_append (a :: as) r
  | cons x xs ih =>
    simp only [List.mem_cons, not_or] at h
    simp only [List.cons_append, List.append_assoc, search] at ih ⊢
    rw [if_neg, ih h.2]
    · rfl
    · intro hp
      exact h.1 (List.cons_prefix_cons.mp hp).1

/-- A list in front of the pattern that does not hold its first element is passed. -/
theorem search_append_left {a : α} {as start : List α} (h : a ∉ start) (l : List α) :
    search (a :: as) (start ++ l) = (search (a :: as) l).map (start.length + ·) := by
  induction start with
  | nil => simp
  | cons x xs ih =>
    simp only [List.mem_cons, not_or] at h
    have hfront : ¬ a :: as <+: x :: (xs ++ l) := fun hp => h.1 (List.cons_prefix_cons.mp hp).1
    rw [List.cons_append, search, if_neg hfront, ih h.2, Option.map_map]
    congr 1
    funext i
    simp only [Function.comp_apply, List.length_cons]
    omega

/-- A pattern of two different elements is first found right after a list in which it does not
    stand, also where the list ends with the first of them. -/
theorem search_pair_append {a b : α} (hne : a ≠ b) {l : List α} (h : search [a, b] l = none)
    (r : List α) : search [a, b] (l ++ a :: b :: r) = some l.length := by
  induction l with
  | nil =>
    have hfront : [a, b] <+: a :: b :: r := List.prefix_append [a, b] r
    rw [List.nil_append, search, if_pos hfront]
    rfl
  | cons x xs ih =>
    rw [search] at h
    split at h
    · cases h
    · next hfront =>
      have hfront' : ¬ [a, b] <+: x :: (xs ++ a :: b :: r) := by
        cases xs with
        | nil =>
          intro hp
          exact hne (List.cons_prefix_cons.mp (List.cons_prefix_cons.mp hp).2).1.symm
        | cons y ys =>
          rw [pair_prefix_iff] at hfront ⊢
          exact hfront
      rw [List.cons_append, search, if_neg hfront', ih (by simpa using h)]
      rfl

/-- Cutting a list around the first occurrence of one of its elements. -/
theorem eq_take_idxOf {a : α} {l : List α} (h : a ∈ l) :
    l = l.take (l.idxOf a) ++ a :: l.drop (l.idxOf a + 1) := by
  have hlt := List.idxOf_lt_length_iff.mpr h
  conv_lhs => rw [← List.take_append_drop (l.idxOf a) l]
  rw [List.drop_eq_getElem_cons hlt, List.getElem_idxOf hlt]

/-- The part in front of the first occurrence of `a` does not hold `a`. -/
theorem notMem_take_idxOf (a : α) (l : List α) : a ∉ l.take (l.idxOf a) := by
  induction l with
  | nil => simp
  | cons x xs ih =>
    by_cases hx : x = a
    · subst hx; simp
    · rw [List.idxOf_cons_ne _ hx]
      simp only [List.take_succ_cons, List.mem_cons, not_or]
      exact ⟨fun h => hx h.symm, ih⟩

/-- The first occurrence of `a` in `l ++ a :: r` when `l` does not hold `a`. -/
theorem idxOf_append_cons {a : α} {l : List α} (h : a ∉ l) (r : List α) :
    (l ++ a :: r).idxOf a = l.length := by
  rw [List.idxOf_append, if_neg h, List.idxOf_cons_self, Nat.zero_add]

end ListSearch
