import Mathlib.Data.List.Sort

/-!
# Lists sorted by a key

A set that is ordered by a key, with ties broken in any way, kept as a list. Insertion only has to
respect the key, so nothing here depends on how ties are broken.

## Main definitions

- `KeySorted key l` — the keys of `l` do not decrease
- `RespectsKey key r` — the insertion order `r` respects the key
-/

variable {α β : Type*} [LinearOrder β] {key : α → β}

/-- The keys do not decrease. -/
def KeySorted (key : α → β) (l : List α) : Prop :=
  l.Pairwise fun a b => key a ≤ key b

/-- What comes first in the order `r` has the smaller key, ties apart. -/
structure RespectsKey (key : α → β) (r : α → α → Prop) : Prop where
  le_of_rel : ∀ a b, r a b → key a ≤ key b
  le_of_not_rel : ∀ a b, ¬r a b → key b ≤ key a

namespace KeySorted

theorem sublist {l l' : List α} (h : KeySorted key l) (hs : l'.Sublist l) : KeySorted key l' :=
  List.Pairwise.sublist hs h

theorem head_le {a : α} {l : List α} (h : KeySorted key (a :: l)) {b : α} (hb : b ∈ a :: l) :
    key a ≤ key b := by
  obtain rfl | hb := List.mem_cons.mp hb
  · exact le_refl _
  · exact List.rel_of_pairwise_cons h hb

theorem orderedInsert {r : α → α → Prop} [DecidableRel r] (hr : RespectsKey key r) {l : List α}
    (h : KeySorted key l) (a : α) : KeySorted key (l.orderedInsert r a) := by
  induction l with
  | nil => exact List.pairwise_singleton _ _
  | cons b l ih =>
    rw [List.orderedInsert_cons]
    split
    · next hab =>
      refine List.pairwise_cons.mpr ⟨fun c hc => ?_, h⟩
      exact (hr.le_of_rel a b hab).trans (h.head_le hc)
    · next hab =>
      refine List.pairwise_cons.mpr ⟨fun c hc => ?_, ih (List.pairwise_cons.mp h).2⟩
      obtain rfl | hc := (List.mem_orderedInsert r).mp hc
      · exact hr.le_of_not_rel _ _ hab
      · exact List.rel_of_pairwise_cons h hc

/-- An element with a smaller key than the first becomes the first; otherwise the first stays, up
    to its key. -/
theorem head?_orderedInsert {r : α → α → Prop} [DecidableRel r] (hr : RespectsKey key r)
    (l : List α) (a : α) :
    ((l.orderedInsert r a).head?.map key) =
      some (match l.head? with
        | none => key a
        | some b => min (key a) (key b)) := by
  cases l with
  | nil => rfl
  | cons b l =>
    rw [List.orderedInsert_cons]
    split
    · next hab => simp [min_eq_left (hr.le_of_rel a b hab)]
    · next hab => simp [min_eq_right (hr.le_of_not_rel a b hab)]

/-- Up to a key, a sorted list is cut by `takeWhile` and `dropWhile`. -/
theorem mem_takeWhile {l : List α} (h : KeySorted key l) (k : β) {a : α} :
    a ∈ l.takeWhile (fun b => decide (key b ≤ k)) ↔ a ∈ l ∧ key a ≤ k := by
  induction l with
  | nil => simp
  | cons b l ih =>
    by_cases hb : key b ≤ k
    · simp only [List.takeWhile_cons, hb, decide_true, if_true, List.mem_cons,
        ih (List.pairwise_cons.mp h).2]
      constructor
      · rintro (rfl | ⟨ha, hk⟩)
        · exact ⟨.inl rfl, hb⟩
        · exact ⟨.inr ha, hk⟩
      · rintro ⟨rfl | ha, hk⟩
        · exact .inl rfl
        · exact .inr ⟨ha, hk⟩
    · simp only [List.takeWhile_cons, hb, decide_false, Bool.false_eq_true, if_false,
        List.not_mem_nil, false_iff, not_and]
      exact fun ha hk => hb ((h.head_le ha).trans hk)

end KeySorted
