import Mathlib.Data.List.Basic
import Mathlib.Data.List.Nodup
import Mathlib.Data.List.Pairwise

/-!
# What happened before what

A log grows at its end. That some events happened in an order is that they form a sublist of the
log, and the lemmas here say what one more event adds to such an order.

## Main results

- `concat_sublist_concat` — an order in a longer log is an old one, or ends with the new event
- `eq_of_nodup_filterMap` — where a partial function has no repetition, it tells events apart
-/

namespace List

variable {α β : Type*}

theorem concat_sublist_concat {l log : List α} {a e : α} :
    (l ++ [a]).Sublist (log ++ [e]) ↔ (l ++ [a]).Sublist log ∨ l.Sublist log ∧ a = e := by
  constructor
  · intro h
    have h' : (a :: l.reverse).Sublist (e :: log.reverse) := by simpa using h.reverse
    cases h' with
    | cons _ h' => exact .inl (by simpa using h'.reverse)
    | cons_cons _ h' => exact .inr ⟨by simpa using h'.reverse, rfl⟩
  · rintro (h | ⟨h, rfl⟩)
    · exact h.trans (sublist_append_left _ _)
    · exact h.append (Sublist.refl _)

/-- Two events in order. -/
theorem pair_sublist_concat {log : List α} {a b e : α} :
    [a, b].Sublist (log ++ [e]) ↔ [a, b].Sublist log ∨ a ∈ log ∧ b = e := by
  rw [← singleton_sublist]
  exact concat_sublist_concat (l := [a])

/-- Three events in order. -/
theorem triple_sublist_concat {log : List α} {a b c e : α} :
    [a, b, c].Sublist (log ++ [e]) ↔ [a, b, c].Sublist log ∨ [a, b].Sublist log ∧ c = e :=
  concat_sublist_concat (l := [a, b])

/-- Two different elements of a list are in it in one order or the other. -/
theorem pair_sublist_or {l : List α} {a b : α} (ha : a ∈ l) (hb : b ∈ l) (hne : a ≠ b) :
    [a, b].Sublist l ∨ [b, a].Sublist l := by
  obtain ⟨s, t, rfl⟩ := append_of_mem ha
  obtain hb | hb := mem_append.mp hb
  · refine .inr (.trans ?_ (Sublist.append (singleton_sublist.mpr hb)
      ((nil_sublist t).cons_cons a)))
    exact Sublist.refl _
  · have hb : b ∈ t := (mem_cons.mp hb).resolve_left (Ne.symm hne)
    exact .inl (((singleton_sublist.mpr hb).cons_cons a).trans
      (sublist_append_right s _))

/-- An event of a longer log is the new one, or the log was cut there before. -/
theorem concat_eq_append_cons {log front back : List α} {a e : α}
    (h : log ++ [e] = front ++ a :: back) :
    (back = [] ∧ front = log ∧ a = e) ∨ ∃ back', back = back' ++ [e] ∧ log = front ++ a :: back' := by
  obtain rfl | ⟨back', b, rfl⟩ := back.eq_nil_or_concat'
  · obtain ⟨rfl, hae⟩ := append_inj' h rfl
    exact .inl ⟨rfl, rfl, (cons.inj hae).1.symm⟩
  · rw [← cons_append, ← append_assoc] at h
    obtain ⟨hlog, he⟩ := append_inj' h rfl
    exact .inr ⟨back', by rw [(cons.inj he).1], hlog⟩

theorem eq_of_nodup_filterMap {f : α → Option β} {l : List α} (h : (l.filterMap f).Nodup)
    {a b : α} {x : β} (ha : a ∈ l) (hb : b ∈ l) (hax : f a = some x) (hbx : f b = some x) :
    a = b := by
  induction l with
  | nil => exact absurd ha not_mem_nil
  | cons c l ih =>
    cases hc : f c with
    | none =>
      rw [filterMap_cons_none hc] at h
      have ha' : a ∈ l := (mem_cons.mp ha).resolve_left fun heq => by simp [← heq, hax] at hc
      have hb' : b ∈ l := (mem_cons.mp hb).resolve_left fun heq => by simp [← heq, hbx] at hc
      exact ih h ha' hb'
    | some y =>
      rw [filterMap_cons_some hc, nodup_cons] at h
      have hnot : ∀ d ∈ l, f d ≠ f c := fun d hd hdc =>
        h.1 (mem_filterMap.mpr ⟨d, hd, hdc.trans hc⟩)
      obtain rfl | ha' := mem_cons.mp ha
      · obtain rfl | hb' := mem_cons.mp hb
        · rfl
        · exact absurd (hbx.trans hax.symm) (hnot b hb')
      · obtain rfl | hb' := mem_cons.mp hb
        · exact absurd (hax.trans hbx.symm) (hnot a ha')
        · exact ih h.2 ha' hb'

end List
