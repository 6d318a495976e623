import AegisNet.Lib.History
import Mathlib.Data.List.Induction
import Mathlib.Tactic.Common

/-!
# Filling a bounded space

Pieces are put behind one another, each whole or not at all: a piece is left out if it would not
leave at least one place of the space free, and the pieces after it are still tried. So how much is
used depends on all lengths, and grows along the pieces.

## Main definitions

- `Filling.fill cap pieces` — the pieces that fit, one after the other
- `Filling.used cap pieces` — how many places they take
- `Filling.FullEndsWith cap a pieces` — a piece that fills the space up ends with `a`
-/

namespace Filling

variable {α : Type*} (cap : ℕ)

/-- A piece behind what is there, if it fits. -/
def put (data piece : List α) : List α :=
  if data.length + piece.length < cap then data ++ piece else data

def fill (pieces : List (List α)) : List α := pieces.foldl (put cap) []

/-- The places that are used, by the lengths alone. -/
def used (pieces : List (List α)) : ℕ :=
  pieces.foldl (fun n piece => if n + piece.length < cap then n + piece.length else n) 0

variable {cap}

theorem used_concat (pieces : List (List α)) (piece : List α) :
    used cap (pieces ++ [piece]) =
      if used cap pieces + piece.length < cap then used cap pieces + piece.length
      else used cap pieces := by
  rw [used, List.foldl_append]
  rfl

theorem fill_concat (pieces : List (List α)) (piece : List α) :
    fill cap (pieces ++ [piece]) = put cap (fill cap pieces) piece := by
  rw [fill, List.foldl_append]
  rfl

theorem length_fill (pieces : List (List α)) : (fill cap pieces).length = used cap pieces := by
  induction pieces using List.reverseRecOn with
  | nil => rfl
  | append_singleton pieces piece ih =>
    rw [fill_concat, used_concat, put, ih]
    split
    · rw [List.length_append, ih]
    · exact ih

theorem used_lt (hcap : 0 < cap) (pieces : List (List α)) : used cap pieces < cap := by
  induction pieces using List.reverseRecOn with
  | nil => exact hcap
  | append_singleton pieces piece ih =>
    rw [used_concat]
    split
    · next h => exact h
    · exact ih

/-- Further pieces leave what is used. -/
theorem used_le_append (front back : List (List α)) : used cap front ≤ used cap (front ++ back) := by
  induction back using List.reverseRecOn with
  | nil => exact Nat.le_of_eq (by rw [List.append_nil])
  | append_singleton back piece ih =>
    rw [← List.append_assoc, used_concat]
    split
    · omega
    · exact ih

/-- Pieces that fit together are all taken. -/
theorem fill_of_lt {pieces : List (List α)} (h : pieces.flatten.length < cap) :
    fill cap pieces = pieces.flatten := by
  induction pieces using List.reverseRecOn with
  | nil => rfl
  | append_singleton pieces piece ih =>
    rw [List.flatten_append, List.flatten_singleton, List.length_append] at h
    rw [fill_concat, ih (by omega), put, if_pos h, List.flatten_append, List.flatten_singleton]

/-- A piece that leaves exactly one place free is taken. -/
theorem used_concat_of_full {front : List (List α)} {piece : List α}
    (h : used cap front + piece.length + 1 = cap) : used cap (front ++ [piece]) + 1 = cap := by
  rw [used_concat, if_pos (by omega)]
  exact h

/-- The pieces that fill the space up, leaving exactly one place free, end with `a`. -/
def FullEndsWith (cap : ℕ) (a : α) (pieces : List (List α)) : Prop :=
  ∀ front piece back, pieces = front ++ piece :: back → piece ≠ [] →
    used cap front + piece.length + 1 = cap → piece.getLast? = some a

theorem fullEndsWith_concat {a : α} {pieces : List (List α)} {last : List α} :
    FullEndsWith cap a (pieces ++ [last]) ↔ FullEndsWith cap a pieces ∧
      (last ≠ [] → used cap pieces + last.length + 1 = cap → last.getLast? = some a) := by
  constructor
  · intro h
    refine ⟨fun front piece back heq => ?_, h pieces last [] rfl⟩
    exact h front piece (back ++ [last]) (by rw [heq, List.append_assoc, List.cons_append])
  · rintro ⟨hpieces, hlast⟩ front piece back heq
    obtain ⟨rfl, rfl, rfl⟩ | ⟨back', rfl, hfront⟩ := List.concat_eq_append_cons heq
    · exact hlast
    · exact hpieces front piece back' hfront

/-- Where more than one place is free, no piece has filled the space up. -/
theorem fullEndsWith_of_used_lt {a : α} {pieces : List (List α)}
    (h : used cap pieces + 1 < cap) : FullEndsWith cap a pieces := by
  intro front piece back heq _ hfull
  have hle : used cap (front ++ [piece]) ≤ _ := used_le_append (front ++ [piece]) back
  rw [List.append_assoc, List.singleton_append, ← heq] at hle
  have := used_concat_of_full hfull
  omega

/-- The last element of a space with one place free is that of the piece that filled it up. -/
theorem getLast?_fill_iff (hcap : 1 < cap) {a : α} (pieces : List (List α)) :
    (used cap pieces + 1 = cap → (fill cap pieces).getLast? = some a) ↔
      FullEndsWith cap a pieces := by
  induction pieces using List.reverseRecOn with
  | nil =>
    have hused : used cap ([] : List (List α)) = 0 := rfl
    rw [hused]
    exact iff_of_true (fun h => by omega) (fullEndsWith_of_used_lt (by omega))
  | append_singleton pieces last ih =>
    rw [fullEndsWith_concat, ← ih, fill_concat, put, length_fill, used_concat]
    split
    · next hfits =>
      cases last with
      | nil => simp
      | cons x last =>
        -- a piece with an element in it fits only where more than one place is free
        have hfree : used cap pieces + 1 ≠ cap := by
          rw [List.length_cons] at hfits
          omega
        have hlast : (fill cap pieces ++ x :: last).getLast? = (x :: last).getLast? :=
          List.getLast?_append_of_ne_nil _ (List.cons_ne_nil x last)
        rw [hlast]
        simp [hfree]
    · next hlarge =>
      have hnot : used cap pieces + last.length + 1 ≠ cap := by omega
      simp [hnot]

/-- **A mark at the end.** A last piece of one element is what the space ends with, unless other
    pieces have filled the space up to its last place with another element. -/
theorem getLast?_fill_mark_iff (hcap : 1 < cap) {a : α} (pieces : List (List α)) :
    (fill cap (pieces ++ [[a]])).getLast? = some a ↔ FullEndsWith cap a pieces := by
  have hlt := used_lt (by omega : 0 < cap) pieces
  rw [← getLast?_fill_iff hcap, fill_concat, put, length_fill, List.length_singleton]
  split
  · next hfits =>
    rw [List.getLast?_concat]
    exact iff_of_true rfl fun h => by omega
  · next hfull =>
    have hused : used cap pieces + 1 = cap := by omega
    exact ⟨fun hlast _ => hlast, fun hlast => hlast hused⟩

end Filling
