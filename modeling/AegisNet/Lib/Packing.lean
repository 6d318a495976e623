import Mathlib.Data.List.Basic

/-!
# Packing records into blocks

`Packs records blocks` says that a sequence of records is stored in a sequence of blocks, in order,
without gaps, and with no record across the border of two blocks. Where the records are lines, each
with a separator at its end, the blocks can be read line by line.

## Main definitions

- `Packs records blocks`
- `linesOf sep block` — what a reader takes for the lines of a block

## Main results

- `Packs.lines` — the lines of the blocks are those that were packed
-/

variable {α : Type*}

/-- Each block is a run of whole records, one after the other; the runs make up all the records. -/
def Packs (records blocks : List (List α)) : Prop :=
  ∃ runs : List (List (List α)), runs.flatten = records ∧ runs.map List.flatten = blocks

namespace Packs

variable {records blocks : List (List α)}

theorem nil : Packs ([] : List (List α)) [] := ⟨[], rfl, rfl⟩

/-- The blocks hold the bytes of the records. -/
theorem flatten_eq (h : Packs records blocks) : blocks.flatten = records.flatten := by
  obtain ⟨runs, rfl, rfl⟩ := h
  rw [List.flatten_flatten]

/-- A fresh block. -/
theorem concat_nil (h : Packs records blocks) : Packs records (blocks ++ [[]]) := by
  obtain ⟨runs, rfl, rfl⟩ := h
  exact ⟨runs ++ [[]], by simp, by simp⟩

/-- A record added to the last block. -/
theorem concat_last {b : List α} (h : Packs records (blocks ++ [b])) (r : List α) :
    Packs (records ++ [r]) (blocks ++ [b ++ r]) := by
  obtain ⟨runs, rfl, hblocks⟩ := h
  obtain ⟨front, last, rfl, rfl, hlast⟩ := List.map_eq_append_iff.mp hblocks
  obtain ⟨run, rfl, rfl⟩ := List.map_eq_singleton_iff.mp hlast
  exact ⟨front ++ [run ++ [r]], by simp, by simp⟩

/-- Blocks put together into bigger ones. -/
theorem regroup {groups : List (List (List α))} {rest : List (List α)}
    (h : Packs records (groups.flatten ++ rest)) :
    Packs records (groups.map List.flatten ++ rest) := by
  induction groups generalizing records with
  | nil => exact h
  | cons group groups ih =>
    obtain ⟨runs, rfl, hruns⟩ := h
    rw [List.flatten_cons, List.append_assoc] at hruns
    obtain ⟨front, back, rfl, rfl, hback⟩ := List.map_eq_append_iff.mp hruns
    obtain ⟨back', hflatten, hmap⟩ := ih ⟨back, rfl, hback⟩
    refine ⟨front.flatten :: back', ?_, ?_⟩
    · rw [List.flatten_cons, hflatten, List.flatten_append]
    · rw [List.map_cons, List.map_cons, hmap, List.flatten_flatten, List.cons_append]

end Packs

/-! ## Lines -/

section Lines

variable [BEq α] [LawfulBEq α] {sep : α}

omit [LawfulBEq α] in
/-- What stands in front of each separator. -/
def linesOf (sep : α) (block : List α) : List (List α) := (block.splitOn sep).dropLast

omit [LawfulBEq α] in
theorem linesOf_nil : linesOf sep ([] : List α) = [] := by
  rw [linesOf, List.splitOn_nil]
  rfl

theorem linesOf_line {line : List α} (h : sep ∉ line) (rest : List α) :
    linesOf sep (line ++ sep :: rest) = line :: linesOf sep rest := by
  rw [linesOf, List.splitOn_append_cons_self_of_not_mem h,
    List.dropLast_cons_of_ne_nil (List.splitOn_ne_nil _ _)]
  rfl

theorem linesOf_flatten {lines : List (List α)} (h : ∀ line ∈ lines, sep ∉ line) :
    linesOf sep (lines.map (· ++ [sep])).flatten = lines := by
  induction lines with
  | nil => exact linesOf_nil
  | cons line lines ih =>
    obtain ⟨hline, hlines⟩ := List.forall_mem_cons.mp h
    rw [List.map_cons, List.flatten_cons, List.append_assoc, List.singleton_append,
      linesOf_line hline, ih hlines]

/-- **Read line by line.** Lines that are packed into blocks, each with its separator, are the lines
    of the blocks, and no block ends within one. -/
theorem Packs.lines {lines blocks : List (List α)} (h : Packs (lines.map (· ++ [sep])) blocks)
    (hlines : ∀ line ∈ lines, sep ∉ line) :
    blocks.flatMap (linesOf sep) = lines ∧
      ∀ block ∈ blocks, ((linesOf sep block).map (· ++ [sep])).flatten = block := by
  obtain ⟨runs, hruns, rfl⟩ := h
  induction runs generalizing lines with
  | nil =>
    obtain rfl : lines = [] := by simpa using hruns.symm
    exact ⟨rfl, by simp⟩
  | cons run runs ih =>
    obtain ⟨front, back, rfl, rfl, hback⟩ := List.map_eq_append_iff.mp hruns.symm
    obtain ⟨hfront, hrest⟩ := List.forall_mem_append.mp hlines
    obtain ⟨hall, heach⟩ := ih hrest hback.symm
    have hrun := linesOf_flatten hfront
    refine ⟨?_, List.forall_mem_cons.mpr ⟨?_, heach⟩⟩
    · rw [List.map_cons, List.flatMap_cons, hrun, hall]
    · rw [hrun]

end Lines
