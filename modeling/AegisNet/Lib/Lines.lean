import Mathlib.Tactic.Common

/-!
# Lines

A list cut at every occurrence of a separator of two different elements. As the separator does not
overlap itself, cutting a concatenation around a separator is cutting its parts. The head of a list
are its lines up to the first empty one, and what is behind that.

## Main definitions

- `Lines.lines cr lf l` — the pieces between the separators, at least one
- `Lines.join cr lf ls` — the pieces with the separator in between
- `Lines.head cr lf l` — the lines in front of the first empty line, and the rest
-/

namespace Lines

variable {α : Type*} [DecidableEq α] (cr lf : α)

/-- The pieces between the separators. -/
def lines : List α → List (List α)
  | [] => [[]]
  | [x] => [[x]]
  | x :: y :: l =>
    if x = cr ∧ y = lf then [] :: lines l else (lines (y :: l)).modifyHead (x :: ·)

/-- The pieces with the separator in between. -/
def join (ls : List (List α)) : List α := [cr, lf].intercalate ls

/-- The lines in front of the first empty line, and what is behind its separator. -/
def head (l : List α) : Option (List (List α) × List α) :=
  match (lines cr lf l).dropWhile (· ≠ []) with
  | _ :: piece :: pieces =>
    some ((lines cr lf l).takeWhile (· ≠ []), join cr lf (piece :: pieces))
  | _ => none

theorem lines_ne_nil (l : List α) : lines cr lf l ≠ [] := by
  fun_induction lines cr lf l with
  | case1 => simp
  | case2 => simp
  | case3 => simp
  | case4 x y l h ih => simpa [List.modifyHead_eq_nil_iff] using ih

/-- A list without the first element of the separator is one piece. -/
theorem lines_of_notMem {l : List α} (h : cr ∉ l) : lines cr lf l = [l] := by
  fun_induction lines cr lf l with
  | case1 => rfl
  | case2 => rfl
  | case3 x y l hsep ih => exact absurd (hsep.1 ▸ List.mem_cons_self) h
  | case4 x y l hsep ih => rw [ih fun hm => h (List.mem_cons_of_mem x hm), List.modifyHead_cons]

variable {cr lf}

theorem lines_sep (l : List α) : lines cr lf (cr :: lf :: l) = [] :: lines cr lf l := by
  rw [lines, if_pos ⟨rfl, rfl⟩]

theorem modifyHead_append {β : Type*} {ls : List β} (h : ls ≠ []) (f : β → β) (ms : List β) :
    (ls ++ ms).modifyHead f = ls.modifyHead f ++ ms := by
  cases ls with
  | nil => exact absurd rfl h
  | cons l ls => rfl

/-- **Cutting around a separator.** -/
theorem lines_append (hne : cr ≠ lf) (a b : List α) :
    lines cr lf (a ++ cr :: lf :: b) = lines cr lf a ++ lines cr lf b := by
  fun_induction lines cr lf a with
  | case1 => exact lines_sep b
  | case2 x =>
    rw [List.singleton_append, lines, if_neg fun h => hne h.2, lines_sep]
    rfl
  | case3 x y l hsep ih => rw [List.cons_append, List.cons_append, lines, if_pos hsep, ih]; rfl
  | case4 x y l hsep ih =>
    rw [List.cons_append, List.cons_append, lines, if_neg hsep, ← List.cons_append, ih,
      modifyHead_append (lines_ne_nil cr lf _)]

/-- A start without the first element of the separator stays in front of the first piece. -/
theorem lines_append_of_notMem {start : List α} (h : cr ∉ start) (l : List α) :
    lines cr lf (start ++ l) = (lines cr lf l).modifyHead (start ++ ·) := by
  induction start with
  | nil => exact (congrFun List.modifyHead_id (lines cr lf l)).symm
  | cons x start ih =>
    rw [List.mem_cons, not_or] at h
    obtain ⟨hx, hstart⟩ := h
    obtain ⟨piece, pieces, hl⟩ := List.exists_cons_of_ne_nil (lines_ne_nil cr lf l)
    have hcons : lines cr lf (x :: (start ++ l)) =
        (lines cr lf (start ++ l)).modifyHead (x :: ·) := by
      cases start ++ l with
      | nil => rfl
      | cons y m => rw [lines, if_neg fun hsep => hx hsep.1.symm]
    rw [List.cons_append, hcons, ih hstart, hl]
    rfl

omit [DecidableEq α] in
theorem join_cons {l : List α} {ls : List (List α)} (h : ls ≠ []) :
    join cr lf (l :: ls) = l ++ cr :: lf :: join cr lf ls := by
  rw [join, List.intercalate_cons_of_ne_nil h]
  simp [join]

omit [DecidableEq α] in
theorem join_modifyHead {ls : List (List α)} (h : ls ≠ []) (x : α) :
    join cr lf (ls.modifyHead (x :: ·)) = x :: join cr lf ls := by
  cases ls with
  | nil => exact absurd rfl h
  | cons l ls =>
    cases ls with
    | nil => simp [join]
    | cons m ms =>
      have hm : m :: ms ≠ [] := List.cons_ne_nil m ms
      rw [List.modifyHead_cons, join_cons hm, join_cons hm]
      rfl

/-- The pieces make up the list. -/
theorem join_lines (l : List α) : join cr lf (lines cr lf l) = l := by
  fun_induction lines cr lf l with
  | case1 => simp [join]
  | case2 => simp [join]
  | case3 x y l hsep ih =>
    rw [join_cons (lines_ne_nil cr lf l), ih, hsep.1, hsep.2]
    rfl
  | case4 x y l hsep ih => rw [join_modifyHead (lines_ne_nil cr lf _), ih]

omit [DecidableEq α] in
/-- More pieces in front make the list longer. -/
theorem length_join_append_le (ls : List (List α)) {ms : List (List α)} (h : ms ≠ []) :
    (join cr lf ms).length ≤ (join cr lf (ls ++ ms)).length := by
  induction ls with
  | nil => exact Nat.le_refl _
  | cons l ls ih =>
    rw [List.cons_append, join_cons (by simp [h])]
    simp only [List.length_append, List.length_cons]
    omega

/-! ## The head -/

/-- The head is cut at the first empty line. -/
theorem head_of_lines {l : List α} {front back : List (List α)}
    (hl : lines cr lf l = front ++ [] :: back) (hfront : [] ∉ front) (hback : back ≠ []) :
    head cr lf l = some (front, join cr lf back) := by
  have hpos : ∀ line ∈ front, decide (line ≠ []) = true := fun line hline =>
    decide_eq_true fun h => hfront (h ▸ hline)
  have hdrop : (lines cr lf l).dropWhile (· ≠ []) = [] :: back := by
    rw [hl, List.dropWhile_append_of_pos hpos]
    rfl
  have htake : (lines cr lf l).takeWhile (· ≠ []) = front := by
    rw [hl, List.takeWhile_append_of_pos hpos]
    simp
  cases back with
  | nil => exact absurd rfl hback
  | cons piece pieces =>
    unfold head
    rw [hdrop, htake]

/-- Where no line in front is empty, the head ends at the first line that is. -/
theorem head_eq {l rest : List α} {front : List (List α)}
    (hl : lines cr lf l = front ++ [] :: lines cr lf rest) (hfront : [] ∉ front) :
    head cr lf l = some (front, rest) := by
  rw [head_of_lines hl hfront (lines_ne_nil cr lf rest), join_lines]

/-- Where a line in front is empty, the head ends earlier, and the rest is longer. -/
theorem length_of_head {l rest : List α} {front : List (List α)}
    (hl : lines cr lf l = front ++ [] :: lines cr lf rest) (hfront : [] ∈ front) :
    ∃ front' rest', head cr lf l = some (front', rest') ∧ rest.length < rest'.length := by
  obtain ⟨before, between, rfl, hbefore⟩ := List.eq_append_cons_of_mem hfront
  have hback : between ++ [] :: lines cr lf rest ≠ [] := by simp
  refine ⟨before, _, head_of_lines (by rw [hl, List.append_assoc]; rfl) hbefore hback, ?_⟩
  calc rest.length
      < (join cr lf ([] :: lines cr lf rest)).length := by
        rw [join_cons (lines_ne_nil cr lf rest), join_lines]
        simp only [List.nil_append, List.length_cons]
        omega
    _ ≤ _ := length_join_append_le between (List.cons_ne_nil _ _)

/-! ## What comes behind -/

/-- What follows a list goes on with its last piece. -/
theorem exists_lines_append (l : List α) :
    ∃ front last, lines cr lf l = front ++ [last] ∧
      ∀ more, lines cr lf (l ++ more) = front ++ lines cr lf (last ++ more) := by
  fun_induction lines cr lf l with
  | case1 => exact ⟨[], [], rfl, fun _ => rfl⟩
  | case2 x => exact ⟨[], [x], rfl, fun _ => rfl⟩
  | case3 x y l hsep ih =>
    obtain ⟨front, last, hl, hmore⟩ := ih
    refine ⟨[] :: front, last, by rw [hl]; rfl, fun more => ?_⟩
    rw [List.cons_append, List.cons_append, lines, if_pos hsep, hmore]
    rfl
  | case4 x y l hsep ih =>
    obtain ⟨front, last, hl, hmore⟩ := ih
    cases front with
    | nil =>
      have hlast : last = y :: l := by
        have hjoin : join cr lf (lines cr lf (y :: l)) = y :: l := join_lines (y :: l)
        rwa [hl, List.nil_append, join, List.intercalate_singleton] at hjoin
      refine ⟨[], x :: last, by rw [hl]; rfl, fun more => ?_⟩
      rw [hlast]
      rfl
    | cons piece front =>
      refine ⟨(x :: piece) :: front, last, by rw [hl]; rfl, fun more => ?_⟩
      rw [List.cons_append, List.cons_append, lines, if_neg hsep, ← List.cons_append, hmore]
      rfl

omit [DecidableEq α] in
theorem join_append (ls : List (List α)) {ms : List (List α)} (h : ms ≠ []) :
    join cr lf (ls ++ ms) = ls.flatMap (· ++ [cr, lf]) ++ join cr lf ms := by
  induction ls with
  | nil => rfl
  | cons l ls ih =>
    rw [List.cons_append, join_cons (by simp [h]), ih]
    simp

/-- The lines of a list that has a head. -/
theorem lines_of_head {l rest : List α} {front : List (List α)}
    (h : head cr lf l = some (front, rest)) :
    ∃ back, back ≠ [] ∧ lines cr lf l = front ++ [] :: back ∧ [] ∉ front ∧
      rest = join cr lf back := by
  have hsplit := List.takeWhile_append_dropWhile (p := fun line : List α => decide (line ≠ []))
    (l := lines cr lf l)
  have hfirst := List.head?_dropWhile_not (fun line : List α => decide (line ≠ [])) (lines cr lf l)
  unfold head at h
  split at h
  · next empty piece pieces hdrop =>
    obtain ⟨hfront, hrest⟩ := Prod.mk.inj (Option.some.inj h)
    rw [hdrop] at hfirst hsplit
    obtain rfl : empty = [] := by simpa using hfirst
    rw [hfront] at hsplit
    refine ⟨piece :: pieces, List.cons_ne_nil _ _, hsplit.symm, fun hmem => ?_, hrest.symm⟩
    have hall := List.all_takeWhile (p := fun line : List α => decide (line ≠ []))
      (l := lines cr lf l)
    rw [hfront] at hall
    simpa using List.all_eq_true.mp hall [] hmem
  · cases h

/-- A head that is complete stays the head, whatever comes behind. -/
theorem head_append {l rest : List α} {front : List (List α)}
    (h : head cr lf l = some (front, rest)) (more : List α) :
    head cr lf (l ++ more) = some (front, rest ++ more) := by
  obtain ⟨back, hne, hl, hnil, rfl⟩ := lines_of_head h
  obtain ⟨before, last, hcut, hmore⟩ := @exists_lines_append _ _ cr lf l
  obtain ⟨init, tail, rfl⟩ : ∃ init tail, back = init ++ [tail] :=
    ⟨_, _, (List.dropLast_concat_getLast hne).symm⟩
  have hends : (front ++ [] :: init) ++ [tail] = before ++ [last] := by
    rw [← hcut, hl, List.append_assoc, List.cons_append]
  obtain ⟨hbefore, hlast⟩ := List.append_inj' hends rfl
  obtain rfl := List.singleton_inj.mp hlast
  have hlines : lines cr lf (l ++ more) = front ++ [] :: (init ++ lines cr lf (tail ++ more)) := by
    rw [hmore, ← hbefore, List.append_assoc, List.cons_append]
  have hback : init ++ lines cr lf (tail ++ more) ≠ [] := by simp [lines_ne_nil]
  rw [head_of_lines hlines hnil hback, join_append init (lines_ne_nil cr lf _), join_lines,
    join_append init (List.cons_ne_nil _ _)]
  simp [join]

/-- What is behind the head is shorter. -/
theorem length_lt_of_head {l rest : List α} {front : List (List α)}
    (h : head cr lf l = some (front, rest)) : rest.length < l.length := by
  obtain ⟨back, hne, hl, -, rfl⟩ := lines_of_head h
  calc (join cr lf back).length
      < (join cr lf ([] :: back)).length := by
        rw [join_cons hne]
        simp only [List.nil_append, List.length_cons]
        omega
    _ ≤ (join cr lf (front ++ [] :: back)).length :=
      length_join_append_le front (List.cons_ne_nil _ _)
    _ = l.length := by rw [← hl, join_lines]

end Lines
