import Mathlib.Order.Lattice

/-!
# Hysteresis

A level with a high and a low mark. A flag is raised when the level has grown to the high mark, and
lowered when it has fallen to the low mark; each change of the flag is an event. The level may grow
without the low mark being looked at and fall without the high mark being looked at.

## Main definitions

- `Hysteresis.rise`, `Hysteresis.fall` — the flag after a growing and a falling level
- `Hysteresis.Controlled` — flag, level and events agree

## Main results

- `Hysteresis.Controlled.rise`, `Hysteresis.Controlled.fall` — both keep them in agreement
- `Hysteresis.Alternates.paused_eq` — who pauses on high and resumes on low follows the flag
-/

namespace Hysteresis

variable {α : Type*}

/-- The crossing of a mark, with the level at which it was noticed. -/
inductive Event (α : Type*)
  | high (level : α)
  | low (level : α)
  deriving DecidableEq, Repr

/-- The flag and the event when the level has grown. -/
def rise [LE α] [DecidableLE α] (high : α) (above : Bool) (level : α) : Bool × Option (Event α) :=
  if !above && high ≤ level then (true, some (.high level)) else (above, none)

/-- The flag and the event when the level has fallen. -/
def fall [LE α] [DecidableLE α] (low : α) (above : Bool) (level : α) : Bool × Option (Event α) :=
  if above && level ≤ low then (false, some (.low level)) else (above, none)

/-- Who pauses on high and resumes on low is paused after these events. -/
def paused (es : List (Event α)) : Bool :=
  es.foldl (fun _ e => match e with | .high _ => true | .low _ => false) false

section

variable [LE α]

/-- The events alternate, beginning with a high one, each has its level on the right side of its
    mark, and the flag is raised after them or not. -/
inductive Alternates (low high : α) : List (Event α) → Bool → Prop
  | nil : Alternates low high [] false
  | rise {es : List (Event α)} {level : α} (h : Alternates low high es false)
      (hle : high ≤ level) : Alternates low high (es ++ [.high level]) true
  | fall {es : List (Event α)} {level : α} (h : Alternates low high es true)
      (hle : level ≤ low) : Alternates low high (es ++ [.low level]) false

theorem Alternates.paused_eq {low high : α} {es : List (Event α)} {above : Bool}
    (h : Alternates low high es above) : paused es = above := by
  induction h with
  | nil => rfl
  | rise _ _ ih => simp [paused]
  | fall _ _ ih => simp [paused]

end

variable [LinearOrder α] {low high level level' : α} {es : List (Event α)} {above : Bool}

/-- The flag says on which side of the marks the level is, and the events lead to it. -/
structure Controlled (low high : α) (es : List (Event α)) (above : Bool) (level : α) : Prop where
  alternates : Alternates low high es above
  lt_of_above : above = true → low < level
  lt_of_not_above : above = false → level < high

theorem Controlled.start (h : level < high) : Controlled low high [] false level :=
  ⟨.nil, by simp, fun _ => h⟩

theorem Controlled.rise (hlt : low < high) (h : Controlled low high es above level)
    (hle : level ≤ level') : Controlled low high (es ++ (rise high above level').2.toList)
      (rise high above level').1 level' := by
  unfold Hysteresis.rise
  cases above with
  | true => exact ⟨by simpa using h.alternates, fun _ => (h.lt_of_above rfl).trans_le hle, by simp⟩
  | false =>
    by_cases hhigh : high ≤ level'
    · simp only [hhigh, Bool.not_false, decide_true, Bool.and_self, if_true, Option.toList_some]
      exact ⟨h.alternates.rise hhigh, fun _ => hlt.trans_le hhigh, by simp⟩
    · simp only [hhigh, decide_false, Bool.and_false, Bool.false_eq_true, if_false,
        Option.toList_none, List.append_nil]
      exact ⟨h.alternates, by simp, fun _ => lt_of_not_ge hhigh⟩

theorem Controlled.fall (hlt : low < high) (h : Controlled low high es above level)
    (hle : level' ≤ level) : Controlled low high (es ++ (fall low above level').2.toList)
      (fall low above level').1 level' := by
  unfold Hysteresis.fall
  cases above with
  | false => exact ⟨by simpa using h.alternates, by simp, fun _ => hle.trans_lt (h.lt_of_not_above rfl)⟩
  | true =>
    by_cases hlow : level' ≤ low
    · simp only [hlow, decide_true, Bool.and_self, if_true, Option.toList_some]
      exact ⟨h.alternates.fall hlow, by simp, fun _ => hlow.trans_lt hlt⟩
    · simp only [hlow, decide_false, Bool.and_false, Bool.false_eq_true, if_false,
        Option.toList_none, List.append_nil]
      exact ⟨h.alternates, fun _ => lt_of_not_ge hlow, by simp⟩

end Hysteresis
