import Mathlib.Data.List.Forall2
import AegisNet.Lib.Incremental

/-!
# Frames in a stream

A reader takes one frame after the other from the front of a stream, and waits when it cannot tell
yet. If what it takes does not depend on what comes behind, and each item of a stream by itself is
one frame, then a stream of items is read as their frames, a beginning of the stream as a beginning
of the frames, and the pieces in which it arrives do not matter.

## Main definitions

- `FrameReader φ α` — a reader of frames `φ` from a stream over `α`
- `FrameReader.consumer` — the reader as a consumer that collects its frames

## Main results

- `FrameReader.drain_flatten` — a stream of items is read as their frames
- `FrameReader.prefix_of_drain` — and so is a beginning of it
-/

section Forall₂

variable {α β : Type*} {R : α → β → Prop}

theorem exists_forall₂ {l : List α} (h : ∀ a ∈ l, ∃ b, R a b) : ∃ l', List.Forall₂ R l l' := by
  induction l with
  | nil => exact ⟨[], .nil⟩
  | cons a l ih =>
    rw [List.forall_mem_cons] at h
    obtain ⟨b, hb⟩ := h.1
    obtain ⟨l', hl'⟩ := ih h.2
    exact ⟨b :: l', .cons hb hl'⟩

theorem exists_of_mem_forall₂ {l : List α} {l' : List β} (h : List.Forall₂ R l l') {b : β}
    (hb : b ∈ l') : ∃ a ∈ l, R a b := by
  induction h with
  | nil => cases hb
  | @cons a b' l l' hab _ ih =>
    obtain rfl | hb := List.mem_cons.mp hb
    · exact ⟨a, List.mem_cons_self, hab⟩
    · obtain ⟨a', ha', hab'⟩ := ih hb
      exact ⟨a', List.mem_cons_of_mem _ ha', hab'⟩

end Forall₂

/-- A reader takes a frame from the front of its input. -/
structure FrameReader (φ α : Type*) where
  read : List α → Option (φ × List α)
  /-- A frame is not affected by what arrives behind the input. -/
  stable : ∀ {b f b'}, read b = some (f, b') → ∀ e, read (b ++ e) = some (f, b' ++ e)
  decreasing : ∀ {b f b'}, read b = some (f, b') → b'.length < b.length

namespace FrameReader

variable {φ α : Type*} (R : FrameReader φ α)

/-- The reader, with the frames that it has read. -/
def consumer : Consumer (List φ) α where
  step frames b := (R.read b).map fun x => (frames ++ [x.1], x.2)
  rank _ b := b.length
  stable := by
    intro frames b frames' b' h e
    obtain ⟨⟨f, rest⟩, hread, heq⟩ := Option.map_eq_some_iff.mp h
    obtain ⟨rfl, rfl⟩ := Prod.mk.inj heq
    rw [R.stable hread e]
    rfl
  decreasing := by
    intro frames b frames' b' h
    obtain ⟨⟨f, rest⟩, hread, heq⟩ := Option.map_eq_some_iff.mp h
    obtain ⟨rfl, rfl⟩ := Prod.mk.inj heq
    exact R.decreasing hread

variable {R}

theorem step_of_read {b b' : List α} {f : φ} (h : R.read b = some (f, b')) (frames : List φ) :
    R.consumer.step frames b = some (frames ++ [f], b') := by
  show (R.read b).map _ = _
  rw [h]
  rfl

theorem drain_of_read_eq_none {b : List α} (h : R.read b = none) (frames : List φ) :
    R.consumer.drain frames b = (frames, b) := by
  refine R.consumer.drain_of_none ?_
  show (R.read b).map _ = _
  rw [h]
  rfl

theorem read_nil : R.read [] = none := by
  cases h : R.read [] with
  | none => rfl
  | some x => exact absurd (R.decreasing h) (Nat.not_lt_zero _)

/-- A part of an item is no frame. -/
theorem read_part {item p : List α} {f : φ} (h : R.read item = some (f, []))
    (hp : p <+: item) (hne : p ≠ item) : R.read p = none := by
  cases hread : R.read p with
  | none => rfl
  | some x =>
    obtain ⟨e, rfl⟩ := hp
    have hstable := R.stable hread e
    rw [h, Option.some.injEq, Prod.mk.injEq] at hstable
    have he : e = [] := (List.append_eq_nil_iff.mp hstable.2.symm).2
    exact absurd (by rw [he, List.append_nil]) hne

/-- **Reading a stream of items**: each of them is a frame. -/
theorem drain_flatten {items : List (List α)} {frames : List φ}
    (h : List.Forall₂ (fun item f => R.read item = some (f, [])) items frames) (before : List φ)
    (rest : List α) :
    R.consumer.drain before (items.flatten ++ rest) = R.consumer.drain (before ++ frames) rest := by
  induction h generalizing before with
  | nil => simp
  | @cons item f items frames hread _ ih =>
    have hstep := step_of_read (R.stable hread (items.flatten ++ rest)) before
    rw [List.flatten_cons, List.append_assoc, R.consumer.drain_of_some hstep, List.nil_append, ih,
      List.append_assoc, List.singleton_append]

/-- **Reading a beginning of a stream**: what is read is a beginning of the frames. -/
theorem prefix_of_drain {items : List (List α)} {frames : List φ}
    (h : List.Forall₂ (fun item f => R.read item = some (f, [])) items frames) (before : List φ)
    {p : List α} (hp : p <+: items.flatten) :
    (R.consumer.drain before p).1 <+: before ++ frames := by
  induction h generalizing before p with
  | nil =>
    rw [List.prefix_nil.mp hp, drain_of_read_eq_none read_nil]
    exact List.prefix_append _ _
  | @cons item f items frames hread _ ih =>
    rw [List.flatten_cons] at hp
    by_cases hitem : item <+: p
    · -- the item has come
      obtain ⟨q, rfl⟩ := hitem
      have hq : q <+: items.flatten := (List.prefix_append_right_inj item).mp hp
      have hnext := ih (before ++ [f]) hq
      rw [List.append_assoc, List.singleton_append] at hnext
      rwa [R.consumer.drain_of_some (step_of_read (R.stable hread q) before), List.nil_append]
    · have hp' : p <+: item :=
        (List.prefix_or_prefix_of_prefix hp (List.prefix_append item _)).resolve_right hitem
      have hne : p ≠ item := fun h => hitem (h ▸ List.prefix_rfl)
      rw [drain_of_read_eq_none (read_part hread hp' hne)]
      exact List.prefix_append _ _

end FrameReader
