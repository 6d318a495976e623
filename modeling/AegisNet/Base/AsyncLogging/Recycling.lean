import AegisNet.Base.AsyncLogging
import Mathlib.Tactic.Common

/-!
# Buffers for recycling

The writer hands out one or two spare buffers at each swap and takes as many back from the buffers
that it has written. It hands out the second one only where `nextBuffer_` is null, and then a filled
buffer waits beside the current one. A record that is too long for any buffer is dropped, but the
buffers move as for any other.

## Main definitions

- `AsyncLogging.AnyStep` — the steps of the threads, with records of any length
- `AsyncLogging.Stocked` — no pointer that is used is null, and no vector that is popped is empty

## Main results

- `AsyncLogging.recycling_never_dry` — every state of every run is stocked
-/

namespace AegisNet

namespace AsyncLogging

/-- Where each thread has to be for its step, with no bound on a record. -/
def AnyEnabled (s : AsyncLogging) : LogStep → Prop
  | .append _ => True
  | l => s.Enabled l

def AnyStep (s : AsyncLogging) (l : LogStep) (s' : AsyncLogging) : Prop :=
  s.AnyEnabled l ∧ s.exec l = some s'

/-- How many spare buffers the writer has to take back. -/
def missing (s : AsyncLogging) : ℕ :=
  (if s.newBuffer1.isNone then 1 else 0) + if s.newBuffer2.isNone then 1 else 0

/-- `buffersToWrite` after its resize. -/
def resized (s : AsyncLogging) : List BufferPtr :=
  if 2 < s.buffersToWrite.length then s.buffersToWrite.take 2 else s.buffersToWrite

/-- What the threads rely on whenever the mutex is free. Behind the writing loop there is one buffer
    for each call of `back()`, and none of them is null. -/
structure Stocked (s : AsyncLogging) : Prop where
  current : s.currentBuffer ≠ none
  next : s.nextBuffer = none → s.buffers ≠ []
  empty : ∀ b, s.nextBuffer = some b → b.length = 0
  asserts : s.writer = .testing →
    isFresh s.newBuffer1 = true ∧ isFresh s.newBuffer2 = true ∧ s.buffersToWrite = []
  recycled : s.writer = .writing →
    s.missing ≤ s.resized.length ∧ ∀ p ∈ s.resized, p ≠ none

theorem resized_subset (s : AsyncLogging) : s.resized ⊆ s.buffersToWrite := by
  unfold resized
  split
  · exact List.take_subset _ _
  · exact List.Subset.refl _

theorem length_resized (s : AsyncLogging) : s.resized.length = min 2 s.buffersToWrite.length := by
  unfold resized
  split
  · exact List.length_take
  · omega

/-- A record that no buffer can take fills up the current one and is dropped. -/
theorem Kept.append_long {rs : List (List UInt8)} {s : AsyncLogging} (h : s.Kept rs)
    {logline : List UInt8} (hlen : kLargeBuffer ≤ logline.length) :
    ∃ s', s.append logline = some s' ∧ s'.Kept rs := by
  obtain ⟨current, hcurrent⟩ := Option.ne_none_iff_exists'.mp
    (h.present s.currentBuffer (by simp [held]))
  have hlong : ∀ b : FixedBuffer kLargeBuffer, ¬ logline.length < b.avail := by
    intro b
    unfold FixedBuffer.avail
    omega
  set fresh : FixedBuffer kLargeBuffer := {} with hfresh
  have hnext : s.nextBuffer.getD fresh = fresh := by
    obtain hn | hn := h.next <;> simp [hn, hfresh]
  have hdropped : fresh.append logline = fresh := by
    rw [FixedBuffer.append, dif_neg (hlong fresh)]
  have happend : s.append logline = some { s with
      buffers := s.buffers ++ [s.currentBuffer], currentBuffer := some fresh
      nextBuffer := none } := by
    simp [AsyncLogging.append, hcurrent, hlong current, hnext, hdropped, ← hfresh]
  have hheld : ({ s with
      buffers := s.buffers ++ [s.currentBuffer], currentBuffer := some fresh
      nextBuffer := none } : AsyncLogging).held = s.held ++ [some fresh] := by
    simp [held, AsyncLogging.unwritten]
  refine ⟨_, happend, ?_, ?_, .inl rfl, fun _ => by simp, h.locals, h.waits⟩
  · intro p hp
    rw [hheld, List.mem_append, List.mem_singleton] at hp
    obtain hp | rfl := hp
    · exact h.present p hp
    · exact Option.some_ne_none _
  · rw [hheld, List.map_append, ← List.append_assoc]
    exact h.packed.concat_nil

/-- A step with a record of any length goes through, and what was kept is kept. -/
theorem Kept.exec_any {rs : List (List UInt8)} {s : AsyncLogging} (h : s.Kept rs) {l : LogStep}
    (hl : s.AnyEnabled l) : ∃ s' rs', s.exec l = some s' ∧ s'.Kept rs' := by
  cases l with
  | append logline =>
    by_cases hlen : logline.length < kLargeBuffer
    · obtain ⟨s', hs', h'⟩ := h.append hlen
      exact ⟨s', _, hs', h'⟩
    · obtain ⟨s', hs', h'⟩ := h.append_long (Nat.le_of_not_lt hlen)
      exact ⟨s', rs, hs', h'⟩
  | _ =>
    simp only [AnyEnabled] at hl
    obtain ⟨s', hs', h'⟩ := h.exec hl
    exact ⟨s', _, hs', h'⟩

theorem kept_of_anyRun {s : AsyncLogging} {ls : List LogStep} (h : Run AnyStep {} ls s) :
    ∃ rs, s.Kept rs := by
  apply h.invariant ⟨[], kept_init⟩
  rintro t l u ⟨rs, ht⟩ ⟨hl, hu⟩
  obtain ⟨u', rs', hu', hkept⟩ := ht.exec_any hl
  obtain rfl : u' = u := by simpa [hu'] using hu
  exact ⟨rs', hkept⟩

/-- Two spare buffers are missing only where two buffers were written. -/
theorem WriterKept.missing_le {s : AsyncLogging} (h : s.WriterKept) (hw : s.writer = .writing) :
    s.missing ≤ s.resized.length ∧ ∀ p ∈ s.resized, p ≠ none := by
  obtain ⟨h1, h2, hnull, hne, htwo⟩ : s.newBuffer1 = none ∧
      (s.newBuffer2 = none ∨ s.newBuffer2 = some {}) ∧ (∀ p ∈ s.buffersToWrite, p ≠ none) ∧
      s.buffersToWrite ≠ [] ∧ (s.newBuffer2 = none → 2 ≤ s.buffersToWrite.length) := by
    simpa only [WriterKept, hw] using h
  refine ⟨?_, fun p hp => hnull p (s.resized_subset hp)⟩
  have hpos := List.length_pos_of_ne_nil hne
  rw [length_resized, missing, h1]
  obtain h2 | h2 := h2
  · have := htwo h2
    simp only [h2, Option.isNone_none, if_true]
    omega
  · simp only [h2, Option.isNone_none, if_true, Option.isNone_some, Bool.false_eq_true, if_false]
    omega

theorem Kept.stocked {rs : List (List UInt8)} {s : AsyncLogging} (h : s.Kept rs) : s.Stocked where
  current := h.present s.currentBuffer (by simp [held])
  next := h.full
  empty := by
    intro b hb
    obtain hn | hn := h.next
    · rw [hn] at hb
      cases hb
    · rw [hn] at hb
      cases hb
      rfl
  asserts := by
    intro hw
    obtain ⟨h1, h2, hempty⟩ : s.newBuffer1 = some {} ∧ s.newBuffer2 = some {} ∧
        s.buffersToWrite = [] := by
      simpa only [WriterKept, hw] using h.locals
    rw [h1, h2]
    exact ⟨rfl, rfl, hempty⟩
  recycled := h.locals.missing_le

/-- Recycling never runs dry. In every state of every run, with records of any length, the current
    buffer is there, `nextBuffer_` is null only while a filled buffer waits and is empty otherwise,
    the assertions hold, and for every spare buffer that is missing there is a written one to take
    back; and no step of a thread fails. -/
theorem recycling_never_dry {s : AsyncLogging} {ls : List LogStep} (h : Run AnyStep {} ls s) :
    s.Stocked ∧ ∀ l, s.AnyEnabled l → (s.exec l).isSome := by
  obtain ⟨rs, hkept⟩ := kept_of_anyRun h
  refine ⟨hkept.stocked, fun l hl => ?_⟩
  obtain ⟨s', _, hs', -⟩ := hkept.exec_any hl
  rw [hs']
  rfl

/-- A buffer that is swapped out and written, in front of the recycling. -/
theorem recycling_never_dry_written :
    ∃ s : AsyncLogging, s.writer = .writing ∧ s.missing = 1 ∧ s.Stocked ∧
      (s.exec .recycle).isSome := by
  have hrun : Run AnyStep {} [.setRunning, .startThread, .append [1, 2], .testRunning, .lock, .wake,
      .append [3], .write] _ :=
    .cons ⟨rfl, rfl⟩ <| .cons ⟨rfl, rfl⟩ <| .cons ⟨trivial, rfl⟩ <| .cons ⟨rfl, rfl⟩ <|
      .cons ⟨rfl, rfl⟩ <| .cons ⟨rfl, rfl⟩ <| .cons ⟨trivial, rfl⟩ <|
      .cons ⟨⟨rfl, by decide⟩, rfl⟩ .nil
  obtain ⟨hstocked, hsteps⟩ := recycling_never_dry hrun
  exact ⟨_, rfl, rfl, hstocked, hsteps .recycle ⟨rfl, by decide⟩⟩

end AsyncLogging

end AegisNet
