import AegisNet.Base.AsyncLogging
import Mathlib.Tactic.Common

/-!
# What is written when the log stops

`stop()` clears `running_` and joins the writer, which tests `running_` once per iteration and makes
no pass after its loop. What the writer has taken over at that moment is still written; of the rest
only what a swap still to come takes over.

## Main definitions

- `AsyncLogging.sent` — the bytes written or taken over by the writer
- `AsyncLogging.TakesOver` — the writer is between its test of `running_` and its swap
- `AsyncLogging.rest` — the bytes not taken over

## Main results

- `AsyncLogging.stop_flushes_iff` — when `stop()` writes everything appended before it
-/

namespace AegisNet

namespace AsyncLogging

/-- The bytes written, and those of the buffers the writer has swapped out. -/
def sent (s : AsyncLogging) : List UInt8 :=
  s.written.flatten ++ (s.unwritten.map BufferPtr.contents).flatten

/-- The bytes in `buffers_` and `currentBuffer_`. -/
def rest (s : AsyncLogging) : List UInt8 :=
  (s.buffers.map BufferPtr.contents).flatten ++ BufferPtr.contents s.currentBuffer

/-- The writer has found `running_` set and is still to swap the buffers. -/
def TakesOver (s : AsyncLogging) : Prop := s.writer = .locking ∨ s.writer = .waiting

instance (s : AsyncLogging) : Decidable s.TakesOver := inferInstanceAs (Decidable (_ ∨ _))

/-- `stop()` has cleared the flag. -/
def Stopping (s : AsyncLogging) : Prop :=
  s.running = false ∧ (s.control = .stopping ∨ s.control = .stopped)

theorem Kept.sent_append_rest {rs : List (List UInt8)} {s : AsyncLogging} (h : s.Kept rs) :
    s.sent ++ s.rest = rs.flatten := by
  rw [← h.packed.flatten_eq]
  simp [sent, rest, held]

/-- A producer changes nothing the writer has taken over. -/
theorem append_frame {s s' : AsyncLogging} {logline : List UInt8}
    (h : s.append logline = some s') :
    s'.writer = s.writer ∧ s'.running = s.running ∧ s'.control = s.control ∧
      s'.started = s.started ∧ s'.sent = s.sent := by
  cases hc : s.currentBuffer with
  | none => simp [append, hc] at h
  | some current =>
    simp only [append, hc, Option.bind_eq_bind, Option.bind_some] at h
    split at h <;> cases h <;> exact ⟨rfl, rfl, rfl, rfl, rfl⟩

/-- The swap takes over everything that was appended. -/
theorem Kept.sent_swapBuffers {rs : List (List UInt8)} {s : AsyncLogging} (h : s.Kept rs)
    (hw : s.TakesOver) : s.swapBuffers.sent = rs.flatten := by
  have hempty : s.buffersToWrite = [] := h.locals.empty (by obtain hw | hw := hw <;> simp [hw])
  rw [← h.sent_append_rest]
  simp [sent, rest, hempty, AsyncLogging.unwritten, AsyncLogging.swapBuffers]

theorem write_frame {s s' : AsyncLogging} (h : s.write = some s') :
    s'.writer = s.writer ∧ s'.running = s.running ∧ s'.control = s.control ∧
      s'.started = s.started ∧ s'.sent = s.sent := by
  cases hp : s.buffersToWrite[s.position]? with
  | none => simp [write, hp] at h
  | some ptr =>
    cases ptr with
    | none => simp [write, hp] at h
    | some buffer =>
      obtain ⟨hpos, hget⟩ := List.getElem?_eq_some_iff.mp hp
      simp only [write, hp, Option.bind_eq_bind, Option.bind_some, Option.some_inj] at h
      subst h
      refine ⟨rfl, rfl, rfl, rfl, ?_⟩
      simp [sent, AsyncLogging.unwritten, List.drop_eq_getElem_cons hpos, hget,
        BufferPtr.contents]

theorem testRunning_frame {s s' : AsyncLogging} (h : s.testRunning = some s') :
    s'.control = s.control ∧ s'.started = s.started := by
  unfold testRunning at h
  split at h
  · split at h
    · cases h
      exact ⟨rfl, rfl⟩
    · cases h
  · cases h
    exact ⟨rfl, rfl⟩

theorem recycle_frame {s s' : AsyncLogging} (h : s.recycle = some s')
    (hk : s.WriterKept) (hw : s.writer = .writing) (hpos : s.buffersToWrite.length ≤ s.position) :
    s'.writer = .testing ∧ s'.running = s.running ∧ s'.control = s.control ∧
      s'.started = s.started ∧ s'.sent = s.sent := by
  rw [recycle_eq hk hw, Option.some_inj] at h
  subst h
  refine ⟨rfl, rfl, rfl, rfl, ?_⟩
  simp [sent, AsyncLogging.unwritten, List.drop_of_length_le hpos]

/-- Once `running_` is cleared, a step leaves what the writer has taken over as it is, unless it is
    the one swap that takes over everything. -/
theorem Stopping.step {rs : List (List UInt8)} {s s' : AsyncLogging} {l : LogStep}
    (h : s.Stopping) (hk : s.Kept rs) (hs : Step s l s') :
    s'.Stopping ∧ ((s'.TakesOver ↔ s.TakesOver) ∧ s'.sent = s.sent ∨
      s.TakesOver ∧ ¬ s'.TakesOver ∧ s'.sent = rs.flatten) := by
  obtain ⟨hl, hexec⟩ := hs
  obtain ⟨hoff, hcontrol⟩ := h
  cases l with
  | setRunning => simp [show s.control = _ from hl] at hcontrol
  | startThread => simp [show s.control = _ from hl] at hcontrol
  | stop => obtain hl | hl := hl <;> simp [hl] at hcontrol
  | join =>
    cases hexec
    exact ⟨⟨hoff, .inr rfl⟩, .inl ⟨Iff.rfl, rfl⟩⟩
  | append logline =>
    obtain ⟨hw, hr, hc, -, hsent⟩ := append_frame hexec
    exact ⟨⟨hr.trans hoff, by rwa [hc]⟩, .inl ⟨by rw [TakesOver, hw]; rfl, hsent⟩⟩
  | testRunning =>
    -- the loop is left without a look at the buffers
    have htest : s.testRunning = some { s with writer := .finished } := by
      simp [testRunning, hoff]
    obtain rfl : { s with writer := .finished } = s' := by simpa [exec, htest] using hexec
    refine ⟨⟨hoff, hcontrol⟩, .inl ⟨?_, rfl⟩⟩
    simp [TakesOver, show s.writer = _ from hl]
  | lock =>
    obtain rfl : s.lock = s' := by simpa [exec] using hexec
    have hover : s.TakesOver := .inl hl
    unfold lock
    split
    · exact ⟨⟨hoff, hcontrol⟩, .inl ⟨⟨fun _ => hover, fun _ => .inr rfl⟩, rfl⟩⟩
    · exact ⟨⟨hoff, hcontrol⟩, .inr ⟨hover, by simp [TakesOver, swapBuffers],
        hk.sent_swapBuffers hover⟩⟩
  | wake =>
    obtain rfl : s.swapBuffers = s' := by simpa [exec] using hexec
    have hover : s.TakesOver := .inr hl
    exact ⟨⟨hoff, hcontrol⟩, .inr ⟨hover, by simp [TakesOver, swapBuffers],
      hk.sent_swapBuffers hover⟩⟩
  | write =>
    obtain ⟨hw, hr, hc, -, hsent⟩ := write_frame hexec
    exact ⟨⟨hr.trans hoff, by rwa [hc]⟩, .inl ⟨by rw [TakesOver, hw]; rfl, hsent⟩⟩
  | recycle =>
    obtain ⟨hw, hr, hc, -, hsent⟩ := recycle_frame hexec hk.locals hl.1 hl.2
    refine ⟨⟨hr.trans hoff, by rwa [hc]⟩, .inl ⟨?_, hsent⟩⟩
    simp [TakesOver, hw, hl.1]

/-- A thread that was never started is not running, and `stop()` returns only after `threadFunc`. -/
structure Joined (s : AsyncLogging) : Prop where
  unstarted : s.started = false → s.writer = .notStarted
  stopped : s.control = .stopped → s.writer = .finished ∨ s.writer = .notStarted

/-- The writer can only make a step if it was started and is not joined. -/
theorem Joined.of_writer {s s' : AsyncLogging} (h : s.Joined)
    (hw : s.writer ≠ .notStarted ∧ s.writer ≠ .finished) (hstarted : s'.started = s.started)
    (hcontrol : s'.control = s.control) : s'.Joined where
  unstarted := fun hs => absurd (h.unstarted (hstarted ▸ hs)) hw.1
  stopped := fun hc => by
    obtain hf | hn := h.stopped (hcontrol ▸ hc)
    · exact absurd hf hw.2
    · exact absurd hn hw.1

theorem Joined.step {rs : List (List UInt8)} {s s' : AsyncLogging} {l : LogStep} (h : s.Joined)
    (hk : s.Kept rs) (hs : Step s l s') : s'.Joined := by
  obtain ⟨hl, hexec⟩ := hs
  cases l with
  | setRunning =>
    cases hexec
    exact ⟨h.unstarted, by simp⟩
  | startThread =>
    cases hexec
    exact ⟨by simp [startThread], by simp [startThread]⟩
  | stop =>
    cases hexec
    exact ⟨h.unstarted, by simp⟩
  | join =>
    cases hexec
    refine ⟨h.unstarted, fun _ => ?_⟩
    cases hs : s.started with
    | true => exact .inl (hl.2 hs)
    | false => exact .inr (h.unstarted hs)
  | append logline =>
    obtain ⟨hw, -, hc, hs, -⟩ := append_frame hexec
    exact ⟨by rw [hs, hw]; exact h.unstarted, by rw [hc, hw]; exact h.stopped⟩
  | testRunning =>
    have hw : s.writer = .testing := hl
    obtain ⟨hc, hs⟩ := testRunning_frame hexec
    exact h.of_writer (by simp [hw]) hs hc
  | lock =>
    have hw : s.writer = .locking := hl
    obtain rfl : s.lock = s' := by simpa [exec] using hexec
    apply h.of_writer (by simp [hw]) <;> unfold lock <;> split <;> rfl
  | wake =>
    have hw : s.writer = .waiting := hl
    obtain rfl : s.swapBuffers = s' := by simpa [exec] using hexec
    exact h.of_writer (by simp [hw]) rfl rfl
  | write =>
    obtain ⟨-, -, hc, hs, -⟩ := write_frame hexec
    exact h.of_writer (by simp [hl.1]) hs hc
  | recycle =>
    obtain ⟨-, -, hc, hs, -⟩ := recycle_frame hexec hk.locals hl.1 hl.2
    exact h.of_writer (by simp [hl.1]) hs hc

theorem joined_of_run {s : AsyncLogging} {ls : List LogStep} (h : Run Step {} ls s) :
    s.Joined := by
  apply h.history (P := fun _ s => s.Joined) ⟨fun _ => rfl, fun hc => by cases hc⟩
  intro ls l t u hrun ht hs
  exact ht.step (kept_of_run hrun) hs

/-- When `stop()` has returned, nothing is left on its way to the file. -/
theorem sent_of_stopped {s : AsyncLogging} {ls : List LogStep} (h : Run Step {} ls s)
    (hc : s.control = .stopped) : ¬ s.TakesOver ∧ s.sent = s.written.flatten := by
  have hw := (joined_of_run h).stopped hc
  have hempty : s.buffersToWrite = [] :=
    (kept_of_run h).locals.empty (by obtain hw | hw := hw <;> simp [hw])
  refine ⟨?_, by simp [sent, AsyncLogging.unwritten, hempty]⟩
  obtain hw | hw := hw <;> simp [TakesOver, hw]

/-- A run that begins with the store of `stop()`: either the writer still takes over everything
    appended before it, or what it has taken over does not change. -/
theorem sent_after_stop {s₁ s₂ s₃ : AsyncLogging} {ls ms : List LogStep}
    (before : Run Step {} ls s₁) (hstop : Step s₁ .stop s₂) (after : Run Step s₂ ms s₃) :
    s₃.Stopping ∧
      (s₁.TakesOver → s₃.TakesOver ∨ (records ls).flatten <+: s₃.sent) ∧
      (¬ s₁.TakesOver → ¬ s₃.TakesOver ∧ s₃.sent = s₁.sent) := by
  induction after with
  | nil =>
    obtain ⟨-, hexec⟩ := hstop
    cases hexec
    exact ⟨⟨rfl, .inl rfl⟩, .inl, fun hno => ⟨hno, rfl⟩⟩
  | @snoc ms l t u hr hs ih =>
    obtain ⟨hstopping, hover, hclosed⟩ := ih
    have hrun : Run Step {} (ls ++ [.stop] ++ ms) t := (before.snoc hstop).trans hr
    obtain ⟨hstopping', ⟨hiff, hsent⟩ | ⟨ht, hu, hsent⟩⟩ :=
      hstopping.step (kept_of_run hrun) hs
    · rw [hiff, hsent]
      exact ⟨hstopping', hover, hclosed⟩
    · refine ⟨hstopping', fun _ => .inr ?_, fun hno => absurd ht (hclosed hno).1⟩
      rw [hsent, records_append, records_append, List.append_assoc, List.flatten_append]
      exact List.prefix_append _ _

/-- `stop()` writes everything appended before it exactly when, at its store to `running_`, the
    writer has passed its test and is still to swap the buffers, or the buffers not swapped out
    hold no bytes. -/
theorem stop_flushes_iff {s₁ s₂ s₃ : AsyncLogging} {ls ms : List LogStep}
    (before : Run Step {} ls s₁) (hstop : Step s₁ .stop s₂) (after : Run Step s₂ ms s₃)
    (hreturn : s₃.control = .stopped) :
    (records ls).flatten <+: s₃.written.flatten ↔ s₁.TakesOver ∨ s₁.rest = [] := by
  have hrun : Run Step {} (ls ++ [.stop] ++ ms) s₃ := (before.snoc hstop).trans after
  obtain ⟨hno, hsent⟩ := sent_of_stopped hrun hreturn
  obtain ⟨-, hover, hclosed⟩ := sent_after_stop before hstop after
  rw [← hsent]
  by_cases ht : s₁.TakesOver
  · exact iff_of_true ((hover ht).resolve_left hno) (.inl ht)
  · -- what the writer has taken over by then is all that is written
    rw [(hclosed ht).2, ← (kept_of_run before).sent_append_rest, or_iff_right ht]
    constructor
    · intro hprefix
      have := hprefix.length_le
      rw [List.length_append] at this
      exact List.length_eq_zero_iff.mp (by omega)
    · intro hrest
      exact ⟨[], by rw [hrest, List.append_nil, List.append_nil]⟩

/-- The stop comes while the writer waits, so the record is still written. -/
theorem stop_flushes_iff_waiting :
    let s₁ : AsyncLogging :=
      { currentBuffer := some ⟨[1, 2], by decide⟩, running := true, started := true
        control := .started, writer := .waiting, newBuffer1 := some {}, newBuffer2 := some {} }
    ∃ s₃ : AsyncLogging, s₁.TakesOver ∧ s₃.written = [[1, 2]] ∧
      ([1, 2] <+: s₃.written.flatten ↔ s₁.TakesOver ∨ s₁.rest = []) := by
  intro s₁
  have before : Run Step {} [.setRunning, .startThread, .testRunning, .lock, .append [1, 2]] s₁ :=
    .cons ⟨rfl, rfl⟩ <| .cons ⟨rfl, rfl⟩ <| .cons ⟨rfl, rfl⟩ <| .cons ⟨rfl, rfl⟩ <|
      .cons ⟨by decide, rfl⟩ .nil
  have after : Run Step { s₁ with running := false, control := .stopping }
      [.wake, .write, .recycle, .testRunning, .join] _ :=
    .cons ⟨rfl, rfl⟩ <| .cons ⟨by decide, rfl⟩ <| .cons ⟨by decide, rfl⟩ <| .cons ⟨rfl, rfl⟩ <|
      .cons ⟨⟨rfl, fun _ => rfl⟩, rfl⟩ .nil
  exact ⟨_, by decide, rfl, stop_flushes_iff before ⟨.inl rfl, rfl⟩ after rfl⟩

/-- A record appended before the writer first tests `running_` is not written when the stop comes
    before that test. -/
theorem not_stop_flushes :
    ¬ ∀ (s₁ s₂ s₃ : AsyncLogging) (ls ms : List LogStep), Run Step {} ls s₁ →
      s₁.control = .started → Step s₁ .stop s₂ → Run Step s₂ ms s₃ → s₃.control = .stopped →
      (records ls).flatten <+: s₃.written.flatten := by
  intro h
  let s₁ : AsyncLogging :=
    { currentBuffer := some ⟨[1], by decide⟩, running := true, started := true
      control := .started, writer := .testing, newBuffer1 := some {}, newBuffer2 := some {} }
  have before : Run Step {} [.setRunning, .startThread, .append [1]] s₁ :=
    .cons ⟨rfl, rfl⟩ <| .cons ⟨rfl, rfl⟩ <| .cons ⟨by decide, rfl⟩ .nil
  have after : Run Step { s₁ with running := false, control := .stopping }
      [.testRunning, .join] _ :=
    .cons ⟨rfl, rfl⟩ <| .cons ⟨⟨rfl, fun _ => rfl⟩, rfl⟩ .nil
  have := h _ _ _ _ _ before rfl ⟨.inl rfl, rfl⟩ after rfl
  exact absurd this.length_le (by decide)

end AsyncLogging

end AegisNet
