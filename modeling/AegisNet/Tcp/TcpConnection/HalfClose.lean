import AegisNet.Tcp.TcpConnection.Stream

/-!
# Draining before the half-close

`shutdownInLoop` half-closes only while `EPOLLOUT` is off, and `handleWrite` makes up for it when
the last byte is sent. Both rely on `EPOLLOUT` being on whenever output or a file is pending. That
is an invariant, so the half-close comes neither before the output is drained nor never.

## Main definitions

- `TcpConnection.Armed` — pending output keeps `EPOLLOUT` on
- `TcpConnection.HalfCloseDue` — a half-close is made, or `EPOLLOUT` is on
- `IoStep.BeginsHalfClose` — the steps that owe a half-close
-/

namespace AegisNet

/-- `shutdown` on a connected connection, or the `shutdownInLoop` that another thread's `shutdown`
    has queued. -/
def IoStep.BeginsHalfClose (c : TcpConnection) (l : IoStep) : Prop :=
  (l = .shutdown ∧ c.state = .kConnected) ∨ (l = .shutdownInLoop ∧ c.state = .kDisconnecting)

namespace TcpConnection

/-- While there is output or a file to send, `EPOLLOUT` is on. -/
def Armed (c : TcpConnection) : Prop :=
  c.outputBuffer.readable ≠ [] ∨ 0 ≤ c.fileFd → c.channel.isWriting = true

/-- Every half-close so far found the buffer empty and no file pending. -/
def DrainedHalfCloses (c : TcpConnection) : Prop :=
  ∀ unsent fd, .shutdownWrite unsent fd ∈ c.trace → unsent = [] ∧ fd < 0

def HalfClosed (c : TcpConnection) : Prop := ∃ unsent fd, .shutdownWrite unsent fd ∈ c.trace

/-- The connection is on its way down, and has made its half-close unless output is pending. -/
def HalfCloseDue (c : TcpConnection) : Prop :=
  c.state = .kDisconnecting ∧ (c.channel.isWriting = false → c.HalfClosed)

@[simp] theorem isWriting_buffered (c : TcpConnection) (remaining : Bytes) :
    (c.buffered remaining).channel.isWriting = true := by
  cases h : c.channel.isWriting <;> simp [buffered, h]

@[simp] theorem isWriting_sendFileInLoop {c : TcpConnection} (hc : c.state ≠ .kDisconnected)
    (file : File) (fileSize : ℕ) :
    (c.sendFileInLoop file fileSize).channel.isWriting = true := by
  rw [sendFileInLoop_eq hc]
  cases h : c.channel.isWriting <;> simp [h]

/-- Output steps half-close only when nothing is pending. -/
theorem DrainedHalfCloses.addsOutput {c c' : TcpConnection} (h : c.DrainedHalfCloses)
    (hadd : c.AddsOutput c') : c'.DrainedHalfCloses := by
  obtain ⟨es, ht, hes⟩ := hadd
  intro unsent fd hmem
  rw [ht] at hmem
  exact (List.mem_append.mp hmem).elim (h unsent fd) (hes _)

theorem HalfClosed.mono {c c' : TcpConnection} (h : c.HalfClosed) (ht : c.trace <+: c'.trace) :
    c'.HalfClosed := by
  obtain ⟨unsent, fd, hmem⟩ := h
  exact ⟨unsent, fd, ht.subset hmem⟩

theorem AddsOutput.isPrefix {c c' : TcpConnection} (h : c.AddsOutput c') :
    c.trace <+: c'.trace := by
  obtain ⟨es, ht, -⟩ := h
  exact ⟨es, ht.symm⟩

theorem trace_sendFileInLoop {c : TcpConnection} (hc : c.state ≠ .kDisconnected) (file : File)
    (fileSize : ℕ) : (c.sendFileInLoop file fileSize).trace = c.trace := by
  rw [sendFileInLoop_eq hc]

/-! ## Pending output is armed, and half-closes are drained -/

theorem armed_sendInLoop {c : TcpConnection} (hc : c.state ≠ .kDisconnected) (h : c.Armed)
    (message : Bytes) (w : IoResult) : (c.sendInLoop message w).Armed := by
  show (c.sendInLoop message w).core.Armed
  obtain ⟨hr, -⟩ | ⟨-, -, hr⟩ | ⟨-, -, n, -, hr⟩ | ⟨-, hr⟩ := sendInLoop_cases hc message w
  · rw [hr]
    exact h
  · rw [hr]
    exact h
  · rw [hr]
    exact fun _ => isWriting_buffered (c.emit _) (message.drop n)
  · rw [hr]
    exact fun _ => isWriting_buffered c message

/-- With `EPOLLOUT` off nothing is pending, so the half-close of `shutdownInLoop` is drained. -/
theorem drained_shutdownInLoop {c : TcpConnection} (ha : c.Armed) (hd : c.DrainedHalfCloses) :
    c.shutdownInLoop.DrainedHalfCloses := by
  obtain ⟨-, h⟩ | ⟨hw, h⟩ := c.shutdownInLoop_cases
  · rwa [h]
  · have hoff : ¬(c.outputBuffer.readable ≠ [] ∨ 0 ≤ c.fileFd) := fun hp => by
      simp [ha hp] at hw
    obtain ⟨hb, hfd⟩ := not_or.mp hoff
    rw [h]
    intro unsent fd hmem
    obtain hmem | hmem := List.mem_append.mp hmem
    · exact hd unsent fd hmem
    · obtain ⟨rfl, rfl⟩ : unsent = c.outputBuffer.readable ∧ fd = c.fileFd := by
        simpa using hmem
      exact ⟨not_not.mp hb, Int.not_le.mp hfd⟩

theorem armed_handleWrite {c : TcpConnection} (h : c.Armed) (w f : IoResult) :
    (c.handleWrite w f).Armed := by
  refine handleWrite_rule (P := Armed) (fun _ => Iff.rfl) h ?_ ?_ ?_
  · intro d hd
    obtain rfl | ⟨n, rfl⟩ := writeOutput_cases hd
    · exact h
    · intro hp
      refine h (hp.imp_left fun hne hb => hne ?_)
      show (c.outputBuffer.retrieve n).readable = []
      simp [hb]
  · intro d hd
    obtain hr | ⟨hb, -, n, -, hr⟩ | ⟨hb, -, -, hr⟩ := d.transferFile_cases f
    · rwa [hr]
    · rwa [hr]
    · rw [hr]
      -- an error closes the file, and the buffer is empty
      intro hp
      exact hp.elim (absurd hb) (fun hfd => absurd hfd (Int.not_le.mpr (Int.negSucc_lt_zero 0)))
  · intro d hd
    obtain hr | ⟨hb, -, hr⟩ := d.completeWrite_cases
    · rwa [hr]
    · show d.completeWrite.core.Armed
      rw [hr]
      intro hp
      obtain hp | hp := hp
      · exact absurd hb hp
      · exact absurd d.fileFd_finished (Int.not_lt.mpr hp)

/-! ## A half-close that is due is made -/

theorem halfCloseDue_shutdownInLoop {c : TcpConnection} (h : c.state = .kDisconnecting) :
    c.shutdownInLoop.HalfCloseDue := by
  refine ⟨by rw [state_shutdownInLoop, h], ?_⟩
  obtain ⟨hw, hr⟩ | ⟨-, hr⟩ := c.shutdownInLoop_cases
  · rw [hr]
    exact fun hoff => absurd hoff (by simp [hw])
  · rw [hr]
    exact fun _ => ⟨_, _, List.mem_append_right _ (List.mem_singleton.mpr rfl)⟩

theorem halfCloseDue_sendInLoop {c : TcpConnection} (h : c.HalfCloseDue) (message : Bytes)
    (w : IoResult) : (c.sendInLoop message w).HalfCloseDue := by
  have hc : c.state ≠ .kDisconnected := by
    rw [h.1]
    decide
  refine ⟨by rw [state_sendInLoop, h.1], fun hoff => ?_⟩
  refine HalfClosed.mono (h.2 ?_) (addsOutput_sendInLoop hc message w).isPrefix
  change (c.sendInLoop message w).core.channel.isWriting = false at hoff
  obtain ⟨hr, -⟩ | ⟨hw, -, -⟩ | ⟨hw, -, -⟩ | ⟨-, hr⟩ := sendInLoop_cases hc message w
  · rwa [hr] at hoff
  · exact hw
  · exact hw
  · rw [hr] at hoff
    simp [core] at hoff

theorem halfCloseDue_handleWrite {c : TcpConnection} (h : c.HalfCloseDue) (w f : IoResult) :
    (c.handleWrite w f).HalfCloseDue := by
  refine handleWrite_rule (P := HalfCloseDue) (fun _ => Iff.rfl) h ?_ ?_ ?_
  · intro d hd
    obtain rfl | ⟨n, rfl⟩ := writeOutput_cases hd
    · exact h
    · exact ⟨h.1, fun hoff => (h.2 hoff).mono (List.prefix_append _ _)⟩
  · intro d hd
    obtain hr | ⟨-, -, n, -, hr⟩ | ⟨-, -, -, hr⟩ := d.transferFile_cases f
    all_goals rw [hr]
    · exact hd
    all_goals exact ⟨hd.1, fun hoff => (hd.2 hoff).mono (List.prefix_append _ _)⟩
  · intro d hd
    obtain hr | ⟨-, -, hr⟩ := d.completeWrite_cases
    · rwa [hr]
    · show d.completeWrite.core.HalfCloseDue
      rw [hr]
      -- the last byte is out: the half-close is made here
      refine ⟨hd.1, fun _ => ⟨[], d.finished.fileFd, List.mem_append_right _ ?_⟩⟩
      rw [if_pos hd.1]
      exact List.mem_singleton.mpr rfl

/-! ## Runs -/

/-- What holds between the output steps of a connection. -/
structure Draining (c : TcpConnection) : Prop where
  up : c.state ≠ .kDisconnected
  armed : c.Armed
  drained : c.DrainedHalfCloses

theorem draining_connectEstablished {c₀ : TcpConnection} (h₀ : c₀.Constructed) :
    c₀.connectEstablished.Draining where
  up := c₀.connectEstablished_ne_kDisconnected
  armed hp := by
    change c₀.outputBuffer.readable ≠ [] ∨ 0 ≤ c₀.fileFd at hp
    simp [h₀.outputBuffer, h₀.fileFd] at hp
  drained unsent fd hmem := by
    change _ ∈ (if c₀.connectionCallback then c₀.trace ++ [_] else c₀.trace) at hmem
    split at hmem <;> simp [h₀.trace] at hmem

theorem draining_shutdownInLoop {c : TcpConnection} (h : c.Draining) :
    c.shutdownInLoop.Draining where
  up := by
    rw [state_shutdownInLoop]
    exact h.up
  armed := by
    obtain ⟨-, hr⟩ | ⟨-, hr⟩ := c.shutdownInLoop_cases <;> rw [hr] <;> exact h.armed
  drained := drained_shutdownInLoop h.armed h.drained

/-- Step lemma for the invariant. -/
theorem draining_exec {c : TcpConnection} (h : c.Draining) (l : IoStep) :
    (c.exec l).Draining := by
  cases l with
  | sendInLoop message w =>
    exact ⟨exec_ne_kDisconnected h.up _, armed_sendInLoop h.up h.armed message w,
      h.drained.addsOutput (addsOutput_sendInLoop h.up message w)⟩
  | sendFileInLoop file fileSize =>
    refine ⟨exec_ne_kDisconnected h.up _, fun _ => isWriting_sendFileInLoop h.up file fileSize, ?_⟩
    intro unsent fd hmem
    change _ ∈ (c.sendFileInLoop file fileSize).trace at hmem
    rw [trace_sendFileInLoop h.up] at hmem
    exact h.drained unsent fd hmem
  | shutdown =>
    simp only [exec, shutdown]
    split
    · exact draining_shutdownInLoop ⟨by simp [setState], h.armed, h.drained⟩
    · exact h
  | shutdownInLoop => exact draining_shutdownInLoop h
  | forceClose =>
    refine ⟨exec_ne_kDisconnected h.up _, ?_, ?_⟩ <;> simp only [exec, forceClose] <;> split
    · exact h.armed
    · exact h.armed
    · exact h.drained
    · exact h.drained
  | handleWrite w f =>
    exact ⟨exec_ne_kDisconnected h.up _, armed_handleWrite h.armed w f,
      h.drained.addsOutput (addsOutput_handleWrite c w f)⟩

theorem halfCloseDue_exec {c : TcpConnection} (h : c.HalfCloseDue) (l : IoStep) :
    (c.exec l).HalfCloseDue := by
  have hc : c.state ≠ .kDisconnected := by
    rw [h.1]
    decide
  cases l with
  | sendInLoop message w => exact halfCloseDue_sendInLoop h message w
  | sendFileInLoop file fileSize =>
    refine ⟨by simpa [exec] using h.1, fun hoff => ?_⟩
    exact absurd (isWriting_sendFileInLoop hc file fileSize) (by simpa [exec] using hoff)
  | shutdown => simpa [exec, shutdown, h.1] using h
  | shutdownInLoop => exact halfCloseDue_shutdownInLoop h.1
  | forceClose =>
    rw [exec, forceClose, if_pos (.inr h.1)]
    exact ⟨rfl, h.2⟩
  | handleWrite w f => exact halfCloseDue_handleWrite h w f

/-- **Drain before FIN.** In every run of output steps, whatever the kernel answers: pending output
    keeps `EPOLLOUT` on; no half-close is made before the output is drained; and after a step that
    owes a half-close, it has been made whenever `EPOLLOUT` is off. -/
theorem drain_before_shutdownWrite {c₀ c : TcpConnection} (h₀ : c₀.Constructed)
    {ls : List IoStep} (hrun : Run (fun c l c' => c' = c.exec l) c₀.connectEstablished ls c) :
    (c.state ≠ .kDisconnected → c.outputBuffer.readable ≠ [] ∨ 0 ≤ c.fileFd →
      c.channel.isWriting = true) ∧
    (∀ unsent fd, .shutdownWrite unsent fd ∈ c.trace → unsent = [] ∧ fd < 0) ∧
    ∀ (l : IoStep) (ms : List IoStep) (c' : TcpConnection), l.BeginsHalfClose c →
      Run (fun c l c' => c' = c.exec l) (c.exec l) ms c' → c'.channel.isWriting = false →
        ∃ unsent fd, .shutdownWrite unsent fd ∈ c'.trace := by
  have hinv : c.Draining :=
    hrun.invariant (draining_connectEstablished h₀) fun d l d' hd hl => hl ▸ draining_exec hd l
  refine ⟨fun _ => hinv.armed, hinv.drained, fun l ms c' hl hrun' => ?_⟩
  have hdue : (c.exec l).HalfCloseDue := by
    obtain ⟨rfl, hs⟩ | ⟨rfl, hs⟩ := hl
    · rw [exec, shutdown, if_pos hs]
      exact halfCloseDue_shutdownInLoop rfl
    · exact halfCloseDue_shutdownInLoop hs
  exact (hrun'.invariant hdue fun d l d' hd hl => hl ▸ halfCloseDue_exec hd l).2

/-- A message cut short by the kernel, `shutdown` behind it, and the write that completes it. -/
theorem drain_before_shutdownWrite_short :
    let c := ({} : TcpConnection).connectEstablished.exec (.sendInLoop [1, 2] (.upTo 1))
    let c' := (c.exec .shutdown).exec (.handleWrite (.upTo 1) (.upTo 0))
    c.channel.isWriting = true ∧ ∃ unsent fd, .shutdownWrite unsent fd ∈ c'.trace := by
  have h := drain_before_shutdownWrite constructed_default
    (.single (l := .sendInLoop [1, 2] (.upTo 1)) rfl)
  refine ⟨h.1 (by decide +kernel) (by decide +kernel), ?_⟩
  exact h.2.2 .shutdown [.handleWrite (.upTo 1) (.upTo 0)] _ (.inl ⟨rfl, by decide +kernel⟩)
    (.single rfl) (by decide +kernel)

end TcpConnection

end AegisNet
