import AegisNet.Lib.Run
import AegisNet.Tcp.TcpConnection.Output

/-!
# The byte streams of a connection

Every byte given to `sendInLoop` is either taken by `::write` at once or goes to the back of
`outputBuffer_`, and `handleWrite` moves bytes from its front to the socket; so what was written,
followed by what is buffered, is what was sent.

## Main definitions

- `written` — the message bytes that a trace hands to the socket
- `TcpConnection.messageStream` — the bytes written and the bytes buffered
- `IoStep.message` — the message bytes that a step submits
-/

namespace AegisNet

/-- The bytes handed to the socket by `::write`. -/
def written (trace : List Effect) : Bytes :=
  trace.flatMap fun
    | .write bytes => bytes
    | _ => []

namespace IoStep

def message : IoStep → Bytes
  | sendInLoop message _ => message
  | sendFileInLoop _ _ | shutdown | shutdownInLoop | forceClose | handleWrite _ _ => []

/-- No `::write` of `sendInLoop` finds the connection broken. -/
def NoFault : IoStep → Prop
  | sendInLoop _ w => w.isFault = false
  | _ => True

end IoStep

namespace TcpConnection

/-- The bytes written so far and those still buffered. -/
def messageStream (c : TcpConnection) : Bytes := written c.trace ++ c.outputBuffer.readable

theorem messageStream_sendInLoop {c : TcpConnection} (hc : c.state ≠ .kDisconnected)
    (message : Bytes) {w : IoResult} (hw : w.isFault = false) :
    (c.sendInLoop message w).messageStream = c.messageStream ++ message := by
  show (c.sendInLoop message w).core.messageStream = _
  obtain ⟨h, hm | hf⟩ | ⟨-, hb, h⟩ | ⟨-, hb, n, -, h⟩ | ⟨-, h⟩ := sendInLoop_cases hc message w
  · rw [h, hm, List.append_nil]
    rfl
  · rw [hf] at hw
    exact absurd hw (by simp)
  · rw [h]
    simp [messageStream, core, emit, written, hb]
  · rw [h]
    simp [messageStream, core, emit, buffered, written, hb]
  · rw [h]
    simp [messageStream, core, buffered]

/-- Draining moves bytes from the front of the buffer to the socket. -/
theorem messageStream_handleWrite (c : TcpConnection) (w f : IoResult) :
    (c.handleWrite w f).messageStream = c.messageStream := by
  refine handleWrite_rule (P := fun d => d.messageStream = c.messageStream) (fun _ => Iff.rfl)
    rfl ?_ ?_ ?_
  · intro d hd
    obtain rfl | ⟨n, rfl⟩ := writeOutput_cases hd
    · rfl
    · simp [messageStream, emit, written]
  · intro d hd
    obtain h | ⟨-, -, n, -, h⟩ | ⟨-, -, -, h⟩ := d.transferFile_cases f
    all_goals rw [h, ← hd]
    all_goals simp [messageStream, emit, written]
  · intro d hd
    obtain h | ⟨-, -, h⟩ := d.completeWrite_cases
    · rw [h, hd]
    · show d.completeWrite.core.messageStream = _
      rw [h, ← hd]
      -- closing the file and the half-close are no message bytes
      show written d.finished.trace ++ d.outputBuffer.readable = _
      simp only [finished]
      split <;> split <;> simp [messageStream, written]

theorem messageStream_shutdownInLoop (c : TcpConnection) :
    c.shutdownInLoop.messageStream = c.messageStream := by
  obtain ⟨-, h⟩ | ⟨-, h⟩ := c.shutdownInLoop_cases
  · rw [h]
  · rw [h]
    simp [messageStream, emit, written]

/-- Step lemma: a step adds the message that it submits, and nothing else. -/
theorem messageStream_exec {c : TcpConnection} (hc : c.state ≠ .kDisconnected) {l : IoStep}
    (hl : l.NoFault) : (c.exec l).messageStream = c.messageStream ++ l.message := by
  cases l with
  | sendInLoop message w => exact messageStream_sendInLoop hc message hl
  | sendFileInLoop file fileSize =>
    rw [exec, sendFileInLoop_eq hc, IoStep.message, List.append_nil]
    rfl
  | shutdown =>
    simp only [exec, shutdown, IoStep.message, List.append_nil]
    split
    · exact messageStream_shutdownInLoop _
    · rfl
  | shutdownInLoop => simpa [exec, IoStep.message] using messageStream_shutdownInLoop c
  | forceClose =>
    simp only [exec, forceClose, IoStep.message, List.append_nil]
    split <;> rfl
  | handleWrite w f => simpa [exec, IoStep.message] using messageStream_handleWrite c w f

theorem messageStream_connectEstablished {c₀ : TcpConnection} (h₀ : c₀.Constructed) :
    c₀.connectEstablished.messageStream = [] := by
  simp only [messageStream, connectEstablished, notifyConnection, setState, emitIf, h₀.trace,
    h₀.outputBuffer]
  split <;> rfl

theorem connectEstablished_ne_kDisconnected (c₀ : TcpConnection) :
    c₀.connectEstablished.state ≠ .kDisconnected :=
  fun h => StateE.noConfusion h

/-- **Message stream integrity.** In every run of output steps, whatever the kernel takes of each
    write, the bytes written and the bytes buffered are the messages submitted, in call order. -/
theorem written_append_readable {c₀ c : TcpConnection} (h₀ : c₀.Constructed) {ls : List IoStep}
    (hrun : Run (fun c l c' => l.NoFault ∧ c' = c.exec l) c₀.connectEstablished ls c) :
    written c.trace ++ c.outputBuffer.readable = ls.flatMap IoStep.message := by
  refine (hrun.history (P := fun ls c =>
    c.state ≠ .kDisconnected ∧ c.messageStream = ls.flatMap IoStep.message) ?_ ?_).2
  · exact ⟨c₀.connectEstablished_ne_kDisconnected, messageStream_connectEstablished h₀⟩
  · rintro ls l c _ - ⟨hc, hs⟩ ⟨hl, rfl⟩
    refine ⟨exec_ne_kDisconnected hc l, ?_⟩
    rw [messageStream_exec hc hl, hs]
    simp

/-- Three bytes of which the kernel takes one at once and one later, with a message behind them
    that the buffer holds back. -/
theorem written_append_readable_short :
    let c := [.sendInLoop [1, 2, 3] (.upTo 1), .sendInLoop [4] (.upTo 9),
      .handleWrite (.upTo 1) (.upTo 0)].foldl exec ({} : TcpConnection).connectEstablished
    written c.trace ++ c.outputBuffer.readable = [1, 2, 3, 4] :=
  written_append_readable constructed_default
    (Run.of_allowed (Q := fun _ => IoStep.NoFault)
      (by simp [Run.Allowed, IoStep.NoFault, IoResult.isFault]))

end TcpConnection

end AegisNet
