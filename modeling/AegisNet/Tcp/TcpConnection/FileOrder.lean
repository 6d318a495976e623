import AegisNet.Tcp.TcpConnection.Stream

/-!
# Messages and files on the wire

A connection has one slot for a file, and `handleWrite` always drains `outputBuffer_` before it.
So a message that is sent while a file is pending overtakes the rest of the file, and a second
file replaces the first. As long as nothing is submitted on top of an unsent file, the socket
gets messages and files in the order of the calls.

## Main definitions

- `onWire` — all bytes that a trace hands to the socket
- `IoStep.payload` — the bytes that a step submits
- `IoStep.InOrder` — no file bytes are waiting when more is submitted
- `TcpConnection.outputStream` — the bytes sent, buffered, and still in the file
-/

namespace AegisNet

/-- The bytes handed to the socket by `::write` and `::sendfile`. -/
def onWire (trace : List Effect) : Bytes :=
  trace.flatMap fun
    | .write bytes | .sendfile bytes => bytes
    | _ => []

/-- The kernel takes some of the bytes or returns `EAGAIN`. -/
def IoResult.Benign : IoResult → Prop
  | .upTo _ => True
  | .error errno => errno = .eagain

instance : DecidablePred IoResult.Benign := fun r => by
  cases r <;> unfold IoResult.Benign <;> infer_instance

theorem IoResult.Benign.isFault_eq {r : IoResult} (h : r.Benign) : r.isFault = false := by
  cases r with
  | upTo n => rfl
  | error errno =>
    rw [show errno = .eagain from h]
    rfl

namespace IoStep

def payload : IoStep → Bytes
  | sendInLoop message _ => message
  | sendFileInLoop file fileSize => file.data.take fileSize
  | shutdown | shutdownInLoop | forceClose | handleWrite _ _ => []

/-- Files are given by open descriptors, and the kernel reports no error but `EAGAIN`. -/
def Benign : IoStep → Prop
  | sendInLoop _ w => w.Benign
  | sendFileInLoop file _ => 0 ≤ file.fd
  | handleWrite w f => w.Benign ∧ f.Benign
  | shutdown | shutdownInLoop | forceClose => True

/-- Nothing is submitted while bytes of a file are waiting. -/
def InOrder (c : TcpConnection) : IoStep → Prop
  | sendInLoop message _ => message = [] ∨ c.unsentFile = []
  | sendFileInLoop _ _ => c.unsentFile = []
  | shutdown | shutdownInLoop | forceClose | handleWrite _ _ => True

instance : DecidablePred Benign := fun l => by
  cases l <;> unfold Benign <;> infer_instance

instance (c : TcpConnection) : DecidablePred (InOrder c) := fun l => by
  cases l <;> unfold InOrder <;> infer_instance

end IoStep

namespace TcpConnection

/-- The bytes sent so far, those in the buffer, and those still in the file. -/
def outputStream (c : TcpConnection) : Bytes :=
  onWire c.trace ++ c.outputBuffer.readable ++ c.unsentFile

theorem outputStream_sendInLoop {c : TcpConnection} (hc : c.state ≠ .kDisconnected)
    {message : Bytes} {w : IoResult} (hw : w.Benign) (ho : message = [] ∨ c.unsentFile = []) :
    (c.sendInLoop message w).outputStream = c.outputStream ++ message := by
  -- the message goes behind the buffer, hence in front of what is left of a file
  have hswap : c.unsentFile ++ message = message ++ c.unsentFile := by
    rcases ho with h | h <;> simp [h]
  show (c.sendInLoop message w).core.outputStream = _
  obtain ⟨h, hm⟩ | ⟨-, hb, h⟩ | ⟨-, hb, n, -, h⟩ | ⟨-, h⟩ := sendInLoop_cases hc message w
  · rw [h]
    simp only [hw.isFault_eq, Bool.false_eq_true, or_false] at hm
    rw [hm, List.append_nil]
    rfl
  · rw [h]
    show onWire (c.trace ++ [.write message]) ++ c.outputBuffer.readable ++ c.unsentFile = _
    simp [outputStream, onWire, hb, hswap]
  · rw [h]
    show onWire (c.trace ++ [.write (message.take n)]) ++
      (c.outputBuffer.append (message.drop n)).readable ++ c.unsentFile = _
    simp [outputStream, onWire, hb, hswap]
  · rw [h]
    show onWire c.trace ++ (c.outputBuffer.append message).readable ++ c.unsentFile = _
    simp [outputStream, hswap]

theorem outputStream_sendFileInLoop {c : TcpConnection} (hc : c.state ≠ .kDisconnected)
    {file : File} (hfd : 0 ≤ file.fd) (fileSize : ℕ) (ho : c.unsentFile = []) :
    (c.sendFileInLoop file fileSize).outputStream =
      c.outputStream ++ file.data.take fileSize := by
  rw [sendFileInLoop_eq hc, outputStream, unsentFile, if_pos hfd, List.drop_zero, outputStream, ho,
    List.append_nil]

/-- A transfer takes bytes from the front of what is unsent. -/
theorem unsentFile_advance (c : TcpConnection) (n : ℕ) (e : Effect) :
    { c.emit e with fileOffset := c.fileOffset + n }.unsentFile = c.unsentFile.drop n := by
  show (if 0 ≤ c.fileFd then (c.fileData.take c.fileSize).drop (c.fileOffset + n) else []) = _
  unfold unsentFile
  split <;> simp

theorem unsentFile_of_done {c : TcpConnection} (h : c.fileFd < 0 ∨ c.fileOffset = c.fileSize) :
    c.unsentFile = [] := by
  unfold unsentFile
  split
  · next hfd =>
    have ho : c.fileOffset = c.fileSize := h.resolve_left (Int.not_lt.mpr hfd)
    simp [ho]
  · rfl

/-- Draining moves bytes from the buffer to the socket, and then from the file. -/
theorem outputStream_handleWrite (c : TcpConnection) {w f : IoResult} (hf : f.Benign) :
    (c.handleWrite w f).outputStream = c.outputStream := by
  refine handleWrite_rule (P := fun d => d.outputStream = c.outputStream) (fun _ => Iff.rfl)
    rfl ?_ ?_ ?_
  · intro d hd
    obtain rfl | ⟨n, rfl⟩ := writeOutput_cases hd
    · rfl
    · show onWire (c.trace ++ [.write (c.outputBuffer.readable.take n)]) ++
        (c.outputBuffer.retrieve n).readable ++ c.unsentFile = _
      simp [outputStream, onWire]
  · intro d hd
    obtain h | ⟨hb, -, n, -, h⟩ | ⟨-, -, ⟨errno, he, hne⟩, -⟩ := d.transferFile_cases f
    · rw [h, hd]
    · rw [h, ← hd, outputStream, unsentFile_advance]
      simp [outputStream, emit, onWire, hb]
    · rw [he] at hf
      exact absurd hf hne
  · intro d hd
    obtain h | ⟨hb, ho, h⟩ := d.completeWrite_cases
    · rw [h, hd]
    · show d.completeWrite.core.outputStream = _
      rw [h, ← hd]
      show onWire d.finished.trace ++ d.outputBuffer.readable ++ d.finished.unsentFile = _
      -- the file is closed only here, with nothing of it unsent
      rw [outputStream, unsentFile_of_done ho, unsentFile_of_done (.inl d.fileFd_finished)]
      simp only [finished]
      split <;> split <;> simp [onWire]

theorem outputStream_shutdownInLoop (c : TcpConnection) :
    c.shutdownInLoop.outputStream = c.outputStream := by
  obtain ⟨-, h⟩ | ⟨-, h⟩ := c.shutdownInLoop_cases
  · rw [h]
  · rw [h]
    show onWire (c.trace ++ [.shutdownWrite c.outputBuffer.readable c.fileFd]) ++
      c.outputBuffer.readable ++ c.unsentFile = _
    simp [outputStream, onWire]

/-- Step lemma: a step in order adds what it submits at the end. -/
theorem outputStream_exec {c : TcpConnection} (hc : c.state ≠ .kDisconnected) {l : IoStep}
    (hl : l.Benign) (ho : l.InOrder c) :
    (c.exec l).outputStream = c.outputStream ++ l.payload := by
  cases l with
  | sendInLoop message w => exact outputStream_sendInLoop hc hl ho
  | sendFileInLoop file fileSize => exact outputStream_sendFileInLoop hc hl fileSize ho
  | shutdown =>
    simp only [exec, shutdown, IoStep.payload, List.append_nil]
    split
    · exact outputStream_shutdownInLoop _
    · rfl
  | shutdownInLoop => simpa [exec, IoStep.payload] using outputStream_shutdownInLoop c
  | forceClose =>
    simp only [exec, forceClose, IoStep.payload, List.append_nil]
    split <;> rfl
  | handleWrite w f => simpa [exec, IoStep.payload] using outputStream_handleWrite c hl.2

theorem outputStream_connectEstablished {c₀ : TcpConnection} (h₀ : c₀.Constructed) :
    c₀.connectEstablished.outputStream = [] := by
  have hfd : c₀.connectEstablished.fileFd < 0 := by
    show c₀.fileFd < 0
    rw [h₀.fileFd]
    decide
  have hu : c₀.connectEstablished.unsentFile = [] := unsentFile_of_done (.inl hfd)
  simp only [outputStream, hu, List.append_nil]
  simp only [connectEstablished, notifyConnection, setState, emitIf, h₀.trace, h₀.outputBuffer]
  split <;> rfl

/-- **Order on the wire.** In every run that submits nothing on top of an unsent file, the socket
    has got a beginning of the messages and files in call order, and the rest is waiting. -/
theorem onWire_prefix_payload {c₀ c : TcpConnection} (h₀ : c₀.Constructed) {ls : List IoStep}
    (hrun : Run (fun c l c' => (l.Benign ∧ l.InOrder c) ∧ c' = c.exec l)
      c₀.connectEstablished ls c) :
    onWire c.trace <+: ls.flatMap IoStep.payload ∧
      onWire c.trace ++ c.outputBuffer.readable ++ c.unsentFile =
        ls.flatMap IoStep.payload := by
  have hstream : c.outputStream = ls.flatMap IoStep.payload := by
    refine (hrun.history (P := fun ls c =>
      c.state ≠ .kDisconnected ∧ c.outputStream = ls.flatMap IoStep.payload) ?_ ?_).2
    · exact ⟨c₀.connectEstablished_ne_kDisconnected, outputStream_connectEstablished h₀⟩
    · rintro ls l c _ - ⟨hc, hs⟩ ⟨⟨hl, ho⟩, rfl⟩
      refine ⟨exec_ne_kDisconnected hc l, ?_⟩
      rw [outputStream_exec hc hl ho, hs]
      simp
  refine ⟨?_, hstream⟩
  rw [← hstream, outputStream, List.append_assoc]
  exact List.prefix_append _ _

/-- A message, a file behind what is buffered of it, and a message after the file. -/
theorem onWire_prefix_payload_mixed :
    let c := [.sendInLoop [1, 2] (.upTo 1), .sendFileInLoop ⟨7, [3, 4]⟩ 2,
      .handleWrite (.upTo 1) (.upTo 2), .sendInLoop [5] (.error .eagain)].foldl exec
        ({} : TcpConnection).connectEstablished
    onWire c.trace <+: [1, 2, 3, 4, 5] ∧
      onWire c.trace ++ c.outputBuffer.readable ++ c.unsentFile = [1, 2, 3, 4, 5] :=
  onWire_prefix_payload constructed_default
    (Run.of_allowed (Q := fun c l => IoStep.Benign l ∧ IoStep.InOrder c l) (by decide +kernel))

/-- Without that condition a message overtakes a file that was submitted before it. -/
theorem not_onWire_prefix_payload :
    ¬ ∀ (c₀ c : TcpConnection) (ls : List IoStep), c₀.Constructed →
      Run (fun c l c' => l.Benign ∧ c' = c.exec l) c₀.connectEstablished ls c →
        onWire c.trace <+: ls.flatMap IoStep.payload := by
  intro h
  have hp := h {} _ [.sendFileInLoop ⟨7, [1, 2]⟩ 2, .sendInLoop [3] (.upTo 1),
    .handleWrite (.upTo 1) (.upTo 1)] constructed_default
    (Run.of_allowed (Q := fun _ => IoStep.Benign) (by decide +kernel))
  exact absurd hp (by decide +kernel)

/-- And a second file replaces the first. -/
example :
    let c := [.sendFileInLoop ⟨7, [1]⟩ 1, .sendFileInLoop ⟨8, [2]⟩ 1,
      .handleWrite (.upTo 1) (.upTo 1)].foldl exec ({} : TcpConnection).connectEstablished
    onWire c.trace = [2] ∧ c.unsentFile = [] ∧ Effect.close 7 ∉ c.trace := by
  decide +kernel

end TcpConnection

end AegisNet
