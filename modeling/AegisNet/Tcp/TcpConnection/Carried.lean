import AegisNet.Tcp.TcpConnection.Closing
import AegisNet.Tcp.TcpConnection.Stream

/-!
# What the methods carry

A server that uses a connection sees its streams: the bytes that went out or wait to go out, and the
input that waits to be parsed. Only `sendInLoop` adds to the first, and only `handleRead` to the
second. A message that `sendInLoop` gives up is given up as a whole.

## Main definitions

- `TcpConnection.takes` — whether `sendInLoop` gives its message up
- `TcpConnection.face` — the streams of a connection, and whether it hands its input on
- `TcpConnection.Carries` — the same streams, up to the input of a connection that is down
-/

namespace AegisNet

namespace TcpConnection

/-- The connection is not down, and a direct write does not find it broken. -/
def takes (c : TcpConnection) (buf : Bytes) (w : IoResult) : Bool :=
  c.state ≠ .kDisconnected && !(c.directWrite buf w).2.2

/-- A message is taken whole or not at all, broken connections included. -/
theorem messageStream_sendInLoop_takes (c : TcpConnection) (buf : Bytes) (w : IoResult) :
    (c.sendInLoop buf w).messageStream = c.messageStream ++ if c.takes buf w then buf else [] := by
  by_cases hc : c.state = .kDisconnected
  · simp [sendInLoop, takes, hc]
  rw [sendInLoop, if_neg hc]
  obtain ⟨fault, hd, -⟩ | ⟨-, hb, n, c', hn, hd, hc'⟩ := c.directWrite_cases buf w
  · have hbuffer : (c.bufferRemaining buf).messageStream = c.messageStream ++ buf := by
      show (c.bufferRemaining buf).core.messageStream = _
      rw [core_bufferRemaining]
      simp [messageStream, core, buffered]
    cases fault with
    | true => simp [takes, hd]
    | false =>
      by_cases hbuf : buf = []
      · subst hbuf
        simp [hd]
      · simp [takes, hc, hd, hbuffer, List.length_pos_iff.mpr hbuf]
  · -- what the kernel does not take at once is buffered
    have htakes : c.takes buf w = true := by simp [takes, hc, hd]
    rw [if_pos htakes, hd]
    have hwritten : c'.messageStream = c.messageStream ++ buf.take n := by
      show c'.core.messageStream = _
      rw [hc']
      simp [messageStream, core, emit, written, hb]
    by_cases hlt : n < buf.length
    · have hif : (!false && decide (0 < buf.length - n)) = true := by simp; omega
      rw [if_pos hif]
      show (c'.bufferRemaining (buf.drop n)).core.messageStream = _
      rw [core_bufferRemaining]
      have hbuffered : (c'.buffered (buf.drop n)).core.messageStream =
          c'.messageStream ++ buf.drop n := by
        simp [messageStream, core, buffered]
      rw [hbuffered, hwritten, List.append_assoc, List.take_append_drop]
    · have hif : ¬ (!false && decide (0 < buf.length - n)) = true := by simp; omega
      rw [if_neg hif, hwritten, List.take_of_length_le (by omega)]

/-- The bytes out and the input, and whether `messageCallback_` is set. -/
def face (c : TcpConnection) : Bytes × Buffer × Bool :=
  (c.messageStream, c.inputBuffer, c.messageCallback)

/-- A face by its parts. -/
theorem face_eq {c d : TcpConnection} (hstream : d.messageStream = c.messageStream)
    (hin : d.inputBuffer = c.inputBuffer) (hcb : d.messageCallback = c.messageCallback) :
    d.face = c.face := by
  rw [face, face, hstream, hin, hcb]

/-- What is neither written nor sent belongs to no stream. -/
theorem messageStream_emit {c : TcpConnection} {e : Effect} (he : ∀ bytes, e ≠ .write bytes) :
    (c.emit e).messageStream = c.messageStream := by
  have hnil : written [e] = [] := by
    cases e with
    | write bytes => exact absurd rfl (he bytes)
    | _ => rfl
  have happend : written (c.trace ++ [e]) = written c.trace ++ written [e] :=
    List.flatMap_append
  show written (c.trace ++ [e]) ++ _ = _
  rw [happend, hnil, List.append_nil]
  rfl

theorem face_emit {c : TcpConnection} {e : Effect} (he : ∀ bytes, e ≠ .write bytes) :
    (c.emit e).face = c.face :=
  face_eq (messageStream_emit he) rfl rfl

theorem face_emitIf {c : TcpConnection} {set : Bool} {e : Effect} (he : ∀ bytes, e ≠ .write bytes) :
    (c.emitIf set e).face = c.face := by
  cases set with
  | true => exact face_emit he
  | false => rfl

/-- `c'` has the streams of `c`. What a connection that is down has read does not matter. -/
structure Carries (c c' : TcpConnection) : Prop where
  stream : c'.messageStream = c.messageStream
  messageCallback : c'.messageCallback = c.messageCallback
  input : c'.state ≠ .kDisconnected → c'.inputBuffer = c.inputBuffer

theorem Carries.of_face {c c' : TcpConnection} (h : c'.face = c.face) : c.Carries c' :=
  ⟨congrArg Prod.fst h, congrArg (·.2.2) h, fun _ => congrArg (·.2.1) h⟩

theorem Carries.refl (c : TcpConnection) : c.Carries c := ⟨rfl, rfl, fun _ => rfl⟩

/-! ## Methods -/

theorem inputBuffer_handleWrite (c : TcpConnection) (w f : IoResult) :
    (c.handleWrite w f).inputBuffer = c.inputBuffer ∧
      (c.handleWrite w f).messageCallback = c.messageCallback := by
  refine handleWrite_rule (P := fun d => d.inputBuffer = c.inputBuffer ∧
    d.messageCallback = c.messageCallback) (fun _ => Iff.rfl) ⟨rfl, rfl⟩ ?_ ?_ ?_
  · intro d hd
    obtain rfl | ⟨n, rfl⟩ := writeOutput_cases hd <;> exact ⟨rfl, rfl⟩
  · intro d hd
    obtain h | ⟨-, -, n, -, h⟩ | ⟨-, -, -, h⟩ := d.transferFile_cases f
    all_goals rw [h]; exact hd
  · intro d hd
    obtain h | ⟨-, -, h⟩ := d.completeWrite_cases
    · rwa [h]
    · show d.completeWrite.core.inputBuffer = _ ∧ d.completeWrite.core.messageCallback = _
      rw [h]
      exact hd

theorem inputBuffer_sendInLoop (c : TcpConnection) (buf : Bytes) (w : IoResult) :
    (c.sendInLoop buf w).inputBuffer = c.inputBuffer ∧
      (c.sendInLoop buf w).messageCallback = c.messageCallback := by
  by_cases hc : c.state = .kDisconnected
  · rw [sendInLoop, if_pos hc]
    exact ⟨rfl, rfl⟩
  · show (c.sendInLoop buf w).core.inputBuffer = _ ∧ (c.sendInLoop buf w).core.messageCallback = _
    obtain ⟨h, -⟩ | ⟨-, -, h⟩ | ⟨-, -, n, -, h⟩ | ⟨-, h⟩ := sendInLoop_cases hc buf w
    all_goals
      rw [h]
      exact ⟨rfl, rfl⟩

theorem face_handleWrite (c : TcpConnection) (w f : IoResult) : (c.handleWrite w f).face = c.face :=
  face_eq (c.messageStream_handleWrite w f) (c.inputBuffer_handleWrite w f).1
    (c.inputBuffer_handleWrite w f).2

theorem face_shutdownInLoop (c : TcpConnection) : c.shutdownInLoop.face = c.face := by
  obtain ⟨-, h⟩ | ⟨-, h⟩ := c.shutdownInLoop_cases
  · rw [h]
  · rw [h]
    exact face_emit (by simp)

theorem face_shutdown (c : TcpConnection) : c.shutdown.face = c.face := by
  unfold shutdown
  split
  · exact face_shutdownInLoop _
  · rfl

theorem face_forceClose (c : TcpConnection) : c.forceClose.face = c.face := by
  unfold forceClose
  split <;> rfl

theorem face_handleClose (c : TcpConnection) : c.handleClose.face = c.face := by
  have hfile : c.closeFile.face = c.face := by
    unfold closeFile
    split
    · exact face_emit (c := c) (e := .close c.fileFd) (by simp)
    · rfl
  unfold handleClose
  split
  · rfl
  · exact (face_emitIf (by simp)).trans ((face_emitIf (by simp)).trans hfile)

theorem face_connectEstablished (c : TcpConnection) : c.connectEstablished.face = c.face :=
  face_emitIf (c := { c.setState .kConnected with channel := c.channel.enableReading }) (by simp)

theorem face_connectDestroyed (c : TcpConnection) : c.connectDestroyed.face = c.face := by
  simp only [connectDestroyed]
  split
  · exact face_emit (c := { c.setState .kDisconnected with channel := c.channel.disableAll })
      (by simp)
  · rfl

end TcpConnection

end AegisNet
