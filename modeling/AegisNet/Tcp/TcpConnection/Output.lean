import AegisNet.Tcp.TcpConnection

/-!
# Output steps

The steps of a connection that concern its output, and for each method of
`src/tcp/TcpConnection.cpp` behind them one lemma that lists what it can do. The theorems about
the bytes sent, about the half-close and about the order of calls all go through these lemmas.

## Main definitions

- `IoStep`, `TcpConnection.exec` — the output steps on the loop thread
- `TcpConnection.core` — a connection up to its functor queue and water mark flag
- `TcpConnection.handleWrite_rule` — what the parts of `handleWrite` keep, it keeps
-/

namespace AegisNet

/-- A step of the loop thread that concerns the output, with the kernel's answers. -/
inductive IoStep
  | sendInLoop (message : Bytes) (w : IoResult)
  | sendFileInLoop (file : File) (fileSize : ℕ)
  | shutdown
  | shutdownInLoop
  | forceClose
  | handleWrite (w f : IoResult)
  deriving DecidableEq, Repr

/-- What sending does to the outside world: bytes taken, a file closed, and the half-close with
    nothing left to send. -/
def Effect.IsOutput : Effect → Prop
  | .write _ | .sendfile _ | .close _ => True
  | .shutdownWrite unsent fd => unsent = [] ∧ fd < 0
  | .connectionCallback _ | .messageCallback | .closeCallback => False

def TcpConnection.exec (c : TcpConnection) : IoStep → TcpConnection
  | .sendInLoop message w => c.sendInLoop message w
  | .sendFileInLoop file fileSize => c.sendFileInLoop file fileSize
  | .shutdown => c.shutdown
  | .shutdownInLoop => c.shutdownInLoop
  | .forceClose => c.forceClose
  | .handleWrite w f => c.handleWrite w f

/-- `EPIPE` and `ECONNRESET`, on which `sendInLoop` gives its message up. -/
def IoResult.isFault : IoResult → Bool
  | .error .epipe => true
  | .error .econnreset => true
  | _ => false

namespace TcpConnection

/-! ## What the output methods do -/

/-- The connection without its functor queue and its water mark flag, which decide nothing about
    the output. -/
def core (c : TcpConnection) : TcpConnection :=
  { c with loop := {}, aboveHighWaterMark := false }

/-- `remaining` goes to the back of the buffer, and `EPOLLOUT` is armed. -/
def buffered (c : TcpConnection) (remaining : Bytes) : TcpConnection :=
  { c with
    outputBuffer := c.outputBuffer.append remaining
    channel := if c.channel.isWriting then c.channel else c.channel.enableWriting }

/-- Nothing is left to send: `EPOLLOUT` is off, the file is closed, and a half-close that was
    waiting for the output is made. -/
def finished (c : TcpConnection) : TcpConnection :=
  let fd := if 0 ≤ c.fileFd then -1 else c.fileFd
  { c with
    channel := c.channel.disableWriting
    fileFd := fd
    trace := c.trace ++ (if 0 ≤ c.fileFd then [.close c.fileFd] else []) ++
      if c.state = .kDisconnecting then [.shutdownWrite [] fd] else [] }

theorem fileFd_finished (c : TcpConnection) : c.finished.fileFd < 0 := by
  show (if 0 ≤ c.fileFd then -1 else c.fileFd) < 0
  split
  · exact Int.negSucc_lt_zero 0
  · next h => exact Int.not_le.mp h

theorem core_checkLowWaterMark (c : TcpConnection) : c.checkLowWaterMark.core = c.core := by
  simp only [checkLowWaterMark]
  split <;> rfl

theorem core_bufferRemaining (c : TcpConnection) (remaining : Bytes) :
    (c.bufferRemaining remaining).core = (c.buffered remaining).core := by
  simp only [bufferRemaining, buffered]
  cases hw : c.channel.isWriting <;> split <;> simp [queueIf, core, hw]

theorem core_buffered {c c' : TcpConnection} (h : c'.core = c.core) (remaining : Bytes) :
    (c'.buffered remaining).core = (c.buffered remaining).core := by
  show (c'.core.buffered remaining).core = (c.core.buffered remaining).core
  rw [h]

theorem shutdownInLoop_cases (c : TcpConnection) :
    (c.channel.isWriting = true ∧ c.shutdownInLoop = c) ∨
      (c.channel.isWriting = false ∧
        c.shutdownInLoop = c.emit (.shutdownWrite c.outputBuffer.readable c.fileFd)) := by
  cases hw : c.channel.isWriting with
  | true => exact .inl ⟨rfl, by simp [shutdownInLoop, hw]⟩
  | false => exact .inr ⟨rfl, by simp [shutdownInLoop, hw]⟩

/-- The file takes the place of any other. -/
theorem sendFileInLoop_eq {c : TcpConnection} (hc : c.state ≠ .kDisconnected) (file : File)
    (fileSize : ℕ) :
    c.sendFileInLoop file fileSize =
      { c with
        fileFd := file.fd
        fileData := file.data
        fileSize := fileSize
        fileOffset := 0
        channel := if c.channel.isWriting then c.channel else c.channel.enableWriting } := by
  rw [sendFileInLoop, if_neg hc]
  cases hw : c.channel.isWriting <;> simp [hw]

/-- The direct write happens only with nothing armed and nothing buffered. -/
theorem directWrite_cases (c : TcpConnection) (message : Bytes) (w : IoResult) :
    (∃ fault, c.directWrite message w = (c, 0, fault) ∧ (fault = true → w.isFault = true)) ∨
      (c.channel.isWriting = false ∧ c.outputBuffer.readable = [] ∧
        ∃ n c', n ≤ message.length ∧ c.directWrite message w = (c', n, false) ∧
          c'.core = (c.emit (.write (message.take n))).core) := by
  unfold directWrite
  split
  · next h =>
    simp only [Bool.and_eq_true, Bool.not_eq_true', beq_iff_eq, Buffer.readableBytes_eq_zero] at h
    cases w with
    | upTo n => exact .inr ⟨h.1, h.2, _, _, Nat.min_le_right _ _, rfl, rfl⟩
    | error errno => exact .inl ⟨_, rfl, by cases errno <;> simp [IoResult.isFault]⟩
  · exact .inl ⟨_, rfl, by simp⟩

/-- `sendInLoop` gives an empty or failed message up, writes a message at once and whole, writes
    its beginning and buffers the rest, or buffers it behind what is buffered. -/
theorem sendInLoop_cases {c : TcpConnection} (hc : c.state ≠ .kDisconnected) (message : Bytes)
    (w : IoResult) :
    ((c.sendInLoop message w).core = c.core ∧ (message = [] ∨ w.isFault = true)) ∨
    (c.channel.isWriting = false ∧ c.outputBuffer.readable = [] ∧
      (c.sendInLoop message w).core = (c.emit (.write message)).core) ∨
    (c.channel.isWriting = false ∧ c.outputBuffer.readable = [] ∧ ∃ n, n < message.length ∧
      (c.sendInLoop message w).core =
        ((c.emit (.write (message.take n))).buffered (message.drop n)).core) ∨
    (message ≠ [] ∧ (c.sendInLoop message w).core = (c.buffered message).core) := by
  rw [sendInLoop, if_neg hc]
  rcases c.directWrite_cases message w with ⟨fault, hd, hf⟩ | ⟨hw, hb, n, c', hn, hd, hc'⟩
  · simp only [hd, Nat.sub_zero, List.drop_zero, List.length_pos_iff]
    cases fault with
    | true => exact .inl ⟨rfl, .inr (hf rfl)⟩
    | false =>
      by_cases hm : message = []
      · exact .inl ⟨by simp [hm], .inl hm⟩
      · exact .inr (.inr (.inr ⟨hm, by simpa [hm] using c.core_bufferRemaining message⟩))
  · simp only [hd]
    by_cases hlt : n < message.length
    · refine .inr (.inr (.inl ⟨hw, hb, n, hlt, ?_⟩))
      rw [if_pos (by simp; omega), core_bufferRemaining, core_buffered hc']
    · have hn' : n = message.length := by omega
      refine .inr (.inl ⟨hw, hb, ?_⟩)
      rw [if_neg (by simp [hn']), hc', hn', List.take_length]

/-- `transferFile` does nothing, sends the next bytes of the file, or closes the file on an
    error. -/
theorem transferFile_cases (c : TcpConnection) (f : IoResult) :
    (c.transferFile f).1 = c ∨
    (c.outputBuffer.readable = [] ∧ 0 ≤ c.fileFd ∧ ∃ n, n ≤ c.unsentFile.length ∧
      (c.transferFile f).1 =
        { c.emit (.sendfile (c.unsentFile.take n)) with fileOffset := c.fileOffset + n }) ∨
    (c.outputBuffer.readable = [] ∧ 0 ≤ c.fileFd ∧ (∃ errno, f = .error errno ∧ errno ≠ .eagain) ∧
      (c.transferFile f).1 = { c.emit (.close c.fileFd) with fileFd := -1 }) := by
  unfold transferFile
  split
  · next h =>
    simp only [Bool.and_eq_true, beq_iff_eq, decide_eq_true_eq, Buffer.readableBytes_eq_zero] at h
    cases f with
    | upTo n => exact .inr (.inl ⟨h.1, h.2, _, Nat.min_le_right _ _, rfl⟩)
    | error errno =>
      by_cases he : errno = .eagain
      · exact .inl (by simp [he])
      · exact .inr (.inr ⟨h.1, h.2, ⟨errno, rfl, he⟩, by simp [he]⟩)
  · exact .inl rfl

/-- `writeOutput` takes bytes from the front of the buffer. -/
theorem writeOutput_cases {c c' : TcpConnection} {w : IoResult} (h : c.writeOutput w = some c') :
    c' = c ∨ ∃ n, c' = { c.emit (.write (c.outputBuffer.readable.take n)) with
      outputBuffer := c.outputBuffer.retrieve n } := by
  unfold writeOutput at h
  split at h
  · cases w with
    | upTo n =>
      dsimp only at h
      split at h
      · exact .inr ⟨_, (Option.some.inj h).symm⟩
      · exact .inl (Option.some.inj h).symm
    | error errno =>
      dsimp only at h
      split at h
      · exact absurd h (by simp)
      · exact .inl (Option.some.inj h).symm
  · exact .inl (Option.some.inj h).symm

/-- With nothing left `completeWrite` acts, and a pending half-close is made up for. -/
theorem core_completeWrite {c : TcpConnection} (hb : c.outputBuffer.readable = [])
    (hfile : c.fileFd < 0 ∨ c.fileOffset = c.fileSize) :
    c.completeWrite.core = c.finished.core := by
  rw [completeWrite, if_pos (by simpa [Buffer.readableBytes_eq_zero] using ⟨hb, hfile⟩)]
  by_cases hfd : 0 ≤ c.fileFd <;> by_cases hs : c.state = .kDisconnecting <;>
    simp [closeFile, queueIf, shutdownInLoop, core, finished, emit, hfd, hs, hb]

theorem completeWrite_of_not_done {c : TcpConnection}
    (h : ¬ (c.outputBuffer.readable = [] ∧ (c.fileFd < 0 ∨ c.fileOffset = c.fileSize))) :
    c.completeWrite = c := by
  rw [completeWrite, if_neg (by simpa [Buffer.readableBytes_eq_zero] using h)]

theorem completeWrite_cases (c : TcpConnection) :
    c.completeWrite = c ∨
    (c.outputBuffer.readable = [] ∧ (c.fileFd < 0 ∨ c.fileOffset = c.fileSize) ∧
      c.completeWrite.core = c.finished.core) := by
  by_cases hd : c.outputBuffer.readable = [] ∧ (c.fileFd < 0 ∨ c.fileOffset = c.fileSize)
  · exact .inr ⟨hd.1, hd.2, core_completeWrite hd.1 hd.2⟩
  · exact .inl (completeWrite_of_not_done hd)

/-- `handleWrite` ends at once, or after the part that it reaches. -/
theorem handleWrite_parts {P : TcpConnection → Prop} {c : TcpConnection} {w f : IoResult} (hc : P c)
    (hmark : ∀ c', c.writeOutput w = some c' → P c'.checkLowWaterMark)
    (hfile : ∀ c, P c → P (c.transferFile f).1) (hdone : ∀ c, P c → P c.completeWrite) :
    P (c.handleWrite w f) := by
  unfold handleWrite
  by_cases hw : c.channel.isWriting
  · simp only [hw, Bool.not_true, Bool.false_eq_true, if_false]
    cases h : c.writeOutput w with
    | none => exact hc
    | some c' =>
      -- a file that is not finished ends the method early
      show P (if (c'.checkLowWaterMark.transferFile f).2 then _ else _)
      have hp := hfile _ (hmark c' h)
      split
      · exact hdone _ hp
      · exact hp
  · simpa [hw] using hc

/-- What every part of `handleWrite` keeps, `handleWrite` keeps. -/
theorem handleWrite_rule {P : TcpConnection → Prop} (hcore : ∀ c, P c ↔ P c.core)
    {c : TcpConnection} {w f : IoResult} (hc : P c)
    (hwrite : ∀ c', c.writeOutput w = some c' → P c')
    (hfile : ∀ c, P c → P (c.transferFile f).1) (hdone : ∀ c, P c → P c.completeWrite) :
    P (c.handleWrite w f) := by
  refine handleWrite_parts hc (fun c' h => ?_) hfile hdone
  rw [hcore, core_checkLowWaterMark, ← hcore]
  exact hwrite c' h

/-! ## What output leaves alone -/

/-- The state, the callbacks that tell of it, and the events other than `EPOLLOUT`. -/
def frame (c : TcpConnection) : StateE × Bool × Bool × EpollEvents :=
  (c.state, c.connectionCallback, c.closeCallback, c.channel.events.input)

theorem frame_buffered (c : TcpConnection) (remaining : Bytes) :
    (c.buffered remaining).frame = c.frame := by
  have hinput : (if c.channel.isWriting then c.channel else c.channel.enableWriting).events.input =
      c.channel.events.input := by
    split <;> rfl
  exact congrArg (fun input => (c.state, c.connectionCallback, c.closeCallback, input)) hinput

theorem frame_sendInLoop (c : TcpConnection) (message : Bytes) (w : IoResult) :
    (c.sendInLoop message w).frame = c.frame := by
  by_cases hc : c.state = .kDisconnected
  · rw [sendInLoop, if_pos hc]
  · show (c.sendInLoop message w).core.frame = _
    obtain ⟨h, -⟩ | ⟨-, -, h⟩ | ⟨-, -, n, -, h⟩ | ⟨-, h⟩ := sendInLoop_cases hc message w
    all_goals rw [h]
    · rfl
    · rfl
    · exact frame_buffered (c.emit _) (message.drop n)
    · exact frame_buffered c message

theorem frame_sendFileInLoop (c : TcpConnection) (file : File) (fileSize : ℕ) :
    (c.sendFileInLoop file fileSize).frame = c.frame := by
  simp only [sendFileInLoop]
  split
  · rfl
  · split <;> rfl

theorem frame_shutdownInLoop (c : TcpConnection) : c.shutdownInLoop.frame = c.frame := by
  obtain ⟨-, h⟩ | ⟨-, h⟩ := c.shutdownInLoop_cases
  · rw [h]
  · rw [h]
    rfl

theorem frame_handleWrite (c : TcpConnection) (w f : IoResult) :
    (c.handleWrite w f).frame = c.frame := by
  refine handleWrite_rule (P := fun d => d.frame = c.frame) (fun _ => Iff.rfl) rfl ?_ ?_ ?_
  · intro d hd
    obtain rfl | ⟨n, rfl⟩ := writeOutput_cases hd <;> rfl
  · intro d hd
    obtain h | ⟨-, -, n, -, h⟩ | ⟨-, -, -, h⟩ := d.transferFile_cases f
    all_goals rw [h]; exact hd
  · intro d hd
    obtain h | ⟨-, -, h⟩ := d.completeWrite_cases
    · rw [h, hd]
    · show d.completeWrite.core.frame = _
      rw [h]
      exact hd

@[simp] theorem state_sendInLoop (c : TcpConnection) (message : Bytes) (w : IoResult) :
    (c.sendInLoop message w).state = c.state :=
  congrArg (·.1) (c.frame_sendInLoop message w)

@[simp] theorem state_sendFileInLoop (c : TcpConnection) (file : File) (fileSize : ℕ) :
    (c.sendFileInLoop file fileSize).state = c.state :=
  congrArg (·.1) (c.frame_sendFileInLoop file fileSize)

@[simp] theorem state_shutdownInLoop (c : TcpConnection) : c.shutdownInLoop.state = c.state :=
  congrArg (·.1) c.frame_shutdownInLoop

@[simp] theorem state_handleWrite (c : TcpConnection) (w f : IoResult) :
    (c.handleWrite w f).state = c.state :=
  congrArg (·.1) (c.frame_handleWrite w f)

/-! ## The trace -/

/-- From `c` to `c'` the trace has only got output: bytes, closed files, and half-closes with
    nothing pending. -/
def AddsOutput (c c' : TcpConnection) : Prop :=
  ∃ es, c'.trace = c.trace ++ es ∧ ∀ e ∈ es, e.IsOutput

theorem AddsOutput.refl (c : TcpConnection) : c.AddsOutput c := ⟨[], by simp, by simp⟩

theorem AddsOutput.trans {c d d' : TcpConnection} (h : c.AddsOutput d) (h' : d.AddsOutput d') :
    c.AddsOutput d' := by
  obtain ⟨es, ht, hes⟩ := h
  obtain ⟨fs, ht', hfs⟩ := h'
  refine ⟨es ++ fs, by rw [ht', ht, List.append_assoc], fun e he => ?_⟩
  exact (List.mem_append.mp he).elim (hes e) (hfs e)

theorem AddsOutput.emit {c d : TcpConnection} (h : c.AddsOutput d) {e : Effect}
    (he : e.IsOutput) : c.AddsOutput (d.emit e) :=
  h.trans ⟨[e], rfl, by simpa using he⟩

theorem addsOutput_sendInLoop {c : TcpConnection} (hc : c.state ≠ .kDisconnected)
    (message : Bytes) (w : IoResult) : c.AddsOutput (c.sendInLoop message w) := by
  show c.AddsOutput (c.sendInLoop message w).core
  obtain ⟨h, -⟩ | ⟨-, -, h⟩ | ⟨-, -, n, -, h⟩ | ⟨-, h⟩ := sendInLoop_cases hc message w
  all_goals rw [h]
  · exact .refl c
  · exact (AddsOutput.refl c).emit trivial
  · exact (AddsOutput.refl c).emit (e := .write (message.take n)) trivial
  · exact .refl c

theorem addsOutput_finished (c : TcpConnection) : c.AddsOutput c.finished := by
  refine ⟨_, List.append_assoc .., fun e he => ?_⟩
  obtain he | he := List.mem_append.mp he
  · split at he
    · rw [List.mem_singleton.mp he]
      trivial
    · simp at he
  · split at he
    · rw [List.mem_singleton.mp he]
      exact ⟨rfl, c.fileFd_finished⟩
    · simp at he

theorem addsOutput_handleWrite (c : TcpConnection) (w f : IoResult) :
    c.AddsOutput (c.handleWrite w f) := by
  refine handleWrite_rule (P := c.AddsOutput) (fun _ => Iff.rfl) (.refl c) ?_ ?_ ?_
  · intro d hd
    obtain rfl | ⟨n, rfl⟩ := writeOutput_cases hd
    · exact .refl _
    · exact (AddsOutput.refl c).emit (e := .write _) trivial
  · intro d hd
    obtain h | ⟨-, -, n, -, h⟩ | ⟨-, -, -, h⟩ := d.transferFile_cases f
    all_goals rw [h]
    · exact hd
    · exact hd.emit (e := .sendfile _) trivial
    · exact hd.emit (e := .close _) trivial
  · intro d hd
    obtain h | ⟨-, -, h⟩ := d.completeWrite_cases
    · rwa [h]
    · show c.AddsOutput d.completeWrite.core
      rw [h]
      exact hd.trans d.addsOutput_finished

/-- Only closing disconnects, and no output step closes. -/
theorem exec_ne_kDisconnected {c : TcpConnection} (hc : c.state ≠ .kDisconnected) (l : IoStep) :
    (c.exec l).state ≠ .kDisconnected := by
  cases l with
  | shutdown =>
    simp only [exec, shutdown]
    split
    · simp [setState]
    · exact hc
  | forceClose =>
    simp only [exec, forceClose]
    split
    · simp [setState, queueIf]
    · exact hc
  | _ => simpa [exec] using hc

end TcpConnection

end AegisNet
