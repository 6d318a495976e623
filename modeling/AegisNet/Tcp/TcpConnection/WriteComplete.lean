import AegisNet.Tcp.TcpConnection.HalfClose
import AegisNet.Tcp.TcpConnection.FileOrder
import Mathlib.Algebra.GroupWithZero.Nat

/-!
# What a write-complete callback tells

`writeCompleteCallback_` is queued when the buffer is empty and no file is pending. That is not the
same as everything being sent: a message whose direct write finds the connection broken is given up,
a file is given up when `::sendfile` fails or another file takes its place, and the next write
event then looks complete. A callback is truthful if and only if nothing was given up before it.

## Main definitions

- `IoStep.lostMessage`, `IoStep.lostFile` — what a step gives up
- `lostBytes` — what a run gives up
- `TcpConnection.Truthful` — everything submitted was written

## Main results

- `TcpConnection.exec_completes` — a callback is queued only with nothing buffered and no file
- `TcpConnection.writeComplete_truthful_iff` — when the callbacks are truthful
-/

namespace AegisNet

/-- The file bytes handed to the socket by `::sendfile`. -/
def sentFiles (trace : List Effect) : Bytes :=
  trace.flatMap fun
    | .sendfile bytes => bytes
    | _ => []

/-- The kernel takes the whole buffer of `len` bytes, or there is none. -/
def IoResult.takesAll (w : IoResult) (len : ℕ) : Bool :=
  len == 0 || match w with
    | .upTo n => len ≤ n
    | .error _ => false

namespace IoStep

/-- The bytes of the file that a step submits. -/
def fileBytes : IoStep → Bytes
  | sendFileInLoop file fileSize => file.data.take fileSize
  | _ => []

/-- The size with which a step submits a file. -/
def fileSize : IoStep → ℕ
  | sendFileInLoop _ fileSize => fileSize
  | _ => 0

end IoStep

namespace TcpConnection

/-- The part of the pending file, by its size, that is not sent yet. -/
def unsentSize (c : TcpConnection) : ℕ := if 0 ≤ c.fileFd then c.fileSize - c.fileOffset else 0

/-- `::sendfile` is reached in `handleWrite`, and fails. -/
def FileFails (c : TcpConnection) (w f : IoResult) : Prop :=
  c.channel.isWriting = true ∧ w.takesAll c.outputBuffer.readableBytes = true ∧ 0 ≤ c.fileFd ∧
    ¬ f.Benign

instance (c : TcpConnection) (w f : IoResult) : Decidable (c.FileFails w f) :=
  inferInstanceAs (Decidable (_ ∧ _ ∧ _ ∧ _))

/-- Nothing is buffered, and no file is pending. -/
def Done (c : TcpConnection) : Prop := c.outputBuffer.readable = [] ∧ c.fileFd < 0

/-- How often `writeCompleteCallback_` has been queued. -/
def completions (c : TcpConnection) : ℕ := c.loop.pendingFunctors.count .writeComplete

end TcpConnection

namespace IoStep

/-- The message that a step gives up: its direct write finds the connection broken. -/
def lostMessage (c : TcpConnection) : IoStep → Bytes
  | sendInLoop message w =>
    if !c.channel.isWriting && c.outputBuffer.readableBytes == 0 && w.isFault then message else []
  | _ => []

/-- How much of files a step gives up: the rest of a pending file when another one takes its place
    or `::sendfile` fails, and a file that is no open descriptor. -/
def lostFile (c : TcpConnection) : IoStep → ℕ
  | sendFileInLoop file fileSize => c.unsentSize + if file.fd < 0 then fileSize else 0
  | handleWrite w f => if c.FileFails w f then c.unsentSize else 0
  | _ => 0

end IoStep

/-- How many bytes the steps give up. -/
def lostBytes : TcpConnection → List IoStep → ℕ
  | _, [] => 0
  | c, l :: ls => ((l.lostMessage c).length + l.lostFile c) + lostBytes (c.exec l) ls

theorem lostBytes_append (c : TcpConnection) (ls ms : List IoStep) :
    lostBytes c (ls ++ ms) = lostBytes c ls + lostBytes (ls.foldl TcpConnection.exec c) ms := by
  induction ls generalizing c with
  | nil => exact (Nat.zero_add _).symm
  | cons l ls ih => simp only [List.cons_append, lostBytes, List.foldl_cons, ih, Nat.add_assoc]

namespace TcpConnection

/-- Every byte of the messages and files submitted by the steps has been handed to the socket. -/
def Truthful (ls : List IoStep) (c : TcpConnection) : Prop :=
  written c.trace = ls.flatMap IoStep.message ∧ sentFiles c.trace = ls.flatMap IoStep.fileBytes ∧
    (sentFiles c.trace).length = (ls.map IoStep.fileSize).sum

/-! ## A callback is queued when nothing is pending -/

theorem completions_queueIf (c : TcpConnection) (set : Bool) {f : Functor} (hf : f ≠ .writeComplete) :
    (c.queueIf set f).completions = c.completions := by
  cases set with
  | false => rfl
  | true =>
    show (c.loop.pendingFunctors ++ [f]).count .writeComplete = _
    rw [List.count_append, List.count_singleton, if_neg (by simpa using hf)]
    rfl

theorem completions_checkLowWaterMark (c : TcpConnection) :
    c.checkLowWaterMark.completions = c.completions := by
  unfold checkLowWaterMark
  dsimp only
  split
  · exact completions_queueIf _ _ (by simp)
  · rfl

theorem completions_bufferRemaining (c : TcpConnection) (remaining : Bytes) :
    (c.bufferRemaining remaining).completions = c.completions := by
  unfold bufferRemaining
  dsimp only
  split <;> split
  · exact completions_queueIf _ _ (by simp)
  · exact completions_queueIf _ _ (by simp)
  · rfl
  · rfl

/-- The direct write queues a callback only for a message that it has written whole. -/
theorem directWrite_completes (c : TcpConnection) (message : Bytes) (w : IoResult) :
    (c.directWrite message w).1.completions = c.completions ∨
      c.channel.isWriting = false ∧ c.outputBuffer.readable = [] ∧
        (c.directWrite message w).1.outputBuffer = c.outputBuffer ∧
        (c.directWrite message w).1.fileFd = c.fileFd ∧
        (c.directWrite message w).2.1 = message.length := by
  unfold directWrite
  split
  · next h =>
    simp only [Bool.and_eq_true, Bool.not_eq_true', beq_iff_eq, Buffer.readableBytes_eq_zero] at h
    cases w with
    | error errno => exact .inl rfl
    | upTo n =>
      by_cases hall : min n message.length = message.length
      · exact .inr ⟨h.1, h.2, rfl, rfl, hall⟩
      · refine .inl ?_
        have hle : (message.length - min n message.length == 0) = false := by
          simp only [beq_eq_false_iff_ne]
          omega
        dsimp only
        rw [hle, Bool.and_false]
        rfl
  · exact .inl rfl

theorem sendInLoop_completes {c : TcpConnection} (h : c.Draining) (message : Bytes) (w : IoResult) :
    (c.sendInLoop message w).completions = c.completions ∨ (c.sendInLoop message w).Done := by
  rw [sendInLoop, if_neg h.up]
  dsimp only
  obtain hsame | ⟨hw, hb, hbuf, hfd, hn⟩ := c.directWrite_completes message w
  · refine .inl ?_
    split
    · rw [completions_bufferRemaining, hsame]
    · exact hsame
  · -- the message is written whole, and with `EPOLLOUT` off no file is pending
    refine .inr ?_
    rw [if_neg (by simp [hn])]
    refine ⟨hbuf ▸ hb, hfd ▸ Int.not_le.mp fun hpending => ?_⟩
    simp [h.armed (.inr hpending)] at hw

theorem completeWrite_completes (c : TcpConnection) :
    c.completeWrite = c ∨ c.completeWrite.Done := by
  obtain h | ⟨hb, -, h⟩ := c.completeWrite_cases
  · exact .inl h
  · refine .inr ?_
    show c.completeWrite.core.Done
    rw [h]
    exact ⟨hb, c.fileFd_finished⟩

theorem handleWrite_completes (c : TcpConnection) (w f : IoResult) :
    (c.handleWrite w f).completions = c.completions ∨ (c.handleWrite w f).Done := by
  refine handleWrite_parts (P := fun d => d.completions = c.completions ∨ d.Done) (.inl rfl) ?_ ?_ ?_
  · intro d hd
    rw [completions_checkLowWaterMark]
    obtain rfl | ⟨n, rfl⟩ := writeOutput_cases hd
    · exact .inl rfl
    · exact .inl rfl
  · intro d hd
    obtain h | ⟨-, hfd, n, -, h⟩ | ⟨-, hfd, -, h⟩ := d.transferFile_cases f
    all_goals rw [h]
    · exact hd
    all_goals exact .inl (hd.resolve_right fun hdone => Int.not_le.mpr hdone.2 hfd)
  · intro d hd
    obtain h | hdone := d.completeWrite_completes
    · rwa [h]
    · exact .inr hdone

theorem completions_shutdownInLoop (c : TcpConnection) :
    c.shutdownInLoop.completions = c.completions := by
  obtain ⟨-, h⟩ | ⟨-, h⟩ := c.shutdownInLoop_cases
  · rw [h]
  · rw [h]
    rfl

/-- A step that queues a callback ends with nothing pending. -/
theorem exec_completes {c : TcpConnection} (h : c.Draining) (l : IoStep) :
    (c.exec l).completions = c.completions ∨ (c.exec l).Done := by
  cases l with
  | sendInLoop message w => exact sendInLoop_completes h message w
  | sendFileInLoop file fileSize =>
    rw [exec, sendFileInLoop_eq h.up]
    exact .inl rfl
  | shutdown =>
    simp only [exec, shutdown]
    split
    · exact .inl (completions_shutdownInLoop _)
    · exact .inl rfl
  | shutdownInLoop => exact .inl (completions_shutdownInLoop c)
  | forceClose =>
    simp only [exec, forceClose]
    split
    · exact .inl (completions_queueIf _ _ (by simp))
    · exact .inl rfl
  | handleWrite w f => exact handleWrite_completes c w f

/-! ## Messages -/

/-- Where no direct write is tried, the answer to it does not matter. -/
theorem sendInLoop_of_not_direct {c : TcpConnection} (message : Bytes) (w w' : IoResult)
    (h : ¬ (!c.channel.isWriting && c.outputBuffer.readableBytes == 0) = true) :
    c.sendInLoop message w = c.sendInLoop message w' := by
  have hd : ∀ w, c.directWrite message w = (c, 0, false) := fun w => if_neg h
  unfold sendInLoop
  rw [hd, hd]

/-- A direct write that finds the connection broken. -/
theorem sendInLoop_of_fault {c : TcpConnection} (message : Bytes) {w : IoResult}
    (h : (!c.channel.isWriting && c.outputBuffer.readableBytes == 0) = true)
    (hw : w.isFault = true) : c.sendInLoop message w = c := by
  have hd : c.directWrite message w = (c, 0, true) := by
    unfold directWrite
    rw [if_pos h]
    cases w with
    | upTo n => cases hw
    | error errno => cases errno <;> first | rfl | cases hw
  unfold sendInLoop
  rw [hd]
  split <;> rfl

/-- A message is kept, or all of it is given up. -/
theorem messageStream_step {c : TcpConnection} (hc : c.state ≠ .kDisconnected) (l : IoStep) :
    (l.lostMessage c = [] → (c.exec l).messageStream = c.messageStream ++ l.message) ∧
      (c.exec l).messageStream.length + (l.lostMessage c).length =
        c.messageStream.length + l.message.length := by
  have hkept : (c.exec l).messageStream = c.messageStream ++ l.message → l.lostMessage c = [] →
      (l.lostMessage c = [] → (c.exec l).messageStream = c.messageStream ++ l.message) ∧
      (c.exec l).messageStream.length + (l.lostMessage c).length =
        c.messageStream.length + l.message.length := by
    intro hstream hlost
    refine ⟨fun _ => hstream, ?_⟩
    rw [hstream, hlost, List.length_append]
    rfl
  cases l with
  | sendInLoop message w =>
    cases hw : w.isFault with
    | false => exact hkept (messageStream_sendInLoop hc message hw) (by simp [IoStep.lostMessage, hw])
    | true =>
      by_cases hdirect : (!c.channel.isWriting && c.outputBuffer.readableBytes == 0) = true
      · have hlost : IoStep.lostMessage c (.sendInLoop message w) = message := by
          simp only [IoStep.lostMessage, hdirect, hw, Bool.and_self, if_true]
        rw [exec, sendInLoop_of_fault message hdirect hw, hlost, IoStep.message]
        exact ⟨fun hnil => by rw [hnil, List.append_nil], rfl⟩
      · refine hkept ?_ (by simp [IoStep.lostMessage, hdirect])
        rw [exec, sendInLoop_of_not_direct message w (.upTo 0) hdirect]
        exact messageStream_sendInLoop hc message rfl
  | _ => exact hkept (messageStream_exec hc trivial) rfl

/-! ## Files -/

/-- The file bytes sent, and the rest of the pending file. -/
def fileStream (c : TcpConnection) : Bytes := sentFiles c.trace ++ c.unsentFile

/-- The same by the sizes with which the files were submitted. -/
def fileLedger (c : TcpConnection) : ℕ := (sentFiles c.trace).length + c.unsentSize

theorem sentFiles_append (es fs : List Effect) :
    sentFiles (es ++ fs) = sentFiles es ++ sentFiles fs :=
  List.flatMap_append

theorem length_unsentFile_le (c : TcpConnection) : c.unsentFile.length ≤ c.unsentSize := by
  unfold unsentFile unsentSize
  split
  · simp only [List.length_drop, List.length_take]
    omega
  · exact Nat.zero_le _

theorem unsentFile_of_unsentSize {c : TcpConnection} (h : c.unsentSize = 0) : c.unsentFile = [] :=
  List.eq_nil_of_length_eq_zero (Nat.le_zero.mp (h ▸ c.length_unsentFile_le))

theorem unsentSize_of_done {c : TcpConnection} (h : c.fileFd < 0 ∨ c.fileOffset = c.fileSize) :
    c.unsentSize = 0 := by
  unfold unsentSize
  split
  · next hfd =>
    have ho : c.fileOffset = c.fileSize := h.resolve_left (Int.not_lt.mpr hfd)
    omega
  · rfl

/-- `c'` has sent of its file what `c` has not. -/
structure SameFiles (c c' : TcpConnection) : Prop where
  stream : c'.fileStream = c.fileStream
  ledger : c'.fileLedger = c.fileLedger

theorem SameFiles.refl (c : TcpConnection) : c.SameFiles c := ⟨rfl, rfl⟩

theorem SameFiles.trans {c d d' : TcpConnection} (h : c.SameFiles d) (h' : d.SameFiles d') :
    c.SameFiles d' :=
  ⟨h'.stream.trans h.stream, h'.ledger.trans h.ledger⟩

/-- Effects that send no file bytes. -/
theorem SameFiles.of_trace {c c' : TcpConnection} {es : List Effect} (ht : c'.trace = c.trace ++ es)
    (hes : sentFiles es = []) (hfile : c'.unsentFile = c.unsentFile)
    (hsize : c'.unsentSize = c.unsentSize) : c.SameFiles c' := by
  have hsent : sentFiles c'.trace = sentFiles c.trace := by
    rw [ht, sentFiles_append, hes, List.append_nil]
  exact ⟨by rw [fileStream, hsent, hfile]; rfl, by rw [fileLedger, hsent, hsize]; rfl⟩

theorem sameFiles_core (c : TcpConnection) : c.SameFiles c.core := ⟨rfl, rfl⟩

/-- A transfer moves bytes from the file to the socket. -/
theorem sameFiles_advance {c : TcpConnection} {n : ℕ} (hn : n ≤ c.unsentFile.length) :
    c.SameFiles { c.emit (.sendfile (c.unsentFile.take n)) with fileOffset := c.fileOffset + n } := by
  have hsent : sentFiles (c.trace ++ [.sendfile (c.unsentFile.take n)]) =
      sentFiles c.trace ++ c.unsentFile.take n := by simp [sentFiles]
  constructor
  · rw [fileStream, unsentFile_advance]
    show sentFiles (c.trace ++ [.sendfile (c.unsentFile.take n)]) ++ _ = _
    rw [hsent, List.append_assoc, List.take_append_drop]
    rfl
  · have hsize := c.length_unsentFile_le
    show (sentFiles (c.trace ++ [.sendfile (c.unsentFile.take n)])).length +
      (if 0 ≤ c.fileFd then c.fileSize - (c.fileOffset + n) else 0) = _
    rw [hsent, List.length_append, List.length_take, Nat.min_eq_left hn, fileLedger]
    unfold unsentSize at hsize ⊢
    split
    · next hfd =>
      rw [if_pos hfd] at hsize
      omega
    · next hfd =>
      rw [if_neg hfd] at hsize
      omega

/-- Completion closes a file of which nothing is unsent. -/
theorem sameFiles_completeWrite (c : TcpConnection) : c.SameFiles c.completeWrite := by
  obtain h | ⟨-, ho, h⟩ := c.completeWrite_cases
  · rw [h]
    exact .refl c
  · have hfinished : c.SameFiles c.finished := by
      refine .of_trace (List.append_assoc ..) ?_ ?_ ?_
      · split <;> split <;> rfl
      · rw [unsentFile_of_done ho, unsentFile_of_done (.inl c.fileFd_finished)]
      · rw [unsentSize_of_done ho, unsentSize_of_done (.inl c.fileFd_finished)]
    have hcore : c.SameFiles c.completeWrite.core := by
      rw [h]
      exact hfinished.trans c.finished.sameFiles_core
    exact ⟨hcore.stream, hcore.ledger⟩

/-- What the first part of `handleWrite` leaves alone. -/
theorem writeOutput_files {c d : TcpConnection} {w : IoResult} (h : c.writeOutput w = some d) :
    c.SameFiles d ∧ d.fileFd = c.fileFd ∧ sentFiles d.trace = sentFiles c.trace := by
  obtain rfl | ⟨n, rfl⟩ := writeOutput_cases h
  · exact ⟨.refl d, rfl, rfl⟩
  · refine ⟨.of_trace rfl rfl rfl rfl, rfl, ?_⟩
    simp [emit, sentFiles]

/-- Whether it empties the buffer. -/
theorem writeOutput_empties {c : TcpConnection} (w : IoResult) :
    w.takesAll c.outputBuffer.readableBytes = true ↔
      ∃ d, c.writeOutput w = some d ∧ d.outputBuffer.readable = [] := by
  unfold writeOutput IoResult.takesAll
  by_cases hb : c.outputBuffer.readableBytes = 0
  · have hnil := Buffer.readableBytes_eq_zero.mp hb
    simp [hb, hnil]
  · have hpos : 0 < c.outputBuffer.readableBytes := Nat.pos_of_ne_zero hb
    have hne : c.outputBuffer.readable ≠ [] := fun hnil => hb (Buffer.readableBytes_eq_zero.mpr hnil)
    cases w with
    | error errno => by_cases he : errno = .eagain <;> simp [hb, he, hpos, hne]
    | upTo n =>
      by_cases hn : 0 < min n c.outputBuffer.readableBytes
      · simp only [hpos, if_true, hn, Option.some.injEq, exists_eq_left', Buffer.readable_retrieve,
          List.drop_eq_nil_iff, Buffer.length_readable]
        simp only [hb, beq_iff_eq, Bool.or_eq_true, decide_eq_true_eq, false_or]
        omega
      · have hn0 : n = 0 := by omega
        simp [hb, hn0, hpos, hne]

theorem handleWrite_files {c : TcpConnection} {w f : IoResult} (h : ¬ c.FileFails w f) :
    c.SameFiles (c.handleWrite w f) := by
  by_cases hw : c.channel.isWriting = true
  · refine (handleWrite_parts (P := fun d => c.SameFiles d ∧
      (d.outputBuffer.readable = [] → 0 ≤ d.fileFd → f.Benign)) ⟨.refl c, ?_⟩ ?_ ?_ ?_).1
    · intro hb hfd
      by_contra hf
      exact h ⟨hw, by simp [IoResult.takesAll, Buffer.readableBytes_eq_zero.mpr hb], hfd, hf⟩
    · intro d hd
      obtain ⟨hsame, hfd, -⟩ := writeOutput_files hd
      have hmark : c.SameFiles d.checkLowWaterMark.core ∧
          (d.checkLowWaterMark.core.outputBuffer.readable = [] →
            0 ≤ d.checkLowWaterMark.core.fileFd → f.Benign) := by
        rw [core_checkLowWaterMark]
        refine ⟨hsame.trans d.sameFiles_core, fun hb hpending => ?_⟩
        by_contra hf
        exact h ⟨hw, (writeOutput_empties w).mpr ⟨d, hd, hb⟩, hfd ▸ hpending, hf⟩
      exact ⟨⟨hmark.1.stream, hmark.1.ledger⟩, hmark.2⟩
    · rintro d ⟨hsame, hf⟩
      obtain hr | ⟨-, -, n, hn, hr⟩ | ⟨hb, hfd, ⟨errno, rfl, hne⟩, -⟩ := d.transferFile_cases f
      · rw [hr]
        exact ⟨hsame, hf⟩
      · rw [hr]
        exact ⟨hsame.trans (sameFiles_advance hn), hf⟩
      · exact absurd (hf hb hfd) hne
    · rintro d ⟨hsame, hf⟩
      refine ⟨hsame.trans d.sameFiles_completeWrite, ?_⟩
      obtain hr | hdone := d.completeWrite_completes
      · rwa [hr]
      · exact fun _ hfd => absurd hdone.2 (Int.not_lt.mpr hfd)
  · have hsame : c.handleWrite w f = c := by simp [handleWrite, hw]
    rw [hsame]
    exact .refl c

/-- A transfer that fails closes the file, and sends none of it. -/
theorem handleWrite_of_fails {c : TcpConnection} {w f : IoResult} (h : c.FileFails w f) :
    sentFiles (c.handleWrite w f).trace = sentFiles c.trace ∧ (c.handleWrite w f).fileFd < 0 := by
  obtain ⟨hw, hall, hfd, hf⟩ := h
  obtain ⟨d, hd, hb⟩ := (writeOutput_empties w).mp hall
  obtain ⟨-, hdfd, hsent⟩ := writeOutput_files hd
  -- `checkLowWaterMark` touches neither buffer nor file
  have hcore := d.core_checkLowWaterMark
  generalize hd' : d.checkLowWaterMark = d' at hcore
  have hb' : d'.outputBuffer.readable = [] := (congrArg (·.outputBuffer.readable) hcore).trans hb
  have hfd' : d'.fileFd = c.fileFd := (congrArg (·.fileFd) hcore).trans hdfd
  have hsent' : sentFiles d'.trace = sentFiles c.trace :=
    (congrArg (fun d => sentFiles d.trace) hcore).trans hsent
  have hresult : c.handleWrite w f = { d'.emit (.close d'.fileFd) with fileFd := -1 } := by
    cases f with
    | upTo n => exact absurd trivial hf
    | error errno =>
      have hne : errno ≠ .eagain := hf
      have hreach : (d'.outputBuffer.readableBytes == 0 && decide (0 ≤ d'.fileFd)) = true := by
        simp [Buffer.readableBytes_eq_zero.mpr hb', hfd', hfd]
      simp only [handleWrite, hw, Bool.not_true, Bool.false_eq_true, if_false, hd, hd']
      rw [transferFile, if_pos hreach]
      simp [hne]
  rw [hresult, ← hsent']
  exact ⟨by simp [emit, sentFiles], Int.negSucc_lt_zero 0⟩

theorem sameFiles_sendInLoop {c : TcpConnection} (hc : c.state ≠ .kDisconnected) (message : Bytes)
    (w : IoResult) : c.SameFiles (c.sendInLoop message w) := by
  have hcore : c.SameFiles (c.sendInLoop message w).core := by
    obtain ⟨h, -⟩ | ⟨-, -, h⟩ | ⟨-, -, n, -, h⟩ | ⟨-, h⟩ := sendInLoop_cases hc message w
    · rw [h]
      exact c.sameFiles_core
    · rw [h]
      exact .of_trace rfl (show sentFiles [.write message] = [] from rfl) rfl rfl
    · rw [h]
      exact .of_trace rfl (show sentFiles [.write (message.take n)] = [] from rfl) rfl rfl
    · rw [h]
      exact .of_trace (List.append_nil _).symm rfl rfl rfl
  exact ⟨hcore.stream, hcore.ledger⟩

theorem sameFiles_shutdownInLoop (c : TcpConnection) : c.SameFiles c.shutdownInLoop := by
  obtain ⟨-, h⟩ | ⟨-, h⟩ := c.shutdownInLoop_cases
  · rw [h]
    exact .refl c
  · rw [h]
    exact .of_trace rfl
      (show sentFiles [.shutdownWrite c.outputBuffer.readable c.fileFd] = [] from rfl) rfl rfl

/-- A new file takes the place of what is unsent; one that has no descriptor is lost at once. -/
theorem fileStream_sendFileInLoop {c : TcpConnection} (hc : c.state ≠ .kDisconnected) (file : File)
    (fileSize : ℕ) :
    (IoStep.lostFile c (.sendFileInLoop file fileSize) = 0 →
      (c.sendFileInLoop file fileSize).fileStream = c.fileStream ++ file.data.take fileSize) ∧
    (c.sendFileInLoop file fileSize).fileLedger +
      IoStep.lostFile c (.sendFileInLoop file fileSize) = c.fileLedger + fileSize := by
  rw [sendFileInLoop_eq hc]
  simp only [IoStep.lostFile, fileStream, fileLedger]
  constructor
  · intro hlost
    rw [unsentFile_of_unsentSize (c := c) (by omega), List.append_nil, unsentFile]
    congr 1
    by_cases hfd : 0 ≤ file.fd
    · rw [if_pos hfd, List.drop_zero]
    · rw [if_pos (Int.not_le.mp hfd)] at hlost
      rw [if_neg hfd, show fileSize = 0 by omega, List.take_zero]
  · show (sentFiles c.trace).length + (if 0 ≤ file.fd then fileSize - 0 else 0) + _ = _
    by_cases hfd : 0 ≤ file.fd
    · rw [if_pos hfd, if_neg (Int.not_lt.mpr hfd)]
      omega
    · rw [if_neg hfd, if_pos (Int.not_le.mp hfd)]
      omega

/-- A file is kept, or what is unsent of it is given up. -/
theorem fileStream_step {c : TcpConnection} (hc : c.state ≠ .kDisconnected) (l : IoStep) :
    (l.lostFile c = 0 → (c.exec l).fileStream = c.fileStream ++ l.fileBytes) ∧
      (c.exec l).fileLedger + l.lostFile c = c.fileLedger + l.fileSize := by
  have hkept : c.SameFiles (c.exec l) → l.lostFile c = 0 → l.fileBytes = [] → l.fileSize = 0 →
      (l.lostFile c = 0 → (c.exec l).fileStream = c.fileStream ++ l.fileBytes) ∧
      (c.exec l).fileLedger + l.lostFile c = c.fileLedger + l.fileSize := by
    intro hsame hlost hbytes hsize
    rw [hbytes, hsize, List.append_nil, hlost]
    exact ⟨fun _ => hsame.stream, hsame.ledger⟩
  cases l with
  | sendInLoop message w => exact hkept (sameFiles_sendInLoop hc message w) rfl rfl rfl
  | sendFileInLoop file fileSize => exact fileStream_sendFileInLoop hc file fileSize
  | shutdown =>
    refine hkept ?_ rfl rfl rfl
    simp only [exec, shutdown]
    split
    · have hset : c.SameFiles (c.setState .kDisconnecting) := ⟨rfl, rfl⟩
      exact hset.trans (sameFiles_shutdownInLoop _)
    · exact .refl c
  | shutdownInLoop => exact hkept c.sameFiles_shutdownInLoop rfl rfl rfl
  | forceClose =>
    refine hkept ?_ rfl rfl rfl
    simp only [exec, forceClose]
    split
    · exact ⟨rfl, rfl⟩
    · exact .refl c
  | handleWrite w f =>
    by_cases hfails : c.FileFails w f
    · have hlost : IoStep.lostFile c (.handleWrite w f) = c.unsentSize := if_pos hfails
      obtain ⟨hsent, hclosed⟩ := handleWrite_of_fails hfails
      rw [hlost, exec, fileStream, fileLedger, hsent, unsentFile_of_done (.inl hclosed),
        unsentSize_of_done (.inl hclosed)]
      refine ⟨fun hzero => ?_, rfl⟩
      rw [fileStream, unsentFile_of_unsentSize hzero]
      exact (List.append_nil _).symm
    · exact hkept (handleWrite_files hfails) (if_neg hfails) rfl rfl

/-! ## Runs -/

/-- What holds after the steps `ls`, where `lost` bytes were given up. -/
structure Accounts (ls : List IoStep) (lost : ℕ) (c : TcpConnection) : Prop where
  draining : c.Draining
  messages : lost = 0 → c.messageStream = ls.flatMap IoStep.message
  files : lost = 0 → c.fileStream = ls.flatMap IoStep.fileBytes
  total : c.messageStream.length + c.fileLedger + lost =
    (ls.flatMap IoStep.message).length + (ls.map IoStep.fileSize).sum

theorem Accounts.exec {ls : List IoStep} {lost : ℕ} {c : TcpConnection} (h : c.Accounts ls lost)
    (l : IoStep) :
    (c.exec l).Accounts (ls ++ [l]) (lost + ((l.lostMessage c).length + l.lostFile c)) := by
  obtain ⟨hmessage, hmlength⟩ := messageStream_step h.draining.up l
  obtain ⟨hfile, hflength⟩ := fileStream_step h.draining.up l
  refine ⟨draining_exec h.draining l, fun hzero => ?_, fun hzero => ?_, ?_⟩
  · rw [hmessage (List.eq_nil_of_length_eq_zero (by omega)), h.messages (by omega)]
    simp
  · rw [hfile (by omega), h.files (by omega)]
    simp
  · have htotal := h.total
    simp only [List.flatMap_append, List.flatMap_singleton, List.length_append, List.map_append,
      List.map_singleton, List.sum_append, List.sum_singleton]
    omega

theorem accounts_connectEstablished {c₀ : TcpConnection} (h₀ : c₀.Constructed) :
    c₀.connectEstablished.Accounts [] 0 := by
  have hfd : c₀.connectEstablished.fileFd < 0 := by
    show c₀.fileFd < 0
    rw [h₀.fileFd]
    decide
  have hsent : sentFiles c₀.connectEstablished.trace = [] := by
    show sentFiles (if c₀.connectionCallback then c₀.trace ++ [_] else c₀.trace) = []
    rw [h₀.trace]
    split <;> rfl
  have hstream := messageStream_connectEstablished h₀
  refine ⟨draining_connectEstablished h₀, fun _ => hstream, fun _ => ?_, ?_⟩
  · rw [fileStream, hsent, unsentFile_of_done (.inl hfd)]
    rfl
  · rw [hstream, fileLedger, hsent, unsentSize_of_done (.inl hfd)]
    rfl

theorem accounts_of_run {c₀ c : TcpConnection} (h₀ : c₀.Constructed) {ls : List IoStep}
    (hrun : Run (fun c l c' => c' = c.exec l) c₀.connectEstablished ls c) :
    c.Accounts ls (lostBytes c₀.connectEstablished ls) := by
  refine (hrun.history (P := fun ls c => c = ls.foldl exec c₀.connectEstablished ∧
    c.Accounts ls (lostBytes c₀.connectEstablished ls))
    ⟨rfl, accounts_connectEstablished h₀⟩ ?_).2
  rintro ls l c _ - ⟨hc, haccounts⟩ rfl
  refine ⟨by rw [List.foldl_append, ← hc]; rfl, ?_⟩
  rw [lostBytes_append, ← hc]
  exact haccounts.exec l

/-- With nothing pending, the accounts are closed: all is written unless something was lost. -/
theorem Accounts.truthful_iff {ls : List IoStep} {lost : ℕ} {c : TcpConnection}
    (h : c.Accounts ls lost) (hdone : c.Done) : c.Truthful ls ↔ lost = 0 := by
  have hmessages : c.messageStream = written c.trace := by
    rw [messageStream, hdone.1, List.append_nil]
  have hfiles : c.fileStream = sentFiles c.trace := by
    rw [fileStream, unsentFile_of_done (.inl hdone.2), List.append_nil]
  have hledger : c.fileLedger = (sentFiles c.trace).length := by
    rw [fileLedger, unsentSize_of_done (.inl hdone.2), Nat.add_zero]
  have htotal := h.total
  rw [hmessages, hledger] at htotal
  constructor
  · rintro ⟨hw, -, hf⟩
    rw [hw, hf] at htotal
    omega
  · intro hzero
    have hw := hmessages ▸ h.messages hzero
    refine ⟨hw, hfiles ▸ h.files hzero, ?_⟩
    rw [hw] at htotal
    omega

/-- In every run of output steps, whatever the kernel answers: a step that queues
    `writeCompleteCallback_` leaves every message and file written that was submitted so far, if and
    only if no step so far has given any of it up. -/
theorem writeComplete_truthful_iff {c₀ c : TcpConnection} (h₀ : c₀.Constructed) {ls : List IoStep}
    (hrun : Run (fun c l c' => c' = c.exec l) c₀.connectEstablished ls c) {l : IoStep}
    (hqueued : c.completions < (c.exec l).completions) :
    (c.exec l).Truthful (ls ++ [l]) ↔ lostBytes c₀.connectEstablished (ls ++ [l]) = 0 := by
  have hdone : (c.exec l).Done :=
    (exec_completes (accounts_of_run h₀ hrun).draining l).resolve_left (Nat.ne_of_gt hqueued)
  exact (accounts_of_run h₀ (hrun.snoc rfl)).truthful_iff hdone

/-- A connection with a write-complete callback. -/
def withWriteComplete : TcpConnection := { writeCompleteCallback := true }

theorem constructed_withWriteComplete : withWriteComplete.Constructed :=
  ⟨rfl, rfl, by simp [withWriteComplete], rfl, rfl, rfl⟩

/-- A message cut short, a file behind it, and the writes that finish both. -/
theorem writeComplete_truthful_iff_both :
    let ls : List IoStep := [.sendInLoop [1, 2] (.upTo 1), .sendFileInLoop ⟨7, [3]⟩ 1]
    let c := (withWriteComplete.connectEstablished.exec (.sendInLoop [1, 2] (.upTo 1))).exec
      (.sendFileInLoop ⟨7, [3]⟩ 1)
    (c.exec (.handleWrite (.upTo 1) (.upTo 1))).Truthful
      (ls ++ [.handleWrite (.upTo 1) (.upTo 1)]) := by
  intro ls c
  have hrun : Run (fun c l c' => c' = c.exec l) withWriteComplete.connectEstablished ls c :=
    (Run.single rfl).snoc rfl
  exact (writeComplete_truthful_iff constructed_withWriteComplete hrun
    (by decide +kernel)).mpr (by decide +kernel)

/-- `::sendfile` fails on a file, and the next write event queues the callback. -/
theorem writeComplete_not_truthful :
    let ls : List IoStep := [.sendFileInLoop ⟨7, [1, 2]⟩ 2,
      .handleWrite (.upTo 0) (.error .econnreset)]
    let c := (withWriteComplete.connectEstablished.exec (.sendFileInLoop ⟨7, [1, 2]⟩ 2)).exec
      (.handleWrite (.upTo 0) (.error .econnreset))
    let l : IoStep := .handleWrite (.upTo 0) (.upTo 0)
    c.completions < (c.exec l).completions ∧ sentFiles (c.exec l).trace = [] ∧
      ¬ (c.exec l).Truthful (ls ++ [l]) := by
  intro ls c l
  refine ⟨by decide +kernel, by decide +kernel, fun h => ?_⟩
  have hsent : sentFiles (c.exec l).trace = [] := by decide +kernel
  have hfiles := h.2.1
  rw [hsent] at hfiles
  cases hfiles

end TcpConnection

end AegisNet
