import AegisNet.Tcp.TcpConnection.Lifecycle
import AegisNet.Tcp.TcpConnection.WriteComplete

/-!
# Progress of the output

Epoll is level-triggered: as long as `EPOLLOUT` is on, a writable socket brings `handleWrite` back
at once. A call that takes nothing from the buffer and from the file and leaves `EPOLLOUT` on is
therefore repeated without end. `handleWrite` has three exits of this kind besides `EAGAIN`.

## Main definitions

- `TcpConnection.pendingBytes` — what is buffered, and what is left of the file by its size
- `TcpConnection.Progresses` — less is pending, or `EPOLLOUT` is off, or the connection closes
- `TcpConnection.Served` — the answers of the kernel that `handleWrite` gets on with

## Main results

- `TcpConnection.progresses_handleWrite_iff` — when one call gets on
- `TcpConnection.handleWrite_progress` — the same along the runs of a connection
-/

namespace AegisNet

namespace TcpConnection

/-- The readable bytes of `outputBuffer_` and the unsent bytes of the pending file. -/
def pendingBytes (c : TcpConnection) : ℕ := c.outputBuffer.readableBytes + c.unsentSize

/-- From `c` to `c'` less is pending, or `EPOLLOUT` is off, or the connection closes. -/
def Progresses (c c' : TcpConnection) : Prop :=
  c'.pendingBytes < c.pendingBytes ∨ c'.channel.isWriting = false ∨
    (c'.state ≠ c.state ∧ (c'.state = .kDisconnecting ∨ c'.state = .kDisconnected))

instance (c c' : TcpConnection) : Decidable (c.Progresses c') :=
  inferInstanceAs (Decidable (_ ∨ _ ∨ _))

/-- `::sendfile` takes a byte, or has no byte to take, or fails with some of the file unsent. -/
def FileServed (c : TcpConnection) : IoResult → Prop
  | .upTo n => c.fileOffset = c.fileSize ∨ 0 < n ∧ c.fileOffset < c.fileData.length
  | .error errno => errno ≠ .eagain ∧ c.fileOffset < c.fileSize

instance (c : TcpConnection) : DecidablePred c.FileServed
  | .upTo _ => inferInstanceAs (Decidable (_ ∨ _ ∧ _))
  | .error _ => inferInstanceAs (Decidable (_ ∧ _))

/-- `::write` takes a byte of what is buffered; with nothing buffered, a pending file is served. -/
def Served (c : TcpConnection) (w f : IoResult) : Prop :=
  (c.outputBuffer.readable ≠ [] → ∃ n, 0 < n ∧ w = .upTo n) ∧
    (c.outputBuffer.readable = [] → 0 ≤ c.fileFd → c.FileServed f)

/-- The offset of a pending file does not exceed its size. -/
def InBounds (c : TcpConnection) : Prop := 0 ≤ c.fileFd → c.fileOffset ≤ c.fileSize

/-- `handleWrite` behind its first `::write`. -/
def sendRest (c : TcpConnection) (f : IoResult) : TcpConnection :=
  if (c.transferFile f).2 then (c.transferFile f).1.completeWrite else (c.transferFile f).1

theorem handleWrite_of_writeOutput {c c' : TcpConnection} {w : IoResult} (f : IoResult)
    (hw : c.channel.isWriting = true) (h : c.writeOutput w = some c') :
    c.handleWrite w f = c'.checkLowWaterMark.sendRest f := by
  simp only [handleWrite, hw, Bool.not_true, Bool.false_eq_true, if_false, h]
  rfl

theorem handleWrite_of_error {c : TcpConnection} {w : IoResult} (f : IoResult)
    (h : c.writeOutput w = none) : c.handleWrite w f = c := by
  simp only [handleWrite, h, ite_self]

/-! ## The exits behind the first write -/

theorem progresses_core {c c' d d' : TcpConnection} (hc : d.core = c.core) (hc' : d'.core = c'.core) :
    d.Progresses d' ↔ c.Progresses c' := by
  show d.core.Progresses d'.core ↔ c.core.Progresses c'.core
  rw [hc, hc']

/-- Output left in the buffer keeps the file and `EPOLLOUT` as they are. -/
theorem sendRest_of_buffered {c : TcpConnection} (hb : c.outputBuffer.readable ≠ [])
    (f : IoResult) : c.sendRest f = c := by
  have hne : c.outputBuffer.readableBytes ≠ 0 := fun h => hb (Buffer.readableBytes_eq_zero.mp h)
  simp [sendRest, transferFile, completeWrite, hne]

/-- With nothing left `EPOLLOUT` goes off. -/
theorem isWriting_completeWrite {c : TcpConnection} (hb : c.outputBuffer.readable = [])
    (hfile : c.fileFd < 0 ∨ c.fileOffset = c.fileSize) :
    c.completeWrite.channel.isWriting = false := by
  show c.completeWrite.core.channel.isWriting = false
  rw [core_completeWrite hb hfile]
  rfl

theorem pendingBytes_completeWrite_le (c : TcpConnection) :
    c.completeWrite.pendingBytes ≤ c.pendingBytes := by
  obtain h | ⟨hb, -, h⟩ := c.completeWrite_cases
  · rw [h]
  · have hfd : ¬ 0 ≤ c.finished.fileFd := Int.not_le.mpr c.fileFd_finished
    show c.completeWrite.core.outputBuffer.readableBytes + c.completeWrite.core.unsentSize ≤ _
    rw [h]
    show c.outputBuffer.readableBytes + c.finished.unsentSize ≤ _
    rw [unsentSize, if_neg hfd]
    exact Nat.le_add_right _ _

theorem pendingBytes_transferFile_le (c : TcpConnection) (f : IoResult) :
    (c.transferFile f).1.pendingBytes ≤ c.pendingBytes := by
  obtain h | ⟨-, hfd, n, -, h⟩ | ⟨-, -, -, h⟩ := c.transferFile_cases f
  · rw [h]
  · rw [h]
    show c.outputBuffer.readableBytes + (if 0 ≤ c.fileFd then c.fileSize - (c.fileOffset + n) else 0)
      ≤ c.outputBuffer.readableBytes + c.unsentSize
    rw [unsentSize, if_pos hfd, if_pos hfd]
    omega
  · rw [h]
    exact Nat.le_add_right _ _

/-- Behind the first write nothing is added to what is pending. -/
theorem pendingBytes_sendRest_le (c : TcpConnection) (f : IoResult) :
    (c.sendRest f).pendingBytes ≤ c.pendingBytes := by
  unfold sendRest
  split
  · exact (pendingBytes_completeWrite_le _).trans (c.pendingBytes_transferFile_le f)
  · exact c.pendingBytes_transferFile_le f

/-- With `EPOLLOUT` on, and without a change of state, less has to be pending. -/
theorem progresses_iff_pendingBytes {c c' : TcpConnection} (hw : c'.channel.isWriting = true)
    (hs : c'.state = c.state) : c.Progresses c' ↔ c'.pendingBytes < c.pendingBytes := by
  constructor
  · rintro (h | h | ⟨hne, -⟩)
    · exact h
    · simp [hw] at h
    · exact absurd hs hne
  · exact .inl

theorem not_progresses_self {c : TcpConnection} (hw : c.channel.isWriting = true) :
    ¬ c.Progresses c := by
  rw [progresses_iff_pendingBytes hw rfl]
  exact Nat.lt_irrefl _

theorem length_unsentFile {c : TcpConnection} (hfd : 0 ≤ c.fileFd) :
    c.unsentFile.length = min c.fileSize c.fileData.length - c.fileOffset := by
  rw [unsentFile, if_pos hfd, List.length_drop, List.length_take]

/-- A `::sendfile` that returns a count. Only the end of the file by its size counts as the end:
    a file that ends before its size yields nothing any more, and `EPOLLOUT` stays on. -/
theorem progresses_sendRest_upTo {c : TcpConnection} (hw : c.channel.isWriting = true)
    (hin : c.InBounds) (hb : c.outputBuffer.readable = []) (hfd : 0 ≤ c.fileFd) (n : ℕ) :
    c.Progresses (c.sendRest (.upTo n)) ↔ c.FileServed (.upTo n) := by
  have hle := hin hfd
  have hlen := length_unsentFile hfd
  set k := min n c.unsentFile.length with hk
  set d : TcpConnection :=
    { c.emit (.sendfile (c.unsentFile.take k)) with fileOffset := c.fileOffset + k } with hd
  have hrest : c.sendRest (.upTo n) = d.completeWrite := by
    simp [sendRest, transferFile, Buffer.readableBytes_eq_zero.mpr hb, hfd, hd, hk]
  rw [hrest]
  by_cases hend : c.fileOffset + k = c.fileSize
  · refine iff_of_true (.inr (.inl (isWriting_completeWrite hb (.inr hend)))) ?_
    rcases Nat.eq_zero_or_pos k with h0 | hpos
    · exact .inl (by omega)
    · exact .inr (by omega)
  · have hopen : ¬ (d.outputBuffer.readable = [] ∧ (d.fileFd < 0 ∨ d.fileOffset = d.fileSize)) := by
      rintro ⟨-, hneg | heq⟩
      · exact Int.not_lt.mpr hfd hneg
      · exact hend heq
    have hpending : d.pendingBytes = c.outputBuffer.readableBytes + (c.fileSize - (c.fileOffset + k)) := by
      show c.outputBuffer.readableBytes + (if 0 ≤ c.fileFd then c.fileSize - (c.fileOffset + k) else 0)
        = _
      rw [if_pos hfd]
    have hless : c.Progresses d ↔ d.pendingBytes < c.pendingBytes :=
      progresses_iff_pendingBytes hw rfl
    rw [completeWrite_of_not_done hopen, hless, hpending, pendingBytes, unsentSize, if_pos hfd,
      FileServed]
    omega

/-- A `::sendfile` that fails gives the rest of the file up. -/
theorem progresses_sendRest_error {c : TcpConnection} (hw : c.channel.isWriting = true)
    (hb : c.outputBuffer.readable = []) (hfd : 0 ≤ c.fileFd) (errno : Errno) :
    c.Progresses (c.sendRest (.error errno)) ↔ c.FileServed (.error errno) := by
  by_cases he : errno = .eagain
  · have hrest : c.sendRest (.error errno) = c := by
      simp [sendRest, transferFile, Buffer.readableBytes_eq_zero.mpr hb, hfd, he]
    rw [hrest]
    exact iff_of_false (not_progresses_self hw) fun h => h.1 he
  · have hrest : c.sendRest (.error errno) = { c.emit (.close c.fileFd) with fileFd := -1 } := by
      simp [sendRest, transferFile, Buffer.readableBytes_eq_zero.mpr hb, hfd, he]
    have hless : c.Progresses { c.emit (.close c.fileFd) with fileFd := -1 } ↔
        c.outputBuffer.readableBytes + 0 < c.outputBuffer.readableBytes + c.unsentSize :=
      progresses_iff_pendingBytes hw rfl
    rw [hrest, hless, unsentSize, if_pos hfd, FileServed]
    constructor
    · intro h
      exact ⟨he, by omega⟩
    · rintro ⟨-, h⟩
      omega

/-- With nothing buffered and no file, `EPOLLOUT` goes off. -/
theorem isWriting_sendRest_of_done {c : TcpConnection} (hb : c.outputBuffer.readable = [])
    (hfd : c.fileFd < 0) (f : IoResult) : (c.sendRest f).channel.isWriting = false := by
  have hrest : c.sendRest f = c.completeWrite := by
    simp [sendRest, transferFile, Int.not_le.mpr hfd]
  rw [hrest]
  exact isWriting_completeWrite hb (.inl hfd)

theorem progresses_sendRest_iff {c : TcpConnection} (hw : c.channel.isWriting = true)
    (hin : c.InBounds) (hb : c.outputBuffer.readable = []) (f : IoResult) :
    c.Progresses (c.sendRest f) ↔ (0 ≤ c.fileFd → c.FileServed f) := by
  by_cases hfd : 0 ≤ c.fileFd
  · rw [forall_prop_of_true hfd]
    cases f with
    | upTo n => exact progresses_sendRest_upTo hw hin hb hfd n
    | error errno => exact progresses_sendRest_error hw hb hfd errno
  · refine iff_of_true (.inr (.inl ?_)) fun h => absurd h hfd
    exact isWriting_sendRest_of_done hb (Int.not_le.mp hfd) f

/-! ## One call -/

theorem progresses_checkLowWaterMark (c d : TcpConnection) :
    c.checkLowWaterMark.Progresses d ↔ c.Progresses d :=
  progresses_core c.core_checkLowWaterMark rfl

/-- Leaving the high water mark changes neither the output nor the file. -/
theorem checkLowWaterMark_same {α : Type*} {g : TcpConnection → α} (hg : ∀ c, g c.core = g c)
    (c : TcpConnection) : g c.checkLowWaterMark = g c := by
  rw [← hg, core_checkLowWaterMark, hg]

theorem progresses_of_empty {c : TcpConnection} (hw : c.channel.isWriting = true)
    (hin : c.InBounds) (hb : c.outputBuffer.readable = []) (f : IoResult) :
    c.Progresses (c.checkLowWaterMark.sendRest f) ↔ (0 ≤ c.fileFd → c.FileServed f) := by
  have hw' := (checkLowWaterMark_same (g := (·.channel.isWriting)) (fun _ => rfl) c).trans hw
  have hb' := (checkLowWaterMark_same (g := (·.outputBuffer.readable)) (fun _ => rfl) c).trans hb
  have hin' := (checkLowWaterMark_same (g := InBounds) (fun _ => rfl) c).mpr hin
  rw [← progresses_checkLowWaterMark, progresses_sendRest_iff hw' hin' hb']
  exact iff_of_eq (checkLowWaterMark_same (g := fun d => 0 ≤ d.fileFd → d.FileServed f)
    (fun _ => rfl) c)

/-- A write that takes nothing leaves everything in place. -/
theorem not_progresses_of_buffered {c : TcpConnection} (hw : c.channel.isWriting = true)
    (hb : c.outputBuffer.readable ≠ []) (f : IoResult) :
    ¬ c.Progresses (c.checkLowWaterMark.sendRest f) := by
  have hw' := (checkLowWaterMark_same (g := (·.channel.isWriting)) (fun _ => rfl) c).trans hw
  have hb' : c.checkLowWaterMark.outputBuffer.readable ≠ [] := by
    rwa [checkLowWaterMark_same (g := (·.outputBuffer.readable)) (fun _ => rfl) c]
  rw [sendRest_of_buffered hb', ← progresses_checkLowWaterMark]
  exact not_progresses_self hw'

/-- A write that takes a byte. -/
theorem pendingBytes_of_written {c : TcpConnection} (hb : c.outputBuffer.readable ≠ []) {n : ℕ}
    (hn : 0 < n) (f : IoResult) (hw : c.channel.isWriting = true) :
    (c.handleWrite (.upTo n) f).pendingBytes < c.pendingBytes := by
  have hpos : 0 < c.outputBuffer.readableBytes :=
    Nat.pos_of_ne_zero fun h => hb (Buffer.readableBytes_eq_zero.mp h)
  set k := min n c.outputBuffer.readableBytes with hk
  have hk0 : 0 < k := lt_min hn hpos
  set d : TcpConnection :=
    { c.emit (.write (c.outputBuffer.readable.take k)) with
      outputBuffer := c.outputBuffer.retrieve k } with hd
  have hout : c.writeOutput (.upTo n) = some d := by
    simp only [writeOutput, hpos, if_true, ← hk, hk0, hd]
  have hlen : d.outputBuffer.readableBytes = c.outputBuffer.readableBytes - k := by
    show (c.outputBuffer.retrieve k).readableBytes = _
    rw [← Buffer.length_readable, Buffer.readable_retrieve, List.length_drop, Buffer.length_readable]
  rw [handleWrite_of_writeOutput f hw hout]
  calc (d.checkLowWaterMark.sendRest f).pendingBytes
      ≤ d.checkLowWaterMark.pendingBytes := pendingBytes_sendRest_le _ f
    _ = d.pendingBytes := checkLowWaterMark_same (g := pendingBytes) (fun _ => rfl) d
    _ = d.outputBuffer.readableBytes + c.unsentSize := rfl
    _ < c.pendingBytes := by rw [hlen, pendingBytes]; omega

/-- **One call of `handleWrite` gets on exactly when the kernel serves it.** -/
theorem progresses_handleWrite_iff {c : TcpConnection} (hw : c.channel.isWriting = true)
    (hin : c.InBounds) (w f : IoResult) : c.Progresses (c.handleWrite w f) ↔ c.Served w f := by
  by_cases hb : c.outputBuffer.readable = []
  · have hout : c.writeOutput w = some c :=
      if_neg (by simp [Buffer.readableBytes_eq_zero.mpr hb])
    rw [handleWrite_of_writeOutput f hw hout, progresses_of_empty hw hin hb]
    exact ⟨fun h => ⟨fun hne => absurd hb hne, fun _ => h⟩, fun h => h.2 hb⟩
  · have hpos : 0 < c.outputBuffer.readableBytes :=
      Nat.pos_of_ne_zero fun h => hb (Buffer.readableBytes_eq_zero.mp h)
    have hserved : c.Served w f ↔ ∃ n, 0 < n ∧ w = .upTo n :=
      ⟨fun h => h.1 hb, fun h => ⟨fun _ => h, fun h0 => absurd h0 hb⟩⟩
    rw [hserved]
    cases w with
    | upTo n =>
      rcases Nat.eq_zero_or_pos n with rfl | hn
      · have hout : c.writeOutput (.upTo 0) = some c := by simp [writeOutput, hpos]
        rw [handleWrite_of_writeOutput f hw hout]
        exact iff_of_false (not_progresses_of_buffered hw hb f) (by simp)
      · exact iff_of_true (.inl (pendingBytes_of_written hb hn f hw)) ⟨n, hn, rfl⟩
    | error errno =>
      refine iff_of_false ?_ (by simp)
      by_cases he : errno = .eagain
      · have hout : c.writeOutput (.error errno) = some c := by simp [writeOutput, hpos, he]
        rw [handleWrite_of_writeOutput f hw hout]
        exact not_progresses_of_buffered hw hb f
      · have hout : c.writeOutput (.error errno) = none := by simp [writeOutput, hpos, he]
        rw [handleWrite_of_error f hout]
        exact not_progresses_self hw

/-! ## The offset of the file -/

theorem InBounds.of_noFile {c : TcpConnection} (h : c.fileFd < 0) : c.InBounds :=
  fun hfd => absurd h (Int.not_lt.mpr hfd)

theorem inBounds_sendInLoop {c : TcpConnection} (h : c.InBounds) (message : Bytes) (w : IoResult) :
    (c.sendInLoop message w).InBounds := by
  by_cases hc : c.state = .kDisconnected
  · rwa [sendInLoop, if_pos hc]
  · show (c.sendInLoop message w).core.InBounds
    obtain ⟨hr, -⟩ | ⟨-, -, hr⟩ | ⟨-, -, n, -, hr⟩ | ⟨-, hr⟩ := sendInLoop_cases hc message w
    all_goals rw [hr]; exact h

/-- A new file is sent from its beginning. -/
theorem inBounds_sendFileInLoop {c : TcpConnection} (h : c.InBounds) (file : File) (fileSize : ℕ) :
    (c.sendFileInLoop file fileSize).InBounds := by
  by_cases hc : c.state = .kDisconnected
  · rw [sendFileInLoop, if_pos hc]
    exact h
  · rw [sendFileInLoop_eq hc]
    exact fun _ => Nat.zero_le _

theorem inBounds_shutdownInLoop {c : TcpConnection} (h : c.InBounds) :
    c.shutdownInLoop.InBounds := by
  obtain ⟨-, hr⟩ | ⟨-, hr⟩ := c.shutdownInLoop_cases
  · rwa [hr]
  · rw [hr]
    exact h

/-- `::sendfile` takes no more than is left of the file. -/
theorem inBounds_handleWrite {c : TcpConnection} (h : c.InBounds) (w f : IoResult) :
    (c.handleWrite w f).InBounds := by
  refine handleWrite_rule (P := InBounds) (fun _ => Iff.rfl) h ?_ ?_ ?_
  · intro d hd
    obtain rfl | ⟨n, rfl⟩ := writeOutput_cases hd <;> exact h
  · intro d hd
    obtain hr | ⟨-, hfd, n, hn, hr⟩ | ⟨-, -, -, hr⟩ := d.transferFile_cases f
    · rwa [hr]
    · rw [hr]
      intro _
      have hle := hd hfd
      rw [length_unsentFile hfd] at hn
      show d.fileOffset + n ≤ d.fileSize
      omega
    · rw [hr]
      exact .of_noFile (Int.negSucc_lt_zero 0)
  · intro d hd
    obtain hr | ⟨-, -, hr⟩ := d.completeWrite_cases
    · rwa [hr]
    · show d.completeWrite.core.InBounds
      rw [hr]
      exact .of_noFile d.fileFd_finished

theorem inBounds_handleClose {c : TcpConnection} (h : c.InBounds) : c.handleClose.InBounds := by
  rw [handleClose]
  split
  · exact h
  · show c.closeFile.InBounds
    rw [closeFile]
    split
    · exact .of_noFile (Int.negSucc_lt_zero 0)
    · exact h

theorem inBounds_call {c : TcpConnection} (h : c.InBounds) (k : Call) : (c.call k).InBounds := by
  cases k with
  | send buf w =>
    simp only [call, send]
    split
    · exact inBounds_sendInLoop h buf w
    · exact h
  | sendFile file fileSize =>
    simp only [call, sendFile]
    split
    · exact inBounds_sendFileInLoop h file fileSize
    · exact h
  | shutdown =>
    simp only [call, shutdown]
    split
    · exact inBounds_shutdownInLoop (c := c.setState .kDisconnecting) h
    · exact h
  | forceClose =>
    simp only [call, forceClose]
    split <;> exact h

theorem inBounds_handleRead {c : TcpConnection} (h : c.InBounds) (readv : Option Bytes)
    (calls : List Call) : (c.handleRead readv calls).InBounds := by
  cases readv with
  | none => exact h
  | some data =>
    simp only [handleRead]
    split
    · split
      · refine List.foldlRecOn calls call (motive := InBounds) h ?_
        intro d hd k _
        exact inBounds_call hd k
      · exact h
    · exact inBounds_handleClose (c := { c with inputBuffer := c.inputBuffer.readFd data }) h

theorem inBounds_handleEvent {c : TcpConnection} (h : c.InBounds) (revents : EpollEvents)
    (readv : Option Bytes) (calls : List Call) (w f : IoResult) :
    (c.handleEvent revents readv calls w f).InBounds := by
  have hite : ∀ (b : Bool) {d d' : TcpConnection}, d'.InBounds → d.InBounds →
      (if b then d' else d).InBounds := by
    intro b d d' hd' hd
    cases b
    · exact hd
    · exact hd'
  have hclose := hite (revents.epollhup && !revents.epollin) (inBounds_handleClose h) h
  have hread := hite (revents.epollin || revents.epollpri || revents.epollrdhup)
    (inBounds_handleRead hclose readv calls) hclose
  exact hite revents.epollout (inBounds_handleWrite hread w f) hread

/-- Step lemma. -/
theorem inBounds_runStep {c : TcpConnection} (h : c.InBounds) (l : LoopStep) :
    (c.runStep l).InBounds := by
  cases l with
  | handleEvent revents readv calls w f => exact inBounds_handleEvent h revents readv calls w f
  | call k => exact inBounds_call h k
  | sendInLoop message w => exact inBounds_sendInLoop h message w
  | sendFileInLoop file fileSize => exact inBounds_sendFileInLoop h file fileSize
  | shutdownInLoop => exact inBounds_shutdownInLoop h
  | forceCloseInLoop =>
    simp only [runStep, forceCloseInLoop]
    split
    · exact inBounds_handleClose h
    · exact h
  | connectDestroyed =>
    simp only [runStep, connectDestroyed]
    split <;> exact h

theorem inBounds_of_run {c₀ c : TcpConnection} (h₀ : c₀.Constructed) {ls : List LoopStep}
    (hrun : Run (fun c l c' => l.Enabled c ∧ c' = c.runStep l) c₀.connectEstablished ls c) :
    c.InBounds := by
  have hstart : c₀.connectEstablished.InBounds := by
    refine .of_noFile ?_
    show c₀.fileFd < 0
    rw [h₀.fileFd]
    exact Int.negSucc_lt_zero 0
  refine hrun.invariant hstart ?_
  rintro d l _ hd ⟨-, rfl⟩
  exact inBounds_runStep hd l

/-! ## Write events in a row -/

/-- While `EPOLLOUT` is on, every write event of a sequence is served. -/
def AllServed : TcpConnection → List (IoResult × IoResult) → Prop
  | _, [] => True
  | c, a :: as => (c.channel.isWriting = true → c.Served a.1 a.2) ∧ (c.handleWrite a.1 a.2).AllServed as

/-- The connection after a sequence of write events. -/
def writeEvents (c : TcpConnection) (answers : List (IoResult × IoResult)) : TcpConnection :=
  answers.foldl (fun c a => c.handleWrite a.1 a.2) c

theorem isWriting_writeEvents_of_off {c : TcpConnection} (hw : c.channel.isWriting = false)
    (answers : List (IoResult × IoResult)) : (c.writeEvents answers).channel.isWriting = false := by
  induction answers with
  | nil => exact hw
  | cons a as ih =>
    have hsame : c.handleWrite a.1 a.2 = c := by simp [handleWrite, hw]
    rw [writeEvents, List.foldl_cons, hsame]
    exact ih

/-- **Served write events come to an end**: when there are more of them than bytes pending,
    `EPOLLOUT` is off. -/
theorem isWriting_writeEvents {c : TcpConnection} (hin : c.InBounds)
    {answers : List (IoResult × IoResult)} (hserved : c.AllServed answers)
    (hlen : c.pendingBytes < answers.length) :
    (c.writeEvents answers).channel.isWriting = false := by
  induction answers generalizing c with
  | nil => exact absurd hlen (Nat.not_lt_zero _)
  | cons a as ih =>
    obtain ⟨hone, hrest⟩ := hserved
    cases hw : c.channel.isWriting with
    | false => exact isWriting_writeEvents_of_off hw (a :: as)
    | true =>
      rw [writeEvents, List.foldl_cons]
      have hstate := state_handleWrite c a.1 a.2
      obtain hless | hoff | ⟨hne, -⟩ := (progresses_handleWrite_iff hw hin a.1 a.2).mpr (hone hw)
      · refine ih (inBounds_handleWrite hin a.1 a.2) hrest ?_
        rw [List.length_cons] at hlen
        omega
      · exact isWriting_writeEvents_of_off hoff as
      · exact absurd hstate hne

/-- **Progress of the output.** In every state that a run of the loop thread reaches with `EPOLLOUT`
    on, one call of `handleWrite` gets on exactly when the kernel serves it; and of write events
    that are all served there are no more than bytes pending before `EPOLLOUT` goes off. -/
theorem handleWrite_progress {c₀ c : TcpConnection} (h₀ : c₀.Constructed) {ls : List LoopStep}
    (hrun : Run (fun c l c' => l.Enabled c ∧ c' = c.runStep l) c₀.connectEstablished ls c)
    (hw : c.channel.isWriting = true) :
    (∀ w f, c.Progresses (c.handleWrite w f) ↔ c.Served w f) ∧
      ∀ answers, c.AllServed answers → c.pendingBytes < answers.length →
        (c.writeEvents answers).channel.isWriting = false :=
  have hin := inBounds_of_run h₀ hrun
  ⟨fun w f => progresses_handleWrite_iff hw hin w f, fun _ => isWriting_writeEvents hin⟩

/-- A message of two bytes that is buffered, and taken byte by byte. -/
theorem handleWrite_progress_short :
    let c : TcpConnection := ({} : TcpConnection).connectEstablished.sendInLoop [104, 105]
      (.error .eagain)
    (c.writeEvents [(.upTo 1, .upTo 0), (.upTo 1, .upTo 0), (.upTo 1, .upTo 0)]).channel.isWriting =
      false := by
  intro c
  have hrun : Run (fun c l c' => l.Enabled c ∧ c' = c.runStep l)
      ({} : TcpConnection).connectEstablished [.sendInLoop [104, 105] (.error .eagain)] c :=
    Run.single ⟨trivial, rfl⟩
  have hone : ∀ d : TcpConnection, d.fileFd < 0 → d.Served (.upTo 1) (.upTo 0) := fun d hd =>
    ⟨fun _ => ⟨1, Nat.one_pos, rfl⟩, fun _ hfd => absurd hd (Int.not_lt.mpr hfd)⟩
  have hserved : c.AllServed [(.upTo 1, .upTo 0), (.upTo 1, .upTo 0), (.upTo 1, .upTo 0)] :=
    ⟨fun _ => hone _ (by decide +kernel), fun _ => hone _ (by decide +kernel),
      fun _ => hone _ (by decide +kernel), trivial⟩
  have hpending : c.pendingBytes < 3 := by decide +kernel
  have hw : c.channel.isWriting = true := by decide +kernel
  exact (handleWrite_progress constructed_default hrun hw).2 _ hserved hpending

/-- A file that has no byte of the three it was announced with, and a message to a peer that has
    reset the connection: `handleWrite` gets on with neither. -/
theorem handleWrite_spins :
    ∃ c d : TcpConnection,
      Run (fun c l c' => l.Enabled c ∧ c' = c.runStep l) ({} : TcpConnection).connectEstablished
          [.call (.sendFile ⟨5, []⟩ 3)] c ∧
        c.state ≠ .kDisconnected ∧ c.channel.isWriting = true ∧
        ¬ c.Progresses (c.handleWrite (.upTo 0) (.upTo 3)) ∧
      Run (fun c l c' => l.Enabled c ∧ c' = c.runStep l) ({} : TcpConnection).connectEstablished
          [.call (.send [104, 105] (.error .eagain))] d ∧
        d.state ≠ .kDisconnected ∧ d.channel.isWriting = true ∧
        ¬ d.Progresses (d.handleWrite (.error .econnreset) (.upTo 0)) :=
  ⟨_, _, Run.single ⟨trivial, rfl⟩, by decide +kernel, by decide +kernel, by decide +kernel,
    Run.single ⟨trivial, rfl⟩, by decide +kernel, by decide +kernel, by decide +kernel⟩

end TcpConnection

end AegisNet
