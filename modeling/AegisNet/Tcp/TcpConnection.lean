import AegisNet.Net.Channel
import AegisNet.Net.EventLoop
import AegisNet.Tcp.Buffer

/-!
# TCP connections

The members and methods of `src/tcp/TcpConnection.{h,cpp}`, as executed on the loop thread. What a
method asks the kernel is answered by an argument, so a method is a function of the connection and
of the answers. What it does to the outside world is appended to `TcpConnection.trace`; functors
that it queues go to `TcpConnection.loop`.

## Main definitions

- `TcpConnection` — the members of the class, with the trace
- `TcpConnection.sendInLoop`, `TcpConnection.sendFileInLoop`, `TcpConnection.handleWrite` — output
- `TcpConnection.handleRead`, `TcpConnection.handleClose`, `TcpConnection.handleEvent` — events
- `TcpConnection.shutdown`, `TcpConnection.forceClose`, `TcpConnection.connectDestroyed` — the end
-/

namespace AegisNet

/-- `TcpConnection::StateE`. -/
inductive StateE
  | kDisconnected
  | kConnecting
  | kConnected
  | kDisconnecting
  deriving DecidableEq, Repr

/-- The error numbers that the code tells apart; `EWOULDBLOCK` is `EAGAIN`. -/
inductive Errno
  | eagain
  | epipe
  | econnreset
  | other (code : ℕ)
  deriving DecidableEq, Repr

/-- The answer to `::write` or `::sendfile`. With `upTo n` the kernel takes as many of the bytes
    asked for as it can, but at most `n`; so every count from zero to the length asked occurs. -/
inductive IoResult
  | upTo (n : ℕ)
  | error (errno : Errno)
  deriving DecidableEq, Repr

/-- The functors that a connection queues in its loop. -/
inductive Functor
  | writeComplete
  | lowWaterMark (queuedBytes : ℕ)
  | highWaterMark (queuedBytes : ℕ)
  | shutdownInLoop
  | forceCloseInLoop
  deriving DecidableEq, Repr

/-- What a connection does to the outside world. -/
inductive Effect
  /-- Bytes taken by `::write`. -/
  | write (bytes : Bytes)
  /-- Bytes taken by `::sendfile`. -/
  | sendfile (bytes : Bytes)
  /-- `socket_->shutdownWrite()`, with the output and the file descriptor pending at the call. -/
  | shutdownWrite (unsent : Bytes) (fileFd : ℤ)
  | close (fd : ℤ)
  /-- `connectionCallback_`, with the state at the call. -/
  | connectionCallback (state : StateE)
  | messageCallback
  | closeCallback
  deriving DecidableEq, Repr

/-- A descriptor to send, with the bytes that can be read from it. -/
structure File where
  fd : ℤ
  data : Bytes
  deriving DecidableEq, Repr

/-- The members of the C++ class. A callback is `true` when it is set. `fileData` is what the
    kernel reads from `fileFd`; the code does not see it. -/
structure TcpConnection where
  state : StateE := .kConnecting
  channel : Channel := {}
  loop : EventLoop Functor := {}
  inputBuffer : Buffer := .new
  outputBuffer : Buffer := .new
  fileFd : ℤ := -1
  fileSize : ℕ := 0
  fileOffset : ℕ := 0
  fileData : Bytes := []
  lowWaterMark : ℕ := 32 * 1024 * 1024
  highWaterMark : ℕ := 64 * 1024 * 1024
  aboveHighWaterMark : Bool := false
  connectionCallback : Bool := false
  messageCallback : Bool := false
  writeCompleteCallback : Bool := false
  lowWaterMarkCallback : Bool := false
  highWaterMarkCallback : Bool := false
  closeCallback : Bool := false
  /-- Everything done so far, oldest first. -/
  trace : List Effect := []

namespace TcpConnection

/-! ## Helpers -/

def emit (c : TcpConnection) (e : Effect) : TcpConnection := { c with trace := c.trace ++ [e] }

/-- A call of a callback that is made only if the callback is set. -/
def emitIf (c : TcpConnection) (set : Bool) (e : Effect) : TcpConnection :=
  { c with trace := if set then c.trace ++ [e] else c.trace }

/-- `loop_->queueInLoop(f)`, where `f` is bound only if its callback is set. -/
def queueIf (c : TcpConnection) (set : Bool) (f : Functor) : TcpConnection :=
  { c with loop := if set then c.loop.queueInLoop f else c.loop }

def setState (c : TcpConnection) (s : StateE) : TcpConnection := { c with state := s }

/-- `::close(fileFd_); fileFd_ = -1;` under the test `fileFd_ >= 0`. -/
def closeFile (c : TcpConnection) : TcpConnection :=
  if 0 ≤ c.fileFd then { c.emit (.close c.fileFd) with fileFd := -1 } else c

@[simp] theorem state_closeFile (c : TcpConnection) : c.closeFile.state = c.state := by
  unfold closeFile
  split <;> rfl

theorem trace_closeFile (c : TcpConnection) :
    c.closeFile.trace = c.trace ++ if 0 ≤ c.fileFd then [.close c.fileFd] else [] := by
  unfold closeFile
  split <;> simp [emit]

def notifyConnection (c : TcpConnection) : TcpConnection :=
  c.emitIf c.connectionCallback (.connectionCallback c.state)

def notifyClose (c : TcpConnection) : TcpConnection :=
  c.emitIf c.closeCallback .closeCallback

/-! ## Output -/

/-- The write that `sendInLoop` tries at once: the connection after it, the number of bytes
    written, and `faultError`. -/
def directWrite (c : TcpConnection) (message : Bytes) (w : IoResult) :
    TcpConnection × ℕ × Bool :=
  if !c.channel.isWriting && c.outputBuffer.readableBytes == 0 then
    match w with
    | .upTo n =>
      let nwrote := min n message.length
      ((c.emit (.write (message.take nwrote))).queueIf
          (c.writeCompleteCallback && message.length - nwrote == 0) .writeComplete,
        nwrote, false)
    | .error errno => (c, 0, errno == .epipe || errno == .econnreset)
  else (c, 0, false)

/-- The end of `sendInLoop`: buffer what is left and arm `EPOLLOUT`. -/
def bufferRemaining (c : TcpConnection) (remaining : Bytes) : TcpConnection :=
  let c := { c with outputBuffer := c.outputBuffer.append remaining }
  let queuedBytes := c.outputBuffer.readableBytes
  let c :=
    if !c.aboveHighWaterMark && c.highWaterMark ≤ queuedBytes then
      { c with aboveHighWaterMark := true }.queueIf c.highWaterMarkCallback
        (.highWaterMark queuedBytes)
    else c
  if !c.channel.isWriting then { c with channel := c.channel.enableWriting } else c

def sendInLoop (c : TcpConnection) (message : Bytes) (w : IoResult) : TcpConnection :=
  if c.state = .kDisconnected then c
  else
    let r := c.directWrite message w
    if !r.2.2 && 0 < message.length - r.2.1 then r.1.bufferRemaining (message.drop r.2.1)
    else r.1

def sendFileInLoop (c : TcpConnection) (file : File) (fileSize : ℕ) : TcpConnection :=
  if c.state = .kDisconnected then c.emit (.close file.fd)
  else
    let c := { c with
      fileFd := file.fd
      fileData := file.data
      fileSize := fileSize
      fileOffset := 0 }
    if !c.channel.isWriting then { c with channel := c.channel.enableWriting } else c

def shutdownInLoop (c : TcpConnection) : TcpConnection :=
  if !c.channel.isWriting then c.emit (.shutdownWrite c.outputBuffer.readable c.fileFd) else c

/-- First part of `handleWrite`; `none` is the early return on an error. -/
def writeOutput (c : TcpConnection) (w : IoResult) : Option TcpConnection :=
  if 0 < c.outputBuffer.readableBytes then
    match w with
    | .upTo n =>
      let n := min n c.outputBuffer.readableBytes
      if 0 < n then
        some { c.emit (.write (c.outputBuffer.readable.take n)) with
          outputBuffer := c.outputBuffer.retrieve n }
      else some c
    | .error errno => if errno ≠ .eagain then none else some c
  else some c

/-- Second part: leaving the high water mark. -/
def checkLowWaterMark (c : TcpConnection) : TcpConnection :=
  let queuedBytes := c.outputBuffer.readableBytes
  if c.aboveHighWaterMark && queuedBytes ≤ c.lowWaterMark then
    { c with aboveHighWaterMark := false }.queueIf c.lowWaterMarkCallback
      (.lowWaterMark queuedBytes)
  else c

/-- What `::sendfile` may still send: from `fileOffset`, at most `fileSize - fileOffset` bytes. -/
def unsentFile (c : TcpConnection) : Bytes :=
  if 0 ≤ c.fileFd then (c.fileData.take c.fileSize).drop c.fileOffset else []

/-- Third part: the pending file. The flag says whether `handleWrite` goes on. -/
def transferFile (c : TcpConnection) (f : IoResult) : TcpConnection × Bool :=
  if c.outputBuffer.readableBytes == 0 && 0 ≤ c.fileFd then
    match f with
    | .upTo n =>
      let n := min n c.unsentFile.length
      ({ c.emit (.sendfile (c.unsentFile.take n)) with fileOffset := c.fileOffset + n }, true)
    | .error errno =>
      if errno = .eagain then (c, false)
      else ({ c.emit (.close c.fileFd) with fileFd := -1 }, false)
  else (c, true)

/-- Last part: everything sent. -/
def completeWrite (c : TcpConnection) : TcpConnection :=
  if c.outputBuffer.readableBytes == 0 && (c.fileFd < 0 || c.fileOffset == c.fileSize) then
    let c := { c with channel := c.channel.disableWriting }
    let c := c.closeFile
    let c := c.queueIf c.writeCompleteCallback .writeComplete
    if c.state = .kDisconnecting then c.shutdownInLoop else c
  else c

def handleWrite (c : TcpConnection) (w f : IoResult) : TcpConnection :=
  if !c.channel.isWriting then c
  else
    match c.writeOutput w with
    | none => c
    | some c =>
      let r := c.checkLowWaterMark.transferFile f
      if r.2 then r.1.completeWrite else r.1

/-! ## The way down -/

def handleClose (c : TcpConnection) : TcpConnection :=
  if c.state = .kDisconnected then c
  else
    let c := (c.closeFile).setState .kDisconnected
    { c with channel := c.channel.disableAll }.notifyConnection.notifyClose

/-- On the loop thread, where `runInLoop` runs `shutdownInLoop` at once. -/
def shutdown (c : TcpConnection) : TcpConnection :=
  if c.state = .kConnected then (c.setState .kDisconnecting).shutdownInLoop else c

def forceClose (c : TcpConnection) : TcpConnection :=
  if c.state = .kConnected ∨ c.state = .kDisconnecting then
    (c.setState .kDisconnecting).queueIf true .forceCloseInLoop
  else c

def forceCloseInLoop (c : TcpConnection) : TcpConnection :=
  if c.state = .kConnected ∨ c.state = .kDisconnecting then c.handleClose else c

/-- Here `connectionCallback_` is called without a test. -/
def connectDestroyed (c : TcpConnection) : TcpConnection :=
  let c :=
    if c.state = .kConnected ∨ c.state = .kDisconnecting then
      let c := c.setState .kDisconnected
      { c with channel := c.channel.disableAll }.emit (.connectionCallback .kDisconnected)
    else c
  { c with channel := c.channel.remove }

/-! ## Calls and events -/

/-- On the loop thread, where `send` runs `sendInLoop` at once. -/
def send (c : TcpConnection) (buf : Bytes) (w : IoResult) : TcpConnection :=
  if c.state = .kConnected then c.sendInLoop buf w else c

/-- On the loop thread, where `sendFile` runs `sendFileInLoop` at once. -/
def sendFile (c : TcpConnection) (file : File) (fileSize : ℕ) : TcpConnection :=
  if c.state = .kConnected then c.sendFileInLoop file fileSize else c

/-- A public call that a user callback makes on its connection. -/
inductive Call
  | send (buf : Bytes) (w : IoResult)
  | sendFile (file : File) (fileSize : ℕ)
  | shutdown
  | forceClose
  deriving DecidableEq, Repr

def call (c : TcpConnection) : Call → TcpConnection
  | .send buf w => c.send buf w
  | .sendFile file fileSize => c.sendFile file fileSize
  | .shutdown => c.shutdown
  | .forceClose => c.forceClose

/-- A connection that is down ignores the public calls, so those made by the callbacks of
    `handleClose` and `connectDestroyed` do nothing. -/
theorem call_of_kDisconnected {c : TcpConnection} (h : c.state = .kDisconnected) (k : Call) :
    c.call k = c := by
  cases k <;> simp [call, send, sendFile, shutdown, forceClose, h]

def connectEstablished (c : TcpConnection) : TcpConnection :=
  let c := c.setState .kConnected
  { c with channel := c.channel.enableReading }.notifyConnection

/-- `readv` is what `readFd` gets: the bytes (none at the end of the stream), or an error. `calls`
    are the calls that `messageCallback_` makes on this connection. -/
def handleRead (c : TcpConnection) (readv : Option Bytes) (calls : List Call) : TcpConnection :=
  match readv with
  | none => c
  | some data =>
    let c := { c with inputBuffer := c.inputBuffer.readFd data }
    if 0 < data.length then
      if c.messageCallback then calls.foldl call (c.emit .messageCallback) else c
    else c.handleClose

/-- `Channel::handleEventWithGuard` with the callbacks of a connection; `handleError` only logs. -/
def handleEvent (c : TcpConnection) (revents : EpollEvents) (readv : Option Bytes)
    (calls : List Call) (w f : IoResult) : TcpConnection :=
  let c := if revents.epollhup && !revents.epollin then c.handleClose else c
  let c :=
    if revents.epollin || revents.epollpri || revents.epollrdhup then c.handleRead readv calls
    else c
  if revents.epollout then c.handleWrite w f else c

/-- A connection as the constructor and the setters leave it. -/
structure Constructed (c : TcpConnection) : Prop where
  state : c.state = .kConnecting
  events : c.channel.events = {}
  outputBuffer : c.outputBuffer.readable = []
  fileFd : c.fileFd = -1
  aboveHighWaterMark : c.aboveHighWaterMark = false
  trace : c.trace = []

theorem constructed_default : ({} : TcpConnection).Constructed :=
  ⟨rfl, rfl, by simp, rfl, rfl, rfl⟩

end TcpConnection

end AegisNet
