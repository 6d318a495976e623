import AegisNet.Lib.Run
import AegisNet.Net.EventLoop.Threads
import AegisNet.Net.TimerQueue.OneShot
import AegisNet.Tcp.TcpConnection.Notices
import AegisNet.WebChatServer.Replies
import Mathlib.Data.List.Sort

/-!
# The chat server

`WebChatServer` of `main.cpp` on its loops, with the timer queue of each loop. Callbacks run on the
loop of their connection; the tables are shared, and `mutex_` is held from one statement to the next
only in `broadcast`. What a connection does is `TcpConnection`: of a method the server sees the
callbacks that it makes, and these are executed next. The clock is the monotonic clock of all
threads.

## Main definitions

- `ChatTimer`, `ChatFunctor`, `ChatOp` — the callbacks of timers, the functors, and the statements
- `WebChatServer` — the members of the class, the connections, the timers and the loops
- `WebChatServer.method`, `WebChatServer.execOp` — a method of a connection, and one statement
- `ChatStep`, `WebChatServer.exec` — the steps of the loops
-/

namespace AegisNet

/-- `WebChatServer::ConnectionTimers`; zero is no timer. -/
structure ConnectionTimers where
  idleTimer : TimerId := 0
  forceCloseTimer : TimerId := 0
  deriving DecidableEq, Repr

/-- The callbacks that are passed to `runAfter`. -/
inductive ChatTimer (ι : Type*)
  | handleIdleTimeout (conn : ι)
  | handleForceCloseTimeout (conn : ι)
  deriving DecidableEq, Repr

/-- The functors that are queued in a loop. -/
inductive ChatFunctor (ι : Type*)
  /-- A functor that the connection itself queues. -/
  | bound (conn : ι) (f : Functor)
  /-- `[self, buf]() { self->sendInLoop(buf); }` -/
  | sendInLoop (conn : ι) (buf : Bytes)
  deriving DecidableEq

/-- The statements of the handlers, the callbacks and the functors. -/
inductive ChatOp (ι : Type*)
  | handleClose (conn : ι)
  | handleRead (conn : ι) (readv : Option Bytes)
  | handleWrite (conn : ι) (w f : IoResult)
  /-- The first block of `onConnection`. -/
  | updateConnections (conn : ι)
  /-- The cancels of `onConnection`. -/
  | cancelTimers (conn : ι) (idleTimer forceCloseTimer : TimerId)
  | refreshIdleTimer (conn : ι)
  /-- The last block of `onConnection`. -/
  | updateParsers (conn : ι)
  /-- `onMessage` from its drain loop on. -/
  | drainRequests (conn : ι)
  | send (conn : ι) (buf : Bytes)
  | broadcast (msg : Bytes)
  /-- The end of `broadcast`. -/
  | unlock
  | shutdown (conn : ι)
  | handleIdleTimeout (conn : ι)
  /-- `handleIdleTimeout` after its `shutdown`. -/
  | startForceCloseTimer (conn : ι)
  | handleForceCloseTimeout (conn : ι)
  /-- The end of `handleForceCloseTimeout`. -/
  | forceClose (conn : ι)
  | runBound (conn : ι) (f : Functor)
  | sendInLoop (conn : ι) (buf : Bytes)
  deriving DecidableEq

def ChatTimer.conn {ι : Type*} : ChatTimer ι → ι
  | handleIdleTimeout x | handleForceCloseTimeout x => x

def ChatTimer.op {ι : Type*} : ChatTimer ι → ChatOp ι
  | handleIdleTimeout x => .handleIdleTimeout x
  | handleForceCloseTimeout x => .handleForceCloseTimeout x

def ChatFunctor.body {ι : Type*} : ChatFunctor ι → List (ChatOp ι)
  | bound x f => [.runBound x f]
  | sendInLoop x buf => [.sendInLoop x buf]

namespace ChatOp

variable {ι : Type*}

/-- `onConnection` and `onMessage`. -/
def ofCallback (x : ι) : Effect → List (ChatOp ι)
  | .connectionCallback _ => [updateConnections x, refreshIdleTimer x, updateParsers x]
  | .messageCallback => [refreshIdleTimer x, drainRequests x]
  | _ => []

def ofReply (x : ι) : Reply → ChatOp ι
  | .send buf => send x buf
  | .broadcast msg => broadcast msg
  | .shutdown => shutdown x

end ChatOp

/-- The up notification and `onMessage` are signs of life. -/
def Effect.isActivity : Effect → Bool
  | connectionCallback .kConnected | messageCallback => true
  | _ => false

/-- A step of `TimerQueue::handleRead`; its clock readings are those of the server's steps. -/
inductive ReadStep
  | beginRead
  | turn
  | beginRearm
  | rearm
  | endRead
  deriving DecidableEq, Repr

def ReadStep.at (now : ℕ) : ReadStep → TimerStep
  | beginRead => .beginRead now
  | turn => .turn now
  | beginRearm => .beginRearm
  | rearm => .rearm now
  | endRead => .endRead

/-- Connections `ι` on loops `κ`. `parserMutex_` is not held between statements. -/
structure WebChatServer (κ ι : Type*) where
  /-- `conn->getLoop()` -/
  loop : ι → κ
  /-- `conn->peerAddress().toIpPort()` -/
  peer : ι → Bytes
  /-- The order of the pointers to timers, in each loop. -/
  ptrLess : κ → TimerId → TimerId → Bool
  conn : ι → TcpConnection
  /-- The loop whose thread holds `mutex_`. -/
  mutex : Option κ := none
  connections : List ι := []
  idleTimers : ι → Option ConnectionTimers := fun _ => none
  parsers : ι → Option HttpParser := fun _ => none
  /-- `timerQueue_` of each loop, with its `nextTimerId_` and the callbacks of its timers. -/
  queue : κ → TimerQueue := fun _ => {}
  nextTimerId : κ → TimerId := fun _ => 1
  callback : κ → TimerId → Option (ChatTimer ι) := fun _ _ => none
  threads : Threads κ (ChatFunctor ι) (ChatOp ι) := {}
  /-- The latest reading of the clock. -/
  clock : ℕ := 0
  /-- The time of the up notification or of the last `onMessage`, whichever is later. -/
  lastActive : ι → ℕ := fun _ => 0

namespace WebChatServer

variable {κ ι : Type*} [DecidableEq κ] [LinearOrder ι]

/-! ## Calls -/

/-- The thread of `k` makes the calls `ops`, and goes on afterwards. -/
def call (s : WebChatServer κ ι) (k : κ) (ops : List (ChatOp ι)) : WebChatServer κ ι :=
  { s with threads := s.threads.call k ops }

/-- What a connection queues goes to its loop. -/
def queueFunctors (s : WebChatServer κ ι) (x : ι) (fs : List Functor) : WebChatServer κ ι :=
  { s with
    threads := (fs.map (ChatFunctor.bound x)).foldl (fun t cb => t.queueInLoop (s.loop x) cb)
      s.threads }

/-- A method of connection `x`, called on the thread of `k`. The callbacks that it makes are executed
    next. -/
def method (s : WebChatServer κ ι) (k : κ) (x : ι) (f : TcpConnection → TcpConnection) :
    WebChatServer κ ι :=
  let c := f (s.conn x)
  let made := (s.conn x).newCallbacks c
  ({ s with
    conn := Function.update s.conn x { c with loop := {} }
    lastActive :=
      if made.any Effect.isActivity then Function.update s.lastActive x s.clock
      else s.lastActive }.queueFunctors x c.loop.pendingFunctors).call k
    (made.flatMap (ChatOp.ofCallback x))

/-- `conn->getLoop()->cancel(timerId)` on the thread of that loop. -/
def cancel (s : WebChatServer κ ι) (x : ι) (timerId : TimerId) : WebChatServer κ ι :=
  { s with
    queue :=
      if timerId = 0 then s.queue
      else Function.update s.queue (s.loop x)
        ((s.queue (s.loop x)).exec (s.ptrLess (s.loop x)) (.cancelInLoop timerId)) }

/-- `conn->getLoop()->runAfter(15.0, …)` on the thread of that loop; it returns `nextTimerId`. -/
def runAfter (s : WebChatServer κ ι) (cb : ChatTimer ι) : WebChatServer κ ι :=
  let k := s.loop cb.conn
  { s with
    queue := Function.update s.queue k ((s.queue k).exec (s.ptrLess k)
      (.addTimerInLoop (s.nextTimerId k) 0 false (15 * kMicrosecondsPerSecond) s.clock))
    nextTimerId := Function.update s.nextTimerId k (s.nextTimerId k + 1)
    callback := Function.update s.callback k
      (Function.update (s.callback k) (s.nextTimerId k) (some cb)) }

/-- `idleTimers_[conn] = …`, or its erasure. -/
def setTimers (s : WebChatServer κ ι) (x : ι) (timers : Option ConnectionTimers) :
    WebChatServer κ ι :=
  { s with idleTimers := Function.update s.idleTimers x timers }

def setParser (s : WebChatServer κ ι) (x : ι) (parser : Option HttpParser) : WebChatServer κ ι :=
  { s with parsers := Function.update s.parsers x parser }

/-! ## Statements -/

def updateConnections (s : WebChatServer κ ι) (k : κ) (x : ι) : WebChatServer κ ι :=
  if (s.conn x).state = .kConnected then
    ({ s with
      connections :=
        if s.connections.contains x then s.connections
        else s.connections.orderedInsert (· ≤ ·) x }.setTimers x (some {})).call k
          [.cancelTimers x 0 0]
  else
    let timers := (s.idleTimers x).getD {}
    ({ s with connections := s.connections.filter (· ≠ x) }.setTimers x none).call k
      [.cancelTimers x timers.idleTimer timers.forceCloseTimer]

def updateParsers (s : WebChatServer κ ι) (x : ι) : WebChatServer κ ι :=
  if (s.conn x).state = .kConnected then s.setParser x (some ((s.parsers x).getD .new))
  else s.setParser x none

def refreshIdleTimer (s : WebChatServer κ ι) (x : ι) : WebChatServer κ ι :=
  if (s.conn x).state = .kConnected then
    match s.idleTimers x with
    | none => s
    | some timers =>
      ((s.cancel x timers.idleTimer).runAfter (.handleIdleTimeout x)).setTimers x
        (some { timers with idleTimer := s.nextTimerId (s.loop x) })
  else s

def drainRequests (s : WebChatServer κ ι) (k : κ) (x : ι) : WebChatServer κ ι :=
  let drained := drainLoop ((s.parsers x).getD .new) (s.conn x).inputBuffer []
  ((s.setParser x (some drained.parser)).method k x fun c =>
      { c with inputBuffer := drained.buf }).call k
    ((replies (s.peer x) drained.requests drained.malformedRequest).map (ChatOp.ofReply x))

/-- `conn->send(…)`, which queues `sendInLoop` when it is called on another thread. -/
def send (s : WebChatServer κ ι) (k : κ) (x : ι) (buf : Bytes) (w : IoResult) :
    WebChatServer κ ι :=
  if (s.conn x).state = .kConnected then
    if s.loop x = k then s.method k x fun c => c.sendInLoop buf w
    else { s with threads := s.threads.queueInLoop (s.loop x) (.sendInLoop x buf) }
  else s

def broadcast (s : WebChatServer κ ι) (k : κ) (msg : Bytes) : WebChatServer κ ι :=
  { s with mutex := some k }.call k
    (s.connections.map (fun x => ChatOp.send x (broadcastText msg)) ++ [ChatOp.unlock])

def handleIdleTimeout (s : WebChatServer κ ι) (k : κ) (x : ι) : WebChatServer κ ι :=
  if (s.conn x).state = .kConnected then s.call k [.shutdown x, .startForceCloseTimer x] else s

def startForceCloseTimer (s : WebChatServer κ ι) (x : ι) : WebChatServer κ ι :=
  match s.idleTimers x with
  | none => s
  | some _ =>
    (s.runAfter (.handleForceCloseTimeout x)).setTimers x
      (some { idleTimer := 0, forceCloseTimer := s.nextTimerId (s.loop x) })

def handleForceCloseTimeout (s : WebChatServer κ ι) (k : κ) (x : ι) : WebChatServer κ ι :=
  match s.idleTimers x with
  | none => s
  | some timers =>
    (s.setTimers x (some { timers with forceCloseTimer := 0 })).call k [.forceClose x]

def forceClose (s : WebChatServer κ ι) (k : κ) (x : ι) : WebChatServer κ ι :=
  if (s.conn x).state = .kDisconnected then s else s.method k x TcpConnection.forceClose

/-- One statement on the thread of `k`; `w` answers a write that it tries. -/
def execOp (s : WebChatServer κ ι) (k : κ) (w : IoResult) : ChatOp ι → WebChatServer κ ι
  | .handleClose x => s.method k x TcpConnection.handleClose
  | .handleRead x readv => s.method k x fun c => c.handleRead readv []
  | .handleWrite x w f => s.method k x fun c => c.handleWrite w f
  | .updateConnections x => s.updateConnections k x
  | .cancelTimers x idleTimer forceCloseTimer => (s.cancel x idleTimer).cancel x forceCloseTimer
  | .refreshIdleTimer x => s.refreshIdleTimer x
  | .updateParsers x => s.updateParsers x
  | .drainRequests x => s.drainRequests k x
  | .send x buf => s.send k x buf w
  | .broadcast msg => s.broadcast k msg
  | .unlock => { s with mutex := none }
  | .shutdown x => s.method k x TcpConnection.shutdown
  | .handleIdleTimeout x => s.handleIdleTimeout k x
  | .startForceCloseTimer x => s.startForceCloseTimer x
  | .handleForceCloseTimeout x => s.handleForceCloseTimeout k x
  | .forceClose x => s.forceClose k x
  | .runBound x f => s.method k x fun c => c.runFunctor f
  | .sendInLoop x buf => s.method k x fun c => c.sendInLoop buf w

def advance (s : WebChatServer κ ι) (k : κ) (rest : List (ChatOp ι)) : WebChatServer κ ι :=
  { s with threads := s.threads.advance k rest }

/-- The thread of `k` makes its next statement. -/
def perform (s : WebChatServer κ ι) (k : κ) (w : IoResult) : WebChatServer κ ι :=
  match s.threads.running k with
  | [] => s
  | op :: rest => (s.advance k rest).execOp k w op

/-- A step of `handleRead` of the timer queue. -/
def stepTimers (s : WebChatServer κ ι) (k : κ) (l : ReadStep) : WebChatServer κ ι :=
  { s with
    queue := Function.update s.queue k ((s.queue k).exec (s.ptrLess k) (l.at s.clock)) }

/-- A turn may start a callback. -/
def readTimers (s : WebChatServer κ ι) (k : κ) (l : ReadStep) : WebChatServer κ ι :=
  if l = .turn then
    match (s.queue k).nextStart.bind (s.callback k) with
    | none => s.stepTimers k l
    | some cb => (s.stepTimers k l).call k [cb.op]
  else s.stepTimers k l

end WebChatServer

/-! ## Steps -/

/-- A step of one of the threads. -/
inductive ChatStep (κ ι : Type*)
  /-- The functor that the server passes to the loop of a new connection. -/
  | connectEstablished (conn : ι)
  | handleEvent (conn : ι) (revents : EpollEvents) (readv : Option Bytes) (w f : IoResult)
  /-- The functor that ends the removal of a connection. -/
  | connectDestroyed (conn : ι)
  | readTimers (k : κ) (l : ReadStep)
  /-- The start of `doPendingFunctors`. -/
  | swapFunctors (k : κ)
  | nextFunctor (k : κ)
  | perform (k : κ) (w : IoResult)
  deriving DecidableEq, Repr

namespace WebChatServer

variable {κ ι : Type*} [DecidableEq κ] [LinearOrder ι]

/-- `Channel::handleEventWithGuard` -/
def dispatch (x : ι) (revents : EpollEvents) (readv : Option Bytes) (w f : IoResult) :
    List (ChatOp ι) :=
  (if revents.epollhup && !revents.epollin then [.handleClose x] else []) ++
    (if revents.epollin || revents.epollpri || revents.epollrdhup then [.handleRead x readv]
      else []) ++
    if revents.epollout then [.handleWrite x w f] else []

/-- The statement begins by taking `mutex_`. -/
def Locks (s : WebChatServer κ ι) : ChatOp ι → Prop
  | .updateConnections _ | .broadcast _ | .startForceCloseTimer _ | .handleForceCloseTimeout _ =>
    True
  | .refreshIdleTimer x => (s.conn x).state = .kConnected
  | _ => False

/-- No handler or functor of the loop is running, the timers' callbacks included. -/
def Free (s : WebChatServer κ ι) (k : κ) : Prop :=
  s.threads.running k = [] ∧ (s.queue k).phase = .idle

/-- When a thread can make a step. Functors do not run inside a handler, nor handlers while functors
    do. -/
def Ready (s : WebChatServer κ ι) : ChatStep κ ι → Prop
  | .connectEstablished x => s.Free (s.loop x) ∧ (s.conn x).state = .kConnecting
  | .handleEvent x revents _ _ _ =>
    s.Free (s.loop x) ∧ (s.threads.loops (s.loop x)).functors = [] ∧
      (s.conn x).channel.inEpoll = true ∧ revents.Reportable (s.conn x).channel.events
  | .connectDestroyed x => s.Free (s.loop x) ∧ (s.conn x).state = .kDisconnected
  | .readTimers k _ => s.threads.Idle k
  | .swapFunctors k => s.Free k ∧ (s.threads.loops k).functors = []
  | .nextFunctor k => s.Free k
  | .perform k _ => ∀ op ∈ (s.threads.running k).head?, s.Locks op → s.mutex = none

/-- A step with its reading of the clock, which does not go back. -/
def Enabled (s : WebChatServer κ ι) (l : ℕ × ChatStep κ ι) : Prop :=
  s.clock ≤ l.1 ∧ l.1 < kInt64Max ∧ s.Ready l.2

def execStep (s : WebChatServer κ ι) : ChatStep κ ι → WebChatServer κ ι
  | .connectEstablished x => s.method (s.loop x) x TcpConnection.connectEstablished
  | .handleEvent x revents readv w f => s.call (s.loop x) (dispatch x revents readv w f)
  | .connectDestroyed x => s.method (s.loop x) x TcpConnection.connectDestroyed
  | .readTimers k l => s.readTimers k l
  | .swapFunctors k => { s with threads := s.threads.swapFunctors k }
  | .nextFunctor k => { s with threads := s.threads.nextFunctor ChatFunctor.body k }
  | .perform k w => s.perform k w

def exec (s : WebChatServer κ ι) (l : ℕ × ChatStep κ ι) : WebChatServer κ ι :=
  { s with clock := l.1 }.execStep l.2

def Step (s : WebChatServer κ ι) (l : ℕ × ChatStep κ ι) (s' : WebChatServer κ ι) : Prop :=
  s.Enabled l ∧ s' = s.exec l

instance (phase : ReadPhase) : Decidable (phase = .idle) :=
  match phase with
  | .idle => isTrue rfl
  | .running _ _ _ _ => isFalse (fun h => nomatch h)
  | .rearming _ _ => isFalse (fun h => nomatch h)

instance (s : WebChatServer κ ι) : DecidablePred s.Locks := fun op => by
  cases op <;> unfold Locks <;> infer_instance

instance (s : WebChatServer κ ι) : DecidablePred s.Enabled := fun l => by
  obtain ⟨now, l⟩ := l
  unfold Enabled
  cases l <;> unfold Ready <;> simp only [Free, Threads.Idle] <;> infer_instance

/-- The server before its first connection. -/
structure Fresh (s : WebChatServer κ ι) : Prop where
  conn : ∀ x, (s.conn x).state = .kConnecting ∧ (s.conn x).channel = {} ∧
    (s.conn x).connectionCallback = true ∧ (s.conn x).trace = []
  mutex : s.mutex = none
  connections : s.connections = []
  idleTimers : ∀ x, s.idleTimers x = none
  parsers : ∀ x, s.parsers x = none
  queue : ∀ k, s.queue k = {}
  nextTimerId : ∀ k, s.nextTimerId k = 1
  callback : ∀ k id, s.callback k id = none
  running : ∀ k, s.threads.running k = []
  queued : ∀ k, (s.threads.loops k).queued = []
  clock : s.clock < kInt64Max
  lastActive : ∀ x, s.lastActive x = 0

end WebChatServer

end AegisNet
