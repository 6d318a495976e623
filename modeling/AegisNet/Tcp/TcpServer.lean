import AegisNet.Lib.Run
import AegisNet.Net.EventLoop.Threads
import AegisNet.Net.InetAddress
import AegisNet.Tcp.TcpConnection.Closing
import Mathlib.Algebra.Group.Nat.Defs

/-!
# The server

`src/tcp/TcpServer.{h,cpp}` with its loops. The base loop accepts connections and owns the map; a
connection lives on a worker loop, or on the base loop when there are no workers. Its end takes
three hops: `handleClose` on its own loop, the functor of the close callback on the base loop, and
`connectDestroyed` on its own loop again.

## Main definitions

- `ServerFunctor`, `ServerOp` — the functors in the loops, and the statements that they consist of
- `TcpServer` — the members of the class, the connections made, and the loops
- `TcpServer.newConnection`, `TcpServer.perform` — what the threads do
- `ServerStep`, `TcpServer.exec` — the steps of the loops
-/

namespace AegisNet

/-- The number in a connection's name stands for a pointer to the connection. -/
abbrev ConnId := ℕ

/-- The functors that are passed to a loop. -/
inductive ServerFunctor
  | connectEstablished (conn : ConnId)
  /-- The functor of the close callback. -/
  | closed (closed : ConnId)
  | connectDestroyed (closed : ConnId)
  /-- A functor that the connection itself queues. -/
  | bound (conn : ConnId) (f : Functor)
  deriving DecidableEq, Repr

/-- The connection that a functor holds. -/
def ServerFunctor.conn : ServerFunctor → ConnId
  | connectEstablished n | closed n | connectDestroyed n | bound n _ => n

/-- The statements in `newConnection`, in the close callback and in the functors. -/
inductive ServerOp
  /-- `ioLoop->runInLoop(std::bind(&TcpConnection::connectEstablished, conn))` -/
  | submitEstablished (conn : ConnId)
  | connectEstablished (conn : ConnId)
  /-- `baseLoop->runInLoop(…)` -/
  | submitClosed (closed : ConnId)
  /-- `activeConnections->erase(closed->name())` -/
  | erase (closed : ConnId)
  /-- `closed->getLoop()->queueInLoop(…)` -/
  | queueDestroyed (closed : ConnId)
  | connectDestroyed (closed : ConnId)
  | runBound (conn : ConnId) (f : Functor)
  deriving DecidableEq, Repr

def ServerFunctor.body : ServerFunctor → List ServerOp
  | connectEstablished n => [.connectEstablished n]
  | closed n => [.erase n, .queueDestroyed n]
  | connectDestroyed n => [.connectDestroyed n]
  | bound n f => [.runBound n f]

/-- The statement belongs to a functor, which holds the connection while it runs. -/
def ServerOp.Holds (n : ConnId) : ServerOp → Prop
  | submitEstablished _ | submitClosed _ => False
  | connectEstablished m | erase m | queueDestroyed m | connectDestroyed m | runBound m _ => m = n

/-- What happens to a connection once. -/
inductive LifeEvent
  | connectEstablished
  /-- `handleClose`, unless it returns at once -/
  | handleClose
  | erase
  | connectDestroyed
  deriving DecidableEq, Repr

/-- A connection that the server made. -/
structure ServedConnection (κ : Type*) where
  name : String
  loop : κ
  conn : TcpConnection

/-- The members of the C++ class. -/
structure TcpServer (κ : Type*) where
  /-- `loop_` -/
  baseLoop : κ
  /-- `threadPool_->loops_` -/
  workers : List κ
  /-- `threadPool_->next_` -/
  next : ℕ := 0
  listenAddr : InetAddress
  name : String
  connectionCallback : Bool := false
  messageCallback : Bool := false
  writeCompleteCallback : Bool := false
  nextConnId : ℕ := 1
  connections : String → Option ConnId := fun _ => none
  /-- The connections behind the pointers. -/
  accepted : ConnId → Option (ServedConnection κ) := fun _ => none
  threads : Threads κ ServerFunctor ServerOp := {}
  /-- What ran on which thread, oldest first. -/
  log : List (ConnId × κ × LifeEvent) := []

/-! ## Names -/

/-- `snprintf` into a buffer of 64 bytes, the last of which ends the string. -/
def snprintf64 (s : String) : String := String.ofList (s.toList.take 63)

/-- `name_ + buf` after `snprintf(buf, sizeof buf, "-%s#%d", ipPort_.c_str(), nextConnId_)`. -/
def connName (name : String) (listenAddr : InetAddress) (connId : ConnId) : String :=
  name ++ snprintf64 ("-" ++ listenAddr.toIpPort ++ "#" ++ connId.repr)

/-- Nothing is cut off, and the numbers differ. -/
theorem connName_inj {name : String} {listenAddr : InetAddress} {m n : ConnId} (hm : m < 2 ^ 31)
    (hn : n < 2 ^ 31) (h : connName name listenAddr m = connName name listenAddr n) : m = n := by
  have hfits : ∀ k < 2 ^ 31, snprintf64 ("-" ++ listenAddr.toIpPort ++ "#" ++ k.repr) =
      "-" ++ listenAddr.toIpPort ++ "#" ++ k.repr := by
    intro k hk
    have hip := listenAddr.length_toIpPort
    have hrepr : k.repr.length ≤ 10 := (Nat.length_repr_le_iff (by omega)).mpr (by omega)
    have hdash : "-".length = 1 := rfl
    have hhash : "#".length = 1 := rfl
    rw [snprintf64, List.take_of_length_le, String.ofList_toList]
    rw [String.length_toList]
    simp only [String.length_append, hdash, hhash]
    omega
  have hdigits : m.repr.toList = n.repr.toList := by
    rw [connName, connName, hfits m hm, hfits n hn] at h
    have hlist := congrArg String.toList h
    simpa only [String.toList_append, List.append_assoc, List.append_cancel_left_eq] using hlist
  rw [Nat.toList_repr, Nat.toList_repr] at hdigits
  rw [← Nat.ofDigitChars_ten_toDigits (n := m), hdigits, Nat.ofDigitChars_ten_toDigits]

namespace TcpServer

variable {κ : Type*} [DecidableEq κ]

/-! ## Functions -/

/-- `EventLoopThreadPool::getNextLoop`: the loop, and `next_` afterwards. -/
def getNextLoop (s : TcpServer κ) : κ × ℕ :=
  if s.workers.isEmpty then (s.baseLoop, s.next)
  else
    (s.workers.getD s.next s.baseLoop,
      if s.workers.length ≤ s.next + 1 then 0 else s.next + 1)

/-- `new TcpConnection(…)` and the setters. -/
def makeConnection (s : TcpServer κ) : TcpConnection where
  connectionCallback := s.connectionCallback
  messageCallback := s.messageCallback
  writeCompleteCallback := s.writeCompleteCallback
  closeCallback := true

def newConnection (s : TcpServer κ) : TcpServer κ :=
  let ioLoop := s.getNextLoop.1
  let connName := connName s.name s.listenAddr s.nextConnId
  { s with
    next := s.getNextLoop.2
    nextConnId := s.nextConnId + 1
    connections := Function.update s.connections connName (some s.nextConnId)
    accepted := Function.update s.accepted s.nextConnId (some ⟨connName, ioLoop, s.makeConnection⟩)
    threads := s.threads.call s.baseLoop [.submitEstablished s.nextConnId] }

theorem accepted_newConnection (s : TcpServer κ) :
    s.newConnection.accepted s.nextConnId = some
      ⟨connName s.name s.listenAddr s.nextConnId, s.getNextLoop.1, s.makeConnection⟩ :=
  Function.update_self ..

theorem accepted_newConnection_of_ne {s : TcpServer κ} {n : ConnId} (h : n ≠ s.nextConnId) :
    s.newConnection.accepted n = s.accepted n :=
  Function.update_of_ne h ..

theorem connections_newConnection (s : TcpServer κ) :
    s.newConnection.connections (connName s.name s.listenAddr s.nextConnId) = some s.nextConnId :=
  Function.update_self ..

theorem connections_newConnection_of_ne {s : TcpServer κ} {name : String}
    (h : name ≠ connName s.name s.listenAddr s.nextConnId) :
    s.newConnection.connections name = s.connections name :=
  Function.update_of_ne h ..

def record (s : TcpServer κ) (n : ConnId) (k : κ) (e : LifeEvent) : TcpServer κ :=
  { s with log := s.log ++ [(n, k, e)] }

/-- The thread of `k` runs a method of connection `n`, which takes it from `c` to `conn`. What the
    connection queued goes to its loop, and the close callback is called as often as it says. -/
def update (s : TcpServer κ) (k : κ) (n : ConnId) (c : ServedConnection κ)
    (conn : TcpConnection) : TcpServer κ :=
  let closes := Race.closes conn - Race.closes c.conn
  { s with
    accepted := Function.update s.accepted n (some { c with conn := { conn with loop := {} } })
    threads :=
      ((conn.loop.pendingFunctors.map (ServerFunctor.bound n)).foldl
        (fun x cb => x.queueInLoop c.loop cb) s.threads).call k
          (List.replicate closes (.submitClosed n))
    log := s.log ++ List.replicate closes (n, k, .handleClose) }

def onConnection (s : TcpServer κ) (k : κ) (n : ConnId) (f : TcpConnection → TcpConnection) :
    TcpServer κ :=
  match s.accepted n with
  | none => s
  | some c => s.update k n c (f c.conn)

theorem onConnection_eq {s : TcpServer κ} {n : ConnId} {c : ServedConnection κ}
    (h : s.accepted n = some c) (k : κ) (f : TcpConnection → TcpConnection) :
    s.onConnection k n f = s.update k n c (f c.conn) := by
  rw [onConnection, h]

/-- `loop->runInLoop(cb)` on the thread of `k`. -/
def runInLoop (s : TcpServer κ) (k loop : κ) (cb : ServerFunctor) : TcpServer κ :=
  { s with threads := s.threads.runInLoop ServerFunctor.body k loop cb }

/-- One statement on the thread of `k`. -/
def execOp (s : TcpServer κ) (k : κ) : ServerOp → TcpServer κ
  | .submitEstablished n =>
    match s.accepted n with
    | none => s
    | some c => s.runInLoop k c.loop (.connectEstablished n)
  | .connectEstablished n =>
    (s.record n k .connectEstablished).onConnection k n TcpConnection.connectEstablished
  | .submitClosed n => s.runInLoop k s.baseLoop (.closed n)
  | .erase n =>
    match s.accepted n with
    | none => s
    | some c =>
      { s.record n k .erase with connections := Function.update s.connections c.name none }
  | .queueDestroyed n =>
    match s.accepted n with
    | none => s
    | some c => { s with threads := s.threads.queueInLoop c.loop (.connectDestroyed n) }
  | .connectDestroyed n =>
    (s.record n k .connectDestroyed).onConnection k n TcpConnection.connectDestroyed
  | .runBound n f => s.onConnection k n fun c => c.runFunctor f

def advance (s : TcpServer κ) (k : κ) (rest : List ServerOp) : TcpServer κ :=
  { s with threads := s.threads.advance k rest }

/-- The thread of `k` makes its next statement. -/
def perform (s : TcpServer κ) (k : κ) : TcpServer κ :=
  match s.threads.running k with
  | [] => s
  | op :: rest => (s.advance k rest).execOp k op

end TcpServer

/-! ## Steps -/

/-- A step of one of the threads. -/
inductive ServerStep (κ : Type*)
  /-- `Acceptor::handleRead` got a connection. -/
  | newConnection
  /-- An event of a connection, with what its handlers get from the kernel and from the user. -/
  | handleEvent (n : ConnId) (revents : EpollEvents) (readv : Option Bytes)
      (calls : List TcpConnection.Call) (w f : IoResult)
  /-- A public call on the connection's own thread, from whichever callback. -/
  | call (n : ConnId) (call : TcpConnection.Call)
  /-- The start of `doPendingFunctors`. -/
  | swapFunctors (k : κ)
  | nextFunctor (k : κ)
  | perform (k : κ)
  deriving DecidableEq, Repr

namespace TcpServer

variable {κ : Type*} [DecidableEq κ]

/-- A handler runs when its thread is in neither a handler nor a functor, and only for a channel
    that is registered. `nextConnId_` is an `int`. -/
def Enabled (s : TcpServer κ) : ServerStep κ → Prop
  | .newConnection => s.threads.Idle s.baseLoop ∧ s.nextConnId < 2 ^ 31
  | .handleEvent n _ _ _ _ _ =>
    ∃ c ∈ s.accepted n, s.threads.Idle c.loop ∧ c.conn.channel.inEpoll = true
  | .call _ _ => True
  | .swapFunctors k => s.threads.Idle k
  | .nextFunctor k => s.threads.running k = []
  | .perform _ => True

instance (s : TcpServer κ) : DecidablePred s.Enabled := fun l => by
  cases l <;> unfold Enabled Threads.Idle <;> infer_instance

/-- A method of connection `n` on its own thread. -/
def onOwnLoop (s : TcpServer κ) (n : ConnId) (f : TcpConnection → TcpConnection) : TcpServer κ :=
  match s.accepted n with
  | none => s
  | some c => s.onConnection c.loop n f

theorem onOwnLoop_eq {s : TcpServer κ} {n : ConnId} {c : ServedConnection κ}
    (h : s.accepted n = some c) (f : TcpConnection → TcpConnection) :
    s.onOwnLoop n f = s.onConnection c.loop n f := by
  rw [onOwnLoop, h]

def exec (s : TcpServer κ) : ServerStep κ → TcpServer κ
  | .newConnection => s.newConnection
  | .handleEvent n revents readv calls w f =>
    s.onOwnLoop n fun c => c.handleEvent revents readv calls w f
  | .call n call => s.onOwnLoop n fun c => c.call call
  | .swapFunctors k => { s with threads := s.threads.swapFunctors k }
  | .nextFunctor k => { s with threads := s.threads.nextFunctor ServerFunctor.body k }
  | .perform k => s.perform k

def Step (s : TcpServer κ) (l : ServerStep κ) (s' : TcpServer κ) : Prop :=
  s.Enabled l ∧ s' = s.exec l

/-- The server as it was constructed, started, and before the first connection. -/
structure Fresh (s : TcpServer κ) : Prop where
  nextConnId : s.nextConnId = 1
  connections : ∀ name, s.connections name = none
  accepted : ∀ n, s.accepted n = none
  running : ∀ k, s.threads.running k = []
  queued : ∀ k, (s.threads.loops k).queued = []
  log : s.log = []

/-! ## What is observed -/

/-- What ran for connection `n`, and where. -/
def history (s : TcpServer κ) (n : ConnId) : List (κ × LifeEvent) :=
  (s.log.filter (fun e => e.1 = n)).map Prod.snd

/-- Something has run for connection `n`. -/
def Ran (s : TcpServer κ) (n : ConnId) (e : LifeEvent) : Prop := ∃ k, (n, k, e) ∈ s.log

/-- Connection `n` is held by the map, by a queued functor, or by a running one. -/
def Held (s : TcpServer κ) (n : ConnId) : Prop :=
  (∃ name, s.connections name = some n) ∨
    (∃ k, ∃ cb ∈ (s.threads.loops k).queued, cb.conn = n) ∨
    ∃ k, ∃ op ∈ s.threads.running k, op.Holds n

end TcpServer

end AegisNet
