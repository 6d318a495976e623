import AegisNet.Tcp.TcpServer.Removal

/-!
# The destructor of the server

`~TcpServer` runs on the base loop thread while the worker loops go on. Its body gives each
connection of the map callbacks that do nothing and passes `connectDestroyed` to its loop; then the
members are destroyed, of which `threadPool_` quits and joins one worker after the other. A worker
leaves its loop at the test of `quit_`, and the functors in its queue are gone with it. The base
loop goes on: what a close has queued there still runs, and finds `connections_` gone.

## Main definitions

- `OwnedServer` — the server with its destructor, and the loops as `EventLoop::loop` runs them
- `DestructorStep`, `OwnedServer.exec` — the steps of the threads
- `OwnedServer.Careful` — no close under way is cut off, and no worker drops a `connectDestroyed`
- `OwnedServer.Over` — the destructor has returned, and the base loop has run what was left
-/

namespace AegisNet

/-- Where a thread is in `EventLoop::loop`. -/
inductive LoopStage
  /-- in front of `while (!quit_)` -/
  | testing
  /-- in `poll` and the handlers -/
  | dispatching
  /-- in `doPendingFunctors` -/
  | batch
  deriving DecidableEq, Repr

/-- The server and its destructor. -/
structure OwnedServer (κ : Type*) where
  server : TcpServer κ
  stage : κ → LoopStage := fun _ => .testing
  /-- `quit_` of each loop -/
  quit : κ → Bool := fun _ => false
  /-- The thread has left `loop()`, and its loop is destroyed. -/
  left : κ → Bool := fun _ => false
  /-- `thread_.join()` has returned. -/
  joined : κ → Bool := fun _ => false
  /-- `~TcpServer` has been called. -/
  begun : Bool := false
  /-- The rounds of its loop that are left. -/
  items : List ConnId := []
  /-- What is left of `threadPool_->threads_`. -/
  pool : List κ := []
  /-- The functors passed to a loop whose thread had been joined. -/
  lateSubmits : List (ServerOp × κ) := []

inductive DestructorStep (κ : Type*)
  /-- A step of the loops as it was before. -/
  | server (l : ServerStep κ)
  | testQuit (k : κ)
  /-- The end of `doPendingFunctors`. -/
  | endBatch (k : κ)
  /-- The call of `~TcpServer`, with the connections in the map. -/
  | destroy (items : List ConnId)
  /-- One round of its loop. -/
  | destroyItem
  /-- `loop_->quit()` in `~EventLoopThread` -/
  | quitThread
  /-- `thread_.join()` returns. -/
  | joinThread
  deriving DecidableEq, Repr

/-- Callbacks that do nothing, as if none were set. -/
def TcpConnection.disarm (c : TcpConnection) : TcpConnection :=
  { c with
    connectionCallback := false
    messageCallback := false
    closeCallback := false }

def ServerFunctor.isDestroyed : ServerFunctor → Bool
  | connectDestroyed _ => true
  | _ => false

namespace ServerOp

def isErase : ServerOp → Bool
  | erase _ => true
  | _ => false

end ServerOp

namespace OwnedServer

variable {κ : Type*} [DecidableEq κ]

/-- The connections in the map. -/
def entries (s : OwnedServer κ) : List ConnId :=
  (List.range s.server.nextConnId).filter fun n =>
    (s.server.accepted n).any fun c => s.server.connections c.name = some n

/-- The destructor is running. -/
def Destroying (s : OwnedServer κ) : Prop := s.items ≠ [] ∨ s.pool ≠ []

instance (s : OwnedServer κ) : Decidable s.Destroying :=
  inferInstanceAs (Decidable (_ ∨ _))

/-- The thread of `k` runs its loop: it has not left it, and is not in the destructor. -/
def Free (s : OwnedServer κ) (k : κ) : Prop :=
  s.left k = false ∧ (k = s.server.baseLoop → ¬ s.Destroying)

instance (s : OwnedServer κ) (k : κ) : Decidable (s.Free k) :=
  inferInstanceAs (Decidable (_ ∧ _))

/-- The loop that a statement passes a functor to. -/
def target (s : OwnedServer κ) : ServerOp → Option κ
  | .submitEstablished n | .queueDestroyed n => (s.server.accepted n).map ServedConnection.loop
  | .submitClosed _ => some s.server.baseLoop
  | _ => none

/-- The thread of `k` makes its next statement. A functor for a loop that is gone is lost; and
    `connections.lock()` fails when the map is gone. -/
def perform (s : OwnedServer κ) (k : κ) : OwnedServer κ :=
  match s.server.threads.running k with
  | [] => s
  | op :: rest =>
    match s.target op with
    | some loop =>
      if s.joined loop then
        { s with
          server := s.server.advance k rest
          lateSubmits := s.lateSubmits ++ [(op, loop)] }
      else { s with server := s.server.perform k }
    | none =>
      if s.begun && op.isErase then { s with server := s.server.advance k rest }
      else { s with server := s.server.perform k }

/-- `quit_` is set: the thread ends, and its loop is destroyed with its queue. -/
def leave (s : OwnedServer κ) (k : κ) : OwnedServer κ :=
  { s with
    server :=
      { s.server with
        threads :=
          { s.server.threads with loops := Function.update s.server.threads.loops k {} } }
    left := Function.update s.left k true }

/-- `item.second.reset()` and the setters. -/
def disarm (s : TcpServer κ) (n : ConnId) (c : ServedConnection κ) : TcpServer κ :=
  { s with
    connections := Function.update s.connections c.name none
    accepted := Function.update s.accepted n (some { c with conn := c.conn.disarm }) }

/-- A round of the loop of `~TcpServer`, for the connection `n`. -/
def destroyItem (s : OwnedServer κ) (n : ConnId) (items : List ConnId) : OwnedServer κ :=
  match s.server.accepted n with
  | none => { s with items := items }
  | some c =>
    if s.joined c.loop then
      { s with
        server := disarm s.server n c
        items := items
        lateSubmits := s.lateSubmits ++ [(.connectDestroyed n, c.loop)] }
    else
      { s with
        server := (disarm s.server n c).runInLoop s.server.baseLoop c.loop (.connectDestroyed n)
        items := items }

def exec (s : OwnedServer κ) : DestructorStep κ → OwnedServer κ
  | .server l =>
    match l with
    | .perform k => s.perform k
    | .swapFunctors k =>
      { s with
        server := s.server.exec l
        stage := Function.update s.stage k .batch }
    | _ => { s with server := s.server.exec l }
  | .testQuit k =>
    if s.quit k then s.leave k else { s with stage := Function.update s.stage k .dispatching }
  | .endBatch k => { s with stage := Function.update s.stage k .testing }
  | .destroy items => { s with begun := true, items := items, pool := s.server.workers }
  | .destroyItem =>
    match s.items with
    | [] => s
    | n :: items => s.destroyItem n items
  | .quitThread =>
    match s.pool with
    | [] => s
    | k :: _ => { s with quit := Function.update s.quit k true }
  | .joinThread =>
    match s.pool with
    | [] => s
    | k :: pool => { s with joined := Function.update s.joined k true, pool := pool }

/-- What a step of the loops needs beyond what it needed before. -/
def Runs (s : OwnedServer κ) : ServerStep κ → Prop
  | .newConnection => s.begun = false ∧ s.stage s.server.baseLoop = .dispatching
  | .handleEvent n _ _ _ _ _ =>
    ∃ c ∈ s.server.accepted n, s.Free c.loop ∧ s.stage c.loop = .dispatching
  | .call n _ => ∃ c ∈ s.server.accepted n, s.Free c.loop
  | .swapFunctors k => s.Free k ∧ s.stage k = .dispatching
  | .nextFunctor k => s.Free k ∧ s.stage k = .batch
  -- on the base loop thread also what `runInLoop` runs at once in the destructor
  | .perform k => s.left k = false

instance (s : OwnedServer κ) : DecidablePred s.Runs
  | .newConnection => inferInstanceAs (Decidable (_ ∧ _))
  | .handleEvent _ _ _ _ _ _ => inferInstanceAs (Decidable (∃ c ∈ s.server.accepted _, _ ∧ _))
  | .call _ _ => inferInstanceAs (Decidable (∃ c ∈ s.server.accepted _, s.Free _))
  | .swapFunctors _ | .nextFunctor _ => inferInstanceAs (Decidable (_ ∧ _))
  | .perform _ => inferInstanceAs (Decidable (_ = _))

/-- The statements of the destructor are made one after the other, in the middle of no other
    statement of the base loop thread. The loop of the body goes through the map in some order. -/
def Enabled (s : OwnedServer κ) : DestructorStep κ → Prop
  | .server l => s.server.Enabled l ∧ s.Runs l
  | .testQuit k => s.Free k ∧ s.stage k = .testing ∧ s.server.threads.Idle k
  | .endBatch k => s.Free k ∧ s.stage k = .batch ∧ s.server.threads.Idle k
  | .destroy items =>
    s.begun = false ∧ s.server.threads.running s.server.baseLoop = [] ∧ items.Perm s.entries
  | .destroyItem => s.items ≠ [] ∧ s.server.threads.running s.server.baseLoop = []
  | .quitThread =>
    s.items = [] ∧ s.server.threads.running s.server.baseLoop = [] ∧
      ∃ k ∈ s.pool.head?, s.quit k = false
  | .joinThread =>
    s.items = [] ∧ s.server.threads.running s.server.baseLoop = [] ∧
      ∃ k ∈ s.pool.head?, s.quit k = true ∧ s.left k = true

instance (s : OwnedServer κ) : DecidablePred s.Enabled := fun l => by
  cases l <;> unfold Enabled Threads.Idle <;> infer_instance

def Step (s : OwnedServer κ) (l : DestructorStep κ) (s' : OwnedServer κ) : Prop :=
  s.Enabled l ∧ s' = s.exec l

/-- The body of the destructor finds the connection open or not yet established, and a worker that
    leaves has run the `connectDestroyed` of the connections that it established. -/
def Careful (s : OwnedServer κ) : DestructorStep κ → Prop
  | .destroyItem =>
    ∀ n ∈ s.items.head?, ∀ c ∈ s.server.accepted n, c.conn.state ≠ .kDisconnected
  | .testQuit k =>
    s.quit k = true → ∀ cb ∈ (s.server.threads.loops k).queued, cb.isDestroyed →
      .connectEstablished cb.conn ∈ (s.server.threads.loops k).queued
  | _ => True

instance (s : OwnedServer κ) : DecidablePred s.Careful := fun l => by
  cases l <;> unfold Careful <;> infer_instance

/-- The destructor has returned, and the base loop has run everything that was left for it. -/
def Over (s : OwnedServer κ) : Prop :=
  s.begun = true ∧ ¬ s.Destroying ∧
    s.server.threads.todo ServerFunctor.body s.server.baseLoop = []

instance (s : OwnedServer κ) : Decidable s.Over :=
  inferInstanceAs (Decidable (_ ∧ _ ∧ _))

/-- How often `connectDestroyed` has run for connection `n`. -/
def destroyed (s : OwnedServer κ) (n : ConnId) : ℕ :=
  ((s.server.history n).map Prod.snd).count .connectDestroyed

/-- A started server before its first connection. The loops of the pool are its own. -/
structure Started (s : OwnedServer κ) : Prop where
  fresh : s.server.Fresh
  baseLoop_notMem : s.server.baseLoop ∉ s.server.workers
  quit : ∀ k, s.quit k = false
  left : ∀ k, s.left k = false
  joined : ∀ k, s.joined k = false
  begun : s.begun = false
  items : s.items = []
  pool : s.pool = []
  lateSubmits : s.lateSubmits = []

end OwnedServer

end AegisNet
