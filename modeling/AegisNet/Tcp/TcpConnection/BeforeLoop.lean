import AegisNet.Net.EventLoop.Wakeup
import AegisNet.Tcp.TcpConnection.Watermarks

/-!
# Work queued before the loop

`queueInLoop` leaves the wakeup out on the loop's own thread unless a batch of functors is running.
Between the construction of an `EventLoop` and its `loop()` no batch is running, and no swap comes
before the first `epoll_wait`, which has no timeout. Here the loop's own thread calls into the loop
and into connections of it, and then enters `loop()`; there is no other thread, and no descriptor
becomes ready. On this thread `runInLoop` makes its call at once, and so do the callbacks of
`connectEstablished` and `connectDestroyed`, as further operations.

## Main definitions

- `BeforeLoop` — the loop, and its connections
- `EarlyOp` — what the thread does before `loop()`
- `BeforeLoop.Queues` — which operations queue a functor
- `RunningLoop.NotStranded` — queued work has its wakeup in front of `epoll_wait`

## Main results

- `BeforeLoop.notStranded_iff` — work is stranded exactly if it is queued and `wakeup()` not called
-/

namespace AegisNet

namespace RunningLoop

variable {ι F : Type*} [DecidableEq ι]

/-- `queueInLoop` on the loop's own thread. -/
def queueInLoop (s : RunningLoop ι F) (cb : F) : RunningLoop ι F :=
  (s.exec (.push none cb)).exec (.wakeup none)

/-- `quit` on the loop's own thread. -/
def quitInLoop (s : RunningLoop ι F) : RunningLoop ι F :=
  (s.exec (.setQuit none)).exec (.wakeup none)

/-- The public member `wakeup()`. -/
def wakeup (s : RunningLoop ι F) : RunningLoop ι F :=
  { s with wakeupFd := eventfdWrite s.wakeupFd }

/-- `loop()` as far as the first test of `quit_`. -/
def enter (s : RunningLoop ι F) : RunningLoop ι F :=
  { s with quit := false, phase := .looping }.exec .testQuit

/-- In front of `epoll_wait`, the counter is not zero if functors are queued. -/
def NotStranded (s : RunningLoop ι F) : Prop :=
  s.phase = .polling → s.queues.pendingFunctors ≠ [] → s.wakeupFd ≠ 0

/-- From `s` to `s'` the functors `cbs` are queued, and no wakeup is written. -/
structure Pushed (s s' : RunningLoop ι F) (cbs : List F) : Prop where
  calling : s'.callingPendingFunctors = false
  counter : s'.wakeupFd = s.wakeupFd
  pending : s'.queues.pendingFunctors = s.queues.pendingFunctors ++ cbs

/-- While no batch is running, a push on the loop's own thread comes without its wakeup. -/
theorem Pushed.queueInLoop {s : RunningLoop ι F} (h : s.callingPendingFunctors = false) (cb : F) :
    s.Pushed (s.queueInLoop cb) [cb] where
  calling := h
  counter := by
    simp [RunningLoop.queueInLoop, exec, needsWakeup, setThread, h]
  pending := rfl

theorem Pushed.quitInLoop {s : RunningLoop ι F} (h : s.callingPendingFunctors = false) :
    s.Pushed s.quitInLoop [] where
  calling := h
  counter := by simp [RunningLoop.quitInLoop, exec, needsWakeup, setThread]
  pending := (List.append_nil _).symm

theorem Pushed.foldl {G : Type*} {s : RunningLoop ι F} (h : s.callingPendingFunctors = false)
    (g : G → F) (cbs : List G) :
    s.Pushed (cbs.foldl (fun loop cb => loop.queueInLoop (g cb)) s) (cbs.map g) := by
  induction cbs generalizing s with
  | nil => exact ⟨h, rfl, (List.append_nil _).symm⟩
  | cons cb cbs ih =>
    have hfirst := Pushed.queueInLoop h (g cb)
    have hrest := ih hfirst.calling
    refine ⟨hrest.calling, hrest.counter.trans hfirst.counter, ?_⟩
    rw [List.foldl_cons, hrest.pending, hfirst.pending, List.append_assoc]
    rfl

end RunningLoop

/-- The kernel takes all `len` bytes of a direct write. -/
def IoResult.writesAll (w : IoResult) (len : ℕ) : Bool :=
  match w with
  | .upTo n => len ≤ n
  | .error _ => false

namespace TcpConnection

/-- `sendInLoop` writes at once. -/
def Direct (c : TcpConnection) : Prop :=
  c.channel.isWriting = false ∧ c.outputBuffer.readableBytes = 0

instance (c : TcpConnection) : Decidable c.Direct := inferInstanceAs (Decidable (_ ∧ _))

/-- The bytes of a message that `sendInLoop` leaves to the buffer. -/
def leftOver (c : TcpConnection) (buf : Bytes) (w : IoResult) : ℕ :=
  if c.Direct then
    match w with
    | .upTo n => buf.length - n
    | .error _ => if w.isFault then 0 else buf.length
  else buf.length

/-- `send` queues `writeCompleteCallback_` or `highWaterMarkCallback_`. -/
def SendQueues (c : TcpConnection) (buf : Bytes) (w : IoResult) : Prop :=
  c.state = .kConnected ∧
    (c.Direct ∧ w.writesAll buf.length = true ∧ c.writeCompleteCallback = true ∨
      0 < c.leftOver buf w ∧ c.aboveHighWaterMark = false ∧
        c.highWaterMark ≤ c.outputBuffer.readableBytes + c.leftOver buf w ∧
        c.highWaterMarkCallback = true)

/-- A public call queues a functor. -/
def CallQueues (c : TcpConnection) : Call → Prop
  | .send buf w => c.SendQueues buf w
  | .forceClose => c.state = .kConnected ∨ c.state = .kDisconnecting
  | .sendFile _ _ => False
  | .shutdown => False

end TcpConnection

/-- What the loop's own thread does before `loop()`: calls into the loop, and on its connections,
    which have `κ` as their names. -/
inductive EarlyOp (κ F : Type*)
  | queueInLoop (cb : F)
  | quit
  | wakeup
  | setWriteCompleteCallback (conn : κ) (set : Bool)
  | setOutputBufferWatermarks (conn : κ) (lowWaterMark highWaterMark : ℕ)
      (lowCallback highCallback : Bool)
  | connectEstablished (conn : κ)
  | call (conn : κ) (call : TcpConnection.Call)
  | connectDestroyed (conn : κ)

/-- A loop that is not running yet and its connections. A functor of the queue is one of the user or
    one of a connection. -/
structure BeforeLoop (κ F : Type*) where
  loop : RunningLoop Empty (F ⊕ κ × Functor) := {}
  connections : κ → TcpConnection

namespace TcpConnection

/-! ## What a call queues -/

theorem pendingFunctors_queueIf (c : TcpConnection) (set : Bool) (f : Functor) :
    (c.queueIf set f).loop.pendingFunctors =
      c.loop.pendingFunctors ++ if set = true then [f] else [] := by
  cases set
  · exact (List.append_nil _).symm
  · rfl

theorem pendingFunctors_raise (c : TcpConnection) :
    c.raise.loop.pendingFunctors = [] ↔ c.loop.pendingFunctors = [] ∧
      ¬ (c.aboveHighWaterMark = false ∧ c.highWaterMark ≤ c.queuedBytes ∧
        c.highWaterMarkCallback = true) := by
  unfold raise
  split
  next h =>
    simp only [Bool.and_eq_true, Bool.not_eq_true', decide_eq_true_eq] at h
    rw [pendingFunctors_queueIf]
    cases hset : c.highWaterMarkCallback <;> simp [h]
  next h =>
    simp only [Bool.and_eq_true, Bool.not_eq_true', decide_eq_true_eq] at h
    have hnot : ¬ (c.aboveHighWaterMark = false ∧ c.highWaterMark ≤ c.queuedBytes ∧
        c.highWaterMarkCallback = true) := fun hq => h ⟨hq.1, hq.2.1⟩
    simp only [hnot, not_false_eq_true, and_true]

theorem pendingFunctors_bufferRemaining (c : TcpConnection) (remaining : Bytes) :
    (c.bufferRemaining remaining).loop.pendingFunctors = [] ↔ c.loop.pendingFunctors = [] ∧
      ¬ (c.aboveHighWaterMark = false ∧
        c.highWaterMark ≤ c.outputBuffer.readableBytes + remaining.length ∧
        c.highWaterMarkCallback = true) := by
  have hlen : ({ c with outputBuffer := c.outputBuffer.append remaining } : TcpConnection).queuedBytes =
      c.outputBuffer.readableBytes + remaining.length := by
    simp only [queuedBytes, ← Buffer.length_readable, Buffer.readable_append, List.length_append]
  have hraise := pendingFunctors_raise { c with outputBuffer := c.outputBuffer.append remaining }
  rw [hlen] at hraise
  rw [bufferRemaining_eq_raise]
  dsimp only
  split <;> exact hraise

/-- The direct write queues a callback exactly where it takes the whole message, and it leaves the
    rest to the buffer. -/
theorem directWrite_queues (c : TcpConnection) (message : Bytes) (w : IoResult) :
    ((c.directWrite message w).1.loop.pendingFunctors = [] ↔ c.loop.pendingFunctors = [] ∧
      ¬ (c.Direct ∧ w.writesAll message.length = true ∧ c.writeCompleteCallback = true)) ∧
    c.leftOver message w =
      if (c.directWrite message w).2.2 = true then 0
      else message.length - (c.directWrite message w).2.1 := by
  unfold directWrite leftOver
  by_cases hd : c.Direct
  · have hcond : (!c.channel.isWriting && c.outputBuffer.readableBytes == 0) = true := by
      simp [hd.1, hd.2]
    simp only [hcond, hd, if_true, true_and]
    cases w with
    | upTo n =>
      have hall : (message.length - min n message.length == 0) =
          (IoResult.upTo n).writesAll message.length := by
        rw [IoResult.writesAll, Bool.eq_iff_iff, beq_iff_eq, decide_eq_true_iff]
        omega
      dsimp only
      refine ⟨?_, ?_⟩
      · rw [pendingFunctors_queueIf, hall]
        cases c.writeCompleteCallback <;>
          cases (IoResult.upTo n).writesAll message.length <;> simp [emit]
      · rw [if_neg Bool.false_ne_true]
        omega
    | error errno => cases errno <;> simp [IoResult.isFault, IoResult.writesAll]
  · have hcond : (!c.channel.isWriting && c.outputBuffer.readableBytes == 0) = false := by
      simpa [Direct] using hd
    simp [hcond, hd]

theorem pendingFunctors_send {c : TcpConnection} (h : c.loop.pendingFunctors = []) (buf : Bytes)
    (w : IoResult) : (c.send buf w).loop.pendingFunctors = [] ↔ ¬ c.SendQueues buf w := by
  unfold send SendQueues
  by_cases hc : c.state = .kConnected
  swap
  · simp [hc, h]
  · obtain ⟨hdirect, hrest⟩ := c.directWrite_queues buf w
    obtain ⟨hsame, hbytes⟩ := c.sameMarks_directWrite buf w
    have hhigh : (c.directWrite buf w).1.highWaterMarkCallback = c.highWaterMarkCallback :=
      congrFun hsame.notifies (.high 0)
    rw [if_pos hc, sendInLoop, if_neg (by simp [hc])]
    dsimp only
    generalize c.directWrite buf w = r at *
    split
    next hleft =>
      simp only [Bool.and_eq_true, Bool.not_eq_true', decide_eq_true_eq] at hleft
      rw [hleft.1, if_neg Bool.false_ne_true] at hrest
      have hlen : (buf.drop r.2.1).length = c.leftOver buf w := by
        rw [List.length_drop, hrest]
      have hpos : 0 < c.leftOver buf w := by
        rw [hrest]
        exact hleft.2
      have hreadable : r.1.outputBuffer.readableBytes = c.outputBuffer.readableBytes := hbytes
      rw [pendingFunctors_bufferRemaining, hlen, hdirect, hsame.above, hsame.highWaterMark, hhigh,
        hreadable]
      simp only [h, hc, hpos, true_and, not_or]
    next hleft =>
      have hzero : c.leftOver buf w = 0 := by
        rw [hrest]
        split
        · rfl
        · next hfault =>
          simp only [Bool.and_eq_true, Bool.not_eq_true', decide_eq_true_eq, not_and] at hleft
          exact Nat.eq_zero_of_not_pos (hleft (by simpa using hfault))
      rw [hdirect]
      simp only [h, hc, hzero, Nat.lt_irrefl, false_and, or_false, true_and]

theorem pendingFunctors_call {c : TcpConnection} (h : c.loop.pendingFunctors = []) (k : Call) :
    (c.call k).loop.pendingFunctors = [] ↔ ¬ c.CallQueues k := by
  cases k with
  | send buf w => exact pendingFunctors_send h buf w
  | sendFile file fileSize =>
    have hfile : (c.sendFile file fileSize).loop = c.loop := by
      unfold sendFile
      split
      next hc =>
        rw [sendFileInLoop_eq (by simp [hc])]
      next => rfl
    simp [call, CallQueues, hfile, h]
  | shutdown =>
    have hshut : c.shutdown.loop = c.loop := by
      unfold shutdown shutdownInLoop
      split
      · split <;> rfl
      · rfl
    simp [call, CallQueues, hshut, h]
  | forceClose =>
    show c.forceClose.loop.pendingFunctors = [] ↔
      ¬ (c.state = .kConnected ∨ c.state = .kDisconnecting)
    rw [forceClose]
    split
    next hc => simp [queueIf, EventLoop.queueInLoop, hc]
    next hc => simp only [h, hc, not_false_eq_true]

theorem loop_connectEstablished (c : TcpConnection) : c.connectEstablished.loop = c.loop := rfl

theorem loop_connectDestroyed (c : TcpConnection) : c.connectDestroyed.loop = c.loop := by
  unfold connectDestroyed
  dsimp only
  split <;> rfl

end TcpConnection

namespace BeforeLoop

variable {κ F : Type*} [DecidableEq κ]

/-- A member of one connection, whose functors go to the queue of the loop. -/
def onConnection (s : BeforeLoop κ F) (conn : κ) (f : TcpConnection → TcpConnection) :
    BeforeLoop κ F :=
  let c := f { s.connections conn with loop := {} }
  { loop := c.loop.pendingFunctors.foldl (fun loop cb => loop.queueInLoop (.inr (conn, cb))) s.loop
    connections := Function.update s.connections conn c }

def exec (s : BeforeLoop κ F) : EarlyOp κ F → BeforeLoop κ F
  | .queueInLoop cb => { s with loop := s.loop.queueInLoop (.inl cb) }
  | .quit => { s with loop := s.loop.quitInLoop }
  | .wakeup => { s with loop := s.loop.wakeup }
  | .setWriteCompleteCallback conn set =>
    s.onConnection conn fun c => { c with writeCompleteCallback := set }
  | .setOutputBufferWatermarks conn lowWaterMark highWaterMark lowCallback highCallback =>
    s.onConnection conn fun c => { c with
      lowWaterMark := lowWaterMark
      highWaterMark := highWaterMark
      lowWaterMarkCallback := lowCallback
      highWaterMarkCallback := highCallback }
  | .connectEstablished conn => s.onConnection conn TcpConnection.connectEstablished
  | .call conn call => s.onConnection conn fun c => c.call call
  | .connectDestroyed conn => s.onConnection conn TcpConnection.connectDestroyed

/-- Some operations on a new loop with the given connections. -/
def after (connections : κ → TcpConnection) (ops : List (EarlyOp κ F)) : BeforeLoop κ F :=
  ops.foldl exec { connections := connections }

/-- An operation queues a functor. -/
def Queues (s : BeforeLoop κ F) : EarlyOp κ F → Prop
  | .queueInLoop _ => True
  | .call conn call => (s.connections conn).CallQueues call
  | _ => False

/-! ## The queue and the counter -/

theorem pushed_onConnection {s : BeforeLoop κ F} (h : s.loop.callingPendingFunctors = false)
    (conn : κ) (f : TcpConnection → TcpConnection) {Q : Prop}
    (hf : (f { s.connections conn with loop := {} }).loop.pendingFunctors = [] ↔ ¬ Q) :
    ∃ cbs, s.loop.Pushed (s.onConnection conn f).loop cbs ∧ (cbs = [] ↔ ¬ Q) :=
  ⟨_, RunningLoop.Pushed.foldl h _ _, List.map_eq_nil_iff.trans hf⟩

/-- The effect of an operation other than `wakeup()` on the loop. -/
theorem pushed_exec {s : BeforeLoop κ F} (h : s.loop.callingPendingFunctors = false)
    {op : EarlyOp κ F} (hop : op ≠ .wakeup) :
    ∃ cbs, s.loop.Pushed (s.exec op).loop cbs ∧ (cbs = [] ↔ ¬ s.Queues op) := by
  cases op with
  | queueInLoop cb => exact ⟨[.inl cb], .queueInLoop h _, by simp [Queues]⟩
  | quit => exact ⟨[], .quitInLoop h, by simp [Queues]⟩
  | wakeup => exact absurd rfl hop
  | setWriteCompleteCallback conn set =>
    exact pushed_onConnection h conn _ (by simp [Queues])
  | setOutputBufferWatermarks conn low high lowCallback highCallback =>
    exact pushed_onConnection h conn _ (by simp [Queues])
  | connectEstablished conn =>
    refine pushed_onConnection h conn _ ?_
    rw [TcpConnection.loop_connectEstablished]
    simp [Queues]
  | call conn k =>
    refine pushed_onConnection h conn _ ((TcpConnection.pendingFunctors_call rfl k).trans ?_)
    cases k <;> exact Iff.rfl
  | connectDestroyed conn =>
    refine pushed_onConnection h conn _ ?_
    rw [TcpConnection.loop_connectDestroyed]
    simp [Queues]

/-- The effect of an operation on the queue. -/
theorem pendingFunctors_exec {s : BeforeLoop κ F} (h : s.loop.callingPendingFunctors = false)
    (op : EarlyOp κ F) :
    (s.exec op).loop.callingPendingFunctors = false ∧
      ∃ cbs, (s.exec op).loop.queues.pendingFunctors = s.loop.queues.pendingFunctors ++ cbs ∧
        (cbs = [] ↔ ¬ s.Queues op) := by
  by_cases hop : op = .wakeup
  · subst hop
    exact ⟨h, [], (List.append_nil _).symm, by simp [Queues]⟩
  · obtain ⟨cbs, hpushed, hcbs⟩ := pushed_exec h hop
    exact ⟨hpushed.calling, cbs, hpushed.pending, hcbs⟩

/-- What is queued stays queued. -/
theorem pendingFunctors_foldl {s : BeforeLoop κ F} (h : s.loop.callingPendingFunctors = false)
    (ops : List (EarlyOp κ F)) :
    s.loop.queues.pendingFunctors <+: (ops.foldl exec s).loop.queues.pendingFunctors := by
  induction ops generalizing s with
  | nil => exact List.prefix_rfl
  | cons op ops ih =>
    obtain ⟨hcalling, cbs, hpending, -⟩ := pendingFunctors_exec h op
    exact (hpending ▸ List.prefix_append _ cbs).trans (ih hcalling)

/-- No batch is running, and the counter is zero until `wakeup()` is called. -/
theorem wakeupFd_after (connections : κ → TcpConnection) (ops : List (EarlyOp κ F)) :
    (after connections ops).loop.callingPendingFunctors = false ∧
      ((after connections ops).loop.wakeupFd ≠ 0 ↔ .wakeup ∈ ops) := by
  have hrun := Run.foldl exec { connections := connections : BeforeLoop κ F } ops
  refine hrun.history (P := fun ops s => s.loop.callingPendingFunctors = false ∧
    (s.loop.wakeupFd ≠ 0 ↔ EarlyOp.wakeup ∈ ops)) ⟨rfl, by simp⟩ ?_
  rintro ls op s _ - ⟨hcalling, hcounter⟩ rfl
  by_cases hop : op = .wakeup
  · subst hop
    exact ⟨hcalling, by simp [exec, RunningLoop.wakeup, eventfdWrite_ne_zero]⟩
  · obtain ⟨cbs, hpushed, -⟩ := pushed_exec hcalling hop
    refine ⟨hpushed.calling, ?_⟩
    rw [hpushed.counter, hcounter, List.mem_append, List.mem_singleton]
    exact (or_iff_left fun heq => hop heq.symm).symm

/-- The queue is empty exactly if no operation has queued a functor. -/
theorem pendingFunctors_after (connections : κ → TcpConnection) (ops : List (EarlyOp κ F)) :
    (after connections ops).loop.queues.pendingFunctors = [] ↔
      Run.Allowed exec (fun s op => ¬ s.Queues op) { connections := connections } ops := by
  rw [Run.allowed_iff (P := fun s : BeforeLoop κ F => s.loop.callingPendingFunctors = false ∧
    s.loop.queues.pendingFunctors = []) ?_ ⟨rfl, rfl⟩]
  · constructor
    · rintro hempty ms ⟨ls, rfl⟩
      have hcalling := (wakeupFd_after connections ms).1
      have hstays := pendingFunctors_foldl hcalling ls
      have hall : after connections (ms ++ ls) = ls.foldl exec (after connections ms) :=
        List.foldl_append
      rw [← hall, hempty] at hstays
      exact ⟨hcalling, List.prefix_nil.mp hstays⟩
    · intro hall
      exact (hall ops List.prefix_rfl).2
  · rintro s op ⟨hcalling, hempty⟩
    obtain ⟨hcalling', cbs, hpending, hcbs⟩ := pendingFunctors_exec hcalling op
    rw [hpending, hempty, List.nil_append, hcbs]
    exact and_iff_right hcalling'

/-- **Work queued before the loop.** `loop()` reaches `epoll_wait` whatever was done before it, and
    then queued work has its wakeup exactly if `wakeup()` was called or nothing was queued. -/
theorem notStranded_iff (connections : κ → TcpConnection) (ops : List (EarlyOp κ F)) :
    (after connections ops).loop.enter.phase = .polling ∧
      ((after connections ops).loop.enter.NotStranded ↔
        .wakeup ∈ ops ∨
          Run.Allowed exec (fun s op => ¬ s.Queues op) { connections := connections } ops) := by
  refine ⟨rfl, ?_⟩
  rw [← (wakeupFd_after connections ops).2, ← pendingFunctors_after, or_comm]
  constructor
  · intro h
    exact or_iff_not_imp_left.mpr (h rfl)
  · intro h _ hpending
    exact h.resolve_left hpending

/-- A functor that is queued on the loop's own thread, the write-complete callback of a message that
    is written whole, and a `forceClose` are all stranded. -/
theorem stranded :
    let blocked := fun ops : List (EarlyOp Unit Unit) =>
      ¬ (after (fun _ => {}) ops).loop.enter.NotStranded
    blocked [.queueInLoop ()] ∧
      blocked [.setWriteCompleteCallback () true, .connectEstablished (),
        .call () (.send [0x70] (.upTo 1))] ∧
      blocked [.connectEstablished (), .call () .forceClose] := by
  refine ⟨fun h => ?_, fun h => ?_, fun h => ?_⟩ <;> exact h rfl (by decide) rfl

end BeforeLoop

end AegisNet
