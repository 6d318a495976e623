import AegisNet.Pool.EventLoopThreadPool
import AegisNet.Tcp.TcpServer.Ending

/-!
# The start of the server

`TcpServer::start` with `EventLoopThreadPool::start`, `EventLoopThread::startLoop`,
`EventLoopThread::threadFunc` and `Acceptor::listen`. Any thread may call `start`, more than once.
The call that finds `started_` at zero makes the worker threads one by one, and waits on a condition
variable until each has published its loop; then the base loop listens. While this goes on the loops
that run already take their steps, in any order.

## Main definitions

- `StartingServer τ` — the members that the start uses, beside the server of the loops
- `StartingServer.exec`, `StartingServer.Enabled` — the steps
- `StartingServer.withPool` — the server with all the workers that it will have
- `Stage`, `StartingServer.Staged` — how far the start is, and what holds there

## Main results

- `StartingServer.started_once` — the server listens once, and then has the loops of all workers;
  all that its loops do is a run of the server that has had them from the beginning
- `StartingServer.start_completes` — there is no deadlock and no lost wakeup on the way
-/

namespace AegisNet

/-- The members of `TcpServer`, `EventLoopThreadPool` and `Acceptor` that the start uses. The loop of
    worker `i` is `some i`, the base loop is `none`. -/
structure StartingServer (τ : Type*) where
  /-- The thread of the base loop. -/
  baseThread : τ
  numThreads : ℤ
  threadInitCallback : Bool := false
  /-- The calls of `start()`. `started_` has 32 bits of this number. -/
  started : ℕ := 0
  callers : τ → StartPhase := fun _ => .idle
  workers : ℕ → PoolThreadPhase := fun _ => .absent
  /-- The loops that the init callback got, oldest first. -/
  initCalls : List (Option ℕ) := []
  /-- How often `Acceptor::listen` is queued in the base loop. -/
  listenQueued : ℕ := 0
  /-- How often `Acceptor::listen` ran. -/
  listens : ℕ := 0
  /-- `server.workers` is `loops_` of the pool. -/
  server : TcpServer (Option ℕ)

inductive StartStep (τ : Type*)
  /-- `started_++ == 0` -/
  | start (t : τ)
  /-- `i < numThreads_`, and then `new EventLoopThread` and `thread_.start()`, or the end of
      `EventLoopThreadPool::start` -/
  | test (t : τ) (i : ℕ)
  /-- `loop_ == nullptr` under the mutex, and then `cond_.wait`, or `loops_.push_back` -/
  | fetch (t : τ) (i : ℕ)
  /-- `cond_.wait` returns without a notification -/
  | wake (t : τ) (i : ℕ)
  /-- `if (callback_) callback_(&loop)` -/
  | callback (i : ℕ)
  /-- `loop_ = &loop` and `cond_.notify_one()` under the mutex -/
  | publish (i : ℕ)
  /-- the start of `loop.loop()` -/
  | enter (i : ℕ)
  /-- `loop_->runInLoop(std::bind(&Acceptor::listen, acceptor_.get()))` -/
  | submit (t : τ)
  /-- the queued functor -/
  | listen
  | server (l : ServerStep (Option ℕ))
  deriving DecidableEq, Repr

namespace StartStep

variable {τ : Type*}

/-- A step of a loop. -/
def ofLoop : StartStep τ → Option (ServerStep (Option ℕ))
  | server l => some l
  | _ => none

/-- A step that brings the start forward. -/
def ofStart : StartStep τ → Bool
  | start _ | wake _ _ | server _ => false
  | _ => true

def isWake : StartStep τ → Bool
  | wake _ _ => true
  | _ => false

end StartStep

namespace TcpServer

variable {κ : Type*}

/-- The loop whose thread makes the step. -/
def stepLoop (s : TcpServer κ) : ServerStep κ → Option κ
  | .newConnection => some s.baseLoop
  | .handleEvent n _ _ _ _ _ | .call n _ => (s.accepted n).map ServedConnection.loop
  | .swapFunctors k | .nextFunctor k | .perform k => some k

def withWorkers (s : TcpServer κ) (workers : List κ) : TcpServer κ := { s with workers := workers }

end TcpServer

namespace StartingServer

variable {τ : Type*} [DecidableEq τ]

/-! ## Steps -/

def moveCaller (s : StartingServer τ) (t : τ) (p : StartPhase) : StartingServer τ :=
  { s with callers := Function.update s.callers t p }

def moveWorker (s : StartingServer τ) (i : ℕ) (p : PoolThreadPhase) : StartingServer τ :=
  { s with workers := Function.update s.workers i p }

/-- `if (cb) cb(loop)` -/
def callInit (s : StartingServer τ) (loop : Option ℕ) : StartingServer τ :=
  if s.threadInitCallback then { s with initCalls := s.initCalls ++ [loop] } else s

def exec (s : StartingServer τ) : StartStep τ → StartingServer τ
  | .start t =>
    let s' := { s with started := s.started + 1 }
    if s.started % 2 ^ 32 = 0 then s'.moveCaller t (.testing 0) else s'
  | .test t i =>
    if (i : ℤ) < s.numThreads then (s.moveWorker i .constructing).moveCaller t (.fetching i)
    else (if s.numThreads = 0 then s.callInit none else s).moveCaller t .submitting
  | .fetch t i =>
    if (s.workers i).hasLoop then
      { s.moveCaller t (.testing (i + 1)) with
        server := s.server.withWorkers (s.server.workers ++ [some i]) }
    else s.moveCaller t (.waiting i)
  | .wake t i => s.moveCaller t (.fetching i)
  | .callback i => (s.moveWorker i .initialized).callInit (some i)
  | .publish i =>
    -- only one thread ever waits here, so that `notify_one` wakes all that do
    { s.moveWorker i .published with
      callers := fun t => if s.callers t = .waiting i then .fetching i else s.callers t }
  | .enter i => s.moveWorker i .looping
  | .submit t =>
    let s' := s.moveCaller t .idle
    if t = s.baseThread then { s' with listens := s.listens + 1 }
    else { s' with listenQueued := s.listenQueued + 1 }
  | .listen => { s with listenQueued := s.listenQueued - 1, listens := s.listens + 1 }
  | .server l => { s with server := s.server.exec l }

/-- The thread of the loop is in `loop()`. The base loop may also run before and after a call of
    `start` on its thread, but not in the middle of it. -/
def Loops (s : StartingServer τ) : Option ℕ → Prop
  | none => s.callers s.baseThread = .idle
  | some i => s.workers i = .looping

instance (s : StartingServer τ) : DecidablePred s.Loops
  | none => inferInstanceAs (Decidable (_ = _))
  | some _ => inferInstanceAs (Decidable (_ = _))

/-- `started_` is an `int`, and its values come again after `2 ^ 32` calls. -/
def Enabled (s : StartingServer τ) : StartStep τ → Prop
  | .start t => s.callers t = .idle ∧ s.started < 2 ^ 32
  | .test t i => s.callers t = .testing i
  | .fetch t i => s.callers t = .fetching i
  | .wake t i => s.callers t = .waiting i
  | .callback i => s.workers i = .constructing
  | .publish i => s.workers i = .initialized
  | .enter i => s.workers i = .published
  | .submit t => s.callers t = .submitting
  | .listen => 0 < s.listenQueued ∧ s.Loops none ∧ s.server.threads.running none = []
  | .server l =>
    s.server.Enabled l ∧ (l = .newConnection → 0 < s.listens) ∧ ∀ k ∈ s.server.stepLoop l, s.Loops k

instance (s : StartingServer τ) : DecidablePred s.Enabled := fun l => by
  cases l <;> unfold Enabled <;> infer_instance

def Step (s : StartingServer τ) (l : StartStep τ) (s' : StartingServer τ) : Prop :=
  s.Enabled l ∧ s' = s.exec l

/-- The server as it was constructed. -/
structure Fresh (s : StartingServer τ) : Prop where
  started : s.started = 0
  callers : ∀ t, s.callers t = .idle
  workers : ∀ i, s.workers i = .absent
  initCalls : s.initCalls = []
  listenQueued : s.listenQueued = 0
  listens : s.listens = 0
  fresh : s.server.Fresh
  next : s.server.next = 0
  baseLoop : s.server.baseLoop = none
  loops : s.server.workers = []

/-- The loops of the workers that the pool will have. -/
def pool (s : StartingServer τ) : List (Option ℕ) := (List.range s.numThreads.toNat).map some

/-- The server with all the workers that it will have. -/
def withPool (s : StartingServer τ) : TcpServer (Option ℕ) := s.server.withWorkers s.pool

/-- The start is over. -/
structure Complete (s : StartingServer τ) : Prop where
  loops : s.server.workers = s.pool
  published : ∀ i < s.numThreads.toNat, (s.workers i).hasLoop = true
  absent : ∀ i, s.numThreads.toNat ≤ i → s.workers i = .absent
  initCalls : s.initCalls =
    if s.threadInitCallback then if s.numThreads = 0 then [none] else s.pool else []

end StartingServer

/-! ## The server without connections -/

namespace TcpServer

variable {κ : Type*} [DecidableEq κ]

/-- The server has made no connection, and nothing has run in its loops. -/
structure Quiet (s : TcpServer κ) : Prop where
  nextConnId : s.nextConnId = 1
  accepted : ∀ n, s.accepted n = none
  running : ∀ k, s.threads.running k = []
  queued : ∀ k, (s.threads.loops k).queued = []

omit [DecidableEq κ] in
theorem Fresh.quiet {s : TcpServer κ} (h : s.Fresh) : s.Quiet :=
  ⟨h.nextConnId, h.accepted, h.running, h.queued⟩

theorem Quiet.exec {s : TcpServer κ} (h : s.Quiet) {l : ServerStep κ} (hl : l ≠ .newConnection) :
    (s.exec l).Quiet := by
  have hown : ∀ n f, s.onOwnLoop n f = s := fun n f => by rw [onOwnLoop, h.accepted n]
  cases l with
  | newConnection => exact absurd rfl hl
  | handleEvent n revents readv calls w f =>
    show (s.onOwnLoop n _).Quiet
    rwa [hown]
  | call n call =>
    show (s.onOwnLoop n _).Quiet
    rwa [hown]
  | swapFunctors k =>
    have hidle : (s.threads.loops k).functors = [] := (List.append_eq_nil_iff.mp (h.queued k)).1
    refine ⟨h.nextConnId, h.accepted, h.running, fun j => ?_⟩
    by_cases hj : j = k
    · subst hj
      show (Function.update s.threads.loops j _ j).queued = []
      rw [Function.update_self, EventLoop.queued_swapFunctors hidle]
      exact h.queued j
    · show (Function.update s.threads.loops k _ j).queued = []
      rw [Function.update_of_ne hj]
      exact h.queued j
  | nextFunctor k =>
    have hidle : (s.threads.loops k).functors = [] := (List.append_eq_nil_iff.mp (h.queued k)).1
    have hsame : s.threads.nextFunctor ServerFunctor.body k = s.threads := by
      rw [Threads.nextFunctor, hidle]
    show Quiet { s with threads := s.threads.nextFunctor ServerFunctor.body k }
    rwa [hsame]
  | perform k =>
    show (s.perform k).Quiet
    rwa [perform, h.running k]

theorem onConnection_withWorkers (s : TcpServer κ) (workers : List κ) (k : κ) (n : ConnId)
    (f : TcpConnection → TcpConnection) :
    (s.withWorkers workers).onConnection k n f = (s.onConnection k n f).withWorkers workers := by
  cases h : s.accepted n with
  | none => simp only [onConnection, withWorkers, h]
  | some c => simp only [onConnection, withWorkers, h, update]

theorem onOwnLoop_withWorkers (s : TcpServer κ) (workers : List κ) (n : ConnId)
    (f : TcpConnection → TcpConnection) :
    (s.withWorkers workers).onOwnLoop n f = (s.onOwnLoop n f).withWorkers workers := by
  cases h : s.accepted n with
  | none => simp only [onOwnLoop, withWorkers, h]
  | some c =>
    rw [onOwnLoop_eq h]
    exact (onOwnLoop_eq (show (s.withWorkers workers).accepted n = some c from h) f).trans
      (s.onConnection_withWorkers workers c.loop n f)

/-- Only `newConnection` looks at the workers. -/
theorem exec_withWorkers (s : TcpServer κ) (workers : List κ) {l : ServerStep κ}
    (hl : l ≠ .newConnection) :
    (s.withWorkers workers).exec l = (s.exec l).withWorkers workers := by
  cases l with
  | newConnection => exact absurd rfl hl
  | handleEvent n revents readv calls w f => exact s.onOwnLoop_withWorkers workers n _
  | call n call => exact s.onOwnLoop_withWorkers workers n _
  | swapFunctors k | nextFunctor k => rfl
  | perform k =>
    show (s.withWorkers workers).perform k = (s.perform k).withWorkers workers
    cases hrun : s.threads.running k with
    | nil => simp only [perform, withWorkers, hrun]
    | cons op rest =>
      have hperform : (s.perform k) = (s.advance k rest).execOp k op := by rw [perform, hrun]
      have hperform' : (s.withWorkers workers).perform k =
          ((s.advance k rest).withWorkers workers).execOp k op := by
        simp only [perform, withWorkers, hrun, advance]
      rw [hperform, hperform']
      generalize s.advance k rest = t
      cases op with
      | submitClosed n => rfl
      | submitEstablished n | erase n | queueDestroyed n =>
        simp only [execOp, withWorkers]
        split <;> rfl
      | connectEstablished n => exact (t.record n k _).onConnection_withWorkers workers k n _
      | connectDestroyed n => exact (t.record n k _).onConnection_withWorkers workers k n _
      | runBound n f => exact t.onConnection_withWorkers workers k n fun c => c.runFunctor f

end TcpServer

/-! ## How far the start is -/

/-- Before the first call, in this call by the thread `t`, or behind it. -/
inductive Stage (τ : Type*)
  | fresh
  | active (t : τ) (phase : StartPhase)
  | finished

namespace Stage

variable {τ : Type*}

def callers [DecidableEq τ] : Stage τ → τ → StartPhase
  | active t phase => Function.update (fun _ => .idle) t phase
  | _ => fun _ => .idle

def fetched (n : ℕ) : Stage τ → ℕ
  | fresh => 0
  | active _ phase => phase.fetched n
  | finished => n

def created (n : ℕ) : Stage τ → ℕ
  | fresh => 0
  | active _ phase => phase.created n
  | finished => n

def weight (n : ℕ) : Stage τ → ℕ
  | fresh => 2 * n + 3
  | active _ phase => phase.weight n
  | finished => 0

/-- `EventLoopThreadPool::start` has returned. -/
def pooled : Stage τ → Bool
  | active _ .submitting | finished => true
  | _ => false

/-- How often `Acceptor::listen` has been passed to the base loop. -/
def listens : Stage τ → ℕ
  | finished => 1
  | _ => 0

theorem created_le (g : Stage τ) (n : ℕ) : g.created n ≤ g.fetched n + 1 := by
  cases g with
  | fresh | finished => exact Nat.le_succ _
  | active t phase =>
    cases phase <;> simp [created, fetched, StartPhase.created, StartPhase.fetched]

variable [DecidableEq τ]

/-- Only one thread is in the body of `start`. -/
theorem eq_active {g : Stage τ} {t : τ} {phase : StartPhase} (h : g.callers t = phase)
    (hne : phase ≠ .idle) : g = active t phase := by
  cases g with
  | fresh | finished => exact absurd h.symm hne
  | active u p =>
    by_cases hu : t = u
    · subst hu
      rw [← h, callers, Function.update_self]
    · rw [callers, Function.update_of_ne hu] at h
      exact absurd h.symm hne

theorem callers_move (t : τ) (phase p : StartPhase) :
    Function.update (active t phase).callers t p = (active t p).callers :=
  Function.update_idem _ _ _

theorem callers_idle (t : τ) (phase : StartPhase) :
    Function.update (active t phase).callers t .idle = finished.callers := by
  rw [callers_move]
  exact Function.update_eq_self t (fun _ => StartPhase.idle)

end Stage

namespace StartingServer

variable {τ : Type*} [DecidableEq τ] {s : StartingServer τ} {g : Stage τ}

/-- The calls of the init callback when `called` workers have made theirs. -/
def initCallsAt (s : StartingServer τ) (called : ℕ) (pooled : Bool) : List (Option ℕ) :=
  if s.threadInitCallback then
    (List.range called).map some ++ if s.numThreads = 0 ∧ pooled = true then [none] else []
  else []

/-- What holds in the stage `g`. -/
structure Staged (s : StartingServer τ) (g : Stage τ) : Prop where
  callers : s.callers = g.callers
  busy : ∀ t, g ≠ .active t .idle
  started : s.started = 0 ↔ g = .fresh
  created_le : g.created s.numThreads.toNat ≤ s.numThreads.toNat
  loops : s.server.workers = (List.range (g.fetched s.numThreads.toNat)).map some
  pool : ∃ called,
    PoolAt s.workers (g.fetched s.numThreads.toNat) (g.created s.numThreads.toNat) called ∧
      s.initCalls = s.initCallsAt called g.pooled
  /-- No wakeup is lost. -/
  asleep : ∀ t i, g = .active t (.waiting i) → (s.workers i).hasLoop = false
  listens : s.listens + s.listenQueued = g.listens
  quiet : s.listens = 0 → s.server.Quiet

/-- A bound for the steps of the start that are left. -/
def rank (s : StartingServer τ) (g : Stage τ) : ℕ :=
  g.weight s.numThreads.toNat + s.listenQueued +
    ∑ i ∈ Finset.range s.numThreads.toNat, (s.workers i).weight

theorem Fresh.staged (h : s.Fresh) : s.Staged .fresh where
  callers := funext h.callers
  busy := by simp
  started := by simp [h.started]
  created_le := Nat.zero_le _
  loops := h.loops
  pool := by
    refine ⟨0, ⟨fun i hi => absurd hi (Nat.not_lt_zero i),
      fun i => ⟨fun _ => Nat.zero_le i, fun _ => h.workers i⟩, fun i => ?_⟩, ?_⟩
    · simp [h.workers i, PoolThreadPhase.called]
    · simp [h.initCalls, initCallsAt, Stage.pooled]
  asleep := by simp
  listens := by rw [h.listens, h.listenQueued]; rfl
  quiet := fun _ => h.fresh.quiet

omit [DecidableEq τ] in
theorem Fresh.rank_le (h : s.Fresh) : s.rank .fresh ≤ 6 * s.numThreads.toNat + 3 := by
  have hsum : ∑ i ∈ Finset.range s.numThreads.toNat, (s.workers i).weight =
      4 * s.numThreads.toNat := by
    simp [h.workers, PoolThreadPhase.weight, mul_comm]
  rw [rank, hsum, h.listenQueued, Stage.weight]
  omega

/-- What a step that is taken in the stage `g` leaves. -/
def Moves (s s' : StartingServer τ) (g : Stage τ) (l : StartStep τ) : Prop :=
  ∃ g', s'.Staged g' ∧ s'.rank g' + l.ofStart.toNat ≤ s.rank g + l.isWake.toNat

theorem Staged.moves {s' : StartingServer τ} {g' : Stage τ} {l : StartStep τ} (h : s'.Staged g')
    (hrank : s'.rank g' < s.rank g) : s.Moves s' g l :=
  ⟨g', h, by have := Bool.toNat_le l.ofStart; omega⟩

omit [DecidableEq τ] in
theorem rank_active_lt (s : StartingServer τ) (t : τ) {p q : StartPhase}
    (h : q.weight s.numThreads.toNat < p.weight s.numThreads.toNat) :
    s.rank (.active t q) < s.rank (.active t p) :=
  Nat.add_lt_add_right (Nat.add_lt_add_right h _) _

omit [DecidableEq τ] in
theorem rank_moveWorker (s : StartingServer τ) (g : Stage τ) {i : ℕ} (hi : i < s.numThreads.toNat)
    (p : PoolThreadPhase) :
    (s.moveWorker i p).rank g + (s.workers i).weight = s.rank g + p.weight := by
  have hsum := PoolThreadPhase.sum_weight_update hi s.workers p
  simp only [rank, moveWorker]
  omega

/-- The caller moves, and the pool stays as it is. -/
theorem Staged.staged_moveCaller {t : τ} {p q : StartPhase} (h : s.Staged (.active t p))
    (hq : q ≠ .idle) (hcreated : ∀ n, q.created n = p.created n)
    (hfetched : ∀ n, q.fetched n = p.fetched n)
    (hpooled : (Stage.active t q).pooled = (Stage.active t p).pooled)
    (hasleep : ∀ i, q = .waiting i → (s.workers i).hasLoop = false) :
    (s.moveCaller t q).Staged (.active t q) where
  callers := by rw [moveCaller, h.callers, Stage.callers_move]
  busy := fun u hu => hq (Stage.active.inj hu).2
  started := by simpa [moveCaller] using h.started
  created_le := (hcreated _).trans_le h.created_le
  loops := by
    show s.server.workers = (List.range (q.fetched _)).map some
    rw [hfetched]
    exact h.loops
  pool := by
    show ∃ called, PoolAt s.workers (q.fetched _) (q.created _) called ∧
      s.initCalls = s.initCallsAt called (Stage.active t q).pooled
    rw [hcreated, hfetched, hpooled]
    exact h.pool
  asleep := fun u i hu => hasleep i (Stage.active.inj hu).2
  listens := h.listens
  quiet := h.quiet

/-- A worker moves, and no thread waits for what it has published. -/
theorem Staged.staged_moveWorker (h : s.Staged g) {i : ℕ} {p : PoolThreadPhase} {called : ℕ}
    (hpool : PoolAt (Function.update s.workers i p) (g.fetched s.numThreads.toNat)
      (g.created s.numThreads.toNat) called)
    (hwaits : p.hasLoop = true → ∀ t, g ≠ .active t (.waiting i)) :
    { s.moveWorker i p with initCalls := s.initCallsAt called g.pooled }.Staged g where
  callers := h.callers
  busy := h.busy
  started := h.started
  created_le := h.created_le
  loops := h.loops
  pool := ⟨called, hpool, rfl⟩
  asleep := fun t j hg => by
    show (Function.update s.workers i p j).hasLoop = false
    by_cases hji : j = i
    · subst hji
      rw [Function.update_self]
      exact Bool.eq_false_iff.mpr fun hloop => hwaits hloop t hg
    · rw [Function.update_of_ne hji]
      exact h.asleep t j hg
  listens := h.listens
  quiet := h.quiet

theorem Staged.start (h : s.Staged g) {t : τ} (hl : s.Enabled (.start t)) :
    s.Moves (s.exec (.start t)) g (.start t) := by
  obtain ⟨-, hbound⟩ := hl
  by_cases hzero : s.started = 0
  · obtain rfl := h.started.mp hzero
    have hexec : s.exec (.start t) =
        { s with started := s.started + 1 }.moveCaller t (.testing 0) := by
      rw [StartingServer.exec, if_pos (by simp [hzero])]
    rw [hexec]
    refine ⟨.active t (.testing 0), ?_, le_rfl⟩
    exact {
      callers := by rw [moveCaller, h.callers]; rfl
      busy := by simp
      started := by simp [moveCaller]
      created_le := Nat.zero_le _
      loops := h.loops
      pool := h.pool
      asleep := by simp
      listens := h.listens
      quiet := h.quiet }
  · have hexec : s.exec (.start t) = { s with started := s.started + 1 } := by
      rw [StartingServer.exec, if_neg (by rw [Nat.mod_eq_of_lt hbound]; exact hzero)]
    have hg : g ≠ .fresh := fun hg => hzero (h.started.mpr hg)
    rw [hexec]
    refine ⟨g, ?_, le_rfl⟩
    exact { h with started := by simp [hg] }

theorem Staged.create (h : s.Staged g) {t : τ} {i : ℕ} (hl : s.Enabled (.test t i))
    (hi : (i : ℤ) < s.numThreads) : s.Moves (s.exec (.test t i)) g (.test t i) := by
  obtain rfl : g = .active t (.testing i) :=
    Stage.eq_active (by rw [← h.callers]; exact hl) (by simp)
  have hlt : i < s.numThreads.toNat := Int.lt_toNat.mpr hi
  have hexec : s.exec (.test t i) = (s.moveWorker i .constructing).moveCaller t (.fetching i) := by
    rw [StartingServer.exec, if_pos hi]
  obtain ⟨called, hpool, hcalls⟩ := h.pool
  have habsent : s.workers i = .absent := (hpool.absent i).mpr le_rfl
  have hstaged : (s.exec (.test t i)).Staged (.active t (.fetching i)) := by
    rw [hexec]
    exact {
      callers := by rw [moveCaller, moveWorker, h.callers, Stage.callers_move]
      busy := by simp
      started := by simpa [moveCaller, moveWorker] using h.started
      created_le := hlt
      loops := h.loops
      pool := ⟨called, hpool.create, hcalls⟩
      asleep := by simp
      listens := h.listens
      quiet := h.quiet }
  refine hstaged.moves ?_
  rw [hexec]
  -- the new worker weighs as much as the one that was not there
  have hworker := s.rank_moveWorker (.active t (.testing i)) hlt .constructing
  rw [habsent] at hworker
  have hcaller : (s.moveWorker i .constructing).rank (.active t (.fetching i)) <
      (s.moveWorker i .constructing).rank (.active t (.testing i)) :=
    rank_active_lt _ t (Nat.lt_succ_self _)
  exact hcaller.trans_eq (Nat.add_right_cancel hworker)

/-- The end of `EventLoopThreadPool::start`. -/
theorem Staged.leavePool (h : s.Staged g) {t : τ} {i : ℕ} (hl : s.Enabled (.test t i))
    (hi : ¬ (i : ℤ) < s.numThreads) : s.Moves (s.exec (.test t i)) g (.test t i) := by
  obtain rfl : g = .active t (.testing i) :=
    Stage.eq_active (by rw [← h.callers]; exact hl) (by simp)
  have hle : i ≤ s.numThreads.toNat := h.created_le
  obtain rfl : s.numThreads.toNat = i := by omega
  obtain ⟨called, hpool, hcalls⟩ := h.pool
  have hexec : s.exec (.test t s.numThreads.toNat) =
      { s.moveCaller t .submitting with initCalls := s.initCallsAt called true } := by
    rw [StartingServer.exec, if_neg hi]
    simp only [initCallsAt, Stage.pooled] at hcalls
    unfold callInit initCallsAt
    cases hcb : s.threadInitCallback <;> by_cases hzero : s.numThreads = 0 <;>
      simp [hcb, hzero, hcalls, moveCaller]
  have hstaged : (s.exec (.test t s.numThreads.toNat)).Staged (.active t .submitting) := by
    rw [hexec]
    exact {
      callers := by rw [moveCaller, h.callers, Stage.callers_move]
      busy := by simp
      started := by simpa [moveCaller] using h.started
      created_le := le_rfl
      loops := h.loops
      pool := ⟨called, hpool, rfl⟩
      asleep := by simp
      listens := h.listens
      quiet := h.quiet }
  refine hstaged.moves ?_
  rw [hexec]
  exact s.rank_active_lt t (by simp [StartPhase.weight])

theorem Staged.fetch (h : s.Staged g) {t : τ} {i : ℕ} (hl : s.Enabled (.fetch t i)) :
    s.Moves (s.exec (.fetch t i)) g (.fetch t i) := by
  obtain rfl : g = .active t (.fetching i) :=
    Stage.eq_active (by rw [← h.callers]; exact hl) (by simp)
  have hlt : i < s.numThreads.toNat := h.created_le
  cases hloop : (s.workers i).hasLoop with
  | true =>
    obtain ⟨called, hpool, hcalls⟩ := h.pool
    have hexec : s.exec (.fetch t i) =
        { s.moveCaller t (.testing (i + 1)) with
          server := s.server.withWorkers (s.server.workers ++ [some i]) } := by
      rw [StartingServer.exec, if_pos hloop]
    have hstaged : (s.exec (.fetch t i)).Staged (.active t (.testing (i + 1))) := by
      rw [hexec]
      exact {
        callers := by rw [moveCaller, h.callers, Stage.callers_move]
        busy := by simp
        started := by simpa [moveCaller] using h.started
        created_le := hlt
        loops := by
          show s.server.workers ++ [some i] = (List.range (i + 1)).map some
          rw [h.loops, List.range_succ, List.map_append]
          rfl
        pool := ⟨called, hpool.fetch hloop, hcalls⟩
        asleep := by simp
        listens := h.listens
        quiet := fun h0 => by
          have hquiet := h.quiet h0
          exact ⟨hquiet.nextConnId, hquiet.accepted, hquiet.running, hquiet.queued⟩ }
    refine hstaged.moves ?_
    rw [hexec]
    refine s.rank_active_lt t ?_
    simp only [StartPhase.weight]
    omega
  | false =>
    have hexec : s.exec (.fetch t i) = s.moveCaller t (.waiting i) := by
      rw [StartingServer.exec, if_neg (by simp [hloop])]
    rw [hexec]
    have hstaged : (s.moveCaller t (.waiting i)).Staged (.active t (.waiting i)) :=
      h.staged_moveCaller (by simp) (fun _ => rfl) (fun _ => rfl) rfl fun j hj => by
        obtain rfl := StartPhase.waiting.inj hj
        exact hloop
    exact hstaged.moves (s.rank_active_lt t (Nat.lt_succ_self _))

theorem Staged.wake (h : s.Staged g) {t : τ} {i : ℕ} (hl : s.Enabled (.wake t i)) :
    s.Moves (s.exec (.wake t i)) g (.wake t i) := by
  obtain rfl : g = .active t (.waiting i) :=
    Stage.eq_active (by rw [← h.callers]; exact hl) (by simp)
  refine ⟨.active t (.fetching i),
    h.staged_moveCaller (by simp) (fun _ => rfl) (fun _ => rfl) rfl (by simp), ?_⟩
  simp only [rank, StartingServer.exec, moveCaller, Stage.weight, StartPhase.weight,
    StartStep.ofStart, StartStep.isWake, Bool.toNat_true, Bool.toNat_false]
  omega

theorem Staged.callback (h : s.Staged g) {i : ℕ} (hl : s.Enabled (.callback i)) :
    s.Moves (s.exec (.callback i)) g (.callback i) := by
  have hworker : s.workers i = .constructing := hl
  obtain ⟨called, hpool, hcalls⟩ := h.pool
  have hlt : i < s.numThreads.toNat :=
    (hpool.lt_created (by rw [hworker]; simp)).trans_le h.created_le
  obtain ⟨rfl, hpool'⟩ := hpool.callback (g.created_le _) hworker
  have hexec : s.exec (.callback i) =
      { s.moveWorker i .initialized with initCalls := s.initCallsAt (i + 1) g.pooled } := by
    have hnum : s.numThreads ≠ 0 := by omega
    simp only [initCallsAt, hnum, false_and, if_false, List.append_nil] at hcalls ⊢
    rw [StartingServer.exec, callInit]
    cases hcb : s.threadInitCallback <;> simp [hcb, hcalls, moveWorker, List.range_succ]
  rw [hexec]
  refine (h.staged_moveWorker hpool' (by simp [PoolThreadPhase.hasLoop])).moves ?_
  have hrank := s.rank_moveWorker g hlt .initialized
  rw [hworker] at hrank
  show (s.moveWorker i .initialized).rank g < s.rank g
  simp only [PoolThreadPhase.weight] at hrank
  omega

/-- The notification comes after the store under the mutex, so a thread that waits is woken. -/
theorem Staged.publish (h : s.Staged g) {i : ℕ} (hl : s.Enabled (.publish i)) :
    s.Moves (s.exec (.publish i)) g (.publish i) := by
  have hworker : s.workers i = .initialized := hl
  obtain ⟨called, hpool, hcalls⟩ := h.pool
  have hlt : i < s.numThreads.toNat :=
    (hpool.lt_created (by rw [hworker]; simp)).trans_le h.created_le
  have hpool' := hpool.move (i := i) (p := .published) (by rw [hworker]; simp) (by simp)
    (by rw [hworker]; rfl) (fun _ => rfl)
  have hrank := s.rank_moveWorker g hlt .published
  rw [hworker] at hrank
  simp only [PoolThreadPhase.weight] at hrank
  by_cases hwaits : ∃ t, g = .active t (.waiting i)
  · obtain ⟨t, rfl⟩ := hwaits
    have hstaged : (s.exec (.publish i)).Staged (.active t (.fetching i)) := {
      callers := by
        funext u
        show (if s.callers u = .waiting i then StartPhase.fetching i else s.callers u) = _
        rw [h.callers]
        by_cases hu : u = t
        · simp [Stage.callers, hu]
        · simp [Stage.callers, hu]
      busy := by simp
      started := by simpa [StartingServer.exec, moveWorker] using h.started
      created_le := h.created_le
      loops := h.loops
      pool := ⟨called, hpool', hcalls⟩
      asleep := by simp
      listens := h.listens
      quiet := h.quiet }
    refine hstaged.moves ?_
    -- the caller makes its test once more, for which the worker has paid
    have hcaller : (s.moveWorker i .published).rank (.active t (.fetching i)) =
        (s.moveWorker i .published).rank (.active t (.waiting i)) + 1 := by
      simp only [rank, Stage.weight, StartPhase.weight]
      omega
    show (s.moveWorker i .published).rank (.active t (.fetching i)) < s.rank _
    omega
  · have hcallers : ∀ t, s.callers t ≠ .waiting i := fun t ht =>
      hwaits ⟨t, Stage.eq_active (by rw [← h.callers]; exact ht) (by simp)⟩
    have hexec : s.exec (.publish i) =
        { s.moveWorker i .published with initCalls := s.initCallsAt called g.pooled } := by
      rw [← hcalls, StartingServer.exec]
      simp only [hcallers, if_false]
      rfl
    rw [hexec]
    refine (h.staged_moveWorker hpool' fun _ t hg => hwaits ⟨t, hg⟩).moves ?_
    show (s.moveWorker i .published).rank g < s.rank g
    omega

theorem Staged.enter (h : s.Staged g) {i : ℕ} (hl : s.Enabled (.enter i)) :
    s.Moves (s.exec (.enter i)) g (.enter i) := by
  have hworker : s.workers i = .published := hl
  obtain ⟨called, hpool, hcalls⟩ := h.pool
  have hlt : i < s.numThreads.toNat :=
    (hpool.lt_created (by rw [hworker]; simp)).trans_le h.created_le
  have hpool' := hpool.move (i := i) (p := .looping) (by rw [hworker]; simp) (by simp)
    (by rw [hworker]; rfl) (fun _ => rfl)
  have hwaits : ∀ t, g ≠ .active t (.waiting i) := fun t hg => by
    have hasleep := h.asleep t i hg
    rw [hworker] at hasleep
    cases hasleep
  have hexec : s.exec (.enter i) =
      { s.moveWorker i .looping with initCalls := s.initCallsAt called g.pooled } := by
    rw [← hcalls]
    rfl
  rw [hexec]
  refine (h.staged_moveWorker hpool' fun _ => hwaits).moves ?_
  have hrank := s.rank_moveWorker g hlt .looping
  rw [hworker] at hrank
  show (s.moveWorker i .looping).rank g < s.rank g
  simp only [PoolThreadPhase.weight] at hrank
  omega

theorem Staged.submit (h : s.Staged g) {t : τ} (hl : s.Enabled (.submit t)) :
    s.Moves (s.exec (.submit t)) g (.submit t) := by
  obtain rfl : g = .active t .submitting :=
    Stage.eq_active (by rw [← h.callers]; exact hl) (by simp)
  have hlistens : s.listens + s.listenQueued = 0 := h.listens
  have hcallers : (s.moveCaller t .idle).callers = Stage.finished.callers := by
    rw [moveCaller, h.callers, Stage.callers_idle]
  have hstarted : s.started = 0 ↔ Stage.finished = (.fresh : Stage τ) := by simpa using h.started
  by_cases ht : t = s.baseThread
  · have hexec : s.exec (.submit t) =
        { s.moveCaller t .idle with listens := s.listens + 1 } := by
      rw [StartingServer.exec, if_pos ht]
    rw [hexec]
    refine ⟨.finished, ?_, ?_⟩
    · exact {
        callers := hcallers
        busy := by simp
        started := hstarted
        created_le := le_rfl
        loops := h.loops
        pool := h.pool
        asleep := by simp
        listens := by
          show s.listens + 1 + s.listenQueued = 1
          omega
        quiet := fun h0 => absurd h0 (Nat.succ_ne_zero _) }
    · simp only [rank, moveCaller, Stage.weight, StartPhase.weight, StartStep.ofStart,
        StartStep.isWake, Bool.toNat_true, Bool.toNat_false]
      omega
  · have hexec : s.exec (.submit t) =
        { s.moveCaller t .idle with listenQueued := s.listenQueued + 1 } := by
      rw [StartingServer.exec, if_neg ht]
    rw [hexec]
    refine ⟨.finished, ?_, ?_⟩
    · exact {
        callers := hcallers
        busy := by simp
        started := hstarted
        created_le := le_rfl
        loops := h.loops
        pool := h.pool
        asleep := by simp
        listens := by
          show s.listens + (s.listenQueued + 1) = 1
          omega
        quiet := h.quiet }
    · simp only [rank, moveCaller, Stage.weight, StartPhase.weight, StartStep.ofStart,
        StartStep.isWake, Bool.toNat_true, Bool.toNat_false]
      omega

theorem Staged.listen (h : s.Staged g) (hl : s.Enabled .listen) :
    s.Moves (s.exec .listen) g .listen := by
  have hqueued : 0 < s.listenQueued := hl.1
  have hlistens := h.listens
  refine ⟨g, ?_, ?_⟩
  · exact { h with
      listens := by
        show s.listens + 1 + (s.listenQueued - 1) = _
        omega
      quiet := fun h0 => absurd h0 (Nat.succ_ne_zero _) }
  · simp only [rank, StartingServer.exec, StartStep.ofStart, StartStep.isWake, Bool.toNat_true,
      Bool.toNat_false]
    omega

theorem Staged.server (h : s.Staged g) {l : ServerStep (Option ℕ)} (hl : s.Enabled (.server l)) :
    s.Moves (s.exec (.server l)) g (.server l) := by
  refine ⟨g, ?_, le_rfl⟩
  exact { h with
    loops := (s.server.members_exec l).2.trans h.loops
    quiet := fun (h0 : s.listens = 0) =>
      (h.quiet h0).exec fun hnew => by have := hl.2.1 hnew; omega }

theorem Staged.exec (h : s.Staged g) {l : StartStep τ} (hl : s.Enabled l) :
    s.Moves (s.exec l) g l := by
  cases l with
  | start t => exact h.start hl
  | test t i =>
    by_cases hi : (i : ℤ) < s.numThreads
    · exact h.create hl hi
    · exact h.leavePool hl hi
  | fetch t i => exact h.fetch hl
  | wake t i => exact h.wake hl
  | callback i => exact h.callback hl
  | publish i => exact h.publish hl
  | enter i => exact h.enter hl
  | submit t => exact h.submit hl
  | listen => exact h.listen hl
  | server l => exact h.server hl

theorem withPool_exec (s : StartingServer τ) {l : StartStep τ} (hl : l.ofLoop = none) :
    (s.exec l).withPool = s.withPool := by
  cases l with
  | server l => cases hl
  | start t | fetch t i | submit t =>
    simp only [StartingServer.exec]
    split <;> rfl
  | test t i =>
    simp only [StartingServer.exec]
    split
    · rfl
    · split
      · unfold callInit
        split <;> rfl
      · rfl
  | callback i =>
    simp only [StartingServer.exec, callInit]
    split <;> rfl
  | wake t i | publish i | enter i | listen => rfl

theorem Staged.complete (h : s.Staged .finished) : s.Complete := by
  obtain ⟨called, hpool, hcalls⟩ := h.pool
  have hcalled : called = s.numThreads.toNat := by
    refine le_antisymm (le_of_forall_lt fun i hi => ?_) hpool.fetched_le
    exact hpool.lt_created (PoolThreadPhase.ne_absent_of_called ((hpool.called i).mpr hi))
  refine ⟨h.loops, hpool.hasLoop, fun i hi => (hpool.absent i).mpr hi, ?_⟩
  rw [hcalls, initCallsAt, hcalled]
  by_cases hzero : s.numThreads = 0
  · simp [hzero, Stage.pooled]
  · simp [hzero, StartingServer.pool]

theorem Staged.finished_of_listens (h : s.Staged g) (hlistens : 0 < s.listens) : g = .finished := by
  have hsum := h.listens
  cases g with
  | finished => rfl
  | fresh | active t p =>
    simp only [Stage.listens] at hsum
    omega

/-- What a loop does in the middle of the start it could do with all workers there. -/
theorem Staged.step_withPool (h : s.Staged g) {l : ServerStep (Option ℕ)}
    (hl : s.Enabled (.server l)) :
    TcpServer.Step s.withPool l (s.exec (.server l)).withPool := by
  obtain ⟨henabled, hlistening, -⟩ := hl
  have hpool : s.withPool.Enabled l := by cases l <;> exact henabled
  refine ⟨hpool, ?_⟩
  by_cases hnew : l = .newConnection
  · obtain rfl := h.finished_of_listens (hlistening hnew)
    have hloops : s.withPool = s.server := by rw [withPool, ← h.complete.loops]; rfl
    rw [hloops]
    show (s.server.exec l).withWorkers s.pool = s.server.exec l
    rw [← h.complete.loops, ← (s.server.members_exec l).2]
    rfl
  · exact (s.server.exec_withWorkers s.pool hnew).symm

/-- All that the loops do, also in the middle of the start, is a run of the server that has had its
    whole pool from the beginning. -/
theorem run_withPool {s t : StartingServer τ} {ls : List (StartStep τ)} (hs : s.Fresh)
    (h : Run Step s ls t) : (∃ g, t.Staged g) ∧
      Run TcpServer.Step s.withPool (ls.filterMap StartStep.ofLoop) t.withPool := by
  refine h.history (P := fun ls t => (∃ g, t.Staged g) ∧
    Run TcpServer.Step s.withPool (ls.filterMap StartStep.ofLoop) t.withPool)
    ⟨⟨_, hs.staged⟩, .nil⟩ ?_
  rintro ls l t _ - ⟨⟨g, hg⟩, hrun⟩ ⟨hl, rfl⟩
  obtain ⟨g', hg', -⟩ := hg.exec hl
  refine ⟨⟨g', hg'⟩, ?_⟩
  rw [List.filterMap_append]
  cases hloop : l.ofLoop with
  | none => simpa [hloop, t.withPool_exec hloop] using hrun
  | some k =>
    obtain rfl : l = .server k := by cases l <;> simp_all [StartStep.ofLoop]
    exact hrun.snoc (hg.step_withPool hl)

/-- The server listens at most once, however often and from whichever threads it is started, and
    then the start is over: the loops of all workers are in the pool, in the order of their numbers,
    and the callback has got each of them once, or the base loop if there are no workers. There is
    no connection before. All that the loops do is a run of the server with its whole pool. -/
theorem started_once {s t : StartingServer τ} {ls : List (StartStep τ)} (hs : s.Fresh)
    (h : Run Step s ls t) :
    t.listens ≤ 1 ∧ (0 < t.listens → t.Complete) ∧ (t.listens = 0 → t.server.nextConnId = 1) ∧
      Run TcpServer.Step s.withPool (ls.filterMap StartStep.ofLoop) t.withPool := by
  obtain ⟨⟨g, hg⟩, hrun⟩ := run_withPool hs h
  have hlistens : t.listens + t.listenQueued = g.listens := hg.listens
  have hle : g.listens ≤ 1 := by cases g <;> simp [Stage.listens]
  refine ⟨by omega, fun hpos => ?_, fun h0 => (hg.quiet h0).nextConnId, hrun⟩
  obtain rfl := hg.finished_of_listens hpos
  exact hg.complete

/-- The server of two workers and its first connection. The thread `false` starts it, and waits for
    the first worker; the base loop runs on the thread `true`, which starts the server too. -/
theorem started_once_two_workers :
    let s : StartingServer Bool :=
      { baseThread := true
        numThreads := 2
        threadInitCallback := true
        server :=
          { baseLoop := none, workers := [], listenAddr := ⟨(127, 0, 0, 1), 8080⟩
            name := "server" } }
    let ls : List (StartStep Bool) :=
      [.start false, .start true, .test false 0, .server (.swapFunctors none), .fetch false 0,
        .callback 0, .wake false 0, .fetch false 0, .publish 0, .enter 0, .fetch false 0,
        .test false 1, .callback 1, .publish 1, .fetch false 1, .test false 2, .submit false,
        .listen, .server .newConnection, .server (.perform none), .server (.swapFunctors (some 0)),
        .server (.nextFunctor (some 0)), .server (.perform (some 0))]
    let t := ls.foldl exec s
    t.server.log = [(1, some 0, .connectEstablished)] ∧ t.initCalls = [some 0, some 1] ∧
      t.Complete ∧ Run TcpServer.Step s.withPool (ls.filterMap StartStep.ofLoop) t.withPool := by
  intro s ls t
  have hs : s.Fresh :=
    ⟨rfl, fun _ => rfl, fun _ => rfl, rfl, rfl, rfl,
      ⟨rfl, fun _ => rfl, fun _ => rfl, fun _ => rfl, fun _ => rfl, rfl⟩, rfl, rfl, rfl⟩
  have hsteps : Run Step s ls t := Run.of_allowed (by decide +kernel)
  obtain ⟨-, hcomplete, -, hrun⟩ := started_once hs hsteps
  exact ⟨by decide +kernel, by decide +kernel, hcomplete (by decide +kernel), hrun⟩

omit [DecidableEq τ] in
/-- A worker that is not yet in its loop can go on. -/
theorem looping_of_stuck (hstuck : ∀ l : StartStep τ, l.ofStart = true → ¬ s.Enabled l) {i : ℕ}
    (hi : s.workers i ≠ .absent) : s.workers i = .looping := by
  cases hworker : s.workers i with
  | absent => exact absurd hworker hi
  | constructing => exact absurd hworker (hstuck (.callback i) rfl)
  | initialized => exact absurd hworker (hstuck (.publish i) rfl)
  | published => exact absurd hworker (hstuck (.enter i) rfl)
  | looping => rfl

theorem Staged.finished_of_stuck (h : s.Staged g) (hstarted : 0 < s.started)
    (hstuck : ∀ l : StartStep τ, l.ofStart = true → ¬ s.Enabled l) : g = .finished := by
  cases g with
  | finished => rfl
  | fresh =>
    have := h.started.mpr rfl
    omega
  | active t p =>
    have hcaller : s.callers t = p := by rw [h.callers, Stage.callers, Function.update_self]
    cases p with
    | idle => exact absurd rfl (h.busy t)
    | testing i => exact absurd hcaller (hstuck (.test t i) rfl)
    | fetching i => exact absurd hcaller (hstuck (.fetch t i) rfl)
    | submitting => exact absurd hcaller (hstuck (.submit t) rfl)
    | waiting i =>
      obtain ⟨called, hpool, -⟩ := h.pool
      have hlooping : s.workers i = .looping := looping_of_stuck hstuck fun habsent =>
        absurd ((hpool.absent i).mp habsent) (Nat.not_succ_le_self i)
      have hasleep := h.asleep t i rfl
      rw [hlooping] at hasleep
      cases hasleep

theorem Staged.listening_of_stuck (h : s.Staged .finished)
    (hstuck : ∀ l : StartStep τ, l.ofStart = true → ¬ s.Enabled l) : s.listens = 1 := by
  have hsum : s.listens + s.listenQueued = 1 := h.listens
  by_contra hne
  have hzero : s.listens = 0 := by omega
  refine hstuck .listen rfl ⟨by omega, ?_, (h.quiet hzero).running none⟩
  show s.callers s.baseThread = .idle
  rw [h.callers]
  rfl

/-- The start makes a bounded number of steps, not counting the wakeups of `cond_.wait` for no
    reason, and it does not stop before its end: when none of its steps can be taken, the server
    listens and all workers are in their loops. -/
theorem start_completes {s t : StartingServer τ} {ls : List (StartStep τ)} (hs : s.Fresh)
    (h : Run Step s ls t) :
    ls.countP StartStep.ofStart ≤ 6 * s.numThreads.toNat + 3 + ls.countP StartStep.isWake ∧
      (0 < t.started → (∀ l : StartStep τ, l.ofStart = true → ¬ t.Enabled l) →
        t.listens = 1 ∧ t.Complete ∧ ∀ i < t.numThreads.toNat, t.workers i = .looping) := by
  obtain ⟨g, hg, hrank⟩ : ∃ g, t.Staged g ∧ t.rank g + ls.countP StartStep.ofStart ≤
      6 * s.numThreads.toNat + 3 + ls.countP StartStep.isWake := by
    refine h.history (P := fun ls t => ∃ g, t.Staged g ∧ t.rank g + ls.countP StartStep.ofStart ≤
      6 * s.numThreads.toNat + 3 + ls.countP StartStep.isWake) ⟨_, hs.staged, hs.rank_le⟩ ?_
    rintro ls l t _ - ⟨g, hg, hrank⟩ ⟨hl, rfl⟩
    obtain ⟨g', hg', hmoves⟩ := hg.exec hl
    refine ⟨g', hg', ?_⟩
    rw [List.countP_append, List.countP_append, List.countP_singleton, List.countP_singleton]
    cases hstart : l.ofStart <;> cases hwake : l.isWake <;>
      simp [hstart, hwake] at hmoves ⊢ <;> omega
  refine ⟨by omega, fun hstarted hstuck => ?_⟩
  obtain rfl := hg.finished_of_stuck hstarted hstuck
  refine ⟨hg.listening_of_stuck hstuck, hg.complete, fun i hi => looping_of_stuck hstuck ?_⟩
  intro habsent
  obtain ⟨called, hpool, -⟩ := hg.pool
  exact absurd ((hpool.absent i).mp habsent) (Nat.not_le.mpr hi)

/-- The start with one worker, on the thread of the base loop. -/
theorem start_completes_one_worker :
    let s : StartingServer Unit :=
      { baseThread := ()
        numThreads := 1
        server :=
          { baseLoop := none, workers := [], listenAddr := ⟨(127, 0, 0, 1), 8080⟩
            name := "server" } }
    let ls : List (StartStep Unit) :=
      [.start (), .test () 0, .fetch () 0, .callback 0, .publish 0, .enter 0, .fetch () 0,
        .test () 1, .submit ()]
    let t := ls.foldl exec s
    ls.countP StartStep.ofStart ≤ 6 * 1 + 3 + 0 ∧ t.listens = 1 ∧ t.workers 0 = .looping := by
  intro s ls t
  have hs : s.Fresh :=
    ⟨rfl, fun _ => rfl, fun _ => rfl, rfl, rfl, rfl,
      ⟨rfl, fun _ => rfl, fun _ => rfl, fun _ => rfl, fun _ => rfl, rfl⟩, rfl, rfl, rfl⟩
  have hsteps : Run Step s ls t := Run.of_allowed (by decide +kernel)
  obtain ⟨hcount, hends⟩ := start_completes hs hsteps
  have hstuck : ∀ l : StartStep Unit, l.ofStart = true → ¬ t.Enabled l := by
    have hcaller : t.callers () = .idle := by decide +kernel
    have hworker : ∀ i, t.workers i = .looping ∨ t.workers i = .absent := fun i => by
      cases i with
      | zero => exact .inl (by decide +kernel)
      | succ i => exact .inr rfl
    intro l hl henabled
    cases l with
    | start | wake | server => cases hl
    | test | fetch | submit => exact absurd (hcaller.symm.trans henabled) (by simp)
    | callback i | publish i | enter i =>
      obtain hw | hw := hworker i <;> exact absurd (hw.symm.trans henabled) (by simp)
    | listen => exact absurd henabled.1 (by decide +kernel)
  obtain ⟨hlistens, -, hlooping⟩ := hends (by decide +kernel) hstuck
  exact ⟨hcount, hlistens, hlooping 0 (by decide +kernel)⟩

end StartingServer

end AegisNet
