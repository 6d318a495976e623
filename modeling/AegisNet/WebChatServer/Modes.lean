import AegisNet.WebChatServer

/-!
# What the server knows of a connection

At every step a connection is in one of a few modes. The mode says what the tables hold for it, what
is known of its two timers, and what its loop may have left to do for it. A step that concerns other
connections leaves it as it is; this is proved once for each of the few ways in which the statements
change the server.

## Main definitions

- `ChatMode` — the modes, with the state, the entry and the timers of the connection
- `WebChatServer.At` — a connection is in a mode
- `WebChatServer.Base` — the invariant of the loops and the timers
- `WebChatServer.Frame`, `WebChatServer.Acts` — what a statement leaves alone
-/

namespace AegisNet

namespace ChatOp

variable {ι : Type*} [DecidableEq ι]

/-- The statement belongs to a callback of connection `x`. -/
def duty (x : ι) : ChatOp ι → Bool
  | updateConnections y | cancelTimers y _ _ | refreshIdleTimer y | updateParsers y
  | drainRequests y | shutdown y | handleIdleTimeout y | startForceCloseTimer y
  | handleForceCloseTimeout y | forceClose y => x = y
  | handleClose _ | handleRead _ _ | handleWrite _ _ _ | send _ _ | broadcast _ | unlock
  | runBound _ _ | sendInLoop _ _ => false

omit [DecidableEq ι] in
/-- The connection on whose loop the statement is made. -/
def owner : ChatOp ι → Option ι
  | handleClose x | handleRead x _ | handleWrite x _ _ | updateConnections x | cancelTimers x _ _
  | refreshIdleTimer x | updateParsers x | drainRequests x | shutdown x | handleIdleTimeout x
  | startForceCloseTimer x | handleForceCloseTimeout x | forceClose x | runBound x _
  | sendInLoop x _ => some x
  | send _ _ | broadcast _ | unlock => none

omit [DecidableEq ι] in
/-- A handler or functor that may call `onConnection` or `onMessage`. -/
def isEntry : ChatOp ι → Bool
  | handleClose _ | handleRead _ _ | runBound _ _ => true
  | _ => false

theorem owner_of_duty {x : ι} {op : ChatOp ι} (h : op.duty x = true) : op.owner = some x := by
  cases op <;> simp_all [duty, owner]

end ChatOp

/-- The modes of a connection. `i` is its idle timer, `f` its force-close timer, and `e` when the
    one that waits expires. -/
inductive ChatMode
  | connecting
  /-- `onConnection` has yet to enter the connection. -/
  | arriving
  /-- It is entered, and has yet to get its idle timer. -/
  | greeting
  /-- It has yet to get its parser. -/
  | entering (i : TimerId) (e : ℕ)
  /-- `onMessage` has yet to refresh the idle timer. -/
  | active (i : TimerId) (e : ℕ)
  | fresh (i : TimerId) (e : ℕ)
  /-- Shut down by `onMessage`, with the idle timer still to come. -/
  | stale (i : TimerId) (e : ℕ)
  /-- The idle timer has been started in time. -/
  | due (i : TimerId)
  /-- It has shut the connection down. -/
  | closing (i : TimerId)
  /-- The idle timer was started after a shutdown, and did nothing. -/
  | lost (i : TimerId)
  | armed (i f : TimerId) (e : ℕ)
  | expired (i f : TimerId)
  | forcing (i f : TimerId)
  /-- `forceCloseInLoop` is queued. -/
  | queued (i f : TimerId)
  | leaving (i f : TimerId)
  /-- `onConnection` has taken the entry out, and has yet to cancel the timers. -/
  | clearing (i f : TimerId)
  | forgetting
  | gone
  deriving DecidableEq, Repr

namespace ChatMode

def state : ChatMode → StateE
  | connecting => .kConnecting
  | arriving | greeting | entering _ _ | active _ _ | fresh _ _ | due _ => .kConnected
  | stale _ _ | closing _ | lost _ | armed _ _ _ | expired _ _ | forcing _ _ | queued _ _ =>
    .kDisconnecting
  | leaving _ _ | clearing _ _ | forgetting | gone => .kDisconnected

/-- The entry in `idleTimers_`. -/
def entry : ChatMode → Option ConnectionTimers
  | connecting | arriving | clearing _ _ | forgetting | gone => none
  | greeting | forcing _ _ | queued _ _ => some ⟨0, 0⟩
  | entering i _ | active i _ | fresh i _ | stale i _ | due i | closing i | lost i => some ⟨i, 0⟩
  | armed _ f _ | expired _ f => some ⟨0, f⟩
  | leaving i f => some ⟨i, f⟩

def hasParser : ChatMode → Bool
  | connecting | arriving | greeting | entering _ _ | gone => false
  | _ => true

/-- What is known of the idle timer. -/
def idleTimer : ChatMode → TimerFact
  | connecting | arriving | greeting | forgetting | gone => .absent
  | entering i e | active i e | fresh i e | stale i e => .waiting i e
  | due i | closing i | lost i | armed i _ _ | expired i _ | forcing i _ | queued i _ => .spent i
  | leaving i _ | clearing i _ => .atMost i

/-- What is known of the force-close timer. -/
def forceCloseTimer : ChatMode → TimerFact
  | armed _ f e => .waiting f e
  | expired _ f | forcing _ f | queued _ f => .spent f
  | leaving _ f | clearing _ f => .atMost f
  | _ => .absent

/-- How the timers agree with the time of the last activity. -/
def InTime (lastActive clock : ℕ) : ChatMode → Prop
  | entering _ e | fresh _ e => lastActive + 15 * kMicrosecondsPerSecond ≤ e ∨ e = kInt64Max
  | due _ => lastActive + 15 * kMicrosecondsPerSecond ≤ clock
  | _ => True

def isQueued : ChatMode → Bool
  | queued _ _ => true
  | _ => false

theorem unqueued {P : Prop} (h : false = true) : P := absurd h Bool.false_ne_true

variable {ι : Type*}

/-- `onMessage` may have this left to do once it has refreshed the idle timer. -/
def Reading (x : ι) (w : List (ChatOp ι)) : Prop :=
  w = [.drainRequests x] ∨ w = [.shutdown x] ∨ w = []

/-- What the callbacks of the connection may have left to do. Only the connections in `L` may lose
    their idle timer. -/
def Allows (L : ι → Prop) (x : ι) (w : List (ChatOp ι)) : ChatMode → Prop
  | connecting => w = []
  | arriving | leaving _ _ => w = [.updateConnections x, .refreshIdleTimer x, .updateParsers x]
  | greeting => w = [.cancelTimers x 0 0, .refreshIdleTimer x, .updateParsers x] ∨
      w = [.refreshIdleTimer x, .updateParsers x]
  | entering _ _ => w = [.updateParsers x]
  | active _ _ => w = [.refreshIdleTimer x, .drainRequests x]
  | fresh _ _ => Reading x w
  | stale _ _ | armed _ _ _ | queued _ _ =>
    w = [.refreshIdleTimer x, .drainRequests x] ∨ Reading x w
  | due _ => w = [.handleIdleTimeout x] ∨ w = [.shutdown x, .startForceCloseTimer x]
  | closing _ => w = [.startForceCloseTimer x]
  | lost _ => L x ∧
      (w = [.handleIdleTimeout x] ∨ w = [.refreshIdleTimer x, .drainRequests x] ∨ Reading x w)
  | expired _ _ => w = [.handleForceCloseTimeout x]
  | forcing _ _ => w = [.forceClose x]
  | clearing i f => w = [.cancelTimers x i f, .refreshIdleTimer x, .updateParsers x]
  | forgetting => w = [.refreshIdleTimer x, .updateParsers x] ∨ w = [.updateParsers x]
  | gone => w = []

end ChatMode

namespace WebChatServer

variable {κ ι : Type*}

/-- What is known of the timers with the callback `cb`. -/
def Fact (s : WebChatServer κ ι) (cb : ChatTimer ι) (fact : TimerFact) : Prop :=
  (s.queue (s.loop cb.conn)).Holds (fun id => s.callback (s.loop cb.conn) id = some cb) fact

/-- What the thread of a connection has left to do in its callbacks. -/
def work [DecidableEq ι] (s : WebChatServer κ ι) (x : ι) : List (ChatOp ι) :=
  (s.threads.running (s.loop x)).filter (ChatOp.duty x)

/-- Connection `x` is in mode `m`. -/
structure At (s : WebChatServer κ ι) (x : ι) (m : ChatMode) : Prop where
  state : (s.conn x).state = m.state
  listed : x ∈ s.connections ↔ m.entry.isSome = true
  entry : s.idleTimers x = m.entry
  parser : (s.parsers x).isSome = m.hasParser
  idleTimer : s.Fact (.handleIdleTimeout x) m.idleTimer
  forceCloseTimer : s.Fact (.handleForceCloseTimeout x) m.forceCloseTimer
  inTime : m.InTime (s.lastActive x) s.clock
  queued : m.isQueued = true →
    .runBound x .forceCloseInLoop ∈ s.threads.todo ChatFunctor.body (s.loop x)

/-- The invariant of the loops and the timers. -/
structure Base (s : WebChatServer κ ι) : Prop where
  clock : s.clock < kInt64Max
  lastActive : ∀ x, s.lastActive x ≤ s.clock
  notified : ∀ x, (s.conn x).Notified
  /-- A thread makes the statements of its own connections. -/
  home : ∀ k op x, op ∈ s.threads.todo ChatFunctor.body k → op.owner = some x →
    s.loop x = k ∧ (s.conn x).state ≠ .kConnecting
  queue : ∀ k, (s.queue k).OneShot ∧ (s.queue k).clock ≤ s.clock
  ids : ∀ k, 0 < s.nextTimerId k ∧ ∀ id, (s.queue k).heap id ≠ none ∨ s.callback k id ≠ none →
    0 < id ∧ id < s.nextTimerId k
  owner : ∀ k, ∀ id ∈ (s.queue k).activeTimers, ∃ cb, s.callback k id = some cb ∧ s.loop cb.conn = k

/-- What a thread is doing. -/
structure ThreadOk [DecidableEq ι] (s : WebChatServer κ ι) (k : κ) : Prop where
  mayCall : s.threads.running k ≠ [] → (s.queue k).phase.mayCall = true
  /-- Handlers and functors come first, and between passes. -/
  tail : ∀ op rest, s.threads.running k = op :: rest → ∀ o ∈ rest, o.isEntry = false
  head : ∀ op rest, s.threads.running k = op :: rest → op.isEntry = true →
    (s.queue k).phase = .idle ∧ (∀ x, ∀ o ∈ rest, o.duty x = false) ∧
      ∀ x readv, op = .handleRead x readv → (s.conn x).Open

/-- The invariant. -/
structure Sound [DecidableEq ι] (s : WebChatServer κ ι) (L : ι → Prop) : Prop where
  base : s.Base
  thread : ∀ k, s.ThreadOk k
  mode : ∀ x, ∃ m : ChatMode, s.At x m ∧ m.Allows L x (s.work x)

/-! ## Frames -/

/-- From `s` to `s'` nothing has changed for connection `y`. -/
structure Frame (s s' : WebChatServer κ ι) (y : ι) : Prop where
  state : (s'.conn y).state = (s.conn y).state
  listed : y ∈ s'.connections ↔ y ∈ s.connections
  entry : s'.idleTimers y = s.idleTimers y
  parser : (s'.parsers y).isSome = (s.parsers y).isSome
  fact : ∀ cb fact, cb.conn = y → s.Fact cb fact → s'.Fact cb fact
  lastActive : s'.lastActive y = s.lastActive y
  queued : .runBound y .forceCloseInLoop ∈ s.threads.todo ChatFunctor.body (s.loop y) →
    .runBound y .forceCloseInLoop ∈ s'.threads.todo ChatFunctor.body (s.loop y)

theorem Frame.refl (s : WebChatServer κ ι) (y : ι) : s.Frame s y :=
  ⟨rfl, Iff.rfl, rfl, rfl, fun _ _ _ => id, rfl, id⟩

theorem ChatMode.InTime.mono {m : ChatMode} {lastActive clock clock' : ℕ}
    (h : m.InTime lastActive clock) (hle : clock ≤ clock') : m.InTime lastActive clock' := by
  cases m <;> simp only [ChatMode.InTime] at h ⊢ <;> omega

theorem At.frame {s s' : WebChatServer κ ι} {y : ι} {m : ChatMode} (h : s.At y m)
    (hf : s.Frame s' y) (hloop : s'.loop = s.loop) (hclock : s.clock ≤ s'.clock) : s'.At y m where
  state := hf.state.trans h.state
  listed := hf.listed.trans h.listed
  entry := hf.entry.trans h.entry
  parser := hf.parser.trans h.parser
  idleTimer := hf.fact _ _ rfl h.idleTimer
  forceCloseTimer := hf.fact _ _ rfl h.forceCloseTimer
  inTime := by
    rw [hf.lastActive]
    exact ChatMode.InTime.mono h.inTime hclock
  queued hq := by
    rw [hloop]
    exact hf.queued (h.queued hq)

variable [DecidableEq κ] [LinearOrder ι]

/-- What the statements on the thread of `k` have made of `s`, while they concern only the connections
    in `C`. -/
structure Acts (s t : WebChatServer κ ι) (k : κ) (C : ι → Prop) : Prop where
  base : t.Base
  mayCall : (t.queue k).phase.mayCall = true
  plain : ∀ o ∈ t.threads.running k, o.isEntry = false
  loop : t.loop = s.loop
  clock : t.clock = s.clock
  other : ∀ j, j ≠ k → t.threads.running j = s.threads.running j ∧ t.queue j = s.queue j
  frame : ∀ y, ¬ C y → s.Frame t y ∧ t.work y = s.work y

/-- The other threads and connections are as they were. -/
theorem Acts.sound {s t : WebChatServer κ ι} {k : κ} {C L : ι → Prop} (h : s.Acts t k C)
    (hC : ∀ y, C y → s.loop y = k) (hthread : ∀ j, j ≠ k → s.ThreadOk j)
    (hmode : ∀ y, ¬ C y → ∃ m : ChatMode, s.At y m ∧ m.Allows L y (s.work y))
    (hmode' : ∀ y, C y → ∃ m : ChatMode, t.At y m ∧ m.Allows L y (t.work y)) : t.Sound L where
  base := h.base
  thread j := by
    by_cases hj : j = k
    · subst hj
      refine ⟨fun _ => h.mayCall, fun op rest hrun o ho => ?_, fun op rest hrun hop => ?_⟩
      · exact h.plain o (hrun ▸ List.mem_cons_of_mem _ ho)
      · have hplain := h.plain op (hrun ▸ List.mem_cons_self)
        rw [hop] at hplain
        cases hplain
    · obtain ⟨hrun, hqueue⟩ := h.other j hj
      obtain ⟨hcall, htail, hhead⟩ := hthread j hj
      refine ⟨?_, ?_, fun op rest hr hop => ?_⟩
      · rwa [hrun, hqueue]
      · rwa [hrun]
      · have hr' := hrun ▸ hr
        obtain ⟨hidle, hduty, hread⟩ := hhead op rest hr' hop
        refine ⟨hqueue ▸ hidle, hduty, fun x readv heq => ?_⟩
        -- a connection that is read on another loop is not in `C`
        have hmem : op ∈ t.threads.todo ChatFunctor.body j :=
          List.mem_append_left _ (hr ▸ List.mem_cons_self)
        have hx : t.loop x = j := (h.base.home j op x hmem (heq ▸ rfl)).1
        have hnot : ¬ C x := fun hc => hj (hx.symm.trans ((congrFun h.loop x).trans (hC x hc)))
        have hstate := (h.frame x hnot).1.state
        have hopen := hread x readv heq
        rwa [TcpConnection.Open, hstate]
  mode y := by
    by_cases hc : C y
    · exact hmode' y hc
    · obtain ⟨m, hat, hallows⟩ := hmode y hc
      obtain ⟨hframe, hwork⟩ := h.frame y hc
      exact ⟨m, hat.frame hframe h.loop h.clock.ge, hwork ▸ hallows⟩

/-! ## The ways to change the server -/

section Threads

variable {s : WebChatServer κ ι} {k : κ}

omit [DecidableEq κ] [LinearOrder ι] in
/-- A change of the threads. -/
theorem Base.threads (h : s.Base) {x : Threads κ (ChatFunctor ι) (ChatOp ι)}
    (hx : ∀ k op y, op ∈ x.todo ChatFunctor.body k → op.owner = some y →
      op ∈ s.threads.todo ChatFunctor.body k ∨ s.loop y = k ∧ (s.conn y).state ≠ .kConnecting) :
    { s with threads := x }.Base :=
  { h with home := fun k op y hop hy => (hx k op y hop hy).elim (fun hop => h.home k op y hop hy) id }

omit [DecidableEq κ] [LinearOrder ι] in
theorem frame_threads {x : Threads κ (ChatFunctor ι) (ChatOp ι)} {y : ι}
    (hx : ChatOp.runBound y .forceCloseInLoop ∈ s.threads.todo ChatFunctor.body (s.loop y) →
      .runBound y .forceCloseInLoop ∈ x.todo ChatFunctor.body (s.loop y)) :
    s.Frame { s with threads := x } y :=
  ⟨rfl, Iff.rfl, rfl, rfl, fun _ _ _ => id, rfl, hx⟩

theorem work_call (ops : List (ChatOp ι)) (y : ι) :
    (s.call k ops).work y =
      (if s.loop y = k then ops.filter (ChatOp.duty y) else []) ++ s.work y := by
  show List.filter _ (Function.update s.threads.running k (ops ++ s.threads.running k) (s.loop y)) = _
  by_cases hy : s.loop y = k
  · rw [if_pos hy, hy, Function.update_self, List.filter_append, work, hy]
  · rw [if_neg hy, Function.update_of_ne hy, List.nil_append, work]

omit [LinearOrder ι] in
theorem mem_todo_call {ops : List (ChatOp ι)} {j : κ} {op : ChatOp ι} :
    op ∈ (s.call k ops).threads.todo ChatFunctor.body j ↔
      j = k ∧ op ∈ ops ∨ op ∈ s.threads.todo ChatFunctor.body j := by
  rw [call, Threads.todo_call]
  by_cases hj : j = k
  · subst hj
    simp
  · simp [hj]

end Threads

section Method

variable {s : WebChatServer κ ι} {k : κ} {x : ι} {f : TcpConnection → TcpConnection}
  {es : List Effect}

theorem work_queueFunctors (fs : List Functor) (y : ι) :
    (s.queueFunctors x fs).work y = s.work y := by
  unfold work queueFunctors
  dsimp only
  rw [Threads.running_foldl_queueInLoop]

omit [LinearOrder ι] in
theorem mem_todo_queueFunctors {fs : List Functor} {j : κ} {op : ChatOp ι} :
    op ∈ (s.queueFunctors x fs).threads.todo ChatFunctor.body j ↔
      op ∈ s.threads.todo ChatFunctor.body j ∨ j = s.loop x ∧ ∃ g ∈ fs, op = .runBound x g := by
  unfold queueFunctors
  dsimp only
  rw [Threads.todo_foldl_queueInLoop]
  by_cases hj : j = s.loop x
  · subst hj
    simp [ChatFunctor.body, eq_comm]
  · simp [hj]

theorem state_method_self : ((s.method k x f).conn x).state = (f (s.conn x)).state := by
  show (Function.update s.conn x { f (s.conn x) with loop := {} } x).state = _
  rw [Function.update_self]

theorem conn_method_of_ne {y : ι} (h : y ≠ x) : (s.method k x f).conn y = s.conn y :=
  Function.update_of_ne h ..

theorem mem_todo_method {j : κ} {op : ChatOp ι} :
    op ∈ (s.method k x f).threads.todo ChatFunctor.body j ↔
      (j = k ∧ op ∈ ((s.conn x).newCallbacks (f (s.conn x))).flatMap (ChatOp.ofCallback x)) ∨
      op ∈ s.threads.todo ChatFunctor.body j ∨
      j = s.loop x ∧ ∃ g ∈ (f (s.conn x)).loop.pendingFunctors, op = .runBound x g := by
  unfold method
  rw [mem_todo_call, mem_todo_queueFunctors]

theorem work_method (hm : (s.conn x).Makes (f (s.conn x)) es) (y : ι) :
    (s.method k x f).work y = (if s.loop y = k then
      (es.flatMap (ChatOp.ofCallback x)).filter (ChatOp.duty y) else []) ++ s.work y := by
  unfold method
  rw [work_call, hm.newCallbacks, work_queueFunctors]
  rfl

omit [LinearOrder ι] in
theorem owner_of_mem_ofCallback {es : List Effect} {op : ChatOp ι}
    (h : op ∈ es.flatMap (ChatOp.ofCallback x)) : op.owner = some x ∧ op.isEntry = false := by
  obtain ⟨e, -, hop⟩ := List.mem_flatMap.mp h
  cases e <;> simp only [ChatOp.ofCallback, List.mem_cons, List.not_mem_nil, or_false] at hop
  · obtain rfl | rfl | rfl := hop <;> exact ⟨rfl, rfl⟩
  · obtain rfl | rfl := hop <;> exact ⟨rfl, rfl⟩

/-- A method on the connection's own thread. -/
theorem Base.method (h : s.Base) (hx : s.loop x = k) (hn : (f (s.conn x)).Notified)
    (hne : (f (s.conn x)).state ≠ .kConnecting) : (s.method k x f).Base where
  clock := h.clock
  lastActive y := by
    show (if _ then Function.update s.lastActive x s.clock else s.lastActive) y ≤ s.clock
    split
    · by_cases hy : y = x
      · rw [hy, Function.update_self]
      · rw [Function.update_of_ne hy]
        exact h.lastActive y
    · exact h.lastActive y
  notified y := by
    by_cases hy : y = x
    · subst hy
      show (Function.update s.conn y _ y).Notified
      rw [Function.update_self]
      exact ⟨hn.connectionCallback, hn.connecting, hn.up, hn.down⟩
    · rw [conn_method_of_ne hy]
      exact h.notified y
  home j op y hop hy := by
    have hself : ((s.method k x f).conn x).state ≠ .kConnecting := by rwa [state_method_self]
    -- made by the callbacks, there before, or queued by the connection
    obtain ⟨rfl, hmade⟩ | hold | ⟨rfl, g, -, rfl⟩ := mem_todo_method.mp hop
    · obtain rfl : x = y := Option.some.inj ((owner_of_mem_ofCallback hmade).1.symm.trans hy)
      exact ⟨hx, hself⟩
    · obtain ⟨hloop, hs⟩ := h.home j op y hold hy
      refine ⟨hloop, ?_⟩
      by_cases hyx : y = x
      · rwa [hyx]
      · rwa [conn_method_of_ne hyx]
    · obtain rfl : x = y := Option.some.inj hy
      exact ⟨rfl, hself⟩
  queue := h.queue
  ids := h.ids
  owner := h.owner

theorem frame_method_of_ne {y : ι} (hy : y ≠ x) : s.Frame (s.method k x f) y where
  state := by rw [conn_method_of_ne hy]
  listed := Iff.rfl
  entry := rfl
  parser := rfl
  fact _ _ _ := id
  lastActive := by
    show (if _ then Function.update s.lastActive x s.clock else s.lastActive) y = _
    split
    · exact Function.update_of_ne hy ..
    · rfl
  queued h := mem_todo_method.mpr (.inr (.inl h))

/-- A method without callbacks that leaves the state. -/
theorem frame_method (hm : (s.conn x).Makes (f (s.conn x)) [])
    (hs : (f (s.conn x)).state = (s.conn x).state) (y : ι) : s.Frame (s.method k x f) y := by
  by_cases hy : y = x
  · subst hy
    refine ⟨state_method_self.trans hs, Iff.rfl, rfl, rfl, fun _ _ _ => id, ?_,
      fun h => mem_todo_method.mpr (.inr (.inl h))⟩
    show (if List.any _ _ then _ else s.lastActive) y = _
    rw [hm.newCallbacks]
    rfl
  · exact frame_method_of_ne hy

end Method

section Timers

variable {s : WebChatServer κ ι} {k : κ} {l : TimerStep} {Q' : TimerQueue} {cb cb' : ChatTimer ι}
  {fact : TimerFact}

omit [LinearOrder ι] in
/-- A step of the timer queue that adds no timer. -/
theorem Base.withQueue (h : s.Base)
    (he : TimerQueue.Effect (s.ptrLess k) 0 (kInt64Max - 1) (s.queue k) l Q') (hl : l.newId = none)
    (hread : l.ReadsUpTo s.clock) : { s with queue := Function.update s.queue k Q' }.Base where
  clock := h.clock
  lastActive := h.lastActive
  notified := h.notified
  home := h.home
  queue j := by
    by_cases hj : j = k
    · subst hj
      have hone : l.IsOneShot := by
        cases l with
        | addTimerInLoop _ _ _ _ _ => cases hl
        | _ => trivial
      dsimp only
      rw [Function.update_self]
      exact ⟨he.oneShot (by decide) hone (h.queue j).1, he.clock_le_of hread (h.queue j).2⟩
    · dsimp only
      rw [Function.update_of_ne hj]
      exact h.queue j
  ids j := by
    refine ⟨(h.ids j).1, fun id hid => (h.ids j).2 id (hid.imp_left fun hheap => ?_)⟩
    by_cases hj : j = k
    · subst hj
      dsimp only at hheap
      rw [Function.update_self] at hheap
      exact (he.heap_new hheap).resolve_right (by rw [hl]; exact nofun)
    · dsimp only at hheap
      rwa [Function.update_of_ne hj] at hheap
  owner j id hid := by
    refine h.owner j id ?_
    by_cases hj : j = k
    · subst hj
      dsimp only at hid
      rw [Function.update_self] at hid
      exact (he.active_sub hid).resolve_right (by rw [hl]; exact nofun)
    · dsimp only at hid
      rwa [Function.update_of_ne hj] at hid

omit [LinearOrder ι] in
/-- Timers with other callbacks. -/
theorem Fact.withQueue (hf : s.Fact cb fact) (h : s.Base)
    (he : TimerQueue.Effect (s.ptrLess k) 0 (kInt64Max - 1) (s.queue k) l Q') (hl : l.newId = none)
    (hcancel : ∀ id, l = .cancelInLoop id → s.callback k id ≠ some cb)
    (hstart : ∀ t id, l = .turn t → (s.queue k).nextStart = some id → s.callback k id ≠ some cb) :
    { s with queue := Function.update s.queue k Q' }.Fact cb fact := by
  by_cases hk : s.loop cb.conn = k
  · subst hk
    show (Function.update s.queue (s.loop cb.conn) Q' (s.loop cb.conn)).Holds _ fact
    rw [Function.update_self]
    exact TimerQueue.Holds.effect hf (h.queue _).1 he (by rw [hl]; exact nofun) hcancel hstart
  · show (Function.update s.queue k Q' (s.loop cb.conn)).Holds _ fact
    rw [Function.update_of_ne hk]
    exact hf

omit [DecidableEq κ] [LinearOrder ι] in
theorem Base.effect_cancel (h : s.Base) (k : κ) (id : TimerId) :
    TimerQueue.Effect (s.ptrLess k) 0 (kInt64Max - 1) (s.queue k) (.cancelInLoop id)
      ((s.queue k).exec (s.ptrLess k) (.cancelInLoop id)) :=
  (h.queue k).1.batched.consistent.effect trivial

omit [LinearOrder ι] in
theorem Base.cancel (h : s.Base) (x : ι) (id : TimerId) : (s.cancel x id).Base := by
  unfold WebChatServer.cancel
  split
  · exact h
  · exact h.withQueue (h.effect_cancel _ id) rfl trivial

omit [LinearOrder ι] in
theorem Fact.cancel (hf : s.Fact cb fact) (h : s.Base) (x : ι) {id : TimerId}
    (hid : id = 0 ∨ s.callback (s.loop x) id ≠ some cb) : (s.cancel x id).Fact cb fact := by
  unfold WebChatServer.cancel
  split
  · exact hf
  · next hne =>
    refine hf.withQueue h (h.effect_cancel _ id) rfl ?_ (fun _ _ hl => nomatch hl)
    rintro _ ⟨⟩
    exact hid.resolve_left hne

omit [LinearOrder ι] in
/-- The cancel of the only timer that there can be. -/
theorem Fact.cancel_self {id : TimerId} (hf : s.Fact cb (.atMost id)) (h : s.Base)
    (hcall : (s.queue (s.loop cb.conn)).phase.mayCall = true) :
    (s.cancel cb.conn id).Fact cb .absent := by
  unfold WebChatServer.cancel
  split
  · next hzero =>
    intro y hy hcb
    -- no timer has the id 0
    have hne : y = id := hf.2 y hy hcb
    have hpos := ((h.ids (s.loop cb.conn)).2 y (.inr (by rw [hcb]; exact nofun))).1
    rw [hne, hzero] at hpos
    exact absurd hpos (lt_irrefl _)
  · show (Function.update s.queue _ _ _).Holds _ _
    rw [Function.update_self]
    exact TimerQueue.Holds.cancel hf (h.queue _).1.batched.consistent hcall

omit [DecidableEq κ] [LinearOrder ι] in
theorem Base.nextTimerId_none (h : s.Base) (k : κ) :
    (s.queue k).heap (s.nextTimerId k) = none ∧ s.callback k (s.nextTimerId k) = none := by
  have hlt := (h.ids k).2 (s.nextTimerId k)
  constructor
  · by_contra hne
    exact absurd (hlt (.inl hne)).2 (lt_irrefl _)
  · by_contra hne
    exact absurd (hlt (.inr hne)).2 (lt_irrefl _)

omit [DecidableEq κ] [LinearOrder ι] in
theorem Base.effect_runAfter (h : s.Base) (k : κ) (delayUs : ℕ) :
    TimerQueue.Effect (s.ptrLess k) 0 (kInt64Max - 1) (s.queue k)
      (.addTimerInLoop (s.nextTimerId k) 0 false delayUs s.clock)
      ((s.queue k).exec (s.ptrLess k)
        (.addTimerInLoop (s.nextTimerId k) 0 false delayUs s.clock)) :=
  (h.queue k).1.batched.consistent.effect
    ⟨(h.nextTimerId_none k).1, (h.queue k).2, Nat.zero_le _, Nat.le_pred_of_lt h.clock⟩

omit [LinearOrder ι] in
theorem callback_runAfter_self :
    (s.runAfter cb).callback (s.loop cb.conn) = Function.update (s.callback (s.loop cb.conn))
      (s.nextTimerId (s.loop cb.conn)) (some cb) :=
  Function.update_self ..

omit [LinearOrder ι] in
theorem Base.runAfter (h : s.Base) (cb : ChatTimer ι) : (s.runAfter cb).Base := by
  have he := h.effect_runAfter (s.loop cb.conn) (15 * kMicrosecondsPerSecond)
  have hother : ∀ {j}, j ≠ s.loop cb.conn → (s.runAfter cb).queue j = s.queue j ∧
      (s.runAfter cb).nextTimerId j = s.nextTimerId j ∧ (s.runAfter cb).callback j = s.callback j :=
    fun hj => ⟨Function.update_of_ne hj .., Function.update_of_ne hj .., Function.update_of_ne hj ..⟩
  have hnext : (s.runAfter cb).nextTimerId (s.loop cb.conn) = s.nextTimerId (s.loop cb.conn) + 1 :=
    Function.update_self ..
  have hqueue : (s.runAfter cb).queue (s.loop cb.conn) = _ := Function.update_self ..
  refine ⟨h.clock, h.lastActive, h.notified, h.home, fun j => ?_, fun j => ?_, fun j id hid => ?_⟩
  · by_cases hj : j = s.loop cb.conn
    · subst hj
      rw [hqueue]
      exact ⟨he.oneShot (by decide) rfl (h.queue _).1, he.clock_le_of (le_refl _) (h.queue _).2⟩
    · rw [(hother hj).1]
      exact h.queue j
  · by_cases hj : j = s.loop cb.conn
    · subst hj
      obtain ⟨hpos, hlt⟩ := h.ids (s.loop cb.conn)
      rw [hnext, hqueue, callback_runAfter_self]
      refine ⟨Nat.succ_pos _, fun id hid => ?_⟩
      by_cases hne : id = s.nextTimerId (s.loop cb.conn)
      · rw [hne]
        exact ⟨hpos, Nat.lt_succ_self _⟩
      · rw [Function.update_of_ne hne] at hid
        obtain ⟨hpos', hlt'⟩ := hlt id (hid.imp_left fun hheap =>
          (he.heap_new hheap).resolve_right fun hnew => hne (Option.some.inj hnew).symm)
        exact ⟨hpos', Nat.lt_succ_of_lt hlt'⟩
    · rw [(hother hj).1, (hother hj).2.1, (hother hj).2.2]
      exact h.ids j
  · by_cases hj : j = s.loop cb.conn
    · subst hj
      rw [hqueue] at hid
      rw [callback_runAfter_self]
      by_cases hne : id = s.nextTimerId (s.loop cb.conn)
      · rw [hne, Function.update_self]
        exact ⟨cb, rfl, rfl⟩
      · rw [Function.update_of_ne hne]
        exact h.owner _ id ((he.active_sub hid).resolve_right fun hnew =>
          hne (Option.some.inj hnew).symm)
    · rw [(hother hj).1] at hid
      rw [(hother hj).2.2]
      exact h.owner j id hid

omit [LinearOrder ι] in
theorem Fact.runAfter (hf : s.Fact cb fact) (h : s.Base) (hne : cb ≠ cb') :
    (s.runAfter cb').Fact cb fact := by
  by_cases hk : s.loop cb.conn = s.loop cb'.conn
  · have hP : (fun id => (s.runAfter cb').callback (s.loop cb.conn) id = some cb) =
        fun id => s.callback (s.loop cb.conn) id = some cb := by
      funext id
      rw [hk, callback_runAfter_self]
      by_cases hid : id = s.nextTimerId (s.loop cb'.conn)
      · rw [hid, Function.update_self, (h.nextTimerId_none _).2]
        simp [Ne.symm hne]
      · rw [Function.update_of_ne hid]
    show ((s.runAfter cb').queue (s.loop cb.conn)).Holds
      (fun id => (s.runAfter cb').callback (s.loop cb.conn) id = some cb) fact
    rw [hP, hk]
    show (Function.update s.queue _ _ _).Holds _ _
    rw [Function.update_self]
    refine TimerQueue.Holds.effect (hk ▸ hf) (h.queue _).1
      (h.effect_runAfter (s.loop cb'.conn) _) ?_ (fun _ hl => nomatch hl) (fun _ _ hl => nomatch hl)
    rintro _ ⟨⟩
    rw [(h.nextTimerId_none _).2]
    exact nofun
  · show (Function.update s.queue _ _ (s.loop cb.conn)).Holds
      (fun id => Function.update s.callback _ _ (s.loop cb.conn) id = some cb) fact
    rw [Function.update_of_ne hk, Function.update_of_ne hk]
    exact hf

omit [LinearOrder ι] in
/-- The timer that `runAfter` adds waits for 15 s. -/
theorem Fact.runAfter_self (hf : s.Fact cb .absent) (h : s.Base)
    (hcall : (s.queue (s.loop cb.conn)).phase.mayCall = true) :
    (s.runAfter cb).Fact cb (.waiting (s.nextTimerId (s.loop cb.conn))
      (saturatingAdd (15 * kMicrosecondsPerSecond) s.clock)) := by
  show (Function.update s.queue _ _ (s.loop cb.conn)).Holds
    (fun id => (s.runAfter cb).callback (s.loop cb.conn) id = some cb) _
  rw [Function.update_self, callback_runAfter_self]
  refine TimerQueue.Holds.add hf (h.queue _).1 hcall (h.nextTimerId_none _).1 (fun id hid => ?_)
    (Function.update_self ..) _ _ _ _
  by_cases hne : id = s.nextTimerId (s.loop cb.conn)
  · exact .inr hne
  · rw [Function.update_of_ne hne] at hid
    exact .inl hid

end Timers

/-! ## Statements from such changes -/

section Acts

variable {s t : WebChatServer κ ι} {k : κ} {C : ι → Prop}

omit [DecidableEq κ] in
theorem Acts.refl (h : s.Base) (hcall : (s.queue k).phase.mayCall = true)
    (hplain : ∀ o ∈ s.threads.running k, o.isEntry = false) : s.Acts s k C :=
  ⟨h, hcall, hplain, rfl, rfl, fun _ _ => ⟨rfl, rfl⟩, fun y _ => ⟨.refl s y, rfl⟩⟩

omit [DecidableEq κ] in
theorem Acts.trans {u : WebChatServer κ ι} (h : s.Acts t k C) (h' : t.Acts u k C) :
    s.Acts u k C where
  base := h'.base
  mayCall := h'.mayCall
  plain := h'.plain
  loop := h'.loop.trans h.loop
  clock := h'.clock.trans h.clock
  other j hj := ⟨(h'.other j hj).1.trans (h.other j hj).1, (h'.other j hj).2.trans (h.other j hj).2⟩
  frame y hy := by
    obtain ⟨hf, hwork⟩ := h.frame y hy
    obtain ⟨hf', hwork'⟩ := h'.frame y hy
    refine ⟨⟨hf'.state.trans hf.state, hf'.listed.trans hf.listed, hf'.entry.trans hf.entry,
      hf'.parser.trans hf.parser, fun cb fact hcb hs => hf'.fact cb fact hcb (hf.fact cb fact hcb hs),
      hf'.lastActive.trans hf.lastActive, fun hq => ?_⟩, hwork'.trans hwork⟩
    have hq' := hf'.queued
    rw [h.loop] at hq'
    exact hq' (hf.queued hq)

omit [LinearOrder ι] in
theorem ne_of_concerned {x : ι} (hC : C x) : ∀ y, ¬ C y → y ≠ x := by
  rintro y hy rfl
  exact hy hC

/-- Calls that belong to the connections in `C`, on their thread. -/
theorem Acts.call (h : s.Acts t k C) {ops : List (ChatOp ι)}
    (hops : ∀ o ∈ ops, o.isEntry = false ∧ (∀ y, o.duty y = true → C y) ∧
      ∀ y, o.owner = some y → t.loop y = k ∧ (t.conn y).state ≠ .kConnecting) :
    s.Acts (t.call k ops) k C := by
  refine h.trans ⟨?_, h.mayCall, fun o ho => ?_, rfl, rfl, fun j hj => ⟨?_, rfl⟩, fun y hy => ⟨?_, ?_⟩⟩
  · refine h.base.threads fun j op y hop hy => ?_
    obtain ⟨rfl, hnew⟩ | hold := mem_todo_call.mp hop
    · exact .inr ((hops op hnew).2.2 y hy)
    · exact .inl hold
  · have ho' : o ∈ Function.update t.threads.running k (ops ++ t.threads.running k) k := ho
    rw [Function.update_self] at ho'
    obtain ho' | ho' := List.mem_append.mp ho'
    · exact (hops o ho').1
    · exact h.plain o ho'
  · exact Function.update_of_ne hj ..
  · exact frame_threads fun hq => mem_todo_call.mpr (.inr hq)
  · have hnil : ops.filter (ChatOp.duty y) = [] :=
      List.filter_eq_nil_iff.mpr fun o ho hduty => hy ((hops o ho).2.1 y hduty)
    rw [work_call, hnil, ite_self, List.nil_append]

theorem running_method (x : ι) (f : TcpConnection → TcpConnection) (j : κ) :
    (t.method k x f).threads.running j = Function.update t.threads.running k
      (((t.conn x).newCallbacks (f (t.conn x))).flatMap (ChatOp.ofCallback x) ++
        t.threads.running k) j := by
  simp only [WebChatServer.method, WebChatServer.call, Threads.call, queueFunctors,
    Threads.running_foldl_queueInLoop]

/-- A method of a connection on its thread. -/
theorem Acts.method_aux (h : s.Acts t k C) {x : ι} {f : TcpConnection → TcpConnection}
    {es : List Effect} (hm : (t.conn x).Makes (f (t.conn x)) es) (hx : t.loop x = k)
    (hn : (f (t.conn x)).Notified) (hne : (f (t.conn x)).state ≠ .kConnecting)
    (hframe : ∀ y, ¬ C y → t.Frame (t.method k x f) y)
    (hwork : ∀ y, ¬ C y → (es.flatMap (ChatOp.ofCallback x)).filter (ChatOp.duty y) = []) :
    s.Acts (t.method k x f) k C := by
  refine h.trans ⟨h.base.method hx hn hne, h.mayCall, fun o ho => ?_, rfl, rfl,
    fun j hj => ⟨?_, rfl⟩, fun y hy => ⟨hframe y hy, ?_⟩⟩
  · rw [running_method, Function.update_self] at ho
    obtain ho | ho := List.mem_append.mp ho
    · exact (owner_of_mem_ofCallback ho).2
    · exact h.plain o ho
  · rw [running_method, Function.update_of_ne hj]
  · rw [work_method hm, hwork y hy, ite_self, List.nil_append]

theorem Acts.method (h : s.Acts t k C) {x : ι} {f : TcpConnection → TcpConnection}
    {es : List Effect} (hm : (t.conn x).Makes (f (t.conn x)) es) (hC : C x) (hx : t.loop x = k)
    (hn : (f (t.conn x)).Notified) (hne : (f (t.conn x)).state ≠ .kConnecting) :
    s.Acts (t.method k x f) k C := by
  have hother := ne_of_concerned hC
  refine h.method_aux hm hx hn hne (fun y hy => frame_method_of_ne (hother y hy)) fun y hy => ?_
  refine List.filter_eq_nil_iff.mpr fun o ho hduty => hother y hy ?_
  have howner := ChatOp.owner_of_duty hduty
  rw [(owner_of_mem_ofCallback ho).1] at howner
  exact (Option.some.inj howner).symm

/-- A method that makes no callbacks and leaves the state concerns no connection. -/
theorem Acts.method_quiet (h : s.Acts t k C) {x : ι} {f : TcpConnection → TcpConnection}
    (hx : t.loop x = k) (hne : (t.conn x).state ≠ .kConnecting)
    (hq : (t.conn x).Quiet (f (t.conn x))) (hflags : (f (t.conn x)).flags = (t.conn x).flags) :
    s.Acts (t.method k x f) k C := by
  have hm := hq.makes hflags
  exact h.method_aux hm hx ((h.base.notified x).quiet hne hq hflags) (by rwa [hq.state])
    (fun y _ => frame_method hm hq.state y) fun _ _ => rfl

theorem Acts.cancel (h : s.Acts t k C) {x : ι} {id : TimerId} (hx : t.loop x = k)
    (hid : id = 0 ∨ ∃ cb, t.callback k id = some cb ∧ C cb.conn) : s.Acts (t.cancel x id) k C := by
  subst hx
  refine h.trans ⟨h.base.cancel x id, ?_, h.plain, rfl, rfl, fun j hj => ⟨rfl, ?_⟩, fun y hy =>
    ⟨⟨rfl, Iff.rfl, rfl, rfl, ?_, rfl, fun hq => hq⟩, rfl⟩⟩
  · unfold WebChatServer.cancel
    dsimp only
    split
    · exact h.mayCall
    · rw [Function.update_self, (h.base.effect_cancel _ id).mayCall (fun h => h)]
      exact h.mayCall
  · unfold WebChatServer.cancel
    dsimp only
    split
    · rfl
    · exact Function.update_of_ne hj ..
  · rintro cb fact rfl hf
    refine hf.cancel h.base x (hid.imp_right ?_)
    rintro ⟨cb', hcb', hC⟩ heq
    rw [hcb'] at heq
    obtain rfl := Option.some.inj heq
    exact hy hC

theorem Acts.runAfter (h : s.Acts t k C) {cb : ChatTimer ι} (hx : t.loop cb.conn = k)
    (hC : C cb.conn) : s.Acts (t.runAfter cb) k C := by
  subst hx
  refine h.trans ⟨h.base.runAfter cb, ?_, h.plain, rfl, rfl,
    fun j hj => ⟨rfl, Function.update_of_ne hj ..⟩, fun y hy => ⟨⟨rfl, Iff.rfl, rfl, rfl, ?_, rfl,
      fun hq => hq⟩, rfl⟩⟩
  · show (Function.update t.queue _ _ (t.loop cb.conn)).phase.mayCall = true
    rw [Function.update_self, (h.base.effect_runAfter _ _).mayCall (fun h => h)]
    exact h.mayCall
  · rintro cb' fact rfl hf
    refine hf.runAfter h.base ?_
    rintro rfl
    exact hy hC

omit [DecidableEq κ] in
/-- The tables of the connections in `C`. -/
theorem Acts.tables (h : s.Acts t k C) {connections : List ι}
    {idleTimers : ι → Option ConnectionTimers} {parsers : ι → Option HttpParser}
    (hconnections : ∀ y, ¬ C y → (y ∈ connections ↔ y ∈ t.connections))
    (hidle : ∀ y, ¬ C y → idleTimers y = t.idleTimers y)
    (hparsers : ∀ y, ¬ C y → parsers y = t.parsers y) (mutex : Option κ) :
    s.Acts { t with connections, idleTimers, parsers, mutex } k C := by
  refine h.trans ⟨⟨h.base.clock, h.base.lastActive, h.base.notified, h.base.home, h.base.queue, h.base.ids,
    h.base.owner⟩, h.mayCall, h.plain, rfl, rfl, fun _ _ => ⟨rfl, rfl⟩, fun y hy => ⟨?_, rfl⟩⟩
  exact ⟨rfl, hconnections y hy, hidle y hy, congrArg _ (hparsers y hy), fun _ _ _ hf => hf, rfl,
    fun hq => hq⟩

omit [DecidableEq κ] in
theorem Acts.setTimers (h : s.Acts t k C) {x : ι} (hC : C x) (timers : Option ConnectionTimers) :
    s.Acts (t.setTimers x timers) k C :=
  h.tables (fun _ _ => Iff.rfl) (fun y hy => Function.update_of_ne (ne_of_concerned hC y hy) ..)
    (fun _ _ => rfl) t.mutex

omit [DecidableEq κ] in
theorem Acts.setParser (h : s.Acts t k C) {x : ι} (hC : C x) (parser : Option HttpParser) :
    s.Acts (t.setParser x parser) k C :=
  h.tables (fun _ _ => Iff.rfl) (fun _ _ => rfl)
    (fun y hy => Function.update_of_ne (ne_of_concerned hC y hy) ..) t.mutex

end Acts

end WebChatServer

end AegisNet
