import AegisNet.WebChatServer.Hearing

/-!
# What the threads share

A connection belongs to the thread of its loop, with its parser, its entry and its timers: that is
what `assertInLoopThread` checks. Other threads read its `state_` and queue strings for it, and what
they all share are the tables under `mutex_`. One thread holds the mutex for longer than a statement,
the one that broadcasts, and on its way to the end of `broadcast` it waits for nobody.

## Main definitions

- `ChatStep.thread` — the loop whose thread makes a step
- `ChatStep.asserted` — the loop whose `assertInLoopThread` is called in a step
- `WebChatServer.Confined` — a step that changes only what belongs to one loop
- `WebChatServer.Locked` — the invariant of the mutex

## Main results

- `WebChatServer.threads_confined`
- `WebChatServer.mutex_progress`
-/

namespace AegisNet

/-- The loop whose thread makes the step. -/
def ChatStep.thread {κ ι : Type*} (s : WebChatServer κ ι) : ChatStep κ ι → κ
  | connectEstablished x | handleEvent x _ _ _ _ | connectDestroyed x => s.loop x
  | readTimers k _ | swapFunctors k | nextFunctor k | perform k _ => k

def ChatStep.isStatementOf {κ ι : Type*} [DecidableEq κ] (k : κ) : ChatStep κ ι → Bool
  | perform j _ => j = k
  | _ => false

/-- How many statements the thread of `k` makes. -/
def statementsOf {κ ι : Type*} [DecidableEq κ] (k : κ) (ls : List (ℕ × ChatStep κ ι)) : ℕ :=
  ls.countP fun l => l.2.isStatementOf k

theorem statementsOf_append {κ ι : Type*} [DecidableEq κ] (k : κ)
    (ls ms : List (ℕ × ChatStep κ ι)) :
    statementsOf k (ls ++ ms) = statementsOf k ls + statementsOf k ms :=
  List.countP_append ..

/-- The loop whose `assertInLoopThread` is called in a statement that the thread of `k` makes. A
    method of a connection calls that of its own loop, and so do the timers. `send` looks at the
    thread before it calls `sendInLoop`, and `broadcast` itself calls nothing of the kind. -/
def ChatOp.asserted {κ ι : Type*} [DecidableEq κ] (s : WebChatServer κ ι) (k : κ) :
    ChatOp ι → Option κ
  | send x _ => if (s.conn x).state = .kConnected ∧ s.loop x = k then some (s.loop x) else none
  | op => op.owner.map s.loop

/-- The loop whose `assertInLoopThread` is called in a step. -/
def ChatStep.asserted {κ ι : Type*} [DecidableEq κ] (s : WebChatServer κ ι) :
    ChatStep κ ι → Option κ
  | perform k _ => (s.threads.running k).head?.bind fun op => op.asserted s k
  | l => some (l.thread s)

/-- What a statement adds to its thread's list is of lower levels. -/
def ChatOp.level {ι : Type*} : ChatOp ι → ℕ
  | handleClose _ | handleRead _ _ | handleWrite _ _ _ | runBound _ _ | sendInLoop _ _ => 4
  | drainRequests _ => 3
  | broadcast _ | updateConnections _ | handleIdleTimeout _ | handleForceCloseTimeout _ => 2
  | _ => 1

namespace WebChatServer

variable {κ ι : Type*}

/-- From `s` to `t` the thread of `k` has changed nothing that belongs to another loop. What it has
    queued there are calls of `sendInLoop` for connections of that loop. -/
structure Confined (s t : WebChatServer κ ι) (k : κ) : Prop where
  loop : t.loop = s.loop
  conn : ∀ x, s.loop x ≠ k → t.conn x = s.conn x
  parsers : ∀ x, s.loop x ≠ k → t.parsers x = s.parsers x
  idleTimers : ∀ x, s.loop x ≠ k → t.idleTimers x = s.idleTimers x
  listed : ∀ x, s.loop x ≠ k → (x ∈ t.connections ↔ x ∈ s.connections)
  queue : ∀ j, j ≠ k → t.queue j = s.queue j
  nextTimerId : ∀ j, j ≠ k → t.nextTimerId j = s.nextTimerId j
  callback : ∀ j, j ≠ k → t.callback j = s.callback j
  running : ∀ j, j ≠ k → t.threads.running j = s.threads.running j
  functors : ∀ j, j ≠ k → (t.threads.loops j).functors = (s.threads.loops j).functors
  pendingFunctors : ∀ j, j ≠ k → ∃ fs, (t.threads.loops j).pendingFunctors =
    (s.threads.loops j).pendingFunctors ++ fs ∧
      ∀ f ∈ fs, ∃ x buf, f = .sendInLoop x buf ∧ s.loop x = j

variable {s t u : WebChatServer κ ι} {k : κ} {x : ι}

namespace Confined

theorem refl (s : WebChatServer κ ι) (k : κ) : s.Confined s k where
  loop := rfl
  conn _ _ := rfl
  parsers _ _ := rfl
  idleTimers _ _ := rfl
  listed _ _ := Iff.rfl
  queue _ _ := rfl
  nextTimerId _ _ := rfl
  callback _ _ := rfl
  running _ _ := rfl
  functors _ _ := rfl
  pendingFunctors _ _ := ⟨[], (List.append_nil _).symm, by simp⟩

theorem trans (h : s.Confined t k) (h' : t.Confined u k) : s.Confined u k := by
  have hloop := h.loop
  refine ⟨h'.loop.trans hloop, fun x hx => ?_, fun x hx => ?_, fun x hx => ?_, fun x hx => ?_,
    fun j hj => (h'.queue j hj).trans (h.queue j hj),
    fun j hj => (h'.nextTimerId j hj).trans (h.nextTimerId j hj),
    fun j hj => (h'.callback j hj).trans (h.callback j hj),
    fun j hj => (h'.running j hj).trans (h.running j hj),
    fun j hj => (h'.functors j hj).trans (h.functors j hj), fun j hj => ?_⟩
  · exact (h'.conn x (hloop ▸ hx)).trans (h.conn x hx)
  · exact (h'.parsers x (hloop ▸ hx)).trans (h.parsers x hx)
  · exact (h'.idleTimers x (hloop ▸ hx)).trans (h.idleTimers x hx)
  · exact (h'.listed x (hloop ▸ hx)).trans (h.listed x hx)
  · obtain ⟨fs, hfs, hsend⟩ := h.pendingFunctors j hj
    obtain ⟨gs, hgs, hsend'⟩ := h'.pendingFunctors j hj
    refine ⟨fs ++ gs, by rw [hgs, hfs, List.append_assoc], fun f hf => ?_⟩
    obtain hf | hf := List.mem_append.mp hf
    · exact hsend f hf
    · rw [← hloop]
      exact hsend' f hf

/-- The tables and the mutex. -/
theorem tables (hloop : t.loop = s.loop) (hconn : t.conn = s.conn)
    (hthreads : t.threads = s.threads) (hqueue : t.queue = s.queue)
    (hid : t.nextTimerId = s.nextTimerId) (hcallback : t.callback = s.callback)
    (hparsers : ∀ x, s.loop x ≠ k → t.parsers x = s.parsers x)
    (hidle : ∀ x, s.loop x ≠ k → t.idleTimers x = s.idleTimers x)
    (hlisted : ∀ x, s.loop x ≠ k → (x ∈ t.connections ↔ x ∈ s.connections)) :
    s.Confined t k where
  loop := hloop
  conn _ _ := by rw [hconn]
  parsers := hparsers
  idleTimers := hidle
  listed := hlisted
  queue _ _ := by rw [hqueue]
  nextTimerId _ _ := by rw [hid]
  callback _ _ := by rw [hcallback]
  running _ _ := by rw [hthreads]
  functors _ _ := by rw [hthreads]
  pendingFunctors _ _ := ⟨[], by rw [hthreads, List.append_nil], by simp⟩

/-- A change of the threads. -/
theorem threads (h : s.Confined t k) {T : Threads κ (ChatFunctor ι) (ChatOp ι)}
    (hrunning : ∀ j, j ≠ k → T.running j = t.threads.running j)
    (hloops : ∀ j, j ≠ k → T.loops j = t.threads.loops j) :
    s.Confined { t with threads := T } k := by
  refine h.trans { Confined.refl t k with running := hrunning, functors := ?_, pendingFunctors := ?_ }
  · intro j hj
    exact congrArg EventLoop.functors (hloops j hj)
  · intro j hj
    refine ⟨[], ?_, by simp⟩
    exact (congrArg EventLoop.pendingFunctors (hloops j hj)).trans (List.append_nil _).symm

theorem setTimers [LinearOrder ι] (h : s.Confined t k) (hx : s.loop x = k)
    (timers : Option ConnectionTimers) : s.Confined (t.setTimers x timers) k := by
  refine h.trans (.tables rfl rfl rfl rfl rfl rfl (fun _ _ => rfl) ?_ fun _ _ => Iff.rfl)
  intro y hy
  refine Function.update_of_ne ?_ ..
  rintro rfl
  exact hy (h.loop ▸ hx)

theorem setParser [LinearOrder ι] (h : s.Confined t k) (hx : s.loop x = k)
    (parser : Option HttpParser) : s.Confined (t.setParser x parser) k := by
  refine h.trans (.tables rfl rfl rfl rfl rfl rfl ?_ (fun _ _ => rfl) fun _ _ => Iff.rfl)
  intro y hy
  refine Function.update_of_ne ?_ ..
  rintro rfl
  exact hy (h.loop ▸ hx)

variable [DecidableEq κ]

theorem call (h : s.Confined t k) (ops : List (ChatOp ι)) : s.Confined (t.call k ops) k :=
  h.threads (fun _ hj => Function.update_of_ne hj ..) fun _ _ => rfl

theorem advance (h : s.Confined t k) (rest : List (ChatOp ι)) : s.Confined (t.advance k rest) k :=
  h.threads (fun _ hj => Function.update_of_ne hj ..) fun _ _ => rfl

theorem queueFunctors (h : s.Confined t k) (hx : s.loop x = k) (fs : List Functor) :
    s.Confined (t.queueFunctors x fs) k := by
  have ht : t.loop x = k := h.loop ▸ hx
  unfold WebChatServer.queueFunctors
  apply h.threads
  · intro j _
    rw [Threads.running_foldl_queueInLoop]
  · intro j hj
    generalize t.threads = T
    induction fs generalizing T with
    | nil => rfl
    | cons f fs ih =>
      refine (ih _).trans ?_
      exact Function.update_of_ne (ht ▸ hj) ..

/-- A string for a connection of another loop. -/
theorem queueString (x : ι) (buf : Bytes) :
    s.Confined { s with threads := s.threads.queueInLoop (s.loop x) (.sendInLoop x buf) } k := by
  refine { Confined.refl s k with functors := ?_, pendingFunctors := ?_ }
  · intro j _
    show (Function.update s.threads.loops (s.loop x) _ j).functors = _
    by_cases hj : j = s.loop x
    · rw [hj, Function.update_self]
      rfl
    · rw [Function.update_of_ne hj]
  · intro j _
    by_cases hj : j = s.loop x
    · subst hj
      refine ⟨[.sendInLoop x buf], ?_, fun f hf => ⟨x, buf, List.mem_singleton.mp hf, rfl⟩⟩
      show (Function.update s.threads.loops (s.loop x) _ (s.loop x)).pendingFunctors = _
      rw [Function.update_self]
      rfl
    · refine ⟨[], ?_, by simp⟩
      show (Function.update s.threads.loops (s.loop x) _ j).pendingFunctors = _
      rw [Function.update_of_ne hj, List.append_nil]

theorem cancel (h : s.Confined t k) (hx : s.loop x = k) (id : TimerId) :
    s.Confined (t.cancel x id) k := by
  refine h.trans { Confined.refl t k with queue := ?_ }
  intro j hj
  have hne : j ≠ t.loop x := by rwa [h.loop, hx]
  show (if id = 0 then t.queue else _) j = _
  split
  · rfl
  · exact Function.update_of_ne hne ..

theorem runAfter (h : s.Confined t k) {cb : ChatTimer ι} (hx : s.loop cb.conn = k) :
    s.Confined (t.runAfter cb) k := by
  have hne : ∀ j, j ≠ k → j ≠ t.loop cb.conn := fun j hj => by rwa [h.loop, hx]
  refine h.trans { Confined.refl t k with queue := ?_, nextTimerId := ?_, callback := ?_ }
  all_goals
    intro j hj
    exact Function.update_of_ne (hne j hj) ..

variable [LinearOrder ι]

theorem method (h : s.Confined t k) (hx : s.loop x = k) (f : TcpConnection → TcpConnection) :
    s.Confined (t.method k x f) k := by
  have hown : ∀ (conn : ι → TcpConnection) (lastActive : ι → ℕ),
      (∀ y, y ≠ x → conn y = t.conn y) →
      s.Confined { t with conn := conn, lastActive := lastActive } k := by
    intro conn lastActive hconn
    refine h.trans { Confined.refl t k with conn := ?_ }
    intro y hy
    apply hconn
    rintro rfl
    exact hy (h.loop ▸ hx)
  refine ((hown _ _ ?_).queueFunctors hx _).call _
  exact fun y hy => Function.update_of_ne hy ..

theorem updateConnections (hx : s.loop x = k) : s.Confined (s.updateConnections k x) k := by
  have hne : ∀ y, s.loop y ≠ k → y ≠ x := by
    rintro y hy rfl
    exact hy hx
  have hlist : ∀ connections : List ι,
      (∀ y, y ≠ x → (y ∈ connections ↔ y ∈ s.connections)) →
      s.Confined { s with connections := connections } k := fun connections h =>
    .tables rfl rfl rfl rfl rfl rfl (fun _ _ => rfl) (fun _ _ => rfl) fun y hy => h y (hne y hy)
  unfold WebChatServer.updateConnections
  split
  · refine ((hlist _ fun y hy => ?_).setTimers hx _).call _
    split
    · exact Iff.rfl
    · rw [List.mem_orderedInsert, or_iff_right hy]
  · refine ((hlist _ fun y hy => ?_).setTimers hx _).call _
    rw [List.mem_filter, and_iff_left (decide_eq_true hy)]

/-- A statement on the loop of its connection. -/
theorem execOp {op : ChatOp ι} (hop : ∀ x, op.owner = some x → s.loop x = k) (w : IoResult) :
    s.Confined (s.execOp k w op) k := by
  have hrefl := Confined.refl s k
  have hmutex : ∀ m, s.Confined { s with mutex := m } k := fun _ =>
    .tables rfl rfl rfl rfl rfl rfl (fun _ _ => rfl) (fun _ _ => rfl) fun _ _ => Iff.rfl
  cases op with
  | updateConnections x => exact updateConnections (hop x rfl)
  | cancelTimers x i f => exact (hrefl.cancel (hop x rfl) i).cancel (hop x rfl) f
  | refreshIdleTimer x =>
    have hx : s.loop (ChatTimer.handleIdleTimeout x).conn = k := hop x rfl
    show s.Confined (s.refreshIdleTimer x) k
    unfold WebChatServer.refreshIdleTimer
    split
    · split
      · exact hrefl
      · exact ((hrefl.cancel hx _).runAfter hx).setTimers hx _
    · exact hrefl
  | updateParsers x =>
    show s.Confined (s.updateParsers x) k
    unfold WebChatServer.updateParsers
    split <;> exact hrefl.setParser (hop x rfl) _
  | drainRequests x =>
    have hx := hop x rfl
    exact ((hrefl.setParser hx _).method hx _).call _
  | send x buf =>
    show s.Confined (s.send k x buf w) k
    unfold WebChatServer.send
    split
    · split
      · next hx => exact hrefl.method hx _
      · exact queueString x buf
    · exact hrefl
  | broadcast msg => exact (hmutex _).call _
  | unlock => exact hmutex none
  | handleIdleTimeout x =>
    show s.Confined (s.handleIdleTimeout k x) k
    unfold WebChatServer.handleIdleTimeout
    split
    · exact hrefl.call _
    · exact hrefl
  | startForceCloseTimer x =>
    have hx : s.loop (ChatTimer.handleForceCloseTimeout x).conn = k := hop x rfl
    show s.Confined (s.startForceCloseTimer x) k
    unfold WebChatServer.startForceCloseTimer
    split
    · exact hrefl
    · exact (hrefl.runAfter hx).setTimers hx _
  | handleForceCloseTimeout x =>
    show s.Confined (s.handleForceCloseTimeout k x) k
    unfold WebChatServer.handleForceCloseTimeout
    split
    · exact hrefl
    · exact (hrefl.setTimers (hop x rfl) _).call _
  | forceClose x =>
    show s.Confined (s.forceClose k x) k
    unfold WebChatServer.forceClose
    split
    · exact hrefl
    · exact hrefl.method (hop x rfl) _
  | handleClose x => exact hrefl.method (hop x rfl) TcpConnection.handleClose
  | handleRead x readv => exact hrefl.method (hop x rfl) fun c => c.handleRead readv []
  | handleWrite x w f => exact hrefl.method (hop x rfl) fun c => c.handleWrite w f
  | shutdown x => exact hrefl.method (hop x rfl) TcpConnection.shutdown
  | runBound x f => exact hrefl.method (hop x rfl) fun c => c.runFunctor f
  | sendInLoop x buf => exact hrefl.method (hop x rfl) fun c => c.sendInLoop buf w

omit [LinearOrder ι] in
theorem readTimers (l : ReadStep) : s.Confined (s.readTimers k l) k := by
  have hstep : s.Confined (s.stepTimers k l) k := by
    refine { Confined.refl s k with queue := ?_ }
    intro j hj
    exact Function.update_of_ne hj ..
  unfold WebChatServer.readTimers
  split
  · split
    · exact hstep
    · exact hstep.call _
  · exact hstep

end Confined

variable [DecidableEq κ] [LinearOrder ι] {L : ι → Prop}

/-- In a step of the server the thread that makes it stays with its own loop. -/
theorem Sound.confined (h : s.Sound L) (l : ChatStep κ ι) :
    s.Confined (s.execStep l) (l.thread s) := by
  have hrefl := Confined.refl s (l.thread s)
  cases l with
  | connectEstablished x => exact hrefl.method rfl _
  | connectDestroyed x => exact hrefl.method rfl _
  | handleEvent x revents readv w f => exact hrefl.call _
  | readTimers k l => exact Confined.readTimers l
  | swapFunctors k =>
    exact hrefl.threads (fun _ _ => rfl) fun j hj => Function.update_of_ne hj ..
  | nextFunctor k =>
    show s.Confined { s with threads := s.threads.nextFunctor ChatFunctor.body k } k
    unfold Threads.nextFunctor
    split
    · exact hrefl
    · apply hrefl.threads
      · exact fun j hj => Function.update_of_ne hj ..
      · exact fun j hj => Function.update_of_ne hj ..
  | perform k w =>
    show s.Confined (s.perform k w) k
    unfold WebChatServer.perform
    split
    · exact hrefl
    · next op rest hrun =>
      -- the home of the statement
      have hexec : (s.advance k rest).Confined ((s.advance k rest).execOp k w op) k :=
        Confined.execOp (fun x hx => ((h.performing hrun).home x hx).1) w
      exact (Confined.advance hrefl rest).trans hexec

/-- No `assertInLoopThread` fails. -/
theorem Sound.asserted (h : s.Sound L) (l : ChatStep κ ι) : ∀ j ∈ l.asserted s, j = l.thread s := by
  intro j hj
  cases l with
  | perform k w =>
    obtain ⟨op, hop, hj⟩ := Option.bind_eq_some_iff.mp hj
    obtain ⟨rest, hrun⟩ := List.head?_eq_some_iff.mp hop
    have howner : ∀ x, op.owner = some x → s.loop x = k := fun x hx =>
      ((h.performing hrun).home x hx).1
    unfold ChatOp.asserted at hj
    split at hj
    · split at hj
      · next hsend => exact (Option.some.inj hj).symm.trans hsend.2
      · cases hj
    · obtain ⟨x, hx, rfl⟩ := Option.map_eq_some_iff.mp hj
      exact howner x hx
  | _ => exact (Option.some.inj hj).symm

/-- A step that starts something, or a statement that does not take the mutex, leaves the tables
    as they are. -/
theorem tables_execOp {op : ChatOp ι} (hop : ¬ s.Locks op) (w : IoResult) :
    (s.execOp k w op).connections = s.connections ∧
      (s.execOp k w op).idleTimers = s.idleTimers := by
  cases op with
  | updateConnections x => exact absurd trivial hop
  | startForceCloseTimer x => exact absurd trivial hop
  | handleForceCloseTimeout x => exact absurd trivial hop
  | broadcast msg => exact absurd trivial hop
  | refreshIdleTimer x =>
    have hdown : (s.conn x).state ≠ .kConnected := hop
    show (s.refreshIdleTimer x).connections = _ ∧ (s.refreshIdleTimer x).idleTimers = _
    rw [WebChatServer.refreshIdleTimer, if_neg hdown]
    exact ⟨rfl, rfl⟩
  | updateParsers x =>
    show (s.updateParsers x).connections = _ ∧ (s.updateParsers x).idleTimers = _
    unfold WebChatServer.updateParsers
    split <;> exact ⟨rfl, rfl⟩
  | send x buf =>
    show (s.send k x buf w).connections = _ ∧ (s.send k x buf w).idleTimers = _
    unfold WebChatServer.send
    split
    · split <;> exact ⟨rfl, rfl⟩
    · exact ⟨rfl, rfl⟩
  | handleIdleTimeout x =>
    show (s.handleIdleTimeout k x).connections = _ ∧ (s.handleIdleTimeout k x).idleTimers = _
    unfold WebChatServer.handleIdleTimeout
    split <;> exact ⟨rfl, rfl⟩
  | forceClose x =>
    show (s.forceClose k x).connections = _ ∧ (s.forceClose k x).idleTimers = _
    unfold WebChatServer.forceClose
    split <;> exact ⟨rfl, rfl⟩
  | _ => exact ⟨rfl, rfl⟩

/-! ## The mutex -/

/-- The thread of `k` goes on with `ops`, all below level `n`, none of which ends a broadcast. -/
structure Adds (s t : WebChatServer κ ι) (k : κ) (n : ℕ) (ops : List (ChatOp ι)) : Prop where
  running : t.threads.running = Function.update s.threads.running k (ops ++ s.threads.running k)
  unlock : .unlock ∉ ops
  level : ∀ o ∈ ops, o.level < n
  mutex : t.mutex = s.mutex

namespace Adds

variable {n : ℕ} {ops : List (ChatOp ι)}

omit [LinearOrder ι] in
theorem of_eq (hrunning : t.threads.running = s.threads.running) (hmutex : t.mutex = s.mutex) :
    s.Adds t k n [] where
  running := by rw [hrunning, List.nil_append, Function.update_eq_self]
  unlock := List.not_mem_nil
  level := by simp
  mutex := hmutex

omit [LinearOrder ι] in
theorem call (h : s.Adds t k n ops) (ops' : List (ChatOp ι)) (hunlock : .unlock ∉ ops')
    (hlevel : ∀ o ∈ ops', o.level < n) : ∃ added, s.Adds (t.call k ops') k n added := by
  refine ⟨ops' ++ ops, ?_, fun hmem => ?_, fun o hmem => ?_, h.mutex⟩
  · show Function.update t.threads.running k (ops' ++ t.threads.running k) = _
    rw [h.running, Function.update_self, Function.update_idem, List.append_assoc]
  · exact (List.mem_append.mp hmem).elim hunlock h.unlock
  · exact (List.mem_append.mp hmem).elim (hlevel o) (h.level o)

/-- A method of a connection. -/
theorem method (h : s.Adds t k n ops) (hn : 3 < n) (x : ι) (f : TcpConnection → TcpConnection) :
    ∃ added, s.Adds (t.method k x f) k n added := by
  refine ⟨((t.conn x).newCallbacks (f (t.conn x))).flatMap (ChatOp.ofCallback x) ++ ops, ?_,
    fun hmem => ?_, fun o hmem => ?_, h.mutex⟩
  · rw [funext (running_method x f), h.running, Function.update_self, Function.update_idem,
      List.append_assoc]
  · obtain hmem | hmem := List.mem_append.mp hmem
    · obtain ⟨e, -, he⟩ := List.mem_flatMap.mp hmem
      cases e <;> simp [ChatOp.ofCallback] at he
    · exact h.unlock hmem
  · obtain hmem | hmem := List.mem_append.mp hmem
    · obtain ⟨e, -, he⟩ := List.mem_flatMap.mp hmem
      have hle : o.level ≤ 3 := by
        cases e with
        | connectionCallback _ =>
          simp only [ChatOp.ofCallback, List.mem_cons, List.not_mem_nil, or_false] at he
          obtain rfl | rfl | rfl := he <;> simp [ChatOp.level]
        | messageCallback =>
          simp only [ChatOp.ofCallback, List.mem_cons, List.not_mem_nil, or_false] at he
          obtain rfl | rfl := he <;> simp [ChatOp.level]
        | _ => cases he
      exact hle.trans_lt hn
    · exact h.level o hmem

/-- A method that makes no callbacks. -/
theorem method_quiet (h : s.Adds t k n ops) {x : ι} {f : TcpConnection → TcpConnection}
    (hm : (t.conn x).Makes (f (t.conn x)) []) : s.Adds (t.method k x f) k n ops where
  running := by
    rw [funext (running_method x f), h.running, hm.newCallbacks, Function.update_self,
      Function.update_idem]
    rfl
  unlock := h.unlock
  level := h.level
  mutex := h.mutex

end Adds

/-- The statements that neither begin nor end a broadcast. -/
theorem adds_execOp {op : ChatOp ι} (hbroadcast : ∀ msg, op ≠ .broadcast msg) (hunlock : op ≠ .unlock)
    (w : IoResult) : ∃ ops, s.Adds (s.execOp k w op) k op.level ops := by
  have hnone : ∀ n, s.Adds s k n [] := fun _ => .of_eq rfl rfl
  have htables : ∀ x connections timers n,
      s.Adds ({ s with connections := connections }.setTimers x timers) k n [] :=
    fun _ _ _ _ => .of_eq rfl rfl
  have hmethod : ∀ x (f : TcpConnection → TcpConnection), ∃ ops, s.Adds (s.method k x f) k 4 ops :=
    (hnone 4).method (by decide)
  cases op with
  | updateConnections x =>
    show ∃ ops, s.Adds (s.updateConnections k x) k 2 ops
    unfold WebChatServer.updateConnections
    split
    · exact (htables x _ _ 2).call _ (by simp) (by simp [ChatOp.level])
    · exact (htables x _ _ 2).call _ (by simp) (by simp [ChatOp.level])
  | cancelTimers x i f => exact ⟨_, .of_eq rfl rfl⟩
  | refreshIdleTimer x =>
    refine ⟨[], .of_eq ?_ ?_⟩
    all_goals
      simp only [WebChatServer.execOp, WebChatServer.refreshIdleTimer]
      split
      · split <;> rfl
      · rfl
  | updateParsers x =>
    refine ⟨[], .of_eq ?_ ?_⟩
    all_goals
      simp only [WebChatServer.execOp, WebChatServer.updateParsers]
      split <;> rfl
  | drainRequests x =>
    -- the drain itself makes no callbacks
    have hdrain : ∀ p buf, s.Adds ((s.setParser x p).method k x fun c => { c with inputBuffer := buf })
        k 3 [] := by
      intro p buf
      have hparser : s.Adds (s.setParser x p) k 3 [] := .of_eq rfl rfl
      exact hparser.method_quiet ⟨(List.append_nil _).symm, rfl⟩
    refine (hdrain _ _).call _ (fun hmem => ?_) fun o hmem => ?_
    · obtain ⟨r, -, hr⟩ := List.mem_map.mp hmem
      cases r <;> cases hr
    · obtain ⟨r, -, rfl⟩ := List.mem_map.mp hmem
      cases r <;> simp [ChatOp.ofReply, ChatOp.level]
  | send x buf =>
    show ∃ ops, s.Adds (s.send k x buf w) k 1 ops
    unfold WebChatServer.send
    split
    · split
      · exact ⟨_, (hnone 1).method_quiet ((TcpConnection.quiet_sendInLoop _ buf w).makes
          (TcpConnection.flags_sendInLoop _ buf w))⟩
      · exact ⟨_, .of_eq rfl rfl⟩
    · exact ⟨_, hnone 1⟩
  | broadcast msg => exact absurd rfl (hbroadcast msg)
  | unlock => exact absurd rfl hunlock
  | shutdown x => exact ⟨_, (hnone 1).method_quiet (TcpConnection.makes_shutdown _)⟩
  | handleIdleTimeout x =>
    show ∃ ops, s.Adds (s.handleIdleTimeout k x) k 2 ops
    unfold WebChatServer.handleIdleTimeout
    split
    · exact (hnone 2).call _ (by simp) (by simp [ChatOp.level])
    · exact ⟨_, hnone 2⟩
  | startForceCloseTimer x =>
    refine ⟨[], .of_eq ?_ ?_⟩
    all_goals
      simp only [WebChatServer.execOp, WebChatServer.startForceCloseTimer]
      split <;> rfl
  | handleForceCloseTimeout x =>
    show ∃ ops, s.Adds (s.handleForceCloseTimeout k x) k 2 ops
    unfold WebChatServer.handleForceCloseTimeout
    split
    · exact ⟨_, hnone 2⟩
    · exact (htables x s.connections _ 2).call _ (by simp) (by simp [ChatOp.level])
  | forceClose x =>
    show ∃ ops, s.Adds (s.forceClose k x) k 1 ops
    unfold WebChatServer.forceClose
    split
    · exact ⟨_, hnone 1⟩
    · exact ⟨_, (hnone 1).method_quiet (TcpConnection.makes_forceClose _)⟩
  | handleClose x => exact hmethod x TcpConnection.handleClose
  | handleRead x readv => exact hmethod x fun c => c.handleRead readv []
  | handleWrite x w f => exact hmethod x fun c => c.handleWrite w f
  | runBound x f => exact hmethod x fun c => c.runFunctor f
  | sendInLoop x buf => exact hmethod x fun c => c.sendInLoop buf w

/-- The steps that start something on a thread. -/
theorem adds_execStep {l : ChatStep κ ι} (hready : s.Ready l) (hl : ∀ k w, l ≠ .perform k w) :
    s.threads.running (l.thread s) = [] ∧ (∃ ops, s.Adds (s.execStep l) (l.thread s) 5 ops) ∧
      (s.execStep l).connections = s.connections ∧ (s.execStep l).idleTimers = s.idleTimers := by
  have hnone : ∀ k, s.Adds s k 5 [] := fun _ => .of_eq rfl rfl
  have hlt : ∀ o : ChatOp ι, o.level < 5 := fun o => by
    cases o <;> simp [ChatOp.level]
  cases l with
  | connectEstablished x => exact ⟨hready.1.1, (hnone _).method (by decide) x _, rfl, rfl⟩
  | connectDestroyed x => exact ⟨hready.1.1, (hnone _).method (by decide) x _, rfl, rfl⟩
  | handleEvent x revents readv w f =>
    refine ⟨hready.1.1, (hnone _).call _ (fun hmem => ?_) fun o _ => hlt o, rfl, rfl⟩
    simp [dispatch] at hmem
  | readTimers k l =>
    have hstep : s.Adds (s.stepTimers k l) k 5 [] := .of_eq rfl rfl
    refine ⟨hready.1, ?_⟩
    show (∃ ops, s.Adds (s.readTimers k l) k 5 ops) ∧ (s.readTimers k l).connections = _ ∧
      (s.readTimers k l).idleTimers = _
    unfold WebChatServer.readTimers
    split
    · split
      · exact ⟨⟨_, hstep⟩, rfl, rfl⟩
      · next cb _ =>
        refine ⟨hstep.call _ ?_ fun o _ => hlt o, rfl, rfl⟩
        cases cb <;> simp [ChatTimer.op]
    · exact ⟨⟨_, hstep⟩, rfl, rfl⟩
  | swapFunctors k => exact ⟨hready.1.1, ⟨_, .of_eq rfl rfl⟩, rfl, rfl⟩
  | nextFunctor k =>
    refine ⟨hready.1, ?_⟩
    show (∃ ops, s.Adds { s with threads := s.threads.nextFunctor ChatFunctor.body k } k 5 ops) ∧ _
    unfold Threads.nextFunctor
    split
    · exact ⟨⟨_, hnone k⟩, rfl, rfl⟩
    · next cb rest _ =>
      refine ⟨⟨cb.body, rfl, ?_, fun o _ => hlt o, rfl⟩, rfl, rfl⟩
      cases cb <;> simp [ChatFunctor.body]
  | perform k w => exact absurd rfl (hl k w)

/-- No thread is in `broadcast`. -/
structure Unlocked (s : WebChatServer κ ι) : Prop where
  mutex : s.mutex = none
  running : ∀ j, .unlock ∉ s.threads.running j

/-- The thread of `k` is in `broadcast`. It has still to send to `xs`, the connections that its
    iterator has in front of it, and `rest` is what comes behind. -/
structure Broadcasting (s : WebChatServer κ ι) (k : κ) (xs : List ι) (msg : Bytes)
    (rest : List (ChatOp ι)) : Prop where
  mutex : s.mutex = some k
  running : s.threads.running k =
    xs.map (fun x => ChatOp.send x (broadcastText msg)) ++ .unlock :: rest
  listed : xs <:+ s.connections
  rest : .unlock ∉ rest
  other : ∀ j, j ≠ k → .unlock ∉ s.threads.running j

/-- The invariant of the mutex. -/
def Locked (s : WebChatServer κ ι) : Prop :=
  s.Unlocked ∨ ∃ k xs msg rest, s.Broadcasting k xs msg rest

section Locked

variable {xs : List ι} {msg : Bytes} {op : ChatOp ι} {rest : List (ChatOp ι)} {j : κ}

theorem perform_cons (hrun : s.threads.running k = op :: rest) (w : IoResult) :
    s.perform k w = (s.advance k rest).execOp k w op := by
  unfold WebChatServer.perform
  rw [hrun]

theorem perform_nil (hrun : s.threads.running k = []) (w : IoResult) : s.perform k w = s := by
  unfold WebChatServer.perform
  rw [hrun]

omit [LinearOrder ι] in
theorem Adds.notMem {n : ℕ} {ops : List (ChatOp ι)} (h : s.Adds t k n ops)
    (hj : .unlock ∉ s.threads.running j) : .unlock ∉ t.threads.running j := by
  rw [h.running]
  by_cases hjk : j = k
  · subst hjk
    rw [Function.update_self, List.mem_append]
    exact fun hmem => hmem.elim h.unlock hj
  · rwa [Function.update_of_ne hjk]

omit [LinearOrder ι] in
theorem Adds.running_of_ne {n : ℕ} {ops : List (ChatOp ι)} (h : s.Adds t k n ops) (hj : j ≠ k) :
    t.threads.running j = s.threads.running j := by
  rw [h.running, Function.update_of_ne hj]

omit [LinearOrder ι] in
theorem notMem_advance (hrun : s.threads.running k = op :: rest)
    (hj : .unlock ∉ s.threads.running j) : .unlock ∉ (s.advance k rest).threads.running j := by
  show .unlock ∉ Function.update s.threads.running k rest j
  by_cases hjk : j = k
  · subst hjk
    rw [Function.update_self]
    rw [hrun] at hj
    exact fun hmem => hj (List.mem_cons_of_mem _ hmem)
  · rwa [Function.update_of_ne hjk]

/-- Step lemma where no thread is in `broadcast`. -/
theorem Unlocked.execStep (h : s.Unlocked) {l : ChatStep κ ι} (hready : s.Ready l) :
    (s.execStep l).Locked := by
  by_cases hperform : ∃ k w, l = .perform k w
  · obtain ⟨k, w, rfl⟩ := hperform
    show (s.perform k w).Locked
    cases hrun : s.threads.running k with
    | nil =>
      rw [perform_nil hrun]
      exact .inl h
    | cons op rest =>
      have hrest := fun j => notMem_advance hrun (h.running j)
      rw [perform_cons hrun]
      by_cases hbroadcast : ∃ msg, op = .broadcast msg
      · -- it takes the mutex, with all of `connections_` in front of it
        obtain ⟨msg, rfl⟩ := hbroadcast
        have hp := proceeds_broadcast hrun
        refine .inr ⟨k, s.connections, msg, rest, rfl, ?_, List.suffix_refl _, ?_, fun j hj => ?_⟩
        · refine hp.after.trans ?_
          rw [List.append_assoc]
          rfl
        · have hk := hrest k
          rwa [running_advance] at hk
        · show .unlock ∉ ((s.advance k rest).broadcast k msg).threads.running j
          rw [hp.other j hj]
          exact h.running j
      · have hunlock : op ≠ .unlock := by
          rintro rfl
          exact h.running k (hrun ▸ List.mem_cons_self)
        obtain ⟨ops, ha⟩ := adds_execOp (s := s.advance k rest) (k := k)
          (fun msg hop => hbroadcast ⟨msg, hop⟩) hunlock w
        exact .inl ⟨ha.mutex.trans h.mutex, fun j => ha.notMem (hrest j)⟩
  · obtain ⟨-, ⟨ops, ha⟩, -⟩ := adds_execStep hready fun k w hl => hperform ⟨k, w, hl⟩
    exact .inl ⟨ha.mutex.trans h.mutex, fun j => ha.notMem (h.running j)⟩

omit [DecidableEq κ] [LinearOrder ι] in
/-- The thread that broadcasts waits for nobody. -/
theorem Broadcasting.ready (h : s.Broadcasting k xs msg rest) (w : IoResult) :
    s.Ready (.perform k w) := by
  intro op hop hlocks
  rw [h.running] at hop
  cases xs with
  | nil =>
    obtain rfl : .unlock = op := by simpa using hop
    exact hlocks.elim
  | cons x xs =>
    obtain rfl : .send x (broadcastText msg) = op := by simpa using hop
    exact hlocks.elim

/-- The next statement of the thread that broadcasts. -/
theorem Broadcasting.perform (h : s.Broadcasting k xs msg rest) (w : IoResult) :
    (s.perform k w).connections = s.connections ∧ (s.perform k w).idleTimers = s.idleTimers ∧
      ((xs = [] ∧ (s.perform k w).Unlocked) ∨
        (xs ≠ [] ∧ (s.perform k w).Broadcasting k xs.tail msg rest)) := by
  have hother : ∀ j, j ≠ k → ∀ rest, .unlock ∉ (s.advance k rest).threads.running j := by
    intro j hj rest
    show .unlock ∉ Function.update s.threads.running k rest j
    rw [Function.update_of_ne hj]
    exact h.other j hj
  cases xs with
  | nil =>
    have hrun : s.threads.running k = .unlock :: rest := h.running
    rw [perform_cons hrun]
    refine ⟨rfl, rfl, .inl ⟨rfl, rfl, fun j => ?_⟩⟩
    by_cases hj : j = k
    · subst hj
      show .unlock ∉ (s.advance j rest).threads.running j
      rw [running_advance]
      exact h.rest
    · exact hother j hj rest
  | cons x xs =>
    have hrun : s.threads.running k = .send x (broadcastText msg) ::
      (xs.map (fun x => ChatOp.send x (broadcastText msg)) ++ .unlock :: rest) := h.running
    rw [perform_cons hrun]
    have hsend := proceeds_send w hrun
    have hlocks : ¬ (s.advance k (xs.map (fun x => ChatOp.send x (broadcastText msg)) ++
        .unlock :: rest)).Locks (.send x (broadcastText msg)) := id
    have hbroadcast : ∀ msg', ChatOp.send x (broadcastText msg) ≠ .broadcast msg' := by simp
    have hunlock : ChatOp.send x (broadcastText msg) ≠ .unlock := by simp
    obtain ⟨hconnections, hidleTimers⟩ := tables_execOp (k := k) hlocks w
    obtain ⟨ops, ha⟩ := adds_execOp (s := s.advance k _) (k := k) hbroadcast hunlock w
    refine ⟨hconnections, hidleTimers, .inr ⟨List.cons_ne_nil _ _, ha.mutex.trans h.mutex,
      hsend.after, ?_, h.rest, fun j hj => ha.notMem (hother j hj _)⟩⟩
    rw [hconnections]
    exact (List.suffix_cons x xs).trans h.listed

omit [DecidableEq κ] [LinearOrder ι] in
theorem Broadcasting.frame (h : s.Broadcasting k xs msg rest) (hmutex : t.mutex = s.mutex)
    (hconnections : t.connections = s.connections)
    (hrunning : t.threads.running k = s.threads.running k)
    (hother : ∀ j, j ≠ k → .unlock ∉ t.threads.running j) : t.Broadcasting k xs msg rest where
  mutex := hmutex.trans h.mutex
  running := hrunning.trans h.running
  listed := hconnections ▸ h.listed
  rest := h.rest
  other := hother

/-- Step lemma where another thread makes a step: it has no access to the tables. -/
theorem Broadcasting.execStep (h : s.Broadcasting k xs msg rest) {l : ChatStep κ ι}
    (hready : s.Ready l) (hl : ∀ w, l ≠ .perform k w) :
    (s.execStep l).Broadcasting k xs msg rest ∧ (s.execStep l).connections = s.connections ∧
      (s.execStep l).idleTimers = s.idleTimers := by
  by_cases hperform : ∃ j w, l = .perform j w
  · obtain ⟨j, w, rfl⟩ := hperform
    have hj : k ≠ j := by
      rintro rfl
      exact hl w rfl
    show (s.perform j w).Broadcasting k xs msg rest ∧ (s.perform j w).connections = _ ∧
      (s.perform j w).idleTimers = _
    cases hrun : s.threads.running j with
    | nil =>
      rw [perform_nil hrun]
      exact ⟨h, rfl, rfl⟩
    | cons op rest' =>
      have hlocks : ¬ s.Locks op := fun hlocks => by
        have hnone := hready op (by rw [hrun]; rfl) hlocks
        rw [h.mutex] at hnone
        cases hnone
      have hunlock : op ≠ .unlock := by
        rintro rfl
        exact h.other j hj.symm (hrun ▸ List.mem_cons_self)
      have hbroadcast : ∀ msg, op ≠ .broadcast msg := by
        rintro msg rfl
        exact hlocks trivial
      rw [perform_cons hrun]
      obtain ⟨ops, ha⟩ := adds_execOp (s := s.advance j rest') (k := j) hbroadcast hunlock w
      obtain ⟨hconnections, hidleTimers⟩ :=
        tables_execOp (s := s.advance j rest') (k := j) hlocks w
      refine ⟨h.frame ha.mutex hconnections ?_ fun i hi => ?_, hconnections, hidleTimers⟩
      · rw [ha.running_of_ne hj]
        exact Function.update_of_ne hj ..
      · exact ha.notMem (notMem_advance hrun (h.other i hi))
  · obtain ⟨hidle, ⟨ops, ha⟩, hconnections, hidleTimers⟩ :=
      adds_execStep hready fun j w hl => hperform ⟨j, w, hl⟩
    have hj : k ≠ l.thread s := by
      rintro rfl
      have hrun := h.running
      rw [hidle] at hrun
      simp at hrun
    exact ⟨h.frame ha.mutex hconnections (ha.running_of_ne hj) fun i hi => ha.notMem (h.other i hi),
      hconnections, hidleTimers⟩

/-- Step lemma. -/
theorem Locked.execStep (h : s.Locked) {l : ChatStep κ ι} (hready : s.Ready l) :
    (s.execStep l).Locked := by
  obtain h | ⟨k, xs, msg, rest, h⟩ := h
  · exact h.execStep hready
  · by_cases hown : ∃ w, l = .perform k w
    · obtain ⟨w, rfl⟩ := hown
      obtain ⟨-, -, ⟨-, h'⟩ | ⟨-, h'⟩⟩ := h.perform w
      · exact .inl h'
      · exact .inr ⟨k, xs.tail, msg, rest, h'⟩
    · exact .inr ⟨k, xs, msg, rest, (h.execStep hready fun w hl => hown ⟨w, hl⟩).1⟩

end Locked

/-! ## Runs -/

section Runs

variable {xs : List ι} {msg : Bytes} {rest : List (ChatOp ι)} {ls : List (ℕ × ChatStep κ ι)}

theorem Locked.exec (h : s.Locked) {l : ℕ × ChatStep κ ι} (hl : s.Enabled l) : (s.exec l).Locked := by
  have ht : WebChatServer.Locked { s with clock := l.1 } :=
    h.imp (fun h => ⟨h.mutex, h.running⟩)
      fun ⟨k, xs, msg, rest, h⟩ => ⟨k, xs, msg, rest, h.frame rfl rfl rfl h.other⟩
  exact ht.execStep hl.2.2

/-- Run lemma. -/
theorem Fresh.locked {s₀ : WebChatServer κ ι} (h₀ : s₀.Fresh) (hrun : Run Step s₀ ls s) :
    s.Locked := by
  refine hrun.invariant (.inl ⟨h₀.mutex, fun j => ?_⟩) ?_
  · rw [h₀.running]
    exact List.not_mem_nil
  · rintro s l t h ⟨hl, rfl⟩
    exact h.exec hl

/-- Run lemma for the thread that broadcasts: what is in front of it goes down with each of its own
    statements, and with no other step. -/
theorem Broadcasting.run (h : s.Broadcasting k xs msg rest) (hrun : Run Step s ls t)
    (hle : statementsOf k ls ≤ xs.length) :
    t.Broadcasting k (xs.drop (statementsOf k ls)) msg rest ∧ t.connections = s.connections ∧
      t.idleTimers = s.idleTimers := by
  revert hle
  refine hrun.history (P := fun ls t => statementsOf k ls ≤ xs.length →
    t.Broadcasting k (xs.drop (statementsOf k ls)) msg rest ∧ t.connections = s.connections ∧
      t.idleTimers = s.idleTimers) (fun _ => ⟨h, rfl, rfl⟩) ?_
  rintro ls l t u - ih ⟨hl, rfl⟩
  rw [statementsOf_append]
  intro hle
  obtain ⟨ht, hconnections, hidleTimers⟩ := ih ((Nat.le_add_right _ _).trans hle)
  have ht' : Broadcasting { t with clock := l.1 } k (xs.drop (statementsOf k ls)) msg rest :=
    ht.frame rfl rfl rfl ht.other
  by_cases hown : ∃ w, l.2 = .perform k w
  · obtain ⟨w, hw⟩ := hown
    have hone : statementsOf k [l] = 1 := by
      simp [statementsOf, ChatStep.isStatementOf, hw]
    rw [hone] at hle ⊢
    have hexec : t.exec l = WebChatServer.perform { t with clock := l.1 } k w := by
      rw [WebChatServer.exec, hw]
      rfl
    rw [hexec]
    obtain ⟨hconnections', hidleTimers', ⟨hnil, -⟩ | ⟨-, hnext⟩⟩ := ht'.perform w
    · rw [List.drop_eq_nil_iff] at hnil
      omega
    · rw [List.tail_drop] at hnext
      exact ⟨hnext, hconnections'.trans hconnections, hidleTimers'.trans hidleTimers⟩
  · have hzero : statementsOf k [l] = 0 := by
      obtain ⟨now, l⟩ := l
      cases l with
      | perform j w =>
        have hj : j ≠ k := by
          rintro rfl
          exact hown ⟨w, rfl⟩
        simp [statementsOf, ChatStep.isStatementOf, hj]
      | _ => rfl
    rw [hzero, Nat.add_zero]
    obtain ⟨hnext, hconnections', hidleTimers'⟩ :=
      ht'.execStep hl.2.2 fun w hw => hown ⟨w, hw⟩
    exact ⟨hnext, hconnections'.trans hconnections, hidleTimers'.trans hidleTimers⟩

/-- **Thread confinement**: in every step of every run no `assertInLoopThread` fails, and the thread
    that makes the step changes the connections, parsers, timers and queues of its own loop only,
    but for the strings it queues elsewhere. While one thread is in `broadcast`, nobody changes
    `connections_` or `idleTimers_`. -/
theorem threads_confined {s₀ : WebChatServer κ ι} (h₀ : s₀.Fresh) (hrun : Run Step s₀ ls s)
    {l : ℕ × ChatStep κ ι} (hl : s.Enabled l) :
    (∀ j ∈ l.2.asserted s, j = l.2.thread s) ∧ s.Confined (s.exec l) (l.2.thread s) ∧
      (s.mutex ≠ none → (s.exec l).connections = s.connections ∧
        (s.exec l).idleTimers = s.idleTimers) := by
  have hsound : s.Sound fun _ => True := by
    refine hrun.invariant (P := fun s => s.Sound fun _ => True) (h₀.sound _) ?_
    rintro s l t h ⟨hl, rfl⟩
    exact h.exec hl fun _ _ _ => trivial
  refine ⟨hsound.asserted l.2, ?_, ?_⟩
  · have htick : s.Confined { s with clock := l.1 } (l.2.thread s) :=
      .tables rfl rfl rfl rfl rfl rfl (fun _ _ => rfl) (fun _ _ => rfl) fun _ _ => Iff.rfl
    exact htick.trans ((hsound.tick hl.1 hl.2.1).confined l.2)
  · intro hheld
    obtain h | ⟨k, xs, msg, rest, h⟩ := h₀.locked hrun
    · exact absurd h.mutex hheld
    · have h' : Broadcasting { s with clock := l.1 } k xs msg rest := h.frame rfl rfl rfl h.other
      by_cases hown : ∃ w, l.2 = .perform k w
      · obtain ⟨w, hw⟩ := hown
        rw [WebChatServer.exec, hw]
        exact ⟨(h'.perform w).1, (h'.perform w).2.1⟩
      · exact (h'.execStep hl.2.2 fun w hw => hown ⟨w, hw⟩).2

/-- The first connection's thread queues a string on the loop of the second one. -/
theorem threads_confined_chat :
    let s := (chatRun.take 16).foldl exec chatRoom
    let t := s.exec (6, .perform 0 (.upTo 20))
    (t.threads.loops 1).pendingFunctors =
        [.sendInLoop 1 (broadcastText (text "[" ++ chatRoom.peer 0 ++ text "]: "))] ∧
      s.Confined t 0 ∧ t.connections = s.connections ∧ t.idleTimers = s.idleTimers := by
  refine ⟨by decide +kernel, ?_⟩
  have hrun : Run Step chatRoom (chatRun.take 16) ((chatRun.take 16).foldl exec chatRoom) :=
    Run.of_allowed (Q := Enabled) (by decide +kernel)
  obtain ⟨-, hconfined, htables⟩ := threads_confined opening_chatRoom.toFresh hrun
    (l := (6, .perform 0 (.upTo 20))) (by decide +kernel)
  exact ⟨hconfined, htables (by decide +kernel)⟩

/-- **No deadlock, and the mutex is given back**: whenever some thread has a statement to make, one
    of the threads that have can make it. A thread that holds `mutex_` between two statements is in
    `broadcast` with a part of `connections_` in front of it. Whatever the other threads do, each of
    its statements can be made at once, the tables stay as they are, and it gives the mutex back
    with the statement behind the last `send`. -/
theorem mutex_progress {s₀ : WebChatServer κ ι} (h₀ : s₀.Fresh) (hrun : Run Step s₀ ls s) :
    (∀ j, s.threads.running j ≠ [] →
      ∃ i, s.threads.running i ≠ [] ∧ ∀ w, s.Ready (.perform i w)) ∧
    ∀ k, s.mutex = some k → ∃ xs msg rest, xs <:+ s.connections ∧
      ∀ ms t, Run Step s ms t → statementsOf k ms ≤ xs.length →
        t.mutex = some k ∧ t.connections = s.connections ∧ t.idleTimers = s.idleTimers ∧
        t.threads.running k = (xs.drop (statementsOf k ms)).map
          (fun x => ChatOp.send x (broadcastText msg)) ++ .unlock :: rest ∧
        (∀ w, t.Ready (.perform k w)) ∧
        (statementsOf k ms = xs.length → ∀ now w, (t.exec (now, .perform k w)).mutex = none) := by
  have hlocked := h₀.locked hrun
  constructor
  · intro j hj
    obtain h | ⟨k, xs, msg, rest, h⟩ := hlocked
    · exact ⟨j, hj, fun _ _ _ _ => h.mutex⟩
    · refine ⟨k, ?_, h.ready⟩
      rw [h.running]
      simp
  · intro k hk
    obtain h | ⟨i, xs, msg, rest, h⟩ := hlocked
    · rw [h.mutex] at hk
      cases hk
    · obtain rfl : i = k := Option.some.inj (h.mutex.symm.trans hk)
      refine ⟨xs, msg, rest, h.listed, fun ms t hms hle => ?_⟩
      obtain ⟨ht, hconnections, hidleTimers⟩ := h.run hms hle
      refine ⟨ht.mutex, hconnections, hidleTimers, ht.running, ht.ready, fun heq now w => ?_⟩
      rw [heq, List.drop_length] at ht
      have ht' : Broadcasting { t with clock := now } i [] msg rest := ht.frame rfl rfl rfl ht.other
      obtain ⟨-, -, ⟨-, hfree⟩ | ⟨hne, -⟩⟩ := ht'.perform w
      · exact hfree.mutex
      · exact absurd rfl hne

/-- In `broadcast`, before the first `send`. -/
theorem mutex_progress_chat :
    let s := (chatRun.take 15).foldl exec chatRoom
    let t := s.exec (6, .perform 0 (.upTo 20))
    ∃ xs msg rest, xs <:+ s.connections ∧
      t.threads.running 0 = (xs.drop 1).map (fun x => ChatOp.send x (broadcastText msg)) ++
        .unlock :: rest ∧ t.mutex = some 0 ∧ t.connections = s.connections := by
  have hrun : Run Step chatRoom (chatRun.take 15) ((chatRun.take 15).foldl exec chatRoom) :=
    Run.of_allowed (Q := Enabled) (by decide +kernel)
  obtain ⟨xs, msg, rest, hxs, hall⟩ :=
    (mutex_progress opening_chatRoom.toFresh hrun).2 0 (by decide +kernel)
  obtain ⟨-, -, -, hrunning, -⟩ := hall [] _ .nil (Nat.zero_le _)
  refine ⟨xs, msg, rest, hxs, ?_⟩
  have hfirst : (((chatRun.take 15).foldl exec chatRoom).threads.running 0).head? ≠
      some .unlock := by
    decide +kernel
  cases xs with
  | nil =>
    rw [hrunning] at hfirst
    exact absurd rfl hfirst
  | cons x xs =>
    obtain ⟨hmutex, hconnections, -, hnext, -⟩ :=
      hall _ _ (.single ⟨(by decide +kernel : Enabled _ (6, .perform 0 (.upTo 20))), rfl⟩)
        (Nat.succ_le_succ (Nat.zero_le _))
    exact ⟨hnext, hmutex, hconnections⟩

end Runs

end WebChatServer

end AegisNet
