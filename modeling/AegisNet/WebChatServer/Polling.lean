import AegisNet.Lib.Recording
import AegisNet.WebChatServer.Bookkeeping

/-!
# Polling

`EventLoop::loop` stores what `epoll_wait` reported in the channels and handles one channel after
the other, so a handler runs on events that were reported before the handlers in front of it. Here
the loops of the server are run that way, batch after batch.

## Main definitions

- `BatchPhase` — where a thread is in `loop`
- `PolledServer`, `PolledStep` — the server on loops that poll
- `PolledServer.Batched` — the stored events are still good

## Main results

- `PolledServer.refines` — a batch is handled as if each channel were polled just before
-/

namespace AegisNet

/-- A channel in `activeChannels_`: that of a connection with its `revents_`, and the two of the
    loop itself. -/
inductive ActiveChannel (ι : Type*)
  | connection (x : ι) (revents : EpollEvents)
  | timerfd
  | wakeup
  deriving DecidableEq, Repr

/-- Where a thread is in `EventLoop::loop`. -/
inductive BatchPhase (ι : Type*)
  | polling
  /-- The rest of `activeChannels_`. -/
  | handling (active : List (ActiveChannel ι))
  | functors
  deriving DecidableEq, Repr

namespace BatchPhase

variable {ι : Type*}

/-- The next round of the loop over `activeChannels_`. -/
def next : BatchPhase ι → BatchPhase ι
  | handling (_ :: rest) => handling rest
  | phase => phase

def head : BatchPhase ι → Option (ActiveChannel ι)
  | handling (channel :: _) => some channel
  | _ => none

/-- The connections that are still to be handled, with their events. -/
def stored : BatchPhase ι → List (ι × EpollEvents)
  | handling active => active.filterMap fun
    | .connection x revents => some (x, revents)
    | _ => none
  | _ => []

theorem stored_next_sublist (phase : BatchPhase ι) : phase.next.stored.Sublist phase.stored := by
  cases phase with
  | handling active =>
    cases active with
    | nil => exact .refl _
    | cons channel rest => exact (List.sublist_cons_self channel rest).filterMap _
  | _ => exact .refl _

theorem stored_of_head {phase : BatchPhase ι} {x : ι} {revents : EpollEvents}
    (h : phase.head = some (.connection x revents)) :
    phase.stored = (x, revents) :: phase.next.stored := by
  match phase, h with
  | handling (.connection _ _ :: rest), rfl => rfl

end BatchPhase

/-- A server whose loops poll. -/
structure PolledServer (κ ι : Type*) where
  server : WebChatServer κ ι
  phase : κ → BatchPhase ι := fun _ => .polling

inductive PolledStep (κ ι : Type*)
  /-- `epoll_wait` returns. -/
  | poll (k : κ) (active : List (ActiveChannel ι))
  /-- The handler of the next channel, a connection's. -/
  | handleEvent (k : κ) (readv : Option Bytes) (w f : IoResult)
  /-- A step of the handler of the next channel, the timerfd's. -/
  | readTimers (k : κ) (l : ReadStep)
  /-- The handler of the next channel, the eventfd's. -/
  | readWakeup (k : κ)
  /-- The start of `doPendingFunctors`. -/
  | swapFunctors (k : κ)
  | connectEstablished (x : ι)
  | connectDestroyed (x : ι)
  | nextFunctor (k : κ)
  /-- The end of `doPendingFunctors`. -/
  | endFunctors (k : κ)
  | perform (k : κ) (w : IoResult)
  deriving DecidableEq, Repr

namespace PolledServer

variable {κ ι : Type*} [DecidableEq κ] [LinearOrder ι]

/-- The step that the server makes. -/
def chatStep (S : PolledServer κ ι) : PolledStep κ ι → Option (ChatStep κ ι)
  | .poll _ _ | .readWakeup _ | .endFunctors _ => none
  | .handleEvent k readv w f =>
    match (S.phase k).head with
    | some (.connection x revents) => some (.handleEvent x revents readv w f)
    | _ => none
  | .readTimers k l => some (.readTimers k l)
  | .swapFunctors k => some (.swapFunctors k)
  | .connectEstablished x => some (.connectEstablished x)
  | .connectDestroyed x => some (.connectDestroyed x)
  | .nextFunctor k => some (.nextFunctor k)
  | .perform k w => some (.perform k w)

/-- Where the threads are after a step. -/
def phases (S : PolledServer κ ι) : PolledStep κ ι → κ → BatchPhase ι
  | .poll k active => Function.update S.phase k (.handling active)
  | .handleEvent k _ _ _ | .readWakeup k => Function.update S.phase k (S.phase k).next
  | .readTimers k l =>
    if l = .endRead then Function.update S.phase k (S.phase k).next else S.phase
  | .swapFunctors k => Function.update S.phase k .functors
  | .endFunctors k => Function.update S.phase k .polling
  | .connectEstablished _ | .connectDestroyed _ | .nextFunctor _ | .perform _ _ => S.phase

def exec (S : PolledServer κ ι) (l : ℕ × PolledStep κ ι) : PolledServer κ ι where
  server := match S.chatStep l.2 with
    | none => S.server
    | some step => S.server.exec (l.1, step)
  phase := S.phases l.2

/-- Of a connection of its own epoll reports registered channels and what they ask for, each channel
    once. -/
def Reports (s : WebChatServer κ ι) (k : κ) (active : List (ActiveChannel ι)) : Prop :=
  (∀ p ∈ (BatchPhase.handling active).stored, s.loop p.1 = k ∧
    (s.conn p.1).channel.inEpoll = true ∧ p.2.Reportable (s.conn p.1).channel.events) ∧
  ((BatchPhase.handling active).stored.map Prod.fst).Nodup

/-- When a thread can make a step; nothing is asked of the channel that is handled. -/
def Ready (S : PolledServer κ ι) : PolledStep κ ι → Prop
  | .poll k active => S.phase k = .polling ∧ Reports S.server k active
  | .handleEvent k _ _ _ => S.server.Free k ∧ (S.phase k).head ≠ none ∧
    (S.phase k).head ≠ some .timerfd ∧ (S.phase k).head ≠ some .wakeup
  | .readTimers k _ => S.server.threads.running k = [] ∧ (S.phase k).head = some .timerfd
  | .readWakeup k => S.server.Free k ∧ (S.phase k).head = some .wakeup
  | .swapFunctors k => S.server.Free k ∧ S.phase k = .handling []
  | .connectEstablished x => S.server.Free (S.server.loop x) ∧
    S.phase (S.server.loop x) = .functors ∧ (S.server.conn x).state = .kConnecting
  | .connectDestroyed x => S.server.Free (S.server.loop x) ∧
    S.phase (S.server.loop x) = .functors ∧ (S.server.conn x).state = .kDisconnected
  | .nextFunctor k => S.server.Free k ∧ S.phase k = .functors
  | .endFunctors k => S.server.Free k ∧ S.phase k = .functors ∧
    (S.server.threads.loops k).functors = []
  | .perform k w => S.server.Ready (.perform k w)

def Enabled (S : PolledServer κ ι) (l : ℕ × PolledStep κ ι) : Prop :=
  S.server.clock ≤ l.1 ∧ l.1 < kInt64Max ∧ S.Ready l.2

def Step (S : PolledServer κ ι) (l : ℕ × PolledStep κ ι) (S' : PolledServer κ ι) : Prop :=
  S.Enabled l ∧ S' = S.exec l

/-- Before the first connection, with every thread in front of `epoll_wait`. -/
structure Fresh (S : PolledServer κ ι) : Prop where
  server : S.server.Fresh
  phase : ∀ k, S.phase k = .polling

end PolledServer

/-! ## What a statement does to a channel -/

namespace TcpConnection

theorem grows_bufferRemaining (c : TcpConnection) (remaining : Bytes) :
    c.channel.Grows (c.bufferRemaining remaining).channel := by
  unfold bufferRemaining
  dsimp only
  split <;> split
  · exact Channel.grows_enableWriting _
  · exact .refl _
  · exact Channel.grows_enableWriting _
  · exact .refl _

theorem grows_sendInLoop (c : TcpConnection) (message : Bytes) (w : IoResult) :
    c.channel.Grows (c.sendInLoop message w).channel := by
  have hdirect : (c.directWrite message w).1.channel = c.channel := by
    unfold directWrite
    split
    · split <;> rfl
    · rfl
  unfold sendInLoop
  split
  · exact .refl _
  · dsimp only
    split
    · exact hdirect ▸ grows_bufferRemaining ..
    · rw [hdirect]
      exact .refl _

theorem channel_shutdown (c : TcpConnection) : c.shutdown.channel = c.channel := by
  unfold shutdown shutdownInLoop
  split
  · split <;> rfl
  · rfl

theorem channel_forceClose (c : TcpConnection) : c.forceClose.channel = c.channel := by
  unfold forceClose
  split <;> rfl

end TcpConnection

namespace ChatOp

variable {ι : Type*}

/-- The statement may take events of a channel away. -/
def isHandler : ChatOp ι → Bool
  | handleClose _ | handleRead _ _ | handleWrite _ _ _ | runBound _ _ => true
  | _ => false

end ChatOp

namespace WebChatServer

variable {κ ι : Type*} {s t : WebChatServer κ ι} {k : κ} {P : ι → Prop}

/-- From `s` to `t` no handlers were added, and nothing for other threads than that of `k`, no batch
    of functors was touched, and the channels with `P` keep what they have. -/
structure Spares (s t : WebChatServer κ ι) (k : κ) (P : ι → Prop) : Prop where
  loop : t.loop = s.loop
  functors : ∀ j, (t.threads.loops j).functors = (s.threads.loops j).functors
  running : ∀ j, ∀ o ∈ t.threads.running j,
    o ∈ s.threads.running j ∨ j = k ∧ o.isHandler = false
  grows : ∀ x, P x → (s.conn x).channel.Grows (t.conn x).channel

namespace Spares

/-- Tables, timers and the mutex. -/
theorem same (hloop : t.loop = s.loop) (hthreads : t.threads = s.threads)
    (hconn : t.conn = s.conn) : s.Spares t k P where
  loop := hloop
  functors _ := by rw [hthreads]
  running _ _ ho := .inl (hthreads ▸ ho)
  grows x _ := by
    rw [hconn]
    exact .refl _

theorem trans {u : WebChatServer κ ι} (h : s.Spares t k P) (h' : t.Spares u k P) :
    s.Spares u k P where
  loop := h'.loop.trans h.loop
  functors j := (h'.functors j).trans (h.functors j)
  running j o ho := (h'.running j o ho).elim (h.running j o) .inr
  grows x hx := by
    obtain ⟨hin, hevents⟩ := h.grows x hx
    obtain ⟨hin', hevents'⟩ := h'.grows x hx
    exact ⟨hin' ∘ hin, hevents.trans hevents'⟩

theorem queueInLoop [DecidableEq κ] (j : κ) (cb : ChatFunctor ι) :
    s.Spares { s with threads := s.threads.queueInLoop j cb } k P where
  loop := rfl
  functors i := by
    show (Function.update s.threads.loops j _ i).functors = _
    by_cases hi : i = j
    · subst hi
      rw [Function.update_self]
      rfl
    · rw [Function.update_of_ne hi]
  running _ _ := .inl
  grows _ _ := .refl _

theorem queueFunctors [DecidableEq κ] (x : ι) (fs : List Functor) :
    s.Spares (s.queueFunctors x fs) k P := by
  unfold WebChatServer.queueFunctors
  induction fs generalizing s with
  | nil => exact .same rfl rfl rfl
  | cons f fs ih => exact (queueInLoop (s.loop x) (.bound x f)).trans ih

theorem call [DecidableEq κ] {ops : List (ChatOp ι)} (hops : ∀ o ∈ ops, o.isHandler = false) :
    s.Spares (s.call k ops) k P where
  loop := rfl
  functors _ := rfl
  running j o ho := by
    have hcall : o ∈ Function.update s.threads.running k (ops ++ s.threads.running k) j := ho
    by_cases hj : j = k
    · subst hj
      rw [Function.update_self, List.mem_append] at hcall
      exact hcall.symm.imp_right fun hmem => ⟨rfl, hops o hmem⟩
    · rw [Function.update_of_ne hj] at hcall
      exact .inl hcall
  grows _ _ := .refl _

/-- A step of the timers' handler, which may start a callback. -/
theorem readTimers [DecidableEq κ] (l : ReadStep) : s.Spares (s.readTimers k l) k P := by
  have hstep : s.Spares (s.stepTimers k l) k P := .same rfl rfl rfl
  unfold WebChatServer.readTimers
  split
  · split
    · exact hstep
    · next cb _ =>
      refine hstep.trans (call fun o ho => ?_)
      rw [List.mem_singleton.mp ho]
      cases cb <;> rfl
  · exact hstep

variable [DecidableEq κ] [LinearOrder ι]

theorem method {y : ι} {f : TcpConnection → TcpConnection}
    (hf : P y → (s.conn y).channel.Grows (f (s.conn y)).channel) :
    s.Spares (s.method k y f) k P := by
  unfold WebChatServer.method
  refine .trans (.trans ?_ (queueFunctors y _)) (call fun o ho => ?_)
  · refine ⟨rfl, fun _ => rfl, fun _ _ => .inl, fun x hx => ?_⟩
    show Channel.Grows _ (Function.update s.conn y _ x).channel
    by_cases hxy : x = y
    · subst hxy
      rw [Function.update_self]
      exact hf hx
    · rw [Function.update_of_ne hxy]
      exact .refl _
  · obtain ⟨e, -, ho⟩ := List.mem_flatMap.mp ho
    cases e <;> simp only [ChatOp.ofCallback, List.mem_cons, List.not_mem_nil, or_false] at ho
    · obtain rfl | rfl | rfl := ho <;> rfl
    · obtain rfl | rfl := ho <;> rfl

/-- A statement: only the handlers of a connection take something from its channel. -/
theorem execOp (w : IoResult) (op : ChatOp ι) :
    s.Spares (s.execOp k w op) k fun x => op.isHandler = true → op.owner ≠ some x := by
  cases op with
  | handleClose y => exact method fun h => absurd rfl (h rfl)
  | handleRead y readv =>
    exact method (f := fun c => c.handleRead readv []) fun h => absurd rfl (h rfl)
  | handleWrite y w f => exact method (f := fun c => c.handleWrite w f) fun h => absurd rfl (h rfl)
  | runBound y f => exact method (f := fun c => c.runFunctor f) fun h => absurd rfl (h rfl)
  | updateConnections y =>
    show s.Spares (s.updateConnections k y) k _
    unfold updateConnections
    have hcancel : ∀ i f : TimerId, ∀ o ∈ [ChatOp.cancelTimers y i f], o.isHandler = false := by
      simp [ChatOp.isHandler]
    split
    · exact .trans (call (hcancel _ _)) (.same rfl rfl rfl)
    · exact .trans (call (hcancel _ _)) (.same rfl rfl rfl)
  | cancelTimers y idleTimer forceCloseTimer => exact .same rfl rfl rfl
  | refreshIdleTimer y =>
    show s.Spares (s.refreshIdleTimer y) k _
    unfold refreshIdleTimer
    split
    · split <;> exact .same rfl rfl rfl
    · exact .same rfl rfl rfl
  | updateParsers y =>
    show s.Spares (s.updateParsers y) k _
    unfold updateParsers
    split <;> exact .same rfl rfl rfl
  | drainRequests y =>
    show s.Spares (s.drainRequests k y) k _
    unfold drainRequests
    refine .trans (.trans (t := s.setParser y _) (.same rfl rfl rfl) (method fun _ => .refl _))
      (call fun o ho => ?_)
    obtain ⟨r, -, rfl⟩ := List.mem_map.mp ho
    cases r <;> rfl
  | send y buf =>
    show s.Spares (s.send k y buf w) k _
    unfold send
    split
    · split
      · exact method fun _ => TcpConnection.grows_sendInLoop ..
      · exact queueInLoop ..
    · exact .same rfl rfl rfl
  | broadcast msg =>
    refine .trans (t := { s with mutex := some k }) (.same rfl rfl rfl) (call fun o ho => ?_)
    obtain ho | ho := List.mem_append.mp ho
    · obtain ⟨y, -, rfl⟩ := List.mem_map.mp ho
      rfl
    · rw [List.mem_singleton.mp ho]
      rfl
  | unlock => exact .same rfl rfl rfl
  | shutdown y =>
    refine method fun _ => ?_
    rw [TcpConnection.channel_shutdown]
    exact .refl _
  | handleIdleTimeout y =>
    show s.Spares (s.handleIdleTimeout k y) k _
    unfold handleIdleTimeout
    split
    · exact call (by simp [ChatOp.isHandler])
    · exact .same rfl rfl rfl
  | startForceCloseTimer y =>
    show s.Spares (s.startForceCloseTimer y) k _
    unfold startForceCloseTimer
    split <;> exact .same rfl rfl rfl
  | handleForceCloseTimeout y =>
    show s.Spares (s.handleForceCloseTimeout k y) k _
    unfold handleForceCloseTimeout
    split
    · exact .same rfl rfl rfl
    · exact .trans (t := s.setTimers y _) (.same rfl rfl rfl) (call (by simp [ChatOp.isHandler]))
  | forceClose y =>
    show s.Spares (s.forceClose k y) k _
    unfold forceClose
    split
    · exact .same rfl rfl rfl
    · refine method fun _ => ?_
      rw [TcpConnection.channel_forceClose]
      exact .refl _
  | sendInLoop y buf =>
    exact method (f := fun c => c.sendInLoop buf w) fun _ => TcpConnection.grows_sendInLoop ..

/-- The statement that a thread makes next. -/
theorem perform (w : IoResult) : s.Spares (s.perform k w) k fun x =>
    ∀ op ∈ s.threads.running k, op.isHandler = true → op.owner ≠ some x := by
  unfold WebChatServer.perform
  split
  · exact .same rfl rfl rfl
  · next op rest hrun =>
    refine .trans (t := s.advance k rest)
      ⟨rfl, fun _ => rfl, fun j o ho => ?_, fun _ _ => .refl _⟩ ?_
    · have hadvance : o ∈ Function.update s.threads.running k rest j := ho
      by_cases hj : j = k
      · subst hj
        rw [Function.update_self] at hadvance
        exact .inl (hrun ▸ List.mem_cons_of_mem _ hadvance)
      · rw [Function.update_of_ne hj] at hadvance
        exact .inl hadvance
    · obtain ⟨hloop, hfunctors, hrunning, hgrows⟩ := execOp (s := s.advance k rest) (k := k) w op
      exact ⟨hloop, hfunctors, hrunning, fun x hx => hgrows x (hx op (hrun ▸ List.mem_cons_self))⟩

end Spares

end WebChatServer

/-! ## The stored events -/

namespace WebChatServer

variable {κ ι : Type*} {s s' : WebChatServer κ ι} {k : κ} {phase : BatchPhase ι}

/-- What is stored for the thread of `k` is still good: the handlers of other connections and of the
    timers leave a channel what it has. -/
structure BatchedAt (s : WebChatServer κ ι) (k : κ) (phase : BatchPhase ι) : Prop where
  good : ∀ p ∈ phase.stored, s.loop p.1 = k ∧ (s.conn p.1).channel.inEpoll = true ∧
    p.2.Reportable (s.conn p.1).channel.events
  nodup : (phase.stored.map Prod.fst).Nodup
  /-- The handler under way is of a channel in front. -/
  running : ∀ p ∈ phase.stored, ∀ o ∈ s.threads.running k, o.isHandler = true →
    o.owner ≠ some p.1
  idle : phase = .polling → s.threads.running k = []
  functors : phase ≠ .functors → (s.threads.loops k).functors = []

theorem Fresh.batchedAt (h : s.Fresh) (k : κ) : s.BatchedAt k .polling := by
  refine ⟨by simp [BatchPhase.stored], List.nodup_nil, by simp [BatchPhase.stored],
    fun _ => h.running k, fun _ => ?_⟩
  exact (List.append_eq_nil_iff.mp (h.queued k)).1

/-- What a step of the server has to leave alone. -/
theorem BatchedAt.step (h : s.BatchedAt k phase) (hloop : s'.loop = s.loop)
    (hgrows : ∀ p ∈ phase.stored, (s.conn p.1).channel.Grows (s'.conn p.1).channel)
    (hrunning : ∀ o ∈ s'.threads.running k, o ∈ s.threads.running k ∨
      phase ≠ .polling ∧ (o.isHandler = true → ∀ p ∈ phase.stored, o.owner ≠ some p.1))
    (hfunctors : phase ≠ .functors →
      (s'.threads.loops k).functors = (s.threads.loops k).functors) : s'.BatchedAt k phase where
  good p hp := by
    obtain ⟨hk, hin, hrep⟩ := h.good p hp
    obtain ⟨hin', hevents⟩ := hgrows p hp
    exact ⟨hloop ▸ hk, hin' hin, hrep.trans hevents⟩
  nodup := h.nodup
  running p hp o ho hhandler := by
    obtain ho | ⟨-, hnew⟩ := hrunning o ho
    · exact h.running p hp o ho hhandler
    · exact hnew hhandler p hp
  idle hk := by
    refine List.eq_nil_iff_forall_not_mem.mpr fun o ho => ?_
    obtain ho | ⟨hne, -⟩ := hrunning o ho
    · rw [h.idle hk] at ho
      cases ho
    · exact hne hk
  functors hk := (hfunctors hk).trans (h.functors hk)

/-- The loop over `activeChannels_` goes on. -/
theorem BatchedAt.next (h : s.BatchedAt k phase) {channel : ActiveChannel ι}
    (hhead : phase.head = some channel) : s.BatchedAt k phase.next := by
  have hsub := phase.stored_next_sublist
  obtain ⟨rest, rfl⟩ : ∃ rest, phase = .handling (channel :: rest) := by
    match phase, hhead with
    | .handling (_ :: rest), rfl => exact ⟨rest, rfl⟩
  exact ⟨fun p hp => h.good p (hsub.subset hp), h.nodup.sublist (hsub.map _),
    fun p hp => h.running p (hsub.subset hp), by simp [BatchPhase.next],
    fun _ => h.functors (by simp)⟩

/-- The thread goes to a place where nothing is stored. -/
theorem BatchedAt.enter {phase' : BatchPhase ι} (hstored : phase'.stored = [])
    (hidle : phase' = .polling → s.threads.running k = [])
    (hfunctors : phase' ≠ .functors → (s.threads.loops k).functors = []) :
    s.BatchedAt k phase' := by
  refine ⟨?_, ?_, ?_, hidle, hfunctors⟩ <;> simp [hstored]

end WebChatServer

namespace PolledServer

variable {κ ι : Type*} {S : PolledServer κ ι}

def Batched (S : PolledServer κ ι) : Prop := ∀ k, S.server.BatchedAt k (S.phase k)

/-- The clock is no part of the invariant. -/
theorem Batched.tick (h : S.Batched) (now : ℕ) :
    Batched { S with server := { S.server with clock := now } } :=
  fun k => ⟨(h k).good, (h k).nodup, (h k).running, (h k).idle, (h k).functors⟩

/-- A step that spares what is stored. -/
theorem Batched.spares {t : WebChatServer κ ι} {k : κ} {P : ι → Prop} (h : S.Batched)
    (ht : S.server.Spares t k P) (hP : ∀ j, ∀ p ∈ (S.phase j).stored, P p.1)
    (hpolling : S.phase k ≠ .polling) : Batched { S with server := t } := by
  intro j
  refine (h j).step ht.loop (fun p hp => ht.grows p.1 (hP j p hp)) (fun o ho => ?_)
    fun _ => ht.functors j
  refine (ht.running j o ho).imp_right fun ⟨hj, hplain⟩ => ⟨hj ▸ hpolling, fun hhandler => ?_⟩
  rw [hplain] at hhandler
  cases hhandler

/-- The head is a connection where the next handler is one. -/
theorem head_connection {k : κ} {readv : Option Bytes} {w f : IoResult}
    (h : S.Ready (.handleEvent k readv w f)) :
    ∃ x revents, (S.phase k).head = some (.connection x revents) := by
  obtain ⟨-, hne, htimerfd, hwakeup⟩ := h
  match hhead : (S.phase k).head with
  | none => exact absurd hhead hne
  | some (.connection x revents) => exact ⟨x, revents, rfl⟩
  | some .timerfd => exact absurd hhead htimerfd
  | some .wakeup => exact absurd hhead hwakeup

theorem chatStep_handleEvent {k : κ} {x : ι} {revents : EpollEvents} {readv : Option Bytes}
    {w f : IoResult} (hhead : (S.phase k).head = some (.connection x revents)) :
    S.chatStep (.handleEvent k readv w f) = some (.handleEvent x revents readv w f) := by
  simp only [chatStep, hhead]

/-- The stored events are such as epoll could report now. -/
theorem Batched.ready {k : κ} {x : ι} {revents : EpollEvents} (h : S.Batched)
    (hhead : (S.phase k).head = some (.connection x revents)) (hfree : S.server.Free k)
    (readv : Option Bytes) (w f : IoResult) :
    S.server.loop x = k ∧ S.server.Ready (.handleEvent x revents readv w f) := by
  have hstored := BatchPhase.stored_of_head hhead
  obtain ⟨rfl, hin, hrep⟩ := (h k).good (x, revents) (hstored ▸ List.mem_cons_self)
  refine ⟨rfl, hfree, (h _).functors fun hphase => ?_, hin, hrep⟩
  rw [hphase] at hhead
  cases hhead

/-- The server may make the step. -/
theorem Batched.enabled (h : S.Batched) {l : ℕ × PolledStep κ ι} (hl : S.Enabled l)
    {step : ChatStep κ ι} (hstep : S.chatStep l.2 = some step) :
    S.server.Enabled (l.1, step) := by
  obtain ⟨now, l⟩ := l
  obtain ⟨hle, hlt, hready⟩ := hl
  refine ⟨hle, hlt, ?_⟩
  cases l with
  | poll k active => cases hstep
  | readWakeup k => cases hstep
  | endFunctors k => cases hstep
  | handleEvent k readv w f =>
    obtain ⟨x, revents, hhead⟩ := head_connection hready
    rw [chatStep_handleEvent hhead] at hstep
    obtain rfl := Option.some.inj hstep
    exact (h.ready hhead hready.1 readv w f).2
  | readTimers k l =>
    obtain rfl := Option.some.inj hstep
    refine ⟨hready.1, (h k).functors fun hphase => ?_⟩
    have hhead := hready.2
    rw [hphase] at hhead
    cases hhead
  | swapFunctors k =>
    obtain rfl := Option.some.inj hstep
    exact ⟨hready.1, (h k).functors (by simp [hready.2])⟩
  | connectEstablished x =>
    obtain rfl := Option.some.inj hstep
    exact ⟨hready.1, hready.2.2⟩
  | connectDestroyed x =>
    obtain rfl := Option.some.inj hstep
    exact ⟨hready.1, hready.2.2⟩
  | nextFunctor k =>
    obtain rfl := Option.some.inj hstep
    exact hready.1
  | perform k w =>
    obtain rfl := Option.some.inj hstep
    exact hready

variable [DecidableEq κ]

theorem batched_update {s : WebChatServer κ ι} {phase : κ → BatchPhase ι} {k : κ}
    {phase' : BatchPhase ι} (hself : s.BatchedAt k phase')
    (hother : ∀ j, j ≠ k → s.BatchedAt j (phase j)) :
    Batched ⟨s, Function.update phase k phase'⟩ := by
  intro j
  show s.BatchedAt j (Function.update phase k phase' j)
  by_cases hj : j = k
  · subst hj
    rw [Function.update_self]
    exact hself
  · rw [Function.update_of_ne hj]
    exact hother j hj

/-- A handler starts. -/
theorem Batched.handleEvent {k : κ} {x : ι} {revents : EpollEvents} (h : S.Batched)
    (hhead : (S.phase k).head = some (.connection x revents)) {ops : List (ChatOp ι)}
    (hops : ∀ o ∈ ops, o.owner = some x) :
    Batched ⟨S.server.call k ops, Function.update S.phase k (S.phase k).next⟩ := by
  have hstored := BatchPhase.stored_of_head hhead
  have hnodup := (h k).nodup
  rw [hstored, List.map_cons, List.nodup_cons] at hnodup
  refine batched_update (((h k).next hhead).step rfl (fun _ _ => .refl _) (fun o ho => ?_)
    fun _ => rfl) fun j hj => (h j).step rfl (fun _ _ => .refl _) (fun o ho => ?_) fun _ => rfl
  · have hcall : o ∈ Function.update S.server.threads.running k _ k := ho
    rw [Function.update_self, List.mem_append] at hcall
    refine hcall.symm.imp_right fun hmem => ⟨?_, fun _ p hp howner => ?_⟩
    · match hk : S.phase k, hhead with
      | .handling (_ :: rest), _ => simp [BatchPhase.next]
    · obtain rfl := Option.some.inj ((hops o hmem).symm.trans howner)
      exact hnodup.1 (List.mem_map.mpr ⟨p, hp, rfl⟩)
  · have hcall : o ∈ Function.update S.server.threads.running k _ j := ho
    rw [Function.update_of_ne hj] at hcall
    exact .inl hcall

theorem Batched.next {k : κ} {channel : ActiveChannel ι} (h : S.Batched)
    (hhead : (S.phase k).head = some channel) :
    Batched { S with phase := Function.update S.phase k (S.phase k).next } :=
  batched_update ((h k).next hhead) fun j _ => h j

/-- `doPendingFunctors` takes the batch, and each of its functors in turn. -/
theorem Batched.threads {k : κ} {x : Threads κ (ChatFunctor ι) (ChatOp ι)} (h : S.Batched)
    (hother : ∀ j, j ≠ k → x.running j = S.server.threads.running j ∧
      x.loops j = S.server.threads.loops j) :
    Batched ⟨{ S.server with threads := x }, Function.update S.phase k .functors⟩ := by
  refine batched_update (.enter rfl (by simp) (by simp)) fun j hj => ?_
  obtain ⟨hrunning, hloops⟩ := hother j hj
  refine (h j).step rfl (fun _ _ => .refl _) (fun o ho => .inl (hrunning ▸ ho)) fun _ => ?_
  show (x.loops j).functors = _
  rw [hloops]

variable [LinearOrder ι]

/-- A statement on the thread of `k`. -/
theorem Batched.perform {L : ι → Prop} (h : S.Batched) (hs : S.server.Sound L) (k : κ)
    (w : IoResult) : Batched { S with server := S.server.perform k w } := by
  by_cases hrun : S.server.threads.running k = []
  · have hsame : S.server.perform k w = S.server := by simp only [WebChatServer.perform, hrun]
    rwa [hsame]
  refine h.spares (.perform w) (fun j p hp op hop hhandler howner => ?_)
    fun hphase => hrun ((h k).idle hphase)
  -- a handler runs on the thread of its connection
  obtain ⟨hk, -⟩ := hs.base.home k op p.1 (List.mem_append_left _ hop) howner
  obtain rfl : k = j := hk.symm.trans ((h j).good p hp).1
  exact (h k).running p hp op hop hhandler howner

/-- The functor that starts a connection or ends its removal. -/
theorem Batched.lifecycle {x : ι} (h : S.Batched) (hphase : S.phase (S.server.loop x) = .functors)
    (f : TcpConnection → TcpConnection) :
    Batched { S with server := S.server.method (S.server.loop x) x f } := by
  refine h.spares (P := (· ≠ x)) (.method fun hne => absurd rfl hne) (fun j p hp heq => ?_)
    (by simp [hphase])
  obtain rfl : S.server.loop x = j := heq ▸ ((h j).good p hp).1
  rw [hphase] at hp
  cases hp

/-! ## Runs -/

/-- Step lemma. -/
theorem Batched.exec {L : ι → Prop} (h : S.Batched) (hs : S.server.Sound L)
    {l : ℕ × PolledStep κ ι} (hl : S.Enabled l) : (S.exec l).Batched := by
  obtain ⟨now, l⟩ := l
  obtain ⟨hle, hlt, hready⟩ := hl
  have ht := h.tick now
  have hst := hs.tick hle hlt
  cases l with
  | poll k active =>
    obtain ⟨hphase, hreports⟩ := hready
    have hself : S.server.BatchedAt k (.handling active) := by
      refine ⟨hreports.1, hreports.2, fun p _ o ho => ?_, by simp, fun _ => ?_⟩
      · rw [(h k).idle hphase] at ho
        cases ho
      · exact (h k).functors (by simp [hphase])
    exact batched_update hself fun j _ => h j
  | handleEvent k readv w f =>
    obtain ⟨x, revents, hhead⟩ := head_connection hready
    obtain ⟨hk, -⟩ := h.ready hhead hready.1 readv w f
    have hexec : S.exec (now, .handleEvent k readv w f) =
        ⟨{ S.server with clock := now }.call k (WebChatServer.dispatch x revents readv w f),
          Function.update S.phase k (S.phase k).next⟩ := by
      subst hk
      simp only [PolledServer.exec, chatStep_handleEvent hhead, phases]
      rfl
    rw [hexec]
    refine ht.handleEvent hhead fun o ho => ?_
    simp only [WebChatServer.dispatch, List.mem_append] at ho
    obtain (ho | ho) | ho := ho
    all_goals
      split at ho
      · rw [List.mem_singleton.mp ho]
        rfl
      · cases ho
  | readTimers k l =>
    have hphase : S.phase k ≠ .polling := fun hphase => by
      have hhead := hready.2
      rw [hphase] at hhead
      cases hhead
    have hbatched := ht.spares (P := fun _ => True) (.readTimers (k := k) l)
      (fun _ _ _ => trivial) hphase
    show Batched ⟨{ S.server with clock := now }.readTimers k l,
      if l = .endRead then Function.update S.phase k (S.phase k).next else S.phase⟩
    split
    · exact hbatched.next hready.2
    · exact hbatched
  | readWakeup k => exact h.next hready.2
  | swapFunctors k =>
    refine ht.threads fun j hj => ⟨rfl, ?_⟩
    exact Function.update_of_ne hj ..
  | connectEstablished x => exact ht.lifecycle hready.2.1 _
  | connectDestroyed x => exact ht.lifecycle hready.2.1 _
  | nextFunctor k =>
    have hbatched := @Batched.threads _ _ _ _ k
      (S.server.threads.nextFunctor ChatFunctor.body k) ht fun j hj =>
        ⟨Threads.running_nextFunctor_of_ne hj, by
          unfold Threads.nextFunctor
          split
          · rfl
          · exact Function.update_of_ne hj ..⟩
    have hphase : Function.update S.phase k .functors = S.phase := by
      rw [← hready.2, Function.update_eq_self]
    rw [hphase] at hbatched
    exact hbatched
  | endFunctors k =>
    exact batched_update (.enter rfl (fun _ => hready.1.1) fun _ => hready.2.2) fun j _ => h j
  | perform k w => exact ht.perform hst k w

/-- What a step is for the server. -/
def emit (S : PolledServer κ ι) (l : ℕ × PolledStep κ ι) : List (ℕ × ChatStep κ ι) :=
  (S.chatStep l.2).toList.map fun step => (l.1, step)

theorem Batched.simulates (h : S.Batched) {l : ℕ × PolledStep κ ι}
    (hl : S.Enabled l) (hs : S.server.Sound fun _ => True) :
    (S.exec l).server.Sound (fun _ => True) ∧
      Run WebChatServer.Step S.server (S.emit l) (S.exec l).server := by
  cases hstep : S.chatStep l.2 with
  | none =>
    have hserver : (S.exec l).server = S.server := by simp only [PolledServer.exec, hstep]
    rw [hserver, emit, hstep]
    exact ⟨hs, .nil⟩
  | some step =>
    have hserver : (S.exec l).server = S.server.exec (l.1, step) := by
      simp only [PolledServer.exec, hstep]
    have henabled := h.enabled hl hstep
    rw [hserver, emit, hstep]
    exact ⟨hs.exec henabled fun _ _ _ => trivial, .single ⟨henabled, rfl⟩⟩

/-- **Polling.** Loops that handle the channels of one `epoll_wait` after the other do what the
    loops of the server do. Whenever a thread comes to a stored channel, the connection is one of its own,
    up or down, still registered, and asks for all that was reported. -/
theorem polling_refines {S₀ : PolledServer κ ι} (h₀ : S₀.Fresh)
    {ls : List (ℕ × PolledStep κ ι)} (h : Run Step S₀ ls S) :
    Run WebChatServer.Step S₀.server
      (Run.recording exec (fun S steps l => steps ++ S.emit l) S₀ [] ls) S.server ∧
    ∀ k x revents, (S.phase k).head = some (.connection x revents) → S.server.Free k →
      S.server.loop x = k ∧ (S.server.conn x).state ≠ .kConnecting ∧
        ∀ readv w f, S.server.Ready (.handleEvent x revents readv w f) := by
  have hinit : S₀.Batched ∧ S₀.server.Sound fun _ => True := by
    refine ⟨fun k => ?_, h₀.server.sound _⟩
    rw [h₀.phase]
    exact h₀.server.batchedAt k
  have hstep : ∀ (T : PolledServer κ ι) l, (T.Batched ∧ T.server.Sound fun _ => True) →
      T.Enabled l → ((T.exec l).Batched ∧ (T.exec l).server.Sound fun _ => True) ∧
        Run WebChatServer.Step T.server (T.emit l) (T.exec l).server := by
    rintro T l ⟨hT, hs⟩ hl
    obtain ⟨hs', hrun⟩ := hT.simulates hl hs
    exact ⟨⟨hT.exec hs hl, hs'⟩, hrun⟩
  obtain ⟨⟨hbatched, hs⟩, hrun⟩ := @Run.refines _ _ _ _ _ _ _ server emit _ _ _ _ h hinit hstep
  refine ⟨hrun, fun k x revents hhead hfree => ?_⟩
  obtain ⟨hk, -, -, hin, -⟩ := hbatched.ready hhead hfree none (.upTo 0) (.upTo 0)
  refine ⟨hk, fun hstate => ?_, fun readv w f => (hbatched.ready hhead hfree readv w f).2⟩
  rw [((hs.base.notified x).connecting hstate).1] at hin
  cases hin

instance (S : PolledServer κ ι) : DecidablePred S.Enabled := fun l => by
  obtain ⟨now, l⟩ := l
  unfold Enabled
  cases l <;> unfold Ready <;>
    simp only [Reports, WebChatServer.Free, WebChatServer.Ready] <;> infer_instance

/-- A message is broadcast to a connection that is to be handled next; its channel asks for more
    events then. -/
theorem polling_refines_batch :
    let read := some (text "POST /chat HTTP/1.1\r\nContent-Length: 1\r\n\r\nx")
    let ls : List (ℕ × PolledStep ℕ ℕ) :=
      [(1, .poll 0 [.wakeup]), (1, .readWakeup 0), (1, .swapFunctors 0),
        (1, .connectEstablished 3), (1, .perform 0 (.upTo 0)), (1, .perform 0 (.upTo 0)),
        (1, .perform 0 (.upTo 0)), (1, .perform 0 (.upTo 0)), (1, .connectEstablished 4),
        (1, .perform 0 (.upTo 0)), (1, .perform 0 (.upTo 0)), (1, .perform 0 (.upTo 0)),
        (1, .perform 0 (.upTo 0)), (1, .endFunctors 0),
        (2, .poll 0 [.connection 3 { epollin := true }, .connection 4 { epollin := true }]),
        (2, .handleEvent 0 read (.upTo 0) (.upTo 0)), (2, .perform 0 (.upTo 0)),
        (2, .perform 0 (.upTo 0)), (2, .perform 0 (.upTo 0)), (2, .perform 0 (.upTo 0)),
        (2, .perform 0 (.upTo 0)), (2, .perform 0 (.upTo 0)), (2, .perform 0 (.upTo 0)),
        (2, .perform 0 (.upTo 0))]
    let S := ls.foldl exec { server := WebChatServer.oneLoop }
    (S.server.conn 4).channel.events.epollout = true ∧
      S.server.loop 4 = 0 ∧ (S.server.conn 4).state ≠ .kConnecting ∧
        ∀ readv w f, S.server.Ready (.handleEvent 4 { epollin := true } readv w f) := by
  intro read ls S
  have hfresh : Fresh { server := WebChatServer.oneLoop } :=
    ⟨WebChatServer.fresh_oneLoop, fun _ => rfl⟩
  have hrun : Run Step { server := WebChatServer.oneLoop } ls S :=
    Run.of_allowed (by decide +kernel)
  exact ⟨by decide +kernel, (polling_refines hfresh hrun).2 0 4 { epollin := true }
    (by decide +kernel) ⟨by decide +kernel, by decide +kernel⟩⟩

end PolledServer

end AegisNet
