import AegisNet.Lib.Atomic
import AegisNet.Tcp.TcpConnection

/-!
# The race for the state

`state_` is atomic, and `shutdown` and `forceClose` may be called from any thread. Here the methods
that touch it are programs in which every load and store of `state_` is a step of its own, and any
number of threads run them beside the loop thread. `shutdown` and `forceClose` test the state and
store `kDisconnecting` in two accesses. If the loop thread stores `kDisconnected` in between, the
second store takes it back; unless that happens, `kDisconnected` is final and the connection
notifies once.

## Main definitions

- `Race.Act`, `Race.stateMemory` — what the methods do apart from the accesses
- `Race.handleClose`, `Race.connectDestroyed`, `Race.shutdown`, `Race.forceClose` — the programs
- `Race.Enabled` — which thread may start what
- `Race.Undisturbed` — no close between a test and its store
-/

namespace AegisNet

namespace Race

open Atomic

/-- What the methods do between their accesses to `state_`. -/
inductive Act
  | closeFile
  | disableAll
  | remove
  | notifyConnection
  /-- The call in `connectDestroyed`, which does not test the callback. -/
  | callConnection
  | notifyClose
  | shutdownInLoop
  | queueShutdownInLoop
  | queueForceCloseInLoop
  deriving DecidableEq, Repr

def Act.perform (c : TcpConnection) : Act → TcpConnection
  | closeFile => c.closeFile
  | disableAll => { c with channel := c.channel.disableAll }
  | remove => { c with channel := c.channel.remove }
  | notifyConnection => c.notifyConnection
  | callConnection => c.emit (.connectionCallback c.state)
  | notifyClose => c.notifyClose
  | shutdownInLoop => c.shutdownInLoop
  | queueShutdownInLoop => c.queueIf true .shutdownInLoop
  | queueForceCloseInLoop => c.queueIf true .forceCloseInLoop

/-- The connection as memory, with `state_` as the atomic cell. -/
def stateMemory : Memory StateE Act TcpConnection where
  get := TcpConnection.state
  set := TcpConnection.setState
  perform := Act.perform

abbrev Method := Prog StateE Act

/-- `state_ == kConnected || state_ == kDisconnecting`, which loads up to two times. -/
def ifConnectedOrDisconnecting (yes no : Method) : Method :=
  .load fun s => if s = .kConnected then yes else
    .load fun s => if s = .kDisconnecting then yes else no

def handleClose : Method :=
  .load fun s => if s = .kDisconnected then .done else
    .act .closeFile <|
    -- the log line reads the state
    .load fun _ =>
    .store .kDisconnected <|
    .act .disableAll <|
    .act .notifyConnection <|
    .act .notifyClose .done

def forceCloseInLoop : Method := ifConnectedOrDisconnecting handleClose .done

def shutdownInLoop : Method := .act .shutdownInLoop .done

def connectDestroyed : Method :=
  ifConnectedOrDisconnecting
    (.store .kDisconnected <|
      .act .disableAll <|
      .act .callConnection <|
      .act .remove .done)
    (.act .remove .done)

/-- `runInLoop` runs the functor at once on the loop thread and queues it elsewhere. -/
def shutdown (inLoopThread : Bool) : Method :=
  .load fun s => if s = .kConnected then
    .store .kDisconnecting <|
    .act (if inLoopThread then .shutdownInLoop else .queueShutdownInLoop) .done
  else .done

def forceClose : Method :=
  ifConnectedOrDisconnecting
    (.store .kDisconnecting <| .act .queueForceCloseInLoop .done)
    .done

/-! ## Run alone, the programs are the methods -/

theorem run_ifConnectedOrDisconnecting (yes no : Method) (c : TcpConnection) :
    (ifConnectedOrDisconnecting yes no).run stateMemory c =
      if c.state = .kConnected ∨ c.state = .kDisconnecting then yes.run stateMemory c
      else no.run stateMemory c := by
  simp only [ifConnectedOrDisconnecting, Prog.run, stateMemory]
  by_cases h : c.state = .kConnected
  · simp [h]
  · by_cases h' : c.state = .kDisconnecting <;> simp [h, h', Prog.run]

theorem run_handleClose (c : TcpConnection) :
    handleClose.run stateMemory c = c.handleClose := by
  simp only [handleClose, Prog.run, TcpConnection.handleClose, stateMemory]
  split <;> rfl

theorem run_forceCloseInLoop (c : TcpConnection) :
    forceCloseInLoop.run stateMemory c = c.forceCloseInLoop := by
  rw [forceCloseInLoop, run_ifConnectedOrDisconnecting, run_handleClose]
  rfl

theorem run_connectDestroyed (c : TcpConnection) :
    connectDestroyed.run stateMemory c = c.connectDestroyed := by
  rw [connectDestroyed, run_ifConnectedOrDisconnecting, TcpConnection.connectDestroyed]
  split <;> rfl

theorem run_shutdown (c : TcpConnection) :
    (shutdown true).run stateMemory c = c.shutdown := by
  simp only [shutdown, Prog.run, TcpConnection.shutdown, stateMemory]
  split <;> rfl

theorem run_forceClose (c : TcpConnection) :
    forceClose.run stateMemory c = c.forceClose := by
  rw [forceClose, run_ifConnectedOrDisconnecting]
  rfl

/-! ## Threads -/

/-- `none` is the loop thread; it runs the four methods and may make the public calls as well. -/
def Startable : Option ℕ → Method → Prop
  | none, p => p = handleClose ∨ p = forceCloseInLoop ∨ p = shutdownInLoop ∨
      p = connectDestroyed ∨ p = shutdown true ∨ p = forceClose
  | some _, p => p = shutdown false ∨ p = forceClose

abbrev System := Pool (Option ℕ) StateE Act TcpConnection

/-- A thread starts a method when it has finished the last one. -/
def Enabled (S : System) : Move (Option ℕ) StateE Act → Prop
  | .start i p => S.thread i = .done ∧ Startable i p
  | .step _ => True

/-- The loop thread does not store `kDisconnected` while another thread is between the test and
    the store of `shutdown` or `forceClose`. -/
def Undisturbed (S : System) : Move (Option ℕ) StateE Act → Prop
  | .step none => ∀ next, S.thread none = .store .kDisconnected next →
      ∀ j, ¬(S.thread (some j)).AtStore
  | _ => True

/-- A connected connection with all threads idle; the trace begins here. -/
structure Started (S : System) : Prop where
  thread : ∀ i, S.thread i = .done
  state : S.mem.state = .kConnected
  trace : S.mem.trace = []

/-- The number of calls of `connectionCallback_`. -/
def downs (c : TcpConnection) : ℕ :=
  c.trace.countP fun
    | .connectionCallback _ => true
    | _ => false

/-- The number of calls of `closeCallback_`. -/
def closes (c : TcpConnection) : ℕ := c.trace.count .closeCallback

/-- A method that no other thread interrupts takes the connection where the method of
    `TcpConnection` does, here `handleClose` on the loop thread. -/
theorem exists_run_handleClose (S : System) (h : S.thread none = handleClose) :
    ∃ n, (List.replicate n (Move.step none)).foldl (Pool.exec stateMemory) S =
      { thread := Function.update S.thread none .done, mem := S.mem.handleClose } := by
  obtain ⟨n, hn⟩ := Pool.exists_run stateMemory S none
  refine ⟨n, ?_⟩
  rw [hn, h, run_handleClose]

/-! ## What a step may do -/

def Act.downs : Act → ℕ
  | notifyConnection | callConnection => 1
  | _ => 0

def Act.closes : Act → ℕ
  | notifyClose => 1
  | _ => 0

theorem state_perform (c : TcpConnection) (a : Act) : (a.perform c).state = c.state := by
  cases a <;> simp [Act.perform, TcpConnection.notifyConnection, TcpConnection.notifyClose,
    TcpConnection.emitIf, TcpConnection.emit, TcpConnection.queueIf,
    TcpConnection.shutdownInLoop]
  split <;> rfl

/-- The trace grows by at most the callback that the action is. -/
theorem trace_perform (c : TcpConnection) (a : Act) :
    ∃ es, (a.perform c).trace = c.trace ++ es ∧
      (es.countP fun | .connectionCallback _ => true | _ => false) ≤ a.downs ∧
      es.count .closeCallback ≤ a.closes := by
  cases a with
  | closeFile => exact ⟨_, c.trace_closeFile, by split <;> simp, by split <;> simp⟩
  | disableAll => exact ⟨[], by simp [Act.perform], by simp, by simp⟩
  | remove => exact ⟨[], by simp [Act.perform], by simp, by simp⟩
  | notifyConnection =>
    refine ⟨if c.connectionCallback then [.connectionCallback c.state] else [], ?_, ?_, ?_⟩
    · show (if c.connectionCallback then c.trace ++ [_] else c.trace) = _
      split <;> simp
    all_goals split <;> simp [Act.downs]
  | callConnection => exact ⟨[.connectionCallback c.state], rfl, by simp [Act.downs], by simp⟩
  | notifyClose =>
    refine ⟨if c.closeCallback then [.closeCallback] else [], ?_, ?_, ?_⟩
    · show (if c.closeCallback then c.trace ++ [_] else c.trace) = _
      split <;> simp
    all_goals split <;> simp [Act.closes]
  | shutdownInLoop =>
    simp only [Act.perform, TcpConnection.shutdownInLoop]
    split
    · exact ⟨[.shutdownWrite c.outputBuffer.readable c.fileFd], rfl, by simp, by simp⟩
    · exact ⟨[], by simp, by simp, by simp⟩
  | queueShutdownInLoop =>
    exact ⟨[], by simp [Act.perform, TcpConnection.queueIf], by simp, by simp⟩
  | queueForceCloseInLoop =>
    exact ⟨[], by simp [Act.perform, TcpConnection.queueIf], by simp, by simp⟩

theorem downs_perform (c : TcpConnection) (a : Act) :
    downs (a.perform c) ≤ downs c + a.downs := by
  obtain ⟨es, ht, hd, -⟩ := trace_perform c a
  rw [downs, ht, List.countP_append]
  exact Nat.add_le_add_left hd _

theorem closes_perform (c : TcpConnection) (a : Act) :
    closes (a.perform c) ≤ closes c + a.closes := by
  obtain ⟨es, ht, -, hk⟩ := trace_perform c a
  rw [closes, ht, List.count_append]
  exact Nat.add_le_add_left hk _

/-- The rest of a public call on another thread: it stores only `kDisconnecting`, right after a
    test that `kDisconnected` fails, and calls nothing back. -/
def Calling : Method → Prop
  | .done => True
  | .load branch => ∀ s, Calling (branch s) ∧ (s = .kDisconnected → ¬(branch s).AtStore)
  | .store s next => s = .kDisconnecting ∧ Calling next ∧ ¬next.AtStore
  | .act a next => a.downs = 0 ∧ a.closes = 0 ∧ Calling next ∧ ¬next.AtStore

/-- The rest of a method of the loop thread once `kDisconnected` is stored: it notifies at most
    `d` times, closes at most `k` times, and takes the state nowhere else. -/
def After (d k : ℕ) : Method → Prop
  | .done => True
  | .load branch => After d k (branch .kDisconnected)
  | .store s next => s = .kDisconnected ∧ After d k next
  | .act a next => a.downs ≤ d ∧ a.closes ≤ k ∧ After (d - a.downs) (k - a.closes) next

/-- The rest of a method of the loop thread before that: it calls nothing back before it stores
    `kDisconnected`, and then at most once each. -/
def Before : Method → Prop
  | .done => True
  | .load branch => ∀ s, s ≠ .kDisconnected → Before (branch s)
  | .store s next => (s = .kDisconnected → After 1 1 next) ∧ (s ≠ .kDisconnected → Before next)
  | .act a next => a.downs = 0 ∧ a.closes = 0 ∧ Before next

theorem calling_of_startable {j : ℕ} {p : Method} (h : Startable (some j) p) : Calling p := by
  obtain rfl | rfl := h
  · intro s
    cases s <;> simp [Calling, Prog.AtStore, Act.downs, Act.closes]
  · have hstore : Calling (.store .kDisconnecting <| .act .queueForceCloseInLoop .done) := by
      simp [Calling, Prog.AtStore, Act.downs, Act.closes]
    intro s
    cases s with
    | kConnected => exact ⟨hstore, by simp⟩
    | _ => exact ⟨fun t => by cases t <;> simp [Calling, Prog.AtStore, hstore], fun _ hat => hat⟩

theorem after_of_startable {p : Method} (h : Startable none p) : After 0 0 p := by
  obtain rfl | rfl | rfl | rfl | rfl | rfl := h
  all_goals trivial

theorem before_ifConnectedOrDisconnecting {yes no : Method} (hyes : Before yes)
    (hno : Before no) : Before (ifConnectedOrDisconnecting yes no) := by
  intro s _
  show Before (if s = .kConnected then yes else _)
  split
  · exact hyes
  · intro t _
    show Before (if t = .kDisconnecting then yes else no)
    split
    · exact hyes
    · exact hno

theorem before_of_startable {p : Method} (h : Startable none p) : Before p := by
  have hclose : Before handleClose := by
    intro s hs
    simp [hs, Before, After, Act.downs, Act.closes]
  obtain rfl | rfl | rfl | rfl | rfl | rfl := h
  · exact hclose
  · exact before_ifConnectedOrDisconnecting hclose trivial
  · exact ⟨rfl, rfl, trivial⟩
  · refine before_ifConnectedOrDisconnecting ?_ ⟨rfl, rfl, trivial⟩
    simp [Before, After, Act.downs, Act.closes]
  · intro s hs
    cases s <;> simp [Before, Act.downs, Act.closes]
  · refine before_ifConnectedOrDisconnecting ?_ trivial
    simp [Before, Act.downs, Act.closes]

/-! ## The invariant -/

/-- What a thread and the connection satisfy between steps. -/
def Safe (c : TcpConnection) : Option ℕ → Method → Prop
  | some _, p => Calling p ∧ (p.AtStore → c.state ≠ .kDisconnected)
  | none, p =>
    (c.state ≠ .kDisconnected ∧ downs c = 0 ∧ closes c = 0 ∧ Before p) ∨
    (c.state = .kDisconnected ∧ ∃ d k, downs c + d ≤ 1 ∧ closes c + k ≤ 1 ∧ After d k p)

/-- A step of a public call that only loads, stores `kDisconnecting` over another state than
    `kDisconnected`, or acts silently, leaves every other thread safe. -/
theorem safe_caller_other {c : TcpConnection} {p q : Method} {i : Option ℕ} {j : ℕ}
    (h : Safe c (some j) p) (hq : Safe c i q) : Safe (p.step stateMemory c).2 i q := by
  cases p with
  | done => exact hq
  | load branch => exact hq
  | store s next =>
    obtain ⟨⟨rfl, -⟩, hs⟩ := h
    have hne : c.state ≠ .kDisconnected := hs trivial
    cases i with
    | some i => exact ⟨hq.1, fun _ => by simp [Prog.step, stateMemory, TcpConnection.setState]⟩
    | none =>
      obtain ⟨-, hd, hk, hb⟩ | ⟨hst, -⟩ := hq
      · exact .inl ⟨by simp [Prog.step, stateMemory, TcpConnection.setState], hd, hk, hb⟩
      · exact absurd hst hne
  | act a next =>
    obtain ⟨⟨ha, ha', -⟩, -⟩ := h
    have hst : (a.perform c).state = c.state := state_perform c a
    have hd := downs_perform c a
    have hk := closes_perform c a
    cases i with
    | some i => exact ⟨hq.1, fun hat => by
        show (a.perform c).state ≠ _
        rw [hst]
        exact hq.2 hat⟩
    | none =>
      show Safe (a.perform c) none q
      obtain ⟨hne, hd', hk', hb⟩ | ⟨hst', d, k, hd', hk', hf⟩ := hq
      · exact .inl ⟨by rw [hst]; exact hne, by omega, by omega, hb⟩
      · exact .inr ⟨by rw [hst]; exact hst', d, k, by omega, by omega, hf⟩

theorem safe_caller_own {c : TcpConnection} {p : Method} {j : ℕ} (h : Safe c (some j) p) :
    Safe (p.step stateMemory c).2 (some j) (p.step stateMemory c).1 := by
  cases p with
  | done => exact h
  | load branch =>
    -- the value that is loaded is the state, so a store that follows has seen it
    refine ⟨(h.1 c.state).1, fun hat hst => ?_⟩
    exact (h.1 c.state).2 hst hat
  | store s next => exact ⟨h.1.2.1, fun hat => absurd hat h.1.2.2⟩
  | act a next => exact ⟨h.1.2.2.1, fun hat => absurd hat h.1.2.2.2⟩

theorem safe_loop_own {c : TcpConnection} {p : Method} (h : Safe c none p) :
    Safe (p.step stateMemory c).2 none (p.step stateMemory c).1 := by
  cases p with
  | done => exact h
  | load branch =>
    obtain ⟨hne, hd, hk, hb⟩ | ⟨hst, d, k, hd, hk, hf⟩ := h
    · exact .inl ⟨hne, hd, hk, hb c.state hne⟩
    · refine .inr ⟨hst, d, k, hd, hk, ?_⟩
      show After d k (branch c.state)
      rw [hst]
      exact hf
  | store s next =>
    obtain ⟨hne, hd, hk, hb⟩ | ⟨hst, d, k, hd, hk, rfl, hf⟩ := h
    · by_cases hs : s = .kDisconnected
      · refine .inr ⟨hs, 1, 1, ?_, ?_, hb.1 hs⟩
        · show downs c + 1 ≤ 1
          omega
        · show closes c + 1 ≤ 1
          omega
      · exact .inl ⟨hs, hd, hk, hb.2 hs⟩
    · exact .inr ⟨rfl, d, k, hd, hk, hf⟩
  | act a next =>
    have hst : (a.perform c).state = c.state := state_perform c a
    have hd' := downs_perform c a
    have hk' := closes_perform c a
    show Safe (a.perform c) none next
    obtain ⟨hne, hd, hk, ha, ha', hb⟩ | ⟨hs, d, k, hd, hk, had, hak, hf⟩ := h
    · exact .inl ⟨by rw [hst]; exact hne, by omega, by omega, hb⟩
    · exact .inr ⟨by rw [hst]; exact hs, _, _, by omega, by omega, hf⟩

/-- The loop thread disturbs a caller only by storing `kDisconnected` ahead of its store. -/
theorem safe_loop_other {c : TcpConnection} {p q : Method} {j : ℕ} (h : Safe c none p)
    (hu : ∀ next, p = .store .kDisconnected next → ¬q.AtStore) (hq : Safe c (some j) q) :
    Safe (p.step stateMemory c).2 (some j) q := by
  refine ⟨hq.1, fun hat => ?_⟩
  cases p with
  | done => exact hq.2 hat
  | load branch => exact hq.2 hat
  | store s next =>
    show s ≠ .kDisconnected
    rintro rfl
    exact hu next rfl hat
  | act a next =>
    show (a.perform c).state ≠ _
    rw [state_perform]
    exact hq.2 hat

theorem safe_exec {S : System} {m : Move (Option ℕ) StateE Act}
    (hS : ∀ i, Safe S.mem i (S.thread i)) (hm : Enabled S m ∧ Undisturbed S m) (i : Option ℕ) :
    Safe (S.exec stateMemory m).mem i ((S.exec stateMemory m).thread i) := by
  refine Pool.invariant (T := fun i p c => Safe c i p)
    (E := fun S m => Enabled S m ∧ Undisturbed S m) (.single ⟨hm, rfl⟩) hS ?_ ?_ ?_ i
  · rintro T i p ⟨⟨-, hp⟩, -⟩ hT
    cases i with
    | some j =>
      refine ⟨calling_of_startable hp, fun hat => ?_⟩
      obtain rfl | rfl := hp <;> exact hat.elim
    | none =>
      obtain ⟨hne, hd, hk, -⟩ | ⟨hst, d, k, hd, hk, -⟩ := hT none
      · exact .inl ⟨hne, hd, hk, before_of_startable hp⟩
      · exact .inr ⟨hst, 0, 0, by omega, by omega, after_of_startable hp⟩
  · rintro T i - hT
    cases i with
    | some j => exact safe_caller_own (hT (some j))
    | none => exact safe_loop_own (hT none)
  · rintro T i ⟨-, hu⟩ hT j hj
    cases i with
    | some i => exact safe_caller_other (hT (some i)) (hT j)
    | none =>
      cases j with
      | none => exact absurd rfl hj
      | some j => exact safe_loop_other (hT none) (fun next hp => hu next hp j) (hT (some j))

/-- Once the state is `kDisconnected`, a safe step keeps it. -/
theorem state_exec {S : System} {m : Move (Option ℕ) StateE Act}
    (hS : ∀ i, Safe S.mem i (S.thread i)) (hst : S.mem.state = .kDisconnected) :
    (S.exec stateMemory m).mem.state = .kDisconnected := by
  cases m with
  | start i p => exact hst
  | step i =>
    show ((S.thread i).step stateMemory S.mem).2.state = _
    have hi := hS i
    cases hp : S.thread i with
    | done => exact hst
    | load branch => exact hst
    | act a next => exact (state_perform S.mem a).trans hst
    | store s next =>
      rw [hp] at hi
      cases i with
      | some j => exact absurd hst (hi.2 trivial)
      | none =>
        obtain ⟨hne, -⟩ | ⟨-, d, k, -, -, hs, -⟩ := hi
        · exact absurd hst hne
        · exact hs

/-- **kDisconnected is final and notified once**, from any number of threads, as long as no close
    falls between the test and the store of a public call. -/
theorem kDisconnected_final {S T : System} (h₀ : Started S)
    {ms : List (Move (Option ℕ) StateE Act)}
    (hrun : Run (fun S m T => (Enabled S m ∧ Undisturbed S m) ∧ T = S.exec stateMemory m) S ms T) :
    downs T.mem ≤ 1 ∧ closes T.mem ≤ 1 ∧
      ∀ (ns : List (Move (Option ℕ) StateE Act)) (U : System), T.mem.state = .kDisconnected →
        Run (fun S m T => (Enabled S m ∧ Undisturbed S m) ∧ T = S.exec stateMemory m) T ns U →
          U.mem.state = .kDisconnected := by
  have hS : ∀ i, Safe S.mem i (S.thread i) := fun i => by
    rw [h₀.thread i]
    cases i with
    | some j => exact ⟨trivial, False.elim⟩
    | none => exact .inl ⟨by simp [h₀.state], by simp [downs, h₀.trace], by simp [closes, h₀.trace],
        trivial⟩
  have hT : ∀ i, Safe T.mem i (T.thread i) :=
    hrun.invariant (P := fun T => ∀ i, Safe T.mem i (T.thread i)) hS
      fun U m V hU hm i => hm.2 ▸ safe_exec hU hm.1 i
  refine ⟨?_, ?_, fun ns U hst hrun' => ?_⟩
  · obtain ⟨-, hd, -, -⟩ | ⟨-, d, k, hd, -, -⟩ := hT none <;> omega
  · obtain ⟨-, -, hk, -⟩ | ⟨-, d, k, -, hk, -⟩ := hT none <;> omega
  · refine (hrun'.invariant (P := fun U => (∀ i, Safe U.mem i (U.thread i)) ∧
      U.mem.state = .kDisconnected) ⟨hT, hst⟩ ?_).2
    rintro V m _ ⟨hV, hs⟩ ⟨hm, rfl⟩
    exact ⟨safe_exec hV hm, state_exec hV hs⟩

/-- A connection with all threads idle. -/
def idle (c : TcpConnection) : System := { thread := fun _ => .done, mem := c }

/-- A close by the peer, and a `shutdown` on another thread that starts right after its store. -/
theorem kDisconnected_final_close :
    let c : TcpConnection :=
      { state := .kConnected, connectionCallback := true, closeCallback := true }
    let T := ([.start none handleClose, .step none, .step none, .step none, .step none,
      .start (some 0) (shutdown false), .step none, .step (some 0), .step none, .step none] :
        List (Move (Option ℕ) StateE Act)).foldl (Pool.exec stateMemory) (idle c)
    downs T.mem ≤ 1 ∧ closes T.mem ≤ 1 := by
  have h := kDisconnected_final ⟨fun _ => rfl, rfl, rfl⟩
    (Run.of_allowed (Q := fun S m => Enabled S m ∧ Undisturbed S m) (f := Pool.exec stateMemory)
      (s := idle { state := .kConnected, connectionCallback := true, closeCallback := true })
      (?_ : Run.Allowed _ _ _ [.start none handleClose, .step none, .step none, .step none,
        .step none, .start (some 0) (shutdown false), .step none, .step (some 0), .step none,
        .step none]))
  · exact ⟨h.1, h.2.1⟩
  · have hact : ∀ {S : System} {a : Act} {p : Method}, S.thread none = .act a p →
        Undisturbed S (.step none) := fun ha next hs => by simp [ha] at hs
    exact ⟨⟨⟨rfl, .inl rfl⟩, trivial⟩, ⟨trivial, fun _ _ _ hat => hat⟩, ⟨trivial, hact rfl⟩,
      ⟨trivial, fun _ _ _ hat => hat⟩, ⟨trivial, fun _ _ _ hat => hat⟩,
      ⟨⟨rfl, .inl rfl⟩, trivial⟩, ⟨trivial, hact rfl⟩, ⟨trivial, trivial⟩, ⟨trivial, hact rfl⟩,
      ⟨trivial, hact rfl⟩, trivial⟩

/-- A close between the test and the store of `shutdown`: the state comes back, and
    `connectDestroyed` notifies again. -/
theorem not_kDisconnected_final :
    ¬∀ (S T : System) (ms : List (Move (Option ℕ) StateE Act)), Started S →
      Run (fun S m T => Enabled S m ∧ T = S.exec stateMemory m) S ms T →
        downs T.mem ≤ 1 ∧ closes T.mem ≤ 1 ∧
          ∀ (ns : List (Move (Option ℕ) StateE Act)) (U : System), T.mem.state = .kDisconnected →
            Run (fun S m T => Enabled S m ∧ T = S.exec stateMemory m) T ns U →
              U.mem.state = .kDisconnected := by
  intro h
  have hrun : Run (fun S m T => Enabled S m ∧ T = S.exec stateMemory m)
      (idle { state := .kConnected, connectionCallback := true, closeCallback := true })
      [.start (some 0) (shutdown false), .step (some 0),
        .start none handleClose, .step none, .step none, .step none, .step none, .step none,
        .step none, .step none, .step (some 0), .step (some 0),
        .start none connectDestroyed, .step none, .step none, .step none, .step none, .step none,
        .step none] _ :=
    Run.of_allowed ⟨⟨rfl, .inl rfl⟩, trivial, ⟨rfl, .inl rfl⟩, trivial, trivial, trivial, trivial,
      trivial, trivial, trivial, trivial, trivial, ⟨rfl, .inr (.inr (.inr (.inl rfl)))⟩, trivial,
      trivial, trivial, trivial, trivial, trivial, trivial⟩
  exact absurd (h _ _ _ ⟨fun _ => rfl, rfl, rfl⟩ hrun).1 (by decide)

end Race

end AegisNet
