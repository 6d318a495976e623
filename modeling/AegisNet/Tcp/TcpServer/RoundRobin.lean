import AegisNet.Lib.Turns
import AegisNet.Tcp.TcpServer.Startup

/-!
# Where connections go

`EventLoopThreadPool::getNextLoop` deals the connections to the workers in turn. A connection stays
on its loop, whatever the loops do.

## Main definitions

- `TcpServer.placed` — the loop of a connection
- `TcpServer.dealt` — how many of some connections that follow one another are on a loop

## Main results

- `StartingServer.round_robin` — connection `n` of a started server is on worker `n - 1` modulo the
  number of workers, so that the connections are spread evenly
-/

namespace AegisNet

namespace TcpServer

variable {κ : Type*} [DecidableEq κ]

def placed (s : TcpServer κ) (n : ℕ) : Option κ := (s.accepted n).map ServedConnection.loop

/-- Of the `n` connections from `first` on, those that were made on the loop `k`. -/
def dealt (s : TcpServer κ) (k : κ) (first n : ℕ) : ℕ :=
  n.count fun m => s.placed (first + m) = some k

/-- The loop whose turn connection `n` is. -/
def turn (s : TcpServer κ) (n : ℕ) : κ :=
  s.workers.getD ((n - 1) % s.workers.length) s.baseLoop

/-- The connections so far are on the loops whose turn it was. -/
structure InTurn (s : TcpServer κ) : Prop where
  pos : 0 < s.nextConnId
  next : s.next = if s.workers = [] then 0 else (s.nextConnId - 1) % s.workers.length
  placed : ∀ n, s.placed n = if 0 < n ∧ n < s.nextConnId then some (s.turn n) else none

omit [DecidableEq κ] in
theorem Fresh.inTurn {s : TcpServer κ} (h : s.Fresh) (hnext : s.next = 0) : s.InTurn where
  pos := by rw [h.nextConnId]; exact Nat.one_pos
  next := by simp [h.nextConnId, hnext]
  placed n := by
    have hnone : ¬ (0 < n ∧ n < 1) := by omega
    rw [h.nextConnId, if_neg hnone, TcpServer.placed, h.accepted n]
    rfl

variable {s t : TcpServer κ}

/-- The step leaves the connections where they are, and makes none. -/
structure Stays (s t : TcpServer κ) : Prop where
  baseLoop : t.baseLoop = s.baseLoop
  workers : t.workers = s.workers
  next : t.next = s.next
  nextConnId : t.nextConnId = s.nextConnId
  placed : t.placed = s.placed

omit [DecidableEq κ] in
theorem InTurn.stays (h : s.InTurn) (hs : s.Stays t) : t.InTurn where
  pos := by rw [hs.nextConnId]; exact h.pos
  next := by rw [hs.next, hs.workers, hs.nextConnId]; exact h.next
  placed n := by
    rw [hs.placed, hs.nextConnId, turn, hs.workers, hs.baseLoop]
    exact h.placed n

theorem stays_onConnection (s : TcpServer κ) (k : κ) (n : ConnId)
    (f : TcpConnection → TcpConnection) : s.Stays (s.onConnection k n f) := by
  cases hc : s.accepted n with
  | none => rw [onConnection, hc]; exact ⟨rfl, rfl, rfl, rfl, rfl⟩
  | some c =>
    rw [onConnection_eq hc]
    refine ⟨rfl, rfl, rfl, rfl, funext fun m => ?_⟩
    show (Function.update s.accepted n _ m).map ServedConnection.loop = s.placed m
    by_cases hm : m = n
    · rw [hm, Function.update_self, placed, hc]
      rfl
    · rw [Function.update_of_ne hm]
      rfl

theorem stays_onOwnLoop (s : TcpServer κ) (n : ConnId) (f : TcpConnection → TcpConnection) :
    s.Stays (s.onOwnLoop n f) := by
  unfold onOwnLoop
  split
  · exact ⟨rfl, rfl, rfl, rfl, rfl⟩
  · exact stays_onConnection s _ n f

theorem stays_execOp (s : TcpServer κ) (k : κ) (op : ServerOp) : s.Stays (s.execOp k op) := by
  cases op with
  | submitClosed n => exact ⟨rfl, rfl, rfl, rfl, rfl⟩
  | submitEstablished n | erase n | queueDestroyed n =>
    simp only [execOp]
    split <;> exact ⟨rfl, rfl, rfl, rfl, rfl⟩
  | connectEstablished n =>
    obtain ⟨hbase, hworkers, hnext, hid, hplaced⟩ :=
      stays_onConnection (s.record n k .connectEstablished) k n TcpConnection.connectEstablished
    exact ⟨hbase, hworkers, hnext, hid, hplaced⟩
  | connectDestroyed n =>
    obtain ⟨hbase, hworkers, hnext, hid, hplaced⟩ :=
      stays_onConnection (s.record n k .connectDestroyed) k n TcpConnection.connectDestroyed
    exact ⟨hbase, hworkers, hnext, hid, hplaced⟩
  | runBound n f => exact stays_onConnection s k n fun c => c.runFunctor f

theorem stays_exec (s : TcpServer κ) {l : ServerStep κ} (hl : l ≠ .newConnection) :
    s.Stays (s.exec l) := by
  cases l with
  | newConnection => exact absurd rfl hl
  | handleEvent n revents readv calls w f => exact stays_onOwnLoop s n _
  | call n call => exact stays_onOwnLoop s n _
  | swapFunctors k | nextFunctor k => exact ⟨rfl, rfl, rfl, rfl, rfl⟩
  | perform k =>
    show s.Stays (s.perform k)
    unfold perform
    split
    · exact ⟨rfl, rfl, rfl, rfl, rfl⟩
    · next op rest _ =>
      obtain ⟨hbase, hworkers, hnext, hid, hplaced⟩ := stays_execOp (s.advance k rest) k op
      exact ⟨hbase, hworkers, hnext, hid, hplaced⟩

omit [DecidableEq κ] in
/-- `getNextLoop` gives the loop whose turn it is, and `next_` is then the next one. -/
theorem InTurn.getNextLoop (h : s.InTurn) :
    s.getNextLoop = (s.turn s.nextConnId,
      if s.workers = [] then 0 else s.nextConnId % s.workers.length) := by
  have hpos := h.pos
  by_cases hw : s.workers = []
  · simp [TcpServer.getNextLoop, turn, hw, h.next]
  · have hlen : 0 < s.workers.length := List.length_pos_iff.mpr hw
    have hnext := h.next
    rw [if_neg hw] at hnext
    have hsucc := Turns.wrap_mod hlen (s.nextConnId - 1)
    rw [Nat.sub_add_cancel hpos] at hsucc
    simp only [TcpServer.getNextLoop, List.isEmpty_iff, if_neg hw, turn, hnext, hsucc]

theorem InTurn.newConnection (h : s.InTurn) : s.newConnection.InTurn where
  pos := Nat.succ_pos _
  next := by
    show s.getNextLoop.2 = _
    rw [h.getNextLoop]
    rfl
  placed n := by
    have hpos := h.pos
    show _ = if 0 < n ∧ n < s.nextConnId + 1 then some (s.turn n) else none
    by_cases hn : n = s.nextConnId
    · rw [hn, TcpServer.placed, accepted_newConnection, if_pos ⟨hpos, Nat.lt_succ_self _⟩,
        h.getNextLoop]
      rfl
    · have hold := h.placed n
      rw [TcpServer.placed] at hold
      rw [TcpServer.placed, accepted_newConnection_of_ne hn, hold]
      exact if_congr (by omega) rfl rfl

theorem InTurn.exec (h : s.InTurn) (l : ServerStep κ) : (s.exec l).InTurn := by
  by_cases hl : l = .newConnection
  · rw [hl]
    exact h.newConnection
  · exact h.stays (stays_exec s hl)

end TcpServer

namespace StartingServer

variable {τ : Type*} [DecidableEq τ]

/-- Connection `n` of a server with workers is on the worker `n - 1` modulo their number, and on the
    base loop if there are none. Of connections that follow one another two workers get the same
    number, or one of them gets one more. -/
theorem round_robin {s t : StartingServer τ} {ls : List (StartStep τ)} (hs : s.Fresh)
    (h : Run Step s ls t) :
    (∀ n, t.server.placed n = if 0 < n ∧ n < t.server.nextConnId then
      some (if t.numThreads ≤ 0 then none else some ((n - 1) % t.numThreads.toNat)) else none) ∧
    ∀ i j first n, i < t.numThreads.toNat → j < t.numThreads.toNat → 0 < first →
      first + n ≤ t.server.nextConnId →
        t.server.dealt (some i) first n ≤ t.server.dealt (some j) first n + 1 := by
  obtain ⟨hturn, hbase⟩ : t.withPool.InTurn ∧ t.withPool.baseLoop = none := by
    refine (run_withPool hs h).2.invariant (P := fun t => t.InTurn ∧ t.baseLoop = none)
      ⟨?_, hs.baseLoop⟩ ?_
    · have hfresh : s.withPool.Fresh :=
        ⟨hs.fresh.nextConnId, hs.fresh.connections, hs.fresh.accepted, hs.fresh.running,
          hs.fresh.queued, hs.fresh.log⟩
      exact hfresh.inTurn hs.next
    · rintro t l _ ⟨hturn, hbase⟩ ⟨-, rfl⟩
      exact ⟨hturn.exec l, (t.members_exec l).1.trans hbase⟩
  have hlen : t.withPool.workers.length = t.numThreads.toNat := by
    simp [withPool, TcpServer.withWorkers, pool]
  have hloop : ∀ n, t.withPool.turn n =
      if t.numThreads ≤ 0 then none else some ((n - 1) % t.numThreads.toNat) := fun n => by
    rw [TcpServer.turn, hlen, hbase]
    by_cases hnum : t.numThreads ≤ 0
    · have hzero : t.numThreads.toNat = 0 := by omega
      simp [withPool, TcpServer.withWorkers, pool, hnum, hzero]
    · have hlt : (n - 1) % t.numThreads.toNat < t.numThreads.toNat := Nat.mod_lt _ (by omega)
      rw [if_neg hnum]
      simp [withPool, TcpServer.withWorkers, pool, hlt]
  have hplaced : ∀ n, t.server.placed n = if 0 < n ∧ n < t.server.nextConnId then
      some (if t.numThreads ≤ 0 then none else some ((n - 1) % t.numThreads.toNat)) else none :=
    fun n => by
      rw [← hloop]
      exact hturn.placed n
  refine ⟨hplaced, fun i j first n hi hj hfirst hle => ?_⟩
  have hdealt : ∀ k < t.numThreads.toNat, t.server.dealt (some k) first n =
      n.count fun m => (first - 1 + m) % t.numThreads.toNat = k := fun k hk => by
    rw [TcpServer.dealt, Nat.count_eq_card_filter_range, Nat.count_eq_card_filter_range]
    refine congrArg Finset.card (Finset.filter_congr fun m hm => ?_)
    have hm' : m < n := Finset.mem_range.mp hm
    have hsub : first + m - 1 = first - 1 + m := by omega
    rw [hplaced, if_pos (by omega), if_neg (by omega), hsub]
    simp
  rw [hdealt i hi, hdealt j hj]
  exact Turns.count_le (first - 1) n hi hj

/-- Three connections for two workers. -/
theorem round_robin_three :
    let s : StartingServer Unit :=
      { baseThread := ()
        numThreads := 2
        server :=
          { baseLoop := none, workers := [], listenAddr := ⟨(127, 0, 0, 1), 8080⟩
            name := "server" } }
    let ls : List (StartStep Unit) :=
      [.start (), .test () 0, .callback 0, .publish 0, .fetch () 0, .test () 1, .callback 1,
        .publish 1, .fetch () 1, .test () 2, .submit (), .enter 1, .enter 0,
        .server .newConnection, .server (.perform none), .server .newConnection,
        .server (.perform none), .server .newConnection]
    let t := ls.foldl exec s
    t.server.placed 3 = some (some 0) ∧
      t.server.dealt (some 0) 1 3 ≤ t.server.dealt (some 1) 1 3 + 1 := by
  intro s ls t
  have hs : s.Fresh :=
    ⟨rfl, fun _ => rfl, fun _ => rfl, rfl, rfl, rfl,
      ⟨rfl, fun _ => rfl, fun _ => rfl, fun _ => rfl, fun _ => rfl, rfl⟩, rfl, rfl, rfl⟩
  have hsteps : Run Step s ls t := Run.of_allowed (by decide +kernel)
  obtain ⟨hplaced, hdealt⟩ := round_robin hs hsteps
  exact ⟨(hplaced 3).trans (by decide +kernel),
    hdealt 0 1 1 3 (by decide +kernel) (by decide +kernel) (by decide) (by decide +kernel)⟩

end StartingServer

end AegisNet
