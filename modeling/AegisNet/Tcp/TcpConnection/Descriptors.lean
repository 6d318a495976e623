import AegisNet.Tcp.TcpConnection.Closing
import AegisNet.Tcp.TcpConnection.HalfClose
import Mathlib.Data.List.Perm.Basic

/-!
# Who closes a file descriptor

A descriptor that is passed to `sendFile` is handed on to the connection, or to a functor in the
queue of its loop, or to nobody. The connection has one slot for a file, and closes what is in it
when the file is sent, when the transfer fails, and in `handleClose`. Every descriptor passed in is
closed, held, queued or leaked; and there are four places where it leaks, one of them in the loop,
which drops what it has not run.

## Main definitions

- `OwnedConnection` — a connection, and the `sendFileInLoop` functors that are queued for it
- `FileStep` — what happens to a connection between `connectEstablished` and its destruction
- `OwnedConnection.leaks` — the descriptors that a step leaks

## Main results

- `OwnedConnection.ledger_of_run` — closed, held, queued and leaked are together what was passed in
- `OwnedConnection.descriptors_closed_iff` — when every descriptor is closed exactly once
-/

namespace AegisNet

/-- A connection with the files of the functors that calls of `sendFile` on other threads have
    queued. Each functor shares the ownership of the connection. -/
structure OwnedConnection where
  conn : TcpConnection
  queued : List (File × ℕ) := []

inductive FileStep
  /-- a public call on the loop thread -/
  | call (k : TcpConnection.Call)
  /-- `sendFile` on another thread -/
  | sendFile (file : File) (fileSize : ℕ)
  /-- the functor of the `n`-th of these calls runs -/
  | sendFileInLoop (n : ℕ)
  /-- it is dropped with all that the loop has not run, as nothing runs it behind the last
      `doPendingFunctors` of `loop()` -/
  | dropFunctor (n : ℕ)
  /-- `shutdown` or `forceClose` on another thread, up to the functor that it queues -/
  | setDisconnecting
  | sendInLoop (message : Bytes) (w : IoResult)
  | shutdownInLoop
  | forceCloseInLoop
  | handleWrite (w f : IoResult)
  | handleClose
  | connectDestroyed
  deriving DecidableEq, Repr

namespace FileStep

/-- The descriptor that a step passes to `sendFile`. -/
def passes : FileStep → Option ℤ
  | call (.sendFile file _) => some file.fd
  | sendFile file _ => some file.fd
  | _ => none

end FileStep

/-- The descriptors that the steps pass to `sendFile`. -/
def passed (ls : List FileStep) : List ℤ := ls.filterMap FileStep.passes

namespace OwnedConnection

/-- A descriptor that the connection need not close is no open one. -/
def ifOpen (fd : ℤ) : Option ℤ := if 0 ≤ fd then some fd else none

theorem count_ifOpen {fd : ℤ} (hfd : 0 ≤ fd) (fd' : ℤ) :
    (ifOpen fd').toList.count fd = [fd'].count fd := by
  unfold ifOpen
  split
  · rfl
  · next hneg =>
    have hne : fd' ≠ fd := fun heq => hneg (heq ▸ hfd)
    simp [hne]

end OwnedConnection

namespace TcpConnection

open OwnedConnection (ifOpen count_ifOpen)

/-- The descriptor that a connection which is not down holds in its slot. -/
def held (c : TcpConnection) : Option ℤ :=
  if c.state ≠ .kDisconnected ∧ 0 ≤ c.fileFd then some c.fileFd else none

/-- How often a descriptor was closed or is held. -/
def balance (fd : ℤ) (c : TcpConnection) : ℕ :=
  c.trace.count (.close fd) + c.held.toList.count fd

/-! ## What the methods do to it -/

theorem held_of_kDisconnected {c : TcpConnection} (h : c.state = .kDisconnected) : c.held = none :=
  if_neg fun hand => hand.1 h

theorem held_of_up {c : TcpConnection} (h : c.state ≠ .kDisconnected) :
    c.held = ifOpen c.fileFd := by
  simp [held, ifOpen, h]

/-- Effects that close nothing, on a connection that stays up or down. -/
theorem balance_of_trace {c c' : TcpConnection} {es : List Effect} {fd : ℤ}
    (ht : c'.trace = c.trace ++ es) (hes : es.count (.close fd) = 0)
    (hstate : c'.state = .kDisconnected ↔ c.state = .kDisconnected)
    (hfd : c'.fileFd = c.fileFd) : c'.balance fd = c.balance fd := by
  have hheld : c'.held = c.held := by simp only [held, ne_eq, hstate, hfd]
  rw [balance, balance, hheld, ht, List.count_append, hes, Nat.add_zero]

theorem balance_setDisconnecting {c : TcpConnection} (h : c.state ≠ .kDisconnected) (fd : ℤ) :
    (c.setState .kDisconnecting).balance fd = c.balance fd :=
  balance_of_trace (List.append_nil _).symm rfl (by simp [setState, h]) rfl

theorem balance_core (c : TcpConnection) (fd : ℤ) : c.core.balance fd = c.balance fd := rfl

theorem balance_sendInLoop (c : TcpConnection) (message : Bytes) (w : IoResult) (fd : ℤ) :
    (c.sendInLoop message w).balance fd = c.balance fd := by
  by_cases hc : c.state = .kDisconnected
  · rw [sendInLoop, if_pos hc]
  · rw [← balance_core]
    obtain ⟨h, -⟩ | ⟨-, -, h⟩ | ⟨-, -, n, -, h⟩ | ⟨-, h⟩ := sendInLoop_cases hc message w
    · rw [h, balance_core]
    · rw [h]
      exact balance_of_trace rfl (by simp) Iff.rfl rfl
    · rw [h]
      exact balance_of_trace (c := c) (by rfl) (by simp) Iff.rfl rfl
    · rw [h]
      exact balance_of_trace (List.append_nil _).symm rfl Iff.rfl rfl

theorem balance_shutdownInLoop (c : TcpConnection) (fd : ℤ) :
    c.shutdownInLoop.balance fd = c.balance fd := by
  obtain ⟨-, h⟩ | ⟨-, h⟩ := c.shutdownInLoop_cases
  · rw [h]
  · rw [h]
    exact balance_of_trace rfl (by simp) Iff.rfl rfl

/-- Closing the slot of a connection that is up. -/
theorem balance_closes {c c' : TcpConnection} {fd : ℤ} (hc : c.state ≠ .kDisconnected)
    (ht : c'.trace.count (.close fd) =
      c.trace.count (.close fd) + (if 0 ≤ c.fileFd then [Effect.close c.fileFd] else []).count (.close fd))
    (hheld : c'.held = none) : c'.balance fd = c.balance fd := by
  rw [balance, balance, hheld, ht, held_of_up hc, ifOpen]
  split
  · by_cases hfd : c.fileFd = fd
    · simp [hfd]
    · simp [hfd]
  · rfl

theorem balance_completeWrite {c : TcpConnection} (hc : c.state ≠ .kDisconnected) (fd : ℤ) :
    c.completeWrite.balance fd = c.balance fd := by
  obtain h | ⟨-, -, h⟩ := c.completeWrite_cases
  · rw [h]
  · rw [← balance_core, h, balance_core]
    refine balance_closes hc ?_ ?_
    · show List.count _ (c.trace ++ _ ++ _) = _
      rw [List.count_append, List.count_append]
      split <;> split <;> simp
    · simp only [held, Int.not_le.mpr c.fileFd_finished, and_false, if_false]

theorem balance_handleWrite {c : TcpConnection} (hc : c.state = .kDisconnected →
    c.channel.isWriting = false) (w f : IoResult) (fd : ℤ) :
    (c.handleWrite w f).balance fd = c.balance fd := by
  by_cases hs : c.state = .kDisconnected
  · simp [handleWrite, hc hs]
  · refine (handleWrite_rule (P := fun d => d.state ≠ .kDisconnected ∧ d.balance fd = c.balance fd)
      (fun _ => Iff.rfl) ⟨hs, rfl⟩ ?_ ?_ ?_).2
    · intro d hd
      obtain rfl | ⟨n, rfl⟩ := writeOutput_cases hd
      · exact ⟨hs, rfl⟩
      · exact ⟨hs, balance_of_trace rfl (by simp) Iff.rfl rfl⟩
    · rintro d ⟨hup, hd⟩
      obtain h | ⟨-, -, n, -, h⟩ | ⟨-, hfd, -, h⟩ := d.transferFile_cases f
      · rw [h]
        exact ⟨hup, hd⟩
      · rw [h]
        refine ⟨hup, Eq.trans ?_ hd⟩
        exact balance_of_trace (c := d) rfl (by simp) Iff.rfl rfl
      · rw [h]
        refine ⟨hup, (balance_closes hup ?_ ?_).trans hd⟩
        · show List.count _ (d.trace ++ [_]) = _
          rw [List.count_append, if_pos hfd]
        · simp [held]
    · rintro d ⟨hup, hd⟩
      refine ⟨?_, (balance_completeWrite hup fd).trans hd⟩
      obtain h | ⟨-, -, h⟩ := d.completeWrite_cases
      · rwa [h]
      · show d.completeWrite.core.state ≠ _
        rw [h]
        exact hup

theorem count_close_emitIf (c : TcpConnection) (set : Bool) {e : Effect} {fd : ℤ}
    (he : e ≠ .close fd) :
    (c.emitIf set e).trace.count (.close fd) = c.trace.count (.close fd) := by
  cases set with
  | false => rfl
  | true =>
    show (c.trace ++ [e]).count _ = _
    simp [he]

theorem balance_handleClose (c : TcpConnection) (fd : ℤ) : c.handleClose.balance fd = c.balance fd := by
  by_cases hc : c.state = .kDisconnected
  · rw [handleClose, if_pos hc]
  · refine balance_closes hc ?_ ?_
    · rw [handleClose, if_neg hc]
      refine (count_close_emitIf _ _ (by simp)).trans ((count_close_emitIf _ _ (by simp)).trans ?_)
      show c.closeFile.trace.count _ = _
      rw [trace_closeFile, List.count_append]
    · rw [handleClose, if_neg hc]
      exact held_of_kDisconnected rfl

theorem balance_of_kDisconnected {c : TcpConnection} (h : c.state = .kDisconnected) (fd : ℤ) :
    c.balance fd = c.trace.count (.close fd) := by
  rw [balance, held_of_kDisconnected h]
  rfl

theorem state_connectDestroyed {c : TcpConnection} (hc : c.state ≠ .kConnecting) :
    c.connectDestroyed.state = .kDisconnected := by
  unfold connectDestroyed
  dsimp only
  split
  · rfl
  · next hnot =>
    cases hs : c.state with
    | kDisconnected => rfl
    | kConnecting => exact absurd hs hc
    | kConnected => exact absurd (.inl hs) hnot
    | kDisconnecting => exact absurd (.inr hs) hnot

/-- What was held is lost. -/
theorem balance_connectDestroyed {c : TcpConnection} (hc : c.state ≠ .kConnecting) (fd : ℤ) :
    c.connectDestroyed.balance fd + c.held.toList.count fd = c.balance fd := by
  have htrace : c.connectDestroyed.trace.count (.close fd) = c.trace.count (.close fd) := by
    unfold connectDestroyed
    dsimp only
    split
    · exact (List.count_append ..).trans (by simp [setState])
    · rfl
  rw [balance_of_kDisconnected (state_connectDestroyed hc), htrace]
  rfl

/-- What was held is lost, and the new descriptor is held or closed. -/
theorem balance_sendFileInLoop (c : TcpConnection) (file : File) (fileSize : ℕ) {fd : ℤ}
    (hfd : 0 ≤ fd) : (c.sendFileInLoop file fileSize).balance fd + c.held.toList.count fd =
      c.balance fd + [file.fd].count fd := by
  by_cases hc : c.state = .kDisconnected
  · have hclose : c.sendFileInLoop file fileSize = c.emit (.close file.fd) := if_pos hc
    have hdown : (c.emit (.close file.fd)).state = .kDisconnected := hc
    rw [hclose, balance_of_kDisconnected hdown, balance_of_kDisconnected hc,
      held_of_kDisconnected hc]
    show List.count (.close fd) (c.trace ++ [.close file.fd]) + 0 = _
    by_cases heq : file.fd = fd
    · simp [heq]
    · simp [heq]
  · have hnew : (c.sendFileInLoop file fileSize).held.toList.count fd = [file.fd].count fd := by
      have hslot : (c.sendFileInLoop file fileSize).fileFd = file.fd := by rw [sendFileInLoop_eq hc]
      rw [held_of_up (by rwa [state_sendFileInLoop]), hslot, count_ifOpen hfd]
    rw [balance, balance, hnew, trace_sendFileInLoop hc]
    omega

/-! ## Up or down -/

/-- The connection has been established, and if it is down, epoll does not watch it for output. -/
structure Settled (c : TcpConnection) : Prop where
  state : c.state ≠ .kConnecting
  down : c.state = .kDisconnected → c.channel.isWriting = false

theorem Open.settled {c : TcpConnection} (h : c.Open) : c.Settled :=
  ⟨h.ne.2, fun hs => absurd hs h.ne.1⟩

theorem Settled.open_or_down {c : TcpConnection} (h : c.Settled) :
    c.Open ∨ c.state = .kDisconnected := by
  cases hs : c.state with
  | kDisconnected => exact .inr rfl
  | kConnecting => exact absurd hs h.state
  | kConnected => exact .inl (.inl hs)
  | kDisconnecting => exact .inl (.inr hs)

/-- A method that keeps an open connection open, and does nothing to `EPOLLOUT` on one that is
    down. -/
theorem Settled.keeps {c c' : TcpConnection} (h : c.Settled) (hopen : c.Open → c'.Open)
    (hdown : c.state = .kDisconnected → c'.state = .kDisconnected ∧
      c'.channel.isWriting = c.channel.isWriting) : c'.Settled := by
  obtain ho | hd := h.open_or_down
  · exact (hopen ho).settled
  · obtain ⟨hs, hw⟩ := hdown hd
    exact ⟨by simp [hs], fun _ => hw.trans (h.down hd)⟩

theorem Settled.of_state {c c' : TcpConnection} (h : c.Settled) (hs : c'.state = c.state)
    (hdown : c.state = .kDisconnected → c'.channel.isWriting = c.channel.isWriting) :
    c'.Settled :=
  h.keeps (fun ho => by rwa [Open, hs]) fun hd => ⟨hs.trans hd, hdown hd⟩

theorem Settled.call {c : TcpConnection} (h : c.Settled) (k : Call) : (c.call k).Settled :=
  h.keeps (stays_call c k).isOpen.mpr fun hd => by
    rw [call_of_kDisconnected hd]
    exact ⟨hd, rfl⟩

theorem Settled.handleClose {c : TcpConnection} (h : c.Settled) : c.handleClose.Settled := by
  by_cases hd : c.state = .kDisconnected
  · rwa [TcpConnection.handleClose, if_pos hd]
  · rw [TcpConnection.handleClose, if_neg hd]
    exact ⟨StateE.noConfusion, fun _ => rfl⟩

theorem Settled.connectDestroyed {c : TcpConnection} (h : c.Settled) :
    c.connectDestroyed.Settled := by
  refine ⟨by simp [state_connectDestroyed h.state], fun _ => ?_⟩
  unfold TcpConnection.connectDestroyed
  rfl

end TcpConnection

namespace OwnedConnection

open TcpConnection (held balance)

def exec (x : OwnedConnection) : FileStep → OwnedConnection
  | .call k => { x with conn := x.conn.call k }
  | .sendFile file fileSize =>
    if x.conn.state = .kConnected then { x with queued := x.queued ++ [(file, fileSize)] } else x
  | .sendFileInLoop n =>
    match x.queued[n]? with
    | none => x
    | some (file, fileSize) =>
      { conn := x.conn.sendFileInLoop file fileSize, queued := x.queued.eraseIdx n }
  | .dropFunctor n => { x with queued := x.queued.eraseIdx n }
  | .setDisconnecting =>
    if x.conn.state = .kConnected then { x with conn := x.conn.setState .kDisconnecting } else x
  | .sendInLoop message w => { x with conn := x.conn.sendInLoop message w }
  | .shutdownInLoop => { x with conn := x.conn.shutdownInLoop }
  | .forceCloseInLoop => { x with conn := x.conn.forceCloseInLoop }
  | .handleWrite w f => { x with conn := x.conn.handleWrite w f }
  | .handleClose => { x with conn := x.conn.handleClose }
  | .connectDestroyed => { x with conn := x.conn.connectDestroyed }

/-- The descriptor that a step leaks: one that is refused by `sendFile`, one whose slot is given to
    the next file, one that a dropped functor carries, and one that `connectDestroyed` finds in the
    slot. -/
def leaks (x : OwnedConnection) : FileStep → Option ℤ
  | .call (.sendFile file _) => if x.conn.state = .kConnected then x.conn.held else ifOpen file.fd
  | .sendFile file _ => if x.conn.state = .kConnected then none else ifOpen file.fd
  | .sendFileInLoop n => if n < x.queued.length then x.conn.held else none
  | .dropFunctor n => x.queued[n]?.bind fun job => ifOpen job.1.fd
  | .connectDestroyed => x.conn.held
  | _ => none

/-- The descriptors that the steps leak. -/
def leaked : OwnedConnection → List FileStep → List ℤ
  | _, [] => []
  | x, l :: ls => (x.leaks l).toList ++ leaked (x.exec l) ls

theorem leaked_append (x : OwnedConnection) (ls ms : List FileStep) :
    x.leaked (ls ++ ms) = x.leaked ls ++ (ls.foldl exec x).leaked ms := by
  induction ls generalizing x with
  | nil => rfl
  | cons l ls ih => simp only [List.cons_append, leaked, List.foldl_cons, ih, List.append_assoc]

/-- How often a descriptor was closed, is held or is queued. -/
def ledger (fd : ℤ) (x : OwnedConnection) : ℕ :=
  x.conn.balance fd + (x.queued.map (·.1.fd)).count fd

variable {x : OwnedConnection} {fd : ℤ}

/-- A call on the loop thread. -/
theorem balance_call (c : TcpConnection) (k : TcpConnection.Call) (hfd : 0 ≤ fd) :
    (c.call k).balance fd + (leaks ⟨c, []⟩ (.call k)).toList.count fd =
      c.balance fd + (FileStep.call k).passes.toList.count fd := by
  cases k with
  | send buf w =>
    show (c.send buf w).balance fd = c.balance fd
    unfold TcpConnection.send
    split
    · exact TcpConnection.balance_sendInLoop c buf w fd
    · rfl
  | sendFile file fileSize =>
    show (c.sendFile file fileSize).balance fd +
      (if c.state = .kConnected then c.held else ifOpen file.fd).toList.count fd =
        c.balance fd + [file.fd].count fd
    unfold TcpConnection.sendFile
    split
    · exact TcpConnection.balance_sendFileInLoop c file fileSize hfd
    · rw [count_ifOpen hfd]
  | shutdown =>
    show c.shutdown.balance fd = c.balance fd
    unfold TcpConnection.shutdown
    split
    · next h =>
      rw [TcpConnection.balance_shutdownInLoop]
      exact TcpConnection.balance_setDisconnecting (by simp [h]) fd
    · rfl
  | forceClose =>
    show c.forceClose.balance fd = c.balance fd
    unfold TcpConnection.forceClose
    split
    · next h =>
      have hne : c.state ≠ .kDisconnected := by rcases h with h | h <;> simp [h]
      exact TcpConnection.balance_setDisconnecting hne fd
    · rfl

theorem balance_forceCloseInLoop (c : TcpConnection) (fd : ℤ) :
    c.forceCloseInLoop.balance fd = c.balance fd := by
  unfold TcpConnection.forceCloseInLoop
  split
  · exact TcpConnection.balance_handleClose _ fd
  · rfl

/-- A functor leaves the queue. -/
theorem count_queue_eraseIdx {queue : List (File × ℕ)} {n : ℕ} {job : File × ℕ}
    (hn : queue[n]? = some job) (fd : ℤ) :
    (queue.map (·.1.fd)).count fd =
      ((queue.eraseIdx n).map (·.1.fd)).count fd + [job.1.fd].count fd := by
  obtain ⟨hlen, hjob⟩ := List.getElem?_eq_some_iff.mp hn
  have hperm := (List.getElem_cons_eraseIdx_perm hlen).map (·.1.fd)
  rw [hjob] at hperm
  rw [← hperm.count_eq, List.map_cons, ← List.singleton_append, List.count_append, Nat.add_comm]

/-- **Step lemma.** A descriptor that is passed in enters the ledger, unless it is leaked. -/
theorem ledger_exec (h : x.conn.Settled) (l : FileStep) (hfd : 0 ≤ fd) :
    (x.exec l).ledger fd + (x.leaks l).toList.count fd =
      x.ledger fd + l.passes.toList.count fd := by
  cases l with
  | call k =>
    have hcall := balance_call x.conn k hfd
    have hleaks : x.leaks (.call k) = leaks ⟨x.conn, []⟩ (.call k) := by cases k <;> rfl
    have hledger : (x.exec (.call k)).ledger fd =
        (x.conn.call k).balance fd + (x.queued.map (·.1.fd)).count fd := rfl
    rw [hleaks, hledger, ledger]
    omega
  | sendFile file fileSize =>
    by_cases hs : x.conn.state = .kConnected
    · simp only [exec, leaks, hs, if_true, ledger, List.map_append, List.count_append]
      exact (Nat.add_assoc ..).symm
    · simp only [exec, leaks, hs, if_false, count_ifOpen hfd]
      rfl
  | sendFileInLoop n =>
    cases hn : x.queued[n]? with
    | none =>
      have hlen : ¬ n < x.queued.length := by
        simpa using hn
      simp [exec, leaks, hlen, FileStep.passes]
    | some job =>
      obtain ⟨hlen, -⟩ := List.getElem?_eq_some_iff.mp hn
      have hbalance := TcpConnection.balance_sendFileInLoop x.conn job.1 job.2 hfd
      have hqueue := count_queue_eraseIdx hn fd
      simp only [exec, hn, leaks, if_pos hlen, ledger, hqueue, FileStep.passes, Option.toList_none,
        List.count_nil]
      omega
  | dropFunctor n =>
    cases hn : x.queued[n]? with
    | none =>
      have hsame : x.queued.eraseIdx n = x.queued :=
        List.eraseIdx_of_length_le (List.getElem?_eq_none_iff.mp hn)
      simp [exec, leaks, hn, hsame, FileStep.passes]
    | some job =>
      have hqueue := count_queue_eraseIdx hn fd
      simp only [exec, hn, leaks, Option.bind_some, count_ifOpen hfd, ledger, hqueue,
        FileStep.passes, Option.toList_none, List.count_nil]
      omega
  | setDisconnecting =>
    simp only [exec, leaks, FileStep.passes]
    split
    · next hs =>
      have hne : x.conn.state ≠ .kDisconnected := by simp [hs]
      have hbalance := TcpConnection.balance_setDisconnecting hne fd
      simp only [ledger, hbalance]
    · rfl
  | sendInLoop message w =>
    simp only [exec, leaks, FileStep.passes, ledger, TcpConnection.balance_sendInLoop]
  | shutdownInLoop =>
    simp only [exec, leaks, FileStep.passes, ledger, TcpConnection.balance_shutdownInLoop]
  | forceCloseInLoop =>
    simp only [exec, leaks, FileStep.passes, ledger, balance_forceCloseInLoop]
  | handleWrite w f =>
    simp only [exec, leaks, FileStep.passes, ledger, TcpConnection.balance_handleWrite h.down]
  | handleClose =>
    simp only [exec, leaks, FileStep.passes, ledger, TcpConnection.balance_handleClose]
  | connectDestroyed =>
    have hbalance := TcpConnection.balance_connectDestroyed h.state fd
    simp only [exec, leaks, FileStep.passes, ledger, Option.toList_none, List.count_nil]
    omega

theorem settled_exec (h : x.conn.Settled) (l : FileStep) : (x.exec l).conn.Settled := by
  cases l with
  | call k => exact h.call k
  | sendFile file fileSize =>
    simp only [exec]
    split <;> exact h
  | sendFileInLoop n =>
    simp only [exec]
    split
    · exact h
    · refine h.of_state (TcpConnection.state_sendFileInLoop ..) fun hd => ?_
      rw [TcpConnection.sendFileInLoop, if_pos hd]
      rfl
  | dropFunctor n => exact h
  | setDisconnecting =>
    simp only [exec]
    split
    · exact TcpConnection.Open.settled (.inr rfl)
    · exact h
  | sendInLoop message w =>
    refine h.of_state (TcpConnection.state_sendInLoop ..) fun hd => ?_
    simp only [exec, TcpConnection.sendInLoop, if_pos hd]
  | shutdownInLoop =>
    refine h.of_state (TcpConnection.state_shutdownInLoop _) fun _ => ?_
    obtain ⟨-, hr⟩ | ⟨-, hr⟩ := x.conn.shutdownInLoop_cases
    · simp only [exec, hr]
    · simp only [exec, hr]
      rfl
  | forceCloseInLoop =>
    simp only [exec, TcpConnection.forceCloseInLoop]
    split
    · exact h.handleClose
    · exact h
  | handleWrite w f =>
    refine h.of_state (TcpConnection.state_handleWrite ..) fun hd => ?_
    simp [exec, TcpConnection.handleWrite, h.down hd]
  | handleClose => exact h.handleClose
  | connectDestroyed => exact h.connectDestroyed

/-- **Run lemma.** What was closed, is held, is queued or has leaked was there or passed in. -/
theorem ledger_of_run {y : OwnedConnection} {ls : List FileStep} (h : x.conn.Settled)
    (hrun : Run (fun x l y => y = x.exec l) x ls y) (hfd : 0 ≤ fd) :
    y.ledger fd + (x.leaked ls).count fd = x.ledger fd + (passed ls).count fd := by
  refine (hrun.history (P := fun ls y => y = ls.foldl exec x ∧ y.conn.Settled ∧
    y.ledger fd + (x.leaked ls).count fd = x.ledger fd + (passed ls).count fd)
    ⟨rfl, h, rfl⟩ ?_).2.2
  rintro ls l y _ - ⟨hy, hsettled, hledger⟩ rfl
  have hstep := ledger_exec hsettled l hfd
  have hpassed : passed (ls ++ [l]) = passed ls ++ l.passes.toList := by
    cases hl : l.passes <;> simp [passed, List.filterMap_append, hl]
  refine ⟨by rw [List.foldl_append, ← hy]; rfl, settled_exec hsettled l, ?_⟩
  rw [leaked_append, ← hy, hpassed]
  simp only [leaked, List.append_nil, List.count_append]
  omega

theorem nonneg_of_held {c : TcpConnection} (h : fd ∈ c.held) : 0 ≤ fd := by
  unfold held at h
  split at h
  · next hand =>
    obtain rfl := Option.mem_some.mp h
    exact hand.2
  · cases h

theorem nonneg_of_ifOpen {fd' : ℤ} (h : fd ∈ ifOpen fd') : 0 ≤ fd := by
  unfold ifOpen at h
  split at h
  · next hle =>
    obtain rfl := Option.mem_some.mp h
    exact hle
  · cases h

theorem nonneg_of_leaks {l : FileStep} (h : fd ∈ x.leaks l) : 0 ≤ fd := by
  cases l with
  | call k =>
    cases k with
    | sendFile file fileSize =>
      simp only [leaks] at h
      split at h
      · exact nonneg_of_held h
      · exact nonneg_of_ifOpen h
    | _ => cases h
  | sendFile file fileSize =>
    simp only [leaks] at h
    split at h
    · cases h
    · exact nonneg_of_ifOpen h
  | sendFileInLoop n =>
    simp only [leaks] at h
    split at h
    · exact nonneg_of_held h
    · cases h
  | dropFunctor n =>
    obtain ⟨job, -, hjob⟩ := Option.bind_eq_some_iff.mp h
    exact nonneg_of_ifOpen hjob
  | connectDestroyed => exact nonneg_of_held h
  | _ => cases h

/-- Only open descriptors are said to leak. -/
theorem nonneg_of_leaked {ls : List FileStep} (h : fd ∈ x.leaked ls) : 0 ≤ fd := by
  induction ls generalizing x with
  | nil => cases h
  | cons l ls ih =>
    obtain h | h := List.mem_append.mp h
    · exact nonneg_of_leaks (Option.mem_toList.mp h)
    · exact ih h

/-- No descriptor of a list is open if no open one occurs. -/
theorem neg_iff_count (fds : List ℤ) :
    (∀ fd ∈ fds, fd < 0) ↔ ∀ fd, 0 ≤ fd → fds.count fd = 0 := by
  constructor
  · intro hneg fd hfd
    exact List.count_eq_zero.mpr fun hmem => absurd hfd (Int.not_le.mpr (hneg fd hmem))
  · intro hcount fd hmem
    by_contra hopen
    exact List.count_eq_zero.mp (hcount fd (Int.not_lt.mp hopen)) hmem

/-- A list of open descriptors is empty if none of them occurs. -/
theorem eq_nil_iff_count {fds : List ℤ} (h : ∀ fd ∈ fds, 0 ≤ fd) :
    fds = [] ↔ ∀ fd, 0 ≤ fd → fds.count fd = 0 := by
  rw [← neg_iff_count]
  constructor
  · rintro rfl fd hmem
    cases hmem
  · intro hneg
    exact List.eq_nil_iff_forall_not_mem.mpr fun fd hmem =>
      absurd (h fd hmem) (Int.not_le.mpr (hneg fd hmem))

theorem settled_connectEstablished (c₀ : TcpConnection) : c₀.connectEstablished.Settled :=
  TcpConnection.Open.settled (.inl rfl)

theorem ledger_connectEstablished {c₀ : TcpConnection} (h₀ : c₀.Constructed) (fd : ℤ) :
    ledger fd ⟨c₀.connectEstablished, []⟩ = 0 := by
  have hheld : c₀.connectEstablished.held = none := by
    refine if_neg fun hand => ?_
    have hfd : 0 ≤ c₀.fileFd := hand.2
    rw [h₀.fileFd] at hfd
    exact absurd hfd (by decide)
  have htrace : c₀.connectEstablished.trace.count (.close fd) = 0 := by
    show List.count _ (if c₀.connectionCallback then c₀.trace ++ [_] else c₀.trace) = 0
    rw [h₀.trace]
    split <;> simp
  rw [ledger, TcpConnection.balance, hheld, htrace]
  rfl

/-- In every run from `connectEstablished` on, and so when the connection is destroyed: every
    descriptor has been closed exactly as often as it was passed to `sendFile`, if and only if no
    step has leaked one, none is left in the slot of a connection that is up, and none is queued. -/
theorem descriptors_closed_iff {c₀ : TcpConnection} (h₀ : c₀.Constructed) {ls : List FileStep}
    {y : OwnedConnection}
    (hrun : Run (fun x l y => y = x.exec l) ⟨c₀.connectEstablished, []⟩ ls y) :
    (∀ fd, 0 ≤ fd → y.conn.trace.count (.close fd) = (passed ls).count fd) ↔
      leaked ⟨c₀.connectEstablished, []⟩ ls = [] ∧ y.conn.held = none ∧
        ∀ job ∈ y.queued, job.1.fd < 0 := by
  have hledger : ∀ fd, 0 ≤ fd → y.conn.trace.count (.close fd) + y.conn.held.toList.count fd +
      (y.queued.map (·.1.fd)).count fd + (leaked ⟨c₀.connectEstablished, []⟩ ls).count fd =
        (passed ls).count fd := by
    intro fd hfd
    have hrest := ledger_of_run (settled_connectEstablished c₀) hrun hfd
    rw [ledger_connectEstablished h₀, ledger, TcpConnection.balance] at hrest
    simpa using hrest
  have hleaked := eq_nil_iff_count fun fd (hfd : fd ∈ leaked ⟨c₀.connectEstablished, []⟩ ls) =>
    nonneg_of_leaked hfd
  have hheld := eq_nil_iff_count fun fd (hfd : fd ∈ y.conn.held.toList) =>
    nonneg_of_held (Option.mem_toList.mp hfd)
  rw [Option.toList_eq_nil_iff] at hheld
  have hqueued := neg_iff_count (y.queued.map (·.1.fd))
  rw [List.forall_mem_map] at hqueued
  rw [hleaked, hheld, hqueued]
  constructor
  · intro hclosed
    refine ⟨fun fd hfd => ?_, fun fd hfd => ?_, fun fd hfd => ?_⟩ <;>
      · have hsum := hledger fd hfd
        have heq := hclosed fd hfd
        omega
  · rintro ⟨hl, hh, hq⟩ fd hfd
    have hsum := hledger fd hfd
    have hl' := hl fd hfd
    have hh' := hh fd hfd
    have hq' := hq fd hfd
    omega

/-- A file that another thread submits is sent and closed, and then the connection is closed. -/
theorem descriptors_closed_iff_sent :
    let ls : List FileStep := [.sendFile ⟨7, [1]⟩ 1, .sendFileInLoop 0,
      .handleWrite (.upTo 0) (.upTo 1), .handleClose, .connectDestroyed]
    let y := ls.foldl exec ⟨({} : TcpConnection).connectEstablished, []⟩
    ∀ fd, 0 ≤ fd → y.conn.trace.count (.close fd) = (passed ls).count fd := by
  intro ls y
  have hrun : Run (fun x l y => y = x.exec l) ⟨({} : TcpConnection).connectEstablished, []⟩ ls y :=
    .foldl exec _ ls
  exact (descriptors_closed_iff TcpConnection.constructed_default hrun).mpr (by decide +kernel)

/-- A file that is passed to `sendFile` behind `shutdown` is never closed. -/
theorem descriptor_leaked :
    let ls : List FileStep := [.call .shutdown, .call (.sendFile ⟨7, [1]⟩ 1), .handleClose,
      .connectDestroyed]
    let y := ls.foldl exec ⟨({} : TcpConnection).connectEstablished, []⟩
    y.queued = [] ∧ y.conn.state = .kDisconnected ∧ 7 ∈ passed ls ∧ Effect.close 7 ∉ y.conn.trace ∧
      ¬ ∀ fd, 0 ≤ fd → y.conn.trace.count (.close fd) = (passed ls).count fd := by
  intro ls y
  refine ⟨rfl, by decide +kernel, by decide, by decide +kernel, fun h => ?_⟩
  exact absurd (h 7 (by decide)) (by decide +kernel)

end OwnedConnection

end AegisNet
