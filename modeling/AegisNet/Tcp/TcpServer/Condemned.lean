import AegisNet.Tcp.TcpServer.Destructor

/-!
# Connections that outlive the server

Once the destructor has been at a connection, its close callback does nothing, and a
`connectDestroyed` is on its loop behind all that was there before. Nothing else moves it on: what
its handlers do is muted.

## Main definitions

- `TcpConnection.Muted` — no close callback is called where none is set
- `Condemned` — what is left to be done for such a connection
- `TcpServer.Awaits` — what holds of a connection that is condemned
-/

namespace AegisNet

namespace TcpConnection

open Race (closes)

/-- No close callback is called where none is set. -/
def Muted (c c' : TcpConnection) : Prop :=
  c.closeCallback = false → c'.closeCallback = false ∧ closes c' = closes c

theorem Muted.refl (c : TcpConnection) : c.Muted c := fun h => ⟨h, rfl⟩

theorem Muted.trans {c d e : TcpConnection} (h : c.Muted d) (h' : d.Muted e) : c.Muted e := by
  intro hc
  obtain ⟨hd, hcloses⟩ := h hc
  obtain ⟨he, hcloses'⟩ := h' hd
  exact ⟨he, hcloses'.trans hcloses⟩

theorem Stays.muted {c c' : TcpConnection} (h : c.Stays c') : c.Muted c' :=
  fun hc => ⟨h.closeCallback.trans hc, h.closes⟩

theorem muted_handleClose (c : TcpConnection) : c.Muted c.handleClose := by
  intro hc
  have hfile : c.closeFile.closeCallback = false ∧ closes c.closeFile = closes c := by
    unfold closeFile
    split
    · exact ⟨hc, by simp [closes, emit]⟩
    · exact ⟨hc, rfl⟩
  rw [handleClose]
  split
  · exact ⟨hc, rfl⟩
  · refine ⟨hfile.1, ?_⟩
    show List.count _ (if c.closeFile.closeCallback then _ else if c.closeFile.connectionCallback
      then c.closeFile.trace ++ [_] else c.closeFile.trace) = _
    rw [hfile.1, ← hfile.2, if_neg Bool.false_ne_true]
    split <;> simp [closes]

theorem muted_handleRead (c : TcpConnection) (readv : Option Bytes) (calls : List Call) :
    c.Muted (c.handleRead readv calls) := by
  cases readv with
  | none => exact .refl c
  | some data =>
    have hread : c.Muted { c with inputBuffer := c.inputBuffer.readFd data } := fun h => ⟨h, rfl⟩
    simp only [handleRead]
    split
    · split
      · refine (hread.trans ?_).trans (stays_foldl_call _ calls).muted
        exact fun h => ⟨h, by simp [closes, emit]⟩
      · exact hread
    · exact hread.trans (muted_handleClose _)

theorem muted_handleEvent (c : TcpConnection) (revents : EpollEvents) (readv : Option Bytes)
    (calls : List Call) (w f : IoResult) : c.Muted (c.handleEvent revents readv calls w f) := by
  have hclose : c.Muted (if revents.epollhup && !revents.epollin then c.handleClose else c) := by
    split
    · exact muted_handleClose c
    · exact .refl c
  simp only [handleEvent]
  generalize (if revents.epollhup && !revents.epollin then c.handleClose else c) = d at hclose ⊢
  have hread : c.Muted (if revents.epollin || revents.epollpri || revents.epollrdhup
      then d.handleRead readv calls else d) := by
    split
    · exact hclose.trans (muted_handleRead d readv calls)
    · exact hclose
  generalize (if revents.epollin || revents.epollpri || revents.epollrdhup
    then d.handleRead readv calls else d) = d at hread ⊢
  split
  · refine hread.trans fun hd => ⟨?_, closes_eq_of_callbacks (quiet_handleWrite d w f).callbacks_eq⟩
    exact (congrArg Prod.snd (flags_handleWrite d w f)).trans hd
  · exact hread

theorem muted_runFunctor (c : TcpConnection) (f : Functor) : c.Muted (c.runFunctor f) := by
  cases f with
  | shutdownInLoop => exact (stays_shutdownInLoop c).muted
  | forceCloseInLoop =>
    simp only [runFunctor, forceCloseInLoop]
    split
    · exact muted_handleClose c
    · exact .refl c
  | writeComplete | lowWaterMark _ | highWaterMark _ => exact .refl c

theorem closes_connectDestroyed (c : TcpConnection) : closes c.connectDestroyed = closes c := by
  rw [connectDestroyed]
  split
  · simp [closes, emit, setState]
  · rfl

theorem muted_connectDestroyed (c : TcpConnection) : c.Muted c.connectDestroyed := by
  refine fun hc => ⟨?_, closes_connectDestroyed c⟩
  rw [connectDestroyed]
  split <;> exact hc

end TcpConnection

/-! ## What is left for a condemned connection -/

/-- A connection that the destructor has been at. -/
inductive Condemned
  /-- `connectEstablished` has not run yet. -/
  | establishing
  | doomed
  | destroyed
  /-- Its loop was gone before `connectEstablished` ran. -/
  | dropped
  deriving DecidableEq, Repr

namespace Condemned

def ops (n : ConnId) : Condemned → List ServerOp
  | establishing => [.connectEstablished n, .connectDestroyed n]
  | doomed => [.connectDestroyed n]
  | destroyed | dropped => []

/-- What the log shows of it. -/
def past {κ : Type*} (own : κ) : Condemned → List (κ × LifeEvent)
  | establishing | dropped => []
  | doomed => [(own, .connectEstablished)]
  | destroyed => [(own, .connectEstablished), (own, .connectDestroyed)]

end Condemned

namespace TcpServer

variable {κ : Type*} [DecidableEq κ]

/-- What holds of connection `n` when it is condemned, of which the statements `ops` are left. -/
structure Awaits (s : TcpServer κ) (n : ConnId) (c : ServedConnection κ) (q : Condemned)
    (ops : List ServerOp) : Prop where
  duties : ∀ k, duties s.threads n k = if k = c.loop then ops else []
  history : s.history n = q.past c.loop
  entry : s.connections c.name ≠ some n
  closeCallback : c.conn.closeCallback = false

variable {s t : TcpServer κ} {m : ConnId} {c : ServedConnection κ} {q : Condemned}
  {ops : List ServerOp} {k : κ} {op : ServerOp} {rest : List ServerOp}

theorem Awaits.of_eq (h : s.Awaits m c q ops)
    (hduties : AegisNet.duties t.threads m = AegisNet.duties s.threads m)
    (hhistory : t.history m = s.history m)
    (hentry : t.connections c.name = some m ↔ s.connections c.name = some m) :
    t.Awaits m c q ops where
  duties k := by
    rw [hduties]
    exact h.duties k
  history := hhistory.trans h.history
  entry := fun he => h.entry (hentry.mp he)
  closeCallback := h.closeCallback

/-- A muted method leaves it as it is. -/
theorem Awaits.update (h : s.Awaits m c q ops) {conn : TcpConnection} (hmuted : c.conn.Muted conn)
    (k : κ) :
    (s.update k m c conn).Awaits m { c with conn := { conn with loop := {} } } q ops := by
  obtain ⟨hcb, hcloses⟩ := hmuted h.closeCallback
  have hzero : Race.closes conn - Race.closes c.conn = 0 := by rw [hcloses, Nat.sub_self]
  refine ⟨fun j => ?_, ?_, h.entry, hcb⟩
  · rw [duties_update, hzero, List.replicate_zero, ite_self, List.nil_append,
      Function.update_eq_self]
    exact h.duties j
  · rw [history_update, hzero, List.replicate_zero, ite_self, List.append_nil]
    exact h.history

/-- A statement that moves it on is the next one that is left. -/
theorem Awaits.next (h : s.Awaits m c q ops) (hm : s.accepted m = some c)
    (hrun : s.threads.running k = op :: rest) (hop : ∀ n, op.duty n = decide (m = n)) :
    k = c.loop ∧ ∃ ops', ops = op :: ops' ∧ (s.advance k rest).Awaits m c q ops' ∧
      s.Concerns (s.advance k rest) m c c := by
  have hduties := duties_advance (n := m) hrun
  rw [hop, if_pos (by simp)] at hduties
  have hk : k = c.loop := by
    by_contra hk
    rw [h.duties k, if_neg hk] at hduties
    cases hduties
  rw [h.duties k, if_pos hk] at hduties
  refine ⟨hk, _, hduties, ⟨fun j => ?_, h.history, h.entry, h.closeCallback⟩,
    concerns_advance hm hrun fun n hn => ?_⟩
  · by_cases hj : j = k
    · subst hj
      exact (if_pos hk).symm
    · have hne : j ≠ c.loop := fun he => hj (he.trans hk.symm)
      exact (duties_advance_of_ne hj rest).trans ((h.duties j).trans (by
        rw [if_neg hne, if_neg hne]))
  · simp [hop, Ne.symm hn]

/-- An event in its life. -/
theorem Awaits.event {q' : Condemned} {e : LifeEvent} (h : s.Awaits m c q (q'.ops m))
    {conn : TcpConnection} (hmuted : c.conn.Muted conn)
    (hpast : q'.past c.loop = q.past c.loop ++ [(c.loop, e)]) :
    ((s.record m c.loop e).update c.loop m c conn).Awaits m
      { c with conn := { conn with loop := {} } } q' (q'.ops m) := by
  have hrecord : (s.record m c.loop e).Awaits m c q' (q'.ops m) := by
    refine ⟨h.duties, ?_, h.entry, h.closeCallback⟩
    rw [history_record, if_pos rfl, h.history, hpast]
  exact hrecord.update hmuted c.loop

/-! ## Queues -/

theorem mem_queued_update {j : κ} {conn : TcpConnection} {cb : ServerFunctor}
    (h : cb ∈ ((s.update k m c conn).threads.loops j).queued) :
    cb ∈ (s.threads.loops j).queued ∨ ∃ f, cb = .bound m f := by
  refine (Threads.mem_queued_foldl_queueInLoop h).imp_right fun h => ?_
  obtain ⟨f, -, rfl⟩ := List.mem_map.mp h
  exact ⟨f, rfl⟩

end TcpServer

end AegisNet
