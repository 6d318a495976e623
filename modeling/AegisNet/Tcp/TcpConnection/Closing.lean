import AegisNet.Tcp.TcpConnection.Lifecycle
import AegisNet.Tcp.TcpConnection.Race

/-!
# Closing once

Whatever runs on the loop of a connection leaves its state in place, or takes it from open to
`kDisconnected` by way of `handleClose`, which calls `closeCallback_`. No assumption on the events
is needed, and none on the other callbacks.

## Main definitions

- `TcpConnection.Stays`, `TcpConnection.Closes` — without a close, and with one
- `TcpConnection.runFunctor` — the functors that a connection queues
-/

namespace AegisNet

namespace TcpConnection

open Race (closes)

/-- `state_ == kConnected || state_ == kDisconnecting` -/
def Open (c : TcpConnection) : Prop := c.state = .kConnected ∨ c.state = .kDisconnecting

/-- `c'` comes from `c` without a close. -/
structure Stays (c c' : TcpConnection) : Prop where
  state : c'.state = c.state ∨ c.Open ∧ c'.Open
  closes : closes c' = closes c
  closeCallback : c'.closeCallback = c.closeCallback
  inEpoll : c.state = .kConnecting → c'.channel.inEpoll = c.channel.inEpoll

/-- `c'` comes from `c` with a close. -/
structure Closes (c c' : TcpConnection) : Prop where
  isOpen : c.Open
  state : c'.state = .kDisconnected
  closes : closes c' = closes c + 1
  closeCallback : c'.closeCallback = c.closeCallback

def Moves (c c' : TcpConnection) : Prop := c.Stays c' ∨ c.Closes c'

theorem Stays.refl (c : TcpConnection) : c.Stays c := ⟨.inl rfl, rfl, rfl, fun _ => rfl⟩

theorem Open.ne {c : TcpConnection} (h : c.Open) :
    c.state ≠ .kDisconnected ∧ c.state ≠ .kConnecting := by
  obtain h | h := h <;> simp [h]

theorem Stays.isOpen {c c' : TcpConnection} (h : c.Stays c') : c'.Open ↔ c.Open := by
  obtain hs | ⟨ho, ho'⟩ := h.state
  · rw [Open, Open, hs]
  · exact iff_of_true ho' ho

theorem Stays.state_eq {c c' : TcpConnection} (h : c.Stays c') (ho : ¬ c.Open) :
    c'.state = c.state :=
  h.state.resolve_right fun hb => ho hb.1

theorem Stays.trans {c d d' : TcpConnection} (h : c.Stays d) (h' : d.Stays d') : c.Stays d' where
  state := by
    by_cases ho : c.Open
    · exact .inr ⟨ho, h'.isOpen.mpr (h.isOpen.mpr ho)⟩
    · exact .inl ((h'.state_eq fun hd => ho (h.isOpen.mp hd)).trans (h.state_eq ho))
  closes := h'.closes.trans h.closes
  closeCallback := h'.closeCallback.trans h.closeCallback
  inEpoll := fun hs => by
    have hd : d.state = .kConnecting := (h.state_eq fun ho => ho.ne.2 hs).trans hs
    exact (h'.inEpoll hd).trans (h.inEpoll hs)

/-- At most one of the parts closes. -/
theorem Moves.trans {c d d' : TcpConnection} (h : c.Moves d) (h' : d.Moves d') : c.Moves d' := by
  obtain h | h := h
  · obtain h' | h' := h'
    · exact .inl (h.trans h')
    · exact .inr ⟨h.isOpen.mp h'.isOpen, h'.state, by rw [h'.closes, h.closes],
        h'.closeCallback.trans h.closeCallback⟩
  · obtain h' | h' := h'
    · have hstate : d'.state = d.state := h'.state_eq fun ho => ho.ne.1 h.state
      exact .inr ⟨h.isOpen, hstate.trans h.state, by rw [h'.closes, h.closes],
        h'.closeCallback.trans h.closeCallback⟩
    · exact absurd h.state h'.isOpen.ne.1

/-! ## Output -/

theorem closes_eq_of_callbacks {c c' : TcpConnection}
    (h : callbacks c'.trace = callbacks c.trace) : closes c' = closes c := by
  have hcount : ∀ t : List Effect, (callbacks t).count .closeCallback = t.count .closeCallback :=
    fun t => List.count_filter rfl
  rw [closes, ← hcount, h, hcount]
  rfl

/-- What differs in nothing that matters to the life of the connection. -/
theorem Quiet.stays {c c' : TcpConnection} (h : c.Quiet c')
    (hcb : c'.closeCallback = c.closeCallback) (hne : c.state ≠ .kConnecting) : c.Stays c' :=
  ⟨.inl h.state, closes_eq_of_callbacks h.callbacks_eq, hcb, fun hs => absurd hs hne⟩

/-- Whether `connectionCallback_` and `closeCallback_` are set. -/
def flags (c : TcpConnection) : Bool × Bool := (c.connectionCallback, c.closeCallback)

theorem flags_eq_of_frame {c c' : TcpConnection} (h : c'.frame = c.frame) : c'.flags = c.flags :=
  congrArg (fun x => (x.2.1, x.2.2.1)) h

theorem flags_sendInLoop (c : TcpConnection) (message : Bytes) (w : IoResult) :
    (c.sendInLoop message w).flags = c.flags :=
  flags_eq_of_frame (c.frame_sendInLoop message w)

theorem flags_handleWrite (c : TcpConnection) (w f : IoResult) :
    (c.handleWrite w f).flags = c.flags :=
  flags_eq_of_frame (c.frame_handleWrite w f)

theorem flags_shutdownInLoop (c : TcpConnection) : c.shutdownInLoop.flags = c.flags :=
  flags_eq_of_frame c.frame_shutdownInLoop

theorem stays_shutdownInLoop (c : TcpConnection) : c.Stays c.shutdownInLoop := by
  have hq := quiet_shutdownInLoop c
  obtain ⟨-, h⟩ | ⟨-, h⟩ := c.shutdownInLoop_cases
  · rw [h]
    exact .refl c
  · refine ⟨.inl hq.state, closes_eq_of_callbacks hq.callbacks_eq, ?_, fun _ => ?_⟩
    · exact congrArg Prod.snd c.flags_shutdownInLoop
    · rw [h]
      rfl

/-! ## Calls, functors and events -/

theorem stays_call (c : TcpConnection) (k : Call) : c.Stays (c.call k) := by
  cases k with
  | send buf w =>
    simp only [call, send]
    split
    · next h =>
      exact (quiet_sendInLoop c buf w).stays (congrArg Prod.snd (flags_sendInLoop c buf w))
        (by simp [h])
    · exact .refl c
  | sendFile file fileSize =>
    simp only [call, sendFile]
    split
    · next h =>
      refine (quiet_sendFileInLoop c file fileSize).stays ?_ (by simp [h])
      rw [sendFileInLoop_eq (by simp [h])]
    · exact .refl c
  | shutdown =>
    simp only [call, shutdown]
    split
    · next h =>
      have hstate : c.Stays (c.setState .kDisconnecting) :=
        ⟨.inr ⟨.inl h, .inr rfl⟩, rfl, rfl, fun _ => rfl⟩
      exact hstate.trans (stays_shutdownInLoop _)
    · exact .refl c
  | forceClose =>
    simp only [call, forceClose]
    split
    · next h => exact ⟨.inr ⟨h, .inr rfl⟩, rfl, rfl, fun _ => rfl⟩
    · exact .refl c

theorem stays_foldl_call (c : TcpConnection) (calls : List Call) :
    c.Stays (calls.foldl call c) := by
  induction calls generalizing c with
  | nil => exact .refl c
  | cons k calls ih => exact (stays_call c k).trans (ih (c.call k))

theorem closes_handleClose {c : TcpConnection} (h : c.Open) (hcb : c.closeCallback = true) :
    c.Closes c.handleClose := by
  have hfile : c.closeFile.closeCallback = true ∧ closes c.closeFile = closes c := by
    unfold closeFile
    split
    · exact ⟨hcb, by simp [closes, emit]⟩
    · exact ⟨hcb, rfl⟩
  rw [handleClose, if_neg h.ne.1]
  refine ⟨h, rfl, ?_, ?_⟩
  · show List.count _ (if c.closeFile.closeCallback then (if c.closeFile.connectionCallback then
      c.closeFile.trace ++ [_] else c.closeFile.trace) ++ [_] else _) = _
    rw [if_pos hfile.1, ← hfile.2, List.count_append]
    split <;> simp [closes]
  · show c.closeFile.closeCallback = c.closeCallback
    rw [hfile.1, hcb]

/-- `handleClose` on a connection that was established. -/
theorem moves_handleClose {c : TcpConnection} (hne : c.state ≠ .kConnecting)
    (hcb : c.closeCallback = true) : c.Moves c.handleClose := by
  by_cases h : c.Open
  · exact .inr (closes_handleClose h hcb)
  · have hdown : c.state = .kDisconnected := by
      cases hs : c.state with
      | kDisconnected => rfl
      | kConnecting => exact absurd hs hne
      | kConnected => exact absurd (.inl hs) h
      | kDisconnecting => exact absurd (.inr hs) h
    rw [handleClose, if_pos hdown]
    exact .inl (.refl c)

theorem Moves.ne_kConnecting {c c' : TcpConnection} (h : c.Moves c')
    (hne : c.state ≠ .kConnecting) : c'.state ≠ .kConnecting := by
  obtain h | h := h
  · obtain hs | ⟨-, ho⟩ := h.state
    · rwa [hs]
    · exact ho.ne.2
  · simp [h.state]

theorem Moves.closeCallback {c c' : TcpConnection} (h : c.Moves c') :
    c'.closeCallback = c.closeCallback := by
  obtain h | h := h
  · exact h.closeCallback
  · exact h.closeCallback

theorem moves_handleRead {c : TcpConnection} (hne : c.state ≠ .kConnecting)
    (hcb : c.closeCallback = true) (readv : Option Bytes) (calls : List Call) :
    c.Moves (c.handleRead readv calls) := by
  cases readv with
  | none => exact .inl (.refl c)
  | some data =>
    have hread : c.Stays { c with inputBuffer := c.inputBuffer.readFd data } :=
      ⟨.inl rfl, rfl, rfl, fun _ => rfl⟩
    simp only [handleRead]
    split
    · split
      · refine .inl (hread.trans (.trans ?_ (stays_foldl_call _ calls)))
        exact ⟨.inl rfl, by simp [closes, emit], rfl, fun _ => rfl⟩
      · exact .inl hread
    · exact .trans (.inl hread) (moves_handleClose hne hcb)

/-- A dispatch, whatever is reported. -/
theorem moves_handleEvent {c : TcpConnection} (hne : c.state ≠ .kConnecting)
    (hcb : c.closeCallback = true) (revents : EpollEvents) (readv : Option Bytes)
    (calls : List Call) (w f : IoResult) : c.Moves (c.handleEvent revents readv calls w f) := by
  have hclose : c.Moves (if revents.epollhup && !revents.epollin then c.handleClose else c) := by
    split
    · exact moves_handleClose hne hcb
    · exact .inl (.refl c)
  simp only [handleEvent]
  generalize (if revents.epollhup && !revents.epollin then c.handleClose else c) = d at hclose ⊢
  have hread : c.Moves (if revents.epollin || revents.epollpri || revents.epollrdhup
      then d.handleRead readv calls else d) := by
    split
    · exact hclose.trans (moves_handleRead (hclose.ne_kConnecting hne)
        (hclose.closeCallback.trans hcb) readv calls)
    · exact hclose
  generalize (if revents.epollin || revents.epollpri || revents.epollrdhup
    then d.handleRead readv calls else d) = d at hread ⊢
  split
  · refine hread.trans (.inl ?_)
    exact (quiet_handleWrite d w f).stays (congrArg Prod.snd (flags_handleWrite d w f))
      (hread.ne_kConnecting hne)
  · exact hread

/-- The functors of a connection; those for the user's callbacks do not change it. -/
def runFunctor (c : TcpConnection) : Functor → TcpConnection
  | .shutdownInLoop => c.shutdownInLoop
  | .forceCloseInLoop => c.forceCloseInLoop
  | .writeComplete | .lowWaterMark _ | .highWaterMark _ => c

theorem moves_runFunctor {c : TcpConnection} (hcb : c.closeCallback = true) (f : Functor) :
    c.Moves (c.runFunctor f) := by
  cases f with
  | shutdownInLoop => exact .inl (stays_shutdownInLoop c)
  | forceCloseInLoop =>
    simp only [runFunctor, forceCloseInLoop]
    split
    · next h => exact .inr (closes_handleClose h hcb)
    · exact .inl (.refl c)
  | writeComplete | lowWaterMark _ | highWaterMark _ => exact .inl (.refl c)

end TcpConnection

end AegisNet
