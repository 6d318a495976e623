import AegisNet.Tcp.TcpConnection.Closing

/-!
# The notifications of a connection

What its user sees of a connection are the callbacks that its methods make. Between the notification
that it is up and the one that it is down, epoll watches it for input; after the second one it does
not.

## Main definitions

- `TcpConnection.newCallbacks` — the callbacks that a method made
- `TcpConnection.Makes` — a method and its callbacks
- `TcpConnection.Notified` — the state agrees with the notifications
-/

namespace AegisNet

namespace TcpConnection

/-- The callbacks that a method made, which took a connection from `c` to `c'`. -/
def newCallbacks (c c' : TcpConnection) : List Effect :=
  (callbacks c'.trace).drop (callbacks c.trace).length

/-- `c'` comes from `c` by a method that makes the callbacks `es`. -/
structure Makes (c c' : TcpConnection) (es : List Effect) : Prop where
  callbacks : callbacks c'.trace = callbacks c.trace ++ es
  connectionCallback : c'.connectionCallback = c.connectionCallback

theorem Makes.newCallbacks {c c' : TcpConnection} {es : List Effect} (h : c.Makes c' es) :
    c.newCallbacks c' = es := by
  rw [TcpConnection.newCallbacks, h.callbacks, List.drop_left]

theorem Quiet.makes {c c' : TcpConnection} (h : c.Quiet c') (hflags : c'.flags = c.flags) :
    c.Makes c' [] :=
  ⟨by rw [h.callbacks_eq, List.append_nil], congrArg Prod.fst hflags⟩

/-- The state agrees with the notifications. -/
structure Notified (c : TcpConnection) : Prop where
  connectionCallback : c.connectionCallback = true
  connecting : c.state = .kConnecting → c.channel.inEpoll = false ∧ c.channel.events.input = {} ∧
    callbacks c.trace = []
  up : c.Open → c.channel.events.input = { epollin := true } ∧
    .connectionCallback .kConnected ∈ callbacks c.trace ∧
    .connectionCallback .kDisconnected ∉ callbacks c.trace
  down : c.state = .kDisconnected → c.channel.events.input = {} ∧
    .connectionCallback .kDisconnected ∈ callbacks c.trace

theorem mem_callbacks {t : List Effect} {state : StateE} :
    .connectionCallback state ∈ callbacks t ↔ .connectionCallback state ∈ t := by
  simp [callbacks]

namespace Notified

variable {c c' : TcpConnection} {es : List Effect}

/-- While the connection is up, there is no other notification. -/
theorem stays_up (h : c.Notified) (hm : c.Makes c' es) (ho : c.Open) (ho' : c'.Open)
    (hinput : c'.channel.events.input = c.channel.events.input)
    (hes : ∀ state, .connectionCallback state ∉ es) : c'.Notified where
  connectionCallback := hm.connectionCallback.trans h.connectionCallback
  connecting hs := absurd hs ho'.ne.2
  up _ := by
    obtain ⟨hin, hup, hdown⟩ := h.up ho
    rw [hinput, hm.callbacks]
    exact ⟨hin, List.mem_append_left _ hup,
      fun hmem => (List.mem_append.mp hmem).elim hdown (hes _)⟩
  down hs := absurd hs ho'.ne.1

theorem stays_down (h : c.Notified) (hm : c.Makes c' es) (hs : c.state = .kDisconnected)
    (hs' : c'.state = .kDisconnected)
    (hinput : c'.channel.events.input = {}) : c'.Notified where
  connectionCallback := hm.connectionCallback.trans h.connectionCallback
  connecting hc := by rw [hs'] at hc; cases hc
  up ho := absurd hs' ho.ne.1
  down _ := by
    rw [hm.callbacks]
    exact ⟨hinput, List.mem_append_left _ (h.down hs).2⟩

/-- Whatever is neither a notification nor a change of state. -/
theorem quiet (h : c.Notified) (hne : c.state ≠ .kConnecting) (hq : c.Quiet c')
    (hflags : c'.flags = c.flags) : c'.Notified := by
  by_cases hs : c.state = .kDisconnected
  · refine h.stays_down (hq.makes hflags) hs (hq.state.trans hs) ?_
    rw [hq.input, (h.down hs).1]
  · have ho : c.Open := by
      cases hc : c.state with
      | kDisconnected => exact absurd hc hs
      | kConnecting => exact absurd hc hne
      | kConnected => exact .inl hc
      | kDisconnecting => exact .inr hc
    refine h.stays_up (hq.makes hflags) ho ?_ hq.input fun _ hmem => nomatch hmem
    rwa [Open, hq.state]

end Notified

/-! ## Methods -/

variable {c : TcpConnection}

theorem quiet_shutdown (h : c.state ≠ .kConnected) : c.shutdown = c := if_neg h

theorem makes_shutdown (c : TcpConnection) : c.Makes c.shutdown [] := by
  unfold shutdown
  split
  · have hm := (quiet_shutdownInLoop (c.setState .kDisconnecting)).makes (flags_shutdownInLoop _)
    exact ⟨hm.callbacks, hm.connectionCallback⟩
  · exact (Quiet.refl c).makes rfl

theorem state_shutdown (h : c.state = .kConnected) : c.shutdown.state = .kDisconnecting := by
  rw [shutdown, if_pos h, state_shutdownInLoop]
  rfl

theorem Notified.shutdown (h : c.Notified) : c.shutdown.Notified := by
  by_cases hs : c.state = .kConnected
  · refine h.stays_up (makes_shutdown c) (.inl hs) (.inr (state_shutdown hs)) ?_
      fun _ hmem => nomatch hmem
    rw [TcpConnection.shutdown, if_pos hs]
    exact (quiet_shutdownInLoop _).input
  · rwa [quiet_shutdown hs]

theorem makes_forceClose (c : TcpConnection) : c.Makes c.forceClose [] := by
  unfold forceClose
  split
  · exact ⟨(List.append_nil _).symm, rfl⟩
  · exact (Quiet.refl c).makes rfl

theorem Notified.forceClose (h : c.Notified) : c.forceClose.Notified := by
  have hm := makes_forceClose c
  by_cases ho : c.Open
  · have heq : c.forceClose = (c.setState .kDisconnecting).queueIf true .forceCloseInLoop := if_pos ho
    rw [heq] at hm ⊢
    exact h.stays_up hm ho (.inr rfl) rfl fun _ hmem => nomatch hmem
  · have heq : c.forceClose = c := if_neg ho
    rwa [heq]

theorem makes_handleClose (ho : c.Open) (hcb : c.connectionCallback = true) :
    c.Makes c.handleClose (.connectionCallback .kDisconnected ::
      if c.closeCallback then [.closeCallback] else []) := by
  have hfile : callbacks c.closeFile.trace = callbacks c.trace := by
    rw [trace_closeFile, callbacks_append]
    split <;> simp [callbacks]
  have hflags : c.closeFile.flags = c.flags := by
    unfold closeFile
    split <;> rfl
  have hcb' : c.closeFile.connectionCallback = true := (congrArg Prod.fst hflags).trans hcb
  have hclose : c.closeFile.closeCallback = c.closeCallback := congrArg Prod.snd hflags
  rw [TcpConnection.handleClose, if_neg ho.ne.1]
  refine ⟨?_, hcb'.trans hcb.symm⟩
  show callbacks (if c.closeFile.closeCallback then (if c.closeFile.connectionCallback then
    c.closeFile.trace ++ [.connectionCallback .kDisconnected] else c.closeFile.trace) ++
      [.closeCallback] else if c.closeFile.connectionCallback then
        c.closeFile.trace ++ [.connectionCallback .kDisconnected] else c.closeFile.trace) = _
  rw [hcb', hclose, ← hfile]
  split <;> simp [callbacks]

theorem state_handleClose (ho : c.Open) : c.handleClose.state = .kDisconnected := by
  rw [handleClose, if_neg ho.ne.1]
  rfl

theorem Notified.handleClose (h : c.Notified) (ho : c.Open) : c.handleClose.Notified := by
  have hm := makes_handleClose ho h.connectionCallback
  have hs := state_handleClose ho
  have hevents : c.handleClose.channel.events = {} := by
    rw [TcpConnection.handleClose, if_neg ho.ne.1]
    rfl
  refine ⟨hm.connectionCallback.trans h.connectionCallback, fun hc => ?_, fun ho' => ?_, fun _ => ?_⟩
  · rw [hs] at hc
    cases hc
  · exact absurd hs ho'.ne.1
  · rw [hevents, hm.callbacks]
    exact ⟨rfl, List.mem_append_right _ List.mem_cons_self⟩

@[simp] theorem state_connectEstablished (c : TcpConnection) :
    c.connectEstablished.state = .kConnected :=
  rfl

theorem makes_connectEstablished (hcb : c.connectionCallback = true) :
    c.Makes c.connectEstablished [.connectionCallback .kConnected] := by
  refine ⟨?_, rfl⟩
  show callbacks (if c.connectionCallback then c.trace ++ [_] else c.trace) = _
  rw [if_pos hcb, callbacks_append]
  rfl

theorem Notified.connectEstablished (h : c.Notified) (hs : c.state = .kConnecting) :
    c.connectEstablished.Notified := by
  obtain ⟨-, hinput, hnil⟩ := h.connecting hs
  have hm := makes_connectEstablished h.connectionCallback
  refine ⟨h.connectionCallback, (fun hc => nomatch hc), fun _ => ?_, (fun hc => nomatch hc)⟩
  rw [hm.callbacks, hnil]
  refine ⟨?_, by simp, by simp⟩
  show { c.channel.events.input with epollin := true } = _
  rw [hinput]

theorem Notified.connectDestroyed (h : c.Notified) (hs : c.state = .kDisconnected) :
    c.connectDestroyed.Notified ∧ c.connectDestroyed.state = .kDisconnected ∧
      c.Makes c.connectDestroyed [] := by
  have heq : c.connectDestroyed = { c with channel := c.channel.remove } := by
    rw [TcpConnection.connectDestroyed, if_neg (by simp [hs])]
  have hm : c.Makes c.connectDestroyed [] := by
    rw [heq]
    exact ⟨(List.append_nil _).symm, rfl⟩
  have hs' : c.connectDestroyed.state = .kDisconnected := by
    rw [heq]
    exact hs
  refine ⟨h.stays_down hm hs hs' ?_, hs', hm⟩
  rw [heq]
  rfl

end TcpConnection

end AegisNet
