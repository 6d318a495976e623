import AegisNet.Lib.Run
import AegisNet.Tcp.TcpConnection.Output

/-!
# The life of a connection

There are three ways down: the peer closes or hangs up (`handleClose`), `forceClose`, and
`connectDestroyed`. They can be queued together, and one dispatch may run the close, read and
write handlers in a row. Whatever comes first clears the interest set with the state, so no handler
runs a callback after the notification that the connection is down.

## Main definitions

- `LoopStep`, `TcpConnection.runStep` — the steps of the loop thread
- `callbacks` — the user callbacks in a trace
- `TcpConnection.Up`, `TcpConnection.Down` — the two phases of the life of a connection
-/

namespace AegisNet

/-- A step of the loop thread after `connectEstablished`: an event, a public call made by a
    callback, or a functor. -/
inductive LoopStep
  | handleEvent (revents : EpollEvents) (readv : Option Bytes) (calls : List TcpConnection.Call)
      (w f : IoResult)
  | call (k : TcpConnection.Call)
  | sendInLoop (message : Bytes) (w : IoResult)
  | sendFileInLoop (file : File) (fileSize : ℕ)
  | shutdownInLoop
  | forceCloseInLoop
  | connectDestroyed
  deriving DecidableEq, Repr

/-- Epoll reports for a channel only what it may. -/
def LoopStep.Enabled (c : TcpConnection) : LoopStep → Prop
  | handleEvent revents _ _ _ _ => revents.Reportable c.channel.events
  | _ => True

instance (c : TcpConnection) : DecidablePred (LoopStep.Enabled c) := fun l => by
  cases l <;> unfold LoopStep.Enabled <;> infer_instance

/-- The calls of the user's callbacks, and of the server's `closeCallback_`. -/
def callbacks (trace : List Effect) : List Effect :=
  trace.filter fun
    | .connectionCallback _ | .messageCallback | .closeCallback => true
    | _ => false

@[simp] theorem callbacks_append (es fs : List Effect) :
    callbacks (es ++ fs) = callbacks es ++ callbacks fs :=
  List.filter_append ..

theorem callbacks_of_isOutput {es : List Effect} (h : ∀ e ∈ es, e.IsOutput) :
    callbacks es = [] := by
  refine List.filter_eq_nil_iff.mpr fun e he => ?_
  have := h e he
  cases e <;> simp_all [Effect.IsOutput]

namespace TcpConnection

def runStep (c : TcpConnection) : LoopStep → TcpConnection
  | .handleEvent revents readv calls w f => c.handleEvent revents readv calls w f
  | .call k => c.call k
  | .sendInLoop message w => c.sendInLoop message w
  | .sendFileInLoop file fileSize => c.sendFileInLoop file fileSize
  | .shutdownInLoop => c.shutdownInLoop
  | .forceCloseInLoop => c.forceCloseInLoop
  | .connectDestroyed => c.connectDestroyed

/-- The connection is up, and `n` messages were delivered. -/
structure Up (n : ℕ) (c : TcpConnection) : Prop where
  state : c.state = .kConnected ∨ c.state = .kDisconnecting
  input : c.channel.events.input = { epollin := true }
  callbacks_eq : callbacks c.trace =
    .connectionCallback .kConnected :: List.replicate n .messageCallback

/-- The connection is down: epoll watches nothing, and after the messages there is at most one
    notification and at most one call of `closeCallback_`. -/
structure Down (c : TcpConnection) : Prop where
  state : c.state = .kDisconnected
  events : c.channel.events = {}
  callbacks_eq : ∃ n ds, ds.Sublist [.connectionCallback .kDisconnected, .closeCallback] ∧
    callbacks c.trace =
      .connectionCallback .kConnected :: (List.replicate n .messageCallback ++ ds)

/-! ## Steps without callbacks -/

/-- `c'` differs from `c` in nothing that matters here. -/
structure Quiet (c c' : TcpConnection) : Prop where
  state : c'.state = c.state
  input : c'.channel.events.input = c.channel.events.input
  callbacks_eq : callbacks c'.trace = callbacks c.trace

theorem Quiet.refl (c : TcpConnection) : c.Quiet c := ⟨rfl, rfl, rfl⟩

theorem Quiet.of_frame {c c' : TcpConnection} (h : c'.frame = c.frame)
    (hcallbacks : callbacks c'.trace = callbacks c.trace) : c.Quiet c' where
  state := congrArg (·.1) h
  input := congrArg (·.2.2.2) h
  callbacks_eq := hcallbacks

theorem Up.quiet {n : ℕ} {c c' : TcpConnection} (h : c.Up n) (hq : c.Quiet c') : c'.Up n where
  state := by rw [hq.state]; exact h.state
  input := by rw [hq.input, h.input]
  callbacks_eq := by rw [hq.callbacks_eq, h.callbacks_eq]

theorem AddsOutput.callbacks_eq {c c' : TcpConnection} (h : c.AddsOutput c') :
    callbacks c'.trace = callbacks c.trace := by
  obtain ⟨es, ht, hes⟩ := h
  rw [ht, callbacks_append, callbacks_of_isOutput hes, List.append_nil]

theorem quiet_sendInLoop (c : TcpConnection) (message : Bytes) (w : IoResult) :
    c.Quiet (c.sendInLoop message w) := by
  by_cases hc : c.state = .kDisconnected
  · rw [sendInLoop, if_pos hc]
    exact .refl c
  · exact .of_frame (c.frame_sendInLoop message w)
      (addsOutput_sendInLoop hc message w).callbacks_eq

theorem quiet_sendFileInLoop (c : TcpConnection) (file : File) (fileSize : ℕ) :
    c.Quiet (c.sendFileInLoop file fileSize) := by
  simp only [sendFileInLoop]
  split
  · exact ⟨rfl, rfl, by simp [emit, callbacks]⟩
  · split <;> exact ⟨rfl, rfl, rfl⟩

theorem quiet_shutdownInLoop (c : TcpConnection) : c.Quiet c.shutdownInLoop := by
  obtain ⟨-, h⟩ | ⟨-, h⟩ := c.shutdownInLoop_cases
  · rw [h]
    exact .refl c
  · rw [h]
    exact ⟨rfl, rfl, by simp [emit, callbacks]⟩

theorem quiet_handleWrite (c : TcpConnection) (w f : IoResult) :
    c.Quiet (c.handleWrite w f) :=
  .of_frame (c.frame_handleWrite w f) (addsOutput_handleWrite c w f).callbacks_eq

/-! ## While the connection is up -/

theorem Up.emit_messageCallback {n : ℕ} {c : TcpConnection} (h : c.Up n) :
    (c.emit .messageCallback).Up (n + 1) where
  state := h.state
  input := h.input
  callbacks_eq := by
    simp only [emit, callbacks_append, h.callbacks_eq, List.replicate_succ', List.cons_append]
    rfl

theorem Up.call {n : ℕ} {c : TcpConnection} (h : c.Up n) (k : Call) : (c.call k).Up n := by
  cases k with
  | send buf w =>
    simp only [TcpConnection.call, send]
    split
    · exact h.quiet (quiet_sendInLoop c buf w)
    · exact h
  | sendFile file fileSize =>
    simp only [TcpConnection.call, sendFile]
    split
    · exact h.quiet (quiet_sendFileInLoop c file fileSize)
    · exact h
  | shutdown =>
    simp only [TcpConnection.call, shutdown]
    split
    · refine Up.quiet ?_ (quiet_shutdownInLoop _)
      exact ⟨.inr rfl, h.input, h.callbacks_eq⟩
    · exact h
  | forceClose =>
    simp only [TcpConnection.call, forceClose]
    split
    · exact ⟨.inr rfl, h.input, h.callbacks_eq⟩
    · exact h

theorem Up.foldl_call {n : ℕ} {c : TcpConnection} (h : c.Up n) (calls : List Call) :
    (calls.foldl TcpConnection.call c).Up n := by
  induction calls generalizing c with
  | nil => exact h
  | cons k calls ih => exact ih (h.call k)

/-! ## The way down -/

theorem callbacks_sublist {ds : List Effect}
    (h : ds.Sublist [.connectionCallback .kDisconnected, .closeCallback]) :
    callbacks ds = ds := by
  refine List.filter_eq_self.mpr fun e he => ?_
  obtain rfl | rfl : e = .connectionCallback .kDisconnected ∨ e = .closeCallback := by
    simpa using h.subset he
  · rfl
  · rfl

/-- Notifications behind the messages end the life of a connection. -/
theorem Up.down {n : ℕ} {c c' : TcpConnection} (h : c.Up n) (hs : c'.state = .kDisconnected)
    (he : c'.channel.events = {}) (es ds : List Effect) (hes : ∀ e ∈ es, e.IsOutput)
    (hds : ds.Sublist [.connectionCallback .kDisconnected, .closeCallback])
    (ht : c'.trace = c.trace ++ es ++ ds) : c'.Down where
  state := hs
  events := he
  callbacks_eq := by
    refine ⟨n, ds, hds, ?_⟩
    rw [ht, callbacks_append, callbacks_append, h.callbacks_eq, callbacks_of_isOutput hes,
      callbacks_sublist hds, List.append_nil, List.cons_append]

theorem Up.handleClose {n : ℕ} {c : TcpConnection} (h : c.Up n) : c.handleClose.Down := by
  have hc : c.state ≠ .kDisconnected := by
    obtain hs | hs := h.state <;> simp [hs]
  rw [TcpConnection.handleClose, if_neg hc]
  refine h.down rfl rfl (if 0 ≤ c.fileFd then [.close c.fileFd] else [])
    ((if c.closeFile.connectionCallback then [.connectionCallback .kDisconnected] else []) ++
      if c.closeFile.closeCallback then [.closeCallback] else []) ?_ ?_ ?_
  · intro e he
    split at he <;> simp_all [Effect.IsOutput]
  · split <;> split <;> decide
  · show (if c.closeFile.closeCallback then (if c.closeFile.connectionCallback then
      c.closeFile.trace ++ [_] else c.closeFile.trace) ++ [_] else
        if c.closeFile.connectionCallback then c.closeFile.trace ++ [_] else c.closeFile.trace) = _
    rw [trace_closeFile]
    split <;> split <;> simp [setState]

theorem Up.connectDestroyed {n : ℕ} {c : TcpConnection} (h : c.Up n) :
    c.connectDestroyed.Down := by
  rw [TcpConnection.connectDestroyed, if_pos h.state]
  exact h.down rfl rfl [] [.connectionCallback .kDisconnected] (by simp) (by decide)
    (by simp [emit, setState])

/-! ## After the connection is down -/

theorem Down.of_eq {c c' : TcpConnection} (h : c.Down) (hs : c'.state = c.state)
    (he : c'.channel.events = {}) (ht : callbacks c'.trace = callbacks c.trace) : c'.Down where
  state := by rw [hs, h.state]
  events := he
  callbacks_eq := by
    rw [ht]
    exact h.callbacks_eq

theorem Down.handleClose_eq {c : TcpConnection} (h : c.Down) : c.handleClose = c := by
  rw [TcpConnection.handleClose, if_pos h.state]

theorem Down.handleWrite_eq {c : TcpConnection} (h : c.Down) (w f : IoResult) :
    c.handleWrite w f = c := by
  simp [handleWrite, Channel.isWriting, h.events]

/-- Without `EPOLLIN` and `EPOLLOUT` a dispatch can only call `handleClose` again. -/
theorem Down.handleEvent_eq {c : TcpConnection} (h : c.Down) {revents : EpollEvents}
    (hr : revents.Reportable c.channel.events) (readv : Option Bytes) (calls : List Call)
    (w f : IoResult) : c.handleEvent revents readv calls w f = c := by
  obtain ⟨hin, hpri, hrdhup, hout⟩ := hr
  simp only [h.events, Bool.false_eq_true, imp_false, Bool.not_eq_true] at hin hpri hrdhup hout
  simp [handleEvent, hin, hpri, hrdhup, hout, h.handleClose_eq]

theorem Down.runStep {c : TcpConnection} (h : c.Down) {l : LoopStep} (hl : l.Enabled c) :
    (c.runStep l).Down := by
  cases l with
  | handleEvent revents readv calls w f =>
    rw [TcpConnection.runStep, h.handleEvent_eq hl]
    exact h
  | call k =>
    rw [TcpConnection.runStep, call_of_kDisconnected h.state]
    exact h
  | sendInLoop message w =>
    rw [TcpConnection.runStep, sendInLoop, if_pos h.state]
    exact h
  | sendFileInLoop file fileSize =>
    rw [TcpConnection.runStep, sendFileInLoop, if_pos h.state]
    exact h.of_eq rfl h.events (by simp [emit, callbacks])
  | shutdownInLoop =>
    refine h.of_eq (state_shutdownInLoop c) ?_ (quiet_shutdownInLoop c).callbacks_eq
    rw [TcpConnection.runStep, shutdownInLoop]
    split <;> exact h.events
  | forceCloseInLoop =>
    rw [TcpConnection.runStep, forceCloseInLoop, if_neg (by simp [h.state])]
    exact h
  | connectDestroyed =>
    rw [TcpConnection.runStep, TcpConnection.connectDestroyed, if_neg (by simp [h.state])]
    exact h.of_eq rfl rfl rfl

/-! ## Events while the connection is up -/

/-- The connection is up or down. -/
def Alive (c : TcpConnection) : Prop := (∃ n, c.Up n) ∨ c.Down

theorem Up.handleRead {n : ℕ} {c : TcpConnection} (h : c.Up n) (readv : Option Bytes)
    (calls : List Call) : (c.handleRead readv calls).Alive := by
  cases readv with
  | none => exact .inl ⟨n, h⟩
  | some data =>
    have hread : { c with inputBuffer := c.inputBuffer.readFd data }.Up n :=
      ⟨h.state, h.input, h.callbacks_eq⟩
    simp only [TcpConnection.handleRead]
    split
    · split
      · exact .inl ⟨n + 1, hread.emit_messageCallback.foldl_call calls⟩
      · exact .inl ⟨n, hread⟩
    · exact .inr hread.handleClose

/-- One dispatch: after a close in it, neither a read nor a write handler does anything. -/
theorem Up.handleEvent {n : ℕ} {c : TcpConnection} (h : c.Up n) {revents : EpollEvents}
    (hr : revents.Reportable c.channel.events) (readv : Option Bytes) (calls : List Call)
    (w f : IoResult) : (c.handleEvent revents readv calls w f).Alive := by
  have hwrite : ∀ d : TcpConnection, d.Alive →
      (if revents.epollout then d.handleWrite w f else d).Alive := by
    intro d hd
    split
    · obtain ⟨m, hd⟩ | hd := hd
      · exact .inl ⟨m, hd.quiet (quiet_handleWrite d w f)⟩
      · exact .inr (by rwa [hd.handleWrite_eq])
    · exact hd
  obtain ⟨-, hpri, hrdhup⟩ := hr.of_input h.input
  simp only [Bool.false_eq_true, imp_false, Bool.not_eq_true] at hpri hrdhup
  refine hwrite _ ?_
  -- a hang-up closes only without `EPOLLIN`, and `EPOLLIN` alone reads
  cases hin : revents.epollin
  · simp only [hpri, hrdhup, Bool.or_self, Bool.false_eq_true, if_false]
    split
    · exact .inr h.handleClose
    · exact .inl ⟨n, h⟩
  · simpa using h.handleRead readv calls

/-- Step lemma. -/
theorem Alive.runStep {c : TcpConnection} (h : c.Alive) {l : LoopStep} (hl : l.Enabled c) :
    (c.runStep l).Alive := by
  obtain ⟨n, h⟩ | h := h
  · cases l with
    | handleEvent revents readv calls w f => exact h.handleEvent hl readv calls w f
    | call k => exact .inl ⟨n, h.call k⟩
    | sendInLoop message w => exact .inl ⟨n, h.quiet (quiet_sendInLoop c message w)⟩
    | sendFileInLoop file fileSize => exact .inl ⟨n, h.quiet (quiet_sendFileInLoop c file fileSize)⟩
    | shutdownInLoop => exact .inl ⟨n, h.quiet (quiet_shutdownInLoop c)⟩
    | forceCloseInLoop =>
      rw [TcpConnection.runStep, forceCloseInLoop, if_pos h.state]
      exact .inr h.handleClose
    | connectDestroyed => exact .inr h.connectDestroyed
  · exact .inr (h.runStep hl)

theorem up_connectEstablished {c₀ : TcpConnection} (h₀ : c₀.Constructed)
    (hcb : c₀.connectionCallback = true) : c₀.connectEstablished.Up 0 where
  state := .inl rfl
  input := by
    show { c₀.channel.events with epollin := true }.input = _
    rw [h₀.events]
    rfl
  callbacks_eq := by
    show callbacks (if c₀.connectionCallback then c₀.trace ++ [_] else c₀.trace) = _
    rw [if_pos hcb, h₀.trace]
    rfl

/-- **Connection lifecycle.** In every run of the loop thread the callbacks are one notification
    that the connection is up, some messages, at most one notification that it is down, and at most
    one call of `closeCallback_`, in this order; and a connection that is down stays down. -/
theorem callbacks_of_run {c₀ c : TcpConnection} (h₀ : c₀.Constructed)
    (hcb : c₀.connectionCallback = true) {ls : List LoopStep}
    (hrun : Run (fun c l c' => l.Enabled c ∧ c' = c.runStep l) c₀.connectEstablished ls c) :
    (∃ n ds, ds.Sublist [.connectionCallback .kDisconnected, .closeCallback] ∧
      callbacks c.trace =
        .connectionCallback .kConnected :: (List.replicate n .messageCallback ++ ds)) ∧
    ∀ (ms : List LoopStep) (c' : TcpConnection), c.state = .kDisconnected →
      Run (fun c l c' => l.Enabled c ∧ c' = c.runStep l) c ms c' →
        c'.state = .kDisconnected := by
  have halive : c.Alive := by
    refine hrun.invariant (.inl ⟨0, up_connectEstablished h₀ hcb⟩) ?_
    rintro d l _ hd ⟨hl, rfl⟩
    exact hd.runStep hl
  refine ⟨?_, fun ms c' hs hrun' => ?_⟩
  · obtain ⟨n, h⟩ | h := halive
    · exact ⟨n, [], List.nil_sublist _, by rw [h.callbacks_eq, List.append_nil]⟩
    · exact h.callbacks_eq
  · have hdown : c.Down := halive.resolve_left fun ⟨n, h⟩ => by
      obtain hs' | hs' := h.state <;> simp [hs'] at hs
    refine (hrun'.invariant hdown ?_).state
    rintro d l _ hd ⟨hl, rfl⟩
    exact hd.runStep hl

/-- A read and a hang-up in one dispatch, the close by the peer, and two late functors. -/
theorem callbacks_of_run_hangUp :
    let c₀ : TcpConnection :=
      { connectionCallback := true, messageCallback := true, closeCallback := true }
    let c := [.handleEvent { epollin := true, epollhup := true } (some [71]) [.send [72] (.upTo 1)]
        (.upTo 0) (.upTo 0),
      .handleEvent { epollin := true } (some []) [] (.upTo 0) (.upTo 0),
      .forceCloseInLoop, .connectDestroyed].foldl runStep c₀.connectEstablished
    ∃ n ds, ds.Sublist [.connectionCallback .kDisconnected, .closeCallback] ∧
      callbacks c.trace =
        .connectionCallback .kConnected :: (List.replicate n .messageCallback ++ ds) :=
  (callbacks_of_run ⟨rfl, rfl, by simp, rfl, rfl, rfl⟩ rfl
    (Run.of_allowed (Q := fun c l => LoopStep.Enabled c l) (by decide +kernel))).1

end TcpConnection

end AegisNet
