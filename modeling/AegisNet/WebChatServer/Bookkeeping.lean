import AegisNet.WebChatServer.Statements

/-!
# The bookkeeping of the server

Whatever the order of the callbacks, the three tables agree but for a connection whose `onConnection`
is running, a connection has at most one timer of each kind, and it has none when it is down. An
idle timer that finds its connection connected is not too early.

## Main definitions

- `WebChatServer.idleStarted` — the connection whose idle timer is started
- `WebChatServer.Up` — reported up, and not yet down

## Main results

- `WebChatServer.Sound.exec`, `WebChatServer.Sound.run` — the invariant over steps and runs
- `WebChatServer.bookkeeping`
-/

namespace AegisNet

namespace WebChatServer

variable {κ ι : Type*} [DecidableEq κ] [LinearOrder ι] {s : WebChatServer κ ι} {L : ι → Prop} {k : κ}
  {x : ι}

/-! ## One statement -/

omit [DecidableEq κ] in
theorem Sound.tick (h : s.Sound L) {now : ℕ} (hle : s.clock ≤ now) (hlt : now < kInt64Max) :
    { s with clock := now }.Sound L where
  base := { h.base with
    clock := hlt
    lastActive := fun x => (h.base.lastActive x).trans hle
    queue := fun k => ⟨(h.base.queue k).1, (h.base.queue k).2.trans hle⟩ }
  thread k := ⟨(h.thread k).mayCall, (h.thread k).tail, (h.thread k).head⟩
  mode x := by
    obtain ⟨m, hat, hallows⟩ := h.mode x
    exact ⟨m, hat.frame ⟨rfl, Iff.rfl, rfl, rfl, fun _ _ _ => id, rfl, id⟩ rfl hle, hallows⟩

/-- The mode when a queued `forceCloseInLoop` is taken off. -/
theorem Sound.forcing {rest : List (ChatOp ι)} (h : s.Sound L)
    (hrun : s.threads.running k = .runBound x .forceCloseInLoop :: rest)
    (hwork : (s.advance k rest).work x = []) :
    ∃ m, (s.advance k rest).At x m ∧ (m.Allows L x [] ∨ ∃ i f, m = .forcing i f) := by
  obtain ⟨m, hat, hallows⟩ := h.mode x
  rw [work_advance hrun fun y => ((h.performing hrun).home y · |>.1), hwork] at hallows
  by_cases hq : m.isQueued = true
  · cases m with
    | queued i f =>
      -- it may be the functor that the mode counts on
      exact ⟨.forcing i f, ⟨hat.state, hat.listed, hat.entry, hat.parser, hat.idleTimer,
        hat.forceCloseTimer, trivial, ChatMode.unqueued⟩, .inr ⟨i, f, rfl⟩⟩
    | _ => cases hq
  · exact ⟨m, ⟨hat.state, hat.listed, hat.entry, hat.parser, hat.idleTimer, hat.forceCloseTimer,
      hat.inTime, fun hq' => absurd hq' hq⟩, .inl hallows⟩

theorem Sound.perform (h : s.Sound L) (k : κ) (w : IoResult) : (s.perform k w).Sound L := by
  unfold WebChatServer.perform
  split
  · exact h
  · next op rest hrun =>
    have hp := h.performing hrun
    cases op with
    -- handlers and functors find nothing of their connection in progress
    | handleClose x =>
      obtain ⟨hidle, hwork⟩ := h.entry hrun rfl rfl
      exact hp.handleClose hidle hwork
    | handleRead x readv =>
      obtain ⟨hidle, hwork⟩ := h.entry hrun rfl rfl
      exact hp.handleRead hidle hwork (((h.thread k).head _ _ hrun rfl).2.2 x readv rfl)
    | handleWrite x w f => exact hp.handleWrite
    | updateConnections x => exact hp.updateConnections
    | cancelTimers x idleTimer forceCloseTimer => exact hp.cancelTimers
    | refreshIdleTimer x => exact hp.refreshIdleTimer
    | updateParsers x => exact hp.updateParsers
    | drainRequests x => exact hp.drainRequests
    | send x buf => exact hp.send w
    | broadcast msg => exact hp.broadcast
    | unlock => exact hp.unlock
    | shutdown x => exact hp.shutdown
    | handleIdleTimeout x => exact hp.handleIdleTimeout
    | startForceCloseTimer x => exact hp.startForceCloseTimer
    | handleForceCloseTimeout x => exact hp.handleForceCloseTimeout
    | forceClose x => exact hp.forceClose
    | runBound x f =>
      obtain ⟨hidle, hwork⟩ := h.entry hrun rfl rfl
      by_cases hf : f = .forceCloseInLoop
      · subst hf
        obtain ⟨m, hat, hm⟩ := h.forcing hrun hwork
        exact hp.forceCloseInLoop hidle hwork hat hm
      · exact hp.runBound hf
    | sendInLoop x buf => exact hp.sendInLoop w

/-! ## Handlers and functors -/

omit [DecidableEq κ] in
theorem work_of_running (h : s.threads.running (s.loop x) = []) : s.work x = [] := by
  rw [work, h]
  rfl

omit [DecidableEq κ] in
theorem Free.acts (hfree : s.Free k) (h : s.Sound L) (C : ι → Prop) : s.Acts s k C :=
  .refl h.base (by rw [hfree.2]; rfl) (by rw [hfree.1]; simp)

theorem Sound.connectEstablished (h : s.Sound L) (hfree : s.Free (s.loop x))
    (hs : (s.conn x).state = .kConnecting) :
    (s.method (s.loop x) x TcpConnection.connectEstablished).Sound L := by
  have hn := h.base.notified x
  have hm := TcpConnection.makes_connectEstablished hn.connectionCallback
  refine ((hfree.acts h (· = x)).method hm rfl rfl (hn.connectEstablished hs) (by simp)).sound
    (fun y hy => hy ▸ rfl) (fun j _ => h.thread j) (fun y _ => h.mode y) ?_
  rintro y rfl
  obtain ⟨m, hat, hallows⟩ := h.mode y
  have hstate : ChatMode.state m = .kConnecting := hat.state.symm.trans hs
  cases m with
  | connecting =>
    refine ⟨.arriving, hat.method rfl rfl rfl hat.idleTimer hat.forceCloseTimer trivial ChatMode.unqueued, ?_⟩
    rw [work_method hm, if_pos rfl, work_of_running hfree.1]
    simp [ChatOp.ofCallback, ChatOp.duty, ChatMode.Allows]
  | _ => cases hstate

theorem Sound.connectDestroyed (h : s.Sound L) (hfree : s.Free (s.loop x))
    (hs : (s.conn x).state = .kDisconnected) :
    (s.method (s.loop x) x TcpConnection.connectDestroyed).Sound L := by
  obtain ⟨hn, hs', hm⟩ := (h.base.notified x).connectDestroyed hs
  refine ((hfree.acts h fun _ => False).method_aux hm rfl hn (by simp [hs'])
    (fun y _ => frame_method hm (hs'.trans hs.symm) y) fun _ _ => rfl).sound
    (fun _ hc => hc.elim) (fun j _ => h.thread j) (fun y _ => h.mode y) fun _ hc => hc.elim

omit [DecidableEq κ] [LinearOrder ι] in
/-- The handlers of an open connection that is read from, or of one that is closed. -/
theorem dispatch_cases {revents : EpollEvents} (readv : Option Bytes) (w f : IoResult)
    (hn : (s.conn x).Notified) (hin : (s.conn x).channel.inEpoll = true)
    (hrep : revents.Reportable (s.conn x).channel.events) :
    ∃ first last, dispatch x revents readv w f = first ++ last ∧
      (first = [] ∨ first = [.handleClose x] ∨
        first = [.handleRead x readv] ∧ (s.conn x).Open) ∧
      (last = [] ∨ last = [.handleWrite x w f]) := by
  have hne : (s.conn x).state ≠ .kConnecting := fun hs => by
    rw [(hn.connecting hs).1] at hin
    cases hin
  refine ⟨_, _, rfl, ?_, by split <;> simp⟩
  obtain hopen | hdown := open_or_down hne
  · obtain ⟨-, hpri, hrdhup⟩ := hrep.of_input (hn.up hopen).1
    simp only [Bool.false_eq_true, imp_false, Bool.not_eq_true] at hpri hrdhup
    cases hr : revents.epollin
    · cases revents.epollhup <;> simp [hpri, hrdhup]
    · simp [hopen]
  · obtain ⟨hepollin, hpri, hrdhup⟩ := hrep.of_input (hn.down hdown).1
    simp only [Bool.false_eq_true, imp_false, Bool.not_eq_true] at hepollin hpri hrdhup
    cases revents.epollhup <;> simp [hepollin, hpri, hrdhup]

/-- The thread of `k` starts on `ops`, handlers or a functor. -/
theorem Sound.start {x : Threads κ (ChatFunctor ι) (ChatOp ι)} (ops : List (ChatOp ι))
    (h : s.Sound L) (hfree : s.Free k) (hk : x.running k = ops)
    (hother : ∀ j, j ≠ k → x.running j = s.threads.running j)
    (hnew : ∀ j op y, op ∈ x.todo ChatFunctor.body j → op.owner = some y →
      op ∈ s.threads.todo ChatFunctor.body j ∨ s.loop y = j ∧ (s.conn y).state ≠ .kConnecting)
    (hold : ∀ j, s.threads.todo ChatFunctor.body j ⊆ x.todo ChatFunctor.body j)
    (hduty : ∀ o ∈ ops, ∀ y, o.duty y = false)
    (htail : ∀ op rest, ops = op :: rest → ∀ o ∈ rest, o.isEntry = false)
    (hread : ∀ y readv rest, ops = .handleRead y readv :: rest → (s.conn y).Open) :
    { s with threads := x }.Sound L where
  base := h.base.threads hnew
  thread j := by
    by_cases hj : j = k
    · subst hj
      refine ⟨fun _ => ?_, fun op rest hrun => ?_, fun op rest hrun hop => ⟨hfree.2, ?_, ?_⟩⟩
      · show (s.queue j).phase.mayCall = true
        rw [hfree.2]
        rfl
      · exact htail op rest (hk.symm.trans hrun)
      · exact fun y o ho => hduty o (hk ▸ hrun ▸ List.mem_cons_of_mem _ ho) y
      · rintro y readv rfl
        exact hread y readv rest (hk.symm.trans hrun)
    · obtain ⟨hcall, htl, hhead⟩ := h.thread j
      rw [← hother j hj] at hcall htl hhead
      exact ⟨hcall, htl, hhead⟩
  mode y := by
    obtain ⟨m, hat, hallows⟩ := h.mode y
    refine ⟨m, hat.frame (frame_threads fun hq => hold _ hq) rfl (le_refl _), ?_⟩
    suffices hwork : { s with threads := x }.work y = s.work y by rwa [hwork]
    show List.filter _ (x.running (s.loop y)) = List.filter _ (s.threads.running (s.loop y))
    by_cases hy : s.loop y = k
    · rw [hy, hk, hfree.1, List.filter_nil]
      -- handlers and functors are no callbacks of this class
      exact List.filter_eq_nil_iff.mpr fun o ho => by simp [hduty o ho y]
    · rw [hother _ hy]

theorem Sound.handleEvent {revents : EpollEvents} {readv : Option Bytes} {w f : IoResult}
    (h : s.Sound L) (hfree : s.Free (s.loop x)) (hin : (s.conn x).channel.inEpoll = true)
    (hrep : revents.Reportable (s.conn x).channel.events) :
    (s.call (s.loop x) (dispatch x revents readv w f)).Sound L := by
  have hn := h.base.notified x
  have hne : (s.conn x).state ≠ .kConnecting := fun hs => by
    rw [(hn.connecting hs).1] at hin
    cases hin
  obtain ⟨first, last, hd, hfirst, hlast⟩ := dispatch_cases readv w f hn hin hrep
  rw [hd]
  have hmem : ∀ o ∈ first ++ last, o = .handleClose x ∨ o = .handleRead x readv ∨
      o = .handleWrite x w f := by
    intro o ho
    obtain ho | ho := List.mem_append.mp ho
    · obtain rfl | rfl | ⟨rfl, -⟩ := hfirst
      · cases ho
      · exact .inl (List.mem_singleton.mp ho)
      · exact .inr (.inl (List.mem_singleton.mp ho))
    · obtain rfl | rfl := hlast
      · cases ho
      · exact .inr (.inr (List.mem_singleton.mp ho))
  refine h.start (first ++ last) hfree ?_ (fun j hj => Function.update_of_ne hj ..)
    (fun j op y hop hy => ?_) (fun j op hop => mem_todo_call.mpr (.inr hop)) (fun o ho y => ?_) ?_ ?_
  · show Function.update _ _ _ _ = _
    rw [Function.update_self, hfree.1, List.append_nil]
  · obtain ⟨rfl, hop'⟩ | hop' := mem_todo_call.mp hop
    · right
      obtain rfl | rfl | rfl := hmem op hop'
      all_goals
        obtain rfl := Option.some.inj hy
        exact ⟨rfl, hne⟩
    · exact .inl hop'
  · obtain rfl | rfl | rfl := hmem o ho <;> rfl
  · intro op rest heq o ho
    have hlast' : rest = [] ∨ rest = [.handleWrite x w f] := by
      obtain rfl | rfl | ⟨rfl, -⟩ := hfirst
      all_goals obtain rfl | rfl := hlast
      all_goals cases heq <;> simp
    obtain rfl | rfl := hlast'
    · cases ho
    · rw [List.mem_singleton.mp ho]
      rfl
  · intro y readv' rest heq
    obtain rfl | rfl | ⟨rfl, hopen⟩ := hfirst
    · obtain rfl | rfl := hlast <;> cases heq
    · cases heq
    · cases heq
      exact hopen

theorem Sound.swapFunctors (h : s.Sound L) (hfree : s.Free k)
    (hfunctors : (s.threads.loops k).functors = []) :
    { s with threads := s.threads.swapFunctors k }.Sound L := by
  have htodo : (s.threads.swapFunctors k).todo ChatFunctor.body = _ :=
    Threads.todo_swapFunctors ⟨hfree.1, hfunctors⟩
  refine h.start [] hfree hfree.1 (fun _ _ => rfl) (fun j op y hop hy => .inl ?_)
    (fun j => ?_) (by simp) (by simp) (by simp)
  · rwa [htodo] at hop
  · rw [htodo]
    exact List.Subset.refl _

theorem body_plain (cb : ChatFunctor ι) :
    ∃ op, cb.body = [op] ∧ (∀ y, op.duty y = false) ∧ ∀ y readv, op ≠ .handleRead y readv := by
  cases cb with
  | bound y f => exact ⟨_, rfl, fun _ => rfl, by simp⟩
  | sendInLoop y buf => exact ⟨_, rfl, fun _ => rfl, by simp⟩

theorem Sound.nextFunctor (h : s.Sound L) (hfree : s.Free k) :
    { s with threads := s.threads.nextFunctor ChatFunctor.body k }.Sound L := by
  have htodo : (s.threads.nextFunctor ChatFunctor.body k).todo ChatFunctor.body = _ :=
    Threads.todo_nextFunctor hfree.1
  have hrun : ∃ ops, (s.threads.nextFunctor ChatFunctor.body k).running =
      Function.update s.threads.running k ops ∧
      (ops = [] ∨ ∃ op, ops = [op] ∧ (∀ y, op.duty y = false) ∧
        ∀ y readv, op ≠ .handleRead y readv) := by
    unfold Threads.nextFunctor
    split
    · refine ⟨[], ?_, .inl rfl⟩
      rw [← hfree.1, Function.update_eq_self]
    · next cb rest hq =>
      refine ⟨cb.body, ?_, .inr (body_plain cb)⟩
      show Function.update s.threads.running k (cb.body ++ s.threads.running k) = _
      rw [hfree.1, List.append_nil]
  obtain ⟨ops, hrun, hops⟩ := hrun
  refine h.start ops hfree ?_ (fun j hj => ?_) (fun j op y hop hy => .inl ?_)
    (fun j => ?_) ?_ ?_ ?_
  · rw [hrun, Function.update_self]
  · rw [hrun, Function.update_of_ne hj]
  · rwa [htodo] at hop
  · rw [htodo]
    exact List.Subset.refl _
  all_goals obtain rfl | ⟨op, rfl, hduty, hread⟩ := hops
  · simp
  · intro o ho
    rw [List.mem_singleton.mp ho]
    exact hduty
  · simp
  · rintro _ _ ⟨⟩
    simp
  · simp
  · rintro y readv _ heq
    exact absurd (List.cons.inj heq).1 (hread y readv)

/-! ## Timers -/

/-- The connection whose `handleIdleTimeout` the step starts. -/
def idleStarted (s : WebChatServer κ ι) : ChatStep κ ι → Option ι
  | .readTimers k .turn =>
    match (s.queue k).nextStart.bind (s.callback k) with
    | some (.handleIdleTimeout x) => some x
    | _ => none
  | _ => none

omit [DecidableEq κ] [LinearOrder ι] in
theorem idleStarted_turn (h : (s.queue k).nextStart.bind (s.callback k) =
    some (.handleIdleTimeout x)) : s.idleStarted (.readTimers k .turn) = some x := by
  simp only [idleStarted, h]

omit [DecidableEq κ] [LinearOrder ι] in
theorem Base.effect_readTimers (h : s.Base) (k : κ) (l : ReadStep) :
    TimerQueue.Effect (s.ptrLess k) 0 (kInt64Max - 1) (s.queue k) (l.at s.clock)
      ((s.queue k).exec (s.ptrLess k) (l.at s.clock)) := by
  have hread : (s.queue k).clock ≤ s.clock ∧ 0 ≤ s.clock ∧ s.clock ≤ kInt64Max - 1 :=
    ⟨(h.queue k).2, Nat.zero_le _, Nat.le_pred_of_lt h.clock⟩
  apply (h.queue k).1.batched.consistent.effect
  cases l with
  | beginRead | rearm => exact hread
  | turn => exact hread.1
  | beginRearm | endRead => trivial

theorem ReadStep.at_newId (l : ReadStep) (now : ℕ) :
    (l.at now).newId = none ∧ (l.at now).ReadsUpTo now ∧
      (∀ id, l.at now ≠ .cancelInLoop id) ∧ (∀ t, l.at now = .turn t → l = .turn ∧ t = now) := by
  cases l <;> simp [ReadStep.at, TimerStep.newId, TimerStep.ReadsUpTo, eq_comm]

omit [LinearOrder ι] in
theorem Base.stepTimers (h : s.Base) (k : κ) (l : ReadStep) : (s.stepTimers k l).Base := by
  obtain ⟨hnew, hread, -, -⟩ := ReadStep.at_newId l s.clock
  exact h.withQueue (h.effect_readTimers k l) hnew hread

omit [LinearOrder ι] in
/-- What is known of a timer whose callback is not started. -/
theorem Fact.stepTimers {cb : ChatTimer ι} {fact : TimerFact} (hf : s.Fact cb fact) (h : s.Base)
    (l : ReadStep) (hstart : l = .turn → (s.queue k).nextStart.bind (s.callback k) ≠ some cb) :
    (s.stepTimers k l).Fact cb fact := by
  obtain ⟨hnew, -, hcancel, hturn⟩ := ReadStep.at_newId l s.clock
  refine hf.withQueue h (h.effect_readTimers k l) hnew (fun id hl => absurd hl (hcancel id)) ?_
  intro t id hl hid heq
  refine hstart (hturn t hl).1 ?_
  rw [hid]
  exact heq

omit [LinearOrder ι] in
theorem frame_stepTimers (h : s.Base) (l : ReadStep) (y : ι)
    (hstart : l = .turn → ∀ cb, (s.queue k).nextStart.bind (s.callback k) = some cb → cb.conn ≠ y) :
    s.Frame (s.stepTimers k l) y :=
  ⟨rfl, Iff.rfl, rfl, rfl, fun cb _ hcb hf => hf.stepTimers h l fun hl heq => hstart hl cb heq hcb,
    rfl, id⟩

omit [DecidableEq κ] [LinearOrder ι] in
/-- The callback that a turn starts belongs to the loop. -/
theorem Base.nextStart {cb : ChatTimer ι} (h : s.Base)
    (hcb : (s.queue k).nextStart.bind (s.callback k) = some cb) :
    ∃ id, (s.queue k).nextStart = some id ∧ s.callback k id = some cb ∧ s.loop cb.conn = k := by
  obtain ⟨id, hid, hcallback⟩ := Option.bind_eq_some_iff.mp hcb
  obtain ⟨hactive, -⟩ := (h.queue k).1.nextStart_active hid
  obtain ⟨cb', hcb', hloop⟩ := h.owner k id hactive
  obtain rfl := Option.some.inj (hcb'.symm.trans hcallback)
  exact ⟨id, hid, hcallback, hloop⟩

omit [LinearOrder ι] in
/-- The timer whose callback is started was waiting, and it is spent now. -/
theorem Fact.start {cb : ChatTimer ι} {fact : TimerFact} (hf : s.Fact cb fact) (h : s.Base)
    (hcb : (s.queue k).nextStart.bind (s.callback k) = some cb) (hne : ∀ i, fact ≠ .atMost i) :
    ∃ i e, fact = .waiting i e ∧ e ≤ s.clock ∧ (s.stepTimers k .turn).Fact cb (.spent i) := by
  obtain ⟨id, hid, hcallback, rfl⟩ := h.nextStart hcb
  obtain ⟨hone, hclock⟩ := h.queue (s.loop cb.conn)
  obtain ⟨e, rfl, he⟩ := TimerQueue.Holds.waiting_of_nextStart hf hone hid hcallback hne
  refine ⟨id, e, rfl, he.trans hclock, ?_⟩
  show (Function.update s.queue _ _ (s.loop cb.conn)).Holds _ _
  rw [Function.update_self]
  exact TimerQueue.Holds.turn hf hid hclock

/-- Afterwards the callback may add and cancel timers. -/
theorem mayCall_turn {Q : TimerQueue} {id : TimerId} (h : Q.nextStart = some id) (time : ℕ) :
    (Q.turn time).phase.mayCall = true := by
  obtain ⟨pass, expired, turns, inCallback, timer, hphase, ht, hc⟩ :=
    TimerQueue.nextStart_eq_some h
  unfold TimerQueue.turn
  rw [hphase]
  simp [ht, hc, TimerQueue.record, ReadPhase.record, ReadPhase.mayCall]

omit [LinearOrder ι] in
/-- A connection with nothing left to do is not on its way out. -/
theorem settled {m : ChatMode} (h : m.Allows L x []) :
    (∀ i, m.idleTimer ≠ .atMost i) ∧ ∀ f, m.forceCloseTimer ≠ .atMost f := by
  cases m with
  | leaving i f | clearing i f => simp [ChatMode.Allows] at h
  | _ => simp [ChatMode.idleTimer, ChatMode.forceCloseTimer]

omit [LinearOrder ι] in
/-- The mode in which the callback of a timer finds its connection. -/
theorem At.start {m : ChatMode} {cb : ChatTimer ι} (hat : s.At cb.conn m) (h : s.Base)
    (hcb : (s.queue k).nextStart.bind (s.callback k) = some cb) (hallows : m.Allows L cb.conn [])
    (hL : ∀ x ∈ s.idleStarted (.readTimers k .turn), (s.conn x).state = .kDisconnecting → L x) :
    ∃ m' : ChatMode, (s.stepTimers k .turn).At cb.conn m' ∧ m'.Allows L cb.conn [cb.op] := by
  obtain ⟨hidle, hforce⟩ := settled hallows
  have hkept : ∀ {cb' fact}, cb' ≠ cb → s.Fact cb' fact → (s.stepTimers k .turn).Fact cb' fact :=
    fun hne hf => hf.stepTimers h .turn fun _ heq => hne (Option.some.inj (heq.symm.trans hcb))
  cases cb with
  | handleIdleTimeout x =>
    obtain ⟨i, e, heq, hle, hspent⟩ := Fact.start hat.idleTimer h hcb hidle
    have hforce' := hkept (by simp) hat.forceCloseTimer
    cases m with
    | fresh i' e' =>
      cases heq
      refine ⟨.due i, ⟨hat.state, hat.listed, hat.entry, hat.parser, hspent, hforce', ?_, ChatMode.unqueued⟩,
        .inl rfl⟩
      -- the expiration has passed, so it was not cut at the largest time
      obtain htime | hmax := hat.inTime
      · exact le_trans htime hle
      · have hlt := h.clock
        omega
    | stale i' e' =>
      cases heq
      -- shut down by `onMessage`: this was the last timer
      exact ⟨.lost i, ⟨hat.state, hat.listed, hat.entry, hat.parser, hspent, hforce', trivial,
        ChatMode.unqueued⟩, hL x (idleStarted_turn hcb) hat.state, .inl rfl⟩
    | entering i' e' | active i' e' => simp [ChatMode.Allows] at hallows
    | _ => cases heq
  | handleForceCloseTimeout x =>
    obtain ⟨f, e, heq, hle, hspent⟩ := Fact.start hat.forceCloseTimer h hcb hforce
    have hidle' := hkept (by simp) hat.idleTimer
    cases m with
    | armed i f' e' =>
      cases heq
      exact ⟨.expired i f, ⟨hat.state, hat.listed, hat.entry, hat.parser, hidle', hspent, trivial,
        ChatMode.unqueued⟩, rfl⟩
    | _ => cases heq

theorem Sound.stepTimers (h : s.Sound L) (hidle : s.threads.Idle k) (l : ReadStep)
    (hnone : l = .turn → (s.queue k).nextStart.bind (s.callback k) = none) :
    (s.stepTimers k l).Sound L := by
  have hother : ∀ j, j ≠ k → (s.stepTimers k l).queue j = s.queue j :=
    fun j hj => Function.update_of_ne hj ..
  refine ⟨h.base.stepTimers k l, fun j => ?_, fun y => ?_⟩
  · by_cases hj : j = k
    · subst hj
      have hrun : (s.stepTimers j l).threads.running j = [] := hidle.1
      refine ⟨fun hne => absurd hrun hne, fun op rest heq => ?_, fun op rest heq => ?_⟩
      all_goals
        rw [hrun] at heq
        cases heq
    · obtain ⟨hcall, htail, hhead⟩ := h.thread j
      rw [← hother j hj] at hcall hhead
      exact ⟨hcall, htail, hhead⟩
  · obtain ⟨m, hat, hallows⟩ := h.mode y
    refine ⟨m, hat.frame (frame_stepTimers h.base l y fun hl cb heq => ?_) rfl (le_refl _), hallows⟩
    rw [hnone hl] at heq
    cases heq

/-- A turn that starts a callback. -/
theorem Sound.startTimer {cb : ChatTimer ι} (h : s.Sound L) (hidle : s.threads.Idle k)
    (hcb : (s.queue k).nextStart.bind (s.callback k) = some cb)
    (hL : ∀ x ∈ s.idleStarted (.readTimers k .turn), (s.conn x).state = .kDisconnecting → L x) :
    ((s.stepTimers k .turn).call k [cb.op]).Sound L := by
  obtain ⟨id, hid, -, hloop⟩ := h.base.nextStart hcb
  have hwork : s.work cb.conn = [] := work_of_running (by rw [hloop]; exact hidle.1)
  obtain ⟨m, hat, hallows⟩ := h.mode cb.conn
  rw [hwork] at hallows
  obtain ⟨m', hat', hallows'⟩ := hat.start h.base hcb hallows hL
  have hne : (s.conn cb.conn).state ≠ .kConnecting := by
    intro hs
    have hstate := hs.symm.trans hat'.state
    cases m' with
    | connecting => simp [ChatMode.Allows] at hallows'
    | _ => cases hstate
  have hself : (s.stepTimers k .turn).queue k = (s.queue k).turn s.clock := Function.update_self ..
  have ha : s.Acts (s.stepTimers k .turn) k (· = cb.conn) := by
    refine ⟨h.base.stepTimers k .turn, ?_, fun o ho => ?_, rfl, rfl,
      fun j hj => ⟨rfl, Function.update_of_ne hj ..⟩, fun y hy => ⟨?_, rfl⟩⟩
    · rw [hself]
      exact mayCall_turn hid _
    · rw [show (s.stepTimers k .turn).threads.running k = [] from hidle.1] at ho
      cases ho
    · refine frame_stepTimers h.base .turn y fun _ cb' heq => ?_
      obtain rfl := Option.some.inj (heq.symm.trans hcb)
      exact Ne.symm hy
  refine (ha.call_own ⟨hloop, hne⟩ ?_).sound (fun y hy => hy ▸ hloop) (fun j _ => h.thread j)
    (fun y _ => h.mode y) ?_
  · cases cb <;> simp [ChatTimer.op, ChatTimer.conn, ChatOp.isEntry, ChatOp.owner]
  · rintro y rfl
    have hwork' : (s.stepTimers k .turn).work cb.conn = [] := hwork
    refine ⟨m', hat'.call k _, ?_⟩
    rw [work_call_own (by exact hloop) hwork']
    cases cb with
    | handleIdleTimeout x => simpa [ChatTimer.op, ChatTimer.conn, ChatOp.duty] using hallows'
    | handleForceCloseTimeout x => simpa [ChatTimer.op, ChatTimer.conn, ChatOp.duty] using hallows'

theorem Sound.readTimers (h : s.Sound L) (hidle : s.threads.Idle k) (l : ReadStep)
    (hL : ∀ x ∈ s.idleStarted (.readTimers k l), (s.conn x).state = .kDisconnecting → L x) :
    (s.readTimers k l).Sound L := by
  unfold WebChatServer.readTimers
  split
  · next hl =>
    subst hl
    split
    · next hnone => exact h.stepTimers hidle .turn fun _ => hnone
    · next cb hcb => exact h.startTimer hidle hcb hL
  · next hl => exact h.stepTimers hidle l fun hl' => absurd hl' hl

/-! ## Runs -/

theorem Sound.exec {l : ℕ × ChatStep κ ι} (h : s.Sound L) (hl : s.Enabled l)
    (hL : ∀ x ∈ s.idleStarted l.2, (s.conn x).state = .kDisconnecting → L x) :
    (s.exec l).Sound L := by
  obtain ⟨now, l⟩ := l
  obtain ⟨hle, hlt, hready⟩ := hl
  have ht := h.tick hle hlt
  cases l with
  | connectEstablished x => exact ht.connectEstablished hready.1 hready.2
  | handleEvent x revents readv w f => exact ht.handleEvent hready.1 hready.2.2.1 hready.2.2.2
  | connectDestroyed x => exact ht.connectDestroyed hready.1 hready.2
  | readTimers k l => exact ht.readTimers hready l hL
  | swapFunctors k => exact ht.swapFunctors hready.1 hready.2
  | nextFunctor k => exact ht.nextFunctor hready
  | perform k w => exact ht.perform k w

omit [DecidableEq κ] in
theorem Fresh.sound (h : s.Fresh) (L : ι → Prop) : s.Sound L where
  base := {
    clock := h.clock
    lastActive := fun x => by rw [h.lastActive]; exact Nat.zero_le _
    notified := fun x => by
      obtain ⟨hs, hchannel, hcb, htrace⟩ := h.conn x
      refine ⟨hcb, fun _ => ?_, fun ho => absurd hs ho.ne.2, fun hd => ?_⟩
      · rw [hchannel, htrace]
        exact ⟨rfl, rfl, rfl⟩
      · rw [hs] at hd
        cases hd
    home := fun k op x hop => by
      rw [Threads.todo, h.running, h.queued] at hop
      cases hop
    queue := fun k => by
      rw [h.queue]
      exact ⟨TimerQueue.oneShot_empty, Nat.zero_le _⟩
    ids := fun k => by
      rw [h.nextTimerId, h.queue]
      refine ⟨Nat.one_pos, fun id hid => ?_⟩
      rw [h.callback] at hid
      simp at hid
    owner := fun k id hid => by
      rw [h.queue] at hid
      cases hid }
  thread k := by
    refine ⟨fun hne => absurd (h.running k) hne, fun op rest heq => ?_, fun op rest heq => ?_⟩
    all_goals
      rw [h.running] at heq
      cases heq
  mode x := by
    refine ⟨.connecting, ⟨(h.conn x).1, ?_, h.idleTimers x, ?_, fun id hid => ?_, fun id hid => ?_,
      trivial, ChatMode.unqueued⟩, work_of_running (h.running _)⟩
    · rw [h.connections]
      exact iff_of_false List.not_mem_nil Bool.false_ne_true
    · rw [h.parsers]
      rfl
    all_goals
      rw [h.queue] at hid
      cases hid

theorem Sound.run {s₀ : WebChatServer κ ι} {ls : List (ℕ × ChatStep κ ι)} (h0 : s₀.Fresh)
    (h : Run Step s₀ ls s) : s.Sound fun _ => True := by
  refine h.invariant (P := fun t => t.Sound fun _ => True) (h0.sound _) ?_
  rintro t l _ ht ⟨hl, rfl⟩
  exact ht.exec hl fun _ _ _ => trivial

/-! ## The tables and the timers -/

/-- Reported up, and not yet down. -/
def Up (s : WebChatServer κ ι) (x : ι) : Prop :=
  .connectionCallback .kConnected ∈ (s.conn x).trace ∧
    .connectionCallback .kDisconnected ∉ (s.conn x).trace

/-- `onConnection` of `x` is running. -/
def InOnConnection (s : WebChatServer κ ι) (x : ι) : Prop :=
  .updateParsers x ∈ s.threads.running (s.loop x)

/-- An active timer of loop `k`, by its callback. -/
def Active (s : WebChatServer κ ι) (k : κ) (cb : ChatTimer ι) (id : TimerId) : Prop :=
  id ∈ (s.queue k).activeTimers ∧ s.callback k id = some cb

omit [DecidableEq κ] in
theorem mem_work {op : ChatOp ι} (hduty : op.duty x = true) :
    op ∈ s.work x ↔ op ∈ s.threads.running (s.loop x) := by
  rw [work, List.mem_filter]
  exact and_iff_left hduty

omit [DecidableEq κ] [LinearOrder ι] in
theorem Base.up_iff (h : s.Base) : s.Up x ↔ (s.conn x).Open := by
  have hn := h.notified x
  constructor
  · rintro ⟨hup, hdown⟩
    rw [← TcpConnection.mem_callbacks] at hup hdown
    obtain hopen | hs := open_or_down fun hs => by
      rw [(hn.connecting hs).2.2] at hup
      cases hup
    · exact hopen
    · exact absurd (hn.down hs).2 hdown
  · intro hopen
    obtain ⟨-, hup, hdown⟩ := hn.up hopen
    rw [TcpConnection.mem_callbacks] at hup hdown
    exact ⟨hup, hdown⟩

omit [DecidableEq κ] [LinearOrder ι] in
/-- A connection that is reported down is down. -/
theorem Base.down_of_mem (h : s.Base)
    (hmem : .connectionCallback .kDisconnected ∈ (s.conn x).trace) :
    (s.conn x).state = .kDisconnected := by
  have hn := h.notified x
  rw [← TcpConnection.mem_callbacks] at hmem
  obtain hopen | hs := open_or_down fun hs => by
    rw [(hn.connecting hs).2.2] at hmem
    cases hmem
  · exact absurd hmem (hn.up hopen).2.2
  · exact hs

omit [LinearOrder ι] in
/-- Outside `onConnection` a connection is entered when it is open. -/
theorem entered {m : ChatMode} {w : List (ChatOp ι)} (hallows : m.Allows L x w)
    (hw : .updateParsers x ∉ w) :
    m.hasParser = m.entry.isSome ∧
      (m.entry.isSome = true ↔ m.state = .kConnected ∨ m.state = .kDisconnecting) ∧
      (m.state = .kDisconnected → m = .gone) := by
  cases m with
  -- within `onConnection`
  | arriving | entering i e | leaving i f | clearing i f =>
    obtain rfl := hallows
    simp at hw
  | greeting | forgetting => obtain rfl | rfl := hallows <;> simp at hw
  | _ => simp [ChatMode.hasParser, ChatMode.entry, ChatMode.state]

omit [DecidableEq κ] in
theorem Sound.tables (h : s.Sound L) (hx : ¬s.InOnConnection x) :
    (x ∈ s.connections ↔ s.Up x) ∧ ((s.idleTimers x).isSome = true ↔ s.Up x) ∧
      ((s.parsers x).isSome = true ↔ s.Up x) := by
  obtain ⟨m, hat, hallows⟩ := h.mode x
  obtain ⟨hparser, hentry, -⟩ := entered hallows fun hw => hx ((mem_work (by simp [ChatOp.duty])).mp hw)
  rw [h.base.up_iff, TcpConnection.Open, hat.state, ← hentry]
  refine ⟨hat.listed, ?_, ?_⟩
  · rw [hat.entry]
  · rw [hat.parser, hparser]

omit [DecidableEq κ] in
theorem Sound.fact (h : s.Sound L) (cb : ChatTimer ι) : ∃ fact, s.Fact cb fact := by
  obtain ⟨m, hat, -⟩ := h.mode cb.conn
  cases cb with
  | handleIdleTimeout x => exact ⟨_, hat.idleTimer⟩
  | handleForceCloseTimeout x => exact ⟨_, hat.forceCloseTimer⟩

omit [DecidableEq κ] [LinearOrder ι] in
/-- The active timers with a callback are in the queue of the connection's loop. -/
theorem Base.loop_of_active {cb : ChatTimer ι} {id : TimerId} (h : s.Base)
    (hid : s.Active k cb id) : s.loop cb.conn = k := by
  obtain ⟨cb', hcb', hloop⟩ := h.owner k id hid.1
  obtain rfl := Option.some.inj (hcb'.symm.trans hid.2)
  exact hloop

omit [DecidableEq κ] in
theorem Sound.unique (h : s.Sound L) {cb : ChatTimer ι} {j : κ} {id id' : TimerId}
    (hid : s.Active k cb id) (hid' : s.Active j cb id') : k = j ∧ id = id' := by
  obtain rfl := h.base.loop_of_active hid
  obtain rfl := h.base.loop_of_active hid'
  obtain ⟨fact, hf⟩ := h.fact cb
  exact ⟨rfl, TimerQueue.Holds.unique hf hid.1 hid.2 hid'.1 hid'.2⟩

omit [DecidableEq κ] in
theorem Sound.none_of_down (h : s.Sound L) {cb : ChatTimer ι}
    (hdown : .connectionCallback .kDisconnected ∈ (s.conn cb.conn).trace)
    (hx : ¬s.InOnConnection cb.conn) (id : TimerId) : ¬s.Active k cb id := by
  intro hid
  obtain rfl := h.base.loop_of_active hid
  obtain ⟨m, hat, hallows⟩ := h.mode cb.conn
  obtain ⟨-, -, hgone⟩ := entered hallows fun hw => hx ((mem_work (by simp [ChatOp.duty])).mp hw)
  obtain rfl := hgone (hat.state.symm.trans (h.base.down_of_mem hdown))
  cases cb with
  | handleIdleTimeout x => exact hat.idleTimer id hid.1 hid.2
  | handleForceCloseTimeout x => exact hat.forceCloseTimer id hid.1 hid.2

omit [LinearOrder ι] in
/-- `handleIdleTimeout` of a connected connection is on time. -/
theorem eq_due {m : ChatMode} {w : List (ChatOp ι)} {op : ChatOp ι} (hallows : m.Allows L x w)
    (hop : op = .handleIdleTimeout x ∨ op = .startForceCloseTimer x) (hmem : op ∈ w)
    (hs : m.state = .kConnected) : ∃ i, m = .due i := by
  cases m with
  | due i => exact ⟨i, rfl⟩
  | arriving | entering i e | active i e =>
    obtain rfl := hallows
    obtain rfl | rfl := hop <;> simp at hmem
  | greeting =>
    obtain rfl | rfl := hallows <;> obtain rfl | rfl := hop <;> simp at hmem
  | fresh i e =>
    obtain rfl | rfl | rfl := hallows <;> obtain rfl | rfl := hop <;> simp at hmem
  | _ => cases hs

omit [DecidableEq κ] in
theorem Sound.in_time (h : s.Sound L) {op : ChatOp ι}
    (hop : op = .handleIdleTimeout x ∨ op = .startForceCloseTimer x)
    (hmem : op ∈ s.threads.running k) (hs : (s.conn x).state = .kConnected) :
    s.lastActive x + 15 * kMicrosecondsPerSecond ≤ s.clock := by
  have howner : op.owner = some x := by obtain rfl | rfl := hop <;> rfl
  have hduty : op.duty x = true := by obtain rfl | rfl := hop <;> simp [ChatOp.duty]
  obtain ⟨rfl, -⟩ := h.base.home k op x (List.mem_append_left _ hmem) howner
  obtain ⟨m, hat, hallows⟩ := h.mode x
  obtain ⟨i, rfl⟩ := eq_due hallows hop ((mem_work hduty).mpr hmem) (hat.state.symm.trans hs)
  exact hat.inTime

/-- **The bookkeeping of the server**, after any steps of its loops. -/
theorem bookkeeping {s₀ : WebChatServer κ ι} {ls : List (ℕ × ChatStep κ ι)} (h0 : s₀.Fresh)
    (h : Run Step s₀ ls s) :
    (∀ x, ¬s.InOnConnection x →
      (x ∈ s.connections ↔ s.Up x) ∧ ((s.idleTimers x).isSome = true ↔ s.Up x) ∧
        ((s.parsers x).isSome = true ↔ s.Up x)) ∧
    (∀ cb k j id id', s.Active k cb id → s.Active j cb id' → k = j ∧ id = id') ∧
    (∀ x, .connectionCallback .kDisconnected ∈ (s.conn x).trace → ¬s.InOnConnection x →
      ∀ cb k id, cb.conn = x → ¬s.Active k cb id) ∧
    ∀ x k, .handleIdleTimeout x ∈ s.threads.running k ∨ .startForceCloseTimer x ∈ s.threads.running k →
      (s.conn x).state = .kConnected →
        s.lastActive x + 15 * kMicrosecondsPerSecond ≤ s.clock := by
  have hsound := Sound.run h0 h
  refine ⟨fun x hx => hsound.tables hx, fun cb k j id id' => hsound.unique, ?_, ?_⟩
  · rintro x hdown hx cb k id rfl
    exact hsound.none_of_down hdown hx id
  · rintro x k (hmem | hmem) hs
    · exact hsound.in_time (.inl rfl) hmem hs
    · exact hsound.in_time (.inr rfl) hmem hs

/-- A server with one loop, before its first connection. -/
def oneLoop : WebChatServer ℕ ℕ where
  loop _ := 0
  peer _ := []
  ptrLess _ a b := decide (a < b)
  conn _ := { connectionCallback := true, messageCallback := true, closeCallback := true }

theorem fresh_oneLoop : oneLoop.Fresh :=
  ⟨fun _ => ⟨rfl, rfl, rfl, rfl⟩, rfl, rfl, fun _ => rfl, fun _ => rfl, fun _ => rfl, fun _ => rfl,
    fun _ _ => rfl, fun _ => rfl, fun _ => rfl, by decide, fun _ => rfl⟩

/-- The idle timer of a connection that says nothing, just before its `shutdown`. -/
theorem bookkeeping_silent :
    let s := [(5, .connectEstablished 3), (6, .perform 0 (.upTo 0)), (7, .perform 0 (.upTo 0)),
      (8, .perform 0 (.upTo 0)), (9, .perform 0 (.upTo 0)), (15000020, .readTimers 0 .beginRead),
      (15000021, .readTimers 0 .turn), (15000022, .perform 0 (.upTo 0))].foldl exec oneLoop
    (∀ x, ¬s.InOnConnection x →
      (x ∈ s.connections ↔ s.Up x) ∧ ((s.idleTimers x).isSome = true ↔ s.Up x) ∧
        ((s.parsers x).isSome = true ↔ s.Up x)) ∧
    (∀ cb k j id id', s.Active k cb id → s.Active j cb id' → k = j ∧ id = id') ∧
    (∀ x, .connectionCallback .kDisconnected ∈ (s.conn x).trace → ¬s.InOnConnection x →
      ∀ cb k id, cb.conn = x → ¬s.Active k cb id) ∧
    s.lastActive 3 + 15 * kMicrosecondsPerSecond ≤ s.clock := by
  intro s
  have hrun : Run Step oneLoop [(5, .connectEstablished 3), (6, .perform 0 (.upTo 0)),
      (7, .perform 0 (.upTo 0)), (8, .perform 0 (.upTo 0)), (9, .perform 0 (.upTo 0)),
      (15000020, .readTimers 0 .beginRead), (15000021, .readTimers 0 .turn),
      (15000022, .perform 0 (.upTo 0))] s :=
    Run.of_allowed (by decide +kernel)
  obtain ⟨htables, hunique, hdown, htime⟩ := bookkeeping fresh_oneLoop hrun
  exact ⟨htables, hunique, hdown, htime 3 0 (.inr (by decide +kernel)) (by decide +kernel)⟩

end WebChatServer

end AegisNet
