import AegisNet.WebChatServer.Modes

/-!
# The statements of the server

Every statement finds its connection in a mode in which it belongs, and leaves it in the next one.
There is one lemma for each statement; those of the callbacks go through the modes of their
connection, those of handlers and functors execute callbacks or concern no connection.

## Main definitions

- `WebChatServer.Performing` — the server while a thread makes a statement

## Main results

- `WebChatServer.Performing.sound` — the invariant, when the connections of a statement are done
- `WebChatServer.Performing.close`, `WebChatServer.Performing.message` — what calls the callbacks
-/

namespace AegisNet

namespace WebChatServer

variable {κ ι : Type*} [DecidableEq κ] [LinearOrder ι]

/-- The thread of `k` is to make the statement `op`, which is off its list. -/
structure Performing (s : WebChatServer κ ι) (L : ι → Prop) (k : κ) (op : ChatOp ι) : Prop where
  acts : ∀ C, s.Acts s k C
  thread : ∀ j, j ≠ k → s.ThreadOk j
  mode : ∀ y, op ≠ .runBound y .forceCloseInLoop →
    ∃ m : ChatMode, s.At y m ∧ m.Allows L y ((if op.duty y then [op] else []) ++ s.work y)
  home : ∀ y, op.owner = some y → s.loop y = k ∧ (s.conn y).state ≠ .kConnecting

theorem work_advance {s : WebChatServer κ ι} {k : κ} {op : ChatOp ι} {rest : List (ChatOp ι)}
    (hrun : s.threads.running k = op :: rest)
    (hhome : ∀ y, op.owner = some y → s.loop y = k) (y : ι) :
    s.work y = (if op.duty y then [op] else []) ++ (s.advance k rest).work y := by
  show List.filter _ _ = _ ++ List.filter _ (Function.update s.threads.running k rest (s.loop y))
  by_cases hy : s.loop y = k
  · rw [hy, Function.update_self, hrun, List.filter_cons]
    split <;> rfl
  · have hduty : op.duty y = false := by
      by_contra hduty
      exact hy (hhome y (ChatOp.owner_of_duty (by simpa using hduty)))
    rw [Function.update_of_ne hy, hduty]
    rfl

omit [LinearOrder ι] in
theorem mem_todo_advance {s : WebChatServer κ ι} {k : κ} {op : ChatOp ι} {rest : List (ChatOp ι)}
    (hrun : s.threads.running k = op :: rest) {j : κ} {o : ChatOp ι} :
    o ∈ s.threads.todo ChatFunctor.body j ↔
      j = k ∧ o = op ∨ o ∈ (s.advance k rest).threads.todo ChatFunctor.body j := by
  by_cases hj : j = k
  · subst hj
    rw [Threads.todo_advance hrun, List.mem_cons]
    simp [advance]
  · rw [advance, Threads.todo_advance_of_ne hj]
    simp [hj]

theorem Sound.performing {s : WebChatServer κ ι} {L : ι → Prop} (h : s.Sound L) {k : κ} {op : ChatOp ι}
    {rest : List (ChatOp ι)} (hrun : s.threads.running k = op :: rest) :
    (s.advance k rest).Performing L k op := by
  have hhome : ∀ y, op.owner = some y → s.loop y = k ∧ (s.conn y).state ≠ .kConnecting :=
    fun y => h.base.home k op y ((mem_todo_advance hrun).mpr (.inl ⟨rfl, rfl⟩))
  have hself : (s.advance k rest).threads.running k = rest := Function.update_self ..
  have hother : ∀ j, j ≠ k → (s.advance k rest).threads.running j = s.threads.running j :=
    fun j hj => Function.update_of_ne hj ..
  have hbase : (s.advance k rest).Base := h.base.threads fun j o y ho _ =>
    .inl ((mem_todo_advance hrun).mpr (.inr ho))
  refine ⟨fun C => .refl hbase ?_ ?_, fun j hj => ?_, fun y hy => ?_, hhome⟩
  · exact (h.thread k).mayCall (by simp [hrun])
  · rw [hself]
    exact (h.thread k).tail op rest hrun
  · obtain ⟨hcall, htail, hhead⟩ := h.thread j
    rw [← hother j hj] at hcall htail hhead
    exact ⟨hcall, htail, hhead⟩
  · obtain ⟨m, hat, hallows⟩ := h.mode y
    refine ⟨m, hat.frame (frame_threads fun hq => ?_) rfl (le_refl _), ?_⟩
    · exact ((mem_todo_advance hrun).mp hq).resolve_left fun heq => hy heq.2.symm
    · rwa [work_advance hrun (fun y hy => (hhome y hy).1)] at hallows

/-- The statement is done, and the connections that it concerns are in their next mode. -/
theorem Performing.sound {s t : WebChatServer κ ι} {k : κ} {op : ChatOp ι} {C L : ι → Prop}
    (h : s.Performing L k op) (hC : ∀ y, C y → s.loop y = k)
    (hother : ∀ y, ¬ C y → op.duty y = false ∧ op ≠ .runBound y .forceCloseInLoop)
    (ha : s.Acts t k C) (hmode : ∀ y, C y → ∃ m : ChatMode, t.At y m ∧ m.Allows L y (t.work y)) :
    t.Sound L := by
  refine ha.sound hC h.thread (fun y hy => ?_) hmode
  obtain ⟨hduty, hne⟩ := hother y hy
  obtain ⟨m, hat, hallows⟩ := h.mode y hne
  rw [hduty] at hallows
  exact ⟨m, hat, hallows⟩

/-- A statement of a callback of connection `x` concerns that connection. -/
theorem Performing.sound_duty {s t : WebChatServer κ ι} {k : κ} {L : ι → Prop} {op : ChatOp ι} {x : ι}
    (h : s.Performing L k op) (hduty : op.duty x = true)
    (hmode : ∀ m w, s.At x m → m.Allows L x (op :: w) → s.work x = w → s.loop x = k →
      s.Acts t k (· = x) ∧ ∃ m' : ChatMode, t.At x m' ∧ m'.Allows L x (t.work x)) : t.Sound L := by
  have howner := ChatOp.owner_of_duty hduty
  have hne : op ≠ .runBound x .forceCloseInLoop := by
    rintro rfl
    cases hduty
  obtain ⟨m, hat, hallows⟩ := h.mode x hne
  rw [hduty] at hallows
  obtain ⟨ha, hmode'⟩ := hmode m _ hat hallows rfl (h.home x howner).1
  refine h.sound (C := (· = x)) (fun y hy => hy ▸ (h.home x howner).1) (fun y hy => ⟨?_, ?_⟩) ha ?_
  · by_contra hy'
    have howner' := ChatOp.owner_of_duty (by simpa using hy')
    exact hy (Option.some.inj (howner'.symm.trans howner))
  · rintro rfl
    cases hduty
  · rintro y rfl
    exact hmode'

/-! ## Statements of the callbacks -/

section Statements

variable {s : WebChatServer κ ι} {L : ι → Prop} {k : κ} {x : ι} {m : ChatMode}

omit [LinearOrder ι] in
theorem At.call (h : s.At x m) (k : κ) (ops : List (ChatOp ι)) : (s.call k ops).At x m :=
  h.frame (frame_threads fun hq => mem_todo_call.mpr (.inr hq)) rfl (le_refl _)

theorem work_call_own {w ops : List (ChatOp ι)} (hx : s.loop x = k) (hw : s.work x = w) :
    (s.call k ops).work x = ops.filter (ChatOp.duty x) ++ w := by
  rw [work_call, if_pos hx, hw]

theorem Acts.call_own {t : WebChatServer κ ι} {ops : List (ChatOp ι)} (h : s.Acts t k (· = x))
    (hx : t.loop x = k ∧ (t.conn x).state ≠ .kConnecting)
    (hops : ∀ o ∈ ops, o.isEntry = false ∧ o.owner = some x) : s.Acts (t.call k ops) k (· = x) := by
  refine h.call fun o ho => ⟨(hops o ho).1, fun y hy => ?_, fun y hy => ?_⟩
  · exact Option.some.inj ((ChatOp.owner_of_duty hy).symm.trans (hops o ho).2)
  · obtain rfl := Option.some.inj (hy.symm.trans (hops o ho).2)
    exact hx

theorem Performing.updateConnections (h : s.Performing L k (.updateConnections x)) :
    (s.updateConnections k x).Sound L := by
  have hx := h.home x rfl
  have ha : s.Acts (s.updateConnections k x) k (· = x) := by
    unfold WebChatServer.updateConnections
    split
    · refine Acts.call_own (Acts.setTimers (C := (· = x)) ((h.acts _).tables (fun y hy => ?_)
        (fun _ _ => rfl) (fun _ _ => rfl) s.mutex) rfl _) hx (by simp [ChatOp.isEntry, ChatOp.owner])
      split
      · exact Iff.rfl
      · simp [hy]
    · refine Acts.call_own (Acts.setTimers (C := (· = x)) ((h.acts _).tables (fun y hy => ?_)
        (fun _ _ => rfl) (fun _ _ => rfl) s.mutex) rfl _) hx (by simp [ChatOp.isEntry, ChatOp.owner])
      simp [hy]
  refine h.sound_duty (x := x) (by simp [ChatOp.duty]) fun m w hat hallows hwork hloop => ⟨ha, ?_⟩
  cases m <;> simp only [ChatMode.Allows, ChatMode.Reading, List.cons.injEq, reduceCtorEq,
    false_and, and_false, or_self, true_and] at hallows
  case arriving =>
    have hs : (s.conn x).state = .kConnected := hat.state
    -- up, and its entry has no timers yet
    rw [WebChatServer.updateConnections, if_pos hs]
    refine ⟨.greeting, At.call (m := .greeting) ?_ _ _, .inl ?_⟩
    · refine ⟨hat.state, iff_of_true ?_ rfl, Function.update_self .., hat.parser, hat.idleTimer,
        hat.forceCloseTimer, trivial, ChatMode.unqueued⟩
      show x ∈ if s.connections.contains x then s.connections else
        s.connections.orderedInsert (· ≤ ·) x
      split
      · next hin => simpa using hin
      · simp
    · refine (work_call_own hloop hwork).trans ?_
      simp [hallows, ChatOp.duty]
  case leaving i f =>
    have hs : (s.conn x).state ≠ .kConnected := by simp [hat.state, ChatMode.state]
    -- down, and the timers of its entry are cancelled next
    have hentry : s.idleTimers x = some ⟨i, f⟩ := hat.entry
    rw [WebChatServer.updateConnections, if_neg hs, hentry]
    refine ⟨.clearing i f, At.call (m := .clearing i f) ?_ _ _, ?_⟩
    · refine ⟨hat.state, iff_of_false ?_ Bool.false_ne_true, Function.update_self .., hat.parser,
        hat.idleTimer, hat.forceCloseTimer, trivial, ChatMode.unqueued⟩
      simp [setTimers]
    · refine (work_call_own hloop hwork).trans ?_
      simp [hallows, ChatOp.duty]

omit [DecidableEq κ] [LinearOrder ι] in
/-- What is known of the ids in an entry. -/
theorem Fact.callback {cb : ChatTimer ι} {id : TimerId} (h : s.Fact cb (.atMost id)) :
    id = 0 ∨ s.callback (s.loop cb.conn) id = some cb :=
  or_iff_not_imp_left.mpr h.1

omit [LinearOrder ι] in
theorem Fact.cancel_other {cb cb' : ChatTimer ι} {fact : TimerFact} {id : TimerId}
    (hf : s.Fact cb fact) (h : s.Base) (hf' : s.Fact cb' (.atMost id)) (hne : cb ≠ cb') :
    (s.cancel cb'.conn id).Fact cb fact := by
  refine hf.cancel h cb'.conn (hf'.callback.imp_right fun heq => ?_)
  rw [heq]
  exact fun heq' => hne (Option.some.inj heq').symm

/-- The two cancels of `onConnection`. -/
theorem Performing.cancelTimers {i f : TimerId} (h : s.Performing L k (.cancelTimers x i f)) :
    ((s.cancel x i).cancel x f).Sound L := by
  have ha := h.acts (· = x)
  refine h.sound_duty (x := x) (by simp [ChatOp.duty]) fun m w hat hallows hwork hloop => ?_
  cases m <;> simp only [ChatMode.Allows, ChatMode.Reading, List.cons.injEq, reduceCtorEq,
    ChatOp.cancelTimers.injEq, false_and, and_false, or_self, or_false, true_and] at hallows
  case greeting =>
    -- the new entry names no timers
    obtain ⟨⟨rfl, rfl⟩, hw⟩ := hallows
    refine ⟨(ha.cancel hloop (.inl rfl)).cancel hloop (.inl rfl), .greeting, hat, .inr ?_⟩
    exact hwork.trans hw
  case clearing i' f' =>
    obtain ⟨⟨rfl, rfl⟩, hw⟩ := hallows
    have hidle : s.Fact (.handleIdleTimeout x) (.atMost i) := hat.idleTimer
    have hforce : s.Fact (.handleForceCloseTimeout x) (.atMost f) := hat.forceCloseTimer
    have ha' : s.Acts (s.cancel x i) k (· = x) :=
      ha.cancel hloop (hidle.callback.imp_right fun hcb => ⟨_, hloop ▸ hcb, rfl⟩)
    have hforce' : (s.cancel x i).Fact (.handleForceCloseTimeout x) (.atMost f) :=
      hforce.cancel_other ha.base hidle (by simp)
    have hidle' : (s.cancel x i).Fact (.handleIdleTimeout x) .absent :=
      hidle.cancel_self ha.base (hloop ▸ ha.mayCall)
    refine ⟨ha'.cancel hloop (hforce'.callback.imp_right fun hcb => ⟨_, hloop ▸ hcb, rfl⟩),
      .forgetting, ⟨hat.state, hat.listed, hat.entry, hat.parser, ?_, ?_, trivial, ChatMode.unqueued⟩,
      .inl (hwork.trans hw)⟩
    · exact hidle'.cancel_other ha'.base hforce' (by simp)
    · exact hforce'.cancel_self ha'.base (hloop ▸ ha'.mayCall)

/-- A connected connection gets a new idle timer. -/
theorem At.refresh (hat : s.At x m) (ha : s.Acts s k (· = x)) (hloop : s.loop x = k) {i : TimerId}
    (hs : m.state = .kConnected) (hentry : m.entry = some ⟨i, 0⟩)
    (hidle : s.Fact (.handleIdleTimeout x) (.atMost i)) (hforce : m.forceCloseTimer = .absent) :
    s.Acts (s.refreshIdleTimer x) k (· = x) ∧ (s.refreshIdleTimer x).work x = s.work x ∧
      ∃ id e, (s.refreshIdleTimer x).At x (if m.hasParser then .fresh id e else .entering id e) := by
  have hcancel : s.Acts (s.cancel x i) k (· = x) :=
    ha.cancel hloop (hidle.callback.imp_right fun hcb => ⟨_, hloop ▸ hcb, rfl⟩)
  have hrun : s.Acts ((s.cancel x i).runAfter (.handleIdleTimeout x)) k (· = x) :=
    hcancel.runAfter hloop rfl
  have hidle' : (s.cancel x i).Fact (.handleIdleTimeout x) .absent :=
    hidle.cancel_self ha.base (hloop ▸ ha.mayCall)
  have hwaits := hidle'.runAfter_self hcancel.base (hloop ▸ hcancel.mayCall)
  have hnone : s.Fact (.handleForceCloseTimeout x) .absent := hforce ▸ hat.forceCloseTimer
  have hforce' : ((s.cancel x i).runAfter (.handleIdleTimeout x)).Fact (.handleForceCloseTimeout x)
      .absent := (hnone.cancel_other ha.base hidle (by simp)).runAfter hcancel.base (by simp)
  -- 15 s from now, unless the sum is cut at the largest time
  have htime : s.lastActive x + 15 * kMicrosecondsPerSecond ≤
      saturatingAdd (15 * kMicrosecondsPerSecond) s.clock ∨
      saturatingAdd (15 * kMicrosecondsPerSecond) s.clock = kInt64Max := by
    unfold saturatingAdd
    split
    · exact .inr rfl
    · exact .inl (Nat.add_le_add_right (ha.base.lastActive x) _)
  rw [WebChatServer.refreshIdleTimer, if_pos (hat.state.trans hs), hat.entry, hentry]
  refine ⟨hrun.setTimers rfl _, rfl, s.nextTimerId (s.loop x),
    saturatingAdd (15 * kMicrosecondsPerSecond) s.clock, ?_⟩
  have hstate : (s.conn x).state = .kConnected := hat.state.trans hs
  have hlisted : x ∈ s.connections := hat.listed.mpr (by rw [hentry]; rfl)
  cases hparser : m.hasParser
  · exact ⟨hstate, iff_of_true hlisted rfl, Function.update_self .., hat.parser.trans hparser, hwaits,
      hforce', htime, ChatMode.unqueued⟩
  · exact ⟨hstate, iff_of_true hlisted rfl, Function.update_self .., hat.parser.trans hparser, hwaits,
      hforce', htime, ChatMode.unqueued⟩

theorem Performing.refreshIdleTimer (h : s.Performing L k (.refreshIdleTimer x)) :
    (s.refreshIdleTimer x).Sound L := by
  have ha := h.acts (· = x)
  refine h.sound_duty (x := x) (by simp [ChatOp.duty]) fun m w hat hallows hwork hloop => ?_
  -- a connection that is not connected is left as it is
  have hnot : m.state ≠ .kConnected → m.Allows L x w →
      s.Acts (s.refreshIdleTimer x) k (· = x) ∧ ∃ m' : ChatMode,
        (s.refreshIdleTimer x).At x m' ∧ m'.Allows L x ((s.refreshIdleTimer x).work x) := by
    intro hs hw
    rw [WebChatServer.refreshIdleTimer, if_neg (hat.state.trans_ne hs), hwork]
    exact ⟨ha, m, hat, hw⟩
  cases m <;> simp only [ChatMode.Allows, ChatMode.Reading, List.cons.injEq, reduceCtorEq,
    false_and, or_self, or_false, false_or, true_and] at hallows
  case greeting =>
    obtain ⟨ha', hwork', id, e, hat'⟩ := hat.refresh ha hloop rfl rfl
      (TimerQueue.Holds.atMost_of_absent hat.idleTimer fun hne => absurd rfl hne) rfl
    exact ⟨ha', .entering id e, hat', hwork'.trans (hwork.trans hallows)⟩
  case active i e₀ =>
    obtain ⟨ha', hwork', id, e, hat'⟩ := hat.refresh ha hloop rfl rfl
      (TimerQueue.Holds.atMost_of_waiting hat.idleTimer) rfl
    exact ⟨ha', .fresh id e, hat', .inl (hwork'.trans (hwork.trans hallows))⟩
  case stale i e | armed i f e | queued i f => exact hnot (by simp [ChatMode.state]) (.inr (.inl hallows))
  case lost i => exact hnot (by simp [ChatMode.state]) ⟨hallows.1, .inr (.inr (.inl hallows.2))⟩
  case forgetting => exact hnot (by simp [ChatMode.state]) (.inr hallows)

theorem Performing.updateParsers (h : s.Performing L k (.updateParsers x)) :
    (s.updateParsers x).Sound L := by
  have ha := h.acts (· = x)
  refine h.sound_duty (x := x) (by simp [ChatOp.duty]) fun m w hat hallows hwork hloop => ?_
  cases m <;> simp only [ChatMode.Allows, ChatMode.Reading, List.cons.injEq, reduceCtorEq,
    false_and, and_false, or_self, false_or, true_and] at hallows
  case entering i e =>
    have hs : (s.conn x).state = .kConnected := hat.state
    rw [WebChatServer.updateParsers, if_pos hs]
    refine ⟨ha.setParser rfl _, .fresh i e, ⟨hs, hat.listed, hat.entry, ?_, hat.idleTimer,
      hat.forceCloseTimer, hat.inTime, ChatMode.unqueued⟩, .inr (.inr (hwork.trans hallows))⟩
    simp [setParser, ChatMode.hasParser]
  case forgetting =>
    have hs : (s.conn x).state ≠ .kConnected := by simp [hat.state, ChatMode.state]
    rw [WebChatServer.updateParsers, if_neg hs]
    refine ⟨ha.setParser rfl _, .gone, ⟨hat.state, hat.listed, hat.entry, ?_, hat.idleTimer,
      hat.forceCloseTimer, trivial, ChatMode.unqueued⟩, hwork.trans hallows⟩
    simp [setParser, ChatMode.hasParser]

/-- Of the replies, only the shutdown matters. -/
theorem filter_replies (peer : Bytes) (requests : List Request) (malformedRequest : Bool) :
    ((replies peer requests malformedRequest).map (ChatOp.ofReply x)).filter (ChatOp.duty x) =
      if malformedRequest then [.shutdown x] else [] := by
  cases malformedRequest with
  | true => simp [replies, ChatOp.ofReply, ChatOp.duty]
  | false =>
    simp only [replies, Bool.false_eq_true, if_false, List.filter_eq_nil_iff, List.mem_map,
      List.mem_flatMap]
    rintro _ ⟨r, ⟨request, -, hr⟩, rfl⟩
    unfold replyTo at hr
    split at hr
    · rw [List.mem_singleton.mp hr]
      exact Bool.false_ne_true
    · split at hr
      · obtain rfl | rfl := List.mem_pair.mp hr <;> exact Bool.false_ne_true
      · cases hr

theorem ofReply_plain (r : Reply) : (ChatOp.ofReply x r).isEntry = false ∧
    (∀ y, (ChatOp.ofReply x r).duty y = true → y = x) ∧
    ∀ y, (ChatOp.ofReply x r).owner = some y → y = x := by
  cases r <;> simp [ChatOp.ofReply, ChatOp.isEntry, ChatOp.duty, ChatOp.owner, eq_comm]

omit [LinearOrder ι] in
/-- `onMessage` drains last. -/
theorem allows_drainRequests {w : List (ChatOp ι)} (h : m.Allows L x (.drainRequests x :: w)) :
    w = [] ∧ m.hasParser = true ∧ m.Allows L x [.shutdown x] ∧ m.Allows L x [] := by
  cases m <;> simp only [ChatMode.Allows, ChatMode.Reading, List.cons.injEq, reduceCtorEq,
    false_and, or_self, or_false, false_or, true_and] at h
  case fresh i e => exact ⟨h, rfl, .inr (.inl rfl), .inr (.inr rfl)⟩
  case stale i e | armed i f e | queued i f =>
    exact ⟨h, rfl, .inr (.inr (.inl rfl)), .inr (.inr (.inr rfl))⟩
  case lost i => exact ⟨h.2, rfl, ⟨h.1, .inr (.inr (.inr (.inl rfl)))⟩,
    ⟨h.1, .inr (.inr (.inr (.inr rfl)))⟩⟩

theorem Performing.drainRequests (h : s.Performing L k (.drainRequests x)) :
    (s.drainRequests k x).Sound L := by
  obtain ⟨hx, hne⟩ := h.home x rfl
  have ha : s.Acts (s.drainRequests k x) k (· = x) := by
    refine Acts.call (Acts.method_quiet ((h.acts (· = x)).setParser rfl _) hx hne
      ⟨rfl, rfl, rfl⟩ rfl) fun o ho => ?_
    obtain ⟨r, -, rfl⟩ := List.mem_map.mp ho
    obtain ⟨hentry, hduty, howner⟩ := ofReply_plain (x := x) r
    refine ⟨hentry, hduty, fun y hy => ?_⟩
    obtain rfl := howner y hy
    exact ⟨hx, by rwa [state_method_self]⟩
  refine h.sound_duty (x := x) (by simp [ChatOp.duty]) fun m w hat hallows hwork hloop => ⟨ha, m, ?_⟩
  obtain ⟨rfl, hparser, hshutdown, hnil⟩ := allows_drainRequests hallows
  unfold WebChatServer.drainRequests
  dsimp only
  generalize drainLoop ((s.parsers x).getD .new) (s.conn x).inputBuffer [] = drained
  have hat' : (s.setParser x (some drained.parser)).At x m :=
    ⟨hat.state, hat.listed, hat.entry, by simp [setParser, hparser], hat.idleTimer,
      hat.forceCloseTimer, hat.inTime, hat.queued⟩
  have hm : ((s.setParser x (some drained.parser)).conn x).Makes
      { (s.setParser x (some drained.parser)).conn x with inputBuffer := drained.buf } [] :=
    ⟨(List.append_nil _).symm, rfl⟩
  refine ⟨(hat'.frame (frame_method hm rfl x) rfl (le_refl _)).call k _, ?_⟩
  have hnil' : (s.setParser x (some drained.parser)).work x = [] := hwork
  rw [work_call, if_pos (by exact hloop), work_method hm, hnil', filter_replies]
  simp only [List.flatMap_nil, List.filter_nil, ite_self, List.append_nil]
  split
  · exact hshutdown
  · exact hnil

/-- The mode after a method of the connection. -/
theorem At.method {m' : ChatMode} {f : TcpConnection → TcpConnection} (h : s.At x m)
    (hs : (f (s.conn x)).state = m'.state) (hentry : m'.entry = m.entry)
    (hparser : m'.hasParser = m.hasParser) (hidle : s.Fact (.handleIdleTimeout x) m'.idleTimer)
    (hforce : s.Fact (.handleForceCloseTimeout x) m'.forceCloseTimer)
    (htime : m'.InTime ((s.method k x f).lastActive x) s.clock)
    (hqueued : m'.isQueued = true →
      .runBound x .forceCloseInLoop ∈ (s.method k x f).threads.todo ChatFunctor.body (s.loop x)) :
    (s.method k x f).At x m' where
  state := state_method_self.trans hs
  listed := by
    rw [hentry]
    exact h.listed
  entry := by
    rw [hentry]
    exact h.entry
  parser := by
    rw [hparser]
    exact h.parser
  idleTimer := hidle
  forceCloseTimer := hforce
  inTime := htime
  queued := hqueued

/-- A method that makes no callbacks. -/
theorem work_method_nil {f : TcpConnection → TcpConnection}
    (hm : (s.conn x).Makes (f (s.conn x)) []) (y : ι) : (s.method k x f).work y = s.work y := by
  rw [work_method hm, List.flatMap_nil, List.filter_nil, ite_self, List.nil_append]

theorem Performing.shutdown (h : s.Performing L k (.shutdown x)) :
    (s.method k x TcpConnection.shutdown).Sound L := by
  have ha := h.acts (· = x)
  obtain ⟨hx, hne⟩ := h.home x rfl
  have hm := TcpConnection.makes_shutdown (s.conn x)
  have hquiet : ∀ {m : ChatMode} {w}, s.At x m → m.state ≠ .kConnected → s.work x = w →
      m.Allows L x w → ∃ m' : ChatMode, (s.method k x TcpConnection.shutdown).At x m' ∧
        m'.Allows L x ((s.method k x TcpConnection.shutdown).work x) := by
    intro m w hat hs hwork hallows
    have hstate := congrArg TcpConnection.state
      (TcpConnection.quiet_shutdown (hat.state.trans_ne hs))
    rw [work_method_nil hm, hwork]
    exact ⟨m, hat.frame (frame_method hm hstate x) rfl (le_refl _), hallows⟩
  refine h.sound_duty (x := x) (by simp [ChatOp.duty]) fun m w hat hallows hwork hloop => ⟨?_, ?_⟩
  · refine ha.method hm rfl hx (ha.base.notified x).shutdown ?_
    by_cases hs : (s.conn x).state = .kConnected
    · simp [TcpConnection.state_shutdown hs]
    · rwa [TcpConnection.quiet_shutdown hs]
  cases m <;> simp only [ChatMode.Allows, ChatMode.Reading, List.cons.injEq, reduceCtorEq,
    false_and, or_self, or_false, false_or, true_and] at hallows
  case fresh i e =>
    have hs : (s.conn x).state = .kConnected := hat.state
    -- `onMessage` got a malformed request
    refine ⟨.stale i e, hat.method (TcpConnection.state_shutdown hs) rfl rfl hat.idleTimer
      hat.forceCloseTimer trivial ChatMode.unqueued, .inr (.inr (.inr ?_))⟩
    rw [work_method_nil hm, hwork, hallows]
  case due i =>
    have hs : (s.conn x).state = .kConnected := hat.state
    -- the idle timer has run out
    refine ⟨.closing i, hat.method (TcpConnection.state_shutdown hs) rfl rfl hat.idleTimer
      hat.forceCloseTimer trivial ChatMode.unqueued, ?_⟩
    rw [work_method_nil hm, hwork, hallows]
    rfl
  case stale i e | armed i f e | queued i f =>
    exact hquiet hat (by simp [ChatMode.state]) hwork (.inr (.inr (.inr hallows)))
  case lost i => exact hquiet hat (by simp [ChatMode.state]) hwork ⟨hallows.1, .inr (.inr (.inr (.inr hallows.2)))⟩

theorem Performing.handleIdleTimeout (h : s.Performing L k (.handleIdleTimeout x)) :
    (s.handleIdleTimeout k x).Sound L := by
  have ha := h.acts (· = x)
  have hx := h.home x rfl
  refine h.sound_duty (x := x) (by simp [ChatOp.duty]) fun m w hat hallows hwork hloop => ?_
  cases m <;> simp only [ChatMode.Allows, ChatMode.Reading, List.cons.injEq, reduceCtorEq,
    false_and, or_self, or_false, true_and] at hallows
  case due i =>
    have hs : (s.conn x).state = .kConnected := hat.state
    rw [WebChatServer.handleIdleTimeout, if_pos hs]
    refine ⟨ha.call_own hx (by simp [ChatOp.isEntry, ChatOp.owner]), .due i, hat.call k _, .inr ?_⟩
    refine (work_call_own hloop hwork).trans ?_
    simp [hallows, ChatOp.duty]
  case lost i =>
    have hs : (s.conn x).state ≠ .kConnected := by simp [hat.state, ChatMode.state]
    -- shut down before, so no force-close timer is started
    rw [WebChatServer.handleIdleTimeout, if_neg hs, hwork]
    exact ⟨ha, .lost i, hat, hallows.1, .inr (.inr (.inr (.inr hallows.2)))⟩

theorem Performing.startForceCloseTimer (h : s.Performing L k (.startForceCloseTimer x)) :
    (s.startForceCloseTimer x).Sound L := by
  have ha := h.acts (· = x)
  refine h.sound_duty (x := x) (by simp [ChatOp.duty]) fun m w hat hallows hwork hloop => ?_
  cases m <;> simp only [ChatMode.Allows, ChatMode.Reading, List.cons.injEq, reduceCtorEq,
    false_and, and_false, or_self, true_and] at hallows
  case closing i =>
    have hentry : s.idleTimers x = some ⟨i, 0⟩ := hat.entry
    have hnone : s.Fact (.handleForceCloseTimeout x) .absent := hat.forceCloseTimer
    have hrun : s.Acts (s.runAfter (.handleForceCloseTimeout x)) k (· = x) := ha.runAfter hloop rfl
    rw [WebChatServer.startForceCloseTimer, hentry]
    refine ⟨hrun.setTimers rfl _,
      .armed i (s.nextTimerId (s.loop x)) (saturatingAdd (15 * kMicrosecondsPerSecond) s.clock),
      ⟨hat.state, ?_, Function.update_self .., hat.parser, ?_, ?_, trivial, ChatMode.unqueued⟩,
      .inr (.inr (.inr (hwork.trans hallows)))⟩
    · exact hat.listed
    · exact hat.idleTimer.runAfter ha.base (by simp)
    · exact hnone.runAfter_self ha.base (hloop ▸ ha.mayCall)

theorem Performing.handleForceCloseTimeout (h : s.Performing L k (.handleForceCloseTimeout x)) :
    (s.handleForceCloseTimeout k x).Sound L := by
  have ha := h.acts (· = x)
  have hx := h.home x rfl
  refine h.sound_duty (x := x) (by simp [ChatOp.duty]) fun m w hat hallows hwork hloop => ?_
  cases m <;> simp only [ChatMode.Allows, ChatMode.Reading, List.cons.injEq, reduceCtorEq,
    false_and, and_false, or_self, true_and] at hallows
  case expired i f =>
    have hentry : s.idleTimers x = some ⟨0, f⟩ := hat.entry
    rw [WebChatServer.handleForceCloseTimeout, hentry]
    refine ⟨Acts.call_own (ha.setTimers rfl _) hx (by simp [ChatOp.isEntry, ChatOp.owner]),
      .forcing i f, At.call (m := .forcing i f) ?_ k _, ?_⟩
    · exact ⟨hat.state, hat.listed, Function.update_self .., hat.parser, hat.idleTimer,
        hat.forceCloseTimer, trivial, ChatMode.unqueued⟩
    · refine (work_call_own hloop hwork).trans ?_
      simp [hallows, ChatOp.duty]

theorem Performing.forceClose (h : s.Performing L k (.forceClose x)) :
    (s.forceClose k x).Sound L := by
  have ha := h.acts (· = x)
  refine h.sound_duty (x := x) (by simp [ChatOp.duty]) fun m w hat hallows hwork hloop => ?_
  cases m <;> simp only [ChatMode.Allows, ChatMode.Reading, List.cons.injEq, reduceCtorEq,
    false_and, and_false, or_self, true_and] at hallows
  case forcing i f =>
    have ho : (s.conn x).Open := .inr hat.state
    have hs : (s.conn x).state ≠ .kDisconnected := ho.ne.1
    have hm := TcpConnection.makes_forceClose (s.conn x)
    have heq : (s.conn x).forceClose =
        ((s.conn x).setState .kDisconnecting).queueIf true .forceCloseInLoop := if_pos ho
    have hstate : (s.conn x).forceClose.state = .kDisconnecting := by
      rw [heq]
      rfl
    rw [WebChatServer.forceClose, if_neg hs]
    refine ⟨ha.method hm rfl hloop (ha.base.notified x).forceClose (by simp [hstate]),
      .queued i f, hat.method hstate rfl rfl hat.idleTimer hat.forceCloseTimer trivial fun _ => ?_,
      .inr (.inr (.inr ?_))⟩
    · refine mem_todo_method.mpr (.inr (.inr ⟨rfl, _, ?_, rfl⟩))
      rw [heq]
      exact List.mem_append_right _ List.mem_cons_self
    · rw [work_method_nil hm, hwork, hallows]

/-! ## Statements of no callback -/

/-- A statement that concerns no connection. -/
theorem Performing.neutral {t : WebChatServer κ ι} {op : ChatOp ι} (h : s.Performing L k op)
    (hduty : ∀ y, op.duty y = false) (hne : ∀ y, op ≠ .runBound y .forceCloseInLoop)
    (ha : s.Acts t k fun _ => False) : t.Sound L :=
  h.sound (C := fun _ => False) (fun _ hc => hc.elim) (fun y _ => ⟨hduty y, hne y⟩) ha
    fun _ hc => hc.elim

theorem Performing.handleWrite {w f : IoResult} (h : s.Performing L k (.handleWrite x w f)) :
    (s.method k x fun c => c.handleWrite w f).Sound L := by
  obtain ⟨hx, hne⟩ := h.home x rfl
  refine h.neutral (fun _ => rfl) (by simp) ((h.acts _).method_quiet hx hne ?_ ?_)
  · exact TcpConnection.quiet_handleWrite _ w f
  · exact TcpConnection.flags_handleWrite _ w f

theorem Performing.sendInLoop {buf : Bytes} (h : s.Performing L k (.sendInLoop x buf))
    (w : IoResult) : (s.method k x fun c => c.sendInLoop buf w).Sound L := by
  obtain ⟨hx, hne⟩ := h.home x rfl
  refine h.neutral (fun _ => rfl) (by simp) ((h.acts _).method_quiet hx hne ?_ ?_)
  · exact TcpConnection.quiet_sendInLoop _ buf w
  · exact TcpConnection.flags_sendInLoop _ buf w

/-- `queueInLoop` of a functor that makes a statement for its own connection. -/
theorem Acts.queueInLoop {t : WebChatServer κ ι} {C : ι → Prop} (h : s.Acts t k C)
    {cb : ChatFunctor ι}
    (hcb : ∀ op ∈ cb.body, ∀ y, op.owner = some y →
      t.loop y = t.loop x ∧ (t.conn y).state ≠ .kConnecting) :
    s.Acts { t with threads := t.threads.queueInLoop (t.loop x) cb } k C := by
  have htodo : (t.threads.queueInLoop (t.loop x) cb).todo ChatFunctor.body = _ :=
    Threads.todo_queueInLoop (t.loop x) cb
  refine h.trans ⟨h.base.threads fun j op y hop hy => ?_, h.mayCall, h.plain, rfl, rfl,
    fun _ _ => ⟨rfl, rfl⟩, fun y _ => ⟨frame_threads fun hq => ?_, rfl⟩⟩
  · rw [htodo] at hop
    by_cases hj : j = t.loop x
    · subst hj
      rw [Function.update_self] at hop
      exact (List.mem_append.mp hop).imp_right fun hop => hcb op hop y hy
    · rw [Function.update_of_ne hj] at hop
      exact .inl hop
  · rw [htodo]
    by_cases hj : t.loop y = t.loop x
    · rw [hj] at hq ⊢
      rw [Function.update_self]
      exact List.mem_append_left _ hq
    · rwa [Function.update_of_ne hj]

theorem Performing.send {buf : Bytes} (h : s.Performing L k (.send x buf)) (w : IoResult) :
    (s.send k x buf w).Sound L := by
  refine h.neutral (fun _ => rfl) (by simp) ?_
  unfold WebChatServer.send
  split
  · next hs =>
    have hne : (s.conn x).state ≠ .kConnecting := by simp [hs]
    split
    · next hx =>
      refine (h.acts _).method_quiet hx hne ?_ ?_
      · exact TcpConnection.quiet_sendInLoop _ buf w
      · exact TcpConnection.flags_sendInLoop _ buf w
    · refine (h.acts _).queueInLoop fun op hop y hy => ?_
      obtain rfl := List.mem_singleton.mp hop
      obtain rfl := Option.some.inj hy
      exact ⟨rfl, hne⟩
  · exact h.acts _

theorem Performing.broadcast {msg : Bytes} (h : s.Performing L k (.broadcast msg)) :
    (s.broadcast k msg).Sound L := by
  refine h.neutral (fun _ => rfl) (by simp) (Acts.call ((h.acts _).tables
    (fun _ _ => Iff.rfl) (fun _ _ => rfl) (fun _ _ => rfl) (some k)) fun o ho => ?_)
  obtain ho | ho := List.mem_append.mp ho
  · obtain ⟨y, -, rfl⟩ := List.mem_map.mp ho
    exact ⟨rfl, (by simp [ChatOp.duty]), by simp [ChatOp.owner]⟩
  · obtain rfl := List.mem_singleton.mp ho
    exact ⟨rfl, (by simp [ChatOp.duty]), by simp [ChatOp.owner]⟩

theorem Performing.unlock (h : s.Performing L k .unlock) :
    { s with mutex := none }.Sound L :=
  h.neutral (fun _ => rfl) (by simp) ((h.acts _).tables (fun _ _ => Iff.rfl)
    (fun _ _ => rfl) (fun _ _ => rfl) none)

/-! ## Handlers and functors -/

/-- A handler or functor starts between passes, with no callback of its loop's connections running. -/
theorem Sound.entry {op : ChatOp ι} {rest : List (ChatOp ι)} (h : s.Sound L)
    (hrun : s.threads.running k = op :: rest) (hop : op.isEntry = true)
    (howner : op.owner = some x) :
    (s.queue k).phase = .idle ∧ (s.advance k rest).work x = [] := by
  obtain ⟨hidle, hduty, -⟩ := (h.thread k).head op rest hrun hop
  have hx : s.loop x = k :=
    (h.base.home k op x ((mem_todo_advance hrun).mpr (.inl ⟨rfl, rfl⟩)) howner).1
  refine ⟨hidle, ?_⟩
  show List.filter _ (Function.update s.threads.running k rest (s.loop x)) = []
  rw [hx, Function.update_self]
  exact List.filter_eq_nil_iff.mpr fun o ho => by simp [hduty x o ho]

omit [DecidableEq κ] [LinearOrder ι] in
theorem Fact.atMost_zero {cb : ChatTimer ι} (h : s.Fact cb .absent) : s.Fact cb (.atMost 0) :=
  TimerQueue.Holds.atMost_of_absent h fun hne => absurd rfl hne

omit [DecidableEq κ] [LinearOrder ι] in
/-- Between passes, the entry of an open connection names the only timers that it can have. -/
theorem At.named (hat : s.At x m) (h : s.Base) (hidle : (s.queue (s.loop x)).phase = .idle)
    (hopen : (s.conn x).Open) (hm : m.Allows L x [] ∨ ∃ i f, m = .forcing i f) :
    m.hasParser = true ∧ ∃ i f, m.entry = some ⟨i, f⟩ ∧
      s.Fact (.handleIdleTimeout x) (.atMost i) ∧
      s.Fact (.handleForceCloseTimeout x) (.atMost f) := by
  have hone := (h.queue (s.loop x)).1
  have habsent : ∀ {cb : ChatTimer ι} {id}, cb.conn = x → s.Fact cb (.spent id) →
      s.Fact cb .absent := by
    rintro cb id rfl hf
    exact TimerQueue.Holds.idle hf hone hidle
  have hi := hat.idleTimer
  have hf := hat.forceCloseTimer
  cases m with
  | fresh i e | stale i e =>
    exact ⟨rfl, i, 0, rfl, TimerQueue.Holds.atMost_of_waiting hi, Fact.atMost_zero hf⟩
  | lost i =>
    exact ⟨rfl, i, 0, rfl, TimerQueue.Holds.atMost_of_absent (habsent rfl hi) fun _ => hi.1,
      Fact.atMost_zero hf⟩
  | armed i f e =>
    exact ⟨rfl, 0, f, rfl, Fact.atMost_zero (habsent rfl hi), TimerQueue.Holds.atMost_of_waiting hf⟩
  | forcing i f | queued i f =>
    exact ⟨rfl, 0, 0, rfl, Fact.atMost_zero (habsent rfl hi), Fact.atMost_zero (habsent rfl hf)⟩
  | connecting => exact absurd hat.state hopen.ne.2
  | gone => exact absurd hat.state hopen.ne.1
  | _ => simp [ChatMode.Allows] at hm

/-- The end of a connection, whose `onConnection` is executed next. -/
theorem Performing.close {op : ChatOp ι} {f : TcpConnection → TcpConnection} {c : TcpConnection}
    (h : s.Performing L k op) (howner : op.owner = some x) (hduty : ∀ y, op.duty y = false)
    (hidle : (s.queue k).phase = .idle) (hwork : s.work x = []) (hat : s.At x m)
    (hm : m.Allows L x [] ∨ ∃ i f, m = .forcing i f) (hopen : (s.conn x).Open)
    (hq : (s.conn x).Quiet c) (hflags : c.flags = (s.conn x).flags)
    (hf : f (s.conn x) = c.handleClose) : (s.method k x f).Sound L := by
  obtain ⟨hx, hne⟩ := h.home x howner
  have ha := h.acts (· = x)
  obtain ⟨hparser, i, j, hentry, hi, hj⟩ := hat.named ha.base (hx ▸ hidle) hopen hm
  have hopen' : c.Open := by rwa [TcpConnection.Open, hq.state]
  have hn := (ha.base.notified x).quiet hne hq hflags
  have hclose := TcpConnection.makes_handleClose hopen' hn.connectionCallback
  have hmakes : (s.conn x).Makes (f (s.conn x)) (.connectionCallback .kDisconnected ::
      if c.closeCallback then [.closeCallback] else []) := by
    rw [hf]
    exact ⟨hclose.callbacks.trans (by rw [hq.callbacks_eq]),
      hclose.connectionCallback.trans (congrArg Prod.fst hflags)⟩
  have hs : (f (s.conn x)).state = .kDisconnected := by
    rw [hf]
    exact TcpConnection.state_handleClose hopen'
  -- the close callback is the one of `TcpServer`
  have hsilent : (if c.closeCallback then [Effect.closeCallback] else []).flatMap
      (ChatOp.ofCallback x) = [] := by
    cases c.closeCallback <;> rfl
  refine h.sound (C := (· = x)) (fun y hy => hy ▸ hx) (fun y hy => ⟨hduty y, ?_⟩)
    (ha.method hmakes rfl hx (hf ▸ hn.handleClose hopen') (by simp [hs])) ?_
  · rintro rfl
    exact hy (Option.some.inj howner)
  · rintro y rfl
    refine ⟨.leaving i j, hat.method hs hentry.symm hparser.symm hi hj trivial ChatMode.unqueued, ?_⟩
    rw [work_method hmakes, if_pos hx, hwork, List.flatMap_cons, hsilent]
    simp [ChatOp.ofCallback, ChatOp.duty, ChatMode.Allows]

/-- A connection that was established is open or down. -/
theorem open_or_down {c : TcpConnection} (h : c.state ≠ .kConnecting) :
    c.Open ∨ c.state = .kDisconnected := by
  cases hs : c.state with
  | kDisconnected => exact .inr rfl
  | kConnecting => exact absurd hs h
  | kConnected => exact .inl (.inl hs)
  | kDisconnecting => exact .inl (.inr hs)

theorem Performing.handleClose (h : s.Performing L k (.handleClose x))
    (hidle : (s.queue k).phase = .idle) (hwork : s.work x = []) :
    (s.method k x TcpConnection.handleClose).Sound L := by
  obtain ⟨hx, hne⟩ := h.home x rfl
  obtain hopen | hdown := open_or_down hne
  · obtain ⟨m, hat, hallows⟩ := h.mode x (by simp)
    rw [hwork] at hallows
    exact h.close rfl (fun _ => rfl) hidle hwork hat (.inl hallows) hopen (.refl _) rfl rfl
  · have heq : (s.conn x).handleClose = s.conn x := if_pos hdown
    refine h.neutral (fun _ => rfl) (by simp) ((h.acts _).method_quiet hx hne ?_ ?_)
    · rw [heq]
      exact .refl _
    · rw [heq]

theorem Performing.forceCloseInLoop (h : s.Performing L k (.runBound x .forceCloseInLoop))
    (hidle : (s.queue k).phase = .idle) (hwork : s.work x = []) (hat : s.At x m)
    (hm : m.Allows L x [] ∨ ∃ i f, m = .forcing i f) :
    (s.method k x TcpConnection.forceCloseInLoop).Sound L := by
  obtain ⟨hx, hne⟩ := h.home x rfl
  obtain hopen | hdown := open_or_down hne
  · exact h.close rfl (fun _ => rfl) hidle hwork hat hm hopen (.refl _) rfl (if_pos hopen)
  · have heq : (s.conn x).forceCloseInLoop = s.conn x := if_neg fun ho => absurd hdown (Or.elim ho
      (fun hs => by simp [hs]) fun hs => by simp [hs])
    have hquiet : (s.conn x).Quiet (s.conn x).forceCloseInLoop := by
      rw [heq]
      exact .refl _
    have hflags : (s.conn x).forceCloseInLoop.flags = (s.conn x).flags := by rw [heq]
    have hallows : m.Allows L x [] := hm.resolve_right fun ⟨i, f, hm⟩ => by
      have hs := hat.state
      rw [hm, hdown] at hs
      cases hs
    refine h.sound (C := (· = x)) (fun y hy => hy ▸ hx) (fun y hy => ⟨rfl, ?_⟩)
      ((h.acts _).method_quiet hx hne hquiet hflags) ?_
    · rintro ⟨⟩
      exact hy rfl
    · rintro y rfl
      have hmakes := hquiet.makes hflags
      refine ⟨m, hat.frame (frame_method hmakes hquiet.state y) rfl (le_refl _), ?_⟩
      rwa [work_method_nil hmakes, hwork]

/-- A functor of the connection that does not close it. -/
theorem Performing.runBound {g : Functor} (h : s.Performing L k (.runBound x g))
    (hg : g ≠ .forceCloseInLoop) : (s.method k x fun c => c.runFunctor g).Sound L := by
  obtain ⟨hx, hne⟩ := h.home x rfl
  refine h.neutral (fun _ => rfl) (fun y heq => hg ?_) ((h.acts _).method_quiet hx hne ?_ ?_)
  · cases heq
    rfl
  · cases g with
    | shutdownInLoop => exact TcpConnection.quiet_shutdownInLoop _
    | forceCloseInLoop => exact absurd rfl hg
    | _ => exact .refl _
  · cases g with
    | shutdownInLoop => exact TcpConnection.flags_shutdownInLoop _
    | forceCloseInLoop => exact absurd rfl hg
    | _ => rfl

/-- `onMessage` is executed next. -/
theorem Performing.message {op : ChatOp ι} {f : TcpConnection → TcpConnection}
    (h : s.Performing L k op) (howner : op.owner = some x) (hduty : ∀ y, op.duty y = false)
    (hne : op ≠ .runBound x .forceCloseInLoop) (hwork : s.work x = []) (hopen : (s.conn x).Open)
    (hmakes : (s.conn x).Makes (f (s.conn x)) [.messageCallback])
    (hs : (f (s.conn x)).state = (s.conn x).state)
    (hinput : (f (s.conn x)).channel.events.input = (s.conn x).channel.events.input) :
    (s.method k x f).Sound L := by
  obtain ⟨hx, hne'⟩ := h.home x howner
  have ha := h.acts (· = x)
  obtain ⟨m, hat, hallows⟩ := h.mode x hne
  rw [hduty, hwork] at hallows
  have hn := (ha.base.notified x).stays_up hmakes hopen (by rwa [TcpConnection.Open, hs]) hinput
    (by simp)
  refine h.sound (C := (· = x)) (fun y hy => hy ▸ hx) (fun y hy => ⟨hduty y, ?_⟩)
    (ha.method hmakes rfl hx hn (by rwa [hs])) ?_
  · rintro rfl
    exact hy (Option.some.inj howner)
  rintro y rfl
  have hw : (s.method k y f).work y = [.refreshIdleTimer y, .drainRequests y] := by
    rw [work_method hmakes, if_pos hx, hwork]
    simp [ChatOp.ofCallback, ChatOp.duty]
  have hs' := hs.trans hat.state
  have hkept : m.isQueued = true → .runBound y .forceCloseInLoop ∈
      (s.method k y f).threads.todo ChatFunctor.body (s.loop y) :=
    fun hq => mem_todo_method.mpr (.inr (.inl (hat.queued hq)))
  rw [hw]
  cases m with
  | fresh i e =>
    -- connected, so the refresh will replace the idle timer
    exact ⟨.active i e, hat.method hs' rfl rfl hat.idleTimer hat.forceCloseTimer trivial ChatMode.unqueued, rfl⟩
  | stale i e | armed i f e | queued i f =>
    -- disconnecting, so the refresh will do nothing
    exact ⟨_, hat.method hs' rfl rfl hat.idleTimer hat.forceCloseTimer trivial hkept, .inl rfl⟩
  | lost i =>
    exact ⟨_, hat.method hs' rfl rfl hat.idleTimer hat.forceCloseTimer trivial hkept, hallows.1,
      .inr (.inl rfl)⟩
  | connecting => exact absurd hat.state hopen.ne.2
  | gone => exact absurd hat.state hopen.ne.1
  | _ => simp [ChatMode.Allows] at hallows

theorem Performing.handleRead {readv : Option Bytes} (h : s.Performing L k (.handleRead x readv))
    (hidle : (s.queue k).phase = .idle) (hwork : s.work x = []) (hopen : (s.conn x).Open) :
    (s.method k x fun c => c.handleRead readv []).Sound L := by
  obtain ⟨hx, hne⟩ := h.home x rfl
  cases readv with
  | none =>
    exact h.neutral (fun _ => rfl) (by simp) ((h.acts _).method_quiet hx hne (.refl _) rfl)
  | some data =>
    have hquiet : (s.conn x).Quiet
        { s.conn x with inputBuffer := (s.conn x).inputBuffer.readFd data } := ⟨rfl, rfl, rfl⟩
    by_cases hlen : 0 < data.length
    · by_cases hcb : (s.conn x).messageCallback = true
      · have heq : (s.conn x).handleRead (some data) [] =
            { s.conn x with inputBuffer := (s.conn x).inputBuffer.readFd data }.emit
              .messageCallback := by
          simp only [TcpConnection.handleRead]
          rw [if_pos hlen, if_pos hcb]
          rfl
        refine h.message rfl (fun _ => rfl) (by simp) hwork hopen ⟨?_, ?_⟩ ?_ ?_
        all_goals rw [heq]
        · exact callbacks_append ..
        all_goals rfl
      · have heq : (s.conn x).handleRead (some data) [] =
            { s.conn x with inputBuffer := (s.conn x).inputBuffer.readFd data } := by
          simp only [TcpConnection.handleRead]
          rw [if_pos hlen, if_neg hcb]
        refine h.neutral (fun _ => rfl) (by simp) ((h.acts _).method_quiet hx hne ?_ ?_)
        · rw [heq]
          exact hquiet
        · rw [heq]
          rfl
    · -- the peer has closed its side
      obtain ⟨m, hat, hallows⟩ := h.mode x (by simp)
      rw [hwork] at hallows
      refine h.close rfl (fun _ => rfl) hidle hwork hat (.inl hallows) hopen hquiet rfl ?_
      simp only [TcpConnection.handleRead]
      rw [if_neg hlen]

end Statements

end WebChatServer

end AegisNet
