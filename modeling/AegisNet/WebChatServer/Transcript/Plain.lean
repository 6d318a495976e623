import AegisNet.WebChatServer.Transcript

/-!
# Statements without input and output

Most statements of the server neither read nor write: they keep the tables and the timers, or they
move a connection on towards its end. The transcript stays as it is.

## Main results

- `WebChatServer.Sound.moves` — what these statements do
-/

namespace AegisNet

namespace WebChatServer

variable {κ ι : Type*} [DecidableEq κ] [LinearOrder ι] {s t : WebChatServer κ ι} {L : ι → Prop}
  {k : κ} {x y : ι} {op : ChatOp ι} {rest : List (ChatOp ι)}

theorem eq_of_serves (h : op.serves y = true) (howner : op.owner = some x) : x = y := by
  cases op <;> simp_all [ChatOp.serves, ChatOp.owner]

omit [LinearOrder ι] in
theorem running_advance (rest : List (ChatOp ι)) : (s.advance k rest).threads.running k = rest :=
  Function.update_self ..

theorem running_method_self {f : TcpConnection → TcpConnection} {es : List Effect}
    (hm : (s.conn x).Makes (f (s.conn x)) es) :
    (s.method k x f).threads.running k =
      es.flatMap (ChatOp.ofCallback x) ++ s.threads.running k := by
  rw [running_method, Function.update_self, hm.newCallbacks]

/-- Where neither the connections nor the threads change. -/
theorem Moves.of_eq (hrun : s.threads.running k = op :: rest) (hloop : t.loop = s.loop)
    (hpeer : t.peer = s.peer) (hconn : t.conn = s.conn) (hparsers : t.parsers = s.parsers)
    (hthreads : t.threads = (s.advance k rest).threads)
    (hnodup : s.connections.Nodup → t.connections.Nodup)
    (hplain : op.isSpeech = false ∧ op.isDrain = false) (hnot : ∀ x, op ≠ .shutdown x) :
    s.Moves t k op rest [] where
  glides := (Glides.advance hrun).trans
    (.of_eq (s := s.advance k rest) hloop hpeer hconn hparsers hthreads k)
  before := hrun
  running := by
    rw [hthreads]
    exact running_advance rest
  nodup := hnodup
  plain := hplain
  shutdown x hx := absurd hx (hnot x)
  added _ ho := absurd ho List.not_mem_nil

/-- The statements of `op` that come next. -/
theorem Moves.call (hm : s.Moves t k op rest []) {ops : List (ChatOp ι)}
    (hops : ∀ o ∈ ops, o.isSpeech = false ∧ o.isInput = false ∧ o.isEntry = false ∧
      (∀ buf, o ≠ .sendInLoop x buf) ∧ o.owner = some x ∧ (∀ y, o ≠ .updateConnections y) ∧
      ∀ y, op.serves y = true → o.serves y = true ∧ o.reply y = none) :
    s.Moves (t.call k ops) k op rest ops where
  glides := hm.glides.trans <| .call fun y buf hmem => by
    obtain ⟨-, -, -, hne, howner, -⟩ := hops _ hmem
    obtain rfl := Option.some.inj howner
    exact hne buf rfl
  before := hm.before
  running := by
    show Function.update t.threads.running k (ops ++ t.threads.running k) k = _
    rw [Function.update_self, hm.running, List.nil_append]
  nodup := hm.nodup
  plain := hm.plain
  shutdown := hm.shutdown
  added o ho := by
    obtain ⟨hspeech, hinput, hentry, -, -, hne, hserves⟩ := hops o ho
    exact ⟨hspeech, hinput, hentry, hserves, fun y hy => absurd hy (hne y)⟩

/-- A method that makes no callbacks. -/
theorem Moves.method_quiet {f : TcpConnection → TcpConnection}
    (hrun : s.threads.running k = op :: rest) (hm : (s.conn x).Makes (f (s.conn x)) [])
    (hc : (s.conn x).Carries (f (s.conn x)))
    (hrank : (s.conn x).state.rank ≤ (f (s.conn x)).state.rank)
    (hplain : op.isSpeech = false ∧ op.isDrain = false)
    (hshutdown : ∀ y, op = .shutdown y → y = x ∧ 1 < (f (s.conn x)).state.rank) :
    s.Moves ((s.advance k rest).method k x f) k op rest [] where
  glides := (Glides.advance hrun).trans (.method hc hrank)
  before := hrun
  running := by
    rw [running_method_self (s := s.advance k rest) hm, running_advance]
    rfl
  nodup := id
  plain := hplain
  shutdown y hy := by
    obtain ⟨rfl, hr⟩ := hshutdown y hy
    rwa [state_method_self]
  added _ ho := absurd ho List.not_mem_nil

/-- A method that closes the connection, so that `onConnection` comes next. -/
theorem Moves.method_close {f : TcpConnection → TcpConnection} {b : Bool}
    (hrun : s.threads.running k = op :: rest) (howner : op.owner = some x)
    (hm : (s.conn x).Makes (f (s.conn x))
      (.connectionCallback .kDisconnected :: if b then [.closeCallback] else []))
    (hc : (s.conn x).Carries (f (s.conn x))) (hs : (f (s.conn x)).state = .kDisconnected)
    (hplain : op.isSpeech = false ∧ op.isDrain = false) (hnot : ∀ y, op ≠ .shutdown y) :
    s.Moves ((s.advance k rest).method k x f) k op rest
      [.updateConnections x, .refreshIdleTimer x, .updateParsers x] where
  glides := (Glides.advance hrun).trans <| .method hc <| by
    rw [show (f ((s.advance k rest).conn x)).state = .kDisconnected from hs]
    exact StateE.rank_le_three _
  before := hrun
  running := by
    rw [running_method_self (s := s.advance k rest) hm, running_advance]
    cases b <;> rfl
  nodup := id
  plain := hplain
  shutdown y hy := absurd hy (hnot y)
  added o ho := by
    have hserves : ∀ y, op.serves y = true → x = y := fun y hy => eq_of_serves hy howner
    simp only [List.mem_cons, List.not_mem_nil, or_false] at ho
    obtain rfl | rfl | rfl := ho
    all_goals refine ⟨rfl, rfl, rfl, fun y hy => ?_, fun y hy => ?_⟩
    · obtain rfl := hserves y hy
      simp [ChatOp.serves, ChatOp.owner, ChatOp.reply]
    · obtain rfl := ChatOp.updateConnections.inj hy
      exact state_method_self.trans hs
    · obtain rfl := hserves y hy
      simp [ChatOp.serves, ChatOp.owner, ChatOp.reply]
    · cases hy
    · obtain rfl := hserves y hy
      simp [ChatOp.serves, ChatOp.owner, ChatOp.reply]
    · cases hy

/-- `handleClose`, by whichever method. -/
theorem Sound.moves_close (h : s.Sound L) {f : TcpConnection → TcpConnection}
    {c : TcpConnection} (hrun : s.threads.running k = op :: rest) (howner : op.owner = some x)
    (hf : f (s.conn x) = c.handleClose) (hc : c.face.1 = (s.conn x).messageStream ∧
      c.face.2.2 = (s.conn x).messageCallback) (hstate : c.state = (s.conn x).state)
    (htrace : c.trace = (s.conn x).trace) (hflags : c.flags = (s.conn x).flags)
    (hopen : (s.conn x).Open) (hplain : op.isSpeech = false ∧ op.isDrain = false)
    (hnot : ∀ y, op ≠ .shutdown y) :
    s.Moves ((s.advance k rest).method k x f) k op rest
      [.updateConnections x, .refreshIdleTimer x, .updateParsers x] := by
  have hopen' : c.Open := by rwa [TcpConnection.Open, hstate]
  have hcb : c.connectionCallback = true :=
    (congrArg Prod.fst hflags).trans (h.base.notified x).connectionCallback
  have hmakes := TcpConnection.makes_handleClose hopen' hcb
  have hs := TcpConnection.state_handleClose hopen'
  have hface := c.face_handleClose
  refine .method_close (b := c.closeCallback) hrun howner ⟨?_, ?_⟩ ⟨?_, ?_, fun hne => ?_⟩ ?_ hplain
    hnot
  · rw [hf, hmakes.callbacks, htrace]
  · rw [hf, hmakes.connectionCallback]
    exact congrArg Prod.fst hflags
  · rw [hf]
    exact (congrArg Prod.fst hface).trans hc.1
  · rw [hf]
    exact (congrArg (·.2.2) hface).trans hc.2
  · rw [hf] at hne
    exact absurd hs hne
  · rw [hf, hs]

omit [LinearOrder ι] in
/-- The modes in which a connection is when `onConnection` or `onMessage` is at its end. -/
theorem settled_of_allows {m : ChatMode} {w : List (ChatOp ι)} :
    (m.Allows L x (.updateParsers x :: w) → m.state ≠ .kDisconnecting) ∧
      (m.Allows L x (.drainRequests x :: w) → m.state ≠ .kDisconnected) := by
  constructor
  all_goals
    intro h
    cases m <;> simp_all [ChatMode.Allows, ChatMode.Reading, ChatMode.state]

theorem Sound.moves_updateParsers (h : s.Sound L)
    (hrun : s.threads.running k = .updateParsers x :: rest) :
    s.Moves ((s.advance k rest).updateParsers x) k (.updateParsers x) rest [] := by
  have hp := h.performing hrun
  obtain ⟨m, hat, hallows⟩ := hp.mode x (by simp)
  have hduty : (ChatOp.updateParsers x).duty x = true := by simp [ChatOp.duty]
  rw [if_pos hduty] at hallows
  have hne : (s.conn x).state ≠ .kDisconnecting := hat.state.trans_ne (settled_of_allows.1 hallows)
  have hne' : (s.conn x).state ≠ .kConnecting := (hp.home x rfl).2
  refine ⟨(Glides.advance hrun).trans ⟨?_, ?_, fun y => ?_, fun y => ?_, fun y hy => ?_, ?_, ?_⟩,
    hrun, ?_, ?_, ⟨rfl, rfl⟩, by simp, fun _ ho => absurd ho List.not_mem_nil⟩
  all_goals unfold WebChatServer.updateParsers
  · split <;> rfl
  · split <;> rfl
  · split <;> exact .refl _
  · split <;> exact le_refl _
  · -- an entry is made, or the connection is gone
    have hself : ∀ parser, (Function.update s.parsers x parser y).getD .new =
        if y = x then parser.getD .new else (s.parsers y).getD .new := by
      intro parser
      by_cases hyx : y = x
      · subst hyx
        rw [if_pos rfl, Function.update_self]
      · rw [if_neg hyx, Function.update_of_ne hyx]
    split
    · next hs =>
      refine (hself _).trans ?_
      split
      · next hyx =>
        subst hyx
        rfl
      · rfl
    · next hs =>
      refine (hself _).trans ?_
      split
      · next hyx =>
        subst hyx
        have hdown : (s.conn y).state = .kDisconnected := by
          have hs' : (s.conn y).state ≠ .kConnected := hs
          cases hc : (s.conn y).state <;> simp_all
        refine absurd ?_ hy
        unfold WebChatServer.updateParsers
        rw [if_neg hs]
        exact hdown
      · rfl
  · intro j hj
    split <;> rfl
  · intro j y buf hmem
    split at hmem <;> exact hmem
  · split <;> exact running_advance rest
  · split <;> exact id

/-- A method that has nothing to do. -/
theorem Moves.still {f : TcpConnection → TcpConnection} (hrun : s.threads.running k = op :: rest)
    (hplain : op.isSpeech = false ∧ op.isDrain = false) (hnot : ∀ y, op ≠ .shutdown y)
    (hf : f (s.conn x) = s.conn x) : s.Moves ((s.advance k rest).method k x f) k op rest [] := by
  refine .method_quiet hrun ?_ ?_ ?_ hplain fun y hy => absurd hy (hnot y)
  all_goals rw [hf]
  · exact (TcpConnection.Quiet.refl _).makes rfl
  · exact .refl _

theorem moves_updateConnections (hrun : s.threads.running k = .updateConnections x :: rest) :
    ∃ added, s.Moves ((s.advance k rest).updateConnections k x) k (.updateConnections x) rest
      added := by
  unfold WebChatServer.updateConnections
  split
  · refine ⟨_, Moves.call (x := x) ?_ ?_⟩
    · refine .of_eq hrun rfl rfl rfl rfl rfl (fun hnodup => ?_) ⟨rfl, rfl⟩ (by simp)
      show (if s.connections.contains x then _ else _ : List ι).Nodup
      split
      · exact hnodup
      · next hx =>
        refine (List.perm_orderedInsert _ x _).nodup_iff.mpr (List.nodup_cons.mpr ⟨?_, hnodup⟩)
        show x ∉ s.connections
        simpa using hx
    · simp [ChatOp.isSpeech, ChatOp.isInput, ChatOp.isEntry, ChatOp.owner, ChatOp.serves,
        ChatOp.reply]
  · refine ⟨_, Moves.call (x := x) ?_ ?_⟩
    · exact .of_eq hrun rfl rfl rfl rfl rfl (fun hnodup => hnodup.filter _) ⟨rfl, rfl⟩ (by simp)
    simp [ChatOp.isSpeech, ChatOp.isInput, ChatOp.isEntry, ChatOp.owner, ChatOp.serves,
      ChatOp.reply]

theorem Sound.moves_shutdown (h : s.Sound L) (hrun : s.threads.running k = .shutdown x :: rest) :
    s.Moves ((s.advance k rest).method k x TcpConnection.shutdown) k (.shutdown x) rest [] := by
  have hstate : (s.conn x).state.rank ≤ (s.conn x).shutdown.state.rank ∧
      1 < (s.conn x).shutdown.state.rank := by
    have hne : (s.conn x).state ≠ .kConnecting := ((h.performing hrun).home x rfl).2
    by_cases hs : (s.conn x).state = .kConnected
    · rw [TcpConnection.state_shutdown hs, hs]
      decide
    · rw [TcpConnection.quiet_shutdown hs]
      cases hc : (s.conn x).state <;> simp_all [StateE.rank]
  exact Moves.method_quiet (f := TcpConnection.shutdown) hrun (TcpConnection.makes_shutdown _)
    (.of_face (TcpConnection.face_shutdown _)) hstate.1 ⟨rfl, rfl⟩
    fun y hy => ⟨(ChatOp.shutdown.inj hy).symm, hstate.2⟩

/-- The functors that a connection queues for itself. -/
theorem Sound.moves_runBound (h : s.Sound L) {g : Functor}
    (hrun : s.threads.running k = .runBound x g :: rest) :
    ∃ added, s.Moves ((s.advance k rest).method k x fun c => c.runFunctor g) k (.runBound x g) rest
      added := by
  cases g with
  | forceCloseInLoop =>
    obtain hopen | hdown := open_or_down ((h.performing hrun).home x rfl).2
    · refine ⟨_, h.moves_close (f := fun c => c.runFunctor .forceCloseInLoop) hrun rfl ?_
        ⟨rfl, rfl⟩ rfl rfl rfl hopen ⟨rfl, rfl⟩ (by simp)⟩
      exact if_pos hopen
    · refine ⟨_, Moves.still (f := fun c => c.runFunctor .forceCloseInLoop) hrun ⟨rfl, rfl⟩
        (by simp) (if_neg fun ho => ?_)⟩
      have hdown' : (s.conn x).state = .kDisconnected := hdown
      rw [hdown'] at ho
      simp at ho
  | shutdownInLoop =>
    refine ⟨_, Moves.method_quiet (f := fun c => c.runFunctor .shutdownInLoop) hrun ?_
      (.of_face (TcpConnection.face_shutdownInLoop _)) ?_ ⟨rfl, rfl⟩ (by simp)⟩
    · exact (TcpConnection.quiet_shutdownInLoop _).makes (TcpConnection.flags_shutdownInLoop _)
    · show _ ≤ (TcpConnection.shutdownInLoop _).state.rank
      rw [TcpConnection.state_shutdownInLoop]
  | writeComplete | lowWaterMark _ | highWaterMark _ =>
    exact ⟨_, Moves.still (f := fun c => c) hrun ⟨rfl, rfl⟩ (by simp) rfl⟩

theorem moves_forceClose (hrun : s.threads.running k = .forceClose x :: rest) :
    s.Moves ((s.advance k rest).forceClose k x) k (.forceClose x) rest [] := by
  unfold WebChatServer.forceClose
  split
  · exact .of_eq hrun rfl rfl rfl rfl rfl id ⟨rfl, rfl⟩ (by simp)
  · refine Moves.method_quiet (f := TcpConnection.forceClose) hrun
      (TcpConnection.makes_forceClose _) (.of_face (TcpConnection.face_forceClose _)) ?_
      ⟨rfl, rfl⟩ (by simp)
    unfold TcpConnection.forceClose
    split
    · next ho =>
      show _ ≤ 2
      obtain ho | ho := ho <;> simp [ho, StateE.rank]
    · exact le_refl _

/-- The statements that neither read nor write. -/
theorem Sound.moves (h : s.Sound L) (hrun : s.threads.running k = op :: rest) (w : IoResult)
    (hspeech : op.isSpeech = false) (hdrain : op.isDrain = false)
    (hfunctor : ∀ x buf, op ≠ .sendInLoop x buf)
    (hread : ∀ x ch data, op ≠ .handleRead x (some (ch :: data))) :
    ∃ added, s.Moves ((s.advance k rest).execOp k w op) k op rest added := by
  have hp := h.performing hrun
  cases op with
  | handleClose x =>
    obtain hopen | hdown := open_or_down (hp.home x rfl).2
    · exact ⟨_, h.moves_close (f := TcpConnection.handleClose) hrun rfl rfl ⟨rfl, rfl⟩ rfl rfl rfl hopen
        ⟨rfl, rfl⟩ (by simp)⟩
    · exact ⟨_, .still hrun ⟨rfl, rfl⟩ (by simp) (if_pos hdown)⟩
  | handleRead x readv =>
    cases readv with
    | none =>
      exact ⟨_, Moves.still (f := fun c => c.handleRead none []) hrun ⟨rfl, rfl⟩ (by simp) rfl⟩
    | some data =>
      cases data with
      | nil =>
        have hopen := ((h.thread k).head _ _ hrun rfl).2.2 x _ rfl
        refine ⟨_, h.moves_close (f := fun c => c.handleRead (some []) []) (c := { s.conn x with
          inputBuffer := (s.conn x).inputBuffer.readFd [] }) hrun rfl ?_ ⟨rfl, rfl⟩ rfl rfl rfl
          hopen ⟨rfl, rfl⟩ (by simp)⟩
        rfl
      | cons ch data => exact absurd rfl (hread x ch data)
  | handleWrite x w f =>
    refine ⟨_, Moves.method_quiet (f := fun c => c.handleWrite w f) hrun ?_
      (.of_face (TcpConnection.face_handleWrite _ w f)) ?_ ⟨rfl, rfl⟩ (by simp)⟩
    · exact (TcpConnection.quiet_handleWrite _ w f).makes (TcpConnection.flags_handleWrite _ w f)
    · exact (congrArg StateE.rank (TcpConnection.state_handleWrite _ w f)).ge
  | updateConnections x => exact moves_updateConnections hrun
  | cancelTimers x i f => exact ⟨_, .of_eq hrun rfl rfl rfl rfl rfl id ⟨rfl, rfl⟩ (by simp)⟩
  | refreshIdleTimer x =>
    refine ⟨[], .of_eq hrun ?_ ?_ ?_ ?_ ?_ ?_ ⟨rfl, rfl⟩ (by simp)⟩
    all_goals
      simp only [execOp, WebChatServer.refreshIdleTimer]
      split
      · split <;> first | rfl | exact id
      · first | rfl | exact id
  | updateParsers x => exact ⟨_, h.moves_updateParsers hrun⟩
  | unlock => exact ⟨_, .of_eq hrun rfl rfl rfl rfl rfl id ⟨rfl, rfl⟩ (by simp)⟩
  | shutdown x => exact ⟨_, h.moves_shutdown hrun⟩
  | handleIdleTimeout x =>
    show ∃ added, s.Moves ((s.advance k rest).handleIdleTimeout k x) k _ rest added
    unfold WebChatServer.handleIdleTimeout
    split
    · refine ⟨_, Moves.call (x := x) ?_ ?_⟩
      · exact .of_eq hrun rfl rfl rfl rfl rfl id ⟨rfl, rfl⟩ (by simp)
      simp [ChatOp.isSpeech, ChatOp.isInput, ChatOp.isEntry, ChatOp.owner, ChatOp.serves]
    · exact ⟨_, .of_eq hrun rfl rfl rfl rfl rfl id ⟨rfl, rfl⟩ (by simp)⟩
  | startForceCloseTimer x =>
    refine ⟨[], .of_eq hrun ?_ ?_ ?_ ?_ ?_ ?_ ⟨rfl, rfl⟩ (by simp)⟩
    all_goals
      simp only [execOp, WebChatServer.startForceCloseTimer]
      split <;> first | rfl | exact id
  | handleForceCloseTimeout x =>
    show ∃ added, s.Moves ((s.advance k rest).handleForceCloseTimeout k x) k _ rest added
    unfold WebChatServer.handleForceCloseTimeout
    split
    · exact ⟨_, .of_eq hrun rfl rfl rfl rfl rfl id ⟨rfl, rfl⟩ (by simp)⟩
    · refine ⟨_, Moves.call (x := x) ?_ ?_⟩
      · exact .of_eq hrun rfl rfl rfl rfl rfl id ⟨rfl, rfl⟩ (by simp)
      simp [ChatOp.isSpeech, ChatOp.isInput, ChatOp.isEntry, ChatOp.owner, ChatOp.serves,
        ChatOp.reply]
  | forceClose x => exact ⟨_, moves_forceClose hrun⟩
  | runBound x g => exact h.moves_runBound hrun
  | send _ _ => cases hspeech
  | broadcast _ => cases hspeech
  | drainRequests _ => cases hdrain
  | sendInLoop x buf => exact absurd rfl (hfunctor x buf)

end WebChatServer

end AegisNet
