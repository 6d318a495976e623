import AegisNet.WebChatServer.Reading

/-!
# Who hears what

A connection hears another one through the thread of the sender, which broadcasts, and through the
queue of its own loop. It may come and go between two messages. What it hears of one sender is still
without a gap and in order: what it misses was said before it was entered into `connections_`.

## Main definitions

- `Hearing`, `WebChatServer.hearing` — the strings of each `sendInLoop` in a run, with their senders
- `WebChatServer.said` — what a connection has to broadcast
- `WebChatServer.waiting`, `WebChatServer.outgoing` — the strings on their way to a connection
- `WebChatServer.Conveys` — the invariant of one receiver
- `WebChatServer.Hushes` — what a step does that says nothing

## Main results

- `WebChatServer.Conveys.exec` — the invariant over steps
- `WebChatServer.heard_without_gap`
-/

namespace AegisNet

/-- What has been said to each connection, with the connection whose `onMessage` said it. -/
structure Hearing (κ ι : Type*) where
  transcript : Transcript κ ι := {}
  /-- The strings queued in the loop of a connection. -/
  queued : ι → List (ι × Bytes) := fun _ => []
  /-- The strings of the calls of `sendInLoop`, oldest first. -/
  heard : ι → List (ι × Bytes) := fun _ => []

/-- The broadcasts of `y`. -/
def broadcastsOf {ι : Type*} [DecidableEq ι] (y : ι) (es : List (ι × Bytes)) : List Bytes :=
  (es.filter fun e => e.1 = y ∧ broadcastTag <+: e.2).map Prod.snd

namespace Hearing

variable {κ ι : Type*} [DecidableEq κ] [LinearOrder ι]

def queue (g : Hearing κ ι) (x : ι) (e : ι × Bytes) : Hearing κ ι :=
  { g with queued := Function.update g.queued x (g.queued x ++ [e]) }

def hear (g : Hearing κ ι) (x : ι) (e : ι × Bytes) : Hearing κ ι :=
  { g with heard := Function.update g.heard x (g.heard x ++ [e]) }

/-- The first string that is queued. -/
def deliver (g : Hearing κ ι) (x : ι) : Hearing κ ι :=
  match g.queued x with
  | [] => g
  | e :: rest => { g with queued := Function.update g.queued x rest }.hear x e

/-- What a statement on the thread of `k` adds to the strings. -/
def perform (g : Hearing κ ι) (s : WebChatServer κ ι) (k : κ) : ChatOp ι → Hearing κ ι
  | .send x buf =>
    match g.transcript.serving k with
    | none => g
    | some y =>
      if (s.conn x).state = .kConnected then
        if s.loop x = k then g.hear x (y, buf) else g.queue x (y, buf)
      else g
  | .sendInLoop x _ => g.deliver x
  | _ => g

/-- What a step adds to the strings. -/
def strings (s : WebChatServer κ ι) (g : Hearing κ ι) : ChatStep κ ι → Hearing κ ι
  | .perform k _ =>
    match s.threads.running k with
    | [] => g
    | op :: _ => g.perform s k op
  | _ => g

/-- What a step adds. -/
def note (s : WebChatServer κ ι) (g : Hearing κ ι) (l : ℕ × ChatStep κ ι) : Hearing κ ι :=
  { g.strings s l.2 with transcript := Transcript.note s g.transcript l }

/-- What `x` hears of `y`, the strings that are queued included. -/
def told (g : Hearing κ ι) (x y : ι) : List Bytes := broadcastsOf y (g.heard x ++ g.queued x)

end Hearing

namespace ChatOp

variable {ι : Type*} [DecidableEq ι]

/-- The broadcast that `x` is told by the statement, or by those that come of it. -/
def tells (x : ι) : ChatOp ι → Option Bytes
  | send y buf => if y = x ∧ broadcastTag <+: buf then some buf else none
  | broadcast msg => some (broadcastText msg)
  | _ => none

/-- The string that the statement brings to `x`. -/
def brings (x : ι) : ChatOp ι → Option Bytes
  | sendInLoop y buf => if y = x then some buf else none
  | _ => none

theorem tells_of_not_speech {op : ChatOp ι} (h : op.isSpeech = false) (x : ι) :
    op.tells x = none := by
  cases op with
  | send _ _ => cases h
  | broadcast _ => cases h
  | _ => rfl

end ChatOp

/-- What is broadcast for a request. -/
def chatText (peer : Bytes) (request : Request) : Option Bytes :=
  if request.path = chatPath then
    some (broadcastText (text "[" ++ peer ++ text "]: " ++ request.body))
  else none

namespace WebChatServer

variable {κ ι : Type*} [DecidableEq κ] [LinearOrder ι]

/-- The strings and their senders in a run from `s₀`. -/
def hearing (s₀ : WebChatServer κ ι) (ls : List (ℕ × ChatStep κ ι)) : Hearing κ ι :=
  Run.recording exec Hearing.note s₀ {} ls

/-- What `y` has to broadcast for the requests in its reads. -/
def said (s : WebChatServer κ ι) (r : Transcript κ ι) (y : ι) : List Bytes :=
  (requestsIn (r.reads y).flatten).filterMap (chatText (s.peer y))

/-- The strings that are queued for `x`. -/
def waiting (s : WebChatServer κ ι) (x : ι) : List Bytes :=
  (s.threads.todo ChatFunctor.body (s.loop x)).filterMap (ChatOp.brings x)

/-- What the thread that serves `y` has still to tell `x`. -/
def outgoing (s : WebChatServer κ ι) (r : Transcript κ ι) (x y : ι) : List Bytes :=
  if r.serving (s.loop y) = some y then
    (s.threads.running (s.loop y)).filterMap (ChatOp.tells x)
  else []

/-- The invariant of the receiver `x`, where `told y` is what it was told by `y`, and `missed y` what
    it has missed of it. Until it is shut down, what is left is on its way, unless `y` has sent a
    malformed request. -/
structure Conveys (s : WebChatServer κ ι) (r : Transcript κ ι) (x : ι)
    (told missed : ι → List Bytes) : Prop where
  absent : x ∉ s.connections → (s.conn x).state.rank ≤ 1 → (∀ y, told y = []) ∧
    ∀ k buf, .send x buf ∈ s.threads.running k → ¬ broadcastTag <+: buf
  account : ∀ y, ∃ left, s.said r y = missed y ++ told y ++ left ∧
    ((s.conn x).state.rank ≤ 1 → ∃ lost, left = s.outgoing r x y ++ lost ∧
      (¬ MalformedIn (r.reads y).flatten → lost = []))

/-- `onConnection` has entered the connection. -/
def Joined (s : WebChatServer κ ι) (x : ι) : Prop := x ∈ s.connections ∨ 1 < (s.conn x).state.rank

variable {s t : WebChatServer κ ι} {r r' : Transcript κ ι} {L : ι → Prop} {k : κ} {x y z : ι}
  {op : ChatOp ι} {rest added : List (ChatOp ι)} {told missed : ι → List Bytes}

/-! ## Steps that say nothing -/

/-- From `s` to `t` the receiver `x` is told nothing, and nothing more is said. -/
structure Hushes (s t : WebChatServer κ ι) (r r' : Transcript κ ι) (x : ι) : Prop where
  peer : t.peer = s.peer
  rank : (s.conn x).state.rank ≤ (t.conn x).state.rank
  reads : r'.reads = r.reads
  connections : (t.conn x).state.rank ≤ 1 → x ∈ s.connections → x ∈ t.connections
  sends : ∀ j buf, .send x buf ∈ t.threads.running j → broadcastTag <+: buf →
    .send x buf ∈ s.threads.running j
  outgoing : ∀ y, t.outgoing r' x y = s.outgoing r x y

omit [DecidableEq κ] in
theorem Hushes.joined (hh : s.Hushes t r r' x) (hs : s.Joined x) : t.Joined x := by
  obtain hmem | hrank := hs
  · by_cases hrank : (t.conn x).state.rank ≤ 1
    · exact .inl (hh.connections hrank hmem)
    · exact .inr (not_le.mp hrank)
  · exact .inr (hrank.trans_le hh.rank)

omit [DecidableEq κ] in
theorem Conveys.hushes (h : s.Conveys r x told missed) (hh : s.Hushes t r r' x) :
    t.Conveys r' x told missed where
  absent hx hrank := by
    have hs : x ∉ s.connections := fun hmem => hx (hh.connections hrank hmem)
    obtain ⟨htold, hsend⟩ := h.absent hs (hh.rank.trans hrank)
    exact ⟨htold, fun k buf hmem htag => hsend k buf (hh.sends k buf hmem htag) htag⟩
  account y := by
    obtain ⟨left, hsaid, hleft⟩ := h.account y
    refine ⟨left, ?_, fun hrank => ?_⟩
    · rw [said, hh.peer, hh.reads]
      exact hsaid
    · rw [hh.outgoing, hh.reads]
      exact hleft (hh.rank.trans hrank)

theorem Begins.hushes {v : Option ι} {ops : List (ChatOp ι)} (hb : s.Begins t k v ops) :
    s.Hushes t r (r.start k v) x where
  peer := hb.glides.peer
  rank := hb.glides.rank x
  reads := rfl
  connections _ hmem := hb.connections ▸ hmem
  sends j buf hmem _ := by
    by_cases hj : j = k
    · subst hj
      rw [hb.running] at hmem
      cases (hb.plain _ hmem).1
    · rwa [hb.glides.other j hj] at hmem
  outgoing y := by
    rw [outgoing, outgoing, hb.glides.loop]
    by_cases hy : s.loop y = k
    · have hnil : ops.filterMap (ChatOp.tells x) = [] :=
        List.filterMap_eq_nil_iff.mpr fun o ho => ChatOp.tells_of_not_speech (hb.plain o ho).1 x
      rw [hy, hb.running, hb.free, hnil, List.filterMap_nil, ite_self, ite_self]
    · have hserving : (r.start k v).serving (s.loop y) = r.serving (s.loop y) :=
        Function.update_of_ne hy ..
      rw [hserving, hb.glides.other _ hy]

/-- From `s` to `t` the thread of `k` has made the statement `op`, before `rest`. -/
structure Proceeds (s t : WebChatServer κ ι) (k : κ) (op : ChatOp ι) (rest added : List (ChatOp ι)) :
    Prop where
  before : s.threads.running k = op :: rest
  after : t.threads.running k = added ++ rest
  other : ∀ j, j ≠ k → t.threads.running j = s.threads.running j
  loop : t.loop = s.loop
  peer : t.peer = s.peer
  rank : ∀ x, (s.conn x).state.rank ≤ (t.conn x).state.rank

omit [DecidableEq κ] in
theorem Touches.proceeds (ht : s.Touches t k y op rest added)
    (hrank : (s.conn y).state.rank ≤ (t.conn y).state.rank) : s.Proceeds t k op rest added where
  before := ht.before
  after := ht.after
  other := ht.other
  loop := ht.loop
  peer := ht.peer
  rank x := by
    by_cases hx : x = y
    · rwa [hx]
    · rw [ht.conn x hx]

omit [DecidableEq κ] in
theorem Moves.proceeds (hm : s.Moves t k op rest added) : s.Proceeds t k op rest added :=
  ⟨hm.before, hm.running, hm.glides.other, hm.glides.loop, hm.glides.peer, hm.glides.rank⟩

namespace Proceeds

/-- The replies to another connection of the thread are not touched. -/
theorem outgoing_of_ne (hp : s.Proceeds t k op rest added) (hserving : r.serving k = some z)
    (hr : r'.serving = r.serving) (hy : y ≠ z) : t.outgoing r' x y = s.outgoing r x y := by
  rw [outgoing, outgoing, hp.loop, hr]
  by_cases hk : s.loop y = k
  · have hne : ¬ r.serving k = some y := fun h => hy (Option.some.inj (h.symm.trans hserving))
    rw [hk, if_neg hne, if_neg hne]
  · rw [hp.other _ hk]

omit [DecidableEq κ] in
/-- What the thread has to tell, before and after. -/
theorem outgoing_self (hp : s.Proceeds t k op rest added) (hserving : r.serving k = some z)
    (hr : r'.serving = r.serving) (hz : s.loop z = k) :
    s.outgoing r x z = (op.tells x).toList ++ rest.filterMap (ChatOp.tells x) ∧
      t.outgoing r' x z =
        added.filterMap (ChatOp.tells x) ++ rest.filterMap (ChatOp.tells x) := by
  rw [outgoing, outgoing, hp.loop, hr, hz, if_pos hserving, if_pos hserving, hp.before, hp.after,
    List.filterMap_cons, List.filterMap_append]
  refine ⟨?_, rfl⟩
  cases op.tells x <;> rfl

/-- A statement that tells `x` nothing. -/
theorem hushes (hp : s.Proceeds t k op rest added) (hreads : r'.reads = r.reads)
    (hr : r'.serving = r.serving)
    (hconnections : (t.conn x).state.rank ≤ 1 → x ∈ s.connections → x ∈ t.connections)
    (hop : op.tells x = none) (hadded : ∀ o ∈ added, o.tells x = none) :
    s.Hushes t r r' x where
  peer := hp.peer
  rank := hp.rank x
  reads := hreads
  connections := hconnections
  sends j buf hmem htag := by
    by_cases hj : j = k
    · subst hj
      rw [hp.after] at hmem
      rw [hp.before]
      obtain hmem | hmem := List.mem_append.mp hmem
      · have hnone := hadded _ hmem
        simp [ChatOp.tells, htag] at hnone
      · exact List.mem_cons_of_mem _ hmem
    · rwa [hp.other j hj] at hmem
  outgoing y := by
    rw [outgoing, outgoing, hp.loop, hr]
    by_cases hk : s.loop y = k
    · rw [hk, hp.before, hp.after, List.filterMap_append, List.filterMap_cons_none hop,
        List.filterMap_eq_nil_iff.mpr hadded, List.nil_append]
    · rw [hp.other _ hk]

end Proceeds

/-! ## The strings in the queues -/

theorem waiting_advance (hrun : s.threads.running k = op :: rest) :
    s.waiting x = (if s.loop x = k then (op.brings x).toList else []) ++
      (s.advance k rest).waiting x := by
  unfold waiting
  show _ = _ ++ ((s.threads.advance k rest).todo ChatFunctor.body (s.loop x)).filterMap _
  by_cases hx : s.loop x = k
  · rw [if_pos hx, hx, Threads.todo_advance hrun, List.filterMap_cons]
    cases op.brings x <;> rfl
  · rw [if_neg hx, Threads.todo_advance_of_ne hx, List.nil_append]

theorem waiting_call {ops : List (ChatOp ι)} (hops : ∀ o ∈ ops, o.brings x = none) :
    (s.call k ops).waiting x = s.waiting x := by
  unfold waiting
  show ((s.threads.call k ops).todo ChatFunctor.body (s.loop x)).filterMap _ = _
  rw [Threads.todo_call]
  by_cases hx : s.loop x = k
  · rw [hx, Function.update_self, List.filterMap_append, List.filterMap_eq_nil_iff.mpr hops]
    rfl
  · rw [Function.update_of_ne hx]

theorem waiting_queueInLoop (y : ι) (cb : ChatFunctor ι) :
    { s with threads := s.threads.queueInLoop (s.loop y) cb }.waiting x =
      s.waiting x ++
        if s.loop x = s.loop y then cb.body.filterMap (ChatOp.brings x) else [] := by
  unfold waiting
  show ((s.threads.queueInLoop (s.loop y) cb).todo ChatFunctor.body (s.loop x)).filterMap _ = _
  rw [Threads.todo_queueInLoop]
  by_cases hx : s.loop x = s.loop y
  · rw [if_pos hx, hx, Function.update_self, List.filterMap_append]
  · rw [if_neg hx, Function.update_of_ne hx, List.append_nil]

theorem waiting_queueFunctors (fs : List Functor) (y : ι) :
    (s.queueFunctors y fs).waiting x = s.waiting x := by
  unfold waiting queueFunctors
  dsimp only
  rw [Threads.todo_foldl_queueInLoop]
  by_cases hx : s.loop x = s.loop y
  · have hnone : ((fs.map (ChatFunctor.bound y)).flatMap ChatFunctor.body).filterMap
        (ChatOp.brings x) = [] := by
      refine List.filterMap_eq_nil_iff.mpr fun o ho => ?_
      obtain ⟨cb, hcb, ho⟩ := List.mem_flatMap.mp ho
      obtain ⟨f, -, rfl⟩ := List.mem_map.mp hcb
      rw [List.mem_singleton.mp ho]
      rfl
    rw [hx, Function.update_self, List.filterMap_append, hnone, List.append_nil]
  · rw [Function.update_of_ne hx]

/-- A method brings no strings. -/
theorem waiting_method (f : TcpConnection → TcpConnection) :
    (s.method k y f).waiting x = s.waiting x := by
  refine (waiting_call fun o ho => ?_).trans (waiting_queueFunctors _ y)
  obtain ⟨e, -, hop⟩ := List.mem_flatMap.mp ho
  cases e <;> simp only [ChatOp.ofCallback, List.mem_cons, List.not_mem_nil, or_false] at hop
  · obtain rfl | rfl | rfl := hop <;> rfl
  · obtain rfl | rfl := hop <;> rfl

/-- Only `send` queues a string. -/
theorem waiting_execOp (w : IoResult) (hop : ∀ y buf, op ≠ .send y buf) :
    (s.execOp k w op).waiting x = s.waiting x := by
  cases op with
  | updateConnections y =>
    show (s.updateConnections k y).waiting x = _
    unfold WebChatServer.updateConnections
    split <;> exact waiting_call (by simp [ChatOp.brings])
  | refreshIdleTimer y =>
    show (s.refreshIdleTimer y).waiting x = _
    unfold WebChatServer.refreshIdleTimer
    split
    · split <;> rfl
    · rfl
  | updateParsers y =>
    show (s.updateParsers y).waiting x = _
    unfold WebChatServer.updateParsers
    split <;> rfl
  | drainRequests y =>
    refine (waiting_call fun o ho => ?_).trans (waiting_method _)
    obtain ⟨reply, -, rfl⟩ := List.mem_map.mp ho
    cases reply <;> rfl
  | send y buf => exact absurd rfl (hop y buf)
  | broadcast msg =>
    refine waiting_call fun o ho => ?_
    obtain ho | ho := List.mem_append.mp ho
    · obtain ⟨y, -, rfl⟩ := List.mem_map.mp ho
      rfl
    · rw [List.mem_singleton.mp ho]
      rfl
  | handleIdleTimeout y =>
    show (s.handleIdleTimeout k y).waiting x = _
    unfold WebChatServer.handleIdleTimeout
    split
    · exact waiting_call (by simp [ChatOp.brings])
    · rfl
  | startForceCloseTimer y =>
    show (s.startForceCloseTimer y).waiting x = _
    unfold WebChatServer.startForceCloseTimer
    split <;> rfl
  | handleForceCloseTimeout y =>
    show (s.handleForceCloseTimeout k y).waiting x = _
    unfold WebChatServer.handleForceCloseTimeout
    split
    · rfl
    · exact waiting_call (by simp [ChatOp.brings])
  | forceClose y =>
    show (s.forceClose k y).waiting x = _
    unfold WebChatServer.forceClose
    split
    · rfl
    · exact waiting_method _
  | cancelTimers _ _ _ | unlock => rfl
  | _ => exact waiting_method _

/-- A thread that begins with something takes what it has from its queue. -/
theorem waiting_execStep {l : ChatStep κ ι} (hready : s.Ready l) (hl : ∀ k w, l ≠ .perform k w) :
    (s.execStep l).waiting x = s.waiting x := by
  cases l with
  | connectEstablished y | connectDestroyed y => exact waiting_method _
  | handleEvent y revents readv w f =>
    refine waiting_call fun o ho => ?_
    simp only [dispatch, List.mem_append] at ho
    obtain (ho | ho) | ho := ho
    all_goals
      split at ho
      · rw [List.mem_singleton.mp ho]
        rfl
      · cases ho
  | readTimers k l =>
    show (s.readTimers k l).waiting x = _
    unfold WebChatServer.readTimers
    split
    · split
      · rfl
      · next cb _ =>
        refine (waiting_call fun o ho => ?_).trans rfl
        rw [List.mem_singleton.mp ho]
        cases cb <;> rfl
    · rfl
  | swapFunctors k =>
    have htodo : (s.threads.swapFunctors k).todo ChatFunctor.body =
        s.threads.todo ChatFunctor.body := Threads.todo_swapFunctors ⟨hready.1.1, hready.2⟩
    unfold waiting
    exact congrArg _ (congrFun htodo _)
  | nextFunctor k =>
    have htodo : (s.threads.nextFunctor ChatFunctor.body k).todo ChatFunctor.body =
        s.threads.todo ChatFunctor.body := Threads.todo_nextFunctor hready.1
    unfold waiting
    exact congrArg _ (congrFun htodo _)
  | perform k w => exact absurd rfl (hl k w)

/-! ## Statements that tell nothing -/

/-- A connection that goes on stays in `connections_`. -/
theorem mem_connections_execOp (hs : s.Sound L) (hrun : s.threads.running k = op :: rest)
    (w : IoResult) (hrank : (((s.advance k rest).execOp k w op).conn x).state.rank ≤ 1)
    (hx : x ∈ s.connections) : x ∈ ((s.advance k rest).execOp k w op).connections := by
  cases op with
  | updateConnections y =>
    revert hrank
    show ((((s.advance k rest).updateConnections k y).conn x).state.rank ≤ 1 →
      x ∈ ((s.advance k rest).updateConnections k y).connections)
    unfold WebChatServer.updateConnections
    split
    · intro _
      show x ∈ if s.connections.contains y then s.connections else _
      split
      · exact hx
      · exact (List.mem_orderedInsert _).mpr (.inr hx)
    · next hup =>
      intro hrank
      refine List.mem_filter.mpr ⟨hx, ?_⟩
      have hne : x ≠ y := by
        rintro rfl
        have hne := ((hs.performing hrun).home x rfl).2
        have hup' : (s.conn x).state ≠ .kConnected := hup
        have hne' : (s.conn x).state ≠ .kConnecting := hne
        have hrank' : (s.conn x).state.rank ≤ 1 := hrank
        cases hstate : (s.conn x).state <;> simp_all [StateE.rank]
      simpa using hne
  | refreshIdleTimer y =>
    show x ∈ ((s.advance k rest).refreshIdleTimer y).connections
    unfold WebChatServer.refreshIdleTimer
    split
    · split <;> exact hx
    · exact hx
  | updateParsers y =>
    show x ∈ ((s.advance k rest).updateParsers y).connections
    unfold WebChatServer.updateParsers
    split <;> exact hx
  | send y buf =>
    show x ∈ ((s.advance k rest).send k y buf w).connections
    unfold WebChatServer.send
    split
    · split <;> exact hx
    · exact hx
  | handleIdleTimeout y =>
    show x ∈ ((s.advance k rest).handleIdleTimeout k y).connections
    unfold WebChatServer.handleIdleTimeout
    split <;> exact hx
  | startForceCloseTimer y =>
    show x ∈ ((s.advance k rest).startForceCloseTimer y).connections
    unfold WebChatServer.startForceCloseTimer
    split <;> exact hx
  | handleForceCloseTimeout y =>
    show x ∈ ((s.advance k rest).handleForceCloseTimeout k y).connections
    unfold WebChatServer.handleForceCloseTimeout
    split <;> exact hx
  | forceClose y =>
    show x ∈ ((s.advance k rest).forceClose k y).connections
    unfold WebChatServer.forceClose
    split <;> exact hx
  | _ => exact hx

/-! ## The drain loop -/

theorem broadcastTag_prefix (msg : Bytes) : broadcastTag <+: broadcastText msg := by
  rw [broadcastText, List.append_assoc]
  exact List.prefix_append _ _

/-- A response does not begin like a broadcast. -/
theorem untagged_responses :
    ¬ broadcastTag <+: sendHttpResponse "text/html; charset=utf-8" (text g_chat_html) ∧
      ¬ broadcastTag <+: sendHttpResponse "text/plain" (text "OK") ∧
      ¬ broadcastTag <+: badRequest := by
  decide +kernel

theorem untagged_of_mem_replies {peer buf : Bytes} {requests : List Request} {malformed : Bool}
    (h : Reply.send buf ∈ replies peer requests malformed) : ¬ broadcastTag <+: buf := by
  obtain ⟨hpage, hok, hbad⟩ := untagged_responses
  cases malformed with
  | true =>
    have hbuf : buf = badRequest := by simpa [replies] using h
    rwa [hbuf]
  | false =>
    simp only [replies, Bool.false_eq_true, if_false, List.mem_flatMap] at h
    obtain ⟨request, -, hreply⟩ := h
    unfold replyTo at hreply
    split at hreply
    · rwa [Reply.send.inj (List.mem_singleton.mp hreply)]
    · split at hreply
      · have hbuf : buf = sendHttpResponse "text/plain" (text "OK") := by simpa using hreply
        rwa [hbuf]
      · cases hreply

/-- What the replies to some requests tell. -/
theorem filterMap_tells_replies (peer : Bytes) (requests : List Request) (y : ι) :
    ((replies peer requests false).map (ChatOp.ofReply y)).filterMap (ChatOp.tells x) =
      requests.filterMap (chatText peer) := by
  obtain ⟨hpage, hok, -⟩ := untagged_responses
  show ((requests.flatMap (replyTo peer)).map _).filterMap _ = _
  induction requests with
  | nil => rfl
  | cons request requests ih =>
    have hfirst : ((replyTo peer request).map (ChatOp.ofReply y)).filterMap (ChatOp.tells x) =
        (chatText peer request).toList := by
      rw [replyTo, chatText]
      by_cases hroot : request.path = rootPath
      · have hchat : ¬ request.path = chatPath := by
          rw [hroot]
          decide
        rw [if_pos hroot, if_neg hchat]
        simp [ChatOp.ofReply, ChatOp.tells, hpage]
      · rw [if_neg hroot]
        by_cases hchat : request.path = chatPath
        · rw [if_pos hchat, if_pos hchat]
          simp [ChatOp.ofReply, ChatOp.tells, hok]
        · rw [if_neg hchat, if_neg hchat]
          rfl
    rw [List.flatMap_cons, List.map_append, List.filterMap_append, ih, hfirst, List.filterMap_cons]
    cases chatText peer request <;> rfl

theorem filterMap_tells_malformed (peer : Bytes) (requests : List Request) (y : ι) :
    ((replies peer requests true).map (ChatOp.ofReply y)).filterMap (ChatOp.tells x) = [] := by
  simp [replies, ChatOp.ofReply, ChatOp.tells, untagged_responses.2.2]

omit [DecidableEq κ] in
theorem Drains.state {chunk : Bytes} (hd : s.Drains t r k y rest chunk) (z : ι) :
    (t.conn z).state = (s.conn z).state := by
  by_cases hz : z = y
  · rw [hz, hd.conn]
  · rw [hd.touches.conn z hz]

theorem Conveys.drain (h : s.Conveys r x told missed) (hT : s.Transcribed r) (hs : s.Sound L)
    (hrun : s.threads.running k = .drainRequests y :: rest) :
    ((s.advance k rest).drainRequests k y).Conveys (r.drain y) x told missed := by
  have hmem : ChatOp.drainRequests y ∈ s.threads.running k := hrun ▸ List.mem_cons_self
  obtain ⟨chunk, hd⟩ := hT.drains hs hrun
  have hserving := hd.serving
  have hy := hd.loop
  have hchunk := hd.unread
  have ht := hd.touches
  obtain ⟨-, -, hrequests, hmalformed⟩ := (follows_reference (s.peer y) (r.reads y)).drain chunk
  generalize (s.advance k rest).drainRequests k y = t at *
  have hrank : ∀ z, (t.conn z).state.rank = (s.conn z).state.rank :=
    fun z => congrArg StateE.rank (hd.state z)
  have hp := ht.proceeds (hrank y).ge
  have hserving' : (r.drain y).serving = r.serving := rfl
  -- nothing was left to say
  have hsilent : ∀ o ∈ s.threads.running k, o.tells x = none := fun o ho =>
    ChatOp.tells_of_not_speech ((hT.thread k).quiet _ hmem (.inr rfl) o ho) x
  have hsends : ∀ buf, broadcastTag <+: buf → ∀ j, .send x buf ∈ t.threads.running j →
      .send x buf ∈ s.threads.running j := by
    intro buf htag j hbuf
    by_cases hj : j = k
    · subst hj
      rw [hp.after] at hbuf
      rw [hp.before]
      refine (List.mem_append.mp hbuf).elim (fun hbuf => ?_) (List.mem_cons_of_mem _)
      -- a reply is no broadcast
      obtain ⟨reply, hreply, heq⟩ := List.mem_map.mp hbuf
      obtain rfl : reply = .send buf := by cases reply <;> simp_all [ChatOp.ofReply]
      exact absurd htag (untagged_of_mem_replies hreply)
    · rwa [hp.other j hj] at hbuf
  refine ⟨fun hx hrankx => ?_, fun z => ?_⟩
  · rw [ht.connections] at hx
    rw [hrank] at hrankx
    obtain ⟨htold, hsend⟩ := h.absent hx hrankx
    exact ⟨htold, fun j buf hbuf htag => hsend j buf (hsends buf htag j hbuf) htag⟩
  · obtain ⟨left, hsaid, hleft⟩ := h.account z
    rw [hrank]
    by_cases hz : z = y
    · subst hz
      have hreads : ((r.drain z).reads z).flatten = (r.reads z).flatten ++ chunk := by
        rw [Transcript.reads_drain_self hchunk, List.flatten_append, List.flatten_singleton]
      have hsaid' : t.said (r.drain z) z = s.said r z ++
          ((reference (s.peer z) (r.reads z)).drained chunk).requests.filterMap
            (chatText (s.peer z)) := by
        rw [said, hreads, hrequests, List.filterMap_append, hp.peer]
        rfl
      obtain ⟨hbefore, hafter⟩ := hp.outgoing_self (x := x) hserving hserving' hy
      rw [hrun] at hsilent
      have hrest : rest.filterMap (ChatOp.tells x) = [] :=
        List.filterMap_eq_nil_iff.mpr fun o ho => hsilent o (List.mem_cons_of_mem _ ho)
      rw [hsilent _ List.mem_cons_self, hrest] at hbefore
      rw [hrest, List.append_nil, repliesOf] at hafter
      refine ⟨left ++ _, by rw [hsaid', hsaid, List.append_assoc], fun hrankx => ?_⟩
      obtain ⟨lost, rfl, hlost⟩ := hleft hrankx
      rw [hreads, hbefore, hafter]
      by_cases hm : MalformedIn ((r.reads z).flatten ++ chunk)
      · -- the requests of this read are dropped
        rw [hmalformed.mpr hm, filterMap_tells_malformed]
        exact ⟨lost ++ _, rfl, fun hn => absurd hm hn⟩
      · have hm' : ¬ MalformedIn (r.reads z).flatten := fun hm' =>
          hm (by rwa [MalformedIn, hm'.append])
        have hfalse : ((reference (s.peer z) (r.reads z)).drained chunk).malformedRequest = false :=
          Bool.not_eq_true _ ▸ fun htrue => hm (hmalformed.mp htrue)
        rw [hfalse, filterMap_tells_replies, hlost hm']
        exact ⟨[], (List.append_nil _).symm, fun _ => rfl⟩
    · refine ⟨left, ?_, fun hrankx => ?_⟩
      · rw [said, hp.peer, Transcript.reads_drain_of_ne hz]
        exact hsaid
      · rw [hp.outgoing_of_ne hserving hserving' hz, Transcript.reads_drain_of_ne hz]
        exact hleft hrankx

/-! ## Broadcasts -/

/-- A broadcast tells each connection in `connections_` once. -/
theorem filterMap_tells_sends {l : List ι} (hnodup : l.Nodup) (msg : Bytes) :
    (l.map fun y => ChatOp.send y (broadcastText msg)).filterMap (ChatOp.tells x) =
      if x ∈ l then [broadcastText msg] else [] := by
  have hself : (ChatOp.send x (broadcastText msg)).tells x = some (broadcastText msg) :=
    if_pos ⟨rfl, broadcastTag_prefix msg⟩
  have hother : ∀ y, y ≠ x → (ChatOp.send y (broadcastText msg)).tells x = none :=
    fun y hy => if_neg fun h => hy h.1
  induction l with
  | nil => rfl
  | cons y l ih =>
    obtain ⟨hy, hl⟩ := List.nodup_cons.mp hnodup
    rw [List.map_cons]
    by_cases hyx : y = x
    · subst hyx
      rw [List.filterMap_cons_some hself, ih hl, if_neg hy, if_pos List.mem_cons_self]
    · rw [List.filterMap_cons_none (hother y hyx), ih hl]
      simp [Ne.symm hyx]

omit [LinearOrder ι] in
theorem proceeds_broadcast {msg : Bytes} (hrun : s.threads.running k = .broadcast msg :: rest) :
    s.Proceeds ((s.advance k rest).broadcast k msg) k (.broadcast msg) rest
      (s.connections.map (fun z => ChatOp.send z (broadcastText msg)) ++ [.unlock]) :=
  ⟨hrun, (Function.update_self ..).trans (congrArg (_ ++ ·) (running_advance rest)),
    fun _ hj => (Function.update_of_ne hj ..).trans (Function.update_of_ne hj ..), rfl, rfl,
    fun _ => le_refl _⟩

/-- A broadcast is on its way to the connections in `connections_`, and the others miss it. -/
theorem Conveys.broadcast (h : s.Conveys r x told missed) (hT : s.Transcribed r) {msg : Bytes}
    (hrun : s.threads.running k = .broadcast msg :: rest) :
    ∃ missed', ((s.advance k rest).broadcast k msg).Conveys r x told missed' ∧
      (s.Joined x → missed' = missed) := by
  obtain ⟨y, hserving, -⟩ := (hT.thread k).broadcasts msg (hrun ▸ List.mem_cons_self)
  have hy : s.loop y = k := ((hT.thread k).serving y hserving).1
  have hp := proceeds_broadcast hrun
  have hconnections : ((s.advance k rest).broadcast k msg).connections = s.connections := rfl
  have hconn : ((s.advance k rest).broadcast k msg).conn = s.conn := rfl
  generalize (s.advance k rest).broadcast k msg = t at *
  obtain ⟨hbefore, hafter⟩ := hp.outgoing_self (r := r) (x := x) hserving rfl hy
  rw [List.filterMap_append, filterMap_tells_sends hT.nodup] at hafter
  have habsent : x ∉ t.connections → (t.conn x).state.rank ≤ 1 → (∀ y, told y = []) ∧
      ∀ j buf, .send x buf ∈ t.threads.running j → ¬ broadcastTag <+: buf := by
    rw [hconnections, hconn]
    intro hx hrank
    obtain ⟨htold, hsend⟩ := h.absent hx hrank
    refine ⟨htold, fun j buf hbuf => ?_⟩
    by_cases hj : j = k
    · subst hj
      rw [hp.after] at hbuf
      obtain hbuf | hbuf := List.mem_append.mp hbuf
      · have hmem : x ∈ s.connections := by
          obtain ⟨z, hz, heq⟩ : ∃ z ∈ s.connections, ChatOp.send z (broadcastText msg) =
              .send x buf := by simpa using hbuf
          obtain ⟨rfl, -⟩ := ChatOp.send.inj heq
          exact hz
        exact absurd hmem hx
      · exact hsend j buf (hp.before ▸ List.mem_cons_of_mem _ hbuf)
    · rw [hp.other j hj] at hbuf
      exact hsend j buf hbuf
  have hsaid : ∀ z, t.said r z = s.said r z := fun z => by rw [said, said, hp.peer]
  by_cases hmiss : x ∉ s.connections ∧ (s.conn x).state.rank ≤ 1
  · obtain ⟨hx, hrank⟩ := hmiss
    refine ⟨Function.update missed y (missed y ++ [broadcastText msg]), ⟨habsent, fun z => ?_⟩,
      fun hjoined => ?_⟩
    · obtain ⟨left, hz, hleft⟩ := h.account z
      by_cases hzy : z = y
      · subst hzy
        obtain ⟨lost, rfl, hlost⟩ := hleft hrank
        rw [if_neg hx] at hafter
        refine ⟨t.outgoing r x z ++ lost, ?_, fun _ => ⟨lost, rfl, hlost⟩⟩
        rw [hsaid, hz, hbefore, hafter, (h.absent hx hrank).1 z, Function.update_self]
        simp [ChatOp.tells]
      · rw [hsaid, Function.update_of_ne hzy, hconn, hp.outgoing_of_ne hserving rfl hzy]
        exact ⟨left, hz, hleft⟩
    · exact absurd hjoined (not_or.mpr ⟨hx, not_lt.mpr hrank⟩)
  · refine ⟨missed, ⟨habsent, fun z => ?_⟩, fun _ => rfl⟩
    obtain ⟨left, hz, hleft⟩ := h.account z
    refine ⟨left, (hsaid z).trans hz, fun hrank => ?_⟩
    rw [hconn] at hrank
    have hx : x ∈ s.connections := by_contra fun hx => hmiss ⟨hx, hrank⟩
    by_cases hzy : z = y
    · subst hzy
      rw [if_pos hx] at hafter
      have hsame : t.outgoing r x z = s.outgoing r x z := by
        rw [hbefore, hafter]
        rfl
      rw [hsame]
      exact hleft hrank
    · rw [hp.outgoing_of_ne hserving rfl hzy]
      exact hleft hrank

/-! ## Sends -/

theorem proceeds_send {buf : Bytes} (w : IoResult)
    (hrun : s.threads.running k = .send z buf :: rest) :
    s.Proceeds ((s.advance k rest).send k z buf w) k (.send z buf) rest [] := by
  have hother : ∀ j, j ≠ k → (s.advance k rest).threads.running j = s.threads.running j :=
    fun j hj => Function.update_of_ne hj ..
  have hadvance : s.Proceeds (s.advance k rest) k (.send z buf) rest [] :=
    ⟨hrun, running_advance rest, hother, rfl, rfl, fun _ => le_refl _⟩
  unfold WebChatServer.send
  split
  · split
    · refine (touches_sendInLoop hrun buf w).proceeds ?_
      have hstate := TcpConnection.state_sendInLoop (s.conn z) buf w
      rw [conn_method_self]
      exact (congrArg StateE.rank hstate).ge
    · exact ⟨hrun, running_advance rest, hother, rfl, rfl, fun _ => le_refl _⟩
  · exact hadvance

omit [DecidableEq κ] in
theorem Sound.notMem_of_connecting (hs : s.Sound L) (hx : (s.conn x).state = .kConnecting) :
    x ∉ s.connections := by
  obtain ⟨m, hat, -⟩ := hs.mode x
  have hm : m.state = .kConnecting := hat.state.symm.trans hx
  rw [hat.listed]
  cases m with
  | connecting => simp [ChatMode.entry]
  | _ => cases hm

/-- A string for `z` is told to it, if it is up. -/
theorem Conveys.send (h : s.Conveys r x told missed) (hs : s.Sound L) {buf : Bytes}
    (hserving : r.serving k = some y) (hy : s.loop y = k)
    (hp : s.Proceeds t k (.send z buf) rest []) (hconnections : t.connections = s.connections)
    (hreads : r'.reads = r.reads) (hr : r'.serving = r.serving) {told' : ι → List Bytes}
    (htold : ∀ v, told' v = if z = x ∧ (s.conn x).state = .kConnected ∧ v = y ∧ broadcastTag <+: buf
      then told v ++ [buf] else told v) :
    t.Conveys r' x told' missed := by
  by_cases htells : z = x ∧ broadcastTag <+: buf
  · obtain ⟨rfl, htag⟩ := htells
    have hmem : ChatOp.send z buf ∈ s.threads.running k := hp.before ▸ List.mem_cons_self
    have habsent : z ∉ s.connections → 1 < (s.conn z).state.rank := fun hz =>
      not_le.mp fun hrank => (h.absent hz hrank).2 k buf hmem htag
    have hsaid : ∀ v, t.said r' v = s.said r v := fun v => by rw [said, said, hp.peer, hreads]
    refine ⟨fun hz hrank => ?_, fun v => ?_⟩
    · rw [hconnections] at hz
      exact absurd ((habsent hz).trans_le (hp.rank z)) (not_lt.mpr hrank)
    · obtain ⟨left, hleft, hon⟩ := h.account v
      by_cases hup : (s.conn z).state = .kConnected
      · have hrank : (s.conn z).state.rank ≤ 1 := by
          rw [hup]
          exact le_refl 1
        by_cases hv : v = y
        · subst hv
          obtain ⟨hbefore, hafter⟩ := hp.outgoing_self (x := z) hserving hr hy
          have htells : (ChatOp.send z buf).tells z = some buf := if_pos ⟨rfl, htag⟩
          obtain ⟨lost, rfl, hlost⟩ := hon hrank
          refine ⟨t.outgoing r' z v ++ lost, ?_, fun _ => ⟨lost, rfl, by rwa [hreads]⟩⟩
          rw [htold v, if_pos ⟨rfl, hup, rfl, htag⟩, hsaid, hleft, hbefore, hafter, htells]
          simp
        · rw [htold v, if_neg fun hand => hv hand.2.2.1]
          refine ⟨left, (hsaid v).trans hleft, fun _ => ?_⟩
          rw [hp.outgoing_of_ne hserving hr hv, hreads]
          exact hon hrank
      · -- then it has been shut down
        have hdown : 1 < (s.conn z).state.rank := by
          by_cases hc : (s.conn z).state = .kConnecting
          · exact habsent (hs.notMem_of_connecting hc)
          · cases hstate : (s.conn z).state <;> simp_all [StateE.rank]
        rw [htold v, if_neg fun hand => hup hand.2.1]
        exact ⟨left, (hsaid v).trans hleft, fun hrank =>
          absurd (hdown.trans_le (hp.rank z)) (not_lt.mpr hrank)⟩
  · have hsame : told' = told := funext fun v =>
      (htold v).trans (if_neg fun hand => htells ⟨hand.1, hand.2.2.2⟩)
    rw [hsame]
    exact h.hushes (hp.hushes hreads hr (fun _ hx => hconnections ▸ hx) (if_neg htells) (by simp))

/-! ## Statements -/

/-- Every statement goes on by its step, and only the drain loop and `broadcast` have more to
    tell. -/
theorem Transcribed.proceeds (hT : s.Transcribed r) (hs : s.Sound L)
    (hrun : s.threads.running k = op :: rest) (w : IoResult) :
    ∃ added, s.Proceeds ((s.advance k rest).execOp k w op) k op rest added ∧
      (op.isDrain = false → (∀ msg, op ≠ .broadcast msg) → ∀ o ∈ added, o.isSpeech = false) := by
  have hmoves : op.isSpeech = false → op.isDrain = false → (∀ x buf, op ≠ .sendInLoop x buf) →
      (∀ x ch data, op ≠ .handleRead x (some (ch :: data))) →
      ∃ added, s.Proceeds ((s.advance k rest).execOp k w op) k op rest added ∧
        (op.isDrain = false → (∀ msg, op ≠ .broadcast msg) → ∀ o ∈ added, o.isSpeech = false) := by
    intro hspeech hdrain hfunctor hread
    obtain ⟨added, hm⟩ := hs.moves hrun w hspeech hdrain hfunctor hread
    exact ⟨added, hm.proceeds, fun _ _ o ho => (hm.added o ho).1⟩
  cases op with
  | handleRead x readv =>
    cases readv with
    | none => exact hmoves rfl rfl (by simp) (by simp)
    | some data =>
      cases data with
      | nil => exact hmoves rfl rfl (by simp) (by simp)
      | cons ch data =>
        have hcb := (hT.conn x).messageCallback
        refine ⟨_, (touches_read hcb hrun).proceeds ?_, fun _ _ => by simp [ChatOp.isSpeech]⟩
        have hconn := @conn_read _ _ _ _ s k x rest ch data hcb
        rw [hconn]
  | drainRequests x =>
    obtain ⟨chunk, hd⟩ := hT.drains hs hrun
    exact ⟨_, hd.touches.proceeds (congrArg StateE.rank (hd.state x)).ge,
      fun hdrain => by cases hdrain⟩
  | send x buf => exact ⟨[], proceeds_send w hrun, by simp⟩
  | broadcast msg => exact ⟨_, proceeds_broadcast hrun, fun _ hmsg => absurd rfl (hmsg msg)⟩
  | sendInLoop x buf =>
    refine ⟨[], (touches_sendInLoop hrun buf w).proceeds ?_, by simp⟩
    have hstate := TcpConnection.state_sendInLoop (s.conn x) buf w
    rw [conn_method_self]
    exact (congrArg StateE.rank hstate).ge
  | _ => exact hmoves rfl rfl (by simp) (by simp)

theorem Joined.execOp (h : s.Joined x) (hT : s.Transcribed r) (hs : s.Sound L)
    (hrun : s.threads.running k = op :: rest) (w : IoResult) :
    ((s.advance k rest).execOp k w op).Joined x := by
  obtain ⟨added, hp, -⟩ := hT.proceeds hs hrun w
  obtain hmem | hrank := h
  · by_cases hrank : (((s.advance k rest).execOp k w op).conn x).state.rank ≤ 1
    · exact .inl (mem_connections_execOp hs hrun w hrank hmem)
    · exact .inr (not_le.mp hrank)
  · exact .inr (hrank.trans_le (hp.rank x))

/-! ## The strings and their senders -/

/-- The strings that are queued and those of the transcript, with their senders. A thread queues for
    the connections of other loops only. -/
structure Attributed (s : WebChatServer κ ι) (g : Hearing κ ι) : Prop where
  queued : ∀ x, (g.queued x).map Prod.snd = s.waiting x
  apart : ∀ x, ∀ e ∈ g.queued x, s.loop e.1 ≠ s.loop x
  heard : ∀ x, (g.heard x).map Prod.snd = (g.transcript.offers x).map Offer.buf

variable {g : Hearing κ ι} {buf : Bytes}

theorem broadcastsOf_append (y : ι) (es fs : List (ι × Bytes)) :
    broadcastsOf y (es ++ fs) = broadcastsOf y es ++ broadcastsOf y fs := by
  rw [broadcastsOf, List.filter_append, List.map_append]
  rfl

theorem broadcastsOf_singleton (y z : ι) (buf : Bytes) :
    broadcastsOf y [(z, buf)] = if y = z ∧ broadcastTag <+: buf then [buf] else [] := by
  unfold broadcastsOf
  by_cases h : y = z ∧ broadcastTag <+: buf
  · rw [if_pos h, List.filter_cons_of_pos (by simpa using ⟨h.1.symm, h.2⟩)]
    rfl
  · rw [if_neg h, List.filter_cons_of_neg (by simpa using fun hz => fun ht => h ⟨hz.symm, ht⟩)]
    rfl

omit [DecidableEq κ] in
theorem told_queue (z v : ι) (e : ι × Bytes) :
    (g.queue z e).told x v = g.told x v ++ if z = x then broadcastsOf v [e] else [] := by
  show broadcastsOf v (g.heard x ++ Function.update g.queued z (g.queued z ++ [e]) x) = _
  by_cases hz : z = x
  · subst hz
    rw [Function.update_self, if_pos rfl, Hearing.told, ← List.append_assoc, broadcastsOf_append]
  · rw [Function.update_of_ne (Ne.symm hz), if_neg hz, List.append_nil]
    rfl

omit [DecidableEq κ] in
/-- A string passes those of other senders that are queued. -/
theorem told_hear (z v : ι) {e : ι × Bytes} (he : ∀ e' ∈ g.queued z, e'.1 ≠ e.1) :
    (g.hear z e).told x v = g.told x v ++ if z = x then broadcastsOf v [e] else [] := by
  show broadcastsOf v (Function.update g.heard z (g.heard z ++ [e]) x ++ g.queued x) = _
  by_cases hz : z = x
  · subst hz
    have hcomm : broadcastsOf v [e] ++ broadcastsOf v (g.queued z) =
        broadcastsOf v (g.queued z) ++ broadcastsOf v [e] := by
      by_cases hv : v = e.1
      · have hnil : broadcastsOf v (g.queued z) = [] := by
          rw [broadcastsOf, List.filter_eq_nil_iff.mpr fun e' he' => by simp [hv, he e' he']]
          rfl
        rw [hnil, List.nil_append, List.append_nil]
      · have hnil : broadcastsOf v [e] = [] := by
          rw [broadcastsOf_singleton v e.1 e.2, if_neg fun hand => hv hand.1]
        rw [hnil, List.nil_append, List.append_nil]
    rw [Function.update_self, if_pos rfl, Hearing.told, broadcastsOf_append, broadcastsOf_append,
      broadcastsOf_append, List.append_assoc, hcomm, List.append_assoc]
  · rw [Function.update_of_ne (Ne.symm hz), if_neg hz, List.append_nil]
    rfl

/-- What a `send` adds to what `x` is told. -/
theorem told_send (ha : s.Attributed g) (hserving : g.transcript.serving k = some y)
    (hy : s.loop y = k) (z : ι) (buf : Bytes) (v : ι) :
    (g.perform s k (.send z buf)).told x v =
      if z = x ∧ (s.conn x).state = .kConnected ∧ v = y ∧ broadcastTag <+: buf then
        g.told x v ++ [buf]
      else g.told x v := by
  simp only [Hearing.perform, hserving]
  by_cases hup : (s.conn z).state = .kConnected
  · rw [if_pos hup]
    have hadds : (if s.loop z = k then g.hear z (y, buf) else g.queue z (y, buf)).told x v =
        g.told x v ++ if z = x then broadcastsOf v [(y, buf)] else [] := by
      split
      · next hloop =>
        -- the thread has queued nothing for its own connections
        refine told_hear z v fun e he hey => ha.apart z e he ?_
        rw [hey, hloop]
        exact hy
      · exact told_queue z v _
    rw [hadds, broadcastsOf_singleton]
    by_cases hz : z = x
    · subst hz
      by_cases hv : v = y ∧ broadcastTag <+: buf
      · rw [if_pos rfl, if_pos hv, if_pos ⟨rfl, hup, hv⟩]
      · rw [if_pos rfl, if_neg hv, if_neg fun hand => hv hand.2.2, List.append_nil]
    · rw [if_neg hz, List.append_nil]
      exact (if_neg fun hand => hz hand.1).symm
  · rw [if_neg hup]
    refine (if_neg ?_).symm
    rintro ⟨rfl, hup', -⟩
    exact hup hup'

omit [DecidableEq κ] in
theorem told_deliver (z v : ι) : (g.deliver z).told x v = g.told x v := by
  unfold Hearing.deliver
  split
  · rfl
  · next e rest hq =>
    show broadcastsOf v (Function.update g.heard z (g.heard z ++ [e]) x ++
      Function.update g.queued z rest x) = broadcastsOf v (g.heard x ++ g.queued x)
    by_cases hx : x = z
    · subst hx
      rw [Function.update_self, Function.update_self, hq, List.append_assoc]
      rfl
    · rw [Function.update_of_ne hx, Function.update_of_ne hx]

/-- Only `sendInLoop`, at once or as a functor, adds to the offers. -/
theorem offers_perform {w : IoResult} (hsend : ∀ x buf, op ≠ .send x buf)
    (hfunctor : ∀ x buf, op ≠ .sendInLoop x buf) : (r.perform s k w op).offers = r.offers := by
  cases op with
  | handleRead x readv =>
    cases readv with
    | none => rfl
    | some data => cases data <;> rfl
  | send x buf => exact absurd rfl (hsend x buf)
  | sendInLoop x buf => exact absurd rfl (hfunctor x buf)
  | _ => rfl

theorem Attributed.send (ha : s.Attributed g) (hT : s.Transcribed g.transcript)
    (hrun : s.threads.running k = .send z buf :: rest) (w : IoResult) :
    ((s.advance k rest).send k z buf w).Attributed
      { g.perform s k (.send z buf) with
        transcript := g.transcript.perform s k w (.send z buf) } := by
  obtain ⟨y, hserving, -⟩ := (hT.thread k).sends z buf (hrun ▸ List.mem_cons_self)
  have hy : s.loop y = k := ((hT.thread k).serving y hserving).1
  have hadvance : ∀ x, (s.advance k rest).waiting x = s.waiting x := fun x => by
    have hbrings : (ChatOp.send z buf).brings x = none := rfl
    rw [waiting_advance hrun, hbrings, Option.toList_none, ite_self, List.nil_append]
  simp only [Hearing.perform, hserving, Transcript.perform]
  unfold WebChatServer.send
  have hstate : ((s.advance k rest).conn z).state = (s.conn z).state := rfl
  have hloop : (s.advance k rest).loop z = s.loop z := rfl
  rw [hstate, hloop]
  by_cases hup : (s.conn z).state = .kConnected
  · rw [if_pos hup, if_pos hup]
    by_cases hz : s.loop z = k
    · rw [if_pos hz, if_pos hz, if_pos ⟨hup, hz⟩]
      refine ⟨fun x => ?_, ha.apart, fun x => ?_⟩
      · rw [waiting_method, hadvance]
        exact ha.queued x
      · show (Function.update g.heard z (g.heard z ++ [(y, buf)]) x).map Prod.snd = _
        by_cases hx : x = z
        · subst hx
          rw [Function.update_self, List.map_append, ha.heard, Transcript.offers_offer_self,
            List.map_append]
          rfl
        · rw [Function.update_of_ne hx, ha.heard, Transcript.offers_offer_of_ne hx]
    · rw [if_neg hz, if_neg hz, if_neg fun hand => hz hand.2]
      refine ⟨fun x => ?_, fun x e he => ?_, ha.heard⟩
      · refine Eq.trans ?_ (waiting_queueInLoop (s := s.advance k rest) z
          (.sendInLoop z buf)).symm
        rw [hadvance, ← ha.queued]
        show (Function.update g.queued z (g.queued z ++ [(y, buf)]) x).map Prod.snd = _
        by_cases hx : x = z
        · subst hx
          rw [Function.update_self, List.map_append]
          simp [ChatFunctor.body, ChatOp.brings]
        · rw [Function.update_of_ne hx]
          simp [ChatFunctor.body, ChatOp.brings, Ne.symm hx]
      · have he' : e ∈ Function.update g.queued z (g.queued z ++ [(y, buf)]) x := he
        by_cases hx : x = z
        · subst hx
          rw [Function.update_self] at he'
          obtain he' | he' := List.mem_append.mp he'
          · exact ha.apart x e he'
          · rw [List.mem_singleton.mp he']
            exact fun heq => hz (heq.symm.trans hy)
        · rw [Function.update_of_ne hx] at he'
          exact ha.apart x e he'
  · rw [if_neg hup, if_neg hup, if_neg fun hand => hup hand.1]
    exact ⟨fun x => (ha.queued x).trans (hadvance x).symm, ha.apart, ha.heard⟩

theorem Attributed.sendInLoop (ha : s.Attributed g) (hs : s.Sound L)
    (hrun : s.threads.running k = .sendInLoop z buf :: rest) (w : IoResult) :
    ((s.advance k rest).method k z fun c => c.sendInLoop buf w).Attributed
      { g.deliver z with
        transcript := g.transcript.perform s k w (.sendInLoop z buf) } := by
  have hz : s.loop z = k := ((hs.performing hrun).home z rfl).1
  have hwaiting : ∀ x, s.waiting x =
      (if x = z then [buf] else []) ++
        ((s.advance k rest).method k z fun c => c.sendInLoop buf w).waiting x := by
    intro x
    rw [waiting_method, waiting_advance hrun]
    congr 1
    by_cases hx : x = z
    · subst hx
      simp [hz, ChatOp.brings]
    · simp [hx, ChatOp.brings, Ne.symm hx]
  -- the string is the first of those that are queued
  obtain ⟨e, queue, hqueue, rfl⟩ : ∃ e queue, g.queued z = e :: queue ∧ e.2 = buf := by
    have hmap := (ha.queued z).trans (hwaiting z)
    rw [if_pos rfl, List.singleton_append] at hmap
    obtain ⟨e, queue, hqueue, he, -⟩ := List.map_eq_cons_iff.mp hmap
    exact ⟨e, queue, hqueue, he⟩
  have hdeliver : g.deliver z =
      { g with queued := Function.update g.queued z queue }.hear z e := by
    rw [Hearing.deliver, hqueue]
  rw [hdeliver]
  refine ⟨fun x => ?_, fun x e' he' => ?_, fun x => ?_⟩
  · show (Function.update g.queued z queue x).map Prod.snd = _
    have hmap := (ha.queued x).trans (hwaiting x)
    by_cases hx : x = z
    · subst hx
      rw [hqueue, if_pos rfl] at hmap
      rw [Function.update_self]
      exact (List.cons.inj hmap).2
    · rw [if_neg hx, List.nil_append] at hmap
      rw [Function.update_of_ne hx]
      exact hmap
  · have he : e' ∈ Function.update g.queued z queue x := he'
    by_cases hx : x = z
    · subst hx
      rw [Function.update_self] at he
      exact ha.apart x e' (hqueue ▸ List.mem_cons_of_mem _ he)
    · rw [Function.update_of_ne hx] at he
      exact ha.apart x e' he
  · show (Function.update g.heard z (g.heard z ++ [e]) x).map Prod.snd =
      ((g.transcript.offer z (s.conn z) false e.2 w).offers x).map Offer.buf
    by_cases hx : x = z
    · subst hx
      rw [Function.update_self, List.map_append, ha.heard, Transcript.offers_offer_self,
        List.map_append]
      rfl
    · rw [Function.update_of_ne hx, ha.heard, Transcript.offers_offer_of_ne hx]

/-- What holds of the strings before a statement holds after it. -/
theorem Attributed.perform (ha : s.Attributed g) (hT : s.Transcribed g.transcript) (hs : s.Sound L)
    (hrun : s.threads.running k = op :: rest) (w : IoResult) :
    ((s.advance k rest).execOp k w op).Attributed
      { g.perform s k op with transcript := g.transcript.perform s k w op } := by
  obtain ⟨added, hp, -⟩ := hT.proceeds hs hrun w
  have hloop := hp.loop
  have hadvance := fun x => waiting_advance (x := x) hrun
  have hcases : (∃ z buf, op = .send z buf) ∨ (∃ z buf, op = .sendInLoop z buf) ∨
      ((∀ z buf, op ≠ .send z buf) ∧ ∀ z buf, op ≠ .sendInLoop z buf) := by
    cases op <;> simp
  obtain ⟨z, buf, rfl⟩ | ⟨z, buf, rfl⟩ | ⟨hsend, hfunctor⟩ := hcases
  · exact ha.send hT hrun w
  · exact ha.sendInLoop hs hrun w
  · have hperform : g.perform s k op = g := by
      cases op with
      | send z buf => exact absurd rfl (hsend z buf)
      | sendInLoop z buf => exact absurd rfl (hfunctor z buf)
      | _ => rfl
    have hbrings : ∀ x, op.brings x = none := by
      intro x
      cases op with
      | sendInLoop z buf => exact absurd rfl (hfunctor z buf)
      | _ => rfl
    rw [hperform]
    refine ⟨fun x => ?_, fun x e he => ?_, fun x => ?_⟩
    · rw [waiting_execOp w hsend]
      refine (ha.queued x).trans ((hadvance x).trans ?_)
      rw [hbrings, Option.toList_none, ite_self, List.nil_append]
    · rw [hloop]
      exact ha.apart x e he
    · rw [offers_perform hsend hfunctor]
      exact ha.heard x

/-! ## Steps -/

/-- Only the drain loop adds to the reads, and no statement makes the thread turn to another
    connection. -/
theorem reads_perform {w : IoResult} (hop : op.isDrain = false) :
    (r.perform s k w op).reads = r.reads ∧ (r.perform s k w op).serving = r.serving := by
  cases op with
  | handleRead x readv =>
    cases readv with
    | none => exact ⟨rfl, rfl⟩
    | some data => cases data <;> exact ⟨rfl, rfl⟩
  | send x buf =>
    simp only [Transcript.perform]
    split <;> exact ⟨rfl, rfl⟩
  | drainRequests x => cases hop
  | _ => exact ⟨rfl, rfl⟩

/-- A statement by cases: the drain loop, a broadcast, a `send`, and what tells nothing. -/
theorem Conveys.perform (h : s.Conveys g.transcript x (g.told x) missed) (ha : s.Attributed g)
    (hT : s.Transcribed g.transcript) (hs : s.Sound L) (hrun : s.threads.running k = op :: rest)
    (w : IoResult) :
    ∃ missed', ((s.advance k rest).execOp k w op).Conveys (g.transcript.perform s k w op) x
        ((g.perform s k op).told x) missed' ∧ (s.Joined x → missed' = missed) := by
  obtain ⟨added, hp, hadded⟩ := hT.proceeds hs hrun w
  have hhush : op.isDrain = false → (∀ msg, op ≠ .broadcast msg) → op.tells x = none →
      (g.perform s k op).told x = g.told x →
      ∃ missed', ((s.advance k rest).execOp k w op).Conveys (g.transcript.perform s k w op) x
        ((g.perform s k op).told x) missed' ∧ (s.Joined x → missed' = missed) := by
    intro hdrain hbroadcast htells htold
    obtain ⟨hreads, hserving⟩ := reads_perform (r := g.transcript) (s := s) (k := k) (w := w) hdrain
    rw [htold]
    exact ⟨missed, h.hushes (hp.hushes hreads hserving (mem_connections_execOp hs hrun w) htells
      fun o ho => ChatOp.tells_of_not_speech (hadded hdrain hbroadcast o ho) x), fun _ => rfl⟩
  cases op with
  | drainRequests y => exact ⟨missed, h.drain hT hs hrun, fun _ => rfl⟩
  | broadcast msg => exact h.broadcast hT hrun
  | send z buf =>
    obtain ⟨y, hserving, -⟩ := (hT.thread k).sends z buf (hrun ▸ List.mem_cons_self)
    have hy : s.loop y = k := ((hT.thread k).serving y hserving).1
    obtain ⟨hreads, hr⟩ : (g.transcript.perform s k w (.send z buf)).reads = g.transcript.reads ∧
        (g.transcript.perform s k w (.send z buf)).serving = g.transcript.serving :=
      reads_perform rfl
    have hconnections : ((s.advance k rest).send k z buf w).connections = s.connections := by
      unfold WebChatServer.send
      split
      · split <;> rfl
      · rfl
    exact ⟨missed, h.send hs hserving hy (proceeds_send w hrun) hconnections hreads hr
      (told_send ha hserving hy z buf), fun _ => rfl⟩
  | sendInLoop z buf =>
    exact hhush rfl (by simp) rfl (funext fun v => told_deliver z v)
  | _ => exact hhush rfl (by simp) rfl rfl

/-- What is known of a receiver. -/
structure Hears (s : WebChatServer κ ι) (g : Hearing κ ι) (x : ι) (missed : ι → List Bytes) :
    Prop where
  sound : s.Sound fun _ => True
  transcribed : s.Transcribed g.transcript
  attributed : s.Attributed g
  conveys : s.Conveys g.transcript x (g.told x) missed

omit [DecidableEq κ] in
theorem Hears.tick (h : s.Hears g x missed) {now : ℕ} (hle : s.clock ≤ now) (hlt : now < kInt64Max) :
    { s with clock := now }.Hears g x missed where
  sound := h.sound.tick hle hlt
  transcribed := h.transcribed.tick now
  attributed := ⟨h.attributed.queued, h.attributed.apart, h.attributed.heard⟩
  conveys := ⟨h.conveys.absent, h.conveys.account⟩

/-- Step lemma. From the time on when it is entered, a connection misses nothing more. -/
theorem Hears.exec (h : s.Hears g x missed) {l : ℕ × ChatStep κ ι} (hl : s.Enabled l) :
    ∃ missed', (s.exec l).Hears (Hearing.note s g l) x missed' ∧
      (s.Joined x → missed' = missed ∧ (s.exec l).Joined x) := by
  have hsound := h.sound.exec hl fun _ _ _ => trivial
  have htranscribed := h.transcribed.exec h.sound hl
  obtain ⟨now, l⟩ := l
  obtain ⟨hle, hlt, hready⟩ := hl
  have ht := h.tick hle hlt
  by_cases hperform : ∃ k w, l = .perform k w
  · obtain ⟨k, w, rfl⟩ := hperform
    cases hrun : s.threads.running k with
    | nil =>
      have hexec : s.exec (now, .perform k w) = { s with clock := now } := by
        show WebChatServer.perform { s with clock := now } k w = _
        unfold WebChatServer.perform
        rw [hrun]
      have hnote : Hearing.note s g (now, .perform k w) = g := by
        simp only [Hearing.note, Hearing.strings, Transcript.note, hrun]
      rw [hexec, hnote]
      exact ⟨missed, ht, fun hjoined => ⟨rfl, hjoined⟩⟩
    | cons op rest =>
      have hexec : s.exec (now, .perform k w) =
          (WebChatServer.advance { s with clock := now } k rest).execOp k w op := by
        show WebChatServer.perform { s with clock := now } k w = _
        unfold WebChatServer.perform
        rw [hrun]
      have hnote : Hearing.note s g (now, .perform k w) =
          { g.perform { s with clock := now } k op with
            transcript := g.transcript.perform { s with clock := now } k w op } := by
        simp only [Hearing.note, Hearing.strings, Transcript.note, hrun]
        rfl
      obtain ⟨missed', hconveys, hjoined⟩ :=
        ht.conveys.perform ht.attributed ht.transcribed ht.sound hrun w
      have hattributed := ht.attributed.perform ht.transcribed ht.sound hrun w
      refine ⟨missed', ⟨hsound, htranscribed, ?_, ?_⟩, fun hj => ⟨hjoined hj, ?_⟩⟩
      · rw [hexec, hnote]
        exact hattributed
      · rw [hexec, hnote]
        exact hconveys
      · rw [hexec]
        exact Joined.execOp (s := { s with clock := now }) hj ht.transcribed ht.sound hrun w
  · have hl : ∀ k w, l ≠ .perform k w := fun k w heq => hperform ⟨k, w, heq⟩
    obtain ⟨k, v, ops, hb, hnote⟩ := ht.transcribed.begins ht.sound hready hl now
    have hstrings : Hearing.note s g (now, l) =
        { g with transcript := Transcript.note { s with clock := now } g.transcript (now, l) } := by
      cases l with
      | perform k w => exact absurd rfl (hl k w)
      | _ => rfl
    have hh : WebChatServer.Hushes { s with clock := now } (s.exec (now, l)) g.transcript
        (g.transcript.start k v) x := hb.hushes
    refine ⟨missed, ⟨hsound, htranscribed, ?_, ?_⟩, fun hj => ⟨rfl, hh.joined hj⟩⟩
    · rw [hstrings, hnote]
      refine ⟨fun z => ?_, fun z e he => ?_, ht.attributed.heard⟩
      · exact (ht.attributed.queued z).trans
          (waiting_execStep (s := { s with clock := now }) hready hl).symm
      · exact hb.glides.loop ▸ ht.attributed.apart z e he
    · rw [hstrings, hnote]
      exact ht.conveys.hushes hh

/-! ## Runs -/

omit [DecidableEq κ] in
theorem Opening.hears (h : s.Opening) (x : ι) :
    s.Hears ({} : Hearing κ ι) x fun _ => [] := by
  have hnil : ∀ k, s.threads.running k = [] := h.running
  have hnone : requestsIn [] = [] := by
    have hparsed : parsed [] = ((.new, []), []) := recorder_wait (by decide) rfl []
    rw [requestsIn, hparsed]
  refine ⟨h.toFresh.sound _, h.transcribed, ⟨fun y => ?_, by simp, fun _ => rfl⟩,
    fun _ _ => ⟨fun _ => rfl, fun k buf hmem => ?_⟩, fun y => ⟨[], ?_, fun _ => ⟨[], ?_, fun _ => rfl⟩⟩⟩
  · rw [waiting, Threads.todo, hnil, h.queued]
    rfl
  · rw [hnil] at hmem
    cases hmem
  · rw [said]
    show (requestsIn []).filterMap _ = _
    rw [hnone]
    rfl
  · rw [outgoing, hnil, List.filterMap_nil, ite_self]
    rfl

/-- Run lemma. -/
theorem Opening.hears_run {s₀ : WebChatServer κ ι} {ls : List (ℕ × ChatStep κ ι)} (h₀ : s₀.Opening)
    (hrun : Run Step s₀ ls s) (x : ι) : ∃ missed, s.Hears (s₀.hearing ls) x missed := by
  have hrun' : Run (fun s l t => WebChatServer.Enabled s l ∧ t = WebChatServer.exec s l) s₀ ls s :=
    hrun
  refine hrun'.invariant_recording
    (P := fun s (g : Hearing κ ι) => ∃ missed, s.Hears g x missed) ⟨_, h₀.hears x⟩ ?_
  rintro s g l ⟨missed, h⟩ hl
  obtain ⟨missed', h', -⟩ := h.exec hl
  exact ⟨missed', h'⟩

/-- Run lemma for a connection that has been entered. -/
theorem Hears.run (h : s.Hears g x missed) (hjoined : s.Joined x) {ls : List (ℕ × ChatStep κ ι)}
    (hrun : Run Step s ls t) : t.Hears (Run.recording WebChatServer.exec Hearing.note s g ls) x missed := by
  have hrun' : Run (fun s l t => WebChatServer.Enabled s l ∧ t = WebChatServer.exec s l) s ls t :=
    hrun
  refine (hrun'.invariant_recording
    (P := fun s (g : Hearing κ ι) => s.Joined x ∧ s.Hears g x missed) ⟨hjoined, h⟩ ?_).2
  rintro s g l ⟨hj, h⟩ hl
  obtain ⟨missed', h', hkeep⟩ := h.exec hl
  obtain ⟨rfl, hj'⟩ := hkeep hj
  exact ⟨hj', h'⟩

/-- The transcript is a part of the record. -/
theorem transcript_hearing (s₀ : WebChatServer κ ι) (ls : List (ℕ × ChatStep κ ι)) :
    (s₀.hearing ls).transcript = s₀.transcript ls := by
  induction ls using List.reverseRecOn with
  | nil => rfl
  | append_singleton ls l ih =>
    rw [hearing, transcript, Run.recording_concat, Run.recording_concat]
    exact congrArg (Transcript.note _ · l) ih

end WebChatServer

end AegisNet
