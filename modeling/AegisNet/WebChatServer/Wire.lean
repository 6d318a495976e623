import AegisNet.WebChatServer.Transcript.Plain

/-!
# What goes out on a connection

The loops of the server run side by side. A thread writes to the connections of its own loop, it
queues what others shall write, and a broadcast comes between the replies to requests. Still the
bytes of a connection are whole strings, one after the other. Of these, those that answer its own
requests are what a client by itself would have been answered, and each of the others is the
broadcast of a request that another connection has sent.

## Main definitions

- `WebChatServer.Touches` — a statement about one connection
- `WebChatServer.Opening` — the server before its first connection, with new connections

## Main results

- `WebChatServer.Transcribed.exec`, `WebChatServer.Transcribed.run` — the invariant over steps and
  runs
- `WebChatServer.strings_whole`, `WebChatServer.answered_as_alone`
-/

namespace AegisNet

namespace WebChatServer

variable {κ ι : Type*} [DecidableEq κ] [LinearOrder ι] {s t : WebChatServer κ ι}
  {r r' : Transcript κ ι} {L : ι → Prop} {k : κ} {x y : ι} {op : ChatOp ι}
  {rest added : List (ChatOp ι)}

/-! ## Statements about one connection -/

/-- From `s` to `t` the thread of `k` has made the statement `op` about `x`, before `rest`. -/
structure Touches (s t : WebChatServer κ ι) (k : κ) (x : ι) (op : ChatOp ι)
    (rest added : List (ChatOp ι)) : Prop where
  before : s.threads.running k = op :: rest
  after : t.threads.running k = added ++ rest
  other : ∀ j, j ≠ k → t.threads.running j = s.threads.running j
  loop : t.loop = s.loop
  peer : t.peer = s.peer
  connections : t.connections = s.connections
  conn : ∀ y, y ≠ x → t.conn y = s.conn y
  parsers : ∀ y, y ≠ x → t.parsers y = s.parsers y
  queued : ∀ y j buf, .sendInLoop y buf ∈ t.threads.todo ChatFunctor.body j →
    .sendInLoop y buf ∈ s.threads.todo ChatFunctor.body j

/-- A method queues no `sendInLoop`. -/
theorem queued_method {f : TcpConnection → TcpConnection} {j : κ} {buf : Bytes}
    (hmem : .sendInLoop y buf ∈ (s.method k x f).threads.todo ChatFunctor.body j) :
    .sendInLoop y buf ∈ s.threads.todo ChatFunctor.body j := by
  obtain ⟨-, hmade⟩ | hold | ⟨-, g, -, hg⟩ := mem_todo_method.mp hmem
  · obtain ⟨e, -, hop⟩ := List.mem_flatMap.mp hmade
    cases e <;> simp [ChatOp.ofCallback] at hop
  · exact hold
  · cases hg

theorem touches_method {f : TcpConnection → TcpConnection} {es : List Effect}
    (hrun : s.threads.running k = op :: rest) (hm : (s.conn x).Makes (f (s.conn x)) es) :
    s.Touches ((s.advance k rest).method k x f) k x op rest (es.flatMap (ChatOp.ofCallback x)) where
  before := hrun
  after := by rw [running_method_self (s := s.advance k rest) hm, running_advance]
  other j hj := by
    rw [running_method, Function.update_of_ne hj]
    exact Function.update_of_ne hj ..
  loop := rfl
  peer := rfl
  connections := rfl
  conn y hy := conn_method_of_ne hy
  parsers _ _ := rfl
  queued _ _ _ hmem := (mem_todo_advance hrun).mpr (.inr (queued_method hmem))

theorem conn_method_self {f : TcpConnection → TcpConnection} :
    (s.method k x f).conn x = { f (s.conn x) with loop := {} } :=
  Function.update_self ..

omit [DecidableEq κ] in
theorem Touches.extends (ht : s.Touches t k x op rest added)
    (hrank : (s.conn x).state.rank ≤ (t.conn x).state.rank)
    (hspoken : ∀ y msg, s.Spoken r y msg → s.Spoken r' y msg) : s.Extends t r r' where
  loop := ht.loop
  peer := ht.peer
  rank y := by
    by_cases hy : y = x
    · rwa [hy]
    · rw [ht.conn y hy]
  spoken y msg hmsg := by
    rw [Spoken, ht.peer]
    exact hspoken y msg hmsg

omit [DecidableEq κ] in
/-- What a thread does with input, it does for the connection that it serves. -/
theorem Attends.serving_eq (h : s.Attends r k) (hop : op ∈ s.threads.running k)
    (howner : op.owner = some x) (hinput : op.isInput = true) :
    r.serving k = some x ∧ s.loop x = k := by
  cases hs : r.serving k with
  | none =>
    have hidle := (h.idle hs op hop).2
    rw [hinput] at hidle
    cases hidle
  | some y =>
    obtain ⟨hloop, -, hserves⟩ := h.serving y hs
    obtain rfl := eq_of_serves (hserves op hop) howner
    exact ⟨rfl, hloop⟩

/-- A statement about `x` passes the other connections by. -/
theorem Touches.passes (ht : s.Touches t k x op rest added) (hy : y ≠ x)
    (hreads : r'.reads y = r.reads y) (hunread : r'.unread y = r.unread y)
    (hoffers : r'.offers y = r.offers y) (hserving : r'.serving = r.serving)
    (hreply : r.serving k = some y → op.reply y = none ∧ ∀ o ∈ added, o.reply y = none)
    (hdrain : .drainRequests y ∉ op :: added) : s.Passes t r r' y where
  carries := by
    rw [ht.conn y hy]
    exact .refl _
  parser _ := by rw [ht.parsers y hy]
  reads := hreads
  unread := hunread
  offers := hoffers
  live _ c := by
    by_cases hk : s.loop y = k
    · rw [pending, pending, congrFun ht.loop y, hserving, hk]
      split
      · next hs =>
        obtain ⟨hop, hadded⟩ := hreply hs
        rw [ht.before, ht.after, List.filterMap_append, List.filterMap_eq_nil_iff.mpr hadded,
          List.filterMap_cons_none hop]
        rfl
      · rfl
    · rw [pending, pending, ht.loop, hserving, ht.other _ hk]
  drain := by
    obtain ⟨hop, hadded⟩ := not_or.mp (List.mem_cons.not.mp hdrain)
    by_cases hk : s.loop y = k
    · rw [hk, ht.before, ht.after]
      simp [hop, hadded]
    · rw [ht.other _ hk]
  queued j buf hmem := .inl (ht.queued y j buf hmem)

/-! ## Input -/

section Read

variable {ch : UInt8} {data : Bytes}

theorem handleRead_bytes {c : TcpConnection} (hcb : c.messageCallback = true) :
    c.handleRead (some (ch :: data)) [] =
      { c with inputBuffer := c.inputBuffer.readFd (ch :: data) }.emit .messageCallback := by
  simp only [TcpConnection.handleRead]
  rw [if_pos (by simp), if_pos hcb]
  rfl

/-- `handleRead` of some bytes calls `onMessage`. -/
theorem touches_read (hcb : (s.conn x).messageCallback = true)
    (hrun : s.threads.running k = .handleRead x (some (ch :: data)) :: rest) :
    s.Touches ((s.advance k rest).method k x fun c => c.handleRead (some (ch :: data)) []) k x
      (.handleRead x (some (ch :: data))) rest [.refreshIdleTimer x, .drainRequests x] := by
  have hm : (s.conn x).Makes ((s.conn x).handleRead (some (ch :: data)) [])
      [.messageCallback] := by
    rw [handleRead_bytes hcb]
    exact ⟨callbacks_append .., rfl⟩
  exact touches_method (f := fun c => c.handleRead (some (ch :: data)) []) hrun hm

theorem conn_read (hcb : (s.conn x).messageCallback = true) :
    ((s.advance k rest).method k x fun c => c.handleRead (some (ch :: data)) []).conn x =
      { s.conn x with
        inputBuffer := (s.conn x).inputBuffer.readFd (ch :: data)
        trace := (s.conn x).trace ++ [.messageCallback]
        loop := {} } := by
  rw [conn_method_self]
  show { (s.conn x).handleRead (some (ch :: data)) [] with loop := {} } = _
  rw [handleRead_bytes hcb]
  rfl

omit [DecidableEq κ] in
/-- Before the read everything was drained. -/
theorem Served.unread_eq_none (h : s.Served r x) (hs : s.Sound L) (hx : s.loop x = k)
    (hrun : s.threads.running k = op :: rest) (hop : op.isEntry = true) : r.unread x = none := by
  have hnot : .drainRequests x ∉ s.threads.running (s.loop x) := by
    rw [hx, hrun]
    intro hmem
    obtain rfl | hmem := List.mem_cons.mp hmem
    · cases hop
    · have hduty := ((hs.thread k).head _ _ hrun hop).2.1 x _ hmem
      simp [ChatOp.duty] at hduty
  simpa using fun hsome => hnot (h.unread.mp hsome)

theorem Transcribed.read (h : s.Transcribed r) (hs : s.Sound L)
    (hrun : s.threads.running k = .handleRead x (some (ch :: data)) :: rest) :
    ((s.advance k rest).method k x fun c => c.handleRead (some (ch :: data)) []).Transcribed
      (r.receive x (ch :: data)) := by
  have hmem : ChatOp.handleRead x (some (ch :: data)) ∈ s.threads.running k :=
    hrun ▸ List.mem_cons_self
  obtain ⟨hserving, hx⟩ := (h.thread k).serving_eq hmem rfl rfl
  have hsx := h.conn x
  have ht := touches_read hsx.messageCallback hrun
  have hconn := @conn_read _ _ _ _ s k x rest ch data hsx.messageCallback
  have hparsers : ((s.advance k rest).method k x fun c =>
      c.handleRead (some (ch :: data)) []).parsers = s.parsers := rfl
  generalize ((s.advance k rest).method k x fun c => c.handleRead (some (ch :: data)) []) = t at *
  have he : s.Extends t r (r.receive x (ch :: data)) :=
    ht.extends (by rw [hconn]) fun _ _ => id
  refine ⟨fun j => ?_, fun y => ?_, ht.connections ▸ h.nodup⟩
  · by_cases hj : j = k
    · subst hj
      refine (h.thread j).next he rfl hrun ht.after (fun hnone => ?_) (fun z hz => ?_) (by simp)
        (fun o _ _ o' ho' => ?_) (by simp) (by simp)
      · rw [hserving] at hnone
        cases hnone
      · obtain rfl := Option.some.inj (hserving.symm.trans hz)
        simp [ChatOp.serves, ChatOp.owner]
      · obtain ho' | ho' := List.mem_append.mp ho'
        · simp only [List.mem_cons, List.not_mem_nil, or_false] at ho'
          obtain rfl | rfl := ho' <;> rfl
        · exact (h.thread j).quiet _ hmem (.inl rfl) o' (hrun ▸ List.mem_cons_of_mem _ ho')
    · exact (h.thread j).frame he (ht.other j hj) rfl
  · by_cases hy : y = x
    · subst hy
      have hnone := hsx.unread_eq_none hs hx hrun rfl
      refine ⟨?_, ?_, ?_, fun hdown => ?_, fun hrank => ?_, ?_, ?_, ?_⟩
      · rw [hconn]
        exact hsx.messageCallback
      · rw [hconn]
        exact (TcpConnection.messageStream_emit (c := s.conn y) (by simp)).trans hsx.stream
      · rw [ht.loop, hx, ht.after, Transcript.unread_receive_self]
        simp
      · -- the bytes are behind what the parser has left
        rw [hconn] at hdown ⊢
        obtain ⟨hparser, hinput⟩ := hsx.parse hdown
        rw [hnone] at hinput
        rw [hparsers, ht.peer]
        refine ⟨hparser, ?_⟩
        show (s.conn y).inputBuffer.readFd _ = _
        rw [hinput, Transcript.unread_receive_self]
        rfl
      · rw [hconn] at hrank
        have hpending : t.pending (r.receive y (ch :: data)) y = s.pending r y := by
          rw [pending, pending, ht.loop, hx, ht.after, hrun]
          rfl
        rw [hpending, ht.peer]
        exact hsx.live hrank
      · rw [ht.peer]
        exact hsx.own
      · exact fun o ho hown => he.foreign (hsx.foreign o ho hown)
      · exact fun j buf hq => he.foreign (hsx.queued j buf (ht.queued y j buf hq))
    · have hunread := r.unread_receive_of_ne hy (ch :: data)
      refine (h.conn y).passes he (ht.passes hy rfl hunread rfl rfl ?_ ?_)
      · exact fun _ => ⟨rfl, by simp [ChatOp.reply]⟩
      · simp [hy]

end Read

/-! ## The drain loop -/

section Drain

/-- What a client has been sent stays sent. -/
theorem sent_prefix_foldl_perform (rs : List Reply) (c : Client) :
    c.sent <+: (rs.foldl Client.perform c).sent := by
  induction rs generalizing c with
  | nil => exact List.prefix_refl _
  | cons reply rs ih =>
    refine List.IsPrefix.trans ?_ (ih (c.perform reply))
    cases reply <;> simp only [Client.perform, Client.send, Client.shutdown] <;> split <;> simp

theorem reference_sent_mono (peer : Bytes) (chunks : List Bytes) (chunk : Bytes) :
    (reference peer chunks).sent <+: (reference peer (chunks ++ [chunk])).sent := by
  rw [reference_concat]
  exact sent_prefix_foldl_perform _ ((reference peer chunks).received chunk)

/-- A broadcast is for a request to the chat. -/
theorem broadcast_mem_replies {peer : Bytes} {requests : List Request} {malformed : Bool}
    {msg : Bytes} (h : Reply.broadcast msg ∈ replies peer requests malformed) :
    ∃ request ∈ requests, request.path = chatPath ∧
      msg = text "[" ++ peer ++ text "]: " ++ request.body := by
  cases malformed with
  | true => simp [replies] at h
  | false =>
    simp only [replies, Bool.false_eq_true, if_false, List.mem_flatMap] at h
    obtain ⟨request, hmem, hreply⟩ := h
    unfold replyTo at hreply
    split at hreply
    · simp at hreply
    · split at hreply
      · next hpath => exact ⟨request, hmem, hpath, by simpa using hreply⟩
      · cases hreply

theorem reply_ofReply (reply : Reply) : (ChatOp.ofReply x reply).reply x = some reply := by
  cases reply <;> simp [ChatOp.ofReply, ChatOp.reply]

theorem filterMap_reply_ofReply (rs : List Reply) :
    (rs.map (ChatOp.ofReply x)).filterMap (ChatOp.reply x) = rs := by
  rw [List.filterMap_map]
  exact (List.filterMap_congr fun reply _ => reply_ofReply reply).trans List.filterMap_some

/-- The replies of the read `chunk`. -/
def repliesOf (s : WebChatServer κ ι) (r : Transcript κ ι) (x : ι) (chunk : Bytes) : List Reply :=
  replies (s.peer x) ((reference (s.peer x) (r.reads x)).drained chunk).requests
    ((reference (s.peer x) (r.reads x)).drained chunk).malformedRequest

theorem touches_drain (hrun : s.threads.running k = .drainRequests x :: rest) {chunk : Bytes}
    (hparser : (s.parsers x).getD .new = (reference (s.peer x) (r.reads x)).parser)
    (hinput : (s.conn x).inputBuffer =
      (reference (s.peer x) (r.reads x)).inputBuffer.readFd chunk) :
    s.Touches ((s.advance k rest).drainRequests k x) k x (.drainRequests x) rest
      ((s.repliesOf r x chunk).map (ChatOp.ofReply x)) ∧
    (((s.advance k rest).drainRequests k x).parsers x).getD .new =
      ((reference (s.peer x) (r.reads x)).drained chunk).parser ∧
    ((s.advance k rest).drainRequests k x).conn x =
      { s.conn x with
        inputBuffer := ((reference (s.peer x) (r.reads x)).drained chunk).buf
        loop := {} } := by
  have hdrained : drainLoop (((s.advance k rest).parsers x).getD .new)
      ((s.advance k rest).conn x).inputBuffer [] =
        (reference (s.peer x) (r.reads x)).drained chunk := by
    show drainLoop ((s.parsers x).getD .new) (s.conn x).inputBuffer [] = _
    rw [hparser, hinput]
    rfl
  unfold WebChatServer.drainRequests repliesOf
  dsimp only
  rw [hdrained]
  generalize (reference (s.peer x) (r.reads x)).drained chunk = drained
  have hm : (s.conn x).Makes { s.conn x with inputBuffer := drained.buf } [] :=
    ⟨(List.append_nil _).symm, rfl⟩
  have ht := touches_method (f := fun c => { c with inputBuffer := drained.buf }) hrun hm
  refine ⟨⟨hrun, ?_, fun j hj => ?_, rfl, rfl, rfl, ht.conn, fun y hy => ?_,
    fun y j buf hmem => ?_⟩, ?_, ?_⟩
  · refine (Function.update_self ..).trans ?_
    exact congrArg (_ ++ ·) ht.after
  · exact (Function.update_of_ne hj ..).trans (ht.other j hj)
  · exact Function.update_of_ne hy ..
  · obtain ⟨-, hmem⟩ | hmem := mem_todo_call.mp hmem
    · obtain ⟨reply, -, heq⟩ := List.mem_map.mp hmem
      cases reply <;> cases heq
    · exact ht.queued y j buf hmem
  · show (Function.update s.parsers x (some drained.parser) x).getD .new = _
    rw [Function.update_self]
    rfl
  · exact conn_method_self (s := (s.advance k rest).setParser x (some drained.parser)) (k := k)
      (f := fun c => { c with inputBuffer := drained.buf })

/-- More reads, more requests. -/
theorem requestsIn_subset (stream more : Bytes) :
    requestsIn stream ⊆ requestsIn (stream ++ more) := by
  rw [requestsIn_append]
  exact List.subset_append_left _ _

/-- At the drain loop `onMessage` is at its end, and the connection is not down. -/
theorem Sound.at_drain (hs : s.Sound L) (hrun : s.threads.running k = .drainRequests x :: rest) :
    (s.advance k rest).work x = [] ∧ (s.conn x).state ≠ .kDisconnected := by
  obtain ⟨m, hat, hallows⟩ := (hs.performing hrun).mode x (by simp)
  rw [if_pos (by simp [ChatOp.duty])] at hallows
  exact ⟨(allows_drainRequests hallows).1, hat.state.trans_ne (settled_of_allows.2 hallows)⟩

/-- `onMessage` of connection `x`, whose read was `chunk`, goes through its drain loop. -/
structure Drains (s t : WebChatServer κ ι) (r : Transcript κ ι) (k : κ) (x : ι)
    (rest : List (ChatOp ι)) (chunk : Bytes) : Prop where
  serving : r.serving k = some x
  loop : s.loop x = k
  unread : r.unread x = some chunk
  touches : s.Touches t k x (.drainRequests x) rest
    ((s.repliesOf r x chunk).map (ChatOp.ofReply x))
  parser : (t.parsers x).getD .new = ((reference (s.peer x) (r.reads x)).drained chunk).parser
  conn : t.conn x =
    { s.conn x with
      inputBuffer := ((reference (s.peer x) (r.reads x)).drained chunk).buf
      loop := {} }
  /-- Of the connection nothing else is left to do. -/
  idle : ∀ o ∈ rest, o.duty x = false
  /-- Nothing else is to be said. -/
  silent : ∀ o ∈ rest, o.isSpeech = false

theorem Transcribed.drains (h : s.Transcribed r) (hs : s.Sound L)
    (hrun : s.threads.running k = .drainRequests x :: rest) :
    ∃ chunk, s.Drains ((s.advance k rest).drainRequests k x) r k x rest chunk := by
  have hmem : ChatOp.drainRequests x ∈ s.threads.running k := hrun ▸ List.mem_cons_self
  obtain ⟨hserving, hx⟩ := (h.thread k).serving_eq hmem rfl rfl
  have hsx := h.conn x
  obtain ⟨chunk, hchunk⟩ : ∃ chunk, r.unread x = some chunk :=
    Option.isSome_iff_exists.mp (hsx.unread.mpr (hx ▸ hmem))
  obtain ⟨hwork, hup⟩ := hs.at_drain hrun
  obtain ⟨hparser, hinput⟩ := hsx.parse hup
  rw [hchunk] at hinput
  obtain ⟨ht, hparser', hconn⟩ := touches_drain (r := r) hrun hparser hinput
  refine ⟨chunk, hserving, hx, hchunk, ht, hparser', hconn, fun o ho => ?_, fun o ho => ?_⟩
  · have hnil : List.filter (ChatOp.duty x) rest = [] := by
      rw [← hwork, work]
      show _ = List.filter _ (Function.update s.threads.running k rest (s.loop x))
      rw [hx, Function.update_self]
    simpa using List.filter_eq_nil_iff.mp hnil o ho
  · exact (h.thread k).quiet _ hmem (.inr rfl) o (hrun ▸ List.mem_cons_of_mem _ ho)

section Drains

variable {chunk : Bytes}

omit [DecidableEq κ] in
theorem Drains.notMem (hd : s.Drains t r k x rest chunk) : .drainRequests x ∉ rest := by
  intro hmem
  have hduty := hd.idle _ hmem
  simp [ChatOp.duty] at hduty

omit [DecidableEq κ] in
theorem Drains.filterMap_rest (hd : s.Drains t r k x rest chunk) :
    rest.filterMap (ChatOp.reply x) = [] := by
  refine List.filterMap_eq_nil_iff.mpr fun o ho => ?_
  have hduty := hd.idle o ho
  have hspeech := hd.silent o ho
  cases o with
  | send _ _ => cases hspeech
  | broadcast _ => cases hspeech
  | shutdown z =>
    have hne : z ≠ x := fun hz => by simp [ChatOp.duty, hz] at hduty
    exact if_neg hne
  | _ => rfl

omit [DecidableEq κ] in
theorem Drains.extends (hd : s.Drains t r k x rest chunk) : s.Extends t r (r.drain x) := by
  refine hd.touches.extends (by rw [hd.conn]) ?_
  rintro y msg ⟨request, hrequest, hpath, hmsg⟩
  refine ⟨request, ?_, hpath, hmsg⟩
  by_cases hy : y = x
  · subst hy
    rw [Transcript.reads_drain_self hd.unread, List.flatten_append]
    exact requestsIn_subset _ _ hrequest
  · rwa [Transcript.reads_drain_of_ne hy]

omit [DecidableEq κ] in
theorem Attends.drain (h : s.Attends r k) (hs : s.Sound L) (hd : s.Drains t r k x rest chunk) :
    t.Attends (r.drain x) k := by
  have hrun := hd.touches.before
  obtain ⟨-, -, hrequests, -⟩ := (follows_reference (s.peer x) (r.reads x)).drain chunk
  refine h.next hd.extends rfl hrun hd.touches.after (fun hnone => ?_) (fun z hz o ho => ?_)
    (fun z hmem => ?_) (fun o ho hopen => ?_) (fun msg hmem => ?_) fun z buf hmem => ?_
  · rw [hd.serving] at hnone
    cases hnone
  · obtain rfl := Option.some.inj (hd.serving.symm.trans hz)
    obtain ⟨reply, -, rfl⟩ := List.mem_map.mp ho
    cases reply <;> simp [ChatOp.ofReply, ChatOp.serves, ChatOp.owner]
  · obtain ⟨reply, -, heq⟩ := List.mem_map.mp hmem
    cases reply <;> cases heq
  · -- what is left starts no callback
    exfalso
    obtain ho | ho := List.mem_append.mp ho
    · obtain ⟨reply, -, rfl⟩ := List.mem_map.mp ho
      cases reply <;> simp [ChatOp.ofReply, ChatOp.isEntry, ChatOp.isDrain] at hopen
    · obtain hentry | hdrain := hopen
      · rw [(hs.thread k).tail _ _ hrun o ho] at hentry
        cases hentry
      · obtain ⟨z, rfl⟩ : ∃ z, o = .drainRequests z := by
          cases o <;> simp_all [ChatOp.isDrain]
        have hz := eq_of_serves ((h.serving x hd.serving).2.2 _
          (hrun ▸ List.mem_cons_of_mem _ ho)) rfl
        exact hd.notMem (hz ▸ ho)
  · obtain ⟨reply, hreply, heq⟩ := List.mem_map.mp hmem
    obtain rfl : reply = .broadcast msg := by cases reply <;> simp_all [ChatOp.ofReply]
    obtain ⟨request, hrequest, hpath, hmsg⟩ := broadcast_mem_replies hreply
    refine ⟨x, hd.serving, request, ?_, hpath, by rwa [hd.touches.peer]⟩
    rw [Transcript.reads_drain_self hd.unread, List.flatten_append, List.flatten_singleton,
      hrequests]
    exact List.mem_append_right _ hrequest
  · obtain ⟨reply, -, heq⟩ := List.mem_map.mp hmem
    have hz : z = x := by cases reply <;> simp_all [ChatOp.ofReply]
    exact ⟨x, hd.serving, fun hne => absurd hz hne⟩

omit [DecidableEq κ] in
/-- The replies are still to be made, and they are those of the client by itself. -/
theorem Served.drain (hsx : s.Served r x) (hd : s.Drains t r k x rest chunk) :
    t.Served (r.drain x) x := by
  have ht := hd.touches
  have hconn := hd.conn
  have hparts := Client.parser_foldl_perform (s.repliesOf r x chunk)
    ((reference (s.peer x) (r.reads x)).received chunk)
  have href : reference (s.peer x) (r.reads x ++ [chunk]) =
      (s.repliesOf r x chunk).foldl Client.perform
        ((reference (s.peer x) (r.reads x)).received chunk) :=
    reference_concat ..
  refine ⟨?_, ?_, ?_, fun _ => ?_, fun hrank => ?_, ?_, ?_, ?_⟩
  · rw [hconn]
    exact hsx.messageCallback
  · rw [hconn]
    exact hsx.stream
  · rw [ht.loop, hd.loop, ht.after, Transcript.unread_drain_self]
    refine iff_of_false Bool.false_ne_true fun hdrain => ?_
    obtain hdrain | hdrain := List.mem_append.mp hdrain
    · obtain ⟨reply, -, heq⟩ := List.mem_map.mp hdrain
      cases reply <;> cases heq
    · exact hd.notMem hdrain
  · rw [hd.parser, hconn, ht.peer, Transcript.reads_drain_self hd.unread,
      Transcript.unread_drain_self, href, hparts.1]
    exact ⟨rfl, hparts.2.symm⟩
  · rw [hconn] at hrank
    have hlive := hsx.live hrank
    have hnil : s.pending r x = [] := by
      rw [pending, hd.loop, ht.before, if_pos hd.serving, List.filterMap_cons_none rfl,
        hd.filterMap_rest]
    have hpending : t.pending (r.drain x) x = s.repliesOf r x chunk := by
      have hserving' : (r.drain x).serving k = some x := hd.serving
      rw [pending, ht.loop, hd.loop, if_pos hserving', ht.after, List.filterMap_append,
        filterMap_reply_ofReply, hd.filterMap_rest, List.append_nil]
    rw [hnil, List.foldl_nil] at hlive
    rw [hpending, ht.peer, Transcript.reads_drain_self hd.unread, href]
    congr 1
    show ({ parser := _, inputBuffer := _, state := _, sent := r.own x } : Client) = _
    rw [hparts.1, hparts.2, ← hlive]
    rfl
  · rw [ht.peer, Transcript.reads_drain_self hd.unread]
    exact hsx.own.trans (reference_sent_mono _ _ chunk)
  · exact fun o ho hown => hd.extends.foreign (hsx.foreign o ho hown)
  · exact fun j buf hq => hd.extends.foreign (hsx.queued j buf (ht.queued x j buf hq))

end Drains

theorem Transcribed.drain (h : s.Transcribed r) (hs : s.Sound L)
    (hrun : s.threads.running k = .drainRequests x :: rest) :
    ((s.advance k rest).drainRequests k x).Transcribed (r.drain x) := by
  obtain ⟨chunk, hd⟩ := h.drains hs hrun
  have ht := hd.touches
  refine ⟨fun j => ?_, fun y => ?_, ht.connections ▸ h.nodup⟩
  · by_cases hj : j = k
    · exact hj ▸ (h.thread k).drain hs hd
    · exact (h.thread j).frame hd.extends (ht.other j hj) rfl
  · by_cases hy : y = x
    · exact hy ▸ (h.conn x).drain hd
    · refine (h.conn y).passes hd.extends (ht.passes hy (Transcript.reads_drain_of_ne hy)
        (Transcript.unread_drain_of_ne hy) rfl rfl (fun hsy => ?_) fun hdrain => ?_)
      · exact absurd (Option.some.inj (hsy.symm.trans hd.serving)) hy
      · obtain hdrain | hdrain := List.mem_cons.mp hdrain
        · exact hy (ChatOp.drainRequests.inj hdrain)
        · obtain ⟨reply, -, heq⟩ := List.mem_map.mp hdrain
          cases reply <;> cases heq

end Drain

/-! ## Output -/

section Output

variable {own : Bool} {buf : Bytes}

omit [DecidableEq κ] in
theorem own_offer {c : TcpConnection} {w : IoResult} :
    (r.offer x c own buf w).own x = r.own x ++ if own then [buf] else [] := by
  rw [Transcript.own, Transcript.offers_offer_self, List.filter_append, List.map_append]
  cases own <;> rfl

theorem touches_sendInLoop (hrun : s.threads.running k = op :: rest) (buf : Bytes) (w : IoResult) :
    s.Touches ((s.advance k rest).method k x fun c => c.sendInLoop buf w) k x op rest [] :=
  have hm := (TcpConnection.quiet_sendInLoop (s.conn x) buf w).makes
    (TcpConnection.flags_sendInLoop _ buf w)
  touches_method (f := fun c => c.sendInLoop buf w) hrun hm

/-- `sendInLoop` on the thread of the connection: a reply that was pending, or a string from
    another connection. -/
structure Offers (s t : WebChatServer κ ι) (r : Transcript κ ι) (k : κ) (op : ChatOp ι)
    (rest : List (ChatOp ι)) (x : ι) (own : Bool) (buf : Bytes) (w : IoResult) : Prop where
  touches : s.Touches t k x op rest []
  conn : t.conn x = { (s.conn x).sendInLoop buf w with loop := {} }
  parsers : t.parsers = s.parsers
  drain : op.isDrain = false
  reply : ∀ y, r.serving k = some y →
    op.reply y = if own = true ∧ y = x then some (.send buf) else none
  served : own = true → r.serving k = some x ∧ (s.conn x).state = .kConnected
  foreign : own = false → s.Foreign r x buf

section Offers

variable {w : IoResult}

omit [DecidableEq κ] in
theorem Offers.state (ho : s.Offers t r k op rest x own buf w) :
    (t.conn x).state = (s.conn x).state := by
  rw [ho.conn]
  exact TcpConnection.state_sendInLoop ..

omit [DecidableEq κ] in
theorem Offers.extends (ho : s.Offers t r k op rest x own buf w) :
    s.Extends t r (r.offer x (s.conn x) own buf w) :=
  ho.touches.extends (by rw [ho.state]) fun _ _ => id

omit [DecidableEq κ] in
theorem Offers.not_drain (ho : s.Offers t r k op rest x own buf w) (y : ι) :
    .drainRequests y ≠ op := by
  rintro rfl
  cases ho.drain

omit [DecidableEq κ] in
/-- The reply is the first of those that are pending. -/
theorem Offers.pending_own (ho : s.Offers t r k op rest x true buf w) (h : s.Attends r k) :
    s.pending r x = .send buf :: t.pending (r.offer x (s.conn x) true buf w) x := by
  obtain ⟨hserving, -⟩ := ho.served rfl
  have hx : s.loop x = k := (h.serving x hserving).1
  have hserving' : (r.offer x (s.conn x) true buf w).serving k = some x := hserving
  rw [pending, pending, ho.touches.loop, hx, if_pos hserving, if_pos hserving', ho.touches.before,
    ho.touches.after]
  exact List.filterMap_cons_some ((ho.reply x hserving).trans (if_pos ⟨rfl, rfl⟩))

theorem Offers.pending_foreign (ho : s.Offers t r k op rest x false buf w) :
    t.pending (r.offer x (s.conn x) false buf w) x = s.pending r x := by
  have ht := ho.touches
  rw [pending, pending, ht.loop]
  by_cases hx : s.loop x = k
  · rw [hx, ht.before, ht.after]
    show (if r.serving k = some x then _ else _) = _
    split
    · next hserving =>
      exact (List.filterMap_cons_none ((ho.reply x hserving).trans (if_neg (by simp)))).symm
    · rfl
  · rw [ht.other _ hx]
    rfl

omit [DecidableEq κ] in
theorem Attends.offer (h : s.Attends r k) (ho : s.Offers t r k op rest x own buf w) :
    t.Attends (r.offer x (s.conn x) own buf w) k := by
  have hrun := ho.touches.before
  refine h.next ho.extends rfl hrun ho.touches.after (by simp) (by simp) (by simp)
    (fun o hmem hopen o' hmem' => ?_) (by simp) (by simp)
  rw [List.nil_append] at hmem hmem'
  exact h.quiet o (hrun ▸ List.mem_cons_of_mem _ hmem) hopen o'
    (hrun ▸ List.mem_cons_of_mem _ hmem')

omit [DecidableEq κ] in
/-- What has been made of the replies, and what is pending, is still all of them. -/
theorem Served.live_offer (hsx : s.Served r x) (ho : s.Offers t r k op rest x true buf w)
    (h : s.Attends r k) :
    (t.pending (r.offer x (s.conn x) true buf w) x).foldl Client.perform
      { reference (s.peer x) (r.reads x) with
        state := .kConnected
        sent := r.own x ++ [buf] } = reference (s.peer x) (r.reads x) := by
  have hlive := hsx.live (by rw [(ho.served rfl).2]; exact le_refl 1)
  rwa [ho.pending_own h, List.foldl_cons, Client.perform, Client.send, if_pos rfl] at hlive

theorem Served.offer (hsx : s.Served r x) (ho : s.Offers t r k op rest x own buf w)
    (h : s.Attends r k) : t.Served (r.offer x (s.conn x) own buf w) x := by
  have ht := ho.touches
  have hconn := ho.conn
  have he := ho.extends
  obtain ⟨hinput, hcb⟩ := (s.conn x).inputBuffer_sendInLoop buf w
  refine ⟨?_, ?_, ?_, fun hdown => ?_, fun hrank => ?_, ?_, fun o hmem hother => ?_, ?_⟩
  · rw [hconn]
    exact hcb.trans hsx.messageCallback
  · rw [hconn, Transcript.offers_offer_self, List.filter_append, List.flatMap_append,
      ← hsx.stream]
    refine ((s.conn x).messageStream_sendInLoop_takes buf w).trans ?_
    cases (s.conn x).takes buf w <;> simp
  · refine hsx.unread.trans ?_
    by_cases hx : s.loop x = k
    · rw [ht.loop, hx, ht.after, ht.before]
      simp [ho.not_drain]
    · rw [ht.loop, ht.other _ hx]
  · rw [ho.state] at hdown
    rw [ho.parsers, ht.peer, hconn]
    obtain ⟨hparser, hbuf⟩ := hsx.parse hdown
    exact ⟨hparser, hinput.trans hbuf⟩
  · rw [ht.peer, own_offer]
    cases hself : own with
    | true =>
      subst hself
      exact hsx.live_offer ho h
    | false =>
      subst hself
      rw [ho.pending_foreign, if_neg Bool.false_ne_true, List.append_nil]
      rw [ho.state] at hrank
      exact hsx.live hrank
  · rw [ht.peer, own_offer]
    cases hself : own with
    | true =>
      subst hself
      have hsent := sent_prefix_foldl_perform
        (t.pending (r.offer x (s.conn x) true buf w) x)
        { reference (s.peer x) (r.reads x) with
          state := .kConnected
          sent := r.own x ++ [buf] }
      exact hsent.trans (congrArg Client.sent (hsx.live_offer ho h) ▸ List.prefix_refl _)
    | false =>
      rw [if_neg Bool.false_ne_true, List.append_nil]
      exact hsx.own
  · rw [Transcript.offers_offer_self] at hmem
    obtain hmem | hmem := List.mem_append.mp hmem
    · exact he.foreign (hsx.foreign o hmem hother)
    · obtain rfl := List.mem_singleton.mp hmem
      exact he.foreign (ho.foreign hother)
  · exact fun j buf hq => he.foreign (hsx.queued j buf (ht.queued x j buf hq))

theorem Transcribed.offered (h : s.Transcribed r) (hrun : s.threads.running k = op :: rest)
    (w : IoResult) (hdrain : op.isDrain = false)
    (hreply : ∀ y, r.serving k = some y →
      op.reply y = if own = true ∧ y = x then some (.send buf) else none)
    (hown : own = true → r.serving k = some x ∧ (s.conn x).state = .kConnected)
    (hforeign : own = false → s.Foreign r x buf) :
    ((s.advance k rest).method k x fun c => c.sendInLoop buf w).Transcribed
      (r.offer x (s.conn x) own buf w) := by
  have ho : s.Offers ((s.advance k rest).method k x fun c => c.sendInLoop buf w) r k op rest x own
      buf w :=
    ⟨touches_sendInLoop (x := x) hrun buf w, conn_method_self, rfl, hdrain, hreply, hown, hforeign⟩
  have ht := ho.touches
  refine ⟨fun j => ?_, fun y => ?_, ht.connections ▸ h.nodup⟩
  · by_cases hj : j = k
    · exact hj ▸ (h.thread k).offer ho
    · exact (h.thread j).frame ho.extends (ht.other j hj) rfl
  · by_cases hy : y = x
    · exact hy ▸ (h.conn x).offer ho (h.thread k)
    · refine (h.conn y).passes ho.extends (ht.passes hy rfl rfl (Transcript.offers_offer_of_ne hy)
        rfl (fun hsy => ⟨?_, by simp⟩) ?_)
      · rw [hreply y hsy, if_neg (fun hand => hy hand.2)]
      · simpa using ho.not_drain y

end Offers

/-- The strings of a broadcast are replies to one connection at most once. -/
theorem filterMap_reply_sends {l : List ι} (hnodup : l.Nodup) (hx : x ∈ l) (buf : Bytes) :
    (l.map fun y => ChatOp.send y buf).filterMap (ChatOp.reply x) = [.send buf] := by
  have hself : (ChatOp.send x buf).reply x = some (.send buf) := if_pos rfl
  have hother : ∀ y, y ≠ x → (ChatOp.send y buf).reply x = none := fun y hy => if_neg hy
  induction l with
  | nil => cases hx
  | cons y l ih =>
    obtain ⟨hy, hl⟩ := List.nodup_cons.mp hnodup
    by_cases hyx : y = x
    · subst hyx
      have hnil : (l.map fun z => ChatOp.send z buf).filterMap (ChatOp.reply y) = [] := by
        simp only [List.filterMap_eq_nil_iff, List.forall_mem_map]
        exact fun z hz => hother z fun heq => hy (heq ▸ hz)
      rw [List.map_cons, List.filterMap_cons_some hself, hnil]
    · rw [List.map_cons, List.filterMap_cons_none (hother y hyx)]
      exact ih hl ((List.mem_cons.mp hx).resolve_left (Ne.symm hyx))

omit [DecidableEq κ] in
/-- A connection that is served and goes on is in `connections_`. -/
theorem Sound.mem_connections (hs : s.Sound L) (h : s.Attends r k) (hserving : r.serving k = some x)
    (hrank : (s.conn x).state.rank ≤ 1) : x ∈ s.connections := by
  obtain ⟨hloop, hne, -⟩ := h.serving x hserving
  obtain ⟨m, hat, hallows⟩ := hs.mode x
  have hup : (s.conn x).state = .kConnected := by
    cases hstate : (s.conn x).state <;> simp_all [StateE.rank]
  have hnot : .updateConnections x ∉ s.work x := by
    intro hmem
    have hdown := h.entered x hserving (hloop ▸ (List.mem_filter.mp hmem).1)
    rw [hup] at hdown
    cases hdown
  refine hat.listed.mpr ?_
  have hmode : m.state = .kConnected := hat.state.symm.trans hup
  cases m with
  | arriving => exact absurd (hallows ▸ List.mem_cons_self) hnot
  | greeting | entering _ _ | active _ _ | fresh _ _ | due _ => rfl
  | _ => cases hmode

theorem Transcribed.broadcast (h : s.Transcribed r) (hs : s.Sound L) {msg : Bytes}
    (hrun : s.threads.running k = .broadcast msg :: rest) :
    ((s.advance k rest).broadcast k msg).Transcribed r := by
  have hmem : ChatOp.broadcast msg ∈ s.threads.running k := hrun ▸ List.mem_cons_self
  obtain ⟨x, hserving, hmsg⟩ := (h.thread k).broadcasts msg hmem
  have hx : s.loop x = k := ((h.thread k).serving x hserving).1
  have hlisted := hs.mem_connections (h.thread k) hserving
  have hops : ∀ y buf, ChatOp.sendInLoop y buf ∉
      s.connections.map (fun y => ChatOp.send y (broadcastText msg)) ++ [.unlock] := by simp
  have hlock : (s.advance k rest).Glides { s.advance k rest with mutex := some k } k := by
    refine .of_eq ?_ ?_ ?_ ?_ ?_ k <;> rfl
  have hg : s.Glides ((s.advance k rest).broadcast k msg) k :=
    (Glides.advance hrun).trans (hlock.trans (.call hops))
  have hafter : ((s.advance k rest).broadcast k msg).threads.running k =
      (s.connections.map (fun y => ChatOp.send y (broadcastText msg)) ++ [.unlock]) ++ rest :=
    (Function.update_self ..).trans (congrArg (_ ++ ·) (running_advance rest))
  have hconnections : ((s.advance k rest).broadcast k msg).connections = s.connections := rfl
  generalize (s.advance k rest).broadcast k msg = t at *
  have he : s.Extends t r r := by
    have he := hg.extends_start (r := r) (r.serving k)
    rwa [r.start_serving] at he
  refine ⟨fun j => ?_, fun y => ?_, hconnections ▸ h.nodup⟩
  · by_cases hj : j = k
    · subst hj
      refine (h.thread j).next he rfl hrun hafter (fun hnone => ?_) (fun z _ o ho => ?_) (by simp)
        (fun o ho hopen => ?_) (by simp) fun z buf hsend => ⟨x, hserving, fun _ => ⟨msg, ?_, ?_⟩⟩
      · rw [hserving] at hnone
        cases hnone
      · obtain ho | ho := List.mem_append.mp ho
        · obtain ⟨y, -, rfl⟩ := List.mem_map.mp ho
          simp [ChatOp.serves, ChatOp.owner]
        · rw [List.mem_singleton.mp ho]
          simp [ChatOp.serves, ChatOp.owner]
      · -- a broadcast comes after all that is drained
        exfalso
        obtain ho | ho := List.mem_append.mp ho
        · obtain ho | ho := List.mem_append.mp ho
          · obtain ⟨y, -, rfl⟩ := List.mem_map.mp ho
            simp [ChatOp.isEntry, ChatOp.isDrain] at hopen
          · rw [List.mem_singleton.mp ho] at hopen
            simp [ChatOp.isEntry, ChatOp.isDrain] at hopen
        · have hsilent := (h.thread j).quiet o (hrun ▸ List.mem_cons_of_mem _ ho) hopen _ hmem
          cases hsilent
      · exact he.spoken x msg hmsg
      · simp only [List.mem_append, List.mem_map, List.mem_singleton, reduceCtorEq,
          or_false] at hsend
        obtain ⟨y, -, heq⟩ := hsend
        exact (ChatOp.send.inj heq).2.symm
    · exact (h.thread j).frame he (hg.other j hj) rfl
  · refine (h.conn y).passes he ⟨hg.carries y, hg.parser y, rfl, rfl, rfl, fun hrank c => ?_, ?_,
      fun j buf hq => .inl (hg.queued j y buf hq)⟩
    · by_cases hy : s.loop y = k
      · rw [pending, pending, congrFun hg.loop y, hy, hafter, hrun]
        split
        · next hsy =>
          obtain rfl := Option.some.inj (hserving.symm.trans hsy)
          have hy := hlisted ((hg.rank x).trans hrank)
          have hself : (ChatOp.broadcast msg).reply x = some (.broadcast msg) := rfl
          rw [List.append_assoc, List.filterMap_append, filterMap_reply_sends h.nodup hy,
            List.filterMap_cons_some hself]
          rfl
        · rfl
      · rw [pending, pending, hg.loop, hg.other _ hy]
    · by_cases hy : s.loop y = k
      · rw [hy, hafter, hrun]
        simp
      · rw [hg.other _ hy]

/-- A connection that cannot get a string any more is owed none. -/
theorem Transcribed.send_dropped (h : s.Transcribed r) {buf : Bytes}
    (hrun : s.threads.running k = .send y buf :: rest) (hy : (s.conn y).state ≠ .kConnected) :
    (s.advance k rest).Transcribed r := by
  have hg : s.Glides (s.advance k rest) k := .advance hrun
  have hafter : (s.advance k rest).threads.running k = [] ++ rest := running_advance rest
  have he : s.Extends (s.advance k rest) r r := by
    have he := hg.extends_start (r := r) (r.serving k)
    rwa [r.start_serving] at he
  refine ⟨fun j => ?_, fun z => ?_, h.nodup⟩
  · by_cases hj : j = k
    · subst hj
      refine (h.thread j).next he rfl hrun hafter (by simp) (by simp) (by simp)
        (fun o ho hopen o' ho' => ?_) (by simp) (by simp)
      rw [List.nil_append] at ho ho'
      exact (h.thread j).quiet o (hrun ▸ List.mem_cons_of_mem _ ho) hopen o'
        (hrun ▸ List.mem_cons_of_mem _ ho')
    · exact (h.thread j).frame he (hg.other j hj) rfl
  · refine (h.conn z).passes he ⟨hg.carries z, hg.parser z, rfl, rfl, rfl, fun hrank c => ?_, ?_,
      fun j buf hq => .inl (hg.queued j z buf hq)⟩
    · by_cases hz : s.loop z = k
      · rw [pending, pending, congrFun hg.loop z, hz, hafter, hrun]
        split
        · next hserving =>
          have hne : y ≠ z := by
            rintro rfl
            have hne' := ((h.thread k).serving y hserving).2.1
            have hrank' : (s.conn y).state.rank ≤ 1 := hrank
            cases hstate : (s.conn y).state <;> simp_all [StateE.rank]
          have hnone : (ChatOp.send y buf).reply z = none := if_neg hne
          rw [List.filterMap_cons_none hnone]
          rfl
        · rfl
      · rw [pending, pending, hg.loop, hg.other _ hz]
    · by_cases hz : s.loop z = k
      · rw [hz, hafter, hrun]
        simp
      · rw [hg.other _ hz]

/-- A string for a connection of another loop is queued there. -/
theorem Transcribed.send_queued (h : s.Transcribed r) {buf : Bytes}
    (hrun : s.threads.running k = .send y buf :: rest) (hy : s.loop y ≠ k) :
    { s.advance k rest with
      threads := (s.advance k rest).threads.queueInLoop (s.loop y) (.sendInLoop y buf)
    }.Transcribed r := by
  have hmem : ChatOp.send y buf ∈ s.threads.running k := hrun ▸ List.mem_cons_self
  obtain ⟨x, hserving, hmsg⟩ := (h.thread k).sends y buf hmem
  have hx : s.loop x = k := ((h.thread k).serving x hserving).1
  have hyx : y ≠ x := by
    rintro rfl
    exact hy hx
  obtain ⟨msg, hmsg, hbuf⟩ := hmsg hyx
  have hforeign : s.Foreign r y buf := ⟨x, hyx.symm, msg, hmsg, hbuf⟩
  have hafter : (s.advance k rest).threads.running k = [] ++ rest := running_advance rest
  have hother : ∀ j, j ≠ k → (s.advance k rest).threads.running j = s.threads.running j :=
    fun j hj => Function.update_of_ne hj ..
  have htodo : ((s.advance k rest).threads.queueInLoop (s.loop y) (.sendInLoop y buf)).todo
      ChatFunctor.body = _ := Threads.todo_queueInLoop (s.loop y) (ChatFunctor.sendInLoop y buf)
  have hqueued : ∀ z j buf', .sendInLoop z buf' ∈ ((s.advance k rest).threads.queueInLoop (s.loop y)
      (.sendInLoop y buf)).todo ChatFunctor.body j →
        .sendInLoop z buf' ∈ s.threads.todo ChatFunctor.body j ∨ z = y ∧ buf' = buf := by
    intro z j buf' hq
    rw [htodo] at hq
    have hold : ∀ {j}, .sendInLoop z buf' ∈ (s.advance k rest).threads.todo ChatFunctor.body j →
        .sendInLoop z buf' ∈ s.threads.todo ChatFunctor.body j :=
      fun hq => (mem_todo_advance hrun).mpr (.inr hq)
    by_cases hj : j = s.loop y
    · subst hj
      rw [Function.update_self] at hq
      obtain hq | hq := List.mem_append.mp hq
      · exact .inl (hold hq)
      · exact .inr (by simpa [ChatFunctor.body] using hq)
    · rw [Function.update_of_ne hj] at hq
      exact .inl (hold hq)
  have he : s.Extends { s.advance k rest with
      threads := (s.advance k rest).threads.queueInLoop (s.loop y) (.sendInLoop y buf)
    } r r :=
    ⟨rfl, rfl, fun _ => le_refl _, fun _ _ => id⟩
  refine ⟨fun j => ?_, fun z => ?_, h.nodup⟩
  · by_cases hj : j = k
    · subst hj
      refine (h.thread j).next he rfl hrun hafter (by simp) (by simp) (by simp)
        (fun o ho hopen o' ho' => ?_) (by simp) (by simp)
      rw [List.nil_append] at ho ho'
      exact (h.thread j).quiet o (hrun ▸ List.mem_cons_of_mem _ ho) hopen o'
        (hrun ▸ List.mem_cons_of_mem _ ho')
    · exact (h.thread j).frame he (hother j hj) rfl
  · refine (h.conn z).passes he ⟨.refl _, fun _ => rfl, rfl, rfl, rfl, fun _ c => ?_, ?_,
      fun j buf' hq => ?_⟩
    · show (if r.serving (s.loop z) = some z then
        ((s.advance k rest).threads.running (s.loop z)).filterMap _ else []).foldl _ _ = _
      rw [pending]
      by_cases hz : s.loop z = k
      · have hne : y ≠ z := by
          rintro rfl
          exact hy hz
        have hnone : (ChatOp.send y buf).reply z = none := if_neg hne
        rw [hz, hafter, hrun, List.filterMap_cons_none hnone]
        rfl
      · rw [hother _ hz]
    · show _ ∈ (s.advance k rest).threads.running (s.loop z) ↔ _
      by_cases hz : s.loop z = k
      · rw [hz, hafter, hrun]
        simp
      · rw [hother _ hz]
    · obtain hold | ⟨rfl, rfl⟩ := hqueued z j buf' hq
      · exact .inl hold
      · exact .inr hforeign

theorem Transcribed.send (h : s.Transcribed r) {buf : Bytes} (w : IoResult)
    (hrun : s.threads.running k = .send x buf :: rest) :
    ((s.advance k rest).send k x buf w).Transcribed
      (r.perform s k w (.send x buf)) := by
  have hmem : ChatOp.send x buf ∈ s.threads.running k := hrun ▸ List.mem_cons_self
  unfold WebChatServer.send
  split
  · next hs =>
    have hs' : (s.conn x).state = .kConnected := hs
    split
    · next hx =>
      have hx' : s.loop x = k := hx
      show Transcribed _ (if _ ∧ _ then _ else r)
      rw [if_pos ⟨hs', hx'⟩]
      obtain ⟨y, hserving, hmsg⟩ := (h.thread k).sends x buf hmem
      refine h.offered hrun w rfl (fun z hz => ?_) (fun hown => ⟨by simpa using hown, hs'⟩)
        fun hother => ?_
      · -- the thread replies to the connection that it serves
        show (if x = z then _ else none) = _
        rw [hz]
        by_cases hzx : x = z
        · simp [hzx]
        · simp [hzx, Ne.symm hzx]
      · have hne : x ≠ y := by
          rintro rfl
          simp [hserving] at hother
        obtain ⟨msg, hmsg, hbuf⟩ := hmsg hne
        exact ⟨y, hne.symm, msg, hmsg, hbuf⟩
    · next hx =>
      have hx' : s.loop x ≠ k := hx
      show Transcribed _ (if _ ∧ _ then _ else r)
      rw [if_neg fun hand => hx' hand.2]
      exact h.send_queued hrun hx'
  · next hs =>
    have hs' : (s.conn x).state ≠ .kConnected := hs
    show Transcribed _ (if _ ∧ _ then _ else r)
    rw [if_neg fun hand => hs' hand.1]
    exact h.send_dropped hrun hs'

end Output

/-! ## Steps -/

theorem Transcribed.perform (h : s.Transcribed r) (hs : s.Sound L) (w : IoResult)
    (hrun : s.threads.running k = op :: rest) :
    ((s.advance k rest).execOp k w op).Transcribed (r.perform s k w op) := by
  have hmoves : op.isSpeech = false → op.isDrain = false → (∀ x buf, op ≠ .sendInLoop x buf) →
      (∀ x ch data, op ≠ .handleRead x (some (ch :: data))) →
      ((s.advance k rest).execOp k w op).Transcribed r := by
    intro hspeech hdrain hfunctor hread
    obtain ⟨added, hm⟩ := hs.moves hrun w hspeech hdrain hfunctor hread
    exact h.moves hm
  cases op with
  | handleRead x readv =>
    cases readv with
    | none => exact hmoves rfl rfl (by simp) (by simp)
    | some data =>
      cases data with
      | nil => exact hmoves rfl rfl (by simp) (by simp)
      | cons ch data => exact h.read hs hrun
  | drainRequests x => exact h.drain hs hrun
  | send x buf => exact h.send w hrun
  | broadcast msg => exact h.broadcast hs hrun
  | sendInLoop x buf =>
    have hforeign := (h.conn x).queued k buf (List.mem_append_left _ (hrun ▸ List.mem_cons_self))
    exact h.offered hrun w rfl (fun y _ => by simp [ChatOp.reply]) (by simp) fun _ => hforeign
  | _ => exact hmoves rfl rfl (by simp) (by simp)

omit [DecidableEq κ] in
/-- A step in which a free thread is given statements to make. -/
theorem Begins.of_free {v : Option ι} {ops : List (ChatOp ι)} (hfree : s.Free k)
    (hg : s.Glides t k) (hrun : t.threads.running k = ops)
    (hconnections : t.connections = s.connections)
    (hplain : ∀ o ∈ ops, o.isSpeech = false ∧ o.isInput = false) (hv : v = none) :
    s.Begins t k v ops where
  glides := hg
  free := hfree.1
  running := hrun
  connections := hconnections
  plain o ho := ⟨(hplain o ho).1, isDrain_of_isInput (hplain o ho).2⟩
  idle _ o ho := (hplain o ho).2
  serving x hx := by
    rw [hv] at hx
    cases hx

/-- The functor that ends the start of a connection, or its removal. -/
theorem begins_lifecycle (hfree : s.Free (s.loop x)) {f : TcpConnection → TcpConnection}
    {es : List Effect} (hm : (s.conn x).Makes (f (s.conn x)) es)
    (hface : (f (s.conn x)).face = (s.conn x).face)
    (hrank : (s.conn x).state.rank ≤ (f (s.conn x)).state.rank)
    (hes : es = [] ∨ es = [.connectionCallback .kConnected]) :
    s.Begins (s.method (s.loop x) x f) (s.loop x) none (es.flatMap (ChatOp.ofCallback x)) := by
  have hg : s.Glides (s.method (s.loop x) x f) (s.loop x) := .method (.of_face hface) hrank
  have hrunning : (s.method (s.loop x) x f).threads.running (s.loop x) =
      es.flatMap (ChatOp.ofCallback x) := by
    rw [running_method_self hm, hfree.1, List.append_nil]
  refine .of_free hfree hg hrunning rfl (fun o ho => ?_) rfl
  obtain rfl | rfl := hes
  · cases ho
  · simp only [List.flatMap_cons, ChatOp.ofCallback, List.flatMap_nil, List.append_nil,
      List.mem_cons, List.not_mem_nil, or_false] at ho
    obtain rfl | rfl | rfl := ho <;> exact ⟨rfl, rfl⟩

theorem Sound.begins_handleEvent (hs : s.Sound L) {revents : EpollEvents} {readv : Option Bytes}
    {w f : IoResult} (hfree : s.Free (s.loop x)) (hin : (s.conn x).channel.inEpoll = true)
    (hrep : revents.Reportable (s.conn x).channel.events) :
    s.Begins (s.call (s.loop x) (dispatch x revents readv w f)) (s.loop x) (some x)
      (dispatch x revents readv w f) := by
  have hn := hs.base.notified x
  have hne : (s.conn x).state ≠ .kConnecting := fun hc => by
    rw [(hn.connecting hc).1] at hin
    cases hin
  obtain ⟨first, last, hd, hfirst, hlast⟩ := dispatch_cases readv w f hn hin hrep
  have hops : ∀ o ∈ dispatch x revents readv w f, o.isSpeech = false ∧ o.isDrain = false ∧
      o.serves x = true ∧ o.reply x = none ∧ o ≠ .updateConnections x ∧
      ∀ y buf, o ≠ .sendInLoop y buf := by
    intro o ho
    rw [hd] at ho
    have hcases : o = .handleClose x ∨ o = .handleRead x readv ∨ o = .handleWrite x w f := by
      obtain ho | ho := List.mem_append.mp ho
      · obtain rfl | rfl | ⟨rfl, -⟩ := hfirst
        · cases ho
        · exact .inl (List.mem_singleton.mp ho)
        · exact .inr (.inl (List.mem_singleton.mp ho))
      · obtain rfl | rfl := hlast
        · cases ho
        · exact .inr (.inr (List.mem_singleton.mp ho))
    obtain rfl | rfl | rfl := hcases <;>
      simp [ChatOp.isSpeech, ChatOp.isDrain, ChatOp.serves, ChatOp.owner, ChatOp.reply]
  refine ⟨.call fun y buf hmem => (hops _ hmem).2.2.2.2.2 y buf rfl, hfree.1, ?_, rfl,
    fun o ho => ⟨(hops o ho).1, (hops o ho).2.1⟩, by simp, fun y hy => ?_⟩
  · exact (Function.update_self ..).trans (by rw [hfree.1, List.append_nil])
  · obtain rfl := Option.some.inj hy
    exact ⟨rfl, hne, fun o ho => ⟨(hops o ho).2.2.1, (hops o ho).2.2.2.1, (hops o ho).2.2.2.2.1⟩⟩

theorem begins_readTimers (hfree : s.threads.Idle k) (l : ReadStep) :
    ∃ ops, s.Begins (s.readTimers k l) k none ops := by
  have hstep : ∀ l, s.Glides (s.stepTimers k l) k := by
    intro l
    refine .of_eq ?_ ?_ ?_ ?_ ?_ k <;> rfl
  have hbegins : ∀ {t : WebChatServer κ ι} {ops : List (ChatOp ι)}, s.Glides t k →
      t.threads.running k = ops → t.connections = s.connections →
      (∀ o ∈ ops, o.isSpeech = false ∧ o.isInput = false) → ∃ ops, s.Begins t k none ops :=
    fun hg hrun hconnections hplain => ⟨_, hg, hfree.1, hrun, hconnections,
      fun o ho => ⟨(hplain o ho).1, isDrain_of_isInput (hplain o ho).2⟩,
      fun _ o ho => (hplain o ho).2, by simp⟩
  have hnone : ∀ o ∈ ([] : List (ChatOp ι)), o.isSpeech = false ∧ o.isInput = false := by simp
  unfold WebChatServer.readTimers
  split
  · split
    · exact hbegins (hstep l) hfree.1 rfl hnone
    · next cb hcb =>
      have hrunning : ((s.stepTimers k l).call k [cb.op]).threads.running k = [cb.op] :=
        (Function.update_self ..).trans (congrArg ([cb.op] ++ ·) hfree.1)
      refine hbegins ((hstep l).trans (.call ?_)) hrunning rfl ?_
      · cases cb <;> simp [ChatTimer.op]
      · cases cb <;> simp [ChatTimer.op, ChatOp.isSpeech, ChatOp.isInput]
  · exact hbegins (hstep l) hfree.1 rfl hnone

theorem begins_nextFunctor (hfree : s.Free k) :
    ∃ ops, s.Begins { s with threads := s.threads.nextFunctor ChatFunctor.body k } k none ops := by
  have htodo : (s.threads.nextFunctor ChatFunctor.body k).todo ChatFunctor.body = _ :=
    Threads.todo_nextFunctor hfree.1
  have hg : s.Glides { s with threads := s.threads.nextFunctor ChatFunctor.body k } k :=
    ⟨rfl, rfl, fun _ => .refl _, fun _ => le_refl _, fun _ _ => rfl,
      fun j hj => Threads.running_nextFunctor_of_ne hj,
      fun j y buf hmem => (congrFun htodo j) ▸ hmem⟩
  refine ⟨_, .of_free hfree hg rfl rfl (fun o ho => ?_) rfl⟩
  unfold Threads.nextFunctor at ho
  split at ho
  · rw [hfree.1] at ho
    cases ho
  · next cb rest hq =>
    have ho' : o ∈ Function.update s.threads.running k (cb.body ++ s.threads.running k) k := ho
    rw [Function.update_self, hfree.1, List.append_nil] at ho'
    cases cb <;> obtain rfl := List.mem_singleton.mp ho' <;> exact ⟨rfl, rfl⟩

theorem Transcribed.begins_swapFunctors (h : s.Transcribed r) (hidle : s.threads.Idle k) :
    s.Begins { s with threads := s.threads.swapFunctors k } k (r.serving k) [] := by
  have htodo : (s.threads.swapFunctors k).todo ChatFunctor.body =
      s.threads.todo ChatFunctor.body := Threads.todo_swapFunctors hidle
  have hg : s.Glides { s with threads := s.threads.swapFunctors k } k :=
    ⟨rfl, rfl, fun _ => .refl _, fun _ => le_refl _, fun _ _ => rfl, fun _ _ => rfl,
      fun j y buf hmem => (congrFun htodo j) ▸ hmem⟩
  refine ⟨hg, hidle.1, hidle.1, rfl, by simp, by simp, fun x hx => ?_⟩
  exact ⟨((h.thread k).serving x hx).1, ((h.thread k).serving x hx).2.1, by simp⟩

/-- What a step other than a statement does: a free thread begins with something. -/
theorem Transcribed.begins (h : s.Transcribed r) (hs : s.Sound L) {l : ChatStep κ ι}
    (hready : s.Ready l) (hl : ∀ k w, l ≠ .perform k w) (now : ℕ) :
    ∃ k v ops, s.Begins (s.execStep l) k v ops ∧ Transcript.note s r (now, l) = r.start k v := by
  cases l with
  | connectEstablished x =>
    refine ⟨_, _, _, begins_lifecycle hready.1
      (TcpConnection.makes_connectEstablished (hs.base.notified x).connectionCallback)
      (TcpConnection.face_connectEstablished _) ?_ (.inr rfl), rfl⟩
    rw [hready.2]
    exact Nat.zero_le _
  | handleEvent x revents readv w f =>
    exact ⟨_, _, _, hs.begins_handleEvent hready.1 hready.2.2.1 hready.2.2.2, rfl⟩
  | connectDestroyed x =>
    obtain ⟨-, hdown, hm⟩ := (hs.base.notified x).connectDestroyed hready.2
    exact ⟨_, _, _, begins_lifecycle hready.1 hm (TcpConnection.face_connectDestroyed _)
      (congrArg StateE.rank (hready.2.trans hdown.symm)).le (.inl rfl), rfl⟩
  | readTimers k l =>
    obtain ⟨ops, hb⟩ := begins_readTimers hready l
    exact ⟨k, none, ops, hb, rfl⟩
  | swapFunctors k =>
    exact ⟨k, _, [], h.begins_swapFunctors ⟨hready.1.1, hready.2⟩, (r.start_serving k).symm⟩
  | nextFunctor k =>
    obtain ⟨ops, hb⟩ := begins_nextFunctor hready
    exact ⟨k, none, ops, hb, rfl⟩
  | perform k w => exact absurd rfl (hl k w)

omit [DecidableEq κ] in
/-- The clock goes on. -/
theorem Transcribed.tick (h : s.Transcribed r) (now : ℕ) : { s with clock := now }.Transcribed r :=
  ⟨fun k => ⟨(h.thread k).idle, (h.thread k).serving, (h.thread k).entered, (h.thread k).quiet,
    (h.thread k).broadcasts, (h.thread k).sends⟩,
  fun x => ⟨(h.conn x).messageCallback, (h.conn x).stream, (h.conn x).unread, (h.conn x).parse,
    (h.conn x).live, (h.conn x).own, (h.conn x).foreign, (h.conn x).queued⟩, h.nodup⟩

/-- Step lemma. -/
theorem Transcribed.exec (h : s.Transcribed r) (hs : s.Sound L) {l : ℕ × ChatStep κ ι}
    (hl : s.Enabled l) : (s.exec l).Transcribed (Transcript.note s r l) := by
  obtain ⟨now, l⟩ := l
  obtain ⟨hle, hlt, hready⟩ := hl
  have ht := h.tick now
  have hs' := hs.tick hle hlt
  by_cases hperform : ∃ k w, l = .perform k w
  · obtain ⟨k, w, rfl⟩ := hperform
    show (WebChatServer.perform { s with clock := now } k w).Transcribed _
    unfold WebChatServer.perform
    cases hrun : s.threads.running k with
    | nil =>
      have hnote : Transcript.note s r (now, .perform k w) = r := by
        simp only [Transcript.note, hrun]
      rw [hnote]
      exact ht
    | cons op rest =>
      have hnote : Transcript.note s r (now, .perform k w) = r.perform s k w op := by
        simp only [Transcript.note, hrun]
      rw [hnote]
      exact ht.perform hs' w hrun
  · obtain ⟨k, v, ops, hb, hnote⟩ := ht.begins hs' hready
      (fun k w heq => hperform ⟨k, w, heq⟩) now
    show (execStep { s with clock := now } l).Transcribed (Transcript.note { s with clock := now } r
      (now, l))
    rw [hnote]
    exact ht.start hb

/-! ## Runs -/

/-- The server before its first connection. Connections are made with empty buffers, and
    `newConnection` sets their callbacks. -/
structure Opening (s : WebChatServer κ ι) : Prop extends s.Fresh where
  inputBuffer : ∀ x, (s.conn x).inputBuffer = .new
  outputBuffer : ∀ x, (s.conn x).outputBuffer.readable = []
  messageCallback : ∀ x, (s.conn x).messageCallback = true

omit [DecidableEq κ] in
theorem Opening.transcribed (h : s.Opening) : s.Transcribed ({} : Transcript κ ι) := by
  have hnil : ∀ k, s.threads.running k = [] := h.running
  refine ⟨fun k => ⟨?_, ?_, ?_, ?_, ?_, ?_⟩, fun x => ⟨h.messageCallback x, ?_, ?_, fun _ => ?_,
    fun _ => ?_, List.nil_prefix, ?_, ?_⟩, ?_⟩
  · simp [hnil]
  · simp
  · simp
  · simp [hnil]
  · simp [hnil]
  · simp [hnil]
  · rw [TcpConnection.messageStream, (h.conn x).2.2.2, h.outputBuffer]
    rfl
  · simp [hnil]
  · rw [h.parsers, h.inputBuffer]
    exact ⟨rfl, rfl⟩
  · rw [pending, hnil, List.filterMap_nil, ite_self]
    rfl
  · simp
  · intro j buf hmem
    rw [Threads.todo, hnil, h.queued] at hmem
    cases hmem
  · rw [h.connections]
    exact List.nodup_nil

/-- Run lemma. -/
theorem Transcribed.run {s₀ : WebChatServer κ ι} {ls : List (ℕ × ChatStep κ ι)} (h₀ : s₀.Opening)
    (hrun : Run Step s₀ ls s) : s.Transcribed (s₀.transcript ls) := by
  have hrun' : Run (fun s l t => WebChatServer.Enabled s l ∧ t = WebChatServer.exec s l) s₀ ls s :=
    hrun
  refine (hrun'.invariant_recording
    (P := fun s (r : Transcript κ ι) => s.Sound (fun _ => True) ∧ s.Transcribed r)
    ⟨h₀.toFresh.sound _, h₀.transcribed⟩ fun s r l h hl => ?_).2
  exact ⟨h.1.exec hl fun _ _ _ => trivial, h.2.exec h.1 hl⟩

/-- **Whole strings only**: whatever the interleaving of the loops, and whatever the kernel takes of
    each write, the bytes written and buffered on a connection are the strings that it has taken,
    one after the other. Those not of its own making are broadcasts of requests that other
    connections have sent. -/
theorem strings_whole {s₀ : WebChatServer κ ι} {ls : List (ℕ × ChatStep κ ι)} (h₀ : s₀.Opening)
    (hrun : Run Step s₀ ls s) (x : ι) :
    written (s.conn x).trace ++ (s.conn x).outputBuffer.readable =
      (((s₀.transcript ls).offers x).filter Offer.taken).flatMap Offer.buf ∧
    ∀ o ∈ (s₀.transcript ls).offers x, o.own = false →
      ∃ y, y ≠ x ∧ ∃ request ∈ requestsIn ((s₀.transcript ls).reads y).flatten,
        request.path = chatPath ∧
          o.buf = broadcastText (text "[" ++ s.peer y ++ text "]: " ++ request.body) := by
  have h := (Transcribed.run h₀ hrun).conn x
  refine ⟨h.stream, fun o ho hown => ?_⟩
  obtain ⟨y, hy, msg, ⟨request, hmem, hpath, rfl⟩, hbuf⟩ := h.foreign o ho hown
  exact ⟨y, hy, request, hmem, hpath, hbuf⟩

/-- Two connections, each on a loop of its own. -/
def chatRoom : WebChatServer ℕ ℕ where
  loop x := x
  peer x := [0x61 + UInt8.ofNat x]
  ptrLess _ a b := decide (a < b)
  conn _ := { connectionCallback := true, messageCallback := true, closeCallback := true }

theorem opening_chatRoom : chatRoom.Opening :=
  ⟨⟨fun _ => ⟨rfl, rfl, rfl, rfl⟩, rfl, rfl, fun _ => rfl, fun _ => rfl, fun _ => rfl, fun _ => rfl,
    fun _ _ => rfl, fun _ => rfl, fun _ => rfl, by decide, fun _ => rfl⟩, fun _ => rfl,
    fun _ => Buffer.readable_new _, fun _ => rfl⟩

/-- Both connections come up, and the first one says something. -/
def chatRun : List (ℕ × ChatStep ℕ ℕ) :=
  [(1, .connectEstablished 0)] ++ List.replicate 4 (2, .perform 0 (.upTo 0)) ++
    [(3, .connectEstablished 1)] ++ List.replicate 4 (4, .perform 1 (.upTo 0)) ++
    [(5, .handleEvent 0 { epollin := true } (some ([0x47, 0x45, 0x54, 0x20] ++ chatPath ++ [0x20] ++
      http11 ++ [0x0D, 0x0A, 0x0D, 0x0A])) (.upTo 0) (.upTo 0))] ++
    List.replicate 8 (6, .perform 0 (.upTo 20)) ++
    [(7, .swapFunctors 1), (8, .nextFunctor 1), (9, .perform 1 (.upTo 20))]

theorem run_chatRun : Run Step chatRoom chatRun (chatRun.foldl exec chatRoom) :=
  Run.of_allowed (Q := Enabled) (by decide +kernel)

/-- The second connection hears what the first one has said. -/
theorem strings_whole_chat :
    let s := chatRun.foldl exec chatRoom
    written (s.conn 1).trace ++ (s.conn 1).outputBuffer.readable =
        (((chatRoom.transcript chatRun).offers 1).filter Offer.taken).flatMap Offer.buf ∧
      (chatRoom.transcript chatRun).offers 1 =
        [⟨false, true, broadcastText (text "[" ++ chatRoom.peer 0 ++ text "]: ")⟩] :=
  ⟨(strings_whole opening_chatRoom run_chatRun 1).1, by decide +kernel⟩

/-- **Answered as if alone**: what the server sends a connection for its own requests is the
    beginning of what a client by itself would be sent for the same reads. Nothing is missing of it
    while the connection is up and its thread is between events: then no request was malformed, and
    the requests in the bytes that came were all answered, in their order. -/
theorem answered_as_alone {s₀ : WebChatServer κ ι} {ls : List (ℕ × ChatStep κ ι)} (h₀ : s₀.Opening)
    (hrun : Run Step s₀ ls s) (x : ι) :
    (s₀.transcript ls).own x <+: (((s₀.transcript ls).reads x).foldl
      (Client.onMessage (s.peer x)) {}).sent ∧
    ((s.conn x).state = .kConnected → s.threads.running (s.loop x) = [] →
      (s₀.transcript ls).unread x = none ∧
      ¬ MalformedIn ((s₀.transcript ls).reads x).flatten ∧
      (s₀.transcript ls).own x =
        answers (s.peer x) (requestsIn ((s₀.transcript ls).reads x).flatten)) := by
  have h := (Transcribed.run h₀ hrun).conn x
  refine ⟨h.own, fun hup hidle => ?_⟩
  have hfollows := follows_reference (s.peer x) ((s₀.transcript ls).reads x)
  have hlive := h.live (by rw [hup]; exact le_refl 1)
  have hnil : s.pending (s₀.transcript ls) x = [] := by
    rw [pending, hidle, List.filterMap_nil, ite_self]
  rw [hnil, List.foldl_nil] at hlive
  have hm : ¬ MalformedIn ((s₀.transcript ls).reads x).flatten := fun hm =>
    hfollows.closed hm (congrArg Client.state hlive).symm
  refine ⟨?_, hm, ?_⟩
  · have hnot : ¬ ((s₀.transcript ls).unread x).isSome = true := by
      rw [h.unread, hidle]
      exact List.not_mem_nil
    simpa using hnot
  · exact (congrArg Client.sent hlive).trans (hfollows.connected hm).2

/-- The first connection gets its own broadcast, and the response to its request. -/
theorem answered_as_alone_chat :
    (chatRoom.transcript chatRun).unread 0 = none ∧
      ¬ MalformedIn ((chatRoom.transcript chatRun).reads 0).flatten ∧
      (chatRoom.transcript chatRun).own 0 =
        answers ((chatRun.foldl exec chatRoom).peer 0)
          (requestsIn ((chatRoom.transcript chatRun).reads 0).flatten) :=
  (answered_as_alone opening_chatRoom run_chatRun 0).2 (by decide +kernel) (by decide +kernel)

end WebChatServer

end AegisNet
