import AegisNet.Lib.Recording
import AegisNet.Tcp.TcpConnection.Carried
import AegisNet.WebChatServer.Bookkeeping

/-!
# The transcript of the server

What came in and what went out on each connection is the past of a run, so it is recorded beside
it. The replies that a thread has still to make to the connection that it serves are the future of
that connection: when they are made, what it has got is what a client by itself would have got for
the same reads.

## Main definitions

- `Transcript`, `WebChatServer.transcript` — the reads and the calls of `sendInLoop` in a run
- `WebChatServer.pending` — the replies that a connection has still to get
- `WebChatServer.Attends`, `WebChatServer.Served` — the invariant of a thread and of a connection
- `WebChatServer.Glides` — what a step without input and without output does

## Main results

- `WebChatServer.Attends.next`, `WebChatServer.Served.passes` — what keeps the invariant
- `WebChatServer.Transcribed.start`, `WebChatServer.Transcribed.moves` — steps without input and
  output
-/

namespace AegisNet

/-- A call of `sendInLoop`. -/
structure Offer where
  /-- It was made by `onMessage` of the connection itself. -/
  own : Bool
  /-- The string was written or buffered. -/
  taken : Bool
  buf : Bytes
  deriving DecidableEq, Repr

/-- What has passed on the connections `ι` of the loops `κ`. -/
structure Transcript (κ ι : Type*) where
  /-- The connection whose event the thread handles. -/
  serving : κ → Option ι := fun _ => none
  /-- The last read, until `onMessage` drains it. -/
  unread : ι → Option Bytes := fun _ => none
  /-- The reads that were drained, oldest first. -/
  reads : ι → List Bytes := fun _ => []
  offers : ι → List Offer := fun _ => []

namespace Transcript

variable {κ ι : Type*} [DecidableEq κ] [DecidableEq ι]

/-- A read of `data`. -/
def receive (r : Transcript κ ι) (x : ι) (data : Bytes) : Transcript κ ι :=
  { r with unread := Function.update r.unread x (some data) }

/-- The last read is drained. -/
def drain (r : Transcript κ ι) (x : ι) : Transcript κ ι :=
  { r with
    unread := Function.update r.unread x none
    reads := Function.update r.reads x (r.reads x ++ (r.unread x).toList) }

/-- `sendInLoop` of the connection `c`, which is `x`. -/
def offer (r : Transcript κ ι) (x : ι) (c : TcpConnection) (own : Bool) (buf : Bytes)
    (w : IoResult) : Transcript κ ι :=
  { r with offers := Function.update r.offers x (r.offers x ++ [⟨own, c.takes buf w, buf⟩]) }

/-- What a statement on the thread of `k` adds. -/
def perform (r : Transcript κ ι) (s : WebChatServer κ ι) (k : κ) (w : IoResult) :
    ChatOp ι → Transcript κ ι
  | .handleRead x (some (ch :: data)) => r.receive x (ch :: data)
  | .drainRequests x => r.drain x
  | .send x buf =>
    if (s.conn x).state = .kConnected ∧ s.loop x = k then
      r.offer x (s.conn x) (r.serving k = some x) buf w
    else r
  | .sendInLoop x buf => r.offer x (s.conn x) false buf w
  | _ => r

/-- The thread of `k` starts on a handler of `x`, or on something else. -/
def start (r : Transcript κ ι) (k : κ) (x : Option ι) : Transcript κ ι :=
  { r with serving := Function.update r.serving k x }

/-- What a step adds. -/
def note (s : WebChatServer κ ι) (r : Transcript κ ι) (l : ℕ × ChatStep κ ι) : Transcript κ ι :=
  match l.2 with
  | .connectEstablished x | .connectDestroyed x => r.start (s.loop x) none
  | .handleEvent x _ _ _ _ => r.start (s.loop x) (some x)
  | .readTimers k _ | .nextFunctor k => r.start k none
  | .swapFunctors _ => r
  | .perform k w =>
    match s.threads.running k with
    | [] => r
    | op :: _ => r.perform s k w op

/-- The strings that the connection's own `onMessage` sent to it. -/
def own (r : Transcript κ ι) (x : ι) : List Bytes :=
  ((r.offers x).filter Offer.own).map Offer.buf

section Lemmas

variable {r : Transcript κ ι} {x y : ι}

omit [DecidableEq κ] in
theorem unread_receive_self (data : Bytes) : (r.receive x data).unread x = some data :=
  Function.update_self ..

omit [DecidableEq κ] in
theorem unread_receive_of_ne (h : y ≠ x) (data : Bytes) :
    (r.receive x data).unread y = r.unread y :=
  Function.update_of_ne h ..

omit [DecidableEq κ] in
theorem unread_drain_self : (r.drain x).unread x = none := Function.update_self ..

omit [DecidableEq κ] in
theorem unread_drain_of_ne (h : y ≠ x) : (r.drain x).unread y = r.unread y :=
  Function.update_of_ne h ..

omit [DecidableEq κ] in
theorem reads_drain_self {data : Bytes} (h : r.unread x = some data) :
    (r.drain x).reads x = r.reads x ++ [data] := by
  show Function.update r.reads x (r.reads x ++ (r.unread x).toList) x = _
  rw [Function.update_self, h]
  rfl

omit [DecidableEq κ] in
theorem reads_drain_of_ne (h : y ≠ x) : (r.drain x).reads y = r.reads y :=
  Function.update_of_ne h ..

omit [DecidableEq κ] in
theorem offers_offer_self {c : TcpConnection} {own : Bool} {buf : Bytes} {w : IoResult} :
    (r.offer x c own buf w).offers x = r.offers x ++ [⟨own, c.takes buf w, buf⟩] :=
  Function.update_self ..

omit [DecidableEq κ] in
theorem offers_offer_of_ne {c : TcpConnection} {own : Bool} {buf : Bytes} {w : IoResult}
    (h : y ≠ x) : (r.offer x c own buf w).offers y = r.offers y :=
  Function.update_of_ne h ..

end Lemmas

omit [DecidableEq ι] in
theorem start_serving (r : Transcript κ ι) (k : κ) : r.start k (r.serving k) = r := by
  rw [start, Function.update_eq_self]

end Transcript

/-- A client by itself, after the reads `chunks`. -/
def reference (peer : Bytes) (chunks : List Bytes) : Client :=
  chunks.foldl (Client.onMessage peer) {}

theorem reference_concat (peer : Bytes) (chunks : List Bytes) (chunk : Bytes) :
    reference peer (chunks ++ [chunk]) = (reference peer chunks).onMessage peer chunk :=
  List.foldl_append ..

theorem follows_reference (peer : Bytes) (chunks : List Bytes) :
    Client.Follows peer (reference peer chunks) chunks.flatten :=
  (Client.follows_nil peer).foldl chunks

namespace ChatOp

variable {ι : Type*}

/-- `send` or `broadcast` -/
def isSpeech : ChatOp ι → Bool
  | send _ _ | broadcast _ => true
  | _ => false

def isDrain : ChatOp ι → Bool
  | drainRequests _ => true
  | _ => false

/-- `handleRead`, and `onMessage` from its drain loop on. -/
def isInput : ChatOp ι → Bool
  | handleRead _ _ | drainRequests _ => true
  | _ => false

variable [DecidableEq ι]

/-- What the statement replies to `x`, if its thread serves that connection. -/
def reply (x : ι) : ChatOp ι → Option Reply
  | send y buf => if y = x then some (.send buf) else none
  | broadcast msg => some (.broadcast msg)
  | shutdown y => if y = x then some .shutdown else none
  | _ => none

/-- The statement may follow from an event of `x`. -/
def serves (x : ι) : ChatOp ι → Bool
  | handleIdleTimeout _ => false
  | op => op.owner = none ∨ op.owner = some x

end ChatOp

/-- The states in the order in which a connection goes through them. -/
def StateE.rank : StateE → ℕ
  | .kConnecting => 0
  | .kConnected => 1
  | .kDisconnecting => 2
  | .kDisconnected => 3

theorem StateE.rank_eq_three {state : StateE} : state.rank = 3 ↔ state = .kDisconnected := by
  cases state <;> simp [rank]

theorem StateE.rank_eq_zero {state : StateE} : state.rank = 0 ↔ state = .kConnecting := by
  cases state <;> simp [rank]

theorem StateE.rank_le_three (state : StateE) : state.rank ≤ 3 := by
  cases state <;> simp [rank]

namespace WebChatServer

variable {κ ι : Type*} [DecidableEq κ] [LinearOrder ι]

/-- The transcript of a run from `s₀`. -/
def transcript (s₀ : WebChatServer κ ι) (ls : List (ℕ × ChatStep κ ι)) : Transcript κ ι :=
  Run.recording exec Transcript.note s₀ {} ls

/-- What `x` has still to get from the thread that serves it. -/
def pending (s : WebChatServer κ ι) (r : Transcript κ ι) (x : ι) : List Reply :=
  if r.serving (s.loop x) = some x then
    (s.threads.running (s.loop x)).filterMap (ChatOp.reply x)
  else []

/-- `msg` is what `onMessage` passes to `broadcast` for a request that `x` has sent. -/
def Spoken (s : WebChatServer κ ι) (r : Transcript κ ι) (x : ι) (msg : Bytes) : Prop :=
  ∃ request ∈ requestsIn (r.reads x).flatten, request.path = chatPath ∧
    msg = text "[" ++ s.peer x ++ text "]: " ++ request.body

/-- `buf` is the broadcast of a request that another connection has sent. -/
def Foreign (s : WebChatServer κ ι) (r : Transcript κ ι) (x : ι) (buf : Bytes) : Prop :=
  ∃ y, y ≠ x ∧ ∃ msg, s.Spoken r y msg ∧ buf = broadcastText msg

/-- The invariant of a thread. -/
structure Attends (s : WebChatServer κ ι) (r : Transcript κ ι) (k : κ) : Prop where
  idle : r.serving k = none → ∀ o ∈ s.threads.running k, o.isSpeech = false ∧ o.isInput = false
  serving : ∀ x, r.serving k = some x → s.loop x = k ∧ (s.conn x).state ≠ .kConnecting ∧
    ∀ o ∈ s.threads.running k, o.serves x = true
  entered : ∀ x, r.serving k = some x → .updateConnections x ∈ s.threads.running k →
    (s.conn x).state = .kDisconnected
  /-- Before the requests are drained, there is nothing to say. -/
  quiet : ∀ o ∈ s.threads.running k, o.isEntry = true ∨ o.isDrain = true →
    ∀ o' ∈ s.threads.running k, o'.isSpeech = false
  broadcasts : ∀ msg, .broadcast msg ∈ s.threads.running k →
    ∃ x, r.serving k = some x ∧ s.Spoken r x msg
  sends : ∀ y buf, .send y buf ∈ s.threads.running k →
    ∃ x, r.serving k = some x ∧ (y ≠ x → ∃ msg, s.Spoken r x msg ∧ buf = broadcastText msg)

/-- The invariant of a connection. -/
structure Served (s : WebChatServer κ ι) (r : Transcript κ ι) (x : ι) : Prop where
  messageCallback : (s.conn x).messageCallback = true
  stream : (s.conn x).messageStream = ((r.offers x).filter Offer.taken).flatMap Offer.buf
  unread : (r.unread x).isSome = true ↔ .drainRequests x ∈ s.threads.running (s.loop x)
  parse : (s.conn x).state ≠ .kDisconnected →
    (s.parsers x).getD .new = (reference (s.peer x) (r.reads x)).parser ∧
      (s.conn x).inputBuffer = (r.unread x).elim (reference (s.peer x) (r.reads x)).inputBuffer
        (reference (s.peer x) (r.reads x)).inputBuffer.readFd
  /-- Until the server shuts it down or it goes, the connection gets what it should. -/
  live : (s.conn x).state.rank ≤ 1 → (s.pending r x).foldl Client.perform
    { reference (s.peer x) (r.reads x) with state := .kConnected, sent := r.own x } =
      reference (s.peer x) (r.reads x)
  own : r.own x <+: (reference (s.peer x) (r.reads x)).sent
  foreign : ∀ o ∈ r.offers x, o.own = false → s.Foreign r x o.buf
  queued : ∀ j buf, .sendInLoop x buf ∈ s.threads.todo ChatFunctor.body j → s.Foreign r x buf

/-- The invariant. -/
structure Transcribed (s : WebChatServer κ ι) (r : Transcript κ ι) : Prop where
  thread : ∀ k, s.Attends r k
  conn : ∀ x, s.Served r x
  nodup : s.connections.Nodup

/-! ## What keeps the invariant -/

/-- From `s` and `r` to `t` and `r'` states go on only, and what was said stays said. -/
structure Extends (s t : WebChatServer κ ι) (r r' : Transcript κ ι) : Prop where
  loop : t.loop = s.loop
  peer : t.peer = s.peer
  rank : ∀ x, (s.conn x).state.rank ≤ (t.conn x).state.rank
  spoken : ∀ x msg, s.Spoken r x msg → t.Spoken r' x msg

variable {s t u : WebChatServer κ ι} {r r' : Transcript κ ι} {k : κ} {x : ι}

theorem not_down_of_rank {c c' : TcpConnection} (h : c.state.rank ≤ c'.state.rank)
    (hc' : c'.state ≠ .kDisconnected) : c.state ≠ .kDisconnected := by
  intro hd
  rw [StateE.rank_eq_three.mpr hd] at h
  exact hc' (StateE.rank_eq_three.mp (le_antisymm (StateE.rank_le_three _) h))

namespace Extends

omit [DecidableEq κ] [LinearOrder ι] in
theorem down (h : s.Extends t r r') (hx : (s.conn x).state = .kDisconnected) :
    (t.conn x).state = .kDisconnected :=
  by_contra fun hne => not_down_of_rank (h.rank x) hne hx

omit [DecidableEq κ] [LinearOrder ι] in
theorem not_connecting (h : s.Extends t r r') (hx : (s.conn x).state ≠ .kConnecting) :
    (t.conn x).state ≠ .kConnecting := by
  intro hc
  have hle := h.rank x
  rw [StateE.rank_eq_zero.mpr hc] at hle
  exact hx (StateE.rank_eq_zero.mp (Nat.le_zero.mp hle))

omit [DecidableEq κ] [LinearOrder ι] in
theorem foreign (h : s.Extends t r r') {buf : Bytes} (hf : s.Foreign r x buf) :
    t.Foreign r' x buf := by
  obtain ⟨y, hy, msg, hmsg, hbuf⟩ := hf
  exact ⟨y, hy, msg, h.spoken y msg hmsg, hbuf⟩

end Extends

omit [DecidableEq κ] in
/-- A thread that goes on with what it does. -/
theorem Attends.frame (h : s.Attends r k) (he : s.Extends t r r')
    (hrun : t.threads.running k = s.threads.running k) (hserving : r'.serving k = r.serving k) :
    t.Attends r' k := by
  refine ⟨fun hs => ?_, fun x hs => ?_, fun x hs hmem => ?_, ?_, fun msg hmem => ?_,
    fun y buf hmem => ?_⟩
  · rw [hrun]
    exact h.idle (hserving ▸ hs)
  · obtain ⟨hloop, hne, hserves⟩ := h.serving x (hserving ▸ hs)
    rw [hrun, he.loop]
    exact ⟨hloop, he.not_connecting hne, hserves⟩
  · rw [hrun] at hmem
    exact he.down (h.entered x (hserving ▸ hs) hmem)
  · rw [hrun]
    exact h.quiet
  · rw [hrun] at hmem
    obtain ⟨x, hs, hmsg⟩ := h.broadcasts msg hmem
    exact ⟨x, hserving.trans hs, he.spoken x msg hmsg⟩
  · rw [hrun] at hmem
    obtain ⟨x, hs, hmsg⟩ := h.sends y buf hmem
    refine ⟨x, hserving.trans hs, fun hne => ?_⟩
    obtain ⟨msg, hmsg, hbuf⟩ := hmsg hne
    exact ⟨msg, he.spoken x msg hmsg, hbuf⟩

omit [DecidableEq κ] in
/-- A thread that makes a statement, which gives it the statements `added` to make. -/
theorem Attends.next {op : ChatOp ι} {rest added : List (ChatOp ι)} (h : s.Attends r k)
    (he : s.Extends t r r') (hserving : r'.serving k = r.serving k)
    (hbefore : s.threads.running k = op :: rest) (hafter : t.threads.running k = added ++ rest)
    (hidle : r.serving k = none → ∀ o ∈ added, o.isSpeech = false ∧ o.isInput = false)
    (hserves : ∀ x, r.serving k = some x → ∀ o ∈ added, o.serves x = true)
    (hentered : ∀ x, .updateConnections x ∈ added → (t.conn x).state = .kDisconnected)
    (hquiet : ∀ o ∈ added ++ rest, o.isEntry = true ∨ o.isDrain = true →
      ∀ o' ∈ added ++ rest, o'.isSpeech = false)
    (hbroadcasts : ∀ msg, .broadcast msg ∈ added →
      ∃ x, r.serving k = some x ∧ t.Spoken r' x msg)
    (hsends : ∀ y buf, .send y buf ∈ added →
      ∃ x, r.serving k = some x ∧ (y ≠ x → ∃ msg, t.Spoken r' x msg ∧ buf = broadcastText msg)) :
    t.Attends r' k := by
  have hcases : ∀ {o}, o ∈ t.threads.running k → o ∈ added ∨ o ∈ s.threads.running k := by
    intro o ho
    rw [hafter] at ho
    rw [hbefore]
    exact (List.mem_append.mp ho).imp_right (List.mem_cons_of_mem _)
  refine ⟨fun hs o ho => ?_, fun x hs => ?_, fun x hs hmem => ?_, ?_, fun msg hmem => ?_,
    fun y buf hmem => ?_⟩
  · exact (hcases ho).elim (hidle (hserving ▸ hs) o) (h.idle (hserving ▸ hs) o)
  · obtain ⟨hloop, hne, hold⟩ := h.serving x (hserving ▸ hs)
    refine ⟨(congrFun he.loop x).trans hloop, he.not_connecting hne, fun o ho => ?_⟩
    exact (hcases ho).elim (hserves x (hserving ▸ hs) o) (hold o)
  · obtain hadd | hold := hcases hmem
    · exact hentered x hadd
    · exact he.down (h.entered x (hserving ▸ hs) hold)
  · rwa [hafter]
  · obtain hadd | hold := hcases hmem
    · obtain ⟨x, hs, hmsg⟩ := hbroadcasts msg hadd
      exact ⟨x, hserving.trans hs, hmsg⟩
    · obtain ⟨x, hs, hmsg⟩ := h.broadcasts msg hold
      exact ⟨x, hserving.trans hs, he.spoken x msg hmsg⟩
  · obtain hadd | hold := hcases hmem
    · obtain ⟨x, hs, hmsg⟩ := hsends y buf hadd
      exact ⟨x, hserving.trans hs, hmsg⟩
    · obtain ⟨x, hs, hmsg⟩ := h.sends y buf hold
      refine ⟨x, hserving.trans hs, fun hne => ?_⟩
      obtain ⟨msg, hmsg, hbuf⟩ := hmsg hne
      exact ⟨msg, he.spoken x msg hmsg, hbuf⟩

/-- A step that passes the connection `x` by: neither its streams nor its replies change. -/
structure Passes (s t : WebChatServer κ ι) (r r' : Transcript κ ι) (x : ι) : Prop where
  carries : (s.conn x).Carries (t.conn x)
  parser : (t.conn x).state ≠ .kDisconnected →
    (t.parsers x).getD .new = (s.parsers x).getD .new
  reads : r'.reads x = r.reads x
  unread : r'.unread x = r.unread x
  offers : r'.offers x = r.offers x
  live : (t.conn x).state.rank ≤ 1 → ∀ c : Client,
    (t.pending r' x).foldl Client.perform c = (s.pending r x).foldl Client.perform c
  drain : .drainRequests x ∈ t.threads.running (s.loop x) ↔
    .drainRequests x ∈ s.threads.running (s.loop x)
  queued : ∀ j buf, .sendInLoop x buf ∈ t.threads.todo ChatFunctor.body j →
    .sendInLoop x buf ∈ s.threads.todo ChatFunctor.body j ∨ s.Foreign r x buf

omit [DecidableEq κ] in
theorem Served.passes (h : s.Served r x) (he : s.Extends t r r') (hp : s.Passes t r r' x) :
    t.Served r' x := by
  have hown : r'.own x = r.own x := by rw [Transcript.own, hp.offers, Transcript.own]
  refine ⟨hp.carries.messageCallback.trans h.messageCallback, ?_, ?_, fun hne => ?_,
    fun hrank => ?_, ?_, fun o ho hforeign => ?_, fun j buf hmem => ?_⟩
  · rw [hp.carries.stream, hp.offers]
    exact h.stream
  · rw [hp.unread, he.loop]
    exact h.unread.trans hp.drain.symm
  · rw [hp.parser hne, hp.carries.input hne, he.peer, hp.reads, hp.unread]
    exact h.parse (not_down_of_rank (he.rank x) hne)
  · rw [he.peer, hp.reads, hown, hp.live hrank]
    exact h.live ((he.rank x).trans hrank)
  · rw [he.peer, hp.reads, hown]
    exact h.own
  · rw [hp.offers] at ho
    exact he.foreign (h.foreign o ho hforeign)
  · obtain hold | hnew := hp.queued j buf hmem
    · exact he.foreign (h.queued j buf hold)
    · exact he.foreign hnew

/-! ## Steps without input and output -/

/-- From `s` to `t` the thread of `k` has done nothing that the transcript records. -/
structure Glides (s t : WebChatServer κ ι) (k : κ) : Prop where
  loop : t.loop = s.loop
  peer : t.peer = s.peer
  carries : ∀ x, (s.conn x).Carries (t.conn x)
  rank : ∀ x, (s.conn x).state.rank ≤ (t.conn x).state.rank
  parser : ∀ x, (t.conn x).state ≠ .kDisconnected →
    (t.parsers x).getD .new = (s.parsers x).getD .new
  other : ∀ j, j ≠ k → t.threads.running j = s.threads.running j
  queued : ∀ j x buf, .sendInLoop x buf ∈ t.threads.todo ChatFunctor.body j →
    .sendInLoop x buf ∈ s.threads.todo ChatFunctor.body j

namespace Glides

omit [DecidableEq κ] [LinearOrder ι] in
theorem trans (h : s.Glides t k) (h' : t.Glides u k) : s.Glides u k where
  loop := h'.loop.trans h.loop
  peer := h'.peer.trans h.peer
  carries x :=
    { stream := (h'.carries x).stream.trans (h.carries x).stream
      messageCallback := (h'.carries x).messageCallback.trans (h.carries x).messageCallback
      input := fun hu => ((h'.carries x).input hu).trans
        ((h.carries x).input (not_down_of_rank (h'.rank x) hu)) }
  rank x := (h.rank x).trans (h'.rank x)
  parser x hu := (h'.parser x hu).trans (h.parser x (not_down_of_rank (h'.rank x) hu))
  other j hj := (h'.other j hj).trans (h.other j hj)
  queued j x buf hmem := h.queued j x buf (h'.queued j x buf hmem)

omit [DecidableEq κ] [LinearOrder ι] in
/-- Where neither the connections nor the threads change. -/
theorem of_eq (hloop : t.loop = s.loop) (hpeer : t.peer = s.peer) (hconn : t.conn = s.conn)
    (hparsers : t.parsers = s.parsers) (hthreads : t.threads = s.threads) (k : κ) :
    s.Glides t k where
  loop := hloop
  peer := hpeer
  carries x := by
    rw [hconn]
    exact .refl _
  rank x := by rw [hconn]
  parser x _ := by rw [hparsers]
  other j _ := by rw [hthreads]
  queued j x buf hmem := by rwa [hthreads] at hmem

omit [LinearOrder ι] in
theorem advance {op : ChatOp ι} {rest : List (ChatOp ι)}
    (hrun : s.threads.running k = op :: rest) : s.Glides (s.advance k rest) k :=
  ⟨rfl, rfl, fun _ => .refl _, fun _ => le_refl _, fun _ _ => rfl,
    fun _ hj => Function.update_of_ne hj ..,
    fun _ _ _ hmem => (mem_todo_advance hrun).mpr (.inr hmem)⟩

omit [LinearOrder ι] in
theorem call {ops : List (ChatOp ι)} (hops : ∀ x buf, .sendInLoop x buf ∉ ops) :
    s.Glides (s.call k ops) k :=
  ⟨rfl, rfl, fun _ => .refl _, fun _ => le_refl _, fun _ _ => rfl,
    fun _ hj => Function.update_of_ne hj ..,
    fun _ x buf hmem => (mem_todo_call.mp hmem).resolve_left fun h => hops x buf h.2⟩

/-- A method of a connection that adds nothing to its streams. -/
theorem method {f : TcpConnection → TcpConnection} (hc : (s.conn x).Carries (f (s.conn x)))
    (hrank : (s.conn x).state.rank ≤ (f (s.conn x)).state.rank) : s.Glides (s.method k x f) k where
  loop := rfl
  peer := rfl
  carries y := by
    by_cases hy : y = x
    · subst hy
      show TcpConnection.Carries _ (Function.update s.conn y { f (s.conn y) with loop := {} } y)
      rw [Function.update_self]
      exact ⟨hc.stream, hc.messageCallback, hc.input⟩
    · rw [conn_method_of_ne hy]
      exact .refl _
  rank y := by
    by_cases hy : y = x
    · subst hy
      rwa [state_method_self]
    · rw [conn_method_of_ne hy]
  parser _ _ := rfl
  other j hj := by rw [running_method, Function.update_of_ne hj]
  queued j y buf hmem := by
    obtain ⟨-, hmade⟩ | hold | ⟨-, g, -, hg⟩ := mem_todo_method.mp hmem
    · -- the callbacks do not run functors
      obtain ⟨e, -, hop⟩ := List.mem_flatMap.mp hmade
      cases e <;> simp [ChatOp.ofCallback] at hop
    · exact hold
    · cases hg

omit [LinearOrder ι] in
/-- The transcript records at most what its thread turns to. -/
theorem extends_start (h : s.Glides t k) (v : Option ι) : s.Extends t r (r.start k v) where
  loop := h.loop
  peer := h.peer
  rank := h.rank
  spoken x msg hmsg := by
    obtain ⟨request, hmem, hpath, rfl⟩ := hmsg
    refine ⟨request, hmem, hpath, ?_⟩
    rw [h.peer]

/-- A connection of another loop is passed by, and so is one that gets no reply. -/
theorem passes_start (h : s.Glides t k) (v : Option ι)
    (hpending : s.loop x = k → (t.conn x).state.rank ≤ 1 →
      t.pending (r.start k v) x = s.pending r x)
    (hdrain : s.loop x = k →
      (.drainRequests x ∈ t.threads.running k ↔ .drainRequests x ∈ s.threads.running k)) :
    s.Passes t r (r.start k v) x where
  carries := h.carries x
  parser := h.parser x
  reads := rfl
  unread := rfl
  offers := rfl
  live hrank c := by
    by_cases hk : s.loop x = k
    · rw [hpending hk hrank]
    · have hserving : (r.start k v).serving (s.loop x) = r.serving (s.loop x) :=
        Function.update_of_ne hk ..
      rw [pending, pending, h.loop, h.other _ hk, hserving]
  drain := by
    by_cases hk : s.loop x = k
    · rw [hk]
      exact hdrain hk
    · rw [h.other _ hk]
  queued j buf hmem := .inl (h.queued j x buf hmem)

end Glides

/-! ## A thread starts on a handler, a functor or a callback -/

/-- From `s` to `t` the thread of `k`, which was free, has been given the statements `ops`. -/
structure Begins (s t : WebChatServer κ ι) (k : κ) (v : Option ι) (ops : List (ChatOp ι)) :
    Prop where
  glides : s.Glides t k
  free : s.threads.running k = []
  running : t.threads.running k = ops
  connections : t.connections = s.connections
  plain : ∀ o ∈ ops, o.isSpeech = false ∧ o.isDrain = false
  idle : v = none → ∀ o ∈ ops, o.isInput = false
  serving : ∀ x, v = some x → s.loop x = k ∧ (s.conn x).state ≠ .kConnecting ∧
    ∀ o ∈ ops, o.serves x = true ∧ o.reply x = none ∧ o ≠ .updateConnections x

theorem Attends.start {v : Option ι} {ops : List (ChatOp ι)} (hb : s.Begins t k v ops) :
    t.Attends (r.start k v) k := by
  have he := hb.glides.extends_start (r := r) v
  have hserving : (r.start k v).serving k = v := Function.update_self ..
  have hspeech : ∀ o ∈ t.threads.running k, o.isSpeech = false := by
    rw [hb.running]
    exact fun o ho => (hb.plain o ho).1
  refine ⟨fun hv o ho => ⟨hspeech o ho, ?_⟩, fun x hv => ?_, fun x hv hmem => ?_,
    fun _ _ _ => hspeech, fun msg hmem => ?_, fun y buf hmem => ?_⟩
  · rw [hb.running] at ho
    exact hb.idle (hserving ▸ hv) o ho
  · obtain ⟨hloop, hne, hops⟩ := hb.serving x (hserving ▸ hv)
    rw [hb.running, hb.glides.loop]
    exact ⟨hloop, he.not_connecting hne, fun o ho => (hops o ho).1⟩
  · obtain ⟨-, -, hops⟩ := hb.serving x (hserving ▸ hv)
    rw [hb.running] at hmem
    exact absurd rfl (hops _ hmem).2.2
  · cases hspeech _ hmem
  · cases hspeech _ hmem

theorem Served.start {v : Option ι} {ops : List (ChatOp ι)} (h : s.Served r x)
    (hb : s.Begins t k v ops) : t.Served (r.start k v) x := by
  refine h.passes (hb.glides.extends_start v)
    (hb.glides.passes_start v (fun hk _ => ?_) fun hk => ?_)
  · have hnil : s.pending r x = [] := by
      rw [pending, hk, hb.free]
      exact ite_self _
    rw [hnil, pending, hb.glides.loop, hk, hb.running]
    split
    · next hv =>
      have hserving : (r.start k v).serving k = v := Function.update_self ..
      obtain ⟨-, -, hops⟩ := hb.serving x (hserving ▸ hv)
      exact List.filterMap_eq_nil_iff.mpr fun o ho => (hops o ho).2.1
    · rfl
  · rw [hb.running, hb.free]
    refine iff_of_false (fun hmem => ?_) List.not_mem_nil
    cases (hb.plain _ hmem).2

theorem Transcribed.start {v : Option ι} {ops : List (ChatOp ι)} (h : s.Transcribed r)
    (hb : s.Begins t k v ops) : t.Transcribed (r.start k v) where
  thread j := by
    by_cases hj : j = k
    · subst hj
      exact .start hb
    · exact (h.thread j).frame (hb.glides.extends_start v) (hb.glides.other j hj)
        (Function.update_of_ne hj ..)
  conn x := (h.conn x).start hb
  nodup := hb.connections ▸ h.nodup

/-! ## Statements without input and output -/

/-- From `s` to `t` the thread of `k` has made the statement `op`, before `rest`. -/
structure Moves (s t : WebChatServer κ ι) (k : κ) (op : ChatOp ι) (rest added : List (ChatOp ι)) :
    Prop where
  glides : s.Glides t k
  before : s.threads.running k = op :: rest
  running : t.threads.running k = added ++ rest
  nodup : s.connections.Nodup → t.connections.Nodup
  plain : op.isSpeech = false ∧ op.isDrain = false
  shutdown : ∀ x, op = .shutdown x → 1 < (t.conn x).state.rank
  added : ∀ o ∈ added, o.isSpeech = false ∧ o.isInput = false ∧ o.isEntry = false ∧
    (∀ x, op.serves x = true → o.serves x = true ∧ o.reply x = none) ∧
    ∀ x, o = .updateConnections x → (t.conn x).state = .kDisconnected

section Moves

variable {op : ChatOp ι} {rest added : List (ChatOp ι)}

omit [LinearOrder ι] in
theorem isDrain_of_isInput {o : ChatOp ι} (h : o.isInput = false) : o.isDrain = false := by
  cases o with
  | drainRequests _ => cases h
  | _ => rfl

theorem Moves.extends (hm : s.Moves t k op rest added) : s.Extends t r r := by
  have he := hm.glides.extends_start (r := r) (r.serving k)
  rwa [r.start_serving] at he

theorem Attends.moves (h : s.Attends r k) (hm : s.Moves t k op rest added) : t.Attends r k := by
  refine h.next hm.extends rfl hm.before hm.running
    (fun _ o ho => ⟨(hm.added o ho).1, (hm.added o ho).2.1⟩) (fun x hs o ho => ?_)
    (fun x hmem => (hm.added _ hmem).2.2.2.2 x rfl) (fun o ho hopen o' ho' => ?_)
    (fun msg hmem => ?_) fun y buf hmem => ?_
  · have hop := (h.serving x hs).2.2 op (hm.before ▸ List.mem_cons_self)
    exact ((hm.added o ho).2.2.2.1 x hop).1
  · obtain ho | ho := List.mem_append.mp ho
    · obtain ⟨-, hinput, hentry, -⟩ := hm.added o ho
      rw [hentry, isDrain_of_isInput hinput] at hopen
      simp at hopen
    · have hold : ∀ {o}, o ∈ rest → o ∈ s.threads.running k :=
        fun ho => hm.before ▸ List.mem_cons_of_mem _ ho
      exact (List.mem_append.mp ho').elim (fun ho' => (hm.added o' ho').1)
        fun ho' => h.quiet o (hold ho) hopen o' (hold ho')
  · cases (hm.added _ hmem).1
  · cases (hm.added _ hmem).1

omit [DecidableEq κ] in
/-- A plain statement is no reply to a connection that goes on. -/
theorem Moves.reply (hm : s.Moves t k op rest added) (hrank : (t.conn x).state.rank ≤ 1) :
    op.reply x = none := by
  cases op with
  | send _ _ => cases hm.plain.1
  | broadcast _ => cases hm.plain.1
  | shutdown y =>
    have hne : y ≠ x := by
      rintro rfl
      exact absurd (hm.shutdown y rfl) (by omega)
    exact if_neg hne
  | _ => rfl

theorem Served.moves (h : s.Served r x) (hthread : s.Attends r k)
    (hm : s.Moves t k op rest added) : t.Served r x := by
  rw [← r.start_serving k]
  refine h.passes (hm.glides.extends_start _) (hm.glides.passes_start _ (fun hk hrank => ?_)
    fun hk => ?_)
  · rw [r.start_serving, pending, pending, hm.glides.loop, hk, hm.running, hm.before]
    split
    · next hs =>
      have hop := (hthread.serving x hs).2.2 op (hm.before ▸ List.mem_cons_self)
      have hadded : added.filterMap (ChatOp.reply x) = [] :=
        List.filterMap_eq_nil_iff.mpr fun o ho => ((hm.added o ho).2.2.2.1 x hop).2
      rw [List.filterMap_append, hadded, List.filterMap_cons_none (hm.reply hrank)]
      rfl
    · rfl
  · rw [hm.running, hm.before]
    have hadded : .drainRequests x ∉ added := fun hmem => by cases (hm.added _ hmem).2.1
    have hop : .drainRequests x ≠ op := by
      rintro rfl
      cases hm.plain.2
    simp [hadded, hop]

theorem Transcribed.moves (h : s.Transcribed r) (hm : s.Moves t k op rest added) :
    t.Transcribed r where
  thread j := by
    by_cases hj : j = k
    · subst hj
      exact (h.thread j).moves hm
    · exact (h.thread j).frame hm.extends (hm.glides.other j hj) rfl
  conn x := (h.conn x).moves (h.thread k) hm
  nodup := hm.nodup h.nodup

end Moves

end WebChatServer

end AegisNet
