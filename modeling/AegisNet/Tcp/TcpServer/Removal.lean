import AegisNet.Tcp.TcpServer

/-!
# The removal of a connection

A connection goes through eight phases. In each there is at most one statement or functor in the
whole server, on one known thread, that takes it to the next phase, and every thread that runs such
a statement finds the connection in the phase for it. So what happens to a connection happens once,
in one order, and where it belongs; and in every phase but the last someone holds the connection.

## Main definitions

- `Phase` — the phases, with what is then still to be done
- `TcpServer.duties` — the statements that move a connection on
- `TcpServer.InPhase` — what holds of a connection in a phase
- `TcpServer.Orderly` — the invariant of the server

## Main results

- `TcpServer.removal_protocol` — the map, the order of events, and ownership
-/

namespace AegisNet

/-- The life of a connection, from `newConnection` on. -/
inductive Phase
  | submitting
  | establishing
  | up
  | closing
  | erasing
  | releasing
  | destroying
  | destroyed
  deriving DecidableEq, Repr

namespace Phase

variable {κ : Type*}

/-- The statements that are left to be made. -/
def ops (n : ConnId) : Phase → List ServerOp
  | submitting => [.submitEstablished n]
  | establishing => [.connectEstablished n]
  | up => []
  | closing => [.submitClosed n]
  | erasing => [.erase n, .queueDestroyed n]
  | releasing => [.queueDestroyed n]
  | destroying => [.connectDestroyed n]
  | destroyed => []

/-- The thread that makes them. -/
def thread (base own : κ) : Phase → κ
  | submitting | erasing | releasing => base
  | establishing | up | closing | destroying | destroyed => own

/-- How many of the events have happened. -/
def happened : Phase → ℕ
  | submitting | establishing => 0
  | up => 1
  | closing | erasing => 2
  | releasing | destroying => 3
  | destroyed => 4

/-- The states of the connection. -/
def State (c : TcpConnection) : Phase → Prop
  | submitting | establishing => c.state = .kConnecting ∧ c.channel.inEpoll = false
  | up => c.Open
  | closing | erasing | releasing | destroying | destroyed => c.state = .kDisconnected

end Phase

/-- The events in the life of a connection, each with the loop on which it happens. -/
def life {κ : Type*} (base own : κ) : List (κ × LifeEvent) :=
  [(own, .connectEstablished), (own, .handleClose), (base, .erase), (own, .connectDestroyed)]

/-- The statement takes connection `n` to its next phase. -/
def ServerOp.duty (n : ConnId) : ServerOp → Bool
  | .submitEstablished m | .connectEstablished m | .submitClosed m | .erase m | .queueDestroyed m
  | .connectDestroyed m => m = n
  | .runBound _ _ => false

/-- A functor moves no connection on but its own. -/
theorem ServerFunctor.filter_body_of_ne {cb : ServerFunctor} {n : ConnId} (hn : n ≠ cb.conn) :
    cb.body.filter (ServerOp.duty n) = [] := by
  cases cb with
  | bound m f => rfl
  | connectEstablished m | closed m | connectDestroyed m =>
    simpa [ServerFunctor.body, ServerOp.duty, ServerFunctor.conn] using hn.symm

/-- The phase that begins with the statement, and what follows it there. -/
def ServerOp.phase : ServerOp → Phase × List ServerOp
  | .submitEstablished _ => (.submitting, [])
  | .connectEstablished _ => (.establishing, [])
  | .submitClosed _ => (.closing, [])
  | .erase n => (.erasing, [.queueDestroyed n])
  | .queueDestroyed _ => (.releasing, [])
  | .connectDestroyed _ => (.destroying, [])
  | .runBound _ _ => (.up, [])

theorem Phase.eq_phase {p : Phase} {n : ConnId} {op : ServerOp} {ops : List ServerOp}
    (h : p.ops n = op :: ops) : op.phase = (p, ops) := by
  cases p <;> cases h <;> rfl

/-! ## Duties -/

section Duties

variable {κ : Type*} [DecidableEq κ]

/-- What is left to be done for connection `n` on each thread. -/
def duties (x : Threads κ ServerFunctor ServerOp) (n : ConnId) (k : κ) : List ServerOp :=
  (x.todo ServerFunctor.body k).filter (ServerOp.duty n)

variable {x : Threads κ ServerFunctor ServerOp} {n : ConnId}

theorem duties_call (k : κ) (ops : List ServerOp) :
    duties (x.call k ops) n =
      Function.update (duties x n) k (ops.filter (ServerOp.duty n) ++ duties x n k) := by
  funext j
  rw [duties, Threads.todo_call]
  by_cases h : j = k
  · subst h
    simp [duties]
  · simp [duties, h]

theorem duties_queueInLoop (k : κ) (cb : ServerFunctor) :
    duties (x.queueInLoop k cb) n =
      Function.update (duties x n) k (duties x n k ++ cb.body.filter (ServerOp.duty n)) := by
  funext j
  rw [duties, Threads.todo_queueInLoop]
  by_cases h : j = k
  · subst h
    simp [duties]
  · simp [duties, h]

/-- With nothing else left to be done, it does not matter how the functor is passed on. -/
theorem duties_runInLoop_of_nil (h : ∀ j, duties x n j = []) (k loop : κ) (cb : ServerFunctor)
    (j : κ) : duties (x.runInLoop ServerFunctor.body k loop cb) n j =
      if j = loop then cb.body.filter (ServerOp.duty n) else [] := by
  have hupdate : duties (x.runInLoop ServerFunctor.body k loop cb) n =
      Function.update (duties x n) loop (cb.body.filter (ServerOp.duty n)) := by
    unfold Threads.runInLoop
    split
    · next hk => rw [duties_call, hk, h, List.append_nil]
    · rw [duties_queueInLoop, h, List.nil_append]
  rw [hupdate]
  by_cases hj : j = loop
  · subst hj
    rw [Function.update_self, if_pos rfl]
  · rw [Function.update_of_ne hj, if_neg hj, h]

theorem duties_runInLoop_of_ne (k loop : κ) {cb : ServerFunctor}
    (h : cb.body.filter (ServerOp.duty n) = []) :
    duties (x.runInLoop ServerFunctor.body k loop cb) n = duties x n := by
  unfold Threads.runInLoop
  split
  · rw [duties_call, h, List.nil_append, Function.update_eq_self]
  · rw [duties_queueInLoop, h, List.append_nil, Function.update_eq_self]

/-- Functors of the connection itself are no duties. -/
theorem duties_foldl_bound (loop : κ) (m : ConnId) (fs : List Functor) :
    duties ((fs.map (ServerFunctor.bound m)).foldl (fun x cb => x.queueInLoop loop cb) x) n =
      duties x n := by
  funext k
  rw [duties, Threads.todo_foldl_queueInLoop]
  by_cases hk : k = loop
  · subst hk
    rw [Function.update_self, List.filter_append, ← duties]
    refine List.append_right_eq_self.mpr (List.filter_eq_nil_iff.mpr fun op hop => ?_)
    obtain ⟨cb, hcb, hop⟩ := List.mem_flatMap.mp hop
    obtain ⟨f, -, rfl⟩ := List.mem_map.mp hcb
    rw [List.mem_singleton.mp hop]
    exact Bool.false_ne_true
  · rw [Function.update_of_ne hk, duties]

theorem duties_advance {k : κ} {op : ServerOp} {rest : List ServerOp}
    (h : x.running k = op :: rest) :
    duties x n k = (if op.duty n then [op] else []) ++ duties (x.advance k rest) n k := by
  rw [duties, Threads.todo_advance h, List.filter_cons]
  split <;> rfl

theorem duties_advance_of_ne {k j : κ} (h : j ≠ k) (rest : List ServerOp) :
    duties (x.advance k rest) n j = duties x n j := by
  rw [duties, Threads.todo_advance_of_ne h]
  rfl

end Duties

namespace TcpServer

variable {κ : Type*} [DecidableEq κ]

/-- What holds of connection `n` in phase `p`, of which the statements `ops` are left. -/
structure InPhase (s : TcpServer κ) (n : ConnId) (c : ServedConnection κ) (p : Phase)
    (ops : List ServerOp) : Prop where
  duties : ∀ k, duties s.threads n k = if k = p.thread s.baseLoop c.loop then ops else []
  history : s.history n = (life s.baseLoop c.loop).take p.happened
  entry : s.connections c.name = some n ↔ p.happened < 3
  state : p.State c.conn
  closeCallback : c.conn.closeCallback = true

/-- The invariant. -/
structure Orderly (s : TcpServer κ) : Prop where
  phase : ∀ n c, s.accepted n = some c → ∃ p, s.InPhase n c p (p.ops n)
  absent : ∀ n, s.accepted n = none → s.history n = [] ∧ ∀ k, duties s.threads n k = []
  name : ∀ n c, s.accepted n = some c →
    n < s.nextConnId ∧ c.name = connName s.name s.listenAddr n
  entry : ∀ name n, s.connections name = some n → ∃ c, s.accepted n = some c ∧ c.name = name
  /-- Functors of a connection are on its own loop. -/
  bound : ∀ k n f, .runBound n f ∈ s.threads.todo ServerFunctor.body k →
    ∃ c, s.accepted n = some c ∧ c.loop = k
  nextConnId : s.nextConnId ≤ 2 ^ 31

/-- The part of the invariant that does not speak of phases. -/
structure Accounted (s : TcpServer κ) : Prop where
  absent : ∀ n, s.accepted n = none → s.history n = [] ∧ ∀ k, duties s.threads n k = []
  name : ∀ n c, s.accepted n = some c →
    n < s.nextConnId ∧ c.name = connName s.name s.listenAddr n
  entry : ∀ name n, s.connections name = some n → ∃ c, s.accepted n = some c ∧ c.name = name
  bound : ∀ k n f, .runBound n f ∈ s.threads.todo ServerFunctor.body k →
    ∃ c, s.accepted n = some c ∧ c.loop = k
  nextConnId : s.nextConnId ≤ 2 ^ 31

theorem Orderly.accounted {s : TcpServer κ} (h : s.Orderly) : s.Accounted :=
  ⟨h.absent, h.name, h.entry, h.bound, h.nextConnId⟩

/-- A phase reads only this of the server. -/
theorem InPhase.of_eq {s t : TcpServer κ} {n : ConnId} {c : ServedConnection κ} {p : Phase}
    {ops : List ServerOp} (h : s.InPhase n c p ops) (hbase : t.baseLoop = s.baseLoop)
    (hduties : AegisNet.duties t.threads n = AegisNet.duties s.threads n)
    (hhistory : t.history n = s.history n)
    (hentry : t.connections c.name = some n ↔ s.connections c.name = some n) :
    t.InPhase n c p ops where
  duties k := by
    rw [hduties, hbase]
    exact h.duties k
  history := by
    rw [hhistory, hbase]
    exact h.history
  entry := hentry.trans h.entry
  state := h.state
  closeCallback := h.closeCallback

/-! ## One connection at a time -/

omit [DecidableEq κ] in
theorem history_record (s : TcpServer κ) (m : ConnId) (k : κ) (e : LifeEvent) (n : ConnId) :
    (s.record m k e).history n = s.history n ++ if m = n then [(k, e)] else [] := by
  simp only [history, record, List.filter_append, List.map_append]
  by_cases h : m = n <;> simp [h]

theorem history_update (s : TcpServer κ) (k : κ) (m : ConnId) (c : ServedConnection κ)
    (conn : TcpConnection) (n : ConnId) :
    (s.update k m c conn).history n = s.history n ++
      if m = n then List.replicate (Race.closes conn - Race.closes c.conn) (k, .handleClose)
      else [] := by
  simp only [history, update, List.filter_append, List.map_append]
  by_cases h : m = n <;> simp [h]

/-- `s'` comes from `s` by a step that concerns connection `m` only, which it takes from `c` to
    `c'`. -/
structure Concerns (s s' : TcpServer κ) (m : ConnId) (c c' : ServedConnection κ) : Prop where
  accepted : s.accepted m = some c
  accepted' : s'.accepted m = some c'
  accepted_of_ne : ∀ n, n ≠ m → s'.accepted n = s.accepted n
  name : c'.name = c.name
  loop : c'.loop = c.loop
  members : s'.baseLoop = s.baseLoop ∧ s'.name = s.name ∧ s'.listenAddr = s.listenAddr ∧
    s'.nextConnId = s.nextConnId
  duties_of_ne : ∀ n, n ≠ m → duties s'.threads n = duties s.threads n
  history_of_ne : ∀ n, n ≠ m → s'.history n = s.history n
  connections_of_ne : ∀ name n, n ≠ m → (s'.connections name = some n ↔ s.connections name = some n)
  connections : ∀ name, s'.connections name = some m → s.connections name = some m
  bound : ∀ k n f, .runBound n f ∈ s'.threads.todo ServerFunctor.body k →
    .runBound n f ∈ s.threads.todo ServerFunctor.body k ∨ n = m ∧ k = c.loop

omit [DecidableEq κ] in
theorem Concerns.trans {s t u : TcpServer κ} {m : ConnId} {c d e : ServedConnection κ}
    (h : s.Concerns t m c d) (h' : t.Concerns u m d e) : s.Concerns u m c e where
  accepted := h.accepted
  accepted' := h'.accepted'
  accepted_of_ne n hn := (h'.accepted_of_ne n hn).trans (h.accepted_of_ne n hn)
  name := h'.name.trans h.name
  loop := h'.loop.trans h.loop
  members := by
    obtain ⟨h₁, h₂, h₃, h₄⟩ := h.members
    obtain ⟨h₁', h₂', h₃', h₄'⟩ := h'.members
    exact ⟨h₁'.trans h₁, h₂'.trans h₂, h₃'.trans h₃, h₄'.trans h₄⟩
  duties_of_ne n hn := (h'.duties_of_ne n hn).trans (h.duties_of_ne n hn)
  history_of_ne n hn := (h'.history_of_ne n hn).trans (h.history_of_ne n hn)
  connections_of_ne name n hn :=
    (h'.connections_of_ne name n hn).trans (h.connections_of_ne name n hn)
  connections name hname := h.connections name (h'.connections name hname)
  bound k n f hmem := by
    obtain hmem | ⟨rfl, hk⟩ := h'.bound k n f hmem
    · exact h.bound k n f hmem
    · exact .inr ⟨rfl, hk.trans h.loop⟩

omit [DecidableEq κ] in
theorem Accounted.of_concerns {s s' : TcpServer κ} {m : ConnId} {c c' : ServedConnection κ}
    (h : s.Accounted) (hc : s.Concerns s' m c c') : s'.Accounted where
  absent n hnone := by
    have hn : n ≠ m := by
      rintro rfl
      rw [hc.accepted'] at hnone
      cases hnone
    rw [hc.accepted_of_ne n hn] at hnone
    rw [hc.history_of_ne n hn, hc.duties_of_ne n hn]
    exact h.absent n hnone
  name n d hd := by
    obtain ⟨-, hname, haddr, hid⟩ := hc.members
    rw [hname, haddr, hid]
    by_cases hn : n = m
    · subst hn
      obtain rfl : c' = d := Option.some.inj (hc.accepted'.symm.trans hd)
      rw [hc.name]
      exact h.name n c hc.accepted
    · exact h.name n d (hc.accepted_of_ne n hn ▸ hd)
  entry name n hname := by
    by_cases hn : n = m
    · subst hn
      obtain ⟨d, hd, hdname⟩ := h.entry name n (hc.connections name hname)
      obtain rfl : c = d := Option.some.inj (hc.accepted.symm.trans hd)
      exact ⟨c', hc.accepted', hc.name.trans hdname⟩
    · rw [hc.accepted_of_ne n hn]
      exact h.entry name n ((hc.connections_of_ne name n hn).mp hname)
  bound k n f hmem := by
    have hloop : ∃ d, s.accepted n = some d ∧ d.loop = k := by
      obtain hmem | ⟨rfl, hk⟩ := hc.bound k n f hmem
      · exact h.bound k n f hmem
      · exact ⟨c, hc.accepted, hk.symm⟩
    obtain ⟨d, hd, hk⟩ := hloop
    by_cases hn : n = m
    · subst hn
      obtain rfl : c = d := Option.some.inj (hc.accepted.symm.trans hd)
      exact ⟨c', hc.accepted', hc.loop.trans hk⟩
    · exact ⟨d, (hc.accepted_of_ne n hn).trans hd, hk⟩
  nextConnId := by
    rw [hc.members.2.2.2]
    exact h.nextConnId

/-- Only the phase of that connection is to be looked at. -/
theorem Orderly.of_concerns {s s' : TcpServer κ} {m : ConnId} {c c' : ServedConnection κ}
    (h : s.Orderly) (hc : s.Concerns s' m c c') {p : Phase} (hp : s'.InPhase m c' p (p.ops m)) :
    s'.Orderly := by
  have hacc := h.accounted.of_concerns hc
  refine ⟨fun n d hd => ?_, hacc.absent, hacc.name, hacc.entry, hacc.bound, hacc.nextConnId⟩
  by_cases hn : n = m
  · subst hn
    obtain rfl : c' = d := Option.some.inj (hc.accepted'.symm.trans hd)
    exact ⟨p, hp⟩
  · rw [hc.accepted_of_ne n hn] at hd
    obtain ⟨q, hq⟩ := h.phase n d hd
    exact ⟨q, hq.of_eq hc.members.1 (hc.duties_of_ne n hn) (hc.history_of_ne n hn)
      (hc.connections_of_ne d.name n hn)⟩

section Concerns

variable {s : TcpServer κ} {m : ConnId} {c : ServedConnection κ}

omit [DecidableEq κ] in
/-- A change of the threads. -/
theorem concerns_threads (hm : s.accepted m = some c) {x : Threads κ ServerFunctor ServerOp}
    (hduties : ∀ n, n ≠ m → duties x n = duties s.threads n)
    (hbound : ∀ k n f, .runBound n f ∈ x.todo ServerFunctor.body k →
      .runBound n f ∈ s.threads.todo ServerFunctor.body k ∨ n = m ∧ k = c.loop) :
    s.Concerns { s with threads := x } m c c :=
  ⟨hm, hm, fun _ _ => rfl, rfl, rfl, ⟨rfl, rfl, rfl, rfl⟩, hduties, fun _ _ => rfl,
    fun _ _ _ => Iff.rfl, fun _ => id, hbound⟩

theorem concerns_advance (hm : s.accepted m = some c) {k : κ} {op : ServerOp}
    {rest : List ServerOp} (h : s.threads.running k = op :: rest)
    (hop : ∀ n, n ≠ m → op.duty n = false) :
    s.Concerns (s.advance k rest) m c c := by
  refine concerns_threads hm (fun n hn => ?_) fun j n f hmem => .inl ?_
  · funext j
    by_cases hj : j = k
    · rw [hj, duties_advance h, hop n hn]
      rfl
    · exact duties_advance_of_ne hj rest
  · by_cases hj : j = k
    · rw [hj, Threads.todo_advance h]
      rw [hj] at hmem
      exact List.mem_cons_of_mem _ hmem
    · rwa [Threads.todo_advance_of_ne hj] at hmem

/-- The functors passed on concern only their own connection, and none is bound by it. -/
theorem concerns_runInLoop (hm : s.accepted m = some c) (k loop : κ) {cb : ServerFunctor}
    (hcb : cb.conn = m) (hbody : ∀ n f, .runBound n f ∉ cb.body) :
    s.Concerns (s.runInLoop k loop cb) m c c := by
  subst hcb
  refine concerns_threads hm (fun n hn => duties_runInLoop_of_ne k loop
    (ServerFunctor.filter_body_of_ne hn)) fun j n f hmem => .inl ?_
  rw [Threads.todo_runInLoop] at hmem
  by_cases hj : j = loop
  · subst hj
    rw [Function.update_self] at hmem
    split at hmem
    · exact (List.mem_append.mp hmem).resolve_left (hbody n f)
    · exact (List.mem_append.mp hmem).resolve_right (hbody n f)
  · rwa [Function.update_of_ne hj] at hmem

theorem concerns_queueInLoop (hm : s.accepted m = some c) (loop : κ) {cb : ServerFunctor}
    (hcb : cb.conn = m) (hbody : ∀ n f, .runBound n f ∈ cb.body → n = m ∧ loop = c.loop) :
    s.Concerns { s with threads := s.threads.queueInLoop loop cb } m c c := by
  subst hcb
  refine concerns_threads hm (fun n hn => ?_) fun j n f hmem => ?_
  · rw [duties_queueInLoop, ServerFunctor.filter_body_of_ne hn, List.append_nil,
      Function.update_eq_self]
  · rw [Threads.todo_queueInLoop] at hmem
    by_cases hj : j = loop
    · subst hj
      rw [Function.update_self] at hmem
      exact (List.mem_append.mp hmem).imp_right (hbody n f)
    · rw [Function.update_of_ne hj] at hmem
      exact .inl hmem

omit [DecidableEq κ] in
theorem concerns_record (hm : s.accepted m = some c) (k : κ) (e : LifeEvent) :
    s.Concerns (s.record m k e) m c c :=
  ⟨hm, hm, fun _ _ => rfl, rfl, rfl, ⟨rfl, rfl, rfl, rfl⟩, fun _ _ => rfl,
    fun n hn => by rw [history_record, if_neg (Ne.symm hn), List.append_nil],
    fun _ _ _ => Iff.rfl, fun _ => id, fun _ _ _ => .inl⟩

/-- What the connection queues goes to its own loop. -/
theorem mem_todo_foldl_bound {x : Threads κ ServerFunctor ServerOp} {loop k : κ} {m : ConnId}
    {fs : List Functor} {op : ServerOp}
    (h : op ∈ ((fs.map (ServerFunctor.bound m)).foldl (fun x cb => x.queueInLoop loop cb) x).todo
      ServerFunctor.body k) :
    op ∈ x.todo ServerFunctor.body k ∨ k = loop ∧ ∃ f, op = .runBound m f := by
  rw [Threads.todo_foldl_queueInLoop] at h
  by_cases hk : k = loop
  · subst hk
    rw [Function.update_self] at h
    refine (List.mem_append.mp h).imp_right fun h => ⟨rfl, ?_⟩
    obtain ⟨cb, hcb, hop⟩ := List.mem_flatMap.mp h
    obtain ⟨f, -, rfl⟩ := List.mem_map.mp hcb
    exact ⟨f, List.mem_singleton.mp hop⟩
  · rw [Function.update_of_ne hk] at h
    exact .inl h

theorem filter_replicate_submitClosed (r : ℕ) {m n : ConnId} :
    (List.replicate r (ServerOp.submitClosed m)).filter (ServerOp.duty n) =
      if m = n then List.replicate r (.submitClosed m) else [] := by
  simp [List.filter_replicate, ServerOp.duty]

theorem duties_update (k : κ) (conn : TcpConnection) (n : ConnId) :
    duties (s.update k m c conn).threads n = Function.update (duties s.threads n) k
      ((if m = n then List.replicate (Race.closes conn - Race.closes c.conn) (.submitClosed m)
        else []) ++ duties s.threads n k) := by
  rw [update, duties_call, duties_foldl_bound, filter_replicate_submitClosed]

theorem concerns_update (hm : s.accepted m = some c) (k : κ) (conn : TcpConnection) :
    s.Concerns (s.update k m c conn) m c { c with conn := { conn with loop := {} } } where
  accepted := hm
  accepted' := Function.update_self ..
  accepted_of_ne n hn := Function.update_of_ne hn ..
  name := rfl
  loop := rfl
  members := ⟨rfl, rfl, rfl, rfl⟩
  duties_of_ne n hn := by
    rw [duties_update, if_neg (Ne.symm hn), List.nil_append, Function.update_eq_self]
  history_of_ne n hn := by rw [history_update, if_neg (Ne.symm hn), List.append_nil]
  connections_of_ne _ _ _ := Iff.rfl
  connections _ := id
  bound j n f hmem := by
    have hqueue : ServerOp.runBound n f ∈
        ((conn.loop.pendingFunctors.map (ServerFunctor.bound m)).foldl
          (fun x cb => x.queueInLoop c.loop cb) s.threads).todo ServerFunctor.body j := by
      rw [update, Threads.todo_call] at hmem
      by_cases hj : j = k
      · subst hj
        rw [Function.update_self] at hmem
        refine (List.mem_append.mp hmem).resolve_left fun h => ?_
        cases List.eq_of_mem_replicate h
      · rwa [Function.update_of_ne hj] at hmem
    obtain h | ⟨hj, g, hg⟩ := mem_todo_foldl_bound hqueue
    · exact .inl h
    · cases hg
      exact .inr ⟨rfl, hj⟩

end Concerns

/-! ## Methods of a connection -/

theorem phase_stays {p : Phase} {c c' : TcpConnection} (h : p.State c)
    (hc : c.Stays c') : p.State c' := by
  cases p with
  | submitting | establishing =>
    have ho : ¬ c.Open := fun ho => ho.ne.2 h.1
    exact ⟨(hc.state_eq ho).trans h.1, (hc.inEpoll h.1).trans h.2⟩
  | up => exact hc.isOpen.mpr h
  | closing | erasing | releasing | destroying | destroyed =>
    have ho : ¬ c.Open := fun ho => ho.ne.1 h
    exact (hc.state_eq ho).trans h

theorem phase_eq_up {p : Phase} {c : TcpConnection} (h : p.State c)
    (hc : c.Open) : p = .up := by
  cases p with
  | submitting | establishing => exact absurd h.1 hc.ne.2
  | up => rfl
  | closing | erasing | releasing | destroying | destroyed => exact absurd h hc.ne.1

/-- A registered channel is one of an established connection. -/
theorem InPhase.ne_kConnecting {s : TcpServer κ} {m : ConnId} {c : ServedConnection κ} {p : Phase}
    {ops : List ServerOp} (h : s.InPhase m c p ops) (hepoll : c.conn.channel.inEpoll = true) :
    c.conn.state ≠ .kConnecting := by
  intro hs
  have hstate := h.state
  cases p with
  | submitting | establishing =>
    rw [hstate.2] at hepoll
    cases hepoll
  | up => exact hstate.ne.2 hs
  | closing | erasing | releasing | destroying | destroyed =>
    rw [Phase.State, hs] at hstate
    cases hstate

/-- Step lemma for the methods: a close takes the connection from `up` to `closing`. -/
theorem InPhase.update {s : TcpServer κ} {m : ConnId} {c : ServedConnection κ} {p : Phase}
    (h : s.InPhase m c p (p.ops m)) {conn : TcpConnection} (hmoves : c.conn.Moves conn) :
    ∃ p', (p' = p ∨ p = .up ∧ p' = .closing) ∧
      (s.update c.loop m c conn).InPhase m { c with conn := { conn with loop := {} } } p'
        (p'.ops m) := by
  obtain hstays | hcloses := hmoves
  · have hzero : Race.closes conn - Race.closes c.conn = 0 := by rw [hstays.closes, Nat.sub_self]
    refine ⟨p, .inl rfl, ⟨fun k => ?_, ?_, h.entry, ?_, hstays.closeCallback.trans h.closeCallback⟩⟩
    · rw [duties_update, hzero, List.replicate_zero, ite_self, List.nil_append,
        Function.update_eq_self]
      exact h.duties k
    · rw [history_update, hzero, List.replicate_zero, ite_self, List.append_nil]
      exact h.history
    · have hstate := phase_stays h.state hstays
      cases p <;> exact hstate
  · obtain rfl := phase_eq_up h.state hcloses.isOpen
    have hone : Race.closes conn - Race.closes c.conn = 1 := by
      rw [hcloses.closes, Nat.add_sub_cancel_left]
    refine ⟨.closing, .inr ⟨rfl, rfl⟩, ⟨fun k => ?_, ?_, ?_, hcloses.state,
      hcloses.closeCallback.trans h.closeCallback⟩⟩
    · have hnil : ∀ k, AegisNet.duties s.threads m k = [] := fun k => by
        simpa [Phase.ops] using h.duties k
      rw [duties_update, hone, if_pos rfl, hnil, List.append_nil]
      by_cases hk : k = c.loop
      · subst hk
        simp [Phase.thread, Phase.ops]
      · simp [Phase.thread, hk, hnil]
    · rw [history_update, hone, if_pos rfl, h.history]
      rfl
    · exact h.entry.trans (iff_of_true (by decide) (by decide))

theorem Orderly.onOwnLoop {s : TcpServer κ} (h : s.Orderly) {m : ConnId}
    {f : TcpConnection → TcpConnection}
    (hf : ∀ c p, s.accepted m = some c → s.InPhase m c p (p.ops m) → c.conn.Moves (f c.conn)) :
    (s.onOwnLoop m f).Orderly := by
  cases hm : s.accepted m with
  | none => rwa [TcpServer.onOwnLoop, hm]
  | some c =>
    obtain ⟨p, hp⟩ := h.phase m c hm
    obtain ⟨p', -, hp'⟩ := hp.update (hf c p hm hp)
    rw [onOwnLoop_eq hm, onConnection_eq hm]
    exact h.of_concerns (concerns_update hm c.loop _) hp'

/-! ## Statements -/

section Statements

variable {s : TcpServer κ} {k : κ} {op : ServerOp} {rest : List ServerOp} {m : ConnId}
  {c : ServedConnection κ}

/-- A statement that moves connection `m` on is the next of its phase, and on the right thread. -/
theorem InPhase.next {p : Phase} (hp : s.InPhase m c p (p.ops m)) (hm : s.accepted m = some c)
    (hrun : s.threads.running k = op :: rest) (hop : ∀ n, op.duty n = decide (m = n)) :
    p = op.phase.1 ∧ k = p.thread s.baseLoop c.loop ∧
      (s.advance k rest).InPhase m c op.phase.1 op.phase.2 ∧
      s.Concerns (s.advance k rest) m c c := by
  have hduties := duties_advance (n := m) hrun
  rw [hop, if_pos (by simp)] at hduties
  have hk : k = p.thread s.baseLoop c.loop := by
    by_contra hk
    rw [hp.duties k, if_neg hk] at hduties
    cases hduties
  have hops : p.ops m = op :: AegisNet.duties (s.threads.advance k rest) m k := by
    rw [hp.duties k, if_pos hk] at hduties
    exact hduties
  rw [Phase.eq_phase hops]
  refine ⟨rfl, hk, ⟨fun j => ?_, hp.history, hp.entry, hp.state, hp.closeCallback⟩,
    concerns_advance hm hrun fun n hn => ?_⟩
  · by_cases hj : j = k
    · subst hj
      exact (if_pos hk).symm
    · have hne : j ≠ p.thread s.baseLoop c.loop := fun h => hj (h.trans hk.symm)
      exact (duties_advance_of_ne hj rest).trans ((hp.duties j).trans (by
        rw [if_neg hne]
        exact (if_neg hne).symm))
  · simp [hop, Ne.symm hn]

theorem Orderly.next (h : s.Orderly) (hrun : s.threads.running k = op :: rest)
    (hop : ∀ n, op.duty n = decide (m = n)) :
    ∃ c, s.accepted m = some c ∧ k = op.phase.1.thread s.baseLoop c.loop ∧
      (s.advance k rest).InPhase m c op.phase.1 op.phase.2 ∧
      s.Concerns (s.advance k rest) m c c := by
  cases hm : s.accepted m with
  | none =>
    have hduties := duties_advance (n := m) hrun
    rw [hop, if_pos (by simp), (h.absent m hm).2 k] at hduties
    cases hduties
  | some c =>
    obtain ⟨p, hp⟩ := h.phase m c hm
    obtain ⟨rfl, hnext⟩ := hp.next hm hrun hop
    exact ⟨c, rfl, hnext⟩

theorem InPhase.nil {p : Phase} (h : s.InPhase m c p []) (j : κ) :
    AegisNet.duties s.threads m j = [] := by
  rw [h.duties j, ite_self]

theorem InPhase.submitEstablished (h : s.InPhase m c .submitting []) :
    (s.runInLoop k c.loop (.connectEstablished m)).InPhase m c .establishing
      (Phase.establishing.ops m) := by
  have hbody : (ServerFunctor.connectEstablished m).body.filter (ServerOp.duty m) =
      Phase.establishing.ops m := by
    simp [ServerFunctor.body, ServerOp.duty, Phase.ops]
  refine ⟨fun j => (duties_runInLoop_of_nil h.nil k c.loop _ j).trans ?_, h.history, h.entry,
    h.state, h.closeCallback⟩
  rw [hbody]
  rfl

theorem InPhase.submitClosed (h : s.InPhase m c .closing []) :
    (s.runInLoop k s.baseLoop (.closed m)).InPhase m c .erasing (Phase.erasing.ops m) := by
  have hbody : (ServerFunctor.closed m).body.filter (ServerOp.duty m) = Phase.erasing.ops m := by
    simp [ServerFunctor.body, ServerOp.duty, Phase.ops]
  refine ⟨fun j => (duties_runInLoop_of_nil h.nil k s.baseLoop _ j).trans ?_, h.history, h.entry,
    h.state, h.closeCallback⟩
  rw [hbody]
  rfl

theorem InPhase.queueDestroyed (h : s.InPhase m c .releasing []) :
    { s with threads := s.threads.queueInLoop c.loop (.connectDestroyed m) }.InPhase m c .destroying
      (Phase.destroying.ops m) := by
  refine ⟨fun j => ?_, h.history, h.entry, h.state, h.closeCallback⟩
  rw [duties_queueInLoop, h.nil]
  by_cases hj : j = c.loop
  · subst hj
    simp [ServerFunctor.body, ServerOp.duty, Phase.ops, Phase.thread]
  · simp [Phase.thread, hj, h.nil]

theorem InPhase.erase (h : s.InPhase m c .erasing [.queueDestroyed m]) :
    { s.record m s.baseLoop .erase with
      connections := Function.update s.connections c.name none }.InPhase m c .releasing
        (Phase.releasing.ops m) := by
  refine ⟨h.duties, ?_, ?_, h.state, h.closeCallback⟩
  · exact (history_record s m s.baseLoop .erase m).trans (by rw [if_pos rfl, h.history]; rfl)
  · simp [Phase.happened]

theorem closes_connectEstablished (c : TcpConnection) :
    Race.closes c.connectEstablished = Race.closes c := by
  show List.count _ (if c.connectionCallback then c.trace ++ [_] else c.trace) = _
  split <;> simp [Race.closes]

/-- A method that is the event `e` in the life of the connection, and does not close it. -/
theorem InPhase.event {p p' : Phase} {e : LifeEvent} {conn : TcpConnection}
    (h : s.InPhase m c p []) (hcloses : Race.closes conn = Race.closes c.conn)
    (hops : p'.ops m = [])
    (hlife : (life s.baseLoop c.loop).take p'.happened =
      (life s.baseLoop c.loop).take p.happened ++ [(c.loop, e)])
    (hentry : p.happened < 3 ↔ p'.happened < 3)
    (hstate : p'.State { conn with loop := {} })
    (hcb : conn.closeCallback = c.conn.closeCallback) :
    ((s.record m c.loop e).update c.loop m c conn).InPhase m
      { c with conn := { conn with loop := {} } } p' (p'.ops m) := by
  have hzero : Race.closes conn - Race.closes c.conn = 0 := by rw [hcloses, Nat.sub_self]
  refine ⟨fun j => ?_, ?_, h.entry.trans hentry, hstate, hcb.trans h.closeCallback⟩
  · rw [duties_update, hzero, List.replicate_zero, ite_self, List.nil_append,
      Function.update_eq_self, hops, ite_self]
    exact h.nil j
  · rw [history_update, hzero, List.replicate_zero, ite_self, List.append_nil, history_record,
      if_pos rfl, h.history]
    exact hlife.symm

theorem InPhase.connectEstablished (h : s.InPhase m c .establishing []) :
    ((s.record m c.loop .connectEstablished).update c.loop m c
        c.conn.connectEstablished).InPhase m
      { c with conn := { c.conn.connectEstablished with loop := {} } } .up (Phase.up.ops m) :=
  h.event (closes_connectEstablished c.conn) rfl rfl (iff_of_true (by decide) (by decide)) (.inl rfl)
    rfl

/-- `connectDestroyed` finds the connection closed. -/
theorem InPhase.connectDestroyed (h : s.InPhase m c .destroying []) :
    ((s.record m c.loop .connectDestroyed).update c.loop m c c.conn.connectDestroyed).InPhase m
      { c with conn := { c.conn.connectDestroyed with loop := {} } } .destroyed
      (Phase.destroyed.ops m) := by
  have hstate : c.conn.state = .kDisconnected := h.state
  have hconn : c.conn.connectDestroyed = { c.conn with channel := c.conn.channel.remove } := by
    rw [TcpConnection.connectDestroyed, if_neg (by simp [hstate])]
  rw [hconn]
  exact h.event rfl rfl rfl (iff_of_false (by decide) (by decide)) hstate rfl

omit [DecidableEq κ] in
/-- Two connections do not share a name. -/
theorem Accounted.eq_of_entry (h : s.Accounted) (hm : s.accepted m = some c) {n : ConnId}
    (hn : s.connections c.name = some n) : n = m := by
  obtain ⟨d, hd, hname⟩ := h.entry _ n hn
  obtain ⟨hmlt, hmname⟩ := h.name m c hm
  obtain ⟨hnlt, hnname⟩ := h.name n d hd
  have hle := h.nextConnId
  exact connName_inj (Nat.lt_of_lt_of_le hnlt hle) (Nat.lt_of_lt_of_le hmlt hle)
    (hnname.symm.trans (hname.trans hmname))

omit [DecidableEq κ] in
theorem concerns_erase (hm : s.accepted m = some c) (hc : ∀ n, s.connections c.name = some n → n = m)
    (k : κ) : s.Concerns { s.record m k .erase with
      connections := Function.update s.connections c.name none } m c c where
  accepted := hm
  accepted' := hm
  accepted_of_ne _ _ := rfl
  name := rfl
  loop := rfl
  members := ⟨rfl, rfl, rfl, rfl⟩
  duties_of_ne _ _ := rfl
  history_of_ne := (concerns_record hm k .erase).history_of_ne
  connections_of_ne name n hn := by
    by_cases hname : name = c.name
    · subst hname
      exact iff_of_false (by simp) fun hentry => hn (hc n hentry)
    · simp [hname]
  connections name hentry := by
    by_cases hname : name = c.name
    · subst hname
      simp at hentry
    · simpa [hname] using hentry
  bound _ _ _ := .inl

/-- A functor of the connection itself, on its own loop. -/
theorem Orderly.runBound (h : s.Orderly) {f : Functor}
    (hrun : s.threads.running k = .runBound m f :: rest) :
    ((s.advance k rest).onConnection k m fun c => c.runFunctor f).Orderly := by
  have hmem : ServerOp.runBound m f ∈ s.threads.todo ServerFunctor.body k := by
    rw [Threads.todo_advance hrun]
    exact List.mem_cons_self
  obtain ⟨c, hm, rfl⟩ := h.bound k m f hmem
  have hadvance : (s.advance c.loop rest).Orderly := by
    obtain ⟨p, hp⟩ := h.phase m c hm
    refine h.of_concerns (concerns_advance hm hrun fun _ _ => rfl) (p := p)
      ⟨fun j => ?_, hp.history, hp.entry, hp.state, hp.closeCallback⟩
    refine Eq.trans ?_ (hp.duties j)
    by_cases hj : j = c.loop
    · rw [hj, duties_advance hrun]
      rfl
    · exact duties_advance_of_ne hj rest
  have hown := hadvance.onOwnLoop (m := m) (f := fun c => c.runFunctor f)
    fun _ _ _ hp => TcpConnection.moves_runFunctor hp.closeCallback f
  rwa [onOwnLoop_eq (show (s.advance c.loop rest).accepted m = some c from hm)] at hown

/-- Every thread finds the connection as its statement expects it. -/
theorem Orderly.execOp (h : s.Orderly) (hrun : s.threads.running k = op :: rest) :
    ((s.advance k rest).execOp k op).Orderly := by
  cases op with
  | submitEstablished n =>
    obtain ⟨c, hm, rfl, hp, hc⟩ := h.next (m := n) hrun fun _ => rfl
    simp only [TcpServer.execOp, hc.accepted']
    exact h.of_concerns (hc.trans (concerns_runInLoop hc.accepted' _ _ rfl
      (by simp [ServerFunctor.body]))) hp.submitEstablished
  | connectEstablished n =>
    obtain ⟨c, hm, hk, hp, hc⟩ := h.next (m := n) hrun fun _ => rfl
    obtain rfl : k = c.loop := hk
    have hrecord := concerns_record hc.accepted' c.loop .connectEstablished
    rw [TcpServer.execOp, onConnection_eq hrecord.accepted']
    exact h.of_concerns (hc.trans (hrecord.trans (concerns_update hrecord.accepted' c.loop _)))
      hp.connectEstablished
  | submitClosed n =>
    obtain ⟨c, hm, rfl, hp, hc⟩ := h.next (m := n) hrun fun _ => rfl
    exact h.of_concerns (hc.trans (concerns_runInLoop hc.accepted' _ _ rfl
      (by simp [ServerFunctor.body]))) hp.submitClosed
  | erase n =>
    obtain ⟨c, hm, hk, hp, hc⟩ := h.next (m := n) hrun fun _ => rfl
    obtain rfl : k = s.baseLoop := hk
    simp only [TcpServer.execOp, hc.accepted']
    exact h.of_concerns (hc.trans (concerns_erase hc.accepted' (fun _ => h.accounted.eq_of_entry hm) _))
      hp.erase
  | queueDestroyed n =>
    obtain ⟨c, hm, rfl, hp, hc⟩ := h.next (m := n) hrun fun _ => rfl
    simp only [TcpServer.execOp, hc.accepted']
    exact h.of_concerns (hc.trans (concerns_queueInLoop hc.accepted' c.loop rfl
      (by simp [ServerFunctor.body]))) hp.queueDestroyed
  | connectDestroyed n =>
    obtain ⟨c, hm, hk, hp, hc⟩ := h.next (m := n) hrun fun _ => rfl
    obtain rfl : k = c.loop := hk
    have hrecord := concerns_record hc.accepted' c.loop .connectDestroyed
    rw [TcpServer.execOp, onConnection_eq hrecord.accepted']
    exact h.of_concerns (hc.trans (hrecord.trans (concerns_update hrecord.accepted' c.loop _)))
      hp.connectDestroyed
  | runBound n f => exact h.runBound hrun

end Statements

/-! ## Runs -/

theorem Fresh.orderly {s : TcpServer κ} (h : s.Fresh) : s.Orderly where
  phase n c hc := by
    rw [h.accepted n] at hc
    cases hc
  absent n _ := by
    refine ⟨by simp [history, h.log], fun k => ?_⟩
    simp [duties, Threads.todo, h.running k, h.queued k]
  name n c hc := by
    rw [h.accepted n] at hc
    cases hc
  entry name n hn := by
    rw [h.connections name] at hn
    cases hn
  bound k n f hmem := by
    simp [Threads.todo, h.running k, h.queued k] at hmem
  nextConnId := by
    rw [h.nextConnId]
    omega

section NewConnection

variable {s : TcpServer κ} {n : ConnId} {c : ServedConnection κ}

omit [DecidableEq κ] in
/-- The new connection gets a number that no other has. -/
theorem Accounted.ne_nextConnId (h : s.Accounted) (hc : s.accepted n = some c) :
    n ≠ s.nextConnId :=
  Nat.ne_of_lt (h.name n c hc).1

omit [DecidableEq κ] in
/-- And a name that no other has. -/
theorem Accounted.name_ne (h : s.Accounted) (hid : s.nextConnId < 2 ^ 31)
    (hc : s.accepted n = some c) : c.name ≠ connName s.name s.listenAddr s.nextConnId := by
  intro heq
  obtain ⟨hn, hcname⟩ := h.name n c hc
  exact h.ne_nextConnId hc (connName_inj (Nat.lt_trans hn hid) hid (hcname.symm.trans heq))

omit [DecidableEq κ] in
theorem Accounted.accepted_nextConnId (h : s.Accounted) : s.accepted s.nextConnId = none := by
  cases hc : s.accepted s.nextConnId with
  | none => rfl
  | some c => exact absurd rfl (h.ne_nextConnId hc)

theorem duties_newConnection (hn : n ≠ s.nextConnId) :
    duties s.newConnection.threads n = duties s.threads n := by
  show duties (s.threads.call s.baseLoop [.submitEstablished s.nextConnId]) n = _
  rw [duties_call]
  simp [ServerOp.duty, Ne.symm hn]

theorem Accounted.newConnection (h : s.Accounted) (hid : s.nextConnId < 2 ^ 31) :
    s.newConnection.Accounted where
  absent n hnone := by
    have hn : n ≠ s.nextConnId := by
      rintro rfl
      rw [accepted_newConnection] at hnone
      cases hnone
    obtain ⟨hhistory, hnil⟩ := h.absent n ((accepted_newConnection_of_ne hn).symm.trans hnone)
    exact ⟨hhistory, fun k => (congrFun (duties_newConnection hn) k).trans (hnil k)⟩
  name n c hc := by
    by_cases hn : n = s.nextConnId
    · subst hn
      obtain rfl := Option.some.inj (s.accepted_newConnection.symm.trans hc)
      exact ⟨Nat.lt_succ_self _, rfl⟩
    · obtain ⟨hlt, hcname⟩ := h.name n c ((accepted_newConnection_of_ne hn).symm.trans hc)
      exact ⟨Nat.lt_succ_of_lt hlt, hcname⟩
  entry name n hentry := by
    by_cases heq : name = connName s.name s.listenAddr s.nextConnId
    · subst heq
      obtain rfl := Option.some.inj (s.connections_newConnection.symm.trans hentry)
      exact ⟨_, s.accepted_newConnection, rfl⟩
    · obtain ⟨c, hc, hcname⟩ :=
        h.entry name n ((connections_newConnection_of_ne heq).symm.trans hentry)
      exact ⟨c, (accepted_newConnection_of_ne (h.ne_nextConnId hc)).trans hc, hcname⟩
  bound k n f hmem := by
    have hmem' : ServerOp.runBound n f ∈ s.threads.todo ServerFunctor.body k := by
      rw [TcpServer.newConnection, Threads.todo_call] at hmem
      by_cases hk : k = s.baseLoop
      · subst hk
        simpa using hmem
      · simpa [hk] using hmem
    obtain ⟨c, hc, hloop⟩ := h.bound k n f hmem'
    exact ⟨c, (accepted_newConnection_of_ne (h.ne_nextConnId hc)).trans hc, hloop⟩
  nextConnId := hid

/-- Only `submitEstablished` is left of the new connection, on the base loop. -/
theorem Accounted.inPhase_newConnection (h : s.Accounted) :
    s.newConnection.InPhase s.nextConnId ⟨connName s.name s.listenAddr s.nextConnId,
      s.getNextLoop.1, s.makeConnection⟩ .submitting (Phase.submitting.ops s.nextConnId) := by
  obtain ⟨hhistory, hnil⟩ := h.absent _ h.accepted_nextConnId
  refine ⟨fun k => ?_, hhistory, ?_, ⟨rfl, rfl⟩, rfl⟩
  · show duties (s.threads.call s.baseLoop [.submitEstablished s.nextConnId]) _ k = _
    rw [duties_call, hnil, List.append_nil]
    by_cases hk : k = s.baseLoop
    · subst hk
      simp [TcpServer.newConnection, ServerOp.duty, Phase.ops, Phase.thread]
    · simp [TcpServer.newConnection, Phase.thread, hk, hnil]
  · exact iff_of_true s.connections_newConnection (by decide)

theorem Orderly.newConnection (h : s.Orderly) (hid : s.nextConnId < 2 ^ 31) :
    s.newConnection.Orderly := by
  have hacc := h.accounted.newConnection hid
  refine ⟨fun n c hc => ?_, hacc.absent, hacc.name, hacc.entry, hacc.bound, hacc.nextConnId⟩
  by_cases hn : n = s.nextConnId
  · subst hn
    obtain rfl := Option.some.inj (s.accepted_newConnection.symm.trans hc)
    exact ⟨.submitting, h.accounted.inPhase_newConnection⟩
  · have hc' : s.accepted n = some c := (accepted_newConnection_of_ne hn).symm.trans hc
    obtain ⟨p, hp⟩ := h.phase n c hc'
    refine ⟨p, hp.of_eq rfl (duties_newConnection hn) rfl ?_⟩
    rw [connections_newConnection_of_ne (h.accounted.name_ne hid hc')]

end NewConnection

section Todo

variable {s : TcpServer κ} {x : Threads κ ServerFunctor ServerOp}

omit [DecidableEq κ] in
theorem duties_of_todo
    (hx : x.todo ServerFunctor.body = s.threads.todo ServerFunctor.body) (n : ConnId) :
    duties x n = duties s.threads n := by
  funext k
  rw [duties, hx, duties]

omit [DecidableEq κ] in
theorem Accounted.of_todo (h : s.Accounted)
    (hx : x.todo ServerFunctor.body = s.threads.todo ServerFunctor.body) :
    { s with threads := x }.Accounted where
  absent n hn := by
    rw [duties_of_todo hx n]
    exact h.absent n hn
  name := h.name
  entry := h.entry
  bound k n f hmem := h.bound k n f (hx ▸ hmem)
  nextConnId := h.nextConnId

/-- Taking functors from the queue changes nothing. -/
theorem Orderly.of_todo (h : s.Orderly)
    (hx : x.todo ServerFunctor.body = s.threads.todo ServerFunctor.body) :
    { s with threads := x }.Orderly := by
  have hacc := h.accounted.of_todo hx
  refine ⟨fun n c hc => ?_, hacc.absent, hacc.name, hacc.entry, hacc.bound, hacc.nextConnId⟩
  obtain ⟨p, hp⟩ := h.phase n c hc
  exact ⟨p, hp.of_eq rfl (duties_of_todo hx n) rfl Iff.rfl⟩

end Todo

/-- Step lemma. -/
theorem Orderly.exec {s : TcpServer κ} (h : s.Orderly) {l : ServerStep κ} (hl : s.Enabled l) :
    (s.exec l).Orderly := by
  cases l with
  | newConnection => exact h.newConnection hl.2
  | handleEvent n revents readv calls w f =>
    refine h.onOwnLoop fun c p hc hp => ?_
    obtain ⟨d, hd, -, hepoll⟩ := hl
    obtain rfl : d = c := Option.some.inj (hd.symm.trans hc)
    exact TcpConnection.moves_handleEvent (hp.ne_kConnecting hepoll) hp.closeCallback revents readv
      calls w f
  | call n call => exact h.onOwnLoop fun c _ _ _ => .inl (TcpConnection.stays_call c.conn call)
  | swapFunctors k => exact h.of_todo (Threads.todo_swapFunctors hl)
  | nextFunctor k => exact h.of_todo (Threads.todo_nextFunctor hl)
  | perform k =>
    simp only [TcpServer.exec, TcpServer.perform]
    split
    · exact h
    · next op rest hrun => exact h.execOp hrun

omit [DecidableEq κ] in
theorem ran_iff {s : TcpServer κ} {n : ConnId} {e : LifeEvent} :
    s.Ran n e ↔ e ∈ (s.history n).map Prod.snd := by
  simp [Ran, history]

omit [DecidableEq κ] in
/-- A statement of a functor that is left to be made holds its connection. -/
theorem held_of_mem_duties {s : TcpServer κ} {n : ConnId} {k : κ} {op : ServerOp}
    (h : op ∈ duties s.threads n k) (hop : op.Holds n) : s.Held n := by
  have hmem : op ∈ s.threads.todo ServerFunctor.body k := (List.mem_filter.mp h).1
  obtain hmem | hmem := List.mem_append.mp hmem
  · exact .inr (.inr ⟨k, op, hmem, hop⟩)
  · obtain ⟨cb, hcb, hbody⟩ := List.mem_flatMap.mp hmem
    refine .inr (.inl ⟨k, cb, hcb, ?_⟩)
    cases cb <;> simp only [ServerFunctor.body, List.mem_cons, List.not_mem_nil, or_false] at hbody
    case closed m =>
      obtain rfl | rfl := hbody
      · exact hop
      · exact hop
    all_goals
      subst hbody
      exact hop

/-- Until it is destroyed, a connection is held. -/
theorem InPhase.held {s : TcpServer κ} {n : ConnId} {c : ServedConnection κ} {p : Phase}
    (h : s.InPhase n c p (p.ops n)) (hp : p ≠ .destroyed) : s.Held n := by
  have hduties := h.duties (p.thread s.baseLoop c.loop)
  rw [if_pos rfl] at hduties
  cases p with
  | submitting | establishing | up | closing | erasing =>
    exact .inl ⟨c.name, h.entry.mpr (by decide)⟩
  | releasing =>
    have hmem : .queueDestroyed n ∈ AegisNet.duties s.threads n s.baseLoop :=
      hduties ▸ List.mem_singleton_self _
    exact held_of_mem_duties hmem rfl
  | destroying =>
    have hmem : .connectDestroyed n ∈ AegisNet.duties s.threads n c.loop :=
      hduties ▸ List.mem_singleton_self _
    exact held_of_mem_duties hmem rfl
  | destroyed => exact absurd rfl hp

/-- **Connection removal**, for any number of workers and any interleaving: the map holds the
    connections that are not yet erased, under their names; `connectEstablished`, the way down in
    `handleClose`, the erasure and `connectDestroyed` each happen at most once, in this order and on
    the right loop; and until then someone holds the connection. -/
theorem removal_protocol {s₀ s : TcpServer κ} (h₀ : s₀.Fresh) {ls : List (ServerStep κ)}
    (hrun : Run Step s₀ ls s) :
    (∀ name n, s.connections name = some n ↔
      ∃ c, s.accepted n = some c ∧ c.name = name ∧ ¬ s.Ran n .erase) ∧
    ∀ n c, s.accepted n = some c →
      s.history n <+: [(c.loop, .connectEstablished), (c.loop, .handleClose),
        (s.baseLoop, .erase), (c.loop, .connectDestroyed)] ∧
      (¬ s.Ran n .connectDestroyed → s.Held n) := by
  have h : s.Orderly := by
    refine hrun.invariant h₀.orderly ?_
    rintro t l _ ht ⟨hl, rfl⟩
    exact ht.exec hl
  have herase : ∀ n c p, s.InPhase n c p (p.ops n) → (¬ s.Ran n .erase ↔ p.happened < 3) := by
    intro n c p hp
    rw [ran_iff, hp.history]
    cases p <;> simp [life, Phase.happened]
  refine ⟨fun name n => ⟨fun hentry => ?_, ?_⟩, fun n c hc => ?_⟩
  · obtain ⟨c, hc, rfl⟩ := h.entry name n hentry
    obtain ⟨p, hp⟩ := h.phase n c hc
    exact ⟨c, hc, rfl, (herase n c p hp).mpr (hp.entry.mp hentry)⟩
  · rintro ⟨c, hc, rfl, hran⟩
    obtain ⟨p, hp⟩ := h.phase n c hc
    exact hp.entry.mpr ((herase n c p hp).mp hran)
  · obtain ⟨p, hp⟩ := h.phase n c hc
    refine ⟨?_, fun hran => hp.held ?_⟩
    · rw [hp.history]
      exact List.take_prefix _ _
    · rintro rfl
      refine hran ?_
      rw [ran_iff, hp.history]
      simp [life, Phase.happened]

/-- A connection on a worker, which the peer closes at once. -/
theorem removal_protocol_peerClose :
    let s₀ : TcpServer ℕ :=
      { baseLoop := 0, workers := [1], listenAddr := ⟨(127, 0, 0, 1), 8080⟩, name := "server" }
    let s := [.newConnection, .perform 0, .swapFunctors 1, .nextFunctor 1, .perform 1,
      .handleEvent 1 { epollhup := true } none [] (.upTo 0) (.upTo 0), .perform 1,
      .swapFunctors 0, .nextFunctor 0, .perform 0, .perform 0,
      .swapFunctors 1, .nextFunctor 1, .perform 1].foldl exec s₀
    (∀ name n, s.connections name = some n ↔
      ∃ c, s.accepted n = some c ∧ c.name = name ∧ ¬ s.Ran n .erase) ∧
    ∀ n c, s.accepted n = some c →
      s.history n <+: [(c.loop, .connectEstablished), (c.loop, .handleClose),
        (s.baseLoop, .erase), (c.loop, .connectDestroyed)] ∧
      (¬ s.Ran n .connectDestroyed → s.Held n) :=
  removal_protocol ⟨rfl, fun _ => rfl, fun _ => rfl, fun _ => rfl, fun _ => rfl, rfl⟩
    (Run.of_allowed (Q := Enabled) (by decide +kernel))

end TcpServer

end AegisNet
