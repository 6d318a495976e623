import AegisNet.Tcp.TcpServer.Ending

/-!
# Every connection is destroyed once

Before the destructor the server is orderly. From its call on each connection has a fate, the
workers leave their loops when the rounds are over, and the base loop thread runs nothing in the
destructor but the `connectDestroyed` of its own connections. So where each round finds its
connection still to be closed, and no worker drops a `connectDestroyed`, every established
connection is destroyed once, and no functor comes after the join.

## Main definitions

- `OwnedServer.Waiting`, `OwnedServer.Winding` — the invariant before the call and from it on

## Main results

- `OwnedServer.connectDestroyed_once` — one for each connection, and nothing for a joined thread
- `OwnedServer.not_connectDestroyed_once` — a close under way passes it to a thread that is gone
-/

namespace AegisNet

/-! ## Queues of idle threads -/

section Queues

variable {κ : Type*} [DecidableEq κ] {x : Threads κ ServerFunctor ServerOp} {n : ConnId} {k : κ}
  {op : ServerOp}

omit [DecidableEq κ] in
theorem exists_queued_of_mem_duties (hrun : x.running k = []) (h : op ∈ duties x n k) :
    ∃ cb ∈ (x.loops k).queued, op ∈ cb.body := by
  have hmem := (List.mem_filter.mp h).1
  rw [Threads.todo, hrun, List.nil_append] at hmem
  exact List.mem_flatMap.mp hmem

omit [DecidableEq κ] in
theorem mem_duties_of_queued {cb : ServerFunctor} (hcb : cb ∈ (x.loops k).queued)
    (hop : op ∈ cb.body) (hduty : op.duty n) : op ∈ duties x n k :=
  List.mem_filter.mpr ⟨List.mem_append_right _ (List.mem_flatMap.mpr ⟨cb, hcb, hop⟩), hduty⟩

omit [DecidableEq κ] in
/-- An idle thread is not about to pass a functor to the loop of a connection. -/
theorem notMem_duties_of_idle (hrun : x.running k = []) :
    .submitEstablished n ∉ duties x n k ∧
      (.queueDestroyed n ∈ duties x n k → .erase n ∈ duties x n k) := by
  refine ⟨fun h => ?_, fun h => ?_⟩
  all_goals
    obtain ⟨cb, hcb, hop⟩ := exists_queued_of_mem_duties hrun h
    cases cb <;> simp only [ServerFunctor.body, List.mem_cons, List.not_mem_nil, or_false,
      reduceCtorEq, false_or, ServerOp.queueDestroyed.injEq] at hop
  · subst hop
    exact mem_duties_of_queued hcb List.mem_cons_self (by simp [ServerOp.duty])

omit [DecidableEq κ] in
/-- What an idle thread has still to do of these two is in its queue. -/
theorem mem_queued_of_idle (hrun : x.running k = []) :
    (.connectEstablished n ∈ duties x n k → .connectEstablished n ∈ (x.loops k).queued) ∧
      (.connectDestroyed n ∈ duties x n k → .connectDestroyed n ∈ (x.loops k).queued) := by
  refine ⟨fun h => ?_, fun h => ?_⟩
  all_goals
    obtain ⟨cb, hcb, hop⟩ := exists_queued_of_mem_duties hrun h
    cases cb <;> simp only [ServerFunctor.body, List.mem_cons, List.not_mem_nil, or_false,
      reduceCtorEq, ServerOp.connectEstablished.injEq, ServerOp.connectDestroyed.injEq] at hop
    subst hop
    exact hcb

end Queues

namespace OwnedServer

variable {κ : Type*} [DecidableEq κ]

/-- The invariant before the destructor. -/
structure Waiting (s : OwnedServer κ) : Prop where
  orderly : s.server.Orderly
  housed : s.server.Housed
  baseLoop_notMem : s.server.baseLoop ∉ s.server.workers
  quit : ∀ k, s.quit k = false
  left : ∀ k, s.left k = false
  joined : ∀ k, s.joined k = false
  begun : s.begun = false
  items : s.items = []
  pool : s.pool = []
  lateSubmits : s.lateSubmits = []

/-- How far the destructor and the workers are. -/
structure Control (s : OwnedServer κ) : Prop where
  baseLoop_notMem : s.server.baseLoop ∉ s.server.workers
  begun : s.begun = true
  quit : ∀ k, s.quit k = true → k ∈ s.server.workers ∧ s.items = []
  left : ∀ k, s.left k = true → s.quit k = true
  joined : ∀ k, s.joined k = true → s.left k = true
  pool : ∀ k ∈ s.server.workers, s.joined k = true ∨ k ∈ s.pool
  mem_workers : ∀ k ∈ s.pool, k ∈ s.server.workers
  nodup : s.items.Nodup
  lateSubmits : s.lateSubmits = []

/-- The invariant from the call of the destructor on. -/
structure Winding (s : OwnedServer κ) : Prop where
  control : s.Control
  housed : s.server.Housed
  ending : s.server.Ending s.items s.left
  running : s.Destroying →
    ∀ op ∈ s.server.threads.running s.server.baseLoop, ∃ n, op = .connectDestroyed n

variable {s : OwnedServer κ} {k : κ} {n : ConnId} {items : List ConnId}

omit [DecidableEq κ] in
/-- A step of the loops, and of the body of the destructor. -/
theorem Control.frame (h : s.Control) {t : TcpServer κ} (hbase : t.baseLoop = s.server.baseLoop)
    (hworkers : t.workers = s.server.workers) (hitems : items.Sublist s.items)
    (stage : κ → LoopStage) :
    { s with
      server := t
      items := items
      stage := stage }.Control where
  baseLoop_notMem := by
    rw [hbase, hworkers]
    exact h.baseLoop_notMem
  begun := h.begun
  quit k hk := by
    obtain ⟨hmem, hnil⟩ := h.quit k hk
    rw [hnil] at hitems
    exact ⟨hworkers ▸ hmem, List.sublist_nil.mp hitems⟩
  left := h.left
  joined := h.joined
  pool := hworkers ▸ h.pool
  mem_workers := hworkers ▸ h.mem_workers
  nodup := h.nodup.sublist hitems
  lateSubmits := h.lateSubmits

omit [DecidableEq κ] in
/-- The base loop stays. -/
theorem Control.joined_baseLoop (h : s.Control) : s.joined s.server.baseLoop = false := by
  cases hj : s.joined s.server.baseLoop with
  | false => rfl
  | true => exact absurd (h.quit _ (h.left _ (h.joined _ hj))).1 h.baseLoop_notMem

omit [DecidableEq κ] in
/-- While there are rounds left, all loops are there. -/
theorem Control.left_eq_false (h : s.Control) (hitems : s.items ≠ []) (k : κ) :
    s.left k = false := by
  cases hk : s.left k with
  | false => rfl
  | true => exact absurd (h.quit k (h.left k hk)).2 hitems

omit [DecidableEq κ] in
theorem Control.joined_eq_false (h : s.Control) (hitems : s.items ≠ []) (k : κ) :
    s.joined k = false := by
  cases hk : s.joined k with
  | false => rfl
  | true => exact absurd ((h.left_eq_false hitems k).symm.trans (h.joined k hk)) Bool.false_ne_true

/-! ## Steps of the loops -/

/-- A statement whose functor is not lost is one of the server. -/
theorem perform_eq
    (h : ∀ op rest, s.server.threads.running k = op :: rest →
      (∀ loop, s.target op = some loop → s.joined loop = false) ∧ (s.begun && op.isErase) = false) :
    s.perform k = { s with server := s.server.perform k } := by
  unfold perform
  split
  · next hrun =>
    rw [TcpServer.perform, hrun]
  · next op rest hrun =>
    obtain ⟨hjoined, herase⟩ := h op rest hrun
    split
    · next loop hloop =>
      rw [if_neg (by rw [hjoined loop hloop]; exact Bool.false_ne_true)]
    · rw [if_neg (by rw [herase]; exact Bool.false_ne_true)]

theorem exec_server {l : ServerStep κ}
    (h : ∀ k, l = .perform k → s.perform k = { s with server := s.server.perform k }) :
    ∃ stage, s.exec (.server l) =
      { s with
        server := s.server.exec l
        stage := stage } := by
  cases l with
  | perform k => exact ⟨s.stage, h k rfl⟩
  | swapFunctors k => exact ⟨_, rfl⟩
  | newConnection | handleEvent n _ _ _ _ _ | call n _ | nextFunctor k => exact ⟨s.stage, rfl⟩

theorem Waiting.exec_server (h : s.Waiting) {l : ServerStep κ} (hl : s.server.Enabled l) :
    (s.exec (.server l)).Waiting := by
  obtain ⟨stage, hs⟩ := OwnedServer.exec_server (s := s) (l := l) fun k _ =>
    perform_eq fun op rest _ => ⟨fun loop _ => h.joined loop, by rw [h.begun, Bool.false_and]⟩
  obtain ⟨hbase, hworkers⟩ := s.server.members_exec l
  rw [hs]
  refine ⟨h.orderly.exec hl, h.housed.exec fun k n rest hrun => ?_, ?_, h.quit, h.left, h.joined,
    h.begun, h.items, h.pool, h.lateSubmits⟩
  · obtain ⟨c, -, hk, -⟩ := h.orderly.next (m := n) hrun fun _ => rfl
    exact hk
  · show (s.server.exec l).baseLoop ∉ (s.server.exec l).workers
    rw [hbase, hworkers]
    exact h.baseLoop_notMem

theorem Winding.perform_eq (h : s.Winding) (k : κ) :
    s.perform k = { s with server := s.server.perform k } := by
  refine OwnedServer.perform_eq fun op rest hrun => ⟨fun loop hloop => ?_, ?_⟩
  · cases op with
    | submitEstablished n => exact absurd rfl (h.ending.not_submits (m := n) hrun).1
    | queueDestroyed n => exact absurd rfl (h.ending.not_submits (m := n) hrun).2
    | submitClosed n =>
      obtain rfl := Option.some.inj hloop
      exact h.control.joined_baseLoop
    | connectEstablished n | erase n | connectDestroyed n | runBound n f => cases hloop
  · cases op with
    | erase n =>
      exact absurd rfl (h.ending.not_erase (m := n) (fun hitems => h.running (.inl hitems)) hrun)
    | submitEstablished n | connectEstablished n | submitClosed n | queueDestroyed n
    | connectDestroyed n | runBound n f => exact Bool.and_false _

/-- In the destructor the base loop thread gets nothing new from the loops. -/
theorem Winding.mem_running_exec (h : s.Winding) {l : ServerStep κ} (hr : s.Runs l)
    (hdestroying : s.Destroying) {op : ServerOp}
    (hop : op ∈ (s.server.exec l).threads.running s.server.baseLoop) :
    op ∈ s.server.threads.running s.server.baseLoop := by
  cases l with
  | newConnection => exact absurd (hr.1.symm.trans h.control.begun) Bool.false_ne_true
  | swapFunctors k => exact hop
  | handleEvent n _ _ _ _ _ =>
    obtain ⟨c, hc, hfree, -⟩ := hr
    rwa [TcpServer.exec, TcpServer.running_onOwnLoop_of_ne hc fun heq =>
      hfree.2 heq.symm hdestroying] at hop
  | call n _ =>
    obtain ⟨c, hc, hfree⟩ := hr
    rwa [TcpServer.exec, TcpServer.running_onOwnLoop_of_ne hc fun heq =>
      hfree.2 heq.symm hdestroying] at hop
  | nextFunctor k =>
    have hne : s.server.baseLoop ≠ k := fun heq => hr.1.2 heq.symm hdestroying
    simp only [TcpServer.exec] at hop
    rwa [Threads.running_nextFunctor_of_ne hne] at hop
  | perform k =>
    by_cases hk : s.server.baseLoop = k
    · subst hk
      cases hrun : s.server.threads.running s.server.baseLoop with
      | nil =>
        simp only [TcpServer.exec, TcpServer.perform, hrun] at hop
        cases hop
      | cons next rest =>
        obtain ⟨n, rfl⟩ := h.running hdestroying next (hrun ▸ List.mem_cons_self)
        rw [TcpServer.exec, TcpServer.running_connectDestroyed hrun] at hop
        exact List.mem_cons_of_mem _ hop
    · rw [TcpServer.exec, TcpServer.running_perform_of_ne hk] at hop
      exact hop

theorem Winding.ending_exec (h : s.Winding) {l : ServerStep κ} (hl : s.server.Enabled l)
    (hr : s.Runs l) : (s.server.exec l).Ending s.items s.left := by
  cases l with
  | newConnection => exact absurd (hr.1.symm.trans h.control.begun) Bool.false_ne_true
  | handleEvent n revents readv calls w f =>
    obtain ⟨c, hc, -, hepoll⟩ := hl
    obtain ⟨d, hd, hfree, -⟩ := hr
    obtain rfl : c = d := Option.some.inj (hc.symm.trans hd)
    refine h.ending.onOwnLoop (fun d hd => ?_) (fun d p hd hp => ?_)
      fun conn => TcpConnection.muted_handleEvent conn revents readv calls w f
    · obtain rfl : c = d := Option.some.inj (hc.symm.trans hd)
      exact hfree.1
    · obtain rfl : c = d := Option.some.inj (hc.symm.trans hd)
      exact TcpConnection.moves_handleEvent (hp.ne_kConnecting hepoll) hp.closeCallback revents
        readv calls w f
  | call n call =>
    obtain ⟨c, hc, hfree⟩ := hr
    refine h.ending.onOwnLoop (fun d hd => ?_)
      (fun d _ _ _ => .inl (TcpConnection.stays_call d.conn call))
      fun conn => (TcpConnection.stays_call conn call).muted
    obtain rfl : c = d := Option.some.inj (hc.symm.trans hd)
    exact hfree.1
  | swapFunctors k => exact h.ending.of_todo (Threads.todo_swapFunctors hl)
  | nextFunctor k => exact h.ending.of_todo (Threads.todo_nextFunctor hl)
  | perform k => exact h.ending.perform hr fun hitems => h.running (.inl hitems)

theorem Winding.exec_server (h : s.Winding) {l : ServerStep κ} (hl : s.server.Enabled l)
    (hr : s.Runs l) : (s.exec (.server l)).Winding := by
  obtain ⟨stage, hs⟩ := OwnedServer.exec_server (s := s) (l := l) fun k _ => h.perform_eq k
  obtain ⟨hbase, hworkers⟩ := s.server.members_exec l
  rw [hs]
  refine ⟨h.control.frame hbase hworkers (.refl _) stage, h.housed.exec fun k n rest hrun => ?_,
    h.ending_exec hl hr, fun hdestroying op hop => ?_⟩
  · exact absurd rfl (h.ending.not_submits (m := n) hrun).1
  · rw [show (s.server.exec l).baseLoop = _ from hbase] at hop
    exact h.running hdestroying op (h.mem_running_exec hr hdestroying hop)

/-! ## Steps of the destructor -/

theorem Control.of_running {s' : OwnedServer κ} (h : s'.Control) (hhoused : s'.server.Housed)
    (hending : s'.server.Ending s'.items s'.left)
    (hrun : s'.server.threads.running s'.server.baseLoop = []) : s'.Winding := by
  refine ⟨h, hhoused, hending, fun _ op hop => ?_⟩
  rw [hrun] at hop
  cases hop

omit [DecidableEq κ] in
theorem mem_entries {c : ServedConnection κ} (h : s.server.Accounted)
    (hc : s.server.accepted n = some c) :
    n ∈ s.entries ↔ s.server.connections c.name = some n := by
  simp [entries, hc, (h.name n c hc).1]

/-- The call of the destructor, between two statements of the base loop thread. -/
theorem Waiting.destroy (h : s.Waiting) (hl : s.Enabled (.destroy items)) :
    (s.exec (.destroy items)).Winding := by
  obtain ⟨-, hrun, hperm⟩ := hl
  have hleft : ∀ k, s.left k ≠ true := fun k hk =>
    Bool.false_ne_true ((h.left k).symm.trans hk)
  have hcontrol : (s.exec (.destroy items)).Control :=
    { baseLoop_notMem := h.baseLoop_notMem
      begun := rfl
      quit := fun k hk => absurd ((h.quit k).symm.trans hk) Bool.false_ne_true
      left := fun k hk => absurd hk (hleft k)
      joined := fun k hk => absurd ((h.joined k).symm.trans hk) Bool.false_ne_true
      pool := fun _ => .inr
      mem_workers := fun _ => id
      nodup := hperm.nodup_iff.mpr (List.nodup_range.filter _)
      lateSubmits := h.lateSubmits }
  refine hcontrol.of_running h.housed ⟨h.orderly.accounted, fun n c hc => ?_⟩ hrun
  obtain ⟨p, hp⟩ := h.orderly.phase n c hc
  have hmem : n ∈ items ↔ p.happened < 3 :=
    hperm.mem_iff.trans ((mem_entries h.orderly.accounted hc).trans hp.entry)
  have hgone : s.left c.loop = true → p.ops n = [] := fun hl => absurd hl (hleft c.loop)
  obtain ⟨hsubmit, herase⟩ := notMem_duties_of_idle (n := n) hrun
  cases p with
  | submitting =>
    have hduties := (hp.duties s.server.baseLoop).trans (if_pos rfl)
    exact absurd (hduties ▸ List.mem_singleton_self _) hsubmit
  | establishing => exact .listed (hmem.mpr (by decide)) (.inl rfl) hp
  | up => exact .listed (hmem.mpr (by decide)) (.inr (.inl rfl)) hp
  | closing => exact .listed (hmem.mpr (by decide)) (.inr (.inr (.inl rfl))) hp
  | erasing => exact .listed (hmem.mpr (by decide)) (.inr (.inr (.inr rfl))) hp
  | releasing =>
    have hduties := (hp.duties s.server.baseLoop).trans (if_pos rfl)
    rw [hduties] at herase
    cases List.mem_singleton.mp (herase (List.mem_singleton_self _))
  | destroying => exact .released (mt hmem.mp (by decide)) (.inl rfl) hgone hp
  | destroyed => exact .released (mt hmem.mp (by decide)) (.inr rfl) hgone hp

/-! ### A round of its loop -/

section Round

variable {s : TcpServer κ} {c : ServedConnection κ}

omit [DecidableEq κ] in
theorem concerns_disarm (h : s.Accounted) (hc : s.accepted n = some c) :
    s.Concerns (disarm s n c) n c { c with conn := c.conn.disarm } where
  accepted := hc
  accepted' := Function.update_self ..
  accepted_of_ne m hm := Function.update_of_ne hm ..
  name := rfl
  loop := rfl
  members := ⟨rfl, rfl, rfl, rfl⟩
  duties_of_ne _ _ := rfl
  history_of_ne _ _ := rfl
  connections_of_ne name m hm := by
    by_cases hname : name = c.name
    · subst hname
      exact iff_of_false (by simp [disarm]) fun hentry => hm (h.eq_of_entry hc hentry)
    · simp [disarm, hname]
  connections name hentry := by
    by_cases hname : name = c.name
    · subst hname
      simp [disarm] at hentry
    · simpa [disarm, hname] using hentry
  bound _ _ _ := .inl

/-- The round condemns the connection. -/
theorem awaits_round {p : Phase} (hp : s.InPhase n c p (p.ops n))
    (hstage : p = .up ∨ p = .establishing ∧ c.loop ≠ s.baseLoop) :
    ∃ q : Condemned, ((disarm s n c).runInLoop s.baseLoop c.loop (.connectDestroyed n)).Awaits n
      { c with conn := c.conn.disarm } q (q.ops n) := by
  have hbody : (ServerFunctor.connectDestroyed n).body.filter (ServerOp.duty n) =
      [.connectDestroyed n] := by
    simp [ServerFunctor.body, ServerOp.duty]
  have hentry : (disarm s n c).connections c.name ≠ some n := by simp [disarm]
  obtain rfl | ⟨rfl, hne⟩ := hstage
  · have hnil : ∀ k, duties s.threads n k = [] := fun k => (hp.duties k).trans (ite_self _)
    refine ⟨.doomed, fun k => ?_, hp.history, hentry, rfl⟩
    refine (duties_runInLoop_of_nil hnil s.baseLoop c.loop _ k).trans ?_
    rw [hbody]
    rfl
  · -- behind the `connectEstablished` that is in the queue
    refine ⟨.establishing, fun k => ?_, hp.history, hentry, rfl⟩
    show duties (s.threads.runInLoop _ s.baseLoop c.loop _) n k = _
    rw [Threads.runInLoop, if_neg hne, duties_queueInLoop, hbody]
    by_cases hk : k = c.loop
    · subst hk
      rw [Function.update_self, hp.duties]
      simp [Phase.thread, Phase.ops, Condemned.ops]
    · rw [Function.update_of_ne hk, hp.duties]
      exact (if_neg hk).trans (if_neg hk).symm

/-- A round finds its connection open, or with `connectEstablished` in the queue of a worker. -/
theorem up_or_establishing {left : κ → Bool} (h : s.Fate (n :: items) left n c) (hs : s.Housed)
    (hrun : s.threads.running s.baseLoop = []) (hopen : c.conn.state ≠ .kDisconnected) :
    ∃ p, s.InPhase n c p (p.ops n) ∧ (p = .up ∨ p = .establishing ∧ c.loop ≠ s.baseLoop) := by
  cases h with
  | released hn | condemned hn => exact absurd List.mem_cons_self hn
  | @listed p _ hp h =>
    refine ⟨p, h, ?_⟩
    obtain rfl | rfl | rfl | rfl := hp
    · refine .inr ⟨rfl, fun hloop => ?_⟩
      have hduties : duties s.threads n s.baseLoop = [.connectEstablished n] :=
        (h.duties s.baseLoop).trans (if_pos hloop.symm)
      exact hs.queue n ((mem_queued_of_idle hrun).1 (hduties ▸ List.mem_singleton_self _))
    · exact .inl rfl
    · exact absurd h.state hopen
    · exact absurd h.state hopen

theorem running_round (hrun : s.threads.running s.baseLoop = []) {op : ServerOp}
    (hop : op ∈ ((disarm s n c).runInLoop s.baseLoop c.loop (.connectDestroyed n)).threads.running
      s.baseLoop) : op = .connectDestroyed n := by
  simp only [TcpServer.runInLoop, Threads.runInLoop] at hop
  split at hop
  · simpa [Threads.call, disarm, hrun, ServerFunctor.body] using hop
  · simp [Threads.queueInLoop, disarm, hrun] at hop

end Round

theorem Winding.destroyItem (h : s.Winding) (hitems : s.items = n :: items)
    (hrun : s.server.threads.running s.server.baseLoop = [])
    (hopen : ∀ c, s.server.accepted n = some c → c.conn.state ≠ .kDisconnected) :
    (s.destroyItem n items).Winding := by
  have hne : s.items ≠ [] := by simp [hitems]
  have hsublist : items.Sublist s.items := hitems ▸ List.sublist_cons_self n items
  have hnotMem : n ∉ items := (List.nodup_cons.mp (hitems ▸ h.control.nodup)).1
  have hfate := h.ending.fate
  rw [hitems] at hfate
  unfold OwnedServer.destroyItem
  cases hn : s.server.accepted n with
  | none =>
    refine (h.control.frame rfl rfl hsublist s.stage).of_running h.housed
      ⟨h.ending.accounted, fun m d hd => (hfate m d hd).tail ?_⟩ hrun
    rintro rfl
    cases hn.symm.trans hd
  | some c =>
    have hjoined : s.joined c.loop = false := h.control.joined_eq_false hne c.loop
    simp only [hjoined, Bool.false_eq_true, if_false]
    have hdisarm := concerns_disarm h.ending.accounted hn
    have hconcerns : s.server.Concerns
        ((disarm s.server n c).runInLoop s.server.baseLoop c.loop (.connectDestroyed n)) n c
        { c with conn := c.conn.disarm } :=
      hdisarm.trans (TcpServer.concerns_runInLoop hdisarm.accepted' _ _ rfl
        (by simp [ServerFunctor.body]))
    have hhoused : (disarm s.server n c).Housed := h.housed.of_concerns hdisarm rfl h.housed.queue
    obtain ⟨p, hp, hstage⟩ := up_or_establishing (hfate n c hn) h.housed hrun (hopen c hn)
    obtain ⟨q, hq⟩ := awaits_round hp hstage
    refine ⟨h.control.frame (t := (disarm s.server n c).runInLoop _ _ _) rfl rfl hsublist s.stage,
      hhoused.runInLoop _ _ (.inr (by simp)),
      ⟨h.ending.accounted.of_concerns hconcerns, fun m d hd => ?_⟩,
      fun _ op hop => ⟨n, running_round hrun hop⟩⟩
    by_cases hm : m = n
    · subst hm
      obtain rfl := Option.some.inj (hconcerns.accepted'.symm.trans hd)
      refine .condemned hnotMem (fun hl => ?_) hq
      exact absurd ((h.control.left_eq_false hne _).symm.trans hl) Bool.false_ne_true
    · exact ((hfate m d ((hconcerns.accepted_of_ne m hm).symm.trans hd)).tail hm).of_concerns
        hconcerns hm

/-! ### The pool -/

theorem update_true_iff {f : κ → Bool} {j : κ} :
    Function.update f k true j = true ↔ j = k ∨ f j = true := by
  by_cases hj : j = k
  · simp [hj]
  · simp [hj]

theorem Winding.quitThread {pool : List κ} (h : s.Winding) (hitems : s.items = [])
    (hrun : s.server.threads.running s.server.baseLoop = []) (hpool : s.pool = k :: pool) :
    { s with quit := Function.update s.quit k true }.Winding := by
  refine Control.of_running ⟨h.control.baseLoop_notMem, h.control.begun, fun j hj => ?_,
    fun j hj => ?_, h.control.joined, h.control.pool, h.control.mem_workers, h.control.nodup,
    h.control.lateSubmits⟩ h.housed h.ending hrun
  · obtain rfl | hj := update_true_iff.mp hj
    · exact ⟨h.control.mem_workers j (hpool ▸ List.mem_cons_self), hitems⟩
    · exact h.control.quit j hj
  · exact update_true_iff.mpr (.inr (h.control.left j hj))

theorem Winding.joinThread {pool : List κ} (h : s.Winding) (hleft : s.left k = true)
    (hrun : s.server.threads.running s.server.baseLoop = []) (hpool : s.pool = k :: pool) :
    { s with
      joined := Function.update s.joined k true
      pool := pool }.Winding := by
  refine Control.of_running ⟨h.control.baseLoop_notMem, h.control.begun, h.control.quit,
    h.control.left, fun j hj => ?_, fun j hj => ?_, fun j hj => ?_, h.control.nodup,
    h.control.lateSubmits⟩ h.housed h.ending hrun
  · obtain rfl | hj := update_true_iff.mp hj
    · exact hleft
    · exact h.control.joined j hj
  · obtain hj | hj := h.control.pool j hj
    · exact .inl (update_true_iff.mpr (.inr hj))
    · rw [hpool] at hj
      exact (List.mem_cons.mp hj).imp_left fun hj => update_true_iff.mpr (.inl hj)
  · exact h.control.mem_workers j (hpool ▸ List.mem_cons_of_mem _ hj)

/-- What is left to be done for a connection when the loop of `k` goes with its queue. -/
theorem duties_leave (hrun : s.server.threads.running k = []) (n : ConnId) :
    duties (s.leave k).server.threads n = Function.update (duties s.server.threads n) k [] := by
  funext j
  by_cases hj : j = k
  · subst hj
    simp [duties, Threads.todo, leave, hrun, EventLoop.queued]
  · simp [duties, Threads.todo, leave, hj]

/-- Only a connection that was never established loses what is left of it. -/
theorem fate_leave {c : ServedConnection κ} (hrun : s.server.threads.running k = [])
    (hitems : s.items = [])
    (hdrop : .connectDestroyed n ∈ duties s.server.threads n k →
      .connectEstablished n ∈ duties s.server.threads n k)
    (h : s.server.Fate s.items s.left n c) :
    (s.leave k).server.Fate s.items (s.leave k).left n c := by
  have hleft : ∀ ops : List ServerOp, (s.left c.loop = true → ops = []) → k ≠ c.loop →
      (s.leave k).left c.loop = true → ops = [] := fun ops hops hk hl =>
    hops ((update_true_iff.mp hl).resolve_left hk.symm)
  have hsame : duties s.server.threads n k = [] →
      duties (s.leave k).server.threads n = duties s.server.threads n := fun hnil => by
    rw [duties_leave hrun, ← hnil, Function.update_eq_self]
  cases h with
  | listed hn =>
    rw [hitems] at hn
    cases hn
  | @released p hn hp hgone h =>
    have hduties := h.duties k
    by_cases hk : k = c.loop
    · subst hk
      obtain rfl | rfl := hp
      · rw [hduties.trans (if_pos rfl)] at hdrop
        cases List.mem_singleton.mp (hdrop (List.mem_singleton_self _))
      · exact .released hn (.inr rfl) (fun _ => rfl)
          (h.of_eq rfl (hsame (hduties.trans (ite_self _))) rfl Iff.rfl)
    · have hthread : k ≠ p.thread s.server.baseLoop c.loop := by
        obtain rfl | rfl := hp <;> exact hk
      rw [if_neg hthread] at hduties
      exact .released hn hp (hleft _ hgone hk) (h.of_eq rfl (hsame hduties) rfl Iff.rfl)
  | @condemned q hn hgone h =>
    have hduties := h.duties k
    by_cases hk : k = c.loop
    · subst hk
      cases q with
      | establishing =>
        refine .condemned (q := .dropped) hn (fun _ => rfl) ⟨fun j => ?_, h.history, h.entry,
          h.closeCallback⟩
        rw [duties_leave hrun]
        by_cases hj : j = c.loop
        · rw [hj, Function.update_self]
          exact (ite_self _).symm
        · rw [Function.update_of_ne hj, h.duties j, if_neg hj]
          exact (ite_self _).symm
      | doomed =>
        rw [hduties, if_pos rfl] at hdrop
        cases List.mem_singleton.mp (hdrop (List.mem_singleton_self _))
      | destroyed | dropped =>
        exact .condemned hn (fun _ => rfl)
          (h.of_eq (hsame (hduties.trans (ite_self _))) rfl Iff.rfl)
    · rw [if_neg hk] at hduties
      exact .condemned hn (hleft _ hgone hk) (h.of_eq (hsame hduties) rfl Iff.rfl)

theorem Winding.leave (h : s.Winding) (hquit : s.quit k = true) (hidle : s.server.threads.Idle k)
    (hcareful : s.Careful (.testQuit k)) : (s.leave k).Winding := by
  obtain ⟨hworker, hitems⟩ := h.control.quit k hquit
  have hbase : s.server.baseLoop ≠ k := fun heq => h.control.baseLoop_notMem (heq ▸ hworker)
  have hdrop : ∀ n, .connectDestroyed n ∈ duties s.server.threads n k →
      .connectEstablished n ∈ duties s.server.threads n k := by
    intro n hn
    have hestablish := hcareful hquit _ ((mem_queued_of_idle hidle.1).2 hn) rfl
    exact mem_duties_of_queued hestablish List.mem_cons_self (by simp [ServerOp.duty])
  refine ⟨⟨h.control.baseLoop_notMem, h.control.begun, h.control.quit, fun j hj => ?_,
    fun j hj => update_true_iff.mpr (.inr (h.control.joined j hj)), h.control.pool,
    h.control.mem_workers, h.control.nodup, h.control.lateSubmits⟩,
    h.housed.withThreads fun cb hcb => .inl ?_, ⟨⟨fun n hn => ?_, h.ending.accounted.name,
    h.ending.accounted.entry, fun j n f hmem => ?_, h.ending.accounted.nextConnId⟩,
    fun n c hc => fate_leave hidle.1 hitems (hdrop n) (h.ending.fate n c hc)⟩, h.running⟩
  · obtain rfl | hj := update_true_iff.mp hj
    · exact hquit
    · exact h.control.left j hj
  · simpa only [Function.update_of_ne hbase] using hcb
  · obtain ⟨hhistory, hnil⟩ := h.ending.accounted.absent n hn
    refine ⟨hhistory, fun j => ?_⟩
    rw [duties_leave hidle.1]
    by_cases hj : j = k
    · rw [hj, Function.update_self]
    · rw [Function.update_of_ne hj, hnil j]
  · refine h.ending.accounted.bound j n f ?_
    by_cases hj : j = k
    · subst hj
      simp [Threads.todo, OwnedServer.leave, hidle.1, EventLoop.queued] at hmem
    · simpa [Threads.todo, OwnedServer.leave, hj] using hmem

/-! ## Runs -/

theorem Started.waiting (h : s.Started) : s.Waiting where
  orderly := h.fresh.orderly
  housed :=
    { loop := fun n c hc => by
        rw [h.fresh.accepted n] at hc
        cases hc
      queue := fun n hn => by
        rw [h.fresh.queued] at hn
        cases hn }
  baseLoop_notMem := h.baseLoop_notMem
  quit := h.quit
  left := h.left
  joined := h.joined
  begun := h.begun
  items := h.items
  pool := h.pool
  lateSubmits := h.lateSubmits

theorem Waiting.exec (h : s.Waiting) {l : DestructorStep κ} (hl : s.Enabled l) :
    (s.exec l).Waiting ∨ (s.exec l).Winding := by
  cases l with
  | server l => exact .inl (h.exec_server hl.1)
  | testQuit k =>
    refine .inl ?_
    rw [OwnedServer.exec, if_neg (by rw [h.quit k]; exact Bool.false_ne_true)]
    exact ⟨h.orderly, h.housed, h.baseLoop_notMem, h.quit, h.left, h.joined, h.begun, h.items,
      h.pool, h.lateSubmits⟩
  | endBatch k =>
    exact .inl ⟨h.orderly, h.housed, h.baseLoop_notMem, h.quit, h.left, h.joined, h.begun, h.items,
      h.pool, h.lateSubmits⟩
  | destroy items => exact .inr (h.destroy hl)
  | destroyItem => exact absurd h.items hl.1
  | quitThread | joinThread =>
    obtain ⟨-, -, k, hk, -⟩ := hl
    rw [h.pool] at hk
    cases hk

theorem Winding.exec (h : s.Winding) {l : DestructorStep κ} (hcareful : s.Careful l)
    (hl : s.Enabled l) : (s.exec l).Winding := by
  have hstage : ∀ stage, { s with stage := stage }.Winding := fun stage =>
    ⟨h.control.frame rfl rfl (.refl _) stage, h.housed, h.ending, h.running⟩
  cases l with
  | server l => exact h.exec_server hl.1 hl.2
  | testQuit k =>
    rw [OwnedServer.exec]
    split
    · next hquit => exact h.leave hquit hl.2.2 hcareful
    · exact hstage _
  | endBatch k => exact hstage _
  | destroy items => exact absurd (hl.1.symm.trans h.control.begun) Bool.false_ne_true
  | destroyItem =>
    cases hitems : s.items with
    | nil => exact absurd hitems hl.1
    | cons n items =>
      rw [OwnedServer.exec, hitems]
      exact h.destroyItem hitems hl.2 (hcareful n (by rw [hitems]; rfl))
  | quitThread =>
    obtain ⟨hitems, hrun, k, hk, -⟩ := hl
    cases hpool : s.pool with
    | nil =>
      rw [hpool] at hk
      cases hk
    | cons first pool =>
      have hexec : s.exec .quitThread = { s with quit := Function.update s.quit first true } := by
        simp only [OwnedServer.exec, hpool]
      rw [hexec]
      exact h.quitThread hitems hrun hpool
  | joinThread =>
    obtain ⟨hitems, hrun, k, hk, -, hleft⟩ := hl
    cases hpool : s.pool with
    | nil =>
      rw [hpool] at hk
      cases hk
    | cons first pool =>
      rw [hpool] at hk
      obtain rfl : first = k := Option.some.inj hk
      rw [OwnedServer.exec, hpool]
      exact h.joinThread hleft hrun hpool

theorem destroyed_inPhase {p : Phase} {c : ServedConnection κ}
    (h : s.server.InPhase n c p (p.ops n)) :
    s.destroyed n = if p = .destroyed then 1 else 0 := by
  rw [destroyed, h.history]
  cases p <;> simp [life, Phase.happened]

theorem destroyed_awaits {q : Condemned} {c : ServedConnection κ} {ops : List ServerOp}
    (h : s.server.Awaits n c q ops) : s.destroyed n = if q = .destroyed then 1 else 0 := by
  rw [destroyed, h.history]
  cases q <;> simp [Condemned.past]

theorem waiting_or_winding {s₀ : OwnedServer κ} (h₀ : s₀.Started) {ls : List (DestructorStep κ)}
    (hrun : Run (fun s l t => (s.Enabled l ∧ s.Careful l) ∧ t = s.exec l) s₀ ls s) :
    s.Waiting ∨ s.Winding := by
  refine hrun.invariant (P := fun s => s.Waiting ∨ s.Winding) (.inl h₀.waiting) ?_
  rintro t l _ ht ⟨⟨hl, hcareful⟩, rfl⟩
  obtain ht | ht := ht
  · exact ht.exec hl
  · exact .inr (ht.exec hcareful hl)

/-- When all is over, nothing is left for a connection on any loop. -/
theorem Winding.duties_eq_nil {ops : List ServerOp} {c : ServedConnection κ} (h : s.Winding)
    (hover : s.Over) (hc : s.server.accepted n = some c) (hleft : s.left c.loop = true → ops = [])
    (hduties : duties s.server.threads n c.loop = ops) : ops = [] := by
  obtain ⟨-, hdestroying, htodo⟩ := hover
  obtain hloop | hloop := h.housed.loop n c hc
  · rw [← hduties, hloop, duties, htodo, List.filter_nil]
  · obtain hjoined | hpool := h.control.pool c.loop hloop
    · exact hleft (h.control.joined c.loop hjoined)
    · exact absurd (.inr (List.ne_nil_of_mem hpool)) hdestroying

theorem Winding.destroyed_once {c : ServedConnection κ} (h : s.Winding)
    (hc : s.server.accepted n = some c) :
    s.destroyed n ≤ 1 ∧ (s.Over → s.server.Ran n .connectEstablished → s.destroyed n = 1) := by
  cases h.ending.fate n c hc with
  | @listed p hn hp hphase =>
    rw [destroyed_inPhase hphase]
    refine ⟨by split <;> decide, fun hover _ => ?_⟩
    exact absurd (.inl (List.ne_nil_of_mem hn)) hover.2.1
  | @released p _ hp hleft hphase =>
    rw [destroyed_inPhase hphase]
    refine ⟨by split <;> decide, fun hover _ => ?_⟩
    obtain rfl | rfl := hp
    · cases h.duties_eq_nil hover hc hleft ((hphase.duties c.loop).trans (if_pos rfl))
    · exact if_pos rfl
  | @condemned q _ hleft hawaits =>
    rw [destroyed_awaits hawaits]
    refine ⟨by split <;> decide, fun hover hran => ?_⟩
    have hnil := h.duties_eq_nil hover hc hleft ((hawaits.duties c.loop).trans (if_pos rfl))
    cases q with
    | establishing | doomed => cases hnil
    | destroyed => exact if_pos rfl
    | dropped =>
      rw [TcpServer.ran_iff, hawaits.history] at hran
      cases hran

/-- A server with one worker. -/
def oneWorker : OwnedServer ℕ where
  server :=
    { baseLoop := 0
      workers := [1]
      listenAddr := ⟨(127, 0, 0, 1), 8080⟩
      name := "server" }

theorem started_oneWorker : oneWorker.Started :=
  ⟨⟨rfl, fun _ => rfl, fun _ => rfl, fun _ => rfl, fun _ => rfl, rfl⟩, by decide, fun _ => rfl,
    fun _ => rfl, fun _ => rfl, rfl, rfl, rfl, rfl⟩

/-- A connection is established on the worker, which goes on to poll, and then `ls` follow. -/
def establish (ls : List (DestructorStep ℕ)) : List (DestructorStep ℕ) :=
  [.testQuit 0, .server .newConnection, .server (.perform 0),
    .testQuit 1, .server (.swapFunctors 1), .server (.nextFunctor 1), .server (.perform 1),
    .endBatch 1, .testQuit 1] ++ ls

end OwnedServer

end AegisNet
