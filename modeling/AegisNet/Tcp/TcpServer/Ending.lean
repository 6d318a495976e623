import AegisNet.Tcp.TcpServer.Condemned

/-!
# The loops while the server ends

From the call of the destructor on, a connection is in the map and on its way to the close, or it
has been erased, or the destructor has been at it. Each statement of a thread finds one of the
three, and no thread does again what another has done.

## Main definitions

- `TcpServer.Housed` — where connections are, and what is not passed to the base loop
- `TcpServer.Fate` — how far a connection is, with the rounds `items` that are left
- `TcpServer.Ending` — the invariant of the loops from the call of the destructor on
-/

namespace AegisNet

/-- In the map, and passed to its loop. -/
def Phase.Listed (p : Phase) : Prop :=
  p = .establishing ∨ p = .up ∨ p = .closing ∨ p = .erasing

/-- No longer in the map, and passed to its loop again. -/
def Phase.Released (p : Phase) : Prop := p = .destroying ∨ p = .destroyed

namespace TcpServer

variable {κ : Type*} [DecidableEq κ] {s t : TcpServer κ} {m n : ConnId} {c : ServedConnection κ}
  {j k : κ} {op : ServerOp} {rest : List ServerOp}

/-! ## Where connections are -/

/-- Connections are on the loops of the server; and the base loop runs the `connectEstablished` of
    its own ones at once. -/
structure Housed (s : TcpServer κ) : Prop where
  loop : ∀ n c, s.accepted n = some c → c.loop = s.baseLoop ∨ c.loop ∈ s.workers
  queue : ∀ n, .connectEstablished n ∉ (s.threads.loops s.baseLoop).queued

omit [DecidableEq κ] in
theorem Housed.withThreads (h : s.Housed) {x : Threads κ ServerFunctor ServerOp}
    (hx : ∀ cb ∈ (x.loops s.baseLoop).queued,
      cb ∈ (s.threads.loops s.baseLoop).queued ∨ ∀ n, cb ≠ .connectEstablished n) :
    { s with threads := x }.Housed where
  loop := h.loop
  queue n hn := by
    obtain hn | hn := hx _ hn
    · exact h.queue n hn
    · exact hn n rfl

omit [DecidableEq κ] in
theorem Housed.of_concerns {c' : ServedConnection κ} (h : s.Housed) (hc : s.Concerns t m c c')
    (hworkers : t.workers = s.workers)
    (hqueue : ∀ n, .connectEstablished n ∉ (t.threads.loops s.baseLoop).queued) : t.Housed where
  loop n d hd := by
    rw [hc.members.1, hworkers]
    by_cases hn : n = m
    · subst hn
      obtain rfl := Option.some.inj (hc.accepted'.symm.trans hd)
      rw [hc.loop]
      exact h.loop n c hc.accepted
    · exact h.loop n d ((hc.accepted_of_ne n hn).symm.trans hd)
  queue := by
    rw [hc.members.1]
    exact hqueue

theorem Housed.update (h : s.Housed) (hm : s.accepted m = some c) (k : κ) (conn : TcpConnection) :
    (s.update k m c conn).Housed := by
  refine h.of_concerns (concerns_update hm k conn) rfl fun n hn => ?_
  obtain hn | ⟨f, hf⟩ := mem_queued_update hn
  · exact h.queue n hn
  · cases hf

omit [DecidableEq κ] in
theorem Housed.record (h : s.Housed) (n : ConnId) (k : κ) (e : LifeEvent) :
    (s.record n k e).Housed :=
  ⟨h.loop, h.queue⟩

theorem Housed.onConnection (h : s.Housed) (k : κ) (n : ConnId)
    (f : TcpConnection → TcpConnection) : (s.onConnection k n f).Housed := by
  unfold TcpServer.onConnection
  split
  · exact h
  · next c hc => exact h.update hc k (f c.conn)

theorem Housed.runInLoop (h : s.Housed) (k loop : κ) {cb : ServerFunctor}
    (hcb : k = s.baseLoop ∨ ∀ n, cb ≠ .connectEstablished n) : (s.runInLoop k loop cb).Housed := by
  refine h.withThreads fun f hf => ?_
  obtain hf | ⟨rfl, hloop, hne⟩ := Threads.mem_queued_runInLoop hf
  · exact .inl hf
  · exact .inr (hcb.resolve_left fun hk => hne (hloop.symm.trans hk.symm))

theorem Housed.execOp (h : s.Housed) (hop : ∀ n, op = .submitEstablished n → k = s.baseLoop) :
    (s.execOp k op).Housed := by
  cases op with
  | submitEstablished n =>
    simp only [TcpServer.execOp]
    split
    · exact h
    · exact h.runInLoop _ _ (.inl (hop n rfl))
  | connectEstablished n =>
    exact (h.record n k .connectEstablished).onConnection k n TcpConnection.connectEstablished
  | connectDestroyed n =>
    exact (h.record n k .connectDestroyed).onConnection k n TcpConnection.connectDestroyed
  | submitClosed n => exact h.runInLoop _ _ (.inr (by simp))
  | erase n =>
    simp only [TcpServer.execOp]
    split
    · exact h
    · exact ⟨h.loop, h.queue⟩
  | queueDestroyed n =>
    simp only [TcpServer.execOp]
    split
    · exact h
    · refine h.withThreads fun f hf => (Threads.mem_queued_queueInLoop hf).imp_right ?_
      rintro ⟨rfl, -⟩ n
      simp
  | runBound n f => exact h.onConnection k n fun c => c.runFunctor f

theorem Housed.perform (h : s.Housed)
    (hop : ∀ n rest, s.threads.running k = .submitEstablished n :: rest → k = s.baseLoop) :
    (s.perform k).Housed := by
  unfold TcpServer.perform
  split
  · exact h
  · next op rest hrun =>
    have hadvance : (s.advance k rest).Housed := ⟨h.loop, h.queue⟩
    refine hadvance.execOp fun n hn => ?_
    subst hn
    exact hop n rest hrun

theorem Housed.newConnection (h : s.Housed) : s.newConnection.Housed where
  loop n c hc := by
    by_cases hn : n = s.nextConnId
    · subst hn
      obtain rfl := Option.some.inj (s.accepted_newConnection.symm.trans hc)
      show s.getNextLoop.1 = s.baseLoop ∨ s.getNextLoop.1 ∈ s.workers
      unfold getNextLoop
      split
      · exact .inl rfl
      · rw [List.getD_eq_getElem?_getD]
        cases hget : s.workers[s.next]? with
        | none => exact .inl rfl
        | some k => exact .inr (List.mem_of_getElem? hget)
    · exact h.loop n c ((accepted_newConnection_of_ne hn).symm.trans hc)
  queue := h.queue

theorem Housed.exec (h : s.Housed) {l : ServerStep κ}
    (hop : ∀ k n rest, s.threads.running k = .submitEstablished n :: rest → k = s.baseLoop) :
    (s.exec l).Housed := by
  cases l with
  | newConnection => exact h.newConnection
  | handleEvent n _ _ _ _ _ | call n _ =>
    simp only [TcpServer.exec, onOwnLoop]
    split
    · exact h
    · exact h.onConnection _ _ _
  | swapFunctors k => exact h.withThreads fun _ hcb => .inl (Threads.mem_queued_swapFunctors hcb)
  | nextFunctor k => exact h.withThreads fun _ hcb => .inl (Threads.mem_queued_nextFunctor hcb)
  | perform k => exact h.perform (hop k)

/-! ## What does not change -/

theorem members_onConnection (k : κ) (n : ConnId) (f : TcpConnection → TcpConnection) :
    (s.onConnection k n f).baseLoop = s.baseLoop ∧ (s.onConnection k n f).workers = s.workers := by
  unfold TcpServer.onConnection
  split <;> exact ⟨rfl, rfl⟩

theorem members_exec (l : ServerStep κ) :
    (s.exec l).baseLoop = s.baseLoop ∧ (s.exec l).workers = s.workers := by
  cases l with
  | newConnection | swapFunctors k | nextFunctor k => exact ⟨rfl, rfl⟩
  | handleEvent n _ _ _ _ _ | call n _ =>
    simp only [TcpServer.exec, onOwnLoop]
    split
    · exact ⟨rfl, rfl⟩
    · exact members_onConnection _ _ _
  | perform k =>
    simp only [TcpServer.exec, TcpServer.perform]
    split
    · exact ⟨rfl, rfl⟩
    · next op rest _ =>
      cases op with
      | submitClosed n => exact ⟨rfl, rfl⟩
      | submitEstablished n | erase n | queueDestroyed n =>
        simp only [TcpServer.execOp]
        split <;> exact ⟨rfl, rfl⟩
      | connectEstablished n =>
        exact members_onConnection (s := (s.advance k rest).record n k .connectEstablished) k n _
      | connectDestroyed n =>
        exact members_onConnection (s := (s.advance k rest).record n k .connectDestroyed) k n _
      | runBound n f => exact members_onConnection (s := s.advance k rest) k n _

theorem running_update_of_ne (hj : j ≠ k) (conn : TcpConnection) :
    (s.update k m c conn).threads.running j = s.threads.running j := by
  simp only [TcpServer.update, Threads.call, Function.update_of_ne hj,
    Threads.running_foldl_queueInLoop]

theorem running_onConnection_of_ne (hj : j ≠ k) (f : TcpConnection → TcpConnection) :
    (s.onConnection k n f).threads.running j = s.threads.running j := by
  unfold TcpServer.onConnection
  split
  · rfl
  · exact running_update_of_ne hj _

theorem running_onOwnLoop_of_ne (hc : s.accepted n = some c) (hj : j ≠ c.loop)
    (f : TcpConnection → TcpConnection) :
    (s.onOwnLoop n f).threads.running j = s.threads.running j := by
  rw [onOwnLoop_eq hc]
  exact running_onConnection_of_ne hj f

theorem running_runInLoop_of_ne (hj : j ≠ k) (loop : κ) (cb : ServerFunctor) :
    (s.runInLoop k loop cb).threads.running j = s.threads.running j := by
  unfold TcpServer.runInLoop Threads.runInLoop
  split
  · exact Function.update_of_ne hj _ _
  · rfl

theorem running_perform_of_ne (hj : j ≠ k) :
    (s.perform k).threads.running j = s.threads.running j := by
  unfold TcpServer.perform
  split
  · rfl
  · next op rest hrun =>
    have hadvance : (s.advance k rest).threads.running j = s.threads.running j :=
      Function.update_of_ne hj _ _
    refine Eq.trans ?_ hadvance
    cases op with
    | submitEstablished n =>
      simp only [TcpServer.execOp]
      split
      · rfl
      · exact running_runInLoop_of_ne hj _ _
    | connectEstablished n | connectDestroyed n | runBound n f =>
      exact running_onConnection_of_ne hj _
    | submitClosed n => exact running_runInLoop_of_ne hj _ _
    | erase n | queueDestroyed n =>
      simp only [TcpServer.execOp]
      split <;> rfl

/-- `connectDestroyed` calls nothing that is left to be run. -/
theorem running_connectDestroyed (hrun : s.threads.running k = .connectDestroyed n :: rest) :
    (s.perform k).threads.running k = rest := by
  have hadvance : (s.advance k rest).threads.running k = rest := Function.update_self ..
  rw [TcpServer.perform, hrun]
  show (TcpServer.onConnection _ k n _).threads.running k = rest
  cases hc : s.accepted n with
  | none =>
    have hnone : ((s.advance k rest).record n k .connectDestroyed).accepted n = none := hc
    rwa [TcpServer.onConnection, hnone]
  | some c =>
    have hsome : ((s.advance k rest).record n k .connectDestroyed).accepted n = some c := hc
    rw [onConnection_eq hsome, TcpServer.update, TcpConnection.closes_connectDestroyed,
      Nat.sub_self]
    simp only [Threads.call, Function.update_self, List.replicate_zero, List.nil_append,
      Threads.running_foldl_queueInLoop]
    exact hadvance

/-! ## How far a connection is -/

/-- Connection `n` when the destructor has the rounds `items` left and the loops `left` are gone. On
    a loop that is gone nothing is left to be done. -/
inductive Fate (s : TcpServer κ) (items : List ConnId) (left : κ → Bool) (n : ConnId)
    (c : ServedConnection κ) : Prop
  | listed {p : Phase} (hn : n ∈ items) (hp : p.Listed) (h : s.InPhase n c p (p.ops n))
  | released {p : Phase} (hn : n ∉ items) (hp : p.Released)
      (hleft : left c.loop = true → p.ops n = []) (h : s.InPhase n c p (p.ops n))
  | condemned {q : Condemned} (hn : n ∉ items) (hleft : left c.loop = true → q.ops n = [])
      (h : s.Awaits n c q (q.ops n))

structure Ending (s : TcpServer κ) (items : List ConnId) (left : κ → Bool) : Prop where
  accounted : s.Accounted
  fate : ∀ n c, s.accepted n = some c → s.Fate items left n c

variable {items : List ConnId} {left : κ → Bool}

theorem Fate.of_eq (h : s.Fate items left n c) (hbase : t.baseLoop = s.baseLoop)
    (hduties : duties t.threads n = duties s.threads n) (hhistory : t.history n = s.history n)
    (hentry : t.connections c.name = some n ↔ s.connections c.name = some n) :
    t.Fate items left n c := by
  cases h with
  | listed hn hp h => exact .listed hn hp (h.of_eq hbase hduties hhistory hentry)
  | released hn hp hleft h => exact .released hn hp hleft (h.of_eq hbase hduties hhistory hentry)
  | condemned hn hleft h => exact .condemned hn hleft (h.of_eq hduties hhistory hentry)

theorem Fate.of_concerns {c' d : ServedConnection κ} (h : s.Fate items left n d)
    (hc : s.Concerns t m c c') (hn : n ≠ m) : t.Fate items left n d :=
  h.of_eq hc.members.1 (hc.duties_of_ne n hn) (hc.history_of_ne n hn)
    (hc.connections_of_ne d.name n hn)

/-- A round for another connection. -/
theorem Fate.tail (h : s.Fate (m :: items) left n c) (hn : n ≠ m) : s.Fate items left n c := by
  have hmem : n ∈ m :: items ↔ n ∈ items := List.mem_cons.trans (or_iff_right hn)
  cases h with
  | listed hn hp h => exact .listed (hmem.mp hn) hp h
  | released hn hp hleft h => exact .released (mt hmem.mpr hn) hp hleft h
  | condemned hn hleft h => exact .condemned (mt hmem.mpr hn) hleft h

/-- Only the fate of that connection is to be looked at. -/
theorem Ending.of_concerns {c' : ServedConnection κ} (h : s.Ending items left)
    (hc : s.Concerns t m c c') (hfate : t.Fate items left m c') : t.Ending items left := by
  refine ⟨h.accounted.of_concerns hc, fun n d hd => ?_⟩
  by_cases hn : n = m
  · subst hn
    obtain rfl := Option.some.inj (hc.accepted'.symm.trans hd)
    exact hfate
  · exact (h.fate n d ((hc.accepted_of_ne n hn).symm.trans hd)).of_concerns hc hn

/-- Taking functors from the queue changes nothing. -/
theorem Ending.of_todo (h : s.Ending items left) {x : Threads κ ServerFunctor ServerOp}
    (hx : x.todo ServerFunctor.body = s.threads.todo ServerFunctor.body) :
    { s with threads := x }.Ending items left :=
  ⟨h.accounted.of_todo hx, fun n c hc =>
    (h.fate n c hc).of_eq rfl (duties_of_todo hx n) rfl Iff.rfl⟩

/-! ## Methods -/

/-- Step lemma for the methods. -/
theorem Fate.update (h : s.Fate items left m c) {conn : TcpConnection}
    (hleft : left c.loop = false) (hmoves : ∀ p, s.InPhase m c p (p.ops m) → c.conn.Moves conn)
    (hmuted : c.conn.Muted conn) :
    (s.update c.loop m c conn).Fate items left m { c with conn := { conn with loop := {} } } := by
  have hgone : ∀ ops : List ServerOp, left c.loop = true → ops = [] := fun _ hl =>
    absurd (hleft.symm.trans hl) Bool.false_ne_true
  cases h with
  | @listed p hn hp h =>
    obtain ⟨p', hp', h'⟩ := h.update (hmoves p h)
    refine .listed hn ?_ h'
    obtain rfl | ⟨-, rfl⟩ := hp'
    · exact hp
    · exact .inr (.inr (.inl rfl))
  | @released p hn hp _ h =>
    obtain ⟨p', hp', h'⟩ := h.update (hmoves p h)
    refine .released hn ?_ (hgone _) h'
    obtain rfl | ⟨rfl, -⟩ := hp'
    · exact hp
    · obtain hp | hp := hp <;> cases hp
  | condemned hn _ h => exact .condemned hn (hgone _) (h.update hmuted c.loop)

theorem Ending.onOwnLoop (h : s.Ending items left) {f : TcpConnection → TcpConnection}
    (hleft : ∀ c, s.accepted m = some c → left c.loop = false)
    (hmoves : ∀ c p, s.accepted m = some c → s.InPhase m c p (p.ops m) → c.conn.Moves (f c.conn))
    (hmuted : ∀ conn : TcpConnection, conn.Muted (f conn)) :
    (s.onOwnLoop m f).Ending items left := by
  cases hm : s.accepted m with
  | none => rwa [TcpServer.onOwnLoop, hm]
  | some c =>
    rw [onOwnLoop_eq hm, onConnection_eq hm]
    exact h.of_concerns (concerns_update hm c.loop _)
      ((h.fate m c hm).update (hleft c hm) (fun p => hmoves c p hm) (hmuted c.conn))

theorem Ending.runBound (h : s.Ending items left) {f : Functor}
    (hrun : s.threads.running k = .runBound m f :: rest) (hleft : left k = false) :
    ((s.advance k rest).onConnection k m fun c => c.runFunctor f).Ending items left := by
  have hmem : ServerOp.runBound m f ∈ s.threads.todo ServerFunctor.body k := by
    rw [Threads.todo_advance hrun]
    exact List.mem_cons_self
  obtain ⟨c, hm, rfl⟩ := h.accounted.bound k m f hmem
  have hconcerns := concerns_advance hm hrun fun _ _ => rfl
  have hduties : duties (s.advance c.loop rest).threads m = duties s.threads m := by
    funext j
    by_cases hj : j = c.loop
    · rw [hj, duties_advance hrun]
      rfl
    · exact duties_advance_of_ne hj rest
  have hadvance : (s.advance c.loop rest).Ending items left :=
    h.of_concerns hconcerns ((h.fate m c hm).of_eq rfl hduties rfl Iff.rfl)
  have hown := hadvance.onOwnLoop (m := m) (f := fun c => c.runFunctor f) ?_
    (fun _ _ _ hp => TcpConnection.moves_runFunctor hp.closeCallback f)
    fun conn => TcpConnection.muted_runFunctor conn f
  · rwa [onOwnLoop_eq (show (s.advance c.loop rest).accepted m = some c from hm)] at hown
  · intro d hd
    obtain rfl : c = d := Option.some.inj (hm.symm.trans hd)
    exact hleft

/-! ## Statements -/

/-- A statement that moves connection `m` on finds it where it belongs. -/
theorem Ending.next (h : s.Ending items left) (hrun : s.threads.running k = op :: rest)
    (hop : ∀ n, op.duty n = decide (m = n)) :
    ∃ c, s.accepted m = some c ∧ s.Concerns (s.advance k rest) m c c ∧
      ((m ∈ items ∧ op.phase.1.Listed ∨ m ∉ items ∧ op.phase.1.Released) ∧
          k = op.phase.1.thread s.baseLoop c.loop ∧
          (s.advance k rest).InPhase m c op.phase.1 op.phase.2 ∨
        m ∉ items ∧ k = c.loop ∧ ∃ q : Condemned, ∃ ops, q.ops m = op :: ops ∧
          (s.advance k rest).Awaits m c q ops) := by
  cases hm : s.accepted m with
  | none =>
    have hduties := duties_advance (n := m) hrun
    rw [hop, if_pos (by simp), (h.accounted.absent m hm).2 k] at hduties
    cases hduties
  | some c =>
    refine ⟨c, rfl, ?_⟩
    cases h.fate m c hm with
    | listed hn hp h =>
      obtain ⟨rfl, hk, hnext, hconcerns⟩ := h.next hm hrun hop
      exact ⟨hconcerns, .inl ⟨.inl ⟨hn, hp⟩, hk, hnext⟩⟩
    | released hn hp _ h =>
      obtain ⟨rfl, hk, hnext, hconcerns⟩ := h.next hm hrun hop
      exact ⟨hconcerns, .inl ⟨.inr ⟨hn, hp⟩, hk, hnext⟩⟩
    | @condemned q hn _ h =>
      obtain ⟨hk, ops, hops, hnext, hconcerns⟩ := h.next hm hrun hop
      exact ⟨hconcerns, .inr ⟨hn, hk, q, ops, hops, hnext⟩⟩

/-- What a thread passes to the loop of a connection is long done. -/
theorem Ending.not_submits (h : s.Ending items left) (hrun : s.threads.running k = op :: rest) :
    op ≠ .submitEstablished m ∧ op ≠ .queueDestroyed m := by
  constructor
  all_goals
    rintro rfl
    obtain ⟨c, -, -, ⟨⟨-, hp⟩ | ⟨-, hp⟩, -⟩ | ⟨-, -, q, ops, hops, -⟩⟩ :=
      h.next (m := m) hrun fun _ => rfl
    · simp [Phase.Listed, ServerOp.phase] at hp
    · simp [Phase.Released, ServerOp.phase] at hp
    · cases q <;> cases hops

/-- With rounds of the destructor left, the base loop erases nothing; without, there is nothing in
    the map. -/
theorem Ending.not_erase (h : s.Ending items left)
    (hbase : items ≠ [] → ∀ op ∈ s.threads.running s.baseLoop, ∃ n, op = .connectDestroyed n)
    (hrun : s.threads.running k = op :: rest) : op ≠ .erase m := by
  rintro rfl
  obtain ⟨c, -, -, ⟨⟨hm, -⟩ | ⟨-, hp⟩, hk, -⟩ | ⟨-, -, q, ops, hops, -⟩⟩ :=
    h.next (m := m) hrun fun _ => rfl
  · obtain rfl : k = s.baseLoop := hk
    obtain ⟨n, hn⟩ := hbase (List.ne_nil_of_mem hm) (.erase m) (hrun ▸ List.mem_cons_self)
    cases hn
  · simp [Phase.Released, ServerOp.phase] at hp
  · cases q <;> cases hops

theorem Ending.connectEstablished (h : s.Ending items left)
    (hrun : s.threads.running k = .connectEstablished m :: rest) (hleft : left k = false) :
    ((s.advance k rest).execOp k (.connectEstablished m)).Ending items left := by
  obtain ⟨c, hm, hc, ⟨hstage, hk, hp⟩ | ⟨hm', hk, q, ops, hops, ha⟩⟩ :=
    h.next (m := m) hrun fun _ => rfl
  all_goals
    obtain rfl : k = c.loop := hk
    have hrecord := concerns_record hc.accepted' c.loop .connectEstablished
    rw [TcpServer.execOp, onConnection_eq hrecord.accepted']
    refine h.of_concerns (hc.trans (hrecord.trans (concerns_update hrecord.accepted' c.loop _))) ?_
  · obtain ⟨hm', -⟩ | ⟨-, hp'⟩ := hstage
    · exact .listed hm' (.inr (.inl rfl)) hp.connectEstablished
    · simp [Phase.Released, ServerOp.phase] at hp'
  · have hmuted : c.conn.Muted c.conn.connectEstablished := fun hcb =>
      ⟨hcb, closes_connectEstablished c.conn⟩
    cases q <;> cases hops
    exact .condemned (q := .doomed) hm' (fun hl => absurd (hleft.symm.trans hl) Bool.false_ne_true)
      (ha.event hmuted rfl)

theorem Ending.connectDestroyed (h : s.Ending items left)
    (hrun : s.threads.running k = .connectDestroyed m :: rest) :
    ((s.advance k rest).execOp k (.connectDestroyed m)).Ending items left := by
  obtain ⟨c, hm, hc, ⟨hstage, hk, hp⟩ | ⟨hm', hk, q, ops, hops, ha⟩⟩ :=
    h.next (m := m) hrun fun _ => rfl
  all_goals
    obtain rfl : k = c.loop := hk
    have hrecord := concerns_record hc.accepted' c.loop .connectDestroyed
    rw [TcpServer.execOp, onConnection_eq hrecord.accepted']
    refine h.of_concerns (hc.trans (hrecord.trans (concerns_update hrecord.accepted' c.loop _))) ?_
  · obtain ⟨-, hp'⟩ | ⟨hm', -⟩ := hstage
    · simp [Phase.Listed, ServerOp.phase] at hp'
    · exact .released hm' (.inr rfl) (fun _ => rfl) hp.connectDestroyed
  · cases q <;> cases hops
    exact .condemned (q := .destroyed) hm' (fun _ => rfl)
      (ha.event (TcpConnection.muted_connectDestroyed c.conn) rfl)

theorem Ending.submitClosed (h : s.Ending items left)
    (hrun : s.threads.running k = .submitClosed m :: rest) :
    ((s.advance k rest).execOp k (.submitClosed m)).Ending items left := by
  obtain ⟨c, hm, hc, ⟨hstage, hk, hp⟩ | ⟨-, -, q, ops, hops, -⟩⟩ :=
    h.next (m := m) hrun fun _ => rfl
  · refine h.of_concerns (hc.trans (concerns_runInLoop hc.accepted' _ _ rfl
      (by simp [ServerFunctor.body]))) ?_
    obtain ⟨hm', -⟩ | ⟨-, hp'⟩ := hstage
    · exact .listed hm' (.inr (.inr (.inr rfl))) hp.submitClosed
    · simp [Phase.Released, ServerOp.phase] at hp'
  · cases q <;> cases hops

/-- Step lemma for the statements. -/
theorem Ending.perform (h : s.Ending items left) (hleft : left k = false)
    (hbase : items ≠ [] → ∀ op ∈ s.threads.running s.baseLoop, ∃ n, op = .connectDestroyed n) :
    (s.perform k).Ending items left := by
  unfold TcpServer.perform
  split
  · exact h
  · next op rest hrun =>
    cases op with
    | submitEstablished n => exact absurd rfl (h.not_submits (m := n) hrun).1
    | connectEstablished n => exact h.connectEstablished hrun hleft
    | submitClosed n => exact h.submitClosed hrun
    | erase n => exact absurd rfl (h.not_erase (m := n) hbase hrun)
    | queueDestroyed n => exact absurd rfl (h.not_submits (m := n) hrun).2
    | connectDestroyed n => exact h.connectDestroyed hrun
    | runBound n f => exact h.runBound hrun hleft

end TcpServer

end AegisNet
