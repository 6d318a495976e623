import AegisNet.WebChatServer.Broadcast

/-!
# The delivery of broadcasts

The first block of `onConnection` and `broadcast` exclude each other by `mutex_`. So a connection is
in `connections_` for the whole of a broadcast or for none of it, and exactly the broadcasts that
took the mutex after it was put there come to its `sendInLoop`, each of them once.

## Main definitions

- `BroadcastSystem.submitted` — the broadcasts on their way to a connection, and those that came
- `BroadcastSystem.Owed` — the connection has all broadcasts since it came online

## Main results

- `BroadcastSystem.broadcasts_delivered_once` — no broadcast is left out, repeated or sent too early
-/

namespace AegisNet

namespace BroadcastSystem

variable {κ ι : Type*} [DecidableEq κ] [LinearOrder ι]

/-- The broadcast under way, if it has still to send to `x`. -/
def awaiting (S : BroadcastSystem κ ι) (x : ι) : List ℕ :=
  (S.broadcasting.toList.filter fun c => c.rest.contains x).map BroadcastCall.id

def submitted (S : BroadcastSystem κ ι) (x : ι) : List ℕ := (S.lane x).all ++ S.awaiting x

variable {S : BroadcastSystem κ ι} {x : ι}

omit [DecidableEq κ] in
theorem awaiting_none (h : S.broadcasting = none) : S.awaiting x = [] := by
  simp [awaiting, h]

omit [DecidableEq κ] in
theorem awaiting_mem {c : BroadcastCall κ ι} (h : S.broadcasting = some c) (hx : x ∈ c.rest) :
    S.awaiting x = [c.id] := by
  simp [awaiting, h, hx]

omit [DecidableEq κ] in
theorem awaiting_notMem {c : BroadcastCall κ ι} (h : S.broadcasting = some c) (hx : x ∉ c.rest) :
    S.awaiting x = [] := by
  simp [awaiting, h, hx]

/-! ## What a step does to the way to one connection -/

theorem lane_swapFunctors {k : κ} (h : (S.loops k).functors = []) :
    (S.exec (.swapFunctors k)).lane x = S.lane x := by
  have hqueued : ((S.exec (.swapFunctors k)).loops (S.loop x)).queued =
      (S.loops (S.loop x)).queued := by
    show (Function.update S.loops k _ (S.loop x)).queued = _
    by_cases hx : S.loop x = k
    · rw [hx, Function.update_self, EventLoop.queued_swapFunctors h]
    · rw [Function.update_of_ne hx]
  have hpending : (S.exec (.swapFunctors k)).pending x = S.pending x := by
    show ((((S.exec (.swapFunctors k)).loops (S.loop x)).queued).filter _).map _ = _
    rw [hqueued]
    rfl
  rw [lane, hpending]
  rfl

/-- `conn->send` on a connected connection loses nothing. -/
theorem all_send {c : BroadcastCall κ ι} (h : (S.conn x).state = .kConnected) (w : IoResult) :
    ((S.send c x w).lane x).all.Perm (c.id :: (S.lane x).all) := by
  by_cases hloop : S.loop x = c.caller
  · have hlane : (S.send c x w).lane x = (S.lane x).pass c.id := by
      simp [send, h, hloop, lane, Lane.pass, pending]
    rw [hlane]
    exact Lane.all_pass ..
  · have hlane : (S.send c x w).lane x = (S.lane x).push c.id := by
      simp [send, h, hloop, lane, Lane.push, pending]
    rw [hlane]
    exact Lane.all_push ..

/-- The round of a broadcast for `y`. -/
theorem exec_send {c : BroadcastCall κ ι} {y : ι} {rest : List ι} (hc : S.broadcasting = some c)
    (hr : c.rest = y :: rest) (w : IoResult) :
    S.exec (.send w) = { S with broadcasting := some { c with rest := rest } }.send c y w := by
  simp only [exec, hc, hr]

theorem exec_send_idle (h : ∀ c ∈ S.broadcasting, c.rest = []) (w : IoResult) :
    S.exec (.send w) = S := by
  cases hc : S.broadcasting with
  | none => simp only [exec, hc]
  | some c => simp only [exec, hc, h c hc]

/-- The rounds for other connections. -/
theorem submitted_send_of_ne {c : BroadcastCall κ ι} {y : ι} {rest : List ι}
    (hc : S.broadcasting = some c) (hr : c.rest = y :: rest) (hy : x ≠ y) (w : IoResult) :
    (S.exec (.send w)).submitted x = S.submitted x := by
  have hlane := (lane_send { S with broadcasting := some { c with rest := rest } } c y w).2 x hy
  obtain ⟨-, -, hbroadcasting⟩ :=
    members_send { S with broadcasting := some { c with rest := rest } } c y w
  have hawaiting : ({ S with broadcasting := some { c with rest := rest } }.send c y w).awaiting x =
      S.awaiting x := by
    by_cases hx : x ∈ rest
    · rw [awaiting_mem hbroadcasting hx, awaiting_mem hc (hr ▸ List.mem_cons_of_mem _ hx)]
    · rw [awaiting_notMem hbroadcasting hx, awaiting_notMem hc]
      simp [hr, hy, hx]
  rw [exec_send hc hr, submitted, submitted, hlane, hawaiting]
  rfl

/-- The round for the connection itself. -/
theorem submitted_send {c : BroadcastCall κ ι} {rest : List ι} (hin : S.InOrder)
    (hup : (S.conn x).state = .kConnected) (hc : S.broadcasting = some c) (hr : c.rest = x :: rest)
    (w : IoResult) : ((S.exec (.send w)).submitted x).Perm (S.submitted x) := by
  have hnodup := (hin.broadcasting c hc).2.1
  rw [hr] at hnodup
  obtain ⟨hx, -⟩ := List.nodup_cons.mp hnodup
  obtain ⟨-, -, hbroadcasting⟩ :=
    members_send { S with broadcasting := some { c with rest := rest } } c x w
  have hall := @all_send _ _ _ _ { S with broadcasting := some { c with rest := rest } } x c hup w
  rw [exec_send hc hr, submitted, submitted, awaiting_notMem hbroadcasting hx, List.append_nil,
    awaiting_mem hc (hr ▸ List.mem_cons_self)]
  exact hall.trans (List.perm_append_singleton c.id _).symm

theorem members_deliver {k : κ} {f : SendFunctor ι} {rest : List (SendFunctor ι)} (w : IoResult) :
    (S.deliver k f rest w).awaiting x = S.awaiting x ∧
      (S.deliver k f rest w).connections = S.connections ∧
      (S.deliver k f rest w).started = S.started :=
  ⟨rfl, rfl, rfl⟩

/-! ## Before a connection comes online -/

/-- Nothing is sent to a connection that is not in `connections_`. -/
structure Unseen (S : BroadcastSystem κ ι) (x : ι) : Prop where
  notMem : x ∉ S.connections
  submitted : S.submitted x = []

omit [DecidableEq κ] in
theorem Fresh.unseen (h : S.Fresh) : S.Unseen x := by
  refine ⟨by simp [h.connections], ?_⟩
  simp [BroadcastSystem.submitted, awaiting_none h.broadcasting, Lane.all, lane, pending, h.queued,
    h.received]

omit [DecidableEq κ] in
theorem Unseen.awaiting (h : S.Unseen x) : S.awaiting x = [] :=
  (List.append_eq_nil_iff.mp h.submitted).2

omit [DecidableEq κ] in
theorem Unseen.lane (h : S.Unseen x) : (S.lane x).all = [] :=
  (List.append_eq_nil_iff.mp h.submitted).1

theorem Unseen.exec (h : S.Unseen x) (hin : S.InOrder) {l : BroadcastStep κ ι} (hl : S.Enabled l)
    (hne : l ≠ .onConnection x) : (S.exec l).Unseen x := by
  cases l with
  | connectEstablished y => exact ⟨h.notMem, h.submitted⟩
  | onConnection y =>
    have hy : x ≠ y := fun heq => hne (heq ▸ rfl)
    refine ⟨?_, h.submitted⟩
    show x ∉ (if _ then _ else _ : List ι)
    split
    · split
      · exact h.notMem
      · simpa [hy] using h.notMem
    · exact fun hmem => h.notMem (List.mem_of_mem_erase hmem)
  | broadcast k msg =>
    refine ⟨h.notMem, ?_⟩
    have hawaiting : (S.exec (.broadcast k msg)).awaiting x = [] := awaiting_notMem rfl h.notMem
    rw [BroadcastSystem.submitted, hawaiting, List.append_nil]
    exact h.lane
  | send w =>
    by_cases hidle : ∀ c ∈ S.broadcasting, c.rest = []
    · rwa [exec_send_idle hidle]
    · push Not at hidle
      obtain ⟨c, hc, hrest⟩ := hidle
      obtain ⟨y, rest, hr⟩ := List.exists_cons_of_ne_nil hrest
      have hx : x ∉ c.rest := by
        intro hmem
        have hawaiting := h.awaiting
        rw [awaiting_mem hc hmem] at hawaiting
        cases hawaiting
      have hy : x ≠ y := fun heq => hx (hr ▸ heq ▸ List.mem_cons_self)
      refine ⟨?_, (submitted_send_of_ne hc hr hy w).trans h.submitted⟩
      rw [exec_send hc hr, (members_send _ c y w).2.1]
      exact h.notMem
  | unlock =>
    refine ⟨h.notMem, ?_⟩
    rw [BroadcastSystem.submitted, awaiting_none rfl, List.append_nil]
    exact h.lane
  | swapFunctors k =>
    refine ⟨h.notMem, ?_⟩
    rw [BroadcastSystem.submitted, lane_swapFunctors hl.2]
    exact h.submitted
  | runFunctor k w =>
    show (S.runFunctor k w).Unseen x
    unfold runFunctor
    split
    · exact h
    · next f rest hf =>
      refine ⟨h.notMem, ?_⟩
      obtain ⟨hself, hother⟩ := lane_deliver hin hf w
      rw [BroadcastSystem.submitted, (members_deliver w).1, h.awaiting, List.append_nil]
      by_cases hx : x = f.conn
      · obtain ⟨hqueue, hreceived⟩ := List.append_eq_nil_iff.mp h.lane
        subst hx
        rw [hself]
        simp [Lane.all, Lane.pop, hqueue, hreceived]
      · rw [hother x hx]
        exact h.lane
  | other y l => exact ⟨h.notMem, h.submitted⟩

/-! ## While it is online -/

/-- A connection that came online before the broadcast `n`: what was submitted to it are the
    broadcasts since then. -/
structure Owed (S : BroadcastSystem κ ι) (x : ι) (n : ℕ) : Prop where
  mem : x ∈ S.connections
  le : n ≤ S.started
  submitted : (S.submitted x).Perm (List.range' n (S.started - n))

/-- The first block of `onConnection`. -/
theorem Unseen.online (h : S.Unseen x) (hup : (S.conn x).state = .kConnected) :
    (S.exec (.onConnection x)).Owed x S.started where
  mem := by
    show x ∈ (if _ then _ else _ : List ι)
    rw [if_pos hup, if_neg h.notMem]
    simp
  le := le_refl _
  submitted := by
    have hsubmitted : (S.exec (.onConnection x)).submitted x = [] := h.submitted
    have hstarted : (S.exec (.onConnection x)).started = S.started := rfl
    rw [hsubmitted, hstarted, Nat.sub_self]
    rfl

variable {n : ℕ}

/-- A new broadcast is owed to every connection in `connections_`. -/
theorem Owed.broadcast (h : S.Owed x n) (hfree : S.broadcasting = none) (k : κ) (msg : Bytes) :
    (S.exec (.broadcast k msg)).Owed x n where
  mem := h.mem
  le := Nat.le_succ_of_le h.le
  submitted := by
    have hawaiting : (S.exec (.broadcast k msg)).awaiting x = [S.started] :=
      @awaiting_mem _ _ _ (S.exec (.broadcast k msg)) x ⟨k, S.started, msg, S.connections⟩ rfl h.mem
    have hbefore := h.submitted
    rw [BroadcastSystem.submitted, awaiting_none hfree, List.append_nil] at hbefore
    have hrange : List.range' n (S.started + 1 - n) =
        List.range' n (S.started - n) ++ [S.started] := by
      rw [Nat.succ_sub h.le, List.range'_1_concat, Nat.add_sub_cancel' h.le]
    rw [BroadcastSystem.submitted, hawaiting]
    exact (hbefore.append_right _).trans (.of_eq hrange.symm)

theorem Owed.send (h : S.Owed x n) (hin : S.InOrder) (hup : (S.conn x).state = .kConnected)
    (w : IoResult) : (S.exec (.send w)).Owed x n := by
  by_cases hidle : ∀ c ∈ S.broadcasting, c.rest = []
  · rwa [exec_send_idle hidle]
  · push Not at hidle
    obtain ⟨c, hc, hrest⟩ := hidle
    obtain ⟨y, rest, hr⟩ := List.exists_cons_of_ne_nil hrest
    obtain ⟨hstarted, hconnections, -⟩ :=
      members_send { S with broadcasting := some { c with rest := rest } } c y w
    have hsubmitted : ((S.exec (.send w)).submitted x).Perm (S.submitted x) := by
      by_cases hx : x = y
      · subst hx
        exact submitted_send hin hup hc hr w
      · rw [submitted_send_of_ne hc hr hx]
    rw [← exec_send hc hr] at hstarted hconnections
    exact ⟨hconnections ▸ h.mem, hstarted ▸ h.le, hstarted ▸ hsubmitted.trans h.submitted⟩

theorem Owed.deliver {k : κ} {f : SendFunctor ι} {rest : List (SendFunctor ι)} (h : S.Owed x n)
    (hin : S.InOrder) (hup : (S.conn x).state = .kConnected) (hf : (S.loops k).functors = f :: rest)
    (w : IoResult) : (S.deliver k f rest w).Owed x n := by
  obtain ⟨hself, hother⟩ := lane_deliver hin hf w
  have hall : ((S.deliver k f rest w).lane x).all.Perm (S.lane x).all := by
    by_cases hx : x = f.conn
    · subst hx
      have hopen : ¬ (S.conn f.conn).state = .kDisconnected := by simp [hup]
      rw [hself, decide_eq_false hopen]
      exact Lane.all_pop _
    · rw [hother x hx]
  exact ⟨h.mem, h.le, (hall.append_right _).trans h.submitted⟩

/-- Step lemma. -/
theorem Owed.exec (h : S.Owed x n) (hin : S.InOrder) (hup : (S.conn x).state = .kConnected)
    {l : BroadcastStep κ ι} (hl : S.Enabled l) : (S.exec l).Owed x n := by
  cases l with
  | connectEstablished y => exact ⟨h.mem, h.le, h.submitted⟩
  | onConnection y =>
    refine ⟨?_, h.le, h.submitted⟩
    show x ∈ (if _ then _ else _ : List ι)
    by_cases hy : x = y
    · subst hy
      rw [if_pos hup, if_pos h.mem]
      exact h.mem
    · split
      · split
        · exact h.mem
        · simp [h.mem]
      · exact (List.mem_erase_of_ne hy).mpr h.mem
  | broadcast k msg => exact h.broadcast hl.1 k msg
  | send w => exact h.send hin hup w
  | unlock =>
    have hawaiting : S.awaiting x = [] := by
      cases hc : S.broadcasting with
      | none => exact awaiting_none hc
      | some c => exact awaiting_notMem hc (by simp [hl c hc])
    have hbefore := h.submitted
    rw [BroadcastSystem.submitted, hawaiting, List.append_nil] at hbefore
    refine ⟨h.mem, h.le, ?_⟩
    rw [BroadcastSystem.submitted, awaiting_none rfl, List.append_nil]
    exact hbefore
  | swapFunctors k =>
    refine ⟨h.mem, h.le, ?_⟩
    rw [BroadcastSystem.submitted, lane_swapFunctors hl.2]
    exact h.submitted
  | runFunctor k w =>
    show (S.runFunctor k w).Owed x n
    unfold runFunctor
    split
    · exact h
    · next f rest hf => exact h.deliver hin hup hf w
  | other y l => exact ⟨h.mem, h.le, h.submitted⟩

/-- A step that leaves the connection connected. -/
def EnabledConnected (x : ι) (S : BroadcastSystem κ ι) (l : BroadcastStep κ ι) : Prop :=
  S.Enabled l ∧ ((S.exec l).conn x).state = .kConnected

instance (x : ι) (S : BroadcastSystem κ ι) : DecidablePred (EnabledConnected x S) := fun _ =>
  inferInstanceAs (Decidable (_ ∧ _))

/-- **Delivery of broadcasts.** While a connection stays connected, what is queued for it, what was
    passed to its `sendInLoop` and what the broadcast under way has still to send to it are exactly
    the broadcasts since its `onConnection`, each of them once. -/
theorem broadcasts_delivered_once {S₀ S₁ S : BroadcastSystem κ ι} (h₀ : S₀.Fresh)
    {before after : List (BroadcastStep κ ι)} (hbefore : Run Step S₀ before S₁)
    (hnew : .onConnection x ∉ before) (hup : (S₁.conn x).state = .kConnected)
    (hfree : S₁.Enabled (.onConnection x))
    (hafter : Run (fun T l T' => EnabledConnected x T l ∧ T' = T.exec l)
      (S₁.exec (.onConnection x)) after S) :
    (S.pending x ++ S.received x ++ S.awaiting x).Perm
      (List.range' S₁.started (S.started - S₁.started)) := by
  have hunseen : S₁.InOrder ∧ (.onConnection x ∉ before → S₁.Unseen x) := by
    apply hbefore.history (P := fun ls t => t.InOrder ∧ (.onConnection x ∉ ls → t.Unseen x))
    · exact ⟨h₀.inOrder, fun _ => h₀.unseen⟩
    · rintro ls l t _ - ⟨hin, hu⟩ ⟨hl, rfl⟩
      refine ⟨hin.exec hl, fun hmem => ?_⟩
      rw [List.mem_append, List.mem_singleton, not_or] at hmem
      exact (hu hmem.1).exec hin hl fun heq => hmem.2 heq.symm
  obtain ⟨hin, hu⟩ := hunseen
  have howed : (S.InOrder ∧ (S.conn x).state = .kConnected) ∧ S.Owed x S₁.started := by
    apply hafter.invariant
      (P := fun t => (t.InOrder ∧ (t.conn x).state = .kConnected) ∧ t.Owed x S₁.started)
    · exact ⟨⟨hin.exec hfree, hup⟩, (hu hnew).online hup⟩
    · rintro t l _ ⟨⟨hin, hup⟩, hown⟩ ⟨⟨hl, hup'⟩, rfl⟩
      exact ⟨⟨hin.exec hl, hup'⟩, hown.exec hin hup hl⟩
  exact howed.2.submitted

/-- A broadcast before the second connection comes online, one after that, and one under way. -/
theorem broadcasts_delivered_once_late :
    let S₁ := [.onConnection 0, .broadcast 0 [0x61], .send (.upTo 0), .unlock].foldl exec twoLoops
    let S := [.broadcast 0 [0x62], .send (.upTo 0), .send (.upTo 0), .unlock, .swapFunctors 1,
      .broadcast 0 [0x63], .runFunctor 1 (.upTo 0)].foldl exec (S₁.exec (.onConnection 1))
    (S.pending 1 ++ S.received 1 ++ S.awaiting 1).Perm
      (List.range' S₁.started (S.started - S₁.started)) :=
  broadcasts_delivered_once fresh_twoLoops (Run.of_allowed (Q := Enabled) (by decide +kernel))
    (by decide) (by decide) (by decide +kernel)
    (Run.of_allowed (Q := EnabledConnected 1) (by decide +kernel))

end BroadcastSystem

end AegisNet
