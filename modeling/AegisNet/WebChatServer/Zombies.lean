import AegisNet.WebChatServer.Bookkeeping

/-!
# Connections with a silent peer

The duty to end a connection passes from the idle timer to the force-close timer, and then to a
functor. It is lost when `onMessage` shuts the connection down on a malformed request and the peer
stays: the idle timer then finds it no longer connected and does nothing, and no force-close timer
was started. As long as no idle timer comes so late, no connection is forgotten.

## Main definitions

- `WebChatServer.Watched` — something is left that ends the connection without its peer
- `WebChatServer.Punctual` — a step that starts no idle timer after a shutdown

## Main results

- `WebChatServer.no_zombies`, `WebChatServer.not_no_zombies`
-/

namespace AegisNet

namespace WebChatServer

variable {κ ι : Type*} [DecidableEq κ] [LinearOrder ι] {s : WebChatServer κ ι} {x : ι}

/-- The idle timer or the force-close timer is active, or `forceCloseInLoop` is queued. -/
def Watched (s : WebChatServer κ ι) (x : ι) : Prop :=
  (∃ id, s.Active (s.loop x) (.handleIdleTimeout x) id) ∨
    (∃ id, s.Active (s.loop x) (.handleForceCloseTimeout x) id) ∨
      .bound x .forceCloseInLoop ∈ (s.threads.loops (s.loop x)).queued

/-- The step starts no idle timer of a connection that is being shut down. -/
def Punctual (s : WebChatServer κ ι) (l : ChatStep κ ι) : Prop :=
  ∀ x ∈ s.idleStarted l, (s.conn x).state ≠ .kDisconnecting

instance : DecidablePred s.Punctual := fun l => by
  unfold Punctual
  infer_instance

omit [DecidableEq κ] [LinearOrder ι] in
theorem Fact.active {cb : ChatTimer ι} {id : TimerId} {e : ℕ} (h : s.Fact cb (.waiting id e)) :
    s.Active (s.loop cb.conn) cb id :=
  ⟨h.2.2.1, h.1⟩

omit [DecidableEq κ] [LinearOrder ι] in
theorem functor_of_mem_body {cb : ChatFunctor ι} {f : Functor} (h : .runBound x f ∈ cb.body) :
    cb = .bound x f := by
  cases cb with
  | bound y g =>
    cases List.mem_singleton.mp h
    rfl
  | sendInLoop y buf => cases List.mem_singleton.mp h

omit [DecidableEq κ] in
/-- Between steps an open connection is watched, if no idle timer was lost. -/
theorem Sound.watched (h : s.Sound fun _ => False) (hrun : s.threads.running (s.loop x) = [])
    (hopen : (s.conn x).Open) : s.Watched x := by
  obtain ⟨m, hat, hallows⟩ := h.mode x
  rw [work_of_running hrun] at hallows
  cases m with
  | fresh i e | stale i e => exact .inl ⟨i, Fact.active hat.idleTimer⟩
  | armed i f e => exact .inr (.inl ⟨f, Fact.active hat.forceCloseTimer⟩)
  | queued i f =>
    have hmem := hat.queued rfl
    rw [Threads.todo, hrun, List.nil_append] at hmem
    obtain ⟨cb, hcb, hbody⟩ := List.mem_flatMap.mp hmem
    exact .inr (.inr (functor_of_mem_body hbody ▸ hcb))
  | lost i => exact hallows.1.elim
  | connecting => exact absurd hat.state hopen.ne.2
  | gone => exact absurd hat.state hopen.ne.1
  | _ => simp [ChatMode.Allows] at hallows

/-- **No zombies**, in a run in which no idle timer comes after a shutdown: between the steps of its
    loop, a connection that was reported up and is not down is watched. -/
theorem no_zombies {s₀ : WebChatServer κ ι} {ls : List (ℕ × ChatStep κ ι)} (h0 : s₀.Fresh)
    (h : Run (fun s l t => (s.Enabled l ∧ s.Punctual l.2) ∧ t = s.exec l) s₀ ls s)
    (hrun : s.threads.running (s.loop x) = [])
    (hup : .connectionCallback .kConnected ∈ (s.conn x).trace)
    (hs : (s.conn x).state ≠ .kDisconnected) : s.Watched x := by
  have hsound : s.Sound fun _ => False := by
    refine h.invariant (P := fun t => t.Sound fun _ => False) (h0.sound _) ?_
    rintro t l _ ht ⟨⟨hl, hpunctual⟩, rfl⟩
    exact ht.exec hl fun y hy hstate => hpunctual y hy hstate
  refine hsound.watched hrun ((open_or_down fun hc => ?_).resolve_right hs)
  rw [← TcpConnection.mem_callbacks, ((hsound.base.notified x).connecting hc).2.2] at hup
  cases hup

/-- A connection that says nothing, after its idle timer. -/
theorem no_zombies_silent :
    let s := [(5, .connectEstablished 3), (6, .perform 0 (.upTo 0)), (7, .perform 0 (.upTo 0)),
      (8, .perform 0 (.upTo 0)), (9, .perform 0 (.upTo 0)), (15000020, .readTimers 0 .beginRead),
      (15000021, .readTimers 0 .turn), (15000022, .perform 0 (.upTo 0)),
      (15000023, .perform 0 (.upTo 0)), (15000024, .perform 0 (.upTo 0)),
      (15000025, .readTimers 0 .beginRearm), (15000026, .readTimers 0 .rearm),
      (15000027, .readTimers 0 .endRead)].foldl exec oneLoop
    (s.conn 3).state = .kDisconnecting ∧ s.Watched 3 := by
  intro s
  have hrun : Run (fun s l t => (s.Enabled l ∧ s.Punctual l.2) ∧ t = s.exec l) oneLoop
      [(5, .connectEstablished 3), (6, .perform 0 (.upTo 0)), (7, .perform 0 (.upTo 0)),
      (8, .perform 0 (.upTo 0)), (9, .perform 0 (.upTo 0)), (15000020, .readTimers 0 .beginRead),
      (15000021, .readTimers 0 .turn), (15000022, .perform 0 (.upTo 0)),
      (15000023, .perform 0 (.upTo 0)), (15000024, .perform 0 (.upTo 0)),
      (15000025, .readTimers 0 .beginRearm), (15000026, .readTimers 0 .rearm),
      (15000027, .readTimers 0 .endRead)] s :=
    Run.of_allowed (by decide +kernel)
  have hstate : (s.conn 3).state = .kDisconnecting := by decide +kernel
  exact ⟨hstate, no_zombies fresh_oneLoop hrun (by decide +kernel) (by decide +kernel)
    (by rw [hstate]; decide)⟩

/-- A malformed request, and a peer that stays. Its idle timer comes 15 s later, and then nothing is
    left. -/
theorem not_no_zombies :
    ¬∀ (s₀ s : WebChatServer ℕ ℕ) (ls : List (ℕ × ChatStep ℕ ℕ)), s₀.Fresh → Run Step s₀ ls s →
      ∀ x, s.threads.running (s.loop x) = [] →
        .connectionCallback .kConnected ∈ (s.conn x).trace →
          (s.conn x).state ≠ .kDisconnected → s.Watched x := by
  intro h
  let ls : List (ℕ × ChatStep ℕ ℕ) := [(5, .connectEstablished 3), (6, .perform 0 (.upTo 0)),
    (7, .perform 0 (.upTo 0)), (8, .perform 0 (.upTo 0)), (9, .perform 0 (.upTo 0)),
    (10, .handleEvent 3 { epollin := true } (some [13, 10]) (.upTo 0) (.upTo 0)),
    (11, .perform 0 (.upTo 0)), (12, .perform 0 (.upTo 0)), (13, .perform 0 (.upTo 0)),
    (14, .perform 0 (.upTo 100)), (14, .perform 0 (.upTo 0)),
    (15000020, .readTimers 0 .beginRead), (15000021, .readTimers 0 .turn),
    (15000022, .perform 0 (.upTo 0)), (15000023, .readTimers 0 .beginRearm),
    (15000024, .readTimers 0 .rearm), (15000025, .readTimers 0 .endRead)]
  let s := ls.foldl exec oneLoop
  have hrun : Run Step oneLoop ls s := Run.of_allowed (by decide +kernel)
  have hloop : s.loop 3 = 0 := by decide +kernel
  have hactive : (s.queue 0).activeTimers = ∅ := by decide +kernel
  have hqueued : (s.threads.loops 0).queued = [] := by decide +kernel
  have hwatched : s.Watched 3 := h oneLoop s ls fresh_oneLoop hrun 3 (by decide +kernel)
    (by decide +kernel) (by decide +kernel)
  clear_value s
  unfold Watched Active at hwatched
  rw [hloop, hactive, hqueued] at hwatched
  simp at hwatched

end WebChatServer

end AegisNet
