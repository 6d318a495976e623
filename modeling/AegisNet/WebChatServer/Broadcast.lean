import AegisNet.Lib.Overtaking
import AegisNet.Tcp.TcpConnection.Lifecycle
import AegisNet.WebChatServer.Replies
import Mathlib.Data.List.Sort

/-!
# The order of broadcasts

`broadcast` holds `mutex_` while it sends to every connection. On the caller's own loop `send` runs
`sendInLoop` at once, and for the connections of another loop it queues it there. So a loop that
broadcasts passes, on its own connections, what other loops have queued for them.

## Main definitions

- `BroadcastSystem` — the connections, the loops' queues, and the broadcast that holds the mutex
- `BroadcastStep`, `BroadcastSystem.exec` — the steps of the loops
- `BroadcastSystem.lane` — the way to one connection

## Main results

- `BroadcastSystem.broadcast_order` — when two connections see two broadcasts in the same order
-/

namespace AegisNet

/-- `[self, buf]() { self->sendInLoop(buf); }`, queued by the broadcast `id`. -/
structure SendFunctor (ι : Type*) where
  conn : ι
  id : ℕ
  buf : Bytes
  deriving DecidableEq

/-- A call of `broadcast` that holds `mutex_`. -/
structure BroadcastCall (κ ι : Type*) where
  /-- The loop on whose thread it runs. -/
  caller : κ
  id : ℕ
  msg : Bytes
  /-- The connections to which it has still to send. -/
  rest : List ι

/-- Connections `ι` on loops `κ`. The broadcasts are numbered in the order in which they take the
    mutex. -/
structure BroadcastSystem (κ ι : Type*) where
  /-- `getLoop()` -/
  loop : ι → κ
  conn : ι → TcpConnection
  /-- `connections_`, in the order of the pointers. -/
  connections : List ι := []
  /-- The owner of `mutex_`. -/
  broadcasting : Option (BroadcastCall κ ι) := none
  loops : κ → EventLoop (SendFunctor ι) := fun _ => {}
  /-- The number of broadcasts so far. -/
  started : ℕ := 0
  /-- The broadcasts that were passed to `sendInLoop` of each connection before it was down, oldest
      first. It gives one up if its `write` fails with `EPIPE` or `ECONNRESET`. -/
  received : ι → List ℕ := fun _ => []
  /-- The pairs of broadcasts of which the second was sent on the connection's own loop while the
      first was queued there. -/
  overtaken : ι → List (ℕ × ℕ) := fun _ => []

/-- A step of one of the threads. -/
inductive BroadcastStep (κ ι : Type*)
  | connectEstablished (x : ι)
  /-- The first block of `onConnection`, under the mutex. -/
  | onConnection (x : ι)
  /-- `broadcast(msg)`, called by `onMessage` on the thread of `k`, takes the mutex. -/
  | broadcast (k : κ) (msg : Bytes)
  /-- One round of its loop. -/
  | send (w : IoResult)
  | unlock
  /-- The start of `doPendingFunctors`. -/
  | swapFunctors (k : κ)
  | runFunctor (k : κ) (w : IoResult)
  /-- Anything else on the thread of a connection: its events, calls and functors. -/
  | other (x : ι) (l : LoopStep)
  deriving DecidableEq, Repr

namespace BroadcastSystem

variable {κ ι : Type*} [DecidableEq κ] [LinearOrder ι]

/-- The broadcasts queued for a connection. -/
def pending (S : BroadcastSystem κ ι) (x : ι) : List ℕ :=
  ((S.loops (S.loop x)).queued.filter (fun f => f.conn = x)).map SendFunctor.id

/-- The way to a connection: the queue of its loop, which its own loop passes. -/
def lane (S : BroadcastSystem κ ι) (x : ι) : Lane ℕ where
  queue := S.pending x
  received := S.received x
  overtaken := S.overtaken x

/-- `conn->send(…)` in the loop of the broadcast `c`. -/
def send (S : BroadcastSystem κ ι) (c : BroadcastCall κ ι) (x : ι) (w : IoResult) :
    BroadcastSystem κ ι :=
  if (S.conn x).state = .kConnected then
    if S.loop x = c.caller then
      { S with
        conn := Function.update S.conn x ((S.conn x).sendInLoop (broadcastText c.msg) w)
        received := Function.update S.received x (S.received x ++ [c.id])
        overtaken := Function.update S.overtaken x
          (S.overtaken x ++ (S.pending x).map fun a => (a, c.id)) }
    else
      { S with
        loops := Function.update S.loops (S.loop x)
          ((S.loops (S.loop x)).queueInLoop ⟨x, c.id, broadcastText c.msg⟩) }
  else S

/-- `functor()` for the first functor of the batch, before `rest`. -/
def deliver (S : BroadcastSystem κ ι) (k : κ) (f : SendFunctor ι) (rest : List (SendFunctor ι))
    (w : IoResult) : BroadcastSystem κ ι :=
  { S with
    loops := Function.update S.loops k { S.loops k with functors := rest }
    conn := Function.update S.conn f.conn ((S.conn f.conn).sendInLoop f.buf w)
    received := Function.update S.received f.conn
      (if (S.conn f.conn).state = .kDisconnected then S.received f.conn
        else S.received f.conn ++ [f.id]) }

def runFunctor (S : BroadcastSystem κ ι) (k : κ) (w : IoResult) : BroadcastSystem κ ι :=
  match (S.loops k).functors with
  | [] => S
  | f :: rest => S.deliver k f rest w

def exec (S : BroadcastSystem κ ι) : BroadcastStep κ ι → BroadcastSystem κ ι
  | .connectEstablished x =>
    { S with conn := Function.update S.conn x (S.conn x).connectEstablished }
  | .onConnection x =>
    { S with
      connections :=
        if (S.conn x).state = .kConnected then
          if x ∈ S.connections then S.connections else S.connections.orderedInsert (· ≤ ·) x
        else S.connections.erase x }
  | .broadcast k msg =>
    { S with broadcasting := some ⟨k, S.started, msg, S.connections⟩, started := S.started + 1 }
  | .send w =>
    match S.broadcasting with
    | none => S
    | some c =>
      match c.rest with
      | [] => S
      | x :: rest => { S with broadcasting := some { c with rest := rest } }.send c x w
  | .unlock => { S with broadcasting := none }
  | .swapFunctors k => { S with loops := Function.update S.loops k (S.loops k).swapFunctors }
  | .runFunctor k w => S.runFunctor k w
  | .other x l => { S with conn := Function.update S.conn x ((S.conn x).runStep l) }

/-- The thread of `k` is not in `broadcast`. -/
def Free (S : BroadcastSystem κ ι) (k : κ) : Prop := ∀ c ∈ S.broadcasting, c.caller ≠ k

/-- The mutex excludes other broadcasts and `onConnection`; `onMessage` is a handler, so it does not
    run inside `doPendingFunctors`; and a thread does one thing at a time. -/
def Enabled (S : BroadcastSystem κ ι) : BroadcastStep κ ι → Prop
  | .connectEstablished x => S.Free (S.loop x)
  | .onConnection _ => S.broadcasting = none
  | .broadcast k _ => S.broadcasting = none ∧ (S.loops k).functors = []
  | .send _ => True
  | .unlock => ∀ c ∈ S.broadcasting, c.rest = []
  | .swapFunctors k => S.Free k ∧ (S.loops k).functors = []
  | .runFunctor k _ => S.Free k
  | .other x _ => S.Free (S.loop x)

instance (S : BroadcastSystem κ ι) : DecidablePred S.Enabled := fun l => by
  cases l <;> unfold Enabled <;> try unfold Free
  all_goals infer_instance

def Step (S : BroadcastSystem κ ι) (l : BroadcastStep κ ι) (S' : BroadcastSystem κ ι) : Prop :=
  S.Enabled l ∧ S' = S.exec l

/-- Before the first broadcast; the connections are in any state. -/
structure Fresh (S : BroadcastSystem κ ι) : Prop where
  connections : S.connections = []
  broadcasting : S.broadcasting = none
  queued : ∀ k, (S.loops k).queued = []
  received : ∀ x, S.received x = []
  overtaken : ∀ x, S.overtaken x = []

/-! ## Lanes -/

/-- The invariant. -/
structure InOrder (S : BroadcastSystem κ ι) : Prop where
  /-- Functors are queued in the loop of their connection. -/
  home : ∀ k, ∀ f ∈ (S.loops k).queued, S.loop f.conn = k
  lane : ∀ x, (S.lane x).Ordered
  started : ∀ x, (S.lane x).Newest S.started
  connections : S.connections.Nodup
  broadcasting : ∀ c ∈ S.broadcasting, c.id < S.started ∧ c.rest.Nodup ∧
    ∀ x ∈ c.rest, (S.lane x).Newest c.id

omit [DecidableEq κ] in
theorem Fresh.inOrder {S : BroadcastSystem κ ι} (h : S.Fresh) : S.InOrder := by
  have hlane : ∀ x, S.lane x = {} := fun x => by
    rw [lane, pending, h.queued, h.received, h.overtaken]
    rfl
  refine ⟨fun k f hf => ?_, fun x => ?_, fun x a ha => ?_, ?_, fun c hc => ?_⟩
  · rw [h.queued k] at hf
    cases hf
  · rw [hlane]
    exact Lane.ordered_empty
  · rw [hlane] at ha
    cases ha
  · rw [h.connections]
    exact List.nodup_nil
  · rw [h.broadcasting] at hc
    cases hc

omit [DecidableEq κ] in
/-- What does not touch the lanes. -/
theorem InOrder.of_lane {S S' : BroadcastSystem κ ι} (h : S.InOrder)
    (hhome : ∀ k, ∀ f ∈ (S'.loops k).queued, S'.loop f.conn = k) (hlane : ∀ x, S'.lane x = S.lane x)
    (hstarted : S'.started = S.started) (hconnections : S'.connections = S.connections)
    (hbroadcasting : S'.broadcasting = S.broadcasting) : S'.InOrder where
  home := hhome
  lane x := hlane x ▸ h.lane x
  started x := by
    rw [hlane, hstarted]
    exact h.started x
  connections := hconnections ▸ h.connections
  broadcasting c hc := by
    rw [hbroadcasting] at hc
    rw [hstarted]
    obtain ⟨hid, hnodup, hrest⟩ := h.broadcasting c hc
    exact ⟨hid, hnodup, fun x hx => hlane x ▸ hrest x hx⟩

theorem InOrder.onConnection {S : BroadcastSystem κ ι} (h : S.InOrder) (x : ι) :
    (S.exec (.onConnection x)).InOrder := by
  refine ⟨h.home, h.lane, h.started, ?_, h.broadcasting⟩
  show (if _ then _ else _ : List ι).Nodup
  split
  · split
    · exact h.connections
    · next hx =>
      exact (List.perm_orderedInsert _ x _).nodup_iff.mpr (List.nodup_cons.mpr ⟨hx, h.connections⟩)
  · exact h.connections.erase x

/-- A broadcast is newer than everything before. -/
theorem InOrder.broadcast {S : BroadcastSystem κ ι} (h : S.InOrder) (k : κ) (msg : Bytes) :
    (S.exec (.broadcast k msg)).InOrder := by
  refine ⟨h.home, h.lane, fun x a ha => Nat.lt_succ_of_lt (h.started x a ha), h.connections, ?_⟩
  rintro c ⟨rfl⟩
  exact ⟨Nat.lt_succ_self _, h.connections, fun x _ => h.started x⟩

/-- Sending queues the broadcast or lets it pass, for that connection. -/
theorem lane_send (S : BroadcastSystem κ ι) (c : BroadcastCall κ ι) (x : ι) (w : IoResult) :
    (S.lane x).Submitted c.id ((S.send c x w).lane x) ∧
    ∀ y, y ≠ x → (S.send c x w).lane y = S.lane y := by
  unfold send
  split
  · split
    · refine ⟨.inr (.inr ?_), fun y hy => ?_⟩
      · simp [lane, Lane.pass, pending]
      · simp [lane, pending, hy]
    · refine ⟨.inr (.inl ?_), fun y hy => ?_⟩
      · simp [lane, Lane.push, pending]
      · simp only [lane, pending]
        by_cases hl : S.loop y = S.loop x
        · simp [hl, Ne.symm hy]
        · simp [hl]
  · exact ⟨.inl rfl, fun _ _ => rfl⟩

theorem members_send (S : BroadcastSystem κ ι) (c : BroadcastCall κ ι) (x : ι) (w : IoResult) :
    (S.send c x w).started = S.started ∧ (S.send c x w).connections = S.connections ∧
      (S.send c x w).broadcasting = S.broadcasting := by
  unfold send
  split
  · split <;> exact ⟨rfl, rfl, rfl⟩
  · exact ⟨rfl, rfl, rfl⟩

theorem home_send {S : BroadcastSystem κ ι}
    (h : ∀ k, ∀ f ∈ (S.loops k).queued, S.loop f.conn = k) (c : BroadcastCall κ ι) (x : ι)
    (w : IoResult) : ∀ k, ∀ f ∈ ((S.send c x w).loops k).queued, (S.send c x w).loop f.conn = k := by
  unfold send
  split
  · split
    · exact h
    · intro k f hf
      dsimp only at hf ⊢
      by_cases hk : k = S.loop x
      · subst hk
        rw [Function.update_self, EventLoop.queued_queueInLoop] at hf
        obtain hf | hf := List.mem_append.mp hf
        · exact h _ f hf
        · rw [List.mem_singleton.mp hf]
      · rw [Function.update_of_ne hk] at hf
        exact h k f hf
  · exact h

/-- The broadcast goes to a connection to which it has not gone before. -/
theorem InOrder.send {S : BroadcastSystem κ ι} (h : S.InOrder) {c : BroadcastCall κ ι} {x : ι}
    {rest : List ι} (hc : S.broadcasting = some c) (hr : c.rest = x :: rest) (w : IoResult) :
    ({ S with broadcasting := some { c with rest := rest } }.send c x w).InOrder := by
  obtain ⟨hid, hnodup, hrest⟩ := h.broadcasting c hc
  rw [hr] at hnodup hrest
  obtain ⟨hx, hnodup⟩ := List.nodup_cons.mp hnodup
  have hnewest : (S.lane x).Newest c.id := hrest x List.mem_cons_self
  have hhome := home_send (S := { S with broadcasting := some { c with rest := rest } }) h.home c x w
  obtain ⟨hself, hother⟩ := lane_send { S with broadcasting := some { c with rest := rest } } c x w
  obtain ⟨hstarted, hconnections, hbroadcasting⟩ :=
    members_send { S with broadcasting := some { c with rest := rest } } c x w
  generalize { S with broadcasting := some { c with rest := rest } }.send c x w = S' at *
  refine ⟨hhome, fun y => ?_, fun y => ?_, ?_, fun d hd => ?_⟩
  · by_cases hy : y = x
    · subst hy
      exact (h.lane y).submitted hnewest hself
    · rw [hother y hy]
      exact h.lane y
  · rw [hstarted]
    by_cases hy : y = x
    · subst hy
      exact (h.started y).submitted hid hself
    · rw [hother y hy]
      exact h.started y
  · rw [hconnections]
    exact h.connections
  · rw [hbroadcasting] at hd
    obtain rfl := Option.some.inj hd
    refine ⟨hstarted ▸ hid, hnodup, fun y hy => ?_⟩
    rw [hother y fun hyx => hx (hyx ▸ hy)]
    exact hrest y (List.mem_cons_of_mem _ hy)

section Deliver

variable {S : BroadcastSystem κ ι} {k : κ} {f : SendFunctor ι} {rest : List (SendFunctor ι)}

/-- The first functor of the batch is the first of its lane. -/
theorem lane_deliver (h : S.InOrder) (hf : (S.loops k).functors = f :: rest) (w : IoResult) :
    (S.deliver k f rest w).lane f.conn =
        (S.lane f.conn).pop (decide ((S.conn f.conn).state = .kDisconnected)) ∧
      ∀ y, y ≠ f.conn → (S.deliver k f rest w).lane y = S.lane y := by
  have hloop : S.loop f.conn = k := h.home k f (by simp [EventLoop.queued, hf])
  -- the head of this queue is the head of the lane
  have hqueued : (S.loops k).queued = f :: (rest ++ (S.loops k).pendingFunctors) := by
    simp [EventLoop.queued, hf]
  refine ⟨?_, fun y hy => ?_⟩
  · simp only [deliver, lane, pending, Lane.pop, hloop, hqueued]
    by_cases hs : (S.conn f.conn).state = .kDisconnected <;> simp [hs, EventLoop.queued]
  · simp only [deliver, lane, pending]
    by_cases hl : S.loop y = k
    · simp [hl, hf, hy, Ne.symm hy, EventLoop.queued]
    · simp [hl, hy]

theorem home_deliver (h : S.InOrder) (hf : (S.loops k).functors = f :: rest) (w : IoResult) (j : κ)
    (g : SendFunctor ι) (hg : g ∈ ((S.deliver k f rest w).loops j).queued) : S.loop g.conn = j := by
  refine h.home j g ?_
  simp only [deliver] at hg
  by_cases hj : j = k
  · subst hj
    rw [Function.update_self] at hg
    rw [EventLoop.queued, hf]
    exact List.mem_cons_of_mem _ hg
  · rwa [Function.update_of_ne hj] at hg

theorem InOrder.deliver (h : S.InOrder) (hf : (S.loops k).functors = f :: rest) (w : IoResult) :
    (S.deliver k f rest w).InOrder := by
  obtain ⟨hself, hother⟩ := lane_deliver h hf w
  have hnewest : ∀ y m, (S.lane y).Newest m → ((S.deliver k f rest w).lane y).Newest m := by
    intro y m hm
    by_cases hy : y = f.conn
    · subst hy
      rw [hself]
      exact hm.pop _
    · rwa [hother y hy]
  refine ⟨home_deliver h hf w, fun y => ?_, fun y => hnewest y _ (h.started y), h.connections,
    fun c hc => ?_⟩
  · by_cases hy : y = f.conn
    · subst hy
      rw [hself]
      exact (h.lane f.conn).pop _
    · rw [hother y hy]
      exact h.lane y
  · obtain ⟨hid, hnodup, hrest⟩ := h.broadcasting c hc
    exact ⟨hid, hnodup, fun y hy => hnewest y _ (hrest y hy)⟩

end Deliver

/-- Step lemma. -/
theorem InOrder.exec {S : BroadcastSystem κ ι} (h : S.InOrder) {l : BroadcastStep κ ι}
    (hl : S.Enabled l) : (S.exec l).InOrder := by
  cases l with
  | connectEstablished x => exact h.of_lane h.home (fun _ => rfl) rfl rfl rfl
  | onConnection x => exact h.onConnection x
  | broadcast k msg => exact h.broadcast k msg
  | send w =>
    cases hc : S.broadcasting with
    | none => simpa [BroadcastSystem.exec, hc] using h
    | some c =>
      cases hr : c.rest with
      | nil => simpa [BroadcastSystem.exec, hc, hr] using h
      | cons x rest => simpa [BroadcastSystem.exec, hc, hr] using h.send hc hr w
  | unlock => exact ⟨h.home, h.lane, h.started, h.connections, fun c hc => by cases hc⟩
  | swapFunctors k =>
    have hqueued : ∀ j, (Function.update S.loops k (S.loops k).swapFunctors j).queued =
        (S.loops j).queued := by
      intro j
      by_cases hj : j = k
      · subst hj
        rw [Function.update_self, EventLoop.queued_swapFunctors hl.2]
      · rw [Function.update_of_ne hj]
    refine h.of_lane (fun j f hf => h.home j f (hqueued j ▸ hf)) (fun x => ?_) rfl rfl rfl
    show (⟨((Function.update S.loops k (S.loops k).swapFunctors (S.loop x)).queued.filter _).map _,
      _, _⟩ : Lane ℕ) = _
    rw [hqueued]
    rfl
  | runFunctor k w =>
    simp only [BroadcastSystem.exec, BroadcastSystem.runFunctor]
    split
    · exact h
    · next f rest hf => exact h.deliver hf w
  | other x l => exact h.of_lane h.home (fun _ => rfl) rfl rfl rfl

/-- **The order of broadcasts.** Of two broadcasts the one that took the mutex first reaches a
    connection first, unless the other one was sent on the connection's own loop while the first
    was queued there. So two connections see them in the same order when this happened to both of
    them or to neither. -/
theorem broadcast_order {S₀ S : BroadcastSystem κ ι} (h₀ : S₀.Fresh)
    {ls : List (BroadcastStep κ ι)} (hrun : Run Step S₀ ls S) {a b : ℕ} (hab : a < b) :
    (∀ x, a ∈ S.received x → b ∈ S.received x →
      ([a, b].Sublist (S.received x) ↔ (a, b) ∉ S.overtaken x)) ∧
    ∀ x y, a ∈ S.received x → b ∈ S.received x → a ∈ S.received y → b ∈ S.received y →
      (([a, b].Sublist (S.received x) ↔ [a, b].Sublist (S.received y)) ↔
        ((a, b) ∈ S.overtaken x ↔ (a, b) ∈ S.overtaken y)) := by
  have h : S.InOrder := by
    refine hrun.invariant h₀.inOrder ?_
    rintro t l _ ht ⟨hl, rfl⟩
    exact ht.exec hl
  have hone : ∀ x, a ∈ S.received x → b ∈ S.received x →
      ([a, b].Sublist (S.received x) ↔ (a, b) ∉ S.overtaken x) :=
    fun x ha hb => (h.lane x).sublist_iff hab ha hb
  refine ⟨hone, fun x y hax hbx hay hby => ?_⟩
  rw [hone x hax hbx, hone y hay hby]
  exact not_iff_not

/-- Two connections, each on a loop of its own. -/
def twoLoops : BroadcastSystem ℕ ℕ where
  loop x := x
  conn _ := { state := .kConnected }

theorem fresh_twoLoops : twoLoops.Fresh :=
  ⟨rfl, rfl, fun _ => rfl, fun _ => rfl, fun _ => rfl⟩

/-- The second loop broadcasts after it has run the functor of the first broadcast. -/
theorem broadcast_order_inTurn :
    let S := [.onConnection 0, .onConnection 1, .broadcast 0 [0x61], .send (.upTo 0),
      .send (.upTo 0), .unlock, .swapFunctors 1, .runFunctor 1 (.upTo 0), .broadcast 1 [0x62],
      .send (.upTo 0), .send (.upTo 0), .unlock, .swapFunctors 0,
      .runFunctor 0 (.upTo 0)].foldl exec twoLoops
    (∀ x, 0 ∈ S.received x → 1 ∈ S.received x →
      ([0, 1].Sublist (S.received x) ↔ (0, 1) ∉ S.overtaken x)) ∧
    ∀ x y, 0 ∈ S.received x → 1 ∈ S.received x → 0 ∈ S.received y → 1 ∈ S.received y →
      (([0, 1].Sublist (S.received x) ↔ [0, 1].Sublist (S.received y)) ↔
        ((0, 1) ∈ S.overtaken x ↔ (0, 1) ∈ S.overtaken y)) :=
  broadcast_order fresh_twoLoops (Run.of_allowed (Q := Enabled) (by decide +kernel)) Nat.zero_lt_one

/-- The second loop broadcasts before: its connection receives the second broadcast first. -/
theorem not_broadcast_order : ¬ ∀ (S₀ S : BroadcastSystem ℕ ℕ) (ls : List (BroadcastStep ℕ ℕ)),
    S₀.Fresh → Run Step S₀ ls S → ∀ a b x y, (S.conn x).state = .kConnected →
      (S.conn y).state = .kConnected → a ∈ S.received x → b ∈ S.received x →
      a ∈ S.received y → b ∈ S.received y →
      ([a, b].Sublist (S.received x) ↔ [a, b].Sublist (S.received y)) := by
  intro h
  have hrun : Run Step twoLoops [.onConnection 0, .onConnection 1, .broadcast 0 [0x61],
      .send (.upTo 0), .send (.upTo 0), .unlock, .broadcast 1 [0x62], .send (.upTo 0),
      .send (.upTo 0), .unlock, .swapFunctors 0, .runFunctor 0 (.upTo 0), .swapFunctors 1,
      .runFunctor 1 (.upTo 0)] _ :=
    Run.of_allowed (Q := Enabled) (by decide +kernel)
  have hiff := h _ _ _ fresh_twoLoops hrun 0 1 0 1 (by decide +kernel) (by decide +kernel)
    (by decide +kernel) (by decide +kernel) (by decide +kernel) (by decide +kernel)
  have hfirst : [0, 1].Sublist _ := hiff.mp (by decide +kernel)
  revert hfirst
  decide +kernel

end BroadcastSystem

end AegisNet
