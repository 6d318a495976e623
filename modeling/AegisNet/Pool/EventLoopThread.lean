import AegisNet.Net.EventLoop.Quit

/-!
# A worker thread and its owner

`src/pool/EventLoopThread.{h,cpp}`: the worker constructs its loop, publishes it in `loop_` and
enters `EventLoop::loop`, whose first store clears `quit_`. The owner waits in `startLoop` until
`loop_` is set, and may then call `quit()`; the destructor does so and joins the thread.

## Main definitions

- `EventLoopThread ι F` — the loop, and where the worker and the owner are
- `EventLoopThread.exec`, `EventLoopThread.Enabled` — the steps of the worker, of its owner, and
  of all other threads
- `EventLoopThread.QuitKept` — a `quit()` that is not lost

## Main results

- `RunningLoop.exists_run_stopped` — a loop that has seen its `quit()` can always leave
- `EventLoopThread.quitKept_iff` — a request is kept if and only if the worker has entered `loop()`
-/

namespace AegisNet

variable {ι F : Type*}

namespace WakeupStep

/-- The thread that makes the step; `none` is the loop thread. -/
def caller : WakeupStep ι F → Option ι
  | push t _ => t
  | setQuit t => t
  | wakeup t => t
  | _ => none

/-- A step that the loop thread can make on its own: it returns from `epoll_wait` only because of
    the eventfd. -/
def Unaided (l : WakeupStep ι F) : Prop := l.caller = none ∧ l ≠ .poll false

def IsPoll : WakeupStep ι F → Bool
  | poll _ => true
  | _ => false

end WakeupStep

namespace RunningLoop

variable [DecidableEq ι]

/-- The loop thread can leave `loop()` by steps of its own. -/
def CanStop (s : RunningLoop ι F) : Prop :=
  ∃ ls s', Run Step s ls s' ∧ s'.phase = .stopped ∧ ∀ l ∈ ls, l.Unaided

theorem CanStop.of_exec {s : RunningLoop ι F} (l : WakeupStep ι F) (hl : s.Enabled l)
    (hu : l.Unaided) (h : (s.exec l).CanStop) : s.CanStop := by
  obtain ⟨ls, s', hrun, hstop, hls⟩ := h
  exact ⟨l :: ls, s', hrun.cons ⟨hl, rfl⟩, hstop, List.forall_mem_cons.mpr ⟨hu, hls⟩⟩

theorem canStop_of_looping {s : RunningLoop ι F} (hquit : s.quit = true)
    (hphase : s.phase = .looping) : s.CanStop := by
  refine .of_exec .testQuit hphase ⟨rfl, by simp⟩ ⟨[], _, .nil, ?_, by simp⟩
  simp [RunningLoop.exec, hquit]

/-- The rest of a batch of functors that make no calls. -/
theorem canStop_of_running {s : RunningLoop ι F} (hquit : s.quit = true)
    (hphase : s.phase = .running) (hidle : s.threads none = .idle) : s.CanStop := by
  generalize hcbs : s.queues.functors = cbs
  induction cbs generalizing s with
  | nil =>
    refine .of_exec .clearCalling ⟨hphase, hcbs⟩ ⟨rfl, by simp⟩ ?_
    exact canStop_of_looping hquit rfl
  | cons cb cbs ih =>
    refine .of_exec .callFunctor ⟨hphase, by simp [hcbs]⟩ ⟨rfl, by simp⟩ ?_
    refine .of_exec .functorReturns ⟨rfl, hidle⟩ ⟨rfl, by simp⟩ ?_
    exact ih hquit rfl hidle (by simp [RunningLoop.exec, hcbs])

theorem canStop_of_dispatching {s : RunningLoop ι F} (hquit : s.quit = true)
    (hphase : s.phase = .dispatching false) (hidle : s.threads none = .idle) : s.CanStop := by
  refine .of_exec .setCalling ⟨hphase, hidle⟩ ⟨rfl, by simp⟩ ?_
  refine .of_exec .swap rfl ⟨rfl, by simp⟩ ?_
  exact canStop_of_running hquit rfl hidle

/-- A loop whose `quit_` is set can leave on its own, if `epoll_wait` is sure to return. -/
theorem canStop_of_idle {s : RunningLoop ι F} (hquit : s.quit = true)
    (hidle : s.threads none = .idle) (hfd : s.phase = .polling → s.wakeupFd ≠ 0) : s.CanStop := by
  cases hphase : s.phase with
  | looping => exact canStop_of_looping hquit hphase
  | polling =>
    refine .of_exec (.poll true) ⟨hphase, fun _ => hfd hphase⟩ ⟨rfl, by simp⟩ ?_
    refine .of_exec .handleRead ⟨rfl, hidle⟩ ⟨rfl, by simp⟩ ?_
    exact canStop_of_dispatching hquit rfl hidle
  | dispatching wakeupActive =>
    cases wakeupActive with
    | false => exact canStop_of_dispatching hquit hphase hidle
    | true =>
      refine .of_exec .handleRead ⟨hphase, hidle⟩ ⟨rfl, by simp⟩ ?_
      exact canStop_of_dispatching hquit rfl hidle
  | swapping =>
    refine .of_exec .swap hphase ⟨rfl, by simp⟩ ?_
    exact canStop_of_running hquit rfl hidle
  | running => exact canStop_of_running hquit hphase hidle
  | executing =>
    refine .of_exec .functorReturns ⟨hphase, hidle⟩ ⟨rfl, by simp⟩ ?_
    exact canStop_of_running hquit rfl hidle
  | stopped => exact ⟨[], s, .nil, hphase, by simp⟩

/-- The same when the loop thread is inside a call of `queueInLoop` or `quit`. -/
theorem exists_run_stopped {s : RunningLoop ι F} (hquit : s.quit = true)
    (hmay : s.threads none ≠ .idle → s.phase.MayCall)
    (hfd : s.phase = .polling → s.wakeupFd ≠ 0) : s.CanStop := by
  by_cases hidle : s.threads none = .idle
  · exact canStop_of_idle hquit hidle hfd
  · refine .of_exec (.wakeup none) hidle ⟨rfl, by simp⟩ (canStop_of_idle hquit ?_ ?_)
    · exact Function.update_self none .idle s.threads
    · intro hphase
      have hpolling := hmay hidle
      rw [show s.phase = _ from hphase] at hpolling
      exact hpolling.elim

/-- What holds after a store of `quit_` by the thread `o`: the loop thread has made `n` further polls,
    at most one, and when the call of `quit()` has ended it will not sleep. -/
structure Leaving (o : ι) (n : ℕ) (returned : Prop) (s : RunningLoop ι F) : Prop where
  quit : s.quit = true
  awake : s.Awake
  polls : n = 0 ∨ n = 1 ∧ s.phase ≠ .polling
  call : ¬ returned → s.threads (some o) = .quitting
  wakeupFd : returned → s.phase = .polling → s.wakeupFd ≠ 0

theorem Leaving.of_setQuit {s : RunningLoop ι F} (h : s.Awake) {o : ι}
    (hl : s.Enabled (.setQuit (some o))) : (s.exec (.setQuit (some o))).Leaving o 0 False where
  quit := rfl
  awake := h.exec hl
  polls := .inl rfl
  call := fun _ => Function.update_self (some o) _ s.threads
  wakeupFd := fun hreturned => hreturned.elim

/-- The end of a call: of the one of `quit()` by `o`, or of another one. -/
theorem Leaving.exec_wakeup {o : ι} {n : ℕ} {returned : Prop} {s : RunningLoop ι F}
    (h : s.Leaving o n returned) {t : Option ι} (hl : s.Enabled (.wakeup t)) :
    (s.exec (.wakeup t)).Leaving o n (returned ∨ t = some o) where
  quit := h.quit
  awake := h.awake.exec hl
  polls := h.polls
  call := by
    intro hnot
    have ho : some o ≠ t := fun heq => hnot (.inr heq.symm)
    exact (Function.update_of_ne ho _ _).trans (h.call fun hr => hnot (.inl hr))
  wakeupFd := by
    intro hor hphase
    show (if s.needsWakeup t then eventfdWrite s.wakeupFd else s.wakeupFd) ≠ 0
    split
    · exact eventfdWrite_ne_zero _
    · next hneeds =>
      by_cases hreturned : returned
      · exact h.wakeupFd hreturned hphase
      · obtain rfl := hor.resolve_left hreturned
        exact absurd (by simp [needsWakeup, h.call hreturned]) hneeds

omit [DecidableEq ι] in
/-- A step of the loop thread other than a poll. -/
theorem Leaving.frame {o : ι} {n : ℕ} {returned returned' : Prop} {s s' : RunningLoop ι F}
    (h : s.Leaving o n returned) (hreturned : returned → returned') (hquit : s'.quit = s.quit)
    (hthreads : s'.threads = s.threads) (hawake : s'.Awake) (hphase : s'.phase ≠ .polling) :
    s'.Leaving o n returned' where
  quit := hquit.trans h.quit
  awake := hawake
  polls := h.polls.imp_right fun hn => ⟨hn.1, hphase⟩
  call := fun hnot => hthreads ▸ h.call fun hr => hnot (hreturned hr)
  wakeupFd := fun _ hpolling => absurd hpolling hphase

theorem Leaving.exec {o : ι} {n : ℕ} {returned : Prop} {s : RunningLoop ι F}
    (h : s.Leaving o n returned) {l : WakeupStep ι F} (hl : s.Enabled l) :
    (s.exec l).Leaving o (n + if l.IsPoll then 1 else 0) (returned ∨ l = .wakeup (some o)) := by
  have hawake := h.awake.exec hl
  -- a thread in the middle of its call begins no other one
  have hcall : ∀ t c, s.threads t = .idle → ¬ (returned ∨ l = .wakeup (some o)) →
      Function.update s.threads t c (some o) = .quitting := by
    intro t c hidle hnot
    have ho := h.call fun hr => hnot (.inl hr)
    rw [Function.update_of_ne (fun heq => by rw [heq, hidle] at ho; cases ho), ho]
  cases l with
  | push t cb =>
    refine ⟨h.quit, hawake, h.polls, hcall t .pushed hl.1, ?_⟩
    exact fun hor => h.wakeupFd (hor.resolve_right (by simp))
  | setQuit t =>
    refine ⟨rfl, hawake, h.polls, hcall t .quitting hl.1, ?_⟩
    exact fun hor => h.wakeupFd (hor.resolve_right (by simp))
  | wakeup t =>
    have hwakeup := h.exec_wakeup hl
    refine ⟨h.quit, hawake, h.polls, ?_, ?_⟩
    · exact fun hnot => hwakeup.call fun hor => hnot (hor.imp_right fun ht => by rw [ht])
    · exact fun hor => hwakeup.wakeupFd (hor.imp_right fun ht => by simpa using ht)
  | testQuit =>
    have hstop : (s.exec .testQuit).phase = .stopped := by simp [RunningLoop.exec, h.quit]
    exact h.frame .inl rfl rfl hawake (by simp [hstop])
  | poll wakeupActive =>
    obtain rfl : n = 0 := h.polls.resolve_right fun hn => hn.2 hl.1
    refine ⟨h.quit, hawake, .inr ⟨rfl, by simp [RunningLoop.exec]⟩, ?_, ?_⟩
    · exact fun hnot => h.call fun hr => hnot (.inl hr)
    · intro _ hphase
      cases hphase
  | handleRead => exact h.frame .inl rfl rfl hawake (by simp [RunningLoop.exec])
  | setCalling => exact h.frame .inl rfl rfl hawake (by simp [RunningLoop.exec])
  | swap => exact h.frame .inl rfl rfl hawake (by simp [RunningLoop.exec])
  | callFunctor => exact h.frame .inl rfl rfl hawake (by simp [RunningLoop.exec])
  | functorReturns => exact h.frame .inl rfl rfl hawake (by simp [RunningLoop.exec])
  | clearCalling => exact h.frame .inl rfl rfl hawake (by simp [RunningLoop.exec])

end RunningLoop

/-- Where the worker is in `threadFunc`. -/
inductive WorkerPhase
  /-- constructing the loop, or in the init callback; `loop_` is null -/
  | starting
  /-- `loop_` is set; in front of `quit_ = false` in `loop()` -/
  | published
  /-- behind that store; where the worker is in `loop()` is the phase of the loop -/
  | looping
  /-- `loop_` is null again, and the loop is destroyed -/
  | exited
  deriving DecidableEq, Repr

/-- Where the owner is. -/
inductive OwnerPhase
  /-- waiting in `startLoop` until `loop_` is set -/
  | waiting
  | running
  /-- in the destructor, in front of `loop_->quit()` -/
  | quitting
  /-- in the destructor, in `quit()` or in front of `thread_.join()` -/
  | joining
  /-- the destructor has returned -/
  | gone
  deriving DecidableEq, Repr

/-- The worker thread with its loop, and the owner. The owner is one of the threads `ι`, which may
    all call into the loop. -/
structure EventLoopThread (ι F : Type*) where
  loop : RunningLoop ι F := {}
  worker : WorkerPhase := .starting
  owner : OwnerPhase := .waiting

inductive ThreadStep (ι F : Type*)
  /-- `loop_ = &loop` -/
  | publish
  /-- `quit_ = false` at the start of `loop()` -/
  | enter
  /-- `loop_ = nullptr`, and the end of `threadFunc` -/
  | unpublish
  /-- `startLoop` returns -/
  | startLoop
  /-- the destructor tests `loop_ != nullptr` -/
  | destroy
  /-- a step in the loop: of the worker, of the owner or of another thread -/
  | call (l : WakeupStep ι F)
  /-- `thread_.join()` returns -/
  | join

namespace ThreadStep

/-- A step that the worker can make on its own. -/
def OfWorker : ThreadStep ι F → Prop
  | publish => True
  | enter => True
  | unpublish => True
  | call l => l.Unaided
  | _ => False

def IsPoll : ThreadStep ι F → Bool
  | call l => l.IsPoll
  | _ => false

end ThreadStep

namespace EventLoopThread

/-- `loop_ != nullptr` -/
def Published (s : EventLoopThread ι F) : Prop := s.worker = .published ∨ s.worker = .looping

instance (s : EventLoopThread ι F) : Decidable s.Published :=
  inferInstanceAs (Decidable (_ ∨ _))

variable [DecidableEq ι] (o : ι)

def exec (s : EventLoopThread ι F) : ThreadStep ι F → EventLoopThread ι F
  | .publish => { s with worker := .published }
  | .enter => { s with loop := { s.loop with quit := false }, worker := .looping }
  | .unpublish => { s with worker := .exited }
  | .startLoop => { s with owner := .running }
  | .destroy => { s with owner := if s.Published then .quitting else .gone }
  | .call l =>
    { s with
      loop := s.loop.exec l
      owner := if s.owner = .quitting ∧ l.caller = some o then .joining else s.owner }
  | .join => { s with owner := .gone }

/-- Who may make a step in the loop: the worker inside `loop()`, and every other thread while the
    loop is published. The owner calls before its destructor runs, and there only `quit()`. -/
def MayStep (s : EventLoopThread ι F) : WakeupStep ι F → Prop
  | .push (some i) _ => s.Published ∧ (i = o → s.owner = .running)
  | .setQuit (some i) => s.Published ∧ (i = o → s.owner = .running ∨ s.owner = .quitting)
  | .wakeup (some _) => True
  | _ => s.worker = .looping

instance (s : EventLoopThread ι F) : DecidablePred (s.MayStep o)
  | .push (some _) _ => inferInstanceAs (Decidable (_ ∧ (_ → _)))
  | .setQuit (some _) => inferInstanceAs (Decidable (_ ∧ (_ → _ ∨ _)))
  | .wakeup (some _) => .isTrue trivial
  | .push none _ | .setQuit none | .wakeup none | .testQuit | .poll _ | .handleRead | .setCalling
  | .swap | .callFunctor | .functorReturns | .clearCalling =>
    inferInstanceAs (Decidable (s.worker = .looping))

def Enabled (s : EventLoopThread ι F) : ThreadStep ι F → Prop
  | .publish => s.worker = .starting
  | .enter => s.worker = .published
  | .unpublish => s.worker = .looping ∧ s.loop.phase = .stopped
  | .startLoop => s.owner = .waiting ∧ s.Published
  | .destroy => s.owner = .running ∧ s.loop.threads (some o) = .idle
  | .call l => s.loop.Enabled l ∧ s.MayStep o l
  | .join => s.owner = .joining ∧ s.loop.threads (some o) = .idle ∧ s.worker = .exited

instance [DecidableEq F] (s : EventLoopThread ι F) : DecidablePred (s.Enabled o) := fun l => by
  cases l <;> unfold Enabled <;> infer_instance

def Step (s : EventLoopThread ι F) (l : ThreadStep ι F) (s' : EventLoopThread ι F) : Prop :=
  s.Enabled o l ∧ s' = s.exec o l

/-- A `quit()` of the owner whose store comes in the state `m` is kept: however the run goes on,
    `quit_` stays set, the worker polls at most once more, and when the call has returned the
    worker can reach the end of `threadFunc`, where `join` returns, by steps of its own. -/
def QuitKept (m : EventLoopThread ι F) : Prop :=
  ∀ bs u, Run (Step o) (m.exec o (.call (.setQuit (some o)))) bs u →
    u.loop.quit = true ∧ bs.countP ThreadStep.IsPoll ≤ 1 ∧
      (.call (.wakeup (some o)) ∈ bs → ∃ ks v, Run (Step o) u ks v ∧ (∀ k ∈ ks, k.OfWorker) ∧
        v.worker = .exited)

variable {o}

theorem awake_of_run {ls : List (ThreadStep ι F)} {m : EventLoopThread ι F}
    (h : Run (Step o) {} ls m) : m.loop.Awake := by
  refine h.invariant (P := fun m => m.loop.Awake)
    (RunningLoop.Entered.awake ⟨rfl, rfl, rfl⟩) ?_
  rintro t l _ ht ⟨hl, rfl⟩
  cases l with
  | enter => exact ⟨ht.caller, ht.calling, ht.wakeup⟩
  | call l => exact ht.exec hl.1
  | _ => exact ht

omit [DecidableEq ι] in
theorem mayStep_of_looping {s : EventLoopThread ι F} (h : s.worker = .looping)
    {l : WakeupStep ι F} (hl : l.caller = none) : s.MayStep o l := by
  cases l with
  | push t cb => obtain rfl : t = none := hl; exact h
  | setQuit t => obtain rfl : t = none := hl; exact h
  | wakeup t => obtain rfl : t = none := hl; exact h
  | _ => exact h

/-- The worker makes in its thread the steps that its loop can make on its own. -/
theorem exists_run_call {s : EventLoopThread ι F} (h : s.worker = .looping)
    {ls : List (WakeupStep ι F)} {loop : RunningLoop ι F} (hrun : Run RunningLoop.Step s.loop ls loop)
    (hls : ∀ l ∈ ls, l.Unaided) :
    ∃ v, Run (Step o) s (ls.map .call) v ∧ v.loop = loop ∧ v.worker = .looping := by
  induction hrun with
  | nil => exact ⟨s, .nil, rfl, h⟩
  | @snoc ls l _ _ _ hstep ih =>
    obtain ⟨v, hv, rfl, hworker⟩ := ih fun l hl => hls l (List.mem_append_left _ hl)
    have hlast := hls l (by simp)
    refine ⟨v.exec o (.call l), ?_, hstep.2.symm, hworker⟩
    rw [List.map_append]
    exact hv.snoc ⟨⟨hstep.1, mayStep_of_looping hworker hlast.1⟩, rfl⟩

/-- From the store of `quit_` on, if the worker is behind its own store. -/
theorem leaving_of_run {m u : EventLoopThread ι F} {bs : List (ThreadStep ι F)}
    (hawake : m.loop.Awake) (hq : m.Enabled o (.call (.setQuit (some o))))
    (hworker : m.worker = .looping) (h : Run (Step o) (m.exec o (.call (.setQuit (some o)))) bs u) :
    (u.worker = .looping ∨ u.worker = .exited) ∧
      u.loop.Leaving o (bs.countP ThreadStep.IsPoll) (.call (.wakeup (some o)) ∈ bs) := by
  refine h.history (P := fun bs u => (u.worker = .looping ∨ u.worker = .exited) ∧
    u.loop.Leaving o (bs.countP ThreadStep.IsPoll) (.call (.wakeup (some o)) ∈ bs)) ?_ ?_
  · simpa using ⟨.inl hworker, RunningLoop.Leaving.of_setQuit hawake hq.1⟩
  · rintro bs l u _ _ ⟨hor, hleaving⟩ ⟨hl, rfl⟩
    have hnot : u.worker ≠ .starting ∧ u.worker ≠ .published := by
      rcases hor with h | h <;> simp [h]
    rw [List.countP_append]
    simp only [List.mem_append, List.mem_singleton]
    cases l with
    | publish => exact absurd hl hnot.1
    | enter => exact absurd hl hnot.2
    | unpublish => exact ⟨.inr rfl, by simpa [ThreadStep.IsPoll, exec] using hleaving⟩
    | startLoop => exact ⟨hor, by simpa [ThreadStep.IsPoll, exec] using hleaving⟩
    | destroy => exact ⟨hor, by simpa [ThreadStep.IsPoll, exec] using hleaving⟩
    | join => exact ⟨hor, by simpa [ThreadStep.IsPoll, exec] using hleaving⟩
    | call l =>
      refine ⟨hor, ?_⟩
      have hstep := hleaving.exec hl.1
      cases hpoll : l.IsPoll <;>
        simpa [ThreadStep.IsPoll, hpoll, eq_comm, exec] using hstep

/-- The owner's request is kept if and only if the worker has made its store `quit_ = false` in
    `loop()` before the owner stores. -/
theorem quitKept_iff {m : EventLoopThread ι F} {as : List (ThreadStep ι F)}
    (has : Run (Step o) {} as m) (hq : m.Enabled o (.call (.setQuit (some o)))) :
    m.QuitKept o ↔ m.worker = .looping := by
  constructor
  · intro hkept
    refine hq.2.1.resolve_left fun hpublished => ?_
    have henter := (hkept [.enter] _ (.single ⟨hpublished, rfl⟩)).1
    cases henter
  · intro hworker bs u hu
    obtain ⟨hor, hleaving⟩ := leaving_of_run (awake_of_run has) hq hworker hu
    refine ⟨hleaving.quit, by have := hleaving.polls; omega, fun hreturned => ?_⟩
    obtain hlooping | hexited := hor
    · obtain ⟨ls, loop, hrun, hstop, hls⟩ := RunningLoop.exists_run_stopped hleaving.quit
        hleaving.awake.caller (hleaving.wakeupFd hreturned)
      obtain ⟨v, hv, rfl, hvlooping⟩ := exists_run_call (o := o) hlooping hrun hls
      have hexit : Step o v .unpublish (v.exec o .unpublish) := ⟨⟨hvlooping, hstop⟩, rfl⟩
      refine ⟨ls.map .call ++ [.unpublish], v.exec o .unpublish, hv.snoc hexit, ?_, rfl⟩
      intro k hk
      obtain hk | hk := List.mem_append.mp hk
      · obtain ⟨l, hl, rfl⟩ := List.mem_map.mp hk
        exact hls l hl
      · rw [List.mem_singleton.mp hk]
        trivial
    · exact ⟨[], u, .nil, by simp, hexited⟩

/-- A request that comes while the worker blocks in `epoll_wait`. -/
theorem quitKept_iff_polling :
    let m : EventLoopThread Unit ℕ :=
      [.publish, .startLoop, .enter, .call .testQuit].foldl (exec ()) {}
    m.QuitKept () := by
  intro m
  have has : Run (Step ()) {} [.publish, .startLoop, .enter, .call .testQuit] m :=
    Run.of_allowed (show Run.Allowed (exec ()) (Enabled ()) ({} : EventLoopThread Unit ℕ)
      [.publish, .startLoop, .enter, .call .testQuit] by decide)
  exact (quitKept_iff has (by decide)).mpr rfl

/-- The owner destroys the thread between the publication and the start of `loop()`: the request is
    overwritten, the worker sleeps with an empty eventfd, and the owner waits in `join`. -/
theorem quit_lost :
    let m : EventLoopThread Unit ℕ := [.publish, .startLoop, .destroy].foldl (exec ()) {}
    let bs : List (ThreadStep Unit ℕ) := [.call (.wakeup (some ())), .enter, .call .testQuit,
      .call (.poll true), .call .handleRead, .call .setCalling, .call .swap, .call .clearCalling,
      .call .testQuit]
    let u := bs.foldl (exec ()) (m.exec () (.call (.setQuit (some ()))))
    Run (Step ()) (m.exec () (.call (.setQuit (some ())))) bs u ∧ u.owner = .joining ∧
      u.loop.quit = false ∧ u.loop.phase = .polling ∧ u.loop.wakeupFd = 0 ∧ ¬ m.QuitKept () := by
  intro m bs u
  have hrun : Run (Step ()) (m.exec () (.call (.setQuit (some ())))) bs u :=
    Run.of_allowed (show Run.Allowed (exec ()) (Enabled ())
      (m.exec () (.call (.setQuit (some ())))) bs by decide)
  have howner : u.owner = .joining := by decide
  refine ⟨hrun, howner, rfl, rfl, rfl, fun hkept => ?_⟩
  have hquit := (hkept bs u hrun).1
  cases hquit

end EventLoopThread

end AegisNet
