import AegisNet.Net.EventLoop
import AegisNet.Lib.Run
import Mathlib.Logic.Function.Basic
import Mathlib.Tactic.Common

/-!
# No lost wakeup

`EventLoop::loop` blocks in `epoll_wait` until the eventfd counter, or another descriptor, becomes
ready. `queueInLoop` makes two steps: the push under the mutex, and then the write to the eventfd,
which the loop thread leaves out unless `callingPendingFunctors_` is set. Here the loop goes through
its iteration step by step while any number of threads push, write and quit.

## Main definitions

- `LoopPhase` — where the loop thread is in its iteration
- `RunningLoop` — the queue, the flags, the eventfd counter, and where each thread is in its call
- `RunningLoop.exec`, `RunningLoop.Enabled` — the steps of the loop and of the callers
- `RunningLoop.Awake` — what keeps the loop from sleeping over queued work

## Main results

- `RunningLoop.no_lost_wakeup` — in front of `epoll_wait`, queued work has its wakeup
-/

namespace AegisNet

/-- The largest value of an eventfd counter. A non-blocking write that would exceed it fails. -/
def eventfdMax : ℕ := 0xFFFFFFFFFFFFFFFE

/-- `::write` of the value one to the eventfd. -/
def eventfdWrite (counter : ℕ) : ℕ := if counter + 1 ≤ eventfdMax then counter + 1 else counter

theorem eventfdWrite_ne_zero (counter : ℕ) : eventfdWrite counter ≠ 0 := by
  rw [eventfdWrite, eventfdMax]
  split <;> omega

/-- Where the loop thread is in `loop()`. -/
inductive LoopPhase
  /-- in front of the test of `quit_` -/
  | looping
  /-- in front of `epoll_wait` -/
  | polling
  /-- calling handlers; the wakeup channel is active and its handler has not run yet -/
  | dispatching (wakeupActive : Bool)
  /-- in `doPendingFunctors`, in front of the swap -/
  | swapping
  /-- in front of the next functor of the batch -/
  | running
  /-- inside a functor of the batch -/
  | executing
  | stopped
  deriving DecidableEq, Repr

namespace LoopPhase

/-- The loop thread is inside a handler or a functor, which may call into the loop. -/
def MayCall : LoopPhase → Prop
  | dispatching _ => True
  | executing => True
  | _ => False

instance : DecidablePred MayCall := fun p => by
  cases p <;> unfold MayCall <;> infer_instance

/-- The next swap comes after the next `epoll_wait`. -/
def Swapped : LoopPhase → Prop
  | dispatching _ => False
  | swapping => False
  | _ => True

end LoopPhase

/-- Where a thread is in `queueInLoop` or `quit`: between the locked push, or the store to `quit_`,
    and the test in front of `wakeup()`. -/
inductive CallPhase
  | idle
  | pushed
  | quitting
  deriving DecidableEq, Repr

/-- An event loop and the threads that call into it; `none` is the loop thread. -/
structure RunningLoop (ι F : Type*) where
  queues : EventLoop F := {}
  callingPendingFunctors : Bool := false
  quit : Bool := false
  wakeupFd : ℕ := 0
  phase : LoopPhase := .looping
  threads : Option ι → CallPhase := fun _ => .idle

inductive WakeupStep (ι F : Type*)
  /-- the locked region of `queueInLoop` -/
  | push (t : Option ι) (cb : F)
  /-- the store of `quit` -/
  | setQuit (t : Option ι)
  /-- the rest of `queueInLoop` or `quit`: the test and the eventfd write -/
  | wakeup (t : Option ι)
  | testQuit
  /-- `epoll_wait` returns, with or without the wakeup channel among the active ones -/
  | poll (wakeupActive : Bool)
  /-- the handler of the wakeup channel -/
  | handleRead
  /-- all handlers have returned; `callingPendingFunctors_ = true` -/
  | setCalling
  | swap
  | callFunctor
  | functorReturns
  /-- the batch is done; `callingPendingFunctors_ = false` -/
  | clearCalling

namespace RunningLoop

variable {ι F : Type*}

/-- `!isInLoopThread() || callingPendingFunctors_` in `queueInLoop`, `!isInLoopThread()` in
    `quit`. -/
def needsWakeup (s : RunningLoop ι F) (t : Option ι) : Bool :=
  match s.threads t with
  | .idle => false
  | .pushed => t.isSome || s.callingPendingFunctors
  | .quitting => t.isSome

variable [DecidableEq ι]

def setThread (s : RunningLoop ι F) (t : Option ι) (c : CallPhase) : RunningLoop ι F :=
  { s with threads := Function.update s.threads t c }

def exec (s : RunningLoop ι F) : WakeupStep ι F → RunningLoop ι F
  | .push t cb => { s.setThread t .pushed with queues := s.queues.queueInLoop cb }
  | .setQuit t => { s.setThread t .quitting with quit := true }
  | .wakeup t =>
    { s.setThread t .idle with
      wakeupFd := if s.needsWakeup t then eventfdWrite s.wakeupFd else s.wakeupFd }
  | .testQuit => { s with phase := if s.quit then .stopped else .polling }
  | .poll wakeupActive => { s with phase := .dispatching wakeupActive }
  | .handleRead => { s with wakeupFd := 0, phase := .dispatching false }
  | .setCalling => { s with callingPendingFunctors := true, phase := .swapping }
  | .swap => { s with queues := s.queues.swapFunctors, phase := .running }
  | .callFunctor =>
    { s with queues := { s.queues with functors := s.queues.functors.tail }, phase := .executing }
  | .functorReturns => { s with phase := .running }
  | .clearCalling => { s with callingPendingFunctors := false, phase := .looping }

/-- A thread makes one call at a time, the loop thread only from inside a handler or a functor. The
    wakeup channel is active only if the counter is not zero. -/
def Enabled (s : RunningLoop ι F) : WakeupStep ι F → Prop
  | .push t _ => s.threads t = .idle ∧ (t = none → s.phase.MayCall)
  | .setQuit t => s.threads t = .idle ∧ (t = none → s.phase.MayCall)
  | .wakeup t => s.threads t ≠ .idle
  | .testQuit => s.phase = .looping
  | .poll wakeupActive => s.phase = .polling ∧ (wakeupActive = true → s.wakeupFd ≠ 0)
  | .handleRead => s.phase = .dispatching true ∧ s.threads none = .idle
  | .setCalling => s.phase = .dispatching false ∧ s.threads none = .idle
  | .swap => s.phase = .swapping
  | .callFunctor => s.phase = .running ∧ s.queues.functors ≠ []
  | .functorReturns => s.phase = .executing ∧ s.threads none = .idle
  | .clearCalling => s.phase = .running ∧ s.queues.functors = []

instance [DecidableEq F] (s : RunningLoop ι F) : DecidablePred s.Enabled := fun l => by
  cases l <;> unfold Enabled <;> infer_instance

def Step (s : RunningLoop ι F) (l : WakeupStep ι F) (s' : RunningLoop ι F) : Prop :=
  s.Enabled l ∧ s' = s.exec l

/-- `loop()` is entered with an empty queue. -/
def Entered (s : RunningLoop ι F) : Prop :=
  s.phase = .looping ∧ s.queues.pendingFunctors = [] ∧ s.threads none = .idle

/-- What holds at every step: the loop thread makes its calls inside handlers and functors, the
    flag is set while a functor runs, and what is pushed after the swap has its wakeup written
    or still to be written. -/
structure Awake (s : RunningLoop ι F) : Prop where
  caller : s.threads none ≠ .idle → s.phase.MayCall
  calling : s.phase = .executing ∨ s.phase = .running ∨ s.phase = .swapping →
    s.callingPendingFunctors = true
  wakeup : s.phase.Swapped → s.queues.pendingFunctors ≠ [] →
    s.wakeupFd ≠ 0 ∨ ∃ t, s.threads t = .pushed

omit [DecidableEq ι] in
theorem Entered.awake {s : RunningLoop ι F} (h : s.Entered) : s.Awake where
  caller := fun hne => absurd h.2.2 hne
  calling := by simp [h.1]
  wakeup := fun _ hne => absurd h.2.1 hne

omit [DecidableEq ι] in
theorem Awake.idle {s : RunningLoop ι F} (h : s.Awake) (hp : ¬ s.phase.MayCall) :
    s.threads none = .idle :=
  not_not.mp fun hne => hp (h.caller hne)

omit [DecidableEq ι] in
/-- Between the swap and the next one, no call of `queueInLoop` ends without a write. -/
theorem Awake.needsWakeup {s : RunningLoop ι F} (h : s.Awake) (hsw : s.phase.Swapped)
    {t : Option ι} (ht : s.threads t = .pushed) : s.needsWakeup t = true := by
  cases t with
  | some i => simp [RunningLoop.needsWakeup, ht]
  | none =>
    have hmay : s.phase.MayCall := h.caller (by simp [ht])
    have hexec : s.phase = .executing := by
      cases hp : s.phase <;> simp [hp, LoopPhase.MayCall, LoopPhase.Swapped] at hmay hsw ⊢
    simp [RunningLoop.needsWakeup, ht, h.calling (.inl hexec)]

theorem Awake.exec_wakeup {s : RunningLoop ι F} (h : s.Awake) {t : Option ι}
    (ht : s.threads t ≠ .idle) : (s.exec (.wakeup t)).Awake := by
  have hothers : ∀ u, u ≠ t → (s.exec (.wakeup t)).threads u = s.threads u := fun u hu =>
    Function.update_of_ne hu _ _
  have hfd : (s.exec (.wakeup t)).wakeupFd =
      if s.needsWakeup t then eventfdWrite s.wakeupFd else s.wakeupFd := rfl
  refine ⟨fun hne => ?_, h.calling, fun hsw hpend => ?_⟩
  · by_cases hnone : none = t
    · subst hnone
      exact h.caller ht
    · exact h.caller (by rwa [hothers none hnone] at hne)
  · rw [hfd]
    by_cases hneed : s.needsWakeup t = true
    · left
      rw [if_pos hneed]
      exact eventfdWrite_ne_zero _
    · rw [if_neg hneed]
      obtain hfd | ⟨u, hu⟩ := h.wakeup hsw hpend
      · exact .inl hfd
      · -- the call that ends here without a write is none that has pushed
        have hut : u ≠ t := by
          rintro rfl
          exact hneed (h.needsWakeup hsw hu)
        exact .inr ⟨u, by rw [hothers u hut, hu]⟩

/-- A thread that begins a call takes no wakeup away. -/
theorem Awake.setThread {s : RunningLoop ι F} (h : s.Awake) {t : Option ι} {c : CallPhase}
    (ht : s.threads t = .idle) (hmay : t = none → s.phase.MayCall) : (s.setThread t c).Awake := by
  refine ⟨fun hne => ?_, h.calling, fun hsw hpend => ?_⟩
  · by_cases hnone : none = t
    · exact hmay hnone.symm
    · refine h.caller fun hidle => hne ?_
      exact (Function.update_of_ne hnone _ _).trans hidle
  · obtain hfd | ⟨u, hu⟩ := h.wakeup hsw hpend
    · exact .inl hfd
    · have hut : u ≠ t := by
        rintro rfl
        rw [ht] at hu
        cases hu
      exact .inr ⟨u, (Function.update_of_ne hut _ _).trans hu⟩

/-- Every step keeps the loop awake. -/
theorem Awake.exec {s : RunningLoop ι F} (h : s.Awake) {l : WakeupStep ι F} (hl : s.Enabled l) :
    (s.exec l).Awake := by
  cases l with
  | push t cb =>
    have ht := h.setThread (c := .pushed) hl.1 hl.2
    -- its own wakeup is still to come
    exact ⟨ht.caller, ht.calling, fun _ _ => .inr ⟨t, Function.update_self _ _ _⟩⟩
  | setQuit t =>
    have ht := h.setThread (c := .quitting) hl.1 hl.2
    exact ⟨ht.caller, ht.calling, ht.wakeup⟩
  | wakeup t => exact h.exec_wakeup hl
  | testQuit =>
    have hidle := h.idle (show ¬ s.phase.MayCall by rw [show s.phase = _ from hl]; exact id)
    have hsw : s.phase.Swapped := by rw [show s.phase = _ from hl]; trivial
    refine ⟨fun hne => absurd hidle hne, ?_, fun _ => h.wakeup hsw⟩
    cases hq : s.quit <;> simp [RunningLoop.exec, hq]
  | poll wakeupActive => exact ⟨fun _ => trivial, by simp [RunningLoop.exec], fun hsw => hsw.elim⟩
  | handleRead => exact ⟨fun _ => trivial, by simp [RunningLoop.exec], fun hsw => hsw.elim⟩
  | setCalling => exact ⟨fun hne => absurd hl.2 hne, fun _ => rfl, fun hsw => hsw.elim⟩
  | swap =>
    have hidle := h.idle (show ¬ s.phase.MayCall by rw [show s.phase = _ from hl]; exact id)
    exact ⟨fun hne => absurd hidle hne, fun _ => h.calling (.inr (.inr hl)),
      fun _ hpend => absurd rfl hpend⟩
  | callFunctor =>
    have hsw : s.phase.Swapped := by rw [hl.1]; trivial
    exact ⟨fun _ => trivial, fun _ => h.calling (.inr (.inl hl.1)), fun _ => h.wakeup hsw⟩
  | functorReturns =>
    have hsw : s.phase.Swapped := by rw [hl.1]; trivial
    exact ⟨fun hne => absurd hl.2 hne, fun _ => h.calling (.inl hl.1), fun _ => h.wakeup hsw⟩
  | clearCalling =>
    have hidle := h.idle (show ¬ s.phase.MayCall by rw [hl.1]; exact id)
    have hsw : s.phase.Swapped := by rw [hl.1]; trivial
    exact ⟨fun hne => absurd hidle hne, by simp [RunningLoop.exec], fun _ => h.wakeup hsw⟩

theorem awake_of_run {s s' : RunningLoop ι F} {ls : List (WakeupStep ι F)} (h0 : s.Entered)
    (h : Run Step s ls s') : s'.Awake := by
  apply h.invariant h0.awake
  rintro t l u ht ⟨hl, rfl⟩
  exact ht.exec hl

/-- No wakeup is lost: whenever the loop thread is about to block in `epoll_wait` and functors are
    queued, the eventfd counter is not zero, or another thread has pushed and is still to write. -/
theorem no_lost_wakeup {s s' : RunningLoop ι F} {ls : List (WakeupStep ι F)} (h0 : s.Entered)
    (h : Run Step s ls s') (hphase : s'.phase = .polling)
    (hqueue : s'.queues.pendingFunctors ≠ []) :
    s'.wakeupFd ≠ 0 ∨ ∃ i : ι, s'.threads (some i) = .pushed := by
  have hawake := awake_of_run h0 h
  have hidle := hawake.idle (show ¬ s'.phase.MayCall by rw [hphase]; exact id)
  obtain hfd | ⟨t, ht⟩ := hawake.wakeup (by rw [hphase]; trivial) hqueue
  · exact .inl hfd
  · cases t with
    | none => rw [hidle] at ht; cases ht
    | some i => exact .inr ⟨i, ht⟩

/-- A push between the swap and the clearing of the flag, not yet followed by its write. -/
theorem no_lost_wakeup_window :
    let s : RunningLoop Unit ℕ := {}
    let ls : List (WakeupStep Unit ℕ) := [.testQuit, .poll false, .setCalling, .swap,
      .push (some ()) 7, .clearCalling, .testQuit]
    let s' := ls.foldl exec s
    s'.queues.pendingFunctors = [7] ∧ (s'.wakeupFd ≠ 0 ∨ ∃ i, s'.threads (some i) = .pushed) := by
  intro s ls s'
  have hrun : Run Step s ls s' :=
    Run.of_allowed (show Run.Allowed exec Enabled s ls by decide)
  exact ⟨rfl, no_lost_wakeup ⟨rfl, rfl, rfl⟩ hrun rfl (by decide)⟩

end RunningLoop

end AegisNet
