import AegisNet.Net.EventLoop.Wakeup

/-!
# Functors run once and in order

`doPendingFunctors` swaps the queue out under the mutex and calls what it has swapped out, while
any thread, and the functors themselves, go on pushing. What has been called, what is left of the
batch and what is queued are together the functors pushed so far.

## Main definitions

- `pushed` — the functors that a run pushes, in push order
- `RunningLoop.executed` — the functors that a run calls, in the order of the calls

## Main results

- `RunningLoop.executed_append_queued` — nothing is dropped, doubled or overtaken
- `RunningLoop.inCall_of_run` — one call of `doPendingFunctors` runs what is pending at its swap
- `RunningLoop.functors_once_in_order` — both, for every run
-/

namespace AegisNet

variable {ι F : Type*}

namespace WakeupStep

/-- The functor that a step pushes. -/
def pushes : WakeupStep ι F → Option F
  | push _ cb => some cb
  | _ => none

/-- The loop in `doPendingFunctors` goes on: it calls a functor, or the functor returns. -/
def InCall : WakeupStep ι F → Bool
  | callFunctor => true
  | functorReturns => true
  | _ => false

end WakeupStep

/-- The functors that the steps push, in push order. -/
def pushed (ls : List (WakeupStep ι F)) : List F := ls.filterMap WakeupStep.pushes

@[simp] theorem pushed_nil : pushed ([] : List (WakeupStep ι F)) = [] := rfl


theorem pushed_append (ls ms : List (WakeupStep ι F)) :
    pushed (ls ++ ms) = pushed ls ++ pushed ms :=
  List.filterMap_append

/-- In the loop of `doPendingFunctors`. -/
def LoopPhase.InBatch : LoopPhase → Prop
  | running => True
  | executing => True
  | _ => False

namespace RunningLoop

/-- The functor that a step calls. -/
def calls (s : RunningLoop ι F) : WakeupStep ι F → List F
  | .callFunctor => s.queues.functors.head?.toList
  | _ => []

/-- The local `functors` of `doPendingFunctors` is gone outside its loop. -/
def BatchDone (s : RunningLoop ι F) : Prop := ¬ s.phase.InBatch → s.queues.functors = []

variable [DecidableEq ι]

/-- The functors that the steps call, in the order of the calls. -/
def executed : RunningLoop ι F → List (WakeupStep ι F) → List F
  | _, [] => []
  | s, l :: ls => s.calls l ++ executed (s.exec l) ls

theorem executed_append (s : RunningLoop ι F) (ls ms : List (WakeupStep ι F)) :
    s.executed (ls ++ ms) = s.executed ls ++ (ls.foldl exec s).executed ms := by
  induction ls generalizing s with
  | nil => rfl
  | cons l ls ih => simp only [List.cons_append, executed, List.foldl_cons, ih, List.append_assoc]

theorem executed_concat {s s' : RunningLoop ι F} {ls : List (WakeupStep ι F)}
    (h : Run Step s ls s') (l : WakeupStep ι F) :
    s.executed (ls ++ [l]) = s.executed ls ++ s'.calls l := by
  rw [executed_append, ← h.eq_foldl]
  simp [executed]

theorem BatchDone.exec {s : RunningLoop ι F} {l : WakeupStep ι F} (h : s.BatchDone)
    (hl : s.Enabled l) : (s.exec l).BatchDone := by
  intro hout
  cases l with
  | push t cb => exact h hout
  | setQuit t => exact h hout
  | wakeup t => exact h hout
  | testQuit => exact h (by rw [show s.phase = _ from hl]; exact id)
  | poll wakeupActive => exact h (by rw [hl.1]; exact id)
  | handleRead => exact h (by rw [hl.1]; exact id)
  | setCalling => exact h (by rw [hl.1]; exact id)
  | swap => exact absurd trivial hout
  | callFunctor => exact absurd trivial hout
  | functorReturns => exact absurd trivial hout
  | clearCalling => exact hl.2

/-- A step takes what it calls from the front of the queues, and adds what it pushes at the back. -/
theorem calls_append_queued {s : RunningLoop ι F} {l : WakeupStep ι F} (h : s.BatchDone)
    (hl : s.Enabled l) :
    s.calls l ++ (s.exec l).queues.queued = s.queues.queued ++ pushed [l] := by
  cases l with
  | push t cb => exact EventLoop.queued_queueInLoop s.queues cb
  | swap =>
    have hdone : s.queues.functors = [] := h (by rw [show s.phase = _ from hl]; exact id)
    exact (EventLoop.queued_swapFunctors hdone).trans (List.append_nil _).symm
  | callFunctor =>
    obtain ⟨cb, rest, hcb⟩ := List.exists_cons_of_ne_nil hl.2
    simp [calls, RunningLoop.exec, EventLoop.queued, hcb, pushed, WakeupStep.pushes]
  | _ => exact (List.append_nil _).symm

theorem batchDone_of_run {s s' : RunningLoop ι F} {ls : List (WakeupStep ι F)}
    (h0 : s.BatchDone) (h : Run Step s ls s') : s'.BatchDone := by
  apply h.invariant h0
  rintro t l u ht ⟨hl, rfl⟩
  exact ht.exec hl

/-- What has been called, followed by what is still to be called, is what was pushed. -/
theorem executed_append_queued {s s' : RunningLoop ι F} {ls : List (WakeupStep ι F)}
    (h0 : s.BatchDone) (h : Run Step s ls s') :
    s.executed ls ++ s'.queues.queued = s.queues.queued ++ pushed ls := by
  refine h.history (P := fun ls s' => s.executed ls ++ s'.queues.queued =
    s.queues.queued ++ pushed ls) (by rw [pushed_nil, List.append_nil]; rfl) ?_
  rintro ls l t _ hrun ih ⟨hl, rfl⟩
  calc s.executed (ls ++ [l]) ++ (t.exec l).queues.queued
      = s.executed ls ++ (t.calls l ++ (t.exec l).queues.queued) := by
        rw [executed_concat hrun, List.append_assoc]
    _ = s.executed ls ++ t.queues.queued ++ pushed [l] := by
        rw [calls_append_queued (batchDone_of_run h0 hrun) hl, List.append_assoc]
    _ = s.queues.queued ++ pushed (ls ++ [l]) := by
        rw [ih, pushed_append, List.append_assoc]

/-- What holds in one call of `doPendingFunctors` after the swap of `batch`: the functors `ran`
    have been called and the rest of the batch is left, what was pushed since waits for the next
    call, and `n` steps were made, two for each functor. -/
structure InCall (batch ran since : List F) (n : ℕ) (s : RunningLoop ι F) : Prop where
  phase : s.phase.InBatch
  batch : ran ++ s.queues.functors = batch
  since : s.queues.pendingFunctors = since
  steps : n + (if s.phase = .executing then 1 else 0) = 2 * ran.length

omit [DecidableEq ι] in
/-- A step that leaves the queues and the loop thread alone. -/
theorem InCall.frame {batch ran since : List F} {n : ℕ} {s s' : RunningLoop ι F}
    (h : s.InCall batch ran since n) (hqueues : s'.queues = s.queues)
    (hphase : s'.phase = s.phase) : s'.InCall batch (ran ++ []) (since ++ []) (n + 0) := by
  rw [List.append_nil, List.append_nil, Nat.add_zero]
  exact ⟨hphase ▸ h.phase, hqueues ▸ h.batch, hqueues ▸ h.since, hphase ▸ h.steps⟩

theorem InCall.exec {batch ran since : List F} {n : ℕ} {s : RunningLoop ι F}
    (h : s.InCall batch ran since n) {l : WakeupStep ι F} (hl : s.Enabled l)
    (hend : l ≠ .clearCalling) :
    (s.exec l).InCall batch (ran ++ s.calls l) (since ++ pushed [l])
      (n + if l.InCall then 1 else 0) := by
  have hphase := h.phase
  have hsteps := h.steps
  cases l with
  | push t cb =>
    have hran : ran ++ s.calls (.push t cb) = ran := List.append_nil ran
    rw [hran]
    exact ⟨hphase, h.batch, congrArg (· ++ [cb]) h.since, hsteps⟩
  | callFunctor =>
    obtain ⟨cb, rest, hcb⟩ := List.exists_cons_of_ne_nil hl.2
    have hbatch := h.batch
    have hcalls : s.calls .callFunctor = [cb] := by simp [calls, hcb]
    have hsince : since ++ pushed [(.callFunctor : WakeupStep ι F)] = since := List.append_nil since
    rw [hcalls, hsince]
    refine ⟨trivial, ?_, h.since, ?_⟩
    · simpa [RunningLoop.exec, hcb] using hbatch
    · simp only [hl.1, reduceCtorEq, if_false] at hsteps
      simp only [RunningLoop.exec, WakeupStep.InCall, if_true, List.length_append,
        List.length_singleton]
      omega
  | functorReturns =>
    have hran : ran ++ s.calls .functorReturns = ran := List.append_nil ran
    have hsince : since ++ pushed [(.functorReturns : WakeupStep ι F)] = since :=
      List.append_nil since
    rw [hran, hsince]
    refine ⟨trivial, h.batch, h.since, ?_⟩
    rw [hl.1] at hsteps
    exact hsteps
  | setQuit t => exact h.frame rfl rfl
  | wakeup t => exact h.frame rfl rfl
  | testQuit => rw [show s.phase = _ from hl] at hphase; exact hphase.elim
  | poll wakeupActive => rw [hl.1] at hphase; exact hphase.elim
  | handleRead => rw [hl.1] at hphase; exact hphase.elim
  | setCalling => rw [hl.1] at hphase; exact hphase.elim
  | swap => rw [show s.phase = _ from hl] at hphase; exact hphase.elim
  | clearCalling => exact absurd rfl hend

/-- From the swap to the end of the call. -/
theorem inCall_of_run {s s' : RunningLoop ι F} {ls : List (WakeupStep ι F)}
    (h : Run Step (s.exec .swap) ls s') (hend : .clearCalling ∉ ls) :
    s'.InCall s.queues.pendingFunctors ((s.exec .swap).executed ls) (pushed ls)
      (ls.countP WakeupStep.InCall) := by
  refine h.history (P := fun ls s' => .clearCalling ∉ ls → s'.InCall s.queues.pendingFunctors
    ((s.exec .swap).executed ls) (pushed ls) (ls.countP WakeupStep.InCall)) ?_ ?_ hend
  · intro _
    exact ⟨trivial, rfl, rfl, rfl⟩
  · rintro ls l t _ hrun ih ⟨hl, rfl⟩ hend
    simp only [List.mem_append, List.mem_singleton, not_or] at hend
    rw [executed_concat hrun, pushed_append, List.countP_append]
    have hstep := (ih hend.1).exec hl (Ne.symm hend.2)
    cases hcall : l.InCall <;> simpa [hcall] using hstep

omit [DecidableEq ι] in
/-- In front of a functor, the batch is not finished and its next functor can be called, or it is
    finished and the call of `doPendingFunctors` ends. -/
theorem InCall.next {batch ran since : List F} {n : ℕ} {s : RunningLoop ι F}
    (h : s.InCall batch ran since n) (hphase : s.phase = .running) :
    s.Enabled .callFunctor ∧ ran ≠ batch ∨ s.Enabled .clearCalling ∧ ran = batch := by
  have hbatch := h.batch
  by_cases hnil : s.queues.functors = []
  · rw [hnil, List.append_nil] at hbatch
    exact .inr ⟨⟨hphase, hnil⟩, hbatch⟩
  · refine .inl ⟨⟨hphase, hnil⟩, fun hran => hnil ?_⟩
    rw [← hran] at hbatch
    exact List.append_right_eq_self.mp hbatch

omit [DecidableEq ι] in
theorem InCall.steps_le {batch ran since : List F} {n : ℕ} {s : RunningLoop ι F}
    (h : s.InCall batch ran since n) : n ≤ 2 * batch.length := by
  have hsteps := h.steps
  have hlength : ran.length + s.queues.functors.length = batch.length := by
    rw [← List.length_append, h.batch]
  omega

/-- For every interleaving of pushes with the steps of the loop thread: the functors called so far,
    the rest of the current batch and `pendingFunctors_` are the functors pushed so far, in push
    order. One call of `doPendingFunctors`, whatever is pushed during it, runs what was pending at
    its swap, takes at most two steps of its own for each of these functors, and then ends. -/
theorem functors_once_in_order {s s' : RunningLoop ι F} {ls : List (WakeupStep ι F)}
    (hbatch : s.queues.functors = []) (h : Run Step s ls s') :
    s.executed ls ++ s'.queues.functors ++ s'.queues.pendingFunctors =
        s.queues.pendingFunctors ++ pushed ls ∧
      ∀ as t bs, ls = as ++ .swap :: bs → Run Step s as t → .clearCalling ∉ bs →
        (t.exec .swap).executed bs ++ s'.queues.functors = t.queues.pendingFunctors ∧
        s'.queues.pendingFunctors = pushed bs ∧
        bs.countP WakeupStep.InCall ≤ 2 * t.queues.pendingFunctors.length ∧
        (s'.phase = .running →
          s'.Enabled .callFunctor ∧ (t.exec .swap).executed bs ≠ t.queues.pendingFunctors ∨
          s'.Enabled .clearCalling ∧ (t.exec .swap).executed bs = t.queues.pendingFunctors) := by
  constructor
  · have hall := executed_append_queued (fun _ => hbatch) h
    rwa [EventLoop.queued, EventLoop.queued, hbatch, List.nil_append, ← List.append_assoc] at hall
  · rintro as t bs rfl has hend
    obtain ⟨t₁, t₂, has', ⟨_, rfl⟩, hbs⟩ := h.cut
    have ht : t₁ = t := has'.eq_foldl.trans has.eq_foldl.symm
    subst ht
    have hcall := inCall_of_run hbs hend
    exact ⟨hcall.batch, hcall.since, hcall.steps_le, hcall.next⟩

/-- A functor that queues itself again, while another thread pushes. -/
theorem functors_once_in_order_requeue :
    let s : RunningLoop Unit ℕ := {}
    let as : List (WakeupStep Unit ℕ) := [.push (some ()) 1, .wakeup (some ()), .testQuit,
      .poll true, .handleRead, .setCalling]
    let bs : List (WakeupStep Unit ℕ) := [.callFunctor, .push none 1, .wakeup none,
      .push (some ()) 2, .functorReturns]
    let t := as.foldl exec s
    let s' := (as ++ .swap :: bs).foldl exec s
    s.executed (as ++ .swap :: bs) = [1] ∧ s'.queues.pendingFunctors = [1, 2] ∧
      (t.exec .swap).executed bs ++ s'.queues.functors = t.queues.pendingFunctors := by
  intro s as bs t s'
  have hrun : Run Step s (as ++ .swap :: bs) s' :=
    Run.of_allowed (show Run.Allowed exec Enabled s (as ++ .swap :: bs) by decide)
  have has : Run Step s as t := Run.of_allowed (show Run.Allowed exec Enabled s as by decide)
  exact ⟨rfl, rfl, ((functors_once_in_order rfl hrun).2 as t bs rfl has (by simp [bs])).1⟩

end RunningLoop

end AegisNet
