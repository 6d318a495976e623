import AegisNet.Net.EventLoop.Batches

/-!
# What a quitting loop leaves undone

`loop()` tests `quit_` once in each iteration, after the batch that was swapped out before. A
functor is called if and only if a swap comes after its push, and after a `quit()` there is at most
one more swap: the one of the iteration that is past its test of `quit_`.

## Main definitions

- `LoopPhase.BeforeSwap` — between the test of `quit_` and the swap
- `RunningLoop.AcceptedExecuted` — what is accepted before `quit()` is called by the end

## Main results

- `RunningLoop.getElem?_executed_iff` — a functor is called if and only if it is swapped out
- `RunningLoop.acceptedExecuted_iff` — when a quitting loop leaves nothing undone
-/

namespace AegisNet

variable {ι F : Type*}

/-- Between the test of `quit_` and the swap of the same iteration. -/
def LoopPhase.BeforeSwap : LoopPhase → Prop
  | polling => True
  | dispatching _ => True
  | swapping => True
  | _ => False

instance : DecidablePred LoopPhase.BeforeSwap
  | .polling | .dispatching _ | .swapping => .isTrue trivial
  | .looping | .running | .executing | .stopped => .isFalse id

namespace RunningLoop

variable [DecidableEq ι]

/-- Every functor whose call of `queueInLoop` returns in the steps `as` is called in the steps `ls`.
    The place of a functor among those that are called is its place among those that are
    pushed. -/
def AcceptedExecuted (s : RunningLoop ι F) (as ls : List (WakeupStep ι F)) : Prop :=
  ∀ before t cb after, as = before ++ .push t cb :: after → .wakeup t ∈ after →
    (s.executed ls)[(pushed before).length]? = some cb

/-- Without a swap the queue only grows. -/
theorem pendingFunctors_of_run {s s' : RunningLoop ι F} {ls : List (WakeupStep ι F)}
    (h : Run Step s ls s') (hswap : .swap ∉ ls) :
    s'.queues.pendingFunctors = s.queues.pendingFunctors ++ pushed ls := by
  refine h.history (P := fun ls s' => .swap ∉ ls →
    s'.queues.pendingFunctors = s.queues.pendingFunctors ++ pushed ls) (by simp) ?_ hswap
  rintro ls l t _ _ ih ⟨_, rfl⟩ hswap
  simp only [List.mem_append, List.mem_singleton, not_or] at hswap
  rw [pushed_append, ← List.append_assoc, ← ih hswap.1]
  cases l with
  | push t cb => rfl
  | swap => exact absurd rfl hswap.2
  | _ => exact (List.append_nil _).symm

/-- What is queued at the end was pushed last. -/
theorem pendingFunctors_suffix {s s' : RunningLoop ι F} {ls : List (WakeupStep ι F)}
    (h : Run Step s ls s') :
    s'.queues.pendingFunctors <:+ s.queues.pendingFunctors ++ pushed ls := by
  refine h.history (P := fun ls s' =>
    s'.queues.pendingFunctors <:+ s.queues.pendingFunctors ++ pushed ls) (by simp) ?_
  rintro ls l t _ _ ih ⟨_, rfl⟩
  rw [pushed_append, ← List.append_assoc]
  cases l with
  | push t cb => exact (List.suffix_append_inj_of_length_eq rfl).mpr ⟨ih, rfl⟩
  | swap => exact List.nil_suffix
  | _ => exact (List.append_nil _).symm ▸ ih

/-- When the loop is not in a batch, a functor has been called if and only if a swap came after its
    push. -/
theorem getElem?_executed_iff {s s' : RunningLoop ι F} {before after : List (WakeupStep ι F)}
    {t : Option ι} {cb : F} (hempty : s.queues = {})
    (h : Run Step s (before ++ .push t cb :: after) s') (hdone : s'.queues.functors = []) :
    (s.executed (before ++ .push t cb :: after))[(pushed before).length]? = some cb ↔
      .swap ∈ after := by
  have hs : s.BatchDone := fun _ => by rw [hempty]
  -- the functor is called once the queue is no longer than what was pushed after it
  have hall : s.executed (before ++ .push t cb :: after) ++ s'.queues.pendingFunctors =
      pushed before ++ cb :: pushed after := by
    have := executed_append_queued hs h
    rw [EventLoop.queued, hdone, List.nil_append, hempty] at this
    simpa [EventLoop.queued, pushed, WakeupStep.pushes] using this
  have hlength := congrArg List.length hall
  simp only [List.length_append, List.length_cons] at hlength
  have hplace : (s.executed (before ++ .push t cb :: after))[(pushed before).length]? = some cb ↔
      s'.queues.pendingFunctors.length ≤ (pushed after).length := by
    constructor
    · intro hget
      have hlt := (List.getElem?_eq_some_iff.mp hget).1
      omega
    · intro hle
      have hget := congrArg (·[(pushed before).length]?) hall
      rw [List.getElem?_append_left (by omega)] at hget
      simpa using hget
  obtain ⟨u, v, hbefore, ⟨_, rfl⟩, hafter⟩ := h.cut
  rw [hplace]
  constructor
  · intro hle
    by_contra hswap
    have hgrow := congrArg List.length (pendingFunctors_of_run hafter hswap)
    simp only [RunningLoop.exec, EventLoop.queueInLoop, setThread, List.length_append,
      List.length_singleton] at hgrow
    omega
  · intro hswap
    obtain ⟨front, back, rfl⟩ := List.append_of_mem hswap
    obtain ⟨w, x, _, ⟨_, rfl⟩, hback⟩ := hafter.cut
    have hsuffix := (pendingFunctors_suffix hback).length_le
    simp only [pushed_append, List.length_append]
    rw [show (w.exec .swap).queues.pendingFunctors = [] from rfl, List.nil_append] at hsuffix
    have hcons : (pushed (.swap :: back)).length = (pushed back).length := rfl
    omega

/-- Once `quit_` is set, the loop thread makes no swap if it is past the swap of its iteration. -/
theorem swap_notMem_of_quit {s s' : RunningLoop ι F} {ls : List (WakeupStep ι F)}
    (h : Run Step s ls s') (hquit : s.quit = true) (hphase : ¬ s.phase.BeforeSwap) :
    .swap ∉ ls := by
  refine (h.history (P := fun ls s' => s'.quit = true ∧ ¬ s'.phase.BeforeSwap ∧ .swap ∉ ls)
    ⟨hquit, hphase, by simp⟩ ?_).2.2
  rintro ls l t _ _ ⟨htquit, htphase, hswap⟩ ⟨hl, rfl⟩
  cases l with
  | push u cb => exact ⟨htquit, htphase, by simpa using hswap⟩
  | setQuit u => exact ⟨rfl, htphase, by simpa using hswap⟩
  | wakeup u => exact ⟨htquit, htphase, by simpa using hswap⟩
  | testQuit =>
    refine ⟨htquit, ?_, by simpa using hswap⟩
    simp [RunningLoop.exec, htquit, LoopPhase.BeforeSwap]
  | poll wakeupActive => exact absurd (by rw [hl.1]; trivial) htphase
  | handleRead => exact absurd (by rw [hl.1]; trivial) htphase
  | setCalling => exact absurd (by rw [hl.1]; trivial) htphase
  | swap => exact absurd (by rw [show t.phase = _ from hl]; trivial) htphase
  | callFunctor => exact ⟨htquit, id, by simpa using hswap⟩
  | functorReturns => exact ⟨htquit, id, by simpa using hswap⟩
  | clearCalling => exact ⟨htquit, id, by simpa using hswap⟩

/-- The loop does not stop between its test of `quit_` and the swap. -/
theorem swap_mem_of_stopped {s s' : RunningLoop ι F} {ls : List (WakeupStep ι F)}
    (h : Run Step s ls s') (hphase : s.phase.BeforeSwap) (hstop : s'.phase = .stopped) :
    .swap ∈ ls := by
  have hor : s'.phase.BeforeSwap ∨ .swap ∈ ls := by
    refine h.history (P := fun ls s' => s'.phase.BeforeSwap ∨ .swap ∈ ls) (.inl hphase) ?_
    rintro ls l t _ _ (ht | hswap) ⟨hl, rfl⟩
    · cases l with
      | push u cb => exact .inl ht
      | setQuit u => exact .inl ht
      | wakeup u => exact .inl ht
      | testQuit => rw [show t.phase = _ from hl] at ht; exact ht.elim
      | poll wakeupActive => exact .inl trivial
      | handleRead => exact .inl trivial
      | setCalling => exact .inl trivial
      | swap => exact .inr (by simp)
      | callFunctor => rw [hl.1] at ht; exact ht.elim
      | functorReturns => rw [hl.1] at ht; exact ht.elim
      | clearCalling => rw [hl.1] at ht; exact ht.elim
    · exact .inr (List.mem_append_left _ hswap)
  rw [hstop] at hor
  exact hor.resolve_left id

theorem swap_mem_iff_of_quit {s s' : RunningLoop ι F} {ls : List (WakeupStep ι F)}
    (h : Run Step s ls s') (hquit : s.quit = true) (hstop : s'.phase = .stopped) :
    .swap ∈ ls ↔ s.phase.BeforeSwap := by
  constructor
  · intro hswap
    by_contra hphase
    exact swap_notMem_of_quit h hquit hphase hswap
  · exact fun hphase => swap_mem_of_stopped h hphase hstop

/-- A loop that leaves on a `quit()` has called every functor accepted before, if and only if the
    loop thread was between its test of `quit_` and the swap of that iteration when `quit_` was set,
    or had swapped out, by then, every accepted functor. -/
theorem acceptedExecuted_iff {s m s' : RunningLoop ι F} {as bs : List (WakeupStep ι F)}
    {t : Option ι} (hempty : s.queues = {}) (has : Run Step s as m)
    (h : Run Step s (as ++ .setQuit t :: bs) s') (hstop : s'.phase = .stopped) :
    s.AcceptedExecuted as (as ++ .setQuit t :: bs) ↔
      m.phase.BeforeSwap ∨
        ∀ before u cb after, as = before ++ .push u cb :: after → .wakeup u ∈ after →
          .swap ∈ after := by
  have hs : s.BatchDone := fun _ => by rw [hempty]
  have hdone : s'.queues.functors = [] := batchDone_of_run hs h (by rw [hstop]; exact id)
  obtain ⟨m', _, has', ⟨_, rfl⟩, hbs⟩ := h.cut
  obtain rfl : m' = m := has'.eq_foldl.trans has.eq_foldl.symm
  have hlate : .swap ∈ bs ↔ m'.phase.BeforeSwap :=
    swap_mem_iff_of_quit (s := m'.exec (.setQuit t)) hbs rfl hstop
  -- functor by functor
  have hone : ∀ before u cb after, as = before ++ .push u cb :: after →
      ((s.executed (as ++ .setQuit t :: bs))[(pushed before).length]? = some cb ↔
        .swap ∈ after ∨ m'.phase.BeforeSwap) := by
    rintro before u cb after rfl
    rw [List.append_assoc, List.cons_append] at h ⊢
    rw [getElem?_executed_iff hempty h hdone]
    simp [hlate]
  constructor
  · intro hall
    by_cases hphase : m'.phase.BeforeSwap
    · exact .inl hphase
    · exact .inr fun before u cb after heq hret =>
        ((hone before u cb after heq).mp (hall before u cb after heq hret)).resolve_right hphase
  · rintro hor before u cb after heq hret
    exact (hone before u cb after heq).mpr
      (hor.symm.imp_left fun hswap => hswap before u cb after heq hret)

/-- A functor that is queued while the loop handles events, where a `quit()` follows. -/
theorem acceptedExecuted_iff_dispatching :
    let s : RunningLoop Unit ℕ := {}
    let as : List (WakeupStep Unit ℕ) := [.testQuit, .poll false, .push (some ()) 7,
      .wakeup (some ())]
    let bs : List (WakeupStep Unit ℕ) := [.setCalling, .swap, .callFunctor, .functorReturns,
      .clearCalling, .testQuit]
    s.AcceptedExecuted as (as ++ .setQuit (some ()) :: bs) := by
  intro s as bs
  have has : Run Step s as (as.foldl exec s) :=
    Run.of_allowed (show Run.Allowed exec Enabled s as by decide)
  have hrun : Run Step s (as ++ .setQuit (some ()) :: bs)
      ((as ++ .setQuit (some ()) :: bs).foldl exec s) :=
    Run.of_allowed (show Run.Allowed exec Enabled s (as ++ .setQuit (some ()) :: bs) by decide)
  exact (acceptedExecuted_iff rfl has hrun rfl).mpr (.inl trivial)

/-- A functor that is queued while the loop runs a batch, where a `quit()` follows: the loop
    leaves without calling it. -/
theorem accepted_dropped :
    let s : RunningLoop Unit ℕ := {}
    let as : List (WakeupStep Unit ℕ) := [.testQuit, .poll false, .setCalling, .swap,
      .push (some ()) 7, .wakeup (some ())]
    let ls : List (WakeupStep Unit ℕ) := as ++ [.setQuit (some ()), .wakeup (some ()),
      .clearCalling, .testQuit]
    let s' := ls.foldl exec s
    Run Step s ls s' ∧ s'.phase = .stopped ∧ s.executed ls = [] ∧ ¬ s.AcceptedExecuted as ls := by
  intro s as ls s'
  refine ⟨Run.of_allowed (show Run.Allowed exec Enabled s ls by decide), rfl, rfl, fun hall => ?_⟩
  have hget := hall [.testQuit, .poll false, .setCalling, .swap] (some ()) 7 [.wakeup (some ())]
    rfl (by simp)
  cases hget

end RunningLoop

end AegisNet
