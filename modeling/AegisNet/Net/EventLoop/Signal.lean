import AegisNet.Pool.EventLoopThread

/-!
# Ending the server by a signal

`signalHandler` in `src/main.cpp` calls `g_loop->quit()`. The handler runs on the thread of the loop,
between any two of its steps, so `quit` only stores its flag and writes nothing to the eventfd.
A thread that sleeps in `epoll_wait` is woken by the signal itself, which makes the call fail with
`EINTR`, and the loop goes on with no active channels. Between the test of `quit_` and the call of
`epoll_wait` there is nothing to wake.

## Main definitions

- `SignalLoop` — the loop, and whether its thread is inside `epoll_wait`
- `SignalLoop.Noticed` — a signal that ends the loop

## Main results

- `SignalLoop.noticed_iff` — a signal is lost in front of `epoll_wait`, if the eventfd is not ready,
  and before `loop()`
-/

namespace AegisNet

variable {ι F : Type*}

/-- The thread of `main` with its loop. -/
structure SignalLoop (ι F : Type*) where
  loop : RunningLoop ι F := {}
  /-- `loop()` has stored `quit_ = false`. -/
  entered : Bool := false
  /-- inside `epoll_wait` -/
  blocked : Bool := false

inductive SignalStep (ι F : Type*)
  /-- `quit_ = false` at the start of `loop()` -/
  | enter
  /-- the thread is in `epoll_wait` now -/
  | enterPoll
  /-- a step in the loop -/
  | loop (l : WakeupStep ι F)
  /-- `signalHandler` runs -/
  | signal

namespace SignalStep

/-- A step that the loop thread makes on its own, without a further signal. -/
def Unaided : SignalStep ι F → Prop
  | enter | enterPoll => True
  | loop l => l.Unaided
  | signal => False

def isPoll : SignalStep ι F → Bool
  | loop l => l.IsPoll
  | _ => false

end SignalStep

namespace SignalLoop

variable [DecidableEq ι]

def exec (s : SignalLoop ι F) : SignalStep ι F → SignalLoop ι F
  | .enter => { s with loop := { s.loop with quit := false }, entered := true }
  | .enterPoll => { s with blocked := true }
  | .loop l => { s with loop := s.loop.exec l, blocked := if l.IsPoll then false else s.blocked }
  | .signal =>
    if s.blocked then
      { s with loop := { s.loop with quit := true, phase := .dispatching false }, blocked := false }
    else { s with loop := { s.loop with quit := true } }

/-- The loop thread is in `loop()`; `epoll_wait` returns only to a thread that has called it. -/
def Enabled (s : SignalLoop ι F) : SignalStep ι F → Prop
  | .enter => s.entered = false
  | .enterPoll => s.entered = true ∧ s.loop.phase = .polling ∧ s.blocked = false
  | .loop l =>
    s.loop.Enabled l ∧ (l.caller = none → s.entered = true) ∧ (l.IsPoll = true → s.blocked = true)
  | .signal => True

instance [DecidableEq F] (s : SignalLoop ι F) : DecidablePred s.Enabled := fun l => by
  cases l <;> unfold Enabled <;> infer_instance

def Step (s : SignalLoop ι F) (l : SignalStep ι F) (s' : SignalLoop ι F) : Prop :=
  s.Enabled l ∧ s' = s.exec l

/-- The loop thread can leave `loop()` by steps of its own. -/
def CanStop (s : SignalLoop ι F) : Prop :=
  ∃ ls s', Run Step s ls s' ∧ (∀ l ∈ ls, l.Unaided) ∧ s'.loop.phase = .stopped

/-- A signal in the state `m` ends the loop: however the run goes on, `quit_` stays set, the thread
    returns from `epoll_wait` once more at most, and it can leave the loop on its own. -/
def Noticed (m : SignalLoop ι F) : Prop :=
  ∀ bs u, Run Step (m.exec .signal) bs u →
    u.loop.quit = true ∧ bs.countP SignalStep.isPoll ≤ 1 ∧ u.CanStop

/-- What holds of the states before the signal. -/
structure Sound (s : SignalLoop ι F) : Prop where
  awake : s.loop.Awake
  blocked : s.blocked = true → s.loop.phase = .polling
  entered : s.entered = false → s.loop.phase = .looping

omit [DecidableEq ι] in
theorem sound_empty : Sound ({} : SignalLoop ι F) where
  awake := RunningLoop.Entered.awake ⟨rfl, rfl, rfl⟩
  blocked := by simp
  entered := fun _ => rfl

end SignalLoop

namespace RunningLoop

variable [DecidableEq ι]

/-- Other threads do not move the loop thread. -/
theorem phase_exec_of_caller {s : RunningLoop ι F} {l : WakeupStep ι F} (h : l.caller ≠ none) :
    (s.exec l).phase = s.phase := by
  cases l <;> first | rfl | exact absurd rfl h

omit [DecidableEq ι] in
/-- A thread in front of `epoll_wait` gets further only by its return. -/
theorem isPoll_of_polling {s : RunningLoop ι F} {l : WakeupStep ι F} (hawake : s.Awake)
    (hphase : s.phase = .polling) (hl : s.Enabled l) (hcaller : l.caller = none) :
    l.IsPoll = true := by
  have hidle : s.threads none = .idle := hawake.idle (by rw [hphase]; exact id)
  cases l with
  | poll => rfl
  | push t cb | setQuit t =>
    obtain rfl : t = none := hcaller
    have hmay := hl.2 rfl
    rw [hphase] at hmay
    exact hmay.elim
  | wakeup t =>
    obtain rfl : t = none := hcaller
    exact absurd hidle hl
  | testQuit | swap => exact absurd (hphase.symm.trans hl) (by simp)
  | handleRead | setCalling | callFunctor | functorReturns | clearCalling =>
    exact absurd (hphase.symm.trans hl.1) (by simp)

end RunningLoop

namespace SignalLoop

variable [DecidableEq ι] {s t m : SignalLoop ι F} {l : SignalStep ι F}

theorem Sound.exec (h : s.Sound) (hl : s.Enabled l) : (s.exec l).Sound := by
  cases l with
  | enter =>
    exact ⟨⟨h.awake.caller, h.awake.calling, h.awake.wakeup⟩, h.blocked, fun hf => by cases hf⟩
  | enterPoll => exact ⟨h.awake, fun _ => hl.2.1, h.entered⟩
  | signal =>
    by_cases hblocked : s.blocked = true
    · simp only [SignalLoop.exec, if_pos hblocked]
      exact ⟨⟨fun _ => trivial, by simp, fun hswapped => hswapped.elim⟩, by simp,
        fun hf => absurd ((h.blocked hblocked).symm.trans (h.entered hf)) (by simp)⟩
    · simp only [SignalLoop.exec, if_neg hblocked]
      exact ⟨⟨h.awake.caller, h.awake.calling, h.awake.wakeup⟩, h.blocked, h.entered⟩
  | loop l =>
    obtain ⟨henabled, hentered, -⟩ := hl
    refine ⟨h.awake.exec henabled, fun hblocked => ?_, fun hf => ?_⟩
    · show (s.loop.exec l).phase = .polling
      cases hpoll : l.IsPoll with
      | true => simp [SignalLoop.exec, hpoll] at hblocked
      | false =>
        have hphase := h.blocked (by simpa [SignalLoop.exec, hpoll] using hblocked)
        rw [RunningLoop.phase_exec_of_caller fun hcaller => ?_, hphase]
        have := RunningLoop.isPoll_of_polling h.awake hphase henabled hcaller
        simp [hpoll] at this
    · have hf' : s.entered = false := hf
      show (s.loop.exec l).phase = .looping
      rw [RunningLoop.phase_exec_of_caller fun hcaller => ?_, h.entered hf']
      simp [hentered hcaller] at hf'

/-! ## A signal that is noticed -/

/-- What holds after a signal that is not lost, with `n` returns of `epoll_wait` since. -/
structure Heeding (n : ℕ) (u : SignalLoop ι F) : Prop where
  sound : u.Sound
  entered : u.entered = true
  quit : u.loop.quit = true
  ready : u.loop.phase = .polling → u.loop.wakeupFd ≠ 0
  polls : n = 0 ∨ n = 1 ∧ u.loop.phase ≠ .polling

theorem Heeding.loop {n : ℕ} {l : WakeupStep ι F} (h : s.Heeding n) (hl : s.Enabled (.loop l)) :
    (s.exec (.loop l)).Heeding (n + l.IsPoll.toNat) := by
  have henabled := hl.1
  have hquit := h.quit
  have hsame : (s.loop.exec l).phase = s.loop.phase ∧ (s.loop.exec l).quit = true ∧
      (s.loop.wakeupFd ≠ 0 → (s.loop.exec l).wakeupFd ≠ 0) ∧ l.IsPoll = false ∨
      (s.loop.exec l).phase ≠ .polling ∧ (s.loop.exec l).quit = true ∧
        (l.IsPoll = true → s.loop.phase = .polling) := by
    cases l with
    | push t cb => exact .inl ⟨rfl, hquit, id, rfl⟩
    | setQuit t => exact .inl ⟨rfl, rfl, id, rfl⟩
    | wakeup t =>
      refine .inl ⟨rfl, hquit, fun hfd => ?_, rfl⟩
      show (if s.loop.needsWakeup t then eventfdWrite s.loop.wakeupFd else s.loop.wakeupFd) ≠ 0
      split
      · exact eventfdWrite_ne_zero _
      · exact hfd
    | testQuit => exact .inr ⟨by simp [RunningLoop.exec, hquit], hquit, by simp [WakeupStep.IsPoll]⟩
    | poll wakeupActive => exact .inr ⟨by simp [RunningLoop.exec], hquit, fun _ => henabled.1⟩
    | handleRead | setCalling | swap | callFunctor | functorReturns | clearCalling =>
      exact .inr ⟨by simp [RunningLoop.exec], hquit, by simp [WakeupStep.IsPoll]⟩
  have hsound := h.sound.exec hl
  obtain ⟨hphase, hquit', hfd, hpoll⟩ | ⟨hphase, hquit', hpolling⟩ := hsame
  · refine ⟨hsound, h.entered, hquit', fun hp => hfd (h.ready (hphase.symm.trans hp)), ?_⟩
    obtain hn | ⟨hn, hp⟩ := h.polls
    · exact .inl (by simp [hn, hpoll])
    · exact .inr ⟨by simp [hn, hpoll], fun hp' => hp (hphase.symm.trans hp')⟩
  · refine ⟨hsound, h.entered, hquit', fun hp => absurd hp hphase, ?_⟩
    cases hpoll : l.IsPoll with
    | false =>
      obtain hn | ⟨hn, -⟩ := h.polls
      · exact .inl hn
      · exact .inr ⟨hn, hphase⟩
    | true =>
      obtain hn | ⟨-, hp⟩ := h.polls
      · exact .inr ⟨by simp [hn], hphase⟩
      · exact absurd (hpolling hpoll) hp

theorem Heeding.exec {n : ℕ} (h : s.Heeding n) (hl : s.Enabled l) :
    (s.exec l).Heeding (n + l.isPoll.toNat) := by
  have hsound := h.sound.exec hl
  cases l with
  | enter => exact absurd (h.entered.symm.trans hl) (by simp)
  | enterPoll => exact ⟨hsound, h.entered, h.quit, h.ready, h.polls⟩
  | loop l => exact h.loop hl
  | signal =>
    by_cases hblocked : s.blocked = true
    · simp only [SignalLoop.exec, if_pos hblocked] at hsound ⊢
      exact ⟨hsound, h.entered, rfl, by simp, h.polls.imp_right fun hn => ⟨hn.1, by simp⟩⟩
    · simp only [SignalLoop.exec, if_neg hblocked] at hsound ⊢
      exact ⟨hsound, h.entered, rfl, h.ready, h.polls⟩

/-- What the loop thread does on its own, it does here too; it calls `epoll_wait` first. -/
theorem exists_run_of_loop (hentered : s.entered = true)
    {ls : List (WakeupStep ι F)} {x : RunningLoop ι F} (hrun : Run RunningLoop.Step s.loop ls x)
    (hls : ∀ l ∈ ls, l.Unaided) :
    ∃ ms v, Run Step s ms v ∧ (∀ l ∈ ms, l.Unaided) ∧ v.loop = x ∧ v.entered = true := by
  induction hrun with
  | nil => exact ⟨[], s, .nil, by simp, rfl, hentered⟩
  | @snoc ls l x y hrun hstep ih =>
    obtain ⟨ms, v, hv, hms, rfl, hventered⟩ := ih fun l hl => hls l (List.mem_append_left _ hl)
    have hlast : l.Unaided := hls l (by simp)
    have hmove : ∀ w : SignalLoop ι F, w.loop = v.loop → w.entered = true →
        (l.IsPoll = true → w.blocked = true) → ∀ ks, Run Step s ks w → (∀ k ∈ ks, k.Unaided) →
        ∃ ms v, Run Step s ms v ∧ (∀ l ∈ ms, l.Unaided) ∧ v.loop = y ∧ v.entered = true := by
      intro w hw hwentered hblocked ks hks hunaided
      have henabled : w.Enabled (.loop l) :=
        ⟨by rw [hw]; exact hstep.1, fun _ => hwentered, hblocked⟩
      refine ⟨ks ++ [.loop l], w.exec (.loop l), hks.snoc ⟨henabled, rfl⟩, ?_, ?_, hwentered⟩
      · intro k hk
        obtain hk | hk := List.mem_append.mp hk
        · exact hunaided k hk
        · obtain rfl := List.mem_singleton.mp hk
          exact hlast
      · show w.loop.exec l = y
        rw [hw]
        exact hstep.2.symm
    by_cases hpoll : l.IsPoll = true ∧ v.blocked = false
    · have hphase : v.loop.phase = .polling := by
        cases l with
        | poll wakeupActive => exact hstep.1.1
        | _ => cases hpoll.1
      have henter : v.Enabled .enterPoll := ⟨hventered, hphase, hpoll.2⟩
      refine hmove (v.exec .enterPoll) rfl hventered (fun _ => rfl) (ms ++ [.enterPoll])
        (hv.snoc ⟨henter, rfl⟩) fun k hk => ?_
      obtain hk | hk := List.mem_append.mp hk
      · exact hms k hk
      · obtain rfl := List.mem_singleton.mp hk
        trivial
    · exact hmove v rfl hventered (fun hp => by simpa [hp] using hpoll) ms hv hms

theorem Heeding.canStop {n : ℕ} (h : s.Heeding n) : s.CanStop := by
  obtain ⟨ls, x, hrun, hstop, hls⟩ :=
    RunningLoop.exists_run_stopped h.quit h.sound.awake.caller h.ready
  obtain ⟨ms, v, hv, hms, rfl, -⟩ := exists_run_of_loop h.entered hrun hls
  exact ⟨ms, v, hv, hms, hstop⟩

/-! ## A signal that is lost -/

/-- The thread in front of `epoll_wait` sleeps, if the eventfd is not ready. -/
theorem not_canStop (hs : s.Sound) (hentered : s.entered = true) (hphase : s.loop.phase = .polling)
    (hfd : s.loop.wakeupFd = 0) : ¬ s.CanStop := by
  rintro ⟨ls, u, hrun, hls, hstop⟩
  have hsleeps : u.Sound ∧ u.entered = true ∧ u.loop.phase = .polling ∧ u.loop.wakeupFd = 0 := by
    clear hstop
    induction hrun with
    | nil => exact ⟨hs, hentered, hphase, hfd⟩
    | @snoc ls l t _ hrun hstep ih =>
      obtain ⟨hl, rfl⟩ := hstep
      obtain ⟨ht, htentered, htphase, htfd⟩ := ih fun l hl => hls l (List.mem_append_left _ hl)
      have hlast : l.Unaided := hls l (by simp)
      cases l with
      | enter => exact absurd (htentered.symm.trans hl) (by simp)
      | enterPoll => exact ⟨ht.exec hl, htentered, htphase, htfd⟩
      | signal => exact hlast.elim
      | loop l =>
        have hpoll := RunningLoop.isPoll_of_polling ht.awake htphase hl.1 hlast.1
        cases l with
        | poll wakeupActive =>
          cases wakeupActive with
          | false => exact absurd rfl hlast.2
          | true => exact absurd htfd (hl.1.2 rfl)
        | _ => cases hpoll
  rw [hsleeps.2.2.1] at hstop
  cases hstop

/-- A signal ends the loop if and only if it comes after the start of `loop()`, and in front of
    `epoll_wait` only when the thread is inside the call already or the eventfd is ready. -/
theorem noticed_iff {as : List (SignalStep ι F)} (has : Run Step {} as m) :
    m.Noticed ↔ m.entered = true ∧
      (m.loop.phase = .polling → m.blocked = true ∨ m.loop.wakeupFd ≠ 0) := by
  have hs : m.Sound := by
    refine has.invariant (P := Sound) sound_empty ?_
    rintro s l _ hs ⟨hl, rfl⟩
    exact hs.exec hl
  constructor
  · intro hnoticed
    have hentered : m.entered = true := by
      by_contra hf
      have hf' : (m.exec .signal).entered = false := by
        rw [SignalLoop.exec]
        split <;> simpa using hf
      have hkept := (hnoticed [.enter] _ (.single ⟨hf', rfl⟩)).1
      cases hkept
    refine ⟨hentered, fun hphase => ?_⟩
    by_contra hlost
    obtain ⟨hblocked, hfd⟩ := not_or.mp hlost
    have hexec : m.exec .signal = { m with loop := { m.loop with quit := true } } := by
      rw [SignalLoop.exec, if_neg hblocked]
    have hsignal : (m.exec .signal).Sound := hs.exec trivial
    rw [hexec] at hsignal
    have hcan := (hnoticed [] _ .nil).2.2
    rw [hexec] at hcan
    exact not_canStop hsignal hentered hphase (not_not.mp hfd) hcan
  · rintro ⟨hentered, hgap⟩ bs u hu
    have hstart : (m.exec .signal).Heeding 0 := by
      have hsignal : (m.exec .signal).Sound := hs.exec trivial
      by_cases hblocked : m.blocked = true
      · simp only [SignalLoop.exec, if_pos hblocked] at hsignal ⊢
        exact ⟨hsignal, hentered, rfl, by simp, .inl rfl⟩
      · simp only [SignalLoop.exec, if_neg hblocked] at hsignal ⊢
        exact ⟨hsignal, hentered, rfl, fun hp => (hgap hp).resolve_left hblocked, .inl rfl⟩
    have hheeds : u.Heeding (bs.countP SignalStep.isPoll) := by
      refine hu.history (P := fun bs u => u.Heeding (bs.countP SignalStep.isPoll)) hstart ?_
      rintro bs l u _ - hheeds ⟨hl, rfl⟩
      rw [List.countP_append, List.countP_singleton]
      have hnext := hheeds.exec hl
      cases hpoll : l.isPoll <;> simpa [hpoll] using hnext
    refine ⟨hheeds.quit, ?_, hheeds.canStop⟩
    obtain hn | ⟨hn, -⟩ := hheeds.polls <;> omega

/-- The thread sleeps when the signal comes; in front of `epoll_wait` the signal is lost. -/
theorem noticed_iff_asleep :
    let m : SignalLoop Unit Unit := [.enter, .loop .testQuit].foldl exec {}
    (m.exec .enterPoll).Noticed ∧ ¬ m.Noticed := by
  intro m
  have hrun : Run Step {} [.enter, .loop .testQuit] m := Run.of_allowed (by decide)
  have hasleep : Run Step {} [.enter, .loop .testQuit, .enterPoll] (m.exec .enterPoll) :=
    Run.of_allowed (by decide)
  refine ⟨(noticed_iff hasleep).mpr ⟨rfl, fun _ => .inl rfl⟩, fun hnoticed => ?_⟩
  have hready := ((noticed_iff hrun).mp hnoticed).2 rfl
  exact absurd hready (by decide)

end SignalLoop

end AegisNet
