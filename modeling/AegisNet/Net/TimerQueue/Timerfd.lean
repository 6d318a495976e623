import AegisNet.Lib.Recording
import AegisNet.Net.TimerQueue.Invariant

/-!
# The timerfd and its kernel timer

The timer queue with the timer that it sets in the kernel, on one clock. `timerfd_settime` sets a
deadline, and takes back an expiration that has not been read; from the deadline on the timerfd is
readable, until `read` takes the expiration or the timer is set again. Another handler of the same
round may set it between `epoll_wait` and `handleRead`, so that `handleRead` can come early, and find
nothing to read.

## Main definitions

- `TimedQueue` — the timer queue, the deadline in the kernel and the clock
- `TimerQueue.resets` — whether a step calls `resetTimerfd`
- `TimedQueue.exec`, `TimedQueue.Enabled` — the steps
- `Wakeups` — the passes that came for nothing, and those that came early

## Main results

- `TimedQueue.timerfd_readable` — the loop is woken for every timer that is due, and for nothing else
  but once after an early pass
-/

namespace AegisNet

/-- `timerfd_settime` with an absolute time. -/
def settime (value : Itimerspec) : Option ℕ := if value = {} then none else some value.nanoseconds

/-- The clock reading of a step, if it has one. -/
def TimerStep.reading : TimerStep → Option ℕ
  | addTimerInLoop _ _ _ _ now | beginRead now | rearm now => some now
  | turn time => some time
  | cancelInLoop _ | beginRearm | endRead => none

def TimerStep.isRead : TimerStep → Bool
  | beginRead _ => true
  | _ => false

/-- The step calls `resetTimerfd`. -/
def TimerQueue.resets (Q : TimerQueue) : TimerStep → Bool
  | .addTimerInLoop _ _ _ delayUs now =>
    Q.phase.mayCall && Q.earliest.all fun entry => saturatingAdd delayUs now < entry.1
  | .cancelInLoop id =>
    Q.phase.mayCall && decide (id ∈ Q.activeTimers) &&
      (Q.heap id).any fun timer => Q.earliest = some (timer.expiration, id)
  | .endRead =>
    match Q.phase with
    | .rearming _ [] => Q.earliest.isSome
    | _ => false
  | _ => false

instance : (phase : ReadPhase) → Decidable (phase = .idle)
  | .idle => .isTrue rfl
  | .running _ _ _ _ | .rearming _ _ => .isFalse (by simp)

/-- The loop thread, its timer queue and the kernel. -/
structure TimedQueue where
  queue : TimerQueue := {}
  /-- The time from which on the timerfd is readable, in nanoseconds. -/
  deadline : Option ℕ := none
  /-- `CLOCK_MONOTONIC`, in nanoseconds. -/
  time : ℕ
  /-- `timerfdChannel_` is in `activeChannels_`, and its turn is still to come. -/
  active : Bool := false

inductive TimedStep
  | tick (time : ℕ)
  /-- `ep_->poll(activeChannels_)` -/
  | poll
  /-- `readTimerfd`, and then `handleRead` up to its first loop with the clock at `time` -/
  | handleRead (time : ℕ)
  /-- a step of the queue other than this one -/
  | queue (l : TimerStep)
  deriving DecidableEq, Repr

/-- Passes that were woken with no timer due, and passes that found nothing to read. -/
structure Wakeups where
  vain : ℕ := 0
  early : ℕ := 0

namespace TimedQueue

variable (ptrLess : TimerId → TimerId → Bool)

/-- `monotonicMicroseconds()` -/
def now (S : TimedQueue) : ℕ := S.time / 1000

def readable (S : TimedQueue) : Bool := S.deadline.any fun deadline => deadline ≤ S.time

def exec (S : TimedQueue) : TimedStep → TimedQueue
  | .tick time => { S with time }
  | .poll => { S with active := S.readable }
  | .handleRead time =>
    { queue := S.queue.exec ptrLess (.beginRead (time / 1000))
      deadline := if S.readable then none else S.deadline
      time
      active := false }
  | .queue l =>
    let queue := S.queue.exec ptrLess l
    { S with
      queue
      deadline := if S.queue.resets l then settime queue.timerfd else S.deadline }

/-- The kernel counts nanoseconds in 63 bits. The loop polls when no handler runs. -/
def Enabled (S : TimedQueue) : TimedStep → Prop
  | .tick time => S.time ≤ time ∧ time < 2 ^ 63
  | .poll => S.queue.phase = .idle
  | .handleRead time =>
    S.active = true ∧ S.queue.phase = .idle ∧ S.time ≤ time ∧ time < 2 ^ 63
  | .queue l =>
    l.Enabled 1 kInt64Max S.queue ∧ (∀ t ∈ l.reading, t = S.now) ∧ l.isRead = false

instance (S : TimedQueue) : DecidablePred S.Enabled := fun l => by
  cases l <;> unfold Enabled <;> infer_instance

def Step (S : TimedQueue) (l : TimedStep) (S' : TimedQueue) : Prop :=
  S.Enabled l ∧ S' = S.exec ptrLess l

/-- What a pass adds to the wakeups, as it begins. -/
def note (S : TimedQueue) (r : Wakeups) : TimedStep → Wakeups
  | .handleRead _ =>
    if S.readable then
      if S.queue.due S.now = ∅ then { r with vain := r.vain + 1 } else r
    else { r with early := r.early + 1 }
  | _ => r

end TimedQueue

/-! ## What a step sets -/

theorem settime_ofExpiration {expiration : ℕ} (h : 0 < expiration) :
    settime (.ofExpiration expiration) = some (1000 * expiration) := by
  have hne : Itimerspec.ofExpiration expiration ≠ {} := fun heq => by
    have hnano := Itimerspec.nanoseconds_ofExpiration expiration
    rw [heq] at hnano
    have hzero : 0 = 1000 * expiration := hnano
    omega
  rw [settime, if_neg hne, Itimerspec.nanoseconds_ofExpiration]

namespace TimerQueue

variable {ptrLess : TimerId → TimerId → Bool} {Q Q' : TimerQueue} {l : TimerStep} {low high : ℕ}
  {d : Option ℕ}

/-- Between passes the kernel has what was set last, if there are timers. -/
theorem Effect.settime (he : Effect ptrLess low high Q l Q')
    (h : Q.phase = .idle → Q.timers ≠ [] → d = settime Q.timerfd) (hidle : Q'.phase = .idle)
    (hne : Q'.timers ≠ []) :
    (if Q.resets l then AegisNet.settime Q'.timerfd else d) = AegisNet.settime Q'.timerfd := by
  split
  · rfl
  · next hresets =>
    cases he with
    | stutter => exact h hidle hne
    | @add id interval repeating delayUs now hcall _ _ _ _ =>
      have hfalse : ¬ (Q.earliest.all fun entry => saturatingAdd delayUs now < entry.1) = true := by
        simpa [resets, hcall] using hresets
      have htimers : Q.timers ≠ [] := fun hnil => hfalse (by simp [earliest, hnil])
      dsimp only
      rw [if_neg hfalse]
      exact h (ReadPhase.record_eq_idle.mp hidle) htimers
    | cancelInactive _ _ => exact h (ReadPhase.record_eq_idle.mp hidle) hne
    | @cancel id timer hcall hid ht =>
      have hfirst : Q.earliest ≠ some (timer.expiration, id) := by
        simpa [resets, hcall, hid, ht] using hresets
      have htimers : Q.timers ≠ [] := fun hnil => by
        have hne' : Q.timers.erase (timer.expiration, id) ≠ [] := hne
        simp [hnil] at hne'
      dsimp only
      rw [if_neg hfirst]
      exact h (ReadPhase.record_eq_idle.mp hidle) htimers
    | @endRead pass hphase =>
      have hsome : Q.earliest.isSome = true := by
        have htimers : Q.timers ≠ [] := hne
        simpa [earliest, List.isSome_head?] using htimers
      exact absurd hsome (by simpa [resets, hphase] using hresets)
    | beginRead _ _ _ | start _ _ _ _ | skip _ _ _ | beginRearm _ | letGo _ | rearm _ _ _ _ _ _ _ _ _ =>
      cases hidle

theorem timers_addTimerInLoop_ne_nil (Q : TimerQueue) (id : TimerId) (interval : ℕ)
    (repeating : Bool) (delayUs now : ℕ) :
    (Q.addTimerInLoop ptrLess id interval repeating delayUs now).timers ≠ [] := by
  intro hnil
  have hmem : (saturatingAdd delayUs now, id) ∈
      (Q.addTimerInLoop ptrLess id interval repeating delayUs now).timers := by
    show _ ∈ (if _ then Q.timers else Q.timers.orderedInsert _ _)
    split
    · assumption
    · exact (List.mem_orderedInsert _).mpr (.inl rfl)
  rw [hnil] at hmem
  cases hmem

theorem Consistent.silent_addTimerInLoop {id : TimerId} {interval : ℕ} {repeating : Bool}
    {delayUs now : ℕ} (h : Q.timers = [] → d = none)
    (hnil : (Q.exec ptrLess (.addTimerInLoop id interval repeating delayUs now)).timers = []) :
    (if Q.resets (.addTimerInLoop id interval repeating delayUs now) then
      AegisNet.settime
        (Q.exec ptrLess (.addTimerInLoop id interval repeating delayUs now)).timerfd
    else d) = none := by
  by_cases hcall : Q.phase.mayCall = true
  · rw [TimerQueue.exec, if_pos hcall] at hnil
    exact absurd hnil (timers_addTimerInLoop_ne_nil Q id interval repeating delayUs now)
  · rw [TimerQueue.exec, if_neg hcall] at hnil
    have hresets : Q.resets (.addTimerInLoop id interval repeating delayUs now) = false := by
      simp [resets, hcall]
    rw [hresets]
    exact h hnil

/-- The last timer that is cancelled is the earliest one, and the timerfd is disarmed. -/
theorem Effect.silent_cancelInLoop {id : TimerId}
    (he : Effect ptrLess low high Q (.cancelInLoop id) Q') (h : Q.timers = [] → d = none)
    (hnil : Q'.timers = []) :
    (if Q.resets (.cancelInLoop id) then AegisNet.settime Q'.timerfd else d) = none := by
  have hnone : Q.timers = [] → Q.resets (.cancelInLoop id) = false := fun hnil => by
    cases hid : Q.heap id <;> simp [resets, earliest, hnil, hid]
  cases he with
  | stutter => simp [hnone hnil, h hnil]
  | cancelInactive _ _ =>
    have hnil' : Q.timers = [] := hnil
    simp [hnone hnil', h hnil']
  | @cancel id timer hcall hid ht =>
    have herase : Q.timers.erase (timer.expiration, id) = [] := hnil
    have hresets : Q.resets (.cancelInLoop id) =
        decide (Q.earliest = some (timer.expiration, id)) := by simp [resets, hcall, hid, ht]
    by_cases hfirst : Q.earliest = some (timer.expiration, id)
    · simp [hresets, hfirst, herase, AegisNet.settime, Itimerspec.ofExpiration]
    · have hhead := head?_erase hfirst
      rw [herase] at hhead
      simp [hresets, hfirst, h (List.head?_eq_none_iff.mp hhead.symm)]

theorem Effect.clock_le_reading (he : Effect ptrLess low high Q l Q') {time : ℕ} (h : Q.clock ≤ time)
    (hl : ∀ t ∈ l.reading, t = time) : Q'.clock ≤ time := by
  cases he with
  | add | beginRead | start | rearm => exact (hl _ rfl).le
  | _ => exact h

/-- Where no timer is left, no step but the reading of the clock leaves the timerfd set. -/
theorem Consistent.silent_exec (hc : Q.Consistent) (hl : l.Enabled low high Q)
    (hread : l.isRead = false) (h : Q.timers = [] → d = none)
    (hnil : (Q.exec ptrLess l).timers = []) :
    (if Q.resets l then AegisNet.settime (Q.exec ptrLess l).timerfd else d) = none := by
  have heff : Effect ptrLess low high Q l _ := hc.effect hl
  cases l with
  | addTimerInLoop id interval repeating delayUs now =>
    exact Consistent.silent_addTimerInLoop h hnil
  | cancelInLoop id => exact heff.silent_cancelInLoop h hnil
  | beginRead now => cases hread
  | turn time | beginRearm =>
    have hold : Q.timers = [] := by
      generalize Q.exec ptrLess _ = Q' at heff hnil
      cases heff <;> exact hnil
    exact h hold
  | rearm now =>
    have hold : Q.timers = [] := by
      generalize Q.exec ptrLess _ = Q' at heff hnil
      cases heff with
      | stutter | letGo _ => exact hnil
      | @rearm _ pass rest id timer =>
        have hmem := (List.mem_orderedInsert (entryLess ptrLess) (l := Q.timers)
          (b := (saturatingAdd timer.interval now, id))).mpr (.inl rfl)
        rw [show Q.timers.orderedInsert _ _ = [] from hnil] at hmem
        cases hmem
    exact h hold
  | endRead =>
    have hold : Q.timers = [] := by
      generalize Q.exec ptrLess _ = Q' at heff hnil
      cases heff <;> exact hnil
    have hresets : Q.resets .endRead = false := by
      simp only [resets]
      split <;> simp [earliest, hold]
    simp [hresets, h hold]

end TimerQueue

namespace TimedQueue

variable {ptrLess : TimerId → TimerId → Bool} {S : TimedQueue} {r : Wakeups}

/-- What the loop relies on: the queue is consistent, and between passes the kernel has the deadline
    of its earliest timer. A deadline without timers comes from a pass that was early. -/
structure Watched (S : TimedQueue) (r : Wakeups) : Prop where
  consistent : S.queue.Consistent
  le_key : ∀ e ∈ S.queue.timers, 1 ≤ e.1
  armed : S.queue.phase = .idle → S.queue.Armed
  deadline : S.queue.phase = .idle → S.queue.timers ≠ [] → S.deadline = settime S.queue.timerfd
  clock : S.queue.clock ≤ S.now
  time : 1000 ≤ S.time ∧ S.time < 2 ^ 63
  silent : r.vain + (if S.queue.timers = [] ∧ S.deadline ≠ none then 1 else 0) ≤ r.early

theorem watched_fresh {time : ℕ} (h : 1000 ≤ time) (hlt : time < 2 ^ 63) :
    Watched { time } {} where
  consistent := TimerQueue.consistent_empty
  le_key := by simp
  armed := fun _ e he => by simp [TimerQueue.earliest] at he
  deadline := fun _ hne => absurd rfl hne
  clock := Nat.zero_le _
  time := ⟨h, hlt⟩
  silent := by simp

/-- The kernel has the earliest deadline. -/
theorem Watched.deadline_eq (h : S.Watched r) (hidle : S.queue.phase = .idle) {e : ℕ × TimerId}
    (he : S.queue.earliest = some e) : S.deadline = some (1000 * e.1) := by
  have hmem : e ∈ S.queue.timers := List.mem_of_mem_head? he
  rw [h.deadline hidle (List.ne_nil_of_mem hmem), h.armed hidle e he]
  exact settime_ofExpiration (h.le_key e hmem)

/-- The timerfd is readable if a timer is due. -/
theorem Watched.readable (h : S.Watched r) (hidle : S.queue.phase = .idle)
    (hdue : S.queue.due S.now ≠ ∅) : S.readable = true := by
  obtain ⟨id, hid⟩ := Finset.nonempty_iff_ne_empty.mpr hdue
  obtain ⟨hactive, hexpired⟩ := Finset.mem_filter.mp hid
  obtain ⟨⟨timer, ht, -⟩, hin⟩ := h.consistent.active id hactive
  rw [hidle, or_iff_left (by exact List.not_mem_nil)] at hin
  obtain ⟨k, hk⟩ := TimerQueue.mem_timerIds.mp hin
  have hkey := h.consistent.key_eq hk ht
  obtain ⟨e, l, htimers⟩ := List.exists_cons_of_ne_nil (List.ne_nil_of_mem hk)
  have hle : e.1 ≤ k := (htimers ▸ h.consistent.sorted).head_le (htimers ▸ hk)
  have hexp : timer.expiration ≤ S.now := by simpa [ht] using hexpired
  rw [TimedQueue.readable, h.deadline_eq hidle (e := e) (by simp [TimerQueue.earliest, htimers])]
  simp only [now] at hexp
  simp only [Option.any_some, decide_eq_true_eq]
  omega

/-- If it is readable and no timer is due, there are no timers. -/
theorem Watched.timers_eq_nil (h : S.Watched r) (hidle : S.queue.phase = .idle)
    (hreadable : S.readable = true) (hdue : S.queue.due S.now = ∅) : S.queue.timers = [] := by
  by_contra hne
  obtain ⟨e, l, htimers⟩ := List.exists_cons_of_ne_nil hne
  have hmem : e ∈ S.queue.timers := by simp [htimers]
  rw [TimedQueue.readable, h.deadline_eq hidle (e := e) (by simp [TimerQueue.earliest, htimers]),
    Option.any_some, decide_eq_true_eq] at hreadable
  obtain ⟨hactive, timer, ht, hk⟩ := h.consistent.entry e hmem
  have hin : e.2 ∈ S.queue.due S.now := by
    refine Finset.mem_filter.mpr ⟨hactive, ?_⟩
    simp only [ht, hk, Option.any_some, decide_eq_true_eq, now]
    omega
  rw [hdue] at hin
  cases hin

theorem Watched.handleRead (h : S.Watched r) {time : ℕ} (hl : S.Enabled (.handleRead time)) :
    (S.exec ptrLess (.handleRead time)).Watched (S.note r (.handleRead time)) := by
  obtain ⟨-, hidle, hle, hlt⟩ := hl
  have hnow : S.now ≤ time / 1000 := Nat.div_le_div_right hle
  have henabled : (TimerStep.beginRead (time / 1000)).Enabled 1 kInt64Max S.queue := by
    have hstart := h.time.1
    exact ⟨h.clock.trans hnow, by omega, by simp only [kInt64Max]; omega⟩
  have heff : TimerQueue.Effect ptrLess _ _ S.queue _ _ := h.consistent.effect henabled
  have hphase : (S.queue.exec ptrLess (.beginRead (time / 1000))).phase ≠ .idle := by
    rw [TimerQueue.exec, hidle]
    simp [TimerQueue.beginRead]
  refine ⟨heff.consistent h.consistent, heff.le_key (by decide) h.le_key,
    fun hidle' => absurd hidle' hphase, fun hidle' => absurd hidle' hphase,
    heff.clock_le_reading (h.clock.trans hnow) fun t ht => (Option.mem_some_iff.mp ht).symm,
    ⟨h.time.1.trans hle, hlt⟩, ?_⟩
  have hsilent := h.silent
  show (S.note r (.handleRead time)).vain +
    (if _ ∧ (if S.readable then none else S.deadline) ≠ none then 1 else 0) ≤
      (S.note r (.handleRead time)).early
  unfold note
  by_cases hreadable : S.readable = true
  · by_cases hdue : S.queue.due S.now = ∅
    · -- the deadline was left behind by an early pass
      have hset : S.deadline ≠ none := fun hnone => by
        simp [TimedQueue.readable, hnone] at hreadable
      rw [if_pos ⟨h.timers_eq_nil hidle hreadable hdue, hset⟩] at hsilent
      simpa [hreadable, hdue] using hsilent
    · simp only [hreadable, hdue, if_true, if_false, ne_eq, not_true, and_false]
      omega
  · simp only [if_neg hreadable]
    split <;> omega

theorem Watched.queue (h : S.Watched r) {l : TimerStep} (hl : S.Enabled (.queue l)) :
    (S.exec ptrLess (.queue l)).Watched r := by
  obtain ⟨henabled, hreading, hread⟩ := hl
  have heff : TimerQueue.Effect ptrLess _ _ S.queue l _ := h.consistent.effect henabled
  refine ⟨heff.consistent h.consistent, heff.le_key (by decide) h.le_key, heff.armed h.armed,
    heff.settime h.deadline, heff.clock_le_reading h.clock hreading, h.time, ?_⟩
  have hsilent := h.silent
  by_cases hold : S.queue.timers = [] ∧ S.deadline ≠ none
  · rw [if_pos hold] at hsilent
    split <;> omega
  · rw [if_neg hold] at hsilent
    rw [if_neg ?_]
    · exact hsilent
    · rintro ⟨hnil, hset⟩
      refine hset (h.consistent.silent_exec henabled hread (fun hnil => ?_) hnil)
      exact not_not.mp fun hset => hold ⟨hnil, hset⟩

theorem Watched.exec (h : S.Watched r) {l : TimedStep} (hl : S.Enabled l) :
    (S.exec ptrLess l).Watched (S.note r l) := by
  cases l with
  | tick time =>
    obtain ⟨hle, hlt⟩ := hl
    exact { h with
      clock := h.clock.trans (Nat.div_le_div_right hle)
      time := ⟨h.time.1.trans hle, hlt⟩ }
  | poll => exact { h with }
  | handleRead time => exact h.handleRead hl
  | queue l => exact h.queue hl

/-- Between passes the kernel has the deadline of the earliest timer, so that `epoll_wait` ends when
    a timer is due, and then the timerfd is readable until `handleRead` has come. When it is readable
    with no timer due there are no timers at all; and there are no more passes of that kind than
    passes that came early, behind another handler that had set the timer again. -/
theorem timerfd_readable {time : ℕ} (h1 : 1000 ≤ time) (h2 : time < 2 ^ 63) {ls : List TimedStep}
    {S : TimedQueue} (h : Run (Step ptrLess) { time } ls S) :
    (S.queue.phase = .idle →
      (∀ e, S.queue.earliest = some e → S.deadline = some (1000 * e.1)) ∧
        (S.queue.due S.now ≠ ∅ → S.readable = true) ∧
        (S.readable = true → S.queue.due S.now = ∅ → S.queue.timers = [])) ∧
      (Run.recording (exec ptrLess) note { time } {} ls).vain ≤
        (Run.recording (exec ptrLess) note { time } {} ls).early := by
  have hw : S.Watched (Run.recording (exec ptrLess) note { time } {} ls) :=
    h.invariant_recording (watched_fresh h1 h2) fun _ _ _ hw hl => hw.exec hl
  refine ⟨fun hidle => ⟨fun e => hw.deadline_eq hidle, hw.readable hidle,
    hw.timers_eq_nil hidle⟩, ?_⟩
  have hsilent := hw.silent
  omega

/-- Another handler replaces the timer for which the loop was woken. The pass is early, and leaves
    the deadline of the new timer, which has run, in the kernel. -/
theorem timerfd_readable_early :
    let ptrLess : TimerId → TimerId → Bool := fun a b => decide (a < b)
    let ls : List TimedStep :=
      [.queue (.addTimerInLoop 1 0 false 5 1000), .tick 1005000, .poll, .queue (.cancelInLoop 1),
        .queue (.addTimerInLoop 2 0 false 1 1005), .handleRead 1006000, .queue (.turn 1006),
        .queue .beginRearm, .queue (.rearm 1006), .queue .endRead, .poll, .handleRead 1006500]
    let S := ls.foldl (exec ptrLess) { time := 1000000 }
    let r := Run.recording (exec ptrLess) note { time := 1000000 } {} ls
    r.vain = 1 ∧ r.vain ≤ r.early ∧ S.deadline = none := by
  intro ptrLess ls S r
  have hrun : Run (Step ptrLess) { time := 1000000 } ls S := Run.of_allowed (by decide +kernel)
  exact ⟨by decide +kernel, (timerfd_readable (by decide) (by decide) hrun).2, by decide +kernel⟩

end TimedQueue

end AegisNet
