import AegisNet.Net.TimerQueue.Calls

/-!
# One-shot timers

A queue to which only one-shot timers are added, as `runAfter` does. Such a timer is active from its
add to its cancel or to the end of the pass that starts its callback, and it is started at most once.
Where the timers of a family are used one at a time, this is followed here through the steps of the
queue.

## Main definitions

- `TimerQueue.Started`, `TimerQueue.nextStart` — whose callback was started, and whose is next
- `TimerQueue.OneShot` — the invariant of such a queue
- `TimerFact`, `TimerQueue.Holds` — what is known of the active timers of a family
-/

namespace AegisNet

/-- The step adds no repeating timer. -/
def TimerStep.IsOneShot : TimerStep → Prop
  | addTimerInLoop _ _ repeating _ _ => repeating = false
  | _ => True

/-- The clock readings of the step are up to `t`. -/
def TimerStep.ReadsUpTo (t : ℕ) : TimerStep → Prop
  | addTimerInLoop _ _ _ _ now | beginRead now | turn now | rearm now => now ≤ t
  | cancelInLoop _ | beginRearm | endRead => True

/-- What is known of the active timers of a family. -/
inductive TimerFact
  | absent
  /-- There is one, which has yet to be started. -/
  | waiting (id : TimerId) (expiration : ℕ)
  /-- There is at most one, which was started. -/
  | spent (id : TimerId)
  /-- There is at most one. -/
  | atMost (id : TimerId)
  deriving DecidableEq, Repr

namespace TimerQueue

variable {ptrLess : TimerId → TimerId → Bool} {Q Q' : TimerQueue} {l : TimerStep} {low high : ℕ}
  {id : TimerId}

def Started (Q : TimerQueue) (id : TimerId) : Prop := ∃ e t, .started id e t ∈ Q.log

/-- The timer whose callback the next turn starts. -/
def nextStart (Q : TimerQueue) : Option TimerId :=
  match Q.phase with
  | .running _ _ (id :: _) _ =>
    match Q.heap id with
    | none => none
    | some timer => if timer.canceled then none else some id
  | _ => none

theorem nextStart_eq_some (h : Q.nextStart = some id) :
    ∃ pass expired turns inCallback timer,
      Q.phase = .running pass expired (id :: turns) inCallback ∧
      Q.heap id = some timer ∧ timer.canceled = false := by
  unfold nextStart at h
  split at h
  · next pass expired x turns inCallback hphase =>
    split at h
    · cases h
    · next timer ht =>
      split at h
      · cases h
      · next hc =>
        cases h
        exact ⟨pass, expired, turns, inCallback, timer, hphase, ht, by simpa using hc⟩
  · cases h

theorem Effect.started_mono (he : Effect ptrLess low high Q l Q') (h : Q.Started id) :
    Q'.Started id := by
  obtain ⟨e, t, hmem⟩ := h
  exact ⟨e, t, he.log_prefix.subset hmem⟩

theorem Starts.nextStart {e t : ℕ} (h : Q.Starts l Q' id e t) : Q.nextStart = some id := by
  obtain ⟨timer, ht, -, hc⟩ := h.timer
  have hturns := h.turns
  cases hphase : Q.phase with
  | running pass expired turns inCallback =>
    rw [hphase] at hturns
    simp [TimerQueue.nextStart, hphase, show turns = id :: Q'.phase.turns from hturns, ht, hc]
  | _ =>
    rw [hphase] at hturns
    cases hturns

/-- Only a turn starts a callback. -/
theorem Effect.started_new (he : Effect ptrLess low high Q l Q') (h : Q'.Started id) :
    Q.Started id ∨ (∃ t, l = .turn t) ∧ Q.nextStart = some id := by
  obtain ⟨e, t, hmem⟩ := h
  obtain hold | hs := he.started hmem
  · exact .inl ⟨e, t, hold⟩
  · exact .inr ⟨⟨t, hs.label⟩, hs.nextStart⟩

theorem started_turn (h : Q.nextStart = some id) (time : ℕ) : (Q.turn time).Started id := by
  obtain ⟨pass, expired, turns, inCallback, timer, hphase, ht, hc⟩ := nextStart_eq_some h
  refine ⟨timer.expiration, time, ?_⟩
  unfold turn
  rw [hphase]
  simp [ht, hc, record]

theorem Effect.active_sub (he : Effect ptrLess low high Q l Q') (h : id ∈ Q'.activeTimers) :
    id ∈ Q.activeTimers ∨ l.newId = some id := by
  cases he with
  | add _ _ _ _ _ =>
    obtain rfl | h := Finset.mem_insert.mp h
    · exact .inr rfl
    · exact .inl h
  | cancel _ _ _ => exact .inl (Finset.mem_of_mem_erase h)
  | letGo _ => exact .inl (Finset.mem_of_mem_erase h)
  | _ => exact .inl h

theorem Effect.clock_le_of (he : Effect ptrLess low high Q l Q') {t : ℕ} (hl : l.ReadsUpTo t)
    (h : Q.clock ≤ t) : Q'.clock ≤ t := by
  cases he with
  | add _ _ _ _ _ => exact hl
  | beginRead _ _ _ => exact hl
  | start _ _ _ _ => exact hl
  | rearm _ _ _ _ _ _ _ _ _ => exact hl
  | _ => exact h

/-- Adds and cancels do not move a pass on. -/
theorem Effect.mayCall (he : Effect ptrLess low high Q l Q') (hl : ¬ l.OfRead) :
    Q'.phase.mayCall = Q.phase.mayCall := by
  have hrecord : ∀ e, (Q.phase.record e).mayCall = Q.phase.mayCall := fun e => by
    cases Q.phase <;> rfl
  cases he with
  | stutter => rfl
  | add _ _ _ _ _ => exact hrecord _
  | cancelInactive _ _ => exact hrecord _
  | cancel _ _ _ => exact hrecord _
  | _ => exact absurd trivial hl

/-! ## The invariant -/

/-- The invariant of a queue to which only one-shot timers are added. -/
structure OneShot (Q : TimerQueue) : Prop where
  batched : Q.Batched
  cancellation : Q.Cancellation
  timing : Q.Timing
  oneShot : ∀ id timer, Q.heap id = some timer → timer.repeating = false
  /-- A timer of the batch that is still active when its turn is over was started. -/
  served : ∀ id ∈ Q.phase.out, id ∉ Q.phase.turns → id ∈ Q.activeTimers → Q.Started id

theorem oneShot_empty : OneShot {} where
  batched := sound_empty.batched
  cancellation := sound_empty.cancellation
  timing := sound_empty.timing
  oneShot := by simp
  served := by simp

theorem Effect.served (he : Effect ptrLess low high Q l Q') (h : Q.OneShot) :
    ∀ id ∈ Q'.phase.out, id ∉ Q'.phase.turns → id ∈ Q'.activeTimers → Q'.Started id := by
  intro id hout hturns hactive
  have hmono : Q.Started id → Q'.Started id := he.started_mono
  cases he with
  | stutter => exact h.served id hout hturns hactive
  | @add id₀ _ _ _ _ _ hnew _ _ _ =>
    have hout' : id ∈ Q.phase.out := by simpa using hout
    have hne : id ≠ id₀ := by
      rintro rfl
      exact (h.batched.consistent.notMem_of_none hnew).2.2 hout'
    apply hmono
    exact h.served id hout' (by simpa using hturns)
      ((Finset.mem_insert.mp hactive).resolve_left hne)
  | cancelInactive _ _ =>
    have hout' : id ∈ (Q.phase.record _).out := hout
    have hturns' : id ∉ (Q.phase.record _).turns := hturns
    rw [ReadPhase.out_record] at hout'
    rw [ReadPhase.turns_record] at hturns'
    exact hmono (h.served id hout' hturns' hactive)
  | cancel _ _ _ =>
    apply hmono
    exact h.served id (by simpa using hout) (by simpa using hturns)
      (Finset.mem_of_mem_erase hactive)
  | beginRead _ _ _ => exact absurd hout hturns
  | @start time _ _ turns id₀ _ _ hphase _ _ _ =>
    by_cases hid : id = id₀
    · subst hid
      exact ⟨_, time, List.mem_append_right _ (List.mem_singleton_self _)⟩
    · apply hmono
      exact h.served id (by rw [hphase]; exact hout)
        (by rw [hphase]; exact List.not_mem_cons_of_ne_of_not_mem hid hturns) hactive
  | @skip _ _ _ turns id₀ _ _ hphase ht hc =>
    have hid : id ≠ id₀ := by
      rintro rfl
      obtain ⟨⟨timer, ht', hc'⟩, -⟩ := h.batched.consistent.active id hactive
      rw [ht] at ht'
      rw [← Option.some.inj ht', hc] at hc'
      exact Bool.noConfusion hc'
    apply hmono
    exact h.served id (by rw [hphase]; exact hout)
      (by rw [hphase]; exact List.not_mem_cons_of_ne_of_not_mem hid hturns) hactive
  | beginRearm hphase =>
    refine h.served id (by rw [hphase]; exact hout) ?_ hactive
    rw [hphase]
    exact List.not_mem_nil
  | letGo hphase =>
    refine h.served id ?_ ?_ (Finset.mem_of_mem_erase hactive)
    · rw [hphase]
      exact List.mem_cons_of_mem _ hout
    · rw [hphase]
      exact List.not_mem_nil
  | rearm hphase _ _ _ _ _ _ _ _ =>
    refine h.served id ?_ ?_ hactive
    · rw [hphase]
      exact List.mem_cons_of_mem _ hout
    · rw [hphase]
      exact List.not_mem_nil
  | endRead _ => exact absurd hout List.not_mem_nil

/-- Step lemma. -/
theorem Effect.oneShot (he : Effect ptrLess low high Q l Q') (hhigh : high < kInt64Max)
    (hl : l.IsOneShot) (h : Q.OneShot) : Q'.OneShot where
  batched := he.batched h.batched
  cancellation := he.cancellation h.batched h.cancellation
  timing := he.timing hhigh h.batched h.cancellation h.timing
  served := he.served h
  oneShot id timer ht := by
    obtain hnone | ⟨old, hsome, hrep, -⟩ := he.heap_some ht
    · cases he with
      | add _ _ _ _ _ =>
        obtain ⟨rfl, rfl⟩ | ⟨-, ht⟩ := some_of_update ht
        · exact hl
        · exact h.oneShot id timer ht
      | cancel _ _ ht₀ =>
        obtain ⟨rfl, -⟩ | ⟨-, ht⟩ := some_of_update ht
        · rw [ht₀] at hnone
          cases hnone
        · exact h.oneShot id timer ht
      | rearm _ ht₀ hrep _ _ _ _ _ _ =>
        have hfalse := h.oneShot _ _ ht₀
        rw [hrep] at hfalse
        cases hfalse
      | _ => exact h.oneShot id timer ht
    · rw [hrep]
      exact h.oneShot id old hsome

namespace OneShot

/-- A timer is started at most once. -/
theorem not_started_of_turn (h : Q.OneShot) (hid : id ∈ Q.phase.turns) : ¬Q.Started id := by
  rintro ⟨e, t, hmem⟩
  obtain ⟨-, timer, ht, -⟩ := h.batched.consistent.out id (h.batched.turns_out.subset hid)
  have hrep := ((h.timing.restart id e t timer hmem ht).2 hid).1
  rw [h.oneShot id timer ht] at hrep
  cases hrep

/-- Between passes no active timer was started. -/
theorem not_started_of_idle (h : Q.OneShot) (hidle : Q.phase = .idle)
    (hid : id ∈ Q.activeTimers) : ¬Q.Started id := by
  rintro ⟨e, t, hmem⟩
  obtain ⟨⟨timer, ht, -⟩, hin⟩ := h.batched.consistent.active id hid
  rw [hidle, or_iff_left (by exact List.not_mem_nil)] at hin
  have hrep := ((h.timing.restart id e t timer hmem ht).1 hin).1
  rw [h.oneShot id timer ht] at hrep
  cases hrep

/-- The timer that the next turn starts is active, and its time has come. -/
theorem nextStart_active (h : Q.OneShot) (hid : Q.nextStart = some id) :
    id ∈ Q.activeTimers ∧ ¬Q.Started id ∧
      ∃ timer, Q.heap id = some timer ∧ timer.expiration ≤ Q.clock := by
  obtain ⟨pass, expired, turns, inCallback, timer, hphase, ht, hc⟩ := nextStart_eq_some hid
  have hturn : id ∈ Q.phase.turns := by simp [hphase, ReadPhase.turns]
  refine ⟨?_, h.not_started_of_turn hturn, timer, ht, h.timing.due id hturn timer ht⟩
  by_contra hactive
  obtain ⟨timer', ht', hc'⟩ := h.batched.canceled hturn hactive
  rw [ht] at ht'
  rw [← Option.some.inj ht', hc] at hc'
  cases hc'

end OneShot

/-- A timer that has yet to be started stays unless it is cancelled. -/
theorem Effect.keeps (he : Effect ptrLess low high Q l Q') (h : Q.OneShot)
    (hactive : id ∈ Q.activeTimers) (hstart : ¬Q.Started id) (hcancel : l ≠ .cancelInLoop id) :
    id ∈ Q'.activeTimers ∧ Q'.heap id = Q.heap id := by
  cases he with
  | @add id₀ _ _ _ _ _ hnew _ _ _ =>
    have hne : id ≠ id₀ := by
      rintro rfl
      exact (h.batched.consistent.notMem_of_none hnew).2.1 hactive
    exact ⟨Finset.mem_insert_of_mem hactive, Function.update_of_ne hne _ _⟩
  | @cancel id₀ _ _ _ _ =>
    have hne : id ≠ id₀ := by
      rintro rfl
      exact hcancel rfl
    exact ⟨Finset.mem_erase.mpr ⟨hne, hactive⟩, Function.update_of_ne hne _ _⟩
  | @letGo _ _ _ id₀ hphase =>
    have hne : id ≠ id₀ := by
      rintro rfl
      apply hstart
      apply h.served id _ _ hactive
      · rw [hphase]
        exact List.mem_cons_self
      · rw [hphase]
        exact List.not_mem_nil
    exact ⟨Finset.mem_erase.mpr ⟨hne, hactive⟩, rfl⟩
  | rearm _ ht hrep _ _ _ _ _ _ =>
    have hfalse := h.oneShot _ _ ht
    rw [hrep] at hfalse
    cases hfalse
  | _ => exact ⟨hactive, rfl⟩

/-! ## Families of timers -/

/-- The fact holds of the timers in `P`. -/
def Holds (Q : TimerQueue) (P : TimerId → Prop) : TimerFact → Prop
  | .absent => ∀ x ∈ Q.activeTimers, ¬P x
  | .waiting id expiration =>
    P id ∧ (∀ x ∈ Q.activeTimers, P x → x = id) ∧ id ∈ Q.activeTimers ∧ ¬Q.Started id ∧
      ∃ timer, Q.heap id = some timer ∧ timer.expiration = expiration
  | .spent id => P id ∧ (∀ x ∈ Q.activeTimers, P x → x = id) ∧ Q.Started id
  | .atMost id => (id ≠ 0 → P id) ∧ ∀ x ∈ Q.activeTimers, P x → x = id

namespace Holds

variable {P P' : TimerId → Prop} {fact : TimerFact} {expiration : ℕ}

/-- Steps of other families. -/
theorem effect (hf : Q.Holds P fact) (h : Q.OneShot) (he : Effect ptrLess low high Q l Q')
    (hnew : ∀ x, l.newId = some x → ¬P x) (hcancel : ∀ x, l = .cancelInLoop x → ¬P x)
    (hstart : ∀ t x, l = .turn t → Q.nextStart = some x → ¬P x) : Q'.Holds P fact := by
  have hsub : ∀ x ∈ Q'.activeTimers, P x → x ∈ Q.activeTimers := fun x hx hP =>
    (he.active_sub hx).resolve_right fun hnewId => hnew x hnewId hP
  cases fact with
  | absent => exact fun x hx hP => hf x (hsub x hx hP) hP
  | waiting id expiration =>
    obtain ⟨hP, honly, hactive, hnot, timer, ht, hexp⟩ := hf
    obtain ⟨hactive', hheap⟩ := he.keeps h hactive hnot fun hl => hcancel id hl hP
    refine ⟨hP, fun x hx hPx => honly x (hsub x hx hPx) hPx, hactive', fun hs => ?_, timer,
      hheap.trans ht, hexp⟩
    obtain hs | ⟨⟨t, hl⟩, hnext⟩ := he.started_new hs
    · exact hnot hs
    · exact hstart t id hl hnext hP
  | spent id =>
    obtain ⟨hP, honly, hs⟩ := hf
    exact ⟨hP, fun x hx hPx => honly x (hsub x hx hPx) hPx, he.started_mono hs⟩
  | atMost id => exact ⟨hf.1, fun x hx hPx => hf.2 x (hsub x hx hPx) hPx⟩

theorem unique (hf : Q.Holds P fact) {x y : TimerId} (hx : x ∈ Q.activeTimers) (hPx : P x)
    (hy : y ∈ Q.activeTimers) (hPy : P y) : x = y := by
  cases fact with
  | absent => exact absurd hPx (hf x hx)
  | waiting id expiration => exact (hf.2.1 x hx hPx).trans (hf.2.1 y hy hPy).symm
  | spent id => exact (hf.2.1 x hx hPx).trans (hf.2.1 y hy hPy).symm
  | atMost id => exact (hf.2 x hx hPx).trans (hf.2 y hy hPy).symm

/-- A turn of the family starts the timer that waits. -/
theorem waiting_of_nextStart (hf : Q.Holds P fact) (h : Q.OneShot) {x : TimerId}
    (hx : Q.nextStart = some x) (hP : P x) (hne : ∀ i, fact ≠ .atMost i) :
    ∃ e, fact = .waiting x e ∧ e ≤ Q.clock := by
  obtain ⟨hactive, hnot, timer, ht, hle⟩ := h.nextStart_active hx
  cases fact with
  | absent => exact absurd hP (hf x hactive)
  | waiting id expiration =>
    obtain ⟨-, honly, -, -, timer', ht', rfl⟩ := hf
    obtain rfl := honly x hactive hP
    rw [ht] at ht'
    cases ht'
    exact ⟨_, rfl, hle⟩
  | spent id =>
    obtain ⟨-, honly, hs⟩ := hf
    obtain rfl := honly x hactive hP
    exact absurd hs hnot
  | atMost id => exact absurd rfl (hne id)

/-- Afterwards it is spent. -/
theorem turn (hf : Q.Holds P (.waiting id expiration)) (hid : Q.nextStart = some id)
    {time : ℕ} (hclock : Q.clock ≤ time) : (Q.turn time).Holds P (.spent id) := by
  have he : Effect (fun _ _ => true) 0 0 Q (.turn time) (Q.turn time) := effect_turn hclock
  refine ⟨hf.1, fun x hx hPx => hf.2.1 x ?_ hPx, started_turn hid time⟩
  exact (he.active_sub hx).resolve_right fun hnew => by cases hnew

/-- Between passes a spent timer is gone. -/
theorem idle (hf : Q.Holds P (.spent id)) (h : Q.OneShot) (hidle : Q.phase = .idle) :
    Q.Holds P .absent := by
  intro x hx hPx
  obtain rfl := hf.2.1 x hx hPx
  exact h.not_started_of_idle hidle hx hf.2.2

theorem atMost_of_waiting (hf : Q.Holds P (.waiting id expiration)) : Q.Holds P (.atMost id) :=
  ⟨fun _ => hf.1, hf.2.1⟩

theorem atMost_of_absent (hf : Q.Holds P .absent) (hid : id ≠ 0 → P id) :
    Q.Holds P (.atMost id) :=
  ⟨hid, fun x hx hPx => absurd hPx (hf x hx)⟩

end Holds

theorem activeTimers_cancelInLoop (h : Q.Consistent) (id : TimerId) :
    (Q.cancelInLoop id).activeTimers = Q.activeTimers.erase id := by
  by_cases hid : id ∈ Q.activeTimers
  · obtain ⟨⟨timer, ht, -⟩, -⟩ := h.active id hid
    have hid' : id ∈ (Q.record (.cancelled id)).activeTimers := hid
    have ht' : (Q.record (.cancelled id)).heap id = some timer := ht
    simp only [cancelInLoop, hid', ht', if_true]
    rfl
  · have hid' : id ∉ (Q.record (.cancelled id)).activeTimers := hid
    simp only [cancelInLoop, hid', if_false]
    exact (Finset.erase_eq_of_notMem hid).symm

namespace Holds

variable {P P' : TimerId → Prop} {expiration : ℕ}

/-- The cancel of the only timer that there can be. -/
theorem cancel (hf : Q.Holds P (.atMost id)) (h : Q.Consistent) (hcall : Q.phase.mayCall = true) :
    (Q.exec ptrLess (.cancelInLoop id)).Holds P .absent := by
  intro x hx hPx
  rw [exec, if_pos hcall, activeTimers_cancelInLoop h, Finset.mem_erase] at hx
  exact hx.1 (hf.2 x hx.2 hPx)

/-- A new timer joins the family. -/
theorem add (hf : Q.Holds P .absent) (h : Q.OneShot) (hcall : Q.phase.mayCall = true)
    (hnone : Q.heap id = none) (hP : ∀ x, P' x → P x ∨ x = id) (hid : P' id)
    (interval : ℕ) (repeating : Bool) (delayUs now : ℕ) :
    (Q.exec ptrLess (.addTimerInLoop id interval repeating delayUs now)).Holds P'
      (.waiting id (saturatingAdd delayUs now)) := by
  rw [exec, if_pos hcall]
  refine ⟨hid, fun x hx hPx => ?_, Finset.mem_insert_self _ _, ?_, _, Function.update_self .., rfl⟩
  · obtain rfl | hx := Finset.mem_insert.mp hx
    · rfl
    · exact (hP x hPx).resolve_left (hf x hx)
  · rintro ⟨e, t, hmem⟩
    obtain hmem | hmem := List.mem_append.mp hmem
    · exact (h.cancellation.fresh id hnone).2 e t hmem
    · cases List.mem_singleton.mp hmem

end Holds

end TimerQueue

end AegisNet
