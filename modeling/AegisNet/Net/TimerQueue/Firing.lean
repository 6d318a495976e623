import AegisNet.Net.TimerQueue.Pass
import Mathlib.Data.Finset.Card

/-!
# When timers fire

What a callback's start depends on is spread over the `canceled` flag, the containers and the batch
that the pass has collected. Two invariants of the log bring it together, one on cancelled timers
and one on the times of starts; with the invariant of passes they give the firing law.

## Main definitions

- `TimerQueue.Cancellation`, `TimerQueue.Timing` — the invariants of the log

## Main results

- `TimerQueue.firing_law` — when callbacks start, over every run
-/

namespace AegisNet

namespace TimerQueue

variable {ptrLess : TimerId → TimerId → Bool} {Q Q' : TimerQueue} {l : TimerStep} {low high : ℕ}

/-! ## Cancelled timers -/

/-- The invariant of cancelled timers. -/
structure Cancellation (Q : TimerQueue) : Prop where
  /-- An unknown timer has no history. -/
  fresh : ∀ id, Q.heap id = none → .added id ∉ Q.log ∧ ∀ e t, .started id e t ∉ Q.log
  /-- A cancelled timer is out of the containers, and if its turn is to come it is marked. -/
  gone : ∀ id, [.added id, .cancelled id].Sublist Q.log → id ∉ Q.activeTimers ∧
    (id ∈ Q.phase.turns → ∃ timer, Q.heap id = some timer ∧ timer.canceled = true)
  no_start : ∀ id e t, ¬[.added id, .cancelled id, .started id e t].Sublist Q.log

theorem none_of_update {heap : TimerId → Option Timer} {id id₀ : TimerId} {timer : Timer}
    (h : Function.update heap id₀ (some timer) id = none) : id ≠ id₀ ∧ heap id = none := by
  by_cases hid : id = id₀
  · simp [hid] at h
  · exact ⟨hid, by rwa [Function.update_of_ne hid] at h⟩

/-- Timer objects stay. -/
theorem Effect.heap_none (he : Effect ptrLess low high Q l Q') {id : TimerId}
    (h : Q'.heap id = none) : Q.heap id = none := by
  cases he with
  | add _ _ _ _ _ => exact (none_of_update h).2
  | cancel _ _ _ => exact (none_of_update h).2
  | rearm _ _ _ _ _ _ _ _ _ => exact (none_of_update h).2
  | _ => exact h

theorem Effect.fresh (he : Effect ptrLess low high Q l Q')
    (h : ∀ id, Q.heap id = none → .added id ∉ Q.log ∧ ∀ e t, .started id e t ∉ Q.log) :
    ∀ id, Q'.heap id = none → .added id ∉ Q'.log ∧ ∀ e t, .started id e t ∉ Q'.log := by
  intro id hid
  have hold := h id (he.heap_none hid)
  cases he with
  | add _ _ _ _ _ =>
    have hne := (none_of_update hid).1
    simpa [hne] using hold
  | @start _ _ _ _ id₀ _ _ _ ht _ _ =>
    have hne : id ≠ id₀ := by
      rintro rfl
      exact absurd (ht.symm.trans hid) (by simp)
    simpa [hne] using hold
  | cancelInactive _ _ => simpa [record] using hold
  | cancel _ _ _ => simpa using hold
  | skip _ _ _ => simpa using hold
  | _ => exact hold

theorem Effect.gone (he : Effect ptrLess low high Q l Q') (hb : Q.Batched) (h : Q.Cancellation)
    {id : TimerId} (hid : [.added id, .cancelled id].Sublist Q'.log) : id ∉ Q'.activeTimers ∧
      (id ∈ Q'.phase.turns → ∃ timer, Q'.heap id = some timer ∧ timer.canceled = true) := by
  cases he with
  | stutter => exact h.gone id hid
  | @add id₀ _ _ _ _ _ hnew _ _ _ =>
    simp only [List.pair_sublist_concat, reduceCtorEq, and_false, or_false] at hid
    have hne : id ≠ id₀ := by
      rintro rfl
      exact (h.fresh id hnew).1 (hid.subset (by simp))
    dsimp only
    rw [Finset.mem_insert, Function.update_of_ne hne, ReadPhase.turns_record]
    exact ⟨not_or.mpr ⟨hne, (h.gone id hid).1⟩, (h.gone id hid).2⟩
  | @cancelInactive id₀ _ hid₀ =>
    show id ∉ Q.activeTimers ∧ (id ∈ (Q.phase.record _).turns → _)
    rw [ReadPhase.turns_record]
    obtain hold | ⟨-, heq⟩ := List.pair_sublist_concat.mp hid
    · exact h.gone id hold
    · cases heq
      exact ⟨hid₀, fun hturn => hb.canceled hturn hid₀⟩
  | @cancel id₀ timer _ hid₀ ht =>
    dsimp only
    rw [ReadPhase.turns_record]
    by_cases hne : id = id₀
    · subst hne
      exact ⟨Finset.notMem_erase _ _, fun _ => ⟨_, Function.update_self _ _ _, rfl⟩⟩
    · obtain hold | ⟨-, heq⟩ := List.pair_sublist_concat.mp hid
      · rw [Function.update_of_ne hne]
        exact ⟨fun hin => (h.gone id hold).1 (Finset.mem_of_mem_erase hin), (h.gone id hold).2⟩
      · exact absurd (TimerEvent.cancelled.inj heq) hne
  | beginRead _ _ _ =>
    refine ⟨(h.gone id hid).1, fun hturn => absurd ?_ (h.gone id hid).1⟩
    -- the batch is made of active timers
    obtain ⟨k, hmem, -⟩ := hb.consistent.mem_batch.mp hturn
    exact (hb.consistent.entry _ hmem).1
  | start hphase _ _ _ =>
    simp only [List.pair_sublist_concat, reduceCtorEq, and_false, or_false] at hid
    refine ⟨(h.gone id hid).1, fun hturn => (h.gone id hid).2 ?_⟩
    rw [hphase]
    exact List.mem_cons_of_mem _ hturn
  | skip hphase _ _ =>
    simp only [List.pair_sublist_concat, reduceCtorEq, and_false, or_false] at hid
    refine ⟨(h.gone id hid).1, fun hturn => (h.gone id hid).2 ?_⟩
    rw [hphase]
    exact List.mem_cons_of_mem _ hturn
  | letGo _ =>
    refine ⟨fun hin => (h.gone id hid).1 (Finset.mem_of_mem_erase hin), fun hturn => ?_⟩
    exact absurd hturn List.not_mem_nil
  | _ => exact ⟨(h.gone id hid).1, fun hturn => absurd hturn List.not_mem_nil⟩

/-- The step starts the timer at the front of the turns, which is due at `e`, at the time `t`. -/
structure Starts (Q : TimerQueue) (l : TimerStep) (Q' : TimerQueue) (id : TimerId) (e t : ℕ) :
    Prop where
  label : l = .turn t
  turns : Q.phase.turns = id :: Q'.phase.turns
  clock_le : Q.clock ≤ t
  clock : Q'.clock = t
  timers : Q'.timers = Q.timers
  heap : Q'.heap = Q.heap
  timer : ∃ timer, Q.heap id = some timer ∧ timer.expiration = e ∧ timer.canceled = false

theorem Starts.mem_turns {id : TimerId} {e t : ℕ} (h : Q.Starts l Q' id e t) :
    id ∈ Q.phase.turns := by
  rw [h.turns]
  exact List.mem_cons_self

/-- A step writes at most one event, and a start only where a timer takes its turn. -/
theorem Effect.log_cases (he : Effect ptrLess low high Q l Q') :
    Q'.log = Q.log ∨ ∃ event, Q'.log = Q.log ++ [event] ∧
      ∀ id e t, event = .started id e t → Q.Starts l Q' id e t := by
  cases he with
  | add _ _ _ _ _ => exact .inr ⟨_, rfl, nofun⟩
  | cancelInactive _ _ => exact .inr ⟨_, rfl, nofun⟩
  | cancel _ _ _ => exact .inr ⟨_, rfl, nofun⟩
  | skip _ _ _ => exact .inr ⟨_, rfl, nofun⟩
  | start hphase ht hc hclock =>
    refine .inr ⟨_, rfl, fun id e t heq => ?_⟩
    cases heq
    exact ⟨rfl, by rw [hphase]; rfl, hclock, rfl, rfl, rfl, _, ht, rfl, hc⟩
  | _ => exact .inl rfl

/-- The log only grows. -/
theorem Effect.log_prefix (he : Effect ptrLess low high Q l Q') : Q.log <+: Q'.log := by
  obtain hsame | ⟨event, hlog, -⟩ := he.log_cases
  · rw [hsame]
  · rw [hlog]
    exact List.prefix_append _ _

/-- A start is an earlier one, or it is made by the step. -/
theorem Effect.started (he : Effect ptrLess low high Q l Q') {id : TimerId} {e t : ℕ}
    (h : .started id e t ∈ Q'.log) : .started id e t ∈ Q.log ∨ Q.Starts l Q' id e t := by
  obtain hsame | ⟨event, hlog, hstart⟩ := he.log_cases
  · exact .inl (hsame ▸ h)
  · rw [hlog, List.mem_append, List.mem_singleton] at h
    exact h.imp_right fun heq => hstart id e t heq.symm

theorem Effect.no_start (he : Effect ptrLess low high Q l Q') (h : Q.Cancellation) {id : TimerId}
    {e t : ℕ} : ¬[.added id, .cancelled id, .started id e t].Sublist Q'.log := by
  intro hsub
  obtain hsame | ⟨event, hlog, hstart⟩ := he.log_cases
  · exact h.no_start id e t (hsame ▸ hsub)
  · rw [hlog, List.triple_sublist_concat] at hsub
    obtain hold | ⟨hold, heq⟩ := hsub
    · exact h.no_start id e t hold
    · -- it would be marked
      have hs := hstart id e t heq.symm
      obtain ⟨marked, hmarked, hc⟩ := (h.gone id hold).2 hs.mem_turns
      obtain ⟨timer, ht, -, hc'⟩ := hs.timer
      rw [ht, Option.some.injEq] at hmarked
      rw [hmarked, hc] at hc'
      exact Bool.noConfusion hc'

theorem Effect.cancellation (he : Effect ptrLess low high Q l Q') (hb : Q.Batched)
    (h : Q.Cancellation) : Q'.Cancellation where
  fresh := he.fresh h.fresh
  gone _ := he.gone hb h
  no_start _ _ _ := he.no_start h

/-! ## Times -/

/-- The invariant of the times of starts. -/
structure Timing (Q : TimerQueue) : Prop where
  on_time : ∀ id e t, .started id e t ∈ Q.log → e ≤ t ∧ t ≤ Q.clock
  due : ∀ id ∈ Q.phase.turns, ∀ timer, Q.heap id = some timer → timer.expiration ≤ Q.clock
  /-- A timer that was started and is to be started again is a repeating one, and its interval has
      passed at its expiration. -/
  restart : ∀ id e t timer, .started id e t ∈ Q.log → Q.heap id = some timer →
    (id ∈ Q.timerIds → timer.repeating = true ∧
      (t + timer.interval ≤ timer.expiration ∨ timer.expiration = kInt64Max)) ∧
    (id ∈ Q.phase.turns → timer.repeating = true ∧ t + timer.interval ≤ timer.expiration)
  spaced : ∀ id e t e' t' timer, [.started id e t, .started id e' t'].Sublist Q.log →
    Q.heap id = some timer → timer.repeating = true ∧ t + timer.interval ≤ t'

theorem Effect.clock_le (he : Effect ptrLess low high Q l Q') : Q.clock ≤ Q'.clock := by
  cases he with
  | add _ _ hclock _ _ => exact hclock
  | beginRead _ hclock _ => exact hclock
  | start _ _ _ hclock => exact hclock
  | rearm _ _ _ _ _ _ hclock _ _ => exact hclock
  | _ => exact le_refl _

theorem some_of_update {heap : TimerId → Option Timer} {id id₀ : TimerId} {timer timer₀ : Timer}
    (h : Function.update heap id₀ (some timer₀) id = some timer) :
    id = id₀ ∧ timer = timer₀ ∨ id ≠ id₀ ∧ heap id = some timer := by
  by_cases hid : id = id₀
  · subst hid
    rw [Function.update_self, Option.some.injEq] at h
    exact .inl ⟨rfl, h.symm⟩
  · rw [Function.update_of_ne hid] at h
    exact .inr ⟨hid, h⟩

/-- A timer is one-shot or repeating for good. -/
theorem Effect.heap_some (he : Effect ptrLess low high Q l Q') {id : TimerId} {timer : Timer}
    (h : Q'.heap id = some timer) :
    Q.heap id = none ∨ ∃ old, Q.heap id = some old ∧ timer.repeating = old.repeating ∧
      timer.interval = old.interval := by
  have hsame : Q.heap id = some timer → _ := fun h =>
    (Or.inr ⟨timer, h, rfl, rfl⟩ : Q.heap id = none ∨ ∃ old, Q.heap id = some old ∧
      timer.repeating = old.repeating ∧ timer.interval = old.interval)
  cases he with
  | add _ hnew _ _ _ =>
    obtain ⟨rfl, -⟩ | ⟨-, h⟩ := some_of_update h
    · exact .inl hnew
    · exact hsame h
  | cancel _ _ ht =>
    obtain ⟨rfl, rfl⟩ | ⟨-, h⟩ := some_of_update h
    · exact .inr ⟨_, ht, rfl, rfl⟩
    · exact hsame h
  | rearm _ ht _ _ _ _ _ _ _ =>
    obtain ⟨rfl, rfl⟩ | ⟨-, h⟩ := some_of_update h
    · exact .inr ⟨_, ht, rfl, rfl⟩
    · exact hsame h
  | _ => exact hsame h

/-- A timer that waits for its turn has waited for it before, or the pass has just collected it. -/
theorem Effect.mem_turns (he : Effect ptrLess low high Q l Q') (hb : Q.Batched) {id : TimerId}
    (hid : id ∈ Q'.phase.turns) :
    id ∈ Q.phase.turns ∨
      (∃ k, (k, id) ∈ Q.timers ∧ k ≤ Q'.clock) ∧ Q'.clock ≤ high ∧ Q'.heap = Q.heap ∧
        Q'.log = Q.log := by
  cases he with
  | stutter => exact .inl hid
  | add _ _ _ _ _ => exact .inl (by simpa using hid)
  | cancelInactive _ _ =>
    have hid' : id ∈ (Q.phase.record _).turns := hid
    rw [ReadPhase.turns_record] at hid'
    exact .inl hid'
  | cancel _ _ _ => exact .inl (by simpa using hid)
  | beginRead _ _ hnow => exact .inr ⟨hb.consistent.mem_batch.mp hid, hnow, rfl, rfl⟩
  | start hphase _ _ _ =>
    left
    rw [hphase]
    exact List.mem_cons_of_mem _ hid
  | skip hphase _ _ =>
    left
    rw [hphase]
    exact List.mem_cons_of_mem _ hid
  | _ => exact absurd hid List.not_mem_nil

/-- While a timer waits for its turn, it can only be marked. -/
theorem Effect.heap_turn (he : Effect ptrLess low high Q l Q') (hb : Q.Batched) {id : TimerId}
    {timer : Timer} (hid : id ∈ Q.phase.turns) (ht : Q'.heap id = some timer) :
    ∃ old, Q.heap id = some old ∧ timer.expiration = old.expiration ∧
      timer.repeating = old.repeating ∧ timer.interval = old.interval := by
  cases he with
  | add _ hnew _ _ _ =>
    obtain ⟨heq, -⟩ | ⟨-, ht⟩ := some_of_update ht
    · exact absurd heq (hb.ne_of_none hid hnew)
    · exact ⟨timer, ht, rfl, rfl, rfl⟩
  | cancel _ _ ht₀ =>
    obtain ⟨rfl, rfl⟩ | ⟨-, ht⟩ := some_of_update ht
    · exact ⟨_, ht₀, rfl, rfl, rfl⟩
    · exact ⟨timer, ht, rfl, rfl, rfl⟩
  | rearm hphase _ _ _ _ _ _ _ _ =>
    rw [hphase] at hid
    exact absurd hid List.not_mem_nil
  | _ => exact ⟨timer, ht, rfl, rfl, rfl⟩

theorem Effect.due (he : Effect ptrLess low high Q l Q') (hb : Q.Batched) (h : Q.Timing) :
    ∀ id ∈ Q'.phase.turns, ∀ timer, Q'.heap id = some timer → timer.expiration ≤ Q'.clock := by
  intro id hid timer ht
  obtain hold | ⟨⟨k, hmem, hle⟩, -, hheap, -⟩ := he.mem_turns hb hid
  · obtain ⟨old, hsome, hexp, -⟩ := he.heap_turn hb hold ht
    rw [hexp]
    exact (h.due id hold old hsome).trans he.clock_le
  · rw [hheap] at ht
    rwa [hb.consistent.key_eq hmem ht] at hle

theorem Effect.on_time (he : Effect ptrLess low high Q l Q') (h : Q.Timing) :
    ∀ id e t, .started id e t ∈ Q'.log → e ≤ t ∧ t ≤ Q'.clock := by
  intro id e t hlog
  obtain hold | hs := he.started hlog
  · exact ⟨(h.on_time id e t hold).1, (h.on_time id e t hold).2.trans he.clock_le⟩
  · obtain ⟨timer, ht, rfl, -⟩ := hs.timer
    exact ⟨(h.due id hs.mem_turns timer ht).trans hs.clock_le, hs.clock.ge⟩

/-- A started timer that is in the containers is one that was re-armed. -/
theorem Effect.restart_timers (he : Effect ptrLess low high Q l Q') (hb : Q.Batched)
    (hc : Q.Cancellation) (h : Q.Timing) {id : TimerId} {e t : ℕ} {timer : Timer}
    (hlog : .started id e t ∈ Q'.log) (ht : Q'.heap id = some timer) (hid : id ∈ Q'.timerIds) :
    timer.repeating = true ∧
      (t + timer.interval ≤ timer.expiration ∨ timer.expiration = kInt64Max) := by
  obtain hstart | hs := he.started hlog
  swap
  · -- started now, and out of the containers
    rw [timerIds, hs.timers] at hid
    exact absurd hid (hb.notMem_timerIds hs.mem_turns)
  have hold := fun timer ht => (h.restart id e t timer hstart ht).1
  cases he with
  | add _ hnew _ _ _ =>
    obtain ⟨rfl, -⟩ | ⟨hne, ht⟩ := some_of_update ht
    · exact absurd hstart ((hc.fresh _ hnew).2 e t)
    · exact hold timer ht ((mem_insert_timerIds.mp hid).resolve_left hne)
  | cancel _ _ ht₀ =>
    have hid' : id ∈ Q.timerIds := (List.erase_sublist.map Prod.snd).subset hid
    obtain ⟨rfl, rfl⟩ | ⟨-, ht⟩ := some_of_update ht
    · have hmarked := hold _ ht₀ hid'
      exact hmarked
    · exact hold timer ht hid'
  | beginRead _ _ _ => exact hold timer ht (((List.dropWhile_sublist _).map Prod.snd).subset hid)
  | rearm _ _ hrep _ _ _ hclock _ _ =>
    have hle := (h.on_time id e t hstart).2
    obtain ⟨rfl, rfl⟩ | ⟨hne, ht⟩ := some_of_update ht
    · refine ⟨hrep, ?_⟩
      simp only [saturatingAdd]
      split <;> omega
    · exact hold timer ht ((mem_insert_timerIds.mp hid).resolve_left hne)
  | _ => exact hold timer ht hid

/-- A started timer that waits for its turn was in the containers before. -/
theorem Effect.restart_turns (he : Effect ptrLess low high Q l Q') (hhigh : high < kInt64Max)
    (hb : Q.Batched) (h : Q.Timing) {id : TimerId} {e t : ℕ} {timer : Timer}
    (hlog : .started id e t ∈ Q'.log) (ht : Q'.heap id = some timer)
    (hid : id ∈ Q'.phase.turns) :
    timer.repeating = true ∧ t + timer.interval ≤ timer.expiration := by
  obtain hold | ⟨⟨k, hmem, hle⟩, hnow, hheap, hsame⟩ := he.mem_turns hb hid
  · obtain hlog | hs := he.started hlog
    · obtain ⟨old, hsome, hexp, hrep, hint⟩ := he.heap_turn hb hold ht
      rw [hexp, hrep, hint]
      exact (h.restart id e t old hlog hsome).2 hold
    · -- started now, and no turn is left
      have hnodup := hb.turns_out.nodup hb.consistent.out_nodup
      rw [hs.turns, List.nodup_cons] at hnodup
      exact absurd hid hnodup.1
  · rw [hheap] at ht
    rw [hsame] at hlog
    have hkey := hb.consistent.key_eq hmem ht
    -- an expiration that has passed is no saturated one
    obtain ⟨hrep, hor⟩ := (h.restart id e t timer hlog ht).1 (mem_timerIds.mpr ⟨k, hmem⟩)
    exact ⟨hrep, hor.resolve_right (by omega)⟩

theorem Effect.spaced (he : Effect ptrLess low high Q l Q') (hc : Q.Cancellation) (h : Q.Timing) :
    ∀ id e t e' t' timer, [.started id e t, .started id e' t'].Sublist Q'.log →
      Q'.heap id = some timer → timer.repeating = true ∧ t + timer.interval ≤ t' := by
  intro id e t e' t' timer hlog ht
  have hold : [.started id e t, .started id e' t'].Sublist Q.log →
      timer.repeating = true ∧ t + timer.interval ≤ t' := by
    intro hold
    obtain hnone | ⟨old, hsome, hrep, hint⟩ := he.heap_some ht
    · exact absurd (hold.subset (by simp)) ((hc.fresh id hnone).2 e t)
    · rw [hrep, hint]
      exact h.spaced id e t e' t' old hold hsome
  obtain hsame | ⟨event, hlog', hstart⟩ := he.log_cases
  · exact hold (hsame ▸ hlog)
  · rw [hlog', List.pair_sublist_concat] at hlog
    obtain hlog | ⟨hmem, heq⟩ := hlog
    · exact hold hlog
    · -- the turn has come after the interval
      have hs := hstart id e' t' heq.symm
      rw [hs.heap] at ht
      obtain ⟨hrep, hle⟩ := (h.restart id e t timer hmem ht).2 hs.mem_turns
      exact ⟨hrep, hle.trans ((h.due id hs.mem_turns timer ht).trans hs.clock_le)⟩

theorem Effect.timing (he : Effect ptrLess low high Q l Q') (hhigh : high < kInt64Max)
    (hb : Q.Batched) (hc : Q.Cancellation) (h : Q.Timing) : Q'.Timing where
  on_time := he.on_time h
  due := he.due hb h
  restart _ _ _ _ hlog ht :=
    ⟨he.restart_timers hb hc h hlog ht, he.restart_turns hhigh hb h hlog ht⟩
  spaced := he.spaced hc h

/-! ## The law -/

/-- Everything that the starts of timers rest on. -/
structure Sound (Q : TimerQueue) : Prop where
  batched : Q.Batched
  cancellation : Q.Cancellation
  timing : Q.Timing
  progress : Q.phase.Progress Q.heap
  passes : ∀ p ∈ Q.passes, p.Ended

theorem sound_empty : Sound {} where
  batched := ⟨consistent_empty, List.Sublist.refl _⟩
  cancellation := ⟨by simp, by simp, by simp⟩
  timing := ⟨by simp, by simp, by simp, by simp⟩
  progress := trivial
  passes := by simp

theorem sound_of_run {ls : List TimerStep}
    (hr : Run (Step ptrLess 0 (kInt64Max - 1)) {} ls Q) : Q.Sound := by
  refine hr.invariant (P := Sound) sound_empty ?_
  rintro Q l _ ⟨hb, hc, ht, hp, hps⟩ ⟨hl, rfl⟩
  have he : Effect ptrLess 0 (kInt64Max - 1) Q l (Q.exec ptrLess l) := hb.consistent.effect hl
  exact ⟨he.batched hb, he.cancellation hb hc, he.timing (by decide) hb hc ht, he.progress hb hp,
    he.passes hp hps⟩

/-- A turn is always possible while turns are left. -/
theorem Batched.turns_turn (h : Q.Batched) (time : ℕ) :
    (Q.turn time).phase.turns = Q.phase.turns.tail := by
  unfold turn
  split
  · next pass expired id turns inCallback hphase =>
    have hmem : id ∈ Q.phase.turns := by simp [hphase, ReadPhase.turns]
    obtain ⟨-, timer, ht, -⟩ := h.consistent.out id (h.turns_out.subset hmem)
    rw [ht]
    dsimp only
    split
    · rw [hphase]; rfl
    · rw [hphase]; rfl
  · next hphase =>
    cases hp : Q.phase with
    | idle => rfl
    | running pass expired turns inCallback =>
      cases turns with
      | nil => rfl
      | cons id turns => exact absurd hp (hphase _ _ _ _ _)
    | rearming pass rest => rfl

/-- **Timer firing law.** -/
theorem firing_law {ls : List TimerStep} (hr : Run (Step ptrLess 0 (kInt64Max - 1)) {} ls Q) :
    -- never before the expiration, and never after a cancel that came after the add
    (∀ id e t, .started id e t ∈ Q.log → e ≤ t) ∧
    (∀ id e t, ¬[.added id, .cancelled id, .started id e t].Sublist Q.log) ∧
    -- two starts of one timer
    (∀ id e t e' t' timer, Q.heap id = some timer →
      [.started id e t, .started id e' t'].Sublist Q.log →
        timer.repeating = true ∧ t + timer.interval ≤ t') ∧
    -- a pass
    (∀ p ∈ Q.passes,
      p.turnIds.Nodup ∧ (∀ id, id ∈ p.turnIds ↔ id ∈ p.due) ∧
      (p.starts.map Prod.fst).Nodup ∧
      (∀ id, id ∈ p.starts.map Prod.fst ↔ id ∈ p.due ∧ ¬p.CancelledBeforeTurn id) ∧
      (p.starts.map Prod.snd).Pairwise (· ≤ ·) ∧
      ∀ id, .added id ∈ p.events → id ∉ p.starts.map Prod.fst) ∧
    -- a pass in progress has as many turns as timers were due, and each can be taken
    (∀ pass expired turns inCallback, Q.phase = .running pass expired turns inCallback →
      pass.turnIds.length + turns.length = pass.due.card ∧
      ∀ time, (Q.exec ptrLess (.turn time)).phase.turns = turns.tail) := by
  have hs := sound_of_run hr
  refine ⟨fun id e t hmem => (hs.timing.on_time id e t hmem).1, hs.cancellation.no_start,
    fun id e t e' t' timer ht hsub => hs.timing.spaced id e t e' t' timer hsub ht, ?_, ?_⟩
  · intro p hp
    have hended := hs.passes p hp
    refine ⟨hended.turns_nodup, fun id => hended.mem_turnIds,
      p.starts_sublist.nodup hended.turns_nodup, fun id => hended.mem_starts,
      hended.starts_sorted, fun id hadd hstart => ?_⟩
    exact hended.added id hadd (hended.mem_starts.mp hstart).1
  · intro pass expired turns inCallback hphase
    have hprogress := hs.progress
    rw [hphase] at hprogress
    have hcard : (pass.turnIds ++ turns).toFinset = pass.due := by
      ext id
      rw [List.mem_toFinset, hprogress.2.due id]
    refine ⟨?_, fun time => ?_⟩
    · rw [← hcard, List.toFinset_card_of_nodup hprogress.2.nodup, List.length_append]
    · show (Q.turn time).phase.turns = _
      rw [hs.batched.turns_turn, hphase]
      rfl

/-- Two passes: in the first a callback cancels the other timer of the batch and adds a timer with
    no delay, which waits for the second. -/
theorem firing_law_batch :
    let Q := [.addTimerInLoop 1 5 true 3 1, .addTimerInLoop 2 0 false 4 2, .beginRead 10, .turn 10,
      .addTimerInLoop 3 0 false 0 11, .cancelInLoop 2, .turn 12, .beginRearm, .rearm 13, .rearm 13,
      .endRead, .beginRead 20, .turn 20, .turn 21, .beginRearm, .rearm 22, .rearm 22,
      .endRead].foldl (exec fun a b => decide (a < b)) {}
    Q.passes.map Pass.starts = [[(1, 4)], [(3, 11), (1, 18)]] ∧
      (∀ id e t, .started id e t ∈ Q.log → e ≤ t) ∧
      (∀ id e t, ¬[.added id, .cancelled id, .started id e t].Sublist Q.log) ∧
      ∀ p ∈ Q.passes,
        ∀ id, id ∈ p.starts.map Prod.fst ↔ id ∈ p.due ∧ ¬p.CancelledBeforeTurn id := by
  intro Q
  have hall := firing_law (Q := Q)
    (Run.of_allowed (Q := TimerStep.Enabled 0 (kInt64Max - 1)) (by decide +kernel))
  exact ⟨by decide +kernel, hall.1, hall.2.1, fun p hp => (hall.2.2.2.1 p hp).2.2.2.1⟩

end TimerQueue

end AegisNet
