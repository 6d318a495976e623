import AegisNet.Lib.History
import AegisNet.Net.TimerQueue.Invariant

/-!
# Passes of the timer queue

A pass gives every timer of its batch one turn, in the order of their expirations, whatever the
callbacks do: a cancel marks a timer of the batch, and a new timer is none of the batch. The
invariant of a pass says what its events so far and the turns left have to do with each other.

## Main definitions

- `Pass.turnIds`, `Pass.starts` — the turns and the starts of a pass, in order
- `TimerQueue.Batched` — the turns left belong to timers that the pass has taken out
- `Pass.Progress` — the invariant of a pass with some turns left
-/

namespace AegisNet

/-- The timer whose turn it was. -/
def TimerEvent.turnId : TimerEvent → Option TimerId
  | started id _ _ | skipped id => some id
  | added _ | cancelled _ => none

/-- The timer that was started, and its expiration. -/
def TimerEvent.start : TimerEvent → Option (TimerId × ℕ)
  | started id expiration _ => some (id, expiration)
  | _ => none

/-- The timers that have had their turn. -/
def Pass.turnIds (p : Pass) : List TimerId := p.events.filterMap TimerEvent.turnId

def Pass.starts (p : Pass) : List (TimerId × ℕ) := p.events.filterMap TimerEvent.start

def Pass.CancelledBeforeTurn (p : Pass) (id : TimerId) : Prop :=
  ∃ e : TimerEvent, e.turnId = some id ∧ [.cancelled id, e].Sublist p.events

/-- The turns left in the first loop. -/
def ReadPhase.turns : ReadPhase → List TimerId
  | running _ _ turns _ => turns
  | _ => []

@[simp] theorem ReadPhase.turns_record (phase : ReadPhase) (e : TimerEvent) :
    (phase.record e).turns = phase.turns := by
  cases phase <;> rfl

namespace TimerQueue

variable {ptrLess : TimerId → TimerId → Bool} {Q Q' : TimerQueue} {l : TimerStep} {low high : ℕ}

/-! ## The batch -/

/-- The turns left are timers that the pass has taken out. -/
theorem Effect.turns_out (he : Effect ptrLess low high Q l Q')
    (h : Q.phase.turns.Sublist Q.phase.out) : Q'.phase.turns.Sublist Q'.phase.out := by
  cases he with
  | stutter => exact h
  | add _ _ _ _ _ =>
    show (Q.phase.record _).turns.Sublist (Q.phase.record _).out
    simpa using h
  | cancelInactive _ _ =>
    show (Q.phase.record _).turns.Sublist (Q.phase.record _).out
    simpa using h
  | cancel _ _ _ => simpa using h
  | beginRead _ _ _ => exact List.Sublist.refl _
  | start hphase _ _ _ =>
    rw [hphase] at h
    exact (List.sublist_cons_self _ _).trans h
  | skip hphase _ _ =>
    rw [hphase] at h
    exact (List.sublist_cons_self _ _).trans h
  | _ => exact List.nil_sublist _

/-- What the invariants below use of the containers. -/
structure Batched (Q : TimerQueue) : Prop where
  consistent : Q.Consistent
  turns_out : Q.phase.turns.Sublist Q.phase.out

theorem Effect.batched (he : Effect ptrLess low high Q l Q') (h : Q.Batched) : Q'.Batched :=
  ⟨he.consistent h.consistent, he.turns_out h.turns_out⟩

theorem Batched.notMem_timerIds (h : Q.Batched) {id : TimerId} (hid : id ∈ Q.phase.turns) :
    id ∉ Q.timerIds :=
  (h.consistent.out id (h.turns_out.subset hid)).1

/-- A timer that waits for its turn is active or marked. -/
theorem Batched.canceled (h : Q.Batched) {id : TimerId} (hid : id ∈ Q.phase.turns)
    (hactive : id ∉ Q.activeTimers) : ∃ timer, Q.heap id = some timer ∧ timer.canceled = true := by
  obtain ⟨-, timer, ht, hor⟩ := h.consistent.out id (h.turns_out.subset hid)
  exact ⟨timer, ht, hor.resolve_left hactive⟩

theorem Batched.ne_of_none (h : Q.Batched) {id id' : TimerId} (hid : id ∈ Q.phase.turns)
    (hnone : Q.heap id' = none) : id ≠ id' := by
  rintro rfl
  exact (h.consistent.notMem_of_none hnone).2.2 (h.turns_out.subset hid)

/-- The batch of a pass. -/
theorem Consistent.mem_batch (h : Q.Consistent) {now : ℕ} {id : TimerId} :
    id ∈ (Q.beginRead now).phase.turns ↔ ∃ k, (k, id) ∈ Q.timers ∧ k ≤ now := by
  show id ∈ (Q.timers.takeWhile _).map Prod.snd ↔ _
  simp [h.sorted.mem_takeWhile]
end TimerQueue

/-! ## The progress of a pass -/

def expirationIn (heap : TimerId → Option Timer) (id : TimerId) : ℕ :=
  ((heap id).map Timer.expiration).getD 0

/-- The pass with one more event. -/
abbrev Pass.push (p : Pass) (e : TimerEvent) : Pass := { p with events := p.events ++ [e] }

@[simp] theorem Pass.turnIds_push (p : Pass) (e : TimerEvent) :
    (p.push e).turnIds = p.turnIds ++ e.turnId.toList := by
  cases e <;> simp [Pass.turnIds, TimerEvent.turnId]

@[simp] theorem Pass.starts_push (p : Pass) (e : TimerEvent) :
    (p.push e).starts = p.starts ++ e.start.toList := by
  cases e <;> simp [Pass.starts, TimerEvent.start]

/-- The invariant of a pass with the turns `turns` left. -/
structure Pass.Progress (heap : TimerId → Option Timer) (p : Pass) (turns : List TimerId) :
    Prop where
  nodup : (p.turnIds ++ turns).Nodup
  due : ∀ id, id ∈ p.turnIds ++ turns ↔ id ∈ p.due
  sorted : (p.starts.map Prod.snd ++ turns.map (expirationIn heap)).Pairwise (· ≤ ·)
  added : ∀ id, .added id ∈ p.events → id ∉ p.due
  started : ∀ id e t, ¬[.cancelled id, .started id e t].Sublist p.events
  skipped : ∀ id, .skipped id ∈ p.events → [.cancelled id, .skipped id].Sublist p.events
  /-- The mark of a timer with its turn to come says whether it was cancelled in this pass. -/
  cancelled : ∀ id ∈ turns, ∀ timer, heap id = some timer →
    (timer.canceled = true ↔ .cancelled id ∈ p.events)

namespace Pass.Progress

variable {heap heap' : TimerId → Option Timer} {p : Pass} {turns : List TimerId} {id : TimerId}
  {timer : Timer}

theorem heap_irrel (h : p.Progress heap []) : p.Progress heap' [] :=
  { h with cancelled := fun _ hid => absurd hid List.not_mem_nil }

theorem mem_due (h : p.Progress heap turns) (hid : id ∈ turns) : id ∈ p.due :=
  (h.due id).mp (List.mem_append_right _ hid)

/-- One more event takes its turn, if it is one, off the turns left. -/
theorem push {e : TimerEvent} {turns' : List TimerId} (h : p.Progress heap turns)
    (hturns : turns = e.turnId.toList ++ turns')
    (hsorted : (e.start.toList.map Prod.snd ++ turns'.map (expirationIn heap')).Sublist
      (turns.map (expirationIn heap)))
    (hadded : ∀ id, e = .added id → id ∉ p.due)
    (hstarted : ∀ id x t, e = .started id x t → .cancelled id ∉ p.events)
    (hskipped : ∀ id, e = .skipped id → .cancelled id ∈ p.events)
    (hcancelled : ∀ id ∈ turns', ∀ timer, heap' id = some timer →
      (timer.canceled = true ↔ .cancelled id ∈ p.events ++ [e])) :
    (p.push e).Progress heap' turns' := by
  have hids : (p.push e).turnIds ++ turns' = p.turnIds ++ turns := by
    rw [turnIds_push, List.append_assoc, hturns]
  constructor
  · rw [hids]
    exact h.nodup
  · intro id
    rw [hids]
    exact h.due id
  · rw [starts_push, List.map_append, List.append_assoc]
    exact h.sorted.sublist (hsorted.append_left _)
  · intro id hid
    obtain hid | hid := List.mem_append.mp hid
    · exact h.added id hid
    · exact hadded id (List.mem_singleton.mp hid).symm
  · intro id x t hsub
    obtain hsub | ⟨hmem, heq⟩ := List.pair_sublist_concat.mp hsub
    · exact h.started id x t hsub
    · exact hstarted id x t heq.symm hmem
  · intro id hid
    obtain hid | hid := List.mem_append.mp hid
    · exact (h.skipped id hid).trans (List.sublist_append_left _ _)
    · have heq := List.mem_singleton.mp hid
      exact List.pair_sublist_concat.mpr (.inr ⟨hskipped id heq.symm, heq⟩)
  · exact hcancelled

theorem push_added (h : p.Progress heap turns) (hid : id ∉ p.due) :
    (p.push (.added id)).Progress (Function.update heap id (some timer)) turns := by
  have hother : ∀ x ∈ turns, Function.update heap id (some timer) x = heap x := fun x hx =>
    Function.update_of_ne (fun (heq : x = id) => hid (heq ▸ h.mem_due hx)) _ _
  refine h.push rfl ?_ ?_ (fun _ _ _ heq => nomatch heq) (fun _ heq => nomatch heq) ?_
  · have hmap : turns.map (expirationIn (Function.update heap id (some timer))) =
        turns.map (expirationIn heap) := List.map_congr_left fun x hx => by
      rw [expirationIn, hother x hx, expirationIn]
    exact hmap ▸ List.Sublist.refl _
  · rintro _ ⟨⟩
    exact hid
  · intro x hx timer' ht'
    rw [hother x hx] at ht'
    simpa using h.cancelled x hx timer' ht'

/-- A cancel leaves the expirations, and marks a timer with its turn to come. -/
theorem push_cancelled (h : p.Progress heap turns) (hother : ∀ x, x ≠ id → heap' x = heap x)
    (hexp : expirationIn heap' id = expirationIn heap id)
    (hmark : id ∈ turns → ∃ timer, heap' id = some timer ∧ timer.canceled = true) :
    (p.push (.cancelled id)).Progress heap' turns := by
  refine h.push rfl ?_ (fun _ heq => nomatch heq) (fun _ _ _ heq => nomatch heq)
    (fun _ heq => nomatch heq) ?_
  · have hexps : expirationIn heap' = expirationIn heap := by
      funext x
      by_cases hx : x = id
      · rw [hx, hexp]
      · rw [expirationIn, hother x hx, expirationIn]
    rw [hexps]
    exact List.Sublist.refl _
  · intro x hx timer' ht'
    by_cases hxid : x = id
    · subst hxid
      obtain ⟨timer, ht, hc⟩ := hmark hx
      rw [ht] at ht'
      cases ht'
      simp [hc]
    · rw [hother x hxid] at ht'
      simpa [hxid] using h.cancelled x hx timer' ht'

theorem push_started (h : p.Progress heap (id :: turns)) (ht : heap id = some timer)
    (hc : timer.canceled = false) (time : ℕ) :
    (p.push (.started id timer.expiration time)).Progress heap turns := by
  have hmark := h.cancelled id (by simp) timer ht
  refine h.push rfl ?_ (fun _ heq => nomatch heq) ?_ (fun _ heq => nomatch heq) ?_
  · have hexp : expirationIn heap id = timer.expiration := by rw [expirationIn, ht]; rfl
    rw [List.map_cons, hexp]
    exact List.Sublist.refl _
  · rintro _ _ _ ⟨⟩ hmem
    rw [hmark.mpr hmem] at hc
    exact Bool.noConfusion hc
  · intro x hx timer' ht'
    simpa using h.cancelled x (List.mem_cons_of_mem _ hx) timer' ht'

theorem push_skipped (h : p.Progress heap (id :: turns)) (ht : heap id = some timer)
    (hc : timer.canceled = true) : (p.push (.skipped id)).Progress heap turns := by
  have hmark := h.cancelled id (by simp) timer ht
  refine h.push rfl (List.sublist_cons_self _ _) (fun _ heq => nomatch heq)
    (fun _ _ _ heq => nomatch heq) ?_ ?_
  · rintro _ ⟨⟩
    exact hmark.mp hc
  · intro x hx timer' ht'
    simpa using h.cancelled x (List.mem_cons_of_mem _ hx) timer' ht'

end Pass.Progress

/-- A pass that is over. -/
def Pass.Ended (p : Pass) : Prop := p.Progress (fun _ => none) []

/-- The invariant of the pass in progress. -/
def ReadPhase.Progress (heap : TimerId → Option Timer) : ReadPhase → Prop
  | idle => True
  | running pass expired turns _ => pass.turnIds ++ turns = expired ∧ pass.Progress heap turns
  | rearming pass _ => pass.Ended

namespace TimerQueue

variable {ptrLess : TimerId → TimerId → Bool} {Q Q' : TimerQueue} {l : TimerStep} {low high : ℕ}

/-- A pass starts with its batch, in the order of `timers_`. -/
theorem Consistent.progress_beginRead (h : Q.Consistent) (hidle : Q.phase = .idle) (now : ℕ) :
    (Q.beginRead now).phase.Progress Q.heap := by
  have hbatch : ∀ id, id ∈ (Q.beginRead now).phase.turns → id ∈ Q.activeTimers := fun id hid => by
    obtain ⟨k, hmem, -⟩ := h.mem_batch.mp hid
    exact (h.entry _ hmem).1
  have hsub := List.takeWhile_sublist (l := Q.timers) fun e => decide (e.1 ≤ now)
  refine ⟨rfl, ?_, fun id => ?_, ?_, by simp, by simp, by simp, fun id hid timer ht => ?_⟩
  · exact (hsub.map Prod.snd).nodup h.nodup
  · show id ∈ (Q.beginRead now).phase.turns ↔ id ∈ Q.due now
    rw [h.mem_batch, TimerQueue.due, Finset.mem_filter]
    constructor
    · rintro ⟨k, hmem, hle⟩
      obtain ⟨hact, timer, ht, hk⟩ := h.entry _ hmem
      exact ⟨hact, by simpa [ht, hk] using hle⟩
    · rintro ⟨hact, hany⟩
      obtain ⟨⟨timer, ht, -⟩, hin⟩ := h.active id hact
      rw [hidle, or_iff_left (by exact List.not_mem_nil)] at hin
      obtain ⟨k, hmem⟩ := mem_timerIds.mp hin
      refine ⟨k, hmem, ?_⟩
      rw [h.key_eq hmem ht]
      simpa [ht] using hany
  · have hkeys : ((Q.timers.takeWhile fun e => decide (e.1 ≤ now)).map Prod.snd).map
        (expirationIn Q.heap) = (Q.timers.takeWhile fun e => decide (e.1 ≤ now)).map Prod.fst := by
      rw [List.map_map]
      refine List.map_congr_left fun e he => ?_
      obtain ⟨-, timer, ht, hk⟩ := h.entry e (hsub.subset he)
      simp [expirationIn, ht, hk]
    show List.Pairwise _ (List.map _ (List.map _ _))
    rw [hkeys]
    exact List.pairwise_map.mpr (h.sorted.sublist hsub)
  · obtain ⟨⟨timer', ht', hc⟩, -⟩ := h.active id (hbatch id hid)
    rw [ht] at ht'
    cases ht'
    simp [hc]

theorem Effect.progress (he : Effect ptrLess low high Q l Q') (hb : Q.Batched)
    (h : Q.phase.Progress Q.heap) : Q'.phase.Progress Q'.heap := by
  cases he with
  | stutter => exact h
  | @add id _ _ _ _ hcall hnew _ _ _ =>
    cases hphase : Q.phase with
    | idle => trivial
    | running pass expired turns inCallback =>
      rw [hphase] at h
      refine ⟨by simpa [TimerEvent.turnId] using h.1, h.2.push_added fun hdue => ?_⟩
      have hout := (hb.consistent.notMem_of_none hnew).2.2
      rw [hphase] at hout
      rw [← h.2.due, h.1] at hdue
      exact hout hdue
    | rearming pass rest => rw [hphase] at hcall; exact Bool.noConfusion hcall
  | @cancelInactive id hcall hid =>
    show (Q.phase.record _).Progress Q.heap
    cases hphase : Q.phase with
    | idle => trivial
    | running pass expired turns inCallback =>
      have hmark := fun hturn : id ∈ Q.phase.turns => hb.canceled hturn hid
      rw [hphase] at h hmark
      exact ⟨by simpa [TimerEvent.turnId] using h.1,
        h.2.push_cancelled (fun _ _ => rfl) rfl hmark⟩
    | rearming pass rest => rw [hphase] at hcall; exact Bool.noConfusion hcall
  | @cancel id timer hcall hid ht =>
    cases hphase : Q.phase with
    | idle => trivial
    | running pass expired turns inCallback =>
      rw [hphase] at h
      refine ⟨by simpa [TimerEvent.turnId] using h.1,
        h.2.push_cancelled (fun x hx => Function.update_of_ne hx _ _) ?_
          fun _ => ⟨_, Function.update_self _ _ _, rfl⟩⟩
      simp [expirationIn, ht]
    | rearming pass rest => rw [hphase] at hcall; exact Bool.noConfusion hcall
  | beginRead hidle _ _ => exact hb.consistent.progress_beginRead hidle _
  | start hphase ht hc _ =>
    rw [hphase] at h
    exact ⟨by simpa [TimerEvent.turnId] using h.1, h.2.push_started ht hc _⟩
  | skip hphase ht hc =>
    rw [hphase] at h
    exact ⟨by simpa [TimerEvent.turnId] using h.1, h.2.push_skipped ht hc⟩
  | beginRearm hphase =>
    rw [hphase] at h
    exact h.2.heap_irrel
  | letGo hphase =>
    rw [hphase] at h
    exact h
  | rearm hphase _ _ _ _ _ _ _ _ =>
    rw [hphase] at h
    exact h
  | endRead _ => trivial

theorem Effect.passes (he : Effect ptrLess low high Q l Q') (hp : Q.phase.Progress Q.heap)
    (h : ∀ p ∈ Q.passes, p.Ended) : ∀ p ∈ Q'.passes, p.Ended := by
  cases he with
  | endRead hphase =>
    intro p hmem
    rw [hphase] at hp
    obtain hmem | hmem := List.mem_append.mp hmem
    · exact h p hmem
    · rw [List.mem_singleton.mp hmem]
      exact hp
  | _ => exact h

end TimerQueue

/-! ## Passes that are over -/

theorem Pass.mem_starts {p : Pass} {id : TimerId} :
    id ∈ p.starts.map Prod.fst ↔ ∃ e t, .started id e t ∈ p.events := by
  simp only [Pass.starts, List.mem_map, List.mem_filterMap, Prod.exists]
  constructor
  · rintro ⟨_, e, ⟨ev, hmem, hev⟩, rfl⟩
    cases ev with
    | started id e' t => cases hev; exact ⟨_, t, hmem⟩
    | _ => cases hev
  · rintro ⟨e, t, hmem⟩
    exact ⟨id, e, ⟨_, hmem, rfl⟩, rfl⟩

/-- Every start is a turn. -/
theorem Pass.starts_sublist (p : Pass) : (p.starts.map Prod.fst).Sublist p.turnIds := by
  unfold Pass.starts Pass.turnIds
  induction p.events with
  | nil => exact List.Sublist.refl _
  | cons e events ih =>
    cases e with
    | started id e t => exact ih.cons_cons id
    | skipped id => exact ih.cons id
    | added id => exact ih
    | cancelled id => exact ih

namespace Pass.Ended

variable {p : Pass} (h : p.Ended)
include h

theorem turns_nodup : p.turnIds.Nodup := by
  have hnodup := h.nodup
  rwa [List.append_nil] at hnodup

theorem mem_turnIds {id : TimerId} : id ∈ p.turnIds ↔ id ∈ p.due := by
  have hdue := h.due id
  rwa [List.append_nil] at hdue

theorem starts_sorted : (p.starts.map Prod.snd).Pairwise (· ≤ ·) := by
  have hsorted := h.sorted
  rwa [List.map_nil, List.append_nil] at hsorted

/-- Whether a timer is started is decided by the cancels before its turn. -/
theorem mem_starts {id : TimerId} :
    id ∈ p.starts.map Prod.fst ↔ id ∈ p.due ∧ ¬p.CancelledBeforeTurn id := by
  constructor
  · intro hid
    refine ⟨h.mem_turnIds.mp (p.starts_sublist.subset hid), ?_⟩
    rintro ⟨ev, hev, hsub⟩
    obtain ⟨e, t, hmem⟩ := Pass.mem_starts.mp hid
    -- a timer has one turn
    have heq : ev = .started id e t :=
      List.eq_of_nodup_filterMap h.turns_nodup (hsub.subset (by simp)) hmem hev rfl
    exact h.started id e t (heq ▸ hsub)
  · rintro ⟨hdue, hcancel⟩
    obtain ⟨ev, hmem, hev⟩ := List.mem_filterMap.mp (h.mem_turnIds.mpr hdue)
    cases ev with
    | started id' e t =>
      cases hev
      exact Pass.mem_starts.mpr ⟨e, t, hmem⟩
    | skipped id' =>
      cases hev
      exact absurd ⟨_, rfl, h.skipped id hmem⟩ hcancel
    | added _ => cases hev
    | cancelled _ => cases hev

end Pass.Ended

end AegisNet
