import AegisNet.Net.EventLoop
import AegisNet.Net.TimerQueue.Firing

/-!
# Timer calls from several threads

`addTimer` and `cancel` hand their work to `runInLoop`, which carries it out at once on the loop
thread and queues it elsewhere. A cancellation made on the loop thread therefore overtakes an
`addTimerInLoop` that is still queued, although `addTimer` has returned the id. Here any number of
threads make such calls between the steps of the loop, the callbacks of a pass included. Ids are
natural numbers, so they do not wrap around.

## Main definitions

- `TimerLoop`, `TimerLoopStep`, `TimerLoop.exec` — the timer queue, the functors and the callers
- `TimerLoop.carriedOut` — the cancellations of returned ids that have been carried out
- `TimerLoop.Registered` — no call overtakes the registration of its timer

## Main results

- `TimerLoop.cancel_effective` — a cancelled timer does not start, in runs of such calls
-/

namespace AegisNet

/-- What `addTimer` makes: a timer object and its delay. -/
structure NewTimer where
  id : TimerId
  interval : ℕ
  repeating : Bool
  delayUs : ℕ
  deriving DecidableEq, Repr

/-- The functors of `addTimer` and `cancel`; of a cancellation it is noted whether `addTimer` had
    returned the id when it was made. -/
inductive TimerFunctor
  | addTimerInLoop (timer : NewTimer)
  | cancelInLoop (id : TimerId) (known : Bool)
  deriving DecidableEq, Repr

/-- A timer queue, the functors queued for its loop, and the threads that call it; `none` is the
    loop thread. -/
structure TimerLoop (ι : Type*) where
  queue : TimerQueue := {}
  loop : EventLoop TimerFunctor := {}
  nextTimerId : TimerId := 1
  /-- Between `nextTimerId_.fetch_add` and `runInLoop`. -/
  adding : Option ι → Option NewTimer := fun _ => none
  /-- The ids that `addTimer` has handed over and returned. -/
  returned : Finset TimerId := ∅
  /-- The cancellations of returned ids that `cancelInLoop` has carried out, each with the number of
      events up to then. -/
  carriedOut : List (TimerId × ℕ) := []

/-- A call of `addTimer` with valid arguments is two steps; with others it returns zero and does
    nothing. `now` is the clock reading of `addTimerInLoop`, if it runs in the step. -/
inductive TimerLoopStep (ι : Type*)
  | fetchId (t : Option ι) (interval : ℕ) (repeating : Bool) (delayUs : ℕ)
  | runInLoop (t : Option ι) (now : ℕ)
  | cancel (t : Option ι) (id : TimerId)
  | swapFunctors
  | runFunctor (now : ℕ)
  /-- a step of `handleRead` -/
  | handleRead (l : TimerStep)

/-- The timer that a step adds. -/
def TimerStep.newId : TimerStep → Option TimerId
  | addTimerInLoop id _ _ _ _ => some id
  | _ => none

/-- A step of `handleRead`. -/
def TimerStep.OfRead : TimerStep → Prop
  | addTimerInLoop _ _ _ _ _ => False
  | cancelInLoop _ => False
  | _ => True

instance : DecidablePred TimerStep.OfRead
  | .addTimerInLoop _ _ _ _ _ | .cancelInLoop _ => isFalse id
  | .beginRead _ | .turn _ | .beginRearm | .rearm _ | .endRead => isTrue trivial

def TimerFunctor.newId : TimerFunctor → Option TimerId
  | addTimerInLoop timer => some timer.id
  | cancelInLoop _ _ => none

def NewTimer.step (timer : NewTimer) (now : ℕ) : TimerStep :=
  .addTimerInLoop timer.id timer.interval timer.repeating timer.delayUs now

namespace TimerLoop

variable {ι : Type*}

def addTimerInLoop (ptrLess : TimerId → TimerId → Bool) (S : TimerLoop ι) (timer : NewTimer)
    (now : ℕ) : TimerLoop ι :=
  { S with queue := S.queue.exec ptrLess (timer.step now) }

def cancelInLoop (ptrLess : TimerId → TimerId → Bool) (S : TimerLoop ι) (id : TimerId)
    (known : Bool) : TimerLoop ι :=
  let queue := S.queue.exec ptrLess (.cancelInLoop id)
  { S with
    queue := queue
    carriedOut := if known then S.carriedOut ++ [(id, queue.log.length)] else S.carriedOut }

variable [DecidableEq ι]

/-- The call of `addTimer` ends. -/
def handOver (S : TimerLoop ι) (t : Option ι) (timer : NewTimer) : TimerLoop ι :=
  { S with
    adding := Function.update S.adding t none
    returned := insert timer.id S.returned }

def exec (ptrLess : TimerId → TimerId → Bool) (S : TimerLoop ι) : TimerLoopStep ι → TimerLoop ι
  | .fetchId t interval repeating delayUs =>
    { S with
      nextTimerId := S.nextTimerId + 1
      adding := Function.update S.adding t
        (some { id := S.nextTimerId, interval, repeating, delayUs }) }
  | .runInLoop t now =>
    match S.adding t with
    | none => S
    | some timer =>
      let S := S.handOver t timer
      if t.isNone then S.addTimerInLoop ptrLess timer now
      else { S with loop := S.loop.queueInLoop (.addTimerInLoop timer) }
  | .cancel t id =>
    let known := decide (id ∈ S.returned)
    if t.isNone then S.cancelInLoop ptrLess id known
    else { S with loop := S.loop.queueInLoop (.cancelInLoop id known) }
  | .swapFunctors => { S with loop := S.loop.swapFunctors }
  | .runFunctor now =>
    match S.loop.functors with
    | [] => S
    | f :: functors =>
      let S := { S with loop := { S.loop with functors } }
      match f with
      | .addTimerInLoop timer => S.addTimerInLoop ptrLess timer now
      | .cancelInLoop id known => S.cancelInLoop ptrLess id known
  | .handleRead l => { S with queue := S.queue.exec ptrLess l }

/-- The clock does not go back. -/
def Clock (S : TimerLoop ι) (now : ℕ) : Prop := S.queue.clock ≤ now ∧ now ≤ kInt64Max

/-- A thread makes one call at a time, the loop thread between passes or from a callback. Functors
    run between passes, and a pass begins when the batch of functors is done. -/
def Enabled (S : TimerLoop ι) : TimerLoopStep ι → Prop
  | .fetchId t _ _ _ => S.adding t = none ∧ (t = none → S.queue.phase.mayCall = true)
  | .runInLoop t now => S.adding t ≠ none ∧ S.Clock now
  | .cancel t _ => S.adding t = none ∧ (t = none → S.queue.phase.mayCall = true)
  | .swapFunctors => S.adding none = none ∧ S.queue.phase = .idle ∧ S.loop.functors = []
  | .runFunctor now => S.adding none = none ∧ S.queue.phase = .idle ∧ S.Clock now
  | .handleRead l =>
    S.adding none = none ∧ l.OfRead ∧ l.Enabled 0 kInt64Max S.queue ∧ S.loop.functors = []

def Step (ptrLess : TimerId → TimerId → Bool) (S : TimerLoop ι) (l : TimerLoopStep ι)
    (S' : TimerLoop ι) : Prop :=
  S.Enabled l ∧ S' = S.exec ptrLess l

/-- The ids of the timers that are still to be added by a queued functor. -/
def unregistered (S : TimerLoop ι) : List TimerId := S.loop.queued.filterMap TimerFunctor.newId

/-- A cancellation made on the loop thread is not of a timer whose `addTimerInLoop` is still
    queued. -/
def Registered (S : TimerLoop ι) : TimerLoopStep ι → Prop
  | .cancel none id => id ∉ S.unregistered
  | _ => True

end TimerLoop

/-! ## Steps of the timer queue -/

namespace TimerQueue

variable {ptrLess : TimerId → TimerId → Bool} {Q Q' : TimerQueue} {l : TimerStep} {low high : ℕ}

/-- Only the step that adds a timer brings a new object. -/
theorem Effect.heap_new (he : Effect ptrLess low high Q l Q') {id : TimerId}
    (h : Q'.heap id ≠ none) : Q.heap id ≠ none ∨ l.newId = some id := by
  cases he with
  | @add id' _ _ _ _ _ _ _ _ _ =>
    by_cases hid : id = id'
    · exact .inr (congrArg some hid.symm)
    · exact .inl (by simpa [Function.update_of_ne hid] using h)
  | @cancel id' _ _ _ ht =>
    by_cases hid : id = id'
    · exact .inl (by simp [hid, ht])
    · exact .inl (by simpa [Function.update_of_ne hid] using h)
  | @rearm _ _ _ id' _ _ ht _ _ _ _ _ _ _ =>
    by_cases hid : id = id'
    · exact .inl (by simp [hid, ht])
    · exact .inl (by simpa [Function.update_of_ne hid] using h)
  | _ => exact .inl h

/-- What the calls below rely on. -/
theorem Effect.batched_cancellation (he : Effect ptrLess low high Q l Q')
    (h : Q.Batched ∧ Q.Cancellation) : Q'.Batched ∧ Q'.Cancellation :=
  ⟨he.batched h.1, he.cancellation h.1 h.2⟩

theorem log_exec_cancelInLoop (hcall : Q.phase.mayCall = true) (id : TimerId) :
    (Q.exec ptrLess (.cancelInLoop id)).log = Q.log ++ [.cancelled id] := by
  rw [exec, if_pos hcall, cancelInLoop]
  split
  · split <;> rfl
  · rfl

theorem log_exec_addTimerInLoop (ptrLess : TimerId → TimerId → Bool)
    (hcall : Q.phase.mayCall = true) (timer : NewTimer) (now : ℕ) :
    (Q.exec ptrLess (timer.step now)).log = Q.log ++ [.added timer.id] := by
  rw [NewTimer.step, exec, if_pos hcall]
  rfl

end TimerQueue

namespace TimerLoop

variable {ι : Type*} {ptrLess : TimerId → TimerId → Bool}

/-- Ids are given out once: those in the making and in the queue have no timer yet. -/
structure Fresh (S : TimerLoop ι) : Prop where
  heap_lt : ∀ id, S.queue.heap id ≠ none → id < S.nextTimerId
  queued : ∀ id ∈ S.unregistered, id < S.nextTimerId ∧ S.queue.heap id = none
  nodup : S.unregistered.Nodup
  adding : ∀ t timer, S.adding t = some timer → timer.id < S.nextTimerId ∧
    S.queue.heap timer.id = none ∧ timer.id ∉ S.unregistered
  adding_inj : ∀ t t' timer timer', S.adding t = some timer → S.adding t' = some timer' →
    timer.id = timer'.id → t = t'

/-- A timer whose id has been returned is added, or its functor is queued; where a cancellation of
    it is queued, that functor is ahead of it. -/
structure InOrder (S : TimerLoop ι) : Prop where
  returned : ∀ id ∈ S.returned, .added id ∈ S.queue.log ∨ id ∈ S.unregistered
  known : ∀ front id back, S.loop.queued = front ++ .cancelInLoop id true :: back →
    .added id ∈ S.queue.log ∨ id ∈ front.filterMap TimerFunctor.newId
  carriedOut : ∀ c ∈ S.carriedOut, ∃ front back, S.queue.log = front ++ back ∧
    front.length = c.2 ∧ [.added c.1, .cancelled c.1].Sublist front

structure Kept (S : TimerLoop ι) : Prop where
  caller : S.adding none ≠ none → S.queue.phase.mayCall = true
  queue : S.queue.Batched ∧ S.queue.Cancellation
  fresh : S.Fresh
  inOrder : S.InOrder

theorem kept_empty : Kept ({} : TimerLoop ι) where
  caller := fun _ => rfl
  queue := ⟨⟨TimerQueue.consistent_empty, List.Sublist.refl _⟩, by simp, by simp, by simp⟩
  fresh := ⟨by simp, by simp [unregistered, EventLoop.queued], by simp [unregistered,
    EventLoop.queued], by simp, by simp⟩
  inOrder := ⟨by simp, by simp [EventLoop.queued], by simp⟩

/-- A cancellation that has been carried out after the timer was added keeps it from starting. -/
theorem Kept.no_start {S : TimerLoop ι} (h : S.Kept) {c : TimerId × ℕ} (hc : c ∈ S.carriedOut)
    (e t : ℕ) : .started c.1 e t ∉ S.queue.log.drop c.2 := by
  obtain ⟨front, back, hlog, hlen, hsub⟩ := h.inOrder.carriedOut c hc
  rw [hlog, ← hlen, List.drop_left]
  intro hmem
  apply h.queue.2.no_start c.1 e t
  rw [hlog]
  exact hsub.append (List.singleton_sublist.mpr hmem)

/-- Of the loop, only the timers to be added matter. -/
theorem Fresh.of_unregistered {S : TimerLoop ι} (h : S.Fresh) {loop : EventLoop TimerFunctor}
    (hun : TimerLoop.unregistered { S with loop := loop } = S.unregistered) :
    Fresh { S with loop := loop } where
  heap_lt := h.heap_lt
  queued := by
    rw [hun]
    exact h.queued
  nodup := by
    rw [hun]
    exact h.nodup
  adding := by
    rw [hun]
    exact h.adding
  adding_inj := h.adding_inj

/-- Steps of the queue that add no timer. -/
theorem Fresh.queue {S : TimerLoop ι} (h : S.Fresh) {l : TimerStep} {Q : TimerQueue}
    (he : TimerQueue.Effect ptrLess 0 kInt64Max S.queue l Q) (hl : l.newId = none) :
    Fresh { S with queue := Q } := by
  have hnone : ∀ id, S.queue.heap id = none → Q.heap id = none := by
    intro id hid
    by_contra hne
    obtain hold | hnew := he.heap_new hne
    · exact hold hid
    · rw [hl] at hnew
      cases hnew
  refine ⟨fun id hid => ?_, fun id hid => ?_, h.nodup, fun t timer ht => ?_, h.adding_inj⟩
  · obtain hold | hnew := he.heap_new hid
    · exact h.heap_lt id hold
    · rw [hl] at hnew
      cases hnew
  · exact ⟨(h.queued id hid).1, hnone id (h.queued id hid).2⟩
  · exact ⟨(h.adding t timer ht).1, hnone _ (h.adding t timer ht).2.1, (h.adding t timer ht).2.2⟩

/-- What was carried out before stays so when the log grows. -/
theorem carriedOut_prefix {log log' : List TimerEvent} (hlog : log <+: log') {c : TimerId × ℕ}
    (h : ∃ front back, log = front ++ back ∧ front.length = c.2 ∧
      [.added c.1, .cancelled c.1].Sublist front) :
    ∃ front back, log' = front ++ back ∧ front.length = c.2 ∧
      [.added c.1, .cancelled c.1].Sublist front := by
  obtain ⟨more, rfl⟩ := hlog
  obtain ⟨front, back, rfl, hlen, hsub⟩ := h
  exact ⟨front, back ++ more, List.append_assoc _ _ _, hlen, hsub⟩

theorem InOrder.queue {S : TimerLoop ι} (h : S.InOrder) {Q : TimerQueue}
    (hlog : S.queue.log <+: Q.log) : InOrder { S with queue := Q } where
  returned := fun id hid => (h.returned id hid).imp (fun hmem => hlog.subset hmem) fun hq => hq
  known := fun front id back hq =>
    (h.known front id back hq).imp (fun hmem => hlog.subset hmem) fun hf => hf
  carriedOut := fun c hc => carriedOut_prefix hlog (h.carriedOut c hc)

/-- A step of `handleRead`, or any other that adds no timer. -/
theorem Kept.withQueue {S : TimerLoop ι} (h : S.Kept) {l : TimerStep} {Q : TimerQueue}
    (he : TimerQueue.Effect ptrLess 0 kInt64Max S.queue l Q) (hl : l.newId = none)
    (hidle : S.adding none = none) : Kept { S with queue := Q } :=
  ⟨fun hne => absurd hidle hne, he.batched_cancellation h.queue, h.fresh.queue he hl, h.inOrder.queue he.log_prefix⟩

/-- A timer that is neither added nor queued nor in the making. -/
structure Loose (S : TimerLoop ι) (id : TimerId) : Prop where
  lt : id < S.nextTimerId
  heap : S.queue.heap id = none
  notMem : id ∉ S.unregistered
  adding : ∀ t timer, S.adding t = some timer → timer.id ≠ id

theorem Fresh.push {S : TimerLoop ι} (h : S.Fresh) {timer : NewTimer} (hl : S.Loose timer.id) :
    Fresh { S with loop := S.loop.queueInLoop (.addTimerInLoop timer) } := by
  have hun : TimerLoop.unregistered { S with
      loop := S.loop.queueInLoop (.addTimerInLoop timer) } = S.unregistered ++ [timer.id] := by
    simp [unregistered, TimerFunctor.newId]
  refine ⟨h.heap_lt, ?_, ?_, ?_, h.adding_inj⟩ <;> rw [hun]
  · intro id hid
    obtain hid | hid := List.mem_append.mp hid
    · exact h.queued id hid
    · rw [List.mem_singleton.mp hid]
      exact ⟨hl.lt, hl.heap⟩
  · exact h.nodup.append (List.nodup_singleton _) (by simpa using hl.notMem)
  · intro t timer' ht
    obtain ⟨hlt, hnone, hnot⟩ := h.adding t timer' ht
    refine ⟨hlt, hnone, fun hmem => ?_⟩
    obtain hmem | hmem := List.mem_append.mp hmem
    · exact hnot hmem
    · exact hl.adding t timer' ht (List.mem_singleton.mp hmem)

/-- The timer enters the timer queue. -/
theorem Fresh.enter {S : TimerLoop ι} (h : S.Fresh) {id : TimerId} (hl : S.Loose id)
    {Q : TimerQueue} (hheap : ∀ id', Q.heap id' ≠ none → S.queue.heap id' ≠ none ∨ id' = id) :
    Fresh { S with queue := Q } := by
  have hnone : ∀ id', S.queue.heap id' = none → id' ≠ id → Q.heap id' = none := by
    intro id' hid' hne
    by_contra hsome
    exact (hheap id' hsome).elim (fun hold => hold hid') hne
  refine ⟨fun id' hid' => ?_, fun id' hid' => ?_, h.nodup, fun t timer ht => ?_, h.adding_inj⟩
  · obtain hold | rfl := hheap id' hid'
    · exact h.heap_lt id' hold
    · exact hl.lt
  · obtain ⟨hlt, hid⟩ := h.queued id' hid'
    refine ⟨hlt, hnone id' hid ?_⟩
    rintro rfl
    exact hl.notMem hid'
  · obtain ⟨hlt, hid, hnot⟩ := h.adding t timer ht
    exact ⟨hlt, hnone timer.id hid (hl.adding t timer ht), hnot⟩

theorem Kept.effect_addTimer {S : TimerLoop ι} (h : S.Kept)
    (ptrLess : TimerId → TimerId → Bool) {timer : NewTimer} {now : ℕ}
    (hclock : S.Clock now) (hnone : S.queue.heap timer.id = none) :
    TimerQueue.Effect ptrLess 0 kInt64Max S.queue (timer.step now)
      (S.queue.exec ptrLess (timer.step now)) :=
  h.queue.1.consistent.effect ⟨hnone, hclock.1, Nat.zero_le _, hclock.2⟩

/-- A cancellation of a timer that was added before it. -/
theorem Kept.cancelInLoop {S : TimerLoop ι} (h : S.Kept) {id : TimerId} {known : Bool}
    (hidle : S.adding none = none) (hcall : S.queue.phase.mayCall = true)
    (hknown : known = true → .added id ∈ S.queue.log) :
    (S.cancelInLoop ptrLess id known).Kept := by
  have he : TimerQueue.Effect ptrLess 0 kInt64Max S.queue (.cancelInLoop id)
      (S.queue.exec ptrLess (.cancelInLoop id)) := h.queue.1.consistent.effect trivial
  have hkept := h.withQueue he rfl hidle
  refine ⟨fun hne => absurd hidle hne, hkept.queue, ?_, ?_⟩
  · exact ⟨hkept.fresh.heap_lt, hkept.fresh.queued, hkept.fresh.nodup, hkept.fresh.adding,
      hkept.fresh.adding_inj⟩
  · refine ⟨hkept.inOrder.returned, hkept.inOrder.known, fun c hc => ?_⟩
    cases known with
    | false => exact hkept.inOrder.carriedOut c hc
    | true =>
      obtain hc | hc := List.mem_append.mp hc
      · exact hkept.inOrder.carriedOut c hc
      · obtain rfl := List.mem_singleton.mp hc
        refine ⟨_, [], (List.append_nil _).symm, rfl, ?_⟩
        show [TimerEvent.added id, .cancelled id].Sublist
          (S.queue.exec ptrLess (.cancelInLoop id)).log
        rw [TimerQueue.log_exec_cancelInLoop hcall]
        exact List.pair_sublist_concat.mpr (.inr ⟨hknown rfl, rfl⟩)

section Pop

variable {S : TimerLoop ι} {functors : List TimerFunctor} {timer : NewTimer}

theorem queued_pop {f : TimerFunctor} (hf : S.loop.functors = f :: functors) :
    S.loop.queued = f :: { S.loop with functors }.queued := by
  simp [EventLoop.queued, hf]

theorem unregistered_pop {f : TimerFunctor} (hf : S.loop.functors = f :: functors) :
    S.unregistered =
      f.newId.toList ++ TimerLoop.unregistered { S with loop := { S.loop with functors } } := by
  rw [unregistered, queued_pop hf]
  cases f <;> rfl

/-- The timer of the functor is nowhere else. -/
theorem Fresh.pop (h : S.Fresh) (hf : S.loop.functors = .addTimerInLoop timer :: functors) :
    Fresh { S with loop := { S.loop with functors } } ∧
      Loose { S with loop := { S.loop with functors } } timer.id := by
  have hun : S.unregistered =
      timer.id :: TimerLoop.unregistered { S with loop := { S.loop with functors } } :=
    unregistered_pop hf
  obtain ⟨hheap, hqueued, hnodup, hadding, hinj⟩ := h
  rw [hun] at hqueued hnodup hadding
  obtain ⟨hnot, hnodup⟩ := List.nodup_cons.mp hnodup
  obtain ⟨hlt, hnone⟩ := hqueued timer.id List.mem_cons_self
  refine ⟨⟨hheap, fun id hid => hqueued id (List.mem_cons_of_mem _ hid), hnodup,
    fun t timer' ht => ?_, hinj⟩, hlt, hnone, hnot, fun t timer' ht hid => ?_⟩
  · obtain ⟨hlt', hnone', hnot'⟩ := hadding t timer' ht
    exact ⟨hlt', hnone', fun hmem => hnot' (List.mem_cons_of_mem _ hmem)⟩
  · apply (hadding t timer' ht).2.2
    rw [hid]
    exact List.mem_cons_self

/-- The timer of the functor is added. -/
theorem InOrder.pop (h : S.InOrder) (hf : S.loop.functors = .addTimerInLoop timer :: functors)
    (hadded : .added timer.id ∈ S.queue.log) :
    InOrder { S with loop := { S.loop with functors } } := by
  refine ⟨fun id hid => ?_, fun front id back hq => ?_, h.carriedOut⟩
  · obtain hlog | hmem := h.returned id hid
    · exact .inl hlog
    · rw [unregistered_pop hf] at hmem
      obtain rfl | hmem := List.mem_cons.mp hmem
      · exact .inl hadded
      · exact .inr hmem
  · have hq' : S.loop.queued =
        (.addTimerInLoop timer :: front) ++ .cancelInLoop id true :: back := by
      rw [queued_pop hf, List.cons_append, ← hq]
    obtain hlog | hmem := h.known (.addTimerInLoop timer :: front) id back hq'
    · exact .inl hlog
    · obtain rfl | hmem := List.mem_cons.mp hmem
      · exact .inl hadded
      · exact .inr hmem

/-- A cancellation at the head is of a timer that has been added. -/
theorem Kept.popCancel (h : S.Kept) {id : TimerId} {known : Bool}
    (hf : S.loop.functors = .cancelInLoop id known :: functors) :
    TimerLoop.Kept { S with loop := { S.loop with functors } } ∧
      (known = true → .added id ∈ S.queue.log) := by
  have hun : S.unregistered = TimerLoop.unregistered { S with loop := { S.loop with functors } } :=
    unregistered_pop hf
  refine ⟨⟨h.caller, h.queue, h.fresh.of_unregistered hun.symm, hun ▸ h.inOrder.returned,
    fun front id' back hq => ?_, h.inOrder.carriedOut⟩, ?_⟩
  · refine h.inOrder.known (.cancelInLoop id known :: front) id' back ?_
    rw [queued_pop hf, hq]
    rfl
  · rintro rfl
    exact (h.inOrder.known [] id _ (queued_pop hf)).resolve_right List.not_mem_nil

end Pop

variable [DecidableEq ι]

/-- A new id is in use nowhere. -/
theorem Kept.fetchId {S : TimerLoop ι} (h : S.Kept) {t : Option ι} (ht : S.adding t = none)
    (hcall : t = none → S.queue.phase.mayCall = true) (interval : ℕ) (repeating : Bool)
    (delayUs : ℕ) : (S.exec ptrLess (.fetchId t interval repeating delayUs)).Kept := by
  have hadding : ∀ u timer, (S.exec ptrLess (.fetchId t interval repeating delayUs)).adding u =
      some timer → (u = t ∧ timer.id = S.nextTimerId) ∨ (u ≠ t ∧ S.adding u = some timer) := by
    intro u timer hu
    by_cases hut : u = t
    · subst hut
      have := (Function.update_self u _ S.adding).symm.trans hu
      exact .inl ⟨rfl, by rw [← Option.some.inj this]⟩
    · exact .inr ⟨hut, (Function.update_of_ne hut _ _).symm.trans hu⟩
  refine ⟨fun hne => ?_, h.queue, ?_, h.inOrder.returned, h.inOrder.known, h.inOrder.carriedOut⟩
  · by_cases hnone : none = t
    · exact hcall hnone.symm
    · refine h.caller fun hidle => hne ?_
      exact (Function.update_of_ne hnone _ _).trans hidle
  · refine ⟨fun id hid => Nat.lt_succ_of_lt (h.fresh.heap_lt id hid), fun id hid => ?_,
      h.fresh.nodup, fun u timer hu => ?_, fun u u' timer timer' hu hu' hid => ?_⟩
    · exact ⟨Nat.lt_succ_of_lt (h.fresh.queued id hid).1, (h.fresh.queued id hid).2⟩
    · obtain ⟨-, hid⟩ | ⟨-, hu⟩ := hadding u timer hu
      · rw [hid]
        refine ⟨Nat.lt_succ_self _, ?_, fun hmem => ?_⟩
        · by_contra hne
          exact absurd (h.fresh.heap_lt _ hne) (Nat.lt_irrefl _)
        · exact absurd (h.fresh.queued _ hmem).1 (Nat.lt_irrefl _)
      · obtain ⟨hlt, hrest⟩ := h.fresh.adding u timer hu
        exact ⟨Nat.lt_succ_of_lt hlt, hrest⟩
    · obtain ⟨rfl, hnew⟩ | ⟨-, hold⟩ := hadding u timer hu
      · obtain ⟨rfl, -⟩ | ⟨-, hold'⟩ := hadding u' timer' hu'
        · rfl
        · have hlt := (h.fresh.adding u' timer' hold').1
          rw [← hid, hnew] at hlt
          exact absurd hlt (Nat.lt_irrefl _)
      · obtain ⟨-, hnew'⟩ | ⟨-, hold'⟩ := hadding u' timer' hu'
        · have hlt := (h.fresh.adding u timer hold).1
          rw [hid, hnew'] at hlt
          exact absurd hlt (Nat.lt_irrefl _)
        · exact h.fresh.adding_inj u u' timer timer' hold hold' hid

theorem handOver_adding_of_ne (S : TimerLoop ι) {t u : Option ι} (h : u ≠ t) (timer : NewTimer) :
    (S.handOver t timer).adding u = S.adding u :=
  Function.update_of_ne h _ _

theorem handOver_adding_self (S : TimerLoop ι) (t : Option ι) (timer : NewTimer) :
    (S.handOver t timer).adding t = none :=
  Function.update_self _ _ _

theorem handOver_adding {S : TimerLoop ι} {t u : Option ι} {timer timer' : NewTimer}
    (h : (S.handOver t timer).adding u = some timer') : u ≠ t ∧ S.adding u = some timer' := by
  by_cases hut : u = t
  · rw [hut, handOver_adding_self] at h
    cases h
  · exact ⟨hut, by rwa [handOver_adding_of_ne S hut] at h⟩

/-- The timer that a call hands over is nowhere else. -/
theorem Fresh.handOver {S : TimerLoop ι} (h : S.Fresh) {t : Option ι} {timer : NewTimer}
    (ht : S.adding t = some timer) :
    (S.handOver t timer).Fresh ∧ (S.handOver t timer).Loose timer.id := by
  obtain ⟨hlt, hnone, hnot⟩ := h.adding t timer ht
  refine ⟨⟨h.heap_lt, h.queued, h.nodup, fun u timer' hu => ?_,
    fun u u' timer₁ timer₂ hu hu' => ?_⟩, hlt, hnone, hnot, fun u timer' hu hid => ?_⟩
  · exact h.adding u timer' (handOver_adding hu).2
  · exact h.adding_inj u u' timer₁ timer₂ (handOver_adding hu).2 (handOver_adding hu').2
  · obtain ⟨hne, hu⟩ := handOver_adding hu
    exact hne (h.adding_inj u t timer' timer hu ht hid)

/-- The functor of another thread goes to the end of the queue. -/
theorem Kept.queueTimer {S : TimerLoop ι} (h : S.Kept) {i : ι} {timer : NewTimer}
    (ht : S.adding (some i) = some timer) (now : ℕ) :
    (S.exec ptrLess (.runInLoop (some i) now)).Kept := by
  obtain ⟨hfresh, hloose⟩ := h.fresh.handOver ht
  have hexec : S.exec ptrLess (.runInLoop (some i) now) =
      { S.handOver (some i) timer with loop := S.loop.queueInLoop (.addTimerInLoop timer) } := by
    simp [exec, ht, handOver]
  rw [hexec]
  have hun : TimerLoop.unregistered { S.handOver (some i) timer with
      loop := S.loop.queueInLoop (.addTimerInLoop timer) } = S.unregistered ++ [timer.id] := by
    simp [unregistered, TimerFunctor.newId]
  refine ⟨fun hne => h.caller fun hidle => hne ?_, h.queue, hfresh.push hloose, ?_⟩
  · show (S.handOver (some i) timer).adding none = none
    rw [handOver_adding_of_ne S (Option.some_ne_none i).symm, hidle]
  · refine ⟨fun id hid => ?_, fun front id back hq => ?_, h.inOrder.carriedOut⟩
    · rw [hun, List.mem_append]
      obtain rfl | hid := Finset.mem_insert.mp hid
      · exact .inr (.inr (List.mem_singleton.mpr rfl))
      · exact (h.inOrder.returned id hid).imp_right .inl
    · rw [EventLoop.queued_queueInLoop] at hq
      obtain ⟨-, -, hc⟩ | ⟨back', -, hq⟩ := List.concat_eq_append_cons hq
      · cases hc
      · exact h.inOrder.known front id back' hq

/-- `addTimer` on the loop thread adds the timer at once. -/
theorem Kept.addTimer {S : TimerLoop ι} (h : S.Kept) {timer : NewTimer}
    (ht : S.adding none = some timer) {now : ℕ} (hclock : S.Clock now) :
    (S.exec ptrLess (.runInLoop none now)).Kept := by
  obtain ⟨hfresh, hloose⟩ := h.fresh.handOver ht
  have he := h.effect_addTimer ptrLess hclock (h.fresh.adding none timer ht).2.1
  have hadded := TimerQueue.log_exec_addTimerInLoop ptrLess
    (h.caller (by simp [ht])) timer now
  have hexec : S.exec ptrLess (.runInLoop none now) =
      { S.handOver none timer with queue := S.queue.exec ptrLess (timer.step now) } := by
    simp [exec, ht, handOver, addTimerInLoop]
  rw [hexec]
  have hinOrder := h.inOrder.queue he.log_prefix
  refine ⟨fun hne => absurd (handOver_adding_self S none timer) hne, he.batched_cancellation h.queue,
    hfresh.enter hloose fun id hid => (he.heap_new hid).imp_right fun hnew =>
      (Option.some.inj hnew).symm, ?_⟩
  refine ⟨fun id hid => ?_, hinOrder.known, hinOrder.carriedOut⟩
  obtain rfl | hid := Finset.mem_insert.mp hid
  · left
    show _ ∈ (S.queue.exec ptrLess (timer.step now)).log
    rw [hadded]
    simp
  · exact hinOrder.returned id hid

theorem Kept.queueCancel {S : TimerLoop ι} (h : S.Kept) (i : ι) (id : TimerId) :
    (S.exec ptrLess (.cancel (some i) id)).Kept := by
  have hun : TimerLoop.unregistered { S with
      loop := S.loop.queueInLoop (.cancelInLoop id (decide (id ∈ S.returned))) } =
      S.unregistered := by
    simp [unregistered, TimerFunctor.newId]
  show TimerLoop.Kept { S with
    loop := S.loop.queueInLoop (.cancelInLoop id (decide (id ∈ S.returned))) }
  refine ⟨h.caller, h.queue, h.fresh.of_unregistered hun, ?_, ?_, h.inOrder.carriedOut⟩
  · rw [hun]
    exact h.inOrder.returned
  · intro front id' back hq
    rw [EventLoop.queued_queueInLoop] at hq
    obtain ⟨-, rfl, hc⟩ | ⟨back', -, hq⟩ := List.concat_eq_append_cons hq
    · -- the id was returned, so its timer is added or queued in front of this
      obtain ⟨rfl, hknown⟩ := TimerFunctor.cancelInLoop.inj hc
      exact h.inOrder.returned id' (of_decide_eq_true hknown.symm)
    · exact h.inOrder.known front id' back' hq

theorem Kept.cancel {S : TimerLoop ι} (h : S.Kept) {id : TimerId} (hidle : S.adding none = none)
    (hcall : S.queue.phase.mayCall = true) (hreg : id ∉ S.unregistered) :
    (S.exec ptrLess (.cancel none id)).Kept := by
  apply h.cancelInLoop hidle hcall
  intro hknown
  exact (h.inOrder.returned id (of_decide_eq_true hknown)).resolve_right hreg

/-- The functor at the head of the batch. -/
theorem Kept.runFunctor {S : TimerLoop ι} (h : S.Kept) {now : ℕ} (hidle : S.adding none = none)
    (hphase : S.queue.phase = .idle) (hclock : S.Clock now) :
    (S.exec ptrLess (.runFunctor now)).Kept := by
  have hcall : S.queue.phase.mayCall = true := by rw [hphase]; rfl
  cases hf : S.loop.functors with
  | nil => simpa [exec, hf] using h
  | cons f functors =>
    cases f with
    | cancelInLoop id known =>
      obtain ⟨hpop, hknown⟩ := h.popCancel hf
      have hexec : S.exec ptrLess (.runFunctor now) =
          TimerLoop.cancelInLoop ptrLess { S with loop := { S.loop with functors } } id known := by
        simp [exec, hf]
      rw [hexec]
      exact hpop.cancelInLoop hidle hcall hknown
    | addTimerInLoop timer =>
      obtain ⟨hfresh, hloose⟩ := h.fresh.pop hf
      have he := h.effect_addTimer ptrLess hclock hloose.heap
      have hadded : .added timer.id ∈ (S.queue.exec ptrLess (timer.step now)).log := by
        rw [TimerQueue.log_exec_addTimerInLoop ptrLess hcall]
        simp
      have hexec : S.exec ptrLess (.runFunctor now) = { S with
          loop := { S.loop with functors }
          queue := S.queue.exec ptrLess (timer.step now) } := by
        simp [exec, hf, addTimerInLoop]
      rw [hexec]
      exact ⟨fun hne => absurd hidle hne, he.batched_cancellation h.queue,
        hfresh.enter hloose fun id hid => (he.heap_new hid).imp_right fun hnew =>
          (Option.some.inj hnew).symm,
        (h.inOrder.queue he.log_prefix).pop hf hadded⟩

theorem Kept.exec {S : TimerLoop ι} (h : S.Kept) {l : TimerLoopStep ι} (hl : S.Enabled l)
    (hreg : S.Registered l) : (S.exec ptrLess l).Kept := by
  cases l with
  | fetchId t interval repeating delayUs => exact h.fetchId hl.1 hl.2 interval repeating delayUs
  | runInLoop t now =>
    obtain ⟨timer, ht⟩ := Option.ne_none_iff_exists'.mp hl.1
    cases t with
    | none => exact h.addTimer ht hl.2
    | some i => exact h.queueTimer ht now
  | cancel t id =>
    cases t with
    | none => exact h.cancel hl.1 (hl.2 rfl) hreg
    | some i => exact h.queueCancel i id
  | swapFunctors =>
    obtain ⟨-, -, hnil⟩ := hl
    have hqueued := EventLoop.queued_swapFunctors hnil
    have hun : TimerLoop.unregistered { S with loop := S.loop.swapFunctors } = S.unregistered := by
      rw [unregistered, unregistered, ← hqueued]
    refine ⟨h.caller, h.queue, h.fresh.of_unregistered hun, fun id hid => ?_,
      fun front id back hq => h.inOrder.known front id back (hqueued ▸ hq), h.inOrder.carriedOut⟩
    show _ ∨ id ∈ TimerLoop.unregistered { S with loop := S.loop.swapFunctors }
    rw [hun]
    exact h.inOrder.returned id hid
  | runFunctor now => exact h.runFunctor hl.1 hl.2.1 hl.2.2
  | handleRead l =>
    obtain ⟨hidle, hof, hl, -⟩ := hl
    have hnew : l.newId = none := by
      cases l <;> first | rfl | exact hof.elim
    exact h.withQueue (h.queue.1.consistent.effect hl) hnew hidle

/-- A cancellation of a returned id is effective: in every run in which no call of `cancel` on the
    loop thread overtakes the registration of its timer, the callback does not start after the
    cancellation has been carried out. -/
theorem cancel_effective {S : TimerLoop ι} {ls : List (TimerLoopStep ι)}
    (h : Run (fun S l S' => Step ptrLess S l S' ∧ S.Registered l) {} ls S) :
    ∀ c ∈ S.carriedOut, ∀ e t, .started c.1 e t ∉ S.queue.log.drop c.2 := by
  have hkept : S.Kept := by
    apply h.invariant kept_empty
    rintro S l _ hS ⟨⟨hl, rfl⟩, hreg⟩
    exact hS.exec hl hreg
  intro c hc e t
  exact hkept.no_start hc e t

/-- A repeating timer is cancelled from another thread after its first start. -/
theorem cancel_effective_queued :
    let ls : List (TimerLoopStep Unit) := [.fetchId none 5 true 0, .runInLoop none 0,
      .cancel (some ()) 1, .handleRead (.beginRead 10), .handleRead (.turn 10),
      .handleRead .beginRearm, .handleRead (.rearm 11), .handleRead .endRead, .swapFunctors,
      .runFunctor 12, .handleRead (.beginRead 20)]
    let S := ls.foldl (exec fun a b => decide (a < b)) {}
    S.carriedOut = [(1, 3)] ∧ ∀ e t, .started 1 e t ∉ S.queue.log.drop 3 := by
  intro ls S
  have hrun : Run (fun S l S' => Step (fun a b => decide (a < b)) S l S' ∧ S.Registered l) {} ls S :=
    .cons ⟨⟨⟨rfl, fun _ => rfl⟩, rfl⟩, trivial⟩ <|
    .cons ⟨⟨⟨by decide, by decide, by decide⟩, rfl⟩, trivial⟩ <|
    .cons ⟨⟨⟨rfl, by decide⟩, rfl⟩, trivial⟩ <|
    .cons ⟨⟨⟨rfl, trivial, by decide +kernel, rfl⟩, rfl⟩, trivial⟩ <|
    .cons ⟨⟨⟨rfl, trivial, by decide +kernel, rfl⟩, rfl⟩, trivial⟩ <|
    .cons ⟨⟨⟨rfl, trivial, trivial, rfl⟩, rfl⟩, trivial⟩ <|
    .cons ⟨⟨⟨rfl, trivial, by decide +kernel, rfl⟩, rfl⟩, trivial⟩ <|
    .cons ⟨⟨⟨rfl, trivial, trivial, rfl⟩, rfl⟩, trivial⟩ <|
    .cons ⟨⟨⟨rfl, rfl, rfl⟩, rfl⟩, trivial⟩ <|
    .cons ⟨⟨⟨rfl, rfl, by decide +kernel, by decide⟩, rfl⟩, trivial⟩ <|
    .cons ⟨⟨⟨rfl, trivial, by decide +kernel, rfl⟩, rfl⟩, trivial⟩ .nil
  have hcarried : S.carriedOut = [(1, 3)] := by decide +kernel
  refine ⟨hcarried, cancel_effective hrun (1, 3) ?_⟩
  rw [hcarried]
  exact List.mem_singleton_self _

/-- Another thread adds a timer; a cancellation of it on the loop thread comes before its functor
    runs, and the callback starts all the same. -/
theorem not_cancel_effective :
    ¬ ∀ (S : TimerLoop Unit) (ls : List (TimerLoopStep Unit)),
      Run (Step fun a b => decide (a < b)) {} ls S →
      ∀ c ∈ S.carriedOut, ∀ e t, .started c.1 e t ∉ S.queue.log.drop c.2 := by
  intro h
  let ls : List (TimerLoopStep Unit) := [.fetchId (some ()) 0 false 0, .runInLoop (some ()) 0,
    .cancel none 1, .swapFunctors, .runFunctor 1, .handleRead (.beginRead 10),
    .handleRead (.turn 10)]
  let S := ls.foldl (exec fun a b => decide (a < b)) {}
  have hrun : Run (Step fun a b => decide (a < b)) {} ls S :=
    .cons ⟨⟨rfl, by decide⟩, rfl⟩ <|
    .cons ⟨⟨by decide, by decide, by decide⟩, rfl⟩ <|
    .cons ⟨⟨rfl, fun _ => rfl⟩, rfl⟩ <|
    .cons ⟨⟨rfl, rfl, rfl⟩, rfl⟩ <|
    .cons ⟨⟨rfl, rfl, by decide, by decide⟩, rfl⟩ <|
    .cons ⟨⟨rfl, trivial, by decide +kernel, rfl⟩, rfl⟩ <|
    .cons ⟨⟨rfl, trivial, by decide +kernel, rfl⟩, rfl⟩ .nil
  have hcarried : (1, 1) ∈ S.carriedOut := by decide +kernel
  exact h S ls hrun (1, 1) hcarried 1 10 (by decide +kernel)

end TimerLoop

end AegisNet
