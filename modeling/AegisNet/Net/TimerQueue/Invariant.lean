import AegisNet.Net.TimerQueue

/-!
# The representation of the timer queue

Between passes `timers_` and `activeTimers_` hold the same timers. During a pass the timers that
have expired are out of `timers_` but, unless cancelled, still in `activeTimers_`, and callbacks
change both. The invariant accounts for the timers that are out, so it holds at every step; the
timerfd has to be right only between passes, since every pass sets it at its end.

## Main definitions

- `ReadPhase.out` — the timers that a pass has taken out of `timers_`
- `TimerQueue.Consistent` — the invariant of the two containers
- `TimerQueue.Armed` — the timerfd is set for the earliest timer
-/

namespace AegisNet

/-- The timers that the pass has taken out and not yet put back or given up. -/
def ReadPhase.out : ReadPhase → List TimerId
  | idle => []
  | running _ expired _ _ => expired
  | rearming _ rest => rest

@[simp] theorem ReadPhase.out_record (phase : ReadPhase) (e : TimerEvent) :
    (phase.record e).out = phase.out := by
  cases phase <;> rfl

theorem ReadPhase.record_eq_idle {phase : ReadPhase} {e : TimerEvent} :
    phase.record e = .idle ↔ phase = .idle := by
  cases phase <;> simp [ReadPhase.record]

theorem le_saturatingAdd {a b k : ℕ} (hb : k ≤ b) (hk : k ≤ kInt64Max) :
    k ≤ saturatingAdd a b := by
  unfold saturatingAdd
  split <;> omega

theorem respectsKey_entryLess (ptrLess : TimerId → TimerId → Bool) :
    RespectsKey Prod.fst (entryLess ptrLess) where
  le_of_rel a b h := by
    obtain h | h := h
    · exact h.le
    · exact h.1.le
  le_of_not_rel a b h := by
    simp only [entryLess, not_or, not_lt] at h
    exact h.1

namespace TimerQueue

variable {ptrLess : TimerId → TimerId → Bool}

def timerIds (Q : TimerQueue) : List TimerId := Q.timers.map Prod.snd

/-- The invariant of `timers_` and `activeTimers_`, at every step. -/
structure Consistent (Q : TimerQueue) : Prop where
  sorted : KeySorted Prod.fst Q.timers
  nodup : Q.timerIds.Nodup
  /-- An entry is an active timer under its expiration. -/
  entry : ∀ e ∈ Q.timers, e.2 ∈ Q.activeTimers ∧
    ∃ timer, Q.heap e.2 = some timer ∧ timer.expiration = e.1
  /-- An active timer is not canceled; it is in `timers_`, or the pass has taken it out. -/
  active : ∀ id ∈ Q.activeTimers,
    (∃ timer, Q.heap id = some timer ∧ timer.canceled = false) ∧
      (id ∈ Q.timerIds ∨ id ∈ Q.phase.out)
  out_nodup : Q.phase.out.Nodup
  /-- A timer that is out is not in `timers_`, and if it is not active it was canceled. -/
  out : ∀ id ∈ Q.phase.out, id ∉ Q.timerIds ∧
    ∃ timer, Q.heap id = some timer ∧ (id ∈ Q.activeTimers ∨ timer.canceled = true)

/-- The timerfd is set for the earliest timer, if there is one. -/
def Armed (Q : TimerQueue) : Prop :=
  ∀ e, Q.earliest = some e → Q.timerfd = .ofExpiration e.1

theorem mem_timerIds {Q : TimerQueue} {id : TimerId} :
    id ∈ Q.timerIds ↔ ∃ k, (k, id) ∈ Q.timers := by
  simp [timerIds]

theorem Consistent.mem_active {Q : TimerQueue} (h : Q.Consistent) {id : TimerId}
    (hid : id ∈ Q.timerIds) : id ∈ Q.activeTimers := by
  obtain ⟨k, hk⟩ := mem_timerIds.mp hid
  exact (h.entry _ hk).1

/-- The key of a timer in `timers_` is its expiration. -/
theorem Consistent.key_eq {Q : TimerQueue} (h : Q.Consistent) {k : ℕ} {id : TimerId}
    {timer : Timer} (he : (k, id) ∈ Q.timers) (ht : Q.heap id = some timer) :
    k = timer.expiration := by
  obtain ⟨-, timer', ht', hk⟩ := h.entry _ he
  rw [ht] at ht'
  rw [Option.some.inj ht']
  exact hk.symm

/-! ## Entering a timer -/

/-- `timers_` takes the entry of a timer that it does not hold. -/
theorem timers_emplace {Q : TimerQueue} {id : TimerId} (hid : id ∉ Q.timerIds) (k : ℕ) :
    (if (k, id) ∈ Q.timers then Q.timers
      else Q.timers.orderedInsert (entryLess ptrLess) (k, id)) =
      Q.timers.orderedInsert (entryLess ptrLess) (k, id) :=
  if_neg fun he => hid (List.mem_map_of_mem he)

theorem mem_insert_timerIds {Q : TimerQueue} {id x : TimerId} {k : ℕ} :
    x ∈ (Q.timers.orderedInsert (entryLess ptrLess) (k, id)).map Prod.snd ↔
      x = id ∨ x ∈ Q.timerIds := by
  simp [timerIds, List.mem_orderedInsert, or_and_right, exists_or, eq_comm]

/-- A timer that is in neither container, or was taken out by the pass, is entered in both with a
    new expiration. -/
theorem Consistent.enter {Q Q' : TimerQueue} (h : Q.Consistent) {id : TimerId} {timer : Timer}
    (hid : id ∉ Q.timerIds) (hc : timer.canceled = false)
    (hheap : Q'.heap = Function.update Q.heap id (some timer))
    (htimers : Q'.timers = Q.timers.orderedInsert (entryLess ptrLess) (timer.expiration, id))
    (hactive : Q'.activeTimers = insert id Q.activeTimers)
    (hout : Q.phase.out = Q'.phase.out ∨ Q.phase.out = id :: Q'.phase.out)
    (hid' : id ∉ Q'.phase.out) : Q'.Consistent := by
  have hids : ∀ x, x ∈ Q'.timerIds ↔ x = id ∨ x ∈ Q.timerIds := fun x => by
    rw [timerIds, htimers]
    exact mem_insert_timerIds
  have hsub : ∀ x ∈ Q'.phase.out, x ∈ Q.phase.out := fun x hx => by
    obtain ho | ho := hout <;> simp [ho, hx]
  have hother : ∀ x, x ≠ id → Q'.heap x = Q.heap x := fun x hx => by
    rw [hheap, Function.update_of_ne hx]
  have hself : Q'.heap id = some timer := by rw [hheap, Function.update_self]
  refine ⟨?_, ?_, ?_, ?_, ?_, ?_⟩
  · rw [htimers]
    exact h.sorted.orderedInsert (respectsKey_entryLess ptrLess) _
  · have hperm : Q'.timerIds.Perm (id :: Q.timerIds) := by
      rw [timerIds, htimers]
      exact (List.perm_orderedInsert _ _ _).map Prod.snd
    exact hperm.nodup_iff.mpr (List.nodup_cons.mpr ⟨hid, h.nodup⟩)
  · intro e he
    rw [htimers, List.mem_orderedInsert] at he
    rw [hactive]
    obtain rfl | he := he
    · exact ⟨Finset.mem_insert_self _ _, timer, hself, rfl⟩
    · have hne : e.2 ≠ id := fun heq => hid (heq ▸ List.mem_map_of_mem he)
      rw [hother _ hne]
      exact ⟨Finset.mem_insert_of_mem (h.entry e he).1, (h.entry e he).2⟩
  · intro x hx
    rw [hactive, Finset.mem_insert] at hx
    by_cases hxid : x = id
    · subst hxid
      exact ⟨⟨timer, hself, hc⟩, .inl ((hids _).mpr (.inl rfl))⟩
    · obtain ⟨ht, hin⟩ := h.active x (hx.resolve_left hxid)
      rw [hother x hxid]
      refine ⟨ht, hin.imp (fun hin => (hids x).mpr (.inr hin)) fun hin => ?_⟩
      obtain ho | ho := hout
      · rwa [ho] at hin
      · rw [ho] at hin
        exact (List.mem_cons.mp hin).resolve_left hxid
  · obtain ho | ho := hout
    · rw [← ho]
      exact h.out_nodup
    · exact (List.nodup_cons.mp (ho ▸ h.out_nodup)).2
  · intro x hx
    have hxid : x ≠ id := fun heq => hid' (heq ▸ hx)
    obtain ⟨hnot, t, ht, hor⟩ := h.out x (hsub x hx)
    rw [hids, hother x hxid, hactive]
    exact ⟨not_or.mpr ⟨hxid, hnot⟩, t, ht, hor.imp_left (Finset.mem_insert_of_mem ·)⟩

/-- A new id is in no container. -/
theorem Consistent.notMem_of_none {Q : TimerQueue} (h : Q.Consistent) {id : TimerId}
    (hid : Q.heap id = none) :
    id ∉ Q.timerIds ∧ id ∉ Q.activeTimers ∧ id ∉ Q.phase.out := by
  have hact : id ∉ Q.activeTimers := fun hin => by
    obtain ⟨⟨timer, ht, -⟩, -⟩ := h.active id hin
    exact absurd (hid.symm.trans ht) (by simp)
  refine ⟨fun hin => hact (h.mem_active hin), hact, fun hin => ?_⟩
  obtain ⟨-, timer, ht, -⟩ := h.out id hin
  exact absurd (hid.symm.trans ht) (by simp)

/-! ## Leaving -/

/-- A timer leaves for good: it is not active any more, and if the pass still has it, it is
    marked. -/
theorem Consistent.leave {Q Q' : TimerQueue} (h : Q.Consistent) {id : TimerId}
    (hheap : ∀ x, x ≠ id → Q'.heap x = Q.heap x)
    (hsub : Q'.timers.Sublist Q.timers) (hkeep : ∀ e ∈ Q.timers, e.2 ≠ id → e ∈ Q'.timers)
    (hid : id ∉ Q'.timerIds) (hactive : Q'.activeTimers = Q.activeTimers.erase id)
    (hout : Q.phase.out = id :: Q'.phase.out ∨
      Q.phase.out = Q'.phase.out ∧ ∃ timer, Q'.heap id = some timer ∧ timer.canceled = true) :
    Q'.Consistent := by
  have hsubIds : Q'.timerIds.Sublist Q.timerIds := hsub.map Prod.snd
  have hsubOut : Q'.phase.out.Sublist Q.phase.out := by
    obtain ho | ⟨ho, -⟩ := hout
    · rw [ho]
      exact List.sublist_cons_self _ _
    · rw [ho]
  refine ⟨h.sorted.sublist hsub, hsubIds.nodup h.nodup, ?_, ?_, hsubOut.nodup h.out_nodup, ?_⟩
  · intro e he
    have hne : e.2 ≠ id := fun heq => hid (heq ▸ List.mem_map_of_mem he)
    rw [hactive, Finset.mem_erase, hheap _ hne]
    exact ⟨⟨hne, (h.entry e (hsub.subset he)).1⟩, (h.entry e (hsub.subset he)).2⟩
  · intro x hx
    rw [hactive, Finset.mem_erase] at hx
    rw [hheap x hx.1]
    refine ⟨(h.active x hx.2).1, (h.active x hx.2).2.imp (fun hin => ?_) fun hin => ?_⟩
    · obtain ⟨k, hk⟩ := mem_timerIds.mp hin
      exact mem_timerIds.mpr ⟨k, hkeep _ hk hx.1⟩
    · obtain ho | ⟨ho, -⟩ := hout
      · rw [ho] at hin
        exact (List.mem_cons.mp hin).resolve_left hx.1
      · rwa [← ho]
  · intro x hx
    obtain ⟨hnot, t, ht, hor⟩ := h.out x (hsubOut.subset hx)
    refine ⟨fun hin => hnot (hsubIds.subset hin), ?_⟩
    by_cases hxid : x = id
    · subst hxid
      obtain ho | ⟨-, t', ht', hc⟩ := hout
      · -- the pass has let go of it
        exact absurd hx (List.nodup_cons.mp (ho ▸ h.out_nodup)).1
      · exact ⟨t', ht', .inr hc⟩
    · rw [hheap x hxid, hactive]
      exact ⟨t, ht, hor.imp_left fun hin => Finset.mem_erase.mpr ⟨hxid, hin⟩⟩

/-- Once its entry is erased, a timer is not in `timers_`. -/
theorem Consistent.notMem_erase {Q : TimerQueue} (h : Q.Consistent) {id : TimerId} {timer : Timer}
    (ht : Q.heap id = some timer) : id ∉ (Q.timers.erase (timer.expiration, id)).map Prod.snd := by
  intro hin
  obtain ⟨⟨k, x⟩, he, rfl⟩ := List.mem_map.mp hin
  have hk := h.key_eq (List.mem_of_mem_erase he) ht
  subst hk
  exact (List.Nodup.of_map _ h.nodup).not_mem_erase he

theorem Consistent.congr {Q Q' : TimerQueue} (h : Q.Consistent) (hheap : Q'.heap = Q.heap)
    (htimers : Q'.timers = Q.timers) (hactive : Q'.activeTimers = Q.activeTimers)
    (hout : Q'.phase.out = Q.phase.out) : Q'.Consistent := by
  obtain ⟨h1, h2, h3, h4, h5, h6⟩ := h
  have hids : Q'.timerIds = Q.timerIds := congrArg (List.map Prod.snd) htimers
  constructor
  · rwa [htimers]
  · rwa [hids]
  · rwa [htimers, hactive, hheap]
  · rwa [hactive, hids, hout, hheap]
  · rwa [hout]
  · rwa [hout, hids, hactive, hheap]

/-- What the second loop passes over is not active. -/
theorem Consistent.notMem_of_skip {Q : TimerQueue} (h : Q.Consistent) {id : TimerId} {timer : Timer}
    (ht : Q.heap id = some timer) (hskip : id ∉ Q.activeTimers ∨ timer.canceled = true) :
    id ∉ Q.activeTimers := by
  obtain hskip | hskip := hskip
  · exact hskip
  · intro hact
    obtain ⟨⟨timer', ht', hc⟩, -⟩ := h.active id hact
    rw [ht] at ht'
    rw [← Option.some.inj ht', hskip] at hc
    exact Bool.noConfusion hc

/-! ## What a step does -/

/-- What a step does to a consistent queue; `low` and `high` bound the clock readings. -/
inductive Effect (ptrLess : TimerId → TimerId → Bool) (low high : ℕ) (Q : TimerQueue) :
    TimerStep → TimerQueue → Prop
  | stutter {l : TimerStep} : Effect ptrLess low high Q l Q
  | add {id : TimerId} {interval : ℕ} {repeating : Bool} {delayUs now : ℕ}
      (hcall : Q.phase.mayCall = true) (hnew : Q.heap id = none) (hclock : Q.clock ≤ now)
      (hlow : low ≤ now) (hhigh : now ≤ high) :
      Effect ptrLess low high Q (.addTimerInLoop id interval repeating delayUs now)
        { Q with
          clock := now
          heap := Function.update Q.heap id
            (some { interval, repeating, expiration := saturatingAdd delayUs now })
          timers := Q.timers.orderedInsert (entryLess ptrLess) (saturatingAdd delayUs now, id)
          activeTimers := insert id Q.activeTimers
          timerfd :=
            if Q.earliest.all fun entry => saturatingAdd delayUs now < entry.1 then
              .ofExpiration (saturatingAdd delayUs now)
            else Q.timerfd
          phase := Q.phase.record (.added id)
          log := Q.log ++ [.added id] }
  | cancelInactive {id : TimerId} (hcall : Q.phase.mayCall = true) (hid : id ∉ Q.activeTimers) :
      Effect ptrLess low high Q (.cancelInLoop id) (Q.record (.cancelled id))
  | cancel {id : TimerId} {timer : Timer} (hcall : Q.phase.mayCall = true)
      (hid : id ∈ Q.activeTimers) (ht : Q.heap id = some timer) :
      Effect ptrLess low high Q (.cancelInLoop id)
        { Q with
          heap := Function.update Q.heap id (some { timer with canceled := true })
          timers := Q.timers.erase (timer.expiration, id)
          activeTimers := Q.activeTimers.erase id
          timerfd :=
            if Q.earliest = some (timer.expiration, id) then
              .ofExpiration (((Q.timers.erase (timer.expiration, id)).head?.map Prod.fst).getD 0)
            else Q.timerfd
          phase := Q.phase.record (.cancelled id)
          log := Q.log ++ [.cancelled id] }
  | beginRead {now : ℕ} (hidle : Q.phase = .idle) (hclock : Q.clock ≤ now) (hhigh : now ≤ high) :
      Effect ptrLess low high Q (.beginRead now) (Q.beginRead now)
  | start {time : ℕ} {pass : Pass} {expired turns : List TimerId} {id : TimerId}
      {inCallback : Bool} {timer : Timer}
      (hphase : Q.phase = .running pass expired (id :: turns) inCallback)
      (ht : Q.heap id = some timer) (hc : timer.canceled = false) (hclock : Q.clock ≤ time) :
      Effect ptrLess low high Q (.turn time)
        { Q with
          clock := time
          phase := .running { pass with
            events := pass.events ++ [.started id timer.expiration time] } expired turns true
          log := Q.log ++ [.started id timer.expiration time] }
  | skip {time : ℕ} {pass : Pass} {expired turns : List TimerId} {id : TimerId}
      {inCallback : Bool} {timer : Timer}
      (hphase : Q.phase = .running pass expired (id :: turns) inCallback)
      (ht : Q.heap id = some timer) (hc : timer.canceled = true) :
      Effect ptrLess low high Q (.turn time)
        { Q with
          phase := .running { pass with events := pass.events ++ [.skipped id] } expired turns false
          log := Q.log ++ [.skipped id] }
  | beginRearm {pass : Pass} {expired : List TimerId} {inCallback : Bool}
      (hphase : Q.phase = .running pass expired [] inCallback) :
      Effect ptrLess low high Q .beginRearm { Q with phase := .rearming pass expired }
  | letGo {now : ℕ} {pass : Pass} {rest : List TimerId} {id : TimerId}
      (hphase : Q.phase = .rearming pass (id :: rest)) :
      Effect ptrLess low high Q (.rearm now)
        { Q with activeTimers := Q.activeTimers.erase id, phase := .rearming pass rest }
  | rearm {now : ℕ} {pass : Pass} {rest : List TimerId} {id : TimerId} {timer : Timer}
      (hphase : Q.phase = .rearming pass (id :: rest)) (ht : Q.heap id = some timer)
      (hrepeating : timer.repeating = true) (hactive : id ∈ Q.activeTimers)
      (hc : timer.canceled = false) (hid : id ∉ Q.timerIds) (hclock : Q.clock ≤ now)
      (hlow : low ≤ now) (hhigh : now ≤ high) :
      Effect ptrLess low high Q (.rearm now)
        { Q with
          clock := now
          heap := Function.update Q.heap id
            (some { timer with expiration := saturatingAdd timer.interval now })
          timers := Q.timers.orderedInsert (entryLess ptrLess)
            (saturatingAdd timer.interval now, id)
          phase := .rearming pass rest }
  | endRead {pass : Pass} (hphase : Q.phase = .rearming pass []) :
      Effect ptrLess low high Q .endRead
        { Q with
          timerfd :=
            if Q.earliest.isSome then .ofExpiration Q.earliestExpiration else Q.timerfd
          phase := .idle
          passes := Q.passes ++ [pass] }

theorem Consistent.effect_addTimerInLoop {Q : TimerQueue} (h : Q.Consistent) {low high : ℕ}
    {id : TimerId} {interval : ℕ} {repeating : Bool} {delayUs now : ℕ}
    (hcall : Q.phase.mayCall = true)
    (hl : (TimerStep.addTimerInLoop id interval repeating delayUs now).Enabled low high Q) :
    Effect ptrLess low high Q (.addTimerInLoop id interval repeating delayUs now)
      (Q.addTimerInLoop ptrLess id interval repeating delayUs now) := by
  obtain ⟨hnew, hclock, hlow, hhigh⟩ := hl
  have hgo : Effect ptrLess low high Q
      (.addTimerInLoop id interval repeating delayUs now) _ := .add hcall hnew hclock hlow hhigh
  rwa [← timers_emplace (h.notMem_of_none hnew).1] at hgo

theorem Consistent.effect_cancelInLoop {Q : TimerQueue} (h : Q.Consistent) {low high : ℕ}
    (hcall : Q.phase.mayCall = true) (id : TimerId) :
    Effect ptrLess low high Q (.cancelInLoop id) (Q.cancelInLoop id) := by
  by_cases hid : id ∈ Q.activeTimers
  · obtain ⟨⟨timer, ht, -⟩, -⟩ := h.active id hid
    convert Effect.cancel hcall hid ht using 1
    have hid' : id ∈ (Q.record (.cancelled id)).activeTimers := hid
    have ht' : (Q.record (.cancelled id)).heap id = some timer := ht
    simp only [TimerQueue.cancelInLoop, hid', ht', if_true]
    simp only [resetTimerfdIf, setTimer, record, earliest, earliestExpiration]
    by_cases hfirst : Q.timers.head? = some (timer.expiration, id)
    · simp [hfirst]
    · simp [hfirst]
  · have hid' : id ∉ (Q.record (.cancelled id)).activeTimers := hid
    rw [TimerQueue.cancelInLoop, if_neg hid']
    exact .cancelInactive hcall hid

theorem effect_turn {Q : TimerQueue} {low high time : ℕ}
    (hclock : Q.clock ≤ time) : Effect ptrLess low high Q (.turn time) (Q.turn time) := by
  unfold TimerQueue.turn
  split
  · next pass expired id turns inCallback hphase =>
    split
    · exact .stutter
    · next timer ht =>
      by_cases hc : timer.canceled = true
      · rw [if_pos hc]
        exact .skip hphase ht hc
      · rw [if_neg hc]
        exact .start hphase ht (by simpa using hc) hclock
  · exact .stutter

theorem Consistent.effect_rearm {Q : TimerQueue} (h : Q.Consistent) {low high now : ℕ}
    (hclock : Q.clock ≤ now) (hlow : low ≤ now) (hhigh : now ≤ high) :
    Effect ptrLess low high Q (.rearm now) (Q.rearm ptrLess now) := by
  unfold TimerQueue.rearm
  split
  · next pass id rest hphase =>
    have hmem : id ∈ Q.phase.out := by simp [hphase, ReadPhase.out]
    obtain ⟨hnot, timer, ht, -⟩ := h.out id hmem
    simp only [ht]
    split
    · next hskip =>
      have hgo : Effect ptrLess low high Q (.rearm now) _ := .letGo hphase
      rwa [Finset.erase_eq_of_notMem (h.notMem_of_skip ht hskip)] at hgo
    · next hskip =>
      obtain ⟨hact, hc⟩ := not_or.mp hskip
      split
      · next hrepeating =>
        have hgo : Effect ptrLess low high Q (.rearm now) _ :=
          .rearm hphase ht hrepeating (not_not.mp hact) (by simpa using hc) hnot hclock hlow hhigh
        rwa [← timers_emplace hnot] at hgo
      · exact .letGo hphase
  · exact .stutter

theorem Consistent.effect {Q : TimerQueue} (h : Q.Consistent) {l : TimerStep} {low high : ℕ}
    (hl : l.Enabled low high Q) : Effect ptrLess low high Q l (Q.exec ptrLess l) := by
  cases l with
  | addTimerInLoop id interval repeating delayUs now =>
    by_cases hcall : Q.phase.mayCall = true
    · rw [TimerQueue.exec, if_pos hcall]
      exact h.effect_addTimerInLoop hcall hl
    · rw [TimerQueue.exec, if_neg hcall]
      exact .stutter
  | cancelInLoop id =>
    by_cases hcall : Q.phase.mayCall = true
    · rw [TimerQueue.exec, if_pos hcall]
      exact h.effect_cancelInLoop hcall id
    · rw [TimerQueue.exec, if_neg hcall]
      exact .stutter
  | beginRead now =>
    rw [TimerQueue.exec]
    split
    · next hidle => exact .beginRead hidle hl.1 hl.2.2
    · exact .stutter
  | turn time => exact effect_turn hl
  | beginRearm =>
    show Effect ptrLess low high Q .beginRearm Q.beginRearm
    unfold TimerQueue.beginRearm
    split
    · next hphase => exact .beginRearm hphase
    · exact .stutter
  | rearm now => exact h.effect_rearm hl.1 hl.2.1 hl.2.2
  | endRead =>
    show Effect ptrLess low high Q .endRead Q.endRead
    unfold TimerQueue.endRead
    split
    · next hphase => exact .endRead hphase
    · exact .stutter

/-! ## The containers -/

theorem Consistent.beginRead {Q : TimerQueue} (h : Q.Consistent) (hidle : Q.phase = .idle)
    (now : ℕ) : (Q.beginRead now).Consistent := by
  have hsplit := List.takeWhile_append_dropWhile (p := fun e : ℕ × TimerId => decide (e.1 ≤ now))
    (l := Q.timers)
  have hids : (Q.beginRead now).phase.out ++ (Q.beginRead now).timerIds = Q.timerIds := by
    rw [timerIds, timerIds, ← hsplit, List.map_append]
    rfl
  have hnodup : ((Q.beginRead now).phase.out ++ (Q.beginRead now).timerIds).Nodup := by
    rw [hids]
    exact h.nodup
  obtain ⟨hnodupOut, hnodupIn, hdisjoint⟩ := List.nodup_append.mp hnodup
  have hsub : (Q.beginRead now).timers.Sublist Q.timers := List.dropWhile_sublist _
  refine ⟨h.sorted.sublist hsub, hnodupIn, fun e he => h.entry e (hsub.subset he), ?_,
    hnodupOut, ?_⟩
  · intro id hid
    have hin : id ∈ Q.timerIds := by
      have := (h.active id hid).2
      rwa [hidle, or_iff_left (by exact List.not_mem_nil)] at this
    rw [← hids, List.mem_append] at hin
    exact ⟨(h.active id hid).1, hin.symm⟩
  · intro id hid
    have hin : id ∈ Q.timerIds := by
      rw [← hids]
      exact List.mem_append_left _ hid
    have hact := h.mem_active hin
    obtain ⟨⟨timer, ht, -⟩, -⟩ := h.active id hact
    exact ⟨fun hin' => hdisjoint id hid id hin' rfl, timer, ht, .inl hact⟩

theorem Effect.consistent {Q Q' : TimerQueue} {l : TimerStep} {low high : ℕ}
    (he : Effect ptrLess low high Q l Q') (h : Q.Consistent) : Q'.Consistent := by
  cases he with
  | stutter => exact h
  | @add id _ _ _ _ _ hnew _ _ _ =>
    obtain ⟨hnot, -, hout⟩ := h.notMem_of_none hnew
    have hphase := ReadPhase.out_record Q.phase (.added id)
    exact h.enter hnot rfl rfl rfl rfl (.inl hphase.symm) (by rwa [hphase])
  | cancelInactive _ _ => exact h.congr rfl rfl rfl (ReadPhase.out_record _ _)
  | @cancel id timer _ _ ht =>
    refine h.leave (fun x hx => Function.update_of_ne hx _ _) List.erase_sublist
      (fun e he hne => ?_) (h.notMem_erase ht) rfl
      (.inr ⟨(ReadPhase.out_record _ _).symm, _, Function.update_self _ _ _, rfl⟩)
    apply (List.mem_erase_of_ne _).mpr he
    exact fun heq => hne (congrArg Prod.snd heq)
  | beginRead hidle _ _ => exact h.beginRead hidle _
  | start hphase _ _ _ => exact h.congr rfl rfl rfl (by rw [hphase]; rfl)
  | skip hphase _ _ => exact h.congr rfl rfl rfl (by rw [hphase]; rfl)
  | beginRearm hphase => exact h.congr rfl rfl rfl (by rw [hphase]; rfl)
  | @letGo _ pass rest id hphase =>
    have hout : Q.phase.out = id :: rest := by rw [hphase]; rfl
    have hnot : id ∉ Q.timerIds := (h.out id (by simp [hout])).1
    exact h.leave (fun _ _ => rfl) (List.Sublist.refl _) (fun e he _ => he) hnot rfl (.inl hout)
  | @rearm _ pass rest id timer hphase ht _ hactive hc hnot _ _ _ =>
    have hout : Q.phase.out = id :: rest := by rw [hphase]; rfl
    have hrest : id ∉ rest := (List.nodup_cons.mp (hout ▸ h.out_nodup)).1
    refine h.enter hnot ?_ rfl rfl (Finset.insert_eq_of_mem hactive).symm (.inr hout) hrest
    exact hc
  | endRead hphase => exact h.congr rfl rfl rfl (by rw [hphase]; rfl)

/-! ## The timerfd -/

/-- Erasing an entry that is not the earliest leaves the earliest. -/
theorem head?_erase {l : List (ℕ × TimerId)} {entry : ℕ × TimerId} (h : l.head? ≠ some entry) :
    (l.erase entry).head? = l.head? := by
  cases l with
  | nil => rfl
  | cons b l =>
    have hb : b ≠ entry := fun heq => h (congrArg some heq)
    rw [List.erase_cons_tail (by simpa using hb)]
    rfl

/-- Between passes the timerfd is set for the earliest timer; within a pass it need not be. -/
theorem Effect.armed {Q Q' : TimerQueue} {l : TimerStep} {low high : ℕ}
    (he : Effect ptrLess low high Q l Q') (h : Q.phase = .idle → Q.Armed) :
    Q'.phase = .idle → Q'.Armed := by
  cases he with
  | stutter => exact h
  | @add id _ _ delayUs now _ _ _ _ _ =>
    intro hidle e he
    have hold : Q.Armed := h (ReadPhase.record_eq_idle.mp hidle)
    have hhead := KeySorted.head?_orderedInsert (respectsKey_entryLess ptrLess) Q.timers
      (saturatingAdd delayUs now, id)
    have he' : (Q.timers.orderedInsert (entryLess ptrLess) (saturatingAdd delayUs now, id)).head? =
      some e := he
    rw [he', Option.map_some, Option.some.injEq] at hhead
    dsimp only
    cases hfirst : Q.earliest with
    | none =>
      have hnone : Q.timers.head? = none := hfirst
      simp [hhead, hnone]
    | some b =>
      have hsome : Q.timers.head? = some b := hfirst
      rw [hsome] at hhead
      by_cases hlt : saturatingAdd delayUs now < b.1
      · simp [hlt, hhead, min_eq_left hlt.le]
      · simp [hlt, hhead, hold b hfirst, min_eq_right (Nat.not_lt.mp hlt)]
  | cancelInactive _ _ => exact fun hidle => h (ReadPhase.record_eq_idle.mp hidle)
  | @cancel id timer _ _ _ =>
    intro hidle e he
    have he' : (Q.timers.erase (timer.expiration, id)).head? = some e := he
    dsimp only
    rw [he']
    by_cases hfirst : Q.earliest = some (timer.expiration, id)
    · rw [if_pos hfirst]
      rfl
    · rw [if_neg hfirst]
      rw [head?_erase hfirst] at he'
      exact h (ReadPhase.record_eq_idle.mp hidle) e he'
  | endRead _ =>
    intro _ e he
    have he' : Q.earliest = some e := he
    simp [he', earliestExpiration]
  | _ => exact fun hidle => nomatch hidle

/-- A step brings no key into `timers_` that is below every clock reading. -/
theorem Effect.le_key {Q Q' : TimerQueue} {l : TimerStep} {low high : ℕ}
    (he : Effect ptrLess low high Q l Q') (hlow : low ≤ kInt64Max)
    (h : ∀ e ∈ Q.timers, low ≤ e.1) : ∀ e ∈ Q'.timers, low ≤ e.1 := by
  have hinsert : ∀ delay now id, low ≤ now →
      ∀ e ∈ Q.timers.orderedInsert (entryLess ptrLess) (saturatingAdd delay now, id),
        low ≤ e.1 := by
    intro delay now id hnow e he
    obtain rfl | he := (List.mem_orderedInsert _).mp he
    · exact le_saturatingAdd hnow hlow
    · exact h e he
  cases he with
  | add _ _ _ hnow _ => exact hinsert _ _ _ hnow
  | cancel _ _ _ => exact fun e he => h e (List.mem_of_mem_erase he)
  | beginRead _ _ _ => exact fun e he => h e ((List.dropWhile_sublist _).subset he)
  | rearm _ _ _ _ _ _ _ hnow _ => exact hinsert _ _ _ hnow
  | _ => exact h

end TimerQueue

@[simp] theorem Itimerspec.nanoseconds_ofExpiration (expiration : ℕ) :
    (Itimerspec.ofExpiration expiration).nanoseconds = 1000 * expiration := by
  unfold ofExpiration
  by_cases h : 0 < expiration
  · rw [if_pos h, nanoseconds]
    simp only [kMicrosecondsPerSecond]
    omega
  · have h0 : expiration = 0 := by omega
    rw [if_neg h, h0]
    rfl

namespace TimerQueue

variable {ptrLess : TimerId → TimerId → Bool}

/-- The steps of a run, with clock readings between `low` and `high`. -/
def Step (ptrLess : TimerId → TimerId → Bool) (low high : ℕ) (Q : TimerQueue) (l : TimerStep)
    (Q' : TimerQueue) : Prop :=
  l.Enabled low high Q ∧ Q' = Q.exec ptrLess l

theorem consistent_empty : Consistent {} := by
  constructor
  all_goals simp [timerIds, KeySorted, ReadPhase.out]

theorem consistent_of_run {low high : ℕ} {ls : List TimerStep} {Q : TimerQueue}
    (hr : Run (Step ptrLess low high) {} ls Q) : Q.Consistent := by
  refine hr.invariant (P := Consistent) consistent_empty ?_
  rintro Q l _ h ⟨hl, rfl⟩
  exact (h.effect hl).consistent h

/-- What the loop relies on between passes: the containers hold the same timers, under their
    expirations, and the timerfd is armed for the earliest. -/
theorem containers_agree {ls : List TimerStep} {Q : TimerQueue}
    (hr : Run (Step ptrLess 1 kInt64Max) {} ls Q) (hidle : Q.phase = .idle) :
    (∀ id, id ∈ Q.timers.map Prod.snd ↔ id ∈ Q.activeTimers) ∧
      (Q.timers.map Prod.snd).Nodup ∧
      (∀ k id, (k, id) ∈ Q.timers →
        ∃ timer, Q.heap id = some timer ∧ timer.expiration = k ∧ timer.canceled = false) ∧
      (Q.timers ≠ [] → Q.timerfd ≠ {} ∧
        ∃ e ∈ Q.timers, (∀ e' ∈ Q.timers, e.1 ≤ e'.1) ∧ Q.timerfd.nanoseconds = 1000 * e.1) := by
  have hc := consistent_of_run hr
  have hkeys : ∀ e ∈ Q.timers, 1 ≤ e.1 := by
    refine (hr.invariant (P := fun Q => Q.Consistent ∧ ∀ e ∈ Q.timers, 1 ≤ e.1)
      ⟨consistent_empty, by simp⟩ ?_).2
    rintro Q l _ ⟨hc, h⟩ ⟨hl, rfl⟩
    exact ⟨(hc.effect hl).consistent hc, (hc.effect hl).le_key (by decide) h⟩
  have harmed : Q.Armed := by
    refine (hr.invariant (P := fun Q => Q.Consistent ∧ (Q.phase = .idle → Q.Armed))
      ⟨consistent_empty, fun _ e he => by simp [earliest] at he⟩ ?_).2 hidle
    rintro Q l _ ⟨hc, h⟩ ⟨hl, rfl⟩
    exact ⟨(hc.effect hl).consistent hc, (hc.effect hl).armed h⟩
  have hsame : ∀ id, id ∈ Q.timerIds ↔ id ∈ Q.activeTimers := fun id => by
    refine ⟨hc.mem_active, fun hid => ?_⟩
    have hin := (hc.active id hid).2
    rwa [hidle, or_iff_left (by exact List.not_mem_nil)] at hin
  refine ⟨hsame, hc.nodup, fun k id hmem => ?_, fun hne => ?_⟩
  · obtain ⟨hact, timer, ht, hk⟩ := hc.entry _ hmem
    obtain ⟨⟨timer', ht', hcancel⟩, -⟩ := hc.active id hact
    rw [ht] at ht'
    exact ⟨timer, ht, hk, by rw [Option.some.inj ht', hcancel]⟩
  · obtain ⟨e, l, htimers⟩ := List.exists_cons_of_ne_nil hne
    have hmem : e ∈ Q.timers := by simp [htimers]
    have hfd : Q.timerfd = .ofExpiration e.1 := harmed e (by simp [earliest, htimers])
    have hnano : Q.timerfd.nanoseconds = 1000 * e.1 := by simp [hfd]
    refine ⟨fun hzero => ?_, e, hmem, fun e' he' => ?_, hnano⟩
    · have := hkeys e hmem
      have hnone : 0 = 1000 * e.1 := by rw [← hnano, hzero]; rfl
      omega
    · exact (htimers ▸ hc.sorted).head_le (htimers ▸ he')

/-- A repeating timer, and in its callback the other timer of the batch is cancelled and an earlier
    one is added. -/
theorem containers_agree_batch :
    let Q := [.addTimerInLoop 1 5 true 3 1, .addTimerInLoop 2 0 false 4 2, .beginRead 10, .turn 10,
      .addTimerInLoop 3 0 false 0 11, .cancelInLoop 2, .turn 12, .beginRearm, .rearm 13, .rearm 13,
      .endRead].foldl (exec fun a b => decide (a < b)) {}
    Q.timers = [(11, 3), (18, 1)] ∧ (∀ id, id ∈ Q.timers.map Prod.snd ↔ id ∈ Q.activeTimers) ∧
      (Q.timers ≠ [] → Q.timerfd ≠ {} ∧
        ∃ e ∈ Q.timers, (∀ e' ∈ Q.timers, e.1 ≤ e'.1) ∧ Q.timerfd.nanoseconds = 1000 * e.1) := by
  intro Q
  have hall := containers_agree (Q := Q)
    (Run.of_allowed (Q := TimerStep.Enabled 1 kInt64Max) (by decide +kernel)) rfl
  exact ⟨by decide +kernel, hall.1, hall.2.2.2⟩

end TimerQueue

end AegisNet
