import AegisNet.Lib.Worklist
import AegisNet.WebChatServer.Sharing

/-!
# Every thread comes back to its loop

A handler does not go on for ever: each statement adds only statements of lower levels, and a thread
that needs the mutex gets it, as a broadcast comes to its end. So under a fair scheduler and a fair
mutex every thread is done with its handlers and functors again and again.

## Main definitions

- `WebChatServer.FairRun` — an infinite run in which no thread is left out

## Main results

- `WebChatServer.threads_return`
-/

namespace AegisNet

namespace WebChatServer

variable {κ ι : Type*} [DecidableEq κ] [LinearOrder ι] {s : WebChatServer κ ι} {k : κ}
  {op : ChatOp ι} {rest : List (ChatOp ι)}

/-! ## Steps -/

/-- The thread makes a statement. -/
theorem shrinks_perform (hrun : s.threads.running k = op :: rest) (w : IoResult) :
    Worklist.Shrinks ChatOp.level (s.threads.running k) ((s.perform k w).threads.running k) := by
  rw [perform_cons hrun, hrun]
  by_cases hbroadcast : ∃ msg, op = .broadcast msg
  · obtain ⟨msg, rfl⟩ := hbroadcast
    refine ⟨_, rest, _, rfl, (proceeds_broadcast hrun).after, fun o ho => ?_⟩
    obtain ho | ho := List.mem_append.mp ho
    · obtain ⟨x, -, rfl⟩ := List.mem_map.mp ho
      simp [ChatOp.level]
    · rw [List.mem_singleton.mp ho]
      simp [ChatOp.level]
  · by_cases hunlock : op = .unlock
    · subst hunlock
      exact ⟨_, rest, [], rfl, running_advance rest, by simp⟩
    · obtain ⟨ops, ha⟩ := adds_execOp (s := s.advance k rest) (k := k)
        (fun msg hop => hbroadcast ⟨msg, hop⟩) hunlock w
      refine ⟨op, rest, ops, rfl, ?_, ha.level⟩
      rw [ha.running, Function.update_self, running_advance]

/-- The steps of the others leave the list of a thread alone, and so do those that start something,
    as they wait until there is nothing on it. -/
theorem running_execStep {l : ChatStep κ ι} (hready : s.Ready l)
    (hne : s.threads.running k ≠ []) (hl : ∀ w, l ≠ .perform k w) :
    (s.execStep l).threads.running k = s.threads.running k := by
  by_cases hperform : ∃ j w, l = .perform j w
  · obtain ⟨j, w, rfl⟩ := hperform
    have hj : k ≠ j := by
      rintro rfl
      exact hl w rfl
    show (s.perform j w).threads.running k = _
    cases hrun : s.threads.running j with
    | nil => rw [perform_nil hrun]
    | cons op rest =>
      rw [perform_cons hrun]
      by_cases hbroadcast : ∃ msg, op = .broadcast msg
      · obtain ⟨msg, rfl⟩ := hbroadcast
        exact (proceeds_broadcast hrun).other k hj
      · by_cases hunlock : op = .unlock
        · subst hunlock
          exact Function.update_of_ne hj ..
        · obtain ⟨ops, ha⟩ := adds_execOp (s := s.advance j rest) (k := j)
            (fun msg hop => hbroadcast ⟨msg, hop⟩) hunlock w
          rw [ha.running_of_ne hj]
          exact Function.update_of_ne hj ..
  · obtain ⟨hidle, ⟨ops, ha⟩, -⟩ := adds_execStep hready fun j w hl => hperform ⟨j, w, hl⟩
    refine ha.running_of_ne ?_
    rintro rfl
    exact hne hidle

/-! ## Runs -/

/-- A run without end. A thread that again and again can make a statement makes one again and
    again; for one that waits for the mutex this says that the mutex is fair. -/
structure FairRun (ρ : ℕ → WebChatServer κ ι) (steps : ℕ → ℕ × ChatStep κ ι) : Prop where
  step : ∀ n, Step (ρ n) (steps n) (ρ (n + 1))
  fair : ∀ k, (∀ n, ∃ m, n ≤ m ∧ (ρ m).threads.running k ≠ [] ∧ ∀ w, (ρ m).Ready (.perform k w)) →
    ∀ n, ∃ m, n ≤ m ∧ ∃ w, (steps m).2 = .perform k w

namespace FairRun

variable {ρ : ℕ → WebChatServer κ ι} {steps : ℕ → ℕ × ChatStep κ ι}

theorem locked (h : FairRun ρ steps) (hlocked : (ρ 0).Locked) (n : ℕ) : (ρ n).Locked := by
  induction n with
  | zero => exact hlocked
  | succ n ih =>
    obtain ⟨hl, heq⟩ := h.step n
    rw [heq]
    exact ih.exec hl

/-- A step while a thread broadcasts. -/
theorem broadcasting_step (h : FairRun ρ steps) {n : ℕ} {xs : List ι} {msg : Bytes}
    (hb : (ρ n).Broadcasting k xs msg rest) :
    ((∃ w, (steps n).2 = .perform k w) ∧
      ((ρ (n + 1)).mutex = none ∨ ∃ x ys, xs = x :: ys ∧ (ρ (n + 1)).Broadcasting k ys msg rest)) ∨
    ((¬ ∃ w, (steps n).2 = .perform k w) ∧ (ρ (n + 1)).Broadcasting k xs msg rest) := by
  obtain ⟨hl, heq⟩ := h.step n
  have hb' : Broadcasting { ρ n with clock := (steps n).1 } k xs msg rest :=
    hb.frame rfl rfl rfl hb.other
  by_cases hown : ∃ w, (steps n).2 = .perform k w
  · refine .inl ⟨hown, ?_⟩
    obtain ⟨w, hw⟩ := hown
    rw [heq, WebChatServer.exec, hw]
    obtain ⟨-, -, ⟨-, hfree⟩ | ⟨hne, hnext⟩⟩ := hb'.perform w
    · exact .inl hfree.mutex
    · obtain ⟨x, ys, rfl⟩ := List.exists_cons_of_ne_nil hne
      exact .inr ⟨x, ys, rfl, hnext⟩
  · refine .inr ⟨hown, ?_⟩
    rw [heq]
    exact (hb'.execStep hl.2.2 fun w hw => hown ⟨w, hw⟩).1

/-- Until its thread makes a statement, a broadcast stays where it is. -/
theorem stays (h : FairRun ρ steps) {xs : List ι} {msg : Bytes} {n : ℕ}
    (hb : (ρ n).Broadcasting k xs msg rest) (m : ℕ) (hm : n ≤ m)
    (hfirst : ∀ j, n ≤ j → j < m → ¬ ∃ w, (steps j).2 = .perform k w) :
    (ρ m).Broadcasting k xs msg rest := by
  induction m, hm using Nat.le_induction with
  | base => exact hb
  | succ m hm ih =>
    have hb' := ih fun j hj hlt => hfirst j hj (hlt.trans (Nat.lt_succ_self m))
    obtain ⟨hown, -⟩ | ⟨-, hnext⟩ := h.broadcasting_step hb'
    · exact absurd hown (hfirst m hm (Nat.lt_succ_self m))
    · exact hnext

/-- A broadcast comes to its end. -/
theorem released (h : FairRun ρ steps) {xs : List ι} {msg : Bytes} {n : ℕ}
    (hb : (ρ n).Broadcasting k xs msg rest) : ∃ m, n ≤ m ∧ (ρ m).mutex = none := by
  by_contra hnever
  have hheld : ∀ m, n ≤ m → (ρ m).mutex ≠ none := fun m hm hnone => hnever ⟨m, hm, hnone⟩
  -- the thread keeps the mutex, and so it can go on at any time
  have hkeeps : ∀ m, n ≤ m → ∃ ys, (ρ m).Broadcasting k ys msg rest := by
    intro m hm
    induction m, hm using Nat.le_induction with
    | base => exact ⟨xs, hb⟩
    | succ m hm ih =>
      obtain ⟨ys, hys⟩ := ih
      obtain ⟨-, hfree | ⟨x, zs, -, hzs⟩⟩ | ⟨-, hys'⟩ := h.broadcasting_step hys
      · exact absurd hfree (hheld (m + 1) (hm.trans (Nat.le_succ m)))
      · exact ⟨zs, hzs⟩
      · exact ⟨ys, hys'⟩
  have hoften := h.fair k fun j => by
    obtain ⟨ys, hys⟩ := hkeeps (max n j) (le_max_left n j)
    refine ⟨max n j, le_max_right n j, ?_, hys.ready⟩
    rw [hys.running]
    simp
  -- by induction on what is in front of the iterator
  clear hkeeps
  induction xs generalizing n with
  | nil =>
    obtain ⟨m, hm, hown, hfirst⟩ := Worklist.exists_first (hoften n)
    have hstays := h.stays hb m hm hfirst
    obtain ⟨-, hfree | ⟨x, ys, hnil, -⟩⟩ | ⟨hnot, -⟩ := h.broadcasting_step hstays
    · exact hheld (m + 1) (hm.trans (Nat.le_succ m)) hfree
    · cases hnil
    · exact hnot hown
  | cons x xs ih =>
    obtain ⟨m, hm, hown, hfirst⟩ := Worklist.exists_first (hoften n)
    have hstays := h.stays hb m hm hfirst
    obtain ⟨-, hfree | ⟨y, ys, hcons, hys⟩⟩ | ⟨hnot, -⟩ := h.broadcasting_step hstays
    · exact hheld (m + 1) (hm.trans (Nat.le_succ m)) hfree
    · obtain ⟨rfl, rfl⟩ := List.cons.inj hcons
      have hle : n ≤ m + 1 := hm.trans (Nat.le_succ m)
      exact ih hys (fun ⟨j, hj, hnone⟩ => hheld j (hle.trans hj) hnone)
        fun j hj => hheld j (hle.trans hj)
    · exact hnot hown

theorem mutex_free (h : FairRun ρ steps) (hlocked : (ρ 0).Locked) (n : ℕ) :
    ∃ m, n ≤ m ∧ (ρ m).mutex = none := by
  obtain hfree | ⟨k, xs, msg, rest, hb⟩ := h.locked hlocked n
  · exact ⟨n, Nat.le_refl n, hfree.mutex⟩
  · exact h.released hb

end FairRun

/-- **Every thread comes back to its loop.** In an infinite run with a fair scheduler and a fair
    mutex, each thread is again and again done with all its handlers and functors, and the mutex is
    free again and again: no handler goes on for ever, and none waits for ever. -/
theorem threads_return {s₀ : WebChatServer κ ι} {ls : List (ℕ × ChatStep κ ι)} (h₀ : s₀.Fresh)
    {ρ : ℕ → WebChatServer κ ι} {steps : ℕ → ℕ × ChatStep κ ι} (hrun : Run Step s₀ ls (ρ 0))
    (h : FairRun ρ steps) (n : ℕ) :
    (∃ m, n ≤ m ∧ (ρ m).mutex = none) ∧
      ∀ k, ∃ m, n ≤ m ∧ (ρ m).threads.running k = [] := by
  have hfree := h.mutex_free (h₀.locked hrun)
  refine ⟨hfree n, fun k => ?_⟩
  have hperforms : ∀ m w, (steps m).2 = .perform k w → (ρ m).threads.running k ≠ [] →
      Worklist.Shrinks ChatOp.level ((ρ m).threads.running k) ((ρ (m + 1)).threads.running k) := by
    intro m w hw hne
    obtain ⟨-, heq⟩ := h.step m
    obtain ⟨op, rest, hrun⟩ := List.exists_cons_of_ne_nil hne
    rw [heq, WebChatServer.exec, hw]
    exact shrinks_perform (s := { ρ m with clock := (steps m).1 }) hrun w
  refine @Worklist.eventually_nil _ ChatOp.level (fun m => (ρ m).threads.running k)
    (fun m hne => ?_) (fun m => ?_) n
  · by_cases hown : ∃ w, (steps m).2 = .perform k w
    · obtain ⟨w, hw⟩ := hown
      exact .inr (hperforms m w hw hne)
    · obtain ⟨hl, heq⟩ := h.step m
      refine .inl ?_
      rw [heq]
      exact running_execStep (s := { ρ m with clock := (steps m).1 }) hl.2.2 hne
        fun w hw => hown ⟨w, hw⟩
  · by_cases hidle : ∃ j, m ≤ j ∧ (ρ j).threads.running k = []
    · obtain ⟨j, hj, hnil⟩ := hidle
      exact ⟨j, hj, .inl hnil⟩
    · -- the thread always has a statement to make, and the mutex is free again and again
      have hbusy : ∀ j, m ≤ j → (ρ j).threads.running k ≠ [] := fun j hj hnil => hidle ⟨j, hj, hnil⟩
      have hoften := h.fair k fun j => by
        obtain ⟨i, hi, hnone⟩ := hfree (max m j)
        exact ⟨i, (le_max_right m j).trans hi, hbusy i ((le_max_left m j).trans hi),
          fun _ _ _ _ => hnone⟩
      obtain ⟨j, hj, w, hw⟩ := hoften m
      exact ⟨j, hj, .inr (hperforms j w hw (hbusy j hj))⟩

/-- The thread goes on with what `handleEvent` has started, and then has nothing to do. -/
def pairSteps (n : ℕ) : WebChatServer Unit (Fin 2) :=
  (fun s => s.exec (6, .perform () (.upTo 1000)))^[n] ((pairRun.take 11).foldl exec pairRoom)

theorem pairSteps_succ (n : ℕ) :
    pairSteps (n + 1) = (pairSteps n).exec (6, .perform () (.upTo 1000)) :=
  Function.iterate_succ_apply' ..

theorem pairSteps_late (n : ℕ) : pairSteps (9 + n) = pairSteps 9 := by
  have hclock : (pairSteps 9).clock = 6 := by decide +kernel
  have hrun : (pairSteps 9).threads.running () = [] := by decide +kernel
  induction n with
  | zero => rfl
  | succ n ih =>
    rw [← Nat.add_assoc, pairSteps_succ, ih]
    generalize pairSteps 9 = s at *
    have hsame : { s with clock := 6 } = s := by rw [← hclock]
    show WebChatServer.perform { s with clock := 6 } () (.upTo 1000) = s
    rw [hsame, perform_nil hrun]

theorem enabled_pairSteps (n : ℕ) : (pairSteps n).Enabled (6, .perform () (.upTo 1000)) := by
  have hearly : ∀ m, m < 10 → (pairSteps m).Enabled (6, .perform () (.upTo 1000)) := by
    decide +kernel
  by_cases hn : n < 10
  · exact hearly n hn
  · obtain ⟨m, rfl⟩ := Nat.exists_eq_add_of_le (by omega : 9 ≤ n)
    rw [pairSteps_late]
    exact hearly 9 (by decide)

/-- The handler of the one thread comes to its end. -/
theorem threads_return_pair :
    (pairSteps 0).threads.running () ≠ [] ∧
      ∀ n, ∃ m, n ≤ m ∧ (pairSteps m).threads.running () = [] := by
  have hrun : Run Step pairRoom (pairRun.take 11) (pairSteps 0) :=
    Run.of_allowed (Q := Enabled) (by decide +kernel)
  have hfair : FairRun pairSteps fun _ => (6, .perform () (.upTo 1000)) :=
    ⟨fun n => ⟨enabled_pairSteps n, pairSteps_succ n⟩, fun _ _ n => ⟨n, Nat.le_refl n, _, rfl⟩⟩
  exact ⟨by decide +kernel, fun n => (threads_return opening_pairRoom.toFresh hrun hfair n).2 ()⟩

end WebChatServer

end AegisNet
