import Mathlib.Algebra.BigOperators.Group.Finset.Basic
import Mathlib.Data.Finset.Range
import Mathlib.Logic.Function.Basic

/-!
# The worker pool

`EventLoopThreadPool::start` with `EventLoopThread::startLoop` and `EventLoopThread::threadFunc`, as
the workers and the thread that makes them see it: the threads are made one by one, and the next one
only after the loop of the last one has been fetched.

## Main definitions

- `StartPhase`, `PoolThreadPhase` — where a call of `start` and a worker thread are
- `PoolAt` — how far the workers are, in numbers
-/

namespace AegisNet

/-- Where a thread is in a call of `TcpServer::start()`. -/
inductive StartPhase
  | idle
  /-- in `EventLoopThreadPool::start`, in front of the test `i < numThreads_` -/
  | testing (i : ℕ)
  /-- in `startLoop` of thread `i`, in front of the test `loop_ == nullptr` -/
  | fetching (i : ℕ)
  /-- in `cond_.wait` of thread `i` -/
  | waiting (i : ℕ)
  /-- in front of `loop_->runInLoop(…)` -/
  | submitting
  deriving DecidableEq, Repr

/-- Where a worker is in `threadFunc`. -/
inductive PoolThreadPhase
  | absent
  /-- in front of the callback -/
  | constructing
  | initialized
  /-- `loop_` is set -/
  | published
  /-- in `loop()` -/
  | looping
  deriving DecidableEq, Repr

namespace PoolThreadPhase

/-- `loop_ != nullptr` -/
def hasLoop : PoolThreadPhase → Bool
  | published | looping => true
  | _ => false

/-- The worker is behind the callback. -/
def called : PoolThreadPhase → Bool
  | absent | constructing => false
  | _ => true

theorem called_of_hasLoop {p : PoolThreadPhase} (h : p.hasLoop = true) : p.called = true := by
  cases p <;> first | rfl | cases h

theorem ne_absent_of_called {p : PoolThreadPhase} (h : p.called = true) : p ≠ absent := by
  rintro rfl
  cases h

end PoolThreadPhase

namespace StartPhase

/-- How many of the `n` loops are in `loops_`. -/
def fetched (n : ℕ) : StartPhase → ℕ
  | idle => 0
  | testing i | fetching i | waiting i => i
  | submitting => n

/-- How many of the `n` threads have been made. -/
def created (n : ℕ) : StartPhase → ℕ
  | idle => 0
  | testing i => i
  | fetching i | waiting i => i + 1
  | submitting => n

/-- A bound for the steps that the call still makes. -/
def weight (n : ℕ) : StartPhase → ℕ
  | idle => 0
  | testing i => 2 * (n - i) + 3
  | fetching i => 2 * (n - i) + 2
  | waiting i => 2 * (n - i) + 1
  | submitting => 2

end StartPhase

namespace PoolThreadPhase

/-- A bound for the steps that the worker still makes, and those of its owner that come from them. -/
def weight : PoolThreadPhase → ℕ
  | absent | constructing => 4
  | initialized => 3
  | published => 1
  | looping => 0

theorem sum_weight_update {n i : ℕ} (h : i < n) (w : ℕ → PoolThreadPhase) (p : PoolThreadPhase) :
    ∑ j ∈ Finset.range n, (Function.update w i p j).weight + (w i).weight =
      ∑ j ∈ Finset.range n, (w j).weight + p.weight := by
  have hi : i ∈ Finset.range n := Finset.mem_range.mpr h
  rw [← Finset.add_sum_erase _ _ hi, ← Finset.add_sum_erase _ (fun j => (w j).weight) hi,
    Function.update_self]
  have hrest : ∀ j ∈ (Finset.range n).erase i, (Function.update w i p j).weight = (w j).weight :=
    fun j hj => by rw [Function.update_of_ne (Finset.ne_of_mem_erase hj)]
  rw [Finset.sum_congr rfl hrest]
  omega

end PoolThreadPhase

/-- Of the workers, `created` are there, the callback has been called by the first `called`, and the
    first `fetched` have published their loops. -/
structure PoolAt (w : ℕ → PoolThreadPhase) (fetched created called : ℕ) : Prop where
  hasLoop : ∀ i < fetched, (w i).hasLoop = true
  absent : ∀ i, w i = .absent ↔ created ≤ i
  called : ∀ i, (w i).called = true ↔ i < called

namespace PoolAt

variable {w : ℕ → PoolThreadPhase} {fetched created called i : ℕ}

theorem lt_created (h : PoolAt w fetched created called) (hi : w i ≠ .absent) : i < created :=
  Nat.lt_of_not_le fun hle => hi ((h.absent i).mpr hle)

theorem fetched_le (h : PoolAt w fetched created called) : fetched ≤ called :=
  le_of_forall_lt fun i hi =>
    (h.called i).mp (PoolThreadPhase.called_of_hasLoop (h.hasLoop i hi))

theorem create (h : PoolAt w fetched created called) :
    PoolAt (Function.update w created .constructing) fetched (created + 1) called := by
  have habsent : w created = .absent := (h.absent created).mpr le_rfl
  refine ⟨fun i hi => ?_, fun i => ?_, fun i => ?_⟩
  · by_cases hic : i = created
    · have hloop := h.hasLoop i hi
      rw [hic, habsent] at hloop
      cases hloop
    · rw [Function.update_of_ne hic]
      exact h.hasLoop i hi
  · by_cases hic : i = created
    · simp [hic]
    · rw [Function.update_of_ne hic, h.absent i]
      omega
  · rw [← h.called i]
    by_cases hic : i = created
    · rw [hic, Function.update_self, habsent]
      rfl
    · rw [Function.update_of_ne hic]

/-- A worker goes on, and is as before in front of its callback or behind it. -/
theorem move (h : PoolAt w fetched created called) {p : PoolThreadPhase} (hi : w i ≠ .absent)
    (hp : p ≠ .absent) (hcalled : p.called = (w i).called)
    (hloop : (w i).hasLoop = true → p.hasLoop = true) :
    PoolAt (Function.update w i p) fetched created called := by
  refine ⟨fun j hj => ?_, fun j => ?_, fun j => ?_⟩
  · have hjloop := h.hasLoop j hj
    by_cases hji : j = i
    · subst hji
      rw [Function.update_self]
      exact hloop hjloop
    · rwa [Function.update_of_ne hji]
  · rw [← h.absent j]
    by_cases hji : j = i
    · simp [hji, hi, hp]
    · rw [Function.update_of_ne hji]
  · rw [← h.called j]
    by_cases hji : j = i
    · rw [hji, Function.update_self, hcalled]
    · rw [Function.update_of_ne hji]

/-- The callbacks are called in the order of the workers, since each is waited for. -/
theorem callback (h : PoolAt w fetched created called) (hle : created ≤ fetched + 1)
    (hi : w i = .constructing) :
    i = called ∧ PoolAt (Function.update w i .initialized) fetched created (called + 1) := by
  have hlt : i < created := h.lt_created (by rw [hi]; simp)
  have hnot : ¬ i < called := by
    rw [← h.called i, hi]
    simp [PoolThreadPhase.called]
  have hfetched := h.fetched_le
  obtain rfl : i = called := by omega
  refine ⟨rfl, fun j hj => ?_, fun j => ?_, fun j => ?_⟩
  · rw [Function.update_of_ne (by omega)]
    exact h.hasLoop j hj
  · rw [← h.absent j]
    by_cases hji : j = i
    · simp [hji, hi]
    · rw [Function.update_of_ne hji]
  · by_cases hji : j = i
    · simp [hji, PoolThreadPhase.called]
    · rw [Function.update_of_ne hji, h.called j]
      omega

theorem fetch (h : PoolAt w fetched created called) (hloop : (w fetched).hasLoop = true) :
    PoolAt w (fetched + 1) created called where
  hasLoop := fun i hi => by
    obtain hlt | rfl := Nat.lt_succ_iff_lt_or_eq.mp hi
    · exact h.hasLoop i hlt
    · exact hloop
  absent := h.absent
  called := h.called

end PoolAt

end AegisNet
