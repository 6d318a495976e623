import AegisNet.Lib.Run
import Mathlib.Logic.Function.Basic
import Mathlib.Tactic.Common

/-!
# Programs over one atomic cell

Straight-line concurrent programs in which every load and every store of a shared atomic cell is a
step of its own, and so is every other action on the shared memory. A thread is the rest of its
program. Run alone a program computes a function of the memory; run in a pool of threads its
steps interleave with those of the others.

## Main definitions

- `Atomic.Prog` — programs
- `Atomic.Memory` — the cell and the actions of a memory type
- `Atomic.Prog.run` — a program run alone
- `Atomic.Pool`, `Atomic.Move` — a pool of threads and its moves
- `Atomic.Pool.invariant` — the thread-modular invariant rule
-/

namespace Atomic

/-- A program over a cell with values `V`, with other actions `A`. -/
inductive Prog (V A : Type*)
  | done
  | load (branch : V → Prog V A)
  | store (v : V) (next : Prog V A)
  | act (a : A) (next : Prog V A)

/-- How a memory of type `σ` carries the cell and is changed by the actions. -/
structure Memory (V A σ : Type*) where
  get : σ → V
  set : σ → V → σ
  perform : σ → A → σ

variable {V A σ ι : Type*}

namespace Prog

/-- The program run alone. -/
def run (M : Memory V A σ) : Prog V A → σ → σ
  | done, s => s
  | load branch, s => (branch (M.get s)).run M s
  | store v next, s => next.run M (M.set s v)
  | act a next, s => next.run M (M.perform s a)

/-- One step: the rest of the program, and the memory. -/
def step (M : Memory V A σ) : Prog V A → σ → Prog V A × σ
  | done, s => (done, s)
  | load branch, s => (branch (M.get s), s)
  | store v next, s => (next, M.set s v)
  | act a next, s => (next, M.perform s a)

/-- The next step is a store. -/
def AtStore : Prog V A → Prop
  | store _ _ => True
  | _ => False

end Prog

/-- Threads, each with the rest of its program, and their memory. -/
structure Pool (ι V A σ : Type*) where
  thread : ι → Prog V A
  mem : σ

/-- A thread that has nothing to do is given a program, or a thread takes a step. -/
inductive Move (ι V A : Type*)
  | start (i : ι) (p : Prog V A)
  | step (i : ι)

namespace Pool

variable [DecidableEq ι]

def exec (M : Memory V A σ) (P : Pool ι V A σ) : Move ι V A → Pool ι V A σ
  | .start i p => { P with thread := Function.update P.thread i p }
  | .step i =>
    { thread := Function.update P.thread i ((P.thread i).step M P.mem).1
      mem := ((P.thread i).step M P.mem).2 }

/-- One step ahead of an uninterrupted run. -/
theorem exists_run_step {M : Memory V A σ} {P : Pool ι V A σ} {i : ι} {s : σ}
    (h : ∃ n, (List.replicate n (Move.step i)).foldl (exec M) (P.exec M (.step i)) =
      { thread := Function.update (P.exec M (.step i)).thread i .done, mem := s }) :
    ∃ n, (List.replicate n (Move.step i)).foldl (exec M) P =
      { thread := Function.update P.thread i .done, mem := s } := by
  obtain ⟨n, hn⟩ := h
  refine ⟨n + 1, ?_⟩
  rw [List.replicate_succ, List.foldl_cons, hn]
  simp [exec]

/-- Run without interruption, a thread computes what its program does alone. -/
theorem exists_run (M : Memory V A σ) (P : Pool ι V A σ) (i : ι) :
    ∃ n, (List.replicate n (Move.step i)).foldl (exec M) P =
      { thread := Function.update P.thread i .done, mem := (P.thread i).run M P.mem } := by
  generalize hp : P.thread i = p
  induction p generalizing P with
  | done =>
    have hthread : Function.update P.thread i .done = P.thread := by
      rw [← hp, Function.update_eq_self]
    exact ⟨0, by rw [hthread]; rfl⟩
  | load branch ih =>
    refine exists_run_step ?_
    simpa [exec, hp, Prog.step, Prog.run] using ih (M.get P.mem) (P.exec M (.step i))
      (by simp [exec, hp, Prog.step])
  | store v next ih =>
    refine exists_run_step ?_
    simpa [exec, hp, Prog.step, Prog.run] using ih (P.exec M (.step i))
      (by simp [exec, hp, Prog.step])
  | act a next ih =>
    refine exists_run_step ?_
    simpa [exec, hp, Prog.step, Prog.run] using ih (P.exec M (.step i))
      (by simp [exec, hp, Prog.step])

/-- **Thread-modular invariants.** A property of each thread and the memory holds throughout, if
    it holds of every program that is started, and every step of a thread keeps it for the thread
    itself and for the others. -/
theorem invariant {M : Memory V A σ} {E : Pool ι V A σ → Move ι V A → Prop}
    {T : ι → Prog V A → σ → Prop} {P Q : Pool ι V A σ} {ms : List (Move ι V A)}
    (h : Run (fun P m Q => E P m ∧ Q = P.exec M m) P ms Q) (h0 : ∀ i, T i (P.thread i) P.mem)
    (hstart : ∀ P i p, E P (.start i p) → (∀ j, T j (P.thread j) P.mem) → T i p P.mem)
    (hown : ∀ P i, E P (.step i) → (∀ j, T j (P.thread j) P.mem) →
      T i ((P.thread i).step M P.mem).1 ((P.thread i).step M P.mem).2)
    (hother : ∀ P i, E P (.step i) → (∀ j, T j (P.thread j) P.mem) → ∀ j, j ≠ i →
      T j (P.thread j) ((P.thread i).step M P.mem).2) :
    ∀ i, T i (Q.thread i) Q.mem := by
  refine h.invariant (P := fun Q => ∀ i, T i (Q.thread i) Q.mem) h0 ?_
  rintro R m _ hR ⟨hE, rfl⟩ j
  cases m with
  | start i p =>
    by_cases hj : j = i
    · subst hj
      simpa [exec] using hstart R j p hE hR
    · simpa [exec, hj] using hR j
  | step i =>
    by_cases hj : j = i
    · subst hj
      simpa [exec] using hown R j hE hR
    · simpa [exec, hj] using hother R i hE hR j hj

end Pool

end Atomic
