import AegisNet.Net.EventLoop
import Mathlib.Data.List.Basic
import Mathlib.Logic.Function.Basic

/-!
# Several loops

Each loop has its thread, and a thread runs functors one after the other. What a thread does is a
list of operations; a functor brings the list `body` of its operations. `runInLoop` puts the body
in front on the loop's own thread and queues the functor for another one. Whichever it is, what a
thread has still to do is a list to which work is added at an end, and taking functors from the
queue does not change it.

## Main definitions

- `Threads κ T O` — the queue of each loop, and what its thread is executing
- `Threads.todo` — all that a thread has still to do, in order
-/

namespace AegisNet

/-- The loops `κ` with functors `T` and operations `O`. -/
structure Threads (κ T O : Type*) where
  loops : κ → EventLoop T := fun _ => {}
  /-- The rest of the functor or handler that the thread of a loop executes. -/
  running : κ → List O := fun _ => []

namespace Threads

variable {κ T O : Type*} [DecidableEq κ]

/-- The thread of `k` makes the calls `ops`, and goes on afterwards. -/
def call (x : Threads κ T O) (k : κ) (ops : List O) : Threads κ T O :=
  { x with running := Function.update x.running k (ops ++ x.running k) }

def queueInLoop (x : Threads κ T O) (loop : κ) (cb : T) : Threads κ T O :=
  { x with loops := Function.update x.loops loop ((x.loops loop).queueInLoop cb) }

/-- `loop->runInLoop(cb)` on the thread of `k`. -/
def runInLoop (body : T → List O) (x : Threads κ T O) (k loop : κ) (cb : T) : Threads κ T O :=
  if loop = k then x.call k (body cb) else x.queueInLoop loop cb

/-- Neither in a handler nor in `doPendingFunctors`. -/
def Idle (x : Threads κ T O) (k : κ) : Prop := x.running k = [] ∧ (x.loops k).functors = []

def swapFunctors (x : Threads κ T O) (k : κ) : Threads κ T O :=
  { x with loops := Function.update x.loops k (x.loops k).swapFunctors }

/-- One round of the loop in `doPendingFunctors`: `functor()`. -/
def nextFunctor (body : T → List O) (x : Threads κ T O) (k : κ) : Threads κ T O :=
  match (x.loops k).functors with
  | [] => x
  | cb :: rest =>
    { x with loops := Function.update x.loops k { x.loops k with functors := rest } }.call k (body cb)

/-- The thread of `k` has made a call, and `rest` is left. -/
def advance (x : Threads κ T O) (k : κ) (rest : List O) : Threads κ T O :=
  { x with running := Function.update x.running k rest }

/-- What the thread of `k` has still to do: its functor, the rest of the batch, the queue. -/
def todo (body : T → List O) (x : Threads κ T O) (k : κ) : List O :=
  x.running k ++ (x.loops k).queued.flatMap body

variable {body : T → List O} {x : Threads κ T O}

theorem todo_call (k : κ) (ops : List O) :
    (x.call k ops).todo body = Function.update (x.todo body) k (ops ++ x.todo body k) := by
  funext j
  by_cases h : j = k
  · subst h
    simp [todo, call]
  · simp [todo, call, h]

theorem todo_queueInLoop (k : κ) (cb : T) :
    (x.queueInLoop k cb).todo body = Function.update (x.todo body) k (x.todo body k ++ body cb) := by
  funext j
  by_cases h : j = k
  · subst h
    simp [todo, queueInLoop]
  · simp [todo, queueInLoop, h]

theorem todo_foldl_queueInLoop (k : κ) (cbs : List T) :
    (cbs.foldl (fun x cb => x.queueInLoop k cb) x).todo body =
      Function.update (x.todo body) k (x.todo body k ++ cbs.flatMap body) := by
  induction cbs generalizing x with
  | nil => simp
  | cons cb cbs ih =>
    rw [List.foldl_cons, ih, todo_queueInLoop]
    simp

theorem running_foldl_queueInLoop (k : κ) (cbs : List T) :
    (cbs.foldl (fun x cb => x.queueInLoop k cb) x).running = x.running := by
  induction cbs generalizing x with
  | nil => rfl
  | cons cb cbs ih => exact ih

/-- The body comes first or last. -/
theorem todo_runInLoop (k loop : κ) (cb : T) :
    (x.runInLoop body k loop cb).todo body = Function.update (x.todo body) loop
      (if loop = k then body cb ++ x.todo body loop else x.todo body loop ++ body cb) := by
  unfold runInLoop
  split
  · next h => rw [todo_call, h]
  · exact todo_queueInLoop loop cb

theorem todo_swapFunctors {k : κ} (h : x.Idle k) :
    (x.swapFunctors k).todo body = x.todo body := by
  funext j
  by_cases hj : j = k
  · subst hj
    simp [todo, swapFunctors, EventLoop.queued_swapFunctors h.2]
  · simp [todo, swapFunctors, hj]

theorem todo_nextFunctor {k : κ} (h : x.running k = []) :
    (x.nextFunctor body k).todo body = x.todo body := by
  funext j
  unfold nextFunctor
  split
  · rfl
  · next cb rest hq =>
    rw [todo_call]
    by_cases hj : j = k
    · subst hj
      simp [todo, EventLoop.queued, hq, h]
    · simp [todo, hj]

theorem todo_advance {k : κ} {op : O} {rest : List O} (h : x.running k = op :: rest) :
    x.todo body k = op :: (x.advance k rest).todo body k := by
  simp [todo, advance, h]

theorem todo_advance_of_ne {k j : κ} (h : j ≠ k) (rest : List O) :
    (x.advance k rest).todo body j = x.todo body j := by
  simp [todo, advance, h]

theorem running_nextFunctor_of_ne {k j : κ} (h : j ≠ k) :
    (x.nextFunctor body k).running j = x.running j := by
  unfold nextFunctor
  split
  · rfl
  · exact Function.update_of_ne h _ _

/-! ## What is queued -/

theorem mem_queued_queueInLoop {j k : κ} {cb f : T}
    (h : cb ∈ ((x.queueInLoop k f).loops j).queued) :
    cb ∈ (x.loops j).queued ∨ cb = f ∧ j = k := by
  by_cases hj : j = k
  · subst hj
    simp only [queueInLoop, Function.update_self, EventLoop.queued_queueInLoop] at h
    exact (List.mem_append.mp h).imp_right fun h => ⟨List.mem_singleton.mp h, rfl⟩
  · simp only [queueInLoop, Function.update_of_ne hj] at h
    exact .inl h

theorem mem_queued_foldl_queueInLoop {j k : κ} {cb : T} {cbs : List T}
    (h : cb ∈ ((cbs.foldl (fun x cb => x.queueInLoop k cb) x).loops j).queued) :
    cb ∈ (x.loops j).queued ∨ cb ∈ cbs := by
  induction cbs generalizing x with
  | nil => exact .inl h
  | cons f fs ih =>
    obtain h | h := ih h
    · exact (mem_queued_queueInLoop h).imp_right fun h => by rw [h.1]; exact List.mem_cons_self
    · exact .inr (List.mem_cons_of_mem _ h)

theorem mem_queued_runInLoop {j k loop : κ} {cb f : T}
    (h : cb ∈ ((x.runInLoop body k loop f).loops j).queued) :
    cb ∈ (x.loops j).queued ∨ cb = f ∧ j = loop ∧ loop ≠ k := by
  unfold runInLoop at h
  split at h
  · exact .inl h
  · next hne => exact (mem_queued_queueInLoop h).imp_right fun h => ⟨h.1, h.2, hne⟩

theorem mem_queued_swapFunctors {j k : κ} {cb : T}
    (h : cb ∈ ((x.swapFunctors k).loops j).queued) : cb ∈ (x.loops j).queued := by
  by_cases hj : j = k
  · subst hj
    simp only [swapFunctors, Function.update_self, EventLoop.swapFunctors, EventLoop.queued,
      List.append_nil] at h
    exact List.mem_append_right _ h
  · simpa only [swapFunctors, Function.update_of_ne hj] using h

theorem mem_queued_nextFunctor {j k : κ} {cb : T}
    (h : cb ∈ ((x.nextFunctor body k).loops j).queued) : cb ∈ (x.loops j).queued := by
  unfold nextFunctor at h
  split at h
  · exact h
  · next f rest hf =>
    by_cases hj : j = k
    · subst hj
      simp only [call, Function.update_self, EventLoop.queued] at h ⊢
      rw [hf, List.cons_append]
      exact List.mem_cons_of_mem _ h
    · simpa only [call, Function.update_of_ne hj] using h

end Threads

end AegisNet
