import Mathlib.Tactic.Common

/-!
# The functor queue of an event loop

The part of `src/net/EventLoop.{h,cpp}` that decides in which order queued work runs: functors
are pushed at the back of `pendingFunctors`, and `doPendingFunctors` swaps the whole queue out
and runs that batch from the front, while further pushes go to the next batch.

## Main definitions

- `EventLoop F` — the pending functors and the unrun rest of the batch being run
- `EventLoop.queued` — all functors still to be run, in the order in which they will run
-/

namespace AegisNet

/-- The two functor lists. `functors` is the local variable of `doPendingFunctors`, less what has
    been run; it is empty outside that function. -/
structure EventLoop (F : Type*) where
  pendingFunctors : List F := []
  functors : List F := []
  deriving DecidableEq, Repr

namespace EventLoop

variable {F : Type*}

def queueInLoop (loop : EventLoop F) (cb : F) : EventLoop F :=
  { loop with pendingFunctors := loop.pendingFunctors ++ [cb] }

/-- The start of `doPendingFunctors`: `functors.swap(pendingFunctors_)`. -/
def swapFunctors (loop : EventLoop F) : EventLoop F :=
  { pendingFunctors := [], functors := loop.pendingFunctors }

/-- All functors still to be run, in the order in which they will run. -/
def queued (loop : EventLoop F) : List F := loop.functors ++ loop.pendingFunctors

@[simp] theorem queued_queueInLoop (loop : EventLoop F) (cb : F) :
    (loop.queueInLoop cb).queued = loop.queued ++ [cb] := by
  simp [queued, queueInLoop]

/-- Starting a batch, when the last one is finished, moves nothing in the order. -/
theorem queued_swapFunctors {loop : EventLoop F} (h : loop.functors = []) :
    loop.swapFunctors.queued = loop.queued := by
  simp [queued, swapFunctors, h]

end EventLoop

end AegisNet
