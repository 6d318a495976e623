import AegisNet.Lib.KeySorted
import AegisNet.Lib.Run
import Mathlib.Algebra.Group.Nat.Defs
import Mathlib.Data.Finset.Basic
import Mathlib.Logic.Function.Basic

/-!
# Timers

The timer queue of `src/net/TimerQueue.{h,cpp}` on its loop thread. A pass of `handleRead` is taken
step by step, because between its turns a callback runs, which may add and cancel timers. Times are
microseconds of the monotonic clock; a delay or an interval is given as the microseconds that
`secondsToMicroseconds` makes of it.

## Main definitions

- `Timer`, `TimerQueue` — the timer objects, the set `timers_`, the map `activeTimers_`
- `TimerQueue.addTimerInLoop`, `TimerQueue.cancelInLoop` — what callbacks and the loop call
- `TimerQueue.beginRead`, `TimerQueue.turn`, `TimerQueue.rearm`, `TimerQueue.endRead` — `handleRead`
- `TimerStep`, `TimerQueue.exec` — the steps
-/

namespace AegisNet

abbrev TimerId := ℕ

def kInt64Max : ℕ := 2 ^ 63 - 1

def kMicrosecondsPerSecond : ℕ := 1000000

/-- `a > INT64_MAX - b ? INT64_MAX : b + a`. -/
def saturatingAdd (a b : ℕ) : ℕ := if kInt64Max - b < a then kInt64Max else b + a

/-- `TimerQueue::Timer`, less its callback. -/
structure Timer where
  interval : ℕ
  repeating : Bool
  expiration : ℕ := 0
  canceled : Bool := false
  deriving DecidableEq, Repr

/-- `it_value` of the timerfd; zero disarms it. -/
structure Itimerspec where
  tv_sec : ℕ := 0
  tv_nsec : ℕ := 0
  deriving DecidableEq, Repr

/-- What `resetTimerfd` sets. -/
def Itimerspec.ofExpiration (expiration : ℕ) : Itimerspec :=
  if 0 < expiration then
    { tv_sec := expiration / kMicrosecondsPerSecond
      tv_nsec := expiration % kMicrosecondsPerSecond * 1000 }
  else {}

def Itimerspec.nanoseconds (value : Itimerspec) : ℕ := value.tv_sec * 1000000000 + value.tv_nsec

/-- What happens to timers. `skipped` is the turn of a timer that was cancelled before it. -/
inductive TimerEvent
  | added (id : TimerId)
  | cancelled (id : TimerId)
  | started (id : TimerId) (expiration time : ℕ)
  | skipped (id : TimerId)
  deriving DecidableEq, Repr

/-- A pass of `handleRead`: its clock reading, the timers that were pending then with an expiration
    up to it, and its events. -/
structure Pass where
  now : ℕ
  due : Finset TimerId
  events : List TimerEvent := []

/-- Where the loop thread is in `handleRead`. In `running`, `turns` is the rest of the first loop
    over `expired`, and the flag says whether a callback is running; in `rearming`, the list is the
    rest of the second loop. -/
inductive ReadPhase
  | idle
  | running (pass : Pass) (expired turns : List TimerId) (inCallback : Bool)
  | rearming (pass : Pass) (rest : List TimerId)

/-- The timer objects are shared pointers; a timer is known by its id, and `heap` holds the objects.
    The map `activeTimers_` takes an id to the object of that id, so its keys determine it. -/
structure TimerQueue where
  heap : TimerId → Option Timer := fun _ => none
  timers : List (ℕ × TimerId) := []
  activeTimers : Finset TimerId := ∅
  timerfd : Itimerspec := {}
  phase : ReadPhase := .idle
  /-- The latest time seen. -/
  clock : ℕ := 0
  log : List TimerEvent := []
  /-- The passes that have ended. -/
  passes : List Pass := []

/-- The order of `std::set<Entry>`: by expiration, and then by pointer. Of the order of pointers
    nothing is known. -/
def entryLess (ptrLess : TimerId → TimerId → Bool) (a b : ℕ × TimerId) : Prop :=
  a.1 < b.1 ∨ (a.1 = b.1 ∧ ptrLess a.2 b.2 = true)

instance (ptrLess : TimerId → TimerId → Bool) : DecidableRel (entryLess ptrLess) :=
  fun _ _ => inferInstanceAs (Decidable (_ ∨ _))

namespace ReadPhase

/-- Timers are added and cancelled between passes or by a running callback. -/
def mayCall : ReadPhase → Bool
  | idle => true
  | running _ _ _ inCallback => inCallback
  | rearming _ _ => false

/-- The event belongs to the pass in progress. -/
def record (e : TimerEvent) : ReadPhase → ReadPhase
  | idle => idle
  | running pass expired turns inCallback =>
    running { pass with events := pass.events ++ [e] } expired turns inCallback
  | rearming pass rest => rearming { pass with events := pass.events ++ [e] } rest

end ReadPhase

namespace TimerQueue

variable (ptrLess : TimerId → TimerId → Bool)

/-- `resetTimerfd`, if a condition holds. -/
def resetTimerfdIf (Q : TimerQueue) (condition : Bool) (expiration : ℕ) : TimerQueue :=
  { Q with timerfd := if condition then .ofExpiration expiration else Q.timerfd }

/-- `timers_.emplace`, which adds no second copy of an entry. -/
def emplace (Q : TimerQueue) (entry : ℕ × TimerId) : TimerQueue :=
  { Q with
    timers :=
      if entry ∈ Q.timers then Q.timers else Q.timers.orderedInsert (entryLess ptrLess) entry }

def setTimer (Q : TimerQueue) (id : TimerId) (timer : Timer) : TimerQueue :=
  { Q with heap := Function.update Q.heap id (some timer) }

def record (Q : TimerQueue) (e : TimerEvent) : TimerQueue :=
  { Q with log := Q.log ++ [e], phase := Q.phase.record e }

/-- The entry at `timers_.begin()`. -/
def earliest (Q : TimerQueue) : Option (ℕ × TimerId) := Q.timers.head?

/-- Its expiration, or zero if there is none. -/
def earliestExpiration (Q : TimerQueue) : ℕ := (Q.earliest.map Prod.fst).getD 0

/-- The constructor of `Timer` and `addTimerInLoop`, with its clock reading `now`. -/
def addTimerInLoop (Q : TimerQueue) (id : TimerId) (interval : ℕ) (repeating : Bool)
    (delayUs now : ℕ) : TimerQueue :=
  let expiration := saturatingAdd delayUs now
  let earliestChanged := Q.earliest.all fun entry => expiration < entry.1
  let Q := ({ Q with clock := now }.setTimer id { interval, repeating, expiration }).emplace ptrLess
    (expiration, id)
  let Q := { Q with activeTimers := insert id Q.activeTimers }.record (.added id)
  Q.resetTimerfdIf earliestChanged expiration

def cancelInLoop (Q : TimerQueue) (id : TimerId) : TimerQueue :=
  let Q := Q.record (.cancelled id)
  if id ∈ Q.activeTimers then
    match Q.heap id with
    | none => Q
    | some timer =>
      let entry := (timer.expiration, id)
      let earliestChanged := decide (Q.earliest = some entry)
      let Q := { Q.setTimer id { timer with canceled := true } with
        timers := Q.timers.erase entry
        activeTimers := Q.activeTimers.erase id }
      Q.resetTimerfdIf earliestChanged Q.earliestExpiration
  else Q

/-- The timers that are pending with an expiration up to `now`. -/
def due (Q : TimerQueue) (now : ℕ) : Finset TimerId :=
  Q.activeTimers.filter fun id => (Q.heap id).any fun timer => timer.expiration ≤ now

/-- `handleRead` up to its first loop: collect the timers that have expired. -/
def beginRead (Q : TimerQueue) (now : ℕ) : TimerQueue :=
  let expired := (Q.timers.takeWhile fun entry => decide (entry.1 ≤ now)).map Prod.snd
  { Q with
    clock := now
    timers := Q.timers.dropWhile fun entry => decide (entry.1 ≤ now)
    phase := .running { now, due := Q.due now } expired expired false }

/-- The turn of a timer in the first loop, at time `time`: start its callback, unless it was
    cancelled. -/
def turn (Q : TimerQueue) (time : ℕ) : TimerQueue :=
  match Q.phase with
  | .running pass expired (id :: turns) _ =>
    match Q.heap id with
    | none => Q
    | some timer =>
      if timer.canceled then
        { Q with phase := .running pass expired turns false }.record (.skipped id)
      else
        { Q with clock := time, phase := .running pass expired turns true }.record
          (.started id timer.expiration time)
  | _ => Q

/-- The second loop begins when the last callback has returned. -/
def beginRearm (Q : TimerQueue) : TimerQueue :=
  match Q.phase with
  | .running pass expired [] _ => { Q with phase := .rearming pass expired }
  | _ => Q

/-- The next timer in the second loop; only a repeating timer reads the clock. -/
def rearm (Q : TimerQueue) (now : ℕ) : TimerQueue :=
  match Q.phase with
  | .rearming pass (id :: rest) =>
    let Q := { Q with phase := .rearming pass rest }
    match Q.heap id with
    | none => Q
    | some timer =>
      if id ∉ Q.activeTimers ∨ timer.canceled then Q
      else if timer.repeating then
        let expiration := saturatingAdd timer.interval now
        ({ Q with clock := now }.setTimer id { timer with expiration }).emplace ptrLess
          (expiration, id)
      else { Q with activeTimers := Q.activeTimers.erase id }
  | _ => Q

/-- The end of `handleRead`: arm the timerfd for the earliest timer. -/
def endRead (Q : TimerQueue) : TimerQueue :=
  match Q.phase with
  | .rearming pass [] =>
    let Q := { Q with phase := .idle, passes := Q.passes ++ [pass] }
    Q.resetTimerfdIf Q.earliest.isSome Q.earliestExpiration
  | _ => Q

end TimerQueue

inductive TimerStep
  | addTimerInLoop (id : TimerId) (interval : ℕ) (repeating : Bool) (delayUs now : ℕ)
  | cancelInLoop (id : TimerId)
  | beginRead (now : ℕ)
  | turn (time : ℕ)
  | beginRearm
  | rearm (now : ℕ)
  | endRead
  deriving DecidableEq, Repr

/-- Ids are new, and the clock does not go back; its readings are between `low` and `high`. -/
def TimerStep.Enabled (low high : ℕ) (Q : TimerQueue) : TimerStep → Prop
  | addTimerInLoop id _ _ _ now => Q.heap id = none ∧ Q.clock ≤ now ∧ low ≤ now ∧ now ≤ high
  | beginRead now | rearm now => Q.clock ≤ now ∧ low ≤ now ∧ now ≤ high
  | turn time => Q.clock ≤ time
  | cancelInLoop _ | beginRearm | endRead => True

instance (low high : ℕ) (Q : TimerQueue) : DecidablePred (TimerStep.Enabled low high Q) :=
  fun l => by cases l <;> unfold TimerStep.Enabled <;> infer_instance

/-- Steps that are not possible in a state do nothing. -/
def TimerQueue.exec (ptrLess : TimerId → TimerId → Bool) (Q : TimerQueue) :
    TimerStep → TimerQueue
  | .addTimerInLoop id interval repeating delayUs now =>
    if Q.phase.mayCall then Q.addTimerInLoop ptrLess id interval repeating delayUs now else Q
  | .cancelInLoop id => if Q.phase.mayCall then Q.cancelInLoop id else Q
  | .beginRead now =>
    match Q.phase with
    | .idle => Q.beginRead now
    | _ => Q
  | .turn time => Q.turn time
  | .beginRearm => Q.beginRearm
  | .rearm now => Q.rearm ptrLess now
  | .endRead => Q.endRead

end AegisNet
