import AegisNet.Base.LogStream
import AegisNet.Lib.Packing
import AegisNet.Lib.Run
import Mathlib.Tactic.Common

/-!
# The asynchronous log

`src/base/AsyncLogging.{h,cpp}`: producers append
records to the current buffer under the mutex, and one writer thread swaps the filled buffers out,
writes them and recycles two of them. Buffers move by pointer; a pointer that was moved from is
null, and a step that would dereference it, fail an assertion or take the back of an empty vector
has no result.

## Main definitions

- `BufferPtr` — a `std::unique_ptr` to a large buffer
- `AsyncLogging` — the members, the locals of `threadFunc`, and where the threads are
- `AsyncLogging.exec` — one step of a producer, of the writer, or of the thread that starts and
  stops the log
- `AsyncLogging.held` — the buffers still to be written, in their order

## Main results

- `AsyncLogging.records_packed` — nothing is lost, duplicated, reordered or split
-/

namespace AegisNet

/-- `std::unique_ptr` to a large buffer; `none` is null. -/
abbrev BufferPtr := Option (FixedBuffer kLargeBuffer)

/-- The bytes behind a pointer. -/
def BufferPtr.contents : BufferPtr → List UInt8
  | some b => b.data
  | none => []

/-- Where the writer thread is in `threadFunc`. -/
inductive WriterPhase
  | notStarted
  /-- in front of the test of `running_` -/
  | testing
  /-- in front of the lock -/
  | locking
  /-- in `cond_.wait_for`, which gives the mutex back while it waits -/
  | waiting
  /-- in the loop over `buffersToWrite` -/
  | writing
  | finished
  deriving DecidableEq, Repr

/-- Where the thread that calls `start()` and `stop()` is. -/
inductive ControlPhase
  | fresh
  /-- in `start()`, `running_` set -/
  | starting
  | started
  /-- in `stop()`, `running_` cleared -/
  | stopping
  | stopped
  deriving DecidableEq, Repr

structure AsyncLogging where
  currentBuffer : BufferPtr := some {}
  nextBuffer : BufferPtr := some {}
  buffers : List BufferPtr := []
  running : Bool := false
  /-- `thread_.started()` -/
  started : Bool := false
  control : ControlPhase := .fresh
  writer : WriterPhase := .notStarted
  newBuffer1 : BufferPtr := none
  newBuffer2 : BufferPtr := none
  buffersToWrite : List BufferPtr := []
  /-- the buffers of `buffersToWrite` that have been written -/
  position : ℕ := 0
  /-- the arguments of `LogFile::append`, in order -/
  written : List (List UInt8) := []
  deriving DecidableEq

inductive LogStep
  | setRunning
  | startThread
  | stop
  /-- the notification and the join of `stop()` -/
  | join
  | append (logline : List UInt8)
  | testRunning
  | lock
  /-- the wait ends: notified, timed out or spuriously, with the mutex taken again -/
  | wake
  | write
  /-- `output.flush()` and the recycling of two buffers -/
  | recycle

namespace AsyncLogging

/-- The locked body of `append`. -/
def append (s : AsyncLogging) (logline : List UInt8) : Option AsyncLogging := do
  let current ← s.currentBuffer
  if logline.length < current.avail then
    some { s with currentBuffer := some (current.append logline) }
  else
    let fresh := s.nextBuffer.getD {}
    some { s with
      buffers := s.buffers ++ [s.currentBuffer]
      currentBuffer := some (fresh.append logline)
      nextBuffer := none }

/-- The beginning of `threadFunc`. -/
def startThread (s : AsyncLogging) : AsyncLogging :=
  { s with
    started := true
    control := .started
    writer := .testing
    newBuffer1 := some {}
    newBuffer2 := some {}
    buffersToWrite := [] }

/-- `assert(p && p->length() == 0)`. -/
def isFresh : BufferPtr → Bool
  | some b => b.length == 0
  | none => false

def testRunning (s : AsyncLogging) : Option AsyncLogging :=
  if s.running then
    if isFresh s.newBuffer1 && isFresh s.newBuffer2 && s.buffersToWrite.isEmpty then
      some { s with writer := .locking }
    else none
  else some { s with writer := .finished }

/-- The locked region behind the wait. -/
def swapBuffers (s : AsyncLogging) : AsyncLogging :=
  { s with
    writer := .writing
    position := 0
    buffersToWrite := s.buffers ++ [s.currentBuffer]
    buffers := s.buffersToWrite
    currentBuffer := s.newBuffer1
    newBuffer1 := none
    nextBuffer := if s.nextBuffer.isNone then s.newBuffer2 else s.nextBuffer
    newBuffer2 := if s.nextBuffer.isNone then none else s.newBuffer2 }

def lock (s : AsyncLogging) : AsyncLogging :=
  if s.buffers.isEmpty then { s with writer := .waiting } else s.swapBuffers

def write (s : AsyncLogging) : Option AsyncLogging := do
  let ptr ← s.buffersToWrite[s.position]?
  let buffer ← ptr
  some { s with written := s.written ++ [buffer.data], position := s.position + 1 }

/-- `if (!spare) { spare = std::move(v.back()); v.pop_back(); spare->reset(); }` -/
def takeSpare (spare : BufferPtr) (v : List BufferPtr) : Option (BufferPtr × List BufferPtr) :=
  if spare.isNone then do
    let ptr ← v.getLast?
    let buffer ← ptr
    some (some buffer.reset, v.dropLast)
  else some (spare, v)

def recycle (s : AsyncLogging) : Option AsyncLogging := do
  let kept := if 2 < s.buffersToWrite.length then s.buffersToWrite.take 2 else s.buffersToWrite
  let (newBuffer1, kept) ← takeSpare s.newBuffer1 kept
  let (newBuffer2, _) ← takeSpare s.newBuffer2 kept
  some { s with
    writer := .testing
    newBuffer1 := newBuffer1
    newBuffer2 := newBuffer2
    buffersToWrite := [] }

def exec (s : AsyncLogging) : LogStep → Option AsyncLogging
  | .setRunning => some { s with running := true, control := .starting }
  | .startThread => some s.startThread
  | .stop => some { s with running := false, control := .stopping }
  | .join => some { s with control := .stopped }
  | .append logline => s.append logline
  | .testRunning => s.testRunning
  | .lock => some s.lock
  | .wake => some s.swapBuffers
  | .write => s.write
  | .recycle => s.recycle

/-- Where each thread has to be for its step; `stop()` may come without `start()`, and its join
    waits for the end of `threadFunc`. Records are shorter than a buffer. -/
def Enabled (s : AsyncLogging) : LogStep → Prop
  | .setRunning => s.control = .fresh
  | .startThread => s.control = .starting
  | .stop => s.control = .started ∨ s.control = .fresh
  | .join => s.control = .stopping ∧ (s.started = true → s.writer = .finished)
  | .append logline => logline.length < kLargeBuffer
  | .testRunning => s.writer = .testing
  | .lock => s.writer = .locking
  | .wake => s.writer = .waiting
  | .write => s.writer = .writing ∧ s.position < s.buffersToWrite.length
  | .recycle => s.writer = .writing ∧ s.buffersToWrite.length ≤ s.position

instance (s : AsyncLogging) : DecidablePred s.Enabled := fun l => by
  cases l <;> unfold Enabled <;> infer_instance

def Step (s : AsyncLogging) (l : LogStep) (s' : AsyncLogging) : Prop :=
  s.Enabled l ∧ s.exec l = some s'

/-- The records of a run, in the order in which their appends took the mutex. -/
def records (ls : List LogStep) : List (List UInt8) :=
  ls.filterMap fun
    | .append logline => some logline
    | _ => none

/-- The buffers of `buffersToWrite` that are still to be written. -/
def unwritten (s : AsyncLogging) : List BufferPtr := s.buffersToWrite.drop s.position

/-- All buffers still to be written, in their order. -/
def held (s : AsyncLogging) : List BufferPtr := s.unwritten ++ s.buffers ++ [s.currentBuffer]

/-! ## The invariant -/

theorem records_append (ls ms : List LogStep) : records (ls ++ ms) = records ls ++ records ms :=
  List.filterMap_append

/-- The locals of `threadFunc`, from point to point. -/
def WriterKept (s : AsyncLogging) : Prop :=
  match s.writer with
  | .notStarted => s.buffersToWrite = []
  | .testing | .locking | .waiting =>
    s.newBuffer1 = some {} ∧ s.newBuffer2 = some {} ∧ s.buffersToWrite = []
  | .writing =>
    s.newBuffer1 = none ∧ (s.newBuffer2 = none ∨ s.newBuffer2 = some {}) ∧
      (∀ p ∈ s.buffersToWrite, p ≠ none) ∧ s.buffersToWrite ≠ [] ∧
      (s.newBuffer2 = none → 2 ≤ s.buffersToWrite.length)
  | .finished => s.buffersToWrite = []

/-- What every step keeps: no pointer to be written is null, the written blocks and the buffers
    still held pack the records, and the spare buffers are empty. While `nextBuffer_` is null, a
    filled buffer waits, so that the writer finds two buffers to recycle. -/
structure Kept (rs : List (List UInt8)) (s : AsyncLogging) : Prop where
  present : ∀ p ∈ s.held, p ≠ none
  packed : Packs rs (s.written ++ s.held.map BufferPtr.contents)
  next : s.nextBuffer = none ∨ s.nextBuffer = some {}
  full : s.nextBuffer = none → s.buffers ≠ []
  locals : s.WriterKept
  waits : s.control = .fresh ∨ s.control = .starting → s.writer = .notStarted

/-- Outside the writing loop the writer has nothing to write. -/
theorem WriterKept.empty {s : AsyncLogging} (h : s.WriterKept) (hw : s.writer ≠ .writing) :
    s.buffersToWrite = [] := by
  unfold WriterKept at h
  cases hp : s.writer <;> simp only [hp] at h
  case writing => exact absurd hp hw
  case notStarted => exact h
  case finished => exact h
  all_goals exact h.2.2

theorem kept_init : Kept [] {} where
  present := by simp [held, AsyncLogging.unwritten]
  packed := Packs.nil.concat_nil
  next := .inr rfl
  full := fun h => by cases h
  locals := rfl
  waits := fun _ => rfl

/-- A record goes behind all others, into the current buffer or into a fresh one. -/
theorem Kept.append {rs : List (List UInt8)} {s : AsyncLogging} (h : s.Kept rs)
    {logline : List UInt8} (hlen : logline.length < kLargeBuffer) :
    ∃ s', s.append logline = some s' ∧ s'.Kept (rs ++ [logline]) := by
  obtain ⟨current, hcurrent⟩ := Option.ne_none_iff_exists'.mp
    (h.present s.currentBuffer (by simp [held]))
  have hpacked := h.packed
  simp only [held, hcurrent, List.map_append, List.map_cons, List.map_nil,
    ← List.append_assoc] at hpacked
  by_cases hfit : logline.length < current.avail
  · refine ⟨{ s with currentBuffer := some (current.append logline) }, ?_, ?_⟩
    · simp [AsyncLogging.append, hcurrent, hfit]
    · refine ⟨fun p hp => ?_, ?_, h.next, h.full, h.locals, h.waits⟩
      · obtain hp | rfl : p ∈ s.unwritten ++ s.buffers ∨ p = some (current.append logline) := by
          simpa [held, AsyncLogging.unwritten, or_assoc] using hp
        · exact h.present p (by rw [held]; exact List.mem_append_left _ hp)
        · simp
      · have := hpacked.concat_last logline
        simpa [held, AsyncLogging.unwritten, BufferPtr.contents, FixedBuffer.data_append hfit]
          using this
  · have hfresh : s.nextBuffer.getD {} = {} := by
      obtain hn | hn := h.next <;> simp [hn]
    -- the record goes into a fresh buffer, where it fits
    have hroom : logline.length < (({} : FixedBuffer kLargeBuffer)).avail := hlen
    refine ⟨{ s with
      buffers := s.buffers ++ [s.currentBuffer]
      currentBuffer := some (FixedBuffer.append {} logline)
      nextBuffer := none }, ?_, ?_⟩
    · simp [AsyncLogging.append, hcurrent, hfit, hfresh]
    · refine ⟨fun p hp => ?_, ?_, .inl rfl, fun _ => by simp, h.locals, h.waits⟩
      · obtain hp | rfl : p ∈ s.held ∨ p = some (FixedBuffer.append {} logline) := by
          simpa [held, AsyncLogging.unwritten, or_assoc] using hp
        · exact h.present p hp
        · simp
      · have := hpacked.concat_nil.concat_last logline
        simpa [held, hcurrent, AsyncLogging.unwritten, BufferPtr.contents,
          FixedBuffer.data_append hroom] using this

/-- The swap takes all buffers over and leaves a fresh current one. -/
theorem held_swapBuffers {s : AsyncLogging} (h : s.buffersToWrite = []) :
    s.swapBuffers.held = s.held ++ [s.newBuffer1] := by
  simp [held, h, AsyncLogging.unwritten, swapBuffers]

theorem Kept.swapBuffers {rs : List (List UInt8)} {s : AsyncLogging} (h : s.Kept rs)
    (hw : s.writer = .locking ∨ s.writer = .waiting) : s.swapBuffers.Kept rs := by
  have hlocals : s.newBuffer1 = some {} ∧ s.newBuffer2 = some {} ∧ s.buffersToWrite = [] := by
    have := h.locals
    obtain hw | hw := hw <;> simpa only [WriterKept, hw] using this
  obtain ⟨h1, h2, hempty⟩ := hlocals
  have hheld := held_swapBuffers hempty
  refine ⟨fun p hp => ?_, ?_, ?_, ?_, ?_, fun hc => ?_⟩
  · rw [hheld, h1] at hp
    obtain hp | hp := List.mem_append.mp hp
    · exact h.present p hp
    · simp [List.mem_singleton.mp hp]
  · have := h.packed.concat_nil
    rw [hheld, h1, List.map_append, ← List.append_assoc]
    exact this
  · obtain hn | hn := h.next <;> simp [AsyncLogging.swapBuffers, hn, h2]
  · obtain hn | hn := h.next <;> simp [AsyncLogging.swapBuffers, hn, h2]
  · refine ⟨rfl, ?_, fun p hp => h.present p ?_, by simp [AsyncLogging.swapBuffers], fun hnone => ?_⟩
    · obtain hn | hn := h.next <;> simp [AsyncLogging.swapBuffers, hn, h2]
    · rw [held, List.append_assoc]
      exact List.mem_append_right _ hp
    · -- the second spare was handed out because `nextBuffer_` was null
      obtain hn | hn := h.next
      · have := List.length_pos_of_ne_nil (h.full hn)
        simp only [AsyncLogging.swapBuffers, List.length_append, List.length_singleton]
        omega
      · simp [AsyncLogging.swapBuffers, hn, h2] at hnone
  · have := h.waits hc
    obtain hw | hw := hw <;> rw [hw] at this <;> cases this

/-- Writing the next buffer moves its bytes from the held ones to the written ones. -/
theorem Kept.write {rs : List (List UInt8)} {s : AsyncLogging} (h : s.Kept rs)
    (hpos : s.position < s.buffersToWrite.length) :
    ∃ s', s.write = some s' ∧ s'.Kept rs := by
  have hdrop : s.unwritten =
      s.buffersToWrite[s.position] :: s.buffersToWrite.drop (s.position + 1) :=
    List.drop_eq_getElem_cons hpos
  obtain ⟨buffer, hbuffer⟩ := Option.ne_none_iff_exists'.mp
    (h.present s.buffersToWrite[s.position] (by rw [held, hdrop]; exact List.mem_cons_self))
  refine ⟨{ s with written := s.written ++ [buffer.data], position := s.position + 1 }, ?_, ?_⟩
  · simp [AsyncLogging.write, List.getElem?_eq_getElem hpos, hbuffer]
  · refine ⟨fun p hp => h.present p ?_, ?_, h.next, h.full, h.locals, h.waits⟩
    · rw [held, hdrop]
      exact List.mem_cons_of_mem _ hp
    · have := h.packed
      rw [held, hdrop, hbuffer] at this
      simpa [held, AsyncLogging.unwritten, BufferPtr.contents] using this

theorem takeSpare_none {v : List BufferPtr} (hv : v ≠ []) (hnull : ∀ p ∈ v, p ≠ none) :
    takeSpare none v = some (some {}, v.dropLast) := by
  obtain ⟨buffer, hbuffer⟩ := Option.ne_none_iff_exists'.mp (hnull _ (List.getLast_mem hv))
  simp [takeSpare, List.getLast?_eq_getLast_of_ne_nil hv, hbuffer, FixedBuffer.reset]

/-- Two buffers are found to recycle whenever two are missing. -/
theorem recycle_eq {s : AsyncLogging} (h : s.WriterKept) (hw : s.writer = .writing) :
    s.recycle = some { s with
      writer := .testing, newBuffer1 := some {}, newBuffer2 := some {}, buffersToWrite := [] } := by
  obtain ⟨h1, h2, hnull, hne, htwo⟩ : s.newBuffer1 = none ∧
      (s.newBuffer2 = none ∨ s.newBuffer2 = some {}) ∧ (∀ p ∈ s.buffersToWrite, p ≠ none) ∧
      s.buffersToWrite ≠ [] ∧ (s.newBuffer2 = none → 2 ≤ s.buffersToWrite.length) := by
    simpa only [WriterKept, hw] using h
  -- `resize(2)`
  obtain ⟨kept, hkept, hsub, hlen⟩ : ∃ kept, kept = (if 2 < s.buffersToWrite.length then
      s.buffersToWrite.take 2 else s.buffersToWrite) ∧ kept ⊆ s.buffersToWrite ∧
      min 2 s.buffersToWrite.length ≤ kept.length := by
    refine ⟨_, rfl, ?_, ?_⟩
    · split
      · exact List.take_subset _ _
      · exact List.Subset.refl _
    · split
      · exact Nat.le_of_eq List.length_take.symm
      · exact Nat.min_le_right _ _
  have hpos := List.length_pos_of_ne_nil hne
  have hfirst : takeSpare s.newBuffer1 kept = some (some {}, kept.dropLast) := by
    rw [h1]
    apply takeSpare_none
    · apply List.ne_nil_of_length_pos
      omega
    · exact fun p hp => hnull p (hsub hp)
  have hsecond : ∃ rest, takeSpare s.newBuffer2 kept.dropLast = some (some {}, rest) := by
    obtain h2 | h2 := h2
    · have := htwo h2
      rw [h2]
      refine ⟨_, takeSpare_none ?_ fun p hp => hnull p (hsub (List.dropLast_subset _ hp))⟩
      apply List.ne_nil_of_length_pos
      rw [List.length_dropLast]
      omega
    · exact ⟨kept.dropLast, by simp [takeSpare, h2]⟩
  obtain ⟨rest, hsecond⟩ := hsecond
  simp [AsyncLogging.recycle, ← hkept, hfirst, hsecond]

theorem Kept.recycle {rs : List (List UInt8)} {s : AsyncLogging} (h : s.Kept rs)
    (hw : s.writer = .writing) (hpos : s.buffersToWrite.length ≤ s.position) :
    ∃ s', s.recycle = some s' ∧ s'.Kept rs := by
  have hdone : s.unwritten = [] := List.drop_of_length_le hpos
  have hheld : s.held = s.buffers ++ [s.currentBuffer] := by rw [held, hdone, List.nil_append]
  refine ⟨_, recycle_eq h.locals hw, ?_⟩
  refine ⟨fun p hp => h.present p ?_, ?_, h.next, h.full, ⟨rfl, rfl, rfl⟩, fun hc => ?_⟩
  · rw [hheld]
    simpa [held, AsyncLogging.unwritten] using hp
  · have := h.packed
    rw [hheld] at this
    simpa [held, AsyncLogging.unwritten] using this
  · have := h.waits hc
    rw [hw] at this
    cases this

theorem Kept.testRunning {rs : List (List UInt8)} {s : AsyncLogging} (h : s.Kept rs)
    (hw : s.writer = .testing) : ∃ s', s.testRunning = some s' ∧ s'.Kept rs := by
  have hwaits : ¬ (s.control = .fresh ∨ s.control = .starting) := fun hc => by
    have := h.waits hc
    rw [hw] at this
    cases this
  obtain ⟨h1, h2, hempty⟩ : s.newBuffer1 = some {} ∧ s.newBuffer2 = some {} ∧
      s.buffersToWrite = [] := by
    simpa only [WriterKept, hw] using h.locals
  cases hrunning : s.running with
  | true =>
    refine ⟨{ s with writer := .locking }, ?_, ?_⟩
    · simp [AsyncLogging.testRunning, hrunning, h1, h2, hempty, isFresh, FixedBuffer.length]
    · exact ⟨h.present, h.packed, h.next, h.full, ⟨h1, h2, hempty⟩, fun hc => absurd hc hwaits⟩
  | false =>
    refine ⟨{ s with writer := .finished }, ?_, ?_⟩
    · simp [AsyncLogging.testRunning, hrunning]
    · exact ⟨h.present, h.packed, h.next, h.full, hempty, fun hc => absurd hc hwaits⟩

theorem Kept.lock {rs : List (List UInt8)} {s : AsyncLogging} (h : s.Kept rs)
    (hw : s.writer = .locking) : s.lock.Kept rs := by
  unfold AsyncLogging.lock
  split
  · have hlocals : s.newBuffer1 = some {} ∧ s.newBuffer2 = some {} ∧ s.buffersToWrite = [] := by
      simpa only [WriterKept, hw] using h.locals
    refine ⟨h.present, h.packed, h.next, h.full, hlocals, fun hc => ?_⟩
    have := h.waits hc
    rw [hw] at this
    cases this
  · exact h.swapBuffers (.inl hw)

/-- The thread starts with nothing on its way. -/
theorem Kept.startThread {rs : List (List UInt8)} {s : AsyncLogging} (h : s.Kept rs)
    (hc : s.control = .starting) : s.startThread.Kept rs := by
  have hempty : s.buffersToWrite = [] := by
    simpa only [WriterKept, h.waits (.inr hc)] using h.locals
  have hheld : s.startThread.held = s.held := by
    simp [held, hempty, AsyncLogging.startThread, AsyncLogging.unwritten]
  refine ⟨?_, ?_, h.next, h.full, ⟨rfl, rfl, rfl⟩, by simp [AsyncLogging.startThread]⟩
  · rw [hheld]
    exact h.present
  · rw [hheld]
    exact h.packed

/-- Every step of a thread goes through and keeps the invariant. -/
theorem Kept.exec {rs : List (List UInt8)} {s : AsyncLogging} (h : s.Kept rs) {l : LogStep}
    (hl : s.Enabled l) : ∃ s', s.exec l = some s' ∧ s'.Kept (rs ++ records [l]) := by
  have hsilent : ∀ {s' : AsyncLogging} {l : LogStep}, records [l] = [] → s'.Kept rs →
      s'.Kept (rs ++ records [l]) := by
    intro s' l hrecords h'
    rwa [hrecords, List.append_nil]
  cases l with
  | append logline => exact h.append hl
  | setRunning =>
    exact ⟨_, rfl, hsilent rfl ⟨h.present, h.packed, h.next, h.full, h.locals,
      fun _ => h.waits (.inl hl)⟩⟩
  | startThread => exact ⟨_, rfl, hsilent rfl (h.startThread hl)⟩
  | stop =>
    exact ⟨_, rfl, hsilent rfl ⟨h.present, h.packed, h.next, h.full, h.locals, by simp⟩⟩
  | join =>
    exact ⟨_, rfl, hsilent rfl ⟨h.present, h.packed, h.next, h.full, h.locals, by simp⟩⟩
  | testRunning =>
    obtain ⟨s', hs', h'⟩ := h.testRunning hl
    exact ⟨s', hs', hsilent rfl h'⟩
  | lock => exact ⟨_, rfl, hsilent rfl (h.lock hl)⟩
  | wake => exact ⟨_, rfl, hsilent rfl (h.swapBuffers (.inr hl))⟩
  | write =>
    obtain ⟨s', hs', h'⟩ := h.write hl.2
    exact ⟨s', hs', hsilent rfl h'⟩
  | recycle =>
    obtain ⟨s', hs', h'⟩ := h.recycle hl.1 hl.2
    exact ⟨s', hs', hsilent rfl h'⟩

theorem kept_of_run {s : AsyncLogging} {ls : List LogStep} (h : Run Step {} ls s) :
    s.Kept (records ls) := by
  apply h.history (P := fun ls s => s.Kept (records ls)) kept_init
  rintro ls l t u - ht ⟨hl, hu⟩
  obtain ⟨u', hu', hkept⟩ := ht.exec hl
  obtain rfl : u' = u := by simpa [hu'] using hu
  rw [records_append]
  exact hkept

/-- The log neither loses, duplicates nor reorders records: in every state of every run the written
    bytes, followed by the unwritten buffers of `buffersToWrite`, by `buffers_` and by
    `currentBuffer_`, are the appended records in the order of their appends, with no record over
    two buffers; no pointer among them is null, and no step of a thread fails. -/
theorem records_packed {s : AsyncLogging} {ls : List LogStep} (h : Run Step {} ls s) :
    s.written.flatten ++ (s.unwritten.map BufferPtr.contents).flatten ++
        (s.buffers.map BufferPtr.contents).flatten ++ BufferPtr.contents s.currentBuffer =
      (records ls).flatten ∧
    Packs (records ls) (s.written ++ s.held.map BufferPtr.contents) ∧
    (∀ p ∈ s.held, p ≠ none) ∧ ∀ l, s.Enabled l → (s.exec l).isSome := by
  have hkept := kept_of_run h
  refine ⟨?_, hkept.packed, hkept.present, fun l hl => ?_⟩
  · rw [← hkept.packed.flatten_eq]
    simp [held]
  · obtain ⟨s', hs', -⟩ := hkept.exec hl
    rw [hs']
    rfl

/-- One record written, one in the current buffer. -/
theorem records_packed_short :
    ∃ s : AsyncLogging, s.written = [[1, 2]] ∧ BufferPtr.contents s.currentBuffer = [3] ∧
      s.written.flatten ++ (s.unwritten.map BufferPtr.contents).flatten ++
        (s.buffers.map BufferPtr.contents).flatten ++ BufferPtr.contents s.currentBuffer =
      [1, 2, 3] := by
  have hrun : Run Step {} [.setRunning, .startThread, .append [1, 2], .testRunning, .lock, .wake,
      .append [3], .write] _ :=
    .cons ⟨rfl, rfl⟩ <| .cons ⟨rfl, rfl⟩ <| .cons ⟨by decide, rfl⟩ <| .cons ⟨rfl, rfl⟩ <|
      .cons ⟨rfl, rfl⟩ <| .cons ⟨rfl, rfl⟩ <| .cons ⟨by decide, rfl⟩ <|
      .cons ⟨by decide, rfl⟩ .nil
  exact ⟨_, rfl, rfl, (records_packed hrun).1⟩

end AsyncLogging

end AegisNet
