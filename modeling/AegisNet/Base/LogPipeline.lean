import AegisNet.Base.AsyncLogging
import AegisNet.Base.LogFile
import AegisNet.Base.Logger
import Mathlib.Data.List.Induction

/-!
# The way of a log record to the disk

`threadFunc` of `AsyncLogging` owns a `LogFile`, and the two are put together here: producers append
records, the writer thread appends whole buffers to the log file, which rolls when it is due, and
flushes it after each round. `fwrite` leaves bytes in the buffer of the `FILE`; `fflush` and `fclose`
hand them to the kernel.

## Main definitions

- `LogPipeline`, `LogPipeline.exec` — the log with its file
- `LogPipeline.files` — the contents of the log files, in the order in which they were begun
- `LogPipeline.NameAdvances`, `LogPipeline.Punctual` — the clock at a write
- `LogStatement` — a log statement, from its time stamp to its place in the source

## Main results

- `LogPipeline.logged_whole` — every record is whole in one file, and the files are bounded
- `LogPipeline.read_back` — the files read line by line
-/

namespace AegisNet

/-- The roll size of `output`. -/
def kRollSize : ℕ := 50 * 1024 * 1024

/-- The names of the files, in the order of their first entries. -/
def fileNames (entries : List Entry) : List Bytes :=
  entries.foldl (fun names entry => if names.contains entry.file then names
    else names ++ [entry.file]) []

structure LogPipeline where
  async : AsyncLogging := {}
  /-- The local `output` of `threadFunc`. -/
  output : Option LogState := none
  /-- How many entries the kernel has for certain. -/
  synced : ℕ := 0

namespace LogPipeline

section Definitions

variable (localtime : ℤ → Tm) (clock : ℕ → ℤ) (basename : Bytes)

def entries (P : LogPipeline) : List Entry := (P.output.map LogState.entries).getD []

/-- The contents of the log files, in the order in which they were begun. -/
def files (P : LogPipeline) : List Bytes :=
  (fileNames P.entries).map fun file => (recordsOf file P.entries).flatten

/-- `output.append(buffer->data(), buffer->length())`; a roll closes the old file. -/
def append (P : LogPipeline) (output : LogState) (buffer : FixedBuffer kLargeBuffer) :
    LogPipeline :=
  { P with
    output := some (output.append localtime clock buffer.data)
    synced := if LogState.Rolls localtime clock output then output.entries.length else P.synced }

/-- `output.flush()`, and the `fclose` of its destructor. -/
def flush (P : LogPipeline) : LogPipeline := { P with synced := P.entries.length }

/-- The step of a thread, with what it does to `output`. -/
def exec (P : LogPipeline) (l : LogStep) : Option LogPipeline := do
  let async ← P.async.exec l
  match l with
  | .startThread =>
    some { async := async, output := some (.new localtime clock basename kRollSize), synced := 0 }
  | .write => do
    let output ← P.output
    let ptr ← P.async.buffersToWrite[P.async.position]?
    let buffer ← ptr
    some ({ P with async := async }.append localtime clock output buffer)
  | .recycle => some { P with async := async }.flush
  | .testRunning =>
    if async.writer = .finished then some { P with async := async }.flush
    else some { P with async := async }
  | _ => some { P with async := async }

/-- The name that a roll finds is that of the open file, or was not used yet. -/
def NameAdvances (output : LogState) : Prop :=
  LogState.Rolls localtime clock output →
    output.log.fp =
      some (LogState.getLogFileName localtime output.log.basename (clock (output.reads + 1))) ∨
    ∀ entry ∈ output.entries,
      entry.file ≠ LogState.getLogFileName localtime output.log.basename (clock (output.reads + 1))

instance (output : LogState) : Decidable (NameAdvances localtime clock output) :=
  inferInstanceAs (Decidable (_ → (_ ∨ _)))

/-- The clock at a write. A roll finds a name of its own, and takes its day from a reading of the
    same day; otherwise a day of the month that is found again is of the same day. -/
def Punctual (output : LogState) : Prop :=
  if LogState.Rolls localtime clock output then
    (∀ entry ∈ output.entries, entry.file ≠
      LogState.getLogFileName localtime output.log.basename (clock (output.reads + 1))) ∧
    (localtime (clock (output.reads + 2))).day = (localtime (clock output.reads)).day
  else (localtime (clock output.reads)).day = (localtime output.rolledAt).day

instance (output : LogState) : Decidable (Punctual localtime clock output) :=
  inferInstanceAs (Decidable (if LogState.Rolls localtime clock output then (_ ∧ _) else _ = _))

/-- A step whose write, if it is one, finds the log file and the clock `timely`. -/
def EnabledIf (timely : LogState → Prop) (P : LogPipeline) (l : LogStep) : Prop :=
  P.async.Enabled l ∧ (l = .write → ∀ output ∈ P.output, timely output)

def Enabled (P : LogPipeline) (l : LogStep) : Prop := P.EnabledIf (Punctual localtime clock) l

def StepIf (timely : LogState → Prop) (P : LogPipeline) (l : LogStep) (P' : LogPipeline) : Prop :=
  P.EnabledIf timely l ∧ P.exec localtime clock basename l = some P'

def Step (P : LogPipeline) (l : LogStep) (P' : LogPipeline) : Prop :=
  P.StepIf localtime clock basename (Punctual localtime clock) l P'

end Definitions

end LogPipeline

/-! ## Files in their order -/

theorem fileNames_concat (entries : List Entry) (entry : Entry) :
    fileNames (entries ++ [entry]) =
      if entry.file ∈ fileNames entries then fileNames entries
      else fileNames entries ++ [entry.file] := by
  simp [fileNames]

theorem mem_fileNames {entries : List Entry} {file : Bytes} :
    file ∈ fileNames entries ↔ ∃ entry ∈ entries, entry.file = file := by
  induction entries using List.reverseRecOn with
  | nil => simp [fileNames]
  | append_singleton entries entry ih =>
    rw [fileNames_concat]
    split
    · next hmem =>
      rw [ih]
      constructor
      · rintro ⟨e, he, rfl⟩
        exact ⟨e, List.mem_append_left _ he, rfl⟩
      · rintro ⟨e, he, rfl⟩
        obtain he | he := List.mem_append.mp he
        · exact ⟨e, he, rfl⟩
        · obtain rfl := List.mem_singleton.mp he
          exact ih.mp hmem
    · simp [ih, or_and_right, exists_or, eq_comm]

/-- Each file is written to for one time, and the open one is the last. -/
structure Filed (s : LogState) : Prop where
  nodup : (fileNames s.entries).Nodup
  last : ∀ file, s.log.fp = some file → file ∈ fileNames s.entries →
    ∃ names, fileNames s.entries = names ++ [file]
  grouped : ((fileNames s.entries).map fun file => recordsOf file s.entries).flatten =
    s.entries.map Entry.record

namespace Filed

variable {s : LogState}

/-- A record in the open file. -/
theorem write (h : Filed s) (logline : Bytes) (now : ℤ) : Filed (s.write logline now) := by
  unfold LogState.write
  split
  · exact h
  · next file hfile =>
    have hnames := fileNames_concat s.entries ⟨file, logline, now⟩
    dsimp only at hnames
    by_cases hmem : file ∈ fileNames s.entries
    · obtain ⟨names, hlast⟩ := h.last file hfile hmem
      rw [if_pos hmem, hlast] at hnames
      have hnodup := h.nodup
      have hgrouped := h.grouped
      rw [hlast] at hnodup hgrouped
      refine ⟨hnames ▸ hnodup, fun other hother _ => ?_, ?_⟩
      · obtain rfl := Option.some.inj (hfile.symm.trans hother)
        exact ⟨names, hnames⟩
      · have hother : ∀ name ∈ names, recordsOf name (s.entries ++ [⟨file, logline, now⟩]) =
            recordsOf name s.entries := by
          intro name hname
          have hne : file ≠ name := by
            rintro rfl
            exact (List.nodup_append.mp hnodup).2.2 file hname file (by simp) rfl
          rw [recordsOf_concat, if_neg hne]
        show ((fileNames (s.entries ++ [_])).map _).flatten = (s.entries ++ [_]).map _
        rw [hnames, List.map_append, List.map_congr_left hother, List.map_append, ← hgrouped]
        simp [recordsOf_concat]
    · rw [if_neg hmem] at hnames
      have hfresh : ∀ entry ∈ s.entries, entry.file ≠ file := fun entry hentry heq =>
        hmem (mem_fileNames.mpr ⟨entry, hentry, heq⟩)
      refine ⟨?_, fun other hother _ => ?_, ?_⟩
      · rw [hnames]
        exact List.nodup_append.mpr ⟨h.nodup, by simp, by
          rintro a ha b hb rfl
          exact hmem (List.mem_singleton.mp hb ▸ ha)⟩
      · obtain rfl := Option.some.inj (hfile.symm.trans hother)
        exact ⟨_, hnames⟩
      · have hother : ∀ name ∈ fileNames s.entries,
            recordsOf name (s.entries ++ [⟨file, logline, now⟩]) = recordsOf name s.entries := by
          intro name hname
          have hne : file ≠ name := fun heq => hmem (heq ▸ hname)
          rw [recordsOf_concat, if_neg hne]
        show ((fileNames (s.entries ++ [_])).map _).flatten = (s.entries ++ [_]).map _
        rw [hnames, List.map_append, List.map_congr_left hother, List.map_append, ← h.grouped]
        simp [recordsOf_concat, recordsOf_eq_nil hfresh]

/-- A file under a name of its own is begun, or the open one is opened again. -/
theorem rollFile {localtime : ℤ → Tm} {clock : ℕ → ℤ} (h : Filed s)
    (hname : s.log.fp = some (LogState.getLogFileName localtime s.log.basename (clock s.reads)) ∨
      ∀ entry ∈ s.entries,
        entry.file ≠ LogState.getLogFileName localtime s.log.basename (clock s.reads)) :
    Filed (s.rollFile localtime clock) where
  nodup := h.nodup
  last file hfile hmem := by
    obtain hopen | hfresh := hname
    · exact h.last file (hopen.trans hfile) hmem
    · obtain ⟨entry, hentry, heq⟩ := mem_fileNames.mp hmem
      exact absurd (heq.trans (Option.some.inj hfile).symm) (hfresh entry hentry)
  grouped := h.grouped

theorem new (localtime : ℤ → Tm) (clock : ℕ → ℤ) (basename : Bytes) (rollSize : ℕ) :
    Filed (LogState.new localtime clock basename rollSize) :=
  ⟨List.nodup_nil, fun _ _ hmem => absurd hmem List.not_mem_nil, rfl⟩

theorem append {localtime : ℤ → Tm} {clock : ℕ → ℤ} (h : Filed s)
    (hname : LogPipeline.NameAdvances localtime clock s) (logline : Bytes) :
    Filed (s.append localtime clock logline) := by
  have htick : Filed s.tick := ⟨h.nodup, h.last, h.grouped⟩
  unfold LogState.append
  split
  · exact h
  · split
    · next hrolls => exact (htick.rollFile (hname hrolls)).write ..
    · exact htick.write ..

end Filed

namespace LogPipeline

variable {localtime : ℤ → Tm} {clock : ℕ → ℤ} {basename : Bytes} {rs : List (List UInt8)}
  {P : LogPipeline}

/-! ## One step -/

/-- An append is one entry. -/
theorem entries_append {s : LogState} (h : s.log.fp ≠ none) (logline : Bytes) :
    ∃ file now, (s.append localtime clock logline).entries =
      s.entries ++ [⟨file, logline, now⟩] := by
  obtain ⟨file, hfile⟩ := Option.ne_none_iff_exists'.mp h
  by_cases hrolls : LogState.Rolls localtime clock s
  · have happend : s.append localtime clock logline =
        (s.tick.rollFile localtime clock).write logline (clock s.reads) := by
      simp only [LogState.append, hfile, if_pos hrolls]
    exact ⟨_, _, by rw [happend]; rfl⟩
  · have happend : s.append localtime clock logline = s.tick.write logline (clock s.reads) := by
      simp only [LogState.append, hfile, if_neg hrolls]
    refine ⟨file, clock s.reads, ?_⟩
    rw [happend]
    simp [LogState.write, LogState.tick, hfile]

theorem isOpen_append {s : LogState} (h : s.log.fp ≠ none) (logline : Bytes) :
    (s.append localtime clock logline).log.fp ≠ none := by
  obtain ⟨file, hfile⟩ := Option.ne_none_iff_exists'.mp h
  unfold LogState.append
  rw [hfile]
  dsimp only
  split
  · exact Option.some_ne_none _
  · simp [LogState.write, LogState.tick, hfile]

theorem Punctual.nameAdvances {s : LogState} (h : Punctual localtime clock s) :
    NameAdvances localtime clock s := by
  intro hrolls
  unfold Punctual at h
  rw [if_pos hrolls] at h
  exact .inr h.1

/-- Buffers are so small that a punctual clock is all that is needed. -/
theorem Punctual.orderly {s : LogState} (h : Punctual localtime clock s)
    (hs : LogState.Tidy localtime kRollSize s) {logline : Bytes}
    (hlen : logline.length ≤ kLargeBuffer) : LogState.Orderly localtime clock s logline := by
  have hsmall : kRollSize + kLargeBuffer < 2 ^ 64 := by decide
  unfold Punctual at h
  unfold LogState.Orderly
  split at h
  · next hrolls =>
    rw [if_pos hrolls]
    exact ⟨h.1, h.2, by omega⟩
  · next hrolls =>
    rw [if_neg hrolls]
    have hbytes : s.log.writtenBytes ≤ kRollSize :=
      hs.rollSize_eq ▸ Nat.le_of_not_lt fun hlt => hrolls (.inr hlt)
    exact ⟨h, by omega⟩

theorem written_exec {s s' : AsyncLogging} {l : LogStep} (h : s.exec l = some s')
    (hl : l ≠ .write) : s'.written = s.written := by
  cases l with
  | write => exact absurd rfl hl
  | setRunning => cases h; rfl
  | startThread => cases h; rfl
  | stop => cases h; rfl
  | join => cases h; rfl
  | append logline =>
    cases hc : s.currentBuffer with
    | none => simp [AsyncLogging.exec, AsyncLogging.append, hc] at h
    | some current =>
      simp only [AsyncLogging.exec, AsyncLogging.append, hc, Option.bind_eq_bind,
        Option.bind_some] at h
      split at h <;> cases h <;> rfl
  | testRunning =>
    simp only [AsyncLogging.exec, AsyncLogging.testRunning] at h
    split at h
    · split at h
      · cases h
        rfl
      · cases h
    · cases h
      rfl
  | lock =>
    simp only [AsyncLogging.exec, AsyncLogging.lock] at h
    split at h <;> cases h <;> rfl
  | wake => cases h; rfl
  | recycle =>
    simp only [AsyncLogging.exec, AsyncLogging.recycle, Option.bind_eq_bind,
      Option.bind_eq_some_iff, Option.some_inj] at h
    obtain ⟨-, -, -, -, rfl⟩ := h
    rfl

/-- The invariant: what `threadFunc` has written is in the files. -/
structure Logged (rs : List (List UInt8)) (P : LogPipeline) : Prop where
  kept : P.async.Kept rs
  written : P.async.written = P.entries.map Entry.record
  filed : ∀ output, P.output = some output → output.log.fp ≠ none ∧ Filed output
  small : ∀ entry ∈ P.entries, entry.record.length ≤ kLargeBuffer
  started : P.output = none ↔ P.async.writer = .notStarted
  synced : P.async.writer ≠ .writing → P.synced = P.entries.length

theorem logged_init : Logged [] {} where
  kept := AsyncLogging.kept_init
  written := rfl
  filed _ h := by cases h
  small _ h := by cases h
  started := iff_of_true rfl rfl
  synced _ := rfl

/-- A step that writes nothing. -/
theorem Logged.of_async {async : AsyncLogging} {l : LogStep} (h : P.Logged rs)
    (hasync : P.async.exec l = some async) (hkept : async.Kept (rs ++ AsyncLogging.records [l]))
    (hl : l ≠ .write) (hstarted : async.writer = .notStarted ↔ P.async.writer = .notStarted)
    {synced : ℕ} (hsynced : async.writer ≠ .writing → synced = P.entries.length) :
    Logged (rs ++ AsyncLogging.records [l]) ⟨async, P.output, synced⟩ where
  kept := hkept
  written := (written_exec hasync hl).trans h.written
  filed := h.filed
  small := h.small
  started := h.started.trans hstarted.symm
  synced := hsynced

/-- A buffer goes to the file. -/
theorem Logged.write (h : P.Logged rs) (hl : P.EnabledIf (NameAdvances localtime clock) .write) :
    ∃ P', P.exec localtime clock basename .write = some P' ∧
      P'.Logged (rs ++ AsyncLogging.records [.write]) := by
  obtain ⟨⟨hw, hpos⟩, hname⟩ := hl
  obtain ⟨async, hasync, hkept⟩ := h.kept.exec (l := .write) ⟨hw, hpos⟩
  obtain ⟨output, houtput⟩ := Option.ne_none_iff_exists'.mp fun hnone => by
    have hnot := h.started.mp hnone
    rw [hw] at hnot
    cases hnot
  obtain ⟨hopen, hfiled⟩ := h.filed output houtput
  obtain ⟨ptr, hptr⟩ : ∃ ptr, P.async.buffersToWrite[P.async.position]? = some ptr :=
    ⟨_, List.getElem?_eq_getElem hpos⟩
  cases ptr with
  | none => simp [AsyncLogging.exec, AsyncLogging.write, hptr] at hasync
  | some buffer =>
    have hasync' := hasync
    simp only [AsyncLogging.exec, AsyncLogging.write, hptr, Option.bind_eq_bind,
      Option.bind_some, Option.some_inj] at hasync'
    have hentries : P.entries = output.entries := by simp [entries, houtput]
    obtain ⟨file, now, happend⟩ :=
      @entries_append localtime clock output hopen buffer.data
    refine ⟨{ P with async := async }.append localtime clock output buffer, ?_, ?_⟩
    · simp [exec, hasync, houtput, hptr]
    · refine ⟨hkept, ?_, fun output' houtput' => ?_, fun entry hentry => ?_, ?_, fun hne => ?_⟩
      · show async.written = (output.append localtime clock buffer.data).entries.map Entry.record
        rw [happend, List.map_append, ← hentries, ← h.written, ← hasync']
        rfl
      · obtain rfl := Option.some.inj houtput'
        exact ⟨isOpen_append hopen buffer.data,
          hfiled.append (hname rfl output houtput) buffer.data⟩
      · have hmem : entry ∈ (output.append localtime clock buffer.data).entries := hentry
        rw [happend, ← hentries, List.mem_append, List.mem_singleton] at hmem
        obtain hmem | rfl := hmem
        · exact h.small entry hmem
        · exact buffer.length_le
      · refine iff_of_false (Option.some_ne_none _) ?_
        show async.writer ≠ .notStarted
        rw [← hasync', show _ = WriterPhase.writing from hw]
        simp
      · refine absurd ?_ hne
        show async.writer = .writing
        rw [← hasync']
        exact hw

/-- The writer thread starts with a file of its own. -/
theorem Logged.startThread (h : P.Logged rs) (hl : P.async.control = .starting) :
    ∃ P', P.exec localtime clock basename .startThread = some P' ∧
      P'.Logged (rs ++ AsyncLogging.records [.startThread]) := by
  obtain ⟨async, hasync, hkept⟩ := h.kept.exec (l := .startThread) hl
  have houtput : P.output = none := h.started.mpr (h.kept.waits (.inr hl))
  have hwritten : async.written = [] := by
    rw [written_exec hasync (by simp), h.written, entries, houtput]
    rfl
  obtain rfl := Option.some.inj hasync
  refine ⟨⟨P.async.startThread, some (.new localtime clock basename kRollSize), 0⟩, rfl, hkept,
    hwritten, fun output houtput => ?_, fun entry hentry => ?_, ?_, fun _ => rfl⟩
  · obtain rfl := Option.some.inj houtput
    exact ⟨Option.some_ne_none _, .new ..⟩
  · cases hentry
  · exact iff_of_false (Option.some_ne_none _) (by simp [AsyncLogging.startThread])

/-- Every step of a thread goes through and keeps the invariant. -/
theorem Logged.exec (h : P.Logged rs) {l : LogStep}
    (hl : P.EnabledIf (NameAdvances localtime clock) l) :
    ∃ P', P.exec localtime clock basename l = some P' ∧
      P'.Logged (rs ++ AsyncLogging.records [l]) := by
  obtain ⟨async, hasync, hkept⟩ := h.kept.exec hl.1
  -- the steps that leave the writer where it is
  have hstay : l ≠ .write → async.writer = P.async.writer →
      Logged (rs ++ AsyncLogging.records [l]) ⟨async, P.output, P.synced⟩ :=
    fun hne hwriter => h.of_async hasync hkept hne (by rw [hwriter])
      fun hnot => h.synced (hwriter ▸ hnot)
  cases l with
  | write => exact h.write hl
  | startThread => exact h.startThread hl.1
  | setRunning =>
    obtain rfl := Option.some.inj hasync
    exact ⟨_, rfl, hstay (by simp) rfl⟩
  | stop =>
    obtain rfl := Option.some.inj hasync
    exact ⟨_, rfl, hstay (by simp) rfl⟩
  | join =>
    obtain rfl := Option.some.inj hasync
    exact ⟨_, rfl, hstay (by simp) rfl⟩
  | append logline =>
    have hexec : P.exec localtime clock basename (.append logline) =
        some ⟨async, P.output, P.synced⟩ := by simp [LogPipeline.exec, hasync]
    refine ⟨_, hexec, hstay (by simp) ?_⟩
    have happend : P.async.append logline = some async := hasync
    cases hc : P.async.currentBuffer with
    | none => simp [AsyncLogging.append, hc] at happend
    | some current =>
      simp only [AsyncLogging.append, hc, Option.bind_eq_bind, Option.bind_some] at happend
      split at happend <;> cases happend <;> rfl
  | testRunning =>
    have hw : P.async.writer = .testing := hl.1
    have htest : P.async.testRunning = some async := hasync
    have hwriter : async.writer = .locking ∨ async.writer = .finished := by
      unfold AsyncLogging.testRunning at htest
      split at htest
      · split at htest
        · cases htest
          exact .inl rfl
        · cases htest
      · cases htest
        exact .inr rfl
    have hstarted : async.writer = .notStarted ↔ P.async.writer = .notStarted := by
      obtain hwriter | hwriter := hwriter <;> simp [hwriter, hw]
    have hsynced := h.synced (by simp [hw])
    by_cases hfinished : async.writer = .finished
    · refine ⟨{ P with async := async }.flush, ?_, ?_⟩
      · simp [LogPipeline.exec, hasync, hfinished]
      · exact h.of_async hasync hkept (by simp) hstarted fun _ => rfl
    · refine ⟨{ P with async := async }, ?_, ?_⟩
      · simp [LogPipeline.exec, hasync, hfinished]
      · exact h.of_async hasync hkept (by simp) hstarted fun _ => hsynced
  | lock =>
    have hw : P.async.writer = .locking := hl.1
    obtain rfl := Option.some.inj hasync
    refine ⟨_, rfl, h.of_async hasync hkept (by simp) ?_ fun _ => h.synced (by simp [hw])⟩
    unfold AsyncLogging.lock
    split <;> simp [AsyncLogging.swapBuffers, hw]
  | wake =>
    have hw : P.async.writer = .waiting := hl.1
    obtain rfl := Option.some.inj hasync
    exact ⟨_, rfl, h.of_async hasync hkept (by simp) (by simp [AsyncLogging.swapBuffers, hw])
      fun _ => h.synced (by simp [hw])⟩
  | recycle =>
    obtain ⟨hw, -⟩ := hl.1
    have hrecycle := AsyncLogging.recycle_eq h.kept.locals hw
    have hasync' : P.async.recycle = some async := hasync
    obtain rfl := Option.some.inj (hrecycle.symm.trans hasync')
    refine ⟨{ P with async := _ }.flush, ?_, h.of_async hasync hkept (by simp) (by simp [hw])
      fun _ => rfl⟩
    simp [LogPipeline.exec, hasync]

/-- What a step does to `output`. -/
theorem output_exec {P' : LogPipeline} {l : LogStep}
    (h : P.exec localtime clock basename l = some P') :
    P'.output = P.output ∨ P'.output = some (.new localtime clock basename kRollSize) ∨
      l = .write ∧ ∃ (output : LogState) (buffer : FixedBuffer kLargeBuffer),
        P.output = some output ∧ P'.output = some (output.append localtime clock buffer.data) := by
  obtain ⟨async, -, h⟩ := Option.bind_eq_some_iff.mp h
  cases l with
  | startThread =>
    cases h
    exact .inr (.inl rfl)
  | write =>
    obtain ⟨output, houtput, h⟩ := Option.bind_eq_some_iff.mp h
    obtain ⟨ptr, -, h⟩ := Option.bind_eq_some_iff.mp h
    obtain ⟨buffer, -, h⟩ := Option.bind_eq_some_iff.mp h
    cases h
    exact .inr (.inr ⟨rfl, output, buffer, houtput, rfl⟩)
  | testRunning =>
    dsimp only at h
    split at h <;> cases h <;> exact .inl rfl
  | _ =>
    cases h
    exact .inl rfl

/-- The files are as they are to be. -/
def Tidied (localtime : ℤ → Tm) (P : LogPipeline) : Prop :=
  ∀ output, P.output = some output → LogState.Tidy localtime kRollSize output

theorem Tidied.exec {P' : LogPipeline} {l : LogStep} (h : P.Tidied localtime)
    (hl : P.Enabled localtime clock l) (hexec : P.exec localtime clock basename l = some P') :
    P'.Tidied localtime := by
  intro output' houtput'
  obtain hsame | hnew | ⟨rfl, output, buffer, houtput, happend⟩ := output_exec hexec
  · exact h output' (hsame.symm.trans houtput')
  · obtain rfl := Option.some.inj (hnew.symm.trans houtput')
    exact LogState.tidy_new ..
  · obtain rfl := Option.some.inj (happend.symm.trans houtput')
    have htidy := h output houtput
    exact htidy.append ((hl.2 rfl output houtput).orderly htidy buffer.length_le)

/-! ## Runs -/

theorem logged_of_run {timely : LogState → Prop} {ls : List LogStep}
    (htimely : ∀ output, timely output → NameAdvances localtime clock output)
    (h : Run (StepIf localtime clock basename timely) {} ls P) :
    P.Logged (AsyncLogging.records ls) := by
  apply h.history (P := fun ls P => P.Logged (AsyncLogging.records ls)) logged_init
  rintro ls l P Q - hP ⟨⟨hl, hwrite⟩, hQ⟩
  obtain ⟨Q', hQ', hlogged⟩ := @Logged.exec _ _ basename _ _ hP _
    ⟨hl, fun heq output houtput => htimely output (hwrite heq output houtput)⟩
  obtain rfl : Q' = Q := by simpa [hQ'] using hQ
  rw [AsyncLogging.records_append]
  exact hlogged

theorem tidied_of_run {ls : List LogStep} (h : Run (Step localtime clock basename) {} ls P) :
    P.Tidied localtime := by
  apply h.invariant (P := fun P => P.Tidied localtime)
  · intro output houtput
    cases houtput
  · rintro P l Q hP ⟨hl, hQ⟩
    exact hP.exec hl hQ

/-- The records are packed into the files and the buffers behind them. -/
theorem Logged.packs {rs : List (List UInt8)} (h : P.Logged rs) :
    Packs rs (P.files ++ P.async.held.map BufferPtr.contents) := by
  have hpacked := h.kept.packed
  rw [h.written] at hpacked
  cases houtput : P.output with
  | none => simpa [files, entries, houtput, fileNames] using hpacked
  | some output =>
    have hentries : P.entries = output.entries := by simp [entries, houtput]
    rw [hentries, ← (h.filed output houtput).2.grouped] at hpacked
    have hregroup := hpacked.regroup
    rwa [List.map_map, ← hentries] at hregroup

/-- **Log records, whole and in order.** The files, in the order in which they were begun, and then
    the buffers still to be written, hold all records in the order of their appends, none of them
    over two files. A file is no longer than the roll size and one buffer, and of one day. Between
    the rounds of the writer, and when it has finished, the kernel has all that was written. -/
theorem logged_whole {ls : List LogStep} (h : Run (Step localtime clock basename) {} ls P) :
    Packs (AsyncLogging.records ls) (P.files ++ P.async.held.map BufferPtr.contents) ∧
    (∀ file ∈ P.files, file.length ≤ kRollSize + kLargeBuffer) ∧
    (∀ entry ∈ P.entries, ∀ other ∈ P.entries, entry.file = other.file →
      (localtime entry.time).day = (localtime other.time).day) ∧
    (P.async.writer ≠ .writing → P.synced = P.entries.length) ∧
    ∀ l, P.Enabled localtime clock l → (P.exec localtime clock basename l).isSome := by
  have hlogged := logged_of_run (fun _ => Punctual.nameAdvances) h
  have hrolled : Rolled localtime kRollSize P.entries := by
    cases houtput : P.output with
    | none => simp [entries, houtput, Rolled, recordsOf]
    | some output =>
      have hentries : P.entries = output.entries := by simp [entries, houtput]
      rw [hentries]
      exact (tidied_of_run h output houtput).rolled
  refine ⟨hlogged.packs, fun file hfile => ?_, hrolled.2, hlogged.synced, fun l hl => ?_⟩
  · obtain ⟨name, hname, rfl⟩ := List.mem_map.mp hfile
    obtain ⟨entry, hentry, rfl⟩ := mem_fileNames.mp hname
    have hmem : entry.record ∈ recordsOf entry.file P.entries :=
      List.mem_map.mpr ⟨entry, List.mem_filter.mpr ⟨hentry, by simp⟩, rfl⟩
    obtain ⟨record, hrecord, hle⟩ := hrolled.1 entry.file (List.ne_nil_of_mem hmem)
    obtain ⟨last, hlast, rfl⟩ := List.mem_map.mp hrecord
    exact hle.trans (Nat.add_le_add_left (hlogged.small last (List.mem_of_mem_filter hlast)) _)
  · obtain ⟨P', hP', -⟩ := @Logged.exec _ _ basename _ _ hlogged _
      ⟨hl.1, fun heq output houtput => (hl.2 heq output houtput).nameAdvances⟩
    rw [hP']
    rfl

/-- A clock that skips a day. -/
def nextDay (n : ℕ) : ℤ := if n < 3 then n else 86400 + n

/-- A day passes between two rounds of the writer. -/
theorem logged_whole_two_days :
    ∃ P : LogPipeline, P.files = [[1, 2], [3]] ∧ P.synced = 1 ∧
      Packs [[1, 2], [3]] (P.files ++ P.async.held.map BufferPtr.contents) ∧
      ∀ file ∈ P.files, file.length ≤ kRollSize + kLargeBuffer := by
  have hrun : Run (Step gmtime nextDay (text "log")) {} [.setRunning, .startThread, .append [1, 2],
      .testRunning, .lock, .wake, .write, .recycle, .append [3], .testRunning, .lock, .wake,
      .write] _ :=
    .cons ⟨⟨rfl, by simp⟩, rfl⟩ <| .cons ⟨⟨rfl, by simp⟩, rfl⟩ <|
    .cons ⟨⟨by decide, by simp⟩, rfl⟩ <| .cons ⟨⟨rfl, by simp⟩, rfl⟩ <|
    .cons ⟨⟨rfl, by simp⟩, rfl⟩ <| .cons ⟨⟨rfl, by simp⟩, rfl⟩ <|
    .cons ⟨⟨⟨rfl, by decide⟩, fun _ _ h => by cases h; decide⟩, rfl⟩ <|
    .cons ⟨⟨⟨rfl, by decide⟩, by simp⟩, rfl⟩ <| .cons ⟨⟨by decide, by simp⟩, rfl⟩ <|
    .cons ⟨⟨rfl, by simp⟩, rfl⟩ <| .cons ⟨⟨rfl, by simp⟩, rfl⟩ <|
    .cons ⟨⟨rfl, by simp⟩, rfl⟩ <|
    .cons ⟨⟨⟨rfl, by decide⟩, fun _ _ h => by cases h; decide⟩, rfl⟩ .nil
  obtain ⟨hpacks, hbound, -⟩ := logged_whole hrun
  exact ⟨_, by decide +kernel, by decide +kernel, hpacks, hbound⟩

end LogPipeline

/-! ## Lines -/

/-- One use of a `LOG_` macro: a `Logger`, what is inserted into it, and its destructor. -/
structure LogStatement where
  /-- What `strftime` writes. -/
  buf : Bytes
  file : Option Bytes
  line : ℤ
  level : LogLevel
  insertions : List Insertion

namespace LogStatement

/-- What `asyncOutput` passes to `append`. -/
def record (statement : LogStatement) : Bytes :=
  Logger.record statement.buf statement.file statement.line statement.level statement.insertions

/-- The time stamp, the level, the message and the place. -/
def message (statement : LogStatement) : Bytes :=
  (Logger.pieces statement.buf statement.file statement.line statement.level
    statement.insertions).flatten

/-- The message is one line, and leaves room for the newline behind it. -/
def OneLine (statement : LogStatement) : Prop :=
  Logger.newline ∉ statement.message ∧ statement.message.length + 1 < kSmallBuffer

instance (statement : LogStatement) : Decidable statement.OneLine :=
  inferInstanceAs (Decidable (_ ∧ _))

theorem OneLine.record_eq {statement : LogStatement} (h : statement.OneLine) :
    statement.record = statement.message ++ [Logger.newline] :=
  Logger.record_of_fits h.2

end LogStatement

namespace LogPipeline

section ReadBack

variable {localtime : ℤ → Tm} {clock : ℕ → ℤ} {basename : Bytes} {P : LogPipeline}

/-- **The log reads back.** When the messages are single lines that fit into their buffers, and no
    roll goes back to the name of a file behind which another one was begun, then at any time the
    lines of the files, file after file, and those of the buffers still to be written are the
    messages, in the order of their appends. Nothing else is in a file, and no file ends within a
    line. -/
theorem read_back {ls : List LogStep}
    (h : Run (StepIf localtime clock basename (NameAdvances localtime clock)) {} ls P)
    {statements : List LogStatement}
    (hrecords : AsyncLogging.records ls = statements.map LogStatement.record)
    (hline : ∀ statement ∈ statements, statement.OneLine) :
    P.files.flatMap (linesOf Logger.newline) ++
        P.async.held.flatMap (fun buffer => linesOf Logger.newline buffer.contents) =
      statements.map LogStatement.message ∧
    ∀ file ∈ P.files, ((linesOf Logger.newline file).map (· ++ [Logger.newline])).flatten = file := by
  have hrecord : ∀ statement ∈ statements,
      statement.record = statement.message ++ [Logger.newline] :=
    fun statement hmem => (hline statement hmem).record_eq
  have hpacks : Packs ((statements.map LogStatement.message).map (· ++ [Logger.newline]))
      (P.files ++ P.async.held.map BufferPtr.contents) := by
    have hpacked := (logged_of_run (fun _ hname => hname) h).packs
    rw [hrecords, List.map_congr_left hrecord] at hpacked
    rwa [List.map_map]
  have hlines : ∀ line ∈ statements.map LogStatement.message, Logger.newline ∉ line := by
    intro line hmem
    obtain ⟨statement, hstatement, rfl⟩ := List.mem_map.mp hmem
    exact (hline statement hstatement).1
  obtain ⟨hall, heach⟩ := hpacks.lines hlines
  rw [List.flatMap_append, List.flatMap_map] at hall
  exact ⟨hall, fun file hfile => heach file (List.mem_append_left _ hfile)⟩

/-- A line that the server logs when it boots. -/
def bootStatement : LogStatement where
  buf := text "2026-01-01 00:00:00"
  file := some (text "main.cpp")
  line := 274
  level := .info
  insertions := [.cString (some (text "  Pid = ")), .integer 42]

/-- Three such lines: the second is in a file of the next day, and the third still in a buffer. -/
theorem read_back_boot :
    ∃ P : LogPipeline, P.files.length = 2 ∧
      P.files.flatMap (linesOf Logger.newline) ++
          P.async.held.flatMap (fun buffer => linesOf Logger.newline buffer.contents) =
        List.replicate 3 (text "[2026-01-01 00:00:00] [INFO]   Pid = 42 - main.cpp:274") := by
  have hrun : Run (StepIf gmtime nextDay (text "log") (NameAdvances gmtime nextDay)) {}
      [.setRunning, .startThread, .append bootStatement.record, .testRunning, .lock, .wake, .write,
        .recycle, .append bootStatement.record, .testRunning, .lock, .wake, .write, .recycle,
        .append bootStatement.record] _ :=
    .cons ⟨⟨rfl, by simp⟩, rfl⟩ <| .cons ⟨⟨rfl, by simp⟩, rfl⟩ <|
    .cons ⟨⟨by decide +kernel, by simp⟩, rfl⟩ <| .cons ⟨⟨rfl, by simp⟩, rfl⟩ <|
    .cons ⟨⟨rfl, by simp⟩, rfl⟩ <| .cons ⟨⟨rfl, by simp⟩, rfl⟩ <|
    .cons ⟨⟨⟨rfl, by decide⟩, fun _ _ h => by cases h; decide⟩, rfl⟩ <|
    .cons ⟨⟨⟨rfl, by decide⟩, by simp⟩, rfl⟩ <|
    .cons ⟨⟨by decide +kernel, by simp⟩, rfl⟩ <| .cons ⟨⟨rfl, by simp⟩, rfl⟩ <|
    .cons ⟨⟨rfl, by simp⟩, rfl⟩ <| .cons ⟨⟨rfl, by simp⟩, rfl⟩ <|
    .cons ⟨⟨⟨rfl, by decide⟩, fun _ _ h => by cases h; decide +kernel⟩, rfl⟩ <|
    .cons ⟨⟨⟨rfl, by decide⟩, by simp⟩, rfl⟩ <|
    .cons ⟨⟨by decide +kernel, by simp⟩, rfl⟩ .nil
  have hrecords : AsyncLogging.records [.setRunning, .startThread, .append bootStatement.record,
      .testRunning, .lock, .wake, .write, .recycle, .append bootStatement.record, .testRunning,
      .lock, .wake, .write, .recycle, .append bootStatement.record] =
        [bootStatement, bootStatement, bootStatement].map LogStatement.record := rfl
  have hread := (read_back hrun hrecords (by decide +kernel)).1
  have hmessages : [bootStatement, bootStatement, bootStatement].map LogStatement.message =
      List.replicate 3 (text "[2026-01-01 00:00:00] [INFO]   Pid = 42 - main.cpp:274") := by
    decide +kernel
  exact ⟨_, by decide +kernel, hread.trans hmessages⟩

end ReadBack

end LogPipeline

end AegisNet
