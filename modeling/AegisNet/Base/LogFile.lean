import AegisNet.Base.LogStream
import AegisNet.Lib.Run

/-!
# Rolling log files

`src/base/LogFile.{h,cpp}`, with the clock and the disk. Every call of `time` gives the next reading
of a clock, `localtime_r` is a function of the reading, and a file is known by its name, so that
opening a name that exists appends to its file. Opening and writing succeed.

An append that finds a new day of the month or too many bytes opens a file under the name of the
present second. The number of bytes starts again at zero then, and the day that is remembered comes
from a later reading than the name and the test.

## Main definitions

- `LogFile` — the members of the class
- `LogState.rollFile`, `LogState.append` — the operations
- `Rolled` — what the files are to be like
- `LogState.Orderly` — the appends that keep it so

## Main results

- `LogState.rolled_of_orderly` — the files of a run of orderly appends
-/

namespace AegisNet

/-! ## Time -/

/-- `struct tm`, with the year and the month as they are printed. -/
structure Tm where
  year : ℤ
  mon : ℕ
  mday : ℕ
  hour : ℕ
  min : ℕ
  sec : ℕ
  deriving DecidableEq

namespace Tm

/-- The calendar day. -/
def day (tm : Tm) : ℤ × ℕ × ℕ := (tm.year, tm.mon, tm.mday)

/-- `%m` and the like -/
def twoDigits (n : ℕ) : Bytes := if n < 10 then text "0" ++ toDecimal n else toDecimal n

/-- `strftime` with the format `.%Y%m%d-%H%M%S.` -/
def strftime (tm : Tm) : Bytes :=
  text "." ++ formatInteger tm.year ++ twoDigits tm.mon ++ twoDigits tm.mday ++ text "-" ++
    twoDigits tm.hour ++ twoDigits tm.min ++ twoDigits tm.sec ++ text "."

end Tm

/-- `gmtime`, which is `localtime_r` in the zone UTC: the Gregorian calendar, counted in years that
    start in March and in eras of 400 years. -/
def gmtime (t : ℤ) : Tm :=
  let shifted := t / 86400 + 719468
  let era := shifted / 146097
  let dayOfEra := (shifted % 146097).toNat
  let yearOfEra := (dayOfEra - dayOfEra / 1460 + dayOfEra / 36524 - dayOfEra / 146096) / 365
  let dayOfYear := dayOfEra - (365 * yearOfEra + yearOfEra / 4 - yearOfEra / 100)
  let month := (5 * dayOfYear + 2) / 153
  let mon := if month < 10 then month + 3 else month - 9
  { year := yearOfEra + era * 400 + if mon ≤ 2 then 1 else 0
    mon := mon
    mday := dayOfYear - (153 * month + 2) / 5 + 1
    hour := (t / 3600 % 24).toNat
    min := (t / 60 % 60).toNat
    sec := (t % 60).toNat }

/-- The end of February 2024, a leap year, and the start of 1970. -/
example : (gmtime 1709251199).day = (2024, 2, 29) ∧ gmtime 0 = ⟨1970, 1, 1, 0, 0, 0⟩ := by decide

/-! ## The class -/

/-- The members of the C++ class. A file is its name. -/
structure LogFile where
  basename : Bytes
  rollSize : ℕ
  writtenBytes : ℕ := 0
  fp : Option Bytes := none
  lastDay : ℕ := 0
  deriving DecidableEq

/-- A record on the disk, with the file it is in and the reading at the start of its append. -/
structure Entry where
  file : Bytes
  record : Bytes
  time : ℤ
  deriving DecidableEq

/-- A log file, the clock and the disk. -/
structure LogState where
  log : LogFile
  /-- how often `time` was called -/
  reads : ℕ := 0
  /-- everything that was written, oldest first -/
  entries : List Entry := []
  /-- the reading that `lastDay_` was taken from -/
  rolledAt : ℤ := 0
  deriving DecidableEq

namespace LogState

variable (localtime : ℤ → Tm) (clock : ℕ → ℤ)

/-- The name for a reading. -/
def getLogFileName (basename : Bytes) (now : ℤ) : Bytes :=
  basename ++ (localtime now).strftime ++ text "log"

/-- The name is taken from one reading, and the day from the next. -/
def rollFile (s : LogState) : LogState :=
  { s with
    log := { s.log with
      fp := some (getLogFileName localtime s.log.basename (clock s.reads))
      writtenBytes := 0
      lastDay := (localtime (clock (s.reads + 1))).mday }
    reads := s.reads + 2
    rolledAt := clock (s.reads + 1) }

/-- The constructor, with no file on the disk. -/
def new (basename : Bytes) (rollSize : ℕ) : LogState :=
  rollFile localtime clock { log := { basename := basename, rollSize := rollSize } }

/-- The tests of `append` for a new file. -/
def Rolls (s : LogState) : Prop :=
  (localtime (clock s.reads)).mday ≠ s.log.lastDay ∨ s.log.rollSize < s.log.writtenBytes

instance (s : LogState) : Decidable (Rolls localtime clock s) := inferInstanceAs (Decidable (_ ∨ _))

/-- `fwrite`, and the count of its bytes in a `size_t`. -/
def write (s : LogState) (logline : Bytes) (now : ℤ) : LogState :=
  match s.log.fp with
  | none => s
  | some file =>
    { s with
      log := { s.log with writtenBytes := (s.log.writtenBytes + logline.length) % 2 ^ 64 }
      entries := s.entries ++ [⟨file, logline, now⟩] }

/-- The call of `time` in `append`. -/
def tick (s : LogState) : LogState := { s with reads := s.reads + 1 }

def append (s : LogState) (logline : Bytes) : LogState :=
  match s.log.fp with
  | none => s
  | some _ =>
    if Rolls localtime clock s then (rollFile localtime clock s.tick).write logline (clock s.reads)
    else s.tick.write logline (clock s.reads)

end LogState

/-! ## What the files are to be like -/

/-- The records in a file. -/
def recordsOf (file : Bytes) (entries : List Entry) : List Bytes :=
  (entries.filter fun entry => entry.file = file).map Entry.record

/-- A file with records holds at most `rollSize` bytes and the length of one of them, and what is in
    one file was appended on one calendar day. -/
def Rolled (localtime : ℤ → Tm) (rollSize : ℕ) (entries : List Entry) : Prop :=
  (∀ file, recordsOf file entries ≠ [] →
    ∃ record ∈ recordsOf file entries,
      (recordsOf file entries).flatten.length ≤ rollSize + record.length) ∧
  ∀ entry ∈ entries, ∀ other ∈ entries, entry.file = other.file →
    (localtime entry.time).day = (localtime other.time).day

theorem recordsOf_concat (file : Bytes) (entries : List Entry) (entry : Entry) :
    recordsOf file (entries ++ [entry]) =
      if entry.file = file then recordsOf file entries ++ [entry.record]
      else recordsOf file entries := by
  unfold recordsOf
  rw [List.filter_append, List.map_append]
  by_cases h : entry.file = file
  · simp [h]
  · simp [h]

/-- A record in a file that is not too large, on the day of what is in it. -/
theorem Rolled.concat {localtime : ℤ → Tm} {rollSize : ℕ} {entries : List Entry}
    (h : Rolled localtime rollSize entries) {new : Entry}
    (hsize : (recordsOf new.file entries).flatten.length ≤ rollSize)
    (hday : ∀ entry ∈ entries, entry.file = new.file →
      (localtime entry.time).day = (localtime new.time).day) :
    Rolled localtime rollSize (entries ++ [new]) := by
  constructor
  · intro file hne
    rw [recordsOf_concat] at hne ⊢
    split
    · next hfile =>
      refine ⟨new.record, List.mem_append_right _ (List.mem_singleton_self _), ?_⟩
      rw [← hfile, List.flatten_concat, List.length_append]
      omega
    · next hfile =>
      rw [if_neg hfile] at hne
      exact h.1 file hne
  · intro entry hentry other hother heq
    rw [List.mem_append, List.mem_singleton] at hentry hother
    obtain hentry | rfl := hentry
    · obtain hother | rfl := hother
      · exact h.2 entry hentry other hother heq
      · exact hday entry hentry heq
    · obtain hother | rfl := hother
      · exact (hday other hother heq.symm).symm
      · rfl

theorem recordsOf_eq_nil {file : Bytes} {entries : List Entry}
    (h : ∀ entry ∈ entries, entry.file ≠ file) : recordsOf file entries = [] := by
  rw [recordsOf, List.map_eq_nil_iff, List.filter_eq_nil_iff]
  intro entry hentry heq
  exact h entry hentry (of_decide_eq_true heq)

namespace LogState

variable (localtime : ℤ → Tm) (clock : ℕ → ℤ)

/-- A new file without harm: nothing was written under its name, and the reading that its day is
    taken from is on the day of the append. -/
def NewFileOrderly (s : LogState) (logline : Bytes) : Prop :=
  (∀ entry ∈ s.entries,
    entry.file ≠ getLogFileName localtime s.log.basename (clock (s.reads + 1))) ∧
  (localtime (clock (s.reads + 2))).day = (localtime (clock s.reads)).day ∧
  logline.length < 2 ^ 64

/-- The old file without harm: the day of the month that is found again is of the same day, and the
    count of the bytes does not wrap around. -/
def OldFileOrderly (s : LogState) (logline : Bytes) : Prop :=
  (localtime (clock s.reads)).day = (localtime s.rolledAt).day ∧
  s.log.writtenBytes + logline.length < 2 ^ 64

def Orderly (s : LogState) (logline : Bytes) : Prop :=
  if Rolls localtime clock s then NewFileOrderly localtime clock s logline
  else OldFileOrderly localtime clock s logline

instance (s : LogState) (logline : Bytes) : Decidable (NewFileOrderly localtime clock s logline) :=
  inferInstanceAs (Decidable (_ ∧ _))

instance (s : LogState) (logline : Bytes) : Decidable (OldFileOrderly localtime clock s logline) :=
  inferInstanceAs (Decidable (_ ∧ _))

instance (s : LogState) (logline : Bytes) : Decidable (Orderly localtime clock s logline) :=
  inferInstanceAs (Decidable (if Rolls localtime clock s then NewFileOrderly localtime clock s logline
    else OldFileOrderly localtime clock s logline))

/-- The files, the count of the bytes in the open one, and the day of its records. -/
structure Tidy (rollSize : ℕ) (s : LogState) : Prop where
  rollSize_eq : s.log.rollSize = rollSize
  isOpen : s.log.fp ≠ none
  counted : ∀ file, s.log.fp = some file →
    (recordsOf file s.entries).flatten.length = s.log.writtenBytes
  dated : ∀ entry ∈ s.entries, s.log.fp = some entry.file →
    (localtime entry.time).day = (localtime s.rolledAt).day
  rolled : Rolled localtime rollSize s.entries

variable {localtime clock} {rollSize : ℕ} {s : LogState}

/-- A new file under a name where nothing was written. -/
theorem Tidy.rollFile (h : Tidy localtime rollSize s)
    (hfresh : ∀ entry ∈ s.entries,
      entry.file ≠ getLogFileName localtime s.log.basename (clock s.reads)) :
    Tidy localtime rollSize (s.rollFile localtime clock) where
  rollSize_eq := h.rollSize_eq
  isOpen := Option.some_ne_none _
  counted := by
    intro file hfile
    cases hfile
    show (recordsOf _ s.entries).flatten.length = 0
    rw [recordsOf_eq_nil hfresh]
    rfl
  dated := by
    intro entry hentry hfile
    exact absurd (Option.some.inj hfile).symm (hfresh entry hentry)
  rolled := h.rolled

theorem Tidy.tick (h : Tidy localtime rollSize s) : Tidy localtime rollSize s.tick where
  rollSize_eq := h.rollSize_eq
  isOpen := h.isOpen
  counted := h.counted
  dated := h.dated
  rolled := h.rolled

theorem write_eq {file : Bytes} (hfile : s.log.fp = some file) {logline : Bytes}
    (hcount : s.log.writtenBytes + logline.length < 2 ^ 64) (now : ℤ) :
    s.write logline now =
      { s with
        log := { s.log with writtenBytes := s.log.writtenBytes + logline.length }
        entries := s.entries ++ [⟨file, logline, now⟩] } := by
  unfold write
  rw [hfile, Nat.mod_eq_of_lt hcount]

/-- A record in the open file, while that is not too large and of the same day. -/
theorem Tidy.write (h : Tidy localtime rollSize s) {logline : Bytes} {now : ℤ}
    (hsize : s.log.writtenBytes ≤ rollSize)
    (hday : (localtime now).day = (localtime s.rolledAt).day)
    (hcount : s.log.writtenBytes + logline.length < 2 ^ 64) :
    Tidy localtime rollSize (s.write logline now) := by
  obtain ⟨file, hfile⟩ := Option.ne_none_iff_exists'.mp h.isOpen
  have hbytes := h.counted file hfile
  rw [write_eq hfile hcount]
  refine ⟨h.rollSize_eq, h.isOpen, ?_, ?_, ?_⟩
  · intro other hother
    cases hfile.symm.trans hother
    show (recordsOf file (s.entries ++ [⟨file, logline, now⟩])).flatten.length = _
    rw [recordsOf_concat, if_pos rfl, List.flatten_concat, List.length_append, hbytes]
  · intro entry hentry hopen
    obtain hentry | hentry := List.mem_append.mp hentry
    · exact h.dated entry hentry hopen
    · rw [List.mem_singleton.mp hentry]
      exact hday
  · apply h.rolled.concat (hbytes ▸ hsize)
    intro entry hentry hentryFile
    rw [hday]
    exact h.dated entry hentry (by rw [hfile, hentryFile])

/-- **One orderly append** keeps the files as they are to be. -/
theorem Tidy.append (h : Tidy localtime rollSize s) {logline : Bytes}
    (hord : Orderly localtime clock s logline) :
    Tidy localtime rollSize (s.append localtime clock logline) := by
  obtain ⟨file, hfile⟩ := Option.ne_none_iff_exists'.mp h.isOpen
  unfold LogState.append Orderly at *
  rw [hfile]
  show Tidy localtime rollSize (if _ then _ else _)
  split at hord
  · next hrolls =>
    rw [if_pos hrolls]
    obtain ⟨hfresh, hsteady, hcount⟩ := hord
    refine (h.tick.rollFile hfresh).write (Nat.zero_le _) hsteady.symm ?_
    show 0 + logline.length < 2 ^ 64
    rw [Nat.zero_add]
    exact hcount
  · next hrolls =>
    rw [if_neg hrolls]
    have hsize : s.log.writtenBytes ≤ rollSize :=
      h.rollSize_eq ▸ Nat.le_of_not_lt fun hlt => hrolls (.inr hlt)
    exact h.tick.write hsize hord.1 hord.2

theorem tidy_new (localtime : ℤ → Tm) (clock : ℕ → ℤ) (basename : Bytes) (rollSize : ℕ) :
    Tidy localtime rollSize (new localtime clock basename rollSize) where
  rollSize_eq := rfl
  isOpen := Option.some_ne_none _
  counted := fun _ _ => rfl
  dated := fun _ h => absurd h List.not_mem_nil
  rolled := ⟨fun _ h => absurd rfl h, fun _ h => absurd h List.not_mem_nil⟩

/-- **Files roll.** In every state that a run of orderly appends reaches, each file holds at most
    `rollSize` bytes and the length of one record, and the records of one calendar day. -/
theorem rolled_of_orderly (localtime : ℤ → Tm) (clock : ℕ → ℤ) (basename : Bytes) (rollSize : ℕ)
    {loglines : List Bytes} {t : LogState}
    (h : Run (fun s logline u =>
        Orderly localtime clock s logline ∧ u = s.append localtime clock logline)
      (new localtime clock basename rollSize) loglines t) :
    Rolled localtime rollSize t.entries := by
  have htidy : Tidy localtime rollSize t := by
    apply h.invariant (tidy_new localtime clock basename rollSize)
    rintro s logline u hs ⟨hord, rfl⟩
    exact hs.append hord
  exact htidy.rolled

/-- A roll for the size, two records in one file, and a roll for the day. -/
theorem rolled_of_orderly_two_days :
    Rolled gmtime 4 (([text "first", text "two", text "three", text "four", text "five"]).foldl
      (append gmtime fun n => 9000 * n) (new gmtime (fun n => 9000 * n) (text "log") 4)).entries :=
  rolled_of_orderly gmtime (fun n => 9000 * n) (text "log") 4 (Run.of_allowed (by decide))

/-- Two rolls in one second give the same name, so the second file is the first one again. -/
theorem same_second_not_rolled : ¬ ∀ (clock : ℕ → ℤ) (basename : Bytes) (rollSize : ℕ)
    (loglines : List Bytes), (∀ i j, i ≤ j → clock i ≤ clock j) →
    Rolled gmtime rollSize
      (loglines.foldl (append gmtime clock) (new gmtime clock basename rollSize)).entries := by
  intro h
  have hrolled := h (fun _ => 0) (text "log") 10 [text "hello world", text "hello world"]
    fun _ _ _ => le_rfl
  obtain ⟨record, hmem, hle⟩ :=
    hrolled.1 (text "log.19700101-000000.log") (by decide)
  revert record
  decide

end LogState

end AegisNet
