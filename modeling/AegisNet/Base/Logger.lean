import AegisNet.Base.LogStream
import AegisNet.Lib.Filling

/-!
# Log records

The logger of `src/base/Logger.{h,cpp}`: the constructor inserts a time stamp and a level, the caller
inserts what it likes, and the destructor inserts the place in the source and a newline and hands
the buffer on. As every insertion is taken whole or dropped, the newline is dropped exactly where the
pieces in front of it have left a single byte.

## Main definitions

- `Logger.new`, `Logger.write`, `Logger.finish` — the life of a logger
- `Logger.record` — the bytes handed to `g_output`
- `Logger.pieces` — the texts in front of the newline, in their order

## Main results

- `Logger.record_endsLine_iff` — when a record ends its line
-/

namespace AegisNet

inductive LogLevel
  | info
  | error
  | fatal
  | debug
  deriving DecidableEq, Repr

structure Logger where
  stream : LogStream := {}
  file : Option Bytes
  line : ℤ
  level : LogLevel
  deriving DecidableEq

namespace Logger

def newline : UInt8 := 0x0A

/-- A literal of the source. -/
def literal (s : String) : Insertion := .cString (some (text s))

/-- The text that the constructor puts in for a level. -/
def levelTag : LogLevel → String
  | .info => "[INFO] "
  | .error => "[ERROR] "
  | .fatal => "[FATAL] "
  | .debug => "[DEBUG] "

/-- The constructor; `buf` is what `strftime` wrote. -/
def new (buf : Bytes) (file : Option Bytes) (line : ℤ) (level : LogLevel) : Logger where
  stream :=
    (((({} : LogStream).insert (literal "[")).insert (.cString (some buf))).insert
      (literal "] ")).insert (literal (levelTag level))
  file := file
  line := line
  level := level

/-- The insertions of the caller into `stream()`. -/
def write (l : Logger) (insertions : List Insertion) : Logger :=
  { l with stream := insertions.foldl LogStream.insert l.stream }

/-- What the destructor hands to `g_output`. -/
def finish (l : Logger) : Bytes :=
  (((((l.stream.insert (literal " - ")).insert (.cString l.file)).insert (literal ":")).insert
    (.integer l.line)).insert (.char newline)).buffer.data

/-- The bytes of one log statement. -/
def record (buf : Bytes) (file : Option Bytes) (line : ℤ) (level : LogLevel)
    (insertions : List Insertion) : Bytes :=
  ((new buf file line level).write insertions).finish

/-- The texts in front of the newline. -/
def pieces (buf : Bytes) (file : Option Bytes) (line : ℤ) (level : LogLevel)
    (insertions : List Insertion) : List Bytes :=
  ([literal "[", .cString (some buf), literal "] ", literal (levelTag level)] ++ insertions ++
    [literal " - ", .cString file, literal ":", .integer line]).map Insertion.bytes

/-- An insertion puts its text into the space of the buffer. -/
theorem data_insert (s : LogStream) (v : Insertion) :
    (s.insert v).buffer.data = Filling.put kSmallBuffer s.buffer.data v.bytes := by
  have hle := s.buffer.length_le
  unfold LogStream.insert FixedBuffer.append Filling.put FixedBuffer.avail
  by_cases h : v.bytes.length < kSmallBuffer - s.buffer.data.length
  · rw [dif_pos h, if_pos (by omega)]
  · rw [dif_neg h, if_neg (by omega)]

theorem data_foldl_insert (s : LogStream) (insertions : List Insertion) :
    (insertions.foldl LogStream.insert s).buffer.data =
      (insertions.map Insertion.bytes).foldl (Filling.put kSmallBuffer) s.buffer.data := by
  induction insertions generalizing s with
  | nil => rfl
  | cons v insertions ih => rw [List.foldl_cons, ih, data_insert, List.map_cons, List.foldl_cons]

/-- A record is what fits of its pieces and the newline. -/
theorem record_eq_fill (buf : Bytes) (file : Option Bytes) (line : ℤ) (level : LogLevel)
    (insertions : List Insertion) :
    record buf file line level insertions =
      Filling.fill kSmallBuffer (pieces buf file line level insertions ++ [[newline]]) := by
  have hall : record buf file line level insertions =
      (([literal "[", .cString (some buf), literal "] ", literal (levelTag level)] ++ insertions ++
        [literal " - ", .cString file, literal ":", .integer line] ++
          [Insertion.char newline]).foldl LogStream.insert {}).buffer.data := by
    simp only [record, finish, write, new, List.foldl_append, List.foldl_cons, List.foldl_nil]
  rw [hall, data_foldl_insert, List.map_append]
  simp only [Filling.fill, pieces, Insertion.bytes, List.map_cons, List.map_nil]

/-- Where the text of the pieces leaves room for the newline, the record is one line. -/
theorem record_of_fits {buf : Bytes} {file : Option Bytes} {line : ℤ} {level : LogLevel}
    {insertions : List Insertion}
    (h : (pieces buf file line level insertions).flatten.length + 1 < kSmallBuffer) :
    record buf file line level insertions =
      (pieces buf file line level insertions).flatten ++ [newline] := by
  have hflatten : (pieces buf file line level insertions ++ [[newline]]).flatten =
      (pieces buf file line level insertions).flatten ++ [newline] := by
    rw [List.flatten_append, List.flatten_singleton]
  rw [record_eq_fill, Filling.fill_of_lt, hflatten]
  rwa [hflatten, List.length_append, List.length_singleton]

/-- **Records and lines.** A record ends with a newline exactly where every piece that fills the
    buffer up to its last byte ends with one itself: the newline of the destructor no longer fits
    then. -/
theorem record_endsLine_iff (buf : Bytes) (file : Option Bytes) (line : ℤ) (level : LogLevel)
    (insertions : List Insertion) :
    (record buf file line level insertions).getLast? = some newline ↔
      Filling.FullEndsWith kSmallBuffer newline (pieces buf file line level insertions) := by
  rw [record_eq_fill, Filling.getLast?_fill_mark_iff (by decide)]

/-- A message can fill the buffer up to its last byte. -/
theorem long_message_joins : ¬ ∀ (buf : Bytes) (file : Option Bytes) (line : ℤ) (level : LogLevel)
    (insertions : List Insertion),
    (record buf file line level insertions).getLast? = some newline := by
  intro h
  have hrecord := h (text "2026-01-01 00:00:00") (some (text "main.cpp")) 169 .info
    [.string (List.replicate 3970 0x61)]
  rw [record_eq_fill, Filling.getLast?_fill_mark_iff (by decide)] at hrecord
  -- 29 bytes are in front of the message, and leave 3971 with the one that stays free
  have hfront : Filling.used kSmallBuffer [text "[", text "2026-01-01 00:00:00", text "] ",
      text "[INFO] "] = 29 := by decide
  have hne : List.replicate 3970 (0x61 : UInt8) ≠ [] := by
    apply List.ne_nil_of_length_pos
    rw [List.length_replicate]
    decide
  have hlast := hrecord [text "[", text "2026-01-01 00:00:00", text "] ", text "[INFO] "]
    (List.replicate 3970 0x61) _ rfl hne (by rw [hfront, List.length_replicate]; rfl)
  rw [List.getLast?_replicate] at hlast
  revert hlast
  decide

end Logger

end AegisNet
