import AegisNet.Tcp.HttpResponse.Framing

/-!
# Reading a response back

A strict reader of responses, and the round trip: where the header names are tokens other than
`Content-Length` and `Connection`, and the values have no CR and no blanks around them, the reader
gets what the setters were called with, and leaves the bytes behind the response.

## Main definitions

- `HttpResponse.readReply` — the reader
- `HttpResponse.Sendable` — the headers that come back as they were set

## Main results

- `HttpResponse.readReply_response` — the round trip
-/

namespace AegisNet

namespace HttpResponse

/-! ## The reader -/

def connection : Bytes := text "connection"

/-- A number in decimal, with at least one digit. -/
def readNumber (digits : Bytes) : Option ℕ :=
  if digits ≠ [] ∧ digits.all isDigit then some (decimal digits) else none

/-- A status line `HTTP/1.1 code reason`. -/
def readStatus (line : Bytes) : Option ℕ := do
  let (version, afterVersion) ← HttpParser.cutAt SP line
  let (code, _) ← HttpParser.cutAt SP afterVersion
  if version = http11 then readNumber code else none

/-- Whether the connection is to be closed. -/
def readConnection (value : Bytes) : Option Bool :=
  if toLowerAscii value = text "close" then some true
  else if toLowerAscii value = text "keep-alive" then some false
  else none

/-- The fields that the reader uses itself. -/
def isReserved (name : Bytes) : Bool :=
  toLowerAscii name = contentLength || toLowerAscii name = connection

/-- What a reader makes of a response. -/
structure Reply where
  status : ℕ
  close : Bool
  headers : List (Bytes × Bytes)
  body : Bytes
  deriving DecidableEq

/-- The reply at the front of some bytes, and the bytes behind it. Every line of the head has to be
    a field, and there has to be one `Connection` and one `Content-Length`. -/
def readReply (bytes : Bytes) : Option (Reply × Bytes) := do
  let (lines, rest) ← Lines.head 0x0D 0x0A bytes
  let statusLine :: fieldLines := lines | none
  let status ← readStatus statusLine
  let fields ← fieldLines.mapM readField
  let [choice] := valuesOf connection fields | none
  let [size] := valuesOf contentLength fields | none
  let close ← readConnection choice
  let length ← readNumber size
  if rest.length < length then none
  else
    some (⟨status, close, fields.filter fun field => !isReserved field.1, rest.take length⟩,
      rest.drop length)

/-- The headers that come back: a token for the name, not one of the fields above, and a value
    without CR and without blanks around it. -/
structure Sendable (name value : Bytes) : Prop where
  name_ne : name ≠ []
  token : ∀ ch ∈ name, isTokenCharacter ch = true
  free : isReserved name = false
  cr_notMem : 0x0D ∉ value
  trimmed : trim value = value

/-! ## Numbers -/

theorem toNat_digit : ∀ digit < 10, (UInt8.ofNat (0x30 + digit)).toNat - 0x30 = digit := by decide

/-- The digits of a number, the last one first, are read to the number. -/
theorem decimal_reverse_map {digits : List ℕ} (h : ∀ digit ∈ digits, digit < 10) :
    decimal (digits.reverse.map fun digit => UInt8.ofNat (0x30 + digit)) =
      Nat.ofDigits 10 digits := by
  unfold decimal
  induction digits with
  | nil => rfl
  | cons digit digits ih =>
    rw [List.forall_mem_cons] at h
    rw [List.reverse_cons, List.map_append, List.foldl_append, ih h.2, Nat.ofDigits_cons]
    simp only [List.map_cons, List.map_nil, List.foldl_cons, List.foldl_nil, toNat_digit digit h.1]
    omega

theorem decimal_toDecimal (n : ℕ) : decimal (toDecimal n) = n := by
  unfold toDecimal
  split
  · next h => rw [h]; rfl
  · rw [decimal_reverse_map fun digit => Nat.digits_lt_base (by decide), Nat.ofDigits_digits]

theorem toDecimal_ne_nil (n : ℕ) : toDecimal n ≠ [] := by
  unfold toDecimal
  split
  · exact List.cons_ne_nil _ _
  · next h => simpa [Nat.digits_ne_nil_iff_ne_zero] using h

/-- A number that is printed is read back. -/
theorem readNumber_toDecimal (n : ℕ) : readNumber (toDecimal n) = some n := by
  rw [readNumber, if_pos, decimal_toDecimal]
  exact ⟨toDecimal_ne_nil n, List.all_eq_true.mpr fun ch => isDigit_of_mem_toDecimal⟩

/-! ## The lines of the head -/

theorem readStatus_statusLine (r : HttpResponse) :
    readStatus r.statusLine = some r.statusCode.value := by
  unfold statusLine
  cases r.statusCode <;> decide

/-- The value of the `Connection` field. -/
def choice (close : Bool) : Bytes := if close then text "close" else text "Keep-Alive"

theorem readConnection_choice (close : Bool) : readConnection (choice close) = some close := by
  cases close <;> decide

theorem readField_connectionLine (r : HttpResponse) :
    readField r.connectionLine = some (text "Connection", choice r.closeConnection) := by
  unfold connectionLine
  cases r.closeConnection <;> decide

theorem Sendable.colon_notMem {name value : Bytes} (h : Sendable name value) : COLON ∉ name :=
  fun hmem => (isTokenCharacter_ne (h.token _ hmem)).2.1 rfl

/-- A header is one line. -/
theorem Sendable.pieces_eq {name value : Bytes} (h : Sendable name value) :
    pieces (headerText (name, value)) = [headerText (name, value)] := by
  apply pieces_of_notMem
  have hname : 0x0D ∉ name := fun hmem => (isTokenCharacter_ne (h.token _ hmem)).2.2 rfl
  have hsep : 0x0D ∉ text ": " := by decide
  simp only [headerText, List.mem_append, not_or]
  exact ⟨⟨hname, hsep⟩, h.cr_notMem⟩

theorem Sendable.readField_eq {name value : Bytes} (h : Sendable name value) :
    readField (headerText (name, value)) = some (name, value) := by
  rw [readField_headerText h.name_ne h.colon_notMem, h.trimmed]

/-- What is read from what is printed, entry by entry. -/
theorem mapM_map {α β : Type*} {f : β → Option α} {g : α → β} {l : List α}
    (h : ∀ a ∈ l, f (g a) = some a) : (l.map g).mapM f = some l := by
  induction l with
  | nil => rfl
  | cons a l ih =>
    rw [List.forall_mem_cons] at h
    rw [List.map_cons, List.mapM_cons, h.1, ih h.2]
    rfl

/-! ## The round trip -/

theorem toLowerAscii_connection : toLowerAscii (text "Connection") = connection := by
  decide

theorem contentLength_ne_connection : contentLength ≠ connection := by decide

/-- The fields that are sent. -/
def fields (r : HttpResponse) : List (Bytes × Bytes) :=
  (text "Connection", choice r.closeConnection) ::
    (text "Content-Length", toDecimal r.body.length) :: r.headers.entries

section Sent

variable {r : HttpResponse} (hr : ∀ header ∈ r.headers.entries, Sendable header.1 header.2)

include hr

/-- The length of the body is added. -/
theorem lengthLines_eq :
    r.lengthLines = [text "Content-Length: " ++ toDecimal r.body.length] := by
  have hnone : r.headers.entries.lookup (text "Content-Length") = none := by
    refine List.lookup_eq_none_iff.mpr fun header hheader => bne_iff_ne.mpr fun h => ?_
    have hfree := (hr header hheader).free
    rw [← h] at hfree
    revert hfree
    decide
  rw [lengthLines, hnone]
  rfl

/-- Each part is one line. -/
theorem flatMap_pieces_parts : r.parts.flatMap pieces = r.parts := by
  have hentries : (r.headers.entries.map headerText).flatMap pieces =
      r.headers.entries.map headerText := by
    rw [List.flatMap_map, ← List.flatMap_pure_eq_map]
    exact List.flatMap_congr fun header hheader => (hr header hheader).pieces_eq
  have hstatus : pieces r.statusLine = [r.statusLine] := by
    unfold statusLine
    cases r.statusCode <;> decide
  have hconnection : pieces r.connectionLine = [r.connectionLine] := by
    unfold connectionLine
    cases r.closeConnection <;> decide
  rw [parts, lengthLines_eq hr, List.flatMap_cons, List.flatMap_cons, List.flatMap_append, hentries,
    List.flatMap_singleton, pieces_lengthText, hstatus, hconnection]
  rfl

theorem nil_notMem_parts : [] ∉ r.parts := by
  intro h
  rw [← flatMap_pieces_parts hr] at h
  obtain ⟨⟨name, value⟩, hheader, hnil⟩ := r.nil_mem_lines_iff.mp h
  rw [(hr _ hheader).pieces_eq, List.mem_singleton] at hnil
  have hname := (List.append_eq_nil_iff.mp (List.append_eq_nil_iff.mp hnil.symm).1).1
  exact (hr _ hheader).name_ne hname

/-- The head of what is sent are the parts. -/
theorem head_response (suffix : Bytes) :
    Lines.head 0x0D 0x0A (r.response ++ suffix) = some (r.parts, r.body ++ suffix) := by
  have hlines := r.lines_response suffix
  rw [flatMap_pieces_parts hr] at hlines
  exact Lines.head_eq hlines (nil_notMem_parts hr)

theorem mapM_readField :
    (r.connectionLine :: (r.lengthLines ++ r.headers.entries.map headerText)).mapM readField =
      some r.fields := by
  have hentries : (r.headers.entries.map headerText).mapM readField = some r.headers.entries :=
    mapM_map fun header hheader => (hr header hheader).readField_eq
  rw [lengthLines_eq hr, List.mapM_cons, List.singleton_append, List.mapM_cons, hentries,
    readField_connectionLine, readField_lengthText]
  rfl

theorem valuesOf_entries (name : Bytes) (hname : ∀ key, toLowerAscii key = name → isReserved key) :
    valuesOf name r.headers.entries = [] := by
  have hnone : (r.headers.entries.filter fun field => toLowerAscii field.1 = name) = [] := by
    refine List.filter_eq_nil_iff.mpr fun header hheader h => ?_
    exact absurd (hname _ (of_decide_eq_true h)) (by simp [(hr header hheader).free])
  rw [valuesOf, hnone]
  rfl

theorem valuesOf_connection : valuesOf connection r.fields = [choice r.closeConnection] := by
  have hrest := valuesOf_entries hr connection fun key h => by simp [isReserved, h]
  rw [fields, valuesOf_cons, if_pos toLowerAscii_connection, valuesOf_cons,
    toLowerAscii_contentLength, if_neg contentLength_ne_connection, hrest]

theorem valuesOf_contentLength : valuesOf contentLength r.fields = [toDecimal r.body.length] := by
  have hrest := valuesOf_entries hr contentLength fun key h => by simp [isReserved, h]
  rw [fields, valuesOf_cons, toLowerAscii_connection, if_neg contentLength_ne_connection.symm,
    valuesOf_cons, if_pos toLowerAscii_contentLength, hrest]

/-- The reader's own fields are left out, and the entries are kept. -/
theorem filter_fields : (r.fields.filter fun field => !isReserved field.1) = r.headers.entries := by
  have hconnection : isReserved (text "Connection") = true := by decide
  have hlength : isReserved (text "Content-Length") = true := by decide
  rw [fields, List.filter_cons_of_neg (by simp [hconnection]),
    List.filter_cons_of_neg (by simp [hlength]), List.filter_eq_self]
  intro header hheader
  simp [(hr header hheader).free]

/-- **The round trip** of a response whose headers are sendable. -/
theorem readReply_eq (suffix : Bytes) :
    readReply (r.response ++ suffix) =
      some (⟨r.statusCode.value, r.closeConnection, r.headers.entries, r.body⟩, suffix) := by
  have hlength : ¬ (r.body ++ suffix).length < r.body.length := by
    rw [List.length_append]
    omega
  unfold readReply
  rw [head_response hr suffix]
  simp only [parts, Option.bind_eq_bind, Option.bind_some, readStatus_statusLine, mapM_readField hr,
    valuesOf_connection hr, valuesOf_contentLength hr, readConnection_choice, readNumber_toDecimal,
    filter_fields hr, if_neg hlength, List.take_left, List.drop_left]

end Sent

/-- **Responses decode back.** Whatever the setters were called with, where the headers that were set
    are sendable the reader gets the status, the choice for the connection, each header with the
    value it was last set to, and the body, and leaves the suffix; and what was in the buffer before
    is still in front. -/
theorem readReply_response (close : Bool) (calls : List Setter) (output : Buffer) (suffix : Bytes)
    (hheaders : ∀ name value,
      (settings close calls).headers name = some value → Sendable name value) :
    ∃ sent headers,
      ((build close calls).appendToBuffer output).readable = output.readable ++ sent ∧
      readReply (sent ++ suffix) =
        some (⟨(settings close calls).statusCode.value, (settings close calls).closeConnection,
          headers, (settings close calls).body⟩, suffix) ∧
      (headers.map Prod.fst).Nodup ∧
      ∀ name value, (name, value) ∈ headers ↔ (settings close calls).headers name = some value := by
  have hholds := holds_build close calls
  have hr : ∀ header ∈ (build close calls).headers.entries, Sendable header.1 header.2 :=
    fun header hheader => hheaders _ _ ((hholds.headers _ _).mp hheader)
  refine ⟨(build close calls).response, (build close calls).headers.entries,
    readable_appendToBuffer _ output, ?_, SortedMap.nodup_keys _, hholds.headers⟩
  rw [readReply_eq hr, hholds.statusCode, hholds.closeConnection, hholds.body]

/-- Two headers, and a body that looks like another response. -/
theorem readReply_response_nested :
    ∃ sent headers,
      ((build false [.setStatusCode .k200Ok, .setContentType (text "text/plain"),
          .addHeader (text "X-Id") (text "7"), .setBody (text "\r\n\r\nHTTP/1.1")]).appendToBuffer
        .new).readable = Buffer.new.readable ++ sent ∧
      readReply (sent ++ text "HTTP/1.1 404") =
        some (⟨200, false, headers, text "\r\n\r\nHTTP/1.1"⟩, text "HTTP/1.1 404") ∧
      (headers.map Prod.fst).Nodup ∧
      ∀ name value, (name, value) ∈ headers ↔
        (settings false [.setStatusCode .k200Ok, .setContentType (text "text/plain"),
          .addHeader (text "X-Id") (text "7"), .setBody (text "\r\n\r\nHTTP/1.1")]).headers name =
            some value := by
  refine readReply_response false [.setStatusCode .k200Ok, .setContentType (text "text/plain"),
    .addHeader (text "X-Id") (text "7"), .setBody (text "\r\n\r\nHTTP/1.1")] .new
    (text "HTTP/1.1 404") ?_
  intro name value hset
  change Function.update (Function.update (fun _ => none) (text "Content-Type")
    (some (text "text/plain"))) (text "X-Id") (some (text "7")) name = some value at hset
  rw [Function.update_apply, Function.update_apply] at hset
  split at hset
  · next hname =>
    cases hset
    subst hname
    exact ⟨by decide, by decide +kernel, by decide +kernel, by decide +kernel,
      by decide⟩
  · split at hset
    · next hname =>
      cases hset
      subst hname
      exact ⟨by decide, by decide +kernel, by decide +kernel, by decide +kernel,
        by decide⟩
    · cases hset

end HttpResponse

end AegisNet
