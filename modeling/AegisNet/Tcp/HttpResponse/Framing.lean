import AegisNet.Tcp.HttpResponse

/-!
# The framing of a response

A reader takes the lines of a response up to the first empty one as its head, the fields in them as
names with values, and as many bytes behind the head as the `Content-Length` field says. Names and
values are sent as they were given, so the framing holds exactly where no entry of the map brings an
empty line and where the entries bring no second `Content-Length` field, in any letter case.

## Main definitions

- `HttpResponse.readField`, `HttpResponse.contentLengths` — the fields in the lines of a head
- `HttpResponse.Framed` — one `Content-Length`, with the size of the body that follows
- `HttpResponse.HeadersFramed` — the condition on the headers that were set

## Main results

- `HttpResponse.framed_iff` — a response is framed exactly under that condition
-/

namespace AegisNet

namespace HttpResponse

/-! ## Reading fields -/

/-- A line `name: value`, with the blanks around the value left out. -/
def readField (line : Bytes) : Option (Bytes × Bytes) :=
  (HttpParser.cutAt COLON line).map fun (name, value) => (name, trim value)

/-- The values of the fields of a name, in any letter case. -/
def valuesOf (name : Bytes) (fields : List (Bytes × Bytes)) : List Bytes :=
  (fields.filter fun field => toLowerAscii field.1 = name).map Prod.snd

/-- The values of the `Content-Length` fields in some lines. -/
def contentLengths (lines : List Bytes) : List Bytes :=
  valuesOf contentLength (lines.filterMap readField)

theorem valuesOf_cons (name : Bytes) (field : Bytes × Bytes) (fields : List (Bytes × Bytes)) :
    valuesOf name (field :: fields) =
      if toLowerAscii field.1 = name then field.2 :: valuesOf name fields
      else valuesOf name fields := by
  rw [valuesOf, List.filter_cons]
  simp only [decide_eq_true_eq]
  split <;> rfl

theorem valuesOf_append (name : Bytes) (fields more : List (Bytes × Bytes)) :
    valuesOf name (fields ++ more) = valuesOf name fields ++ valuesOf name more := by
  simp only [valuesOf, List.filter_append, List.map_append]

theorem contentLengths_append (lines more : List Bytes) :
    contentLengths (lines ++ more) = contentLengths lines ++ contentLengths more := by
  simp only [contentLengths, List.filterMap_append, valuesOf_append]

theorem toLowerAscii_contentLength : toLowerAscii (text "Content-Length") = contentLength := by
  decide

theorem trim_of_notBlank {value : Bytes} (h : ∀ ch ∈ value, isBlank ch = false) :
    trim value = value := by
  have hfront : value.dropWhile isBlank = value := by
    cases value with
    | nil => rfl
    | cons ch value => rw [List.dropWhile_cons_of_neg (by simp [h ch List.mem_cons_self])]
  rw [trim, hfront, List.rdropWhile_eq_self_iff]
  intro hne
  simp [h _ (List.getLast_mem hne)]

theorem trim_toDecimal (n : ℕ) : trim (toDecimal n) = toDecimal n := by
  apply trim_of_notBlank
  intro ch hch
  have hdigit := isDigit_of_mem_toDecimal hch
  by_contra hblank
  rw [Bool.not_eq_false, isBlank, Bool.or_eq_true, beq_iff_eq, beq_iff_eq] at hblank
  obtain rfl | rfl := hblank <;> revert hdigit <;> decide

/-- What is sent for an entry reads back as the entry. -/
theorem readField_headerText {name : Bytes} (hne : name ≠ []) (hcolon : COLON ∉ name)
    (value : Bytes) : readField (headerText (name, value)) = some (name, trim value) := by
  have hcut : HttpParser.cutAt COLON (headerText (name, value)) = some (name, SP :: value) :=
    HttpParser.cutAt_eq_some.mpr ⟨by
      show name ++ text ": " ++ value = name ++ ([COLON, SP] ++ value)
      rw [List.append_assoc]
      congr 1, hne, hcolon⟩
  rw [readField, hcut]
  rfl

/-! ## Framing -/

/-- The lines of a head have one `Content-Length` field, with the size of what follows the head,
    and that is the body. -/
def Framed (bytes body : Bytes) : Prop :=
  ∃ lines, Lines.head 0x0D 0x0A bytes = some (lines, body) ∧
    contentLengths lines = [toDecimal body.length]

/-- Each header, as it was last set, brings no empty line, and no `Content-Length` field unless that
    is its very name: then the only one, with the size of the body. -/
def HeadersFramed (s : Settings) : Prop :=
  ∀ name value, s.headers name = some value →
    [] ∉ pieces (headerText (name, value)) ∧
      contentLengths (pieces (headerText (name, value))) =
        if name = text "Content-Length" then [toDecimal s.body.length] else []

/-- The status line is one line, not empty, and no field. -/
theorem pieces_statusLine (r : HttpResponse) :
    [] ∉ pieces r.statusLine ∧ contentLengths (pieces r.statusLine) = [] := by
  unfold statusLine
  cases r.statusCode <;> decide

theorem pieces_connectionLine (r : HttpResponse) :
    [] ∉ pieces r.connectionLine ∧ contentLengths (pieces r.connectionLine) = [] := by
  unfold connectionLine
  cases r.closeConnection <;> decide

/-- The line that is added reads as a field. -/
theorem lengthText_eq (n : ℕ) :
    text "Content-Length: " ++ toDecimal n = headerText (text "Content-Length", toDecimal n) := by
  have htext : text "Content-Length: " = text "Content-Length" ++ text ": " := by decide
  rw [htext]
  rfl

theorem pieces_lengthText (n : ℕ) :
    pieces (text "Content-Length: " ++ toDecimal n) = [text "Content-Length: " ++ toDecimal n] := by
  apply pieces_of_notMem
  rw [List.mem_append, not_or]
  exact ⟨by decide, cr_notMem_toDecimal n⟩

theorem readField_lengthText (n : ℕ) :
    readField (text "Content-Length: " ++ toDecimal n) =
      some (text "Content-Length", toDecimal n) := by
  rw [lengthText_eq, readField_headerText (by decide) (by decide +kernel), trim_toDecimal]

/-- The lines that are added: none is empty, and they bring one field, or none where the map has its
    name. -/
theorem pieces_lengthLines (r : HttpResponse) :
    [] ∉ r.lengthLines.flatMap pieces ∧
      contentLengths (r.lengthLines.flatMap pieces) =
        if (r.headers.entries.lookup (text "Content-Length")).isNone then
          [toDecimal r.body.length] else [] := by
  unfold lengthLines
  split
  · rw [List.flatMap_singleton, pieces_lengthText]
    constructor
    · rw [List.mem_singleton]
      intro h
      exact absurd (List.append_eq_nil_iff.mp h.symm).1 (by decide)
    · rw [contentLengths, List.filterMap_cons_some (readField_lengthText _), valuesOf_cons,
        if_pos toLowerAscii_contentLength]
      rfl
  · exact ⟨List.not_mem_nil, rfl⟩

/-- The lines of the head: those of the entries decide whether one is empty. -/
theorem nil_mem_lines_iff (r : HttpResponse) :
    [] ∈ r.parts.flatMap pieces ↔ ∃ header ∈ r.headers.entries, [] ∈ pieces (headerText header) := by
  rw [parts, List.flatMap_cons, List.flatMap_cons, List.flatMap_append, List.flatMap_map]
  constructor
  · intro h
    obtain h | h | h | h := by simpa only [List.mem_append] using h
    · exact absurd h r.pieces_statusLine.1
    · exact absurd h r.pieces_connectionLine.1
    · exact absurd h r.pieces_lengthLines.1
    · exact List.mem_flatMap.mp h
  · intro h
    exact List.mem_append_right _ (List.mem_append_right _
      (List.mem_append_right _ (List.mem_flatMap.mpr h)))

/-- The `Content-Length` fields of the head: the one that is added, and those of the entries. -/
theorem contentLengths_lines (r : HttpResponse) :
    contentLengths (r.parts.flatMap pieces) =
      (if (r.headers.entries.lookup (text "Content-Length")).isNone then
        [toDecimal r.body.length] else []) ++
        contentLengths (r.headers.entries.flatMap fun header => pieces (headerText header)) := by
  rw [parts, List.flatMap_cons, List.flatMap_cons, List.flatMap_append, List.flatMap_map,
    contentLengths_append, contentLengths_append, contentLengths_append,
    r.pieces_statusLine.2, r.pieces_connectionLine.2, r.pieces_lengthLines.2]
  rfl

/-- A string that starts without CR has that start in its first piece. -/
theorem exists_pieces_append {start : Bytes} (h : 0x0D ∉ start) (rest : Bytes) :
    ∃ first more, pieces (start ++ rest) = (start ++ first) :: more := by
  obtain ⟨first, more, hrest⟩ := List.exists_cons_of_ne_nil (Lines.lines_ne_nil 0x0D 0x0A rest)
  exact ⟨first, more, by rw [pieces, Lines.lines_append_of_notMem h, hrest, List.modifyHead_cons]⟩

/-- A header of that very name brings a field, whatever its value is. -/
theorem contentLengths_ne_nil (value : Bytes) :
    contentLengths (pieces (headerText (text "Content-Length", value))) ≠ [] := by
  have hstart : 0x0D ∉ text "Content-Length" ++ text ": " := by decide
  obtain ⟨first, more, hpieces⟩ := exists_pieces_append hstart value
  have hfield : readField (text "Content-Length" ++ text ": " ++ first) =
      some (text "Content-Length", trim first) :=
    readField_headerText (by decide) (by decide +kernel) first
  rw [headerText, hpieces, contentLengths, List.filterMap_cons_some hfield, valuesOf_cons,
    if_pos toLowerAscii_contentLength]
  exact List.cons_ne_nil _ _

theorem contentLengths_flatMap {ι : Type*} (f : ι → List Bytes) (l : List ι) :
    contentLengths (l.flatMap f) = l.flatMap fun a => contentLengths (f a) := by
  induction l with
  | nil => rfl
  | cons a l ih => rw [List.flatMap_cons, List.flatMap_cons, contentLengths_append, ih]

/-- One field in the head: each entry brings what it may. -/
theorem contentLengths_eq_iff (r : HttpResponse) :
    contentLengths (r.parts.flatMap pieces) = [toDecimal r.body.length] ↔
      ∀ header ∈ r.headers.entries, contentLengths (pieces (headerText header)) =
        if header.1 = text "Content-Length" then [toDecimal r.body.length] else [] := by
  rw [← SortedMap.flatMap_eq_iff r.headers.nodup_keys contentLengths_ne_nil, contentLengths_lines,
    contentLengths_flatMap]
  split <;> simp

/-- A serialization is framed exactly where each of its entries is. -/
theorem framed_response_iff (r : HttpResponse) :
    Framed r.response r.body ↔
      (∀ header ∈ r.headers.entries, [] ∉ pieces (headerText header)) ∧
        ∀ header ∈ r.headers.entries, contentLengths (pieces (headerText header)) =
          if header.1 = text "Content-Length" then [toDecimal r.body.length] else [] := by
  have hlines : pieces r.response = r.parts.flatMap pieces ++ [] :: pieces r.body := by
    simpa using r.lines_response []
  by_cases hempty : [] ∈ r.parts.flatMap pieces
  · -- the head ends too early, so what follows it is longer than the body
    obtain ⟨lines, rest, hhead, hlt⟩ := Lines.length_of_head hlines hempty
    constructor
    · rintro ⟨lines', hhead', -⟩
      rw [hhead] at hhead'
      cases hhead'
      exact absurd hlt (Nat.lt_irrefl _)
    · rintro ⟨hpieces, -⟩
      obtain ⟨header, hmem, hnil⟩ := r.nil_mem_lines_iff.mp hempty
      exact absurd hnil (hpieces header hmem)
  · have hhead := Lines.head_eq hlines hempty
    constructor
    · rintro ⟨lines, hhead', hlength⟩
      rw [hhead] at hhead'
      cases hhead'
      refine ⟨fun header hmem hnil => ?_, r.contentLengths_eq_iff.mp hlength⟩
      exact hempty (r.nil_mem_lines_iff.mpr ⟨header, hmem, hnil⟩)
    · rintro ⟨-, hlength⟩
      exact ⟨_, hhead, r.contentLengths_eq_iff.mpr hlength⟩

theorem Holds.headersFramed_iff {r : HttpResponse} {s : Settings} (h : Holds r s) :
    Framed r.response s.body ↔ HeadersFramed s := by
  rw [← h.body, framed_response_iff, HeadersFramed, ← h.body]
  constructor
  · intro hframed name value hset
    have hmem := (h.headers name value).mpr hset
    exact ⟨hframed.1 _ hmem, hframed.2 _ hmem⟩
  · intro hframed
    exact ⟨fun header hmem => (hframed _ _ ((h.headers _ _).mp hmem)).1,
      fun header hmem => (hframed _ _ ((h.headers _ _).mp hmem)).2⟩

/-- The bytes that `appendToBuffer` adds are the serialization, behind what was there. -/
theorem readable_appendToBuffer (r : HttpResponse) (output : Buffer) :
    (r.appendToBuffer output).readable = output.readable ++ r.response :=
  Buffer.readable_append output r.response

theorem drop_readable_appendToBuffer (r : HttpResponse) (output : Buffer) :
    (r.appendToBuffer output).readable.drop output.readable.length = r.response := by
  rw [readable_appendToBuffer, List.drop_left]

/-- **Framing.** Whatever the setters are called with, the appended bytes have one `Content-Length`
    field in front of their first empty line, with the size of the body last set, and that body
    behind it, exactly where no header brings an empty line and none brings a `Content-Length` field
    but the one of that very name, with that size. -/
theorem framed_iff (close : Bool) (calls : List Setter) (output : Buffer) :
    Framed (((build close calls).appendToBuffer output).readable.drop output.readable.length)
        (settings close calls).body ↔
      HeadersFramed (settings close calls) := by
  rw [drop_readable_appendToBuffer]
  exact (holds_build close calls).headersFramed_iff

/-- A `content-length` in lower case is not found, and sent beside the one that is added. -/
theorem lowercase_not_framed : ¬ ∀ (close : Bool) (calls : List Setter) (output : Buffer),
    Framed (((build close calls).appendToBuffer output).readable.drop output.readable.length)
      (settings close calls).body := by
  intro h
  have hframed := h false [.addHeader (text "content-length") (text "0"), .setBody (text "hi")] .new
  rw [drop_readable_appendToBuffer, (holds_build _ _).headersFramed_iff] at hframed
  have hfield := (hframed (text "content-length") (text "0") rfl).2
  revert hfield
  decide

end HttpResponse

end AegisNet
