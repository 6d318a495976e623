import AegisNet.Tcp.Buffer
import Mathlib.Algebra.Group.Nat.Defs
import Mathlib.Data.List.DropRight

/-!
# The HTTP request parser

The incremental parser of `src/tcp/HttpParser.{h,cpp}`. `HttpParser.iteration` is one round of the
`while (true)` loop of `parseRequest`; the two line parsers are given with a lemma each that says
exactly which lines they take and what they record.

## Main definitions

- `HttpParser` — the members of the class
- `HttpParser.processRequestLine`, `HttpParser.processHeaderLine`, `HttpParser.finishHeaders`
- `HttpParser.parseRequest`, `HttpParser.reset`, `HttpParser.getHeader`
-/

namespace AegisNet

/-! ## Bytes -/

def SP : UInt8 := 0x20

def HTAB : UInt8 := 0x09

def COLON : UInt8 := 0x3A

/-- `std::isdigit` in the C locale. -/
def isDigit (ch : UInt8) : Bool := 0x30 ≤ ch && ch ≤ 0x39

/-- `std::isalnum` in the C locale. -/
def isAlnum (ch : UInt8) : Bool :=
  isDigit ch || (0x41 ≤ ch && ch ≤ 0x5A) || (0x61 ≤ ch && ch ≤ 0x7A)

/-- `std::tolower` in the C locale. -/
def toLower (ch : UInt8) : UInt8 := if 0x41 ≤ ch && ch ≤ 0x5A then ch + 0x20 else ch

def isTokenCharacter (ch : UInt8) : Bool :=
  if ch > 0x7F then false
  else if isAlnum ch then true
  else
    -- exclamation mark # $ % & apostrophe * + - . ^ _ grave accent | ~
    ch ∈ ([0x21, 0x23, 0x24, 0x25, 0x26, 0x27, 0x2A, 0x2B, 0x2D, 0x2E, 0x5E, 0x5F, 0x60, 0x7C,
      0x7E] : Bytes)

def toLowerAscii (value : Bytes) : Bytes := value.map toLower

/-- The number written by a string of decimal digits. -/
def decimal (value : Bytes) : ℕ := value.foldl (fun n ch => 10 * n + (ch.toNat - 0x30)) 0

/-- `std::from_chars` into a `size_t` fails from 2^64 on. -/
def parseContentLength (value : Bytes) : Option ℕ :=
  if value = [] then none
  else if !value.all isDigit then none
  else if decimal value < 2 ^ 64 then some (decimal value)
  else none

/-- The blanks trimmed off a header value. -/
def isBlank (ch : UInt8) : Bool := ch == SP || ch == HTAB

/-- The loops that move `valueBegin` forward and `valueEnd` back. -/
def trim (value : Bytes) : Bytes := (value.dropWhile isBlank).rdropWhile isBlank

/-- `HTTP/1.0` -/
def http10 : Bytes := [0x48, 0x54, 0x54, 0x50, 0x2F, 0x31, 0x2E, 0x30]

/-- `HTTP/1.1` -/
def http11 : Bytes := [0x48, 0x54, 0x54, 0x50, 0x2F, 0x31, 0x2E, 0x31]

/-- `transfer-encoding` -/
def transferEncoding : Bytes :=
  [0x74, 0x72, 0x61, 0x6E, 0x73, 0x66, 0x65, 0x72, 0x2D, 0x65, 0x6E, 0x63, 0x6F, 0x64, 0x69,
    0x6E, 0x67]

/-- `content-length` -/
def contentLength : Bytes :=
  [0x63, 0x6F, 0x6E, 0x74, 0x65, 0x6E, 0x74, 0x2D, 0x6C, 0x65, 0x6E, 0x67, 0x74, 0x68]

/-- No delimiter of a request is a token character. -/
theorem isTokenCharacter_ne {ch : UInt8} (h : isTokenCharacter ch = true) :
    ch ≠ SP ∧ ch ≠ COLON ∧ ch ≠ 0x0D := by
  refine ⟨?_, ?_, ?_⟩ <;> rintro rfl <;> revert h <;> decide

/-! ## The class -/

/-- `HttpParser::HttpRequestParseState`. -/
inductive HttpRequestParseState
  | expectRequestLine
  | expectHeaders
  | expectBody
  | gotAll
  | error
  deriving DecidableEq, Repr

/-- The members of the C++ class. Only insertion and lookup of `headers` are used, so the map is
    kept as the list of its entries. The defaults are those of the constructor. -/
structure HttpParser where
  state : HttpRequestParseState := .expectRequestLine
  method : Bytes := []
  path : Bytes := []
  version : Bytes := []
  headers : List (Bytes × Bytes) := []
  body : Bytes := []
  expectedBodyLength : ℕ := 0
  deriving DecidableEq

namespace HttpParser

def new : HttpParser := {}

def reset (p : HttpParser) : HttpParser :=
  { p with
    state := .expectRequestLine
    method := []
    path := []
    version := []
    headers := []
    body := []
    expectedBodyLength := 0 }

/-- A reset parser is a fresh one. -/
@[simp] theorem reset_eq_new (p : HttpParser) : p.reset = new := rfl

def gotAll (p : HttpParser) : Bool := p.state = .gotAll

def getMethod (p : HttpParser) : Bytes := p.method

def getPath (p : HttpParser) : Bytes := p.path

def getBody (p : HttpParser) : Bytes := p.body

def getHeader (p : HttpParser) (field : Bytes) : Bytes :=
  (p.headers.lookup (toLowerAscii field)).getD []

/-- `state_ = Error`. -/
def fail (p : HttpParser) : HttpParser := { p with state := .error }

/-- `std::find` of a delimiter in a range, with the test that rejects a delimiter at the
    beginning and a missing one: the parts around it. -/
def cutAt (delimiter : UInt8) (range : Bytes) : Option (Bytes × Bytes) :=
  let found := range.idxOf delimiter
  if found = 0 ∨ found = range.length then none
  else some (range.take found, range.drop (found + 1))

/-- `line` is the range `[begin, end)`; `none` is the result `false`. -/
def processRequestLine (p : HttpParser) (line : Bytes) : Option HttpParser :=
  (cutAt SP line).bind fun (method, afterMethod) =>
    (cutAt SP afterMethod).bind fun (target, version) =>
      if version.idxOf SP ≠ version.length then none
      else if !method.all isTokenCharacter then none
      else if target.any (fun ch => ch ≤ 0x20 || ch == 0x7F) then none
      else if version ≠ http10 ∧ version ≠ http11 then none
      else some { p with method := method, path := target, version := version }

/-- One header line, without its CR LF; `none` where the code sets `Error`. -/
def processHeaderLine (p : HttpParser) (line : Bytes) : Option HttpParser :=
  (cutAt COLON line).bind fun (name, afterColon) =>
    if !name.all isTokenCharacter then none
    else
      let field := toLowerAscii name
      let value := trim afterColon
      if value.any (fun ch => (ch < 0x20 && ch != HTAB) || ch == 0x7F) then none
      else if (p.headers.lookup field).isSome then none
      else some { p with headers := p.headers ++ [(field, value)] }

/-- The blank line after the headers; `none` where the code sets `Error`. -/
def finishHeaders (p : HttpParser) : Option HttpParser :=
  if (p.headers.lookup transferEncoding).isSome then none
  else
    match p.headers.lookup contentLength with
    | none => some { p with state := .gotAll }
    | some value =>
      match parseContentLength value with
      | none => none
      | some length => some { p with expectedBodyLength := length, state := .expectBody }

/-- How a round of the loop ends: with `continue`, or with `return ok`. -/
inductive LoopStep
  | again (p : HttpParser) (buf : Buffer)
  | done (ok : Bool) (p : HttpParser) (buf : Buffer)

/-- The body of the `while (true)` loop of `parseRequest`. -/
def iteration (p : HttpParser) (buf : Buffer) : LoopStep :=
  match p.state with
  | .expectRequestLine =>
    match buf.findCRLF with
    | none => .done true p buf
    | some crlf =>
      match p.processRequestLine (buf.readable.take crlf) with
      | none => .done false p.fail buf
      | some p' => .again { p' with state := .expectHeaders } (buf.retrieveUntil (crlf + 2))
  | .expectHeaders =>
    match buf.findCRLF with
    | none => .done true p buf
    | some crlf =>
      if crlf = 0 then
        match p.finishHeaders with
        | none => .done false p.fail (buf.retrieveUntil (crlf + 2))
        | some p' =>
          if p'.gotAll then .done true p' (buf.retrieveUntil (crlf + 2))
          else .again p' (buf.retrieveUntil (crlf + 2))
      else
        match p.processHeaderLine (buf.readable.take crlf) with
        | none => .done false p.fail buf
        | some p' => .again p' (buf.retrieveUntil (crlf + 2))
  | .expectBody =>
    if buf.readableBytes < p.expectedBodyLength then .done true p buf
    else
      .done true { p with body := buf.readable.take p.expectedBodyLength, state := .gotAll }
        (buf.retrieve p.expectedBodyLength)
  -- never entered: `parseRequest` answers for these states before the loop, and every round
  -- that sets one of them returns
  | .gotAll | .error => .done true p buf

/-- A CR LF in front of the reader is a byte pair to retrieve. -/
theorem readableBytes_retrieveUntil_lt {buf : Buffer} {crlf : ℕ} (h : buf.findCRLF = some crlf) :
    (buf.retrieveUntil (crlf + 2)).readableBytes < buf.readableBytes := by
  have hle := ListSearch.search_le h
  simp only [Buffer.kCRLF, List.length_cons, List.length_nil] at hle
  rw [← Buffer.length_readable, ← Buffer.length_readable, Buffer.readable_retrieveUntil,
    List.length_drop]
  omega

/-- Every round that goes on has used up a line. -/
theorem readableBytes_lt_of_again {p p' : HttpParser} {buf buf' : Buffer}
    (h : p.iteration buf = .again p' buf') : buf'.readableBytes < buf.readableBytes := by
  unfold iteration at h
  cases hs : p.state with
  | expectRequestLine =>
    simp only [hs] at h
    split at h
    · cases h
    · next hcrlf =>
      split at h
      · cases h
      · cases h
        exact readableBytes_retrieveUntil_lt hcrlf
  | expectHeaders =>
    simp only [hs] at h
    split at h
    · cases h
    · next hcrlf =>
      split at h
      · split at h
        · cases h
        · split at h
          · cases h
          · cases h
            exact readableBytes_retrieveUntil_lt hcrlf
      · split at h
        · cases h
        · cases h
          exact readableBytes_retrieveUntil_lt hcrlf
  | expectBody =>
    simp only [hs] at h
    split at h <;> cases h
  | gotAll => simp only [hs] at h; cases h
  | error => simp only [hs] at h; cases h

/-- The loop of `parseRequest`. -/
def parseLoop (p : HttpParser) (buf : Buffer) : Bool × HttpParser × Buffer :=
  match _h : p.iteration buf with
  | .done ok p' buf' => (ok, p', buf')
  | .again p' buf' => parseLoop p' buf'
termination_by buf.readableBytes
decreasing_by exact readableBytes_lt_of_again _h

/-- The result, the parser and the buffer after `parseRequest(&buf)`. -/
def parseRequest (p : HttpParser) (buf : Buffer) : Bool × HttpParser × Buffer :=
  if p.state = .error then (false, p, buf)
  else if p.state = .gotAll then (true, p, buf)
  else p.parseLoop buf

/-! ## What the line parsers take -/

theorem cutAt_eq_some {c : UInt8} {l x y : Bytes} :
    cutAt c l = some (x, y) ↔ l = x ++ c :: y ∧ x ≠ [] ∧ c ∉ x := by
  constructor
  · intro h
    simp only [cutAt, Option.ite_none_left_eq_some, not_or, Option.some.injEq, Prod.mk.injEq] at h
    obtain ⟨⟨h0, hlen⟩, rfl, rfl⟩ := h
    have hmem : c ∈ l := by
      by_contra hn
      exact hlen (List.idxOf_eq_length_iff.mpr hn)
    refine ⟨ListSearch.eq_take_idxOf hmem, ?_, ListSearch.notMem_take_idxOf c l⟩
    rw [Ne, List.take_eq_nil_iff, not_or]
    exact ⟨h0, List.ne_nil_of_mem hmem⟩
  · rintro ⟨rfl, hx, hc⟩
    have hpos := List.length_pos_iff.mpr hx
    have hdrop : (x ++ c :: y).drop (x.length + 1) = y := by simp
    simp only [cutAt, ListSearch.idxOf_append_cons hc]
    rw [if_neg, List.take_left, hdrop]
    rw [List.length_append, List.length_cons]
    omega

/-- A request line is taken exactly when it reads METHOD SP TARGET SP VERSION. -/
theorem processRequestLine_eq_some {p p' : HttpParser} {line : Bytes} :
    p.processRequestLine line = some p' ↔
      ∃ method target version, line = method ++ SP :: (target ++ SP :: version) ∧
        (method ≠ [] ∧ ∀ ch ∈ method, isTokenCharacter ch = true) ∧
        (target ≠ [] ∧ ∀ ch ∈ target, 0x20 < ch ∧ ch ≠ 0x7F) ∧
        (version = http10 ∨ version = http11) ∧
        p' = { p with method := method, path := target, version := version } := by
  simp only [processRequestLine, Option.bind_eq_some_iff, Prod.exists,
    Option.ite_none_left_eq_some, cutAt_eq_some]
  constructor
  · rintro ⟨m, r, ⟨rfl, hm, -⟩, t, v, ⟨rfl, ht, -⟩, -, hmt, htt, hv, h⟩
    refine ⟨m, t, v, rfl, ⟨hm, by simpa using hmt⟩, ⟨ht, ?_⟩, ?_, (Option.some.inj h).symm⟩
    · simpa [not_or] using htt
    · by_contra hn
      exact hv (not_or.mp hn)
  · rintro ⟨m, t, v, rfl, ⟨hm, hmt⟩, ⟨ht, htt⟩, hv, rfl⟩
    have hmsp : SP ∉ m := fun h => (isTokenCharacter_ne (hmt _ h)).1 rfl
    have htsp : SP ∉ t := fun h => absurd (htt _ h).1 (by decide)
    have hvsp : SP ∉ v := by rcases hv with rfl | rfl <;> decide
    refine ⟨m, _, ⟨rfl, hm, hmsp⟩, t, v, ⟨rfl, ht, htsp⟩, ?_, ?_, ?_, ?_, rfl⟩
    · exact not_not.mpr (List.idxOf_eq_length_iff.mpr hvsp)
    · simpa using hmt
    · simpa [not_or] using htt
    · exact fun hn => hv.elim hn.1 hn.2

/-- A header line is taken exactly when it reads NAME COLON VALUE with a name not seen before. -/
theorem processHeaderLine_eq_some {p p' : HttpParser} {line : Bytes} :
    p.processHeaderLine line = some p' ↔
      ∃ name value, line = name ++ COLON :: value ∧
        (name ≠ [] ∧ ∀ ch ∈ name, isTokenCharacter ch = true) ∧
        (∀ ch ∈ trim value, (0x20 ≤ ch ∨ ch = HTAB) ∧ ch ≠ 0x7F) ∧
        p.headers.lookup (toLowerAscii name) = none ∧
        p' = { p with headers := p.headers ++ [(toLowerAscii name, trim value)] } := by
  simp only [processHeaderLine, Option.bind_eq_some_iff, Prod.exists,
    Option.ite_none_left_eq_some, cutAt_eq_some]
  constructor
  · rintro ⟨n, v, ⟨rfl, hn, -⟩, hnt, hv, hl, h⟩
    refine ⟨n, v, rfl, ⟨hn, by simpa using hnt⟩, ?_, Option.not_isSome_iff_eq_none.mp hl,
      (Option.some.inj h).symm⟩
    simpa [not_or, or_iff_not_imp_left] using hv
  · rintro ⟨n, v, rfl, ⟨hn, hnt⟩, hv, hl, rfl⟩
    have hnc : COLON ∉ n := fun h => (isTokenCharacter_ne (hnt _ h)).2.1 rfl
    refine ⟨n, v, ⟨rfl, hn, hnc⟩, by simpa using hnt, ?_, Option.not_isSome_iff_eq_none.mpr hl, rfl⟩
    simpa [not_or, or_iff_not_imp_left] using hv

end HttpParser

end AegisNet
