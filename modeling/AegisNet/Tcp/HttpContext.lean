import AegisNet.Tcp.Buffer.Views
import AegisNet.Tcp.HttpParser

/-!
# The request parser with views

The incremental parser of `src/tcp/HttpContext.{h,cpp}` and the request of `src/tcp/HttpRequest.h`
it fills. The request copies no bytes: its path, its header names and its header values are views
into the storage of the buffer, and every access to them reads that storage as it is then.

## Main definitions

- `HttpRequest`, `HttpRequest.addHeader`, `HttpRequest.getHeader`
- `HttpContext` — the parser state and the request
- `HttpContext.parseRequest` — one call; `none` when its loop never ends
-/

namespace AegisNet

/-- `GET` -/
def methodGET : Bytes := [0x47, 0x45, 0x54]

/-- `POST` -/
def methodPOST : Bytes := [0x50, 0x4F, 0x53, 0x54]

/-- `std::isspace` in the C locale. -/
def isSpace (ch : UInt8) : Bool := ch == SP || (0x09 ≤ ch && ch ≤ 0x0D)

/-! ## The request -/

/-- `HttpRequest::Method`. -/
inductive HttpRequest.Method
  | invalid
  | get
  | post
  | head
  | put
  | delete
  deriving DecidableEq, Repr

/-- `HttpRequest::Version`. -/
inductive HttpRequest.Version
  | unknown
  | http10
  | http11
  deriving DecidableEq, Repr

/-- The members of the C++ class that the parser sets, with the defaults of the constructor. The
    map is kept as the list of its entries. -/
structure HttpRequest where
  method : HttpRequest.Method := .invalid
  version : HttpRequest.Version := .unknown
  path : View := View.empty
  headers : List (View × View) := []

namespace HttpRequest

/-- `setMethod` for the methods that `processRequestLine` knows. -/
def recognize (method : Method) (name : Bytes) : Method :=
  if name = methodGET then .get
  else if name = methodPOST then .post
  else method

/-- `headers_[field] = value`. An entry whose key shows the same bytes keeps its key; a key whose
    bytes have been freed is equal to none. -/
def assign (b : StoredBuffer) (field value : View) : List (View × View) → List (View × View)
  | [] => [(field, value)]
  | (key, old) :: entries =>
    if b.read key = b.read field then (key, value) :: entries
    else (key, old) :: assign b field value entries

/-- `addHeader(peek(), colon, crlf)`, with `colon` and `crlf` as distances from `peek()`. -/
def addHeader (r : HttpRequest) (b : StoredBuffer) (colon crlf : ℕ) : HttpRequest :=
  let blanks := (((b.readable.take crlf).drop (colon + 1)).takeWhile isSpace).length
  let start := colon + 1 + blanks
  { r with headers := assign b (b.view 0 colon) (b.view start (crlf - start)) r.headers }

/-- `none` is a read of freed memory. -/
def getPath (r : HttpRequest) (b : StoredBuffer) : Option Bytes := b.read r.path

def getHeader (r : HttpRequest) (b : StoredBuffer) (field : Bytes) : Option Bytes :=
  match r.headers.find? fun entry => b.read entry.1 = some field with
  | some entry => b.read entry.2
  | none => some []

/-- Everything the request points at. -/
def views (r : HttpRequest) : List View :=
  r.path :: r.headers.flatMap fun entry => [entry.1, entry.2]

end HttpRequest

/-! ## The parser -/

/-- `HttpContext::HttpRequestParseState`. -/
inductive HttpContext.ParseState
  | expectRequestLine
  | expectHeaders
  | expectBody
  | gotAll
  deriving DecidableEq, Repr

/-- The members of the C++ class. -/
structure HttpContext where
  state : HttpContext.ParseState := .expectRequestLine
  request : HttpRequest := {}

namespace HttpContext

def new : HttpContext := {}

def gotAll (c : HttpContext) : Bool := c.state = .gotAll

def reset (_c : HttpContext) : HttpContext := { state := .expectRequestLine, request := {} }

/-- `processRequestLine(peek(), crlf)`, with `crlf` as a distance from `peek()`: the result, and
    the request with what has been set by then. -/
def processRequestLine (r : HttpRequest) (b : StoredBuffer) (crlf : ℕ) : Bool × HttpRequest :=
  let line := b.readable.take crlf
  let space := line.idxOf SP
  if space = line.length then (false, r)
  else
    let r := { r with method := HttpRequest.recognize r.method (line.take space) }
    let start := space + 1
    let space := start + (line.drop start).idxOf SP
    if space = line.length then (false, r)
    else
      let r := { r with path := b.view start (space - start) }
      let version := line.drop (space + 1)
      if version = http10 then (true, { r with version := .http10 })
      else if version = http11 then (true, { r with version := .http11 })
      else (false, r)

/-- How a round of the loop ends: with `hasMore`, without it, or with nothing changed. -/
inductive LoopStep
  | again (c : HttpContext) (b : StoredBuffer)
  | done (ok : Bool) (c : HttpContext) (b : StoredBuffer)
  | stuck

/-- The body of the `while (hasMore)` loop of `parseRequest`. -/
def iteration (c : HttpContext) (b : StoredBuffer) : LoopStep :=
  match c.state with
  | .expectRequestLine =>
    match b.buf.findCRLF with
    | none => .done true c b
    | some crlf =>
      match processRequestLine c.request b crlf with
      | (true, r) => .again { state := .expectHeaders, request := r } (b.retrieveUntil (crlf + 2))
      | (false, r) => .done false { c with request := r } b
  | .expectHeaders =>
    match b.buf.findCRLF with
    | none => .done true c b
    | some crlf =>
      let colon := (b.readable.take crlf).idxOf COLON
      if colon ≠ crlf then
        .again { c with request := c.request.addHeader b colon crlf } (b.retrieveUntil (crlf + 2))
      else .done true { c with state := .gotAll } (b.retrieveUntil (crlf + 2))
  -- the one branch is empty, the other is missing: `hasMore` stays `true`
  | .expectBody | .gotAll => .stuck

/-- Every round that goes on has used up a line. -/
theorem readableBytes_lt_of_again {c c' : HttpContext} {b b' : StoredBuffer}
    (h : c.iteration b = .again c' b') : b'.buf.readableBytes < b.buf.readableBytes := by
  rw [iteration] at h
  cases hs : c.state with
  | expectRequestLine =>
    simp only [hs] at h
    split at h
    · cases h
    · next hcrlf =>
      split at h
      · cases h
        exact HttpParser.readableBytes_retrieveUntil_lt hcrlf
      · cases h
  | expectHeaders =>
    simp only [hs] at h
    split at h
    · cases h
    · next hcrlf =>
      split at h
      · cases h
        exact HttpParser.readableBytes_retrieveUntil_lt hcrlf
      · cases h
  | expectBody => simp only [hs] at h; cases h
  | gotAll => simp only [hs] at h; cases h

/-- The loop of `parseRequest`. -/
def parseLoop (c : HttpContext) (b : StoredBuffer) : Option (Bool × HttpContext × StoredBuffer) :=
  match _h : c.iteration b with
  | .done ok c' b' => some (ok, c', b')
  | .again c' b' => parseLoop c' b'
  | .stuck => none
termination_by b.buf.readableBytes
decreasing_by exact readableBytes_lt_of_again _h

theorem parseLoop_of_again {c c' : HttpContext} {b b' : StoredBuffer}
    (h : c.iteration b = .again c' b') : c.parseLoop b = c'.parseLoop b' := by
  rw [parseLoop, h]

theorem parseLoop_of_done {c c' : HttpContext} {b b' : StoredBuffer} {ok : Bool}
    (h : c.iteration b = .done ok c' b') : c.parseLoop b = some (ok, c', b') := by
  rw [parseLoop, h]

/-- The result, the context and the buffer after `parseRequest(&buf)`. -/
def parseRequest (c : HttpContext) (b : StoredBuffer) :
    Option (Bool × HttpContext × StoredBuffer) :=
  c.parseLoop b

end HttpContext

end AegisNet
