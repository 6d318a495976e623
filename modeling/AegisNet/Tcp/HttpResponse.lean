import AegisNet.Lib.Lines
import AegisNet.Lib.SortedMap
import AegisNet.Tcp.HttpParser

/-!
# Responses

The response of `src/tcp/HttpResponse.{h,cpp}`: a record that its setters fill with any strings, and
its serialization into an output buffer. The headers are a `std::map`, so they are sent in the order
of their names, and the `Content-Length` of the body is added unless the map has that very name.

## Main definitions

- `HttpResponse`, `Setter` — the members of the class, and the calls that set them
- `HttpResponse.response`, `HttpResponse.appendToBuffer` — the serialization
- `HttpResponse.Settings` — what a list of calls says
- `HttpResponse.parts` — the serialization line by line

## Main results

- `HttpResponse.holds_build` — the response is what the calls say
- `HttpResponse.lines_response` — the lines of what is sent, whatever the strings are
-/

namespace AegisNet

/-- `HttpResponse::HttpStatusCode`. -/
inductive HttpStatusCode
  | kUnknown
  | k200Ok
  | k301MovedPermanently
  | k400BadRequest
  | k404NotFound
  deriving DecidableEq, Repr

def HttpStatusCode.value : HttpStatusCode → ℕ
  | kUnknown => 0
  | k200Ok => 200
  | k301MovedPermanently => 301
  | k400BadRequest => 400
  | k404NotFound => 404

/-- The members of the C++ class. -/
structure HttpResponse where
  statusCode : HttpStatusCode := .kUnknown
  statusMessage : Bytes := []
  headers : SortedMap Bytes Bytes := .empty
  body : Bytes := []
  closeConnection : Bool

namespace HttpResponse

def new (close : Bool) : HttpResponse := { closeConnection := close }

def setStatusCode (r : HttpResponse) (code : HttpStatusCode) : HttpResponse :=
  { r with statusCode := code }

def setStatusMessage (r : HttpResponse) (message : Bytes) : HttpResponse :=
  { r with statusMessage := message }

def setCloseConnection (r : HttpResponse) (on : Bool) : HttpResponse :=
  { r with closeConnection := on }

def addHeader (r : HttpResponse) (key value : Bytes) : HttpResponse :=
  { r with headers := r.headers.assign key value }

def setContentType (r : HttpResponse) (contentType : Bytes) : HttpResponse :=
  r.addHeader (text "Content-Type") contentType

def setBody (r : HttpResponse) (body : Bytes) : HttpResponse := { r with body := body }

/-- The string that `appendToBuffer` builds. `statusMessage_` is not part of it. -/
def response (r : HttpResponse) : Bytes :=
  text "HTTP/1.1 " ++ toDecimal r.statusCode.value ++ text " " ++
    (if r.statusCode = .k200Ok then text "OK\r\n"
      else if r.statusCode = .k404NotFound then text "Not Found\r\n"
      else if r.statusCode = .k400BadRequest then text "Bad Request\r\n"
      else text "Unknown\r\n") ++
    (if r.closeConnection then text "Connection: close\r\n"
      else text "Connection: Keep-Alive\r\n") ++
    (if (r.headers.entries.lookup (text "Content-Length")).isNone then
      text "Content-Length: " ++ toDecimal r.body.length ++ text "\r\n" else []) ++
    (r.headers.entries.flatMap fun header => header.1 ++ text ": " ++ header.2 ++ text "\r\n") ++
    text "\r\n" ++ r.body

def appendToBuffer (r : HttpResponse) (output : Buffer) : Buffer := output.append r.response

end HttpResponse

/-- A call of a setter. -/
inductive Setter
  | setStatusCode (code : HttpStatusCode)
  | setStatusMessage (message : Bytes)
  | setCloseConnection (on : Bool)
  | setContentType (contentType : Bytes)
  | addHeader (key value : Bytes)
  | setBody (body : Bytes)
  deriving DecidableEq

namespace HttpResponse

def set (r : HttpResponse) : Setter → HttpResponse
  | .setStatusCode code => r.setStatusCode code
  | .setStatusMessage message => r.setStatusMessage message
  | .setCloseConnection on => r.setCloseConnection on
  | .setContentType contentType => r.setContentType contentType
  | .addHeader key value => r.addHeader key value
  | .setBody body => r.setBody body

/-- The response that `HttpResponse(close)` and the calls leave. -/
def build (close : Bool) (calls : List Setter) : HttpResponse := calls.foldl set (new close)

/-! ## What the calls say -/

/-- What is to be sent: each member as the last call left it, the headers as a function. -/
structure Settings where
  statusCode : HttpStatusCode
  closeConnection : Bool
  headers : Bytes → Option Bytes
  body : Bytes

def Settings.set (s : Settings) : Setter → Settings
  | .setStatusCode code => { s with statusCode := code }
  | .setStatusMessage _ => s
  | .setCloseConnection on => { s with closeConnection := on }
  | .setContentType contentType =>
    { s with headers := Function.update s.headers (text "Content-Type") (some contentType) }
  | .addHeader key value => { s with headers := Function.update s.headers key (some value) }
  | .setBody body => { s with body := body }

def settings (close : Bool) (calls : List Setter) : Settings :=
  calls.foldl Settings.set ⟨.kUnknown, close, fun _ => none, []⟩

/-- The response holds the settings, with an entry of the map for each header. -/
structure Holds (r : HttpResponse) (s : Settings) : Prop where
  statusCode : r.statusCode = s.statusCode
  closeConnection : r.closeConnection = s.closeConnection
  headers : ∀ name value, (name, value) ∈ r.headers.entries ↔ s.headers name = some value
  body : r.body = s.body

theorem holds_new (close : Bool) : Holds (new close) ⟨.kUnknown, close, fun _ => none, []⟩ where
  statusCode := rfl
  closeConnection := rfl
  headers := by
    intro name value
    simp [new, SortedMap.empty]
  body := rfl

theorem Holds.assign {r : HttpResponse} {s : Settings} (h : Holds r s) (key new : Bytes) :
    ∀ name value, (name, value) ∈ (r.headers.assign key new).entries ↔
      Function.update s.headers key (some new) name = some value := by
  intro name value
  rw [SortedMap.mem_assign]
  by_cases hname : name = key
  · subst hname
    rw [Function.update_self]
    simp [eq_comm]
  · rw [Function.update_of_ne hname]
    simp [hname, h.headers name value]

theorem Holds.set {r : HttpResponse} {s : Settings} (h : Holds r s) (call : Setter) :
    Holds (r.set call) (s.set call) := by
  cases call with
  | setStatusCode code => exact { h with statusCode := rfl }
  | setStatusMessage message => exact { h with }
  | setCloseConnection on => exact { h with closeConnection := rfl }
  | setContentType contentType => exact { h with headers := h.assign _ _ }
  | addHeader key value => exact { h with headers := h.assign _ _ }
  | setBody body => exact { h with body := rfl }

/-- **The setters** leave what the last calls said, in any order. -/
theorem holds_build (close : Bool) (calls : List Setter) :
    Holds (build close calls) (settings close calls) := by
  unfold build settings
  induction calls using List.reverseRecOn with
  | nil => exact holds_new close
  | append_singleton calls call ih =>
    rw [List.foldl_append, List.foldl_append]
    exact ih.set call

/-! ## Line by line -/

/-- The status line. -/
def statusLine (r : HttpResponse) : Bytes :=
  text "HTTP/1.1 " ++ toDecimal r.statusCode.value ++ text " " ++
    (if r.statusCode = .k200Ok then text "OK"
      else if r.statusCode = .k404NotFound then text "Not Found"
      else if r.statusCode = .k400BadRequest then text "Bad Request"
      else text "Unknown")

def connectionLine (r : HttpResponse) : Bytes :=
  if r.closeConnection then text "Connection: close" else text "Connection: Keep-Alive"

/-- The line that is added where the map does not have its name. -/
def lengthLines (r : HttpResponse) : List Bytes :=
  if (r.headers.entries.lookup (text "Content-Length")).isNone then
    [text "Content-Length: " ++ toDecimal r.body.length] else []

/-- What is sent for an entry of the map. -/
def headerText (header : Bytes × Bytes) : Bytes := header.1 ++ text ": " ++ header.2

/-- The parts that are each sent with a CR LF behind them, up to the blank line. -/
def parts (r : HttpResponse) : List Bytes :=
  r.statusLine :: r.connectionLine :: (r.lengthLines ++ r.headers.entries.map headerText)

/-- The last piece of the status line is the one of its line, with the separator. -/
theorem reason_crlf (r : HttpResponse) :
    (if r.statusCode = .k200Ok then text "OK\r\n"
      else if r.statusCode = .k404NotFound then text "Not Found\r\n"
      else if r.statusCode = .k400BadRequest then text "Bad Request\r\n"
      else text "Unknown\r\n") =
    (if r.statusCode = .k200Ok then text "OK"
      else if r.statusCode = .k404NotFound then text "Not Found"
      else if r.statusCode = .k400BadRequest then text "Bad Request"
      else text "Unknown") ++ Buffer.kCRLF := by
  cases r.statusCode <;> decide

theorem connection_crlf (r : HttpResponse) :
    (if r.closeConnection then text "Connection: close\r\n"
      else text "Connection: Keep-Alive\r\n") = r.connectionLine ++ Buffer.kCRLF := by
  unfold connectionLine
  cases r.closeConnection <;> decide

theorem text_crlf : text "\r\n" = Buffer.kCRLF := by decide

/-- **The serialization**: each part with CR LF behind it, CR LF, and the body. -/
theorem response_eq (r : HttpResponse) :
    r.response = (r.parts.flatMap fun part => part ++ Buffer.kCRLF) ++ Buffer.kCRLF ++ r.body := by
  have hlength : (if (r.headers.entries.lookup (text "Content-Length")).isNone then
      text "Content-Length: " ++ toDecimal r.body.length ++ text "\r\n" else []) =
      r.lengthLines.flatMap fun part => part ++ Buffer.kCRLF := by
    unfold lengthLines
    split
    · rw [List.flatMap_singleton, text_crlf]
    · rfl
  unfold response
  rw [reason_crlf, connection_crlf, hlength, text_crlf]
  simp only [parts, statusLine, headerText, List.flatMap_cons, List.flatMap_append,
    List.flatMap_map, List.append_assoc]

/-! ## The lines -/

/-- A string as it is split at CR LF. -/
def pieces (s : Bytes) : List Bytes := Lines.lines 0x0D 0x0A s

theorem pieces_of_notMem {s : Bytes} (h : 0x0D ∉ s) : pieces s = [s] :=
  Lines.lines_of_notMem _ _ h

/-- Parts that each have CR LF behind them, up to a blank line. -/
theorem pieces_flatMap (parts : List Bytes) (rest : Bytes) :
    pieces ((parts.flatMap fun part => part ++ Buffer.kCRLF) ++ Buffer.kCRLF ++ rest) =
      parts.flatMap pieces ++ [] :: pieces rest := by
  induction parts with
  | nil => exact Lines.lines_sep rest
  | cons part parts ih =>
    have hsplit : ((part :: parts).flatMap fun part => part ++ Buffer.kCRLF) ++ Buffer.kCRLF ++ rest =
        part ++ 0x0D :: 0x0A ::
          ((parts.flatMap fun part => part ++ Buffer.kCRLF) ++ Buffer.kCRLF ++ rest) := by
      simp [Buffer.kCRLF]
    calc pieces (((part :: parts).flatMap fun part => part ++ Buffer.kCRLF) ++ Buffer.kCRLF ++ rest)
        = pieces part ++
            pieces ((parts.flatMap fun part => part ++ Buffer.kCRLF) ++ Buffer.kCRLF ++ rest) := by
          rw [hsplit]
          exact Lines.lines_append (by decide) part _
      _ = (part :: parts).flatMap pieces ++ [] :: pieces rest := by
          rw [ih, List.flatMap_cons, List.append_assoc]

/-- **The lines that are sent**, whatever the strings are: those of the parts, the blank line that
    ends them, and those of the body and of what comes after it. -/
theorem lines_response (r : HttpResponse) (suffix : Bytes) :
    pieces (r.response ++ suffix) = r.parts.flatMap pieces ++ [] :: pieces (r.body ++ suffix) := by
  rw [response_eq, List.append_assoc, pieces_flatMap]

/-! ## Numbers in decimal -/

theorem isDigit_digit : ∀ digit < 10, isDigit (UInt8.ofNat (0x30 + digit)) = true := by decide

theorem isDigit_of_mem_toDecimal {n : ℕ} {ch : UInt8} (h : ch ∈ toDecimal n) :
    isDigit ch = true := by
  unfold toDecimal at h
  split at h
  · rw [List.mem_singleton.mp h]
    rfl
  · obtain ⟨digit, hdigit, rfl⟩ := List.mem_map.mp h
    exact isDigit_digit digit (Nat.digits_lt_base (by decide) (List.mem_reverse.mp hdigit))

theorem cr_notMem_toDecimal (n : ℕ) : 0x0D ∉ toDecimal n :=
  fun h => absurd (isDigit_of_mem_toDecimal h) (by decide)

end HttpResponse

end AegisNet
