import AegisNet.Tcp.HttpContext
import AegisNet.Tcp.HttpParser.Grammar
import Mathlib.Data.List.Forall2

/-!
# The heads that the parser with views takes

As long as nobody stores under the views of its request, an `HttpContext` works like a parser that
copies: `HttpHead` is that parser, and `HttpContext.Shows` says that the views of a context show
what it has copied. The copying parser is an incremental consumer.

## Main definitions

- `HttpHead`, `HttpHead.consumer` — what a context shows, and the parser that copies it
- `HttpContext.Shows` — the views of a context show a head

## Main results

- `HttpContext.parseRequest_agrees` — `parseRequest` is the drain of the copying parser
-/

namespace AegisNet

open ListSearch Buffer

/-! ## The copying parser -/

/-- `std::find` of a delimiter in a range: the parts around it, when there is one. -/
def splitAt (delimiter : UInt8) (range : Bytes) : Option (Bytes × Bytes) :=
  let found := range.idxOf delimiter
  if found = range.length then none
  else some (range.take found, range.drop (found + 1))

theorem splitAt_eq_some {c : UInt8} {l x y : Bytes} :
    splitAt c l = some (x, y) ↔ l = x ++ c :: y ∧ c ∉ x := by
  simp only [splitAt, Option.ite_none_left_eq_some, Option.some.injEq, Prod.mk.injEq]
  constructor
  · rintro ⟨hlen, rfl, rfl⟩
    have hmem : c ∈ l := by
      by_contra hn
      exact hlen (List.idxOf_eq_length_iff.mpr hn)
    exact ⟨eq_take_idxOf hmem, notMem_take_idxOf c l⟩
  · rintro ⟨rfl, hc⟩
    rw [idxOf_append_cons hc]
    refine ⟨?_, List.take_left, ?_⟩
    · rw [List.length_append, List.length_cons]
      omega
    · rw [← List.drop_drop, List.drop_left, List.drop_one, List.tail_cons]

theorem splitAt_eq_none {c : UInt8} {l : Bytes} : splitAt c l = none ↔ c ∉ l := by
  simp only [splitAt, ite_eq_left_iff, reduceCtorEq, imp_false, not_not]
  exact List.idxOf_eq_length_iff

/-- What a context has collected, with the bytes in the place of the views. -/
structure HttpHead where
  state : HttpContext.ParseState := .expectRequestLine
  method : HttpRequest.Method := .invalid
  version : HttpRequest.Version := .unknown
  path : Bytes := []
  headers : List (Bytes × Bytes) := []

namespace HttpHead

def new : HttpHead := {}

/-- Assignment to an entry of the header map. -/
def assign (field value : Bytes) : List (Bytes × Bytes) → List (Bytes × Bytes)
  | [] => [(field, value)]
  | (key, old) :: entries =>
    if key = field then (key, value) :: entries else (key, old) :: assign field value entries

def getHeader (h : HttpHead) (field : Bytes) : Bytes :=
  match h.headers.find? fun entry => entry.1 = field with
  | some entry => entry.2
  | none => []

/-- A header line, as the parts around its colon. -/
def addHeader (h : HttpHead) (field afterColon : Bytes) : HttpHead :=
  { h with headers := assign field (afterColon.dropWhile isSpace) h.headers }

def versionOf (version : Bytes) : Option HttpRequest.Version :=
  if version = http10 then some .http10 else if version = http11 then some .http11 else none

/-- A request line, without its CR LF. -/
def requestLine (h : HttpHead) (line : Bytes) : Option HttpHead :=
  (splitAt SP line).bind fun (method, afterMethod) =>
    (splitAt SP afterMethod).bind fun (target, version) =>
      (versionOf version).map fun version =>
        { h with
          state := .expectHeaders
          method := HttpRequest.recognize h.method method
          path := target
          version := version }

/-- A line behind the request line, without its CR LF. -/
def headerLine (h : HttpHead) (line : Bytes) : HttpHead :=
  match splitAt COLON line with
  | some (field, afterColon) => h.addHeader field afterColon
  | none => { h with state := .gotAll }

/-- One line, and how many bytes it uses; `none` where the parser waits, and where it refuses a
    request line. -/
def move (h : HttpHead) (b : Bytes) : Option (HttpHead × ℕ) :=
  match h.state with
  | .expectRequestLine =>
    (search kCRLF b).bind fun crlf => (h.requestLine (b.take crlf)).map fun h' => (h', crlf + 2)
  | .expectHeaders => (search kCRLF b).map fun crlf => (h.headerLine (b.take crlf), crlf + 2)
  | .expectBody | .gotAll => none

/-- A move takes a line with its CR LF off the front. -/
theorem move_eq_some {h h' : HttpHead} {b : Bytes} {k : ℕ} :
    h.move b = some (h', k) ↔ ∃ crlf, search kCRLF b = some crlf ∧ k = crlf + 2 ∧
      (h.state = .expectRequestLine ∧ h.requestLine (b.take crlf) = some h' ∨
        h.state = .expectHeaders ∧ h.headerLine (b.take crlf) = h') := by
  cases hs : h.state with
  | expectRequestLine =>
    simp only [move, hs, Option.bind_eq_some_iff, Option.map_eq_some_iff, Prod.mk.injEq]
    constructor
    · rintro ⟨crlf, hc, q, hq, rfl, rfl⟩
      exact ⟨crlf, hc, rfl, .inl ⟨trivial, hq⟩⟩
    · rintro ⟨crlf, hc, rfl, ⟨-, hq⟩ | ⟨hn, -⟩⟩
      · exact ⟨crlf, hc, h', hq, rfl, rfl⟩
      · cases hn
  | expectHeaders =>
    simp only [move, hs, Option.map_eq_some_iff, Prod.mk.injEq]
    constructor
    · rintro ⟨crlf, hc, hq, rfl⟩
      exact ⟨crlf, hc, rfl, .inr ⟨trivial, hq⟩⟩
    · rintro ⟨crlf, hc, rfl, ⟨hn, -⟩ | ⟨-, hq⟩⟩
      · cases hn
      · exact ⟨crlf, hc, hq, rfl⟩
  | expectBody => simp [move, hs]
  | gotAll => simp [move, hs]

/-- A move uses bytes that are there, and what arrives behind them does not change it. -/
theorem move_append {h h' : HttpHead} {b : Bytes} {k : ℕ} (hm : h.move b = some (h', k)) :
    2 ≤ k ∧ k ≤ b.length ∧ ∀ e, h.move (b ++ e) = some (h', k) := by
  obtain ⟨crlf, hc, rfl, hline⟩ := move_eq_some.mp hm
  have hle := HttpParser.search_kCRLF_le hc
  refine ⟨by omega, hle, fun e => move_eq_some.mpr ⟨crlf, search_append hc e, rfl, ?_⟩⟩
  rwa [List.take_append_of_le_length (by omega)]

/-- The copying parser as an incremental consumer of bytes. -/
def consumer : Consumer HttpHead UInt8 where
  step h b := (h.move b).map fun (h', k) => (h', b.drop k)
  rank _ b := b.length
  stable := by
    intro h b h' b' hm e
    simp only [Option.map_eq_some_iff, Prod.exists, Prod.mk.injEq] at hm ⊢
    obtain ⟨q, k, hm, rfl, rfl⟩ := hm
    obtain ⟨-, hk, hm'⟩ := move_append hm
    exact ⟨q, k, hm' e, rfl, List.drop_append_of_le_length hk⟩
  decreasing := by
    intro h b h' b' hm
    simp only [Option.map_eq_some_iff, Prod.exists, Prod.mk.injEq] at hm
    obtain ⟨q, k, hm, rfl, rfl⟩ := hm
    obtain ⟨hpos, hk, -⟩ := move_append hm
    rw [List.length_drop]
    omega

theorem drain_of_move_none {h : HttpHead} {b : Bytes} (hm : h.move b = none) :
    consumer.drain h b = (h, b) :=
  consumer.drain_of_none (by simp [consumer, hm])

theorem drain_of_move {h h' : HttpHead} {b : Bytes} {k : ℕ} (hm : h.move b = some (h', k)) :
    consumer.drain h b = consumer.drain h' (b.drop k) :=
  consumer.drain_of_some (by simp [consumer, hm])

theorem move_of_gotAll {h : HttpHead} (hs : h.state = .gotAll) (b : Bytes) : h.move b = none := by
  rw [move, hs]

end HttpHead

/-! ## What the views show -/

/-- An entry of the header map shows a name and a value. -/
def ShowsEntry (b : StoredBuffer) (entry : View × View) (x : Bytes × Bytes) : Prop :=
  b.Shows entry.1 x.1 ∧ b.Shows entry.2 x.2

namespace HttpContext

/-- With the storage of `b`, the context `c` shows the head `h`. -/
structure Shows (c : HttpContext) (b : StoredBuffer) (h : HttpHead) : Prop where
  state : c.state = h.state
  method : c.request.method = h.method
  version : c.request.version = h.version
  path : b.Shows c.request.path h.path
  headers : List.Forall₂ (ShowsEntry b) c.request.headers h.headers

variable {c : HttpContext} {b b' : StoredBuffer} {h : HttpHead}

theorem shows_new (b : StoredBuffer) : new.Shows b .new :=
  ⟨rfl, rfl, rfl, b.shows_empty, .nil⟩

/-- What a context shows depends on the bytes under its views alone. -/
theorem Shows.of_views (hc : c.Shows b h)
    (hviews : ∀ v ∈ c.request.views, ∀ x, b.Shows v x → b'.Shows v x) : c.Shows b' h := by
  have hentries : ∀ e ∈ c.request.headers, ∀ v, v = e.1 ∨ v = e.2 →
      ∀ x, b.Shows v x → b'.Shows v x := by
    intro e he v hv
    apply hviews
    exact List.mem_cons_of_mem _ (List.mem_flatMap.mpr ⟨e, he, by simpa using hv⟩)
  refine ⟨hc.state, hc.method, hc.version, ?_, ?_⟩
  · exact hviews _ (List.mem_cons_self ..) _ hc.path
  · have hboth := (List.forall₂_and_left _ _).mpr ⟨hentries, hc.headers⟩
    apply hboth.imp
    rintro e x ⟨hkeep, h1, h2⟩
    exact ⟨hkeep _ (.inl rfl) _ h1, hkeep _ (.inr rfl) _ h2⟩

theorem Shows.retrieveUntil (hc : c.Shows b h) (endOffset : ℕ) :
    c.Shows (b.retrieveUntil endOffset) h :=
  hc.of_views fun _ _ _ hv => hv.retrieveUntil endOffset

/-- Assigning to an entry compares what the keys show. -/
theorem forall₂_assign {field value : View} {f v : Bytes} (hf : b.Shows field f)
    (hv : b.Shows value v) {entries : List (View × View)} {xs : List (Bytes × Bytes)}
    (h : List.Forall₂ (ShowsEntry b) entries xs) :
    List.Forall₂ (ShowsEntry b) (HttpRequest.assign b field value entries)
      (HttpHead.assign f v xs) := by
  induction h with
  | nil => exact .cons ⟨hf, hv⟩ .nil
  | @cons e x es xs hx hrest ih =>
    have hkey : b.read e.1 = b.read field ↔ x.1 = f := by
      rw [hx.1.1, hf.1, Option.some.injEq]
    simp only [HttpRequest.assign, HttpHead.assign, hkey]
    split
    · exact .cons ⟨hx.1, hv⟩ hrest
    · exact .cons hx ih

/-- So does looking one up. -/
theorem Shows.getHeader (hc : c.Shows b h) (field : Bytes) :
    c.request.getHeader b field = some (h.getHeader field) := by
  have hh := hc.headers
  unfold HttpRequest.getHeader HttpHead.getHeader
  generalize c.request.headers = entries at hh
  generalize h.headers = xs at hh
  induction hh with
  | nil => rfl
  | @cons e x es xs hx hrest ih =>
    by_cases hk : x.1 = field
    · have he : b.read e.1 = some field := by rw [hx.1.1, hk]
      simp only [List.find?_cons, hk, he, decide_true]
      exact hx.2.1
    · have he : ¬ b.read e.1 = some field := by
        rw [hx.1.1, Option.some.injEq]
        exact hk
      simp only [List.find?_cons, hk, he, decide_false]
      exact ih

/-! ## `parseRequest` is the drain -/

/-- A view into the front of the readable bytes. -/
theorem shows_view_line {x y z rest : Bytes} (hb : b.readable = x ++ y ++ z ++ rest) :
    b.Shows (b.view x.length y.length) y := by
  have hfit : x.length + y.length ≤ b.readable.length := by simp [hb]
  have h := b.shows_view hfit
  rwa [hb, List.append_assoc, List.append_assoc, List.drop_left, List.take_left] at h

theorem idxOf_of_splitAt {d : UInt8} {l x y : Bytes} (h : splitAt d l = some (x, y)) :
    l.idxOf d = x.length ∧ l.take x.length = x ∧ l.drop (x.length + 1) = y ∧
      l.length = x.length + 1 + y.length := by
  obtain ⟨rfl, hx⟩ := splitAt_eq_some.mp h
  refine ⟨idxOf_append_cons hx y, List.take_left, ?_, ?_⟩
  · rw [← List.drop_drop, List.drop_left, List.drop_one, List.tail_cons]
  · rw [List.length_append, List.length_cons]
    omega

theorem idxOf_of_splitAt_none {d : UInt8} {l : Bytes} (h : splitAt d l = none) :
    l.idxOf d = l.length :=
  List.idxOf_eq_length_iff.mpr (splitAt_eq_none.mp h)

/-- The parser with views refuses the request lines that the copying parser refuses. -/
theorem processRequestLine_refuses {r : HttpRequest} {crlf : ℕ}
    (hl : h.requestLine (b.readable.take crlf) = none) :
    (processRequestLine r b crlf).1 = false := by
  generalize hline : b.readable.take crlf = line at hl
  simp only [processRequestLine, hline]
  cases h1 : splitAt SP line with
  | none => rw [if_pos (idxOf_of_splitAt_none h1)]
  | some xy =>
    obtain ⟨m, am⟩ := xy
    obtain ⟨hi1, -, hd1, hlen1⟩ := idxOf_of_splitAt h1
    rw [hi1, if_neg (by omega), hd1]
    cases h2 : splitAt SP am with
    | none =>
      rw [idxOf_of_splitAt_none h2, if_pos hlen1.symm]
    | some tv =>
      obtain ⟨t, v⟩ := tv
      obtain ⟨hi2, -, hd2, hlen2⟩ := idxOf_of_splitAt h2
      have hv : line.drop (m.length + 1 + t.length + 1) = v := by
        rw [show m.length + 1 + t.length + 1 = (m.length + 1) + (t.length + 1) by omega,
          ← List.drop_drop, hd1, hd2]
      simp only [HttpHead.requestLine, h1, h2, Option.bind_some, Option.map_eq_none_iff,
        HttpHead.versionOf] at hl
      rw [hi2, if_neg (by omega), hv]
      split at hl
      · cases hl
      · next h10 =>
        split at hl
        · cases hl
        · next h11 => rw [if_neg h10, if_neg h11]

/-- A request line that is taken is shown. -/
theorem processRequestLine_takes {h' : HttpHead} {crlf : ℕ} (hc : c.Shows b h)
    (hl : h.requestLine (b.readable.take crlf) = some h') :
    ∃ r, processRequestLine c.request b crlf = (true, r) ∧
      Shows { state := .expectHeaders, request := r } b h' := by
  have hread := (List.take_append_drop crlf b.readable).symm
  generalize hline : b.readable.take crlf = line at hl hread
  simp only [HttpHead.requestLine, Option.bind_eq_some_iff, Option.map_eq_some_iff,
    Prod.exists] at hl
  obtain ⟨m, am, h1, t, v, h2, version, hv, rfl⟩ := hl
  obtain ⟨hi1, ht1, hd1, hlen1⟩ := idxOf_of_splitAt h1
  obtain ⟨hi2, -, hd2, hlen2⟩ := idxOf_of_splitAt h2
  have hversion : line.drop (m.length + 1 + t.length + 1) = v := by
    rw [show m.length + 1 + t.length + 1 = (m.length + 1) + (t.length + 1) by omega,
      ← List.drop_drop, hd1, hd2]
  have hpath : b.Shows (b.view (m.length + 1) t.length) t := by
    obtain ⟨hm, -⟩ := splitAt_eq_some.mp h1
    obtain ⟨ht, -⟩ := splitAt_eq_some.mp h2
    have hsplit : b.readable = (m ++ [SP]) ++ t ++ (SP :: v) ++ b.readable.drop crlf := by
      conv_lhs => rw [hread, hm, ht]
      simp
    have := shows_view_line hsplit
    rwa [List.length_append, List.length_singleton] at this
  have hsub : m.length + 1 + t.length - (m.length + 1) = t.length := by omega
  have hstart : ∀ version : HttpRequest.Version,
      Shows { state := .expectHeaders
              request := { c.request with
                method := HttpRequest.recognize c.request.method m
                path := b.view (m.length + 1) t.length
                version := version } } b
        { h with
          state := .expectHeaders
          method := HttpRequest.recognize h.method m
          path := t
          version := version } := fun version =>
    ⟨rfl, congrArg (HttpRequest.recognize · m) hc.method, rfl, hpath, hc.headers⟩
  simp only [processRequestLine, hline]
  rw [hi1, if_neg (by omega), ht1, hd1, hi2, if_neg (by omega), hversion, hsub]
  rw [HttpHead.versionOf] at hv
  split at hv
  · next h10 =>
    cases hv
    rw [if_pos h10]
    exact ⟨_, rfl, hstart _⟩
  · next h10 =>
    split at hv
    · next h11 =>
      cases hv
      rw [if_neg h10, if_pos h11]
      exact ⟨_, rfl, hstart _⟩
    · cases hv

/-- So is a header line. -/
theorem shows_addHeader {field afterColon : Bytes} {crlf : ℕ} (hc : c.Shows b h)
    (hcrlf : crlf ≤ b.readable.length)
    (hl : splitAt COLON (b.readable.take crlf) = some (field, afterColon)) :
    Shows { c with request := c.request.addHeader b field.length crlf } b
      (h.addHeader field afterColon) := by
  have hread := (List.take_append_drop crlf b.readable).symm
  obtain ⟨-, -, hd, hlen⟩ := idxOf_of_splitAt hl
  obtain ⟨hline, -⟩ := splitAt_eq_some.mp hl
  have hcut := List.takeWhile_append_dropWhile (p := isSpace) (l := afterColon)
  have hlencut := congrArg List.length hcut
  rw [List.length_append] at hlencut
  rw [List.length_take, min_eq_left hcrlf] at hlen
  have hf : b.Shows (b.view 0 field.length) field := by
    have hsplit : b.readable = [] ++ field ++ (COLON :: afterColon) ++ b.readable.drop crlf := by
      conv_lhs => rw [hread, hline]
      simp
    exact shows_view_line hsplit
  have hv : b.Shows (b.view (field.length + 1 + (afterColon.takeWhile isSpace).length)
      (crlf - (field.length + 1 + (afterColon.takeWhile isSpace).length)))
        (afterColon.dropWhile isSpace) := by
    have hsplit : b.readable = (field ++ [COLON] ++ afterColon.takeWhile isSpace) ++
        afterColon.dropWhile isSpace ++ [] ++ b.readable.drop crlf := by
      conv_lhs => rw [hread, hline]
      conv_lhs => rw [← hcut]
      simp
    have := shows_view_line hsplit
    rw [List.length_append, List.length_append, List.length_singleton] at this
    rw [show crlf - (field.length + 1 + (afterColon.takeWhile isSpace).length) =
      (afterColon.dropWhile isSpace).length by omega]
    exact this
  refine ⟨hc.state, hc.method, hc.version, hc.path, ?_⟩
  simp only [HttpRequest.addHeader, hd]
  exact forall₂_assign hf hv hc.headers

/-- What a round of the loop has to do with the drain `x` of the head shown. -/
def LoopStep.Agrees (x : HttpHead × Bytes) : LoopStep → Prop
  | .again c b => ∃ h, c.Shows b h ∧ (c.state = .expectRequestLine ∨ c.state = .expectHeaders) ∧
      x = HttpHead.consumer.drain h b.readable
  | .done ok c b => c.state = x.1.state ∧ b.readable = x.2 ∧
      (ok = true → c.Shows b x.1) ∧
      -- a request line that is refused is refused for good
      (ok = false → c.state = .expectRequestLine ∧ ∀ e, x.1.move (x.2 ++ e) = none)
  | .stuck => False

/-- Without the end of a line the loop waits. -/
theorem agrees_of_incomplete (hc : c.Shows b h)
    (hlive : c.state = .expectRequestLine ∨ c.state = .expectHeaders)
    (hcr : search kCRLF b.readable = none) :
    (c.iteration b).Agrees (HttpHead.consumer.drain h b.readable) := by
  have hfind : b.buf.findCRLF = none := hcr
  have hm : h.move b.readable = none := by
    rcases hlive with hs | hs
    · simp [HttpHead.move, hc.state ▸ hs, hcr]
    · simp [HttpHead.move, hc.state ▸ hs, hcr]
  have hi : c.iteration b = .done true c b := by
    rcases hlive with hs | hs
    · simp only [iteration, hs, hfind]
    · simp only [iteration, hs, hfind]
  rw [hi, HttpHead.drain_of_move_none hm]
  exact ⟨hc.state, rfl, fun _ => hc, fun hn => by cases hn⟩

theorem agrees_of_requestLine {crlf : ℕ} (hc : c.Shows b h) (hs : c.state = .expectRequestLine)
    (hcr : search kCRLF b.readable = some crlf) :
    (c.iteration b).Agrees (HttpHead.consumer.drain h b.readable) := by
  have hfind : b.buf.findCRLF = some crlf := hcr
  have hhs : h.state = .expectRequestLine := hc.state ▸ hs
  cases hl : h.requestLine (b.readable.take crlf) with
  | none =>
    have hm : h.move b.readable = none := by simp [HttpHead.move, hhs, hcr, hl]
    have hrefuse := processRequestLine_refuses (r := c.request) hl
    have hi : c.iteration b =
        .done false { c with request := (processRequestLine c.request b crlf).2 } b := by
      simp only [iteration, hs, hfind]
      split
      · next hp => rw [hp] at hrefuse; cases hrefuse
      · next hp => rw [hp]
    rw [hi, HttpHead.drain_of_move_none hm]
    refine ⟨hc.state, rfl, fun hn => (by cases hn), fun _ => ⟨hs, fun e => ?_⟩⟩
    have hle := HttpParser.search_kCRLF_le hcr
    have htake : (b.readable ++ e).take crlf = b.readable.take crlf :=
      List.take_append_of_le_length (by omega)
    simp [HttpHead.move, hhs, search_append hcr e, htake, hl]
  | some h' =>
    obtain ⟨r, hr, hshow⟩ := processRequestLine_takes hc hl
    have hm : h.move b.readable = some (h', crlf + 2) :=
      HttpHead.move_eq_some.mpr ⟨crlf, hcr, rfl, .inl ⟨hhs, hl⟩⟩
    have hi : c.iteration b =
        .again { state := .expectHeaders, request := r } (b.retrieveUntil (crlf + 2)) := by
      simp only [iteration, hs, hfind, hr]
    rw [hi, HttpHead.drain_of_move hm]
    exact ⟨h', hshow.retrieveUntil _, .inr rfl, by rw [StoredBuffer.readable_retrieveUntil]⟩

theorem agrees_of_headerLine {crlf : ℕ} (hc : c.Shows b h) (hs : c.state = .expectHeaders)
    (hcr : search kCRLF b.readable = some crlf) :
    (c.iteration b).Agrees (HttpHead.consumer.drain h b.readable) := by
  have hfind : b.buf.findCRLF = some crlf := hcr
  have hhs : h.state = .expectHeaders := hc.state ▸ hs
  have hle := HttpParser.search_kCRLF_le hcr
  have hlen : (b.readable.take crlf).length = crlf := by
    rw [List.length_take]
    omega
  have hm : h.move b.readable = some (h.headerLine (b.readable.take crlf), crlf + 2) :=
    HttpHead.move_eq_some.mpr ⟨crlf, hcr, rfl, .inr ⟨hhs, rfl⟩⟩
  cases hl : splitAt COLON (b.readable.take crlf) with
  | none =>
    have hcolon : (b.readable.take crlf).idxOf COLON = crlf := by
      rw [idxOf_of_splitAt_none hl, hlen]
    have hi : c.iteration b =
        .done true { c with state := .gotAll } (b.retrieveUntil (crlf + 2)) := by
      simp only [iteration, hs, hfind, hcolon, ne_eq, not_true_eq_false, if_false]
    have hhead : h.headerLine (b.readable.take crlf) = { h with state := .gotAll } := by
      simp only [HttpHead.headerLine, hl]
    rw [hi, HttpHead.drain_of_move hm, hhead,
      HttpHead.drain_of_move_none (HttpHead.move_of_gotAll rfl _)]
    refine ⟨rfl, b.readable_retrieveUntil _, fun _ => ?_, fun hn => by cases hn⟩
    have := hc.retrieveUntil (crlf + 2)
    exact ⟨rfl, this.method, this.version, this.path, this.headers⟩
  | some fv =>
    obtain ⟨field, afterColon⟩ := fv
    obtain ⟨hidx, -, -, hlens⟩ := idxOf_of_splitAt hl
    have hi : c.iteration b =
        .again { c with request := c.request.addHeader b field.length crlf }
          (b.retrieveUntil (crlf + 2)) := by
      simp only [iteration, hs, hfind, hidx]
      rw [if_pos (by omega)]
    have hhead : h.headerLine (b.readable.take crlf) = h.addHeader field afterColon := by
      simp only [HttpHead.headerLine, hl]
    rw [hi, HttpHead.drain_of_move hm, hhead]
    refine ⟨_, (shows_addHeader hc (by omega) hl).retrieveUntil _, .inr hs, ?_⟩
    rw [StoredBuffer.readable_retrieveUntil]

/-- A round of the loop takes the next line. -/
theorem iteration_agrees (hc : c.Shows b h)
    (hlive : c.state = .expectRequestLine ∨ c.state = .expectHeaders) :
    (c.iteration b).Agrees (HttpHead.consumer.drain h b.readable) := by
  cases hcr : search kCRLF b.readable with
  | none => exact agrees_of_incomplete hc hlive hcr
  | some crlf =>
    rcases hlive with hs | hs
    · exact agrees_of_requestLine hc hs hcr
    · exact agrees_of_headerLine hc hs hcr

/-- **`parseRequest` is the drain of the head it shows**, as long as it has not got all: it
    returns, in the state and with the unread bytes of the drain, and shows what the drain has
    copied unless it refuses the request line. -/
theorem parseRequest_agrees (hc : c.Shows b h)
    (hlive : c.state = .expectRequestLine ∨ c.state = .expectHeaders) :
    ∃ ok c' b', c.parseRequest b = some (ok, c', b') ∧
      c'.state = (HttpHead.consumer.drain h b.readable).1.state ∧
      b'.readable = (HttpHead.consumer.drain h b.readable).2 ∧
      (ok = true → c'.Shows b' (HttpHead.consumer.drain h b.readable).1) ∧
      (ok = false → c'.state = .expectRequestLine ∧
        ∀ e, (HttpHead.consumer.drain h b.readable).1.move
          ((HttpHead.consumer.drain h b.readable).2 ++ e) = none) := by
  unfold parseRequest
  induction c, b using parseLoop.induct generalizing h with
  | case1 c b ok c' b' hi =>
    have hag := iteration_agrees hc hlive
    rw [hi] at hag
    exact ⟨ok, c', b', parseLoop_of_done hi, hag⟩
  | case2 c b c' b' hi ih =>
    have hag := iteration_agrees hc hlive
    rw [hi] at hag
    obtain ⟨h', hc', hlive', hd⟩ := hag
    rw [parseLoop_of_again hi, hd]
    exact ih hc' hlive'
  | case3 c b hi =>
    have hag := iteration_agrees hc hlive
    rw [hi] at hag
    exact hag.elim

end HttpContext

end AegisNet
