import AegisNet.Tcp.HttpContext.Grammar

/-!
# A request head in pieces

A request head that arrives in several reads: every read is appended to the input buffer and
parsed. The views that the context has made by then still point into the buffer, and an append may
store over them, or leave them behind in freed memory. When no append does so, the context ends as
if the head had come at once.

## Main definitions

- `HttpContext.feed`, `HttpContext.run` — one read, and a sequence of reads
- `HttpContext.Spared` — no append touches what has been recorded
- `HttpContext.FragmentsAgree` — the pieces give what the whole head gives

## Main results

- `HttpContext.fragmentsAgree_of_spared`
-/

namespace AegisNet

namespace HttpContext

variable {grow : ℕ → ℕ → ℕ}

/-- A read: its bytes are appended to the buffer, and `parseRequest` is called. -/
def feed (grow : ℕ → ℕ → ℕ) (x : HttpContext × StoredBuffer) (chunk : Bytes) :
    Option (HttpContext × StoredBuffer) :=
  (x.1.parseRequest (x.2.append grow chunk)).map fun (_, c, b) => (c, b)

/-- Several reads; `none` when a call does not return. -/
def run (grow : ℕ → ℕ → ℕ) (x : HttpContext × StoredBuffer) (chunks : List Bytes) :
    Option (HttpContext × StoredBuffer) :=
  chunks.foldlM (feed grow) x

/-- A fresh context and a fresh buffer. -/
def fresh (initialSize : ℕ) : HttpContext × StoredBuffer := (new, .new initialSize)

/-- Before each of the reads the context has not got all yet, and the append leaves the path and
    the headers recorded by then alone. -/
def Spared (grow : ℕ → ℕ → ℕ) (x : HttpContext × StoredBuffer) (chunks : List Bytes) : Prop :=
  ∀ before chunk after, chunks = before ++ chunk :: after →
    ∀ c b, run grow x before = some (c, b) →
      c.gotAll = false ∧ ∀ v ∈ c.request.views, b.Spares chunk v

/-- The head at once and the head in pieces both end in `kGotAll`, with the same path and the
    same value for every field. -/
def FragmentsAgree (grow : ℕ → ℕ → ℕ) (initialSize : ℕ) (chunks : List Bytes) : Prop :=
  ∃ c b c' b', run grow (fresh initialSize) [chunks.flatten] = some (c, b) ∧
    run grow (fresh initialSize) chunks = some (c', b') ∧
    c.gotAll = true ∧ c'.gotAll = true ∧
    (∃ path, c.request.getPath b = some path ∧ c'.request.getPath b' = some path) ∧
    ∀ field, ∃ value, c.request.getHeader b field = some value ∧
      c'.request.getHeader b' field = some value

theorem run_cons (x : HttpContext × StoredBuffer) (chunk : Bytes) (chunks : List Bytes) :
    run grow x (chunk :: chunks) = (feed grow x chunk).bind fun y => run grow y chunks := by
  rw [run, List.foldlM_cons]
  rfl

/-- What is spared of the reads is spared of those behind the first. -/
theorem Spared.tail {x y : HttpContext × StoredBuffer} {chunk : Bytes} {chunks : List Bytes}
    (h : Spared grow x (chunk :: chunks)) (hy : feed grow x chunk = some y) :
    Spared grow y chunks := by
  intro before c after hsplit d b hrun
  apply h (chunk :: before) c after (by rw [hsplit, List.cons_append])
  rw [run_cons, hy]
  exact hrun

/-- The copying parser never enters the empty branch. -/
theorem drain_state_ne {h : HttpHead} (hs : h.state ≠ .expectBody) (b : Bytes) :
    (HttpHead.consumer.drain h b).1.state ≠ .expectBody := by
  induction h, b using HttpHead.consumer.drain_induction with
  | wait h b hstep =>
    rw [HttpHead.consumer.drain_of_none hstep]
    exact hs
  | next h b h' b' hstep ih =>
    rw [HttpHead.consumer.drain_of_some hstep]
    apply ih
    simp only [HttpHead.consumer, Option.map_eq_some_iff, Prod.exists, Prod.mk.injEq] at hstep
    obtain ⟨q, k, hm, rfl, -⟩ := hstep
    obtain ⟨crlf, -, -, ⟨-, hl⟩ | ⟨hn, hl⟩⟩ := HttpHead.move_eq_some.mp hm
    · simp only [HttpHead.requestLine, Option.bind_eq_some_iff, Option.map_eq_some_iff] at hl
      obtain ⟨_, -, _, -, _, -, rfl⟩ := hl
      simp
    · subst hl
      rw [HttpHead.headerLine]
      split
      · exact hs
      · simp

/-- **A run that is spared** follows the copying parser: from a context that shows a head, through
    reads that complete it, it returns with what the drain has copied. -/
theorem run_shows {c : HttpContext} {b : StoredBuffer} {h : HttpHead} {chunks : List Bytes}
    (hc : c.Shows b h) (hwait : HttpHead.consumer.step h b.readable = none)
    (hs : h.state ≠ .expectBody) (hspared : Spared grow (c, b) chunks)
    (hgot : (HttpHead.consumer.drain h (b.readable ++ chunks.flatten)).1.state = .gotAll) :
    ∃ c' b', run grow (c, b) chunks = some (c', b') ∧
      c'.Shows b' (HttpHead.consumer.drain h (b.readable ++ chunks.flatten)).1 := by
  induction chunks generalizing c b h with
  | nil =>
    rw [List.flatten_nil, List.append_nil, HttpHead.consumer.drain_of_none hwait]
    exact ⟨c, b, rfl, hc⟩
  | cons chunk chunks ih =>
    obtain ⟨hnot, hkeep⟩ := hspared [] chunk chunks rfl c b rfl
    have hlive : c.state = .expectRequestLine ∨ c.state = .expectHeaders := by
      have h1 : c.state ≠ .gotAll := by simpa [gotAll] using hnot
      have h2 : c.state ≠ .expectBody := hc.state ▸ hs
      cases hcs : c.state with
      | expectRequestLine => exact .inl rfl
      | expectHeaders => exact .inr rfl
      | expectBody => exact absurd hcs h2
      | gotAll => exact absurd hcs h1
    have happ : c.Shows (b.append grow chunk) h :=
      hc.of_views fun v hv _ hx => hx.append grow (hkeep v hv)
    obtain ⟨ok, d, e, hparse, hstate, hrest, hshow, hno⟩ := parseRequest_agrees happ hlive
    rw [StoredBuffer.readable_append] at hstate hrest hshow hno
    rw [List.flatten_cons, ← List.append_assoc, HttpHead.consumer.drain_append] at hgot ⊢
    rw [← hrest] at hgot ⊢
    cases ok with
    | false =>
      -- no later read would complete the head
      obtain ⟨hline, hstuck⟩ := hno rfl
      rw [← hrest] at hstuck
      rw [HttpHead.drain_of_move_none (hstuck _), ← hstate, hline] at hgot
      cases hgot
    | true =>
      have hfeed : feed grow (c, b) chunk = some (d, e) := by
        rw [feed, hparse]
        rfl
      have hnext := HttpHead.consumer.step_drain h (b.readable ++ chunk)
      rw [← hrest] at hnext
      obtain ⟨c', b', hrun, hend⟩ := ih (hshow rfl) hnext (drain_state_ne hs _)
        (hspared.tail hfeed) hgot
      refine ⟨c', b', ?_, hend⟩
      rw [run_cons, hfeed]
      exact hrun

/-- Nothing is recorded yet in a fresh context. -/
theorem spared_singleton (initialSize : ℕ) (chunk : Bytes) :
    Spared grow (fresh initialSize) [chunk] := by
  intro before d after hsplit c b hrun
  obtain ⟨rfl, -, -⟩ : before = [] ∧ d = chunk ∧ after = [] := by
    cases before with
    | nil => simpa [eq_comm] using hsplit
    | cons x xs => simp at hsplit
  cases hrun
  refine ⟨rfl, fun v hv => .inl ?_⟩
  have hv' : v = View.empty := by simpa [HttpRequest.views, new, fresh] using hv
  rw [hv']
  rfl

/-- Such a run ends with what the head says. -/
theorem run_of_spared (initialSize : ℕ) (r : RequestHead) {chunks : List Bytes}
    (hcut : chunks.flatten = r.text) (hspared : Spared grow (fresh initialSize) chunks) :
    ∃ c b, run grow (fresh initialSize) chunks = some (c, b) ∧ c.Shows b (.ofRequestHead r) := by
  have hdrain : HttpHead.consumer.drain .new r.text = (.ofRequestHead r, []) := by
    have h := HttpHead.drain_text r []
    rwa [List.append_nil] at h
  have hread : (StoredBuffer.new initialSize).readable ++ chunks.flatten = r.text := by
    rw [StoredBuffer.readable_new, List.nil_append, hcut]
  have hwait : HttpHead.consumer.step .new (StoredBuffer.new initialSize).readable = none := by
    rw [StoredBuffer.readable_new]
    rfl
  have h := run_shows (shows_new (.new initialSize)) hwait (by decide) hspared
    (by rw [hread, hdrain]; rfl)
  rwa [hread, hdrain] at h

/-- **Fragmentation independence of a spared run**: a head that is cut into reads none of which
    is stored over what has been recorded gives what it gives at once. -/
theorem fragmentsAgree_of_spared (grow : ℕ → ℕ → ℕ) (initialSize : ℕ) (r : RequestHead)
    (chunks : List Bytes) (hcut : chunks.flatten = r.text)
    (hspared : Spared grow (fresh initialSize) chunks) :
    FragmentsAgree grow initialSize chunks := by
  have hwhole : [chunks.flatten].flatten = r.text := by simp [hcut]
  obtain ⟨c, b, hrun, hshow⟩ := run_of_spared initialSize r hwhole (spared_singleton _ _)
  obtain ⟨c', b', hrun', hshow'⟩ := run_of_spared initialSize r hcut hspared
  have hgot : c.state = .gotAll := hshow.state
  have hgot' : c'.state = .gotAll := hshow'.state
  exact ⟨c, b, c', b', hrun, hrun', by simp [gotAll, hgot], by simp [gotAll, hgot'],
    ⟨_, hshow.path.1, hshow'.path.1⟩, fun field => ⟨_, hshow.getHeader field, hshow'.getHeader field⟩⟩

/-! ## A head whose request line arrives first -/

/-- `GET /x HTTP/1.1` with the header lines `fields`. -/
def getX (fields : List (Bytes × Bytes))
    (h : ∀ f ∈ fields, COLON ∉ f.1 ∧ IsLine (f.1 ++ COLON :: f.2)) : RequestHead where
  method := methodGET
  target := [0x2F, 0x78]
  version := http11
  fields := fields
  last := []
  method_noSpace := by decide
  target_noSpace := by decide
  version_known := HttpParser.rootRequest.version_known
  requestLine_isLine := by decide
  fields_colon := h
  last_noColon := blank_isLine

/-- Its request line. -/
def lineX : Bytes := requestLine methodGET [0x2F, 0x78] http11 ++ Buffer.kCRLF

/-- The context and the buffer after the request line: the path is at the bytes 12 and 13 of the
    vector, and the next append begins at byte 8. -/
def afterLineX : HttpContext × StoredBuffer :=
  ({ state := .expectHeaders
     request := { method := .get, version := .http11, path := ⟨0, 12, 2⟩ } },
    ((StoredBuffer.new).append max lineX).retrieveUntil 17)

theorem feed_lineX : feed max (fresh Buffer.kInitialSize) lineX = some afterLineX := by
  have hb : ((StoredBuffer.new).append max lineX).readable = lineX := by simp
  generalize hstored : (StoredBuffer.new).append max lineX = b at hb
  have hview : b.view 4 2 = ⟨0, 12, 2⟩ := by
    rw [← hstored]
    decide +kernel
  have hline : processRequestLine {} b 15 =
      (true, { method := .get, version := .http11, path := b.view 4 2 }) := by
    simp only [processRequestLine, hb]
    rfl
  have h1 : new.iteration b = .again afterLineX.1 (b.retrieveUntil 17) := by
    have hfind : b.buf.findCRLF = some 15 := by
      show ListSearch.search Buffer.kCRLF b.readable = some 15
      rw [hb]
      decide
    simp only [iteration, new, hfind, hline, hview, afterLineX]
  have h2 : afterLineX.1.iteration (b.retrieveUntil 17) =
      .done true afterLineX.1 (b.retrieveUntil 17) := by
    have hfind : (b.retrieveUntil 17).buf.findCRLF = none := by
      show ListSearch.search Buffer.kCRLF (b.retrieveUntil 17).readable = none
      rw [StoredBuffer.readable_retrieveUntil, hb]
      decide
    simp only [iteration, afterLineX, hfind]
  rw [feed, fresh, hstored, parseRequest, parseLoop_of_again h1, parseLoop_of_done h2, afterLineX,
    hstored]
  rfl

/-- Nothing is stored over the path when only the blank line is missing. -/
theorem fragmentsAgree_blankLine :
    FragmentsAgree max Buffer.kInitialSize [lineX, Buffer.kCRLF] := by
  apply fragmentsAgree_of_spared max Buffer.kInitialSize (getX [] (by simp))
  · rfl
  · intro before chunk after hsplit c b hrun
    cases before with
    | nil =>
      cases hrun
      cases hsplit
      exact ⟨rfl, by decide +kernel⟩
    | cons x xs =>
      rw [List.cons_append, List.cons.injEq] at hsplit
      obtain ⟨rfl, hsplit⟩ := hsplit
      rw [run_cons, feed_lineX, Option.bind_some] at hrun
      cases xs with
      | nil =>
        cases hrun
        cases hsplit
        exact ⟨rfl, by decide +kernel⟩
      | cons y ys => simp at hsplit

/-- `Host:h`, whose last two bytes come to lie where the path was. -/
def hostLine : Bytes × Bytes := ([0x48, 0x6F, 0x73, 0x74], [0x68])

/-- The rest of a head with this header line: it is parsed, and the path stays the view it was. -/
theorem parseRequest_hostLine {s : StoredBuffer}
    (hs : s.readable = fieldLines [hostLine] ++ Buffer.kCRLF) :
    ∃ c, afterLineX.1.parseRequest s = some (true, c, (s.retrieveUntil 8).retrieveUntil 2) ∧
      c.request.path = ⟨0, 12, 2⟩ := by
  have hcolon : (s.readable.take 6).idxOf COLON = 4 := by
    rw [hs]
    decide
  have h1 : afterLineX.1.iteration s = .again
      { afterLineX.1 with request := afterLineX.1.request.addHeader s 4 6 }
      (s.retrieveUntil 8) := by
    have hfind : s.buf.findCRLF = some 6 := by
      show ListSearch.search Buffer.kCRLF s.readable = some 6
      rw [hs]
      decide
    simp only [iteration, afterLineX, hfind, hcolon]
    rfl
  have h2 : iteration { afterLineX.1 with request := afterLineX.1.request.addHeader s 4 6 }
      (s.retrieveUntil 8) = .done true
        { state := .gotAll, request := afterLineX.1.request.addHeader s 4 6 }
        ((s.retrieveUntil 8).retrieveUntil 2) := by
    have hrest : (s.retrieveUntil 8).readable = Buffer.kCRLF := by
      rw [StoredBuffer.readable_retrieveUntil, hs]
      decide
    have hfind : (s.retrieveUntil 8).buf.findCRLF = some 0 := by
      show ListSearch.search Buffer.kCRLF (s.retrieveUntil 8).readable = some 0
      rw [hrest]
      decide
    simp only [iteration, afterLineX, hfind, hrest]
    rfl
  refine ⟨{ state := .gotAll, request := afterLineX.1.request.addHeader s 4 6 }, ?_, rfl⟩
  rw [parseRequest, parseLoop_of_again h1, parseLoop_of_done h2]

/-- The second read of a head is stored over the path of the first. -/
theorem path_overwritten :
    ¬ FragmentsAgree max Buffer.kInitialSize
      [lineX, fieldLines [hostLine] ++ Buffer.kCRLF] := by
  rintro ⟨c, b, c', b', hwhole, hcut, -, -, ⟨path, hpath, hpath'⟩, -⟩
  -- at once, the path is `/x`
  have hsp : Spared max (fresh Buffer.kInitialSize)
      [[lineX, fieldLines [hostLine] ++ Buffer.kCRLF].flatten] := spared_singleton _ _
  obtain ⟨d, e, hrun, hshow⟩ :=
    run_of_spared Buffer.kInitialSize (getX [hostLine] (by decide)) (by rfl) hsp
  rw [hwhole] at hrun
  cases hrun
  have hx : path = [0x2F, 0x78] := by
    have := hpath.symm.trans hshow.path.1
    simpa [getX] using this
  -- in two reads, its view shows `:h`
  have hread : (afterLineX.2.append max (fieldLines [hostLine] ++ Buffer.kCRLF)).readable =
      fieldLines [hostLine] ++ Buffer.kCRLF := by
    rw [StoredBuffer.readable_append, afterLineX, StoredBuffer.readable_retrieveUntil,
      StoredBuffer.readable_append]
    rfl
  have hcolon : (afterLineX.2.append max (fieldLines [hostLine] ++ Buffer.kCRLF)).read
      ⟨0, 12, 2⟩ = some [0x3A, 0x68] := by decide +kernel
  obtain ⟨d, hparse, hd⟩ := parseRequest_hostLine hread
  rw [run_cons, feed_lineX, Option.bind_some, run_cons, feed, hparse] at hcut
  cases hcut
  rw [HttpRequest.getPath, hd, StoredBuffer.read_retrieveUntil, StoredBuffer.read_retrieveUntil,
    hcolon] at hpath'
  rw [hx] at hpath'
  revert hpath'
  decide

end HttpContext

end AegisNet
