import AegisNet.Tcp.HttpParser.Stream

/-!
# The grammar of the parser

A `Sentence` is a request taken apart, with the conditions on its parts as fields, so that only
grammatical requests can be written down. The parser accepts exactly the sentences: it recognises
every one of them in front of any further bytes and records its parts, and whatever it accepts is
the text of a sentence.

## Main results

- `HttpParser.drain_text` — completeness, with what is recorded
- `HttpParser.exists_sentence_of_drain` — soundness
- `HttpParser.parseRequest_accepts_grammar` — both, for `parseRequest` on a buffer
-/

namespace AegisNet

open ListSearch Buffer

/-! ## Sentences -/

/-- The body of a request with header lines `fields` has length `n`: the decimal value of the
    content-length header, or zero when there is none. -/
def BodyLength (fields : List (Bytes × Bytes)) (n : ℕ) : Prop :=
  (∀ f ∈ fields, toLowerAscii f.1 = contentLength →
    trim f.2 ≠ [] ∧ (∀ ch ∈ trim f.2, isDigit ch = true) ∧ decimal (trim f.2) < 2 ^ 64 ∧
      n = decimal (trim f.2)) ∧
  ((∀ f ∈ fields, toLowerAscii f.1 ≠ contentLength) → n = 0)

/-- A header line NAME COLON VALUE has a token for its name, and no control character other than
    a tab in its trimmed value. -/
def FieldOk (f : Bytes × Bytes) : Prop :=
  (f.1 ≠ [] ∧ ∀ ch ∈ f.1, isTokenCharacter ch = true) ∧
  ∀ ch ∈ trim f.2, (0x20 ≤ ch ∨ ch = HTAB) ∧ ch ≠ 0x7F

/-- The name of a header line as the parser compares it. -/
def fieldKey (f : Bytes × Bytes) : Bytes := toLowerAscii f.1

/-- The parts of a grammatical request. -/
structure Sentence where
  method : Bytes
  target : Bytes
  version : Bytes
  fields : List (Bytes × Bytes)
  body : Bytes
  method_token : method ≠ [] ∧ ∀ ch ∈ method, isTokenCharacter ch = true
  target_visible : target ≠ [] ∧ ∀ ch ∈ target, 0x20 < ch ∧ ch ≠ 0x7F
  version_known : version = http10 ∨ version = http11
  fields_ok : ∀ f ∈ fields, FieldOk f
  names_distinct : (fields.map fieldKey).Nodup
  no_transferEncoding : ∀ f ∈ fields, toLowerAscii f.1 ≠ transferEncoding
  body_length : BodyLength fields body.length

/-- The header lines, each with its CR LF. -/
def fieldLines (fields : List (Bytes × Bytes)) : Bytes :=
  fields.flatMap fun f => f.1 ++ COLON :: f.2 ++ kCRLF

/-- METHOD SP TARGET SP VERSION -/
def requestLine (method target version : Bytes) : Bytes :=
  method ++ SP :: (target ++ SP :: version)

namespace Sentence

/-- The request as it is sent. -/
def text (r : Sentence) : Bytes :=
  requestLine r.method r.target r.version ++ kCRLF ++ fieldLines r.fields ++ kCRLF ++ r.body

end Sentence

/-- What the parser keeps of the header lines. -/
def recorded (fields : List (Bytes × Bytes)) : List (Bytes × Bytes) :=
  fields.map fun f => (fieldKey f, trim f.2)

/-! ## Lines have no CR -/

theorem notMem_dropWhile_or {p : UInt8 → Bool} {l : Bytes} {c : UInt8} (hc : p c = false)
    (h : c ∉ l.dropWhile p) : c ∉ l := by
  intro hm
  rw [← List.takeWhile_append_dropWhile (p := p) (l := l), List.mem_append] at hm
  rcases hm with hm | hm
  · rw [List.mem_takeWhile_imp hm] at hc; cases hc
  · exact h hm

/-- Trimming removes blanks only. -/
theorem mem_trim {value : Bytes} {ch : UInt8} (hb : isBlank ch = false) (h : ch ∈ value) :
    ch ∈ trim value := by
  by_contra hn
  rw [trim, List.rdropWhile, List.mem_reverse] at hn
  have h1 := notMem_dropWhile_or hb hn
  rw [List.mem_reverse] at h1
  exact notMem_dropWhile_or hb h1 h

/-- No CR occurs in a header line. -/
theorem cr_notMem_field {f : Bytes × Bytes} (h : FieldOk f) :
    (0x0D : UInt8) ∉ f.1 ++ COLON :: f.2 := by
  intro hm
  rw [List.mem_append, List.mem_cons] at hm
  rcases hm with hm | hm | hm
  · exact (isTokenCharacter_ne (h.1.2 _ hm)).2.2 rfl
  · exact absurd hm (by decide)
  · exact absurd (h.2 _ (mem_trim (by decide) hm)).1 (by decide)

/-- No CR occurs in a request line. -/
theorem cr_notMem_requestLine {method target version : Bytes}
    (hm : ∀ ch ∈ method, isTokenCharacter ch = true)
    (ht : ∀ ch ∈ target, 0x20 < ch ∧ ch ≠ 0x7F) (hv : version = http10 ∨ version = http11) :
    (0x0D : UInt8) ∉ requestLine method target version := by
  intro h
  rw [requestLine, List.mem_append, List.mem_cons, List.mem_append, List.mem_cons] at h
  rcases h with h | h | h | h | h
  · exact (isTokenCharacter_ne (hm _ h)).2.2 rfl
  · exact absurd h (by decide)
  · exact absurd (ht _ h).1 (by decide)
  · exact absurd h (by decide)
  · rcases hv with rfl | rfl <;> revert h <;> decide

/-- A line without CR is found as such in front of its CR LF. -/
theorem search_line {line : Bytes} (h : (0x0D : UInt8) ∉ line) (rest : Bytes) :
    search kCRLF (line ++ kCRLF ++ rest) = some line.length :=
  search_append_of_notMem h rest

theorem take_line (line rest : Bytes) : (line ++ kCRLF ++ rest).take line.length = line := by
  rw [List.append_assoc, List.take_left]

theorem drop_line (line rest : Bytes) : (line ++ kCRLF ++ rest).drop (line.length + 2) = rest :=
  List.drop_left' (by simp [kCRLF])

/-! ## The recorded headers -/

theorem lookup_recorded_eq_none {fields : List (Bytes × Bytes)} {key : Bytes} :
    (recorded fields).lookup key = none ↔ ∀ f ∈ fields, fieldKey f ≠ key := by
  simp only [recorded, List.lookup_eq_none_iff, List.forall_mem_map, bne_iff_ne]
  exact ⟨fun h f hf => (h f hf).symm, fun h f hf => (h f hf).symm⟩

/-- With distinct names, looking a header up gives its trimmed value. -/
theorem lookup_recorded_of_mem {fields : List (Bytes × Bytes)}
    (hd : (fields.map fieldKey).Nodup) {f : Bytes × Bytes} (hf : f ∈ fields) :
    (recorded fields).lookup (fieldKey f) = some (trim f.2) := by
  induction fields with
  | nil => cases hf
  | cons g gs ih =>
    rw [List.map_cons, List.nodup_cons] at hd
    rcases List.mem_cons.mp hf with rfl | hf
    · simp [recorded]
    · have hne : fieldKey f ≠ fieldKey g := by
        intro he
        exact hd.1 (he ▸ List.mem_map_of_mem hf)
      have hb : (fieldKey f == fieldKey g) = false := by simpa using hne
      simpa [recorded, List.lookup_cons, hb] using ih hd.2 hf

/-- The test that the blank line makes: no transfer-encoding, and a body of `n` bytes. -/
def Finishes (headers : List (Bytes × Bytes)) (n : ℕ) : Prop :=
  headers.lookup transferEncoding = none ∧
    match headers.lookup contentLength with
    | none => n = 0
    | some value => parseContentLength value = some n

theorem parseContentLength_eq_some {value : Bytes} {n : ℕ} :
    parseContentLength value = some n ↔
      value ≠ [] ∧ (∀ ch ∈ value, isDigit ch = true) ∧ decimal value < 2 ^ 64 ∧
        n = decimal value := by
  simp only [parseContentLength, Option.ite_none_left_eq_some, Option.ite_none_right_eq_some,
    Bool.not_eq_true', Bool.not_eq_false, List.all_eq_true, Option.some.injEq]
  exact and_congr_right fun _ => and_congr_right fun _ => and_congr_right fun _ => eq_comm

/-- On distinct header lines the blank line tests what the grammar asks for. -/
theorem finishes_recorded {fields : List (Bytes × Bytes)} {n : ℕ}
    (hd : (fields.map fieldKey).Nodup) :
    Finishes (recorded fields) n ↔
      (∀ f ∈ fields, toLowerAscii f.1 ≠ transferEncoding) ∧ BodyLength fields n := by
  refine and_congr lookup_recorded_eq_none ?_
  by_cases hc : ∃ f ∈ fields, fieldKey f = contentLength
  · obtain ⟨f, hf, hk⟩ := hc
    have hl := lookup_recorded_of_mem hd hf
    rw [hk] at hl
    simp only [hl, parseContentLength_eq_some, BodyLength]
    constructor
    · intro h
      refine ⟨fun g hg hgk => ?_, fun hno => absurd hk (hno f hf)⟩
      have hl' := lookup_recorded_of_mem hd hg
      rw [show fieldKey g = contentLength from hgk, hl] at hl'
      rwa [← Option.some.inj hl']
    · exact fun h => h.1 f hf hk
  · push Not at hc
    simp only [lookup_recorded_eq_none.mpr hc, BodyLength]
    exact ⟨fun h => ⟨fun f hf hk => absurd hk (hc f hf), fun _ => h⟩, fun h => h.2 hc⟩

namespace HttpParser

/-! ## Completeness -/

/-- The request line of a sentence is taken. -/
theorem drain_requestLine {method target version : Bytes}
    (hm : method ≠ [] ∧ ∀ ch ∈ method, isTokenCharacter ch = true)
    (ht : target ≠ [] ∧ ∀ ch ∈ target, 0x20 < ch ∧ ch ≠ 0x7F)
    (hv : version = http10 ∨ version = http11) (rest : Bytes) :
    consumer.drain new (requestLine method target version ++ kCRLF ++ rest) =
      consumer.drain
        { state := .expectHeaders, method := method, path := target, version := version } rest := by
  have hsearch := search_line (cr_notMem_requestLine hm.2 ht.2 hv) rest
  have hl : new.processRequestLine (requestLine method target version) =
      some { method := method, path := target, version := version } :=
    processRequestLine_eq_some.mpr ⟨method, target, version, rfl, hm, ht, hv, rfl⟩
  rw [drain_of_move (move_requestLine rfl hsearch (by rw [take_line]; exact hl)), drop_line]

/-- The header lines of a sentence are taken, one after the other. -/
theorem drain_fieldLines {fields : List (Bytes × Bytes)} (hok : ∀ f ∈ fields, FieldOk f)
    (hd : (fields.map fieldKey).Nodup) {p : HttpParser} (hs : p.state = .expectHeaders)
    (hnew : ∀ f ∈ fields, p.headers.lookup (fieldKey f) = none) (rest : Bytes) :
    consumer.drain p (fieldLines fields ++ rest) =
      consumer.drain { p with headers := p.headers ++ recorded fields } rest := by
  induction fields generalizing p with
  | nil => simp [fieldLines, recorded]
  | cons f fs ih =>
    rw [List.map_cons, List.nodup_cons] at hd
    have hf := hok f (List.mem_cons_self ..)
    have hsplit : fieldLines (f :: fs) ++ rest =
        (f.1 ++ COLON :: f.2) ++ kCRLF ++ (fieldLines fs ++ rest) := by
      simp [fieldLines]
    have hsearch := search_line (cr_notMem_field hf) (fieldLines fs ++ rest)
    have hl : p.processHeaderLine (f.1 ++ COLON :: f.2) =
        some { p with headers := p.headers ++ [(fieldKey f, trim f.2)] } :=
      processHeaderLine_eq_some.mpr
        ⟨f.1, f.2, rfl, hf.1, hf.2, hnew f (List.mem_cons_self ..), rfl⟩
    have hmove := move_headerLine hs hsearch (by simp) (by rw [take_line]; exact hl)
    have hnew' : ∀ g ∈ fs,
        (p.headers ++ [(fieldKey f, trim f.2)]).lookup (fieldKey g) = none := by
      intro g hg
      have hne : fieldKey g ≠ fieldKey f := fun he => hd.1 (he ▸ List.mem_map_of_mem hg)
      rw [List.lookup_append, hnew g (List.mem_cons_of_mem _ hg)]
      have hb : (fieldKey g == fieldKey f) = false := by simpa using hne
      simp [List.lookup_cons, hb]
    have hrest := ih (fun g hg => hok g (List.mem_cons_of_mem _ hg)) hd.2
      (p := { p with headers := p.headers ++ [(fieldKey f, trim f.2)] }) hs hnew'
    rw [hsplit, drain_of_move hmove, drop_line, hrest]
    simp [recorded]

/-- The blank line and the body of a sentence are taken. -/
theorem drain_blankLine {p : HttpParser} (hs : p.state = .expectHeaders)
    (he : p.expectedBodyLength = 0) (hb : p.body = []) {body : Bytes}
    (hf : Finishes p.headers body.length) (rest : Bytes) :
    consumer.drain p (kCRLF ++ body ++ rest) =
      ({ p with state := .gotAll, body := body, expectedBodyLength := body.length }, rest) := by
  have hsearch : search kCRLF (kCRLF ++ body ++ rest) = some 0 := by
    simpa using search_line (List.not_mem_nil (a := 0x0D)) (body ++ rest)
  have hdrop : (kCRLF ++ body ++ rest).drop 2 = body ++ rest := rfl
  obtain ⟨hte, hcl⟩ := hf
  cases hl : p.headers.lookup contentLength with
  | none =>
    simp only [hl, List.length_eq_zero_iff] at hcl
    have hfin : p.finishHeaders = some { p with state := .gotAll } := by
      simp [finishHeaders, hte, hl]
    rw [drain_of_move_finished (move_blankLine hs hsearch hfin) (Or.inl rfl), hdrop, hcl]
    simp [he, hb]
  | some value =>
    simp only [hl] at hcl
    have hfin : p.finishHeaders =
        some { p with expectedBodyLength := body.length, state := .expectBody } := by
      simp [finishHeaders, hte, hl, hcl]
    have hbody : move { p with expectedBodyLength := body.length, state := .expectBody }
        (body ++ rest) = some ({ p with
          expectedBodyLength := body.length, body := body, state := .gotAll }, body.length) := by
      simp [move]
    rw [drain_of_move (move_blankLine hs hsearch hfin), hdrop,
      drain_of_move_finished hbody (Or.inl rfl), List.drop_left]

/-- The parser after a sentence. -/
def ofSentence (r : Sentence) : HttpParser where
  state := .gotAll
  method := r.method
  path := r.target
  version := r.version
  headers := recorded r.fields
  body := r.body
  expectedBodyLength := r.body.length

/-- **Completeness**: every sentence is accepted, whatever follows it, and its parts recorded. -/
theorem drain_text (r : Sentence) (rest : Bytes) :
    consumer.drain new (r.text ++ rest) = (ofSentence r, rest) := by
  have hsplit : r.text ++ rest = requestLine r.method r.target r.version ++ kCRLF ++
      (fieldLines r.fields ++ (kCRLF ++ r.body ++ rest)) := by
    simp [Sentence.text]
  rw [hsplit, drain_requestLine r.method_token r.target_visible r.version_known,
    drain_fieldLines r.fields_ok r.names_distinct rfl (fun _ _ => rfl),
    drain_blankLine rfl rfl rfl]
  · rfl
  · exact (finishes_recorded r.names_distinct).mpr ⟨r.no_transferEncoding, r.body_length⟩

/-! ## Soundness -/

/-- The line in front of the first CRLF. -/
theorem line_of_search {b : Bytes} {crlf : ℕ} (h : search kCRLF b = some crlf) :
    (b.take crlf).length = crlf ∧ ∃ rest, b = b.take crlf ++ kCRLF ++ rest := by
  refine ⟨?_, search_spec h⟩
  have := search_kCRLF_le h
  rw [List.length_take]
  omega

/-- The three moves at the headers: an error, the blank line, a header line. -/
theorem move_expectHeaders {p q : HttpParser} {b : Bytes} {k : ℕ} (hs : p.state = .expectHeaders)
    (h : p.move b = some (q, k)) :
    q.state = .error ∨ (∃ rest, b = kCRLF ++ rest ∧ k = 2 ∧ p.finishHeaders = some q) ∨
      ∃ line rest, b = line ++ kCRLF ++ rest ∧ k = line.length + 2 ∧
        p.processHeaderLine line = some q := by
  simp only [move, hs, Option.map_eq_some_iff] at h
  obtain ⟨crlf, hc, h⟩ := h
  obtain ⟨hlen, rest, hb⟩ := line_of_search hc
  split at h
  · next h0 =>
    subst h0
    cases hf : p.finishHeaders with
    | none => rw [hf] at h; cases h; exact Or.inl rfl
    | some q' =>
      rw [hf] at h
      cases h
      exact Or.inr (Or.inl ⟨rest, by simpa using hb, rfl, rfl⟩)
  · split at h
    · cases h; exact Or.inl rfl
    · next hl => cases h; exact Or.inr (Or.inr ⟨_, rest, hb, by rw [hlen], hl⟩)

/-- The two moves at the request line: an error and a request line. -/
theorem move_expectRequestLine {p q : HttpParser} {b : Bytes} {k : ℕ}
    (hs : p.state = .expectRequestLine) (h : p.move b = some (q, k)) :
    q.state = .error ∨
      ∃ line rest q', b = line ++ kCRLF ++ rest ∧ k = line.length + 2 ∧
        p.processRequestLine line = some q' ∧ q = { q' with state := .expectHeaders } := by
  simp only [move, hs, Option.map_eq_some_iff] at h
  obtain ⟨crlf, hc, h⟩ := h
  obtain ⟨hlen, rest, hb⟩ := line_of_search hc
  split at h
  · cases h; exact Or.inl rfl
  · next q' hl => cases h; exact Or.inr ⟨_, rest, q', hb, by rw [hlen], hl, rfl⟩

/-- A parser in the error state stays there. -/
theorem drain_of_error {p : HttpParser} (h : p.state = .error) (b : Bytes) :
    consumer.drain p b = (p, b) :=
  drain_of_move_none (move_of_finished (Or.inr h) b)

/-- Behind an accepted blank line stands the body that the headers announce. -/
theorem exists_body_of_drain {p q p' : HttpParser} {b s : Bytes} (hf : p.finishHeaders = some q)
    (hd : consumer.drain q b = (p', s)) (hg : p'.state = .gotAll) :
    ∃ body, b = body ++ s ∧ Finishes p.headers body.length := by
  simp only [finishHeaders, Option.ite_none_left_eq_some, Option.not_isSome_iff_eq_none] at hf
  obtain ⟨hte, hf⟩ := hf
  cases hl : p.headers.lookup contentLength with
  | none =>
    rw [hl] at hf
    cases hf
    rw [drain_of_move_none (move_of_finished (Or.inl rfl) b)] at hd
    cases hd
    exact ⟨[], rfl, hte, by simp [hl]⟩
  | some value =>
    rw [hl] at hf
    cases hv : parseContentLength value with
    | none => simp [hv] at hf
    | some n =>
      simp only [hv, Option.some.injEq] at hf
      subst hf
      by_cases hlt : b.length < n
      · -- the body is not there yet, so the parser would still be waiting
        rw [drain_of_move_none (by simp [move, hlt])] at hd
        cases hd
        cases hg
      · have hm : move { p with expectedBodyLength := n, state := .expectBody } b =
            some ({ p with expectedBodyLength := n, body := b.take n, state := .gotAll }, n) := by
          simp [move, hlt]
        rw [drain_of_move_finished hm (Or.inl rfl)] at hd
        cases hd
        refine ⟨b.take n, (List.take_append_drop n b).symm, hte, ?_⟩
        rw [List.length_take, min_eq_left (by omega)]
        simp [hl, hv]

/-- What is accepted from the headers on is a list of header lines, the blank line and the body. -/
theorem exists_fields_of_drain (p : HttpParser) (b : Bytes) : p.state = .expectHeaders →
    ∀ {p' s}, consumer.drain p b = (p', s) → p'.state = .gotAll →
      ∃ fields body, b = fieldLines fields ++ kCRLF ++ body ++ s ∧
        (∀ f ∈ fields, FieldOk f) ∧ (fields.map fieldKey).Nodup ∧
        (∀ f ∈ fields, p.headers.lookup (fieldKey f) = none) ∧
        Finishes (p.headers ++ recorded fields) body.length := by
  induction p, b using consumer.drain_induction with
  | wait p b h =>
    intro hs p' s hd hg
    rw [consumer.drain_of_none h] at hd
    cases hd
    rw [hs] at hg
    cases hg
  | next p b q b' h ih =>
    intro hs p' s hd hg
    rw [consumer.drain_of_some h] at hd
    simp only [consumer, Option.map_eq_some_iff, Prod.exists, Prod.mk.injEq] at h
    obtain ⟨q', k, hm, rfl, rfl⟩ := h
    rcases move_expectHeaders hs hm with he | ⟨rest, rfl, rfl, hf⟩ | ⟨line, rest, rfl, rfl, hl⟩
    · rw [drain_of_error he] at hd
      cases hd
      rw [he] at hg
      cases hg
    · obtain ⟨body, hb, hfin⟩ := exists_body_of_drain hf hd hg
      have hrest : rest = body ++ s := hb
      refine ⟨[], body, by simp [fieldLines, hrest], by simp, by simp, by simp, ?_⟩
      simpa [recorded] using hfin
    · rw [drop_line] at hd ih
      obtain ⟨fields, body, rfl, hok, hnd, hnew, hfin⟩ :=
        ih (by rw [processHeaderLine_state hl, hs]) hd hg
      obtain ⟨name, value, rfl, hn, hv, hlook, rfl⟩ := processHeaderLine_eq_some.mp hl
      have hsplit : ∀ f ∈ fields,
          p.headers.lookup (fieldKey f) = none ∧ fieldKey f ≠ toLowerAscii name := by
        intro f hf
        have h2 := hnew f hf
        simp only [List.lookup_append, Option.or_eq_none_iff] at h2
        refine ⟨h2.1, fun he => ?_⟩
        simp [he] at h2
      refine ⟨(name, value) :: fields, body, by simp [fieldLines], ?_, ?_, ?_, ?_⟩
      · exact List.forall_mem_cons.mpr ⟨⟨hn, hv⟩, hok⟩
      · rw [List.map_cons, List.nodup_cons]
        refine ⟨fun hmem => ?_, hnd⟩
        obtain ⟨f, hf, he⟩ := List.mem_map.mp hmem
        exact (hsplit f hf).2 he
      · exact List.forall_mem_cons.mpr ⟨hlook, fun f hf => (hsplit f hf).1⟩
      · simpa [recorded, fieldKey] using hfin

/-- **Soundness**: what a fresh parser accepts is the text of a sentence, and the rest is left. -/
theorem exists_sentence_of_drain {p' : HttpParser} {b s : Bytes}
    (hd : consumer.drain new b = (p', s)) (hg : p'.state = .gotAll) :
    ∃ r : Sentence, b = r.text ++ s := by
  cases hm : new.move b with
  | none =>
    rw [drain_of_move_none hm] at hd
    cases hd
    cases hg
  | some x =>
    obtain ⟨q, k⟩ := x
    rw [drain_of_move hm] at hd
    rcases move_expectRequestLine rfl hm with he | ⟨line, rest, q', rfl, rfl, hl, rfl⟩
    · rw [drain_of_error he] at hd
      cases hd
      rw [he] at hg
      cases hg
    · rw [drop_line] at hd
      obtain ⟨fields, body, rfl, hok, hnd, -, hfin⟩ := exists_fields_of_drain _ _ rfl hd hg
      obtain ⟨method, target, version, rfl, hmt, htt, hv, rfl⟩ :=
        processRequestLine_eq_some.mp hl
      have hgram := (finishes_recorded hnd).mp (by simpa [new] using hfin)
      exact ⟨⟨method, target, version, fields, body, hmt, htt, hv, hok, hnd, hgram.1, hgram.2⟩,
        by simp [Sentence.text, requestLine]⟩

/-! ## `parseRequest` -/

/-- Looking a recorded header up, with the name in any letter case. -/
theorem getHeader_ofSentence (r : Sentence) {f : Bytes × Bytes} (hf : f ∈ r.fields) {name : Bytes}
    (hn : toLowerAscii name = toLowerAscii f.1) : (ofSentence r).getHeader name = trim f.2 := by
  have h := lookup_recorded_of_mem r.names_distinct hf
  simp only [getHeader, ofSentence, hn]
  rw [show toLowerAscii f.1 = fieldKey f from rfl, h, Option.getD_some]

/-- A header that was not sent is empty. -/
theorem getHeader_ofSentence_absent (r : Sentence) {name : Bytes}
    (hn : ∀ f ∈ r.fields, toLowerAscii f.1 ≠ toLowerAscii name) :
    (ofSentence r).getHeader name = [] := by
  simp only [getHeader, ofSentence]
  rw [lookup_recorded_eq_none.mpr hn, Option.getD_none]

/-- **The parser accepts exactly its grammar.** A fresh or reset parser ends in `GotAll` with the
    bytes `s` unread exactly when the buffer holds a sentence followed by `s`; then the getters
    return the parts of the sentence; and when it answers `false`, no extension of the contents
    begins with a sentence. -/
theorem parseRequest_accepts_grammar (p : HttpParser) (hp : p = new ∨ ∃ q : HttpParser, p = q.reset)
    (buf : Buffer) :
    (∀ s, (p.parseRequest buf).2.1.gotAll = true ∧ (p.parseRequest buf).2.2.readable = s ↔
      ∃ r : Sentence, buf.readable = r.text ++ s) ∧
    (∀ (r : Sentence) s, buf.readable = r.text ++ s →
      (p.parseRequest buf).1 = true ∧
      (p.parseRequest buf).2.1.getMethod = r.method ∧
      (p.parseRequest buf).2.1.getPath = r.target ∧
      (p.parseRequest buf).2.1.getBody = r.body ∧
      (∀ f ∈ r.fields, ∀ name, toLowerAscii name = toLowerAscii f.1 →
        (p.parseRequest buf).2.1.getHeader name = trim f.2) ∧
      (∀ name, (∀ f ∈ r.fields, toLowerAscii f.1 ≠ toLowerAscii name) →
        (p.parseRequest buf).2.1.getHeader name = [])) ∧
    ((p.parseRequest buf).1 = false →
      ∀ (e : Bytes) (r : Sentence) (s : Bytes), buf.readable ++ e ≠ r.text ++ s) := by
  obtain rfl : p = new := by rcases hp with h | ⟨q, h⟩ <;> exact h
  obtain ⟨hdrain, hok⟩ := parseRequest_eq_drain new buf
  have hsentence : ∀ (r : Sentence) s, buf.readable = r.text ++ s →
      (new.parseRequest buf).2.1 = ofSentence r ∧ (new.parseRequest buf).2.2.readable = s := by
    intro r s h
    rw [h, drain_text] at hdrain
    exact Prod.mk.inj hdrain
  refine ⟨fun s => ⟨?_, ?_⟩, fun r s h => ?_, fun hfalse e r s h => ?_⟩
  · rintro ⟨hg, rfl⟩
    exact exists_sentence_of_drain hdrain.symm (of_decide_eq_true hg)
  · rintro ⟨r, h⟩
    obtain ⟨hq, hs⟩ := hsentence r s h
    exact ⟨by rw [hq]; rfl, hs⟩
  · obtain ⟨hq, -⟩ := hsentence r s h
    refine ⟨hok.mpr (by simp [hq, ofSentence]), ?_⟩
    rw [hq]
    exact ⟨rfl, rfl, rfl, fun f hf name hn => getHeader_ofSentence r hf hn,
      fun name hn => getHeader_ofSentence_absent r hn⟩
  · -- an error is final, whereas the extended contents would be accepted
    have herr : (new.parseRequest buf).2.1.state = .error := by
      by_contra hne
      rw [hok.mpr hne] at hfalse
      cases hfalse
    have hext := consumer.drain_append new buf.readable e
    rw [h, drain_text, ← hdrain, drain_of_error herr] at hext
    have hstate := congrArg (fun x => x.1.state) hext
    rw [herr] at hstate
    cases hstate

/-- `GET / HTTP/1.1`, without headers. -/
def rootRequest : Sentence where
  method := [0x47, 0x45, 0x54]
  target := [0x2F]
  version := http11
  fields := []
  body := []
  method_token := by decide +kernel
  target_visible := by decide +kernel
  version_known := Or.inr rfl
  fields_ok := by simp
  names_distinct := by simp
  no_transferEncoding := by simp
  body_length := by simp [BodyLength]

/-- `POST /a HTTP/1.1` with the header lines `Host:x` and `content-length: 2`, and the body `hi`. -/
def postHi : Sentence :=
  { rootRequest with
    method := [0x50, 0x4F, 0x53, 0x54]
    target := [0x2F, 0x61]
    fields := [([0x48, 0x6F, 0x73, 0x74], [0x78]), (contentLength, [0x20, 0x32])]
    body := [0x68, 0x69]
    method_token := by decide +kernel
    target_visible := by decide +kernel
    fields_ok := by
      unfold FieldOk
      decide +kernel
    names_distinct := by decide +kernel
    no_transferEncoding := by decide +kernel
    body_length := by
      unfold BodyLength
      decide +kernel }

/-- The request, and the beginning of a second one behind it. -/
theorem parseRequest_accepts_postHi :
    let r := new.parseRequest (Buffer.new.append (postHi.text ++ [0x47, 0x45, 0x54]))
    r.2.1.gotAll = true ∧ r.2.2.readable = [0x47, 0x45, 0x54] ∧ r.2.1.getPath = [0x2F, 0x61] ∧
      r.2.1.getBody = [0x68, 0x69] ∧ r.2.1.getHeader [0x68, 0x4F, 0x53, 0x54] = [0x78] := by
  intro r
  have hbuf : (Buffer.new.append (postHi.text ++ [0x47, 0x45, 0x54])).readable =
      postHi.text ++ [0x47, 0x45, 0x54] := by simp
  obtain ⟨haccept, hparts, -⟩ := parseRequest_accepts_grammar new (Or.inl rfl)
    (Buffer.new.append (postHi.text ++ [0x47, 0x45, 0x54]))
  obtain ⟨hg, hs⟩ := (haccept [0x47, 0x45, 0x54]).mpr ⟨postHi, hbuf⟩
  obtain ⟨-, -, hpath, hbody, hheader, -⟩ := hparts postHi [0x47, 0x45, 0x54] hbuf
  refine ⟨hg, hs, hpath, hbody, ?_⟩
  have hhost := hheader ([0x48, 0x6F, 0x73, 0x74], [0x78]) (by decide) [0x68, 0x4F, 0x53, 0x54]
    (by decide)
  exact hhost.trans (by decide)

end HttpParser

end AegisNet
