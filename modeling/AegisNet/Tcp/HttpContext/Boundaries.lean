import AegisNet.Tcp.HttpContext.Grammar

/-!
# Where the two request parsers cut a stream

`HttpParser` and `HttpContext` read the same protocol. The second checks no tokens, ends the
headers at any line without a colon, and leaves the body to whoever reads next; so they agree on a
byte string exactly when what `HttpContext` takes for a head is a head of the strict grammar and
announces no body that has arrived.

## Main definitions

- `BoundariesAgree` — the two parsers on one byte string
- `RequestHead.Strict` — the parts of a head in the grammar of `HttpParser`

## Main results

- `HttpParser.drain_strict`, `HttpParser.strict_of_drain` — what `HttpParser` does with a head
- `boundaries_agree_iff` — when they agree
-/

namespace AegisNet

open ListSearch Buffer

/-- If a fresh `HttpParser` accepts a request of these bytes, a fresh `HttpContext` does so too,
    leaving the same bytes and with the same path; and if it rejects them, the context does not
    get all. -/
def BoundariesAgree (bytes : Bytes) : Prop :=
  ∀ (buf : Buffer) (stored : StoredBuffer), buf.readable = bytes → stored.readable = bytes →
    ((HttpParser.new.parseRequest buf).2.1.gotAll = true →
      ∃ ok c b, HttpContext.new.parseRequest stored = some (ok, c, b) ∧ c.gotAll = true ∧
        b.readable = (HttpParser.new.parseRequest buf).2.2.readable ∧
        c.request.getPath b = some (HttpParser.new.parseRequest buf).2.1.getPath) ∧
    ((HttpParser.new.parseRequest buf).1 = false →
      ∀ ok c b, HttpContext.new.parseRequest stored = some (ok, c, b) → c.gotAll = false)

/-- What the grammar of `HttpParser` asks of the parts of a head, its body apart. -/
structure RequestHead.Strict (r : RequestHead) : Prop where
  method_token : r.method ≠ [] ∧ ∀ ch ∈ r.method, isTokenCharacter ch = true
  target_visible : r.target ≠ [] ∧ ∀ ch ∈ r.target, 0x20 < ch ∧ ch ≠ 0x7F
  fields_ok : ∀ f ∈ r.fields, FieldOk f
  names_distinct : (r.fields.map fieldKey).Nodup
  no_transferEncoding : ∀ f ∈ r.fields, toLowerAscii f.1 ≠ transferEncoding
  last_blank : r.last = []

/-- A text is cut at the first delimiter in one way. -/
theorem eq_of_cut {d : UInt8} {x x' y y' : Bytes} (hx : d ∉ x) (hx' : d ∉ x')
    (h : x ++ d :: y = x' ++ d :: y') : x = x' ∧ y = y' := by
  have h1 : splitAt d (x ++ d :: y) = some (x, y) := splitAt_eq_some.mpr ⟨rfl, hx⟩
  have h2 : splitAt d (x ++ d :: y) = some (x', y') := splitAt_eq_some.mpr ⟨h, hx'⟩
  rw [h1] at h2
  cases h2
  exact ⟨rfl, rfl⟩

/-- The header lines announce one length. -/
theorem BodyLength.unique {fields : List (Bytes × Bytes)} {m n : ℕ} (hm : BodyLength fields m)
    (hn : BodyLength fields n) : m = n := by
  by_cases hc : ∃ f ∈ fields, toLowerAscii f.1 = contentLength
  · obtain ⟨f, hf, hk⟩ := hc
    rw [(hm.1 f hf hk).2.2.2, (hn.1 f hf hk).2.2.2]
  · push Not at hc
    rw [hm.2 hc, hn.2 hc]

namespace HttpParser

/-! ## A head in front of `HttpParser` -/

/-- With a strict head the parser waits for the body it announces. -/
theorem drain_strict {r : RequestHead} (hr : r.Strict) {n : ℕ} (hn : BodyLength r.fields n)
    (s : Bytes) :
    (s.length < n → (consumer.drain new (r.text ++ s)).1.state = .expectBody) ∧
      (n ≤ s.length → (consumer.drain new (r.text ++ s)).1.state = .gotAll ∧
        (consumer.drain new (r.text ++ s)).2 = s.drop n) := by
  constructor
  · intro hlt
    have hsplit : r.text ++ s = requestLine r.method r.target r.version ++ kCRLF ++
        (fieldLines r.fields ++ (kCRLF ++ s)) := by
      simp [RequestHead.text, hr.last_blank]
    have hsearch : search kCRLF (kCRLF ++ s) = some 0 := by
      simpa using search_line (List.not_mem_nil (a := 0x0D)) s
    obtain ⟨hte, hcl⟩ := (finishes_recorded hr.names_distinct).mpr ⟨hr.no_transferEncoding, hn⟩
    rw [hsplit, drain_requestLine hr.method_token hr.target_visible r.version_known,
      drain_fieldLines hr.fields_ok hr.names_distinct rfl (fun _ _ => rfl)]
    cases hl : (recorded r.fields).lookup contentLength with
    | none =>
      simp only [hl] at hcl
      omega
    | some value =>
      simp only [hl] at hcl
      have hfin : finishHeaders
          { state := .expectHeaders, method := r.method, path := r.target, version := r.version,
            headers := [] ++ recorded r.fields } =
          some { state := .expectBody, method := r.method, path := r.target, version := r.version,
                 headers := recorded r.fields, expectedBodyLength := n } := by
        simp [finishHeaders, hte, hl, hcl]
      rw [drain_of_move (move_blankLine rfl hsearch hfin), show (kCRLF ++ s).drop 2 = s from rfl,
        drain_of_move_none (by simp [move, hlt])]
  · intro hle
    have hbody : (s.take n).length = n := by
      rw [List.length_take]
      omega
    let sentence : Sentence :=
      { method := r.method
        target := r.target
        version := r.version
        fields := r.fields
        body := s.take n
        method_token := hr.method_token
        target_visible := hr.target_visible
        version_known := r.version_known
        fields_ok := hr.fields_ok
        names_distinct := hr.names_distinct
        no_transferEncoding := hr.no_transferEncoding
        body_length := by rw [hbody]; exact hn }
    have hsplit : r.text ++ s = sentence.text ++ s.drop n := by
      simp [RequestHead.text, Sentence.text, sentence, hr.last_blank]
    rw [hsplit, drain_text]
    exact ⟨rfl, rfl⟩

/-- What the blank line has found when it goes on. -/
theorem finishes_of_finishHeaders {p q : HttpParser} (h : p.finishHeaders = some q) :
    ∃ n, Finishes p.headers n := by
  simp only [finishHeaders, Option.ite_none_left_eq_some, Option.not_isSome_iff_eq_none] at h
  obtain ⟨hte, h⟩ := h
  cases hl : p.headers.lookup contentLength with
  | none => exact ⟨0, hte, by rw [hl]⟩
  | some value =>
    rw [hl] at h
    cases hv : parseContentLength value with
    | none => simp [hv] at h
    | some n => exact ⟨n, hte, by rw [hl]; exact hv⟩

/-- A move into the error state ends the drain there. -/
theorem drain_fail {p q : HttpParser} {b : Bytes} {k : ℕ} (h : p.move b = some (q, k))
    (hq : q.state = .error) : (consumer.drain p b).1.state = .error := by
  rw [drain_of_move_finished h (.inr hq)]
  exact hq

/-- A line of which `processHeaderLine` makes no field is rejected. -/
theorem move_badHeaderLine {p : HttpParser} {line : Bytes} (hs : p.state = .expectHeaders)
    (hline : IsLine line) (hne : line.length ≠ 0) (hl : p.processHeaderLine line = none)
    (rest : Bytes) : p.move (line ++ kCRLF ++ rest) = some (p.fail, 0) := by
  simp only [move, hs, hline.search rest, Option.map_some, take_line, hl]
  rw [if_neg hne]

/-- The line behind the fields is blank, since it has no colon. -/
theorem blank_of_drain {last : Bytes} (hlast : COLON ∉ last ∧ IsLine last) (s : Bytes)
    {p : HttpParser} (hs : p.state = .expectHeaders)
    (hd : (consumer.drain p (last ++ kCRLF ++ s)).1.state ≠ .error) :
    last = [] ∧ ∃ n, Finishes p.headers n := by
  have hblank : last = [] := by
    by_contra hne
    have hline : p.processHeaderLine last = none := by
      cases hl : p.processHeaderLine last with
      | none => rfl
      | some q =>
        obtain ⟨name, value, rfl, -⟩ := processHeaderLine_eq_some.mp hl
        exact absurd (by simp) hlast.1
    exact hd (drain_fail (move_badHeaderLine hs hlast.2 (by simpa using hne) hline s) rfl)
  subst hblank
  refine ⟨rfl, ?_⟩
  cases hf : p.finishHeaders with
  | none =>
    have hm : p.move ([] ++ kCRLF ++ s) = some (p.fail, 2) := by
      simp only [move, hs, hlast.2.search s, Option.map_some, List.length_nil, if_true, hf,
        Option.getD_none]
    exact absurd (drain_fail hm rfl) hd
  | some q => exact finishes_of_finishHeaders hf

/-- Header lines that the parser does not reject are those of the grammar, and end at a blank
    line. -/
theorem strict_of_drain_fields {fields : List (Bytes × Bytes)}
    (hok : ∀ f ∈ fields, COLON ∉ f.1 ∧ IsLine (f.1 ++ COLON :: f.2)) {last : Bytes}
    (hlast : COLON ∉ last ∧ IsLine last) (s : Bytes) {p : HttpParser}
    (hs : p.state = .expectHeaders)
    (hd : (consumer.drain p (fieldLines fields ++ (last ++ kCRLF ++ s))).1.state ≠ .error) :
    (∀ f ∈ fields, FieldOk f) ∧ (fields.map fieldKey).Nodup ∧
      (∀ f ∈ fields, p.headers.lookup (fieldKey f) = none) ∧ last = [] ∧
      ∃ n, Finishes (p.headers ++ recorded fields) n := by
  induction fields generalizing p with
  | nil =>
    simp only [fieldLines, List.flatMap_nil, List.nil_append] at hd
    obtain ⟨hblank, hfin⟩ := blank_of_drain hlast s hs hd
    rw [show p.headers ++ recorded [] = p.headers from List.append_nil _]
    exact ⟨by simp, by simp, by simp, hblank, hfin⟩
  | cons f fs ih =>
    obtain ⟨hcolon, hline⟩ := hok f (List.mem_cons_self ..)
    have hsplit : fieldLines (f :: fs) ++ (last ++ kCRLF ++ s) =
        (f.1 ++ COLON :: f.2) ++ kCRLF ++ (fieldLines fs ++ (last ++ kCRLF ++ s)) := by
      simp [fieldLines]
    rw [hsplit] at hd
    have hsearch := hline.search (fieldLines fs ++ (last ++ kCRLF ++ s))
    have hne : (f.1 ++ COLON :: f.2).length ≠ 0 := by simp
    cases hl : p.processHeaderLine (f.1 ++ COLON :: f.2) with
    | none => exact absurd (drain_fail (move_badHeaderLine hs hline hne hl _) rfl) hd
    | some q =>
      have hm := move_headerLine hs hsearch hne (by rw [take_line]; exact hl)
      rw [drain_of_move hm, drop_line] at hd
      obtain ⟨name, value, hparts, hname, hvalue, hnew, rfl⟩ := processHeaderLine_eq_some.mp hl
      have hnc : COLON ∉ name := fun h => (isTokenCharacter_ne (hname.2 _ h)).2.1 rfl
      obtain ⟨rfl, rfl⟩ := eq_of_cut hcolon hnc hparts
      obtain ⟨hfs, hnd, hlook, hb, n, hfin⟩ :=
        ih (fun g hg => hok g (List.mem_cons_of_mem _ hg))
          (p := { p with headers := p.headers ++ [(toLowerAscii f.1, trim f.2)] }) hs hd
      have hapart : ∀ g ∈ fs, p.headers.lookup (fieldKey g) = none ∧
          fieldKey g ≠ toLowerAscii f.1 := by
        intro g hg
        have h2 := hlook g hg
        simp only [List.lookup_append, Option.or_eq_none_iff] at h2
        refine ⟨h2.1, fun he => ?_⟩
        simp [he] at h2
      refine ⟨List.forall_mem_cons.mpr ⟨⟨hname, hvalue⟩, hfs⟩, ?_,
        List.forall_mem_cons.mpr ⟨hnew, fun g hg => (hapart g hg).1⟩, hb, n, ?_⟩
      · rw [List.map_cons, List.nodup_cons]
        refine ⟨fun hmem => ?_, hnd⟩
        obtain ⟨g, hg, he⟩ := List.mem_map.mp hmem
        exact (hapart g hg).2 he
      · simpa [recorded, fieldKey] using hfin

/-- A head that the parser does not reject is strict, and announces a length. -/
theorem strict_of_drain {r : RequestHead} {s : Bytes}
    (hd : (consumer.drain new (r.text ++ s)).1.state ≠ .error) :
    r.Strict ∧ ∃ n, BodyLength r.fields n := by
  have hsplit : r.text ++ s = requestLine r.method r.target r.version ++ kCRLF ++
      (fieldLines r.fields ++ (r.last ++ kCRLF ++ s)) := by
    simp [RequestHead.text]
  rw [hsplit] at hd
  have hsearch := r.requestLine_isLine.search (fieldLines r.fields ++ (r.last ++ kCRLF ++ s))
  cases hl : new.processRequestLine (requestLine r.method r.target r.version) with
  | none =>
    have hm : new.move (requestLine r.method r.target r.version ++ kCRLF ++
        (fieldLines r.fields ++ (r.last ++ kCRLF ++ s))) = some (new.fail, 0) := by
      simp only [move, show new.state = .expectRequestLine from rfl, hsearch, Option.map_some,
        take_line, hl]
    exact absurd (drain_fail hm rfl) hd
  | some q =>
    rw [drain_of_move (move_requestLine rfl hsearch (by rw [take_line]; exact hl)),
      drop_line] at hd
    obtain ⟨method, target, version, hparts, hm, ht, hv, rfl⟩ := processRequestLine_eq_some.mp hl
    have hmsp : SP ∉ method := fun h => (isTokenCharacter_ne (hm.2 _ h)).1 rfl
    have htsp : SP ∉ target := fun h => absurd (ht.2 _ h).1 (by decide)
    obtain ⟨rfl, hrest⟩ := eq_of_cut r.method_noSpace hmsp hparts
    obtain ⟨rfl, rfl⟩ := eq_of_cut r.target_noSpace htsp hrest
    obtain ⟨hok, hnd, -, hb, n, hfin⟩ := strict_of_drain_fields r.fields_colon r.last_noColon s rfl hd
    obtain ⟨hte, hbody⟩ := (finishes_recorded hnd).mp (show Finishes (recorded r.fields) n from hfin)
    exact ⟨⟨hm, ht, hok, hnd, hte, hb⟩, n, hbody⟩

end HttpParser

/-! ## The two parsers -/

theorem parseRequest_new_of_drain (stored : StoredBuffer) :
    ∃ ok c b, HttpContext.new.parseRequest stored = some (ok, c, b) ∧
      c.state = (HttpHead.consumer.drain .new stored.readable).1.state ∧
      b.readable = (HttpHead.consumer.drain .new stored.readable).2 ∧
      (ok = true → c.Shows b (HttpHead.consumer.drain .new stored.readable).1) ∧
      (ok = false → c.state = .expectRequestLine) := by
  obtain ⟨ok, c, b, hp, hstate, hrest, hshow, hno⟩ :=
    HttpContext.parseRequest_agrees (HttpContext.shows_new stored) (.inl rfl)
  exact ⟨ok, c, b, hp, hstate, hrest, hshow, fun h => (hno h).1⟩

/-- In front of a head a context gets all, with its target for the path. -/
theorem parseRequest_text (r : RequestHead) {s : Bytes} {stored : StoredBuffer}
    (hs : stored.readable = r.text ++ s) :
    ∃ c b, HttpContext.new.parseRequest stored = some (true, c, b) ∧ c.gotAll = true ∧
      b.readable = s ∧ c.request.getPath b = some r.target := by
  obtain ⟨ok, c, b, hp, hstate, hrest, hshow, hno⟩ := parseRequest_new_of_drain stored
  rw [hs, HttpHead.drain_text] at hstate hrest hshow
  have hgot : c.state = .gotAll := hstate
  cases ok with
  | false =>
    rw [hno rfl] at hgot
    cases hgot
  | true =>
    refine ⟨c, b, hp, by simp [HttpContext.gotAll, hgot], hrest, ?_⟩
    rw [HttpRequest.getPath, (hshow rfl).path.1, HttpHead.path_ofRequestHead]

/-- A context that gets all stands behind a head. -/
theorem exists_requestHead_of_gotAll {stored b : StoredBuffer} {c : HttpContext} {ok : Bool}
    (h : HttpContext.new.parseRequest stored = some (ok, c, b)) (hg : c.gotAll = true) :
    ∃ r : RequestHead, stored.readable = r.text ++ b.readable := by
  obtain ⟨ok', c', b', hp, hstate, hrest, -⟩ := parseRequest_new_of_drain stored
  rw [h] at hp
  cases hp
  rw [hrest]
  apply HttpHead.exists_requestHead_of_drain
  rw [← hstate]
  exact of_decide_eq_true hg

/-- The head of a sentence, as the parser with views cuts it. -/
def Sentence.head (r : Sentence) : RequestHead where
  method := r.method
  target := r.target
  version := r.version
  fields := r.fields
  last := []
  method_noSpace := fun h => (isTokenCharacter_ne (r.method_token.2 _ h)).1 rfl
  target_noSpace := fun h => absurd (r.target_visible.2 _ h).1 (by decide)
  version_known := r.version_known
  requestLine_isLine := by
    have h := search_line (cr_notMem_requestLine r.method_token.2 r.target_visible.2
      r.version_known) []
    rwa [List.append_nil] at h
  fields_colon := by
    intro f hf
    have hok := r.fields_ok f hf
    have h := search_line (cr_notMem_field hok) []
    rw [List.append_nil] at h
    exact ⟨fun hc => (isTokenCharacter_ne (hok.1.2 _ hc)).2.1 rfl, h⟩
  last_noColon := blank_isLine

theorem Sentence.text_eq_head (r : Sentence) : r.text = r.head.text ++ r.body := by
  simp [Sentence.text, RequestHead.text, Sentence.head]

/-- Where they agree, a head is one of the strict grammar, and its body has not arrived. -/
theorem BoundariesAgree.strict {r : RequestHead} {s : Bytes} (h : BoundariesAgree (r.text ++ s)) :
    r.Strict ∧ ∃ n, BodyLength r.fields n ∧ (n = 0 ∨ s.length < n) := by
  let buf := (Buffer.new).append (r.text ++ s)
  let stored := (StoredBuffer.new).append max (r.text ++ s)
  have hbuf : buf.readable = r.text ++ s := by simp [buf]
  have hstored : stored.readable = r.text ++ s := by simp [stored]
  obtain ⟨haccept, hreject⟩ := h buf stored hbuf hstored
  obtain ⟨hd, hok⟩ := HttpParser.parseRequest_eq_drain .new buf
  obtain ⟨c, b, hparse, hgot, hrest, -⟩ := parseRequest_text r hstored
  rw [hbuf] at hd
  -- the context has got all, so the parser has not rejected
  have hnot : (HttpParser.new.parseRequest buf).1 = true := by
    by_contra hn
    have := hreject (by simpa using hn) _ _ _ hparse
    rw [hgot] at this
    cases this
  have hstate := hok.mp hnot
  rw [(Prod.mk.inj hd).1] at hstate
  obtain ⟨hstrict, n, hn⟩ := HttpParser.strict_of_drain hstate
  refine ⟨hstrict, n, hn, ?_⟩
  by_contra hbody
  -- a body that has arrived is used up by the parser alone
  have hle : n ≤ s.length := by omega
  obtain ⟨hall, hleft⟩ := (HttpParser.drain_strict hstrict hn s).2 hle
  rw [← (Prod.mk.inj hd).1] at hall
  obtain ⟨ok', c', b', hparse', -, hsame, -⟩ := haccept (by simp [HttpParser.gotAll, hall])
  rw [hparse] at hparse'
  cases hparse'
  rw [hrest, (Prod.mk.inj hd).2, hleft] at hsame
  have hlen := congrArg List.length hsame
  rw [List.length_drop] at hlen
  omega

/-- What the parser gets all of is a head with nothing behind it, where every announced body is
    empty or has not arrived. -/
theorem exists_head_of_gotAll {bytes : Bytes}
    (hheads : ∀ (r : RequestHead) (s : Bytes), bytes = r.text ++ s →
      ∃ n, BodyLength r.fields n ∧ (n = 0 ∨ s.length < n))
    (hall : (HttpParser.consumer.drain .new bytes).1.state = .gotAll) :
    ∃ r : RequestHead, bytes = r.text ++ (HttpParser.consumer.drain .new bytes).2 ∧
      (HttpParser.consumer.drain .new bytes).1.getPath = r.target := by
  obtain ⟨r, hr⟩ := HttpParser.exists_sentence_of_drain rfl hall
  generalize hs : (HttpParser.consumer.drain .new bytes).2 = s at hr
  have hread : bytes = r.head.text ++ (r.body ++ s) := by
    rw [hr, r.text_eq_head, List.append_assoc]
  obtain ⟨n, hn, hbody⟩ := hheads r.head (r.body ++ s) hread
  have hempty : r.body = [] := by
    have hlen : n = r.body.length := hn.unique r.body_length
    rw [List.length_append] at hbody
    apply List.length_eq_zero_iff.mp
    omega
  rw [hempty, List.nil_append] at hread
  refine ⟨r.head, hread, ?_⟩
  have hsent := HttpParser.drain_text r s
  rw [← hr] at hsent
  rw [hsent]
  rfl

/-- In front of a strict head the parser does not reject. -/
theorem drain_ne_error {r : RequestHead} (hr : r.Strict) {n : ℕ} (hn : BodyLength r.fields n)
    (s : Bytes) : (HttpParser.consumer.drain .new (r.text ++ s)).1.state ≠ .error := by
  obtain ⟨hwait, hall⟩ := HttpParser.drain_strict hr hn s
  rcases Nat.lt_or_ge s.length n with hlt | hle
  · rw [hwait hlt]
    decide
  · rw [(hall hle).1]
    decide

/-- **When the two parsers cut a stream at the same place**: every reading of the bytes as a
    request line with two spaces, header lines with a colon and a line without one is a head of
    the strict grammar, and the body that it announces is empty or has not arrived. -/
theorem boundaries_agree_iff (bytes : Bytes) :
    BoundariesAgree bytes ↔ ∀ (r : RequestHead) (s : Bytes), bytes = r.text ++ s →
      r.Strict ∧ ∃ n, BodyLength r.fields n ∧ (n = 0 ∨ s.length < n) := by
  constructor
  · rintro h r s rfl
    exact h.strict
  · intro h buf stored hbuf hstored
    obtain ⟨hd, hok⟩ := HttpParser.parseRequest_eq_drain .new buf
    rw [hbuf] at hd
    obtain ⟨hparser, hleft⟩ := Prod.mk.inj hd
    constructor
    · intro hgot
      have hall : (HttpParser.consumer.drain .new bytes).1.state = .gotAll := by
        rw [← hparser]
        exact of_decide_eq_true hgot
      obtain ⟨r, hread, htarget⟩ := exists_head_of_gotAll (fun r s hr => (h r s hr).2) hall
      obtain ⟨c, b, hparse, hcgot, hrest, hpath⟩ := parseRequest_text r (hstored.trans hread)
      refine ⟨true, c, b, hparse, hcgot, ?_, ?_⟩
      · rw [hrest, hleft]
      · rw [hpath, hparser, htarget]
    · intro hno ok c b hparse
      by_contra hgot
      obtain ⟨r, hr⟩ := exists_requestHead_of_gotAll hparse (by simpa using hgot)
      rw [hstored] at hr
      obtain ⟨hstrict, n, hn, -⟩ := h r _ hr
      have hstate := drain_ne_error hstrict hn b.readable
      rw [← hr, ← hparser] at hstate
      rw [hok.mpr hstate] at hno
      cases hno

/-- `POST / HTTP/1.1` with `content-length:1` and the body `a`. -/
def postWithBody : Sentence :=
  { HttpParser.rootRequest with
    method := methodPOST
    fields := [(contentLength, [0x31])]
    body := [0x61]
    method_token := by decide +kernel
    fields_ok := by
      unfold FieldOk
      decide +kernel
    names_distinct := by decide
    no_transferEncoding := by decide
    body_length := by
      unfold BodyLength
      decide +kernel }

/-- The body of a request is left for the next one. -/
theorem boundaries_disagree : ¬ BoundariesAgree postWithBody.text := by
  intro h
  have hread : ((Buffer.new).append postWithBody.text).readable = postWithBody.text := by simp
  have hstored : ((StoredBuffer.new).append max postWithBody.text).readable =
      postWithBody.text := by simp
  obtain ⟨haccept, -⟩ := h _ _ hread hstored
  have hd := (HttpParser.parseRequest_eq_drain .new ((Buffer.new).append postWithBody.text)).1
  have hall := HttpParser.drain_text postWithBody []
  rw [List.append_nil] at hall
  rw [hread, hall] at hd
  obtain ⟨hp, hs⟩ := Prod.mk.inj hd
  obtain ⟨ok, c, b, hparse, -, hsame, -⟩ := haccept (by rw [hp]; rfl)
  obtain ⟨c', b', hparse', -, hrest, -⟩ :=
    parseRequest_text postWithBody.head (hstored.trans postWithBody.text_eq_head)
  rw [hparse] at hparse'
  cases hparse'
  rw [hrest, hs] at hsame
  cases hsame

end AegisNet
