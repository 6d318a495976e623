import AegisNet.Tcp.HttpContext.Heads

/-!
# The grammar of the parser with views

A `RequestHead` is a text that brings an `HttpContext` to `kGotAll`, taken apart: a request line
cut at its first two spaces, header lines cut at their first colon, and the first line without a
colon, whatever it holds. Nothing else is asked of the parts.

## Main definitions

- `RequestHead` — a request line, header lines with a colon, and a line without one

## Main results

- `HttpHead.drain_text` — completeness, with what is shown
- `HttpHead.exists_requestHead_of_drain` — soundness
-/

namespace AegisNet

open ListSearch Buffer

/-- A line ends at the first CR LF. -/
def IsLine (line : Bytes) : Prop := search kCRLF (line ++ kCRLF) = some line.length

instance (line : Bytes) : Decidable (IsLine line) := by
  unfold IsLine
  infer_instance

theorem IsLine.search {line : Bytes} (h : IsLine line) (rest : Bytes) :
    search kCRLF (line ++ kCRLF ++ rest) = some line.length :=
  search_append h rest

/-- The blank line. -/
theorem blank_isLine : COLON ∉ ([] : Bytes) ∧ IsLine [] := ⟨List.not_mem_nil, rfl⟩

/-- A text cut at its first CR LF. -/
theorem isLine_take {b : Bytes} {crlf : ℕ} (h : search kCRLF b = some crlf) :
    IsLine (b.take crlf) ∧ b = b.take crlf ++ kCRLF ++ b.drop (crlf + 2) := by
  have hle := HttpParser.search_kCRLF_le h
  have hlen : (b.take crlf).length = crlf := by
    rw [List.length_take]
    omega
  obtain ⟨r, hr⟩ := search_spec h
  have hline : b.take (crlf + 2) = b.take crlf ++ kCRLF := by
    conv_lhs => rw [hr]
    apply List.take_left'
    rw [List.length_append, hlen]
    rfl
  refine ⟨?_, ?_⟩
  · rw [IsLine, ← hline, hlen]
    exact search_take h
  · rw [← hline, List.take_append_drop]

/-- The parts of a text that a context takes for a request head. -/
structure RequestHead where
  method : Bytes
  target : Bytes
  version : Bytes
  fields : List (Bytes × Bytes)
  last : Bytes
  method_noSpace : SP ∉ method
  target_noSpace : SP ∉ target
  version_known : version = http10 ∨ version = http11
  requestLine_isLine : IsLine (requestLine method target version)
  fields_colon : ∀ f ∈ fields, COLON ∉ f.1 ∧ IsLine (f.1 ++ COLON :: f.2)
  last_noColon : COLON ∉ last ∧ IsLine last

namespace RequestHead

/-- The head as it is sent. -/
def text (r : RequestHead) : Bytes :=
  requestLine r.method r.target r.version ++ kCRLF ++ fieldLines r.fields ++ r.last ++ kCRLF

end RequestHead

namespace HttpHead

/-- The header lines, one after the other. -/
def addFields (h : HttpHead) (fields : List (Bytes × Bytes)) : HttpHead :=
  fields.foldl (fun h f => h.addHeader f.1 f.2) h

/-- What is shown after a head. -/
def ofRequestHead (r : RequestHead) : HttpHead :=
  { addFields
      { state := .expectHeaders
        method := HttpRequest.recognize .invalid r.method
        version := (versionOf r.version).getD .unknown
        path := r.target } r.fields with
    state := .gotAll }

theorem addFields_rest (h : HttpHead) (fields : List (Bytes × Bytes)) :
    (h.addFields fields).state = h.state ∧ (h.addFields fields).path = h.path := by
  induction fields generalizing h with
  | nil => exact ⟨rfl, rfl⟩
  | cons f fs ih => exact ih (h.addHeader f.1 f.2)

@[simp] theorem path_ofRequestHead (r : RequestHead) : (ofRequestHead r).path = r.target :=
  (addFields_rest _ r.fields).2

/-! ## Completeness -/

theorem drain_line {h h' : HttpHead} {line : Bytes} (hl : IsLine line)
    (hm : h.state = .expectRequestLine ∧ h.requestLine line = some h' ∨
      h.state = .expectHeaders ∧ h.headerLine line = h') (rest : Bytes) :
    consumer.drain h (line ++ kCRLF ++ rest) = consumer.drain h' rest := by
  have hmove : h.move (line ++ kCRLF ++ rest) = some (h', line.length + 2) := by
    refine move_eq_some.mpr ⟨line.length, hl.search rest, rfl, ?_⟩
    rwa [take_line]
  rw [drain_of_move hmove, drop_line]

theorem drain_fields {fields : List (Bytes × Bytes)}
    (hok : ∀ f ∈ fields, COLON ∉ f.1 ∧ IsLine (f.1 ++ COLON :: f.2)) {h : HttpHead}
    (hs : h.state = .expectHeaders) (rest : Bytes) :
    consumer.drain h (fieldLines fields ++ rest) = consumer.drain (h.addFields fields) rest := by
  induction fields generalizing h with
  | nil => rfl
  | cons f fs ih =>
    have hf := hok f (List.mem_cons_self ..)
    have hsplit : fieldLines (f :: fs) ++ rest =
        (f.1 ++ COLON :: f.2) ++ kCRLF ++ (fieldLines fs ++ rest) := by
      simp [fieldLines]
    have hline : h.headerLine (f.1 ++ COLON :: f.2) = h.addHeader f.1 f.2 := by
      have hcut : splitAt COLON (f.1 ++ COLON :: f.2) = some (f.1, f.2) :=
        splitAt_eq_some.mpr ⟨rfl, hf.1⟩
      simp only [headerLine, hcut]
    rw [hsplit, drain_line hf.2 (.inr ⟨hs, hline⟩)]
    exact ih (fun g hg => hok g (List.mem_cons_of_mem _ hg)) hs

theorem requestLine_of_parts {method target version : Bytes} (hm : SP ∉ method)
    (ht : SP ∉ target) (hv : version = http10 ∨ version = http11) (h : HttpHead) :
    h.requestLine (AegisNet.requestLine method target version) =
      some { h with
        state := .expectHeaders
        method := HttpRequest.recognize h.method method
        path := target
        version := (versionOf version).getD .unknown } := by
  have h1 : splitAt SP (AegisNet.requestLine method target version) =
      some (method, target ++ SP :: version) := splitAt_eq_some.mpr ⟨rfl, hm⟩
  have h2 : splitAt SP (target ++ SP :: version) = some (target, version) :=
    splitAt_eq_some.mpr ⟨rfl, ht⟩
  simp only [requestLine, h1, h2, Option.bind_some]
  rcases hv with rfl | rfl
  · rfl
  · rfl

/-- **Completeness**: every head is taken, whatever follows it. -/
theorem drain_text (r : RequestHead) (rest : Bytes) :
    consumer.drain new (r.text ++ rest) = (ofRequestHead r, rest) := by
  have hsplit : r.text ++ rest = AegisNet.requestLine r.method r.target r.version ++ kCRLF ++
      (fieldLines r.fields ++ (r.last ++ kCRLF ++ rest)) := by
    simp [RequestHead.text]
  have hline := requestLine_of_parts r.method_noSpace r.target_noSpace r.version_known new
  rw [hsplit, drain_line r.requestLine_isLine (.inl ⟨rfl, hline⟩), drain_fields r.fields_colon rfl,
    drain_line r.last_noColon.2 (.inr ⟨(addFields_rest _ _).1, rfl⟩), headerLine,
    splitAt_eq_none.mpr r.last_noColon.1]
  exact drain_of_move_none (move_of_gotAll rfl rest)

/-! ## Soundness -/

/-- Lines with a colon, up to one without. -/
theorem exists_fields_of_drain (h : HttpHead) (b : Bytes) (hs : h.state = .expectHeaders)
    (hg : (consumer.drain h b).1.state = .gotAll) :
    ∃ fields last, (∀ f ∈ fields, COLON ∉ f.1 ∧ IsLine (f.1 ++ COLON :: f.2)) ∧
      (COLON ∉ last ∧ IsLine last) ∧
      b = fieldLines fields ++ last ++ kCRLF ++ (consumer.drain h b).2 := by
  induction h, b using consumer.drain_induction with
  | wait h b hstep =>
    rw [consumer.drain_of_none hstep, hs] at hg
    cases hg
  | next h b h' b' hstep ih =>
    rw [consumer.drain_of_some hstep] at hg ⊢
    simp only [consumer, Option.map_eq_some_iff, Prod.exists, Prod.mk.injEq] at hstep
    obtain ⟨q, k, hm, rfl, rfl⟩ := hstep
    obtain ⟨crlf, hcr, rfl, ⟨hn, -⟩ | ⟨-, hl⟩⟩ := move_eq_some.mp hm
    · rw [hs] at hn
      cases hn
    · obtain ⟨hisLine, hb⟩ := isLine_take hcr
      rw [headerLine] at hl
      split at hl
      · next field afterColon hcut =>
        subst hl
        obtain ⟨hline, hcolon⟩ := splitAt_eq_some.mp hcut
        obtain ⟨fields, last, hfields, hlast, hrest⟩ := ih hs hg
        refine ⟨(field, afterColon) :: fields, last, ?_, hlast, ?_⟩
        · intro f hf
          rcases List.mem_cons.mp hf with rfl | hf
          · exact ⟨hcolon, hline ▸ hisLine⟩
          · exact hfields f hf
        · conv_lhs => rw [hb, hline, hrest]
          simp [fieldLines]
      · next hcut =>
        subst hl
        rw [drain_of_move_none (move_of_gotAll rfl _)]
        exact ⟨[], b.take crlf, by simp, ⟨splitAt_eq_none.mp hcut, hisLine⟩,
          by simpa [fieldLines] using hb⟩

/-- **Soundness**: what brings a fresh context to `kGotAll` begins with a head. -/
theorem exists_requestHead_of_drain {b : Bytes} (hg : (consumer.drain new b).1.state = .gotAll) :
    ∃ r : RequestHead, b = r.text ++ (consumer.drain new b).2 := by
  cases hm : new.move b with
  | none =>
    rw [drain_of_move_none hm] at hg
    cases hg
  | some x =>
    obtain ⟨h', k⟩ := x
    rw [drain_of_move hm] at hg ⊢
    obtain ⟨crlf, hcr, rfl, ⟨-, hl⟩ | ⟨hn, -⟩⟩ := move_eq_some.mp hm
    · obtain ⟨hisLine, hb⟩ := isLine_take hcr
      simp only [requestLine, Option.bind_eq_some_iff, Option.map_eq_some_iff, Prod.exists,
        splitAt_eq_some] at hl
      obtain ⟨method, _, ⟨hline, hmethod⟩, target, version, ⟨rfl, htarget⟩, v, hv, rfl⟩ := hl
      obtain ⟨fields, last, hfields, hlast, hrest⟩ := exists_fields_of_drain _ _ rfl hg
      have hknown : version = http10 ∨ version = http11 := by
        rw [versionOf] at hv
        split at hv
        · next h10 => exact .inl h10
        · split at hv
          · next h11 => exact .inr h11
          · cases hv
      rw [hline] at hisLine
      refine ⟨⟨method, target, version, fields, last, hmethod, htarget, hknown, hisLine, hfields,
        hlast⟩, ?_⟩
      conv_lhs => rw [hb, hline, hrest]
      simp [RequestHead.text, AegisNet.requestLine]
    · cases hn

end HttpHead

end AegisNet
