import AegisNet.Lib.Incremental
import AegisNet.Tcp.HttpParser

/-!
# The parser as a consumer of a byte stream

`HttpParser.move` says what the parser does next with the bytes in front of it, without a buffer
and without a loop. A move is decided by the bytes it uses, so the moves form an incremental
consumer, and `parseRequest` on a `Buffer` is the drain of that consumer on the readable bytes.

## Main results

- `HttpParser.move_append` — what arrives later does not change a move
- `HttpParser.parseRequest_eq_drain` — `parseRequest` computes the drain
-/

namespace AegisNet

namespace HttpParser

open ListSearch Buffer

/-- The next move of the parser on the bytes `b`: `none` to wait for more, otherwise the new
    parser and the number of bytes used up. -/
def move (p : HttpParser) (b : Bytes) : Option (HttpParser × ℕ) :=
  match p.state with
  | .expectRequestLine =>
    (search kCRLF b).map fun crlf =>
      match p.processRequestLine (b.take crlf) with
      | none => (p.fail, 0)
      | some p' => ({ p' with state := .expectHeaders }, crlf + 2)
  | .expectHeaders =>
    (search kCRLF b).map fun crlf =>
      if crlf = 0 then (p.finishHeaders.getD p.fail, 2)
      else
        match p.processHeaderLine (b.take crlf) with
        | none => (p.fail, 0)
        | some p' => (p', crlf + 2)
  | .expectBody =>
    if b.length < p.expectedBodyLength then none
    else
      some ({ p with body := b.take p.expectedBodyLength, state := .gotAll },
        p.expectedBodyLength)
  | .gotAll | .error => none

/-- How far a parser state is from waiting for the next request, in the measure that every move
    and every reset lowers. -/
def stateRank : HttpRequestParseState → ℕ
  | .error => 0
  | .expectRequestLine => 1
  | .expectHeaders => 2
  | .gotAll => 2
  | .expectBody => 3

/-- The blank line leads to one of the two states behind the headers. -/
theorem finishHeaders_state {p p' : HttpParser} (h : p.finishHeaders = some p') :
    p'.state = .gotAll ∨ p'.state = .expectBody := by
  simp only [finishHeaders, Option.ite_none_left_eq_some] at h
  obtain ⟨-, h⟩ := h
  split at h
  · cases h; exact Or.inl rfl
  · split at h
    · cases h
    · cases h; exact Or.inr rfl

/-- A header line leaves the state alone. -/
theorem processHeaderLine_state {p p' : HttpParser} {line : Bytes}
    (h : p.processHeaderLine line = some p') : p'.state = p.state := by
  obtain ⟨_, _, _, _, _, _, rfl⟩ := processHeaderLine_eq_some.mp h
  rfl

/-- The two bytes of a CR LF are there. -/
theorem search_kCRLF_le {b : Bytes} {crlf : ℕ} (h : search kCRLF b = some crlf) :
    crlf + 2 ≤ b.length :=
  search_le h

/-- A move uses bytes that are there, and what arrives behind them does not change it. -/
theorem move_append {p p' : HttpParser} {b : Bytes} {k : ℕ} (h : p.move b = some (p', k)) :
    k ≤ b.length ∧ ∀ e, p.move (b ++ e) = some (p', k) := by
  unfold move at h ⊢
  cases hs : p.state with
  | expectRequestLine =>
    simp only [hs, Option.map_eq_some_iff] at h ⊢
    obtain ⟨crlf, hc, hm⟩ := h
    have hle := search_kCRLF_le hc
    refine ⟨?_, fun e => ⟨crlf, search_append hc e, ?_⟩⟩
    · split at hm <;> cases hm <;> omega
    · rwa [List.take_append_of_le_length (by omega)]
  | expectHeaders =>
    simp only [hs, Option.map_eq_some_iff] at h ⊢
    obtain ⟨crlf, hc, hm⟩ := h
    have hle := search_kCRLF_le hc
    refine ⟨?_, fun e => ⟨crlf, search_append hc e, ?_⟩⟩
    · split at hm
      · cases hm; omega
      · split at hm <;> cases hm <;> omega
    · rwa [List.take_append_of_le_length (by omega)]
  | expectBody =>
    simp only [hs, Option.ite_none_left_eq_some, Option.some.injEq, Prod.mk.injEq] at h ⊢
    obtain ⟨hlt, rfl, rfl⟩ := h
    refine ⟨by omega, fun e => ⟨by rw [List.length_append]; omega, ?_, rfl⟩⟩
    rw [List.take_append_of_le_length (by omega)]
  | gotAll => simp only [hs] at h; cases h
  | error => simp only [hs] at h; cases h

/-- A move that is no error needs only the bytes it uses. -/
theorem move_take {p p' : HttpParser} {b : Bytes} {k : ℕ} (h : p.move b = some (p', k))
    (he : p'.state ≠ .error) : p.move (b.take k) = some (p', k) := by
  unfold move at h ⊢
  cases hs : p.state with
  | expectRequestLine =>
    simp only [hs, Option.map_eq_some_iff] at h ⊢
    obtain ⟨crlf, hc, hm⟩ := h
    split at hm
    · cases hm
      exact absurd rfl he
    · next hl =>
      cases hm
      refine ⟨crlf, search_take hc, ?_⟩
      rw [List.take_take, min_eq_left (by omega), hl]
  | expectHeaders =>
    simp only [hs, Option.map_eq_some_iff] at h ⊢
    obtain ⟨crlf, hc, hm⟩ := h
    split at hm
    · next h0 =>
      cases hm
      exact ⟨crlf, by simpa [h0, kCRLF] using search_take hc, by rw [if_pos h0]⟩
    · next h0 =>
      split at hm
      · cases hm
        exact absurd rfl he
      · next hl =>
        cases hm
        refine ⟨crlf, search_take hc, ?_⟩
        rw [if_neg h0, List.take_take, min_eq_left (by omega), hl]
  | expectBody =>
    simp only [hs, Option.ite_none_left_eq_some, Option.some.injEq, Prod.mk.injEq] at h ⊢
    obtain ⟨hlt, rfl, rfl⟩ := h
    refine ⟨?_, ?_, rfl⟩
    · rw [List.length_take]
      omega
    · rw [List.take_take, min_self]
  | gotAll => simp only [hs] at h; cases h
  | error => simp only [hs] at h; cases h

/-- When one more byte makes a move possible, the move uses everything there is. -/
theorem move_concat {p p' : HttpParser} {b : Bytes} {x : UInt8} {k : ℕ} (hwait : p.move b = none)
    (h : p.move (b ++ [x]) = some (p', k)) (he : p'.state ≠ .error) :
    (b ++ [x]).drop k = [] := by
  rw [List.drop_eq_nil_iff]
  by_contra hlt
  have hk : k ≤ b.length := by
    rw [List.length_append, List.length_singleton] at hlt
    omega
  have htake := move_take h he
  rw [List.take_append_of_le_length hk] at htake
  -- the move would have been possible before the byte came
  have hbefore := (move_append htake).2 (b.drop k)
  rw [List.take_append_drop, hwait] at hbefore
  cases hbefore

/-- A move lowers the number of waiting bytes plus the rank of the state. -/
theorem move_rank {p p' : HttpParser} {b : Bytes} {k : ℕ} (h : p.move b = some (p', k)) :
    (b.drop k).length + stateRank p'.state < b.length + stateRank p.state := by
  rw [List.length_drop]
  unfold move at h
  cases hs : p.state with
  | expectRequestLine =>
    simp only [hs, Option.map_eq_some_iff] at h
    obtain ⟨crlf, hc, hm⟩ := h
    have hle := search_kCRLF_le hc
    split at hm
    · cases hm; simp only [fail, stateRank]; omega
    · cases hm; simp only [stateRank]; omega
  | expectHeaders =>
    simp only [hs, Option.map_eq_some_iff] at h
    obtain ⟨crlf, hc, hm⟩ := h
    have hle := search_kCRLF_le hc
    split at hm
    · cases hf : p.finishHeaders with
      | none => rw [hf] at hm; cases hm; simp only [Option.getD_none, fail, stateRank]; omega
      | some q =>
        rw [hf] at hm
        cases hm
        rcases finishHeaders_state hf with hq | hq
        · simp only [Option.getD_some, hq, stateRank]; omega
        · simp only [Option.getD_some, hq, stateRank]; omega
    · split at hm
      · cases hm; simp only [fail, stateRank]; omega
      · next hp =>
        cases hm
        rw [processHeaderLine_state hp, hs]
        simp only [stateRank]
        omega
  | expectBody =>
    simp only [hs, Option.ite_none_left_eq_some, Option.some.injEq, Prod.mk.injEq] at h
    obtain ⟨hlt, rfl, rfl⟩ := h
    simp only [stateRank]
    omega
  | gotAll => simp only [hs] at h; cases h
  | error => simp only [hs] at h; cases h

/-- The parser as an incremental consumer of bytes. -/
def consumer : Consumer HttpParser UInt8 where
  step p b := (p.move b).map fun (p', k) => (p', b.drop k)
  rank p b := b.length + stateRank p.state
  stable := by
    intro p b p' b' h e
    simp only [Option.map_eq_some_iff, Prod.exists, Prod.mk.injEq] at h ⊢
    obtain ⟨q, k, hm, rfl, rfl⟩ := h
    obtain ⟨hk, hm'⟩ := move_append hm
    exact ⟨q, k, hm' e, rfl, List.drop_append_of_le_length hk⟩
  decreasing := by
    intro p b p' b' h
    simp only [Option.map_eq_some_iff, Prod.exists, Prod.mk.injEq] at h
    obtain ⟨q, k, hm, rfl, rfl⟩ := h
    exact move_rank hm

theorem drain_of_move_none {p : HttpParser} {b : Bytes} (h : p.move b = none) :
    consumer.drain p b = (p, b) :=
  consumer.drain_of_none (by simp [consumer, h])

theorem drain_of_move {p p' : HttpParser} {b : Bytes} {k : ℕ} (h : p.move b = some (p', k)) :
    consumer.drain p b = consumer.drain p' (b.drop k) :=
  consumer.drain_of_some (by simp [consumer, h])

theorem move_requestLine {p q : HttpParser} {b : Bytes} {crlf : ℕ}
    (hs : p.state = .expectRequestLine) (hc : search kCRLF b = some crlf)
    (hl : p.processRequestLine (b.take crlf) = some q) :
    p.move b = some ({ q with state := .expectHeaders }, crlf + 2) := by
  simp [move, hs, hc, hl]

theorem move_headerLine {p q : HttpParser} {b : Bytes} {crlf : ℕ}
    (hs : p.state = .expectHeaders) (hc : search kCRLF b = some crlf) (h0 : crlf ≠ 0)
    (hl : p.processHeaderLine (b.take crlf) = some q) : p.move b = some (q, crlf + 2) := by
  simp [move, hs, hc, h0, hl]

theorem move_blankLine {p q : HttpParser} {b : Bytes} (hs : p.state = .expectHeaders)
    (hc : search kCRLF b = some 0) (hf : p.finishHeaders = some q) :
    p.move b = some (q, 2) := by
  simp [move, hs, hc, hf]

/-- A parser that has finished, in either way, makes no move. -/
theorem move_of_finished {p : HttpParser} (h : p.state = .gotAll ∨ p.state = .error) (b : Bytes) :
    p.move b = none := by
  unfold move
  rcases h with h | h <;> rw [h]

/-- After a move to a finished state nothing is left to do. -/
theorem drain_of_move_finished {p p' : HttpParser} {b : Bytes} {k : ℕ}
    (h : p.move b = some (p', k)) (hf : p'.state = .gotAll ∨ p'.state = .error) :
    consumer.drain p b = (p', b.drop k) := by
  rw [drain_of_move h, drain_of_move_none (move_of_finished hf _)]

/-! ## `parseRequest` is the drain -/

/-- What a round of the loop has to do with the drain `x` of the readable bytes. -/
def LoopStep.Agrees (x : HttpParser × Bytes) : LoopStep → Prop
  | .again p' buf' => x = consumer.drain p' buf'.readable ∧ p'.state ≠ .error
  | .done ok p' buf' => x = (p', buf'.readable) ∧ (ok = true ↔ p'.state ≠ .error)

/-- A round that waits for more bytes. -/
theorem agrees_waiting {p : HttpParser} {buf : Buffer} (hp : p.state ≠ .error)
    (hi : p.iteration buf = .done true p buf) (hm : p.move buf.readable = none) :
    (p.iteration buf).Agrees (consumer.drain p buf.readable) := by
  rw [hi]
  exact ⟨drain_of_move_none hm, iff_of_true rfl hp⟩

/-- A round that rejects, after it took some bytes. -/
theorem agrees_failed {p : HttpParser} {buf buf' : Buffer} {k : ℕ}
    (hi : p.iteration buf = .done false p.fail buf')
    (hm : p.move buf.readable = some (p.fail, k)) (hb : buf'.readable = buf.readable.drop k) :
    (p.iteration buf).Agrees (consumer.drain p buf.readable) := by
  rw [hi]
  refine ⟨?_, iff_of_false Bool.false_ne_true fun h => h rfl⟩
  rw [hb]
  exact drain_of_move_finished hm (Or.inr rfl)

/-- A round that completes the request. -/
theorem agrees_complete {p q : HttpParser} {buf buf' : Buffer} {k : ℕ}
    (hi : p.iteration buf = .done true q buf') (hm : p.move buf.readable = some (q, k))
    (hb : buf'.readable = buf.readable.drop k) (hq : q.state = .gotAll) :
    (p.iteration buf).Agrees (consumer.drain p buf.readable) := by
  rw [hi]
  refine ⟨?_, iff_of_true rfl fun h => absurd (hq.symm.trans h) (by decide)⟩
  rw [hb]
  exact drain_of_move_finished hm (Or.inl hq)

/-- A round that goes on. -/
theorem agrees_again {p q : HttpParser} {buf buf' : Buffer} {k : ℕ}
    (hi : p.iteration buf = .again q buf') (hm : p.move buf.readable = some (q, k))
    (hb : buf'.readable = buf.readable.drop k) (hq : q.state ≠ .error) :
    (p.iteration buf).Agrees (consumer.drain p buf.readable) := by
  rw [hi]
  refine ⟨?_, hq⟩
  rw [hb]
  exact drain_of_move hm

theorem agrees_expectRequestLine {p : HttpParser} (hs : p.state = .expectRequestLine)
    (buf : Buffer) : (p.iteration buf).Agrees (consumer.drain p buf.readable) := by
  cases hc : search kCRLF buf.readable with
  | none =>
    apply agrees_waiting
    · simp [hs]
    · simp [iteration, hs, findCRLF, hc]
    · simp [move, hs, hc]
  | some crlf =>
    cases hl : p.processRequestLine (buf.readable.take crlf) with
    | none =>
      have hi : p.iteration buf = .done false p.fail buf := by
        simp [iteration, hs, findCRLF, hc, hl]
      have hm : p.move buf.readable = some (p.fail, 0) := by simp [move, hs, hc, hl]
      exact agrees_failed hi hm rfl
    | some q =>
      have hi : p.iteration buf =
          .again { q with state := .expectHeaders } (buf.retrieveUntil (crlf + 2)) := by
        simp [iteration, hs, findCRLF, hc, hl]
      exact agrees_again hi (move_requestLine hs hc hl) (readable_retrieveUntil _ _) (by simp)

theorem agrees_expectHeaders {p : HttpParser} (hs : p.state = .expectHeaders)
    (buf : Buffer) : (p.iteration buf).Agrees (consumer.drain p buf.readable) := by
  cases hc : search kCRLF buf.readable with
  | none =>
    apply agrees_waiting
    · simp [hs]
    · simp [iteration, hs, findCRLF, hc]
    · simp [move, hs, hc]
  | some crlf =>
    by_cases h0 : crlf = 0
    · subst h0
      have hb := readable_retrieveUntil buf 2
      cases hf : p.finishHeaders with
      | none =>
        have hi : p.iteration buf = .done false p.fail (buf.retrieveUntil 2) := by
          simp [iteration, hs, findCRLF, hc, hf]
        have hm : p.move buf.readable = some (p.fail, 2) := by simp [move, hs, hc, hf]
        exact agrees_failed hi hm hb
      | some q =>
        have hm := move_blankLine hs hc hf
        rcases finishHeaders_state hf with hq | hq
        · have hi : p.iteration buf = .done true q (buf.retrieveUntil 2) := by
            simp [iteration, hs, findCRLF, hc, hf, gotAll, hq]
          exact agrees_complete hi hm hb hq
        · have hi : p.iteration buf = .again q (buf.retrieveUntil 2) := by
            simp [iteration, hs, findCRLF, hc, hf, gotAll, hq]
          exact agrees_again hi hm hb (by simp [hq])
    · cases hl : p.processHeaderLine (buf.readable.take crlf) with
      | none =>
        have hi : p.iteration buf = .done false p.fail buf := by
          simp [iteration, hs, findCRLF, hc, h0, hl]
        have hm : p.move buf.readable = some (p.fail, 0) := by simp [move, hs, hc, h0, hl]
        exact agrees_failed hi hm rfl
      | some q =>
        have hi : p.iteration buf = .again q (buf.retrieveUntil (crlf + 2)) := by
          simp [iteration, hs, findCRLF, hc, h0, hl]
        exact agrees_again hi (move_headerLine hs hc h0 hl) (readable_retrieveUntil _ _)
          (by simp [processHeaderLine_state hl, hs])

theorem agrees_expectBody {p : HttpParser} (hs : p.state = .expectBody)
    (buf : Buffer) : (p.iteration buf).Agrees (consumer.drain p buf.readable) := by
  by_cases hlt : buf.readableBytes < p.expectedBodyLength
  · apply agrees_waiting
    · simp [hs]
    · simp [iteration, hs, hlt]
    · simp [move, hs, hlt]
  · have hi : p.iteration buf = .done true
        { p with body := buf.readable.take p.expectedBodyLength, state := .gotAll }
        (buf.retrieve p.expectedBodyLength) := by simp [iteration, hs, hlt]
    have hm : p.move buf.readable = some
        ({ p with body := buf.readable.take p.expectedBodyLength, state := .gotAll },
          p.expectedBodyLength) := by simp [move, hs, hlt]
    exact agrees_complete hi hm (readable_retrieve _ _) rfl

/-- A round of the loop makes the next move of the consumer. -/
theorem iteration_agrees {p : HttpParser} (hp : p.state ≠ .error) (buf : Buffer) :
    (p.iteration buf).Agrees (consumer.drain p buf.readable) := by
  cases hs : p.state with
  | expectRequestLine => exact agrees_expectRequestLine hs buf
  | expectHeaders => exact agrees_expectHeaders hs buf
  | expectBody => exact agrees_expectBody hs buf
  | gotAll =>
    have hi : p.iteration buf = .done true p buf := by simp [iteration, hs]
    exact agrees_waiting hp hi (move_of_finished (Or.inl hs) _)
  | error => exact absurd hs hp

/-- The loop computes the drain, and answers whether it ended without an error. -/
theorem parseLoop_eq_drain {p : HttpParser} (hp : p.state ≠ .error) (buf : Buffer) :
    ((p.parseLoop buf).2.1, (p.parseLoop buf).2.2.readable) = consumer.drain p buf.readable ∧
      ((p.parseLoop buf).1 = true ↔ (p.parseLoop buf).2.1.state ≠ .error) := by
  induction p, buf using parseLoop.induct with
  | case1 p buf ok p' buf' hi =>
    have h := iteration_agrees hp buf
    rw [hi] at h
    rw [parseLoop, hi]
    exact ⟨h.1.symm, h.2⟩
  | case2 p buf p' buf' hi ih =>
    have h := iteration_agrees hp buf
    rw [hi] at h
    rw [parseLoop, hi, h.1]
    exact ih h.2

/-- **`parseRequest` is the drain of the readable bytes**: it leaves the parser and the unread
    bytes of the drain, and answers `false` exactly in the error state. -/
theorem parseRequest_eq_drain (p : HttpParser) (buf : Buffer) :
    ((p.parseRequest buf).2.1, (p.parseRequest buf).2.2.readable) =
        consumer.drain p buf.readable ∧
      ((p.parseRequest buf).1 = true ↔ (p.parseRequest buf).2.1.state ≠ .error) := by
  unfold parseRequest
  split
  · next h => exact ⟨(drain_of_move_none (move_of_finished (Or.inr h) _)).symm, by simp [h]⟩
  · next h =>
    split
    · next hg => exact ⟨(drain_of_move_none (move_of_finished (Or.inl hg) _)).symm, by simp [h]⟩
    · exact parseLoop_eq_drain h buf

end HttpParser

end AegisNet
