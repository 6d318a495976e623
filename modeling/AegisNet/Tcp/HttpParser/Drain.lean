import AegisNet.Tcp.HttpParser.Stream

/-!
# The drain loop of the server

`drainLoop` is the loop of `WebChatServer::onMessage` (`main.cpp`) that parses every complete
request out of the input buffer. It computes the drain of an incremental consumer whose steps are
the moves of the parser and the recording of a finished request, so how the stream is cut into
reads cannot be observed.

## Main definitions

- `drainLoop` — parse, record and reset until the parser waits or fails
- `Session` — a connection's parser and buffer, with everything recorded so far
-/

namespace AegisNet

open HttpParser

/-- What is recorded of a request. -/
structure Request where
  method : Bytes
  path : Bytes
  headers : List (Bytes × Bytes)
  body : Bytes
  deriving DecidableEq

namespace HttpParser

/-- The request a parser in `GotAll` has collected. -/
def request (p : HttpParser) : Request := ⟨p.method, p.path, p.headers, p.body⟩

/-- A finished request leaves less to do than there was before it. -/
theorem rank_lt_of_gotAll {p p' : HttpParser} {buf buf' : Buffer} {ok : Bool}
    (h : p.parseRequest buf = (ok, p', buf')) (hg : p'.gotAll = true) :
    buf'.readableBytes + stateRank p'.reset.state < buf.readableBytes + stateRank p.state := by
  have hd := (parseRequest_eq_drain p buf).1
  have hle := consumer.rank_drain_le p buf.readable
  have hs : p'.state = .gotAll := of_decide_eq_true hg
  rw [h] at hd
  rw [← hd] at hle
  simp only [consumer, Buffer.length_readable, hs] at hle
  simp only [reset_eq_new, new, stateRank] at hle ⊢
  omega

end HttpParser

/-- The outcome of a drain: the requests, whether a malformed one ended it, and what is left. -/
structure Drained where
  requests : List Request
  malformedRequest : Bool
  parser : HttpParser
  buf : Buffer

/-- The `while (true)` loop of `onMessage`. -/
def drainLoop (parser : HttpParser) (buf : Buffer) (requests : List Request) : Drained :=
  match _h : parser.parseRequest buf with
  | (false, parser', buf') => ⟨requests, true, parser', buf'⟩
  | (true, parser', buf') =>
    if _hg : parser'.gotAll = true then
      if buf'.readableBytes = 0 then
        ⟨requests ++ [parser'.request], false, parser'.reset, buf'⟩
      else drainLoop parser'.reset buf' (requests ++ [parser'.request])
    else ⟨requests, false, parser', buf'⟩
termination_by buf.readableBytes + stateRank parser.state
decreasing_by exact rank_lt_of_gotAll _h _hg

/-! ## The loop as a consumer -/

/-- The parser that records and resets: a finished request is moved to the list. -/
def recorder : Consumer (HttpParser × List Request) UInt8 where
  step x b :=
    if x.1.state = .gotAll then some ((x.1.reset, x.2 ++ [x.1.request]), b)
    else (x.1.move b).map fun (p', k) => ((p', x.2), b.drop k)
  rank x b := b.length + stateRank x.1.state
  stable := by
    intro x b x' b' h e
    split at h
    · next hg => cases h; rw [if_pos hg]
    · next hg =>
      rw [if_neg hg]
      simp only [Option.map_eq_some_iff, Prod.exists, Prod.mk.injEq] at h ⊢
      obtain ⟨q, k, hm, rfl, rfl⟩ := h
      obtain ⟨hk, hm'⟩ := move_append hm
      exact ⟨q, k, hm' e, rfl, List.drop_append_of_le_length hk⟩
  decreasing := by
    intro x b x' b' h
    split at h
    · next hg =>
      cases h
      simp only [reset_eq_new, new, hg, stateRank]
      omega
    · simp only [Option.map_eq_some_iff, Prod.exists, Prod.mk.injEq] at h
      obtain ⟨q, k, hm, rfl, rfl⟩ := h
      exact move_rank hm

theorem recorder_gotAll {p : HttpParser} (h : p.state = .gotAll) (rs : List Request) (b : Bytes) :
    recorder.drain (p, rs) b = recorder.drain (p.reset, rs ++ [p.request]) b :=
  recorder.drain_of_some (by simp [recorder, h])

theorem recorder_wait {p : HttpParser} (hg : p.state ≠ .gotAll) {b : Bytes}
    (hm : p.move b = none) (rs : List Request) : recorder.drain (p, rs) b = ((p, rs), b) :=
  recorder.drain_of_none (by simp [recorder, hg, hm])

/-- The recording parser first does what the parser does. -/
theorem recorder_drain (p : HttpParser) (b : Bytes) (rs : List Request) :
    recorder.drain (p, rs) b =
      recorder.drain ((consumer.drain p b).1, rs) (consumer.drain p b).2 := by
  induction p, b using consumer.drain_induction with
  | wait p b h => rw [consumer.drain_of_none h]
  | next p b p' b' h ih =>
    rw [consumer.drain_of_some h, ← ih]
    simp only [consumer, Option.map_eq_some_iff, Prod.exists, Prod.mk.injEq] at h
    obtain ⟨q, k, hm, rfl, rfl⟩ := h
    have hg : p.state ≠ .gotAll := by
      intro hg
      rw [move_of_finished (Or.inl hg)] at hm
      cases hm
    exact recorder.drain_of_some (by simp [recorder, hg, hm])

/-- Requests recorded before play no part. -/
theorem recorder_base (pre : List Request) (x : HttpParser × List Request) (b : Bytes) :
    recorder.drain (x.1, pre ++ x.2) b =
      (((recorder.drain x b).1.1, pre ++ (recorder.drain x b).1.2), (recorder.drain x b).2) := by
  induction x, b using recorder.drain_induction with
  | wait x b h =>
    have h' : recorder.step (x.1, pre ++ x.2) b = none := by
      simp only [recorder] at h ⊢
      split at h
      · cases h
      · next hg => simpa [hg] using h
    rw [recorder.drain_of_none h, recorder.drain_of_none h']
  | next x b x' b' h ih =>
    have h' : recorder.step (x.1, pre ++ x.2) b = some ((x'.1, pre ++ x'.2), b') := by
      simp only [recorder] at h ⊢
      split at h
      · next hg =>
        cases h
        simp [hg]
      · next hg =>
        simp only [Option.map_eq_some_iff, Prod.exists, Prod.mk.injEq] at h
        obtain ⟨q, k, hm, rfl, rfl⟩ := h
        simp [hg, hm]
    rw [recorder.drain_of_some h, recorder.drain_of_some h', ih]

/-- Without further bytes, a request that is recorded leaves a fresh parser. -/
theorem recorder_drain_nil (q : HttpParser) (rs : List Request) :
    (recorder.drain (q, rs) []).1.2 = rs ∨ (recorder.drain (q, rs) []).1.1.state ≠ .error := by
  have hgotAll : ∀ q : HttpParser, q.state = .gotAll →
      (recorder.drain (q, rs) []).1.1.state ≠ .error := by
    intro q hq
    rw [recorder_gotAll hq, reset_eq_new, recorder_wait (by decide) rfl]
    show HttpRequestParseState.expectRequestLine ≠ .error
    decide
  by_cases hq : q.state = .gotAll
  · exact .inr (hgotAll q hq)
  · cases hm : q.move [] with
    | none =>
      rw [recorder_wait hq hm]
      exact .inl rfl
    | some x =>
      -- of the moves only the end of an empty body needs no byte
      obtain ⟨q', k⟩ := x
      have hbody : q'.state = .gotAll := by
        unfold move at hm
        cases hs : q.state with
        | expectBody =>
          simp only [hs, Option.ite_none_left_eq_some, Option.some.injEq, Prod.mk.injEq] at hm
          obtain ⟨-, rfl, -⟩ := hm
          rfl
        | expectRequestLine => rw [hs] at hm; cases hm
        | expectHeaders => rw [hs] at hm; cases hm
        | gotAll => exact absurd hs hq
        | error => rw [hs] at hm; cases hm
      have hstep : recorder.step (q, rs) [] = some ((q', rs), []) := by simp [recorder, hq, hm]
      rw [recorder.drain_of_some hstep]
      exact .inr (hgotAll q' hbody)

/-- One more byte does not both complete a request and show that the next one is malformed. -/
theorem recorder_drain_concat {p : HttpParser} {b : Bytes} (hg : p.state ≠ .gotAll)
    (hwait : p.move b = none) (x : UInt8) (rs : List Request) :
    (recorder.drain (p, rs) (b ++ [x])).1.2 = rs ∨
      (recorder.drain (p, rs) (b ++ [x])).1.1.state ≠ .error := by
  cases hm : p.move (b ++ [x]) with
  | none =>
    rw [recorder_wait hg hm]
    exact .inl rfl
  | some y =>
    obtain ⟨q, k⟩ := y
    have hstep : recorder.step (p, rs) (b ++ [x]) = some ((q, rs), (b ++ [x]).drop k) := by
      simp [recorder, hg, hm]
    rw [recorder.drain_of_some hstep]
    by_cases he : q.state = .error
    · rw [recorder_wait (by simp [he]) (move_of_finished (.inr he) _)]
      exact .inl rfl
    · -- the move needed the new byte, so none is left for the next request
      rw [move_concat hwait hm he]
      exact recorder_drain_nil q rs

/-- Where the parser's own drain has stopped, no move is left. -/
theorem move_parseRequest (p : HttpParser) (buf : Buffer) :
    (p.parseRequest buf).2.1.move (p.parseRequest buf).2.2.readable = none := by
  have h := consumer.step_drain p buf.readable
  rw [← (parseRequest_eq_drain p buf).1] at h
  simpa [consumer] using h

/-- **The drain loop computes the drain**, and reports a malformed request exactly when it leaves
    the parser in the error state. -/
theorem drainLoop_eq_drain (p : HttpParser) (buf : Buffer) (rs : List Request) :
    (((drainLoop p buf rs).parser, (drainLoop p buf rs).requests),
        (drainLoop p buf rs).buf.readable) = recorder.drain (p, rs) buf.readable ∧
      ((drainLoop p buf rs).malformedRequest = true ↔
        (drainLoop p buf rs).parser.state = .error) := by
  induction p, buf, rs using drainLoop.induct with
  | case1 p buf rs p' buf' h =>
    obtain ⟨hd, hok⟩ := parseRequest_eq_drain p buf
    have hm := move_parseRequest p buf
    rw [h] at hd hok hm
    have he : p'.state = .error := by simpa using hok
    rw [drainLoop, h, recorder_drain, ← hd]
    exact ⟨(recorder_wait (by simp [he]) hm rs).symm, by simp [he]⟩
  | case2 p buf rs p' buf' h hg hz =>
    have hd := (parseRequest_eq_drain p buf).1
    rw [h] at hd
    have hs : p'.state = .gotAll := of_decide_eq_true hg
    have hnil : buf'.readable = [] := Buffer.readableBytes_eq_zero.mp hz
    have hwait : new.move [] = none := rfl
    rw [drainLoop, h, recorder_drain, ← hd, recorder_gotAll hs]
    simp only [hg, hz, dite_true, if_true, reset_eq_new, hnil]
    exact ⟨(recorder_wait (by decide) hwait _).symm, by decide⟩
  | case3 p buf rs p' buf' h hg hz ih =>
    have hd := (parseRequest_eq_drain p buf).1
    rw [h] at hd
    have hs : p'.state = .gotAll := of_decide_eq_true hg
    rw [drainLoop, h, recorder_drain, ← hd, recorder_gotAll hs]
    simpa only [hg, hz, dite_true, if_false] using ih
  | case4 p buf rs p' buf' h hg =>
    obtain ⟨hd, hok⟩ := parseRequest_eq_drain p buf
    have hm := move_parseRequest p buf
    rw [h] at hd hok hm
    have hs : p'.state ≠ .gotAll := by simpa [gotAll] using hg
    rw [drainLoop, h, recorder_drain, ← hd]
    simp only [hg]
    exact ⟨(recorder_wait hs hm rs).symm, by simpa using hok⟩

/-! ## A connection's input, read by read -/

/-- The parser and the input buffer of a connection, with all requests recorded so far and
    whether a read has met a malformed one. -/
structure Session where
  parser : HttpParser
  buf : Buffer
  requests : List Request
  malformedRequest : Bool

namespace Session

/-- A fresh parser and a fresh buffer. -/
def start (initialSize : ℕ) : Session := ⟨new, Buffer.new initialSize, [], false⟩

/-- A read appends its bytes to the buffer and runs the drain loop. -/
def onRead (s : Session) (chunk : Bytes) : Session :=
  let d := drainLoop s.parser (s.buf.append chunk) s.requests
  ⟨d.parser, d.buf, d.requests, s.malformedRequest || d.malformedRequest⟩

/-- What a session holds as a state of the recording parser. -/
def state (s : Session) : (HttpParser × List Request) × Bytes :=
  ((s.parser, s.requests), s.buf.readable)

/-- A read feeds the recording parser. -/
theorem state_onRead (s : Session) (chunk : Bytes) :
    (s.onRead chunk).state = recorder.feed s.state chunk := by
  have h := (drainLoop_eq_drain s.parser (s.buf.append chunk) s.requests).1
  rw [Buffer.readable_append] at h
  exact h

theorem state_foldl_onRead (s : Session) (chunks : List Bytes) :
    (chunks.foldl onRead s).state = chunks.foldl recorder.feed s.state := by
  induction chunks generalizing s with
  | nil => rfl
  | cons c cs ih => rw [List.foldl_cons, List.foldl_cons, ih, state_onRead]

/-- The verdict is read off the parser. -/
def VerdictOk (s : Session) : Prop := s.malformedRequest = true ↔ s.parser.state = .error

/-- A malformed request is final, so a read keeps the verdict. -/
theorem verdictOk_onRead {s : Session} (h : s.VerdictOk) (chunk : Bytes) :
    (s.onRead chunk).VerdictOk := by
  obtain ⟨hd, hv⟩ := drainLoop_eq_drain s.parser (s.buf.append chunk) s.requests
  simp only [VerdictOk, onRead, Bool.or_eq_true, hv, or_iff_right_iff_imp]
  intro hm
  have he := h.mp hm
  rw [recorder_wait (by simp [he]) (move_of_finished (Or.inr he) _)] at hd
  rw [(Prod.mk.inj (Prod.mk.inj hd).1).1]
  exact he

theorem verdictOk_foldl_onRead {s : Session} (h : s.VerdictOk) (chunks : List Bytes) :
    (chunks.foldl onRead s).VerdictOk := by
  induction chunks generalizing s with
  | nil => exact h
  | cons c cs ih => exact ih (verdictOk_onRead h c)

end Session

/-- **Fragmentation independence.** Reading a stream in any pieces records the same requests and
    gives the same verdict as reading it at once, and leaves the same parser and unread bytes when
    there is no error. -/
theorem onRead_fragmentation (initialSize : ℕ) (chunks : List Bytes) :
    let cut := chunks.foldl Session.onRead (.start initialSize)
    let whole := (Session.start initialSize).onRead chunks.flatten
    cut.requests = whole.requests ∧ cut.malformedRequest = whole.malformedRequest ∧
      (whole.malformedRequest = false →
        cut.parser = whole.parser ∧ cut.buf.readable = whole.buf.readable) := by
  intro cut whole
  have hwait : recorder.step (Session.start initialSize).state.1
      (Session.start initialSize).state.2 = none := by
    simp only [Session.state, Session.start, Buffer.readable_new]
    rfl
  have hstate : cut.state = whole.state := by
    rw [Session.state_foldl_onRead, Session.state_onRead, recorder.foldl_feed chunks hwait]
    rfl
  have hstart : (Session.start initialSize).VerdictOk := by
    simp [Session.VerdictOk, Session.start, new]
  have hcut := Session.verdictOk_foldl_onRead hstart chunks
  have hwhole := Session.verdictOk_onRead hstart chunks.flatten
  obtain ⟨hp, hbuf⟩ := Prod.mk.inj hstate
  obtain ⟨hparser, hreq⟩ := Prod.mk.inj hp
  refine ⟨hreq, ?_, fun _ => ⟨hparser, hbuf⟩⟩
  have herr : cut.parser.state = .error ↔ whole.parser.state = .error := by
    rw [show cut.parser = whole.parser from hparser]
  exact Bool.eq_iff_iff.mpr (hcut.trans (herr.trans hwhole.symm))

end AegisNet
