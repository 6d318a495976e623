import AegisNet.Lib.Loop
import AegisNet.Tcp.HttpParser.Drain
import AegisNet.Tcp.HttpParser.Grammar

/-!
# The parsing loops end

Both loops around the parser are `while (true)`: the one in `HttpParser::parseRequest`, and the
drain loop of `WebChatServer::onMessage`. Neither has an exit for the case that nothing was used
up. The first needs none, since it is not entered in the two states it has no branch for and every
round that goes on uses up a line. The second relies on what earlier calls leave behind: a parser
that waits for a body waits for at least one byte.

## Main definitions

- `HttpParser.round`, `drainRound` — the two loop bodies, falling through where the source does
- `LeftBehind` — the parsers that earlier calls of `onMessage` leave

## Main results

- `HttpParser.loop_ends` — the loop of `parseRequest` ends
- `parsing_ends` — both loops end
-/

namespace AegisNet

open HttpParser

namespace HttpParser

/-- The body of the `while (true)` loop of `parseRequest`. A state without a branch goes round. -/
def round (x : HttpParser × Buffer) : (HttpParser × Buffer) ⊕ (Bool × HttpParser × Buffer) :=
  match x.1.state with
  | .gotAll | .error => .inl x
  | .expectRequestLine | .expectHeaders | .expectBody =>
    match x.1.iteration x.2 with
    | .again p buf => .inl (p, buf)
    | .done ok p buf => .inr (ok, p, buf)

/-- `parseRequest(&buf)` returns `r` after `n` rounds of its loop. -/
def ReturnsAfter (p : HttpParser) (buf : Buffer) (n : ℕ) (r : Bool × HttpParser × Buffer) : Prop :=
  if p.state = .error then n = 0 ∧ r = (false, p, buf)
  else if p.state = .gotAll then n = 0 ∧ r = (true, p, buf)
  else Loop.Ends round n (p, buf) r

/-- The state is one that the loop has a branch for. -/
def HasBranch (p : HttpParser) : Prop := p.state ≠ .gotAll ∧ p.state ≠ .error

theorem round_of_hasBranch {p : HttpParser} (hp : p.HasBranch) (buf : Buffer) :
    round (p, buf) = match p.iteration buf with
      | .again p buf => .inl (p, buf)
      | .done ok p buf => .inr (ok, p, buf) := by
  obtain ⟨hg, he⟩ := hp
  rw [round]
  cases hs : p.state with
  | gotAll => exact absurd hs hg
  | error => exact absurd hs he
  | _ => rfl

/-- A round that goes on ends in a state with a branch. -/
theorem hasBranch_of_again {p p' : HttpParser} {buf buf' : Buffer}
    (h : p.iteration buf = .again p' buf') : p'.HasBranch := by
  unfold iteration at h
  cases hs : p.state with
  | expectRequestLine =>
    simp only [hs] at h
    split at h
    · cases h
    · split at h
      · cases h
      · cases h
        exact ⟨by simp, by simp⟩
  | expectHeaders =>
    simp only [hs] at h
    split at h
    · cases h
    · split at h
      · split at h
        · cases h
        · next hfinish =>
          split at h
          · cases h
          · next hg =>
            cases h
            have hstate := finishHeaders_state hfinish
            have hne : p'.state ≠ .gotAll := by simpa [gotAll] using hg
            exact ⟨hne, by simp [hstate.resolve_left hne]⟩
      · split at h
        · cases h
        · next hline =>
          cases h
          have hstate := processHeaderLine_state hline
          exact ⟨by simp [hstate, hs], by simp [hstate, hs]⟩
  | expectBody =>
    simp only [hs] at h
    split at h <;> cases h
  | gotAll => simp only [hs] at h; cases h
  | error => simp only [hs] at h; cases h

/-- The loop of the source leaves where `parseLoop` does. -/
theorem parseLoop_of_ends {n : ℕ} {x : HttpParser × Buffer} {r : Bool × HttpParser × Buffer}
    (h : Loop.Ends round n x r) (hx : x.1.HasBranch) : r = x.1.parseLoop x.2 := by
  induction h with
  | @leave x r hb =>
    obtain ⟨p, buf⟩ := x
    rw [round_of_hasBranch hx] at hb
    rw [parseLoop]
    split at hb
    · cases hb
    · next hdone =>
      cases hb
      split
      · next hdone' => rw [hdone] at hdone'; cases hdone'; rfl
      · next hagain => rw [hdone] at hagain; cases hagain
  | @again n x x' r hb _ ih =>
    obtain ⟨p, buf⟩ := x
    rw [round_of_hasBranch hx] at hb
    split at hb
    · next hagain =>
      cases hb
      rw [parseLoop]
      split
      · next hdone => rw [hagain] at hdone; cases hdone
      · next hagain' =>
        rw [hagain] at hagain'
        cases hagain'
        exact ih (hasBranch_of_again hagain)
    · cases hb

/-- **The loop of `parseRequest` ends**, for every parser and every buffer, after at most one round
    more than there are bytes. -/
theorem loop_ends (p : HttpParser) (buf : Buffer) :
    ∃ n ≤ buf.readableBytes + 1, p.ReturnsAfter buf n (p.parseRequest buf) := by
  unfold ReturnsAfter parseRequest
  by_cases he : p.state = .error
  · exact ⟨0, Nat.zero_le _, by simp [he]⟩
  by_cases hg : p.state = .gotAll
  · exact ⟨0, Nat.zero_le _, by simp [hg]⟩
  have hround : ∀ x x' : HttpParser × Buffer, x.1.HasBranch → round x = .inl x' →
      x'.1.HasBranch ∧ x'.2.readableBytes < x.2.readableBytes := by
    rintro ⟨q, b⟩ x' hq hb
    rw [round_of_hasBranch hq] at hb
    split at hb
    · next hagain =>
      cases hb
      exact ⟨hasBranch_of_again hagain, readableBytes_lt_of_again hagain⟩
    · cases hb
  obtain ⟨n, r, hn, hends⟩ := Loop.ends_of_measure (I := fun x => x.1.HasBranch)
    (fun x : HttpParser × Buffer => x.2.readableBytes) hround (s := (p, buf)) ⟨hg, he⟩
  refine ⟨n, hn, ?_⟩
  rw [if_neg he, if_neg hg, if_neg he, if_neg hg]
  rwa [parseLoop_of_ends hends ⟨hg, he⟩] at hends

/-! ## What a request uses up -/

/-- The parser is not done, and if it waits for a body, then for at least one byte of it. -/
def Parked (p : HttpParser) : Prop :=
  p.state ≠ .gotAll ∧ (p.state = .expectBody → 0 < p.expectedBodyLength)

theorem parked_new : Parked new := ⟨by simp [new], by simp [new]⟩

/-- A move of a parked parser fails or uses bytes. -/
theorem move_uses {p p' : HttpParser} {b : Bytes} {k : ℕ} (hp : p.Parked)
    (h : p.move b = some (p', k)) : p'.state = .error ∨ 0 < k := by
  unfold move at h
  cases hs : p.state with
  | expectRequestLine =>
    simp only [hs, Option.map_eq_some_iff] at h
    obtain ⟨crlf, -, hm⟩ := h
    split at hm
    · cases hm; exact .inl rfl
    · cases hm; exact .inr (by omega)
  | expectHeaders =>
    simp only [hs, Option.map_eq_some_iff] at h
    obtain ⟨crlf, -, hm⟩ := h
    split at hm
    · cases hm; exact .inr (by omega)
    · split at hm
      · cases hm; exact .inl rfl
      · cases hm; exact .inr (by omega)
  | expectBody =>
    simp only [hs, Option.ite_none_left_eq_some, Option.some.injEq, Prod.mk.injEq] at h
    obtain ⟨-, -, rfl⟩ := h
    exact .inr (hp.2 hs)
  | gotAll => exact absurd hs hp.1
  | error => simp only [hs] at h; cases h

theorem length_drain_le (p : HttpParser) (b : Bytes) : (consumer.drain p b).2.length ≤ b.length := by
  induction p, b using consumer.drain_induction with
  | wait p b h => rw [consumer.drain_of_none h]
  | next p b p' b' h ih =>
    rw [consumer.drain_of_some h]
    simp only [consumer, Option.map_eq_some_iff, Prod.exists, Prod.mk.injEq] at h
    obtain ⟨q, k, -, rfl, rfl⟩ := h
    refine ih.trans ?_
    rw [List.length_drop]
    exact Nat.sub_le _ _

/-- A parked parser that gets all of a request has used bytes for it. -/
theorem length_drain_lt {p : HttpParser} (hp : p.Parked) {b : Bytes}
    (hg : (consumer.drain p b).1.state = .gotAll) : (consumer.drain p b).2.length < b.length := by
  cases hm : p.move b with
  | none =>
    rw [drain_of_move_none hm] at hg
    exact absurd hg hp.1
  | some m =>
    obtain ⟨p', k⟩ := m
    obtain ⟨hk, -⟩ := move_append hm
    obtain he | hpos := move_uses hp hm
    · rw [drain_of_move_finished hm (.inr he)] at hg
      rw [he] at hg
      cases hg
    · rw [drain_of_move hm]
      have hle := length_drain_le p' (b.drop k)
      rw [List.length_drop] at hle
      omega

theorem readableBytes_lt_of_gotAll {p p' : HttpParser} {buf buf' : Buffer} {ok : Bool}
    (hp : p.Parked) (h : p.parseRequest buf = (ok, p', buf')) (hg : p'.gotAll = true) :
    buf'.readableBytes < buf.readableBytes := by
  have hd := (parseRequest_eq_drain p buf).1
  rw [h] at hd
  have hlt := length_drain_lt hp (b := buf.readable) (by rw [← hd]; exact of_decide_eq_true hg)
  rw [← hd] at hlt
  simpa only [Buffer.length_readable] using hlt

/-- A parser that has not got all of a request waits for something. -/
theorem parked_of_parseRequest {p p' : HttpParser} {buf buf' : Buffer} {ok : Bool}
    (h : p.parseRequest buf = (ok, p', buf')) (hg : p'.gotAll = false) : p'.Parked := by
  have hd := (parseRequest_eq_drain p buf).1
  rw [h] at hd
  have hstop := consumer.step_drain p buf.readable
  rw [← hd] at hstop
  refine ⟨of_decide_eq_false hg, fun hs => ?_⟩
  simp only [consumer, Option.map_eq_none_iff, move, hs, ite_eq_left_iff, reduceCtorEq, imp_false,
    not_not] at hstop
  omega

end HttpParser

/-! ## The drain loop -/

/-- The body of the `while (true)` loop of `onMessage`: the parser, the input buffer and the requests
    recorded so far. -/
def drainRound (x : HttpParser × Buffer × List Request) :
    (HttpParser × Buffer × List Request) ⊕ Drained :=
  match x.1.parseRequest x.2.1 with
  | (false, parser, buf) => .inr ⟨x.2.2, true, parser, buf⟩
  | (true, parser, buf) =>
    if parser.gotAll then
      if buf.readableBytes = 0 then .inr ⟨x.2.2 ++ [parser.request], false, parser.reset, buf⟩
      else .inl (parser.reset, buf, x.2.2 ++ [parser.request])
    else .inr ⟨x.2.2, false, parser, buf⟩

/-- The parsers of a connection that earlier calls of `onMessage` leave behind, with whatever buffers
    they were called. -/
inductive LeftBehind : HttpParser → Prop
  | new : LeftBehind .new
  | onMessage {p : HttpParser} (buf : Buffer) : LeftBehind p → LeftBehind (drainLoop p buf []).parser

/-- What a round that goes on did: it recorded a request, and reset the parser. -/
theorem drainRound_eq_inl {x x' : HttpParser × Buffer × List Request} (h : drainRound x = .inl x') :
    ∃ p' buf', x.1.parseRequest x.2.1 = (true, p', buf') ∧ p'.gotAll = true ∧
      buf'.readableBytes ≠ 0 ∧ x' = (p'.reset, buf', x.2.2 ++ [p'.request]) := by
  rw [drainRound] at h
  split at h
  · cases h
  · next p' buf' hparse =>
    split at h
    · next hg =>
      split at h
      · cases h
      · next hne =>
        cases h
        exact ⟨p', buf', hparse, hg, hne, rfl⟩
    · cases h

/-- The parser that a round leaves with is parked. -/
theorem parked_of_drainRound {x : HttpParser × Buffer × List Request} {d : Drained}
    (h : drainRound x = .inr d) : d.parser.Parked := by
  rw [drainRound] at h
  split at h
  · next p' buf' hparse =>
    cases h
    have hstate := (parseRequest_eq_drain x.1 x.2.1).2
    rw [hparse] at hstate
    have herr : p'.state = .error := by
      by_contra hne
      exact absurd (hstate.mpr hne) (by simp)
    exact ⟨by simp [herr], by simp [herr]⟩
  · next p' buf' hparse =>
    split at h
    · split at h
      · cases h
        exact parked_new
      · cases h
    · next hg =>
      cases h
      exact parked_of_parseRequest hparse (by simpa using hg)

/-- The loop of the source leaves where `drainLoop` does. -/
theorem drainLoop_of_ends {n : ℕ} {x : HttpParser × Buffer × List Request} {d : Drained}
    (h : Loop.Ends drainRound n x d) : d = drainLoop x.1 x.2.1 x.2.2 := by
  induction h with
  | @leave x d hb =>
    rw [drainRound] at hb
    rw [drainLoop]
    split at hb
    · next hparse => cases hb; rw [hparse]
    · next hparse =>
      rw [hparse]
      split at hb
      · next hg =>
        split at hb
        · next h0 =>
          cases hb
          simp [hg, h0]
        · cases hb
      · next hg =>
        cases hb
        simp [hg]
  | @again n x x' d hb _ ih =>
    obtain ⟨p', buf', hparse, hg, hne, rfl⟩ := drainRound_eq_inl hb
    rw [drainLoop, hparse]
    simpa [hg, hne] using ih

theorem parked_of_ends {n : ℕ} {x : HttpParser × Buffer × List Request} {d : Drained}
    (h : Loop.Ends drainRound n x d) : d.parser.Parked := by
  induction h with
  | leave hb => exact parked_of_drainRound hb
  | again _ _ ih => exact ih

/-- Step lemma: a round that goes on has recorded a request and used up bytes for it. -/
theorem drainRound_again {x x' : HttpParser × Buffer × List Request} (hx : x.1.Parked)
    (h : drainRound x = .inl x') : x'.1.Parked ∧ x'.2.1.readableBytes < x.2.1.readableBytes := by
  obtain ⟨p', buf', hparse, hg, -, rfl⟩ := drainRound_eq_inl h
  exact ⟨parked_new, readableBytes_lt_of_gotAll hx hparse hg⟩

theorem drainLoop_ends_of_parked {p : HttpParser} (hp : p.Parked) (buf : Buffer) :
    ∃ n ≤ buf.readableBytes + 1, Loop.Ends drainRound n (p, buf, []) (drainLoop p buf []) := by
  obtain ⟨n, d, hn, hends⟩ := Loop.ends_of_measure (I := fun x => x.1.Parked)
    (fun x : HttpParser × Buffer × List Request => x.2.1.readableBytes)
    (fun _ _ hx h => drainRound_again hx h) (s := (p, buf, [])) hp
  exact ⟨n, hn, drainLoop_of_ends hends ▸ hends⟩

theorem LeftBehind.parked {p : HttpParser} (h : LeftBehind p) : p.Parked := by
  induction h with
  | new => exact parked_new
  | onMessage buf _ ih =>
    obtain ⟨n, -, hends⟩ := drainLoop_ends_of_parked ih buf
    exact parked_of_ends hends

/-- **Parsing always ends.** The loop of `parseRequest` ends for every parser and every buffer. For
    every parser that earlier calls of `onMessage` leave behind and every buffer the drain loop ends,
    after at most one round more than there are bytes, and in each of its rounds a request that is
    recorded has used up at least one byte. -/
theorem parsing_ends :
    (∀ (p : HttpParser) (buf : Buffer),
      ∃ n ≤ buf.readableBytes + 1, p.ReturnsAfter buf n (p.parseRequest buf)) ∧
    ∀ p : HttpParser, LeftBehind p → ∀ buf : Buffer,
      (∃ n ≤ buf.readableBytes + 1, Loop.Ends drainRound n (p, buf, []) (drainLoop p buf [])) ∧
      ∀ x p' buf', Loop.Reaches drainRound (p, buf, []) x →
        x.1.parseRequest x.2.1 = (true, p', buf') → p'.gotAll = true →
          buf'.readableBytes < x.2.1.readableBytes := by
  refine ⟨HttpParser.loop_ends, fun p hp buf => ⟨drainLoop_ends_of_parked hp.parked buf, ?_⟩⟩
  intro x p' buf' hreach hparse hg
  have hx : x.1.Parked := hreach.invariant (I := fun x => x.1.Parked)
    (fun _ _ hy h => (drainRound_again hy h).1) hp.parked
  exact readableBytes_lt_of_gotAll hx hparse hg

/-- A read that ends within the body of a request. -/
def readInBody : Buffer := Buffer.new.append (HttpParser.postHi.text.dropLast)

/-- The read behind it: the rest of the body, and two requests without headers. -/
def readPipelined : Buffer :=
  Buffer.new.append ([0x69] ++ HttpParser.rootRequest.text ++ HttpParser.rootRequest.text)

/-- The parser that the first read leaves behind, and the second read. -/
theorem parsing_ends_pipelined :
    let p := (drainLoop .new readInBody []).parser
    p.state = .expectBody ∧ (drainLoop p readPipelined []).requests.length = 3 ∧
      (∃ n ≤ readPipelined.readableBytes + 1,
        Loop.Ends drainRound n (p, readPipelined, []) (drainLoop p readPipelined [])) ∧
      (p.parseRequest readPipelined).2.2.readableBytes < readPipelined.readableBytes := by
  intro p
  have hbody : p.state = .expectBody := by decide +kernel
  have hrecorded : (drainLoop p readPipelined []).requests.length = 3 := by decide +kernel
  have htrue : (p.parseRequest readPipelined).1 = true := by decide +kernel
  have hgot : (p.parseRequest readPipelined).2.1.gotAll = true := by decide +kernel
  obtain ⟨hends, huses⟩ := parsing_ends.2 p (.onMessage readInBody .new) readPipelined
  refine ⟨hbody, hrecorded, hends, ?_⟩
  clear_value p
  generalize readPipelined = buf at *
  rcases hparse : p.parseRequest buf with ⟨ok, p', buf'⟩
  rw [hparse] at htrue hgot
  obtain rfl : ok = true := htrue
  exact huses (p, buf, []) p' buf' (.refl _) hparse hgot

end AegisNet
