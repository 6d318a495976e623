import AegisNet.Lib.Loop
import AegisNet.Lib.Run
import AegisNet.Tcp.HttpContext

/-!
# The loop of the parser with views

`HttpContext::parseRequest` goes round while `hasMore` is set. Two of its four states clear the flag;
the branch for `kExpectBody` is empty, and there is none for `kGotAll`. The first is never entered.
The second is where every complete request leaves the context, and a call made there does not return.

## Main definitions

- `HttpContext.round` — the loop body, going round unchanged where the source does
- `ContextCall`, `HttpContext.Step` — the calls on a context

## Main results

- `HttpContext.returns_iff` — when a call returns
-/

namespace AegisNet

namespace HttpContext

/-- The body of the `while (hasMore)` loop of `parseRequest`. -/
def round (x : HttpContext × StoredBuffer) :
    (HttpContext × StoredBuffer) ⊕ (Bool × HttpContext × StoredBuffer) :=
  match x.1.iteration x.2 with
  | .again c b => .inl (c, b)
  | .done ok c b => .inr (ok, c, b)
  | .stuck => .inl x

/-- `parseRequest(&buf)` returns. -/
def Returns (c : HttpContext) (b : StoredBuffer) : Prop := ∃ n r, Loop.Ends round n (c, b) r

/-- The loop has a branch that does something. -/
def HasBranch (c : HttpContext) : Prop := c.state = .expectRequestLine ∨ c.state = .expectHeaders

/-- What a round does in a state with a branch. -/
theorem iteration_of_hasBranch {c : HttpContext} (hc : c.HasBranch) (b : StoredBuffer) :
    (∃ c' b', c.iteration b = .again c' b' ∧ c'.HasBranch) ∨
      ∃ ok c' b', c.iteration b = .done ok c' b' ∧ c'.state ≠ .expectBody := by
  obtain hs | hs := hc
  · simp only [iteration, hs]
    cases b.buf.findCRLF with
    | none => exact .inr ⟨_, _, _, rfl, by simp [hs]⟩
    | some crlf =>
      dsimp only
      rcases processRequestLine c.request b crlf with ⟨ok, r⟩
      cases ok with
      | true => exact .inl ⟨_, _, rfl, .inr rfl⟩
      | false => exact .inr ⟨_, _, _, rfl, by simp⟩
  · simp only [iteration, hs]
    cases b.buf.findCRLF with
    | none => exact .inr ⟨_, _, _, rfl, by simp [hs]⟩
    | some crlf =>
      dsimp only
      split
      · exact .inl ⟨_, _, rfl, .inr rfl⟩
      · exact .inr ⟨_, _, _, rfl, by simp⟩

theorem round_of_again {c c' : HttpContext} {b b' : StoredBuffer} (h : c.iteration b = .again c' b') :
    round (c, b) = .inl (c', b') := by
  rw [round, h]

theorem round_of_done {c c' : HttpContext} {b b' : StoredBuffer} {ok : Bool}
    (h : c.iteration b = .done ok c' b') : round (c, b) = .inr (ok, c', b') := by
  rw [round, h]

/-- Without a branch nothing changes, and `hasMore` stays set. -/
theorem round_of_gotAll {c : HttpContext} (h : c.state = .gotAll) (b : StoredBuffer) :
    round (c, b) = .inl (c, b) := by
  simp only [round, iteration, h]

/-- Step lemma: a round that goes on has used up a line and stays among the branches. -/
theorem round_again {x x' : HttpContext × StoredBuffer} (hx : x.1.HasBranch)
    (h : round x = .inl x') :
    x'.1.HasBranch ∧ x'.2.buf.readableBytes < x.2.buf.readableBytes := by
  obtain ⟨c, b⟩ := x
  obtain ⟨c', b', hagain, hc'⟩ | ⟨ok, c', b', hdone, -⟩ := iteration_of_hasBranch hx b
  · rw [round_of_again hagain] at h
    cases h
    exact ⟨hc', readableBytes_lt_of_again hagain⟩
  · rw [round_of_done hdone] at h
    cases h

theorem returns_of_hasBranch {c : HttpContext} (hc : c.HasBranch) (b : StoredBuffer) :
    c.Returns b := by
  obtain ⟨n, r, -, hends⟩ := Loop.ends_of_measure (I := fun x => x.1.HasBranch)
    (fun x : HttpContext × StoredBuffer => x.2.buf.readableBytes)
    (fun _ _ hx h => round_again hx h) (s := (c, b)) hc
  exact ⟨n, r, hends⟩

theorem not_returns_of_gotAll {c : HttpContext} (hc : c.state = .gotAll) (b : StoredBuffer) :
    ¬ c.Returns b := by
  rintro ⟨n, r, hends⟩
  refine Loop.not_ends_of_trap (D := fun x => x.1.state = .gotAll) ?_ hc hends
  rintro ⟨d, e⟩ hd
  exact ⟨(d, e), round_of_gotAll hd e, hd⟩

/-- The loop of the source leaves where `parseRequest` does. -/
theorem parseRequest_of_ends {n : ℕ} {x : HttpContext × StoredBuffer}
    {r : Bool × HttpContext × StoredBuffer} (h : Loop.Ends round n x r) (hx : x.1.HasBranch) :
    x.1.parseRequest x.2 = some r := by
  induction h with
  | @leave x r hb =>
    obtain ⟨c, b⟩ := x
    obtain ⟨c', b', hagain, -⟩ | ⟨ok, c', b', hdone, -⟩ := iteration_of_hasBranch hx b
    · rw [round_of_again hagain] at hb
      cases hb
    · rw [round_of_done hdone] at hb
      cases hb
      exact parseLoop_of_done hdone
  | @again n x x' r hb _ ih =>
    obtain ⟨c, b⟩ := x
    obtain ⟨c', b', hagain, hc'⟩ | ⟨ok, c', b', hdone, -⟩ := iteration_of_hasBranch hx b
    · rw [round_of_again hagain] at hb
      cases hb
      exact (parseLoop_of_again hagain).trans (ih hc')
    · rw [round_of_done hdone] at hb
      cases hb

/-! ## Runs of calls -/

end HttpContext

/-- A call on a context. Between two calls the buffer may change in any way. -/
inductive ContextCall
  | parseRequest (b : StoredBuffer)
  | reset

namespace HttpContext

/-- The call returns and leaves the context `c'`. -/
def Step (c : HttpContext) (call : ContextCall) (c' : HttpContext) : Prop :=
  match call with
  | .parseRequest b => ∃ n ok b', Loop.Ends round n (c, b) (ok, c', b')
  | .reset => c' = c.reset

/-- The state without a purpose is not entered. -/
theorem state_of_ends {n : ℕ} {x : HttpContext × StoredBuffer}
    {r : Bool × HttpContext × StoredBuffer} (h : Loop.Ends round n x r) (hx : x.1.HasBranch) :
    r.2.1.state ≠ .expectBody := by
  induction h with
  | @leave x r hb =>
    obtain ⟨c, b⟩ := x
    obtain ⟨c', b', hagain, -⟩ | ⟨ok, c', b', hdone, hne⟩ := iteration_of_hasBranch hx b
    · rw [round_of_again hagain] at hb
      cases hb
    · rw [round_of_done hdone] at hb
      cases hb
      exact hne
  | again hb _ ih => exact ih (round_again hx hb).1

theorem hasBranch_or_gotAll {c : HttpContext} (h : c.state ≠ .expectBody) :
    c.HasBranch ∨ c.state = .gotAll := by
  cases hs : c.state with
  | expectRequestLine => exact .inl (.inl hs)
  | expectHeaders => exact .inl (.inr hs)
  | expectBody => exact absurd hs h
  | gotAll => exact .inr rfl

/-- Step lemma. -/
theorem Step.state_ne {c c' : HttpContext} {call : ContextCall} (h : c.Step call c')
    (hc : c.state ≠ .expectBody) : c'.state ≠ .expectBody := by
  cases call with
  | parseRequest b =>
    obtain ⟨n, ok, b', hends⟩ := h
    obtain hbranch | hg := hasBranch_or_gotAll hc
    · exact state_of_ends hends hbranch
    · exact absurd ⟨n, _, hends⟩ (not_returns_of_gotAll hg b)
  | reset =>
    have heq : c' = c.reset := h
    rw [heq]
    simp [reset]

/-- **A call of `parseRequest` returns exactly when the context has not got all yet**, in every state
    that calls of `parseRequest` and `reset` lead to, and for every buffer. -/
theorem returns_iff {c : HttpContext} {calls : List ContextCall} (h : Run Step new calls c)
    (b : StoredBuffer) : c.Returns b ↔ c.gotAll = false := by
  have hne : c.state ≠ .expectBody :=
    h.invariant (P := fun c => c.state ≠ .expectBody) (by simp [new]) fun _ _ _ hc hs => hs.state_ne hc
  obtain hbranch | hg := hasBranch_or_gotAll hne
  · refine iff_of_true (returns_of_hasBranch hbranch b) (decide_eq_false fun hg => ?_)
    obtain hs | hs := hbranch <;> simp [hs] at hg
  · exact iff_of_false (not_returns_of_gotAll hg b) (by simp [gotAll, hg])

/-- The shortest request, `GET / HTTP/1.1` without headers. -/
def getRoot : StoredBuffer :=
  (StoredBuffer.new 24).append (fun _ n => n)
    ([0x47, 0x45, 0x54, 0x20, 0x2F, 0x20] ++ http11 ++ [0x0D, 0x0A, 0x0D, 0x0A])

theorem ends_getRoot :
    ∃ c b, Loop.Ends round 2 (new, getRoot) (true, c, b) ∧ c.state = .gotAll := by
  have hrounds : ∃ c b, round (new, getRoot) = .inl (c, b) ∧
      ∃ c' b', round (c, b) = .inr (true, c', b') ∧ c'.state = .gotAll :=
    ⟨_, _, rfl, _, _, rfl, rfl⟩
  obtain ⟨c, b, hline, c', b', hblank, hg⟩ := hrounds
  exact ⟨c', b', .again hline (.leave hblank), hg⟩

/-- A request, `reset`, and then the request line of a second one, after which the context waits. -/
theorem returns_iff_reset :
    ∃ (c : HttpContext) (b : StoredBuffer), Loop.Ends round 2 (new, getRoot) (true, c, b) ∧
      c.gotAll = true ∧ c.reset.Returns (b.append (fun _ n => n)
        ([0x47, 0x45, 0x54, 0x20, 0x2F, 0x20] ++ http11 ++ [0x0D, 0x0A])) := by
  obtain ⟨c, b, hends, hg⟩ := ends_getRoot
  have hrun : Run Step new [.parseRequest getRoot, .reset] c.reset :=
    .cons ⟨2, true, b, hends⟩ (.single rfl)
  exact ⟨c, b, hends, decide_eq_true hg, (returns_iff hrun _).mpr rfl⟩

/-- A second call after a complete request. -/
theorem parseRequest_spins :
    ∃ (c : HttpContext) (calls : List ContextCall), Run Step new calls c ∧
      ∀ b : StoredBuffer, ¬ c.Returns b := by
  obtain ⟨c, b, hends, hg⟩ := ends_getRoot
  exact ⟨c, [.parseRequest getRoot], .single ⟨2, true, b, hends⟩, not_returns_of_gotAll hg⟩

end HttpContext

end AegisNet
