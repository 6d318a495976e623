import AegisNet.Tcp.Buffer.Calls

/-!
# What the layout of a buffer shows

Where the readable bytes lie in the vector, and what is left around them of earlier requests, is
nobody's business. `retrieve` sees to it by comparing its length with what is readable;
`retrieveAsString` copies before it retrieves, and copies whatever lies there.

## Main definitions

- `QueueCall`, `RawBuffer.execAll` — a sequence of calls and their answers
- `RawBuffer.Sealed` — every string returned is made of readable bytes
- `RawBuffer.SameView` — two buffers answer alike, and show nothing else
- `AllInRange` — no string is asked for that is longer than what is readable

## Main results

- `RawBuffer.sameView_iff` — when the layout cannot be observed
-/

namespace AegisNet

/-- The calls under which a buffer is a byte queue. -/
inductive QueueCall
  | append (data : Bytes)
  | retrieve (len : ℕ)
  | retrieveAsString (len : ℕ)
  | findCRLF
  deriving DecidableEq

namespace QueueCall

def op : QueueCall → BufferOp
  | append data => .append data
  | retrieve len => .retrieve len
  | retrieveAsString len => .retrieveAsString len
  | findCRLF => .findCRLF

/-- Only `retrieveAsString` is given a length that nothing checks. -/
def InRange (q : Bytes) : QueueCall → Prop
  | retrieveAsString len => len ≤ q.length
  | _ => True

instance (q : Bytes) : DecidablePred (InRange q)
  | retrieveAsString len => inferInstanceAs (Decidable (len ≤ q.length))
  | append _ => .isTrue trivial
  | retrieve _ => .isTrue trivial
  | findCRLF => .isTrue trivial

end QueueCall

/-- Along the calls no string is asked for that is longer than what is readable then; `q` is what is
    readable at first. -/
def AllInRange (q : Bytes) : List QueueCall → Prop
  | [] => True
  | call :: calls => call.InRange q ∧ AllInRange (call.op.after q) calls

namespace RawBuffer

/-- The answers to the calls, and the buffer after them. -/
def execAll (b : RawBuffer) : List QueueCall → Option (List BufferResult × RawBuffer)
  | [] => some ([], b)
  | call :: calls => do
    let (r, b) ← b.exec call.op
    let (rs, b) ← execAll b calls
    some (r :: rs, b)

/-- The calls are carried out, and each string returned is the beginning of what was readable. -/
def Sealed (b : RawBuffer) : List QueueCall → Prop
  | [] => True
  | call :: calls => ∃ r b', b.exec call.op = some (r, b') ∧
      (∀ s, r = .string s → s <+: b.readable) ∧ Sealed b' calls

/-- The calls return the same on both buffers and leave the same readable bytes, and no other byte
    leaves either of them. -/
structure SameView (b₁ b₂ : RawBuffer) (calls : List QueueCall) : Prop where
  answers : ∃ rs b₁' b₂', b₁.execAll calls = some (rs, b₁') ∧ b₂.execAll calls = some (rs, b₂') ∧
    b₁'.readable = b₂'.readable
  left : b₁.Sealed calls
  right : b₂.Sealed calls

/-! ## Calls in range -/

/-- Step lemma: a call in range is answered from the readable bytes. -/
theorem exec_of_inRange (c : Buffer) {call : QueueCall} (h : call.InRange c.readable) :
    ∃ d : Buffer, c.toRaw.exec call.op = some (call.op.answer c.readable, d.toRaw) ∧
      d.readable = call.op.after c.readable := by
  have hallowed : call.op.Allowed c.toRaw := by
    cases call with
    | retrieveAsString len =>
      have hr := c.readIndex_le
      have hlen : len ≤ c.readable.length := h
      rw [Buffer.length_readable, Buffer.readableBytes] at hlen
      show c.readIndex + len ≤ c.writeIndex
      omega
    | _ => trivial
  obtain ⟨d, hexec, hafter, -⟩ := c.exec_toRaw hallowed
  exact ⟨d, hexec, hafter⟩

theorem prefix_of_answer {q s : Bytes} {call : QueueCall} (h : call.op.answer q = .string s) :
    s <+: q := by
  cases call with
  | retrieveAsString len =>
    obtain rfl : q.take len = s := BufferResult.string.inj h
    exact List.take_prefix len q
  | _ => cases h

/-- What a sequence of calls in range answers, and what it leaves, depends on the readable bytes
    alone. -/
theorem execAll_of_inRange {c₁ c₂ : Buffer} (hq : c₁.readable = c₂.readable)
    {calls : List QueueCall} (h : AllInRange c₁.readable calls) :
    c₁.toRaw.SameView c₂.toRaw calls := by
  induction calls generalizing c₁ c₂ with
  | nil => exact ⟨⟨[], _, _, rfl, rfl, hq⟩, trivial, trivial⟩
  | cons call calls ih =>
    obtain ⟨hcall, hcalls⟩ := h
    obtain ⟨d₁, hexec₁, hafter₁⟩ := exec_of_inRange c₁ hcall
    obtain ⟨d₂, hexec₂, hafter₂⟩ := exec_of_inRange c₂ (hq ▸ hcall)
    have hd : d₁.readable = d₂.readable := by rw [hafter₁, hafter₂, hq]
    obtain ⟨⟨rs, b₁', b₂', h₁, h₂, hend⟩, hleft, hright⟩ := ih hd (hafter₁ ▸ hcalls)
    refine ⟨⟨call.op.answer c₁.readable :: rs, b₁', b₂', ?_, ?_, hend⟩, ?_, ?_⟩
    · simp only [execAll, hexec₁, Option.bind_eq_bind, Option.bind_some, h₁]
    · simp only [execAll, hexec₂, Option.bind_eq_bind, Option.bind_some, h₂, hq]
    · exact ⟨_, _, hexec₁, fun s hs => prefix_of_answer hs, hleft⟩
    · exact ⟨_, _, hexec₂, fun s hs => prefix_of_answer hs, hright⟩

/-! ## Strings beyond the readable bytes -/

/-- A string that is longer than what is readable is not made of readable bytes. -/
theorem inRange_of_sealed {c : Buffer} {call : QueueCall} {calls : List QueueCall}
    (h : c.toRaw.Sealed (call :: calls)) : call.InRange c.readable := by
  cases call with
  | retrieveAsString len =>
    obtain ⟨r, b', hexec, hstarts, -⟩ := h
    have hin : c.readIndex + len ≤ c.buffer.length := by
      by_contra hout
      simp [QueueCall.op, exec, retrieveAsString, hout] at hexec
    rw [QueueCall.op, exec, c.toRaw_retrieveAsString hin] at hexec
    obtain ⟨hr, -⟩ := Prod.mk.inj (Option.some.inj hexec)
    have hle := (hstarts _ hr.symm).length_le
    rw [List.length_take, List.length_drop, Buffer.toRaw_readable] at hle
    show len ≤ c.readable.length
    omega
  | _ => trivial

theorem allInRange_of_sealed {c : Buffer} {calls : List QueueCall} (h : c.toRaw.Sealed calls) :
    AllInRange c.readable calls := by
  induction calls generalizing c with
  | nil => trivial
  | cons call calls ih =>
    have hcall := inRange_of_sealed h
    obtain ⟨d, hexec, hafter⟩ := exec_of_inRange c hcall
    obtain ⟨r, b', hexec', -, hcalls⟩ := h
    rw [hexec] at hexec'
    obtain ⟨-, rfl⟩ := Prod.mk.inj (Option.some.inj hexec')
    refine ⟨hcall, ?_⟩
    rw [← hafter]
    exact ih hcalls

variable {host : ByteOrder}

/-- **The layout of a buffer cannot be observed, except by a string that is too long.** Two reachable
    buffers with the same readable bytes answer a sequence of calls alike, leave the same readable
    bytes and show nothing else exactly when no string is asked for that is longer than what is
    readable. -/
theorem sameView_iff {b₁ b₂ : RawBuffer} (h₁ : b₁.Reachable host) (h₂ : b₂.Reachable host)
    (hq : b₁.readable = b₂.readable) (calls : List QueueCall) :
    b₁.SameView b₂ calls ↔ AllInRange b₁.readable calls := by
  obtain ⟨c₁, rfl⟩ := h₁.eq_toRaw
  obtain ⟨c₂, rfl⟩ := h₂.eq_toRaw
  exact ⟨fun h => allInRange_of_sealed h.left, execAll_of_inRange hq⟩

/-- A buffer that has held `AB` before `x`, and one that has not. -/
theorem reachable_stale : (⟨[0, 0, 0, 0, 0, 0, 0, 0, 0x78, 0x42, 0, 0], 8, 9⟩ : RawBuffer).Reachable
    .little :=
  ⟨4, [.op (.append [0x41, 0x42]), .op (.retrieve 2), .op (.append [0x78])],
    .cons rfl <| .cons rfl <| .cons rfl .nil⟩

theorem reachable_clean : (⟨[0, 0, 0, 0, 0, 0, 0, 0, 0x78, 0, 0, 0], 8, 9⟩ : RawBuffer).Reachable
    .little :=
  ⟨4, [.op (.append [0x78])], .cons rfl .nil⟩

/-- In range the two agree, also on a `retrieve` that is too long. -/
theorem sameView_iff_stale :
    SameView ⟨[0, 0, 0, 0, 0, 0, 0, 0, 0x78, 0x42, 0, 0], 8, 9⟩
      ⟨[0, 0, 0, 0, 0, 0, 0, 0, 0x78, 0, 0, 0], 8, 9⟩
      [.findCRLF, .retrieveAsString 1, .retrieve 7, .append [0x79]] :=
  (sameView_iff reachable_stale reachable_clean rfl _).mpr
    ⟨trivial, by decide, trivial, trivial, trivial⟩

/-- A string of length two, with one byte readable: the second byte is one of an earlier request. -/
theorem retrieveAsString_stale :
    ∃ b₁ b₂ : RawBuffer, b₁.Reachable .little ∧ b₂.Reachable .little ∧ b₁.readable = b₂.readable ∧
      (b₁.execAll [.retrieveAsString 2]).map Prod.fst = some [.string [0x78, 0x42]] ∧
      (b₂.execAll [.retrieveAsString 2]).map Prod.fst = some [.string [0x78, 0]] ∧
      ¬ b₁.SameView b₂ [.retrieveAsString 2] := by
  refine ⟨_, _, reachable_stale, reachable_clean, rfl, rfl, rfl, ?_⟩
  rintro ⟨⟨rs, b₁', b₂', h₁, h₂, -⟩, -, -⟩
  have hsame : (([.string [0x78, 0x42]] : List BufferResult)) = [.string [0x78, 0]] :=
    (Prod.mk.inj (Option.some.inj h₁)).1.trans (Prod.mk.inj (Option.some.inj h₂)).1.symm
  simp at hsame

end RawBuffer

end AegisNet
