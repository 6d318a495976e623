import AegisNet.Lib.Hysteresis
import AegisNet.Lib.Run
import AegisNet.Tcp.TcpConnection.Output

/-!
# The water marks of the output buffer

`sendInLoop` raises `aboveHighWaterMark_` after it has appended to the buffer, `handleWrite` lowers
it after it has drained the buffer, and both queue a callback. Together they are a hysteresis of
the buffered bytes, whatever the kernel takes and whichever way the methods end.

## Main definitions

- `Functor.mark`, `marks` — the water mark callbacks among the queued functors
- `TcpConnection.Regulated` — the flag, the buffer and the queued callbacks agree

## Main results

- `TcpConnection.watermark_hysteresis` — so they do after every step of every run
-/

namespace AegisNet

open Hysteresis (Event rise fall Alternates Controlled paused)

/-- A water mark callback, with the count that it reports. -/
def Functor.mark : Functor → Option (Event ℕ)
  | highWaterMark queuedBytes => some (.high queuedBytes)
  | lowWaterMark queuedBytes => some (.low queuedBytes)
  | _ => none

/-- The water mark callbacks among queued functors, in queue order. -/
def marks (fs : List Functor) : List (Event ℕ) := fs.filterMap Functor.mark

theorem marks_append (fs gs : List Functor) : marks (fs ++ gs) = marks fs ++ marks gs :=
  List.filterMap_append

namespace TcpConnection

/-- The bytes that the water marks are compared with. -/
def queuedBytes (c : TcpConnection) : ℕ := c.outputBuffer.readableBytes

/-- A callback for this mark is set. -/
def Notifies (c : TcpConnection) : Event ℕ → Bool
  | .high _ => c.highWaterMarkCallback
  | .low _ => c.lowWaterMarkCallback

/-- `es` are the crossings of the marks since the connection was `c₀`: they control the flag when
    `level` bytes are buffered, and those whose callback is set have been queued. -/
structure Regulated (c₀ : TcpConnection) (es : List (Event ℕ)) (level : ℕ) (c : TcpConnection) :
    Prop where
  lowWaterMark : c.lowWaterMark = c₀.lowWaterMark
  highWaterMark : c.highWaterMark = c₀.highWaterMark
  notifies : c.Notifies = c₀.Notifies
  controlled : Controlled c₀.lowWaterMark c₀.highWaterMark es c.aboveHighWaterMark level
  queued : marks c.loop.pendingFunctors = marks c₀.loop.pendingFunctors ++ es.filter c₀.Notifies

/-- `c'` has the marks of `c`, and no other callbacks for them queued. -/
structure SameMarks (c c' : TcpConnection) : Prop where
  lowWaterMark : c'.lowWaterMark = c.lowWaterMark
  highWaterMark : c'.highWaterMark = c.highWaterMark
  notifies : c'.Notifies = c.Notifies
  above : c'.aboveHighWaterMark = c.aboveHighWaterMark
  queued : marks c'.loop.pendingFunctors = marks c.loop.pendingFunctors

theorem SameMarks.refl (c : TcpConnection) : c.SameMarks c := ⟨rfl, rfl, rfl, rfl, rfl⟩

theorem SameMarks.trans {c d d' : TcpConnection} (h : c.SameMarks d) (h' : d.SameMarks d') :
    c.SameMarks d' :=
  ⟨h'.lowWaterMark.trans h.lowWaterMark, h'.highWaterMark.trans h.highWaterMark,
    h'.notifies.trans h.notifies, h'.above.trans h.above, h'.queued.trans h.queued⟩

/-- Queueing another functor. -/
theorem SameMarks.queueIf {c d : TcpConnection} (h : c.SameMarks d) (set : Bool) {f : Functor}
    (hf : f.mark = none) : c.SameMarks (d.queueIf set f) := by
  refine ⟨h.lowWaterMark, h.highWaterMark, h.notifies, h.above, ?_⟩
  cases set with
  | false => exact h.queued
  | true =>
    show marks (d.loop.pendingFunctors ++ [f]) = _
    rw [marks_append, h.queued]
    simp [marks, hf]

theorem SameMarks.closeFile {c d : TcpConnection} (h : c.SameMarks d) : c.SameMarks d.closeFile := by
  unfold TcpConnection.closeFile
  split
  · exact ⟨h.lowWaterMark, h.highWaterMark, h.notifies, h.above, h.queued⟩
  · exact h

variable {c₀ c c' : TcpConnection} {es : List (Event ℕ)} {level : ℕ}

theorem Regulated.same (h : c₀.Regulated es level c) (hs : c.SameMarks c') :
    c₀.Regulated es level c' where
  lowWaterMark := hs.lowWaterMark.trans h.lowWaterMark
  highWaterMark := hs.highWaterMark.trans h.highWaterMark
  notifies := hs.notifies.trans h.notifies
  controlled := hs.above ▸ h.controlled
  queued := hs.queued.trans h.queued

/-- The flag is set to `above`, and the functor of the event is queued if its callback is set. -/
theorem Regulated.event (h : c₀.Regulated es level c) {above : Bool} {e : Event ℕ} {f : Functor}
    (hf : f.mark = some e)
    (hctl : Controlled c₀.lowWaterMark c₀.highWaterMark (es ++ [e]) above c.queuedBytes) :
    c₀.Regulated (es ++ [e]) c.queuedBytes
      ({ c with aboveHighWaterMark := above }.queueIf (c.Notifies e) f) where
  lowWaterMark := h.lowWaterMark
  highWaterMark := h.highWaterMark
  notifies := h.notifies
  controlled := hctl
  queued := by
    have hq := h.queued
    rw [List.filter_append, ← List.append_assoc, ← hq, ← h.notifies]
    cases hset : c.Notifies e with
    | false => simp [queueIf, hset]
    | true =>
      show marks (c.loop.pendingFunctors ++ [f]) = _
      simp [marks, hf, hset]

/-! ## Growing -/

/-- The comparison with the high mark in `sendInLoop`. -/
def raise (c : TcpConnection) : TcpConnection :=
  if !c.aboveHighWaterMark && c.highWaterMark ≤ c.queuedBytes then
    { c with aboveHighWaterMark := true }.queueIf c.highWaterMarkCallback
      (.highWaterMark c.queuedBytes)
  else c

theorem Regulated.raise (hlt : c₀.lowWaterMark < c₀.highWaterMark) (h : c₀.Regulated es level c)
    (hle : level ≤ c.queuedBytes) : ∃ es', c₀.Regulated es' c.queuedBytes c.raise := by
  have hctl := h.controlled.rise hlt hle
  rw [← h.highWaterMark] at hctl
  unfold TcpConnection.raise
  split
  · next hcond =>
    have hrise : rise c.highWaterMark c.aboveHighWaterMark c.queuedBytes =
      (true, some (.high c.queuedBytes)) := if_pos hcond
    rw [hrise, h.highWaterMark] at hctl
    exact ⟨_, h.event rfl hctl⟩
  · next hcond =>
    have hrise : rise c.highWaterMark c.aboveHighWaterMark c.queuedBytes =
      (c.aboveHighWaterMark, none) := if_neg hcond
    rw [hrise, h.highWaterMark] at hctl
    exact ⟨_, h.lowWaterMark, h.highWaterMark, h.notifies, by simpa using hctl, h.queued⟩

theorem queuedBytes_raise (c : TcpConnection) : c.raise.queuedBytes = c.queuedBytes := by
  unfold raise
  split <;> rfl

/-- What the direct write takes was never buffered. -/
theorem sameMarks_directWrite (c : TcpConnection) (message : Bytes) (w : IoResult) :
    c.SameMarks (c.directWrite message w).1 ∧
      (c.directWrite message w).1.queuedBytes = c.queuedBytes := by
  unfold directWrite
  split
  · cases w with
    | upTo n =>
      have hemit : c.SameMarks (c.emit (.write (message.take (min n message.length)))) :=
        ⟨rfl, rfl, rfl, rfl, rfl⟩
      exact ⟨hemit.queueIf _ rfl, rfl⟩
    | error errno => exact ⟨.refl c, rfl⟩
  · exact ⟨.refl c, rfl⟩

/-- What is left is appended, compared with the high mark, and waits for `EPOLLOUT`. -/
theorem bufferRemaining_eq_raise (c : TcpConnection) (remaining : Bytes) :
    c.bufferRemaining remaining =
      let d := { c with outputBuffer := c.outputBuffer.append remaining }.raise
      if !d.channel.isWriting then { d with channel := d.channel.enableWriting } else d :=
  rfl

theorem Regulated.bufferRemaining (hlt : c₀.lowWaterMark < c₀.highWaterMark)
    (h : c₀.Regulated es c.queuedBytes c) (remaining : Bytes) :
    ∃ es', c₀.Regulated es' (c.bufferRemaining remaining).queuedBytes
      (c.bufferRemaining remaining) := by
  let d : TcpConnection := { c with outputBuffer := c.outputBuffer.append remaining }
  have hd : c₀.Regulated es c.queuedBytes d := h.same ⟨rfl, rfl, rfl, rfl, rfl⟩
  have hgrow : c.queuedBytes ≤ d.queuedBytes := by
    simp only [queuedBytes, ← Buffer.length_readable, d, Buffer.readable_append, List.length_append]
    omega
  obtain ⟨es', hes'⟩ := hd.raise hlt hgrow
  rw [← queuedBytes_raise] at hes'
  rw [bufferRemaining_eq_raise]
  dsimp only
  split
  · exact ⟨es', hes'.same ⟨rfl, rfl, rfl, rfl, rfl⟩⟩
  · exact ⟨es', hes'⟩

theorem Regulated.sendInLoop (hlt : c₀.lowWaterMark < c₀.highWaterMark)
    (h : c₀.Regulated es c.queuedBytes c) (message : Bytes) (w : IoResult) :
    ∃ es', c₀.Regulated es' (c.sendInLoop message w).queuedBytes (c.sendInLoop message w) := by
  unfold TcpConnection.sendInLoop
  split
  · exact ⟨es, h⟩
  · obtain ⟨hsame, hbytes⟩ := c.sameMarks_directWrite message w
    have hdirect := h.same hsame
    rw [← hbytes] at hdirect
    dsimp only
    split
    · exact hdirect.bufferRemaining hlt _
    · exact ⟨es, hdirect⟩

/-! ## Falling -/

/-- Draining leaves the flag as it is, so that it is late. -/
theorem Regulated.writeOutput (h : c₀.Regulated es c.queuedBytes c) {w : IoResult}
    (hw : c.writeOutput w = some c') :
    c₀.Regulated es c.queuedBytes c' ∧ c'.queuedBytes ≤ c.queuedBytes := by
  obtain rfl | ⟨n, rfl⟩ := writeOutput_cases hw
  · exact ⟨h, le_rfl⟩
  · refine ⟨h.same ⟨rfl, rfl, rfl, rfl, rfl⟩, ?_⟩
    simp only [queuedBytes, ← Buffer.length_readable, Buffer.readable_retrieve,
      List.length_drop]
    omega

theorem Regulated.checkLowWaterMark (hlt : c₀.lowWaterMark < c₀.highWaterMark)
    (h : c₀.Regulated es level c) (hle : c.queuedBytes ≤ level) :
    ∃ es', c₀.Regulated es' c.checkLowWaterMark.queuedBytes c.checkLowWaterMark := by
  have hctl := h.controlled.fall hlt hle
  rw [← h.lowWaterMark] at hctl
  unfold TcpConnection.checkLowWaterMark
  dsimp only
  split
  · next hcond =>
    have hfall : fall c.lowWaterMark c.aboveHighWaterMark c.queuedBytes =
      (false, some (.low c.queuedBytes)) := if_pos hcond
    rw [hfall, h.lowWaterMark] at hctl
    exact ⟨_, h.event rfl hctl⟩
  · next hcond =>
    have hfall : fall c.lowWaterMark c.aboveHighWaterMark c.queuedBytes =
      (c.aboveHighWaterMark, none) := if_neg hcond
    rw [hfall, h.lowWaterMark] at hctl
    exact ⟨_, h.lowWaterMark, h.highWaterMark, h.notifies, by simpa using hctl, h.queued⟩

theorem Regulated.transferFile (h : c₀.Regulated es c.queuedBytes c) (f : IoResult) :
    c₀.Regulated es (c.transferFile f).1.queuedBytes (c.transferFile f).1 := by
  obtain hr | ⟨-, -, n, -, hr⟩ | ⟨-, -, -, hr⟩ := c.transferFile_cases f
  · rwa [hr]
  · rw [hr]
    exact h.same ⟨rfl, rfl, rfl, rfl, rfl⟩
  · rw [hr]
    exact h.same ⟨rfl, rfl, rfl, rfl, rfl⟩

theorem sameMarks_shutdownInLoop (c : TcpConnection) :
    c.SameMarks c.shutdownInLoop ∧ c.shutdownInLoop.queuedBytes = c.queuedBytes := by
  obtain ⟨-, h⟩ | ⟨-, h⟩ := c.shutdownInLoop_cases
  · rw [h]
    exact ⟨.refl c, rfl⟩
  · rw [h]
    exact ⟨⟨rfl, rfl, rfl, rfl, rfl⟩, rfl⟩

theorem queuedBytes_closeFile (c : TcpConnection) : c.closeFile.queuedBytes = c.queuedBytes := by
  unfold closeFile
  split <;> rfl

theorem sameMarks_completeWrite (c : TcpConnection) :
    c.SameMarks c.completeWrite ∧ c.completeWrite.queuedBytes = c.queuedBytes := by
  unfold completeWrite
  split
  · let d : TcpConnection := { c with channel := c.channel.disableWriting }
    have hd : c.SameMarks d := ⟨rfl, rfl, rfl, rfl, rfl⟩
    have hsent : c.SameMarks (d.closeFile.queueIf d.closeFile.writeCompleteCallback .writeComplete) :=
      hd.closeFile.queueIf _ rfl
    have hbytes : (d.closeFile.queueIf d.closeFile.writeCompleteCallback .writeComplete).queuedBytes =
        c.queuedBytes := queuedBytes_closeFile d
    dsimp only
    split
    · obtain ⟨hsame, heq⟩ := sameMarks_shutdownInLoop
        (d.closeFile.queueIf d.closeFile.writeCompleteCallback .writeComplete)
      exact ⟨hsent.trans hsame, heq.trans hbytes⟩
    · exact ⟨hsent, hbytes⟩
  · exact ⟨.refl c, rfl⟩

theorem Regulated.handleWrite (hlt : c₀.lowWaterMark < c₀.highWaterMark)
    (h : c₀.Regulated es c.queuedBytes c) (w f : IoResult) :
    ∃ es', c₀.Regulated es' (c.handleWrite w f).queuedBytes (c.handleWrite w f) := by
  refine handleWrite_parts (P := fun d => ∃ es', c₀.Regulated es' d.queuedBytes d) ⟨es, h⟩ ?_ ?_ ?_
  · intro d hd
    obtain ⟨hlate, hle⟩ := h.writeOutput hd
    exact hlate.checkLowWaterMark hlt hle
  · rintro d ⟨es', hes'⟩
    exact ⟨es', hes'.transferFile f⟩
  · rintro d ⟨es', hes'⟩
    obtain ⟨hsame, hbytes⟩ := d.sameMarks_completeWrite
    exact ⟨es', hbytes ▸ hes'.same hsame⟩

/-! ## Runs -/

/-- Step lemma. -/
theorem Regulated.exec (hlt : c₀.lowWaterMark < c₀.highWaterMark)
    (h : c₀.Regulated es c.queuedBytes c) (l : IoStep) :
    ∃ es', c₀.Regulated es' (c.exec l).queuedBytes (c.exec l) := by
  cases l with
  | sendInLoop message w => exact h.sendInLoop hlt message w
  | sendFileInLoop file fileSize =>
    simp only [TcpConnection.exec, sendFileInLoop]
    split
    · exact ⟨es, h.same ⟨rfl, rfl, rfl, rfl, rfl⟩⟩
    · split <;> exact ⟨es, h.same ⟨rfl, rfl, rfl, rfl, rfl⟩⟩
  | shutdown =>
    simp only [TcpConnection.exec, shutdown]
    split
    · obtain ⟨hsame, hbytes⟩ := sameMarks_shutdownInLoop (c.setState .kDisconnecting)
      have hset : c.SameMarks (c.setState .kDisconnecting) := ⟨rfl, rfl, rfl, rfl, rfl⟩
      exact ⟨es, hbytes ▸ h.same (hset.trans hsame)⟩
    · exact ⟨es, h⟩
  | shutdownInLoop =>
    obtain ⟨hsame, hbytes⟩ := c.sameMarks_shutdownInLoop
    exact ⟨es, hbytes ▸ h.same hsame⟩
  | forceClose =>
    simp only [TcpConnection.exec, forceClose]
    split
    · have hset : c.SameMarks (c.setState .kDisconnecting) := ⟨rfl, rfl, rfl, rfl, rfl⟩
      exact ⟨es, h.same (hset.queueIf true rfl)⟩
    · exact ⟨es, h⟩
  | handleWrite w f => exact h.handleWrite hlt w f

/-- **Water mark hysteresis.** After every step of a run that starts with an empty buffer: the flag
    is set only above the low mark and clear only below the high mark. The water mark callbacks
    queued since are the crossings `es` whose callback is set, so all of them if both are. The
    crossings alternate, beginning with a high one, and each has its count on the right side of its
    mark. A producer that follows them is not paused with the buffer at or below the low mark. -/
theorem watermark_hysteresis {c₀ c : TcpConnection} (hlt : c₀.lowWaterMark < c₀.highWaterMark)
    (habove : c₀.aboveHighWaterMark = false) (hempty : c₀.outputBuffer.readable = [])
    {ls : List IoStep} (hrun : Run (fun c l c' => c' = c.exec l) c₀ ls c) :
    (c.aboveHighWaterMark = true → c₀.lowWaterMark < c.queuedBytes) ∧
      (c.aboveHighWaterMark = false → c.queuedBytes < c₀.highWaterMark) ∧
      ∃ es, marks c.loop.pendingFunctors =
          marks c₀.loop.pendingFunctors ++ es.filter c₀.Notifies ∧
        (c₀.lowWaterMarkCallback = true → c₀.highWaterMarkCallback = true →
          es.filter c₀.Notifies = es) ∧
        Alternates c₀.lowWaterMark c₀.highWaterMark es c.aboveHighWaterMark ∧
        (c.queuedBytes ≤ c₀.lowWaterMark → paused es = false) := by
  have hstart : c₀.Regulated [] c₀.queuedBytes c₀ := by
    refine ⟨rfl, rfl, rfl, ?_, (List.append_nil _).symm⟩
    rw [habove, queuedBytes, Buffer.readableBytes_eq_zero.mpr hempty]
    exact .start (Nat.zero_lt_of_lt hlt)
  obtain ⟨es, hes⟩ : ∃ es, c₀.Regulated es c.queuedBytes c := by
    refine hrun.invariant (P := fun c => ∃ es, c₀.Regulated es c.queuedBytes c) ⟨[], hstart⟩ ?_
    rintro c l _ ⟨es, hes⟩ rfl
    exact hes.exec hlt l
  refine ⟨hes.controlled.lt_of_above, hes.controlled.lt_of_not_above, es, hes.queued,
    fun hlow hhigh => ?_, hes.controlled.alternates, fun hle => ?_⟩
  · refine List.filter_eq_self.mpr fun e _ => ?_
    cases e with
    | high n => exact hhigh
    | low n => exact hlow
  · rw [hes.controlled.alternates.paused_eq]
    by_contra hpaused
    have hlt' := hes.controlled.lt_of_above (Bool.of_not_eq_false hpaused)
    omega

/-- Four bytes with the marks at one and three, of which the kernel takes three later. -/
theorem watermark_hysteresis_drained :
    let c₀ : TcpConnection :=
      { state := .kConnected
        lowWaterMark := 1
        highWaterMark := 3
        lowWaterMarkCallback := true
        highWaterMarkCallback := true }
    let c := (c₀.exec (.sendInLoop [1, 2, 3, 4] (.error .eagain))).exec
      (.handleWrite (.upTo 3) (.upTo 0))
    marks c.loop.pendingFunctors = [.high 4, .low 1] ∧
      (c.aboveHighWaterMark = false → c.queuedBytes < c₀.highWaterMark) := by
  intro c₀ c
  have hrun : Run (fun c l c' => c' = c.exec l) c₀ _ c := (Run.single rfl).snoc rfl
  have hmarks := watermark_hysteresis (show c₀.lowWaterMark < c₀.highWaterMark by decide) rfl
    (Buffer.readable_new _) hrun
  exact ⟨by decide +kernel, hmarks.2.1⟩

end TcpConnection

end AegisNet
