import AegisNet.Tcp.TcpConnection.FileOrder
import AegisNet.Tcp.TcpConnection.HalfClose
import Mathlib.Logic.Function.Basic

/-!
# The order of calls from several threads

`send` and `shutdown` may be called from any thread. `runInLoop` runs their work at once on the loop
thread and queues it elsewhere, so a call on the loop thread overtakes what is still queued, while
the queue itself keeps the order of the calls. Here any number of threads make such calls, each
access to `state_` and each submission a step of its own, between the steps of the loop.

## Main definitions

- `Submission` — a call, with what had happened when it was made
- `CallSystem`, `CallStep`, `CallSystem.exec` — the connection, its functor queue and its callers
- `CallSystem.Covered`, `CallSystem.Chain` — requests that find what they follow ahead of them
-/

namespace AegisNet

/-- A call of `send`, with its message, or of `shutdown`, with none. Calls are numbered. `seen`
    are the accepted sends that had returned when the call was made, and `ran` the sends that
    `sendInLoop` had taken by then. -/
structure Submission where
  id : ℕ
  message : Option Bytes
  inLoopThread : Bool
  seen : List ℕ
  ran : List ℕ
  deriving DecidableEq, Repr

/-- Where a caller is in `send` or `shutdown`. -/
inductive Caller
  | idle
  /-- About to test `state_ == kConnected`. -/
  | called (r : Submission)
  /-- The test has succeeded. -/
  | accepted (r : Submission)
  /-- `shutdown` has stored `kDisconnecting`. -/
  | stored (r : Submission)
  /-- `runInLoop` is done. -/
  | submitted (r : Submission)
  deriving DecidableEq, Repr

/-- A connection with its callers; the caller `none` is the loop thread. `queue` holds the functors
    that other threads' calls have queued. -/
structure CallSystem where
  conn : TcpConnection
  queue : EventLoop Submission := {}
  caller : Option ℕ → Caller := fun _ => .idle
  /-- The number of calls so far. -/
  calls : ℕ := 0
  /-- The accepted sends that have returned. -/
  returned : List ℕ := []
  /-- The sends that `sendInLoop` has taken, in order. -/
  handed : List Submission := []
  /-- The calls of `shutdown` whose `shutdownInLoop` has run. -/
  served : List Submission := []

inductive CallStep
  | callSend (i : Option ℕ) (message : Bytes)
  | callShutdown (i : Option ℕ)
  /-- The load of `state_` in the test of `send` or `shutdown`. -/
  | load (i : Option ℕ)
  /-- The store of `shutdown`. -/
  | store (i : Option ℕ)
  /-- `runInLoop`; `w` answers the write that is tried at once on the loop thread. -/
  | submit (i : Option ℕ) (w : IoResult)
  | ret (i : Option ℕ)
  /-- `doPendingFunctors` takes the queue. -/
  | beginBatch
  /-- `doPendingFunctors` runs the next functor of its batch. -/
  | runFunctor (w : IoResult)
  | handleWrite (w f : IoResult)
  | sendFileInLoop (file : File) (fileSize : ℕ)
  | handleClose
  deriving DecidableEq, Repr

/-- The connection is not closed, and writes take bytes or return `EAGAIN`. -/
def CallStep.Benign : CallStep → Prop
  | submit _ w | runFunctor w | handleWrite w _ => w.Benign
  | handleClose => False
  | callSend _ _ | callShutdown _ | load _ | store _ | ret _ => True
  | beginBatch | sendFileInLoop _ _ => True

instance : DecidablePred CallStep.Benign := fun l => by
  cases l <;> unfold CallStep.Benign <;> infer_instance

namespace Submission

/-- The number of a send. -/
def sendIds (r : Submission) : List ℕ := if r.message.isSome then [r.id] else []

def bytes (r : Submission) : Bytes := r.message.getD []

end Submission

namespace CallSystem

open TcpConnection

def setCaller (S : CallSystem) (i : Option ℕ) (c : Caller) : CallSystem :=
  { S with caller := Function.update S.caller i c }

/-- The calls to `send` that `sendInLoop` has taken. -/
def handedIds (S : CallSystem) : List ℕ := S.handed.flatMap Submission.sendIds

/-- These, and those that are queued. -/
def knownIds (S : CallSystem) : List ℕ :=
  S.handedIds ++ S.queue.queued.flatMap Submission.sendIds

def call (S : CallSystem) (i : Option ℕ) (message : Option Bytes) : CallSystem :=
  match S.caller i with
  | .idle =>
    { S with calls := S.calls + 1 }.setCaller i
      (.called ⟨S.calls, message, i.isNone, S.returned, S.handedIds⟩)
  | _ => S

/-- Run `sendInLoop` or `shutdownInLoop` for a request. -/
def runInLoop (S : CallSystem) (r : Submission) (w : IoResult) : CallSystem :=
  match r.message with
  | some message =>
    { S with
      conn := S.conn.sendInLoop message w
      handed := if S.conn.state = .kDisconnected then S.handed else S.handed ++ [r] }
  | none => { S with conn := S.conn.shutdownInLoop, served := S.served ++ [r] }

/-- `runInLoop` of the event loop: at once on the loop thread, queued on another. -/
def submit (S : CallSystem) (r : Submission) (w : IoResult) : CallSystem :=
  if r.inLoopThread then S.runInLoop r w else { S with queue := S.queue.queueInLoop r }

/-- A step of a caller, or of the loop while no call is in progress on its thread; steps that are
    not possible in a state do nothing. -/
def exec (S : CallSystem) : CallStep → CallSystem
  | .callSend i message => S.call i (some message)
  | .callShutdown i => S.call i none
  | .load i =>
    match S.caller i with
    | .called r => S.setCaller i (if S.conn.state = .kConnected then .accepted r else .idle)
    | _ => S
  | .store i =>
    match S.caller i with
    | .accepted r =>
      if r.message.isNone then
        { S with conn := S.conn.setState .kDisconnecting }.setCaller i (.stored r)
      else S
    | _ => S
  | .submit i w =>
    match S.caller i with
    | .accepted r => if r.message.isSome then (S.submit r w).setCaller i (.submitted r) else S
    | .stored r => (S.submit r w).setCaller i (.submitted r)
    | _ => S
  | .ret i =>
    match S.caller i with
    | .submitted r => { S with returned := S.returned ++ r.sendIds }.setCaller i .idle
    | _ => S
  | .beginBatch =>
    if S.caller none = .idle ∧ S.queue.functors = [] then
      { S with queue := S.queue.swapFunctors }
    else S
  | .runFunctor w =>
    match S.caller none, S.queue.functors with
    | .idle, r :: rest => { S with queue := { S.queue with functors := rest } }.runInLoop r w
    | _, _ => S
  | .handleWrite w f =>
    if S.caller none = .idle ∧ S.queue.functors = [] then
      { S with conn := S.conn.handleWrite w f }
    else S
  | .sendFileInLoop file fileSize =>
    if S.caller none = .idle then { S with conn := S.conn.sendFileInLoop file fileSize } else S
  | .handleClose =>
    if S.caller none = .idle then { S with conn := S.conn.handleClose } else S

/-! ## Requests in order -/

/-- Among the sends `ids` is every send that `r` has to follow: those that had returned when `r`
    was called and, if `r` was called on the loop thread, that `sendInLoop` had taken. -/
def Covered (ids : List ℕ) (r : Submission) : Prop :=
  ∀ x ∈ r.seen, (r.inLoopThread = true → x ∈ r.ran) → x ∈ ids

/-- Every request of a list follows what it has to, given that the sends `ids` come before. -/
def Chain : List ℕ → List Submission → Prop
  | _, [] => True
  | ids, r :: rs => Covered ids r ∧ Chain (ids ++ r.sendIds) rs

theorem Covered.mono {ids ids' : List ℕ} {r : Submission} (h : Covered ids r)
    (hsub : ids ⊆ ids') : Covered ids' r :=
  fun x hx hr => hsub (h x hx hr)

theorem Chain.mono {ids ids' : List ℕ} {rs : List Submission} (h : Chain ids rs)
    (hsub : ids ⊆ ids') : Chain ids' rs := by
  induction rs generalizing ids ids' with
  | nil => trivial
  | cons r rs ih =>
    refine ⟨h.1.mono hsub, ih h.2 ?_⟩
    exact List.append_subset.mpr ⟨List.subset_append_of_subset_left _ hsub,
      List.subset_append_right _ _⟩

theorem chain_append {ids : List ℕ} {rs : List Submission} {r : Submission} :
    Chain ids (rs ++ [r]) ↔ Chain ids rs ∧ Covered (ids ++ rs.flatMap Submission.sendIds) r := by
  induction rs generalizing ids with
  | nil => simp [Chain]
  | cons q rs ih => simp [Chain, ih, and_assoc]

/-- In a chain, what a request has to follow is ahead of it. -/
theorem Chain.covered_of_mem {ids : List ℕ} {as bs : List Submission} {r : Submission}
    (h : Chain ids (as ++ r :: bs)) : Covered (ids ++ as.flatMap Submission.sendIds) r := by
  induction as generalizing ids with
  | nil => simpa using h.1
  | cons q as ih => simpa using ih h.2

/-! ## The invariant -/

/-- What holds of a call in progress. -/
structure InProgress (S : CallSystem) (i : Option ℕ) (r : Submission) : Prop where
  inLoopThread : r.inLoopThread = i.isNone
  seen : r.seen ⊆ S.knownIds
  ran : r.ran ⊆ S.handedIds

/-- The stages of a call, with what holds in each. -/
def CallerOk (S : CallSystem) (i : Option ℕ) : Caller → Prop
  | .idle => True
  | .called r | .accepted r | .stored r => S.InProgress i r
  | .submitted r => r.sendIds ⊆ S.knownIds

structure Ordered (S : CallSystem) : Prop where
  draining : S.conn.Draining
  stream : S.conn.messageStream = S.handed.flatMap Submission.bytes
  returned : S.returned ⊆ S.knownIds
  caller : ∀ i, S.CallerOk i (S.caller i)
  handed : Chain [] S.handed
  queued : Chain S.handedIds S.queue.queued
  served : ∀ r ∈ S.served, Covered S.handedIds r

theorem CallerOk.mono {S T : CallSystem} {i : Option ℕ} {c : Caller} (h : S.CallerOk i c)
    (hh : S.handedIds ⊆ T.handedIds) (hk : S.knownIds ⊆ T.knownIds) : T.CallerOk i c := by
  cases c with
  | idle => trivial
  | submitted r => exact List.Subset.trans h hk
  | called r | accepted r | stored r =>
    exact ⟨h.inLoopThread, List.Subset.trans h.seen hk, List.Subset.trans h.ran hh⟩

theorem Ordered.setCaller {S : CallSystem} (h : S.Ordered) {i : Option ℕ} {c : Caller}
    (hc : S.CallerOk i c) : (S.setCaller i c).Ordered where
  draining := h.draining
  stream := h.stream
  returned := h.returned
  caller j := by
    refine CallerOk.mono (S := S) ?_ (List.Subset.refl _) (List.Subset.refl _)
    show S.CallerOk j (Function.update S.caller i c j)
    by_cases hj : j = i
    · subst hj
      rwa [Function.update_self]
    · rw [Function.update_of_ne hj]
      exact h.caller j
  handed := h.handed
  queued := h.queued
  served := h.served

/-! ## Running and queueing a request -/

/-- A request that finds what it follows among the sends that were taken may run: on the loop
    thread at once, or from the front of the queue. -/
theorem Ordered.runInLoop {S : CallSystem} (h : S.Ordered) {queue : EventLoop Submission}
    {r : Submission} {w : IoResult} (hw : w.Benign)
    (hq : S.queue.queued = queue.queued ∨ S.queue.queued = r :: queue.queued)
    (hr : Covered S.handedIds r) :
    ({ S with queue := queue }.runInLoop r w).Ordered ∧
      r.sendIds ⊆ ({ S with queue := queue }.runInLoop r w).handedIds := by
  have hids : S.knownIds ⊆ S.handedIds ++ r.sendIds ++ queue.queued.flatMap Submission.sendIds := by
    obtain hq | hq := hq <;> intro x hx <;> simp [knownIds, hq] at hx ⊢ <;> tauto
  have hchain : Chain (S.handedIds ++ r.sendIds) queue.queued := by
    obtain hq | hq := hq
    · exact (hq ▸ h.queued).mono (List.subset_append_left _ _)
    · have hc := h.queued
      rw [hq] at hc
      exact hc.2
  cases hm : r.message with
  | none =>
    have hrun : { S with queue := queue }.runInLoop r w =
        { S with queue := queue, conn := S.conn.shutdownInLoop, served := S.served ++ [r] } := by
      simp only [CallSystem.runInLoop, hm]
    have hsend : r.sendIds = [] := by simp [Submission.sendIds, hm]
    rw [hsend, List.append_nil] at hids hchain
    rw [hrun, hsend]
    refine ⟨⟨draining_shutdownInLoop h.draining, ?_, List.Subset.trans h.returned hids, fun i => ?_,
      h.handed, hchain, ?_⟩, List.nil_subset _⟩
    · exact (messageStream_shutdownInLoop S.conn).trans h.stream
    · exact (h.caller i).mono (List.Subset.refl _) hids
    · intro q hq
      obtain hq | hq := List.mem_append.mp hq
      · exact h.served q hq
      · rwa [List.mem_singleton.mp hq]
  | some message =>
    have hrun : { S with queue := queue }.runInLoop r w =
        { S with
          queue := queue
          conn := S.conn.sendInLoop message w
          handed := S.handed ++ [r] } := by
      simp only [CallSystem.runInLoop, hm, if_neg h.draining.up]
    rw [hrun]
    have hhanded : S.handedIds ++ r.sendIds = (S.handed ++ [r]).flatMap Submission.sendIds := by
      simp [handedIds]
    have hgrow : S.handedIds ⊆ S.handedIds ++ r.sendIds := List.subset_append_left _ _
    rw [hhanded] at hids hchain hgrow
    refine ⟨⟨draining_exec h.draining (.sendInLoop message w), ?_,
      List.Subset.trans h.returned hids, fun i => (h.caller i).mono hgrow hids, ?_, hchain,
      fun q hq => (h.served q hq).mono hgrow⟩, ?_⟩
    · show (S.conn.sendInLoop message w).messageStream = _
      rw [messageStream_sendInLoop h.draining.up message hw.isFault_eq, h.stream]
      simp [Submission.bytes, hm]
    · exact chain_append.mpr ⟨h.handed, by rw [List.nil_append]; exact hr⟩
    · show r.sendIds ⊆ (S.handed ++ [r]).flatMap Submission.sendIds
      rw [← hhanded]
      exact List.subset_append_right _ _

/-- Queueing keeps the order, since the sends that a request follows were queued before. -/
theorem Ordered.queueInLoop {S : CallSystem} (h : S.Ordered) {r : Submission}
    (hr : r.seen ⊆ S.knownIds) :
    { S with queue := S.queue.queueInLoop r }.Ordered ∧
      r.sendIds ⊆ { S with queue := S.queue.queueInLoop r }.knownIds := by
  have hknown : { S with queue := S.queue.queueInLoop r }.knownIds = S.knownIds ++ r.sendIds := by
    simp [knownIds, handedIds]
  have hgrow : S.knownIds ⊆ { S with queue := S.queue.queueInLoop r }.knownIds := by
    rw [hknown]
    exact List.subset_append_left _ _
  refine ⟨⟨h.draining, h.stream, List.Subset.trans h.returned hgrow,
    fun i => (h.caller i).mono (List.Subset.refl _) hgrow, h.handed, ?_, h.served⟩, ?_⟩
  · show Chain S.handedIds (S.queue.queueInLoop r).queued
    rw [EventLoop.queued_queueInLoop]
    exact chain_append.mpr ⟨h.queued, fun x hx _ => hr hx⟩
  · rw [hknown]
    exact List.subset_append_right _ _

/-- A step of the connection that submits nothing. -/
theorem Ordered.conn {S : CallSystem} (h : S.Ordered) {conn : TcpConnection}
    (hd : conn.Draining) (hs : conn.messageStream = S.conn.messageStream) :
    { S with conn := conn }.Ordered where
  draining := hd
  stream := hs.trans h.stream
  returned := h.returned
  caller i := (h.caller i).mono (List.Subset.refl _) (List.Subset.refl _)
  handed := h.handed
  queued := h.queued
  served := h.served

theorem Ordered.submit {S : CallSystem} (h : S.Ordered) {i : Option ℕ} {r : Submission}
    (hr : S.InProgress i r) {w : IoResult} (hw : w.Benign) :
    ((S.submit r w).setCaller i (.submitted r)).Ordered := by
  unfold CallSystem.submit
  split
  · next hloop =>
    have hcov : Covered S.handedIds r := fun x _ hx => hr.ran (hx hloop)
    have hrun := h.runInLoop hw (.inl rfl) hcov
    exact hrun.1.setCaller (List.Subset.trans hrun.2 (List.subset_append_left _ _))
  · have hq := h.queueInLoop hr.seen
    exact hq.1.setCaller hq.2

theorem Ordered.call {S : CallSystem} (h : S.Ordered) (i : Option ℕ) (message : Option Bytes) :
    (S.call i message).Ordered := by
  unfold CallSystem.call
  split
  · have hcount : { S with calls := S.calls + 1 }.Ordered :=
      ⟨h.draining, h.stream, h.returned, fun j => (h.caller j).mono (List.Subset.refl _)
        (List.Subset.refl _), h.handed, h.queued, h.served⟩
    exact hcount.setCaller ⟨rfl, h.returned, List.Subset.refl _⟩
  · exact h

/-- What has returned was accepted before, so it is known. -/
theorem Ordered.ret {S : CallSystem} (h : S.Ordered) (i : Option ℕ) : (S.exec (.ret i)).Ordered := by
  simp only [CallSystem.exec]
  split
  · next r hr =>
    have hin : S.CallerOk i (.submitted r) := hr ▸ h.caller i
    have hret : { S with returned := S.returned ++ r.sendIds }.Ordered :=
      ⟨h.draining, h.stream, List.append_subset.mpr ⟨h.returned, hin⟩, fun j => (h.caller j).mono
        (List.Subset.refl _) (List.Subset.refl _), h.handed, h.queued, h.served⟩
    exact hret.setCaller trivial
  · exact h

theorem Ordered.load {S : CallSystem} (h : S.Ordered) (i : Option ℕ) :
    (S.exec (.load i)).Ordered := by
  simp only [CallSystem.exec]
  split
  · next r hr =>
    have hin : S.CallerOk i (.called r) := hr ▸ h.caller i
    refine h.setCaller ?_
    split
    · exact hin
    · trivial
  · exact h

/-- A connection that is disconnecting still drains. -/
theorem Ordered.store {S : CallSystem} (h : S.Ordered) (i : Option ℕ) :
    (S.exec (.store i)).Ordered := by
  simp only [CallSystem.exec]
  split
  · next r hr =>
    have hin : S.CallerOk i (.accepted r) := hr ▸ h.caller i
    split
    · have hd : (S.conn.setState .kDisconnecting).Draining :=
        ⟨by simp [setState], h.draining.armed, h.draining.drained⟩
      refine (h.conn hd rfl).setCaller ?_
      exact CallerOk.mono (S := S) (c := .stored r) hin (List.Subset.refl _) (List.Subset.refl _)
    · exact h
  · exact h

/-- The batch and the queue are one sequence, which the swap does not change. -/
theorem Ordered.beginBatch {S : CallSystem} (h : S.Ordered) : (S.exec .beginBatch).Ordered := by
  simp only [CallSystem.exec]
  split
  · next hb =>
    have hq : S.queue.swapFunctors.queued = S.queue.queued := EventLoop.queued_swapFunctors hb.2
    have hk : { S with queue := S.queue.swapFunctors }.knownIds = S.knownIds := by
      simp [knownIds, handedIds, hq]
    refine ⟨h.draining, h.stream, hk ▸ h.returned, fun j => (h.caller j).mono
      (List.Subset.refl _) (hk ▸ List.Subset.refl _), h.handed, ?_, h.served⟩
    show Chain S.handedIds S.queue.swapFunctors.queued
    rw [hq]
    exact h.queued
  · exact h

/-- The front of the queue follows nothing that is still queued. -/
theorem Ordered.runFunctor {S : CallSystem} (h : S.Ordered) {w : IoResult} (hw : w.Benign) :
    (S.exec (.runFunctor w)).Ordered := by
  simp only [CallSystem.exec]
  split
  · next r rest _ hr =>
    have hq : S.queue.queued = r :: ({ S.queue with functors := rest } : EventLoop _).queued := by
      simp [EventLoop.queued, hr]
    have hcov : Covered S.handedIds r := by
      have hc := h.queued
      rw [hq] at hc
      exact hc.1
    exact (h.runInLoop hw (.inr hq) hcov).1
  · exact h

/-- Step lemma. -/
theorem Ordered.exec {S : CallSystem} (h : S.Ordered) {l : CallStep} (hl : l.Benign) :
    (S.exec l).Ordered := by
  cases l with
  | callSend i message => exact h.call i (some message)
  | callShutdown i => exact h.call i none
  | load i => exact h.load i
  | store i => exact h.store i
  | submit i w =>
    simp only [CallSystem.exec]
    split
    · next r hr =>
      split
      · exact h.submit (show S.CallerOk i (.accepted r) from hr ▸ h.caller i) hl
      · exact h
    · next r hr => exact h.submit (show S.CallerOk i (.stored r) from hr ▸ h.caller i) hl
    · exact h
  | ret i => exact h.ret i
  | beginBatch => exact h.beginBatch
  | runFunctor w => exact h.runFunctor hl
  | handleWrite w f =>
    simp only [CallSystem.exec]
    split
    · exact h.conn (draining_exec h.draining (.handleWrite w f))
        (messageStream_handleWrite S.conn w f)
    · exact h
  | sendFileInLoop file fileSize =>
    simp only [CallSystem.exec]
    split
    · refine h.conn (draining_exec h.draining (.sendFileInLoop file fileSize)) ?_
      simpa [IoStep.message, TcpConnection.exec] using messageStream_exec h.draining.up
        (l := .sendFileInLoop file fileSize) trivial
    · exact h
  | handleClose => exact hl.elim

/-! ## The half-close -/

/-- The number of half-closes so far. -/
def halfCloses (c : TcpConnection) : ℕ :=
  c.trace.countP fun
    | .shutdownWrite _ _ => true
    | _ => false

theorem halfCloses_shutdownInLoop {c : TcpConnection} (ha : c.Armed)
    (h : halfCloses c < halfCloses c.shutdownInLoop) :
    c.shutdownInLoop.outputBuffer.readable = [] := by
  obtain ⟨-, hr⟩ | ⟨hw, hr⟩ := c.shutdownInLoop_cases
  · rw [hr] at h
    exact absurd h (lt_irrefl _)
  · rw [hr]
    show c.outputBuffer.readable = []
    by_contra hb
    simp [ha (.inl hb)] at hw

theorem halfCloses_sendInLoop {c : TcpConnection} (hc : c.state ≠ .kDisconnected)
    (message : Bytes) (w : IoResult) : halfCloses (c.sendInLoop message w) = halfCloses c := by
  show halfCloses (c.sendInLoop message w).core = _
  obtain ⟨h, -⟩ | ⟨-, -, h⟩ | ⟨-, -, n, -, h⟩ | ⟨-, h⟩ := sendInLoop_cases hc message w
  all_goals rw [h]
  · rfl
  · simp [halfCloses, core, emit]
  · show halfCloses (c.emit (.write (message.take n))) = _
    simp [halfCloses, emit]
  · rfl

theorem halfCloses_handleWrite {c : TcpConnection} {w f : IoResult}
    (h : halfCloses c < halfCloses (c.handleWrite w f)) :
    (c.handleWrite w f).outputBuffer.readable = [] := by
  have hrule : halfCloses (c.handleWrite w f) = halfCloses c ∨
      (c.handleWrite w f).outputBuffer.readable = [] := by
    refine handleWrite_rule (P := fun d => halfCloses d = halfCloses c ∨
      d.outputBuffer.readable = []) (fun _ => Iff.rfl) (.inl rfl) ?_ ?_ ?_
    · intro d hd
      obtain rfl | ⟨n, rfl⟩ := writeOutput_cases hd
      · exact .inl rfl
      · exact .inl (by simp [halfCloses, emit])
    · intro d hd
      obtain hr | ⟨hb, -, n, -, hr⟩ | ⟨hb, -, -, hr⟩ := d.transferFile_cases f
      · rwa [hr]
      · rw [hr]
        exact .inr hb
      · rw [hr]
        exact .inr hb
    · intro d hd
      obtain hr | ⟨hb, -, hr⟩ := d.completeWrite_cases
      · rwa [hr]
      · refine .inr ?_
        show d.completeWrite.core.outputBuffer.readable = []
        rw [hr]
        exact hb
  exact hrule.resolve_left (ne_of_gt h)

theorem readable_of_halfCloses_runInLoop {S : CallSystem} (hd : S.conn.Draining)
    {r : Submission} {w : IoResult}
    (h : halfCloses S.conn < halfCloses (S.runInLoop r w).conn) :
    (S.runInLoop r w).conn.outputBuffer.readable = [] := by
  cases hm : r.message with
  | none =>
    simp only [CallSystem.runInLoop, hm] at h ⊢
    exact halfCloses_shutdownInLoop hd.armed h
  | some message =>
    simp only [CallSystem.runInLoop, hm] at h
    rw [halfCloses_sendInLoop hd.up] at h
    exact absurd h (lt_irrefl _)

theorem readable_of_halfCloses_submit {S : CallSystem} (hd : S.conn.Draining)
    {r : Submission} {w : IoResult}
    (h : halfCloses S.conn < halfCloses (S.submit r w).conn) :
    (S.submit r w).conn.outputBuffer.readable = [] := by
  unfold CallSystem.submit at h ⊢
  split at h
  · next hloop =>
    rw [if_pos hloop]
    exact readable_of_halfCloses_runInLoop hd h
  · exact absurd h (lt_irrefl _)

/-- A step that half-closes finds nothing buffered. -/
theorem readable_of_halfCloses {S : CallSystem} (hd : S.conn.Draining) {l : CallStep}
    (hl : l.Benign) (h : halfCloses S.conn < halfCloses (S.exec l).conn) :
    (S.exec l).conn.outputBuffer.readable = [] := by
  cases l with
  | callSend i message | callShutdown i =>
    simp only [CallSystem.exec, CallSystem.call] at h
    split at h <;> exact absurd h (lt_irrefl _)
  | load i | ret i | beginBatch =>
    simp only [CallSystem.exec] at h
    split at h <;> exact absurd h (lt_irrefl _)
  | store i =>
    simp only [CallSystem.exec] at h
    split at h
    · split at h <;> exact absurd h (lt_irrefl _)
    · exact absurd h (lt_irrefl _)
  | submit i w =>
    simp only [CallSystem.exec] at h ⊢
    split at h
    · split at h
      · next hm =>
        rw [if_pos hm]
        exact readable_of_halfCloses_submit hd h
      · exact absurd h (lt_irrefl _)
    · exact readable_of_halfCloses_submit hd h
    · exact absurd h (lt_irrefl _)
  | runFunctor w =>
    simp only [CallSystem.exec] at h ⊢
    split at h
    · next r rest _ _ =>
      exact readable_of_halfCloses_runInLoop
        (S := { S with queue := { S.queue with functors := rest } }) hd h
    · exact absurd h (lt_irrefl _)
  | handleWrite w f =>
    simp only [CallSystem.exec] at h ⊢
    split at h
    · next hidle =>
      rw [if_pos hidle]
      exact halfCloses_handleWrite h
    · exact absurd h (lt_irrefl _)
  | sendFileInLoop file fileSize =>
    simp only [CallSystem.exec] at h
    split at h
    · have ht := trace_sendFileInLoop hd.up file fileSize
      exact absurd h (by simp [halfCloses, ht])
    · exact absurd h (lt_irrefl _)
  | handleClose => exact hl.elim

/-! ## Runs -/

theorem ordered_connectEstablished {c₀ : TcpConnection} (h₀ : c₀.Constructed) :
    CallSystem.Ordered { conn := c₀.connectEstablished } where
  draining := draining_connectEstablished h₀
  stream := messageStream_connectEstablished h₀
  returned := List.nil_subset _
  caller _ := trivial
  handed := trivial
  queued := trivial
  served _ hr := absurd hr List.not_mem_nil

/-- **Calls from several threads.** In every run without a close or a failed write:

    * a send that `sendInLoop` has taken comes, on the socket and in the buffer, behind every send
      that had returned when it was called, and that had been taken if the call was made on the loop
      thread;
    * when the connection is half-closed, every byte taken is written, and for each `shutdown`
      whose `shutdownInLoop` has run, the sends that it follows in this sense are among these. -/
theorem sends_in_call_order {c₀ : TcpConnection} (h₀ : c₀.Constructed) {ls : List CallStep}
    {S : CallSystem}
    (hrun : Run (fun S l T => l.Benign ∧ T = S.exec l) { conn := c₀.connectEstablished } ls S) :
    (written S.conn.trace ++ S.conn.outputBuffer.readable = S.handed.flatMap Submission.bytes ∧
      ∀ y ∈ S.handed, ∀ x ∈ y.seen, (y.inLoopThread = true → x ∈ y.ran) →
        ∃ as X bs cs, S.handed = as ++ X :: bs ++ y :: cs ∧ x ∈ X.sendIds) ∧
    ∀ l : CallStep, l.Benign → halfCloses S.conn < halfCloses (S.exec l).conn →
      written (S.exec l).conn.trace = (S.exec l).handed.flatMap Submission.bytes ∧
      ∀ y ∈ (S.exec l).served, ∀ x ∈ y.seen, (y.inLoopThread = true → x ∈ y.ran) →
        ∃ X ∈ (S.exec l).handed, x ∈ X.sendIds := by
  have hS : S.Ordered := by
    refine hrun.invariant (ordered_connectEstablished h₀) ?_
    rintro T l _ hT ⟨hl, rfl⟩
    exact hT.exec hl
  refine ⟨⟨hS.stream, fun y hy x hx hran => ?_⟩, fun l hl hlt => ?_⟩
  · obtain ⟨front, cs, hsplit⟩ := List.append_of_mem hy
    have hcov : Covered ([] ++ front.flatMap Submission.sendIds) y :=
      Chain.covered_of_mem (hsplit ▸ hS.handed)
    obtain ⟨X, hX, hx⟩ := List.mem_flatMap.mp (hcov x hx hran)
    obtain ⟨as, bs, hfront⟩ := List.append_of_mem hX
    exact ⟨as, X, bs, cs, by rw [hsplit, hfront], hx⟩
  · have hT := hS.exec hl
    refine ⟨?_, fun y hy x hx hran => ?_⟩
    · have hb := readable_of_halfCloses hS.draining hl hlt
      have hs := hT.stream
      rwa [messageStream, hb, List.append_nil] at hs
    · simpa [handedIds] using hT.served y hy x hx hran

/-- Two threads send one after the other, and the loop runs both functors. -/
theorem sends_in_call_order_queued :
    let S := [.callSend (some 0) [1], .load (some 0), .submit (some 0) (.upTo 0), .ret (some 0),
      .callSend (some 1) [2], .load (some 1), .submit (some 1) (.upTo 0), .beginBatch,
      .runFunctor (.upTo 1), .runFunctor (.upTo 1)].foldl exec
        { conn := ({} : TcpConnection).connectEstablished }
    written S.conn.trace ++ S.conn.outputBuffer.readable = [1, 2] := by
  have h := sends_in_call_order constructed_default (Run.of_allowed (f := exec)
    (Q := fun _ => CallStep.Benign) (s := { conn := ({} : TcpConnection).connectEstablished })
    (by decide : Run.Allowed _ _ _ [.callSend (some 0) [1], .load (some 0),
      .submit (some 0) (.upTo 0), .ret (some 0), .callSend (some 1) [2], .load (some 1),
      .submit (some 1) (.upTo 0), .beginBatch, .runFunctor (.upTo 1), .runFunctor (.upTo 1)]))
  exact h.1.1.trans (by decide +kernel)

/-- A send on the loop thread overtakes one that another thread had made before it. -/
theorem not_sends_in_call_order :
    ¬∀ (ls : List CallStep) (S : CallSystem),
      Run (fun S l T => l.Benign ∧ T = S.exec l)
        { conn := ({} : TcpConnection).connectEstablished } ls S →
      ∀ y ∈ S.handed, ∀ x ∈ y.seen,
        ∃ as X bs cs, S.handed = as ++ X :: bs ++ y :: cs ∧ x ∈ X.sendIds := by
  intro h
  have hrun := Run.of_allowed (f := exec)
    (Q := fun _ => CallStep.Benign) (s := { conn := ({} : TcpConnection).connectEstablished })
    (by decide : Run.Allowed _ _ _ [.callSend (some 0) [1], .load (some 0),
      .submit (some 0) (.upTo 0), .ret (some 0), .callSend none [2], .load none,
      .submit none (.upTo 1), .ret none, .beginBatch, .runFunctor (.upTo 1)])
  let X : Submission := ⟨0, some [1], false, [], []⟩
  let Y : Submission := ⟨1, some [2], true, [0], []⟩
  obtain ⟨as, Z, bs, cs, hsplit, hZ⟩ := h _ _ hrun Y (by decide +kernel) 0 (by decide)
  have hhanded : [Y, X] = as ++ Z :: bs ++ Y :: cs := Eq.trans (by decide +kernel) hsplit
  have hlen := congrArg List.length hhanded
  simp only [List.length_append, List.length_cons, List.length_nil] at hlen
  obtain rfl : as = [] := List.length_eq_zero_iff.mp (by omega)
  have hZY : Z = Y := by
    simp only [List.nil_append, List.cons_append, List.cons.injEq] at hhanded
    exact hhanded.1.symm
  rw [hZY] at hZ
  exact absurd hZ (by decide)

/-- And `handleWrite` half-closes ahead of a send that was queued before `shutdown` was called. -/
example :
    let S := [.callSend none [1, 2], .load none, .submit none (.upTo 1), .ret none,
      .callSend (some 0) [3], .load (some 0), .submit (some 0) (.upTo 0), .ret (some 0),
      .callShutdown (some 0), .load (some 0), .store (some 0), .submit (some 0) (.upTo 0),
      .handleWrite (.upTo 1) (.upTo 0), .beginBatch, .runFunctor (.upTo 1)].foldl exec
        { conn := ({} : TcpConnection).connectEstablished }
    S.conn.trace = [.write [1], .write [2], .shutdownWrite [] (-1), .write [3]] := by
  decide +kernel

/-- And a close gives up what is queued, though the `shutdown` behind it still half-closes. -/
example :
    let S := [.callSend (some 0) [3], .load (some 0), .submit (some 0) (.upTo 0), .ret (some 0),
      .callShutdown (some 0), .load (some 0), .store (some 0), .submit (some 0) (.upTo 0),
      .handleClose, .beginBatch, .runFunctor (.upTo 1), .runFunctor (.upTo 1)].foldl exec
        { conn := ({} : TcpConnection).connectEstablished }
    S.conn.trace = [.shutdownWrite [] (-1)] := by
  decide +kernel

end CallSystem

end AegisNet
