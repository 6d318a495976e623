import AegisNet.Net.Channel
import AegisNet.Lib.Run
import Mathlib.Logic.Function.Basic
import Mathlib.Data.Int.Basic

/-!
# Registration with epoll

`src/net/Epoll.{h,cpp}` with the kernel behind it. `inEpoll_` is the only record that the program
keeps of the kernel's interest list, and it decides between `EPOLL_CTL_ADD` and `EPOLL_CTL_MOD`. A
call of `epoll_ctl` that the kernel could carry out may still fail; its answer is an input.

## Main definitions

- `Epoll` — the channels, and the interest list of the kernel
- `Epoll.epollCtl` — one call of `epoll_ctl`
- `Epoll.updateChannel`, `Epoll.removeChannel` — the two members that call it
- `Epoll.exec` — one operation on a channel
- `Epoll.Matches` — the flags agree with the interest list

## Main results

- `Epoll.channels_exec` — a channel moves as if the kernel never failed
- `Epoll.matches_iff_answered` — the flags agree exactly where every call that changes the list is
  carried out
-/

namespace AegisNet

/-- The channels of one epoll instance, and what the kernel holds for each descriptor: the data
    pointer and the mask. -/
structure Epoll (ι : Type*) where
  channels : ι → Channel := fun _ => {}
  interest : ℤ → Option (ι × EpollEvents) := fun _ => none

/-- The second argument of `epoll_ctl`. -/
inductive EpollCtl
  | add
  | mod
  | del
  deriving DecidableEq, Repr

/-- The operations on the channels, with the answers of the kernel in the order of the calls. -/
inductive ChannelOp (ι : Type*)
  | enableReading (channel : ι) (ok : Bool)
  | disableReading (channel : ι) (ok : Bool)
  | enableWriting (channel : ι) (ok : Bool)
  | disableWriting (channel : ι) (ok : Bool)
  | disableAll (channel : ι) (ok : Bool)
  | remove (channel : ι) (updated removed : Bool)
  deriving DecidableEq, Repr

/-- The channel that an operation is called on. -/
def ChannelOp.channel {ι : Type*} : ChannelOp ι → ι
  | .enableReading c _ => c
  | .disableReading c _ => c
  | .enableWriting c _ => c
  | .disableWriting c _ => c
  | .disableAll c _ => c
  | .remove c _ _ => c

/-- What an operation does to its channel. -/
def ChannelOp.apply {ι : Type*} : ChannelOp ι → Channel → Channel
  | .enableReading _ _ => Channel.enableReading
  | .disableReading _ _ => Channel.disableReading
  | .enableWriting _ _ => Channel.enableWriting
  | .disableWriting _ _ => Channel.disableWriting
  | .disableAll _ _ => Channel.disableAll
  | .remove _ _ _ => Channel.remove

namespace Epoll

variable {ι : Type*} [DecidableEq ι] (fd : ι → ℤ)

/-- `epoll_ctl`. A descriptor that is there cannot be added, and one that is absent can neither be
    modified nor deleted; `none` is the answer -1. -/
def epollCtl (s : Epoll ι) (op : EpollCtl) (n : ℤ) (ev : ι × EpollEvents) (ok : Bool) :
    Option (Epoll ι) :=
  if ok && (s.interest n).isSome == (op != .add) then
    some { s with interest := Function.update s.interest n (if op = .del then none else some ev) }
  else none

def setInEpoll (s : Epoll ι) (channel : ι) (isIn : Bool) : Epoll ι :=
  { s with channels :=
      Function.update s.channels channel { s.channels channel with inEpoll := isIn } }

/-- An assignment to `events_`. -/
def setEvents (s : Epoll ι) (channel : ι) (events : EpollEvents) : Epoll ι :=
  { s with channels :=
      Function.update s.channels channel { s.channels channel with events := events } }

/-- The answer of `epoll_ctl` is not looked at. -/
def updateChannel (s : Epoll ι) (channel : ι) (ok : Bool) : Epoll ι :=
  let ev := (channel, (s.channels channel).events)
  if !(s.channels channel).inEpoll then
    ((s.epollCtl .add (fd channel) ev ok).getD s).setInEpoll channel true
  else
    (s.epollCtl .mod (fd channel) ev ok).getD s

/-- A failure is reported, and the flag is cleared all the same. -/
def removeChannel (s : Epoll ι) (channel : ι) (ok : Bool) : Epoll ι :=
  if (s.channels channel).inEpoll then
    ((s.epollCtl .del (fd channel) (channel, {}) ok).getD s).setInEpoll channel false
  else s

/-- An assignment to `events_`, and `update()`. -/
def change (s : Epoll ι) (channel : ι) (events : EpollEvents → EpollEvents) (ok : Bool) : Epoll ι :=
  (s.setEvents channel (events (s.channels channel).events)).updateChannel fd channel ok

def enableReading (s : Epoll ι) (channel : ι) (ok : Bool) : Epoll ι :=
  s.change fd channel (fun events => { events with epollin := true }) ok

def disableReading (s : Epoll ι) (channel : ι) (ok : Bool) : Epoll ι :=
  s.change fd channel (fun events => { events with epollin := false }) ok

def enableWriting (s : Epoll ι) (channel : ι) (ok : Bool) : Epoll ι :=
  s.change fd channel (fun events => { events with epollout := true }) ok

def disableWriting (s : Epoll ι) (channel : ι) (ok : Bool) : Epoll ι :=
  s.change fd channel (fun events => { events with epollout := false }) ok

def disableAll (s : Epoll ι) (channel : ι) (ok : Bool) : Epoll ι :=
  s.change fd channel (fun _ => {}) ok

def remove (s : Epoll ι) (channel : ι) (updated removed : Bool) : Epoll ι :=
  (s.disableAll fd channel updated).removeChannel fd channel removed

def exec (s : Epoll ι) : ChannelOp ι → Epoll ι
  | .enableReading c ok => s.enableReading fd c ok
  | .disableReading c ok => s.disableReading fd c ok
  | .enableWriting c ok => s.enableWriting fd c ok
  | .disableWriting c ok => s.disableWriting fd c ok
  | .disableAll c ok => s.disableAll fd c ok
  | .remove c updated removed => s.remove fd c updated removed

/-- The channels of a fresh epoll instance after some operations. -/
def after (ops : List (ChannelOp ι)) : Epoll ι := ops.foldl (exec fd) {}

/-- The descriptor of the channel is in the kernel's list, with the channel as its data pointer. -/
def Registered (s : Epoll ι) (channel : ι) : Prop :=
  ∃ events, s.interest (fd channel) = some (channel, events)

/-- The flag of every channel says whether its descriptor is in the kernel's list. -/
def Matches (s : Epoll ι) : Prop :=
  ∀ c, (s.channels c).inEpoll = true ↔ s.Registered fd c

/-- An update is sent as a modification exactly where the descriptor is present. -/
def Fits (s : Epoll ι) : Prop :=
  ∀ c, (s.channels c).inEpoll = (s.interest (fd c)).isSome

/-- The kernel carries out what changes its list: the addition of a channel that is not registered,
    and the deletion of one that is. -/
def Answered (s : Epoll ι) : ChannelOp ι → Prop
  | .enableReading c ok | .disableReading c ok | .enableWriting c ok | .disableWriting c ok
  | .disableAll c ok => (s.channels c).inEpoll = false → ok = true
  | .remove c updated removed =>
    (s.channels c).inEpoll = true ∨ updated = true → removed = true

instance (s : Epoll ι) : DecidablePred s.Answered
  | .enableReading _ _ | .disableReading _ _ | .enableWriting _ _ | .disableWriting _ _
  | .disableAll _ _ => inferInstanceAs (Decidable (_ → _))
  | .remove _ _ _ => inferInstanceAs (Decidable (_ → _))

/-! ## What the channels see -/

omit [DecidableEq ι] in
@[simp] theorem channels_epollCtl (s : Epoll ι) (op : EpollCtl) (n : ℤ) (ev : ι × EpollEvents)
    (ok : Bool) : ((s.epollCtl op n ev ok).getD s).channels = s.channels := by
  unfold epollCtl
  split <;> rfl

theorem channels_updateChannel (s : Epoll ι) (c : ι) (ok : Bool) :
    (s.updateChannel fd c ok).channels =
      Function.update s.channels c (s.channels c).update := by
  unfold updateChannel
  cases hin : (s.channels c).inEpoll
  · simp [setInEpoll, Channel.update]
  · have hsame : (s.channels c).update = s.channels c := by
      rw [Channel.update, ← hin]
    simp [hsame]

theorem channels_removeChannel (s : Epoll ι) (c : ι) (ok : Bool) :
    (s.removeChannel fd c ok).channels =
      Function.update s.channels c { s.channels c with inEpoll := false } := by
  unfold removeChannel
  split
  next => simp [setInEpoll]
  next hin =>
    have hfalse : (s.channels c).inEpoll = false := by simpa using hin
    have hsame : { s.channels c with inEpoll := false } = s.channels c := by rw [← hfalse]
    rw [hsame, Function.update_eq_self]

theorem channels_change (s : Epoll ι) (c : ι) (events : EpollEvents → EpollEvents) (ok : Bool) :
    (s.change fd c events ok).channels =
      Function.update s.channels c
        { s.channels c with events := events (s.channels c).events }.update := by
  rw [change, channels_updateChannel]
  simp [setEvents]

/-- A channel moves as if the kernel carried out every call. -/
theorem channels_exec (s : Epoll ι) (op : ChannelOp ι) :
    (s.exec fd op).channels =
      Function.update s.channels op.channel (op.apply (s.channels op.channel)) := by
  cases op with
  | remove c updated removed =>
    have hall : (s.disableAll fd c updated).channels =
        Function.update s.channels c (s.channels c).disableAll := channels_change ..
    show ((s.disableAll fd c updated).removeChannel fd c removed).channels = _
    rw [channels_removeChannel, hall]
    simp [ChannelOp.apply, ChannelOp.channel, Channel.remove]
  | _ => exact channels_change ..

/-! ## What the kernel holds -/

omit [DecidableEq ι] in
theorem interest_epollCtl_of_ne (s : Epoll ι) (op : EpollCtl) {n m : ℤ} (h : m ≠ n)
    (ev : ι × EpollEvents) (ok : Bool) :
    ((s.epollCtl op n ev ok).getD s).interest m = s.interest m := by
  unfold epollCtl
  split
  · exact Function.update_of_ne h _ _
  · rfl

omit [DecidableEq ι] in
/-- Whether the descriptor is present after a call. -/
theorem isSome_epollCtl (s : Epoll ι) (op : EpollCtl) (n : ℤ) (ev : ι × EpollEvents) (ok : Bool) :
    (((s.epollCtl op n ev ok).getD s).interest n).isSome =
      match op with
      | .add => (s.interest n).isSome || ok
      | .mod => (s.interest n).isSome
      | .del => (s.interest n).isSome && !ok := by
  cases ok with
  | false => cases op <;> simp [epollCtl]
  | true => cases hn : s.interest n <;> cases op <;> simp [epollCtl, hn]

theorem interest_updateChannel_of_ne (s : Epoll ι) {c : ι} {m : ℤ} (h : m ≠ fd c) (ok : Bool) :
    (s.updateChannel fd c ok).interest m = s.interest m := by
  unfold updateChannel
  split <;> exact s.interest_epollCtl_of_ne _ h _ _

theorem interest_removeChannel_of_ne (s : Epoll ι) {c : ι} {m : ℤ} (h : m ≠ fd c) (ok : Bool) :
    (s.removeChannel fd c ok).interest m = s.interest m := by
  unfold removeChannel
  split
  · exact s.interest_epollCtl_of_ne _ h _ _
  · rfl

/-- The kernel's entries for other descriptors stay. -/
theorem interest_exec_of_ne (s : Epoll ι) (op : ChannelOp ι) {m : ℤ} (h : m ≠ fd op.channel) :
    (s.exec fd op).interest m = s.interest m := by
  cases op with
  | remove c updated removed =>
    exact (interest_removeChannel_of_ne fd _ h _).trans (interest_updateChannel_of_ne fd _ h _)
  | _ => exact interest_updateChannel_of_ne fd _ h _

/-- An update that fits leaves the descriptor present if it was there or is added. -/
theorem isSome_updateChannel {s : Epoll ι} {c : ι}
    (h : (s.channels c).inEpoll = (s.interest (fd c)).isSome) (ok : Bool) :
    ((s.updateChannel fd c ok).interest (fd c)).isSome = ((s.channels c).inEpoll || ok) := by
  unfold updateChannel
  cases hin : (s.channels c).inEpoll
  · simp only [Bool.not_false, if_true, setInEpoll, isSome_epollCtl]
    rw [← h, hin]
  · simp only [Bool.not_true, Bool.false_eq_true, if_false, isSome_epollCtl]
    rw [← h, hin, Bool.true_or]

theorem isSome_change {s : Epoll ι} {c : ι}
    (h : (s.channels c).inEpoll = (s.interest (fd c)).isSome)
    (events : EpollEvents → EpollEvents) (ok : Bool) :
    ((s.change fd c events ok).interest (fd c)).isSome = ((s.channels c).inEpoll || ok) := by
  have hflag : ((s.setEvents c (events (s.channels c).events)).channels c).inEpoll =
      (s.channels c).inEpoll := by
    simp [setEvents]
  rw [change, isSome_updateChannel fd (hflag.trans h), hflag]

theorem isSome_removeChannel {s : Epoll ι} {c : ι} (hin : (s.channels c).inEpoll = true)
    (ok : Bool) :
    ((s.removeChannel fd c ok).interest (fd c)).isSome =
      ((s.interest (fd c)).isSome && !ok) := by
  rw [removeChannel, if_pos hin]
  exact s.isSome_epollCtl .del (fd c) _ ok

/-! ## The flags and the list -/

/-- Every entry of the list carries a channel of that descriptor. -/
def Owned (s : Epoll ι) : Prop :=
  ∀ n c events, s.interest n = some (c, events) → fd c = n

variable {fd}

omit [DecidableEq ι] in
theorem Owned.epollCtl {s : Epoll ι} (h : s.Owned fd) (op : EpollCtl) (c : ι)
    (events : EpollEvents) (ok : Bool) :
    ((s.epollCtl op (fd c) (c, events) ok).getD s).Owned fd := by
  unfold Epoll.epollCtl
  split
  · intro n c' events' hn
    by_cases hc : n = fd c
    · subst hc
      have hev : (if op = .del then none else some (c, events)) = some (c', events') := by
        simpa using hn
      split at hev
      · cases hev
      · cases hev
        rfl
    · exact h n c' events' (by simpa [hc] using hn)
  · exact h

theorem Owned.change {s : Epoll ι} (h : s.Owned fd) (c : ι) (events : EpollEvents → EpollEvents)
    (ok : Bool) : (s.change fd c events ok).Owned fd := by
  have hset : (s.setEvents c (events (s.channels c).events)).Owned fd := h
  unfold Epoll.change updateChannel
  split <;> exact hset.epollCtl _ c _ ok

theorem Owned.removeChannel {s : Epoll ι} (h : s.Owned fd) (c : ι) (ok : Bool) :
    (s.removeChannel fd c ok).Owned fd := by
  unfold Epoll.removeChannel
  split
  · exact h.epollCtl _ c _ ok
  · exact h

theorem Owned.exec {s : Epoll ι} (h : s.Owned fd) (op : ChannelOp ι) :
    (s.exec fd op).Owned fd := by
  cases op with
  | remove c updated removed => exact (h.change c _ updated).removeChannel c removed
  | _ => exact h.change _ _ _

theorem owned_after (ops : List (ChannelOp ι)) : (after fd ops).Owned fd :=
  (Run.foldl (exec fd) {} ops).invariant (fun _ _ _ h => by cases h) fun _ op _ h ht => by
    subst ht
    exact h.exec op

omit [DecidableEq ι] in
/-- With distinct descriptors an entry for a descriptor carries the only channel that has it. -/
theorem Owned.registered_iff {s : Epoll ι} (h : s.Owned fd) (hfd : Function.Injective fd) (c : ι) :
    s.Registered fd c ↔ (s.interest (fd c)).isSome = true := by
  rw [Registered, Option.isSome_iff_exists]
  constructor
  · rintro ⟨events, hc⟩
    exact ⟨_, hc⟩
  · rintro ⟨⟨c', events⟩, hc⟩
    obtain rfl : c' = c := hfd (h _ _ _ hc)
    exact ⟨events, hc⟩

omit [DecidableEq ι] in
theorem Owned.matches_iff_fits {s : Epoll ι} (h : s.Owned fd) (hfd : Function.Injective fd) :
    s.Matches fd ↔ s.Fits fd := by
  refine forall_congr' fun c => ?_
  rw [h.registered_iff hfd c]
  exact Bool.eq_iff_iff.symm

/-- An operation leaves the other channels and their entries alone. -/
theorem fits_exec_iff_at {s : Epoll ι} (hfd : Function.Injective fd) (h : s.Fits fd)
    (op : ChannelOp ι) :
    (s.exec fd op).Fits fd ↔
      (op.apply (s.channels op.channel)).inEpoll =
        ((s.exec fd op).interest (fd op.channel)).isSome := by
  constructor
  · intro hfits
    rw [← hfits op.channel, channels_exec, Function.update_self]
  · intro hat c
    rw [channels_exec]
    by_cases hc : c = op.channel
    · rw [hc, Function.update_self, hat]
    · rw [Function.update_of_ne hc, interest_exec_of_ne fd s op (hfd.ne hc)]
      exact h c

/-- One operation keeps the flags in step with the list exactly if the kernel answers it. -/
theorem fits_exec_iff {s : Epoll ι} (hfd : Function.Injective fd) (h : s.Fits fd)
    (op : ChannelOp ι) : (s.exec fd op).Fits fd ↔ s.Answered op := by
  rw [fits_exec_iff_at hfd h op]
  cases op with
  | remove c updated removed =>
    have hflag : ((s.disableAll fd c updated).channels c).inEpoll = true := by
      rw [disableAll, channels_change, Function.update_self]
      rfl
    have hlist : ((s.remove fd c updated removed).interest (fd c)).isSome =
        (((s.channels c).inEpoll || updated) && !removed) := by
      rw [remove, isSome_removeChannel fd hflag, disableAll, isSome_change fd (h c)]
    show false = ((s.remove fd c updated removed).interest (fd c)).isSome ↔ _
    rw [hlist, Answered]
    cases (s.channels c).inEpoll <;> cases updated <;> cases removed <;> decide
  | _ c ok =>
    show true = ((s.change fd c _ ok).interest (fd c)).isSome ↔ _
    rw [isSome_change fd (h c), Answered]
    cases (s.channels c).inEpoll <;> cases ok <;> decide

/-- **Registration matches the kernel exactly where it is answered.** With distinct descriptors, the
    flags agree with the kernel's list after every operation, and every later update is an addition
    of an absent descriptor or a modification of a present one, exactly where each addition and
    each deletion that the kernel could carry out is carried out. -/
theorem matches_iff_answered (hfd : Function.Injective fd) (ops : List (ChannelOp ι)) :
    (∀ ms, ms <+: ops → (after fd ms).Matches fd ∧ (after fd ms).Fits fd) ↔
      Run.Allowed (exec fd) Answered {} ops := by
  have hinit : ({} : Epoll ι).Fits fd := fun _ => rfl
  rw [Run.allowed_iff (P := Fits fd) (fun s op h => fits_exec_iff hfd h op) hinit]
  refine forall₂_congr fun ms _ => ?_
  rw [(owned_after ms).matches_iff_fits hfd, and_self]
  rfl

/-- Two channels. A failed modification leaves the flags right, and so does a failed addition in
    front of the removal. -/
theorem matches_iff_answered_two :
    let fd := fun b : Bool => if b then (5 : ℤ) else 7
    let s := after fd [.enableReading true true, .enableReading false true,
      .enableWriting true false, .remove true true true, .remove true false false]
    s.Matches fd ∧ s.Fits fd := by
  intro fd s
  have hfd : Function.Injective fd := by
    intro a b h
    cases a <;> cases b <;> simp [fd] at h ⊢
  exact (matches_iff_answered hfd _).mpr (by decide) _ List.prefix_rfl

/-- A refused addition: the flag is set without an entry, and an update that the kernel would carry
    out comes as a modification, which finds nothing. -/
theorem refused_addition :
    ¬ (after (fun _ => 5) [.enableReading () false]).Matches (fun _ => 5) ∧
      (after (fun _ => 5) [.enableReading () false, .enableWriting () true]).interest 5 = none := by
  refine ⟨fun h => ?_, rfl⟩
  obtain ⟨events, hevents⟩ := (h ()).mp rfl
  cases hevents

end Epoll

end AegisNet
