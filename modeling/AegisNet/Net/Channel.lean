import Mathlib.Tactic.Common

/-!
# Channels

The interest set of `src/net/Channel.{h,cpp}`. An event mask is kept as the flags that the program
sets or tests; `EPOLLIN` and `EPOLLOUT` are the only ones it ever asks for.

## Main definitions

- `EpollEvents` — an event mask
- `EpollEvents.Reportable` — what epoll may report for an interest set
- `Channel` — interest set and registration flag
-/

namespace AegisNet

/-- An epoll event mask, flag by flag. -/
structure EpollEvents where
  epollin : Bool := false
  epollpri : Bool := false
  epollrdhup : Bool := false
  epollout : Bool := false
  epollhup : Bool := false
  epollerr : Bool := false
  deriving DecidableEq, Repr

/-- Epoll reports requested events, and hang-ups and errors whether requested or not. -/
def EpollEvents.Reportable (revents events : EpollEvents) : Prop :=
  (revents.epollin = true → events.epollin = true) ∧
  (revents.epollpri = true → events.epollpri = true) ∧
  (revents.epollrdhup = true → events.epollrdhup = true) ∧
  (revents.epollout = true → events.epollout = true)

instance (revents events : EpollEvents) : Decidable (revents.Reportable events) :=
  inferInstanceAs (Decidable (_ ∧ _ ∧ _ ∧ _))

theorem EpollEvents.Reportable.refl (events : EpollEvents) : events.Reportable events :=
  ⟨id, id, id, id⟩

theorem EpollEvents.Reportable.trans {a b c : EpollEvents} (h : a.Reportable b)
    (h' : b.Reportable c) : a.Reportable c :=
  ⟨h'.1 ∘ h.1, h'.2.1 ∘ h.2.1, h'.2.2.1 ∘ h.2.2.1, h'.2.2.2 ∘ h.2.2.2⟩

/-- The mask without `EPOLLOUT`. -/
def EpollEvents.input (events : EpollEvents) : EpollEvents := { events with epollout := false }

/-- Of the input events, epoll reports those that are asked for. -/
theorem EpollEvents.Reportable.of_input {revents events e : EpollEvents}
    (h : revents.Reportable events) (he : events.input = e) :
    (revents.epollin = true → e.epollin = true) ∧ (revents.epollpri = true → e.epollpri = true) ∧
      (revents.epollrdhup = true → e.epollrdhup = true) := by
  subst he
  exact ⟨h.1, h.2.1, h.2.2.1⟩

/-- The members of the C++ class that its operations change. -/
structure Channel where
  events : EpollEvents := {}
  inEpoll : Bool := false
  deriving DecidableEq, Repr

namespace Channel

/-- `Epoll::updateChannel` adds or modifies, and the channel is registered afterwards. -/
def update (ch : Channel) : Channel := { ch with inEpoll := true }

def enableReading (ch : Channel) : Channel :=
  { ch with events := { ch.events with epollin := true } }.update

def disableReading (ch : Channel) : Channel :=
  { ch with events := { ch.events with epollin := false } }.update

def enableWriting (ch : Channel) : Channel :=
  { ch with events := { ch.events with epollout := true } }.update

def disableWriting (ch : Channel) : Channel :=
  { ch with events := { ch.events with epollout := false } }.update

def disableAll (ch : Channel) : Channel := { ch with events := {} }.update

def isWriting (ch : Channel) : Bool := ch.events.epollout

/-- `disableAll`, then `Epoll::removeChannel`. -/
def remove (ch : Channel) : Channel := { ch.disableAll with inEpoll := false }

/-- Registered as before, for as many events at least. -/
def Grows (ch ch' : Channel) : Prop :=
  (ch.inEpoll = true → ch'.inEpoll = true) ∧ ch.events.Reportable ch'.events

theorem Grows.refl (ch : Channel) : ch.Grows ch := ⟨id, .refl _⟩

theorem grows_enableWriting (ch : Channel) : ch.Grows ch.enableWriting :=
  ⟨fun _ => rfl, id, id, id, fun _ => rfl⟩

@[simp] theorem isWriting_enableWriting (ch : Channel) : ch.enableWriting.isWriting = true := rfl

@[simp] theorem isWriting_disableWriting (ch : Channel) :
    ch.disableWriting.isWriting = false := rfl

end Channel

end AegisNet
