import AegisNet.Lib.History
import Mathlib.Order.Lattice
import Mathlib.Tactic.Common

/-!
# A queue that can be passed

Messages that are numbered in the order in which they are submitted reach a receiver through a
queue, or past it. They are received out of order exactly when one went past the queue while an
earlier one was still in it.

## Main definitions

- `Lane α` — the queue, what was received, and who passed whom
- `Lane.all` — what was not lost
- `Lane.Ordered` — the invariant of a lane

## Main results

- `Lane.Ordered.sublist_iff` — two received messages are in order unless one passed the other
-/

/-- The queue, oldest first; what was received, oldest first; and the pairs of messages of which
    the second was received while the first was in the queue. -/
structure Lane (α : Type*) where
  queue : List α := []
  received : List α := []
  overtaken : List (α × α) := []

namespace Lane

variable {α : Type*}

/-- A message enters the queue. -/
def push (L : Lane α) (b : α) : Lane α := { L with queue := L.queue ++ [b] }

/-- A message goes past the queue. -/
def pass (L : Lane α) (b : α) : Lane α :=
  { L with
    received := L.received ++ [b]
    overtaken := L.overtaken ++ L.queue.map fun a => (a, b) }

/-- The first message in the queue is received, or lost. -/
def pop (L : Lane α) (lost : Bool) : Lane α :=
  { L with
    queue := L.queue.tail
    received := if lost then L.received else L.received ++ L.queue.head?.toList }

/-- The messages that are in the queue or were received. -/
def all (L : Lane α) : List α := L.queue ++ L.received

theorem all_push (L : Lane α) (b : α) : (L.push b).all.Perm (b :: L.all) := by
  rw [all, push, List.append_assoc]
  exact List.perm_middle

theorem all_pass (L : Lane α) (b : α) : (L.pass b).all.Perm (b :: L.all) := by
  rw [all, pass, ← List.append_assoc]
  exact List.perm_append_singleton b _

/-- What is not lost stays. -/
theorem all_pop (L : Lane α) : (L.pop false).all.Perm L.all := by
  cases hq : L.queue with
  | nil => simp [all, pop, hq]
  | cons d queue =>
    have hall : (L.pop false).all = queue ++ (L.received ++ [d]) := by simp [all, pop, hq]
    rw [hall, all, hq, ← List.append_assoc]
    exact List.perm_append_singleton d _

variable [LinearOrder α]

/-- The message was submitted after all others. -/
def Newest (L : Lane α) (b : α) : Prop := ∀ a ∈ L.queue ++ L.received, a < b

structure Ordered (L : Lane α) : Prop where
  increasing : L.queue.Pairwise (· < ·)
  nodup : (L.queue ++ L.received).Nodup
  late : ∀ a ∈ L.queue, ∀ b ∈ L.received, a < b → (a, b) ∈ L.overtaken
  inverted : ∀ a b, a < b → [b, a].Sublist L.received → (a, b) ∈ L.overtaken
  passed : ∀ a b, (a, b) ∈ L.overtaken → b ∈ L.received ∧ ¬ [a, b].Sublist L.received

variable {L : Lane α} {a b : α}

theorem ordered_empty : ({} : Lane α).Ordered := by
  constructor <;> simp

theorem Newest.notMem (h : L.Newest b) : b ∉ L.queue ∧ b ∉ L.received :=
  ⟨fun hb => lt_irrefl b (h b (List.mem_append_left _ hb)),
    fun hb => lt_irrefl b (h b (List.mem_append_right _ hb))⟩

theorem Ordered.push (h : L.Ordered) (hb : L.Newest b) : (L.push b).Ordered where
  increasing := List.pairwise_append.mpr ⟨h.increasing, List.pairwise_singleton _ _,
    fun a ha c hc => List.mem_singleton.mp hc ▸ hb a (List.mem_append_left _ ha)⟩
  nodup := by
    have hnew : b ∉ L.queue ++ L.received := fun hmem => lt_irrefl b (hb b hmem)
    show (L.queue ++ [b] ++ L.received).Nodup
    rw [List.append_assoc]
    exact List.perm_middle.nodup_iff.mpr (List.nodup_cons.mpr ⟨hnew, h.nodup⟩)
  late a ha c hc hlt := by
    obtain ha | ha := List.mem_append.mp ha
    · exact h.late a ha c hc hlt
    · obtain rfl := List.mem_singleton.mp ha
      exact absurd (hb c (List.mem_append_right _ hc)) (lt_asymm hlt)
  inverted := h.inverted
  passed := h.passed

theorem Ordered.pass (h : L.Ordered) (hb : L.Newest b) : (L.pass b).Ordered where
  increasing := h.increasing
  nodup := by
    have hnew : b ∉ L.queue ++ L.received := fun hmem => lt_irrefl b (hb b hmem)
    show (L.queue ++ (L.received ++ [b])).Nodup
    rw [← List.append_assoc]
    exact (List.perm_append_singleton b _).nodup_iff.mpr (List.nodup_cons.mpr ⟨hnew, h.nodup⟩)
  late a ha c hc hlt := by
    obtain hc | hc := List.mem_append.mp hc
    · exact List.mem_append_left _ (h.late a ha c hc hlt)
    · obtain rfl := List.mem_singleton.mp hc
      exact List.mem_append_right _ (List.mem_map.mpr ⟨a, ha, rfl⟩)
  inverted a c hlt hsub := by
    obtain hsub | ⟨hc, rfl⟩ := List.pair_sublist_concat.mp hsub
    · exact List.mem_append_left _ (h.inverted a c hlt hsub)
    · exact absurd (hb c (List.mem_append_right _ hc)) (lt_asymm hlt)
  passed a c hmem := by
    obtain hmem | hmem := List.mem_append.mp hmem
    · obtain ⟨hc, hsub⟩ := h.passed a c hmem
      refine ⟨List.mem_append_left _ hc, fun hsub' => ?_⟩
      obtain hsub' | ⟨-, rfl⟩ := List.pair_sublist_concat.mp hsub'
      · exact hsub hsub'
      · exact hb.notMem.2 hc
    · obtain ⟨d, hd, heq⟩ := List.mem_map.mp hmem
      obtain ⟨rfl, rfl⟩ := Prod.mk.inj heq
      refine ⟨List.mem_append_right _ (List.mem_singleton_self _), fun hsub => ?_⟩
      -- the message passed is still in the queue
      have hd' : d ∉ L.received := (List.disjoint_of_nodup_append h.nodup) hd
      obtain hsub | ⟨hr, -⟩ := List.pair_sublist_concat.mp hsub
      · exact hd' (hsub.subset List.mem_cons_self)
      · exact hd' hr

/-- A message is submitted: it is lost, queued, or it goes past the queue. -/
def Submitted (L : Lane α) (b : α) (L' : Lane α) : Prop :=
  L' = L ∨ L' = L.push b ∨ L' = L.pass b

theorem Ordered.submitted {L' : Lane α} (h : L.Ordered) (hb : L.Newest b) (hs : L.Submitted b L') :
    L'.Ordered := by
  obtain rfl | rfl | rfl := hs
  · exact h
  · exact h.push hb
  · exact h.pass hb

theorem Newest.submitted {L' : Lane α} (h : L.Newest a) (hlt : b < a) (hs : L.Submitted b L') :
    L'.Newest a := by
  intro d hd
  have hmem : d ∈ L.queue ++ L.received ∨ d = b := by
    obtain rfl | rfl | rfl := hs
    · exact .inl hd
    · simp only [Lane.push, List.mem_append, List.mem_singleton] at hd ⊢
      tauto
    · simp only [Lane.pass, List.mem_append, List.mem_singleton] at hd ⊢
      tauto
  obtain hmem | rfl := hmem
  · exact h d hmem
  · exact hlt

theorem Newest.pop (h : L.Newest a) (lost : Bool) : (L.pop lost).Newest a := by
  intro d hd
  refine h d ?_
  cases hq : L.queue <;> cases lost <;> simp_all [Lane.pop]
  tauto

theorem Ordered.pop (h : L.Ordered) (lost : Bool) : (L.pop lost).Ordered := by
  cases hq : L.queue with
  | nil =>
    have hpop : L.pop lost = L := by
      cases L
      cases lost <;> simp_all [Lane.pop]
    rwa [hpop]
  | cons d queue =>
    have hincreasing := h.increasing
    have hnodup := h.nodup
    rw [hq] at hincreasing hnodup
    obtain ⟨hd, htail⟩ := List.pairwise_cons.mp hincreasing
    have hdr : d ∉ L.received := fun hr =>
      (List.nodup_cons.mp hnodup).1 (List.mem_append_right _ hr)
    cases lost with
    | true =>
      have hpop : L.pop true = { L with queue := queue } := by simp [Lane.pop, hq]
      rw [hpop]
      refine ⟨htail, (List.nodup_cons.mp hnodup).2, fun a ha => h.late a ?_, h.inverted, h.passed⟩
      rw [hq]
      exact List.mem_cons_of_mem _ ha
    | false =>
      have hpop : L.pop false = { L with queue := queue, received := L.received ++ [d] } := by
        simp [Lane.pop, hq]
      rw [hpop]
      refine ⟨htail, ?_, fun a ha c hc hlt => ?_, fun a c hlt hsub => ?_, fun a c hmem => ?_⟩
      · show (queue ++ (L.received ++ [d])).Nodup
        rw [← List.append_assoc]
        exact (List.perm_append_singleton d _).nodup_iff.mpr hnodup
      · obtain hc | hc := List.mem_append.mp hc
        · exact h.late a (hq ▸ List.mem_cons_of_mem _ ha) c hc hlt
        · obtain rfl := List.mem_singleton.mp hc
          -- the message received was the first in the queue
          exact absurd (hd a ha) (lt_asymm hlt)
      · obtain hsub | ⟨hc, rfl⟩ := List.pair_sublist_concat.mp hsub
        · exact h.inverted a c hlt hsub
        · exact h.late a (hq ▸ List.mem_cons_self) c hc hlt
      · obtain ⟨hc, hsub⟩ := h.passed a c hmem
        refine ⟨List.mem_append_left _ hc, fun hsub' => ?_⟩
        obtain hsub' | ⟨-, rfl⟩ := List.pair_sublist_concat.mp hsub'
        · exact hsub hsub'
        · exact hdr hc

/-- **Overtaking**: of two received messages the earlier one came first, unless the later one
    passed it in the queue. -/
theorem Ordered.sublist_iff (h : L.Ordered) (hlt : a < b) (ha : a ∈ L.received)
    (hb : b ∈ L.received) : [a, b].Sublist L.received ↔ (a, b) ∉ L.overtaken := by
  constructor
  · intro hsub hmem
    exact (h.passed a b hmem).2 hsub
  · intro hmem
    exact (List.pair_sublist_or ha hb (ne_of_lt hlt)).resolve_right fun hsub => hmem (h.inverted a b hlt hsub)

end Lane
