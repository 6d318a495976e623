import Mathlib.Data.List.Basic

/-!
# Labelled runs

Finite runs of a labelled step relation, and the two induction rules every safety argument of
this development goes through: an invariant of the states, and an invariant of the states
together with the labels taken so far.

## Main definitions

- `Run step s ls t` — the steps labelled `ls`, oldest first, lead from `s` to `t`
-/

variable {σ ι : Type*} {step : σ → ι → σ → Prop}

/-- The steps labelled `ls`, oldest first, lead from `s` to `t`. -/
inductive Run (step : σ → ι → σ → Prop) (s : σ) : List ι → σ → Prop
  | nil : Run step s [] s
  | snoc {ls : List ι} {l : ι} {t u : σ} :
      Run step s ls t → step t l u → Run step s (ls ++ [l]) u

namespace Run

/-- **Invariant rule with history**: what holds at the start, and is kept by every step taken
    after any labels, holds at the end of every run. -/
theorem history {P : List ι → σ → Prop} {s t : σ} {ls : List ι} (h : Run step s ls t)
    (h0 : P [] s)
    (hstep : ∀ ls l t u, Run step s ls t → P ls t → step t l u → P (ls ++ [l]) u) :
    P ls t := by
  induction h with
  | nil => exact h0
  | snoc hr hs ih => exact hstep _ _ _ _ hr ih hs

/-- **Invariant rule**: what holds at the start and is kept by every step holds throughout. -/
theorem invariant {P : σ → Prop} {s t : σ} {ls : List ι} (h : Run step s ls t)
    (h0 : P s) (hstep : ∀ t l u, P t → step t l u → P u) : P t :=
  h.history (P := fun _ => P) h0 (fun _ _ _ _ _ hp hs => hstep _ _ _ hp hs)

/-- A run of one step. -/
theorem single {s t : σ} {l : ι} (h : step s l t) : Run step s [l] t :=
  .snoc .nil h

/-- Runs compose. -/
theorem trans {s t u : σ} {ls ms : List ι} (h : Run step s ls t) (h' : Run step t ms u) :
    Run step s (ls ++ ms) u := by
  induction h' with
  | nil => simpa using h
  | snoc _ hs ih => simpa [List.append_assoc] using Run.snoc ih hs

/-- A step in front of a run. -/
theorem cons {s t u : σ} {l : ι} {ls : List ι} (hs : step s l t) (h : Run step t ls u) :
    Run step s (l :: ls) u :=
  (single hs).trans h

/-- The last step of a run. -/
theorem snoc_inv {s u : σ} {ls : List ι} {l : ι} (h : Run step s (ls ++ [l]) u) :
    ∃ t, Run step s ls t ∧ step t l u := by
  generalize hk : ls ++ [l] = k at h
  cases h with
  | nil => simp at hk
  | snoc hr hs =>
    obtain ⟨rfl, hl⟩ := List.append_inj' hk rfl
    obtain rfl := List.singleton_inj.mp hl
    exact ⟨_, hr, hs⟩

/-- A run can be cut after any of its labels. -/
theorem append_inv {s u : σ} {ls ms : List ι} (h : Run step s (ls ++ ms) u) :
    ∃ t, Run step s ls t ∧ Run step t ms u := by
  generalize hk : ls ++ ms = k at h
  induction h generalizing ms with
  | nil =>
    obtain ⟨rfl, rfl⟩ := List.append_eq_nil_iff.mp hk
    exact ⟨s, nil, nil⟩
  | @snoc ks l t u hr hs ih =>
    obtain rfl | ⟨ms', m, rfl⟩ := ms.eq_nil_or_concat'
    · exact ⟨u, by rw [← List.append_nil ls, hk]; exact hr.snoc hs, nil⟩
    · rw [← List.append_assoc] at hk
      obtain ⟨hks, hm⟩ := List.append_inj' hk rfl
      obtain rfl := List.singleton_inj.mp hm
      obtain ⟨w, hls, hms⟩ := ih hks
      exact ⟨w, hls, hms.snoc hs⟩

/-- A run is cut at a label into what comes before, the step, and what comes after. -/
theorem cut {s u : σ} {as bs : List ι} {l : ι} (h : Run step s (as ++ l :: bs) u) :
    ∃ t t', Run step s as t ∧ step t l t' ∧ Run step t' bs u := by
  rw [List.append_cons] at h
  obtain ⟨t', hl, hbs⟩ := h.append_inv
  obtain ⟨t, has, hs⟩ := hl.snoc_inv
  exact ⟨t, t', has, hs, hbs⟩

/-- Every label is allowed in the state in which it is computed. -/
def Allowed (f : σ → ι → σ) (Q : σ → ι → Prop) : σ → List ι → Prop
  | _, [] => True
  | s, l :: ls => Q s l ∧ Allowed f Q (f s l) ls

instance instDecidableAllowed {f : σ → ι → σ} {Q : σ → ι → Prop} [∀ s l, Decidable (Q s l)] :
    ∀ s ls, Decidable (Allowed f Q s ls)
  | _, [] => inferInstanceAs (Decidable True)
  | s, l :: ls =>
    have := instDecidableAllowed (f := f) (Q := Q) (f s l) ls
    inferInstanceAs (Decidable (Q s l ∧ Allowed f Q (f s l) ls))

/-- Computing step by step with allowed labels is a run. -/
theorem of_allowed {f : σ → ι → σ} {Q : σ → ι → Prop} {s : σ} {ls : List ι}
    (h : Allowed f Q s ls) : Run (fun s l t => Q s l ∧ t = f s l) s ls (ls.foldl f s) := by
  induction ls generalizing s with
  | nil => exact nil
  | cons l ls ih => exact cons ⟨h.1, rfl⟩ (ih h.2)

/-- **Exact condition of a run**: where a step keeps `P` exactly if it is allowed, `P` holds behind
    every first part of the labels exactly if each of them is allowed. -/
theorem allowed_iff {f : σ → ι → σ} {Q : σ → ι → Prop} {P : σ → Prop}
    (hstep : ∀ s l, P s → (P (f s l) ↔ Q s l)) {s : σ} {ls : List ι} (hs : P s) :
    Allowed f Q s ls ↔ ∀ ms, ms <+: ls → P (ms.foldl f s) := by
  induction ls generalizing s with
  | nil => simpa [Allowed] using hs
  | cons l ls ih =>
    constructor
    · rintro ⟨hl, hls⟩ ms hms
      obtain rfl | ⟨ks, rfl, hks⟩ := List.prefix_cons_iff.mp hms
      · exact hs
      · exact (ih ((hstep s l hs).mpr hl)).mp hls ks hks
    · intro h
      have hl : P (f s l) := h [l] ⟨ls, rfl⟩
      refine ⟨(hstep s l hs).mp hl, (ih hl).mpr fun ks hks => ?_⟩
      exact h (l :: ks) ((List.prefix_cons_inj l).mpr hks)

/-- Every list of labels is a run where the step is a function that is always allowed. -/
theorem foldl (f : σ → ι → σ) (s : σ) (ls : List ι) :
    Run (fun s l t => t = f s l) s ls (ls.foldl f s) := by
  induction ls generalizing s with
  | nil => exact nil
  | cons l ls ih => exact cons rfl (ih (f s l))

/-- Where the step is a function of the label, the run computes it. -/
theorem eq_foldl {f : σ → ι → σ} {Q : σ → ι → Prop} {s t : σ} {ls : List ι}
    (h : Run (fun s l t => Q s l ∧ t = f s l) s ls t) : t = ls.foldl f s := by
  induction h with
  | nil => rfl
  | snoc _ hs ih => rw [List.foldl_append, ← ih, hs.2]; rfl

end Run
