import AegisNet.Lib.Run

/-!
# Records beside a run

Some properties of a run are about its past: what was read, what was sent, in which order. A record
is a value that grows with the steps and that no step looks at. It is computed from the labels, so
every run has one, and an invariant may relate it to the state.

## Main definitions

- `Run.recording` — the record after some labels

## Main results

- `Run.invariant_recording` — what each step keeps of state and record holds after every run
- `Run.refines` — a run of one system is a run of another one
-/

namespace Run

variable {σ ρ ι : Type*} {f : σ → ι → σ} {Q : σ → ι → Prop} {note : σ → ρ → ι → ρ}

/-- The record after the labels `ls`, where `note` tells what a step adds to it. -/
def recording (f : σ → ι → σ) (note : σ → ρ → ι → ρ) : σ → ρ → List ι → ρ
  | _, r, [] => r
  | s, r, l :: ls => recording f note (f s l) (note s r l) ls

theorem recording_append (s : σ) (r : ρ) (ls ms : List ι) :
    recording f note s r (ls ++ ms) =
      recording f note (ls.foldl f s) (recording f note s r ls) ms := by
  induction ls generalizing s r with
  | nil => rfl
  | cons l ls ih => exact ih (f s l) (note s r l)

theorem recording_concat (s : σ) (r : ρ) (ls : List ι) (l : ι) :
    recording f note s r (ls ++ [l]) = note (ls.foldl f s) (recording f note s r ls) l :=
  recording_append s r ls [l]

/-- **Invariant rule with a record**: what holds of the first state and record, and is kept by every
    step that is taken, holds of state and record at the end of every run. -/
theorem invariant_recording {P : σ → ρ → Prop} {s t : σ} {r : ρ} {ls : List ι}
    (h : Run (fun s l t => Q s l ∧ t = f s l) s ls t) (h0 : P s r)
    (hstep : ∀ s r l, P s r → Q s l → P (f s l) (note s r l)) : P t (recording f note s r ls) := by
  refine h.history (P := fun ls t => P t (recording f note s r ls)) h0 ?_
  rintro ls l t _ hrun hp ⟨hq, rfl⟩
  rw [recording_concat, ← hrun.eq_foldl]
  exact hstep t _ l hp hq

/-- **Refinement**: where each step of a system is a run of another one, with labels that depend on
    the state, so is every run, and the invariant that was needed for it holds. -/
theorem refines {τ κ : Type*} {step : τ → κ → τ → Prop} {abs : σ → τ} {emit : σ → ι → List κ}
    {P : σ → Prop} {s t : σ} {ls : List ι} (h : Run (fun s l t => Q s l ∧ t = f s l) s ls t)
    (h0 : P s) (hstep : ∀ s l, P s → Q s l →
      P (f s l) ∧ Run step (abs s) (emit s l) (abs (f s l))) :
    P t ∧ Run step (abs s) (recording f (fun s ms l => ms ++ emit s l) s [] ls) (abs t) := by
  refine h.invariant_recording (P := fun t ms => P t ∧ Run step (abs s) ms (abs t)) ⟨h0, nil⟩ ?_
  rintro t ms l ⟨hp, hrun⟩ hq
  obtain ⟨hp', hrun'⟩ := hstep t l hp hq
  exact ⟨hp', hrun.trans hrun'⟩

end Run
