import Mathlib.Tactic.Common

/-!
# Runs — what holds at every step of a run

A step may fail, may have to wait, or leads to one next state. `Every step P s es` says that `P`
holds of every event of the run that the events `es` make from `s`, in the state that the event
finds. `Guarded step P init s` says that a run from `init`, of which this is so, leads to `s`.
-/

namespace Runs

section Every

variable {σ ε ω φ : Type}

abbrev Step (σ ε ω φ : Type) := σ → ε → Except φ (Option (σ × ω))

/-- `P` holds at each event of a run. -/
def Every (step : Step σ ε ω φ) (P : σ → ε → Prop) : σ → List ε → Prop
  | _, [] => True
  | s, e :: es => P s e ∧ ∀ s' out, step s e = .ok (some (s', out)) → Every step P s' es

variable {step : Step σ ε ω φ} {P Q L : σ → ε → Prop}

@[simp] theorem every_nil (s : σ) : Every step P s [] := trivial

theorem every_true (s : σ) (es : List ε) : Every step (fun _ _ => True) s es := by
  induction es generalizing s with
  | nil => trivial
  | cons e es ih => exact ⟨trivial, fun s' _ _ => ih s'⟩

theorem every_cons_of_eq {s s' : σ} {e : ε} {es : List ε} {out : ω}
    (hstep : step s e = .ok (some (s', out))) (hP : P s e) (hrest : Every step P s' es) :
    Every step P s (e :: es) := by
  refine ⟨hP, fun s'' out' hstep' => ?_⟩
  rw [hstep] at hstep'
  cases hstep'
  exact hrest

/-- From `P` at every step to `Q` at every step, with an invariant that the steps keep. -/
theorem Every.imp_of_invariant {Inv : σ → Prop} (hstep : ∀ s e, Inv s → L s e → P s e →
      Q s e ∧ ∀ s' out, step s e = .ok (some (s', out)) → Inv s')
    {s : σ} {es : List ε} (hs : Inv s) (hL : Every step L s es) (hP : Every step P s es) :
    Every step Q s es := by
  induction es generalizing s with
  | nil => trivial
  | cons e es ih =>
    obtain ⟨hLe, hLes⟩ := hL
    obtain ⟨hPe, hPes⟩ := hP
    obtain ⟨hQ, hInv⟩ := hstep s e hs hLe hPe
    exact ⟨hQ, fun s' out h => ih (hInv s' out h) (hLes s' out h) (hPes s' out h)⟩

theorem every_iff_of_invariant {Inv : σ → Prop} (hiff : ∀ s e, Inv s → L s e → (P s e ↔ Q s e))
    (hkeep : ∀ s e, Inv s → L s e → P s e → ∀ s' out, step s e = .ok (some (s', out)) → Inv s')
    {s : σ} {es : List ε} (hs : Inv s) (hL : Every step L s es) :
    Every step P s es ↔ Every step Q s es := by
  constructor
  · intro hP
    refine Every.imp_of_invariant (fun s e hInv hLe hPe => ?_) hs hL hP
    exact ⟨(hiff s e hInv hLe).mp hPe, hkeep s e hInv hLe hPe⟩
  · intro hQ
    refine Every.imp_of_invariant (fun s e hInv hLe hQe => ?_) hs hL hQ
    have hPe := (hiff s e hInv hLe).mpr hQe
    exact ⟨hPe, hkeep s e hInv hLe hPe⟩

end Every

/-! ## The states that a run reaches under a condition -/

section Guarded

variable {σ ε : Type}

/-- The states of the runs whose events all meet `P`. -/
inductive Guarded (step : σ → ε → Option σ) (P : σ → ε → Prop) (init : σ) : σ → Prop where
  | refl : Guarded step P init init
  | step {s s' : σ} {e : ε} (h : Guarded step P init s) (hP : P s e) (hstep : step s e = some s') :
      Guarded step P init s'

def runAll (step : σ → ε → Option σ) : σ → List ε → Option σ
  | s, [] => some s
  | s, e :: es => (step s e).bind fun s' => runAll step s' es

variable {step : σ → ε → Option σ} {P Q : σ → ε → Prop} {init s : σ}

theorem Guarded.invariant {Inv : σ → Prop} (hinit : Inv init)
    (hkeep : ∀ s e s', Inv s → P s e → step s e = some s' → Inv s')
    (h : Guarded step P init s) : Inv s := by
  induction h with
  | refl => exact hinit
  | @step s s' e _ hP hstep ih => exact hkeep s e s' ih hP hstep

theorem Guarded.of_runAll {s₀ : σ} (h₀ : Guarded step (fun _ _ => True) init s₀) {es : List ε}
    (h : runAll step s₀ es = some s) : Guarded step (fun _ _ => True) init s := by
  induction es generalizing s₀ with
  | nil =>
    obtain rfl : s₀ = s := Option.some.inj h
    exact h₀
  | cons e es ih =>
    obtain ⟨s₁, hstep, hrest⟩ := Option.bind_eq_some_iff.mp h
    exact ih (.step h₀ trivial hstep) hrest

end Guarded

end Runs
