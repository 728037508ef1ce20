import Mathlib.Tactic.Common

/-!
# Runs — steps that commute

When two different steps from a state can each be followed by the other one, to the same state, then
the order of steps does not matter: if one run comes to its end, every run does, in the same state
and after as many steps.
-/

namespace Runs

variable {σ : Type}

inductive Takes (R : σ → σ → Prop) : Nat → σ → σ → Prop where
  | refl (s : σ) : Takes R 0 s s
  | step {n : Nat} {s t u : σ} (h : R s t) (hrest : Takes R n t u) : Takes R (n + 1) s u

def Ended (R : σ → σ → Prop) (s : σ) : Prop := ∀ t, ¬R s t

def Commutes (R : σ → σ → Prop) : Prop :=
  ∀ s t u, R s t → R s u → t = u ∨ ∃ w, R t w ∧ R u w

variable {R : σ → σ → Prop} {m n : Nat} {s t u : σ}

theorem Takes.trans (h : Takes R m s t) (h' : Takes R n t u) : Takes R (m + n) s u := by
  induction h with
  | refl s =>
    rw [Nat.zero_add]
    exact h'
  | @step m s t w hstep _ ih =>
    have hsucc : m + 1 + n = m + n + 1 := by omega
    rw [hsucc]
    exact .step hstep (ih h')

theorem Takes.single (h : R s t) : Takes R 1 s t := .step h (.refl t)

theorem Takes.eq_of_ended (hs : Ended R s) (h : Takes R n s t) : n = 0 ∧ t = s := by
  cases h with
  | refl => exact ⟨rfl, rfl⟩
  | step hstep _ => exact absurd hstep (hs _)

def Reaches (R : σ → σ → Prop) (s t : σ) : Prop := ∃ n, Takes R n s t

theorem Reaches.refl (R : σ → σ → Prop) (s : σ) : Reaches R s s := ⟨0, .refl s⟩

theorem Reaches.single (h : R s t) : Reaches R s t := ⟨1, .single h⟩

theorem Reaches.trans (h : Reaches R s t) (h' : Reaches R t u) : Reaches R s u := by
  obtain ⟨m, hm⟩ := h
  obtain ⟨n, hn⟩ := h'
  exact ⟨m + n, hm.trans hn⟩

theorem Reaches.head (h : R s t) (h' : Reaches R t u) : Reaches R s u := (Reaches.single h).trans h'

section

variable (hR : Commutes R) (h : Takes R n s t) (ht : Ended R t)

include hR h ht

theorem Takes.after_step (hu : R s u) :
    ∃ m, n = m + 1 ∧ Takes R m u t := by
  induction n generalizing s u with
  | zero =>
    cases h with
    | refl => exact absurd hu (ht u)
  | succ n ih =>
    cases h with
    | @step _ _ w _ hw hrest =>
      obtain rfl | ⟨v, hwv, huv⟩ := hR s w u hw hu
      · exact ⟨n, rfl, hrest⟩
      · -- the run behind `w` begins with the step to `v` as well
        obtain ⟨m, rfl, hv⟩ := ih hrest hwv
        exact ⟨m + 1, rfl, .step huv hv⟩

theorem Takes.descent (hu : Takes R m s u) : ∃ k, n = m + k ∧ Takes R k u t := by
  induction hu generalizing n with
  | refl s => exact ⟨n, (Nat.zero_add n).symm, h⟩
  | @step m s w u hstep _ ih =>
    obtain ⟨n', rfl, hw⟩ := h.after_step hR ht hstep
    obtain ⟨k, rfl, hk⟩ := ih hw
    exact ⟨k, by omega, hk⟩

theorem Takes.eq_of_ended_of_commutes (hu : Takes R m s u) (hend : Ended R u) : u = t ∧ m = n := by
  obtain ⟨k, hn, hk⟩ := h.descent hR ht hu
  obtain ⟨rfl, rfl⟩ := hk.eq_of_ended hend
  exact ⟨rfl, hn.symm⟩

end

end Runs
