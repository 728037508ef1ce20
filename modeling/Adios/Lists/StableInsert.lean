import Mathlib.Data.List.Induction
import Mathlib.Order.Lattice

/-!
# Lists — sorting by insertion behind equal keys

Each element of a list is put into the result so far, behind all elements whose key is not greater.
-/

namespace Lists

open List

variable {α κ : Type} [LinearOrder κ] (key : α → κ)

def insertBehind (x : α) : List α → List α
  | [] => [x]
  | y :: ys => if key x < key y then x :: y :: ys else y :: insertBehind x ys

def sortBehind (xs : List α) : List α := xs.foldl (fun ys x => insertBehind key x ys) []

variable {key} {x : α} {xs ys : List α}

theorem perm_insertBehind (x : α) (ys : List α) : (insertBehind key x ys).Perm (x :: ys) := by
  induction ys with
  | nil => exact .refl _
  | cons y ys ih =>
    rw [insertBehind]
    split_ifs
    · exact .refl _
    · exact (ih.cons y).trans (.swap x y ys)

theorem pairwise_insertBehind (h : ys.Pairwise fun y z => key y ≤ key z) :
    (insertBehind key x ys).Pairwise fun y z => key y ≤ key z := by
  induction ys with
  | nil => exact pairwise_singleton _ _
  | cons y ys ih =>
    obtain ⟨hy, hys⟩ := pairwise_cons.mp h
    rw [insertBehind]
    split_ifs with hlt
    · refine pairwise_cons.mpr ⟨fun z hz => ?_, h⟩
      rcases mem_cons.mp hz with rfl | hz
      · exact le_of_lt hlt
      · exact le_trans (le_of_lt hlt) (hy z hz)
    · refine pairwise_cons.mpr ⟨fun z hz => ?_, ih hys⟩
      rcases mem_cons.mp ((perm_insertBehind x ys).mem_iff.mp hz) with rfl | hz
      · exact not_lt.mp hlt
      · exact hy z hz

theorem filter_insertBehind (h : ys.Pairwise fun y z => key y ≤ key z) (k : κ) :
    (insertBehind key x ys).filter (fun y => key y = k) =
      (ys ++ [x]).filter fun y => key y = k := by
  induction ys with
  | nil => rfl
  | cons y ys ih =>
    obtain ⟨hy, hys⟩ := pairwise_cons.mp h
    rw [insertBehind]
    split_ifs with hlt
    · -- all others have a greater key
      by_cases hk : key x = k
      · have hnone : (y :: ys).filter (fun y => key y = k) = [] := by
          rw [filter_eq_nil_iff]
          intro z hz hzk
          have hzk : key z = k := of_decide_eq_true hzk
          rcases mem_cons.mp hz with rfl | hz
          · exact absurd (hk.trans hzk.symm) (ne_of_lt hlt)
          · exact absurd (hk.trans hzk.symm) (ne_of_lt (lt_of_lt_of_le hlt (hy z hz)))
        rw [filter_append, hnone, filter_cons, hnone, filter_cons]
        rfl
      · rw [filter_append, filter_cons_of_neg (by simpa using hk),
          filter_cons_of_neg (l := []) (by simpa using hk), filter_nil, append_nil]
    · rw [cons_append, filter_cons, filter_cons, ih hys]

theorem sortBehind_spec (xs : List α) :
    (sortBehind key xs).Perm xs ∧ (sortBehind key xs).Pairwise (fun y z => key y ≤ key z) ∧
      ∀ k, (sortBehind key xs).filter (fun y => key y = k) = xs.filter fun y => key y = k := by
  induction xs using List.reverseRecOn with
  | nil => exact ⟨.refl _, .nil, fun _ => rfl⟩
  | append_singleton xs x ih =>
    obtain ⟨hperm, hsorted, hstable⟩ := ih
    have hlast : sortBehind key (xs ++ [x]) = insertBehind key x (sortBehind key xs) := by
      rw [sortBehind, foldl_append]
      rfl
    rw [hlast]
    refine ⟨?_, pairwise_insertBehind hsorted, fun k => ?_⟩
    · exact ((perm_insertBehind x _).trans (hperm.cons x)).trans
        (perm_append_singleton x xs).symm
    · rw [filter_insertBehind hsorted, filter_append, hstable, filter_append]

end Lists
