import Mathlib.Data.List.Basic
import Mathlib.Tactic.Common

/-!
# Lists — the places of some elements

The elements of a list that are counted, with their places in the list: as many are counted before
an element as its number among them says.
-/

namespace Lists

open List

variable {α : Type} {p : α → Bool}

theorem getElem?_filter_zipIdx_from {xs : List α} {n k start : Nat} {a : α} :
    ((xs.zipIdx start).filter fun x => p x.1)[n]? = some (a, k) ↔
      ∃ j, k = start + j ∧ xs[j]? = some a ∧ p a = true ∧ (xs.take j).countP p = n := by
  induction xs generalizing n start with
  | nil => simp
  | cons x xs ih =>
    rw [zipIdx_cons, filter_cons]
    -- the element behind the first, or the first
    have hbehind : ∀ n, ((xs.zipIdx (start + 1)).filter fun x => p x.1)[n]? = some (a, k) ↔
        ∃ j, k = start + (j + 1) ∧ xs[j]? = some a ∧ p a = true ∧ (xs.take j).countP p = n :=
      fun n => by
        rw [ih]
        simp only [Nat.add_assoc, Nat.add_comm 1]
    split_ifs with hx
    · cases n with
      | zero =>
        rw [getElem?_cons_zero]
        constructor
        · intro heq
          obtain ⟨rfl, rfl⟩ := Prod.mk.inj (Option.some.inj heq)
          exact ⟨0, rfl, rfl, hx, rfl⟩
        · rintro ⟨j, hk, hj, -, hcount⟩
          cases j with
          | zero =>
            obtain rfl := Option.some.inj hj
            rw [hk]
            rfl
          | succ j =>
            rw [take_succ_cons, countP_cons_of_pos hx] at hcount
            cases hcount
      | succ n =>
        rw [getElem?_cons_succ, hbehind]
        constructor
        · rintro ⟨j, hk, hj, ha, hcount⟩
          refine ⟨j + 1, hk, hj, ha, ?_⟩
          rw [take_succ_cons, countP_cons_of_pos hx, hcount]
        · rintro ⟨j, hk, hj, ha, hcount⟩
          cases j with
          | zero => cases hcount
          | succ j =>
            rw [take_succ_cons, countP_cons_of_pos hx] at hcount
            exact ⟨j, hk, hj, ha, Nat.succ.inj hcount⟩
    · rw [hbehind]
      constructor
      · rintro ⟨j, hk, hj, ha, hcount⟩
        refine ⟨j + 1, hk, hj, ha, ?_⟩
        rw [take_succ_cons, countP_cons_of_neg hx, hcount]
      · rintro ⟨j, hk, hj, ha, hcount⟩
        cases j with
        | zero =>
          obtain rfl := Option.some.inj hj
          exact absurd ha hx
        | succ j =>
          rw [take_succ_cons, countP_cons_of_neg hx] at hcount
          exact ⟨j, hk, hj, ha, hcount⟩

theorem getElem?_filter_zipIdx_iff {xs : List α} {n k : Nat} {a : α} :
    (xs.zipIdx.filter fun x => p x.1)[n]? = some (a, k) ↔
      xs[k]? = some a ∧ p a = true ∧ (xs.take k).countP p = n := by
  rw [getElem?_filter_zipIdx_from]
  constructor
  · rintro ⟨j, rfl, h⟩
    rwa [Nat.zero_add]
  · intro h
    exact ⟨k, (Nat.zero_add k).symm, h⟩

theorem map_fst_filter_zipIdx (xs : List α) :
    (xs.zipIdx.filter fun x => p x.1).map Prod.fst = xs.filter p := by
  have hmap := @filter_map _ _ Prod.fst p xs.zipIdx
  rw [zipIdx_map_fst] at hmap
  exact hmap.symm

end Lists
