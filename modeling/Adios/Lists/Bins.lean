import Mathlib.Algebra.BigOperators.Group.List.Basic
import Mathlib.Algebra.Ring.Nat
import Mathlib.Data.List.Perm.Subperm
import Mathlib.Tactic.Common

/-!
# Lists — counting in bins

Each element of a list falls in a bin, and the elements of each bin are counted.
-/

namespace Lists

open List

variable {α : Type} {bin bin' : α → Nat} {xs : List α}

def binCount (bin : α → Nat) (xs : List α) (k : Nat) : Nat := xs.countP fun x => bin x = k

theorem binCount_cons (x : α) (xs : List α) (k : Nat) :
    binCount bin (x :: xs) k = binCount bin xs k + if bin x = k then 1 else 0 := by
  rw [binCount, countP_cons]
  simp only [decide_eq_true_eq]
  rfl

theorem binCount_eq_count (xs : List α) (k : Nat) : binCount bin xs k = (xs.map bin).count k := by
  rw [count_eq_countP, countP_map]
  rfl

theorem sum_range_add_ite (f : Nat → Nat) (q n : Nat) :
    ((List.range n).map fun k => f k + if q = k then 1 else 0).sum =
      ((List.range n).map f).sum + if q < n then 1 else 0 := by
  induction n with
  | zero => rfl
  | succ n ih =>
    rw [range_succ, map_append, map_append, sum_append, sum_append, ih]
    simp only [map_cons, map_nil, sum_singleton]
    split_ifs <;> omega

theorem sum_binCount {n : Nat} (h : ∀ x ∈ xs, bin x < n) :
    ((List.range n).map (binCount bin xs)).sum = xs.length := by
  induction xs with
  | nil =>
    have hzero : ∀ k, binCount bin ([] : List α) k = 0 := fun _ => rfl
    rw [map_congr_left fun k _ => hzero k, map_const', sum_replicate]
    exact Nat.mul_zero _
  | cons x xs ih =>
    obtain ⟨hx, hxs⟩ := forall_mem_cons.mp h
    rw [map_congr_left fun k _ => binCount_cons x xs k, sum_range_add_ite, ih hxs, if_pos hx,
      length_cons]

section

variable (hle : ∀ x ∈ xs, bin x ≤ bin' x)

include hle

theorem sum_map_le : (xs.map bin).sum ≤ (xs.map bin').sum := by
  induction xs with
  | nil => exact Nat.le_refl _
  | cons x xs ih =>
    obtain ⟨hx, hxs⟩ := forall_mem_cons.mp hle
    rw [map_cons, map_cons, sum_cons, sum_cons]
    exact Nat.add_le_add hx (ih hxs)

theorem eq_of_sum_map_le
    (hsum : (xs.map bin').sum ≤ (xs.map bin).sum) : ∀ x ∈ xs, bin x = bin' x := by
  induction xs with
  | nil => exact forall_mem_nil _
  | cons x xs ih =>
    obtain ⟨hx, hxs⟩ := forall_mem_cons.mp hle
    have hrest := sum_map_le hxs
    rw [map_cons, map_cons, sum_cons, sum_cons] at hsum
    exact forall_mem_cons.mpr ⟨by omega, ih hxs (by omega)⟩

theorem bin_eq_of_le
    (hcount : ∀ k, binCount bin xs k ≤ binCount bin' xs k) : ∀ x ∈ xs, bin x = bin' x := by
  have hsub : (xs.map bin).Subperm (xs.map bin') := subperm_ext_iff.mpr fun k _ => by
    rw [← binCount_eq_count, ← binCount_eq_count]
    exact hcount k
  have hperm : (xs.map bin).Perm (xs.map bin') :=
    hsub.perm_of_length_le (by rw [length_map, length_map])
  exact eq_of_sum_map_le hle (Nat.le_of_eq hperm.sum_eq.symm)

end

end Lists
