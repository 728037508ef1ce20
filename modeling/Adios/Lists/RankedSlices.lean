import Mathlib.Data.List.Basic
import Mathlib.Data.List.Count
import Mathlib.Algebra.Ring.Nat
import Mathlib.Algebra.BigOperators.Group.List.Basic

/-!
# Slices of a list that is sorted by a rank

A list of elements with a rank, and tables with the number of elements of each rank. An offset and
a length from the tables cut the elements of one rank out of the list if these stand together, with
as many elements before them as the offset says. So it is in a list sorted by rank, also when it
has been filtered, as long as the counts are of what the filter has left.
-/

namespace Lists

open List

variable {α : Type*}

/-! ## Elements that stand together -/

/-- The elements of a list with `p` are `n`, one behind the other, the first of them at `offset`. -/
def StandsAt (p : α → Prop) (xs : List α) (offset n : Nat) : Prop :=
  ∃ as bs cs, xs = as ++ bs ++ cs ∧ (∀ a ∈ as, ¬p a) ∧ (∀ b ∈ bs, p b) ∧ (∀ c ∈ cs, ¬p c) ∧
    bs.length = n ∧ (n = 0 ∨ as.length = offset)

section StandsAt

variable {p : α → Prop} {xs : List α} {offset n : Nat}

theorem StandsAt.slice_eq [DecidablePred p] (h : StandsAt p xs offset n) :
    (xs.drop offset).take n = xs.filter p := by
  obtain ⟨as, bs, cs, rfl, has, hbs, hcs, rfl, hoffset⟩ := h
  have hfilter : (as ++ bs ++ cs).filter p = bs := by
    have hnil : ∀ ys : List α, (∀ y ∈ ys, ¬p y) → ys.filter p = [] := fun ys hys =>
      filter_eq_nil_iff.mpr fun y hy => by simpa using hys y hy
    rw [filter_append, filter_append, hnil as has, hnil cs hcs,
      filter_eq_self.mpr fun b hb => by simpa using hbs b hb, nil_append,
      append_nil]
  rw [hfilter]
  rcases hoffset with hzero | rfl
  · rw [length_eq_zero_iff.mp hzero]
    rfl
  · rw [append_assoc, drop_left, take_left]

theorem StandsAt.le_length (h : StandsAt p xs offset n) : n = 0 ∨ offset + n ≤ xs.length := by
  obtain ⟨as, bs, cs, rfl, -, -, -, rfl, hoffset⟩ := h
  rcases hoffset with hzero | rfl
  · exact Or.inl hzero
  · right
    simp only [length_append]
    omega

end StandsAt

variable (rank : α → Nat)

theorem sum_countP_rank_eq (c : α → Bool) (xs : List α) (g : Nat) :
    ((List.range g).map fun i => xs.countP fun x => rank x = i ∧ c x).sum =
      xs.countP fun x => rank x < g ∧ c x := by
  induction g with
  | zero => simp
  | succ g ih =>
    rw [range_succ, map_append, sum_append, ih, map_singleton, sum_singleton]
    clear ih
    induction xs with
    | nil => rfl
    | cons x xs ih =>
      simp only [countP_cons, decide_eq_true_eq]
      have hlt : rank x < g + 1 ↔ rank x < g ∨ rank x = g := by omega
      split_ifs <;> grind

theorem filter_append_filter_of_sorted {xs : List α}
    (hsorted : xs.Pairwise fun x y => rank x ≤ rank y) (k : Nat) :
    xs.filter (fun x => rank x < k) ++ xs.filter (fun x => ¬rank x < k) = xs := by
  induction xs with
  | nil => rfl
  | cons x xs ih =>
    obtain ⟨hx, hsorted⟩ := pairwise_cons.mp hsorted
    by_cases hlt : rank x < k
    · rw [filter_cons_of_pos (by simpa using hlt), filter_cons_of_neg (by simpa using hlt),
        cons_append, ih hsorted]
    · -- nothing behind it is below the bound
      have hlow : (x :: xs).filter (fun x => rank x < k) = [] :=
        filter_eq_nil_iff.mpr fun y hy => by
          rcases mem_cons.mp hy with rfl | hy
          · simpa using hlt
          · have := hx y hy
            simp only [decide_eq_true_eq]
            omega
      have hhigh : (x :: xs).filter (fun x => ¬rank x < k) = x :: xs :=
        filter_eq_self.mpr fun y hy => by
          have hy := filter_eq_nil_iff.mp hlow y hy
          simpa using hy
      rw [hlow, hhigh, nil_append]

/-- **Sorted lists**: behind a filter that up to rank `g` leaves the elements that are counted,
those of rank `g` stand where the counts say. -/
theorem standsAt_of_sorted {xs : List α} (hsorted : xs.Pairwise fun x y => rank x ≤ rank y)
    {q c : α → Bool} {g : Nat} (hq : ∀ x ∈ xs, rank x ≤ g → q x = c x) :
    StandsAt (fun x => rank x = g) (xs.filter q)
      ((List.range g).map fun i => xs.countP fun x => rank x = i ∧ c x).sum
      (xs.countP fun x => rank x = g ∧ c x) := by
  rw [sum_countP_rank_eq]
  have hlow := filter_append_filter_of_sorted rank hsorted g
  have hhigh := filter_append_filter_of_sorted rank
    (hsorted.sublist (filter_sublist (p := fun x => ¬rank x < g))) (g + 1)
  rw [← hhigh, ← append_assoc] at hlow
  have hlength : ∀ {r s : α → Bool}, (∀ x ∈ xs, (r x && q x) = s x) →
      ((xs.filter r).filter q).length = xs.countP s := by
    intro r s h
    rw [filter_filter, countP_eq_length_filter]
    refine congrArg List.length (filter_congr fun x hx => ?_)
    rw [← h x hx, Bool.and_comm]
  refine ⟨_, _, _, by rw [← filter_append, ← filter_append, hlow], ?_, ?_, ?_, ?_, ?_⟩
  · intro x hx
    have hx := mem_of_mem_filter hx
    simp only [mem_filter, decide_eq_true_eq] at hx
    omega
  · intro x hx
    have hx := mem_of_mem_filter hx
    simp only [mem_filter, decide_eq_true_eq] at hx
    omega
  · intro x hx
    have hx := mem_of_mem_filter hx
    simp only [mem_filter, decide_eq_true_eq] at hx
    omega
  · rw [filter_filter (p := fun x => decide (rank x < g + 1))]
    refine hlength fun x hx => ?_
    have hqx := hq x hx
    grind
  · right
    refine hlength fun x hx => ?_
    have hqx := hq x hx
    grind

end Lists
