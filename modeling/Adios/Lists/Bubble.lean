import Mathlib.Data.List.Perm.Basic
import Mathlib.Tactic.Common

/-!
# Lists — sorting by exchanges

A bubble sort whose exchanges may change the element that moves to the back, in parts that the order
does not look at (`moved`).
-/

namespace Lists

open List

variable {α : Type} (key : α → Nat) (moved : α → α)

/-- One round: `n` comparisons of neighbours, from the front. -/
def bubble : Nat → List α → List α
  | n + 1, x :: y :: xs =>
    if key y < key x then y :: bubble n (moved x :: xs) else x :: bubble n (y :: xs)
  | _, xs => xs

def bubbleSort (xs : List α) : List α :=
  (List.range xs.length).foldl (fun ys i => bubble key moved (xs.length - i - 1) ys) xs

variable {key moved}

theorem map_bubble_perm {β : Type} {f : α → β} (hf : ∀ x, f (moved x) = f x) (n : Nat)
    (xs : List α) : ((bubble key moved n xs).map f).Perm (xs.map f) := by
  induction n generalizing xs with
  | zero => exact .refl _
  | succ n ih =>
    match xs with
    | [] => exact .refl _
    | [_] => exact .refl _
    | x :: y :: xs =>
      rw [bubble]
      split_ifs
      · have hrest := ih (moved x :: xs)
        rw [map_cons, hf] at hrest
        exact (hrest.cons (f y)).trans (.swap _ _ _)
      · exact (ih (y :: xs)).cons (f x)

theorem bubble_append (hkey : ∀ x, key (moved x) = key x) (xs ys : List α) {n : Nat}
    (hn : xs.length = n + 1) :
    ∃ front last, bubble key moved n (xs ++ ys) = front ++ last :: ys ∧ front.length = n ∧
      (∀ x ∈ xs, key x ≤ key last) ∧ ∀ x ∈ front, key x ≤ key last := by
  induction n generalizing xs with
  | zero =>
    obtain ⟨x, rfl⟩ := length_eq_one_iff.mp hn
    refine ⟨[], x, rfl, rfl, fun z hz => ?_, fun _ h => absurd h not_mem_nil⟩
    obtain rfl := mem_singleton.mp hz
    exact Nat.le_refl _
  | succ n ih =>
    match xs, hn with
    | x :: y :: xs, hn =>
      have hlen : xs.length = n := by
        rw [length_cons, length_cons] at hn
        omega
      rw [cons_append, cons_append, bubble]
      by_cases hlt : key y < key x
      · obtain ⟨front, last, heq, hfront, hall, hle⟩ :=
          ih (moved x :: xs) (by rw [length_cons, hlen])
        have hx : key x ≤ key last := by
          rw [← hkey x]
          exact hall (moved x) mem_cons_self
        have hy : key y ≤ key last := Nat.le_trans (Nat.le_of_lt hlt) hx
        rw [if_pos hlt, ← cons_append, heq]
        refine ⟨y :: front, last, rfl, by rw [length_cons, hfront], fun z hz => ?_,
          forall_mem_cons.mpr ⟨hy, hle⟩⟩
        rcases mem_cons.mp hz with rfl | hz
        · exact hx
        · rcases mem_cons.mp hz with rfl | hz
          · exact hy
          · exact hall z (mem_cons_of_mem _ hz)
      · obtain ⟨front, last, heq, hfront, hall, hle⟩ :=
          ih (y :: xs) (by rw [length_cons, hlen])
        have hx : key x ≤ key last := Nat.le_trans (Nat.not_lt.mp hlt) (hall y mem_cons_self)
        rw [if_neg hlt, ← cons_append, heq]
        exact ⟨x :: front, last, rfl, by rw [length_cons, hfront],
          forall_mem_cons.mpr ⟨hx, hall⟩, forall_mem_cons.mpr ⟨hx, hle⟩⟩

/-- The elements from the `n`th on are in order, and behind all others. -/
def Settled (key : α → Nat) (n : Nat) (xs : List α) : Prop :=
  ∃ front back, xs = front ++ back ∧ front.length = n ∧ back.Pairwise (key · ≤ key ·) ∧
    ∀ x ∈ front, ∀ y ∈ back, key x ≤ key y

theorem Settled.round (hkey : ∀ x, key (moved x) = key x) {n : Nat} {xs : List α}
    (h : Settled key (n + 1) xs) : Settled key n (bubble key moved n xs) := by
  obtain ⟨front, back, rfl, hlen, hback, hle⟩ := h
  obtain ⟨front', last, heq, hlen', hall, hlast⟩ := bubble_append hkey front back hlen
  have hperm : ((bubble key moved n (front ++ back)).map key).Perm ((front ++ back).map key) :=
    map_bubble_perm hkey n _
  rw [heq, map_append, map_cons, map_append, ← singleton_append,
    ← append_assoc, perm_append_right_iff] at hperm
  have hmem : ∀ x ∈ front' ++ [last], ∃ z ∈ front, key z = key x := fun x hx => by
    have hin : key x ∈ front.map key := hperm.subset (by
      rw [← map_singleton, ← map_append]
      exact mem_map_of_mem hx)
    obtain ⟨z, hz, hzx⟩ := mem_map.mp hin
    exact ⟨z, hz, hzx⟩
  refine ⟨front', last :: back, heq, hlen', pairwise_cons.mpr ⟨fun y hy => ?_, hback⟩,
    fun x hx y hy => ?_⟩
  · obtain ⟨z, hz, hzlast⟩ := hmem last (by simp)
    rw [← hzlast]
    exact hle z hz y hy
  · rcases mem_cons.mp hy with rfl | hy
    · exact hlast x hx
    · obtain ⟨z, hz, hzx⟩ := hmem x (mem_append_left _ hx)
      rw [← hzx]
      exact hle z hz y hy

theorem settled_rounds (hkey : ∀ x, key (moved x) = key x) (xs : List α) {i : Nat}
    (hi : i ≤ xs.length) : Settled key (xs.length - i)
      ((List.range i).foldl (fun ys i => bubble key moved (xs.length - i - 1) ys) xs) := by
  induction i with
  | zero =>
    exact ⟨xs, [], (append_nil xs).symm, rfl, List.Pairwise.nil,
      fun _ _ _ h => absurd h not_mem_nil⟩
  | succ i ih =>
    have hround := ih (by omega)
    have hsucc : xs.length - i = xs.length - (i + 1) + 1 := by omega
    have hpred : xs.length - i - 1 = xs.length - (i + 1) := by omega
    rw [range_succ, foldl_append, foldl_cons, foldl_nil, hpred]
    rw [hsucc] at hround
    exact hround.round hkey

theorem pairwise_bubbleSort (hkey : ∀ x, key (moved x) = key x) (xs : List α) :
    (bubbleSort key moved xs).Pairwise (key · ≤ key ·) := by
  obtain ⟨front, back, heq, hlen, hback, -⟩ := settled_rounds hkey xs (Nat.le_refl _)
  have hnil : front = [] := length_eq_zero_iff.mp (by omega)
  rw [bubbleSort, heq, hnil]
  exact hback

theorem map_bubbleSort_perm {β : Type} {f : α → β} (hf : ∀ x, f (moved x) = f x) (xs : List α) :
    ((bubbleSort key moved xs).map f).Perm (xs.map f) := by
  unfold bubbleSort
  generalize List.range xs.length = rounds
  suffices h : ∀ ys, ((rounds.foldl (fun ys i => bubble key moved (xs.length - i - 1) ys) ys).map
      f).Perm (ys.map f) from h xs
  induction rounds with
  | nil => exact fun ys => .refl _
  | cons i rounds ih => exact fun ys => (ih _).trans (map_bubble_perm hf _ ys)

section

variable {β : Type} {f : α → β} (hkey : ∀ x, key (moved x) = key x) (hf : ∀ x, f (moved x) = f x)

include hkey hf

theorem map_filter_bubble (k n : Nat) (xs : List α) :
    ((bubble key moved n xs).filter (key · = k)).map f = (xs.filter (key · = k)).map f := by
  induction n generalizing xs with
  | zero => rfl
  | succ n ih =>
    match xs with
    | [] => rfl
    | [_] => rfl
    | x :: y :: xs =>
      rw [bubble]
      by_cases hlt : key y < key x
      · have hrest := ih (moved x :: xs)
        rw [filter_cons, hkey] at hrest
        rw [if_pos hlt, filter_cons, filter_cons, filter_cons]
        by_cases hx : key x = k
        · -- then the other one is of another key
          have hy : ¬key y = k := by omega
          simp only [hx, hy, decide_true, decide_false, if_true, Bool.false_eq_true, if_false,
            map_cons, hf] at hrest ⊢
          exact hrest
        · simp only [hx, decide_false, Bool.false_eq_true, if_false] at hrest ⊢
          split_ifs
          · rw [map_cons, map_cons, hrest]
          · exact hrest
      · have hrest := ih (y :: xs)
        rw [if_neg hlt, filter_cons, @filter_cons _ x]
        split_ifs
        · rw [map_cons, map_cons, hrest]
        · exact hrest

theorem map_filter_bubbleSort (k : Nat) (xs : List α) :
    ((bubbleSort key moved xs).filter (key · = k)).map f = (xs.filter (key · = k)).map f := by
  unfold bubbleSort
  generalize List.range xs.length = rounds
  suffices h : ∀ ys, ((rounds.foldl (fun ys i => bubble key moved (xs.length - i - 1) ys) ys).filter
      (key · = k)).map f = (ys.filter (key · = k)).map f from h xs
  induction rounds with
  | nil => exact fun ys => rfl
  | cons i rounds ih => exact fun ys => (ih _).trans (map_filter_bubble hkey hf k _ ys)

end

end Lists
