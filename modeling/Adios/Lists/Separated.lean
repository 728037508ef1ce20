import Mathlib.Data.List.Basic

/-!
# Lists — items between separators

What stands before and behind the first separator of a list, and how they make up the list and its
items between separators.
-/

namespace Separated

open List

variable {α : Type} [DecidableEq α]

/-- What stands before the first `c`; the whole list when there is none. -/
def before (c : α) : List α → List α
  | [] => []
  | a :: l => if a = c then [] else a :: before c l

/-- What stands behind the first `c`, when there is one. -/
def behind (c : α) : List α → Option (List α)
  | [] => none
  | a :: l => if a = c then some l else behind c l

variable {c : α} {l r : List α}

theorem eq_of_behind (h : behind c l = some r) : l = before c l ++ c :: r := by
  induction l with
  | nil => cases h
  | cons a l ih =>
    rw [behind] at h
    rw [before]
    split at h
    · rename_i hc
      rw [if_pos hc, hc, ← Option.some.inj h]
      rfl
    · rename_i hc
      rw [if_neg hc, cons_append, ← ih h]

theorem before_of_behind_eq_none (h : behind c l = none) : before c l = l := by
  induction l with
  | nil => rfl
  | cons a l ih =>
    rw [behind] at h
    split at h
    · cases h
    · rename_i hc
      rw [before, if_neg hc, ih h]

theorem not_mem_before : c ∉ before c l := by
  induction l with
  | nil => exact not_mem_nil
  | cons a l ih =>
    rw [before]
    split
    · exact not_mem_nil
    · rename_i hc
      rw [mem_cons]
      rintro (rfl | hmem)
      · exact hc rfl
      · exact ih hmem

theorem mem_of_mem_before {a : α} (h : a ∈ before c l) : a ∈ l := by
  cases hb : behind c l with
  | none => rwa [before_of_behind_eq_none hb] at h
  | some r =>
    rw [eq_of_behind hb]
    exact mem_append_left _ h

theorem mem_of_mem_behind {a : α} (h : behind c l = some r) (ha : a ∈ r) : a ∈ l := by
  rw [eq_of_behind h]
  exact mem_append_right _ (mem_cons_of_mem _ ha)

theorem length_of_behind (h : behind c l = some r) :
    l.length = (before c l).length + 1 + r.length := by
  have hlen := congrArg List.length (eq_of_behind h)
  rw [length_append, length_cons] at hlen
  omega

/-! ## All items -/

theorem separated_induction {motive : List α → Prop} (c : α)
    (last : ∀ l, behind c l = none → motive l)
    (item : ∀ l r, behind c l = some r → motive r → motive l) (l : List α) : motive l := by
  induction hn : l.length using Nat.strongRecOn generalizing l with
  | ind n ih =>
    cases hb : behind c l with
    | none => exact last l hb
    | some r =>
      have hlen := length_of_behind hb
      exact item l r hb (ih r.length (by omega) r rfl)

theorem splitOn_of_behind_eq_none (h : behind c l = none) : l.splitOn c = [l] :=
  splitOn_eq_singleton (before_of_behind_eq_none h ▸ not_mem_before)

theorem splitOn_of_behind (h : behind c l = some r) :
    l.splitOn c = before c l :: r.splitOn c := by
  conv_lhs => rw [eq_of_behind h]
  exact splitOn_append_cons_self_of_not_mem not_mem_before r

theorem length_splitOn : (l.splitOn c).length = l.count c + 1 := by
  induction l using separated_induction c with
  | last l hb =>
    have hnone : l.count c = 0 :=
      List.count_eq_zero.mpr (before_of_behind_eq_none hb ▸ not_mem_before)
    rw [splitOn_of_behind_eq_none hb, hnone]
    rfl
  | item l r hb ih =>
    have hfront : (before c l).count c = 0 := List.count_eq_zero.mpr not_mem_before
    rw [splitOn_of_behind hb, length_cons, ih]
    conv_rhs => rw [eq_of_behind hb]
    rw [count_append, count_cons_self, hfront, Nat.zero_add]

theorem length_splitOn_le : (l.splitOn c).length ≤ l.length + 1 := by
  rw [length_splitOn]
  exact Nat.succ_le_succ count_le_length

theorem mem_of_mem_splitOn {item : List α} (hitem : item ∈ l.splitOn c) {a : α} (ha : a ∈ item) :
    a ∈ l := by
  induction l using separated_induction c with
  | last l hb =>
    rw [splitOn_of_behind_eq_none hb, mem_singleton] at hitem
    exact hitem ▸ ha
  | item l r hb ih =>
    rw [splitOn_of_behind hb, mem_cons] at hitem
    obtain rfl | hitem := hitem
    · exact mem_of_mem_before ha
    · exact mem_of_mem_behind hb (ih hitem)

end Separated
