import Mathlib.Data.List.Perm.Subperm
import Mathlib.Tactic.Common

/-!
# Lists — what gets done, one thing after the other

A history in which nothing stands twice and everything stands behind what has to be done before it;
a loop over the places of a list with what holds in each round; and an entry of a list that gives up
one of the elements that the entries hold.
-/

namespace Lists

open List

variable {α β : Type}

structure Behind (below : α → α → Prop) (history : List α) : Prop where
  once : history.Nodup
  behind : ∀ before a after, history = before ++ a :: after → ∀ b, below b a → b ∈ before

variable {below : α → α → Prop} {history : List α}

theorem Behind.nil : Behind below [] where
  once := nodup_nil
  behind before a after h := by
    have hlen := congrArg List.length h
    rw [length_append, length_cons] at hlen
    cases hlen

theorem Behind.concat (h : Behind below history) {a : α} (hnew : a ∉ history)
    (hbelow : ∀ b, below b a → b ∈ history) : Behind below (history ++ [a]) where
  once := by
    refine nodup_append.mpr ⟨h.once, pairwise_singleton _ a, fun b hb c hc heq => ?_⟩
    rw [heq, mem_singleton.mp hc] at hb
    exact hnew hb
  behind := by
    intro before c after heq b hb
    cases after.eq_nil_or_concat with
    | inl hnil =>
      subst hnil
      obtain ⟨rfl, hlast⟩ := append_inj' heq rfl
      obtain rfl : a = c := head_eq_of_cons_eq hlast
      exact hbelow b hb
    | inr hconcat =>
      -- the last thing is another one
      obtain ⟨front, last, rfl⟩ := hconcat
      have hsplit : history ++ [a] = (before ++ c :: front) ++ [last] := by
        rw [heq, concat_eq_append, append_assoc, cons_append]
      obtain ⟨hhistory, -⟩ := append_inj' hsplit rfl
      exact h.behind before c front hhistory b hb

theorem exists_foldlM_range {σ ε : Type} {f : σ → Nat → Except ε σ} {P : Nat → σ → Prop} {n : Nat}
    {s : σ} (hstart : P 0 s)
    (hround : ∀ k < n, ∀ t, P k t → ∃ t', f t k = .ok t' ∧ P (k + 1) t') :
    ∃ t, (List.range n).foldlM f s = .ok t ∧ P n t := by
  induction n with
  | zero => exact ⟨s, rfl, hstart⟩
  | succ n ih =>
    obtain ⟨t, ht, hP⟩ := ih fun k hk => hround k (Nat.lt_succ_of_lt hk)
    obtain ⟨t', ht', hP'⟩ := hround n (Nat.lt_succ_self n) t hP
    refine ⟨t', ?_, hP'⟩
    rw [range_succ, foldlM_append, ht]
    show (List.foldlM f t [n] : Except ε σ) = _
    rw [List.foldlM_cons, ht']
    rfl

theorem flatMap_perm_cons_set {f : α → List β} {xs : List α} {i : Nat} {a a' : α} {b : β}
    (hget : xs[i]? = some a) (hperm : (f a).Perm (b :: f a')) :
    (xs.flatMap f).Perm (b :: (xs.set i a').flatMap f) := by
  induction xs generalizing i with
  | nil => cases hget
  | cons x xs ih =>
    cases i with
    | zero =>
      obtain rfl : x = a := Option.some.inj hget
      exact hperm.append_right _
    | succ i =>
      have hrest : xs[i]? = some a := hget
      exact ((ih hrest).append_left (f x)).trans perm_middle

end Lists
