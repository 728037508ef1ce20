import Mathlib.Tactic.Common

/-!
# Lists — entries that are marked one after the other

`mark` stores a value in the entry that an element asks for. An element may ask for none, fail, or
ask for an entry that the list does not have. Behind a loop of marks the marked entries are those
that an element asks for, in whatever order, and the loop comes to its end exactly when every
element asks for nothing or for an entry of the list.
-/

namespace Lists

open List

variable {α β ε : Type}

/-- Stores `b` in the entry that `x` asks for. -/
def mark (b : β) (outside : ε) (target : α → Except ε (Option Nat)) (bs : List β) (x : α) :
    Except ε (List β) :=
  match target x with
  | .error e => .error e
  | .ok none => .ok bs
  | .ok (some p) => if p < bs.length then .ok (bs.set p b) else .error outside

/-- What `x` asks for can be stored in a list of `n` entries. -/
def Markable (target : α → Except ε (Option Nat)) (n : Nat) (x : α) : Prop :=
  target x = .ok none ∨ ∃ p < n, target x = .ok (some p)

variable {b : β} {outside : ε} {target : α → Except ε (Option Nat)} {bs bs' : List β} {x : α}
  {xs : List α} {p : Nat}

theorem mark_of_none (h : target x = .ok none) : mark b outside target bs x = .ok bs := by
  rw [mark, h]

theorem mark_of_some (h : target x = .ok (some p)) (hp : p < bs.length) :
    mark b outside target bs x = .ok (bs.set p b) := by
  rw [mark, h]
  exact if_pos hp

theorem mark_of_not_markable (h : ¬Markable target bs.length x) :
    ∃ e, mark b outside target bs x = .error e := by
  cases htarget : target x with
  | error e => exact ⟨e, by rw [mark, htarget]⟩
  | ok entry =>
    cases entry with
    | none => exact absurd (.inl htarget) h
    | some p =>
      refine ⟨outside, ?_⟩
      rw [mark, htarget]
      exact if_neg fun hp => h (.inr ⟨p, hp, htarget⟩)

theorem mark_of_markable (h : Markable target bs.length x) :
    ∃ bs', mark b outside target bs x = .ok bs' ∧ bs'.length = bs.length ∧
      ∀ p < bs.length, (target x = .ok (some p) → bs'[p]? = some b) ∧
        (target x ≠ .ok (some p) → bs'[p]? = bs[p]?) := by
  obtain hnone | ⟨q, hq, hsome⟩ := h
  · refine ⟨bs, mark_of_none hnone, rfl, fun p _ => ⟨fun hp => ?_, fun _ => rfl⟩⟩
    rw [hnone] at hp
    cases hp
  · refine ⟨bs.set q b, mark_of_some hsome hq, length_set, fun p hp =>
      ⟨fun h => ?_, fun h => ?_⟩⟩
    · rw [hsome] at h
      cases h
      exact getElem?_set_self hq
    · have hne : q ≠ p := fun heq => h (heq ▸ hsome)
      exact getElem?_set_ne hne

theorem foldlM_mark_of_markable (h : ∀ x ∈ xs, Markable target bs.length x) :
    ∃ bs', xs.foldlM (mark b outside target) bs = .ok bs' ∧ bs'.length = bs.length ∧
      ∀ p < bs.length, ((∃ x ∈ xs, target x = .ok (some p)) → bs'[p]? = some b) ∧
        ((∀ x ∈ xs, target x ≠ .ok (some p)) → bs'[p]? = bs[p]?) := by
  induction xs generalizing bs with
  | nil => exact ⟨bs, rfl, rfl, fun p _ => ⟨fun hex => by simp at hex, fun _ => rfl⟩⟩
  | cons x xs ih =>
    obtain ⟨next, hnext, hlen, hentries⟩ := mark_of_markable (h x mem_cons_self)
    obtain ⟨last, hlast, hlastLen, hlastEntries⟩ := @ih next fun y hy => by
      rw [hlen]
      exact h y (mem_cons_of_mem x hy)
    rw [hlen] at hlastLen hlastEntries
    refine ⟨last, ?_, hlastLen, fun p hp => ⟨fun hex => ?_, fun hall => ?_⟩⟩
    · rw [List.foldlM_cons, hnext]
      exact hlast
    · by_cases hlater : ∃ y ∈ xs, target y = .ok (some p)
      · exact (hlastEntries p hp).1 hlater
      · -- the entry is marked by `x` and then left alone
        have hnone : ∀ y ∈ xs, target y ≠ .ok (some p) := fun y hy heq => hlater ⟨y, hy, heq⟩
        obtain ⟨y, hy, heq⟩ := hex
        have hx : target x = .ok (some p) := by
          cases hy with
          | head => exact heq
          | tail _ hy => exact absurd heq (hnone y hy)
        rw [(hlastEntries p hp).2 hnone]
        exact (hentries p hp).1 hx
    · rw [(hlastEntries p hp).2 fun y hy => hall y (mem_cons_of_mem x hy)]
      exact (hentries p hp).2 (hall x mem_cons_self)

theorem foldlM_mark_of_not_markable (h : ∃ x ∈ xs, ¬Markable target bs.length x) :
    ∃ e, xs.foldlM (mark b outside target) bs = .error e := by
  induction xs generalizing bs with
  | nil => simp at h
  | cons x xs ih =>
    rw [List.foldlM_cons]
    by_cases hx : Markable target bs.length x
    · obtain ⟨next, hnext, hlen, _⟩ := @mark_of_markable _ _ _ b outside _ _ _ hx
      obtain ⟨y, hy, hbad⟩ := h
      have hrest : ∃ y ∈ xs, ¬Markable target next.length y := by
        rw [hlen]
        cases hy with
        | head => exact absurd hx hbad
        | tail _ hy => exact ⟨y, hy, hbad⟩
      rw [hnext]
      exact ih hrest
    · obtain ⟨e, he⟩ := @mark_of_not_markable _ _ _ b outside _ _ _ hx
      refine ⟨e, ?_⟩
      rw [he]
      rfl

end Lists
