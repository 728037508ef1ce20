import Mathlib.Data.List.Basic
import Mathlib.Tactic.Common

/-!
# Lists — a sorted list in blocks

Keys with how often each of them stands in a list that is in their order.
-/

namespace Lists

open List

variable {κ : Type} {key : κ → Nat}

def expand : List (κ × Nat) → List κ
  | [] => []
  | (k, n) :: bs => List.replicate n k ++ expand bs

def total : List (κ × Nat) → Nat
  | [] => 0
  | (_, n) :: bs => n + total bs

structure Blocks (key : κ → Nat) (bs : List (κ × Nat)) : Prop where
  ascending : bs.Pairwise fun a b => key a.1 < key b.1
  positive : ∀ b ∈ bs, 0 < b.2

variable {k : κ} {n : Nat} {bs : List (κ × Nat)}

theorem blocks_cons_iff :
    Blocks key ((k, n) :: bs) ↔ 0 < n ∧ (∀ b ∈ bs, key k < key b.1) ∧ Blocks key bs := by
  constructor
  · intro h
    obtain ⟨hlt, hascending⟩ := pairwise_cons.mp h.ascending
    obtain ⟨hn, hpositive⟩ := forall_mem_cons.mp h.positive
    exact ⟨hn, hlt, hascending, hpositive⟩
  · rintro ⟨hn, hlt, hbs⟩
    exact ⟨pairwise_cons.mpr ⟨hlt, hbs.ascending⟩, forall_mem_cons.mpr ⟨hn, hbs.positive⟩⟩

theorem Blocks.head_ne (h : Blocks key ((k, n) :: bs)) :
    ∀ b ∈ bs.head?, b.1 ≠ k := fun b hb heq => by
  have hkey := (blocks_cons_iff.mp h).2.1 b (mem_of_mem_head? hb)
  rw [heq] at hkey
  exact Nat.lt_irrefl _ hkey

@[simp] theorem length_expand (bs : List (κ × Nat)) : (expand bs).length = total bs := by
  induction bs with
  | nil => rfl
  | cons b bs ih =>
    obtain ⟨k, n⟩ := b
    rw [expand, length_append, length_replicate, ih, total]

theorem expand_append (as bs : List (κ × Nat)) : expand (as ++ bs) = expand as ++ expand bs := by
  induction as with
  | nil => rfl
  | cons a as ih =>
    obtain ⟨k, n⟩ := a
    rw [cons_append, expand, expand, ih, append_assoc]

theorem total_append (as bs : List (κ × Nat)) : total (as ++ bs) = total as + total bs := by
  rw [← length_expand, expand_append, length_append, length_expand, length_expand]

theorem total_take_succ {i : Nat} {b : κ × Nat} (hb : bs[i]? = some b) :
    total (bs.take (i + 1)) = total (bs.take i) + b.2 := by
  obtain ⟨k, n⟩ := b
  rw [take_add_one, hb, total_append]
  rfl

theorem mem_expand (hk : k ∈ expand bs) : ∃ b ∈ bs, b.1 = k := by
  induction bs with
  | nil => cases hk
  | cons b bs ih =>
    obtain ⟨k', n⟩ := b
    rw [expand, mem_append] at hk
    rcases hk with hk | hk
    · exact ⟨_, mem_cons_self, (eq_of_mem_replicate hk).symm⟩
    · obtain ⟨b, hb, heq⟩ := ih hk
      exact ⟨b, mem_cons_of_mem _ hb, heq⟩

theorem mem_expand_of_mem (h : Blocks key bs) {b : κ × Nat} (hb : b ∈ bs) :
    b.1 ∈ expand bs := by
  induction bs with
  | nil => cases hb
  | cons c bs ih =>
    obtain ⟨k, n⟩ := c
    obtain ⟨hn, -, hbs⟩ := blocks_cons_iff.mp h
    rw [expand, mem_append]
    cases hb with
    | head => exact .inl (mem_replicate.mpr ⟨Nat.ne_of_gt hn, rfl⟩)
    | tail _ hb => exact .inr (ih hbs hb)

theorem exists_expand (hinj : ∀ a b, key a = key b → a = b) {xs : List κ}
    (h : xs.Pairwise fun a b => key a ≤ key b) : ∃ bs, xs = expand bs ∧ Blocks key bs := by
  induction xs with
  | nil => exact ⟨[], rfl, List.Pairwise.nil, forall_mem_nil _⟩
  | cons x xs ih =>
    obtain ⟨hx, hxs⟩ := pairwise_cons.mp h
    obtain ⟨bs, rfl, hbs⟩ := ih hxs
    cases bs with
    | nil =>
      exact ⟨[(x, 1)], rfl, blocks_cons_iff.mpr ⟨Nat.one_pos, forall_mem_nil _, hbs⟩⟩
    | cons b bs =>
      obtain ⟨k, n⟩ := b
      obtain ⟨hn, hlt, hrest⟩ := blocks_cons_iff.mp hbs
      have hle : key x ≤ key k := hx k (mem_expand_of_mem hbs mem_cons_self)
      by_cases heq : key x = key k
      · obtain rfl := hinj x k heq
        exact ⟨(x, n + 1) :: bs, rfl, blocks_cons_iff.mpr ⟨Nat.succ_pos n, hlt, hrest⟩⟩
      · have hkey : key x < key k := Nat.lt_of_le_of_ne hle heq
        refine ⟨(x, 1) :: (k, n) :: bs, rfl, blocks_cons_iff.mpr ⟨Nat.one_pos, ?_, hbs⟩⟩
        exact forall_mem_cons.mpr ⟨hkey, fun b hb => Nat.lt_trans hkey (hlt b hb)⟩

theorem filter_eq_take_drop {α : Type} [DecidableEq κ] {f : α → κ} {l : List α} (h : Blocks key bs)
    (hl : l.map f = expand bs) {i : Nat} (hb : bs[i]? = some (k, n)) :
    l.filter (f · = k) = (l.drop (total (bs.take i))).take n := by
  induction bs generalizing l i with
  | nil => cases hb
  | cons b bs ih =>
    obtain ⟨k', n'⟩ := b
    obtain ⟨-, hlt, hbs⟩ := blocks_cons_iff.mp h
    obtain ⟨l₁, l₂, rfl, hfirst, hrest⟩ := map_eq_append_iff.mp hl
    have hlen : l₁.length = n' := by
      rw [← length_map f, hfirst, length_replicate]
    have hkeys : ∀ x ∈ l₁, f x = k' := fun x hx =>
      eq_of_mem_replicate (hfirst ▸ mem_map_of_mem hx)
    rw [filter_append]
    cases i with
    | zero =>
      obtain ⟨rfl, rfl⟩ := Prod.mk.inj (Option.some.inj hb)
      have hall : l₁.filter (f · = k') = l₁ :=
        filter_eq_self.mpr fun x hx => decide_eq_true (hkeys x hx)
      have hnone : l₂.filter (f · = k') = [] := filter_eq_nil_iff.mpr fun x hx heq => by
        obtain ⟨b, hb, hkey⟩ := mem_expand (hrest ▸ mem_map_of_mem hx)
        have hless := hlt b hb
        rw [hkey, of_decide_eq_true heq] at hless
        exact Nat.lt_irrefl _ hless
      rw [hall, hnone, append_nil, take_zero, total, drop_zero, take_left' hlen]
    | succ i =>
      have hnone : l₁.filter (f · = k) = [] := filter_eq_nil_iff.mpr fun x hx heq => by
        have hless := hlt (k, n) (mem_of_getElem? hb)
        rw [← hkeys x hx, of_decide_eq_true heq] at hless
        exact Nat.lt_irrefl _ hless
      rw [hnone, nil_append, ih hbs hrest hb, take_succ_cons, total, ← hlen, drop_length_add_append]

end Lists
