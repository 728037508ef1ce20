import Mathlib.Tactic.Common

/-!
# Heap — slots of one size

The memory from a buffer on as slots, one after the other. A step that fills some of them leaves
all else as it is; of steps in a row, each slot has what one of them has put there.
-/

namespace Heap

open List

variable {β ε ι : Type} {size k k' : Nat} {a : Int}

def slot (mem : Int → β) (size k : Nat) : List β :=
  (List.range size).map fun j => mem (k * size + j : Nat)

def Outside (size k : Nat) (a : Int) : Prop := a < (k * size : Nat) ∨ ((k + 1) * size : Nat) ≤ a

theorem index_unique {j j' : Nat} (hj : j < size) (hj' : j' < size)
    (h : k * size + j = k' * size + j') : k = k' ∧ j = j' := by
  have hdiv : ∀ x y, y < size → (x * size + y) / size = x := fun x y hy => by
    rw [Nat.mul_comm, Nat.mul_add_div (Nat.zero_lt_of_lt hy), Nat.div_eq_of_lt hy, Nat.add_zero]
  have hk : k = k' := by rw [← hdiv k j hj, h, hdiv k' j' hj']
  subst hk
  exact ⟨rfl, Nat.add_left_cancel h⟩

theorem outside_of_ne {j : Nat} (hne : k ≠ k') (hj : j < size) :
    Outside size k' (k * size + j : Nat) := by
  unfold Outside
  rcases Nat.lt_or_gt_of_ne hne with hlt | hlt
  · left
    have hle : (k + 1) * size ≤ k' * size := Nat.mul_le_mul_right size hlt
    rw [Nat.succ_mul] at hle
    omega
  · right
    have hle : (k' + 1) * size ≤ k * size := Nat.mul_le_mul_right size hlt
    omega

theorem slot_congr {mem mem' : Int → β}
    (h : ∀ j < size, mem (k * size + j : Nat) = mem' (k * size + j : Nat)) :
    slot mem size k = slot mem' size k :=
  map_congr_left fun j hj => h j (mem_range.mp hj)

def Fills (size : Nat) (f : (Int → β) → Except ε (Int → β)) (has : Nat → List β → Prop) : Prop :=
  ∀ mem, ∃ out, f mem = .ok out ∧ (∀ k e, has k e → slot out size k = e) ∧
    ∀ a, (∀ k e, has k e → Outside size k a) → out a = mem a

theorem exists_foldlM {f : (Int → β) → ι → Except ε (Int → β)} {has : ι → Nat → List β → Prop}
    {order : List ι} (h : ∀ i ∈ order, Fills size (f · i) (has i)) (mem : Int → β) :
    ∃ out, order.foldlM f mem = .ok out ∧
      (∀ k, (∃ i ∈ order, ∃ e, has i k e) → ∃ i ∈ order, has i k (slot out size k)) ∧
      ∀ a, (∀ i ∈ order, ∀ k e, has i k e → Outside size k a) → out a = mem a := by
  induction order generalizing mem with
  | nil =>
    refine ⟨mem, rfl, fun k hex => ?_, fun _ _ => rfl⟩
    obtain ⟨i, hi, -⟩ := hex
    cases hi
  | cons i order ih =>
    obtain ⟨hi, horder⟩ := forall_mem_cons.mp h
    obtain ⟨mem', hstep, hslots, hframe⟩ := hi mem
    have hstep : f mem i = .ok mem' := hstep
    obtain ⟨out, hrun, hrest, hrestFrame⟩ := ih horder mem'
    refine ⟨out, ?_, fun k hex => ?_, fun a hout => ?_⟩
    · rw [List.foldlM_cons, hstep]
      exact hrun
    · by_cases hlater : ∃ i' ∈ order, ∃ e, has i' k e
      · obtain ⟨i', hi', hhas⟩ := hrest k hlater
        exact ⟨i', mem_cons_of_mem i hi', hhas⟩
      · -- nothing behind this step comes to the slot
        have hfirst : ∃ e, has i k e := by
          obtain ⟨i', hi', e, hhas⟩ := hex
          cases hi' with
          | head => exact ⟨e, hhas⟩
          | tail _ hi' => exact absurd ⟨i', hi', e, hhas⟩ hlater
        obtain ⟨e, hhas⟩ := hfirst
        have hsame : slot out size k = e := by
          rw [← hslots k e hhas]
          refine slot_congr fun j hj => hrestFrame _ fun i' hi' k' e' hhas' => ?_
          refine outside_of_ne (fun hc => ?_) hj
          subst hc
          exact hlater ⟨i', hi', e', hhas'⟩
        exact ⟨i, mem_cons_self, hsame ▸ hhas⟩
    · rw [hrestFrame a fun i' hi' => hout i' (mem_cons_of_mem i hi')]
      exact hframe a fun k e hhas => hout i mem_cons_self k e hhas

end Heap
