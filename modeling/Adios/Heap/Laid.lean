import Adios.Heap.Writes

/-!
# Heap — writes that lie end to end

Writes of which each begins where the one before it ends. Together they store one run of cells,
each cell of it once, and nothing else.
-/

namespace Heap

open List

variable {β : Type}

inductive Laid : Int → List β → List (Write β) → Prop where
  | nil (a : Int) : Laid a [] []
  | cons (w : Write β) {bs : List β} {ws : List (Write β)}
      (h : Laid (w.addr + w.cells.length) bs ws) : Laid w.addr (w.cells ++ bs) (w :: ws)

variable {a b : Int} {bs cs : List β} {ws vs : List (Write β)} {mem : Int → β}

theorem Laid.append (h : Laid a bs ws) (h' : Laid (a + bs.length) cs vs) :
    Laid a (bs ++ cs) (ws ++ vs) := by
  induction h with
  | nil a =>
    have haddr : a + (([] : List β).length : Int) = a := by simp
    rw [haddr] at h'
    exact h'
  | @cons w bs ws _ ih =>
    rw [append_assoc, cons_append]
    refine .cons w (ih ?_)
    rw [length_append, Int.natCast_add, ← Int.add_assoc] at h'
    exact h'

theorem Laid.cells_eq (h : Laid a bs ws) : ws.flatMap Write.cells = bs := by
  induction h with
  | nil a => rfl
  | cons w _ ih => rw [flatMap_cons, ih]

theorem Laid.cells_unique (h : Laid a bs ws) (h' : Laid b cs ws) : bs = cs := by
  rw [← h.cells_eq, h'.cells_eq]

theorem Laid.cellAt_eq_none {i : Int} (h : Laid a bs ws) (hi : i < a ∨ a + bs.length ≤ i) :
    ∀ w ∈ ws, w.cellAt i = none := by
  induction h with
  | nil a => exact fun w hw => absurd hw (not_mem_nil)
  | @cons w bs ws _ ih =>
    rw [length_append, Int.natCast_add] at hi
    intro v hv
    rcases mem_cons.mp hv with rfl | hv
    · exact Write.cellAt_eq_none (by omega)
    · exact ih (by omega) v hv

theorem Laid.writeAll_of_outside {i : Int} (h : Laid a bs ws) (hi : i < a ∨ a + bs.length ≤ i) :
    writeAll mem ws i = mem i :=
  writeAll_of_none (h.cellAt_eq_none hi)

theorem Laid.writeAll_add {k : Nat} (h : Laid a bs ws) (hk : k < bs.length) :
    writeAll mem ws (a + k) = bs[k] := by
  induction h generalizing mem k with
  | nil a => exact absurd hk (Nat.not_lt_zero k)
  | @cons w bs ws hrest ih =>
    rw [writeAll_cons]
    by_cases hw : k < w.cells.length
    · -- the first write stores the cell, and those behind it leave it alone
      rw [hrest.writeAll_of_outside (Or.inl (by omega)), Write.apply, Write.cellAt_add,
        getElem_append_left hw, getElem?_eq_getElem hw]
      rfl
    · have hlen : k - w.cells.length < bs.length := by
        rw [length_append] at hk
        omega
      have haddr : w.addr + (k : Int) = w.addr + w.cells.length + (k - w.cells.length : Nat) := by
        omega
      rw [haddr, ih hlen, getElem_append_right (by omega)]

theorem Laid.cellAt_add {k : Nat} (h : Laid a bs ws) (hk : k < bs.length) :
    (∃ w ∈ ws, w.cellAt (a + k) = some bs[k]) ∧
      ∀ w ∈ ws, ∀ b ∈ w.cellAt (a + k), b = bs[k] := by
  induction h generalizing k with
  | nil a => exact absurd hk (Nat.not_lt_zero k)
  | @cons w bs ws hrest ih =>
    by_cases hw : k < w.cells.length
    · have hcell : w.cellAt (w.addr + k) = some (w.cells ++ bs)[k] := by
        rw [Write.cellAt_add, getElem_append_left hw, getElem?_eq_getElem hw]
      refine ⟨⟨w, mem_cons_self, hcell⟩, fun v hv b hb => ?_⟩
      rcases mem_cons.mp hv with rfl | hv
      · rw [hcell] at hb
        exact (Option.some.inj hb).symm
      · rw [hrest.cellAt_eq_none (Or.inl (by omega)) v hv] at hb
        cases hb
    · have hlen : k - w.cells.length < bs.length := by
        rw [length_append] at hk
        omega
      have haddr : w.addr + (k : Int) = w.addr + w.cells.length + (k - w.cells.length : Nat) := by
        omega
      obtain ⟨⟨v, hv, hcell⟩, hall⟩ := ih hlen
      rw [getElem_append_right (by omega), haddr]
      refine ⟨⟨v, mem_cons_of_mem w hv, hcell⟩, fun u hu b hb => ?_⟩
      rcases mem_cons.mp hu with rfl | hu
      · rw [Write.cellAt_eq_none (Or.inr (by omega))] at hb
        cases hb
      · exact hall u hu b hb

end Heap
