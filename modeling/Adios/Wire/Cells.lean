import Adios.Wire.Memory

/-!
# Wire — memory as cells of one size

Memory is an array of elements of `size` bytes each; they are written one after the other, each at
its number. An element that is written once holds what was written, and one that is not written
holds what it held before.
-/

namespace Wire.Mem

open List

variable {m : Mem} {size : Nat}

def cell (m : Mem) (size p : Nat) : List UInt8 := m.read (p * size) size

def writeCells (m : Mem) (size : Nat) : List (Nat × List UInt8) → Mem
  | [] => m
  | w :: ws => writeCells (m.write (w.1 * size) w.2) size ws

def fill (b : UInt8) : Mem := fun _ => b

theorem cell_fill (b : UInt8) (size p : Nat) : (fill b).cell size p = List.replicate size b := by
  have hread : (fill b).read (p * size) size = (List.range size).map fun _ => b := rfl
  rw [cell, hread, map_const', length_range]

theorem writeCells_append (ws ws' : List (Nat × List UInt8)) :
    m.writeCells size (ws ++ ws') = (m.writeCells size ws).writeCells size ws' := by
  induction ws generalizing m with
  | nil => rfl
  | cons w ws ih =>
    rw [cons_append, writeCells, ih]
    rfl

variable {p : Nat} {ws : List (Nat × List UInt8)}

theorem cell_write_self {data : List UInt8} (h : data.length = size) :
    (m.write (p * size) data).cell size p = data := by
  rw [cell, ← h]
  exact read_write m _ data

theorem cell_write_of_ne {q : Nat} {data : List UInt8} (h : data.length = size) (hne : q ≠ p) :
    (m.write (p * size) data).cell size q = m.cell size q := by
  refine read_write_disjoint m ?_
  rw [h]
  rcases Nat.lt_or_gt_of_ne hne with hlt | hgt
  · have hle : (q + 1) * size ≤ p * size := Nat.mul_le_mul_right _ hlt
    rw [Nat.succ_mul] at hle
    exact .inl hle
  · have hle : (p + 1) * size ≤ q * size := Nat.mul_le_mul_right _ hgt
    rw [Nat.succ_mul] at hle
    exact .inr hle

theorem cell_writeCells_of_notMem (hsize : ∀ w ∈ ws, w.2.length = size) (hp : p ∉ ws.map Prod.fst) :
    (m.writeCells size ws).cell size p = m.cell size p := by
  induction ws generalizing m with
  | nil => rfl
  | cons w ws ih =>
    obtain ⟨hw, hws⟩ := forall_mem_cons.mp hsize
    rw [map_cons, mem_cons, not_or] at hp
    rw [writeCells, ih hws hp.2, cell_write_of_ne hw hp.1]

theorem cell_writeCells_of_nodup {ws : List (Nat × List UInt8)}
    (hsize : ∀ w ∈ ws, w.2.length = size) (hnodup : (ws.map Prod.fst).Nodup) {w : Nat × List UInt8}
    (hw : w ∈ ws) : (m.writeCells size ws).cell size w.1 = w.2 := by
  induction ws generalizing m with
  | nil => cases hw
  | cons w' ws ih =>
    obtain ⟨hw', hws⟩ := forall_mem_cons.mp hsize
    rw [map_cons, nodup_cons] at hnodup
    rw [writeCells]
    rcases mem_cons.mp hw with rfl | hw
    · rw [cell_writeCells_of_notMem hws hnodup.1, cell_write_self hw']
    · exact ih hws hnodup.2 hw

theorem writeCells_apply_out {i : Nat} (hsize : ∀ w ∈ ws, w.2.length = size)
    (h : ∀ w ∈ ws, i < w.1 * size ∨ (w.1 + 1) * size ≤ i) : m.writeCells size ws i = m i := by
  induction ws generalizing m with
  | nil => rfl
  | cons w ws ih =>
    obtain ⟨hw, hsize⟩ := forall_mem_cons.mp hsize
    obtain ⟨hi, h⟩ := forall_mem_cons.mp h
    rw [Nat.succ_mul] at hi
    rw [writeCells, ih hsize h]
    exact write_apply_out m _ _ (by omega)

theorem writeCells_apply_of_le {n i : Nat} (hsize : ∀ w ∈ ws, w.2.length = size)
    (hws : ∀ w ∈ ws, w.1 < n) (hi : n * size ≤ i) :
    m.writeCells size ws i = m i :=
  writeCells_apply_out hsize fun w hw => .inr (Nat.le_trans (Nat.mul_le_mul_right _ (hws w hw)) hi)

end Wire.Mem
