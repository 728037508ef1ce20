import Mathlib.Data.List.Pairwise
import Mathlib.Logic.Function.Basic
import Mathlib.Tactic.Common

/-!
# Heap — writes of bytes

A buffer with what lies around it: a cell at each distance from its start, also before it. A write
stores some cells from an address on; a cell that several writes store has the last value, and the
order does not matter where they agree. Cells are also moved within one memory, one after the other:
a move to the front that goes through the addresses upwards reads each cell before it is
overwritten.
-/

namespace Heap

open List

variable {β : Type}

structure Write (β : Type) where
  addr : Int
  cells : List β

def Write.cellAt (w : Write β) (a : Int) : Option β :=
  if w.addr ≤ a then w.cells[(a - w.addr).toNat]? else none

def Write.apply (w : Write β) (mem : Int → β) : Int → β := fun a => (w.cellAt a).getD (mem a)

def writeAll (mem : Int → β) (ws : List (Write β)) : Int → β :=
  ws.foldl (fun mem w => w.apply mem) mem

variable {mem : Int → β} {w : Write β} {ws ws' : List (Write β)} {a : Int} {b : β}

@[simp] theorem writeAll_nil (mem : Int → β) : writeAll mem [] = mem := rfl

@[simp] theorem writeAll_cons (mem : Int → β) (w : Write β) (ws : List (Write β)) :
    writeAll mem (w :: ws) = writeAll (w.apply mem) ws := rfl

theorem writeAll_append (mem : Int → β) (ws ws' : List (Write β)) :
    writeAll mem (ws ++ ws') = writeAll (writeAll mem ws) ws' :=
  foldl_append

theorem Write.cellAt_eq_none (h : a < w.addr ∨ w.addr + w.cells.length ≤ a) :
    w.cellAt a = none := by
  unfold cellAt
  split_ifs with haddr
  · rw [getElem?_eq_none (by omega)]
  · rfl

theorem Write.cellAt_add {k : Nat} : w.cellAt (w.addr + k) = w.cells[k]? := by
  have hk : (w.addr + k - w.addr).toNat = k := by omega
  rw [cellAt, if_pos (by omega), hk]

theorem Write.lt_of_cellAt (h : w.cellAt a = some b) :
    w.addr ≤ a ∧ a < w.addr + w.cells.length := by
  by_contra hout
  have hnone := @Write.cellAt_eq_none β w a (by omega)
  rw [hnone] at h
  cases h

theorem Write.cellAt_elements_iff {n size : Nat} {element : Nat → Nat → Option β}
    (hlen : w.cells.length = n * size)
    (hcells : ∀ k < n, ∀ j < size, w.cells[k * size + j]? = element k j) :
    w.cellAt a = some b ↔ ∃ k < n, ∃ j < size, a = w.addr + (k * size + j : Nat) ∧
      element k j = some b := by
  constructor
  · intro hcell
    obtain ⟨hlo, hhi⟩ := Write.lt_of_cellAt hcell
    obtain ⟨i, hi⟩ := Int.eq_ofNat_of_zero_le (Int.sub_nonneg_of_le hlo)
    have hlt : i < n * size := by omega
    have hsize : 0 < size := Nat.pos_of_ne_zero fun hzero => by
      rw [hzero, Nat.mul_zero] at hlt
      exact Nat.not_lt_zero i hlt
    have hdiv : i / size < n := Nat.div_lt_of_lt_mul (by rw [Nat.mul_comm]; exact hlt)
    have hsplit : i / size * size + i % size = i := Nat.div_add_mod' i size
    have hat : a = w.addr + (i / size * size + i % size : Nat) := by omega
    refine ⟨i / size, hdiv, i % size, Nat.mod_lt i hsize, hat, ?_⟩
    rw [← hcells _ hdiv _ (Nat.mod_lt i hsize), ← Write.cellAt_add, ← hat]
    exact hcell
  · rintro ⟨k, hk, j, hj, rfl, hcell⟩
    rw [Write.cellAt_add, hcells k hk j hj]
    exact hcell

theorem writeAll_of_none (h : ∀ w ∈ ws, w.cellAt a = none) : writeAll mem ws a = mem a := by
  induction ws generalizing mem with
  | nil => rfl
  | cons w ws ih =>
    rw [writeAll_cons, ih fun w' hw' => h w' (mem_cons_of_mem w hw'), Write.apply,
      h w mem_cons_self]
    rfl

theorem writeAll_of_eq (hmem : mem a = b) (h : ∀ w ∈ ws, ∀ b' ∈ w.cellAt a, b' = b) :
    writeAll mem ws a = b := by
  induction ws generalizing mem with
  | nil => exact hmem
  | cons w ws ih =>
    refine ih ?_ fun w' hw' => h w' (mem_cons_of_mem w hw')
    show (w.cellAt a).getD (mem a) = b
    cases hcell : w.cellAt a with
    | none => exact hmem
    | some b' => exact h w mem_cons_self b' hcell

theorem writeAll_of_agree (hex : ∃ w ∈ ws, w.cellAt a = some b)
    (h : ∀ w ∈ ws, ∀ b' ∈ w.cellAt a, b' = b) : writeAll mem ws a = b := by
  obtain ⟨w, hmem, hcell⟩ := hex
  obtain ⟨before, after, rfl⟩ := append_of_mem hmem
  rw [writeAll_append, writeAll_cons]
  refine writeAll_of_eq ?_ fun w' hw' => h w' ?_
  · show (w.cellAt a).getD _ = b
    rw [hcell]
    rfl
  · exact mem_append_right _ (mem_cons_of_mem w hw')

def moveAll (mem : Int → β) (ms : List (Int × Int)) : Int → β :=
  ms.foldl (fun mem m => Function.update mem m.1 (mem m.2)) mem

def forward (dst src : Int) (n : Nat) : List (Int × Int) :=
  (List.range n).map fun k : Nat => (dst + k, src + k)

variable {ms : List (Int × Int)}

theorem moveAll_cons (mem : Int → β) (m : Int × Int) (ms : List (Int × Int)) :
    moveAll mem (m :: ms) = moveAll (Function.update mem m.1 (mem m.2)) ms := rfl

theorem moveAll_flatMap {α : Type} (mem : Int → β) (bs : List α) (f : α → List (Int × Int)) :
    moveAll mem (bs.flatMap f) = bs.foldl (fun mem b => moveAll mem (f b)) mem := by
  induction bs generalizing mem with
  | nil => rfl
  | cons b bs ih =>
    rw [flatMap_cons, foldl_cons, ← ih]
    exact foldl_append

theorem moveAll_of_ne (h : ∀ m ∈ ms, m.1 ≠ a) : moveAll mem ms a = mem a := by
  induction ms generalizing mem with
  | nil => rfl
  | cons m ms ih =>
    obtain ⟨hm, hms⟩ := forall_mem_cons.mp h
    rw [moveAll_cons, ih hms, Function.update_of_ne (Ne.symm hm)]

theorem moveAll_of_mem (hms : ms.Pairwise fun m m' => m.1 < m'.1) (hle : ∀ m ∈ ms, m.1 ≤ m.2)
    {m : Int × Int} (h : m ∈ ms) : moveAll mem ms m.1 = mem m.2 := by
  induction ms generalizing mem with
  | nil => cases h
  | cons m' ms ih =>
    obtain ⟨hfirst, hms⟩ := pairwise_cons.mp hms
    obtain ⟨-, hle⟩ := forall_mem_cons.mp hle
    rw [moveAll_cons]
    rcases mem_cons.mp h with rfl | h
    · rw [moveAll_of_ne fun m' hm' => Int.ne_of_gt (hfirst m' hm'), Function.update_self]
    · -- the source is behind the cell that has just been stored
      have hlt := hfirst m h
      have hsrc := hle m h
      rw [ih hms hle h, Function.update_of_ne (by omega)]

theorem mem_forward {dst src : Int} {n : Nat} {m : Int × Int} :
    m ∈ forward dst src n ↔ ∃ k : Nat, k < n ∧ m = (dst + k, src + k) := by
  unfold forward
  rw [mem_map]
  constructor
  · intro h
    obtain ⟨k, hk, hm⟩ := h
    exact ⟨k, mem_range.mp hk, hm.symm⟩
  · intro h
    obtain ⟨k, hk, hm⟩ := h
    exact ⟨k, mem_range.mpr hk, hm.symm⟩

theorem pairwise_forward (dst src : Int) (n : Nat) :
    (forward dst src n).Pairwise fun m m' => m.1 < m'.1 := by
  unfold forward
  rw [pairwise_map]
  exact pairwise_lt_range.imp fun {k k'} hlt => Int.add_lt_add_left (Int.ofNat_lt.mpr hlt) dst

end Heap
