import Mathlib.Data.List.Basic
import Mathlib.Tactic.Common

/-!
# Wire — a growing byte buffer with a cursor

`Mem` is the memory behind a buffer pointer. `Mem.write m o data` is `memcpy (m + o, data, n)`.
The lemmas say how two writes next to each other combine, in both orders: a header written
into space that was left free *after* the body that follows it gives the same memory as the
header and the body written in one go (`Mem.write_backpatch`).
-/

namespace Wire

open List

def Mem : Type := Nat → UInt8

namespace Mem

/-- Copy `data` to offset `o`. -/
def write (m : Mem) (o : Nat) (data : List UInt8) : Mem := fun i =>
  if h : o ≤ i ∧ i - o < data.length then data.get ⟨i - o, h.2⟩ else m i

/-- The `n` bytes at offset `o`. -/
def read (m : Mem) (o n : Nat) : List UInt8 := (List.range n).map fun i => m (o + i)

variable (m : Mem)

@[simp] theorem length_read (o n : Nat) : (m.read o n).length = n := by
  simp [read]

variable (o : Nat)

theorem write_apply_in (data : List UInt8) {i : Nat} (h1 : o ≤ i) (h2 : i - o < data.length) :
    m.write o data i = data[i - o] := by
  simp [write, h1, h2]

theorem write_apply_out (data : List UInt8) {i : Nat} (h : i < o ∨ o + data.length ≤ i) :
    m.write o data i = m i := by
  unfold write
  rw [dif_neg]
  omega

theorem foldl_write_out {ι : Type} {addr : ι → Nat} {data : ι → List UInt8} {ws : List ι} {i : Nat}
    (h : ∀ w ∈ ws, i < addr w ∨ addr w + (data w).length ≤ i) (m : Mem) :
    ws.foldl (fun m w => m.write (addr w) (data w)) m i = m i := by
  induction ws generalizing m with
  | nil => rfl
  | cons w ws ih =>
    obtain ⟨hw, hws⟩ := forall_mem_cons.mp h
    rw [foldl_cons, ih hws, write_apply_out _ _ _ hw]

@[simp] theorem write_nil : m.write o [] = m := by
  funext i
  exact write_apply_out m o [] (by simp; omega)

theorem write_write_append (a b : List UInt8) :
    (m.write o a).write (o + a.length) b = m.write o (a ++ b) := by
  funext i
  by_cases hlo : i < o
  · rw [write_apply_out _ _ _ (by omega), write_apply_out _ _ _ (by omega),
      write_apply_out _ _ _ (by omega)]
  · by_cases ha : i - o < a.length
    · rw [write_apply_out _ _ b (by omega), write_apply_in _ _ a (by omega) ha,
        write_apply_in _ _ (a ++ b) (by omega) (by rw [length_append]; omega),
        getElem_append_left ha]
    · by_cases hb : i - o < a.length + b.length
      · rw [write_apply_in _ _ b (by omega) (by omega),
          write_apply_in _ _ (a ++ b) (by omega) (by rw [length_append]; omega),
          getElem_append_right (by omega)]
        congr 1
        omega
      · rw [write_apply_out _ _ b (by omega), write_apply_out _ _ a (by omega),
          write_apply_out _ _ (a ++ b) (by rw [length_append]; omega)]

theorem write_comm {o o' : Nat} {a b : List UInt8} (h : o + a.length ≤ o' ∨ o' + b.length ≤ o) :
    (m.write o a).write o' b = (m.write o' b).write o a := by
  funext i
  by_cases ha : o ≤ i ∧ i - o < a.length
  · rw [write_apply_out _ o' b (by omega), write_apply_in _ o a ha.1 ha.2,
      write_apply_in _ o a ha.1 ha.2]
  · by_cases hb : o' ≤ i ∧ i - o' < b.length
    · rw [write_apply_in _ o' b hb.1 hb.2, write_apply_out _ o a (by omega),
        write_apply_in _ o' b hb.1 hb.2]
    · rw [write_apply_out _ o' b (by omega), write_apply_out _ o a (by omega),
        write_apply_out _ o a (by omega), write_apply_out _ o' b (by omega)]

theorem write_overwrite {a b : List UInt8} (h : a.length = b.length) :
    (m.write o a).write o b = m.write o b := by
  funext i
  by_cases hb : o ≤ i ∧ i - o < b.length
  · rw [write_apply_in _ _ _ hb.1 hb.2, write_apply_in _ _ _ hb.1 hb.2]
  · rw [write_apply_out _ _ b (by omega), write_apply_out _ _ a (by omega),
      write_apply_out _ _ b (by omega)]

theorem write_backpatch (hdr body : List UInt8) :
    (m.write (o + hdr.length) body).write o hdr = m.write o (hdr ++ body) := by
  rw [write_comm m (Or.inr (Nat.le_refl _)), write_write_append]

@[simp] theorem read_write (data : List UInt8) :
    (m.write o data).read o data.length = data := by
  apply ext_getElem
  · simp
  · intro i h1 h2
    simp only [read, getElem_map, getElem_range]
    rw [write_apply_in _ _ _ (by omega) (by omega)]
    congr 1
    omega

theorem read_append (o a b : Nat) :
    m.read o (a + b) = m.read o a ++ m.read (o + a) b := by
  simp only [read, range_add, map_append, map_map]
  congr 1
  apply map_congr_left
  intro i _
  simp [Nat.add_assoc]

theorem read_write_disjoint {o n o' : Nat} {data : List UInt8}
    (h : o + n ≤ o' ∨ o' + data.length ≤ o) : (m.write o' data).read o n = m.read o n := by
  unfold read
  apply map_congr_left
  intro i hi
  have hi' : i < n := mem_range.mp hi
  exact write_apply_out m o' data (by omega)

end Mem

structure Buffer where
  mem : Mem
  offset : Nat

namespace Buffer

/-- Append `data` at the cursor. -/
def write (b : Buffer) (data : List UInt8) : Buffer :=
  ⟨b.mem.write b.offset data, b.offset + data.length⟩

/-- Leave `n` bytes free, to be filled later. -/
def skip (b : Buffer) (n : Nat) : Buffer := ⟨b.mem, b.offset + n⟩

def patch (b : Buffer) (start : Nat) (data : List UInt8) : Buffer :=
  ⟨b.mem.write start data, b.offset⟩

@[simp] theorem write_offset (b : Buffer) (data : List UInt8) :
    (b.write data).offset = b.offset + data.length := rfl

@[simp] theorem skip_offset (b : Buffer) (n : Nat) : (b.skip n).offset = b.offset + n := rfl

@[simp] theorem patch_offset (b : Buffer) (start : Nat) (data : List UInt8) :
    (b.patch start data).offset = b.offset := rfl

@[simp] theorem write_nil (b : Buffer) : b.write [] = b := by simp [write]

@[simp] theorem write_write (b : Buffer) (x y : List UInt8) :
    (b.write x).write y = b.write (x ++ y) := by
  simp [write, Mem.write_write_append, Nat.add_assoc]

theorem skip_write_patch (b : Buffer) {n : Nat} (hdr body : List UInt8) (h : hdr.length = n) :
    ((b.skip n).write body).patch b.offset hdr = b.write (hdr ++ body) := by
  subst h
  simp [skip, write, patch, Mem.write_backpatch, Nat.add_assoc]

@[simp] theorem patch_patch (b : Buffer) (start : Nat) (x y : List UInt8) :
    (b.patch start x).patch (start + x.length) y = b.patch start (x ++ y) := by
  simp [patch, Mem.write_write_append]

theorem foldl_write (b : Buffer) (xs : List (List UInt8)) :
    xs.foldl write b = b.write xs.flatten := by
  induction xs generalizing b with
  | nil => simp
  | cons x xs ih => rw [foldl_cons, ih, write_write, flatten_cons]

/-- The bytes from offset `o` to the cursor. -/
def since (b : Buffer) (o : Nat) : List UInt8 := b.mem.read o (b.offset - o)

@[simp] theorem since_write (b : Buffer) (data : List UInt8) :
    (b.write data).since b.offset = data := by
  simp [since, write]

/-! ## Growing -/

structure Extends (b b' : Buffer) : Prop where
  offset_le : b.offset ≤ b'.offset
  frame : ∀ i, i < b.offset ∨ b'.offset ≤ i → b'.mem i = b.mem i

namespace Extends

variable {b b' b'' : Buffer}

theorem refl (b : Buffer) : b.Extends b := ⟨Nat.le_refl _, fun _ _ => rfl⟩

theorem trans (h : b.Extends b') (h' : b'.Extends b'') : b.Extends b'' := by
  have hle := h.offset_le
  have hle' := h'.offset_le
  refine ⟨by omega, fun i hi => ?_⟩
  rw [h'.frame i (by omega), h.frame i (by omega)]

theorem write (b : Buffer) (data : List UInt8) : b.Extends (b.write data) :=
  ⟨by simp, fun i hi => b.mem.write_apply_out _ _ (by simpa using hi)⟩

theorem skip (b : Buffer) (n : Nat) : b.Extends (b.skip n) := ⟨by simp, fun _ _ => rfl⟩

theorem patch (h : b.Extends b') {start : Nat} {data : List UInt8} (hlo : b.offset ≤ start)
    (hhi : start + data.length ≤ b'.offset) : b.Extends (b'.patch start data) := by
  refine ⟨h.offset_le, fun i hi => ?_⟩
  rw [patch_offset] at hi
  show b'.mem.write start data i = _
  rw [b'.mem.write_apply_out _ _ (by omega), h.frame i hi]

theorem eq_write (h : b.Extends b') : b' = b.write (b'.since b.offset) := by
  have hle := h.offset_le
  have hlen : (b'.since b.offset).length = b'.offset - b.offset := by simp [since]
  have hmem : b'.mem = b.mem.write b.offset (b'.since b.offset) := by
    funext i
    by_cases hi : b.offset ≤ i ∧ i - b.offset < (b'.since b.offset).length
    · rw [b.mem.write_apply_in _ _ hi.1 hi.2]
      simp only [since, Mem.read, getElem_map, getElem_range]
      congr 1
      omega
    · rw [b.mem.write_apply_out _ _ (by omega), h.frame i (by omega)]
  show b' = ⟨_, _⟩
  rw [hlen, ← hmem, show b.offset + (b'.offset - b.offset) = b'.offset by omega]

end Extends

end Buffer

end Wire
