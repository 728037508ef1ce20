import Adios.Grid.Odometer
import Adios.Read.BoxRead

/-!
# Adios — the strided copy

`copy_data` of `core/util.c` copies `ele_num` elements for each index of a block, from strided places
of a buffer to strided places of another one. Memory is that from the pointers on.
-/

namespace Adios.CopyData

open BoxRead CopySubvolume Grid Wire UInt64

/-- The arguments of `copy_data` with `idim` 0. -/
structure Call extends toBlock : CopySubvolume.Call where
  dims : List CopyDim
  dstStride : UInt64
  srcStride : UInt64
  dstOffset : UInt64
  srcOffset : UInt64
  eleNum : UInt64
  sizeOfType : UInt64

namespace Call

variable (c : Call)

/-- `memcpy` of `ele_num` elements, and `change_endianness` where they are now. -/
def copy (dst src : UInt64) (mem : Mem) : Mem :=
  let block := c.block (dst * c.sizeOfType) (src * c.sizeOfType) (c.eleNum * c.sizeOfType)
  mem.write block.addr.toNat block.cells

def run (mem : Mem) : Except Fault Mem :=
  copyData (fun dst src mem => .ok (c.copy dst src mem)) c.dstStride c.srcStride c.dims c.dstOffset
    c.srcOffset mem

/-! ## The statement -/

def sizes : List Nat := c.dims.map (·.sizeInDset.toNat)

def dstPlace (p : List Nat) : Nat :=
  c.dstOffset.toNat + c.dstStride.toNat * linear (c.dims.map (·.readsize.toNat)) p

def srcPlace (p : List Nat) : Nat :=
  c.srcOffset.toNat + c.srcStride.toNat * linear (c.dims.map (·.ldim.toNat)) p

def Covers (p : List Nat) (a : Nat) : Prop :=
  c.dstPlace p * c.sizeOfType.toNat ≤ a ∧
    a < (c.dstPlace p + c.eleNum.toNat) * c.sizeOfType.toNat

/-- The copy comes to its end. Each byte of an element is where it belongs, as it is in the source or
in the other byte order, unless a later element goes there, too; and nothing else changes. -/
def Copied : Prop :=
  ∀ mem : Mem, ∃ out, c.run mem = .ok out ∧
    (∀ p, Within p c.sizes → ∀ e < c.eleNum.toNat, ∀ j < c.sizeOfType.toNat,
      (∀ q, Within q c.sizes → linear c.sizes p < linear c.sizes q →
        ¬c.Covers q ((c.dstPlace p + e) * c.sizeOfType.toNat + j)) →
      (c.moved (element c.src c.sizeOfType.toNat (c.srcPlace p + e)))[j]? =
        some (out ((c.dstPlace p + e) * c.sizeOfType.toNat + j))) ∧
    ∀ a, (∀ p, Within p c.sizes → ¬c.Covers p a) → out a = mem a

end Call

/-- A call with buffers that have room for the elements. Elements that are swapped are numbers of the
size that is told. -/
structure Strided extends Call where
  ndim : dims ≠ []
  dstRoom : ∀ p, Within p toCall.sizes →
    (toCall.dstPlace p + eleNum.toNat) * sizeOfType.toNat < 18446744073709551616
  srcRoom : ∀ p, Within p toCall.sizes →
    (toCall.srcPlace p + eleNum.toNat) * sizeOfType.toNat < 18446744073709551616
  swapped : swapEndianness = .yes → datumType.IsNumeric ∧ sizeOfType.toNat = toBlock.size

/-- An `unsigned int` counts to the size of each dimension that is come to. -/
def Counted : List CopyDim → Prop
  | [] => True
  | d :: ds => d.sizeInDset.toNat < 4294967296 ∧ (d.sizeInDset ≠ 0 → Counted ds)

/-! ## The loops -/

section

variable {f : UInt64 → UInt64 → Mem → Mem} {dstStride srcStride : UInt64} {dims : List CopyDim}

theorem rounds_eq {size : UInt64} {body : UInt64 → Mem → Except Fault Mem} {g : Nat → Mem → Mem}
    (h : size.toNat < 4294967296) (hbody : ∀ i mem, body (.ofNat i) mem = .ok (g i mem)) (mem : Mem) :
    rounds size body mem = .ok ((List.range size.toNat).foldl (fun mem i => g i mem) mem) := by
  rw [rounds, if_pos h]
  simp only [hbody]
  exact List.foldlM_pure

theorem product_eq (sizes : List UInt64) :
    product sizes = .ofNat (volume (sizes.map UInt64.toNat)) := by
  induction sizes with
  | nil => rfl
  | cons n sizes ih =>
    show n * product sizes = _
    rw [ih, List.map_cons, volume_cons, UInt64.ofNat_mul, UInt64.ofNat_toNat]

theorem offset_eq (offset i : Nat) (stride : UInt64) (sizes : List UInt64) :
    UInt64.ofNat offset + UInt64.ofNat i * stride * product sizes =
      .ofNat (offset + stride.toNat * (i * volume (sizes.map UInt64.toNat))) := by
  rw [product_eq, ofNat_add, UInt64.ofNat_mul, UInt64.ofNat_mul, UInt64.ofNat_toNat,
    ← UInt64.mul_assoc, UInt64.mul_comm stride]

theorem copyData_eq (hne : dims ≠ []) (h : Counted dims) (dst src : Nat) (mem : Mem) :
    copyData (fun dst src mem => .ok (f dst src mem)) dstStride srcStride dims (.ofNat dst)
        (.ofNat src) mem =
      .ok ((elements (whole (dims.map (·.sizeInDset.toNat)))).foldl (fun mem p =>
        f (.ofNat (dst + dstStride.toNat * linear (dims.map (·.readsize.toNat)) p))
          (.ofNat (src + srcStride.toNat * linear (dims.map (·.ldim.toNat)) p)) mem) mem) := by
  induction dims generalizing dst src mem with
  | nil => exact absurd rfl hne
  | cons d dims ih =>
    obtain ⟨hsize, hrest⟩ := h
    show _ = Except.ok (((List.range' 0 d.sizeInDset.toNat).flatMap fun x =>
      (elements (whole (dims.map (·.sizeInDset.toNat)))).map (x :: ·)).foldl _ mem)
    rw [← List.range_eq_range', List.foldl_flatMap]
    simp only [List.foldl_map]
    cases dims with
    | nil =>
      rw [copyData]
      refine rounds_eq hsize (fun i mem => ?_) mem
      have hlast := fun stride offset => offset_eq offset i stride []
      simp only [product, List.foldr_nil, UInt64.mul_one, List.map_nil, volume_nil] at hlast
      rw [UInt64.add_comm, hlast, UInt64.add_comm, hlast]
      rfl
    | cons d' dims =>
      by_cases hzero : d.sizeInDset = 0
      · rw [copyData, hzero]
        rfl
      · rw [copyData]
        refine rounds_eq hsize (fun i mem => ?_) mem
        rw [offset_eq, offset_eq, ih (List.cons_ne_nil _ _) (hrest hzero)]
        simp only [List.map_map, Nat.add_assoc, ← Nat.mul_add]
        rfl

theorem copyData_endless (h : ¬Counted dims) (dst src : UInt64) (mem : Mem) :
    copyData (fun dst src mem => .ok (f dst src mem)) dstStride srcStride dims dst src mem =
      .error .endless := by
  induction dims generalizing dst src mem with
  | nil => exact absurd trivial h
  | cons d dims ih =>
    by_cases hsize : d.sizeInDset.toNat < 4294967296
    · -- the first round does not end
      have hne : d.sizeInDset ≠ 0 := fun hzero => h ⟨hsize, absurd hzero⟩
      have hrest : ¬Counted dims := fun hrest => h ⟨hsize, fun _ => hrest⟩
      obtain ⟨n, hn⟩ := Nat.exists_eq_succ_of_ne_zero fun hzero => hne (UInt64.toNat_inj.mp hzero)
      cases dims with
      | nil => exact absurd trivial hrest
      | cons d' dims =>
        rw [copyData, rounds, if_pos hsize, hn, List.range_succ_eq_map, List.foldlM_cons, ih hrest]
        rfl
    · cases dims with
      | nil => rw [copyData, rounds, if_neg hsize]
      | cons d' dims => rw [copyData, rounds, if_neg hsize]

end

/-! ## What is written -/

namespace Strided

variable {c : Strided} {p : List Nat}

def cells (c : Strided) (p : List Nat) : List UInt8 :=
  (c.block (.ofNat (c.dstPlace p) * c.sizeOfType) (.ofNat (c.srcPlace p) * c.sizeOfType)
    (c.eleNum * c.sizeOfType)).cells

theorem toNat_address {n count : Nat} {size : UInt64}
    (h : (n + count) * size.toNat < 18446744073709551616) :
    (UInt64.ofNat n * size).toNat = n * size.toNat := by
  rw [Nat.add_mul] at h
  rw [UInt64.toNat_mul, toNat_ofNat', Nat.mod_mul_mod, Nat.mod_eq_of_lt (by omega)]

section

variable (hp : Within p c.sizes)

include hp

theorem toNat_bytes : (c.eleNum * c.sizeOfType).toNat = c.eleNum.toNat * c.sizeOfType.toNat := by
  have hroom := c.dstRoom p hp
  rw [Nat.add_mul] at hroom
  rw [UInt64.toNat_mul, Nat.mod_eq_of_lt (by omega)]

theorem cells_spec : (c.cells p).length = c.eleNum.toNat * c.sizeOfType.toNat ∧
    ∀ e < c.eleNum.toNat, ∀ j < c.sizeOfType.toNat,
      (c.cells p)[e * c.sizeOfType.toNat + j]? =
        (c.moved (element c.src c.sizeOfType.toNat (c.srcPlace p + e)))[j]? := by
  have hsrc := toNat_address (c.srcRoom p hp)
  have hn := toNat_bytes hp
  by_cases hswap : c.swapEndianness = .yes
  · obtain ⟨hnumeric, hsize⟩ := c.swapped hswap
    rw [hsize] at hsrc hn ⊢
    exact cells_block hnumeric hsrc hn
  · have hcells : c.cells p = read c.src (UInt64.ofNat (c.srcPlace p) * c.sizeOfType).toNat
        (c.eleNum * c.sizeOfType).toNat := if_neg hswap
    have hmoved : ∀ e, c.moved e = e := fun _ => if_neg hswap
    simp only [hcells, hmoved, hsrc, hn]
    refine ⟨length_read _ _ _, fun e he j hj => ?_⟩
    have hle : (e + 1) * c.sizeOfType.toNat ≤ c.eleNum.toNat * c.sizeOfType.toNat :=
      Nat.mul_le_mul_right _ he
    rw [Nat.succ_mul] at hle
    rw [getElem?_read (by omega), element, getElem?_read hj, Nat.add_mul, Nat.add_assoc]

end

theorem run_eq (h : Counted c.dims) (mem : Mem) :
    c.run mem = .ok ((elements (whole c.sizes)).foldl
      (fun mem p => mem.write (c.dstPlace p * c.sizeOfType.toNat) (c.cells p)) mem) := by
  have hloops := @copyData_eq c.copy c.dstStride c.srcStride c.dims c.ndim h c.dstOffset.toNat
    c.srcOffset.toNat mem
  rw [UInt64.ofNat_toNat, UInt64.ofNat_toNat] at hloops
  refine hloops.trans (congrArg Except.ok ?_)
  refine List.foldl_ext _ _ _ fun mem p hp => ?_
  have hdst := toNat_address (c.dstRoom p (mem_elements_whole.mp hp))
  show mem.write (UInt64.toNat _ : Int).toNat _ = _
  rw [Int.toNat_natCast]
  show mem.write (UInt64.ofNat (c.dstPlace p) * c.sizeOfType).toNat _ = _
  rw [hdst]
  rfl

/-- The copy is right exactly when an `unsigned int` can count to the sizes that are come to. -/
theorem copyData_iff (c : Strided) : c.Copied ↔ Counted c.dims := by
  constructor
  · intro h
    by_contra hcounted
    obtain ⟨out, hrun, -⟩ := h fun _ => 0
    cases hrun.symm.trans (copyData_endless hcounted _ _ _)
  · intro h mem
    refine ⟨_, run_eq h mem, fun p hp e he j hj hlast => ?_, fun a hout => ?_⟩
    · obtain ⟨before, after, hsplit⟩ := List.append_of_mem (mem_elements_whole.mpr hp)
      have horder := pairwise_elements c.sizes
      rw [hsplit, List.pairwise_append, List.pairwise_cons] at horder
      obtain ⟨hlen, hcells⟩ := cells_spec hp
      have hle : (e + 1) * c.sizeOfType.toNat ≤ c.eleNum.toNat * c.sizeOfType.toNat :=
        Nat.mul_le_mul_right _ he
      rw [Nat.succ_mul] at hle
      rw [hsplit, List.foldl_append, List.foldl_cons, Mem.foldl_write_out, Nat.add_mul]
      · have hat : c.dstPlace p * c.sizeOfType.toNat + e * c.sizeOfType.toNat + j -
          c.dstPlace p * c.sizeOfType.toNat = e * c.sizeOfType.toNat + j := by omega
        rw [Mem.write_apply_in _ _ _ (by omega) (by omega), ← hcells e he j hj]
        simp only [hat]
        exact List.getElem?_eq_getElem _
      · -- what comes later does not go there
        intro q hq
        have hwithin : Within q c.sizes := mem_elements_whole.mp (by
          rw [hsplit]
          exact List.mem_append_right _ (List.mem_cons_of_mem _ hq))
        have hmiss := hlast q hwithin (horder.2.1.1 q hq)
        rw [Call.Covers, Nat.add_mul (c.dstPlace q)] at hmiss
        rw [(cells_spec hwithin).1]
        omega
    · refine Mem.foldl_write_out (fun p hp => ?_) mem
      have hwithin := mem_elements_whole.mp hp
      have hmiss := hout p hwithin
      rw [Call.Covers, Nat.add_mul] at hmiss
      rw [(cells_spec hwithin).1]
      omega

def longColumn : Strided where
  host := .little
  datumType := .byte
  swapEndianness := .no
  src := fun _ => 0
  dims := [⟨4294967296, 4294967296, 4294967296⟩]
  dstStride := 1
  srcStride := 1
  dstOffset := 0
  srcOffset := 0
  eleNum := 1
  sizeOfType := 1
  ndim := List.cons_ne_nil _ _
  dstRoom := fun p hp => by
    have hlt := linear_lt hp
    show (0 + 1 * linear [4294967296] p + 1) * 1 < 18446744073709551616
    have hvolume : linear [4294967296] p < 4294967296 := hlt
    omega
  srcRoom := fun p hp => by
    have hlt := linear_lt hp
    show (0 + 1 * linear [4294967296] p + 1) * 1 < 18446744073709551616
    have hvolume : linear [4294967296] p < 4294967296 := hlt
    omega
  swapped := nofun

/-- The loop over the column has no end. -/
theorem not_copied_longColumn : ¬longColumn.Copied := by
  intro h
  obtain ⟨out, hrun, -⟩ := h fun _ => 0
  have hcounted : ¬Counted [⟨4294967296, 4294967296, 4294967296⟩] := fun hcounted =>
    absurd hcounted.1 (by decide)
  have hendless : longColumn.run (fun _ => 0) = .error .endless := copyData_endless hcounted _ _ _
  cases hrun.symm.trans hendless

end Strided

end Adios.CopyData
