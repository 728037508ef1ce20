import Adios.Read.PointReads
import Adios.Read.WriteBlock

/-!
# Adios — the regions of a write-block read

What `read_var_wb` is to leave in the memory, one region for each step, and when one of its rounds
finds the block of a step and leaves its region.
-/

namespace Adios.WriteBlock

open List BoxRead VarSteps Wire UInt64

/-! ## The statement -/

/-- A request for a write block of a variable, for some steps. The characteristics sets are sorted
by their times, and have the numbers of their dimensions. -/
structure Request where
  s : Setting
  v : IndexEntry
  sorted : (times v).Pairwise fun t u => t.toNat ≤ u.toNat
  dims_wf : ∀ c ∈ v.characteristics, c.dims.Wf
  wb : Selection
  fromSteps : Nat
  nsteps : Nat

namespace Request

variable (r : Request)

def steps : List Nat := (List.range r.nsteps).map (r.fromSteps + ·)

/-- The place of the block among the characteristics sets; the time of a step is that which
`read_var_bb` has for it. -/
def blockAt (step : Nat) : Option Nat :=
  if r.wb.isAbsoluteIndex ∧ r.s.streaming = false then
    if 0 ≤ r.wb.index ∧ r.wb.index < r.v.characteristics.length then some r.wb.index.toNat
    else none
  else
    match stepTime r.s r.v ((r.s.currentStep : Int) + step) with
    | .error _ => none
    | .ok time =>
      if 0 ≤ r.wb.index ∧ r.wb.index < nblocksAt r.v time then
        some ((getVarStartIndex r.v time).toNat + r.wb.index.toNat)
      else none

def Resolves (step : Nat) : Prop :=
  match r.blockAt step with
  | some b => pgidx r.s r.v r.wb step = .ok b
  | none => ∃ idx < 0, pgidx r.s r.v r.wb step = .ok idx

def BlockOf (step : Nat) (c : IndexCharacteristic) : Prop :=
  ∃ b, r.blockAt step = some b ∧ r.v.characteristics[b]? = some c

variable (c : IndexCharacteristic)

/-- The payload of a block. One without a `payload_offset` is behind the header of its entry. -/
def payload : Option (List UInt8) :=
  if 0 < c.payloadOffset then
    (blockFile r.s c).map fun f => f.val.drop c.payloadOffset.toNat
  else
    match readEntry r.s c with
    | .ok entry => some entry
    | .error _ => none

def elementSize : Nat := (typeSize r.v.type c.value).toNat

def elements : Nat := Grid.volume ((c.dims.numbers 0).map UInt64.toNat)

def first : Nat :=
  if c.dims.count ≠ 0 ∧ r.wb.isSubPgSelection then r.wb.elementOffset.toNat * r.elementSize c else 0

def nbytes : Nat :=
  if c.dims.count = 0 then
    if r.v.type = .string then r.elementSize c - 1 else r.elementSize c
  else if r.wb.isSubPgSelection then r.wb.nelements.toNat * r.elementSize c
  else elements c * r.elementSize c

/-- The elements are some of the block, and an `MPI_Offset` can count their bytes. -/
def Selects : Prop :=
  (c.dims.count ≠ 0 → r.wb.isSubPgSelection →
    r.wb.elementOffset.toNat + r.wb.nelements.toNat ≤ elements c) ∧
  r.first c + r.nbytes c < 9223372036854775808

def region (bytes : List UInt8) : List UInt8 :=
  (if r.s.env.changeEndianness then
    CopySubvolume.changeEndianness r.s.env.host bytes r.v.type else bytes) ++
  if c.dims.count = 0 ∧ r.v.type = .string then [0] else []

def Selected (step : Nat) (data : List UInt8) : Prop :=
  ∃ c bytes payload, r.BlockOf step c ∧ r.payload c = some payload ∧ r.Selects c ∧
    bytes = (payload.drop (r.first c)).take (r.nbytes c) ∧ bytes.length = r.nbytes c ∧
    data = r.region c bytes

/-- All blocks are found, or the read fails; and when all are found it gives the selected elements
step by step, whatever was in the memory. -/
def Right : Prop :=
  (∀ step ∈ r.steps, r.Resolves step) ∧
    ((∀ step ∈ r.steps, (r.blockAt step).isSome) →
      ∀ mem, ∃ p regions,
        readVarWb r.s r.v r.wb r.fromSteps r.nsteps mem = .ok (.ok p) ∧ p.data = 0 ∧
          Forall₂ r.Selected r.steps regions ∧
          p.mem.read 0 regions.flatten.length = regions.flatten)

def regionSize : Nat :=
  r.nbytes c + if c.dims.count = 0 ∧ r.v.type = .string then 1 else 0

structure BlockClear : Prop where
  selects : r.Selects c
  stored : ∃ payload, r.payload c = some payload ∧
    ((payload.drop (r.first c)).take (r.nbytes c)).length = r.nbytes c
  opens : (blockFile r.s c).isSome
  located : c.payloadOffset = 0 → ∀ payload f, r.payload c = some payload →
    blockFile r.s c = some f →
      (f.val.drop (r.first c)).take (r.nbytes c) = (payload.drop (r.first c)).take (r.nbytes c)
  count : r.nbytes c < 2147483648
  dims : c.dims.count ≠ 0 → r.wb.isSubPgSelection = false → c.dims.count.toNat ≤ 32
  still : c.dims.count = 0 → r.v.type = .string ∧ r.elementSize c = 1

def Apart (a b : Nat) : Prop :=
  ∀ c d, r.BlockOf a c → r.BlockOf b d → r.regionSize c = 0 ∨ r.regionSize d = 0

/-- No step is read; or the index is below 0; or each step has the block, a stream counts its times
from 1, and at most one step has anything to read. -/
def Clear : Prop :=
  r.steps = [] ∨ (r.wb.isAbsoluteIndex ∧ r.s.streaming = false ∧ r.wb.index < 0) ∨
    (r.s.streaming → r.s.fh.tidxStart = 1) ∧
    (∀ step ∈ r.steps, ∃ c, r.BlockOf step c ∧ r.BlockClear c) ∧
    r.steps.Pairwise r.Apart

end Request

/-! ## The index -/

section Index

variable {r : Request} {step b : Nat}

theorem pgidx_of_absolute (h : r.wb.isAbsoluteIndex = true ∧ r.s.streaming = false) :
    pgidx r.s r.v r.wb step = .ok r.wb.index := if_pos h

theorem pgidx_of_relative (h : ¬(r.wb.isAbsoluteIndex = true ∧ r.s.streaming = false)) :
    pgidx r.s r.v r.wb step = adiosWbidxToPgidx r.s r.v r.wb step := if_neg h

theorem ofInt_eq_iff {a b : Int} :
    UInt32.ofInt a = UInt32.ofInt b ↔ a % 4294967296 = b % 4294967296 := by
  show UInt32.ofNat (a % 4294967296).toNat = UInt32.ofNat (b % 4294967296).toNat ↔ _
  rw [← UInt32.toNat_inj, UInt32.toNat_ofNat', UInt32.toNat_ofNat']
  omega

theorem times_of_stream (r : Request) (t : Int) :
    UInt32.ofInt (t + 1) = UInt32.ofInt (cut32 (r.s.fh.tidxStart.toNat + t)) ↔
      r.s.fh.tidxStart = 1 := by
  have hlt := r.s.fh.tidxStart.toNat_lt
  have hone : (1 : UInt32).toNat = 1 := rfl
  rw [ofInt_cut32, ofInt_eq_iff, ← UInt32.toNat_inj]
  omega

theorem pgidxAt_eq_iff {time time' ridx : Int} {start : Nat}
    (hblocks : BlocksAt r.v time' start (nblocksAt r.v time')) (hlo : 0 ≤ ridx)
    (hhi : ridx < nblocksAt r.v time') :
    pgidxAt r.v time ridx = .ok (start + ridx.toNat : Nat) ↔
      UInt32.ofInt time = UInt32.ofInt time' := by
  rcases pgidxAt_cases r.sorted time ridx with ⟨hnone, hcode⟩ | ⟨start', hblocks', hcode⟩
  · rw [hcode]
    refine ⟨fun h => (nomatch h), fun h => ?_⟩
    rw [nblocksAt, ← h, ← nblocksAt, hnone] at hhi
    omega
  · rw [hcode]
    have hpos' := hblocks'.pos
    constructor
    · intro h
      have hplace : start' + min (nblocksAt r.v time) ridx.toNat = start + ridx.toNat := by
        have h := Except.ok.inj h
        omega
      -- the block, or the one before it, has both times
      have hshared : ∃ i, (start ≤ i ∧ i < start + nblocksAt r.v time') ∧
          start' ≤ i ∧ i < start' + nblocksAt r.v time := by
        by_cases hlt : ridx.toNat < nblocksAt r.v time
        · exact ⟨start + ridx.toNat, by omega, by omega⟩
        · exact ⟨start + ridx.toNat - 1, by omega, by omega⟩
      obtain ⟨i, hi, hi'⟩ := hshared
      exact Option.some.inj ((hblocks'.time_eq hi'.1 hi'.2).symm.trans (hblocks.time_eq hi.1 hi.2))
    · intro h
      have hcount : nblocksAt r.v time = nblocksAt r.v time' := by
        rw [nblocksAt, h, nblocksAt]
      have hstart : start' = start := by
        have hsame : getVarStartIndex r.v time = getVarStartIndex r.v time' := by
          rw [getVarStartIndex, h, getVarStartIndex]
        have heq := hblocks'.start_eq.symm.trans (hsame.trans hblocks.start_eq)
        omega
      rw [hcount, hstart, Nat.min_eq_right (by omega)]

theorem exists_blocksAt (r : Request) {time : Int} {n : Int} (hlo : 0 ≤ n)
    (hhi : n < nblocksAt r.v time) :
    ∃ start, BlocksAt r.v time start (nblocksAt r.v time) := by
  rcases pgidxAt_cases r.sorted time 0 with ⟨hnone, -⟩ | ⟨start, hblocks, -⟩
  · omega
  · exact ⟨start, hblocks⟩

theorem pgidx_eq_iff (hb : r.blockAt step = some b) :
    pgidx r.s r.v r.wb step = .ok (b : Int) ↔
      (r.s.streaming = true → r.s.fh.tidxStart = 1) := by
  unfold Request.blockAt at hb
  by_cases habsolute : r.wb.isAbsoluteIndex = true ∧ r.s.streaming = false
  · rw [if_pos habsolute] at hb
    split_ifs at hb with hrange
    obtain rfl := Option.some.inj hb
    rw [pgidx_of_absolute habsolute, Int.toNat_of_nonneg hrange.1, habsolute.2]
    exact ⟨fun _ h => (nomatch h), fun _ => rfl⟩
  · rw [if_neg habsolute] at hb
    split at hb
    · cases hb
    · rename_i time htime
      split_ifs at hb with hrange
      obtain rfl := Option.some.inj hb
      obtain ⟨start, hblocks⟩ := exists_blocksAt r hrange.1 hrange.2
      rw [pgidx_of_relative habsolute, adiosWbidxToPgidx, SeekStep.stepToTime, hblocks.start_eq]
      rw [stepTime] at htime
      cases hstream : r.s.streaming with
      | true =>
        rw [if_pos hstream] at htime
        obtain rfl := Except.ok.inj htime
        rw [if_pos rfl, ok_bind, Int.toNat_natCast, pgidxAt_eq_iff hblocks hrange.1 hrange.2,
          times_of_stream]
        exact ⟨fun h _ => h, fun h => h rfl⟩
      | false =>
        rw [if_neg (by rw [hstream]; decide)] at htime
        rw [if_neg (by decide), htime, ok_bind, Int.toNat_natCast,
          pgidxAt_eq_iff hblocks hrange.1 hrange.2]
        exact ⟨fun _ h => (nomatch h), fun _ => rfl⟩

theorem exists_neg_pgidx_iff :
    (∃ idx < 0, pgidx r.s r.v r.wb step = .ok idx) ↔
      (r.wb.isAbsoluteIndex = true ∧ r.s.streaming = false) ∧ r.wb.index < 0 := by
  by_cases habsolute : r.wb.isAbsoluteIndex = true ∧ r.s.streaming = false
  · rw [pgidx_of_absolute habsolute]
    constructor
    · rintro ⟨idx, hneg, h⟩
      rw [Except.ok.inj h]
      exact ⟨habsolute, hneg⟩
    · rintro ⟨-, hneg⟩
      exact ⟨_, hneg, rfl⟩
  · rw [pgidx_of_relative habsolute]
    refine iff_of_false ?_ fun h => habsolute h.1
    rintro ⟨idx, hneg, h⟩
    obtain ⟨time, -, h⟩ := exists_of_bind_eq_ok h
    rcases pgidxAt_cases r.sorted time r.wb.index with ⟨-, hcode⟩ | ⟨start, -, hcode⟩
    · rw [hcode] at h
      cases h
    · rw [hcode] at h
      have h := Except.ok.inj h
      omega

theorem resolves_iff_of_some (hb : r.blockAt step = some b) :
    r.Resolves step ↔ (r.s.streaming = true → r.s.fh.tidxStart = 1) := by
  rw [Request.Resolves, hb]
  exact pgidx_eq_iff hb

theorem resolves_iff_of_none (hb : r.blockAt step = none) :
    r.Resolves step ↔ (r.wb.isAbsoluteIndex = true ∧ r.s.streaming = false) ∧ r.wb.index < 0 := by
  rw [Request.Resolves, hb]
  exact exists_neg_pgidx_iff

theorem blockAt_of_neg (h : r.wb.index < 0) : r.blockAt step = none := by
  unfold Request.blockAt
  split
  · exact if_neg fun hrange => absurd hrange.1 (by omega)
  · split
    · rfl
    · exact if_neg fun hrange => absurd hrange.1 (by omega)

theorem exists_blockOf (hb : r.blockAt step = some b) :
    ∃ c, r.v.characteristics[b]? = some c ∧ r.BlockOf step c := by
  have hlt : b < r.v.characteristics.length := by
    have hb := hb
    unfold Request.blockAt at hb
    split at hb
    · split_ifs at hb with hrange
      obtain rfl := Option.some.inj hb
      omega
    · split at hb
      · cases hb
      · rename_i time htime
        split_ifs at hb with hrange
        obtain rfl := Option.some.inj hb
        obtain ⟨start, hblocks⟩ := exists_blocksAt r hrange.1 hrange.2
        have htimes := hblocks.time_eq (Nat.le_add_right start r.wb.index.toNat) (by omega)
        rw [hblocks.start_eq, Int.toNat_natCast, ← length_times]
        exact (List.getElem?_eq_some_iff.mp htimes).1
  exact ⟨_, getElem?_eq_getElem hlt, b, hb, getElem?_eq_getElem hlt⟩

theorem blockOf_inj {c d : IndexCharacteristic} (hc : r.BlockOf step c) (hd : r.BlockOf step d) :
    c = d := by
  obtain ⟨b, hb, hc⟩ := hc
  obtain ⟨b', hb', hd⟩ := hd
  obtain rfl := Option.some.inj (hb.symm.trans hb')
  exact Option.some.inj (hc.symm.trans hd)

end Index

/-! ## One round -/

section Round

variable {r : Request} {c : IndexCharacteristic} {p q : Place}

theorem readOps_of_some {s : Setting} {f : FileBytes} (hfile : blockFile s c = some f)
    {sliceOffset sliceSize : UInt64} (hsize : sliceSize.toNat < 2147483648) :
    readOps s c sliceOffset sliceSize =
      .ok (.ok ((f.val.drop sliceOffset.toNat).take sliceSize.toNat)) := by
  rw [readOps, hfile]
  dsimp only
  rw [mpiFileRead, if_pos hsize]
  rfl

theorem readOps_inv {s : Setting} {sliceOffset sliceSize : UInt64} {bytes : List UInt8}
    (h : readOps s c sliceOffset sliceSize = .ok (.ok bytes)) :
    ∃ f, blockFile s c = some f ∧ sliceSize.toNat < 2147483648 ∧
      bytes = (f.val.drop sliceOffset.toNat).take sliceSize.toNat := by
  unfold readOps at h
  cases hfile : blockFile s c with
  | none =>
    rw [hfile] at h
    cases Except.ok.inj h
  | some f =>
    rw [hfile] at h
    obtain ⟨read, hread, h⟩ := exists_of_bind_eq_ok h
    obtain rfl := Except.ok.inj (Except.ok.inj h)
    unfold mpiFileRead at hread
    split_ifs at hread with hsize
    exact ⟨f, rfl, hsize, (Except.ok.inj hread).symm⟩

theorem toNat_sliceSize (hwf : c.dims.Wf) (harray : c.dims.count ≠ 0) (hselects : r.Selects c)
    {size : UInt64} (h : sliceSize r.v.type r.wb c = .ok size) : size.toNat = r.nbytes c := by
  have hlt := hselects.2
  unfold Request.nbytes at hlt ⊢
  rw [if_neg harray] at hlt ⊢
  unfold sliceSize at h
  dsimp only at h
  split_ifs at h hlt ⊢ with hsub hwide
  · rw [← Except.ok.inj h, UInt64.toNat_mul]
    exact Nat.mod_eq_of_lt (by rw [Request.elementSize] at hlt; omega)
  · rw [bpGetDimensionGeneric_of_wf hwf, ok_bind] at h
    dsimp only at h
    rw [← Except.ok.inj h, CopySubvolume.foldl_mul_eq, UInt64.toNat_mul, toNat_ofNat',
      Nat.mul_mod_mod, Nat.mul_comm]
    exact Nat.mod_eq_of_lt (by rw [Request.elements, Request.elementSize] at hlt; omega)

theorem sliceSize_inv {type : Datatype} {wb : Selection} {size : UInt64}
    (h : sliceSize type wb c = .ok size) :
    wb.isSubPgSelection = false → c.dims.count.toNat ≤ 32 := by
  unfold sliceSize at h
  dsimp only at h
  split_ifs at h with hsub hwide
  · exact fun hnot => absurd hsub (by rw [hnot]; decide)
  · exact fun _ => by omega

theorem exists_sliceSize (hwf : c.dims.Wf) (type : Datatype) (wb : Selection)
    (hdims : wb.isSubPgSelection = false → c.dims.count.toNat ≤ 32) :
    ∃ size, sliceSize type wb c = .ok size := by
  unfold sliceSize
  dsimp only
  split_ifs with hsub hwide
  · exact ⟨_, rfl⟩
  · exact absurd (hdims (Bool.eq_false_iff.mpr hsub)) (by omega)
  · rw [bpGetDimensionGeneric_of_wf hwf]
    exact ⟨_, rfl⟩

def Request.sliceOffset (r : Request) (c : IndexCharacteristic) : UInt64 :=
  if r.wb.isSubPgSelection then
    c.payloadOffset + r.wb.elementOffset * typeSize r.v.type c.value
  else c.payloadOffset

def Request.fileBytes (r : Request) (f : FileBytes) (c : IndexCharacteristic) : List UInt8 :=
  (f.val.drop (r.sliceOffset c).toNat).take (r.nbytes c)

theorem readArray_eq (hwf : c.dims.Wf) (harray : c.dims.count ≠ 0) (hselects : r.Selects c)
    {f : FileBytes} (hfile : blockFile r.s c = some f) (hcount : r.nbytes c < 2147483648)
    (hdims : r.wb.isSubPgSelection = false → c.dims.count.toNat ≤ 32) (p : Place) :
    readArray r.s r.v.type r.wb c p = .ok (.ok { p with
      mem := swapInPlace r.s r.v.type (p.mem.write p.data (r.fileBytes f c)) p.data
        (r.nbytes c) }) := by
  obtain ⟨size, hsize⟩ := exists_sliceSize hwf r.v.type r.wb hdims
  have hnat := toNat_sliceSize hwf harray hselects hsize
  rw [readArray, hsize, ok_bind]
  dsimp only
  rw [readOps_of_some hfile (by omega), hnat]
  rfl

theorem readArray_inv (hwf : c.dims.Wf) (harray : c.dims.count ≠ 0) (hselects : r.Selects c)
    (h : readArray r.s r.v.type r.wb c p = .ok (.ok q)) :
    ∃ f, blockFile r.s c = some f ∧ r.nbytes c < 2147483648 ∧
      (r.wb.isSubPgSelection = false → c.dims.count.toNat ≤ 32) := by
  obtain ⟨size, hsize, h⟩ := exists_of_bind_eq_ok h
  obtain ⟨read, hread, h⟩ := exists_of_bind_eq_ok h
  cases read with
  | error e => cases Except.ok.inj h
  | ok bytes =>
    obtain ⟨f, hfile, hlt, -⟩ := readOps_inv hread
    rw [toNat_sliceSize hwf harray hselects hsize] at hlt
    exact ⟨f, hfile, hlt, sliceSize_inv hsize⟩

theorem toNat_sliceOffset (harray : c.dims.count ≠ 0)
    (h : c.payloadOffset.toNat + r.first c < 18446744073709551616) :
    (r.sliceOffset c).toNat = c.payloadOffset.toNat + r.first c := by
  unfold Request.sliceOffset
  unfold Request.first Request.elementSize at h ⊢
  by_cases hsub : r.wb.isSubPgSelection = true
  · rw [if_pos ⟨harray, hsub⟩] at h
    rw [if_pos hsub, if_pos ⟨harray, hsub⟩, UInt64.toNat_add, UInt64.toNat_mul, Nat.add_mod_mod]
    exact Nat.mod_eq_of_lt h
  · rw [if_neg hsub, if_neg fun hc => hsub hc.2, Nat.add_zero]

/-- The bytes of a block with a `payload_offset` are read from where they are. -/
theorem fileBytes_of_offset (harray : c.dims.count ≠ 0) (hselects : r.Selects c)
    {f : FileBytes} (hfile : blockFile r.s c = some f) (hoffset : 0 < c.payloadOffset)
    {payload : List UInt8} (hpayload : r.payload c = some payload)
    (hstored : ((payload.drop (r.first c)).take (r.nbytes c)).length = r.nbytes c) :
    r.fileBytes f c = (payload.drop (r.first c)).take (r.nbytes c) := by
  rw [Request.payload, if_pos hoffset, hfile] at hpayload
  obtain rfl := Option.some.inj hpayload
  rw [drop_drop] at hstored ⊢
  rw [Request.fileBytes]
  by_cases hnone : r.nbytes c = 0
  · rw [hnone, take_zero, take_zero]
  · have hlt := f.property
    have hfirst := hselects.2
    rw [length_take, length_drop] at hstored
    rw [toNat_sliceOffset harray (by omega)]

theorem fileBytes_of_zero (harray : c.dims.count ≠ 0) (hselects : r.Selects c)
    (hzero : c.payloadOffset = 0) (f : FileBytes) :
    r.fileBytes f c = (f.val.drop (r.first c)).take (r.nbytes c) := by
  have hfirst := hselects.2
  have hnone : c.payloadOffset.toNat = 0 := by
    rw [hzero]
    rfl
  rw [Request.fileBytes, toNat_sliceOffset harray (by omega), hnone, Nat.zero_add]

def Request.swapped (r : Request) (bytes : List UInt8) : List UInt8 :=
  if r.s.env.changeEndianness then
    CopySubvolume.changeEndianness r.s.env.host bytes r.v.type else bytes

theorem length_swapped (bytes : List UInt8) : (r.swapped bytes).length = bytes.length := by
  unfold Request.swapped
  split_ifs
  · exact (PayloadSwap.changeEndianness_undo _ _ _).1
  · rfl

theorem swapped_injective {a b : List UInt8} (h : r.swapped a = r.swapped b) : a = b := by
  unfold Request.swapped at h
  split_ifs at h
  · exact PayloadSwap.changeEndianness_injective _ _ h
  · exact h

theorem region_eq (bytes : List UInt8) : r.region c bytes = r.swapped bytes ++
    if c.dims.count = 0 ∧ r.v.type = .string then [0] else [] := rfl

theorem length_region {bytes : List UInt8} (h : bytes.length = r.nbytes c) :
    (r.region c bytes).length = r.regionSize c := by
  rw [region_eq, length_append, length_swapped, h, Request.regionSize]
  split_ifs <;> rfl

theorem read_swapInPlace (mem : Mem) (data size : Nat) :
    (swapInPlace r.s r.v.type mem data size).read data size =
      r.swapped (mem.read data size) := by
  unfold swapInPlace Request.swapped
  split_ifs
  · have hlen := (PayloadSwap.changeEndianness_undo r.s.env.host (mem.read data size)
      r.v.type).1
    rw [Mem.length_read] at hlen
    have hread := Mem.read_write mem data
      (CopySubvolume.changeEndianness r.s.env.host (mem.read data size) r.v.type)
    rwa [hlen] at hread
  · rfl

theorem swapInPlace_apply_of_le (mem : Mem) {data size i : Nat} (h : data + size ≤ i) :
    swapInPlace r.s r.v.type mem data size i = mem i := by
  unfold swapInPlace
  split_ifs
  · have hlen := (PayloadSwap.changeEndianness_undo r.s.env.host (mem.read data size)
      r.v.type).1
    rw [Mem.length_read] at hlen
    exact Mem.write_apply_out _ _ _ (by omega)
  · rfl

theorem swapInPlace_write (mem : Mem) (data : Nat) (bytes : List UInt8) :
    swapInPlace r.s r.v.type (mem.write data bytes) data bytes.length =
      mem.write data (r.swapped bytes) := by
  unfold swapInPlace Request.swapped
  split_ifs
  · rw [Mem.read_write, Mem.write_overwrite]
    exact (PayloadSwap.changeEndianness_undo _ _ _).1.symm
  · rfl

theorem copyOut_none (s : Setting) (type : Datatype) (mem : Mem) (dst : Nat) (buff : List UInt8) :
    copyOut s type mem dst buff 0 = .ok mem := by
  have hok : ∃ mem', copyOut s type mem dst buff 0 = .ok mem' := by
    unfold copyOut
    rw [if_neg (Nat.not_lt_zero _)]
    split_ifs <;> exact ⟨_, rfl⟩
  obtain ⟨mem', hok⟩ := hok
  rw [hok, copyOut_zero hok]

theorem bpGetTypeSize_ne_zero {type : Datatype} (h : type ≠ .string) :
    CopySubvolume.bpGetTypeSize type ≠ 0 := by
  cases type with
  | string => exact absurd rfl h
  | other code => exact (by decide : (-1 : UInt64) ≠ 0)
  | _ => decide

theorem readScalar_eq (hstring : r.v.type = .string) (hone : r.elementSize c = 1)
    {f : FileBytes} (hfile : blockFile r.s c = some f) (p : Place) :
    readScalar r.s r.v.type c p = .ok (.ok { p with mem := p.mem.write p.data [0] }) := by
  have hsize : typeSize r.v.type c.value = 1 := UInt64.toNat_inj.mp hone
  rw [hstring] at hsize
  rw [readScalar, hstring, hsize, readOps_of_some hfile (by decide), ok_bind]
  dsimp only
  rw [if_pos rfl, UInt64.sub_self]
  show (copyOut r.s .string p.mem p.data _ 0 >>= _) = _
  rw [copyOut_none]
  rfl

theorem readScalar_inv (h : readScalar r.s r.v.type c p = .ok (.ok q)) :
    p.data ≤ q.data ∧ (q.data = p.data → r.v.type = .string ∧ r.elementSize c = 1 ∧
      ∃ f, blockFile r.s c = some f) := by
  obtain ⟨read, hread, h⟩ := exists_of_bind_eq_ok h
  cases read with
  | error e => cases Except.ok.inj h
  | ok buff =>
    obtain ⟨f, hfile, -, -⟩ := readOps_inv hread
    obtain ⟨mem, -, h⟩ := exists_of_bind_eq_ok h
    obtain rfl := Except.ok.inj (Except.ok.inj h)
    refine ⟨Nat.le_add_right _ _, fun hstill => ?_⟩
    have hnone := UInt64.toNat_inj.mp (show _ = (0 : UInt64).toNat from
      Nat.add_left_cancel (hstill.trans (Nat.add_zero _).symm))
    split_ifs at hnone with hstring
    · refine ⟨hstring, ?_, f, hfile⟩
      rw [Request.elementSize, UInt64.sub_eq_iff_eq_add.mp hnone]
      rfl
    · unfold typeSize at hnone
      rw [if_neg hstring] at hnone
      exact absurd hnone (bpGetTypeSize_ne_zero hstring)

theorem readOne_of_clear (hwf : c.dims.Wf) (h : r.BlockClear c) :
    ∃ bytes payload, r.payload c = some payload ∧
      bytes = (payload.drop (r.first c)).take (r.nbytes c) ∧ bytes.length = r.nbytes c ∧
      ∀ mem, readOne r.s r.v.type r.wb c { mem, data := 0 } =
        .ok (.ok { mem := mem.write 0 (r.region c bytes), data := 0 }) := by
  obtain ⟨payload, hpayload, hstored⟩ := h.stored
  obtain ⟨f, hfile⟩ := Option.isSome_iff_exists.mp h.opens
  refine ⟨_, payload, hpayload, rfl, hstored, fun mem => ?_⟩
  by_cases hscalar : c.dims.count = 0
  · obtain ⟨hstring, hone⟩ := h.still hscalar
    have hnone : r.nbytes c = 0 := by
      rw [Request.nbytes, if_pos hscalar, if_pos hstring, hone]
    have hregion : r.region c [] = [0] := by
      have hnil : r.swapped [] = [] := eq_nil_of_length_eq_zero (length_swapped [])
      rw [region_eq, hnil, if_pos ⟨hscalar, hstring⟩, nil_append]
    rw [readOne, if_pos hscalar, readScalar_eq hstring hone hfile, hnone, take_zero, hregion]
  · have hread : r.fileBytes f c = (payload.drop (r.first c)).take (r.nbytes c) := by
      by_cases hoffset : 0 < c.payloadOffset
      · exact fileBytes_of_offset hscalar h.selects hfile hoffset hpayload hstored
      · have hzero : c.payloadOffset = 0 := by
          rw [lt_iff_toNat_lt] at hoffset
          exact UInt64.toNat_inj.mp (Nat.eq_zero_of_not_pos hoffset)
        rw [fileBytes_of_zero hscalar h.selects hzero]
        exact h.located hzero payload f hpayload hfile
    have hswap := @swapInPlace_write r mem 0 ((payload.drop (r.first c)).take (r.nbytes c))
    rw [hstored] at hswap
    rw [readOne, if_neg hscalar, readArray_eq hwf hscalar h.selects hfile h.count (h.dims hscalar)]
    dsimp only
    rw [hread, hswap, region_eq, if_neg fun hc => hscalar hc.1, append_nil]

section

variable (hwf : c.dims.Wf) (hselects : r.Selects c)
  (h : readOne r.s r.v.type r.wb c p = .ok (.ok q))

include hwf hselects h

theorem readOne_inv :
    p.data ≤ q.data ∧ (q.data = 0 → ∃ f, blockFile r.s c = some f ∧
      r.nbytes c < 2147483648 ∧
      (c.dims.count ≠ 0 → r.wb.isSubPgSelection = false → c.dims.count.toNat ≤ 32) ∧
      (c.dims.count = 0 → r.v.type = .string ∧ r.elementSize c = 1) ∧
      q.mem = if c.dims.count = 0 then p.mem.write 0 [0]
        else swapInPlace r.s r.v.type (p.mem.write 0 (r.fileBytes f c)) 0 (r.nbytes c)) := by
  unfold readOne at h
  split_ifs at h with hscalar
  · obtain ⟨hle, hstill⟩ := readScalar_inv h
    refine ⟨hle, fun hzero => ?_⟩
    obtain ⟨hstring, hone, f, hfile⟩ := hstill (by omega)
    have hnone : r.nbytes c = 0 := by
      rw [Request.nbytes, if_pos hscalar, if_pos hstring, hone]
    rw [readScalar_eq hstring hone hfile] at h
    obtain rfl := Except.ok.inj (Except.ok.inj h)
    dsimp only at hzero
    refine ⟨f, hfile, by omega, fun hnot => absurd hscalar hnot, fun _ => ⟨hstring, hone⟩, ?_⟩
    rw [if_pos hscalar]
    dsimp only
    rw [hzero]
  · obtain ⟨f, hfile, hcount, hdims⟩ := readArray_inv hwf hscalar hselects h
    rw [readArray_eq hwf hscalar hselects hfile hcount hdims] at h
    obtain rfl := Except.ok.inj (Except.ok.inj h)
    refine ⟨Nat.le_refl _, fun hzero => ⟨f, hfile, hcount, fun _ => hdims,
      fun hc => absurd hc hscalar, ?_⟩⟩
    dsimp only at hzero ⊢
    rw [if_neg hscalar, hzero]

theorem readOne_apply_of_le (hzero : q.data = 0) {i : Nat}
    (hi : r.regionSize c ≤ i) : q.mem i = p.mem i := by
  obtain ⟨f, -, -, -, hstring, hmem⟩ := (readOne_inv hwf hselects h).2 hzero
  unfold Request.regionSize at hi
  rw [hmem]
  by_cases hscalar : c.dims.count = 0
  · rw [if_pos ⟨hscalar, (hstring hscalar).1⟩] at hi
    rw [if_pos hscalar]
    exact Mem.write_apply_out _ _ _ (by rw [length_singleton]; omega)
  · have hle : (r.fileBytes f c).length ≤ r.nbytes c := by
      rw [Request.fileBytes, length_take]
      exact Nat.min_le_left _ _
    rw [if_neg hscalar, swapInPlace_apply_of_le _ (by omega)]
    exact Mem.write_apply_out _ _ _ (by omega)

end

end Round

end Adios.WriteBlock
