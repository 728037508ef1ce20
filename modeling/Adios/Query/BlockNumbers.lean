import Adios.Core.WriteBlocks
import Adios.Query.Leaves

/-!
# Adios — the numbers of write blocks

Four functions turn the index of a block at a time step into its number in the file:
`getTotalByteSize`, `query_utils_getGlobalWriteBlockId`, `adios_get_absolute_writeblock_index` and
`fastbit_adios_util_getBlockSize`. The first one also checks the index.
-/

namespace Adios

open List

/-- `query_utils_getGlobalWriteBlockId` -/
def queryUtilsGetGlobalWriteBlockId (idxRelativeToTimeStep timeStep : Int) (v : QueryVarInfo) :
    Int :=
  (v.nblocks.take timeStep.toNat).foldl (· + ·) idxRelativeToTimeStep

/-- `absBlockIdx` of `fastbit_adios_util_getBlockSize`, with its loop over the steps before. -/
def fastbitAbsBlockIdx (v : QueryVarInfo) (timestep relativeBlockIdx : Int) : Except Fault Int :=
  if v.nblocks.length < timestep.toNat then .error .outOfBounds
  else .ok ((v.nblocks.take timestep.toNat).foldl (· + ·) 0 + relativeBlockIdx)

/-- `fastbit_adios_util_getBlockSize` -/
def fastbitAdiosUtilGetBlockSize (v : QueryVarInfo) (timestep relativeBlockIdx : Int) :
    Except Fault UInt64 :=
  if v.dims = [] then .ok 1
  else do
    let k ← fastbitAbsBlockIdx v timestep relativeBlockIdx
    if k < 0 then .error .outOfBounds
    else
      match v.blockinfo[k.toNat]? with
      | none => .error .outOfBounds
      | some count => .ok (count.foldl (· * ·) 1)

structure BlockNumber where
  v : QueryVarInfo
  timestep : Int
  index : Int
  /-- `sum_nblocks` is an `int`. -/
  total : (v.steps.map List.length).sum < 2147483648

namespace BlockNumber

variable (b : BlockNumber)

/-- What `adios_get_absolute_writeblock_index` reads. -/
def varinfo : WriteBlocks.Varinfo where
  nblocks := b.v.steps.map List.length
  volume k := ((b.v.blockinfo.getD k []).map UInt64.toNat).foldl (· * ·) 1
  total := b.total

def Valid : Prop :=
  0 ≤ b.timestep ∧ b.timestep < b.v.steps.length ∧
    0 ≤ b.index ∧ b.index < (b.v.steps.getD b.timestep.toNat []).length

/-- `getTotalByteSize` for a write block. -/
def sizes : Except Fault (Option (UInt64 × UInt64)) :=
  getTotalByteSize b.v (some (.writeBlock b.index)) b.timestep

/-- All numbers of a valid block that the check accepts are the same, and are that of a block; the
check refuses all others; and nothing is read outside of the arrays. -/
structure Agrees : Prop where
  same : b.Valid → (∃ s, b.sizes = .ok (some s)) → ∃ k < b.v.blockinfo.length,
    (blockCounters b.v.nblocks b.index b.timestep).2 = k ∧
    queryUtilsGetGlobalWriteBlockId b.index b.timestep b.v = k ∧
    b.varinfo.absoluteIndex b.index b.timestep = k ∧
    fastbitAbsBlockIdx b.v b.timestep b.index = .ok (k : Int)
  rejects : ¬b.Valid → b.sizes = .ok none
  checked : ∃ s, b.sizes = .ok s
  inside : (∃ s, b.sizes = .ok (some s)) →
    ∃ size, fastbitAdiosUtilGetBlockSize b.v b.timestep b.index = .ok size

def Clear : Prop := b.Valid ∨ ∃ blocks ∈ b.v.steps, (blocks.length : Int) < b.index

variable {b}

theorem least_lt_iff (first index : Int) (nblocks : List Int) :
    nblocks.foldl (fun least n => if n < least then n else least) first < index ↔
      first < index ∨ ∃ n ∈ nblocks, n < index := by
  induction nblocks generalizing first with
  | nil => simp
  | cons n nblocks ih =>
    rw [foldl_cons, ih, exists_mem_cons_iff]
    split_ifs with h
    · constructor
      · rintro (hn | hrest)
        · exact .inr (.inl hn)
        · exact .inr (.inr hrest)
      · rintro (hfirst | hn | hrest)
        · exact .inl (by omega)
        · exact .inl hn
        · exact .inr hrest
    · constructor
      · rintro (hfirst | hrest)
        · exact .inl hfirst
        · exact .inr (.inr hrest)
      · rintro (hfirst | hn | hrest)
        · exact .inl hfirst
        · exact .inl (by omega)
        · exact .inr hrest

theorem blockCounters_fst_lt_iff (v : QueryVarInfo) (index timestep : Int) :
    (blockCounters v.nblocks index timestep).1 < index ↔
      ∃ blocks ∈ v.steps, (blocks.length : Int) < index := by
  obtain ⟨blocks, rest, hcons⟩ := exists_cons_of_ne_nil v.steps_ne_nil
  have hnblocks : v.nblocks =
      (blocks.length : Int) :: rest.map fun blocks => (blocks.length : Int) := by
    rw [QueryVarInfo.nblocks, hcons, map_cons]
  have hmap : (∃ n ∈ rest.map fun blocks => (blocks.length : Int), n < index) ↔
      ∃ blocks ∈ rest, (blocks.length : Int) < index := by
    simp only [mem_map, exists_exists_and_eq_and]
  rw [blockCounters, hnblocks, hcons, exists_mem_cons_iff, ← hmap]
  simp only [headD_cons]
  split_ifs with hsteps
  · show List.foldl _ _ _ < index ↔ _
    rw [least_lt_iff, exists_mem_cons_iff, ← or_assoc, or_self]
  · have hrest : rest.map (fun blocks => (blocks.length : Int)) = [] := by
      rw [length_cons] at hsteps
      exact length_eq_zero_iff.mp (by omega)
    rw [hrest]
    simp

theorem sizes_eq_none_iff :
    b.sizes = .ok none ↔ ∃ blocks ∈ b.v.steps, (blocks.length : Int) < b.index := by
  rw [← blockCounters_fst_lt_iff b.v b.index b.timestep]
  constructor
  · intro h
    by_contra hle
    exact writeBlockSizes_of_le (not_lt.mp hle) _ h
  · exact fun h => writeBlockSizes_of_gt (not_le.mpr h) _

/-! ## Valid blocks -/

def number (b : BlockNumber) : Nat :=
  ((b.v.steps.take b.timestep.toNat).map List.length).sum + b.index.toNat

theorem foldl_nblocks (counter : Int) :
    (b.v.nblocks.take b.timestep.toNat).foldl (· + ·) counter =
      ((b.v.steps.take b.timestep.toNat).map List.length).sum + counter := by
  rw [QueryVarInfo.nblocks, ← map_take, foldl_add_length]

section Valid

variable (h : b.Valid)
include h

theorem Valid.toNat_eq_zero (hsteps : ¬1 < b.v.steps.length) : b.timestep.toNat = 0 := by
  obtain ⟨hstart, hstop, -⟩ := h
  omega

theorem Valid.blocksAt_eq :
    b.v.blocksAt b.timestep.toNat = b.v.steps.getD b.timestep.toNat [] := by
  unfold QueryVarInfo.blocksAt
  split_ifs with hsteps
  · rfl
  · -- the only step of a variable is the first one
    rw [h.toNat_eq_zero hsteps]
    cases b.v.steps <;> rfl

theorem Valid.blockCounters_eq : (blockCounters b.v.nblocks b.index b.timestep).2 = b.number := by
  obtain ⟨-, -, hindex, -⟩ := id h
  rw [blockCounters_snd, number]
  split_ifs with hsteps
  · omega
  · rw [h.toNat_eq_zero hsteps]
    simp only [take_zero, map_nil, sum_nil]
    omega

theorem Valid.exists_block : ∃ count, b.v.blockinfo[b.number]? = some count := by
  obtain ⟨hstart, -, hindex⟩ := id h
  rw [← h.blocksAt_eq] at hindex
  have hget := (QueryVarInfo.getElem?_blockinfo hindex).2
  rw [Int.toNat_of_nonneg hstart, h.blockCounters_eq] at hget
  exact ⟨_, hget⟩

theorem Valid.same : ∃ k < b.v.blockinfo.length,
    (blockCounters b.v.nblocks b.index b.timestep).2 = k ∧
    queryUtilsGetGlobalWriteBlockId b.index b.timestep b.v = k ∧
    b.varinfo.absoluteIndex b.index b.timestep = k ∧
    fastbitAbsBlockIdx b.v b.timestep b.index = .ok (k : Int) := by
  obtain ⟨count, hcount⟩ := h.exists_block
  obtain ⟨hstart, hstop, hindex, hlt⟩ := id h
  refine ⟨b.number, (List.getElem?_eq_some_iff.mp hcount).1, h.blockCounters_eq, ?_, ?_, ?_⟩
  · rw [queryUtilsGetGlobalWriteBlockId, foldl_nblocks, number]
    omega
  · -- both ranges are checked here
    have hblocks : (b.varinfo.nblocks.getD b.timestep.toNat 0 : Nat) =
        (b.v.steps.getD b.timestep.toNat []).length := by
      rw [varinfo, getD_eq_getElem?_getD, getElem?_map, getD_eq_getElem?_getD]
      cases b.v.steps[b.timestep.toNat]? <;> rfl
    have hsteps : b.varinfo.nblocks.length = b.v.steps.length := length_map _
    rw [WriteBlocks.Varinfo.absoluteIndex, hsteps, hblocks, if_neg (by omega), if_neg (by omega),
      number, varinfo, ← map_take]
    omega
  · have hsteps : b.v.nblocks.length = b.v.steps.length := length_map _
    rw [fastbitAbsBlockIdx, if_neg (by omega), foldl_nblocks, number]
    exact congrArg Except.ok (by omega)

theorem Valid.fastbitGetBlockSize :
    ∃ size, fastbitAdiosUtilGetBlockSize b.v b.timestep b.index = .ok size := by
  obtain ⟨k, hk, -, -, -, hfastbit⟩ := h.same
  unfold fastbitAdiosUtilGetBlockSize
  split_ifs
  · exact ⟨1, rfl⟩
  · rw [hfastbit]
    simp only [bind, Except.bind, if_neg (Int.not_lt.mpr (Int.natCast_nonneg k)), Int.toNat_natCast,
      getElem?_eq_getElem hk]
    exact ⟨_, rfl⟩

theorem Valid.checked : ∃ s, b.sizes = .ok s := by
  obtain ⟨hstart, -, hindex⟩ := id h
  rw [← h.blocksAt_eq] at hindex
  by_cases hleast : b.index ≤ (blockCounters b.v.nblocks b.index b.timestep).1
  · rw [← Int.toNat_of_nonneg hstart] at hleast
    obtain ⟨total, hsizes⟩ := writeBlockSizes_of_valid hindex hleast (b.v.typeSize, 1)
    rw [Int.toNat_of_nonneg hstart] at hsizes
    exact ⟨_, hsizes⟩
  · exact ⟨none, writeBlockSizes_of_gt hleast _⟩

end Valid

/-- Exactly then the four functions agree. -/
theorem blockNumbers_agree_iff (b : BlockNumber) : b.Agrees ↔ b.Clear := by
  constructor
  · intro h
    by_cases hvalid : b.Valid
    · exact .inl hvalid
    · exact .inr (sizes_eq_none_iff.mp (h.rejects hvalid))
  · intro h
    have hrejected (hnot : ¬b.Valid) : b.sizes = .ok none :=
      sizes_eq_none_iff.mpr (h.resolve_left hnot)
    refine ⟨fun hvalid _ => hvalid.same, hrejected, ?_, ?_⟩
    · by_cases hvalid : b.Valid
      · exact hvalid.checked
      · exact ⟨none, hrejected hvalid⟩
    · rintro ⟨s, hs⟩
      by_cases hvalid : b.Valid
      · exact hvalid.fastbitGetBlockSize
      · rw [hrejected hvalid] at hs
        cases hs

def secondOfOne : BlockNumber where
  v := ⟨8, [2], [[[2]]], by decide, by decide⟩
  timestep := 0
  index := 1
  total := by decide

/-- The index is one behind the last block, and is looked up. -/
theorem not_agrees_secondOfOne : ¬secondOfOne.Agrees := by
  intro h
  have hfault : secondOfOne.sizes = .error .outOfBounds := by decide
  obtain ⟨s, hs⟩ := h.checked
  rw [hfault] at hs
  cases hs

end BlockNumber

end Adios
