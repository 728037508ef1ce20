import Adios.Core.CopySpecAlgebra
import Adios.Heap.Writes

/-!
# Core — a subvolume moved to the beginning of its buffer

`compact_subvolume_ragged_offset` of `core/adios_subvolume.c`: the copy of a subvolume within one
buffer, where the rows come to lie one behind the other.
-/

namespace Adios.Compaction

open List CopySubvolume CopySpec Grid

/-! ## The code -/

/-- A dimension of the subvolume and of the buffer: `subv_dims`, `buf_dims`, `buf_subv_offsets`. -/
structure BufAxis where
  subv : UInt64
  buf : UInt64
  bufSubvOffset : UInt64

/-- "`subv_dims, subv_dims, zero, buf_dims, buf_subv_offsets`" -/
def BufAxis.toAxis (a : BufAxis) : Axis where
  subv := a.subv
  dst := a.subv
  dstOffset := 0
  src := a.buf
  srcOffset := a.bufSubvOffset

/-- A row that is copied within the buffer, byte by byte from the first one on; rows that do not
overlap come out the same in any order. -/
def moveRow (dst src n : UInt64) (buf : Memory) : Memory :=
  Heap.moveAll buf (Heap.forward dst.toNat src.toNat n.toNat)

/-- `copy_subvolume_ragged_offset_with_spec` with one buffer on both sides, and no swap. -/
def copyWithin (copySpec : SubvolumeCopySpec) (dstRaggedOffset srcRaggedOffset : UInt64)
    (elemType : Datatype) (buf : Memory) : Except Fault Memory := do
  if copySpec.axes.length < copySpec.ndim then throw .outOfBounds
  let axes := copySpec.axes.take copySpec.ndim
  let (buf, _) ← copyCollapsedBy moveRow elemType axes dstRaggedOffset srcRaggedOffset buf
    (lastNoncoveringDim axes)
  return buf

/-- `compact_subvolume_ragged_offset` -/
def compactSubvolumeRaggedOffset (buf : Memory) (axes : List BufAxis) (bufRaggedOffset : UInt64)
    (elemType : Datatype) : Except Fault Memory := do
  if ∃ a ∈ axes, ¬a.buf ≥ a.subv + a.bufSubvOffset then throw .assertion
  -- "`uint64_t zero[32]`", of which the first ndim are set
  if 32 < axes.length then throw .outOfBounds
  -- `adios_copyspec_init` asks for a dimension
  if axes = [] then throw .assertion
  let compactCopyspec := copyspecInit (axes.map BufAxis.toAxis)
  if ← copyspecIsNoop compactCopyspec then return buf
  else copyWithin compactCopyspec 0 bufRaggedOffset elemType buf

/-! ## What it is for -/

structure Call where
  buf : Memory
  axes : List BufAxis
  raggedOffset : UInt64
  elemType : Datatype
  bytes : UInt64
  numeric : elemType.IsNumeric
  ndim : axes ≠ [] ∧ axes.length ≤ 32
  fits : CopySubvolume.Fits (axes.map BufAxis.toAxis) Axis.src Axis.srcOffset raggedOffset bytes
    (getTypeSize elemType none).toNat

namespace Call

variable (c : Call)

def size : Nat := (getTypeSize c.elemType none).toNat

def subv : List Nat := subvolume (c.axes.map BufAxis.toAxis)

def srcPlace (p : List Nat) : Nat :=
  CopySubvolume.place Axis.src Axis.srcOffset (c.axes.map BufAxis.toAxis) p - c.raggedOffset.toNat

/-- The elements of the subvolume are one behind the other at the beginning of the buffer, as they
were, and nothing is changed behind them. -/
def Compacted : Prop :=
  ∃ out, compactSubvolumeRaggedOffset c.buf c.axes c.raggedOffset c.elemType = .ok out ∧
    (∀ p, Within p c.subv →
      element out c.size (linear c.subv p) = element c.buf c.size (c.srcPlace p)) ∧
    ∀ a : Int, a < 0 ∨ (volume c.subv * c.size : Nat) ≤ a → out a = c.buf a

/-- An `int` counts the rounds of each loop over rows that is reached. -/
def RowsCounted : Prop :=
  IntLoops (((c.axes.map BufAxis.toAxis).map Axis.subv).take
    (lastNoncoveringDim (c.axes.map BufAxis.toAxis)))

end Call

/-! ## The rows in their order -/

section

variable {outer rest : List Axis}

theorem pairwise_blocks (houter : ∀ a ∈ outer, a.dst = a.subv) (x y : Nat) :
    (blocks rest outer x y).Pairwise fun b b' => b.1 + volume (dims Axis.dst rest) ≤ b'.1 := by
  induction outer generalizing x y with
  | nil => exact pairwise_singleton _ _
  | cons a outer ih =>
    obtain ⟨-, houter⟩ := forall_mem_cons.mp houter
    have hdims : dims Axis.dst outer = subvolume outer :=
      congrArg (List.map UInt64.toNat) (map_congr_left houter)
    rw [blocks, pairwise_flatMap]
    refine ⟨fun i _ => ih houter _ _, pairwise_lt_range.imp fun {i j} hij b hb b' hb' => ?_⟩
    obtain ⟨q, hq, hx, -⟩ := mem_blocks.mp hb
    obtain ⟨q', -, hx', -⟩ := mem_blocks.mp hb'
    -- the last row of a round is before the first row of the next round
    have hlt := linear_lt hq
    rw [← hdims] at hlt
    have hround := Nat.mul_le_mul_right (volume (dims Axis.dst rest)) hlt
    have hstep := Nat.mul_le_mul_right (volume (dims Axis.dst (outer ++ rest))) hij
    rw [Nat.succ_mul] at hround hstep
    rw [volume_dims_append] at hx hx' hstep
    omega

end

namespace Call

variable (c : Call)

def toCopy : Copy where
  call := ⟨.little, c.elemType, .no, c.buf⟩
  axes := c.axes.map BufAxis.toAxis
  dstRaggedOffset := 0
  srcRaggedOffset := c.raggedOffset
  dst := c.buf
  dstBytes := c.bytes
  srcBytes := c.bytes
  numeric := c.numeric
  ne := by
    intro hnil
    exact c.ndim.1 (map_eq_nil_iff.mp hnil)
  dstFits := by
    refine fits_subvolume ?_ fun p hp => ?_
    · intro a ha
      obtain ⟨b, -, rfl⟩ := mem_map.mp ha
      exact ⟨rfl, rfl⟩
    · have hle := c.fits.linear_le hp
      have hbehind := c.fits.behind p hp
      exact Nat.le_trans (Nat.mul_le_mul_right _ (by omega)) (c.fits.room p hp)
  srcFits := c.fits

theorem dstPlace_toCopy {p : List Nat} (hp : Within p c.subv) :
    c.toCopy.dstPlace p = linear c.subv p := by
  refine congrArg (· - 0) (place_of_whole ?_ (length_of_within hp))
  intro a ha
  obtain ⟨b, -, rfl⟩ := mem_map.mp ha
  exact ⟨rfl, rfl⟩

def rowMoves (rest : List Axis) (b : Nat × Nat) : List (Int × Int) :=
  Heap.forward (pointer (getTypeSize c.elemType none) 0 b.1).toNat
    (pointer (getTypeSize c.elemType none) c.raggedOffset b.2).toNat
    (UInt64.ofNat (volume (subvolume rest)) * getTypeSize c.elemType none).toNat

def moves (outer rest : List Axis) : List (Int × Int) :=
  (blocks rest outer (linear (dims Axis.dst c.toCopy.axes) (dims Axis.dstOffset c.toCopy.axes))
    (linear (dims Axis.src c.toCopy.axes) (dims Axis.srcOffset c.toCopy.axes))).flatMap
      (c.rowMoves rest)

section

variable {c} {outer inner : List Axis} {a : Axis}

theorem rowMoves_eq (h : c.toCopy.axes = outer ++ a :: inner) (hcov : ∀ b ∈ inner, b.Covering)
    {q : List Nat} (hq : Within q (subvolume outer)) {b : Nat × Nat}
    (hx : b.1 = linear (dims Axis.dst c.toCopy.axes) (dims Axis.dstOffset c.toCopy.axes) +
      linear (dims Axis.dst outer) q * volume (dims Axis.dst (a :: inner)))
    (hy : b.2 = linear (dims Axis.src c.toCopy.axes) (dims Axis.srcOffset c.toCopy.axes) +
      linear (dims Axis.src outer) q * volume (dims Axis.src (a :: inner)))
    (hpos : 0 < volume (subvolume (a :: inner))) :
    b.1 ≤ b.2 - c.raggedOffset.toNat ∧
      c.rowMoves (a :: inner) b = Heap.forward (b.1 * c.size : Nat)
        ((b.2 - c.raggedOffset.toNat) * c.size : Nat)
        (volume (subvolume (a :: inner)) * c.size) ∧
      ∀ r, Within r (subvolume (a :: inner)) → Within (q ++ r) c.subv ∧
        linear c.subv (q ++ r) = b.1 + linear (subvolume (a :: inner)) r ∧
        c.srcPlace (q ++ r) = b.2 - c.raggedOffset.toNat + linear (subvolume (a :: inner)) r := by
  have hdst := c.toCopy.dstFits
  have hsrc := c.toCopy.srcFits
  rw [h] at hdst hsrc hx hy
  obtain ⟨hdstAddr, hbytes, hdstPlace⟩ :=
    hdst.at_block (fun b hb => ((hcov b hb).2.2.2).symm) hq hpos hx
  obtain ⟨hsrcAddr, -, hsrcPlace⟩ :=
    hsrc.at_block (fun b hb => ((hcov b hb).2.2.1).symm) hq hpos hy
  rw [← h] at hdstPlace hsrcPlace
  have hwithin : ∀ r, Within r (subvolume (a :: inner)) → Within (q ++ r) c.subv := fun r hr => by
    have happend := within_append hq hr
    rw [subvolume, subvolume, ← dims_append, ← h] at happend
    exact happend
  have hplaces : ∀ r, Within r (subvolume (a :: inner)) →
      linear c.subv (q ++ r) = b.1 + linear (subvolume (a :: inner)) r ∧
        c.srcPlace (q ++ r) = b.2 - c.raggedOffset.toNat + linear (subvolume (a :: inner)) r :=
    fun r hr => ⟨(c.dstPlace_toCopy (hwithin r hr)).symm.trans (hdstPlace r hr), hsrcPlace r hr⟩
  refine ⟨?_, ?_, fun r hr => ⟨hwithin r hr, hplaces r hr⟩⟩
  · -- the first element of the row
    have hr := within_coords hpos
    obtain ⟨hto, hfrom⟩ := hplaces _ hr
    have hle := c.fits.linear_le (hwithin _ hr)
    rw [linear_coords hpos] at hto hfrom
    have hle : linear c.subv _ ≤ c.srcPlace _ := hle
    rw [hto, hfrom] at hle
    exact hle
  · have hdstAddr : (pointer (getTypeSize c.elemType none) 0 b.1).toNat = b.1 * c.size := hdstAddr
    have hsrcAddr : (pointer (getTypeSize c.elemType none) c.raggedOffset b.2).toNat =
      (b.2 - c.raggedOffset.toNat) * c.size := hsrcAddr
    have hbytes : (UInt64.ofNat (volume (subvolume (a :: inner))) *
      getTypeSize c.elemType none).toNat = volume (subvolume (a :: inner)) * c.size := hbytes
    unfold rowMoves
    rw [hdstAddr, hsrcAddr, hbytes]

theorem rowMoves_of_zero {rest : List Axis} (hzero : volume (subvolume rest) = 0) (b : Nat × Nat) :
    c.rowMoves rest b = [] := by
  have hbytes : UInt64.ofNat 0 * getTypeSize c.elemType none = 0 := UInt64.zero_mul
  unfold rowMoves
  rw [hzero, hbytes]
  rfl

section

variable (h : c.toCopy.axes = outer ++ a :: inner) (hcov : ∀ b ∈ inner, b.Covering)

include h hcov

theorem mem_moves {m : Int × Int} :
    m ∈ c.moves outer (a :: inner) ↔ ∃ p, Within p c.subv ∧ ∃ j < c.size,
      m.1 = (linear c.subv p * c.size + j : Nat) ∧ m.2 = (c.srcPlace p * c.size + j : Nat) := by
  unfold moves
  rw [mem_flatMap]
  constructor
  · intro hex
    obtain ⟨b, hb, hm⟩ := hex
    obtain ⟨q, hq, hx, hy⟩ := mem_blocks.mp hb
    by_cases hpos : 0 < volume (subvolume (a :: inner))
    · obtain ⟨-, hrow, hplaces⟩ := rowMoves_eq h hcov hq hx hy hpos
      rw [hrow, Heap.mem_forward] at hm
      obtain ⟨k, hk, rfl⟩ := hm
      -- the element that the byte belongs to
      have hlt : k / c.size < volume (subvolume (a :: inner)) :=
        Nat.div_lt_of_lt_mul (by rw [Nat.mul_comm]; exact hk)
      obtain ⟨hp, hto, hfrom⟩ := hplaces _ (within_coords hlt)
      rw [linear_coords hlt] at hto hfrom
      have hdiv := Nat.div_add_mod' k c.size
      refine ⟨_, hp, k % c.size, Nat.mod_lt k (getTypeSize_pos c.numeric), ?_, ?_⟩
      · show ((b.1 * c.size : Nat) : Int) + k = _
        rw [hto, Nat.add_mul]
        omega
      · show (((b.2 - c.raggedOffset.toNat) * c.size : Nat) : Int) + k = _
        rw [hfrom, Nat.add_mul]
        omega
    · rw [rowMoves_of_zero (Nat.eq_zero_of_not_pos hpos)] at hm
      cases hm
  · intro hex
    obtain ⟨p, hp, j, hj, hto, hfrom⟩ := hex
    have hsplit : Within p (subvolume c.toCopy.axes) := hp
    rw [h, subvolume, dims_append] at hsplit
    obtain ⟨q, r, rfl, hq, hr⟩ := exists_of_within_append hsplit
    have hr : Within r (subvolume (a :: inner)) := hr
    have hpos := volume_pos_of_within hr
    obtain ⟨b, hx, hy⟩ : ∃ b : Nat × Nat,
        b.1 = linear (dims Axis.dst c.toCopy.axes) (dims Axis.dstOffset c.toCopy.axes) +
          linear (dims Axis.dst outer) q * volume (dims Axis.dst (a :: inner)) ∧
        b.2 = linear (dims Axis.src c.toCopy.axes) (dims Axis.srcOffset c.toCopy.axes) +
          linear (dims Axis.src outer) q * volume (dims Axis.src (a :: inner)) :=
      ⟨(_, _), rfl, rfl⟩
    refine ⟨b, mem_blocks.mpr ⟨q, hq, hx, hy⟩, ?_⟩
    obtain ⟨-, hrow, hplaces⟩ := rowMoves_eq h hcov hq hx hy hpos
    obtain ⟨-, hplaceTo, hplaceFrom⟩ := hplaces r hr
    have hlt := Nat.mul_le_mul_right c.size (linear_lt hr)
    rw [Nat.succ_mul] at hlt
    rw [hrow, Heap.mem_forward]
    refine ⟨linear (subvolume (a :: inner)) r * c.size + j, by omega, Prod.ext ?_ ?_⟩
    · rw [hto, hplaceTo, Nat.add_mul]
      push_cast
      omega
    · rw [hfrom, hplaceFrom, Nat.add_mul]
      push_cast
      omega

theorem pairwise_moves :
    (c.moves outer (a :: inner)).Pairwise fun m m' => m.1 < m'.1 := by
  have hwhole : ∀ b ∈ c.toCopy.axes, b.dst = b.subv := by
    intro b hb
    obtain ⟨b, -, rfl⟩ := mem_map.mp hb
    rfl
  rw [h] at hwhole
  have hrest : volume (dims Axis.dst (a :: inner)) = volume (subvolume (a :: inner)) :=
    congrArg volume (congrArg (List.map UInt64.toNat)
      (map_congr_left fun b hb => hwhole b (mem_append_right _ hb)))
  unfold moves
  rw [pairwise_flatMap]
  constructor
  · intro b _
    exact Heap.pairwise_forward _ _ _
  · refine List.Pairwise.imp_of_mem ?_
      (pairwise_blocks (fun b hb => hwhole b (mem_append_left _ hb)) _ _)
    intro b b' hb hb' hle m hm m' hm'
    by_cases hpos : 0 < volume (subvolume (a :: inner))
    · obtain ⟨q, hq, hx, hy⟩ := mem_blocks.mp hb
      obtain ⟨q', hq', hx', hy'⟩ := mem_blocks.mp hb'
      obtain ⟨-, hrow, -⟩ := rowMoves_eq h hcov hq hx hy hpos
      obtain ⟨-, hrow', -⟩ := rowMoves_eq h hcov hq' hx' hy' hpos
      rw [hrow, Heap.mem_forward] at hm
      rw [hrow', Heap.mem_forward] at hm'
      obtain ⟨k, hk, rfl⟩ := hm
      obtain ⟨k', -, rfl⟩ := hm'
      -- a row ends before the next one starts
      have hends := Nat.mul_le_mul_right c.size hle
      rw [hrest, Nat.add_mul] at hends
      show ((b.1 * c.size : Nat) : Int) + k < ((b'.1 * c.size : Nat) : Int) + k'
      omega
    · rw [rowMoves_of_zero (Nat.eq_zero_of_not_pos hpos)] at hm
      cases hm

theorem compacted_moves :
    (∀ p, Within p c.subv →
      element (Heap.moveAll c.buf (c.moves outer (a :: inner))) c.size (linear c.subv p) =
        element c.buf c.size (c.srcPlace p)) ∧
      ∀ x : Int, x < 0 ∨ (volume c.subv * c.size : Nat) ≤ x →
        Heap.moveAll c.buf (c.moves outer (a :: inner)) x = c.buf x := by
  have hle : ∀ m ∈ c.moves outer (a :: inner), m.1 ≤ m.2 := by
    intro m hm
    obtain ⟨p, hp, j, -, hto, hfrom⟩ := (mem_moves h hcov).mp hm
    have hplace : linear c.subv p ≤ c.srcPlace p := c.fits.linear_le hp
    have hmul := Nat.mul_le_mul_right c.size hplace
    rw [hto, hfrom]
    omega
  constructor
  · intro p hp
    refine map_congr_left fun j hj => ?_
    have hmem : (((linear c.subv p * c.size + j : Nat) : Int),
        ((c.srcPlace p * c.size + j : Nat) : Int)) ∈ c.moves outer (a :: inner) :=
      (mem_moves h hcov).mpr ⟨p, hp, j, mem_range.mp hj, rfl, rfl⟩
    exact Heap.moveAll_of_mem (pairwise_moves h hcov) hle hmem
  · intro x hx
    refine Heap.moveAll_of_ne fun m hm hmx => ?_
    obtain ⟨p, hp, j, hj, hto, -⟩ := (mem_moves h hcov).mp hm
    have hlt := Nat.mul_le_mul_right c.size (linear_lt hp)
    rw [Nat.succ_mul] at hlt
    omega

end

end

/-! ## The result -/

theorem isNoop_iff (c : Call) : copyspecIsNoop (copyspecInit c.toCopy.axes) =
    .ok (decide (∀ a ∈ c.toCopy.axes, a.Covering)) := by
  have hlen : c.toCopy.axes.length < 268435456 := by
    have hle := c.ndim.2
    show (c.axes.map BufAxis.toAxis).length < _
    rw [length_map]
    omega
  have hsize := dimsize_eq hlen
  rw [copyspecIsNoop_eq (by omega), decide_eq_decide.mpr ?_]
  constructor
  · intro hsame a ha
    have htake : c.toCopy.axes.take ((dimsize c.toCopy.axes.length).toNat / 8) = c.toCopy.axes := by
      refine take_of_length_le ?_
      omega
    obtain ⟨hdims, hoffsets⟩ := hsame
    rw [htake] at hdims
    obtain ⟨hsubv, hsrc⟩ := hdims a ha
    exact ⟨(hoffsets a ha).2, (hoffsets a ha).1, hsubv, hsubv.trans hsrc⟩
  · exact compared_of_covering

theorem copyWithin_copyspecInit (axes : List Axis) (dstRagged srcRagged : UInt64)
    (elemType : Datatype) (buf : Memory) :
    copyWithin (copyspecInit axes) dstRagged srcRagged elemType buf =
      (copyCollapsedBy moveRow elemType axes dstRagged srcRagged buf
        (lastNoncoveringDim axes)).map Prod.fst := by
  have hroom : ¬axes.length < (copyspecInit axes).ndim := Nat.lt_irrefl _
  have htake : axes.take (copyspecInit axes).ndim = axes := take_length
  unfold copyWithin
  rw [axes_copyspecInit]
  dsimp only
  rw [if_neg hroom, htake]
  cases copyCollapsedBy moveRow elemType axes dstRagged srcRagged buf
      (lastNoncoveringDim axes) with
  | error _ => rfl
  | ok r => rfl

theorem srcPlace_of_covering {c : Call} (h : ∀ a ∈ c.toCopy.axes, a.Covering) {p : List Nat}
    (hp : Within p c.subv) : c.srcPlace p = linear c.subv p := by
  have hwhole : ∀ {q : List Nat}, Within q c.subv →
      CopySubvolume.place Axis.src Axis.srcOffset (c.axes.map BufAxis.toAxis) q =
        linear c.subv q := fun {q} hq =>
    place_of_whole (fun a ha => ⟨(h a ha).2.2.1.symm, (h a ha).1⟩) (length_of_within hq)
  have hpos := volume_pos_of_within hp
  have hfirst := within_coords hpos
  have hbehind := c.fits.behind _ hfirst
  have hbehind : _ ≤ CopySubvolume.place _ _ _ (coords c.subv 0) := hbehind
  rw [hwhole hfirst, linear_coords hpos] at hbehind
  unfold srcPlace
  rw [hwhole hp]
  omega

theorem compact_eq (c : Call) :
    compactSubvolumeRaggedOffset c.buf c.axes c.raggedOffset c.elemType =
      if ∀ a ∈ c.toCopy.axes, a.Covering then .ok c.buf
      else (copyCollapsedBy moveRow c.elemType c.toCopy.axes 0 c.raggedOffset c.buf
        (lastNoncoveringDim c.toCopy.axes)).map Prod.fst := by
  have hasserted : ¬∃ a ∈ c.axes, ¬a.buf ≥ a.subv + a.bufSubvOffset := by
    intro hex
    obtain ⟨a, ha, hnot⟩ := hex
    have hinside : a.bufSubvOffset.toNat + a.subv.toNat ≤ a.buf.toNat :=
      c.fits.inside a.toAxis (mem_map_of_mem ha)
    have hlt := a.buf.toNat_lt
    refine hnot (UInt64.le_iff_toNat_le.mpr ?_)
    rw [UInt64.toNat_add]
    omega
  have hroom : ¬32 < c.axes.length := Nat.not_lt.mpr c.ndim.2
  have hnoop : copyspecIsNoop (copyspecInit (c.axes.map BufAxis.toAxis)) = _ := c.isNoop_iff
  unfold compactSubvolumeRaggedOffset
  dsimp only
  rw [if_neg hasserted, if_neg hroom, if_neg c.ndim.1, hnoop, ok_bind]
  by_cases hall : ∀ a ∈ c.toCopy.axes, a.Covering
  · rw [decide_eq_true hall, if_pos hall]
    rfl
  · rw [decide_eq_false hall, if_neg hall, if_neg Bool.false_ne_true]
    exact copyWithin_copyspecInit _ _ _ _ _

theorem rowsCounted_of_compacted {c : Call} (h : c.Compacted) : c.RowsCounted := by
  obtain ⟨out, hrun, -⟩ := h
  rw [compact_eq] at hrun
  by_cases hall : ∀ a ∈ c.toCopy.axes, a.Covering
  · -- there is no loop
    have hlast : lastNoncoveringDim (c.axes.map BufAxis.toAxis) = 0 :=
      lastNoncoveringDim_of_covering hall
    unfold RowsCounted
    rw [hlast]
    trivial
  · rw [if_neg hall] at hrun
    cases hok : copyCollapsedBy moveRow c.elemType c.toCopy.axes 0 c.raggedOffset c.buf
        (lastNoncoveringDim c.toCopy.axes) with
    | error e =>
      rw [hok] at hrun
      cases hrun
    | ok r => exact (conditions_of_collapsed hok).2

theorem compacted_of_rowsCounted {c : Call} (h : c.RowsCounted) : c.Compacted := by
  unfold Compacted
  rw [compact_eq]
  by_cases hall : ∀ a ∈ c.toCopy.axes, a.Covering
  · rw [if_pos hall]
    refine ⟨c.buf, rfl, fun p hp => ?_, fun _ _ => rfl⟩
    rw [srcPlace_of_covering hall hp]
  · have hne := length_pos_iff.mpr c.toCopy.ne
    have hlast : lastNoncoveringDim c.toCopy.axes < c.toCopy.axes.length := by
      have hlt := lastNoncoveringLoop_lt 0 0 c.toCopy.axes (by omega)
      rwa [Nat.zero_add] at hlt
    have hroom : c.toCopy.axes.length ≤ strideRoom := by
      have hle := c.ndim.2
      show (c.axes.map BufAxis.toAxis).length ≤ 32
      rwa [length_map]
    obtain ⟨outer, a, inner, haxes, hlen, hsubv, hcov⟩ :=
      c.toCopy.exists_split (Nat.le_refl _) hlast
    have hloops : IntLoops (outer.map Axis.subv) := hsubv ▸ h
    have hrun := @copyCollapsedBy_eq 0 c.raggedOffset moveRow c.elemType _ _ _ _ haxes hroom
      hloops c.buf
    obtain ⟨helements, hframe⟩ := compacted_moves haxes hcov
    refine ⟨Heap.moveAll c.buf (c.moves outer (a :: inner)), ?_, helements, hframe⟩
    rw [if_neg hall, ← hlen, hrun]
    unfold moves
    rw [Heap.moveAll_flatMap]
    rfl

/-- **Compaction.** The subvolume is moved to the beginning exactly when an `int` counts the rows. -/
theorem compacted_iff (c : Call) : c.Compacted ↔ c.RowsCounted :=
  ⟨rowsCounted_of_compacted, compacted_of_rowsCounted⟩

def firstColumn : List BufAxis := [⟨2147483649, 2147483649, 0⟩, ⟨1, 2, 0⟩]

def compactColumn : Call where
  buf := fun a => a.toNat.toUInt8
  axes := firstColumn
  raggedOffset := 0
  elemType := .byte
  bytes := 4294967298
  numeric := by decide
  ndim := by decide
  fits := {
    inside := by
      intro a ha
      rcases mem_cons.mp ha with rfl | ha
      · decide
      · rw [mem_singleton.mp ha]
        decide
    behind := fun _ _ => Nat.zero_le _
    room := by
      intro p hp
      cases hp with
      | @cons i _ p _ hi hp =>
        cases hp with
        | @cons j _ p _ hj hp =>
          cases hp
          have hi : i < 2147483649 := hi
          have hj : j < 1 := hj
          show ((0 + i) * (2 * 1) + ((0 + j) * 1 + 0) + 1 - 0) * 1 ≤ 4294967298
          omega }

/-- The rows are counted with an `int`. -/
theorem not_compacted_column : ¬compactColumn.Compacted := by
  intro h
  have hrows := rowsCounted_of_compacted h
  have hlt : (2147483649 : UInt64).toNat < 2147483648 := hrows.1
  exact absurd hlt (by decide)

end Call

end Adios.Compaction
