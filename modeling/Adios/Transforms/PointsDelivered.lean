import Adios.Heap.Slots
import Adios.Transforms.GlobalRead
import Adios.Lists.Results

/-!
# Transforms — when points get to the user
-/

namespace Adios.Transforms

open List CopySubvolume PatchData Selections Sieving Subvolume WriteBlocks

/-! ## The statement -/

structure PointsRead where
  v : Variable
  host : Wire.Endian
  swapEndianness : Flag
  mallocZero : Bool
  sieve : Bool
  pts : Points
  timestep : Nat
  step : timestep < v.nblocks.length
  /-- The points are in their array. -/
  array : InArray pts
  ndim : 0 < pts.ndim
  /-- The blocks of the step are boxes of the array. -/
  global : ∀ i < v.nblocks.getD timestep 0,
    (v.bounds ((v.nblocks.take timestep).sum + i)).length = pts.ndim ∧
      Ends (v.bounds ((v.nblocks.take timestep).sum + i))
  /-- The bytes in the user's buffer can be counted. -/
  bytes : pts.npoints * v.size < 18446744073709551616

namespace PointsRead

variable (s : PointsRead)

def toGlobalRead : GlobalRead :=
  ⟨s.v, s.host, s.swapEndianness, s.mallocZero, s.sieve, .points s.pts, s.timestep, 1⟩

def blocks : List Nat :=
  (List.range (s.v.nblocks.getD s.timestep 0)).map ((s.v.nblocks.take s.timestep).sum + ·)

def Covers (b : Nat) (p : List Nat) : Prop := Elements (s.v.bounds b) p

instance (b : Nat) (p : List Nat) : Decidable (s.Covers b p) :=
  inferInstanceAs (Decidable (Elements _ _))

def Touches (b : Nat) : Prop := ∃ p ∈ places s.pts, s.Covers b p

instance (b : Nat) : Decidable (s.Touches b) := inferInstanceAs (Decidable (∃ p ∈ _, _))

def touched : List Nat := s.blocks.filter s.Touches

def moved (e : List UInt8) : List UInt8 :=
  if s.swapEndianness = .yes then byteSwapped s.v.origType e else e

/-- Whatever is stored and whatever is in memory, and in whatever order the process groups complete:
at the place of a point in the user's buffer is its element of a block that covers it; what is not
the place of a point with such a block has not changed. -/
def Delivered : Prop :=
  ∀ (stored around : Contents) (userBuffer : Memory) (order : List Nat),
    order.Perm (List.range s.touched.length) →
    ∃ out, s.toGlobalRead.run stored around order userBuffer = .ok out ∧
      (∀ k p, (places s.pts)[k]? = some p → (∃ b ∈ s.blocks, s.Covers b p) →
        ∃ b ∈ s.blocks, s.Covers b p ∧ element out s.v.size k =
          s.moved (element (stored b) s.v.size
            (Grid.place ((s.v.bounds b).map Segment.span) p))) ∧
      ∀ a : Int, (∀ k p, (places s.pts)[k]? = some p → (∃ b ∈ s.blocks, s.Covers b p) →
        a < (k * s.v.size : Nat) ∨ ((k + 1) * s.v.size : Nat) ≤ a) → out a = userBuffer a

/-- No block covers a point; or the reads sieve, the points have at most as many coordinates as
`tmp_point` has room for, and the bytes of an element need not be swapped. -/
def Clear : Prop :=
  (∀ b ∈ s.blocks, ¬s.Touches b) ∨
    s.sieve = true ∧ s.pts.ndim ≤ Sieving.maxDims ∧ (s.swapEndianness ≠ .yes ∨ s.v.size = 1)

/-! ## What a block has of the points -/

variable {s} {b : Nat}

theorem exists_of_mem_blocks (h : b ∈ s.blocks) :
    ∃ i < s.v.nblocks.getD s.timestep 0, b = (s.v.nblocks.take s.timestep).sum + i := by
  obtain ⟨i, hi, rfl⟩ := mem_map.mp h
  exact ⟨i, mem_range.mp hi, rfl⟩

theorem lt_of_mem_blocks (h : b ∈ s.blocks) : b < s.v.nblocks.sum := by
  obtain ⟨i, hi, rfl⟩ := exists_of_mem_blocks h
  exact Variable.block_lt hi

theorem bounds_of_mem_blocks (h : b ∈ s.blocks) :
    (s.v.bounds b).length = s.pts.ndim ∧ Ends (s.v.bounds b) := by
  obtain ⟨i, hi, rfl⟩ := exists_of_mem_blocks h
  exact s.global i hi

theorem generate_of_not_touches (h : b ∈ s.blocks) (hno : ¬s.Touches b) :
    s.toGlobalRead.generateReadRequestForPg s.timestep b = .ok none := by
  obtain ⟨hlen, hends⟩ := bounds_of_mem_blocks h
  have hnone : intersectBbPts s.mallocZero (s.v.bounds b) s.pts = .ok none :=
    intersectBbPts_eq_none hends s.array hlen fun hex => by
      obtain ⟨p, hbox, hpoint⟩ := hex
      exact hno ⟨p, hpoint, hbox⟩
  unfold GlobalRead.generateReadRequestForPg
  have hblock : s.toGlobalRead.v.varblock (b : Nat) = .ok (s.v.bounds b) :=
    Variable.varblock_eq (lt_of_mem_blocks h)
  have hinter : intersectGlobal s.toGlobalRead.mallocZero (.boundingBox (s.v.bounds b))
      s.toGlobalRead.sel = .ok none := hnone
  rw [hblock, ok_bind, hinter]
  rfl

def pgReadRequest (s : PointsRead) (b : Nat) (ps : List (List UInt64)) : PgReadRequest :=
  ⟨s.timestep, b, s.v.rawVarLength b, .points ⟨s.pts.ndim, ps.length, ps.flatten⟩, s.v.bounds b⟩

theorem exists_generate_of_touches (h : b ∈ s.blocks) (htouches : s.Touches b) :
    ∃ ps, (∀ p, p ∈ ps ↔ p ∈ chunks s.pts.ndim s.pts.npoints s.pts.points ∧
        s.Covers b (p.map UInt64.toNat)) ∧ ps ≠ [] ∧
      s.toGlobalRead.generateReadRequestForPg s.timestep b =
        ((s.pgReadRequest b ps).generateReadSubrequests s.sieve s.v.origType).map fun subreqs =>
          some (s.pgReadRequest b ps, subreqs) := by
  obtain ⟨hlen, hends⟩ := bounds_of_mem_blocks h
  obtain ⟨p, hp, hcovers⟩ := htouches
  obtain ⟨q, hq, rfl⟩ := mem_map.mp hp
  have hpos : 0 < s.pts.npoints * s.pts.ndim := by
    refine Nat.mul_pos (Nat.pos_of_ne_zero fun hzero => ?_) s.ndim
    rw [hzero] at hq
    cases hq
  obtain ⟨ps, hps, -, hinter⟩ := @intersectBbPts_eq s.mallocZero _ _ hends s.array hlen hpos
  have hne : ps ≠ [] := ne_nil_of_mem ((hps q).mpr ⟨hq, hcovers⟩)
  refine ⟨ps, hps, hne, ?_⟩
  have hblock : s.toGlobalRead.v.varblock (b : Nat) = .ok (s.v.bounds b) :=
    Variable.varblock_eq (lt_of_mem_blocks h)
  have hinter : intersectGlobal s.toGlobalRead.mallocZero (.boundingBox (s.v.bounds b))
      s.toGlobalRead.sel = .ok (some (.points ⟨s.pts.ndim, ps.length, ps.flatten⟩)) :=
    hinter.trans (congrArg Except.ok (if_neg hne))
  unfold GlobalRead.generateReadRequestForPg
  rw [hblock, ok_bind, hinter, ok_bind]
  show (PgReadRequest.generateReadSubrequests (s.pgReadRequest b ps) s.sieve s.v.origType >>=
    fun subreqs => Except.ok (some (s.pgReadRequest b ps, subreqs))) = _
  cases (s.pgReadRequest b ps).generateReadSubrequests s.sieve s.v.origType <;> rfl

/-! ## A sieving read -/

section

variable {ps : List (List UInt64)} (h : b ∈ s.blocks)
  (hps : ∀ p, p ∈ ps ↔ p ∈ chunks s.pts.ndim s.pts.npoints s.pts.points ∧
    s.Covers b (p.map UInt64.toNat)) (hne : ps ≠ [])

include hps

theorem length_of_mem {p : List UInt64} (hp : p ∈ ps) : p.length = s.pts.ndim :=
  length_of_mem_chunks s.array ((hps p).mp hp).1

theorem has_iff (p : List Nat) :
    Selections.Selection.Has (.points ⟨s.pts.ndim, ps.length, ps.flatten⟩) p ↔
      p ∈ places s.pts ∧ s.Covers b p := by
  show p ∈ (chunks s.pts.ndim ps.length ps.flatten).map (List.map UInt64.toNat) ↔ _
  rw [places, chunks_flatten fun p hp => length_of_mem hps hp, mem_map, mem_map]
  constructor
  · intro hex
    obtain ⟨q, hq, rfl⟩ := hex
    obtain ⟨hq, hcovers⟩ := (hps q).mp hq
    exact ⟨⟨q, hq, rfl⟩, hcovers⟩
  · intro hex
    obtain ⟨⟨q, hq, rfl⟩, hcovers⟩ := hex
    exact ⟨q, (hps q).mpr ⟨hq, hcovers⟩, rfl⟩

include h hne

def selected : Selected where
  pgbb := s.v.bounds b
  sel := .points ⟨s.pts.ndim, ps.length, ps.flatten⟩
  fits := Variable.volume_lt (lt_of_mem_blocks h)
  within := ⟨length_flatten fun p hp => length_of_mem hps hp,
    fun p hp => ((has_iff hps p).mp hp).2⟩
  some := by
    obtain ⟨p, hp⟩ := exists_mem_of_ne_nil ps hne
    obtain ⟨hmem, hcovers⟩ := (hps p).mp hp
    exact ⟨_, _, (has_iff hps _).mpr ⟨mem_map_of_mem hmem, hcovers⟩, rfl⟩

theorem exists_sieving (hsieve : s.sieve = true) (hroom : s.pts.ndim ≤ Sieving.maxDims) :
    ∃ startOff endOff : UInt64, startOff.toNat < endOff.toNat ∧
      endOff.toNat ≤ s.v.volume b ∧
      (∀ p ∈ places s.pts, s.Covers b p →
        startOff.toNat ≤ Grid.place ((s.v.bounds b).map Segment.span) p ∧
          Grid.place ((s.v.bounds b).map Segment.span) p < endOff.toNat) ∧
      (s.pgReadRequest b ps).generateReadSubrequests s.sieve s.v.origType =
        .ok (.sieving ⟨startOff * getTypeSize s.v.origType none,
          (endOff - startOff) * getTypeSize s.v.origType none, startOff⟩) := by
  have hlt := lt_of_mem_blocks h
  obtain ⟨startOff, endOff, hcompute, hrange, -, ⟨last, hend, hlast⟩, hle⟩ :=
    @Selected.sieved_points (selected h hps hne) _ rfl (by
      show (s.v.bounds b).length ≤ Sieving.maxDims
      rw [(bounds_of_mem_blocks h).1]
      exact hroom)
  have hle : endOff.toNat ≤ s.v.volume b := hle
  have hstart := (hrange last hlast).1
  have hlt' : startOff.toNat < endOff.toNat := by omega
  refine ⟨startOff, endOff, hlt', hle, fun p hp hcovers => ?_, ?_⟩
  · exact hrange _ ⟨p, (has_iff hps p).mpr ⟨hp, hcovers⟩, rfl⟩
  · have hgenerate := @PgReadRequest.generateSieving_eq s.v b (s.pgReadRequest b ps) startOff
      endOff hlt rfl hcompute (Nat.le_of_lt hlt') hle
    show (if s.sieve = true then Except.map Subreqs.sieving
      ((s.pgReadRequest b ps).generateSieving s.v.origType) else _) = _
    rw [if_pos hsieve, hgenerate]
    rfl

end

/-! ## What a process group brings -/

def Brings (s : PointsRead) (b : Nat) (pg : PgReadRequest × Subreqs) : Prop :=
  ∀ (stored around : Contents) (mem : Memory), ∃ out,
    s.toGlobalRead.complete stored around pg mem = .ok out ∧
    (∀ k p, (places s.pts)[k]? = some p → s.Covers b p → element out s.v.size k =
      element (stored b) s.v.size (Grid.place ((s.v.bounds b).map Segment.span) p)) ∧
    ∀ a : Int, (∀ k p, (places s.pts)[k]? = some p → s.Covers b p →
      a < (k * s.v.size : Nat) ∨ ((k + 1) * s.v.size : Nat) ≤ a) → out a = mem a

theorem lt_of_places {k : Nat} {p : List Nat} (h : (places s.pts)[k]? = some p) :
    k < s.pts.npoints := by
  obtain ⟨hlt, -⟩ := List.getElem?_eq_some_iff.mp h
  rwa [places, length_map, length_chunks] at hlt

theorem succ_mul_lt {k n size bound : Nat} (hk : k < n) (h : n * size < bound) :
    (k + 1) * size < bound :=
  Nat.lt_of_le_of_lt (Nat.mul_le_mul_right size hk) h

theorem brings_of_sieving {ps : List (List UInt64)} (h : b ∈ s.blocks)
    {startOff endOff : UInt64} (hlt : startOff.toNat < endOff.toNat)
    (hle : endOff.toNat ≤ s.v.volume b)
    (hrange : ∀ p ∈ places s.pts, s.Covers b p →
      startOff.toNat ≤ Grid.place ((s.v.bounds b).map Segment.span) p ∧
        Grid.place ((s.v.bounds b).map Segment.span) p < endOff.toNat) :
    s.Brings b (s.pgReadRequest b ps, .sieving ⟨startOff * getTypeSize s.v.origType none,
      (endOff - startOff) * getTypeSize s.v.origType none, startOff⟩) := by
  intro stored around mem
  have hblock := lt_of_mem_blocks h
  obtain ⟨hlen, hends⟩ := bounds_of_mem_blocks h
  have hvolume := Variable.volume_mul_size_lt hblock
  let datablock := s.v.sievedBlock s.timestep b startOff endOff stored
  -- the bytes of the elements are moved without a swap
  let patch : PlainPatch := {
    call := ⟨s.host, s.v.origType, .no, datablock.memory (around b)⟩
    dst := mem
    dstRaggedOffset := 0
    srcRaggedOffset := startOff
    pairing := .bbToPts s.pts (s.v.bounds b)
    numeric := s.v.numeric
    global := ⟨hends, s.array, hlen.symm⟩
    dstBytes := fun p n hn => succ_mul_lt (lt_of_places hn) s.bytes
    srcBytes := fun p n hn => succ_mul_lt (hn.2 ▸ Grid.place_lt hn.1) hvolume
    behind := fun p d n hd hn =>
      ⟨Nat.zero_le d, hn.2 ▸ (hrange p (mem_of_getElem? hd) hn.1).1⟩
    plain := Or.inl fun hc => (by cases hc) }
  have hserved : patch.Patched := patch.served
  obtain ⟨out, count, hrun, helements, hframe, -⟩ := hserved
  have hpatch : patchDataToGlobal s.mallocZero
      ⟨s.host, s.v.origType, s.swapEndianness, datablock.memory (around b)⟩ mem 0 (.points s.pts)
      startOff (s.v.bounds b) = .ok out := by
    have hrun : patchDataBbToPts ⟨s.host, s.v.origType, s.swapEndianness,
        datablock.memory (around b)⟩ mem 0 s.pts startOff (s.v.bounds b) = .ok (out, count) := hrun
    rw [patchDataToGlobal, hrun]
    rfl
  refine ⟨out, ?_, fun k p hk hcovers => ?_, fun a hout => ?_⟩
  · have hdistance : UInt64.ofNat (s.timestep - s.timestep) * s.toGlobalRead.selectionSizeInBytes =
        0 := by
      rw [Nat.sub_self]
      exact UInt64.zero_mul
    show ((s.pgReadRequest b ps).completed s.mallocZero stored _ >>= fun datablock =>
      s.toGlobalRead.applyDatablockToResult (around b) datablock mem) = _
    rw [PgReadRequest.completed_sieving rfl hblock hlt hle, ok_bind]
    show (s.v.varblock (b : Nat) >>= fun bounds => atDistance (UInt64.ofNat
      (s.timestep - s.timestep) * s.toGlobalRead.selectionSizeInBytes) (fun outputBuffer =>
        patchDataToGlobal s.mallocZero ⟨s.host, s.v.origType, s.swapEndianness,
          datablock.memory (around b)⟩ outputBuffer 0 (.points s.pts) startOff bounds) mem) = _
    rw [Variable.varblock_eq hblock, ok_bind, hdistance, atDistance_zero, hpatch]
  · obtain ⟨n, hn, hmoved⟩ := helements p k hk ⟨_, hcovers, rfl⟩
    have hn := hn.2
    subst hn
    obtain ⟨hle', hlt'⟩ := hrange p (mem_of_getElem? hk) hcovers
    exact Eq.trans hmoved (Variable.element_sievedBlock stored (around b) hle' hlt')
  · refine hframe a fun p k n hk hn => ?_
    exact hout k p hk hn.1

/-! ## All process groups -/

theorem populateReadRequest_eq (s : PointsRead) : s.toGlobalRead.populateReadRequest =
    s.blocks.mapM (s.toGlobalRead.generateReadRequestForPg s.timestep) >>=
      fun pgs => .ok pgs.reduceOption := by
  have hpositions := @positions_eq s.v.nblocks s.timestep (s.v.nblocks.take s.timestep).sum 0
    (s.v.nblocks.getD s.timestep 0) (Nat.zero_add _)
  have hrequests := @GlobalRead.populateReadRequest_eq s.toGlobalRead Nat.one_pos s.step
  have hleft : (s.v.nblocks.take (s.timestep + 1)).sum - (s.v.nblocks.take s.timestep).sum =
      s.v.nblocks.getD s.timestep 0 := by
    rw [sum_take_succ, Nat.add_sub_cancel_left]
  refine hrequests.trans ?_
  show (positions s.v.nblocks ((s.v.nblocks.take (s.timestep + 1)).sum -
    (s.v.nblocks.take s.timestep).sum) (s.v.nblocks.take s.timestep).sum s.timestep 0).mapM _ >>= _
      = _
  rw [hleft]
  show (positions s.v.nblocks _ ((s.v.nblocks.take s.timestep).sum + 0) _ _).mapM _ >>= _ = _
  rw [hpositions, blocks, mapM_map, mapM_map, range_eq_range']
  rfl

theorem exists_requests (hsieve : s.sieve = true) (hroom : s.pts.ndim ≤ Sieving.maxDims) :
    ∃ pgs, s.toGlobalRead.populateReadRequest = .ok pgs ∧
      Forall₂ (fun pg b => s.Brings b pg) pgs s.touched := by
  obtain ⟨rs, hrs, hall⟩ := @Lists.exists_mapM Nat _ Fault
    (s.toGlobalRead.generateReadRequestForPg s.timestep) (fun r b => b ∈ s.blocks ∧
      if s.Touches b then ∃ pg, r = some pg ∧ s.Brings b pg else r = none) s.blocks fun b hb => by
    by_cases htouches : s.Touches b
    · obtain ⟨ps, hps, hne, hgenerate⟩ := exists_generate_of_touches hb htouches
      obtain ⟨startOff, endOff, hlt, hle, hrange, hsub⟩ := exists_sieving hb hps hne hsieve hroom
      rw [hsub] at hgenerate
      exact ⟨_, hgenerate, hb, (if_pos htouches).mpr
        ⟨_, rfl, brings_of_sieving hb hlt hle hrange⟩⟩
    · exact ⟨none, generate_of_not_touches hb htouches, hb, (if_neg htouches).mpr rfl⟩
  exact ⟨_, by rw [populateReadRequest_eq, hrs]; rfl,
    Lists.forall₂_reduceOption (hall.imp fun _ _ h => h.2)⟩

section

variable {pgs : List (PgReadRequest × Subreqs)} {bs : List Nat}

def CoveredBy (s : PointsRead) (bs order : List Nat) (p : List Nat) (b : Nat) : Prop :=
  ∃ i ∈ order, bs[i]? = some b ∧ s.Covers b p

theorem exists_run (hpgs : Forall₂ (fun pg b => s.Brings b pg) pgs bs) {order : List Nat}
    (horder : ∀ i ∈ order, i < bs.length) (stored around : Contents) (mem : Memory) :
    ∃ out, order.foldlM (s.toGlobalRead.completeAt stored around pgs) mem = .ok out ∧
      (∀ k p, (places s.pts)[k]? = some p → (∃ b, s.CoveredBy bs order p b) →
        ∃ b, s.CoveredBy bs order p b ∧ element out s.v.size k =
          element (stored b) s.v.size (Grid.place ((s.v.bounds b).map Segment.span) p)) ∧
      ∀ a : Int, (∀ k p b, (places s.pts)[k]? = some p → s.CoveredBy bs order p b →
        a < (k * s.v.size : Nat) ∨ ((k + 1) * s.v.size : Nat) ≤ a) → out a = mem a := by
  have hfills : ∀ i ∈ order, Heap.Fills s.v.size
      (fun mem => s.toGlobalRead.completeAt stored around pgs mem i) fun k e => ∃ p b,
        (places s.pts)[k]? = some p ∧ bs[i]? = some b ∧ s.Covers b p ∧
          e = element (stored b) s.v.size (Grid.place ((s.v.bounds b).map Segment.span) p) := by
    intro i hi mem
    have hlt := horder i hi
    have hlen := hpgs.length_eq
    have hpg : pgs[i]? = some pgs[i] := getElem?_eq_getElem (by omega)
    have hb : bs[i]? = some bs[i] := getElem?_eq_getElem hlt
    have hbrings : s.Brings bs[i] pgs[i] := hpgs.get (by omega) hlt
    obtain ⟨out, hcomplete, helements, hframe⟩ := hbrings stored around mem
    refine ⟨out, ?_, fun k e hhas => ?_, fun a hout => hframe a fun k p hk hcovers => ?_⟩
    · show s.toGlobalRead.completeAt stored around pgs mem i = _
      rw [GlobalRead.completeAt, hpg]
      exact hcomplete
    · obtain ⟨p, b, hk, hbi, hcovers, rfl⟩ := hhas
      obtain rfl := Option.some.inj (hb.symm.trans hbi)
      exact helements k p hk hcovers
    · exact hout k _ ⟨p, _, hk, hb, hcovers, rfl⟩
  obtain ⟨out, hrun, hslots, hframe⟩ := Heap.exists_foldlM hfills mem
  refine ⟨out, hrun, fun k p hk hex => ?_, fun a hout => hframe a fun i hi k e hhas => ?_⟩
  · obtain ⟨b, i, hi, hb, hcovers⟩ := hex
    obtain ⟨i', hi', p', b', hk', hb', hcovers', helement⟩ :=
      hslots k ⟨i, hi, _, p, b, hk, hb, hcovers, rfl⟩
    obtain rfl := Option.some.inj (hk.symm.trans hk')
    exact ⟨b', ⟨i', hi', hb', hcovers'⟩, helement⟩
  · obtain ⟨p, b, hk, hb, hcovers, -⟩ := hhas
    exact hout k p b hk ⟨i, hi, hb, hcovers⟩

theorem coveredBy_iff {order : List Nat} (hperm : order.Perm (List.range s.touched.length))
    {k b : Nat} {p : List Nat} (hk : (places s.pts)[k]? = some p) :
    s.CoveredBy s.touched order p b ↔ b ∈ s.blocks ∧ s.Covers b p := by
  constructor
  · rintro ⟨i, -, hb, hcovers⟩
    exact ⟨(mem_filter.mp (mem_of_getElem? hb)).1, hcovers⟩
  · rintro ⟨hb, hcovers⟩
    have hmem : b ∈ s.touched :=
      mem_filter.mpr ⟨hb, decide_eq_true ⟨p, mem_of_getElem? hk, hcovers⟩⟩
    obtain ⟨i, hi⟩ := getElem?_of_mem hmem
    obtain ⟨hlt, -⟩ := List.getElem?_eq_some_iff.mp hi
    exact ⟨i, hperm.mem_iff.mpr (mem_range.mpr hlt), hi, hcovers⟩

end

theorem exists_out_of_sieving (hsieve : s.sieve = true) (hroom : s.pts.ndim ≤ Sieving.maxDims)
    (stored around : Contents) (userBuffer : Memory) {order : List Nat}
    (hperm : order.Perm (List.range s.touched.length)) :
    ∃ out, s.toGlobalRead.run stored around order userBuffer = .ok out ∧
      (∀ k p, (places s.pts)[k]? = some p → (∃ b ∈ s.blocks, s.Covers b p) →
        ∃ b ∈ s.blocks, s.Covers b p ∧ element out s.v.size k =
          element (stored b) s.v.size (Grid.place ((s.v.bounds b).map Segment.span) p)) ∧
      ∀ a : Int, (∀ k p, (places s.pts)[k]? = some p → (∃ b ∈ s.blocks, s.Covers b p) →
        a < (k * s.v.size : Nat) ∨ ((k + 1) * s.v.size : Nat) ≤ a) → out a = userBuffer a := by
  obtain ⟨pgs, hpopulate, hpgs⟩ := exists_requests hsieve hroom
  obtain ⟨out, hrun, helements, hframe⟩ := exists_run hpgs
    (fun i hi => mem_range.mp (hperm.mem_iff.mp hi)) stored around userBuffer
  refine ⟨out, by rw [GlobalRead.run, hpopulate, ok_bind, hrun], fun k p hk hex => ?_,
    fun a hout => hframe a fun k p b hk hcovered => hout k p hk ⟨b, (coveredBy_iff hperm hk).mp
      hcovered⟩⟩
  obtain ⟨b, hb⟩ := hex
  obtain ⟨b', hcovered, helement⟩ := helements k p hk ⟨b, (coveredBy_iff hperm hk).mpr hb⟩
  obtain ⟨hmem, hcovers⟩ := (coveredBy_iff hperm hk).mp hcovered
  exact ⟨b', hmem, hcovers, helement⟩

theorem delivered_of_not_touches (h : ∀ b ∈ s.blocks, ¬s.Touches b) : s.Delivered := by
  intro stored around userBuffer order hperm
  have htouched : s.touched = [] :=
    filter_eq_nil_iff.mpr fun b hb hc => h b hb (of_decide_eq_true hc)
  obtain ⟨rs, hrs, hall⟩ := @Lists.exists_mapM Nat _ Fault
    (s.toGlobalRead.generateReadRequestForPg s.timestep) (fun r b => if s.Touches b then
      ∃ pg, r = some pg ∧ s.Brings b pg else r = none) s.blocks fun b hb =>
    ⟨none, generate_of_not_touches hb (h b hb), (if_neg (h b hb)).mpr rfl⟩
  have hnone := Lists.forall₂_reduceOption hall
  have hempty : s.blocks.filter s.Touches = [] := htouched
  rw [hempty] at hnone
  rw [htouched] at hperm
  have horder : order = [] := List.Perm.eq_nil hperm
  refine ⟨userBuffer, ?_, fun k p hk hex => ?_, fun _ _ => rfl⟩
  · rw [GlobalRead.run, populateReadRequest_eq, hrs, horder]
    rfl
  · obtain ⟨b, hb, hcovers⟩ := hex
    exact absurd ⟨p, mem_of_getElem? hk, hcovers⟩ (h b hb)

theorem delivered_of_clear (h : s.Clear) : s.Delivered := by
  rcases h with h | ⟨hsieve, hroom, hplain⟩
  · exact delivered_of_not_touches h
  · intro stored around userBuffer order hperm
    obtain ⟨out, hrun, helements, hframe⟩ :=
      exists_out_of_sieving hsieve hroom stored around userBuffer hperm
    refine ⟨out, hrun, fun k p hk hex => ?_, hframe⟩
    obtain ⟨b, hb, hcovers, helement⟩ := helements k p hk hex
    have hmoved : s.moved (element (stored b) s.v.size
        (Grid.place ((s.v.bounds b).map Segment.span) p)) =
        element (stored b) s.v.size (Grid.place ((s.v.bounds b).map Segment.span) p) :=
      @moved_eq_self ⟨s.host, s.v.origType, s.swapEndianness, stored b⟩ hplain _
        (length_element _ _ _)
    exact ⟨b, hb, hcovers, helement.trans hmoved.symm⟩

/-! ## Where they are not -/

theorem sieve_of_run {stored around : Contents} {userBuffer out : Memory}
    (hrun : s.toGlobalRead.run stored around (List.range s.touched.length) userBuffer = .ok out)
    (hb : b ∈ s.blocks) (htouches : s.Touches b) : s.sieve = true := by
  by_contra hsieve
  rw [GlobalRead.run] at hrun
  obtain ⟨pgs, hpopulate, hrun⟩ := exists_of_bind_eq_ok hrun
  rw [populateReadRequest_eq] at hpopulate
  obtain ⟨rs, hrs, hpgs⟩ := exists_of_bind_eq_ok hpopulate
  obtain rfl := Except.ok.inj hpgs
  have hfails : Forall₂ (fun (pg : PgReadRequest × Subreqs) (_ : Nat) =>
      ∃ subreqs, pg.2 = .points subreqs) rs.reduceOption s.touched := by
    refine Lists.forall₂_reduceOption (Lists.forall₂_of_mapM_eq_ok hrs fun b hb r hr => ?_)
    by_cases htouches : s.Touches b
    · obtain ⟨ps, -, -, hgenerate⟩ := exists_generate_of_touches hb htouches
      rw [hgenerate] at hr
      refine (if_pos htouches).mpr ?_
      have hpoints : (s.pgReadRequest b ps).generateReadSubrequests s.sieve s.v.origType =
          ((s.pgReadRequest b ps).generatePoints ⟨s.pts.ndim, ps.length, ps.flatten⟩
            s.v.origType).map .points := if_neg hsieve
      rw [hpoints] at hr
      cases hreads : (s.pgReadRequest b ps).generatePoints ⟨s.pts.ndim, ps.length, ps.flatten⟩
          s.v.origType with
      | error e =>
        rw [hreads] at hr
        cases hr
      | ok subreqs =>
        rw [hreads] at hr
        exact ⟨_, (Except.ok.inj hr).symm, subreqs, rfl⟩
    · rw [generate_of_not_touches hb htouches] at hr
      exact (if_neg htouches).mpr (Except.ok.inj hr).symm
  -- the first of them
  have hmem : b ∈ s.touched := mem_filter.mpr ⟨hb, decide_eq_true htouches⟩
  generalize rs.reduceOption = pgs at hfails hrun
  generalize s.touched = bs at hfails hrun hmem
  cases hfails with
  | nil => cases hmem
  | @cons pg b' pgs bs hpg _ =>
    obtain ⟨subreqs, hsubreqs⟩ := hpg
    rw [length_cons, range_succ_eq_map, List.foldlM_cons] at hrun
    obtain ⟨mem, hstep, -⟩ := exists_of_bind_eq_ok hrun
    have hcomplete : s.toGlobalRead.complete stored around pg userBuffer = .ok mem := hstep
    unfold GlobalRead.complete at hcomplete
    rw [hsubreqs] at hcomplete
    dsimp only at hcomplete
    split_ifs at hcomplete

theorem room_of_run {stored around : Contents} {order : List Nat} {userBuffer out : Memory}
    (hrun : s.toGlobalRead.run stored around order userBuffer = .ok out) (hsieve : s.sieve = true)
    (hb : b ∈ s.blocks) (htouches : s.Touches b) : s.pts.ndim ≤ Sieving.maxDims := by
  by_contra hroom
  rw [GlobalRead.run] at hrun
  obtain ⟨pgs, hpopulate, -⟩ := exists_of_bind_eq_ok hrun
  rw [populateReadRequest_eq] at hpopulate
  obtain ⟨rs, hrs, -⟩ := exists_of_bind_eq_ok hpopulate
  obtain ⟨r, hr⟩ := Lists.exists_of_mapM_eq_ok hrs hb
  obtain ⟨ps, hps, hne, hgenerate⟩ := exists_generate_of_touches hb htouches
  have herror : computeSievingOffsets (s.pgReadRequest b ps).pgIntersectionSel
      (s.pgReadRequest b ps).pgBoundsSel = .error .outOfBounds :=
    @Selected.computeSievingOffsets_points (selected hb hps hne) _ rfl (by
      show Sieving.maxDims < (s.v.bounds b).length
      rw [(bounds_of_mem_blocks hb).1]
      exact Nat.not_le.mp hroom)
  have hsieving : (s.pgReadRequest b ps).generateReadSubrequests s.sieve s.v.origType =
      ((s.pgReadRequest b ps).generateSieving s.v.origType).map .sieving := if_pos hsieve
  rw [hgenerate, hsieving, PgReadRequest.generateSieving, herror] at hr
  cases hr

def firstBytes (size : Nat) : Memory := fun a => if a % size = 0 then 1 else 0

theorem getElem?_firstBytes {size n j : Nat} (hj : j < size) :
    (element (firstBytes size) size n)[j]? = some (if j = 0 then 1 else 0) := by
  rw [element, getElem?_read hj]
  unfold firstBytes
  have hmod : (((n * size + j : Nat) : Int) % (size : Nat) = 0) ↔ j = 0 := by
    rw [← Int.natCast_mod, Nat.mul_comm, Nat.mul_add_mod, Nat.mod_eq_of_lt hj]
    omega
  by_cases hzero : j = 0
  · rw [if_pos hzero, if_pos (hmod.mpr hzero)]
  · rw [if_neg hzero, if_neg fun hc => hzero (hmod.mp hc)]

theorem getElem?_byteSwapped {type : Datatype} {e : List UInt8} (h : 1 < e.length) :
    (byteSwapped type e)[0]? =
      e[(if type = .complex ∨ type = .doubleComplex then e.length / 2 else e.length) - 1]? := by
  unfold byteSwapped
  by_cases hparts : type = .complex ∨ type = .doubleComplex
  · have hlen : (e.take (e.length / 2)).length = e.length / 2 := by
      rw [length_take]
      omega
    rw [if_pos hparts, if_pos hparts, getElem?_append_left (by
        rw [length_reverse, hlen]
        omega), getElem?_reverse (by omega), hlen, Nat.sub_zero,
      getElem?_take_of_lt (by omega)]
  · rw [if_neg hparts, if_neg hparts, getElem?_reverse (by omega), Nat.sub_zero]

theorem byteSwapped_firstBytes_ne (s : PointsRead) (n : Nat) (hsize : s.v.size ≠ 1) :
    byteSwapped s.v.origType (element (firstBytes s.v.size) s.v.size n) ≠
      element (firstBytes s.v.size) s.v.size n := by
  intro hc
  have hpos := s.v.size_pos
  have hlen : (element (firstBytes s.v.size) s.v.size n).length = s.v.size := length_element _ _ _
  have hfront := @getElem?_byteSwapped s.v.origType (element (firstBytes s.v.size) s.v.size n)
    (by omega)
  -- the place the first byte comes from
  have hplace : ∃ j, 0 < j ∧ j < s.v.size ∧ (if s.v.origType = .complex ∨
      s.v.origType = .doubleComplex then s.v.size / 2 else s.v.size) - 1 = j := by
    by_cases hparts : s.v.origType = .complex ∨ s.v.origType = .doubleComplex
    · have hparts' : 4 ≤ s.v.size := by
        unfold Variable.size
        rcases hparts with htype | htype <;> rw [htype] <;> decide
      rw [if_pos hparts]
      exact ⟨_, by omega, by omega, rfl⟩
    · rw [if_neg hparts]
      exact ⟨_, by omega, by omega, rfl⟩
  obtain ⟨j, hj, hlt, hplace⟩ := hplace
  rw [hc, hlen, hplace, getElem?_firstBytes hpos, getElem?_firstBytes hlt, if_pos rfl,
    if_neg (by omega)] at hfront
  exact absurd (Option.some.inj hfront) (by decide)

theorem element_firstBytes (size n n' : Nat) :
    element (firstBytes size) size n = element (firstBytes size) size n' := by
  refine ext_getElem? fun j => ?_
  by_cases hj : j < size
  · rw [getElem?_firstBytes hj, getElem?_firstBytes hj]
  · rw [getElem?_eq_none (by rw [length_element]; omega),
      getElem?_eq_none (by rw [length_element]; omega)]

theorem plain_of_delivered (h : s.Delivered) (hsieve : s.sieve = true)
    (hroom : s.pts.ndim ≤ Sieving.maxDims) (hb : b ∈ s.blocks) (htouches : s.Touches b) :
    s.swapEndianness ≠ .yes ∨ s.v.size = 1 := by
  by_contra hc
  obtain ⟨hswap, hsize⟩ := not_or.mp hc
  obtain ⟨p, hp, hcovers⟩ := htouches
  obtain ⟨k, hk⟩ := getElem?_of_mem hp
  -- the same element is stored in each place of each block
  obtain ⟨out, hrun, helements, -⟩ := h (fun _ => firstBytes s.v.size) (fun _ _ => 0) (fun _ => 0)
    (List.range s.touched.length) (List.Perm.refl _)
  obtain ⟨out', hrun', helements', -⟩ := exists_out_of_sieving hsieve hroom
    (fun _ => firstBytes s.v.size) (fun _ _ => 0) (fun _ => 0)
    (List.Perm.refl (List.range s.touched.length))
  obtain rfl := Except.ok.inj (hrun.symm.trans hrun')
  obtain ⟨c, -, -, hswapped⟩ := helements k p hk ⟨b, hb, hcovers⟩
  obtain ⟨c', -, -, hplain⟩ := helements' k p hk ⟨b, hb, hcovers⟩
  rw [hplain, element_firstBytes _ _ (Grid.place ((s.v.bounds c).map Segment.span) p)] at hswapped
  refine byteSwapped_firstBytes_ne s _ hsize (hswapped.trans ?_).symm
  exact if_pos (not_not.mp hswap)

theorem clear_of_delivered (h : s.Delivered) : s.Clear := by
  by_cases hex : ∃ b ∈ s.blocks, s.Touches b
  · obtain ⟨b, hb, htouches⟩ := hex
    obtain ⟨out, hrun, -, -⟩ := h (fun _ _ => 0) (fun _ _ => 0) (fun _ => 0)
      (List.range s.touched.length) (List.Perm.refl _)
    have hsieve := sieve_of_run hrun hb htouches
    have hroom := room_of_run hrun hsieve hb htouches
    exact Or.inr ⟨hsieve, hroom, plain_of_delivered h hsieve hroom hb htouches⟩
  · exact Or.inl fun b hb htouches => hex ⟨b, hb, htouches⟩

/-- The points of a list are delivered exactly where no block has one of them, or where the reads
sieve, `tmp_point` has room for the coordinates, and no bytes need to be swapped. -/
theorem pointsDelivered_iff (s : PointsRead) : s.Delivered ↔ s.Clear :=
  ⟨clear_of_delivered, delivered_of_clear⟩

end PointsRead

def oneByte : Variable where
  nblocks := [1]
  origBlockinfo := [[⟨0, 1⟩]]
  origType := .byte
  total := sum_one_lt
  length := rfl
  numeric := isNumeric_byte
  fits := forall_mem_singleton.mpr (by decide)

def unsieved : PointsRead where
  v := oneByte
  host := .little
  swapEndianness := .no
  mallocZero := true
  sieve := false
  pts := ⟨1, 1, [0]⟩
  timestep := 0
  step := by decide
  array := rfl
  ndim := Nat.one_pos
  global := fun i hi => by
    obtain rfl : i = 0 := Nat.lt_one_iff.mp hi
    have hends : ∀ seg ∈ oneByte.bounds 0, seg.stop < 18446744073709551616 := by decide
    exact ⟨rfl, hends⟩
  bytes := by decide

/-- The buffer that is patched has been freed. -/
theorem not_delivered_unsieved : ¬unsieved.Delivered := by
  intro h
  obtain ⟨out, hrun, -⟩ := h (fun _ _ => 0) (fun _ _ => 0) (fun _ => 0) [0] (List.Perm.refl _)
  have herror : unsieved.toGlobalRead.run (fun _ _ => 0) (fun _ _ => 0) [0] (fun _ => 0) =
      .error .wildPointer := rfl
  rw [herror] at hrun
  cases hrun

end Adios.Transforms
