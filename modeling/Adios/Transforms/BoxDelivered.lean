import Adios.Lists.Results
import Adios.Transforms.BoxPatch

/-!
# Transforms — when a bounding box gets to the user
-/

namespace Adios.Transforms

open List CopySubvolume Grid PatchData Selections Sieving Subvolume WriteBlocks UInt64

/-! ## Distances -/

theorem fills_atDistance {size n : Nat} {distance : UInt64} {f : Memory → Except Fault Memory}
    {has : Nat → List UInt8 → Prop} (hdistance : distance.toNat = n * size)
    (h : Heap.Fills size f has) :
    Heap.Fills size (atDistance distance f) fun k e => ∃ k', k = n + k' ∧ has k' e := by
  intro mem
  obtain ⟨out, hf, hslots, hframe⟩ := h fun a => mem (distance.toNat + a)
  refine ⟨fun a => out (a - distance.toNat), by rw [atDistance, hf]; rfl, fun k e hhas => ?_,
    fun a hout => ?_⟩
  · obtain ⟨k', rfl, hhas⟩ := hhas
    rw [← hslots k' e hhas]
    refine map_congr_left fun j _ => congrArg out ?_
    rw [hdistance, Nat.add_mul]
    omega
  · have hback : (distance.toNat : Int) + (a - distance.toNat) = a := by omega
    have hsame := hframe (a - distance.toNat) fun k e hhas => by
      have hshifted := hout (n + k) e ⟨k, rfl, hhas⟩
      unfold Heap.Outside at hshifted ⊢
      rw [hdistance]
      rw [Nat.add_assoc, Nat.add_mul, Nat.add_mul n] at hshifted
      omega
    rw [hback] at hsame
    exact hsame

theorem positions_append {nblocks : List Nat} {timestep left i : Nat} (start rest : Nat)
    (h : i + left = nblocks.getD timestep 0) (hpos : 0 < left) :
    positions nblocks (left + rest) (start + i) timestep i =
      ((List.range' i left).map fun j => (timestep, start + j)) ++
        positions nblocks rest (start + nblocks.getD timestep 0) (timestep + 1) 0 := by
  induction left generalizing i with
  | zero => exact absurd hpos (Nat.lt_irrefl 0)
  | succ left ih =>
    rw [Nat.succ_add, positions, range'_succ, map_cons, cons_append]
    refine congrArg ((timestep, start + i) :: ·) ?_
    by_cases hlast : i + 1 = nblocks.getD timestep 0
    · obtain rfl : left = 0 := by omega
      rw [if_pos hlast, Nat.zero_add, Nat.add_assoc, hlast]
      rfl
    · rw [if_neg hlast, Nat.add_assoc]
      exact ih (by omega) (by omega)

def Variable.blocks (v : Variable) (timestep : Nat) : List Nat :=
  (List.range (v.nblocks.getD timestep 0)).map ((v.nblocks.take timestep).sum + ·)

theorem positions_steps {v : Variable} {n timestep : Nat}
    (h : ∀ t, timestep ≤ t → t < timestep + n → 0 < v.nblocks.getD t 0) :
    positions v.nblocks ((v.nblocks.take (timestep + n)).sum - (v.nblocks.take timestep).sum)
        (v.nblocks.take timestep).sum timestep 0 =
      (List.range' timestep n).flatMap fun t => (v.blocks t).map (t, ·) := by
  induction n generalizing timestep with
  | zero =>
    rw [Nat.add_zero, Nat.sub_self]
    rfl
  | succ n ih =>
    have hfirst := h timestep (Nat.le_refl _) (by omega)
    have hsum := sum_take_succ v.nblocks timestep
    have hle := sum_take_add_le v.nblocks (show timestep < timestep + (n + 1) by omega)
    have hleft : (v.nblocks.take (timestep + (n + 1))).sum - (v.nblocks.take timestep).sum =
        v.nblocks.getD timestep 0 +
          ((v.nblocks.take (timestep + 1 + n)).sum - (v.nblocks.take (timestep + 1)).sum) := by
      rw [show timestep + 1 + n = timestep + (n + 1) by omega]
      omega
    have happend := positions_append (v.nblocks.take timestep).sum
      ((v.nblocks.take (timestep + 1 + n)).sum - (v.nblocks.take (timestep + 1)).sum)
      (Nat.zero_add (v.nblocks.getD timestep 0)) hfirst
    rw [← hsum, ih fun t hle hlt => h t (by omega) (by omega)] at happend
    rw [hleft, range'_succ, flatMap_cons, Variable.blocks, map_map, range_eq_range']
    exact happend

/-! ## The statement -/

structure BoundingBoxRead where
  v : Variable
  host : Wire.Endian
  swapEndianness : Flag
  mallocZero : Bool
  sieve : Bool
  bb : List Segment
  fromSteps : Nat
  nsteps : Nat
  /-- "`assert(from_steps >= 0 && from_steps + nsteps <= raw_varinfo->nsteps)`" -/
  within : fromSteps + nsteps ≤ v.nblocks.length
  array : bb ≠ []
  ends : Ends bb
  /-- A step is one that the variable has been written in. -/
  written : ∀ t < v.nblocks.length, 0 < v.nblocks.getD t 0
  /-- The blocks of the steps are boxes of the array. -/
  global : ∀ t, fromSteps ≤ t → t < fromSteps + nsteps → ∀ b ∈ v.blocks t,
    (v.bounds b).length = bb.length ∧ Ends (v.bounds b)
  /-- The bytes in the user's buffer can be counted. -/
  bytes : nsteps * (Grid.volume (sizes (bb.map Segment.span)) * v.size) < 18446744073709551616

namespace BoundingBoxRead

variable (s : BoundingBoxRead)

def toGlobalRead : GlobalRead :=
  ⟨s.v, s.host, s.swapEndianness, s.mallocZero, s.sieve, .boundingBox s.bb, s.fromSteps, s.nsteps⟩

def volume : Nat := Grid.volume (sizes (s.bb.map Segment.span))

def places : List (Nat × Nat) :=
  (List.range' s.fromSteps s.nsteps).flatMap fun t => (s.v.blocks t).map (t, ·)

def touched : List (Nat × Nat) := s.places.filter fun place => Meets (s.v.bounds place.2) s.bb

def Covers (b : Nat) (p : List Nat) : Prop := Elements s.bb p ∧ Elements (s.v.bounds b) p

def slot (t : Nat) (p : List Nat) : Nat :=
  (t - s.fromSteps) * s.volume + Grid.place (s.bb.map Segment.span) p

def moved (e : List UInt8) : List UInt8 :=
  if s.swapEndianness = .yes then byteSwapped s.v.origType e else e

/-- Whatever is stored and whatever is in memory, and in whatever order the process groups complete:
at the place of an element and a step is the element of a block of the step that covers it; what is
not the place of an element with such a block has not changed. -/
def Delivered : Prop :=
  ∀ (stored around : Contents) (userBuffer : Memory) (order : List Nat),
    order.Perm (List.range s.touched.length) →
    ∃ out, s.toGlobalRead.run stored around order userBuffer = .ok out ∧
      (∀ t p, (∃ b, (t, b) ∈ s.places ∧ s.Covers b p) →
        ∃ b, (t, b) ∈ s.places ∧ s.Covers b p ∧ element out s.v.size (s.slot t p) =
          s.moved (element (stored b) s.v.size
            (Grid.place ((s.v.bounds b).map Segment.span) p))) ∧
      ∀ a : Int, (∀ t p, (∃ b, (t, b) ∈ s.places ∧ s.Covers b p) →
        Heap.Outside s.v.size (s.slot t p) a) → out a = userBuffer a

/-- There is a step; and each block of the steps shares elements with the box and the numbers come
through where they go through an `int` or have an array, or it shares none and some dimension shows
that. -/
def Clear : Prop :=
  0 < s.nsteps ∧ ∀ place ∈ s.places, Copyable (s.v.bounds place.2) s.bb ∨
    ¬Meets (s.v.bounds place.2) s.bb ∧ ∃ d ∈ (s.v.bounds place.2).zip s.bb, Apart d.1 d.2

/-! ## One process group -/

variable {s} {t b : Nat}

theorem mem_places : (t, b) ∈ s.places ↔
    (s.fromSteps ≤ t ∧ t < s.fromSteps + s.nsteps) ∧ b ∈ s.v.blocks t := by
  rw [places, mem_flatMap]
  constructor
  · intro h
    obtain ⟨t', ht', h⟩ := h
    obtain ⟨b', hb', heq⟩ := mem_map.mp h
    injection heq with ht hb
    subst ht hb
    exact ⟨mem_range'_1.mp ht', hb'⟩
  · intro h
    exact ⟨t, mem_range'_1.mpr h.1, mem_map.mpr ⟨b, h.2, rfl⟩⟩

theorem lt_of_mem_places (h : (t, b) ∈ s.places) : b < s.v.nblocks.sum := by
  obtain ⟨i, hi, rfl⟩ := mem_map.mp (mem_places.mp h).2
  exact Variable.block_lt (mem_range.mp hi)

theorem bounds_of_mem_places (h : (t, b) ∈ s.places) :
    (s.v.bounds b).length = s.bb.length ∧ Ends (s.v.bounds b) :=
  s.global t (mem_places.mp h).1.1 (mem_places.mp h).1.2 b (mem_places.mp h).2

def pgReadRequest (s : BoundingBoxRead) (t b : Nat) : PgReadRequest :=
  ⟨t, b, s.v.rawVarLength b, .boundingBox (commonPart (s.v.bounds b) s.bb), s.v.bounds b⟩

theorem generate_of_apart (h : (t, b) ∈ s.places)
    (hapart : ∃ d ∈ (s.v.bounds b).zip s.bb, Apart d.1 d.2) :
    s.toGlobalRead.generateReadRequestForPg t b = .ok none := by
  have hblock : s.toGlobalRead.v.varblock (b : Nat) = .ok (s.v.bounds b) :=
    Variable.varblock_eq (lt_of_mem_places h)
  have hinter : intersectGlobal s.toGlobalRead.mallocZero (.boundingBox (s.v.bounds b))
      s.toGlobalRead.sel = .ok none :=
    intersectBbBb_of_apart _ (bounds_of_mem_places h).1 hapart
  unfold GlobalRead.generateReadRequestForPg
  rw [hblock, ok_bind, hinter]
  rfl

theorem exists_generate_of_copyable (h : (t, b) ∈ s.places)
    (hcopyable : Copyable (s.v.bounds b) s.bb) :
    ∃ startOff endOff : UInt64, startOff.toNat < endOff.toNat ∧ endOff.toNat ≤ s.v.volume b ∧
      (∀ p, s.Covers b p → startOff.toNat ≤ Grid.place ((s.v.bounds b).map Segment.span) p ∧
        Grid.place ((s.v.bounds b).map Segment.span) p < endOff.toNat) ∧
      s.toGlobalRead.generateReadRequestForPg t b =
        .ok (some (s.pgReadRequest t b, .sieving ⟨startOff * getTypeSize s.v.origType none,
          (endOff - startOff) * getTypeSize s.v.origType none, startOff⟩)) := by
  have hlt := lt_of_mem_places h
  obtain ⟨hlen, hends⟩ := bounds_of_mem_places h
  have helements := elements_commonPart hlen hends
  obtain ⟨p₀, hp₀, hp₀'⟩ := (meets_iff hlen).mp hcopyable.meets
  let selected : Selected := {
    pgbb := s.v.bounds b
    sel := .boundingBox (commonPart (s.v.bounds b) s.bb)
    fits := Variable.volume_lt hlt
    within := fun p hp => ((helements p).mp hp).1
    some := ⟨_, p₀, (helements p₀).mpr ⟨hp₀, hp₀'⟩, rfl⟩ }
  obtain ⟨startOff, endOff, hcompute, hrange, -, ⟨last, hend, hlast⟩, hle⟩ :=
    @Selected.sieved_boundingBox selected _ rfl (by
      show (s.v.bounds b).length ≤ Sieving.maxDims
      rw [hlen]
      exact hcopyable.room)
  have hle : endOff.toNat ≤ s.v.volume b := hle
  have hstart := (hrange last hlast).1
  have hlt' : startOff.toNat < endOff.toNat := by omega
  refine ⟨startOff, endOff, hlt', hle, fun p hp => ?_, ?_⟩
  · exact hrange _ ⟨p, (helements p).mpr ⟨hp.2, hp.1⟩, rfl⟩
  · have hblock : s.toGlobalRead.v.varblock (b : Nat) = .ok (s.v.bounds b) :=
      Variable.varblock_eq hlt
    have hne : s.v.bounds b ≠ [] := fun hc => by
      rw [hc] at hlen
      exact s.array (length_eq_zero_iff.mp hlen.symm)
    have hinter : intersectGlobal s.toGlobalRead.mallocZero (.boundingBox (s.v.bounds b))
        s.toGlobalRead.sel = .ok (some (.boundingBox (commonPart (s.v.bounds b) s.bb))) :=
      (intersectBbBb_of_held _ hlen hne hends s.ends hcopyable.meets hcopyable.held).1
    have hgenerate : (s.pgReadRequest t b).generateSieving s.toGlobalRead.v.origType = _ :=
      @PgReadRequest.generateSieving_eq s.v b (s.pgReadRequest t b) startOff endOff hlt rfl hcompute
        (Nat.le_of_lt hlt') hle
    unfold GlobalRead.generateReadRequestForPg
    rw [hblock, ok_bind, hinter, ok_bind]
    show (((s.pgReadRequest t b).generateSieving s.toGlobalRead.v.origType).map Subreqs.sieving >>=
      fun subreqs => Except.ok (some (s.pgReadRequest t b, subreqs))) = _
    rw [hgenerate]
    rfl

theorem toNat_distance (ht : t < s.fromSteps + s.nsteps) :
    (UInt64.ofNat (t - s.fromSteps) * s.toGlobalRead.selectionSizeInBytes).toNat =
      (t - s.fromSteps) * s.volume * s.v.size := by
  have hsize : s.toGlobalRead.selectionSizeInBytes = UInt64.ofNat (s.volume * s.v.size) := by
    show (s.bb.map Segment.count).foldl (· * ·) (getTypeSize s.v.origType none) = _
    rw [foldl_mul_eq, volume, sizes_span, UInt64.ofNat_mul, Variable.size, UInt64.ofNat_toNat, UInt64.mul_comm]
  have hbytes : s.nsteps * (s.volume * s.v.size) < 18446744073709551616 := s.bytes
  have hle : (t - s.fromSteps) * (s.volume * s.v.size) ≤ s.nsteps * (s.volume * s.v.size) :=
    Nat.mul_le_mul_right _ (by omega)
  rw [hsize, ← UInt64.ofNat_mul, Nat.mul_assoc]
  exact toNat_ofNat_of_lt' (Nat.lt_of_le_of_lt hle hbytes)

theorem volume_mul_size_lt (ht : s.fromSteps ≤ t ∧ t < s.fromSteps + s.nsteps) :
    s.volume * s.v.size < 18446744073709551616 := by
  have hbytes : s.nsteps * (s.volume * s.v.size) < 18446744073709551616 := s.bytes
  exact Nat.lt_of_le_of_lt (Nat.le_mul_of_pos_left _ (by omega)) hbytes

def Has (s : BoundingBoxRead) (stored : Contents) (t b k : Nat) (e : List UInt8) : Prop :=
  ∃ p, s.Covers b p ∧ k = s.slot t p ∧ e = s.moved (element (stored b) s.v.size
    (Grid.place ((s.v.bounds b).map Segment.span) p))

theorem fills_complete (h : (t, b) ∈ s.places) (hcopyable : Copyable (s.v.bounds b) s.bb)
    {startOff endOff : UInt64} (hlt : startOff.toNat < endOff.toNat)
    (hle : endOff.toNat ≤ s.v.volume b) (hrange : ∀ p, s.Covers b p →
      startOff.toNat ≤ Grid.place ((s.v.bounds b).map Segment.span) p ∧
        Grid.place ((s.v.bounds b).map Segment.span) p < endOff.toNat)
    (stored around : Contents) :
    Heap.Fills s.v.size (s.toGlobalRead.complete stored around (s.pgReadRequest t b,
      .sieving ⟨startOff * getTypeSize s.v.origType none,
        (endOff - startOff) * getTypeSize s.v.origType none, startOff⟩)) (s.Has stored t b) := by
  have hblock := lt_of_mem_places h
  obtain ⟨hlen, hends⟩ := bounds_of_mem_places h
  obtain ⟨hsteps, -⟩ := mem_places.mp h
  let datablock := s.v.sievedBlock t b startOff endOff stored
  let call : Call := ⟨s.host, s.v.origType, s.swapEndianness, datablock.memory (around b)⟩
  have hpatch : Heap.Fills s.v.size _ _ := fills_patchDataBbToBb s.mallocZero call s.v.numeric hlen
    s.array hends s.ends hcopyable startOff (fun p hbb hblk => (hrange p ⟨hbb, hblk⟩).1)
    (volume_mul_size_lt hsteps) (Variable.volume_mul_size_lt hblock)
  intro mem
  obtain ⟨out, hrun, hslots, hframe⟩ := fills_atDistance (toNat_distance hsteps.2) hpatch mem
  refine ⟨out, ?_, fun k e hhas => ?_, fun a hout => hframe a fun k e hhas => ?_⟩
  · show ((s.pgReadRequest t b).completed s.mallocZero stored _ >>= fun datablock =>
      s.toGlobalRead.applyDatablockToResult (around b) datablock mem) = _
    rw [PgReadRequest.completed_sieving rfl hblock hlt hle, ok_bind]
    show (s.v.varblock (b : Nat) >>= fun bounds => atDistance (UInt64.ofNat (t - s.fromSteps) *
      s.toGlobalRead.selectionSizeInBytes) (fun outputBuffer => patchDataBbToBb s.mallocZero call
        outputBuffer 0 s.bb startOff bounds) mem) = _
    rw [Variable.varblock_eq hblock, ok_bind, hrun]
  · obtain ⟨p, hcovers, rfl, rfl⟩ := hhas
    obtain ⟨hle', hlt'⟩ := hrange p hcovers
    refine hslots _ _ ⟨_, rfl, p, hcovers.1, hcovers.2, rfl, congrArg s.moved ?_⟩
    exact (Variable.element_sievedBlock stored (around b) hle' hlt').symm
  · obtain ⟨k', rfl, p, hbb, hblk, rfl, -⟩ := hhas
    exact hout _ _ ⟨p, ⟨hbb, hblk⟩, rfl, rfl⟩

/-! ## All process groups -/

theorem populateReadRequest_eq (h : 0 < s.nsteps) : s.toGlobalRead.populateReadRequest =
    s.places.mapM (fun place => s.toGlobalRead.generateReadRequestForPg place.1 place.2) >>=
      fun pgs => .ok pgs.reduceOption := by
  have hrequests := @GlobalRead.populateReadRequest_eq s.toGlobalRead h s.within
  have hpositions := @positions_steps s.v s.nsteps s.fromSteps fun t _ hlt =>
    s.written t (Nat.lt_of_lt_of_le hlt s.within)
  refine hrequests.trans ?_
  show (positions s.v.nblocks ((s.v.nblocks.take (s.fromSteps + s.nsteps)).sum -
    (s.v.nblocks.take s.fromSteps).sum) (s.v.nblocks.take s.fromSteps).sum s.fromSteps 0).mapM _ >>=
      _ = _
  rw [hpositions]
  rfl

theorem exists_requests (h : s.Clear) (stored around : Contents) :
    ∃ pgs, s.toGlobalRead.populateReadRequest = .ok pgs ∧
      Forall₂ (fun pg place => Heap.Fills s.v.size (s.toGlobalRead.complete stored around pg)
        (s.Has stored place.1 place.2)) pgs s.touched := by
  obtain ⟨hpos, hblocks⟩ := h
  obtain ⟨rs, hrs, hall⟩ := @Lists.exists_mapM (Nat × Nat) _ Fault
    (fun place => s.toGlobalRead.generateReadRequestForPg place.1 place.2) (fun r place =>
      if Meets (s.v.bounds place.2) s.bb then ∃ pg, r = some pg ∧
        Heap.Fills s.v.size (s.toGlobalRead.complete stored around pg)
          (s.Has stored place.1 place.2)
      else r = none) s.places fun place hmem => by
    rcases hblocks place hmem with hcopyable | ⟨hnot, hapart⟩
    · obtain ⟨startOff, endOff, hlt, hle, hrange, hgenerate⟩ :=
        exists_generate_of_copyable hmem hcopyable
      exact ⟨_, hgenerate, (if_pos hcopyable.meets).mpr
        ⟨_, rfl, fills_complete hmem hcopyable hlt hle hrange stored around⟩⟩
    · exact ⟨none, generate_of_apart hmem hapart, (if_neg hnot).mpr rfl⟩
  exact ⟨_, by rw [populateReadRequest_eq hpos, hrs]; rfl, Lists.forall₂_reduceOption hall⟩

theorem slot_injective {t' : Nat} {p p' : List Nat} (ht : s.fromSteps ≤ t) (ht' : s.fromSteps ≤ t')
    (hp : Elements s.bb p) (hp' : Elements s.bb p') (h : s.slot t p = s.slot t' p') :
    t = t' ∧ p = p' := by
  obtain ⟨hstep, hplace⟩ := Heap.index_unique (Grid.place_lt hp) (Grid.place_lt hp') h
  exact ⟨by omega, Grid.place_injective hp hp' hplace⟩

theorem exists_touched {order : List Nat} (hperm : order.Perm (List.range s.touched.length))
    (h : (t, b) ∈ s.places) {p : List Nat} (hcovers : s.Covers b p) :
    ∃ i ∈ order, s.touched[i]? = some (t, b) := by
  have hmeets := (meets_iff (bounds_of_mem_places h).1).mpr ⟨p, hcovers.2, hcovers.1⟩
  have hmem : (t, b) ∈ s.touched := mem_filter.mpr ⟨h, decide_eq_true hmeets⟩
  obtain ⟨i, hi⟩ := getElem?_of_mem hmem
  obtain ⟨hlt, -⟩ := List.getElem?_eq_some_iff.mp hi
  exact ⟨i, hperm.mem_iff.mpr (mem_range.mpr hlt), hi⟩

/-- **A box is delivered** where the numbers of each block come through. -/
theorem boxDelivered_of_clear (s : BoundingBoxRead) (h : s.Clear) : s.Delivered := by
  intro stored around userBuffer order hperm
  obtain ⟨pgs, hpopulate, hpgs⟩ := exists_requests h stored around
  have hfills : ∀ i ∈ order, Heap.Fills s.v.size
      (fun mem => s.toGlobalRead.completeAt stored around pgs mem i) fun k e =>
        ∃ t b, s.touched[i]? = some (t, b) ∧ s.Has stored t b k e := by
    intro i hi mem
    have hlt := mem_range.mp (hperm.mem_iff.mp hi)
    have hlen := hpgs.length_eq
    have hpg : pgs[i]? = some pgs[i] := getElem?_eq_getElem (by omega)
    have hplace : s.touched[i]? = some s.touched[i] := getElem?_eq_getElem hlt
    obtain ⟨out, hrun, hslots, hframe⟩ := hpgs.get (by omega) hlt mem
    refine ⟨out, ?_, fun k e hhas => ?_, fun a hout => hframe a fun k e hhas => ?_⟩
    · show s.toGlobalRead.completeAt stored around pgs mem i = _
      rw [GlobalRead.completeAt, hpg]
      exact hrun
    · obtain ⟨t, b, htb, hhas⟩ := hhas
      have heq : (t, b) = s.touched[i] := Option.some.inj (htb.symm.trans hplace)
      refine hslots k e ?_
      show s.Has stored s.touched[i].1 s.touched[i].2 k e
      rw [← heq]
      exact hhas
    · exact hout k e ⟨_, _, hplace, hhas⟩
  obtain ⟨out, hrun, hslots, hframe⟩ := Heap.exists_foldlM hfills userBuffer
  refine ⟨out, by rw [GlobalRead.run, hpopulate, ok_bind, hrun], fun t p hex => ?_,
    fun a hout => hframe a fun i hi k e hhas => ?_⟩
  · obtain ⟨b, hmem, hcovers⟩ := hex
    obtain ⟨i, hi, hplace⟩ := exists_touched hperm hmem hcovers
    obtain ⟨i', -, t', b', hplace', p', hcovers', hslot, helement⟩ :=
      hslots (s.slot t p) ⟨i, hi, _, t, b, hplace, p, hcovers, rfl, rfl⟩
    have hmem' := (mem_filter.mp (mem_of_getElem? hplace')).1
    obtain ⟨rfl, rfl⟩ := slot_injective (mem_places.mp hmem).1.1 (mem_places.mp hmem').1.1
      hcovers.1 hcovers'.1 hslot
    exact ⟨b', hmem', hcovers', helement⟩
  · obtain ⟨t, b, hplace, p, hcovers, rfl, -⟩ := hhas
    exact hout t p ⟨b, (mem_filter.mp (mem_of_getElem? hplace)).1, hcovers⟩

end BoundingBoxRead

def bytesFrom (count : UInt64) : Variable where
  nblocks := [1]
  origBlockinfo := [[⟨0, count⟩]]
  origType := .byte
  total := sum_one_lt
  length := rfl
  numeric := isNumeric_byte
  fits := forall_mem_singleton.mpr (by
    show count.toNat * 1 * 1 < 18446744073709551616
    rw [Nat.mul_one, Nat.mul_one]
    exact count.toNat_lt)

def secondElement (count : UInt64) : BoundingBoxRead where
  v := bytesFrom count
  host := .little
  swapEndianness := .no
  mallocZero := true
  sieve := false
  bb := [⟨1, 1⟩]
  fromSteps := 0
  nsteps := 1
  within := Nat.le_refl 1
  array := by decide
  ends := by
    show ∀ seg ∈ _, Segment.stop seg < 18446744073709551616
    decide
  written := fun t ht => by
    obtain rfl : t = 0 := Nat.lt_one_iff.mp ht
    exact Nat.one_pos
  global := fun t _ ht b hb => by
    obtain rfl : t = 0 := Nat.lt_one_iff.mp ht
    obtain rfl : b = 0 := mem_singleton.mp hb
    refine ⟨rfl, fun seg hseg => ?_⟩
    obtain rfl : seg = ⟨0, count⟩ := mem_singleton.mp hseg
    show 0 + count.toNat < 18446744073709551616
    rw [Nat.zero_add]
    exact count.toNat_lt
  bytes := by
    show 1 * (1 * 1 * 1) < 18446744073709551616
    decide

/-- Of two elements it is delivered. -/
theorem delivered_secondOfTwo : (secondElement 2).Clear ∧ (secondElement 2).Delivered := by
  have hclear : (secondElement 2).Clear := by
    refine ⟨Nat.one_pos, fun place hplace => Or.inl ?_⟩
    obtain rfl : place = (0, 0) := mem_singleton.mp hplace
    exact ⟨by decide, fun d hd => by
      obtain rfl : d = (⟨0, 2⟩, ⟨1, 1⟩) := mem_singleton.mp hd
      exact ⟨by decide, by decide, by decide⟩, by decide, trivial⟩
  exact ⟨hclear, BoundingBoxRead.boxDelivered_of_clear _ hclear⟩

/-- The end of 2^32 elements is 0 as an `int`. -/
theorem not_delivered_largeBlock : ¬(secondElement 4294967296).Delivered := by
  intro h
  obtain ⟨out, hrun, helements, -⟩ := h (fun _ _ => 1) (fun _ _ => 0) (fun _ => 0) [0]
    (List.Perm.refl _)
  have hnone : (secondElement 4294967296).toGlobalRead.run (fun _ _ => 1) (fun _ _ => 0) [0]
      (fun _ => 0) = .ok (fun _ => 0) := rfl
  rw [hnone] at hrun
  obtain rfl := Except.ok.inj hrun
  obtain ⟨b, -, -, helement⟩ := helements 0 [1] ⟨0, mem_singleton_self _, by decide, by decide⟩
  have helement : [(0 : UInt8)] = [1] := helement
  exact absurd helement (by decide)

end Adios.Transforms
