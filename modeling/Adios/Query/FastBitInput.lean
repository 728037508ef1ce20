import Adios.Query.FastBitPositions
import Mathlib.Algebra.Ring.Nat
import Mathlib.Data.List.GetD

/-!
# Adios — a leaf over a decomposed array

When the bit slice has exactly the bits of the elements that satisfy the comparison. The hits of a
block land in the slice by the extents of the block that the code looks up, and only the blocks
between those of the two corners are gone through.
-/

namespace Adios.FastBit

open List

def extents (fortran : Bool) (dims : List UInt64) : List Nat :=
  if fortran then (dims.map UInt64.toNat).reverse else dims.map UInt64.toNat

/-- A leaf and what FastBit answers for it. The blocks of each step decompose the array, whose
elements a file has room for; a bounding box is inside of it. `satisfies` tells for each element,
with its slowest coordinate first, whether its value at the time step satisfies the comparison, and
the hits of a block of the step are the positions of the elements that do. -/
structure Input where
  fortran : Bool
  varinfo : VarInfo
  sel : Option BoundingBox
  timeStep : Nat
  satisfies : List Nat → Bool
  hits : Nat → List UInt64
  timeStep_valid : varinfo.nsteps = 1 ∨ timeStep < varinfo.nsteps
  small : Grid.volume (extents fortran varinfo.dims) < 9223372036854775808
  decomposes : ∀ blocks ∈ varinfo.steps,
    Grid.Decomposes (extents fortran varinfo.dims) (blocks.map (layout fortran))
  sel_inside : ∀ bb ∈ sel, Grid.Inside (layout fortran bb) (extents fortran varinfo.dims)
  hits_exact : ∀ (b : Nat) (block : BoundingBox),
    (varinfo.steps.getD (if varinfo.nsteps = 1 then 0 else timeStep) [])[b]? = some block →
    ∀ k, k ∈ hits b ↔ k.toNat < Grid.volume (Grid.sizes (layout fortran block)) ∧
      satisfies (Grid.elementAt (layout fortran block) k.toNat) = true

namespace Input

def dims (q : Input) : List Nat := extents q.fortran q.varinfo.dims

def blocks (q : Input) : List BoundingBox :=
  q.varinfo.steps.getD (if q.varinfo.nsteps = 1 then 0 else q.timeStep) []

def selection (q : Input) : List Grid.Span :=
  match q.sel with
  | none => Grid.whole q.dims
  | some bb => layout q.fortran bb

def size (q : Input) : Nat := Grid.volume (Grid.sizes q.selection)

/-- `rawDataSize` -/
def rawDataSize (q : Input) : UInt64 :=
  match q.sel with
  | none => q.varinfo.dims.foldl (· * ·) 1
  | some bb => bb.count.foldl (· * ·) 1

def leaf (q : Input) : Leaf where
  fortran := q.fortran
  varinfo := q.varinfo
  sel := q.sel
  rawDataSize := q.rawDataSize
  timeStep := q.timeStep
  handle := fun b => some (q.hits b)

/-- The slice, if one is built, has a 1 for the elements of the selection that satisfy the
comparison and a 0 for the others, in their linear order; nothing is written outside of it. -/
def Exact (q : Input) : Prop :=
  match evaluateWithIdxOnBoundingBox q.leaf with
  | .error _ => False
  | .ok (.slice bits) => bits.length = q.size ∧ ∀ p < q.size,
      bits[p]? = some (if q.satisfies (Grid.elementAt q.selection p) then 1 else 0)
  | .ok _ => True

/-! ## Where hits land -/

def FirstTaking (q : Input) (corner : List UInt64) (b : Nat) : Prop :=
  q.varinfo.dims ≠ [] ∧ (∃ block, q.blocks[b]? = some block ∧ blockTakes block corner = true) ∧
    ∀ (j : Nat) (block : BoundingBox), j < b → q.blocks[j]? = some block →
      blockTakes block corner = false

def lastCorner (bb : BoundingBox) : List UInt64 :=
  List.zipWith (fun start count => start + count - 1) bb.start bb.count

/-- The blocks that are gone through: all, or those from the one taken for the first corner of the
box to the one taken for its last corner. -/
def Visited (q : Input) (b : Nat) : Prop :=
  match q.sel with
  | none => b < q.blocks.length
  | some bb => ∃ first last, q.FirstTaking bb.start first ∧ q.FirstTaking (lastCorner bb) last ∧
      first ≤ b ∧ b ≤ last

def Hit (q : Input) (b k : Nat) : Prop :=
  ∃ block, q.blocks[b]? = some block ∧ k < Grid.volume (Grid.sizes (layout q.fortran block)) ∧
    q.satisfies (Grid.elementAt (layout q.fortran block) k) = true

inductive Landing where
  | fault
  | outside
  | entry (p : Nat)
  deriving DecidableEq

def entryOf (q : Input) (element : List Nat) : Landing :=
  if Grid.Contains q.selection element then .entry (Grid.place q.selection element) else .outside

def home (q : Input) (b k : Nat) : Landing :=
  match q.blocks[b]? with
  | none => .fault
  | some block => q.entryOf (Grid.elementAt (layout q.fortran block) k)

def blocksBefore (q : Input) : Nat :=
  if 1 < q.varinfo.nsteps ∧ 0 < q.timeStep then q.varinfo.nblocks.getD (q.timeStep - 1) 0 else 0

/-- Where a hit of a block lands: it is taken for the element at its position in the block that is
that many blocks behind the ones of the step before, counted from the first block of all. Without a
box the place is computed with the sizes in the order of the caller. -/
def landing (q : Input) (b k : Nat) : Landing :=
  match q.varinfo.blockinfo[b + q.blocksBefore]? with
  | none => .fault
  | some block =>
    if layout q.fortran block = [] ∨ ∃ s ∈ (layout q.fortran block).tail, s.count = 0 then .fault
    else
      match q.sel with
      | some _ => q.entryOf (Grid.elementAt (layout q.fortran block) k)
      | none => .entry (Grid.linear (q.varinfo.dims.map UInt64.toNat)
          (Grid.elementAt (layout q.fortran block) k))

/-- The hits of the blocks that are gone through arrive. A hit that lands where it does not belong
comes to the entry of another element that satisfies the comparison, or to none; an entry that the
hit of its own element does not come to is set by another one. -/
structure Arrive (q : Input) : Prop where
  size_le : q.size ≤ 2147483647
  strays : ∀ b k, q.Visited b → q.Hit b k → q.landing b k ≠ q.home b k →
    q.landing b k = .outside ∨ ∃ p < q.size, q.landing b k = .entry p ∧
      q.satisfies (Grid.elementAt q.selection p) = true
  missed : ∀ b k p, q.Hit b k → q.home b k = .entry p →
    ¬(q.Visited b ∧ q.landing b k = .entry p) →
    ∃ b' k', q.Visited b' ∧ q.Hit b' k' ∧ q.landing b' k' = .entry p

/-! ## Sizes and numbers of blocks -/

theorem toNat_foldl_mul (counts : List UInt64) (x : UInt64) :
    (counts.foldl (· * ·) x).toNat =
      x.toNat * Grid.volume (counts.map UInt64.toNat) % 18446744073709551616 := by
  induction counts generalizing x with
  | nil =>
    show x.toNat = x.toNat * 1 % 18446744073709551616
    rw [Nat.mul_one, Nat.mod_eq_of_lt x.toNat_lt]
  | cons c counts ih =>
    rw [foldl_cons, ih, UInt64.toNat_mul, map_cons, Grid.volume_cons, ← Nat.mul_assoc]
    exact Nat.mod_mul_mod _ _ _

theorem volume_extents (fortran : Bool) (dims : List UInt64) :
    Grid.volume (extents fortran dims) = Grid.volume (dims.map UInt64.toNat) := by
  cases fortran with
  | false => rfl
  | true => exact Grid.volume_reverse _

theorem volume_layout (fortran : Bool) (b : BoundingBox) :
    Grid.volume (Grid.sizes (layout fortran b)) = Grid.volume (b.count.map UInt64.toNat) := by
  have hcount : (b.start.zip b.count).map Prod.snd = b.count :=
    map_snd_zip (Nat.le_of_eq b.start_length.symm)
  have hzip : Grid.sizes (spans (b.start.zip b.count)) = b.count.map UInt64.toNat := by
    rw [← congrArg (List.map UInt64.toNat) hcount, Grid.sizes, spans, map_map, map_map]
    rfl
  cases fortran with
  | false =>
    show Grid.volume (Grid.sizes (spans (b.start.zip b.count).reverse).reverse) = _
    rw [spans, map_reverse, reverse_reverse]
    exact congrArg Grid.volume hzip
  | true =>
    show Grid.volume (Grid.sizes (spans (b.start.zip b.count)).reverse) = _
    rw [Grid.sizes, map_reverse, Grid.volume_reverse]
    exact congrArg Grid.volume hzip

theorem selection_inside (q : Input) : Grid.Inside q.selection q.dims := by
  unfold selection
  cases hsel : q.sel with
  | none => exact Grid.inside_whole q.dims
  | some bb => exact q.sel_inside bb hsel

theorem size_lt (q : Input) : q.size < 9223372036854775808 :=
  Nat.lt_of_le_of_lt (Grid.volume_mono (Grid.sizes_le_of_inside q.selection_inside)) q.small

theorem rawDataSize_toNat (q : Input) : q.rawDataSize.toNat = q.size := by
  have hsmall := q.size_lt
  have hone : (1 : UInt64).toNat = 1 := rfl
  unfold size selection at hsmall ⊢
  unfold rawDataSize
  cases hsel : q.sel with
  | none =>
    simp only [hsel] at hsmall
    have hvolume : Grid.volume (Grid.sizes (Grid.whole q.dims)) =
        Grid.volume (q.varinfo.dims.map UInt64.toNat) := by
      rw [Grid.sizes_whole]
      exact volume_extents _ _
    show (q.varinfo.dims.foldl (· * ·) 1).toNat = Grid.volume (Grid.sizes (Grid.whole q.dims))
    rw [hvolume] at hsmall ⊢
    rw [toNat_foldl_mul, hone, Nat.one_mul, Nat.mod_eq_of_lt (by omega)]
  | some bb =>
    simp only [hsel] at hsmall
    show (bb.count.foldl (· * ·) 1).toNat = Grid.volume (Grid.sizes (layout q.fortran bb))
    rw [volume_layout] at hsmall ⊢
    rw [toNat_foldl_mul, hone, Nat.one_mul, Nat.mod_eq_of_lt (by omega)]

theorem sumBlocksBeforeThisTimeStep_eq (q : Input) :
    q.leaf.sumBlocksBeforeThisTimeStep = q.blocksBefore := by
  show (if 1 < q.varinfo.nsteps then
    (List.range q.timeStep).foldl (fun _ i => q.varinfo.nblocks.getD i 0) 0 else 0) = q.blocksBefore
  unfold blocksBefore
  by_cases hsteps : 1 < q.varinfo.nsteps
  · rw [if_pos hsteps]
    cases q.timeStep with
    | zero => simp
    | succ t =>
      rw [range_succ, foldl_append, if_pos ⟨hsteps, Nat.succ_pos t⟩]
      rfl
  · rw [if_neg hsteps, if_neg fun h => hsteps h.1]

theorem take_drop_flatten {α : Type} (ls : List (List α)) (t : Nat) :
    (ls.flatten.drop (((ls.map (·.length)).take t).foldl (· + ·) 0)).take
      ((ls.map (·.length)).getD t 0) = ls.getD t [] := by
  rw [← sum_eq_foldl_nat]
  induction ls generalizing t with
  | nil => rfl
  | cons l ls ih =>
    cases t with
    | zero =>
      show ((l ++ ls.flatten).drop 0).take l.length = l
      rw [drop_zero, take_left]
    | succ t =>
      rw [map_cons, take_succ_cons, sum_cons, flatten_cons, drop_length_add_append]
      exact ih t

theorem blocks_length (q : Input) :
    q.varinfo.nblocks.getD (if q.varinfo.nsteps = 1 then 0 else q.timeStep) 0 = q.blocks.length :=
  getD_map q.varinfo.steps [] (·.length)

theorem flatten_of_length_one {α : Type} {ls : List (List α)} (h : ls.length = 1) :
    ls.flatten = ls.getD 0 [] := by
  obtain ⟨l, rfl⟩ := length_eq_one_iff.mp h
  exact append_nil l

theorem getRelativeBlockNumForPoint_eq (q : Input) (point : List UInt64) :
    getRelativeBlockNumForPoint q.varinfo point q.timeStep =
      ((q.blocks.findIdx? fun block => q.varinfo.dims ≠ [] && blockTakes block point).map
        Int.ofNat).getD (-1) := by
  have hblocks : (if q.varinfo.nsteps = 1 then q.varinfo.blockinfo
      else (q.varinfo.blockinfo.drop ((q.varinfo.nblocks.take q.timeStep).foldl (· + ·) 0)).take
        (q.varinfo.nblocks.getD q.timeStep 0)) = q.blocks := by
    unfold blocks
    by_cases hone : q.varinfo.nsteps = 1
    · rw [if_pos hone, if_pos hone]
      exact flatten_of_length_one hone
    · rw [if_neg hone, if_neg hone]
      exact take_drop_flatten _ _
  unfold getRelativeBlockNumForPoint
  simp only [hblocks]
  cases q.blocks.findIdx? _ <;> rfl

variable {q : Input} {b k : Nat} {block : BoundingBox}

theorem getRelativeBlockNumForPoint_of_firstTaking {point : List UInt64} (h : q.FirstTaking point b)
    : getRelativeBlockNumForPoint q.varinfo point q.timeStep = b := by
  obtain ⟨hdims, ⟨block, hblock, htakes⟩, hbefore⟩ := h
  obtain ⟨hlt, hget⟩ := List.getElem?_eq_some_iff.mp hblock
  have hfind : q.blocks.findIdx? (fun block => q.varinfo.dims ≠ [] && blockTakes block point) =
      some b := by
    refine List.findIdx?_eq_some_iff_getElem.mpr ⟨hlt, ?_, fun j hj => ?_⟩
    · rw [hget, htakes]
      simpa using hdims
    · have hfalse := hbefore j _ hj (getElem?_eq_getElem (Nat.lt_trans hj hlt))
      rw [hfalse, Bool.and_false]
      decide
  rw [getRelativeBlockNumForPoint_eq, hfind]
  rfl

theorem firstTaking_of_getRelativeBlockNumForPoint {point : List UInt64}
    (h : getRelativeBlockNumForPoint q.varinfo point q.timeStep = b) : q.FirstTaking point b := by
  rw [getRelativeBlockNumForPoint_eq] at h
  cases hfind : q.blocks.findIdx? (fun block => q.varinfo.dims ≠ [] && blockTakes block point) with
  | none =>
    rw [hfind] at h
    have hneg : (-1 : Int) = b := h
    omega
  | some i =>
    rw [hfind] at h
    have hi : i = b := Int.ofNat.inj h
    subst hi
    obtain ⟨hlt, htakes, hbefore⟩ := List.findIdx?_eq_some_iff_getElem.mp hfind
    rw [Bool.and_eq_true, decide_eq_true_eq] at htakes
    refine ⟨htakes.1, ⟨_, getElem?_eq_getElem hlt, htakes.2⟩, fun j block hj hblock => ?_⟩
    have hfalse := hbefore j hj
    obtain ⟨hjlt, rfl⟩ := List.getElem?_eq_some_iff.mp hblock
    rw [Bool.and_eq_true, decide_eq_true_eq] at hfalse
    exact Bool.eq_false_iff.mpr fun htrue => hfalse ⟨htakes.1, htrue⟩

theorem getRelativeBlockNumForPoint_cases (q : Input) (point : List UInt64) :
    (∃ b : Nat, getRelativeBlockNumForPoint q.varinfo point q.timeStep = b ∧
      q.FirstTaking point b) ∨
    (getRelativeBlockNumForPoint q.varinfo point q.timeStep = -1 ∧
      ∀ b, ¬q.FirstTaking point b) := by
  by_cases hex : ∃ b, q.FirstTaking point b
  · obtain ⟨b, hb⟩ := hex
    exact .inl ⟨b, getRelativeBlockNumForPoint_of_firstTaking hb, hb⟩
  · refine .inr ⟨?_, fun b hb => hex ⟨b, hb⟩⟩
    rw [getRelativeBlockNumForPoint_eq]
    cases hfind :
        q.blocks.findIdx? (fun block => q.varinfo.dims ≠ [] && blockTakes block point) with
    | none => rfl
    | some b =>
      refine absurd ⟨b, firstTaking_of_getRelativeBlockNumForPoint ?_⟩ hex
      rw [getRelativeBlockNumForPoint_eq, hfind]
      rfl

theorem blockRange_cases (q : Input) :
    (∃ first last : Nat, q.leaf.blockRange = (↑first, ↑last) ∧ first ≤ last ∧
      ∀ b, q.Visited b ↔ first ≤ b ∧ b ≤ last) ∨
    ((q.leaf.blockRange.1 < 0 ∨ q.leaf.blockRange.2 < 0 ∨
      q.leaf.blockRange.1 > q.leaf.blockRange.2) ∧ ∀ b, ¬q.Visited b) := by
  cases hsel : q.sel with
  | none =>
    have hvisited (b : Nat) : q.Visited b ↔ b < q.blocks.length := by
      unfold Visited
      rw [hsel]
    have hrange : q.leaf.blockRange = (0, (q.blocks.length : Int) - 1) := by
      have hleaf : q.leaf.sel = none := hsel
      rw [← q.blocks_length, Leaf.blockRange, hleaf]
      show (if q.varinfo.nsteps = 1 then _ else _) = _
      split_ifs <;> rfl
    rw [hrange]
    by_cases hlen : q.blocks.length = 0
    · refine .inr ⟨.inr (.inl ?_), fun b hb => ?_⟩
      · show (q.blocks.length : Int) - 1 < 0
        omega
      · rw [hvisited, hlen] at hb
        exact Nat.not_lt_zero b hb
    · refine .inl ⟨0, q.blocks.length - 1, ?_, Nat.zero_le _, fun b => ?_⟩
      · have hlast : ((q.blocks.length - 1 : Nat) : Int) = (q.blocks.length : Int) - 1 := by omega
        rw [hlast]
        rfl
      · rw [hvisited]
        omega
  | some bb =>
    have hvisited (b : Nat) : q.Visited b ↔ ∃ first last, q.FirstTaking bb.start first ∧
        q.FirstTaking (lastCorner bb) last ∧ first ≤ b ∧ b ≤ last := by
      unfold Visited
      rw [hsel]
    have hrange : q.leaf.blockRange =
        (getRelativeBlockNumForPoint q.varinfo bb.start q.timeStep,
          getRelativeBlockNumForPoint q.varinfo (lastCorner bb) q.timeStep) := by
      have hleaf : q.leaf.sel = some bb := hsel
      rw [Leaf.blockRange, hleaf]
      rfl
    rw [hrange]
    obtain ⟨first, hfirst, hfirstTaking⟩ | ⟨hnone, hall⟩ :=
      q.getRelativeBlockNumForPoint_cases bb.start
    · obtain ⟨last, hlast, hlastTaking⟩ | ⟨hnone, hall⟩ :=
        q.getRelativeBlockNumForPoint_cases (lastCorner bb)
      · have hiff (b : Nat) : q.Visited b ↔ first ≤ b ∧ b ≤ last := by
          rw [hvisited]
          constructor
          · rintro ⟨i, j, hi, hj, hle⟩
            have hieq := getRelativeBlockNumForPoint_of_firstTaking hi
            have hjeq := getRelativeBlockNumForPoint_of_firstTaking hj
            rw [hfirst] at hieq
            rw [hlast] at hjeq
            omega
          · intro hle
            exact ⟨first, last, hfirstTaking, hlastTaking, hle⟩
        rw [hfirst, hlast]
        by_cases hle : first ≤ last
        · exact .inl ⟨first, last, rfl, hle, hiff⟩
        · refine .inr ⟨.inr (.inr ?_), fun b hb => ?_⟩
          · show (first : Int) > last
            omega
          · have hbetween := (hiff b).mp hb
            omega
      · refine .inr ⟨.inr (.inl ?_), fun b hb => ?_⟩
        · rw [hnone]
          show (-1 : Int) < 0
          decide
        · obtain ⟨_, j, _, hj, _⟩ := (hvisited b).mp hb
          exact hall j hj
    · refine .inr ⟨.inl ?_, fun b hb => ?_⟩
      · rw [hnone]
        show (-1 : Int) < 0
        decide
      · obtain ⟨i, _, hi, _⟩ := (hvisited b).mp hb
        exact hall i hi

theorem lt_length_of_visited (h : q.Visited b) : b < q.blocks.length := by
  unfold Visited at h
  cases hsel : q.sel with
  | none =>
    rw [hsel] at h
    exact h
  | some bb =>
    rw [hsel] at h
    obtain ⟨_, last, _, ⟨_, ⟨block, hblock, _⟩, _⟩, _, hle⟩ := h
    exact Nat.lt_of_le_of_lt hle (List.getElem?_eq_some_iff.mp hblock).1

/-! ## Blocks -/

theorem timeStep_index_lt (q : Input) :
    (if q.varinfo.nsteps = 1 then 0 else q.timeStep) < q.varinfo.steps.length := by
  have hvalid := q.timeStep_valid
  unfold VarInfo.nsteps at *
  split_ifs <;> omega

theorem blocks_mem_steps (q : Input) : q.blocks ∈ q.varinfo.steps := by
  unfold blocks
  rw [getD_eq_getElem _ _ q.timeStep_index_lt]
  exact getElem_mem _

theorem inside_of_mem_steps {blocks : List BoundingBox} (hblocks : blocks ∈ q.varinfo.steps)
    (h : block ∈ blocks) :
    Grid.Inside (layout q.fortran block) q.dims :=
  (q.decomposes blocks hblocks).inside _ (mem_map_of_mem h)

theorem inside_of_getElem? (h : q.blocks[b]? = some block) :
    Grid.Inside (layout q.fortran block) q.dims :=
  inside_of_mem_steps q.blocks_mem_steps (mem_of_getElem? h)

theorem inside_of_blockinfo {i : Nat} (h : q.varinfo.blockinfo[i]? = some block) :
    Grid.Inside (layout q.fortran block) q.dims := by
  obtain ⟨blocks, hblocks, hmem⟩ := mem_flatten.mp (mem_of_getElem? h)
  exact inside_of_mem_steps hblocks hmem

theorem exists_hit {p : Nat} (hp : p < q.size)
    (hsat : q.satisfies (Grid.elementAt q.selection p) = true) :
    ∃ b k, q.Hit b k ∧ q.home b k = .entry p := by
  have hin := Grid.contains_elementAt hp
  have hwithin := Grid.within_of_contains q.selection_inside hin
  obtain ⟨b, ⟨box, hbox, hcontains⟩, _⟩ :=
    (q.decomposes _ q.blocks_mem_steps).existsUnique _ hwithin
  rw [getElem?_map, Option.map_eq_some_iff] at hbox
  obtain ⟨block, hblock, rfl⟩ := hbox
  have helement := Grid.elementAt_place hcontains
  refine ⟨b, Grid.place _ (Grid.elementAt q.selection p),
    ⟨block, hblock, Grid.place_lt hcontains, ?_⟩, ?_⟩
  · rw [helement]
    exact hsat
  · have hhome : q.home b (Grid.place (layout q.fortran block) (Grid.elementAt q.selection p)) =
        q.entryOf (Grid.elementAt q.selection p) := by
      unfold home
      rw [hblock]
      exact congrArg q.entryOf helement
    rw [hhome, entryOf, if_pos hin, Grid.place_elementAt hp]

theorem home_eq_entry {p : Nat} (hit : q.Hit b k) (h : q.home b k = .entry p) :
    p < q.size ∧ q.satisfies (Grid.elementAt q.selection p) = true := by
  obtain ⟨block, hblock, _, hsat⟩ := hit
  unfold home at h
  rw [hblock] at h
  have hentry : q.entryOf (Grid.elementAt (layout q.fortran block) k) = .entry p := h
  unfold entryOf at hentry
  split_ifs at hentry with hin
  cases hentry
  refine ⟨Grid.place_lt hin, ?_⟩
  rw [Grid.elementAt_place hin]
  exact hsat

theorem home_ne_fault (hit : q.Hit b k) : q.home b k ≠ .fault := by
  obtain ⟨block, hblock, _, _⟩ := hit
  unfold home
  rw [hblock]
  show q.entryOf _ ≠ .fault
  unfold entryOf
  split_ifs <;> exact fun h => by cases h

theorem mem_hits_iff (hb : b < q.blocks.length) {k : UInt64} :
    k ∈ q.hits b ↔ q.Hit b k.toNat := by
  have hblock := getElem?_eq_getElem hb
  rw [q.hits_exact b _ hblock k]
  constructor
  · intro h
    exact ⟨_, hblock, h⟩
  · rintro ⟨block, hblock', h⟩
    rw [hblock] at hblock'
    cases hblock'
    exact h

theorem lt_of_hit (hit : q.Hit b k) :
    k < Grid.volume q.dims ∧ Grid.volume q.dims < 9223372036854775808 := by
  obtain ⟨block, hblock, hk, _⟩ := hit
  exact ⟨Nat.lt_of_lt_of_le hk
    (Grid.volume_mono (Grid.sizes_le_of_inside (inside_of_getElem? hblock))), q.small⟩

end Input
end Adios.FastBit
