import Adios.Query.FastBitPositions

/-!
# Adios — coordinates and positions

The conversions that the FastBit method makes between a linear position and coordinates, for a box,
a block or a variable. `getCoordinateFromBox` is `getCoordinateFromBlock` with another type of
extents; for a variable all starts are 0, and the order of its dimensions is not that of the caller.
-/

namespace Adios.FastBit

open List UInt64

/-- `getCoordinateFromBox` -/
def getCoordinateFromBox (slices : List (UInt64 × UInt64)) (pos : UInt64) :
    Except Fault (List UInt64) :=
  getCoordinateFromBlock slices pos

/-- The recursion of `getCoordinateFromVariable`, with the last dimension first. -/
def coordinateFromVariable : List UInt64 → UInt64 → Except Fault (List UInt64)
  | [], _ => .error .outOfBounds
  | [_], pos => .ok [pos]
  | lastDimSize :: dims, pos => do
    if lastDimSize = 0 then .error .divisionByZero
    else
      let res := pos % lastDimSize
      let stepUp := (pos - res) / lastDimSize
      let coordinates ← coordinateFromVariable dims stepUp
      return res :: coordinates

/-- `getCoordinateFromVariable` -/
def getCoordinateFromVariable (v : VarInfo) (pos : UInt64) : Except Fault (List UInt64) :=
  coordinateFromVariable v.dims.reverse pos

/-! ## What the conversions are for -/

structure PlacedBox where
  fortran : Bool
  sel : BoundingBox
  stop_le : ∀ s ∈ layout fortran sel, s.stop ≤ 2 ^ 64

inductive Container where
  | box (b : PlacedBox)
  | block (b : PlacedBox)
  | var (v : VarInfo)

namespace Container

/-- The coordinates at a position, `coordinates [ndim - 1]` first. -/
def getCoordinate : Container → UInt64 → Except Fault (List UInt64)
  | .box b => getCoordinateFromBox (slices b.fortran b.sel)
  | .block b => getCoordinateFromBlock (slices b.fortran b.sel)
  | .var v => getCoordinateFromVariable v

def getPos : Container → List UInt64 → Int
  | .box b | .block b => getPosInBox (slices b.fortran b.sel)
  | .var v => getPosInVariable v

def extent : Container → List Grid.Span
  | .box b | .block b => layout b.fortran b.sel
  | .var v => Grid.whole (v.dims.map UInt64.toNat)

def volume (c : Container) : Nat := Grid.volume (Grid.sizes c.extent)

def point (coordinates : List UInt64) : List Nat := (coordinates.map UInt64.toNat).reverse

/-- `getPosInVariable` does not look whether there is such an element. -/
def IsChecked : Container → Prop
  | .box _ | .block _ => True
  | .var _ => False

/-- Each position leads to an element and back, each element to its position and back, and no other
coordinates have a position in a box. -/
structure Inverse (c : Container) : Prop where
  back : ∀ pos : UInt64, pos.toNat < c.volume → ∃ coordinates,
    c.getCoordinate pos = .ok coordinates ∧
      point coordinates = Grid.elementAt c.extent pos.toNat ∧ c.getPos coordinates = pos.toNat
  forth : ∀ coordinates, Grid.Contains c.extent (point coordinates) → ∃ pos : UInt64,
    c.getPos coordinates = pos.toNat ∧
      pos.toNat = Grid.place c.extent (point coordinates) ∧ c.getCoordinate pos = .ok coordinates
  outside : c.IsChecked → ∀ coordinates, coordinates.length = c.extent.length →
    ¬Grid.Contains c.extent (point coordinates) → c.getPos coordinates = -1

/-- There is a dimension, the positions are below 2 ^ 63, and in a box that is not empty each end is
a number of 64 bits. -/
structure Clear (c : Container) : Prop where
  ndim : c.extent ≠ []
  volume_le : c.volume ≤ 2 ^ 63
  stop_lt : c.IsChecked → 0 < c.volume → ∀ s ∈ c.extent, s.stop < 2 ^ 64

end Container

/-! ## From a position to an element and back -/

section Slices

variable {slices : List (UInt64 × UInt64)} {coordinates : List UInt64} {pos : UInt64}

theorem sizes_reverse_spans (slices : List (UInt64 × UInt64)) :
    Grid.volume (Grid.sizes (spans slices).reverse) = Grid.volume (Grid.sizes (spans slices)) := by
  rw [Grid.sizes, map_reverse, Grid.volume_reverse, Grid.sizes]

theorem getCoordinateFromBlock_of_lt (hne : slices ≠ [])
    (hstop : ∀ s ∈ slices, s.1.toNat + s.2.toNat ≤ 2 ^ 64)
    (hpos : pos.toNat < Grid.volume (Grid.sizes (spans slices))) :
    ∃ coordinates, getCoordinateFromBlock slices pos = .ok coordinates ∧
      coordinates.map UInt64.toNat = (Grid.elementAt (spans slices).reverse pos.toNat).reverse := by
  induction slices generalizing pos with
  | nil => exact absurd rfl hne
  | cons s slices ih =>
    have hfit := hstop s mem_cons_self
    rw [spans_cons, Grid.sizes_cons, Grid.volume_cons] at hpos
    by_cases hlast : slices = []
    · subst hlast
      have hlt : pos.toNat < s.2.toNat * 1 := hpos
      refine ⟨[pos + s.1], rfl, ?_⟩
      show [(pos + s.1).toNat] = [pos.toNat / 1 + s.1.toNat]
      rw [UInt64.toNat_add, Nat.mod_eq_of_lt (by omega), Nat.div_one]
    · have hpositive : 0 < s.2.toNat :=
        Nat.pos_of_mul_pos_right (Nat.lt_of_le_of_lt (Nat.zero_le _) hpos)
      have hs : s.2 ≠ 0 := by
        rintro hzero
        rw [hzero] at hpositive
        exact Nat.lt_irrefl 0 hpositive
      have hup := stepUp_toNat hs pos
      have hrest : ((pos - pos % s.2) / s.2).toNat < Grid.volume (Grid.sizes (spans slices)) := by
        rw [hup]
        exact Nat.div_lt_of_lt_mul hpos
      obtain ⟨coordinates, hrun, hmap⟩ :=
        ih hlast (fun t ht => hstop t (mem_cons_of_mem s ht)) hrest
      refine ⟨(pos % s.2 + s.1) :: coordinates, ?_, ?_⟩
      · rw [getCoordinateFromBlock_cons s hlast, if_neg hs, hrun]
        rfl
      · have hrem := Nat.mod_lt pos.toNat hpositive
        rw [map_cons, hmap, hup, spans_cons, reverse_cons,
          Grid.elementAt_append_singleton (spans_reverse_ne_nil hlast), reverse_append,
          UInt64.toNat_add, UInt64.toNat_mod, Nat.mod_eq_of_lt (by omega)]
        rfl

theorem insideBox_iff_of_le (hlen : coordinates.length = slices.length)
    (hstop : ∀ s ∈ slices, s.1.toNat + s.2.toNat ≤ 2 ^ 64) :
    insideBox slices coordinates = true ↔
      Grid.Contains (spans slices) (coordinates.map UInt64.toNat) ∧
        ∀ s ∈ slices, s.1.toNat + s.2.toNat < 2 ^ 64 := by
  by_cases hall : ∀ s ∈ slices, s.1.toNat + s.2.toNat < 2 ^ 64
  · rw [insideBox_iff hlen hall]
    exact ⟨fun h => ⟨h, hall⟩, And.left⟩
  · refine iff_of_false (fun hinside => hall ?_) fun h => hall h.2
    intro s hs
    obtain ⟨i, hi, rfl⟩ := getElem_of_mem hs
    have hpair : (slices[i], coordinates[i]) ∈ slices.zip coordinates := by
      rw [mem_iff_getElem]
      exact ⟨i, by rw [length_zip]; omega, getElem_zip⟩
    have hchecks := all_eq_true.mp hinside _ hpair
    have hfit := hstop slices[i] (getElem_mem hi)
    by_contra hlast
    have hzero : slices[i].2 + slices[i].1 = 0 := by
      rw [← UInt64.toNat_inj, UInt64.toNat_add]
      show _ % 2 ^ 64 = 0
      omega
    simp [hzero] at hchecks

theorem getPosInBox_of_inside (hne : slices ≠ []) (h : insideBox slices coordinates = true) :
    getPosInBox slices coordinates = toInt64 (posInBox slices coordinates) := by
  rw [getPosInBox, if_neg hne, if_pos h]

theorem getPosInBox_of_outside (h : ¬insideBox slices coordinates = true) :
    getPosInBox slices coordinates = -1 := by
  rw [getPosInBox, if_neg h, ite_self]

theorem toInt64_posInBox (h : Grid.Contains (spans slices) (coordinates.map UInt64.toNat))
    (hsmall : Grid.volume (Grid.sizes (spans slices)) ≤ 2 ^ 63) :
    toInt64 (posInBox slices coordinates) = (posInBox slices coordinates).toNat ∧
      (posInBox slices coordinates).toNat =
        Grid.place (spans slices).reverse (coordinates.map UInt64.toNat).reverse := by
  have hplace := posInBox_toNat h (by omega)
  have hlt := Grid.place_lt (forall₂_reverse_iff.mpr h)
  rw [sizes_reverse_spans] at hlt
  refine ⟨toInt64_of_lt ?_, hplace⟩
  omega

theorem getCoordinateFromBlock_posInBox (hne : slices ≠ [])
    (hstop : ∀ s ∈ slices, s.1.toNat + s.2.toNat ≤ 2 ^ 64)
    (h : Grid.Contains (spans slices) (coordinates.map UInt64.toNat))
    (hsmall : Grid.volume (Grid.sizes (spans slices)) ≤ 2 ^ 63) :
    getCoordinateFromBlock slices (posInBox slices coordinates) = .ok coordinates := by
  have hreverse := forall₂_reverse_iff.mpr h
  have hplace := (toInt64_posInBox h hsmall).2
  have hlt := Grid.place_lt hreverse
  rw [sizes_reverse_spans, ← hplace] at hlt
  obtain ⟨found, hrun, hmap⟩ := getCoordinateFromBlock_of_lt hne hstop hlt
  rw [hplace, Grid.elementAt_place hreverse, reverse_reverse] at hmap
  rw [hrun, map_injective_iff.mpr (fun _ _ => UInt64.toNat_inj.mp) hmap]

theorem posInBox_of_elementAt
    (hpos : pos.toNat < Grid.volume (Grid.sizes (spans slices)))
    (hmap : coordinates.map UInt64.toNat =
      (Grid.elementAt (spans slices).reverse pos.toNat).reverse)
    (hsmall : Grid.volume (Grid.sizes (spans slices)) ≤ 2 ^ 63) :
    Grid.Contains (spans slices) (coordinates.map UInt64.toNat) ∧
      toInt64 (posInBox slices coordinates) = pos.toNat := by
  rw [← sizes_reverse_spans] at hpos
  have hcontains : Grid.Contains (spans slices) (coordinates.map UInt64.toNat) := by
    rw [hmap]
    exact forall₂_reverse_iff.mp (by
      rw [reverse_reverse]
      exact Grid.contains_elementAt hpos)
  have hplace := toInt64_posInBox hcontains hsmall
  refine ⟨hcontains, ?_⟩
  rw [hplace.1, hplace.2, hmap, reverse_reverse, Grid.place_elementAt hpos]

end Slices

/-! ## A variable is a box from 0 on -/

def fromZero (dims : List UInt64) : List (UInt64 × UInt64) := dims.map fun d => (0, d)

theorem coordinateFromVariable_eq (dims : List UInt64) (pos : UInt64) :
    coordinateFromVariable dims pos = getCoordinateFromBlock (fromZero dims) pos := by
  induction dims generalizing pos with
  | nil => rfl
  | cons d dims ih =>
    cases dims with
    | nil =>
      show Except.ok [pos] = .ok [pos + 0]
      rw [UInt64.add_zero]
    | cons d' dims =>
      have hsteps (stepUp : UInt64) :
          (coordinateFromVariable (d' :: dims) stepUp >>= fun coordinates =>
            .ok (pos % d :: coordinates)) =
          (getCoordinateFromBlock (fromZero (d' :: dims)) stepUp >>= fun coordinates =>
            .ok ((pos % d + 0) :: coordinates)) := by
        rw [ih, UInt64.add_zero]
      exact congrArg (if d = 0 then .error .divisionByZero else ·) (hsteps _)

theorem posInVariable_eq (dims coordinates : List UInt64) :
    posInVariable dims coordinates = posInBox (fromZero dims) coordinates := by
  induction dims generalizing coordinates with
  | nil => cases coordinates <;> rfl
  | cons d dims ih =>
    cases coordinates with
    | nil => cases dims <;> rfl
    | cons x coordinates =>
      show _ = posInBox ((0, d) :: fromZero dims) (x :: coordinates)
      rw [posInVariable_cons, posInBox_cons, ih, UInt64.sub_zero]

theorem spans_fromZero (dims : List UInt64) :
    spans (fromZero dims.reverse) = (Grid.whole (dims.map UInt64.toNat)).reverse := by
  rw [fromZero, map_reverse, spans, map_reverse, map_map, Grid.whole, map_map]
  rfl

/-! ## Exactly when -/

namespace Container

variable {c : Container}

def slicesOf : Container → List (UInt64 × UInt64)
  | .box b | .block b => slices b.fortran b.sel
  | .var v => fromZero v.dims.reverse

theorem spans_slicesOf (c : Container) : spans c.slicesOf = c.extent.reverse := by
  cases c with
  | box b | block b => exact (reverse_reverse _).symm
  | var v => exact spans_fromZero v.dims

theorem getCoordinate_eq (c : Container) (pos : UInt64) :
    c.getCoordinate pos = getCoordinateFromBlock c.slicesOf pos := by
  cases c with
  | box b | block b => rfl
  | var v => exact coordinateFromVariable_eq v.dims.reverse pos

theorem stop_le (c : Container) : ∀ s ∈ c.slicesOf, s.1.toNat + s.2.toNat ≤ 2 ^ 64 := by
  intro s hs
  have hspan : (⟨s.1.toNat, s.2.toNat⟩ : Grid.Span) ∈ c.extent := by
    rw [← mem_reverse, ← spans_slicesOf]
    exact mem_map_of_mem hs
  cases c with
  | box b | block b => exact b.stop_le _ hspan
  | var v =>
    obtain ⟨d, -, rfl⟩ := mem_map.mp hs
    show 0 + d.toNat ≤ 2 ^ 64
    have hlt := d.toNat_lt
    omega

theorem slicesOf_ne_nil (h : c.extent ≠ []) : c.slicesOf ≠ [] := by
  intro hnil
  have hspans := spans_slicesOf c
  rw [hnil] at hspans
  exact h (reverse_eq_nil_iff.mp hspans.symm)

theorem volume_eq (c : Container) : Grid.volume (Grid.sizes (spans c.slicesOf)) = c.volume := by
  rw [volume, spans_slicesOf, Grid.sizes, map_reverse, Grid.volume_reverse, Grid.sizes]

theorem contains_iff (coordinates : List UInt64) :
    Grid.Contains c.extent (point coordinates) ↔
      Grid.Contains (spans c.slicesOf) (coordinates.map UInt64.toNat) := by
  rw [spans_slicesOf, point, Grid.Contains, Grid.Contains, ← forall₂_reverse_iff, reverse_reverse]

theorem length_slicesOf (c : Container) : c.slicesOf.length = c.extent.length := by
  have hlen := congrArg List.length (spans_slicesOf c)
  rwa [spans, length_map, length_reverse] at hlen

theorem mem_slicesOf_iff (P : Nat → Prop) :
    (∀ s ∈ c.slicesOf, P (s.1.toNat + s.2.toNat)) ↔ ∀ s ∈ c.extent, P s.stop := by
  have hmem (s : Grid.Span) : s ∈ c.extent ↔ s ∈ spans c.slicesOf := by
    rw [spans_slicesOf, mem_reverse]
  simp only [hmem, spans, forall_mem_map]
  rfl

theorem getPos_of_inside (hne : c.extent ≠ []) {coordinates : List UInt64}
    (h : c.IsChecked → insideBox c.slicesOf coordinates = true) :
    c.getPos coordinates = toInt64 (posInBox c.slicesOf coordinates) := by
  have hslices := slicesOf_ne_nil hne
  cases c with
  | box b | block b =>
    exact getPosInBox_of_inside hslices (h trivial)
  | var v =>
    have hdims : v.dims ≠ [] := fun hnil => hne (by rw [extent, hnil]; rfl)
    show getPosInVariable v coordinates = _
    rw [getPosInVariable, if_neg hdims, posInVariable_eq]
    rfl

theorem getPos_of_outside (hchecked : c.IsChecked) {coordinates : List UInt64}
    (h : ¬insideBox c.slicesOf coordinates = true) : c.getPos coordinates = -1 := by
  cases c with
  | box b | block b =>
    exact getPosInBox_of_outside h
  | var v => exact hchecked.elim

theorem toInt64_lt (x : UInt64) : toInt64 x < 2 ^ 63 := by
  have hlt := x.toNat_lt
  unfold toInt64
  split
  · next hx =>
    rw [lt_iff_toNat_lt] at hx
    exact_mod_cast hx
  · omega

theorem getPos_lt (c : Container) (coordinates : List UInt64) : c.getPos coordinates < 2 ^ 63 := by
  have hlt (x : UInt64) : toInt64 x < 2 ^ 63 := toInt64_lt x
  cases c with
  | box b | block b =>
    show (if _ = [] then -1 else if _ then _ else _) < (2 : Int) ^ 63
    split
    · decide
    · split
      · exact hlt _
      · decide
  | var v =>
    show (if _ = [] then -1 else _) < (2 : Int) ^ 63
    split
    · decide
    · exact hlt _

theorem exists_contains (hpos : 0 < c.volume) :
    ∃ coordinates, Grid.Contains c.extent (point coordinates) := by
  refine ⟨c.slicesOf.map (·.1), (contains_iff _).mpr ?_⟩
  rw [← volume_eq] at hpos
  have hcounts := Grid.pos_of_volume_pos hpos
  rw [spans, map_map, Grid.Contains, forall₂_map_left_iff, forall₂_map_right_iff, forall₂_same]
  intro s hs
  have hmem : s.2.toNat ∈ Grid.sizes (spans c.slicesOf) :=
    mem_map_of_mem (mem_map_of_mem hs)
  have hcount := hcounts _ hmem
  show s.1.toNat ≤ s.1.toNat ∧ s.1.toNat < s.1.toNat + s.2.toNat
  omega

theorem ndim_of_inverse (h : c.Inverse) : c.extent ≠ [] := by
  intro hnil
  have hvolume : (0 : UInt64).toNat < c.volume := by
    rw [volume, hnil]
    decide
  obtain ⟨coordinates, hrun, -⟩ := h.back 0 hvolume
  have hslices : c.slicesOf = [] := by
    rw [← length_eq_zero_iff, length_slicesOf, hnil, length_nil]
  rw [getCoordinate_eq, hslices] at hrun
  cases hrun

theorem volume_le_of_inverse (h : c.Inverse) : c.volume ≤ 2 ^ 63 := by
  by_contra hlarge
  have hpos : (9223372036854775808 : UInt64).toNat < c.volume := Nat.not_le.mp hlarge
  obtain ⟨coordinates, -, -, hback⟩ := h.back _ hpos
  have hlt := getPos_lt c coordinates
  rw [hback] at hlt
  exact absurd hlt (by decide)

theorem stop_lt_of_inverse (h : c.Inverse) (hchecked : c.IsChecked) (hpos : 0 < c.volume) :
    ∀ s ∈ c.extent, s.stop < 2 ^ 64 := by
  by_contra hstop
  obtain ⟨coordinates, hcontains⟩ := exists_contains hpos
  obtain ⟨pos, hposition, -⟩ := h.forth coordinates hcontains
  have hlen : coordinates.length = c.slicesOf.length := by
    have hlen := Grid.length_of_contains hcontains
    rwa [point, length_reverse, length_map, ← length_slicesOf] at hlen
  have houtside : ¬insideBox c.slicesOf coordinates = true := by
    rw [insideBox_iff_of_le hlen (stop_le c), mem_slicesOf_iff (· < 2 ^ 64)]
    exact fun h => hstop h.2
  rw [getPos_of_outside hchecked houtside] at hposition
  omega

theorem inverse_of_clear (h : c.Clear) : c.Inverse := by
  have hslices := slicesOf_ne_nil h.ndim
  have hsmall : Grid.volume (Grid.sizes (spans c.slicesOf)) ≤ 2 ^ 63 := by
    rw [volume_eq]
    exact h.volume_le
  have hextent : (spans c.slicesOf).reverse = c.extent := by
    rw [spans_slicesOf, reverse_reverse]
  have hlength {coordinates : List UInt64}
      (hcontains : Grid.Contains (spans c.slicesOf) (coordinates.map UInt64.toNat)) :
      coordinates.length = c.slicesOf.length := by
    have hlen := Grid.length_of_contains hcontains
    rwa [length_map, spans, length_map] at hlen
  -- the comparison with the ends lets the elements of the box pass
  have hgetPos {coordinates : List UInt64} (hpos : 0 < c.volume)
      (hcontains : Grid.Contains (spans c.slicesOf) (coordinates.map UInt64.toNat)) :
      c.getPos coordinates = toInt64 (posInBox c.slicesOf coordinates) := by
    refine getPos_of_inside h.ndim fun hchecked => ?_
    rw [insideBox_iff_of_le (hlength hcontains) (stop_le c)]
    exact ⟨hcontains, (mem_slicesOf_iff (· < 2 ^ 64)).mpr (h.stop_lt hchecked hpos)⟩
  refine ⟨fun pos hpos => ?_, fun coordinates hcontains => ?_, fun hchecked coordinates hlen => ?_⟩
  · have hlt := hpos
    rw [← volume_eq] at hlt
    obtain ⟨coordinates, hrun, hmap⟩ := getCoordinateFromBlock_of_lt hslices (stop_le c) hlt
    obtain ⟨hcontains, hplace⟩ := posInBox_of_elementAt hlt hmap hsmall
    refine ⟨coordinates, ?_, ?_, ?_⟩
    · rw [getCoordinate_eq, hrun]
    · rw [point, hmap, reverse_reverse, hextent]
    · rw [hgetPos (Nat.zero_lt_of_lt hpos) hcontains, hplace]
  · have hpos : 0 < c.volume := Nat.zero_lt_of_lt (Grid.place_lt hcontains)
    rw [contains_iff] at hcontains
    have hplace := toInt64_posInBox hcontains hsmall
    refine ⟨posInBox c.slicesOf coordinates, ?_, ?_, ?_⟩
    · rw [hgetPos hpos hcontains, hplace.1]
    · rw [hplace.2, hextent, point]
    · rw [getCoordinate_eq, getCoordinateFromBlock_posInBox hslices (stop_le c) hcontains hsmall]
  · intro hcontains
    refine getPos_of_outside hchecked fun hinside => hcontains ?_
    rw [← length_slicesOf] at hlen
    exact (contains_iff coordinates).mpr ((insideBox_iff_of_le hlen (stop_le c)).mp hinside).1

/-- Exactly then positions and coordinates are inverse. -/
theorem positions_inverse_iff (c : Container) : c.Inverse ↔ c.Clear := by
  constructor
  · intro h
    exact ⟨ndim_of_inverse h, volume_le_of_inverse h, stop_lt_of_inverse h⟩
  · exact inverse_of_clear

def lastOfRow : Container :=
  .box ⟨false, ⟨[18446744073709551615], [1], rfl⟩, by decide⟩

/-- The end of the row is 0, so that its element has no position. -/
theorem not_inverse_lastOfRow : ¬lastOfRow.Inverse := by
  intro h
  obtain ⟨coordinates, hrun, -, hback⟩ := h.back 0 (by decide)
  have hfirst : lastOfRow.getCoordinate 0 = .ok [18446744073709551615] := by decide
  rw [hfirst] at hrun
  cases hrun
  exact absurd hback (by decide)

end Container

end Adios.FastBit
