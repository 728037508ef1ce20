import Adios.Query.Batches

/-!
# Adios — the elements of one box in another

`ridConversionWithCheck` and `ridConversionWithoutCheck`: the number of an element in the box of a
block is taken apart into coordinates, which are moved to the selection and put together again. The
numbers have 32 bits, the coordinates 64.
-/

namespace Adios

open List UInt64

structure RidDim where
  srcstart : UInt64
  srccount : UInt64
  deststart : UInt64
  destcount : UInt64
  deriving DecidableEq, Repr

/-- `destend [i]` -/
def RidDim.destend (d : RidDim) : UInt64 := d.deststart + d.destcount - 1

/-- The first loop of `coordinateConversionWithCheck`, from dimension `i` on: the coordinates in the
global array, or the negative number of a dimension in which they are outside. -/
def globalCoordinates (i : Nat) : List (RidDim × UInt64) → Except Int (List UInt64)
  | [] => .ok []
  | (d, c) :: dims =>
    let c := c + d.srcstart
    if c < d.deststart ∨ c > d.destend then .error ((i + 1) * -1)
    else do
      let coordinates ← globalCoordinates (i + 1) dims
      return c :: coordinates

/-- `coordinateConversionWithCheck`: the coordinates behind a call that returns 1, or the negative
value that it returns. -/
def coordinateConversionWithCheck (dims : List RidDim) (coordinates : List UInt64) :
    Except Int (List UInt64) := do
  let coordinates ← globalCoordinates 0 (dims.zip coordinates)
  return List.zipWith (fun d c => c - d.deststart) dims coordinates

/-- A loop over the counts and coordinates in `ridConversionWithCheck`, with `tmpRelativeRid`. -/
def recomposeRid (order : List (UInt64 × UInt64)) (tmpRelativeRid : Rid) : Rid :=
  order.foldl (fun tmpRelativeRid d =>
    let tmpRelativeRid := (tmpRelativeRid.toUInt64 * d.1).toUInt32
    (tmpRelativeRid.toUInt64 + d.2).toUInt32) tmpRelativeRid

/-- A loop over the counts and coordinates in `ridConversionWithoutCheck`. -/
def recompose (order : List (UInt64 × UInt64)) (relativeRid : UInt64) : UInt64 :=
  order.foldl (fun relativeRid d => relativeRid * d.1 + d.2) relativeRid

/-- `ridConversionWithCheck`: `*relativeRid`, or nothing for `false`. -/
def ridConversionWithCheck (rid : Rid) (dims : List RidDim) (corder : Bool) :
    Except Fault (Option Rid) := do
  if maxDims < dims.length then .error .outOfBounds
  else
    let coordinates ← ridToCoordinates corder rid (dims.map (·.srccount))
    match coordinateConversionWithCheck dims coordinates with
    | .error _ => return none
    | .ok coordinates =>
      let order := Grid.slowestFirst corder ((dims.map (·.destcount)).zip coordinates)
      return some (recomposeRid order 0)

/-- `ridConversionWithoutCheck` -/
def ridConversionWithoutCheck (rid : Rid) (dims : List RidDim) (corder : Bool) :
    Except Fault Rid := do
  if maxDims < dims.length then .error .outOfBounds
  else
    let coordinates ← ridToCoordinates corder rid (dims.map (·.srccount))
    let coordinates := List.zipWith (fun d c => c + d.srcstart - d.deststart) dims coordinates
    let order := Grid.slowestFirst corder ((dims.map (·.destcount)).zip coordinates)
    return (recompose order 0).toUInt32

/-! ## What a conversion is for -/

namespace RidDim

def src (d : RidDim) : Grid.Span := ⟨d.srcstart.toNat, d.srccount.toNat⟩

def dest (d : RidDim) : Grid.Span := ⟨d.deststart.toNat, d.destcount.toNat⟩

def swap (d : RidDim) : RidDim := ⟨d.deststart, d.destcount, d.srcstart, d.srccount⟩

structure Wf (d : RidDim) : Prop where
  src_stop : d.src.stop ≤ 2 ^ 64
  dest_stop : d.dest.stop ≤ 2 ^ 64

def Wraps (d : RidDim) : Prop := d.deststart = 0 ∧ d.destcount = 0

end RidDim

structure RidConversion where
  dims : List RidDim
  corder : Bool
  rid : Rid
  wf : ∀ d ∈ dims, d.Wf
  rid_lt : rid.toNat < Grid.volume (Grid.sizes (dims.map (·.src)))

namespace RidConversion

variable (c : RidConversion)

def src : List Grid.Span := c.dims.map (·.src)

def dest : List Grid.Span := c.dims.map (·.dest)

def element : List Nat := Grid.elementIn c.corder c.src c.rid.toNat

def withCheck : Except Fault (Option Rid) := ridConversionWithCheck c.rid c.dims c.corder

def withoutCheck : Except Fault Rid := ridConversionWithoutCheck c.rid c.dims c.corder

/-- The conversion with a check finds exactly the elements of the other box, at their places; the
one without gives the same where the other box has all elements; and both lead back. -/
structure Converts : Prop where
  outside : ¬Grid.Contains c.dest c.element → c.withCheck = .ok none
  inside : Grid.Contains c.dest c.element → ∃ rid, c.withCheck = .ok (some rid) ∧
    rid.toNat = Grid.placeIn c.corder c.dest c.element
  covered : (∀ p, Grid.Contains c.src p → Grid.Contains c.dest p) →
    ∃ rid, c.withCheck = .ok (some rid) ∧ c.withoutCheck = .ok rid
  back : ∀ rid, c.withCheck = .ok (some rid) →
    ridConversionWithCheck rid (c.dims.map RidDim.swap) c.corder = .ok (some c.rid) ∧
      ridConversionWithoutCheck rid (c.dims.map RidDim.swap) c.corder = .ok c.rid

/-- The coordinates have places in the arrays, the place in the other box is a number of 32 bits,
and an element that is outside is so in a dimension whose last coordinate does not wrap around. -/
structure Clear : Prop where
  ndim : c.dims.length ≤ maxDims
  inside : Grid.Contains c.dest c.element → Grid.placeIn c.corder c.dest c.element < 2 ^ 32
  outside : ¬Grid.Contains c.dest c.element → ∃ z ∈ c.dims.zip c.element,
    ¬(z.1.dest.start ≤ z.2 ∧ z.2 < z.1.dest.stop) ∧ ¬z.1.Wraps

end RidConversion

/-! ## One dimension -/

namespace RidDim

variable {d : RidDim}

def Accepts (d : RidDim) (x : Nat) : Prop :=
  (d.dest.start ≤ x ∧ x < d.dest.stop) ∨ d.Wraps

theorem toNat_global (h : d.Wf) {x : Nat} (hx : x < d.src.count) :
    (UInt64.ofNat x + d.srcstart).toNat = x + d.src.start := by
  have hstop := h.src_stop
  unfold Grid.Span.stop src at hstop
  unfold src at hx ⊢
  dsimp only at hx hstop ⊢
  rw [UInt64.toNat_add, toNat_ofNat']
  omega

theorem wraps_iff : d.Wraps ↔ d.dest.start = 0 ∧ d.dest.count = 0 := by
  unfold Wraps dest
  rw [← UInt64.toNat_inj, ← UInt64.toNat_inj]
  rfl

theorem accepts_iff (h : d.Wf) {x : Nat} (hx : x < d.src.count) :
    ¬(UInt64.ofNat x + d.srcstart < d.deststart ∨ UInt64.ofNat x + d.srcstart > d.destend) ↔
      d.Accepts (x + d.src.start) := by
  have hend : d.destend.toNat = (d.dest.start + d.dest.count + (2 ^ 64 - 1)) % 2 ^ 64 := by
    have hone : (1 : UInt64).toNat = 1 := rfl
    rw [destend, UInt64.toNat_sub, UInt64.toNat_add, hone]
    unfold dest
    dsimp only
    omega
  have hsrc := h.src_stop
  have hdest := h.dest_stop
  have hstart : d.deststart.toNat = d.dest.start := rfl
  have hstop : d.dest.stop = d.dest.start + d.dest.count := rfl
  have hsrcStop : d.src.stop = d.src.start + d.src.count := rfl
  rw [Accepts, wraps_iff, gt_iff_lt, lt_iff_toNat_lt, lt_iff_toNat_lt,
    toNat_global h hx, hend, hstart, hstop]
  rw [hstop] at hdest
  rw [hsrcStop] at hsrc
  omega

theorem Accepts.start_le {x : Nat} (h : d.Accepts x) : d.dest.start ≤ x := by
  rcases h with hin | hwraps
  · exact hin.1
  · rw [(wraps_iff.mp hwraps).1]
    exact Nat.zero_le x

theorem local_eq (h : d.Wf) {x : Nat} (hx : x < d.src.count)
    (hstart : d.dest.start ≤ x + d.src.start) :
    UInt64.ofNat x + d.srcstart - d.deststart = UInt64.ofNat (x + d.src.start - d.dest.start) := by
  have hglobal : UInt64.ofNat x + d.srcstart = UInt64.ofNat (x + d.src.start) := by
    rw [← toNat_global h hx, UInt64.ofNat_toNat]
  have hback : d.deststart = UInt64.ofNat d.dest.start := UInt64.ofNat_toNat.symm
  have hlt := h.src_stop
  unfold Grid.Span.stop at hlt
  rw [hglobal, hback, ofNat_sub hstart]

end RidDim

/-! ## All dimensions -/

section

variable {dims : List RidDim} {q : List Nat} (hwf : ∀ d ∈ dims, d.Wf)
  (hq : Grid.Within q (Grid.sizes (dims.map (·.src))))

include hwf hq

theorem globalCoordinates_accepted
    (haccepts : Forall₂ RidDim.Accepts dims (Grid.globalCoords (dims.map (·.src)) q))
    (i : Nat) :
    ∃ coordinates, globalCoordinates i (dims.zip (q.map UInt64.ofNat)) = .ok coordinates ∧
      List.zipWith (fun d c => c - d.deststart) dims coordinates =
        (Grid.localCoords (dims.map (·.dest))
          (Grid.globalCoords (dims.map (·.src)) q)).map UInt64.ofNat := by
  induction dims generalizing q i with
  | nil => exact ⟨[], rfl, rfl⟩
  | cons d dims ih =>
    cases hq with
    | @cons x _ q _ hx hq =>
      obtain ⟨hd, hwf⟩ := forall_mem_cons.mp hwf
      obtain ⟨hfirst, haccepts⟩ := forall₂_cons.mp haccepts
      obtain ⟨coordinates, hrun, hlocal⟩ := ih hwf hq haccepts (i + 1)
      have hpasses := (RidDim.accepts_iff hd hx).mpr hfirst
      refine ⟨(UInt64.ofNat x + d.srcstart) :: coordinates, ?_, ?_⟩
      · show globalCoordinates i ((d, UInt64.ofNat x) :: dims.zip (q.map UInt64.ofNat)) = _
        rw [globalCoordinates, if_neg hpasses, hrun]
        rfl
      · show _ :: _ = _ :: _
        rw [hlocal]
        exact congrArg (· :: _) (RidDim.local_eq hd hx hfirst.start_le)

theorem globalCoordinates_rejected
    (hrejects : ¬Forall₂ RidDim.Accepts dims (Grid.globalCoords (dims.map (·.src)) q))
    (i : Nat) : ∃ code, globalCoordinates i (dims.zip (q.map UInt64.ofNat)) = .error code := by
  induction dims generalizing q i with
  | nil =>
    cases hq
    exact absurd .nil hrejects
  | cons d dims ih =>
    cases hq with
    | @cons x _ q _ hx hq =>
      obtain ⟨hd, hwf⟩ := forall_mem_cons.mp hwf
      show ∃ code, globalCoordinates i ((d, UInt64.ofNat x) :: dims.zip (q.map UInt64.ofNat)) = _
      rw [globalCoordinates]
      by_cases hfirst : d.Accepts (x + d.src.start)
      · obtain ⟨code, hrun⟩ := ih hwf hq (fun hrest => hrejects (.cons hfirst hrest)) (i + 1)
        rw [if_neg ((RidDim.accepts_iff hd hx).mpr hfirst), hrun]
        exact ⟨code, rfl⟩
      · have hstops := not_not.mp (mt (RidDim.accepts_iff hd hx).mp hfirst)
        rw [if_pos hstops]
        exact ⟨_, rfl⟩

end

theorem toNat_recomposeRid (order : List (UInt64 × UInt64)) {rid : Rid} {n : Nat}
    (h : rid.toNat = n % 2 ^ 32) : (recomposeRid order rid).toNat =
    ((order.map (Prod.map UInt64.toNat UInt64.toNat)).foldl (fun n d => n * d.1 + d.2) n) %
      2 ^ 32 := by
  induction order generalizing rid n with
  | nil => exact h
  | cons d order ih =>
    refine ih ?_
    have hmul : (rid.toUInt64 * d.1).toUInt32.toNat = n * d.1.toNat % 2 ^ 32 := by
      rw [toNat_toUInt32, UInt64.toNat_mul, UInt32.toNat_toUInt64, h,
        Nat.mod_mod_of_dvd _ (by decide), Nat.mod_mul_mod]
    show (((rid.toUInt64 * d.1).toUInt32.toUInt64 + d.2).toUInt32).toNat =
      (n * d.1.toNat + d.2.toNat) % 2 ^ 32
    rw [toNat_toUInt32, UInt64.toNat_add, UInt32.toNat_toUInt64, hmul,
      Nat.mod_mod_of_dvd _ (by decide), Nat.mod_add_mod]

theorem toNat_recompose (order : List (UInt64 × UInt64)) {rid : UInt64} {n : Nat}
    (h : rid.toNat = n % 2 ^ 64) : (recompose order rid).toNat =
    ((order.map (Prod.map UInt64.toNat UInt64.toNat)).foldl (fun n d => n * d.1 + d.2) n) %
      2 ^ 64 := by
  induction order generalizing rid n with
  | nil => exact h
  | cons d order ih =>
    refine ih ?_
    show (rid * d.1 + d.2).toNat = (n * d.1.toNat + d.2.toNat) % 2 ^ 64
    rw [UInt64.toNat_add, UInt64.toNat_mul, h, Nat.mod_mul_mod, Nat.mod_add_mod]

theorem foldl_order (corder : Bool) {counts : List UInt64} {p : List Nat}
    (hp : Grid.Within p (counts.map UInt64.toNat)) :
    ((Grid.slowestFirst corder (counts.zip (p.map UInt64.ofNat))).map
      (Prod.map UInt64.toNat UInt64.toNat)).foldl (fun n d => n * d.1 + d.2) 0 =
      Grid.linearIn corder (counts.map UInt64.toNat) p := by
  have hlen := hp.length_eq
  have hlen' : (Grid.slowestFirst corder p).length =
      (Grid.slowestFirst corder (counts.map UInt64.toNat)).length := by
    rw [Grid.length_slowestFirst, Grid.length_slowestFirst, hlen]
  rw [Grid.map_slowestFirst, ← zip_map, map_ofNat_toNat hp,
    ← Grid.zip_slowestFirst corder _ hlen.symm, Grid.foldl_linear hlen', Nat.zero_mul,
    Nat.zero_add, Grid.linearIn]

/-! ## Conversions -/

namespace RidConversion

variable (c : RidConversion)

def coords : List Nat := Grid.coordsIn c.corder (Grid.sizes c.src) c.rid.toNat

theorem within_coords : Grid.Within c.coords (Grid.sizes c.src) :=
  Grid.within_coordsIn c.corder c.rid_lt

theorem contains_src : Grid.Contains c.src c.element :=
  Grid.contains_elementIn c.corder c.rid_lt

theorem ridToCoordinates_coords :
    ridToCoordinates c.corder c.rid (c.dims.map (·.srccount)) = .ok (c.coords.map UInt64.ofNat) := by
  have hsizes : (c.dims.map (·.srccount)).map UInt64.toNat = Grid.sizes c.src := by
    rw [src, Grid.sizes, map_map, map_map]
    rfl
  rw [ridToCoordinates_eq c.corder (by rw [hsizes]; exact c.rid_lt), hsizes]
  rfl

theorem sizes_dest : (c.dims.map (·.destcount)).map UInt64.toNat = Grid.sizes c.dest := by
  rw [dest, Grid.sizes, map_map, map_map]
  rfl

variable {c}

theorem accepts_of_contains (h : Grid.Contains c.dest c.element) :
    Forall₂ RidDim.Accepts c.dims c.element := by
  rw [Grid.Contains, dest, forall₂_map_left_iff] at h
  exact h.imp fun _ _ hin => .inl hin

def order (c : RidConversion) : List (UInt64 × UInt64) :=
  Grid.slowestFirst c.corder
    ((c.dims.map (·.destcount)).zip ((Grid.localCoords c.dest c.element).map UInt64.ofNat))

theorem foldl_order_of_contains (h : Grid.Contains c.dest c.element) :
    (c.order.map (Prod.map UInt64.toNat UInt64.toNat)).foldl (fun n d => n * d.1 + d.2) 0 =
      Grid.placeIn c.corder c.dest c.element := by
  have hwithin := Grid.within_localCoords h
  rw [← sizes_dest] at hwithin
  rw [order, foldl_order c.corder hwithin, sizes_dest, Grid.placeIn]

theorem withCheck_accepted (hndim : c.dims.length ≤ maxDims)
    (haccepts : Forall₂ RidDim.Accepts c.dims c.element) :
    c.withCheck = .ok (some (recomposeRid c.order 0)) := by
  obtain ⟨coordinates, hrun, hlocal⟩ :=
    globalCoordinates_accepted c.wf c.within_coords haccepts 0
  have hconversion : coordinateConversionWithCheck c.dims (c.coords.map UInt64.ofNat) =
      .ok ((Grid.localCoords c.dest c.element).map UInt64.ofNat) := by
    rw [coordinateConversionWithCheck, hrun]
    exact congrArg Except.ok hlocal
  rw [withCheck, ridConversionWithCheck, if_neg (Nat.not_lt.mpr hndim), ridToCoordinates_coords]
  simp only [bind, Except.bind, hconversion]
  rfl

theorem withCheck_rejected (hndim : c.dims.length ≤ maxDims)
    (hrejects : ¬Forall₂ RidDim.Accepts c.dims c.element) : c.withCheck = .ok none := by
  obtain ⟨code, hrun⟩ := globalCoordinates_rejected c.wf c.within_coords hrejects 0
  have hconversion : coordinateConversionWithCheck c.dims (c.coords.map UInt64.ofNat) =
      .error code := by
    rw [coordinateConversionWithCheck, hrun]
    rfl
  rw [withCheck, ridConversionWithCheck, if_neg (Nat.not_lt.mpr hndim), ridToCoordinates_coords]
  simp only [bind, Except.bind, hconversion]
  rfl

theorem toNat_recomposeRid_order (h : Grid.Contains c.dest c.element) :
    (recomposeRid c.order 0).toNat = Grid.placeIn c.corder c.dest c.element % 2 ^ 32 := by
  rw [toNat_recomposeRid c.order rfl, foldl_order_of_contains h]

theorem zipWith_local {dims : List RidDim} {q : List Nat} (hwf : ∀ d ∈ dims, d.Wf)
    (hq : Grid.Within q (Grid.sizes (dims.map (·.src))))
    (h : Grid.Contains (dims.map (·.dest)) (Grid.globalCoords (dims.map (·.src)) q)) :
    List.zipWith (fun d c => c + d.srcstart - d.deststart) dims (q.map UInt64.ofNat) =
      (Grid.localCoords (dims.map (·.dest))
        (Grid.globalCoords (dims.map (·.src)) q)).map UInt64.ofNat := by
  induction dims generalizing q with
  | nil => rfl
  | cons d dims ih =>
    cases hq with
    | @cons x _ q _ hx hq =>
      obtain ⟨hd, hwf⟩ := forall_mem_cons.mp hwf
      obtain ⟨hin, hrest⟩ := Grid.contains_cons.mp h
      exact congrArg₂ List.cons (RidDim.local_eq hd hx hin.1) (ih hwf hq hrest)

theorem withoutCheck_eq (hndim : c.dims.length ≤ maxDims) (h : Grid.Contains c.dest c.element) :
    c.withoutCheck = .ok (recomposeRid c.order 0) := by
  have hnumber : (recompose c.order 0).toUInt32 = recomposeRid c.order 0 := by
    rw [← UInt32.toNat_inj, toNat_toUInt32, toNat_recompose c.order rfl,
      Nat.mod_mod_of_dvd _ (by decide), toNat_recomposeRid c.order rfl]
  rw [withoutCheck, ridConversionWithoutCheck, if_neg (Nat.not_lt.mpr hndim),
    ridToCoordinates_coords]
  simp only [bind, Except.bind, zipWith_local c.wf c.within_coords h]
  exact congrArg Except.ok hnumber

/-! ## There and back -/

def back (c : RidConversion) (rid : Rid) (h : rid.toNat < Grid.volume (Grid.sizes c.dest)) :
    RidConversion where
  dims := c.dims.map RidDim.swap
  corder := c.corder
  rid := rid
  wf := by
    intro d' hd'
    obtain ⟨d, hd, rfl⟩ := mem_map.mp hd'
    exact ⟨(c.wf d hd).dest_stop, (c.wf d hd).src_stop⟩
  rid_lt := by
    rw [map_map]
    exact h

theorem dest_back {rid : Rid} (h : rid.toNat < Grid.volume (Grid.sizes c.dest)) :
    (c.back rid h).dest = c.src := by
  rw [dest, back, map_map]
  rfl

theorem element_back {rid : Rid} (h : rid.toNat < Grid.volume (Grid.sizes c.dest))
    (hcontains : Grid.Contains c.dest c.element)
    (hrid : rid.toNat = Grid.placeIn c.corder c.dest c.element) :
    (c.back rid h).element = c.element := by
  have hsrc : (c.back rid h).src = c.dest := by
    rw [src, back, map_map]
    rfl
  rw [element, hsrc]
  show Grid.elementIn c.corder c.dest rid.toNat = c.element
  rw [hrid, Grid.elementIn_placeIn c.corder hcontains]

theorem back_eq (hndim : c.dims.length ≤ maxDims) (hcontains : Grid.Contains c.dest c.element)
    {rid : Rid} (hrid : rid.toNat = Grid.placeIn c.corder c.dest c.element) :
    ridConversionWithCheck rid (c.dims.map RidDim.swap) c.corder = .ok (some c.rid) ∧
      ridConversionWithoutCheck rid (c.dims.map RidDim.swap) c.corder = .ok c.rid := by
  have hlt : rid.toNat < Grid.volume (Grid.sizes c.dest) := by
    rw [hrid]
    exact Grid.placeIn_lt c.corder hcontains
  have helement := element_back hlt hcontains hrid
  have hdims : (c.back rid hlt).dims.length ≤ maxDims := by
    rw [back, length_map]
    exact hndim
  have hin : Grid.Contains (c.back rid hlt).dest (c.back rid hlt).element := by
    rw [dest_back, helement]
    exact c.contains_src
  have hnumber : recomposeRid (c.back rid hlt).order 0 = c.rid := by
    rw [← UInt32.toNat_inj, toNat_recomposeRid_order hin, dest_back, helement]
    have hplace : Grid.placeIn c.corder c.src c.element = c.rid.toNat :=
      Grid.placeIn_elementIn c.corder c.rid_lt
    show Grid.placeIn c.corder c.src c.element % 2 ^ 32 = _
    rw [hplace, Nat.mod_eq_of_lt c.rid.toNat_lt]
  constructor
  · have hcheck := withCheck_accepted hdims (accepts_of_contains hin)
    rwa [hnumber] at hcheck
  · have hwithout := withoutCheck_eq hdims hin
    rwa [hnumber] at hwithout

/-! ## Exactly when -/

theorem accepts_iff : Forall₂ RidDim.Accepts c.dims c.element ↔
    ∀ z ∈ c.dims.zip c.element,
      ¬(¬(z.1.dest.start ≤ z.2 ∧ z.2 < z.1.dest.stop) ∧ ¬z.1.Wraps) := by
  have hlen : c.dims.length = c.element.length := by
    rw [← c.contains_src.length_eq, src, length_map]
  rw [forall₂_iff_zip]
  constructor
  · rintro ⟨-, h⟩ ⟨d, x⟩ hz
    have haccepts := h hz
    unfold RidDim.Accepts at haccepts
    tauto
  · refine fun h => ⟨hlen, fun {d x} hz => ?_⟩
    have hz' := h (d, x) hz
    unfold RidDim.Accepts
    tauto

/-- Exactly then the numbers of elements are converted. -/
theorem ridConverts_iff (c : RidConversion) : c.Converts ↔ c.Clear := by
  constructor
  · intro h
    have hndim : c.dims.length ≤ maxDims := by
      by_contra hndim
      have hfault : c.withCheck = .error .outOfBounds := by
        rw [withCheck, ridConversionWithCheck, if_pos (Nat.not_le.mp hndim)]
      by_cases hcontains : Grid.Contains c.dest c.element
      · obtain ⟨rid, hrun, -⟩ := h.inside hcontains
        rw [hfault] at hrun
        cases hrun
      · have hrun := h.outside hcontains
        rw [hfault] at hrun
        cases hrun
    refine ⟨hndim, fun hcontains => ?_, fun hcontains => ?_⟩
    · obtain ⟨rid, -, hplace⟩ := h.inside hcontains
      rw [← hplace]
      exact rid.toNat_lt
    · by_contra hnone
      have haccepts := accepts_iff.mpr fun z hz hout => hnone ⟨z, hz, hout⟩
      have hrun := h.outside hcontains
      rw [withCheck_accepted hndim haccepts] at hrun
      cases hrun
  · rintro ⟨hndim, hlow, hrejects⟩
    have hnone (hcontains : ¬Grid.Contains c.dest c.element) : c.withCheck = .ok none := by
      obtain ⟨z, hz, hout⟩ := hrejects hcontains
      exact withCheck_rejected hndim fun haccepts => accepts_iff.mp haccepts z hz hout
    have hsome (hcontains : Grid.Contains c.dest c.element) :
        c.withCheck = .ok (some (recomposeRid c.order 0)) ∧
          (recomposeRid c.order 0).toNat = Grid.placeIn c.corder c.dest c.element := by
      rw [toNat_recomposeRid_order hcontains, Nat.mod_eq_of_lt (hlow hcontains)]
      exact ⟨withCheck_accepted hndim (accepts_of_contains hcontains), rfl⟩
    refine ⟨hnone, fun hcontains => ⟨_, hsome hcontains⟩, fun hcovers => ?_, fun rid hrun => ?_⟩
    · have hcontains := hcovers _ c.contains_src
      exact ⟨_, (hsome hcontains).1, withoutCheck_eq hndim hcontains⟩
    · by_cases hcontains : Grid.Contains c.dest c.element
      · rw [(hsome hcontains).1] at hrun
        cases hrun
        exact back_eq hndim hcontains (hsome hcontains).2
      · rw [hnone hcontains] at hrun
        cases hrun

def firstOfRow : RidConversion where
  dims := [⟨0, 1, 0, 0⟩]
  corder := true
  rid := 0
  wf := by
    intro d hd
    rw [mem_singleton.mp hd]
    exact ⟨by decide, by decide⟩
  rid_lt := by decide

/-- An empty box is found to have the element. -/
theorem not_converts_emptyBox : ¬firstOfRow.Converts := by
  intro h
  have hnone := h.outside (by decide)
  have hsome : firstOfRow.withCheck = .ok (some 0) := by decide
  rw [hsome] at hnone
  cases hnone

end RidConversion

end Adios
