import Adios.Core.CopiedSubvolume
import Adios.Core.Selections
import Adios.Core.Sieving

/-!
# Core — patching data between boxes and points

`adios_patch_data_bb_pts_helper`, which copies elements from a bounding box to a list of points or
the other way, and the functions that call it.
-/

namespace Adios.PatchData

open List CopySubvolume Selections Subvolume UInt64

/-! ## The code -/

section

variable (isDestPoints : Bool) (typelen dstByteRaggedOffset srcByteRaggedOffset : UInt64)
  (bb : List Segment) (src : Memory)

def copyPoint (i : UInt64) (curPt : List UInt64) (dst : Memory) : Except Fault Memory :=
  let bbByteStrides := (stridesLoop typelen (bb.map Segment.count)).1
  let ptRelativeToBb := List.zipWith (· - ·) curPt (bb.map Segment.start)
  let byteOffsetInBbBuffer := startingOffset ptRelativeToBb bbByteStrides
  let byteOffsetInPtBuffer := i * typelen
  let dstByteOffset := if isDestPoints then byteOffsetInPtBuffer else byteOffsetInBbBuffer
  let srcByteOffset := if isDestPoints then byteOffsetInBbBuffer else byteOffsetInPtBuffer
  if dstByteOffset < dstByteRaggedOffset then .error .assertion
  else if srcByteOffset < srcByteRaggedOffset then .error .assertion
  else
    -- "`memcpy`", which leaves the byte order as it is
    .ok ((Heap.Write.mk (dstByteOffset - dstByteRaggedOffset).toNat
      (read src (srcByteOffset - srcByteRaggedOffset).toNat typelen.toNat)).apply dst)

/-- "Check each point; if it's in the bounding box, perform a copy" -/
def copyPoints : UInt64 → List (List UInt64) → Memory → UInt64 → Except Fault (Memory × UInt64)
  | _, [], dst, ptsCopied => .ok (dst, ptsCopied)
  | i, curPt :: pts, dst, ptsCopied =>
    if inBox bb curPt then do
      let dst ←
        copyPoint isDestPoints typelen dstByteRaggedOffset srcByteRaggedOffset bb src i curPt dst
      copyPoints (i + 1) pts dst (ptsCopied + 1)
    else copyPoints (i + 1) pts dst ptsCopied

end

/-- `adios_patch_data_bb_pts_helper`. It is handed `swap_endianness` and does not use it. -/
def bbPtsHelper (c : Call) (dst : Memory) (dstRaggedOffset srcRaggedOffset : UInt64) (pts : Points)
    (bb : List Segment) (isDestPoints : Bool) : Except Fault (Memory × UInt64) :=
  let typelen := getTypeSize c.datumType none
  if pts.ndim ≠ bb.length then .error .assertion
  else copyPoints isDestPoints typelen (dstRaggedOffset * typelen) (srcRaggedOffset * typelen) bb
    c.src 0 (chunks pts.ndim pts.npoints pts.points) dst 0

/-- `adios_patch_data_pts_to_bb` -/
def patchDataPtsToBb (c : Call) (dst : Memory) (dstRaggedOffset : UInt64) (dstBb : List Segment)
    (srcRaggedOffset : UInt64) (srcPts : Points) : Except Fault (Memory × UInt64) :=
  bbPtsHelper c dst dstRaggedOffset srcRaggedOffset srcPts dstBb false

/-- `adios_patch_data_bb_to_pts` -/
def patchDataBbToPts (c : Call) (dst : Memory) (dstRaggedOffset : UInt64) (dstPts : Points)
    (srcRaggedOffset : UInt64) (srcBb : List Segment) : Except Fault (Memory × UInt64) :=
  bbPtsHelper c dst dstRaggedOffset srcRaggedOffset dstPts srcBb true

/-- `adios_patch_data_pts_to_pts`: "Patching of data from 'points' selection to 'points' selection
not currently supported" -/
def patchDataPtsToPts (_ : Call) (dst : Memory) (_ : UInt64) (_ : Points) (_ : UInt64)
    (_ : Points) : Except Fault (Memory × UInt64) :=
  .ok (dst, 0)

/-! ## The statement -/

inductive Pairing where
  | ptsToBb (dst : List Segment) (src : Points)
  | bbToPts (dst : Points) (src : List Segment)
  | ptsToPts (dst src : Points)

def places (pts : Points) : List (List Nat) :=
  (chunks pts.ndim pts.npoints pts.points).map (List.map UInt64.toNat)

def InBb (bb : List Segment) (p : List Nat) (n : Nat) : Prop :=
  Elements bb p ∧ n = Grid.place (bb.map Segment.span) p

def InArray (pts : Points) : Prop := pts.points.length = pts.npoints * pts.ndim

def Ends (bb : List Segment) : Prop := ∀ s ∈ bb, s.stop < 18446744073709551616

namespace Pairing

def Dst : Pairing → List Nat → Nat → Prop
  | ptsToBb bb _, p, n => InBb bb p n
  | bbToPts pts _, p, n | ptsToPts pts _, p, n => (places pts)[n]? = some p

def Src : Pairing → List Nat → Nat → Prop
  | bbToPts _ bb, p, n => InBb bb p n
  | ptsToBb _ pts, p, n | ptsToPts _ pts, p, n => (places pts)[n]? = some p

def Global : Pairing → Prop
  | ptsToBb bb pts | bbToPts pts bb => Ends bb ∧ InArray pts ∧ pts.ndim = bb.length
  | ptsToPts pts1 pts2 => InArray pts1 ∧ InArray pts2 ∧ pts1.ndim = pts2.ndim

def shared : Pairing → List (List Nat)
  | ptsToBb bb pts | bbToPts pts bb => (places pts).filter fun p => Elements bb p
  | ptsToPts pts1 pts2 => (places pts1).filter fun p => p ∈ places pts2

end Pairing

structure Patch where
  call : Call
  dst : Memory
  dstRaggedOffset : UInt64
  srcRaggedOffset : UInt64
  pairing : Pairing
  numeric : call.datumType.IsNumeric
  global : pairing.Global
  /-- The bytes of each selection can be counted. -/
  dstBytes : ∀ p n, pairing.Dst p n → (n + 1) * call.size < 18446744073709551616
  srcBytes : ∀ p n, pairing.Src p n → (n + 1) * call.size < 18446744073709551616
  /-- What is shared is in the buffers, behind their ragged starts. -/
  behind : ∀ p d n, pairing.Dst p d → pairing.Src p n →
    dstRaggedOffset.toNat ≤ d ∧ srcRaggedOffset.toNat ≤ n

namespace Patch

variable (s : Patch)

def run : Except Fault (Memory × UInt64) :=
  match s.pairing with
  | .ptsToBb bb pts => patchDataPtsToBb s.call s.dst s.dstRaggedOffset bb s.srcRaggedOffset pts
  | .bbToPts pts bb => patchDataBbToPts s.call s.dst s.dstRaggedOffset pts s.srcRaggedOffset bb
  | .ptsToPts pts1 pts2 =>
    patchDataPtsToPts s.call s.dst s.dstRaggedOffset pts1 s.srcRaggedOffset pts2

/-- The shared elements come to their places in the destination, as a copy between boxes would bring
them there; nothing else changes, and their number is returned. -/
def Patched : Prop :=
  ∃ out count, s.run = .ok (out, count) ∧
    (∀ p d, s.pairing.Dst p d → (∃ n, s.pairing.Src p n) → ∃ n, s.pairing.Src p n ∧
      element out s.call.size (d - s.dstRaggedOffset.toNat) =
        s.call.moved (element s.call.src s.call.size (n - s.srcRaggedOffset.toNat))) ∧
    (∀ addr : Int, (∀ p d n, s.pairing.Dst p d → s.pairing.Src p n →
      addr < ((d - s.dstRaggedOffset.toNat) * s.call.size : Nat) ∨
        ((d - s.dstRaggedOffset.toNat + 1) * s.call.size : Nat) ≤ addr) → out addr = s.dst addr) ∧
    count.toNat = s.pairing.shared.length

def Served : Prop :=
  match s.pairing with
  | .ptsToBb _ _ | .bbToPts _ _ => s.Patched
  | .ptsToPts _ _ => s.run = .ok (s.dst, 0)

end Patch

structure PlainPatch extends Patch where
  plain : call.swapEndianness ≠ .yes ∨ call.size = 1

/-! ## Elements that are stored -/

def store (size : Nat) (mem : Memory) (n : Nat) (e : List UInt8) : Memory :=
  (Heap.Write.mk (n * size : Nat) e).apply mem

section

variable {size : Nat} {mem : Memory} {n : Nat} {e : List UInt8}

theorem element_store (hlen : e.length = size) : element (store size mem n e) size n = e := by
  apply ext_getElem?
  intro j
  by_cases hj : j < size
  · have hcell : (Heap.Write.mk (n * size : Nat) e).cellAt ((n * size : Nat) + (j : Nat)) = e[j]? :=
      Heap.Write.cellAt_add
    rw [element, getElem?_read hj, store, Heap.Write.apply, Int.natCast_add, hcell,
      getElem?_eq_getElem (hlen ▸ hj)]
    rfl
  · rw [getElem?_eq_none (by rw [element, length_read]; omega),
      getElem?_eq_none (by omega)]

theorem store_of_outside (hlen : e.length = size) {addr : Int}
    (h : addr < (n * size : Nat) ∨ ((n + 1) * size : Nat) ≤ addr) :
    store size mem n e addr = mem addr := by
  have hnone : (Heap.Write.mk (n * size : Nat) e).cellAt addr = none := by
    rw [Nat.succ_mul] at h
    refine Heap.Write.cellAt_eq_none ?_
    show addr < (n * size : Nat) ∨ ((n * size : Nat) : Int) + e.length ≤ addr
    omega
  rw [store, Heap.Write.apply, hnone]
  rfl

end

def fill (size : Nat) (src : Memory) : List (Nat × Nat) → Memory → Memory
  | [], mem => mem
  | c :: copies, mem => fill size src copies (store size mem c.1 (element src size c.2))

section

variable {size : Nat} {src : Memory} {copies : List (Nat × Nat)}

theorem fill_of_outside {addr : Int} (mem : Memory) (h : ∀ c ∈ copies,
    addr < (c.1 * size : Nat) ∨ ((c.1 + 1) * size : Nat) ≤ addr) :
    fill size src copies mem addr = mem addr := by
  induction copies generalizing mem with
  | nil => rfl
  | cons c copies ih =>
    rw [fill, ih _ fun c' hc' => h c' (mem_cons_of_mem _ hc'),
      store_of_outside (length_element _ _ _) (h c mem_cons_self)]

theorem element_fill (mem : Memory) {d : Nat} (h : ∃ n, (d, n) ∈ copies) :
    ∃ n, (d, n) ∈ copies ∧ element (fill size src copies mem) size d = element src size n := by
  induction copies generalizing mem with
  | nil =>
    obtain ⟨n, hn⟩ := h
    cases hn
  | cons c copies ih =>
    by_cases hrest : ∃ n, (d, n) ∈ copies
    · obtain ⟨n, hn, helement⟩ := ih (store size mem c.1 (element src size c.2)) hrest
      exact ⟨n, mem_cons_of_mem _ hn, helement⟩
    · -- the first one is the last that is stored there
      obtain ⟨n, hn⟩ := h
      obtain rfl : (d, n) = c := (mem_cons.mp hn).resolve_right fun hmem => hrest ⟨n, hmem⟩
      refine ⟨n, mem_cons_self, ?_⟩
      have hkept : element (fill size src ((d, n) :: copies) mem) size d =
          element (store size mem d (element src size n)) size d := by
        apply ext_getElem?
        intro j
        by_cases hj : j < size
        · rw [element, element, getElem?_read hj, getElem?_read hj, fill]
          refine congrArg some (fill_of_outside _ fun c hc => ?_)
          have hne : c.1 ≠ d := fun heq => hrest ⟨c.2, heq ▸ hc⟩
          rcases Nat.lt_or_gt_of_ne hne with hlt | hlt
          · have hle : (c.1 + 1) * size ≤ d * size := Nat.mul_le_mul_right size hlt
            exact .inr (by omega)
          · have hle : (d + 1) * size ≤ c.1 * size := Nat.mul_le_mul_right size hlt
            rw [Nat.succ_mul] at hle
            exact .inl (by omega)
        · rw [getElem?_eq_none (by rw [element, length_read]; omega),
            getElem?_eq_none (by rw [element, length_read]; omega)]
      rw [hkept, element_store (length_element _ _ _)]

end

/-! ## The loop over the points -/

section

variable (isDestPoints : Bool) (bb : List Segment)

/-- The places of point `i`: in the destination and in the source. -/
def placesOf (i : Nat) (p : List Nat) : Nat × Nat :=
  if isDestPoints then (i, Grid.place (bb.map Segment.span) p)
  else (Grid.place (bb.map Segment.span) p, i)

def copies (dstRaggedOffset srcRaggedOffset : Nat) : Nat → List (List UInt64) → List (Nat × Nat)
  | _, [] => []
  | i, p :: pts =>
    if inBox bb p then
      ((placesOf isDestPoints bb i (p.map UInt64.toNat)).1 - dstRaggedOffset,
        (placesOf isDestPoints bb i (p.map UInt64.toNat)).2 - srcRaggedOffset) ::
        copies dstRaggedOffset srcRaggedOffset (i + 1) pts
    else copies dstRaggedOffset srcRaggedOffset (i + 1) pts

variable {isDestPoints bb}

theorem mem_copies {dstRagged srcRagged i : Nat} {pts : List (List UInt64)} {c : Nat × Nat} :
    c ∈ copies isDestPoints bb dstRagged srcRagged i pts ↔ ∃ k p, pts[k]? = some p ∧ inBox bb p ∧
      c = ((placesOf isDestPoints bb (i + k) (p.map UInt64.toNat)).1 - dstRagged,
        (placesOf isDestPoints bb (i + k) (p.map UInt64.toNat)).2 - srcRagged) := by
  induction pts generalizing i with
  | nil =>
    refine iff_of_false not_mem_nil fun hex => ?_
    obtain ⟨k, p, hp, -⟩ := hex
    cases hp
  | cons q pts ih =>
    have hrest : c ∈ copies isDestPoints bb dstRagged srcRagged (i + 1) pts ↔ ∃ k p,
        (q :: pts)[k + 1]? = some p ∧ inBox bb p ∧
          c = ((placesOf isDestPoints bb (i + (k + 1)) (p.map UInt64.toNat)).1 - dstRagged,
            (placesOf isDestPoints bb (i + (k + 1)) (p.map UInt64.toNat)).2 - srcRagged) := by
      rw [ih]
      refine exists_congr fun k => exists_congr fun p => ?_
      rw [show i + (k + 1) = i + 1 + k by omega]
      rfl
    constructor
    · intro hc
      rw [copies] at hc
      by_cases hq : inBox bb q = true
      · rw [if_pos hq] at hc
        cases mem_cons.mp hc with
        | inl heq => exact ⟨0, q, rfl, hq, heq⟩
        | inr hc =>
          obtain ⟨k, p, h⟩ := hrest.mp hc
          exact ⟨k + 1, p, h⟩
      · rw [if_neg hq] at hc
        obtain ⟨k, p, h⟩ := hrest.mp hc
        exact ⟨k + 1, p, h⟩
    · intro hex
      obtain ⟨k, p, hp, hin, hc⟩ := hex
      rw [copies]
      cases k with
      | zero =>
        obtain rfl : q = p := Option.some.inj hp
        rw [if_pos hin, hc]
        exact mem_cons_self
      | succ k =>
        have hc := hrest.mpr ⟨k, p, hp, hin, hc⟩
        split_ifs
        · exact mem_cons_of_mem _ hc
        · exact hc

variable {typelen dstRagged srcRagged : UInt64} {src : Memory}

theorem toNat_ofNat_mul {n : Nat} (h : n * typelen.toNat < 18446744073709551616) :
    (UInt64.ofNat n * typelen).toNat = n * typelen.toNat := by
  rw [← UInt64.ofNat_toNat (x := typelen), ← UInt64.ofNat_mul, UInt64.ofNat_toNat]
  exact toNat_ofNat_of_lt' h

theorem copyPoint_eq {i : Nat} {p : List UInt64} (h : Elements bb (p.map UInt64.toNat))
    (hdst : ((placesOf isDestPoints bb i (p.map UInt64.toNat)).1 + 1) * typelen.toNat <
      18446744073709551616)
    (hsrc : ((placesOf isDestPoints bb i (p.map UInt64.toNat)).2 + 1) * typelen.toNat <
      18446744073709551616)
    (hdstLe : dstRagged.toNat ≤ (placesOf isDestPoints bb i (p.map UInt64.toNat)).1)
    (hsrcLe : srcRagged.toNat ≤ (placesOf isDestPoints bb i (p.map UInt64.toNat)).2)
    (dst : Memory) :
    copyPoint isDestPoints typelen (dstRagged * typelen) (srcRagged * typelen) bb src
        (UInt64.ofNat i) p dst =
      .ok (store typelen.toNat dst
        ((placesOf isDestPoints bb i (p.map UInt64.toNat)).1 - dstRagged.toNat)
        (element src typelen.toNat
          ((placesOf isDestPoints bb i (p.map UInt64.toNat)).2 - srcRagged.toNat))) := by
  have hlen : (List.zipWith (· - ·) p (bb.map Segment.start)).length =
      (bb.map Segment.count).length := by
    have hlen := Grid.length_of_contains h
    rw [length_map, length_map] at hlen
    rw [length_zipWith, length_map, length_map, hlen, Nat.min_self]
  have hbb : startingOffset (List.zipWith (· - ·) p (bb.map Segment.start))
      (stridesLoop typelen (bb.map Segment.count)).1 =
      UInt64.ofNat (Grid.place (bb.map Segment.span) (p.map UInt64.toNat)) * typelen := by
    rw [startingOffset_eq _ hlen, Sieving.localCoords_eq h, ← Sieving.sizes_span]
    rfl
  have hplaces : ∀ (n : Nat) (ragged : UInt64), (n + 1) * typelen.toNat < 18446744073709551616 →
      ragged.toNat ≤ n → ¬UInt64.ofNat n * typelen < ragged * typelen ∧
        (UInt64.ofNat n * typelen - ragged * typelen).toNat =
          (n - ragged.toNat) * typelen.toNat := fun n ragged hlt hle => by
    have hmul := Nat.mul_le_mul_right typelen.toNat hle
    have hsub := Nat.mul_le_mul_right typelen.toNat (Nat.sub_le n ragged.toNat)
    rw [Nat.succ_mul] at hlt
    have hragged := @toNat_ofNat_mul typelen ragged.toNat (by omega)
    rw [UInt64.ofNat_toNat] at hragged
    refine ⟨?_, toNat_pointer hle (by omega)⟩
    rw [lt_iff_toNat_lt, hragged, toNat_ofNat_mul (by omega)]
    exact Nat.not_lt.mpr hmul
  obtain ⟨hdstGe, hdstSub⟩ := hplaces _ dstRagged hdst hdstLe
  obtain ⟨hsrcGe, hsrcSub⟩ := hplaces _ srcRagged hsrc hsrcLe
  have hdstOff : (if isDestPoints then UInt64.ofNat i * typelen else
      UInt64.ofNat (Grid.place (bb.map Segment.span) (p.map UInt64.toNat)) * typelen) =
      UInt64.ofNat (placesOf isDestPoints bb i (p.map UInt64.toNat)).1 * typelen := by
    unfold placesOf
    split_ifs <;> rfl
  have hsrcOff : (if isDestPoints then
      UInt64.ofNat (Grid.place (bb.map Segment.span) (p.map UInt64.toNat)) * typelen else
      UInt64.ofNat i * typelen) =
      UInt64.ofNat (placesOf isDestPoints bb i (p.map UInt64.toNat)).2 * typelen := by
    unfold placesOf
    split_ifs <;> rfl
  unfold copyPoint
  dsimp only
  rw [hbb, hdstOff, hsrcOff, if_neg hdstGe, if_neg hsrcGe, hdstSub, hsrcSub]
  rfl

theorem copyPoints_eq {pts : List (List UInt64)} {i : Nat}
    (h : ∀ k p, pts[k]? = some p → inBox bb p = true → ∀ dst,
      copyPoint isDestPoints typelen (dstRagged * typelen) (srcRagged * typelen) bb src
          (UInt64.ofNat (i + k)) p dst =
        .ok (store typelen.toNat dst
          ((placesOf isDestPoints bb (i + k) (p.map UInt64.toNat)).1 - dstRagged.toNat)
          (element src typelen.toNat
            ((placesOf isDestPoints bb (i + k) (p.map UInt64.toNat)).2 - srcRagged.toNat))))
    (dst : Memory) (count : UInt64) :
    copyPoints isDestPoints typelen (dstRagged * typelen) (srcRagged * typelen) bb src
        (UInt64.ofNat i) pts dst count =
      .ok (fill typelen.toNat src
          (copies isDestPoints bb dstRagged.toNat srcRagged.toNat i pts) dst,
        count + UInt64.ofNat (pts.filter (inBox bb)).length) := by
  induction pts generalizing i dst count with
  | nil =>
    rw [copyPoints, copies, fill]
    exact congrArg (fun n => Except.ok (dst, n)) (UInt64.add_zero _).symm
  | cons p pts ih =>
    have hnext : UInt64.ofNat i + 1 = UInt64.ofNat (i + 1) := (ofNat_add i 1).symm
    have hrest := fun dst count => @ih (i + 1) (fun k q hq hin dst => by
      have hk := h (k + 1) q hq hin dst
      rwa [show i + (k + 1) = i + 1 + k by omega] at hk) dst count
    rw [copyPoints, copies, filter_cons, hnext]
    by_cases hin : inBox bb p = true
    · have hfirst := h 0 p rfl hin dst
      rw [Nat.add_zero] at hfirst
      rw [if_pos hin, if_pos hin, if_pos hin, hfirst, ok_bind, hrest, fill, length_cons,
        ofNat_add, UInt64.add_assoc, UInt64.add_comm 1]
      rfl
    · rw [if_neg hin, if_neg hin, if_neg hin, hrest]

end

/-! ## The two directions -/

theorem moved_eq_self {c : Call} (h : c.swapEndianness ≠ .yes ∨ c.size = 1) {e : List UInt8}
    (hlen : e.length = c.size) : c.moved e = e := by
  unfold Call.moved
  by_cases hswap : c.swapEndianness = .yes
  · rw [if_pos hswap]
    have hone : e.length = 1 := hlen.trans (h.resolve_left (not_not.mpr hswap))
    obtain ⟨b, rfl⟩ := length_eq_one_iff.mp hone
    unfold byteSwapped
    rw [length_singleton, Nat.div_eq_of_lt (by decide : 1 < 2)]
    exact ite_self [b]
  · rw [if_neg hswap]

namespace Pairing

def Links (s : Pairing) (isDestPoints : Bool) (pts : Points) (bb : List Segment) : Prop :=
  ∀ p d n, s.Dst p d ∧ s.Src p n ↔ ∃ k q, (chunks pts.ndim pts.npoints pts.points)[k]? = some q ∧
    q.map UInt64.toNat = p ∧ Elements bb p ∧ (d, n) = placesOf isDestPoints bb k p

theorem getElem?_places {pts : Points} {p : List Nat} {k : Nat} :
    (places pts)[k]? = some p ↔ ∃ q, (chunks pts.ndim pts.npoints pts.points)[k]? = some q ∧
      q.map UInt64.toNat = p := by
  rw [places, getElem?_map, Option.map_eq_some_iff]

theorem links_bbToPts (pts : Points) (bb : List Segment) : (bbToPts pts bb).Links true pts bb := by
  intro p d n
  constructor
  · intro h
    obtain ⟨hd, helement, rfl⟩ := h
    obtain ⟨q, hq, hp⟩ := getElem?_places.mp hd
    exact ⟨d, q, hq, hp, helement, rfl⟩
  · intro h
    obtain ⟨k, q, hq, hp, helement, hplaces⟩ := h
    obtain ⟨rfl, rfl⟩ := Prod.mk.inj hplaces
    exact ⟨getElem?_places.mpr ⟨q, hq, hp⟩, helement, rfl⟩

theorem links_ptsToBb (bb : List Segment) (pts : Points) : (ptsToBb bb pts).Links false pts bb := by
  intro p d n
  constructor
  · intro h
    obtain ⟨⟨helement, rfl⟩, hn⟩ := h
    obtain ⟨q, hq, hp⟩ := getElem?_places.mp hn
    exact ⟨n, q, hq, hp, helement, rfl⟩
  · intro h
    obtain ⟨k, q, hq, hp, helement, hplaces⟩ := h
    obtain ⟨rfl, rfl⟩ := Prod.mk.inj hplaces
    exact ⟨⟨helement, rfl⟩, getElem?_places.mpr ⟨q, hq, hp⟩⟩

theorem Dst.unique {s : Pairing} {p p' : List Nat} {d : Nat} (h : s.Dst p d) (h' : s.Dst p' d) :
    p = p' := by
  cases s with
  | ptsToBb bb pts => exact Grid.place_injective h.1 h'.1 (h.2.symm.trans h'.2)
  | bbToPts pts bb => exact Option.some.inj (h.symm.trans h')
  | ptsToPts pts1 pts2 => exact Option.some.inj (h.symm.trans h')

theorem npoints_lt {pts : Points} {size : Nat} (hsize : 0 < size) (h : ∀ p n,
    (places pts)[n]? = some p → (n + 1) * size < 18446744073709551616) :
    pts.npoints < 18446744073709551616 := by
  by_cases hzero : pts.npoints = 0
  · omega
  · have hlen : (places pts).length = pts.npoints := by rw [places, length_map, length_chunks]
    have hlt : pts.npoints - 1 < (places pts).length := by omega
    have hlast := h _ _ (getElem?_eq_getElem hlt)
    have hle := Nat.le_mul_of_pos_right (pts.npoints - 1 + 1) hsize
    omega

end Pairing

namespace Patch

variable {s : Patch}

theorem length_filter_places {pts : Points} {bb : List Segment} (hends : Ends bb)
    (harray : InArray pts) (hndim : pts.ndim = bb.length) :
    ((places pts).filter fun p => Elements bb p).length =
      ((chunks pts.ndim pts.npoints pts.points).filter (inBox bb)).length := by
  rw [places, filter_map, length_map]
  refine congrArg List.length (filter_congr fun q hq => ?_)
  have hlen : bb.length = q.length := by rw [length_of_mem_chunks harray hq, hndim]
  rw [Function.comp_apply, Bool.eq_iff_iff, decide_eq_true_eq, inBox_iff hlen hends]

theorem patched_of_links {isDestPoints : Bool} {pts : Points} {bb : List Segment} (hrun : s.run =
      bbPtsHelper s.call s.dst s.dstRaggedOffset s.srcRaggedOffset pts bb isDestPoints)
    (hlinks : s.pairing.Links isDestPoints pts bb) (hends : Ends bb) (harray : InArray pts)
    (hndim : pts.ndim = bb.length)
    (hshared : s.pairing.shared.length =
      ((chunks pts.ndim pts.npoints pts.points).filter (inBox bb)).length)
    (hcount : pts.npoints < 18446744073709551616)
    (hplain : s.call.swapEndianness ≠ .yes ∨ s.call.size = 1) : s.Patched := by
  have hin : ∀ (k : Nat) (q : List UInt64), (chunks pts.ndim pts.npoints pts.points)[k]? = some q →
      (inBox bb q = true ↔ Elements bb (q.map UInt64.toNat)) := fun k q hq =>
    inBox_iff (by rw [length_of_mem_chunks harray (mem_of_getElem? hq), hndim]) hends
  have hpoint : ∀ (k : Nat) (q : List UInt64),
      (chunks pts.ndim pts.npoints pts.points)[k]? = some q → inBox bb q = true →
      s.pairing.Dst (q.map UInt64.toNat) (placesOf isDestPoints bb k (q.map UInt64.toNat)).1 ∧
      s.pairing.Src (q.map UInt64.toNat) (placesOf isDestPoints bb k (q.map UInt64.toNat)).2 :=
    fun k q hq hbox => (hlinks _ _ _).mpr ⟨k, q, hq, rfl, (hin k q hq).mp hbox, rfl⟩
  have hloop := @copyPoints_eq isDestPoints bb (getTypeSize s.call.datumType none)
    s.dstRaggedOffset s.srcRaggedOffset s.call.src (chunks pts.ndim pts.npoints pts.points) 0
    (fun k q hq hbox dst => by
      rw [Nat.zero_add]
      obtain ⟨hdst, hsrc⟩ := hpoint k q hq hbox
      obtain ⟨hdstLe, hsrcLe⟩ := s.behind _ _ _ hdst hsrc
      exact copyPoint_eq ((hin k q hq).mp hbox) (s.dstBytes _ _ hdst) (s.srcBytes _ _ hsrc) hdstLe
        hsrcLe dst) s.dst 0
  have hmem : ∀ c, c ∈ copies isDestPoints bb s.dstRaggedOffset.toNat s.srcRaggedOffset.toNat 0
      (chunks pts.ndim pts.npoints pts.points) ↔ ∃ p d n, s.pairing.Dst p d ∧ s.pairing.Src p n ∧
        c = (d - s.dstRaggedOffset.toNat, n - s.srcRaggedOffset.toNat) := fun c => by
    rw [mem_copies]
    constructor
    · intro h
      obtain ⟨k, q, hq, hbox, hc⟩ := h
      rw [Nat.zero_add] at hc
      obtain ⟨hdst, hsrc⟩ := hpoint k q hq hbox
      exact ⟨_, _, _, hdst, hsrc, hc⟩
    · intro h
      obtain ⟨p, d, n, hdst, hsrc, hc⟩ := h
      obtain ⟨k, q, hq, rfl, helement, hplaces⟩ := (hlinks p d n).mp ⟨hdst, hsrc⟩
      obtain ⟨hd, hn⟩ := Prod.mk.inj hplaces
      exact ⟨k, q, hq, (hin k q hq).mpr helement, by rw [Nat.zero_add, ← hplaces]; exact hc⟩
  have hhelper := hrun.trans (if_neg (not_not.mpr hndim))
  refine ⟨_, _, hhelper.trans hloop, ?_, ?_, ?_⟩
  · intro p d hdst hex
    obtain ⟨n, hsrc⟩ := hex
    obtain ⟨n', hn', helement⟩ := @element_fill s.call.size s.call.src _ s.dst _
      ⟨_, (hmem (d - s.dstRaggedOffset.toNat, n - s.srcRaggedOffset.toNat)).mpr
        ⟨p, d, n, hdst, hsrc, rfl⟩⟩
    obtain ⟨p', d', n'', hdst', hsrc', heq⟩ := (hmem _).mp hn'
    obtain ⟨hd, rfl⟩ := Prod.mk.inj heq
    have hbehind := (s.behind p d n hdst hsrc).1
    have hbehind' := (s.behind p' d' n'' hdst' hsrc').1
    obtain rfl : d = d' := by omega
    obtain rfl : p = p' := hdst.unique hdst'
    refine ⟨n'', hsrc', ?_⟩
    rw [moved_eq_self hplain (length_element _ _ _)]
    exact helement
  · intro addr hout
    refine fill_of_outside _ fun c hc => ?_
    obtain ⟨p, d, n, hdst, hsrc, rfl⟩ := (hmem c).mp hc
    exact hout p d n hdst hsrc
  · have hle := length_filter_le (inBox bb) (chunks pts.ndim pts.npoints pts.points)
    rw [length_chunks] at hle
    rw [UInt64.zero_add, hshared]
    exact toNat_ofNat_of_lt' (Nat.lt_of_le_of_lt hle hcount)

end Patch

namespace PlainPatch

/-- Elements are copied between a bounding box and a list of points when their bytes are to stay as
they are, and between two lists of points not at all. -/
theorem served (s : PlainPatch) : s.Served := by
  have hsize : 0 < s.call.size := getTypeSize_pos s.numeric
  have hglobal := s.global
  have hdstBytes := s.dstBytes
  have hsrcBytes := s.srcBytes
  unfold Patch.Served
  cases hpairing : s.pairing with
  | ptsToBb bb pts =>
    rw [hpairing] at hglobal hsrcBytes
    obtain ⟨hends, harray, hndim⟩ := hglobal
    refine @Patch.patched_of_links _ false _ _ ?_ ?_ hends harray hndim ?_
      (Pairing.npoints_lt hsize hsrcBytes) s.plain
    · rw [Patch.run, hpairing]
      rfl
    · rw [hpairing]
      exact Pairing.links_ptsToBb bb pts
    · rw [hpairing]
      exact Patch.length_filter_places hends harray hndim
  | bbToPts pts bb =>
    rw [hpairing] at hglobal hdstBytes
    obtain ⟨hends, harray, hndim⟩ := hglobal
    refine @Patch.patched_of_links _ true _ _ ?_ ?_ hends harray hndim ?_
      (Pairing.npoints_lt hsize hdstBytes) s.plain
    · rw [Patch.run, hpairing]
      rfl
    · rw [hpairing]
      exact Pairing.links_bbToPts pts bb
    · rw [hpairing]
      exact Patch.length_filter_places hends harray hndim
  | ptsToPts pts1 pts2 =>
    show s.run = _
    rw [Patch.run, hpairing]
    rfl

end PlainPatch

def onePoint : Points := ⟨1, 1, [5]⟩

theorem eq_zero_of_onePoint {p : List Nat} {n : Nat} (h : (places onePoint)[n]? = some p) :
    n = 0 := by
  cases n with
  | zero => rfl
  | succ n => cases h

def samePoint : Patch where
  call := ⟨.little, .byte, .no, fun _ => 1⟩
  dst := fun _ => 0
  dstRaggedOffset := 0
  srcRaggedOffset := 0
  pairing := .ptsToPts onePoint onePoint
  numeric := by decide
  global := ⟨rfl, rfl, rfl⟩
  dstBytes := fun p n h => by
    rw [eq_zero_of_onePoint h]
    decide
  srcBytes := fun p n h => by
    rw [eq_zero_of_onePoint h]
    decide
  behind := fun _ _ _ _ _ => ⟨Nat.zero_le _, Nat.zero_le _⟩

/-- The point is not copied. -/
theorem not_patched_samePoint : ¬samePoint.Patched := by
  intro h
  obtain ⟨out, count, hrun, -, -, hcount⟩ := h
  have hzero : (.ok (samePoint.dst, 0) : Except Fault (Memory × UInt64)) = .ok (out, count) := hrun
  obtain ⟨-, rfl⟩ := Prod.mk.inj (Except.ok.inj hzero)
  exact absurd hcount (by decide)

end Adios.PatchData
