import Adios.Flexpath.Reader
import Adios.Grid.Boxes
import Mathlib.Data.Int.ModEq

/-!
# Adios — a bounding box is read from the writers that have its elements

Which writers `need_writer` picks, and what their messages leave in the buffer of the user. The test
is a little too weak at the borders, and the positions in the buffer are `int`s.
-/

namespace Adios.Flexpath

open List UInt64

/-! ## The borders of blocks and boxes -/

def Extent.stop (e : Extent) : Nat := e.start.toNat + e.count.toNat

def Extent.Meets (sel rank : Extent) : Prop :=
  sel.count ≠ 0 ∧ rank.count ≠ 0 ∧ rank.start.toNat < sel.stop ∧ sel.start.toNat < rank.stop

/-- A box and a block that `need_writer` does not keep apart in a dimension: a box of one coordinate
right behind the block, a block of none at 0 or inside the box, or a box of none at 0 or close to
the block. -/
def Extent.Touches (sel rank : Extent) : Prop :=
  (sel.count = 1 ∧ rank.stop = sel.start.toNat) ∨
  (rank.count = 0 ∧ (rank.start = 0 ∨
    (sel.start.toNat ≤ rank.start.toNat ∧ rank.start.toNat < sel.stop))) ∨
  (sel.count = 0 ∧ (sel.start = 0 ∨ (rank.start = sel.start ∧ rank.count ≠ 0) ∨
    (rank.start.toNat < sel.start.toNat ∧ sel.start.toNat ≤ rank.stop + 1)))

theorem uint64_eq_iff (a b : UInt64) : a = b ↔ a.toNat = b.toNat := UInt64.toNat_inj.symm

theorem needDim_iff (sel rank : Extent) :
    needDim sel rank = true ↔ sel.Meets rank ∨ sel.Touches rank := by
  obtain ⟨so, ss, hs⟩ := sel
  obtain ⟨ro, rs, hr⟩ := rank
  have hso := so.toNat_lt
  have hss := ss.toNat_lt
  have hro := ro.toNat_lt
  have hrs := rs.toNat_lt
  have h1 : (1 : UInt64).toNat = 1 := rfl
  have h0 : (0 : UInt64).toNat = 0 := rfl
  simp only [needDim, Extent.Meets, Extent.Touches, Extent.stop, Bool.or_eq_true, Bool.and_eq_true,
    decide_eq_true_eq, le_iff_toNat_le, UInt64.toNat_add, UInt64.toNat_sub, uint64_eq_iff, ne_eq, h1, h0]
  generalize so.toNat = a at *
  generalize ss.toNat = b at *
  generalize ro.toNat = c at *
  generalize rs.toNat = d at *
  omega

/-! ## Elements of blocks and boxes -/

def Contains (es : List Extent) (p : List Nat) : Prop :=
  Forall₂ (fun e x => e.start.toNat ≤ x ∧ x < e.stop) es p

def sizes (es : List Extent) : List Nat := (counts es).map UInt64.toNat

def localCoords (es : List Extent) (p : List Nat) : List Nat :=
  List.zipWith (fun e x => x - e.start.toNat) es p

def globalCoords (es : List Extent) (q : List Nat) : List Nat :=
  List.zipWith (fun e x => x + e.start.toNat) es q

def place (es : List Extent) (p : List Nat) : Nat := Grid.linear (sizes es) (localCoords es p)

def spans (es : List Extent) : List Grid.Span := es.map fun e => ⟨e.start.toNat, e.count.toNat⟩

theorem sizes_cons (e : Extent) (es : List Extent) : sizes (e :: es) = e.count.toNat :: sizes es :=
  rfl

theorem sizes_spans (es : List Extent) : Grid.sizes (spans es) = sizes es := by
  rw [Grid.sizes, spans, sizes, counts, map_map, map_map]
  rfl

variable {es : List Extent} {p : List Nat}

theorem contains_spans :
    Grid.Contains (spans es) p ↔ Contains es p :=
  forall₂_map_left_iff

theorem localCoords_spans (es : List Extent) (p : List Nat) :
    Grid.localCoords (spans es) p = localCoords es p :=
  zipWith_map_left

theorem globalCoords_spans (es : List Extent) (q : List Nat) :
    Grid.globalCoords (spans es) q = globalCoords es q :=
  zipWith_map_left

theorem place_spans (es : List Extent) (p : List Nat) : Grid.place (spans es) p = place es p := by
  rw [Grid.place, sizes_spans, localCoords_spans, place]

def elementAt (es : List Extent) (n : Nat) : List Nat := globalCoords es (Grid.coords (sizes es) n)

theorem elementAt_spans (es : List Extent) (n : Nat) :
    Grid.elementAt (spans es) n = elementAt es n := by
  rw [Grid.elementAt, sizes_spans, globalCoords_spans, elementAt]

theorem within_localCoords (h : Contains es p) :
    Grid.Within (localCoords es p) (sizes es) := by
  rw [← localCoords_spans, ← sizes_spans]
  exact Grid.within_localCoords (contains_spans.mpr h)

theorem place_lt (h : Contains es p) :
    place es p < Grid.volume (sizes es) :=
  Grid.linear_lt (within_localCoords h)

theorem place_injective {p' : List Nat} (h : Contains es p) (h' : Contains es p')
    (heq : place es p = place es p') : p = p' := by
  rw [← place_spans, ← place_spans] at heq
  exact Grid.place_injective (contains_spans.mpr h) (contains_spans.mpr h') heq

theorem contains_elementAt {n : Nat} (h : n < Grid.volume (sizes es)) :
    Contains es (elementAt es n) := by
  rw [← sizes_spans] at h
  rw [← contains_spans, ← elementAt_spans]
  exact Grid.contains_elementAt h

theorem place_elementAt {n : Nat} (h : n < Grid.volume (sizes es)) :
    place es (elementAt es n) = n := by
  rw [← sizes_spans] at h
  rw [← place_spans, ← elementAt_spans]
  exact Grid.place_elementAt h

theorem elementAt_place (h : Contains es p) :
    elementAt es (place es p) = p := by
  rw [← place_spans, ← elementAt_spans]
  exact Grid.elementAt_place (contains_spans.mpr h)

theorem exists_contains_iff (sel block : List Extent) :
    (∃ p, Contains sel p ∧ Contains block p) ↔ Forall₂ Extent.Meets sel block := by
  constructor
  · rintro ⟨p, hsel, hblock⟩
    induction hsel generalizing block with
    | nil =>
      cases hblock
      exact .nil
    | @cons s x sel p hs _ ih =>
      cases hblock with
      | @cons r _ block _ hr hblock =>
        refine .cons ?_ (ih block hblock)
        unfold Extent.Meets Extent.stop
        unfold Extent.stop at hs hr
        rw [ne_eq, ne_eq, uint64_eq_iff, uint64_eq_iff, UInt64.toNat_zero]
        omega
  · intro h
    induction h with
    | nil => exact ⟨[], .nil, .nil⟩
    | @cons s r sel block hmeets _ ih =>
      obtain ⟨p, hsel, hblock⟩ := ih
      unfold Extent.Meets at hmeets
      rw [ne_eq, ne_eq, uint64_eq_iff, uint64_eq_iff, UInt64.toNat_zero] at hmeets
      refine ⟨max s.start.toNat r.start.toNat :: p, .cons ?_ hsel, .cons ?_ hblock⟩
      · unfold Extent.stop at *
        omega
      · unfold Extent.stop at *
        omega

theorem needWriter_iff {sel block : List Extent} (hlen : sel.length = block.length) :
    needWriter sel block = true ↔
      Forall₂ (fun s r => s.Meets r ∨ s.Touches r) sel block := by
  induction sel generalizing block with
  | nil =>
    rw [eq_nil_of_length_eq_zero hlen.symm]
    exact iff_of_true rfl .nil
  | cons s sel ih =>
    cases block with
    | nil => cases hlen
    | cons r block =>
      rw [needWriter, forall₂_cons, ← needDim_iff, ← ih (Nat.succ.inj hlen)]
      cases needDim s r <;> simp

section Element

variable {index : List UInt64} {sel block : List Extent}

theorem mapLocalToGlobalIndex_toNat (h : Grid.Within (index.map UInt64.toNat) (sizes block)) :
    (mapLocalToGlobalIndex index block).map UInt64.toNat =
      globalCoords block (index.map UInt64.toNat) := by
  induction block generalizing index with
  | nil => cases index <;> rfl
  | cons e block ih =>
    cases index with
    | nil => rfl
    | cons i index =>
      rw [sizes_cons, map_cons] at h
      cases h with
      | cons hi hindex =>
        have hfits := e.fits
        show (i + e.start).toNat :: (mapLocalToGlobalIndex index block).map UInt64.toNat =
          (i.toNat + e.start.toNat) :: globalCoords block (index.map UInt64.toNat)
        rw [ih hindex, UInt64.toNat_add, Nat.mod_eq_of_lt (by omega)]

theorem indexInSelection_iff {global : List UInt64} (hlen : global.length = sel.length) :
    indexInSelection global sel = true ↔ Contains sel (global.map UInt64.toNat) := by
  induction sel generalizing global with
  | nil =>
    rw [eq_nil_of_length_eq_zero hlen]
    exact iff_of_true rfl .nil
  | cons e sel ih =>
    cases global with
    | nil => cases hlen
    | cons i global =>
      have hfits := e.fits
      have hstop : (e.start + e.count).toNat = e.stop := by
        rw [UInt64.toNat_add, Nat.mod_eq_of_lt (by omega)]
        rfl
      have hcons : Contains (e :: sel) ((i :: global).map UInt64.toNat) ↔
          (e.start.toNat ≤ i.toNat ∧ i.toNat < e.stop) ∧ Contains sel (global.map UInt64.toNat) :=
        forall₂_cons
      rw [hcons, ← ih (Nat.succ.inj hlen), indexInSelection]
      simp only [lt_iff_toNat_lt, le_iff_toNat_le, hstop, Bool.or_eq_true, decide_eq_true_eq]
      split_ifs with hout
      · exact iff_of_false not_false (by omega)
      · exact (and_iff_right (by omega)).symm

theorem mapGlobalToLocalIndex_toNat {global : List UInt64}
    (h : Contains sel (global.map UInt64.toNat)) :
    (mapGlobalToLocalIndex global sel).map UInt64.toNat =
      localCoords sel (global.map UInt64.toNat) := by
  induction sel generalizing global with
  | nil => cases global <;> rfl
  | cons e sel ih =>
    cases global with
    | nil => rfl
    | cons i global =>
      cases h with
      | cons hi hglobal =>
        show (i - e.start).toNat :: (mapGlobalToLocalIndex global sel).map UInt64.toNat =
          (i.toNat - e.start.toNat) :: localCoords sel (global.map UInt64.toNat)
        rw [ih hglobal, UInt64.toNat_sub_of_le _ _ (le_iff_toNat_le.mpr hi.1)]

/-! ## Offsets -/

theorem toInt_eq_of_emod {m n : Int} (h : m % 4294967296 = n % 4294967296) : toInt m = toInt n := by
  rw [toInt, toInt, ← Int.emod_bmod m, ← Int.emod_bmod n]
  exact congrArg (Int.bmod · 4294967296) h

theorem toInt_emod (n : Int) : toInt n % 4294967296 = n % 4294967296 := Int.bmod_emod

theorem toInt_mul (m n : Int) : toInt (toInt m * n) = toInt (m * n) := Int.bmod_mul_bmod

theorem toInt_of_lt {n : Int} (hnonneg : 0 ≤ n) (hlt : n < 2147483648) : toInt n = n :=
  Int.bmod_eq_of_le (by omega) (by omega)

theorem toInt_lt (n : Int) : toInt n < 2147483648 := Int.bmod_lt (by decide)

theorem nextOffset_toInt (offset : Int) (size i : UInt64) :
    nextOffset (toInt offset) size i = toInt (offset * size.toNat + i.toNat) := by
  refine toInt_eq_of_emod ?_
  have hoffset : ((UInt64.ofInt (toInt offset)).toNat : Int) % 4294967296 =
      offset % 4294967296 := by
    have hnat : (UInt64.ofInt (toInt offset)).toNat =
      (toInt offset % 18446744073709551616).toNat := by
      rw [UInt64.ofInt, toNat_ofNat']
      omega
    rw [← toInt_emod offset, hnat]
    omega
  generalize UInt64.ofInt (toInt offset) = k at hoffset ⊢
  have hmod : ((i + size * k).toNat : Int) % 4294967296 =
      ((size.toNat : Int) * k.toNat + i.toNat) % 4294967296 := by
    have hcast := Int.natCast_mul size.toNat k.toNat
    rw [UInt64.toNat_add, UInt64.toNat_mul, ← hcast]
    generalize size.toNat * k.toNat = x
    omega
  have hk : Int.ModEq 4294967296 k.toNat offset := hoffset
  rw [hmod, Int.mul_comm offset]
  exact (hk.mul_left size.toNat).add_right i.toNat

theorem foldl_nextOffset {dims index : List UInt64} (hlen : index.length = dims.length)
    (offset : Int) :
    (dims.zip index).foldl (fun offset e => nextOffset offset e.1 e.2) (toInt offset) =
      toInt (offset * Grid.volume (dims.map UInt64.toNat) +
        Grid.linear (dims.map UInt64.toNat) (index.map UInt64.toNat)) := by
  induction dims generalizing index offset with
  | nil =>
    rw [eq_nil_of_length_eq_zero hlen]
    show toInt offset = toInt (offset * (1 : Nat) + (0 : Nat))
    rw [Int.natCast_one, Int.mul_one, Int.natCast_zero, Int.add_zero]
  | cons size dims ih =>
    cases index with
    | nil => cases hlen
    | cons i index =>
      rw [zip_cons_cons, foldl_cons, nextOffset_toInt, ih (Nat.succ.inj hlen),
        map_cons, map_cons, Grid.volume_cons, Grid.linear, Int.natCast_mul,
        Int.natCast_add, Int.natCast_mul, Int.add_mul, Int.mul_assoc, Int.add_assoc]

theorem findOffset_eq {dims index : List UInt64} (hlen : index.length = dims.length) :
    findOffset dims index =
      toInt (Grid.linear (dims.map UInt64.toNat) (index.map UInt64.toNat)) := by
  have hfold := foldl_nextOffset hlen 0
  rw [Int.zero_mul, Int.zero_add, toInt_of_lt (Int.le_refl 0) (by decide)] at hfold
  exact hfold

theorem extractElement_of_contains
    (hindex : Grid.Within (index.map UInt64.toNat) (sizes block)) (elementSize : Nat)
    (data : List UInt8) (mem : Memory)
    (hin : Contains sel (globalCoords block (index.map UInt64.toNat))) :
    extractElement elementSize block sel index data mem =
      copyElement elementSize (toInt (place sel (globalCoords block (index.map UInt64.toNat))))
        data mem := by
  have hglobal := mapLocalToGlobalIndex_toNat hindex
  have hglobalLen : (mapLocalToGlobalIndex index block).length = sel.length := by
    rw [← length_map (f := UInt64.toNat), hglobal]
    exact (Forall₂.length_eq hin).symm
  rw [← hglobal] at hin ⊢
  have hlocal := mapGlobalToLocalIndex_toNat hin
  have hlocalLen : (mapGlobalToLocalIndex (mapLocalToGlobalIndex index block) sel).length =
      (counts sel).length := by
    rw [counts, length_map, mapGlobalToLocalIndex, length_zipWith, hglobalLen, Nat.min_self]
  have hoffset := findOffset_eq hlocalLen
  rw [hlocal] at hoffset
  show (if indexInSelection _ sel = true then _ else _) = _
  rw [if_pos ((indexInSelection_iff hglobalLen).mpr hin)]
  exact congrArg (fun offset => copyElement elementSize offset data mem) hoffset

theorem extractElement_of_not_contains (hlen : sel.length = block.length)
    (hindex : Grid.Within (index.map UInt64.toNat) (sizes block)) (elementSize : Nat)
    (data : List UInt8) (mem : Memory)
    (hout : ¬Contains sel (globalCoords block (index.map UInt64.toNat))) :
    extractElement elementSize block sel index data mem = .ok mem := by
  have hglobal := mapLocalToGlobalIndex_toNat hindex
  have hglobalLen : (mapLocalToGlobalIndex index block).length = sel.length := by
    have hindexLen : index.length = block.length := by
      have hlength := Forall₂.length_eq hindex
      rwa [sizes, counts, length_map, length_map, length_map] at hlength
    rw [mapLocalToGlobalIndex, length_zipWith, hindexLen, Nat.min_self, hlen]
  rw [← hglobal] at hout
  show (if indexInSelection _ sel = true then _ else _) = _
  rw [if_neg fun hin => hout ((indexInSelection_iff hglobalLen).mp hin)]

/-! ## The loop over a block -/

theorem incrementIndex_toNat {dims : List UInt64}
    (h : Grid.Within (index.map UInt64.toNat) (dims.map UInt64.toNat)) :
    ((incrementIndex dims index).1, (incrementIndex dims index).2.map UInt64.toNat) =
      Grid.increment (dims.map UInt64.toNat) (index.map UInt64.toNat) := by
  induction dims generalizing index with
  | nil => cases index <;> rfl
  | cons d dims ih =>
    cases index with
    | nil => rfl
    | cons i index =>
      rw [map_cons, map_cons] at h
      cases h with
      | cons hi hindex =>
        have hnext : (i + 1).toNat = i.toNat + 1 := by
          have hd := d.toNat_lt
          rw [UInt64.toNat_add]
          show (i.toNat + 1) % 2 ^ 64 = i.toNat + 1
          exact Nat.mod_eq_of_lt (by omega)
        have hrec := ih hindex
        rw [map_cons, map_cons, incrementIndex, Grid.increment, ← hrec]
        simp only [lt_iff_toNat_lt, hnext]
        split_ifs
        · rfl
        · rw [map_cons, hnext]
        · rfl

end Element

def elementWrite (elementSize : Nat) (block sel : List Extent) (data : List UInt8) (n : Nat) :
    Heap.Write UInt8 where
  addr := toInt (place sel (elementAt block n) * elementSize)
  cells := (data.drop (n * elementSize)).take elementSize

section Loop

variable {elementSize : Nat} {block sel : List Extent} {data : List UInt8}

theorem extractElement_spec (hlen : sel.length = block.length) {n : Nat}
    (hn : n < Grid.volume (sizes block))
    (hdata : data.length = Grid.volume (sizes block) * elementSize) {index : List UInt64}
    (hindex : index.map UInt64.toNat = Grid.coords (sizes block) n) (mem : Memory) :
    ∃ ws, extractElement elementSize block sel index (data.drop (n * elementSize)) mem =
        .ok (Heap.writeAll mem ws) ∧
      ∀ w, w ∈ ws ↔ Contains sel (elementAt block n) ∧
        w = elementWrite elementSize block sel data n := by
  have hwithin : Grid.Within (index.map UInt64.toNat) (sizes block) := by
    rw [hindex]
    exact Grid.within_coords hn
  have helement : globalCoords block (index.map UInt64.toNat) = elementAt block n := by
    rw [hindex]
    rfl
  by_cases hin : Contains sel (elementAt block n)
  · refine ⟨[elementWrite elementSize block sel data n], ?_, fun w => ?_⟩
    · rw [extractElement_of_contains hwithin _ _ _ (helement ▸ hin), helement, copyElement]
      have hroom : elementSize ≤ (data.drop (n * elementSize)).length := by
        have hle : (n + 1) * elementSize ≤ Grid.volume (sizes block) * elementSize :=
          Nat.mul_le_mul_right _ hn
        rw [Nat.succ_mul] at hle
        rw [length_drop]
        omega
      rw [if_pos hroom, toInt_mul]
      rfl
    · rw [mem_singleton, and_iff_right hin]
  · refine ⟨[], ?_, fun w => iff_of_false not_mem_nil fun h => hin h.1⟩
    exact extractElement_of_not_contains hlen hwithin _ _ _ (helement ▸ hin)

section

variable (hlen : sel.length = block.length)
  (hdata : data.length = Grid.volume (sizes block) * elementSize)

include hlen hdata

theorem extractLoop_spec {rounds n : Nat}
    (hn : n < Grid.volume (sizes block)) (hrounds : Grid.volume (sizes block) ≤ n + rounds)
    {index : List UInt64} (hindex : index.map UInt64.toNat = Grid.coords (sizes block) n)
    (mem : Memory) :
    ∃ ws, extractLoop elementSize block sel rounds index (data.drop (n * elementSize)) mem =
        .ok (Heap.writeAll mem ws) ∧
      ∀ w, w ∈ ws ↔ ∃ m, n ≤ m ∧ m < Grid.volume (sizes block) ∧
        Contains sel (elementAt block m) ∧ w = elementWrite elementSize block sel data m := by
  induction rounds generalizing n index mem with
  | zero => omega
  | succ rounds ih =>
    obtain ⟨ws, helement, hws⟩ := extractElement_spec hlen hn hdata hindex mem
    have hwithin : Grid.Within (index.map UInt64.toNat) (sizes block) := by
      rw [hindex]
      exact Grid.within_coords hn
    have hincrement : ((incrementIndex (counts block) index).1,
        (incrementIndex (counts block) index).2.map UInt64.toNat) =
        Grid.increment (sizes block) (Grid.coords (sizes block) n) := by
      rw [← hindex]
      exact incrementIndex_toNat hwithin
    rw [Grid.increment_coords hn] at hincrement
    have hround : extractLoop elementSize block sel (rounds + 1) index
        (data.drop (n * elementSize)) mem =
        if (incrementIndex (counts block) index).1 = true then
          extractLoop elementSize block sel rounds (incrementIndex (counts block) index).2
            ((data.drop (n * elementSize)).drop elementSize) (Heap.writeAll mem ws)
        else .ok (Heap.writeAll mem ws) := by
      rw [extractLoop, helement, ok_bind]
    rw [hround]
    split_ifs at hincrement with hnext
    · -- there is a next element
      obtain ⟨hmore, hindex'⟩ := Prod.mk.inj hincrement
      obtain ⟨ws', hloop, hws'⟩ := ih hnext (by omega) hindex' (Heap.writeAll mem ws)
      refine ⟨ws ++ ws', ?_, fun w => ?_⟩
      · rw [if_pos hmore, drop_drop, ← Nat.succ_mul, hloop, Heap.writeAll_append]
      · rw [mem_append, hws, hws']
        constructor
        · rintro (⟨hin, heq⟩ | ⟨m, hle, hm, hin, heq⟩)
          · exact ⟨n, Nat.le_refl n, hn, hin, heq⟩
          · exact ⟨m, Nat.le_of_succ_le hle, hm, hin, heq⟩
        · rintro ⟨m, hle, hm, hin, heq⟩
          rcases Nat.eq_or_lt_of_le hle with rfl | hlt
          · exact Or.inl ⟨hin, heq⟩
          · exact Or.inr ⟨m, hlt, hm, hin, heq⟩
    · obtain ⟨hmore, -⟩ := Prod.mk.inj hincrement
      refine ⟨ws, ?_, fun w => ?_⟩
      · rw [hmore]
        rfl
      · rw [hws]
        constructor
        · rintro ⟨hin, heq⟩
          exact ⟨n, Nat.le_refl n, hn, hin, heq⟩
        · rintro ⟨m, hle, hm, hin, heq⟩
          have hlast : m = n := by omega
          rw [hlast] at hin heq
          exact ⟨hin, heq⟩

theorem extractSelectionFromPartial_spec (hpos : 0 < Grid.volume (sizes block)) (mem : Memory) :
    ∃ ws, extractSelectionFromPartial elementSize block sel data mem =
        .ok (Heap.writeAll mem ws) ∧
      ∀ w, w ∈ ws ↔ ∃ p, Contains block p ∧ Contains sel p ∧
        w = elementWrite elementSize block sel data (place block p) := by
  have hzero : (List.replicate block.length (0 : UInt64)).map UInt64.toNat =
      Grid.coords (sizes block) 0 := by
    rw [Grid.coords_zero, map_replicate, sizes, counts, length_map, length_map]
    rfl
  have hrounds : Grid.volume (sizes block) ≤
      0 + Grid.volume ((counts block).map fun count => max 1 count.toNat) := by
    rw [Nat.zero_add]
    refine Grid.volume_mono ?_
    rw [sizes, forall₂_map_left_iff, forall₂_map_right_iff, forall₂_same]
    exact fun count _ => Nat.le_max_right 1 count.toNat
  obtain ⟨ws, hloop, hws⟩ := extractLoop_spec hlen hdata hpos hrounds hzero mem
  rw [Nat.zero_mul, drop_zero] at hloop
  refine ⟨ws, hloop, fun w => ?_⟩
  rw [hws]
  constructor
  · rintro ⟨m, -, hm, hin, heq⟩
    refine ⟨elementAt block m, contains_elementAt hm, hin, ?_⟩
    rw [heq, place_elementAt hm]
  · rintro ⟨p, hblock, hsel, heq⟩
    refine ⟨place block p, Nat.zero_le _, place_lt hblock, ?_, heq⟩
    rw [elementAt_place hblock]
    exact hsel

end

end Loop

/-! ## Messages -/

structure GlobalArray where
  type : Datatype
  elementSize : Nat
  elementSize_eq : fieldSize type = some elementSize
  ndims : Nat
  ndims_pos : 0 < ndims
  writers : List Writer
  length_block : ∀ w ∈ writers, w.block.length = ndims
  length_data : ∀ w ∈ writers, w.data.length = Grid.volume (sizes w.block) * elementSize
  disjoint : ∀ (i j : Nat) (v w : Writer) (p : List Nat), writers[i]? = some v →
    writers[j]? = some w → Contains v.block p → Contains w.block p → i = j

structure BoundingBox (ndims : Nat) where
  extents : List Extent
  length_eq : extents.length = ndims

def GlobalArray.asked (a : GlobalArray) (box : BoundingBox a.ndims) : List Nat :=
  askedWriters a.writers box.extents

def GlobalArray.receive (a : GlobalArray) (box : BoundingBox a.ndims) (ranks : List Nat)
    (mem : Memory) : Except Fault Memory :=
  rawMessages a.elementSize a.writers box.extents (a.asked box) ranks mem

/-- A read of a bounding box. Whatever the buffer has before and in whatever order the messages
come, behind them it has the elements of the box at their places and is not written to outside. -/
structure BoxRead (a : GlobalArray) (box : BoundingBox a.ndims) : Prop where
  asked : ∀ (j : Nat) (w : Writer), a.writers[j]? = some w →
    (j ∈ a.asked box ↔ ∃ p, Contains box.extents p ∧ Contains w.block p)
  received : ∀ ranks mem, (∀ j ∈ ranks, j < a.writers.length) → (∀ j ∈ a.asked box, j ∈ ranks) →
    ∃ mem', a.receive box ranks mem = .ok mem' ∧
      (∀ w ∈ a.writers, ∀ p, Contains w.block p → Contains box.extents p → ∀ k < a.elementSize,
        w.data[place w.block p * a.elementSize + k]? =
          some (mem' ↑(place box.extents p * a.elementSize + k))) ∧
      ∀ i : Int, i < 0 ∨ ↑(Grid.volume (sizes box.extents) * a.elementSize) ≤ i → mem' i = mem i

def TellsApart (a : GlobalArray) (box : BoundingBox a.ndims) : Prop :=
  ∀ w ∈ a.writers, Forall₂ (fun s r => s.Meets r ∨ s.Touches r) box.extents w.block →
    Forall₂ Extent.Meets box.extents w.block

def PlacesFit (a : GlobalArray) (box : BoundingBox a.ndims) : Prop :=
  ∀ w ∈ a.writers, ∀ p, Contains w.block p → Contains box.extents p →
    place box.extents p * a.elementSize < 2147483648

section Read

variable {a : GlobalArray} {box : BoundingBox a.ndims}

theorem GlobalArray.mem_asked {j : Nat} {w : Writer} (hw : a.writers[j]? = some w) :
    j ∈ a.asked box ↔
      Forall₂ (fun s r => s.Meets r ∨ s.Touches r) box.extents w.block := by
  have hlen : box.extents.length = w.block.length :=
    box.length_eq.trans (a.length_block w (mem_of_getElem? hw)).symm
  rw [← needWriter_iff hlen, asked, askedWriters, mem_map]
  constructor
  · rintro ⟨⟨v, i⟩, hmem, rfl⟩
    obtain ⟨hmem, hneed⟩ := mem_filter.mp hmem
    cases hw.symm.trans (mem_zipIdx_iff_getElem?.mp hmem)
    exact hneed
  · intro hneed
    exact ⟨(w, j), mem_filter.mpr ⟨mem_zipIdx_iff_getElem?.mpr hw, hneed⟩, rfl⟩

theorem GlobalArray.exists_of_mem_asked {j : Nat} (h : j ∈ a.asked box) :
    ∃ w, a.writers[j]? = some w := by
  obtain ⟨⟨w, i⟩, hmem, rfl⟩ := mem_map.mp h
  exact ⟨w, mem_zipIdx_iff_getElem?.mp (mem_filter.mp hmem).1⟩

theorem asked_iff : (∀ (j : Nat) (w : Writer), a.writers[j]? = some w →
    (j ∈ a.asked box ↔ ∃ p, Contains box.extents p ∧ Contains w.block p)) ↔
      TellsApart a box := by
  constructor
  · intro h w hw hneed
    obtain ⟨j, hj⟩ := mem_iff_getElem?.mp hw
    exact (exists_contains_iff _ _).mp ((h j w hj).mp ((GlobalArray.mem_asked hj).mpr hneed))
  · intro h j w hw
    rw [GlobalArray.mem_asked hw, exists_contains_iff]
    constructor
    · exact h w (mem_of_getElem? hw)
    · exact fun hmeets => hmeets.imp fun _ _ => Or.inl

theorem GlobalArray.rawHandler_spec (a : GlobalArray) {box : BoundingBox a.ndims}
    (hapart : TellsApart a box) (j : Nat) (mem : Memory) :
    ∃ ws, rawHandler a.elementSize a.writers box.extents (a.asked box) mem j =
        .ok (Heap.writeAll mem ws) ∧
      ∀ x, x ∈ ws ↔ j ∈ a.asked box ∧ ∃ w, a.writers[j]? = some w ∧
        ∃ p, Contains w.block p ∧ Contains box.extents p ∧
          x = elementWrite a.elementSize w.block box.extents w.data (place w.block p) := by
  unfold rawHandler
  split_ifs with hasked
  · obtain ⟨w, hj⟩ := GlobalArray.exists_of_mem_asked hasked
    have hw := mem_of_getElem? hj
    obtain ⟨p, hbox, hblock⟩ := (asked_iff.mpr hapart j w hj).mp hasked
    have hlen : box.extents.length = w.block.length :=
      box.length_eq.trans (a.length_block w hw).symm
    obtain ⟨ws, hextract, hws⟩ := extractSelectionFromPartial_spec hlen (a.length_data w hw)
      (Nat.zero_lt_of_lt (place_lt hblock)) mem
    refine ⟨ws, ?_, fun x => ?_⟩
    · rw [hj]
      exact hextract
    · rw [hws, and_iff_right hasked]
      constructor
      · exact fun h => ⟨w, hj, h⟩
      · rintro ⟨w', hj', h⟩
        cases hj.symm.trans hj'
        exact h
  · exact ⟨[], rfl, fun x => iff_of_false not_mem_nil fun h => hasked h.1⟩

theorem GlobalArray.receive_spec (hapart : TellsApart a box) (ranks : List Nat) (mem : Memory) :
    ∃ ws, a.receive box ranks mem = .ok (Heap.writeAll mem ws) ∧
      ∀ x, x ∈ ws ↔ ∃ j ∈ ranks, j ∈ a.asked box ∧ ∃ w, a.writers[j]? = some w ∧
        ∃ p, Contains w.block p ∧ Contains box.extents p ∧
          x = elementWrite a.elementSize w.block box.extents w.data (place w.block p) := by
  induction ranks generalizing mem with
  | nil =>
    refine ⟨[], rfl, fun x => iff_of_false not_mem_nil ?_⟩
    rintro ⟨j, hj, -⟩
    cases hj
  | cons j ranks ih =>
    obtain ⟨ws, hhandler, hws⟩ := a.rawHandler_spec hapart j mem
    obtain ⟨ws', hrest, hws'⟩ := ih (Heap.writeAll mem ws)
    refine ⟨ws ++ ws', ?_, fun x => ?_⟩
    · rw [Heap.writeAll_append, ← hrest]
      show rawMessages _ _ _ _ (j :: ranks) mem = _
      rw [rawMessages, List.foldlM_cons, hhandler]
      rfl
    · rw [mem_append, hws, hws']
      constructor
      · rintro (⟨hj, h⟩ | ⟨i, hi, h⟩)
        · exact ⟨j, mem_cons_self, hj, h⟩
        · exact ⟨i, mem_cons_of_mem j hi, h⟩
      · rintro ⟨i, hi, h⟩
        rcases mem_cons.mp hi with rfl | hi
        · exact Or.inl h
        · exact Or.inr ⟨i, hi, h⟩

theorem eq_of_mul_le_add_of_lt {m n k es : Nat} (hk : k < es) (hle : m * es ≤ n * es + k)
    (hlt : n * es + k < m * es + es) : m = n := by
  rcases Nat.lt_trichotomy m n with hmn | heq | hnm
  · have hmul : (m + 1) * es ≤ n * es := Nat.mul_le_mul_right es hmn
    rw [Nat.succ_mul] at hmul
    omega
  · exact heq
  · have hmul : (n + 1) * es ≤ m * es := Nat.mul_le_mul_right es hnm
    rw [Nat.succ_mul] at hmul
    omega

theorem addr_elementWrite (es : Nat) (block sel : List Extent) (data : List UInt8) (n : Nat) :
    (elementWrite es block sel data n).addr =
      toInt ((place sel (elementAt block n) : Int) * (es : Int)) := by
  rw [elementWrite]

theorem length_elementWrite {es : Nat} {block sel : List Extent} {data : List UInt8} {n : Nat}
    (hn : n < Grid.volume (sizes block)) (hdata : data.length = Grid.volume (sizes block) * es) :
    (elementWrite es block sel data n).cells.length = es := by
  have hle : (n + 1) * es ≤ Grid.volume (sizes block) * es := Nat.mul_le_mul_right _ hn
  rw [Nat.succ_mul] at hle
  show ((data.drop (n * es)).take es).length = es
  rw [length_take, length_drop]
  omega

theorem getElem?_elementWrite {es : Nat} {block sel : List Extent} {data : List UInt8} {n k : Nat}
    (hk : k < es) : (elementWrite es block sel data n).cells[k]? = data[n * es + k]? := by
  show ((data.drop (n * es)).take es)[k]? = _
  rw [getElem?_take_of_lt hk, getElem?_drop]

theorem PlacesFit.addr_eq (hfit : PlacesFit a box) {w : Writer} (hw : w ∈ a.writers) {p : List Nat}
    (hblock : Contains w.block p) (hbox : Contains box.extents p) :
    (elementWrite a.elementSize w.block box.extents w.data (place w.block p)).addr =
      ↑(place box.extents p * a.elementSize) := by
  have hlt := hfit w hw p hblock hbox
  rw [addr_elementWrite, elementAt_place hblock, ← Int.natCast_mul,
    toInt_of_lt (by omega) (by omega)]

theorem received_of_fits (hapart : TellsApart a box) (hfit : PlacesFit a box) {ranks : List Nat}
    (hall : ∀ j ∈ a.asked box, j ∈ ranks) (mem : Memory) :
    ∃ mem', a.receive box ranks mem = .ok mem' ∧
      (∀ w ∈ a.writers, ∀ p, Contains w.block p → Contains box.extents p → ∀ k < a.elementSize,
        w.data[place w.block p * a.elementSize + k]? =
          some (mem' ↑(place box.extents p * a.elementSize + k))) ∧
      ∀ i : Int, i < 0 ∨ ↑(Grid.volume (sizes box.extents) * a.elementSize) ≤ i →
        mem' i = mem i := by
  obtain ⟨ws, hreceive, hws⟩ := GlobalArray.receive_spec hapart ranks mem
  refine ⟨_, hreceive, ?_, ?_⟩
  · intro w hw p hblock hbox k hk
    obtain ⟨j, hj⟩ := mem_iff_getElem?.mp hw
    have hlt := place_lt hblock
    have haddr := hfit.addr_eq hw hblock hbox
    have hasked : j ∈ a.asked box := by
      rw [asked_iff.mpr hapart j w hj]
      exact ⟨p, hbox, hblock⟩
    have hcell : (elementWrite a.elementSize w.block box.extents w.data (place w.block p)).cellAt
        ↑(place box.extents p * a.elementSize + k) =
        w.data[place w.block p * a.elementSize + k]? := by
      rw [Int.natCast_add, ← haddr, Heap.Write.cellAt_add, getElem?_elementWrite hk]
    have hbound : place w.block p * a.elementSize + k < w.data.length := by
      have hle : (place w.block p + 1) * a.elementSize ≤
          Grid.volume (sizes w.block) * a.elementSize := Nat.mul_le_mul_right _ hlt
      rw [Nat.succ_mul] at hle
      rw [a.length_data w hw]
      omega
    rw [getElem?_eq_getElem hbound] at hcell ⊢
    refine congrArg some (Eq.symm ?_)
    refine Heap.writeAll_of_agree ⟨_, ?_, hcell⟩ fun x hx b hb => ?_
    · exact (hws _).mpr ⟨j, hall j hasked, hasked, w, hj, p, hblock, hbox, rfl⟩
    · -- what else is stored there is the same element
      obtain ⟨j', -, -, w', hj', p', hblock', hbox', rfl⟩ := (hws x).mp hx
      have hw' := mem_of_getElem? hj'
      have hrange := Heap.Write.lt_of_cellAt hb
      rw [hfit.addr_eq hw' hblock' hbox',
        length_elementWrite (place_lt hblock') (a.length_data w' hw')] at hrange
      have hplace : place box.extents p' = place box.extents p :=
        eq_of_mul_le_add_of_lt hk (by omega) (by omega)
      cases place_injective hbox' hbox hplace
      cases a.disjoint j' j w' w p hj' hj hblock' hblock
      cases hj'.symm.trans hj
      exact Option.some.inj (hb.symm.trans hcell)
  · intro i hi
    refine @Heap.writeAll_of_none _ mem ws i fun x hx => ?_
    obtain ⟨j, -, -, w, hj, p, hblock, hbox, rfl⟩ := (hws x).mp hx
    have hw := mem_of_getElem? hj
    refine Heap.Write.cellAt_eq_none ?_
    rw [hfit.addr_eq hw hblock hbox, length_elementWrite (place_lt hblock) (a.length_data w hw)]
    have hle : (place box.extents p + 1) * a.elementSize ≤
        Grid.volume (sizes box.extents) * a.elementSize :=
      Nat.mul_le_mul_right _ (place_lt hbox)
    rw [Nat.succ_mul] at hle
    omega

theorem GlobalArray.elementSize_dvd (a : GlobalArray) :
    0 < a.elementSize ∧ a.elementSize ∣ 2147483648 := by
  have hsize := a.elementSize_eq
  revert hsize
  generalize a.elementSize = es
  cases a.type <;> intro hsize <;> cases hsize <;> decide

theorem cellAt_elementWrite_of_le {w : Writer} (hw : w ∈ a.writers) {p : List Nat}
    (hblock : Contains w.block p) {i : Int} (hi : 2147483648 ≤ i) :
    (elementWrite a.elementSize w.block box.extents w.data (place w.block p)).cellAt i = none := by
  refine Heap.Write.cellAt_eq_none (.inr ?_)
  rw [length_elementWrite (place_lt hblock) (a.length_data w hw), addr_elementWrite]
  generalize (place box.extents (elementAt w.block (place w.block p)) : Int) = q
  obtain ⟨hpos, m, hm⟩ := a.elementSize_dvd
  have hm' : (a.elementSize : Int) * m = 2147483648 := by
    rw [← Int.natCast_mul, ← hm]
    rfl
  -- the address is a multiple of the size below 2 GiB, which is one too
  have hlt := toInt_lt (q * a.elementSize)
  have hmod : Int.ModEq 4294967296 (toInt (q * a.elementSize)) (q * a.elementSize) := toInt_emod _
  have hbig : (a.elementSize : Int) ∣ 4294967296 :=
    ⟨m * 2, by rw [← Int.mul_assoc, hm']; rfl⟩
  have hdvd : (a.elementSize : Int) ∣ toInt (q * a.elementSize) := by
    have hsub := Int.dvd_sub (Int.dvd_mul_left q a.elementSize) (Int.dvd_trans hbig hmod.dvd)
    rwa [Int.sub_sub_self] at hsub
  obtain ⟨t, ht⟩ := hdvd
  rw [ht] at hlt ⊢
  have htm : t < m := by
    rw [← hm'] at hlt
    exact Int.lt_of_mul_lt_mul_left hlt (by omega)
  calc (a.elementSize : Int) * t + a.elementSize = a.elementSize * (t + 1) := by
        rw [Int.mul_add, Int.mul_one]
    _ ≤ a.elementSize * m := Int.mul_le_mul_of_nonneg_left htm (by omega)
    _ ≤ i := by rw [hm']; exact hi

theorem uint8_ne_add_one (b : UInt8) : b ≠ b + 1 := by
  intro heq
  have hnat := congrArg UInt8.toNat heq
  have hlt := b.toNat_lt
  rw [UInt8.toNat_add] at hnat
  have hone : (1 : UInt8).toNat = 1 := rfl
  omega

/-- A box is read right exactly where borders are told apart and places fit. -/
theorem boxRead_iff (a : GlobalArray) (box : BoundingBox a.ndims) :
    BoxRead a box ↔ TellsApart a box ∧ PlacesFit a box := by
  constructor
  · intro hread
    have hapart := asked_iff.mp hread.asked
    refine ⟨hapart, fun w hw p hblock hbox => ?_⟩
    by_contra hlarge
    obtain ⟨j, hj⟩ := mem_iff_getElem?.mp hw
    -- a buffer that has something else where the element belongs
    have hbound : place w.block p * a.elementSize < w.data.length := by
      rw [a.length_data w hw]
      exact Nat.mul_lt_mul_of_pos_right (place_lt hblock) a.elementSize_dvd.1
    obtain ⟨mem', hreceive, hplaces, -⟩ := hread.received (a.asked box)
      (fun _ => w.data[place w.block p * a.elementSize] + 1)
      (fun j hj => by
        obtain ⟨w, hw⟩ := GlobalArray.exists_of_mem_asked hj
        exact (List.getElem?_eq_some_iff.mp hw).1)
      fun j hj => hj
    obtain ⟨ws, hreceive', hws⟩ := GlobalArray.receive_spec hapart (a.asked box)
      (fun _ => w.data[place w.block p * a.elementSize] + 1)
    cases hreceive.symm.trans hreceive'
    have hcell := hplaces w hw p hblock hbox 0 a.elementSize_dvd.1
    have hkept := @Heap.writeAll_of_none _
      (fun _ => w.data[place w.block p * a.elementSize] + 1) ws
      ↑(place box.extents p * a.elementSize) (by
        intro x hx
        obtain ⟨j', -, -, w', hj', p', hblock', -, rfl⟩ := (hws x).mp hx
        exact cellAt_elementWrite_of_le (mem_of_getElem? hj') hblock' (by omega))
    rw [Nat.add_zero, Nat.add_zero, hkept, getElem?_eq_getElem hbound] at hcell
    exact uint8_ne_add_one _ (Option.some.inj hcell)
  · rintro ⟨hapart, hfit⟩
    exact ⟨asked_iff.mpr hapart, fun ranks mem _ hall => received_of_fits hapart hfit hall mem⟩

end Read

/-! ## A block without elements -/

theorem not_contains_of_empty {e : Extent} (hzero : e.count = 0) :
    ¬Contains (e :: es) p := by
  intro hcontains
  cases hcontains with
  | cons hx _ =>
    unfold Extent.stop at hx
    rw [hzero, UInt64.toNat_zero] at hx
    omega

def eightBytes : GlobalArray where
  type := .byte
  elementSize := 1
  elementSize_eq := rfl
  ndims := 1
  ndims_pos := by decide
  writers := [⟨[⟨0, 8, by decide⟩], [1, 2, 3, 4, 5, 6, 7, 8]⟩, ⟨[⟨5, 0, by decide⟩], []⟩]
  length_block := by decide
  length_data := by decide
  disjoint i j v w p hv hw hpv hpw := by
    have hi := (List.getElem?_eq_some_iff.mp hv).1
    have hj := (List.getElem?_eq_some_iff.mp hw).1
    rw [length_cons, length_singleton] at hi hj
    by_contra hne
    have hcases : i = 1 ∨ j = 1 := by omega
    rcases hcases with rfl | rfl
    · cases hv
      exact not_contains_of_empty rfl hpv
    · cases hw
      exact not_contains_of_empty rfl hpw

def lastBytes : BoundingBox eightBytes.ndims := ⟨[⟨4, 4, by decide⟩], rfl⟩

/-- The writer without elements is asked, and an element is taken from what is behind its data. -/
theorem not_boxRead_emptyBlock :
    ¬BoxRead eightBytes lastBytes ∧
      ∀ mem, eightBytes.receive lastBytes [1] mem = .error .outOfBounds := by
  have hasked : 1 ∈ eightBytes.asked lastBytes := by decide
  constructor
  · intro hread
    obtain ⟨p, -, hblock⟩ := (hread.asked 1 _ rfl).mp hasked
    exact not_contains_of_empty rfl hblock
  · exact fun mem => rfl

end Adios.Flexpath
