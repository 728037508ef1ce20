import Adios.Query.FastBitInput

/-!
# Adios — where a hit lands

The code's positions are those of boxes: the entry of the slice that a hit sets is the one where it
lands.
-/

namespace Adios.FastBit.Input

open List

section Landing

variable {q : Input} {block : BoundingBox} {k : UInt64}

theorem slices_bounds (hbox : Grid.Inside (layout q.fortran block) q.dims)
    (hpos : 0 < Grid.volume q.dims) :
    ∀ s ∈ slices q.fortran block, s.1.toNat + s.2.toNat < 9223372036854775808 := by
  intro s hs
  have hmem : (⟨s.1.toNat, s.2.toNat⟩ : Grid.Span) ∈ layout q.fortran block :=
    mem_reverse.mpr (mem_map_of_mem hs)
  obtain ⟨i, hi, hget⟩ := mem_iff_getElem.mp hmem
  have hlen := Forall₂.length_eq hbox
  have hstop := (forall₂_iff_get.mp hbox).2 i hi (hlen ▸ hi)
  have hle := Grid.le_volume hpos _ (getElem_mem (hlen ▸ hi))
  have hsmall := q.small
  rw [get_eq_getElem, hget] at hstop
  have hsum : s.1.toNat + s.2.toNat ≤ q.dims.get ⟨i, hlen ▸ hi⟩ := hstop
  exact Nat.lt_of_le_of_lt (Nat.le_trans hsum hle) hsmall

theorem slices_eq_nil_iff : slices q.fortran block = [] ↔ layout q.fortran block = [] := by
  rw [layout, reverse_eq_nil_iff, spans, map_eq_nil_iff]

theorem zero_mem_iff : (∃ s ∈ (slices q.fortran block).dropLast, s.2 = 0) ↔
    ∃ s ∈ (layout q.fortran block).tail, s.count = 0 := by
  have htail : (layout q.fortran block).tail =
      (spans (slices q.fortran block).dropLast).reverse := by
    rw [layout, tail_reverse, spans, spans, map_dropLast]
  rw [htail]
  constructor
  · rintro ⟨s, hs, hzero⟩
    exact ⟨_, mem_reverse.mpr (mem_map_of_mem hs), congrArg UInt64.toNat hzero⟩
  · rintro ⟨s, hs, hzero⟩
    obtain ⟨t, ht, rfl⟩ := mem_map.mp (mem_reverse.mp hs)
    exact ⟨t, ht, UInt64.toNat_inj.mp hzero⟩

theorem getCoordinate_fault (hfault : layout q.fortran block = [] ∨
    ∃ s ∈ (layout q.fortran block).tail, s.count = 0) :
    ∃ e, getCoordinateFromBlock (slices q.fortran block) k = .error e := by
  obtain hnil | hzero := hfault
  · rw [slices_eq_nil_iff.mpr hnil]
    exact ⟨_, getCoordinateFromBlock_nil k⟩
  · exact getCoordinateFromBlock_of_eq_zero (zero_mem_iff.mpr hzero) k

theorem getCoordinate_ok (hbox : Grid.Inside (layout q.fortran block) q.dims)
    (hk : k.toNat < Grid.volume q.dims)
    (hfault : ¬(layout q.fortran block = [] ∨
      ∃ s ∈ (layout q.fortran block).tail, s.count = 0)) :
    ∃ coordinates, getCoordinateFromBlock (slices q.fortran block) k = .ok coordinates ∧
      (coordinates.map UInt64.toNat).reverse =
        Grid.elementAt (layout q.fortran block) k.toNat := by
  rw [not_or] at hfault
  have hbounds := slices_bounds hbox (Nat.zero_lt_of_lt hk)
  have hsmall : Grid.volume q.dims < 9223372036854775808 := q.small
  obtain ⟨coordinates, hrun, hmap⟩ := getCoordinateFromBlock_of_ne_zero
    (fun hnil => hfault.1 (slices_eq_nil_iff.mp hnil))
    (fun s hs hzero => hfault.2 (zero_mem_iff.mp ⟨s, hs, hzero⟩))
    (fun s hs => by
      have hsum := hbounds s hs
      omega)
    (fun s hs => by
      have hsum := hbounds s hs
      show k.toNat + s.1.toNat < 18446744073709551616
      omega)
  exact ⟨coordinates, hrun, by rw [hmap, reverse_reverse]; rfl⟩

theorem getPosInBox_eq {bb : BoundingBox} (hsel : q.sel = some bb) {coordinates : List UInt64}
    (hne : slices q.fortran bb ≠ []) (hpos : 0 < Grid.volume q.dims)
    (hlen : coordinates.length = (slices q.fortran bb).length) :
    getPosInBox (slices q.fortran bb) coordinates =
      if Grid.Contains q.selection (coordinates.map UInt64.toNat).reverse then
        (Grid.place q.selection (coordinates.map UInt64.toNat).reverse : Int)
      else -1 := by
  have hselection : q.selection = layout q.fortran bb := by
    unfold selection
    rw [hsel]
  have hbounds := slices_bounds (q.sel_inside bb hsel) hpos
  have hinside : insideBox (slices q.fortran bb) coordinates = true ↔
      Grid.Contains q.selection (coordinates.map UInt64.toNat).reverse := by
    rw [hselection, insideBox_iff hlen fun s hs => by
      have hsum := hbounds s hs
      omega]
    exact forall₂_reverse_iff.symm
  have hsize := q.size_lt
  rw [getPosInBox, if_neg hne]
  by_cases hin : Grid.Contains q.selection (coordinates.map UInt64.toNat).reverse
  · have hplace := Grid.place_lt hin
    have hcontains : Grid.Contains (spans (slices q.fortran bb))
      (coordinates.map UInt64.toNat) := by
      rw [hselection] at hin
      exact forall₂_reverse_iff.mp hin
    have hvolume : Grid.volume (Grid.sizes (spans (slices q.fortran bb))) = q.size := by
      rw [size, hselection, layout, Grid.sizes, Grid.sizes, map_reverse, Grid.volume_reverse]
    have hvalue := posInBox_toNat hcontains (by omega)
    have hplaces : Grid.place (spans (slices q.fortran bb)).reverse
        (coordinates.map UInt64.toNat).reverse =
        Grid.place q.selection (coordinates.map UInt64.toNat).reverse := by
      rw [hselection]
      rfl
    rw [hplaces] at hvalue
    have hlt : (posInBox (slices q.fortran bb) coordinates).toNat < 9223372036854775808 := by
      rw [hvalue]
      exact Nat.lt_trans hplace hsize
    rw [if_pos (hinside.mpr hin), if_pos hin, toInt64_of_lt hlt, hvalue]
  · rw [if_neg fun h => hin (hinside.mp h), if_neg hin]

theorem getPosInVariable_eq (hdims : q.varinfo.dims ≠ []) {coordinates : List UInt64}
    (hlen : coordinates.length = q.varinfo.dims.length) (hpos : 0 < Grid.volume q.dims)
    (hsize : Grid.volume q.dims ≤ 2147483647)
    (hsum : (coordinates.map UInt64.toNat).reverse.sum ≤ 4294967294) :
    getPosInVariable q.varinfo coordinates =
      (Grid.linear (q.varinfo.dims.map UInt64.toNat) (coordinates.map UInt64.toNat).reverse : Int)
        := by
  have hvolume : Grid.volume (q.varinfo.dims.map UInt64.toNat) = Grid.volume q.dims :=
    (volume_extents _ _).symm
  have hle := Grid.linear_le (Grid.pos_of_volume_pos (hvolume ▸ hpos))
    (coordinates.map UInt64.toNat).reverse
  have hbound : Grid.linear (q.varinfo.dims.map UInt64.toNat)
      (coordinates.map UInt64.toNat).reverse < 9223372036854775808 := by
    rw [hvolume] at hle
    calc _ ≤ _ := hle
      _ ≤ 4294967294 * 2147483647 := Nat.mul_le_mul hsum hsize
      _ < 9223372036854775808 := by decide
  have hvalue := @posInVariable_toNat coordinates q.varinfo.dims.reverse
    (by rw [length_reverse, hlen])
  rw [map_reverse, reverse_reverse, Nat.mod_eq_of_lt (by omega)] at hvalue
  have hlt : (posInVariable q.varinfo.dims.reverse coordinates).toNat < 9223372036854775808 := by
    rw [hvalue]
    exact hbound
  rw [getPosInVariable, if_neg hdims, toInt64_of_lt hlt, hvalue]

theorem length_layout (fortran : Bool) (b : BoundingBox) :
    (layout fortran b).length = (slices fortran b).length := by
  rw [layout, length_reverse, spans, length_map]

theorem length_dims (q : Input) : q.dims.length = q.varinfo.dims.length := by
  unfold dims extents
  split_ifs <;> simp

theorem layout_ne_nil_iff (hbox : Grid.Inside (layout q.fortran block) q.dims) :
    layout q.fortran block ≠ [] ↔ q.varinfo.dims ≠ [] := by
  have hlen := Forall₂.length_eq hbox
  rw [length_dims] at hlen
  rw [← length_pos_iff, ← length_pos_iff, hlen]

def Landing.result : Landing → Except Fault (Option Nat) → Prop
  | .fault, r => ∃ e, r = .error e
  | .outside, r => r = .ok none
  | .entry p, r => r = .ok (some p)

theorem landing_of_none {b : Nat} (h : q.varinfo.blockinfo[b + q.blocksBefore]? = none) (k : Nat) :
    q.landing b k = .fault := by
  rw [landing, h]

theorem landing_of_fault {b : Nat} (h : q.varinfo.blockinfo[b + q.blocksBefore]? = some block)
    (hfault : layout q.fortran block = [] ∨ ∃ s ∈ (layout q.fortran block).tail, s.count = 0)
    (k : Nat) : q.landing b k = .fault := by
  rw [landing, h]
  exact if_pos hfault

theorem landing_of_box {b : Nat} {bb : BoundingBox}
    (h : q.varinfo.blockinfo[b + q.blocksBefore]? = some block)
    (hfault : ¬(layout q.fortran block = [] ∨ ∃ s ∈ (layout q.fortran block).tail, s.count = 0))
    (hsel : q.sel = some bb) (k : Nat) :
    q.landing b k = q.entryOf (Grid.elementAt (layout q.fortran block) k) := by
  rw [landing, h, hsel]
  exact if_neg hfault

theorem landing_of_whole {b : Nat} (h : q.varinfo.blockinfo[b + q.blocksBefore]? = some block)
    (hfault : ¬(layout q.fortran block = [] ∨ ∃ s ∈ (layout q.fortran block).tail, s.count = 0))
    (hsel : q.sel = none) (k : Nat) :
    q.landing b k = .entry (Grid.linear (q.varinfo.dims.map UInt64.toNat)
      (Grid.elementAt (layout q.fortran block) k)) := by
  rw [landing, h, hsel]
  exact if_neg hfault

theorem currPos_of_none {b : Nat} (h : q.varinfo.blockinfo[b + q.blocksBefore]? = none) :
    q.leaf.currPos b k = .error .outOfBounds := by
  have hleaf : q.leaf.varinfo.blockinfo[b + q.blocksBefore]? = none := h
  rw [Leaf.currPos, sumBlocksBeforeThisTimeStep_eq, hleaf]

theorem currPos_of_some {b : Nat} (h : q.varinfo.blockinfo[b + q.blocksBefore]? = some block) :
    q.leaf.currPos b k = getCoordinateFromBlock (slices q.fortran block) k >>= fun coordinates =>
      .ok (q.sel.elim (getPosInVariable q.varinfo coordinates)
        fun bb => getPosInBox (slices q.fortran bb) coordinates) := by
  have hleaf : q.leaf.varinfo.blockinfo[b + q.blocksBefore]? = some block := h
  rw [Leaf.currPos, sumBlocksBeforeThisTimeStep_eq, hleaf]
  cases hsel : q.sel with
  | none =>
    have hnone : q.leaf.sel = none := hsel
    rw [hnone]
    rfl
  | some bb =>
    have hsome : q.leaf.sel = some bb := hsel
    rw [hsome]
    rfl

theorem entry_landing {b : Nat} (hit : q.Hit b k.toNat) (hsize : q.size ≤ 2147483647) :
    (q.landing b k.toNat).result (q.leaf.entry (b, k)) := by
  have hk := (lt_of_hit hit).1
  have hpos := Nat.zero_lt_of_lt hk
  cases hblock : q.varinfo.blockinfo[b + q.blocksBefore]? with
  | none =>
    rw [landing_of_none hblock]
    exact ⟨_, by rw [Leaf.entry, currPos_of_none hblock]; rfl⟩
  | some block =>
    have hbox := inside_of_blockinfo hblock
    by_cases hfault : layout q.fortran block = [] ∨
        ∃ s ∈ (layout q.fortran block).tail, s.count = 0
    · obtain ⟨e, he⟩ := @getCoordinate_fault q block k hfault
      rw [landing_of_fault hblock hfault]
      exact ⟨e, by rw [Leaf.entry, currPos_of_some hblock, he]; rfl⟩
    · obtain ⟨coordinates, hrun, hmap⟩ := getCoordinate_ok hbox hk hfault
      have hlayout := Forall₂.length_eq hbox
      have hdims := length_dims q
      have hlen : coordinates.length = (layout q.fortran block).length := by
        have hlength := congrArg List.length hmap
        rwa [length_reverse, length_map, Grid.length_elementAt] at hlength
      have hne : q.varinfo.dims ≠ [] := by
        rw [not_or] at hfault
        exact (layout_ne_nil_iff hbox).mp hfault.1
      have hentry : q.leaf.entry (b, k) =
          .ok (if 0 ≤ q.sel.elim (getPosInVariable q.varinfo coordinates)
              (fun bb => getPosInBox (slices q.fortran bb) coordinates) then
            some (q.sel.elim (getPosInVariable q.varinfo coordinates)
              (fun bb => getPosInBox (slices q.fortran bb) coordinates)).toNat
            else none) := by
        rw [Leaf.entry, currPos_of_some hblock, hrun]
        rfl
      rw [hentry]
      cases hsel : q.sel with
      | none =>
        have hvolume : q.size = Grid.volume q.dims := by
          unfold size selection
          rw [hsel]
          exact congrArg Grid.volume (Grid.sizes_whole _)
        have hsum : (coordinates.map UInt64.toNat).reverse.sum ≤ 4294967294 := by
          have hle := Grid.sum_elementAt_le hbox hpos
            (fun s hs hzero => hfault (.inr ⟨s, hs, hzero⟩)) k.toNat
          rw [hmap]
          omega
        have hvariable := getPosInVariable_eq hne (by omega) hpos (hvolume ▸ hsize) hsum
        rw [landing_of_whole hblock hfault hsel, Option.elim_none, hvariable, hmap,
          if_pos (Int.natCast_nonneg _), Int.toNat_natCast]
        rfl
      | some bb =>
        have hslices : (slices q.fortran bb).length = q.dims.length := by
          rw [← length_layout]
          exact Forall₂.length_eq (q.sel_inside bb hsel)
        have hnonempty : slices q.fortran bb ≠ [] := by
          rw [ne_eq, slices_eq_nil_iff]
          exact (layout_ne_nil_iff (q.sel_inside bb hsel)).mpr hne
        have hposition := @getPosInBox_eq q bb hsel coordinates hnonempty hpos (by omega)
        rw [landing_of_box hblock hfault hsel, Option.elim_some, hposition, hmap, entryOf]
        split_ifs with hin hnonneg hneg
        · rfl
        · exact absurd (Int.natCast_nonneg _) hnonneg
        · exact absurd hneg (by decide)
        · rfl

end Landing

end Adios.FastBit.Input
