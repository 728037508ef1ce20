import Adios.Core.CopySpec

/-!
# Core — when a copy spec is made of what two boxes share
-/

namespace Adios.Subvolume

open Grid

theorem stop_eq_min_iff {a b e1 e2 : Nat} (hab : a ≤ b) (hb : b < 18446744073709551616)
    (h1 : e1 < a + 18446744073709551616) (h2 : e2 < b + 18446744073709551616)
    (hmeet : b < min e1 e2) (hover : b < cut e1) :
    b + (18446744073709551616 - b + cut (if signed e1 ≤ signed e2 then e1 else e2)) %
        18446744073709551616 = min e1 e2 ↔
      cut (min e1 e2) = min e1 e2 ∧ signed (min e1 e2) ≤ signed (max e1 e2) := by
  unfold cut signed at *
  rcases Nat.le_total e1 e2 with hle | hle
  · rw [Nat.min_eq_left hle] at hmeet ⊢
    rw [Nat.max_eq_right hle]
    split_ifs <;> split_ifs at hover <;> omega
  · rw [Nat.min_eq_right hle] at hmeet ⊢
    rw [Nat.max_eq_left hle]
    split_ifs <;> split_ifs at hover <;> omega

theorem intersectOrdered_stop_iff (start1 len1 start2 len2 : UInt64) {e1 e2 : Nat}
    (he1 : e1 = start1.toNat + len1.toNat) (hle : start1.toNat ≤ start2.toNat)
    (h2 : e2 < start2.toNat + 18446744073709551616)
    (he2 : (start2.toNat + len2.toNat) % 4294967296 = e2 % 4294967296)
    (hmeet : start2.toNat < min e1 e2) (hover : start2.toNat < cut e1) :
    ∃ n, intersectOrdered start1 len1 start2 len2 = some (start2, n) ∧
      (start2.toNat + n.toNat = min e1 e2 ↔
        cut (min e1 e2) = min e1 e2 ∧ signed (min e1 e2) ≤ signed (max e1 e2)) := by
  obtain ⟨x, hx, hchosen⟩ := intersectOrdered_of_lt (by rw [he1]) he2 hover
  have hlen := len1.toNat_lt
  have hb := start2.toNat_lt
  refine ⟨x - start2, hx, ?_⟩
  rw [UInt64.toNat_sub, hchosen]
  exact stop_eq_min_iff hle hb (by omega) h2 hmeet hover

theorem exact_iff_heldInOrder {s1 s2 : Segment} (hmeet : Meet s1 s2) :
    (∃ r, intersectSegments s1.start s1.count s2.start s2.count = some r ∧ Exact s1 s2 r) ↔
      ¬Apart s1 s2 ∧ Volumes.HeldInOrder s1 s2 := by
  by_cases happart : Apart s1 s2
  · -- nothing is reported
    rw [intersectSegments_eq_none_iff.mpr happart]
    refine iff_of_false (fun hex => ?_) fun h => h.1 happart
    obtain ⟨r, hr, -⟩ := hex
    cases hr
  have hover := happart
  have hmeet : max s1.start.toNat s2.start.toNat < min s1.stop s2.stop := hmeet
  have h1 := s1.count.toNat_lt
  have h2 := s2.count.toNat_lt
  have hstop1 : s1.stop = s1.start.toNat + s1.count.toNat := rfl
  have hstop2 : s2.stop = s2.start.toNat + s2.count.toNat := rfl
  unfold Apart at hover
  unfold intersectSegments
  by_cases hswap : s2.start < s1.start
  · have hlt := UInt64.lt_iff_toNat_lt.mp hswap
    have hcut := toNat_ofInt_toInt s1.start
    have hmod : ((ofInt (toInt s1.start)).toNat + (ofInt (toInt s1.count)).toNat) % 4294967296 =
        s1.stop % 4294967296 := by
      rw [hcut, toNat_ofInt_toInt, Nat.add_mod, cut_mod, cut_mod, ← Nat.add_mod]
      rfl
    rw [if_pos hswap] at hover ⊢
    rw [Nat.max_eq_left (Nat.le_of_lt hlt)] at hmeet
    by_cases hsame : cut s1.start.toNat = s1.start.toNat
    · obtain ⟨n, hn, hiff⟩ := intersectOrdered_stop_iff s2.start s2.count _ _ hstop2
        (by rw [hcut, hsame]; omega) (by rw [hcut, hsame]; omega) hmod
        (by rw [hcut, hsame, Nat.min_comm]; exact hmeet) (by rw [hcut]; omega)
      rw [hcut, hsame, Nat.min_comm, Nat.max_comm] at hiff
      rw [hn]
      constructor
      · intro hex
        obtain ⟨r, hr, hexact⟩ := hex
        obtain rfl := Option.some.inj hr
        have hstop : (ofInt (toInt s1.start)).toNat + n.toNat = _ := hexact.stop
        rw [hcut, hsame] at hstop
        obtain ⟨hinner, houter⟩ := hiff.mp hstop
        exact ⟨happart, hinner, houter, fun _ => hsame⟩
      · intro h
        obtain ⟨-, hinner, houter, -⟩ := h
        refine ⟨_, rfl, ?_, ?_⟩
        · show (ofInt (toInt s1.start)).toNat = _
          rw [hcut, hsame, Nat.max_eq_left (Nat.le_of_lt hlt)]
        · show (ofInt (toInt s1.start)).toNat + n.toNat = _
          rw [hcut, hsame]
          exact hiff.mpr ⟨hinner, houter⟩
    · -- the start is reported as it has come through
      refine iff_of_false (fun hex => ?_) fun h => hsame (h.2.start hswap)
      obtain ⟨r, hr, hexact⟩ := hex
      have hstart := hexact.start
      rw [fst_of_intersectOrdered hr, hcut, Nat.max_eq_left (Nat.le_of_lt hlt)] at hstart
      exact hsame hstart
  · have hle := UInt64.le_iff_toNat_le.mp (UInt64.not_lt.mp hswap)
    rw [if_neg hswap] at hover ⊢
    rw [Nat.max_eq_right hle] at hmeet
    obtain ⟨n, hn, hiff⟩ := intersectOrdered_stop_iff _ _ s2.start s2.count hstop1 hle (by omega)
      (by rw [hstop2]) hmeet (by omega)
    rw [hn]
    constructor
    · intro hex
      obtain ⟨r, hr, hexact⟩ := hex
      obtain rfl := Option.some.inj hr
      obtain ⟨hinner, houter⟩ := hiff.mp hexact.stop
      exact ⟨happart, hinner, houter, fun h => absurd h hswap⟩
    · intro h
      obtain ⟨-, hinner, houter, -⟩ := h
      exact ⟨_, rfl, (Nat.max_eq_right hle).symm, hiff.mpr ⟨hinner, houter⟩⟩

end Adios.Subvolume

namespace Adios.CopySpec

open List CopySubvolume Subvolume Grid UInt64

/-! ## Copies of the dimensions -/

theorem dimsize_le (ndim : Nat) : dimsize ndim ≤ 8 * ndim := by
  unfold dimsize signed
  split_ifs <;> omega

/-- The arrays of a spec that is copied from are not larger than an `int` can say. -/
theorem dimsize_eq {ndim : Nat} (h : ndim < 268435456) : dimsize ndim = 8 * ndim := by
  unfold dimsize signed
  split_ifs <;> omega

theorem bufdup_eq {buf : List UInt64} {ndim : Nat} (hlen : buf.length = ndim) :
    bufdup buf (dimsize ndim) = if dimsize ndim < 0 then .error .wildPointer
      else .ok (buf.take ((dimsize ndim).toNat / 8)) := by
  have hle := dimsize_le ndim
  unfold bufdup
  split_ifs with hneg hshort
  · rfl
  · omega
  · rfl

theorem bufdup_whole {buf : List UInt64} {ndim : Nat} (hlen : buf.length = ndim)
    (h : ndim < 268435456) : bufdup buf (dimsize ndim) = .ok buf := by
  rw [bufdup_eq hlen, if_neg (by rw [dimsize_eq h]; omega), take_of_length_le]
  rw [dimsize_eq h]
  omega

theorem axes_copyspecInit (axes : List Axis) : (copyspecInit axes).axes = axes := by
  unfold SubvolumeCopySpec.axes copyspecInit
  simp only [zip_map', map_map]
  exact map_id axes

theorem withSpec_copyspecInit (c : Call) (axes : List Axis) (dstRagged srcRagged : UInt64)
    (dst : Memory) :
    copySubvolumeRaggedOffsetWithSpec c (copyspecInit axes) dstRagged srcRagged dst =
      (copySubvolumeRaggedOffset c axes dstRagged srcRagged dst).map Prod.fst := by
  have hroom : ¬axes.length < (copyspecInit axes).ndim := Nat.lt_irrefl _
  unfold copySubvolumeRaggedOffsetWithSpec
  rw [axes_copyspecInit]
  dsimp only
  rw [if_neg hroom]
  show (copySubvolumeRaggedOffset c (axes.take axes.length) dstRagged srcRagged dst >>= _) = _
  rw [take_length]
  cases copySubvolumeRaggedOffset c axes dstRagged srcRagged dst with
  | error _ => rfl
  | ok r => rfl

namespace Boxes

variable {b : Boxes}

/-! ## The spec -/

def copySpec (b : Boxes) (inter : List Common) : SubvolumeCopySpec where
  ndim := b.dims.length
  subvDims := inter.map Common.dims
  dstDims := (b.dst.map Segment.count).take ((dimsize b.dims.length).toNat / 8)
  dstSubvOffsets := inter.map Common.offsetRel1
  srcDims := (b.src.map Segment.count).take ((dimsize b.dims.length).toNat / 8)
  srcSubvOffsets := inter.map Common.offsetRel2

theorem copyspecInitFromIntersection_eq (b : Boxes) :
    copyspecInitFromIntersection b.dims.length b.dst b.src =
      if dimsize b.dims.length < 0 then .error .wildPointer
      else .ok ((intersectVolumes b.dst b.src).map b.copySpec) := by
  have hdst : (b.dst.map Segment.count).length = b.dims.length := by
    rw [length_map, dst, length_map]
  have hsrc : (b.src.map Segment.count).length = b.dims.length := by
    rw [length_map, src, length_map]
  unfold copyspecInitFromIntersection copyspecInitFromBufs dupOrMalloc
  dsimp only
  rw [bufdup_eq hdst, bufdup_eq hsrc]
  split_ifs with hneg
  · rfl
  · cases intersectVolumes b.dst b.src with
    | none => rfl
    | some inter => rfl

theorem subvolumeBox_cons (s : Segment) (vol : List Segment) (o d : UInt64)
    (offsets subvDims : List UInt64) :
    subvolumeBox (s :: vol) (o :: offsets) (d :: subvDims) =
      ⟨s.start.toNat + o.toNat, d.toNat⟩ :: subvolumeBox vol offsets subvDims := rfl

variable {ds : List (Segment × Segment)}

theorem subvolumeBox_of_exact {inter : List Common}
    (h : Forall₂ (fun c d => Reports c d ∧ Exact d.1 d.2 (c.offset, c.dims)) inter ds) :
    subvolumeBox (ds.map Prod.fst) (inter.map Common.offsetRel1) (inter.map Common.dims) =
        commonBox ds ∧
      subvolumeBox (ds.map Prod.snd) (inter.map Common.offsetRel2) (inter.map Common.dims) =
        commonBox ds := by
  induction h with
  | nil => exact ⟨rfl, rfl⟩
  | @cons c d inter ds hc _ ih =>
    obtain ⟨⟨-, hrel1, hrel2⟩, hstart, hstop⟩ := hc
    dsimp only at hstart hstop
    have hlt := c.offset.toNat_lt
    have h1 : d.1.start.toNat + c.offsetRel1.toNat = c.offset.toNat := by
      rw [hrel1, UInt64.toNat_sub]
      omega
    have h2 : d.2.start.toNat + c.offsetRel2.toNat = c.offset.toNat := by
      rw [hrel2, UInt64.toNat_sub]
      omega
    have hcount : c.dims.toNat =
      min d.1.stop d.2.stop - max d.1.start.toNat d.2.start.toNat := by omega
    rw [map_cons, map_cons, map_cons, map_cons, map_cons,
      subvolumeBox_cons, subvolumeBox_cons, ih.1, ih.2, h1, h2, hstart, hcount]
    exact ⟨rfl, rfl⟩

theorem exact_of_subvolumeBox {inter : List Common} (hmeet : ∀ d ∈ ds, Meet d.1 d.2)
    (h : Forall₂ Reports inter ds) (hbox : subvolumeBox (ds.map Prod.fst) (inter.map
      Common.offsetRel1) (inter.map Common.dims) = commonBox ds) :
    ∀ d ∈ ds, ∃ r, intersectSegments d.1.start d.1.count d.2.start d.2.count = some r ∧
      Exact d.1 d.2 r := by
  induction h with
  | nil => exact forall_mem_nil _
  | @cons c d inter ds hc _ ih =>
    obtain ⟨hd, hds⟩ := forall_mem_cons.mp hmeet
    have hd : max d.1.start.toNat d.2.start.toNat < min d.1.stop d.2.stop := hd
    rw [map_cons, map_cons, map_cons, subvolumeBox_cons, commonBox, map_cons] at hbox
    injection hbox with hspan hbox
    injection hspan with hstart hcount
    refine forall_mem_cons.mpr ⟨⟨(c.offset, c.dims), hc.common, ?_, ?_⟩, ih hds hbox⟩
    · -- the sum did not wrap, as it is one of the starts
      have hrel := congrArg UInt64.toNat hc.rel1
      have h1 := d.1.start.toNat_lt
      have h2 := d.2.start.toNat_lt
      have hlt := c.offset.toNat_lt
      rw [UInt64.toNat_sub] at hrel
      show c.offset.toNat = _
      omega
    · have hrel := congrArg UInt64.toNat hc.rel1
      have h1 := d.1.start.toNat_lt
      have h2 := d.2.start.toNat_lt
      have hlt := c.offset.toNat_lt
      rw [UInt64.toNat_sub] at hrel
      show c.offset.toNat + c.dims.toNat = _
      omega

/-! ## The places of what is shared -/

theorem toNat_commonAxis (d : Segment × Segment) :
    (commonAxis d).subv.toNat =
        min d.1.stop d.2.stop - max d.1.start.toNat d.2.start.toNat ∧
      (commonAxis d).dstOffset.toNat = max d.1.start.toNat d.2.start.toNat - d.1.start.toNat ∧
      (commonAxis d).srcOffset.toNat =
        max d.1.start.toNat d.2.start.toNat - d.2.start.toNat := by
  have h1 := d.1.start.toNat_lt
  have h2 := d.2.start.toNat_lt
  have hcount := d.1.count.toNat_lt
  have hstop : d.1.stop = d.1.start.toNat + d.1.count.toNat := rfl
  refine ⟨toNat_ofNat_of_lt' ?_, toNat_ofNat_of_lt' ?_,
    toNat_ofNat_of_lt' ?_⟩
  · show _ < 18446744073709551616
    omega
  · show _ < 18446744073709551616
    omega
  · show _ < 18446744073709551616
    omega

theorem inside_axes (hmeet : ∀ d ∈ ds, Meet d.1 d.2) :
    ∀ a ∈ ds.map commonAxis, a.dstOffset.toNat + a.subv.toNat ≤ a.dst.toNat ∧
      a.srcOffset.toNat + a.subv.toNat ≤ a.src.toNat := by
  intro a ha
  obtain ⟨d, hd, rfl⟩ := mem_map.mp ha
  have hlt : max d.1.start.toNat d.2.start.toNat < min d.1.stop d.2.stop := hmeet d hd
  have h1 : d.1.stop = d.1.start.toNat + d.1.count.toNat := rfl
  have h2 : d.2.stop = d.2.start.toNat + d.2.count.toNat := rfl
  obtain ⟨hsubv, hdst, hsrc⟩ := toNat_commonAxis d
  rw [hsubv, hdst, hsrc]
  show _ ≤ d.1.count.toNat ∧ _ ≤ d.2.count.toNat
  omega

theorem subvolume_axes (ds : List (Segment × Segment)) :
    subvolume (ds.map commonAxis) = sizes (commonBox ds) := by
  unfold subvolume CopySubvolume.dims sizes commonBox
  rw [map_map, map_map, map_map]
  exact map_congr_left fun d _ => (toNat_commonAxis d).1

theorem localCoords_commonBox {p : List Nat} (hp : Contains (commonBox ds) p) :
    List.zipWith (· + ·) (CopySubvolume.dims Axis.dstOffset (ds.map commonAxis))
          (localCoords (commonBox ds) p) =
        localCoords ((ds.map Prod.fst).map Segment.span) p ∧
      List.zipWith (· + ·) (CopySubvolume.dims Axis.srcOffset (ds.map commonAxis))
          (localCoords (commonBox ds) p) =
        localCoords ((ds.map Prod.snd).map Segment.span) p := by
  induction ds generalizing p with
  | nil => exact ⟨rfl, rfl⟩
  | cons d ds ih =>
    cases hp with
    | @cons _ x _ p hx hp =>
      obtain ⟨hdst, hsrc⟩ := ih hp
      obtain ⟨-, hdstOffset, hsrcOffset⟩ := toNat_commonAxis d
      have hx : max d.1.start.toNat d.2.start.toNat ≤ x ∧ _ := hx
      have hfst : (commonAxis d).dstOffset.toNat + (x - max d.1.start.toNat d.2.start.toNat) =
          x - d.1.start.toNat := by omega
      have hsnd : (commonAxis d).srcOffset.toNat + (x - max d.1.start.toNat d.2.start.toNat) =
          x - d.2.start.toNat := by omega
      exact ⟨congrArg₂ List.cons hfst hdst, congrArg₂ List.cons hsnd hsrc⟩

theorem place_axes {p : List Nat} (hp : Contains (commonBox ds) p) :
    CopySubvolume.place Axis.dst Axis.dstOffset (ds.map commonAxis)
          (localCoords (commonBox ds) p) = position (ds.map Prod.fst) p ∧
      CopySubvolume.place Axis.src Axis.srcOffset (ds.map commonAxis)
          (localCoords (commonBox ds) p) = position (ds.map Prod.snd) p := by
  obtain ⟨hdst, hsrc⟩ := localCoords_commonBox hp
  have hdims : CopySubvolume.dims Axis.dst (ds.map commonAxis) =
      sizes ((ds.map Prod.fst).map Segment.span) := by
    unfold CopySubvolume.dims sizes
    simp only [map_map]
    rfl
  have hdims' : CopySubvolume.dims Axis.src (ds.map commonAxis) =
      sizes ((ds.map Prod.snd).map Segment.span) := by
    unfold CopySubvolume.dims sizes
    simp only [map_map]
    rfl
  unfold CopySubvolume.place position Grid.place
  rw [hdst, hsrc, hdims, hdims']
  exact ⟨rfl, rfl⟩

/-! ## The copy -/

theorem copySpec_eq {inter : List Common}
    (h : Forall₂ (fun c d => Reports c d ∧ Exact d.1 d.2 (c.offset, c.dims)) inter b.dims)
    (hmeet : ∀ d ∈ b.dims, Meet d.1 d.2)
    (hwhole : b.dims.length ≤ (dimsize b.dims.length).toNat / 8) :
    b.copySpec inter = copyspecInit b.axes := by
  have hreported : inter.map Common.dims = b.axes.map Axis.subv ∧
      inter.map Common.offsetRel1 = b.axes.map Axis.dstOffset ∧
      inter.map Common.offsetRel2 = b.axes.map Axis.srcOffset := by
    unfold axes
    generalize b.dims = ds at h hmeet
    induction h with
    | nil => exact ⟨rfl, rfl, rfl⟩
    | @cons c d inter ds hc _ ih =>
      obtain ⟨hd, hds⟩ := forall_mem_cons.mp hmeet
      obtain ⟨hsubv, hdst, hsrc⟩ := ih hds
      obtain ⟨hsubvNat, hdstNat, hsrcNat⟩ := toNat_commonAxis d
      obtain ⟨⟨-, hrel1, hrel2⟩, hstart, hstop⟩ := hc
      dsimp only at hstart hstop
      have hlt := c.offset.toNat_lt
      refine ⟨congrArg₂ List.cons (UInt64.toNat_inj.mp ?_) hsubv,
        congrArg₂ List.cons (UInt64.toNat_inj.mp ?_) hdst,
        congrArg₂ List.cons (UInt64.toNat_inj.mp ?_) hsrc⟩
      · rw [hsubvNat]
        omega
      · rw [hdstNat, hrel1, UInt64.toNat_sub]
        omega
      · rw [hsrcNat, hrel2, UInt64.toNat_sub]
        omega
  have hdst : b.dst.map Segment.count = b.axes.map Axis.dst := by
    rw [dst, axes, map_map, map_map]
    rfl
  have hsrc : b.src.map Segment.count = b.axes.map Axis.src := by
    rw [src, axes, map_map, map_map]
    rfl
  have hlen : b.axes.length = b.dims.length := length_map _
  obtain ⟨hsubv, hdstOffset, hsrcOffset⟩ := hreported
  unfold copySpec copyspecInit
  rw [hsubv, hdstOffset, hsrcOffset, hdst, hsrc, hlen,
    take_of_length_le (by rw [length_map, hlen]; exact hwhole),
    take_of_length_le (by rw [length_map, hlen]; exact hwhole)]

theorem fits_box {axes : List Axis} {dim offset : Axis → UInt64} {n size : Nat}
    (hinside : ∀ a ∈ axes, (offset a).toNat + a.subv.toNat ≤ (dim a).toNat)
    (hvolume : volume (CopySubvolume.dims dim axes) = n) (hheld : n * size < 18446744073709551616) :
    CopySubvolume.Fits axes dim offset 0 (UInt64.ofNat (n * size)) size where
  inside := hinside
  behind _ _ := Nat.zero_le _
  room := by
    intro p hp
    have hlt := linear_lt (within_offset hinside hp)
    rw [hvolume] at hlt
    rw [toNat_ofNat_of_lt' hheld]
    exact Nat.mul_le_mul_right size hlt

theorem volume_axes (b : Boxes) :
    volume (CopySubvolume.dims Axis.dst b.axes) = elements b.dst ∧
      volume (CopySubvolume.dims Axis.src b.axes) = elements b.src := by
  unfold CopySubvolume.dims axes elements dst src sizes
  simp only [map_map]
  exact ⟨rfl, rfl⟩

def copy (b : Boxes) (c : Call) (dst : Memory) (hheld : b.Held c)
    (hmeet : ∀ d ∈ b.dims, Meet d.1 d.2) : Copy where
  call := c
  axes := b.axes
  dstRaggedOffset := 0
  srcRaggedOffset := 0
  dst := dst
  dstBytes := UInt64.ofNat (elements b.dst * c.size)
  srcBytes := UInt64.ofNat (elements b.src * c.size)
  numeric := hheld.numeric
  ne := by
    intro hnil
    exact b.ndim (map_eq_nil_iff.mp hnil)
  dstFits := fits_box (fun a ha => (inside_axes hmeet a ha).1) b.volume_axes.1 hheld.dst
  srcFits := fits_box (fun a ha => (inside_axes hmeet a ha).2) b.volume_axes.2 hheld.src

theorem moved_of_isCopy {c : Call} {dst out : Memory} {hheld : b.Held c}
    {hmeet : ∀ d ∈ b.dims, Meet d.1 d.2} (h : (b.copy c dst hheld hmeet).IsCopy out) :
    b.Moved c dst out where
  elements := by
    intro p hp
    have hcommon := (contains_commonBox b.dims p).mpr hp
    have hwithin : Within (localCoords (commonBox b.dims) p) (subvolume b.axes) :=
      (subvolume_axes b.dims).symm ▸ within_localCoords hcommon
    obtain ⟨hdst, hsrc⟩ := place_axes hcommon
    have helement := h.elements _ hwithin
    unfold Copy.dstPlace Copy.srcPlace at helement
    have hdst : CopySubvolume.place Axis.dst Axis.dstOffset b.axes _ = position b.dst p := hdst
    have hsrc : CopySubvolume.place Axis.src Axis.srcOffset b.axes _ = position b.src p := hsrc
    rw [← hdst, ← hsrc]
    exact helement
  frame := by
    intro a hout
    refine h.frame a fun q hq => ?_
    have hq' : Within q (sizes (commonBox b.dims)) := subvolume_axes b.dims ▸ hq
    have hcommon := contains_globalCoords hq'
    have hp := (contains_commonBox b.dims _).mp hcommon
    obtain ⟨hdst, -⟩ := place_axes hcommon
    rw [localCoords_globalCoords hq'] at hdst
    have hplace : (b.copy c dst hheld hmeet).dstPlace q = position b.dst _ := hdst
    rw [hplace]
    exact hout _ hp

/-! ## Success -/

theorem eq_none_iff (b : Boxes) :
    intersectVolumes b.dst b.src = none ↔ ∃ d ∈ b.dims, Apart d.1 d.2 :=
  intersectVolumes_eq_none_iff

theorem shared_iff (b : Boxes) : (∃ p, b.Shared p) ↔ ∀ d ∈ b.dims, Meet d.1 d.2 :=
  meet_iff b.dims

theorem exists_inter (h : ∀ d ∈ b.dims, Meet d.1 d.2 ∧ ¬Apart d.1 d.2 ∧
    Volumes.HeldInOrder d.1 d.2) :
    ∃ inter, intersectVolumes b.dst b.src = some inter ∧
      Forall₂ (fun c d => Reports c d ∧ Exact d.1 d.2 (c.offset, c.dims)) inter b.dims := by
  have hex : ∃ inter, Forall₂
      (fun c d => Reports c d ∧ Exact d.1 d.2 (c.offset, c.dims)) inter b.dims := by
    generalize b.dims = ds at h
    induction ds with
    | nil => exact ⟨[], .nil⟩
    | cons d ds ih =>
      obtain ⟨⟨hmeet, hclear⟩, hds⟩ := forall_mem_cons.mp h
      obtain ⟨inter, hinter⟩ := ih hds
      obtain ⟨x, hx, hexact⟩ := (exact_iff_heldInOrder hmeet).mpr hclear
      exact ⟨⟨x.2, x.1, x.1 - d.1.start, x.1 - d.2.start⟩ :: inter,
        .cons ⟨⟨hx, rfl, rfl⟩, hexact⟩ hinter⟩
  obtain ⟨inter, hinter⟩ := hex
  exact ⟨inter, intersectVolumes_eq_some_iff.mpr (hinter.imp fun c d hcd => hcd.1), hinter⟩

theorem describes_of_exact {inter : List Common}
    (h : Forall₂ (fun c d => Reports c d ∧ Exact d.1 d.2 (c.offset, c.dims)) inter b.dims) :
    b.Describes (b.copySpec inter) := by
  obtain ⟨hdst, hsrc⟩ := subvolumeBox_of_exact h
  have hdst : subvolumeBox b.dst (b.copySpec inter).dstSubvOffsets (b.copySpec inter).subvDims =
    commonBox b.dims := hdst
  have hsrc : subvolumeBox b.src (b.copySpec inter).srcSubvOffsets (b.copySpec inter).subvDims =
    commonBox b.dims := hsrc
  constructor
  · intro p
    rw [hdst]
    exact contains_commonBox b.dims p
  · intro p
    rw [hsrc]
    exact contains_commonBox b.dims p

theorem exact_of_describes {inter : List Common} (hmeet : ∀ d ∈ b.dims, Meet d.1 d.2)
    (hinter : intersectVolumes b.dst b.src = some inter) (h : b.Describes (b.copySpec inter)) :
    ∀ d ∈ b.dims, ∃ r, intersectSegments d.1.start d.1.count d.2.start d.2.count = some r ∧
      Exact d.1 d.2 r := by
  have hreports := intersectVolumes_eq_some_iff.mp hinter
  obtain ⟨p, hp⟩ := b.shared_iff.mpr hmeet
  have hlen : (subvolumeBox b.dst (inter.map Common.offsetRel1) (inter.map Common.dims)).length =
      (commonBox b.dims).length := by
    have hlen := length_of_contains ((h.dst p).mpr hp)
    have hlen' := length_of_contains ((contains_commonBox b.dims p).mpr hp)
    exact hlen.symm.trans hlen'
  refine exact_of_subvolumeBox hmeet hreports ?_
  exact eq_of_contains_iff hlen ((h.dst p).mpr hp) fun q =>
    (h.dst q).trans (contains_commonBox b.dims q).symm

section

variable {inter : List Common}
  (h : Forall₂ (fun c d => Reports c d ∧ Exact d.1 d.2 (c.offset, c.dims)) inter b.dims)
  (hmeet : ∀ d ∈ b.dims, Meet d.1 d.2)

include h hmeet

theorem exists_moved (hcounted : Counted b.axes) {c : Call} (hheld : b.Held c) (dst : Memory) :
    ∃ out, copySubvolumeWithSpec c (b.copySpec inter) dst = .ok out ∧ b.Moved c dst out := by
  have hlen : b.axes.length = b.dims.length := length_map _
  have hroom : b.axes.length ≤ 32 := hcounted.1
  have hwhole : b.dims.length ≤ (dimsize b.dims.length).toNat / 8 := by
    rw [dimsize_eq (by omega)]
    omega
  obtain ⟨out, hrun, hcopy, -⟩ := (b.copy c dst hheld hmeet).copied_iff.mpr hcounted
  refine ⟨out, ?_, moved_of_isCopy hcopy⟩
  have hrun : copySubvolumeRaggedOffset c b.axes 0 0 dst = _ := hrun
  rw [copySpec_eq h hmeet hwhole, copySubvolumeWithSpec, withSpec_copyspecInit, hrun]
  rfl

theorem counted_of_ok {c : Call} (hheld : b.Held c) {dst out : Memory}
    (hrun : copySubvolumeWithSpec c (b.copySpec inter) dst = .ok out) : Counted b.axes := by
  have hwhole : b.dims.length ≤ (dimsize b.dims.length).toNat / 8 := by
    -- the dimensions of the destination are read
    by_contra hshort
    have hlt : (b.copySpec inter).axes.length < (b.copySpec inter).ndim := by
      unfold SubvolumeCopySpec.axes copySpec
      simp only [length_map, length_zip, length_take]
      omega
    unfold copySubvolumeWithSpec copySubvolumeRaggedOffsetWithSpec at hrun
    rw [if_pos hlt] at hrun
    cases hrun
  rw [copySpec_eq h hmeet hwhole, copySubvolumeWithSpec, withSpec_copyspecInit] at hrun
  cases hok : copySubvolumeRaggedOffset c b.axes 0 0 dst with
  | error e =>
    rw [hok] at hrun
    cases hrun
  | ok r => exact Copy.conditions_of_ok (s := b.copy c dst hheld hmeet) hok

end

theorem held_byte (hdst : elements b.dst < 18446744073709551616)
    (hsrc : elements b.src < 18446744073709551616) :
    b.Held ⟨.little, .byte, .no, fun _ => 0⟩ where
  numeric := by decide
  dst := by
    show elements b.dst * 1 < _
    omega
  src := by
    show elements b.src * 1 < _
    omega

theorem initRight_iff (b : Boxes) : b.InitRight ↔ b.Clear := by
  constructor
  · intro h
    obtain ⟨r, hr, hsome, hspec⟩ := h
    rw [copyspecInitFromIntersection_eq] at hr
    by_cases hneg : dimsize b.dims.length < 0
    · rw [if_pos hneg] at hr
      cases hr
    rw [if_neg hneg] at hr
    obtain rfl := Except.ok.inj hr
    rw [Option.isSome_map, b.shared_iff] at hsome
    refine ⟨Int.not_lt.mp hneg, ?_⟩
    by_cases hmeet : ∀ d ∈ b.dims, Meet d.1 d.2
    · obtain ⟨inter, hinter⟩ := Option.isSome_iff_exists.mp (hsome.mpr hmeet)
      rw [hinter] at hspec
      obtain ⟨hdescribes, hmoved⟩ := hspec _ rfl
      have hexact := exact_of_describes hmeet hinter hdescribes
      have hclear : ∀ d ∈ b.dims, Meet d.1 d.2 ∧ ¬Apart d.1 d.2 ∧ Volumes.HeldInOrder d.1 d.2 :=
        fun d hd => ⟨hmeet d hd, (exact_iff_heldInOrder (hmeet d hd)).mp (hexact d hd)⟩
      refine .inl ⟨hclear, fun hdst hsrc => ?_⟩
      obtain ⟨inter', hinter', hreports⟩ := exists_inter hclear
      obtain rfl : inter = inter' := Option.some.inj (hinter.symm.trans hinter')
      have hheld := held_byte hdst hsrc
      obtain ⟨out, hrun, -⟩ := hmoved _ (fun _ => 0) hheld
      exact counted_of_ok hreports hmeet hheld hrun
    · right
      have hnone : intersectVolumes b.dst b.src = none := by
        rw [← Option.not_isSome_iff_eq_none, hsome]
        exact hmeet
      refine ⟨?_, b.eq_none_iff.mp hnone⟩
      by_contra hall
      exact hmeet fun d hd => by_contra fun hd' => hall ⟨d, hd, hd'⟩
  · intro h
    obtain ⟨hsize, h⟩ := h
    unfold InitRight
    rw [copyspecInitFromIntersection_eq, if_neg (Int.not_lt.mpr hsize)]
    refine ⟨_, rfl, ?_⟩
    rw [Option.isSome_map, b.shared_iff]
    rcases h with ⟨hclear, hcounted⟩ | ⟨⟨d, hd, hnot⟩, happart⟩
    · obtain ⟨inter, hinter, hexact⟩ := exists_inter hclear
      have hmeet : ∀ d ∈ b.dims, Meet d.1 d.2 := fun d hd => (hclear d hd).1
      rw [hinter]
      refine ⟨iff_of_true rfl hmeet, fun copySpec hspec => ?_⟩
      obtain rfl := Option.some.inj hspec
      refine ⟨describes_of_exact hexact, fun c dst hheld => ?_⟩
      -- a box that a buffer holds has less than 2^64 elements
      have hpos := getTypeSize_pos hheld.numeric
      have hdst := Nat.lt_of_le_of_lt (Nat.le_mul_of_pos_right _ hpos) hheld.dst
      have hsrc := Nat.lt_of_le_of_lt (Nat.le_mul_of_pos_right _ hpos) hheld.src
      exact exists_moved hexact hmeet (hcounted hdst hsrc) hheld dst
    · rw [b.eq_none_iff.mpr happart]
      refine ⟨iff_of_false Bool.false_ne_true fun hall => hnot (hall d hd), fun _ hspec => ?_⟩
      cases hspec

end Boxes

end Adios.CopySpec
