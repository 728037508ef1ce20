import Adios.Core.CopySpecBoxes

/-!
# Core — shrunk copy specs and copies that change nothing
-/

namespace Adios.CopySubvolume

open List Grid

/-! ## Volumes that are the subvolume -/

section

variable {dim offset : Axis → UInt64} {axes : List Axis} {p : List Nat}

theorem place_of_whole (h : ∀ a ∈ axes, dim a = a.subv ∧ offset a = 0)
    (hlen : p.length = axes.length) : place dim offset axes p = linear (subvolume axes) p := by
  have hdims : dims dim axes = subvolume axes :=
    congrArg (List.map UInt64.toNat) (map_congr_left fun a ha => (h a ha).1)
  have hoffset : dims offset axes = List.replicate axes.length 0 := by
    rw [dims, map_map]
    refine eq_replicate_iff.mpr ⟨length_map _, fun x hx => ?_⟩
    obtain ⟨a, ha, rfl⟩ := mem_map.mp hx
    show (offset a).toNat = 0
    rw [(h a ha).2]
    rfl
  rw [place_eq _ _ hlen, hdims, hoffset, linear_replicate_zero, Nat.zero_add]

variable {raggedOffset bytes : UInt64} {size : Nat}

theorem Fits.linear_le (h : Fits axes dim offset raggedOffset bytes size)
    (hp : Within p (subvolume axes)) :
    linear (subvolume axes) p ≤ place dim offset axes p - raggedOffset.toNat := by
  have hlen := length_of_within hp
  have hfirst : Within (List.replicate axes.length 0) (subvolume axes) := by
    have hzero := within_coords (volume_pos_of_within hp)
    rw [coords_zero] at hzero
    rwa [subvolume, length_dims] at hzero
  have hbehind := h.behind _ hfirst
  have hdims : Forall₂ (· ≤ ·) (subvolume axes) (dims dim axes) := by
    unfold subvolume dims
    rw [map_map, map_map, forall₂_map_left_iff, forall₂_map_right_iff, forall₂_same]
    intro a ha
    have hle := h.inside a ha
    show a.subv.toNat ≤ (dim a).toNat
    omega
  have hle := linear_le_of_dims hdims p
  rw [place_eq _ _ (length_replicate), linear_replicate_zero] at hbehind
  rw [place_eq _ _ hlen]
  omega

theorem fits_subvolume (h : ∀ a ∈ axes, dim a = a.subv ∧ offset a = 0)
    (hroom : ∀ p, Within p (subvolume axes) →
      (linear (subvolume axes) p + 1) * size ≤ bytes.toNat) :
    Fits axes dim offset 0 bytes size where
  inside := by
    intro a ha
    obtain ⟨hdim, hoffset⟩ := h a ha
    rw [hdim, hoffset]
    exact Nat.le_of_eq (Nat.zero_add _)
  behind _ _ := Nat.zero_le _
  room := by
    intro p hp
    rw [place_of_whole h (length_of_within hp)]
    exact hroom p hp

end

theorem IntLoops.left {ds ds' : List UInt64} (h : IntLoops (ds ++ ds')) : IntLoops ds := by
  induction ds with
  | nil => trivial
  | cons d ds ih => exact ⟨h.1, fun hne => ih (h.2 hne)⟩

theorem IntLoops.take {ds : List UInt64} {m n : Nat} (h : IntLoops (ds.take n)) (hle : m ≤ n) :
    IntLoops (ds.take m) := by
  refine @IntLoops.left _ ((ds.take n).drop m) ?_
  have htake : (ds.take n).take m = ds.take m := by rw [take_take, Nat.min_eq_left hle]
  rw [← htake, take_append_drop]
  exact h

theorem lastNoncoveringLoop_map_le {f : Axis → Axis} (hf : ∀ a, a.Covering → (f a).Covering)
    {axes : List Axis} {i last last' : Nat} (hle : last' ≤ last) (hlast : last ≤ i) :
    lastNoncoveringLoop i last' (axes.map f) ≤ lastNoncoveringLoop i last axes := by
  induction axes generalizing i last last' with
  | nil => exact hle
  | cons a axes ih =>
    rw [map_cons, lastNoncoveringLoop, lastNoncoveringLoop]
    refine ih ?_ ?_
    · by_cases ha : a.Covering
      · rw [if_pos ha, if_pos (hf a ha)]
        exact hle
      · rw [if_neg ha]
        split_ifs <;> omega
    · split_ifs <;> omega

end Adios.CopySubvolume

namespace Adios.CopySpec

open List CopySubvolume Grid

/-! ## Shrunk specs -/

def shrinkDst (a : Axis) : Axis := { a with dst := a.subv, dstOffset := 0 }

def shrinkSrc (a : Axis) : Axis := { a with src := a.subv, srcOffset := 0 }

theorem copyspecInitFromBufs_eq {ndim : Nat} (h : ndim < 268435456)
    {subvDims dstDims dstSubvOffsets srcDims srcSubvOffsets : List UInt64}
    (hlen : ∀ dims ∈ [subvDims, dstDims, dstSubvOffsets, srcDims, srcSubvOffsets],
      dims.length = ndim) :
    copyspecInitFromBufs ndim (some subvDims) (some dstDims) (some dstSubvOffsets) (some srcDims)
      (some srcSubvOffsets) =
        .ok ⟨ndim, subvDims, dstDims, dstSubvOffsets, srcDims, srcSubvOffsets⟩ := by
  simp only [forall_mem_cons] at hlen
  obtain ⟨h1, h2, h3, h4, h5, -⟩ := hlen
  unfold copyspecInitFromBufs dupOrMalloc
  dsimp only
  rw [bufdup_whole h1 h, bufdup_whole h2 h, bufdup_whole h3 h, bufdup_whole h4 h, bufdup_whole h5 h]
  rfl

theorem map_zero (axes : List Axis) :
    List.replicate axes.length (0 : UInt64) = axes.map fun _ => 0 := by
  rw [map_const']

theorem copyspecShrinkDstToSubv_eq {axes : List Axis} (h : axes.length < 268435456) :
    copyspecShrinkDstToSubv (copyspecInit axes) = .ok (copyspecInit (axes.map shrinkDst)) := by
  unfold copyspecShrinkDstToSubv copyspecInit
  dsimp only
  rw [copyspecInitFromBufs_eq h (by simp), map_zero]
  simp only [map_map, length_map]
  rfl

theorem copyspecShrinkSrcToSubv_eq {axes : List Axis} (h : axes.length < 268435456) :
    copyspecShrinkSrcToSubv (copyspecInit axes) = .ok (copyspecInit (axes.map shrinkSrc)) := by
  unfold copyspecShrinkSrcToSubv copyspecInit
  dsimp only
  rw [copyspecInitFromBufs_eq h (by simp), map_zero]
  simp only [map_map, length_map]
  rfl

variable {f : Axis → Axis}

theorem Counted.map (hf : ∀ a, a.Covering → (f a).Covering) (hsubv : ∀ a, (f a).subv = a.subv)
    {axes : List Axis} (h : Counted axes) :
    Counted (axes.map f) := by
  obtain ⟨hroom, hloops⟩ := h
  have hsame : (axes.map f).map Axis.subv = axes.map Axis.subv := by
    rw [map_map]
    exact map_congr_left fun a _ => hsubv a
  refine ⟨by rwa [length_map], ?_⟩
  rw [hsame]
  exact hloops.take (lastNoncoveringLoop_map_le hf (Nat.le_refl 0) (Nat.le_refl 0))

theorem subvolume_map (hsubv : ∀ a, (f a).subv = a.subv) (axes : List Axis) :
    subvolume (axes.map f) = subvolume axes := by
  have hmap : (axes.map f).map Axis.subv = axes.map Axis.subv := by
    rw [map_map]
    exact map_congr_left fun a _ => hsubv a
  exact congrArg (List.map UInt64.toNat) hmap

theorem place_map {dim offset : Axis → UInt64} (hdim : ∀ a, dim (f a) = dim a)
    (hoffset : ∀ a, offset (f a) = offset a) (axes : List Axis) (p : List Nat) :
    CopySubvolume.place dim offset (axes.map f) p = CopySubvolume.place dim offset axes p := by
  have hmap : ∀ g : Axis → UInt64, (∀ a, g (f a) = g a) → (axes.map f).map g = axes.map g :=
    fun g hg => by
      rw [map_map]
      exact map_congr_left fun a _ => hg a
  unfold CopySubvolume.place dims
  rw [hmap dim hdim, hmap offset hoffset]

theorem Fits.map {dim offset : Axis → UInt64} {raggedOffset bytes : UInt64} {size : Nat}
    {axes : List Axis} (h : CopySubvolume.Fits axes dim offset raggedOffset bytes size)
    (hsubv : ∀ a, (f a).subv = a.subv) (hdim : ∀ a, dim (f a) = dim a)
    (hoffset : ∀ a, offset (f a) = offset a) :
    CopySubvolume.Fits (axes.map f) dim offset raggedOffset bytes size where
  inside := by
    intro _ hmem
    obtain ⟨a, ha, rfl⟩ := mem_map.mp hmem
    rw [hsubv, hdim, hoffset]
    exact h.inside a ha
  behind := by
    intro p hp
    rw [subvolume_map hsubv] at hp
    rw [place_map hdim hoffset]
    exact h.behind p hp
  room := by
    intro p hp
    rw [subvolume_map hsubv] at hp
    rw [place_map hdim hoffset]
    exact h.room p hp

theorem fits_shrunk {dim offset dim' offset' : Axis → UInt64} {raggedOffset bytes : UInt64}
    {size : Nat} {axes : List Axis} (h : CopySubvolume.Fits axes dim offset raggedOffset bytes size)
    (hsubv : ∀ a, (f a).subv = a.subv) (hdim : ∀ a, dim' (f a) = a.subv)
    (hoffset : ∀ a, offset' (f a) = 0) :
    CopySubvolume.Fits (axes.map f) dim' offset' 0 bytes size := by
  refine fits_subvolume ?_ fun p hp => ?_
  · intro _ hmem
    obtain ⟨a, ha, rfl⟩ := mem_map.mp hmem
    exact ⟨(hdim a).trans (hsubv a).symm, hoffset a⟩
  · rw [subvolume_map hsubv] at hp ⊢
    have hle := h.linear_le hp
    have hbehind := h.behind p hp
    exact Nat.le_trans (Nat.mul_le_mul_right size (by omega)) (h.room p hp)

section

variable (s : Copy)

def toTmp (swap : Flag) (tmp : Memory) : Copy where
  call := { s.call with swapEndianness := swap }
  axes := s.axes.map shrinkDst
  dstRaggedOffset := 0
  srcRaggedOffset := s.srcRaggedOffset
  dst := tmp
  dstBytes := s.srcBytes
  srcBytes := s.srcBytes
  numeric := s.numeric
  ne := by
    intro hnil
    exact s.ne (map_eq_nil_iff.mp hnil)
  dstFits := fits_shrunk s.srcFits (fun _ => rfl) (fun _ => rfl) fun _ => rfl
  srcFits := Fits.map s.srcFits (fun _ => rfl) (fun _ => rfl) fun _ => rfl

def fromTmp (swap : Flag) (tmp : Memory) : Copy where
  call := { s.call with src := tmp, swapEndianness := swap }
  axes := s.axes.map shrinkSrc
  dstRaggedOffset := s.dstRaggedOffset
  srcRaggedOffset := 0
  dst := s.dst
  dstBytes := s.dstBytes
  srcBytes := s.srcBytes
  numeric := s.numeric
  ne := by
    intro hnil
    exact s.ne (map_eq_nil_iff.mp hnil)
  dstFits := Fits.map s.dstFits (fun _ => rfl) (fun _ => rfl) fun _ => rfl
  srcFits := fits_shrunk s.srcFits (fun _ => rfl) (fun _ => rfl) fun _ => rfl

end

theorem byteSwapped_byteSwapped (type : Datatype) (e : List UInt8) :
    byteSwapped type (byteSwapped type e) = e := by
  have hlen := length_byteSwapped type e
  by_cases hcomplex : type = .complex ∨ type = .doubleComplex
  · have hhalf : (e.take (e.length / 2)).reverse.length = e.length / 2 := by
      rw [length_reverse, length_take]
      omega
    unfold byteSwapped at hlen ⊢
    rw [if_pos hcomplex] at hlen ⊢
    rw [if_pos hcomplex, hlen, take_left' hhalf, drop_left' hhalf, reverse_reverse,
      reverse_reverse, take_append_drop]
  · unfold byteSwapped
    rw [if_neg hcomplex, if_neg hcomplex, reverse_reverse]

theorem moved_moved {c c₁ c₂ : Call} (htype₁ : c₁.datumType = c.datumType)
    (htype₂ : c₂.datumType = c.datumType)
    (h : c.swapEndianness = .yes ↔ ¬(c₁.swapEndianness = .yes ↔ c₂.swapEndianness = .yes))
    (e : List UInt8) : c₂.moved (c₁.moved e) = c.moved e := by
  unfold Call.moved
  rw [htype₁, htype₂]
  by_cases h₁ : c₁.swapEndianness = .yes <;> by_cases h₂ : c₂.swapEndianness = .yes
  · rw [if_pos h₁, if_pos h₂, if_neg (by tauto), byteSwapped_byteSwapped]
  · rw [if_pos h₁, if_neg h₂, if_pos (by tauto)]
  · rw [if_neg h₁, if_pos h₂, if_pos (by tauto)]
  · rw [if_neg h₁, if_neg h₂, if_neg (by tauto)]

theorem isCopy_through {s : Copy} {swap swap' : Flag} {tmp tmp' out : Memory}
    (hswap : s.call.swapEndianness = .yes ↔ ¬(swap = .yes ↔ swap' = .yes))
    (hto : (toTmp s swap tmp).IsCopy tmp') (hfrom : (fromTmp s swap' tmp').IsCopy out) :
    s.IsCopy out := by
  have hsubvTo : subvolume (toTmp s swap tmp).axes = subvolume s.axes :=
    subvolume_map (f := shrinkDst) (fun _ => rfl) s.axes
  have hsubvFrom : subvolume (fromTmp s swap' tmp').axes = subvolume s.axes :=
    subvolume_map (f := shrinkSrc) (fun _ => rfl) s.axes
  have hdst : ∀ p, (fromTmp s swap' tmp').dstPlace p = s.dstPlace p := fun p =>
    congrArg (· - s.dstRaggedOffset.toNat) (place_map (f := shrinkSrc) (fun _ => rfl) (fun _ => rfl) s.axes p)
  have hsrc : ∀ p, (toTmp s swap tmp).srcPlace p = s.srcPlace p := fun p =>
    congrArg (· - s.srcRaggedOffset.toNat) (place_map (f := shrinkDst) (fun _ => rfl) (fun _ => rfl) s.axes p)
  constructor
  · intro p hp
    -- in the temporary the subvolume is all there is
    have hlen := length_of_within hp
    have htmp : (fromTmp s swap' tmp').srcPlace p = (toTmp s swap tmp).dstPlace p := by
      have hfromPlace : CopySubvolume.place Axis.src Axis.srcOffset (s.axes.map shrinkSrc) p =
          linear (subvolume s.axes) p := by
        rw [← hsubvFrom]
        refine place_of_whole (fun a ha => ?_) (by rw [length_map]; exact hlen)
        obtain ⟨b, -, rfl⟩ := mem_map.mp ha
        exact ⟨rfl, rfl⟩
      have htoPlace : CopySubvolume.place Axis.dst Axis.dstOffset (s.axes.map shrinkDst) p =
          linear (subvolume s.axes) p := by
        rw [← hsubvTo]
        refine place_of_whole (fun a ha => ?_) (by rw [length_map]; exact hlen)
        obtain ⟨b, -, rfl⟩ := mem_map.mp ha
        exact ⟨rfl, rfl⟩
      exact congrArg (· - 0) (hfromPlace.trans htoPlace.symm)
    have hfirst := hto.elements p (hsubvTo ▸ hp)
    have hsecond := hfrom.elements p (hsubvFrom ▸ hp)
    rw [hdst, htmp] at hsecond
    rw [hsrc] at hfirst
    show element out s.call.size (s.dstPlace p) = _
    refine hsecond.trans ?_
    show (fromTmp s swap' tmp').call.moved (element tmp' s.call.size _) = _
    have hfirst : element tmp' s.call.size ((toTmp s swap tmp).dstPlace p) = _ := hfirst
    rw [hfirst]
    exact @moved_moved s.call (toTmp s swap tmp).call (fromTmp s swap' tmp').call rfl rfl hswap _
  · intro a hout
    refine hfrom.frame a fun p hp => ?_
    rw [hsubvFrom] at hp
    rw [hdst]
    exact hout p hp

theorem throughRight_iff (s : Copy) : ThroughRight s ↔ Counted s.axes := by
  constructor
  · intro h
    obtain ⟨out, hrun, -⟩ := h
    rw [withSpec_copyspecInit] at hrun
    cases hok : copySubvolumeRaggedOffset s.call s.axes s.dstRaggedOffset s.srcRaggedOffset
        s.dst with
    | error e =>
      rw [hok] at hrun
      cases hrun
    | ok r => exact Copy.conditions_of_ok (s := s) hok
  · intro h
    obtain ⟨out, hrun, hcopy, -⟩ := s.copied_iff.mpr h
    have hlen : s.axes.length < 268435456 := Nat.lt_of_le_of_lt h.1 (by decide)
    refine ⟨out, by rw [withSpec_copyspecInit, hrun]; rfl, fun swap swap' tmp hswap => ?_⟩
    have hcounted : Counted (toTmp s swap tmp).axes :=
      h.map (f := shrinkDst) (fun a ha => ⟨ha.1, rfl, ha.2.2.1, rfl⟩) fun _ => rfl
    obtain ⟨tmp', hrunTo, hto, -⟩ := (toTmp s swap tmp).copied_iff.mpr hcounted
    have hcounted' : Counted (fromTmp s swap' tmp').axes :=
      h.map (f := shrinkSrc) (fun a ha => ⟨rfl, ha.2.1, rfl, ha.2.2.2⟩) fun _ => rfl
    obtain ⟨out', hrunFrom, hfrom, -⟩ := (fromTmp s swap' tmp').copied_iff.mpr hcounted'
    obtain rfl := hcopy.unique (isCopy_through hswap hto hfrom)
    have hrunTo : copySubvolumeRaggedOffset { s.call with swapEndianness := swap }
      (s.axes.map shrinkDst) 0 s.srcRaggedOffset tmp = _ := hrunTo
    have hrunFrom : copySubvolumeRaggedOffset
      { s.call with src := tmp', swapEndianness := swap' } (s.axes.map shrinkSrc)
        s.dstRaggedOffset 0 s.dst = _ := hrunFrom
    unfold copyThrough
    rw [copyspecShrinkDstToSubv_eq hlen, copyspecShrinkSrcToSubv_eq hlen, ok_bind, ok_bind,
      withSpec_copyspecInit, hrunTo]
    show copySubvolumeRaggedOffsetWithSpec { s.call with src := tmp', swapEndianness := swap' }
      _ _ _ _ = _
    rw [withSpec_copyspecInit, hrunFrom]
    rfl

/-! ## Copies that change nothing -/

theorem sameBytes_eq {dims₁ dims₂ : List UInt64} {ndim : Nat} (h₁ : dims₁.length = ndim)
    (h₂ : dims₂.length = ndim) (hsize : 0 ≤ dimsize ndim) :
    sameBytes dims₁ dims₂ (dimsize ndim) = .ok (dims₁.take ((dimsize ndim).toNat / 8) ==
      dims₂.take ((dimsize ndim).toNat / 8)) := by
  have hle := dimsize_le ndim
  unfold sameBytes
  rw [if_neg (by omega)]
  rfl

theorem zeroOffsets_eq (axes : List Axis) :
    zeroOffsets axes.length (axes.map Axis.dstOffset) (axes.map Axis.srcOffset) =
      .ok (decide (∀ a ∈ axes, a.dstOffset = 0 ∧ a.srcOffset = 0)) := by
  induction axes with
  | nil => rfl
  | cons a axes ih =>
    rw [length_cons, map_cons, map_cons, zeroOffsets]
    by_cases ha : a.dstOffset ≠ 0 ∨ a.srcOffset ≠ 0
    · rw [if_pos ha, decide_eq_false fun hall => ?_]
      · rfl
      · have hzero := hall a mem_cons_self
        tauto
    · rw [not_or, not_not, not_not] at ha
      rw [if_neg (by tauto), ih]
      congr 1
      rw [decide_eq_decide, forall_mem_cons]
      exact ⟨fun h => ⟨ha, h⟩, fun h => h.2⟩

theorem beq_take_map {f g : Axis → UInt64} (axes : List Axis) (k : Nat) :
    ((axes.map f).take k == (axes.map g).take k) = decide (∀ a ∈ axes.take k, f a = g a) := by
  rw [Bool.eq_iff_iff, beq_iff_eq, decide_eq_true_iff, ← map_take, ← map_take, map_inj_left]

theorem copyspecIsNoop_eq {axes : List Axis} (hsize : 0 ≤ dimsize axes.length) :
    copyspecIsNoop (copyspecInit axes) = .ok (decide (Compared axes)) := by
  have hdst := sameBytes_eq (length_map Axis.src) (length_map Axis.dst) hsize
  have hsubv := sameBytes_eq (length_map Axis.src) (length_map Axis.subv) hsize
  rw [beq_take_map] at hdst hsubv
  unfold copyspecIsNoop copyspecInit
  dsimp only
  rw [hdst, hsubv, ok_bind, zeroOffsets_eq]
  by_cases h₁ : ∀ a ∈ axes.take ((dimsize axes.length).toNat / 8), a.src = a.dst
  · by_cases h₂ : ∀ a ∈ axes.take ((dimsize axes.length).toNat / 8), a.src = a.subv
    · have hcompared : Compared axes ↔ ∀ a ∈ axes, a.dstOffset = 0 ∧ a.srcOffset = 0 :=
        ⟨fun h => h.2, fun h => ⟨fun a ha => ⟨(h₂ a ha).symm, h₁ a ha⟩, h⟩⟩
      rw [decide_eq_true h₁, decide_eq_true h₂, decide_eq_decide.mpr hcompared]
      rfl
    · rw [decide_eq_true h₁, decide_eq_false h₂]
      rw [decide_eq_false fun h : Compared axes => h₂ fun a ha => (h.1 a ha).1.symm]
      rfl
  · rw [decide_eq_false h₁, decide_eq_false fun h : Compared axes => h₁ fun a ha => (h.1 a ha).2]
    rfl

theorem compared_of_covering {axes : List Axis} (h : ∀ a ∈ axes, a.Covering) : Compared axes := by
  constructor
  · intro a ha
    obtain ⟨-, -, hsrc, hdst⟩ := h a (mem_of_mem_take ha)
    exact ⟨hsrc, hsrc.symm.trans hdst⟩
  · intro a ha
    obtain ⟨hsrc, hdst, -⟩ := h a ha
    exact ⟨hdst, hsrc⟩

theorem lastNoncoveringDim_of_covering {axes : List Axis} (h : ∀ a ∈ axes, a.Covering) :
    lastNoncoveringDim axes = 0 := by
  have hloop : ∀ i, lastNoncoveringLoop i 0 axes = 0 := by
    induction axes with
    | nil => exact fun _ => rfl
    | cons a axes ih =>
      intro i
      obtain ⟨ha, haxes⟩ := forall_mem_cons.mp h
      rw [lastNoncoveringLoop, if_pos ha]
      exact ih haxes (i + 1)
  exact hloop 0

theorem isCopy_overlaid {s : Copy} (h : ∀ a ∈ s.axes, a.Covering)
    (hswap : s.call.swapEndianness ≠ .yes) (hdstRagged : s.dstRaggedOffset = 0)
    (hsrcRagged : s.srcRaggedOffset = 0) :
    s.IsCopy (overlaid s.call.src s.dst (volume (subvolume s.axes) * s.call.size)) := by
  have hdst : ∀ p, Within p (subvolume s.axes) → s.dstPlace p = linear (subvolume s.axes) p :=
    fun p hp => by
      unfold Copy.dstPlace
      rw [place_of_whole (fun a ha => ⟨(h a ha).2.2.2.symm, (h a ha).2.1⟩) (length_of_within hp),
        hdstRagged]
      rfl
  have hsrc : ∀ p, Within p (subvolume s.axes) → s.srcPlace p = linear (subvolume s.axes) p :=
    fun p hp => by
      unfold Copy.srcPlace
      rw [place_of_whole (fun a ha => ⟨(h a ha).2.2.1.symm, (h a ha).1⟩) (length_of_within hp),
        hsrcRagged]
      rfl
  constructor
  · intro p hp
    have hlt := linear_lt hp
    have hroom := Nat.mul_le_mul_right s.call.size hlt
    rw [Nat.succ_mul] at hroom
    rw [hdst p hp, hsrc p hp, Call.moved, if_neg hswap]
    refine map_congr_left fun j hj => ?_
    rw [mem_range] at hj
    exact if_pos ⟨by omega, by omega⟩
  · intro a hout
    refine if_neg fun hin => ?_
    obtain ⟨n, rfl⟩ := Int.eq_ofNat_of_zero_le hin.1
    -- the element that the byte belongs to
    have hn : n < volume (subvolume s.axes) * s.call.size := by omega
    have hlt : n / s.call.size < volume (subvolume s.axes) :=
      Nat.div_lt_of_lt_mul (by rw [Nat.mul_comm]; exact hn)
    have hp := within_coords hlt
    have hdiv := Nat.div_add_mod' n s.call.size
    have hmod := Nat.mod_lt n (getTypeSize_pos s.numeric)
    have hmod : n % s.call.size < s.call.size := hmod
    have houtside := hout _ hp
    rw [hdst _ hp, linear_coords hlt, Nat.succ_mul] at houtside
    omega

def wholeCopy {axes : List Axis} (hne : axes ≠ []) (h : ∀ a ∈ axes, a.Covering)
    (hlt : volume (subvolume axes) < 18446744073709551616) : Copy where
  call := ⟨.little, .unsignedByte, .no, fun _ => 0⟩
  axes := axes
  dstRaggedOffset := 0
  srcRaggedOffset := 0
  dst := fun _ => 0
  dstBytes := 18446744073709551615
  srcBytes := 18446744073709551615
  numeric := by decide
  ne := hne
  dstFits := by
    refine fits_subvolume (fun a ha => ⟨(h a ha).2.2.2.symm, (h a ha).2.1⟩) fun p hp => ?_
    have hplace := linear_lt hp
    show (linear (subvolume axes) p + 1) * 1 ≤ 18446744073709551615
    omega
  srcFits := by
    refine fits_subvolume (fun a ha => ⟨(h a ha).2.2.1.symm, (h a ha).1⟩) fun p hp => ?_
    have hplace := linear_lt hp
    show (linear (subvolume axes) p + 1) * 1 ≤ 18446744073709551615
    omega

theorem noopRight_iff (axes : List Axis) : NoopRight axes ↔ NoopClear axes := by
  constructor
  · intro h
    obtain ⟨noop, hnoop, hcovering, hcopy⟩ := h
    have hsize : 0 ≤ dimsize axes.length := by
      by_contra hneg
      unfold copyspecIsNoop sameBytes at hnoop
      dsimp only at hnoop
      rw [if_pos (.inl (Int.not_le.mp hneg))] at hnoop
      cases hnoop
    rw [copyspecIsNoop_eq hsize] at hnoop
    obtain rfl := Except.ok.inj hnoop
    refine ⟨hsize, fun hsame => hcovering.mp (decide_eq_true hsame), fun hall hlt => ?_⟩
    by_cases hne : axes = []
    · rw [hne]
      exact Nat.zero_le _
    · have hswap : (wholeCopy hne hall hlt).call.swapEndianness ≠ .yes := Flag.noConfusion
      have hrun := hcopy (hcovering.mpr hall) (wholeCopy hne hall hlt) rfl hswap rfl rfl
      rw [copySubvolumeWithSpec, withSpec_copyspecInit] at hrun
      cases hok : copySubvolumeRaggedOffset (wholeCopy hne hall hlt).call axes 0 0
          (wholeCopy hne hall hlt).dst with
      | error e =>
        rw [hok] at hrun
        cases hrun
      | ok r => exact (Copy.conditions_of_ok (s := wholeCopy hne hall hlt) hok).1
  · intro h
    obtain ⟨hsize, hdecides, hroom⟩ := h
    refine ⟨_, copyspecIsNoop_eq hsize, ?_, ?_⟩
    · rw [decide_eq_true_iff]
      exact ⟨hdecides, compared_of_covering⟩
    · intro hnoop s haxes hswap hdstRagged hsrcRagged
      subst haxes
      have hall := hdecides (of_decide_eq_true hnoop)
      -- the buffer has room for all elements
      have hlt : volume (subvolume s.axes) < 18446744073709551616 := by
        by_cases hzero : volume (subvolume s.axes) = 0
        · rw [hzero]
          decide
        · have hpos := Nat.pos_of_ne_zero hzero
          have hlast := within_coords (Nat.sub_lt hpos Nat.one_pos)
          have hle := s.srcFits.linear_le hlast
          have hbehind := s.srcFits.behind _ hlast
          have hbytes := s.srcFits.room _ hlast
          have hmul := Nat.le_mul_of_pos_right
            (CopySubvolume.place Axis.src Axis.srcOffset s.axes
              (coords (subvolume s.axes) (volume (subvolume s.axes) - 1)) + 1 -
                s.srcRaggedOffset.toNat) (getTypeSize_pos s.numeric)
          rw [linear_coords (Nat.sub_lt hpos Nat.one_pos)] at hle
          have hmax := s.srcBytes.toNat_lt
          have hmul : _ ≤ _ * s.call.size := hmul
          omega
      have hcounted : Counted s.axes := by
        refine ⟨hroom hall hlt, ?_⟩
        rw [lastNoncoveringDim_of_covering hall]
        trivial
      obtain ⟨out, hrun, hcopy, -⟩ := s.copied_iff.mpr hcounted
      obtain rfl := hcopy.unique (isCopy_overlaid hall hswap hdstRagged hsrcRagged)
      rw [hdstRagged, hsrcRagged] at hrun
      rw [copySubvolumeWithSpec, withSpec_copyspecInit, hrun]
      rfl

/-- **Copy specs.** A spec made of two boxes moves what they share, the shrunk specs compose to the
spec, and the test for a copy that changes nothing is right, each exactly when its numbers come
through their `int`s. -/
theorem copySpecs_iff (b : Boxes) (s : Copy) (axes : List Axis) :
    (b.InitRight ↔ b.Clear) ∧ (ThroughRight s ↔ Counted s.axes) ∧
      (NoopRight axes ↔ NoopClear axes) :=
  ⟨b.initRight_iff, throughRight_iff s, noopRight_iff axes⟩

def elementOfLong : Boxes where
  dims := [(⟨0, 4294967296⟩, ⟨2, 1⟩)]
  ndim := cons_ne_nil _ _

/-- No spec is made, though the boxes share the element. -/
theorem not_initRight_elementOfLong : ¬elementOfLong.InitRight := by
  intro h
  obtain ⟨r, hr, hsome, -⟩ := h
  have hnone : copyspecInitFromIntersection elementOfLong.dims.length elementOfLong.dst
    elementOfLong.src = .ok none := by decide
  obtain rfl := Except.ok.inj (hnone.symm.trans hr)
  have hshared : elementOfLong.Shared [2] := by
    unfold Boxes.Shared
    decide
  exact absurd (hsome.mpr ⟨_, hshared⟩) (by decide)

end Adios.CopySpec
