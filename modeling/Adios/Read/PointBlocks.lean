import Adios.Grid.Boxes
import Adios.Read.BoxRead
import Adios.Wire.Cells

/-!
# Adios — a box of one element in a block

What `read_var_bb` does to the memory with a box of one element in every dimension: if the block
has the element it is copied, from its place in the payload or, in a block without a
`payload_offset`, from the start of the payload, and if not nothing is copied.
-/

namespace Adios.BoxRead

open List Wire UInt64

/-! ## A dimension -/

namespace BoxDim

structure Single (d : BoxDim) : Prop where
  count : d.count = 1
  start : d.start.toNat < d.gdim.toNat
  stop : d.offset.toNat + d.ldim.toNat ≤ d.gdim.toNat

def Holds (d : BoxDim) : Prop :=
  d.offset.toNat ≤ d.start.toNat ∧ d.start.toNat < d.offset.toNat + d.ldim.toNat

instance (d : BoxDim) : Decidable d.Holds := inferInstanceAs (Decidable (_ ∧ _))

variable {d : BoxDim}

section

variable (h : d.Single)

include h

theorem Single.toNat_next : (d.start + d.count).toNat = d.start.toNat + 1 := by
  have hstart := h.start
  have hlt := d.gdim.toNat_lt
  rw [h.count, UInt64.toNat_add]
  exact Nat.mod_eq_of_lt (by
    show d.start.toNat + 1 < 2 ^ 64
    omega)

theorem Single.toNat_stop :
    (d.offset + d.ldim).toNat = d.offset.toNat + d.ldim.toNat := by
  rw [UInt64.toNat_add]
  exact Nat.mod_eq_of_lt (Nat.lt_of_le_of_lt h.stop d.gdim.toNat_lt)

theorem Single.outOfBound : d.outOfBound = false := by
  have hstart := h.start
  have hcount : d.count.toNat = 1 := by rw [h.count]; rfl
  simp only [BoxDim.outOfBound, Bool.or_eq_false_iff, decide_eq_false_iff_not, GT.gt,
    lt_iff_toNat_lt, h.toNat_next]
  omega

theorem Single.flag_iff : d.flag = true ↔
    d.Holds ∨ d.ldim.toNat = 0 ∧
      (d.offset.toNat = d.start.toNat ∨ d.offset.toNat = d.start.toNat + 1) := by
  simp only [flag, Holds, Bool.or_eq_true, Bool.and_eq_true, decide_eq_true_eq, ge_iff_le, GT.gt,
    lt_iff_toNat_lt, le_iff_toNat_le, h.toNat_next, h.toNat_stop]
  omega

theorem Single.flag_of_holds (hd : d.Holds) : d.flag = true :=
  h.flag_iff.mpr (.inl hd)

theorem Single.whole_iff :
    d.whole = true ↔ d.offset.toNat = d.start.toNat ∧ d.ldim.toNat = 1 := by
  have hone : d.ldim = 1 ↔ d.ldim.toNat = 1 := UInt64.toNat_inj.symm
  rw [whole, Bool.and_eq_true, decide_eq_true_eq, decide_eq_true_eq, h.count, hone, ← UInt64.toNat_inj]

theorem Single.holds_of_whole (hwhole : d.whole = true) : d.Holds := by
  obtain ⟨hoffset, hldim⟩ := h.whole_iff.mp hwhole
  unfold Holds
  omega

theorem Single.sizeInDset_of_holds (hd : d.Holds) : d.sizeInDset = 1 := by
  obtain ⟨hlo, hhi⟩ := hd
  have hstart : d.start ≥ d.offset := le_iff_toNat_le.mpr hlo
  have hstop : d.start < d.offset + d.ldim := by
    rw [lt_iff_toNat_lt, h.toNat_stop]
    exact hhi
  have hnot : ¬d.start + d.count > d.offset + d.ldim := by
    rw [GT.gt, lt_iff_toNat_lt, h.toNat_stop, h.toNat_next]
    omega
  rw [sizeInDset]
  rw [if_pos hstart, if_pos hstop, if_neg hnot, h.count]

theorem Single.sizeInDset_of_flag (hflag : d.flag = true) (hd : ¬d.Holds) :
    d.sizeInDset = 0 := by
  obtain ⟨hzero, hplace⟩ := (h.flag_iff.mp hflag).resolve_left hd
  have hldim : d.ldim = 0 := UInt64.toNat_inj.mp hzero
  rw [sizeInDset]
  rcases hplace with hsame | hnext
  · have hstart : d.offset = d.start := UInt64.toNat_inj.mp hsame
    rw [hldim, hstart, UInt64.add_zero, if_pos (UInt64.le_refl _), if_neg (UInt64.lt_irrefl _)]
  · have hbehind : d.offset = d.start + d.count :=
      UInt64.toNat_inj.mp (hnext.trans h.toNat_next.symm)
    have hstart : ¬d.start ≥ d.offset := by
      rw [ge_iff_le, le_iff_toNat_le]
      omega
    rw [if_neg hstart, hldim, hbehind, UInt64.add_zero, if_neg (UInt64.lt_irrefl _),
      UInt64.add_comm d.count, UInt64.sub_self]

end

theorem offsetInVar_of_holds (hd : d.Holds) : d.offsetInVar = 0 :=
  if_pos (le_iff_toNat_le.mpr hd.1)

theorem Single.offsetInDset_of_holds (h : d.Single) (hd : d.Holds) :
    d.offsetInDset = UInt64.ofNat (d.start.toNat - d.offset.toNat) := by
  have hle : d.offset ≤ d.start := le_iff_toNat_le.mpr hd.1
  have hin : d.start ≥ d.offset ∧ d.start < d.offset + d.ldim := by
    refine ⟨hle, ?_⟩
    rw [lt_iff_toNat_lt, h.toNat_stop]
    exact hd.2
  rw [offsetInDset, if_pos hin, ← UInt64.toNat_sub_of_le _ _ hle, UInt64.ofNat_toNat]

end BoxDim

/-! ## The place of the element -/

def elementPlace (ds : List BoxDim) : Nat :=
  Grid.linear (ds.map fun d => d.ldim.toNat) (ds.map fun d => d.start.toNat - d.offset.toNat)

section

variable {ds : List BoxDim} {size : UInt64}

theorem product_eq_one {f : BoxDim → UInt64} (h : ∀ d ∈ ds, f d = 1) : product (ds.map f) = 1 := by
  induction ds with
  | nil => rfl
  | cons d ds ih =>
    obtain ⟨hd, hds⟩ := forall_mem_cons.mp h
    have hrest : product (ds.map f) = 1 := ih hds
    show f d * product (ds.map f) = 1
    rw [hd, hrest]
    rfl

theorem product_eq_zero {f : BoxDim → UInt64} (h : ∃ d ∈ ds, f d = 0) :
    product (ds.map f) = 0 := by
  induction ds with
  | nil =>
    obtain ⟨d, hd, -⟩ := h
    cases hd
  | cons d ds ih =>
    show f d * product (ds.map f) = 0
    obtain ⟨d', hd', hzero⟩ := h
    rcases mem_cons.mp hd' with rfl | hd'
    · rw [hzero, UInt64.zero_mul]
    · have hrest : product (ds.map f) = 0 := ih ⟨d', hd', hzero⟩
      rw [hrest, UInt64.mul_zero]

theorem elementPlace_of_whole (h : ∀ d ∈ ds, d.Single) (hwhole : ∀ d ∈ ds, d.whole = true) :
    elementPlace ds = 0 ∧ Grid.volume (ds.map fun d => d.ldim.toNat) = 1 := by
  induction ds with
  | nil => exact ⟨rfl, rfl⟩
  | cons d ds ih =>
    obtain ⟨hd, hds⟩ := forall_mem_cons.mp h
    obtain ⟨hdw, hdsw⟩ := forall_mem_cons.mp hwhole
    obtain ⟨hoffset, hldim⟩ := hd.whole_iff.mp hdw
    obtain ⟨hplace, hvolume⟩ := ih hds hdsw
    constructor
    · show (d.start.toNat - d.offset.toNat) * _ + elementPlace ds = 0
      rw [hplace, hoffset, Nat.sub_self, Nat.zero_mul]
    · rw [map_cons, Grid.volume_cons, hldim, hvolume]

theorem payloadRange_of_holds (h : ∀ d ∈ ds, d.Single) (hholds : ∀ d ∈ ds, d.Holds) :
    payloadRange size ds = (UInt64.ofNat (elementPlace ds) * size,
      UInt64.ofNat (elementPlace ds) * size,
      UInt64.ofNat (Grid.volume (ds.map fun d => d.ldim.toNat))) := by
  induction ds with
  | nil =>
    show (0, 0, 1) = ((0 : UInt64) * size, (0 : UInt64) * size, (1 : UInt64))
    rw [UInt64.zero_mul]
  | cons d ds ih =>
    obtain ⟨hd, hds⟩ := forall_mem_cons.mp h
    obtain ⟨hdh, hdsh⟩ := forall_mem_cons.mp hholds
    have hone : d.offsetInDset + d.sizeInDset - 1 = d.offsetInDset := by
      rw [hd.sizeInDset_of_holds hdh, UInt64.add_sub_cancel]
    have hplace : UInt64.ofNat (elementPlace (d :: ds)) =
        UInt64.ofNat (elementPlace ds) +
          UInt64.ofNat (Grid.volume (ds.map fun d => d.ldim.toNat)) * d.offsetInDset := by
      show UInt64.ofNat ((d.start.toNat - d.offset.toNat) *
        Grid.volume (ds.map fun d => d.ldim.toNat) + elementPlace ds) = _
      rw [hd.offsetInDset_of_holds hdh, ofNat_add, UInt64.ofNat_mul, UInt64.add_comm,
        UInt64.mul_comm (UInt64.ofNat (d.start.toNat - d.offset.toNat))]
    rw [payloadRange, ih hds hdsh]
    dsimp only
    rw [hone, hplace, UInt64.add_mul, map_cons, Grid.volume_cons, UInt64.ofNat_mul,
      UInt64.ofNat_toNat, UInt64.mul_comm d.ldim]

/-- The three ways to read a block, by the dimensions up to the one of `hole_break`: all of it, a
part of the slowest dimension, or parts of several dimensions. -/
inductive ReadBy : List BoxDim → Prop where
  | whole {ds : List BoxDim} (hleading : leading ds = []) (hwhole : ∀ d ∈ ds, d.whole = true) :
      ReadBy ds
  | slowest {d : BoxDim} {rest : List BoxDim} (hleading : leading (d :: rest) = [d])
      (hwhole : ∀ d ∈ rest, d.whole = true) : ReadBy (d :: rest)
  | several {d d' : BoxDim} {partly rest : List BoxDim}
      (hleading : leading (d :: d' :: partly ++ rest) = d :: d' :: partly) :
      ReadBy (d :: d' :: partly ++ rest)

theorem readBy (ds : List BoxDim) : ReadBy ds := by
  have hsplit : ds = leading ds ++ (ds.reverse.takeWhile (·.whole)).reverse := by
    rw [leading, ← reverse_append, takeWhile_append_dropWhile, reverse_reverse]
  have hwhole : ∀ d ∈ (ds.reverse.takeWhile (·.whole)).reverse, d.whole = true := fun d hd =>
    mem_takeWhile_imp (mem_reverse.mp hd)
  cases hleading : leading ds with
  | nil =>
    rw [hleading, nil_append] at hsplit
    exact .whole hleading (hsplit ▸ hwhole)
  | cons d partly =>
    rw [hleading] at hsplit
    cases partly with
    | nil =>
      rw [hsplit] at hleading ⊢
      exact .slowest hleading hwhole
    | cons d' partly =>
      rw [hsplit] at hleading ⊢
      exact .several hleading

end

section

variable {ds : List BoxDim} {size : UInt64}

theorem product_ldim_of_whole (h : ∀ d ∈ ds, d.Single) (hwhole : ∀ d ∈ ds, d.whole = true) :
    product (ds.map (·.ldim)) = 1 :=
  product_eq_one fun d hd => UInt64.toNat_inj.mp ((h d hd).whole_iff.mp (hwhole d hd)).2

theorem slice_of_holds (h : ∀ d ∈ ds, d.Single) (hholds : ∀ d ∈ ds, d.Holds)
    {r : UInt64 × UInt64} (hr : slice size ds = .ok r) :
    r = (UInt64.ofNat (elementPlace ds) * size, size) := by
  unfold slice at hr
  cases readBy ds with
  | whole hleading hwhole =>
    -- the element is the block
    obtain ⟨hplace, -⟩ := elementPlace_of_whole h hwhole
    rw [hleading] at hr
    dsimp only at hr
    rw [product_ldim_of_whole h hwhole, UInt64.mul_one] at hr
    rw [← Except.ok.inj hr, hplace]
    show (0, size) = ((0 : UInt64) * size, size)
    rw [UInt64.zero_mul]
  | @slowest d rest hleading hwhole =>
    -- an element for each coordinate of the slowest dimension
    obtain ⟨hd, hrest⟩ := forall_mem_cons.mp h
    have hdh := hholds d mem_cons_self
    obtain ⟨hplace, hvolume⟩ := elementPlace_of_whole hrest hwhole
    have hstart : elementPlace (d :: rest) = d.start.toNat - d.offset.toNat := by
      show (d.start.toNat - d.offset.toNat) * Grid.volume (rest.map fun d => d.ldim.toNat) +
        elementPlace rest = _
      rw [hvolume, hplace, Nat.mul_one, Nat.add_zero]
    rw [hleading] at hr
    dsimp only at hr
    rw [drop_one, tail_cons, product_ldim_of_whole hrest hwhole, hd.sizeInDset_of_holds hdh,
      hd.offsetInDset_of_holds hdh, UInt64.mul_one, UInt64.mul_one, UInt64.one_mul] at hr
    rw [← Except.ok.inj hr, hstart]
  | several hleading =>
    rw [hleading] at hr
    dsimp only at hr
    split_ifs at hr
    rw [payloadRange_of_holds h hholds] at hr
    dsimp only at hr
    rw [← Except.ok.inj hr, UInt64.sub_self, UInt64.zero_add, UInt64.one_mul]

end

/-! ## The copy -/

def decoded (s : Setting) (type : Datatype) (e : List UInt8) : List UInt8 :=
  if s.env.changeEndianness then CopySubvolume.byteSwapped type e else e

section

variable {s : Setting} {type : Datatype} {mem mem' : Mem} {dst : Nat} {buff : List UInt8}

theorem length_decoded (e : List UInt8) : (decoded s type e).length = e.length := by
  unfold decoded
  split_ifs
  · exact CopySubvolume.length_byteSwapped type e
  · rfl

theorem changeEndianness_element (host : Endian) (h : type.IsNumeric) {e : List UInt8}
    (hlen : e.length = (getTypeSize type none).toNat) :
    CopySubvolume.changeEndianness host e type = CopySubvolume.byteSwapped type e := by
  have hpos := CopySubvolume.getTypeSize_pos h
  have hsize : (CopySubvolume.bpGetTypeSize type).toNat = e.length := by
    rw [CopySubvolume.bpGetTypeSize_eq h, hlen]
  rw [CopySubvolume.changeEndianness, hsize, Nat.div_self (hlen ▸ hpos),
    CopySubvolume.eachElement, CopySubvolume.eachElement, take_length, drop_length,
    append_nil, CopySubvolume.swapElement_eq host h hlen]

theorem copyOut_element (h : type.IsNumeric) {n : Nat} (hn : n = (getTypeSize type none).toNat)
    (hcopy : copyOut s type mem dst buff n = .ok mem') :
    n ≤ buff.length ∧ mem' = mem.write dst (decoded s type (buff.take n)) := by
  unfold copyOut at hcopy
  unfold decoded
  split_ifs at hcopy ⊢ with hshort
  · have hlen : (buff.take n).length = (getTypeSize type none).toNat := by
      rw [length_take, ← hn]
      omega
    refine ⟨by omega, ?_⟩
    rw [← Except.ok.inj hcopy, changeEndianness_element _ h hlen]
  · exact ⟨by omega, (Except.ok.inj hcopy).symm⟩

theorem copyOut_zero (hcopy : copyOut s type mem dst buff 0 = .ok mem') : mem' = mem := by
  unfold copyOut at hcopy
  have hnil : CopySubvolume.changeEndianness s.env.host [] type = [] := by
    rw [CopySubvolume.changeEndianness, length_nil, Nat.zero_div]
    rfl
  rw [if_neg (Nat.not_lt_zero _), take_zero, hnil, ite_self, Mem.write_nil] at hcopy
  exact (Except.ok.inj hcopy).symm

end

/-! ## `copy_data` -/

section

variable {copy : UInt64 → UInt64 → Mem → Except Fault Mem} {dstStride srcStride : UInt64}
  {dims : List CopyDim} {mem mem' : Mem}

theorem rounds_zero (body : UInt64 → Mem → Except Fault Mem) : rounds 0 body mem = .ok mem := rfl

theorem rounds_one (body : UInt64 → Mem → Except Fault Mem) : rounds 1 body mem = body 0 mem := by
  show (List.range 1).foldlM (fun mem i => body (UInt64.ofNat i) mem) mem = _
  rw [range_one, List.foldlM_cons]
  show (body 0 mem >>= fun mem => .ok mem) = _
  cases body 0 mem <;> rfl

theorem rounds_same {size : UInt64} {body : UInt64 → Mem → Except Fault Mem}
    (hbody : ∀ i mem mem', body i mem = .ok mem' → mem' = mem)
    (h : rounds size body mem = .ok mem') : mem' = mem := by
  unfold rounds at h
  split_ifs at h
  revert h
  generalize List.range size.toNat = is
  intro h
  induction is generalizing mem with
  | nil => exact (Except.ok.inj h).symm
  | cons i is ih =>
    rw [List.foldlM_cons] at h
    obtain ⟨mem'', hfirst, hrest⟩ := exists_of_bind_eq_ok h
    exact (ih hrest).trans (hbody _ _ _ hfirst)

theorem copyData_one (hne : dims ≠ []) (hone : ∀ d ∈ dims, d.sizeInDset = 1)
    {dst src : UInt64} : copyData copy dstStride srcStride dims dst src mem = copy dst src mem := by
  induction dims generalizing dst src with
  | nil => exact absurd rfl hne
  | cons d dims ih =>
    obtain ⟨hd, hdims⟩ := forall_mem_cons.mp hone
    cases dims with
    | nil =>
      rw [copyData, hd, rounds_one, UInt64.zero_mul, UInt64.zero_mul, UInt64.zero_add,
        UInt64.zero_add]
    | cons d' dims =>
      rw [copyData, hd, rounds_one, ih (cons_ne_nil _ _) hdims, UInt64.zero_mul,
        UInt64.zero_mul, UInt64.zero_mul, UInt64.zero_mul, UInt64.add_zero, UInt64.add_zero]

theorem copyData_same (hnone : (∃ d ∈ dims, d.sizeInDset = 0) ∨
      ∀ dst src mem mem', copy dst src mem = .ok mem' → mem' = mem) {dst src : UInt64}
    (h : copyData copy dstStride srcStride dims dst src mem = .ok mem') : mem' = mem := by
  induction dims generalizing dst src mem mem' with
  | nil => exact (Except.ok.inj h).symm
  | cons d dims ih =>
    by_cases hd : d.sizeInDset = 0
    · have hzero : copyData copy dstStride srcStride (d :: dims) dst src mem = .ok mem := by
        cases dims with
        | nil => rw [copyData, hd, rounds_zero]
        | cons d' dims =>
          rw [copyData, hd, rounds_zero]
      exact (Except.ok.inj (hzero.symm.trans h)).symm
    · have hrest : (∃ d ∈ dims, d.sizeInDset = 0) ∨
          ∀ dst src mem mem', copy dst src mem = .ok mem' → mem' = mem :=
        hnone.imp_left fun ⟨d', hd', hzero⟩ =>
          ⟨d', (mem_cons.mp hd').resolve_left fun heq => hd (heq ▸ hzero), hzero⟩
      cases dims with
      | nil =>
        rw [copyData] at h
        refine rounds_same (fun i mem mem' hcopy => ?_) h
        rcases hrest with ⟨d', hd', -⟩ | hcopies
        · cases hd'
        · exact hcopies _ _ _ _ hcopy
      | cons d' dims =>
        rw [copyData] at h
        exact rounds_same (fun i mem mem' hcopy => ih hrest hcopy) h

end

section

variable {s : Setting} {type : Datatype} {ds : List BoxDim} {size : UInt64} {data : Nat}
  {buff : List UInt8} {mem mem' : Mem}

theorem foldl_eq_zero {f g : BoxDim → UInt64} (h : ∀ d ∈ ds, f d = 0) :
    ds.foldl (fun offset d => f d + offset * g d) 0 = 0 := by
  induction ds with
  | nil => rfl
  | cons d ds ih =>
    obtain ⟨hd, hds⟩ := forall_mem_cons.mp h
    rw [foldl_cons, hd, UInt64.zero_mul, UInt64.zero_add]
    exact ih hds

theorem place_of_holds (htype : type.IsNumeric) (hsize : size.toNat = (getTypeSize type none).toNat)
    (h : ∀ d ∈ ds, d.Single) (hholds : ∀ d ∈ ds, d.Holds)
    (hplace : place s type size ds data buff mem = .ok mem') :
    size.toNat ≤ buff.length ∧
      mem' = mem.write data (decoded s type (buff.take size.toNat)) := by
  refine copyOut_element htype hsize ?_
  unfold place at hplace
  cases readBy ds with
  | whole hleading hwhole =>
    rw [hleading] at hplace
    dsimp only at hplace
    rwa [product_ldim_of_whole h hwhole, UInt64.mul_one] at hplace
  | @slowest d rest hleading hwhole =>
    obtain ⟨hd, hrest⟩ := forall_mem_cons.mp h
    have hdh := hholds d mem_cons_self
    rw [hleading] at hplace
    dsimp only at hplace
    rwa [drop_one, tail_cons, product_ldim_of_whole hrest hwhole,
      hd.sizeInDset_of_holds hdh, BoxDim.offsetInVar_of_holds hdh, UInt64.zero_mul,
      UInt64.zero_mul, UInt64.mul_one, UInt64.one_mul] at hplace
  | @several d d' partly rest hleading =>
    rw [hleading] at hplace
    dsimp only at hplace
    revert hplace
    generalize hds : d :: d' :: partly ++ rest = ds at h hholds
    intro hplace
    have hone : ∀ d ∈ ds, d.sizeInDset = 1 := fun d hd =>
      (h d hd).sizeInDset_of_holds (hholds d hd)
    -- one round for each dimension in front of the one of `hole_break`
    have hdims : ∀ c ∈ (ds.take (d' :: partly).length).map
        (fun d => (⟨d.sizeInDset, d.ldim, d.count⟩ : CopyDim)), c.sizeInDset = 1 :=
      forall_mem_map.mpr fun d hd => hone d (mem_of_mem_take hd)
    have hne : (ds.take (d' :: partly).length).map
        (fun d => (⟨d.sizeInDset, d.ldim, d.count⟩ : CopyDim)) ≠ [] := by
      rw [← hds]
      exact cons_ne_nil _ _
    have hdatasize : product ((ds.drop (d' :: partly).length).map (·.sizeInDset)) = 1 :=
      product_eq_one fun d hd => hone d (mem_of_mem_drop hd)
    rw [copyData_one hne hdims, foldl_eq_zero fun d hd => BoxDim.offsetInVar_of_holds (hholds d hd),
      @foldl_eq_zero ds (fun _ => 0) (·.ldim) fun _ _ => rfl, hdatasize, UInt64.zero_mul,
      UInt64.one_mul] at hplace
    exact hplace

theorem place_of_empty (h : ∀ d ∈ ds, d.Single) (hflag : ∀ d ∈ ds, d.flag = true)
    (hnot : ¬∀ d ∈ ds, d.Holds) (hplace : place s type size ds data buff mem = .ok mem') :
    mem' = mem := by
  obtain ⟨e, he, hempty⟩ : ∃ e ∈ ds, ¬e.Holds := by
    by_contra hall
    exact hnot fun e he => by_contra fun hempty => hall ⟨e, he, hempty⟩
  have hzero : e.sizeInDset = 0 := (h e he).sizeInDset_of_flag (hflag e he) hempty
  unfold place at hplace
  cases readBy ds with
  | whole hleading hwhole => exact absurd ((h e he).holds_of_whole (hwhole e he)) hempty
  | @slowest d rest hleading hwhole =>
    rw [hleading] at hplace
    dsimp only at hplace
    -- the dimensions that are read whole have the coordinate
    obtain rfl | he := mem_cons.mp he
    · rw [hzero, UInt64.zero_mul, UInt64.zero_mul] at hplace
      exact copyOut_zero hplace
    · exact absurd ((h e (mem_cons_of_mem d he)).holds_of_whole (hwhole e he)) hempty
  | @several d d' partly rest hleading =>
    rw [hleading] at hplace
    dsimp only at hplace
    refine copyData_same ?_ hplace
    rw [← take_append_drop (d' :: partly).length (d :: d' :: partly ++ rest), mem_append] at he
    rcases he with he | he
    · exact .inl ⟨_, mem_map_of_mem he, hzero⟩
    · refine .inr fun dst src mem mem' hcopy => ?_
      rw [product_eq_zero ⟨e, he, hzero⟩, UInt64.zero_mul] at hcopy
      exact copyOut_zero hcopy

end

/-! ## A block -/

def payload (s : Setting) (c : IndexCharacteristic) : List UInt8 :=
  if 0 < c.payloadOffset then
    match if s.hasSubfile = false then some s.file else s.subfile c.fileIndex with
    | some file => file.val.drop c.payloadOffset.toNat
    | none => []
  else
    match readEntry s c with
    | .ok rest => rest
    | .error _ => []

def element (s : Setting) (c : IndexCharacteristic) (size n : Nat) : List UInt8 :=
  ((payload s c).drop (n * size)).take size

section

variable {s : Setting} {c : IndexCharacteristic} {buff : List UInt8}

theorem mpiFileRead_ok {file : FileBytes} {offset size : UInt64}
    (h : mpiFileRead file offset size = .ok buff) :
    buff = (file.val.drop offset.toNat).take size.toNat := by
  unfold mpiFileRead at h
  split_ifs at h
  exact (Except.ok.inj h).symm

theorem slice_of_file {file : FileBytes} {sliceStart sliceSize : UInt64}
    (hpos : 0 < sliceSize.toNat) (hfits : sliceStart.toNat + sliceSize.toNat ≤
      (file.val.drop c.payloadOffset.toNat).length)
    (h : mpiFileRead file (c.payloadOffset + sliceStart) sliceSize = .ok buff) :
    buff = ((file.val.drop c.payloadOffset.toNat).drop sliceStart.toNat).take sliceSize.toNat := by
  have hfile := file.property
  rw [length_drop] at hfits
  have hsum : (c.payloadOffset + sliceStart).toNat =
      c.payloadOffset.toNat + sliceStart.toNat := by
    rw [UInt64.toNat_add]
    exact Nat.mod_eq_of_lt (by omega)
  rw [mpiFileRead_ok h, hsum, drop_drop]

theorem length_payload_lt (h : 0 < c.payloadOffset) :
    (payload s c).length < 9223372036854775808 := by
  have hdrop : ∀ file : FileBytes, (file.val.drop c.payloadOffset.toNat).length <
      9223372036854775808 := fun file => by
    have hfile := file.property
    rw [length_drop]
    omega
  unfold payload
  rw [if_pos h]
  split
  · exact hdrop _
  · decide

theorem readSlice_ok {sliceStart sliceSize : UInt64} (hpos : 0 < sliceSize.toNat)
    (hfits : 0 < c.payloadOffset →
      sliceStart.toNat + sliceSize.toNat ≤ (payload s c).length)
    (h : readSlice s c sliceStart sliceSize = .ok (.ok buff)) :
    buff = if 0 < c.payloadOffset then
      ((payload s c).drop sliceStart.toNat).take sliceSize.toNat else payload s c := by
  unfold readSlice at h
  unfold payload at hfits ⊢
  split_ifs at h ⊢ with hoffset hsubfile
  · rw [if_pos hoffset, if_pos hsubfile] at hfits
    obtain ⟨buff', hread, hbuff⟩ := exists_of_bind_eq_ok h
    obtain rfl := Except.ok.inj (Except.ok.inj hbuff)
    exact slice_of_file hpos (hfits hoffset) hread
  · rw [if_pos hoffset, if_neg hsubfile] at hfits
    cases hsfh : s.subfile c.fileIndex with
    | none =>
      rw [hsfh] at h
      cases Except.ok.inj h
    | some sfh =>
      rw [hsfh] at h hfits
      obtain ⟨buff', hread, hbuff⟩ := exists_of_bind_eq_ok h
      obtain rfl := Except.ok.inj (Except.ok.inj hbuff)
      exact slice_of_file hpos (hfits hoffset) hread
  · obtain ⟨buff', hread, hbuff⟩ := exists_of_bind_eq_ok h
    obtain rfl := Except.ok.inj (Except.ok.inj hbuff)
    rw [hread]

end

/-- The element that is copied: in a block without a `payload_offset` it is the first one. -/
def copiedPlace (c : IndexCharacteristic) (n : Nat) : Nat := if 0 < c.payloadOffset then n else 0

section

variable {s : Setting} {type : Datatype} {ds : List BoxDim} {size : UInt64}
  {c : IndexCharacteristic} {data : Nat} {mem mem' : Mem}

theorem boundError_none (h : ∀ d ∈ ds, d.Single) (j : Nat) : boundError j ds = none := by
  induction ds generalizing j with
  | nil => rfl
  | cons d ds ih =>
    obtain ⟨hd, hds⟩ := forall_mem_cons.mp h
    rw [boundError, if_neg (by rw [hd.outOfBound]; decide), ih hds]

theorem readBlock_ok (htype : type.IsNumeric) (hsize : size.toNat = (getTypeSize type none).toNat)
    (h : ∀ d ∈ ds, d.Single) (hstored : (∀ d ∈ ds, d.Holds) →
      elementPlace ds * size.toNat + size.toNat ≤ (payload s c).length)
    (hread : readBlock s type size ds c data mem = .ok (mem', none)) :
    mem' = if ∀ d ∈ ds, d.Holds then mem.write data
      (decoded s type (element s c size.toNat (copiedPlace c (elementPlace ds)))) else mem := by
  unfold readBlock at hread
  rw [boundError_none h] at hread
  dsimp only at hread
  split_ifs at hread with hflag
  · -- a flag is not set, so there is a coordinate that the block does not have
    have hnot : ¬∀ d ∈ ds, d.Holds := fun hholds => by
      rw [all_eq_false] at hflag
      obtain ⟨d, hd, hdflag⟩ := hflag
      exact hdflag ((h d hd).flag_of_holds (hholds d hd))
    rw [if_neg hnot]
    exact (congrArg Prod.fst (Except.ok.inj hread)).symm
  · rw [Bool.not_eq_false, all_eq_true] at hflag
    obtain ⟨r, hslice, hread⟩ := exists_of_bind_eq_ok hread
    obtain ⟨fetched, hfetched, hread⟩ := exists_of_bind_eq_ok hread
    cases fetched with
    | error e => cases congrArg Prod.snd (Except.ok.inj hread)
    | ok buff =>
      obtain ⟨mem'', hplace, hread⟩ := exists_of_bind_eq_ok hread
      obtain rfl : mem'' = mem' := congrArg Prod.fst (Except.ok.inj hread)
      by_cases hholds : ∀ d ∈ ds, d.Holds
      · have hstored := hstored hholds
        have hpos : 0 < size.toNat := hsize ▸ CopySubvolume.getTypeSize_pos htype
        obtain rfl := slice_of_holds h hholds hslice
        obtain ⟨-, hmem⟩ := place_of_holds htype hsize h hholds hplace
        have hstart : 0 < c.payloadOffset →
            (UInt64.ofNat (elementPlace ds) * size).toNat = elementPlace ds * size.toNat :=
          fun hoffset => by
            have hlt := @length_payload_lt s c hoffset
            rw [← UInt64.ofNat_toNat (x := size), ← UInt64.ofNat_mul, UInt64.ofNat_toNat]
            exact Nat.mod_eq_of_lt (by omega)
        have hbuff := readSlice_ok hpos (fun hoffset => by rwa [hstart hoffset]) hfetched
        rw [if_pos hholds, hmem, hbuff, element, copiedPlace]
        split_ifs with hoffset
        · rw [hstart hoffset, take_take, Nat.min_self]
        · rw [Nat.zero_mul, drop_zero]
      · rw [if_neg hholds]
        exact place_of_empty h hflag hholds hplace

end

end Adios.BoxRead
