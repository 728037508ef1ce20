import Adios.Read.PointBlocks

/-!
# Adios — what a read of points delivers

Points of a global array in some steps, read by `read_var` as boxes of one element. The box of a
point gets the place of one element in the memory, but it is read in all the steps, one element
behind the other: step `t` of point `k` goes to the place `k + t`, not to `t * n + k`.
-/

namespace Adios.BoxRead

open List Lists Wire

/-! ## The array -/

def blockBox (s : Setting) (ndim : Nat) (c : IndexCharacteristic) : List Grid.Span :=
  match bpGetDimensionGenericNotime c.dims s.fileIsFortran with
  | .ok a => (List.zipWith (fun offset ldim => ⟨offset.toNat, ldim.toNat⟩) a.offsets a.ldims).take
      ndim
  | .error _ => []

def arrayDims (s : Setting) (ndim : Nat) (c : IndexCharacteristic) : List Nat :=
  match bpGetDimensionGenericNotime c.dims s.fileIsFortran with
  | .ok a => (a.gdims.take ndim).map UInt64.toNat
  | .error _ => []

structure IsBlock (s : Setting) (ndim size : Nat) (c : IndexCharacteristic) : Prop where
  global : ∃ a, bpGetDimensionGenericNotime c.dims s.fileIsFortran = .ok a ∧ a.isGlobal = true
  inside : Grid.Inside (blockBox s ndim c) (arrayDims s ndim c)
  stored : Grid.volume (Grid.sizes (blockBox s ndim c)) * size ≤ (payload s c).length

def lastBlock (s : Setting) (ndim : Nat) (p : List Nat) (cs : List IndexCharacteristic) :
    Option IndexCharacteristic :=
  (cs.filter fun c => Grid.Contains (blockBox s ndim c) p).getLast?

structure PointRequest where
  setting : Setting
  var : IndexEntry
  steps : List (UInt32 × Nat)
  pts : Selections.Points
  fromSteps : Nat
  nsteps : Nat

namespace PointRequest

variable (r : PointRequest)

def size : Nat := (getTypeSize r.var.type none).toNat

/-- The time of a step that is read: a number among the steps of a file, and in a stream the time
itself counts from the first one in it. -/
def time (t : Nat) : Option UInt32 :=
  if r.setting.streaming then
    some (r.setting.fh.tidxStart + UInt32.ofNat (r.setting.currentStep + r.fromSteps + t))
  else (r.steps[r.setting.currentStep + r.fromSteps + t]?).map Prod.fst

def blocksOf (t : Nat) : List IndexCharacteristic :=
  r.var.characteristics.filter fun c => some c.timeIndex = r.time t

def point (k : Nat) : List UInt64 := (r.pts.points.drop (k * r.pts.ndim)).take r.pts.ndim

def coords (k : Nat) : List Nat :=
  (if r.setting.calledFromFortran then (r.point k).reverse else r.point k).map UInt64.toNat

def box (c : IndexCharacteristic) : List Grid.Span := blockBox r.setting r.pts.ndim c

def elementAt (c : IndexCharacteristic) (n : Nat) : List UInt8 :=
  decoded r.setting r.var.type (element r.setting c r.size n)

def value (t k : Nat) : List UInt8 :=
  match (r.blocksOf t).find? fun c => Grid.Contains (r.box c) (r.coords k) with
  | some c => r.elementAt c (Grid.place (r.box c) (r.coords k))
  | none => []

/-- `read_var`, from the start of the memory for the data. -/
def run (mem : Mem) : Except Fault Progress :=
  readVarPoints r.setting r.var r.pts r.fromSteps r.nsteps mem

end PointRequest

/-- A read of points in a global array that succeeds: the points lie in the array, and in every step
that is read a block has the point and all that have it agree on its value. -/
structure PointRead extends PointRequest where
  numeric : var.type.IsNumeric
  blocks : Blocks UInt32.toNat steps
  times : VarSteps.times var = expand steps
  nonzero : ∀ b ∈ steps, b.1 ≠ 0
  rank : 0 < pts.ndim
  room : pts.npoints * pts.ndim ≤ pts.points.length
  present : ∀ t < nsteps, ∃ τ ∈ VarSteps.times var, toPointRequest.time t = some τ
  isBlock : ∀ t < nsteps, ∀ c ∈ toPointRequest.blocksOf t,
    IsBlock setting pts.ndim toPointRequest.size c
  within : ∀ t < nsteps, ∀ c ∈ toPointRequest.blocksOf t, ∀ k < pts.npoints,
    Grid.Within (toPointRequest.coords k) (arrayDims setting pts.ndim c)
  covered : ∀ t < nsteps, ∀ k < pts.npoints, ∃ c ∈ toPointRequest.blocksOf t,
    Grid.Contains (toPointRequest.box c) (toPointRequest.coords k)
  agree : ∀ t < nsteps, ∀ k < pts.npoints, ∀ c ∈ toPointRequest.blocksOf t,
    Grid.Contains (toPointRequest.box c) (toPointRequest.coords k) →
      toPointRequest.elementAt c (Grid.place (toPointRequest.box c) (toPointRequest.coords k)) =
        toPointRequest.value t k
  succeeds : ∀ mem, ∃ p, toPointRequest.run mem = .ok p ∧ p.errors = []

namespace PointRead

variable (i : PointRead)

/-- The place `t * n + k` holds the value at point `k` in step `t`, and nothing behind the places is
written. -/
structure Delivered (mem mem' : Mem) : Prop where
  values : ∀ t < i.nsteps, ∀ k < i.pts.npoints,
    mem'.cell i.size (t * i.pts.npoints + k) = i.value t k
  behind : ∀ a, i.nsteps * i.pts.npoints * i.size ≤ a → mem' a = mem a

def Right : Prop :=
  ∀ mem p, i.run mem = .ok p → p.errors = [] → i.Delivered mem p.mem

/-- One point or one step at most; and a block without a `payload_offset` that is the last one to
have a point has its value in the first element too. -/
structure Clear : Prop where
  single : i.pts.npoints ≤ 1 ∨ i.nsteps ≤ 1
  first : ∀ t < i.nsteps, ∀ k < i.pts.npoints,
    ∀ c ∈ lastBlock i.setting i.pts.ndim (i.coords k) (i.blocksOf t), c.payloadOffset = 0 →
      i.elementAt c 0 = i.value t k

end PointRead

/-! ## The dimensions of a block -/

section

variable {s : Setting} {start : List UInt64} {a : DimArrays} {ds : List BoxDim}

theorem map_eq_take {f : BoxDim → UInt64} {n : Nat} {column : List UInt64}
    (h : Forall₂ (fun j d => column[j]? = some (f d)) (List.range n) ds) :
    ds.map f = column.take n := by
  obtain ⟨hlen, hget⟩ := forall₂_iff_get.mp h
  rw [length_range] at hlen
  apply ext_getElem?
  intro j
  rw [getElem?_map, getElem?_take]
  by_cases hj : j < n
  · have hcolumn := hget j (by rwa [length_range]) (by omega)
    rw [get_eq_getElem, getElem_range] at hcolumn
    rw [if_pos hj, hcolumn, getElem?_eq_getElem (by omega)]
    rfl
  · rw [if_neg hj, getElem?_eq_none (by omega)]
    rfl

structure Columns (p : List UInt64) (a : DimArrays) (ds : List BoxDim) : Prop where
  start : ds.map (·.start) = p
  count : ∀ d ∈ ds, d.count = 1
  gdim : ds.map (·.gdim) = a.gdims.take p.length
  ldim : ds.map (·.ldim) = a.ldims.take p.length
  offset : ds.map (·.offset) = a.offsets.take p.length

theorem columns_of_boxDims (hglobal : a.isGlobal = true)
    (h : boxDims start (List.replicate start.length 1) a = .ok ds) : Columns start a ds := by
  have hall := mapM_eq_ok_iff.mp h
  rw [hglobal] at hall
  have heach : Forall₂ (fun j d => start[j]? = some d.start ∧
      (List.replicate start.length (1 : UInt64))[j]? = some d.count ∧
      a.gdims[j]? = some d.gdim ∧ a.ldims[j]? = some d.ldim ∧ a.offsets[j]? = some d.offset)
      (List.range start.length) ds := hall.imp fun j d hd => by
    split at hd
    · rename_i hstart hcount hgdim hldim hoffset
      obtain rfl := Except.ok.inj hd
      exact ⟨hstart, hcount, hgdim, hldim, hoffset⟩
    · cases hd
  have hcount : ds.map (·.count) = List.replicate start.length 1 := by
    rw [map_eq_take (heach.imp fun _ _ h => h.2.1), take_replicate, Nat.min_self]
  refine ⟨?_, fun d hd => ?_, map_eq_take (heach.imp fun _ _ h => h.2.2.1),
    map_eq_take (heach.imp fun _ _ h => h.2.2.2.1), map_eq_take (heach.imp fun _ _ h => h.2.2.2.2)⟩
  · rw [map_eq_take (heach.imp fun _ _ h => h.1), take_length]
  · exact eq_of_mem_replicate (hcount ▸ mem_map_of_mem hd)

variable {c : IndexCharacteristic} {p : List UInt64}

theorem blockBox_eq (ha : bpGetDimensionGenericNotime c.dims s.fileIsFortran = .ok a)
    (h : Columns p a ds) :
    blockBox s p.length c = ds.map fun d => ⟨d.offset.toNat, d.ldim.toNat⟩ := by
  rw [blockBox, ha]
  dsimp only
  rw [take_zipWith, ← h.offset, ← h.ldim, zipWith_map, zipWith_self]

theorem arrayDims_eq (ha : bpGetDimensionGenericNotime c.dims s.fileIsFortran = .ok a)
    (h : Columns p a ds) : arrayDims s p.length c = ds.map (·.gdim.toNat) := by
  rw [arrayDims, ha]
  dsimp only
  rw [← h.gdim, map_map]
  rfl

theorem coords_eq (h : Columns p a ds) : p.map UInt64.toNat = ds.map (·.start.toNat) := by
  rw [← h.start, map_map]
  rfl

section

variable (ha : bpGetDimensionGenericNotime c.dims s.fileIsFortran = .ok a) (h : Columns p a ds)

include ha h

theorem single_of_within (hinside : Grid.Inside (blockBox s p.length c) (arrayDims s p.length c))
    (hwithin : Grid.Within (p.map UInt64.toNat) (arrayDims s p.length c)) :
    ∀ d ∈ ds, d.Single := by
  rw [blockBox_eq ha h, arrayDims_eq ha h, Grid.Inside, forall₂_map_left_iff,
    forall₂_map_right_iff, forall₂_same] at hinside
  rw [coords_eq h, arrayDims_eq ha h, Grid.Within, forall₂_map_left_iff,
    forall₂_map_right_iff, forall₂_same] at hwithin
  exact fun d hd => ⟨h.count d hd, hwithin d hd, hinside d hd⟩

theorem contains_iff_holds :
    Grid.Contains (blockBox s p.length c) (p.map UInt64.toNat) ↔ ∀ d ∈ ds, d.Holds := by
  rw [blockBox_eq ha h, coords_eq h, Grid.Contains, forall₂_map_left_iff,
    forall₂_map_right_iff, forall₂_same]
  rfl

theorem place_eq_elementPlace :
    Grid.place (blockBox s p.length c) (p.map UInt64.toNat) = elementPlace ds := by
  rw [blockBox_eq ha h, coords_eq h, Grid.place, Grid.sizes, Grid.localCoords, map_map,
    zipWith_map, zipWith_self]
  rfl

end

end

/-! ## The blocks of a step -/

def copied (s : Setting) (type : Datatype) (size ndim : Nat) (p : List Nat)
    (c : IndexCharacteristic) : List UInt8 :=
  decoded s type (element s c size (copiedPlace c (Grid.place (blockBox s ndim c) p)))

section

variable {s : Setting} {type : Datatype} {ndim size : Nat} {c : IndexCharacteristic} {p : List Nat}

theorem lastBlock_cons_of_contains (h : Grid.Contains (blockBox s ndim c) p)
    (cs : List IndexCharacteristic) :
    lastBlock s ndim p (c :: cs) = some ((lastBlock s ndim p cs).getD c) := by
  have hfilter : ((c :: cs).filter fun c => Grid.Contains (blockBox s ndim c) p) =
      c :: cs.filter fun c => Grid.Contains (blockBox s ndim c) p := by
    rw [filter_cons, if_pos (decide_eq_true h)]
  rw [lastBlock, hfilter, List.getLast?_cons]
  rfl

theorem lastBlock_cons_of_not (h : ¬Grid.Contains (blockBox s ndim c) p)
    (cs : List IndexCharacteristic) : lastBlock s ndim p (c :: cs) = lastBlock s ndim p cs := by
  have hfilter : ((c :: cs).filter fun c => Grid.Contains (blockBox s ndim c) p) =
      cs.filter fun c => Grid.Contains (blockBox s ndim c) p := by
    rw [filter_cons, if_neg fun hc => h (of_decide_eq_true hc)]
  rw [lastBlock, hfilter]
  rfl

theorem mem_of_lastBlock {cs : List IndexCharacteristic} (h : lastBlock s ndim p cs = some c) :
    c ∈ cs ∧ Grid.Contains (blockBox s ndim c) p := by
  obtain ⟨hmem, hc⟩ := mem_filter.mp (mem_of_getLast? h)
  exact ⟨hmem, of_decide_eq_true hc⟩

theorem exists_lastBlock {cs : List IndexCharacteristic} (hc : c ∈ cs)
    (hp : Grid.Contains (blockBox s ndim c) p) : ∃ c', lastBlock s ndim p cs = some c' := by
  have hmem : c ∈ cs.filter fun c => Grid.Contains (blockBox s ndim c) p :=
    mem_filter.mpr ⟨hc, decide_eq_true hp⟩
  exact ⟨_, List.getLast?_eq_some_getLast (ne_nil_of_mem hmem)⟩

theorem IsBlock.element_stored (h : IsBlock s ndim size c)
    (hp : Grid.Contains (blockBox s ndim c) p) :
    Grid.place (blockBox s ndim c) p * size + size ≤ (payload s c).length := by
  have hle := Nat.mul_le_mul_right size (Grid.place_lt hp)
  have hstored := h.stored
  rw [Nat.succ_mul] at hle
  omega

theorem length_copied (h : IsBlock s ndim size c) (hp : Grid.Contains (blockBox s ndim c) p) :
    (copied s type size ndim p c).length = size := by
  have hstored := h.element_stored hp
  have hplace : copiedPlace c (Grid.place (blockBox s ndim c) p) * size + size ≤
      (payload s c).length := by
    unfold copiedPlace
    split_ifs
    · exact hstored
    · omega
  rw [copied, length_decoded, element, length_take, length_drop]
  omega

end

section

variable {s : Setting} {type : Datatype} {size : UInt64} {p : List UInt64} {data : Nat}

theorem readBlocks_ok (htype : type.IsNumeric) (hsize : size.toNat = (getTypeSize type none).toNat)
    {cs : List IndexCharacteristic} {mem mem' : Mem}
    (hblocks : ∀ c ∈ cs, IsBlock s p.length size.toNat c ∧
      Grid.Within (p.map UInt64.toNat) (arrayDims s p.length c))
    (hread : readBlocks s type size p (List.replicate p.length 1) data cs mem =
      .ok (mem', none)) :
    mem' = match lastBlock s p.length (p.map UInt64.toNat) cs with
      | some c => mem.write data (copied s type size.toNat p.length (p.map UInt64.toNat) c)
      | none => mem := by
  induction cs generalizing mem with
  | nil => exact (congrArg Prod.fst (Except.ok.inj hread)).symm
  | cons c cs ih =>
    obtain ⟨⟨hblock, hwithin⟩, hcs⟩ := forall_mem_cons.mp hblocks
    obtain ⟨a, ha, hglobal⟩ := hblock.global
    rw [readBlocks, ha, ok_bind] at hread
    obtain ⟨ds, hds, hread⟩ := exists_of_bind_eq_ok hread
    obtain ⟨⟨mem₁, e⟩, hfirst, hread⟩ := exists_of_bind_eq_ok hread
    dsimp only at hread
    have hcolumns := columns_of_boxDims hglobal hds
    have hsingle := single_of_within ha hcolumns hblock.inside hwithin
    have hcontains := contains_iff_holds ha hcolumns
    have hplace := place_eq_elementPlace ha hcolumns
    cases e with
    | some e =>
      rw [if_pos (.inl rfl)] at hread
      cases congrArg Prod.snd (Except.ok.inj hread)
    | none =>
      rw [if_neg (by rw [hglobal]; decide)] at hread
      have hmem₁ := readBlock_ok htype hsize hsingle (fun hholds => by
        rw [← hplace]
        exact hblock.element_stored (hcontains.mpr hholds)) hfirst
      have hrest := ih hcs hread
      by_cases hc : Grid.Contains (blockBox s p.length c) (p.map UInt64.toNat)
      · have hwritten : mem₁ = mem.write data
            (copied s type size.toNat p.length (p.map UInt64.toNat) c) := by
          rw [hmem₁, if_pos (hcontains.mp hc), copied, hplace]
        rw [lastBlock_cons_of_contains hc, hrest]
        cases hlast : lastBlock s p.length (p.map UInt64.toNat) cs with
        | none => exact hwritten
        | some c' =>
          -- a later block that has the point writes to the same place
          obtain ⟨hmem, hc'⟩ := mem_of_lastBlock hlast
          show mem₁.write data _ = mem.write data _
          rw [hwritten, Mem.write_overwrite _ _
            ((length_copied hblock hc).trans (length_copied (hcs c' hmem).1 hc').symm)]
          rfl
      · rw [if_neg fun hholds => hc (hcontains.mpr hholds)] at hmem₁
        rw [lastBlock_cons_of_not hc, hrest, hmem₁]

end

/-! ## The steps of a point -/

theorem ofInt_cut32 (n : Int) : UInt32.ofInt (cut32 n) = UInt32.ofInt n := by
  have hmod : cut32 n % 4294967296 = n % 4294967296 := by
    unfold cut32
    omega
  show UInt32.ofNat (cut32 n % 4294967296).toNat = UInt32.ofNat (n % 4294967296).toNat
  rw [hmod]

theorem ofInt_toNat_add (a : UInt32) (n : Nat) :
    UInt32.ofInt ((a.toNat : Int) + n) = a + UInt32.ofNat n := by
  have hmod : (((a.toNat : Int) + n) % 4294967296).toNat = (a.toNat + n) % 4294967296 := by omega
  show UInt32.ofNat (((a.toNat : Int) + n) % 4294967296).toNat = _
  rw [hmod, ← UInt32.toNat_inj, UInt32.toNat_ofNat', UInt32.toNat_add, UInt32.toNat_ofNat']
  omega

namespace PointRead

variable (i : PointRead)

variable {t k : Nat}

theorem exists_step_of_time (ht : t < i.nsteps) :
    ∃ (k : Nat) (b : UInt32 × Nat), i.steps[k]? = some b ∧ i.time t = some b.1 := by
  obtain ⟨τ, hτ, htime⟩ := i.present t ht
  rw [i.times] at hτ
  obtain ⟨b, hb, rfl⟩ := mem_expand hτ
  obtain ⟨k, hk⟩ := getElem?_of_mem hb
  exact ⟨k, b, hk, htime⟩

theorem stepBlocks_ok (ht : t < i.nsteps) {r : Option (List IndexCharacteristic)}
    (h : stepBlocks i.setting i.var ((i.setting.currentStep + i.fromSteps + t : Nat) : Int) = .ok r)
    : r = some (i.blocksOf t) := by
  unfold stepBlocks at h
  obtain ⟨time, htime, h⟩ := exists_of_bind_eq_ok h
  obtain ⟨k, b, hk, hb⟩ := i.exists_step_of_time ht
  -- the time that is looked for
  have hsame : UInt32.ofInt time = b.1 := by
    unfold stepTime at htime
    unfold PointRequest.time at hb
    split_ifs at htime hb with hstreaming
    · rw [← Except.ok.inj htime, ofInt_cut32, ofInt_toNat_add]
      exact Option.some.inj hb
    · obtain ⟨b', hb', hfst⟩ := Option.map_eq_some_iff.mp hb
      have hhead : ∀ b ∈ i.steps.head?, b.1 ≠ 0 := fun b hb =>
        i.nonzero b (mem_of_mem_head? hb)
      rw [VarSteps.getTime, i.times] at htime
      have hloop := @VarSteps.getTimeLoop_expand_of_ok _ i.blocks 0 0 hhead 0 _ b' hb' time (by
        rwa [Int.zero_add])
      rw [hloop, ofInt_cut32, VarSteps.ofInt_toNat, hfst]
  obtain ⟨τ, n⟩ := b
  have hpositive : 0 < n := i.blocks.positive _ (mem_of_getElem? hk)
  have hsucc : total (i.steps.take (k + 1)) = total (i.steps.take k) + n := total_take_succ hk
  obtain ⟨hfirst, hlast⟩ := VarSteps.range_of_getElem? i.blocks i.times hk
  have hstart : VarSteps.getVarStartIndex i.var time = total (i.steps.take k) := by
    rw [← hfirst, VarSteps.getVarStartIndex, VarSteps.getVarStartIndex, hsame, VarSteps.ofInt_toNat]
  have hstop : VarSteps.getVarStopIndex i.var time + 1 = total (i.steps.take (k + 1)) := by
    rw [← hlast, VarSteps.getVarStopIndex, VarSteps.getVarStopIndex, hsame, VarSteps.ofInt_toNat]
  have hcount : (VarSteps.getVarStopIndex i.var time - VarSteps.getVarStartIndex i.var time +
      1).toNat = n := by omega
  have hfilter : i.blocksOf t = i.var.characteristics.filter (·.timeIndex = τ) := by
    unfold PointRequest.blocksOf
    rw [hb]
    exact filter_congr fun c _ => decide_eq_decide.mpr Option.some_inj
  dsimp only at h
  rw [if_neg (by omega), hcount, hstart] at h
  rw [← Except.ok.inj h, hfilter, filter_eq_take_drop i.blocks i.times hk]
  rfl

def written (t k : Nat) : List UInt8 :=
  match lastBlock i.setting i.pts.ndim (i.coords k) (i.blocksOf t) with
  | some c => copied i.setting i.var.type i.size i.pts.ndim (i.coords k) c
  | none => []

theorem exists_lastBlock_of_lt (ht : t < i.nsteps) (hk : k < i.pts.npoints) :
    ∃ c ∈ i.blocksOf t, Grid.Contains (i.box c) (i.coords k) ∧
      lastBlock i.setting i.pts.ndim (i.coords k) (i.blocksOf t) = some c := by
  obtain ⟨c, hc, hp⟩ := i.covered t ht k hk
  obtain ⟨c', hlast⟩ := exists_lastBlock hc hp
  obtain ⟨hmem, hp'⟩ := mem_of_lastBlock hlast
  exact ⟨c', hmem, hp', hlast⟩

theorem length_written (ht : t < i.nsteps) (hk : k < i.pts.npoints) :
    (i.written t k).length = i.size := by
  obtain ⟨c, hc, hp, hlast⟩ := i.exists_lastBlock_of_lt ht hk
  rw [written, hlast]
  exact length_copied (i.isBlock t ht c hc) hp

theorem product_replicate_one (n : Nat) : product (List.replicate n 1) = 1 := by
  induction n with
  | zero => rfl
  | succ n ih =>
    rw [replicate_succ]
    show 1 * product (List.replicate n 1) = 1
    rw [ih]
    rfl

theorem readArrays_ok {k : Nat} (hk : k < i.pts.npoints) {start : List UInt64}
    (hcoords : start.map UInt64.toNat = i.coords k) (hlen : start.length = i.pts.ndim)
    {size : UInt64} (hsize : size.toNat = i.size) {ts : List Nat} (hts : ∀ t ∈ ts, t < i.nsteps)
    {p q : Progress} {m : Nat} {more : Bool} (hdata : p.data = m * i.size)
    (h : readArrays i.setting i.var size start (List.replicate start.length 1)
      (ts.map fun t => ((i.setting.currentStep + i.fromSteps + t : Nat) : Int)) p = .ok (more, q))
    (herrors : q.errors = []) :
    p.errors = [] ∧ q.mem = p.mem.writeCells i.size
      ((List.range' m ts.length).zip (ts.map fun t => i.written t k)) := by
  induction ts generalizing p m with
  | nil =>
    obtain rfl := congrArg Prod.snd (Except.ok.inj h)
    exact ⟨herrors, rfl⟩
  | cons t ts ih =>
    obtain ⟨ht, hts⟩ := forall_mem_cons.mp hts
    rw [map_cons, readArrays] at h
    obtain ⟨found, hfound, h⟩ := exists_of_bind_eq_ok h
    obtain rfl := i.stepBlocks_ok ht hfound
    obtain ⟨⟨mem, e⟩, hread, h⟩ := exists_of_bind_eq_ok h
    cases e with
    | some e =>
      obtain rfl := congrArg Prod.snd (Except.ok.inj h)
      exact absurd herrors (append_ne_nil_of_right_ne_nil _ (cons_ne_nil _ _))
    | none =>
      dsimp only at h
      rw [product_replicate_one, UInt64.one_mul, hsize] at h
      obtain ⟨hnone, hrest⟩ := @ih hts { p with mem, data := p.data + i.size } (m + 1) (by
        show p.data + i.size = (m + 1) * i.size
        rw [hdata, Nat.succ_mul]) h
      have hmem := readBlocks_ok i.numeric hsize (fun c hc => by
        rw [hsize, hlen, hcoords]
        exact ⟨i.isBlock t ht c hc, i.within t ht c hc k hk⟩) hread
      obtain ⟨c, hc, hp, hlast⟩ := i.exists_lastBlock_of_lt ht hk
      have hwritten : i.written t k =
          copied i.setting i.var.type i.size i.pts.ndim (i.coords k) c := by
        rw [written, hlast]
      rw [hlen, hcoords, hlast, hsize, hdata] at hmem
      dsimp only at hmem
      rw [← hwritten] at hmem
      refine ⟨hnone, ?_⟩
      rw [hrest, length_cons, range'_succ, map_cons, zip_cons_cons, Mem.writeCells]
      exact congrArg (fun mem : Mem => mem.writeCells i.size _) hmem

/-! ## The points -/

theorem toNat_sizeOfType {size : UInt64} (h : sizeOfType i.var = .ok size) :
    size.toNat = i.size := by
  unfold sizeOfType at h
  split at h
  · cases h
  · unfold typeSize at h
    rw [if_neg i.numeric.2, CopySubvolume.bpGetTypeSize_eq i.numeric] at h
    exact congrArg UInt64.toNat (Except.ok.inj h).symm

theorem length_point (hk : k < i.pts.npoints) : (i.point k).length = i.pts.ndim := by
  have hroom := i.room
  have hle := Nat.mul_le_mul_right i.pts.ndim hk
  rw [Nat.succ_mul] at hle
  rw [PointRequest.point, length_take, length_drop]
  omega

def pointWrites (k : Nat) : List (Nat × List UInt8) :=
  (List.range' k i.nsteps).zip ((List.range i.nsteps).map fun t => i.written t k)

theorem readVarBb_ok (hk : k < i.pts.npoints) {p q : Progress} {more : Bool}
    (hdata : p.data = k * i.size) (h : readVarBb i.setting i.var (i.point k) (List.replicate
      (i.point k).length 1) i.fromSteps i.nsteps p = .ok (more, q)) (herrors : q.errors = []) :
    p.errors = [] ∧ q.mem = p.mem.writeCells i.size (i.pointWrites k) := by
  have hlen := i.length_point hk
  have hrank := i.rank
  have hts : ∀ t ∈ List.range i.nsteps, t < i.nsteps := fun t ht => mem_range.mp ht
  obtain ⟨dims, -, h⟩ := exists_of_bind_eq_ok h
  by_cases hassert : dims.ndim ≠ (i.point k).length
  · rw [if_pos hassert] at h
    cases h
  rw [if_neg hassert] at h
  obtain ⟨size, hsize, h⟩ := exists_of_bind_eq_ok h
  have hcoords : i.coords k = (if i.setting.calledFromFortran then (i.point k).reverse
    else i.point k).map UInt64.toNat := rfl
  rw [if_neg (by omega)] at h
  have hwrites := @readArrays_ok i k hk
  split_ifs at h hcoords with hfortran
  · rw [swapOrder_eq, swapOrder_eq, reverse_replicate, ← length_reverse] at h
    have hpoint := hwrites hcoords.symm (by rw [length_reverse, hlen])
      (i.toNat_sizeOfType hsize) hts hdata h herrors
    rwa [length_range] at hpoint
  · have hpoint := hwrites hcoords.symm hlen (i.toNat_sizeOfType hsize) hts hdata h herrors
    rwa [length_range] at hpoint

theorem readPoints_ok {size : UInt64} (hsize : size.toNat = i.size) {n : Nat}
    (hn : k + n ≤ i.pts.npoints) {p q : Progress} (hdata : p.data = k * i.size) (h : readPoints
      i.setting i.var size i.fromSteps i.nsteps ((List.range' k n).map i.point) p = .ok q)
    (herrors : q.errors = []) :
    p.errors = [] ∧ q.mem = p.mem.writeCells i.size ((List.range' k n).flatMap i.pointWrites) := by
  induction n generalizing k p with
  | zero =>
    obtain rfl := Except.ok.inj h
    exact ⟨herrors, rfl⟩
  | succ n ih =>
    rw [range'_succ, map_cons, readPoints] at h
    obtain ⟨⟨more, p'⟩, hread, h⟩ := exists_of_bind_eq_ok h
    dsimp only at h
    rw [hsize] at h
    obtain ⟨hnone, hrest⟩ := @ih (k + 1) (by omega) { p' with data := p.data + i.size } (by
      show p.data + i.size = (k + 1) * i.size
      rw [hdata, Nat.succ_mul]) h
    obtain ⟨hnone', hfirst⟩ := i.readVarBb_ok (by omega) hdata hread hnone
    refine ⟨hnone', ?_⟩
    rw [hrest, range'_succ, flatMap_cons, Mem.writeCells_append]
    exact congrArg (fun mem : Mem => mem.writeCells i.size _) hfirst

theorem chunks_eq_map (ndim n : Nat) (words : List UInt64) : Selections.chunks ndim n words =
    (List.range n).map fun k => (words.drop (k * ndim)).take ndim := by
  induction n generalizing words with
  | zero => rfl
  | succ n ih =>
    rw [Selections.chunks, ih, range_succ_eq_map, map_cons, map_map, Nat.zero_mul, drop_zero]
    congr 1
    apply map_congr_left
    intro k _
    show _ = (words.drop ((k + 1) * ndim)).take ndim
    rw [drop_drop, Nat.succ_mul, Nat.add_comm]

def writes : List (Nat × List UInt8) := (List.range i.pts.npoints).flatMap i.pointWrites

theorem run_ok {mem : Mem} {p : Progress} (h : i.run mem = .ok p) (herrors : p.errors = []) :
    p.mem = mem.writeCells i.size i.writes := by
  obtain ⟨size, hsize, h⟩ := exists_of_bind_eq_ok h
  rw [chunks_eq_map, range_eq_range'] at h
  obtain ⟨-, hmem⟩ := i.readPoints_ok (i.toNat_sizeOfType hsize) (by omega) (Nat.zero_mul _).symm h
    herrors
  rw [hmem, writes, range_eq_range']

theorem mem_writes_iff {w : Nat × List UInt8} :
    w ∈ i.writes ↔ ∃ k < i.pts.npoints, ∃ t < i.nsteps, w = (k + t, i.written t k) := by
  have hpoint : ∀ k, i.pointWrites k =
      (List.range i.nsteps).map fun t => (k + t, i.written t k) := fun k => by
    rw [pointWrites, range'_eq_map_range, zip_map']
  constructor
  · intro hw
    obtain ⟨k, hk, hw⟩ := mem_flatMap.mp hw
    rw [hpoint] at hw
    obtain ⟨t, ht, rfl⟩ := mem_map.mp hw
    exact ⟨k, mem_range.mp hk, t, mem_range.mp ht, rfl⟩
  · rintro ⟨k, hk, t, ht, rfl⟩
    refine mem_flatMap.mpr ⟨k, mem_range.mpr hk, ?_⟩
    rw [hpoint]
    exact mem_map_of_mem (mem_range.mpr ht)

/-! ## What is delivered -/

theorem keys_writes : i.writes.map Prod.fst =
    (List.range i.pts.npoints).flatMap fun k => List.range' k i.nsteps := by
  rw [writes, map_flatMap]
  congr 1
  funext k
  rw [pointWrites, map_fst_zip]
  rw [length_map, length_range, length_range']

theorem keys_nodup (h : i.pts.npoints ≤ 1 ∨ i.nsteps ≤ 1) : (i.writes.map Prod.fst).Nodup := by
  rw [keys_writes]
  rcases h with hpoints | hsteps
  · obtain hnone | hone : i.pts.npoints = 0 ∨ i.pts.npoints = 1 := by omega
    · rw [hnone]
      exact nodup_nil
    · rw [hone, range_one, flatMap_singleton]
      exact nodup_range'
  · obtain hnone | hone : i.nsteps = 0 ∨ i.nsteps = 1 := by omega
    · have hnil : ((List.range i.pts.npoints).flatMap fun k => List.range' k 0) = [] :=
        flatMap_eq_nil_iff.mpr fun k _ => rfl
      rw [hnone, hnil]
      exact nodup_nil
    · have hsingle : (fun k => List.range' k 1) = fun k => [k] := rfl
      rw [hone, hsingle, flatMap_singleton']
      exact nodup_range

theorem length_of_mem_writes : ∀ w ∈ i.writes, w.2.length = i.size := fun w hw => by
  obtain ⟨k, hk, t, ht, rfl⟩ := i.mem_writes_iff.mp hw
  exact i.length_written ht hk

theorem writes_lt : ∀ w ∈ i.writes, w.1 < i.nsteps * i.pts.npoints := fun w hw => by
  obtain ⟨k, hk, t, ht, rfl⟩ := i.mem_writes_iff.mp hw
  have hle := @Grid.add_le_mul_add_one i.nsteps i.pts.npoints (by omega) (by omega)
  show k + t < _
  omega

theorem cell_of_single (h : i.pts.npoints ≤ 1 ∨ i.nsteps ≤ 1) (ht : t < i.nsteps)
    (hk : k < i.pts.npoints) (mem : Mem) :
    (mem.writeCells i.size i.writes).cell i.size (t * i.pts.npoints + k) = i.written t k := by
  have hplace : t * i.pts.npoints + k = k + t := by
    rcases h with hpoints | hsteps
    · obtain ⟨hone, rfl⟩ : i.pts.npoints = 1 ∧ k = 0 := by omega
      rw [hone, Nat.mul_one, Nat.add_comm]
    · obtain rfl : t = 0 := by omega
      rw [Nat.zero_mul, Nat.add_comm]
  rw [hplace]
  exact @Mem.cell_writeCells_of_nodup mem i.size i.writes i.length_of_mem_writes (i.keys_nodup h)
    (k + t, i.written t k) (i.mem_writes_iff.mpr ⟨k, hk, t, ht, rfl⟩)

theorem written_eq_value_iff (ht : t < i.nsteps) (hk : k < i.pts.npoints) :
    i.written t k = i.value t k ↔
      ∀ c ∈ lastBlock i.setting i.pts.ndim (i.coords k) (i.blocksOf t), c.payloadOffset = 0 →
        i.elementAt c 0 = i.value t k := by
  obtain ⟨c, hc, hp, hlast⟩ := i.exists_lastBlock_of_lt ht hk
  have hwritten : i.written t k =
      i.elementAt c (copiedPlace c (Grid.place (i.box c) (i.coords k))) := by
    rw [written, hlast]
    rfl
  rw [hwritten, hlast]
  by_cases hoffset : 0 < c.payloadOffset
  · rw [copiedPlace, if_pos hoffset]
    refine iff_of_true (i.agree t ht k hk c hc hp) fun c' hc' hzero => ?_
    obtain rfl := Option.some.inj hc'
    rw [hzero] at hoffset
    exact absurd hoffset (UInt64.lt_irrefl 0)
  · have hzero : c.payloadOffset = 0 := by
      rw [UInt64.lt_iff_toNat_lt] at hoffset
      exact UInt64.toNat_inj.mp (Nat.eq_zero_of_not_pos hoffset)
    rw [copiedPlace, if_neg hoffset]
    constructor
    · intro h c' hc' _
      obtain rfl := Option.some.inj hc'
      exact h
    · intro h
      exact h c rfl hzero

theorem last_notMem (hpoints : 2 ≤ i.pts.npoints) (hsteps : 2 ≤ i.nsteps) :
    (i.nsteps - 1) * i.pts.npoints + (i.pts.npoints - 1) ∉ i.writes.map Prod.fst := by
  intro hmem
  obtain ⟨w, hw, hkey⟩ := mem_map.mp hmem
  obtain ⟨k, hk, t, ht, rfl⟩ := i.mem_writes_iff.mp hw
  have hle : (i.nsteps - 1) * 2 ≤ (i.nsteps - 1) * i.pts.npoints := Nat.mul_le_mul_left _ hpoints
  dsimp only at hkey
  omega

/-- The points have their values in all the steps exactly if there is one point or one step, and the
blocks without a `payload_offset` have the value of a point in their first element. -/
theorem points_right_iff (i : PointRead) : i.Right ↔ i.Clear := by
  constructor
  · intro h
    have hsingle : i.pts.npoints ≤ 1 ∨ i.nsteps ≤ 1 := by
      by_contra hmany
      obtain ⟨hpoints, hsteps⟩ := not_or.mp hmany
      -- memory of one byte, which is not that of the last value
      obtain ⟨b, hb⟩ : ∃ b : UInt8,
          List.replicate i.size b ≠ i.value (i.nsteps - 1) (i.pts.npoints - 1) := by
        by_contra hall
        have hzero := by_contra fun h => hall ⟨0, h⟩
        have hone := by_contra fun h => hall ⟨1, h⟩
        have hsize : i.size ≠ 0 := Nat.ne_of_gt (CopySubvolume.getTypeSize_pos i.numeric)
        have hmem : (0 : UInt8) ∈ List.replicate i.size 0 := mem_replicate.mpr ⟨hsize, rfl⟩
        rw [hzero.trans hone.symm] at hmem
        exact absurd (eq_of_mem_replicate hmem) (by decide)
      obtain ⟨p, hrun, herrors⟩ := i.succeeds (.fill b)
      have hvalue := (h _ p hrun herrors).values (i.nsteps - 1) (by omega) (i.pts.npoints - 1)
        (by omega)
      rw [i.run_ok hrun herrors, Mem.cell_writeCells_of_notMem i.length_of_mem_writes
        (i.last_notMem (by omega) (by omega)), Mem.cell_fill] at hvalue
      exact hb hvalue
    refine ⟨hsingle, fun t ht k hk => (i.written_eq_value_iff ht hk).mp ?_⟩
    obtain ⟨p, hrun, herrors⟩ := i.succeeds (.fill 0)
    rw [← (h _ p hrun herrors).values t ht k hk, i.run_ok hrun herrors,
      i.cell_of_single hsingle ht hk]
  · rintro ⟨hsingle, hfirst⟩ mem p hrun herrors
    rw [i.run_ok hrun herrors]
    refine ⟨fun t ht k hk => ?_, fun a ha => ?_⟩
    · rw [i.cell_of_single hsingle ht hk]
      exact (i.written_eq_value_iff ht hk).mpr (hfirst t ht k hk)
    · exact Mem.writeCells_apply_of_le i.length_of_mem_writes i.writes_lt ha

end PointRead

def twoBytes (τ : UInt32) (payloadOffset : UInt64) : IndexCharacteristic :=
  { IndexCharacteristic.zero with dims := ⟨1, [2, 2, 0]⟩, timeIndex := τ, payloadOffset }

def bothTwice : PointRequest where
  setting := {
    env := { host := .little, changeEndianness := false, junk := 0 }
    fh := { version := 3, pgsCount := 2, tidxStart := 1, tidxStop := 2 }
    fileIsFortran := false
    hasSubfile := false
    calledFromFortran := false
    streaming := false
    currentStep := 0
    file := ⟨[0, 10, 20, 30, 40], by decide⟩
    subfile := fun _ => none
    varHeader := .zero }
  var := { id := 0, groupName := CString.empty, name := CString.empty, path := CString.empty,
           type := .byte, characteristics := [twoBytes 1 1, twoBytes 2 3] }
  steps := [(1, 1), (2, 1)]
  pts := { ndim := 1, npoints := 2, points := [0, 1] }
  fromSteps := 0
  nsteps := 2

theorem succeeds_bothTwice (mem : Mem) : ∃ p, bothTwice.run mem = .ok p ∧ p.errors = [] :=
  ⟨_, rfl, rfl⟩

theorem arrayDims_twoBytes (τ : UInt32) (payloadOffset : UInt64) :
    arrayDims bothTwice.setting 1 (twoBytes τ payloadOffset) = [2] := rfl

theorem mem_bothTwice {c : IndexCharacteristic} (hc : c ∈ bothTwice.var.characteristics) :
    c = twoBytes 1 1 ∨ c = twoBytes 2 3 :=
  (mem_cons.mp hc).imp_right mem_singleton.mp

theorem isBlock_bothTwice {c : IndexCharacteristic} (hc : c ∈ bothTwice.var.characteristics) :
    IsBlock bothTwice.setting 1 1 c := by
  obtain rfl | rfl := mem_bothTwice hc
  · exact ⟨⟨_, rfl, rfl⟩, .cons (by decide) .nil, by decide +kernel⟩
  · exact ⟨⟨_, rfl, rfl⟩, .cons (by decide) .nil, by decide +kernel⟩

theorem within_bothTwice {c : IndexCharacteristic} (hc : c ∈ bothTwice.var.characteristics)
    {k : Nat} (hk : k < 2) :
    Grid.Within (bothTwice.coords k) (arrayDims bothTwice.setting 1 c) := by
  have hdims : arrayDims bothTwice.setting 1 c = [2] := by
    obtain rfl | rfl := mem_bothTwice hc <;> exact arrayDims_twoBytes _ _
  have hcoords : bothTwice.coords k = [k] := by
    obtain rfl | rfl : k = 0 ∨ k = 1 := by omega
    · decide
    · decide
  rw [hdims, hcoords]
  exact .cons hk .nil

def bothTwiceRead : PointRead where
  toPointRequest := bothTwice
  numeric := by decide
  blocks := ⟨by decide, by decide⟩
  times := rfl
  nonzero := by decide
  rank := by decide
  room := by decide
  present := by decide +kernel
  isBlock := fun _ _ _ hc => isBlock_bothTwice (mem_of_mem_filter hc)
  within := fun _ _ _ hc _ hk => within_bothTwice (mem_of_mem_filter hc) hk
  covered := by decide +kernel
  agree := by decide +kernel
  succeeds := succeeds_bothTwice

/-- The second step of the first point is overwritten by the second point. -/
theorem not_right_bothTwice : ¬bothTwiceRead.Right := by
  intro h
  have hvalue := (h (.fill 0) _ rfl rfl).values 1 (by decide) 0 (by decide)
  exact absurd hvalue (by decide +kernel)

end Adios.BoxRead
