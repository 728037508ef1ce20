import Adios.Core.CopySubvolume

/-!
# Core — what a copy of a subvolume leaves in the destination
-/

namespace Adios.CopySubvolume

open List Grid UInt64

/-! ## The statement -/

def element (mem : Memory) (size n : Nat) : List UInt8 := read mem (n * size) size

def byteSwapped (type : Datatype) (e : List UInt8) : List UInt8 :=
  if type = .complex ∨ type = .doubleComplex then
    (e.take (e.length / 2)).reverse ++ (e.drop (e.length / 2)).reverse
  else e.reverse

namespace Call

variable (c : Call)

def size : Nat := (getTypeSize c.datumType none).toNat

def moved (e : List UInt8) : List UInt8 :=
  if c.swapEndianness = .yes then byteSwapped c.datumType e else e

end Call

def dims (dim : Axis → UInt64) (axes : List Axis) : List Nat := (axes.map dim).map UInt64.toNat

def subvolume (axes : List Axis) : List Nat := dims Axis.subv axes

def place (dim offset : Axis → UInt64) (axes : List Axis) (p : List Nat) : Nat :=
  linear (dims dim axes) (List.zipWith (· + ·) (dims offset axes) p)

/-- The subvolume is in the volume, and each of its elements behind the ragged start and in a buffer
of some bytes. -/
structure Fits (axes : List Axis) (dim offset : Axis → UInt64) (raggedOffset bytes : UInt64)
    (size : Nat) : Prop where
  inside : ∀ a ∈ axes, (offset a).toNat + a.subv.toNat ≤ (dim a).toNat
  behind : ∀ p, Within p (subvolume axes) → raggedOffset.toNat ≤ place dim offset axes p
  room : ∀ p, Within p (subvolume axes) →
    (place dim offset axes p + 1 - raggedOffset.toNat) * size ≤ bytes.toNat

/-- A call of `copy_subvolume_ragged_offset`. -/
structure Copy where
  call : Call
  axes : List Axis
  dstRaggedOffset : UInt64
  srcRaggedOffset : UInt64
  dst : Memory
  dstBytes : UInt64
  srcBytes : UInt64
  /-- "Assumes non-string type" -/
  numeric : call.datumType.IsNumeric
  ne : axes ≠ []
  dstFits : Fits axes Axis.dst Axis.dstOffset dstRaggedOffset dstBytes call.size
  srcFits : Fits axes Axis.src Axis.srcOffset srcRaggedOffset srcBytes call.size

namespace Copy

variable (s : Copy)

def dstPlace (p : List Nat) : Nat :=
  place Axis.dst Axis.dstOffset s.axes p - s.dstRaggedOffset.toNat

def srcPlace (p : List Nat) : Nat :=
  place Axis.src Axis.srcOffset s.axes p - s.srcRaggedOffset.toNat

structure IsCopy (out : Memory) : Prop where
  elements : ∀ p, Within p (subvolume s.axes) → element out s.call.size (s.dstPlace p) =
    s.call.moved (element s.call.src s.call.size (s.srcPlace p))
  frame : ∀ a : Int, (∀ p, Within p (subvolume s.axes) →
    a < (s.dstPlace p * s.call.size : Nat) ∨ ((s.dstPlace p + 1) * s.call.size : Nat) ≤ a) →
    out a = s.dst a

def run (dim : Nat) : Except Fault (Memory × List UInt64) :=
  copyCollapsed s.call s.axes s.dstRaggedOffset s.srcRaggedOffset s.dst dim

/-- The elements come to the destination, nothing else changes there, the dimensions of the caller
are what they were, and it makes no difference how many of the contiguous dimensions are
collapsed. -/
def Copied : Prop :=
  ∃ out, copySubvolumeRaggedOffset s.call s.axes s.dstRaggedOffset s.srcRaggedOffset s.dst =
      .ok (out, s.axes.map Axis.subv) ∧ s.IsCopy out ∧
    ∀ dim, lastNoncoveringDim s.axes ≤ dim → dim < s.axes.length →
      ∀ r, s.run dim = .ok r → r = (out, s.axes.map Axis.subv)

end Copy

/-- An `int` counts the rounds of each loop that is reached. -/
def IntLoops : List UInt64 → Prop
  | [] => True
  | d :: dims => d.toNat < 2147483648 ∧ (d ≠ 0 → IntLoops dims)

/-! ## Bytes of elements -/

@[simp] theorem length_read (mem : Memory) (addr n : Nat) : (read mem addr n).length = n := by
  rw [read, length_map, length_range]

@[simp] theorem length_element (mem : Memory) (size n : Nat) : (element mem size n).length = size :=
  length_read _ _ _

variable {mem : Memory} {n : Nat} {type : Datatype} {axes : List Axis}

theorem getElem?_read {addr k : Nat} (h : k < n) :
    (read mem addr n)[k]? = some (mem (addr + k : Nat)) := by
  rw [read, getElem?_map, getElem?_range h]
  rfl

theorem take_drop_read (mem : Memory) (addr : Nat) {k size : Nat} (h : k * size + size ≤ n) :
    ((read mem addr n).drop (k * size)).take size = read mem (addr + k * size) size := by
  apply ext_getElem?
  intro j
  by_cases hj : j < size
  · rw [getElem?_take_of_lt hj, getElem?_drop, getElem?_read (by omega), getElem?_read hj,
      Nat.add_assoc]
  · rw [getElem?_eq_none (by rw [length_take]; omega),
      getElem?_eq_none (by rw [length_read]; omega)]

theorem getTypeSize_pos (h : type.IsNumeric) :
    0 < (getTypeSize type none).toNat := by
  have hmem := getTypeSize_mem h none
  simp only [mem_cons, not_mem_nil, or_false] at hmem
  omega

theorem bpGetTypeSize_eq (h : type.IsNumeric) :
    bpGetTypeSize type = getTypeSize type none := if_neg h.2

theorem swapElement_eq (host : Wire.Endian) (h : type.IsNumeric) {e : List UInt8}
    (hlen : e.length = (getTypeSize type none).toNat) :
    swapElement host type e = byteSwapped type e := by
  cases type with
  | byte | unsignedByte =>
    obtain ⟨b, rfl⟩ := length_eq_one_iff.mp hlen
    rfl
  | short | unsignedShort => exact swap16Ptr_eq_reverse host hlen
  | integer | unsignedInteger | real => exact swap32Ptr_eq_reverse host hlen
  | long | unsignedLong | double => exact swap64Ptr_eq_reverse host hlen
  | longDouble => exact swap128Ptr_eq_reverse host hlen
  | string => exact absurd rfl h.2
  | complex =>
    have hlen : e.length = 8 := hlen
    unfold swapElement byteSwapped
    rw [@if_pos (_ ∨ _) _ (.inl rfl), hlen]
    dsimp only
    rw [swap32Ptr_eq_reverse host (by rw [length_take, hlen]; rfl),
      swap32Ptr_eq_reverse host (by rw [length_drop, hlen])]
  | doubleComplex =>
    have hlen : e.length = 16 := hlen
    unfold swapElement byteSwapped
    rw [@if_pos (_ ∨ _) _ (.inr rfl), hlen]
    dsimp only
    rw [swap64Ptr_eq_reverse host (by rw [length_take, hlen]; rfl),
      swap64Ptr_eq_reverse host (by rw [length_drop, hlen])]
  | unknown => exact absurd h.1 id
  | other code => exact absurd h.1 id

theorem length_byteSwapped (type : Datatype) (e : List UInt8) :
    (byteSwapped type e).length = e.length := by
  unfold byteSwapped
  split_ifs
  · rw [length_append, length_reverse, length_reverse, ← length_append, take_append_drop]
  · exact length_reverse

theorem getElem?_eachElement {f : List UInt8 → List UInt8} {size : Nat}
    (hf : ∀ e : List UInt8, e.length = size → (f e).length = size) {q j : Nat} (hj : j < size)
    (hq : q < n) {data : List UInt8} (hlen : data.length = n * size) :
    (eachElement f size n data)[q * size + j]? = (f ((data.drop (q * size)).take size))[j]? := by
  induction n generalizing q data with
  | zero => exact absurd hq (Nat.not_lt_zero q)
  | succ n ih =>
    rw [Nat.succ_mul] at hlen
    have hfirst : (f (data.take size)).length = size := hf _ (by rw [length_take]; omega)
    rw [eachElement]
    cases q with
    | zero =>
      rw [Nat.zero_mul, Nat.zero_add, drop_zero, getElem?_append_left (by rw [hfirst]; exact hj)]
    | succ q =>
      have hsub : (q + 1) * size + j - size = q * size + j := by
        rw [Nat.succ_mul]
        omega
      rw [getElem?_append_right (by rw [hfirst, Nat.succ_mul]; omega), hfirst, hsub,
        ih (Nat.lt_of_succ_lt_succ hq) (by rw [length_drop]; omega), drop_drop,
        Nat.succ_mul, Nat.add_comm size]

theorem length_eachElement {f : List UInt8 → List UInt8} {size : Nat}
    (hf : ∀ e : List UInt8, e.length = size → (f e).length = size) {data : List UInt8}
    (hlen : data.length = n * size) :
    (eachElement f size n data).length = data.length := by
  induction n generalizing data with
  | zero => rw [eachElement]
  | succ n ih =>
    rw [Nat.succ_mul] at hlen
    rw [eachElement, length_append, hf _ (by rw [length_take]; omega),
      ih (by rw [length_drop]; omega), length_drop]
    omega

theorem length_moved (c : Call) (e : List UInt8) : (c.moved e).length = e.length := by
  unfold Call.moved
  split_ifs
  · exact length_byteSwapped _ e
  · rfl

theorem cells_block {c : Call} (h : c.datumType.IsNumeric) {dst src n : UInt64} {y count : Nat}
    (hsrc : src.toNat = y * c.size) (hn : n.toNat = count * c.size) :
    (c.block dst src n).cells.length = count * c.size ∧
      ∀ q < count, ∀ j < c.size, (c.block dst src n).cells[q * c.size + j]? =
        (c.moved (element c.src c.size (y + q)))[j]? := by
  have hdata : (read c.src src.toNat n.toNat).length = count * c.size := by rw [length_read, hn]
  have helement : ∀ q < count, ((read c.src src.toNat n.toNat).drop (q * c.size)).take c.size =
      element c.src c.size (y + q) := fun q hq => by
    have hle : (q + 1) * c.size ≤ count * c.size := Nat.mul_le_mul_right _ hq
    rw [Nat.succ_mul] at hle
    rw [take_drop_read _ _ (by rw [hn]; exact hle), hsrc, ← Nat.add_mul]
    rfl
  unfold Call.block Call.moved
  dsimp only
  by_cases hswap : c.swapEndianness = .yes
  · have hsize : (bpGetTypeSize c.datumType).toNat = c.size := by
      rw [bpGetTypeSize_eq h]
      rfl
    have hcount : count * c.size / c.size = count := Nat.mul_div_cancel _ (getTypeSize_pos h)
    have hf : ∀ e : List UInt8, e.length = c.size →
        (swapElement c.host c.datumType e).length = c.size := fun e he => by
      rw [swapElement_eq c.host h he, length_byteSwapped, he]
    rw [if_pos hswap, changeEndianness, hsize, hdata, hcount]
    refine ⟨(length_eachElement hf hdata).trans hdata, fun q hq j hj => ?_⟩
    have hlen : (element c.src c.size (y + q)).length = (getTypeSize c.datumType none).toNat :=
      length_read _ _ _
    rw [getElem?_eachElement hf hj hq hdata, helement q hq, if_pos hswap,
      swapElement_eq c.host h hlen]
  · rw [if_neg hswap]
    refine ⟨hdata, fun q hq j hj => ?_⟩
    rw [if_neg hswap, ← helement q hq, getElem?_take_of_lt hj, getElem?_drop]

/-- "`memcpy`" of no bytes. -/
theorem cells_block_zero (c : Call) (dst src : UInt64) : (c.block dst src 0).cells = [] := by
  unfold Call.block changeEndianness
  have hzero : ∀ size : Nat, 0 / size = 0 := Nat.zero_div
  have hread : read c.src src.toNat (UInt64.toNat 0) = [] := rfl
  dsimp only
  rw [hread, length_nil, hzero, eachElement, ite_self]

/-! ## Distances -/

def pointer (typeSize : UInt64) (raggedOffset : UInt64) (n : Nat) : UInt64 :=
  UInt64.ofNat n * typeSize - raggedOffset * typeSize

theorem pointer_add (typeSize raggedOffset : UInt64) (n k : Nat) :
    pointer typeSize raggedOffset n + UInt64.ofNat k * typeSize =
      pointer typeSize raggedOffset (n + k) := by
  unfold pointer
  rw [ofNat_add, UInt64.add_mul, UInt64.sub_eq_add_neg, UInt64.sub_eq_add_neg,
    UInt64.add_assoc, UInt64.add_comm (-_), UInt64.add_assoc]

theorem toNat_pointer {typeSize raggedOffset : UInt64} (hle : raggedOffset.toNat ≤ n)
    (hlt : (n - raggedOffset.toNat) * typeSize.toNat < 18446744073709551616) :
    (pointer typeSize raggedOffset n).toNat = (n - raggedOffset.toNat) * typeSize.toNat := by
  have hsub : pointer typeSize raggedOffset n =
      UInt64.ofNat ((n - raggedOffset.toNat) * typeSize.toNat) := by
    rw [Nat.sub_mul, ofNat_sub (Nat.mul_le_mul_right _ hle), UInt64.ofNat_mul,
      UInt64.ofNat_mul, UInt64.ofNat_toNat, UInt64.ofNat_toNat]
    rfl
  rw [hsub]
  exact toNat_ofNat_of_lt' hlt

theorem stridesLoop_snd (typeSize : UInt64) (dims : List UInt64) :
    (stridesLoop typeSize dims).2 = UInt64.ofNat (volume (dims.map UInt64.toNat)) * typeSize := by
  induction dims with
  | nil => exact (UInt64.one_mul _).symm
  | cons d dims ih =>
    show (stridesLoop typeSize dims).2 * d = _
    rw [ih, map_cons, volume_cons, UInt64.ofNat_mul, UInt64.ofNat_toNat, UInt64.mul_comm, UInt64.mul_assoc]

theorem foldl_add_eq (xs : List UInt64) (x : UInt64) :
    xs.foldl (· + ·) x = x + xs.foldl (· + ·) 0 := by
  induction xs generalizing x with
  | nil => exact (UInt64.add_zero _).symm
  | cons y xs ih => rw [foldl_cons, foldl_cons, ih, ih (0 + y), UInt64.zero_add, UInt64.add_assoc]

theorem startingOffset_eq (typeSize : UInt64) {offsets dims : List UInt64}
    (hlen : offsets.length = dims.length) :
    startingOffset offsets (stridesLoop typeSize dims).1 =
      UInt64.ofNat (linear (dims.map UInt64.toNat) (offsets.map UInt64.toNat)) * typeSize := by
  induction dims generalizing offsets with
  | nil =>
    rw [eq_nil_of_length_eq_zero hlen]
    exact (UInt64.zero_mul).symm
  | cons d dims ih =>
    match offsets, hlen with
    | x :: offsets, hlen =>
      have hrest := ih (Nat.succ.inj hlen)
      unfold startingOffset at hrest ⊢
      rw [stridesLoop, zipWith_cons_cons, foldl_cons, foldl_add_eq, hrest,
        stridesLoop_snd, UInt64.zero_add, map_cons, map_cons, linear, ofNat_add,
        UInt64.ofNat_mul, UInt64.ofNat_toNat, UInt64.add_mul, UInt64.mul_assoc]

theorem foldl_mul_eq (dims : List UInt64) (x : UInt64) :
    dims.foldl (· * ·) x = x * UInt64.ofNat (volume (dims.map UInt64.toNat)) := by
  induction dims generalizing x with
  | nil => exact (UInt64.mul_one _).symm
  | cons d dims ih =>
    rw [foldl_cons, ih, map_cons, volume_cons, UInt64.ofNat_mul, UInt64.ofNat_toNat, UInt64.mul_assoc]

/-! ## The blocks -/

@[simp] theorem length_dims (dim : Axis → UInt64) (axes : List Axis) :
    (dims dim axes).length = axes.length := by
  rw [dims, length_map, length_map]

theorem dims_append (dim : Axis → UInt64) (outer rest : List Axis) :
    dims dim (outer ++ rest) = dims dim outer ++ dims dim rest := by
  rw [dims, map_append, map_append]
  rfl

theorem length_of_within {p : List Nat} (h : Within p (subvolume axes)) :
    p.length = axes.length := h.length_eq.trans (length_dims _ _)

/-- Where the blocks start that the loops over the first dimensions go through, from an element of
the destination and one of the source on. -/
def blocks (rest : List Axis) : List Axis → Nat → Nat → List (Nat × Nat)
  | [], x, y => [(x, y)]
  | a :: outer, x, y => (List.range a.subv.toNat).flatMap fun i =>
    blocks rest outer (x + i * volume (dims Axis.dst (outer ++ rest)))
      (y + i * volume (dims Axis.src (outer ++ rest)))

section

variable {typeSize dstRagged srcRagged : UInt64}

theorem helperLoop_eq {body : UInt64 → UInt64 → Memory → Except Fault Memory}
    {step : Memory → Nat × Nat → Memory} {bs : Nat → Nat → List (Nat × Nat)}
    (hbody : ∀ x y mem, body (pointer typeSize dstRagged x) (pointer typeSize srcRagged y) mem =
      .ok ((bs x y).foldl step mem)) {k l i left : Nat} (hint : i + left < 2147483648)
    (x y : Nat) (mem : Memory) :
    helperLoop body (UInt64.ofNat k * typeSize) (UInt64.ofNat l * typeSize) i left
        (pointer typeSize dstRagged x) (pointer typeSize srcRagged y) mem =
      .ok (((List.range left).flatMap fun j => bs (x + j * k) (y + j * l)).foldl step mem) := by
  induction left generalizing i x y mem with
  | zero => rfl
  | succ left ih =>
    have hne : i ≠ 2147483647 := by omega
    have hnext : (List.range left).flatMap (fun j => bs (x + k + j * k) (y + l + j * l)) =
        ((List.range left).map Nat.succ).flatMap fun j => bs (x + j * k) (y + j * l) := by
      rw [flatMap_map]
      congr 1
      funext j
      rw [Nat.succ_mul, Nat.succ_mul, Nat.add_assoc, Nat.add_assoc, Nat.add_comm k, Nat.add_comm l]
    rw [helperLoop, hbody, ok_bind, if_neg hne, pointer_add, pointer_add, ih (by omega), hnext,
      range_succ_eq_map, flatMap_cons, foldl_append, Nat.zero_mul, Nat.zero_mul,
      Nat.add_zero, Nat.add_zero]

theorem copySubvolumeHelperBy_eq (block : UInt64 → UInt64 → UInt64 → Memory → Memory)
    {outer rest : List Axis} (hloops : IntLoops (outer.map Axis.subv)) (n : UInt64)
    (tail : List UInt64) (x y : Nat) (mem : Memory) :
    copySubvolumeHelperBy block outer.length (outer.map Axis.subv ++ n :: tail)
        (stridesLoop typeSize ((outer ++ rest).map Axis.dst)).1
        (stridesLoop typeSize ((outer ++ rest).map Axis.src)).1
        (pointer typeSize dstRagged x) (pointer typeSize srcRagged y) mem =
      .ok ((blocks rest outer x y).foldl (fun mem b =>
        block (pointer typeSize dstRagged b.1) (pointer typeSize srcRagged b.2) n mem) mem) := by
  induction outer generalizing x y mem with
  | nil => rfl
  | cons a outer ih =>
    obtain ⟨hlt, hloops⟩ := hloops
    show helperLoop (copySubvolumeHelperBy block outer.length (outer.map Axis.subv ++ n :: tail)
        (stridesLoop typeSize ((outer ++ rest).map Axis.dst)).1
        (stridesLoop typeSize ((outer ++ rest).map Axis.src)).1)
      (stridesLoop typeSize ((outer ++ rest).map Axis.dst)).2
      (stridesLoop typeSize ((outer ++ rest).map Axis.src)).2 0 a.subv.toNat _ _ mem = _
    by_cases hzero : a.subv = 0
    · -- no round, and nothing is said about the loops within
      rw [blocks, hzero]
      rfl
    · rw [stridesLoop_snd, stridesLoop_snd, helperLoop_eq (fun x y mem => ih (hloops hzero) x y mem)
        (by omega), blocks]
      rfl

theorem copyCollapsedBy_eq (block : UInt64 → UInt64 → UInt64 → Memory → Memory)
    {datumType : Datatype} {axes outer inner : List Axis} {a : Axis}
    (h : axes = outer ++ a :: inner) (hroom : axes.length ≤ strideRoom)
    (hloops : IntLoops (outer.map Axis.subv)) (dst : Memory) :
    copyCollapsedBy block datumType axes dstRagged srcRagged dst outer.length =
      .ok ((blocks (a :: inner) outer (linear (dims Axis.dst axes) (dims Axis.dstOffset axes))
          (linear (dims Axis.src axes) (dims Axis.srcOffset axes))).foldl (fun mem b =>
            block (pointer (getTypeSize datumType none) dstRagged b.1)
              (pointer (getTypeSize datumType none) srcRagged b.2)
              (UInt64.ofNat (volume (subvolume (a :: inner))) * getTypeSize datumType none) mem) dst,
        axes.map Axis.subv) := by
  have hdrop : (axes.map Axis.subv).drop outer.length = (a :: inner).map Axis.subv := by
    rw [h, map_append, drop_left' (length_map _)]
  have hset : ∀ n : UInt64, (axes.map Axis.subv).set outer.length n =
      outer.map Axis.subv ++ n :: inner.map Axis.subv := fun n => by
    rw [h, map_append, map_cons, set_append_right _ _ (by rw [length_map]),
      length_map, Nat.sub_self, set_cons_zero]
  have hold : (axes.map Axis.subv).getD outer.length 0 = a.subv := by
    rw [getD_eq_getElem?_getD, h, map_append, getElem?_append_right
      (by rw [length_map]), length_map, Nat.sub_self]
    rfl
  have hvolume : (((axes.map Axis.subv).drop outer.length).foldl (· * ·) 1 : UInt64) =
      UInt64.ofNat (volume (subvolume (a :: inner))) := by
    rw [hdrop, foldl_mul_eq, UInt64.one_mul]
    rfl
  have hstart : ∀ (dim offset : Axis → UInt64) (ragged : UInt64),
      startingOffset (axes.map offset)
          (stridesLoop (getTypeSize datumType none) (axes.map dim)).1 -
        ragged * getTypeSize datumType none =
      pointer (getTypeSize datumType none) ragged
        (linear (dims dim axes) (dims offset axes)) := fun dim offset ragged => by
    rw [startingOffset_eq _ (by rw [length_map, length_map])]
    rfl
  have hhelper := fun n => @copySubvolumeHelperBy_eq (getTypeSize datumType none)
    dstRagged srcRagged block outer (a :: inner) hloops n (inner.map Axis.subv)
    (linear (dims Axis.dst axes) (dims Axis.dstOffset axes))
    (linear (dims Axis.src axes) (dims Axis.srcOffset axes)) dst
  rw [← h] at hhelper
  unfold copyCollapsedBy
  dsimp only
  rw [if_neg (Nat.not_lt.mpr hroom), hstart, hstart, hvolume, hold, hset, hhelper]
  show Except.ok (_, List.set _ _ _) = _
  rw [← hset, set_set, hset, h, map_append, map_cons]

end

theorem volume_dims_append (dim : Axis → UInt64) (outer rest : List Axis) :
    volume (dims dim (outer ++ rest)) = volume (dims dim outer) * volume (dims dim rest) := by
  rw [dims_append, volume_append]

theorem mem_blocks {rest outer : List Axis} {x y : Nat} {b : Nat × Nat} :
    b ∈ blocks rest outer x y ↔ ∃ q, Within q (subvolume outer) ∧
      b.1 = x + linear (dims Axis.dst outer) q * volume (dims Axis.dst rest) ∧
      b.2 = y + linear (dims Axis.src outer) q * volume (dims Axis.src rest) := by
  induction outer generalizing x y with
  | nil =>
    rw [blocks, mem_singleton]
    constructor
    · intro h
      subst h
      exact ⟨[], .nil, by show x = x + 0 * _; omega, by show y = y + 0 * _; omega⟩
    · intro h
      obtain ⟨q, -, hx, hy⟩ := h
      have hx : b.1 = x + 0 * _ := hx
      have hy : b.2 = y + 0 * _ := hy
      exact Prod.ext (by show b.1 = x; omega) (by show b.2 = y; omega)
  | cons a outer ih =>
    have hlinear : ∀ (dim : Axis → UInt64) (z i : Nat) (q : List Nat),
        z + i * volume (dims dim (outer ++ rest)) +
            linear (dims dim outer) q * volume (dims dim rest) =
          z + linear (dims dim (a :: outer)) (i :: q) * volume (dims dim rest) :=
            fun dim z i q => by
      show _ = z +
        (i * volume (dims dim outer) + linear (dims dim outer) q) * volume (dims dim rest)
      rw [volume_dims_append, Nat.add_mul, Nat.mul_assoc, Nat.add_assoc]
    rw [blocks, mem_flatMap]
    constructor
    · intro h
      obtain ⟨i, hi, hb⟩ := h
      obtain ⟨q, hq, hx, hy⟩ := ih.mp hb
      exact ⟨i :: q, .cons (mem_range.mp hi) hq, hx.trans (hlinear _ x i q),
        hy.trans (hlinear _ y i q)⟩
    · intro h
      obtain ⟨q, hq, hx, hy⟩ := h
      cases hq with
      | @cons i _ q _ hi hq =>
        exact ⟨i, mem_range.mpr hi, ih.mpr ⟨q, hq, hx.trans (hlinear _ x i q).symm,
          hy.trans (hlinear _ y i q).symm⟩⟩

theorem le_lastNoncoveringLoop (i last : Nat) (axes : List Axis) (h : last ≤ i) :
    last ≤ lastNoncoveringLoop i last axes := by
  induction axes generalizing i last with
  | nil => exact Nat.le_refl _
  | cons a axes ih =>
    rw [lastNoncoveringLoop]
    by_cases ha : a.Covering
    · rw [if_pos ha]
      exact ih (i + 1) last (Nat.le_succ_of_le h)
    · rw [if_neg ha]
      exact Nat.le_trans h (ih (i + 1) i (Nat.le_succ i))

theorem lastNoncoveringLoop_lt (i last : Nat) (axes : List Axis) (h : last < i + axes.length) :
    lastNoncoveringLoop i last axes < i + axes.length := by
  induction axes generalizing i last with
  | nil => exact h
  | cons a axes ih =>
    rw [length_cons] at h ⊢
    rw [lastNoncoveringLoop]
    have hrest := fun l hl => ih (i + 1) l hl
    split_ifs
    · have hlt := hrest last (by omega)
      omega
    · cases axes with
      | nil => exact Nat.lt_succ_self i
      | cons b axes =>
        rw [length_cons] at h hrest ⊢
        have hlt := hrest i (by omega)
        omega

theorem covering_of_lt_lastNoncoveringLoop {i last j : Nat} {a : Axis} (ha : axes[j]? = some a)
    (h : lastNoncoveringLoop i last axes < i + j) (hlast : last ≤ i) :
    a.Covering := by
  induction axes generalizing i last j with
  | nil => cases ha
  | cons b axes ih =>
    rw [lastNoncoveringLoop] at h
    cases j with
    | zero =>
      obtain rfl : b = a := Option.some.inj ha
      by_contra hnot
      rw [if_neg hnot] at h
      have hle := le_lastNoncoveringLoop (i + 1) i axes (Nat.le_succ i)
      omega
    | succ j =>
      refine ih ha (Nat.lt_of_lt_of_eq h (by omega)) ?_
      show (if b.Covering then last else i) ≤ i + 1
      split_ifs <;> omega

/-! ## Elements of the first and of the contiguous dimensions -/

section

variable {dim offset : Axis → UInt64} {outer inner : List Axis} {a : Axis} {q r : List Nat}

theorem linear_rest (hcov : ∀ b ∈ inner, dim b = b.subv) (hr : Within r (subvolume (a :: inner))) :
    linear (dims dim (a :: inner)) r = linear (subvolume (a :: inner)) r := by
  have hinner : dims dim inner = subvolume inner :=
    congrArg (List.map UInt64.toNat) (map_congr_left hcov)
  cases hr with
  | @cons i _ r _ hi hr =>
    show i * volume (dims dim inner) + linear (dims dim inner) r =
      i * volume (subvolume inner) + linear (subvolume inner) r
    rw [hinner]

theorem place_eq {axes : List Axis} (dim offset : Axis → UInt64) (hlen : q.length = axes.length) :
    place dim offset axes q =
      linear (dims dim axes) (dims offset axes) + linear (dims dim axes) q := by
  refine linear_zipWith_add ?_ ?_
  · rw [length_dims, length_dims]
  · rw [hlen, length_dims]

theorem place_append (hcov : ∀ b ∈ inner, dim b = b.subv) (hq : Within q (subvolume outer))
    (hr : Within r (subvolume (a :: inner))) :
    place dim offset (outer ++ a :: inner) (q ++ r) =
      linear (dims dim (outer ++ a :: inner)) (dims offset (outer ++ a :: inner)) +
        linear (dims dim outer) q * volume (dims dim (a :: inner)) +
        linear (subvolume (a :: inner)) r := by
  have hlen : (q ++ r).length = (outer ++ a :: inner).length := by
    rw [length_append, length_of_within hq, length_of_within hr, length_append]
  have happend : linear (dims dim (outer ++ a :: inner)) (q ++ r) =
      linear (dims dim outer) q * volume (dims dim (a :: inner)) +
        linear (dims dim (a :: inner)) r := by
    rw [dims_append, linear_append ((length_of_within hq).trans (length_dims _ _).symm)]
  rw [place_eq _ _ hlen, happend, linear_rest hcov hr, Nat.add_assoc]

variable {raggedOffset bytes : UInt64} {size : Nat}

theorem Fits.block (h : Fits (outer ++ a :: inner) dim offset raggedOffset bytes size)
    (hcov : ∀ b ∈ inner, dim b = b.subv) (hq : Within q (subvolume outer))
    (hpos : 0 < volume (subvolume (a :: inner))) {x : Nat}
    (hx : x = linear (dims dim (outer ++ a :: inner)) (dims offset (outer ++ a :: inner)) +
      linear (dims dim outer) q * volume (dims dim (a :: inner))) :
    raggedOffset.toNat ≤ x ∧
      (x + volume (subvolume (a :: inner)) - raggedOffset.toNat) * size ≤ bytes.toNat := by
  have hwhole : ∀ r, Within r (subvolume (a :: inner)) →
      Within (q ++ r) (subvolume (outer ++ a :: inner)) := fun r hr => by
    have happend := within_append hq hr
    rwa [subvolume, subvolume, ← dims_append] at happend
  have hfirst := within_coords hpos
  have hlast := within_coords (Nat.sub_lt hpos Nat.one_pos)
  have hbehind := h.behind _ (hwhole _ hfirst)
  have hroom := h.room _ (hwhole _ hlast)
  rw [place_append hcov hq hfirst, linear_coords hpos, Nat.add_zero, ← hx] at hbehind
  rw [place_append hcov hq hlast, linear_coords (Nat.sub_lt hpos Nat.one_pos), ← hx] at hroom
  have hend : x + (volume (subvolume (a :: inner)) - 1) + 1 =
      x + volume (subvolume (a :: inner)) := by omega
  rw [hend] at hroom
  exact ⟨hbehind, hroom⟩

theorem Fits.at_block {typeSize : UInt64}
    (h : Fits (outer ++ a :: inner) dim offset raggedOffset bytes typeSize.toNat)
    (hcov : ∀ b ∈ inner, dim b = b.subv) (hq : Within q (subvolume outer))
    (hpos : 0 < volume (subvolume (a :: inner))) {x : Nat}
    (hx : x = linear (dims dim (outer ++ a :: inner)) (dims offset (outer ++ a :: inner)) +
      linear (dims dim outer) q * volume (dims dim (a :: inner))) :
    (pointer typeSize raggedOffset x).toNat = (x - raggedOffset.toNat) * typeSize.toNat ∧
      (UInt64.ofNat (volume (subvolume (a :: inner))) * typeSize).toNat =
        volume (subvolume (a :: inner)) * typeSize.toNat ∧
      ∀ r, Within r (subvolume (a :: inner)) →
        place dim offset (outer ++ a :: inner) (q ++ r) - raggedOffset.toNat =
          x - raggedOffset.toNat + linear (subvolume (a :: inner)) r := by
  obtain ⟨hle, hroom⟩ := h.block hcov hq hpos hx
  have hbytes := bytes.toNat_lt
  have hsplit : (x + volume (subvolume (a :: inner)) - raggedOffset.toNat) * typeSize.toNat =
      (x - raggedOffset.toNat) * typeSize.toNat +
        volume (subvolume (a :: inner)) * typeSize.toNat := by
    rw [← Nat.add_mul, Nat.sub_add_comm hle]
  refine ⟨toNat_pointer hle (by omega), ?_, fun r hr => ?_⟩
  · have hmul : UInt64.ofNat (volume (subvolume (a :: inner))) * typeSize =
        UInt64.ofNat (volume (subvolume (a :: inner)) * typeSize.toNat) := by
      rw [UInt64.ofNat_mul, UInt64.ofNat_toNat]
    rw [hmul]
    exact toNat_ofNat_of_lt' (show _ < 18446744073709551616 by omega)
  · rw [place_append hcov hq hr, ← hx]
    omega

theorem within_offset {axes : List Axis} {p : List Nat}
    (h : ∀ a ∈ axes, (offset a).toNat + a.subv.toNat ≤ (dim a).toNat)
    (hp : Within p (subvolume axes)) :
    Within (List.zipWith (· + ·) (dims offset axes) p) (dims dim axes) := by
  induction axes generalizing p with
  | nil => exact .nil
  | cons a axes ih =>
    cases hp with
    | @cons i _ p _ hi hp =>
      refine .cons ?_ (ih (fun b hb => h b (mem_cons_of_mem _ hb)) hp)
      have hle := h a mem_cons_self
      show (offset a).toNat + i < (dim a).toNat
      omega

theorem Fits.place_injective {axes : List Axis} (h : Fits axes dim offset raggedOffset bytes size)
    {p p' : List Nat} (hp : Within p (subvolume axes)) (hp' : Within p' (subvolume axes))
    (heq : place dim offset axes p = place dim offset axes p') : p = p' := by
  have hinside := h.inside
  have hzip := linear_injective (within_offset hinside hp) (within_offset hinside hp') heq
  clear heq h hinside
  induction axes generalizing p p' with
  | nil =>
    cases hp
    cases hp'
    rfl
  | cons a axes ih =>
    cases hp with
    | @cons i _ p _ hi hp =>
      cases hp' with
      | @cons i' _ p' _ hi' hp' =>
        obtain ⟨hhead, htail⟩ := List.cons.inj hzip
        rw [Nat.add_left_cancel hhead, ih hp hp' htail]

end

/-! ## The copy -/

namespace Copy

variable {s : Copy}

def blockWrite (s : Copy) (rest : List Axis) (b : Nat × Nat) : Heap.Write UInt8 :=
  s.call.block (pointer (getTypeSize s.call.datumType none) s.dstRaggedOffset b.1)
    (pointer (getTypeSize s.call.datumType none) s.srcRaggedOffset b.2)
    (UInt64.ofNat (volume (subvolume rest)) * getTypeSize s.call.datumType none)

def writes (s : Copy) (outer rest : List Axis) : List (Heap.Write UInt8) :=
  (blocks rest outer (linear (dims Axis.dst s.axes) (dims Axis.dstOffset s.axes))
    (linear (dims Axis.src s.axes) (dims Axis.srcOffset s.axes))).map (s.blockWrite rest)

def Stored (s : Copy) (addr : Int) (v : UInt8) : Prop :=
  ∃ p, Within p (subvolume s.axes) ∧ ∃ j < s.call.size,
    addr = (s.dstPlace p * s.call.size + j : Nat) ∧
      (s.call.moved (element s.call.src s.call.size (s.srcPlace p)))[j]? = some v

section

variable {outer inner : List Axis} {a : Axis}

theorem cellAt_block_empty {rest : List Axis} (hzero : volume (subvolume rest) = 0) (b : Nat × Nat)
    (addr : Int) (v : UInt8) : (s.blockWrite rest b).cellAt addr ≠ some v := by
  intro hcell
  have hbytes : UInt64.ofNat 0 * getTypeSize s.call.datumType none = 0 := UInt64.zero_mul
  obtain ⟨hlo, hhi⟩ := Heap.Write.lt_of_cellAt hcell
  unfold blockWrite at hlo hhi
  rw [hzero, hbytes] at hlo hhi
  rw [cells_block_zero, length_nil] at hhi
  omega

variable {addr : Int} {v : UInt8}

theorem cellAt_block (h : s.axes = outer ++ a :: inner) (hcov : ∀ b ∈ inner, b.Covering)
    {q : List Nat} (hq : Within q (subvolume outer)) {b : Nat × Nat} (hx : b.1 = linear (dims
      Axis.dst s.axes) (dims Axis.dstOffset s.axes) + linear (dims Axis.dst outer) q * volume (dims
      Axis.dst (a :: inner))) (hy : b.2 = linear (dims Axis.src s.axes) (dims Axis.srcOffset s.axes)
      + linear (dims Axis.src outer) q * volume (dims Axis.src (a :: inner))) :
    (s.blockWrite (a :: inner) b).cellAt addr = some v ↔
      ∃ r, Within r (subvolume (a :: inner)) ∧ ∃ j < s.call.size,
        addr = (s.dstPlace (q ++ r) * s.call.size + j : Nat) ∧
        (s.call.moved (element s.call.src s.call.size (s.srcPlace (q ++ r))))[j]? = some v := by
  by_cases hpos : 0 < volume (subvolume (a :: inner))
  · -- where the block is in the two buffers
    have hdst := s.dstFits
    have hsrc := s.srcFits
    rw [h] at hdst hsrc hx hy
    obtain ⟨hdstAddr, -, hdstPlace⟩ :=
      hdst.at_block (fun b hb => ((hcov b hb).2.2.2).symm) hq hpos hx
    obtain ⟨hsrcAddr, hbytes, hsrcPlace⟩ :=
      hsrc.at_block (fun b hb => ((hcov b hb).2.2.1).symm) hq hpos hy
    rw [← h] at hdstPlace hsrcPlace
    unfold blockWrite
    generalize UInt64.ofNat (volume (subvolume (a :: inner))) *
      getTypeSize s.call.datumType none = n at hbytes ⊢
    generalize pointer _ s.dstRaggedOffset b.1 = dstPtr at hdstAddr ⊢
    generalize pointer _ s.srcRaggedOffset b.2 = srcPtr at hsrcAddr ⊢
    obtain ⟨hlen, hcells⟩ := @cells_block s.call s.numeric dstPtr _ _ _ _ hsrcAddr hbytes
    have haddr : (s.call.block dstPtr srcPtr n).addr =
        ((b.1 - s.dstRaggedOffset.toNat) * s.call.size : Nat) := congrArg Int.ofNat hdstAddr
    rw [Heap.Write.cellAt_elements_iff hlen hcells, haddr]
    constructor
    · intro hex
      obtain ⟨k, hk, j, hj, hat, hcell⟩ := hex
      have hr := within_coords hk
      refine ⟨_, hr, j, hj, ?_, ?_⟩
      · rw [hat, dstPlace, hdstPlace _ hr, linear_coords hk, Nat.add_mul]
        omega
      · rw [srcPlace, hsrcPlace _ hr, linear_coords hk]
        exact hcell
    · intro hex
      obtain ⟨r, hr, j, hj, hat, hcell⟩ := hex
      refine ⟨_, linear_lt hr, j, hj, ?_, ?_⟩
      · rw [hat, dstPlace, hdstPlace r hr, Nat.add_mul]
        omega
      · rw [← hsrcPlace r hr]
        exact hcell
  · refine iff_of_false (cellAt_block_empty (Nat.eq_zero_of_not_pos hpos) b addr v) fun hex => ?_
    obtain ⟨r, hr, -⟩ := hex
    exact hpos (volume_pos_of_within hr)

theorem exists_cellAt_iff (h : s.axes = outer ++ a :: inner) (hcov : ∀ b ∈ inner, b.Covering) :
    (∃ w ∈ s.writes outer (a :: inner), w.cellAt addr = some v) ↔ s.Stored addr v := by
  constructor
  · intro hex
    obtain ⟨w, hw, hcell⟩ := hex
    obtain ⟨b, hb, rfl⟩ := mem_map.mp hw
    obtain ⟨q, hq, hx, hy⟩ := mem_blocks.mp hb
    obtain ⟨r, hr, hstored⟩ := (cellAt_block h hcov hq hx hy).mp hcell
    refine ⟨q ++ r, ?_, hstored⟩
    rw [h, subvolume, dims_append]
    exact within_append hq hr
  · intro hex
    obtain ⟨p, hp, hstored⟩ := hex
    rw [h, subvolume, dims_append] at hp
    obtain ⟨q, r, rfl, hq, hr⟩ := exists_of_within_append hp
    exact ⟨s.blockWrite (a :: inner) (_, _), mem_map_of_mem (mem_blocks.mpr ⟨q, hq, rfl, rfl⟩),
      (cellAt_block h hcov hq rfl rfl).mpr ⟨r, hr, hstored⟩⟩

theorem Stored.unique {v' : UInt8} (h : s.Stored addr v) (h' : s.Stored addr v') :
    v = v' := by
  obtain ⟨p, hp, j, hj, haddr, hv⟩ := h
  obtain ⟨p', hp', j', hj', haddr', hv'⟩ := h'
  have heq : s.dstPlace p * s.call.size + j = s.dstPlace p' * s.call.size + j' := by omega
  have hdiv : ∀ {k i : Nat}, i < s.call.size → (k * s.call.size + i) / s.call.size = k :=
    fun {k i} hi => by
      rw [Nat.add_comm, Nat.add_mul_div_right _ _ (Nat.zero_lt_of_lt hi), Nat.div_eq_of_lt hi,
        Nat.zero_add]
  have hplace : s.dstPlace p = s.dstPlace p' := by
    calc s.dstPlace p = (s.dstPlace p * s.call.size + j) / s.call.size := (hdiv hj).symm
      _ = (s.dstPlace p' * s.call.size + j') / s.call.size := by rw [heq]
      _ = s.dstPlace p' := hdiv hj'
  have hbehind := s.dstFits.behind p hp
  have hbehind' := s.dstFits.behind p' hp'
  obtain rfl : p = p' := s.dstFits.place_injective hp hp' (by
    unfold dstPlace at hplace
    omega)
  obtain rfl : j = j' := Nat.add_left_cancel heq
  exact Option.some.inj (hv.symm.trans hv')

theorem isCopy_writes (h : s.axes = outer ++ a :: inner) (hcov : ∀ b ∈ inner, b.Covering) :
    s.IsCopy (Heap.writeAll s.dst (s.writes outer (a :: inner))) where
  elements := by
    intro p hp
    apply ext_getElem?
    intro j
    have hlen : (s.call.moved (element s.call.src s.call.size (s.srcPlace p))).length =
        s.call.size := (length_moved _ _).trans (length_read _ _ _)
    by_cases hj : j < s.call.size
    · cases hv : (s.call.moved (element s.call.src s.call.size (s.srcPlace p)))[j]? with
      | none =>
        rw [List.getElem?_eq_none_iff] at hv
        omega
      | some v =>
        have hstored : s.Stored (s.dstPlace p * s.call.size + j : Nat) v := ⟨p, hp, j, hj, rfl, hv⟩
        rw [element, getElem?_read hj, Heap.writeAll_of_agree
          ((exists_cellAt_iff h hcov).mpr hstored) fun w hw b hb =>
            Stored.unique ((exists_cellAt_iff h hcov).mp ⟨w, hw, hb⟩) hstored]
    · rw [getElem?_eq_none (by rw [element, length_read]; omega),
        getElem?_eq_none (by rw [hlen]; omega)]
  frame := by
    intro addr hout
    refine Heap.writeAll_of_none fun w hw => ?_
    cases hcell : w.cellAt addr with
    | none => rfl
    | some v =>
      obtain ⟨p, hp, j, hj, haddr, -⟩ := (exists_cellAt_iff h hcov).mp ⟨w, hw, hcell⟩
      have hpout := hout p hp
      rw [Nat.succ_mul] at hpout
      omega

theorem run_eq (h : s.axes = outer ++ a :: inner) (hroom : s.axes.length ≤ strideRoom)
    (hloops : IntLoops (outer.map Axis.subv)) :
    s.run outer.length =
      .ok (Heap.writeAll s.dst (s.writes outer (a :: inner)), s.axes.map Axis.subv) := by
  unfold run
  rw [copyCollapsed_eq_by, copyCollapsedBy_eq _ h hroom hloops]
  unfold Heap.writeAll writes
  rw [foldl_map]
  rfl

end

theorem IsCopy.unique {out out' : Memory} (h : s.IsCopy out) (h' : s.IsCopy out') : out = out' := by
  funext addr
  by_cases hex : ∃ p, Within p (subvolume s.axes) ∧ (s.dstPlace p * s.call.size : Nat) ≤ addr ∧
      addr < ((s.dstPlace p + 1) * s.call.size : Nat)
  · obtain ⟨p, hp, hlo, hhi⟩ := hex
    obtain ⟨j, hj⟩ := Int.eq_ofNat_of_zero_le (Int.sub_nonneg_of_le hlo)
    rw [Nat.succ_mul] at hhi
    have hlt : j < s.call.size := by omega
    have haddr : addr = (s.dstPlace p * s.call.size + j : Nat) := by omega
    have heq := congrArg (·[j]?) ((h.elements p hp).trans (h'.elements p hp).symm)
    rw [element, element, getElem?_read hlt, getElem?_read hlt, ← haddr] at heq
    exact Option.some.inj heq
  · have hout : ∀ p, Within p (subvolume s.axes) → addr < (s.dstPlace p * s.call.size : Nat) ∨
        ((s.dstPlace p + 1) * s.call.size : Nat) ≤ addr := fun p hp => by
      by_contra hnot
      rw [not_or] at hnot
      exact hex ⟨p, hp, Int.not_lt.mp hnot.1, Int.not_le.mp hnot.2⟩
    rw [h.frame addr hout, h'.frame addr hout]

end Copy

/-! ## Counting with an `int` -/

theorem rounds_of_ok {body : UInt64 → UInt64 → Memory → Except Fault Memory}
    {dstStride srcStride dst src : UInt64} {i left : Nat} {mem' : Memory}
    (h : helperLoop body dstStride srcStride i left dst src mem = .ok mem') (hi : i < 2147483648) :
    i + left < 2147483648 ∧ (left ≠ 0 → ∃ mem₁, body dst src mem = .ok mem₁) := by
  induction left generalizing i dst src mem with
  | zero => exact ⟨hi, fun hne => absurd rfl hne⟩
  | succ left ih =>
    rw [helperLoop] at h
    obtain ⟨mem₁, hbody, h⟩ := exists_of_bind_eq_ok h
    refine ⟨?_, fun _ => ⟨mem₁, hbody⟩⟩
    by_cases hmax : i = 2147483647
    · rw [if_pos hmax] at h
      cases h
    · rw [if_neg hmax] at h
      have hrest := (ih h (by omega)).1
      omega

theorem intLoops_of_ok {block : UInt64 → UInt64 → UInt64 → Memory → Memory}
    {subvDims dstStrides srcStrides : List UInt64} {dst src : UInt64} {mem' : Memory}
    (h : copySubvolumeHelperBy block n subvDims dstStrides srcStrides dst src mem = .ok mem') :
    IntLoops (subvDims.take n) := by
  induction n generalizing subvDims dstStrides srcStrides dst src mem mem' with
  | zero => trivial
  | succ n ih =>
    match subvDims, dstStrides, srcStrides, h with
    | d :: subvDims, dstStride :: dstStrides, srcStride :: srcStrides, h =>
      obtain ⟨hlt, hbody⟩ := rounds_of_ok h (by decide)
      refine ⟨by omega, fun hne => ?_⟩
      obtain ⟨mem₁, hbody⟩ := hbody fun hzero => hne (UInt64.toNat_inj.mp hzero)
      exact ih hbody

theorem conditions_of_collapsed {block : UInt64 → UInt64 → UInt64 → Memory → Memory}
    {datumType : Datatype} {dstRagged srcRagged : UInt64} {dst : Memory} {dim : Nat}
    {r : Memory × List UInt64}
    (h : copyCollapsedBy block datumType axes dstRagged srcRagged dst dim = .ok r) :
    axes.length ≤ strideRoom ∧ IntLoops ((axes.map Axis.subv).take dim) := by
  unfold copyCollapsedBy at h
  dsimp only at h
  by_cases hroom : strideRoom < axes.length
  · rw [if_pos hroom] at h
    cases h
  · rw [if_neg hroom] at h
    obtain ⟨_, hhelper, -⟩ := exists_of_bind_eq_ok h
    have hloops := intLoops_of_ok hhelper
    rw [take_set_of_le (Nat.le_refl dim)] at hloops
    exact ⟨Nat.not_lt.mp hroom, hloops⟩

namespace Copy

variable {s : Copy}

theorem conditions_of_ok {dim : Nat} {r : Memory × List UInt64} (h : s.run dim = .ok r) :
    s.axes.length ≤ strideRoom ∧ IntLoops ((s.axes.map Axis.subv).take dim) := by
  unfold run at h
  rw [copyCollapsed_eq_by] at h
  exact conditions_of_collapsed h

theorem exists_split {dim : Nat} (hlast : lastNoncoveringDim s.axes ≤ dim)
    (hlt : dim < s.axes.length) :
    ∃ outer a inner, s.axes = outer ++ a :: inner ∧ outer.length = dim ∧
      outer.map Axis.subv = (s.axes.map Axis.subv).take dim ∧ ∀ b ∈ inner, b.Covering := by
  refine ⟨s.axes.take dim, s.axes[dim], s.axes.drop (dim + 1), ?_, ?_, map_take, ?_⟩
  · rw [← drop_eq_getElem_cons hlt, take_append_drop]
  · rw [length_take]
    omega
  · intro b hb
    obtain ⟨j, hj⟩ := mem_iff_getElem?.mp hb
    rw [getElem?_drop] at hj
    refine covering_of_lt_lastNoncoveringLoop hj ?_ (Nat.le_refl 0)
    show lastNoncoveringDim s.axes < _
    omega

theorem run_spec {dim : Nat} (hlast : lastNoncoveringDim s.axes ≤ dim) (hlt : dim < s.axes.length)
    (hroom : s.axes.length ≤ strideRoom) (hloops : IntLoops ((s.axes.map Axis.subv).take dim)) :
    ∃ out, s.run dim = .ok (out, s.axes.map Axis.subv) ∧ s.IsCopy out := by
  obtain ⟨outer, a, inner, haxes, rfl, hsubv, hcov⟩ := exists_split hlast hlt
  exact ⟨_, run_eq haxes hroom (hsubv ▸ hloops), isCopy_writes haxes hcov⟩

/-- A subvolume is copied exactly if the arrays of the strides have room for its dimensions and an
`int` counts the rounds of each loop that is reached. -/
theorem copied_iff (s : Copy) : s.Copied ↔ s.axes.length ≤ strideRoom ∧
    IntLoops ((s.axes.map Axis.subv).take (lastNoncoveringDim s.axes)) := by
  constructor
  · intro h
    obtain ⟨out, hrun, -⟩ := h
    exact conditions_of_ok hrun
  · intro h
    obtain ⟨hroom, hloops⟩ := h
    have hpos : 0 < s.axes.length := length_pos_iff.mpr s.ne
    have hlt : lastNoncoveringDim s.axes < s.axes.length := by
      have hlt := lastNoncoveringLoop_lt 0 0 s.axes (by omega)
      rwa [Nat.zero_add] at hlt
    obtain ⟨out, hrun, hcopy⟩ := run_spec (Nat.le_refl _) hlt hroom hloops
    refine ⟨out, hrun, hcopy, fun dim hdim hdimLt r hr => ?_⟩
    obtain ⟨out', hrun', hcopy'⟩ := run_spec hdim hdimLt hroom (conditions_of_ok hr).2
    rw [hrun'] at hr
    rw [← Except.ok.inj hr, hcopy.unique hcopy']

end Copy

def column : List Axis := [⟨2147483649, 2147483649, 0, 2147483649, 0⟩, ⟨1, 1, 0, 2, 1⟩]

theorem exists_of_within_column {p : List Nat} (h : Within p (subvolume column)) :
    ∃ i, i < 2147483649 ∧ p = [i, 0] := by
  cases h with
  | cons hi h =>
    cases h with
    | cons hj h =>
      cases h
      exact ⟨_, hi, by rw [Nat.lt_one_iff.mp hj]⟩

theorem inside_column : ∀ a ∈ column, a.dstOffset.toNat + a.subv.toNat ≤ a.dst.toNat ∧
    a.srcOffset.toNat + a.subv.toNat ≤ a.src.toNat := by
  intro a ha
  rcases mem_cons.mp ha with rfl | ha
  · decide
  · rw [mem_singleton.mp ha]
    decide

def copyOfColumn : Copy where
  call := ⟨.little, .byte, .no, fun _ => 0⟩
  axes := column
  dstRaggedOffset := 0
  srcRaggedOffset := 0
  dst := fun _ => 1
  dstBytes := 2147483649
  srcBytes := 4294967298
  numeric := by decide
  ne := by decide
  dstFits := {
    inside := fun a ha => (inside_column a ha).1
    behind := fun _ _ => Nat.zero_le _
    room := fun p hp => by
      obtain ⟨i, hi, rfl⟩ := exists_of_within_column hp
      show ((0 + i) * (1 * 1) + ((0 + 0) * 1 + 0) + 1 - 0) * 1 ≤ 2147483649
      omega }
  srcFits := {
    inside := fun a ha => (inside_column a ha).2
    behind := fun _ _ => Nat.zero_le _
    room := fun p hp => by
      obtain ⟨i, hi, rfl⟩ := exists_of_within_column hp
      show ((0 + i) * (2 * 1) + ((1 + 0) * 1 + 0) + 1 - 0) * 1 ≤ 4294967298
      omega }

/-- The rows are counted with an `int`. -/
theorem not_copied_column : ¬copyOfColumn.Copied := by
  intro h
  obtain ⟨out, hrun, -⟩ := h
  have hloops := (Copy.conditions_of_ok (s := copyOfColumn) hrun).2
  have hlt : (2147483649 : UInt64).toNat < 2147483648 := hloops.1
  exact absurd hlt (by decide)

end Adios.CopySubvolume
