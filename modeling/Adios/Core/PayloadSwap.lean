import Adios.Core.CopiedSubvolume

/-!
# Core — the byte order of a payload

`swap_adios_type_array` of `core/adios_endianness.c`, with which `adios_parse_var_data_payload_v1`
converts what it has copied, and `change_endianness` of `core/util.c`: when the two of them do the
same. The memory is that from the start of the payload on, so bytes behind it can be told apart.
-/

namespace Adios.PayloadSwap

open List CopySubvolume

section

variable (host : Wire.Endian)

/-- `swap_adios_type_array` -/
def swapAdiosTypeArray (data : List UInt8) (type : Datatype) (payloadSize : Nat) :
    Except Fault (List UInt8) :=
  let size := (getTypeSize type (some [])).toNat
  if size = 0 then .error .divisionByZero
  else .ok (eachElement (fun e => swapAdiosType host e type) size (payloadSize / size) data)

/-- `change_endianness` of the bytes at a pointer. -/
def changeEndiannessAt (data : List UInt8) (sliceSize : Nat) (type : Datatype) : List UInt8 :=
  let size := (bpGetTypeSize type).toNat
  eachElement (swapElement host type) size (sliceSize / size) data

end

/-! ## The statement -/

def componentSize : Datatype → Nat
  | .string => 1
  | .complex => 4
  | .doubleComplex => 8
  | type => (getTypeSize type none).toNat

def reversedComponents (type : Datatype) (data : List UInt8) : List UInt8 :=
  eachElement List.reverse (componentSize type) (data.length / componentSize type) data

structure Payload where
  host : Wire.Endian
  type : Datatype
  defined : type.IsDefined
  data : List UInt8
  whole : type = .string ∨ (getTypeSize type none).toNat ∣ data.length

namespace Payload

variable (p : Payload)

/-- Both functions reverse the scalars in their places and nothing behind the payload, and undo that
when they are called again. -/
def Swapped : Prop :=
  ∀ rest : List UInt8,
    swapAdiosTypeArray p.host (p.data ++ rest) p.type p.data.length =
        .ok (reversedComponents p.type p.data ++ rest) ∧
      changeEndiannessAt p.host (p.data ++ rest) p.data.length p.type =
        reversedComponents p.type p.data ++ rest ∧
      swapAdiosTypeArray p.host (reversedComponents p.type p.data ++ rest) p.type p.data.length =
        .ok (p.data ++ rest) ∧
      changeEndiannessAt p.host (reversedComponents p.type p.data ++ rest) p.data.length p.type =
        p.data ++ rest

def size : Nat := (getTypeSize p.type none).toNat

def element (k : Nat) : List UInt8 := (p.data.drop (k * p.size)).take p.size

structure Clear : Prop where
  numeric : p.type ≠ .string
  parts : p.type = .complex ∨ p.type = .doubleComplex → ∀ k < p.data.length / p.size,
    (p.element k).take (p.size / 2) = (p.element k).drop (p.size / 2)

end Payload

/-! ## Rounds -/

section

variable {f g : List UInt8 → List UInt8} {size : Nat}

variable {n : Nat} {data : List UInt8}

theorem eachElement_append (rest : List UInt8) (h : data.length = n * size) :
    eachElement f size n (data ++ rest) = eachElement f size n data ++ rest := by
  induction n generalizing data with
  | zero =>
    rw [Nat.zero_mul] at h
    rw [length_eq_zero_iff.mp h]
    rfl
  | succ n ih =>
    rw [Nat.succ_mul] at h
    rw [eachElement, eachElement, take_append_of_le_length (by omega),
      drop_append_of_le_length (by omega), ih (by rw [length_drop]; omega),
      append_assoc]

theorem eachElement_eq_iff (hf : ∀ e : List UInt8, e.length = size → (f e).length = size)
    (hg : ∀ e : List UInt8, e.length = size → (g e).length = size) (h : data.length = n * size) :
    eachElement f size n data = eachElement g size n data ↔
      ∀ k < n, f ((data.drop (k * size)).take size) = g ((data.drop (k * size)).take size) := by
  induction n generalizing data with
  | zero => exact ⟨fun _ k hk => absurd hk (Nat.not_lt_zero k), fun _ => rfl⟩
  | succ n ih =>
    rw [Nat.succ_mul] at h
    have hfirst : (data.take size).length = size := by
      rw [length_take]
      omega
    have hrest := @ih (data.drop size) (by rw [length_drop]; omega)
    have hdrop : ∀ k, ((data.drop size).drop (k * size)).take size =
        (data.drop ((k + 1) * size)).take size := fun k => by
      rw [drop_drop, Nat.succ_mul, Nat.add_comm]
    rw [eachElement, eachElement]
    constructor
    · intro heq k hk
      obtain ⟨hhead, htail⟩ := append_inj heq ((hf _ hfirst).trans (hg _ hfirst).symm)
      cases k with
      | zero => rwa [Nat.zero_mul, drop_zero]
      | succ k =>
        rw [← hdrop]
        exact hrest.mp htail k (Nat.lt_of_succ_lt_succ hk)
    · intro hall
      have hhead := hall 0 (Nat.zero_lt_succ n)
      rw [Nat.zero_mul, drop_zero] at hhead
      rw [hhead, hrest.mpr fun k hk => by
        rw [hdrop]
        exact hall (k + 1) (Nat.succ_lt_succ hk)]

theorem eachElement_eachElement (hf : ∀ e : List UInt8, e.length = size → (f e).length = size)
    (hundo : ∀ e : List UInt8, e.length = size → f (f e) = e) (h : data.length = n * size) :
    eachElement f size n (eachElement f size n data) = data := by
  induction n generalizing data with
  | zero => rfl
  | succ n ih =>
    rw [Nat.succ_mul] at h
    have hfirst : (data.take size).length = size := by
      rw [length_take]
      omega
    rw [eachElement, eachElement, take_left' (hf _ hfirst), drop_left' (hf _ hfirst),
      hundo _ hfirst, ih (by rw [length_drop]; omega), take_append_drop]

theorem eachElement_halves {half : Nat} :
    eachElement List.reverse half (2 * n) data =
      eachElement (fun e => (e.take half).reverse ++ (e.drop half).reverse) (2 * half) n data := by
  induction n generalizing data with
  | zero => rfl
  | succ n ih =>
    have hdouble : 2 * (n + 1) = 2 * n + 1 + 1 := by omega
    have htake : (data.take (2 * half)).take half = data.take half := by
      rw [take_take, Nat.min_eq_left (by omega)]
    have hdrop : (data.take (2 * half)).drop half = (data.drop half).take half := by
      rw [drop_take, Nat.two_mul, Nat.add_sub_cancel_left]
    rw [hdouble, eachElement, eachElement, eachElement, ih, htake, hdrop, drop_drop,
      ← Nat.two_mul, append_assoc]

end

/-! ## Any bytes -/

theorem byteSwapped_byteSwapped (type : Datatype) {e : List UInt8} (h : 2 ∣ e.length ∨
    ¬(type = .complex ∨ type = .doubleComplex)) : byteSwapped type (byteSwapped type e) = e := by
  by_cases hparts : type = .complex ∨ type = .doubleComplex
  · obtain ⟨half, hhalf⟩ := h.resolve_right (not_not.mpr hparts)
    have hlen := length_byteSwapped type e
    have htake : (e.take half).reverse.length = half := by
      rw [length_reverse, length_take]
      omega
    rw [byteSwapped, if_pos hparts, hlen, hhalf, Nat.mul_div_cancel_left _ (by decide), byteSwapped,
      if_pos hparts, hhalf, Nat.mul_div_cancel_left _ (by decide), take_left' htake,
      drop_left' htake, reverse_reverse, reverse_reverse, take_append_drop]
  · rw [byteSwapped, if_neg hparts, byteSwapped, if_neg hparts, reverse_reverse]

theorem swapElement_undo (host : Wire.Endian) (type : Datatype) {e : List UInt8}
    (hlen : e.length = (bpGetTypeSize type).toNat) :
    (swapElement host type e).length = e.length ∧
      swapElement host type (swapElement host type e) = e := by
  by_cases hnumeric : type.IsNumeric
  · rw [bpGetTypeSize_eq hnumeric] at hlen
    have hswap := swapElement_eq host hnumeric hlen
    have hlength := length_byteSwapped type e
    have heven : 2 ∣ e.length ∨ ¬(type = .complex ∨ type = .doubleComplex) := by
      by_cases hparts : type = .complex ∨ type = .doubleComplex
      · refine .inl ?_
        rw [hlen]
        rcases hparts with rfl | rfl <;> decide
      · exact .inr hparts
    rw [hswap, swapElement_eq host hnumeric (hlength.trans hlen), byteSwapped_byteSwapped type heven]
    exact ⟨hlength, rfl⟩
  · have hsame : swapElement host type = id := by
      funext e
      cases type with
      | string => rfl
      | unknown => rfl
      | other code => rfl
      | _ => exact absurd (by decide) hnumeric
    rw [hsame]
    exact ⟨rfl, rfl⟩

theorem changeEndianness_undo (host : Wire.Endian) (data : List UInt8) (type : Datatype) :
    (changeEndianness host data type).length = data.length ∧
      changeEndianness host (changeEndianness host data type) type = data := by
  have hround (e : List UInt8) (he : e.length = (bpGetTypeSize type).toNat) :=
    swapElement_undo host type he
  have hle := Nat.div_mul_le_self data.length (bpGetTypeSize type).toNat
  have hwhole : (data.take (data.length / (bpGetTypeSize type).toNat *
      (bpGetTypeSize type).toNat)).length =
      data.length / (bpGetTypeSize type).toNat * (bpGetTypeSize type).toNat := by
    rw [length_take, Nat.min_eq_left hle]
  have hkeep := fun (e : List UInt8) he => ((hround e he).1).trans he
  -- the elements, and the bytes behind the last of them
  have hchange : changeEndianness host data type =
      eachElement (swapElement host type) (bpGetTypeSize type).toNat
        (data.length / (bpGetTypeSize type).toNat)
        (data.take (data.length / (bpGetTypeSize type).toNat * (bpGetTypeSize type).toNat)) ++
      data.drop (data.length / (bpGetTypeSize type).toNat * (bpGetTypeSize type).toNat) := by
    rw [← eachElement_append _ hwhole, take_append_drop]
    rfl
  have hlen := length_eachElement hkeep hwhole
  have hlength : (changeEndianness host data type).length = data.length := by
    rw [hchange, length_append, hlen, ← length_append, take_append_drop]
  refine ⟨hlength, ?_⟩
  rw [changeEndianness]
  rw [hlength, hchange, eachElement_append _ (hlen.trans hwhole),
    eachElement_eachElement hkeep (fun e he => (hround e he).2) hwhole, take_append_drop]

theorem changeEndianness_injective (host : Wire.Endian) (type : Datatype) {a b : List UInt8}
    (h : changeEndianness host a type = changeEndianness host b type) : a = b := by
  rw [← (changeEndianness_undo host a type).2, h, (changeEndianness_undo host b type).2]

/-! ## Elements of numbers -/

theorem swapAdiosType_eq_reverse (host : Wire.Endian) {type : Datatype} (h : type.IsNumeric)
    {e : List UInt8} (hlen : e.length = (getTypeSize type none).toNat) :
    swapAdiosType host e type = e.reverse := by
  cases type with
  | byte | unsignedByte =>
    obtain ⟨b, rfl⟩ := length_eq_one_iff.mp hlen
    rfl
  | short | unsignedShort => exact swap16Ptr_eq_reverse host hlen
  | integer | unsignedInteger | real => exact swap32Ptr_eq_reverse host hlen
  | long | unsignedLong | double | complex => exact swap64Ptr_eq_reverse host hlen
  | longDouble | doubleComplex => exact swap128Ptr_eq_reverse host hlen
  | string => exact absurd rfl h.2
  | unknown => exact absurd h.1 id
  | other code => exact absurd h.1 id

theorem reverse_eq_parts_iff {e : List UInt8} {half : Nat} (h : e.length = 2 * half) :
    e.reverse = (e.take half).reverse ++ (e.drop half).reverse ↔ e.take half = e.drop half := by
  have hwhole : e.reverse = (e.drop half).reverse ++ (e.take half).reverse := by
    rw [← reverse_append, take_append_drop]
  rw [hwhole]
  constructor
  · intro heq
    obtain ⟨hhead, -⟩ := append_inj heq (by
      rw [length_reverse, length_reverse, length_take, length_drop]
      omega)
    exact (reverse_injective hhead).symm
  · intro heq
    rw [heq]

namespace Payload

variable {p : Payload}

section

variable (h : p.type ≠ .string)

include h

theorem isNumeric : p.type.IsNumeric := ⟨p.defined, h⟩

theorem length_eq : p.data.length = p.data.length / p.size * p.size :=
  (Nat.div_mul_cancel (p.whole.resolve_left h)).symm

theorem swapAdiosTypeArray_eq {data : List UInt8} (rest : List UInt8)
    (hdata : data.length = p.data.length) :
    swapAdiosTypeArray p.host (data ++ rest) p.type p.data.length =
      .ok (eachElement List.reverse p.size (p.data.length / p.size) data ++ rest) := by
  have hsize : getTypeSize p.type (some []) = getTypeSize p.type none := getTypeSize_eq h _ _
  have hlen := hdata.trans (length_eq h)
  have hreverse : ∀ e : List UInt8, e.length = p.size →
      swapAdiosType p.host e p.type = e.reverse :=
    fun e he => swapAdiosType_eq_reverse p.host (isNumeric h) he
  have hsame : eachElement (fun e => swapAdiosType p.host e p.type) p.size
      (p.data.length / p.size) data =
      eachElement List.reverse p.size (p.data.length / p.size) data := by
    refine (eachElement_eq_iff (fun e he => by rw [hreverse e he, length_reverse, he])
      (fun e he => by rw [length_reverse, he]) hlen).mpr fun k hk => hreverse _ ?_
    have hle : (k + 1) * p.size ≤ p.data.length / p.size * p.size := Nat.mul_le_mul_right _ hk
    rw [Nat.succ_mul] at hle
    rw [length_take, length_drop]
    omega
  unfold swapAdiosTypeArray
  dsimp only
  rw [hsize, if_neg (Nat.ne_of_gt (getTypeSize_pos (isNumeric h)))]
  exact congrArg Except.ok ((eachElement_append rest hlen).trans (congrArg (· ++ rest) hsame))

theorem componentSize_eq :
    (p.type = .complex ∨ p.type = .doubleComplex) ∧ p.size = 2 * componentSize p.type ∨
      ¬(p.type = .complex ∨ p.type = .doubleComplex) ∧ p.size = componentSize p.type := by
  have hnumeric := isNumeric h
  unfold size
  cases htype : p.type with
  | string => exact absurd htype h
  | complex => exact .inl ⟨.inl rfl, rfl⟩
  | doubleComplex => exact .inl ⟨.inr rfl, rfl⟩
  | unknown | other _ =>
    rw [htype] at hnumeric
    exact absurd hnumeric.1 id
  | _ => exact .inr ⟨by decide, rfl⟩

theorem component_pos : 0 < componentSize p.type := by
  have hpos : 0 < p.size := getTypeSize_pos (isNumeric h)
  rcases componentSize_eq h with ⟨-, hsize⟩ | ⟨-, hsize⟩ <;> omega

theorem reversedComponents_eq {data : List UInt8} (hdata : data.length = p.data.length) :
    reversedComponents p.type data =
      eachElement (byteSwapped p.type) p.size (p.data.length / p.size) data := by
  have hlen := hdata.trans (length_eq h)
  have hpos := component_pos h
  unfold reversedComponents
  rcases componentSize_eq h with ⟨hparts, hsize⟩ | ⟨hparts, hsize⟩
  · have hrounds : data.length / componentSize p.type = 2 * (p.data.length / p.size) := by
      rw [hlen]
      refine Nat.div_eq_of_eq_mul_left hpos ?_
      rw [hsize, ← Nat.mul_assoc, Nat.mul_comm _ 2, Nat.mul_assoc]
    rw [hrounds, eachElement_halves, ← hsize]
    refine (eachElement_eq_iff (fun e he => ?_) (fun e he => ?_) hlen).mpr fun k hk => ?_
    · rw [length_append, length_reverse, length_reverse, ← length_append, take_append_drop, he]
    · rw [length_byteSwapped, he]
    · have hle : (k + 1) * p.size ≤ p.data.length / p.size * p.size := Nat.mul_le_mul_right _ hk
      rw [Nat.succ_mul] at hle
      have hlen : ((data.drop (k * p.size)).take p.size).length = 2 * componentSize p.type := by
        rw [length_take, length_drop]
        omega
      rw [byteSwapped, if_pos hparts, hlen, Nat.mul_div_cancel_left _ (by decide)]
  · have hsame : byteSwapped p.type = List.reverse := by
      funext e
      exact if_neg hparts
    rw [hsame, ← hsize, hdata]

theorem changeEndiannessAt_eq {data : List UInt8} (rest : List UInt8)
    (hdata : data.length = p.data.length) :
    changeEndiannessAt p.host (data ++ rest) p.data.length p.type =
      reversedComponents p.type data ++ rest := by
  have hlen := hdata.trans (length_eq h)
  have hsize : (bpGetTypeSize p.type).toNat = p.size := by
    rw [bpGetTypeSize_eq (isNumeric h)]
    rfl
  have hswap : ∀ e : List UInt8, e.length = p.size →
      swapElement p.host p.type e = byteSwapped p.type e :=
    fun e he => swapElement_eq p.host (isNumeric h) he
  rw [reversedComponents_eq h hdata]
  unfold changeEndiannessAt
  dsimp only
  rw [hsize, eachElement_append rest hlen]
  refine congrArg (· ++ rest) ((eachElement_eq_iff
    (fun e he => by rw [hswap e he, length_byteSwapped, he])
    (fun e he => by rw [length_byteSwapped, he]) hlen).mpr fun k hk => hswap _ ?_)
  have hle : (k + 1) * p.size ≤ p.data.length / p.size * p.size := Nat.mul_le_mul_right _ hk
  rw [Nat.succ_mul] at hle
  rw [length_take, length_drop]
  omega

theorem component_dvd : componentSize p.type ∣ p.data.length := by
  refine Nat.dvd_trans ?_ (p.whole.resolve_left h)
  rcases componentSize_eq h with ⟨-, hsize⟩ | ⟨-, hsize⟩
  · exact ⟨2, hsize.trans (Nat.mul_comm _ _)⟩
  · exact ⟨1, hsize.trans (Nat.mul_one _).symm⟩

theorem length_reversedComponents :
    (reversedComponents p.type p.data).length = p.data.length :=
  length_eachElement (fun e he => by rw [length_reverse, he])
    (Nat.div_mul_cancel (component_dvd h)).symm

theorem reversedComponents_twice :
    reversedComponents p.type (reversedComponents p.type p.data) = p.data := by
  have hlen := length_reversedComponents h
  rw [reversedComponents, hlen]
  exact eachElement_eachElement (fun e he => by rw [length_reverse, he])
    (fun e _ => reverse_reverse e) (Nat.div_mul_cancel (component_dvd h)).symm

theorem reverse_eq_reversedComponents_iff :
    eachElement List.reverse p.size (p.data.length / p.size) p.data =
      reversedComponents p.type p.data ↔ (p.type = .complex ∨ p.type = .doubleComplex →
        ∀ k < p.data.length / p.size,
          (p.element k).take (p.size / 2) = (p.element k).drop (p.size / 2)) := by
  rw [reversedComponents_eq h rfl, eachElement_eq_iff (fun e he => by rw [length_reverse, he])
    (fun e he => by rw [length_byteSwapped, he]) (length_eq h)]
  rcases componentSize_eq h with ⟨hparts, hsize⟩ | ⟨hparts, -⟩
  · have heach : ∀ k < p.data.length / p.size,
        ((p.element k).reverse = byteSwapped p.type (p.element k) ↔
          (p.element k).take (p.size / 2) = (p.element k).drop (p.size / 2)) := fun k hk => by
      have hle : (k + 1) * p.size ≤ p.data.length / p.size * p.size := Nat.mul_le_mul_right _ hk
      rw [← length_eq h, Nat.succ_mul] at hle
      have hlen : (p.element k).length = p.size := by
        rw [element, length_take, length_drop]
        omega
      rw [byteSwapped, if_pos hparts, hlen]
      exact reverse_eq_parts_iff (by rw [hlen]; omega)
    exact ⟨fun hall _ k hk => (heach k hk).mp (hall k hk),
      fun hall k hk => (heach k hk).mpr (hall hparts k hk)⟩
  · exact ⟨fun _ hc => absurd hc hparts, fun _ k _ => (if_neg hparts).symm⟩

end

/-- The two functions agree, reverse the scalars in place and undo that exactly for payloads of
numbers whose complex ones, if they are complex, have two parts of the same bytes. -/
theorem swapped_iff (p : Payload) : p.Swapped ↔ p.Clear := by
  constructor
  · intro h
    have hnumeric : p.type ≠ .string := fun hc => by
      have hfirst := (h []).1
      unfold swapAdiosTypeArray at hfirst
      rw [hc] at hfirst
      cases hfirst
    refine ⟨hnumeric, (reverse_eq_reversedComponents_iff hnumeric).mp ?_⟩
    have hfirst := (h []).1
    rw [swapAdiosTypeArray_eq hnumeric [] rfl] at hfirst
    exact append_cancel_right (Except.ok.inj hfirst)
  · rintro ⟨hnumeric, hparts⟩ rest
    have hsame := (reverse_eq_reversedComponents_iff hnumeric).mpr hparts
    have hlen := length_reversedComponents hnumeric
    refine ⟨?_, changeEndiannessAt_eq hnumeric rest rfl, ?_, ?_⟩
    · rw [swapAdiosTypeArray_eq hnumeric rest rfl, hsame]
    · rw [swapAdiosTypeArray_eq hnumeric rest hlen, ← hsame,
        eachElement_eachElement (fun e he => by rw [length_reverse, he])
          (fun e _ => reverse_reverse e) (length_eq hnumeric)]
    · rw [changeEndiannessAt_eq hnumeric rest hlen, reversedComponents_twice hnumeric]

end Payload

theorem complex_defined : Datatype.complex.IsDefined := by decide

theorem complex_whole : (getTypeSize .complex none).toNat ∣ 8 := by decide

def oneComplex : Payload :=
  ⟨.little, .complex, complex_defined, [1, 0, 0, 0, 0, 0, 0, 0], .inr complex_whole⟩

/-- It is swapped as one word, so the parts change places. -/
theorem not_swapped_oneComplex : ¬oneComplex.Swapped := by
  intro h
  have hfirst := (h []).1
  have hcode : swapAdiosTypeArray oneComplex.host (oneComplex.data ++ []) oneComplex.type
      oneComplex.data.length = .ok [0, 0, 0, 0, 0, 0, 0, 1] := by decide +kernel
  have hclaim : reversedComponents oneComplex.type oneComplex.data ++ [] =
      [0, 0, 0, 1, 0, 0, 0, 0] := by decide +kernel
  rw [hcode, hclaim] at hfirst
  exact absurd (Except.ok.inj hfirst) (by decide)

end Adios.PayloadSwap
