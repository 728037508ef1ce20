import Adios.Index.ParseOutput
import Adios.Index.ParseSpec
import Adios.Index.WriteSpec
import Adios.Pg.Overhead

/-!
# Adios — the transform characteristic of a variable

The size that is computed for it, the bytes that are written and what is read from them. The
decoder counts the dimensions with a `uint8_t` up to three times their number, leaves the length
of metadata as it was when there is none, and the writer takes the type from the first byte of an
`enum`.
-/

namespace Adios

open List Wire Wire.Parser

/-! ## Sizes -/

theorem countDimensions_eq (ds : List Dimension) :
    countDimensions ds = UInt8.ofNat ds.length := by
  have hfold : ∀ (n : UInt8),
    ds.foldl (fun count _ => count + 1) n = n + UInt8.ofNat ds.length := by
    induction ds with
    | nil => simp
    | cons d ds ih =>
      intro n
      rw [foldl_cons, ih, length_cons, UInt8.ofNat_add, UInt8.add_assoc]
      congr 1
      exact UInt8.add_comm _ _
  rw [countDimensions, hfold, UInt8.zero_add]

theorem countDimensions_toNat {ds : List Dimension} (h : ds.length < 256) :
    (countDimensions ds).toNat = ds.length := by
  rw [countDimensions_eq, UInt8.toNat_ofNat_of_lt' h]

@[simp] theorem length_flatMap_values (m : Machine) (ds : List Dimension) :
    (ds.flatMap (Dimension.values m)).length = 3 * ds.length := by
  induction ds with
  | nil => rfl
  | cons d ds ih =>
    rw [flatMap_cons, length_append, ih, length_cons]
    show 3 + 3 * ds.length = _
    omega

theorem countDimensions_le (ds : List Dimension) : (countDimensions ds).toNat ≤ ds.length := by
  rw [countDimensions_eq, UInt8.toNat_ofNat']
  exact Nat.mod_le _ _

theorem length_dereferenceDimensions (m : Machine) (ds : List Dimension) :
    (dereferenceDimensionsCharacteristic m ds).dims.length = 3 * (countDimensions ds).toNat := by
  show ((ds.take (countDimensions ds).toNat).flatMap (Dimension.values m)).length = _
  rw [length_flatMap_values, length_take, Nat.min_eq_left (countDimensions_le ds)]

theorem dereferenceDimensionsCharacteristic_wf (m : Machine) (ds : List Dimension) :
    (dereferenceDimensionsCharacteristic m ds).Wf :=
  length_dereferenceDimensions m ds

theorem calcVarCharacteristicsDimsOverhead_eq (ds : List Dimension) :
    calcVarCharacteristicsDimsOverhead ds = UInt16.ofNat (3 + 24 * ds.length) := by
  have hfold : ∀ n : Nat, ds.foldl (fun overhead _ => overhead + (8 + 8 + 8)) (UInt16.ofNat n) =
      UInt16.ofNat (n + 24 * ds.length) := by
    induction ds with
    | nil => simp
    | cons d ds ih =>
      intro n
      rw [foldl_cons, show UInt16.ofNat n + (8 + 8 + 8) = UInt16.ofNat (n + 24) by
        rw [UInt16.ofNat_add]; rfl, ih, length_cons]
      congr 1
      omega
  exact hfold 3

theorem imageSize_dimsFields (host : Endian) (d : Dims) :
    imageSize (d.fields host) = 3 + 8 * d.dims.length := by
  have hwords : ∀ xs : List UInt64, imageSize (xs.map fun n => .word (host.u64 n)) =
      8 * xs.length := by
    intro xs
    induction xs with
    | nil => rfl
    | cons x xs ih =>
      rw [map_cons, imageSize_cons, ih, length_cons, Field.raw, Endian.length_u64]
      omega
  rw [Dims.fields, imageSize_cons, imageSize_cons, hwords]
  simp only [Field.raw, length_singleton, Endian.length_u16]
  omega

variable {t : Transform} {host : Endian}

theorem imageSize_transformFields (host : Endian) {uid : List UInt8}
    (huid : transformPluginUid t.transformType = some uid) :
    imageSize (t.fields host) = 7 + uid.length + 8 * t.preTransformDimensions.dims.length +
      t.transformMetadata.length := by
  rw [Transform.fields, huid, imageSize_append, imageSize_append, imageSize_dimsFields]
  simp only [imageSize_cons, imageSize_nil, Field.raw, length_singleton, Endian.length_u16,
    Option.getD_some]
  omega

structure Var.TransformWf (v : Var) : Prop where
  dims : v.preTransformDimensions.length < 256
  defined : v.preTransformType.IsDefined
  metadata : v.transformMetadata.length = v.transformMetadataLen.toNat

variable {m : Machine} {v : Var} {prior : Transform}

theorem copyTransformCharacteristic_wf (m : Machine) (h : v.TransformWf)
    (ht : v.transformType ≠ .unknown) : (copyTransformCharacteristic m v).Wf where
  known := ht
  defined := h.defined
  dims := dereferenceDimensionsCharacteristic_wf m _
  metadata := h.metadata

theorem transformCalcTransformCharacteristicOverhead_eq (m : Machine) (h : v.TransformWf)
    (hnone : v.transformType ≠ .none) (ht : v.transformType ≠ .unknown) :
    transformCalcTransformCharacteristicOverhead v =
      .ok (UInt64.ofNat (1 + imageSize ((copyTransformCharacteristic m v).fields m.host))) := by
  obtain ⟨uid, huid, hlt, hnul⟩ := transformPluginUid_of_known ht
  have hdims : (copyTransformCharacteristic m v).preTransformDimensions.dims.length =
      3 * v.preTransformDimensions.length :=
    (length_dereferenceDimensions m _).trans (by rw [countDimensions_toNat h.dims])
  have hsize : imageSize ((copyTransformCharacteristic m v).fields m.host) =
      7 + uid.length + 8 * (3 * v.preTransformDimensions.length) +
        v.transformMetadataLen.toNat := by
    rw [imageSize_transformFields m.host (t := copyTransformCharacteristic m v) huid, hdims]
    exact congrArg _ h.metadata
  have hoverhead : (UInt16.ofNat (3 + 24 * v.preTransformDimensions.length)).toNat =
      3 + 24 * v.preTransformDimensions.length :=
    UInt16.toNat_ofNat_of_lt' (show _ < 2 ^ 16 by have := h.dims; omega)
  have hmeta := v.transformMetadataLen.toNat_lt
  have hdims := h.dims
  unfold transformCalcTransformCharacteristicOverhead
  rw [if_neg hnone, huid, hsize]
  refine congrArg Except.ok (UInt64.toNat_inj.mp ?_)
  simp only [UInt64.toNat_add, UInt16.toNat_toUInt64, calcVarCharacteristicsDimsOverhead_eq,
    hoverhead, strlen_of_forall hnul, UInt64.toNat_ofNat', UInt64.reduceToNat]
  omega

/-! ## The round trip -/

/-- The transform characteristic of `v` is written with the bytes that were computed for it, and
the decoder reads exactly those behind the flag and gets the transform back, whatever the struct
it reads into held before. -/
def TransformRoundTrip (m : Machine) (v : Var) (prior : Transform) : Prop :=
  ∃ body : List UInt8,
    (∀ buf, serializeTransformCharacteristic m.host (copyTransformCharacteristic m v) buf =
      .ok (buf.write (CharacteristicId.transformType.flag :: body),
        UInt64.ofNat (body.length + 1), 1)) ∧
    transformCalcTransformCharacteristicOverhead v = .ok (UInt64.ofNat (body.length + 1)) ∧
    ∀ junk, Parses (deserializeTransformCharacteristic ⟨m.host, false, junk⟩ prior) body
      (copyTransformCharacteristic m v)

/-- The first byte of an `enum` variable is its value on a little-endian machine, and 0 on a
big-endian one. -/
theorem enumByte_eq_iff {t : Datatype} (h : t.IsDefined) :
    enumByte host t = [t.code] ↔ host = .little ∨ t = .byte := by
  cases host <;> cases t <;> first | (exact absurd h id) | decide

theorem enumByte_big {t : Datatype} (h : t.IsDefined) :
    enumByte .big t = enumByte .big .byte := by
  cases t <;> first | (exact absurd h id) | decide

theorem serializeTransformCharacteristic_congr {t' : Transform} {buf : Buffer}
    (h : t = { t' with preTransformType := t.preTransformType })
    (hbyte : enumByte host t.preTransformType = enumByte host t'.preTransformType) :
    serializeTransformCharacteristic host t buf = serializeTransformCharacteristic host t' buf := by
  obtain ⟨tt, pt, pd, ml, mm⟩ := t
  obtain ⟨tt', pt', pd', ml', mm'⟩ := t'
  cases h
  unfold serializeTransformCharacteristic
  rw [hbyte]

theorem body_unique {body body' : List UInt8} {n n' : UInt64} {buf : Buffer} (h :
      serializeTransformCharacteristic host t buf = .ok (buf.write
      (CharacteristicId.transformType.flag :: body), n, 1)) (h' : serializeTransformCharacteristic
      host t buf = .ok (buf.write (CharacteristicId.transformType.flag :: body'), n', 1)) :
    body = body' := by
  have hbuf := congrArg (fun r => r.1.since buf.offset) (Except.ok.inj (h.symm.trans h'))
  simp only [Buffer.since_write] at hbuf
  exact (List.cons.inj hbuf).2

/-- What the machine writes of a transform: its pre-transform type is the first byte of an `enum`,
which is 0 on a big-endian machine. -/
def Transform.written (host : Endian) (t : Transform) : Transform :=
  match host with
  | .little => t
  | .big => { t with preTransformType := .byte }

theorem Transform.Wf.written (h : t.Wf) (host : Endian) :
    (t.written host).Wf := by
  cases host with
  | little => exact h
  | big => exact ⟨h.known, trivial, h.dims, h.metadata⟩

theorem Transform.Wf.enumByte_written (h : t.Wf) (host : Endian) :
    enumByte host (t.written host).preTransformType = [(t.written host).preTransformType.code] :=
  (enumByte_eq_iff (h.written host).defined).mpr (by
    cases host with
    | little => exact Or.inl rfl
    | big => exact Or.inr rfl)

@[simp] theorem Transform.written_transformType (t : Transform) (host : Endian) :
    (t.written host).transformType = t.transformType := by
  cases host <;> rfl

theorem serializeTransformCharacteristic_written (h : t.Wf) (host : Endian) (buf : Buffer) :
    serializeTransformCharacteristic host t buf =
      serializeTransformCharacteristic host (t.written host) buf := by
  cases host with
  | little => rfl
  | big => exact serializeTransformCharacteristic_congr rfl (enumByte_big h.defined)

theorem TransformRoundTrip.dims_le (h : TransformRoundTrip m v prior)
    (hdims : v.preTransformDimensions.length < 256) : v.preTransformDimensions.length ≤ 85 := by
  obtain ⟨body, -, -, hparse⟩ := h
  have hcount : (copyTransformCharacteristic m v).preTransformDimensions.count.toNat =
      v.preTransformDimensions.length := countDimensions_toNat hdims
  have hread := yields_deserializeTransformCharacteristic ⟨m.host, false, 0⟩ prior _ _ _
    (hparse 0 [])
  simp only [hcount] at hread
  omega

/-- **The transform characteristic** comes back as it was written exactly when there is one, its
dimensions can be counted by the decoder's `uint8_t`, its metadata is not empty or was not there
before, and the first byte of its type is the type. -/
theorem transform_roundTrip_iff (m : Machine) (v : Var) (prior : Transform) (h : v.TransformWf) :
    TransformRoundTrip m v prior ↔
      v.transformType ≠ .none ∧ v.transformType ≠ .unknown ∧
        v.preTransformDimensions.length ≤ 85 ∧
        (v.transformMetadataLen ≠ 0 ∨ prior.transformMetadataLen = 0) ∧
        (m.host = .little ∨ v.preTransformType = .byte) := by
  have hcount : (copyTransformCharacteristic m v).preTransformDimensions.count.toNat =
      v.preTransformDimensions.length := countDimensions_toNat h.dims
  constructor
  · intro hround
    have hle := hround.dims_le h.dims
    obtain ⟨body, hwrite, hcalc, hparse⟩ := hround
    -- nothing is written without a transform, and `unknown` has no id
    have hnone : v.transformType ≠ .none := by
      intro hnone
      have hbuf := hwrite ⟨fun _ => 0, 0⟩
      rw [serializeTransformCharacteristic_none m.host _ h.metadata hnone] at hbuf
      have hzero : (0 : UInt8) = 1 := congrArg (fun r => r.2.2) (Except.ok.inj hbuf)
      exact absurd hzero (by decide)
    have hknown : v.transformType ≠ .unknown := by
      intro hunknown
      rw [transformCalcTransformCharacteristicOverhead, if_neg hnone, hunknown] at hcalc
      cases hcalc
    have hcopy := copyTransformCharacteristic_wf m h hknown
    have hwf := hcopy.written m.host
    have hwritten := serializeTransformCharacteristic_eq m.host hwf
      (by rw [Transform.written_transformType]; exact hnone) (hcopy.enumByte_written m.host)
      ⟨fun _ => 0, 0⟩
    rw [← serializeTransformCharacteristic_written hcopy] at hwritten
    have hbody := body_unique (hwrite ⟨fun _ => 0, 0⟩) hwritten
    have hread := parses_deserializeTransformCharacteristic ⟨m.host, false, 0⟩ hwf
      (by
        rw [← hcount] at hle
        cases m.host <;> exact hle) prior
    have hsame := (hbody ▸ hparse 0).unique hread
    refine ⟨hnone, hknown, hle, ?_, ?_⟩
    swap
    · have htype := congrArg Transform.preTransformType hsame
      cases hhost : m.host with
      | little => exact Or.inl rfl
      | big =>
        rw [hhost] at htype
        exact Or.inr htype
    have hlen : v.transformMetadataLen =
        if v.transformMetadataLen ≠ 0 then v.transformMetadataLen
        else prior.transformMetadataLen := by
      have hlen := congrArg Transform.transformMetadataLen hsame
      cases hhost : m.host <;> rw [hhost] at hlen <;> exact hlen
    by_cases hz : v.transformMetadataLen = 0
    · rw [if_neg (by simpa using hz)] at hlen
      exact Or.inr (hlen.symm.trans hz)
    · exact Or.inl hz
  · rintro ⟨hnone, hknown, hle, hmeta, hbyte⟩
    have hwf := copyTransformCharacteristic_wf m h hknown
    have hlen : (render false ((copyTransformCharacteristic m v).fields m.host)).length + 1 =
        1 + imageSize ((copyTransformCharacteristic m v).fields m.host) := by
      rw [length_render, Nat.add_comm]
    refine ⟨render false ((copyTransformCharacteristic m v).fields m.host), fun buf => ?_, ?_,
      fun junk => ?_⟩
    · rw [hlen]
      exact serializeTransformCharacteristic_eq m.host hwf hnone
        ((enumByte_eq_iff h.defined).mpr hbyte) buf
    · rw [hlen]
      exact transformCalcTransformCharacteristicOverhead_eq m h hnone hknown
    · exact parses_deserializeTransformCharacteristic_self ⟨m.host, false, junk⟩ hwf
        (by rw [hcount]; exact hle) hmeta

/-- An array of `n` dimensions of one element, written with the identity transform. -/
def identityVar (n : Nat) : Var where
  id := 1
  name := ⟨chars "i", by simp [chars]⟩
  path := CString.empty
  type := .byte
  dimensions := [⟨.literal 8, .literal 0, .literal 0⟩]
  isDim := .no
  writeOffset := 0
  data := none
  stats := none
  bitmap := 0
  transformType := .identity
  preTransformType := .double
  preTransformDimensions := List.replicate n ⟨.literal 1, .literal 1, .literal 0⟩
  transformMetadataLen := 0
  transformMetadata := []

def littleMachine : Machine := ⟨.little, fun _ _ => 0⟩

theorem identityVar_transformWf {n : Nat} (h : n < 256) : (identityVar n).TransformWf where
  dims := by simpa [identityVar] using h
  defined := trivial
  metadata := rfl

theorem transform_roundTrip_identityVar : TransformRoundTrip littleMachine (identityVar 3) .zero :=
  (transform_roundTrip_iff littleMachine (identityVar 3) .zero
    (identityVar_transformWf (by decide))).mpr
    ⟨by decide, by decide, by decide, Or.inr rfl, Or.inl rfl⟩

/-- Of 86 dimensions the decoder's counter never reaches the end. -/
theorem not_transform_roundTrip_manyDims :
    ¬TransformRoundTrip littleMachine (identityVar 86) .zero := by
  intro h
  have hle := h.dims_le (by simp [identityVar])
  simp [identityVar] at hle

end Adios
