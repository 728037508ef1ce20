import Adios.Pg.ParseHeader
import Adios.Pg.WriteSpec

/-!
# Adios — the header of a variable, written and read

`adios_write_var_header_v1` and `adios_parse_var_data_header_v1`. A header without characteristics,
which is that of a scalar or a string, is read as it was written, in either byte order, and the
payload is what is left. Of an array the number of dimensions is in its characteristics, and the
`switch` of the decoder does not store it (`WrittenHeader.roundTrips_iff`).
-/

namespace Adios

open List Wire Wire.Parser

/-! ## What a header says -/

inductive DimensionItem.Stated : DimensionItem → Prop where
  | literal (rank : UInt64) : Stated (.literal rank)
  | var (rank : UInt64) (var : VarRef) (h : var.id ≠ 0) : Stated ⟨rank, some var, none, .no⟩
  | timeIndex (rank : UInt64) : Stated ⟨rank, none, none, .yes⟩

def DimensionItem.stored (d : DimensionItem) : DimensionItemV1 :=
  match d.var with
  | some var => { rank := 0, varId := var.id, timeIndex := .no }
  | none =>
    if d.timeIndex = .yes then { rank := 0, varId := 0, timeIndex := .yes }
    else { rank := d.rank, varId := 0, timeIndex := .no }

structure Dimension.Stated (d : Dimension) : Prop where
  dimension : d.dimension.Stated
  globalDimension : d.globalDimension.Stated
  localOffset : d.localOffset.Stated

def Dimension.stored (d : Dimension) : DimensionV1 where
  dimension := d.dimension.stored
  globalDimension := d.globalDimension.stored
  localOffset := d.localOffset.stored

def Var.storedCharacteristic (m : Machine) (v : Var) (prior : IndexCharacteristic) :
    IndexCharacteristic :=
  if v.IsArray then
    { prior.initHeader with
      dims := v.dims m
      bitmap := v.bitmap
      stats := some (v.statSets.map padStats)
      transform := if v.transformType = .none then initTransformCharacteristic
        else copyTransformCharacteristic m v }
  else prior.initHeader

def Var.storedHeader (m : Machine) (v : Var) (prior : IndexCharacteristic) (payload : Nat) :
    VarHeader where
  id := v.id
  name := v.name
  path := v.path
  type := v.type
  isDim := v.isDim
  dims := v.dimensions.map Dimension.stored
  characteristics := v.storedCharacteristic m prior
  payloadSize := UInt64.ofNat payload

/-! ## The image -/

def Var.headerFields (m : Machine) (v : Var) (totalSize : UInt64) (setLength : UInt32) :
    List Field :=
  [.word (m.host.u64 totalSize)] ++ v.identityFields m
    ++ [.text [UInt8.ofNat (v.items m).length], .word (m.host.u32 setLength)] ++ v.bodyFields m

theorem render_headerFields (m : Machine) (v : Var) (totalSize : UInt64) (setLength : UInt32) :
    render false (v.headerFields m totalSize setLength) = headerImage m v totalSize setLength := by
  simp [Var.headerFields, headerImage, charsImage, Field.render]

@[simp] theorem length_render_headerFields (m : Machine) (v : Var) (totalSize : UInt64)
    (setLength : UInt32) (swap : Bool) :
    (render swap (v.headerFields m totalSize setLength)).length = headerBytes m v := by
  rw [length_render, ← length_headerImage m v totalSize setLength, ← render_headerFields,
    length_render]

/-- A variable whose header `adios_write_var_header_v1` has put into the buffer of a file. -/
structure WrittenHeader where
  m : Machine
  v : Var
  fd : File
  wf : v.Wf
  name : v.name.val.length < 2 ^ 16
  path : v.path.val.length < 2 ^ 16
  isDim : v.isDim ≠ .unknown
  stated : ∀ d ∈ v.dimensions, d.Stated
  totalSize : UInt64
  placed : Var
  written : File
  wrote : writeVarHeaderV1 m v fd = .ok (totalSize, placed, written)

namespace WrittenHeader

/-- The image of the header and the bytes of a payload behind it are read, in the byte order of the
machine and swapped field by field, as the variable's header, and the payload is left. -/
def RoundTrips (w : WrittenHeader) : Prop :=
  ∃ setLength,
    w.written.buf = w.fd.buf.write (render false (w.v.headerFields w.m w.totalSize setLength)) ∧
    ∀ (changeEndianness : Bool) (junk : UInt64) (prior : IndexCharacteristic)
      (payload : List UInt8), payload.length = (getVarSize w.m w.v w.v.data).toNat →
      parseVarDataHeaderV1 ⟨w.m.host, changeEndianness, junk⟩ prior
          (render changeEndianness (w.v.headerFields w.m w.totalSize setLength) ++ payload) =
        .ok (w.v.storedHeader w.m prior payload.length, payload)

end WrittenHeader

theorem DimensionItem.Stated.parses (env : ReadEnv) {d : DimensionItem} (h : d.Stated) :
    Parses (parseDimensionItem env) (render env.changeEndianness (d.fields env.host)) d.stored := by
  have hflag : ∀ (flag : List UInt8) (f : Field) (b : UInt8), flag = [b] →
      render env.changeEndianness [.text flag, f] = [b] ++ f.render env.changeEndianness := by
    intro flag f b hb
    simp [hb, Field.render]
  cases h with
  | literal rank =>
    rw [show (DimensionItem.literal rank).fields env.host =
      [.text (chars "n"), .word (env.host.u64 rank)] from rfl, hflag (chars "n") _ 110 rfl]
    exact (parses_readU8 110).bind ((parses_readU64 env rank).bind_pure rfl)
  | var rank var hid =>
    rw [show (DimensionItem.mk rank (some var) none .no).fields env.host =
      [.text (chars "y"), .word (env.host.u32 var.id)] from rfl, hflag (chars "y") _ 121 rfl]
    refine (parses_readU8 121).bind ((parses_readU32 env var.id).bind_pure ?_)
    rw [if_neg hid]
    rfl
  | timeIndex rank =>
    rw [show (DimensionItem.mk rank none none .yes).fields env.host =
      [.text (chars "y"), .word (env.host.u32 0)] from rfl, hflag (chars "y") _ 121 rfl]
    exact (parses_readU8 121).bind ((parses_readU32 env 0).bind_pure rfl)

theorem Dimension.Stated.parses (env : ReadEnv) {d : Dimension} (h : d.Stated) :
    Parses (parseDimension env) (render env.changeEndianness (d.fields env.host)) d.stored := by
  rw [Dimension.fields, render_append, render_append, append_assoc]
  exact (h.dimension.parses env).bind ((h.globalDimension.parses env).bind
    ((h.localOffset.parses env).bind_pure rfl))

/-- **The dimensions** that a `uint8_t` can count. -/
theorem parses_parseDimensions (env : ReadEnv) {ds : List Dimension} (hlen : ds.length < 256)
    (h : ∀ d ∈ ds, d.Stated) :
    Parses (parseDimensions env) (render env.changeEndianness (dimensionsFields env.host ds))
      (ds.map Dimension.stored) := by
  have hloop := Parses.loop_append (fun _ => parseDimension env)
    (fun d => render env.changeEndianness (Dimension.fields env.host d)) Dimension.stored id ds
    fun pre d post hds => (h d (by simp [hds])).parses env
  rw [← countDimensions_toNat hlen] at hloop
  rw [dimensionsFields, render_cons, render_cons, render_flatMap]
  exact (parses_readU8 _).bind ((parses_readU16 env _).bind hloop)

/-! ## Reading a header without characteristics -/

theorem parses_parseCharacteristics_nil (env : ReadEnv) (type : Datatype)
    (prior : IndexCharacteristic) (setLength : UInt32) :
    Parses (parseCharacteristics env type prior)
      (render env.changeEndianness [.text [0], .word (env.host.u32 setLength)])
      prior.initHeader := by
  rw [render_cons, render_cons]
  exact (parses_readU8 0).bind ((parses_readU32 env setLength).bind
    (Parses.pure prior.initHeader))

variable {m : Machine} {v : Var}

/-- Reading what `adios_write_var_header_v1` writes of a scalar or a string; the size of the payload
is still that of the whole. -/
theorem parses_parseVarHeader (changeEndianness : Bool) (junk : UInt64)
    (prior : IndexCharacteristic) (totalSize : UInt64) (setLength : UInt32)
    (harray : ¬v.IsArray) (hdefined : v.type.IsDefined) (hname : v.name.val.length < 2 ^ 16)
    (hpath : v.path.val.length < 2 ^ 16) (hisDim : v.isDim ≠ .unknown)
    (hlen : v.dimensions.length < 256) (hstated : ∀ d ∈ v.dimensions, d.Stated) :
    Parses (parseVarHeader ⟨m.host, changeEndianness, junk⟩ prior)
      (render changeEndianness (v.headerFields m totalSize setLength))
      { v.storedHeader m prior 0 with payloadSize := totalSize } := by
  let env : ReadEnv := ⟨m.host, changeEndianness, junk⟩
  have hitems : v.items m = [] := if_neg harray
  obtain ⟨flag, hflag, hread⟩ : ∃ flag : UInt8,
      (if v.isDim = .yes then chars "y" else chars "n") = [flag] ∧
        (if [flag] = chars "y" then Flag.yes else Flag.no) = v.isDim := by
    cases hv : v.isDim with
    | unknown => exact absurd hv hisDim
    | yes => exact ⟨121, rfl, rfl⟩
    | no => exact ⟨110, rfl, rfl⟩
  have himage : render changeEndianness (v.headerFields m totalSize setLength) =
      (Field.word (m.host.u64 totalSize)).render changeEndianness ++
        ((Field.word (m.host.u32 v.id)).render changeEndianness ++
        (render changeEndianness (stringFields m.host v.name) ++
        (render changeEndianness (stringFields m.host v.path) ++
        ([v.type.code] ++ ([flag] ++
        (render changeEndianness (dimensionsFields m.host v.dimensions) ++
          render changeEndianness [.text [0], .word (m.host.u32 setLength)])))))) := by
    simp [Var.headerFields, Var.identityFields, Var.bodyFields, hitems, hflag,
      shortStringFields_eq m.host hname, shortStringFields_eq m.host hpath, Field.render]
  rw [himage]
  refine (parses_readU64 env totalSize).bind ((parses_readU32 env v.id).bind
    ((parses_readLengthString env v.name hname).bind
    ((parses_readLengthString env v.path hpath).bind
    ((parses_readU8 v.type.code).bind ((parses_readU8 flag).bind
    ((parses_parseDimensions env hlen hstated).bind ?_))))))
  refine (parses_parseCharacteristics_nil env _ prior setLength).bind_pure ?_
  rw [Datatype.ofCode_code hdefined, hread, Var.storedHeader, Var.storedCharacteristic,
    if_neg harray]

theorem parses_parseVarDataHeaderV1 {changeEndianness : Bool} {junk : UInt64}
    {prior : IndexCharacteristic} {totalSize payload : UInt64} {setLength : UInt32}
    (htotal : totalSize = UInt64.ofNat (headerBytes m v) + payload)
    (h : Parses (parseVarHeader ⟨m.host, changeEndianness, junk⟩ prior)
      (render changeEndianness (v.headerFields m totalSize setLength))
      { v.storedHeader m prior 0 with payloadSize := totalSize }) :
    Parses (parseVarDataHeaderV1 ⟨m.host, changeEndianness, junk⟩ prior)
      (render changeEndianness (v.headerFields m totalSize setLength))
      (v.storedHeader m prior payload.toNat) := by
  have h23 : 23 ≤ headerBytes m v := by
    rw [headerBytes, imageSize_identityFields, dimensionsFields, imageSize_cons, imageSize_cons]
    simp only [Field.raw, length_singleton, Endian.length_u16]
    omega
  refine Parses.remaining fun n hn => ?_
  rw [length_render_headerFields] at hn
  refine Parses.bind_nil (Parses.require _ (Nat.le_trans h23 hn)) (h.measured.bind_pure ?_)
  have hpayload : totalSize - UInt64.ofNat (headerBytes m v) = UInt64.ofNat payload.toNat := by
    rw [htotal, UInt64.ofNat_toNat, UInt64.add_comm, UInt64.add_sub_cancel]
  rw [length_render_headerFields]
  exact congrArg (fun size => ({ v.storedHeader m prior 0 with payloadSize := size } : VarHeader))
    hpayload

theorem imageSize_dimensionsFields_le (host : Endian) (ds : List Dimension) :
    imageSize (dimensionsFields host ds) ≤ 3 + 27 * ds.length := by
  have hitem : ∀ d : DimensionItem, imageSize (d.fields host) ≤ 9 := by
    intro d
    rw [imageSize_itemFields]
    split_ifs <;> omega
  have hsum : imageSize (ds.flatMap (Dimension.fields host)) ≤ 27 * ds.length := by
    induction ds with
    | nil => exact Nat.le_refl 0
    | cons d ds ih =>
      have h1 := hitem d.dimension
      have h2 := hitem d.globalDimension
      have h3 := hitem d.localOffset
      rw [flatMap_cons, imageSize_append, Dimension.fields, imageSize_append,
        imageSize_append, length_cons]
      omega
  rw [dimensionsFields, imageSize_cons, imageSize_cons]
  simp only [Field.raw, length_singleton, Endian.length_u16]
  omega

theorem headerPartsFit_of_not_isArray (m : Machine) (harray : ¬v.IsArray)
    (hlen : v.dimensions.length < 256) : HeaderPartsFit m v where
  dimensions := by
    have hle := imageSize_dimensionsFields_le m.host v.dimensions
    omega
  characteristics := by
    have hnil : v.bodyFields m = [] := by rw [Var.bodyFields, Var.items, if_neg harray]; rfl
    rw [hnil]
    decide
  dims := by
    rw [imageSize_dimsFields, Var.dims, length_flatMap_values]
    omega

/-! ## Which headers come back -/

namespace WrittenHeader

variable {w : WrittenHeader}

theorem RoundTrips.not_isArray (h : w.RoundTrips) :
    ¬w.v.IsArray ∧ w.v.dimensions.length < 256 := by
  obtain ⟨setLength, -, hread⟩ := h
  have hrun := hread false 0 .zero (List.replicate (getVarSize w.m w.v w.v.data).toNat 0) (by simp)
  obtain ⟨hdims, hcount⟩ := yields_parseVarDataHeaderV1 _ _ _ _ _ hrun
  have hlen : w.v.dimensions.length < 256 := by simpa [Var.storedHeader] using hdims
  refine ⟨fun harray => ?_, hlen⟩
  have hzero : countDimensions w.v.dimensions = 0 := by
    simpa [Var.storedHeader, Var.storedCharacteristic, harray, Var.dims] using hcount
  have hnil : w.v.dimensions.length = 0 := by rw [← countDimensions_toNat hlen, hzero]; rfl
  exact harray.2 (length_eq_zero_iff.mp hnil)

theorem roundTrips_of_not_isArray (harray : ¬w.v.IsArray) (hlen : w.v.dimensions.length < 256) :
    w.RoundTrips := by
  obtain ⟨totalSize, setLength, hwrote, hsizes⟩ := writeVarHeaderV1_eq w.m w.fd w.wf
    fun h => absurd h harray
  obtain ⟨htotal, -⟩ := hsizes (headerPartsFit_of_not_isArray w.m harray hlen)
  have hresult := Except.ok.inj (w.wrote.symm.trans hwrote)
  obtain ⟨hsize, -, hfile⟩ : w.totalSize = totalSize ∧ w.placed = w.v.placed w.fd ∧
      w.written = w.fd.withHeader w.m w.v totalSize setLength :=
    ⟨(Prod.mk.inj hresult).1, Prod.mk.inj (Prod.mk.inj hresult).2⟩
  refine ⟨setLength, ?_, fun changeEndianness junk prior payload hpayload => ?_⟩
  · rw [hfile, File.withHeader_buf, render_headerFields, hsize]
  · have hheader := parses_parseVarHeader (m := w.m) changeEndianness junk prior w.totalSize
      setLength harray w.wf.defined w.name w.path w.isDim hlen w.stated
    rw [hpayload]
    exact parses_parseVarDataHeaderV1 (hsize.trans htotal) hheader payload

/-- **A variable's header** is read as it was written exactly when the variable is a scalar or a
string, with at most 255 dimensions. -/
theorem roundTrips_iff (w : WrittenHeader) :
    w.RoundTrips ↔ ¬w.v.IsArray ∧ w.v.dimensions.length < 256 :=
  ⟨RoundTrips.not_isArray, fun h => roundTrips_of_not_isArray h.1 h.2⟩

end WrittenHeader

def octets : Var where
  id := 1
  name := ⟨chars "o", by simp [chars]⟩
  path := CString.empty
  type := .byte
  dimensions := [⟨.literal 8, .literal 0, .literal 0⟩]
  isDim := .no
  writeOffset := 0
  data := none
  stats := none
  bitmap := 0
  transformType := .none
  preTransformType := .unknown
  preTransformDimensions := []
  transformMetadataLen := 0
  transformMetadata := []

/-- The header of an array of eight bytes is written, and not read as it was written. -/
theorem not_roundTrips_octets : ∃ w : WrittenHeader, w.v = octets ∧ ¬w.RoundTrips := by
  have hwf : octets.Wf :=
    { defined := trivial
      known := TransformType.noConfusion
      transformed := fun h => absurd rfl h
      metadata := rfl
      bitmap := by decide
      stats := fun _ _ => ⟨Forall₂.nil, trivial⟩ }
  have harray : octets.IsArray := by decide
  obtain ⟨totalSize, setLength, hwrote, -⟩ := writeVarHeaderV1_eq littleMachine
    ⟨⟨fun _ => 0, 0⟩, 0, 0, 0, 0⟩ hwf fun _ => Var.histsSmall_of_bitmap rfl
  refine ⟨{ m := littleMachine, v := octets, fd := _, wf := hwf, name := by decide,
            path := by decide, isDim := Flag.noConfusion, stated := ?_, totalSize := totalSize,
            placed := _, written := _, wrote := hwrote }, rfl, fun h => h.not_isArray.1 harray⟩
  intro d hd
  rw [mem_singleton.mp hd]
  exact ⟨.literal 8, .literal 0, .literal 0⟩

end Adios
