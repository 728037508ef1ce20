import Adios.Pg.VarLayout

/-!
# Adios — runs of writes

An open file and the writes to it, one after the other (`WriteRun`), with the list of the variables
whose payload was written (`Completed`). A write step puts a header of the size that is computed in
advance and the payload behind what is there, or leaves what is there as it is.
-/

namespace Adios

open List Wire UInt64

/-! ## Where things are -/

namespace FileState

def written (s : FileState) : Buffer := if s.sharedBuffer then s.fd.buf else s.out

def fileStart (s : FileState) : UInt64 :=
  s.fd.baseOffset + UInt64.ofNat s.fd.buf.offset - UInt64.ofNat s.written.offset

def position (s : FileState) : UInt64 := UInt64.ofNat s.fd.buf.offset + s.fd.baseOffset

/-- What the plugin does with the variable. With the buffer, the space for the header is left
free. -/
def applied (lib : Writer) (s : FileState) (w : Var) : TransformApplied :=
  lib.transformApply s.sharedBuffer w
    (if s.sharedBuffer then s.fd.seek (s.fd.buf.offset + overheadOf w) else s.fd)

/-- The payload of the variable: the data of the user, or what a transform makes of them, if it
does not fail. -/
def payload (lib : Writer) (s : FileState) (w : Var) : Option (List UInt8) :=
  if w.transformType = .none then
    some ((w.data.getD []).take (getVarSize lib.machine w w.data).toNat)
  else
    match (s.applied lib w).result with
    | .failed _ => none
    | .shared payload | .own payload => some payload

end FileState

/-! ## Files with a header and a payload more -/

/-- Behind what was written there are the header of `w`, of the size computed for it, and the
payload. `v` is the variable as it was written. -/
structure Delivered (s : FileState) (w v : Var) (payload : List UInt8) (fd : File) (out : Buffer) :
    Prop where
  layout : v.layout = w.layout
  path : v.path = w.path
  place : v.writeOffset = s.position
  written : ∃ header n, calcVarOverheadV1 w = .ok n ∧ header.length = n.toNat ∧
    { s with fd := fd, out := out }.written = s.written.write (header ++ payload)
  fileStart : { s with fd := fd, out := out }.fileStart = s.fileStart
  idle : s.sharedBuffer = false → fd.buf.offset = 0 ∧ fd.bytesWritten = 0

theorem writeVarHeaderV1_inv {m : Machine} {w v : Var} {fd fd' : File} {size : UInt64} (hw : w.Wf)
    (h : writeVarHeaderV1 m w fd = .ok (size, v, fd')) :
    v = w.placed fd ∧ fd'.baseOffset = fd.baseOffset ∧
      fd'.bytesWritten = max fd.bytesWritten fd'.buf.offset ∧
      ∃ header, header.length = headerBytes m w ∧ fd'.buf = fd.buf.write header := by
  obtain ⟨totalSize, setLength, hrun, -⟩ := writeVarHeaderV1_eq m fd hw
    (histsSmall_of_writeVarHeaderV1 hw h)
  cases h.symm.trans hrun
  exact ⟨rfl, rfl, rfl, _, length_headerImage m w size setLength, rfl⟩

theorem OverheadFits.overhead {m : Machine} {w : Var} (hw : w.Wf) (h : OverheadFits m w w.path) :
    ∃ n, calcVarOverheadV1 w = .ok n ∧ n.toNat = headerBytes m w := by
  refine ⟨_, calcVarOverheadV1_eq hw, ?_⟩
  obtain ⟨hmod, -⟩ := (headerBytes_mod_iff m hw).mpr ⟨h.header, h.original, h.balance⟩
  have hlt := h.header
  rw [UInt16.toNat_ofNat']
  omega

theorem writeVarPayloadV1_inv {m : Machine} {v : Var} {fd fd' : File}
    (h : writeVarPayloadV1 m v fd = .ok fd') :
    fd'.baseOffset = fd.baseOffset ∧
      fd'.buf = fd.buf.write ((v.data.getD []).take (getVarSize m v v.data).toNat) := by
  unfold writeVarPayloadV1 at h
  obtain ⟨data, hdata, h⟩ := exists_of_bind_eq_ok h
  cases h
  obtain ⟨-, rfl⟩ := memRead_eq_ok_iff.mp hdata
  exact ⟨rfl, rfl⟩

/-! ## Transformed variables -/

def Var.transformedTo (w : Var) (metadata payload : List UInt8) : Var :=
  { w.withMetadata metadata with
    dimensions := w.dimensions.map fun d =>
      { d with dimension := { d.dimension with rank := UInt64.ofNat payload.length } }
    data := some payload }

section Transformed

variable {w : Var} {metadata payload : List UInt8}

theorem layout_transformedTo (w : Var) (metadata payload : List UInt8) :
    (w.transformedTo metadata payload).layout = w.layout := by
  rw [← layout_withMetadata w metadata]
  unfold Var.transformedTo Var.layout originalTypeVar
  simp only [map_map]
  rfl

theorem dimensions_of_transformed (hl : w.layout.Wf) (ht : w.transformType ≠ .none) :
    ∃ d : Dimension, w.dimensions = [d] ∧ d.dimension.isLiteral = true ∧
      d.globalDimension.isLiteral = true ∧ d.localOffset.isLiteral = true := by
  obtain ⟨-, hdims, -⟩ := hl.transformed ht
  obtain ⟨d, hd, hlayout⟩ := map_eq_singleton_iff.mp hdims
  exact ⟨d, hd, congrArg (·.1) hlayout, congrArg (·.2.1) hlayout, congrArg (·.2.2) hlayout⟩

theorem storeTransformedLength_eq (hl : w.layout.Wf) (ht : w.transformType ≠ .none) :
    storeTransformedLength (w.withMetadata metadata) (UInt64.ofNat payload.length) =
      .ok { w.transformedTo metadata payload with data := w.data } := by
  obtain ⟨d, hd, hliteral, -, -⟩ := dimensions_of_transformed hl ht
  have htime : d.dimension.timeIndex ≠ .yes := by
    intro htime
    simp [DimensionItem.isLiteral, htime] at hliteral
  have hdims : (w.withMetadata metadata).dimensions = [d] := hd
  unfold storeTransformedLength
  rw [hdims]
  simp only [if_neg htime, Var.transformedTo, hd, map_singleton]
  rfl

theorem wf_transformedTo (hl : w.layout.Wf) (hw : w.Wf) : (w.transformedTo metadata payload).Wf :=
  VarLayout.Wf.var (layout_transformedTo w metadata payload ▸ hl) fun hstring hdims =>
    hw.stats hstring fun hnil => hdims (by rw [Var.transformedTo, hnil]; rfl)

theorem getVarSize_transformedTo (m : Machine) (hl : w.layout.Wf) (ht : w.transformType ≠ .none) :
    getVarSize m (w.transformedTo metadata payload) (some payload) =
      UInt64.ofNat payload.length := by
  obtain ⟨d, hd, hliteral, -, -⟩ := dimensions_of_transformed hl ht
  obtain ⟨⟨rank, var, attr, time⟩, g, o⟩ := d
  have htype : (w.transformedTo metadata payload).type = .byte := (hl.transformed ht).1
  simp only [DimensionItem.isLiteral, decide_eq_true_eq] at hliteral
  obtain ⟨rfl, rfl, rfl⟩ := hliteral
  unfold getVarSize
  rw [if_neg (by simp [Var.transformedTo, hd]), htype]
  simp [Var.transformedTo, hd, getDimensionSpaceSize, multiplyDimension, getTypeSize]

theorem spaceSizeError_literal {m : Machine} {d : Dimension} (h : d.dimension.isLiteral = true) :
    spaceSizeError m [d] = false := by
  obtain ⟨⟨rank, var, attr, time⟩, g, o⟩ := d
  simp only [DimensionItem.isLiteral, decide_eq_true_eq] at h
  obtain ⟨rfl, rfl, rfl⟩ := h
  simp [spaceSizeError, multiplyDimension]

theorem dimValueError_literal {m : Machine} {d : DimensionItem} (h : d.isLiteral = true) :
    dimValueError m d = false := by
  obtain ⟨rank, var, attr, time⟩ := d
  simp only [DimensionItem.isLiteral, decide_eq_true_eq] at h
  obtain ⟨rfl, rfl, -⟩ := h
  rfl

theorem headerError_transformedTo (m : Machine) (hl : w.layout.Wf) (ht : w.transformType ≠ .none) :
    headerError m (w.transformedTo metadata payload) = headerError m w := by
  obtain ⟨d, hd, hliteral, hg, ho⟩ := dimensions_of_transformed hl ht
  have hliteral' : DimensionItem.isLiteral
      { d.dimension with rank := UInt64.ofNat payload.length } = true := hliteral
  have hone : ∀ (e : Dimension), e.dimension.isLiteral = true →
      e.globalDimension = d.globalDimension → e.localOffset = d.localOffset →
      spaceSizeError m [e] = false ∧ [e].any (Dimension.valueError m) = false := by
    intro e he hge hoe
    refine ⟨spaceSizeError_literal he, ?_⟩
    simp [Dimension.valueError, hge, hoe, dimValueError_literal he, dimValueError_literal hg,
      dimValueError_literal ho]
  obtain ⟨hspace, hvalue⟩ := hone d hliteral rfl rfl
  obtain ⟨hspace', hvalue'⟩ := hone
    { d with dimension := { d.dimension with rank := UInt64.ofNat payload.length } } hliteral'
    rfl rfl
  have hdims' : (w.transformedTo metadata payload).dimensions =
      [{ d with dimension := { d.dimension with rank := UInt64.ofNat payload.length } }] := by
    simp [Var.transformedTo, hd]
  unfold headerError
  rw [hdims', hd, hspace, hspace', hvalue, hvalue']
  rfl

/-- What `adios_transform_variable_data` makes of a plugin's result. -/
def Writer.transformed (lib : Writer) (useSharedBuffer : Bool) (w : Var) (fd : File) :
    Transformed :=
  let a := lib.transformApply useSharedBuffer w fd
  match a.result with
  | .failed scratch => ⟨false, false, a.error, w.withMetadata a.metadata,
      { fd with buf := fd.buf.patch fd.buf.offset scratch }⟩
  | .shared payload => ⟨true, true, a.error, w.transformedTo a.metadata payload,
      { fd with buf := fd.buf.write payload }⟩
  | .own payload => ⟨true, false, a.error, w.transformedTo a.metadata payload, fd⟩

theorem transformVariableData_eq (lib : Writer) (useSharedBuffer : Bool) (fd : File)
    (hl : w.layout.Wf) (ht : w.transformType ≠ .none) :
    transformVariableData lib useSharedBuffer w fd =
      .ok (lib.transformed useSharedBuffer w fd) := by
  have htype : w.type = .byte := (hl.transformed ht).1
  unfold transformVariableData Writer.transformed
  rw [if_neg (not_not_intro htype)]
  cases hresult : (lib.transformApply useSharedBuffer w fd).result with
  | failed scratch => simp only [hresult]
  | shared payload =>
    simp only [hresult, storeTransformedLength_eq hl ht]
    rfl
  | own payload =>
    simp only [hresult, storeTransformedLength_eq hl ht]
    rfl

end Transformed

section Helper

variable {lib : Writer} {w v : Var} {fd fd' : File} {success err : Bool} {n : UInt16}

theorem of_cAssert {c : Prop} [Decidable c] {u : Unit} (h : cAssert c = .ok u) : c := by
  unfold cAssert at h
  split_ifs at h with hc
  exact hc

theorem writeTransformed_inv {t : Transformed} {offset : Nat}
    (h : writeTransformed lib n offset t = .ok (v, fd')) :
    ∃ size fd₁, writeVarHeaderV1 lib.machine t.v (t.fd.seek offset) = .ok (size, v, fd₁) ∧
      fd₁.buf.offset = offset + n.toNat ∧
      if t.wroteToSharedBuffer then fd' = fd₁.seek t.fd.buf.offset
      else writeVarPayloadV1 lib.machine v fd₁ = .ok fd' := by
  unfold writeTransformed at h
  obtain ⟨newSize, -, h⟩ := exists_of_bind_eq_ok h
  obtain ⟨-, -, h⟩ := exists_of_bind_eq_ok h
  obtain ⟨⟨size, v₁, fd₁⟩, hheader, h⟩ := exists_of_bind_eq_ok h
  obtain ⟨_, hoffset, h⟩ := exists_of_bind_eq_ok h
  split_ifs at h with hshared
  · cases h
    exact ⟨size, fd₁, hheader, of_cAssert hoffset, by rw [if_pos hshared]⟩
  · obtain ⟨fd₂, hpayload, h⟩ := exists_of_bind_eq_ok h
    cases h
    exact ⟨size, fd₁, hheader, of_cAssert hoffset, by rwa [if_neg hshared]⟩

theorem transformHelper_failed (hl : w.layout.Wf) (ht : w.transformType ≠ .none)
    (hn : calcVarOverheadV1 w = .ok n) {a : TransformApplied} {scratch : List UInt8}
    (ha : lib.transformApply true w (fd.seek (fd.buf.offset + n.toNat)) = a)
    (hfail : a.result = .failed scratch)
    (h : commonAdiosWriteTransformHelper lib true w fd = .ok (success, err, v, fd')) :
    success = false ∧ err = a.error ∧ v = w.withMetadata a.metadata ∧
      fd' = { fd with buf := fd.buf.patch (fd.buf.offset + n.toNat) scratch } := by
  unfold commonAdiosWriteTransformHelper at h
  simp only [if_true, hn, bind, Except.bind, transformVariableData_eq lib true _ hl ht,
    Writer.transformed, ha, hfail] at h
  cases h
  exact ⟨rfl, rfl, rfl, rfl⟩

theorem header_transformedTo {metadata payload : List UInt8} {fd₀ fd₁ : File} {size : UInt64}
    (hl : w.layout.Wf) (hw : w.Wf)
    (hheader : writeVarHeaderV1 lib.machine (w.transformedTo metadata payload)
      (fd₀.seek fd.buf.offset) = .ok (size, v, fd₁))
    (hoffset : fd₁.buf.offset = fd.buf.offset + n.toNat) (hbase : fd₀.baseOffset = fd.baseOffset) :
    v = (w.transformedTo metadata payload).placed fd ∧ fd₁.baseOffset = fd.baseOffset ∧
      ∃ header, header.length = n.toNat ∧ fd₁.buf = (fd₀.seek fd.buf.offset).buf.write header := by
  obtain ⟨hv, hb, -, header, -, hbuf⟩ := writeVarHeaderV1_inv (wf_transformedTo hl hw) hheader
  rw [hbuf] at hoffset
  refine ⟨hv.trans ?_, hb.trans hbase, header, Nat.add_left_cancel hoffset, hbuf⟩
  show { w.transformedTo metadata payload with
    writeOffset := UInt64.ofNat fd.buf.offset + fd₀.baseOffset } = _
  rw [hbase]
  rfl

theorem transformHelper_payload (hl : w.layout.Wf) (hw : w.Wf) (ht : w.transformType ≠ .none)
    (hn : calcVarOverheadV1 w = .ok n) {a : TransformApplied} {payload : List UInt8}
    (ha : lib.transformApply true w (fd.seek (fd.buf.offset + n.toNat)) = a)
    (hpayload : a.result = .shared payload ∨ a.result = .own payload)
    (hsize : payload.length < 2 ^ 64)
    (h : commonAdiosWriteTransformHelper lib true w fd = .ok (success, err, v, fd')) :
    success = true ∧ err = (a.error || headerError lib.machine w) ∧
      v = (w.transformedTo a.metadata payload).placed fd ∧ fd'.baseOffset = fd.baseOffset ∧
      ∃ header, header.length = n.toNat ∧ fd'.buf = fd.buf.write (header ++ payload) := by
  have herror : ∀ fd : File, headerError lib.machine
      ((w.transformedTo a.metadata payload).placed fd) = headerError lib.machine w := by
    intro fd
    show headerError lib.machine (w.transformedTo a.metadata payload) = _
    exact headerError_transformedTo lib.machine hl ht
  unfold commonAdiosWriteTransformHelper at h
  simp only [if_true, hn, bind, Except.bind, transformVariableData_eq lib true _ hl ht,
    Writer.transformed, ha] at h
  rcases hpayload with hshared | hown
  · simp only [hshared, if_true] at h
    obtain ⟨⟨v₁, fd₁⟩, hwritten, h⟩ := exists_of_bind_eq_ok h
    cases h
    obtain ⟨size, fd₂, hheader, hoffset, hrest⟩ := writeTransformed_inv hwritten
    obtain ⟨hv, hb, header, hlen, hbuf⟩ := header_transformedTo hl hw hheader hoffset rfl
    simp only [if_true] at hrest
    subst hrest
    refine ⟨rfl, by rw [hv, herror], hv, hb, header, hlen, ?_⟩
    show Buffer.mk fd₂.buf.mem (fd.buf.offset + n.toNat + payload.length) = _
    rw [hbuf]
    show Buffer.mk ((fd.buf.mem.write (fd.buf.offset + n.toNat) payload).write fd.buf.offset header)
      _ = Buffer.mk _ _
    rw [← hlen, Mem.write_backpatch, length_append, Nat.add_assoc]
  · simp only [hown, if_true] at h
    obtain ⟨⟨v₁, fd₁⟩, hwritten, h⟩ := exists_of_bind_eq_ok h
    cases h
    obtain ⟨size, fd₂, hheader, hoffset, hrest⟩ := writeTransformed_inv hwritten
    obtain ⟨hv, hb, header, hlen, hbuf⟩ := header_transformedTo hl hw hheader hoffset rfl
    rw [if_neg (by simp)] at hrest
    obtain ⟨hb', hbuf'⟩ := writeVarPayloadV1_inv hrest
    have hsize' : (getVarSize lib.machine v₁ v₁.data).toNat = payload.length := by
      rw [hv]
      show (getVarSize lib.machine (w.transformedTo a.metadata payload) (some payload)).toNat = _
      rw [getVarSize_transformedTo lib.machine hl ht, toNat_ofNat_of_lt' hsize]
    have hdata : v₁.data.getD [] = payload := by rw [hv]; rfl
    refine ⟨rfl, by rw [hv, herror], hv, hb'.trans hb, header, hlen, ?_⟩
    rw [hbuf', hbuf, hsize', hdata, take_length]
    exact Buffer.write_write _ _ _

end Helper

theorem lastCount_eq {status n : Nat} (h : 0 < n) (hle : n ≤ maxMpiWriteSize) :
    lastCount status n = n := by
  unfold lastCount
  rw [if_neg (by omega), Nat.mod_eq_of_lt (by omega)]
  omega

theorem adiosMpiWrite_inv {m : Machine} {w v : Var} {fd fd' : File} {out out' : Buffer}
    {payload : List UInt8} (hw : w.Wf) (hidle : fd.buf.offset = 0 ∧ fd.bytesWritten = 0)
    (hheader : headerBytes m w < 2 ^ 16)
    (hpayload : payload = (w.data.getD []).take (getVarSize m w w.data).toNat)
    (hpos : 0 < payload.length) (hmax : payload.length ≤ maxMpiWriteSize)
    (h : adiosMpiWrite m w fd out = .ok (v, fd', out')) :
    v = w.placed fd ∧ (fd'.buf.offset = 0 ∧ fd'.bytesWritten = 0) ∧
      fd'.baseOffset = fd.baseOffset + UInt64.ofNat (headerBytes m w + payload.length) ∧
      ∃ header, header.length = headerBytes m w ∧ out' = out.write (header ++ payload) := by
  obtain ⟨hoffset, hbytes⟩ := hidle
  unfold adiosMpiWrite at h
  obtain ⟨⟨size, v₁, fd₁⟩, hrun, h⟩ := exists_of_bind_eq_ok h
  obtain ⟨data, hdata, h⟩ := exists_of_bind_eq_ok h
  cases h
  obtain ⟨hv, hbase, hmark, header, hlen, hbuf⟩ := writeVarHeaderV1_inv hw hrun
  obtain ⟨-, hdata⟩ := memRead_eq_ok_iff.mp hdata
  have hp : data = payload := by
    rw [← hdata, hpayload, hv]
    rfl
  have hwritten : fd₁.bytesWritten = header.length := by
    rw [hmark, hbuf, hbytes, Buffer.write_offset, hoffset]
    omega
  have hread : fd₁.buf.mem.read 0 fd₁.bytesWritten = header := by
    rw [hwritten, hbuf]
    show (fd.buf.mem.write fd.buf.offset header).read 0 header.length = header
    rw [hoffset, Mem.read_write]
  have hge : 0 < headerBytes m w := by
    rw [headerBytes_eq]
    omega
  have hle : headerBytes m w ≤ maxMpiWriteSize := by
    unfold maxMpiWriteSize
    omega
  refine ⟨hv, ⟨rfl, rfl⟩, ?_, header, hlen, ?_⟩
  · show fd₁.baseOffset + UInt64.ofNat (lastCount 0 (fd₁.buf.mem.read 0 fd₁.bytesWritten).length) +
      UInt64.ofNat (lastCount _ data.length) = _
    rw [hread, hp, lastCount_eq hpos hmax, hlen, lastCount_eq hge hle, hbase, UInt64.add_assoc,
      ofNat_add]
  · rw [hread, hp, Buffer.write_write]

/-! ## Steps -/

namespace FileState

/-- A write that fails leaves no trace: its header was only reserved in a buffer, and where it
would be copied for the index `adios_errno` is set. -/
structure FailsCleanly (lib : Writer) (s : FileState) (w : Var) : Prop where
  buffer : s.sharedBuffer = true
  reported : s.mode = .write ∨ s.mode = .append → statSizeError lib.machine w = true ∨
    (s.applied lib w).error = true ∨ lib.methodError s w = true

/-- The header of a write that does not fail has the size computed for it, and the size of what a
transform makes can be stored. Without a buffer the MPI method writes it, in one piece. -/
structure DeliversWrite (lib : Writer) (s : FileState) (w : Var) (payload : List UInt8) : Prop where
  original : w.IsArray → originalTypeVar w ≠ .string
  header : s.sharedBuffer = false ∨ w.transformType = .none → OverheadFits lib.machine w w.path
  size : payload.length < 2 ^ 64
  method : s.sharedBuffer = false → lib.methodWrite = adiosMpiWrite lib.machine ∧
    0 < payload.length ∧ payload.length ≤ maxMpiWriteSize

/-- A write that does not fail is completed: it is one of those that are indexed, and sets no
`adios_errno`. -/
structure CompletesWrite (lib : Writer) (s : FileState) (w : Var) (payload : List UInt8) : Prop
    extends DeliversWrite lib s w payload where
  mode : s.mode = .write ∨ s.mode = .append
  statSize : statSizeError lib.machine w = false
  headerValues : s.sharedBuffer = true → headerError lib.machine w = false
  plugin : w.transformType ≠ .none → (s.applied lib w).error = false
  methods : lib.methodError s w = false
  place : s.position ≠ 0

/-- The write of `w` fails cleanly or is completed. -/
structure WriteOk (lib : Writer) (s : FileState) (w : Var) : Prop where
  fails : s.payload lib w = none → s.FailsCleanly lib w
  completes : ∀ payload, s.payload lib w = some payload → s.CompletesWrite lib w payload

end FileState

section Steps

variable {lib : Writer} {s : FileState} {v w : Var} {wrote : Wrote}

theorem commonAdiosWrite_failed (hl : w.layout.Wf)
    (hgen : generateVarCharacteristicsV1 lib v = .ok w)
    (hfail : s.payload lib w = none) (hbuffer : s.sharedBuffer = true)
    (h : commonAdiosWrite lib v s = .ok wrote) :
    wrote.success = false ∧ wrote.error = (statSizeError lib.machine w ||
        (s.applied lib w).error || lib.methodError s w) ∧
      wrote.v = w.withMetadata (s.applied lib w).metadata ∧ wrote.out = s.out ∧
      ∃ start scratch, s.fd.buf.offset ≤ start ∧
        wrote.fd = { s.fd with buf := s.fd.buf.patch start scratch } := by
  have ht : w.transformType ≠ .none := by
    intro ht
    rw [FileState.payload, if_pos ht] at hfail
    cases hfail
  rw [FileState.payload, if_neg ht] at hfail
  unfold commonAdiosWrite at h
  obtain ⟨w', hgen', h⟩ := exists_of_bind_eq_ok h
  cases hgen.symm.trans hgen'
  obtain ⟨⟨success, err, v₁, fd₁⟩, hbuf, h⟩ := exists_of_bind_eq_ok h
  rw [hbuffer] at hbuf h
  cases h
  unfold writeToBuffer at hbuf
  rw [if_neg ht] at hbuf
  have hn : ∃ n, calcVarOverheadV1 w = .ok n := by
    unfold commonAdiosWriteTransformHelper at hbuf
    rw [if_pos rfl] at hbuf
    obtain ⟨n, hn, -⟩ := exists_of_bind_eq_ok hbuf
    exact ⟨n, hn⟩
  obtain ⟨n, hn⟩ := hn
  have ha : lib.transformApply true w (s.fd.seek (s.fd.buf.offset + n.toNat)) =
    s.applied lib w := by
    simp only [FileState.applied, hbuffer, overheadOf_eq hn, if_true]
  cases hresult : (s.applied lib w).result with
  | failed scratch =>
    obtain ⟨rfl, rfl, rfl, rfl⟩ := transformHelper_failed hl ht hn ha hresult hbuf
    exact ⟨rfl, rfl, rfl, rfl, _, _, Nat.le_add_right _ _, rfl⟩
  | shared payload => rw [hresult] at hfail; cases hfail
  | own payload => rw [hresult] at hfail; cases hfail

theorem Delivered.of_buffer {payload header : List UInt8} {fd : File} {n : UInt16}
    (hbuffer : s.sharedBuffer = true) (hlayout : v.layout = w.layout) (hpath : v.path = w.path)
    (hplace : v.writeOffset = s.position) (hn : calcVarOverheadV1 w = .ok n)
    (hlen : header.length = n.toNat) (hbase : fd.baseOffset = s.fd.baseOffset)
    (hbuf : fd.buf = s.fd.buf.write (header ++ payload)) :
    Delivered s w v payload fd s.out where
  layout := hlayout
  path := hpath
  place := hplace
  written := by
    refine ⟨header, n, hn, hlen, ?_⟩
    simp only [FileState.written, hbuffer, if_true, hbuf]
  fileStart := by
    simp only [FileState.fileStart, FileState.written, hbuffer, if_true, hbase]
    grind
  idle := by simp [hbuffer]

theorem Delivered.of_method {payload header : List UInt8} {fd : File} {out : Buffer} {n : UInt16}
    (hbuffer : s.sharedBuffer = false) (hlayout : v.layout = w.layout) (hpath : v.path = w.path)
    (hplace : v.writeOffset = s.position) (hn : calcVarOverheadV1 w = .ok n)
    (hlen : header.length = n.toNat) (hidle : s.fd.buf.offset = 0)
    (hidle' : fd.buf.offset = 0 ∧ fd.bytesWritten = 0)
    (hbase : fd.baseOffset = s.fd.baseOffset + UInt64.ofNat (n.toNat + payload.length))
    (hout : out = s.out.write (header ++ payload)) : Delivered s w v payload fd out where
  layout := hlayout
  path := hpath
  place := hplace
  written := by
    refine ⟨header, n, hn, hlen, ?_⟩
    simp [FileState.written, hbuffer, hout]
  fileStart := by
    have hsum : ∀ b x o : UInt64, b + x + UInt64.ofNat 0 - (o + x) = b + UInt64.ofNat 0 - o := by
      intro b x o
      show b + x + 0 - (o + x) = b + 0 - o
      grind
    simp only [FileState.fileStart, FileState.written, hbuffer, hout, hbase, hidle, hidle'.1,
      Buffer.write_offset, length_append, hlen, Bool.false_eq_true, if_false]
    rw [ofNat_add s.out.offset, hsum]
  idle := fun _ => hidle'

theorem FileState.result_of_payload (ht : w.transformType ≠ .none) {payload : List UInt8}
    (h : s.payload lib w = some payload) :
    (s.applied lib w).result = .shared payload ∨ (s.applied lib w).result = .own payload := by
  unfold FileState.payload at h
  rw [if_neg ht] at h
  cases hr : (s.applied lib w).result with
  | failed scratch => rw [hr] at h; cases h
  | shared p => rw [hr] at h; cases h; exact Or.inl rfl
  | own p => rw [hr] at h; cases h; exact Or.inr rfl

section Delivery

variable {payload : List UInt8} {success err : Bool} {v₁ v₂ : Var} {fd₁ fd₂ : File} {out₂ : Buffer}

theorem delivered_plain_buffer (hw : w.Wf) (hbuffer : s.sharedBuffer = true)
    (ht : w.transformType = .none) (hpayload : s.payload lib w = some payload)
    (hok : s.DeliversWrite lib w payload)
    (h : writeToBuffer lib true w s.fd = .ok (success, err, v₁, fd₁)) :
    success = true ∧ Delivered s w v₁ payload fd₁ s.out ∧
      (s.CompletesWrite lib w payload → err = false) := by
  unfold FileState.payload at hpayload
  unfold writeToBuffer at h
  simp only [ht, if_true] at h hpayload
  cases hpayload
  obtain ⟨⟨size, v₃, fd₃⟩, hheader, h⟩ := exists_of_bind_eq_ok h
  obtain ⟨fd₄, hdata, h⟩ := exists_of_bind_eq_ok h
  cases h
  obtain ⟨rfl, hbase, -, header, hlen, hbuf⟩ := writeVarHeaderV1_inv hw hheader
  obtain ⟨hbase', hbuf'⟩ := writeVarPayloadV1_inv hdata
  obtain ⟨n, hn, hnlen⟩ := (hok.header (Or.inr ht)).overhead hw
  refine ⟨rfl, Delivered.of_buffer hbuffer rfl rfl rfl hn (hlen.trans hnlen.symm)
    (hbase'.trans hbase) ?_, fun hc => hc.headerValues hbuffer⟩
  rw [hbuf', hbuf, Buffer.write_write]
  rfl

theorem delivered_transformed_buffer (hl : w.layout.Wf) (hw : w.Wf)
    (hbuffer : s.sharedBuffer = true) (ht : w.transformType ≠ .none)
    (hpayload : s.payload lib w = some payload) (hok : s.DeliversWrite lib w payload)
    (h : writeToBuffer lib true w s.fd = .ok (success, err, v₁, fd₁)) :
    success = true ∧ Delivered s w v₁ payload fd₁ s.out ∧
      (s.CompletesWrite lib w payload → err = false) := by
  unfold writeToBuffer at h
  rw [if_neg ht] at h
  obtain ⟨n, hn⟩ : ∃ n, calcVarOverheadV1 w = .ok n := ⟨_, calcVarOverheadV1_eq hw⟩
  have ha : lib.transformApply true w (s.fd.seek (s.fd.buf.offset + n.toNat)) =
      s.applied lib w := by
    simp only [FileState.applied, hbuffer, overheadOf_eq hn, if_true]
  obtain ⟨rfl, rfl, rfl, hbase, header, hlen, hbuf⟩ :=
    transformHelper_payload hl hw ht hn ha (FileState.result_of_payload ht hpayload) hok.size h
  refine ⟨rfl, Delivered.of_buffer hbuffer (layout_transformedTo w _ _) rfl rfl hn hlen hbase hbuf,
    fun hc => ?_⟩
  rw [hc.plugin ht, hc.headerValues hbuffer]
  rfl

theorem delivered_plain_method (hw : w.Wf) (hbuffer : s.sharedBuffer = false)
    (ht : w.transformType = .none) (hpayload : s.payload lib w = some payload)
    (hok : s.DeliversWrite lib w payload) (hidle : s.fd.buf.offset = 0 ∧ s.fd.bytesWritten = 0)
    (h : writeToBuffer lib false w s.fd = .ok (success, err, v₁, fd₁))
    (hmethod : lib.methodWrite v₁ fd₁ s.out = .ok (v₂, fd₂, out₂)) :
    success = true ∧ Delivered s w v₂ payload fd₂ out₂ ∧
      (s.CompletesWrite lib w payload → err = false) := by
  obtain ⟨hmpi, hpos, hmax⟩ := hok.method hbuffer
  have hfits := hok.header (Or.inl hbuffer)
  obtain ⟨n, hn, hnlen⟩ := hfits.overhead hw
  unfold FileState.payload at hpayload
  unfold writeToBuffer at h
  rw [if_pos ht] at h hpayload
  cases h
  rw [hmpi] at hmethod
  obtain ⟨rfl, hidle', hbase, header, hlen, hout⟩ := adiosMpiWrite_inv hw hidle hfits.header
    (Option.some.inj hpayload).symm hpos hmax hmethod
  exact ⟨rfl, Delivered.of_method hbuffer rfl rfl rfl hn (hlen.trans hnlen.symm) hidle.1 hidle'
    (by rw [hbase, hnlen]) hout, fun _ => rfl⟩

theorem delivered_transformed_method (hl : w.layout.Wf) (hw : w.Wf)
    (hbuffer : s.sharedBuffer = false) (ht : w.transformType ≠ .none)
    (hpayload : s.payload lib w = some payload) (hok : s.DeliversWrite lib w payload)
    (hidle : s.fd.buf.offset = 0 ∧ s.fd.bytesWritten = 0)
    (h : writeToBuffer lib false w s.fd = .ok (success, err, v₁, fd₁))
    (hmethod : lib.methodWrite v₁ fd₁ s.out = .ok (v₂, fd₂, out₂)) :
    success = true ∧ Delivered s w v₂ payload fd₂ out₂ ∧
      (s.CompletesWrite lib w payload → err = false) := by
  obtain ⟨hmpi, hpos, hmax⟩ := hok.method hbuffer
  have hfits := hok.header (Or.inl hbuffer)
  obtain ⟨n, hn, hnlen⟩ := hfits.overhead hw
  have ha : s.applied lib w = lib.transformApply false w s.fd := by
    simp only [FileState.applied, hbuffer, Bool.false_eq_true, if_false]
  have hresult := FileState.result_of_payload ht hpayload
  rw [ha] at hresult
  unfold writeToBuffer at h
  rw [if_neg ht] at h
  unfold commonAdiosWriteTransformHelper at h
  simp only [Bool.false_eq_true, if_false, transformVariableData_eq lib false _ hl ht, bind,
    Except.bind] at h
  obtain ⟨_, hshared, h⟩ := exists_of_bind_eq_ok h
  obtain ⟨_, -, h⟩ := exists_of_bind_eq_ok h
  replace hshared := of_cAssert hshared
  cases h
  rw [hmpi] at hmethod
  unfold Writer.transformed at hshared hmethod ⊢
  rcases hresult with hr | hr
  · simp only [hr] at hshared
    cases hshared
  · simp only [hr] at hmethod ⊢
    have hdata : payload = List.take (getVarSize lib.machine (w.transformedTo
        (lib.transformApply false w s.fd).metadata payload) (some payload)).toNat payload := by
      rw [getVarSize_transformedTo lib.machine hl ht, toNat_ofNat_of_lt' hok.size, take_length]
    have hlayout := layout_transformedTo w (lib.transformApply false w s.fd).metadata payload
    have hbytes := headerBytes_congr lib.machine (wf_transformedTo hl hw) hw hlayout rfl rfl
    obtain ⟨rfl, hidle', hbase, header, hlen, hout⟩ := adiosMpiWrite_inv
      (wf_transformedTo hl hw) hidle (hbytes ▸ hfits.header) hdata hpos hmax hmethod
    rw [hbytes] at hbase hlen
    exact ⟨trivial, Delivered.of_method hbuffer hlayout rfl rfl hn (hlen.trans hnlen.symm) hidle.1
      hidle' (by rw [hbase, hnlen]) hout, fun hc => by rw [← ha, hc.plugin ht]⟩

end Delivery

theorem commonAdiosWrite_delivered (hl : w.layout.Wf) (hw : w.Wf)
    (hgen : generateVarCharacteristicsV1 lib v = .ok w) {payload : List UInt8}
    (hpayload : s.payload lib w = some payload) (hok : s.DeliversWrite lib w payload)
    (hidle : s.sharedBuffer = false → s.fd.buf.offset = 0 ∧ s.fd.bytesWritten = 0)
    (h : commonAdiosWrite lib v s = .ok wrote) :
    wrote.success = true ∧ Delivered s w wrote.v payload wrote.fd wrote.out ∧
      (s.CompletesWrite lib w payload → wrote.error = false) := by
  unfold commonAdiosWrite at h
  obtain ⟨w', hgen', h⟩ := exists_of_bind_eq_ok h
  cases hgen.symm.trans hgen'
  obtain ⟨⟨success, err, v₁, fd₁⟩, hbuf, h⟩ := exists_of_bind_eq_ok h
  obtain ⟨⟨v₂, fd₂, out₂⟩, hmethod, h⟩ := exists_of_bind_eq_ok h
  cases h
  unfold tellMethods at hmethod
  have hdelivered : success = true ∧ Delivered s w v₂ payload fd₂ out₂ ∧
      (s.CompletesWrite lib w payload → err = false) := by
    cases hbuffer : s.sharedBuffer with
    | true =>
      simp only [hbuffer, if_true] at hmethod hbuf
      cases hmethod
      by_cases ht : w.transformType = .none
      · exact delivered_plain_buffer hw hbuffer ht hpayload hok hbuf
      · exact delivered_transformed_buffer hl hw hbuffer ht hpayload hok hbuf
    | false =>
      simp only [hbuffer, Bool.false_eq_true, if_false] at hmethod hbuf
      by_cases ht : w.transformType = .none
      · exact delivered_plain_method hw hbuffer ht hpayload hok (hidle hbuffer) hbuf hmethod
      · exact delivered_transformed_method hl hw hbuffer ht hpayload hok (hidle hbuffer) hbuf
          hmethod
  obtain ⟨hsuccess, hdelivered, herr⟩ := hdelivered
  refine ⟨hsuccess, hdelivered, fun hc => ?_⟩
  simp only [hc.statSize, herr hc, hc.methods, Bool.or_false]

end Steps

/-! ## Runs -/

/-- A variable whose payload was written: its place in the group, and where its header and its
payload start in what was written. -/
structure Completed where
  var : Nat
  path : CString
  name : CString
  header : Nat
  start : Nat
  payload : List UInt8

def Completed.key (c : Completed) : VarKey := (c.path, c.name)

/-- What the write of `w` at place `i` has completed. -/
def completedWrite (lib : Writer) (s : FileState) (i : Nat) (w : Var) (s' : FileState)
    (wrote : Wrote) : List Completed :=
  if wrote.success then
    (s.payload lib w).toList.map fun payload =>
      ⟨i, w.path, w.name, s.written.offset, s'.written.offset - payload.length, payload⟩
  else []

/-- A write of the variable at place `i` that returns; `w` is the variable with the statistics of
the data. -/
def WriteStep (lib : Writer) (s : FileState) (i : Nat) (w : Var) (s' : FileState) (wrote : Wrote) :
    Prop :=
  ∃ var v v', s.vars[i]? = some v ∧ setData v var = .ok v' ∧
    generateVarCharacteristicsV1 lib (v'.current s.vars) = .ok w ∧
    commonAdiosWriteById lib i var s = .ok (s', wrote)

/-- The writes to an open file that meet a condition; `paths` is whether the paths of variables are
set in between. -/
inductive WriteRun (lib : Writer) (paths : Prop) (ok : FileState → Var → Prop) (s₀ : FileState) :
    FileState → List Completed → Prop where
  | opened : WriteRun lib paths ok s₀ s₀ []
  | write {s s' : FileState} {log : List Completed} {i : Nat} {w : Var} {wrote : Wrote} :
      WriteRun lib paths ok s₀ s log → ok s w → WriteStep lib s i w s' wrote →
      WriteRun lib paths ok s₀ s' (log ++ completedWrite lib s i w s' wrote)
  | setPath {s : FileState} {log : List Completed} {i : Nat} {v : Var} (path : CString) :
      paths → WriteRun lib paths ok s₀ s log → s.vars[i]? = some v →
      WriteRun lib paths ok s₀ { s with vars := s.vars.set i { v with path := path } } log

section Runs

variable {lib : Writer} {s s' : FileState} {i : Nat} {w : Var} {wrote : Wrote}

theorem map_set_eq {β : Type} (f : Var → β) {vars : List Var} {v v' : Var} (hi : vars[i]? = some v)
    (h : f v' = f v) : (vars.set i v').map f = vars.map f := by
  obtain ⟨hlt, rfl⟩ := List.getElem?_eq_some_iff.mp hi
  rw [map_set, h]
  refine ext_getElem (by simp) fun j hj _ => ?_
  rw [getElem_set]
  split_ifs with heq
  · subst heq
    simp
  · rfl

theorem layout_wf_of_map_eq {vars vars₀ : List Var}
    (heq : vars.map Var.layout = vars₀.map Var.layout) (hl : ∀ v ∈ vars₀, v.layout.Wf) :
    ∀ v ∈ vars, v.layout.Wf := by
  intro v hv
  have hmem : v.layout ∈ vars₀.map Var.layout := by
    rw [← heq]
    exact mem_map_of_mem hv
  obtain ⟨v₀, hv₀, hlayout⟩ := mem_map.mp hmem
  exact hlayout ▸ hl v₀ hv₀

@[simp] theorem Wrote.layout_kept (wrote : Wrote) : wrote.kept.layout = wrote.v.layout := by
  show ({ wrote.v with data := _ } : Var).layout = _
  exact layout_setVarData _ _

theorem WriteStep.spec (hl : ∀ v ∈ s.vars, v.layout.Wf) (h : WriteStep lib s i w s' wrote) :
    ∃ v u, s.vars[i]? = some v ∧ u.layout = v.layout ∧ w.layout = v.layout ∧ w.path = v.path ∧
      generateVarCharacteristicsV1 lib u = .ok w ∧ commonAdiosWrite lib u s = .ok wrote ∧
      if wrote.error = false ∧ (s.mode = .write ∨ s.mode = .append) then
        ∃ copy, copyVarWritten lib.machine wrote.kept = .ok copy ∧
          s' = { s with fd := wrote.fd, out := wrote.out, vars := s.vars.set i wrote.kept,
                        varsWritten := s.varsWritten ++ [(copy, i)] }
      else s' = { s with fd := wrote.fd, out := wrote.out, vars := s.vars.set i wrote.kept } := by
  obtain ⟨var, v, v', hi, hdata, hgen, hrun⟩ := h
  have hlayout' : (v'.current s.vars).layout = v.layout := by
    obtain ⟨data, rfl⟩ := layout_setData hdata
    rw [layout_current, layout_setVarData]
  have hwf : (v'.current s.vars).layout.Wf := hlayout' ▸ hl v (mem_of_getElem? hi)
  obtain ⟨⟨stats, hstats⟩, hlayout, -⟩ := generateVarCharacteristicsV1_spec hwf hgen
  have hpath : w.path = v.path := by
    obtain ⟨data, rfl⟩ := layout_setData hdata
    rw [hstats]
    rfl
  refine ⟨v, _, hi, hlayout', hlayout.trans hlayout', hpath, hgen, ?_⟩
  unfold commonAdiosWriteById at hrun
  simp only [hi, hdata, bind, Except.bind] at hrun
  obtain ⟨wrote', hwrote, hrun⟩ := exists_of_bind_eq_ok hrun
  split_ifs at hrun with hcopy
  · obtain ⟨copy, hcopied, hrun⟩ := exists_of_bind_eq_ok hrun
    cases hrun
    rw [if_pos (by simpa using hcopy)]
    exact ⟨hwrote, copy, hcopied, rfl⟩
  · cases hrun
    rw [if_neg (by simpa using hcopy)]
    exact ⟨hwrote, rfl⟩

end Runs

end Adios
