import Adios.Pg.VarsIndex
import Adios.Pg.WriteRun

/-!
# Adios — failed writes and the index

In a run of writes that are completed or fail cleanly, the variables with an entry in the index
that is built at the end are those whose payload was written, and the offsets of the index lead to
the payloads (`RunInv.indexDescribes`). A failing write moves neither the offset nor the lists.
-/

namespace Adios

open List Heap Lists Wire

structure FileState.Opened (s : FileState) : Prop where
  layouts : ∀ v ∈ s.vars, v.layout.Wf
  varsWritten : s.varsWritten = []
  idle : s.sharedBuffer = false → s.fd.buf.offset = 0 ∧ s.fd.bytesWritten = 0

structure NoTrace (s s' : FileState) : Prop where
  offset : s'.fd.buf.offset = s.fd.buf.offset
  count : s'.fd.varsWritten = s.fd.varsWritten
  varsWritten : s'.varsWritten = s.varsWritten

/-- What the index that is built says of the variables: one entry for each that was completed, with
the places of all its headers and payloads in the file. -/
def IndexDescribes (fileStart : UInt64) (log : List Completed) (st : IndexStore) : Prop :=
  ∃ cells, st.vars.Holds cells ∧ ((entries cells).map varKey).Nodup ∧
    (∀ k, k ∈ (entries cells).map varKey ↔ k ∈ log.map Completed.key) ∧
    ∀ e ∈ entries cells, e.characteristics.map (fun c => (c.offset, c.payloadOffset)) =
      (log.filter fun c => c.key = varKey e).map fun c =>
        (fileStart + UInt64.ofNat c.header, fileStart + UInt64.ofNat c.start)

/-! ## The invariant -/

structure CopyOf (m : Machine) (fileStart : UInt64) (layouts : List VarLayout)
    (written : Var × Nat) (c : Completed) : Prop where
  key : (written.1.path, written.1.name) = c.key
  place : written.1.writeOffset ≠ 0
  writeOffset : written.1.writeOffset = fileStart + UInt64.ofNat c.header
  indexable : Indexable m written.1
  start : ∃ w n, layouts[written.2]? = some w.layout ∧ w.path = written.1.path ∧
    calcVarOverheadV1 w = .ok n ∧ c.start = c.header + n.toNat

structure RunInv (m : Machine) (s₀ s : FileState) (log : List Completed) : Prop where
  layouts : s.vars.map Var.layout = s₀.vars.map Var.layout
  fileStart : s.fileStart = s₀.fileStart
  idle : s.sharedBuffer = false → s.fd.buf.offset = 0 ∧ s.fd.bytesWritten = 0
  copies : Forall₂ (CopyOf m s₀.fileStart (s₀.vars.map Var.layout)) s.varsWritten log
  payloads : ∀ c ∈ log, c.start + c.payload.length ≤ s.written.offset ∧
    s.written.mem.read c.start c.payload.length = c.payload

theorem FileState.Opened.runInv {s₀ : FileState} (h : s₀.Opened) (m : Machine) :
    RunInv m s₀ s₀ [] where
  layouts := rfl
  fileStart := rfl
  idle := h.idle
  copies := by
    rw [h.varsWritten]
    exact .nil
  payloads := by simp

section Steps

variable {lib : Writer} {s₀ s s' : FileState} {log : List Completed} {i : Nat} {w : Var}
  {wrote : Wrote}

theorem WriteStep.failed (hl : ∀ v ∈ s.vars, v.layout.Wf) (hok : s.WriteOk lib w)
    (h : WriteStep lib s i w s' wrote) (hfail : s.payload lib w = none) :
    wrote.success = false ∧ s'.fd.buf.offset = s.fd.buf.offset ∧
      s'.fd.varsWritten = s.fd.varsWritten ∧ s'.varsWritten = s.varsWritten ∧
      s'.vars.map Var.layout = s.vars.map Var.layout ∧ s'.sharedBuffer = s.sharedBuffer ∧
      s'.fd.baseOffset = s.fd.baseOffset ∧ s.sharedBuffer = true ∧
      ∃ start scratch, s.fd.buf.offset ≤ start ∧ s'.fd.buf = s.fd.buf.patch start scratch := by
  obtain ⟨v, u, hi, -, hlayout, -, hgen, hrun, hafter⟩ := h.spec hl
  have hwf : w.layout.Wf := hlayout ▸ hl v (mem_of_getElem? hi)
  obtain ⟨hbuffer, hreported⟩ := hok.fails hfail
  obtain ⟨hsuccess, herror, hv, hout, start, scratch, hle, hfd⟩ :=
    commonAdiosWrite_failed hwf hgen hfail hbuffer hrun
  have hnot : ¬(wrote.error = false ∧ (s.mode = .write ∨ s.mode = .append)) := by
    rintro ⟨hnone, hmode⟩
    have hsome := hreported hmode
    rw [herror] at hnone
    simp only [Bool.or_eq_false_iff] at hnone
    simp [hnone] at hsome
  rw [if_neg hnot] at hafter
  subst hafter
  have hkept : wrote.kept.layout = v.layout := by
    rw [wrote.layout_kept, hv, layout_withMetadata, hlayout]
  refine ⟨hsuccess, by rw [hfd]; rfl, by rw [hfd], rfl, map_set_eq Var.layout hi hkept, rfl,
    by rw [hfd], hbuffer, start, scratch, hle, by rw [hfd]⟩

theorem WriteStep.completed (hl : ∀ v ∈ s.vars, v.layout.Wf) (hok : s.WriteOk lib w)
    (hidle : s.sharedBuffer = false → s.fd.buf.offset = 0 ∧ s.fd.bytesWritten = 0)
    (h : WriteStep lib s i w s' wrote) {payload : List UInt8}
    (hpayload : s.payload lib w = some payload) :
    wrote.success = true ∧ ∃ copy, (s.vars.map Var.layout)[i]? = some w.layout ∧
      Delivered s w wrote.v payload s'.fd s'.out ∧
      copyVarWritten lib.machine wrote.kept = .ok copy ∧
      s' = { s with fd := s'.fd, out := s'.out, vars := s.vars.set i wrote.kept,
                    varsWritten := s.varsWritten ++ [(copy, i)] } ∧
      s'.vars.map Var.layout = s.vars.map Var.layout := by
  obtain ⟨v, u, hi, hlayout', hlayout, -, hgen, hrun, hafter⟩ := h.spec hl
  have hc := hok.completes payload hpayload
  have hwf : w.layout.Wf := hlayout ▸ hl v (mem_of_getElem? hi)
  have hu : u.layout.Wf := hlayout' ▸ hl v (mem_of_getElem? hi)
  obtain ⟨⟨stats, hw⟩, -, hfit⟩ := generateVarCharacteristicsV1_spec hu hgen
  have hvar : w.Wf := by
    refine hwf.var ?_
    subst hw
    exact hfit hc.original
  obtain ⟨hsuccess, hdelivered, herror⟩ :=
    commonAdiosWrite_delivered hwf hvar hgen hpayload hc.toDeliversWrite hidle hrun
  rw [if_pos ⟨herror hc, hc.mode⟩] at hafter
  obtain ⟨copy, hcopy, rfl⟩ := hafter
  have hkept : wrote.kept.layout = v.layout := by
    rw [wrote.layout_kept, hdelivered.layout, hlayout]
  refine ⟨hsuccess, copy, ?_, hdelivered, hcopy, rfl, map_set_eq Var.layout hi hkept⟩
  rw [getElem?_map, hi, hlayout]
  rfl

theorem FileState.fileStart_add (s : FileState) :
    s.fileStart + UInt64.ofNat s.written.offset = s.position := by
  unfold fileStart position
  grind

section

variable (hinv : RunInv lib.machine s₀ s log) (hl : ∀ v ∈ s₀.vars, v.layout.Wf)
  (hok : s.WriteOk lib w) (h : WriteStep lib s i w s' wrote)

include hinv hl hok h

theorem RunInv.write_failed (hpayload : s.payload lib w = none) :
    RunInv lib.machine s₀ s' (log ++ completedWrite lib s i w s' wrote) := by
  obtain ⟨hsuccess, hoffset, -, hwritten, hmap, hshared, hbase, hbuffer, start, scratch, hle,
    hbuf⟩ := h.failed (layout_wf_of_map_eq hinv.layouts hl) hok hpayload
  have hbuffer' : s'.sharedBuffer = true := hshared.trans hbuffer
  have hcomplete : completedWrite lib s i w s' wrote = [] := by simp [completedWrite, hsuccess]
  rw [hcomplete, append_nil]
  refine ⟨hmap.trans hinv.layouts, ?_, by simp [hbuffer'], hwritten ▸ hinv.copies, ?_⟩
  · rw [← hinv.fileStart]
    simp only [FileState.fileStart, FileState.written, hbuffer, hbuffer', if_true, hoffset, hbase]
  · -- what is left of the try lies behind the payloads
    intro c hc
    obtain ⟨hend, hread⟩ := hinv.payloads c hc
    simp only [FileState.written, hbuffer, hbuffer', if_true, hoffset] at hend hread ⊢
    refine ⟨hend, ?_⟩
    rw [hbuf]
    show (s.fd.buf.mem.write start scratch).read _ _ = _
    rw [Mem.read_write_disjoint _ (Or.inl (by omega)), hread]

theorem RunInv.write_completed {payload : List UInt8} (hpayload : s.payload lib w = some payload) :
    RunInv lib.machine s₀ s' (log ++ completedWrite lib s i w s' wrote) := by
  have hlayouts := layout_wf_of_map_eq hinv.layouts hl
  obtain ⟨hsuccess, copy, hi, hdelivered, hcopy, hs', hmap⟩ :=
    h.completed hlayouts hok hinv.idle hpayload
  obtain ⟨header, n, hn, hlen, hwritten⟩ := hdelivered.written
  have hwritten' : s'.written = s.written.write (header ++ payload) := by
    rw [hs']
    exact hwritten
  have hstart : s'.written.offset - payload.length = s.written.offset + n.toNat := by
    rw [hwritten', Buffer.write_offset, length_append, hlen]
    omega
  have hcomplete : completedWrite lib s i w s' wrote =
      [⟨i, w.path, w.name, s.written.offset, s.written.offset + n.toNat, payload⟩] := by
    simp [completedWrite, hsuccess, hpayload, hstart]
  have hwf : w.layout.Wf := by
    obtain ⟨v, hv, heq⟩ := mem_map.mp (mem_of_getElem? hi)
    exact heq ▸ hlayouts v hv
  have hkept : wrote.kept.layout = w.layout := hdelivered.layout
  obtain ⟨hname, hpath, hoffset, hindexable⟩ := copyVarWritten_spec (v := wrote.kept)
    (hkept ▸ hwf.defined : wrote.kept.layout.type.IsDefined)
    (hkept ▸ hwf.bitmap : wrote.kept.layout.bitmap.toNat < _) hcopy
  have hplace : copy.writeOffset = s.position := hoffset.trans hdelivered.place
  rw [hcomplete]
  refine ⟨hmap.trans hinv.layouts, ?_, ?_, ?_, ?_⟩
  · rw [← hinv.fileStart, ← hdelivered.fileStart, hs']
    rfl
  · rw [hs']
    exact hdelivered.idle
  · rw [hs']
    refine rel_append hinv.copies (.cons ?_ .nil)
    refine ⟨?_, ?_, ?_, hindexable, w, n, by rw [← hinv.layouts, hi], ?_, hn, rfl⟩
    · show (copy.path, copy.name) = (w.path, w.name)
      rw [hpath, hname]
      exact congrArg₂ Prod.mk hdelivered.path (congrArg VarLayout.name hdelivered.layout)
    · rw [hplace]
      exact (hok.completes payload hpayload).place
    · rw [hplace, ← hinv.fileStart, s.fileStart_add]
    · exact (hpath.trans hdelivered.path).symm
  · intro c hc
    rw [hwritten', Buffer.write_offset, length_append, hlen]
    rcases mem_append.mp hc with hc | hc
    · obtain ⟨hend, hread⟩ := hinv.payloads c hc
      refine ⟨by omega, ?_⟩
      show (s.written.mem.write s.written.offset (header ++ payload)).read _ _ = _
      rw [Mem.read_write_disjoint _ (Or.inl hend), hread]
    · cases mem_singleton.mp hc
      refine ⟨by simp only; omega, ?_⟩
      show (s.written.mem.write s.written.offset (header ++ payload)).read _ _ = _
      rw [← hlen, ← Mem.write_write_append, Mem.read_write]

theorem RunInv.write :
    RunInv lib.machine s₀ s' (log ++ completedWrite lib s i w s' wrote) := by
  cases hpayload : s.payload lib w with
  | none => exact hinv.write_failed hl hok h hpayload
  | some payload => exact hinv.write_completed hl hok h hpayload

end

theorem RunInv.setPath (hinv : RunInv lib.machine s₀ s log) {i : Nat} {v : Var} (path : CString)
    (hi : s.vars[i]? = some v) :
    RunInv lib.machine s₀ { s with vars := s.vars.set i { v with path := path } } log :=
  ⟨(map_set_eq Var.layout hi (layout_setPath v path)).trans hinv.layouts, hinv.fileStart, hinv.idle,
    hinv.copies, hinv.payloads⟩

theorem WriteRun.runInv (hopened : s₀.Opened) (h : WriteRun lib True (·.WriteOk lib) s₀ s log) :
    RunInv lib.machine s₀ s log := by
  induction h with
  | opened => exact hopened.runInv lib.machine
  | write _ hok hstep ih => exact ih.write hopened.layouts hok hstep
  | setPath path _ _ hi ih => exact ih.setPath path hi

end Steps

/-! ## The index -/

/-- The copies can be indexed at the end: no path that was set since has carried the overhead over
a multiple of 2 ^ 16. -/
structure FileState.CanClose (s : FileState) : Prop where
  few : s.varsWritten.length < 2 ^ 63
  paths : ∀ copy i p, (copy, i) ∈ s.varsWritten → s.vars[i]? = some p →
    ∃ a b, calcVarOverheadV1 p = .ok a ∧ calcVarOverheadV1 { p with path := copy.path } = .ok b ∧
      a.toUInt64 + UInt64.ofNat copy.path.val.length = b.toUInt64 + UInt64.ofNat p.path.val.length

section Close

variable {m : Machine} {s₀ s : FileState} {log : List Completed}

theorem CopyOf.payloadOffset {layouts : List VarLayout} {fileStart : UInt64}
    {written : Var × Nat} {c : Completed} (hcopy : CopyOf m fileStart layouts written c)
    (hl : ∀ l ∈ layouts, l.Wf) (hlayouts : s.vars.map Var.layout = layouts)
    (hmem : written ∈ s.varsWritten) (hclose : s.CanClose) :
    ∃ parent, s.vars[written.2]? = some parent ∧ varPayloadOffset written.1 parent =
      .ok (fileStart + UInt64.ofNat c.start) := by
  obtain ⟨w, n, hi, hpath, hn, hstart⟩ := hcopy.start
  rw [← hlayouts, getElem?_map] at hi
  obtain ⟨p, hp, hlayout⟩ := Option.map_eq_some_iff.mp hi
  obtain ⟨a, b, ha, hb, hsum⟩ := hclose.paths _ _ _ hmem hp
  have hwf : p.layout.Wf :=
    hl _ (by rw [← hlayouts]; exact mem_map_of_mem (mem_of_getElem? hp))
  have hcongr : calcVarOverheadV1 { p with path := written.1.path } = .ok n :=
    (calcVarOverheadV1_congr (v := { p with path := written.1.path }) hwf hlayout
      hpath.symm).trans hn
  cases hb.symm.trans hcongr
  refine ⟨p, hp, ?_⟩
  unfold varPayloadOffset
  rw [ha]
  show Except.ok (written.1.writeOffset + a.toUInt64 - UInt64.ofNat (strlen p.path.val) +
    UInt64.ofNat (strlen written.1.path.val)) = _
  have hword : UInt64.ofNat n.toNat = n.toUInt64 := by simp
  rw [CString.strlen_val, CString.strlen_val, hcopy.writeOffset, hstart, UInt64.ofNat_add, hword]
  congr 1
  grind

theorem ownGroup_of_forall {es : List IndexEntry} {groupName : CString}
    (h : ∀ e ∈ es, e.groupName = groupName) : mergedVars es = es := by
  refine filter_eq_self.mpr fun e he => ?_
  rw [ownGroup, Option.all_eq_true]
  intro w hw
  rw [h w (mem_of_find?_eq_some hw), h e he]
  exact decide_eq_true rfl

theorem filter_characteristics {fileStart : UInt64} {es : List IndexEntry}
    (h : Forall₂ (fun (e : IndexEntry) (c : Completed) => varKey e = c.key ∧
      e.characteristics.map (fun ch => (ch.offset, ch.payloadOffset)) =
        [(fileStart + UInt64.ofNat c.header, fileStart + UInt64.ofNat c.start)]) es log)
    (k : VarKey) :
    ((es.filter fun e => varKey e = k).flatMap IndexEntry.characteristics).map
        (fun ch => (ch.offset, ch.payloadOffset)) =
      (log.filter fun c => c.key = k).map fun c =>
        (fileStart + UInt64.ofNat c.header, fileStart + UInt64.ofNat c.start) := by
  induction h with
  | nil => rfl
  | @cons e c es log hec _ ih =>
    obtain ⟨hkey, hset⟩ := hec
    by_cases hk : varKey e = k
    · rw [filter_cons_of_pos (by simpa using hk), flatMap_cons, map_append, hset, ih,
        filter_cons_of_pos (by simpa using hkey ▸ hk)]
      rfl
    · rw [filter_cons_of_neg (by simpa using hk), ih, filter_cons_of_neg (by simpa using hkey ▸ hk)]

theorem forall₂_of_both {α β γ : Type} {A : α → β → Prop} {B : α → γ → Prop} {C : β → γ → Prop}
    {xs : List α} {ys : List β} {zs : List γ} (hA : Forall₂ A xs ys)
    (hB : Forall₂ B xs zs) (h : ∀ x y z, x ∈ xs → A x y → B x z → C y z) :
    Forall₂ C ys zs := by
  induction hA generalizing zs with
  | nil =>
    cases hB
    exact .nil
  | @cons x y xs ys hxy _ ih =>
    cases hB with
    | cons hxz hrest =>
      exact .cons (h x y _ (by simp) hxy hxz) (ih hrest fun x y z hx => h x y z (by simp [hx]))

theorem exists_of_forall₂ {α β : Type} {R : α → β → Prop} {xs : List α} {ys : List β}
    (h : Forall₂ R xs ys) {x : α} (hx : x ∈ xs) : ∃ y, R x y := by
  induction h with
  | nil => cases hx
  | cons hxy _ ih =>
    rcases mem_cons.mp hx with rfl | hx
    · exact ⟨_, hxy⟩
    · exact ih hx

theorem RunInv.indexDescribes (hinv : RunInv m s₀ s log) (hl : ∀ v ∈ s₀.vars, v.layout.Wf)
    (hclose : s.CanClose) {canAlloc : UInt64 → Bool} (hmem : ∀ n, canAlloc n = true)
    {malloc : IndexStore → Addr} (hmalloc : Mallocs malloc) (groupName : CString)
    (fileIndex timeIndex : UInt32) :
    ∃ st, buildVarsIndex m canAlloc malloc groupName fileIndex timeIndex s.vars s.varsWritten
        .empty = .ok st ∧ IndexDescribes s.fileStart log st := by
  have hlayouts : ∀ l ∈ s₀.vars.map Var.layout, l.Wf := by
    intro l hmem'
    obtain ⟨v, hv, rfl⟩ := mem_map.mp hmem'
    exact hl v hv
  have hcan : ∀ x ∈ s.varsWritten, CanIndex m s.vars x := by
    intro x hx
    obtain ⟨c, hcopy⟩ := exists_of_forall₂ hinv.copies hx
    obtain ⟨parent, hparent, ho⟩ := hcopy.payloadOffset hlayouts hinv.layouts hx hclose
    exact ⟨hcopy.place, hcopy.indexable, parent, _, hparent, ho⟩
  obtain ⟨st, cells, es, hrun, hrep, hentries, hes⟩ := buildVarsIndex_spec groupName fileIndex
    timeIndex hmem hmalloc hcan mergeInv_empty.varsRep (fun a (_ : a ≥ 0) => rfl)
    (by simpa [setCount] using hclose.few)
  -- each entry is that of a completed variable
  have hboth : Forall₂ (fun (e : IndexEntry) (c : Completed) => varKey e = c.key ∧
      e.characteristics.map (fun ch => (ch.offset, ch.payloadOffset)) =
        [(s.fileStart + UInt64.ofNat c.header, s.fileStart + UInt64.ofNat c.start)]) es log := by
    refine forall₂_of_both hes hinv.copies ?_
    rintro x e c hx ⟨-, hkey, ch, parent, hset, hoffset, hparent, ho⟩ hcopy
    obtain ⟨parent', hparent', ho'⟩ := hcopy.payloadOffset hlayouts hinv.layouts hx hclose
    cases hparent.symm.trans hparent'
    have hstart := Except.ok.inj (ho.symm.trans ho')
    refine ⟨hkey.trans hcopy.key, ?_⟩
    rw [hset, map_singleton, hoffset, hcopy.writeOffset, hstart, hinv.fileStart]
  have hgroup : ∀ e ∈ es, e.groupName = groupName := by
    intro e he
    obtain ⟨x, hgroup, -⟩ := exists_of_forall₂ hes.flip he
    exact hgroup
  have hmerged : MergedBy varKey es cells := by
    refine mergedBy_of_collect (fun _ _ => rfl) hrep.wf ?_
    rw [hentries, ← ownGroup_of_forall hgroup, ← collect_combineVar, ownGroup_of_forall hgroup]
    rfl
  have hkeys : es.map varKey = log.map Completed.key := by
    have hsame : Forall₂ (· = ·) (es.map varKey) (log.map Completed.key) := by
      rw [forall₂_map_left_iff, forall₂_map_right_iff]
      exact hboth.imp fun _ _ h => h.1
    rwa [forall₂_eq_eq_eq] at hsame
  refine ⟨st, hrun, cells, hrep.list, hmerged.once, fun k => ?_, fun e he => ?_⟩
  · rw [hmerged.keys, hkeys]
  · rw [hmerged.concatenated e he, filter_characteristics hboth]

end Close

/-! ## Failed writes leave no trace -/

/-- In a state of a run: a write that fails next leaves no trace, the completed payloads are in
their places, and the index that is built describes them. -/
structure LeavesNoTrace (lib : Writer) (ok : FileState → Var → Prop) (s : FileState)
    (log : List Completed) : Prop where
  failed : ∀ i w s' wrote, ok s w → WriteStep lib s i w s' wrote → wrote.success = false →
    NoTrace s s'
  payloads : ∀ c ∈ log, c.start + c.payload.length ≤ s.written.offset ∧
    s.written.mem.read c.start c.payload.length = c.payload
  index : s.CanClose → ∀ canAlloc malloc groupName fileIndex timeIndex,
    (∀ n, canAlloc n = true) → Mallocs malloc →
    ∃ st, buildVarsIndex lib.machine canAlloc malloc groupName fileIndex timeIndex s.vars
        s.varsWritten .empty = .ok st ∧ IndexDescribes s.fileStart log st

theorem failed_writes_leave_no_trace (lib : Writer) (s₀ : FileState) (hopened : s₀.Opened)
    (s : FileState) (log : List Completed) (h : WriteRun lib True (·.WriteOk lib) s₀ s log) :
    LeavesNoTrace lib (·.WriteOk lib) s log := by
  have hinv := h.runInv hopened
  have hl : ∀ v ∈ s.vars, v.layout.Wf := by
    intro v hv
    have hmem : v.layout ∈ s₀.vars.map Var.layout := by
      rw [← hinv.layouts]
      exact mem_map_of_mem hv
    obtain ⟨v₀, hv₀, heq⟩ := mem_map.mp hmem
    exact heq ▸ hopened.layouts v₀ hv₀
  refine ⟨fun i w s' wrote hok hstep hfail => ?_, hinv.payloads, ?_⟩
  · cases hpayload : s.payload lib w with
    | none =>
      obtain ⟨-, hoffset, hcount, hwritten, -⟩ := hstep.failed hl hok hpayload
      exact ⟨hoffset, hcount, hwritten⟩
    | some payload =>
      obtain ⟨hsuccess, -⟩ := hstep.completed hl hok hinv.idle hpayload
      rw [hfail] at hsuccess
      cases hsuccess
  · intro hclose canAlloc malloc groupName fileIndex timeIndex hmem hmalloc
    exact hinv.indexDescribes hopened.layouts hclose hmem hmalloc groupName fileIndex timeIndex

def zlibVar : Var :=
  { identityVar 1 with
    transformType := .zlib, transformMetadataLen := 9, transformMetadata := List.replicate 9 0 }

def outOfMemory : Writer where
  machine := littleMachine
  statValue := fun _ _ _ _ => 0
  frequency := fun _ _ => 0
  transformApply := fun _ _ _ => ⟨.failed [], [], false⟩
  methodWrite := adiosMpiWrite littleMachine
  methodError := fun _ _ => false

def zlibFile : FileState where
  fd := ⟨⟨fun _ => 0, 60⟩, 0, 60, 48, 0⟩
  sharedBuffer := true
  mode := .write
  out := ⟨fun _ => 0, 0⟩
  vars := [zlibVar]
  varsWritten := []

theorem zlibFile_opened : zlibFile.Opened where
  layouts v hv := by
    cases mem_singleton.mp hv
    exact {
      defined := trivial
      known := nofun
      transformed := fun _ => ⟨rfl, by decide, trivial⟩
      metadata := rfl
      bitmap := by decide
      noComplexHist := by decide
      hist := by
        intro slots hslots
        simp [Var.layout, zlibVar, identityVar] at hslots }
  varsWritten := rfl
  idle := nofun

def zlibVarWithData : Var :=
  (({ zlibVar with data := some [1, 2, 3, 4, 5, 6, 7, 8] } : Var).current [zlibVar])

def copyingPlugins : Writer :=
  { outOfMemory with
    transformApply := fun _ w _ => ⟨.shared (w.data.getD []), List.replicate 9 0, false⟩ }

theorem writeOk_copyingPlugins : zlibFile.WriteOk copyingPlugins zlibVarWithData where
  fails := nofun
  completes payload hpayload := by
    cases Option.some.inj hpayload
    exact {
      mode := Or.inl rfl
      statSize := rfl
      headerValues := fun _ => rfl
      plugin := fun _ => rfl
      methods := rfl
      place := by decide
      original := fun _ => nofun
      header := fun h => absurd h (by decide)
      size := by decide
      method := nofun }

theorem leavesNoTrace_copyingPlugins : ∃ s log, log.length = 1 ∧
    LeavesNoTrace copyingPlugins (·.WriteOk copyingPlugins) s log :=
  ⟨_, _, rfl, failed_writes_leave_no_trace copyingPlugins zlibFile zlibFile_opened _ _
    (.write (i := 0) .opened writeOk_copyingPlugins
      ⟨some [1, 2, 3, 4, 5, 6, 7, 8], zlibVar, _, rfl, rfl, rfl, rfl⟩)⟩

/-- A write whose transform failed is copied for the index. -/
theorem not_leavesNoTrace_outOfMemory : zlibFile.Opened ∧
    WriteRun outOfMemory True (fun _ _ => True) zlibFile zlibFile [] ∧
    ¬LeavesNoTrace outOfMemory (fun _ _ => True) zlibFile [] := by
  refine ⟨zlibFile_opened, .opened, fun h => ?_⟩
  have hstep : ∃ s' wrote, WriteStep outOfMemory zlibFile 0 zlibVarWithData s' wrote ∧
      wrote.success = false ∧ s'.varsWritten ≠ [] :=
    ⟨_, _, ⟨some [1, 2, 3, 4, 5, 6, 7, 8], zlibVar, _, rfl, rfl, rfl, rfl⟩, rfl,
      cons_ne_nil _ _⟩
  obtain ⟨s', wrote, hrun, hsuccess, hcopied⟩ := hstep
  exact hcopied (h.failed _ _ _ _ trivial hrun hsuccess).varsWritten

end Adios
