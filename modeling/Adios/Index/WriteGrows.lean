import Adios.Index.Write

/-!
# Adios — the index writer only appends

Each loop of `adios_write_index_v1` goes back to fill in lengths and counts, but never to what
was in the buffer before it started: whatever entries it is given, if it comes to its end the
buffer has grown by some bytes (`extends_writeVarsIndex`).
-/

namespace Adios

open Wire

def Grows (step : IndexWriter → Except Fault IndexWriter) : Prop :=
  ∀ w w', step w = .ok w' → w.buf.Extends w'.buf

namespace Grows

variable {step step' : IndexWriter → Except Fault IndexWriter}

theorem ok {f : IndexWriter → IndexWriter} (h : ∀ w : IndexWriter, w.buf.Extends (f w).buf) :
    Grows fun w => .ok (f w) := by
  rintro w w' ⟨⟩
  exact h w

theorem error (e : Fault) : Grows fun _ => .error e := by
  rintro w w' ⟨⟩

theorem bind (h : Grows step) (h' : Grows step') : Grows fun w => step w >>= step' := by
  intro w w' hw
  obtain ⟨w₁, h₁, h₂⟩ := exists_of_bind_eq_ok hw
  exact (h w w₁ h₁).trans (h' w₁ w' h₂)

theorem fetch {α : Type} (x : Except Fault α) {f : α → IndexWriter → Except Fault IndexWriter}
    (h : ∀ a, Grows (f a)) : Grows fun w => x >>= fun a => f a w := by
  intro w w' hw
  obtain ⟨a, -, ha⟩ := exists_of_bind_eq_ok hw
  exact h a w w' ha

theorem foldlM {α : Type} {step : IndexWriter → α → Except Fault IndexWriter} (xs : List α)
    (h : ∀ x ∈ xs, Grows fun w => step w x) : Grows fun w => xs.foldlM step w := by
  induction xs with
  | nil => exact ok fun w => .refl _
  | cons x xs ih =>
    simp only [List.foldlM_cons]
    exact (h x (by simp)).bind (ih fun y hy => h y (by simp [hy]))

end Grows

section

variable (host : Endian)

theorem IndexWriter.extends_item (w : IndexWriter) (c : CharacteristicId) (data : List UInt8) :
    w.buf.Extends (w.item c data).buf :=
  (Buffer.Extends.write _ _).trans (Buffer.Extends.write _ _)

theorem grows_writeTransform (t : Transform) : Grows (writeTransform host t) := by
  intro w w' hw
  obtain ⟨⟨buf, len, count⟩, hser, hw'⟩ := exists_of_bind_eq_ok hw
  obtain rfl := Except.ok.inj hw'
  show w.buf.Extends buf
  unfold serializeTransformCharacteristic at hser
  by_cases hassert : t.transformMetadataLen ≠ 0 ∧ t.transformMetadata = []
  · rw [if_pos hassert] at hser
    cases hser
  · rw [if_neg hassert] at hser
    by_cases ht : t.transformType = .none
    · rw [if_pos ht] at hser
      cases hser
      exact .refl _
    · rw [if_neg ht] at hser
      cases huid : transformPluginUid t.transformType with
      | none => rw [huid] at hser; cases hser
      | some uid =>
        rw [huid] at hser
        obtain ⟨uidBytes, -, hser⟩ := exists_of_bind_eq_ok hser
        obtain ⟨dims, -, hser⟩ := exists_of_bind_eq_ok hser
        obtain ⟨metadata, -, hser⟩ := exists_of_bind_eq_ok hser
        obtain ⟨rfl, -⟩ := Prod.mk.inj (Except.ok.inj hser)
        rw [Buffer.foldl_write]
        exact .write _ _

theorem grows_writeHist (hist : Hist) : Grows (writeHist host hist) :=
  Grows.fetch _ fun frequencies => Grows.fetch _ fun breaks => Grows.ok fun w => by
    simp only [IndexWriter.emit, Buffer.write_write]
    exact .write _ _

variable (type : Datatype)

theorem grows_writeStat (j : Nat) (stat : Option StatData) :
    Grows (writeStat host type j stat) := by
  unfold writeStat
  split
  · split
    · exact grows_writeHist host _
    · exact Grows.error _
  · split
    · exact Grows.fetch _ fun size => Grows.fetch _ fun data => Grows.ok fun w => .write _ _
    · exact Grows.error _

theorem grows_writeStats (bits : List Nat) (stats : List (Option StatData)) :
    Grows (writeStats host type bits stats) := by
  induction bits generalizing stats with
  | nil => exact Grows.ok fun w => .refl _
  | cons j bits ih =>
    cases stats with
    | nil => exact Grows.error _
    | cons stat stats => exact (grows_writeStat host type j stat).bind (ih stats)

theorem grows_writeStatSets (bits : List Nat) (count : Nat) (sets : List (List (Option StatData))) :
    Grows (writeStatSets host type bits count sets) := by
  induction count generalizing sets with
  | zero => exact Grows.ok fun w => .refl _
  | succ count ih => exact (grows_writeStats host type bits _).bind (ih _)

theorem grows_writeArray (orig : Datatype) (c : IndexCharacteristic) :
    Grows (writeArray host orig c) := by
  refine Grows.fetch _ fun dims => ?_
  have hdims : ∀ w : IndexWriter,
    w.buf.Extends ((((w.emit 1 [CharacteristicId.dimensions.flag]).emit
      0 [c.dims.count]).emit 0 (host.u16 (3 * 8 * c.dims.count.toUInt16))).emit 0 dims).buf := by
    intro w
    simp only [IndexWriter.emit, Buffer.write_write]
    exact .write _ _
  have hbitmap : ∀ w : IndexWriter, w.buf.Extends ((w.item .bitmap (host.u32 c.bitmap)).emit 1
      [CharacteristicId.stat.flag]).buf := fun w =>
    (w.extends_item _ _).trans (.write _ _)
  exact (Grows.ok hdims).bind ((grows_writeTransform host c.transform).bind
    ((Grows.ok hbitmap).bind (grows_writeStatSets host orig _ _ _)))

theorem grows_writeValue (c : IndexCharacteristic) :
    Grows (writeValue type c) := by
  unfold writeValue
  split
  · exact Grows.fetch _ fun value => Grows.ok fun w => w.extends_item _ _
  · exact Grows.ok fun w => .refl _

theorem grows_writeVarItems (type orig : Datatype) (c : IndexCharacteristic) :
    Grows (writeVarItems host type orig c) := by
  have harray : Grows fun w => if c.dims.count ≠ 0 then writeArray host orig c w else .ok w := by
    split
    · exact grows_writeArray host orig c
    · exact Grows.ok fun w => .refl _
  cases type with
  | string =>
    refine Grows.fetch _ fun value => Grows.ok fun w => ?_
    simp only [IndexWriter.emit, Buffer.write_write]
    exact .write _ _
  | unknown | other => exact Grows.ok fun w => .refl _
  | _ => exact harray.bind (grows_writeValue _ c)

theorem IndexWriter.extends_writeCommon (c : IndexCharacteristic) (w : IndexWriter) :
    w.buf.Extends (writeCommon host c w).buf :=
  (((w.extends_item _ _).trans (extends_item _ _ _)).trans (extends_item _ _ _)).trans
    (extends_item _ _ _)

theorem grows_writeVarSet (type orig : Datatype) (c : IndexCharacteristic) :
    Grows fun w => writeVarSet host type orig w c := by
  intro w w' hw
  obtain ⟨w₁, h₁, h₂⟩ := exists_of_bind_eq_ok hw
  obtain rfl := Except.ok.inj h₂
  have hgrow := ((IndexWriter.extends_writeCommon host c w.beginSet)).trans
    (grows_writeVarItems host type orig c _ _ h₁)
  have hle : w.buf.offset + 5 ≤ w₁.buf.offset := hgrow.offset_le
  have hall : w.buf.Extends w₁.buf := (Buffer.Extends.skip w.buf (1 + 4)).trans hgrow
  -- the count and the length go where room was left
  refine (hall.patch (Nat.le_refl _) ?_).patch (by omega) ?_
  · rw [List.length_singleton]
    omega
  · rw [Endian.length_u32, Buffer.patch_offset]
    omega

theorem grows_putString (s : CString) (w : IndexWriter) :
    w.buf.Extends (putString host s w).buf :=
  (Buffer.Extends.write _ _).trans (Buffer.Extends.write _ _)

theorem grows_writeVar (v : IndexEntry) : Grows fun w => writeVar host w v := by
  intro w w' hw
  obtain ⟨w₁, h₁, h₂⟩ := exists_of_bind_eq_ok hw
  obtain rfl := Except.ok.inj h₂
  unfold writeSets at h₁
  split_ifs at h₁
  have hsets := Grows.foldlM v.characteristics (fun c _ => grows_writeVarSet host v.type
    (originalTypeIndex v.type (v.characteristics.headD .zero)) c) _ _ h₁
  have hgrow := (((((Buffer.Extends.write (w.buf.skip 4) (host.u32 v.id)).trans
    (grows_putString host v.groupName (w.beginEntry.put (host.u32 v.id)))).trans
    (grows_putString host v.name _)).trans (grows_putString host v.path _)).trans
    ((Buffer.Extends.write _ [v.type.code]).trans (Buffer.Extends.write _ _))).trans hsets
  have hle : w.buf.offset + 4 ≤ w₁.buf.offset := hgrow.offset_le
  exact ((Buffer.Extends.skip w.buf 4).trans hgrow).patch (Nat.le_refl _)
    (by rw [Endian.length_u32]; omega)

theorem extends_writeVarsIndex {vs : List IndexEntry} {buf out : Buffer}
    (h : writeVarsIndex host vs buf = .ok out) :
    buf.Extends out ∧ buf.offset + 12 ≤ out.offset := by
  obtain ⟨w, hw, hout⟩ := exists_of_bind_eq_ok h
  obtain rfl := Except.ok.inj hout
  have hgrow := Grows.foldlM vs (fun v _ => grows_writeVar host v) _ _ hw
  have hle : buf.offset + 12 ≤ w.buf.offset := hgrow.offset_le
  have hall : buf.Extends w.buf := (Buffer.Extends.skip buf (4 + 8)).trans hgrow
  refine ⟨(hall.patch (Nat.le_refl _) ?_).patch (by omega) ?_, hle⟩
  · rw [Endian.length_u32]
    omega
  · rw [Endian.length_u64, Buffer.patch_offset]
    omega

end

end Adios
