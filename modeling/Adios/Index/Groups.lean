import Adios.Index.ParseSpec

/-!
# Adios — the process group index

The image of the process group index, that `adios_write_index_v1` writes it and that
`adios_parse_process_group_index_v1` reads it back in either byte order. A missing time index
name comes back as an empty one, and every flag but `adios_flag_yes` as `adios_flag_no`.
-/

namespace Adios

open List Wire Wire.Parser

/-! ## The image -/

namespace IndexProcessGroup

def serialised (pg : IndexProcessGroup) : IndexProcessGroup :=
  { pg with
    hostLanguageFortran := if pg.hostLanguageFortran = .yes then .yes else .no
    timeIndexName := some (pg.timeIndexName.getD CString.empty) }

variable (host : Endian)

def bodyFields (pg : IndexProcessGroup) : List Field :=
  stringFields host pg.groupName
    ++ [.text (if pg.hostLanguageFortran = .yes then chars "y" else chars "n"),
      .word (host.u32 pg.processId)]
    ++ stringFields host (pg.timeIndexName.getD CString.empty)
    ++ [.word (host.u32 pg.timeIndex), .word (host.u64 pg.offsetInFile)]

def fields (pg : IndexProcessGroup) : List Field :=
  .word (host.u16 (UInt16.ofNat (imageSize (pg.bodyFields host)))) :: pg.bodyFields host

structure Wf (pg : IndexProcessGroup) : Prop where
  groupName : pg.groupName.val.length < 2 ^ 16
  timeIndexName : (pg.timeIndexName.getD CString.empty).val.length < 2 ^ 16

end IndexProcessGroup

/-- The fields of the process group index: how many groups there are, their bytes without the
size of each, and the groups. -/
def groupsFields (host : Endian) (pgs : List IndexProcessGroup) : List Field :=
  .word (host.u64 (UInt64.ofNat pgs.length))
    :: .word (host.u64 (UInt64.ofNat (pgs.map fun pg => imageSize (pg.bodyFields host)).sum))
    :: pgs.flatMap (IndexProcessGroup.fields host)

/-! ## Writing -/

section Writing

variable (host : Endian)

@[simp] theorem GroupWriter.put_put (w : GroupWriter) (x y : List UInt8) :
    (w.put x).put y = w.put (x ++ y) := by
  simp [GroupWriter.put, UInt64.add_assoc, UInt16.add_assoc]

theorem writeGroup_eq {pg : IndexProcessGroup} (hwf : pg.Wf) (w : GroupWriter) :
    writeGroup host w pg =
      { buf := w.buf.write (render false (pg.fields host))
        indexSize := w.indexSize + UInt64.ofNat (imageSize (pg.bodyFields host))
        groupSize := UInt16.ofNat (imageSize (pg.bodyFields host)) } := by
  have hstring : ∀ (s : CString), s.val.length < 2 ^ 16 →
      host.u16 (UInt16.ofNat (strlen s.val)) ++ s.val.take (UInt16.ofNat (strlen s.val)).toNat =
        render false (stringFields host s) := by
    intro s hs
    rw [CString.strlen_val, UInt16.toNat_ofNat_of_lt' hs, take_length]
    simp [stringFields, Field.render]
  -- everything behind the size is one `put`
  have hbody : render false (pg.bodyFields host) =
      host.u16 (UInt16.ofNat (strlen pg.groupName.val)) ++
      (pg.groupName.val.take (UInt16.ofNat (strlen pg.groupName.val)).toNat ++
      ((if pg.hostLanguageFortran = .yes then chars "y" else chars "n") ++
      (host.u32 pg.processId ++
      (host.u16 (UInt16.ofNat (strlen (pg.timeIndexName.getD CString.empty).val)) ++
      ((pg.timeIndexName.getD CString.empty).val.take
        (UInt16.ofNat (strlen (pg.timeIndexName.getD CString.empty).val)).toNat ++
      (host.u32 pg.timeIndex ++ host.u64 pg.offsetInFile)))))) := by
    rw [← append_assoc, hstring _ hwf.groupName, ← append_assoc (host.u16 _) (List.take _ _),
      hstring _ hwf.timeIndexName]
    simp [IndexProcessGroup.bodyFields, Field.render]
  unfold writeGroup
  simp only [GroupWriter.put_put, append_assoc, ← hbody]
  simp only [GroupWriter.put, length_render, UInt16.zero_add]
  rw [w.buf.skip_write_patch _ _ (by simp)]
  simp [IndexProcessGroup.fields, Field.render]

theorem writeGroups_eq {pgs : List IndexProcessGroup} (hwf : ∀ pg ∈ pgs, pg.Wf) (buf : Buffer) :
    writeGroups host pgs buf = buf.write (render false (groupsFields host pgs)) := by
  have hfold : ∀ w : GroupWriter,
      (pgs.foldl (writeGroup host) w).buf =
        w.buf.write (render false (pgs.flatMap (IndexProcessGroup.fields host))) ∧
      (pgs.foldl (writeGroup host) w).indexSize =
        w.indexSize + UInt64.ofNat (pgs.map fun pg => imageSize (pg.bodyFields host)).sum := by
    induction pgs with
    | nil => exact fun w => by simp
    | cons pg pgs ih =>
      intro w
      obtain ⟨hbuf, hsize⟩ := ih (fun pg hpg => hwf pg (by simp [hpg])) (writeGroup host w pg)
      rw [writeGroup_eq host (hwf pg (by simp))] at hbuf hsize
      rw [foldl_cons, writeGroup_eq host (hwf pg (by simp)), hbuf, hsize]
      simp [UInt64.add_assoc]
  obtain ⟨hbuf, hsize⟩ := hfold { buf := buf.skip (8 + 8), indexSize := 0, groupSize := 0 }
  have hpatch := Buffer.patch_patch
    ((buf.skip 16).write (render false (pgs.flatMap (IndexProcessGroup.fields host))))
    buf.offset (host.u64 (UInt64.ofNat pgs.length))
    (host.u64 (UInt64.ofNat (pgs.map fun pg => imageSize (pg.bodyFields host)).sum))
  rw [buf.skip_write_patch (host.u64 _ ++ host.u64 _) _ (by simp), Endian.length_u64] at hpatch
  unfold writeGroups
  simp only [hbuf, hsize]
  rw [UInt64.zero_add, hpatch]
  simp [groupsFields, Field.render]

end Writing

theorem parses_parseGroup (env : ReadEnv) {pg : IndexProcessGroup} (hwf : pg.Wf) :
    Parses (parseGroup env) (render env.changeEndianness (pg.fields env.host))
      pg.serialised := by
  have hflag : ∃ flag : UInt8,
      (if pg.hostLanguageFortran = .yes then chars "y" else chars "n") = [flag] ∧
      ((if [flag] = chars "y" then Flag.yes else Flag.no) =
        if pg.hostLanguageFortran = .yes then .yes else .no) := by
    by_cases h : pg.hostLanguageFortran = .yes
    · exact ⟨121, by simp [h, chars], by simp [h, chars]⟩
    · exact ⟨110, by simp [h, chars], by simp [h, chars]⟩
  obtain ⟨flag, htext, hback⟩ := hflag
  have himage : render env.changeEndianness (pg.fields env.host) =
      (Field.word (env.host.u16 (UInt16.ofNat (imageSize (pg.bodyFields env.host))))).render
          env.changeEndianness ++
        (render env.changeEndianness (stringFields env.host pg.groupName) ++
        ([flag] ++
        ((Field.word (env.host.u32 pg.processId)).render env.changeEndianness ++
        (render env.changeEndianness
          (stringFields env.host (pg.timeIndexName.getD CString.empty)) ++
        ((Field.word (env.host.u32 pg.timeIndex)).render env.changeEndianness ++
        (Field.word (env.host.u64 pg.offsetInFile)).render env.changeEndianness))))) := by
    simp [IndexProcessGroup.fields, IndexProcessGroup.bodyFields, htext, Field.render]
  rw [himage]
  unfold parseGroup
  refine Parses.bind (parses_readU16 env _)
    (Parses.bind (parses_readLengthString env _ hwf.groupName)
    (Parses.bind (parses_readU8 flag) (Parses.bind (parses_readU32 env _)
    (Parses.bind (parses_readLengthString env _ hwf.timeIndexName)
    (Parses.bind (parses_readU32 env _) (Parses.bind_pure (parses_readU64 env _) ?_))))))
  rw [hback]
  rfl

theorem parses_parseProcessGroupIndexV1 (env : ReadEnv) {pgs : List IndexProcessGroup}
    (hwf : ∀ pg ∈ pgs, pg.Wf) (hlen : pgs.length < 2 ^ 64) :
    Parses (parseProcessGroupIndexV1 env)
      (render env.changeEndianness (groupsFields env.host pgs))
      (pgs.map IndexProcessGroup.serialised) := by
  have hloop := Parses.loop_append (fun _ => parseGroup env)
    (fun pg => render env.changeEndianness (IndexProcessGroup.fields env.host pg))
    IndexProcessGroup.serialised id pgs fun pre pg post hpgs =>
      parses_parseGroup env (hwf pg (by simp [hpgs]))
  have hcount : (UInt64.ofNat pgs.length).toNat = pgs.length := UInt64.toNat_ofNat_of_lt' hlen
  rw [← hcount] at hloop
  rw [groupsFields, render_cons, render_cons, render_flatMap]
  refine Parses.remaining fun n hn => Parses.bind_nil (Parses.require _ ?_)
    (Parses.bind (parses_readU64 env _) (Parses.bind (parses_readU64 env _) hloop))
  simp only [length_append, Field.length_render, Field.raw, Endian.length_u64] at hn
  omega

end Adios
