import Adios.Index.Exchange

/-!
# Utils — an append that fails

`bpappend` writes the data of one file over the index of another one and then an index of both. When
reading or writing fails on the way, `recover` writes the index again that it has in memory, and
cuts the file off behind it.
-/

namespace Adios.Bpappend

open List Wire

/-! ## The code -/

/-- `read_indexes`; the last 28 bytes say where the three sections are. -/
def readIndexes (host : Endian) (junk : UInt64) (file : List UInt8) :
    Except Fault (IndexOffsets × Index) := do
  let ((_, changeEndianness), _) ←
    parseVersion host (miniFooter file).length ((miniFooter file).drop 24)
  let env : ReadEnv := ⟨host, changeEndianness, junk⟩
  let (b, _) ← parseIndexOffsetsV1 env (UInt64.ofNat file.length) (miniFooter file)
  let (pgRoot, _) ← parseProcessGroupIndexV1 env (readAt file b.pgIndexOffset b.pgSize)
  let (varsRoot, _) ← parseVarsIndexV1 env (readAt file b.varsIndexOffset b.varsSize)
  let (attrsRoot, _) ← parseAttributesIndexV1 env (readAt file b.attrsIndexOffset b.attrsSize)
  .ok (b, ⟨pgRoot, varsRoot, attrsRoot⟩)

/-- `write` at a position within the file or at its end. -/
def writeAt (file : List UInt8) (pos : Nat) (bytes : List UInt8) : List UInt8 :=
  file.take pos ++ (bytes ++ file.drop (pos + bytes.length))

/-- What `read` and `write` do in a round: the bytes that are read, and how many of them are written;
none for a return of -1. -/
structure Round where
  bytesRead : Option (List UInt8)
  bytesWritten : Option Nat

/-- `check_timesteps`; without groups in the input it follows a null pointer. -/
def checkTimesteps (outPgRoot inPgRoot : List IndexProcessGroup) : Bool :=
  match outPgRoot.getLast?, inPgRoot.head? with
  | none, _ => true
  | some _, none => false
  | some last, some first => last.timeIndex ≤ first.timeIndex

/-- The copy loop of `append_in_to_out`, and what is in the file when it calls `recover`. -/
def copyLoop (pgIndexOffset bytesToCopy : Nat) : List Round → Nat → List UInt8 → Option (List UInt8)
  | [], _, _ => none
  | r :: rounds, bytesCopied, file =>
    if bytesToCopy ≤ bytesCopied then none
    else
      match r.bytesRead with
      | none => some file
      | some [] => some file
      | some buf =>
        -- "check to not to copy too much"
        let buf := buf.take (bytesToCopy - bytesCopied)
        match r.bytesWritten with
        | none => some file
        | some n =>
          let file := writeAt file (pgIndexOffset + bytesCopied) (buf.take n)
          if n ≠ buf.length then some file
          else copyLoop pgIndexOffset bytesToCopy rounds (bytesCopied + n) file

/-- `recover`; "truncate file back to original size". -/
def recover (host : Endian) (version : Version) (mem : Mem) (out : IndexOffsets) (index : Index)
    (file : List UInt8) : Except Fault (List UInt8) := do
  let written ← writeIndexV1 host version out.pgIndexOffset index ⟨mem, 0⟩
  let buffer := (writeVersionV1 host written.buf).since 0
  let file := writeAt file out.pgIndexOffset.toNat buffer
  .ok (file.take (out.pgIndexOffset.toNat + buffer.length))

/-! ## What is claimed -/

/-- An append of a file to another one with a well-formed index, where reading or writing fails in
the copy loop. `recalc_offsets` is left out: it changes the entries of the input only. -/
structure FailedAppend (host : Endian) where
  version : Version
  junk : UInt64
  mem : Mem
  old : List UInt8
  offsets : IndexOffsets
  index : Index
  read : readIndexes host junk old = .ok (offsets, index)
  inside : offsets.pgIndexOffset.toNat ≤ old.length
  small : old.length < 2 ^ 63
  groups : ∀ pg ∈ index.pgRoot, pg.Wf
  vars : ∀ v ∈ index.varsRoot, v.Wf
  attrs : ∀ a ∈ index.attrsRoot, a.AttrWf
  written : WrittenIndex
  writes : writeIndexV1 host version offsets.pgIndexOffset index ⟨mem, 0⟩ = .ok written
  input : List UInt8
  inOffsets : IndexOffsets
  inIndex : Index
  readInput : readIndexes host junk input = .ok (inOffsets, inIndex)
  timesteps : checkTimesteps index.pgRoot inIndex.pgRoot = true
  rounds : List Round
  file : List UInt8
  fails : copyLoop offsets.pgIndexOffset.toNat inOffsets.pgIndexOffset.toNat rounds 0 old = some file

namespace FailedAppend

variable {host : Endian}

def start (q : FailedAppend host) : Nat := q.offsets.pgIndexOffset.toNat

/-- The file is as long as it was, has the data that it had, and its index is the one that has been
read. -/
def Right (q : FailedAppend host) : Prop :=
  ∃ file, recover host q.version q.mem q.offsets q.index q.file = .ok file ∧
    file.length = q.old.length ∧ file.take q.start = q.old.take q.start ∧
    ∀ junk, ∃ offsets, readIndexes host junk file = .ok (offsets, q.index)

def footerSize (host : Endian) (index : Index) : Nat :=
  imageSize (groupsFields host index.pgRoot) +
    imageSize (sectionFields host (index.varsRoot.map IndexEntry.varRecord)) +
    imageSize (sectionFields host (index.attrsRoot.map IndexEntry.attrRecord)) + 56

/-- The index has this size in the file, nothing in it is not written, and what is written of the
variables is readable, which a histogram is not. -/
structure Clear (q : FailedAppend host) : Prop where
  size : q.start + footerSize host q.index = q.old.length
  entries : q.index.serialised = q.index
  vars : VarsIndexReadable host q.index.varsRoot

end FailedAppend

/-! ## The file -/

theorem take_writeAt {file bytes : List UInt8} {start pos : Nat} (hle : start ≤ pos)
    (hpos : pos ≤ file.length) : (writeAt file pos bytes).take start = file.take start := by
  rw [writeAt, take_append_of_le_length (by rw [length_take]; omega), take_take,
    Nat.min_eq_left hle]

theorem take_of_copyLoop {start toCopy : Nat} {rounds : List Round} {copied : Nat}
    {file file' : List UInt8} (hpos : start + copied ≤ file.length)
    (h : copyLoop start toCopy rounds copied file = some file') :
    start ≤ file'.length ∧ file'.take start = file.take start := by
  have hstop : start ≤ file.length ∧ file.take start = file.take start := ⟨by omega, rfl⟩
  induction rounds generalizing copied file with
  | nil => cases h
  | cons r rounds ih =>
    rw [copyLoop] at h
    by_cases hdone : toCopy ≤ copied
    · rw [if_pos hdone] at h
      cases h
    rw [if_neg hdone] at h
    match hread : r.bytesRead, h with
    | none, h => cases h; exact hstop
    | some [], h => cases h; exact hstop
    | some (b :: bs), h =>
      dsimp only at h
      generalize (b :: bs).take (toCopy - copied) = buf at h
      cases hwritten : r.bytesWritten with
      | none =>
        rw [hwritten] at h
        cases h
        exact hstop
      | some n =>
        rw [hwritten] at h
        dsimp only at h
        have htake := @take_writeAt file (buf.take n) start _ (Nat.le_add_right start copied) hpos
        have hlength : (writeAt file (start + copied) (buf.take n)).length ≥
            start + copied + (buf.take n).length := by
          rw [writeAt, length_append, length_append, length_take]
          omega
        split_ifs at h with hn
        · cases h
          exact ⟨by omega, htake⟩
        · have hnext : start + (copied + n) ≤ (writeAt file (start + copied) (buf.take n)).length := by
            rw [length_take] at hlength
            omega
          obtain ⟨hle, hsame⟩ := ih hnext h ⟨by omega, rfl⟩
          exact ⟨hle, hsame.trans htake⟩

theorem readBack_readIndexes {host : Endian} {junk : UInt64} {file : List UInt8}
    {read : IndexOffsets × Index} (h : readIndexes host junk file = .ok read) :
    ∃ change, (read.2.varsRoot.length < 2 ^ 31 ∧ ∀ v ∈ read.2.varsRoot, ∀ c ∈ v.characteristics,
        ReadBack ⟨host, change, junk⟩ c) ∧
      read.2.attrsRoot.length < 2 ^ 31 ∧ ∀ a ∈ read.2.attrsRoot, ∀ c ∈ a.characteristics,
        ReadBack ⟨host, change, junk⟩ c := by
  unfold readIndexes at h
  obtain ⟨⟨⟨_, change⟩, _⟩, -, h⟩ := exists_of_bind_eq_ok h
  dsimp only at h
  obtain ⟨⟨b, _⟩, -, h⟩ := exists_of_bind_eq_ok h
  obtain ⟨⟨pgs, _⟩, -, h⟩ := exists_of_bind_eq_ok h
  obtain ⟨⟨vars, _⟩, hvars, h⟩ := exists_of_bind_eq_ok h
  obtain ⟨⟨attrs, _⟩, hattrs, h⟩ := exists_of_bind_eq_ok h
  cases h
  exact ⟨change, readBack_parseEntries _ (fun type first c id hc => readBack_parseVarItem _ type
    first hc id) _ _ _ hvars, readBack_parseEntries _ (fun type _ c id hc => readBack_parseAttrItem
    _ type hc id) _ _ _ hattrs⟩

namespace FailedAppend

variable {host : Endian}

theorem recover_eq (q : FailedAppend host) :
    recover host q.version q.mem q.offsets q.index q.file =
      .ok (q.old.take q.start ++ (writeVersionV1 host q.written.buf).since 0) := by
  obtain ⟨hle, htake⟩ := take_of_copyLoop (show q.start + 0 ≤ q.old.length from q.inside) q.fails
  rw [recover, q.writes, ok_bind]
  generalize (writeVersionV1 host q.written.buf).since 0 = buffer
  show Except.ok ((writeAt q.file q.start buffer).take (q.start + buffer.length)) = _
  have hlength : (q.file.take q.start).length = q.start := length_take_of_le hle
  rw [writeAt, ← append_assoc, take_left' (by rw [length_append, hlength]), htake]

theorem length_recovered {q : FailedAppend host} (h : VarsIndexReadable host q.index.varsRoot) :
    (q.old.take q.start ++ (writeVersionV1 host q.written.buf).since 0).length =
      q.start + footerSize host q.index := by
  obtain ⟨-, vars, info, buf, out, hout, rfl, hinfo, hfooter⟩ :=
    writeVersionV1_since q.groups q.attrs q.writes
  rw [h.write_eq q.vars] at hout
  cases hout
  rw [hfooter, Buffer.since_write]
  simp only [length_append, length_render, hinfo, Endian.length_u64, Endian.length_u32,
    length_take_of_le (show q.start ≤ q.old.length from q.inside), footerSize]
  omega

theorem readIndexes_recovered {q : FailedAppend host}
    (h : VarsIndexReadable host q.index.varsRoot) (hsmall : q.start + footerSize host q.index < 2 ^ 64)
    (junk : UInt64) : ∃ offsets,
      readIndexes host junk (q.old.take q.start ++ (writeVersionV1 host q.written.buf).since 0) =
        .ok (offsets, q.index.serialised) := by
  obtain ⟨change, hvars, hattrs⟩ := readBack_readIndexes q.read
  obtain ⟨offsets, info, hversion, hoffsets, -, hpgs, ⟨buf, out, hout, hsince⟩, hattr, -⟩ :=
    FooterReadable.roundTrip q.groups q.attrs q.writes
      (show (q.old.take q.start).length = _ from length_take_of_le q.inside)
      (by rwa [length_recovered h])
      ⟨hattrs.1, fun a ha _ c hc => (hattrs.2 a ha c hc).value⟩ junk
  obtain ⟨out', hout', hparse⟩ := h.roundTrip q.vars
    (fun v hv _ c hc => (hvars.2 v hv c hc).value) buf junk []
  rw [hout] at hout'
  cases hout'
  rw [append_nil] at hparse
  refine ⟨offsets, ?_⟩
  rw [readIndexes, hversion, ok_bind]
  dsimp only
  rw [hoffsets, ok_bind]
  dsimp only
  rw [hpgs, ok_bind]
  dsimp only
  rw [hsince, hparse, ok_bind]
  dsimp only
  rw [hattr, ok_bind]
  rfl

theorem Clear.right {q : FailedAppend host} (h : q.Clear) : q.Right := by
  have hsmall := q.small
  refine ⟨_, q.recover_eq, (length_recovered h.vars).trans h.size, ?_, fun junk => ?_⟩
  · exact take_left' (length_take_of_le q.inside)
  · obtain ⟨offsets, hread⟩ := readIndexes_recovered h.vars (by rw [h.size]; omega) junk
    exact ⟨offsets, hread.trans (by rw [h.entries])⟩

theorem Right.clear {q : FailedAppend host} (h : q.Right) (hhost : host = .little) : q.Clear := by
  obtain ⟨file, hfile, hlength, -, hread⟩ := h
  rw [recover_eq] at hfile
  cases hfile
  obtain ⟨offsets, hread₀⟩ := hread 0
  obtain ⟨_, hread₁⟩ := hread 1
  obtain ⟨change₀, hvars₀, -⟩ := readBack_readIndexes hread₀
  obtain ⟨change₁, hvars₁, -⟩ := readBack_readIndexes hread₁
  obtain ⟨-, _, _, _, _, hout, -⟩ := writeVersionV1_since q.groups q.attrs q.writes
  have hvars : VarsIndexReadable host q.index.varsRoot :=
    { count := hvars₀.1
      sets := length_lt_of_writeEntries hout
      -- a minimum that depends on what memory holds is not that of the file
      hist := fun v hv c hc hs hd => ((q.vars v hv).characteristics c hc).no_hist hs hd
        (show ReadEnv.histMin ⟨host, change₀, 0⟩ ≠ ReadEnv.histMin ⟨host, change₁, 1⟩ by
          cases change₀ <;> cases change₁ <;> cases host <;> decide)
        ((hvars₀.2 v hv c hc).histMin _) ((hvars₁.2 v hv c hc).histMin _)
      dims := fun v hv c hc _ => by
        have := (hvars₀.2 v hv c hc).transform
        omega
      byte := fun v hv c hc ht => by
        rw [hhost]
        exact enumByte_little (((q.vars v hv).characteristics c hc).transform ht).1.defined }
  have hsize := (length_recovered hvars).symm.trans hlength
  have hsmall := q.small
  obtain ⟨_, hback⟩ := readIndexes_recovered hvars (by rw [hsize]; omega) 0
  obtain ⟨-, hentries⟩ := Prod.mk.inj (Except.ok.inj (hread₀.symm.trans hback))
  exact ⟨hsize, hentries.symm, hvars⟩

end FailedAppend

/-- **A failed append.** The output is as it was if it is clear; on a little-endian machine in no
other case. -/
theorem failedAppend_right_iff {host : Endian} (q : FailedAppend host) :
    (q.Clear → q.Right) ∧ (host = .little → q.Right → q.Clear) :=
  ⟨fun h => h.right, fun hhost h => h.clear hhost⟩

def firstGroup : IndexProcessGroup := ⟨CString.empty, .yes, 4, some CString.empty, 1, 0⟩

def oldFile (data : List UInt8) : List UInt8 :=
  let start := UInt64.ofNat data.length
  let u64 := Endian.little.u64
  data ++ (render false (groupsFields .little [firstGroup]) ++
    (render false (sectionFields .little []) ++ (render false (sectionFields .little []) ++
    (u64 start ++ (u64 (start + 39) ++ (u64 (start + 51) ++ [0, 0, 0, 1]))))))

def unreadable : FailedAppend .little where
  version := ⟨[49], 1, 9, 0⟩
  junk := 0
  mem := fun _ => 0
  old := oldFile [1, 2, 3]
  offsets := ⟨3, 3, 39, 42, 12, 54, 12⟩
  index := ⟨[firstGroup], [], []⟩
  read := rfl
  inside := by decide
  small := by decide
  groups := by
    rintro pg hpg
    obtain rfl := mem_singleton.mp hpg
    exact ⟨by decide, by decide⟩
  vars := nofun
  attrs := nofun
  written := _
  writes := rfl
  input := oldFile [4]
  inOffsets := _
  inIndex := _
  readInput := rfl
  timesteps := rfl
  rounds := [⟨none, none⟩]
  file := _
  fails := rfl

/-- The file is 28 bytes longer than it was. -/
theorem not_right_unreadable : ¬unreadable.Right :=
  fun h => absurd (h.clear rfl).size (by decide)

end Adios.Bpappend
