import Adios.Index.Parse

/-!
# Adios — the last 28 bytes of a file

`bp_read_minifooter` of `core/bp_utils.c`: where the index sections start, which version the file
has, and which byte order. The offsets are compared with one another and with the size of the file
before the sizes of the sections are computed from them, but not with the place where the 28 bytes
themselves start.
-/

namespace Adios

open Wire UInt64

/-- The last bytes of a file, as `MPI_File_read` puts them into the buffer. -/
structure TrailingBytes where
  buff : List UInt8
  length : buff.length = 28

/-- `adios_error (err_file_open_error, "Invalid BP file detected. …")` -/
inductive FooterError where
  /-- "Format version of file seems to be %d, which is greater than the highest supported …" -/
  | version (version : UInt32)
  /-- "PG index offset (%lld) > file size (%lld)" -/
  | pgPastEnd (pgIndexOffset : UInt64)
  /-- "Variable index offset (%lld) > file size (%lld)" -/
  | varsPastEnd (varsIndexOffset : UInt64)
  /-- "Variable index offset (%lld) < PG index offset (%lld)" -/
  | varsBeforePg (varsIndexOffset pgIndexOffset : UInt64)
  /-- "Attribute index offset (%lld) > file size (%lld)" -/
  | attrsPastEnd (attrsIndexOffset : UInt64)
  /-- "Attribute index offset (%lld) < Variable index offset (%lld)" -/
  | attrsBeforeVars (attrsIndexOffset varsIndexOffset : UInt64)
  deriving DecidableEq, Repr

/-- What `bp_read_minifooter` sets in `struct bp_minifooter` and in the buffer, and the size of the
footer that it reads. -/
structure Minifooter where
  version : UInt32
  changeEndianness : Bool
  offsets : IndexOffsets
  footerSize : UInt64
  deriving DecidableEq, Repr

namespace TrailingBytes

variable (host : Endian) (t : TrailingBytes)

/-- `adios_parse_version` of the last four bytes; the buffer is long enough for it. -/
def parsedVersion : UInt32 × Bool :=
  match parseVersion host t.buff.length (t.buff.drop 24) with
  | .ok (parsed, _) => parsed
  | .error _ => (0, false)

/-- `BUFREAD64` at an offset. -/
def bufRead64 (offset : Nat) : UInt64 :=
  let x := host.toU64 ((t.buff.drop offset).take 8)
  if (t.parsedVersion host).2 then swap64 x else x

/-- `b->pg_index_offset` -/
def pgIndexOffset : UInt64 := t.bufRead64 host 0

/-- `b->vars_index_offset` -/
def varsIndexOffset : UInt64 := t.bufRead64 host 8

/-- `b->attrs_index_offset` -/
def attrsIndexOffset : UInt64 := t.bufRead64 host 16

end TrailingBytes

/-- `bp_read_minifooter` -/
def bpReadMinifooter (host : Endian) (fileSize : UInt64) (t : TrailingBytes) :
    Except FooterError Minifooter :=
  let attrsEnd := fileSize - 28
  let (version, changeEndianness) := t.parsedVersion host
  if version &&& 0x000000ff > 2 then .error (.version (version &&& 0x000000ff))
  else
    let pgIndexOffset := t.pgIndexOffset host
    if pgIndexOffset > fileSize then .error (.pgPastEnd pgIndexOffset)
    else
      let varsIndexOffset := t.varsIndexOffset host
      if varsIndexOffset > fileSize then .error (.varsPastEnd varsIndexOffset)
      else if varsIndexOffset < pgIndexOffset then
        .error (.varsBeforePg varsIndexOffset pgIndexOffset)
      else
        let attrsIndexOffset := t.attrsIndexOffset host
        if attrsIndexOffset > fileSize then .error (.attrsPastEnd attrsIndexOffset)
        else if attrsIndexOffset < varsIndexOffset then
          .error (.attrsBeforeVars attrsIndexOffset varsIndexOffset)
        else .ok
          { version, changeEndianness
            offsets :=
              { endOfPgs := pgIndexOffset
                pgIndexOffset
                pgSize := varsIndexOffset - pgIndexOffset
                varsIndexOffset
                varsSize := attrsIndexOffset - varsIndexOffset
                attrsIndexOffset
                attrsSize := attrsEnd - attrsIndexOffset }
            footerSize := fileSize - pgIndexOffset }

/-! ## The sections -/

structure IndexOffsets.Ordered (o : IndexOffsets) (fileSize : Nat) : Prop where
  vars : o.pgIndexOffset ≤ o.varsIndexOffset
  attrs : o.varsIndexOffset ≤ o.attrsIndexOffset
  last : o.attrsIndexOffset.toNat + 28 ≤ fileSize
  pgSize : (o.pgSize.toNat : Int) = o.varsIndexOffset.toNat - o.pgIndexOffset.toNat
  varsSize : (o.varsSize.toNat : Int) = o.attrsIndexOffset.toNat - o.varsIndexOffset.toNat
  attrsSize : (o.attrsSize.toNat : Int) = (fileSize : Int) - 28 - o.attrsIndexOffset.toNat
  sum : ((o.pgSize.toNat + o.varsSize.toNat + o.attrsSize.toNat : Nat) : Int) =
    (fileSize : Int) - 28 - o.pgIndexOffset.toNat

def TrailingBytes.Refused (host : Endian) (fileSize : UInt64) (t : TrailingBytes) : Prop :=
  (t.parsedVersion host).1 &&& 0x000000ff > 2 ∨ t.pgIndexOffset host > fileSize ∨
    t.varsIndexOffset host > fileSize ∨ t.varsIndexOffset host < t.pgIndexOffset host ∨
    t.attrsIndexOffset host > fileSize ∨ t.attrsIndexOffset host < t.varsIndexOffset host

section

variable {host : Endian} {fileSize : UInt64} {t : TrailingBytes}

theorem refused_of_error {e : FooterError} (h : bpReadMinifooter host fileSize t = .error e) :
    t.Refused host fileSize := by
  unfold bpReadMinifooter at h
  dsimp only at h
  unfold TrailingBytes.Refused
  split_ifs at h with hversion hpg hvars hbefore hattrs hbefore'
  · exact .inl hversion
  · exact .inr (.inl hpg)
  · exact .inr (.inr (.inl hvars))
  · exact .inr (.inr (.inr (.inl hbefore)))
  · exact .inr (.inr (.inr (.inr (.inl hattrs))))
  · exact .inr (.inr (.inr (.inr (.inr hbefore'))))

theorem bpReadMinifooter_ok {m : Minifooter} (h : bpReadMinifooter host fileSize t = .ok m) :
    ¬t.Refused host fileSize ∧ m.offsets.pgIndexOffset = t.pgIndexOffset host ∧
      m.offsets.varsIndexOffset = t.varsIndexOffset host ∧
      m.offsets.attrsIndexOffset = t.attrsIndexOffset host ∧
      m.offsets.pgSize = t.varsIndexOffset host - t.pgIndexOffset host ∧
      m.offsets.varsSize = t.attrsIndexOffset host - t.varsIndexOffset host ∧
      m.offsets.attrsSize = fileSize - 28 - t.attrsIndexOffset host := by
  unfold bpReadMinifooter at h
  dsimp only at h
  unfold TrailingBytes.Refused
  split_ifs at h with hversion hpg hvars hbefore hattrs hbefore'
  cases h
  refine ⟨?_, rfl, rfl, rfl, rfl, rfl, rfl⟩
  rintro (h | h | h | h | h | h)
  · exact hversion h
  · exact hpg h
  · exact hvars h
  · exact hbefore h
  · exact hattrs h
  · exact hbefore' h

theorem toNat_sub_of_ge {a b : UInt64} (h : b.toNat ≤ a.toNat) :
    (a - b).toNat = a.toNat - b.toNat := by
  have ha := a.toNat_lt
  rw [UInt64.toNat_sub]
  omega

/-- **The sections are in order exactly when** the index ends before the last 28 bytes. -/
theorem minifooter_ordered_iff (host : Endian) (fileSize : UInt64) (t : TrailingBytes) :
    (∀ m, bpReadMinifooter host fileSize t = .ok m → m.offsets.Ordered fileSize.toNat) ↔
      t.Refused host fileSize ∨ (t.attrsIndexOffset host).toNat + 28 ≤ fileSize.toNat := by
  constructor
  · intro h
    cases hread : bpReadMinifooter host fileSize t with
    | error e => exact .inl (refused_of_error hread)
    | ok m =>
      obtain ⟨-, -, -, hattrs, -⟩ := bpReadMinifooter_ok hread
      have hlast := (h m hread).last
      rw [hattrs] at hlast
      exact .inr hlast
  · intro h m hread
    obtain ⟨hpassed, hpg, hvars, hattrs, hpgSize, hvarsSize, hattrsSize⟩ :=
      bpReadMinifooter_ok hread
    have hlast := h.resolve_left hpassed
    unfold TrailingBytes.Refused at hpassed
    push Not at hpassed
    obtain ⟨-, -, -, hle, -, hle'⟩ := hpassed
    have hlen : (28 : UInt64).toNat = 28 := rfl
    have hend : (fileSize - 28).toNat = fileSize.toNat - 28 :=
      toNat_sub_of_ge (by rw [hlen]; omega)
    rw [lt_iff_toNat_lt] at hle hle'
    have hsize := toNat_sub_of_ge (Nat.not_lt.mp hle)
    have hsize' := toNat_sub_of_ge (Nat.not_lt.mp hle')
    have hsize'' : (fileSize - 28 - t.attrsIndexOffset host).toNat =
        (fileSize - 28).toNat - (t.attrsIndexOffset host).toNat :=
      toNat_sub_of_ge (by omega)
    refine ⟨?_, ?_, ?_, ?_, ?_, ?_, ?_⟩
    · rw [hpg, hvars, ← UInt64.not_lt, lt_iff_toNat_lt]
      exact hle
    · rw [hvars, hattrs, ← UInt64.not_lt, lt_iff_toNat_lt]
      exact hle'
    · rw [hattrs]
      exact hlast
    · rw [hpgSize, hpg, hvars]
      omega
    · rw [hvarsSize, hvars, hattrs]
      omega
    · rw [hattrsSize, hattrs]
      omega
    · rw [hpgSize, hvarsSize, hattrsSize, hpg]
      omega

end

def offsetsOfNinety : TrailingBytes where
  buff := [90, 0, 0, 0, 0, 0, 0, 0, 90, 0, 0, 0, 0, 0, 0, 0, 90, 0, 0, 0, 0, 0, 0, 0, 0, 0, 0, 2]
  length := rfl

/-- In a file of 100 bytes the index would start behind the place where the last 28 bytes do. -/
theorem not_ordered_offsetsOfNinety : ¬∀ m, bpReadMinifooter .little 100 offsetsOfNinety = .ok m →
    m.offsets.Ordered (100 : UInt64).toNat := fun h => by
  have hread : ∃ m, bpReadMinifooter .little 100 offsetsOfNinety = .ok m ∧
      m.offsets.attrsIndexOffset = 90 := ⟨_, rfl, rfl⟩
  obtain ⟨m, hok, hattrs⟩ := hread
  have hlast := (h m hok).last
  rw [hattrs] at hlast
  exact absurd hlast (by decide)

end Adios
