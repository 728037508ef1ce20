import Adios.Amr.BrigadeGather
import Adios.Wire.Endian
import Mathlib.Data.List.Forall2

/-!
# MPI_AMR — how the indexes of other processes are gathered

Both gathers of `adios_mpi_amr_bg_close`, that of the members by their aggregator and that of the
aggregators by rank 0: a `MPI_Gather` of the buffer sizes, offsets from them, a `MPI_Gatherv` of the
buffers. A size is a `uint64_t` of which `MPI_INT` names the first four bytes; the offsets are kept
in a `uint32_t` and put into `int`s.
-/

namespace Adios.Amr

open List Wire

/-- What `MPI_INT` takes of a `uint64_t` in memory. -/
def firstInt (host : Endian) (x : UInt64) : Int :=
  match host with
  | .little => toInt x.toNat
  | .big => toInt (x.toNat / 4294967296)

/-- "`index_offsets [i] = total_size; total_size += index_sizes [i];`" -/
def indexOffsets (totalSize : UInt32) : List Int → List Int × UInt32
  | [] => ([], totalSize)
  | size :: sizes =>
    let (offsets, total) := indexOffsets (totalSize + UInt32.ofInt size) sizes
    (toInt totalSize.toNat :: offsets, total)

/-- One message of a `MPI_Gatherv`: its sender's count has to be the receiver's. -/
def receive (recvBuffer : List UInt8) (offset size : Int) (buf : List UInt8) :
    Except Failure (List UInt8) :=
  if toInt buf.length ≠ size ∨ size < 0 then .error .mpiError
  else if offset < 0 ∨ recvBuffer.length < offset + size then .error (.fault .outOfBounds)
  else .ok (recvBuffer.take offset.toNat ++ buf.take size.toNat ++
    recvBuffer.drop (offset + size).toNat)

def receiveAll (recvBuffer : List UInt8) : List (Int × Int) → List (List UInt8) →
    Except Failure (List UInt8)
  | (offset, size) :: places, buf :: bufs => do
    let recvBuffer ← receive recvBuffer offset size buf
    receiveAll recvBuffer places bufs
  | _, _ => .ok recvBuffer

/-- The receive buffer, and the offset and size of each index but the root's own, of which nothing
is sent. -/
structure IndexGather where
  recvBuffer : List UInt8
  places : List (Int × Int)

def gatherIndexes (host : Endian) (bufs : List (List UInt8)) : Except Failure IndexGather := do
  let sizes := bufs.map fun buf => firstInt host (UInt64.ofNat buf.length)
  let (offsets, totalSize) := indexOffsets 0 sizes
  let recvBuffer ← receiveAll (List.replicate totalSize.toNat 0) (offsets.zip sizes) bufs
  return { recvBuffer, places := offsets.zip sizes }

/-- "`md->b.buff = recv_buffer + index_offsets [i]; md->b.length = index_sizes [i];`" -/
def IndexGather.segment (g : IndexGather) (place : Int × Int) : List UInt8 :=
  (g.recvBuffer.drop place.1.toNat).take place.2.toNat

structure Separated (bufs : List (List UInt8)) (g : IndexGather) : Prop where
  own : Forall₂ (fun place buf => 0 ≤ place.1 ∧ 0 ≤ place.2 ∧
    place.1 + place.2 ≤ (g.recvBuffer.length : Int) ∧ g.segment place = buf) g.places bufs
  disjoint : g.places.Pairwise fun place place' => place.1 + place.2 ≤ place'.1

/-! ## When the sizes fit -/

/-- The sizes come through, and an `int` holds each offset. -/
structure GatherFits (host : Endian) (bufs : List (List UInt8)) : Prop where
  sizes (buf : List UInt8) (h : buf ∈ bufs) : firstInt host (UInt64.ofNat buf.length) = buf.length
  offsets (i : Nat) (h : i < bufs.length) : (bufs.take i).flatten.length < 2147483648

theorem firstInt_range (host : Endian) (x : UInt64) :
    -2147483648 ≤ firstInt host x ∧ firstInt host x < 2147483648 := by
  cases host with
  | little => exact ⟨le_toInt _, toInt_lt _⟩
  | big => exact ⟨le_toInt _, toInt_lt _⟩

theorem toNat_add_ofInt {total : UInt32} {size : Int} (h : 0 ≤ size)
    (hsum : total.toNat + size < 4294967296) :
    ((total + UInt32.ofInt size).toNat : Int) = total.toNat + size := by
  have hsize : (UInt32.ofInt size).toNat = size.toNat := by
    rw [UInt32.ofInt, UInt32.toNat_ofNat']
    omega
  rw [UInt32.toNat_add, hsize]
  omega

variable (bufs : List (List UInt8))

theorem indexOffsets_eq (total : UInt32) (hsizes : ∀ buf ∈ bufs, buf.length < 2147483648)
    (hoffsets : ∀ i < bufs.length, total.toNat + (bufs.take i).flatten.length < 2147483648) :
    (indexOffsets total (bufs.map fun buf => (buf.length : Int))).1 = starts total.toNat bufs ∧
      ((indexOffsets total (bufs.map fun buf => (buf.length : Int))).2.toNat =
        total.toNat + bufs.flatten.length) := by
  induction bufs generalizing total with
  | nil => exact ⟨rfl, (Nat.add_zero _).symm⟩
  | cons buf bufs ih =>
    have hbuf := hsizes buf mem_cons_self
    have hzero := hoffsets 0 (Nat.succ_pos _)
    rw [take_zero, flatten_nil, length_nil] at hzero
    have hadd := @toNat_add_ofInt total (buf.length : Int) (by omega) (by omega)
    obtain ⟨hoff, htotal⟩ := ih (total + UInt32.ofInt buf.length)
      (fun b hb => hsizes b (mem_cons_of_mem buf hb)) fun i hi => by
        have hnext := hoffsets (i + 1) (Nat.succ_lt_succ hi)
        rw [take_succ_cons, flatten_cons, length_append] at hnext
        omega
    have hnat : (total + UInt32.ofInt buf.length).toNat = total.toNat + buf.length := by omega
    rw [hnat] at hoff htotal
    refine ⟨?_, ?_⟩
    · show toInt total.toNat ::
        (indexOffsets (total + UInt32.ofInt buf.length)
          (bufs.map fun buf => (buf.length : Int))).1 = _
      rw [hoff, toInt_of_lt (by omega)]
      rfl
    · show (indexOffsets (total + UInt32.ofInt buf.length)
        (bufs.map fun buf => (buf.length : Int))).2.toNat = _
      rw [htotal, flatten_cons, length_append, Nat.add_assoc]

theorem receiveAll_starts (pre : List UInt8) (post : List UInt8)
    (hsizes : ∀ buf ∈ bufs, buf.length < 2147483648) (hpost : post.length = bufs.flatten.length) :
    receiveAll (pre ++ post) ((starts pre.length bufs).zip (bufs.map fun buf => (buf.length : Int)))
      bufs = .ok (pre ++ bufs.flatten) := by
  induction bufs generalizing pre post with
  | nil =>
    rw [length_eq_zero_iff.mp hpost]
    rfl
  | cons buf bufs ih =>
    rw [flatten_cons, length_append] at hpost
    have hlen := hsizes buf mem_cons_self
    have hcount : toInt buf.length = (buf.length : Int) := toInt_of_lt (by omega)
    have hone : receive (pre ++ post) (pre.length : Int) buf.length buf =
        .ok (pre ++ buf ++ post.drop buf.length) := by
      rw [receive, hcount, if_neg (by omega), if_neg (by rw [length_append]; omega),
        Int.toNat_natCast, Int.toNat_natCast, take_left, take_length]
      have hend : ((pre.length : Int) + buf.length).toNat = pre.length + buf.length := by omega
      rw [hend, drop_append, drop_eq_nil_of_le (by omega), nil_append]
      have hdrop : pre.length + buf.length - pre.length = buf.length := by omega
      rw [hdrop]
    have hrest := ih (pre ++ buf) (post.drop buf.length)
      (fun b hb => hsizes b (mem_cons_of_mem buf hb)) (by rw [length_drop]; omega)
    rw [starts, map_cons, zip_cons_cons, receiveAll, hone, ok_bind]
    rw [length_append] at hrest
    rw [hrest, flatten_cons, append_assoc]

theorem separated_starts (pre : List UInt8) (places : List (Int × Int))
    (hplaces : places = (starts pre.length bufs).zip (bufs.map fun buf => (buf.length : Int))) :
    Separated bufs ⟨pre ++ bufs.flatten, places⟩ := by
  subst hplaces
  suffices h : ∀ post, Forall₂ (fun (place : Int × Int) buf => 0 ≤ place.1 ∧ 0 ≤ place.2 ∧
      place.1 + place.2 ≤ ((pre ++ bufs.flatten ++ post).length : Int) ∧
        ((pre ++ bufs.flatten ++ post).drop place.1.toNat).take place.2.toNat = buf)
      ((starts pre.length bufs).zip (bufs.map fun buf => (buf.length : Int))) bufs ∧
      (((starts pre.length bufs).zip (bufs.map fun buf => (buf.length : Int))).Pairwise
        fun place place' => place.1 + place.2 ≤ place'.1) ∧
      ∀ place ∈ (starts pre.length bufs).zip (bufs.map fun buf => (buf.length : Int)),
        (pre.length : Int) ≤ place.1 by
    obtain ⟨hown, hdisjoint, -⟩ := h []
    rw [append_nil] at hown
    exact ⟨hown, hdisjoint⟩
  induction bufs generalizing pre with
  | nil => exact fun _ => ⟨.nil, .nil, fun _ h => by cases h⟩
  | cons buf bufs ih =>
    intro post
    obtain ⟨hown, hdisjoint, hbehind⟩ := ih (pre ++ buf) post
    have hbytes : pre ++ (buf :: bufs).flatten ++ post = pre ++ buf ++ bufs.flatten ++ post := by
      rw [flatten_cons, ← append_assoc pre]
    have hlen : (pre ++ buf).length = pre.length + buf.length := length_append
    rw [hlen] at hown hdisjoint hbehind
    rw [starts, map_cons, zip_cons_cons, hbytes]
    refine ⟨.cons ⟨by omega, by omega, ?_, ?_⟩ hown, pairwise_cons.mpr ⟨fun place hplace => ?_,
      hdisjoint⟩, fun place hplace => ?_⟩
    · simp only [length_append]
      omega
    · rw [Int.toNat_natCast, Int.toNat_natCast, append_assoc, append_assoc, drop_left, take_left]
    · have hle := hbehind place hplace
      omega
    · rcases mem_cons.mp hplace with rfl | hplace
      · exact Int.le_refl _
      · have hle := hbehind place hplace
        omega

theorem GatherFits.gather {host : Endian} {bufs : List (List UInt8)} (h : GatherFits host bufs) :
    ∃ g, gatherIndexes host bufs = .ok g ∧ Separated bufs g := by
  have hsizes : (bufs.map fun buf => firstInt host (UInt64.ofNat buf.length)) =
      bufs.map fun buf => (buf.length : Int) := map_congr_left fun buf hbuf => h.sizes buf hbuf
  have hlt : ∀ buf ∈ bufs, buf.length < 2147483648 := fun buf hbuf => by
    have hrange := firstInt_range host (UInt64.ofNat buf.length)
    rw [h.sizes buf hbuf] at hrange
    omega
  have hzero : (0 : UInt32).toNat = 0 := rfl
  obtain ⟨hoffsets, htotal⟩ := indexOffsets_eq bufs 0 hlt fun i hi => by
    have hoffset := h.offsets i hi
    rw [hzero]
    omega
  rw [hzero] at hoffsets htotal
  rw [Nat.zero_add] at htotal
  have hreceive := receiveAll_starts bufs [] (List.replicate bufs.flatten.length 0) hlt
    length_replicate
  refine ⟨⟨[] ++ bufs.flatten, (starts 0 bufs).zip (bufs.map fun buf => (buf.length : Int))⟩, ?_,
    separated_starts bufs [] _ rfl⟩
  rw [gatherIndexes]
  dsimp only
  rw [hsizes, hoffsets, htotal]
  exact congrArg (· >>= _) hreceive

theorem lt_of_toInt_nonneg {n : Nat} (hn : n < 4294967296) (h : 0 ≤ toInt n) : n < 2147483648 := by
  have hmod : toInt n % 4294967296 = (n : Int) % 4294967296 := Int.bmod_emod
  have hlt := toInt_lt n
  omega

theorem length_indexOffsets (total : UInt32) (sizes : List Int) :
    (indexOffsets total sizes).1.length = sizes.length := by
  induction sizes generalizing total with
  | nil => rfl
  | cons size sizes ih => exact congrArg (· + 1) (ih _)

theorem sums_of_nonneg (total : UInt32) (hsizes : ∀ buf ∈ bufs, buf.length < 2147483648) (hnonneg :
      ∀ offset ∈ (indexOffsets total (bufs.map fun buf => (buf.length : Int))).1, 0 ≤ offset) :
    ∀ i < bufs.length, total.toNat + (bufs.take i).flatten.length < 2147483648 := by
  induction bufs generalizing total with
  | nil => exact fun i hi => absurd hi (Nat.not_lt_zero i)
  | cons buf bufs ih =>
    have hbuf := hsizes buf mem_cons_self
    have hfirst : (0 : Int) ≤ toInt total.toNat := hnonneg _ mem_cons_self
    have htotal := lt_of_toInt_nonneg total.toNat_lt hfirst
    intro i hi
    match i with
    | 0 => rw [take_zero, flatten_nil, length_nil]; exact htotal
    | i + 1 =>
      have hadd := @toNat_add_ofInt total (buf.length : Int) (by omega) (by omega)
      have hrest := ih (total + UInt32.ofInt buf.length)
        (fun b hb => hsizes b (mem_cons_of_mem buf hb))
        (fun offset hoffset => hnonneg offset (mem_cons_of_mem _ hoffset)) i
        (Nat.lt_of_succ_lt_succ hi)
      rw [take_succ_cons, flatten_cons, length_append]
      omega

theorem sizes_of_own {offsets : List Int} {bufs : List (List UInt8)} {size : List UInt8 → Int}
    (hlen : offsets.length = bufs.length)
    (h : Forall₂ (fun place buf => 0 ≤ place.1 ∧ place.2 = (buf.length : Int))
      (offsets.zip (bufs.map size)) bufs) :
    (∀ buf ∈ bufs, size buf = buf.length) ∧ ∀ offset ∈ offsets, 0 ≤ offset := by
  induction bufs generalizing offsets with
  | nil =>
    rw [length_eq_zero_iff.mp hlen]
    exact ⟨fun _ h => absurd h not_mem_nil, fun _ h => absurd h not_mem_nil⟩
  | cons buf bufs ih =>
    match offsets, hlen with
    | offset :: offsets, hlen =>
      rw [map_cons, zip_cons_cons] at h
      cases h with
      | cons hfirst hrest =>
        obtain ⟨hsizes, hoffsets⟩ := ih (Nat.succ.inj hlen) hrest
        exact ⟨forall_mem_cons.mpr ⟨hfirst.2, hsizes⟩,
          forall_mem_cons.mpr ⟨hfirst.1, hoffsets⟩⟩

theorem Separated.sizes {bufs : List (List UInt8)} {g : IndexGather} (h : Separated bufs g) :
    Forall₂ (fun place buf => 0 ≤ place.1 ∧ place.2 = (buf.length : Int)) g.places bufs := by
  refine h.own.imp fun place buf hplace => ?_
  obtain ⟨hoffset, hsize, hend, hbuf⟩ := hplace
  have hlen := congrArg List.length hbuf
  rw [IndexGather.segment, length_take, length_drop] at hlen
  omega

theorem gather_iff (host : Endian) (bufs : List (List UInt8)) :
    (∃ g, gatherIndexes host bufs = .ok g ∧ Separated bufs g) ↔ GatherFits host bufs := by
  refine ⟨?_, GatherFits.gather⟩
  rintro ⟨g, hg, hsep⟩
  obtain ⟨recvBuffer, -, hg⟩ := exists_of_bind_eq_ok hg
  injection hg with hg
  subst hg
  obtain ⟨hsizes, hoffsets⟩ :=
    sizes_of_own (by rw [length_indexOffsets, length_map]) hsep.sizes
  have hmap : (bufs.map fun buf => firstInt host (UInt64.ofNat buf.length)) =
      bufs.map fun buf => (buf.length : Int) := map_congr_left hsizes
  have hlt : ∀ buf ∈ bufs, buf.length < 2147483648 := fun buf hbuf => by
    have hrange := firstInt_range host (UInt64.ofNat buf.length)
    rw [hsizes buf hbuf] at hrange
    omega
  rw [hmap] at hoffsets
  refine ⟨hsizes, fun i hi => ?_⟩
  have hsum := sums_of_nonneg bufs 0 hlt hoffsets i hi
  omega

end Adios.Amr
