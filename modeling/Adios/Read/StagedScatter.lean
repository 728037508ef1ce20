import Adios.Read.StagedSends

/-!
# Staged read — what the members receive

The requests of a member stand together in the list of the aggregator, so that its data is one
piece of what is scattered. The member takes it apart again with the sizes that it has itself.
-/

namespace Adios.Staged

open List Lists
open Amr (Failure toInt)

/-! ## Sizes -/

theorem dataLength_cons (r : Request) (requests : List Request) :
    dataLength (r :: requests) = r.datasize.toNat + dataLength requests := by
  unfold dataLength
  rw [map_cons, sum_cons]

variable {requests : List Request}

theorem datasize_le_dataLength {r : Request} (h : r ∈ requests) :
    r.datasize.toNat ≤ dataLength requests := by
  induction requests with
  | nil => cases h
  | cons q requests ih =>
    rw [dataLength_cons]
    cases h with
    | head => exact Nat.le_add_right _ _
    | tail _ h => exact Nat.le_trans (ih h) (Nat.le_add_left _ _)

theorem length_flatMap_data (list : List Filled) :
    (list.flatMap Filled.data).length = dataLength (list.map fun r => r.entry.request) := by
  induction list with
  | nil => rfl
  | cons r list ih =>
    rw [flatMap_cons, length_append, map_cons, dataLength_cons, ih, r.length_data]

theorem receiveSize_of_small (h : dataLength requests < 2147483648) :
    receiveSize requests = dataLength requests := by
  have hfrom : ∀ size : Nat, size + dataLength requests < 2147483648 →
      requests.foldl (fun size r => toInt (UInt64.ofInt size + r.datasize).toNat) (size : Int) =
        ((size + dataLength requests : Nat) : Int) := by
    clear h
    induction requests with
    | nil => exact fun _ _ => rfl
    | cons r requests ih =>
      intro size hsmall
      rw [dataLength_cons] at hsmall ⊢
      have hnat : (UInt64.ofInt (size : Int)).toNat = size :=
        Amr.toNat_ofInt_of_nonneg (by omega) (by omega)
      have hadd : (UInt64.ofInt (size : Int) + r.datasize).toNat = size + r.datasize.toNat := by
        rw [UInt64.toNat_add, hnat]
        exact Nat.mod_eq_of_lt (by omega)
      rw [foldl_cons, hadd, Amr.toInt_of_lt (by omega), ih _ (by omega), Nat.add_assoc]
  have hsize := hfrom 0 (by omega)
  rw [Nat.zero_add] at hsize
  exact hsize

theorem receiveSize_lt (requests : List Request) : receiveSize requests < 2147483648 := by
  have hfrom : ∀ size : Int, size < 2147483648 →
      requests.foldl (fun size r => toInt (UInt64.ofInt size + r.datasize).toNat) size <
        2147483648 := by
    induction requests with
    | nil => exact fun _ h => h
    | cons r requests ih =>
      intro size _
      rw [foldl_cons]
      exact ih _ (Amr.toInt_lt _)
  exact hfrom 0 (by decide)

/-! ## Taking the data apart -/

theorem copyOut_flatMap (list : List Filled) :
    copyOut (list.flatMap Filled.data) (list.map fun r => r.entry.request) =
      .ok (list.map Filled.data) := by
  induction list with
  | nil => rfl
  | cons r list ih =>
    have hlen := r.length_data
    have hle : r.entry.request.datasize.toNat ≤ (r.data ++ list.flatMap Filled.data).length := by
      rw [length_append]
      omega
    rw [flatMap_cons, map_cons, copyOut, if_neg (Nat.not_lt.mpr hle),
      drop_left' hlen, take_left' hlen, ih]
    rfl

theorem dataLength_le_of_copyOut {b : List UInt8} {data : List (List UInt8)}
    (h : copyOut b requests = .ok data) :
    dataLength requests ≤ b.length := by
  induction requests generalizing b data with
  | nil => exact Nat.zero_le _
  | cons r requests ih =>
    unfold copyOut at h
    split_ifs at h with hshort
    obtain ⟨rest, hrest, -⟩ := exists_of_bind_eq_ok h
    have hle := ih hrest
    rw [length_drop] at hle
    rw [dataLength_cons]
    omega

theorem segment_eq_ok {s : Sends} {offset size count : Int} {b : List UInt8}
    (h : s.segment offset size count = .ok b) : size = count ∧ 0 ≤ count ∧
      b.length = count.toNat ∧ (0 < count → 0 ≤ offset) := by
  unfold Sends.segment at h
  split_ifs at h with herror hzero hbounds
  · cases h
    exact ⟨by omega, by omega, by rw [hzero]; rfl, by omega⟩
  · cases h
    refine ⟨by omega, by omega, ?_, by omega⟩
    rw [length_take, length_drop]
    omega

theorem dataLength_of_getReadData {host : Host} {s : Sends} {i : Nat} {data : List (List UInt8)}
    (h : getReadData host s i requests = .ok data) :
    host.Mallocs (receiveSize requests) ∧ dataLength requests < 2147483648 := by
  unfold getReadData at h
  dsimp only at h
  split_ifs at h with hmallocs
  refine ⟨hmallocs, ?_⟩
  split at h
  · obtain ⟨recvBuff, hsegment, hcopy⟩ := exists_of_bind_eq_ok h
    obtain ⟨-, -, hlen, -⟩ := segment_eq_ok hsegment
    have hle := dataLength_le_of_copyOut hcopy
    have hlt := receiveSize_lt requests
    omega
  · cases h

structure Sends.Places (s : Sends) (before own behind : List Filled) (i : Nat) : Prop where
  sizes : s.sizes[i]? = some (receiveSize (own.map fun r => r.entry.request))
  offsets : ∃ offset, s.offsets[i]? = some offset ∧
    (0 < dataLength (own.map fun r => r.entry.request) →
      offset = toInt (dataLength (before.map fun r => r.entry.request)))
  bytes : s.buffer.bytes = before.flatMap Filled.data ++ (own.flatMap Filled.data ++
    behind.flatMap Filled.data)
  small : s.buffer.bytes.length < 4294967296

section

variable {host : Host} {pvt : Pvt} {n i : Nat} {s : Sends} {before own behind : List Filled}

theorem Pvt.Serves.places (h : pvt.Serves n) (hlist : pvt.Others n (before ++ (own ++ behind)))
    (hrun : pvt.sendReadData n (before ++ (own ++ behind)) = .ok s) (hin : i < n)
    (hbefore : ∀ r ∈ before, r.entry.rank ≠ pvt.rank + i)
    (hown : ∀ r ∈ own, r.entry.rank = pvt.rank + i)
    (hbehind : ∀ r ∈ behind, r.entry.rank ≠ pvt.rank + i) : s.Places before own behind i := by
  have hlist₁ := fun r hr => hlist r (mem_append_left _ hr)
  have hlist₂ := fun r hr => hlist r (mem_append_right _ (mem_append_left _ hr))
  have hlist₃ := fun r hr => hlist r (mem_append_right _ (mem_append_right _ hr))
  unfold Pvt.sendReadData at hrun
  rw [foldlM_append] at hrun
  obtain ⟨s₁, hrun₁, hrun⟩ := exists_of_bind_eq_ok hrun
  rw [foldlM_append] at hrun
  obtain ⟨s₂, hrun₂, hrun₃⟩ := exists_of_bind_eq_ok hrun
  -- nothing is there at the start
  have hsized : Sends.Sized ⟨List.replicate n 0, List.replicate n (-1), [], none, 0⟩ n :=
    ⟨length_replicate, length_replicate⟩
  have hholds : SendBuffer.Holds ⟨[], none, 0⟩ [] := ⟨rfl, rfl⟩
  -- the requests of the members before this one
  obtain ⟨hsized₁, hholds₁⟩ := h.foldlM_holds hsized hholds hlist₁ hrun₁
  obtain ⟨hsizes₁, hoffsets₁⟩ := h.foldlM_frame hsized hholds hlist₁ hrun₁ hbefore
  rw [getElem?_replicate_of_lt hin] at hsizes₁ hoffsets₁
  -- its own
  obtain ⟨hsized₂, hholds₂⟩ := h.foldlM_holds hsized₁ hholds₁ hlist₂ hrun₂
  have hsizes₂ := h.foldlM_sizes hsized₁ hholds₁ hlist₂ hrun₂ hown hsizes₁
  have hoffsets₂ := fun hne hnil =>
    h.foldlM_offset hsized₁ hholds₁ hlist₂ hrun₂ hown hoffsets₁ hne hnil
  -- and those of the members behind it
  obtain ⟨hsized₃, hholds₃⟩ := h.foldlM_holds hsized₂ hholds₂ hlist₃ hrun₃
  obtain ⟨hsizes₃, hoffsets₃⟩ := h.foldlM_frame hsized₂ hholds₂ hlist₃ hrun₃ hbehind
  have hbytes := hholds₃.bytes
  have hsmall : s.buffer.bytes.length < 4294967296 := by
    rw [hbytes, ← hholds₃.offset]
    exact s.buffer.offset.toNat_lt
  rw [nil_append, append_assoc] at hbytes
  refine ⟨hsizes₃.trans hsizes₂, ?_, hbytes, hsmall⟩
  obtain ⟨offset, hoffset⟩ : ∃ offset, s.offsets[i]? = some offset :=
    ⟨_, getElem?_eq_getElem (hsized₃.offsets ▸ hin)⟩
  refine ⟨offset, hoffset, fun hpos => ?_⟩
  rw [hbytes, length_append, length_append, length_flatMap_data, length_flatMap_data] at hsmall
  rw [nil_append, length_flatMap_data] at hoffsets₂
  -- an offset of -1 would take a buffer of four gigabytes
  have hne : toInt (dataLength (before.map fun r => r.entry.request)) ≠ -1 := fun heq => by
    have hmod : toInt (dataLength (before.map fun r => r.entry.request)) % 4294967296 =
      (dataLength (before.map fun r => r.entry.request) : Int) % 4294967296 := Int.bmod_emod
    omega
  have hnil : own ≠ [] := fun hnil => by
    rw [hnil] at hpos
    exact absurd hpos (Nat.lt_irrefl 0)
  exact Option.some.inj (hoffset.symm.trans (hoffsets₃.trans (hoffsets₂ hne hnil)))

/-- **A member receives its data** if an `int` holds the place where the data starts. -/
theorem getReadData_eq_ok_iff (h : s.Places before own behind i)
    (hsmall : dataLength (own.map fun r => r.entry.request) < 2147483648)
    {data : List (List UInt8)} :
    getReadData host s i (own.map fun r => r.entry.request) = .ok data ↔
      (host.Mallocs (dataLength (own.map fun r => r.entry.request)) ∧
        (0 < dataLength (own.map fun r => r.entry.request) →
          dataLength (before.map fun r => r.entry.request) < 2147483648)) ∧
      data = own.map Filled.data := by
  obtain ⟨offset, hoffset, hstart⟩ := h.offsets
  have hsize := receiveSize_of_small hsmall
  have hlen := h.small
  rw [h.bytes, length_append, length_append, length_flatMap_data, length_flatMap_data] at hlen
  have hcopy := copyOut_flatMap own
  have hunfold : getReadData host s i (own.map fun r => r.entry.request) =
      if ¬host.Mallocs (dataLength (own.map fun r => r.entry.request)) then .error .returned
      else s.segment offset (dataLength (own.map fun r => r.entry.request))
        (dataLength (own.map fun r => r.entry.request)) >>= fun recvBuff =>
          copyOut recvBuff (own.map fun r => r.entry.request) := by
    unfold getReadData
    rw [h.sizes, hoffset, hsize]
  have hown := length_flatMap_data own
  have hpre := length_flatMap_data before
  have hall : (s.buffer.bytes.length : Int) = dataLength (before.map fun r => r.entry.request) +
      (dataLength (own.map fun r => r.entry.request) +
        (behind.flatMap Filled.data).length) := by
    rw [h.bytes, length_append, length_append, hown, hpre]
    omega
  generalize dataLength (own.map fun r => r.entry.request) = count at *
  generalize dataLength (before.map fun r => r.entry.request) = start at *
  rw [hunfold]
  by_cases hmallocs : host.Mallocs count
  · rw [if_neg (not_not_intro hmallocs)]
    by_cases hfits : 0 < count → start < 2147483648
    · have hsegment : s.segment offset count count = .ok (own.flatMap Filled.data) := by
        unfold Sends.segment
        rw [if_neg (by omega)]
        rcases Nat.eq_zero_or_pos count with hzero | hpos
        · rw [if_pos (by omega), length_eq_zero_iff.mp (hown.trans hzero)]
        · have hplace : offset = start := (hstart hpos).trans (Amr.toInt_of_lt (hfits hpos))
          rw [if_neg (by omega), if_neg (by omega), hplace, Int.toNat_natCast, Int.toNat_natCast,
            h.bytes, drop_left' hpre, take_left' hown]
      rw [hsegment, ok_bind, hcopy]
      exact ⟨fun heq => ⟨⟨hmallocs, hfits⟩, (Except.ok.inj heq).symm⟩, fun heq => heq.2 ▸ rfl⟩
    · refine ⟨fun heq => ?_, fun heq => absurd heq.1.2 hfits⟩
      obtain ⟨b, hsegment, -⟩ := exists_of_bind_eq_ok heq
      obtain ⟨-, -, -, hnonneg⟩ := segment_eq_ok hsegment
      refine absurd (fun hpos => ?_) hfits
      have hplace := hnonneg (by omega)
      rw [hstart hpos] at hplace
      exact Amr.lt_of_toInt_nonneg (by omega) hplace
  · rw [if_pos hmallocs]
    exact ⟨fun heq => (nomatch heq), fun heq => absurd heq.1.1 hmallocs⟩

end

end Adios.Staged
