import Adios.Read.StagedExchange

/-!
# Staged read — what the aggregator sends

The data of the requests, put one behind the other into a buffer that grows, with a size and an
offset for each member. A request changes what is sent to its own member only.
-/

namespace Adios.Staged

open List Lists
open Amr (Failure toInt)

/-! ## The buffer -/

structure SendBuffer.Holds (b : SendBuffer) (content : List UInt8) : Prop where
  bytes : b.bytes = content
  offset : b.offset.toNat = content.length

def roomStep : Option Nat → Nat → Nat → Option Nat
  | none, offset, size =>
    if offset + size + 1000 < 4294967296 then some (offset + size + 1000) else none
  | some bufferSize, offset, size =>
    if offset + size ≤ bufferSize then some bufferSize
    else if offset + size + 1000 < 4294967296 then some (offset + size + 1000) else none

theorem room_cons_iff {bufferSize : Option Nat} {offset size : Nat} {sizes : List Nat} :
    Room bufferSize offset (size :: sizes) ↔ ∃ room, roomStep bufferSize offset size = some room ∧
      Room (some room) (offset + size) sizes := by
  have hgrow : (offset + size + 1000 < 4294967296 ∧
        Room (some (offset + size + 1000)) (offset + size) sizes) ↔
      ∃ room, (if offset + size + 1000 < 4294967296 then some (offset + size + 1000) else none) =
        some room ∧ Room (some room) (offset + size) sizes := by
    by_cases hfits : offset + size + 1000 < 4294967296
    · rw [if_pos hfits]
      exact ⟨fun h => ⟨_, rfl, h.2⟩, fun ⟨_, heq, h⟩ => ⟨hfits, Option.some.inj heq ▸ h⟩⟩
    · rw [if_neg hfits]
      exact ⟨fun h => absurd h.1 hfits, fun ⟨_, heq, _⟩ => nomatch heq⟩
  cases bufferSize with
  | none => exact hgrow
  | some bufferSize =>
    by_cases hle : offset + size ≤ bufferSize
    · have hstep : roomStep (some bufferSize) offset size = some bufferSize := if_pos hle
      have hroom : Room (some bufferSize) offset (size :: sizes) ↔
          Room (some bufferSize) (offset + size) sizes := by
        show (if _ then _ else _) ↔ _
        rw [if_pos hle]
      rw [hstep, hroom]
      exact ⟨fun h => ⟨_, rfl, h⟩, fun ⟨_, heq, h⟩ => Option.some.inj heq ▸ h⟩
    · have hstep : roomStep (some bufferSize) offset size = _ := if_neg hle
      rw [hstep, ← hgrow]
      show (if _ then _ else _) ↔ _
      rw [if_neg hle]

theorem grown_spec {b : SendBuffer} {size : UInt32} (hsize : size.toNat < 2147483648) :
    (∀ room, roomStep (b.bufferSize.map UInt32.toNat) b.offset.toNat size.toNat = some room →
      (b.grown size).toNat = room ∧ b.offset.toNat + size.toNat ≤ room ∧ room < 4294967296) ∧
    (roomStep (b.bufferSize.map UInt32.toNat) b.offset.toNat size.toNat = none →
      (b.grown size).toNat < b.offset.toNat + size.toNat) := by
  have hoffset : b.offset.toNat < 4294967296 := b.offset.toNat_lt
  have hadd : (b.offset + size).toNat = (b.offset.toNat + size.toNat) % 4294967296 :=
    UInt32.toNat_add _ _
  have hgrow : (b.offset + size + 1000).toNat =
      (b.offset.toNat + size.toNat + 1000) % 4294967296 := by
    rw [UInt32.toNat_add, hadd, Nat.mod_add_mod]
    rfl
  unfold SendBuffer.grown roomStep
  cases hbuffer : b.bufferSize with
  | none =>
    dsimp only [Option.map_none]
    by_cases hfits : b.offset.toNat + size.toNat + 1000 < 4294967296
    · rw [if_pos hfits]
      exact ⟨fun room heq => (by cases heq; omega), fun heq => (nomatch heq)⟩
    · rw [if_neg hfits]
      exact ⟨fun room heq => (nomatch heq), fun _ => by omega⟩
  | some bufferSize =>
    have hlt : bufferSize.toNat < 4294967296 := bufferSize.toNat_lt
    dsimp only [Option.map_some]
    by_cases hle : b.offset.toNat + size.toNat ≤ bufferSize.toNat
    · have hnot : ¬b.offset + size > bufferSize := by
        rw [gt_iff_lt, UInt32.lt_iff_toNat_lt]
        omega
      rw [if_pos hle, if_neg hnot]
      exact ⟨fun room heq => Option.some.inj heq ▸ ⟨rfl, hle, hlt⟩, fun heq => (nomatch heq)⟩
    · rw [if_neg hle]
      by_cases hfits : b.offset.toNat + size.toNat + 1000 < 4294967296
      · have hgt : b.offset + size > bufferSize := by
          rw [gt_iff_lt, UInt32.lt_iff_toNat_lt]
          omega
        rw [if_pos hfits, if_pos hgt]
        exact ⟨fun room heq => (by cases heq; omega), fun heq => (nomatch heq)⟩
      · rw [if_neg hfits]
        refine ⟨fun room heq => (nomatch heq), fun _ => ?_⟩
        split_ifs with hgt
        · omega
        · omega

theorem SendBuffer.Holds.write32 {b : SendBuffer} {bytes data : List UInt8} (h : b.Holds bytes)
    {size : UInt32} (hdata : data.length = size.toNat)
    (hsize : size.toNat < 2147483648) {room : Nat}
    (hroom : roomStep (b.bufferSize.map UInt32.toNat) bytes.length size.toNat = some room) :
    ∃ b', b.write32 data size = .ok b' ∧ b'.Holds (bytes ++ data) ∧
      b'.bufferSize.map UInt32.toNat = some room := by
  obtain ⟨heq, hle, hlt⟩ := (@grown_spec b size hsize).1 room (h.offset ▸ hroom)
  have hoffset := h.offset
  refine ⟨_, if_neg (by omega), ⟨?_, ?_⟩, congrArg some heq⟩
  · show b.bytes.take b.offset.toNat ++ data.take size.toNat ++
      b.bytes.drop (b.offset.toNat + size.toNat) = _
    rw [h.bytes, h.offset, ← hdata, take_length, take_length,
      drop_eq_nil_of_le (Nat.le_add_right _ _), append_nil]
  · show (b.offset + size).toNat = _
    rw [UInt32.toNat_add, h.offset, length_append, hdata]
    exact Nat.mod_eq_of_lt (by omega)

theorem SendBuffer.Holds.write32_fails {b : SendBuffer} {bytes : List UInt8} (h : b.Holds bytes)
    {size : UInt32} (hsize : size.toNat < 2147483648)
    (hroom : roomStep (b.bufferSize.map UInt32.toNat) bytes.length size.toNat = none)
    (data : List UInt8) : b.write32 data size = .error (.fault .outOfBounds) := by
  exact if_pos ((@grown_spec b size hsize).2 (h.offset ▸ hroom))

/-! ## One request -/

/-- What the aggregator of a group of `n` knows about its group. -/
structure Pvt.Serves (pvt : Pvt) (n : Nat) : Prop where
  aggregator : pvt.aggregatorRank = pvt.rank
  mapping (i : Nat) (h : i < n) : pvt.rankToGroupMapping (pvt.rank + i) = pvt.group

structure Sends.Sized (s : Sends) (n : Nat) : Prop where
  sizes : s.sizes.length = n
  offsets : s.offsets.length = n

/-- Where the data of a request goes that the member `i` has sent. -/
structure Sends.Sent (s : Sends) (bytes : List UInt8) (i : Nat) (r : Filled) (s' : Sends) :
    Prop where
  sizes : ∀ size, s.sizes[i]? = some size →
    s'.sizes = s.sizes.set i (toInt (UInt64.ofInt size + r.entry.request.datasize).toNat)
  offsets : ∀ offset, s.offsets[i]? = some offset →
    s'.offsets = if offset = -1 then s.offsets.set i (toInt bytes.length) else s.offsets
  holds : s'.buffer.Holds (bytes ++ r.data)

section

variable {pvt : Pvt} {n : Nat} {s s' : Sends} {bytes : List UInt8} {r : Filled} {i : Nat}

theorem sendRequest_self (h : r.entry.rank = pvt.rank) : pvt.sendRequest s r = .ok s :=
  if_neg fun hother => hother.2 h.symm

theorem Pvt.Serves.sendRequest (h : pvt.Serves n) (hs : s.Sized n) (hb : s.buffer.Holds bytes)
    (hi : 0 < i) (hin : i < n) (hrank : r.entry.rank = pvt.rank + i)
    (hsmall : r.entry.request.datasize.toNat < 2147483648) :
    (∃ room, roomStep (s.buffer.bufferSize.map UInt32.toNat) bytes.length
        r.entry.request.datasize.toNat = some room ∧
      ∃ s', pvt.sendRequest s r = .ok s' ∧ s'.buffer.bufferSize.map UInt32.toNat = some room ∧
        s.Sent bytes i r s') ∨
    roomStep (s.buffer.bufferSize.map UInt32.toNat) bytes.length
        r.entry.request.datasize.toNat = none ∧
      ∃ f, pvt.sendRequest s r = .error f := by
  have hother : pvt.rankToGroupMapping r.entry.rank = pvt.group ∧ pvt.rank ≠ r.entry.rank := by
    rw [hrank]
    exact ⟨h.mapping i hin, by omega⟩
  have hindex : r.entry.rank - pvt.aggregatorRank = i := by
    rw [hrank, h.aggregator]
    omega
  obtain ⟨offset, hoffset⟩ : ∃ offset, s.offsets[i]? = some offset :=
    ⟨_, getElem?_eq_getElem (hs.offsets ▸ hin)⟩
  obtain ⟨size, hsize⟩ : ∃ size, s.sizes[i]? = some size :=
    ⟨_, getElem?_eq_getElem (hs.sizes ▸ hin)⟩
  have hnat : r.entry.request.datasize.toUInt32.toNat = r.entry.request.datasize.toNat := by
    rw [UInt64.toNat_toUInt32]
    exact Nat.mod_eq_of_lt (by omega)
  unfold Pvt.sendRequest
  rw [if_pos hother]
  dsimp only
  rw [hindex, hoffset, hsize]
  dsimp only
  cases hstep : roomStep (s.buffer.bufferSize.map UInt32.toNat) bytes.length
      r.entry.request.datasize.toNat with
  | some room =>
    obtain ⟨b, hwrite, hholds, hroom⟩ :=
      hb.write32 (r.length_data.trans hnat.symm) (hnat ▸ hsmall) (hnat ▸ hstep)
    rw [hwrite, ok_bind]
    refine .inl ⟨room, rfl, _, rfl, hroom, fun size' h' => ?_, fun offset' h' => ?_, hholds⟩
    · rw [← Option.some.inj (hsize.symm.trans h')]
    · rw [← Option.some.inj (hoffset.symm.trans h'), hb.offset]
  | none =>
    rw [hb.write32_fails (hnat ▸ hsmall) (hnat ▸ hstep)]
    exact .inr ⟨rfl, _, rfl⟩

theorem Sends.Sent.sized (h : s.Sent bytes i r s') (hs : s.Sized n) (hin : i < n) : s'.Sized n where
  sizes := by
    rw [h.sizes _ (getElem?_eq_getElem (hs.sizes ▸ hin)), length_set]
    exact hs.sizes
  offsets := by
    rw [h.offsets _ (getElem?_eq_getElem (hs.offsets ▸ hin))]
    split_ifs
    · rw [length_set]
      exact hs.offsets
    · exact hs.offsets

theorem Sends.Sent.frame (h : s.Sent bytes i r s') (hs : s.Sized n) (hin : i < n) {j : Nat}
    (hne : i ≠ j) : s'.sizes[j]? = s.sizes[j]? ∧ s'.offsets[j]? = s.offsets[j]? := by
  rw [h.sizes _ (getElem?_eq_getElem (hs.sizes ▸ hin)),
    h.offsets _ (getElem?_eq_getElem (hs.offsets ▸ hin))]
  refine ⟨getElem?_set_ne hne, ?_⟩
  split_ifs
  · exact getElem?_set_ne hne
  · rfl

end

/-! ## All requests -/

/-- Requests of the other members of a group of `n`, none of them for two gigabytes. -/
def Pvt.Others (pvt : Pvt) (n : Nat) (list : List Filled) : Prop :=
  ∀ r ∈ list, (∃ i < n, 0 < i ∧ r.entry.rank = pvt.rank + i) ∧
    r.entry.request.datasize.toNat < 2147483648

section

variable {pvt : Pvt} {n : Nat} {s s' : Sends} {bytes : List UInt8} {list : List Filled}

theorem foldlM_sendRequest_self (h : ∀ r ∈ list, r.entry.rank = pvt.rank) :
    list.foldlM pvt.sendRequest s = .ok s := by
  induction list with
  | nil => rfl
  | cons r list ih =>
    obtain ⟨hself, hrest⟩ := forall_mem_cons.mp h
    rw [List.foldlM_cons, sendRequest_self hself, ok_bind]
    exact ih hrest

theorem Pvt.Serves.foldlM_iff (h : pvt.Serves n) (hs : s.Sized n) (hb : s.buffer.Holds bytes)
    (hlist : pvt.Others n list) : (∃ s', list.foldlM pvt.sendRequest s = .ok s') ↔
      Room (s.buffer.bufferSize.map UInt32.toNat) bytes.length
        (list.map fun r => r.entry.request.datasize.toNat) := by
  induction list generalizing s bytes with
  | nil => exact ⟨fun _ => (by cases s.buffer.bufferSize <;> exact trivial), fun _ => ⟨s, rfl⟩⟩
  | cons r list ih =>
    obtain ⟨⟨⟨i, hin, hi, hrank⟩, hsmall⟩, hrest⟩ := forall_mem_cons.mp hlist
    rw [List.foldlM_cons, map_cons, room_cons_iff]
    obtain ⟨room, hstep, s₁, hsend, hroom, hsent⟩ | ⟨hstep, f, hsend⟩ :=
      h.sendRequest hs hb hi hin hrank hsmall
    · rw [hsend, ok_bind, ih (hsent.sized hs hin) hsent.holds hrest, hroom, hstep,
        length_append, r.length_data]
      exact ⟨fun hr => ⟨room, rfl, hr⟩, fun ⟨_, heq, hr⟩ => Option.some.inj heq ▸ hr⟩
    · rw [hsend, hstep]
      exact ⟨fun ⟨_, heq⟩ => (nomatch heq), fun ⟨_, heq, _⟩ => (nomatch heq)⟩

theorem Pvt.Serves.foldlM_cons {r : Filled} (h : pvt.Serves n) (hs : s.Sized n)
    (hb : s.buffer.Holds bytes) (hlist : pvt.Others n (r :: list))
    (hrun : (r :: list).foldlM pvt.sendRequest s = .ok s') :
    ∃ i s₁, i < n ∧ r.entry.rank = pvt.rank + i ∧ s.Sent bytes i r s₁ ∧ s₁.Sized n ∧
      pvt.Others n list ∧ list.foldlM pvt.sendRequest s₁ = .ok s' := by
  obtain ⟨⟨⟨i, hin, hi, hrank⟩, hsmall⟩, hrest⟩ := forall_mem_cons.mp hlist
  rw [List.foldlM_cons] at hrun
  obtain ⟨room, -, s₁, hsend, -, hsent⟩ | ⟨-, f, hsend⟩ :=
    h.sendRequest hs hb hi hin hrank hsmall
  · rw [hsend, ok_bind] at hrun
    exact ⟨i, s₁, hin, hrank, hsent, hsent.sized hs hin, hrest, hrun⟩
  · rw [hsend] at hrun
    cases hrun

section

variable (h : pvt.Serves n) (hs : s.Sized n) (hb : s.buffer.Holds bytes) (hlist : pvt.Others n list)
  (hrun : list.foldlM pvt.sendRequest s = .ok s')

include h hs hb hlist hrun

theorem Pvt.Serves.foldlM_holds :
    s'.Sized n ∧ s'.buffer.Holds (bytes ++ list.flatMap Filled.data) := by
  induction list generalizing s bytes with
  | nil =>
    cases hrun
    exact ⟨hs, (append_nil bytes).symm ▸ hb⟩
  | cons r list ih =>
    obtain ⟨i, s₁, -, -, hsent, hs₁, hrest, hrun⟩ := h.foldlM_cons hs hb hlist hrun
    rw [flatMap_cons, ← append_assoc]
    exact ih hs₁ hsent.holds hrest hrun

theorem Pvt.Serves.foldlM_frame {j : Nat} (hne : ∀ r ∈ list, r.entry.rank ≠ pvt.rank + j) :
    s'.sizes[j]? = s.sizes[j]? ∧ s'.offsets[j]? = s.offsets[j]? := by
  induction list generalizing s bytes with
  | nil =>
    cases hrun
    exact ⟨rfl, rfl⟩
  | cons r list ih =>
    obtain ⟨hj, hnot⟩ := forall_mem_cons.mp hne
    obtain ⟨i, s₁, hin, hrank, hsent, hs₁, hrest, hrun⟩ := h.foldlM_cons hs hb hlist hrun
    obtain ⟨hsizes, hoffsets⟩ := ih hs₁ hsent.holds hrest hrun hnot
    have hij : i ≠ j := fun hij => hj (hij ▸ hrank)
    obtain ⟨hsize, hoffset⟩ := hsent.frame hs hin hij
    exact ⟨hsizes.trans hsize, hoffsets.trans hoffset⟩

/-- The size for a member is the sum that the member has, whatever an `int` makes of it. -/
theorem Pvt.Serves.foldlM_sizes {i : Nat}
    (hown : ∀ r ∈ list, r.entry.rank = pvt.rank + i) {size : Int}
    (hsize : s.sizes[i]? = some size) :
    s'.sizes[i]? = some ((list.map fun r => r.entry.request).foldl
      (fun size r => toInt (UInt64.ofInt size + r.datasize).toNat) size) := by
  induction list generalizing s bytes size with
  | nil =>
    cases hrun
    exact hsize
  | cons r list ih =>
    obtain ⟨hrank, hown⟩ := forall_mem_cons.mp hown
    obtain ⟨j, s₁, hjn, hj, hsent, hs₁, hrest, hrun⟩ := h.foldlM_cons hs hb hlist hrun
    obtain rfl : j = i := Nat.add_left_cancel (hj.symm.trans hrank)
    rw [map_cons, foldl_cons]
    refine ih hs₁ hsent.holds hrest hrun hown ?_
    rw [hsent.sizes size hsize, getElem?_set_self (hs.sizes ▸ hjn)]

theorem Pvt.Serves.foldlM_offset_kept {i : Nat}
    (hown : ∀ r ∈ list, r.entry.rank = pvt.rank + i) {offset : Int}
    (hoffset : s.offsets[i]? = some offset) (hne : offset ≠ -1) :
    s'.offsets[i]? = some offset := by
  induction list generalizing s bytes with
  | nil =>
    cases hrun
    exact hoffset
  | cons r list ih =>
    obtain ⟨hrank, hown⟩ := forall_mem_cons.mp hown
    obtain ⟨j, s₁, -, hj, hsent, hs₁, hrest, hrun⟩ := h.foldlM_cons hs hb hlist hrun
    obtain rfl : j = i := Nat.add_left_cancel (hj.symm.trans hrank)
    refine ih hs₁ hsent.holds hrest hrun hown ?_
    rw [hsent.offsets offset hoffset, if_neg hne, hoffset]

theorem Pvt.Serves.foldlM_offset {i : Nat}
    (hown : ∀ r ∈ list, r.entry.rank = pvt.rank + i) (hoffset : s.offsets[i]? = some (-1))
    (hne : toInt bytes.length ≠ -1) (hnil : list ≠ []) :
    s'.offsets[i]? = some (toInt bytes.length) := by
  cases list with
  | nil => exact absurd rfl hnil
  | cons r list =>
    obtain ⟨hrank, hown⟩ := forall_mem_cons.mp hown
    obtain ⟨j, s₁, hjn, hj, hsent, hs₁, hrest, hrun⟩ := h.foldlM_cons hs hb hlist hrun
    obtain rfl : j = i := Nat.add_left_cancel (hj.symm.trans hrank)
    refine h.foldlM_offset_kept hs₁ hsent.holds hrest hrun hown ?_ hne
    rw [hsent.offsets _ hoffset, if_pos rfl, getElem?_set_self (hs.offsets ▸ hjn)]

end

end

end Adios.Staged
