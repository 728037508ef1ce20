import Adios.Amr.GatherIndex
import Adios.Read.StagedDelivered
import Adios.Read.StagedPacked
import Adios.Read.StagedScatter

/-!
# Staged read — the exchange of a group from one end to the other

The aggregator gathers what the members have packed and parses it at the offsets that it has added
up, puts the data of the others into one buffer and scatters it. Every step but the sums is always
right, so that the numbers of a group decide.
-/

namespace Adios.Staged

open List Wire Lists
open Amr (Failure toInt displacements receiveAll starts)

/-! ## The buffers of the members, gathered -/

/-- `p->b` of a member, when its size is an `int`. -/
def packed (host : Host) (requests : List Request) : List UInt8 :=
  packedBytes host.order requests ++
    List.replicate (packedSize requests - (packedBytes host.order requests).length) 0

section Gather

variable {host : Host}

theorem length_packed (requests : List Request) :
    (packed host requests).length = packedSize requests := by
  have hle := length_packedBytes_le host.order requests
  rw [packed, length_append, length_replicate]
  omega

theorem length_flatten_packed (members : List (List Request)) :
    (members.map (packed host)).flatten.length = (members.map packedSize).sum := by
  rw [List.length_flatten, map_map]
  exact congrArg List.sum (map_congr_left fun requests _ => length_packed requests)

variable {members : List (List Request)}

theorem mapM_pack_iff {bufs : List (List UInt8)} :
    members.mapM (pack host) = .ok bufs ↔
      (∀ requests ∈ members, packedSize requests < 2147483648) ∧
        bufs = members.map (packed host) :=
  mapM_eq_ok_map_iff fun _ _ _ => pack_eq_ok_iff

theorem parseAt_packed_iff {requests : List Request} (hsmall : packedSize requests < 2147483648)
    (pre rest : List UInt8) (src : Nat) {entries : List Entry} :
    parseAt host (pre ++ (packed host requests ++ rest)) pre.length src = .ok entries ↔
      (∀ r ∈ requests, r.Parsable host) ∧ entries = requests.map (Entry.mk src) := by
  have hdrop : (pre ++ (packed host requests ++ rest)).drop (pre.length : Int).toNat =
      packedBytes host.order requests ++ (List.replicate
        (packedSize requests - (packedBytes host.order requests).length) 0 ++ rest) := by
    rw [Int.toNat_natCast, drop_left, packed, append_assoc]
  unfold parseAt
  rw [hdrop]
  constructor
  · intro h
    cases hparse : parseBuffer host src (packedBytes host.order requests ++ (List.replicate
        (packedSize requests - (packedBytes host.order requests).length) 0 ++ rest)) with
    | error f =>
      rw [hparse] at h
      cases h
    | ok result =>
      have hparsable := parsable_of_parseBuffer hsmall hparse
      rw [parses_parseBuffer src hsmall hparsable] at h
      exact ⟨hparsable, (Except.ok.inj h).symm⟩
  · rintro ⟨hparsable, rfl⟩
    rw [parses_parseBuffer src hsmall hparsable]

/-- The requests of some members, from the index `k` on, in the list of the aggregator `a`. -/
def entriesFrom (a k : Nat) (members : List (List Request)) : List Entry :=
  (members.zipIdx k).flatMap fun m => m.1.map (Entry.mk (a + m.2))

theorem mapM_parseAt_iff (a : Nat) (hsmall : ∀ requests ∈ members, packedSize requests < 2147483648)
    (pre : List UInt8) (k : Nat) {parsed : List (List Entry)} :
    ((starts pre.length (members.map (packed host))).zipIdx k).mapM (fun p =>
        parseAt host (pre ++ (members.map (packed host)).flatten) p.1 (a + p.2)) = .ok parsed ↔
      (∀ requests ∈ members, ∀ r ∈ requests, r.Parsable host) ∧
        parsed = (members.zipIdx k).map fun m => m.1.map (Entry.mk (a + m.2)) := by
  rw [mapM_eq_ok_iff]
  induction members generalizing pre k parsed with
  | nil => exact ⟨fun hnil => (by cases hnil; exact ⟨forall_mem_nil _, rfl⟩),
      fun heq => heq.2 ▸ .nil⟩
  | cons requests members ih =>
    obtain ⟨hone, hrest⟩ := forall_mem_cons.mp hsmall
    have ih := fun parsed => @ih hrest (pre ++ packed host requests) (k + 1) parsed
    rw [length_append, append_assoc] at ih
    rw [map_cons, starts, zipIdx_cons, forall₂_cons_left_iff, flatten_cons,
      forall_mem_cons, zipIdx_cons, map_cons]
    constructor
    · rintro ⟨entries, parsed', hentries, hparsed, rfl⟩
      obtain ⟨hp, rfl⟩ := (parseAt_packed_iff hone _ _ _).mp hentries
      obtain ⟨hps, rfl⟩ := (ih _).mp hparsed
      exact ⟨⟨hp, hps⟩, rfl⟩
    · rintro ⟨⟨hp, hps⟩, rfl⟩
      exact ⟨_, _, (parseAt_packed_iff hone _ _ _).mpr ⟨hp, rfl⟩, (ih _).mpr ⟨hps, rfl⟩, rfl⟩

theorem gather_packed {members : List (List Request)}
    (hsmall : (members.map packedSize).sum < 2147483648) :
    displacements 0 ((members.map (packed host)).map fun buf => (buf.length : Int)) =
        .ok (starts 0 (members.map (packed host)), ((members.map packedSize).sum : Nat)) ∧
      receiveAll (List.replicate (members.map packedSize).sum 0)
        ((starts 0 (members.map (packed host))).zip
          ((members.map (packed host)).map fun buf => (buf.length : Int)))
        (members.map (packed host)) = .ok (members.map (packed host)).flatten := by
  have hlength := @length_flatten_packed host members
  have hlt : ∀ buf ∈ members.map (packed host), buf.length < 2147483648 := fun buf hbuf => by
    have hle := le_sum_of_mem (mem_map_of_mem (f := List.length) hbuf)
    rw [← List.length_flatten] at hle
    omega
  have hsizes : ((members.map (packed host)).map fun buf => (buf.length : Int)) =
      (members.map (packed host)).map fun buf => toInt buf.length :=
    map_congr_left fun buf hbuf => (Amr.toInt_of_lt (hlt buf hbuf)).symm
  constructor
  · have hoffsets := Amr.displacements_lengths (members.map (packed host)) 0 (by omega)
    rw [hlength, Nat.zero_add] at hoffsets
    rw [hsizes]
    exact hoffsets
  · have hreceive := Amr.receiveAll_starts (members.map (packed host)) [] (List.replicate
      (members.map packedSize).sum 0) hlt (length_replicate.trans hlength.symm)
    exact hreceive

theorem packed_of_displacements {offsets : List Int} {total : Int} (h : displacements 0
      ((members.map (packed host)).map fun buf => (buf.length : Int)) = .ok (offsets, total)) :
    (members.map packedSize).sum < 2147483648 := by
  have hnonneg : ∀ size ∈ (members.map (packed host)).map (fun buf => (buf.length : Int)),
      0 ≤ size := fun size hsize => by
    obtain ⟨buf, -, rfl⟩ := mem_map.mp hsize
    exact Int.natCast_nonneg _
  have hlength : ((members.map (packed host)).map fun buf => (buf.length : Int)).map Int.toNat =
      (members.map (packed host)).map List.length := map_map
  obtain ⟨htotal, hmax⟩ := Amr.displacements_total h (by decide) hnonneg _ hlength.symm
  rw [length_flatten_packed] at htotal
  omega

end Gather

/-! ## The list of the aggregator -/

section Filling

variable (reads : Reads)

theorem Reads.fill_append (k : Nat) (es es' : List Entry) :
    reads.fill k (es ++ es') = reads.fill k es ++ reads.fill (k + es.length) es' := by
  induction es generalizing k with
  | nil => rfl
  | cons e es ih =>
    rw [cons_append, fill, fill, ih, length_cons, cons_append,
      Nat.add_right_comm k 1, Nat.add_assoc k]

theorem Reads.map_entry_fill (k : Nat) (es : List Entry) :
    (reads.fill k es).map Filled.entry = es := by
  induction es generalizing k with
  | nil => rfl
  | cons e es ih => rw [fill, map_cons, ih]

theorem Reads.map_request_fill (k : Nat) (es : List Entry) :
    ((reads.fill k es).map fun r => r.entry.request) = es.map Entry.request := by
  have hmap : ((reads.fill k es).map fun r => r.entry.request) =
      ((reads.fill k es).map Filled.entry).map Entry.request := map_map.symm
  rw [hmap, reads.map_entry_fill]

theorem Reads.entry_mem_of_mem_fill {k : Nat} {es : List Entry} {r : Filled}
    (h : r ∈ reads.fill k es) : r.entry ∈ es := by
  have hmem := mem_map_of_mem (f := Filled.entry) h
  rw [reads.map_entry_fill] at hmem
  exact hmem

end Filling

section Entries

variable {a : Nat}

theorem entriesFrom_cons (k : Nat) (requests : List Request) (members : List (List Request)) :
    entriesFrom a k (requests :: members) =
      requests.map (Entry.mk (a + k)) ++ entriesFrom a (k + 1) members := by
  rw [entriesFrom, zipIdx_cons, flatMap_cons]
  rfl

theorem entriesFrom_append (k : Nat) (members members' : List (List Request)) :
    entriesFrom a k (members ++ members') =
      entriesFrom a k members ++ entriesFrom a (k + members.length) members' := by
  rw [entriesFrom, zipIdx_append, flatMap_append]
  rfl

theorem mem_entriesFrom {k : Nat} {members : List (List Request)} {e : Entry}
    (h : e ∈ entriesFrom a k members) :
    ∃ i, k ≤ i ∧ i < k + members.length ∧ e.rank = a + i ∧
      ∃ requests ∈ members, e.request ∈ requests := by
  obtain ⟨⟨requests, i⟩, hm, he⟩ := mem_flatMap.mp h
  obtain ⟨r, hr, rfl⟩ := mem_map.mp he
  obtain ⟨hle, hget⟩ := mk_mem_zipIdx_iff_le_and_getElem?_sub.mp hm
  exact ⟨i, hle, snd_lt_add_of_mem_zipIdx hm, rfl, requests, mem_of_getElem? hget, hr⟩

theorem map_request_entriesFrom (k : Nat) (members : List (List Request)) :
    (entriesFrom a k members).map Entry.request = members.flatten := by
  induction members generalizing k with
  | nil => rfl
  | cons requests members ih =>
    rw [entriesFrom_cons, map_append, ih, flatten_cons, map_map]
    exact congrArg (· ++ members.flatten) (map_id requests)

end Entries

def groupList (reads : Reads) (a : Nat) (own : List Request) (others : List (List Request)) :
    List Filled :=
  reads.fill 0 (own.map (Entry.mk a) ++ entriesFrom a 1 others)

section GroupList

variable {reads : Reads} {pvt : Pvt} {own : List Request} {others : List (List Request)}

def sentList (reads : Reads) (a : Nat) (own : List Request) (others : List (List Request)) :
    List Filled :=
  reads.fill own.length (entriesFrom a 1 others)

theorem groupList_eq (a : Nat) : groupList reads a own others =
    reads.fill 0 (own.map (Entry.mk a)) ++ sentList reads a own others := by
  rw [groupList, reads.fill_append, length_map, Nat.zero_add, sentList]

theorem rank_of_mem_own {a : Nat} {r : Filled} (h : r ∈ reads.fill 0 (own.map (Entry.mk a))) :
    r.entry.rank = a := by
  obtain ⟨q, -, hq⟩ := mem_map.mp (reads.entry_mem_of_mem_fill h)
  rw [← hq]

theorem sendReadData_groupList (n : Nat) :
    pvt.sendReadData n (groupList reads pvt.rank own others) =
      pvt.sendReadData n (sentList reads pvt.rank own others) := by
  unfold Pvt.sendReadData
  rw [groupList_eq, foldlM_append, foldlM_sendRequest_self fun r hr => rank_of_mem_own hr, ok_bind]

theorem others_sentList (hsmall : ∀ requests ∈ others, dataLength requests < 2147483648) :
    pvt.Others (others.length + 1) (sentList reads pvt.rank own others) := by
  intro r hr
  obtain ⟨i, hle, hlt, hrank, requests, hmem, hrequest⟩ :=
    mem_entriesFrom (reads.entry_mem_of_mem_fill hr)
  have hdata := datasize_le_dataLength hrequest
  have hone := hsmall requests hmem
  exact ⟨⟨i, by omega, by omega, hrank⟩, by omega⟩

theorem sentList_split (before : List (List Request)) (requests : List Request)
    (behind : List (List Request)) (a : Nat) :
    ∃ pre mine post,
      sentList reads a own (before ++ requests :: behind) = pre ++ (mine ++ post) ∧
      (pre.map fun r => r.entry.request) = before.flatten ∧
      (mine.map fun r => r.entry.request) = requests ∧
      (∀ r ∈ pre, r.entry.rank ≠ a + (1 + before.length)) ∧
      (∀ r ∈ mine, r.entry.rank = a + (1 + before.length)) ∧
      ∀ r ∈ post, r.entry.rank ≠ a + (1 + before.length) := by
  have hsplit : entriesFrom a 1 (before ++ requests :: behind) = entriesFrom a 1 before ++
      (requests.map (Entry.mk (a + (1 + before.length))) ++
        entriesFrom a (1 + before.length + 1) behind) := by
    rw [entriesFrom_append, entriesFrom_cons]
  have heq := reads.fill_append own.length (entriesFrom a 1 before)
    (requests.map (Entry.mk (a + (1 + before.length))) ++
      entriesFrom a (1 + before.length + 1) behind)
  rw [← hsplit, reads.fill_append (own.length + (entriesFrom a 1 before).length)] at heq
  refine ⟨_, _, _, heq, ?_, ?_, fun r hr => ?_, fun r hr => ?_, fun r hr => ?_⟩
  · rw [reads.map_request_fill, map_request_entriesFrom]
  · rw [reads.map_request_fill, map_map]
    exact map_id requests
  · obtain ⟨i, hle, hlt, hrank, -⟩ := mem_entriesFrom (reads.entry_mem_of_mem_fill hr)
    omega
  · obtain ⟨q, -, hq⟩ := mem_map.mp (reads.entry_mem_of_mem_fill hr)
    rw [← hq]
  · obtain ⟨i, hle, hlt, hrank, -⟩ := mem_entriesFrom (reads.entry_mem_of_mem_fill hr)
    omega

end GroupList

/-! ## A group -/

section Group

variable {host : Host} {pvt : Pvt} {reads : Reads} {own : List Request}
  {others : List (List Request)} {s : Sends}

/-- What the member with the index `i` has to get. -/
def dataOf (list : List Filled) (rank : Nat) : List (List UInt8) :=
  (list.filter fun r => r.entry.rank = rank).map Filled.data

section

variable (h : pvt.Serves (others.length + 1))
  (hsmall : ∀ requests ∈ others, dataLength requests < 2147483648)

include h hsmall

/-- The member `i + 1` gets its data if it can allocate a buffer for it and an `int` holds the place
where it starts. -/
theorem getReadData_groupList_iff
    (hrun : pvt.sendReadData (others.length + 1) (sentList reads pvt.rank own others) = .ok s)
    {i : Nat} {requests : List Request} (hi : others[i]? = some requests)
    (data : List (List UInt8)) :
    getReadData host s (1 + i) requests = .ok data ↔
      (host.Mallocs (dataLength requests) ∧
        (0 < dataLength requests → dataLength (others.take i).flatten < 2147483648)) ∧
      data = dataOf (groupList reads pvt.rank own others) (pvt.rank + (1 + i)) := by
  obtain ⟨hlt, rfl⟩ := List.getElem?_eq_some_iff.mp hi
  have hothers : others = others.take i ++ others[i] :: others.drop (i + 1) := by
    rw [← drop_eq_getElem_cons hlt, take_append_drop]
  have hlen : (others.take i).length = i := length_take_of_le (Nat.le_of_lt hlt)
  obtain ⟨pre, mine, post, hsent, hpre, hmine, hbefore, hown, hbehind⟩ :=
    @sentList_split reads own (others.take i) others[i] (others.drop (i + 1)) pvt.rank
  rw [← hothers] at hsent
  rw [hlen] at hbefore hown hbehind
  have hlist := @others_sentList reads pvt own others hsmall
  rw [hsent] at hlist hrun
  have hplaces := h.places hlist hrun (by omega) hbefore hown hbehind
  have hone : dataLength (mine.map fun r => r.entry.request) < 2147483648 := by
    rw [hmine]
    exact hsmall _ (getElem_mem hlt)
  -- no other request has the rank of this member
  have hdata : dataOf (groupList reads pvt.rank own others) (pvt.rank + (1 + i)) =
      mine.map Filled.data := by
    have hfirst : (reads.fill 0 (own.map (Entry.mk pvt.rank))).filter
        (fun r => decide (r.entry.rank = pvt.rank + (1 + i))) = [] :=
      filter_eq_nil_iff.mpr fun r hr => by
        have hrank := rank_of_mem_own hr
        rw [decide_eq_true_eq]
        omega
    have hskip : pre.filter (fun r => decide (r.entry.rank = pvt.rank + (1 + i))) = [] :=
      filter_eq_nil_iff.mpr fun r hr heq => hbefore r hr (of_decide_eq_true heq)
    have hall : mine.filter (fun r => decide (r.entry.rank = pvt.rank + (1 + i))) = mine :=
      filter_eq_self.mpr fun r hr => decide_eq_true (hown r hr)
    have hrest : post.filter (fun r => decide (r.entry.rank = pvt.rank + (1 + i))) = [] :=
      filter_eq_nil_iff.mpr fun r hr heq => hbehind r hr (of_decide_eq_true heq)
    rw [dataOf, groupList_eq, hsent, filter_append, filter_append, filter_append,
      hfirst, hskip, hall, hrest, nil_append, nil_append, append_nil]
  have hiff := @getReadData_eq_ok_iff host (1 + i) s pre mine post hplaces hone data
  rw [hmine, hpre, ← hdata] at hiff
  exact hiff

theorem sendReadData_iff :
    (∃ s, pvt.sendReadData (others.length + 1) (sentList reads pvt.rank own others) = .ok s) ↔
      Room none 0 (others.flatten.map fun r => r.datasize.toNat) := by
  have hsized : Sends.Sized ⟨List.replicate (others.length + 1) 0,
      List.replicate (others.length + 1) (-1), [], none, 0⟩ (others.length + 1) :=
    ⟨length_replicate, length_replicate⟩
  have hiff := h.foldlM_iff hsized ⟨rfl, rfl⟩
    (@others_sentList reads pvt own others hsmall)
  have hsizes : ((sentList reads pvt.rank own others).map
      fun r => r.entry.request.datasize.toNat) = others.flatten.map fun r => r.datasize.toNat := by
    rw [← @map_request_entriesFrom pvt.rank 1 others, ← reads.map_request_fill own.length, map_map]
    rfl
  rw [hsizes] at hiff
  exact hiff

theorem mapM_getReadData_iff
    (hrun : pvt.sendReadData (others.length + 1) (sentList reads pvt.rank own others) = .ok s)
    {received : List (List (List UInt8))} :
    ((others.zipIdx 1).mapM fun m => getReadData host s m.2 m.1) = .ok received ↔
      (∀ m ∈ others.zipIdx 1, host.Mallocs (dataLength m.1) ∧ (0 < dataLength m.1 →
        dataLength (others.take (m.2 - 1)).flatten < 2147483648)) ∧
      received = (others.zipIdx 1).map fun m =>
        dataOf (groupList reads pvt.rank own others) (pvt.rank + m.2) := by
  refine mapM_eq_ok_map_iff fun m hm data => ?_
  obtain ⟨hle, hget⟩ := mem_zipIdx_iff_le_and_getElem?_sub.mp hm
  have hiff := @getReadData_groupList_iff host pvt reads own others s h hsmall hrun _ _ hget data
  rw [Nat.add_sub_cancel' hle] at hiff
  exact hiff

end

theorem performReads_eq (hgroup : pvt.groupSize = others.length + 1)
    (hpacked : ((own :: others).map packedSize).sum < 2147483648) :
    performReads host pvt (own :: others) reads =
      (((starts (packed host own).length (others.map (packed host))).zipIdx 1).mapM (fun p =>
        parseAt host (packed host own ++ (others.map (packed host)).flatten) p.1
          (pvt.aggregatorRank + p.2)) >>= fun parsed =>
      pvt.sendReadData (others.length + 1)
        (reads.fill 0 (own.map (Entry.mk pvt.rank) ++ parsed.flatten)) >>= fun sends =>
      ((others.zipIdx 1).mapM fun m => getReadData host sends m.2 m.1) >>= fun received =>
      .ok { list := reads.fill 0 (own.map (Entry.mk pvt.rank) ++ parsed.flatten), received }) := by
  have hsmall : ∀ requests ∈ own :: others, packedSize requests < 2147483648 :=
    fun requests hr => by
      have hle := le_sum_of_mem (mem_map_of_mem (f := packedSize) hr)
      omega
  have hbufs : (own :: others).mapM (pack host) = .ok ((own :: others).map (packed host)) :=
    mapM_pack_iff.mpr ⟨hsmall, rfl⟩
  obtain ⟨hoffsets, hreceive⟩ := @gather_packed host (own :: others) hpacked
  have hlength : ¬(((own :: others).map (packed host)).map fun buf => (buf.length : Int)).length ≠
      pvt.groupSize := by
    rw [length_map, length_map, length_cons, hgroup]
    exact not_not_intro rfl
  unfold performReads
  rw [hbufs, ok_bind]
  dsimp only
  rw [if_neg hlength, hoffsets, ok_bind]
  dsimp only
  rw [Int.toNat_natCast, hreceive, ok_bind]
  have hstarts : starts 0 ((own :: others).map (packed host)) =
      0 :: starts (packed host own).length (others.map (packed host)) := by
    rw [map_cons, starts, Nat.zero_add]
    rfl
  rw [hstarts]
  rfl

theorem packed_of_performReads {o : Outcome}
    (h : performReads host pvt (own :: others) reads = .ok o) :
    ((own :: others).map packedSize).sum < 2147483648 := by
  obtain ⟨bufs, hbufs, h⟩ := exists_of_bind_eq_ok h
  obtain ⟨-, rfl⟩ := mapM_pack_iff.mp hbufs
  dsimp only at h
  split_ifs at h
  obtain ⟨⟨offsets, total⟩, hoffsets, -⟩ := exists_of_bind_eq_ok h
  exact packed_of_displacements hoffsets

theorem mallocs_iff {size : Nat} :
    host.Mallocs size ↔ (host.mallocZero = false → size ≠ 0) := by
  constructor
  · rintro (hpos | ⟨-, hmalloc⟩) hzero
    · omega
    · exact absurd (hmalloc.symm.trans hzero) (by decide)
  · intro h
    cases hzero : host.mallocZero with
    | true => exact (Nat.eq_zero_or_pos size).symm.imp (by omega) fun h => ⟨by omega, hzero⟩
    | false =>
      have hne := h hzero
      exact .inl (by omega)

theorem Fits.packedSize_lt (h : Fits host (own :: others)) :
    ∀ requests ∈ others, packedSize requests < 2147483648 := fun requests hr => by
  have hle := le_sum_of_mem (mem_map_of_mem (f := packedSize)
    (mem_cons_of_mem own hr))
  have hpacked := h.packed
  unfold packedSize at hle ⊢
  omega

theorem Fits.parsable (h : Fits host (own :: others)) :
    ∀ requests ∈ others, ∀ r ∈ requests, r.Parsable host := fun requests hr r hmem => by
  refine ⟨mallocs_iff.mpr fun hzero => ?_, mallocs_iff.mpr fun hzero hnil => ?_⟩
  · have hbox := ((h.filled hzero requests hr).2 r hmem).1
    have hlen := length_pos_iff.mpr hbox
    omega
  · exact ((h.filled hzero requests hr).2 r hmem).2 (UInt64.toNat_inj.mp hnil)

section

variable (h : pvt.Serves (others.length + 1)) (hgroup : pvt.groupSize = others.length + 1)

include h hgroup

theorem fits_of_performReads {o : Outcome}
    (hrun : performReads host pvt (own :: others) reads = .ok o) :
    Fits host (own :: others) ∧ o.list = groupList reads pvt.rank own others ∧
      o.received = (others.zipIdx 1).map fun m =>
        dataOf (groupList reads pvt.rank own others) (pvt.rank + m.2) := by
  have hpacked := packed_of_performReads hrun
  have hsmall : ∀ requests ∈ others, packedSize requests < 2147483648 := fun requests hr => by
    have hle := le_sum_of_mem (mem_map_of_mem (f := packedSize)
      (mem_cons_of_mem own hr))
    omega
  rw [performReads_eq hgroup hpacked] at hrun
  obtain ⟨parsed, hparsed, hrun⟩ := exists_of_bind_eq_ok hrun
  obtain ⟨hparsable, rfl⟩ := (mapM_parseAt_iff _ hsmall _ _).mp hparsed
  obtain ⟨s, hsends, hrun⟩ := exists_of_bind_eq_ok hrun
  obtain ⟨received, hreceived, hrun⟩ := exists_of_bind_eq_ok hrun
  cases hrun
  rw [h.aggregator, ← flatMap_def] at hsends
  -- whoever has got something has not asked for two gigabytes
  have hgot : ∀ requests ∈ others, host.Mallocs (receiveSize requests) ∧
      dataLength requests < 2147483648 := fun requests hr => by
    obtain ⟨i, hi⟩ := mem_iff_getElem?.mp hr
    obtain ⟨data, hdata⟩ := exists_of_mapM_eq_ok hreceived
      (mk_add_mem_zipIdx_iff_getElem?.mpr hi)
    exact dataLength_of_getReadData hdata
  have hlengths := fun requests hr => (hgot requests hr).2
  have hlist : pvt.sendReadData (others.length + 1) (groupList reads pvt.rank own others) = .ok s :=
    hsends
  rw [sendReadData_groupList] at hlist
  obtain ⟨hplaces, rfl⟩ := (mapM_getReadData_iff h hlengths hlist).mp hreceived
  refine ⟨⟨hpacked, fun hzero requests hr => ⟨fun hnil => ?_, fun r hmem => ?_⟩, hlengths,
    fun i requests hi hpos => ?_, (sendReadData_iff h hlengths).mp ⟨s, hlist⟩⟩, ?_, rfl⟩
  · have hsize := (hgot requests hr).1
    rw [hnil] at hsize
    exact mallocs_iff.mp hsize hzero rfl
  · have hone := hparsable requests hr r hmem
    refine ⟨fun hnil => mallocs_iff.mp hone.box hzero ?_, fun hnil => ?_⟩
    · rw [hnil]
      rfl
    · exact mallocs_iff.mp hone.data hzero (congrArg UInt64.toNat hnil)
  · have hplace := hplaces (requests, 1 + i) (mk_add_mem_zipIdx_iff_getElem?.mpr hi)
    rw [Nat.add_sub_cancel_left] at hplace
    exact hplace.2 hpos
  · rw [h.aggregator, ← flatMap_def]
    rfl

theorem performReads_of_fits (hfits : Fits host (own :: others)) :
    ∃ o, performReads host pvt (own :: others) reads = .ok o := by
  have hmallocs : ∀ requests ∈ others, host.Mallocs (dataLength requests) := fun requests hr =>
    mallocs_iff.mpr fun hzero hnil => by
      obtain ⟨hne, hdata⟩ := hfits.filled hzero requests hr
      obtain ⟨r, hmem⟩ := exists_mem_of_ne_nil requests hne
      have hle := datasize_le_dataLength hmem
      exact (hdata r hmem).2 (UInt64.toNat_inj.mp (Nat.eq_zero_of_le_zero (hnil ▸ hle)))
  rw [performReads_eq hgroup hfits.packed, (mapM_parseAt_iff _ hfits.packedSize_lt _ _).mpr
    ⟨hfits.parsable, rfl⟩, ok_bind, h.aggregator, ← flatMap_def]
  obtain ⟨s, hsends⟩ := (sendReadData_iff h hfits.sizes).mpr hfits.room
  have hlist : pvt.sendReadData (others.length + 1) (groupList reads pvt.rank own others) = .ok s :=
    sendReadData_groupList _ ▸ hsends
  have hplaces : ∀ m ∈ others.zipIdx 1, host.Mallocs (dataLength m.1) ∧ (0 < dataLength m.1 →
      dataLength (others.take (m.2 - 1)).flatten < 2147483648) := fun m hm => by
    obtain ⟨-, hget⟩ := mem_zipIdx_iff_le_and_getElem?_sub.mp hm
    exact ⟨hmallocs _ (mem_of_getElem? hget), fun hpos => hfits.offsets _ _ hget hpos⟩
  have hreceived := (mapM_getReadData_iff h hfits.sizes hsends).mpr ⟨hplaces, rfl⟩
  rw [groupList, entriesFrom] at hlist
  exact ⟨_, by rw [hlist, ok_bind, hreceived]; rfl⟩

theorem performReads_iff :
    (∃ o, performReads host pvt (own :: others) reads = .ok o ∧
      Delivered host pvt.rank (own :: others) o) ↔ Fits host (own :: others) := by
  constructor
  · rintro ⟨o, hrun, -⟩
    exact (fits_of_performReads h hgroup hrun).1
  · intro hfits
    obtain ⟨o, hrun⟩ := @performReads_of_fits host pvt reads own others h hgroup hfits
    obtain ⟨-, hlist, hreceived⟩ := fits_of_performReads h hgroup hrun
    refine ⟨o, hrun, fun i requests hi hget => ?_, ?_, ?_⟩
    · cases i with
      | zero => exact absurd hi (Nat.lt_irrefl 0)
      | succ i =>
        have hr := mem_of_getElem? (getElem?_cons_succ ▸ hget)
        have hsmall := hfits.packedSize_lt requests hr
        exact ⟨_, _, pack_eq_ok_iff.mpr ⟨hsmall, rfl⟩,
          parses_parseBuffer _ hsmall (hfits.parsable requests hr) _⟩
    · rw [hlist, groupList, reads.map_entry_fill, zipIdx_cons, flatMap_cons]
      rfl
    · rw [hreceived, hlist]
      rfl

end

end Group

/-! ## All groups -/

variable {host : Host} {job : Job}

theorem Leads.serves {g : Nat} {pvt : Pvt} (h : Leads job g pvt) :
    pvt.Serves (job.members g).length where
  aggregator := h.aggregator
  mapping i hi := (h.mapping i hi).trans h.group.symm

theorem Job.aggregator_eq {group : Nat} (hgroup : group < job.groups) {aggregator : Nat}
    (h : (job.pvt aggregator).aggregatorRankArray[group]? = some aggregator) :
    aggregator = shareStart job.size job.groups group := by
  rw [(job.belongs aggregator).array, getElem?_map, getElem?_range hgroup] at h
  exact (Option.some.inj h).symm

theorem Leads.delivers_iff {g : Nat} {pvt : Pvt} (h : Leads job g pvt) (reads : Reads) :
    (∃ o, performReads host pvt (job.members g) reads = .ok o ∧
      Delivered host pvt.rank (job.members g) o) ↔ Fits host (job.members g) := by
  have hserves := h.serves
  have hsize := h.groupSize
  have hpos := h.pos
  generalize job.members g = members at *
  cases members with
  | nil => exact absurd hpos (Nat.lt_irrefl 0)
  | cons own others => exact performReads_iff hserves hsize

def zeroReads : Reads where
  data _ e := List.replicate e.request.datasize.toNat 0
  length_data _ _ := length_replicate

theorem fits_of_exchanges (h : Exchanges host job) :
    ∀ group < job.groups, Fits host (job.members group) := fun group hgroup => by
  obtain ⟨aggregator, harray, o, hrun, hdelivered⟩ := h.delivered group hgroup zeroReads
  obtain rfl := job.aggregator_eq hgroup harray
  exact ((job.leads hgroup).delivers_iff zeroReads).mp
    ⟨o, hrun, ((job.belongs _).rank).symm ▸ hdelivered⟩

/-- **Every group exchanges its requests and data exactly when an `int` holds its sums.** -/
theorem exchanges_iff (host : Host) (job : Job) :
    Exchanges host job ↔ ∀ group < job.groups, Fits host (job.members group) := by
  refine ⟨fits_of_exchanges, fun h => ⟨groupsAgree job, fun group hgroup reads => ?_⟩⟩
  have hleads := job.leads hgroup
  obtain ⟨o, hrun, hdelivered⟩ := (hleads.delivers_iff reads).mpr (h group hgroup)
  have hrank := (job.belongs (shareStart job.size job.groups group)).rank
  refine ⟨shareStart job.size job.groups group, ?_, o, hrun, hrank ▸ hdelivered⟩
  rw [hleads.array, hrank]

/-- Two gigabytes are too many. -/
theorem not_exchanges_twoGigabytes : ¬Exchanges ⟨.little, true⟩ twoGigabytes := fun h => by
  have hfits := fits_of_exchanges h 0 (by decide)
  exact absurd (hfits.sizes [gigabyte, gigabyte] (by decide)) (by decide)

end Adios.Staged
