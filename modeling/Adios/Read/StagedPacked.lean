import Adios.Lists.Results
import Adios.Read.StagedExchange
import Mathlib.Algebra.Order.BigOperators.Group.List

/-!
# Staged read — the buffer of a member's requests

What `calc_data_size` adds up has room for the requests, with some bytes left over for each of them,
and `parse_buffer` reads the same requests again if what it allocates for them can be allocated.
-/

namespace Adios.Staged

open List Wire Lists
open Amr (Failure toInt addInt)

/-! ## Packing -/

def packedSize (requests : List Request) : Nat := 4 + (requests.map Request.calcSize).sum

def packedBytes (order : Endian) (requests : List Request) : List UInt8 :=
  order.u32 (UInt32.ofNat requests.length) ++ requests.flatMap (Request.bytes order)

variable {requests : List Request} {host : Host} {r : Request}

theorem calcDataSize_eq_ok {size total : Int} (h : calcDataSize size requests = .ok total)
    (hsize : size ≤ 2147483647) :
    total = size + ((requests.map Request.calcSize).sum : Nat) ∧ total ≤ 2147483647 := by
  induction requests generalizing size with
  | nil =>
    cases h
    exact ⟨(Int.add_zero _).symm, hsize⟩
  | cons r requests ih =>
    obtain ⟨next, hadd, h⟩ := exists_of_bind_eq_ok h
    obtain ⟨rfl, hle⟩ := Amr.addInt_eq_ok hadd
    obtain ⟨htotal, hmax⟩ := ih h hle
    rw [map_cons, sum_cons]
    exact ⟨by omega, hmax⟩

theorem calcDataSize_of_small {size : Nat}
    (h : size + (requests.map Request.calcSize).sum < 2147483648) :
    calcDataSize size requests =
      .ok ((size + (requests.map Request.calcSize).sum : Nat) : Int) := by
  induction requests generalizing size with
  | nil => rfl
  | cons r requests ih =>
    rw [map_cons, sum_cons] at h ⊢
    have hadd : addInt (size : Int) r.calcSize = .ok ((size + r.calcSize : Nat) : Int) :=
      if_pos (by omega)
    rw [calcDataSize, hadd, ok_bind, ih (by omega), Nat.add_assoc]

variable (order : Endian)

theorem length_bytes (r : Request) :
    (r.bytes order).length + 12 = r.calcSize := by
  unfold Request.bytes Request.calcSize
  simp only [length_append, Endian.length_u32, Endian.length_u64, Endian.length_flatMap_u64,
    length_map]
  omega

theorem length_packedBytes_le (requests : List Request) :
    (packedBytes order requests).length ≤ packedSize requests := by
  have hsum : (requests.flatMap (Request.bytes order)).length ≤
      (requests.map Request.calcSize).sum := by
    induction requests with
    | nil => exact Nat.le_refl 0
    | cons r requests ih =>
      have hone := length_bytes order r
      rw [flatMap_cons, length_append, map_cons, sum_cons]
      omega
  rw [packedBytes, length_append, Endian.length_u32, packedSize]
  omega

/-- **A member packs its requests** if an `int` holds their size. -/
theorem pack_eq_ok_iff {buf : List UInt8} :
    pack host requests = .ok buf ↔ packedSize requests < 2147483648 ∧
      buf = packedBytes host.order requests ++
        List.replicate (packedSize requests - (packedBytes host.order requests).length) 0 := by
  have hle := length_packedBytes_le host.order requests
  have hpack : ∀ size : Nat, calcDataSize 4 requests = .ok (size : Int) →
      size = packedSize requests → pack host requests = .ok (packedBytes host.order requests ++
        List.replicate (packedSize requests - (packedBytes host.order requests).length) 0) :=
      fun size hsize heq => by
    unfold pack
    rw [hsize, ok_bind, heq]
    dsimp only
    rw [Int.toNat_natCast]
    exact if_neg (by
      show ¬((packedSize requests : Int) < ((packedBytes host.order requests).length : Int))
      omega)
  constructor
  · intro h
    obtain ⟨total, htotal, -⟩ := exists_of_bind_eq_ok h
    obtain ⟨heq, hmax⟩ := calcDataSize_eq_ok htotal (by decide)
    have hnat : total = (packedSize requests : Nat) := by
      rw [heq, packedSize]
      omega
    rw [hnat] at htotal hmax
    rw [hpack _ htotal rfl] at h
    exact ⟨by omega, (Except.ok.inj h).symm⟩
  · rintro ⟨hsmall, rfl⟩
    exact hpack _ (calcDataSize_of_small hsmall) rfl

/-! ## Parsing -/

/-- What `parse_buffer` allocates for a request can be allocated. -/
structure Request.Parsable (host : Host) (r : Request) : Prop where
  box : host.Mallocs (8 * r.box.length : Nat)
  data : host.Mallocs r.datasize.toNat

theorem parses_readU32 (x : UInt32) :
    Parser.Parses (readU32 order) (order.u32 x) x :=
  (Parser.Parses.take _ (order.length_u32 x)).bind_pure (order.toU32_u32 x)

theorem parses_readU64 (x : UInt64) :
    Parser.Parses (readU64 order) (order.u64 x) x :=
  (Parser.Parses.take _ (order.length_u64 x)).bind_pure (order.toU64_u64 x)

theorem u64s_flatMap (xs : List UInt64) :
    order.u64s xs.length (xs.flatMap order.u64) = xs := by
  induction xs with
  | nil => rfl
  | cons x xs ih =>
    rw [flatMap_cons, length_cons, Endian.u64s, take_left' (order.length_u64 x),
      drop_left' (order.length_u64 x), ih, order.toU64_u64]

theorem parses_readU64s (xs : List UInt64) :
    Parser.Parses (readU64s order xs.length) (xs.flatMap order.u64) xs :=
  (Parser.Parses.take _ (Endian.length_flatMap_u64 order xs)).bind_pure (u64s_flatMap order xs)

theorem parses_parseRequest (hsmall : 8 * r.box.length < 2147483648) (h : r.Parsable host) :
    Parser.Parses (parseRequest host) (r.bytes host.order) r := by
  have hndim : (UInt32.ofNat r.box.length).toNat = r.box.length :=
    UInt32.toNat_ofNat_of_lt'
      (Nat.lt_of_le_of_lt (by omega : r.box.length ≤ 2147483647) (by decide))
  unfold parseRequest Request.bytes
  refine (parses_readU32 _ _).bind ?_
  refine (parses_readU32 _ _).bind ?_
  refine (parses_readU32 _ _).bind ?_
  refine (parses_readU32 _ _).bind ?_
  rw [hndim]
  refine (Parser.Parses.require _ hsmall).bind_nil ?_
  refine (Parser.Parses.require _ h.box).bind_nil ?_
  have hstart := parses_readU64s host.order (r.box.map Prod.fst)
  have hcount := parses_readU64s host.order (r.box.map Prod.snd)
  rw [length_map] at hstart hcount
  refine hstart.bind (hcount.bind ?_)
  refine ((parses_readU64 _ _).bind ((Parser.Parses.require _ h.data).bind_nil ?_)).congr
    (append_nil _) rfl
  have hzip : (r.box.map Prod.fst).zip (r.box.map Prod.snd) = r.box :=
    (zip_of_prod rfl rfl).symm
  rw [hzip]
  exact Parser.Parses.pure r

theorem fails_parseRequest (hsmall : 8 * r.box.length < 2147483648) (h : ¬r.Parsable host) :
    Parser.Fails (parseRequest host) (r.bytes host.order) := by
  have hndim : (UInt32.ofNat r.box.length).toNat = r.box.length :=
    UInt32.toNat_ofNat_of_lt'
      (Nat.lt_of_le_of_lt (by omega : r.box.length ≤ 2147483647) (by decide))
  unfold parseRequest Request.bytes
  refine Parser.Fails.bind_right (parses_readU32 _ _) ?_
  refine Parser.Fails.bind_right (parses_readU32 _ _) ?_
  refine Parser.Fails.bind_right (parses_readU32 _ _) ?_
  refine Parser.Fails.bind_right (parses_readU32 _ _) ?_
  rw [hndim]
  refine Parser.Fails.bind_right (x := []) (Parser.Parses.require _ hsmall) ?_
  by_cases hbox : host.Mallocs (8 * r.box.length : Nat)
  · refine Parser.Fails.bind_right (x := []) (Parser.Parses.require _ hbox) ?_
    have hstart := parses_readU64s host.order (r.box.map Prod.fst)
    have hcount := parses_readU64s host.order (r.box.map Prod.snd)
    rw [length_map] at hstart hcount
    refine Parser.Fails.bind_right hstart (Parser.Fails.bind_right hcount ?_)
    rw [← append_nil (host.order.u64 r.datasize)]
    refine Parser.Fails.bind_right (parses_readU64 _ _) ?_
    exact Parser.Fails.require_bind _ (fun hdata => h ⟨hbox, hdata⟩) _ _
  · exact Parser.Fails.require_bind _ hbox _ _

/-! ## The whole buffer -/

theorem small_of_mem (h : packedSize requests < 2147483648) (hr : r ∈ requests) :
    8 * r.box.length < 2147483648 := by
  have hle : r.calcSize ≤ (requests.map Request.calcSize).sum :=
    le_sum_of_mem (mem_map_of_mem hr)
  have hsize : r.calcSize = 4 + 4 + 4 + 4 + r.box.length * (8 + 8) + 8 + 4 + 8 := rfl
  unfold packedSize at h
  omega

theorem length_le_sum (requests : List Request) :
    requests.length ≤ (requests.map Request.calcSize).sum := by
  induction requests with
  | nil => exact Nat.le_refl 0
  | cons r requests ih =>
    have hsize : r.calcSize = 4 + 4 + 4 + 4 + r.box.length * (8 + 8) + 8 + 4 + 8 := rfl
    rw [length_cons, map_cons, sum_cons]
    omega

theorem count_of_small (h : packedSize requests < 2147483648) :
    (UInt32.ofNat requests.length).toInt32.toInt.toNat = requests.length := by
  have hle := length_le_sum requests
  unfold packedSize at h
  rw [UInt32.toInt32_ofNat', Int32.toInt_ofNat_of_lt (by omega)]
  rfl

theorem parses_parseBuffer (src : Nat) (hsmall : packedSize requests < 2147483648)
    (h : ∀ r ∈ requests, r.Parsable host) :
    Parser.Parses (parseBuffer host src) (packedBytes host.order requests)
      (requests.map (Entry.mk src)) := by
  unfold parseBuffer packedBytes
  refine (parses_readU32 _ _).bind ?_
  rw [count_of_small hsmall]
  refine Parser.Parses.loop_append (fun _ => parseRequest host) (Request.bytes host.order) id
    (Entry.mk src) requests fun pre r post hsplit => ?_
  have hr : r ∈ requests := hsplit ▸ mem_append_right pre mem_cons_self
  exact parses_parseRequest (small_of_mem hsmall hr) (h r hr)

theorem parsable_of_parseBuffer {src : Nat} {rest : List UInt8} {result : List Entry × List UInt8}
    (hsmall : packedSize requests < 2147483648)
    (h : parseBuffer host src (packedBytes host.order requests ++ rest) = .ok result) :
    ∀ r ∈ requests, r.Parsable host := by
  by_contra hnot
  -- the first request that cannot be allocated
  obtain ⟨pre, r, post, rfl, hpre, hr⟩ := exists_first hnot
  have hfails : Parser.Fails (parseBuffer host src)
      (packedBytes host.order (pre ++ r :: post)) := by
    unfold parseBuffer packedBytes
    refine Parser.Fails.bind_right (parses_readU32 _ _) ?_
    rw [count_of_small hsmall]
    refine Parser.Fails.loop_append (fun _ => parseRequest host) (Request.bytes host.order) id
      (Entry.mk src) pre r post (fun pre₁ q pre₂ hsplit => ?_) ?_
    · have hq : q ∈ pre := hsplit ▸ mem_append_right pre₁ mem_cons_self
      exact parses_parseRequest (small_of_mem hsmall (mem_append_left _ hq)) (hpre q hq)
    · have hmem : r ∈ pre ++ r :: post := mem_append_right pre mem_cons_self
      exact fails_parseRequest (small_of_mem hsmall hmem) hr
  obtain ⟨e, he⟩ := hfails rest
  rw [he] at h
  cases h

end Adios.Staged
