import Adios.Amr.BrigadeRun

/-!
# MPI_AMR — the brigade against the gather

What the brigade is for: in every order of turns it comes to its end, with each process group in
the subfile once, in rank order and end to end, and with the bytes that the gather writes. The sizes
that both handle as `int`s decide when that is so.
-/

namespace Adios.Amr

open List Runs Member

structure Collects (g : Group) (eager : Nat → Nat → Bool) : Prop where
  /-- No member fails. -/
  safe (c : Network Nat Member (List UInt8))
    (h : Reaches (Network.Moves (brigade g eager)) g.start c) (r : Nat) (f : Failure) :
    (c.procs r).point ≠ .failed f
  /-- No run goes on for ever. -/
  bounded : ∃ n, ∀ m c, Takes (Network.Moves (brigade g eager)) m g.start c → m ≤ n
  /-- A run that cannot go on has left nobody waiting and no message unreceived. -/
  complete (c : Network Nat Member (List UInt8))
    (h : Reaches (Network.Moves (brigade g eager)) g.start c)
    (hend : Ended (Network.Moves (brigade g eager)) c) :
    (∀ r, (c.procs r).point = .done ∧ Matched (c.procs r)) ∧ (∀ q, c.queue q = []) ∧
      Heap.Laid g.base.toNat g.buffers.flatten (c.procs 0).written

structure EqualsGather (g : Group) : Prop where
  collects (eager : Nat → Nat → Bool) : Collects g eager
  same : ∃ written, agClose g = .ok written ∧ ∀ eager c,
    Reaches (Network.Moves (brigade g eager)) g.start c →
    Ended (Network.Moves (brigade g eager)) c →
    ∀ (file : Int → UInt8) (k : Nat), k < g.buffers.flatten.length →
      Heap.writeAll file (c.procs 0).written (g.base.toNat + k) =
        Heap.writeAll file written (g.base.toNat + k)

/-! ## The end of a run -/

section End

variable {g : Group} {eager : Nat → Nat → Bool} {c d : Network Nat Member (List UInt8)} {r : Nat}
  {s : Member}

theorem brigade_done (h : s.point = .done) : brigade g eager r s = .stop := by
  unfold brigade aggregator last forwarder
  rw [h]
  split_ifs <;> rfl

theorem brigade_failed {f : Failure} (h : s.point = .failed f) : brigade g eager r s = .stop := by
  unfold brigade aggregator last forwarder
  rw [h]
  split_ifs <;> rfl

theorem At.done {j : Nat} (hs : At g r j s) (hr : r < g.size) (hj : g.size ≤ j) :
    s.point = .done ∧ Matched s := by
  unfold At Awaits at hs
  split_ifs at hs with hzero hle hlt hlt
  · omega
  · exact ⟨hs.2, hs.1.matched⟩
  · omega
  · omega
  · exact ⟨hs.2, hs.1.matched⟩

theorem exists_end (hg : g.Counted) (eager : Nat → Nat → Bool) :
    ∃ d, Reaches (Network.Moves (brigade g eager)) g.start d ∧
      Ended (Network.Moves (brigade g eager)) d ∧
      (∀ r, (d.procs r).point = .done ∧ Matched (d.procs r)) ∧ (∀ q, d.queue q = []) ∧
      Heap.Laid g.base.toNat g.messages.flatten (d.procs 0).written := by
  obtain ⟨d, hreach, hround⟩ := round_of_le eager hg g.size_pos (Nat.le_refl g.size)
  have hdone : ∀ r, (d.procs r).point = .done ∧ Matched (d.procs r) := fun r => by
    by_cases hr : r < g.size
    · exact (hround.stand r hr).done hr (Nat.le_max_right r g.size)
    · rw [hround.absent r (by omega)]
      exact ⟨rfl, fun _ h => absurd h not_mem_nil⟩
  have hzero := hround.stand 0 g.size_pos
  rw [At, if_pos rfl, Nat.zero_max] at hzero
  have hwritten := hzero.1.written
  rw [g.before_size] at hwritten
  exact ⟨d, hreach, Network.ended_of_stop fun r => brigade_done (hdone r).1, hdone, hround.quiet,
    hwritten⟩

theorem collects_of_counted (hg : g.Counted) (hmessages : g.messages = g.buffers)
    (eager : Nat → Nat → Bool) : Collects g eager := by
  obtain ⟨d, ⟨n, hd⟩, hend, hdone, hqueue, hwritten⟩ := exists_end hg eager
  rw [hmessages] at hwritten
  have hcomm := Network.moves_commutes (brigade g eager)
  refine ⟨?_, ⟨n, ?_⟩, ?_⟩
  · intro c ⟨m, hc⟩ r f hfail
    obtain ⟨k, -, hrest⟩ := hd.descent hcomm hend hc
    -- a member that has failed is still failed in the end
    have hstay := Network.procs_of_stop (brigade_failed hfail) ⟨k, hrest⟩
    rw [← hstay, (hdone r).1] at hfail
    cases hfail
  · intro m c hc
    obtain ⟨k, hk, -⟩ := hd.descent hcomm hend hc
    omega
  · intro c ⟨m, hc⟩ hend'
    obtain ⟨rfl, -⟩ := hd.eq_of_ended_of_commutes hcomm hend hc hend'
    exact ⟨hdone, hqueue, hwritten⟩

end End

/-! ## The displacements -/

theorem addInt_eq_ok {m n k : Int} (h : addInt m n = .ok k) : k = m + n ∧ k ≤ 2147483647 := by
  unfold addInt at h
  split_ifs at h with hrange
  injection h with h
  omega

theorem displacements_total {sizes ds : List Int} {d total : Int}
    (h : displacements d sizes = .ok (ds, total)) (hd : d ≤ 2147483647)
    (hnonneg : ∀ size ∈ sizes, 0 ≤ size) (ms : List (List UInt8))
    (hms : ms.map List.length = sizes.map Int.toNat) :
    total = d + ms.flatten.length ∧ total ≤ 2147483647 := by
  induction sizes generalizing d ds ms with
  | nil =>
    injection h with h
    injection h with _ htotal
    obtain rfl := map_eq_nil_iff.mp hms
    rw [← htotal]
    exact ⟨(Int.add_zero d).symm, hd⟩
  | cons size sizes ih =>
    cases ms with
    | nil => cases hms
    | cons m ms =>
      rw [displacements] at h
      obtain ⟨next, hnext, h⟩ := exists_of_bind_eq_ok h
      obtain ⟨⟨ds', total'⟩, hrest, h⟩ := exists_of_bind_eq_ok h
      injection h with h
      injection h with _ htotal
      subst htotal
      obtain ⟨hsum, hle⟩ := addInt_eq_ok hnext
      rw [map_cons, map_cons] at hms
      injection hms with hm hms
      have ⟨htotal, hmax⟩ :=
        ih hrest hle (fun x hx => hnonneg x (mem_cons_of_mem size hx)) ms hms
      have hsize := hnonneg size mem_cons_self
      rw [flatten_cons, length_append]
      exact ⟨by omega, hmax⟩

def starts (d : Nat) : List (List UInt8) → List Int
  | [] => []
  | b :: bs => d :: starts (d + b.length) bs

theorem displacements_lengths (bs : List (List UInt8)) (d : Nat)
    (h : d + bs.flatten.length < 2147483648) :
    displacements d (bs.map fun b => toInt b.length) =
      .ok (starts d bs, ((d + bs.flatten.length : Nat) : Int)) := by
  induction bs generalizing d with
  | nil => rfl
  | cons b bs ih =>
    rw [flatten_cons, length_append] at h ⊢
    have hlen : toInt b.length = b.length := toInt_of_lt (by omega)
    have hadd : addInt d b.length = .ok ((d + b.length : Nat) : Int) := if_pos (by omega)
    have hassoc : d + (b.length + bs.flatten.length) = d + b.length + bs.flatten.length := by omega
    rw [map_cons, displacements, hlen, hadd, ok_bind, ih (d + b.length) (by omega), ok_bind, hassoc]
    rfl

theorem gatherv_starts (bs : List (List UInt8)) (pre : List UInt8) :
    gatherv (pre ++ List.replicate bs.flatten.length 0) ((starts pre.length bs).zip bs) =
      pre ++ bs.flatten := by
  induction bs generalizing pre with
  | nil => rfl
  | cons b bs ih =>
    rw [starts, zip_cons_cons, gatherv, Int.toNat_natCast, take_left, flatten_cons, length_append,
      drop_append, drop_eq_nil_of_le (by omega), nil_append, drop_replicate]
    have hrest : b.length + bs.flatten.length - (pre.length + b.length - pre.length) =
        bs.flatten.length := by omega
    have hpre : pre.length + b.length = (pre ++ b).length := (length_append).symm
    rw [hrest, hpre, ih (pre ++ b), append_assoc]

/-! ## Sizes that fit an `int` -/

section Small

variable {g : Group} (h : g.buffers.flatten.length < 2147483648)

include h

theorem length_lt_of_small {b : List UInt8} (hb : b ∈ g.buffers) : b.length < 2147483648 := by
  have hle : b.length ≤ g.buffers.flatten.length :=
    (sublist_flatten_of_mem hb).length_le
  omega

theorem pgSizes_of_small : g.pgSizes = g.buffers.map fun b => (b.length : Int) :=
  map_congr_left fun _ hb => toInt_of_lt (length_lt_of_small h hb)

theorem messages_of_small : g.messages = g.buffers := by
  rw [Group.messages, pgSizes_of_small h, zipWith_map_right, zipWith_self]
  exact map_id'' (fun b => take_length) g.buffers

theorem displacements_of_small : displacements 0 g.pgSizes =
    .ok (starts 0 g.buffers, (g.buffers.flatten.length : Int)) := by
  have hsum := displacements_lengths g.buffers 0 (by omega)
  rw [Nat.zero_add] at hsum
  exact hsum

theorem counted_of_small : g.Counted := by
  refine ⟨fun j => ?_, ⟨_, _, displacements_of_small h⟩⟩
  rw [Group.pgSize, pgSizes_of_small h, getElem?_map]
  cases g.buffers[j]? with
  | none => exact Int.le_refl 0
  | some b => exact Int.natCast_nonneg _

theorem agClose_of_small : agClose g = stripingUnitWrite [] g.base (g.buffers.flatten ++ g.index)
    (UInt64.ofInt (toInt (g.buffers.flatten.length + g.index.length))) := by
  have hnonneg : ¬∃ size ∈ g.pgSizes, size < 0 := by
    rintro ⟨size, hmem, hneg⟩
    rw [pgSizes_of_small h] at hmem
    obtain ⟨b, -, rfl⟩ := mem_map.mp hmem
    omega
  have hgather := gatherv_starts g.buffers []
  rw [nil_append, nil_append, length_nil] at hgather
  rw [agClose, displacements_of_small h, ok_bind]
  show (if (g.buffers.flatten.length : Int) < 0 then _ else
    if ∃ size ∈ g.pgSizes, size < 0 then _ else _) = _
  rw [if_neg (by omega), if_neg hnonneg, messages_of_small h, Int.toNat_natCast, hgather]

end Small

/-! ## Sizes that do not -/

section Large

variable {g : Group} {eager : Nat → Nat → Bool} {r : Nat}

theorem irecv_point (s : Member) (count : Int) (p : Point) :
    (irecv s count p).point = p ∨ ∃ f, (irecv s count p).point = .failed f := by
  unfold irecv
  split_ifs
  · exact Or.inr ⟨_, rfl⟩
  · exact Or.inr ⟨_, rfl⟩
  · exact Or.inl rfl

theorem aggregatorWrite_failed {s : Member} (hneg : g.pgSize 0 < 0) :
    ∃ f, (aggregatorWrite g 0 s).point = .failed f := by
  have hrange : -2147483648 ≤ g.pgSize 0 := by
    rw [g.pgSize_eq]
    exact Int.le_bmod (by decide)
  have hlen := toNat_ofInt (g.pgSize 0)
  have hfits := g.fits
  have hbuffer : (g.buffer 0).length ≤ g.buffers.flatten.length := by
    rw [Group.buffer]
    cases hget : g.buffers[0]? with
    | none => exact Nat.zero_le _
    | some b => exact (sublist_flatten_of_mem (mem_of_getElem? hget)).length_le
  have hne : UInt64.ofInt (g.pgSize 0) ≠ 0 := fun heq => by
    rw [heq] at hlen
    have hzero : (0 : UInt64).toNat = 0 := rfl
    omega
  refine ⟨.fault .outOfBounds, ?_⟩
  rw [aggregatorWrite, stripingUnitWrite, if_neg hne, if_pos rfl, if_pos (by omega)]
  rfl

theorem send_failed {s : Member} {buf : List UInt8} {count : Int} {p : Point} (hneg : count < 0) :
    send r s buf count p = .step (s.fail .mpiError) := if_pos hneg

theorem alone_failed (hneg : g.pgSize r < 0) (hr : r < g.size)
    (hfirst : ∀ f, g.firstPoint r ≠ .failed f) :
    ∃ t f, Network.Alone (brigade g eager) r (g.member r) t ∧ t.point = .failed f := by
  have hpoint : g.firstPoint r =
      if r = 0 then .loop 0 else if r + 1 = g.size then .sendOwn g.size else .loop (r + 1) := by
    unfold Group.firstPoint at hfirst ⊢
    cases hsum : displacements 0 g.pgSizes with
    | error f =>
      rw [hsum] at hfirst
      exact absurd rfl (hfirst f)
    | ok sums =>
      rw [hsum] at hfirst
      exact if_neg fun hmax => hfirst .returned (if_pos hmax)
  have hmember : (g.member r).point = g.firstPoint r := rfl
  rw [hpoint] at hmember
  generalize g.member r = s at hmember
  by_cases hzero : r = 0
  · subst hzero
    rw [if_pos rfl] at hmember
    have hwrite : ∀ s₁ : Member, s₁.point = .write 0 →
        ∃ t f, Network.Alone (brigade g eager) 0 s₁ t ∧ t.point = .failed f := fun s₁ hs₁ => by
      obtain ⟨f, hf⟩ := @aggregatorWrite_failed g s₁ hneg
      refine ⟨_, f, .single ?_, hf⟩
      rw [brigade, if_pos rfl, aggregator, hs₁]
    by_cases hmore : 0 + 1 < g.size
    · have hstep : brigade g eager 0 s = .step (irecv s (g.pgSize (0 + 1)) (.write 0)) := by
        rw [brigade, if_pos rfl, aggregator, hmember]
        exact (if_pos hr).trans (if_pos hmore)
      rcases irecv_point s (g.pgSize (0 + 1)) (.write 0) with hp | ⟨f, hf⟩
      · obtain ⟨t, f, halone, hf⟩ := hwrite _ hp
        exact ⟨t, f, .head hstep halone, hf⟩
      · exact ⟨_, f, .single hstep, hf⟩
    · have hstep : brigade g eager 0 s = .step (s.goTo (.write 0)) := by
        rw [brigade, if_pos rfl, aggregator, hmember]
        exact (if_pos hr).trans (if_neg hmore)
      obtain ⟨t, f, halone, hf⟩ := hwrite (s.goTo (.write 0)) rfl
      exact ⟨t, f, .head hstep halone, hf⟩
  · rw [if_neg hzero] at hmember
    by_cases hlast : r + 1 = g.size
    · rw [if_pos hlast] at hmember
      refine ⟨s.fail .mpiError, .mpiError, .single ?_, rfl⟩
      rw [brigade, if_neg hzero, if_pos hlast, last, hmember]
      exact send_failed hneg
    · rw [if_neg hlast] at hmember
      have hirecv := irecv_point s (g.pgSize (r + 1)) (.sendOwn (r + 1))
      have hstep : brigade g eager r s = .step (irecv s (g.pgSize (r + 1)) (.sendOwn (r + 1))) := by
        rw [brigade, if_neg hzero, if_neg hlast, forwarder, hmember]
        show (if r + 1 < g.size then Action.step (irecv s (g.pgSize (r + 1))
          (if r + 1 = r + 1 then .sendOwn (r + 1) else .wait (r + 1))) else _) = _
        rw [if_pos (by omega), if_pos rfl]
      generalize irecv s (g.pgSize (r + 1)) (.sendOwn (r + 1)) = s₁ at hstep hirecv
      rcases hirecv with hp | ⟨f, hf⟩
      · refine ⟨s₁.fail .mpiError, .mpiError, .head hstep (.single ?_), rfl⟩
        rw [brigade, if_neg hzero, if_neg hlast, forwarder, hp]
        exact send_failed hneg
      · exact ⟨s₁, f, .single hstep, hf⟩

theorem counted_of_collects (h : Collects g eager) : g.Counted := by
  have hfirst : ∀ r, r < g.size → ∀ f, g.firstPoint r ≠ .failed f := fun r hr f hf => by
    have hstart : g.start.procs r = g.member r := if_pos hr
    have hsafe := h.safe g.start (.refl _ _) r f
    rw [hstart] at hsafe
    exact hsafe hf
  refine ⟨fun r => ?_, ?_⟩
  · by_contra hneg
    have hr : r < g.size := by
      by_contra hr
      rw [Group.pgSize, getElem?_eq_none (by rw [g.length_pgSizes]; omega)] at hneg
      exact hneg (Int.le_refl 0)
    obtain ⟨t, f, halone, hf⟩ := @alone_failed g eager r (by omega) hr (hfirst r hr)
    have hreach := halone.reaches (c := g.start) (if_pos hr)
    have hsafe := h.safe _ hreach r f
    rw [Network.become_procs_self] at hsafe
    exact hsafe hf
  · have hzero := hfirst 0 g.size_pos
    cases hsum : displacements 0 g.pgSizes with
    | error f =>
      rw [Group.firstPoint, hsum] at hzero
      exact absurd rfl (hzero f)
    | ok sums => exact ⟨sums.1, sums.2, rfl⟩

theorem small_of_collects (h : Collects g eager) : g.buffers.flatten.length < 2147483648 := by
  have hg := counted_of_collects h
  obtain ⟨d, hreach, hend, -, -, hwritten⟩ := exists_end hg eager
  obtain ⟨-, -, hlaid⟩ := h.complete d hreach hend
  obtain ⟨disp, total, hsum⟩ := hg.summed
  have hnonneg : ∀ size ∈ g.pgSizes, 0 ≤ size := fun size hsize => by
    obtain ⟨j, hj⟩ := mem_iff_getElem?.mp hsize
    have hpos := hg.nonneg j
    rw [Group.pgSize, hj] at hpos
    exact hpos
  have hlengths : g.messages.map List.length = g.pgSizes.map Int.toNat := by
    refine ext_getElem? fun j => ?_
    by_cases hj : j < g.size
    · rw [getElem?_map, g.messages_getElem? hj, getElem?_map]
      rw [g.pgSizes_getElem? hj, Option.map_some, Option.map_some, hg.length_message]
    · rw [getElem?_eq_none (by rw [length_map, g.length_messages]; omega),
        getElem?_eq_none (by rw [length_map, g.length_pgSizes]; omega)]
  obtain ⟨htotal, hle⟩ := displacements_total hsum (by omega) hnonneg g.messages hlengths
  rw [hlaid.cells_unique hwritten]
  omega

end Large

section Gather

variable {g : Group} (h : g.buffers.flatten.length < 2147483648)

include h

/-- The gather's aggregator fails, or writes as many bytes as its `total_data_size1` says. -/
theorem agClose_cases :
    (0 ≤ toInt (g.buffers.flatten.length + g.index.length) ∧ ∃ written, agClose g = .ok written ∧
      Heap.Laid g.base.toNat ((g.buffers.flatten ++ g.index).take
        (toInt (g.buffers.flatten.length + g.index.length)).toNat) written) ∨
    (toInt (g.buffers.flatten.length + g.index.length) < 0 ∧ ∃ f, agClose g = .error f) := by
  have hfits := g.fits
  have hcast : (g.buffers.flatten.length : Int) + g.index.length =
      ((g.buffers.flatten ++ g.index).length : Nat) := by
    rw [length_append, Int.natCast_add]
  have hlen := toNat_ofInt (toInt (g.buffers.flatten.length + g.index.length))
  have hlt := toInt_lt (g.buffers.flatten.length + g.index.length)
  have hge : -2147483648 ≤ toInt (g.buffers.flatten.length + g.index.length) :=
    Int.le_bmod (by decide)
  rw [agClose_of_small h]
  by_cases hneg : toInt (g.buffers.flatten.length + g.index.length) < 0
  · right
    refine ⟨hneg, .fault .outOfBounds, ?_⟩
    have hne : UInt64.ofInt (toInt (g.buffers.flatten.length + g.index.length)) ≠ 0 := fun heq => by
      rw [heq] at hlen
      have hzero : (0 : UInt64).toNat = 0 := rfl
      omega
    rw [stripingUnitWrite, if_neg hne, if_pos]
    rw [length_append]
    omega
  · left
    refine ⟨by omega, ?_⟩
    have hle : toInt (g.buffers.flatten.length + g.index.length) ≤
        ((g.buffers.flatten ++ g.index).length : Nat) := by
      rw [hcast] at hneg ⊢
      exact toInt_le_of_nonneg (by omega)
    rw [toNat_ofInt_of_nonneg (by omega) (by omega)] at hlen
    obtain ⟨written, hok, hlaid⟩ := @stripingUnitWrite_laid g.base.toNat []
      (g.buffers.flatten ++ g.index) [] g.base
      (UInt64.ofInt (toInt (g.buffers.flatten.length + g.index.length))) (.nil _)
      (Int.add_zero _).symm (by omega)
      (by rw [toNat_ofInt_of_nonneg (by omega) (by omega)]; omega)
    rw [toNat_ofInt_of_nonneg (by omega) (by omega), nil_append] at hlaid
    exact ⟨written, hok, hlaid⟩

end Gather

/-! ## The brigade and the gather -/

theorem not_equalsGather_of_large {g : Group} (h : 2147483648 ≤ g.buffers.flatten.length) :
    ¬EqualsGather g := fun hequal => by
  have hsmall := small_of_collects (hequal.collects fun _ _ => true)
  omega

theorem equalsGather_iff (g : Group) : EqualsGather g ↔ g.buffers.flatten.length < 2147483648 ∧
    (g.buffers.flatten.length : Int) ≤ toInt (g.buffers.flatten.length + g.index.length) := by
  constructor
  · intro hequal
    have hsmall := small_of_collects (hequal.collects fun _ _ => true)
    refine ⟨hsmall, ?_⟩
    by_contra hlt
    obtain ⟨written, hag, hsame⟩ := hequal.same
    rcases agClose_cases hsmall with ⟨hnonneg, ws, hok, hlaid⟩ | ⟨-, f, herror⟩
    · -- the first byte that the gather leaves out, in a file that held something else there
      obtain ⟨d, hreach, hend, -, -, hwritten⟩ :=
        exists_end (counted_of_small hsmall) (fun _ _ => true)
      rw [messages_of_small hsmall] at hwritten
      rw [hag] at hok
      injection hok with hok
      subst hok
      generalize htotal : toInt (g.buffers.flatten.length + g.index.length) = total at *
      have hk : total.toNat < g.buffers.flatten.length := by omega
      have hbyte := fun file => hsame _ d hreach hend file total.toNat hk
      have hout : ∀ file : Int → UInt8, Heap.writeAll file written (g.base.toNat + total.toNat) =
          file (g.base.toNat + total.toNat) := fun file => by
        refine hlaid.writeAll_of_outside (Or.inr ?_)
        rw [length_take]
        omega
      have hzero := hbyte fun _ => 0
      have hone := hbyte fun _ => 1
      rw [hwritten.writeAll_add hk, hout] at hzero hone
      rw [hzero] at hone
      exact absurd hone (by decide)
    · rw [herror] at hag
      cases hag
  · rintro ⟨hsmall, hle⟩
    have hg := counted_of_small hsmall
    have hmessages := messages_of_small hsmall
    refine ⟨fun eager => collects_of_counted hg hmessages eager, ?_⟩
    rcases agClose_cases hsmall with ⟨hnonneg, ws, hok, hlaid⟩ | ⟨hneg, -⟩
    · refine ⟨ws, hok, fun eager c hreach hend file k hk => ?_⟩
      obtain ⟨-, -, hwritten⟩ := (collects_of_counted hg hmessages eager).complete c hreach hend
      have hk' : k < ((g.buffers.flatten ++ g.index).take
          (toInt (g.buffers.flatten.length + g.index.length)).toNat).length := by
        rw [length_take, length_append]
        omega
      rw [hwritten.writeAll_add hk, hlaid.writeAll_add hk', getElem_take, getElem_append_left hk]
    · omega

def largeGroup : Group where
  buffers := [List.replicate 2147483648 0]
  base := 0
  index := []
  nonempty := cons_ne_nil _ _
  fits := by
    rw [flatten_cons, flatten_nil, append_nil, length_replicate]
    decide

theorem not_equalsGather_largeGroup : ¬EqualsGather largeGroup := by
  refine not_equalsGather_of_large ?_
  show 2147483648 ≤ [List.replicate 2147483648 0].flatten.length
  rw [flatten_cons, flatten_nil, append_nil, length_replicate]

end Adios.Amr
