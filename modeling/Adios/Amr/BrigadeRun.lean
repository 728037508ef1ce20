import Adios.Amr.Brigade
import Mathlib.Data.List.Basic

/-!
# MPI_AMR — a run of the brigade that comes to its end

One order of turns, in rounds: in round `j` the process group of member `j` travels down from member
to member until the aggregator has written it. Between the rounds no message is under way. The run
is there whenever no `pg_size` is negative and no sum of them overflows.
-/

namespace Adios.Amr

open List Runs Member

/-! ## Counts -/

theorem toInt_le_of_nonneg {n : Nat} (h : 0 ≤ toInt n) : toInt n ≤ n := by
  have hmod : (toInt n) % 4294967296 = (n : Int) % 4294967296 := Int.bmod_emod
  have hlt : toInt n < 2147483648 := Int.bmod_lt (by decide)
  omega

theorem toInt_lt (n : Int) : toInt n < 2147483648 := Int.bmod_lt (by decide)

theorem le_toInt (n : Int) : -2147483648 ≤ toInt n := Int.le_bmod (by decide)

theorem toInt_of_lt {n : Nat} (h : n < 2147483648) : toInt n = n :=
  Int.bmod_eq_of_le (by omega) (by omega)

/-- An `int` as the `uint64_t` that `adios_mpi_amr_striping_unit_write` takes. -/
theorem toNat_ofInt (n : Int) : (UInt64.ofInt n).toNat = (n % 18446744073709551616).toNat := by
  have hlt : (n % 18446744073709551616).toNat < 18446744073709551616 := by omega
  rw [UInt64.ofInt, UInt64.toNat_ofNat']
  exact Nat.mod_eq_of_lt hlt

theorem toNat_ofInt_of_nonneg {n : Int} (h : 0 ≤ n) (hn : n < 18446744073709551616) :
    (UInt64.ofInt n).toNat = n.toNat := by
  rw [toNat_ofInt, Int.emod_eq_of_lt h hn]

theorem foldl_max_ge (x : Int) (sizes : List Int) :
    x ≤ sizes.foldl (fun largest size => if size > largest then size else largest) x ∧
      ∀ size ∈ sizes,
        size ≤ sizes.foldl (fun largest size => if size > largest then size else largest) x := by
  induction sizes generalizing x with
  | nil => exact ⟨Int.le_refl x, fun _ h => absurd h not_mem_nil⟩
  | cons size sizes ih =>
    rw [foldl_cons]
    have ⟨hle, hall⟩ := ih (if size > x then size else x)
    have hx : x ≤ if size > x then size else x := by split_ifs <;> omega
    have hsize : size ≤ if size > x then size else x := by split_ifs <;> omega
    refine ⟨by omega, fun size' hsize' => ?_⟩
    rcases mem_cons.mp hsize' with rfl | hmem
    · omega
    · exact hall size' hmem

theorem laid_fileWrites (a : Int) (bs : List UInt8) : Heap.Laid a bs (fileWrites a bs) := by
  fun_induction fileWrites a bs with
  | case1 a bs h =>
    have hone := Heap.Laid.cons (⟨a, bs⟩ : Heap.Write UInt8) (.nil _)
    rw [append_nil] at hone
    exact hone
  | case2 a bs h ih =>
    have hlen : (bs.take maxMpiwriteSize).length = maxMpiwriteSize := by
      rw [length_take]
      omega
    have hrest : Heap.Laid (a + ((bs.take maxMpiwriteSize).length : Int)) (bs.drop maxMpiwriteSize)
        (fileWrites (a + maxMpiwriteSize) (bs.drop maxMpiwriteSize)) := by
      rw [hlen]
      exact ih
    have hmore := Heap.Laid.cons (⟨a, bs.take maxMpiwriteSize⟩ : Heap.Write UInt8) hrest
    rw [take_append_drop] at hmore
    exact hmore

theorem stripingUnitWrite_laid {a : Int} {bs buf : List UInt8} {fh : List (Heap.Write UInt8)}
    {offset len : UInt64} (hfh : Heap.Laid a bs fh) (hoffset : (offset.toNat : Int) = a + bs.length)
    (hfile : offset.toNat < 9223372036854775808) (hlen : len.toNat ≤ buf.length) :
    ∃ fh', stripingUnitWrite fh offset buf len = .ok fh' ∧
      Heap.Laid a (bs ++ buf.take len.toNat) fh' := by
  unfold stripingUnitWrite
  by_cases hzero : len = 0
  · subst hzero
    refine ⟨fh, if_pos rfl, ?_⟩
    show Heap.Laid a (bs ++ buf.take 0) fh
    rw [take_zero, append_nil]
    exact hfh
  · rw [if_neg hzero, if_neg (by omega)]
    have hne : offset ≠ UInt64.ofInt (-1) := fun heq => by
      rw [heq] at hfile
      revert hfile
      decide
    rw [if_neg hne, hoffset]
    exact ⟨_, rfl, hfh.append (laid_fileWrites _ _)⟩

/-! ## The members' counts and messages -/

namespace Group

variable (g : Group)

def message (j : Nat) : List UInt8 := (g.buffer j).take (g.pgSize j).toNat

theorem length_pgSizes : g.pgSizes.length = g.size := length_map _

theorem pgSize_eq (j : Nat) : g.pgSize j = toInt (g.buffer j).length := by
  unfold pgSize buffer pgSizes
  rw [getElem?_map]
  cases g.buffers[j]? with
  | none =>
    rw [Option.map_none, Option.getD_none, Option.getD_none, length_nil, toInt_of_lt (by omega)]
    rfl
  | some b => rw [Option.map_some, Option.getD_some, Option.getD_some]

theorem pgSizes_getElem? {j : Nat} (hj : j < g.size) : g.pgSizes[j]? = some (g.pgSize j) := by
  rw [pgSize, getElem?_eq_getElem (by rw [length_pgSizes]; exact hj)]
  rfl

theorem messages_getElem? {j : Nat} (hj : j < g.size) : g.messages[j]? = some (g.message j) := by
  have hbuffer : g.buffers[j]? = some (g.buffer j) := by
    rw [buffer, getElem?_eq_getElem hj]
    rfl
  rw [messages, getElem?_zipWith, hbuffer, g.pgSizes_getElem? hj]
  rfl

theorem length_messages : g.messages.length = g.size := by
  rw [messages, length_zipWith, length_pgSizes, size, Nat.min_self]

def before (j : Nat) : List UInt8 := (g.messages.take j).flatten

theorem before_succ {j : Nat} (hj : j < g.size) : g.before (j + 1) = g.before j ++ g.message j := by
  rw [before, take_add_one, g.messages_getElem? hj, flatten_append]
  exact congrArg _ (append_nil _)

theorem before_size : g.before g.size = g.messages.flatten := by
  rw [before, ← g.length_messages, take_length]

theorem pgSize_le_maxDataSize {r j : Nat} (hj : 0 < j) (hsize : j < g.size) :
    g.pgSize j ≤ maxDataSize (g.pgSize r) g.pgSizes := by
  refine (foldl_max_ge _ _).2 _ ?_
  obtain ⟨i, rfl⟩ : ∃ i, j = i + 1 := ⟨j - 1, by omega⟩
  have htail : g.pgSizes.tail[i]? = some (g.pgSize (i + 1)) := by
    rw [getElem?_tail, g.pgSizes_getElem? hsize]
  exact mem_of_getElem? htail

theorem pgSize_le_maxDataSize_self (r : Nat) :
    g.pgSize r ≤ maxDataSize (g.pgSize r) g.pgSizes := (foldl_max_ge _ _).1

/-- No `pg_size` is negative, and no sum of them overflows. -/
structure Counted : Prop where
  nonneg (j : Nat) : 0 ≤ g.pgSize j
  summed : ∃ disp total, displacements 0 g.pgSizes = .ok (disp, total)

variable {g}

theorem Counted.length_message (h : g.Counted) (j : Nat) :
    (g.message j).length = (g.pgSize j).toNat := by
  have hnonneg := h.nonneg j
  rw [g.pgSize_eq] at hnonneg
  have hle := toInt_le_of_nonneg hnonneg
  rw [message, length_take, g.pgSize_eq]
  omega

theorem length_member (r : Nat) :
    (g.member r).recvBuff.length = (maxDataSize (g.pgSize r) g.pgSizes).toNat :=
  length_replicate

end Group

/-! ## Where the members stand between the rounds -/

def Matched (s : Member) : Prop := ∀ p ∈ s.received, p.1 = p.2

section Rounds

variable (g : Group) (eager : Nat → Nat → Bool)

structure Sound (r : Nat) (s : Member) : Prop where
  room : s.recvBuff.length = (maxDataSize (g.pgSize r) g.pgSizes).toNat
  matched : Matched s

/-- The member waits for the process group of member `j`; behind the last one it is done. -/
def Awaits (j : Nat) (point : Point) (s : Member) : Prop :=
  if j < g.size then s.point = point ∧ s.posted = g.pgSize j else s.point = .done

/-- The aggregator has written the process groups before `j`. -/
structure Wrote (j : Nat) (s : Member) : Prop extends Sound g 0 s where
  aggrRoom : s.aggrBuff.length = (maxDataSize (g.pgSize 0) g.pgSizes).toNat
  written : Heap.Laid g.base.toNat (g.before j) s.written
  offset : s.indexStart1.toNat = g.base.toNat + (g.before j).length

/-- The member of rank `r` has passed on the process groups before `j`. -/
def At (r j : Nat) (s : Member) : Prop :=
  if r = 0 then Wrote g j s ∧ Awaits g j (.wait (j - 1)) s
  else if j ≤ r then s = g.member r
  else Sound g r s ∧ Awaits g j (.wait j) s

/-- The member of rank `r` holds the process group of `j`; the aggregator writes it on its own. -/
def Ready (r j : Nat) (s : Member) : Prop :=
  if r = 0 then ∃ t, At g 0 (j + 1) t ∧ Network.Alone (brigade g eager) 0 s t
  else Sound g r s ∧
    if r = j then s.point = .sendOwn (j + 1) ∧ (j + 1 < g.size → s.posted = g.pgSize (j + 1))
    else s.point = .forward j ∧ s.recvBuff.take (g.pgSize j).toNat = g.message j

/-- The member of rank `r` has sent the process group of `j`. -/
def Sent (r j : Nat) (s : Member) : Prop :=
  Sound g r s ∧
    if r = j then s.point = .sentOwn (j + 1) ∧ (j + 1 < g.size → s.posted = g.pgSize (j + 1))
    else s.point = .forwarded j

variable {g eager} {r j : Nat} {s : Member}

theorem length_overwrite {buf m : List UInt8} (h : m.length ≤ buf.length) :
    (overwrite buf m).length = buf.length := by
  rw [overwrite, length_append, length_drop]
  omega

theorem take_overwrite (buf m : List UInt8) : (overwrite buf m).take m.length = m :=
  take_left

theorem Sound.irecv_eq (hs : Sound g r s) (hg : g.Counted) (hj : 0 < j) (hsize : j < g.size)
    (p : Point) : irecv s (g.pgSize j) p = { s with posted := g.pgSize j, point := p } := by
  have hnonneg := hg.nonneg j
  have hmax : g.pgSize j ≤ maxDataSize (g.pgSize r) g.pgSizes := g.pgSize_le_maxDataSize hj hsize
  have hroom := hs.room
  rw [irecv, if_neg (by omega), if_neg (by omega)]

theorem Sound.received_eq (hs : Sound g r s) (hg : g.Counted) (hj : 0 < j) (hsize : j < g.size)
    (hposted : s.posted = g.pgSize j) :
    ∃ t, received s (g.message j) = .ok t ∧ Sound g r t ∧
      t.recvBuff.take (g.pgSize j).toNat = g.message j ∧ t.point = s.point ∧
      t.aggrBuff = s.aggrBuff ∧ t.indexStart1 = s.indexStart1 ∧ t.written = s.written := by
  have hnonneg := hg.nonneg j
  have hlen := hg.length_message j
  have hmax : g.pgSize j ≤ maxDataSize (g.pgSize r) g.pgSizes := g.pgSize_le_maxDataSize hj hsize
  have hroom := hs.room
  refine ⟨_, if_neg (by omega), ⟨?_, ?_⟩, ?_, rfl, rfl, rfl, rfl⟩
  · show (overwrite s.recvBuff (g.message j)).length = _
    rw [length_overwrite (by omega), hroom]
  · intro p hp
    rcases mem_append.mp hp with hp | hp
    · exact hs.matched p hp
    · rw [mem_singleton.mp hp]
      show s.posted = ((g.message j).length : Int)
      omega
  · show (overwrite s.recvBuff (g.message j)).take (g.pgSize j).toNat = _
    rw [← hlen]
    exact take_overwrite _ _

theorem sound_member (r : Nat) : Sound g r (g.member r) :=
  ⟨g.length_member r, fun _ h => absurd h not_mem_nil⟩

theorem Group.Counted.point_member (hg : g.Counted) (r : Nat) :
    (g.member r).point =
      if r = 0 then .loop 0 else if r + 1 = g.size then .sendOwn g.size else .loop (r + 1) := by
  obtain ⟨disp, total, hsum⟩ := hg.summed
  have hself := g.pgSize_le_maxDataSize_self r
  have hnonneg := hg.nonneg r
  show g.firstPoint r = _
  rw [Group.firstPoint, hsum]
  exact if_neg (by omega)

/-! ## What the members do in a round -/

variable (eager) in
theorem ready_member (hg : g.Counted) (hr : 0 < r) (hsize : r < g.size) :
    ∃ t, Ready g eager r r t ∧ Network.Alone (brigade g eager) r (g.member r) t := by
  have hpoint := hg.point_member r
  have hsound : Sound g r (g.member r) := sound_member r
  rw [if_neg (by omega)] at hpoint
  by_cases hlast : r + 1 = g.size
  · -- the last member has nothing to receive
    rw [if_pos hlast] at hpoint
    refine ⟨g.member r, ?_, .refl _⟩
    rw [Ready, if_neg (by omega), if_pos rfl]
    exact ⟨hsound, by rw [hpoint, hlast], fun h => absurd h (by omega)⟩
  · rw [if_neg hlast] at hpoint
    refine ⟨{ g.member r with posted := g.pgSize (r + 1), point := .sendOwn (r + 1) }, ?_,
      .single ?_⟩
    · rw [Ready, if_neg (by omega), if_pos rfl]
      exact ⟨⟨hsound.room, hsound.matched⟩, rfl, fun _ => rfl⟩
    · rw [brigade, if_neg (by omega), if_neg hlast, forwarder, hpoint]
      show (if r + 1 < g.size then
        Action.step (irecv (g.member r) (g.pgSize (r + 1))
          (if r + 1 = r + 1 then .sendOwn (r + 1) else .wait (r + 1)))
        else _) = _
      rw [if_pos (by omega), if_pos rfl, hsound.irecv_eq hg (by omega) (by omega)]

theorem length_zipWith_take_le (bs : List (List UInt8)) (sizes : List Int) :
    (bs.zipWith (fun b size => b.take size.toNat) sizes).flatten.length ≤ bs.flatten.length := by
  induction bs generalizing sizes with
  | nil => exact Nat.le_refl 0
  | cons b bs ih =>
    cases sizes with
    | nil => exact Nat.zero_le _
    | cons size sizes =>
      have hrest := ih sizes
      have htake : (b.take size.toNat).length ≤ b.length := length_take_le' _ _
      rw [zipWith_cons_cons, flatten_cons, flatten_cons, length_append, length_append]
      omega

theorem Group.before_le_fits (g : Group) (j : Nat) :
    g.base.toNat + (g.before j).length < 9223372036854775808 := by
  have hfits := g.fits
  have hmessages : g.messages.flatten.length ≤ g.buffers.flatten.length :=
    length_zipWith_take_le g.buffers g.pgSizes
  have htake : (g.before j).length ≤ g.messages.flatten.length := by
    have hsplit := congrArg (fun l => (List.flatten l).length) (take_append_drop j g.messages)
    simp only [flatten_append, length_append] at hsplit
    show (g.messages.take j).flatten.length ≤ _
    omega
  omega

theorem Wrote.write_eq (hs : Wrote g j s) (hg : g.Counted) (hsize : j < g.size)
    (hbuff : (if j = 0 then g.buffer 0 else s.aggrBuff).take (g.pgSize j).toNat = g.message j) :
    ∃ t, aggregatorWrite g j s = t ∧ Wrote g (j + 1) t ∧ t.posted = s.posted ∧
      t.point = if j + 1 < g.size then .wait j else .loop (j + 1) := by
  have hnonneg := hg.nonneg j
  have hlt : g.pgSize j < 2147483648 := by
    rw [g.pgSize_eq]
    exact toInt_lt _
  have hlen := hg.length_message j
  have hcount := toNat_ofInt_of_nonneg hnonneg (by omega)
  have hroom : (g.pgSize j).toNat ≤ (if j = 0 then g.buffer 0 else s.aggrBuff).length := by
    have htake := congrArg List.length hbuff
    rw [length_take, hlen] at htake
    omega
  have hnext := g.before_le_fits (j + 1)
  rw [g.before_succ hsize, length_append] at hnext
  have hoffset := hs.offset
  obtain ⟨fh, hfh, hlaid⟩ := @stripingUnitWrite_laid _ _ _ s.written s.indexStart1
    (UInt64.ofInt (g.pgSize j)) hs.written (by omega) (by omega) (by rw [hcount]; exact hroom)
  rw [hcount, hbuff, ← g.before_succ hsize] at hlaid
  refine ⟨_, rfl, ?_⟩
  rw [aggregatorWrite, hfh]
  refine ⟨⟨⟨hs.room, hs.matched⟩, hs.aggrRoom, hlaid, ?_⟩, rfl, rfl⟩
  show (s.indexStart1 + UInt64.ofInt (g.pgSize j)).toNat = _
  rw [UInt64.toNat_add, hcount, hoffset, g.before_succ hsize, length_append, hlen]
  rw [hlen] at hnext
  omega

variable (eager) in
theorem Wrote.alone (hs : Wrote g j s) (hg : g.Counted) (hpoint : s.point = .loop j)
    (hsize : j < g.size)
    (hbuff : (if j = 0 then g.buffer 0 else s.aggrBuff).take (g.pgSize j).toNat = g.message j) :
    ∃ t, At g 0 (j + 1) t ∧ Network.Alone (brigade g eager) 0 s t := by
  by_cases hmore : j + 1 < g.size
  · have hirecv := hs.toSound.irecv_eq hg (Nat.succ_pos j) hmore (.write j)
    have hs₁ : Wrote g j { s with posted := g.pgSize (j + 1), point := .write j } :=
      ⟨⟨hs.room, hs.matched⟩, hs.aggrRoom, hs.written, hs.offset⟩
    obtain ⟨t, ht, hwrote, hposted, hpoint'⟩ := hs₁.write_eq hg hsize hbuff
    rw [if_pos hmore] at hpoint'
    refine ⟨t, ?_, .head (t := { s with posted := g.pgSize (j + 1), point := .write j }) ?_
      (.single ?_)⟩
    · rw [At, if_pos rfl, Awaits, if_pos hmore]
      exact ⟨hwrote, hpoint', hposted⟩
    · rw [brigade, if_pos rfl, aggregator, hpoint]
      show (if j < g.size then
        if j + 1 < g.size then
          Action.step (irecv s (g.pgSize (j + 1)) (.write j)) else _ else _) = _
      rw [if_pos hsize, if_pos hmore, hirecv]
    · rw [← ht]
      rfl
  · have hs₁ : Wrote g j (s.goTo (.write j)) :=
      ⟨⟨hs.room, hs.matched⟩, hs.aggrRoom, hs.written, hs.offset⟩
    obtain ⟨t, ht, hwrote, -, hpoint'⟩ := hs₁.write_eq hg hsize hbuff
    rw [if_neg hmore] at hpoint'
    refine ⟨t.goTo .done, ?_, .head (t := s.goTo (.write j)) ?_ (.head (t := t) ?_ (.single ?_))⟩
    · rw [At, if_pos rfl, Awaits, if_neg hmore]
      exact ⟨⟨⟨hwrote.room, hwrote.matched⟩, hwrote.aggrRoom, hwrote.written, hwrote.offset⟩, rfl⟩
    · rw [brigade, if_pos rfl, aggregator, hpoint]
      show (if j < g.size then
        if j + 1 < g.size then _ else Action.step (s.goTo (.write j)) else _) = _
      rw [if_pos hsize, if_neg hmore]
    · rw [← ht]
      rfl
    · rw [brigade, if_pos rfl, aggregator, hpoint']
      show (if j + 1 < g.size then _ else Action.step (t.goTo .done)) = _
      rw [if_neg hmore]

variable (eager) in
theorem At.recv_ready (hs : At g r j s) (hg : g.Counted) (hr : r < j) (hsize : j < g.size) :
    ∃ f, brigade g eager r s = .recv (r + 1) f ∧ Ready g eager r j (f (g.message j)) := by
  by_cases hzero : r = 0
  · subst hzero
    rw [At, if_pos rfl, Awaits, if_pos hsize] at hs
    obtain ⟨hwrote, hpoint, hposted⟩ := hs
    obtain ⟨i, rfl⟩ : ∃ i, j = i + 1 := ⟨j - 1, by omega⟩
    obtain ⟨t, ht, hsound, hrecv, -, haggr, hoffset, hwritten⟩ :=
      hwrote.toSound.received_eq hg hr hsize hposted
    have hnonneg := hg.nonneg (i + 1)
    have hlen := hg.length_message (i + 1)
    have hmax : g.pgSize (i + 1) ≤ maxDataSize (g.pgSize 0) g.pgSizes :=
      g.pgSize_le_maxDataSize hr hsize
    have hroom : t.aggrBuff.length = (maxDataSize (g.pgSize 0) g.pgSizes).toNat := by
      rw [haggr, hwrote.aggrRoom]
    refine ⟨aggregatorReceived g i s, ?_, ?_⟩
    · rw [brigade, if_pos rfl, aggregator, hpoint]
      rfl
    · -- the process group is copied to the other buffer, from which it is written
      have heq : aggregatorReceived g i s (g.message (i + 1)) =
          { t with
            aggrBuff := overwrite t.aggrBuff (g.message (i + 1)), point := .loop (i + 1) } := by
        rw [aggregatorReceived, ht]
        show (if t.aggrBuff.length < (g.pgSize (i + 1)).toNat then _ else _) = _
        rw [if_neg (by omega), hrecv]
      rw [Ready, if_pos rfl, heq]
      refine Wrote.alone eager ⟨⟨hsound.room, hsound.matched⟩, ?_, ?_, ?_⟩ hg rfl hsize ?_
      · show (overwrite t.aggrBuff (g.message (i + 1))).length = _
        rw [length_overwrite (by omega), hroom]
      · show Heap.Laid _ _ t.written
        rw [hwritten]
        exact hwrote.written
      · show t.indexStart1.toNat = _
        rw [hoffset]
        exact hwrote.offset
      · rw [if_neg (Nat.succ_ne_zero i), ← hlen]
        exact take_overwrite _ _
  · rw [At, if_neg hzero, if_neg (by omega), Awaits, if_pos hsize] at hs
    obtain ⟨hsound, hpoint, hposted⟩ := hs
    obtain ⟨t, ht, hsound', hrecv, -⟩ := hsound.received_eq hg (by omega) hsize hposted
    refine ⟨forwarderReceived j s, ?_, ?_⟩
    · rw [brigade, if_neg hzero, if_neg (by omega), forwarder, hpoint]
    · rw [forwarderReceived, ht, Ready, if_neg hzero, if_neg (by omega)]
      exact ⟨⟨hsound'.room, hsound'.matched⟩, rfl, hrecv⟩

theorem send_eq {buf : List UInt8} {p : Point} (hnonneg : 0 ≤ g.pgSize j)
    (hbuf : buf.take (g.pgSize j).toNat = g.message j)
    (hlen : (g.message j).length = (g.pgSize j).toNat) :
    send r s buf (g.pgSize j) p = .send (r - 1) (g.message j) (s.goTo p) := by
  have htake := congrArg List.length hbuf
  rw [length_take, hlen] at htake
  rw [send, if_neg (by omega), if_neg (by omega), hbuf]

theorem Ready.sends (hs : Ready g eager r j s) (hg : g.Counted) (hr : 0 < r) (hle : r ≤ j)
    (hsize : j < g.size) :
    ∃ t, brigade g eager r s = .send (r - 1) (g.message j) t ∧ Sent g r j t := by
  rw [Ready, if_neg (by omega)] at hs
  obtain ⟨hsound, hs⟩ := hs
  have hnonneg := hg.nonneg j
  have hlen := hg.length_message j
  by_cases hown : r = j
  · subst hown
    rw [if_pos rfl] at hs
    obtain ⟨hpoint, hposted⟩ := hs
    refine ⟨s.goTo (.sentOwn (r + 1)), ?_, ⟨hsound.room, hsound.matched⟩, ?_⟩
    · rw [brigade, if_neg (by omega)]
      by_cases hlast : r + 1 = g.size
      · rw [if_pos hlast, last, hpoint]
        exact send_eq hnonneg rfl hlen
      · rw [if_neg hlast, forwarder, hpoint]
        exact send_eq hnonneg rfl hlen
    · rw [if_pos rfl]
      exact ⟨rfl, hposted⟩
  · rw [if_neg hown] at hs
    obtain ⟨hpoint, hrecv⟩ := hs
    refine ⟨s.goTo (.forwarded j), ?_, ⟨hsound.room, hsound.matched⟩, ?_⟩
    · rw [brigade, if_neg (by omega), if_neg (by omega), forwarder, hpoint]
      exact send_eq hnonneg hrecv hlen
    · rw [if_neg hown]
      rfl

open Network (Moves become become_queue become_procs_self become_procs_of_ne become_become
  become_comm)

theorem sent_reaches {i : Nat} {p : Point} {c : Network Nat Member (List UInt8)}
    (hs : c.procs r = s) (hnext : brigade g eager r s = sent eager r i s p)
    (hempty : c.queue (r, r - 1) = []) :
    Reaches (Moves (brigade g eager)) c (c.become r (s.goTo p)) := by
  refine .single ⟨r, ?_⟩
  by_cases heager : eager r i = true
  · rw [sent, if_pos heager] at hnext
    exact .step (by rw [hs, hnext])
  · rw [sent, if_neg heager] at hnext
    exact .drain (by rw [hs, hnext]) hempty

/-- A member that has sent the process group of `j` goes on to that of `j + 1`. -/
theorem Sent.reaches_at (hs : Sent g r j s) (hg : g.Counted) (hr : 0 < r) (hle : r ≤ j)
    (hsize : j < g.size) {c : Network Nat Member (List UInt8)} (hc : c.procs r = s)
    (hempty : c.queue (r, r - 1) = []) :
    ∃ t, At g r (j + 1) t ∧ Reaches (Moves (brigade g eager)) c (c.become r t) := by
  obtain ⟨hsound, hs⟩ := hs
  by_cases hown : r = j
  · subst hown
    rw [if_pos rfl] at hs
    obtain ⟨hpoint, hposted⟩ := hs
    by_cases hlast : r + 1 = g.size
    · refine ⟨s.goTo .done, ?_, sent_reaches (i := r) hc ?_ hempty⟩
      · rw [At, if_neg (by omega), if_neg (by omega), Awaits, if_neg (by omega)]
        exact ⟨⟨hsound.room, hsound.matched⟩, rfl⟩
      · rw [brigade, if_neg (by omega), if_pos hlast, last, hpoint]
    · refine ⟨s.goTo (.wait (r + 1)), ?_, sent_reaches (i := r) hc ?_ hempty⟩
      · rw [At, if_neg (by omega), if_neg (by omega), Awaits, if_pos (by omega)]
        exact ⟨⟨hsound.room, hsound.matched⟩, rfl, hposted (by omega)⟩
      · rw [brigade, if_neg (by omega), if_neg hlast, forwarder, hpoint]
  · rw [if_neg hown] at hs
    have hloop := @sent_reaches g eager r s j (.loop (j + 1)) c hc
      (by rw [brigade, if_neg (by omega), if_neg (by omega), forwarder, hs]) hempty
    have hnext : brigade g eager r (s.goTo (.loop (j + 1))) =
        if j + 1 < g.size then
          .step (irecv (s.goTo (.loop (j + 1))) (g.pgSize (j + 1)) (.wait (j + 1)))
        else .step ((s.goTo (.loop (j + 1))).goTo .done) := by
      rw [brigade, if_neg (by omega), if_neg (by omega), forwarder]
      show (if j + 1 < g.size then Action.step (irecv (s.goTo (.loop (j + 1))) (g.pgSize (j + 1))
        (if j + 1 = r + 1 then .sendOwn (j + 1) else .wait (j + 1))) else _) = _
      rw [if_neg (show j + 1 ≠ r + 1 by omega)]
    have hsound' : Sound g r (s.goTo (.loop (j + 1))) := ⟨hsound.room, hsound.matched⟩
    by_cases hmore : j + 1 < g.size
    · rw [if_pos hmore, hsound'.irecv_eq hg (by omega) hmore] at hnext
      have hwait := (Network.Alone.single hnext).reaches (c := c.become r (s.goTo (.loop (j + 1))))
        become_procs_self
      rw [become_become] at hwait
      refine ⟨_, ?_, hloop.trans hwait⟩
      rw [At, if_neg (by omega), if_neg (by omega), Awaits, if_pos hmore]
      exact ⟨⟨hsound.room, hsound.matched⟩, rfl, rfl⟩
    · rw [if_neg hmore] at hnext
      have hdone := (Network.Alone.single hnext).reaches (c := c.become r (s.goTo (.loop (j + 1))))
        become_procs_self
      rw [become_become] at hdone
      refine ⟨_, ?_, hloop.trans hdone⟩
      rw [At, if_neg (by omega), if_neg (by omega), Awaits, if_neg hmore]
      exact ⟨⟨hsound.room, hsound.matched⟩, rfl⟩

/-! ## Rounds -/

theorem hop {k : Nat} {c : Network Nat Member (List UInt8)} (hg : g.Counted)
    (hready : Ready g eager (k + 1) j (c.procs (k + 1))) (hat : At g k j (c.procs k)) (hk : k < j)
    (hsize : j < g.size) (hempty : ∀ q, c.queue q = []) :
    ∃ a b, At g (k + 1) (j + 1) a ∧ Ready g eager k j b ∧
      Reaches (Moves (brigade g eager)) c ((c.become (k + 1) a).become k b) := by
  obtain ⟨s, hsend, hsent⟩ := hready.sends hg (Nat.succ_pos k) hk hsize
  obtain ⟨f, hrecv, hready'⟩ := hat.recv_ready eager hg hk hsize
  have hne : k ≠ k + 1 := by omega
  have h₁ := @Network.Turn.send _ _ _ _ (brigade g eager) (k + 1) c k (g.message j) s hsend
  generalize hc₁ : (c.put (k + 1, k) (c.queue (k + 1, k) ++ [g.message j])).become (k + 1) s = c₁
    at h₁
  have hqueue₁ : c₁.queue (k + 1, k) = g.message j :: [] := by
    rw [← hc₁, become_queue, Network.put_queue_self, hempty]
    rfl
  have h₂ := @Network.Turn.recv _ _ _ _ (brigade g eager) k c₁ (k + 1) f (g.message j) []
    (by rw [← hc₁, become_procs_of_ne hne, Network.put_procs, hrecv]) hqueue₁
  -- the message is gone again
  have hc₂ : (c₁.put (k + 1, k) []).become k (f (g.message j)) =
      (c.become (k + 1) s).become k (f (g.message j)) := by
    rw [← hc₁, Network.put_become, Network.put_put, Network.put_eq_self (hempty _)]
  rw [hc₂] at h₂
  obtain ⟨t, hat', hfinish⟩ := @Sent.reaches_at g eager (k + 1) j s hsent hg (Nat.succ_pos k) hk
    hsize ((c.become (k + 1) s).become k (f (g.message j)))
    (by rw [become_procs_of_ne hne.symm, become_procs_self])
    (by rw [become_queue, become_queue]; exact hempty _)
  rw [become_comm hne, become_become] at hfinish
  refine ⟨t, f (g.message j), hat', hready', ?_⟩
  exact (Reaches.head ⟨_, h₁⟩ (Reaches.single ⟨_, h₂⟩)).trans hfinish

theorem carry {k : Nat} {c : Network Nat Member (List UInt8)} (hg : g.Counted)
    (hready : Ready g eager k j (c.procs k)) (hat : ∀ r, r < k → At g r j (c.procs r)) (hk : k ≤ j)
    (hsize : j < g.size) (hempty : ∀ q, c.queue q = []) :
    ∃ d, Reaches (Moves (brigade g eager)) c d ∧ (∀ r, r ≤ k → At g r (j + 1) (d.procs r)) ∧
      (∀ r, k < r → d.procs r = c.procs r) ∧ ∀ q, d.queue q = [] := by
  induction k generalizing c with
  | zero =>
    rw [Ready, if_pos rfl] at hready
    obtain ⟨t, ht, halone⟩ := hready
    refine ⟨c.become 0 t, halone.reaches rfl, fun r hr => ?_, fun r hr => ?_, hempty⟩
    · rw [Nat.le_zero.mp hr, become_procs_self]
      exact ht
    · exact become_procs_of_ne (by omega)
  | succ k ih =>
    obtain ⟨a, b, ha, hb, hhop⟩ := hop hg hready (hat k (Nat.lt_succ_self k)) hk hsize hempty
    generalize hd : (c.become (k + 1) a).become k b = d at hhop
    have hdk : d.procs k = b := by rw [← hd, become_procs_self]
    have hdk' : d.procs (k + 1) = a := by
      rw [← hd, become_procs_of_ne (by omega), become_procs_self]
    have hdne : ∀ r, r ≠ k → r ≠ k + 1 → d.procs r = c.procs r := fun r hr hr' => by
      rw [← hd, become_procs_of_ne hr, become_procs_of_ne hr']
    obtain ⟨e, hreach, hle, hlt, hqueue⟩ := @ih d (by rw [hdk]; exact hb)
      (fun r hr => by
        rw [hdne r (by omega) (by omega)]
        exact hat r (by omega))
      (by omega) (fun q => by rw [← hd, become_queue, become_queue]; exact hempty q)
    refine ⟨e, hhop.trans hreach, fun r hr => ?_, fun r hr => ?_, hqueue⟩
    · by_cases hrk : r = k + 1
      · rw [hrk, hlt (k + 1) (Nat.lt_succ_self k), hdk']
        exact ha
      · exact hle r (by omega)
    · rw [hlt r (by omega), hdne r (by omega) (by omega)]

/-- The network in front of round `j`. -/
structure Round (g : Group) (j : Nat) (c : Network Nat Member (List UInt8)) : Prop where
  stand (r : Nat) (hr : r < g.size) : At g r (max r j) (c.procs r)
  absent (r : Nat) (hr : g.size ≤ r) : c.procs r = g.absent
  quiet (q : Nat × Nat) : c.queue q = []

variable (eager) in
theorem Round.next {c : Network Nat Member (List UInt8)} (hc : Round g j c) (hg : g.Counted)
    (hj : 0 < j) (hsize : j < g.size) :
    ∃ d, Reaches (Moves (brigade g eager)) c d ∧ Round g (j + 1) d := by
  have hself := hc.stand j hsize
  rw [Nat.max_self, At, if_neg (by omega), if_pos (Nat.le_refl j)] at hself
  obtain ⟨t, hready, halone⟩ := ready_member eager hg hj hsize
  have hbegin := halone.reaches hself
  obtain ⟨d, hreach, hle, hlt, hqueue⟩ := @carry g eager j j (c.become j t) hg
    (by rw [become_procs_self]; exact hready)
    (fun r hr => by
      have hr' := hc.stand r (by omega)
      rw [Nat.max_eq_right (by omega)] at hr'
      rw [become_procs_of_ne (by omega)]
      exact hr')
    (Nat.le_refl j) hsize hc.quiet
  refine ⟨d, hbegin.trans hreach, fun r hr => ?_, fun r hr => ?_, hqueue⟩
  · by_cases hrj : r ≤ j
    · rw [Nat.max_eq_right (by omega)]
      exact hle r hrj
    · -- a member behind `j` has not begun
      have hr' := hc.stand r hr
      rw [Nat.max_eq_left (by omega)] at hr' ⊢
      rw [hlt r (by omega), become_procs_of_ne (by omega)]
      exact hr'
  · rw [hlt r (by omega), become_procs_of_ne (by omega)]
    exact hc.absent r hr

theorem Group.size_pos (g : Group) : 0 < g.size := length_pos_of_ne_nil g.nonempty

variable (eager) in
theorem round_one (hg : g.Counted) :
    ∃ d, Reaches (Moves (brigade g eager)) g.start d ∧ Round g 1 d := by
  have hpoint := hg.point_member 0
  rw [if_pos rfl] at hpoint
  have hwrote : Wrote g 0 (g.member 0) := by
    refine ⟨sound_member 0, length_replicate, ?_, ?_⟩
    · exact .nil _
    · exact (Nat.add_zero _).symm
  obtain ⟨t, ht, halone⟩ := hwrote.alone eager hg hpoint g.size_pos rfl
  have hstart : g.start.procs 0 = g.member 0 := if_pos g.size_pos
  refine ⟨g.start.become 0 t, halone.reaches hstart, fun r hr => ?_, fun r hr => ?_, fun q => rfl⟩
  · by_cases hzero : r = 0
    · subst hzero
      rw [become_procs_self]
      exact ht
    · rw [become_procs_of_ne hzero, Nat.max_eq_left (by omega), At, if_neg hzero,
        if_pos (Nat.le_refl r)]
      exact if_pos hr
  · have hpos := g.size_pos
    rw [become_procs_of_ne (by omega)]
    exact if_neg (by omega)

variable (eager) in
theorem round_of_le (hg : g.Counted) (hj : 0 < j) (hsize : j ≤ g.size) :
    ∃ d, Reaches (Moves (brigade g eager)) g.start d ∧ Round g j d := by
  induction j with
  | zero => exact absurd hj (Nat.lt_irrefl 0)
  | succ j ih =>
    by_cases hzero : j = 0
    · subst hzero
      exact round_one eager hg
    · obtain ⟨c, hreach, hc⟩ := ih (by omega) (by omega)
      obtain ⟨d, hreach', hd⟩ := hc.next eager hg (by omega) (by omega)
      exact ⟨d, hreach.trans hreach', hd⟩

end Rounds

end Adios.Amr
