import Adios.Types
import Mathlib.Algebra.Ring.Int.Defs
import Mathlib.Algebra.Ring.Nat

/-!
# Adios — the indexes of the blocks of a variable

`core/transforms/adios_transforms_read.c`: a block of a transformed variable is known by its place
among all blocks or by its timestep and its place in there. Three functions and a loop count the
blocks of the timesteps again.
-/

namespace Adios.Blocks

open List

/-- What the conversions read of an `ADIOS_VARINFO`: `nblocks`, an `int` for each of the `nsteps`
timesteps. Their sum is the `int` `sum_nblocks`. -/
structure RawVarinfo where
  nblocks : List Nat
  nsteps : nblocks.length < 2147483648
  sumNblocks : nblocks.sum < 2147483648

/-- The loop of `compute_blockidx_range`, with `timestep`, `curblocks`, and the two results, in
which there is something before they are set. -/
def blockidxRangeLoop (fromSteps toSteps : Int) : Int → Int → Int × Int → List Nat → Int × Int
  | _, _, out, [] => out
  | timestep, curblocks, (startBlockidx, endBlockidx), n :: ns =>
    let startBlockidx := if timestep = fromSteps then curblocks else startBlockidx
    let curblocks := curblocks + n
    if timestep = toSteps - 1 then (startBlockidx, curblocks)
    else
      blockidxRangeLoop fromSteps toSteps (timestep + 1) curblocks (startBlockidx, endBlockidx) ns

/-- `compute_blockidx_range` -/
def computeBlockidxRange (v : RawVarinfo) (fromSteps toSteps : Int) (out : Int × Int) : Int × Int :=
  blockidxRangeLoop fromSteps toSteps 0 0 out v.nblocks

/-- `compute_absolute_blockidx_from_relative_blockidx`; `none` is a return of 0. -/
def computeAbsoluteBlockidx (v : RawVarinfo) (timestep timestepBlockidx : Int) : Option Int :=
  if timestep < 0 then none
  else
    match v.nblocks[timestep.toNat]? with
    | none => none
    | some n =>
      if timestepBlockidx ≥ n then none
      else some (((v.nblocks.take timestep.toNat).sum : Nat) + timestepBlockidx)

/-- The loop of `compute_relative_blockidx_from_absolute_blockidx`. -/
def relativeBlockidxLoop (blockidx : Int) : Int → Int → List Nat → Option (Int × Int)
  | _, _, [] => none
  | timestep, curblocks, n :: ns =>
    let nextCurblocks := curblocks + n
    if blockidx < nextCurblocks then some (timestep, blockidx - curblocks)
    else relativeBlockidxLoop blockidx (timestep + 1) nextCurblocks ns

/-- `compute_relative_blockidx_from_absolute_blockidx` -/
def computeRelativeBlockidx (v : RawVarinfo) (blockidx : Int) : Option (Int × Int) :=
  relativeBlockidxLoop blockidx 0 0 v.nblocks

/-- The arguments of a `generate_read_request_for_pg`. -/
structure Visit where
  timestep : Nat
  timestepBlockidx : Nat
  blockidx : Int
  deriving DecidableEq, Repr

/-- "`while (blockidx != end_blockidx)`", of which so many rounds are left. -/
def visitLoop (v : RawVarinfo) : Nat → Nat → Nat → Int → Except Fault (List Visit)
  | 0, _, _, _ => .ok []
  | rounds + 1, timestep, timestepBlockidx, blockidx =>
    match v.nblocks[timestep]? with
    | none => .error .outOfBounds
    | some n => do
      let rest ←
        if timestepBlockidx + 1 = n then visitLoop v rounds (timestep + 1) 0 (blockidx + 1)
        else visitLoop v rounds timestep (timestepBlockidx + 1) (blockidx + 1)
      .ok (⟨timestep, timestepBlockidx, blockidx⟩ :: rest)

/-- `populate_read_request_for_global_selection`: for which blocks it generates a read request. A
`blockidx` behind `end_blockidx` would have to overflow to become equal to it. -/
def populateReadRequest (v : RawVarinfo) (fromSteps nsteps : Nat) (out : Int × Int) :
    Except Fault (List Visit) :=
  let (startBlockidx, endBlockidx) :=
    computeBlockidxRange v fromSteps ((fromSteps : Int) + nsteps) out
  if endBlockidx < startBlockidx then .error .signedOverflow
  else visitLoop v (endBlockidx - startBlockidx).toNat fromSteps 0 startBlockidx

/-! ## What the numbers mean -/

structure Window (v : RawVarinfo) where
  fromSteps : Nat
  toSteps : Nat
  le : fromSteps ≤ toSteps
  inside : toSteps ≤ v.nblocks.length

def RawVarinfo.blocksBefore (v : RawVarinfo) (timestep : Nat) : Nat := (v.nblocks.take timestep).sum

def RawVarinfo.IsBlock (v : RawVarinfo) (timestep timestepBlockidx : Int) : Prop :=
  0 ≤ timestep ∧ 0 ≤ timestepBlockidx ∧ ∃ n : Nat, v.nblocks[timestep.toNat]? = some n ∧
    timestepBlockidx < n

def RawVarinfo.absolute (v : RawVarinfo) (timestep timestepBlockidx : Int) : Int :=
  v.blocksBefore timestep.toNat + timestepBlockidx

/-- The blocks of some timesteps, of which the first has the index `timestep`. -/
def blocksOf (timestep : Nat) (blockidx : Int) : List Nat → List Visit
  | [] => []
  | n :: ns => ((List.range n).map fun k => ⟨timestep, k, blockidx + k⟩) ++
      blocksOf (timestep + 1) (blockidx + n) ns

def Window.nblocks {v : RawVarinfo} (w : Window v) : List Nat :=
  (v.nblocks.drop w.fromSteps).take (w.toSteps - w.fromSteps)

structure Converts (v : RawVarinfo) (blockidx timestep timestepBlockidx : Int) : Prop where
  relative : (∃ t k, v.IsBlock t k ∧ v.absolute t k = blockidx ∧
      computeRelativeBlockidx v blockidx = some (t, k) ∧
      computeAbsoluteBlockidx v t k = some blockidx) ∨
    (¬∃ t k, v.IsBlock t k ∧ v.absolute t k = blockidx) ∧ computeRelativeBlockidx v blockidx = none
  absolute : (v.IsBlock timestep timestepBlockidx ∧
      computeAbsoluteBlockidx v timestep timestepBlockidx =
        some (v.absolute timestep timestepBlockidx) ∧
      computeRelativeBlockidx v (v.absolute timestep timestepBlockidx) =
        some (timestep, timestepBlockidx)) ∨
    ¬v.IsBlock timestep timestepBlockidx ∧
      computeAbsoluteBlockidx v timestep timestepBlockidx = none

/-- The range of a window is that of its blocks, and each of them is visited, once and as what it
is, whatever is in the two results before. -/
structure Window.Covered {v : RawVarinfo} (w : Window v) : Prop where
  range (out : Int × Int) : computeBlockidxRange v w.fromSteps w.toSteps out =
    ((v.blocksBefore w.fromSteps : Int), (v.blocksBefore w.toSteps : Int))
  visits (out : Int × Int) : populateReadRequest v w.fromSteps (w.toSteps - w.fromSteps) out =
    .ok (blocksOf w.fromSteps (v.blocksBefore w.fromSteps) w.nblocks)

/-! ## The range -/

theorem blockidxRangeLoop_eq {fromSteps toSteps : Nat} (hlt : fromSteps < toSteps) (ns : List Nat)
    (pre : List Nat) (hpre : pre.length < toSteps) (hend : toSteps ≤ pre.length + ns.length)
    (out : Int × Int) :
    blockidxRangeLoop fromSteps toSteps pre.length (pre.sum : Nat) out ns =
      (if pre.length ≤ fromSteps then ((((pre ++ ns).take fromSteps).sum : Nat) : Int) else out.1,
        ((((pre ++ ns).take toSteps).sum : Nat) : Int)) := by
  induction ns generalizing pre out with
  | nil =>
    rw [length_nil] at hend
    omega
  | cons n ns ih =>
    rw [length_cons] at hend
    have hsnoc : pre ++ n :: ns = (pre ++ [n]) ++ ns := by
      rw [append_assoc]
      rfl
    have hlen : (pre ++ [n]).length = pre.length + 1 := length_append
    have hsum : (((pre ++ [n]).sum : Nat) : Int) = (pre.sum : Nat) + n := by
      rw [sum_append, sum_singleton]
      rfl
    have hown : ((pre ++ n :: ns).take pre.length).sum = pre.sum := by
      rw [take_left' rfl]
    obtain ⟨startBlockidx, endBlockidx⟩ := out
    rw [blockidxRangeLoop]
    dsimp only
    by_cases hlast : (pre.length : Int) = (toSteps : Int) - 1
    · have hto : toSteps = (pre ++ [n]).length := by omega
      rw [if_pos hlast, ← hsum, hsnoc]
      conv_rhs => rw [hto, take_left' rfl]
      rw [← hsnoc]
      by_cases hfrom : (pre.length : Int) = fromSteps
      · have heq : fromSteps = pre.length := by omega
        rw [if_pos hfrom, if_pos (by omega), heq, hown]
      · rw [if_neg hfrom, if_neg (by omega)]
    · have hrest := ih (pre ++ [n]) (by omega) (by omega)
        (if (pre.length : Int) = fromSteps then (pre.sum : Nat) else startBlockidx, endBlockidx)
      rw [hsum, hlen, Nat.cast_succ, ← hsnoc] at hrest
      rw [if_neg hlast, hrest]
      by_cases hfrom : (pre.length : Int) = fromSteps
      · have heq : fromSteps = pre.length := by omega
        rw [if_neg (by omega), if_pos hfrom, if_pos (by omega), heq, hown]
      · by_cases hle : pre.length ≤ fromSteps
        · rw [if_pos (by omega), if_pos hle]
        · rw [if_neg (by omega), if_neg hfrom, if_neg hle]

theorem blockidxRangeLoop_snd {fromSteps toSteps timestep : Int} (h : toSteps ≤ timestep)
    (curblocks : Int) (out : Int × Int) (ns : List Nat) :
    (blockidxRangeLoop fromSteps toSteps timestep curblocks out ns).2 = out.2 := by
  induction ns generalizing timestep curblocks out with
  | nil => rfl
  | cons n ns ih =>
    obtain ⟨startBlockidx, endBlockidx⟩ := out
    rw [blockidxRangeLoop]
    dsimp only
    rw [if_neg (by omega)]
    exact ih (by omega) _ _

theorem blockidxRangeLoop_fst {fromSteps toSteps timestep : Int} (hle : toSteps ≤ fromSteps)
    (h : timestep < toSteps) (curblocks : Int) (out : Int × Int) (ns : List Nat) :
    (blockidxRangeLoop fromSteps toSteps timestep curblocks out ns).1 = out.1 := by
  induction ns generalizing timestep curblocks out with
  | nil => rfl
  | cons n ns ih =>
    obtain ⟨startBlockidx, endBlockidx⟩ := out
    rw [blockidxRangeLoop]
    dsimp only
    rw [if_neg (by omega : timestep ≠ fromSteps)]
    by_cases hlast : timestep = toSteps - 1
    · rw [if_pos hlast]
    · rw [if_neg hlast]
      exact ih (by omega) _ _

variable {v : RawVarinfo}

theorem computeBlockidxRange_eq (w : Window v) (h : w.fromSteps < w.toSteps) (out : Int × Int) :
    computeBlockidxRange v w.fromSteps w.toSteps out =
      ((v.blocksBefore w.fromSteps : Int), (v.blocksBefore w.toSteps : Int)) := by
  have hinside := w.inside
  have heq := blockidxRangeLoop_eq h v.nblocks [] (Nat.lt_of_le_of_lt (Nat.zero_le _) h)
    (by rw [length_nil, Nat.zero_add]; exact hinside) out
  rw [nil_append, length_nil, if_pos (Nat.zero_le _)] at heq
  exact heq

theorem Window.Covered.lt {w : Window v} (h : w.Covered) : w.fromSteps < w.toSteps := by
  by_contra hge
  have hle := w.le
  have heq : w.fromSteps = w.toSteps := by omega
  rcases Nat.eq_zero_or_pos w.toSteps with hzero | hpos
  · have hrange := h.range (0, -1)
    have hsnd := congrArg Prod.snd hrange
    unfold computeBlockidxRange at hsnd
    rw [blockidxRangeLoop_snd (by omega)] at hsnd
    exact absurd hsnd (by
      show (-1 : Int) ≠ _
      omega)
  · have hrange := h.range (-1, 0)
    have hfst := congrArg Prod.fst hrange
    unfold computeBlockidxRange at hfst
    rw [blockidxRangeLoop_fst (by omega) (by omega)] at hfst
    exact absurd hfst (by
      show (-1 : Int) ≠ _
      omega)

/-! ## The conversions -/

variable {t k : Int} {ns : List Nat} {n : Nat}

theorem computeAbsoluteBlockidx_of_isBlock (h : v.IsBlock t k) :
    computeAbsoluteBlockidx v t k = some (v.absolute t k) := by
  obtain ⟨ht, -, n, hn, hk⟩ := h
  unfold computeAbsoluteBlockidx
  rw [if_neg (by omega), hn]
  exact if_neg (by omega)

theorem computeAbsoluteBlockidx_of_not (h : ¬v.IsBlock t k) (hk : 0 ≤ k) :
    computeAbsoluteBlockidx v t k = none := by
  unfold computeAbsoluteBlockidx
  by_cases ht : t < 0
  · exact if_pos ht
  · rw [if_neg ht]
    cases hn : v.nblocks[t.toNat]? with
    | none => rfl
    | some n => exact if_pos (by
        by_contra hlt
        exact h ⟨by omega, hk, n, hn, by omega⟩)

theorem computeAbsoluteBlockidx_of_neg (hk : k < 0) (ht : 0 ≤ t) (hlt : t < v.nblocks.length) :
    computeAbsoluteBlockidx v t k ≠ none := by
  have hn : v.nblocks[t.toNat]? = some (v.nblocks[t.toNat]) := getElem?_eq_getElem (by omega)
  unfold computeAbsoluteBlockidx
  rw [if_neg (by omega), hn]
  dsimp only
  rw [if_neg (by omega)]
  exact Option.some_ne_none _

theorem relativeBlockidxLoop_of_block {j : Nat} (hn : ns[j]? = some n) (hk : 0 ≤ k) (hlt : k < n)
    (timestep curblocks : Int) :
    relativeBlockidxLoop (curblocks + ((ns.take j).sum : Nat) + k) timestep curblocks ns =
      some (timestep + j, k) := by
  induction ns generalizing j timestep curblocks with
  | nil => cases hn
  | cons m ns ih =>
    rw [relativeBlockidxLoop]
    cases j with
    | zero =>
      cases hn
      rw [take_zero, sum_nil, if_pos (by omega)]
      congr 2 <;> omega
    | succ j =>
      rw [take_succ_cons, sum_cons, if_neg (by omega)]
      have hrest := ih hn (timestep + 1) (curblocks + m)
      have hsum : curblocks + ((m + (ns.take j).sum : Nat) : Int) + k =
          curblocks + m + ((ns.take j).sum : Nat) + k := by omega
      rw [hsum, hrest]
      congr 2
      omega

theorem relativeBlockidxLoop_of_ge {blockidx curblocks : Int}
    (h : curblocks + (ns.sum : Nat) ≤ blockidx) (timestep : Int) :
    relativeBlockidxLoop blockidx timestep curblocks ns = none := by
  induction ns generalizing timestep curblocks with
  | nil => rfl
  | cons n ns ih =>
    rw [sum_cons] at h
    rw [relativeBlockidxLoop, if_neg (by omega)]
    exact ih (by omega) _

theorem computeRelativeBlockidx_of_isBlock (h : v.IsBlock t k) :
    computeRelativeBlockidx v (v.absolute t k) = some (t, k) := by
  obtain ⟨ht, hk, n, hn, hlt⟩ := h
  have hloop := relativeBlockidxLoop_of_block hn hk hlt 0 0
  rw [Int.zero_add, Int.zero_add, Int.toNat_of_nonneg ht] at hloop
  exact hloop

theorem exists_block {ns : List Nat} {b : Nat} (h : b < ns.sum) :
    ∃ j n k, ns[j]? = some n ∧ k < n ∧ (ns.take j).sum + k = b := by
  induction ns generalizing b with
  | nil => exact absurd h (Nat.not_lt_zero _)
  | cons n ns ih =>
    rw [sum_cons] at h
    by_cases hlt : b < n
    · exact ⟨0, n, b, rfl, hlt, Nat.zero_add b⟩
    · obtain ⟨j, m, k, hm, hk, hsum⟩ := @ih (b - n) (by omega)
      refine ⟨j + 1, m, k, hm, hk, ?_⟩
      rw [take_succ_cons, sum_cons]
      omega

theorem converts_iff (blockidx timestep timestepBlockidx : Int) :
    Converts v blockidx timestep timestepBlockidx ↔
      (0 ≤ blockidx ∨ v.nblocks = []) ∧
      (0 ≤ timestepBlockidx ∨ timestep < 0 ∨ (v.nblocks.length : Int) ≤ timestep) := by
  constructor
  · rintro ⟨hrelative, habsolute⟩
    refine ⟨?_, ?_⟩
    · by_contra hnot
      obtain ⟨hneg, hne⟩ := not_or.mp hnot
      -- a negative index is taken for one of the first timestep
      have haccepts : computeRelativeBlockidx v blockidx ≠ none := by
        unfold computeRelativeBlockidx
        cases hns : v.nblocks with
        | nil => exact absurd hns hne
        | cons n ns =>
          rw [relativeBlockidxLoop, if_pos (by omega)]
          exact Option.some_ne_none _
      obtain ⟨t, k, ⟨-, hk, -⟩, heq, -⟩ | ⟨-, hnone⟩ := hrelative
      · unfold RawVarinfo.absolute at heq
        omega
      · exact haccepts hnone
    · by_contra hnot
      obtain ⟨hneg, hnot⟩ := not_or.mp hnot
      obtain ⟨ht, hlt⟩ := not_or.mp hnot
      obtain ⟨⟨-, hk, -⟩, -⟩ | ⟨-, hnone⟩ := habsolute
      · exact hneg hk
      · exact computeAbsoluteBlockidx_of_neg (by omega) (by omega) (by omega) hnone
  · rintro ⟨hindex, hplace⟩
    refine ⟨?_, ?_⟩
    · by_cases hblock : ∃ t k, v.IsBlock t k ∧ v.absolute t k = blockidx
      · obtain ⟨t, k, hblock, rfl⟩ := hblock
        exact .inl ⟨t, k, hblock, rfl, computeRelativeBlockidx_of_isBlock hblock,
          computeAbsoluteBlockidx_of_isBlock hblock⟩
      · refine .inr ⟨hblock, ?_⟩
        rcases hindex with hnonneg | hnil
        · refine relativeBlockidxLoop_of_ge ?_ 0
          by_contra hlt
          obtain ⟨j, n, k, hn, hk, hsum⟩ := @exists_block v.nblocks blockidx.toNat (by omega)
          refine hblock ⟨j, k, ⟨by omega, by omega, n, hn, by omega⟩, ?_⟩
          show (((v.nblocks.take j).sum : Nat) : Int) + k = blockidx
          omega
        · unfold computeRelativeBlockidx
          rw [hnil]
          rfl
    · by_cases hblock : v.IsBlock timestep timestepBlockidx
      · exact .inl ⟨hblock, computeAbsoluteBlockidx_of_isBlock hblock,
          computeRelativeBlockidx_of_isBlock hblock⟩
      · refine .inr ⟨hblock, ?_⟩
        rcases hplace with hnonneg | hneg | hge
        · exact computeAbsoluteBlockidx_of_not hblock hnonneg
        · exact if_pos hneg
        · have hnone : v.nblocks[timestep.toNat]? = none := getElem?_eq_none (by omega)
          unfold computeAbsoluteBlockidx
          rw [hnone]
          split_ifs <;> rfl

/-! ## The visits -/

theorem visitLoop_step {timestep : Nat} (hn : v.nblocks[timestep]? = some n) (rounds m : Nat)
    {k : Nat} (hk : k + (m + 1) = n) (blockidx : Int) :
    visitLoop v (m + 1 + rounds) timestep k blockidx =
      visitLoop v rounds (timestep + 1) 0 (blockidx + (m + 1 : Nat)) >>= fun rest =>
        .ok (((List.range (m + 1)).map fun i : Nat =>
          ⟨timestep, k + i, blockidx + i⟩) ++ rest) := by
  induction m generalizing k blockidx with
  | zero =>
    rw [Nat.zero_add, Nat.add_comm 1 rounds, visitLoop, hn]
    dsimp only
    rw [if_pos (by omega), range_one, map_singleton, Nat.add_zero, Nat.cast_zero, Int.add_zero]
    rfl
  | succ m ih =>
    have hrounds : m + 1 + 1 + rounds = m + 1 + rounds + 1 := by omega
    have hnext : blockidx + 1 + ((m + 1 : Nat) : Int) = blockidx + ((m + 1 + 1 : Nat) : Int) := by
      omega
    rw [hrounds, visitLoop, hn]
    dsimp only
    rw [if_neg (by omega), ih (by omega), hnext]
    cases visitLoop v rounds (timestep + 1) 0 (blockidx + ((m + 1 + 1 : Nat) : Int)) with
    | error f => rfl
    | ok rest =>
      have hmap : ((List.range (m + 1)).map fun i : Nat =>
          (⟨timestep, k + 1 + i, blockidx + 1 + i⟩ : Visit)) =
          (List.range (m + 1)).map ((fun i : Nat => ⟨timestep, k + i, blockidx + i⟩) ∘ Nat.succ) :=
        map_congr_left fun i _ => by
          show Visit.mk _ _ _ = Visit.mk _ _ _
          congr 1
          · omega
          · rw [Nat.cast_succ]
            omega
      rw [ok_bind, ok_bind, ok_bind, hmap, range_succ_eq_map (n := m + 1), map_cons, map_map]
      congr 2
      show Visit.mk _ _ _ = Visit.mk _ _ _
      rw [Nat.add_zero, Nat.cast_zero, Int.add_zero]

theorem le_timestep_of_mem {timestep : Nat} {blockidx : Int} {x : Visit}
    (h : x ∈ blocksOf timestep blockidx ns) : timestep ≤ x.timestep := by
  induction ns generalizing timestep blockidx with
  | nil => cases h
  | cons n ns ih =>
    rcases mem_append.mp h with h | h
    · obtain ⟨k, -, rfl⟩ := mem_map.mp h
      exact Nat.le_refl _
    · exact Nat.le_of_succ_le (ih h)

theorem blocksOf_eq_nil (h : ns.sum = 0) (timestep : Nat) (blockidx : Int) :
    blocksOf timestep blockidx ns = [] := by
  induction ns generalizing timestep blockidx with
  | nil => rfl
  | cons n ns ih =>
    rw [sum_cons] at h
    obtain rfl : n = 0 := by omega
    exact ih (by omega) _ _

def NoGap (ns : List Nat) : Prop := ns.Pairwise fun m n => m = 0 → n = 0

theorem noGap_zero_iff : NoGap (0 :: ns) ↔ ns.sum = 0 := by
  have hall : ns.sum = 0 ↔ ∀ n ∈ ns, n = 0 := by
    induction ns with
    | nil => exact ⟨fun _ => forall_mem_nil _, fun _ => rfl⟩
    | cons n ns ih => rw [sum_cons, forall_mem_cons, ← ih, Nat.add_eq_zero_iff]
  unfold NoGap
  rw [pairwise_cons, hall]
  refine ⟨fun h n hn => h.1 n hn rfl, fun h => ⟨fun n hn _ => h n hn, ?_⟩⟩
  exact List.Pairwise.imp_of_mem (fun _ hn _ _ => h _ hn)
    (pairwise_of_forall fun _ _ => True.intro)

theorem noGap_succ_iff : NoGap ((n + 1) :: ns) ↔ NoGap ns := by
  unfold NoGap
  rw [pairwise_cons]
  exact and_iff_right fun _ _ h => absurd h (Nat.succ_ne_zero n)

theorem visitLoop_eq_iff (ns : List Nat) {pre post : List Nat} (h : v.nblocks = pre ++ (ns ++ post))
    (blockidx : Int) : visitLoop v ns.sum pre.length 0 blockidx =
      .ok (blocksOf pre.length blockidx ns) ↔ NoGap ns := by
  induction ns generalizing pre blockidx with
  | nil => exact ⟨fun _ => List.Pairwise.nil, fun _ => rfl⟩
  | cons n ns ih =>
    have hn : v.nblocks[pre.length]? = some n := by
      rw [h, getElem?_append_right (Nat.le_refl _), Nat.sub_self]
      rfl
    cases n with
    | zero =>
      rw [noGap_zero_iff, sum_cons, Nat.zero_add]
      constructor
      · intro hloop
        by_contra hne
        obtain ⟨rounds, hrounds⟩ := Nat.exists_eq_succ_of_ne_zero hne
        -- what is visited first is taken for a block of this timestep
        rw [hrounds, visitLoop, hn] at hloop
        obtain ⟨rest, -, heq⟩ := exists_of_bind_eq_ok hloop
        have hmem : (⟨pre.length, 0, blockidx⟩ : Visit) ∈
            blocksOf (pre.length + 1) (blockidx + (0 : Nat)) ns := by
          have hlist : _ :: rest = blocksOf pre.length blockidx (0 :: ns) := Except.ok.inj heq
          rw [blocksOf, range_zero, map_nil, nil_append] at hlist
          rw [← hlist]
          exact mem_cons_self
        exact absurd (le_timestep_of_mem hmem) (Nat.not_succ_le_self _)
      · intro hzero
        have hzero' : ((0 :: ns).sum : Nat) = 0 := by
          rw [sum_cons, hzero]
        rw [hzero, blocksOf_eq_nil hzero']
        rfl
    | succ n =>
      have hsnoc : v.nblocks = (pre ++ [n + 1]) ++ (ns ++ post) := by
        rw [h, append_assoc]
        rfl
      have hrest := ih hsnoc (blockidx + (n + 1 : Nat))
      rw [length_append, length_singleton] at hrest
      have hblock : ((List.range (n + 1)).map fun i : Nat =>
          (⟨pre.length, 0 + i, blockidx + i⟩ : Visit)) =
          (List.range (n + 1)).map fun k : Nat => ⟨pre.length, k, blockidx + k⟩ :=
        map_congr_left fun i _ => by rw [Nat.zero_add]
      rw [sum_cons, visitLoop_step hn _ _ (Nat.zero_add _), noGap_succ_iff, ← hrest, blocksOf,
        hblock]
      constructor
      · intro heq
        obtain ⟨rest, hloop, heq⟩ := exists_of_bind_eq_ok heq
        rw [hloop, append_cancel_left (Except.ok.inj heq)]
      · intro hloop
        rw [hloop]
        rfl

theorem Window.nblocks_eq (w : Window v) : v.nblocks =
    v.nblocks.take w.fromSteps ++ (w.nblocks ++ v.nblocks.drop w.toSteps) := by
  have hle := w.le
  have hdrop : v.nblocks.drop w.toSteps =
      (v.nblocks.drop w.fromSteps).drop (w.toSteps - w.fromSteps) := by
    rw [drop_drop]
    congr 1
    omega
  rw [hdrop, Window.nblocks, take_append_drop, take_append_drop]

theorem Window.blocksBefore_eq (w : Window v) :
    v.blocksBefore w.toSteps = v.blocksBefore w.fromSteps + w.nblocks.sum := by
  have hle := w.le
  have hsum : w.toSteps = w.fromSteps + (w.toSteps - w.fromSteps) := by omega
  unfold RawVarinfo.blocksBefore
  conv_lhs => rw [hsum, take_add, sum_append]
  rfl

theorem covered_iff (w : Window v) :
    w.Covered ↔ w.fromSteps < w.toSteps ∧ NoGap w.nblocks := by
  have hle := w.le
  have hinside := w.inside
  have hlen : (v.nblocks.take w.fromSteps).length = w.fromSteps :=
    length_take_of_le (Nat.le_trans hle hinside)
  have hto : (w.fromSteps : Int) + ((w.toSteps - w.fromSteps : Nat) : Int) = w.toSteps := by omega
  have hpopulate : w.fromSteps < w.toSteps → ∀ out,
      populateReadRequest v w.fromSteps (w.toSteps - w.fromSteps) out =
        visitLoop v w.nblocks.sum w.fromSteps 0 (v.blocksBefore w.fromSteps) := fun hlt out => by
    have hbefore := w.blocksBefore_eq
    have hcount : ((v.blocksBefore w.toSteps : Int) - v.blocksBefore w.fromSteps).toNat =
        w.nblocks.sum := by omega
    unfold populateReadRequest
    rw [hto, computeBlockidxRange_eq w hlt]
    dsimp only
    rw [if_neg (by omega), hcount]
  have hiff := visitLoop_eq_iff w.nblocks w.nblocks_eq (v.blocksBefore w.fromSteps)
  rw [hlen] at hiff
  constructor
  · intro h
    have hvisits := h.visits (0, 0)
    rw [hpopulate h.lt] at hvisits
    exact ⟨h.lt, hiff.mp hvisits⟩
  · rintro ⟨hlt, hgap⟩
    exact ⟨computeBlockidxRange_eq w hlt, fun out => by rw [hpopulate hlt, hiff.mpr hgap]⟩

/-! ## All of it -/

/-- The range and the loop are right for a window, and the conversions for an index, and for a
timestep and a place in it. -/
structure Window.IndexesRight (w : Window v) (blockidx timestep timestepBlockidx : Int) : Prop where
  covered : w.Covered
  converts : Converts v blockidx timestep timestepBlockidx

/-- **The indexes are right exactly when** the window has a timestep, no timestep without blocks has
one with blocks behind it, and what is converted is not negative. -/
theorem indexesRight_iff (w : Window v) (blockidx timestep timestepBlockidx : Int) :
    w.IndexesRight blockidx timestep timestepBlockidx ↔
      w.fromSteps < w.toSteps ∧ NoGap w.nblocks ∧ 0 ≤ blockidx ∧
        (0 ≤ timestepBlockidx ∨ timestep < 0 ∨ (v.nblocks.length : Int) ≤ timestep) := by
  have hinside := w.inside
  constructor
  · rintro ⟨hcovered, hconverts⟩
    obtain ⟨hlt, hgap⟩ := (covered_iff w).mp hcovered
    obtain ⟨hindex, hplace⟩ := (converts_iff _ _ _).mp hconverts
    refine ⟨hlt, hgap, hindex.resolve_right fun hnil => ?_, hplace⟩
    rw [hnil, length_nil] at hinside
    omega
  · rintro ⟨hlt, hgap, hindex, hplace⟩
    exact ⟨(covered_iff w).mpr ⟨hlt, hgap⟩, (converts_iff _ _ _).mpr ⟨.inl hindex, hplace⟩⟩

theorem length_oneBlock : [1].length < 2147483648 := by decide

theorem sum_oneBlock : [1].sum < 2147483648 := by decide

def oneBlock : RawVarinfo where
  nblocks := [1]
  nsteps := length_oneBlock
  sumNblocks := sum_oneBlock

def oneStep : Window oneBlock where
  fromSteps := 0
  toSteps := 1
  le := by decide
  inside := by decide

/-- The index -1 is taken for a block of the first timestep. -/
theorem not_indexesRight_negative : ¬oneStep.IndexesRight (-1) 0 0 := fun h =>
  absurd ((converts_iff _ _ _).mp h.converts).1 (by decide)

end Adios.Blocks
