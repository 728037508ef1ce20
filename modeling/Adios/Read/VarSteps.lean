import Adios.Index.Struct
import Adios.Lists.Expand
import Adios.Wire.Signed
import Mathlib.Algebra.Ring.Nat

/-!
# Adios — steps, times and blocks of a variable

The five scans of `bp_utils.c` over the characteristics of a variable: `get_time`,
`get_var_start_index`, `get_var_stop_index`, `get_var_nsteps` and `get_var_nblocks`. Two of them
count with an `int`, and keep the time before in an `int`, which is compared as a `uint32_t`.
-/

namespace Adios.VarSteps

open List Lists Wire

/-- "`i++`" for an `int`. -/
def incr (i : Nat) : Except Fault Nat :=
  if i + 1 < 2147483648 then .ok (i + 1) else .error .signedOverflow

def times (v : IndexEntry) : List UInt32 := v.characteristics.map (·.timeIndex)

/-- The loop of `get_time`. -/
def getTimeLoop (step : Int) (i : Nat) (prevTi : UInt32) (counter : Int) :
    List UInt32 → Except Fault Int
  | [] => .ok (-1)
  | t :: ts =>
    if t ≠ prevTi then
      if counter + 1 = step + 1 then .ok (cut32 t.toNat)
      else do
        let i ← incr i
        getTimeLoop step i t (counter + 1) ts
    else do
      let i ← incr i
      getTimeLoop step i prevTi counter ts

/-- `get_time` -/
def getTime (v : IndexEntry) (step : Int) : Except Fault Int := getTimeLoop step 0 0 0 (times v)

/-- The loop of `get_var_start_index`. -/
def startLoop (t : UInt32) (i : Nat) : List UInt32 → Int
  | [] => -1
  | u :: us => if u = t then (i : Int) else startLoop t (i + 1) us

/-- `get_var_start_index` -/
def getVarStartIndex (v : IndexEntry) (t : Int) : Int := startLoop (UInt32.ofInt t) 0 (times v)

/-- The loop of `get_var_stop_index`, with `i + 1`. -/
def stopLoop (ts : List UInt32) (t : UInt32) : Nat → Int
  | 0 => -1
  | i + 1 => if ts[i]? = some t then (i : Int) else stopLoop ts t i

/-- `get_var_stop_index` -/
def getVarStopIndex (v : IndexEntry) (t : Int) : Int :=
  stopLoop (times v) (UInt32.ofInt t) (times v).length

/-- The loop of `get_var_nsteps`. -/
def nstepsLoop (prevStep : UInt32) (nsteps : Nat) : List UInt32 → Except Fault Nat
  | [] => .ok nsteps
  | t :: ts =>
    if t ≠ prevStep then do
      let nsteps ← incr nsteps
      nstepsLoop t nsteps ts
    else nstepsLoop prevStep nsteps ts

/-- `get_var_nsteps`: "`int prev_step = -1`" -/
def getVarNsteps (v : IndexEntry) : Except Fault Nat := nstepsLoop 0xffffffff 0 (times v)

/-- "`nblocks[j] ++`" -/
def countBlock (nblocks : List Nat) (j : Int) : Except Fault (List Nat) :=
  if 0 ≤ j ∧ j < nblocks.length then .ok (nblocks.modify j.toNat (· + 1)) else .error .outOfBounds

/-- The loop of `get_var_nblocks`. -/
def nblocksLoop (nsteps : Nat) (i : Nat) (j : Int) (prevStep : UInt32) (nblocks : List Nat) :
    List UInt32 → Except Fault (List Nat)
  | [] => .ok nblocks
  | t :: ts =>
    if t ≠ prevStep then
      if j + 1 > (nsteps : Int) - 1 then .ok nblocks
      else do
        let nblocks ← countBlock nblocks (j + 1)
        let i ← incr i
        nblocksLoop nsteps i (j + 1) t nblocks ts
    else do
      let nblocks ← countBlock nblocks j
      let i ← incr i
      nblocksLoop nsteps i j prevStep nblocks ts

/-- `get_var_nblocks`, where `malloc (0)` is a pointer or not. -/
def getVarNblocks (mallocZero : Bool) (v : IndexEntry) (nsteps : Nat) :
    Except Fault (List Nat) :=
  if nsteps = 0 ∧ mallocZero = false then .error .assertion
  else nblocksLoop nsteps 0 (-1) 0xffffffff (List.replicate nsteps 0) (times v)

structure SortedVar where
  entry : IndexEntry
  sorted : (times entry).Pairwise fun t u => t.toNat ≤ u.toNat
  nonzero : ∀ t ∈ times entry, t ≠ 0

/-- One step: its time, and that the number of its blocks is the size of its range, which starts
where the one of the step before stops. -/
structure StepRight (v : IndexEntry) (ts : List UInt32) (k : Nat) (t : UInt32) (nblocks : Nat) :
    Prop where
  time : getTime v k = .ok t.toNat
  range : (nblocks : Int) = getVarStopIndex v t.toNat - getVarStartIndex v t.toNat + 1
  start : 0 ≤ getVarStartIndex v t.toNat
  stop : getVarStartIndex v t.toNat ≤ getVarStopIndex v t.toNat
  first : k = 0 → getVarStartIndex v t.toNat = 0
  next : ∀ u ∈ ts[k + 1]?, getVarStartIndex v u.toNat = getVarStopIndex v t.toNat + 1
  last : k + 1 = ts.length → getVarStopIndex v t.toNat + 1 = (times v).length

structure Agree (mallocZero : Bool) (v : IndexEntry) (ts : List UInt32) (counts : List Nat) :
    Prop where
  ascending : ts.Pairwise fun t u => t.toNat < u.toNat
  mem (t : UInt32) : t ∈ ts ↔ t ∈ times v
  nsteps : getVarNsteps v = .ok ts.length
  nblocks : getVarNblocks mallocZero v ts.length = .ok counts
  length : counts.length = ts.length
  sum : counts.sum = v.characteristics.length
  steps {k : Nat} {t : UInt32} {n : Nat} : ts[k]? = some t → counts[k]? = some n →
    StepRight v ts k t n

/-! ## The scans over a block -/

theorem incr_of_lt {i : Nat} (h : i + 1 < 2147483648) : incr i = .ok (i + 1) := if_pos h

theorem nstepsLoop_replicate (t : UInt32) (nsteps n : Nat) (rest : List UInt32) :
    nstepsLoop t nsteps (List.replicate n t ++ rest) = nstepsLoop t nsteps rest := by
  induction n with
  | zero => rfl
  | succ n ih =>
    rw [replicate_succ, cons_append, nstepsLoop, if_neg (not_not.mpr rfl), ih]

theorem getTimeLoop_replicate (step : Int) {i : Nat} (t : UInt32) (counter : Int) {n : Nat}
    (rest : List UInt32) (h : i + n < 2147483648) :
    getTimeLoop step i t counter (List.replicate n t ++ rest) =
      getTimeLoop step (i + n) t counter rest := by
  induction n generalizing i with
  | zero => rfl
  | succ n ih =>
    rw [replicate_succ, cons_append, getTimeLoop, if_neg (not_not.mpr rfl),
      incr_of_lt (by omega), ok_bind, ih (by omega), Nat.add_assoc, Nat.add_comm 1]

theorem nblocksLoop_replicate {nsteps i : Nat} {j : Int} (t : UInt32) {counts : List Nat} {n : Nat}
    (rest : List UInt32) (hj : 0 ≤ j ∧ j < counts.length) :
    nblocksLoop nsteps i j t counts (List.replicate n t ++ rest) =
      if i + n < 2147483648 ∨ n = 0 then
        nblocksLoop nsteps (i + n) j t (counts.modify j.toNat (· + n)) rest
      else .error .signedOverflow := by
  induction n generalizing i counts with
  | zero =>
    rw [if_pos (.inr rfl)]
    have hid : counts.modify j.toNat (· + 0) = counts := modify_id _ _
    rw [hid]
    rfl
  | succ n ih =>
    have hcount : countBlock counts j = .ok (counts.modify j.toNat (· + 1)) := if_pos hj
    rw [replicate_succ, cons_append, nblocksLoop, if_neg (not_not.mpr rfl), hcount, ok_bind]
    by_cases hi : i + 1 < 2147483648
    · have hj' : 0 ≤ j ∧ j < (counts.modify j.toNat (· + 1)).length := by
        rw [length_modify]
        exact hj
      have htwice : (counts.modify j.toNat (· + 1)).modify j.toNat (· + n) =
          counts.modify j.toNat (· + (n + 1)) := by
        rw [modify_modify_eq]
        congr 1
        funext m
        show m + 1 + n = m + (n + 1)
        omega
      rw [incr_of_lt hi, ok_bind, ih hj', htwice, Nat.add_assoc, Nat.add_comm 1]
      by_cases hn : i + (n + 1) < 2147483648 ∨ n + 1 = 0
      · rw [if_pos hn, if_pos (by omega)]
      · rw [if_neg hn, if_neg (by omega)]
    · rw [incr, if_neg hi, if_neg (by omega)]
      rfl

/-! ## The scans over all blocks -/

section

variable {bs : List (UInt32 × Nat)}

theorem nstepsLoop_expand (hbs : Blocks UInt32.toNat bs) {prevStep : UInt32} {nsteps : Nat}
    (hprev : ∀ b ∈ bs.head?, b.1 ≠ prevStep) : nstepsLoop prevStep nsteps (expand bs) =
      if nsteps + bs.length < 2147483648 ∨ bs = [] then .ok (nsteps + bs.length)
      else .error .signedOverflow := by
  induction bs generalizing prevStep nsteps with
  | nil => rw [if_pos (.inr rfl)]; rfl
  | cons b bs ih =>
    obtain ⟨t, n⟩ := b
    obtain ⟨hn, -, hrest⟩ := blocks_cons_iff.mp hbs
    obtain ⟨n, rfl⟩ := Nat.exists_eq_succ_of_ne_zero (Nat.ne_of_gt hn)
    rw [expand, replicate_succ, cons_append, nstepsLoop, if_pos (hprev _ rfl), incr]
    by_cases hi : nsteps + 1 < 2147483648
    · rw [if_pos hi, ok_bind, nstepsLoop_replicate, ih hrest hbs.head_ne, length_cons,
        Nat.add_assoc, Nat.add_comm 1]
      by_cases hall : nsteps + (bs.length + 1) < 2147483648
      · rw [if_pos (.inl hall), if_pos (.inl hall)]
      · have hne : bs ≠ [] := fun hnil => by
          rw [hnil, length_nil] at hall
          omega
        rw [if_neg (not_or.mpr ⟨hall, hne⟩), if_neg (not_or.mpr ⟨hall, cons_ne_nil _ _⟩)]
    · have hall : ¬nsteps + (bs.length + 1) < 2147483648 := by omega
      rw [if_neg hi, length_cons, if_neg (not_or.mpr ⟨hall, cons_ne_nil _ _⟩)]
      rfl

theorem getTimeLoop_expand (hbs : Blocks UInt32.toNat bs) {prevTi : UInt32} {counter : Int}
    (hprev : ∀ b ∈ bs.head?, b.1 ≠ prevTi) {i k : Nat} {b : UInt32 × Nat} (hb : bs[k]? = some b)
    (hi : i + total bs < 2147483648) :
    getTimeLoop (counter + k) i prevTi counter (expand bs) = .ok (cut32 b.1.toNat) := by
  induction bs generalizing prevTi counter i k with
  | nil => cases hb
  | cons c bs ih =>
    obtain ⟨t, n⟩ := c
    obtain ⟨hn, -, hrest⟩ := blocks_cons_iff.mp hbs
    obtain ⟨n, rfl⟩ := Nat.exists_eq_succ_of_ne_zero (Nat.ne_of_gt hn)
    rw [total] at hi
    rw [expand, replicate_succ, cons_append, getTimeLoop, if_pos (hprev _ rfl)]
    cases k with
    | zero =>
      obtain rfl : (t, n + 1) = b := Option.some.inj hb
      exact if_pos (by omega)
    | succ k =>
      have hstep : counter + ((k + 1 : Nat) : Int) = counter + 1 + k := by omega
      rw [if_neg (by omega), incr_of_lt (by omega), ok_bind,
        getTimeLoop_replicate _ _ _ _ (by omega), hstep]
      exact ih hrest hbs.head_ne hb (by omega)

variable {t : UInt32} {n : Nat}

theorem getTimeLoop_replicate_of_ok {step : Int} {i : Nat} {counter : Int} {rest : List UInt32}
    {r : Int} (h : getTimeLoop step i t counter (List.replicate n t ++ rest) = .ok r) :
    ∃ i, getTimeLoop step i t counter rest = .ok r := by
  induction n generalizing i with
  | zero => exact ⟨i, h⟩
  | succ n ih =>
    rw [replicate_succ, cons_append, getTimeLoop, if_neg (not_not.mpr rfl)] at h
    obtain ⟨i', -, h⟩ := exists_of_bind_eq_ok h
    exact ih h

theorem getTimeLoop_expand_of_ok (hbs : Blocks UInt32.toNat bs) {prevTi : UInt32} {counter : Int}
    (hprev : ∀ b ∈ bs.head?, b.1 ≠ prevTi) {i k : Nat} {b : UInt32 × Nat} (hb : bs[k]? = some b)
    {r : Int} (h : getTimeLoop (counter + k) i prevTi counter (expand bs) = .ok r) :
    r = cut32 b.1.toNat := by
  induction bs generalizing prevTi counter i k with
  | nil => cases hb
  | cons c bs ih =>
    obtain ⟨t, n⟩ := c
    obtain ⟨hn, -, hrest⟩ := blocks_cons_iff.mp hbs
    obtain ⟨n, rfl⟩ := Nat.exists_eq_succ_of_ne_zero (Nat.ne_of_gt hn)
    rw [expand, replicate_succ, cons_append, getTimeLoop, if_pos (hprev _ rfl)] at h
    cases k with
    | zero =>
      obtain rfl : (t, n + 1) = b := Option.some.inj hb
      rw [if_pos (by omega)] at h
      exact (Except.ok.inj h).symm
    | succ k =>
      have hstep : counter + ((k + 1 : Nat) : Int) = counter + 1 + k := by omega
      rw [if_neg (by omega), hstep] at h
      obtain ⟨i', -, h⟩ := exists_of_bind_eq_ok h
      obtain ⟨i'', h⟩ := getTimeLoop_replicate_of_ok h
      exact ih hrest hbs.head_ne hb h

theorem modify_middle {α : Type} (xs zs : List α) (a : α) (f : α → α) :
    (xs ++ a :: zs).modify xs.length f = xs ++ f a :: zs := by
  induction xs with
  | nil => rfl
  | cons x xs ih => exact congrArg (x :: ·) ih

theorem nblocksLoop_expand (hbs : Blocks UInt32.toNat bs) {prevStep : UInt32} {i : Nat}
    (hprev : ∀ b ∈ bs.head?, b.1 ≠ prevStep) (counted : List Nat) :
    nblocksLoop (counted.length + bs.length) i ((counted.length : Int) - 1) prevStep
      (counted ++ List.replicate bs.length 0) (expand bs) =
      if i + total bs < 2147483648 ∨ bs = [] then .ok (counted ++ bs.map Prod.snd)
      else .error .signedOverflow := by
  induction bs generalizing prevStep i counted with
  | nil => rw [if_pos (.inr rfl)]; rfl
  | cons b bs ih =>
    obtain ⟨t, n⟩ := b
    obtain ⟨hn, -, hrest⟩ := blocks_cons_iff.mp hbs
    obtain ⟨n, rfl⟩ := Nat.exists_eq_succ_of_ne_zero (Nat.ne_of_gt hn)
    have hj : (counted.length : Int) - 1 + 1 = counted.length := by omega
    have hlen : counted.length + ((t, n.succ) :: bs).length = (counted ++ [n + 1]).length +
        bs.length := by
      rw [length_append, length_cons, length_singleton]
      omega
    have hplace : 0 ≤ (counted.length : Int) ∧ (counted.length : Int) <
        (counted ++ List.replicate ((t, n.succ) :: bs).length 0).length := by
      rw [length_append, length_replicate, length_cons]
      omega
    have hplace' : 0 ≤ (counted.length : Int) ∧ (counted.length : Int) <
        ((counted ++ List.replicate ((t, n.succ) :: bs).length 0).modify
          (counted.length : Int).toNat (· + 1)).length := by
      rw [length_modify]
      exact hplace
    have hcount : countBlock (counted ++ List.replicate ((t, n.succ) :: bs).length 0)
        counted.length = .ok ((counted ++ List.replicate ((t, n.succ) :: bs).length 0).modify
          (counted.length : Int).toNat (· + 1)) := if_pos hplace
    -- the place of this step becomes its number of blocks
    have hmodify : ((counted ++ List.replicate ((t, n.succ) :: bs).length 0).modify
        (counted.length : Int).toNat (· + 1)).modify (counted.length : Int).toNat (· + n) =
        (counted ++ [n + 1]) ++ List.replicate bs.length 0 := by
      rw [modify_modify_eq, Int.toNat_natCast, length_cons, replicate_succ,
        modify_middle, append_assoc]
      have hsum : 0 + 1 + n = n + 1 := by omega
      exact congrArg (counted ++ · :: List.replicate bs.length 0) hsum
    rw [expand, replicate_succ, cons_append, nblocksLoop, if_pos (hprev _ rfl), hj,
      if_neg (by rw [length_cons]; omega), hcount, ok_bind, total]
    have hj' : (counted.length : Int) = ((counted ++ [n + 1]).length : Int) - 1 := by
      rw [length_append, length_singleton]
      omega
    have hmap : counted ++ ((t, n.succ) :: bs).map Prod.snd =
        (counted ++ [n + 1]) ++ bs.map Prod.snd := by
      rw [append_assoc]
      rfl
    by_cases hi : i + 1 < 2147483648
    · rw [incr_of_lt hi, ok_bind, nblocksLoop_replicate t _ hplace', hmodify, hlen, hmap]
      by_cases hblock : i + 1 + n < 2147483648 ∨ n = 0
      · rw [if_pos hblock, hj', ih hrest hbs.head_ne]
        by_cases hall : i + 1 + n + total bs < 2147483648 ∨ bs = []
        · have hall' : i + (n.succ + total bs) < 2147483648 := by
            rcases hall with hall | rfl
            · omega
            · rw [total]
              omega
          rw [if_pos hall, if_pos (.inl hall')]
        · obtain ⟨hover, hne⟩ := not_or.mp hall
          rw [if_neg hall, if_neg (not_or.mpr ⟨by omega, cons_ne_nil _ _⟩)]
      · obtain ⟨hover, -⟩ := not_or.mp hblock
        rw [if_neg hblock, if_neg (not_or.mpr ⟨by omega, cons_ne_nil _ _⟩)]
    · rw [incr, if_neg hi, if_neg (not_or.mpr ⟨by omega, cons_ne_nil _ _⟩)]
      rfl

theorem startLoop_append {us : List UInt32} (h : t ∉ us) (i : Nat) (rest : List UInt32) :
    startLoop t i (us ++ rest) = startLoop t (i + us.length) rest := by
  induction us generalizing i with
  | nil => rfl
  | cons u us ih =>
    obtain ⟨hne, hnot⟩ := not_or.mp (fun h' => h (mem_cons.mpr h'))
    rw [cons_append, startLoop, if_neg (Ne.symm hne), ih hnot, length_cons, Nat.add_assoc,
      Nat.add_comm 1]

theorem stopLoop_append {us rest : List UInt32} (h : t ∉ rest) :
    stopLoop (us ++ t :: rest) t (us ++ t :: rest).length = us.length := by
  have hsteps : ∀ n, n ≤ rest.length →
      stopLoop (us ++ t :: rest) t (us.length + 1 + n) = us.length := by
    intro n
    induction n with
    | zero =>
      intro _
      have hget : (us ++ t :: rest)[us.length]? = some t := by
        rw [getElem?_append_right (Nat.le_refl _), Nat.sub_self]
        rfl
      rw [Nat.add_zero, stopLoop, if_pos hget]
    | succ n ih =>
      intro hn
      have hget : (us ++ t :: rest)[us.length + 1 + n]? = rest[n]? := by
        rw [getElem?_append_right (by omega), Nat.add_assoc, Nat.add_sub_cancel_left,
          Nat.add_comm 1, getElem?_cons_succ]
      have hne : rest[n]? ≠ some t := fun heq => h (mem_of_getElem? heq)
      rw [← Nat.add_assoc, stopLoop, hget, if_neg hne]
      exact ih (by omega)
  rw [length_append, length_cons, ← Nat.add_assoc, Nat.add_right_comm]
  exact hsteps rest.length (Nat.le_refl _)

theorem ofInt_toNat (t : UInt32) : UInt32.ofInt t.toNat = t := by
  have hlt := t.toNat_lt
  have hmod : ((t.toNat : Int) % 4294967296).toNat = t.toNat := by omega
  exact (congrArg UInt32.ofNat hmod).trans UInt32.ofNat_toNat

theorem notMem_of_blocks {as cs : List (UInt32 × Nat)}
    (h : Blocks UInt32.toNat (as ++ (t, n) :: cs)) : t ∉ expand as ∧ t ∉ expand cs := by
  obtain ⟨-, hcs, hcross⟩ := pairwise_append.mp h.ascending
  refine ⟨fun hmem => ?_, fun hmem => ?_⟩
  · obtain ⟨b, hb, heq⟩ := mem_expand hmem
    have hlt := hcross b hb (t, n) mem_cons_self
    rw [heq] at hlt
    exact Nat.lt_irrefl _ hlt
  · obtain ⟨b, hb, heq⟩ := mem_expand hmem
    have hlt := (pairwise_cons.mp hcs).1 b hb
    rw [heq] at hlt
    exact Nat.lt_irrefl _ hlt

theorem range_of_block {v : IndexEntry} {as cs : List (UInt32 × Nat)} {t : UInt32} {n : Nat}
    (h : Blocks UInt32.toNat (as ++ (t, n + 1) :: cs))
    (htimes : times v = expand (as ++ (t, n + 1) :: cs)) :
    getVarStartIndex v t.toNat = (total as : Int) ∧
      getVarStopIndex v t.toNat = ((total as + n : Nat) : Int) := by
  obtain ⟨hbefore, hbehind⟩ := notMem_of_blocks h
  have hsplit : times v = expand as ++ (t :: (List.replicate n t ++ expand cs)) := by
    rw [htimes, expand_append, expand]
    rfl
  have hsplit' : times v = (expand as ++ List.replicate n t) ++ t :: expand cs := by
    rw [htimes, expand_append, expand, replicate_succ', append_assoc, append_assoc]
    rfl
  refine ⟨?_, ?_⟩
  · rw [getVarStartIndex, ofInt_toNat, hsplit, startLoop_append hbefore, Nat.zero_add,
      length_expand]
    exact if_pos rfl
  · rw [getVarStopIndex, ofInt_toNat, hsplit', stopLoop_append hbehind, length_append,
      length_expand, length_replicate]

theorem range_of_getElem? {v : IndexEntry} (h : Blocks UInt32.toNat bs)
    (htimes : times v = expand bs) {k : Nat} (hb : bs[k]? = some (t, n)) :
    getVarStartIndex v t.toNat = (total (bs.take k) : Int) ∧
      getVarStopIndex v t.toNat + 1 = (total (bs.take (k + 1)) : Int) := by
  obtain ⟨hk, hget⟩ := List.getElem?_eq_some_iff.mp hb
  obtain ⟨n, rfl⟩ := Nat.exists_eq_succ_of_ne_zero
    (Nat.ne_of_gt (h.positive _ (mem_of_getElem? hb)))
  have hsplit : bs = bs.take k ++ (t, n + 1) :: bs.drop (k + 1) := by
    rw [← hget, ← drop_eq_getElem_cons, take_append_drop]
  have hblocks := h
  rw [hsplit] at hblocks
  obtain ⟨hstart, hstop⟩ := @range_of_block v _ _ _ _ hblocks (by rw [← hsplit, htimes])
  refine ⟨hstart, ?_⟩
  rw [hstop, total_take_succ hb]
  omega

/-! ## When they agree -/

theorem stepRight_of_block {v : IndexEntry} (h : Blocks UInt32.toNat bs)
    (htimes : times v = expand bs) (hcount : total bs < 2147483648)
    (hearly : ∀ t ∈ times v, t.toNat < 2147483648) (hnonzero : ∀ t ∈ times v, t ≠ 0) {k : Nat}
    {b : UInt32 × Nat} (hb : bs[k]? = some b) :
    StepRight v (bs.map Prod.fst) k b.1 b.2 := by
  have hmem : b ∈ bs := mem_of_getElem? hb
  have htime : b.1 ∈ times v := by
    rw [htimes]
    exact mem_expand_of_mem h hmem
  obtain ⟨t, n⟩ := b
  have hpositive : 0 < n := h.positive _ hmem
  obtain ⟨hstart, hstop⟩ := range_of_getElem? h htimes hb
  have hsucc : total (bs.take (k + 1)) = total (bs.take k) + n := total_take_succ hb
  have hhead : ∀ b ∈ bs.head?, b.1 ≠ 0 := fun b hb =>
    hnonzero b.1 (by rw [htimes]; exact mem_expand_of_mem h (mem_of_mem_head? hb))
  refine ⟨?_, ?_, ?_, ?_, fun hzero => ?_, fun u hu => ?_, fun hlast => ?_⟩
  · have hloop := @getTimeLoop_expand _ h 0 0 hhead 0 k _ hb (by omega)
    rw [Int.zero_add] at hloop
    rw [getTime, htimes, hloop, cut32_of_fits (by omega)]
    have hlt := hearly t htime
    show (t.toNat : Int) < 2147483648
    omega
  · show (n : Int) = getVarStopIndex v t.toNat - getVarStartIndex v t.toNat + 1
    omega
  · show 0 ≤ getVarStartIndex v t.toNat
    omega
  · show getVarStartIndex v t.toNat ≤ getVarStopIndex v t.toNat
    omega
  · rw [hstart, hzero]
    rfl
  · rw [getElem?_map] at hu
    obtain ⟨c, hc, rfl⟩ := Option.map_eq_some_iff.mp hu
    obtain ⟨hstart', -⟩ := range_of_getElem? h htimes hc
    rw [hstart', hstop]
  · rw [length_map] at hlast
    rw [hstop, hlast, take_length, htimes, length_expand]

theorem length_le_total {bs : List (UInt32 × Nat)} (h : Blocks UInt32.toNat bs) :
    bs.length ≤ total bs := by
  induction bs with
  | nil => exact Nat.le_refl _
  | cons b bs ih =>
    obtain ⟨t, n⟩ := b
    obtain ⟨hn, -, hrest⟩ := blocks_cons_iff.mp h
    have hle := ih hrest
    rw [length_cons, total]
    omega

theorem sum_map_snd (bs : List (UInt32 × Nat)) : (bs.map Prod.snd).sum = total bs := by
  induction bs with
  | nil => rfl
  | cons b bs ih =>
    obtain ⟨t, n⟩ := b
    rw [map_cons, sum_cons, ih, total]

theorem mem_map_fst_iff (h : Blocks UInt32.toNat bs) (t : UInt32) :
    t ∈ bs.map Prod.fst ↔ t ∈ expand bs := by
  constructor
  · intro hmem
    obtain ⟨b, hb, rfl⟩ := mem_map.mp hmem
    exact mem_expand_of_mem h hb
  · intro hmem
    obtain ⟨b, hb, rfl⟩ := mem_expand hmem
    exact mem_map_of_mem hb

end

theorem head_ne_sentinel {v : IndexEntry} {bs : List (UInt32 × Nat)} (h : Blocks UInt32.toNat bs)
    (htimes : times v = expand bs) (hearly : ∀ t ∈ times v, t.toNat < 2147483648) :
    ∀ b ∈ bs.head?, b.1 ≠ 0xffffffff := fun b hb heq => by
  have hlt := hearly b.1 (by rw [htimes]; exact mem_expand_of_mem h (mem_of_mem_head? hb))
  rw [heq] at hlt
  exact absurd hlt (by decide)

theorem length_times (v : IndexEntry) : (times v).length = v.characteristics.length :=
  length_map _

theorem agree_of_blocks {mallocZero : Bool} {v : IndexEntry} {bs : List (UInt32 × Nat)}
    (h : Blocks UInt32.toNat bs) (htimes : times v = expand bs) (hnonzero : ∀ t ∈ times v, t ≠ 0)
    (hcount : v.characteristics.length < 2147483648)
    (hearly : ∀ t ∈ times v, t.toNat < 2147483648)
    (hzero : mallocZero = true ∨ v.characteristics ≠ []) :
    Agree mallocZero v (bs.map Prod.fst) (bs.map Prod.snd) := by
  have hhead := head_ne_sentinel h htimes hearly
  have htotal : total bs = v.characteristics.length := by
    rw [← length_times, htimes, length_expand]
  have hlen := length_le_total h
  refine ⟨pairwise_map.mpr h.ascending, fun t => ?_, ?_, ?_, ?_, ?_, fun {k t n} ht hn => ?_⟩
  · rw [htimes]
    exact mem_map_fst_iff h t
  · rw [getVarNsteps, htimes, nstepsLoop_expand h hhead, if_pos (.inl (by omega)), Nat.zero_add,
      length_map]
  · have hnblocks := nblocksLoop_expand h hhead (i := 0) []
    rw [if_pos (.inl (by omega))] at hnblocks
    have hsteps : ¬(bs.length = 0 ∧ mallocZero = false) := fun ⟨hnil, hfalse⟩ => by
      rcases hzero with htrue | hne
      · rw [htrue] at hfalse
        cases hfalse
      · rw [length_eq_zero_iff.mp hnil] at htotal
        exact hne (length_eq_zero_iff.mp htotal.symm)
    rw [getVarNblocks, length_map, if_neg hsteps, htimes]
    rw [length_nil, Nat.zero_add] at hnblocks
    exact hnblocks
  · rw [length_map, length_map]
  · rw [sum_map_snd, htotal]
  · rw [getElem?_map] at ht hn
    obtain ⟨b, hb, rfl⟩ := Option.map_eq_some_iff.mp ht
    rw [hb] at hn
    obtain rfl := Option.some.inj hn
    exact stepRight_of_block h htimes (by omega) hearly hnonzero hb

theorem agree_of_early {mallocZero : Bool} (v : SortedVar)
    (hcount : v.entry.characteristics.length < 2147483648)
    (hearly : ∀ t ∈ times v.entry, t.toNat < 2147483648)
    (hzero : mallocZero = true ∨ v.entry.characteristics ≠ []) :
    ∃ ts counts, Agree mallocZero v.entry ts counts := by
  obtain ⟨bs, htimes, h⟩ := exists_expand (fun _ _ => UInt32.toNat_inj.mp) v.sorted
  exact ⟨_, _, agree_of_blocks h htimes v.nonzero hcount hearly hzero⟩

theorem getTimeLoop_lt {step : Int} {i : Nat} {prevTi : UInt32} {counter : Int} {ts : List UInt32}
    {r : Int} (h : getTimeLoop step i prevTi counter ts = .ok r) : r < 2147483648 := by
  induction ts generalizing i prevTi counter with
  | nil =>
    obtain rfl := Except.ok.inj h
    decide
  | cons t ts ih =>
    rw [getTimeLoop] at h
    split_ifs at h
    · obtain rfl := Except.ok.inj h
      exact (cut32_fits _).2
    · obtain ⟨i', -, h⟩ := exists_of_bind_eq_ok h
      exact ih h
    · obtain ⟨i', -, h⟩ := exists_of_bind_eq_ok h
      exact ih h

theorem early_of_agree {mallocZero : Bool} {v : IndexEntry} {ts : List UInt32} {counts : List Nat}
    (h : Agree mallocZero v ts counts) : ∀ t ∈ times v, t.toNat < 2147483648 := fun t ht => by
  obtain ⟨k, hk⟩ := getElem?_of_mem ((h.mem t).mpr ht)
  obtain ⟨n, hn⟩ : ∃ n, counts[k]? = some n := by
    have hlt := (List.getElem?_eq_some_iff.mp hk).1
    rw [← h.length] at hlt
    exact ⟨_, getElem?_eq_getElem hlt⟩
  have hlt := getTimeLoop_lt (h.steps hk hn).time
  omega

/-- **The scans agree** exactly if an `int` holds the times and the number of characteristics, and
for a variable without characteristics `malloc (0)` is a pointer. -/
theorem agree_iff (mallocZero : Bool) (v : SortedVar) :
    (∃ ts counts, Agree mallocZero v.entry ts counts) ↔
      (∀ c ∈ v.entry.characteristics, c.timeIndex.toNat < 2147483648) ∧
      v.entry.characteristics.length < 2147483648 ∧
      (mallocZero = true ∨ v.entry.characteristics ≠ []) := by
  have htimesIff : (∀ t ∈ times v.entry, t.toNat < 2147483648) ↔
      ∀ c ∈ v.entry.characteristics, c.timeIndex.toNat < 2147483648 := forall_mem_map
  rw [← htimesIff]
  constructor
  · rintro ⟨ts, counts, h⟩
    have hearly := early_of_agree h
    obtain ⟨bs, htimes, hblocks⟩ := exists_expand (fun _ _ => UInt32.toNat_inj.mp) v.sorted
    have hhead := head_ne_sentinel hblocks htimes hearly
    have htotal : total bs = v.entry.characteristics.length := by
      rw [← length_times, htimes, length_expand]
    -- the number of steps is that of the blocks
    have hsteps : ts.length = bs.length := by
      have hnsteps := h.nsteps
      rw [getVarNsteps, htimes, nstepsLoop_expand hblocks hhead] at hnsteps
      split_ifs at hnsteps
      rw [← Except.ok.inj hnsteps, Nat.zero_add]
    have hnblocks := h.nblocks
    have hloop := nblocksLoop_expand hblocks hhead (i := 0) []
    rw [length_nil, Nat.zero_add] at hloop
    rw [getVarNblocks, hsteps, htimes] at hnblocks
    refine ⟨hearly, ?_, ?_⟩
    · by_contra hover
      have hne : bs ≠ [] := fun hnil => by
        rw [hnil] at htotal
        rw [← htotal] at hover
        exact hover (by decide)
      rw [if_neg (not_or.mpr ⟨by omega, hne⟩)] at hloop
      split_ifs at hnblocks
      cases hloop.symm.trans hnblocks
    · by_contra hnot
      obtain ⟨hfalse, hnil⟩ := not_or.mp hnot
      rw [not_not] at hnil
      rw [hnil] at htotal
      have hlen : bs.length = 0 := by
        have hle := length_le_total hblocks
        rw [htotal] at hle
        exact Nat.le_zero.mp hle
      rw [if_pos ⟨hlen, Bool.not_eq_true _ ▸ hfalse⟩] at hnblocks
      cases hnblocks
  · rintro ⟨hearly, hcount, hzero⟩
    exact agree_of_early v hcount hearly hzero

def lastTime : SortedVar where
  entry := { id := 0, groupName := CString.empty, name := CString.empty, path := CString.empty,
             type := .byte, characteristics := [{ IndexCharacteristic.zero with
               timeIndex := 4294967295 }] }
  sorted := pairwise_singleton _ _
  nonzero := fun t ht => by
    obtain rfl := mem_singleton.mp ht
    decide

/-- Its time is taken for the -1 of the start: no step is counted. -/
theorem not_agree_lastTime : ¬∃ ts counts, Agree true lastTime.entry ts counts :=
  fun ⟨_, _, h⟩ => absurd (early_of_agree h 4294967295 (by decide)) (by decide)

end Adios.VarSteps
