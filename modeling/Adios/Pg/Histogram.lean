import Adios.Lists.Bins
import Adios.Types
import Mathlib.Algebra.Order.Ring.Unbundled.Rat

/-!
# Adios — histograms

The macro `HIST` of `adios_generate_var_characteristics_v1`. Values and breaks are the rational
numbers that a C type holds; a value is converted to the type in which it is compared with a break.
-/

namespace Adios

open List Lists

/-! ## The search -/

/-- "`hist->breaks[k]`" -/
def breakAt (breaks : List ℚ) (k : Nat) : Except Fault ℚ :=
  match breaks[k]? with
  | some b => .ok b
  | none => .error .outOfBounds

/-- "`while(high-low>=2)`": `low` at its end. The sum of the two is an `int`. -/
def histSearch (breaks : List ℚ) (a : ℚ) (low high : Nat) : Except Fault Nat :=
  if _ : low + 2 ≤ high then
    if high + low ≥ 2147483648 then .error .signedOverflow
    else
      match breaks[(high + low) / 2]? with
      | none => .error .outOfBounds
      | some b =>
        if a ≥ b then histSearch breaks a ((high + low) / 2) high
        else histSearch breaks a low ((high + low) / 2)
  else .ok low
termination_by high - low
decreasing_by all_goals omega

/-- `HIST`: the frequency that is counted up, if there is one. -/
def histBin (breaks : List ℚ) (a : ℚ) : Except Fault (Option Nat) := do
  let high := breaks.length - 1
  let first ← breakAt breaks 0
  if first > a then .ok (some 0)
  else do
    let last ← breakAt breaks high
    if a ≥ last then .ok (some (high + 1))
    else if first ≤ a ∧ a < last then do
      let low ← histSearch breaks a 0 high
      .ok (some (low + 1))
    else .ok none

/-- The breaks, the elements of an array, of which those without a value are not finite, and the
conversion of a value for a comparison. -/
structure HistInput where
  breaks : List ℚ
  data : List (Option ℚ)
  conv : ℚ → ℚ
  nonempty : breaks ≠ []
  increasing : breaks.Pairwise (· < ·)
  /-- `count` is an `int` -/
  count : breaks.length < 2147483648
  /-- a conversion is monotone, and keeps what a double holds -/
  keeps : ∀ a, some a ∈ data → ∀ b ∈ breaks, b ≤ a → b ≤ conv a

def HistInput.loop (i : HistInput) : List UInt32 → List (Option ℚ) → Except Fault (List UInt32)
  | frequencies, [] => .ok frequencies
  | frequencies, none :: data => i.loop frequencies data
  | frequencies, some a :: data => do
    let bin ← histBin i.breaks (i.conv a)
    match bin with
    | some k => i.loop (frequencies.modify k (· + 1)) data
    | none => i.loop frequencies data

/-- `hist->frequencies` at the end. -/
def HistInput.frequencies (i : HistInput) : Except Fault (List UInt32) :=
  i.loop (List.replicate (i.breaks.length + 1) 0) i.data

/-! ## What it is for -/

def HistInput.values (i : HistInput) : List ℚ := i.data.filterMap id

def inRange (breaks : List ℚ) (k : Nat) (a : ℚ) : Bool :=
  (k = 0 || breaks[k - 1]?.all fun b => b ≤ a) && breaks[k]?.all fun b => a < b

structure HistInput.Counted (i : HistInput) (frequencies : List UInt32) : Prop where
  length : frequencies.length = i.breaks.length + 1
  counts : ∀ k ≤ i.breaks.length, frequencies[k]?.map UInt32.toNat =
    some (i.values.countP (inRange i.breaks k))
  sum : (frequencies.map UInt32.toNat).sum = i.values.length

def rightLow (high : Nat) : Nat → Nat
  | 0 => 0
  | n + 1 => (high + rightLow high n) / 2

/-- No value is rounded up to a break, 32 bits hold the number of values in each range, and where a
search to the right would add up to more than an `int` holds no value is searched. -/
structure HistInput.Fits (i : HistInput) : Prop where
  rounding : ∀ a ∈ i.values, ∀ b ∈ i.breaks, a < b → i.conv a < b
  counts : ∀ k ≤ i.breaks.length, i.values.countP (inRange i.breaks k) < 4294967296
  search : ∀ n, rightLow (i.breaks.length - 1) n + 2 ≤ i.breaks.length - 1 →
    2147483648 ≤ i.breaks.length - 1 + rightLow (i.breaks.length - 1) n →
    ∀ a ∈ i.values, ∀ b ∈ i.breaks[rightLow (i.breaks.length - 1) n]?, b ≤ a →
      ∀ last ∈ i.breaks.getLast?, last ≤ a

/-! ## Places among the breaks -/

def placeOf (breaks : List ℚ) (a : ℚ) : Nat := breaks.countP fun b => b ≤ a

theorem placeOf_le (breaks : List ℚ) (a : ℚ) : placeOf breaks a ≤ breaks.length :=
  countP_le_length

theorem le_iff_lt_placeOf {breaks : List ℚ} (h : breaks.Pairwise (· < ·)) {k : Nat} {b a : ℚ}
    (hb : breaks[k]? = some b) : b ≤ a ↔ k < placeOf breaks a := by
  induction breaks generalizing k with
  | nil => cases hb
  | cons c cs ih =>
    obtain ⟨hc, hcs⟩ := pairwise_cons.mp h
    rw [placeOf, countP_cons]
    by_cases hle : c ≤ a
    · rw [if_pos (decide_eq_true hle)]
      cases k with
      | zero =>
        obtain rfl : c = b := Option.some.inj hb
        exact ⟨fun _ => Nat.succ_pos _, fun _ => hle⟩
      | succ k => exact (ih hcs hb).trans Nat.succ_lt_succ_iff.symm
    · -- then all of them are above it
      have hzero : cs.countP (fun b => b ≤ a) = 0 := countP_eq_zero.mpr fun d hd hda =>
        hle (le_trans (le_of_lt (hc d hd)) (of_decide_eq_true hda))
      have hnot : ¬b ≤ a := fun hba => by
        rcases mem_cons.mp (mem_of_getElem? hb) with rfl | hmem
        · exact hle hba
        · exact hle (le_trans (le_of_lt (hc b hmem)) hba)
      rw [hzero, if_neg fun heq => hle (of_decide_eq_true heq)]
      exact ⟨fun hba => absurd hba hnot, fun hlt => absurd hlt (Nat.not_lt_zero k)⟩

theorem all_lt_iff {breaks : List ℚ} (h : breaks.Pairwise (· < ·)) (k : Nat) (a : ℚ) :
    (breaks[k]?.all fun b => a < b) = true ↔ placeOf breaks a ≤ k := by
  cases hb : breaks[k]? with
  | none =>
    have hlen := List.getElem?_eq_none_iff.mp hb
    exact ⟨fun _ => Nat.le_trans (placeOf_le breaks a) hlen, fun _ => rfl⟩
  | some b =>
    have hiff := le_iff_lt_placeOf h hb (a := a)
    rw [Option.all_some, decide_eq_true_eq, ← not_le, hiff, Nat.not_lt]

theorem inRange_iff {breaks : List ℚ} (h : breaks.Pairwise (· < ·)) {k : Nat}
    (hk : k ≤ breaks.length) (a : ℚ) : inRange breaks k a = true ↔ placeOf breaks a = k := by
  have hupper := all_lt_iff h k a
  rw [inRange, Bool.and_eq_true, Bool.or_eq_true, decide_eq_true_eq, hupper]
  cases k with
  | zero => exact ⟨fun hle => Nat.le_zero.mp hle.2, fun heq => ⟨.inl rfl, Nat.le_of_eq heq⟩⟩
  | succ k =>
    have hlo : breaks[k]? = some breaks[k] := getElem?_eq_getElem hk
    have hlower := le_iff_lt_placeOf h hlo (a := a)
    rw [Nat.add_sub_cancel, hlo, Option.all_some, decide_eq_true_eq, hlower]
    omega

/-! ## What the search finds -/

section

variable {breaks : List ℚ} {a : ℚ} {low high : Nat}

theorem histSearch_step (h : breaks.Pairwise (· < ·)) (hhigh : high < breaks.length)
    (hgap : low + 2 ≤ high) : histSearch breaks a low high =
      if high + low ≥ 2147483648 then .error .signedOverflow
      else if (high + low) / 2 < placeOf breaks a then
        histSearch breaks a ((high + low) / 2) high
      else histSearch breaks a low ((high + low) / 2) := by
  have hmid : breaks[(high + low) / 2]? = some breaks[(high + low) / 2] :=
    getElem?_eq_getElem (by omega)
  have hle := le_iff_lt_placeOf h hmid (a := a)
  rw [histSearch, dif_pos hgap]
  by_cases hsum : high + low ≥ 2147483648
  · rw [if_pos hsum, if_pos hsum]
  rw [if_neg hsum, if_neg hsum, hmid]
  dsimp only
  by_cases hlt : (high + low) / 2 < placeOf breaks a
  · rw [if_pos hlt, if_pos (hle.mpr hlt)]
  · rw [if_neg hlt, if_neg fun hba => hlt (hle.mp hba)]

theorem histSearch_done (hgap : ¬low + 2 ≤ high) : histSearch breaks a low high = .ok low := by
  rw [histSearch, dif_neg hgap]

theorem histSearch_of_small (h : breaks.Pairwise (· < ·)) (hhigh : high < breaks.length)
    (hlow : low < placeOf breaks a) (hplace : placeOf breaks a ≤ high)
    (hsmall : high + high ≤ 2147483648) :
    histSearch breaks a low high = .ok (placeOf breaks a - 1) := by
  induction hn : high - low using Nat.strong_induction_on generalizing low high with
  | _ n ih =>
    by_cases hgap : low + 2 ≤ high
    · rw [histSearch_step h hhigh hgap, if_neg (by omega)]
      split_ifs with hmid
      · exact ih _ (by omega) hhigh hmid hplace hsmall rfl
      · exact ih _ (by omega) (by omega) hlow (by omega) (by omega) rfl
    · rw [histSearch_done hgap]
      congr 1
      omega

theorem rightLow_le (high n : Nat) : rightLow high n ≤ high := by
  induction n with
  | zero => exact Nat.zero_le _
  | succ n ih =>
    rw [rightLow]
    omega

theorem rightLow_mono (high : Nat) {m n : Nat} (h : m ≤ n) : rightLow high m ≤ rightLow high n := by
  induction h with
  | refl => exact Nat.le_refl _
  | @step n _ ih =>
    have hle := rightLow_le high n
    rw [rightLow]
    omega

/-- From the `n`th of the lower bounds on the search stops in front of an overflow. -/
def SearchFits (high place n : Nat) : Prop :=
  ∀ m, n ≤ m → rightLow high m + 2 ≤ high → 2147483648 ≤ high + rightLow high m →
    place ≤ rightLow high m

theorem searchFits_succ_iff {place n : Nat} (hsum : ¬high + rightLow high n ≥ 2147483648) :
    SearchFits high place n ↔ SearchFits high place (n + 1) := by
  refine ⟨fun h m hm => h m (by omega), fun h m hm hgap hover => ?_⟩
  rcases Nat.eq_or_lt_of_le hm with rfl | hlt
  · exact absurd hover hsum
  · exact h m hlt hgap hover

theorem histSearch_right (h : breaks.Pairwise (· < ·)) (hhigh : high < breaks.length) (n : Nat)
    (hlow : rightLow high n < placeOf breaks a) (hplace : placeOf breaks a ≤ high) :
    (SearchFits high (placeOf breaks a) n ∧
      histSearch breaks a (rightLow high n) high = .ok (placeOf breaks a - 1)) ∨
    ¬SearchFits high (placeOf breaks a) n ∧
      histSearch breaks a (rightLow high n) high = .error .signedOverflow := by
  induction hd : high - rightLow high n using Nat.strong_induction_on generalizing n with
  | _ d ih =>
    by_cases hgap : rightLow high n + 2 ≤ high
    · rw [histSearch_step h hhigh hgap]
      by_cases hsum : high + rightLow high n ≥ 2147483648
      · rw [if_pos hsum]
        exact .inr ⟨fun hfits => absurd (hfits n (Nat.le_refl n) hgap hsum) (by omega), rfl⟩
      rw [if_neg hsum, searchFits_succ_iff hsum]
      by_cases hmid : (high + rightLow high n) / 2 < placeOf breaks a
      · rw [if_pos hmid]
        have hnext : high - rightLow high (n + 1) < d := by
          rw [rightLow]
          omega
        exact ih _ hnext (n + 1) hmid rfl
      · -- on the left the sums are smaller
        rw [if_neg hmid]
        refine .inl ⟨fun m hm _ _ => ?_, ?_⟩
        · exact Nat.le_trans (Nat.not_lt.mp hmid) (rightLow_mono high hm)
        · exact histSearch_of_small h (by omega) hlow (by omega) (by omega)
    · refine .inl ⟨fun m hm hgap' => ?_, ?_⟩
      · have hmono := rightLow_mono high hm
        omega
      · rw [histSearch_done hgap]
        congr 1
        omega

theorem histBin_eq (hne : breaks ≠ []) (h : breaks.Pairwise (· < ·)) (a : ℚ) :
    ((SearchFits (breaks.length - 1) (placeOf breaks a) 0 ∨
        placeOf breaks a = breaks.length) ∧
      histBin breaks a = .ok (some (placeOf breaks a))) ∨
    ¬(SearchFits (breaks.length - 1) (placeOf breaks a) 0 ∨
        placeOf breaks a = breaks.length) ∧
      histBin breaks a = .error .signedOverflow := by
  have hpos : 0 < breaks.length := length_pos_iff.mpr hne
  have hfirst : breaks[0]? = some breaks[0] := getElem?_eq_getElem hpos
  have hlast : breaks[breaks.length - 1]? = some breaks[breaks.length - 1] :=
    getElem?_eq_getElem (by omega)
  have hfirstle := le_iff_lt_placeOf h hfirst (a := a)
  have hlastle := le_iff_lt_placeOf h hlast (a := a)
  have hplace := placeOf_le breaks a
  rw [histBin, breakAt, hfirst]
  dsimp only
  rw [ok_bind]
  by_cases hbelow : breaks[0] > a
  · have hzero : placeOf breaks a = 0 := by
      by_contra hnot
      exact absurd (hfirstle.mpr (by omega)) (not_le.mpr hbelow)
    rw [if_pos hbelow, hzero]
    exact .inl ⟨.inl fun m _ _ _ => Nat.zero_le _, rfl⟩
  rw [if_neg hbelow, breakAt, hlast]
  dsimp only
  rw [ok_bind]
  have hplacePos := hfirstle.mp (not_lt.mp hbelow)
  by_cases habove : a ≥ breaks[breaks.length - 1]
  · have hall : placeOf breaks a = breaks.length := by
      have hlt := hlastle.mp habove
      omega
    rw [if_pos habove, hall, Nat.sub_add_cancel hpos]
    exact .inl ⟨.inr rfl, rfl⟩
  have hlt : placeOf breaks a ≤ breaks.length - 1 :=
    Nat.not_lt.mp fun hlt => habove (hlastle.mpr hlt)
  rw [if_neg habove, if_pos ⟨not_lt.mp hbelow, not_le.mp habove⟩]
  rcases histSearch_right h (by omega) 0 hplacePos hlt with ⟨hfits, heq⟩ | ⟨hfits, heq⟩
  · refine .inl ⟨.inl hfits, ?_⟩
    have hzero : rightLow (breaks.length - 1) 0 = 0 := rfl
    rw [hzero] at heq
    rw [heq, ok_bind, Nat.sub_add_cancel hplacePos]
  · refine .inr ⟨fun hor => hor.elim hfits fun hall => by omega, ?_⟩
    have hzero : rightLow (breaks.length - 1) 0 = 0 := rfl
    rw [hzero] at heq
    rw [heq]
    rfl

end

/-! ## Counting -/

def countUp (bin : ℚ → Nat) (frequencies : List UInt32) (values : List ℚ) : List UInt32 :=
  values.foldl (fun frequencies a => frequencies.modify (bin a) (· + 1)) frequencies

theorem length_countUp (bin : ℚ → Nat) (values : List ℚ) (frequencies : List UInt32) :
    (countUp bin frequencies values).length = frequencies.length := by
  induction values generalizing frequencies with
  | nil => rfl
  | cons a values ih => exact (ih _).trans (length_modify _ _ _)

theorem getElem?_countUp (bin : ℚ → Nat) (values : List ℚ) (frequencies : List UInt32) (k : Nat) :
    (countUp bin frequencies values)[k]? =
      frequencies[k]?.map (· + UInt32.ofNat (binCount bin values k)) := by
  induction values generalizing frequencies with
  | nil =>
    show frequencies[k]? = _
    cases frequencies[k]? with
    | none => rfl
    | some f => exact congrArg some (UInt32.add_zero f).symm
  | cons a values ih =>
    refine (ih _).trans ?_
    rw [getElem?_modify, binCount_cons]
    cases frequencies[k]? with
    | none => rfl
    | some f =>
      refine congrArg some ?_
      by_cases hk : bin a = k
      · simp only [hk, if_true]
        rw [Nat.add_comm, UInt32.ofNat_add, ← UInt32.add_assoc]
        rfl
      · simp only [hk, if_false, Nat.add_zero]

def HistInput.Searched (i : HistInput) (a : ℚ) : Prop :=
  SearchFits (i.breaks.length - 1) (placeOf i.breaks (i.conv a)) 0 ∨
    placeOf i.breaks (i.conv a) = i.breaks.length

theorem loop_cases (i : HistInput) (data : List (Option ℚ)) (frequencies : List UInt32) :
    ((∀ a ∈ data.filterMap id, i.Searched a) ∧ i.loop frequencies data =
      .ok (countUp (fun a => placeOf i.breaks (i.conv a)) frequencies (data.filterMap id))) ∨
    ¬(∀ a ∈ data.filterMap id, i.Searched a) ∧
      i.loop frequencies data = .error .signedOverflow := by
  induction data generalizing frequencies with
  | nil => exact .inl ⟨fun _ ha => (nomatch ha), rfl⟩
  | cons x data ih =>
    cases x with
    | none => exact ih frequencies
    | some a =>
      have hvalues : (some a :: data).filterMap id = a :: data.filterMap id := rfl
      rw [hvalues, forall_mem_cons, HistInput.loop]
      rcases histBin_eq i.nonempty i.increasing (i.conv a) with ⟨hsearched, heq⟩ | ⟨hnot, heq⟩
      · rw [heq, ok_bind]
        rcases ih (frequencies.modify (placeOf i.breaks (i.conv a)) (· + 1)) with
          ⟨hall, hloop⟩ | ⟨hall, hloop⟩
        · exact .inl ⟨⟨hsearched, hall⟩, hloop⟩
        · exact .inr ⟨fun h => hall h.2, hloop⟩
      · rw [heq]
        exact .inr ⟨fun h => hnot h.1, rfl⟩

/-! ## When the histogram is right -/

section

variable (i : HistInput)

theorem mem_values_iff (a : ℚ) : a ∈ i.values ↔ some a ∈ i.data := by
  rw [HistInput.values, mem_filterMap]
  exact ⟨fun ⟨x, hx, heq⟩ => heq ▸ hx, fun h => ⟨some a, h, rfl⟩⟩

theorem placeOf_le_conv {a : ℚ} (ha : a ∈ i.values) :
    placeOf i.breaks a ≤ placeOf i.breaks (i.conv a) :=
  countP_mono_left fun b hb hle => decide_eq_true
    (i.keeps a ((mem_values_iff i a).mp ha) b hb (of_decide_eq_true hle))

theorem placeOf_conv_iff {a : ℚ} (ha : a ∈ i.values) :
    placeOf i.breaks a = placeOf i.breaks (i.conv a) ↔
      ∀ b ∈ i.breaks, a < b → i.conv a < b := by
  constructor
  · intro heq b hb hlt
    obtain ⟨k, hk⟩ := getElem?_of_mem hb
    have hplace := le_iff_lt_placeOf i.increasing hk (a := a)
    have hplace' := le_iff_lt_placeOf i.increasing hk (a := i.conv a)
    rw [← not_le, hplace'.trans (heq ▸ hplace.symm), not_le]
    exact hlt
  · intro h
    refine Nat.le_antisymm (placeOf_le_conv i ha) (countP_mono_left fun b hb hle => ?_)
    refine decide_eq_true (not_lt.mp fun hlt => ?_)
    exact not_le.mpr (h b hb hlt) (of_decide_eq_true hle)

theorem countP_inRange {k : Nat} (hk : k ≤ i.breaks.length) :
    i.values.countP (inRange i.breaks k) = binCount (placeOf i.breaks) i.values k :=
  countP_congr fun a _ => (inRange_iff i.increasing hk a).trans decide_eq_true_iff.symm

theorem searched_iff {a : ℚ} (heq : placeOf i.breaks a = placeOf i.breaks (i.conv a)) :
    i.Searched a ↔ ∀ n, rightLow (i.breaks.length - 1) n + 2 ≤ i.breaks.length - 1 →
      2147483648 ≤ i.breaks.length - 1 + rightLow (i.breaks.length - 1) n →
      ∀ b ∈ i.breaks[rightLow (i.breaks.length - 1) n]?, b ≤ a →
        ∀ last ∈ i.breaks.getLast?, last ≤ a := by
  have hpos : 0 < i.breaks.length := length_pos_iff.mpr i.nonempty
  have hlast : i.breaks.getLast? = i.breaks[i.breaks.length - 1]? := List.getLast?_eq_getElem?
  have hlastGet : i.breaks[i.breaks.length - 1]? = some i.breaks[i.breaks.length - 1] :=
    getElem?_eq_getElem (by omega)
  have hplace := placeOf_le i.breaks a
  have hall : i.breaks[i.breaks.length - 1] ≤ a ↔ placeOf i.breaks a = i.breaks.length := by
    rw [le_iff_lt_placeOf i.increasing hlastGet]
    omega
  rw [HistInput.Searched, ← heq]
  constructor
  · intro h n hgap hover b hb hle last hmem
    rw [hlast, hlastGet] at hmem
    obtain rfl := Option.some.inj hmem
    refine hall.mpr (h.resolve_left fun hfits => ?_)
    have hlt := (le_iff_lt_placeOf i.increasing hb).mp hle
    exact absurd (hfits n (Nat.zero_le n) hgap hover) (Nat.not_le.mpr hlt)
  · intro h
    by_cases hend : placeOf i.breaks a = i.breaks.length
    · exact .inr hend
    refine .inl fun m _ hgap hover => Nat.not_lt.mp fun hlt => hend (hall.mp ?_)
    have hright := rightLow_le (i.breaks.length - 1) m
    have hget : i.breaks[rightLow (i.breaks.length - 1) m]? =
        some i.breaks[rightLow (i.breaks.length - 1) m] := getElem?_eq_getElem (by omega)
    refine h m hgap hover _ hget ((le_iff_lt_placeOf i.increasing hget).mpr hlt) _ ?_
    rw [hlast, hlastGet]
    rfl

theorem toNat_countUp (bin : ℚ → Nat) {k : Nat} (hk : k ≤ i.breaks.length) :
    (countUp bin (List.replicate (i.breaks.length + 1) 0) i.values)[k]?.map UInt32.toNat =
      some (binCount bin i.values k % 4294967296) := by
  rw [getElem?_countUp, getElem?_replicate, if_pos (Nat.lt_succ_of_le hk), Option.map_some,
    Option.map_some, UInt32.zero_add]
  exact congrArg some UInt32.toNat_ofNat'

theorem counted_of_fits (h : i.Fits) :
    ∃ frequencies, i.frequencies = .ok frequencies ∧ i.Counted frequencies := by
  have hplaces : ∀ a ∈ i.values, placeOf i.breaks a = placeOf i.breaks (i.conv a) := fun a ha =>
    (placeOf_conv_iff i ha).mpr (h.rounding a ha)
  have hbins : ∀ k, binCount (fun a => placeOf i.breaks (i.conv a)) i.values k =
      binCount (placeOf i.breaks) i.values k := fun k => countP_congr fun a ha => by
    rw [hplaces a ha]
  have hcounts : ∀ k ≤ i.breaks.length,
      (countUp (fun a => placeOf i.breaks (i.conv a)) (List.replicate (i.breaks.length + 1) 0)
        i.values)[k]?.map UInt32.toNat = some (binCount (placeOf i.breaks) i.values k) := by
    intro k hk
    have hlt := h.counts k hk
    rw [countP_inRange i hk] at hlt
    rw [toNat_countUp i _ hk, hbins, Nat.mod_eq_of_lt hlt]
  have hsearched : ∀ a ∈ i.values, i.Searched a := fun a ha =>
    (searched_iff i (hplaces a ha)).mpr fun n hgap hover => h.search n hgap hover a ha
  rcases loop_cases i i.data (List.replicate (i.breaks.length + 1) 0) with ⟨-, heq⟩ | ⟨hnot, -⟩
  · refine ⟨_, heq, ?_, fun k hk => ?_, ?_⟩
    · rw [length_countUp, length_replicate]
    · rw [countP_inRange i hk]
      exact hcounts k hk
    · have hlist : (countUp (fun a => placeOf i.breaks (i.conv a))
          (List.replicate (i.breaks.length + 1) 0) i.values).map UInt32.toNat =
          (List.range (i.breaks.length + 1)).map (binCount (placeOf i.breaks) i.values) := by
        refine ext_getElem? fun k => ?_
        rw [getElem?_map, getElem?_map]
        by_cases hk : k ≤ i.breaks.length
        · rw [hcounts k hk, getElem?_range (Nat.lt_succ_of_le hk), Option.map_some]
        · rw [getElem?_eq_none (by rw [length_countUp, length_replicate]; omega),
            getElem?_eq_none (by rw [length_range]; omega)]
          rfl
      exact (congrArg List.sum hlist).trans
        (sum_binCount fun a _ => Nat.lt_succ_of_le (placeOf_le i.breaks a))
  · exact absurd hsearched hnot

theorem fits_of_counted {frequencies : List UInt32} (heq : i.frequencies = .ok frequencies)
    (h : i.Counted frequencies) : i.Fits := by
  rcases loop_cases i i.data (List.replicate (i.breaks.length + 1) 0) with
    ⟨hsearched, hloop⟩ | ⟨-, hloop⟩
  swap
  · rw [HistInput.frequencies, hloop] at heq
    cases heq
  obtain rfl := Except.ok.inj (hloop.symm.trans heq)
  -- a frequency is what is counted, cut to 32 bits
  have hcounts : ∀ k ≤ i.breaks.length, binCount (placeOf i.breaks) i.values k =
      binCount (fun a => placeOf i.breaks (i.conv a)) i.values k % 4294967296 := fun k hk => by
    have hcount := h.counts k hk
    rw [countP_inRange i hk] at hcount
    exact Option.some.inj (hcount.symm.trans (toNat_countUp i _ hk))
  have hplaces : ∀ a ∈ i.values, placeOf i.breaks a = placeOf i.breaks (i.conv a) := by
    refine bin_eq_of_le (fun a ha => placeOf_le_conv i ha) fun k => ?_
    by_cases hk : k ≤ i.breaks.length
    · rw [hcounts k hk]
      exact Nat.mod_le _ _
    · have hnone : binCount (placeOf i.breaks) i.values k = 0 :=
        countP_eq_zero.mpr fun a _ hak => hk (by
          rw [← of_decide_eq_true hak]
          exact placeOf_le i.breaks a)
      rw [hnone]
      exact Nat.zero_le _
  refine ⟨fun a ha => (placeOf_conv_iff i ha).mp (hplaces a ha), fun k hk => ?_,
    fun n hgap hover a ha => ?_⟩
  · rw [countP_inRange i hk, hcounts k hk]
    exact Nat.mod_lt _ (by decide)
  · exact (searched_iff i (hplaces a ha)).mp (hsearched a ha) n hgap hover

end

/-- **The histogram is right** exactly if everything fits. -/
theorem counted_iff (i : HistInput) :
    (∃ frequencies, i.frequencies = .ok frequencies ∧ i.Counted frequencies) ↔ i.Fits :=
  ⟨fun ⟨_, heq, h⟩ => fits_of_counted i heq h, counted_of_fits i⟩

def valuesAtBreak (n : Nat) : HistInput where
  breaks := [0]
  data := List.replicate n (some 0)
  conv := id
  nonempty := cons_ne_nil _ _
  increasing := pairwise_singleton _ _
  count := by decide
  keeps _ _ _ _ h := h

theorem countP_valuesAtBreak (n : Nat) :
    (valuesAtBreak n).values.countP (inRange (valuesAtBreak n).breaks 1) = n := by
  have hvalues : (valuesAtBreak n).values = List.replicate n 0 :=
    filterMap_replicate_of_some rfl
  have hin : inRange [0] 1 0 = true := by decide
  rw [hvalues, countP_replicate]
  exact if_pos hin

/-- The number of 2^32 values is cut to 0. -/
theorem not_counted_atBreak : ¬∃ frequencies, (valuesAtBreak 4294967296).frequencies =
    .ok frequencies ∧ (valuesAtBreak 4294967296).Counted frequencies := fun ⟨_, heq, h⟩ => by
  have hlt := (fits_of_counted (valuesAtBreak 4294967296) heq h).counts 1 (Nat.le_refl 1)
  rw [countP_valuesAtBreak] at hlt
  exact Nat.lt_irrefl _ hlt

end Adios
