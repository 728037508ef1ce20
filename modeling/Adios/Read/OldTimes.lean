import Adios.Lists.Results
import Adios.Read.BpVars

/-!
# Adios — times of old entries

What `bp_parse_vars` and `bp_parse_attrs` do with a characteristics set without a time index. Old
files had none, and the attributes of new ones have none either.
-/

namespace Adios

open Wire Wire.Parser Lists UInt64

/-- What the first loop of `bp_parse_pgs` leaves for the parsers of the entries; `tidx_start` and
`tidx_stop` are set by the first and the last process group. -/
def BpFile.ofPgs (version : UInt32) (unset : UInt32 × UInt32) (pgs : List IndexProcessGroup) :
    BpFile where
  version
  pgsCount := UInt64.ofNat pgs.length
  tidxStart := (pgs.head?.map IndexProcessGroup.timeIndex).getD unset.1
  tidxStop := (pgs.getLast?.map IndexProcessGroup.timeIndex).getD unset.2

/-- "Old BP files do not have time_index characteristics, so we set it here automatically": the
set of index `j`. -/
def BpFile.setOldTime (fh : BpFile) (j : Nat) (c : IndexCharacteristic) :
    Except Fault IndexCharacteristic :=
  if c.timeIndex = 0 ∧ fh.pgsPerStep = 0 then .error .divisionByZero
  else .ok { c with timeIndex := fh.timeIndex j c.timeIndex }

/-- The sets of an entry from the set `j` on. -/
def BpFile.setOldTimes (fh : BpFile) : Nat → List IndexCharacteristic →
    Except Fault (List IndexCharacteristic)
  | _, [] => .ok []
  | j, c :: cs => do
    let c ← fh.setOldTime j c
    let cs ← fh.setOldTimes (j + 1) cs
    .ok (c :: cs)

/-! ## The times -/

structure OldEntry where
  pgs : List IndexProcessGroup
  sets : List IndexCharacteristic
  pgsFit : pgs.length < 18446744073709551616
  setsFit : sets.length < 18446744073709551616

def TimeGiven (fh : BpFile) (c c' : IndexCharacteristic) : Prop :=
  (c.timeIndex ≠ 0 ∧ c' = c) ∨ c.timeIndex = 0 ∧ ∃ t, c' = { c with timeIndex := t } ∧
    fh.tidxStart.toNat ≤ t.toNat ∧ t.toNat ≤ fh.tidxStop.toNat

def OldEntry.Timed (e : OldEntry) : Prop :=
  ∀ version unset, ∃ sets, (BpFile.ofPgs version unset e.pgs).setOldTimes 0 e.sets = .ok sets ∧
    List.Forall₂ (TimeGiven (BpFile.ofPgs version unset e.pgs)) e.sets sets

/-- With at least as many process groups as times, a set that stands at the place of one of the
times, where each has as many places as there are process groups for it; the times are counted
from 1. -/
structure InStep (pgsCount j start stop : Nat) : Prop where
  span : stop - start + 1 < 4294967296
  enough : stop - start + 1 ≤ pgsCount
  first : start * (pgsCount / (stop - start + 1)) ≤
    (j + pgsCount / (stop - start + 1)) % (4294967296 * (pgsCount / (stop - start + 1)))
  last : (j + pgsCount / (stop - start + 1)) % (4294967296 * (pgsCount / (stop - start + 1))) <
    (stop + 1) * (pgsCount / (stop - start + 1))

theorem pgsPerStep_toNat {fh : BpFile} (hle : fh.tidxStart.toNat ≤ fh.tidxStop.toNat)
    (hspan : fh.tidxStop.toNat - fh.tidxStart.toNat + 1 < 4294967296) :
    fh.pgsPerStep.toNat =
      fh.pgsCount.toNat / (fh.tidxStop.toNat - fh.tidxStart.toNat + 1) := by
  have hstop := fh.tidxStop.toNat_lt
  have hone : (1 : UInt32).toNat = 1 := rfl
  have hsteps : (fh.tidxStop - fh.tidxStart + 1).toUInt64.toNat =
      fh.tidxStop.toNat - fh.tidxStart.toNat + 1 := by
    rw [UInt32.toNat_toUInt64, UInt32.toNat_add, UInt32.toNat_sub]
    omega
  rw [BpFile.pgsPerStep, UInt64.toNat_div, hsteps]

theorem timeIndex_toNat {fh : BpFile} {j : Nat} (hj : j < 18446744073709551616) :
    (fh.timeIndex j 0).toNat = (j / fh.pgsPerStep.toNat + 1) % 4294967296 := by
  have htime : fh.timeIndex j 0 = (UInt64.ofNat j / fh.pgsPerStep + 1).toUInt32 := if_pos rfl
  have hone : (1 : UInt64).toNat = 1 := rfl
  rw [htime, toNat_toUInt32, UInt64.toNat_add, UInt64.toNat_div, toNat_ofNat_of_lt' hj]
  omega

theorem between_iff {q : Nat} (hq : 0 < q) (j start stop n : Nat) :
    (start ≤ (j / q + 1) % n ∧ (j / q + 1) % n ≤ stop) ↔
      start * q ≤ (j + q) % (n * q) ∧ (j + q) % (n * q) < (stop + 1) * q := by
  have hquot : (j / q + 1) % n = (j + q) % (n * q) / q := by
    rw [Nat.mod_mul_left_div_self, Nat.add_div_right j hq]
  have hlast : (j + q) % (n * q) / q ≤ stop ↔ (j + q) % (n * q) < (stop + 1) * q := by
    rw [← Nat.lt_succ_iff, Nat.div_lt_iff_lt_mul hq]
  rw [hquot, Nat.le_div_iff_mul_le hq, hlast]

theorem pgsPerStep_eq_zero {fh : BpFile} (hle : fh.tidxStart.toNat ≤ fh.tidxStop.toNat)
    (hspan : ¬fh.tidxStop.toNat - fh.tidxStart.toNat + 1 < 4294967296) : fh.pgsPerStep = 0 := by
  have hstop := fh.tidxStop.toNat_lt
  have hone : (1 : UInt32).toNat = 1 := rfl
  have hsteps : (fh.tidxStop - fh.tidxStart + 1).toUInt64.toNat = 0 := by
    rw [UInt32.toNat_toUInt64, UInt32.toNat_add, UInt32.toNat_sub]
    omega
  rw [← UInt64.toNat_inj, BpFile.pgsPerStep, UInt64.toNat_div, hsteps, Nat.div_zero]
  rfl

theorem setOldTime_iff {fh : BpFile} {j : Nat} (hj : j < 18446744073709551616)
    (c : IndexCharacteristic) :
    (∃ c', fh.setOldTime j c = .ok c' ∧ TimeGiven fh c c') ↔
      (c.timeIndex = 0 →
        InStep fh.pgsCount.toNat j fh.tidxStart.toNat fh.tidxStop.toNat) := by
  by_cases hzero : c.timeIndex = 0
  case neg =>
    have hkept : fh.timeIndex j c.timeIndex = c.timeIndex := if_neg hzero
    have hok : fh.setOldTime j c = .ok c := by
      rw [BpFile.setOldTime, if_neg fun h => hzero h.1, hkept]
    exact ⟨fun _ h => absurd h hzero, fun _ => ⟨c, hok, .inl ⟨hzero, rfl⟩⟩⟩
  have hgiven : ∀ {c'}, TimeGiven fh c c' ↔ ∃ t, c' = { c with timeIndex := t } ∧
      fh.tidxStart.toNat ≤ t.toNat ∧ t.toNat ≤ fh.tidxStop.toNat := fun {c'} =>
    ⟨fun h => (h.resolve_left fun h => h.1 hzero).2, fun h => .inr ⟨hzero, h⟩⟩
  rw [forall_prop_of_true hzero, BpFile.setOldTime, hzero]
  constructor
  · rintro ⟨c', hok, htime⟩
    by_cases hq : fh.pgsPerStep = 0
    · rw [if_pos ⟨rfl, hq⟩] at hok
      cases hok
    rw [if_neg fun h => hq h.2] at hok
    obtain rfl := Except.ok.inj hok
    obtain ⟨t, heq, hstart, hstop⟩ := hgiven.mp htime
    obtain rfl : fh.timeIndex j 0 = t := congrArg IndexCharacteristic.timeIndex heq
    have hle := Nat.le_trans hstart hstop
    have hspan : fh.tidxStop.toNat - fh.tidxStart.toNat + 1 < 4294967296 := by
      by_contra hspan
      exact hq (pgsPerStep_eq_zero hle hspan)
    have hquot := pgsPerStep_toNat hle hspan
    have hpos : 0 < fh.pgsPerStep.toNat := by
      rw [← UInt64.toNat_inj] at hq
      exact Nat.pos_of_ne_zero hq
    rw [timeIndex_toNat hj] at hstart hstop
    have hplace := (between_iff hpos j _ _ _).mp ⟨hstart, hstop⟩
    rw [hquot] at hpos hplace
    exact ⟨hspan, (Nat.div_pos_iff.mp hpos).2, hplace.1, hplace.2⟩
  · intro h
    have hpos : 0 < fh.pgsCount.toNat / (fh.tidxStop.toNat - fh.tidxStart.toNat + 1) :=
      Nat.div_pos h.enough (Nat.succ_pos _)
    have hle : fh.tidxStart.toNat ≤ fh.tidxStop.toNat :=
      Nat.lt_succ_iff.mp (Nat.lt_of_mul_lt_mul_right (Nat.lt_of_le_of_lt h.first h.last))
    have hquot := pgsPerStep_toNat hle h.span
    have hq : fh.pgsPerStep ≠ 0 := fun hq => by
      rw [hq] at hquot
      exact absurd hquot (Nat.ne_of_lt hpos)
    have htime := (between_iff hpos j _ _ _).mpr ⟨h.first, h.last⟩
    rw [← hquot, ← timeIndex_toNat hj] at htime
    exact ⟨_, if_neg fun h => hq h.2, hgiven.mpr ⟨_, rfl, htime⟩⟩

theorem setOldTimes_iff (fh : BpFile) (sets : List IndexCharacteristic) (j : Nat)
    (hj : j + sets.length ≤ 18446744073709551616) :
    (∃ sets', fh.setOldTimes j sets = .ok sets' ∧ List.Forall₂ (TimeGiven fh) sets sets') ↔
      ∀ i c, sets[i]? = some c → c.timeIndex = 0 →
        InStep fh.pgsCount.toNat (j + i) fh.tidxStart.toNat fh.tidxStop.toNat := by
  induction sets generalizing j with
  | nil => exact ⟨fun _ i c hc => (nomatch hc), fun _ => ⟨[], rfl, .nil⟩⟩
  | cons c sets ih =>
    rw [List.length_cons] at hj
    have hone := @setOldTime_iff fh j (by omega) c
    have hrest := ih (j + 1) (by omega)
    constructor
    · rintro ⟨sets', hok, hall⟩
      obtain ⟨c', hc', hok⟩ := exists_of_bind_eq_ok hok
      obtain ⟨cs', hcs', hok⟩ := exists_of_bind_eq_ok hok
      obtain rfl := Except.ok.inj hok
      obtain ⟨hgiven, hall⟩ := List.forall₂_cons.mp hall
      intro i d hd hzero
      cases i with
      | zero =>
        obtain rfl : c = d := Option.some.inj hd
        exact hone.mp ⟨c', hc', hgiven⟩ hzero
      | succ i =>
        have hin := hrest.mp ⟨cs', hcs', hall⟩ i d hd hzero
        rw [Nat.add_assoc, Nat.add_comm 1] at hin
        exact hin
    · intro h
      obtain ⟨c', hc', hgiven⟩ := hone.mpr fun hzero => h 0 c rfl hzero
      obtain ⟨cs', hcs', hall⟩ := hrest.mpr fun i d hd hzero => by
        rw [Nat.add_assoc, Nat.add_comm 1]
        exact h (i + 1) d hd hzero
      refine ⟨c' :: cs', ?_, .cons hgiven hall⟩
      rw [BpFile.setOldTimes, hc', ok_bind, hcs', ok_bind]

theorem ofPgs_eq {pgs : List IndexProcessGroup} {first last : IndexProcessGroup}
    (hhead : pgs.head? = some first) (hlast : pgs.getLast? = some last) (version : UInt32)
    (unset : UInt32 × UInt32) : BpFile.ofPgs version unset pgs =
      ⟨version, UInt64.ofNat pgs.length, first.timeIndex, last.timeIndex⟩ := by
  rw [BpFile.ofPgs, hhead, hlast]
  rfl

/-- **Old entries are given a time of the file** exactly if each set without one stands at the place
of one of its times. -/
theorem timed_iff (e : OldEntry) : e.Timed ↔ ∀ j c, e.sets[j]? = some c → c.timeIndex = 0 →
    ∃ first last, e.pgs.head? = some first ∧ e.pgs.getLast? = some last ∧
      InStep e.pgs.length j first.timeIndex.toNat last.timeIndex.toNat := by
  have hcount : (UInt64.ofNat e.pgs.length).toNat = e.pgs.length :=
    toNat_ofNat_of_lt' e.pgsFit
  have hsets := e.setsFit
  constructor
  · intro h j c hc hzero
    have hin := (setOldTimes_iff (BpFile.ofPgs 0 (0, 0) e.pgs) e.sets 0 (by omega)).mp
      (h 0 (0, 0)) j c hc hzero
    rw [Nat.zero_add] at hin
    have hpgs : e.pgs ≠ [] := fun hnil => by
      have henough := hin.enough
      rw [BpFile.ofPgs, hnil] at henough
      exact absurd henough (Nat.not_succ_le_zero _)
    obtain ⟨first, rest, hcons⟩ := List.exists_cons_of_ne_nil hpgs
    have hhead : e.pgs.head? = some first := by
      rw [hcons]
      rfl
    have hlast := List.getLast?_eq_some_getLast hpgs
    rw [ofPgs_eq hhead hlast] at hin
    dsimp only at hin
    rw [hcount] at hin
    exact ⟨first, _, hhead, hlast, hin⟩
  · intro h version unset
    refine (setOldTimes_iff _ e.sets 0 (by omega)).mpr fun j c hc hzero => ?_
    obtain ⟨first, last, hhead, hlast, hin⟩ := h j c hc hzero
    rw [ofPgs_eq hhead hlast, Nat.zero_add]
    dsimp only
    rw [hcount]
    exact hin

def timesOneAndFive : OldEntry where
  pgs := [pgOfTime 1, pgOfTime 5]
  sets := [IndexCharacteristic.zero]
  pgsFit := by decide
  setsFit := by decide

/-- Two process groups over five times leave none for a time. -/
theorem not_timed_gap : ¬timesOneAndFive.Timed := fun h => by
  obtain ⟨sets, hok, -⟩ := h 0 (0, 0)
  have hfault : (BpFile.ofPgs 0 (0, 0) timesOneAndFive.pgs).setOldTimes 0 timesOneAndFive.sets =
    .error .divisionByZero := rfl
  rw [hfault] at hok
  cases hok

end Adios
