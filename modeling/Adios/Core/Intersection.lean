import Adios.Core.Subvolume
import Adios.Lists.Results

/-!
# Core — when an intersection is what two volumes have in common

The volumes are boxes of elements. An end that an `int` cannot hold, and an empty segment within the
other one, are what goes wrong, and it depends on the numbers whether the result shows it.
-/

namespace Adios.Subvolume

open List Grid Lists UInt64

/-! ## The statement -/

namespace Segment

def span (s : Segment) : Span := ⟨s.start.toNat, s.count.toNat⟩

def stop (s : Segment) : Nat := s.start.toNat + s.count.toNat

end Segment

def Elements (vol : List Segment) (p : List Nat) : Prop := Contains (vol.map Segment.span) p

instance (vol : List Segment) (p : List Nat) : Decidable (Elements vol p) :=
  inferInstanceAs (Decidable (Contains _ _))

def Reported (r : List Common) (p : List Nat) : Prop :=
  Contains (r.map fun c => ⟨c.offset.toNat, c.dims.toNat⟩) p

def Common.swap (c : Common) : Common :=
  { c with offsetRel1 := c.offsetRel2, offsetRel2 := c.offsetRel1 }

structure Volumes where
  dims : List (Segment × Segment)
  ndim : dims ≠ []
  ends (d : Segment × Segment) (h : d ∈ dims) :
    d.1.stop < 18446744073709551616 ∧ d.2.stop < 18446744073709551616

namespace Volumes

variable (v : Volumes)

def vol1 : List Segment := v.dims.map Prod.fst

def vol2 : List Segment := v.dims.map Prod.snd

/-- `intersect_volumes` is right about the two volumes. -/
structure Intersects : Prop where
  overlap : (intersectVolumes v.vol1 v.vol2).isSome = true ↔
    ∃ p, Elements v.vol1 p ∧ Elements v.vol2 p
  common (r : List Common) (h : intersectVolumes v.vol1 v.vol2 = some r) (p : List Nat) :
    Reported r p ↔ Elements v.vol1 p ∧ Elements v.vol2 p
  relative (r : List Common) (h : intersectVolumes v.vol1 v.vol2 = some r) :
    Forall₂ (fun (c : Common) (d : Segment × Segment) =>
      c.offset.toNat = d.1.start.toNat + c.offsetRel1.toNat ∧
        c.offset.toNat = d.2.start.toNat + c.offsetRel2.toNat) r v.dims
  symm : intersectVolumes v.vol2 v.vol1 =
    (intersectVolumes v.vol1 v.vol2).map (List.map Common.swap)

end Volumes

/-! ## The condition -/

def Meet (s1 s2 : Segment) : Prop :=
  max s1.start.toNat s2.start.toNat < min s1.stop s2.stop

/-- Numbers that come through their `int`s where it matters: the end of what is in common does, the
other end does not become a smaller `int`, and the later start is only assigned to an `int` when it
is that of the first segment. -/
structure Held (s1 s2 : Segment) : Prop where
  inner : cut (min s1.stop s2.stop) = min s1.stop s2.stop
  outer : signed (min s1.stop s2.stop) ≤ signed (max s1.stop s2.stop)
  start : s1.start.toNat ≠ s2.start.toNat →
    cut (max s1.start.toNat s2.start.toNat) = max s1.start.toNat s2.start.toNat

/-- The end of the segment that starts first is, as an `int`, not behind the start of the other one,
which is an `int` too if it is that of the first argument. -/
def Apart (s1 s2 : Segment) : Prop :=
  if s2.start < s1.start then cut s2.stop ≤ cut s1.start.toNat else cut s1.stop ≤ s2.start.toNat

/-- The volumes share elements, and the numbers of each dimension come through; or they do not, and
some dimension shows it, whichever volume comes first. -/
def Volumes.Clear (v : Volumes) : Prop :=
  (∀ d ∈ v.dims, Meet d.1 d.2 ∧ Held d.1 d.2) ∨
    (∃ d ∈ v.dims, ¬Meet d.1 d.2) ∧ (∃ d ∈ v.dims, Apart d.1 d.2) ∧ ∃ d ∈ v.dims, Apart d.2 d.1

/-! ## One dimension -/

section

variable {s1 s2 : Segment}

variable {start1 len1 start2 len2 : UInt64}

theorem intersectOrdered_eq_none_iff :
    intersectOrdered start1 len1 start2 len2 = none ↔
      cut (start1.toNat + len1.toNat) ≤ start2.toNat := by
  have hcut : cut (start1 + len1).toNat = cut (start1.toNat + len1.toNat) := by
    refine cut_congr ?_
    rw [UInt64.toNat_add]
    omega
  unfold intersectOrdered
  dsimp only
  rw [← hcut, ← toNat_ofInt_toInt, ← le_iff_toNat_le]
  split_ifs with h
  · exact ⟨fun _ => h, fun _ => rfl⟩
  · exact ⟨fun hsome => (by cases hsome), fun hle => absurd hle h⟩

theorem intersectSegments_eq_none_iff :
    intersectSegments s1.start s1.count s2.start s2.count = none ↔ Apart s1 s2 := by
  unfold intersectSegments Apart
  split_ifs with h
  · rw [intersectOrdered_eq_none_iff, toNat_ofInt_toInt]
    rfl
  · exact intersectOrdered_eq_none_iff

structure Exact (s1 s2 : Segment) (r : UInt64 × UInt64) : Prop where
  start : r.1.toNat = max s1.start.toNat s2.start.toNat
  stop : r.1.toNat + r.2.toNat = min s1.stop s2.stop

theorem exact_of_elements {s1 s2 : Segment} {r : UInt64 × UInt64} (hmeet : Meet s1 s2)
    (h : ∀ e, (r.1.toNat ≤ e ∧ e < r.1.toNat + r.2.toNat) ↔
      max s1.start.toNat s2.start.toNat ≤ e ∧ e < min s1.stop s2.stop) : Exact s1 s2 r := by
  have hmeet : max s1.start.toNat s2.start.toNat < min s1.stop s2.stop := hmeet
  refine ⟨?_, ?_⟩
  · have hfirst := h (max s1.start.toNat s2.start.toNat)
    have hown := h r.1.toNat
    omega
  · have hlast := h (min s1.stop s2.stop)
    have hlast' := h (min s1.stop s2.stop - 1)
    have hown := h (r.1.toNat + r.2.toNat)
    have hown' := h (r.1.toNat + r.2.toNat - 1)
    omega

/-- The smaller end comes out if it comes through its `int` and is the smaller `int`, too. -/
theorem cut_min_iff {e1 e2 b : Nat} (h1 : e1 < 18446744073709551616)
    (h2 : e2 < 18446744073709551616) (hb : b < min e1 e2) :
    (b < cut e1 ∧ cut (if signed e1 ≤ signed e2 then e1 else e2) = min e1 e2) ↔
      cut (min e1 e2) = min e1 e2 ∧ signed (min e1 e2) ≤ signed (max e1 e2) := by
  unfold cut signed
  rcases Nat.le_total e1 e2 with hle | hle
  · rw [Nat.min_eq_left hle] at hb ⊢
    rw [Nat.max_eq_right hle]
    split_ifs <;> omega
  · rw [Nat.min_eq_right hle] at hb ⊢
    rw [Nat.max_eq_left hle]
    split_ifs <;> omega

theorem toNat_sub_add_iff {x b : UInt64} {m : Nat} (hb : b.toNat < m)
    (hm : m < 18446744073709551616) : b.toNat + (x - b).toNat = m ↔ x.toNat = m := by
  have hx := x.toNat_lt
  rw [UInt64.toNat_sub]
  omega

/-- What is reported of segments that are not apart; their ends may have wrapped, and gone through
`int`s before. -/
theorem intersectOrdered_of_lt {e1 e2 : Nat}
    (he1 : (start1.toNat + len1.toNat) % 4294967296 = e1 % 4294967296)
    (he2 : (start2.toNat + len2.toNat) % 4294967296 = e2 % 4294967296)
    (hover : start2.toNat < cut e1) :
    ∃ x, intersectOrdered start1 len1 start2 len2 = some (start2, x - start2) ∧
      x.toNat = cut (if signed e1 ≤ signed e2 then e1 else e2) := by
  have hend1 : (start1 + len1).toNat % 4294967296 = e1 % 4294967296 := by
    rw [UInt64.toNat_add]
    omega
  have hend2 : (start2 + len2).toNat % 4294967296 = e2 % 4294967296 := by
    rw [UInt64.toNat_add]
    omega
  have hsome : ¬ofInt (toInt (start1 + len1)) ≤ start2 := by
    rw [le_iff_toNat_le, toNat_ofInt_toInt, cut_congr hend1]
    omega
  refine ⟨ofInt (if toInt (start1 + len1) ≤ toInt (start2 + len2) then toInt (start1 + len1)
    else toInt (start2 + len2)), ?_, ?_⟩
  · unfold intersectOrdered
    dsimp only
    rw [if_neg hsome]
  · rw [← signed_congr hend1, ← signed_congr hend2]
    by_cases hle : toInt (start1 + len1) ≤ toInt (start2 + len2)
    · rw [if_pos hle, if_pos ((toInt_le_iff _ _).mp hle), toNat_ofInt_toInt]
      exact cut_congr hend1
    · rw [if_neg hle, if_neg fun hle' => hle ((toInt_le_iff _ _).mpr hle'), toNat_ofInt_toInt]
      exact cut_congr hend2

theorem intersectOrdered_eq_some_iff {start1 len1 start2 len2 : UInt64} {e1 e2 : Nat}
    (he1 : e1 = start1.toNat + len1.toNat) (h1 : e1 < 18446744073709551616)
    (h2 : e2 < 18446744073709551616)
    (he2 : (start2.toNat + len2.toNat) % 4294967296 = e2 % 4294967296)
    (hb : start2.toNat < min e1 e2) :
    (∃ r, intersectOrdered start1 len1 start2 len2 = some r ∧ r.1 = start2 ∧
      r.1.toNat + r.2.toNat = min e1 e2) ↔
      cut (min e1 e2) = min e1 e2 ∧ signed (min e1 e2) ≤ signed (max e1 e2) := by
  rw [← cut_min_iff h1 h2 hb]
  constructor
  · rintro ⟨r, hr, -, hstop⟩
    have hlt : start2.toNat < cut e1 := by
      rw [he1]
      by_contra hle
      rw [intersectOrdered_eq_none_iff.mpr (Nat.not_lt.mp hle)] at hr
      cases hr
    obtain ⟨x, hx, hchosen⟩ := intersectOrdered_of_lt (by rw [he1]) he2 hlt
    obtain rfl := Option.some.inj (hx.symm.trans hr)
    rw [← hchosen]
    exact ⟨hlt, (toNat_sub_add_iff hb (by omega)).mp hstop⟩
  · rintro ⟨hlt, hmin⟩
    obtain ⟨x, hx, hchosen⟩ := intersectOrdered_of_lt (by rw [he1]) he2 hlt
    exact ⟨_, hx, rfl, (toNat_sub_add_iff hb (by omega)).mpr (hchosen.trans hmin)⟩

theorem fst_of_intersectOrdered {r : UInt64 × UInt64}
    (h : intersectOrdered start1 len1 start2 len2 = some r) : r.1 = start2 := by
  unfold intersectOrdered at h
  dsimp only at h
  by_cases hle : ofInt (toInt (start1 + len1)) ≤ start2
  · rw [if_pos hle] at h
    cases h
  · rw [if_neg hle] at h
    injection h with h
    rw [← h]

section

variable (h1 : s1.stop < 18446744073709551616) (h2 : s2.stop < 18446744073709551616)
  (hmeet : Meet s1 s2)

include h1 h2 hmeet

theorem exact_iff :
    (∃ r, intersectSegments s1.start s1.count s2.start s2.count = some r ∧ Exact s1 s2 r) ↔
      cut (min s1.stop s2.stop) = min s1.stop s2.stop ∧
        signed (min s1.stop s2.stop) ≤ signed (max s1.stop s2.stop) ∧
        (s2.start < s1.start → cut s1.start.toNat = s1.start.toNat) := by
  unfold Meet at hmeet
  unfold intersectSegments
  by_cases hswap : s2.start < s1.start
  · have hlt := lt_iff_toNat_lt.mp hswap
    have hcut := toNat_ofInt_toInt s1.start
    have hmod : ((ofInt (toInt s1.start)).toNat + (ofInt (toInt s1.count)).toNat) % 4294967296 =
        s1.stop % 4294967296 := by
      rw [hcut, toNat_ofInt_toInt, Nat.add_mod, cut_mod, cut_mod, ← Nat.add_mod]
      rfl
    have hmax := Nat.max_eq_left (Nat.le_of_lt hlt)
    rw [hmax] at hmeet
    rw [if_pos hswap, Nat.max_comm s1.stop, Nat.min_comm s1.stop]
    constructor
    · rintro ⟨r, hr, hexact⟩
      -- the start is reported as it has come through
      have hstart : r.1 = ofInt (toInt s1.start) := fst_of_intersectOrdered hr
      have hsame : cut s1.start.toNat = s1.start.toNat := by
        rw [← hcut, ← hstart, hexact.start, hmax]
      have hstop := hexact.stop
      rw [Nat.min_comm] at hstop
      obtain ⟨hinner, houter⟩ := (intersectOrdered_eq_some_iff rfl h2 h1 hmod (by
        rw [hcut, hsame, Nat.min_comm]
        exact hmeet)).mp ⟨r, hr, hstart, hstop⟩
      exact ⟨hinner, houter, fun _ => hsame⟩
    · rintro ⟨hinner, houter, hsame⟩
      have hsame := hsame hswap
      obtain ⟨r, hr, hstart, hstop⟩ := (intersectOrdered_eq_some_iff rfl h2 h1 hmod (by
        rw [hcut, hsame, Nat.min_comm]
        exact hmeet)).mpr ⟨hinner, houter⟩
      refine ⟨r, hr, ?_, ?_⟩
      · rw [hstart, hcut, hsame, hmax]
      · rw [hstop, Nat.min_comm]
        rfl
  · have hle := le_iff_toNat_le.mp (UInt64.not_lt.mp hswap)
    have hmax := Nat.max_eq_right hle
    rw [hmax] at hmeet
    have hiff := @intersectOrdered_eq_some_iff s1.start s1.count s2.start s2.count s1.stop s2.stop
      rfl h1 h2 rfl hmeet
    rw [if_neg hswap]
    constructor
    · rintro ⟨r, hr, hexact⟩
      obtain ⟨hinner, houter⟩ := hiff.mp ⟨r, hr, fst_of_intersectOrdered hr, hexact.stop⟩
      exact ⟨hinner, houter, fun h => absurd h hswap⟩
    · rintro ⟨hinner, houter, -⟩
      obtain ⟨r, hr, hstart, hstop⟩ := hiff.mpr ⟨hinner, houter⟩
      exact ⟨r, hr, by rw [hstart, hmax], hstop⟩

theorem held_iff :
    ((∃ r, intersectSegments s1.start s1.count s2.start s2.count = some r ∧ Exact s1 s2 r) ∧
      ∃ r, intersectSegments s2.start s2.count s1.start s1.count = some r ∧ Exact s2 s1 r) ↔
      Held s1 s2 := by
  have hmeet' : Meet s2 s1 := by
    unfold Meet
    rw [Nat.max_comm, Nat.min_comm]
    exact hmeet
  rw [exact_iff h1 h2 hmeet, exact_iff h2 h1 hmeet', Nat.min_comm s2.stop, Nat.max_comm s2.stop]
  constructor
  · rintro ⟨⟨hinner, houter, hstart⟩, -, -, hstart'⟩
    refine ⟨hinner, houter, fun hne => ?_⟩
    rcases Nat.lt_or_gt_of_ne hne with hlt | hlt
    · rw [Nat.max_eq_right (Nat.le_of_lt hlt)]
      exact hstart' (lt_iff_toNat_lt.mpr hlt)
    · rw [Nat.max_eq_left (Nat.le_of_lt hlt)]
      exact hstart (lt_iff_toNat_lt.mpr hlt)
  · rintro ⟨hinner, houter, hstart⟩
    refine ⟨⟨hinner, houter, fun hlt => ?_⟩, hinner, houter, fun hlt => ?_⟩
    · have hlt := lt_iff_toNat_lt.mp hlt
      have hcut := hstart (by omega)
      rwa [Nat.max_eq_left (Nat.le_of_lt hlt)] at hcut
    · have hlt := lt_iff_toNat_lt.mp hlt
      have hcut := hstart (by omega)
      rwa [Nat.max_eq_right (Nat.le_of_lt hlt)] at hcut

end

end

/-! ## All dimensions -/

structure Reports (c : Common) (d : Segment × Segment) : Prop where
  common : intersectSegments d.1.start d.1.count d.2.start d.2.count = some (c.offset, c.dims)
  rel1 : c.offsetRel1 = c.offset - d.1.start
  rel2 : c.offsetRel2 = c.offset - d.2.start

theorem intersectVolumes_eq_some_iff {ds : List (Segment × Segment)} {r : List Common} :
    intersectVolumes (ds.map Prod.fst) (ds.map Prod.snd) = some r ↔ Forall₂ Reports r ds := by
  induction ds generalizing r with
  | nil =>
    constructor
    · intro h
      injection h with h
      subst h
      exact .nil
    · intro h
      cases h
      rfl
  | cons d ds ih =>
    rw [map_cons, map_cons, intersectVolumes]
    cases hseg : intersectSegments d.1.start d.1.count d.2.start d.2.count with
    | none =>
      constructor
      · intro h
        cases h
      · intro h
        cases h with
        | cons hc _ =>
          rw [hc.common] at hseg
          cases hseg
    | some x =>
      cases hrest : intersectVolumes (ds.map Prod.fst) (ds.map Prod.snd) with
      | none =>
        constructor
        · intro h
          cases h
        · intro h
          cases h with
          | cons _ hr =>
            rw [ih.mpr hr] at hrest
            cases hrest
      | some rest =>
        constructor
        · intro h
          injection h with h
          subst h
          exact .cons ⟨hseg, rfl, rfl⟩ (ih.mp hrest)
        · intro h
          cases h with
          | @cons c _ r _ hc hr =>
            rw [ih.mpr hr] at hrest
            injection hrest with hrest
            have hx := hseg.symm.trans hc.common
            injection hx with hx
            obtain ⟨dims, offset, rel1, rel2⟩ := c
            obtain ⟨_, hrel1, hrel2⟩ := hc
            dsimp only at hx hrel1 hrel2
            rw [hrel1, hrel2, hrest, hx]
            rfl

theorem intersectVolumes_eq_none_iff {ds : List (Segment × Segment)} :
    intersectVolumes (ds.map Prod.fst) (ds.map Prod.snd) = none ↔ ∃ d ∈ ds, Apart d.1 d.2 := by
  induction ds with
  | nil =>
    constructor
    · intro h
      cases h
    · rintro ⟨d, hd, -⟩
      cases hd
  | cons d ds ih =>
    rw [map_cons, map_cons, intersectVolumes, exists_mem_cons_iff,
      ← intersectSegments_eq_none_iff]
    cases hseg : intersectSegments d.1.start d.1.count d.2.start d.2.count with
    | none => exact ⟨fun _ => Or.inl rfl, fun _ => rfl⟩
    | some x =>
      rw [← ih]
      cases hrest : intersectVolumes (ds.map Prod.fst) (ds.map Prod.snd) with
      | none => exact ⟨fun _ => Or.inr rfl, fun _ => rfl⟩
      | some rest =>
        constructor
        · intro h
          cases h
        · rintro (h | h) <;> cases h

def commonBox (ds : List (Segment × Segment)) : List Span :=
  ds.map fun d => ⟨max d.1.start.toNat d.2.start.toNat,
    min d.1.stop d.2.stop - max d.1.start.toNat d.2.start.toNat⟩

theorem contains_commonBox (ds : List (Segment × Segment)) (p : List Nat) :
    Contains (commonBox ds) p ↔
      Elements (ds.map Prod.fst) p ∧ Elements (ds.map Prod.snd) p := by
  unfold Elements
  induction ds generalizing p with
  | nil => exact ⟨fun h => ⟨h, h⟩, fun h => h.1⟩
  | cons d ds ih =>
    cases p with
    | nil =>
      constructor
      · intro h
        cases h
      · rintro ⟨h, -⟩
        cases h
    | cons x p =>
      have hspan : ∀ (a n : Nat), (Span.start ⟨a, n⟩ ≤ x ∧ x < Span.stop ⟨a, n⟩) ↔
          a ≤ x ∧ x < a + n := fun a n => Iff.rfl
      show Contains (_ :: commonBox ds) (x :: p) ↔ _
      rw [contains_cons, ih p, map_cons, map_cons, map_cons, map_cons,
        contains_cons, contains_cons, hspan]
      unfold Segment.span Segment.stop
      rw [hspan, hspan]
      constructor
      · rintro ⟨hx, h1, h2⟩
        exact ⟨⟨by omega, h1⟩, by omega, h2⟩
      · rintro ⟨⟨hx1, h1⟩, hx2, h2⟩
        exact ⟨by omega, h1, h2⟩

theorem meet_iff (ds : List (Segment × Segment)) :
    (∃ p, Elements (ds.map Prod.fst) p ∧ Elements (ds.map Prod.snd) p) ↔
      ∀ d ∈ ds, Meet d.1 d.2 := by
  constructor
  · rintro ⟨p, hp⟩
    have hp := (contains_commonBox ds p).mpr hp
    clear * - hp
    induction ds generalizing p with
    | nil => exact forall_mem_nil _
    | cons d ds ih =>
      cases hp with
      | cons hx hrest =>
        refine forall_mem_cons.mpr ⟨?_, ih _ hrest⟩
        have hx : max d.1.start.toNat d.2.start.toNat ≤ _ ∧
          _ < max d.1.start.toNat d.2.start.toNat +
          (min d.1.stop d.2.stop - max d.1.start.toNat d.2.start.toNat) := hx
        show max _ _ < min _ _
        omega
  · intro h
    refine ⟨ds.map fun d => max d.1.start.toNat d.2.start.toNat,
      (contains_commonBox ds _).mp ?_⟩
    rw [Contains, commonBox, forall₂_map_left_iff, forall₂_map_right_iff,
      forall₂_same]
    intro d hd
    have hlt : max d.1.start.toNat d.2.start.toNat < min d.1.stop d.2.stop := h d hd
    refine ⟨Nat.le_refl _, ?_⟩
    show max d.1.start.toNat d.2.start.toNat < max d.1.start.toNat d.2.start.toNat +
      (min d.1.stop d.2.stop - max d.1.start.toNat d.2.start.toNat)
    omega

theorem exact_of_reported {ds : List (Segment × Segment)} {r : List Common}
    (hmeet : ∀ d ∈ ds, Meet d.1 d.2) (hreports : Forall₂ Reports r ds)
    (h : ∀ p, Reported r p ↔ Elements (ds.map Prod.fst) p ∧ Elements (ds.map Prod.snd) p) :
    Forall₂ (fun c d => Exact d.1 d.2 (c.offset, c.dims)) r ds := by
  obtain ⟨p, hp⟩ := (meet_iff ds).mpr hmeet
  have hlen : (r.map fun c => (⟨c.offset.toNat, c.dims.toNat⟩ : Span)).length =
      (commonBox ds).length := by
    rw [length_map, commonBox, length_map, hreports.length_eq]
  have hbox := eq_of_contains_iff hlen ((h p).mpr hp) fun q =>
    (h q).trans (contains_commonBox ds q).symm
  clear h hreports hlen hp
  induction ds generalizing r with
  | nil =>
    obtain rfl := map_eq_nil_iff.mp hbox
    exact .nil
  | cons d ds ih =>
    cases r with
    | nil => cases hbox
    | cons c r =>
      obtain ⟨hd, hds⟩ := forall_mem_cons.mp hmeet
      have hd : max _ _ < min _ _ := hd
      rw [commonBox, map_cons, map_cons] at hbox
      injection hbox with hspan hbox
      injection hspan with hstart hcount
      refine .cons ⟨hstart, ?_⟩ (ih hds hbox)
      show c.offset.toNat + c.dims.toNat = _
      omega

theorem reported_of_exact {ds : List (Segment × Segment)} {r : List Common}
    (h : Forall₂ (fun c d => Exact d.1 d.2 (c.offset, c.dims)) r ds) :
    (r.map fun c => (⟨c.offset.toNat, c.dims.toNat⟩ : Span)) = commonBox ds := by
  induction h with
  | nil => rfl
  | @cons c d r ds hexact _ ih =>
    obtain ⟨hstart, hstop⟩ := hexact
    dsimp only at hstart hstop
    have hcount : c.dims.toNat =
        min d.1.stop d.2.stop - max d.1.start.toNat d.2.start.toNat := by omega
    rw [map_cons, ih, hstart, hcount]
    rfl

theorem exists_of_held {d : Segment × Segment} (h1 : d.1.stop < 18446744073709551616)
    (h2 : d.2.stop < 18446744073709551616) (hmeet : Meet d.1 d.2) (h : Held d.1 d.2) :
    ∃ c, Reports c d ∧ Reports c.swap (d.2, d.1) ∧ Exact d.1 d.2 (c.offset, c.dims) := by
  obtain ⟨⟨r, hr, hexact⟩, r', hr', hexact'⟩ := (held_iff h1 h2 hmeet).mpr h
  have hstart := hexact.start
  have hstart' := hexact'.start
  have hstop := hexact.stop
  have hstop' := hexact'.stop
  rw [Nat.max_comm] at hstart'
  rw [Nat.min_comm] at hstop'
  have hfst : r'.1 = r.1 := UInt64.toNat_inj.mp (by omega)
  have hsnd : r'.2 = r.2 := UInt64.toNat_inj.mp (by omega)
  have hsame : r' = r := Prod.ext hfst hsnd
  rw [hsame] at hr'
  exact ⟨⟨r.2, r.1, r.1 - d.1.start, r.1 - d.2.start⟩, ⟨hr, rfl, rfl⟩, ⟨hr', rfl, rfl⟩, hexact⟩

namespace Volumes

variable (v : Volumes)

theorem exists_of_held (h : ∀ d ∈ v.dims, Meet d.1 d.2 ∧ Held d.1 d.2) :
    ∃ r, Forall₂ (fun c d => Reports c d ∧ Reports c.swap (d.2, d.1) ∧
      Exact d.1 d.2 (c.offset, c.dims)) r v.dims := by
  have hends := v.ends
  generalize v.dims = ds at h hends
  induction ds with
  | nil => exact ⟨[], .nil⟩
  | cons d ds ih =>
    obtain ⟨hd, hds⟩ := forall_mem_cons.mp h
    obtain ⟨hend, hends⟩ := forall_mem_cons.mp hends
    obtain ⟨r, hr⟩ := ih hds hends
    obtain ⟨c, hc⟩ := Subvolume.exists_of_held hend.1 hend.2 hd.1 hd.2
    exact ⟨c :: r, .cons hc hr⟩

variable {ds : List (Segment × Segment)}

theorem swapped_eq_some_iff {r : List Common} :
    intersectVolumes (ds.map Prod.snd) (ds.map Prod.fst) = some r ↔
      Forall₂ (fun c d => Reports c (d.2, d.1)) r ds := by
  have h := @intersectVolumes_eq_some_iff (ds.map Prod.swap) r
  rw [map_map, map_map, forall₂_map_right_iff] at h
  exact h

theorem swapped_eq_none_iff :
    intersectVolumes (ds.map Prod.snd) (ds.map Prod.fst) = none ↔ ∃ d ∈ ds, Apart d.2 d.1 := by
  have h := @intersectVolumes_eq_none_iff (ds.map Prod.swap)
  rw [map_map, map_map] at h
  refine h.trans ⟨?_, ?_⟩
  · rintro ⟨_, hmem, happart⟩
    obtain ⟨d, hd, rfl⟩ := mem_map.mp hmem
    exact ⟨d, hd, happart⟩
  · rintro ⟨d, hd, happart⟩
    exact ⟨d.swap, mem_map.mpr ⟨d, hd, rfl⟩, happart⟩

theorem intersects_of_held (h : ∀ d ∈ v.dims, Meet d.1 d.2 ∧ Held d.1 d.2) : v.Intersects := by
  obtain ⟨r, hr⟩ := v.exists_of_held h
  have hmeet : ∀ d ∈ v.dims, Meet d.1 d.2 := fun d hd => (h d hd).1
  have hresult : intersectVolumes v.vol1 v.vol2 = some r :=
    intersectVolumes_eq_some_iff.mpr (hr.imp fun c d hcd => hcd.1)
  refine ⟨?_, fun r' hr' p => ?_, fun r' hr' => ?_, ?_⟩
  · rw [hresult]
    exact ⟨fun _ => (meet_iff v.dims).mpr hmeet, fun _ => rfl⟩
  · rw [hresult] at hr'
    injection hr' with hr'
    subst hr'
    rw [Reported, reported_of_exact (hr.imp fun c d hcd => hcd.2.2)]
    exact contains_commonBox v.dims p
  · rw [hresult] at hr'
    injection hr' with hr'
    subst hr'
    refine hr.imp fun c d hcd => ?_
    obtain ⟨⟨-, hrel1, hrel2⟩, -, hexact⟩ := hcd
    have hstart : c.offset.toNat = max d.1.start.toNat d.2.start.toNat := hexact.start
    have hlt := c.offset.toNat_lt
    rw [hrel1, hrel2, UInt64.toNat_sub, UInt64.toNat_sub]
    omega
  · rw [hresult]
    refine swapped_eq_some_iff.mpr ?_
    rw [forall₂_map_left_iff]
    exact hr.imp fun c d hcd => hcd.2.1

theorem intersects_of_apart (hnot : ∃ d ∈ v.dims, ¬Meet d.1 d.2)
    (h : ∃ d ∈ v.dims, Apart d.1 d.2) (h' : ∃ d ∈ v.dims, Apart d.2 d.1) : v.Intersects := by
  have hresult : intersectVolumes v.vol1 v.vol2 = none := intersectVolumes_eq_none_iff.mpr h
  refine ⟨?_, fun r hr => ?_, fun r hr => ?_, ?_⟩
  · rw [hresult]
    refine ⟨fun hsome => (by cases hsome), fun hp => ?_⟩
    obtain ⟨d, hd, hnot⟩ := hnot
    exact absurd ((meet_iff v.dims).mp hp d hd) hnot
  · rw [hresult] at hr
    cases hr
  · rw [hresult] at hr
    cases hr
  · rw [hresult]
    exact swapped_eq_none_iff.mpr h'

structure RightOrder (ds : List (Segment × Segment)) : Prop where
  overlap : (intersectVolumes (ds.map Prod.fst) (ds.map Prod.snd)).isSome = true ↔
    ∃ p, Elements (ds.map Prod.fst) p ∧ Elements (ds.map Prod.snd) p
  common (r : List Common) (h : intersectVolumes (ds.map Prod.fst) (ds.map Prod.snd) = some r)
    (p : List Nat) : Reported r p ↔ Elements (ds.map Prod.fst) p ∧ Elements (ds.map Prod.snd) p

theorem map_fst_swap (ds : List (Segment × Segment)) :
    (ds.map Prod.swap).map Prod.fst = ds.map Prod.snd := by
  rw [map_map]
  rfl

theorem map_snd_swap (ds : List (Segment × Segment)) :
    (ds.map Prod.swap).map Prod.snd = ds.map Prod.fst := by
  rw [map_map]
  rfl

theorem RightOrder.exact {ds : List (Segment × Segment)} (h : RightOrder ds)
    (hmeet : ∀ d ∈ ds, Meet d.1 d.2) : ∀ d ∈ ds, ∃ x,
      intersectSegments d.1.start d.1.count d.2.start d.2.count = some x ∧ Exact d.1 d.2 x := by
  obtain ⟨r, hr⟩ := Option.isSome_iff_exists.mp (h.overlap.mpr ((meet_iff ds).mpr hmeet))
  have hreports := intersectVolumes_eq_some_iff.mp hr
  have hexact := exact_of_reported hmeet hreports (h.common r hr)
  exact forall_of_forall₂ (Forall₂.mp
    (fun c d hc hx => ⟨(c.offset, c.dims), hc.common, hx⟩) hreports hexact)

theorem RightOrder.eq_none (h : RightOrder ds) (hmeet : ¬∀ d ∈ ds, Meet d.1 d.2) :
    ∃ d ∈ ds, Apart d.1 d.2 := by
  refine intersectVolumes_eq_none_iff.mp ?_
  rw [← Option.not_isSome_iff_eq_none]
  exact fun hsome => hmeet ((meet_iff ds).mp (h.overlap.mp hsome))

theorem Intersects.rightOrder (h : v.Intersects) : RightOrder v.dims := ⟨h.overlap, h.common⟩

theorem Intersects.rightOrder_swap (h : v.Intersects) : RightOrder (v.dims.map Prod.swap) := by
  have hsymm : intersectVolumes (v.dims.map Prod.snd) (v.dims.map Prod.fst) =
    (intersectVolumes v.vol1 v.vol2).map (List.map Common.swap) := h.symm
  have hcomm : ∀ p, Elements (v.dims.map Prod.snd) p ∧ Elements (v.dims.map Prod.fst) p ↔
    Elements v.vol1 p ∧ Elements v.vol2 p := fun p => And.comm
  refine ⟨?_, fun r hr p => ?_⟩
  · rw [map_fst_swap, map_snd_swap, hsymm, Option.isSome_map]
    exact h.overlap.trans (exists_congr fun p => (hcomm p).symm)
  · rw [map_fst_swap, map_snd_swap, hsymm] at hr
    obtain ⟨r', hr', rfl⟩ := Option.map_eq_some_iff.mp hr
    rw [map_fst_swap, map_snd_swap, hcomm, ← h.common r' hr' p, Reported, map_map]
    exact Iff.rfl

theorem rightOrders_iff :
    RightOrder v.dims ∧ RightOrder (v.dims.map Prod.swap) ↔ v.Clear := by
  constructor
  · rintro ⟨h, h'⟩
    by_cases hmeet : ∀ d ∈ v.dims, Meet d.1 d.2
    · left
      have hmeet' : ∀ d ∈ v.dims.map Prod.swap, Meet d.1 d.2 := by
        rintro _ hmem
        obtain ⟨d, hd, rfl⟩ := mem_map.mp hmem
        have hlt := hmeet d hd
        unfold Meet at hlt ⊢
        rw [Nat.max_comm, Nat.min_comm]
        exact hlt
      intro d hd
      have hend := v.ends d hd
      have hexact := h.exact hmeet d hd
      have hexact' := h'.exact hmeet' d.swap (mem_map_of_mem hd)
      exact ⟨hmeet d hd, (held_iff hend.1 hend.2 (hmeet d hd)).mp ⟨hexact, hexact'⟩⟩
    · right
      have hnot : ∃ d ∈ v.dims, ¬Meet d.1 d.2 := by
        by_contra hall
        exact hmeet fun d hd => by_contra fun hd' => hall ⟨d, hd, hd'⟩
      obtain ⟨d, hd, hd'⟩ := hnot
      obtain ⟨e, he, happart⟩ := h'.eq_none fun hall => by
        have hlt := hall d.swap (mem_map_of_mem hd)
        unfold Meet at hlt hd'
        rw [Nat.max_comm, Nat.min_comm] at hlt
        exact hd' hlt
      obtain ⟨e', he', rfl⟩ := mem_map.mp he
      exact ⟨⟨d, hd, hd'⟩, h.eq_none hmeet, e', he', happart⟩
  · rintro (h | ⟨hnot, h, h'⟩)
    · have hv := v.intersects_of_held h
      exact ⟨hv.rightOrder, hv.rightOrder_swap⟩
    · have hv := v.intersects_of_apart hnot h h'
      exact ⟨hv.rightOrder, hv.rightOrder_swap⟩

/-! ## One order -/

structure HeldInOrder (s1 s2 : Segment) : Prop where
  inner : cut (min s1.stop s2.stop) = min s1.stop s2.stop
  outer : signed (min s1.stop s2.stop) ≤ signed (max s1.stop s2.stop)
  start : s2.start < s1.start → cut s1.start.toNat = s1.start.toNat

def ClearInOrder (v : Volumes) : Prop :=
  (∀ d ∈ v.dims, Meet d.1 d.2 ∧ HeldInOrder d.1 d.2) ∨
    (∃ d ∈ v.dims, ¬Meet d.1 d.2) ∧ ∃ d ∈ v.dims, Apart d.1 d.2

theorem exists_of_heldInOrder
    (hends : ∀ d ∈ ds, d.1.stop < 18446744073709551616 ∧ d.2.stop < 18446744073709551616)
    (h : ∀ d ∈ ds, Meet d.1 d.2 ∧ HeldInOrder d.1 d.2) :
    ∃ r, Forall₂ (fun c d => Reports c d ∧ Exact d.1 d.2 (c.offset, c.dims)) r ds := by
  induction ds with
  | nil => exact ⟨[], .nil⟩
  | cons d ds ih =>
    obtain ⟨⟨hmeet, hinner, houter, hstart⟩, hds⟩ := forall_mem_cons.mp h
    obtain ⟨⟨hend1, hend2⟩, hends⟩ := forall_mem_cons.mp hends
    obtain ⟨r, hr⟩ := ih hends hds
    obtain ⟨x, hx, hexact⟩ := (exact_iff hend1 hend2 hmeet).mpr ⟨hinner, houter, hstart⟩
    exact ⟨⟨x.2, x.1, x.1 - d.1.start, x.1 - d.2.start⟩ :: r, .cons ⟨⟨hx, rfl, rfl⟩, hexact⟩ hr⟩

theorem rightOrder_iff : RightOrder v.dims ↔ v.ClearInOrder := by
  constructor
  · intro h
    by_cases hmeet : ∀ d ∈ v.dims, Meet d.1 d.2
    · refine .inl fun d hd => ⟨hmeet d hd, ?_⟩
      have hend := v.ends d hd
      obtain ⟨hinner, houter, hstart⟩ :=
        (exact_iff hend.1 hend.2 (hmeet d hd)).mp (h.exact hmeet d hd)
      exact ⟨hinner, houter, hstart⟩
    · refine .inr ⟨?_, h.eq_none hmeet⟩
      by_contra hall
      exact hmeet fun d hd => by_contra fun hd' => hall ⟨d, hd, hd'⟩
  · rintro (h | ⟨⟨d, hd, hnot⟩, happart⟩)
    · obtain ⟨r, hr⟩ := exists_of_heldInOrder v.ends h
      have hresult := intersectVolumes_eq_some_iff.mpr (hr.imp fun c d hcd => hcd.1)
      refine ⟨?_, fun r' hr' p => ?_⟩
      · rw [hresult]
        exact ⟨fun _ => (meet_iff v.dims).mpr fun d hd => (h d hd).1, fun _ => rfl⟩
      · rw [hresult] at hr'
        injection hr' with hr'
        subst hr'
        rw [Reported, reported_of_exact (hr.imp fun c d hcd => hcd.2)]
        exact contains_commonBox v.dims p
    · have hresult := intersectVolumes_eq_none_iff.mpr happart
      refine ⟨?_, fun r hr => ?_⟩
      · rw [hresult]
        exact ⟨fun hsome => (by cases hsome), fun hp => absurd ((meet_iff v.dims).mp hp d hd) hnot⟩
      · rw [hresult] at hr
        cases hr

/-- **Intersections.** They are right exactly when the numbers come through. -/
theorem volumesIntersect_iff : v.Intersects ↔ v.Clear := by
  constructor
  · intro h
    exact v.rightOrders_iff.mp ⟨h.rightOrder, h.rightOrder_swap⟩
  · rintro (h | ⟨hnot, h, h'⟩)
    · exact v.intersects_of_held h
    · exact v.intersects_of_apart hnot h h'

def elementWithin : Volumes where
  dims := [(⟨0, 4294967296⟩, ⟨1, 1⟩)]
  ndim := cons_ne_nil _ _
  ends := by decide

theorem not_intersects_elementWithin : ¬elementWithin.Intersects := by
  intro h
  have hmeet : ∀ d ∈ elementWithin.dims, Meet d.1 d.2 := by unfold Meet; decide
  have hsome := h.overlap.mpr ((meet_iff elementWithin.dims).mpr hmeet)
  revert hsome
  decide

end Volumes

end Adios.Subvolume
