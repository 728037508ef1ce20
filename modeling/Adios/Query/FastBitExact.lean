import Adios.Query.FastBitLanding

/-!
# Adios — the bit slice of a leaf is exact

The slice has exactly the bits of the elements that satisfy the comparison when the hits arrive. In
a step whose blocks the code finds they do if and only if they are all in blocks that are gone
through.
-/

namespace Adios.FastBit.Input

open List UInt64

/-! ## All hits -/

theorem evaluateBlocks_eq {l : Leaf} {hits : Nat → List UInt64}
    (hhandle : ∀ b, l.handle b = some (hits b)) (bs : List Nat) (bits : List UInt16) :
    l.evaluateBlocks bs bits =
      ((bs.flatMap fun b => (hits b).map (b, ·)).foldlM (Lists.mark 1 .outOfBounds l.entry)
        bits).map .slice := by
  induction bs generalizing bits with
  | nil => rfl
  | cons b bs ih =>
    rw [Leaf.evaluateBlocks, hhandle, flatMap_cons, foldlM_append]
    show (l.setHits b (hits b) bits >>= _) = _
    unfold Leaf.setHits
    cases hrun : ((hits b).map (b, ·)).foldlM (Lists.mark 1 .outOfBounds l.entry) bits with
    | error e => rfl
    | ok next => exact ih next

def hitsBetween (q : Input) (first last : Nat) : List (Nat × UInt64) :=
  (List.range' first (last + 1 - first)).flatMap fun b => (q.hits b).map (b, ·)

section Slice

variable {q : Input} {first last : Nat}

variable {b : Nat} {k : UInt64}

theorem mem_hitsBetween (hvisited : ∀ b, q.Visited b ↔ first ≤ b ∧ b ≤ last) :
    (b, k) ∈ q.hitsBetween first last ↔ q.Visited b ∧ q.Hit b k.toNat := by
  have hrange : b ∈ List.range' first (last + 1 - first) ↔ q.Visited b := by
    rw [mem_range'_1, hvisited]
    omega
  unfold hitsBetween
  rw [mem_flatMap]
  constructor
  · rintro ⟨b', hb', hmem⟩
    obtain ⟨k', hk', heq⟩ := mem_map.mp hmem
    cases heq
    have hb := hrange.mp hb'
    exact ⟨hb, (mem_hits_iff (lt_length_of_visited hb)).mp hk'⟩
  · rintro ⟨hb, hit⟩
    exact ⟨b, hrange.mpr hb,
      mem_map_of_mem ((mem_hits_iff (lt_length_of_visited hb)).mpr hit)⟩

theorem exists_position {k : Nat} (hit : q.Hit b k) : ∃ k' : UInt64, k'.toNat = k := by
  have hlt := lt_of_hit hit
  have hsize : k < UInt64.size := Nat.lt_trans hlt.1 (Nat.lt_trans hlt.2 (by decide))
  exact ⟨UInt64.ofNat k, toNat_ofNat_of_lt hsize⟩

theorem evaluate_of_blockRange (hrange : q.leaf.blockRange = (↑first, ↑last)) (hle : first ≤ last)
    (hsize : q.size ≠ 0) :
    evaluateWithIdxOnBoundingBox q.leaf =
      if 2147483647 < q.size then .error .signedOverflow
      else ((q.hitsBetween first last).foldlM (Lists.mark 1 .outOfBounds q.leaf.entry)
        (List.replicate q.size 0)).map .slice := by
  have hdata := q.rawDataSize_toNat
  have hzero : q.leaf.rawDataSize ≠ 0 := by
    intro h
    have hnat : q.rawDataSize.toNat = 0 := congrArg UInt64.toNat h
    exact hsize (hdata ▸ hnat)
  have hbig : 2147483647 < q.leaf.rawDataSize ↔ 2147483647 < q.size := by
    rw [← hdata]
    exact lt_iff_toNat_lt
  have hreach : ¬((first : Int) < 0 ∨ (last : Int) < 0 ∨ (first : Int) > last) := by omega
  unfold evaluateWithIdxOnBoundingBox
  rw [hrange]
  simp only []
  rw [if_neg hzero, if_neg hreach]
  simp only [hbig]
  split_ifs
  · rfl
  · rw [evaluateBlocks_eq fun b => rfl, ← hdata]
    rfl

theorem evaluate_of_not_visited (hvisited : ∀ b, ¬q.Visited b) (hsize : q.size ≠ 0) :
    evaluateWithIdxOnBoundingBox q.leaf = .ok .refused := by
  have hdata := q.rawDataSize_toNat
  have hzero : q.leaf.rawDataSize ≠ 0 := by
    intro h
    have hnat : q.rawDataSize.toNat = 0 := congrArg UInt64.toNat h
    exact hsize (hdata ▸ hnat)
  unfold evaluateWithIdxOnBoundingBox
  obtain ⟨first, last, hrange, hle, hiff⟩ | ⟨hrefuse, _⟩ := q.blockRange_cases
  · exact absurd ((hiff first).mpr ⟨Nat.le_refl _, hle⟩) (hvisited first)
  · simp only []
    rw [if_neg hzero, if_pos hrefuse]

theorem evaluate_of_size_zero (hsize : q.size = 0) :
    evaluateWithIdxOnBoundingBox q.leaf = .ok .noElements := by
  have hzero : q.leaf.rawDataSize = 0 := by
    refine UInt64.toNat_inj.mp ?_
    exact q.rawDataSize_toNat.trans hsize
  unfold evaluateWithIdxOnBoundingBox
  simp only []
  rw [if_pos hzero]

theorem exact_of_eq {bits : List UInt16}
    (h : evaluateWithIdxOnBoundingBox q.leaf = .ok (.slice bits)) :
    q.Exact ↔ bits.length = q.size ∧ ∀ p < q.size,
      bits[p]? = some (if q.satisfies (Grid.elementAt q.selection p) then 1 else 0) := by
  rw [Exact, h]

theorem not_exact_of_error {e : Fault} (h : evaluateWithIdxOnBoundingBox q.leaf = .error e) :
    ¬q.Exact := by
  rw [Exact, h]
  exact not_false

theorem markable_iff (hit : q.Hit b k.toNat) (hsize : q.size ≤ 2147483647) :
    Lists.Markable q.leaf.entry q.size (b, k) ↔
      q.landing b k.toNat = .outside ∨ ∃ p < q.size, q.landing b k.toNat = .entry p := by
  have hentry := entry_landing hit hsize
  unfold Lists.Markable
  cases hlanding : q.landing b k.toNat with
  | fault =>
    rw [hlanding] at hentry
    obtain ⟨e, he⟩ := hentry
    rw [he]
    simp
  | outside =>
    rw [hlanding] at hentry
    exact iff_of_true (.inl hentry) (.inl rfl)
  | entry p =>
    rw [hlanding] at hentry
    have hsome : q.leaf.entry (b, k) = .ok (some p) := hentry
    rw [hsome]
    simp

theorem entry_eq_iff (hit : q.Hit b k.toNat) (hsize : q.size ≤ 2147483647) (p : Nat) :
    q.leaf.entry (b, k) = .ok (some p) ↔ q.landing b k.toNat = .entry p := by
  have hentry := entry_landing hit hsize
  cases hlanding : q.landing b k.toNat with
  | fault =>
    rw [hlanding] at hentry
    obtain ⟨e, he⟩ := hentry
    rw [he]
    simp
  | outside =>
    rw [hlanding] at hentry
    have hnone : q.leaf.entry (b, k) = .ok none := hentry
    rw [hnone]
    simp
  | entry p' =>
    rw [hlanding] at hentry
    have hsome : q.leaf.entry (b, k) = .ok (some p') := hentry
    rw [hsome]
    simp

theorem evaluate_slice (hrange : q.leaf.blockRange = (↑first, ↑last)) (hle : first ≤ last)
    (hvisited : ∀ b, q.Visited b ↔ first ≤ b ∧ b ≤ last) (hsize : q.size ≠ 0)
    (hsmall : q.size ≤ 2147483647)
    (hland : ∀ b k, q.Visited b → q.Hit b k →
      q.landing b k = .outside ∨ ∃ p < q.size, q.landing b k = .entry p) :
    ∃ bits, evaluateWithIdxOnBoundingBox q.leaf = .ok (.slice bits) ∧ bits.length = q.size ∧
      ∀ p < q.size,
        ((∃ b k, q.Visited b ∧ q.Hit b k ∧ q.landing b k = .entry p) → bits[p]? = some 1) ∧
        ((∀ b k, q.Visited b → q.Hit b k → q.landing b k ≠ .entry p) → bits[p]? = some 0) := by
  have hmarkable : ∀ x ∈ q.hitsBetween first last,
      Lists.Markable q.leaf.entry (List.replicate q.size (0 : UInt16)).length x := by
    rintro ⟨b, k⟩ hmem
    obtain ⟨hb, hit⟩ := (mem_hitsBetween hvisited).mp hmem
    rw [length_replicate]
    exact (markable_iff hit hsmall).mpr (hland b k.toNat hb hit)
  obtain ⟨bits, hrun, hlen, hentries⟩ :=
    @Lists.foldlM_mark_of_markable _ _ _ (1 : UInt16) Fault.outOfBounds _ _ _ hmarkable
  rw [length_replicate] at hlen hentries
  refine ⟨bits, ?_, hlen, fun p hp => ⟨?_, fun hnone => ?_⟩⟩
  · rw [evaluate_of_blockRange hrange hle hsize, if_neg (Nat.not_lt.mpr hsmall), hrun]
    rfl
  · rintro ⟨b, k, hb, hit, hlanding⟩
    obtain ⟨k', rfl⟩ := exists_position hit
    exact (hentries p hp).1 ⟨(b, k'), (mem_hitsBetween hvisited).mpr ⟨hb, hit⟩,
      (entry_eq_iff hit hsmall p).mpr hlanding⟩
  · rw [(hentries p hp).2 ?_, getElem?_replicate_of_lt hp]
    rintro ⟨b, k⟩ hmem heq
    obtain ⟨hb, hit⟩ := (mem_hitsBetween hvisited).mp hmem
    exact hnone b k.toNat hb hit ((entry_eq_iff hit hsmall p).mp heq)

theorem Arrive.lands (h : q.Arrive) {k : Nat} (hb : q.Visited b) (hit : q.Hit b k) :
    q.landing b k = .outside ∨ ∃ p < q.size, q.landing b k = .entry p ∧
      q.satisfies (Grid.elementAt q.selection p) = true := by
  by_cases hhome : q.landing b k = q.home b k
  · rw [hhome]
    cases hcase : q.home b k with
    | fault => exact absurd hcase (home_ne_fault hit)
    | outside => exact .inl rfl
    | entry p =>
      obtain ⟨hp, hsat⟩ := home_eq_entry hit hcase
      exact .inr ⟨p, hp, rfl, hsat⟩
  · exact h.strays b k hb hit hhome

theorem Arrive.exists_lands (h : q.Arrive) {p : Nat} (hp : p < q.size)
    (hsat : q.satisfies (Grid.elementAt q.selection p) = true) :
    ∃ b k, q.Visited b ∧ q.Hit b k ∧ q.landing b k = .entry p := by
  obtain ⟨b, k, hit, hhome⟩ := exists_hit hp hsat
  by_cases hown : q.Visited b ∧ q.landing b k = .entry p
  · exact ⟨b, k, hown.1, hit, hown.2⟩
  · exact h.missed b k p hit hhome hown

section

variable (hrange : q.leaf.blockRange = (↑first, ↑last)) (hle : first ≤ last)
  (hvisited : ∀ b, q.Visited b ↔ first ≤ b ∧ b ≤ last) (hsize : q.size ≠ 0)

include hrange hle hvisited hsize

theorem exact_of_arrive (h : q.Arrive) :
    q.Exact := by
  obtain ⟨bits, hrun, hlen, hentries⟩ := evaluate_slice hrange hle hvisited hsize h.size_le
    fun b k hb hit => (h.lands hb hit).imp_right fun ⟨p, hp, hlanding, _⟩ => ⟨p, hp, hlanding⟩
  refine (exact_of_eq hrun).mpr ⟨hlen, fun p hp => ?_⟩
  by_cases hsat : q.satisfies (Grid.elementAt q.selection p) = true
  · rw [if_pos hsat]
    exact (hentries p hp).1 (h.exists_lands hp hsat)
  · rw [if_neg hsat]
    refine (hentries p hp).2 fun b k hb hit hlanding => ?_
    obtain hout | ⟨p', _, hentry, hsat'⟩ := h.lands hb hit
    · rw [hlanding] at hout
      cases hout
    · rw [hlanding] at hentry
      cases hentry
      exact hsat hsat'

theorem arrive_of_exact (h : q.Exact) :
    q.Arrive := by
  have hsmall : q.size ≤ 2147483647 := by
    by_contra hbig
    refine not_exact_of_error (e := .signedOverflow) ?_ h
    exact (evaluate_of_blockRange hrange hle hsize).trans (if_pos (Nat.lt_of_not_le hbig))
  have hland : ∀ b k, q.Visited b → q.Hit b k →
      q.landing b k = .outside ∨ ∃ p < q.size, q.landing b k = .entry p := by
    intro b k hb hit
    by_contra hbad
    obtain ⟨k', rfl⟩ := exists_position hit
    -- one hit that cannot be stored ends the loop
    obtain ⟨e, he⟩ := @Lists.foldlM_mark_of_not_markable _ _ _ (1 : UInt16) Fault.outOfBounds
      q.leaf.entry (List.replicate q.size 0) (q.hitsBetween first last)
      ⟨(b, k'), (mem_hitsBetween hvisited).mpr ⟨hb, hit⟩, by
        rw [length_replicate, markable_iff hit hsmall]
        exact hbad⟩
    refine not_exact_of_error (e := e) ?_ h
    rw [evaluate_of_blockRange hrange hle hsize, if_neg (Nat.not_lt.mpr hsmall), he]
    rfl
  obtain ⟨bits, hrun, hlen, hentries⟩ := evaluate_slice hrange hle hvisited hsize hsmall hland
  obtain ⟨_, hexact⟩ := (exact_of_eq hrun).mp h
  refine ⟨hsmall, fun b k hb hit _ => ?_, fun b k p hit hhome _ => ?_⟩
  · refine (hland b k hb hit).imp_right fun ⟨p, hp, hlanding⟩ => ⟨p, hp, hlanding, ?_⟩
    have hone := (hentries p hp).1 ⟨b, k, hb, hit, hlanding⟩
    by_contra hsat
    rw [hexact p hp, if_neg hsat] at hone
    cases hone
  · obtain ⟨hp, hsat⟩ := home_eq_entry hit hhome
    by_contra hnone
    have hzero := (hentries p hp).2 fun b' k' hb' hit' hlanding =>
      hnone ⟨b', k', hb', hit', hlanding⟩
    rw [hexact p hp, if_pos hsat] at hzero
    cases hzero

end

end Slice

/-- The slice is exact when nothing is selected, when no block is gone through (then none is built
and -1 returned), or when the hits arrive. -/
theorem bitSliceExact_iff (q : Input) : q.Exact ↔ q.size = 0 ∨ (∀ b, ¬q.Visited b) ∨ q.Arrive := by
  by_cases hsize : q.size = 0
  · refine iff_of_true ?_ (.inl hsize)
    rw [Exact, evaluate_of_size_zero hsize]
    trivial
  · obtain ⟨first, last, hrange, hle, hvisited⟩ | ⟨_, hnone⟩ := q.blockRange_cases
    · constructor
      · intro h
        exact .inr (.inr (arrive_of_exact hrange hle hvisited hsize h))
      · rintro (hzero | hnone | harrive)
        · exact absurd hzero hsize
        · exact absurd ((hvisited first).mpr ⟨Nat.le_refl _, hle⟩) (hnone first)
        · exact exact_of_arrive hrange hle hvisited hsize harrive
    · refine iff_of_true ?_ (.inr (.inl hnone))
      rw [Exact, evaluate_of_not_visited hnone hsize]
      trivial

def rowBlocks : List BoundingBox := [⟨[0], [1], rfl⟩, ⟨[2], [1], rfl⟩, ⟨[1], [1], rfl⟩]

theorem rowBlocks_getElem? {i x : Nat}
    (h : ∃ box, (rowBlocks.map (layout false))[i]? = some box ∧ Grid.Contains box [x]) :
    [0, 2, 1][i]? = some x := by
  obtain ⟨box, hbox, hin⟩ := h
  obtain rfl | rfl | rfl | hi : i = 0 ∨ i = 1 ∨ i = 2 ∨ 3 ≤ i := by omega
  · cases hbox
    have hx := (Grid.contains_cons.mp hin).1
    have hzero : x = 0 := by
      have hlt : x < 1 := hx.2
      omega
    rw [hzero]
    rfl
  · cases hbox
    have hx := (Grid.contains_cons.mp hin).1
    have htwo : x = 2 := by
      have hle : 2 ≤ x := hx.1
      have hlt : x < 3 := hx.2
      omega
    rw [htwo]
    rfl
  · cases hbox
    have hx := (Grid.contains_cons.mp hin).1
    have hone : x = 1 := by
      have hle : 1 ≤ x := hx.1
      have hlt : x < 2 := hx.2
      omega
    rw [hone]
    rfl
  · rw [getElem?_eq_none hi] at hbox
    cases hbox

theorem rowBlocks_decomposes : Grid.Decomposes [3] (rowBlocks.map (layout false)) where
  inside := by
    intro box hbox
    obtain rfl | rfl | rfl : box = [⟨0, 1⟩] ∨ box = [⟨2, 1⟩] ∨ box = [⟨1, 1⟩] := by
      simpa [rowBlocks, layout, spans, slices] using hbox
    · exact .cons (by decide) .nil
    · exact .cons (by decide) .nil
    · exact .cons (by decide) .nil
  existsUnique := by
    intro p hp
    cases hp with
    | @cons x _ _ _ hx hnil =>
      cases hnil
      have hunique {i j : Nat} (hi : [0, 2, 1][i]? = some x) (hj : [0, 2, 1][j]? = some x) :
          j = i := by
        have hlt := (List.getElem?_eq_some_iff.mp hj).1
        exact (getElem?_inj hlt (by decide)).mp (hj.trans hi.symm)
      obtain rfl | rfl | rfl : x = 0 ∨ x = 1 ∨ x = 2 := by omega
      · exact ⟨0, ⟨_, rfl, by decide⟩, fun j hj => hunique rfl (rowBlocks_getElem? hj)⟩
      · exact ⟨2, ⟨_, rfl, by decide⟩, fun j hj => hunique rfl (rowBlocks_getElem? hj)⟩
      · exact ⟨1, ⟨_, rfl, by decide⟩, fun j hj => hunique rfl (rowBlocks_getElem? hj)⟩

def rowInput : Input where
  fortran := false
  varinfo := ⟨[3], [rowBlocks]⟩
  sel := some ⟨[0], [3], rfl⟩
  timeStep := 0
  satisfies := fun _ => true
  hits := fun _ => [0]
  timeStep_valid := .inl rfl
  small := by decide
  decomposes := by
    intro blocks hblocks
    rw [mem_singleton.mp hblocks]
    exact rowBlocks_decomposes
  sel_inside := by
    intro bb hbb
    cases hbb
    exact .cons (by decide) .nil
  hits_exact := by
    intro b block hblock k
    have hmem : block ∈ rowBlocks := mem_of_getElem? hblock
    have hvolume : Grid.volume (Grid.sizes (layout false block)) = 1 := by
      obtain rfl | rfl | rfl :
          block = ⟨[0], [1], rfl⟩ ∨ block = ⟨[2], [1], rfl⟩ ∨ block = ⟨[1], [1], rfl⟩ := by
        simpa [rowBlocks] using hmem
      · rfl
      · rfl
      · rfl
    rw [hvolume, mem_singleton, Nat.lt_one_iff, and_iff_left rfl]
    exact UInt64.toNat_inj.symm

/-- The block of the middle element comes behind that of the last one and is not gone through. -/
theorem not_exact_rowInput : ¬rowInput.Exact := by
  have hrun : evaluateWithIdxOnBoundingBox rowInput.leaf = .ok (.slice [1, 0, 1]) := by decide
  rw [exact_of_eq hrun]
  rintro ⟨_, hbits⟩
  have hmiddle := hbits 1 (by decide)
  cases hmiddle

end Adios.FastBit.Input
