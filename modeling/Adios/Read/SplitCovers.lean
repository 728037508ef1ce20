import Adios.Read.SplitRequest

/-!
# Adios — when the parts of a request are the request

`split_req` against what it is for: requests that have no element in common, are together what was
asked for, and fit into the buffer.
-/

namespace Adios.SplitRequest

open List CopySubvolume Grid PatchData Selections Subvolume UInt64

/-! ## The statement -/

/-- What can be asked for: a bounding box without empty dimensions, a list of points, or a
write-block. -/
def Selectable : Selections.Selection → Prop
  | .boundingBox bb => Ends bb ∧ ∀ s ∈ bb, s.count ≠ 0
  | .points pts => InArray pts ∧ 0 < pts.ndim
  | .writeblock => True
  | .auto => False

structure SplitInput where
  r : ReadRequest
  type : Datatype
  defined : type.IsDefined
  bufferSize : Nat
  /-- `buffer_size` is an `int`. -/
  int : bufferSize < 2147483648
  room : (bpGetTypeSize type).toNat ≤ bufferSize
  selectable : Selectable r.sel

def pointsOf : Selections.Selection → List (List Nat)
  | .points pts => places pts
  | .boundingBox _ | .writeblock | .auto => []

def elements : Selections.Selection → Nat
  | .boundingBox bb => volume (sizes (bb.map Segment.span))
  | .points pts => pts.npoints
  | .writeblock | .auto => 0

namespace SplitInput

variable (s : SplitInput)

def typeSize : Nat := (bpGetTypeSize s.type).toNat

def nElements : Nat := s.bufferSize / s.typeSize

/-- The requests ask for the same of the same variable, fit into the buffer, have no element in
common, and together they have what was asked for; points come in their order. -/
structure Right (subs : List ReadRequest) : Prop where
  kept : ∀ a ∈ subs, { a with sel := s.r.sel, datasize := s.r.datasize } = s.r
  fits : ∀ a ∈ subs, elements a.sel * s.typeSize ≤ s.bufferSize ∧
    a.datasize.toNat = elements a.sel * s.typeSize
  disjoint : subs.Pairwise fun a b => ∀ p, ¬(a.sel.Has p ∧ b.sel.Has p)
  cover : ∀ p, s.r.sel.Has p ↔ ∃ a ∈ subs, a.sel.Has p
  ordered : subs.flatMap (fun a => pointsOf a.sel) = pointsOf s.r.sel

/-- The split ends with the right requests; of a write-block, that one that does not fit is handled
without a failed assertion. -/
def Handled : Prop :=
  match s.r.sel with
  | .writeblock => s.bufferSize < s.r.datasize.toNat →
      ∃ fuel subs, subreqs fuel s.r s.type s.bufferSize = .ok subs
  | .boundingBox _ | .points _ | .auto =>
      ∃ fuel subs, splitReq fuel s.r s.type s.bufferSize = .ok subs ∧ s.Right subs

end SplitInput

def rowVolume (row : List Segment) : Nat := volume (sizes (row.map Segment.span))

def firstCount (n : Nat) (s : Segment) (row : List Segment) : Nat :=
  n / rowVolume row % s.count.toNat

/-- The number of elements of the box is one more than the remainder by it of those that there is
room for, and they fit; or this is not so, there is room for a place of the first dimension, and
the dimension, with its count rounded up, ends before `uint64_t` does. -/
def BoxClear (n : Nat) : List Segment → Prop
  | [] => True
  | s :: row =>
    if n % rowVolume (s :: row) = rowVolume (s :: row) - 1 then rowVolume (s :: row) ≤ n
    else firstCount n s row ≠ 0 ∧ s.start.toNat + ((s.count.toNat - 1) / firstCount n s row + 1) *
      firstCount n s row < 18446744073709551616

/-- A box of at most 32 dimensions like that; no points, or exactly as many as there is room for; a
write-block that fits. -/
def SplitInput.Clear (s : SplitInput) : Prop :=
  match s.r.sel with
  | .boundingBox bb => bb.length ≤ maxDims ∧ BoxClear s.nElements bb
  | .points pts => pts.npoints = 0 ∨ pts.npoints = s.nElements
  | .writeblock => s.r.datasize.toNat ≤ s.bufferSize
  | .auto => True

/-! ## The sub-box -/

theorem rowVolume_cons (s : Segment) (row : List Segment) :
    rowVolume (s :: row) = s.count.toNat * rowVolume row := rfl

theorem rowVolume_pos {row : List Segment} (h : ∀ s ∈ row, s.count ≠ 0) : 0 < rowVolume row := by
  induction row with
  | nil => exact Nat.one_pos
  | cons s row ih =>
    obtain ⟨hs, hrow⟩ := forall_mem_cons.mp h
    exact Nat.mul_pos (Nat.pos_of_ne_zero fun hc => hs (UInt64.toNat_inj.mp hc)) (ih hrow)

theorem length_posOf (n : UInt64) (counts : List UInt64) :
    (posOf n counts).1.length = counts.length := by
  induction counts with
  | nil => rfl
  | cons c counts ih => exact congrArg (· + 1) ih

theorem posOf_rest (n : UInt64) (row : List Segment) :
    (posOf n (row.map Segment.count)).2.toNat = n.toNat / rowVolume row := by
  induction row with
  | nil => exact (Nat.div_one _).symm
  | cons s row ih =>
    show ((posOf n (row.map Segment.count)).2 / s.count).toNat = _
    rw [UInt64.toNat_div, ih, Nat.div_div_eq_div_mul, rowVolume_cons, Nat.mul_comm]

theorem posOf_first (n : UInt64) (s : Segment) (row : List Segment) :
    ((posOf n (row.map Segment.count)).2 % s.count).toNat = firstCount n.toNat s row := by
  rw [UInt64.toNat_mod, posOf_rest]
  rfl

theorem mod_mul_eq_pred_iff {n c v : Nat} (hc : 0 < c) (hv : 0 < v) :
    n % (c * v) = c * v - 1 ↔ n / v % c = c - 1 ∧ n % v = v - 1 := by
  have hsplit : n % (c * v) = n % v + v * (n / v % c) := by
    rw [Nat.mul_comm c, Nat.mod_mul]
  have hq := Nat.mod_lt (n / v) hc
  have hr := Nat.mod_lt n hv
  obtain ⟨c, rfl⟩ : ∃ k, c = k + 1 := ⟨c - 1, by omega⟩
  obtain ⟨v, rfl⟩ : ∃ k, v = k + 1 := ⟨v - 1, by omega⟩
  generalize n / (v + 1) % (c + 1) = q at hsplit hq ⊢
  generalize n % (v + 1) = r at hsplit hr ⊢
  have hprod : (c + 1) * (v + 1) = (v + 1) * c + (v + 1) := by ring
  rw [hsplit, hprod]
  constructor
  · intro heq
    rcases Nat.lt_or_ge q c with hlt | hge
    · have hle : (v + 1) * (q + 1) ≤ (v + 1) * c := Nat.mul_le_mul_left _ hlt
      rw [Nat.mul_succ] at hle
      omega
    · obtain rfl : q = c := by omega
      omega
  · rintro ⟨hq, hr⟩
    rw [hq, hr, Nat.add_sub_cancel, Nat.add_sub_cancel]
    omega

def Last (d : UInt64 × UInt64) : Prop := d.1 = d.2 - 1

instance (d : UInt64 × UInt64) : Decidable (Last d) := inferInstanceAs (Decidable (_ = _))

theorem forall_last_iff (n : UInt64) {row : List Segment} (h : ∀ s ∈ row, s.count ≠ 0) :
    (∀ d ∈ (posOf n (row.map Segment.count)).1.zip (row.map Segment.count), Last d) ↔
      n.toNat % rowVolume row = rowVolume row - 1 := by
  induction row with
  | nil =>
    refine ⟨fun _ => Nat.mod_one _, fun _ d hd => ?_⟩
    cases hd
  | cons s row ih =>
    obtain ⟨hs, hrow⟩ := forall_mem_cons.mp h
    have hcount : 0 < s.count.toNat :=
      Nat.pos_of_ne_zero fun hc => hs (UInt64.toNat_inj.mp hc)
    have hone : (1 : UInt64) ≤ s.count := le_iff_toNat_le.mpr hcount
    have hfirst : Last ((posOf n (row.map Segment.count)).2 % s.count, s.count) ↔
        n.toNat / rowVolume row % s.count.toNat = s.count.toNat - 1 := by
      unfold Last
      rw [← UInt64.toNat_inj, posOf_first, UInt64.toNat_sub_of_le _ _ hone]
      rfl
    rw [rowVolume_cons, mod_mul_eq_pred_iff hcount (rowVolume_pos hrow), ← hfirst, ← ih hrow]
    exact forall_mem_cons

theorem subBox_succ {dims : List (UInt64 × UInt64)} {i : Nat} {d : UInt64 × UInt64}
    (h : dims[i]? = some d) : subBox dims (i + 1) =
      if Last d then subBox dims i ++ [d.2] else leading (dims.take (i + 1)) := by
  rw [subBox, h]
  by_cases hlast : Last d
  · rw [if_pos hlast]
    exact if_neg (not_not.mpr hlast)
  · rw [if_neg hlast]
    exact if_pos hlast

theorem subBox_of_last {dims : List (UInt64 × UInt64)} {i : Nat} (hi : i ≤ dims.length)
    (h : ∀ d ∈ dims.take i, Last d) : subBox dims i = (dims.take i).map Prod.snd := by
  induction i with
  | zero => rfl
  | succ i ih =>
    have hget : dims[i]? = some dims[i] := getElem?_eq_getElem hi
    have htake : dims.take (i + 1) = dims.take i ++ [dims[i]] := by
      rw [take_add_one, hget]
      rfl
    rw [htake] at h
    have hlast : Last dims[i] := h _ (mem_append_right _ mem_cons_self)
    rw [subBox_succ hget, htake, map_append, if_pos hlast,
      ih (by omega) fun d hd => h d (mem_append_left _ hd)]
    rfl

theorem subBox_of_not_last {p c : UInt64} {dims : List (UInt64 × UInt64)} {i : Nat}
    (hi : i ≤ dims.length) (h : ¬∀ d ∈ ((p, c) :: dims).take (i + 1), Last d) :
    (p ≠ 0 → subBox ((p, c) :: dims) (i + 1) = p :: (dims.take i).map Prod.snd) ∧
      (p = 0 → ∃ rest, subBox ((p, c) :: dims) (i + 1) = 0 :: rest) := by
  induction i with
  | zero =>
    have hne : p ≠ c - 1 := fun hc => h fun d hd => by
      obtain rfl := mem_singleton.mp hd
      exact hc
    have hsub : subBox ((p, c) :: dims) 1 = leading [(p, c)] := if_pos hne
    rw [hsub, leading]
    exact ⟨fun hp => if_neg hp, fun hp => ⟨_, if_pos hp⟩⟩
  | succ i ih =>
    have hget : dims[i]? = some dims[i] := getElem?_eq_getElem hi
    have hget' : ((p, c) :: dims)[i + 1]? = some dims[i] := hget
    have htake : dims.take (i + 1) = dims.take i ++ [dims[i]] := by
      rw [take_add_one, hget]
      rfl
    rw [subBox_succ hget']
    by_cases hlast : Last dims[i]
    · rw [if_pos hlast]
      obtain ⟨hpos, hzero⟩ := ih (by omega) fun hall => h fun d hd => by
        rw [take_succ_cons, htake] at hd
        rcases mem_cons.mp hd with rfl | hd
        · exact hall _ mem_cons_self
        · rcases mem_append.mp hd with hd | hd
          · exact hall d (mem_cons_of_mem _ hd)
          · obtain rfl := mem_singleton.mp hd
            exact hlast
      refine ⟨fun hp => ?_, fun hp => ?_⟩
      · rw [hpos hp, htake, map_append]
        rfl
      · obtain ⟨rest, hrest⟩ := hzero hp
        exact ⟨rest ++ [dims[i].2], by rw [hrest]; rfl⟩
    · rw [if_neg hlast, take_succ_cons, leading]
      exact ⟨fun hp => if_neg hp, fun hp => ⟨_, if_pos hp⟩⟩

/-! ## The loop of a box -/

def rowDims (row : List Segment) : List Dim := row.map fun s => ⟨s, s.start, s.count⟩

theorem nextDims_row (row : List Segment) :
    nextDims row (row.map Segment.count) (row.map Segment.start) = rowDims row := by
  induction row with
  | nil => rfl
  | cons s row ih =>
    have hle : ¬s.start + s.count > s.start + s.count := UInt64.lt_irrefl _
    rw [map_cons, map_cons, nextDims, if_neg hle, ih]
    rfl

theorem advance_row (row : List Segment) :
    advance (rowDims row) = (row.map Segment.start, true) := by
  induction row with
  | nil => rfl
  | cons s row ih =>
    show advance (⟨s, s.start, s.count⟩ :: rowDims row) = _
    rw [advance, ih]
    dsimp only
    rw [if_pos rfl, if_pos rfl]
    rfl

section

variable {r : ReadRequest} {ts : UInt64} {s : Segment} {row : List Segment} {a b : UInt64}

def pieceRequest (r : ReadRequest) (ts : UInt64) (s : Segment) (row : List Segment) (a n : UInt64) :
    ReadRequest :=
  r.withBox ts (⟨s, a, n⟩ :: rowDims row)

def roundCount (s : Segment) (a b : UInt64) : UInt64 :=
  if a + b > s.start + s.count then s.start + s.count - a else b

theorem boxLoop_succ (fuel : Nat) (h : List ReadRequest) :
    boxLoop r ts (s :: row) (b :: row.map Segment.count) (fuel + 1) (a :: row.map Segment.start) h =
      if a + roundCount s a b = s.start + s.count then
        .ok (pieceRequest r ts s row a (roundCount s a b) :: h)
      else boxLoop r ts (s :: row) (b :: row.map Segment.count) fuel
        ((a + roundCount s a b) :: row.map Segment.start)
        (pieceRequest r ts s row a (roundCount s a b) :: h) := by
  have hdims : nextDims (s :: row) (b :: row.map Segment.count) (a :: row.map Segment.start) =
      ⟨s, a, roundCount s a b⟩ :: rowDims row := by
    rw [nextDims, nextDims_row]
    rfl
  rw [boxLoop, hdims, advance, advance_row]
  dsimp only
  rw [if_pos rfl]
  by_cases hdone : a + roundCount s a b = s.start + s.count
  · rw [if_pos hdone, if_pos hdone]
    rfl
  · rw [if_neg hdone, if_neg hdone]
    rfl

section

variable (hends : s.stop < 18446744073709551616)

include hends

theorem toNat_stop :
    (s.start + s.count).toNat = s.stop :=
  (UInt64.toNat_add _ _).trans (Nat.mod_eq_of_lt hends)

theorem roundCount_of_last
    (hwrap : a.toNat + b.toNat < 18446744073709551616) (hlt : a.toNat < s.stop)
    (hle : s.stop ≤ a.toNat + b.toNat) : (roundCount s a b).toNat = s.stop - a.toNat := by
  have hsum : (a + b).toNat = a.toNat + b.toNat := by
    rw [UInt64.toNat_add, Nat.mod_eq_of_lt hwrap]
  have hstop := toNat_stop hends
  unfold roundCount
  by_cases hgt : a + b > s.start + s.count
  · have hsub : a ≤ s.start + s.count := le_iff_toNat_le.mpr (by omega)
    rw [if_pos hgt, UInt64.toNat_sub_of_le _ _ hsub, hstop]
  · have hnle : ¬s.stop < a.toNat + b.toNat := fun hc =>
      hgt (lt_iff_toNat_lt.mpr (by rwa [hstop, hsum]))
    rw [if_neg hgt]
    omega

theorem roundCount_of_lt (hlt : a.toNat + b.toNat < s.stop) : roundCount s a b = b := by
  refine if_neg fun hgt => ?_
  have hgt := lt_iff_toNat_lt.mp hgt
  rw [toNat_stop hends, UInt64.toNat_add, Nat.mod_eq_of_lt (by omega)] at hgt
  omega

theorem roundCount_of_wrap (hlt : a.toNat < s.stop)
    (hwrap : 18446744073709551616 ≤ a.toNat + b.toNat) : roundCount s a b = b := by
  refine if_neg fun hgt => ?_
  have hgt := lt_iff_toNat_lt.mp hgt
  have hb := b.toNat_lt
  rw [toNat_stop hends, UInt64.toNat_add] at hgt
  omega

end

def roundUp (stop a b : Nat) : Nat := a + ((stop - a - 1) / b + 1) * b

theorem roundUp_of_le {stop a b : Nat} (hlt : a < stop) (hle : stop ≤ a + b) :
    roundUp stop a b = a + b := by
  rw [roundUp, Nat.div_eq_of_lt (by omega), Nat.zero_add, Nat.one_mul]

theorem roundUp_of_lt {stop a b : Nat} (hpos : 0 < b) (hlt : a + b < stop) :
    roundUp stop a b = roundUp stop (a + b) b := by
  have hsplit : stop - a - 1 = stop - (a + b) - 1 + b := by omega
  rw [roundUp, roundUp, hsplit, Nat.add_div_right _ hpos]
  ring

def pieceOf (span : Span) : Segment := ⟨UInt64.ofNat span.start, UInt64.ofNat span.count⟩

theorem boxLoop_cuts (hends : s.stop < 18446744073709551616) (hpos : 0 < b.toNat)
    (hlt : a.toNat < s.stop) (hroundUp : roundUp s.stop a.toNat b.toNat < 18446744073709551616) :
    ∃ fuel spans, Cuts b.toNat s.stop a.toNat spans ∧ ∀ h,
      boxLoop r ts (s :: row) (b :: row.map Segment.count) fuel (a :: row.map Segment.start) h =
        .ok ((spans.map fun span =>
          pieceRequest r ts s row (pieceOf span).start (pieceOf span).count).reverse ++ h) := by
  induction hrest : s.stop - a.toNat using Nat.strong_induction_on generalizing a with
  | _ rest ih =>
    rcases Nat.lt_or_ge (a.toNat + b.toNat) s.stop with hnext | hlast
    · have hsum : (a + b).toNat = a.toNat + b.toNat := by
        rw [UInt64.toNat_add, Nat.mod_eq_of_lt (by omega)]
      rw [roundUp_of_lt hpos hnext, ← hsum] at hroundUp
      obtain ⟨fuel, spans, hcuts, hrun⟩ := @ih (s.stop - (a + b).toNat) (by omega) (a + b)
        (by omega) hroundUp rfl
      refine ⟨fuel + 1, ⟨a.toNat, b.toNat⟩ :: spans, .cons hnext (hsum ▸ hcuts), fun h => ?_⟩
      have hne : a + b ≠ s.start + s.count := fun hc => by
        have hstop := toNat_stop hends
        rw [← hc, hsum] at hstop
        omega
      rw [boxLoop_succ, roundCount_of_lt hends hnext, if_neg hne, hrun, map_cons,
        reverse_cons, append_assoc, singleton_append]
      have hpiece : pieceOf ⟨a.toNat, b.toNat⟩ = ⟨a, b⟩ := by
        unfold pieceOf
        rw [UInt64.ofNat_toNat, UInt64.ofNat_toNat]
      rw [hpiece]
    · rw [roundUp_of_le hlt hlast] at hroundUp
      have hcount := roundCount_of_last hends hroundUp hlt hlast
      have hdone : a + roundCount s a b = s.start + s.count := by
        rw [← UInt64.toNat_inj, toNat_stop hends, UInt64.toNat_add, hcount]
        omega
      refine ⟨1, [⟨a.toNat, (roundCount s a b).toNat⟩], .last (by omega) (by omega) (by omega),
        fun h => ?_⟩
      have hpiece : pieceOf ⟨a.toNat, (roundCount s a b).toNat⟩ = ⟨a, roundCount s a b⟩ := by
        unfold pieceOf
        rw [UInt64.ofNat_toNat, UInt64.ofNat_toNat]
      rw [boxLoop_succ, if_pos hdone, map_singleton, reverse_singleton, singleton_append, hpiece]

theorem mem_of_boxLoop {sel : List Segment} {subbb start : List UInt64} {fuel : Nat}
    {h subs : List ReadRequest} (hrun : boxLoop r ts sel subbb fuel start h = .ok subs)
    {q : ReadRequest} (hq : q ∈ h) : q ∈ subs := by
  induction fuel generalizing start h with
  | zero => cases hrun
  | succ fuel ih =>
    rw [boxLoop] at hrun
    dsimp only at hrun
    split_ifs at hrun
    · obtain rfl := Except.ok.inj hrun
      exact mem_cons_of_mem _ hq
    · exact ih hrun (mem_cons_of_mem _ hq)

theorem boxLoop_wraps (hends : s.stop < 18446744073709551616) (hpos : 0 < b.toNat)
    (hlt : a.toNat < s.stop) (hroundUp : 18446744073709551616 ≤ roundUp s.stop a.toNat b.toNat)
    {fuel : Nat} {h subs : List ReadRequest}
    (hrun : boxLoop r ts (s :: row) (b :: row.map Segment.count) fuel
      (a :: row.map Segment.start) h = .ok subs) :
    ∃ a' : UInt64, a'.toNat < s.stop ∧ s.stop < a'.toNat + b.toNat ∧
      pieceRequest r ts s row a' b ∈ subs := by
  induction fuel generalizing a h with
  | zero => cases hrun
  | succ fuel ih =>
    rcases Nat.lt_or_ge (a.toNat + b.toNat) s.stop with hnext | hlast
    · have hsum : (a + b).toNat = a.toNat + b.toNat := by
        rw [UInt64.toNat_add, Nat.mod_eq_of_lt (by omega)]
      have hne : a + b ≠ s.start + s.count := fun hc => by
        have hstop := toNat_stop hends
        rw [← hc, hsum] at hstop
        omega
      rw [boxLoop_succ, roundCount_of_lt hends hnext, if_neg hne] at hrun
      rw [roundUp_of_lt hpos hnext, ← hsum] at hroundUp
      exact ih (by omega) hroundUp hrun
    · rw [roundUp_of_le hlt hlast] at hroundUp
      rw [boxLoop_succ, roundCount_of_wrap hends hlt hroundUp] at hrun
      refine ⟨a, hlt, by omega, ?_⟩
      split_ifs at hrun
      · obtain rfl := Except.ok.inj hrun
        exact mem_cons_self
      · exact mem_of_boxLoop hrun mem_cons_self

theorem boxLoop_zero (hs : s.count ≠ 0) (hends : s.stop < 18446744073709551616) (fuel : Nat)
    (subbb start : List UInt64) (h : List ReadRequest) :
    boxLoop r ts (s :: row) (0 :: subbb) fuel (s.start :: start) h = .error .endless := by
  induction fuel generalizing start h with
  | zero => rfl
  | succ fuel ih =>
    have hle : s.start.toNat ≤ (s.start + s.count).toNat := by
      rw [toNat_stop hends]
      exact Nat.le_add_right _ _
    have hcount : ¬s.start + 0 > s.start + s.count := fun hc => by
      rw [UInt64.add_zero] at hc
      exact absurd (lt_iff_toNat_lt.mp hc) (Nat.not_lt.mpr hle)
    have hne : ¬s.start + 0 = s.start + s.count := fun hc => by
      rw [UInt64.add_zero] at hc
      have hstop := toNat_stop hends
      rw [← hc] at hstop
      unfold Segment.stop at hstop
      exact hs (UInt64.toNat_inj.mp (by
        show s.count.toNat = 0
        omega))
    rw [boxLoop, nextDims, if_neg hcount, advance]
    dsimp only
    rw [if_neg hne, UInt64.add_zero]
    by_cases hfinished : (advance (nextDims row subbb start)).2 = true
    · rw [if_pos hfinished, if_neg Bool.false_ne_true]
      exact ih _ _
    · rw [if_neg hfinished, if_neg Bool.false_ne_true]
      exact ih _ _

end

/-! ## Dimensions that are not empty -/

theorem toNat_pos_of_ne_zero {n : UInt64} (h : n ≠ 0) : 0 < n.toNat :=
  Nat.pos_of_ne_zero fun hc => h (UInt64.toNat_inj.mp hc)

theorem start_lt_stop {d : Segment} (h : d.count ≠ 0) : d.start.toNat < d.stop :=
  Nat.lt_add_of_pos_right (toNat_pos_of_ne_zero h)

theorem stop_sub_start (d : Segment) : d.stop - d.start.toNat = d.count.toNat :=
  Nat.add_sub_cancel_left ..

theorem contains_corner {row : List Segment} (h : ∀ e ∈ row, e.count ≠ 0) :
    Contains (row.map Segment.span) (row.map fun e => e.start.toNat) := by
  rw [Contains, forall₂_map_left_iff, forall₂_map_right_iff, forall₂_same]
  exact fun e he => ⟨Nat.le_refl _, start_lt_stop (h e he)⟩

/-! ## Requests for pieces of a box -/

namespace SplitInput

variable {s : SplitInput} {d : Segment} {row : List Segment}

theorem typeSize_pos (s : SplitInput) : 0 < s.typeSize := by
  unfold typeSize bpGetTypeSize
  split_ifs with hstring
  · decide
  · exact getTypeSize_pos ⟨s.defined, hstring⟩

theorem nElements_pos (s : SplitInput) : 0 < s.nElements :=
  Nat.div_pos s.room s.typeSize_pos

theorem nElements_lt (s : SplitInput) : s.nElements < 2147483648 :=
  Nat.lt_of_le_of_lt (Nat.div_le_self _ _) s.int

theorem toNat_nElements (s : SplitInput) : (UInt64.ofNat s.nElements).toNat = s.nElements :=
  toNat_ofNat_of_lt' (Nat.lt_trans s.nElements_lt (by decide))

variable {n fuel m : Nat} {bb : List Segment} {subs : List ReadRequest} {pts : Points}

theorem fits_iff : n * s.typeSize ≤ s.bufferSize ↔ n ≤ s.nElements :=
  (Nat.le_div_iff_mul_le s.typeSize_pos).symm

theorem sel_pieceRequest (r : ReadRequest) (ts a n : UInt64) :
    (pieceRequest r ts d row a n).sel = .boundingBox (⟨a, n⟩ :: row) := by
  have hrow : (rowDims row).map (fun d => (⟨d.start, d.count⟩ : Segment)) = row := by
    rw [rowDims, map_map]
    exact map_id row
  show Selections.Selection.boundingBox (⟨a, n⟩ :: (rowDims row).map fun d =>
    ⟨d.start, d.count⟩) = _
  rw [hrow]

theorem datasize_pieceRequest (r : ReadRequest) (ts a n : UInt64) :
    (pieceRequest r ts d row a n).datasize.toNat =
      n.toNat * rowVolume row * ts.toNat % 18446744073709551616 := by
  have hcounts : (rowDims row).map Dim.count = row.map Segment.count := by
    rw [rowDims, map_map]
    rfl
  have hvolume : Grid.volume (((n :: row.map Segment.count)).map UInt64.toNat) =
      n.toNat * rowVolume row := by
    rw [map_cons, Grid.volume_cons, rowVolume, sizes, map_map, map_map]
    rfl
  show ((n :: (rowDims row).map Dim.count).foldl (· * ·) ts).toNat = _
  rw [hcounts, foldl_mul_eq, hvolume, UInt64.toNat_mul, toNat_ofNat', Nat.mul_mod_mod, Nat.mul_comm]

variable {spans : List Span} {b : UInt64}

theorem span_pieceOf {span : Span} (hstart : span.start < 18446744073709551616)
    (hcount : span.count < 18446744073709551616) : (pieceOf span).span = span := by
  show (⟨(UInt64.ofNat span.start).toNat, (UInt64.ofNat span.count).toNat⟩ : Span) = span
  rw [toNat_ofNat_of_lt' hstart, toNat_ofNat_of_lt' hcount]

theorem has_pieceRequest_iff (r : ReadRequest) (ts : UInt64) {span : Span}
    (hpiece : (pieceOf span).span = span) (q : List Nat) :
    (pieceRequest r ts d row (pieceOf span).start (pieceOf span).count).sel.Has q ↔
      Contains (span :: row.map Segment.span) q := by
  rw [sel_pieceRequest]
  show Contains ((pieceOf span).span :: row.map Segment.span) q ↔ _
  rw [hpiece]

theorem fits_pieceRequest {span : Span} (hpiece : (pieceOf span).span = span)
    (hle : span.count * rowVolume row ≤ s.nElements) :
    elements (pieceRequest s.r (bpGetTypeSize s.type) d row (pieceOf span).start
        (pieceOf span).count).sel * s.typeSize ≤ s.bufferSize ∧
      (pieceRequest s.r (bpGetTypeSize s.type) d row (pieceOf span).start
        (pieceOf span).count).datasize.toNat =
        elements (pieceRequest s.r (bpGetTypeSize s.type) d row (pieceOf span).start
          (pieceOf span).count).sel * s.typeSize := by
  have hcount : (pieceOf span).count.toNat = span.count := congrArg Span.count hpiece
  have helements : elements (pieceRequest s.r (bpGetTypeSize s.type) d row (pieceOf span).start
      (pieceOf span).count).sel = span.count * rowVolume row := by
    rw [sel_pieceRequest]
    show (pieceOf span).count.toNat * rowVolume row = _
    rw [hcount]
  have hbytes := (fits_iff (s := s)).mpr hle
  have hint := s.int
  rw [helements, datasize_pieceRequest, hcount]
  exact ⟨hbytes, Nat.mod_eq_of_lt (Nat.lt_of_le_of_lt hbytes (by omega))⟩

theorem right_of_cuts (hsel : s.r.sel = .boundingBox (d :: row))
    (hends : d.stop < 18446744073709551616) {p : Nat} (hcuts : Cuts p d.stop d.start.toNat spans)
    (hfits : p * rowVolume row ≤ s.nElements) :
    s.Right ((spans.map fun span => pieceRequest s.r (bpGetTypeSize s.type) d row
      (pieceOf span).start (pieceOf span).count).reverse ++ []) := by
  have hspan : ∀ span ∈ spans, (pieceOf span).span = span ∧
      span.count * rowVolume row ≤ s.nElements := fun span hs => by
    have hcount := hcuts.count_le span hs
    have hstop := hcuts.stop_le span hs
    unfold Span.stop at hstop
    exact ⟨span_pieceOf (by omega) (by omega),
      Nat.le_trans (Nat.mul_le_mul_right _ hcount) hfits⟩
  have hbox := fun span hs => @has_pieceRequest_iff d row s.r (bpGetTypeSize s.type) span
    (hspan span hs).1
  have hmem : ∀ a, a ∈ (spans.map fun span => pieceRequest s.r (bpGetTypeSize s.type) d row
      (pieceOf span).start (pieceOf span).count).reverse ++ [] ↔ ∃ span ∈ spans,
        pieceRequest s.r (bpGetTypeSize s.type) d row (pieceOf span).start
          (pieceOf span).count = a := fun a => by
    rw [append_nil, mem_reverse, mem_map]
  refine ⟨fun a ha => ?_, fun a ha => ?_, ?_, fun q => ?_, ?_⟩
  · obtain ⟨span, -, rfl⟩ := (hmem a).mp ha
    rfl
  · obtain ⟨span, hs, rfl⟩ := (hmem a).mp ha
    exact fits_pieceRequest (hspan span hs).1 (hspan span hs).2
  · rw [append_nil, pairwise_reverse, pairwise_map]
    have hdisjoint := pairwise_map.mp (hcuts.boxes_disjoint (row.map Segment.span))
    refine hdisjoint.imp_of_mem fun {x y} hx hy hxy q hboth => ?_
    exact hxy q ⟨(hbox x hx q).mp hboth.2, (hbox y hy q).mp hboth.1⟩
  · have hwhole : s.r.sel.Has q ↔ Contains (⟨d.start.toNat, d.stop - d.start.toNat⟩ ::
        row.map Segment.span) q := by
      rw [hsel, stop_sub_start]
      rfl
    rw [hwhole, ← hcuts.boxes_cover]
    constructor
    · rintro ⟨box, hbox', hq⟩
      obtain ⟨span, hs, rfl⟩ := mem_map.mp hbox'
      exact ⟨_, (hmem _).mpr ⟨span, hs, rfl⟩, (hbox span hs q).mpr hq⟩
    · rintro ⟨a, ha, hq⟩
      obtain ⟨span, hs, rfl⟩ := (hmem a).mp ha
      exact ⟨_, mem_map_of_mem hs, (hbox span hs q).mp hq⟩
  · rw [hsel]
    refine flatMap_eq_nil_iff.mpr fun a ha => ?_
    obtain ⟨span, -, rfl⟩ := (hmem a).mp ha
    rw [sel_pieceRequest]
    rfl

/-! ## Boxes -/

theorem last_iff (s : SplitInput) (hrow : ∀ d ∈ row, d.count ≠ 0) :
    (∀ d ∈ (posOf (UInt64.ofNat s.nElements) (row.map Segment.count)).1.zip
      (row.map Segment.count), Last d) ↔ s.nElements % rowVolume row = rowVolume row - 1 := by
  rw [forall_last_iff _ hrow, s.toNat_nElements]

def subbb (s : SplitInput) (bb : List Segment) : List UInt64 :=
  subBox ((posOf (UInt64.ofNat s.nElements) (bb.map Segment.count)).1.zip
    (bb.map Segment.count)) bb.length

theorem length_dims (n : UInt64) (bb : List Segment) :
    ((posOf n (bb.map Segment.count)).1.zip (bb.map Segment.count)).length = bb.length := by
  rw [length_zip, length_posOf, length_map, Nat.min_self]

theorem map_snd_dims (n : UInt64) (bb : List Segment) :
    ((posOf n (bb.map Segment.count)).1.zip (bb.map Segment.count)).map Prod.snd =
      bb.map Segment.count :=
  map_snd_zip (by rw [length_posOf])

theorem subbb_of_last (hbb : ∀ e ∈ d :: row, e.count ≠ 0)
    (h : s.nElements % rowVolume (d :: row) = rowVolume (d :: row) - 1) :
    s.subbb (d :: row) = d.count :: row.map Segment.count := by
  have hlast := (last_iff s hbb).mpr h
  have hall := take_of_length_le
    (Nat.le_of_eq (length_dims (UInt64.ofNat s.nElements) (d :: row)))
  rw [subbb, subBox_of_last (Nat.le_of_eq (length_dims _ _).symm) (by rwa [hall]), hall,
    map_snd_dims]
  rfl

theorem subbb_of_not_last (hbb : ∀ e ∈ d :: row, e.count ≠ 0)
    (h : ¬s.nElements % rowVolume (d :: row) = rowVolume (d :: row) - 1) :
    ∃ p : UInt64, p.toNat = firstCount s.nElements d row ∧
      (p ≠ 0 → s.subbb (d :: row) = p :: row.map Segment.count) ∧
      (p = 0 → ∃ rest, s.subbb (d :: row) = 0 :: rest) := by
  have hnot := (not_congr (last_iff s hbb)).mpr h
  have hlen := length_dims (UInt64.ofNat s.nElements) row
  have hall := take_of_length_le (Nat.le_of_eq hlen)
  have hall' := take_of_length_le
    (Nat.le_of_eq (length_dims (UInt64.ofNat s.nElements) (d :: row)))
  obtain ⟨hpos, hzero⟩ := @subBox_of_not_last
    ((posOf (UInt64.ofNat s.nElements) (row.map Segment.count)).2 % d.count) d.count
    ((posOf (UInt64.ofNat s.nElements) (row.map Segment.count)).1.zip (row.map Segment.count))
    row.length (Nat.le_of_eq hlen.symm) fun hc => hnot fun e he => hc e (by
      rw [length_cons] at hall'
      exact hall'.symm ▸ he)
  refine ⟨_, (posOf_first _ d row).trans (by rw [s.toNat_nElements]), fun hp => ?_, hzero⟩
  refine (hpos hp).trans ?_
  rw [hall, map_snd_dims]

theorem splitReq_box (hsel : s.r.sel = .boundingBox bb) (hroom : bb.length ≤ maxDims)
    (hbb : ∀ d ∈ bb, d.count ≠ 0) (fuel : Nat) :
    splitReq fuel s.r s.type s.bufferSize =
      boxLoop s.r (bpGetTypeSize s.type) bb (s.subbb bb) fuel (bb.map Segment.start) [] := by
  have hzero : ¬∃ d ∈ bb, d.count = 0 := fun hex => by
    obtain ⟨d, hd, hc⟩ := hex
    exact hbb d hd hc
  unfold splitReq
  dsimp only
  rw [hsel]
  dsimp only
  rw [if_neg (Nat.not_lt.mpr hroom), if_neg hzero]
  rfl

theorem handled_of_clear_box (hsel : s.r.sel = .boundingBox bb) (hroom : bb.length ≤ maxDims)
    (hclear : BoxClear s.nElements bb) :
    ∃ fuel subs, splitReq fuel s.r s.type s.bufferSize = .ok subs ∧ s.Right subs := by
  have hselectable := s.selectable
  rw [hsel] at hselectable
  obtain ⟨hends, hbb⟩ := hselectable
  cases bb with
  | nil =>
    -- one element
    refine ⟨1, [s.r.withBox (bpGetTypeSize s.type) []], ?_, ?_, ?_, ?_, ?_, ?_⟩
    · rw [splitReq_box hsel hroom hbb]
      rfl
    · exact forall_mem_singleton.mpr rfl
    · refine forall_mem_singleton.mpr ⟨?_, ?_⟩
      · exact Nat.le_trans (Nat.le_of_eq (Nat.one_mul _)) s.room
      · exact (Nat.one_mul _).symm
    · exact pairwise_singleton _ _
    · intro q
      simp only [mem_singleton, exists_eq_left]
      rw [hsel]
      rfl
    · rw [hsel]
      rfl
  | cons d row =>
    have hd := hends d mem_cons_self
    have hcount := hbb d mem_cons_self
    have hlt := start_lt_stop hcount
    rw [BoxClear] at hclear
    by_cases hlast : s.nElements % rowVolume (d :: row) = rowVolume (d :: row) - 1
    · rw [if_pos hlast] at hclear
      obtain ⟨fuel, spans, hcuts, hrun⟩ := @boxLoop_cuts s.r (bpGetTypeSize s.type) d row d.start
        d.count hd (toNat_pos_of_ne_zero hcount) hlt (by
          rw [roundUp_of_le hlt (Nat.le_refl _)]
          exact hd)
      refine ⟨fuel, _, ?_, right_of_cuts hsel hd hcuts hclear⟩
      rw [splitReq_box hsel hroom hbb, subbb_of_last hbb hlast]
      exact hrun []
    · rw [if_neg hlast] at hclear
      obtain ⟨hne, hroundUp⟩ := hclear
      obtain ⟨p, hp, hsub, -⟩ := subbb_of_not_last hbb hlast
      have hpos : 0 < p.toNat := by omega
      obtain ⟨fuel, spans, hcuts, hrun⟩ := @boxLoop_cuts s.r (bpGetTypeSize s.type) d row d.start
        p hd hpos hlt (by
          rw [roundUp, stop_sub_start, hp]
          exact hroundUp)
      refine ⟨fuel, _, ?_, right_of_cuts hsel hd hcuts ?_⟩
      · rw [splitReq_box hsel hroom hbb, hsub fun hc => by
          rw [hc] at hpos
          exact absurd hpos (by decide)]
        exact hrun []
      · rw [hp]
        exact Nat.le_trans (Nat.mul_le_mul_right _ (Nat.mod_le _ _)) (Nat.div_mul_le_self _ _)

theorem room_of_splitReq (hsel : s.r.sel = .boundingBox bb)
    (hrun : splitReq fuel s.r s.type s.bufferSize = .ok subs) :
    bb.length ≤ maxDims := by
  by_contra hc
  unfold splitReq at hrun
  dsimp only at hrun
  rw [hsel] at hrun
  dsimp only at hrun
  rw [if_pos (Nat.not_le.mp hc)] at hrun
  cases hrun

theorem fits_of_last (hbb : ∀ e ∈ d :: row, e.count ≠ 0) (hends : d.stop < 18446744073709551616)
    (hlast : s.nElements % rowVolume (d :: row) = rowVolume (d :: row) - 1) (hrun : boxLoop s.r
      (bpGetTypeSize s.type) (d :: row) (s.subbb (d :: row)) fuel ((d :: row).map Segment.start) []
      = .ok subs) (hright : s.Right subs) :
    rowVolume (d :: row) ≤ s.nElements := by
  rw [subbb_of_last hbb hlast, map_cons] at hrun
  cases fuel with
  | zero => cases hrun
  | succ fuel =>
    have hlt := start_lt_stop (hbb d mem_cons_self)
    have hround := @roundCount_of_last d d.start d.count hends hends hlt (Nat.le_refl _)
    have hwhole : roundCount d d.start d.count = d.count := by
      rw [← UInt64.toNat_inj, hround, stop_sub_start]
    rw [boxLoop_succ, hwhole, if_pos rfl] at hrun
    obtain rfl := Except.ok.inj hrun
    have hfits := (hright.fits _ mem_cons_self).1
    rw [sel_pieceRequest] at hfits
    exact fits_iff.mp hfits

theorem roundUp_of_not_last (hsel : s.r.sel = .boundingBox (d :: row))
    (hbb : ∀ e ∈ d :: row, e.count ≠ 0) (hends : d.stop < 18446744073709551616) {p : UInt64}
    (hsub : p ≠ 0 → s.subbb (d :: row) = p :: row.map Segment.count)
    (hzero : p = 0 → ∃ rest, s.subbb (d :: row) = 0 :: rest) (hrun : boxLoop s.r (bpGetTypeSize
      s.type) (d :: row) (s.subbb (d :: row)) fuel ((d :: row).map Segment.start) [] = .ok subs)
    (hright : s.Right subs) :
    p ≠ 0 ∧ roundUp d.stop d.start.toNat p.toNat < 18446744073709551616 := by
  have hcount := hbb d mem_cons_self
  have hne : p ≠ 0 := fun hc => by
    obtain ⟨rest, hrest⟩ := hzero hc
    rw [hrest, map_cons, boxLoop_zero hcount hends] at hrun
    cases hrun
  refine ⟨hne, ?_⟩
  rw [hsub hne, map_cons] at hrun
  by_contra hwrap
  obtain ⟨a, ha, hbehind, hmem⟩ := boxLoop_wraps hends (toNat_pos_of_ne_zero hne)
    (start_lt_stop hcount) (Nat.not_lt.mp hwrap) hrun
  -- the element behind the end of the box is in a request
  have hhas : (pieceRequest s.r (bpGetTypeSize s.type) d row a p).sel.Has
      (d.stop :: row.map fun e => e.start.toNat) := by
    rw [sel_pieceRequest]
    exact contains_cons.mpr ⟨⟨Nat.le_of_lt ha, hbehind⟩,
      contains_corner fun e he => hbb e (mem_cons_of_mem d he)⟩
  have hinside := (hright.cover _).mpr ⟨_, hmem, hhas⟩
  rw [hsel] at hinside
  exact absurd (contains_cons.mp hinside).1.2 (Nat.lt_irrefl _)

theorem clear_of_handled_box (hsel : s.r.sel = .boundingBox bb)
    (hrun : splitReq fuel s.r s.type s.bufferSize = .ok subs) (hright : s.Right subs) :
    bb.length ≤ maxDims ∧ BoxClear s.nElements bb := by
  have hselectable := s.selectable
  rw [hsel] at hselectable
  obtain ⟨hends, hbb⟩ := hselectable
  have hroom := room_of_splitReq hsel hrun
  refine ⟨hroom, ?_⟩
  rw [splitReq_box hsel hroom hbb] at hrun
  cases bb with
  | nil => exact trivial
  | cons d row =>
    have hd := hends d mem_cons_self
    rw [BoxClear]
    by_cases hlast : s.nElements % rowVolume (d :: row) = rowVolume (d :: row) - 1
    · rw [if_pos hlast]
      exact fits_of_last hbb hd hlast hrun hright
    · rw [if_neg hlast]
      obtain ⟨p, hp, hsub, hzero⟩ := subbb_of_not_last hbb hlast
      obtain ⟨hne, hround⟩ := roundUp_of_not_last hsel hbb hd hsub hzero hrun hright
      rw [roundUp, stop_sub_start, hp] at hround
      exact ⟨hp ▸ Nat.ne_of_gt (toNat_pos_of_ne_zero hne), hround⟩

/-! ## Points -/

theorem length_places (pts : Points) : (places pts).length = pts.npoints := by
  rw [places, length_map, length_chunks]

theorem chunks_take {ndim : Nat} {words : List UInt64} (h : m ≤ n) :
    chunks ndim m (words.take (m * ndim)) = (chunks ndim n words).take m := by
  induction m generalizing n words with
  | zero => rfl
  | succ m ih =>
    obtain ⟨n, rfl⟩ : ∃ k, n = k + 1 := ⟨n - 1, by omega⟩
    have hhead : (words.take ((m + 1) * ndim)).take ndim = words.take ndim := by
      rw [take_take, Nat.min_eq_left (Nat.le_mul_of_pos_left _ (Nat.zero_lt_succ m))]
    have htail : (words.take ((m + 1) * ndim)).drop ndim = (words.drop ndim).take (m * ndim) := by
      rw [drop_take, Nat.succ_mul, Nat.add_sub_cancel]
    rw [chunks, chunks, take_succ_cons, hhead, htail, ih (Nat.le_of_succ_le_succ h)]

theorem pointsLoop_shape {r : ReadRequest} {ts : Nat} (hn : 0 < n) {remain : Int}
    {h : List ReadRequest} (hremain : 0 ≤ remain)
    (hrun : pointsLoop r ts pts n fuel remain h = .ok subs) :
    ∃ m : Nat, remain = (m * n : Nat) ∧ subs = (List.range m).map (fun j =>
      r.withPoints ts pts (pts.npoints - (j + 1) * n) n) ++ h := by
  induction fuel generalizing remain h with
  | zero => cases hrun
  | succ fuel ih =>
    rw [pointsLoop] at hrun
    by_cases hzero : remain = 0
    · rw [if_pos hzero] at hrun
      obtain rfl := Except.ok.inj hrun
      exact ⟨0, by rw [hzero, Nat.zero_mul]; rfl, rfl⟩
    · rw [if_neg hzero, if_neg (Int.not_lt.mpr hremain)] at hrun
      dsimp only at hrun
      by_cases hwhole : (n : Int) ≤ remain
      · have hcount : (if remain > n then n else remain.toNat) = n := by
          split_ifs <;> omega
        rw [hcount] at hrun
        obtain ⟨m, hm, hsubs⟩ := ih (by omega) hrun
        have hnext : remain = ((m + 1) * n : Nat) := by
          rw [Nat.succ_mul]
          omega
        refine ⟨m + 1, hnext, ?_⟩
        have hfrom : pts.npoints - remain.toNat = pts.npoints - (m + 1) * n := by
          rw [hnext, Int.toNat_natCast]
        rw [hsubs, hfrom, range_succ, map_append, append_assoc]
        rfl
      · -- the number of points that remain goes below 0
        cases fuel with
        | zero => cases hrun
        | succ fuel =>
          rw [pointsLoop, if_neg (by omega), if_pos (by omega)] at hrun
          cases hrun

theorem splitReq_points (hsel : s.r.sel = .points pts) (fuel : Nat) :
    splitReq fuel s.r s.type s.bufferSize =
      pointsLoop s.r s.typeSize pts s.nElements fuel (Wire.cut32 pts.npoints) [] := by
  unfold splitReq
  dsimp only
  rw [hsel]
  rfl

theorem handled_of_clear_points (hsel : s.r.sel = .points pts)
    (hclear : pts.npoints = 0 ∨ pts.npoints = s.nElements) :
    ∃ fuel subs, splitReq fuel s.r s.type s.bufferSize = .ok subs ∧ s.Right subs := by
  have hselectable := s.selectable
  rw [hsel] at hselectable
  obtain ⟨harray, -⟩ := hselectable
  have hpos := s.nElements_pos
  have hlt := s.nElements_lt
  rcases hclear with hzero | hall
  · refine ⟨1, [], ?_, forall_mem_nil _, forall_mem_nil _, .nil, fun p => ?_, ?_⟩
    · rw [splitReq_points hsel, hzero]
      rfl
    · rw [hsel]
      show p ∈ places pts ↔ _
      rw [eq_nil_of_length_eq_zero ((length_places pts).trans hzero)]
      simp
    · rw [hsel]
      exact (eq_nil_of_length_eq_zero ((length_places pts).trans hzero)).symm
  · have hcut : Wire.cut32 pts.npoints = s.nElements := by
      rw [hall]
      exact Wire.cut32_of_fits (by omega) (by omega)
    have hwords : (pts.points.drop ((pts.npoints - s.nElements) * pts.ndim)).take
        (s.nElements * pts.ndim) = pts.points := by
      rw [← hall, Nat.sub_self, Nat.zero_mul, drop_zero]
      exact take_of_length_le (Nat.le_of_eq harray)
    have hrequest : (s.r.withPoints s.typeSize pts (pts.npoints - s.nElements) s.nElements).sel =
        .points pts := by
      show Selections.Selection.points ⟨pts.ndim, s.nElements, _⟩ = _
      rw [hwords, ← hall]
    have hbytes := (fits_iff (s := s)).mpr (Nat.le_refl s.nElements)
    refine ⟨2, [s.r.withPoints s.typeSize pts (pts.npoints - s.nElements) s.nElements], ?_, ?_, ?_,
      pairwise_singleton _ _, fun p => ?_, ?_⟩
    · have hsecond : (s.nElements : Int) - s.nElements = 0 := Int.sub_self _
      rw [splitReq_points hsel, hcut, pointsLoop, if_neg (by omega), if_neg (by omega)]
      dsimp only
      rw [if_neg (Int.lt_irrefl _), Int.toNat_natCast, hsecond, pointsLoop, if_pos rfl]
    · exact forall_mem_singleton.mpr rfl
    · refine forall_mem_singleton.mpr ?_
      rw [hrequest]
      refine ⟨by rw [elements, hall]; exact hbytes, ?_⟩
      show (UInt64.ofNat (s.typeSize * s.nElements)).toNat = pts.npoints * s.typeSize
      have hint := s.int
      rw [hall, Nat.mul_comm, toNat_ofNat_of_lt'
        (Nat.lt_trans (Nat.lt_of_le_of_lt hbytes hint) (by decide))]
    · simp only [mem_singleton, exists_eq_left]
      rw [hrequest, hsel]
    · rw [flatMap_singleton, hrequest, hsel]

def roundPoints (pts : Points) (n j : Nat) : Points :=
  ⟨pts.ndim, n, (pts.points.drop ((pts.npoints - (j + 1) * n) * pts.ndim)).take (n * pts.ndim)⟩

theorem length_roundPoints (pts : Points) (n j : Nat) :
    (places (roundPoints pts n j)).length = n := length_places _

theorem rounds_mul
    (hordered : (List.range m).flatMap (fun j => places (roundPoints pts n j)) = places pts) :
    m * n = pts.npoints := by
  have hlength := congrArg List.length hordered
  have hconst : (List.range m).map (fun j => (places (roundPoints pts n j)).length) =
      List.replicate m n := by
    refine eq_replicate_iff.mpr ⟨by rw [length_map, length_range], fun x hx => ?_⟩
    obtain ⟨j, -, rfl⟩ := mem_map.mp hx
    exact length_roundPoints pts n j
  rwa [length_places, length_flatMap, hconst, sum_replicate_nat] at hlength

theorem places_lastRound
    (hordered : (List.range (m + 1)).flatMap (fun j => places (roundPoints pts n j)) = places pts) :
    places (roundPoints pts n m) = places (roundPoints pts n 0) := by
  have hmul := rounds_mul hordered
  have hle : n ≤ pts.npoints := by
    rw [← hmul, Nat.succ_mul]
    exact Nat.le_add_left _ _
  have hlast : places (roundPoints pts n m) = (places pts).take n := by
    rw [roundPoints, hmul, Nat.sub_self, Nat.zero_mul, drop_zero, places, places, ← map_take]
    exact congrArg _ (chunks_take hle)
  have hfirst : (places pts).take n = places (roundPoints pts n 0) := by
    have hlength := length_roundPoints pts n 0
    rw [← hordered, range_succ_eq_map, flatMap_cons, take_append_of_le_length
      (Nat.le_of_eq hlength.symm), take_of_length_le (Nat.le_of_eq hlength)]
  exact hlast.trans hfirst

theorem clear_of_handled_points (hsel : s.r.sel = .points pts)
    (hrun : splitReq fuel s.r s.type s.bufferSize = .ok subs) (hright : s.Right subs) :
    pts.npoints = 0 ∨ pts.npoints = s.nElements := by
  have hpos := s.nElements_pos
  rw [splitReq_points hsel] at hrun
  have hremain : 0 ≤ Wire.cut32 pts.npoints := by
    by_contra hc
    cases fuel with
    | zero => cases hrun
    | succ fuel =>
      rw [pointsLoop, if_neg (by omega), if_pos (by omega)] at hrun
      cases hrun
  obtain ⟨m, -, rfl⟩ := pointsLoop_shape hpos hremain hrun
  rw [append_nil] at hright
  have hordered := hright.ordered
  rw [hsel, flatMap_map] at hordered
  have hordered : (List.range m).flatMap (fun j => places (roundPoints pts s.nElements j)) =
      places pts := hordered
  have hcount := rounds_mul hordered
  match m, hcount with
  | 0, hcount =>
    left
    rw [← hcount, Nat.zero_mul]
  | 1, hcount =>
    right
    rw [← hcount, Nat.one_mul]
  | m + 2, hcount =>
    -- the first round and the last one have the same points, and no point may be in two
    exfalso
    have hsame : places (roundPoints pts s.nElements (m + 1)) =
        places (roundPoints pts s.nElements 0) := places_lastRound hordered
    have hsome : places (roundPoints pts s.nElements 0) ≠ [] :=
      ne_nil_of_length_pos (by rwa [length_roundPoints])
    obtain ⟨p, hp⟩ := exists_mem_of_ne_nil _ hsome
    have hdisjoint := hright.disjoint
    rw [range_succ_eq_map, map_cons, pairwise_cons] at hdisjoint
    refine hdisjoint.1 _ (mem_map_of_mem (mem_map.mpr
      ⟨m, mem_range.mpr (Nat.lt_succ_self m), rfl⟩)) p ⟨hp, ?_⟩
    show p ∈ places (roundPoints pts s.nElements (m + 1))
    rwa [hsame]

theorem handled_writeblock_iff (hsel : s.r.sel = .writeblock) :
    (s.bufferSize < s.r.datasize.toNat →
      ∃ fuel subs, subreqs fuel s.r s.type s.bufferSize = .ok subs) ↔
      s.r.datasize.toNat ≤ s.bufferSize := by
  constructor
  · intro h
    by_contra hc
    obtain ⟨fuel, subs, hrun⟩ := h (Nat.not_le.mp hc)
    have hnone : splitReq fuel s.r s.type s.bufferSize = .ok [] := by
      unfold splitReq
      dsimp only
      rw [hsel]
    rw [subreqs, if_neg hc, hnone, ok_bind, if_pos rfl] at hrun
    cases hrun
  · intro h hlt
    omega

/-- A request is split into the right ones exactly where a place of the first dimension fits, and
the box is not one element larger than the buffer, or where all points fit, or the write-block
does. -/
theorem handled_iff (s : SplitInput) : s.Handled ↔ s.Clear := by
  have hselectable := s.selectable
  unfold Handled Clear
  cases hsel : s.r.sel with
  | boundingBox bb =>
    exact ⟨fun ⟨_, _, hrun, hright⟩ => clear_of_handled_box hsel hrun hright,
      fun h => handled_of_clear_box hsel h.1 h.2⟩
  | points pts =>
    exact ⟨fun ⟨_, _, hrun, hright⟩ => clear_of_handled_points hsel hrun hright,
      handled_of_clear_points hsel⟩
  | writeblock => exact handled_writeblock_iff hsel
  | auto =>
    rw [hsel] at hselectable
    exact absurd hselectable id

end SplitInput

/-! ## A box that is never finished -/

theorem byte_room : (bpGetTypeSize .byte).toNat ≤ 1 := by decide

theorem square_selectable : Selectable (.boundingBox [⟨0, 2⟩, ⟨0, 2⟩]) := by
  refine ⟨?_, by decide⟩
  have hends : ∀ s ∈ ([⟨0, 2⟩, ⟨0, 2⟩] : List Segment), s.stop < 18446744073709551616 := by decide
  exact hends

def fourBytes : SplitInput where
  r := ⟨0, .boundingBox [⟨0, 2⟩, ⟨0, 2⟩], 0, 1, 4⟩
  type := .byte
  defined := trivial
  bufferSize := 1
  int := Nat.lt_of_lt_of_le Nat.one_lt_two (Nat.le_of_ble_eq_true rfl)
  room := byte_room
  selectable := square_selectable

/-- No element of the first dimension is asked for, so it goes on and on. -/
theorem not_handled_fourBytes : ¬fourBytes.Handled := by
  rintro ⟨fuel, subs, hrun, -⟩
  have hends : Segment.stop ⟨0, 2⟩ < 18446744073709551616 := by decide
  have hcounts : ∀ e ∈ ([⟨0, 2⟩, ⟨0, 2⟩] : List Segment), e.count ≠ 0 := by decide
  have hsub : fourBytes.subbb [⟨0, 2⟩, ⟨0, 2⟩] = [0, 2] := by decide +kernel
  rw [SplitInput.splitReq_box rfl (by decide) hcounts, hsub] at hrun
  rw [map_cons, boxLoop_zero (by decide) hends] at hrun
  cases hrun

end Adios.SplitRequest
