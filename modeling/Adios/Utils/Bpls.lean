import Adios.Grid.Odometer
import Adios.Lists.Results
import Adios.Types

/-!
# Utils — the values that bpls prints

`readVar` reads a box of a variable in pieces that its buffer has room for, and `print_dataset`
prints each piece with the indices of its values. A variable has fewer than 2^63 elements, so that
no sum or product of the extents of a box that has elements wraps.
-/

namespace Adios.Bpls

open List
open Grid

/-! ## The box -/

/-- A dimension, which may be that of the steps, and an element of `istart` and of `icount`. -/
structure Dim where
  extent : UInt64
  istart : Int
  icount : Int

namespace Dim

variable (d : Dim)

/-- "`negative index means last-|index|`" -/
def st : Nat :=
  ((if d.istart < 0 then d.extent.toNat + d.istart else d.istart) % 2 ^ 64).toNat

/-- "`negative index means last-|index|+1-start`" -/
def ct : Nat :=
  ((if d.icount < 0 then d.extent.toNat + d.icount + 1 - d.st else d.icount) % 2 ^ 64).toNat

def start : Int := if d.istart < 0 then d.extent.toNat + d.istart else d.istart

def count : Int := if d.icount < 0 then d.extent.toNat + d.icount + 1 - d.start else d.icount

structure Inside : Prop where
  start_nonneg : 0 ≤ d.start
  count_nonneg : 0 ≤ d.count
  stop_le : d.start + d.count ≤ d.extent.toNat

/-- `start_t[j]` and `count_t[j]` -/
def read : Span := ⟨d.st, d.ct⟩

def span : Span := ⟨d.start.toNat, d.count.toNat⟩

end Dim

structure Input where
  dims : List Dim
  inside : ∀ d ∈ dims, d.Inside
  few : volume (dims.map fun d => d.extent.toNat) < 2 ^ 63
  /-- "`MAX_BUFFERSIZE/elemsize`" -/
  limit : Nat
  limit_pos : 0 < limit
  /-- The length of the value of a string, which has no dimension but the steps. -/
  string : Option Nat
  scalar : string ≠ none → dims.length ≤ 1
  ncols : Nat
  ncols_pos : 0 < ncols
  noindex : Bool
  /-- `printByteAsChar`, and a type of one byte -/
  asChar : Bool

namespace Input

variable (q : Input)

def box : List Span := q.dims.map Dim.read

def buffer : Nat :=
  match q.string with
  | some len => len + 1
  | none => q.limit

/-- `maxreadn` -/
def maxreadn : Nat :=
  match q.string with
  | some len => len + 1
  | none => min q.limit (volume (sizes q.box))

/-- `sum` and `readn`, from the last dimension on. -/
def strategy (maxreadn : Nat) : List Nat → Nat × List Nat
  | [] => (1, [])
  | ct :: cts =>
    let (sum, readn) := strategy maxreadn cts
    (sum * ct, (if sum ≥ maxreadn then 1 else min (maxreadn / sum) ct) :: readn)

def readn : List Nat := (strategy q.maxreadn (sizes q.box)).2

/-! ## What is printed -/

/-- What "`%*lld`" prints. -/
def lld (n : Nat) : Int := (n : Int).bmod (2 ^ 64)

def textLength (z : Int) : Nat := (Nat.toDigits 10 z.natAbs).length + if z < 0 then 1 else 0

/-- `ndigits (start_t[j]+count_t[j]-1)`, whose argument is an `int`. -/
def ndigits (s : Span) : Nat := textLength (((s.start + s.count - 1 : Nat) : Int).bmod (2 ^ 32))

/-- The indices fit into "`char idxstr[128], buf[16]`". -/
def labelFits (ids : List Nat) : Bool :=
  match zipWith (fun s x => max (ndigits s) (textLength (lld x))) q.box ids with
  | [] => true
  | f :: fs => 5 + f + (fs.map (· + 1)).sum + 5 < 128 && fs.all (· + 1 < 16)

inductive Label where
  | none
  | indices (ids : List Int)
  | overflow

/-- `ids`, and how many values are printed from an item on. -/
structure Entry where
  item : Nat
  count : Nat
  ids : List Nat
  label : Label

/-- "`print indices if needed into idxstr`" -/
def label (nextcol : Nat) (ids : List Nat) : Label :=
  if nextcol = 0 ∧ q.noindex = false ∧ ids ≠ [] then
    if q.labelFits ids then .indices (ids.map lld) else .overflow
  else .none

/-- How many values an item stands for, and `ids` behind it: "`special case: k-D byte array printed as
(k-1)D array of strings`". -/
def jump (b : List Span) (ids : List Nat) : Nat × List Nat :=
  if q.asChar then
    match b.getLast? with
    | some s => (s.count, ids.dropLast ++ [s.start + s.count - 1])
    | none => (1, ids)
  else (1, ids)

/-- "`increment/reset column index`" -/
def nextCol (nextcol : Nat) : Nat :=
  let nextcol := if q.asChar then q.ncols - 1 else nextcol
  if nextcol + 1 = q.ncols then 0 else nextcol + 1

/-- "`while (item < steps)`" -/
def printLoop (b : List Span) : Nat → Nat → Nat → List Nat → List Entry × Nat
  | 0, _, nextcol, _ => ([], nextcol)
  | fuel + 1, item, nextcol, ids =>
    if item < volume (sizes b) then
      let (count, last) := q.jump b ids
      let (entries, col) := printLoop b fuel (item + count) (q.nextCol nextcol)
        (turnAll (b.map Span.wheel) last).1
      (⟨item, count, ids, q.label nextcol ids⟩ :: entries, col)
    else ([], nextcol)

/-- `print_dataset` -/
def printDataset (b : List Span) (nextcol : Nat) : List Entry × Nat :=
  q.printLoop b (volume (sizes b)) 0 nextcol (b.map Span.start)

/-! ## What is read -/

/-- "`s[j]`" and "`c[j]`": "`do not reach over the limit`". -/
def advance (t : Span) (readn : Nat) : Wheel Span where
  first := ⟨t.start, readn⟩
  turn x :=
    if x.start + x.count = t.start + t.count then (⟨t.start, readn⟩, true)
    else
      let s := x.start + readn
      (⟨s, if s + x.count > t.start + t.count then t.start + t.count - s else x.count⟩, false)

def wheels : List (Wheel Span) := zipWith advance q.box q.readn

/-- "`while (sum < nelems)`", for so many rounds: what is read, and what is printed of it. -/
def readLoop : Nat → Nat → Nat → List Span → Option (List (List Span × List Entry))
  | 0, _, _, _ => none
  | fuel + 1, sum, nextcol, b =>
    if sum < volume (sizes q.box) then
      let (entries, nextcol) := q.printDataset b nextcol
      (readLoop fuel (sum + volume (sizes b)) nextcol (turnAll q.wheels b).1).map ((b, entries) :: ·)
    else some []

/-- `readVar`: the arrays have room for `MAX_DIMS` dimensions, and "`maxreadn*elemsize+8`" is an
`int`. -/
def readVar (fuel : Nat) : Except Fault (Option (List (List Span × List Entry))) :=
  if q.dims.length > 16 then .error .outOfBounds
  else if ∃ len, q.string = some len ∧ 2 ^ 31 ≤ (len + 1) * (len + 1) + 8 then
    .error .signedOverflow
  else .ok (q.readLoop fuel 0 0 (q.wheels.map Wheel.first))

/-! ## What has to be printed -/

/-- The values of a box are printed one after the other, each with its own coordinates, and the
coordinates are in the label where there is one. -/
structure Printed (r : List Span × List Entry) : Prop where
  values : (r.2.flatMap fun e => range' e.item e.count) = range (volume (sizes r.1))
  indices : ∀ e ∈ r.2, (elements r.1)[e.item]? = some e.ids
  label : ∀ e ∈ r.2, e.label = .none ∨ e.label = .indices (e.ids.map Nat.cast)

structure Correct (reads : List (List Span × List Entry)) : Prop where
  order : (reads.flatMap fun r => elements r.1) = elements (q.dims.map Dim.span)
  disjoint : reads.Pairwise fun r r' => ∀ p, ¬(p ∈ elements r.1 ∧ p ∈ elements r'.1)
  small : ∀ r ∈ reads, volume (sizes r.1) ≤ q.buffer
  printed : ∀ r ∈ reads, Printed r

def Right : Prop :=
  ∃ reads n, (∀ fuel ≥ n, q.readVar fuel = .ok (some reads)) ∧ q.Correct reads

def LineStart (k : Nat) (p : List Nat) : Prop :=
  if q.asChar then
    ∀ s ∈ q.box.getLast?, ∀ r ∈ q.readn.getLast?, ∀ x ∈ p.getLast?, (x - s.start) % r = 0
  else k % q.ncols = 0

/-- There are at most 16 dimensions, a string is not too long, and the labels that are printed fit
into their buffers. -/
structure Clear : Prop where
  dims : q.dims.length ≤ 16
  string : ∀ len, q.string = some len → (len + 1) * (len + 1) + 8 < 2 ^ 31
  labels : q.noindex = false → ∀ k p, (elements q.box)[k]? = some p → q.LineStart k p →
    q.labelFits p

/-! ## The pieces -/

end Input

theorem Dim.read_eq {d : Dim} (h : d.Inside) : d.read = d.span := by
  have hextent := d.extent.toNat_lt
  have hst : (d.st : Int) = d.start := by
    rw [Dim.st, ← Dim.start, Int.emod_eq_of_lt h.start_nonneg (by have := h.2; have := h.3; omega)]
    exact Int.toNat_of_nonneg h.start_nonneg
  have hct : (d.ct : Int) = d.count := by
    rw [Dim.ct, hst, ← Dim.count,
      Int.emod_eq_of_lt h.count_nonneg (by have := h.1; have := h.3; omega)]
    exact Int.toNat_of_nonneg h.count_nonneg
  rw [Dim.read, Dim.span, ← hst, ← hct, Int.toNat_natCast, Int.toNat_natCast]

/-- A piece of a range that is read in steps of `r`. -/
structure PieceOf (t : Span) (r : Nat) (x : Span) : Prop where
  pos : 0 < x.count
  count_le : x.count ≤ r
  start_le : t.start ≤ x.start
  step : (x.start - t.start) % r = 0

structure CutInto (t : Span) (r : Nat) (l : List Span) : Prop where
  goesThrough : (Input.advance t r).GoesThrough l
  flatMap : (l.flatMap fun p => range' p.start p.count) = range' t.start t.count
  pieces : ∀ x ∈ l, PieceOf t r x

theorem exists_cutInto {t : Span} {r : Nat} (hr : 0 < r) (hle : r ≤ t.count) :
    ∃ l, CutInto t r l := by
  -- the steps from a start on, by what is left of the range
  have hfrom (n : Nat) : ∀ a, t.stop - a = n → t.start ≤ a → a < t.stop →
      (a - t.start) % r = 0 → ∃ l, Shows ⟨t.start, r⟩ (Input.advance t r).turn
        (⟨a, min r (t.stop - a)⟩ :: l) ∧
        ((⟨a, min r (t.stop - a)⟩ :: l).flatMap fun p : Span => range' p.start p.count) =
          range' a (t.stop - a) ∧ ∀ x ∈ (⟨a, min r (t.stop - a)⟩ :: l : List Span), PieceOf t r x := by
    induction n using Nat.strong_induction_on with
    | _ n ih =>
      intro a hn hstart hlt hmod
      have hpiece : PieceOf t r ⟨a, min r (t.stop - a)⟩ :=
        ⟨by show 0 < min _ _; omega, Nat.min_le_left _ _, hstart, hmod⟩
      by_cases hend : t.stop ≤ a + r
      · have hmin : min r (t.stop - a) = t.stop - a := by omega
        refine ⟨[], .last (if_pos ?_), ?_, forall_mem_singleton.mpr hpiece⟩
        · show a + min r (t.stop - a) = t.stop
          omega
        · rw [flatMap_singleton, hmin]
      · have hmin : min r (t.stop - a) = r := by omega
        have hnext : (a + r - t.start) % r = 0 := by
          rw [Nat.sub_add_comm hstart, Nat.add_mod_right, hmod]
        obtain ⟨l, hshows, hflat, hpieces⟩ :=
          ih (t.stop - (a + r)) (by omega) (a + r) rfl (by omega) (by omega) hnext
        refine ⟨_ :: l, .cons ?_ hshows, ?_, forall_mem_cons.mpr ⟨hpiece, hpieces⟩⟩
        · show (if a + min r (t.stop - a) = t.stop then _ else _) = _
          rw [if_neg (by omega), hmin]
          congr 2
          show (if a + r + r > t.stop then t.stop - (a + r) else r) = _
          split_ifs <;> omega
        · rw [flatMap_cons, hflat, hmin]
          show range' a r ++ range' (a + r) _ = _
          rw [range'_append_1]
          congr 1
          omega
  have hstop : t.stop - t.start = t.count := Nat.add_sub_cancel_left _ _
  obtain ⟨l, hshows, hflat, hpieces⟩ := hfrom _ t.start rfl (Nat.le_refl _)
    (by show t.start < t.start + t.count; omega) (by rw [Nat.sub_self, Nat.zero_mod])
  rw [hstop, Nat.min_eq_left hle] at hshows hflat hpieces
  exact ⟨_, ⟨⟨l, rfl⟩, hshows⟩, hflat, hpieces⟩

inductive Pieces : List Span → List Nat → List (List Span) → Prop
  | nil : Pieces [] [] []
  | cons {t : Span} {r : Nat} {l : List Span} {box : List Span} {rs : List Nat}
    {ls : List (List Span)} (h : CutInto t r l) (hrest : Pieces box rs ls) :
    Pieces (t :: box) (r :: rs) (l :: ls)

theorem Pieces.eq_of_whole {box : List Span} {ls : List (List Span)}
    (h : Pieces box (sizes box) ls) : ls = box.map fun t => [t] := by
  induction box generalizing ls with
  | nil =>
    cases h
    rfl
  | cons t box ih =>
    cases h with
    | @cons _ _ l _ _ ls hl hrest =>
      obtain ⟨rest, rfl⟩ := hl.goesThrough.head
      have hturn : (Input.advance t t.count).turn ⟨t.start, t.count⟩ =
          (⟨t.start, t.count⟩, true) := if_pos rfl
      cases hl.goesThrough.shows with
      | last _ => rw [ih hrest]; rfl
      | cons hnext _ => cases hturn.symm.trans hnext

namespace Input

theorem strategy_fst (m : Nat) (cts : List Nat) : (strategy m cts).1 = volume cts := by
  induction cts with
  | nil => rfl
  | cons ct cts ih =>
    rw [volume_cons, ← ih, Nat.mul_comm]
    rfl

theorem strategy_cons (m ct : Nat) (cts : List Nat) : (strategy m (ct :: cts)).2 =
    (if volume cts ≥ m then 1 else min (m / volume cts) ct) :: (strategy m cts).2 := by
  rw [← strategy_fst m cts]
  rfl

variable {m : Nat}

theorem strategy_of_le {cts : List Nat} (hpos : ∀ ct ∈ cts, 0 < ct) (h : volume cts ≤ m) :
    (strategy m cts).2 = cts := by
  induction cts with
  | nil => rfl
  | cons ct cts ih =>
    obtain ⟨hct, hcts⟩ := forall_mem_cons.mp hpos
    rw [volume_cons] at h
    have hvolume := volume_pos hcts
    have hle : volume cts ≤ m := Nat.le_trans (Nat.le_mul_of_pos_left _ hct) h
    rw [strategy_cons, ih hcts hle]
    congr 1
    split_ifs with hfull
    · have hmul : ct * volume cts ≤ 1 * volume cts := by omega
      have := Nat.le_of_mul_le_mul_right hmul hvolume
      omega
    · exact Nat.min_eq_right ((Nat.le_div_iff_mul_le hvolume).mpr h)

theorem strategy_spec (hm : 0 < m) {cts : List Nat} (hpos : ∀ ct ∈ cts, 0 < ct) :
    Forall₂ (fun r ct => 0 < r ∧ r ≤ ct) (strategy m cts).2 cts ∧
      volume (strategy m cts).2 ≤ m := by
  induction cts with
  | nil => exact ⟨.nil, hm⟩
  | cons ct cts ih =>
    obtain ⟨hct, hcts⟩ := forall_mem_cons.mp hpos
    obtain ⟨hsteps, hfits⟩ := ih hcts
    rw [strategy_cons]
    split_ifs with hfull
    · exact ⟨.cons ⟨Nat.one_pos, hct⟩ hsteps, by rwa [volume_cons, Nat.one_mul]⟩
    · have hvolume := volume_pos hcts
      have hdiv : 0 < m / volume cts := Nat.div_pos (by omega) hvolume
      refine ⟨.cons ⟨by omega, Nat.min_le_right _ _⟩ hsteps, ?_⟩
      rw [volume_cons, strategy_of_le hcts (by omega)]
      exact (Nat.mul_le_mul_right _ (Nat.min_le_left _ _)).trans (Nat.div_mul_le_self _ _)

variable {box b : List Span} {col : Nat} {ls : List (List Span)}

theorem exists_pieces (hm : 0 < m) (hpos : ∀ ct ∈ sizes box, 0 < ct) :
    ∃ ls, Pieces box (strategy m (sizes box)).2 ls ∧ CutInOrder box ls := by
  induction box with
  | nil => exact ⟨[], .nil, .nil⟩
  | cons t box ih =>
    obtain ⟨ht, hbox⟩ := forall_mem_cons.mp hpos
    obtain ⟨ls, hpieces, horder⟩ := ih hbox
    have hspec := (strategy_spec hm hpos).1
    rw [sizes_cons, strategy_cons] at hspec ⊢
    obtain ⟨hr, hle⟩ := (forall₂_cons.mp hspec).1
    obtain ⟨l, hl⟩ := exists_cutInto hr hle
    refine ⟨l :: ls, .cons hl hpieces, ?_⟩
    split_ifs at hl with hfull
    · exact .single (fun x hx => by have := (hl.pieces x hx).1; have := (hl.pieces x hx).2; omega)
        horder hl.flatMap
    · -- the dimensions behind this one are whole
      rw [strategy_of_le (show ∀ ct ∈ sizes box, 0 < ct from hbox) (Nat.le_of_not_le hfull)] at hpieces
      rw [hpieces.eq_of_whole]
      exact .whole hl.flatMap

/-! ## The printing -/

variable (q : Input)

def rows (b : List Span) : List (List (List Nat)) :=
  if q.asChar then
    match b.getLast? with
    | some s => (elements b.dropLast).map fun p => (range' s.start s.count).map fun x => p ++ [x]
    | none => [[[]]]
  else (elements b).map fun p => [p]

def entriesOf : Nat → Nat → List (List (List Nat)) → List Entry × Nat
  | _, col, [] => ([], col)
  | item, col, row :: rows =>
    let (entries, last) := entriesOf (item + row.length) (q.nextCol col) rows
    (⟨item, row.length, row.headD [], q.label col (row.headD [])⟩ :: entries, last)

variable {q}

theorem elements_append_singleton (b : List Span) (s : Span) : elements (b ++ [s]) =
    (elements b).flatMap fun p => (range' s.start s.count).map fun x => p ++ [x] := by
  rw [elements_append]
  refine flatMap_congr fun p _ => ?_
  show ((range' s.start s.count).flatMap fun x => [[x]]).map (p ++ ·) = _
  rw [← map_eq_flatMap, map_map]
  rfl

theorem flatten_rows (b : List Span) : (q.rows b).flatten = elements b := by
  unfold rows
  split_ifs with hchar
  · cases hlast : b.getLast? with
    | none =>
      rw [getLast?_eq_none_iff.mp hlast]
      rfl
    | some s =>
      obtain ⟨b, rfl⟩ := getLast?_eq_some_iff.mp hlast
      rw [dropLast_concat, elements_append_singleton]
      rfl
  · exact flatMap_singleton' _

theorem jump_of_mem_rows (hpos : ∀ s ∈ b, 0 < s.count) {row : List (List Nat)}
    (h : row ∈ q.rows b) :
    ∃ init last, row = init ++ [last] ∧ q.jump b (row.headD []) = (row.length, last) := by
  unfold rows at h
  unfold jump
  split_ifs at h ⊢ with hchar
  · cases hlast : b.getLast? with
    | none =>
      rw [hlast] at h
      obtain rfl := mem_singleton.mp h
      exact ⟨[], [], rfl, rfl⟩
    | some s =>
      rw [hlast] at h
      obtain ⟨p, -, rfl⟩ := mem_map.mp h
      obtain ⟨n, hn⟩ := Nat.exists_eq_add_one.mpr (hpos s (mem_of_getLast? hlast))
      dsimp only
      rw [hn, length_map, length_range']
      refine ⟨(range' s.start n).map fun x => p ++ [x], p ++ [s.start + n], ?_, ?_⟩
      · rw [range'_1_concat, map_append]
        rfl
      · rw [range'_succ, map_cons, headD_cons, dropLast_concat]
        rfl
  · obtain ⟨p, -, rfl⟩ := mem_map.mp h
    exact ⟨[], p, rfl, rfl⟩

theorem printLoop_end {item : Nat} (h : item = volume (sizes b)) (fuel : Nat) (ids : List Nat) :
    q.printLoop b fuel item col ids = ([], col) := by
  cases fuel with
  | zero => rfl
  | succ fuel => exact if_neg (by omega)

theorem printLoop_eq (hpos : ∀ s ∈ b, 0 < s.count) {rows : List (List (List Nat))}
    (hrows : ∀ row ∈ rows, row ∈ q.rows b) {item fuel : Nat}
    (hshows : rows ≠ [] → Shows (b.map Span.start) (turnAll (b.map Span.wheel)) rows.flatten)
    (hitem : item + rows.flatten.length = volume (sizes b)) (hfuel : rows.length ≤ fuel) :
    q.printLoop b fuel item col (rows.flatten.headD []) = q.entriesOf item col rows := by
  induction rows generalizing item col fuel with
  | nil => exact printLoop_end hitem _ _
  | cons row rows ih =>
    obtain ⟨hrow, hrest⟩ := forall_mem_cons.mp hrows
    obtain ⟨init, last, hlast, hjump⟩ := jump_of_mem_rows hpos hrow
    obtain ⟨fuel, rfl⟩ := Nat.exists_eq_add_one.mpr (Nat.lt_of_lt_of_le (Nat.succ_pos _) hfuel)
    have hhead : (row :: rows).flatten.headD [] = row.headD [] := by
      rw [flatten_cons, hlast]
      cases init <;> rfl
    have hlength : row.length = init.length + 1 := by rw [hlast, length_append, length_singleton]
    rw [flatten_cons, length_append] at hitem
    have hnext : q.printLoop b fuel (item + row.length) (q.nextCol col)
        (turnAll (b.map Span.wheel) last).1 = q.entriesOf (item + row.length) (q.nextCol col) rows := by
      cases rows with
      | nil => exact printLoop_end (by simpa using hitem) _ _
      | cons row' rows =>
        have hall := hshows (cons_ne_nil _ _)
        rw [flatten_cons, hlast, append_assoc] at hall
        have hfrom := Shows.of_append hall
        obtain ⟨init', last', hlast', -⟩ := jump_of_mem_rows hpos (hrest row' mem_cons_self)
        obtain ⟨y, l, hy⟩ : ∃ y l, (row' :: rows).flatten = y :: l := by
          rw [flatten_cons, hlast']
          cases init' <;> exact ⟨_, _, rfl⟩
        have hturn : (turnAll (b.map Span.wheel) last).1 = (row' :: rows).flatten.headD [] ∧
            Shows (b.map Span.start) (turnAll (b.map Span.wheel)) (row' :: rows).flatten := by
          rw [hy] at hfrom ⊢
          cases hfrom with
          | cons hturn hrest => exact ⟨congrArg Prod.fst hturn, hrest⟩
        rw [hturn.1]
        exact ih hrest (fun _ => hturn.2) (by omega) (Nat.le_of_succ_le_succ hfuel)
    rw [hhead, printLoop, if_pos (by omega), hjump]
    dsimp only
    rw [hnext]
    rfl

theorem length_le_length_flatten {rows : List (List (List Nat))} (h : ∀ row ∈ rows, row ≠ []) :
    rows.length ≤ rows.flatten.length := by
  induction rows with
  | nil => exact Nat.le_refl 0
  | cons row rows ih =>
    obtain ⟨hrow, hrest⟩ := forall_mem_cons.mp h
    have hpos := length_pos_of_ne_nil hrow
    have hle := ih hrest
    rw [flatten_cons, length_append, length_cons]
    omega

theorem printDataset_eq (hpos : ∀ s ∈ b, 0 < s.count) (col : Nat) :
    q.printDataset b col = q.entriesOf 0 col (q.rows b) := by
  have hwheels : Forall₂ Wheel.GoesThrough (b.map Span.wheel)
      (b.map fun s => range' s.start s.count) := by
    rw [forall₂_map_left_iff, forall₂_map_right_iff, forall₂_same]
    exact fun s hs => goesThrough_range' s (hpos s hs)
  have hgo := goesThrough_combinations hwheels
  have hfirst : (b.map Span.wheel).map Wheel.first = b.map Span.start := by
    rw [map_map]
    rfl
  rw [hfirst] at hgo
  obtain ⟨⟨rest, hhead⟩, hshows⟩ := hgo
  change elements b = b.map Span.start :: rest at hhead
  have hlength : (elements b).length = volume (sizes b) := length_elements b
  have hflat := flatten_rows (q := q) b
  have hids : b.map Span.start = (q.rows b).flatten.headD [] := by rw [hflat, hhead]; rfl
  rw [printDataset, hids]
  refine printLoop_eq hpos (fun _ h => h) (fun _ => ?_) (by rw [hflat, Nat.zero_add, hlength]) ?_
  · rw [hflat]
    exact hshows
  · rw [← hlength, ← hflat]
    refine length_le_length_flatten fun row hrow => ?_
    obtain ⟨init, last, rfl, -⟩ := jump_of_mem_rows hpos hrow
    exact append_ne_nil_of_right_ne_nil _ (cons_ne_nil _ _)

theorem values_entriesOf (rows : List (List (List Nat))) (item col : Nat) :
    ((q.entriesOf item col rows).1.flatMap fun e => range' e.item e.count) =
      range' item rows.flatten.length := by
  induction rows generalizing item col with
  | nil => rfl
  | cons row rows ih =>
    rw [entriesOf, flatMap_cons, ih, flatten_cons, length_append, range'_append_1]

theorem indices_entriesOf {rows : List (List (List Nat))} (hrows : ∀ row ∈ rows, row ≠ [])
    (before : List (List Nat)) (col : Nat) :
    ∀ e ∈ (q.entriesOf before.length col rows).1, (before ++ rows.flatten)[e.item]? = some e.ids := by
  induction rows generalizing before col with
  | nil => exact forall_mem_nil _
  | cons row rows ih =>
    obtain ⟨hrow, hrest⟩ := forall_mem_cons.mp hrows
    rw [entriesOf]
    refine forall_mem_cons.mpr ⟨?_, ?_⟩
    · obtain ⟨ids, row, rfl⟩ := exists_cons_of_ne_nil hrow
      show (before ++ (ids :: row ++ rows.flatten))[before.length]? = some ids
      rw [cons_append, getElem?_append_right (Nat.le_refl _), Nat.sub_self]
      rfl
    · have h := ih hrest (before ++ row) (q.nextCol col)
      rwa [length_append, append_assoc] at h

theorem exists_label (rows : List (List (List Nat))) (item col : Nat) :
    ∀ e ∈ (q.entriesOf item col rows).1, ∃ col', e.label = q.label col' e.ids := by
  induction rows generalizing item col with
  | nil => exact forall_mem_nil _
  | cons row rows ih => exact forall_mem_cons.mpr ⟨⟨col, rfl⟩, ih _ _⟩

/-! ## The labels -/

def Fits (q : Input) (ids : List Nat) : Prop := q.noindex = false → q.labelFits ids = true

theorem label_ne_overflow_iff {ids : List Nat} :
    q.label col ids ≠ .overflow ↔ (col = 0 → q.Fits ids) := by
  have hnil : q.labelFits [] = true := by
    unfold labelFits
    rw [zipWith_nil_right]
  unfold label Fits
  by_cases h : col = 0 ∧ q.noindex = false ∧ ids ≠ []
  · rw [if_pos h]
    cases hfits : q.labelFits ids with
    | true => simp
    | false => simp [h.1, h.2.1]
  · rw [if_neg h]
    refine ⟨fun _ hcol hindex => ?_, fun _ => nofun⟩
    obtain rfl : ids = [] := by_contra fun hne => h ⟨hcol, hindex, hne⟩
    exact hnil

theorem label_eq {ids : List Nat} (hids : ∀ x ∈ ids, x < 2 ^ 63) (h : q.label col ids ≠ .overflow) :
    q.label col ids = .none ∨ q.label col ids = .indices (ids.map Nat.cast) := by
  unfold label at h ⊢
  split_ifs at h ⊢
  · refine .inr (congrArg _ (map_congr_left fun x hx => ?_))
    have hx := hids x hx
    exact Int.bmod_eq_of_le (by omega) (by omega)
  · exact absurd rfl h
  · exact .inl rfl

theorem nextCol_of_asChar (h : q.asChar = true) (col : Nat) : q.nextCol col = 0 := by
  have hpos := q.ncols_pos
  unfold nextCol
  rw [if_pos h]
  exact if_pos (by omega)

theorem nextCol_of_plain (h : q.asChar = false) (hcol : col < q.ncols) :
    q.nextCol col = (col + 1) % q.ncols := by
  simp only [nextCol, h, Bool.false_eq_true, if_false]
  split_ifs with hlast
  · rw [hlast, Nat.mod_self]
  · rw [Nat.mod_eq_of_lt (by omega)]

theorem labels_of_asChar (h : q.asChar = true) (rows : List (List (List Nat))) (item : Nat) :
    (q.entriesOf item 0 rows).2 = 0 ∧ ((∀ e ∈ (q.entriesOf item 0 rows).1, e.label ≠ .overflow) ↔
      ∀ row ∈ rows, q.Fits (row.headD [])) := by
  induction rows generalizing item with
  | nil => simp [entriesOf]
  | cons row rows ih =>
    obtain ⟨hlast, hlabels⟩ := ih (item + row.length)
    rw [entriesOf, nextCol_of_asChar h]
    refine ⟨hlast, ?_⟩
    rw [forall_mem_cons, forall_mem_cons, hlabels, label_ne_overflow_iff]
    simp

theorem labels_of_plain (h : q.asChar = false) (l : List (List Nat)) (hcol : col < q.ncols)
    (item : Nat) :
    (q.entriesOf item col (l.map fun p => [p])).2 = (col + l.length) % q.ncols ∧
      ((∀ e ∈ (q.entriesOf item col (l.map fun p => [p])).1, e.label ≠ .overflow) ↔
        ∀ k p, l[k]? = some p → (col + k) % q.ncols = 0 → q.Fits p) := by
  induction l generalizing col item with
  | nil => simp [entriesOf, Nat.mod_eq_of_lt hcol]
  | cons p l ih =>
    obtain ⟨hlast, hlabels⟩ := ih (Nat.mod_lt (col + 1) q.ncols_pos) (item + 1)
    rw [map_cons, entriesOf, nextCol_of_plain h hcol]
    refine ⟨hlast.trans ?_, ?_⟩
    · rw [Nat.mod_add_mod, length_cons]
      congr 1
      omega
    · simp only [forall_mem_cons, length_singleton, headD_cons, hlabels, label_ne_overflow_iff,
        Nat.mod_add_mod]
      constructor
      · rintro ⟨hfirst, hrest⟩ k p' hp' hk
        cases k with
        | zero =>
          rw [Nat.add_zero, Nat.mod_eq_of_lt hcol] at hk
          obtain rfl := Option.some.inj hp'
          exact hfirst hk
        | succ k => exact hrest k p' hp' (by rwa [Nat.add_assoc, Nat.add_comm 1])
      · intro hall
        refine ⟨fun hzero => hall 0 p rfl (by rw [hzero, Nat.add_zero, Nat.zero_mod]),
          fun k p' hp' hk => hall (k + 1) p' hp' ?_⟩
        rwa [Nat.add_assoc, Nat.add_comm 1] at hk

def readsOf (q : Input) : Nat → List (List Span) → List (List Span × List Entry)
  | _, [] => []
  | col, b :: bs => (b, (q.printDataset b col).1) :: readsOf q (q.printDataset b col).2 bs

theorem map_fst_readsOf (bs : List (List Span)) (col : Nat) :
    (q.readsOf col bs).map Prod.fst = bs := by
  induction bs generalizing col with
  | nil => rfl
  | cons b bs ih => rw [readsOf, map_cons, ih]

theorem readLoop_eq {bs : List (List Span)} {first : List Span}
    (hshows : Shows first (turnAll q.wheels) bs) (hpos : ∀ b ∈ bs, 0 < volume (sizes b)) {sum : Nat}
    (hsum : sum + (bs.map fun b => volume (sizes b)).sum = volume (sizes q.box)) {fuel : Nat}
    (hfuel : bs.length < fuel) (col : Nat) :
    q.readLoop fuel sum col (bs.headD []) = some (q.readsOf col bs) := by
  induction hshows generalizing sum fuel col with
  | @last b _ =>
    obtain ⟨fuel, rfl⟩ := Nat.exists_eq_add_of_le' hfuel
    have hb := hpos b mem_cons_self
    rw [map_singleton, sum_singleton] at hsum
    show q.readLoop (fuel + 1 + 1) sum col b = _
    rw [readLoop, if_pos (by omega)]
    dsimp only
    rw [readLoop, if_neg (by omega)]
    rfl
  | @cons b b' bs hturn _ ih =>
    obtain ⟨hb, hrest⟩ := forall_mem_cons.mp hpos
    obtain ⟨fuel, rfl⟩ := Nat.exists_eq_add_one.mpr (Nat.zero_lt_of_lt hfuel)
    rw [map_cons, sum_cons, ← Nat.add_assoc] at hsum
    have hnext := ih hrest hsum (Nat.lt_of_succ_lt_succ hfuel) (q.printDataset b col).2
    show q.readLoop (fuel + 1) sum col b = _
    rw [readLoop, if_pos (by omega)]
    dsimp only
    rw [hturn]
    show (q.readLoop fuel _ _ b').map _ = _
    rw [headD_cons] at hnext
    rw [hnext]
    rfl

/-! ## The labels of all boxes -/

section

variable {bs : List (List Span)} (hpos : ∀ b ∈ bs, ∀ s ∈ b, 0 < s.count)

include hpos

theorem labels_readsOf_of_asChar (h : q.asChar = true) :
    (∀ r ∈ q.readsOf 0 bs, ∀ e ∈ r.2, e.label ≠ .overflow) ↔
      ∀ b ∈ bs, ∀ row ∈ q.rows b, q.Fits (row.headD []) := by
  induction bs with
  | nil => simp [readsOf]
  | cons b bs ih =>
    obtain ⟨hb, hbs⟩ := forall_mem_cons.mp hpos
    obtain ⟨hlast, hlabels⟩ := labels_of_asChar h (q.rows b) 0
    rw [readsOf, printDataset_eq hb, hlast, forall_mem_cons, forall_mem_cons, ih hbs, hlabels]

theorem labels_readsOf_of_plain (h : q.asChar = false) {col : Nat} (hcol : col < q.ncols) :
    (∀ r ∈ q.readsOf col bs, ∀ e ∈ r.2, e.label ≠ .overflow) ↔
      ∀ k p, (bs.flatMap elements)[k]? = some p → (col + k) % q.ncols = 0 → q.Fits p := by
  induction bs generalizing col with
  | nil => simp [readsOf]
  | cons b bs ih =>
    obtain ⟨hb, hbs⟩ := forall_mem_cons.mp hpos
    have hrows : q.rows b = (elements b).map fun p => [p] := if_neg (by simp [h])
    obtain ⟨hlast, hlabels⟩ := labels_of_plain h (elements b) hcol 0
    rw [readsOf, printDataset_eq hb, hrows, hlast, forall_mem_cons,
      ih hbs (Nat.mod_lt _ q.ncols_pos), hlabels, flatMap_cons]
    simp only [Nat.mod_add_mod]
    constructor
    · rintro ⟨hfirst, hrest⟩ k p hk hcol
      by_cases hlt : k < (elements b).length
      · exact hfirst k p (by rwa [getElem?_append_left hlt] at hk) hcol
      · rw [getElem?_append_right (by omega)] at hk
        refine hrest _ p hk ?_
        rwa [Nat.add_assoc, Nat.add_sub_of_le (by omega)]
    · refine fun hall => ⟨fun k p hk => hall k p ?_, fun k p hk hcol => ?_⟩
      · rwa [getElem?_append_left (List.getElem?_eq_some_iff.mp hk).1]
      · refine hall ((elements b).length + k) p ?_ (by rwa [← Nat.add_assoc])
        rwa [getElem?_append_right (Nat.le_add_right _ _), Nat.add_sub_cancel_left]

end

theorem forall₂_of_pieces {rs : List Nat} (h : Pieces box rs ls) (hb : b ∈ combinations ls) :
    Forall₂ (fun s r => 0 < s.count ∧ s.count ≤ r) b rs ∧
      ∀ s ∈ b.getLast?, ∃ t ∈ box.getLast?, ∃ r ∈ rs.getLast?, PieceOf t r s := by
  rw [mem_combinations] at hb
  induction h generalizing b with
  | nil =>
    cases hb
    exact ⟨.nil, nofun⟩
  | @cons t r l box rs ls hl _ ih =>
    cases hb with
    | @cons x _ b _ hx hb =>
      obtain ⟨hsizes, hlast⟩ := ih hb
      have hpiece := hl.pieces x hx
      refine ⟨.cons ⟨hpiece.pos, hpiece.count_le⟩ hsizes, fun s hs => ?_⟩
      rw [getLast?_cons] at hs
      cases hb' : b.getLast? with
      | none =>
        obtain rfl := getLast?_eq_none_iff.mp hb'
        obtain rfl : x = s := Option.some.inj hs
        cases hsizes
        cases ‹Pieces box [] ls›
        exact ⟨t, rfl, r, rfl, hpiece⟩
      | some s' =>
        rw [hb'] at hs
        obtain rfl : s' = s := Option.some.inj hs
        obtain ⟨t', ht', r', hr', hpiece'⟩ := hlast s' hb'
        refine ⟨t', ?_, r', ?_, hpiece'⟩
        · rw [getLast?_cons, Option.mem_def.mp ht']
          rfl
        · rw [getLast?_cons, Option.mem_def.mp hr']
          rfl

theorem lineStart_iff (h : q.asChar = true) (hpieces : Pieces q.box q.readn ls)
    {P : List Nat → Prop} :
    (∀ b ∈ combinations ls, ∀ row ∈ q.rows b, P (row.headD [])) ↔
      ∀ k p, ((combinations ls).flatMap elements)[k]? = some p → q.LineStart k p → P p := by
  have hlines (k : Nat) (p : List Nat) : q.LineStart k p ↔ ∀ s ∈ q.box.getLast?,
      ∀ r ∈ q.readn.getLast?, ∀ x ∈ p.getLast?, (x - s.start) % r = 0 := by
    rw [LineStart, if_pos h]
  have hrows (b : List Span) (s : Span) (hs : b.getLast? = some s) : q.rows b =
      (elements b.dropLast).map fun p => (range' s.start s.count).map fun x => p ++ [x] := by
    rw [rows, if_pos h, hs]
  constructor
  · intro hall k p hp hline
    obtain ⟨b, hb, hmem⟩ := mem_flatMap.mp (mem_of_getElem? hp)
    rw [← flatten_rows (q := q) b] at hmem
    obtain ⟨row, hrow, hpr⟩ := mem_flatten.mp hmem
    have hhead := hall b hb row hrow
    cases hlast : b.getLast? with
    | none =>
      rw [rows, if_pos h, hlast] at hrow
      obtain rfl := mem_singleton.mp hrow
      obtain rfl := mem_singleton.mp hpr
      exact hhead
    | some s =>
      obtain ⟨t, ht, r, hr, hpiece⟩ := (forall₂_of_pieces hpieces hb).2 s hlast
      rw [hrows b s hlast] at hrow
      obtain ⟨p', -, rfl⟩ := mem_map.mp hrow
      obtain ⟨x, hx, rfl⟩ := mem_map.mp hpr
      obtain ⟨hle, hlt⟩ := mem_range'_1.mp hx
      -- a piece is not longer than a step, so that no other element of it begins a line
      have hmod := (hlines k _).mp hline t ht r hr x (by simp)
      have hsplit : x - t.start = (s.start - t.start) + (x - s.start) := by
        have := hpiece.start_le
        omega
      rw [hsplit, Nat.add_mod, hpiece.step, Nat.zero_add, Nat.mod_mod,
        Nat.mod_eq_of_lt (by have := hpiece.count_le; omega)] at hmod
      obtain ⟨n, hn⟩ := Nat.exists_eq_add_one.mpr hpiece.pos
      rw [hn, range'_succ, map_cons, headD_cons] at hhead
      have hx' : x = s.start := by omega
      rwa [hx']
  · intro hall b hb row hrow
    have hmem : row.headD [] ∈ elements b := by
      rw [← flatten_rows (q := q) b]
      have hpos : ∀ s ∈ b, 0 < s.count := fun s hs => by
        obtain ⟨r, -, hr⟩ := Lists.exists_of_forall₂_mem (forall₂_of_pieces hpieces hb).1 hs
        exact hr.1
      obtain ⟨init, last, hinit, -⟩ := jump_of_mem_rows hpos hrow
      refine mem_flatten.mpr ⟨row, hrow, ?_⟩
      rw [hinit]
      cases init <;> simp
    obtain ⟨k, hk⟩ := mem_iff_getElem?.mp (mem_flatMap.mpr ⟨b, hb, hmem⟩)
    refine hall k _ hk ((hlines k _).mpr fun t ht r hr x hx => ?_)
    cases hlast : b.getLast? with
    | none =>
      rw [rows, if_pos h, hlast] at hrow
      obtain rfl := mem_singleton.mp hrow
      cases hx
    | some s =>
      obtain ⟨t', ht', r', hr', hpiece⟩ := (forall₂_of_pieces hpieces hb).2 s hlast
      cases ht.symm.trans ht'
      cases hr.symm.trans hr'
      rw [hrows b s hlast] at hrow
      obtain ⟨p', -, rfl⟩ := mem_map.mp hrow
      obtain ⟨n, hn⟩ := Nat.exists_eq_add_one.mpr hpiece.pos
      rw [hn, range'_succ, map_cons, headD_cons] at hx
      obtain rfl : s.start = x := by simpa using hx
      exact hpiece.step

/-! ## What is right -/

theorem box_eq : q.box = q.dims.map Dim.span :=
  map_congr_left fun d hd => Dim.read_eq (q.inside d hd)

theorem coordinate_lt {p : List Nat} (hp : p ∈ elements q.box) : ∀ x ∈ p, x < 2 ^ 63 := by
  have hcontains := mem_elements.mp hp
  rw [box_eq, Contains, forall₂_map_left_iff] at hcontains
  have hstop (d : Dim) (hd : d ∈ q.dims) : d.span.stop ≤ d.extent.toNat := by
    obtain ⟨hstart, hcount, hle⟩ := q.inside d hd
    show d.start.toNat + d.count.toNat ≤ _
    omega
  have hpos : 0 < volume (q.dims.map fun d => d.extent.toNat) := volume_pos fun e he => by
    obtain ⟨d, hd, rfl⟩ := mem_map.mp he
    obtain ⟨x, -, hx⟩ := Lists.exists_of_forall₂_mem hcontains hd
    exact Nat.lt_of_le_of_lt (Nat.zero_le x) (Nat.lt_of_lt_of_le hx.2 (hstop d hd))
  intro x hx
  obtain ⟨d, hd, hlt⟩ := Lists.exists_of_forall₂_mem hcontains.flip hx
  exact Nat.lt_of_lt_of_le (Nat.lt_of_lt_of_le hlt.2 (hstop d hd))
    ((le_volume hpos _ (mem_map_of_mem hd)).trans (Nat.le_of_lt q.few))

theorem goesThrough_wheels {rs : List Nat} (h : Pieces box rs ls) :
    Forall₂ Wheel.GoesThrough (zipWith advance box rs) ls := by
  induction h with
  | nil => exact .nil
  | cons h _ ih => exact .cons h.goesThrough ih

theorem printed_readsOf {bs : List (List Span)} (hpos : ∀ b ∈ bs, ∀ s ∈ b, 0 < s.count)
    (hsmall : ∀ b ∈ bs, ∀ p ∈ elements b, ∀ x ∈ p, x < 2 ^ 63)
    (h : ∀ r ∈ q.readsOf col bs, ∀ e ∈ r.2, e.label ≠ .overflow) :
    ∀ r ∈ q.readsOf col bs, Printed r := by
  induction bs generalizing col with
  | nil => exact forall_mem_nil _
  | cons b bs ih =>
    obtain ⟨hb, hbs⟩ := forall_mem_cons.mp hpos
    obtain ⟨hcoords, hcoordss⟩ := forall_mem_cons.mp hsmall
    obtain ⟨hlabels, hlabelss⟩ := forall_mem_cons.mp h
    refine forall_mem_cons.mpr ⟨?_, ih hbs hcoordss hlabelss⟩
    dsimp only at hlabels ⊢
    rw [printDataset_eq hb] at hlabels ⊢
    have hrows : ∀ row ∈ q.rows b, row ≠ [] := fun row hrow => by
      obtain ⟨init, last, rfl, -⟩ := jump_of_mem_rows hb hrow
      exact append_ne_nil_of_right_ne_nil _ (cons_ne_nil _ _)
    have hindices := indices_entriesOf (q := q) hrows [] col
    rw [nil_append, flatten_rows] at hindices
    refine ⟨?_, hindices, fun e he => ?_⟩
    · dsimp only
      rw [values_entriesOf, flatten_rows, length_elements, range_eq_range']
    · obtain ⟨col', hcol'⟩ := exists_label _ _ _ e he
      have hlabel := hlabels e he
      rw [hcol'] at hlabel ⊢
      exact label_eq (hcoords _ (mem_of_getElem? (hindices e he))) hlabel

theorem maxreadn_le : q.maxreadn ≤ q.buffer := by
  unfold maxreadn buffer
  cases q.string with
  | none => exact Nat.min_le_left _ _
  | some len => exact Nat.le_refl _

theorem exists_reads : ∃ reads n, (∀ fuel ≥ n, q.readLoop fuel 0 0 (q.wheels.map Wheel.first) =
    some reads) ∧ ((∀ r ∈ reads, ∀ e ∈ r.2, e.label ≠ .overflow) ↔ ∀ k p,
      (elements q.box)[k]? = some p → q.LineStart k p → q.Fits p) ∧
    ((∀ r ∈ reads, ∀ e ∈ r.2, e.label ≠ .overflow) → q.Correct reads) := by
  by_cases hempty : volume (sizes q.box) = 0
  · have hnone : elements q.box = [] := length_eq_zero_iff.mp ((length_elements _).trans hempty)
    refine ⟨[], 1, fun fuel hfuel => ?_, by simp [hnone], fun _ => ⟨?_, .nil, nofun, nofun⟩⟩
    · obtain ⟨fuel, rfl⟩ := Nat.exists_eq_add_one.mpr hfuel
      exact if_neg (by omega)
    · rw [← box_eq, hnone]
      rfl
  have hcounts := pos_of_volume_pos (Nat.pos_of_ne_zero hempty)
  have hmax : 0 < q.maxreadn := by
    have hlimit := q.limit_pos
    unfold maxreadn
    cases q.string with
    | none => show 0 < min _ _; omega
    | some len => exact Nat.succ_pos len
  obtain ⟨ls, hpieces, horder⟩ := exists_pieces hmax hcounts
  have hflat := flatMap_elements horder
  have hboxes {b : List Span} (hb : b ∈ combinations ls) := (forall₂_of_pieces hpieces hb).1
  have hpos (b : List Span) (hb : b ∈ combinations ls) : ∀ s ∈ b, 0 < s.count := fun s hs => by
    obtain ⟨r, -, hr⟩ := Lists.exists_of_forall₂_mem (hboxes hb) hs
    exact hr.1
  have hvolume (b : List Span) (hb : b ∈ combinations ls) : 0 < volume (sizes b) :=
    volume_pos fun d hd => by
      obtain ⟨s, hs, rfl⟩ := mem_map.mp hd
      exact hpos b hb s hs
  obtain ⟨⟨rest, hhead⟩, hshows⟩ := goesThrough_combinations (goesThrough_wheels hpieces)
  have hsum : 0 + ((combinations ls).map fun b => volume (sizes b)).sum = volume (sizes q.box) := by
    rw [Nat.zero_add, ← length_elements, ← hflat, length_flatMap]
    congr 1
    exact map_congr_left fun b _ => (length_elements b).symm
  have hloop (fuel : Nat) (hfuel : (combinations ls).length + 1 ≤ fuel) :=
    readLoop_eq hshows hvolume hsum hfuel 0
  rw [hhead, headD_cons, ← hhead] at hloop
  refine ⟨_, _, hloop, ?_, fun hlabels => ⟨?_, ?_, fun r hr => ?_, ?_⟩⟩
  · rw [← hflat]
    cases hchar : q.asChar with
    | true => rw [labels_readsOf_of_asChar hpos hchar, lineStart_iff hchar hpieces]
    | false =>
      rw [labels_readsOf_of_plain hpos hchar q.ncols_pos]
      simp [LineStart, hchar]
  · rw [← box_eq, ← hflat, ← flatMap_map, map_fst_readsOf]
  · have hnodup := nodup_elements q.box
    rw [← hflat, nodup_flatMap] at hnodup
    have hpairs := hnodup.2
    rw [← map_fst_readsOf (q := q) (combinations ls) 0, pairwise_map] at hpairs
    exact hpairs.imp fun hdisjoint p hp => hdisjoint hp.1 hp.2
  · have hmem : r.1 ∈ combinations ls := by
      rw [← map_fst_readsOf (q := q) (combinations ls) 0]
      exact mem_map_of_mem hr
    refine (volume_mono ?_).trans ((strategy_spec hmax hcounts).2.trans maxreadn_le)
    exact forall₂_map_left_iff.mpr ((hboxes hmem).imp fun _ _ hle => hle.2)
  · refine printed_readsOf hpos (fun b hb p hp => coordinate_lt (q := q) ?_) hlabels
    rw [← hflat]
    exact mem_flatMap.mpr ⟨b, hb, hp⟩

def seventeen : Input where
  dims := replicate 17 ⟨1, 0, 1⟩
  inside := fun d hd => by
    obtain rfl := eq_of_mem_replicate hd
    exact ⟨by decide, by decide, by decide⟩
  few := by decide
  limit := 1
  limit_pos := Nat.one_pos
  string := none
  scalar := fun h => absurd rfl h
  ncols := 6
  ncols_pos := by decide
  noindex := false
  asChar := false

end Input

end Adios.Bpls
