import Adios.Core.Strtod
import Adios.Lists.Results

/-!
# Core — the geometry of a uniform mesh

`common_read_complete_meshinfo` for a uniform mesh, behind its dimensions: three calls of
`adios_get_uniform_mesh_attr`, and then the spacings are compared with the maximums. The numbers are
those that the `double`s stand for, and arithmetic on them is exact.
-/

namespace Adios.UniformMesh

open List
open Strtod (Text strtod endsThere)

inductive Attrs where
  | origins | spacings | maximums
  deriving DecidableEq

/-- What the reader finds: the number of values, each of them, and the value of a variable, if its
type has one. -/
structure File where
  num : Attrs → Option Int
  value : Attrs → Nat → Option Text
  findVar : Text → Option (Option ℚ)

structure Dimensions where
  dimensions : List UInt64
  few : dimensions.length < 10

inductive Failure where
  /-- `err_mesh_unifrom_invalid_num_max` -/
  | invalidNumMax
  /-- `err_mesh_unifrom_missing_maximum` -/
  | missingMaximum
  /-- `err_mesh_unifrom_invalid_var_type` -/
  | invalidVarType
  /-- `err_mesh_unifrom_max_conflict` -/
  | maxConflict
  | notFinite
  deriving DecidableEq

/-- `MESH_UNIFORM`, behind its dimensions. -/
structure Uniform where
  origins : List ℚ
  spacings : List ℚ
  maximums : List ℚ

def Uniform.get (u : Uniform) : Attrs → List ℚ
  | .origins => u.origins
  | .spacings => u.spacings
  | .maximums => u.maximums

def nth (l : List ℚ) (i : Nat) : ℚ := l.getD i 0

def Attrs.initial : Attrs → ℚ
  | .spacings => 1
  | _ => 0

namespace File

variable (f : File)

/-- "`We use default value`", but a maximum has none. -/
def missing (attrs : Attrs) : Except Failure ℚ :=
  if attrs = .maximums then .error .missingMaximum else .ok attrs.initial

def entry (attrs : Attrs) (i : Nat) : Except Failure ℚ :=
  match f.value attrs i with
  | none => missing attrs
  | some text =>
    if endsThere text then
      match strtod text with
      | some (.finite d1, _) => .ok d1
      | some _ => .error .notFinite
      | none => .ok 0
    else
      match f.findVar text with
      | some (some value) => .ok value
      | some none => .error .invalidVarType
      | none => missing attrs

/-- `adios_get_uniform_mesh_attr`, with the maximums that are computed where none are found, and
whether 1 is returned. There are as many values as dimensions, whatever their number says. -/
def getUniformMeshAttr (mesh : Dimensions) (attrs : Attrs) (computed : List ℚ) :
    Except Failure (List ℚ × Bool) :=
  let n := mesh.dimensions.length
  match f.num attrs with
  | some numAttr =>
    if attrs = .maximums ∧ numAttr < n then .error .invalidNumMax
    else do
      let values ← (List.range n).mapM (f.entry attrs)
      .ok (values, attrs ≠ .origins)
  | none =>
    if attrs = .maximums then .ok (computed, false)
    else .ok (List.replicate n attrs.initial, attrs = .spacings)

/-- `common_read_complete_meshinfo`, behind the dimensions. -/
def completeMeshinfo (mesh : Dimensions) : Except Failure Uniform := do
  let n := mesh.dimensions.length
  let d (i : Nat) : UInt64 := mesh.dimensions.getD i 0
  let (origins, _) ← f.getUniformMeshAttr mesh .origins []
  let (spacings, haveSpacings) ← f.getUniformMeshAttr mesh .spacings []
  let computed := (List.range n).map fun i =>
    ((d i).toNat - 1) * nth spacings i + nth origins i
  let (maximums, haveMaximums) ← f.getUniformMeshAttr mesh .maximums computed
  if haveSpacings ∧ haveMaximums then
    if ∃ i ∈ List.range n, d i - 1 = 0 then .error .notFinite
    else if ∃ i ∈ List.range n,
        nth spacings i ≠ (nth maximums i - nth origins i) / (d i - 1).toNat then
      .error .maxConflict
    else .ok ⟨origins, spacings, maximums⟩
  else .ok ⟨origins, spacings, maximums⟩

end File

/-! ## What is read -/

structure Input where
  file : File
  mesh : Dimensions
  given : Attrs → Option (List ℚ)
  valid : ∀ d ∈ mesh.dimensions, 2 ≤ d
  absent : ∀ attrs, given attrs = none → file.num attrs = none
  num : ∀ attrs l, given attrs = some l → file.num attrs = some (l.length : Int) ∧
    l.length = mesh.dimensions.length
  literal : ∀ attrs l, given attrs = some l → ∀ i < l.length,
    ∃ text, file.value attrs i = some text ∧ strtod text = some (.finite (nth l i), [])

namespace Input

variable (q : Input)

def n : Nat := q.mesh.dimensions.length

def dimension (i : Nat) : ℚ := (q.mesh.dimensions.getD i 0).toNat

def listOf (attrs : Attrs) : List ℚ := (q.given attrs).getD (List.replicate q.n attrs.initial)

def Agree : Prop :=
  ∀ s m, q.given .spacings = some s → q.given .maximums = some m → ∀ i < q.n,
    nth m i = nth (q.listOf .origins) i + (q.dimension i - 1) * nth s i

structure Consistent (u : Uniform) : Prop where
  geometry : ∀ i < q.n,
    nth u.maximums i = nth u.origins i + (q.dimension i - 1) * nth u.spacings i
  unchanged : ∀ attrs l, q.given attrs = some l → u.get attrs = l
  origins : q.given .origins = none → u.origins = List.replicate q.n 0
  spacings : q.given .spacings = none → q.given .maximums = none →
    u.spacings = List.replicate q.n 1

structure Right : Prop where
  succeeds : q.Agree → ∃ u, q.file.completeMeshinfo q.mesh = .ok u ∧ q.Consistent u
  fails : ¬q.Agree → ∃ e, q.file.completeMeshinfo q.mesh = .error e

def Clear : Prop :=
  ∀ m, q.given .spacings = none → q.given .maximums = some m → ∀ i < q.n,
    nth m i = nth (q.listOf .origins) i + (q.dimension i - 1)

/-! ## The calls -/

variable {q}

variable {i : Nat} {attrs : Attrs}

theorem nth_map_range {n : Nat} (f : Nat → ℚ) (hi : i < n) :
    nth ((List.range n).map f) i = f i := by
  simp [nth, hi]

theorem entry_eq {l : List ℚ} (h : q.given attrs = some l) (hi : i < l.length) :
    q.file.entry attrs i = .ok (nth l i) := by
  obtain ⟨text, hvalue, hstrtod⟩ := q.literal attrs l h i hi
  have hend : endsThere text = true := by simp [endsThere, hstrtod]
  rw [File.entry, hvalue]
  dsimp only
  rw [if_pos hend, hstrtod]

theorem getUniformMeshAttr_of_given {l : List ℚ} (h : q.given attrs = some l) (computed : List ℚ) :
    q.file.getUniformMeshAttr q.mesh attrs computed = .ok (l, decide (attrs ≠ .origins)) := by
  obtain ⟨hnum, hlength⟩ := q.num attrs l h
  have hentries : (List.range q.mesh.dimensions.length).mapM (q.file.entry attrs) = .ok l := by
    refine Lists.mapM_eq_ok_iff.mpr (forall₂_iff_get.mpr ⟨?_, fun i hi hl => ?_⟩)
    · rw [length_range, hlength]
    · have hget : l.get ⟨i, hl⟩ = nth l i := by simp [nth, hl]
      simp only [get_eq_getElem, getElem_range]
      rw [entry_eq h hl, ← hget]
      rfl
  rw [File.getUniformMeshAttr, hnum]
  dsimp only
  rw [if_neg (by omega), hentries]
  rfl

theorem getUniformMeshAttr_of_absent (h : q.given attrs = none) (hattrs : attrs ≠ .maximums)
    (computed : List ℚ) :
    q.file.getUniformMeshAttr q.mesh attrs computed =
      .ok (List.replicate q.n attrs.initial, decide (attrs = .spacings)) := by
  rw [File.getUniformMeshAttr, q.absent attrs h]
  exact if_neg hattrs

theorem exists_getUniformMeshAttr (hattrs : attrs ≠ .maximums) (computed : List ℚ) :
    q.file.getUniformMeshAttr q.mesh attrs computed =
      .ok (q.listOf attrs, decide (attrs = .spacings)) := by
  cases h : q.given attrs with
  | none =>
    rw [getUniformMeshAttr_of_absent h hattrs, listOf, h]
    rfl
  | some l =>
    rw [getUniformMeshAttr_of_given h, listOf, h]
    cases attrs with
    | origins => rfl
    | spacings => rfl
    | maximums => exact absurd rfl hattrs

theorem toNat_sub_one {d : UInt64} (hd : 2 ≤ d) :
    ((d - 1).toNat : ℚ) = d.toNat - 1 ∧ ((d - 1).toNat : ℚ) ≠ 0 ∧ d - 1 ≠ 0 := by
  have hle : 2 ≤ d.toNat := UInt64.le_iff_toNat_le.mp hd
  have hsub : (d - 1).toNat = d.toNat - 1 :=
    UInt64.toNat_sub_of_le _ _ (UInt64.le_iff_toNat_le.mpr (Nat.le_of_succ_le hle))
  refine ⟨by rw [hsub, Nat.cast_sub (by omega), Nat.cast_one], ?_, fun hzero => ?_⟩
  · rw [Nat.cast_ne_zero]
    omega
  · rw [hzero] at hsub
    have : (0 : UInt64).toNat = 0 := rfl
    omega

theorem two_le_dimension (hi : i < q.n) : 2 ≤ q.mesh.dimensions.getD i 0 := by
  rw [getD_eq_getElem?_getD, getElem?_eq_getElem hi]
  exact q.valid _ (getElem_mem hi)

/-! ## The comparison -/

theorem spacing_eq_iff (hi : i < q.n) (s m o : ℚ) :
    s = (m - o) / (q.mesh.dimensions.getD i 0 - 1).toNat ↔ m = o + (q.dimension i - 1) * s := by
  obtain ⟨hcast, hne, -⟩ := toNat_sub_one (two_le_dimension hi)
  rw [eq_div_iff hne, hcast, eq_sub_iff_add_eq, eq_comm, mul_comm, add_comm]
  rfl

theorem completeMeshinfo_of_absent (h : q.given .maximums = none) :
    q.file.completeMeshinfo q.mesh = .ok ⟨q.listOf .origins, q.listOf .spacings,
      (List.range q.n).map fun i =>
        (q.dimension i - 1) * nth (q.listOf .spacings) i + nth (q.listOf .origins) i⟩ := by
  rw [File.completeMeshinfo, exists_getUniformMeshAttr (by decide),
    exists_getUniformMeshAttr (by decide)]
  simp only [bind, Except.bind, File.getUniformMeshAttr, q.absent _ h]
  rfl

theorem completeMeshinfo_of_given {m : List ℚ} (h : q.given .maximums = some m) :
    q.file.completeMeshinfo q.mesh =
      if ∀ i < q.n, nth m i = nth (q.listOf .origins) i +
        (q.dimension i - 1) * nth (q.listOf .spacings) i then
        .ok ⟨q.listOf .origins, q.listOf .spacings, m⟩
      else .error .maxConflict := by
  have hfinite : ¬∃ i ∈ List.range q.mesh.dimensions.length,
      q.mesh.dimensions.getD i 0 - 1 = 0 := by
    rintro ⟨i, hi, hzero⟩
    exact (toNat_sub_one (two_le_dimension (mem_range.mp hi))).2.2 hzero
  have hconflict : (∃ i ∈ List.range q.mesh.dimensions.length, nth (q.listOf .spacings) i ≠
      (nth m i - nth (q.listOf .origins) i) / (q.mesh.dimensions.getD i 0 - 1).toNat) ↔
      ¬∀ i < q.n, nth m i = nth (q.listOf .origins) i +
        (q.dimension i - 1) * nth (q.listOf .spacings) i := by
    push Not
    refine exists_congr fun i => ⟨fun ⟨hi, hne⟩ => ?_, fun ⟨hi, hne⟩ => ?_⟩
    · exact ⟨mem_range.mp hi, (spacing_eq_iff (mem_range.mp hi) _ _ _).not.mp hne⟩
    · exact ⟨mem_range.mpr hi, (spacing_eq_iff hi _ _ _).not.mpr hne⟩
  rw [File.completeMeshinfo, exists_getUniformMeshAttr (by decide),
    exists_getUniformMeshAttr (by decide)]
  simp only [bind, Except.bind, getUniformMeshAttr_of_given h]
  rw [if_pos (by decide), if_neg hfinite]
  by_cases hagree : ∀ i < q.n, nth m i = nth (q.listOf .origins) i +
      (q.dimension i - 1) * nth (q.listOf .spacings) i
  · rw [if_neg (hconflict.not.mpr (not_not_intro hagree)), if_pos hagree]
  · rw [if_pos (hconflict.mpr hagree), if_neg hagree]

theorem consistent_of_geometry {m : List ℚ} (hgeometry : ∀ i < q.n,
    nth m i = nth (q.listOf .origins) i + (q.dimension i - 1) * nth (q.listOf .spacings) i)
    (hm : ∀ l, q.given .maximums = some l → m = l) :
    q.Consistent ⟨q.listOf .origins, q.listOf .spacings, m⟩ := by
  refine ⟨hgeometry, fun attrs l hl => ?_, fun h => ?_, fun h _ => ?_⟩
  · cases attrs with
    | origins => simp [Uniform.get, listOf, hl]
    | spacings => simp [Uniform.get, listOf, hl]
    | maximums => exact hm l hl
  · simp [listOf, h, Attrs.initial]
  · simp [listOf, h, Attrs.initial]

/-- Every mesh is read with a consistent geometry if and only if the condition holds. -/
theorem uniformMesh_right_iff (q : Input) : q.Right ↔ q.Clear := by
  cases hm : q.given .maximums with
  | none =>
    refine ⟨fun _ m _ hgiven => ?_, fun _ => ⟨fun _ => ⟨_, completeMeshinfo_of_absent hm,
      consistent_of_geometry (fun i hi => ?_) (by simp [hm])⟩, fun hagree => ?_⟩⟩
    · rw [hm] at hgiven
      cases hgiven
    · rw [nth_map_range _ hi, add_comm]
    · exact absurd (fun s m _ hgiven => by rw [hm] at hgiven; cases hgiven) hagree
  | some m =>
    have hcomplete := completeMeshinfo_of_given hm
    cases hs : q.given .spacings with
    | none =>
      -- nothing to disagree with, but the initial spacings are compared
      have hones (i : Nat) (hi : i < q.n) : nth (q.listOf .spacings) i = 1 := by
        simp [listOf, hs, Attrs.initial, nth, hi]
      have hagree : q.Agree := fun s _ hgiven => by rw [hs] at hgiven; cases hgiven
      constructor
      · intro hright m' _ hm' i hi
        obtain ⟨u, hu, -⟩ := hright.succeeds hagree
        rw [hcomplete] at hu
        split_ifs at hu with hgeometry
        cases hm.symm.trans hm'
        rw [hgeometry i hi, hones i hi, mul_one]
      · intro hclear
        have hgeometry : ∀ i < q.n, nth m i = nth (q.listOf .origins) i +
            (q.dimension i - 1) * nth (q.listOf .spacings) i := by
          intro i hi
          rw [hones i hi, mul_one]
          exact hclear m hs hm i hi
        rw [if_pos hgeometry] at hcomplete
        exact ⟨fun _ => ⟨_, hcomplete, consistent_of_geometry hgeometry (by simp [hm])⟩,
          fun h => absurd hagree h⟩
    | some s =>
      refine ⟨fun _ m' hgiven => ?_, fun _ => ?_⟩
      · rw [hs] at hgiven
        cases hgiven
      have hlist : q.listOf .spacings = s := by simp [listOf, hs]
      rw [hlist] at hcomplete
      constructor
      · intro hagree
        have hgeometry := hagree s m hs hm
        rw [if_pos hgeometry, ← hlist] at hcomplete
        exact ⟨_, hcomplete, consistent_of_geometry (hlist ▸ hgeometry) (by simp [hm])⟩
      · intro hagree
        have hgeometry := fun hgeometry => hagree fun s' m' hs' hm' => by
          cases hs.symm.trans hs'
          cases hm.symm.trans hm'
          exact hgeometry
        exact ⟨_, hcomplete.trans (if_neg hgeometry)⟩

def maximumsAlone : Input where
  file := ⟨fun attrs => if attrs = .maximums then some 2 else none, fun _ _ => some [50],
    fun _ => none⟩
  mesh := ⟨[2, 2], by decide⟩
  given := fun attrs => if attrs = .maximums then some [2, 2] else none
  valid := fun d hd => by
    obtain rfl : d = 2 := by simpa using hd
    exact UInt64.le_refl 2
  absent := fun attrs h => by cases attrs <;> simp_all
  num := fun attrs l h => by
    have hl : l = [2, 2] := by cases attrs <;> simp_all
    subst hl
    cases attrs <;> simp_all
  literal := fun attrs l h i hi => by
    have hl : l = [2, 2] := by cases attrs <;> simp_all
    subst hl
    have hdigits : ∀ c ∈ [(50 : UInt8)], ScalarString.isDigit c = true :=
      fun c hc => by rw [mem_singleton.mp hc]; rfl
    have htwo := Strtod.strtod_digits hdigits (cons_ne_nil _ _) false
    refine ⟨[50], rfl, htwo.trans ?_⟩
    have hnth : nth [2, 2] i = 2 := by
      match i with
      | 0 => rfl
      | 1 => rfl
      | i + 2 => simp at hi
    rw [hnth]
    rfl

/-- They are compared with spacings of one. -/
theorem not_right_maximumsAlone : ¬maximumsAlone.Right := by
  intro hright
  obtain ⟨u, hu, -⟩ := hright.succeeds fun s m hs => by cases hs
  rw [completeMeshinfo_of_given (m := [2, 2]) rfl] at hu
  split_ifs at hu with hgeometry
  have := hgeometry 0 (by decide)
  revert this
  simp [nth, listOf, maximumsAlone, dimension, Attrs.initial, n]
  exact fun h => one_ne_zero (sub_eq_self.mp h.symm)

end Input

end Adios.UniformMesh
