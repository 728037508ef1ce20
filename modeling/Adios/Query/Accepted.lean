import Adios.Query.Leaves

/-!
# Adios — the query trees that are accepted

A check compares the leftmost leaves of the two sides of each combination, so it sees as many
pairs as there are combinations. What it says of all leaves follows where the comparison is that of
a value of each leaf.
-/

namespace Adios

open List

/-! ## Trees -/

def Query.leaves : Query → List LeafQuery
  | .leaf q => [q]
  | .node _ left right => left.leaves ++ right.leaves

def Query.firstLeaf : Query → LeafQuery
  | .leaf q => q
  | .node _ left _ => left.firstLeaf

def Query.mapLeaves (f : LeafQuery → LeafQuery) : Query → Query
  | .leaf q => .leaf (f q)
  | .node op left right => .node op (left.mapLeaves f) (right.mapLeaves f)

def Query.Joined (R : LeafQuery → LeafQuery → Prop) : Query → Prop
  | .leaf _ => True
  | .node _ left right => left.Joined R ∧ right.Joined R ∧ R left.firstLeaf right.firstLeaf

/-- A tree that `common_query_combine` made from leaves. -/
inductive Query.Built : Query → Prop where
  | leaf (q : LeafQuery) : Built (.leaf q)
  | combine {q1 q2 q : Query} {op : ClauseOp} (h1 : Built q1) (h2 : Built q2)
      (h : commonQueryCombine q1 op q2 = some q) : Built q

def Query.AcceptedAt (q : Query) (timeStep : Int) : Prop :=
  q.Built ∧ ∃ result q', checkQueryAtTimestep q timeStep = .ok (result, q') ∧ result ≠ -1

@[simp] theorem Query.firstLeaf_mem (q : Query) : q.firstLeaf ∈ q.leaves := by
  induction q with
  | leaf q => exact mem_singleton_self q
  | node op left right ihLeft ihRight => exact mem_append_left _ ihLeft

@[simp] theorem Query.firstLeaf_mapLeaves (f : LeafQuery → LeafQuery) (q : Query) :
    (q.mapLeaves f).firstLeaf = f q.firstLeaf := by
  induction q with
  | leaf q => rfl
  | node op left right ihLeft ihRight => exact ihLeft

theorem Query.Joined.imp {R S : LeafQuery → LeafQuery → Prop} {q : Query}
    (h : q.Joined R) (hRS : ∀ a ∈ q.leaves, ∀ b ∈ q.leaves, R a b → S a b) : q.Joined S := by
  induction q with
  | leaf q => trivial
  | node op left right ihLeft ihRight =>
    obtain ⟨hleft, hright, hfirst⟩ := h
    refine ⟨ihLeft hleft ?_, ihRight hright ?_, ?_⟩
    · exact fun a ha b hb =>
        hRS a (mem_append_left _ ha) b (mem_append_left _ hb)
    · exact fun a ha b hb =>
        hRS a (mem_append_right _ ha) b (mem_append_right _ hb)
    · exact hRS _ (mem_append_left _ (firstLeaf_mem left)) _
        (mem_append_right _ (firstLeaf_mem right)) hfirst

theorem Query.joined_of_forall {R : LeafQuery → LeafQuery → Prop} {q : Query}
    (h : ∀ a ∈ q.leaves, ∀ b ∈ q.leaves, R a b) : q.Joined R := by
  have htrue : q.Joined fun _ _ => True := by
    clear h
    induction q with
    | leaf q => trivial
    | node op left right ihLeft ihRight => exact ⟨ihLeft, ihRight, trivial⟩
  exact htrue.imp fun a ha b hb _ => h a ha b hb

theorem Query.Joined.eq_firstLeaf {α : Type} {f : LeafQuery → α} {q : Query}
    (h : q.Joined fun a b => f a = f b) : ∀ l ∈ q.leaves, f l = f q.firstLeaf := by
  induction q with
  | leaf q =>
    intro l hl
    rw [mem_singleton.mp hl]
    rfl
  | node op left right ihLeft ihRight =>
    obtain ⟨hleft, hright, hfirst⟩ := h
    intro l hl
    show f l = f left.firstLeaf
    rcases mem_append.mp hl with hl | hl
    · exact ihLeft hleft l hl
    · rw [ihRight hright l hl, hfirst]

/-! ## The comparison -/

theorem isCompatible_eq (q1 q2 : Query) :
    isCompatible q1 q2 = isCompatible (.leaf q1.firstLeaf) (.leaf q2.firstLeaf) := by
  induction q1 with
  | leaf q1 =>
    induction q2 with
    | leaf q2 => rfl
    | node op left right ihLeft ihRight =>
      have hdown : isCompatible (.leaf q1) (.node op left right) =
        isCompatible (.leaf q1) left := by
        rw [isCompatible]
      rw [hdown]
      exact ihLeft
  | node op left right ihLeft ihRight =>
    have hdown : isCompatible (.node op left right) q2 = isCompatible left q2 := by
      rw [isCompatible]
    rw [hdown]
    exact ihLeft

theorem isCompatible_leaf_iff (a b : LeafQuery) :
    isCompatible (.leaf a) (.leaf b) = 0 ↔
      a.rawDataSize = b.rawDataSize ∧ isSelectionCompatible a.sel b.sel = 0 := by
  have hnull : ¬(a.sel.isSome ∧ b.sel.isSome) → isSelectionCompatible a.sel b.sel = 0 := by
    cases ha : a.sel <;> cases hb : b.sel <;> simp [isSelectionCompatible]
  rw [isCompatible]
  by_cases hraw : a.rawDataSize = b.rawDataSize
  · by_cases hsome : a.sel.isSome ∧ b.sel.isSome
    · simp [hraw, hsome]
    · simp [hraw, hsome, hnull hsome]
  · simp [hraw]

theorem built_iff (q : Query) :
    q.Built ↔ q.Joined fun a b => isCompatible (.leaf a) (.leaf b) = 0 := by
  constructor
  · intro h
    induction h with
    | leaf q => trivial
    | @combine q1 q2 q op h1 h2 h ih1 ih2 =>
      unfold commonQueryCombine at h
      split_ifs at h with hcompatible
      cases h
      refine ⟨ih1, ih2, ?_⟩
      show isCompatible (.leaf q1.firstLeaf) (.leaf q2.firstLeaf) = 0
      rw [← isCompatible_eq]
      exact not_not.mp hcompatible
  · intro h
    induction q with
    | leaf q => exact .leaf q
    | node op left right ihLeft ihRight =>
      obtain ⟨hleft, hright, hfirst⟩ := h
      rw [← isCompatible_eq] at hfirst
      refine .combine (ihLeft hleft) (ihRight hright) (?_ : commonQueryCombine left op right = _)
      rw [commonQueryCombine, if_neg (not_not.mpr hfirst)]

def LeafQuery.Matches (timeStep : Int) (a b : LeafQuery) : Prop :=
  a.elementCount timeStep = b.elementCount timeStep ∧ isSelectionCompatible a.sel b.sel = 0

theorem checkQueryAtTimestep_of_judged {q : Query} {timeStep : Int} (hpos : 0 ≤ timeStep)
    (h : ∀ l ∈ q.leaves, l.JudgedAt timeStep) :
    ∃ result, checkQueryAtTimestep q timeStep =
        .ok (result, q.mapLeaves (LeafQuery.checked timeStep)) ∧
      (result ≠ -1 ↔ (∀ l ∈ q.leaves, l.ValidAt timeStep) ∧
        q.Joined (LeafQuery.Matches timeStep)) := by
  induction q with
  | leaf l =>
    obtain ⟨result, hcheck, hiff⟩ := checkLeafAtTimestep_of_judged (h l (mem_singleton_self l))
    refine ⟨result, ?_, ?_⟩
    · rw [checkQueryAtTimestep, hcheck]
      rfl
    · rw [hiff]
      simp [Query.leaves, Query.Joined]
  | node op left right ihLeft ihRight =>
    obtain ⟨leftStep, hleft, hleftIff⟩ := ihLeft fun l hl => h l (mem_append_left _ hl)
    obtain ⟨rightStep, hright, hrightIff⟩ := ihRight fun l hl => h l (mem_append_right _ hl)
    have hleaves : (∀ l ∈ left.leaves ++ right.leaves, l.ValidAt timeStep) ↔
        (∀ l ∈ left.leaves, l.ValidAt timeStep) ∧ ∀ l ∈ right.leaves, l.ValidAt timeStep :=
      forall_mem_append
    rw [checkQueryAtTimestep, if_neg (not_lt.mpr hpos)]
    simp only [hleft, hright, bind, Except.bind]
    by_cases hfail : rightStep = -1 ∨ leftStep = -1
    · refine ⟨-1, by rw [if_pos hfail]; rfl, ?_⟩
      simp only [ne_eq, not_true_eq_false, false_iff]
      rintro ⟨hvalid, hjoinLeft, hjoinRight, -⟩
      obtain ⟨hvalidLeft, hvalidRight⟩ := hleaves.mp hvalid
      rcases hfail with hfail | hfail
      · exact hrightIff.mpr ⟨hvalidRight, hjoinRight⟩ hfail
      · exact hleftIff.mpr ⟨hvalidLeft, hjoinLeft⟩ hfail
    · push Not at hfail
      obtain ⟨hvalidLeft, hjoinLeft⟩ := hleftIff.mp hfail.2
      obtain ⟨hvalidRight, hjoinRight⟩ := hrightIff.mp hfail.1
      -- the leftmost leaves are valid, so the comparison is that of their new sizes
      have hcompare : isCompatible (left.mapLeaves (LeafQuery.checked timeStep))
          (right.mapLeaves (LeafQuery.checked timeStep)) = 0 ↔
          LeafQuery.Matches timeStep left.firstLeaf right.firstLeaf := by
        rw [isCompatible_eq, isCompatible_leaf_iff, Query.firstLeaf_mapLeaves,
          Query.firstLeaf_mapLeaves, LeafQuery.checked, LeafQuery.checked,
          if_pos (hvalidLeft _ (Query.firstLeaf_mem left)),
          if_pos (hvalidRight _ (Query.firstLeaf_mem right))]
        rfl
      rw [if_neg (by tauto)]
      by_cases hmatch : LeafQuery.Matches timeStep left.firstLeaf right.firstLeaf
      · refine ⟨leftStep, ?_, fun _ => ?_, fun _ => hfail.2⟩
        · rw [if_neg (not_not.mpr (hcompare.mpr hmatch))]
          rfl
        · exact ⟨hleaves.mpr ⟨hvalidLeft, hvalidRight⟩, hjoinLeft, hjoinRight, hmatch⟩
      · refine ⟨-1, ?_, ?_⟩
        · rw [if_pos fun heq => hmatch (hcompare.mp heq)]
          rfl
        · simp only [ne_eq, not_true_eq_false, false_iff]
          exact fun hall => hmatch hall.2.2.2

/-! ## Accepted trees -/

/-- Every tree of these leaves that can be built is checked without a fault, it is accepted exactly
when its leaves are well formed, in whatever way the same leaves are grouped, and the comparison of
two selections is reflexive and symmetric. -/
structure AcceptsWellFormed (pool : List LeafQuery) (timeStep : Int) : Prop where
  checked : ∀ q : Query, (∀ l ∈ q.leaves, l ∈ pool) → q.Built →
    ∃ result, checkQueryAtTimestep q timeStep = .ok result
  accepted : ∀ q : Query, (∀ l ∈ q.leaves, l ∈ pool) →
    (q.AcceptedAt timeStep ↔ WellFormedAt q.leaves timeStep)
  grouping : ∀ q q' : Query, (∀ l ∈ q.leaves, l ∈ pool) → q.leaves.Perm q'.leaves →
    (q.AcceptedAt timeStep ↔ q'.AcceptedAt timeStep)
  refl : ∀ a ∈ pool, isSelectionCompatible a.sel a.sel = 0
  symm : ∀ a ∈ pool, ∀ b ∈ pool,
    isSelectionCompatible a.sel b.sel = 0 → isSelectionCompatible b.sel a.sel = 0

/-- What the leaves must be like: there is no point list among them, each selection is judged
right, leaves that fit together have the same `rawDataSize` before the check, and no `NULL`
selection, box and write block of as many elements are valid at the same time. -/
structure PoolJudged (pool : List LeafQuery) (timeStep : Int) : Prop where
  noPoints : ∀ l ∈ pool, ∀ npoints points, l.sel ≠ some (.points npoints points)
  judged : ∀ l ∈ pool, l.JudgedAt timeStep
  rawDataSize : ∀ a ∈ pool, ∀ b ∈ pool, WellFormedAt [a, b] timeStep →
    a.rawDataSize = b.rawDataSize
  noBridge : ∀ a ∈ pool, ∀ b ∈ pool, ∀ c ∈ pool,
    (∀ l ∈ [a, b, c], l.ValidAt timeStep ∧ l.elementCount timeStep = a.elementCount timeStep) →
    ∀ bb index, ¬(a.sel = none ∧ b.sel = some (.boundingBox bb) ∧ c.sel = some (.writeBlock index))

theorem selectionsCompatible_symm {a b : Option Selection} (h : SelectionsCompatible a b) :
    SelectionsCompatible b a := by
  cases a with
  | none =>
    cases b with
    | none => trivial
    | some b => cases b <;> trivial
  | some a =>
    cases b with
    | none => trivial
    | some b =>
      cases a <;> cases b <;> simp only [SelectionsCompatible] at h ⊢
      exact h.symm

theorem isSelectionCompatible_iff {a b : Option Selection}
    (ha : ∀ npoints points, a ≠ some (.points npoints points)) :
    isSelectionCompatible a b = 0 ↔ SelectionsCompatible a b := by
  cases a with
  | none => simp [isSelectionCompatible, SelectionsCompatible]
  | some a =>
    cases b with
    | none => cases a <;> simp [isSelectionCompatible, SelectionsCompatible]
    | some b =>
      cases a with
      | points npoints points => exact absurd rfl (ha npoints points)
      | boundingBox bb => cases b <;> simp [isSelectionCompatible, SelectionsCompatible]
      | writeBlock index => cases b <;> simp [isSelectionCompatible, SelectionsCompatible]

theorem checkQueryAtTimestep_of_neg {q : Query} {timeStep : Int} (h : timeStep < 0) :
    checkQueryAtTimestep q timeStep = .ok (-1, q) := by
  cases q with
  | leaf l =>
    rw [checkQueryAtTimestep, checkLeafAtTimestep, if_pos h]
    rfl
  | node op left right => rw [checkQueryAtTimestep, if_pos h]

theorem acceptedAt_iff {q : Query} {timeStep : Int} (h : ∀ l ∈ q.leaves, l.JudgedAt timeStep) :
    q.AcceptedAt timeStep ↔
      q.Built ∧ (∀ l ∈ q.leaves, l.ValidAt timeStep) ∧ q.Joined (LeafQuery.Matches timeStep) := by
  refine and_congr_right fun _ => ?_
  by_cases hneg : timeStep < 0
  · constructor
    · rintro ⟨result, q', hcheck, hne⟩
      rw [checkQueryAtTimestep_of_neg hneg] at hcheck
      cases hcheck
      exact absurd rfl hne
    · rintro ⟨hvalid, -⟩
      have hpos := (hvalid _ (Query.firstLeaf_mem q)).1
      omega
  · obtain ⟨result, hcheck, hiff⟩ := checkQueryAtTimestep_of_judged (not_lt.mp hneg) h
    rw [← hiff]
    constructor
    · rintro ⟨result', q', hcheck', hne⟩
      rw [hcheck] at hcheck'
      cases hcheck'
      exact hne
    · exact fun hne => ⟨result, _, hcheck, hne⟩

theorem selectionsCompatible_refl (a : Option Selection) : SelectionsCompatible a a := by
  cases a with
  | none => trivial
  | some a => cases a <;> simp [SelectionsCompatible]

theorem WellFormedAt.of_subset {leaves leaves' : List LeafQuery} {timeStep : Int}
    (h : WellFormedAt leaves timeStep) (hsub : ∀ l ∈ leaves', l ∈ leaves) :
    WellFormedAt leaves' timeStep where
  valid l hl := h.valid l (hsub l hl)
  count a ha b hb := h.count a (hsub a ha) b (hsub b hb)
  compatible a ha b hb := h.compatible a (hsub a ha) b (hsub b hb)

def Selection.isBox : Option Selection → Bool
  | some (.boundingBox _) => true
  | _ => false

section Pool

variable {pool : List LeafQuery} {timeStep : Int}

section

variable (h : PoolJudged pool timeStep) {q : Query} (hq : ∀ l ∈ q.leaves, l ∈ pool)
  (hvalid : ∀ l ∈ q.leaves, l.ValidAt timeStep) (hjoined : q.Joined (LeafQuery.Matches timeStep))

include h hq hvalid hjoined

/-- Without a `NULL` selection between them a box and a write block do not come into one tree. -/
theorem PoolJudged.not_mixed {a b : LeafQuery} (ha : a ∈ q.leaves)
    (hb : b ∈ q.leaves) {bb : BoundingBox} {index : Int} (hbox : a.sel = some (.boundingBox bb)) :
    b.sel ≠ some (.writeBlock index) := by
  intro hblock
  have hcount := (hjoined.imp fun a _ b _ hmatch => hmatch.1).eq_firstLeaf
  have hsome : ∀ l ∈ q.leaves, l.sel ≠ none := by
    intro l hl hnone
    refine h.noBridge l (hq l hl) a (hq a ha) b (hq b hb) ?_ bb index ⟨hnone, hbox, hblock⟩
    simp only [mem_cons, not_mem_nil, or_false]
    rintro x (rfl | rfl | rfl)
    · exact ⟨hvalid x hl, rfl⟩
    · exact ⟨hvalid x ha, (hcount x ha).trans (hcount l hl).symm⟩
    · exact ⟨hvalid x hb, (hcount x hb).trans (hcount l hl).symm⟩
  have hkind : q.Joined fun a b => Selection.isBox a.sel = Selection.isBox b.sel := by
    refine hjoined.imp fun x hx y hy hmatch => ?_
    have hcompatible := (isSelectionCompatible_iff (h.noPoints x (hq x hx))).mp hmatch.2
    obtain ⟨sx, hsx⟩ := Option.ne_none_iff_exists'.mp (hsome x hx)
    obtain ⟨sy, hsy⟩ := Option.ne_none_iff_exists'.mp (hsome y hy)
    have hpoints := h.noPoints x (hq x hx)
    rw [hsx] at hcompatible hpoints ⊢
    rw [hsy] at hcompatible ⊢
    cases sx <;> cases sy <;> simp [SelectionsCompatible, Selection.isBox] at hcompatible hpoints ⊢
  have hsame := (hkind.eq_firstLeaf a ha).trans (hkind.eq_firstLeaf b hb).symm
  rw [hbox, hblock] at hsame
  exact Bool.noConfusion hsame

theorem PoolJudged.compatible_of_joined :
    ∀ a ∈ q.leaves, ∀ b ∈ q.leaves, SelectionsCompatible a.sel b.sel := by
  intro a ha b hb
  have hpa := h.noPoints a (hq a ha)
  have hpb := h.noPoints b (hq b hb)
  cases hsa : a.sel with
  | none => exact (isSelectionCompatible_iff (by simp)).mp rfl
  | some sa =>
    cases hsb : b.sel with
    | none => exact selectionsCompatible_symm ((isSelectionCompatible_iff (by simp)).mp rfl)
    | some sb =>
      cases sa with
      | points npoints points => exact absurd hsa (hpa npoints points)
      | boundingBox bb =>
        cases sb with
        | points npoints points => exact absurd hsb (hpb npoints points)
        | boundingBox bb' => trivial
        | writeBlock index => exact absurd hsb (h.not_mixed hq hvalid hjoined ha hb hsa)
      | writeBlock index =>
        cases sb with
        | points npoints points => exact absurd hsb (hpb npoints points)
        | boundingBox bb' => exact absurd hsa (h.not_mixed hq hvalid hjoined hb ha hsb)
        | writeBlock index' => trivial

end

theorem PoolJudged.acceptedAt_iff (h : PoolJudged pool timeStep) {q : Query}
    (hq : ∀ l ∈ q.leaves, l ∈ pool) :
    q.AcceptedAt timeStep ↔ WellFormedAt q.leaves timeStep := by
  rw [Adios.acceptedAt_iff fun l hl => h.judged l (hq l hl)]
  constructor
  · rintro ⟨-, hvalid, hjoined⟩
    have hcount := (hjoined.imp fun a _ b _ hmatch => hmatch.1).eq_firstLeaf
    refine ⟨hvalid, fun a ha b hb => ?_, h.compatible_of_joined hq hvalid hjoined⟩
    rw [hcount a ha, hcount b hb]
  · intro hwf
    have hsame : ∀ a ∈ q.leaves, ∀ b ∈ q.leaves, isSelectionCompatible a.sel b.sel = 0 :=
      fun a ha b hb => (isSelectionCompatible_iff (h.noPoints a (hq a ha))).mpr
        (hwf.compatible a ha b hb)
    have hraw : ∀ a ∈ q.leaves, ∀ b ∈ q.leaves, a.rawDataSize = b.rawDataSize := by
      intro a ha b hb
      refine h.rawDataSize a (hq a ha) b (hq b hb) (hwf.of_subset ?_)
      simp only [mem_cons, not_mem_nil, or_false]
      rintro l (rfl | rfl)
      · exact ha
      · exact hb
    refine ⟨?_, hwf.valid, ?_⟩
    · rw [built_iff]
      exact Query.joined_of_forall fun a ha b hb =>
        (isCompatible_leaf_iff a b).mpr ⟨hraw a ha b hb, hsame a ha b hb⟩
    · exact Query.joined_of_forall fun a ha b hb => ⟨hwf.count a ha b hb, hsame a ha b hb⟩

theorem PoolJudged.acceptsWellFormed (h : PoolJudged pool timeStep) :
    AcceptsWellFormed pool timeStep where
  checked q hq _ := by
    by_cases hneg : timeStep < 0
    · exact ⟨_, checkQueryAtTimestep_of_neg hneg⟩
    · obtain ⟨result, hcheck, -⟩ := checkQueryAtTimestep_of_judged (not_lt.mp hneg)
        fun l hl => h.judged l (hq l hl)
      exact ⟨_, hcheck⟩
  accepted q hq := h.acceptedAt_iff hq
  grouping q q' hq hperm := by
    have hq' : ∀ l ∈ q'.leaves, l ∈ pool := fun l hl => hq l (hperm.mem_iff.mpr hl)
    rw [h.acceptedAt_iff hq, h.acceptedAt_iff hq']
    exact ⟨fun hwf => hwf.of_subset fun l hl => hperm.mem_iff.mpr hl,
      fun hwf => hwf.of_subset fun l hl => hperm.mem_iff.mp hl⟩
  refl a ha := (isSelectionCompatible_iff (h.noPoints a ha)).mpr (selectionsCompatible_refl a.sel)
  symm a ha b hb hab := (isSelectionCompatible_iff (h.noPoints b hb)).mpr
    (selectionsCompatible_symm ((isSelectionCompatible_iff (h.noPoints a ha)).mp hab))

theorem wellFormedAt_singleton (l : LeafQuery) (timeStep : Int) :
    WellFormedAt [l] timeStep ↔ l.ValidAt timeStep := by
  refine ⟨fun h => h.valid l (mem_singleton_self l), fun h => ⟨?_, ?_, ?_⟩⟩ <;>
    simp only [mem_singleton, forall_eq]
  · exact h
  · exact selectionsCompatible_refl l.sel

theorem AcceptsWellFormed.getTotalByteSize_iff (h : AcceptsWellFormed pool timeStep) {l : LeafQuery}
    (hl : l ∈ pool) (hpos : 0 ≤ timeStep) (hstream : l.file.isStreaming → timeStep = 0)
    {v : QueryVarInfo} (hv : l.file.vars.lookup l.varName = some v) :
    (getTotalByteSize v l.sel (l.actualStep timeStep) ≠ .ok none ↔
      SelectionValid v (l.actualStep timeStep) l.sel) := by
  have hq : ∀ x ∈ (Query.leaf l).leaves, x ∈ pool := by simpa [Query.leaves] using hl
  have hvalid : l.ValidAt timeStep ↔ SelectionValid v (l.actualStep timeStep) l.sel := by
    refine ⟨fun ⟨_, _, v', hv', hsel⟩ => ?_, fun hsel => ⟨hpos, hstream, v, hv, hsel⟩⟩
    rw [hv] at hv'
    cases hv'
    exact hsel
  obtain ⟨result, hcheck⟩ := h.checked _ hq (.leaf l)
  have haccepted := h.accepted _ hq
  rw [Query.leaves, wellFormedAt_singleton, hvalid] at haccepted
  rw [← haccepted]
  have hstep : checkQueryAtTimestep (.leaf l) timeStep =
      (getTotalByteSize v l.sel (l.actualStep timeStep)).map fun sizes =>
        sizes.elim ((-1 : Int), Query.leaf l) fun sizes =>
          ((l.actualStep timeStep : Int), Query.leaf { l with rawDataSize := sizes.2 }) := by
    rw [checkQueryAtTimestep, checkLeafAtTimestep_eq hpos hstream hv]
    cases getTotalByteSize v l.sel (l.actualStep timeStep) with
    | error fault => rfl
    | ok sizes => cases sizes <;> rfl
  rw [hstep] at hcheck
  unfold Query.AcceptedAt
  rw [hstep]
  cases hsize : getTotalByteSize v l.sel (l.actualStep timeStep) with
  | error fault =>
    rw [hsize] at hcheck
    cases hcheck
  | ok sizes =>
    cases sizes with
    | none => simp [Except.map]
    | some sizes =>
      refine ⟨fun _ => ⟨.leaf l, _, _, rfl, ?_⟩, fun _ => nofun⟩
      show (l.actualStep timeStep : Int) ≠ -1
      omega

theorem AcceptsWellFormed.leaf_judged (h : AcceptsWellFormed pool timeStep) {l : LeafQuery}
    (hl : l ∈ pool) (hpoints : ∀ npoints points, l.sel ≠ some (.points npoints points)) :
    l.JudgedAt timeStep := by
  intro hpos hstream v hv
  have hiff := h.getTotalByteSize_iff hl hpos hstream hv
  cases hsel : l.sel with
  | none => trivial
  | some sel =>
    rw [hsel] at hiff
    cases sel with
    | points npoints points => exact absurd hsel (hpoints npoints points)
    | boundingBox bb =>
      intro hends
      have hfits := hiff.mp (boundingBoxSizes_of_endsFit hends _)
      exact ((boxFits_iff v.dims bb.start_length).mp hfits).2
    | writeBlock index =>
      refine ⟨fun hle => hiff.mp (writeBlockSizes_of_le hle _), fun hvalid => ?_⟩
      by_contra hgt
      exact hiff.mpr hvalid (writeBlockSizes_of_gt hgt _)

theorem AcceptsWellFormed.poolJudged (h : AcceptsWellFormed pool timeStep) :
    PoolJudged pool timeStep := by
  have hpoints : ∀ l ∈ pool, ∀ npoints points, l.sel ≠ some (.points npoints points) := by
    intro l hl npoints points hsel
    have hself := h.refl l hl
    rw [hsel] at hself
    simp [isSelectionCompatible] at hself
  have hraw : ∀ a ∈ pool, ∀ b ∈ pool, WellFormedAt [a, b] timeStep →
      a.rawDataSize = b.rawDataSize := by
    intro a ha b hb hwf
    have hq : ∀ l ∈ (Query.node .and (.leaf a) (.leaf b)).leaves, l ∈ pool := by
      simp [Query.leaves, ha, hb]
    have hbuilt := ((h.accepted _ hq).mpr hwf).1
    rw [built_iff] at hbuilt
    exact ((isCompatible_leaf_iff a b).mp hbuilt.2.2).1
  refine ⟨hpoints, fun l hl => h.leaf_judged hl (hpoints l hl), hraw,
    fun a ha b hb c hc hvalid bb index hsel => ?_⟩
  obtain ⟨hnone, hbox, hblock⟩ := hsel
  simp only [forall_mem_cons, not_mem_nil, false_implies, implies_true, and_true]
    at hvalid
  obtain ⟨hva, ⟨hvb, hcb⟩, hvc, hcc⟩ := hvalid
  -- the `NULL` selection goes with the box and with the write block, and is compared with both
  have hpair : ∀ x ∈ pool, x.ValidAt timeStep → x.elementCount timeStep = a.elementCount timeStep →
      a.rawDataSize = x.rawDataSize := by
    intro x hx hvx hcx
    have hax : SelectionsCompatible a.sel x.sel := by
      rw [hnone]
      exact (isSelectionCompatible_iff (by simp)).mp rfl
    refine hraw a ha x hx ⟨?_, ?_, ?_⟩
    · simp [hva, hvx]
    · simp [hcx]
    · simp [hax, selectionsCompatible_symm hax, selectionsCompatible_refl]
  have hq : ∀ l ∈ (Query.node .and (.node .and (.leaf a) (.leaf b)) (.leaf c)).leaves,
    l ∈ pool := by
    simp [Query.leaves, ha, hb, hc]
  have haccepted :
      (Query.node .and (.node .and (.leaf a) (.leaf b)) (.leaf c)).AcceptedAt timeStep := by
    rw [Adios.acceptedAt_iff fun l hl => h.leaf_judged (hq l hl) (hpoints l (hq l hl)), built_iff]
    have hselects : ∀ x : LeafQuery, isSelectionCompatible a.sel x.sel = 0 := fun x => by
      rw [hnone]
      rfl
    refine ⟨⟨⟨trivial, trivial, ?_⟩, trivial, ?_⟩, ?_, ⟨trivial, trivial, ?_⟩, trivial, ?_⟩
    · exact (isCompatible_leaf_iff a b).mpr ⟨hpair b hb hvb hcb, hselects b⟩
    · exact (isCompatible_leaf_iff a c).mpr ⟨hpair c hc hvc hcc, hselects c⟩
    · simp [Query.leaves, hva, hvb, hvc]
    · exact ⟨hcb.symm, hselects b⟩
    · exact ⟨hcc.symm, hselects c⟩
  have hwf := (h.accepted _ hq).mp haccepted
  have hbad := hwf.compatible b (by simp [Query.leaves]) c (by simp [Query.leaves])
  rw [hbox, hblock] at hbad
  exact hbad

end Pool

/-- Exactly then the trees that can be built of the leaves are accepted as they should be. -/
theorem acceptsWellFormed_iff (pool : List LeafQuery) (timeStep : Int) :
    AcceptsWellFormed pool timeStep ↔ PoolJudged pool timeStep :=
  ⟨fun h => h.poolJudged, fun h => h.acceptsWellFormed⟩

def rowVar : QueryVarInfo := ⟨8, [4], [[[4]]], by decide, by decide⟩

def pointsLeaf : LeafQuery :=
  ⟨⟨false, 0, [("x", rowVar)]⟩, "x", some (.points 2 [[0], [3]]), 0⟩

/-- Two queries for the same points cannot be combined. -/
theorem not_acceptsWellFormed_pointsLeaf :
    WellFormedAt [pointsLeaf, pointsLeaf] 0 ∧
      commonQueryCombine (.leaf pointsLeaf) .and (.leaf pointsLeaf) = none ∧
      ¬AcceptsWellFormed [pointsLeaf] 0 := by
  have hpoints : ∀ p ∈ ([[0], [3]] : List (List UInt64)), Forall₂ (· < ·) p [4] := by decide
  have hvalid : pointsLeaf.ValidAt 0 := ⟨by decide, nofun, rowVar, rfl, hpoints⟩
  refine ⟨⟨?_, ?_, ?_⟩, ?_, fun h => ?_⟩
  · simp [hvalid]
  · simp
  · simp [selectionsCompatible_refl]
  · rw [commonQueryCombine, if_pos]
    rw [isCompatible]
    decide
  · have hself := h.refl pointsLeaf (mem_singleton_self _)
    exact absurd hself (by decide)

end Adios
