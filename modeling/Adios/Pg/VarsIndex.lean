import Adios.Index.MergeRuns
import Adios.Pg.VarLayout

/-!
# Adios — the variables index of a process group

The loop of `adios_build_index_v1` over the copies of the variables that were written: every copy
can be made into a characteristics set (`Indexable`), and the sets of one path and name come
together in one entry, in the order of the copies (`buildVarsIndex_spec`).
-/

namespace Adios

open List Heap Lists Wire

/-! ## Copies of copies -/

theorem length_statBits_le {bitmap : UInt32} (h : bitmap.toNat < 2 ^ statLength) :
    (statBits bitmap).length ≤ statLength := by
  have hrange : List.range 32 = List.range statLength ++ (List.range 25).map (statLength + ·) := by
    decide
  have hhigh : ((List.range 25).map (statLength + ·)).filter (fun j => bitmap.toNat.testBit j) =
      [] := by
    rw [filter_eq_nil_iff]
    intro j hj
    obtain ⟨i, -, rfl⟩ := mem_map.mp hj
    have hlt : bitmap.toNat < 2 ^ (statLength + i) :=
      Nat.lt_of_lt_of_le h (Nat.pow_le_pow_right (by decide) (Nat.le_add_right _ _))
    simp [Nat.testBit_lt_two_pow hlt]
  rw [statBits, hrange, filter_append, hhigh, append_nil]
  exact (length_filter_le _ _).trans (by simp)

theorem memRead_again {object data : List UInt8} {n : Nat} (h : memRead object n = .ok data) :
    memRead data n = .ok data := by
  obtain ⟨hle, rfl⟩ := memRead_eq_ok_iff.mp h
  rw [memRead_eq_ok_iff, take_take, Nat.min_self, length_take]
  exact ⟨by omega, rfl⟩

variable {type : Datatype} {copy : Var}

theorem copyStat_again {j : Nat} {s s' : StatData} (h : copyStat type j s = .ok s') :
    copyStat type j s' = .ok s' := by
  cases s with
  | hist hist =>
    unfold copyStat at h
    split_ifs at h with hj
    cases h
    exact if_pos hj
  | raw bytes =>
    unfold copyStat at h
    split_ifs at h with hj
    obtain ⟨size, hsize, h⟩ := exists_of_bind_eq_ok h
    obtain ⟨data, hdata, h⟩ := exists_of_bind_eq_ok h
    cases h
    simp only [copyStat, if_neg hj, hsize, bind, Except.bind, memRead_again hdata]
    rfl

theorem copyStats_again {bits : List Nat} {slots slots' : List (Option StatData)}
    (h : copyStats type bits slots = .ok slots') {k : Nat} (hk : bits.length ≤ slots'.length + k) :
    copyStats type bits (slots' ++ List.replicate k none) = .ok slots' ∧
      slots'.length ≤ bits.length := by
  induction bits generalizing slots slots' with
  | nil =>
    cases h
    exact ⟨rfl, Nat.le_refl _⟩
  | cons j bits ih =>
    cases slots with
    | nil => cases h
    | cons slot slots =>
      cases slot with
      | none =>
        cases h
        obtain ⟨k, rfl⟩ : ∃ n, k = n + 1 := ⟨k - 1, by simp at hk; omega⟩
        exact ⟨rfl, Nat.zero_le _⟩
      | some stat =>
        rw [copyStats] at h
        obtain ⟨stat', hstat, h⟩ := exists_of_bind_eq_ok h
        obtain ⟨rest, hrest, h⟩ := exists_of_bind_eq_ok h
        cases h
        obtain ⟨hagain, hlen⟩ := ih hrest (by simp only [length_cons] at hk; omega)
        refine ⟨?_, by simp only [length_cons]; omega⟩
        show copyStats type (j :: bits) (some stat' :: (rest ++ List.replicate k none)) = _
        rw [copyStats, copyStat_again hstat, hagain]
        rfl

theorem copyStatArrays_again {bits : List Nat} (hbits : bits.length ≤ statLength) {count : Nat}
    {sets sets' : List (List (Option StatData))}
    (h : copyStatArrays type bits count sets = .ok sets') :
    copyStatArrays type bits count sets' = .ok sets' := by
  induction count generalizing sets sets' with
  | zero => exact h
  | succ count ih =>
    rw [copyStatArrays] at h
    obtain ⟨slots, hslots, h⟩ := exists_of_bind_eq_ok h
    obtain ⟨rest, hrest, h⟩ := exists_of_bind_eq_ok h
    cases h
    obtain ⟨hagain, -⟩ := copyStats_again hslots (k := statLength - slots.length) (by omega)
    rw [copyStatArrays]
    show copyStats type bits (slots ++ List.replicate (statLength - slots.length) none) >>= _ = _
    rw [hagain]
    show copyStatArrays type bits count rest >>= _ = _
    rw [ih hrest]
    rfl

/-! ## Characteristics sets -/

def Indexable (m : Machine) (copy : Var) : Prop :=
  ∀ (fileIndex timeIndex : UInt32) (parent : Var) (o : UInt64),
    varPayloadOffset copy parent = .ok o →
      ∃ c, buildCharacteristic m fileIndex timeIndex copy parent = .ok c ∧
        c.offset = copy.writeOffset ∧ c.payloadOffset = o

theorem indexable_of_data {m : Machine} {data : List UInt8} (hdata : copy.data = some data)
    (hsize : (getTypeSize copy.type copy.data).toNat ≤ data.length) : Indexable m copy := by
  intro fileIndex timeIndex parent o ho
  have hread : memRead data (getTypeSize copy.type (some data)).toNat =
      .ok (data.take (getTypeSize copy.type (some data)).toNat) :=
    memRead_eq_ok_iff.mpr ⟨hdata ▸ hsize, rfl⟩
  unfold buildCharacteristic
  simp only [ho, bind, Except.bind, hdata]
  cases ht : copy.type <;> rw [ht] at hread <;>
    simp only [hread, Option.getD_some] <;> exact ⟨_, rfl, rfl, rfl⟩

theorem indexable_of_stats {m : Machine} (hnumeric : copy.type.IsNumeric) (hdata : copy.data = none)
    {sets : List (List (Option StatData))} (hsets : copyStatSets copy = .ok sets) :
    Indexable m copy := by
  intro fileIndex timeIndex parent o ho
  obtain ⟨hdefined, hstring⟩ := hnumeric
  unfold buildCharacteristic
  simp only [ho, bind, Except.bind, hdata]
  cases ht : copy.type <;> first
    | exact absurd ht hstring
    | (rw [ht] at hdefined; exact absurd hdefined id)
    | (split_ifs with hd
       · rw [hsets]
         exact ⟨_, rfl, rfl, rfl⟩
       · exact ⟨_, rfl, rfl, rfl⟩)

theorem copyVarWritten_spec {m : Machine} {v : Var} (hdefined : v.type.IsDefined)
    (hbitmap : v.bitmap.toNat < 2 ^ statLength) (h : copyVarWritten m v = .ok copy) :
    copy.name = v.name ∧ copy.path = v.path ∧ copy.writeOffset = v.writeOffset ∧
      Indexable m copy := by
  have hsize : ∀ (t : Datatype) (a b : Option (List UInt8)), t ≠ .string →
      getTypeSize t a = getTypeSize t b := fun t a b ht => getTypeSize_eq ht a b
  unfold copyVarWritten at h
  by_cases hstring : v.type = .string
  · simp only [hstring] at h
    obtain ⟨data, hdata, h⟩ := exists_of_bind_eq_ok h
    cases h
    refine ⟨rfl, rfl, rfl, indexable_of_data rfl ?_⟩
    show (getTypeSize v.type _).toNat ≤ _
    rw [hstring]
    show (UInt64.ofNat (strlen (data ++ [0]))).toNat ≤ _
    rw [UInt64.toNat_ofNat']
    have hlen : strlen (data ++ [0]) ≤ (data ++ [0]).length :=
      (takeWhile_sublist _).length_le
    exact (Nat.mod_le _ _).trans hlen
  · have hcopy : (v.dimensions ≠ [] ∧ ∃ stats, copyStatSets v = .ok stats ∧
        copy = { v with
          dimensions := dereferenceDimensions m v.dimensions
          data := none
          stats := some stats
          preTransformDimensions := dereferenceDimensions m v.preTransformDimensions }) ∨
        ∃ data, memRead (v.data.getD []) (getTypeSize v.type v.data).toNat = .ok data ∧
          copy = { v.untransformed with dimensions := [], data := some data, stats := none } := by
      cases ht : v.type <;> rw [ht] at h hdefined <;> first
        | exact absurd ht hstring
        | exact absurd hdefined id
        | (simp only at h
           split_ifs at h with hd
           · obtain ⟨stats, hstats, h⟩ := exists_of_bind_eq_ok h
             cases h
             exact Or.inl ⟨hd, stats, hstats, rfl⟩
           · obtain ⟨data, hdata, h⟩ := exists_of_bind_eq_ok h
             cases h
             exact Or.inr ⟨data, hdata, rfl⟩)
    rcases hcopy with ⟨-, stats, hstats, rfl⟩ | ⟨data, hdata, rfl⟩
    · exact ⟨rfl, rfl, rfl, indexable_of_stats ⟨hdefined, hstring⟩ rfl
        (copyStatArrays_again (length_statBits_le hbitmap) hstats)⟩
    · refine ⟨rfl, rfl, rfl, indexable_of_data rfl ?_⟩
      obtain ⟨hle, rfl⟩ := memRead_eq_ok_iff.mp hdata
      show (getTypeSize v.type _).toNat ≤ _
      rw [hsize _ _ v.data hstring, length_take]
      omega

/-! ## The loop -/

/-- `malloc` gives a cell that is free, as long as not all memory is taken. -/
def Mallocs (malloc : IndexStore → Addr) : Prop :=
  ∀ (st : IndexStore) (bound : Addr), (∀ a ≥ bound, st.vars.store a = none) →
    st.vars.store (malloc st) = none

def EntryOf (vars : List Var) (groupName : CString) (written : Var × Nat) (e : IndexEntry) :
    Prop :=
  e.groupName = groupName ∧ varKey e = (written.1.path, written.1.name) ∧
    ∃ c parent, e.characteristics = [c] ∧ c.offset = written.1.writeOffset ∧
      vars[written.2]? = some parent ∧ varPayloadOffset written.1 parent = .ok c.payloadOffset

structure CanIndex (m : Machine) (vars : List Var) (written : Var × Nat) : Prop where
  place : written.1.writeOffset ≠ 0
  indexable : Indexable m written.1
  payloadOffset : ∃ parent o, vars[written.2]? = some parent ∧
    varPayloadOffset written.1 parent = .ok o

theorem buildEntry_spec {m : Machine} {vars : List Var} (groupName : CString)
    (fileIndex timeIndex : UInt32) {written : Var × Nat} {parent : Var}
    (h : CanIndex m vars written) (hparent : vars[written.2]? = some parent) :
    ∃ e, buildEntry m groupName fileIndex timeIndex written.1 parent = .ok e ∧ e.Small ∧
      EntryOf vars groupName written e.entry := by
  obtain ⟨parent', o, hparent', ho⟩ := h.payloadOffset
  cases hparent.symm.trans hparent'
  obtain ⟨c, hc, hoffset, rfl⟩ := h.indexable fileIndex timeIndex parent o ho
  unfold buildEntry
  simp only [hc, bind, Except.bind]
  exact ⟨_, rfl, ⟨⟨rfl, Nat.le_refl _, Nat.le_refl _⟩, (by decide : 1 < 2 ^ 31)⟩,
    rfl, rfl, c, parent, rfl, hoffset, hparent, ho⟩

section Loop

variable {m : Machine} {canAlloc : UInt64 → Bool} {malloc : IndexStore → Addr} {vars : List Var}

theorem buildVarsIndex_spec (groupName : CString) (fileIndex timeIndex : UInt32)
    (hmem : ∀ n, canAlloc n = true) (hmalloc : Mallocs malloc)
    {written : List (Var × Nat)} {st : IndexStore} {s : List (Addr × StoredEntry)}
    (hcan : ∀ x ∈ written, CanIndex m vars x) (h : VarsRep st s) {bound : Addr}
    (hfree : ∀ a ≥ bound, st.vars.store a = none)
    (hsum : setCount (entries s) + written.length < 2 ^ 63) :
    ∃ st' s' es, buildVarsIndex m canAlloc malloc groupName fileIndex timeIndex vars written st =
        .ok st' ∧ VarsRep st' s' ∧
      entries s' = es.foldl (insertWith varKey combineVar) (entries s) ∧
      Forall₂ (EntryOf vars groupName) written es := by
  induction written generalizing st s bound with
  | nil => exact ⟨st, s, [], rfl, h, rfl, .nil⟩
  | cons x written ih =>
    obtain ⟨copy, i⟩ := x
    have hx := hcan (copy, i) (by simp)
    obtain ⟨parent, o, hparent, ho⟩ := hx.payloadOffset
    obtain ⟨e, he, hsmall, hentry⟩ := buildEntry_spec groupName fileIndex timeIndex hx hparent
    -- the new cell is in no list
    have hitem : malloc st ∉ addrs s := by
      intro hmem'
      obtain ⟨y, hy, heq⟩ := mem_map.mp hmem'
      obtain ⟨next, hcell⟩ := h.list.cell hy
      rw [heq, hmalloc st bound hfree] at hcell
      cases hcell
    have hlist : (Linked.mk st.vars.root
        (st.vars.store.set (malloc st) ⟨e, none⟩)).Holds s := h.list.set hitem
    have hlen : e.entry.characteristics.length = 1 := by
      obtain ⟨-, -, c, -, hc, -⟩ := hentry
      rw [hc]
      rfl
    rw [length_cons] at hsum
    obtain ⟨st₁, s₁, hrun, hrep, hentries, -, hframe⟩ := indexAppendVarV1_spec hmem
      (h.of_holds hlist) hitem (Store.set_self _ _ _) hsmall (by rw [hlen]; omega)
    have hfree₁ : ∀ a ≥ max bound (malloc st + 1), st₁.vars.store a = none := by
      intro a ha
      have hge : bound ≤ a := Nat.le_trans (Nat.le_max_left _ _) ha
      have hne : a ≠ malloc st := Nat.ne_of_gt (Nat.le_trans (Nat.le_max_right _ _) ha)
      have hnotMem : a ∉ addrs s := by
        intro hmem'
        obtain ⟨y, hy, rfl⟩ := mem_map.mp hmem'
        obtain ⟨next, hcell⟩ := h.list.cell hy
        rw [hfree y.1 hge] at hcell
        cases hcell
      rw [hframe.store a (by simp [hne, hnotMem])]
      show st.vars.store.set (malloc st) ⟨e, none⟩ a = none
      rw [Store.set_of_ne _ _ hne, hfree a hge]
    have hcount := setCount_insertWith_le varKey length_combineVar_le (entries s) e.entry
    obtain ⟨st', s', es, hrest, hrep', hentries', hes⟩ := ih (fun y hy => hcan y (by simp [hy]))
      hrep hfree₁
      (by rw [hentries]; show setCount (insertWith varKey combineVar _ e.entry) + _ < _; omega)
    refine ⟨st', s', e.entry :: es, ?_, hrep', ?_, .cons hentry hes⟩
    · rw [buildVarsIndex, if_pos hx.place, hparent]
      simp only [he, bind, Except.bind, hrun]
      exact hrest
    · rw [hentries', hentries]
      rfl

end Loop

end Adios
