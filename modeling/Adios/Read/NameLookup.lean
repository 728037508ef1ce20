import Adios.Read.VarIds
import Mathlib.Data.List.Nodup

/-!
# Adios — lookup by name

The table of the names has the ids of the full list, and a view does not renew it: a lookup matches
the list in view when this is the full list.
-/

namespace Adios

open List

theorem foldl_put (names : List Name) (k : Nat) (tbl : Name → Nat) (s : Name) :
    (s ∉ names ∧ ((names.zipIdx k).foldl
      (fun tbl (name, i) => fun s => if s = name then i + 1 else tbl s) tbl) s = tbl s) ∨
    ∃ j, names[j]? = some s ∧ ((names.zipIdx k).foldl
      (fun tbl (name, i) => fun s => if s = name then i + 1 else tbl s) tbl) s = k + j + 1 := by
  induction names generalizing k tbl with
  | nil => exact Or.inl ⟨by simp, rfl⟩
  | cons name names ih =>
    rw [zipIdx_cons, foldl_cons]
    rcases ih (k + 1) (fun s => if s = name then k + 1 else tbl s) with ⟨hmem, htbl⟩ | ⟨j, hj, htbl⟩
    · by_cases hname : s = name
      · refine Or.inr ⟨0, by rw [hname]; rfl, htbl.trans ?_⟩
        simp [hname]
      · refine Or.inl ⟨by simp [hname, hmem], htbl.trans ?_⟩
        simp [hname]
    · exact Or.inr ⟨j + 1, hj, htbl.trans (by omega)⟩

variable {showHiddenAttrs : Bool} {f : AdiosFile} {vars : List (IndexEntry × Nat)}
  {attrs : List IndexEntry} {names : List Name}

theorem commonReadFindVar_cases (htbl : f.internals.hashtblVars = hashtblOfNames names)
    (hne : names ≠ []) (s : Name) :
    (s ∉ names ∧ commonReadFindVar f s = .ok none) ∨
      ∃ j, names[j]? = some s ∧ commonReadFindVar f s = .ok (some j) := by
  unfold commonReadFindVar
  rw [htbl, hashtblOfNames, if_neg hne]
  rcases foldl_put names 0 (fun _ => 0) s with ⟨hmem, hzero⟩ | ⟨j, hj, hval⟩
  · exact Or.inl ⟨hmem, by simp only [hzero, if_true]⟩
  · refine Or.inr ⟨j, hj, ?_⟩
    simp only [hval]
    rw [if_neg (by omega)]
    congr 2
    omega

/-! ## Lookup -/

/-- A name is found in the list in view exactly if it is there, and an inquiry or a read by the
name is one by the id that is found. -/
def LookupMatches (f : AdiosFile) : Prop :=
  ∃ visible, f.names f.varNamelist 0 f.nvars = .ok visible ∧ ∀ s, ∃ found,
    commonReadFindVar f s = .ok found ∧ (found = none → s ∉ visible) ∧
    ∀ i, found = some i → i < f.nvars ∧ visible[i]? = some s ∧
      commonReadInqVar f s = commonReadInqVarByid f i ∧
      commonReadScheduleRead f s = commonReadScheduleReadByid f i

/-- The condition for it: there was a variable at the last open or step advance, and the list in
view is the list there was. -/
structure LookupAligned (f : AdiosFile) : Prop where
  table : f.internals.hashtblVars.isSome
  list : ∃ p, f.varNamelist = some p ∧ p.seek = f.seeks ∧ p.offset = 0 ∧ f.nvars = p.names.length

theorem names_ne_nil (htbl : f.internals.hashtblVars = hashtblOfNames names)
    (hsome : f.internals.hashtblVars.isSome) : names ≠ [] := by
  rintro rfl
  rw [htbl] at hsome
  cases hsome

theorem LookupAligned.matches (h : FileInv f vars attrs) (haligned : LookupAligned f) :
    LookupMatches f := by
  obtain ⟨p, hp, hseek, hoffset, hnvars⟩ := haligned.list
  have hnames := h.varList.currentNames p hp hseek
  have hread : f.names f.varNamelist 0 f.nvars = .ok p.names := by
    rw [hp, hnvars, AdiosFile.names_eq hseek (by omega), hoffset]
    simp
  refine ⟨p.names, hread, fun s => ?_⟩
  rcases commonReadFindVar_cases h.hashtbl (names_ne_nil h.hashtbl haligned.table) s with
    ⟨hmem, hfind⟩ | ⟨j, hj, hfind⟩
  · exact ⟨none, hfind, fun _ => by rwa [hnames], nofun⟩
  · refine ⟨some j, hfind, nofun, ?_⟩
    rintro i ⟨⟩
    rw [← hnames] at hj
    refine ⟨?_, hj, ?_, ?_⟩
    · rw [hnvars]
      exact (List.getElem?_eq_some_iff.mp hj).1
    · unfold commonReadInqVar
      rw [hfind]
      rfl
    · unfold commonReadScheduleRead
      rw [hfind]
      rfl

/-! ## Reading a list in view -/

theorem AdiosFile.name_of_names {namelist : Option NamelistPtr} {i n : Nat} {visible : List Name}
    (h : f.names namelist i n = .ok visible) :
    ∀ j < n, ∃ name, f.name namelist (i + j) = .ok name := by
  induction n generalizing i visible with
  | zero => simp
  | succ n ih =>
    obtain ⟨name, hname, h⟩ := exists_of_bind_eq_ok h
    obtain ⟨rest, hrest, -⟩ := exists_of_bind_eq_ok h
    intro j hj
    cases j with
    | zero => exact ⟨name, hname⟩
    | succ j =>
      obtain ⟨name', hname'⟩ := ih hrest j (by omega)
      exact ⟨name', by rwa [show i + (j + 1) = i + 1 + j by omega]⟩

theorem AdiosFile.names_eq_ok {namelist : Option NamelistPtr} {n : Nat} {visible : List Name}
    (h : f.names namelist 0 n = .ok visible) (hpos : 0 < n) :
    ∃ p, namelist = some p ∧ p.seek = f.seeks ∧ p.offset + n ≤ p.names.length ∧
      visible = (p.names.drop p.offset).take n := by
  obtain ⟨name, hname⟩ := AdiosFile.name_of_names h (n - 1) (by omega)
  obtain ⟨p, hp, hseek, hlast⟩ := AdiosFile.name_eq_ok_iff.mp hname
  obtain ⟨hlt, -⟩ := List.getElem?_eq_some_iff.mp hlast
  cases hp
  have hle : p.offset + 0 + n ≤ p.names.length := by omega
  exact ⟨p, rfl, hseek, hle, Except.ok.inj (h.symm.trans (AdiosFile.names_eq hseek hle))⟩

theorem LookupMatches.aligned (h : FileInv f vars attrs) (hmatches : LookupMatches f)
    (hdistinct : ∀ p ∈ f.varNamelist, p.seek = f.seeks → p.names.Nodup) : LookupAligned f := by
  obtain ⟨visible, hread, hfind⟩ := hmatches
  have htable : f.internals.hashtblVars.isSome := by
    obtain ⟨found, hfound, -⟩ := hfind []
    unfold commonReadFindVar at hfound
    cases htbl : f.internals.hashtblVars with
    | none => rw [htbl] at hfound; cases hfound
    | some tbl => rfl
  generalize hnames : (vars.map fun e => fullName e.1) = names at *
  have hne : names ≠ [] := names_ne_nil (hnames ▸ h.hashtbl) htable
  -- every name of the full list is found
  have hfound : ∀ s ∈ names, ∃ j, names[j]? = some s ∧ j < f.nvars ∧ visible[j]? = some s := by
    intro s hs
    obtain ⟨found, hfound, -, hall⟩ := hfind s
    rcases commonReadFindVar_cases (hnames ▸ h.hashtbl) hne s with ⟨hmem, -⟩ | ⟨j, hj, hfound'⟩
    · exact absurd hs hmem
    · cases hfound.symm.trans hfound'
      obtain ⟨hlt, hvisible, -⟩ := hall j rfl
      exact ⟨j, hj, hlt, hvisible⟩
  have hpos : 0 < f.nvars := by
    obtain ⟨j, -, hj, -⟩ := hfound _ (head_mem hne)
    omega
  obtain ⟨p, hp, hseek, hle, rfl⟩ := AdiosFile.names_eq_ok hread hpos
  have hnodup := hdistinct p hp hseek
  have hsame := h.varList.currentNames p hp hseek
  rw [hnames] at hsame
  rw [hsame] at hle hnodup hfound
  -- and so it stands in view where it stands in the full list
  have hplace : ∀ j (hj : j < names.length),
      j < f.nvars ∧ ((names.drop p.offset).take f.nvars)[j]? = some names[j] := by
    intro j hj
    obtain ⟨j', hj', hlt, hvisible⟩ := hfound _ (getElem_mem hj)
    obtain ⟨hlt', hj'⟩ := List.getElem?_eq_some_iff.mp hj'
    obtain rfl := hnodup.getElem_inj_iff.mp hj'
    exact ⟨hlt, hvisible⟩
  have hlen : 0 < names.length := length_pos_iff.mpr hne
  obtain ⟨-, hfirst⟩ := hplace 0 hlen
  obtain ⟨hlast, -⟩ := hplace (names.length - 1) (by omega)
  have hoffset : p.offset = 0 := by
    rw [getElem?_take_of_lt hpos, getElem?_drop, Nat.add_zero,
      getElem?_eq_getElem (by omega), Option.some.injEq] at hfirst
    exact hnodup.getElem_inj_iff.mp hfirst
  refine ⟨htable, p, hp, hseek, hoffset, ?_⟩
  rw [hsame]
  omega

/-- **Lookup by name** matches the list in view if this is the full list of a step with variables,
and, where no two variables have one name, only then. -/
theorem lookup_matches_iff (h : OpenFile showHiddenAttrs f) :
    (LookupAligned f → LookupMatches f) ∧
      ((∀ p ∈ f.varNamelist, p.seek = f.seeks → p.names.Nodup) →
        LookupMatches f → LookupAligned f) := by
  obtain ⟨vars, attrs, hinv⟩ := h.inv
  exact ⟨fun haligned => haligned.matches hinv, fun hdistinct hmatches =>
    hmatches.aligned hinv hdistinct⟩

theorem lookup_matches_twoGroups :
    ∃ f, commonReadOpen false false twoGroups = .ok f ∧ LookupMatches f := by
  refine ⟨_, rfl, (lookup_matches_iff (@OpenFile.opened false false twoGroups _ rfl)).1 ?_⟩
  exact ⟨rfl, _, rfl, rfl, rfl, rfl⟩

/-- In the view of the second group, the variable of the first is found, at an id that there is
not. -/
theorem not_lookup_matches_secondGroup :
    ∃ f, commonReadOpen false false twoGroups = .ok f ∧
      ¬LookupMatches (commonReadGroupView 1 f).2 := by
  refine ⟨_, rfl, fun hmatches => ?_⟩
  obtain ⟨visible, hread, hfind⟩ := hmatches
  obtain ⟨found, hfound, -, hall⟩ := hfind (chars "b")
  have hplace : found = some 1 := Except.ok.inj (hfound.symm.trans (by decide))
  obtain ⟨hlt, -⟩ := hall 1 hplace
  exact absurd hlt (by decide)

end Adios
