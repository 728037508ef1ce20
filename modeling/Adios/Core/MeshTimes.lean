import Adios.Core.DimensionStrings
import Adios.Core.Strtod

/-!
# Core — the times of a mesh

`adios_common_define_mesh_timeScale` and `adios_common_define_mesh_timeSteps`: one, two or three
items, each of them a number or a variable, become attributes. The first tells a number by `strtod`,
the second by `adios_int_is_var`.
-/

namespace Adios.MeshTimes

open List
open DefineVar (Names findVarByName intIsVar strtok words strtok_eq)
open Separated
open Strtod

/-! ## The attributes -/

inductive Value where
  | string (text : Text)
  | double (n : Number)
  | var (v : DefineVar.Var)

/-- `struct adios_attribute_struct`, with `"/"` as its path. -/
structure Attribute where
  name : Text
  value : Value

/-- `errno`, and the attributes that have been defined. -/
structure State where
  errno : Int
  attributes : List Attribute

def State.append (s : State) (name : Text) (value : Value) : State :=
  { s with attributes := s.attributes ++ [⟨name, value⟩] }

structure Input where
  lib : Library
  errno : Int
  group : Names
  spec : Option Text
  name : Text

structure Copy where
  isNumber : Text → Bool
  errno : Int → Text → Int
  attNam : Text

def scale (lib : Library) : Copy := ⟨endsThere, errnoBehind lib, chars "time-scale"⟩

def steps : Copy := ⟨fun c => !intIsVar c, fun errno _ => errno, chars "time-steps"⟩

/-- `counter`, and `gettscalefrom0` to `gettscalefrom2`. -/
structure Slots where
  counter : Nat
  from0 : Text
  from1 : Text
  from2 : Text

def Slots.store (g : Slots) (c : Text) : Slots :=
  let g :=
    if g.counter = 0 then { g with from0 := c }
    else if g.counter = 1 then { g with from1 := c }
    else if g.counter = 2 then { g with from2 := c }
    else g
  { g with counter := g.counter + 1 }

theorem length_of_strtok {str c rest : Text} (h : strtok str = some (c, rest)) :
    rest.length < str.length := by
  unfold strtok at h
  have hdrop := (str.dropWhile_sublist (· == 44)).length_le
  split at h
  · cases h
  · next d ds hd =>
    cases h
    change str.dropWhile (· == 44) = d :: ds at hd
    rw [hd] at hdrop
    refine lt_of_lt_of_le ?_ hdrop
    cases hb : behind 44 (d :: ds) with
    | none => exact Nat.succ_pos _
    | some r =>
      have := length_of_behind hb
      simp only [Option.getD_some]
      omega

namespace Input

variable (q : Input)

/-- `adios_common_define_attribute` with `""` as the name of a variable; a value that is not valid
ends with "`free (attr->value)`", which has not been set. -/
def defineAttribute (s : State) (name : Text) (isDouble : Bool) :
    Option Text → Except Fault State
  | none =>
    match findVarByName q.group [] with
    | some v => .ok (s.append name (.var v))
    | none => .ok s
  | some value =>
    if isDouble then
      if errnoBehind q.lib s.errno value ≠ s.errno then .error .wildPointer
      else
        match strtod value with
        | some (n, []) => .ok (s.append name (.double n))
        | _ => .error .wildPointer
    else .ok (s.append name (.string value))

/-- `adios_conca_mesh_att_nam` -/
def concaMeshAttNam (attNam : Text) : Text := chars "adios_schema/" ++ q.name ++ 47 :: attNam

/-- "`while (c)`"; none where "`return 0;`" ends it. -/
def collect (p : Copy) (errno : Int) (str : Text) (g : Slots) : Option (Int × Slots) :=
  match _h : strtok str with
  | none => some (errno, g)
  | some (c, str') =>
    if p.isNumber c || (findVarByName q.group c).isSome then
      collect p (p.errno errno c) str' (g.store c)
    else none
termination_by str.length
decreasing_by
  exact length_of_strtok _h

def define (p : Copy) (s : State) (attNam value : Text) : Except Fault State :=
  q.defineAttribute { s with errno := p.errno s.errno value } (q.concaMeshAttNam (p.attNam ++ attNam))
    (p.isNumber value) (some value)

def threeItems (p : Copy) (s : State) (g : Slots) : Except Fault State := do
  let s ← q.define p s (chars "-start") g.from0
  let s ← q.define p s (chars "-stride") g.from1
  q.define p s (chars "-count") g.from2

def oneItem (p : Copy) (s : State) (g : Slots) : Except Fault State :=
  if p.isNumber g.from0 then q.define p s (chars "-count") g.from0
  else q.define p s (chars "-var") g.from0

def parse (p : Copy) (twoItems : State → Slots → Except Fault State) :
    Except Fault (Bool × List Attribute) :=
  match q.spec with
  | none | some [] => .ok (true, [])
  | some str =>
    match q.collect p q.errno str ⟨0, [], [], []⟩ with
    | none => .ok (false, [])
    | some (errno, g) =>
      if g.counter = 3 then do .ok (true, (← q.threeItems p ⟨errno, []⟩ g).attributes)
      else if g.counter = 2 then do .ok (true, (← twoItems ⟨errno, []⟩ g).attributes)
      else if g.counter = 1 then do .ok (true, (← q.oneItem p ⟨errno, []⟩ g).attributes)
      else .ok (false, [])

/-! ## The two functions -/

/-- "`strtod (time_min_att_nam, &ptr_end)`" and "`strtod (time_max_att_nam, &ptr_end)`", and
`time_min_att_val` is null. -/
def scaleTwoItems (s : State) (g : Slots) : Except Fault State := do
  let attNam := q.concaMeshAttNam (chars "time-scale-min")
  let s ← q.defineAttribute { s with errno := errnoBehind q.lib s.errno attNam } attNam
    (endsThere attNam) none
  let attNam := q.concaMeshAttNam (chars "time-scale-max")
  q.defineAttribute { s with errno := errnoBehind q.lib s.errno attNam } attNam
    (endsThere attNam) (some g.from1)

def stepsTwoItems (s : State) (g : Slots) : Except Fault State := do
  let s ← q.define steps s (chars "-min") g.from0
  q.define steps s (chars "-max") g.from1

/-- `adios_common_define_mesh_timeScale` -/
def timeScale : Except Fault (Bool × List Attribute) := q.parse (scale q.lib) q.scaleTwoItems

/-- `adios_common_define_mesh_timeSteps` -/
def timeSteps : Except Fault (Bool × List Attribute) := q.parse steps q.stepsTwoItems

end Input

/-! ## What a specification means -/

def isInteger : Text → Bool
  | 45 :: digits => digits ≠ [] && digits.all ScalarString.isDigit
  | digits => digits ≠ [] && digits.all ScalarString.isDigit

def number (s : Text) : Number := ((strtod s).map Prod.fst).getD .nan

def valueOf (isNumber : Text → Bool) (s : Text) : Value :=
  if isNumber s then .double (number s) else .string s

def forms (isNumber : Text → Bool) : List Text → List Text
  | [s] => [if isNumber s then chars "-count" else chars "-var"]
  | [_, _] => [chars "-min", chars "-max"]
  | _ => [chars "-start", chars "-stride", chars "-count"]

namespace Input

variable (q : Input)

def items : List Text := (q.spec.getD []).splitOn 44

structure Accepted (isNumber : Text → Bool) (items : List Text) : Prop where
  count : 1 ≤ items.length ∧ items.length ≤ 3
  each : ∀ s ∈ items, isNumber s ∨ ∃ v ∈ q.group.vars, DefineVar.fullPath v.path v.name = s

def attributes (attNam : Text) (values : List (Text × Value)) : List Attribute :=
  values.map fun (form, value) => ⟨q.concaMeshAttNam (attNam ++ form), value⟩

def values (isNumber : Text → Bool) (items : List Text) : List (Text × Value) :=
  (forms isNumber items).zip (items.map (valueOf isNumber))

structure Does (isNumber : Text → Bool) (attNam : Text)
    (result : Except Fault (Bool × List Attribute)) : Prop where
  empty : q.spec.getD [] = [] → result = .ok (true, [])
  accepted : q.spec.getD [] ≠ [] → q.Accepted isNumber q.items →
    result = .ok (true, q.attributes attNam (values isNumber q.items))
  rejected : q.spec.getD [] ≠ [] → ¬q.Accepted isNumber q.items → result = .ok (false, [])

structure Right : Prop where
  scale : q.Does IsNumber (chars "time-scale") q.timeScale
  steps : q.Does isInteger (chars "time-steps") q.timeSteps
  agree : (∀ s ∈ q.items, IsNumber s = isInteger s) → ∃ done values,
    q.timeScale = .ok (done, q.attributes (chars "time-scale") values) ∧
    q.timeSteps = .ok (done, q.attributes (chars "time-steps") values)

/-- A specification that is accepted, by what it means or by what is left of it, has no empty item,
and not two items. -/
def ScaleClear : Prop :=
  q.spec.getD [] ≠ [] →
    q.Accepted IsNumber q.items ∨ q.Accepted IsNumber (words (q.spec.getD [])) →
    [] ∉ q.items ∧ q.items.length ≠ 2

/-- A specification that is accepted has no empty item, no minus on its own, and no number that is
too large, unless `errno` tells of one before. -/
def StepsClear : Prop :=
  q.spec.getD [] ≠ [] →
    q.Accepted isInteger q.items ∨ q.Accepted steps.isNumber (words (q.spec.getD [])) →
    [] ∉ q.items ∧ [45] ∉ q.items ∧
      ∀ s ∈ q.items, isInteger s → outOfRange q.lib (number s) → q.errno = ScalarString.erange

/-! ## The items -/

variable {q}

variable {isNumber : Text → Bool} {items : List Text} {s : State} {p : Copy} {value : Text}
  {twoItems : State → Slots → Except Fault State}

theorem accepted_congr {isNumber' : Text → Bool} (h : ∀ s ∈ items, isNumber s = isNumber' s) :
    q.Accepted isNumber items ↔ q.Accepted isNumber' items := by
  constructor
  · rintro ⟨hcount, heach⟩
    exact ⟨hcount, fun s hs => h s hs ▸ heach s hs⟩
  · rintro ⟨hcount, heach⟩
    exact ⟨hcount, fun s hs => (h s hs).symm ▸ heach s hs⟩

theorem findVarByName_isSome {name : Text} : (findVarByName q.group name).isSome ↔
    ∃ v ∈ q.group.vars, DefineVar.fullPath v.path v.name = name := by
  simp [findVarByName, List.find?_isSome]

theorem ne_nil_of_mem_words {str c : Text} (hc : c ∈ words str) : c ≠ [] := by
  simpa using (mem_filter.mp hc).2

theorem words_eq_items (h : [] ∉ q.items) : words (q.spec.getD []) = q.items :=
  filter_eq_self.mpr fun s hs => by
    simp only [decide_eq_true_eq]
    rintro rfl
    exact h hs

theorem length_words_lt (h : [] ∈ q.items) :
    (words (q.spec.getD [])).length < q.items.length :=
  length_filter_lt_length_iff_exists.mpr ⟨[], h, by simp⟩

def Passes (q : Input) (p : Copy) (c : Text) : Bool :=
  p.isNumber c || (findVarByName q.group c).isSome

theorem collect_eq (p : Copy) (errno : Int) (str : Text) (g : Slots) :
    q.collect p errno str g = if (words str).all (q.Passes p) then
      some ((words str).foldl p.errno errno, (words str).foldl Slots.store g) else none := by
  fun_induction q.collect p errno str g with
  | case1 errno str g h =>
    rcases strtok_eq str with ⟨-, hwords⟩ | ⟨c, rest, hsome, -⟩
    · rw [hwords]
      rfl
    · rw [h] at hsome
      cases hsome
  | case2 errno str g c rest h hpasses ih =>
    rcases strtok_eq str with ⟨hnone, -⟩ | ⟨c', rest', hsome, hwords⟩
    · rw [h] at hnone
      cases hnone
    · rw [h] at hsome
      cases hsome
      have hc : q.Passes p c = true := hpasses
      rw [ih, hwords, all_cons, hc, Bool.true_and]
      rfl
  | case3 errno str g c rest h hpasses =>
    rcases strtok_eq str with ⟨hnone, -⟩ | ⟨c', rest', hsome, hwords⟩
    · rw [h] at hnone
      cases hnone
    · rw [h] at hsome
      cases hsome
      have hc : q.Passes p c = false := Bool.not_eq_true _ ▸ hpasses
      rw [hwords, all_cons, hc, Bool.false_and]
      rfl

theorem counter_store (cs : List Text) (g : Slots) :
    (cs.foldl Slots.store g).counter = g.counter + cs.length := by
  induction cs generalizing g with
  | nil => rfl
  | cons c cs ih =>
    have hstore : (g.store c).counter = g.counter + 1 := by
      unfold Slots.store
      dsimp only
      split_ifs <;> rfl
    rw [foldl_cons, ih, hstore, length_cons]
    omega

/-! ## The attributes of the items -/

/-- A number is defined, with the `errno` that its test has left. -/
def Fits (q : Input) (p : Copy) (errno : Int) (value : Text) : Prop :=
  p.isNumber value = true →
    errnoBehind q.lib (p.errno errno value) value = p.errno errno value ∧ IsNumber value = true

theorem strtod_of_isNumber {s : Text} (h : IsNumber s = true) :
    strtod s = some (number s, []) := by
  unfold IsNumber at h
  unfold number
  cases hs : strtod s with
  | none => simp [hs] at h
  | some n =>
    obtain ⟨n, rest⟩ := n
    simp only [hs, decide_eq_true_eq] at h
    simp [h]

theorem define_eq {form : Text} (h : q.Fits p s.errno value) :
    q.define p s form value = .ok ⟨p.errno s.errno value,
      s.attributes ++ q.attributes p.attNam [(form, valueOf p.isNumber value)]⟩ := by
  unfold define defineAttribute valueOf
  dsimp only
  by_cases hnumber : p.isNumber value = true
  · obtain ⟨herrno, hvalue⟩ := h hnumber
    rw [if_pos hnumber, if_pos hnumber, if_neg (not_not_intro herrno), strtod_of_isNumber hvalue]
    rfl
  · rw [if_neg hnumber, if_neg hnumber]
    rfl

theorem define_error {form : Text} (h : ¬q.Fits p s.errno value) :
    q.define p s form value = .error .wildPointer := by
  unfold Fits at h
  push Not at h
  obtain ⟨hnumber, hbad⟩ := h
  unfold define defineAttribute
  dsimp only
  rw [if_pos hnumber]
  by_cases herrno : errnoBehind q.lib (p.errno s.errno value) value = p.errno s.errno value
  · rw [if_neg (not_not_intro herrno)]
    have hvalue := hbad herrno
    unfold IsNumber at hvalue
    split at hvalue
    · next n rest hs =>
      rw [hs]
      cases rest with
      | nil => exact absurd rfl hvalue
      | cons c rest => rfl
    · next hs => rw [hs]
  · rw [if_pos herrno]

def defineAll (q : Input) (p : Copy) (s : State) (values : List (Text × Text)) : Except Fault State :=
  values.foldlM (fun s x => q.define p s x.1 x.2) s

theorem defineAll_eq {E : Int → Prop} (hE : ∀ errno value, E errno → E (p.errno errno value))
    {values : List (Text × Text)} (hfits : ∀ errno, E errno → ∀ x ∈ values, q.Fits p errno x.2)
    (hs : E s.errno) :
    (q.defineAll p s values).map State.attributes = .ok (s.attributes ++
      q.attributes p.attNam (values.map fun x => (x.1, valueOf p.isNumber x.2))) := by
  induction values generalizing s with
  | nil => simp [defineAll, attributes, pure, Except.pure, Except.map]
  | cons x values ih =>
    have hx := hfits s.errno hs x mem_cons_self
    have hrest := ih (fun errno he y hy => hfits errno he y (mem_cons_of_mem _ hy))
      (s := ⟨p.errno s.errno x.2, s.attributes ++
        q.attributes p.attNam [(x.1, valueOf p.isNumber x.2)]⟩) (hE _ _ hs)
    rw [defineAll, List.foldlM_cons, define_eq hx]
    refine hrest.trans ?_
    simp [attributes]

theorem defineAll_error (hp : ∀ errno value, p.errno errno value = errno)
    {values : List (Text × Text)} (h : ∃ x ∈ values, ¬q.Fits p s.errno x.2) :
    q.defineAll p s values = .error .wildPointer := by
  induction values generalizing s with
  | nil => simp at h
  | cons x values ih =>
    rw [defineAll, List.foldlM_cons]
    by_cases hx : q.Fits p s.errno x.2
    · rw [define_eq hx]
      refine ih ?_
      obtain ⟨y, hy, hbad⟩ := h
      rcases mem_cons.mp hy with rfl | hy
      · exact absurd hx hbad
      · exact ⟨y, hy, by rwa [hp]⟩
    · rw [define_error hx]
      rfl

theorem mem_zip_snd {forms : List Text} {ws : List Text} {x : Text × Text}
    (h : x ∈ forms.zip ws) : x.2 ∈ ws := (of_mem_zip h).2

/-! ## What is returned -/

theorem parse_of_not_accepted (hgiven : q.spec.getD [] ≠ [])
    (h : ¬q.Accepted p.isNumber (words (q.spec.getD []))) :
    q.parse p twoItems = .ok (false, []) := by
  obtain ⟨str, hspec⟩ : ∃ str, q.spec = some str := by
    cases hspec : q.spec with
    | none => simp [hspec] at hgiven
    | some str => exact ⟨str, rfl⟩
  rw [hspec] at hgiven h
  unfold parse
  rw [hspec]
  cases str with
  | nil => exact absurd rfl hgiven
  | cons c cs =>
    dsimp only
    rw [collect_eq]
    by_cases hall : (words (c :: cs)).all (q.Passes p) = true
    · rw [if_pos hall]
      have hcount : ¬(1 ≤ (words (c :: cs)).length ∧ (words (c :: cs)).length ≤ 3) := by
        refine fun hcount => h ⟨hcount, fun s hs => ?_⟩
        have hpasses := all_eq_true.mp hall s hs
        rw [Passes, Bool.or_eq_true] at hpasses
        exact hpasses.imp id findVarByName_isSome.mp
      have hcounter := counter_store (words (c :: cs)) ⟨0, [], [], []⟩
      simp only [Nat.zero_add] at hcounter
      dsimp only
      rw [hcounter, if_neg (by omega), if_neg (by omega), if_neg (by omega)]
    · rw [if_neg hall]

theorem not_length_le_three {a b c d : Text} (items : List Text) :
    ¬(a :: b :: c :: d :: items).length ≤ 3 := by
  simp only [length_cons]
  omega

theorem bind_attributes (x : Except Fault State) : (do .ok (true, (← x).attributes)) =
    (x.map State.attributes).map (Prod.mk true) := by
  cases x <;> rfl

theorem parse_of_accepted (twoItems : State → Slots → Except Fault State)
    (hgiven : q.spec.getD [] ≠ []) (h : q.Accepted p.isNumber (words (q.spec.getD []))) :
    ∃ errno, errno = (words (q.spec.getD [])).foldl p.errno q.errno ∧ q.parse p twoItems =
      ((match words (q.spec.getD []) with
        | [a, b] => twoItems ⟨errno, []⟩ ⟨2, a, b, []⟩
        | ws => q.defineAll p ⟨errno, []⟩ ((forms p.isNumber ws).zip ws)).map
          State.attributes).map (Prod.mk true) := by
  refine ⟨_, rfl, ?_⟩
  obtain ⟨str, hspec⟩ : ∃ str, q.spec = some str := by
    cases hspec : q.spec with
    | none => simp [hspec] at hgiven
    | some str => exact ⟨str, rfl⟩
  rw [hspec] at hgiven h
  unfold parse
  rw [hspec]
  cases str with
  | nil => exact absurd rfl hgiven
  | cons c cs =>
    simp only [Option.getD_some] at h ⊢
    have hall : (words (c :: cs)).all (q.Passes p) = true := by
      refine all_eq_true.mpr fun s hs => ?_
      rw [Passes, Bool.or_eq_true]
      exact (h.each s hs).imp id findVarByName_isSome.mpr
    rw [collect_eq, if_pos hall]
    have hcount := h.count
    match hws : words (c :: cs) with
    | [] => simp [hws] at hcount
    | [a] =>
      have hone (s : State) : q.oneItem p s ⟨1, a, [], []⟩ =
          q.defineAll p s ((forms p.isNumber [a]).zip [a]) := by
        by_cases ha : p.isNumber a = true <;> simp [oneItem, forms, defineAll, ha]
      dsimp only
      rw [← hone]
      exact bind_attributes _
    | [a, b] => exact bind_attributes _
    | [a, b, d] =>
      have hthree (s : State) : q.threeItems p s ⟨3, a, b, d⟩ =
          q.defineAll p s ((forms p.isNumber [a, b, d]).zip [a, b, d]) := by
        simp [threeItems, forms, defineAll]
      dsimp only
      rw [← hthree]
      exact bind_attributes _
    | _ :: _ :: _ :: _ :: _ =>
      rw [hws] at hcount
      exact absurd hcount.2 (not_length_le_three _)

theorem length_forms (isNumber : Text → Bool) (h : 1 ≤ items.length ∧ items.length ≤ 3) :
    (forms isNumber items).length = items.length := by
  match items with
  | [] => simp at h
  | [_] => rfl
  | [_, _] => rfl
  | [_, _, _] => rfl
  | _ :: _ :: _ :: _ :: _ => exact absurd h.2 (not_length_le_three _)

theorem length_values (h : 1 ≤ items.length ∧ items.length ≤ 3) :
    (values isNumber items).length = items.length := by
  rw [values, length_zip, length_forms _ h, length_map, Nat.min_self]

theorem values_congr {isNumber' : Text → Bool} (h : ∀ s ∈ items, isNumber s = isNumber' s) :
    values isNumber items = values isNumber' items := by
  have hvalues : items.map (valueOf isNumber) = items.map (valueOf isNumber') :=
    map_congr_left fun s hs => by rw [valueOf, valueOf, h s hs]
  have hforms : forms isNumber items = forms isNumber' items := by
    match items with
    | [] => rfl
    | [s] => rw [forms, forms, h s mem_cons_self]
    | [_, _] => rfl
    | _ :: _ :: _ :: _ => rfl
  rw [values, values, hvalues, hforms]

/-! ## The time scale -/

section

variable {ws : List Text} (hne : ∀ s ∈ ws, s ≠ [])

include hne

theorem isNumber_eq : ∀ s ∈ ws, (scale q.lib).isNumber s = IsNumber s :=
  fun s hs => endsThere_eq (hne s hs)

theorem defineAll_scale (errno : Int) :
    (q.defineAll (scale q.lib) ⟨errno, []⟩ ((forms (scale q.lib).isNumber ws).zip ws)).map
      State.attributes = .ok (q.attributes (chars "time-scale") (values IsNumber ws)) := by
  rw [← values_congr (isNumber_eq (q := q) hne), values, zip_map_right]
  refine defineAll_eq (E := fun _ => True) (fun _ _ _ => trivial) (fun errno _ x hx hnumber => ?_)
    trivial
  have hx := mem_zip_snd hx
  exact ⟨errnoBehind_errnoBehind q.lib errno x.2, isNumber_eq (q := q) hne x.2 hx ▸ hnumber⟩

end

theorem defineAttribute_some {s' : State} {name : Text} {isDouble : Bool}
    (h : q.defineAttribute s name isDouble (some value) = .ok s') :
    ∃ v, s'.attributes = s.attributes ++ [⟨name, v⟩] := by
  unfold defineAttribute at h
  dsimp only at h
  split_ifs at h
  · split at h
    · cases h
      exact ⟨_, rfl⟩
    · cases h
  · cases h
    exact ⟨_, rfl⟩

theorem scaleTwoItems_ne {errno : Int} {g : Slots} {l : List Attribute} (hlen : 2 ≤ l.length)
    (hl : ∀ a ∈ l, ∀ v, a.value ≠ .var v) :
    (q.scaleTwoItems ⟨errno, []⟩ g).map State.attributes ≠ .ok l := by
  intro h
  unfold scaleTwoItems at h
  set first := q.concaMeshAttNam (chars "time-scale-min")
  cases hmin : q.defineAttribute ⟨errnoBehind q.lib errno first, []⟩ first (endsThere first) none with
  | error fault => simp [hmin, bind, Except.bind, Except.map] at h
  | ok s =>
    simp only [hmin, bind, Except.bind] at h
    set last := q.concaMeshAttNam (chars "time-scale-max")
    cases hmax : q.defineAttribute ⟨errnoBehind q.lib s.errno last, s.attributes⟩ last
        (endsThere last) (some g.from1) with
    | error fault => simp [hmax, Except.map] at h
    | ok s' =>
      obtain ⟨v, hv⟩ := defineAttribute_some hmax
      rw [hmax] at h
      have hs' : s'.attributes = l := Except.ok.inj h
      rw [← hs', hv] at hlen hl
      rw [defineAttribute] at hmin
      cases hempty : findVarByName q.group [] with
      | none =>
        rw [hempty] at hmin
        cases hmin
        simp at hlen
      | some w =>
        rw [hempty] at hmin
        cases hmin
        exact hl ⟨first, .var w⟩ (by simp [State.append]) w rfl

theorem value_ne_var {attNam : Text} :
    ∀ a ∈ q.attributes attNam (values isNumber items), ∀ v, a.value ≠ .var v := by
  intro a ha v
  obtain ⟨x, hx, rfl⟩ := mem_map.mp ha
  obtain ⟨s, -, hs⟩ := mem_map.mp (of_mem_zip hx).2
  change x.2 ≠ _
  rw [← hs, valueOf]
  split_ifs <;> exact nofun

theorem of_map_eq {x : Except Fault State} {l : List Attribute}
    (h : (x.map State.attributes).map (Prod.mk true) = .ok (true, l)) :
    x.map State.attributes = .ok l := by
  cases x with
  | error fault => cases h
  | ok s => exact congrArg _ (Prod.mk.inj (Except.ok.inj h)).2

theorem parse_ne_rejected (hgiven : q.spec.getD [] ≠ [])
    (h : q.Accepted p.isNumber (words (q.spec.getD []))) :
    q.parse p twoItems ≠ .ok (false, []) := by
  obtain ⟨errno, -, hparse⟩ := parse_of_accepted twoItems hgiven h
  rw [hparse]
  generalize (match words (q.spec.getD []) with
    | [a, b] => twoItems ⟨errno, []⟩ ⟨2, a, b, []⟩
    | ws => q.defineAll p ⟨errno, []⟩ ((forms p.isNumber ws).zip ws)) = x
  cases x <;> exact nofun

theorem parse_of_empty (h : q.spec.getD [] = []) : q.parse p twoItems = .ok (true, []) := by
  unfold parse
  cases hspec : q.spec with
  | none => rfl
  | some str =>
    rw [hspec] at h
    cases h
    rfl

theorem accepted_scale_iff : q.Accepted (scale q.lib).isNumber (words (q.spec.getD [])) ↔
    q.Accepted IsNumber (words (q.spec.getD [])) :=
  accepted_congr (isNumber_eq fun _ => ne_nil_of_mem_words)

theorem timeScale_of_accepted (hgiven : q.spec.getD [] ≠ [])
    (h : q.Accepted IsNumber (words (q.spec.getD [])))
    (hlen : (words (q.spec.getD [])).length ≠ 2) : q.timeScale =
      .ok (true, q.attributes (chars "time-scale") (values IsNumber (words (q.spec.getD [])))) := by
  obtain ⟨errno, -, hparse⟩ := parse_of_accepted q.scaleTwoItems hgiven
    (accepted_scale_iff.mpr h)
  rw [timeScale, hparse]
  have hne (s : Text) (hs : s ∈ words (q.spec.getD [])) : s ≠ [] := ne_nil_of_mem_words hs
  have hall := defineAll_scale (q := q) hne errno
  split
  · next a b hws =>
    rw [hws] at hlen
    exact absurd rfl hlen
  · rw [hall]
    rfl

theorem does_timeScale_iff : q.Does IsNumber (chars "time-scale") q.timeScale ↔ q.ScaleClear := by
  constructor
  · intro hdoes hgiven hacc
    have hitems : q.Accepted IsNumber q.items := by
      by_contra hitems
      exact parse_ne_rejected hgiven (accepted_scale_iff.mpr (hacc.resolve_left hitems))
        (hdoes.rejected hgiven hitems)
    have hresult := hdoes.accepted hgiven hitems
    have hws : q.Accepted IsNumber (words (q.spec.getD [])) := by
      by_contra hws
      rw [timeScale, parse_of_not_accepted hgiven (accepted_scale_iff.not.mpr hws)] at hresult
      cases hresult
    have hle : (words (q.spec.getD [])).length ≤ q.items.length := length_filter_le _ _
    have hlength : (q.attributes (chars "time-scale") (values IsNumber q.items)).length =
        q.items.length := (length_map _).trans (length_values hitems.count)
    have htwo : (words (q.spec.getD [])).length ≠ 2 := by
      intro htwo
      obtain ⟨errno, -, hparse⟩ := parse_of_accepted q.scaleTwoItems hgiven
        (accepted_scale_iff.mpr hws)
      obtain ⟨a, b, hab⟩ := length_eq_two.mp htwo
      rw [timeScale, hparse, hab] at hresult
      exact scaleTwoItems_ne (by omega) value_ne_var (of_map_eq hresult)
    rw [timeScale_of_accepted hgiven hws htwo] at hresult
    have hsame := congrArg List.length (Prod.mk.inj (Except.ok.inj hresult)).2
    rw [hlength, attributes, length_map, length_values hws.count] at hsame
    exact ⟨fun hempty => (length_words_lt hempty).ne hsame, hsame ▸ htwo⟩
  · intro hclear
    refine ⟨fun hempty => parse_of_empty hempty, fun hgiven hitems => ?_, fun hgiven hitems => ?_⟩
    · obtain ⟨hempty, htwo⟩ := hclear hgiven (.inl hitems)
      rw [← words_eq_items hempty] at htwo hitems ⊢
      exact timeScale_of_accepted hgiven hitems htwo
    · refine parse_of_not_accepted hgiven fun hws => ?_
      have hempty := (hclear hgiven (.inr (accepted_scale_iff.mp hws))).1
      rw [accepted_scale_iff, words_eq_items hempty] at hws
      exact hitems hws

/-! ## The time steps -/

theorem isNumber_steps {s : Text} (hs : s ≠ []) (hminus : s ≠ [45]) :
    steps.isNumber s = isInteger s := by
  obtain ⟨c, cs, rfl⟩ := exists_cons_of_ne_nil hs
  by_cases hc : c = 45
  · subst hc
    have hcs : cs ≠ [] := fun h => hminus (h ▸ rfl)
    simp [steps, intIsVar, isInteger, hcs]
  · have hint : isInteger (c :: cs) = (c :: cs).all ScalarString.isDigit := by
      unfold isInteger
      split
      · next h => exact absurd (List.cons.inj h).1 hc
      · simp
    rw [hint]
    simp [steps, intIsVar, hc]

theorem isNumber_of_isInteger {s : Text} (h : isInteger s = true) : IsNumber s = true := by
  have hstrtod : ∃ n, strtod s = some (n, []) := by
    unfold isInteger at h
    split at h
    · next digits =>
      simp only [Bool.and_eq_true, decide_eq_true_eq] at h
      exact ⟨_, strtod_digits (all_eq_true.mp h.2) h.1 true⟩
    · next hs =>
      simp only [Bool.and_eq_true, decide_eq_true_eq] at h
      exact ⟨_, strtod_digits (all_eq_true.mp h.2) h.1 false⟩
  obtain ⟨n, hn⟩ := hstrtod
  unfold IsNumber
  rw [hn]
  rfl

theorem fits_steps_iff {s : Text} (hs : s ≠ []) : q.Fits steps q.errno s ↔ s ≠ [45] ∧
    (isInteger s = true → outOfRange q.lib (number s) = true → q.errno = ScalarString.erange) := by
  have herrno (h : isInteger s = true) : errnoBehind q.lib q.errno s =
      if outOfRange q.lib (number s) then ScalarString.erange else q.errno := by
    rw [errnoBehind, strtod_of_isNumber (isNumber_of_isInteger h)]
  constructor
  · intro hfits
    have hminus : s ≠ [45] := by
      rintro rfl
      have := (hfits (by decide)).2
      revert this
      decide
    refine ⟨hminus, fun hint hrange => ?_⟩
    have hsame := (hfits (isNumber_steps hs hminus ▸ hint)).1
    change errnoBehind q.lib q.errno s = q.errno at hsame
    rw [herrno hint, if_pos hrange] at hsame
    exact hsame.symm
  · rintro ⟨hminus, hrange⟩ hnumber
    have hint := isNumber_steps hs hminus ▸ hnumber
    refine ⟨?_, isNumber_of_isInteger hint⟩
    change errnoBehind q.lib q.errno s = q.errno
    rw [herrno hint]
    split_ifs with h
    · exact (hrange hint h).symm
    · rfl

theorem defineAll_steps {ws : List Text} (h : ∀ s ∈ ws, q.Fits steps q.errno s) :
    (q.defineAll steps ⟨q.errno, []⟩ ((forms steps.isNumber ws).zip ws)).map State.attributes =
      .ok (q.attributes (chars "time-steps") (values steps.isNumber ws)) := by
  rw [values, zip_map_right]
  refine defineAll_eq (E := (· = q.errno)) (fun _ _ h => h) (fun errno he x hx => ?_) rfl
  rw [he]
  exact h x.2 (mem_zip_snd hx)

theorem timeSteps_of_accepted (hgiven : q.spec.getD [] ≠ [])
    (h : q.Accepted steps.isNumber (words (q.spec.getD []))) : q.timeSteps =
      ((q.defineAll steps ⟨q.errno, []⟩ ((forms steps.isNumber (words (q.spec.getD []))).zip
        (words (q.spec.getD [])))).map State.attributes).map (Prod.mk true) := by
  obtain ⟨errno, herrno, hparse⟩ := parse_of_accepted q.stepsTwoItems hgiven h
  have hsame : errno = q.errno := by
    rw [herrno]
    exact foldl_fixed _
  rw [timeSteps, hparse, hsame]
  split
  · next a b hws =>
    rw [hws]
    simp [stepsTwoItems, defineAll, forms]
  · rfl

theorem does_timeSteps_iff : q.Does isInteger (chars "time-steps") q.timeSteps ↔ q.StepsClear := by
  constructor
  · intro hdoes hgiven hacc
    have hitems : q.Accepted isInteger q.items := by
      by_contra hitems
      exact parse_ne_rejected hgiven (hacc.resolve_left hitems) (hdoes.rejected hgiven hitems)
    have hresult := hdoes.accepted hgiven hitems
    have hws : q.Accepted steps.isNumber (words (q.spec.getD [])) := by
      by_contra hws
      rw [timeSteps, parse_of_not_accepted hgiven hws] at hresult
      cases hresult
    rw [timeSteps_of_accepted hgiven hws] at hresult
    have hdefined := of_map_eq hresult
    have hfits : ∀ s ∈ words (q.spec.getD []), q.Fits steps q.errno s := by
      intro s hs
      by_contra hbad
      have hmem : ∃ x ∈ (forms steps.isNumber (words (q.spec.getD []))).zip
          (words (q.spec.getD [])), ¬q.Fits steps q.errno x.2 := by
        obtain ⟨i, hi, rfl⟩ := getElem_of_mem hs
        have hlength := length_forms steps.isNumber hws.count
        exact ⟨_, getElem_mem (by simpa [hlength] using hi), by simpa using hbad⟩
      rw [defineAll_error (fun _ _ => rfl) hmem] at hdefined
      cases hdefined
    rw [defineAll_steps hfits] at hdefined
    have hsame := congrArg List.length (Except.ok.inj hdefined)
    simp only [attributes, length_map, length_values hitems.count, length_values hws.count] at hsame
    have hempty : [] ∉ q.items := fun hempty => (length_words_lt hempty).ne hsame
    rw [words_eq_items hempty] at hfits
    have hne : ∀ s ∈ q.items, s ≠ [] := fun s hs hs' => hempty (hs' ▸ hs)
    refine ⟨hempty, fun hminus => ?_, fun s hs => ((fits_steps_iff (hne s hs)).mp (hfits s hs)).2⟩
    exact ((fits_steps_iff (hne _ hminus)).mp (hfits _ hminus)).1 rfl
  · intro hclear
    refine ⟨fun hempty => parse_of_empty hempty, fun hgiven hitems => ?_, fun hgiven hitems => ?_⟩
    · obtain ⟨hempty, hminus, hrange⟩ := hclear hgiven (.inl hitems)
      have hne : ∀ s ∈ q.items, s ≠ [] := fun s hs hs' => hempty (hs' ▸ hs)
      have hsame : ∀ s ∈ q.items, steps.isNumber s = isInteger s := fun s hs =>
        isNumber_steps (hne s hs) fun hs' => hminus (hs' ▸ hs)
      have hfits : ∀ s ∈ q.items, q.Fits steps q.errno s := fun s hs =>
        (fits_steps_iff (hne s hs)).mpr ⟨fun hs' => hminus (hs' ▸ hs), hrange s hs⟩
      rw [← values_congr hsame]
      rw [← accepted_congr hsame] at hitems
      rw [← words_eq_items hempty] at hitems hfits ⊢
      rw [timeSteps_of_accepted hgiven hitems, defineAll_steps hfits]
      rfl
    · refine parse_of_not_accepted hgiven fun hws => hitems ?_
      obtain ⟨hempty, hminus, -⟩ := hclear hgiven (.inr hws)
      rw [words_eq_items hempty] at hws
      refine (accepted_congr fun s hs => ?_).mp hws
      exact isNumber_steps (fun hs' => hempty (hs' ▸ hs)) fun hs' => hminus (hs' ▸ hs)

/-- Both functions define what the specification means if and only if the two conditions hold. -/
theorem meshTimes_right_iff (q : Input) : q.Right ↔ q.ScaleClear ∧ q.StepsClear := by
  constructor
  · intro hright
    exact ⟨does_timeScale_iff.mp hright.scale, does_timeSteps_iff.mp hright.steps⟩
  · rintro ⟨hscaleClear, hstepsClear⟩
    have hscale := does_timeScale_iff.mpr hscaleClear
    have hsteps := does_timeSteps_iff.mpr hstepsClear
    refine ⟨hscale, hsteps, fun hsame => ?_⟩
    by_cases hgiven : q.spec.getD [] = []
    · exact ⟨true, [], hscale.empty hgiven, hsteps.empty hgiven⟩
    by_cases hitems : q.Accepted IsNumber q.items
    · refine ⟨true, values IsNumber q.items, hscale.accepted hgiven hitems, ?_⟩
      rw [values_congr hsame]
      exact hsteps.accepted hgiven ((accepted_congr hsame).mp hitems)
    · exact ⟨false, [], hscale.rejected hgiven hitems,
        hsteps.rejected hgiven ((accepted_congr hsame).not.mp hitems)⟩

def minAndMax : Input := ⟨⟨⟨false⟩, fun _ => false⟩, 0, ⟨[], [], none, true⟩,
  some (chars "0,9"), chars "mesh"⟩

/-- The minimum of the time scale is not defined. -/
theorem not_right_minAndMax : ¬minAndMax.Right := by
  intro hright
  have hclear := does_timeScale_iff.mp hright.scale
  have hitems : minAndMax.items = [[48], [57]] := by decide
  have hacc : minAndMax.Accepted IsNumber minAndMax.items := by
    rw [hitems]
    refine ⟨by decide, fun s hs => .inl (isNumber_of_isInteger ?_)⟩
    revert s
    decide
  exact (hclear (by decide) (.inl hacc)).2 (by rw [hitems]; rfl)

end Input

end Adios.MeshTimes
