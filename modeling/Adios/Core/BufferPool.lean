import Adios.Runs.Every
import Adios.Types
import Mathlib

/-!
# Adios — the buffer pool

The counters of `buffer.c` and what `adios_open`, `adios_group_size` and `adios_close` of
`common_adios.c` do to them, over runs with any number of files. What the transports take and give
back by themselves is left out.
-/

namespace Adios.BufferPool

open List Runs UInt64

/-! ## The code -/

/-- The static variables of `buffer.c`. -/
structure Pool where
  requested : UInt64
  max : UInt64
  remaining : UInt64
  allocPercentage : Bool

/-- What the machine says: "`pagesize * pages`", and "`(pages * pagesize / 100.0) *
adios_buffer_size_requested`" when it is computed. -/
structure Machine where
  available : UInt64
  percentage : UInt64

/-- `adios_set_buffer_size` -/
def setBufferSize (m : Machine) (p : Pool) : Pool :=
  if p.max < p.requested then
    let max :=
      if p.allocPercentage then m.percentage
      else if p.requested ≤ m.available then p.requested
      else m.available
    { p with max := max, remaining := max }
  else p

/-- `adios_method_buffer_alloc` -/
def methodBufferAlloc (size : UInt64) (p : Pool) : UInt64 × Pool :=
  if size ≤ p.remaining then (size, { p with remaining := p.remaining - size })
  else (p.remaining, { p with remaining := 0 })

/-- `adios_method_buffer_free` -/
def methodBufferFree (size : UInt64) (p : Pool) : Pool :=
  if p.max < size + p.remaining then { p with remaining := p.max }
  else { p with remaining := p.remaining + size }

/-- The fields of `struct adios_file_struct` for the buffer, and if its group has no other method
than `ADIOS_METHOD_NULL`. -/
structure FileStruct where
  nullMethod : Bool
  sharedBuffer : Flag
  writeSizeBytes : UInt64
  buffer : Bool
  bufferSize : UInt64

/-- The numbers that `adios_group_size` gets and computes, what the methods of the group say, and if
there is memory for the buffer. -/
structure GroupSizes where
  dataSize : UInt64
  overhead : UInt64
  wcTransformedSize : UInt64
  shouldBuffer : List Flag
  memory : Bool

/-- `fd->write_size_bytes`, with the overhead and the growth by transforms. -/
def GroupSizes.writeSizeBytes (g : GroupSizes) : UInt64 :=
  if g.dataSize < g.wcTransformedSize then
    g.dataSize + g.overhead + (g.wcTransformedSize - g.dataSize)
  else g.dataSize + g.overhead

/-- The pool and the files: a closed file is gone. Beside them, what was granted, with what remained
before, and what was given back. -/
structure World where
  pool : Pool
  files : List (Option FileStruct)
  grants : List (UInt64 × UInt64)
  returns : List UInt64

def World.alloc (size : UInt64) (w : World) : UInt64 × World :=
  let (granted, pool) := methodBufferAlloc size w.pool
  (granted, { w with pool := pool, grants := (w.pool.remaining, granted) :: w.grants })

def World.free (size : UInt64) (w : World) : World :=
  { w with pool := methodBufferFree size w.pool, returns := size :: w.returns }

def World.setFile (fd : Nat) (f : Option FileStruct) (w : World) : World :=
  { w with files := w.files.set fd f }

/-- `common_adios_open`; `junk` is what the memory of `shared_buffer` has. -/
def openFile (nullMethod : Bool) (junk : Flag) (w : World) : World :=
  { w with files := w.files ++ [some ⟨nullMethod, junk, 0, false, 0⟩] }

/-- `common_adios_group_size` -/
def groupSize (fd : Nat) (f : FileStruct) (g : GroupSizes) (w : World) : World :=
  if f.nullMethod then
    -- "`nothing to do so just return`"
    w.setFile fd (some { f with sharedBuffer := .no, writeSizeBytes := 0, buffer := false })
  else
    let f := { f with writeSizeBytes := g.writeSizeBytes }
    let (allocated, w) := w.alloc f.writeSizeBytes
    let sharedBuffer :=
      if allocated ≠ f.writeSizeBytes ∨ .no ∈ g.shouldBuffer then Flag.no else .yes
    if sharedBuffer = .no then
      (w.free allocated).setFile fd (some { f with sharedBuffer := .no, buffer := false })
    else
      w.setFile fd (some { f with
        sharedBuffer := .yes, buffer := g.memory, bufferSize := f.writeSizeBytes })

/-- `common_adios_close` -/
def closeFile (fd : Nat) (f : FileStruct) (w : World) : World :=
  if f.nullMethod then w.setFile fd none
  else if f.sharedBuffer = .yes then (w.free f.writeSizeBytes).setFile fd none
  else w.setFile fd none

inductive Call where
  | requestedSet (v : UInt64)
  | allocPercentageSet (v : Bool)
  | maxSet (v : UInt64)
  | setBufferSize (m : Machine)
  | openFile (nullMethod : Bool) (junk : Flag)
  | groupSize (fd : Nat) (g : GroupSizes)
  | closeFile (fd : Nat)

def step (w : World) : Call → Option World
  | .requestedSet v => some { w with pool := { w.pool with requested := v } }
  | .allocPercentageSet v => some { w with pool := { w.pool with allocPercentage := v } }
  | .maxSet v => some { w with pool := { w.pool with max := v } }
  | .setBufferSize m => some { w with pool := BufferPool.setBufferSize m w.pool }
  | .openFile nullMethod junk => some (BufferPool.openFile nullMethod junk w)
  | .groupSize fd g => (w.files[fd]?.join).map fun f => BufferPool.groupSize fd f g w
  | .closeFile fd => (w.files[fd]?.join).map fun f => BufferPool.closeFile fd f w

def start : World := ⟨⟨0, 0, 0, false⟩, [], [], []⟩

/-! ## The statement -/

def World.outstanding (w : World) : Int :=
  ((w.grants.map fun g => g.2.toNat).sum : Nat) - ((w.returns.map UInt64.toNat).sum : Nat)

/-- The sizes add up, no grant was larger than what remained, and without open files everything
remains. -/
structure Accounted (w : World) : Prop where
  sum : w.pool.remaining.toNat + w.outstanding = w.pool.max.toNat
  granted : ∀ g ∈ w.grants, g.2 ≤ g.1
  closed : (∀ f ∈ w.files, f = none) → w.pool.remaining = w.pool.max

def FileStruct.held (f : FileStruct) : Nat :=
  if f.sharedBuffer = .yes then f.writeSizeBytes.toNat else 0

def World.held (w : World) : Nat := (w.files.map fun f => (f.map FileStruct.held).getD 0).sum

/-- The maximum is set to what it is; it is computed again only when no file has bytes of the pool;
and the size of a group is set only for a file that has none. -/
def Clear (w : World) : Call → Prop
  | .maxSet v => v = w.pool.max
  | .setBufferSize _ => w.pool.max < w.pool.requested → w.held = 0
  | .groupSize fd _ => ∀ f ∈ w.files[fd]?.join, f.held = 0
  | .requestedSet _ | .allocPercentageSet _ | .openFile _ _ | .closeFile _ => True

def ClearState : Type := { w : World // Guarded step Clear start w }

/-! ## What a call does -/

variable {w : World} {fd : Nat} {f : FileStruct}

theorem sum_set {l : List Nat} {i n : Nat} (h : l[i]? = some n) (a : Nat) :
    (l.set i a).sum + n = l.sum + a := by
  induction l generalizing i with
  | nil => cases h
  | cons b l ih =>
    cases i with
    | zero =>
      obtain rfl : b = n := Option.some.inj h
      rw [set_cons_zero, sum_cons, sum_cons]
      omega
    | succ i =>
      have hrest := ih h
      rw [set_cons_succ, sum_cons, sum_cons]
      omega

theorem held_setFile (h : w.files[fd]? = some (some f)) (f' : Option FileStruct) :
    (w.setFile fd f').held + f.held = w.held + (f'.map FileStruct.held).getD 0 := by
  have hget : (w.files.map fun f => (f.map FileStruct.held).getD 0)[fd]? = some f.held := by
    rw [getElem?_map, h]
    rfl
  rw [World.held, World.setFile]
  dsimp only
  rw [map_set]
  exact sum_set hget _

structure Inv (w : World) : Prop where
  sum : w.pool.remaining.toNat + w.held = w.pool.max.toNat
  outstanding : w.outstanding = w.held
  granted : ∀ g ∈ w.grants, g.2 ≤ g.1
  null : ∀ f, some f ∈ w.files → f.nullMethod = true → f.held = 0

theorem Inv.figures_agree (h : Inv w) : Accounted w where
  sum := by
    have hsum := h.sum
    rw [h.outstanding]
    omega
  granted := h.granted
  closed hall := by
    have hzero : w.held = 0 := by
      refine sum_eq_zero fun n hn => ?_
      obtain ⟨f, hf, rfl⟩ := mem_map.mp hn
      rw [hall f hf]
      rfl
    have hsum := h.sum
    rw [hzero, Nat.add_zero] at hsum
    exact UInt64.toNat_inj.mp hsum

theorem alloc_spec (size : UInt64) (w : World) :
    (w.alloc size).2.files = w.files ∧ (w.alloc size).2.pool.max = w.pool.max ∧
    (w.alloc size).2.pool.remaining.toNat + (w.alloc size).1.toNat = w.pool.remaining.toNat ∧
    (w.alloc size).2.outstanding = w.outstanding + (w.alloc size).1.toNat ∧
    (w.alloc size).2.grants = (w.pool.remaining, (w.alloc size).1) :: w.grants ∧
    (w.alloc size).1 ≤ w.pool.remaining := by
  have hout : (w.alloc size).2.outstanding = w.outstanding + (w.alloc size).1.toNat := by
    rw [World.outstanding, World.outstanding, World.alloc]
    dsimp only
    rw [map_cons, sum_cons]
    dsimp only
    omega
  refine ⟨rfl, ?_, ?_, hout, rfl, ?_⟩
  all_goals
    rw [World.alloc, methodBufferAlloc]
    dsimp only
    split
  · rfl
  · rfl
  · rename_i hle
    rw [UInt64.toNat_sub_of_le _ _ hle]
    have := le_iff_toNat_le.mp hle
    dsimp only
    omega
  · exact Nat.zero_add _
  · assumption
  · exact UInt64.le_refl _

theorem free_spec {size : UInt64} (hroom : w.pool.remaining.toNat + size.toNat ≤ w.pool.max.toNat) :
    (w.free size).files = w.files ∧ (w.free size).pool.max = w.pool.max ∧
    (w.free size).pool.remaining.toNat = w.pool.remaining.toNat + size.toNat ∧
    (w.free size).outstanding = w.outstanding - size.toNat ∧ (w.free size).grants = w.grants := by
  have hmax := toNat_lt w.pool.max
  have hout : (w.free size).outstanding = w.outstanding - size.toNat := by
    rw [World.outstanding, World.outstanding, World.free]
    dsimp only
    rw [map_cons, sum_cons]
    omega
  have hadd : (w.pool.remaining + size).toNat = w.pool.remaining.toNat + size.toNat := by
    rw [UInt64.toNat_add, Nat.mod_eq_of_lt (Nat.lt_of_le_of_lt hroom hmax)]
  have hfits : ¬w.pool.max < size + w.pool.remaining := by
    rw [UInt64.add_comm, lt_iff_toNat_lt, hadd]
    omega
  refine ⟨rfl, ?_, ?_, hout, rfl⟩
  · rw [World.free, methodBufferFree]
    dsimp only
    rw [if_neg hfits]
  · rw [World.free, methodBufferFree]
    dsimp only
    rw [if_neg hfits]
    exact hadd

/-! ## What holds in every state -/

theorem some_mem_set {fs : List (Option FileStruct)} {g : Option FileStruct} {f' : FileStruct}
    (h : some f' ∈ fs.set fd g) : some f' ∈ fs ∨ some f' = g :=
  mem_or_eq_of_mem_set h

theorem inv_setFile {w' : World} (h : Inv w) (hget : w.files[fd]? = some (some f))
    {g : Option FileStruct} (hfiles : w'.files = w.files) (hmax : w'.pool.max = w.pool.max)
    (hremaining : w'.pool.remaining.toNat + (g.map FileStruct.held).getD 0 =
      w.pool.remaining.toNat + f.held)
    (hout : w'.outstanding + f.held = w.outstanding + (g.map FileStruct.held).getD 0)
    (hgranted : ∀ r ∈ w'.grants, r.2 ≤ r.1) (hnull : ∀ f' ∈ g, f'.nullMethod = true → f'.held = 0) :
    Inv (w'.setFile fd g) := by
  have hheld : (w'.setFile fd g).held + f.held = w.held + (g.map FileStruct.held).getD 0 := by
    have hset := held_setFile hget g
    rw [World.held, World.setFile] at hset ⊢
    dsimp only at hset ⊢
    rwa [hfiles]
  have hsum := h.sum
  have houtstanding := h.outstanding
  refine ⟨?_, ?_, hgranted, fun f' hf' => ?_⟩
  · show w'.pool.remaining.toNat + (w'.setFile fd g).held = w'.pool.max.toNat
    rw [hmax]
    omega
  · show w'.outstanding = _
    omega
  · rw [World.setFile] at hf'
    dsimp only at hf'
    rw [hfiles] at hf'
    obtain hf' | hf' := some_mem_set hf'
    · exact h.null f' hf'
    · exact hnull f' hf'.symm

theorem inv_groupSize (h : Inv w) (hget : w.files[fd]? = some (some f)) (hnone : f.held = 0)
    (g : GroupSizes) : Inv (groupSize fd f g w) := by
  unfold groupSize
  split
  · rename_i hnull
    refine inv_setFile h hget rfl rfl ?_ ?_ h.granted ?_
    · rw [hnone]
      rfl
    · rw [hnone]
      rfl
    · rintro f' ⟨⟩ -
      rfl
  · rename_i hnull
    obtain ⟨hfiles, hmax, hremaining, hout, hgrants, hle⟩ := alloc_spec g.writeSizeBytes w
    have hgranted : ∀ r ∈ (w.alloc g.writeSizeBytes).2.grants, r.2 ≤ r.1 := by
      rw [hgrants]
      exact forall_mem_cons.mpr ⟨hle, h.granted⟩
    dsimp only
    split
    · -- the grant goes back
      have hsum := h.sum
      obtain ⟨hfiles', hmax', hremaining', hout', hgrants'⟩ :=
        @free_spec (w.alloc g.writeSizeBytes).2 (w.alloc g.writeSizeBytes).1 (by
          rw [hmax]
          omega)
      refine inv_setFile h hget (hfiles'.trans hfiles) (hmax'.trans hmax) ?_ ?_
        (hgrants' ▸ hgranted) ?_
      · rw [hnone, hremaining', hremaining]
        rfl
      · rw [hnone, hout', hout]
        show w.outstanding + _ - _ + ((0 : Nat) : Int) = w.outstanding + ((0 : Nat) : Int)
        omega
      · rintro f' ⟨⟩ -
        rfl
    · rename_i hyes
      have hall : (w.alloc g.writeSizeBytes).1 = g.writeSizeBytes := by
        by_contra hne
        exact hyes (Or.inl hne)
      rw [hall] at hremaining hout
      refine inv_setFile h hget hfiles hmax ?_ ?_ hgranted ?_
      · rw [hnone]
        exact hremaining
      · rw [hnone, hout]
        show _ + _ + ((0 : Nat) : Int) = w.outstanding + (g.writeSizeBytes.toNat : Int)
        omega
      · rintro f' ⟨⟩ hf'
        exact absurd hf' hnull

theorem inv_closeFile (h : Inv w) (hget : w.files[fd]? = some (some f)) :
    Inv (closeFile fd f w) := by
  have hnone : f.held = 0 → Inv (w.setFile fd none) := fun hzero => by
    refine inv_setFile h hget rfl rfl ?_ ?_ h.granted fun _ h => nomatch h
    · rw [hzero]
      rfl
    · rw [hzero]
      rfl
  unfold closeFile
  split
  · rename_i hnull
    exact hnone (h.null f (mem_of_getElem? hget) hnull)
  · split
    · rename_i hyes
      have hheld : f.held = f.writeSizeBytes.toNat := if_pos hyes
      have hle : f.held ≤ w.held := by
        have hset := held_setFile hget none
        rw [Option.map_none, Option.getD_none] at hset
        omega
      have hsum := h.sum
      obtain ⟨hfiles, hmax, hremaining, hout, hgrants⟩ :=
        @free_spec w f.writeSizeBytes (by omega)
      refine inv_setFile h hget hfiles hmax ?_ ?_ (hgrants ▸ h.granted) fun _ h => nomatch h
      · rw [hremaining, hheld]
        rfl
      · rw [hout, hheld]
        show w.outstanding - _ + _ = w.outstanding + ((0 : Nat) : Int)
        omega
    · rename_i hno
      exact hnone (if_neg hno)

theorem inv_openFile (h : Inv w) (nullMethod : Bool) (junk : Flag) :
    Inv (openFile nullMethod junk w) := by
  have hempty : (⟨nullMethod, junk, 0, false, 0⟩ : FileStruct).held = 0 := ite_self _
  have hheld : (openFile nullMethod junk w).held = w.held := by
    rw [World.held, openFile]
    dsimp only
    rw [map_append, map_singleton, sum_append, Option.map_some, hempty]
    rfl
  refine ⟨?_, ?_, h.granted, fun f hf hnull => ?_⟩
  · rw [hheld]
    exact h.sum
  · rw [hheld]
    exact h.outstanding
  · obtain hf | hf := mem_append.mp hf
    · exact h.null f hf hnull
    · rw [mem_singleton] at hf
      rw [Option.some.inj hf]
      exact hempty

theorem inv_setBufferSize (h : Inv w) (m : Machine)
    (hclear : w.pool.max < w.pool.requested → w.held = 0) :
    Inv { w with pool := setBufferSize m w.pool } := by
  unfold setBufferSize
  split
  · rename_i hlt
    refine ⟨?_, h.outstanding, h.granted, h.null⟩
    show _ + w.held = _
    rw [hclear hlt]
    rfl
  · exact h

theorem inv_step {w' : World} {c : Call} (h : Inv w) (hclear : Clear w c)
    (hstep : step w c = some w') : Inv w' := by
  cases c with
  | requestedSet v =>
    obtain rfl := Option.some.inj hstep
    exact ⟨h.sum, h.outstanding, h.granted, h.null⟩
  | allocPercentageSet v =>
    obtain rfl := Option.some.inj hstep
    exact ⟨h.sum, h.outstanding, h.granted, h.null⟩
  | maxSet v =>
    obtain rfl := Option.some.inj hstep
    obtain rfl : v = w.pool.max := hclear
    exact h
  | setBufferSize m =>
    obtain rfl := Option.some.inj hstep
    exact inv_setBufferSize h m hclear
  | openFile nullMethod junk =>
    obtain rfl := Option.some.inj hstep
    exact inv_openFile h nullMethod junk
  | groupSize fd g =>
    obtain ⟨f, hf, rfl⟩ := Option.map_eq_some_iff.mp hstep
    exact inv_groupSize h (Option.join_eq_some_iff.mp hf) (hclear f hf) g
  | closeFile fd =>
    obtain ⟨f, hf, rfl⟩ := Option.map_eq_some_iff.mp hstep
    exact inv_closeFile h (Option.join_eq_some_iff.mp hf)

theorem inv_start : Inv start :=
  ⟨rfl, rfl, fun _ h => absurd h not_mem_nil, fun _ h => absurd h not_mem_nil⟩

/-- The pool is accounted for in every state that is reached by clear calls. -/
theorem accounted (w : ClearState) : Accounted w.1 :=
  (w.2.invariant inv_start fun _ _ _ h hclear hstep => inv_step h hclear hstep).figures_agree

def growingPool : List Call :=
  [.requestedSet 1048576, .setBufferSize ⟨1073741824, 0⟩, .openFile false .no,
    .groupSize 0 ⟨10, 100, 10, [.yes], true⟩, .requestedSet 2097152,
    .setBufferSize ⟨1073741824, 0⟩]

theorem not_accounted_growingPool :
    ¬∀ w, Guarded step (fun _ _ => True) start w → Accounted w := by
  intro h
  obtain ⟨w, hrun, hsum⟩ : ∃ w, runAll step start growingPool = some w ∧
      w.pool.remaining.toNat + w.outstanding ≠ w.pool.max.toNat := by
    have hwrong : (runAll step start growingPool).map (fun w =>
        decide ((w.pool.remaining.toNat : Int) + w.outstanding = w.pool.max.toNat)) =
          some false := by
      decide +kernel
    obtain ⟨w, hrun, hw⟩ := Option.map_eq_some_iff.mp hwrong
    exact ⟨w, hrun, of_decide_eq_false hw⟩
  exact hsum (h w (Guarded.of_runAll .refl hrun)).sum

end Adios.BufferPool
