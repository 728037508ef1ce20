import Adios.Index.MergeRuns

/-!
# bpmeta — metadata rebuilt from subfiles

`utils/bpmeta/bpmeta.c`: the subfiles are shared out to threads, each of which merges the indexes of
its subfiles; at last the indexes of the threads are merged. The merging is `adios_merge_index_v1`
on lists in memory (`Reaches`).
-/

namespace Adios.Bpmeta

/-! ## The work of the threads -/

/-- One round of "`for (tid=0; tid<nthreads; tid++)`": the first and last subfile of the thread, and
`endidx` after the round. A worker gets what is in `targs` by then, the main thread, which is the
last one, the variables. -/
def nextRange (nsubfiles nthreads tid : Nat) (endidx : Int) : (Int × Int) × Int :=
  let startidx := endidx + 1
  let endidx := startidx + (nsubfiles / nthreads : Nat) - 1
  let targs := (startidx, endidx)
  let endidx := if tid < nsubfiles % nthreads then endidx + 1 else endidx
  (if tid + 1 < nthreads then targs else (startidx, endidx), endidx)

/-- The rounds from `tid` on. -/
def rangesFrom (nsubfiles nthreads : Nat) : Nat → Nat → Int → List (Int × Int)
  | 0, _, _ => []
  | rounds + 1, tid, endidx =>
    let (range, endidx) := nextRange nsubfiles nthreads tid endidx
    range :: rangesFrom nsubfiles nthreads rounds (tid + 1) endidx

def ranges (nsubfiles nthreads : Nat) : List (Int × Int) :=
  rangesFrom nsubfiles nthreads nthreads 0 (-1)

/-- "`for (idx=startidx; idx<=endidx; idx++)`" -/
def indices (range : Int × Int) : List Nat :=
  List.range' range.1.toNat (range.2 + 1 - range.1).toNat

/-! ## The indexes -/

/-- What `bpmeta` works on: the indexes that it parses from the subfiles, and the threads that it
uses. -/
structure Job where
  files : List NewIndex
  threads : Nat
  threads_pos : 0 < threads
  threads_le : threads ≤ files.length
  /-- The sets of each entry are counted by an `int` when it is parsed. -/
  fits : Fits files

def Job.filesOf (job : Job) (range : Int × Int) : List NewIndex :=
  (indices range).filterMap (job.files[·]?)

def Contents (st : IndexStore) (new : NewIndex) : Prop :=
  ∃ gs vs as, st.pgs.Holds gs ∧ gs.map Prod.snd = new.pgs ∧ st.vars.Holds vs ∧
    vs.map Prod.snd = new.vars ∧ st.attrs.Holds as ∧ as.map Prod.snd = new.attrs

/-- `globalindex` can be `st`: each thread has merged its subfiles into its `subindex`, and these
have been merged in the order of the threads. -/
def Rebuilt (job : Job) (st : IndexStore) : Prop :=
  ∃ subindex news,
    List.Forall₂ (fun range sub => Reaches (fun _ => true) (job.filesOf range) sub)
      (ranges job.files.length job.threads) subindex ∧
    List.Forall₂ Contents subindex news ∧ Reaches (fun _ => true) news st

/-! ## What is asked of the result -/

def setsOf {κ : Type} [DecidableEq κ] (key : IndexEntry → κ) (k : κ) (es : List IndexEntry) :
    List IndexCharacteristic :=
  (es.filter fun e => key e = k).flatMap IndexEntry.characteristics

def numbers {α : Type} (blocks : List (List α)) : List Nat :=
  blocks.zipIdx.flatMap fun b => b.1.map fun _ => b.2

/-- The entries of the subfiles are in the result, `part` by `part`: one for each key, with the sets
of all of them, each of which has the number of its subfile. -/
structure Collected {κ : Type} [DecidableEq κ] (key : IndexEntry → κ)
    (part : NewIndex → List IndexEntry) (files : List NewIndex) (es : List IndexEntry) : Prop where
  keys (v : IndexEntry) (hv : v ∈ files.flatMap part) : key v ∈ es.map key
  once : (es.map key).Nodup
  sets (e : IndexEntry) (he : e ∈ es) : e.characteristics = setsOf key (key e) (files.flatMap part)
  numbered (e : IndexEntry) (he : e ∈ es) :
    (e.characteristics.map fun c => c.fileIndex.toNat) =
      numbers (files.map fun f => setsOf key (key e) (part f))
  /-- The loops of `adios_write_index_v1` over the sets of an entry count with an `int`. -/
  writable (e : IndexEntry) (he : e ∈ es) : e.characteristics.length < 2147483648

def varEntries (f : NewIndex) : List IndexEntry := f.vars.map StoredEntry.entry

def attrEntries (f : NewIndex) : List IndexEntry := f.attrs.map StoredEntry.entry

structure Whole (files : List NewIndex) (ix : NewIndex) : Prop where
  pgs : ix.pgs.Perm (allPgs files)
  vars : Collected varKey varEntries files (varEntries ix)
  /-- No variable is missing because of another group with its path and name. -/
  groups (v : IndexEntry) (hv : v ∈ allVars files) :
    ∃ e ∈ varEntries ix, varKey e = varKey v ∧ e.groupName = v.groupName
  attrs : Collected attrKey attrEntries files (attrEntries ix)
  /-- The step lookup of the reader relies on it. -/
  ascending (e : IndexEntry) (he : e ∈ varEntries ix) :
    (e.characteristics.map IndexCharacteristic.timeIndex).Pairwise (· ≤ ·)

def Job.sequential (job : Job) : Job where
  files := job.files
  threads := 1
  threads_pos := Nat.one_pos
  threads_le := Nat.le_trans job.threads_pos job.threads_le
  fits := job.fits

structure Complete (job : Job) : Prop where
  partitioned : ((ranges job.files.length job.threads).flatMap indices).Perm
    (List.range job.files.length)
  rebuilt : ∃ st ix, Rebuilt job st ∧ Contents st ix
  whole (st : IndexStore) (ix : NewIndex) (h : Rebuilt job st) (hix : Contents st ix) :
    Whole job.files ix
  /-- The number of threads makes no difference. -/
  threads (st st' : IndexStore) (ix ix' : NewIndex) (h : Rebuilt job st) (hix : Contents st ix)
    (h' : Rebuilt job.sequential st') (hix' : Contents st' ix') :
    ix.pgs = ix'.pgs ∧ varEntries ix = varEntries ix' ∧
      attrEntries ix = attrEntries ix'

end Adios.Bpmeta
