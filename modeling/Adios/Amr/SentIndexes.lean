import Adios.Amr.GatherIndex
import Adios.Index.Exchange
import Adios.Lists.Results

/-!
# MPI_AMR — the indexes that a process gathers

What comes of a gather: the root parses each of the indexes from the segment that it has in the
receive buffer. They arrive with their places exactly if the sizes of the buffers fit and each index
comes back from its own bytes.
-/

namespace Adios.Amr

open Wire Lists

structure Parcel where
  index : Index
  slack : List UInt8

section

variable (host : Endian) (version : Version) (junk : UInt64)

def Parcel.buffer (s : Parcel) : Except Failure (List UInt8) :=
  match s.index.image host version with
  | .ok bytes => .ok (bytes ++ s.slack)
  | .error f => .error (.fault f)

def parseSegment (segment : List UInt8) : Except Failure Index :=
  match parseIndexV1 ⟨host, false, junk⟩ segment with
  | .ok (ix, _) => .ok ix
  | .error f => .error (.fault f)

def gatherNews (sent : List Parcel) : Except Failure (List Index) := do
  let bufs ← sent.mapM (Parcel.buffer host version)
  let g ← gatherIndexes host bufs
  g.places.mapM fun place => parseSegment host junk (g.segment place)

/-- The indexes come in: no two segments overlap, and each is parsed from its own bytes, with its
places. -/
def Delivered (sent : List Parcel) : Prop :=
  ∃ bufs g, sent.mapM (Parcel.buffer host version) = .ok bufs ∧ gatherIndexes host bufs = .ok g ∧
    Separated bufs g ∧
    List.Forall₂ (fun place s => ReadsBack ⟨host, false, junk⟩ (g.segment place) s.index) g.places
      sent

def Deliverable (sent : List Parcel) : Prop :=
  ∃ bufs, sent.mapM (Parcel.buffer host version) = .ok bufs ∧ GatherFits host bufs ∧
    List.Forall₂ (fun buf s => ReadsBack ⟨host, false, junk⟩ buf s.index) bufs sent

end

variable {host : Endian} {version : Version} {junk : UInt64} {sent : List Parcel}

theorem Separated.forall₂_iff {γ : Type} {R : List UInt8 → γ → Prop} {bufs : List (List UInt8)}
    {g : IndexGather} (h : Separated bufs g) (xs : List γ) :
    List.Forall₂ (fun place x => R (g.segment place) x) g.places xs ↔
      List.Forall₂ R bufs xs := by
  have hsegments : List.Forall₂ (fun place buf => g.segment place = buf) g.places bufs :=
    h.own.imp fun _ _ hplace => hplace.2.2.2
  have hmap : g.places.map g.segment = bufs := by
    rw [← List.forall₂_eq_eq_eq, List.forall₂_map_left_iff]
    exact hsegments
  rw [← hmap, List.forall₂_map_left_iff]

theorem delivered_iff : Delivered host version junk sent ↔ Deliverable host version junk sent := by
  constructor
  · rintro ⟨bufs, g, hbufs, hg, hsep, hread⟩
    exact ⟨bufs, hbufs, (gather_iff host bufs).mp ⟨g, hg, hsep⟩, (hsep.forall₂_iff sent).mp hread⟩
  · rintro ⟨bufs, hbufs, hfits, hread⟩
    obtain ⟨g, hg, hsep⟩ := hfits.gather
    exact ⟨bufs, g, hbufs, hg, hsep, (hsep.forall₂_iff sent).mpr hread⟩

theorem parseSegment_of_readsBack {segment : List UInt8} {ix : Index}
    (h : ReadsBack ⟨host, false, junk⟩ segment ix) :
    ∃ ix', parseSegment host junk segment = .ok ix' ∧ ix'.bare = ix.bare := by
  obtain ⟨ix', rest, hparse, hbare⟩ := h
  refine ⟨ix', ?_, hbare⟩
  rw [parseSegment, hparse]

theorem Delivered.news (h : Delivered host version junk sent) :
    ∃ news, gatherNews host version junk sent = .ok news ∧
      news.map Index.bare = sent.map fun s => s.index.bare := by
  obtain ⟨bufs, g, hbufs, hg, -, hread⟩ := h
  obtain ⟨news, hnews, hbare⟩ := exists_mapM_of_forall₂
    (hread.imp fun place s hplace => parseSegment_of_readsBack hplace)
  refine ⟨news, ?_, hbare⟩
  rw [gatherNews, hbufs, ok_bind, hg, ok_bind]
  exact hnews

end Adios.Amr
