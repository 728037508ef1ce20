import Adios.Icee.Steps
import Mathlib.Data.List.Nodup
import Mathlib.Algebra.Ring.Nat

/-!
# ICEE — steps that are complete when the reader leaves them

As long as the reader leaves a step only when all its messages have arrived, no message comes behind
its record, and the first message of a step comes when all steps before have a record.
-/

namespace Adios.Icee

open List Runs

def Record.merge (p fp : Record) : Record :=
  { p with varinfo := p.varinfo ++ fp.varinfo, mergeCount := p.mergeCount + 1 }

variable {records : List Record} {fp : Record}

theorem fileinfoAppend_of_new (h : ∀ r ∈ records, r.timestep ≠ fp.timestep) :
    fileinfoAppend records fp = .ok (records ++ [fp]) := by
  induction records with
  | nil => rfl
  | cons p records ih =>
    obtain ⟨hp, hrecords⟩ := forall_mem_cons.mp h
    rw [fileinfoAppend, if_neg hp, ih hrecords]
    rfl

theorem fileinfoAppend_of_known (hunique : (records.map (·.timestep)).Nodup)
    (hvars : ∀ r ∈ records, r.timestep = fp.timestep → r.varinfo ≠ [])
    (h : ∃ r ∈ records, r.timestep = fp.timestep) : fileinfoAppend records fp =
      .ok (records.map fun r => if r.timestep = fp.timestep then r.merge fp else r) := by
  induction records with
  | nil =>
    obtain ⟨r, hr, -⟩ := h
    cases hr
  | cons p records ih =>
    obtain ⟨hp, hunique⟩ := nodup_cons.mp hunique
    obtain ⟨hpvars, hvars⟩ := forall_mem_cons.mp hvars
    rw [fileinfoAppend, map_cons]
    by_cases heq : p.timestep = fp.timestep
    · -- no other record is of this step
      have hrest : (records.map fun r => if r.timestep = fp.timestep then r.merge fp else r) =
          records := by
        calc _ = records.map id := map_congr_left fun r hr =>
              if_neg fun hr' => hp (mem_map.mpr ⟨r, hr, hr'.trans heq.symm⟩)
          _ = records := map_id _
      rw [if_pos heq, if_neg (hpvars heq), if_pos heq, hrest]
      rfl
    · have hrest : ∃ r ∈ records, r.timestep = fp.timestep := by
        obtain ⟨r, hr, hrfp⟩ := h
        cases hr with
        | head => exact absurd hrfp heq
        | tail _ hr => exact ⟨r, hr, hrfp⟩
      rw [if_neg heq, if_neg heq, ih hunique hvars hrest]
      rfl

/-! ## Messages under way -/

def Ready (steps : List Int) : (Int → Prop) → List Message → Prop
  | _, [] => True
  | S, m :: queue => (m.timestep ∈ steps ∧ ∀ t ∈ steps, t < m.timestep → S t) ∧
      Ready steps (fun t => S t ∨ t = m.timestep) queue

variable {steps : List Int} {S S' : Int → Prop} {queue : List Message}

theorem Ready.mono (h : Ready steps S queue) (hS : ∀ t, S t → S' t) : Ready steps S' queue := by
  induction queue generalizing S S' with
  | nil => trivial
  | cons m queue ih =>
    obtain ⟨⟨hmem, hbefore⟩, hqueue⟩ := h
    exact ⟨⟨hmem, fun t ht hlt => hS t (hbefore t ht hlt)⟩, ih hqueue fun t ht =>
      ht.imp_left (hS t)⟩

theorem Ready.append_seen {t : Int} {block : List Message} (hblock : ∀ m ∈ block, m.timestep = t)
    (ht : t ∈ steps) (hbefore : ∀ t' ∈ steps, t' < t → S t') (hS : S t)
    (h : Ready steps S queue) : Ready steps S (block ++ queue) := by
  induction block generalizing S with
  | nil => exact h
  | cons m block ih =>
    obtain ⟨rfl, hblock⟩ := forall_mem_cons.mp hblock
    exact ⟨⟨ht, hbefore⟩, ih hblock (fun t' ht' hlt => .inl (hbefore t' ht' hlt)) (.inl hS)
      (h.mono fun _ => .inl)⟩

theorem Ready.append {t : Int} {block : List Message} (hblock : ∀ m ∈ block, m.timestep = t)
    (hne : block ≠ []) (ht : t ∈ steps) (hbefore : ∀ t' ∈ steps, t' < t → S t')
    (h : Ready steps (fun t' => S t' ∨ t' = t) queue) : Ready steps S (block ++ queue) := by
  cases block with
  | nil => exact absurd rfl hne
  | cons m block =>
    obtain ⟨rfl, hblock⟩ := forall_mem_cons.mp hblock
    exact ⟨⟨ht, hbefore⟩, h.append_seen hblock ht (fun t' ht' hlt => .inl (hbefore t' ht' hlt))
      (.inr rfl)⟩

def ofStep (t : Int) (ms : List Message) : List Message := ms.filter fun m => m.timestep = t

theorem ofStep_append (t : Int) (ms ms' : List Message) :
    ofStep t (ms ++ ms') = ofStep t ms ++ ofStep t ms' := filter_append _ _

theorem length_ofStep_set {pending : List (List Message)} {writer : Nat} {m : Message}
    (h : pending[writer]? = some (m :: queue)) (t : Int) :
    (ofStep t [m]).length + (ofStep t (pending.set writer queue).flatten).length =
      (ofStep t pending.flatten).length := by
  induction pending generalizing writer with
  | nil => cases h
  | cons q pending ih =>
    cases writer with
    | zero =>
      obtain rfl : q = m :: queue := Option.some.inj h
      rw [set_cons_zero, flatten_cons, flatten_cons, ofStep_append, ofStep_append, length_append,
        length_append, ← Nat.add_assoc, ← length_append, ← ofStep_append]
      rfl
    | succ writer =>
      have hrest := ih h
      rw [set_cons_succ, flatten_cons, flatten_cons, ofStep_append, ofStep_append,
        length_append, length_append]
      omega

/-! ## What the writers send -/

namespace Writers

variable {w : Writers}

def blockOf (w : Writers) (f : Int → List (List Varinfo)) (t : Int) : List Message :=
  (f t).map fun varinfo => ⟨t, w.nchunks t, varinfo⟩

variable {f : Int → List (List Varinfo)} {t : Int}

theorem timestep_of_mem_blockOf {m : Message} (h : m ∈ w.blockOf f t) :
    m.timestep = t ∧ m.nchunks = w.nchunks t := by
  obtain ⟨varinfo, -, rfl⟩ := mem_map.mp h
  exact ⟨rfl, rfl⟩

theorem nodup_steps (w : Writers) : w.steps.Nodup := w.increasing.imp Int.ne_of_lt

theorem ready_flatMap {done rest : List Int} (hsplit : w.steps = done ++ rest)
    (hsends : ∀ t ∈ w.steps, f t ≠ []) {S : Int → Prop} (hdone : ∀ t ∈ done, S t) :
    Ready w.steps S (rest.flatMap (w.blockOf f)) := by
  induction rest generalizing done S with
  | nil => trivial
  | cons t rest ih =>
    have ht : t ∈ w.steps := hsplit ▸ mem_append_right _ mem_cons_self
    have hne : w.blockOf f t ≠ [] := fun hnil => hsends t ht (map_eq_nil_iff.mp hnil)
    refine Ready.append (fun m hm => (timestep_of_mem_blockOf hm).1) hne ht ?_ ?_
    · intro t' ht' hlt
      rw [hsplit] at ht'
      cases mem_append.mp ht' with
      | inl hmem => exact hdone t' hmem
      | inr hmem =>
        have hsorted := w.increasing
        rw [hsplit] at hsorted
        have hrest := (pairwise_append.mp hsorted).2.1
        cases hmem with
        | head => exact absurd hlt (Int.lt_irrefl t)
        | tail _ hmem =>
          have hgt := rel_of_pairwise_cons hrest hmem
          omega
    · refine @ih (done ++ [t]) (by rw [hsplit, append_assoc]; rfl) _ fun t' ht' => ?_
      cases mem_append.mp ht' with
      | inl hmem => exact .inl (hdone t' hmem)
      | inr hmem => exact .inr (mem_singleton.mp hmem)

theorem ofStep_flatMap {ts : List Int} (hnodup : ts.Nodup) (ht : t ∈ ts) :
    ofStep t (ts.flatMap (w.blockOf f)) = w.blockOf f t := by
  have hsame : ofStep t (w.blockOf f t) = w.blockOf f t :=
    filter_eq_self.mpr fun m hm => decide_eq_true (timestep_of_mem_blockOf hm).1
  have hother : ∀ t', t' ≠ t → ofStep t (w.blockOf f t') = [] := fun t' hne =>
    filter_eq_nil_iff.mpr fun m hm heq =>
      hne ((timestep_of_mem_blockOf hm).1.symm.trans (of_decide_eq_true heq))
  have hnone : ∀ ts : List Int, t ∉ ts → ofStep t (ts.flatMap (w.blockOf f)) = [] := fun ts => by
    induction ts with
    | nil => exact fun _ => rfl
    | cons t' ts ih =>
      intro hnot
      rw [mem_cons, not_or] at hnot
      rw [flatMap_cons, ofStep_append, hother t' (Ne.symm hnot.1), ih hnot.2, append_nil]
  induction ts with
  | nil => cases ht
  | cons t' ts ih =>
    obtain ⟨hnot, hnodup⟩ := nodup_cons.mp hnodup
    rw [flatMap_cons, ofStep_append]
    cases ht with
    | head => rw [hsame, hnone ts hnot, append_nil]
    | tail _ ht =>
      have hne : t' ≠ t := fun heq => hnot (heq ▸ ht)
      rw [hother t' hne, nil_append, ih hnodup ht]

theorem length_ofStep_initial (ht : t ∈ w.steps) :
    (ofStep t w.initial.pending.flatten).length = w.nchunks t := by
  show (ofStep t (w.messages.map w.stream).flatten).length =
    (w.messages.map fun f => (f t).length).sum
  induction w.messages with
  | nil => rfl
  | cons f messages ih =>
    have hstream : ofStep t (w.stream f) = w.blockOf f t := ofStep_flatMap w.nodup_steps ht
    rw [map_cons, flatten_cons, ofStep_append, length_append, ih, hstream, blockOf,
      length_map, map_cons, sum_cons]

end Writers

/-! ## The invariant -/

structure System.Inv (w : Writers) (s : System) : Prop where
  alive : s.fault = none
  queues : ∀ q ∈ s.pending, Ready w.steps (fun t => t ∈ s.left ++ s.records.map (·.timestep)) q ∧
    ∀ m ∈ q, m.nchunks = w.nchunks m.timestep
  count : ∀ t ∈ w.steps, (s.arrivedOf t).length + (ofStep t s.pending.flatten).length = w.nchunks t
  first : s.left ++ s.records.map (·.timestep) <+: w.steps
  seen : ∀ m ∈ s.arrived, m.timestep ∈ s.left ++ s.records.map (·.timestep)
  record : ∀ r ∈ s.records, r.nchunks = w.nchunks r.timestep ∧
    r.mergeCount = (s.arrivedOf r.timestep).length ∧
    r.varinfo = (s.arrivedOf r.timestep).flatMap (·.varinfo)
  left : ∀ t ∈ s.left, (s.arrivedOf t).length = w.nchunks t
  reading : s.phase = .reading → s.merged = true

namespace System

variable {w : Writers} {s s' : System} {m : Message} {writer : Nat}

theorem arrivedOf_append (s : System) (m : Message) (t : Int) :
    ofStep t (s.arrived ++ [m]) = s.arrivedOf t ++ ofStep t [m] := ofStep_append _ _ _

theorem ofStep_singleton_self (m : Message) : ofStep m.timestep [m] = [m] :=
  filter_eq_self.mpr fun m' hm' => by
    rw [mem_singleton.mp hm']
    exact decide_eq_true rfl

theorem ofStep_singleton_of_ne {t : Int} (h : m.timestep ≠ t) : ofStep t [m] = [] :=
  filter_eq_nil_iff.mpr fun m' hm' heq => by
    rw [mem_singleton.mp hm'] at heq
    exact h (of_decide_eq_true heq)

theorem arrivedOf_append_self (s : System) (m : Message) :
    ofStep m.timestep (s.arrived ++ [m]) = s.arrivedOf m.timestep ++ [m] := by
  rw [arrivedOf_append, ofStep_singleton_self]

theorem arrivedOf_append_of_ne (s : System) {t : Int} (h : m.timestep ≠ t) :
    ofStep t (s.arrived ++ [m]) = s.arrivedOf t := by
  rw [arrivedOf_append, ofStep_singleton_of_ne h, append_nil]

section

variable (h : s.Inv w) (hpending : s.pending[writer]? = some (m :: queue))

include h hpending

theorem Inv.not_complete :
    (s.arrivedOf m.timestep).length < w.nchunks m.timestep := by
  have hqueue := (h.queues _ (mem_of_getElem? hpending)).1
  have hcount := h.count m.timestep hqueue.1.1
  have hset := length_ofStep_set hpending m.timestep
  rw [ofStep_singleton_self, length_singleton] at hset
  omega

theorem Inv.not_left :
    m.timestep ∉ s.left := fun hmem => by
  have hleft := h.left _ hmem
  have hlt := h.not_complete hpending
  omega

theorem Inv.queues_arrive
    {seen : List Int} (hsub : ∀ t ∈ s.left ++ s.records.map (·.timestep), t ∈ seen)
    (hmem : m.timestep ∈ seen) : ∀ q ∈ s.pending.set writer queue,
      Ready w.steps (fun t => t ∈ seen) q ∧ ∀ m ∈ q, m.nchunks = w.nchunks m.timestep := by
  intro q hq
  cases mem_or_eq_of_mem_set hq with
  | inl hq =>
    obtain ⟨hready, hnchunks⟩ := h.queues q hq
    exact ⟨hready.mono hsub, hnchunks⟩
  | inr heq =>
    obtain ⟨hready, hnchunks⟩ := h.queues _ (mem_of_getElem? hpending)
    rw [heq]
    refine ⟨hready.2.mono fun t ht => ?_, fun m' hm' => hnchunks m' (mem_cons_of_mem _ hm')⟩
    cases ht with
    | inl ht => exact hsub t ht
    | inr ht => exact ht ▸ hmem

end

theorem Inv.seen_arrive (h : s.Inv w) {seen : List Int}
    (hsub : ∀ t ∈ s.left ++ s.records.map (·.timestep), t ∈ seen) (hmem : m.timestep ∈ seen) :
    ∀ m' ∈ s.arrived ++ [m], m'.timestep ∈ seen := by
  intro m' hm'
  cases mem_append.mp hm' with
  | inl hm' => exact hsub _ (h.seen m' hm')
  | inr hm' => exact mem_singleton.mp hm' ▸ hmem

section

variable (h : s.Inv w) (hpending : s.pending[writer]? = some (m :: queue))

include h hpending

theorem Inv.left_arrive :
    ∀ t ∈ s.left, (ofStep t (s.arrived ++ [m])).length = w.nchunks t := by
  intro t ht
  have hne : m.timestep ≠ t := fun heq => h.not_left hpending (heq ▸ ht)
  rw [arrivedOf_append_of_ne s hne]
  exact h.left t ht

theorem Inv.count_arrive :
    ∀ t ∈ w.steps, (ofStep t (s.arrived ++ [m])).length +
      (ofStep t (s.pending.set writer queue).flatten).length = w.nchunks t := by
  intro t ht
  have hcount := h.count t ht
  have hset := length_ofStep_set hpending t
  rw [arrivedOf_append, length_append]
  omega

theorem Inv.first_arrive (hnew : m.timestep ∉ s.left ++ s.records.map (·.timestep)) :
    (s.left ++ s.records.map (·.timestep)) ++ [m.timestep] <+: w.steps := by
  obtain ⟨rest, hrest⟩ := h.first
  obtain ⟨hmem, hbefore⟩ := (h.queues _ (mem_of_getElem? hpending)).1.1
  have hsorted := w.increasing
  have hnodup := w.nodup_steps
  rw [← hrest] at hmem hsorted hnodup
  have htail := (mem_append.mp hmem).resolve_left hnew
  cases rest with
  | nil => cases htail
  | cons t rest =>
    have ht : t = m.timestep := by
      cases htail with
      | head => rfl
      | tail _ htail =>
        -- the steps before have been seen, and `t` has not
        have hlt := rel_of_pairwise_cons (pairwise_append.mp hsorted).2.1 htail
        have hseen := hbefore t (hrest ▸ mem_append_right _ mem_cons_self) hlt
        exact absurd rfl ((nodup_append.mp hnodup).2.2 t hseen t mem_cons_self)
    refine ⟨rest, ?_⟩
    rw [← hrest, ht, append_assoc]
    rfl

theorem Inv.handle_known (hknown : ∃ r ∈ s.records, r.timestep = m.timestep)
    (hvars : ∀ r ∈ s.records, r.timestep = m.timestep → r.varinfo ≠ []) :
    (handle { s with pending := s.pending.set writer queue } m).Inv w := by
  have hlt := h.not_complete hpending
  have hnodup : (s.records.map (·.timestep)).Nodup :=
    (nodup_append.mp (h.first.sublist.nodup w.nodup_steps)).2.1
  have happend : fileinfoAppend s.records m.record =
      .ok (s.records.map fun r => if r.timestep = m.timestep then r.merge m.record else r) :=
    fileinfoAppend_of_known hnodup hvars hknown
  have hsteps : (s.records.map fun r => if r.timestep = m.timestep then r.merge m.record else r).map
      (·.timestep) = s.records.map (·.timestep) := by
    rw [map_map]
    refine map_congr_left fun r _ => ?_
    show (if r.timestep = m.timestep then r.merge m.record else r).timestep = r.timestep
    split_ifs <;> rfl
  have hmem : m.timestep ∈ s.left ++ s.records.map (·.timestep) := by
    obtain ⟨r, hr, heq⟩ := hknown
    exact mem_append_right _ (mem_map.mpr ⟨r, hr, heq⟩)
  unfold handle
  dsimp only
  rw [happend]
  refine ⟨h.alive, ?_, h.count_arrive hpending, ?_, ?_, ?_, ?_, ?_⟩
  · show ∀ q ∈ s.pending.set writer queue, Ready w.steps (fun t => t ∈ s.left ++ List.map _ _) q ∧ _
    rw [hsteps]
    exact h.queues_arrive hpending (fun _ ht => ht) hmem
  · show s.left ++ List.map _ _ <+: w.steps
    rw [hsteps]
    exact h.first
  · show ∀ m' ∈ s.arrived ++ [m], m'.timestep ∈ s.left ++ List.map _ _
    rw [hsteps]
    exact h.seen_arrive (fun _ ht => ht) hmem
  · intro r' hr'
    obtain ⟨r, hr, rfl⟩ := mem_map.mp hr'
    obtain ⟨hnchunks, hcount, hvarinfo⟩ := h.record r hr
    show _ ∧ _ = (ofStep _ (s.arrived ++ [m])).length ∧ _ = (ofStep _ (s.arrived ++ [m])).flatMap _
    by_cases heq : r.timestep = m.timestep
    · rw [if_pos heq]
      have harrived : ofStep r.timestep (s.arrived ++ [m]) = s.arrivedOf r.timestep ++ [m] := by
        rw [heq]
        exact arrivedOf_append_self s m
      refine ⟨hnchunks, ?_, ?_⟩
      · show r.mergeCount + 1 = (ofStep r.timestep (s.arrived ++ [m])).length
        rw [harrived, length_append, hcount]
        rfl
      · show r.varinfo ++ m.varinfo = (ofStep r.timestep (s.arrived ++ [m])).flatMap _
        rw [harrived, flatMap_append, hvarinfo, flatMap_singleton]
    · rw [if_neg heq, arrivedOf_append_of_ne s (Ne.symm heq)]
      exact ⟨hnchunks, hcount, hvarinfo⟩
  · exact h.left_arrive hpending
  · intro hreading
    have hmerged := h.reading hreading
    unfold merged at hmerged ⊢
    cases hrecords : s.records with
    | nil =>
      rw [hrecords] at hmerged
      cases hmerged
    | cons r records =>
      rw [hrecords] at hmerged
      have hr : r ∈ s.records := hrecords ▸ mem_cons_self
      obtain ⟨hnchunks, hcount, -⟩ := h.record r hr
      have hfull : r.mergeCount = r.nchunks := of_decide_eq_true hmerged
      have hne : r.timestep ≠ m.timestep := fun heq => by
        rw [heq] at hnchunks hcount
        omega
      show decide ((if r.timestep = m.timestep then r.merge m.record else r).mergeCount =
        (if r.timestep = m.timestep then r.merge m.record else r).nchunks) = true
      rw [if_neg hne]
      exact hmerged

theorem Inv.handle_new (hnew : m.timestep ∉ s.left ++ s.records.map (·.timestep)) :
    (handle { s with pending := s.pending.set writer queue } m).Inv w := by
  have hnotRecord : ∀ r ∈ s.records, r.timestep ≠ m.timestep := fun r hr heq =>
    hnew (mem_append_right _ (mem_map.mpr ⟨r, hr, heq⟩))
  have happend : fileinfoAppend s.records m.record = .ok (s.records ++ [m.record]) :=
    fileinfoAppend_of_new hnotRecord
  have hsteps : s.left ++ (s.records ++ [m.record]).map (·.timestep) =
      (s.left ++ s.records.map (·.timestep)) ++ [m.timestep] := by
    rw [map_append, append_assoc]
    rfl
  have hnone : s.arrivedOf m.timestep = [] := filter_eq_nil_iff.mpr fun m' hm' heq =>
    hnew (of_decide_eq_true heq ▸ h.seen m' hm')
  unfold handle
  dsimp only
  rw [happend]
  refine ⟨h.alive, ?_, h.count_arrive hpending, ?_, ?_, ?_, ?_, ?_⟩
  · show ∀ q ∈ s.pending.set writer queue, Ready w.steps (fun t => t ∈ s.left ++ List.map _ _) q ∧ _
    rw [hsteps]
    exact h.queues_arrive hpending (fun _ ht => mem_append_left _ ht)
      (mem_append_right _ (mem_singleton.mpr rfl))
  · show s.left ++ List.map _ _ <+: w.steps
    rw [hsteps]
    exact h.first_arrive hpending hnew
  · show ∀ m' ∈ s.arrived ++ [m], m'.timestep ∈ s.left ++ List.map _ _
    rw [hsteps]
    exact h.seen_arrive (fun _ ht => mem_append_left _ ht)
      (mem_append_right _ (mem_singleton.mpr rfl))
  · intro r hr
    show _ ∧ _ = (ofStep _ (s.arrived ++ [m])).length ∧ _ = (ofStep _ (s.arrived ++ [m])).flatMap _
    cases mem_append.mp hr with
    | inl hr =>
      rw [arrivedOf_append_of_ne s (Ne.symm (hnotRecord r hr))]
      exact h.record r hr
    | inr hr =>
      have harrived : ofStep m.timestep (s.arrived ++ [m]) = [m] := by
        rw [arrivedOf_append_self, hnone, nil_append]
      obtain rfl := mem_singleton.mp hr
      have hnchunks := (h.queues _ (mem_of_getElem? hpending)).2 m mem_cons_self
      refine ⟨hnchunks, ?_, ?_⟩
      · show 1 = (ofStep m.timestep (s.arrived ++ [m])).length
        rw [harrived, length_singleton]
      · show m.varinfo = (ofStep m.timestep (s.arrived ++ [m])).flatMap _
        rw [harrived, flatMap_singleton]
  · exact h.left_arrive hpending
  · intro hreading
    have hmerged := h.reading hreading
    unfold merged at hmerged ⊢
    cases hrecords : s.records with
    | nil =>
      rw [hrecords] at hmerged
      cases hmerged
    | cons r records =>
      rw [hrecords] at hmerged
      exact hmerged

end

theorem Inv.stay (h : s.Inv w) {phase : Phase} (hreading : phase = .reading → s.merged = true) :
    System.Inv w { s with phase } :=
  ⟨h.alive, h.queues, h.count, h.first, h.seen, h.record, h.left, hreading⟩

theorem Inv.leave (h : s.Inv w) {fp : Record} {records : List Record}
    (hrecords : s.records = fp :: records) (hmerged : s.merged = true) :
    System.Inv w { s with records, left := s.left ++ [fp.timestep], phase := .freeing } := by
  have hfp : fp ∈ s.records := hrecords ▸ mem_cons_self
  have hsteps : s.left ++ [fp.timestep] ++ records.map (·.timestep) =
      s.left ++ s.records.map (·.timestep) := by
    rw [hrecords, append_assoc]
    rfl
  have hfull : (s.arrivedOf fp.timestep).length = w.nchunks fp.timestep := by
    obtain ⟨hnchunks, hcount, -⟩ := h.record fp hfp
    unfold merged at hmerged
    rw [hrecords] at hmerged
    have heq : fp.mergeCount = fp.nchunks := of_decide_eq_true hmerged
    rw [← hcount, heq, hnchunks]
  refine ⟨h.alive, ?_, h.count, ?_, ?_, ?_, ?_, fun hreading => by cases hreading⟩
  · show ∀ q ∈ s.pending, Ready w.steps (fun t => t ∈ s.left ++ [fp.timestep] ++ List.map _ _) q ∧ _
    rw [hsteps]
    exact h.queues
  · show s.left ++ [fp.timestep] ++ List.map _ _ <+: w.steps
    rw [hsteps]
    exact h.first
  · show ∀ m' ∈ s.arrived, m'.timestep ∈ s.left ++ [fp.timestep] ++ List.map _ _
    rw [hsteps]
    exact h.seen
  · exact fun r hr => h.record r (hrecords ▸ mem_cons_of_mem _ hr)
  · intro t ht
    cases mem_append.mp ht with
    | inl ht => exact h.left t ht
    | inr ht => exact mem_singleton.mp ht ▸ hfull

theorem Inv.go (h : s.Inv w) {expired : Bool} (hmeets : s.Meets (.go expired))
    (hgo : s.go expired = some s') : s'.Inv w := by
  unfold System.go at hgo
  cases hphase : s.phase with
  | closed | ready =>
    rw [hphase] at hgo
    cases hgo
  | opening =>
    rw [hphase] at hgo
    cases hgo
    exact h.stay fun hreading => by split_ifs at hreading
  | advancing =>
    rw [hphase] at hgo
    dsimp only at hgo
    split at hgo
    · cases hgo
      exact h.stay fun hreading => by cases hreading
    · cases hgo
      exact h.stay fun hreading => by split_ifs at hreading
  | moving =>
    rw [hphase] at hgo
    dsimp only at hgo
    split at hgo
    · cases hgo
      exact h.leave (by assumption) (hmeets hphase)
    · cases hgo
  | freeing | reading =>
    rw [hphase] at hgo
    cases hgo
    exact h.stay fun hreading => by cases hreading
  | waiting =>
    rw [hphase] at hgo
    cases hgo
    refine h.stay fun hreading => ?_
    by_cases hmerged : s.merged = true
    · exact hmerged
    · rw [if_neg hmerged] at hreading
      cases hreading

theorem Inv.step {e : Event} (h : s.Inv w) (hmeets : s.Meets e) (hstep : s.step e = some s') :
    s'.Inv w := by
  unfold System.step at hstep
  rw [if_neg fun hfault => hfault h.alive] at hstep
  cases e with
  | arrive writer =>
    dsimp only at hstep
    split at hstep
    · rename_i m queue hpending
      cases hstep
      by_cases hknown : ∃ r ∈ s.records, r.timestep = m.timestep
      · exact h.handle_known hpending hknown (hmeets m queue hpending)
      · refine h.handle_new hpending fun hmem => ?_
        cases mem_append.mp hmem with
        | inl hleft => exact h.not_left hpending hleft
        | inr hrecord => exact hknown (mem_map.mp hrecord)
    · cases hstep
  | openFile =>
    dsimp only at hstep
    split_ifs at hstep
    cases hstep
    exact h.stay fun hreading => by cases hreading
  | advanceStep =>
    dsimp only at hstep
    split_ifs at hstep
    cases hstep
    exact h.stay fun hreading => by cases hreading
  | scheduleRead varname =>
    dsimp only at hstep
    split_ifs at hstep
    all_goals
      cases hstep
      exact h.stay fun hreading => by cases hreading
  | go expired => exact h.go hmeets hstep

theorem inv_initial (hsteady : w.Steady) : w.initial.Inv w where
  alive := rfl
  queues := by
    intro q hq
    obtain ⟨f, hf, rfl⟩ := mem_map.mp hq
    have hready : Ready w.steps (fun t => t ∈ []) (w.steps.flatMap (w.blockOf f)) :=
      Writers.ready_flatMap (nil_append _).symm (hsteady f hf) fun _ ht => ht
    refine ⟨hready, fun m hm => ?_⟩
    obtain ⟨t, -, hm⟩ := mem_flatMap.mp hm
    obtain ⟨rfl, hnchunks⟩ := Writers.timestep_of_mem_blockOf hm
    exact hnchunks
  count := by
    intro t ht
    show 0 + _ = _
    rw [Nat.zero_add]
    exact Writers.length_ofStep_initial ht
  first := nil_prefix
  seen := fun m hm => by cases hm
  record := fun r hr => by cases hr
  left := fun t ht => by cases ht
  reading := fun h => by cases h

theorem Inv.right (h : s.Inv w) : s.Right w where
  alive := h.alive
  visited := by
    refine List.IsPrefix.trans ?_ h.first
    unfold System.visited
    split_ifs
    · exact prefix_append _ _
    · exact (prefix_append_right_inj _).mpr ((List.take_prefix 1 _).map _)
  unique := h.first.sublist.nodup w.nodup_steps
  record := h.record
  kept := fun m hm => by
    cases mem_append.mp (h.seen m hm) with
    | inl hleft => exact .inr hleft
    | inr hrecord => exact .inl (mem_map.mp hrecord)
  left := h.left
  reading := fun hreading => by
    have hmerged := h.reading hreading
    unfold merged at hmerged
    cases hrecords : s.records with
    | nil =>
      rw [hrecords] at hmerged
      cases hmerged
    | cons r records =>
      rw [hrecords] at hmerged
      obtain ⟨hnchunks, hcount, -⟩ := h.record r (hrecords ▸ mem_cons_self)
      have heq : r.mergeCount = r.nchunks := of_decide_eq_true hmerged
      exact ⟨r, records, rfl, by rw [← hcount, heq, hnchunks]⟩

end System

/-! ## Every run -/

/-- A state of a run whose steps meet the condition, with writers that send something in each
step. -/
structure Reached where
  writers : Writers
  steady : writers.Steady
  system : System
  run : Guarded System.step System.Meets writers.initial system

/-- The steps are complete, in order and unique. -/
theorem Reached.stepsComplete (s : Reached) : s.system.Right s.writers :=
  System.Inv.right (s.run.invariant (System.inv_initial s.steady)
    fun _ _ _ h hmeets hstep => h.step hmeets hstep)

def twoWriters : Writers where
  steps := [0, 1, 2]
  messages := [fun _ => [[⟨[118], [1]⟩]], fun _ => [[⟨[118], [2]⟩]]]
  increasing := by decide

/-- The second writer's message of step 1 is late: the reader has gone on to step 2, and then it is
at step 1 again. -/
theorem not_right_lateWriter :
    ∃ s, Guarded System.step (fun _ _ => True) twoWriters.initial s ∧ ¬s.Right twoWriters := by
  refine ⟨_, @Guarded.of_runAll _ _ _ _ _ _ .refl [.arrive 0, .arrive 1, .openFile, .go false,
    .arrive 0, .advanceStep, .go false, .go false, .go false,
    .arrive 0, .advanceStep, .go false, .go false, .go false,
    .arrive 1, .advanceStep, .go false, .go false, .go false] rfl, fun h => ?_⟩
  -- the reader has been at `[0, 1, 2, 1]`
  exact absurd h.visited (by decide)

end Adios.Icee
