import Adios.Index.Parse

/-!
# Adios — what the decoder can return

Whatever is in the buffer, a characteristics set that `adios_parse_vars_index_v1` or
`adios_parse_attributes_index_v1` returns has some properties (`ReadBack`): the minimum of a
histogram is what the fresh memory held, a transform has at most 85 dimensions, a value is
shorter than its 16-bit length field allows. Each is kept by every item, so it holds of the
whole list.
-/

namespace Adios

open Wire Wire.Parser

structure ReadBack (env : ReadEnv) (c : IndexCharacteristic) : Prop where
  hist : ∀ stats ∈ c.stats.getD [], ∀ h, some (StatData.hist h) ∈ stats → h.min = env.histMin
  transform : 3 * c.transform.preTransformDimensions.count.toNat ≤ 255
  value : ∀ v ∈ c.value, v.length < 2 ^ 16

variable (env : ReadEnv)

theorem readBack_zero : ReadBack env .zero :=
  ⟨by simp [IndexCharacteristic.zero], by simp [IndexCharacteristic.zero, Transform.zero],
    by simp [IndexCharacteristic.zero]⟩

/-! ## The parts of a set -/

theorem length_take_eq {e : Fault} {n : Nat} :
    Yields (take e n) fun bs => bs.length = n := by
  intro inp bs rest h
  unfold take at h
  split at h
  · cases h
    rw [List.length_take]
    omega
  · cases h

theorem length_swapPtr_lt (host : Endian) {data : List UInt8} (n : Nat)
    (h : data.length < 2 ^ 16) : (swapPtr host data n).length < 2 ^ 16 := by
  unfold swapPtr swap16Ptr swap32Ptr swap128Ptr swap64Ptr
  split_ifs
  · simp
  · simp
  · simp
  · simp
  · exact h

variable (type : Datatype)

theorem yields_parseValue :
    Yields (parseValue env type) fun v => ∀ bs ∈ v, bs.length < 2 ^ 16 := by
  unfold parseValue
  refine Yields.bind' fun dataSize => ?_
  have htake : ∀ f : List UInt8 → List UInt8,
      (∀ bs, bs.length < 2 ^ 16 → (f bs).length < 2 ^ 16) →
      Yields (take Fault.outOfBounds dataSize.toNat >>= fun bs => pure (some (f bs)))
        fun v => ∀ bs ∈ v, bs.length < 2 ^ 16 := by
    intro f hf
    refine length_take_eq.bind fun bs hbs => Yields.pure ?_
    rintro _ ⟨⟩
    exact hf bs (by rw [hbs]; exact dataSize.toNat_lt)
  cases type <;> first
    | exact Yields.pure (by simp)
    | exact htake id fun _ h => h
    | refine htake _ fun bs h => ?_
      split_ifs
      · exact length_swapPtr_lt _ _ h
      · exact h

theorem yields_parseStat (k : Nat) :
    Yields (parseStat env type k) fun s => ∀ h, s = .hist h → h.min = env.histMin := by
  unfold parseStat
  refine Yields.ite (fun _ => ?_) fun _ => ?_
  · unfold parseHist
    refine Yields.bind' fun _ => Yields.bind' fun _ => Yields.bind' fun _ => Yields.bind' fun _ =>
      Yields.bind' fun _ => Yields.bind' fun _ => Yields.bind' fun _ => Yields.bind' fun _ =>
      Yields.pure ?_
    rintro _ ⟨⟩
    rfl
  · split
    · exact Yields.fail _
    · exact Yields.bind' fun _ => Yields.pure (by rintro _ ⟨⟩)

theorem yields_parseStats (bits : List Nat) :
    Yields (parseStats env type bits) fun stats => ∀ h, .hist h ∈ stats → h.min = env.histMin := by
  induction bits with
  | nil => exact Yields.pure (by simp)
  | cons k bits ih =>
    refine (yields_parseStat env type k).bind fun s hs => ih.bind fun stats hstats =>
      Yields.pure ?_
    intro h hmem
    rcases List.mem_cons.mp hmem with heq | hmem
    · exact hs h heq.symm
    · exact hstats h hmem

theorem yields_parseStatSets (bitmap : UInt32) :
    Yields (parseStatSets env type bitmap) fun sets =>
      ∀ stats ∈ sets, ∀ h, some (StatData.hist h) ∈ stats → h.min = env.histMin := by
  unfold parseStatSets
  refine Yields.bind' fun _ => Yields.loop (fun sets hsets => ?_) _ (by simp)
  refine (yields_parseStats env type _).bind fun stats hstats => Yields.pure ?_
  intro stats' hmem h hh
  rcases List.mem_append.mp hmem with hmem | hmem
  · exact hsets stats' hmem h hh
  · rw [List.mem_singleton.mp hmem] at hh
    rcases List.mem_append.mp hh with hh | hh
    · exact hstats h (by simpa using hh)
    · simp at hh

theorem yields_deserializeTransformCharacteristic (t : Transform) :
    Yields (deserializeTransformCharacteristic env t) fun t =>
      3 * t.preTransformDimensions.count.toNat ≤ 255 := by
  unfold deserializeTransformCharacteristic
  refine Yields.bind' fun _ => Yields.bind' fun _ => Yields.bind' fun _ => Yields.bind' fun count =>
    Yields.bind' fun _ => Yields.bind' fun _ => Yields.require.bind fun _ hcount => ?_
  exact Yields.bind' fun _ => Yields.bind' fun _ => Yields.bind' fun _ => Yields.pure hcount

variable {c : IndexCharacteristic}

theorem readBack_setOldStat {env : ReadEnv} (k : Nat) (data : Option (List UInt8))
    (h : ReadBack env c) : ReadBack env (setOldStat c k data) where
  hist := by
    intro stats hstats hist hmem
    simp only [setOldStat, Option.getD_some] at hstats
    -- the old statistics are never histograms, and the other arrays are those of `c`
    have hold : ∀ stats ∈ c.stats.getD [[none, none]], ∀ h, some (StatData.hist h) ∈ stats →
        h.min = env.histMin := by
      intro stats hstats
      cases hc : c.stats with
      | none =>
        rw [hc] at hstats
        simp only [Option.getD_none, List.mem_singleton] at hstats
        subst hstats
        simp
      | some sets =>
        rw [hc] at hstats
        exact h.hist stats (by rw [hc]; exact hstats)
    cases hsets : c.stats.getD [[none, none]] with
    | nil => rw [hsets] at hstats; simp at hstats
    | cons first rest =>
      rw [hsets] at hstats hold
      rcases List.mem_cons.mp (by simpa using hstats) with rfl | hstats
      · rcases List.mem_or_eq_of_mem_set hmem with hmem | heq
        · exact hold first (by simp) hist hmem
        · cases data <;> cases heq
      · exact hold stats (by simp [hstats]) hist hmem
  transform := h.transform
  value := h.value

/-! ## Sets, entries and sections -/

theorem ReadBack.yields_keep {env : ReadEnv} (h : ReadBack env c) {α : Type} (p : Parser Fault α)
    (f : α → IndexCharacteristic)
    (hf : ∀ a, (f a).stats = c.stats ∧ (f a).transform = c.transform ∧ (f a).value = c.value) :
    Yields (p >>= fun a => pure (f a)) (ReadBack env) := by
  refine Yields.bind' fun a => Yields.pure ?_
  obtain ⟨hstats, htransform, hvalue⟩ := hf a
  exact ⟨by rw [hstats]; exact h.hist, by rw [htransform]; exact h.transform,
    by rw [hvalue]; exact h.value⟩

theorem readBack_parseVarItem (first : Option IndexCharacteristic) (h : ReadBack env c)
    (id : Option CharacteristicId) :
    Yields (parseVarItem env type first c id) (ReadBack env) := by
  cases id with
  | none => exact Yields.pure h
  | some id =>
    cases id with
    | value =>
      exact (yields_parseValue env type).bind fun v hv => Yields.pure ⟨h.hist, h.transform, hv⟩
    | min | max => exact Yields.bind' fun data => Yields.pure (readBack_setOldStat _ data h)
    | stat =>
      exact (yields_parseStatSets env _ _).bind fun sets hsets =>
        Yields.pure ⟨hsets, h.transform, h.value⟩
    | transformType =>
      exact (yields_deserializeTransformCharacteristic env _).bind fun t ht =>
        Yields.pure ⟨h.hist, ht, h.value⟩
    | varId => exact Yields.pure h
    | _ => exact h.yields_keep _ _ fun _ => ⟨rfl, rfl, rfl⟩

theorem readBack_parseAttrItem (h : ReadBack env c) (id : Option CharacteristicId) :
    Yields (parseAttrItem env type c id) (ReadBack env) := by
  cases id with
  | none => exact Yields.pure h
  | some id =>
    cases id with
    | value =>
      exact (yields_parseValue env type).bind fun v hv => Yields.pure ⟨h.hist, h.transform, hv⟩
    | transformType =>
      exact (yields_deserializeTransformCharacteristic env _).bind fun t ht =>
        Yields.pure ⟨h.hist, ht, h.value⟩
    | min | max | dimensions | stat => exact Yields.pure h
    | _ => exact h.yields_keep _ _ fun _ => ⟨rfl, rfl, rfl⟩

/-- **A section** yields at most as many entries as an `int` counts, and each of their sets is
as the items leave it. -/
theorem readBack_parseEntries {parseItem : Datatype → Option IndexCharacteristic →
      IndexCharacteristic → Option CharacteristicId → Parser Fault IndexCharacteristic}
    (h : ∀ type first c id, ReadBack env c → Yields (parseItem type first c id) (ReadBack env)) :
    Yields (parseEntries env parseItem) fun es =>
      es.length < 2 ^ 31 ∧ ∀ e ∈ es, ∀ c ∈ e.characteristics, ReadBack env c := by
  have hset : ∀ type first, Yields (parseSet env (parseItem type first)) (ReadBack env) := by
    intro type first
    unfold parseSet
    refine Yields.bind' fun count => Yields.bind' fun _ => Yields.loop (fun c hc => ?_) _
      (readBack_zero env)
    exact Yields.bind' fun flag => h _ _ _ _ hc
  have hentry : Yields (parseEntry env parseItem) fun e =>
      ∀ c ∈ e.characteristics, ReadBack env c := by
    unfold parseEntry
    refine Yields.bind' fun _ => Yields.bind' fun _ => Yields.bind' fun _ => Yields.bind' fun _ =>
      Yields.bind' fun _ => Yields.bind' fun flag => Yields.bind' fun count => ?_
    refine Yields.bind (Q := fun cs => ∀ c ∈ cs, ReadBack env c) (Yields.loop (fun cs hcs => ?_) _
      (by simp)) fun cs hcs => Yields.pure hcs
    refine (hset _ _).bind fun c hc => Yields.pure ?_
    intro c' hc'
    rcases List.mem_append.mp hc' with hc' | hc'
    · exact hcs c' hc'
    · rwa [List.mem_singleton.mp hc']
  unfold parseEntries
  refine Yields.bind' fun _ => Yields.bind' fun _ => Yields.bind' fun count => Yields.bind' fun _ =>
    Yields.require.bind fun _ hcount => ?_
  have hstep : ∀ (k : Nat) (es : List IndexEntry),
      (es.length = k ∧ ∀ e ∈ es, ∀ c ∈ e.characteristics, ReadBack env c) →
      Yields (parseEntry env parseItem >>= fun entry => pure (es ++ [entry])) fun es =>
        es.length = k + 1 ∧ ∀ e ∈ es, ∀ c ∈ e.characteristics, ReadBack env c := by
    rintro k es ⟨hlen, hes⟩
    refine hentry.bind fun e he => Yields.pure ⟨by simp [hlen], fun e' he' => ?_⟩
    rcases List.mem_append.mp he' with he' | he'
    · exact hes e' he'
    · rwa [List.mem_singleton.mp he']
  refine (Yields.loop_count hstep count.toNat 0 ⟨rfl, by simp⟩).mono fun es hes => ⟨?_, hes.2⟩
  rw [hes.1]
  omega

end Adios
