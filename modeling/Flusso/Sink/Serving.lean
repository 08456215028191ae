import Flusso.Sink.Frames

/-! # What an alias serves

However its calls and those of the sink's other indexes are interrupted and
retried, an index's alias stays on one existing generation, the seed marker names
the generation served, and after the first seed the alias moves only to generations
that were declared seeded. What breaks this is another index that goes by the name
of the alias.
-/

namespace Flusso

open Faulty Function

/-- After the first seed marker, the alias moved only to generations asked for before. -/
def AskedFirst (hashAlias : String) (log : List GenerationEvent) : Prop :=
  ∀ before index after, log = before ++ .moved hashAlias index :: after →
    ∀ g, .recorded hashAlias g true ∈ before → .asked index ∈ before

theorem AskedFirst.append {hashAlias : String} {log : List GenerationEvent}
    {event : GenerationEvent} (h : AskedFirst hashAlias log)
    (hevent : ∀ index, event = .moved hashAlias index →
      ∀ g, .recorded hashAlias g true ∈ log → .asked index ∈ log) :
    AskedFirst hashAlias (log ++ [event]) := by
  intro before index after heq
  rcases List.eq_nil_or_concat after with rfl | ⟨after, last, rfl⟩
  · obtain ⟨rfl, hlast⟩ := List.append_inj' heq rfl
    exact hevent index (List.cons.inj hlast).1
  · have heq : log ++ [event] = (before ++ .moved hashAlias index :: after) ++ [last] := by
      simpa using heq
    exact h before index after (List.append_inj' heq rfl).1

/-- The staged numbers were no existing generation's. -/
def Fresh (i : SinkIndex) (w : Cluster) : Prop :=
  ∀ n existing, .staged i.hashAlias n existing ∈ w.log → ∀ index ∈ existing,
    parseGeneration i.hashAlias index ≠ some n

theorem Fresh.logged {i : SinkIndex} {w w' : Cluster} {event : GenerationEvent} (h : Fresh i w)
    (hlog : w'.log = w.log ++ [event])
    (hevent : ∀ n existing, event = .staged i.hashAlias n existing → ∀ index ∈ existing,
      parseGeneration i.hashAlias index ≠ some n) : Fresh i w' := by
  intro n existing hmem
  rw [hlog] at hmem
  rcases List.mem_append.mp hmem with hmem | hmem
  · exact h n existing hmem
  · exact hevent n existing (List.mem_singleton.mp hmem).symm

/-- A number past what is listed of an alias is past all that exists of it. -/
theorem parseGeneration_ne_listed {hashAlias index : String} {existing : List String}
    (hroom : ¬Wrapped hashAlias existing) (h : index ∈ existing) :
    parseGeneration hashAlias index ≠ some (nextGeneration (existing.filter fun index =>
      (hashAlias.toList ++ ['_']).isPrefixOf index.toList) hashAlias) := by
  intro hparse
  obtain ⟨digits, hindex, -⟩ := toList_of_parseGeneration hparse
  refine parseGeneration_ne_nextGeneration (List.mem_filter.mpr ⟨h, ?_⟩) ?_ hparse
  · rw [List.isPrefixOf_iff_prefix]
    exact ⟨digits, by rw [hindex]; simp⟩
  · rintro ⟨⟨last, hlast, hparse⟩, first, hfirst, hparse'⟩
    exact hroom ⟨⟨last, List.mem_of_mem_filter hlast, hparse⟩, first,
      List.mem_of_mem_filter hfirst, hparse'⟩

/-- What every call keeps, wherever it stops. -/
structure Serving (i : SinkIndex) (w : Cluster) : Prop where
  single : (w.aliases i.hashAlias).length ≤ 1
  served : ∀ index ∈ w.aliases i.hashAlias,
    (∃ n, index = generationName i.hashAlias n) ∧ index ∈ w.indices
  active : ∀ g, w.metaDocs i.hashAlias = some (g, true) →
    w.aliases i.hashAlias = [generationName i.hashAlias g]
  current : ∀ g n, w.metaDocs i.hashAlias = some (g, true) →
    w.physical i.logical = some (generationName i.hashAlias n) → n = g
  kept : ∀ g, .recorded i.hashAlias g true ∈ w.log → w.aliases i.hashAlias ≠ []
  moves : AskedFirst i.hashAlias w.log

namespace Serving

variable {i : SinkIndex} {w : Cluster} {index : String} {n : UInt64}

theorem holders (h : Serving i w) : w.aliases i.hashAlias = [] ∨
    ∃ n, w.aliases i.hashAlias = [generationName i.hashAlias n] := by
  have hsingle := h.single
  rcases hholders : w.aliases i.hashAlias with _ | ⟨holder, rest⟩
  · exact .inl rfl
  · rw [hholders] at hsingle
    obtain ⟨⟨n, rfl⟩, -⟩ := h.served holder (hholders ▸ List.mem_cons_self)
    have hrest : rest = [] := List.eq_nil_of_length_eq_zero (by simpa using hsingle)
    exact .inr ⟨n, by rw [hrest]⟩

theorem mem_of_active {g : UInt64} (h : Serving i w)
    (hmeta : w.metaDocs i.hashAlias = some (g, true)) :
    generationName i.hashAlias g ∈ w.indices :=
  (h.served _ (h.active g hmeta ▸ List.mem_singleton_self _)).2

theorem note (h : Serving i w) (event : GenerationEvent)
    (hmoved : ∀ index, event ≠ .moved i.hashAlias index)
    (hrecorded : ∀ g, event ≠ .recorded i.hashAlias g true) : Serving i (w.note event) :=
  { h with
    kept := by
      intro g hmem
      rcases List.mem_append.mp hmem with hmem | hmem
      · exact h.kept g hmem
      · exact absurd (List.mem_singleton.mp hmem).symm (hrecorded g)
    moves := h.moves.append fun index heq => absurd heq (hmoved index) }

theorem announce (h : Serving i w)
    (hmeta : ∀ g, w.metaDocs i.hashAlias = some (g, true) → g = n) :
    Serving i (w.announce i.logical (generationName i.hashAlias n)) :=
  { h with
    current := by
      intro g m hg hp
      rw [Cluster.physical_announce_self, Option.some.injEq, generationName_inj] at hp
      rw [← hp, hmeta g hg] }

theorem announceOther {other logical : String} (h : Serving i w) (hother : other ≠ i.hashAlias)
    (n : UInt64) : Serving i (w.announce logical (generationName other n)) :=
  { h with
    current := by
      intro g m hg hp
      rw [Cluster.physical_announce, update_apply] at hp
      split at hp
      · -- a generation's name tells its alias
        have halias := congrArg hashAliasOf (Option.some.inj hp)
        rw [hashAliasOf_generationName, hashAliasOf_generationName] at halias
        exact absurd (Option.some.inj halias) hother
      · exact h.current g m hg hp }

theorem retract (h : Serving i w) (n : UInt64) : Serving i (w.putMeta i.hashAlias n false) :=
  { h.note (.recorded i.hashAlias n false) nofun nofun with
    active := fun g hmeta => by simp at hmeta
    current := fun g m hmeta => by simp at hmeta }

theorem record (h : Serving i w) (hserved : w.aliases i.hashAlias = [generationName i.hashAlias n])
    (hwritten : w.physical i.logical = some (generationName i.hashAlias n)) :
    Serving i (w.putMeta i.hashAlias n true) where
  single := h.single
  served := h.served
  active := by
    intro g hmeta
    rw [Cluster.metaDocs_putMeta_self, Option.some.injEq, Prod.mk.injEq] at hmeta
    rw [← hmeta.1]
    exact hserved
  current := by
    intro g m hmeta hp
    rw [Cluster.metaDocs_putMeta_self, Option.some.injEq, Prod.mk.injEq] at hmeta
    rw [Cluster.physical_putMeta, hwritten, Option.some.injEq, generationName_inj] at hp
    rw [← hmeta.1, hp]
  kept := by
    intro _ _
    rw [Cluster.aliases_putMeta, hserved]
    exact List.cons_ne_nil _ _
  moves := h.moves.append fun _ => nofun

theorem recordOther {other : String} (h : Serving i w) (hother : other ≠ i.hashAlias)
    (m : UInt64) (seeded : Bool) : Serving i (w.putMeta other m seeded) := by
  have hself : (w.putMeta other m seeded).metaDocs i.hashAlias = w.metaDocs i.hashAlias :=
    update_of_ne hother.symm _ _
  exact { h.note (.recorded other m seeded) nofun
      (fun g heq => hother (GenerationEvent.recorded.inj heq).1) with
    active := fun g hmeta => h.active g (hself ▸ hmeta)
    current := fun g m hmeta => h.current g m (hself ▸ hmeta) }

/-- The alias moves onto an existing generation; once a seed marker was written, onto one asked
for. -/
theorem move (h : Serving i w) (hindex : generationName i.hashAlias n ∈ w.indices)
    (hmeta : ∀ g, w.metaDocs i.hashAlias = some (g, true) → g = n)
    (hasked : ∀ g, .recorded i.hashAlias g true ∈ w.log →
      .asked (generationName i.hashAlias n) ∈ w.log) :
    Serving i (w.setAlias i.hashAlias (generationName i.hashAlias n)
      [generationName i.hashAlias n]) where
  single := by simp
  served := by
    intro index hmem
    rw [Cluster.aliases_setAlias_self, List.mem_singleton] at hmem
    exact ⟨⟨n, hmem⟩, hmem ▸ hindex⟩
  active := by
    intro g hg
    rw [Cluster.aliases_setAlias_self, hmeta g hg]
  current := h.current
  kept := by
    intro _ _
    rw [Cluster.aliases_setAlias_self]
    exact List.cons_ne_nil _ _
  moves := by
    apply h.moves.append
    rintro index heq g hg
    rw [← (GenerationEvent.moved.inj heq).2]
    exact hasked g hg

theorem moveOther {other : String} (h : Serving i w) (hother : other ≠ i.hashAlias)
    (index : String) (holders : List String) : Serving i (w.setAlias other index holders) := by
  have hself : (w.setAlias other index holders).aliases i.hashAlias = w.aliases i.hashAlias :=
    update_of_ne hother.symm _ _
  exact { h.note (.moved other index)
      (fun index heq => hother (GenerationEvent.moved.inj heq).1) nofun with
    single := by rw [hself]; exact h.single
    served := fun index hmem => h.served index (hself ▸ hmem)
    active := fun g hmeta => hself.trans (h.active g hmeta)
    kept := by
      intro g hmem
      rw [hself]
      rcases List.mem_append.mp hmem with hmem | hmem
      · exact h.kept g hmem
      · cases List.mem_singleton.mp hmem }

theorem delete {stale : String} (h : Serving i w) (hstale : stale ∉ w.aliases i.hashAlias) :
    Serving i (w.drop stale) := by
  have hself : (w.drop stale).aliases i.hashAlias = w.aliases i.hashAlias :=
    List.filter_eq_self.mpr fun holder hmem =>
      decide_eq_true fun heq => hstale (heq ▸ hmem)
  exact { h with
    single := by rw [hself]; exact h.single
    served := by
      intro index hmem
      obtain ⟨hname, hindex⟩ := h.served index (hself ▸ hmem)
      exact ⟨hname, List.mem_filter.mpr
        ⟨hindex, decide_eq_true fun heq => hstale (heq ▸ hself ▸ hmem)⟩⟩
    active := fun g hmeta => hself.trans (h.active g hmeta)
    kept := fun g hmem => by rw [hself]; exact h.kept g hmem }

theorem restart (h : Serving i w) : Serving i { w with physical := fun _ => none } :=
  { h with current := fun _ _ _ => nofun }

theorem create (h : Serving i w) : Serving i { w with indices := w.indices ++ [index] } :=
  { h with
    served := fun holder hmem =>
      ⟨(h.served holder hmem).1, List.mem_append_left _ (h.served holder hmem).2⟩ }

/-- The calls of another index whose convenience alias is another name too. -/
theorem framed {j : SinkIndex} {other : String} (hother : other ≠ i.hashAlias)
    (hnamed : j.convenienceAlias ≠ i.hashAlias) : Framed j other (Serving i) where
  asked _ _ h := h.note _ nofun nofun
  created _ _ h := h.create
  recorded _ n seeded h := h.recordOther hother n seeded
  moved _ target holders h := h.moveOther hother target holders
  named _ target holders h := h.moveOther hnamed target holders
  dropped := by
    intro w stale hparse h
    -- an index of the other alias is no generation of this one
    apply h.delete
    intro hmem
    obtain ⟨m, hm⟩ := Option.isSome_iff_exists.mp hparse
    obtain ⟨⟨n, rfl⟩, -⟩ := h.served stale hmem
    have halias := hashAliasOf_of_parseGeneration hm
    rw [hashAliasOf_generationName] at halias
    exact hother (Option.some.inj halias).symm

end Serving

section Calls

variable {admitted : Fault → Prop} {i j : SinkIndex} {n : UInt64}

theorem convenienceAlias_ne (i : SinkIndex) : i.convenienceAlias ≠ i.hashAlias :=
  fun heq => absurd i.length_hashAlias.1 (by rw [heq]; omega)

theorem hashAliasOf_logical_ne (i : SinkIndex) : hashAliasOf i.logical ≠ some i.hashAlias := by
  intro heq
  have := length_of_hashAliasOf heq
  have := i.length_hashAlias.2
  omega

/-- The alias may be pointed at a generation: no marker names another, and the alias is on it,
never was seeded, or the generation was asked for. -/
structure Movable (i : SinkIndex) (n : UInt64) (w : Cluster) : Prop where
  serving : Serving i w
  marker : ∀ g, w.metaDocs i.hashAlias = some (g, true) → g = n
  asked : w.aliases i.hashAlias = [generationName i.hashAlias n] ∨
    ∀ g, .recorded i.hashAlias g true ∈ w.log → .asked (generationName i.hashAlias n) ∈ w.log

theorem serving_tryEnsureAlias : Triple admitted (Movable i n)
    (tryEnsureAlias i.hashAlias (generationName i.hashAlias n))
    (fun _ w => Serving i w ∧ w.aliases i.hashAlias = [generationName i.hashAlias n])
    (Serving i) := by
  unfold tryEnsureAlias aliasHolders
  apply Triple.read fun w h => h.serving
  intro holders
  split
  · next hplan =>
    apply Triple.pure
    rintro w ⟨rfl, h⟩
    exact ⟨h.serving, eq_of_planAliasActions_eq_none hplan⟩
  · next actions hplan =>
    have hmove : ∀ w u w', (w.aliases i.hashAlias = holders ∧ Movable i n w) →
        w.applyAliasActions i.hashAlias (generationName i.hashAlias n) actions = .ok (u, w') →
        Serving i w' ∧ w'.aliases i.hashAlias = [generationName i.hashAlias n] := by
      rintro w u w' ⟨rfl, h⟩ heffect
      obtain ⟨holders, hfold, rfl⟩ := eq_setAlias_of_applyAliasActions heffect
      obtain ⟨rfl, htarget⟩ := of_foldlM_planAliasActions hplan h.serving.single hfold
      refine ⟨h.serving.move htarget h.marker ?_, Cluster.aliases_setAlias_self ..⟩
      rcases h.asked with hserved | hasked
      · -- an alias with actions to take is not on the target
        rw [hserved] at hplan
        simp [planAliasActions] at hplan
      · exact hasked
    apply Triple.remote
    · exact fun w h => h.2.serving
    · exact hmove
    · exact fun _ w u w' h heffect => (hmove w u w' h heffect).1

theorem serving_ensureAlias {target : String}
    {Q : List String → (String → Option String) → Prop} {E : Cluster → Prop}
    (hnamed : j.convenienceAlias ≠ i.hashAlias) : Triple admitted
      (fun w => Serving i w ∧ Q (w.aliases i.hashAlias) w.physical)
      (ensureAlias j.convenienceAlias target)
      (fun _ w => Serving i w ∧ Q (w.aliases i.hashAlias) w.physical) E := by
  apply Triple.attempt
  apply preserves_tryEnsureAlias
  rintro w actions holders ⟨h, hQ⟩ - -
  refine ⟨h.moveOther hnamed target holders, ?_⟩
  rw [Cluster.aliases_setAlias, update_of_ne hnamed.symm]
  exact hQ

/-- The active generation's number, as the meta document has it or new and unseeded. -/
theorem serving_activeGeneration : Triple admitted (Serving i) (activeGeneration i)
    (fun r w => Serving i w ∧ (w.metaDocs i.hashAlias = some r ∨
      w.metaDocs i.hashAlias = none ∧ r.2 = false))
    (Serving i) := by
  unfold activeGeneration readIndexMeta
  apply Triple.read fun w => id
  rintro (_ | state)
  · apply Triple.bind (R := fun _ w => w.metaDocs i.hashAlias = none ∧ Serving i w)
    · apply (preserves_stageGeneration
        (R := fun w => w.metaDocs i.hashAlias = none ∧ Serving i w) ?_).weaken
      · exact fun w => id
      · exact fun _ w => id
      · exact fun w h => h.2
      · exact fun w n h => ⟨h.1, h.2.note _ nofun nofun⟩
    · exact fun n => Triple.pure fun w h => ⟨h.2, .inr ⟨h.1, rfl⟩⟩
  · exact Triple.pure fun w h => ⟨h.2, .inl h.1⟩

/-- A marker still trusted was there before. -/
theorem serving_ensureGeneration {marked : Bool} : Triple admitted
    (fun w => Serving i w ∧
      (marked = true → w.metaDocs i.hashAlias = some (n, true)))
    (ensureGeneration (generationName i.hashAlias n) marked)
    (fun seeded w => Serving i w ∧
      (seeded = true → w.metaDocs i.hashAlias = some (n, true)))
    (Serving i) := by
  unfold ensureGeneration indexExists
  apply Triple.read fun w h => h.1
  intro found
  apply Triple.ite
  · exact fun _ => Triple.pure fun w h => h.2
  · rintro -
    have hcreate : ∀ w u w', Serving i w →
        w.addIndex (generationName i.hashAlias n) = .ok (u, w') → Serving i w' := by
      rintro w u w' h heffect
      obtain ⟨-, rfl | ⟨-, rfl⟩⟩ := addIndex_eq_ok heffect
      · exact h
      · exact h.create
    apply Triple.bind (R := fun _ => Serving i)
    · apply Triple.remote
      · exact fun w h => h.2.1
      · exact fun w u w' h => hcreate w u w' h.2.1
      · exact fun _ w u w' h => hcreate w u w' h.2.1
    · exact fun _ => Triple.pure fun w h => ⟨h, nofun⟩

theorem serving_persistUnseeded {seeded : Bool} : Triple admitted
    (fun w => Serving i w ∧
      (seeded = true → w.metaDocs i.hashAlias = some (n, true)))
    (persistUnseeded i n seeded)
    (fun _ w => Serving i w ∧
      (∀ g, w.metaDocs i.hashAlias = some (g, true) → g = n) ∧
      (seeded = true → w.aliases i.hashAlias = [generationName i.hashAlias n]))
    (Serving i) := by
  unfold persistUnseeded
  apply Triple.ite
  · intro hseeded
    apply Triple.pure
    rintro w ⟨h, hmeta⟩
    refine ⟨h, fun g hg => ?_, fun _ => h.active n (hmeta hseeded)⟩
    rw [hmeta hseeded] at hg
    cases hg
    rfl
  · intro hseeded
    apply Triple.write
    · exact fun w h => h.1
    · rintro w ⟨h, -⟩
      refine ⟨h.retract n, fun g hg => ?_, fun hs => absurd hs hseeded⟩
      rw [Cluster.metaDocs_putMeta_self] at hg
      cases hg
    · exact fun w h => h.1.retract n

theorem serving_serveUnlessRebuilding {seeded : Bool} : Triple admitted
    (fun w => Serving i w ∧
      (∀ g, w.metaDocs i.hashAlias = some (g, true) → g = n) ∧
      (seeded = true → w.aliases i.hashAlias = [generationName i.hashAlias n]))
    (serveUnlessRebuilding i (generationName i.hashAlias n) seeded) (fun _ => Serving i)
    (Serving i) := by
  unfold serveUnlessRebuilding aliasHolders
  apply Triple.read fun w h => h.1
  intro holders
  apply Triple.ite
  · intro hserve
    apply Triple.seq (R := Serving i)
    · apply serving_tryEnsureAlias.weaken
      · rintro w ⟨hholders, h, hmarker, hserved⟩
        refine ⟨h, hmarker, ?_⟩
        rcases Bool.or_eq_true_iff.mp hserve with hseeded | hempty
        · exact .inl (hserved hseeded)
        · refine .inr fun g hmem => absurd ?_ (h.kept g hmem)
          rw [hholders]
          exact List.isEmpty_iff.mp hempty
      · exact fun _ w h => h.1
      · exact fun w => id
    · apply (serving_ensureAlias (Q := fun _ _ => True) (convenienceAlias_ne i)).weaken
      · exact fun w h => ⟨h, trivial⟩
      · exact fun _ w h => h.1
      · exact fun w => id
  · exact fun _ => Triple.pure fun w h => h.2.1

theorem serving_ensureIndex : Triple admitted (Serving i) (ensureIndex i) (fun _ => Serving i)
    (Serving i) := by
  unfold ensureIndex
  apply preserves_refuseConcreteIndex.seq
  apply serving_activeGeneration.bind
  rintro ⟨n, marked⟩
  apply Triple.seq (R := fun w => Serving i w ∧
    (marked = true → w.metaDocs i.hashAlias = some (n, true)))
  · apply Triple.locally
    rintro w ⟨h, hmeta⟩
    refine ⟨h.announce fun g hg => ?_, fun hmarked => ?_⟩
    · rcases hmeta with hmeta | ⟨hnone, -⟩
      · rw [hg] at hmeta
        cases hmeta
        rfl
      · rw [hg] at hnone
        cases hnone
    · rcases hmeta with hmeta | ⟨-, hmarked'⟩
      · rw [← hmarked]
        exact hmeta
      · exact absurd (hmarked.symm.trans hmarked') (by decide)
  · apply serving_ensureGeneration.bind
    intro seeded
    apply serving_persistUnseeded.seq
    exact serving_serveUnlessRebuilding

/-- Staging names a generation that is not served yet. -/
theorem serving_reindex : Triple admitted (Serving i) (reindex i) (fun _ => Serving i)
    (Serving i) :=
  preserves_reindex (fun _ n h => h.retract n)
    (preserves_stageGeneration fun _ _ h => h.note _ nofun nofun)

theorem serving_deleteIndex {stale : String} {Q : List String → (String → Option String) → Prop}
    (hstale : ∀ holders physical, Q holders physical → stale ∉ holders) : Triple admitted
      (fun w => Serving i w ∧ Q (w.aliases i.hashAlias) w.physical) (deleteIndex stale)
      (fun _ w => Serving i w ∧ Q (w.aliases i.hashAlias) w.physical)
      (fun w => Serving i w ∧ Q (w.aliases i.hashAlias) w.physical) := by
  apply preserves_deleteIndex
  rintro w ⟨h, hQ⟩
  have hnot := hstale _ _ hQ
  have hself : (w.drop stale).aliases i.hashAlias = w.aliases i.hashAlias :=
    List.filter_eq_self.mpr fun holder hmem => decide_eq_true fun heq => hnot (heq ▸ hmem)
  exact ⟨h.delete hnot, by rwa [hself]⟩

theorem serving_markGeneration (hnamed : j.convenienceAlias ≠ i.hashAlias) : Triple admitted
    (fun w => Serving i w ∧ w.physical i.logical = some (generationName i.hashAlias n))
    (markGeneration j i.hashAlias (generationName i.hashAlias n)) (fun _ => Serving i)
    (Serving i) := by
  unfold markGeneration
  apply Triple.seq (R := fun w => Serving i w ∧
    w.physical i.logical = some (generationName i.hashAlias n) ∧
    .asked (generationName i.hashAlias n) ∈ w.log)
  · apply Triple.locally
    rintro w ⟨h, hp⟩
    exact ⟨h.note _ nofun nofun, hp, List.mem_append_right _ List.mem_cons_self⟩
  apply (preserves_addressable fun w h => h.1).seq
  apply (preserves_addressable fun w h => h.1).seq
  apply Triple.read fun w h => h.1
  intro holders
  apply Triple.seq (R := fun w => Serving i w ∧
    w.aliases i.hashAlias = [generationName i.hashAlias n] ∧
    w.physical i.logical = some (generationName i.hashAlias n))
  · apply (serving_tryEnsureAlias.and (frame_tryEnsureAlias (R := fun _ _ physical =>
      physical i.logical = some (generationName i.hashAlias n)))).weaken
    · rintro w ⟨-, h, hp, hasked⟩
      exact ⟨⟨h, fun g hg => (h.current g n hg hp).symm, .inr fun _ _ => hasked⟩, hp⟩
    · exact fun _ w h => ⟨h.1.1, h.1.2, h.2⟩
    · exact fun w h => h.1
  apply (serving_ensureAlias (Q := fun holders physical =>
    holders = [generationName i.hashAlias n] ∧
      physical i.logical = some (generationName i.hashAlias n)) hnamed).seq
  apply Triple.seq (R := fun w => Serving i w ∧
    w.aliases i.hashAlias = [generationName i.hashAlias n] ∧
    w.physical i.logical = some (generationName i.hashAlias n))
  · have hdeleted : ∀ stale, stale ≠ generationName i.hashAlias n → Triple admitted
        (fun w => Serving i w ∧ w.aliases i.hashAlias = [generationName i.hashAlias n] ∧
          w.physical i.logical = some (generationName i.hashAlias n)) (deleteIndex stale)
        (fun _ w => Serving i w ∧ w.aliases i.hashAlias = [generationName i.hashAlias n] ∧
          w.physical i.logical = some (generationName i.hashAlias n)) (Serving i) := by
      intro stale hne
      apply (serving_deleteIndex (Q := fun holders physical =>
        holders = [generationName i.hashAlias n] ∧
          physical i.logical = some (generationName i.hashAlias n)) ?_).weaken
      · exact fun w => id
      · exact fun _ w => id
      · exact fun w h => h.1
      · rintro holders physical ⟨rfl, -⟩
        rwa [List.mem_singleton]
    exact Triple.forM_mem fun stale hstale =>
      hdeleted stale (of_decide_eq_true (List.mem_filter.mp hstale).2).1
  · rw [parseGeneration_generationName]
    apply Triple.write
    · exact fun w h => h.1
    · exact fun w h => h.1.record h.2.1 h.2.2
    · exact fun w h => h.1.record h.2.1 h.2.2

/-- The call either works behind this alias, on the generation its index is written to, or behind
another one. -/
theorem serving_markSeeded (hnamed : j.convenienceAlias ≠ i.hashAlias) : Triple admitted
    (fun w => Serving i w ∧ Announced i w ∧
      (w.physical j.logical = none → hashAliasOf j.logical ≠ some i.hashAlias))
    (markSeeded j) (fun _ => Serving i) (Serving i) := by
  apply markSeeded_of_markGeneration fun w h => h.1
  intro generation hashAlias halias
  by_cases hsame : hashAlias = i.hashAlias
  · subst hsame
    apply Triple.strengthen (P := fun w => (∃ n, generation = generationName i.hashAlias n) ∧
      Serving i w ∧ w.physical i.logical = some generation)
    · apply Triple.assume
      rintro ⟨n, rfl⟩
      exact serving_markGeneration hnamed
    · rintro w ⟨hgeneration, h, hannounced, hunannounced⟩
      cases hp : w.physical j.logical with
      | none =>
        rw [hp, Option.getD_none] at hgeneration
        exact absurd (hgeneration ▸ halias) (hunannounced hp)
      | some index =>
        rw [hp, Option.getD_some] at hgeneration
        subst hgeneration
        obtain ⟨hlogical, hname⟩ := hannounced.generation hp halias
        exact ⟨hname, h, hlogical ▸ hp⟩
  · exact (Serving.framed hsame hnamed).markGeneration.strengthen fun w h => h.2.1

end Calls

section Steps

variable {i j : SinkIndex} {w : Cluster}

/-- A call that does not take the alias of `i` for the convenience alias of its own index, or its
own index for a generation of `i`. -/
def Apart (i : SinkIndex) (w : Cluster) : SinkIndex × SinkCallStep → Prop
  | (j, .ensureIndex _) => j.convenienceAlias ≠ i.hashAlias
  | (j, .markSeeded _) => j.convenienceAlias ≠ i.hashAlias ∧
      (w.physical j.logical = none → hashAliasOf j.logical ≠ some i.hashAlias)
  | (_, .reindex _) | (_, .restart) => True

/-- A call that has a number left where it chooses one for `i`. -/
def Roomy (i : SinkIndex) (w : Cluster) : SinkIndex × SinkCallStep → Prop
  | (j, .ensureIndex _) => j.hashAlias = i.hashAlias → w.metaDocs i.hashAlias = none →
      ¬Wrapped i.hashAlias w.indices
  | (j, .reindex _) => j.hashAlias = i.hashAlias → ¬Wrapped i.hashAlias w.indices
  | (_, .markSeeded _) | (_, .restart) => True

def Undisturbed (i : SinkIndex) (w : Cluster) (a : SinkIndex × SinkCallStep) : Prop :=
  Apart i w a ∧ Roomy i w a

instance (i : SinkIndex) (w : Cluster) (a : SinkIndex × SinkCallStep) :
    Decidable (Undisturbed i w a) :=
  match a with
  | (j, .ensureIndex _) => inferInstanceAs (Decidable (j.convenienceAlias ≠ i.hashAlias ∧
      (j.hashAlias = i.hashAlias → w.metaDocs i.hashAlias = none →
        ¬Wrapped i.hashAlias w.indices)))
  | (j, .reindex _) => inferInstanceAs (Decidable (True ∧
      (j.hashAlias = i.hashAlias → ¬Wrapped i.hashAlias w.indices)))
  | (j, .markSeeded _) => inferInstanceAs (Decidable ((j.convenienceAlias ≠ i.hashAlias ∧
      (w.physical j.logical = none → hashAliasOf j.logical ≠ some i.hashAlias)) ∧ True))
  | (_, .restart) => inferInstanceAs (Decidable (True ∧ True))

theorem Serving.call (h : Serving i w) (hannounced : Announced i w)
    (hj : j.indexPrefix = i.indexPrefix) {a : SinkCallStep} (hapart : Apart i w (j, a)) :
    Serving i (j.call w a) := by
  have hstage : Triple (fun _ => True) (Serving i) (stageGeneration j.hashAlias)
      (fun _ => Serving i) (Serving i) :=
    preserves_stageGeneration fun w n h => h.note _ nofun nofun
  cases a with
  | ensureIndex faults =>
    refine Triple.always ?_ h
    by_cases hsame : j.hashAlias = i.hashAlias
    · obtain rfl := (SinkIndex.hashAlias_inj hj).mp hsame
      exact serving_ensureIndex
    · exact (Serving.framed hsame hapart).ensureIndex (fun w n h => h.announceOther hsame n)
        (fun w => id) (preserves_activeGeneration (fun w => id)
          (hstage.strengthen fun w h => h.2))
  | reindex faults =>
    refine Triple.always ?_ h
    by_cases hsame : j.hashAlias = i.hashAlias
    · obtain rfl := (SinkIndex.hashAlias_inj hj).mp hsame
      exact serving_reindex
    · exact preserves_reindex (fun w n h => h.recordOther hsame n false) hstage
  | markSeeded faults =>
    exact (serving_markSeeded hapart.1).always ⟨h, hannounced, hapart.2⟩
  | restart => exact h.restart

theorem framed_fresh {other : String} : Framed j other (Fresh i) where
  asked _ _ h := h.logged rfl nofun
  created _ _ h := h
  recorded _ _ _ h := h.logged rfl nofun
  moved _ _ _ h := h.logged rfl nofun
  named _ _ _ h := h.logged rfl nofun
  dropped _ _ _ h := h

/-- The number is taken from what is listed, and with room there it is none that exists. -/
theorem fresh_stageGeneration {admitted : Fault → Prop} {other : String} : Triple admitted
    (fun w => Fresh i w ∧ (other = i.hashAlias → ¬Wrapped i.hashAlias w.indices))
    (stageGeneration other) (fun _ => Fresh i) (Fresh i) := by
  unfold stageGeneration listGenerations
  apply Triple.read fun w h => h.1
  intro existing
  apply Triple.seq (R := Fresh i)
  · apply Triple.locally
    rintro w ⟨rfl, h, hroom⟩
    apply h.logged rfl
    rintro n existing heq index hindex
    cases heq
    exact parseGeneration_ne_listed (hroom rfl) hindex
  · exact Triple.pure fun w => id

theorem Fresh.call (h : Fresh i w) {a : SinkCallStep} (hroomy : Roomy i w (j, a)) :
    Fresh i (j.call w a) := by
  cases a with
  | ensureIndex faults =>
    have hroom : j.hashAlias = i.hashAlias → w.metaDocs i.hashAlias = none →
        ¬Wrapped i.hashAlias w.indices := hroomy
    refine Triple.always (I := Fresh i) (P := fun w => Fresh i w ∧ (j.hashAlias = i.hashAlias →
      w.metaDocs i.hashAlias = none → ¬Wrapped i.hashAlias w.indices)) ?_ ⟨h, hroom⟩
    apply framed_fresh.ensureIndex (fun w n h => h) fun w h => h.1
    apply preserves_activeGeneration fun w h => h.1
    apply fresh_stageGeneration.strengthen
    rintro w ⟨hnone, h, hroomy⟩
    exact ⟨h, fun hsame => hroomy hsame (hsame ▸ hnone)⟩
  | reindex faults =>
    exact (preserves_reindex (R := Fresh i) (fun w n h => h.logged rfl nofun)
      fresh_stageGeneration).always ⟨h, hroomy⟩
  | markSeeded faults =>
    refine Triple.always (I := Fresh i) ?_ h
    exact markSeeded_of_markGeneration (fun w => id) fun generation hashAlias _ =>
      framed_fresh.markGeneration.strengthen fun w h => h.2
  | restart => exact h

end Steps

section Runs

variable {i : SinkIndex} {w : Cluster} {ok : Cluster → SinkIndex × SinkCallStep → Prop}

theorem Serving.init (h : Untouched i w) : Serving i w := by
  obtain ⟨-, halias, hmeta, hphysical, hlog⟩ := h
  constructor
  case moves =>
    rw [hlog]
    intro before index after heq
    cases before <;> cases heq
  all_goals simp [halias, hmeta, hphysical, hlog]

theorem call_of_step {w' : Cluster} {a : SinkIndex × SinkCallStep}
    (h : (sinkCalls i).step w a = some w') :
    a.1.indexPrefix = i.indexPrefix ∧ w' = a.1.call w a.2 := by
  obtain ⟨hsink, hcall⟩ := Option.ite_none_right_eq_some.mp h
  exact ⟨hsink, (Option.some.inj hcall).symm⟩

theorem announced_of_reachable (h : (sinkCalls i).ReachableWith ok w) : Announced i w := by
  refine h.invariant (fun w hinit logical index hindex => ?_) fun w a w' _ hw _ hstep => ?_
  · rw [hinit.2.2.2.1 logical] at hindex
    cases hindex
  · obtain ⟨hsink, rfl⟩ := call_of_step hstep
    exact hw.call hsink a.2

theorem serving_of_apart (h : (sinkCalls i).ReachableWith (Apart i) w) : Serving i w := by
  refine h.invariant (fun _ => Serving.init) fun w a w' hr hw hapart hstep => ?_
  obtain ⟨hsink, rfl⟩ := call_of_step hstep
  exact hw.call (announced_of_reachable hr) hsink hapart

theorem fresh_of_roomy (h : (sinkCalls i).ReachableWith (Roomy i) w) :
    Fresh i w := by
  refine h.invariant (fun w hinit n existing hmem => ?_) fun w a w' _ hw hroomy hstep => ?_
  · rw [hinit.2.2.2.2] at hmem
    cases hmem
  · obtain ⟨-, rfl⟩ := call_of_step hstep
    exact hw.call hroomy

/-- What is relied on of the alias of an index: it is on one existing generation at most, a seed
marker names the generation served, after a first marker the alias moved only to generations
`mark_seeded` was called for, and no staged number was taken. -/
structure ServesSafely (i : SinkIndex) (w : Cluster) : Prop where
  single : (w.aliases i.hashAlias).length ≤ 1
  served : ∀ index ∈ w.aliases i.hashAlias,
    (∃ n, index = generationName i.hashAlias n) ∧ index ∈ w.indices
  marked : ∀ g, w.metaDocs i.hashAlias = some (g, true) →
    generationName i.hashAlias g ∈ w.indices ∧
      w.aliases i.hashAlias = [generationName i.hashAlias g]
  asked : AskedFirst i.hashAlias w.log
  fresh : Fresh i w

/-- Whatever the calls on the indexes of a sink and wherever they were interrupted, what is relied
on of an alias holds while no other index takes its name and numbers are left. -/
theorem servesSafely_of_undisturbed (h : (sinkCalls i).ReachableWith (Undisturbed i) w) :
    ServesSafely i w := by
  have hs := serving_of_apart (h.mono fun _ _ => And.left)
  exact ⟨hs.single, hs.served, fun g hg => ⟨hs.mem_of_active hg, hs.active g hg⟩, hs.moves,
    fresh_of_roomy (h.mono fun _ _ => And.right)⟩

end Runs

section Rebuild

def users : SinkIndex := ⟨"", "users", "0a1b2c3d", by decide⟩

def orders : SinkIndex := ⟨"", "orders", "00000007", by decide⟩

/-- Its logical name is the hash alias of `users`. -/
def namesake : SinkIndex := ⟨"", "users_0a1b2c3d", "00000007", by decide⟩

theorem untouched_empty (i : SinkIndex) : Untouched i Cluster.empty :=
  ⟨nofun, rfl, rfl, fun _ => rfl, rfl⟩

/-- A rebuild whose swap is answered by silence. -/
def interruptedRebuild : List SinkCallStep :=
  [.ensureIndex [], .markSeeded [], .reindex [], .ensureIndex [.none, .none, .refused],
    .ensureIndex [], .markSeeded [.none, .none, .none, .none, .lost]]

/-- The rebuild goes on beside the calls of another index. -/
theorem servesSafely_of_interruptedRebuild : ∃ w,
    (sinkCalls users).run Cluster.empty ((orders, .ensureIndex []) ::
      interruptedRebuild.flatMap fun a => [(users, a), (orders, .markSeeded [])]) = some w ∧
    w.aliases users.hashAlias = ["users_0a1b2c3d_2"] ∧ ServesSafely users w := by
  have hrun : ∃ w, (sinkCalls users).run Cluster.empty ((orders, .ensureIndex []) ::
      interruptedRebuild.flatMap fun a => [(users, a), (orders, .markSeeded [])]) = some w ∧
      w.aliases users.hashAlias = ["users_0a1b2c3d_2"] := by
    apply Transition.Machine.exists_of_run
    decide +kernel
  have heach : (sinkCalls users).Each (Undisturbed users) Cluster.empty
      ((orders, .ensureIndex []) ::
        interruptedRebuild.flatMap fun a => [(users, a), (orders, .markSeeded [])]) := by
    decide +kernel
  obtain ⟨w, hw, hserved⟩ := hrun
  have hinit : (sinkCalls users).ReachableWith (Undisturbed users) Cluster.empty :=
    .init (untouched_empty users)
  exact ⟨w, hw, hserved, servesSafely_of_undisturbed (hinit.run heach hw)⟩

/-- The convenience alias of an index named like the hash alias of a seeded one takes that alias
to an empty generation of its own. -/
theorem not_servesSafely_of_namesake :
    ¬ ∀ i w, (sinkCalls i).Reachable w → ServesSafely i w := by
  intro h
  have hrun : ∃ w, (sinkCalls users).run Cluster.empty [(users, .ensureIndex []),
      (users, .markSeeded []), (namesake, .ensureIndex [])] = some w ∧
      (w.aliases users.hashAlias = ["users_0a1b2c3d_00000007_1"] ∧
        w.metaDocs users.hashAlias = some (1, true)) := by
    apply Transition.Machine.exists_of_run
    decide +kernel
  obtain ⟨w, hw, hserved, hmarked⟩ := hrun
  have hreached : (sinkCalls users).Reachable w :=
    Transition.Machine.Reachable.run (.init (untouched_empty users)) hw
  have hactive := ((h users w hreached).marked 1 hmarked).2
  rw [hserved] at hactive
  exact absurd hactive (by decide +kernel)

end Rebuild

end Flusso
