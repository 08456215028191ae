import Flusso.Sink.Serving

/-! # Orphaned generations

`markSeeded` drops what the alias held when the call began. A generation that is
neither held nor written to by then stays behind.
-/

namespace Flusso

open Faulty Function

variable {admitted : Fault → Prop} {i : SinkIndex} {w w' : Cluster} {n : UInt64}

/-- The only generation left is the active one, and it is seeded. -/
def OnlyActive (i : SinkIndex) (w : Cluster) : Prop :=
  ∃ g, w.metaDocs i.hashAlias = some (g, true) ∧
    ∀ n, generationName i.hashAlias n ∈ w.indices ↔ n = g

/-- Every existing generation is written to or held by the alias. -/
def Held (i : SinkIndex) (w : Cluster) : Prop :=
  ∀ n, generationName i.hashAlias n ∈ w.indices →
    w.physical i.logical = some (generationName i.hashAlias n) ∨
      generationName i.hashAlias n ∈ w.aliases i.hashAlias

section Alone

/-- No generation's name is an alias. -/
def Unaliased (i : SinkIndex) (w : Cluster) : Prop :=
  ∀ n, w.aliases (generationName i.hashAlias n) = []

theorem Unaliased.setAlias {other target : String} {holders : List String} (h : Unaliased i w)
    (hother : other.length ≤ i.hashAlias.length) :
    Unaliased i (w.setAlias other target holders) := by
  intro n
  have hname := length_lt_generationName i.hashAlias n
  rw [Cluster.aliases_setAlias, update_of_ne]
  · exact h n
  · exact fun heq => absurd hother (by rw [← heq]; omega)

/-- What calls on one index alone keep besides. -/
structure Alone (i : SinkIndex) (w : Cluster) : Prop where
  unaliased : Unaliased i w
  written : ∀ p, w.physical i.logical = some p → ∃ n, p = generationName i.hashAlias n
  canonical : ∀ index ∈ w.indices, ∀ n, parseGeneration i.hashAlias index = some n →
    index = generationName i.hashAlias n

theorem framed_alone {hashAlias : String} (hlength : hashAlias.length ≤ i.hashAlias.length) :
    Framed i hashAlias (Alone i) where
  asked _ _ h := ⟨h.unaliased, h.written, h.canonical⟩
  created w n h := by
    refine ⟨h.unaliased, h.written, fun index hindex m hparse => ?_⟩
    rcases List.mem_append.mp hindex with hindex | hindex
    · exact h.canonical index hindex m hparse
    · rw [List.mem_singleton] at hindex
      subst hindex
      have halias := hashAliasOf_of_parseGeneration hparse
      rw [hashAliasOf_generationName, Option.some.injEq] at halias
      subst halias
      rw [parseGeneration_generationName, Option.some.injEq] at hparse
      rw [hparse]
  recorded _ _ _ h := ⟨h.unaliased, h.written, h.canonical⟩
  moved _ _ _ h := ⟨h.unaliased.setAlias hlength, h.written, h.canonical⟩
  named _ _ _ h := ⟨h.unaliased.setAlias i.length_hashAlias.1.le, h.written, h.canonical⟩
  dropped w stale _ h := ⟨fun n => by simp [h.unaliased n], h.written,
    fun index hindex => h.canonical index (List.mem_of_mem_filter hindex)⟩

theorem Alone.length_le {generation hashAlias : String} (h : Alone i w)
    (hgeneration : (w.physical i.logical).getD i.logical = generation)
    (halias : hashAliasOf generation = some hashAlias) :
    hashAlias.length ≤ i.hashAlias.length := by
  cases hp : w.physical i.logical with
  | none =>
    rw [hp, Option.getD_none] at hgeneration
    have hshorter := length_of_hashAliasOf (hgeneration ▸ halias)
    exact (hshorter.trans i.length_hashAlias.2).le
  | some index =>
    obtain ⟨n, rfl⟩ := h.written index hp
    rw [hp, Option.getD_some] at hgeneration
    rw [← hgeneration, hashAliasOf_generationName, Option.some.injEq] at halias
    rw [halias]

theorem Alone.call (h : Alone i w) (a : SinkCallStep) : Alone i (i.call w a) := by
  have hstage : Triple (fun _ => True) (Alone i) (stageGeneration i.hashAlias)
      (fun _ => Alone i) (Alone i) :=
    preserves_stageGeneration fun _ _ h => ⟨h.unaliased, h.written, h.canonical⟩
  cases a with
  | ensureIndex faults =>
    refine Triple.always ?_ h
    refine (framed_alone le_rfl).ensureIndex (fun w n h => ⟨h.unaliased, ?_, h.canonical⟩)
      (fun w => id) (preserves_activeGeneration (fun w => id) (hstage.strengthen fun w h => h.2))
    intro p hp
    rw [Cluster.physical_announce_self, Option.some.injEq] at hp
    exact ⟨n, hp.symm⟩
  | reindex faults =>
    exact (preserves_reindex (fun w n h => ⟨h.unaliased, h.written, h.canonical⟩) hstage).always h
  | markSeeded faults =>
    refine Triple.always (I := Alone i) ?_ h
    apply markSeeded_of_markGeneration fun w => id
    intro generation hashAlias halias
    apply Triple.strengthen (P := fun w => hashAlias.length ≤ i.hashAlias.length ∧ Alone i w)
    · exact Triple.assume fun hlength => (framed_alone hlength).markGeneration
    · exact fun w hw => ⟨hw.2.length_le hw.1 halias, hw.2⟩
  | restart => exact ⟨h.unaliased, nofun, h.canonical⟩

theorem alone_of_reachable (h : (generations i).Reachable w) : Alone i w := by
  refine h.invariant (fun w hinit => ?_) fun w a w' _ hw hstep => ?_
  · obtain ⟨⟨hindices, -, -, hphysical, -⟩, hnames⟩ := hinit
    refine ⟨hnames, fun p hp => ?_, fun index hindex n hparse => ?_⟩
    · rw [hphysical] at hp
      cases hp
    · rw [hindices index hindex] at hparse
      cases hparse
  · cases hstep
    exact hw.call a

/-- The calls on an index stay out of the way of its alias. -/
theorem sinkCalls_of_generations (h : (generations i).Reachable w) :
    (sinkCalls i).ReachableWith (Apart i) w := by
  refine Transition.Machine.Reachable.invariant (fun w hinit => ?_) (fun w a w' _ hr hstep => ?_) h
  · exact .init hinit.1
  · have hapart : Apart i w (i, a) := by
      cases a with
      | ensureIndex faults => exact convenienceAlias_ne i
      | markSeeded faults => exact ⟨convenienceAlias_ne i, fun _ => hashAliasOf_logical_ne i⟩
      | reindex faults => trivial
      | restart => trivial
    exact hr.step hapart ((if_pos rfl).trans hstep)

theorem serving_of_reachable (h : (generations i).Reachable w) : Serving i w :=
  serving_of_apart (sinkCalls_of_generations h)

end Alone

section Success

theorem mem_indices_of_removeIndex {stale index : String} {u : Unit}
    (h : w.removeIndex stale = .ok (u, w')) :
    index ∈ w'.indices ↔ index ∈ w.indices ∧ index ≠ stale := by
  rcases removeIndex_eq_ok h with rfl | ⟨hstale, rfl⟩
  · simp
  · constructor
    · exact fun hmem => ⟨hmem, fun heq => hstale (heq ▸ hmem)⟩
    · exact fun hmem => hmem.1

theorem dropped_forM_deleteIndex {indices stale : List String} :
    Triple admitted (fun w => w.indices = indices) (stale.forM deleteIndex)
      (fun _ w => ∀ index, index ∈ w.indices ↔ index ∈ indices ∧ index ∉ stale)
      (fun _ => True) := by
  apply (Triple.forM (I := fun left w => ∀ index, index ∈ w.indices ∧ index ∉ left ↔
    index ∈ indices ∧ index ∉ stale) ?_ stale).weaken
  · rintro w rfl index
    exact Iff.rfl
  · rintro - w h index
    simpa using h index
  · exact fun w => id
  · intro first left
    apply Triple.remote fun _ _ => trivial
    · intro w u w' h heffect index
      rw [mem_indices_of_removeIndex heffect, ← h index, List.mem_cons]
      tauto
    · exact fun _ _ _ _ _ _ => trivial

/-- A call that succeeds drops exactly the other generations the alias held. -/
theorem indices_of_markGeneration {indices holders : List String} :
    Triple admitted (fun w => w.indices = indices ∧ w.aliases i.hashAlias = holders)
      (markGeneration i i.hashAlias (generationName i.hashAlias n))
      (fun _ w => w.metaDocs i.hashAlias = some (n, true) ∧ ∀ index,
        index ∈ w.indices ↔ index ∈ indices ∧ index ∉ holders.filter fun holder =>
          holder ≠ generationName i.hashAlias n ∧ (parseGeneration i.hashAlias holder).isSome)
      (fun _ => True) := by
  unfold markGeneration
  apply Triple.seq (R := fun w => w.indices = indices ∧ w.aliases i.hashAlias = holders)
  · exact Triple.locally fun w => id
  apply (preserves_addressable fun _ _ => trivial).seq
  apply (preserves_addressable fun _ _ => trivial).seq
  apply Triple.read fun _ _ => trivial
  intro found
  apply Triple.strengthen (P := fun w => found = holders ∧ w.indices = indices)
  · apply Triple.assume
    rintro rfl
    apply Triple.seq (R := fun w => w.indices = indices)
    · apply (frame_tryEnsureAlias (R := fun present _ _ => present = indices)).weaken
      · exact fun w => id
      · exact fun _ w => id
      · exact fun _ _ => trivial
    apply Triple.seq (R := fun w => w.indices = indices)
    · exact (frame_tryEnsureAlias (R := fun present _ _ => present = indices)).attempt
    apply dropped_forM_deleteIndex.seq
    rw [parseGeneration_generationName]
    apply Triple.write
    · exact fun _ _ => trivial
    · exact fun w h => ⟨Cluster.metaDocs_putMeta_self .., h⟩
    · exact fun _ _ => trivial
  · rintro w ⟨hfound, hindices, hholders⟩
    exact ⟨hfound.symm.trans hholders, hindices⟩

theorem markSeeded_of_written {P : Cluster → Prop} {Q : Unit → Cluster → Prop}
    {E : Cluster → Prop} (hE : ∀ w, P w → E w)
    (hP : ∀ w, P w → w.physical i.logical = some (generationName i.hashAlias n))
    (h : Triple admitted P (markGeneration i i.hashAlias (generationName i.hashAlias n)) Q E) :
    Triple admitted P (markSeeded i) Q E := by
  apply markSeeded_of_markGeneration hE
  intro generation hashAlias halias
  apply Triple.strengthen (P := fun w => generationName i.hashAlias n = generation ∧ P w)
  · apply Triple.assume
    rintro rfl
    rw [hashAliasOf_generationName, Option.some.injEq] at halias
    subst halias
    exact h
  · rintro w ⟨hgeneration, hw⟩
    rw [hP w hw, Option.getD_some] at hgeneration
    exact ⟨hgeneration, hw⟩

/-- A successful call leaves only the active generation exactly when every generation was
written to or held by the alias as it began. -/
theorem onlyActive_iff_held {p : String} {faults rest : List Fault} (h : Serving i w)
    (halone : Alone i w) (hp : w.physical i.logical = some p)
    (hok : (markSeeded i).runWith w faults = (.ok (), w', rest)) :
    OnlyActive i w' ↔ Held i w := by
  have hall : ∀ f ∈ faults, (fun _ : Fault => True) f := fun _ _ => trivial
  obtain ⟨n, rfl⟩ := halone.written p hp
  have h' : Serving i w' := (markSeeded_of_written (fun w h => h.1) (fun w h => h.2)
    (serving_markGeneration (convenienceAlias_ne i))).ok hall ⟨h, hp⟩ hok
  have hleft : Triple (fun _ => True) (fun v => v = w) (markSeeded i)
      (fun _ v => v.metaDocs i.hashAlias = some (n, true) ∧ ∀ index, index ∈ v.indices ↔
        index ∈ w.indices ∧ index ∉ (w.aliases i.hashAlias).filter fun holder =>
          holder ≠ generationName i.hashAlias n ∧ (parseGeneration i.hashAlias holder).isSome)
      (fun _ => True) := by
    apply markSeeded_of_written (n := n) fun _ _ => trivial
    · rintro v rfl
      exact hp
    · apply indices_of_markGeneration.strengthen
      rintro v rfl
      exact ⟨rfl, rfl⟩
  obtain ⟨hmeta, hindices⟩ := hleft.ok hall rfl hok
  have hmem : generationName i.hashAlias n ∈ w'.indices := h'.mem_of_active hmeta
  have hsuperseded : ∀ m, generationName i.hashAlias m ∈ ((w.aliases i.hashAlias).filter
      fun holder => holder ≠ generationName i.hashAlias n ∧
        (parseGeneration i.hashAlias holder).isSome) ↔
      generationName i.hashAlias m ∈ w.aliases i.hashAlias ∧ m ≠ n := by
    intro m
    simp [parseGeneration_generationName]
  constructor
  · rintro ⟨g, hg, honly⟩ m hm
    rw [hmeta] at hg
    cases hg
    by_cases hmn : m = n
    · exact .inl (hmn ▸ hp)
    · have hgone : generationName i.hashAlias m ∉ w'.indices := fun h => hmn ((honly m).mp h)
      rw [hindices, hsuperseded] at hgone
      exact .inr (by_contra fun hnot => hgone ⟨hm, fun h => hnot h.1⟩)
  · intro hheld
    refine ⟨n, hmeta, fun m => ⟨fun hm => ?_, fun hmn => hmn ▸ hmem⟩⟩
    rw [hindices, hsuperseded] at hm
    rcases hheld m hm.1 with hwritten | hserved
    · exact (generationName_inj.mp (Option.some.inj (hp.symm.trans hwritten))).symm
    · exact by_contra fun hmn => hm.2 ⟨hserved, hmn⟩

end Success

section Tidy

/-- Steps that lose sight of no generation: nothing is staged past a generation not served yet,
and neither the first staging nor a swap that supersedes a generation is interrupted. -/
def Tidy (i : SinkIndex) (w : Cluster) : SinkCallStep → Prop
  | .ensureIndex faults => w.metaDocs i.hashAlias = none → ∀ f ∈ faults, f = .none
  | .reindex _ => ∀ n, generationName i.hashAlias n ∈ w.indices →
      generationName i.hashAlias n ∈ w.aliases i.hashAlias
  | .markSeeded faults => (∀ index ∈ w.aliases i.hashAlias, w.physical i.logical = some index) ∨
      ∀ f ∈ faults, f = .none
  | .restart => True

/-- Every generation is held by the alias, named by the meta document or one of a few more, and
the one named is the one written to. -/
structure Swept (i : SinkIndex) (more : UInt64 → Prop) (w : Cluster) : Prop where
  kept : ∀ n, generationName i.hashAlias n ∈ w.indices →
    generationName i.hashAlias n ∈ w.aliases i.hashAlias ∨
      (∃ seeded, w.metaDocs i.hashAlias = some (n, seeded)) ∨ more n
  current : ∀ n seeded p, generationName i.hashAlias n ∈ w.indices →
    w.metaDocs i.hashAlias = some (n, seeded) → w.physical i.logical = some p →
    p = generationName i.hashAlias n

/-- No generation is out of sight. -/
abbrev SweptClean (i : SinkIndex) : Cluster → Prop := Swept i fun _ => False

namespace Swept

variable {more : UInt64 → Prop} {seeded : Bool}

theorem held (h : SweptClean i w) {p : String} (hp : w.physical i.logical = some p) : Held i w := by
  intro n hn
  rcases h.kept n hn with hserved | ⟨seeded, hmeta⟩ | hmore
  · exact .inr hserved
  · exact .inl (by rw [hp, h.current n seeded p hn hmeta hp])
  · exact hmore.elim

theorem of_onlyActive (hs : Serving i w) (halone : Alone i w) (h : OnlyActive i w) :
    SweptClean i w := by
  obtain ⟨g, hmeta, honly⟩ := h
  constructor
  · intro n hn
    exact .inr (.inl ⟨true, (honly n).mp hn ▸ hmeta⟩)
  · intro n seeded p hn _ hp
    obtain ⟨m, rfl⟩ := halone.written p hp
    rw [(honly n).mp hn, hs.current g m hmeta hp]

theorem mono (h : SweptClean i w) : Swept i more w where
  kept n hn := (h.kept n hn).imp_right (.imp_right False.elim)
  current := h.current

theorem note (h : Swept i more w) (event : GenerationEvent) : Swept i more (w.note event) :=
  ⟨h.kept, h.current⟩

theorem announce (h : Swept i more w)
    (hmeta : ∀ m seeded, w.metaDocs i.hashAlias = some (m, seeded) → m = n) :
    Swept i more (w.announce i.logical (generationName i.hashAlias n)) where
  kept := h.kept
  current m seeded p _ hm hp := by
    rw [Cluster.physical_announce_self, Option.some.injEq] at hp
    rw [hmeta m seeded hm, hp]

theorem restart (h : Swept i more w) : Swept i more { w with physical := fun _ => none } where
  kept := h.kept
  current _ _ _ _ _ := nofun

theorem create (h : Swept i more w) (hp : w.physical i.logical = some (generationName i.hashAlias n))
    (hn : (∃ seeded, w.metaDocs i.hashAlias = some (n, seeded)) ∨ more n) :
    Swept i more { w with indices := w.indices ++ [generationName i.hashAlias n] } where
  kept m hm := by
    rcases List.mem_append.mp hm with hm | hm
    · exact h.kept m hm
    · rw [List.mem_singleton, generationName_inj] at hm
      exact .inr (hm ▸ hn)
  current m seeded p hm hmeta hp' := by
    rcases List.mem_append.mp hm with hm | hm
    · exact h.current m seeded p hm hmeta hp'
    · rw [List.mem_singleton] at hm
      rw [hm]
      exact Option.some.inj (hp'.symm.trans hp)

theorem putMeta (hkept : ∀ m, generationName i.hashAlias m ∈ w.indices →
      generationName i.hashAlias m ∈ w.aliases i.hashAlias ∨ m = n)
    (hcurrent : ∀ p, generationName i.hashAlias n ∈ w.indices → w.physical i.logical = some p →
      p = generationName i.hashAlias n) : SweptClean i (w.putMeta i.hashAlias n seeded) where
  kept m hm := by
    rcases hkept m hm with hserved | rfl
    · exact .inl hserved
    · exact .inr (.inl ⟨seeded, Cluster.metaDocs_putMeta_self ..⟩)
  current m s p hm hmeta hp := by
    rw [Cluster.metaDocs_putMeta_self] at hmeta
    cases hmeta
    exact hcurrent p hm hp

theorem setAlias (h : Swept i more w) {target : String} {holders : List String}
    (hholders : ∀ index ∈ w.aliases i.hashAlias, index ∈ holders) :
    Swept i more (w.setAlias i.hashAlias target holders) where
  kept n hn := (h.kept n hn).imp_left fun hmem => by
    rw [Cluster.aliases_setAlias_self]
    exact hholders _ hmem
  current := h.current

theorem of_eq (h : Swept i more w) (hindices : ∀ n, generationName i.hashAlias n ∈ w'.indices →
      generationName i.hashAlias n ∈ w.indices)
    (haliases : w'.aliases i.hashAlias = w.aliases i.hashAlias)
    (hmeta : w'.metaDocs i.hashAlias = w.metaDocs i.hashAlias)
    (hp : w'.physical i.logical = w.physical i.logical) :
    Swept i more w' where
  kept n hn := by
    rw [haliases, hmeta]
    exact h.kept n (hindices n hn)
  current n seeded p hn hm hp' :=
    h.current n seeded p (hindices n hn) (hmeta ▸ hm) (hp ▸ hp')

theorem drop (h : Swept i more w) (stale : String) : Swept i more (w.drop stale) where
  kept n hn := by
    rw [Cluster.indices_drop, List.mem_filter] at hn
    rw [Cluster.aliases_drop]
    exact (h.kept n hn.1).imp_left fun hmem => List.mem_filter.mpr ⟨hmem, hn.2⟩
  current n seeded p hn := by
    rw [Cluster.indices_drop, List.mem_filter] at hn
    exact h.current n seeded p hn.1

/-- The calls behind another alias. -/
theorem framed {other : String} (hother : other ≠ i.hashAlias) : Framed i other (Swept i more) where
  asked _ index h := h.note (.asked index)
  created w n h := by
    refine h.of_eq (fun m hm => ?_) rfl rfl rfl
    rcases List.mem_append.mp hm with hm | hm
    · exact hm
    · -- a generation's name tells its alias
      have halias := congrArg hashAliasOf (List.mem_singleton.mp hm)
      rw [hashAliasOf_generationName, hashAliasOf_generationName] at halias
      exact absurd (Option.some.inj halias).symm hother
  recorded _ _ _ h := h.of_eq (fun _ => id) rfl (update_of_ne hother.symm _ _) rfl
  moved _ _ _ h := h.of_eq (fun _ => id) (update_of_ne hother.symm _ _) rfl rfl
  named _ _ _ h := h.of_eq (fun _ => id) (update_of_ne (convenienceAlias_ne i).symm _ _) rfl rfl
  dropped _ stale _ h := h.drop stale

end Swept

section Calls

variable {more : UInt64 → Prop} {seeded : Bool} {g : UInt64}

theorem activeGeneration_of_metaDocs {R : Cluster → Prop} {state : UInt64 × Bool}
    (hR : ∀ w, R w → w.metaDocs i.hashAlias = some state) :
    Triple admitted R (activeGeneration i) (fun found w => found = state ∧ R w) R := by
  unfold activeGeneration readIndexMeta
  apply Triple.read fun w => id
  rintro (_ | found)
  · apply Triple.strengthen (P := fun w => False ∧ R w)
    · exact Triple.assume False.elim
    · rintro w ⟨hnone, h⟩
      rw [hR w h] at hnone
      cases hnone
  · apply Triple.pure
    rintro w ⟨hfound, h⟩
    exact ⟨Option.some.inj (hfound.symm.trans (hR w h)), h⟩

theorem activeGeneration_first : Triple admitted
    (fun w => Serving i w ∧ SweptClean i w ∧ w.metaDocs i.hashAlias = none) (activeGeneration i)
    (fun found w => found.2 = false ∧
      Serving i w ∧ SweptClean i w ∧ w.metaDocs i.hashAlias = none)
    (fun w => Serving i w ∧ SweptClean i w ∧ w.metaDocs i.hashAlias = none) := by
  unfold activeGeneration readIndexMeta
  apply Triple.read fun w => id
  rintro (_ | found)
  · apply Triple.bind (R := fun _ w =>
      Serving i w ∧ SweptClean i w ∧ w.metaDocs i.hashAlias = none)
    · apply (preserves_stageGeneration (R := fun w =>
        Serving i w ∧ SweptClean i w ∧ w.metaDocs i.hashAlias = none) ?_).strengthen fun w h => h.2
      exact fun w n h => ⟨h.1.note _ nofun nofun, h.2.1.note _, h.2.2⟩
    · exact fun n => Triple.pure fun w h => ⟨rfl, h⟩
  · apply Triple.strengthen (P := fun w => False ∧ Serving i w)
    · exact Triple.assume False.elim
    · rintro w ⟨hfound, hs, -, hnone⟩
      rw [hnone] at hfound
      cases hfound

/-- Without faults an alias moves or the world stays as it was. -/
theorem certain_tryEnsureAlias {aliasName target : String} {R Q : Cluster → Prop}
    (hQ : ∀ w, R w → Q w) (hset : ∀ w holders, R w → Q (w.setAlias aliasName target holders)) :
    Triple (· = .none) R (tryEnsureAlias aliasName target) (fun _ => Q) R := by
  unfold tryEnsureAlias aliasHolders
  apply Triple.read fun w => id
  intro holders
  split
  · exact Triple.pure fun w h => hQ w h.2
  · apply Triple.certain
    · rintro w u w' ⟨-, h⟩ heffect
      obtain ⟨holders, -, rfl⟩ := eq_setAlias_of_applyAliasActions heffect
      exact hset w holders h
    · exact fun w _ h _ => h.2

theorem swept_tryEnsureAlias : Triple admitted
    (fun w => Swept i more w ∧ (w.aliases i.hashAlias = [] ∨
      w.aliases i.hashAlias = [generationName i.hashAlias n]))
    (tryEnsureAlias i.hashAlias (generationName i.hashAlias n))
    (fun _ w => Swept i more w ∧ (w.aliases i.hashAlias = [] ∨
      w.aliases i.hashAlias = [generationName i.hashAlias n]))
    (fun w => Swept i more w ∧ (w.aliases i.hashAlias = [] ∨
      w.aliases i.hashAlias = [generationName i.hashAlias n])) := by
  apply preserves_tryEnsureAlias
  rintro w actions holders ⟨h, hnone | hself⟩ hplan hfold
  · refine ⟨h.setAlias (by simp [hnone]), .inr ?_⟩
    rw [hnone] at hplan hfold
    cases hplan
    rw [Cluster.aliases_setAlias_self]
    by_cases hmem : generationName i.hashAlias n ∈ w.indices
    · simpa [applyAliasAction, hmem] using hfold.symm
    · simp [applyAliasAction, hmem] at hfold
  · rw [hself] at hplan
    simp [planAliasActions] at hplan

theorem swept_ensureAlias {target : String} {E : Cluster → Prop} :
    Triple admitted (Swept i more) (ensureAlias i.convenienceAlias target)
      (fun _ => Swept i more) E :=
  (Swept.framed (convenienceAlias_ne i)).ensureAlias

theorem swept_ensureGeneration {marked : Bool} {state : Option (UInt64 × Bool)}
    (hmore : (∃ seeded, state = some (n, seeded)) ∨ more n) : Triple admitted
      (fun w => Swept i more w ∧ w.metaDocs i.hashAlias = state ∧
        w.physical i.logical = some (generationName i.hashAlias n))
      (ensureGeneration (generationName i.hashAlias n) marked)
      (fun _ w => Swept i more w ∧ w.metaDocs i.hashAlias = state ∧
        w.physical i.logical = some (generationName i.hashAlias n))
      (Swept i more) := by
  unfold ensureGeneration indexExists
  apply Triple.read fun w h => h.1
  intro found
  apply Triple.ite
  · exact fun _ => Triple.pure fun w h => h.2
  · rintro -
    have hcreate : ∀ w u w', (Swept i more w ∧ w.metaDocs i.hashAlias = state ∧
          w.physical i.logical = some (generationName i.hashAlias n)) →
        w.addIndex (generationName i.hashAlias n) = .ok (u, w') →
        Swept i more w' ∧ w'.metaDocs i.hashAlias = state ∧
          w'.physical i.logical = some (generationName i.hashAlias n) := by
      rintro w u w' ⟨h, hmeta, hp⟩ heffect
      obtain ⟨-, rfl | ⟨-, rfl⟩⟩ := addIndex_eq_ok heffect
      · exact ⟨h, hmeta, hp⟩
      · exact ⟨h.create hp (by rwa [hmeta]), hmeta, hp⟩
    apply Triple.seq (R := fun w => Swept i more w ∧ w.metaDocs i.hashAlias = state ∧
      w.physical i.logical = some (generationName i.hashAlias n))
    · apply Triple.remote
      · exact fun w h => h.2.1
      · exact fun w u w' h => hcreate w u w' h.2
      · exact fun _ w u w' h heffect => (hcreate w u w' h.2 heffect).1
    · exact Triple.pure fun w => id

theorem swept_serveUnlessRebuilding : Triple admitted
    (fun w => SweptClean i w ∧
      (seeded = true → w.aliases i.hashAlias = [generationName i.hashAlias n]))
    (serveUnlessRebuilding i (generationName i.hashAlias n) seeded) (fun _ => SweptClean i)
    (SweptClean i) := by
  unfold serveUnlessRebuilding aliasHolders
  apply Triple.read fun w h => h.1
  intro holders
  apply Triple.ite
  · intro hserve
    apply Triple.seq (R := fun w => SweptClean i w)
    · apply (swept_tryEnsureAlias (n := n)).weaken
      · rintro w ⟨hholders, h, hserved⟩
        refine ⟨h, ?_⟩
        rcases Bool.or_eq_true_iff.mp hserve with hseeded | hempty
        · exact .inr (hserved hseeded)
        · rw [hholders]
          exact .inl (List.isEmpty_iff.mp hempty)
      · exact fun _ w h => h.1
      · exact fun w h => h.1
    · exact swept_ensureAlias
  · exact fun _ => Triple.pure fun w h => h.2.1

theorem swept_putMeta (hmeta : ∀ m seeded, w.metaDocs i.hashAlias = some (m, seeded) → m = n)
    (hp : w.physical i.logical = some (generationName i.hashAlias n)) (h : Swept i (· = n) w)
    (seeded : Bool) : SweptClean i (w.putMeta i.hashAlias n seeded) := by
  apply Swept.putMeta
  · intro m hm
    rcases h.kept m hm with hserved | ⟨seeded, hnamed⟩ | hmn
    · exact .inl hserved
    · exact .inr (hmeta m seeded hnamed)
    · exact .inr hmn
  · exact fun p _ hp' => Option.some.inj (hp'.symm.trans hp)

theorem swept_putMeta_of_written (hp : w.physical i.logical = some (generationName i.hashAlias n))
    (h : SweptClean i w) (seeded : Bool) : SweptClean i (w.putMeta i.hashAlias n seeded) := by
  apply Swept.putMeta
  · intro m hm
    rcases h.kept m hm with hserved | ⟨seeded, hnamed⟩ | hmore
    · exact .inl hserved
    · exact .inr (generationName_inj.mp (h.current m seeded _ hm hnamed hp)).symm
    · exact hmore.elim
  · exact fun p _ hp' => Option.some.inj (hp'.symm.trans hp)

theorem swept_persistUnseeded {marked : Bool} : Triple admitted
    (fun w => SweptClean i w ∧ w.metaDocs i.hashAlias = some (n, marked) ∧
      w.physical i.logical = some (generationName i.hashAlias n))
    (persistUnseeded i n seeded) (fun _ => SweptClean i) (SweptClean i) := by
  have hput : ∀ w, (SweptClean i w ∧ w.metaDocs i.hashAlias = some (n, marked) ∧
      w.physical i.logical = some (generationName i.hashAlias n)) →
      SweptClean i (w.putMeta i.hashAlias n false) := by
    rintro w ⟨h, hmeta, hp⟩
    apply swept_putMeta _ hp h.mono
    intro m seeded hm
    rw [hmeta] at hm
    cases hm
    rfl
  unfold persistUnseeded
  apply Triple.ite
  · exact fun _ => Triple.pure fun w h => h.1
  · rintro -
    apply Triple.write
    · exact fun w h => h.1
    · exact hput
    · exact hput

theorem swept_ensureIndex {state : UInt64 × Bool} : Triple admitted
    (fun w => Serving i w ∧ SweptClean i w ∧ w.metaDocs i.hashAlias = some state) (ensureIndex i)
    (fun _ => SweptClean i) (SweptClean i) := by
  unfold ensureIndex
  apply Triple.seq (R := fun w =>
    Serving i w ∧ SweptClean i w ∧ w.metaDocs i.hashAlias = some state)
  · exact preserves_refuseConcreteIndex.weaken (fun _ => id) (fun _ _ => id) fun w h => h.2.1
  apply Triple.bind (R := fun found w => found = state ∧
    Serving i w ∧ SweptClean i w ∧ w.metaDocs i.hashAlias = some state)
  · exact (activeGeneration_of_metaDocs fun w h => h.2.2).weaken (fun _ => id) (fun _ _ => id)
      fun w h => h.2.1
  intro found
  apply Triple.assume
  rintro rfl
  obtain ⟨n, marked⟩ := found
  apply Triple.seq (R := fun w => (Serving i w ∧
      (marked = true → w.metaDocs i.hashAlias = some (n, true))) ∧ SweptClean i w ∧
    w.metaDocs i.hashAlias = some (n, marked) ∧
    w.physical i.logical = some (generationName i.hashAlias n))
  · apply Triple.locally
    rintro w ⟨hs, h, hmeta⟩
    have hnamed : ∀ m seeded, w.metaDocs i.hashAlias = some (m, seeded) → m = n := by
      intro m seeded hm
      rw [hmeta] at hm
      cases hm
      rfl
    exact ⟨⟨hs.announce fun m hm => hnamed m true hm, fun hmarked => hmarked ▸ hmeta⟩,
      h.announce hnamed, hmeta, Cluster.physical_announce_self ..⟩
  apply Triple.bind
  · exact (serving_ensureGeneration.and (swept_ensureGeneration (.inl ⟨marked, rfl⟩))).weaken
      (fun _ => id) (fun _ _ => id) fun w h => h.2
  intro seeded
  apply Triple.seq
  · exact (serving_persistUnseeded.and swept_persistUnseeded).weaken (fun _ => id) (fun _ _ => id)
      fun w h => h.2
  exact swept_serveUnlessRebuilding.strengthen fun w h => ⟨h.2, h.1.2.2⟩

theorem swept_ensureGeneration_first {marked : Bool} : Triple (· = .none)
    (fun w => SweptClean i w ∧ w.metaDocs i.hashAlias = none ∧
      w.physical i.logical = some (generationName i.hashAlias n))
    (ensureGeneration (generationName i.hashAlias n) marked)
    (fun _ w => Swept i (· = n) w ∧ w.metaDocs i.hashAlias = none ∧
      w.physical i.logical = some (generationName i.hashAlias n))
    (SweptClean i) := by
  unfold ensureGeneration indexExists
  apply Triple.read fun w h => h.1
  intro found
  apply Triple.ite
  · exact fun _ => Triple.pure fun w h => ⟨h.2.1.mono, h.2.2⟩
  · rintro -
    apply Triple.seq (R := fun w => Swept i (· = n) w ∧ w.metaDocs i.hashAlias = none ∧
      w.physical i.logical = some (generationName i.hashAlias n))
    · apply Triple.certain
      · rintro w u w' ⟨-, h, hmeta, hp⟩ heffect
        obtain ⟨-, rfl | ⟨-, rfl⟩⟩ := addIndex_eq_ok heffect
        · exact ⟨h.mono, hmeta, hp⟩
        · exact ⟨h.mono.create hp (.inr rfl), hmeta, hp⟩
      · exact fun w _ h _ => h.2.1
    · exact Triple.pure fun w => id

theorem swept_persistUnseeded_first {E : Cluster → Prop} : Triple (· = .none)
    (fun w => seeded = false ∧ Swept i (· = n) w ∧ w.metaDocs i.hashAlias = none ∧
      w.physical i.logical = some (generationName i.hashAlias n))
    (persistUnseeded i n seeded) (fun _ => SweptClean i) E := by
  apply Triple.assume
  rintro rfl
  apply Triple.certain
  · rintro w u w' ⟨h, hmeta, hp⟩ ⟨⟩
    apply swept_putMeta _ hp h
    intro m seeded hm
    rw [hmeta] at hm
    cases hm
  · exact fun w _ _ => nofun

theorem swept_ensureIndex_first : Triple (· = .none)
    (fun w => Serving i w ∧ SweptClean i w ∧ w.metaDocs i.hashAlias = none) (ensureIndex i)
    (fun _ => SweptClean i) (SweptClean i) := by
  unfold ensureIndex
  apply Triple.seq (R := fun w => Serving i w ∧ SweptClean i w ∧ w.metaDocs i.hashAlias = none)
  · exact preserves_refuseConcreteIndex.weaken (fun _ => id) (fun _ _ => id) fun w h => h.2.1
  apply Triple.bind (R := fun found w => found.2 = false ∧
    Serving i w ∧ SweptClean i w ∧ w.metaDocs i.hashAlias = none)
  · exact activeGeneration_first.weaken (fun _ => id) (fun _ _ => id) fun w h => h.2.1
  rintro ⟨n, marked⟩
  apply Triple.assume
  rintro hmarked
  apply Triple.seq (R := fun w => (Serving i w ∧
      (marked = true → w.metaDocs i.hashAlias = some (n, true))) ∧ SweptClean i w ∧
    w.metaDocs i.hashAlias = none ∧ w.physical i.logical = some (generationName i.hashAlias n))
  · apply Triple.locally
    rintro w ⟨hs, h, hmeta⟩
    have hnamed : ∀ m seeded, w.metaDocs i.hashAlias = some (m, seeded) → m = n := by
      intro m seeded hm
      rw [hmeta] at hm
      cases hm
    exact ⟨⟨hs.announce fun m hm => hnamed m true hm, fun h => absurd (h.symm.trans hmarked)
      (by decide)⟩, h.announce hnamed, hmeta, Cluster.physical_announce_self ..⟩
  apply Triple.bind
  · exact (serving_ensureGeneration.and swept_ensureGeneration_first).weaken
      (fun _ => id) (fun _ _ => id) fun w h => h.2
  intro seeded
  apply Triple.seq
  · apply (serving_persistUnseeded.and (swept_persistUnseeded_first (E := SweptClean i))).weaken
    · rintro w ⟨⟨hs, hmeta⟩, h⟩
      refine ⟨⟨hs, hmeta⟩, ?_, h⟩
      rcases seeded with _ | _
      · rfl
      · have := hmeta rfl
        rw [h.2.1] at this
        cases this
    · exact fun _ _ => id
    · exact fun w h => h.2
  exact swept_serveUnlessRebuilding.strengthen fun w h => ⟨h.2, h.1.2.2⟩

/-- With every generation held by the alias there is room for another. -/
theorem not_wrapped_of_served (hs : Serving i w) (halone : Alone i w)
    (hserved : ∀ n, generationName i.hashAlias n ∈ w.indices →
      generationName i.hashAlias n ∈ w.aliases i.hashAlias) :
    ¬Wrapped i.hashAlias w.indices := by
  rintro ⟨⟨last, hlast, hparse⟩, first, hfirst, hparse'⟩
  have hheld := hserved _ (halone.canonical last hlast _ hparse ▸ hlast)
  have hheld' := hserved _ (halone.canonical first hfirst _ hparse' ▸ hfirst)
  rcases hs.holders with hnone | ⟨m, hm⟩
  · rw [hnone] at hheld
    cases hheld
  · rw [hm, List.mem_singleton, generationName_inj] at hheld hheld'
    exact absurd (hheld.trans hheld'.symm) (by decide)

theorem swept_reindex : Triple admitted
    (fun w => (Serving i w ∧ Alone i w) ∧ SweptClean i w ∧
      ∀ n, generationName i.hashAlias n ∈ w.indices →
        generationName i.hashAlias n ∈ w.aliases i.hashAlias) (reindex i)
    (fun _ => SweptClean i) (SweptClean i) := by
  unfold reindex
  apply Triple.bind (R := fun n w => (SweptClean i w ∧ ∀ n, generationName i.hashAlias n ∈
    w.indices → generationName i.hashAlias n ∈ w.aliases i.hashAlias) ∧
    generationName i.hashAlias n ∉ w.indices)
  · unfold stageGeneration listGenerations
    apply Triple.read fun w h => h.2.1
    intro existing
    apply Triple.seq (R := fun w => (SweptClean i w ∧ ∀ n, generationName i.hashAlias n ∈
      w.indices → generationName i.hashAlias n ∈ w.aliases i.hashAlias) ∧
      generationName i.hashAlias (nextGeneration existing i.hashAlias) ∉ w.indices)
    · apply Triple.locally
      rintro w ⟨rfl, ⟨hs, halone⟩, h, hserved⟩
      exact ⟨⟨h.note _, hserved⟩, fun hmem =>
        parseGeneration_ne_listed (not_wrapped_of_served hs halone hserved) hmem
          (parseGeneration_generationName _ _)⟩
    · exact Triple.pure fun w => id
  · intro n
    have hput : ∀ w, ((SweptClean i w ∧ ∀ n, generationName i.hashAlias n ∈ w.indices →
        generationName i.hashAlias n ∈ w.aliases i.hashAlias) ∧
          generationName i.hashAlias n ∉ w.indices) →
        SweptClean i (w.putMeta i.hashAlias n false) := by
      rintro w ⟨⟨-, hserved⟩, hfresh⟩
      exact Swept.putMeta (fun m hm => .inl (hserved m hm)) fun p hn => absurd hn hfresh
    apply Triple.write
    · exact fun w h => h.1.1
    · exact hput
    · exact hput

theorem swept_deleteIndex {stale : String} {p : Option String} : Triple admitted
    (fun w => Swept i more w ∧ w.physical i.logical = p) (deleteIndex stale)
    (fun _ w => Swept i more w ∧ w.physical i.logical = p) (Swept i more) :=
  (preserves_deleteIndex fun _ h => ⟨h.1.drop stale, h.2⟩).weaken (fun _ => id) (fun _ _ => id)
    fun _ h => h.1

/-- The call of a process that writes to the one generation the alias is on, if it is on any. -/
theorem swept_markGeneration_alone : Triple admitted
    (fun w => (SweptClean i w ∧ (w.aliases i.hashAlias = [] ∨
      w.aliases i.hashAlias = [generationName i.hashAlias n])) ∧
      w.physical i.logical = some (generationName i.hashAlias n))
    (markGeneration i i.hashAlias (generationName i.hashAlias n)) (fun _ => SweptClean i)
    (SweptClean i) := by
  unfold markGeneration
  apply Triple.seq (R := fun w => (SweptClean i w ∧ (w.aliases i.hashAlias = [] ∨
    w.aliases i.hashAlias = [generationName i.hashAlias n])) ∧
    w.physical i.logical = some (generationName i.hashAlias n))
  · exact Triple.locally fun w h => ⟨⟨h.1.1.note _, h.1.2⟩, h.2⟩
  apply (preserves_addressable fun w h => h.1.1).seq
  apply (preserves_addressable fun w h => h.1.1).seq
  apply Triple.read fun w h => h.1.1
  intro holders
  apply Triple.seq (R := fun w => SweptClean i w ∧
    w.physical i.logical = some (generationName i.hashAlias n))
  · apply (swept_tryEnsureAlias.and (frame_tryEnsureAlias (R := fun _ _ physical =>
      physical i.logical = some (generationName i.hashAlias n)))).weaken
    · exact fun w h => h.2
    · exact fun _ w h => ⟨h.1.1, h.2⟩
    · exact fun w h => h.1.1
  apply Triple.seq (R := fun w => SweptClean i w ∧
    w.physical i.logical = some (generationName i.hashAlias n))
  · exact ((Swept.framed (convenienceAlias_ne i)).tryEnsureAlias.and
      (frame_tryEnsureAlias (R := fun _ _ physical =>
        physical i.logical = some (generationName i.hashAlias n)))).attempt
  apply Triple.seq (R := fun w => SweptClean i w ∧
    w.physical i.logical = some (generationName i.hashAlias n))
  · exact Triple.forM_mem fun stale _ => swept_deleteIndex
  · rw [parseGeneration_generationName]
    apply Triple.write
    · exact fun w h => h.1
    · exact fun w h => swept_putMeta_of_written h.2 h.1 true
    · exact fun w h => swept_putMeta_of_written h.2 h.1 true

/-- The call without faults stops before it moves the alias or not at all. -/
theorem swept_markGeneration : Triple (· = .none)
    (fun w => (Serving i w ∧ Unaliased i w) ∧ SweptClean i w)
    (markGeneration i i.hashAlias (generationName i.hashAlias n)) (fun _ _ => True)
    (SweptClean i) := by
  unfold markGeneration
  apply Triple.seq (R := fun w => (Serving i w ∧ Unaliased i w) ∧ SweptClean i w)
  · exact Triple.locally fun w h => ⟨⟨h.1.1.note _ nofun nofun, h.1.2⟩, h.2.note _⟩
  apply (preserves_addressable fun w h => h.2).seq
  apply (preserves_addressable fun w h => h.2).seq
  apply Triple.read fun w h => h.2
  intro holders
  apply Triple.strengthen (P := fun w => (∀ holder ∈ holders, ∃ m,
    holder = generationName i.hashAlias m) ∧ Unaliased i w ∧ SweptClean i w)
  · apply Triple.assume
    intro hholders
    apply Triple.seq (R := Unaliased i)
    · apply (certain_tryEnsureAlias (R := fun w => Unaliased i w ∧ SweptClean i w)
        (Q := Unaliased i) ?_ ?_).weaken
      · exact fun w => id
      · exact fun _ w => id
      · exact fun w h => h.2
      · exact fun w h => h.1
      · exact fun w holders h => h.1.setAlias le_rfl
    apply Triple.seq (R := Unaliased i)
    · apply Triple.attempt
      apply preserves_tryEnsureAlias
      exact fun w _ _ h _ _ => h.setAlias i.length_hashAlias.1.le
    apply Triple.seq (R := Unaliased i)
    · apply Triple.forM_mem
      intro stale hstale
      obtain ⟨m, rfl⟩ := hholders stale (List.mem_of_mem_filter hstale)
      apply Triple.certain
      · intro w u w' h heffect
        rcases removeIndex_eq_ok heffect with rfl | ⟨-, rfl⟩
        · exact fun n => by simp [h n]
        · exact h
      · intro w e h heffect
        unfold Cluster.removeIndex at heffect
        rw [h m] at heffect
        split at heffect <;> simp at heffect
    · apply Triple.certain
      · exact fun _ _ _ _ _ => trivial
      · exact fun w _ _ => nofun
  · rintro w ⟨hholders, ⟨h, hunaliased⟩, hswept⟩
    exact ⟨fun holder hmem => (h.served holder (hholders ▸ hmem)).1, hunaliased, hswept⟩

end Calls

theorem SweptClean.init (h : (generations i).init w) : SweptClean i w := by
  obtain ⟨⟨hindices, -, hmeta, -, -⟩, -⟩ := h
  have hnone : ∀ n, generationName i.hashAlias n ∉ w.indices := by
    intro n hn
    have := hindices _ hn
    rw [parseGeneration_generationName] at this
    cases this
  exact ⟨fun n hn => absurd hn (hnone n), fun n _ _ hn => absurd hn (hnone n)⟩

theorem swept_markSeeded_unannounced : Triple admitted
    (fun w => w.physical i.logical = none ∧ SweptClean i w) (markSeeded i)
    (fun _ => SweptClean i) (SweptClean i) := by
  apply markSeeded_of_markGeneration fun w h => h.2
  intro generation hashAlias halias
  apply Triple.strengthen (P := fun w => hashAlias ≠ i.hashAlias ∧ SweptClean i w)
  · exact Triple.assume fun hother => (Swept.framed hother).markGeneration
  · rintro w ⟨hgeneration, hp, h⟩
    rw [hp, Option.getD_none] at hgeneration
    refine ⟨?_, h⟩
    rintro rfl
    exact hashAliasOf_logical_ne i (hgeneration ▸ halias)

theorem SweptClean.markSeeded (hs : Serving i w) (halone : Alone i w) (h : SweptClean i w)
    {faults : List Fault} (htidy : Tidy i w (.markSeeded faults)) :
    SweptClean i ((markSeeded i).runWith w faults).2.1 := by
  have hall : ∀ f ∈ faults, (fun _ : Fault => True) f := fun _ _ => trivial
  rcases hp : w.physical i.logical with _ | p
  · exact swept_markSeeded_unannounced.always ⟨hp, h⟩
  · obtain ⟨n, rfl⟩ := halone.written p hp
    rcases htidy with hserved | hcertain
    · refine (markSeeded_of_written (fun w h => h.1.1) (fun w h => h.2)
        swept_markGeneration_alone).always ⟨⟨h, ?_⟩, hp⟩
      rcases hs.holders with hnone | ⟨m, hm⟩
      · exact .inl hnone
      · have hmn := hserved _ (hm ▸ List.mem_singleton_self _)
        rw [hp, Option.some.injEq, generationName_inj] at hmn
        exact .inr (hmn ▸ hm)
    · rcases hr : (Flusso.markSeeded i).runWith w faults with ⟨e | ⟨⟩, w', rest⟩
      · exact (markSeeded_of_written (P := fun w => ((Serving i w ∧ Unaliased i w) ∧
          SweptClean i w) ∧ w.physical i.logical = some (generationName i.hashAlias n))
          (fun w h => h.1.2) (fun w h => h.2)
          (swept_markGeneration.strengthen fun w h => h.1)).error hcertain
            ⟨⟨⟨hs, halone.unaliased⟩, h⟩, hp⟩ hr
      · have hw' : (i.call w (.markSeeded faults)) = w' := by rw [SinkIndex.call, hr]
        have hafter : Serving i w' := (markSeeded_of_written (fun w h => h.1) (fun w h => h.2)
          (serving_markGeneration (convenienceAlias_ne i))).ok hall ⟨hs, hp⟩ hr
        exact .of_onlyActive hafter (hw' ▸ halone.call (.markSeeded faults))
          ((onlyActive_iff_held hs halone hp hr).mpr (h.held hp))

theorem SweptClean.step {a : SinkCallStep} (hs : Serving i w) (halone : Alone i w)
    (h : SweptClean i w) (htidy : Tidy i w a) (hstep : (generations i).step w a = some w') :
    SweptClean i w' := by
  cases a with
  | ensureIndex faults =>
    cases hstep
    rcases hmeta : w.metaDocs i.hashAlias with _ | state
    · exact swept_ensureIndex_first.world (htidy hmeta) ⟨hs, h, hmeta⟩
    · exact swept_ensureIndex.always ⟨hs, h, hmeta⟩
  | reindex faults =>
    cases hstep
    exact swept_reindex.always ⟨⟨hs, halone⟩, h, htidy⟩
  | markSeeded faults =>
    cases hstep
    exact h.markSeeded hs halone htidy
  | restart =>
    cases hstep
    exact h.restart

theorem swept_of_reachable (h : (generations i).ReachableWith (Tidy i) w) : SweptClean i w :=
  h.invariant (fun _ => SweptClean.init) fun _ _ _ hr hswept =>
    SweptClean.step (serving_of_reachable hr.reachable) (alone_of_reachable hr.reachable) hswept

/-- In every reachable state a successful `mark_seeded` leaves only the active generation exactly
when it began with every generation written to or held by the alias; in every run that loses
sight of none it does. -/
theorem markSeeded_onlyActive_iff :
    (∀ w, (generations i).Reachable w → ∀ p faults w' rest, w.physical i.logical = some p →
      (markSeeded i).runWith w faults = (.ok (), w', rest) → (OnlyActive i w' ↔ Held i w)) ∧
    ∀ w, (generations i).ReachableWith (Tidy i) w → ∀ p faults w' rest, w.physical i.logical = some p →
      (markSeeded i).runWith w faults = (.ok (), w', rest) → OnlyActive i w' := by
  constructor
  · intro w h p faults w' rest hp hok
    exact onlyActive_iff_held (serving_of_reachable h) (alone_of_reachable h) hp hok
  · intro w h p faults w' rest hp hok
    have hs := serving_of_reachable h.reachable
    have halone := alone_of_reachable h.reachable
    exact (onlyActive_iff_held hs halone hp hok).mpr ((swept_of_reachable h).held hp)

end Tidy

theorem reachable_empty : (generations users).Reachable Cluster.empty :=
  .init ⟨untouched_empty users, fun _ => rfl⟩

theorem retry_interruptedRebuild : ∃ w,
    (generations users).run Cluster.empty interruptedRebuild = some w ∧
    w.physical users.logical = some "users_0a1b2c3d_2" ∧
    ((markSeeded users).runWith w []).1.isOk = true ∧
    ((markSeeded users).runWith w []).2.1.indices = ["users_0a1b2c3d_1", "users_0a1b2c3d_2"] := by
  apply Transition.Machine.exists_of_run
  decide +kernel

/-- A swap whose answer is lost makes the retry forget the generation it superseded. -/
theorem not_onlyActive_of_retry : ¬ ∀ w, (generations users).Reachable w →
    ∀ p faults w' rest, w.physical users.logical = some p →
      (markSeeded users).runWith w faults = (.ok (), w', rest) → OnlyActive users w' := by
  intro h
  obtain ⟨w, hrun, hp, hok, hindices⟩ := retry_interruptedRebuild
  rcases hr : (markSeeded users).runWith w [] with ⟨e | ⟨⟩, w', rest⟩
  · rw [hr] at hok
    cases hok
  · rw [hr] at hindices
    obtain ⟨g, -, honly⟩ := h w (reachable_empty.run hrun) _ [] w' rest hp hr
    have hone : 1 = g := (honly 1).mp (by rw [hindices]; decide +kernel)
    have htwo : 2 = g := (honly 2).mp (by rw [hindices]; decide +kernel)
    exact absurd (hone.trans htwo.symm) (by decide)

/-- A rebuild that meets no fault. -/
def rebuild : List SinkCallStep :=
  [.ensureIndex [], .markSeeded [], .reindex [], .ensureIndex []]

theorem onlyActive_of_rebuild : ∃ w w' rest,
    (generations users).run Cluster.empty rebuild = some w ∧
    (markSeeded users).runWith w [] = (.ok (), w', rest) ∧ OnlyActive users w' := by
  have hrun : ∃ w, (generations users).run Cluster.empty rebuild = some w ∧
      (w.indices = ["users_0a1b2c3d_1", "users_0a1b2c3d_2"] ∧
        w.physical users.logical = some "users_0a1b2c3d_2" ∧
        w.aliases users.hashAlias = ["users_0a1b2c3d_1"] ∧
        ((markSeeded users).runWith w []).1.isOk = true) := by
    apply Transition.Machine.exists_of_run
    decide +kernel
  obtain ⟨w, hw, hindices, hp, hserved, hok⟩ := hrun
  rcases hr : (markSeeded users).runWith w [] with ⟨e | ⟨⟩, w', rest⟩
  · rw [hr] at hok
    cases hok
  · have hheld : Held users w := by
      intro n hn
      rw [hindices] at hn
      rcases List.mem_cons.mp hn with hone | htwo
      · exact .inr (by rw [hserved, hone]; exact List.mem_cons_self)
      · exact .inl (by rw [hp, List.mem_singleton.mp htwo])
    exact ⟨w, w', rest, hw, hr, (markSeeded_onlyActive_iff.1 w (reachable_empty.run hw) _ [] w'
      rest hp hr).mpr hheld⟩

end Flusso
