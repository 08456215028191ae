import Flusso.Sink.Generations

/-! # What calls leave alone

A call points the aliases of its index, creates and drops generations of one hash
alias, and writes the meta document of that alias. A property none of these effects
breaks survives the call wherever it stops.
-/

namespace Flusso

open Faulty Function

variable {admitted : Fault → Prop} {i : SinkIndex} {hashAlias : String} {P R : Cluster → Prop}

/-- What the effects of the calls on an index, behind a hash alias, all keep. -/
structure Framed (i : SinkIndex) (hashAlias : String) (R : Cluster → Prop) : Prop where
  asked : ∀ w index, R w → R (w.note (.asked index))
  created : ∀ w n, R w → R { w with indices := w.indices ++ [generationName hashAlias n] }
  recorded : ∀ w n seeded, R w → R (w.putMeta hashAlias n seeded)
  moved : ∀ w target holders, R w → R (w.setAlias hashAlias target holders)
  named : ∀ w target holders, R w → R (w.setAlias i.convenienceAlias target holders)
  dropped : ∀ w stale, (parseGeneration hashAlias stale).isSome = true → R w → R (w.drop stale)

section Requests

theorem preserves_tryEnsureAlias {aliasName target : String}
    (hset : ∀ w actions holders, R w → planAliasActions target (w.aliases aliasName) = some actions →
      actions.foldlM (applyAliasAction w.indices) (w.aliases aliasName) = .ok holders →
      R (w.setAlias aliasName target holders)) :
    Triple admitted R (tryEnsureAlias aliasName target) (fun _ => R) R := by
  unfold tryEnsureAlias aliasHolders
  apply Triple.read fun w => id
  intro holders
  split
  · exact Triple.pure fun w h => h.2
  · next actions hplan =>
    have hmove : ∀ w u w', w.aliases aliasName = holders ∧ R w →
        w.applyAliasActions aliasName target actions = .ok (u, w') → R w' := by
      rintro w u w' ⟨rfl, hR⟩ heffect
      obtain ⟨holders, hfold, rfl⟩ := eq_setAlias_of_applyAliasActions heffect
      exact hset w actions holders hR hplan hfold
    apply Triple.remote
    · exact fun w h => h.2
    · exact hmove
    · exact fun _ => hmove

theorem frame_tryEnsureAlias {aliasName target : String}
    {R : List String → (String → Option (UInt64 × Bool)) → (String → Option String) → Prop} :
    Triple admitted (fun w => R w.indices w.metaDocs w.physical) (tryEnsureAlias aliasName target)
      (fun _ w => R w.indices w.metaDocs w.physical)
      (fun w => R w.indices w.metaDocs w.physical) :=
  preserves_tryEnsureAlias fun _ _ _ hR _ _ => hR

theorem preserves_refuseConcreteIndex :
    Triple admitted R (refuseConcreteIndex i) (fun _ => R) R := by
  unfold refuseConcreteIndex concreteIndexExists
  apply Triple.read fun w => id
  intro found
  apply Triple.ite
  · exact fun _ => Triple.throw fun w h => h.2
  · exact fun _ => Triple.pure fun w h => h.2

theorem preserves_addressable {index : String} {failure : SinkError} {E : Cluster → Prop}
    (hR : ∀ w, R w → E w) : Triple admitted R
      (remote failure fun w : Cluster =>
        if w.Addressable index then .ok ((), w) else .error failure)
      (fun _ => R) E := by
  apply Triple.remote hR
  · intro w u w' h heffect
    split at heffect
    · cases heffect
      exact h
    · cases heffect
  · rintro - w u w' h heffect
    split at heffect
    · cases heffect
      exact hR w h
    · cases heffect

theorem preserves_stageGeneration
    (hstaged : ∀ w n, R w → R (w.note (.staged hashAlias n w.indices))) :
    Triple admitted R (stageGeneration hashAlias) (fun _ => R) R := by
  unfold stageGeneration listGenerations
  apply Triple.read fun w => id
  intro existing
  apply Triple.seq (R := R)
  · exact Triple.locally fun w h => hstaged w _ h.2
  · exact Triple.pure fun w => id

theorem preserves_activeGeneration (hP : ∀ w, P w → R w)
    (hstage : Triple admitted (fun w => w.metaDocs i.hashAlias = none ∧ P w)
      (stageGeneration i.hashAlias) (fun _ => R) R) :
    Triple admitted P (activeGeneration i) (fun _ => R) R := by
  unfold activeGeneration readIndexMeta
  apply Triple.read hP
  rintro (_ | state)
  · apply hstage.bind
    exact fun _ => Triple.pure fun w => id
  · exact Triple.pure fun w h => hP w h.2

theorem preserves_ensureGeneration {index : String} {marked : Bool}
    (hcreated : ∀ w, R w → R { w with indices := w.indices ++ [index] }) :
    Triple admitted R (ensureGeneration index marked) (fun _ => R) R := by
  unfold ensureGeneration indexExists
  apply Triple.read fun w => id
  intro found
  apply Triple.ite
  · exact fun _ => Triple.pure fun w h => h.2
  · rintro -
    have hcreate : ∀ w u w', R w → w.addIndex index = .ok (u, w') → R w' := by
      intro w u w' h heffect
      obtain ⟨-, rfl | ⟨-, rfl⟩⟩ := addIndex_eq_ok heffect
      · exact h
      · exact hcreated w h
    apply Triple.seq (R := R)
    · apply Triple.remote
      · exact fun w h => h.2
      · exact fun w u w' h => hcreate w u w' h.2
      · exact fun _ w u w' h => hcreate w u w' h.2
    · exact Triple.pure fun w => id

theorem preserves_deleteIndex {stale : String} (hdropped : ∀ w, R w → R (w.drop stale)) :
    Triple admitted R (deleteIndex stale) (fun _ => R) R := by
  have hdelete : ∀ w u w', R w → w.removeIndex stale = .ok (u, w') → R w' := by
    intro w u w' h heffect
    rcases removeIndex_eq_ok heffect with rfl | ⟨-, rfl⟩
    · exact hdropped w h
    · exact h
  apply Triple.remote
  · exact fun w => id
  · exact hdelete
  · exact fun _ => hdelete

end Requests

theorem preserves_reindex (hrecorded : ∀ w n, R w → R (w.putMeta i.hashAlias n false))
    (hstage : Triple admitted P (stageGeneration i.hashAlias) (fun _ => R) R) :
    Triple admitted P (reindex i) (fun _ => R) R := by
  unfold reindex
  apply hstage.bind
  intro n
  apply Triple.write
  · exact fun w => id
  · exact fun w => hrecorded w n
  · exact fun w => hrecorded w n

namespace Framed

theorem tryEnsureAlias {target : String} (h : Framed i hashAlias R) :
    Triple admitted R (tryEnsureAlias hashAlias target) (fun _ => R) R :=
  preserves_tryEnsureAlias fun w _ holders hR _ _ => h.moved w target holders hR

theorem ensureAlias {target : String} {E : Cluster → Prop} (h : Framed i hashAlias R) :
    Triple admitted R (ensureAlias i.convenienceAlias target) (fun _ => R) E :=
  (preserves_tryEnsureAlias fun w _ holders hR _ _ => h.named w target holders hR).attempt

theorem writeIndexMeta {n : UInt64} {seeded : Bool} (h : Framed i hashAlias R) :
    Triple admitted R (writeIndexMeta hashAlias n seeded) (fun _ => R) R := by
  apply Triple.write
  · exact fun w => id
  · exact fun w => h.recorded w n seeded
  · exact fun w => h.recorded w n seeded

theorem ensureIndex (h : Framed i i.hashAlias R)
    (hannounced : ∀ w n, R w → R (w.announce i.logical (generationName i.hashAlias n)))
    (hP : ∀ w, P w → R w)
    (hactive : Triple admitted P (activeGeneration i) (fun _ => R) R) :
    Triple admitted P (ensureIndex i) (fun _ => R) R := by
  unfold Flusso.ensureIndex
  apply Triple.seq (R := P)
  · exact preserves_refuseConcreteIndex.weaken (fun _ => id) (fun _ _ => id) hP
  apply hactive.bind
  rintro ⟨n, marked⟩
  apply Triple.seq (R := R)
  · exact Triple.locally fun w => hannounced w n
  apply Triple.bind (R := fun _ => R)
  · exact preserves_ensureGeneration fun w => h.created w n
  intro seeded
  apply Triple.seq (R := R)
  · unfold persistUnseeded
    apply Triple.ite
    · exact fun _ => Triple.pure fun w => id
    · exact fun _ => h.writeIndexMeta
  · unfold serveUnlessRebuilding aliasHolders
    apply Triple.read fun w => id
    intro holders
    apply Triple.ite
    · rintro -
      apply (h.tryEnsureAlias.strengthen fun w hw => hw.2).seq
      exact h.ensureAlias
    · exact fun _ => Triple.pure fun w hw => hw.2

theorem markGeneration {generation : String} (h : Framed i hashAlias R) :
    Triple admitted R (markGeneration i hashAlias generation) (fun _ => R) R := by
  unfold Flusso.markGeneration
  apply Triple.seq (R := R)
  · exact Triple.locally fun w => h.asked w generation
  apply (preserves_addressable fun w => id).seq
  apply (preserves_addressable fun w => id).seq
  apply Triple.read fun w => id
  intro holders
  apply (h.tryEnsureAlias.strengthen fun w hw => hw.2).seq
  apply h.ensureAlias.seq
  apply Triple.seq (R := R)
  · apply Triple.forM_mem
    intro stale hstale
    have hparse := (of_decide_eq_true (List.mem_filter.mp hstale).2).2
    exact preserves_deleteIndex fun w => h.dropped w stale hparse
  · exact h.writeIndexMeta

end Framed

theorem markSeeded_of_markGeneration {Q : Unit → Cluster → Prop} {E : Cluster → Prop}
    (hE : ∀ w, P w → E w) (h : ∀ generation hashAlias, hashAliasOf generation = some hashAlias →
      Triple admitted (fun w => (w.physical i.logical).getD i.logical = generation ∧ P w)
        (markGeneration i hashAlias generation) Q E) :
    Triple admitted P (markSeeded i) Q E := by
  unfold markSeeded physicalName
  apply Triple.bind (R := fun generation w =>
    (w.physical i.logical).getD i.logical = generation ∧ P w)
  · exact Triple.locally fun w hw => ⟨rfl, hw⟩
  · intro generation
    split
    · exact Triple.throw fun w hw => hE w hw.2
    · next hashAlias halias => exact h generation hashAlias halias

section Memory

/-- The process writes an index to generations of that index. -/
def Announced (i : SinkIndex) (w : Cluster) : Prop :=
  ∀ logical index, w.physical logical = some index →
    ∃ j : SinkIndex, j.indexPrefix = i.indexPrefix ∧ j.logical = logical ∧
      ∃ n, index = generationName j.hashAlias n

theorem framed_announced {j : SinkIndex} : Framed j hashAlias (Announced i) where
  asked _ _ h := h
  created _ _ h := h
  recorded _ _ _ h := h
  moved _ _ _ h := h
  named _ _ _ h := h
  dropped _ _ _ h := h

variable {j : SinkIndex} {w : Cluster}

theorem Announced.announce (h : Announced i w) (hj : j.indexPrefix = i.indexPrefix) (n : UInt64) :
    Announced i (w.announce j.logical (generationName j.hashAlias n)) := by
  intro logical index hindex
  rw [Cluster.physical_announce, update_apply] at hindex
  split at hindex
  · next hlogical => exact ⟨j, hj, hlogical.symm, n, (Option.some.inj hindex).symm⟩
  · exact h logical index hindex

theorem Announced.call (h : Announced i w) (hj : j.indexPrefix = i.indexPrefix)
    (a : SinkCallStep) : Announced i (j.call w a) := by
  have hstage : ∀ P : Cluster → Prop, (∀ w, P w → Announced i w) →
      Triple (fun _ => True) P (stageGeneration j.hashAlias) (fun _ => Announced i)
        (Announced i) :=
    fun P hP => (preserves_stageGeneration fun w n h => h).strengthen hP
  cases a with
  | ensureIndex faults =>
    exact (framed_announced.ensureIndex (fun w n h => h.announce hj n) (fun w => id)
      (preserves_activeGeneration (fun w => id) (hstage _ fun w h => h.2))).always h
  | reindex faults =>
    exact (preserves_reindex (fun _ _ => id) (hstage _ fun w => id)).always h
  | markSeeded faults =>
    refine Triple.always ?_ h
    exact markSeeded_of_markGeneration (fun w => id) fun generation hashAlias _ =>
      framed_announced.markGeneration.strengthen fun w h => h.2
  | restart => exact nofun

/-- An index written to behind a hash alias of the sink is a generation of the index with that
alias. -/
theorem Announced.generation (h : Announced i w) {logical index : String}
    (hindex : w.physical logical = some index) (halias : hashAliasOf index = some i.hashAlias) :
    logical = i.logical ∧ ∃ n, index = generationName i.hashAlias n := by
  obtain ⟨j, hj, hlogical, n, rfl⟩ := h logical index hindex
  rw [hashAliasOf_generationName, Option.some.injEq, SinkIndex.hashAlias_inj hj] at halias
  subst halias
  exact ⟨hlogical.symm, n, rfl⟩

end Memory

end Flusso
