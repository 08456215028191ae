import Flusso.Engine.SinkEngine

/-! # What a sink engine's steps do

One inversion per step of the engine, and the invariant of its lane: the channel
carries the published log, and the delivery the engine holds is the first one
not acknowledged.
-/

namespace Flusso.SinkSide

variable {V : Type*} {o : EngineOptions} {s s' : SinkSide V}

section Cases

theorem stage_cases (h : s.stage o = some s') :
    ∃ continuity, s.phase = .unstaged continuity ∧
      s' = { s with phase := .calling (o.mappings.map .ensureIndex) (.ensured continuity) } := by
  unfold stage at h
  split at h
  · next continuity hphase => exact ⟨continuity, hphase, (Option.some.inj h).symm⟩
  · cases h

/-- A call changes the indexes of the sink and nothing else of its side. -/
theorem applyCall_frame {c : SinkCall} (h : s.applyCall c = some s') :
    s' = { s with indexes := s'.indexes, stale := s'.stale } := by
  cases c with
  | ensureIndex index => cases h; rfl
  | reindex index => cases h; rfl
  | markSeeded index =>
    obtain ⟨state, -, rfl⟩ := Option.map_eq_some_iff.mp h
    rfl

theorem call_cases (h : s.call = some s') :
    ∃ c calls next side, s.phase = .calling (c :: calls) next ∧ s.applyCall c = some side ∧
      s' = { side with phase := .calling calls next } := by
  unfold call at h
  split at h
  · next c calls next hphase =>
    obtain ⟨side, hside, rfl⟩ := Option.map_eq_some_iff.mp h
    exact ⟨c, calls, next, side, hphase, hside, rfl⟩
  · cases h

theorem requestUnseeded_cases (continuity : Continuity) :
    s.requestUnseeded o continuity = { s with phase := .staged } ∨
      o.skipBackfill = false ∧ s.unseeded o ≠ [] ∧ s.requestUnseeded o continuity =
        { s with phase := .requesting (s.unseeded o) (some continuity) } := by
  unfold requestUnseeded
  split
  · exact .inl rfl
  · next h =>
    simp only [Bool.or_eq_true, List.isEmpty_iff, not_or, Bool.not_eq_true] at h
    exact .inr ⟨h.1, h.2, rfl⟩

/-- The indexes a fresh continuity makes a sink rebuild. -/
def staleSeeds (o : EngineOptions) (s : SinkSide V) : List IndexName :=
  o.mappings.filter fun index => s.isSeeded index

theorem advance_cases (h : s.advance o = some s') :
    (∃ continuity, s.phase = .calling [] (.ensured continuity) ∧ s.backfill = false ∧
      s' = { s with phase := .staged }) ∨
    (∃ continuity, s.phase = .calling [] (.ensured continuity) ∧ s.backfill = true ∧
      continuity = .fresh ∧ o.skipBackfill = false ∧
      s' = { s with phase := .calling (rebuildCalls (s.staleSeeds o)) (.rebuilt continuity) }) ∨
    (∃ continuity, (s.phase = .calling [] (.ensured continuity) ∧ s.backfill = true ∧
        (continuity = .fresh → o.skipBackfill = false → s.staleSeeds o = []) ∨
          s.phase = .calling [] (.rebuilt continuity)) ∧
      s' = s.requestUnseeded o continuity) ∨
    (∃ staged, s.phase = .calling [] (.reindexed staged) ∧
      (staged = [] ∧ s' = { s with phase := .running } ∨
        staged ≠ [] ∧ s' = { s with phase := .requesting staged none })) ∨
    (∃ ticket indexes, s.phase = .calling [] (.seeded ticket indexes) ∧
      s' = { s with
        outstanding := s.outstanding.filter fun index => index ∉ indexes
        phase := .acking ticket }) := by
  unfold advance at h
  split at h
  · next continuity hphase =>
    split at h
    · next hback =>
      refine .inl ⟨continuity, hphase, by simpa using hback, (Option.some.inj h).symm⟩
    · next hback =>
      have hback : s.backfill = true := by simpa using hback
      dsimp only at h
      split at h
      · next hfresh =>
        exact .inr (.inl ⟨continuity, hphase, hback, hfresh.1, by simpa using hfresh.2.2,
          (Option.some.inj h).symm⟩)
      · next hnot =>
        refine .inr (.inr (.inl ⟨continuity, .inl ⟨hphase, hback, ?_⟩,
          (Option.some.inj h).symm⟩))
        intro hfresh hskip
        by_contra hne
        exact hnot ⟨hfresh, hne, by simpa using hskip⟩
  · next continuity hphase =>
    exact .inr (.inr (.inl ⟨continuity, .inr hphase, (Option.some.inj h).symm⟩))
  · next staged hphase =>
    refine .inr (.inr (.inr (.inl ⟨staged, hphase, ?_⟩)))
    split at h
    · next hempty => exact .inl ⟨List.isEmpty_iff.mp hempty, (Option.some.inj h).symm⟩
    · next hne => exact .inr ⟨by simpa using hne, (Option.some.inj h).symm⟩
  · next ticket indexes hphase =>
    exact .inr (.inr (.inr (.inr ⟨ticket, indexes, hphase, (Option.some.inj h).symm⟩)))
  · cases h

theorem start_cases (h : s.start = some s') :
    s.phase = .staged ∧ s' = { s with phase := .running } := by
  unfold start at h
  split at h
  · next hphase => exact ⟨hphase, (Option.some.inj h).symm⟩
  · cases h

theorem recv_cases (h : s.recv = some s') :
    ∃ ticket entry lane, s.phase = .running ∧ s.lane.recv = some ((ticket, entry), lane) ∧
      ((∃ n indexes, entry = .complete n indexes ∧ s' = { s with
          lane, phase := .calling (indexes.map .markSeeded) (.seeded ticket indexes) }) ∨
        (∀ n indexes, entry ≠ .complete n indexes) ∧
          s' = { s with lane, phase := .processing ticket entry }) := by
  unfold recv at h
  split at h
  · next ticket entry lane hphase hrecv =>
    refine ⟨ticket, entry, lane, hphase, hrecv, ?_⟩
    split at h
    · next n indexes => exact .inl ⟨n, indexes, rfl, (Option.some.inj h).symm⟩
    · next hne => exact .inr ⟨hne, (Option.some.inj h).symm⟩
  · cases h

theorem reindex_cases {indexes : List IndexName} (h : s.reindex o indexes = some s') :
    s.phase = .running ∧ (s.backfill = false ∧ s' = s ∨ s.backfill = true ∧ ∃ staged,
      (∀ index ∈ staged, index ∈ o.mappings ∧ index ∉ s.outstanding) ∧
        s' = { s with phase := .calling (rebuildCalls staged) (.reindexed staged) }) := by
  unfold reindex at h
  split at h
  · next hphase =>
    refine ⟨hphase, ?_⟩
    split at h
    · next hback => exact .inl ⟨by simpa using hback, (Option.some.inj h).symm⟩
    · next hback =>
      refine .inr ⟨by simpa using hback, _, fun index hmem => ?_, (Option.some.inj h).symm⟩
      obtain ⟨hmapped, hout⟩ := List.mem_filter.mp hmem
      exact ⟨by simpa using (List.mem_filter.mp hmapped).2, by simpa using hout⟩
  · cases h

theorem fail_cases (h : s.fail = some s') :
    ∃ continuity, s.phase.restart = some continuity ∧
      (s.phase.held = none ∧ s' = { s with phase := .unstaged continuity } ∨
        ∃ ticket, s.phase.held = some ticket ∧
          s' = { s with lane := s.lane.release ticket, phase := .unstaged continuity }) := by
  obtain ⟨continuity, hrestart, rfl⟩ := Option.map_eq_some_iff.mp h
  refine ⟨continuity, hrestart, ?_⟩
  cases hheld : s.phase.held with
  | none => exact .inl ⟨rfl, rfl⟩
  | some ticket => exact .inr ⟨ticket, rfl, rfl⟩

theorem ack_cases (h : s.ack = some s') :
    ∃ ticket, s.phase = .acking ticket ∧
      s' = { s with lane := s.lane.ack ticket, phase := .running } := by
  unfold ack at h
  split at h
  · next ticket hphase => exact ⟨ticket, hphase, (Option.some.inj h).symm⟩
  · cases h

theorem publish_cases {entry : Entry V} (h : s.publish entry = some s') :
    ∃ lane, s.lane.publish entry = some lane ∧
      s' = { s with lane, log := s.log ++ [entry] } := by
  obtain ⟨lane, hlane, rfl⟩ := Option.map_eq_some_iff.mp h
  exact ⟨lane, hlane, rfl⟩

variable [DecidableEq V] [ValueText V] {requests : List (BulkRequest V)}

theorem commit_cases (h : s.commit o requests = some s') :
    ∃ ticket entry, s.phase = .processing ticket entry ∧
      requests.flatMap BulkRequest.actions = entry.envelopes ∧ (∀ r ∈ requests, r.Valid) ∧
      (∀ r ∈ requests, ∀ w ∈ r.rejected, o.failurePolicy w.index = .skip) ∧
      s' = { s with
        applied := s.applied ++ requests.flatMap BulkRequest.executed
        flushes := s.flushes ++ [{
          ticket, target := s.target, rejected := requests.flatMap BulkRequest.rejected }]
        phase := .acking ticket } := by
  unfold commit at h
  split at h
  · next ticket entry hphase =>
    split at h
    · next hguard =>
      exact ⟨ticket, entry, hphase, hguard.1, hguard.2.1, hguard.2.2, (Option.some.inj h).symm⟩
    · cases h
  · cases h

theorem commitFail_cases (h : s.commitFail requests = some s') :
    ∃ ticket entry, s.phase = .processing ticket entry ∧
      requests.flatMap BulkRequest.actions <+: entry.envelopes ∧ (∀ r ∈ requests, r.Valid) ∧
      s' = { s with
        applied := s.applied ++ requests.flatMap BulkRequest.executed
        lane := s.lane.release ticket
        phase := .unstaged .resumed } := by
  unfold commitFail at h
  split at h
  · next ticket entry hphase =>
    split at h
    · next hguard =>
      refine ⟨ticket, entry, hphase, hguard.1, hguard.2, ?_⟩
      simp only [fail, hphase, EnginePhase.restart, EnginePhase.held, Option.map_some,
        Option.some.injEq] at h
      exact h.symm
    · cases h
  · cases h

end Cases

end Flusso.SinkSide
