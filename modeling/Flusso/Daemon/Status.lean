import Flusso.Kernel.Model
import Mathlib.Data.List.MinMax
import Mathlib.Logic.Function.Basic

/-! # The status the daemon reports

One entry per sink and one ingest side, kept current by folding the engines'
events.
-/

namespace Flusso

inductive EngineId where
  | ingest
  | sink (name : SinkName)
  deriving DecidableEq

/-- An engine's lifecycle or progress event. -/
inductive ObserverEvent where
  | liveStarted
  | changeCaptured
  | backfillRequested (sink : SinkName) (indexes : List IndexName)
  | indexSeeded (sink : SinkName) (index : IndexName)
  | sinkStarted (sink : SinkName)
  | batchCommitted (sink : SinkName) (changes envelopes : ℕ)
  | documentQuarantined (sink : SinkName)
  | engineError (engine : EngineId)
  | engineStopped (engine : EngineId)
  deriving DecidableEq

/-- Where the deployment as a whole is. -/
inductive StatusPhase where
  | starting
  | backfilling
  | live
  | stopped
  deriving DecidableEq

inductive SinkPhase where
  | starting
  | backfilling
  | live
  | failed
  | stopped
  deriving DecidableEq

/-- Where one index is, on one sink. -/
inductive IndexPhase where
  | pending
  | backfilling
  | seeded
  deriving DecidableEq

/-- An index's state on a sink, by index. -/
abbrev IndexPhases := List (IndexName × IndexPhase)

namespace IndexPhases

/-- Set an index's state, adding the index when it is not there. -/
def set (m : IndexPhases) (index : IndexName) (phase : IndexPhase) : IndexPhases :=
  if index ∈ m.map Prod.fst then m.map fun entry => if entry.1 = index then (index, phase) else entry
  else m ++ [(index, phase)]

variable {m : IndexPhases} {index i : IndexName} {phase p : IndexPhase}

theorem mem_set : (i, p) ∈ m.set index phase ↔
    i = index ∧ p = phase ∨ i ≠ index ∧ (i, p) ∈ m := by
  unfold set
  split
  · next hmem =>
    simp only [List.mem_map]
    constructor
    · rintro ⟨⟨j, q⟩, hmem, heq⟩
      split at heq
      · cases heq
        exact .inl ⟨rfl, rfl⟩
      · next hne =>
        cases heq
        exact .inr ⟨hne, hmem⟩
    · rintro (⟨rfl, rfl⟩ | ⟨hne, hmem⟩)
      · obtain ⟨entry, hentry, hkey⟩ := List.mem_map.mp hmem
        exact ⟨entry, hentry, if_pos hkey⟩
      · exact ⟨(i, p), hmem, if_neg hne⟩
  · next hnot =>
    rw [List.mem_append, List.mem_singleton, Prod.mk.injEq]
    constructor
    · rintro (hmem | heq)
      · refine .inr ⟨?_, hmem⟩
        rintro rfl
        exact hnot (List.mem_map_of_mem hmem)
      · exact .inl heq
    · rintro (heq | ⟨-, hmem⟩)
      · exact .inr heq
      · exact .inl hmem

end IndexPhases

structure SinkStatus where
  phase : SinkPhase
  indexes : IndexPhases
  changesCommitted : ℕ
  envelopesApplied : ℕ
  batches : ℕ
  documentsQuarantined : ℕ
  deriving DecidableEq

namespace SinkStatus

def new (indexes : List IndexName) : SinkStatus where
  phase := .starting
  indexes := indexes.map fun index => (index, .pending)
  changesCommitted := 0
  envelopesApplied := 0
  batches := 0
  documentsQuarantined := 0

variable (s : SinkStatus)

/-- Staging ended: nothing in flight means every index is seeded. -/
def started : SinkStatus :=
  if s.indexes.any fun entry => entry.2 = .backfilling then { s with phase := .backfilling }
  else { s with phase := .live, indexes := s.indexes.map fun entry => (entry.1, .seeded) }

def backfilling (indexes : List IndexName) : SinkStatus :=
  { s with
    phase := .backfilling
    indexes := indexes.foldl (fun m index => m.set index .backfilling) s.indexes }

def seeded (index : IndexName) : SinkStatus :=
  let indexes := s.indexes.set index .seeded
  { s with
    phase := if indexes.all fun entry => entry.2 = .seeded then .live else s.phase
    indexes }

def committed (changes envelopes : ℕ) : SinkStatus :=
  { s with
    changesCommitted := s.changesCommitted + changes
    envelopesApplied := s.envelopesApplied + envelopes
    batches := s.batches + 1 }

def quarantined : SinkStatus := { s with documentsQuarantined := s.documentsQuarantined + 1 }

/-- What an event changes of one sink's entry. -/
def hear (sink : SinkName) (s : SinkStatus) : ObserverEvent → SinkStatus
  | .backfillRequested other indexes => if other = sink then s.backfilling indexes else s
  | .indexSeeded other index => if other = sink then s.seeded index else s
  | .sinkStarted other => if other = sink then s.started else s
  | .batchCommitted other changes envelopes =>
    if other = sink then s.committed changes envelopes else s
  | .documentQuarantined other => if other = sink then s.quarantined else s
  | .engineError (.sink other) => if other = sink then { s with phase := .failed } else s
  | .engineStopped (.sink other) => if other = sink then { s with phase := .stopped } else s
  | _ => s

end SinkStatus

/-- The live status of one deployment. -/
structure Status where
  phase : StatusPhase
  ingestLive : Bool
  changesCaptured : ℕ
  errors : ℕ
  sinkNames : List SinkName
  sinks : SinkName → SinkStatus

namespace Status

def new (indexes : List IndexName) (sinks : List SinkName) : Status where
  phase := .starting
  ingestLive := false
  changesCaptured := 0
  errors := 0
  sinkNames := sinks
  sinks _ := .new indexes

section Marks

variable (s : Status) (sink : SinkName)

/-- Stopped is final; otherwise starting until ingest follows the source and every sink has
staged, then backfilling while any sink seeds, else live. -/
def recomputePhase : Status :=
  if s.phase = .stopped then s
  else if !s.ingestLive then { s with phase := .starting }
  else if s.sinkNames.any fun sink => (s.sinks sink).phase = .starting then
    { s with phase := .starting }
  else if s.sinkNames.any fun sink => (s.sinks sink).phase = .backfilling then
    { s with phase := .backfilling }
  else { s with phase := .live }

/-- Change the entry of a sink the status tracks. -/
def withSink (f : SinkStatus → SinkStatus) : Status :=
  if sink ∈ s.sinkNames then { s with sinks := Function.update s.sinks sink (f (s.sinks sink)) }
  else s

def markIngestLive : Status := recomputePhase { s with ingestLive := true }

def markIngestFailed : Status := recomputePhase { s with ingestLive := false }

def markSinkStarted : Status := (s.withSink sink SinkStatus.started).recomputePhase

def markBackfilling (indexes : List IndexName) : Status :=
  (s.withSink sink fun entry => entry.backfilling indexes).recomputePhase

def markSeeded (index : IndexName) : Status :=
  (s.withSink sink fun entry => entry.seeded index).recomputePhase

def markSinkFailed : Status := s.withSink sink fun entry => { entry with phase := .failed }

def markSinkStopped : Status := s.withSink sink fun entry => { entry with phase := .stopped }

def recordCapture : Status := { s with changesCaptured := s.changesCaptured + 1 }

def recordCommit (changes envelopes : ℕ) : Status :=
  s.withSink sink fun entry => entry.committed changes envelopes

def recordQuarantine : Status := s.withSink sink SinkStatus.quarantined

def recordError : Status := { s with errors := s.errors + 1 }

/-- Changes captured but not yet committed by the slowest sink. -/
def inFlight : ℕ :=
  s.changesCaptured -
    ((s.sinkNames.map fun sink => (s.sinks sink).changesCommitted).min?.getD s.changesCaptured)

/-- Every engine is ready. -/
def isReady : Bool :=
  (s.phase = .live || s.phase = .backfilling) && s.sinkNames.all fun sink =>
    (s.sinks sink).phase = .live || (s.sinks sink).phase = .backfilling

end Marks

/-- Keep the status current under one event. -/
def observe (s : Status) : ObserverEvent → Status
  | .liveStarted => s.markIngestLive
  | .changeCaptured => s.recordCapture
  | .backfillRequested sink indexes => s.markBackfilling sink indexes
  | .indexSeeded sink index => s.markSeeded sink index
  | .sinkStarted sink => s.markSinkStarted sink
  | .batchCommitted sink changes envelopes => s.recordCommit sink changes envelopes
  | .documentQuarantined sink => s.recordQuarantine sink
  | .engineError .ingest => s.recordError.markIngestFailed
  | .engineError (.sink sink) => s.recordError.markSinkFailed sink
  | .engineStopped .ingest => { s with phase := .stopped }
  | .engineStopped (.sink sink) => s.markSinkStopped sink

section Marks

variable (s : Status) (sink : SinkName) (f : SinkStatus → SinkStatus)

@[simp] theorem sinks_recomputePhase : s.recomputePhase.sinks = s.sinks := by
  unfold recomputePhase
  split_ifs <;> rfl

@[simp] theorem sinkNames_recomputePhase : s.recomputePhase.sinkNames = s.sinkNames := by
  unfold recomputePhase
  split_ifs <;> rfl

@[simp] theorem changesCaptured_recomputePhase :
    s.recomputePhase.changesCaptured = s.changesCaptured := by
  unfold recomputePhase
  split_ifs <;> rfl

@[simp] theorem sinkNames_withSink : (s.withSink sink f).sinkNames = s.sinkNames := by
  unfold withSink
  split_ifs <;> rfl

@[simp] theorem changesCaptured_withSink :
    (s.withSink sink f).changesCaptured = s.changesCaptured := by
  unfold withSink
  split_ifs <;> rfl

variable {s sink}

theorem sinks_withSink (h : sink ∈ s.sinkNames) :
    (s.withSink sink f).sinks sink = f (s.sinks sink) := by
  rw [withSink, if_pos h]
  exact Function.update_self _ _ _

theorem sinks_withSink_of_ne {other : SinkName} (h : other ≠ sink) :
    (s.withSink sink f).sinks other = s.sinks other := by
  unfold withSink
  split_ifs
  · exact Function.update_of_ne h _ _
  · rfl

theorem sinks_withSink_apply (h : sink ∈ s.sinkNames) (other : SinkName) :
    (s.withSink other f).sinks sink =
      if other = sink then f (s.sinks sink) else s.sinks sink := by
  by_cases hs : other = sink
  · subst hs
    rw [sinks_withSink f h, if_pos rfl]
  · rw [sinks_withSink_of_ne f (Ne.symm hs), if_neg hs]

end Marks

section Events

variable {s : Status} {sink : SinkName}

@[simp] theorem sinkNames_observe (e : ObserverEvent) : (s.observe e).sinkNames = s.sinkNames := by
  cases e with
  | engineError engine => cases engine <;>
      simp [observe, recordError, markIngestFailed, markSinkFailed]
  | engineStopped engine => cases engine <;> simp [observe, markSinkStopped]
  | _ => simp [observe, markIngestLive, recordCapture, markBackfilling, markSeeded,
      markSinkStarted, recordCommit, recordQuarantine]

theorem sinks_observe (h : sink ∈ s.sinkNames) (e : ObserverEvent) :
    (s.observe e).sinks sink = (s.sinks sink).hear sink e := by
  cases e with
  | engineError engine =>
    cases engine with
    | ingest => simp [observe, markIngestFailed, recordError, SinkStatus.hear]
    | sink name => exact sinks_withSink_apply (s := s.recordError) _ h name
  | engineStopped engine =>
    cases engine with
    | ingest => rfl
    | sink name => exact sinks_withSink_apply _ h name
  | backfillRequested other indexes =>
    rw [observe, markBackfilling, sinks_recomputePhase]
    exact sinks_withSink_apply _ h other
  | indexSeeded other index =>
    rw [observe, markSeeded, sinks_recomputePhase]
    exact sinks_withSink_apply _ h other
  | sinkStarted other =>
    rw [observe, markSinkStarted, sinks_recomputePhase]
    exact sinks_withSink_apply _ h other
  | batchCommitted other changes envelopes => exact sinks_withSink_apply _ h other
  | documentQuarantined other => exact sinks_withSink_apply _ h other
  | liveStarted => simp [observe, markIngestLive, SinkStatus.hear]
  | changeCaptured => rfl

theorem sinkNames_foldl (events : List ObserverEvent) :
    (events.foldl observe s).sinkNames = s.sinkNames := by
  induction events generalizing s with
  | nil => rfl
  | cons e events ih => rw [List.foldl_cons, ih, sinkNames_observe]

theorem sinks_foldl (h : sink ∈ s.sinkNames) (events : List ObserverEvent) :
    (events.foldl observe s).sinks sink =
      events.foldl (SinkStatus.hear sink) (s.sinks sink) := by
  induction events generalizing s with
  | nil => rfl
  | cons e events ih =>
    rw [List.foldl_cons, List.foldl_cons, ih (by rwa [sinkNames_observe]), sinks_observe h]

end Events

end Status

end Flusso
