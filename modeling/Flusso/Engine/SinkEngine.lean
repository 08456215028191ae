import Flusso.Engine.Batch
import Flusso.Sink.Index
import Flusso.Stream.Sequential
import Mathlib.Logic.Function.Basic

/-! # The sink engine

One engine per sink: stage the sink's indexes, request whatever backfill it
needs, then receive, apply, flush, acknowledge. Each call on the sink is a step
of its own, so that a failure may land between any two of them.
-/

namespace Flusso

inductive FailurePolicy where
  | stop
  | skip
  deriving DecidableEq

/-- What the sink engines of a deployment share. -/
structure EngineOptions where
  mappings : List IndexName
  skipBackfill : Bool
  failurePolicy : IndexName → FailurePolicy

inductive SinkCall where
  | ensureIndex (index : IndexName)
  | reindex (index : IndexName)
  | markSeeded (index : IndexName)
  deriving DecidableEq

/-- What an engine does once its sink calls are made. -/
inductive Next where
  | ensured (continuity : Continuity)
  | rebuilt (continuity : Continuity)
  | reindexed (staged : List IndexName)
  | seeded (ticket : ℕ) (indexes : List IndexName)
  deriving DecidableEq

/-- Where an engine is: staging (again after a failure, with the same continuity), staged
and waiting for the daemon to start it, or in its loop. -/
inductive EnginePhase (V : Type*) where
  | unstaged (continuity : Continuity)
  | calling (calls : List SinkCall) (next : Next)
  | requesting (indexes : List IndexName) (staging : Option Continuity)
  | staged
  | running
  | processing (ticket : ℕ) (entry : Entry V)
  | acking (ticket : ℕ)
  deriving DecidableEq

namespace EnginePhase

variable {V : Type*}

/-- The delivery the engine holds. -/
def held : EnginePhase V → Option ℕ
  | .processing ticket _ => some ticket
  | .calling _ (.seeded ticket _) => some ticket
  | .acking ticket => some ticket
  | _ => none

/-- The continuity a failure stages again with; a staging pass that ended has nothing left
to fail. -/
def restart : EnginePhase V → Option Continuity
  | .unstaged _ => none
  | .staged => none
  | .calling _ (.ensured continuity) => some continuity
  | .calling _ (.rebuilt continuity) => some continuity
  | .requesting _ (some continuity) => some continuity
  | _ => some .resumed

end EnginePhase

/-- One bulk request of a flush: what attempts whose response was lost had executed, its
actions, and those of them the sink rejected. -/
structure BulkRequest (V : Type*) where
  retried : List (Envelope V)
  actions : List (Envelope V)
  rejected : List (Envelope V)

/-- A flush that returned: the lane item it was for, the generation each index was written
to, and what was rejected. -/
structure Flush (V : Type*) where
  ticket : ℕ
  target : IndexName → Option ℕ
  rejected : List (Envelope V)

/-- A sink with its engine and its lane, and their history: every entry published to the
lane, every write executed, every flush that returned, and the seeds from before a gap in the
WAL: recorded when the daemon came up without a slot or when it created one, and neither
retracted nor staged for a rebuild since. -/
structure SinkSide (V : Type*) where
  backfill : Bool
  phase : EnginePhase V
  outstanding : List IndexName
  indexes : IndexName → IndexState
  lane : Stream.Channel (Entry V)
  log : List (Entry V)
  applied : List (Envelope V)
  flushes : List (Flush V)
  stale : IndexName → Bool

namespace SinkSide

variable {V : Type*} (o : EngineOptions) (s : SinkSide V)

def isSeeded (index : IndexName) : Bool := (s.indexes index).isSeeded

/-- The generation writes to an index go to. -/
def target (index : IndexName) : Option ℕ := (s.indexes index).physical

/-- Begin a staging pass: every index is ensured first. -/
def stage : Option (SinkSide V) :=
  match s.phase with
  | .unstaged continuity =>
    some { s with phase := .calling (o.mappings.map .ensureIndex) (.ensured continuity) }
  | _ => none

/-- One call on the sink. -/
def applyCall : SinkCall → Option (SinkSide V)
  | .ensureIndex index =>
    let state := (s.indexes index).ensureIndex
    some { s with
      indexes := Function.update s.indexes index state
      stale := Function.update s.stale index (s.stale index && state.recorded) }
  | .reindex index => some { s with
      indexes := Function.update s.indexes index (s.indexes index).reindex
      stale := Function.update s.stale index false }
  | .markSeeded index => (s.indexes index).markSeeded.map fun state =>
      { s with indexes := Function.update s.indexes index state }

def call : Option (SinkSide V) :=
  match s.phase with
  | .calling (c :: calls) next =>
    (s.applyCall c).map fun s' => { s' with phase := .calling calls next }
  | _ => none

/-- Reindex then ensure, index by index. -/
def rebuildCalls (indexes : List IndexName) : List SinkCall :=
  indexes.flatMap fun index => [.reindex index, .ensureIndex index]

/-- The indexes still to request: unseeded and not requested already. -/
def unseeded : List IndexName :=
  (o.mappings.filter fun index => !s.isSeeded index).filter fun index => index ∉ s.outstanding

/-- The end of a staging pass: request what is still unseeded. -/
def requestUnseeded (continuity : Continuity) : SinkSide V :=
  if o.skipBackfill || (s.unseeded o).isEmpty then { s with phase := .staged }
  else { s with phase := .requesting (s.unseeded o) (some continuity) }

/-- Go on once the calls of a phase are made. -/
def advance : Option (SinkSide V) :=
  match s.phase with
  | .calling [] (.ensured continuity) =>
    if !s.backfill then some { s with phase := .staged }
    else
      let stale := o.mappings.filter fun index => s.isSeeded index
      if continuity = .fresh ∧ stale ≠ [] ∧ !o.skipBackfill then
        some { s with phase := .calling (rebuildCalls stale) (.rebuilt continuity) }
      else some (s.requestUnseeded o continuity)
  | .calling [] (.rebuilt continuity) => some (s.requestUnseeded o continuity)
  | .calling [] (.reindexed staged) =>
    if staged.isEmpty then some { s with phase := .running }
    else some { s with phase := .requesting staged none }
  | .calling [] (.seeded ticket indexes) =>
    some { s with
      outstanding := s.outstanding.filter fun index => index ∉ indexes
      phase := .acking ticket }
  | _ => none

/-- The request is published: its indexes are outstanding. -/
def requested (indexes : List IndexName) (staging : Option Continuity) : SinkSide V :=
  { s with
    outstanding := insertNew s.outstanding indexes
    phase := if staging.isSome then .staged else .running }

/-- A slot was created: every seed the sink reports misses the changes before it. -/
def slotCreated : SinkSide V :=
  { s with stale := fun index => s.stale index || s.isSeeded index }

/-- The daemon starts the engine's loop. -/
def start : Option (SinkSide V) :=
  match s.phase with
  | .staged => some { s with phase := .running }
  | _ => none

/-- A delivery: a batch is committed, a marker's indexes are marked seeded. -/
def recv : Option (SinkSide V) :=
  match s.phase, s.lane.recv with
  | .running, some ((ticket, entry), lane) =>
    match entry with
    | .complete _ indexes =>
      some { s with lane, phase := .calling (indexes.map .markSeeded) (.seeded ticket indexes) }
    | entry => some { s with lane, phase := .processing ticket entry }
  | _, _ => none

/-- An operator's reindex, handled between two deliveries: an index whose snapshot is
outstanding is left to it. -/
def reindex (indexes : List IndexName) : Option (SinkSide V) :=
  match s.phase with
  | .running =>
    if !s.backfill then some s
    else
      let staged := (indexes.filter fun index => index ∈ o.mappings).filter
        fun index => index ∉ s.outstanding
      some { s with phase := .calling (rebuildCalls staged) (.reindexed staged) }
  | _ => none

/-- The engine's run or staging pass fails: a delivery it held is released, and staging
starts over. -/
def fail : Option (SinkSide V) :=
  s.phase.restart.map fun continuity => { s with
    lane := match s.phase.held with
      | some ticket => s.lane.release ticket
      | none => s.lane
    phase := .unstaged continuity }

def ack : Option (SinkSide V) :=
  match s.phase with
  | .acking ticket => some { s with lane := s.lane.ack ticket, phase := .running }
  | _ => none

/-- Ingest publishes an entry to the sink's lane. -/
def publish (entry : Entry V) : Option (SinkSide V) :=
  (s.lane.publish entry).map fun lane => { s with lane, log := s.log ++ [entry] }

end SinkSide

namespace BulkRequest

variable {V : Type*}

/-- Attempts only execute the request's own actions, and only they are rejected. -/
def Valid (r : BulkRequest V) : Prop :=
  (∀ e ∈ r.retried, e ∈ r.actions) ∧ ∀ e ∈ r.rejected, e ∈ r.actions

instance [DecidableEq V] (r : BulkRequest V) : Decidable r.Valid :=
  inferInstanceAs (Decidable (_ ∧ _))

/-- The writes the sink executed for a request, in order. -/
def executed [DecidableEq V] (r : BulkRequest V) : List (Envelope V) :=
  r.retried ++ r.actions.filter fun e => e ∉ r.rejected

end BulkRequest

namespace SinkSide

variable {V : Type*} [DecidableEq V] [ValueText V] (o : EngineOptions) (s : SinkSide V)

/-- Apply a batch's envelopes and flush: the flush returned, and no rejection stops the
engine. -/
def commit (requests : List (BulkRequest V)) : Option (SinkSide V) :=
  match s.phase with
  | .processing ticket entry =>
    if requests.flatMap BulkRequest.actions = entry.envelopes ∧ (∀ r ∈ requests, r.Valid) ∧
        ∀ r ∈ requests, ∀ e ∈ r.rejected, o.failurePolicy e.index = .skip then
      some { s with
        applied := s.applied ++ requests.flatMap BulkRequest.executed
        flushes := s.flushes ++ [{
          ticket, target := s.target, rejected := requests.flatMap BulkRequest.rejected }]
        phase := .acking ticket }
    else none
  | _ => none

/-- A flush that fails after some bulk requests, or one whose rejections stop the engine. -/
def commitFail (requests : List (BulkRequest V)) : Option (SinkSide V) :=
  match s.phase with
  | .processing _ entry =>
    if requests.flatMap BulkRequest.actions <+: entry.envelopes ∧ ∀ r ∈ requests, r.Valid then
      { s with applied := s.applied ++ requests.flatMap BulkRequest.executed }.fail
    else none
  | _ => none

end SinkSide

end Flusso
