import Flusso.Cdc.Positions
import Flusso.Engine.Ingest
import Flusso.Engine.SinkEngine
import Flusso.Foundation.Transition

/-! # A running daemon

The replication slot, the ingest engine, the request lane and every sink with
its engine and lane, under the supervisor: all sinks stage before anything is
spawned, and a failed engine restarts on its own. An action carries what the
engine cannot choose: the change that arrived, what it resolved to, the built
documents, the rows of the snapshot, the outcome of a flush.
-/

namespace Flusso

inductive Slot where
  | missing
  | valid
  | invalidated
  deriving DecidableEq

structure Config where
  sinks : List SinkName
  nodup : sinks.Nodup
  engine : EngineOptions
  scopes : Scopes
  startLsn : ℕ
  capacity : ℕ
  maxChanges : ℕ

/-- Built with at least one item of room per lane. -/
def Config.laneCapacity (c : Config) : ℕ := max c.capacity 1

/-- At least one change per batch. -/
def Config.batchSize (c : Config) : ℕ := max c.maxChanges 1

/-- A change of the open live stream and the documents it resolved to. -/
structure Change (V : Type*) where
  position : ℕ
  ids : List (DocumentId V)
  deriving DecidableEq

/-- A snapshot the ingest engine started: whom it serves, over which rows. -/
structure SnapshotRun (V : Type*) where
  deliveries : List (ℕ × Request)
  view : Cdc.View V
  tables : List SnapshotTable

def SnapshotRun.rows {V : Type*} (r : SnapshotRun V) : List (TableName × RowKey V) :=
  Cdc.snapshotRows r.view r.tables

/-- The whole daemon, with its history: the live streams opened, the open one's changes,
the snapshots started, the requests published, the slots created in this run and whether a
change of a stream opened since the last creation was confirmed. -/
structure Deployment (V : Type*) where
  slot : Slot
  positions : Option Cdc.Positions
  continuity : Continuity
  spawned : Bool
  ingest : Ingest V
  requests : Stream.Channel Request
  sinks : SinkName → SinkSide V
  streams : ℕ
  changes : List (Change V)
  snapshots : List (SnapshotRun V)
  requestLog : List Request
  created : ℕ
  confirmedChange : Bool

inductive IngestAction (V : Type*) where
  | prepare
  | live
  | change (table : TableName) (key : RowKey V) (reverse : List (DocumentId V)) (lsn : ℕ)
  | idle (lsn : ℕ)
  | endLive
  | commitLive (documents : List (Document V))
  | takeRequest
  | collect
  | startSnapshot (view : Cdc.View V)
  | row (reverse : List (DocumentId V)) (documents : List (Document V))
  | endSnapshot (documents : List (Document V))
  | publish (sink : SinkName)
  | published
  | ackRequest
  | finished
  | confirm
  | stop
  | fail

inductive EngineAction (V : Type*) where
  | stage
  | call
  | advance
  | request
  | start
  | recv
  | commit (requests : List (BulkRequest V))
  | commitFail (requests : List (BulkRequest V))
  | ack
  | reindex (indexes : List IndexName)
  | fail

inductive Action (V : Type*) where
  | dropSlot
  | invalidateSlot
  | spawn
  | ingest (a : IngestAction V)
  | engine (sink : SinkName) (a : EngineAction V)

namespace Deployment

variable {V : Type*}

section Slot

variable (d : Deployment V)

/-- Whether the slot exists. -/
def slotContinuity (slot : Slot) : Continuity :=
  match slot with
  | .missing => .fresh
  | _ => .resumed

/-- Create the slot if it does not exist. -/
def ensureSlot : Deployment V :=
  match slotContinuity d.slot with
  | .resumed => d
  | .fresh => { d with
      slot := .valid
      sinks := fun sink => (d.sinks sink).slotCreated
      created := d.created + 1
      confirmedChange := false }

def prepare : Option (Deployment V) :=
  match d.ingest.phase with
  | .down =>
    if d.spawned then some { d.ensureSlot with ingest := { d.ingest with phase := .prepared } }
    else none
  | _ => none

/-- Open a live stream continuing the positions of the last one; connecting to an
invalidated slot fails. -/
def live (c : Config) : Option (Deployment V) :=
  match d.ingest.phase with
  | .prepared =>
    if d.ensureSlot.slot = .valid then
      some { d.ensureSlot with
        positions := some (.new c.startLsn (d.positions.elim 0 Cdc.Positions.nextSeq))
        ingest := { d.ingest with phase := .select }
        streams := d.streams + 1
        changes := [] }
    else none
  | _ => none

end Slot

section Live

variable (c : Config) (d : Deployment V)

/-- The live stream is being polled: between two steps of the loop, or while draining with
room left in the batch. -/
def polling : Bool :=
  match d.ingest.phase with
  | .select => !d.ingest.liveEnded
  | .draining => !d.ingest.liveEnded && !d.ingest.pending.isFull
  | _ => false

/-- The stream emits a change, resolved into the batch. -/
def change [DecidableEq V] (table : TableName) (key : RowKey V) (reverse : List (DocumentId V))
    (lsn : ℕ) : Option (Deployment V) :=
  match d.polling, d.positions with
  | true, some positions =>
    let (position, positions) := positions.register lsn
    let ids := resolve c.scopes table key reverse
    some { d with
      positions := some positions
      ingest := { d.ingest with
        phase := .draining
        pending := { d.ingest.pending.add ids with position := some position } }
      changes := d.changes ++ [{ position, ids }] }
  | _, _ => none

/-- A keepalive or a filtered-out commit reaches the stream. -/
def idle (lsn : ℕ) : Option (Deployment V) :=
  match d.polling, d.positions with
  | true, some positions => some { d with positions := some (positions.registerConfirmed lsn) }
  | _, _ => none

def endLive : Option (Deployment V) :=
  if d.polling then some { d with ingest := { d.ingest with liveEnded := true } } else none

/-- Build the batch's documents once and publish them to every lane. -/
def commitLive [DecidableEq V] (documents : List (Document V)) : Option (Deployment V) :=
  match d.ingest.phase with
  | .draining =>
    if (documents.map Document.id).Perm d.ingest.pending.ids then
      some { d with ingest := { d.ingest with
        phase := .publishing (c.sinks.map fun sink => (sink,
          .live d.streams d.ingest.pending.position d.ingest.pending.count documents)) .live } }
    else none
  | _ => none

/-- The lowest position every lane has acknowledged. -/
def watermark : Option ℕ := lowest (c.sinks.map fun sink => (d.sinks sink).lane.acked)

/-- What is handed to the source: the watermark, when it moved; the supervisor's last
confirm does not look at what was confirmed before. -/
def confirmCall : Option ℕ :=
  match d.ingest.phase, d.watermark c with
  | .select, some p => if d.ingest.lastConfirmed = some p then none else some p
  | .stopped, some p => some p
  | _, _ => none

def confirm : Option (Deployment V) :=
  (d.confirmCall c).map fun p => { d with
    positions := d.positions.map fun positions => positions.confirm p
    ingest := { d.ingest with lastConfirmed := some p }
    confirmedChange := d.confirmedChange || d.changes.any fun change => change.position ≤ p }

end Live

section Snapshots

variable (c : Config) (d : Deployment V)

def takeRequest : Option (Deployment V) :=
  match d.ingest.phase, d.ingest.snapshot, d.requests.recv with
  | .select, none, some (delivery, requests) =>
    some { d with requests, ingest := { d.ingest with phase := .collecting [delivery] } }
  | _, _, _ => none

def collect : Option (Deployment V) :=
  match d.ingest.phase, d.requests.recv with
  | .collecting deliveries, some (delivery, requests) =>
    if Ingest.allAsked c.sinks deliveries then none
    else some { d with
      requests, ingest := { d.ingest with phase := .collecting (deliveries ++ [delivery]) } }
  | _, _ => none

/-- Only sinks with a lane are published to. -/
def toLanes (todo : List (SinkName × Entry V)) : List (SinkName × Entry V) :=
  todo.filter fun entry => entry.1 ∈ c.sinks

/-- Coalesce the delivered requests into one snapshot; with no table to scan it completes at
once. -/
def startSnapshot (view : Cdc.View V) : Option (Deployment V) :=
  match d.ingest.phase with
  | .collecting deliveries =>
    if Ingest.allAsked c.sinks deliveries || d.requests.isCaughtUp then
      let requested := requestedOf c.scopes deliveries
      let tables := tablesOf c.scopes (indexesOf requested)
      let snapshot : Snapshot V :=
        { number := d.snapshots.length
          rows := Cdc.snapshotRows view tables
          requested
          indexes := indexesOf requested
          handles := deliveries.map Prod.fst
          batch := .new c.batchSize }
      let phase : IngestPhase V :=
        if tables.isEmpty then .publishing (toLanes c snapshot.markers) .markers else .select
      some { d with
        ingest := { d.ingest with snapshot := some snapshot, phase }
        snapshots := d.snapshots ++ [{ deliveries, view, tables }] }
    else none
  | _ => none

/-- Build a snapshot batch and publish each lane the slice of it that lane requested. -/
def commitSnapshot (snapshot : Snapshot V) (documents : List (Document V)) (after : After) :
    Deployment V :=
  { d with ingest := { d.ingest with
      snapshot := some snapshot
      phase := .publishing (toLanes c (snapshot.slices documents)) after } }

/-- The snapshot yields a row, resolved into its batch; a full batch is published. -/
def row [DecidableEq V] (reverse : List (DocumentId V)) (documents : List (Document V)) :
    Option (Deployment V) :=
  match d.ingest.phase, d.ingest.snapshot with
  | .select, some snapshot =>
    match snapshot.rows with
    | [] => none
    | (table, key) :: rows =>
      let affected := (resolve c.scopes table key reverse).filter
        fun id => id.index ∈ snapshot.indexes
      let snapshot := { snapshot with rows, batch := snapshot.batch.add affected }
      if snapshot.batch.isFull then
        if (documents.map Document.id).Perm snapshot.batch.ids then
          some (d.commitSnapshot c snapshot documents .slice)
        else none
      else some { d with ingest := { d.ingest with snapshot := some snapshot } }
  | _, _ => none

/-- The snapshot stream ends: the last batch is published, then the markers. -/
def endSnapshot [DecidableEq V] (documents : List (Document V)) : Option (Deployment V) :=
  match d.ingest.phase, d.ingest.snapshot with
  | .select, some snapshot =>
    match snapshot.rows with
    | _ :: _ => none
    | [] =>
      if snapshot.batch.count = 0 then
        some { d with ingest := { d.ingest with
          phase := .publishing (toLanes c snapshot.markers) .markers } }
      else if (documents.map Document.id).Perm snapshot.batch.ids then
        some (d.commitSnapshot c snapshot documents .lastSlice)
      else none
  | _, _ => none

/-- Publish one of the entries at hand to its lane. -/
def publish (sink : SinkName) : Option (Deployment V) :=
  match d.ingest.phase with
  | .publishing todo after =>
    match todo.find? fun entry => entry.1 = sink with
    | none => none
    | some (_, entry) =>
      ((d.sinks sink).publish entry).map fun side => { d with
        sinks := Function.update d.sinks sink side
        ingest := { d.ingest with
          phase := .publishing (todo.filter fun entry => entry.1 ≠ sink) after } }
  | _ => none

/-- Every entry at hand is published. -/
def published : Option (Deployment V) :=
  match d.ingest.phase, d.ingest.snapshot with
  | .publishing [] .live, _ => some { d with ingest := { d.ingest with
      phase := .select, pending := d.ingest.pending.clear } }
  | .publishing [] .slice, some snapshot => some { d with ingest := { d.ingest with
      phase := .select, snapshot := some { snapshot with batch := snapshot.batch.clear } } }
  | .publishing [] .lastSlice, some snapshot => some { d with ingest := { d.ingest with
      phase := .publishing (toLanes c snapshot.markers) .markers
      snapshot := some { snapshot with batch := snapshot.batch.clear } } }
  | .publishing [] .markers, some snapshot => some { d with ingest := { d.ingest with
      phase := .acking snapshot.handles } }
  | _, _ => none

def ackRequest : Option (Deployment V) :=
  match d.ingest.phase with
  | .acking (ticket :: handles) => some { d with
      requests := d.requests.ack ticket
      ingest := { d.ingest with phase := .acking handles } }
  | _ => none

def finished : Option (Deployment V) :=
  match d.ingest.phase with
  | .acking [] => some { d with ingest := { d.ingest with phase := .select, snapshot := none } }
  | _ => none

/-- The live stream ended and nothing is left to serve. -/
def stop : Option (Deployment V) :=
  match d.ingest.phase, d.ingest.snapshot with
  | .select, none =>
    if d.ingest.liveEnded && d.requests.isCaughtUp then
      some { d with ingest := { d.ingest with phase := .stopped } }
    else none
  | _, _ => none

/-- The engine's run fails: the requests it held are released and its locals are gone. -/
def ingestFail : Option (Deployment V) :=
  match d.ingest.phase with
  | .down => none
  | .stopped => none
  | _ => some { d with
      requests := d.ingest.heldTickets.foldl Stream.Channel.release d.requests
      ingest := .down c.batchSize }

end Snapshots

section Step

variable [DecidableEq V] [ValueText V] (c : Config) (d : Deployment V)

def ingestStep : IngestAction V → Option (Deployment V)
  | .prepare => d.prepare
  | .live => d.live c
  | .change table key reverse lsn => d.change c table key reverse lsn
  | .idle lsn => d.idle lsn
  | .endLive => d.endLive
  | .commitLive documents => d.commitLive c documents
  | .takeRequest => d.takeRequest
  | .collect => d.collect c
  | .startSnapshot view => d.startSnapshot c view
  | .row reverse documents => d.row c reverse documents
  | .endSnapshot documents => d.endSnapshot c documents
  | .publish sink => d.publish sink
  | .published => d.published c
  | .ackRequest => d.ackRequest
  | .finished => d.finished
  | .confirm => d.confirm c
  | .stop => d.stop
  | .fail => d.ingestFail c

/-- The engine's steps that touch nothing but its own sink and lane. -/
def sideStep (s : SinkSide V) : EngineAction V → Option (SinkSide V)
  | .stage => s.stage c.engine
  | .call => s.call
  | .advance => s.advance c.engine
  | .request => none
  | .start => s.start
  | .recv => s.recv
  | .commit requests => s.commit c.engine requests
  | .commitFail requests => s.commitFail requests
  | .ack => s.ack
  | .reindex indexes => s.reindex c.engine indexes
  | .fail => s.fail

def withSide (sink : SinkName) (s : SinkSide V) : Deployment V :=
  { d with sinks := Function.update d.sinks sink s }

/-- A sink publishes its backfill request. -/
def request (sink : SinkName) : Option (Deployment V) :=
  match (d.sinks sink).phase with
  | .requesting indexes staging =>
    (d.requests.publish { sink, indexes }).map fun requests =>
      { d.withSide sink ((d.sinks sink).requested indexes staging) with
        requests
        requestLog := d.requestLog ++ [{ sink, indexes }] }
  | _ => none

/-- Before the spawn only staging runs. -/
def engineStep (sink : SinkName) (a : EngineAction V) : Option (Deployment V) :=
  if sink ∈ c.sinks then
    match a with
    | .request => d.request sink
    | .start =>
      if d.spawned then (sideStep c (d.sinks sink) a).map (d.withSide sink) else none
    | a => (sideStep c (d.sinks sink) a).map (d.withSide sink)
  else none

/-- Every sink has staged: the engines are spawned. -/
def spawn : Option (Deployment V) :=
  if !d.spawned && c.sinks.all fun sink => (d.sinks sink).phase = .staged then
    some { d with spawned := true }
  else none

def step : Action V → Option (Deployment V)
  | .dropSlot => some { d with slot := .missing }
  | .invalidateSlot => if d.slot = .valid then some { d with slot := .invalidated } else none
  | .spawn => d.spawn c
  | .ingest a => d.ingestStep c a
  | .engine sink a => d.engineStep c sink a

end Step

/-- A daemon as it comes up over a slot and the sinks' indexes as an earlier run left them:
the continuity is read, and nothing has staged. -/
structure Initial (c : Config) (d : Deployment V) : Prop where
  positions : d.positions = none
  continuity : d.continuity = slotContinuity d.slot
  spawned : d.spawned = false
  ingest : d.ingest = .down c.batchSize
  requests : d.requests = .new c.laneCapacity
  phase : ∀ s, (d.sinks s).phase = .unstaged d.continuity
  outstanding : ∀ s, (d.sinks s).outstanding = []
  lane : ∀ s, (d.sinks s).lane = .new c.laneCapacity
  log : ∀ s, (d.sinks s).log = []
  applied : ∀ s, (d.sinks s).applied = []
  flushes : ∀ s, (d.sinks s).flushes = []
  stale : ∀ s i, (d.sinks s).stale i =
    (d.continuity = .fresh && ((d.sinks s).indexes i).recorded)
  changes : d.changes = []
  snapshots : d.snapshots = []
  requestLog : d.requestLog = []
  created : d.created = 0
  confirmedChange : d.confirmedChange = false

/-- The daemon coming up over a slot, with each sink's backfill capability and indexes. -/
def comeUp (V : Type*) (c : Config) (slot : Slot) (backfill : SinkName → Bool)
    (indexes : SinkName → IndexName → IndexState) : Deployment V where
  slot := slot
  positions := none
  continuity := slotContinuity slot
  spawned := false
  ingest := .down c.batchSize
  requests := .new c.laneCapacity
  sinks := fun sink =>
    { backfill := backfill sink
      phase := .unstaged (slotContinuity slot)
      outstanding := []
      indexes := indexes sink
      lane := .new c.laneCapacity
      log := []
      applied := []
      flushes := []
      stale := fun i => slotContinuity slot = .fresh && (indexes sink i).recorded }
  streams := 0
  changes := []
  snapshots := []
  requestLog := []
  created := 0
  confirmedChange := false

theorem initial_comeUp {c : Config} {slot : Slot} {backfill : SinkName → Bool}
    {indexes : SinkName → IndexName → IndexState} :
    (comeUp V c slot backfill indexes).Initial c := by
  constructor <;> intros <;> rfl

end Deployment

/-- The daemon over a configuration. -/
def daemon (V : Type*) [DecidableEq V] [ValueText V] (c : Config) :
    Transition.Machine (Deployment V) (Action V) where
  init := Deployment.Initial c
  step := Deployment.step c

theorem reachable_comeUp {V : Type*} [DecidableEq V] [ValueText V] {c : Config} {slot : Slot}
    {backfill : SinkName → Bool} {indexes : SinkName → IndexName → IndexState}
    {ok : Deployment V → Action V → Prop} :
    (daemon V c).ReachableWith ok (.comeUp V c slot backfill indexes) :=
  .init Deployment.initial_comeUp

/-- One index over one table, mirrored to the given sinks. -/
def Config.mirror (sinks : List SinkName) (nodup : sinks.Nodup) (capacity maxChanges : ℕ) :
    Config where
  sinks := sinks
  nodup := nodup
  engine := {
    mappings := [⟨"users"⟩], skipBackfill := false, failurePolicy := fun _ => .stop }
  scopes := [(⟨"users"⟩, ⟨⟨"public"⟩, ⟨"users"⟩⟩)]
  startLsn := 0
  capacity := capacity
  maxChanges := maxChanges

end Flusso
