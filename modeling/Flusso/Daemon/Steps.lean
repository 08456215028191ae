import Flusso.Daemon.Deployment

/-! # What each step does

One inversion per action: when it is enabled and the state it leads to. Every
invariant is derived from these.
-/

namespace Flusso.Deployment

variable {V : Type*} {c : Config} {d d' : Deployment V} {sink : SinkName}

section Slot

theorem ensureSlot_cases :
    d.ensureSlot = d ∧ d.slot ≠ .missing ∨
      d.slot = .missing ∧ d.ensureSlot = { d with
        slot := .valid
        sinks := fun sink => (d.sinks sink).slotCreated
        created := d.created + 1
        confirmedChange := false } := by
  unfold ensureSlot slotContinuity
  cases d.slot <;> simp

@[simp] theorem ingest_ensureSlot : d.ensureSlot.ingest = d.ingest := by
  rcases ensureSlot_cases (d := d) with ⟨h, -⟩ | ⟨-, h⟩ <;> rw [h]

@[simp] theorem positions_ensureSlot : d.ensureSlot.positions = d.positions := by
  rcases ensureSlot_cases (d := d) with ⟨h, -⟩ | ⟨-, h⟩ <;> rw [h]

@[simp] theorem requests_ensureSlot : d.ensureSlot.requests = d.requests := by
  rcases ensureSlot_cases (d := d) with ⟨h, -⟩ | ⟨-, h⟩ <;> rw [h]

@[simp] theorem spawned_ensureSlot : d.ensureSlot.spawned = d.spawned := by
  rcases ensureSlot_cases (d := d) with ⟨h, -⟩ | ⟨-, h⟩ <;> rw [h]

@[simp] theorem continuity_ensureSlot : d.ensureSlot.continuity = d.continuity := by
  rcases ensureSlot_cases (d := d) with ⟨h, -⟩ | ⟨-, h⟩ <;> rw [h]

@[simp] theorem streams_ensureSlot : d.ensureSlot.streams = d.streams := by
  rcases ensureSlot_cases (d := d) with ⟨h, -⟩ | ⟨-, h⟩ <;> rw [h]

@[simp] theorem changes_ensureSlot : d.ensureSlot.changes = d.changes := by
  rcases ensureSlot_cases (d := d) with ⟨h, -⟩ | ⟨-, h⟩ <;> rw [h]

@[simp] theorem snapshots_ensureSlot : d.ensureSlot.snapshots = d.snapshots := by
  rcases ensureSlot_cases (d := d) with ⟨h, -⟩ | ⟨-, h⟩ <;> rw [h]

@[simp] theorem requestLog_ensureSlot : d.ensureSlot.requestLog = d.requestLog := by
  rcases ensureSlot_cases (d := d) with ⟨h, -⟩ | ⟨-, h⟩ <;> rw [h]

theorem sinks_ensureSlot {s : SinkName} :
    d.ensureSlot.sinks s = d.sinks s ∨ d.ensureSlot.sinks s = (d.sinks s).slotCreated := by
  rcases ensureSlot_cases (d := d) with ⟨h, -⟩ | ⟨-, h⟩ <;> rw [h]
  · exact .inl rfl
  · exact .inr rfl

theorem prepare_cases (h : d.prepare = some d') :
    d.ingest.phase = .down ∧ d.spawned = true ∧
      d' = { d.ensureSlot with ingest := { d.ingest with phase := .prepared } } := by
  unfold prepare at h
  split at h
  · next hphase =>
    split at h
    · next hs => exact ⟨hphase, hs, (Option.some.inj h).symm⟩
    · cases h
  · cases h

theorem live_cases (h : d.live c = some d') :
    d.ingest.phase = .prepared ∧ d.ensureSlot.slot = .valid ∧
      d' = { d.ensureSlot with
        positions := some (.new c.startLsn (d.positions.elim 0 Cdc.Positions.nextSeq))
        ingest := { d.ingest with phase := .select }
        streams := d.streams + 1
        changes := [] } := by
  unfold live at h
  split at h
  · next hphase =>
    split at h
    · next hs => exact ⟨hphase, hs, (Option.some.inj h).symm⟩
    · cases h
  · cases h

end Slot

section Live

theorem polling_phase (h : d.polling = true) :
    d.ingest.phase = .select ∨ d.ingest.phase = .draining := by
  unfold polling at h
  split at h
  · next hphase => exact .inl hphase
  · next hphase => exact .inr hphase
  · cases h

theorem change_cases [DecidableEq V] {table : TableName} {key : RowKey V}
    {reverse : List (DocumentId V)} {lsn : ℕ} (h : d.change c table key reverse lsn = some d') :
    ∃ positions, d.polling = true ∧ d.positions = some positions ∧
      d' = { d with
        positions := some (positions.push lsn)
        ingest := { d.ingest with
          phase := .draining
          pending := { d.ingest.pending.add (resolve c.scopes table key reverse) with
            position := some positions.nextSeq } }
        changes := d.changes ++ [⟨positions.nextSeq, resolve c.scopes table key reverse⟩] } := by
  unfold change at h
  split at h
  · next positions hpoll hpos => exact ⟨positions, hpoll, hpos, (Option.some.inj h).symm⟩
  · cases h

theorem idle_cases {lsn : ℕ} (h : d.idle lsn = some d') :
    ∃ positions, d.polling = true ∧ d.positions = some positions ∧
      d' = { d with positions := some (positions.registerConfirmed lsn) } := by
  unfold idle at h
  split at h
  · next positions hpoll hpos => exact ⟨positions, hpoll, hpos, (Option.some.inj h).symm⟩
  · cases h

theorem endLive_cases (h : d.endLive = some d') :
    d.polling = true ∧ d' = { d with ingest := { d.ingest with liveEnded := true } } := by
  unfold endLive at h
  split at h
  · next hpoll => exact ⟨hpoll, (Option.some.inj h).symm⟩
  · cases h

/-- The live entry a batch is published as. -/
def liveEntry (d : Deployment V) (documents : List (Document V)) : Entry V :=
  .live d.streams d.ingest.pending.position d.ingest.pending.count documents

theorem commitLive_cases [DecidableEq V] {documents : List (Document V)}
    (h : d.commitLive c documents = some d') :
    d.ingest.phase = .draining ∧ (documents.map Document.id).Perm d.ingest.pending.ids ∧
      d' = { d with ingest := { d.ingest with
        phase := .publishing (c.sinks.map fun sink => (sink, d.liveEntry documents)) .live } } := by
  unfold commitLive at h
  split at h
  · next hphase =>
    split at h
    · next hperm => exact ⟨hphase, hperm, (Option.some.inj h).symm⟩
    · cases h
  · cases h

theorem confirm_cases (h : d.confirm c = some d') :
    ∃ p, d.confirmCall c = some p ∧
      d' = { d with
        positions := d.positions.map fun positions => positions.confirm p
        ingest := { d.ingest with lastConfirmed := some p }
        confirmedChange :=
          d.confirmedChange || d.changes.any fun change => change.position ≤ p } := by
  obtain ⟨p, hp, rfl⟩ := Option.map_eq_some_iff.mp h
  exact ⟨p, hp, rfl⟩

theorem confirmCall_cases {p : ℕ} (h : d.confirmCall c = some p) :
    (d.ingest.phase = .select ∨ d.ingest.phase = .stopped) ∧ d.watermark c = some p := by
  unfold confirmCall at h
  split at h
  · next hphase hw =>
    split at h
    · cases h
    · exact ⟨.inl hphase, Option.some.inj h ▸ hw⟩
  · next hphase hw => exact ⟨.inr hphase, Option.some.inj h ▸ hw⟩
  · cases h

end Live

section Snapshots

theorem takeRequest_cases (h : d.takeRequest = some d') :
    ∃ delivery requests, d.ingest.phase = .select ∧ d.ingest.snapshot = none ∧
      d.requests.recv = some (delivery, requests) ∧
      d' = { d with requests, ingest := { d.ingest with phase := .collecting [delivery] } } := by
  unfold takeRequest at h
  split at h
  · next delivery requests hphase hsnap hrecv =>
    exact ⟨delivery, requests, hphase, hsnap, hrecv, (Option.some.inj h).symm⟩
  · cases h

theorem collect_cases (h : d.collect c = some d') :
    ∃ deliveries delivery requests, d.ingest.phase = .collecting deliveries ∧
      d.requests.recv = some (delivery, requests) ∧
      d' = { d with
        requests, ingest := { d.ingest with phase := .collecting (deliveries ++ [delivery]) } } := by
  unfold collect at h
  split at h
  · next deliveries delivery requests hphase hrecv =>
    split at h
    · cases h
    · exact ⟨deliveries, delivery, requests, hphase, hrecv, (Option.some.inj h).symm⟩
  · cases h

/-- The snapshot that serves the collected requests. -/
def newSnapshot (c : Config) (d : Deployment V) (deliveries : List (ℕ × Request))
    (view : Cdc.View V) : Snapshot V where
  number := d.snapshots.length
  rows := Cdc.snapshotRows view (tablesOf c.scopes (indexesOf (requestedOf c.scopes deliveries)))
  requested := requestedOf c.scopes deliveries
  indexes := indexesOf (requestedOf c.scopes deliveries)
  handles := deliveries.map Prod.fst
  batch := .new c.batchSize

theorem startSnapshot_cases {view : Cdc.View V} (h : d.startSnapshot c view = some d') :
    ∃ deliveries phase, d.ingest.phase = .collecting deliveries ∧
      ((phase = .publishing (toLanes c (newSnapshot c d deliveries view).markers) .markers ∧
          (newSnapshot c d deliveries view).rows = []) ∨ phase = .select) ∧
      d' = { d with
        ingest := { d.ingest with
          snapshot := some (newSnapshot c d deliveries view), phase }
        snapshots := d.snapshots ++ [{
          deliveries
          view
          tables := tablesOf c.scopes (indexesOf (requestedOf c.scopes deliveries)) }] } := by
  unfold startSnapshot at h
  split at h
  · next deliveries hphase =>
    split at h
    · refine ⟨deliveries, _, hphase, ?_, (Option.some.inj h).symm⟩
      split
      · next hempty =>
        rw [List.isEmpty_iff] at hempty
        exact .inl ⟨rfl, by simp [newSnapshot, hempty, Cdc.snapshotRows, Cdc.resolveTables]⟩
      · exact .inr rfl
    · cases h
  · cases h

theorem row_cases [DecidableEq V] {reverse : List (DocumentId V)} {documents : List (Document V)}
    (h : d.row c reverse documents = some d') :
    ∃ snapshot table key rows batch, d.ingest.phase = .select ∧
      d.ingest.snapshot = some snapshot ∧ snapshot.rows = (table, key) :: rows ∧
      batch = snapshot.batch.add ((resolve c.scopes table key reverse).filter
        fun id => id.index ∈ snapshot.indexes) ∧
      ((documents.map Document.id).Perm batch.ids ∧
          d' = d.commitSnapshot c { snapshot with rows, batch } documents .slice ∨
        d' = { d with ingest := { d.ingest with
          snapshot := some { snapshot with rows, batch } } }) := by
  unfold row at h
  split at h
  · next snapshot hphase hsnap =>
    split at h
    · cases h
    · next table key rows hrows =>
      refine ⟨snapshot, table, key, rows, _, hphase, hsnap, hrows, rfl, ?_⟩
      dsimp only at h
      split at h
      · split at h
        · next hperm => exact .inl ⟨hperm, (Option.some.inj h).symm⟩
        · cases h
      · exact .inr (Option.some.inj h).symm
  · cases h

theorem endSnapshot_cases [DecidableEq V] {documents : List (Document V)}
    (h : d.endSnapshot c documents = some d') :
    ∃ snapshot, d.ingest.phase = .select ∧ d.ingest.snapshot = some snapshot ∧
      snapshot.rows = [] ∧
      (snapshot.batch.count = 0 ∧ d' = { d with ingest := { d.ingest with
          phase := .publishing (toLanes c snapshot.markers) .markers } } ∨
        (documents.map Document.id).Perm snapshot.batch.ids ∧
          d' = d.commitSnapshot c snapshot documents .lastSlice) := by
  unfold endSnapshot at h
  split at h
  · next snapshot hphase hsnap =>
    split at h
    · cases h
    · next hrows =>
      refine ⟨snapshot, hphase, hsnap, hrows, ?_⟩
      split at h
      · next hcount => exact .inl ⟨hcount, (Option.some.inj h).symm⟩
      · split at h
        · next hperm => exact .inr ⟨hperm, (Option.some.inj h).symm⟩
        · cases h
  · cases h

theorem publish_cases (h : d.publish sink = some d') :
    ∃ todo after entry side, d.ingest.phase = .publishing todo after ∧ (sink, entry) ∈ todo ∧
      (d.sinks sink).publish entry = some side ∧
      d' = { d with
        sinks := Function.update d.sinks sink side
        ingest := { d.ingest with
          phase := .publishing (todo.filter fun entry => entry.1 ≠ sink) after } } := by
  unfold publish at h
  split at h
  · next todo after hphase =>
    split at h
    · cases h
    · next s entry hfind =>
      obtain ⟨side, hside, rfl⟩ := Option.map_eq_some_iff.mp h
      obtain rfl : s = sink := by simpa using List.find?_some hfind
      exact ⟨todo, after, entry, side, hphase, List.mem_of_find?_eq_some hfind, hside, rfl⟩
  · cases h

theorem published_cases (h : d.published c = some d') :
    (d.ingest.phase = .publishing [] .live ∧ d' = { d with ingest := { d.ingest with
        phase := .select, pending := d.ingest.pending.clear } }) ∨
    (∃ snapshot, d.ingest.snapshot = some snapshot ∧ d.ingest.phase = .publishing [] .slice ∧
      d' = { d with ingest := { d.ingest with
        phase := .select, snapshot := some { snapshot with batch := snapshot.batch.clear } } }) ∨
    (∃ snapshot, d.ingest.snapshot = some snapshot ∧ d.ingest.phase = .publishing [] .lastSlice ∧
      d' = { d with ingest := { d.ingest with
        phase := .publishing (toLanes c snapshot.markers) .markers
        snapshot := some { snapshot with batch := snapshot.batch.clear } } }) ∨
    (∃ snapshot, d.ingest.snapshot = some snapshot ∧ d.ingest.phase = .publishing [] .markers ∧
      d' = { d with ingest := { d.ingest with phase := .acking snapshot.handles } }) := by
  unfold published at h
  split at h
  · next hphase => exact .inl ⟨hphase, (Option.some.inj h).symm⟩
  · next snapshot hphase hsnap =>
    exact .inr (.inl ⟨snapshot, hsnap, hphase, (Option.some.inj h).symm⟩)
  · next snapshot hphase hsnap =>
    exact .inr (.inr (.inl ⟨snapshot, hsnap, hphase, (Option.some.inj h).symm⟩))
  · next snapshot hphase hsnap =>
    exact .inr (.inr (.inr ⟨snapshot, hsnap, hphase, (Option.some.inj h).symm⟩))
  · cases h

theorem ackRequest_cases (h : d.ackRequest = some d') :
    ∃ ticket handles, d.ingest.phase = .acking (ticket :: handles) ∧
      d' = { d with
        requests := d.requests.ack ticket
        ingest := { d.ingest with phase := .acking handles } } := by
  unfold ackRequest at h
  split at h
  · next ticket handles hphase => exact ⟨ticket, handles, hphase, (Option.some.inj h).symm⟩
  · cases h

theorem finished_cases (h : d.finished = some d') :
    d.ingest.phase = .acking [] ∧
      d' = { d with ingest := { d.ingest with phase := .select, snapshot := none } } := by
  unfold finished at h
  split at h
  · next hphase => exact ⟨hphase, (Option.some.inj h).symm⟩
  · cases h

theorem stop_cases (h : d.stop = some d') :
    d.ingest.phase = .select ∧ d.ingest.snapshot = none ∧
      d' = { d with ingest := { d.ingest with phase := .stopped } } := by
  unfold stop at h
  split at h
  · next hphase hsnap =>
    split at h
    · exact ⟨hphase, hsnap, (Option.some.inj h).symm⟩
    · cases h
  · cases h

theorem ingestFail_cases (h : d.ingestFail c = some d') :
    d.ingest.phase ≠ .down ∧ d.ingest.phase ≠ .stopped ∧
      d' = { d with
        requests := d.ingest.heldTickets.foldl Stream.Channel.release d.requests
        ingest := .down c.batchSize } := by
  unfold ingestFail at h
  split at h
  · cases h
  · cases h
  · next hdown hstopped => exact ⟨hdown, hstopped, (Option.some.inj h).symm⟩

end Snapshots

section Engines

variable [DecidableEq V] [ValueText V] {a : EngineAction V}

omit [DecidableEq V] [ValueText V] in
theorem request_cases (h : d.request sink = some d') :
    ∃ indexes staging requests, (d.sinks sink).phase = .requesting indexes staging ∧
      d.requests.publish { sink, indexes } = some requests ∧
      d' = { d.withSide sink ((d.sinks sink).requested indexes staging) with
        requests
        requestLog := d.requestLog ++ [{ sink, indexes }] } := by
  unfold request at h
  split at h
  · next indexes staging hphase =>
    obtain ⟨requests, hp, rfl⟩ := Option.map_eq_some_iff.mp h
    exact ⟨indexes, staging, requests, hphase, hp, rfl⟩
  · cases h

/-- An engine's step publishes its request or touches only its own side. -/
theorem engineStep_cases (h : d.engineStep c sink a = some d') :
    sink ∈ c.sinks ∧ (a = .request ∧ d.request sink = some d' ∨
      ∃ side, sideStep c (d.sinks sink) a = some side ∧ (a = .start → d.spawned = true) ∧
        d' = d.withSide sink side) := by
  unfold engineStep at h
  split at h
  · next hsink =>
    refine ⟨hsink, ?_⟩
    split at h
    · exact .inl ⟨rfl, h⟩
    · split at h
      · next hspawned =>
        obtain ⟨side, hside, rfl⟩ := Option.map_eq_some_iff.mp h
        exact .inr ⟨side, hside, fun _ => hspawned, rfl⟩
      · cases h
    · next hrequest hstart =>
      obtain ⟨side, hside, rfl⟩ := Option.map_eq_some_iff.mp h
      exact .inr ⟨side, hside, fun ha => absurd ha hstart, rfl⟩
  · cases h

omit [ValueText V] in
theorem spawn_cases (h : d.spawn c = some d') :
    d.spawned = false ∧ (∀ sink ∈ c.sinks, (d.sinks sink).phase = .staged) ∧
      d' = { d with spawned := true } := by
  unfold spawn at h
  split at h
  · next hguard =>
    simp only [Bool.and_eq_true, Bool.not_eq_true', List.all_eq_true, decide_eq_true_eq] at hguard
    exact ⟨hguard.1, hguard.2, (Option.some.inj h).symm⟩
  · cases h

end Engines

section Moves

variable [DecidableEq V] [ValueText V]

/-- Every step of the daemon, with the guard it passed and the state it leads to. -/
inductive Move (c : Config) (d : Deployment V) : Action V → Deployment V → Prop where
  | slot {a : Action V} (slot : Slot) : a = .dropSlot ∨ a = .invalidateSlot →
      Move c d a { d with slot }
  | spawn : d.spawned = false → (∀ sink ∈ c.sinks, (d.sinks sink).phase = .staged) →
      Move c d .spawn { d with spawned := true }
  | prepare : d.ingest.phase = .down → d.spawned = true →
      Move c d (.ingest .prepare) { d.ensureSlot with ingest := { d.ingest with phase := .prepared } }
  | live : d.ingest.phase = .prepared → d.ensureSlot.slot = .valid →
      Move c d (.ingest .live) { d.ensureSlot with
        positions := some (.new c.startLsn (d.positions.elim 0 Cdc.Positions.nextSeq))
        ingest := { d.ingest with phase := .select }
        streams := d.streams + 1
        changes := [] }
  | change {table : TableName} {key : RowKey V} {reverse : List (DocumentId V)} {lsn : ℕ}
      {positions : Cdc.Positions} : d.polling = true → d.positions = some positions →
      Move c d (.ingest (.change table key reverse lsn)) { d with
        positions := some (positions.push lsn)
        ingest := { d.ingest with
          phase := .draining
          pending := { d.ingest.pending.add (resolve c.scopes table key reverse) with
            position := some positions.nextSeq } }
        changes := d.changes ++ [⟨positions.nextSeq, resolve c.scopes table key reverse⟩] }
  | idle {lsn : ℕ} {positions : Cdc.Positions} : d.polling = true → d.positions = some positions →
      Move c d (.ingest (.idle lsn)) { d with positions := some (positions.registerConfirmed lsn) }
  | endLive : d.polling = true →
      Move c d (.ingest .endLive) { d with ingest := { d.ingest with liveEnded := true } }
  | commitLive {documents : List (Document V)} : d.ingest.phase = .draining →
      (documents.map Document.id).Perm d.ingest.pending.ids →
      Move c d (.ingest (.commitLive documents)) { d with ingest := { d.ingest with
        phase := .publishing (c.sinks.map fun sink => (sink, d.liveEntry documents)) .live } }
  | takeRequest {delivery : ℕ × Request} {requests : Stream.Channel Request} :
      d.ingest.phase = .select → d.ingest.snapshot = none →
      d.requests.recv = some (delivery, requests) →
      Move c d (.ingest .takeRequest) { d with
        requests, ingest := { d.ingest with phase := .collecting [delivery] } }
  | collect {deliveries : List (ℕ × Request)} {delivery : ℕ × Request}
      {requests : Stream.Channel Request} : d.ingest.phase = .collecting deliveries →
      d.requests.recv = some (delivery, requests) →
      Move c d (.ingest .collect) { d with
        requests, ingest := { d.ingest with phase := .collecting (deliveries ++ [delivery]) } }
  | startSnapshot {view : Cdc.View V} {deliveries : List (ℕ × Request)} {phase : IngestPhase V} :
      d.ingest.phase = .collecting deliveries →
      (phase = .publishing (toLanes c (newSnapshot c d deliveries view).markers) .markers ∧
        (newSnapshot c d deliveries view).rows = []) ∨ phase = .select →
      Move c d (.ingest (.startSnapshot view)) { d with
        ingest := { d.ingest with
          snapshot := some (newSnapshot c d deliveries view), phase }
        snapshots := d.snapshots ++ [{
          deliveries
          view
          tables := tablesOf c.scopes (indexesOf (requestedOf c.scopes deliveries)) }] }
  | row {reverse : List (DocumentId V)} {documents : List (Document V)} {snapshot : Snapshot V}
      {table : TableName} {key : RowKey V} {rows : List (TableName × RowKey V)}
      {batch : PendingBatch V} : d.ingest.phase = .select → d.ingest.snapshot = some snapshot →
      snapshot.rows = (table, key) :: rows →
      batch = snapshot.batch.add ((resolve c.scopes table key reverse).filter
        fun id => id.index ∈ snapshot.indexes) →
      Move c d (.ingest (.row reverse documents)) { d with ingest := { d.ingest with
        snapshot := some { snapshot with rows, batch } } }
  | rowCommit {reverse : List (DocumentId V)} {documents : List (Document V)}
      {snapshot : Snapshot V} {table : TableName} {key : RowKey V}
      {rows : List (TableName × RowKey V)} {batch : PendingBatch V} :
      d.ingest.phase = .select → d.ingest.snapshot = some snapshot →
      snapshot.rows = (table, key) :: rows →
      batch = snapshot.batch.add ((resolve c.scopes table key reverse).filter
        fun id => id.index ∈ snapshot.indexes) →
      (documents.map Document.id).Perm batch.ids →
      Move c d (.ingest (.row reverse documents))
        (d.commitSnapshot c { snapshot with rows, batch } documents .slice)
  | endSnapshot {documents : List (Document V)} {snapshot : Snapshot V} :
      d.ingest.phase = .select → d.ingest.snapshot = some snapshot → snapshot.rows = [] →
      snapshot.batch.count = 0 →
      Move c d (.ingest (.endSnapshot documents)) { d with ingest := { d.ingest with
        phase := .publishing (toLanes c snapshot.markers) .markers } }
  | endSnapshotCommit {documents : List (Document V)} {snapshot : Snapshot V} :
      d.ingest.phase = .select → d.ingest.snapshot = some snapshot → snapshot.rows = [] →
      (documents.map Document.id).Perm snapshot.batch.ids →
      Move c d (.ingest (.endSnapshot documents)) (d.commitSnapshot c snapshot documents .lastSlice)
  | publish {sink : SinkName} {todo : List (SinkName × Entry V)} {after : After} {entry : Entry V}
      {side : SinkSide V} : d.ingest.phase = .publishing todo after → (sink, entry) ∈ todo →
      (d.sinks sink).publish entry = some side →
      Move c d (.ingest (.publish sink)) { d with
        sinks := Function.update d.sinks sink side
        ingest := { d.ingest with
          phase := .publishing (todo.filter fun entry => entry.1 ≠ sink) after } }
  | publishedLive : d.ingest.phase = .publishing [] .live →
      Move c d (.ingest .published) { d with ingest := { d.ingest with
        phase := .select, pending := d.ingest.pending.clear } }
  | publishedSlice {snapshot : Snapshot V} : d.ingest.snapshot = some snapshot →
      d.ingest.phase = .publishing [] .slice →
      Move c d (.ingest .published) { d with ingest := { d.ingest with
        phase := .select, snapshot := some { snapshot with batch := snapshot.batch.clear } } }
  | publishedLastSlice {snapshot : Snapshot V} : d.ingest.snapshot = some snapshot →
      d.ingest.phase = .publishing [] .lastSlice →
      Move c d (.ingest .published) { d with ingest := { d.ingest with
        phase := .publishing (toLanes c snapshot.markers) .markers
        snapshot := some { snapshot with batch := snapshot.batch.clear } } }
  | publishedMarkers {snapshot : Snapshot V} : d.ingest.snapshot = some snapshot →
      d.ingest.phase = .publishing [] .markers →
      Move c d (.ingest .published) { d with ingest := { d.ingest with
        phase := .acking snapshot.handles } }
  | ackRequest {ticket : ℕ} {handles : List ℕ} : d.ingest.phase = .acking (ticket :: handles) →
      Move c d (.ingest .ackRequest) { d with
        requests := d.requests.ack ticket
        ingest := { d.ingest with phase := .acking handles } }
  | finished : d.ingest.phase = .acking [] →
      Move c d (.ingest .finished) { d with ingest := { d.ingest with
        phase := .select, snapshot := none } }
  | confirm {p : ℕ} : d.confirmCall c = some p →
      Move c d (.ingest .confirm) { d with
        positions := d.positions.map fun positions => positions.confirm p
        ingest := { d.ingest with lastConfirmed := some p }
        confirmedChange :=
          d.confirmedChange || d.changes.any fun change => change.position ≤ p }
  | stop : d.ingest.phase = .select → d.ingest.snapshot = none →
      Move c d (.ingest .stop) { d with ingest := { d.ingest with phase := .stopped } }
  | fail : d.ingest.phase ≠ .down → d.ingest.phase ≠ .stopped →
      Move c d (.ingest .fail) { d with
        requests := d.ingest.heldTickets.foldl Stream.Channel.release d.requests
        ingest := .down c.batchSize }
  | request {sink : SinkName} {indexes : List IndexName} {staging : Option Continuity}
      {requests : Stream.Channel Request} : sink ∈ c.sinks →
      (d.sinks sink).phase = .requesting indexes staging →
      d.requests.publish { sink, indexes } = some requests →
      Move c d (.engine sink .request)
        { d.withSide sink ((d.sinks sink).requested indexes staging) with
          requests
          requestLog := d.requestLog ++ [{ sink, indexes }] }
  | engine {sink : SinkName} {a : EngineAction V} {side : SinkSide V} : sink ∈ c.sinks →
      (a = .start → d.spawned = true) → sideStep c (d.sinks sink) a = some side →
      Move c d (.engine sink a) (d.withSide sink side)

theorem move_of_ingestStep {a : IngestAction V} (h : d.ingestStep c a = some d') :
    Move c d (.ingest a) d' := by
  cases a with
  | prepare =>
    obtain ⟨hphase, hspawned, rfl⟩ := prepare_cases h
    exact .prepare hphase hspawned
  | live =>
    obtain ⟨hphase, hslot, rfl⟩ := live_cases h
    exact .live hphase hslot
  | change table key reverse lsn =>
    obtain ⟨_, hpoll, hpos, rfl⟩ := change_cases h
    exact .change hpoll hpos
  | idle lsn =>
    obtain ⟨_, hpoll, hpos, rfl⟩ := idle_cases h
    exact .idle hpoll hpos
  | endLive =>
    obtain ⟨hpoll, rfl⟩ := endLive_cases h
    exact .endLive hpoll
  | commitLive documents =>
    obtain ⟨hphase, hperm, rfl⟩ := commitLive_cases h
    exact .commitLive hphase hperm
  | takeRequest =>
    obtain ⟨_, _, hphase, hsnap, hrecv, rfl⟩ := takeRequest_cases h
    exact .takeRequest hphase hsnap hrecv
  | collect =>
    obtain ⟨_, _, _, hphase, hrecv, rfl⟩ := collect_cases h
    exact .collect hphase hrecv
  | startSnapshot view =>
    obtain ⟨_, _, hphase, hnext, rfl⟩ := startSnapshot_cases h
    exact .startSnapshot hphase hnext
  | row reverse documents =>
    obtain ⟨_, _, _, _, _, hphase, hsnap, hrows, hbatch, ⟨hperm, rfl⟩ | rfl⟩ := row_cases h
    · exact .rowCommit hphase hsnap hrows hbatch hperm
    · exact .row hphase hsnap hrows hbatch
  | endSnapshot documents =>
    obtain ⟨_, hphase, hsnap, hrows, ⟨hcount, rfl⟩ | ⟨hperm, rfl⟩⟩ := endSnapshot_cases h
    · exact .endSnapshot hphase hsnap hrows hcount
    · exact .endSnapshotCommit hphase hsnap hrows hperm
  | publish sink =>
    obtain ⟨_, _, _, _, hphase, hmem, hside, rfl⟩ := publish_cases h
    exact .publish hphase hmem hside
  | published =>
    obtain ⟨hphase, rfl⟩ | ⟨_, hsnap, hphase, rfl⟩ | ⟨_, hsnap, hphase, rfl⟩ |
      ⟨_, hsnap, hphase, rfl⟩ := published_cases h
    · exact .publishedLive hphase
    · exact .publishedSlice hsnap hphase
    · exact .publishedLastSlice hsnap hphase
    · exact .publishedMarkers hsnap hphase
  | ackRequest =>
    obtain ⟨_, _, hphase, rfl⟩ := ackRequest_cases h
    exact .ackRequest hphase
  | finished =>
    obtain ⟨hphase, rfl⟩ := finished_cases h
    exact .finished hphase
  | confirm =>
    obtain ⟨_, hcall, rfl⟩ := confirm_cases h
    exact .confirm hcall
  | stop =>
    obtain ⟨hphase, hsnap, rfl⟩ := stop_cases h
    exact .stop hphase hsnap
  | fail =>
    obtain ⟨hdown, hstopped, rfl⟩ := ingestFail_cases h
    exact .fail hdown hstopped

theorem move_of_step {a : Action V} (h : d.step c a = some d') : Move c d a d' := by
  cases a with
  | dropSlot =>
    cases h
    exact .slot .missing (.inl rfl)
  | invalidateSlot =>
    simp only [step] at h
    split at h
    · cases h
      exact .slot .invalidated (.inr rfl)
    · cases h
  | spawn =>
    obtain ⟨hnot, hstaged, rfl⟩ := spawn_cases h
    exact .spawn hnot hstaged
  | ingest a => exact move_of_ingestStep h
  | engine sink a =>
    obtain ⟨hs, ⟨rfl, hreq⟩ | ⟨side, hside, hstart, rfl⟩⟩ := engineStep_cases h
    · obtain ⟨_, _, _, hphase, hp, rfl⟩ := request_cases hreq
      exact .request hs hphase hp
    · exact .engine hs hstart hside

end Moves

end Flusso.Deployment
