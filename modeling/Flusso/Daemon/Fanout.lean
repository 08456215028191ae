import Flusso.Daemon.Requests
import Flusso.Daemon.Watermark
import Mathlib.Data.List.Nodup

/-! # Fanning a snapshot out

One scan serves every request it was started for. Each row's documents go
through the batch being filled and the slices at hand onto the lanes that asked,
so by the time a marker is published the rows of its indexes precede it.
-/

namespace Flusso.Deployment

variable {V : Type*} {c : Config} {d d' : Deployment V} {a : Action V} {sink : SinkName}

section Todo

/-- What is at hand to publish, once per lane: a live batch, slices of the snapshot being
served, or its markers. -/
structure Todo (c : Config) (d : Deployment V) : Prop where
  nodup : ∀ todo after, d.ingest.phase = .publishing todo after → (todo.map Prod.fst).Nodup
  live : ∀ todo, d.ingest.phase = .publishing todo .live →
    ∀ entry ∈ todo, ∃ documents, entry.2 = d.liveEntry documents
  slices : ∀ todo after, d.ingest.phase = .publishing todo after →
    after = .slice ∨ after = .lastSlice → ∃ s, d.ingest.snapshot = some s ∧
      ∀ entry ∈ todo, ∃ documents, entry.2 = .slice s.number documents ∧
        ∀ x ∈ documents, s.requested.Asks entry.1 x.id.index
  markers : ∀ todo, d.ingest.phase = .publishing todo .markers →
    ∃ s, d.ingest.snapshot = some s ∧ ∀ entry ∈ todo, entry.1 ∈ c.sinks ∧
      ∃ indexes, entry.2 = .complete s.number indexes ∧ (entry.1, indexes) ∈ s.requested

theorem nodup_toLanes {todo : List (SinkName × Entry V)} (h : (todo.map Prod.fst).Nodup) :
    ((toLanes c todo).map Prod.fst).Nodup :=
  h.sublist (List.filter_sublist.map _)

theorem entry_eq {todo : List (SinkName × Entry V)} (h : (todo.map Prod.fst).Nodup)
    {e e' : Entry V} (he : (sink, e) ∈ todo) (he' : (sink, e') ∈ todo) : e = e' :=
  congrArg Prod.snd (List.inj_on_of_nodup_map h he he' rfl)

theorem Todo.of_slice (h : d.Todo c) {todo : List (SinkName × Entry V)} {after : After} {n : ℕ}
    {documents : List (Document V)} (hphase : d.ingest.phase = .publishing todo after)
    (hmem : (sink, .slice n documents) ∈ todo) :
    ∃ s, d.ingest.snapshot = some s ∧ n = s.number ∧
      ∀ x ∈ documents, s.requested.Asks sink x.id.index := by
  have hslices (hafter : after = .slice ∨ after = .lastSlice) :
      ∃ s, d.ingest.snapshot = some s ∧ n = s.number ∧
        ∀ x ∈ documents, s.requested.Asks sink x.id.index := by
    obtain ⟨s, hs, hall⟩ := h.slices todo after hphase hafter
    obtain ⟨_, heq, hasks⟩ := hall _ hmem
    cases heq
    exact ⟨s, hs, rfl, hasks⟩
  cases after with
  | live =>
    obtain ⟨_, heq⟩ := h.live todo hphase _ hmem
    cases heq
  | slice => exact hslices (.inl rfl)
  | lastSlice => exact hslices (.inr rfl)
  | markers =>
    obtain ⟨_, -, hall⟩ := h.markers todo hphase
    obtain ⟨-, _, heq, -⟩ := hall _ hmem
    cases heq

theorem Todo.of_complete (h : d.Todo c) {todo : List (SinkName × Entry V)} {after : After} {n : ℕ}
    {indexes : List IndexName} (hphase : d.ingest.phase = .publishing todo after)
    (hmem : (sink, .complete n indexes) ∈ todo) :
    after = .markers ∧ ∃ s, d.ingest.snapshot = some s ∧ n = s.number ∧ sink ∈ c.sinks ∧
      (sink, indexes) ∈ s.requested := by
  have hslices (hafter : after = .slice ∨ after = .lastSlice) : False := by
    obtain ⟨_, -, hall⟩ := h.slices todo after hphase hafter
    obtain ⟨_, heq, -⟩ := hall _ hmem
    cases heq
  cases after with
  | live =>
    obtain ⟨_, heq⟩ := h.live todo hphase _ hmem
    cases heq
  | slice => exact (hslices (.inl rfl)).elim
  | lastSlice => exact (hslices (.inr rfl)).elim
  | markers =>
    obtain ⟨s, hs, hall⟩ := h.markers todo hphase
    obtain ⟨hsink, _, heq, hrequested⟩ := hall _ hmem
    cases heq
    exact ⟨rfl, s, hs, rfl, hsink, hrequested⟩

theorem todo_of_phase (h : ∀ todo after, d.ingest.phase ≠ .publishing todo after) : d.Todo c where
  nodup todo after hphase := absurd hphase (h todo after)
  live todo hphase := absurd hphase (h todo _)
  slices todo after hphase := absurd hphase (h todo after)
  markers todo hphase := absurd hphase (h todo _)

theorem Todo.beside (h : d.Todo c) (hingest : d'.ingest = d.ingest)
    (hstreams : d'.streams = d.streams) : d'.Todo c := by
  constructor
  · rw [hingest]
    exact h.nodup
  · simp only [liveEntry, hingest, hstreams]
    exact h.live
  · rw [hingest]
    exact h.slices
  · rw [hingest]
    exact h.markers

theorem todo_slices {s : Snapshot V} {documents : List (Document V)} {after : After}
    (hsnap : d.ingest.snapshot = some s)
    (hphase : d.ingest.phase = .publishing (toLanes c (s.slices documents)) after)
    (hafter : after = .slice ∨ after = .lastSlice)
    (hnodup : (s.requested.map Prod.fst).Nodup) : d.Todo c := by
  constructor
  · intro todo after' heq
    obtain ⟨rfl, -⟩ : _ = todo ∧ _ := by simpa [hphase] using heq
    exact nodup_toLanes (hnodup.sublist Snapshot.map_fst_slices)
  · intro todo heq
    rcases hafter with rfl | rfl <;> simp [hphase] at heq
  · intro todo after' heq _
    obtain ⟨rfl, -⟩ : _ = todo ∧ _ := by simpa [hphase] using heq
    refine ⟨s, hsnap, fun entry hentry => ?_⟩
    obtain ⟨indexes, hmem, he, -⟩ := Snapshot.mem_slices.mp (List.mem_of_mem_filter hentry)
    refine ⟨_, he, fun x hx => ⟨indexes, hmem, ?_⟩⟩
    simpa using (List.mem_filter.mp hx).2
  · intro todo heq
    rcases hafter with rfl | rfl <;> simp [hphase] at heq

theorem todo_markers {s : Snapshot V} (hsnap : d.ingest.snapshot = some s)
    (hphase : d.ingest.phase = .publishing (toLanes c s.markers) .markers)
    (hnodup : (s.requested.map Prod.fst).Nodup) : d.Todo c := by
  constructor
  · intro todo after heq
    obtain ⟨rfl, -⟩ : _ = todo ∧ _ := by simpa [hphase] using heq
    exact nodup_toLanes (Snapshot.map_fst_markers ▸ hnodup)
  · simp [hphase]
  · intro todo after heq hafter
    obtain ⟨-, rfl⟩ : _ = todo ∧ After.markers = after := by simpa [hphase] using heq
    rcases hafter with hafter | hafter <;> cases hafter
  · intro todo heq
    obtain rfl : toLanes c s.markers = todo := by simpa [hphase] using heq
    refine ⟨s, hsnap, fun entry hentry => ?_⟩
    obtain ⟨hmarker, hsink⟩ := List.mem_filter.mp hentry
    obtain ⟨indexes, hmem, he⟩ := Snapshot.mem_markers.mp hmarker
    exact ⟨by simpa using hsink, indexes, he, hmem⟩

variable [DecidableEq V] [ValueText V]

theorem Todo.step (h : d.Todo c)
    (hkeys : ∀ s, d.ingest.snapshot = some s → (s.requested.map Prod.fst).Nodup)
    (hs : d.step c a = some d') : d'.Todo c := by
  cases move_of_step hs with
  | slot => exact h.beside rfl rfl
  | spawn => exact h.beside rfl rfl
  | prepare _ _ => exact todo_of_phase (by simp)
  | live _ _ => exact todo_of_phase (by simp)
  | change _ _ => exact todo_of_phase (by simp)
  | idle _ _ => exact h.beside rfl rfl
  | endLive hpoll =>
    refine todo_of_phase ?_
    rcases polling_phase hpoll with hphase | hphase <;> simp [hphase]
  | @commitLive documents hphase _ =>
    constructor
    · rintro todo after ⟨⟩
      simpa [Function.comp_def] using c.nodup
    · rintro todo ⟨⟩ entry hentry
      obtain ⟨s, -, rfl⟩ := List.mem_map.mp hentry
      exact ⟨documents, rfl⟩
    · rintro todo after ⟨⟩ hafter
      rcases hafter with hafter | hafter <;> cases hafter
    · rintro todo ⟨⟩
  | takeRequest _ _ _ => exact todo_of_phase (by simp)
  | collect _ _ => exact todo_of_phase (by simp)
  | startSnapshot _ hnext =>
    rcases hnext with ⟨rfl, -⟩ | rfl
    · exact todo_markers rfl rfl nodup_keys_requestedOf
    · exact todo_of_phase (by simp)
  | row hphase _ _ _ => exact todo_of_phase (by simp [hphase])
  | rowCommit _ hsnap _ _ _ =>
    have hnodup := hkeys _ hsnap
    exact todo_slices rfl rfl (.inl rfl) hnodup
  | endSnapshot _ hsnap _ _ => exact todo_markers hsnap rfl (hkeys _ hsnap)
  | endSnapshotCommit _ hsnap _ _ => exact todo_slices rfl rfl (.inr rfl) (hkeys _ hsnap)
  | @publish s todo after entry side hphase _ _ =>
    constructor
    · rintro todo' after' ⟨⟩
      exact (h.nodup todo after hphase).sublist (List.filter_sublist.map _)
    · rintro todo' ⟨⟩ x hx
      exact h.live todo hphase x (List.mem_of_mem_filter hx)
    · rintro todo' after' ⟨⟩ hafter
      obtain ⟨x, hx, hall⟩ := h.slices todo after hphase hafter
      exact ⟨x, hx, fun y hy => hall y (List.mem_of_mem_filter hy)⟩
    · rintro todo' ⟨⟩
      obtain ⟨x, hx, hall⟩ := h.markers todo hphase
      exact ⟨x, hx, fun y hy => hall y (List.mem_of_mem_filter hy)⟩
  | publishedLive _ => exact todo_of_phase (by simp)
  | publishedSlice _ _ => exact todo_of_phase (by simp)
  | publishedLastSlice hsnap _ =>
    have hnodup := hkeys _ hsnap
    exact todo_markers rfl rfl hnodup
  | publishedMarkers _ _ => exact todo_of_phase (by simp)
  | ackRequest _ => exact todo_of_phase (by simp)
  | finished _ => exact todo_of_phase (by simp)
  | confirm hcall =>
    refine todo_of_phase ?_
    rcases (confirmCall_cases hcall).1 with hphase | hphase <;> simp [hphase]
  | stop _ _ => exact todo_of_phase (by simp)
  | fail _ _ => exact todo_of_phase (by simp [Ingest.down])
  | request _ _ _ => exact h.beside rfl rfl
  | engine _ _ _ => exact h.beside rfl rfl

theorem todo_of_reachable (h : (daemon V c).Reachable d) : d.Todo c := by
  refine Transition.Machine.Reachable.invariant (m := daemon V c) (P := Todo c)
    (fun d hd => todo_of_phase (by simp [hd.ingest, Ingest.down])) (fun d a d' hr hp hs => ?_) h
  refine hp.step (fun s hsnap => ?_) hs
  obtain ⟨held, hserving⟩ := serving_of_reachable hr
  obtain ⟨run, -, hserves, -⟩ := hserving.running s hsnap
  rw [hserves.requested]
  exact nodup_keys_requestedOf

end Todo

section Scan

/-- A slice of the snapshot on the lane carries the document. -/
def Delivered (log : List (Entry V)) (n : ℕ) (id : DocumentId V) : Prop :=
  ∃ documents, .slice n documents ∈ log ∧ ∃ x ∈ documents, x.id = id

/-- The rows hold the root row of a document. -/
def Owed (c : Config) (rows : List (TableName × RowKey V)) (id : DocumentId V) : Prop :=
  ∃ root, c.scopes.lookup id.index = some root ∧ (root.table, id.key) ∈ rows

/-- Rows are still added to the snapshot's batch. -/
def Filling : IngestPhase V → Prop
  | .publishing _ .live => True
  | .publishing _ _ => False
  | .acking _ => False
  | _ => True

/-- The snapshot's stream has ended. -/
def Drained : IngestPhase V → Prop
  | .publishing _ .lastSlice => True
  | .publishing _ .markers => True
  | .acking _ => True
  | _ => False

/-- A document not on its lane yet is in the slices at hand, or in the batch being filled. -/
def InHand (phase : IngestPhase V) (s : Snapshot V) (sink : SinkName) (id : DocumentId V) : Prop :=
  Filling phase ∧ id ∈ s.batch.ids ∨ ∃ todo after, phase = .publishing todo after ∧
    (after = .slice ∨ after = .lastSlice) ∧
      ∃ documents, (sink, .slice s.number documents) ∈ todo ∧ ∃ x ∈ documents, x.id = id

/-- Every row the scan yielded so far is on the lanes that asked for it, or in hand. -/
structure Scanning (c : Config) (d : Deployment V) (s : Snapshot V) (run : SnapshotRun V) :
    Prop where
  rows : ∃ scanned, run.rows = scanned ++ s.rows ∧ ∀ sink ∈ c.sinks, ∀ id,
    s.requested.Asks sink id.index → Owed c scanned id →
      Delivered (d.sinks sink).log s.number id ∨ InHand d.ingest.phase s sink id
  drained : Drained d.ingest.phase → s.rows = []
  empty : s.batch.count = 0 → s.batch.ids = []

/-- The lanes carry what was asked for, each marker after the documents it completes. -/
structure Fanned (c : Config) (d : Deployment V) : Prop where
  slices : ∀ sink n documents, .slice n documents ∈ (d.sinks sink).log →
    ∃ run, d.snapshots[n]? = some run ∧
      ∀ x ∈ documents, (requestedOf c.scopes run.deliveries).Asks sink x.id.index
  markers : ∀ sink (k n : ℕ) indexes, (d.sinks sink).log[k]? = some (.complete n indexes) →
    ∃ run, d.snapshots[n]? = some run ∧ (sink, indexes) ∈ requestedOf c.scopes run.deliveries ∧
      ∀ id, id.index ∈ indexes → Owed c run.rows id → Delivered ((d.sinks sink).log.take k) n id
  scanning : ∀ s run, d.ingest.snapshot = some s → d.snapshots[s.number]? = some run →
    Scanning c d s run

variable {s s' : Snapshot V} {run : SnapshotRun V}

theorem Delivered.mono {log log' : List (Entry V)} {n : ℕ} {id : DocumentId V}
    (h : Delivered log n id) (hsub : log ⊆ log') : Delivered log' n id := by
  obtain ⟨documents, hmem, hx⟩ := h
  exact ⟨documents, hsub hmem, hx⟩

theorem InHand.of_filling {phase : IngestPhase V} {id : DocumentId V}
    (h : InHand phase s sink id) (hfilling : Filling phase) : id ∈ s.batch.ids := by
  rcases h with ⟨-, hid⟩ | ⟨todo, after, rfl, hafter, -⟩
  · exact hid
  · rcases hafter with rfl | rfl <;> exact hfilling.elim

theorem InHand.slice {todo : List (SinkName × Entry V)} {after : After} {id : DocumentId V}
    (h : InHand (.publishing todo after) s sink id) (hafter : after ≠ .live) :
    ∃ documents, (sink, .slice s.number documents) ∈ todo ∧ ∃ x ∈ documents, x.id = id := by
  rcases h with ⟨hfilling, -⟩ | ⟨todo', after', heq, -, hslice⟩
  · cases after with
    | live => exact absurd rfl hafter
    | _ => exact hfilling.elim
  · cases heq
    exact hslice

theorem Scanning.move (h : Scanning c d s run) (hrows : s'.rows = s.rows)
    (hnumber : s'.number = s.number) (hrequested : s'.requested = s.requested)
    (hlog : ∀ sink, (d.sinks sink).log ⊆ (d'.sinks sink).log)
    (hhand : ∀ sink ∈ c.sinks, ∀ id, s.requested.Asks sink id.index →
      InHand d.ingest.phase s sink id →
        Delivered (d'.sinks sink).log s.number id ∨ InHand d'.ingest.phase s' sink id)
    (hdrained : Drained d'.ingest.phase → s.rows = [])
    (hempty : s'.batch.count = 0 → s'.batch.ids = []) : Scanning c d' s' run where
  rows := by
    obtain ⟨scanned, hsplit, hall⟩ := h.rows
    refine ⟨scanned, by rw [hrows, hsplit], fun sink hsink id hasks howed => ?_⟩
    rw [hrequested] at hasks
    rw [hnumber]
    rcases hall sink hsink id hasks howed with hdelivered | hinhand
    · exact .inl (hdelivered.mono (hlog sink))
    · exact hhand sink hsink id hasks hinhand
  drained hp := hrows ▸ hdrained hp
  empty := hempty

theorem Scanning.filling (h : Scanning c d s run) (hold : Filling d.ingest.phase)
    (hnew : Filling d'.ingest.phase) (hlog : ∀ sink, (d.sinks sink).log ⊆ (d'.sinks sink).log) :
    Scanning c d' s run := by
  refine h.move rfl rfl rfl hlog (fun sink _ id _ hhand => ?_) (fun hdrained => ?_) h.empty
  · exact .inr (.inl ⟨hnew, hhand.of_filling hold⟩)
  · cases hphase : d'.ingest.phase with
    | publishing todo after =>
      rw [hphase] at hnew hdrained
      cases after with
      | live => exact hdrained.elim
      | _ => exact hnew.elim
    | acking handles =>
      rw [hphase] at hnew
      exact hnew.elim
    | _ =>
      rw [hphase] at hdrained
      exact hdrained.elim

/-- The next row joins the batch with the documents of every index over its table. -/
theorem Scanning.row [DecidableEq V] {table : TableName} {key : RowKey V}
    {rows : List (TableName × RowKey V)} {reverse : List (DocumentId V)} {batch : PendingBatch V}
    (h : Scanning c d s run) (hserves : s.Serves c run) (hfilling : Filling d.ingest.phase)
    (hrows : s.rows = (table, key) :: rows) (hsinks : d'.sinks = d.sinks)
    (hphase : d'.ingest.phase = d.ingest.phase)
    (hbatch : batch = s.batch.add
      ((resolve c.scopes table key reverse).filter fun id => id.index ∈ s.indexes)) :
    Scanning c d' { s with rows, batch } run where
  rows := by
    obtain ⟨scanned, hsplit, hall⟩ := h.rows
    refine ⟨scanned ++ [(table, key)], by simp [hsplit, hrows], fun sink hsink id hasks howed => ?_⟩
    rw [hsinks, hphase]
    subst hbatch
    obtain ⟨root, hroot, hmem⟩ := howed
    rcases List.mem_append.mp hmem with hmem | hmem
    · rcases hall sink hsink id hasks ⟨root, hroot, hmem⟩ with hdelivered | hinhand
      · exact .inl hdelivered
      · refine .inr (.inl ⟨hfilling, PendingBatch.mem_ids_add.mpr (.inl ?_)⟩)
        exact hinhand.of_filling hfilling
    · obtain ⟨rfl, rfl⟩ : root.table = table ∧ id.key = key := by simpa using hmem
      refine .inr (.inl ⟨hfilling, PendingBatch.mem_ids_add.mpr (.inr ?_)⟩)
      refine List.mem_filter.mpr ⟨root_mem_resolve hroot _ _, decide_eq_true ?_⟩
      rw [hserves.indexes]
      exact mem_indexesOf.mpr ⟨sink, hasks⟩
  drained hdrained := by
    have hnil := h.drained (hphase ▸ hdrained)
    rw [hrows] at hnil
    cases hnil
  empty hcount := by simp [hbatch] at hcount

/-- The batch is built and sliced: every lane that asked has its documents at hand. -/
theorem Scanning.commit {documents : List (Document V)} {after : After}
    (h : Scanning c d s run) (hfilling : Filling d.ingest.phase)
    (hafter : after = .slice ∨ after = .lastSlice) (hdrained : after = .lastSlice → s.rows = [])
    (hperm : (documents.map Document.id).Perm s.batch.ids) :
    Scanning c (d.commitSnapshot c s documents after) s run := by
  refine h.move rfl rfl rfl (fun _ => List.Subset.refl _) (fun sink hsink id hasks hhand => ?_)
    (fun hd => hdrained ?_) h.empty
  · obtain ⟨x, hx, rfl⟩ := List.mem_map.mp (hperm.mem_iff.mpr (hhand.of_filling hfilling))
    obtain ⟨indexes, hmem, hindex⟩ := hasks
    have hkept : x ∈ documents.filter fun document => decide (document.id.index ∈ indexes) :=
      List.mem_filter.mpr ⟨hx, decide_eq_true hindex⟩
    refine .inr (.inr ⟨_, after, rfl, hafter, _, ?_, x, hkept, rfl⟩)
    refine List.mem_filter.mpr ⟨?_, decide_eq_true hsink⟩
    exact Snapshot.mem_slices.mpr ⟨indexes, hmem, rfl, List.ne_nil_of_mem hkept⟩
  · rcases hafter with rfl | rfl
    · exact hd.elim
    · rfl

/-- With nothing in hand and no row left, every row is on the lanes that asked. -/
theorem Scanning.complete (h : Scanning c d s run) (hrows : s.rows = [])
    (hhand : ∀ sink id, ¬ InHand d.ingest.phase s sink id) {id : DocumentId V} (hsink : sink ∈ c.sinks)
    (hasks : s.requested.Asks sink id.index) (howed : Owed c run.rows id) :
    Delivered (d.sinks sink).log s.number id := by
  obtain ⟨scanned, hsplit, hall⟩ := h.rows
  rw [hrows, List.append_nil] at hsplit
  exact (hall sink hsink id hasks (hsplit ▸ howed)).resolve_right (hhand sink id)

theorem Fanned.frame (h : d.Fanned c) (hlog : ∀ sink, (d'.sinks sink).log = (d.sinks sink).log)
    (hsnapshots : d'.snapshots = d.snapshots)
    (hscan : ∀ s run, d'.ingest.snapshot = some s → d.snapshots[s.number]? = some run →
      Scanning c d' s run) : d'.Fanned c where
  slices sink n documents hmem := by
    rw [hsnapshots]
    exact h.slices sink n documents (hlog sink ▸ hmem)
  markers sink k n indexes hget := by
    rw [hsnapshots, hlog]
    exact h.markers sink k n indexes (hlog sink ▸ hget)
  scanning s run hsnap hrun := hscan s run hsnap (hsnapshots ▸ hrun)

theorem Fanned.beside (h : d.Fanned c) (hlog : ∀ sink, (d'.sinks sink).log = (d.sinks sink).log)
    (hsnapshots : d'.snapshots = d.snapshots) (hsnap : d'.ingest.snapshot = d.ingest.snapshot)
    (hphase : d'.ingest.phase = d.ingest.phase) : d'.Fanned c := by
  refine h.frame hlog hsnapshots fun s run hs hrun => ?_
  have hscan := h.scanning s run (hsnap ▸ hs) hrun
  refine hscan.move rfl rfl rfl (fun sink => by rw [hlog]; exact List.Subset.refl _) ?_ ?_ hscan.empty
  · exact fun sink _ id _ hhand => .inr (hphase ▸ hhand)
  · exact fun hdrained => hscan.drained (hphase ▸ hdrained)

theorem Fanned.filling (h : d.Fanned c) (hlog : ∀ sink, (d'.sinks sink).log = (d.sinks sink).log)
    (hsnapshots : d'.snapshots = d.snapshots) (hsnap : d'.ingest.snapshot = d.ingest.snapshot)
    (hold : Filling d.ingest.phase) (hnew : Filling d'.ingest.phase) : d'.Fanned c :=
  h.frame hlog hsnapshots fun s run hs hrun =>
    (h.scanning s run (hsnap ▸ hs) hrun).filling hold hnew fun sink => by
      rw [hlog]
      exact List.Subset.refl _

theorem log_publish {side : SinkSide V} {entry : Entry V}
    (hside : side.log = (d.sinks sink).log ++ [entry]) (x : SinkName) :
    (Function.update d.sinks sink side x).log = (d.sinks x).log ∨
      x = sink ∧ (Function.update d.sinks sink side x).log = (d.sinks x).log ++ [entry] := by
  by_cases hx : x = sink
  · subst hx
    exact .inr ⟨rfl, by rw [Function.update_self, hside]⟩
  · exact .inl (by rw [Function.update_of_ne hx])

theorem Scanning.publish {todo : List (SinkName × Entry V)} {after : After} {entry : Entry V}
    {side : SinkSide V} (h : Scanning c d s run) (ht : d.Todo c)
    (hphase : d.ingest.phase = .publishing todo after) (hmem : (sink, entry) ∈ todo)
    (hside : side.log = (d.sinks sink).log ++ [entry])
    (hsinks : d'.sinks = Function.update d.sinks sink side)
    (hphase' : d'.ingest.phase = .publishing (todo.filter fun entry => entry.1 ≠ sink) after) :
    Scanning c d' s run := by
  refine h.move rfl rfl rfl (fun x => ?_) (fun x _ id _ hhand => ?_) (fun hdrained => ?_) h.empty
  · rw [hsinks]
    rcases log_publish hside x with hlog | ⟨-, hlog⟩
    · exact hlog ▸ List.Subset.refl _
    · exact hlog ▸ List.subset_append_left _ _
  · rw [hphase] at hhand
    rw [hphase']
    rcases hhand with ⟨hfilling, hid⟩ | ⟨_, _, heq, hafter, documents, hslice, hx⟩
    · refine .inr (.inl ⟨?_, hid⟩)
      cases after with
      | live => trivial
      | _ => exact hfilling.elim
    · cases heq
      by_cases hxs : x = sink
      · subst hxs
        obtain rfl := entry_eq (ht.nodup todo after hphase) hmem hslice
        refine .inl ⟨documents, ?_, hx⟩
        rw [hsinks, Function.update_self, hside]
        exact List.mem_append_right _ (List.mem_singleton.mpr rfl)
      · refine .inr (.inr ⟨_, after, rfl, hafter, documents, ?_, hx⟩)
        exact List.mem_filter.mpr ⟨hslice, decide_eq_true hxs⟩
  · refine h.drained ?_
    rw [hphase]
    rw [hphase'] at hdrained
    cases after with
    | lastSlice => trivial
    | markers => trivial
    | _ => exact hdrained.elim

/-- A marker at hand finds every document of its indexes on its lane. -/
theorem Fanned.delivered (h : d.Fanned c) (ht : d.Todo c) {held : List (ℕ × Request)}
    (hserving : d.Serving c held) {todo : List (SinkName × Entry V)} {after : After} {n : ℕ}
    {indexes : List IndexName} (hphase : d.ingest.phase = .publishing todo after)
    (hmem : (sink, .complete n indexes) ∈ todo) :
    ∃ run, d.snapshots[n]? = some run ∧ (sink, indexes) ∈ requestedOf c.scopes run.deliveries ∧
      ∀ id, id.index ∈ indexes → Owed c run.rows id → Delivered (d.sinks sink).log n id := by
  obtain ⟨rfl, s, hs, rfl, hsink, hrequested⟩ := ht.of_complete hphase hmem
  obtain ⟨run, hrun, hserves, -⟩ := hserving.running s hs
  have hscan := h.scanning s run hs hrun
  have hrows : s.rows = [] := by
    refine hscan.drained ?_
    rw [hphase]
    trivial
  refine ⟨run, hrun, hserves.requested ▸ hrequested, fun id hid howed => ?_⟩
  refine hscan.complete hrows (fun x id hhand => ?_) hsink ⟨indexes, hrequested, hid⟩ howed
  rw [hphase] at hhand
  rcases hhand with ⟨hfilling, -⟩ | ⟨_, _, heq, hafter, -⟩
  · exact hfilling
  · cases heq
    rcases hafter with hafter | hafter <;> cases hafter

theorem Fanned.publish {held : List (ℕ × Request)} {todo : List (SinkName × Entry V)}
    {after : After} {entry : Entry V} {side : SinkSide V} (h : d.Fanned c) (ht : d.Todo c)
    (hserving : d.Serving c held) (hphase : d.ingest.phase = .publishing todo after)
    (hmem : (sink, entry) ∈ todo) (hside : side.log = (d.sinks sink).log ++ [entry])
    (hsinks : d'.sinks = Function.update d.sinks sink side)
    (hphase' : d'.ingest.phase = .publishing (todo.filter fun entry => entry.1 ≠ sink) after)
    (hsnap : d'.ingest.snapshot = d.ingest.snapshot) (hsnapshots : d'.snapshots = d.snapshots) :
    d'.Fanned c where
  slices x n documents hx := by
    rw [hsnapshots]
    rw [hsinks] at hx
    rcases log_publish hside x with hlog | ⟨rfl, hlog⟩ <;> rw [hlog] at hx
    · exact h.slices x n documents hx
    · rcases List.mem_append.mp hx with hx | hx
      · exact h.slices x n documents hx
      · obtain rfl : .slice n documents = entry := List.mem_singleton.mp hx
        obtain ⟨s, hs, rfl, hasks⟩ := ht.of_slice hphase hmem
        obtain ⟨run, hrun, hserves, -⟩ := hserving.running s hs
        exact ⟨run, hrun, fun y hy => hserves.requested ▸ hasks y hy⟩
  markers x k n indexes hx := by
    rw [hsnapshots]
    rw [hsinks] at hx ⊢
    rcases log_publish hside x with hlog | ⟨rfl, hlog⟩ <;> rw [hlog] at hx ⊢
    · exact h.markers x k n indexes hx
    · rcases Nat.lt_or_ge k (d.sinks x).log.length with hk | hk
      · rw [List.getElem?_append_left hk] at hx
        rw [List.take_append_of_le_length (Nat.le_of_lt hk)]
        exact h.markers x k n indexes hx
      · rw [List.getElem?_append_right hk, List.getElem?_singleton] at hx
        split at hx
        · next hzero =>
          obtain rfl : entry = .complete n indexes := Option.some.inj hx
          obtain rfl : k = (d.sinks x).log.length := by omega
          rw [List.take_left]
          exact h.delivered ht hserving hphase hmem
        · cases hx
  scanning s run hs hrun :=
    (h.scanning s run (hsnap ▸ hs) (hsnapshots ▸ hrun)).publish ht hphase hmem hside hsinks hphase'

variable [DecidableEq V] [ValueText V]

omit [DecidableEq V] [ValueText V] in
theorem filling_of_polling (h : d.polling = true) : Filling d.ingest.phase := by
  rcases polling_phase h with hphase | hphase <;> rw [hphase] <;> trivial

theorem Fanned.step {held : List (ℕ × Request)} (h : d.Fanned c) (ht : d.Todo c)
    (hserving : d.Serving c held) (ho : ∀ s, (d.sinks s).OnLane) (hs : d.step c a = some d') :
    d'.Fanned c := by
  cases move_of_step hs with
  | slot => exact h.beside (fun _ => rfl) rfl rfl rfl
  | spawn => exact h.beside (fun _ => rfl) rfl rfl rfl
  | prepare hphase _ =>
    exact h.filling log_ensureSlot snapshots_ensureSlot rfl (hphase ▸ trivial) trivial
  | live hphase _ =>
    exact h.filling log_ensureSlot snapshots_ensureSlot rfl (hphase ▸ trivial) trivial
  | change hpoll _ =>
    exact h.filling (fun _ => rfl) rfl rfl (filling_of_polling hpoll) trivial
  | idle _ _ => exact h.beside (fun _ => rfl) rfl rfl rfl
  | endLive _ => exact h.beside (fun _ => rfl) rfl rfl rfl
  | commitLive hphase _ =>
    exact h.filling (fun _ => rfl) rfl rfl (hphase ▸ trivial) trivial
  | takeRequest hphase _ _ =>
    exact h.filling (fun _ => rfl) rfl rfl (hphase ▸ trivial) trivial
  | collect hphase _ =>
    exact h.filling (fun _ => rfl) rfl rfl (hphase ▸ trivial) trivial
  | @startSnapshot view deliveries phase hphase hnext =>
    have hget {n : ℕ} {run : SnapshotRun V} (hrun : d.snapshots[n]? = some run)
        (new : SnapshotRun V) : (d.snapshots ++ [new])[n]? = some run := by
      rw [List.getElem?_append_left (List.getElem?_eq_some_iff.mp hrun).1, hrun]
    constructor
    · intro s n documents hmem
      obtain ⟨run, hrun, hall⟩ := h.slices s n documents hmem
      exact ⟨run, hget hrun _, hall⟩
    · intro s k n indexes hmem
      obtain ⟨run, hrun, hall⟩ := h.markers s k n indexes hmem
      exact ⟨run, hget hrun _, hall⟩
    · rintro s run ⟨⟩ hrun
      obtain rfl := Option.some.inj ((getElem?_snapshots_new _).symm.trans hrun)
      refine ⟨⟨[], rfl, fun sink _ id _ howed => ?_⟩, fun hdrained => ?_, fun _ => rfl⟩
      · obtain ⟨root, -, hmem⟩ := howed
        cases hmem
      · rcases hnext with ⟨rfl, hrows⟩ | rfl
        · exact hrows
        · exact hdrained.elim
  | @row _ documents s _ _ _ _ hphase hsnap hrows hbatch =>
    refine h.frame (fun _ => rfl) rfl ?_
    rintro _ run ⟨⟩ hrun
    obtain ⟨_, hrun', hserves, -⟩ := hserving.running s hsnap
    obtain rfl := Option.some.inj (hrun'.symm.trans hrun)
    exact (h.scanning s _ hsnap hrun).row hserves (hphase ▸ trivial) hrows rfl rfl hbatch
  | @rowCommit _ documents s _ _ _ _ hphase hsnap hrows hbatch hperm =>
    refine h.frame (fun _ => rfl) rfl ?_
    rintro _ run ⟨⟩ hrun
    obtain ⟨_, hrun', hserves, -⟩ := hserving.running s hsnap
    obtain rfl := Option.some.inj (hrun'.symm.trans hrun)
    have hfilling : Filling d.ingest.phase := hphase ▸ trivial
    have hscan := (h.scanning s _ hsnap hrun).row hserves hfilling hrows
      (rfl : d.sinks = d.sinks) rfl hbatch
    exact hscan.commit hfilling (.inl rfl) (by simp) hperm
  | @endSnapshot _ s hphase hsnap hrows hcount =>
    refine h.frame (fun _ => rfl) rfl fun s' run hsnap' hrun => ?_
    obtain rfl := Option.some.inj (hsnap.symm.trans hsnap')
    have hscan := h.scanning s run hsnap hrun
    refine hscan.move rfl rfl rfl (fun _ => List.Subset.refl _) (fun _ _ id _ hhand => ?_)
      (fun _ => hrows) hscan.empty
    have hid := hhand.of_filling (hphase ▸ trivial)
    simp [hscan.empty hcount] at hid
  | @endSnapshotCommit _ s hphase hsnap hrows hperm =>
    refine h.frame (fun _ => rfl) rfl ?_
    rintro _ run ⟨⟩ hrun
    exact (h.scanning s run hsnap hrun).commit (hphase ▸ trivial) (.inr rfl) (fun _ => hrows) hperm
  | publish hphase hmem hside =>
    obtain ⟨lane, -, rfl⟩ := SinkSide.publish_cases hside
    exact h.publish ht hserving hphase hmem rfl rfl rfl rfl rfl
  | publishedLive hphase =>
    exact h.filling (fun _ => rfl) rfl rfl (hphase ▸ trivial) trivial
  | @publishedSlice s hsnap hphase =>
    refine h.frame (fun _ => rfl) rfl ?_
    rintro _ run ⟨⟩ hrun
    refine (h.scanning s run hsnap hrun).move rfl rfl rfl (fun _ => List.Subset.refl _)
      (fun _ _ id _ hhand => ?_) (fun hdrained => hdrained.elim) fun _ => rfl
    obtain ⟨_, hmem, -⟩ := (hphase ▸ hhand).slice (by simp)
    cases hmem
  | @publishedLastSlice s hsnap hphase =>
    refine h.frame (fun _ => rfl) rfl ?_
    rintro _ run ⟨⟩ hrun
    have hscan := h.scanning s run hsnap hrun
    refine hscan.move rfl rfl rfl (fun _ => List.Subset.refl _)
      (fun _ _ id _ hhand => ?_) (fun _ => hscan.drained (hphase ▸ trivial)) fun _ => rfl
    obtain ⟨_, hmem, -⟩ := (hphase ▸ hhand).slice (by simp)
    cases hmem
  | @publishedMarkers s hsnap hphase =>
    refine h.frame (fun _ => rfl) rfl fun s' run hsnap' hrun => ?_
    have hscan := h.scanning s' run hsnap' hrun
    refine hscan.move rfl rfl rfl (fun _ => List.Subset.refl _)
      (fun _ _ id _ hhand => ?_) (fun _ => hscan.drained (hphase ▸ trivial)) hscan.empty
    obtain ⟨_, hmem, -⟩ := (hphase ▸ hhand).slice (by simp)
    cases hmem
  | ackRequest hphase =>
    refine h.frame (fun _ => rfl) rfl fun s' run hsnap' hrun => ?_
    have hscan := h.scanning s' run hsnap' hrun
    refine hscan.move rfl rfl rfl (fun _ => List.Subset.refl _)
      (fun _ _ id _ hhand => ?_) (fun _ => hscan.drained (hphase ▸ trivial)) hscan.empty
    rw [hphase] at hhand
    rcases hhand with ⟨hfilling, -⟩ | ⟨_, _, heq, -⟩
    · exact hfilling.elim
    · cases heq
  | finished _ =>
    refine h.frame (fun _ => rfl) rfl ?_
    rintro _ _ ⟨⟩
  | confirm _ => exact h.beside (fun _ => rfl) rfl rfl rfl
  | stop hphase _ =>
    exact h.filling (fun _ => rfl) rfl rfl (hphase ▸ trivial) trivial
  | fail _ _ =>
    refine h.frame (fun _ => rfl) rfl ?_
    rintro _ _ ⟨⟩
  | request _ _ _ => exact h.beside (log_update rfl) rfl rfl rfl
  | engine _ _ hside => exact h.beside (log_update (log_sideStep (ho _) hside)) rfl rfl rfl

theorem fanned_of_reachable (h : (daemon V c).Reachable d) : d.Fanned c := by
  refine Transition.Machine.Reachable.invariant (m := daemon V c) (P := Fanned c)
    (fun d hd => ?_) (fun d a d' hr hp hs => ?_) h
  · constructor
    · simp [hd.log]
    · simp [hd.log]
    · simp [hd.ingest, Ingest.down]
  · obtain ⟨held, hserving⟩ := serving_of_reachable hr
    exact hp.step (todo_of_reachable hr) hserving (onLane_of_reachable hr) hs

end Scan

end Flusso.Deployment
