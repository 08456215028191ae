import Flusso.Cdc.Backfill
import Flusso.Engine.Batch

/-! # Serving backfill requests

Delivered requests coalesce into one snapshot over the union of their root
tables; each batch of built documents is split again by what each lane asked
for, and each lane gets the marker of its own indexes.
-/

namespace Flusso

/-- Each index's root table, by index. -/
abbrev Scopes := List (IndexName × SnapshotTable)

/-- Requested indexes by sink. -/
abbrev Requested := List (SinkName × List IndexName)

namespace Requested

/-- Add indexes to a sink's entry, creating it when there is none. -/
def extend : Requested → SinkName → List IndexName → Requested
  | [], sink, known => [(sink, insertNew [] known)]
  | (s, indexes) :: rest, sink, known =>
    if s = sink then (s, insertNew indexes known) :: rest
    else (s, indexes) :: extend rest sink known

/-- The sink asked for the index. -/
def Asks (r : Requested) (sink : SinkName) (index : IndexName) : Prop :=
  ∃ indexes, (sink, indexes) ∈ r ∧ index ∈ indexes

variable {r : Requested} {sink sink' : SinkName} {known : List IndexName} {index : IndexName}

theorem asks_extend :
    (r.extend sink known).Asks sink' index ↔
      r.Asks sink' index ∨ sink' = sink ∧ index ∈ known := by
  induction r with
  | nil => simp [extend, Asks, mem_insertNew]
  | cons entry rest ih =>
    obtain ⟨s, indexes⟩ := entry
    rw [extend]
    split
    · next hs =>
      subst hs
      simp only [Asks, List.mem_cons, Prod.mk.injEq]
      grind [mem_insertNew]
    · simp only [Asks, List.mem_cons, Prod.mk.injEq] at ih ⊢
      grind

theorem mem_keys_extend :
    sink' ∈ (r.extend sink known).map Prod.fst ↔ sink' ∈ r.map Prod.fst ∨ sink' = sink := by
  induction r with
  | nil => simp [extend]
  | cons entry rest ih =>
    obtain ⟨s, indexes⟩ := entry
    rw [extend]
    split
    · next hs => grind
    · grind

theorem nodup_keys_extend (h : (r.map Prod.fst).Nodup) :
    ((r.extend sink known).map Prod.fst).Nodup := by
  induction r with
  | nil => simp [extend]
  | cons entry rest ih =>
    obtain ⟨s, indexes⟩ := entry
    rw [List.map_cons, List.nodup_cons] at h
    rw [extend]
    split
    · simpa using h
    · next hs =>
      rw [List.map_cons, List.nodup_cons, mem_keys_extend]
      exact ⟨fun hmem => hmem.elim h.1 hs, ih h.2⟩

end Requested

/-- The indexes the builder knows. -/
def known (scopes : Scopes) (indexes : List IndexName) : List IndexName :=
  indexes.filter fun index => (scopes.lookup index).isSome

/-- What the delivered requests ask for, by sink. -/
def requestedOf (scopes : Scopes) (deliveries : List (ℕ × Request)) : Requested :=
  deliveries.foldl (fun requested delivery =>
    requested.extend delivery.2.sink (known scopes delivery.2.indexes)) []

/-- The union of the requested indexes. -/
def indexesOf (requested : Requested) : List IndexName :=
  insertNew [] (requested.flatMap Prod.snd)

/-- The root tables of the requested indexes, each once. -/
def tablesOf (scopes : Scopes) (indexes : List IndexName) : List SnapshotTable :=
  insertNew [] (indexes.filterMap fun index => scopes.lookup index)

section Requests

variable {scopes : Scopes} {deliveries : List (ℕ × Request)} {sink : SinkName} {index : IndexName}

theorem mem_known {indexes : List IndexName} :
    index ∈ known scopes indexes ↔ index ∈ indexes ∧ ∃ root, scopes.lookup index = some root := by
  simp [known, Option.isSome_iff_exists]

theorem foldl_extend_asks (r : Requested) :
    (deliveries.foldl (fun requested delivery =>
      Requested.extend requested delivery.2.sink (known scopes delivery.2.indexes)) r).Asks
        sink index ↔
      r.Asks sink index ∨
        ∃ d ∈ deliveries, d.2.sink = sink ∧ index ∈ known scopes d.2.indexes := by
  induction deliveries generalizing r with
  | nil => simp
  | cons d rest ih =>
    rw [List.foldl_cons, ih, Requested.asks_extend]
    grind

/-- A lane is served exactly what its own requests named and the builder knows. -/
theorem asks_requestedOf :
    (requestedOf scopes deliveries).Asks sink index ↔
      ∃ d ∈ deliveries, d.2.sink = sink ∧ index ∈ known scopes d.2.indexes := by
  rw [requestedOf, foldl_extend_asks]
  simp [Requested.Asks]

theorem foldl_extend_keys (r : Requested) :
    sink ∈ (deliveries.foldl (fun requested delivery =>
      Requested.extend requested delivery.2.sink (known scopes delivery.2.indexes)) r).map
        Prod.fst ↔
      sink ∈ r.map Prod.fst ∨ ∃ d ∈ deliveries, d.2.sink = sink := by
  induction deliveries generalizing r with
  | nil => simp
  | cons d rest ih =>
    rw [List.foldl_cons, ih, Requested.mem_keys_extend]
    grind

theorem mem_keys_requestedOf :
    sink ∈ (requestedOf scopes deliveries).map Prod.fst ↔ ∃ d ∈ deliveries, d.2.sink = sink := by
  rw [requestedOf, foldl_extend_keys]
  simp

theorem foldl_extend_nodup (r : Requested) (h : (r.map Prod.fst).Nodup) :
    ((deliveries.foldl (fun requested delivery =>
      Requested.extend requested delivery.2.sink (known scopes delivery.2.indexes)) r).map
        Prod.fst).Nodup := by
  induction deliveries generalizing r with
  | nil => exact h
  | cons d rest ih => exact ih _ (Requested.nodup_keys_extend h)

theorem nodup_keys_requestedOf : ((requestedOf scopes deliveries).map Prod.fst).Nodup :=
  foldl_extend_nodup [] .nil

theorem mem_indexesOf {requested : Requested} :
    index ∈ indexesOf requested ↔ ∃ sink, requested.Asks sink index := by
  simp only [indexesOf, mem_insertNew, List.not_mem_nil, false_or, List.mem_flatMap,
    Requested.Asks]
  grind

theorem mem_tablesOf {indexes : List IndexName} {table : SnapshotTable} :
    table ∈ tablesOf scopes indexes ↔ ∃ index ∈ indexes, scopes.lookup index = some table := by
  simp [tablesOf, mem_insertNew]

end Requests

/-- A running snapshot: which one of the run it is, the rows its stream has left, who asked
for what, the request handles to acknowledge at the end, and the batch being filled. -/
structure Snapshot (V : Type*) where
  number : ℕ
  rows : List (TableName × RowKey V)
  requested : Requested
  indexes : List IndexName
  handles : List ℕ
  batch : PendingBatch V

namespace Snapshot

variable {V : Type*}

/-- The slice of the built documents each lane requested; a lane with none gets nothing. -/
def slices (s : Snapshot V) (documents : List (Document V)) : List (SinkName × Entry V) :=
  s.requested.filterMap fun (sink, indexes) =>
    match documents.filter fun document => document.id.index ∈ indexes with
    | [] => none
    | slice => some (sink, .slice s.number slice)

/-- The completion marker of each requesting lane. -/
def markers (s : Snapshot V) : List (SinkName × Entry V) :=
  s.requested.map fun (sink, indexes) => (sink, .complete s.number indexes)

variable {s : Snapshot V} {documents : List (Document V)} {sink : SinkName} {e : Entry V}

theorem mem_slices :
    (sink, e) ∈ s.slices documents ↔
      ∃ indexes, (sink, indexes) ∈ s.requested ∧
        e = .slice s.number (documents.filter fun document => document.id.index ∈ indexes) ∧
        documents.filter (fun document => decide (document.id.index ∈ indexes)) ≠ [] := by
  simp only [slices, List.mem_filterMap]
  constructor
  · rintro ⟨⟨sink', indexes⟩, hmem, hsome⟩
    simp only at hsome
    split at hsome
    · cases hsome
    · next hne =>
      cases hsome
      exact ⟨indexes, hmem, rfl, hne⟩
  · rintro ⟨indexes, hmem, rfl, hne⟩
    refine ⟨(sink, indexes), hmem, ?_⟩
    cases hfilter : documents.filter fun document => decide (document.id.index ∈ indexes) with
    | nil => exact absurd hfilter hne
    | cons document rest => simp only

theorem mem_markers :
    (sink, e) ∈ s.markers ↔
      ∃ indexes, (sink, indexes) ∈ s.requested ∧ e = .complete s.number indexes := by
  simp only [markers, List.mem_map, Prod.mk.injEq]
  grind

theorem map_fst_markers : s.markers.map Prod.fst = s.requested.map Prod.fst := by
  rw [markers, List.map_map]
  rfl

theorem map_fst_slices :
    ((s.slices documents).map Prod.fst).Sublist (s.requested.map Prod.fst) := by
  unfold slices
  induction s.requested with
  | nil => exact .slnil
  | cons entry rest ih =>
    obtain ⟨sink, indexes⟩ := entry
    rw [List.filterMap_cons]
    cases hslice : documents.filter fun document => decide (document.id.index ∈ indexes) with
    | nil => simpa only [hslice, List.map_cons] using ih.cons sink
    | cons document slice => simpa only [hslice, List.map_cons] using ih.cons_cons sink

end Snapshot

/-- The documents a change touches: the root document of every index over its table, and
those found by following the other indexes' relations back. -/
def resolve {V : Type*} (scopes : Scopes) (table : TableName) (key : RowKey V)
    (reverse : List (DocumentId V)) : List (DocumentId V) :=
  (scopes.filterMap fun (index, root) =>
    if root.table = table then some ⟨index, key⟩ else none) ++ reverse

theorem root_mem_resolve {V : Type*} {scopes : Scopes} {index : IndexName} {root : SnapshotTable}
    (h : scopes.lookup index = some root) (key : RowKey V) (reverse : List (DocumentId V)) :
    ⟨index, key⟩ ∈ resolve scopes root.table key reverse := by
  have hmem : (index, root) ∈ scopes := by
    induction scopes with
    | nil => cases h
    | cons entry rest ih =>
      rw [List.lookup_cons] at h
      grind
  refine List.mem_append_left _ (List.mem_filterMap.mpr ⟨(index, root), hmem, by simp⟩)

end Flusso
