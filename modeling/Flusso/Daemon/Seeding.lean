import Flusso.Daemon.Generations

/-! # What a seed covers

The marker only says that the snapshot stream ended. Where the scan can page
over the root tables it was started for, every row of an index's root table was
resolved, sliced and flushed before the index is marked seeded.
-/

namespace Flusso.Deployment

variable {V : Type*} {c : Config} {d d' : Deployment V} {a : Action V} {sink : SinkName}
  {i : IndexName}

/-- Every table a snapshot is started for is empty, or the scan can page over it. -/
def pages [DecidableEq V] (c : Config) (d : Deployment V) : Action V → Bool
  | .ingest (.startSnapshot view) =>
    match d.ingest.phase with
    | .collecting deliveries =>
      (tablesOf c.scopes (indexesOf (requestedOf c.scopes deliveries))).all fun table =>
        (view table).rows.isEmpty || decide (view table).Pageable
    | _ => true
  | _ => true

/-- The scan of every snapshot yields the rows of the tables it is for. -/
def Paged (c : Config) (d : Deployment V) : Prop :=
  ∀ run ∈ d.snapshots, ∀ sink i, (requestedOf c.scopes run.deliveries).Asks sink i →
    ∀ root, c.scopes.lookup i = some root → ∀ row ∈ (run.view root).rows,
      (root.table, (run.view root).rowKey row) ∈ run.rows

/-- Marking the index seeded moves it onto a generation that holds every row its root table
had at the snapshot. -/
def Backfilled [DecidableEq V] [ValueText V] (c : Config) (d : Deployment V) (sink : SinkName)
    (i : IndexName) : Prop :=
  ∃ t n g run root, Completes c d sink i t n g ∧ d.snapshots[n]? = some run ∧
    c.scopes.lookup i = some root ∧
    (∃ state, ((d.sinks sink).indexes i).markSeeded = some state ∧ state.serving = some g) ∧
    ∀ row ∈ (run.view root).rows, ∃ j < t, ∃ documents,
      (d.sinks sink).log[j]? = some (.slice n documents) ∧
      (∃ x ∈ documents, x.id = ⟨i, (run.view root).rowKey row⟩) ∧
      AppliedTo c (d.sinks sink) j i g

variable [DecidableEq V] [ValueText V]

theorem snapshots_of_step (hs : d.step c a = some d') :
    d'.snapshots = d.snapshots ∨ ∃ view deliveries, a = .ingest (.startSnapshot view) ∧
      d.ingest.phase = .collecting deliveries ∧ d'.snapshots = d.snapshots ++ [{
        deliveries
        view
        tables := tablesOf c.scopes (indexesOf (requestedOf c.scopes deliveries)) }] := by
  cases move_of_step hs with
  | prepare _ _ => exact .inl snapshots_ensureSlot
  | live _ _ => exact .inl snapshots_ensureSlot
  | startSnapshot hphase _ => exact .inr ⟨_, _, rfl, hphase, rfl⟩
  | _ => exact .inl rfl

theorem Paged.step (h : d.Paged c) (hok : d.pages c a = true) (hs : d.step c a = some d') :
    d'.Paged c := by
  rcases snapshots_of_step hs with heq | ⟨view, deliveries, rfl, hphase, heq⟩
  · rw [Paged, heq]
    exact h
  · intro run hrun sink i hasks root hroot row hrow
    rw [heq] at hrun
    rcases List.mem_append.mp hrun with hrun | hrun
    · exact h run hrun sink i hasks root hroot row hrow
    · obtain rfl := List.mem_singleton.mp hrun
      have htable : root ∈ tablesOf c.scopes (indexesOf (requestedOf c.scopes deliveries)) :=
        mem_tablesOf.mpr ⟨i, mem_indexesOf.mpr ⟨sink, hasks⟩, hroot⟩
      simp only [pages, hphase, List.all_eq_true, Bool.or_eq_true, List.isEmpty_iff,
        decide_eq_true_eq] at hok
      rcases hok root htable with hempty | hpage
      · rw [hempty] at hrow
        cases hrow
      · exact Cdc.mem_snapshotRows htable hpage hrow

theorem paged_of_reachable (h : (daemon V c).ReachableWith (fun d a => d.pages c a = true) d) :
    d.Paged c := by
  refine h.invariant (P := Paged c) (fun d hd => ?_) (fun d a d' _ hp hok hs => hp.step hok hs)
  simp [Paged, hd.snapshots]

/-- An index is marked seeded only after a complete snapshot, while the scans can page over
their tables and no failure puts back what a marker answered. -/
theorem backfilled_of_markSeeded {calls : List SinkCall} {next : Next}
    (h : (daemon V c).ReachableWith
      (fun d a => d.undisturbed a = true ∧ d.pages c a = true) d)
    (hphase : (d.sinks sink).phase = .calling (.markSeeded i :: calls) next) :
    d.Backfilled c sink i := by
  obtain ⟨t, n, g, indexes, -, hcompletes⟩ :=
    completes_of_markSeeded (h.mono fun _ _ hok => hok.1) hphase
  have hpaged := paged_of_reachable (h.mono fun _ _ hok => hok.2)
  obtain ⟨indexes, hget, hi⟩ := hcompletes.marker
  obtain ⟨run, hrun, hrequested, hdelivered⟩ :=
    (fanned_of_reachable h.reachable).markers sink t n indexes hget
  have hasks : (requestedOf c.scopes run.deliveries).Asks sink i := ⟨indexes, hrequested, hi⟩
  obtain ⟨root, hroot⟩ : ∃ root, c.scopes.lookup i = some root := by
    obtain ⟨_, -, -, hknown⟩ := asks_requestedOf.mp hasks
    exact (mem_known.mp hknown).2
  refine ⟨t, n, g, run, root, hcompletes, hrun, hroot,
    IndexState.exists_markSeeded hcompletes.staged.1, fun row hrow => ?_⟩
  have howed : Owed c run.rows ⟨i, (run.view root).rowKey row⟩ :=
    ⟨root, hroot, hpaged run (List.mem_of_getElem? hrun) sink i hasks root hroot row hrow⟩
  obtain ⟨documents, hmem, x, hx, hid⟩ := hdelivered _ hi howed
  obtain ⟨j, hj⟩ := List.mem_iff_getElem?.mp hmem
  rw [List.getElem?_take] at hj
  split at hj
  · next hlt =>
    exact ⟨j, hlt, documents, hj, ⟨x, hx, hid⟩,
      hcompletes.applied j hlt documents hj ⟨x, hx, by rw [hid]⟩⟩
  · cases hj

/-- One row, scanned and flushed, stands behind the seed. -/
theorem backfilled_of_markSeeded_one_row :
    let sink : SinkName := ⟨"sink"⟩
    ∃ d : Deployment String, (d.sinks sink).phase =
        .calling [.markSeeded ⟨"users"⟩] (.seeded 1 [⟨"users"⟩]) ∧
      d.Backfilled (.mirror [sink] (by decide) 2 1) sink ⟨"users"⟩ := by
  intro sink
  let c : Config := .mirror [sink] (by decide) 2 1
  let document : Document String := .upsert ⟨⟨"users"⟩, [(⟨"id"⟩, "1")]⟩ "a"
  let view : Cdc.View String := fun _ => ⟨[some ⟨"id"⟩], [⟨["1"], "1"⟩]⟩
  let run : List (Action String) := List.flatten
    [[.stage, .call, .advance, .request].map (.engine sink),
    [.spawn, .engine sink .start],
    ([.prepare, .live, .takeRequest, .startSnapshot view, .row [] [document], .publish sink,
      .published, .endSnapshot [], .publish sink] : List (IngestAction String)).map .ingest,
    [.recv, .commit [⟨[], [document.envelope none], []⟩], .ack, .recv].map (.engine sink)]
  obtain ⟨d, hrun, hphase⟩ := Transition.Machine.exists_of_run (m := daemon String c)
    (s := comeUp String c .missing (fun _ => true) fun _ _ => .absent) (t := run)
    (p := fun d => (d.sinks sink).phase =
      .calling [.markSeeded ⟨"users"⟩] (.seeded 1 [⟨"users"⟩]))
    (by decide)
  exact ⟨d, hphase, backfilled_of_markSeeded (reachable_comeUp.run (by decide) hrun) hphase⟩

/-- A table with a composite key and one row: the scan skips it, the marker follows, and the
index is marked seeded with nothing written. -/
theorem not_backfilled_composite_key :
    let c : Config := .mirror [⟨"sink"⟩] (by decide) 2 1
    ∃ d : Deployment String, (daemon String c).Reachable d ∧
      (d.sinks ⟨"sink"⟩).phase = .calling [.markSeeded ⟨"users"⟩] (.seeded 0 [⟨"users"⟩]) ∧
      ¬d.Backfilled c ⟨"sink"⟩ ⟨"users"⟩ := by
  intro c
  let sink : SinkName := ⟨"sink"⟩
  let view : Cdc.View String := fun _ => ⟨[some ⟨"org"⟩, some ⟨"id"⟩], [⟨["1", "2"], "1"⟩]⟩
  let run : List (Action String) := List.flatten
    [[.stage, .call, .advance, .request].map (.engine sink),
    [.spawn, .engine sink .start],
    ([.prepare, .live, .takeRequest, .startSnapshot view, .endSnapshot [], .publish sink] :
      List (IngestAction String)).map .ingest,
    [.engine sink .recv]]
  obtain ⟨d, hrun, hphase, hview, hflushes⟩ := Transition.Machine.exists_of_run
    (m := daemon String c) (s := comeUp String c .missing (fun _ => true) fun _ _ => .absent)
    (t := run)
    (p := fun d => (d.sinks sink).phase =
        .calling [.markSeeded ⟨"users"⟩] (.seeded 0 [⟨"users"⟩]) ∧
      (∀ run ∈ d.snapshots, (run.view ⟨⟨"public"⟩, ⟨"users"⟩⟩).rows.isEmpty = false) ∧
      (d.sinks sink).flushes.isEmpty = true)
    (by decide)
  refine ⟨d, .run reachable_comeUp hrun, hphase, ?_⟩
  rintro ⟨t, n, g, run, root, -, hrun, hroot, -, hrows⟩
  obtain rfl : ⟨⟨"public"⟩, ⟨"users"⟩⟩ = root := Option.some.inj hroot
  have hne := hview run (List.mem_of_getElem? hrun)
  rw [List.isEmpty_eq_false_iff_exists_mem] at hne
  obtain ⟨row, hrow⟩ := hne
  obtain ⟨j, -, -, -, -, f, hf, -⟩ := hrows row hrow
  rw [List.isEmpty_iff.mp hflushes] at hf
  cases hf

end Flusso.Deployment
