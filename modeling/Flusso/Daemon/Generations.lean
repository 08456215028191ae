import Flusso.Daemon.Awaited

/-! # The generation a snapshot fills

A snapshot is open for an index while its marker is still to come. All its
slices go to one generation of the index, which no reindex replaces before the
marker: the marker seeds the generation it filled.
-/

namespace Flusso.Deployment

variable {V : Type*} {c : Config} {d d' : Deployment V} {a : Action V} {sink : SinkName}
  {i : IndexName} {n : ℕ}

/-- A marker of the snapshot for the index is still to come: on the sink's lane, or once the
running snapshot is complete. -/
def OpenFor (d : Deployment V) (sink : SinkName) (n : ℕ) (i : IndexName) : Prop :=
  (∃ indexes, .complete n indexes ∈ (d.sinks sink).ahead ∧ i ∈ indexes) ∨
    ∃ s, d.ingest.snapshot = some s ∧ s.number = n ∧ s.requested.Asks sink i ∧
      d.marked sink = false

/-- The slices consumed of a snapshot that is still open were flushed into the generation
its index is written to. -/
def Filled (d : Deployment V) : Prop :=
  ∀ sink n i j documents, (d.sinks sink).log[j]? = some (.slice n documents) →
    (∃ x ∈ documents, x.id.index = i) → j < (d.sinks sink).consumed → d.OpenFor sink n i →
      ∃ f ∈ (d.sinks sink).flushes, f.ticket = j ∧
        f.target i = ((d.sinks sink).indexes i).physical

theorem OpenFor.awaited {held : List (ℕ × Request)} (h : d.OpenFor sink n i)
    (hserving : d.Serving c held) : 0 < d.awaited sink i := by
  rcases h with ⟨indexes, hmem, hi⟩ | ⟨s, hsnap, -, hasks, hmarked⟩
  · have hpos : 0 < (d.sinks sink).ahead.countP (Entry.completes i) :=
      List.countP_pos_iff.mpr ⟨_, hmem, by simpa [Entry.completes] using hi⟩
    exact Nat.lt_of_lt_of_le hpos (Nat.le_add_left _ _)
  · have hpos := hserving.exists_held hsnap
      (fun handles hphase => by simp [marked, hphase] at hmarked) hasks
    rw [Deployment.awaited, openRequests_of_unmarked hmarked, hserving.lane.present_eq,
      List.countP_append]
    omega

theorem OpenFor.outstanding {held : List (ℕ × Request)} (h : d.OpenFor sink n i)
    (hserving : d.Serving c held) (hsingle : d.Single) : i ∈ (d.sinks sink).outstanding := by
  by_contra hnot
  have hpos := h.awaited hserving
  have hbound := hsingle sink i
  rw [if_neg hnot] at hbound
  omega

variable [DecidableEq V] [ValueText V]

/-- The snapshot running after a step ran before it, or has just started. -/
theorem running_of_step {s' : Snapshot V} (hs : d.step c a = some d')
    (hsnap : d'.ingest.snapshot = some s') (hmarked : d'.marked sink = false) :
    (∃ s, d.ingest.snapshot = some s ∧ s.number = s'.number ∧ s.requested = s'.requested ∧
      d.marked sink = false) ∨ s'.number = d.snapshots.length := by
  cases move_of_step hs with
  | slot => exact .inl ⟨s', hsnap, rfl, rfl, hmarked⟩
  | spawn => exact .inl ⟨s', hsnap, rfl, rfl, hmarked⟩
  | prepare hphase _ => exact .inl ⟨s', hsnap, rfl, rfl, by simp [marked, hphase]⟩
  | live hphase _ => exact .inl ⟨s', hsnap, rfl, rfl, by simp [marked, hphase]⟩
  | change hpoll _ => exact .inl ⟨s', hsnap, rfl, rfl, marked_of_polling hpoll⟩
  | idle hpoll _ => exact .inl ⟨s', hsnap, rfl, rfl, marked_of_polling hpoll⟩
  | endLive hpoll => exact .inl ⟨s', hsnap, rfl, rfl, marked_of_polling hpoll⟩
  | commitLive hphase _ => exact .inl ⟨s', hsnap, rfl, rfl, by simp [marked, hphase]⟩
  | takeRequest hphase _ _ => exact .inl ⟨s', hsnap, rfl, rfl, by simp [marked, hphase]⟩
  | collect hphase _ => exact .inl ⟨s', hsnap, rfl, rfl, by simp [marked, hphase]⟩
  | startSnapshot _ _ =>
    cases hsnap
    exact .inr rfl
  | row hphase hold _ _ =>
    cases hsnap
    exact .inl ⟨_, hold, rfl, rfl, by simp [marked, hphase]⟩
  | rowCommit hphase hold _ _ _ =>
    cases hsnap
    exact .inl ⟨_, hold, rfl, rfl, by simp [marked, hphase]⟩
  | endSnapshot hphase _ _ _ => exact .inl ⟨s', hsnap, rfl, rfl, by simp [marked, hphase]⟩
  | endSnapshotCommit hphase hold _ _ =>
    cases hsnap
    exact .inl ⟨_, hold, rfl, rfl, by simp [marked, hphase]⟩
  | @publish sink' todo after entry side hphase hmem hside =>
    refine .inl ⟨s', hsnap, rfl, rfl, ?_⟩
    by_cases hs : sink = sink'
    · subst hs
      exact marked_todo hphase hmem
    · rw [← hmarked]
      exact (marked_publish hphase rfl hs).symm
  | publishedLive hphase => exact .inl ⟨s', hsnap, rfl, rfl, by simp [marked, hphase]⟩
  | publishedSlice hold hphase =>
    cases hsnap
    exact .inl ⟨_, hold, rfl, rfl, by simp [marked, hphase]⟩
  | publishedLastSlice hold hphase =>
    cases hsnap
    exact .inl ⟨_, hold, rfl, rfl, by simp [marked, hphase]⟩
  | publishedMarkers _ _ => simp [marked] at hmarked
  | ackRequest _ => simp [marked] at hmarked
  | finished _ => cases hsnap
  | confirm _ => exact .inl ⟨s', hsnap, rfl, rfl, hmarked⟩
  | stop _ hold => exact .inl ⟨s', hsnap, rfl, rfl, by simp [hold] at hsnap⟩
  | fail _ _ => cases hsnap
  | request _ _ _ => exact .inl ⟨s', hsnap, rfl, rfl, hmarked⟩
  | engine _ _ _ => exact .inl ⟨s', hsnap, rfl, rfl, hmarked⟩

theorem OpenFor.of_step (h : d'.OpenFor sink n i) (ht : d.Todo c) (ho : (d.sinks sink).OnLane)
    (hok : d.undisturbed a = true) (hs : d.step c a = some d') :
    d.OpenFor sink n i ∨ n = d.snapshots.length := by
  rcases h with ⟨indexes, hmem, hi⟩ | ⟨s', hsnap, rfl, hasks, hmarked⟩
  · have hm := sideMove_of_step hs sink
    generalize d'.sinks sink = side at hm hmem
    cases hm with
    | same => exact .inl (.inl ⟨indexes, hmem, hi⟩)
    | slotCreated _ _ _ => exact .inl (.inl ⟨indexes, hmem, hi⟩)
    | engine _ _ hside =>
      refine .inl (.inl ⟨indexes, ?_, hi⟩)
      exact mem_ahead_of_sideStep ho hside (by rintro rfl; simpa [undisturbed] using hok) rfl hmem
    | requested _ hphase _ =>
      rw [SinkSide.ahead_requested hphase] at hmem
      exact .inl (.inl ⟨indexes, hmem, hi⟩)
    | published hphase hentry hside =>
      rw [(SinkSide.ahead_publish ho hside).1] at hmem
      rcases List.mem_append.mp hmem with hmem | hmem
      · exact .inl (.inl ⟨indexes, hmem, hi⟩)
      · obtain rfl := List.mem_singleton.mp hmem
        obtain ⟨-, s, hsnap, rfl, -, hrequested⟩ := ht.of_complete hphase hentry
        exact .inl (.inr ⟨s, hsnap, rfl, ⟨indexes, hrequested, hi⟩, marked_todo hphase hentry⟩)
  · rcases running_of_step hs hsnap hmarked with ⟨s, hsnap, hnumber, hrequested, hmarked⟩ | hnew
    · exact .inl (.inr ⟨s, hsnap, hnumber, hrequested ▸ hasks, hmarked⟩)
    · exact .inr hnew

/-- A batch is consumed by a flush into the generations its indexes are written to. -/
theorem flushed_of_consumed {s s' : SinkSide V} {a : EngineAction V} {j : ℕ} {e : Entry V}
    (ho : s.OnLane) (hs : sideStep c s a = some s') (hget : s.log[j]? = some e)
    (hmarker : e.isMarker = false) (hj : j < s'.consumed) :
    j < s.consumed ∧ s.flushes ⊆ s'.flushes ∨
      ∃ f ∈ s'.flushes, f.ticket = j ∧ f.target = s.target := by
  have hle := ho.done_le_consumed
  cases ho.laneMove hs with
  | quiet _ hdone _ hflushes _ hnot _ =>
    rw [SinkSide.consumed_eq hnot, hdone] at hj
    exact .inl ⟨Nat.lt_of_lt_of_le hj hle, hflushes ▸ List.Subset.refl _⟩
  | retried _ _ _ _ _ hdone _ hflushes _ hnot =>
    rw [SinkSide.consumed_eq hnot, hdone] at hj
    exact .inl ⟨Nat.lt_of_lt_of_le hj hle, hflushes ▸ List.Subset.refl _⟩
  | flushed _ _ _ _ _ _ =>
    rcases Nat.lt_succ_iff_lt_or_eq.mp hj with hj | rfl
    · exact .inl ⟨Nat.lt_of_lt_of_le hj hle, List.subset_append_left _ _⟩
    · exact .inr ⟨_, List.mem_append_right _ (List.mem_singleton.mpr rfl), rfl, rfl⟩
  | marked hmark _ =>
    rcases Nat.lt_succ_iff_lt_or_eq.mp hj with hj | rfl
    · exact .inl ⟨Nat.lt_of_lt_of_le hj hle, List.Subset.refl _⟩
    · rw [hmark] at hget
      cases hget
      cases hmarker
  | acked hphase hdone =>
    refine .inl ⟨?_, List.Subset.refl _⟩
    rw [SinkSide.consumed_acking hphase, ← hdone]
    exact hj

theorem SideMove.getElem?_log {side : SinkSide V} (hm : SideMove c d sink a side)
    (ho : (d.sinks sink).OnLane) {j : ℕ} (hj : j < side.consumed) :
    side.log[j]? = (d.sinks sink).log[j]? := by
  cases hm with
  | same => rfl
  | slotCreated _ _ _ => rfl
  | engine _ _ hside => rw [log_sideStep ho hside]
  | requested _ _ _ => rfl
  | published _ _ hside =>
    rw [(SinkSide.ahead_publish ho hside).2] at hj
    obtain ⟨lane, -, rfl⟩ := SinkSide.publish_cases hside
    exact List.getElem?_append_left (Nat.lt_of_lt_of_le hj ho.consumed_le)

/-- A step keeps the slices of an open snapshot in the generation its index is written to. -/
theorem Filled.step {held : List (ℕ × Request)} (h : d.Filled) (ht : d.Todo c)
    (hserving : d.Serving c held) (hfanned : d.Fanned c) (ho : ∀ s, (d.sinks s).OnLane)
    (hstaging : ∀ s, (d.sinks s).Staging c.engine) (hsingle : d.Single)
    (hok : d.undisturbed a = true) (hs : d.step c a = some d') : d'.Filled := by
  intro sink n i j documents hget hx hj hopen
  have hm := sideMove_of_step hs sink
  rw [hm.getElem?_log (ho sink) hj] at hget
  rcases hopen.of_step ht (ho sink) hok hs with hopen | rfl
  · have hout := hopen.outstanding hserving hsingle
    have hsettled : ((d.sinks sink).indexes i).Settled := by
      by_contra hnot
      exact (hstaging sink).unsettled i hnot hout
    have hold := h sink n i j documents hget hx
    generalize d'.sinks sink = side at hm hj ⊢
    cases hm with
    | same => exact hold hj hopen
    | slotCreated _ _ _ => exact hold hj hopen
    | engine _ _ hside =>
      rw [SinkSide.physical_sideStep hside hsettled]
      rcases flushed_of_consumed (ho sink) hside hget rfl hj with ⟨hj, hsub⟩ | ⟨f, hf, hticket, htarget⟩
      · obtain ⟨f, hf, hticket, htarget⟩ := hold hj hopen
        exact ⟨f, hsub hf, hticket, htarget⟩
      · exact ⟨f, hf, hticket, by rw [htarget]; rfl⟩
    | requested _ hphase _ =>
      rw [SinkSide.consumed_requested hphase] at hj
      exact hold hj hopen
    | published _ _ hside =>
      rw [(SinkSide.ahead_publish (ho sink) hside).2] at hj
      obtain ⟨lane, -, rfl⟩ := SinkSide.publish_cases hside
      exact hold hj hopen
  · -- a snapshot that has just started has no slice on a lane
    obtain ⟨run, hrun, -⟩ := hfanned.slices sink _ documents (List.mem_of_getElem? hget)
    exact absurd (List.getElem?_eq_some_iff.mp hrun).1 (Nat.lt_irrefl _)

theorem filled_of_reachable
    (h : (daemon V c).ReachableWith (fun d a => d.undisturbed a = true) d) : d.Filled := by
  refine h.invariant (P := Filled) (fun d hd => ?_) (fun d a d' hr hp hok hs => ?_)
  · intro sink n i j documents hget
    simp [hd.log] at hget
  · have hsingle := single_of_reachable hr
    have hr := hr.reachable
    obtain ⟨held, hserving⟩ := serving_of_reachable hr
    exact hp.step (todo_of_reachable hr) hserving (fanned_of_reachable hr)
      (onLane_of_reachable hr) (staging_of_reachable hr) hsingle hok hs

/-- The item was flushed into a generation of the index: each of its envelopes was written
there, or rejected and quarantined. -/
def AppliedTo (c : Config) (s : SinkSide V) (j : ℕ) (i : IndexName) (g : ℕ) : Prop :=
  ∃ f ∈ s.flushes, f.ticket = j ∧ f.target i = some g ∧
    ∃ e, s.log[j]? = some e ∧ ∀ w ∈ e.envelopes, s.Wrote c.engine f w

/-- The marker that makes a sink mark an index seeded completes a snapshot of it, applied to
the generation that is staged. -/
structure Completes (c : Config) (d : Deployment V) (sink : SinkName) (i : IndexName) (t n g : ℕ) :
    Prop where
  marker : ∃ indexes, (d.sinks sink).log[t]? = some (.complete n indexes) ∧ i ∈ indexes
  staged : ((d.sinks sink).indexes i).physical = some g ∧
    ((d.sinks sink).indexes i).metaDoc.map Prod.fst = some g
  complete : ∃ run, d.snapshots[n]? = some run ∧
    ∀ id : DocumentId V, id.index = i → Owed c run.rows id →
      Delivered ((d.sinks sink).log.take t) n id
  applied : ∀ j < t, ∀ documents, (d.sinks sink).log[j]? = some (.slice n documents) →
    (∃ x ∈ documents, x.id.index = i) → AppliedTo c (d.sinks sink) j i g

/-- Seeds belong to the generation they filled, and no reindex stages one before the marker
of a snapshot that is under way. -/
structure Sealed (c : Config) (d : Deployment V) : Prop where
  marking : ∀ sink i calls next, (d.sinks sink).phase = .calling (.markSeeded i :: calls) next →
    ∃ t n g indexes, next = .seeded t indexes ∧ Completes c d sink i t n g
  staging : ∀ sink i calls next, (d.sinks sink).phase = .calling (.reindex i :: calls) next →
    ∀ n, ¬d.OpenFor sink n i

omit [DecidableEq V] [ValueText V] in
theorem openFor_of_markSeeded {calls : List SinkCall} {next : Next} (ho : (d.sinks sink).OnLane)
    (hstaging : (d.sinks sink).Staging c.engine)
    (hphase : (d.sinks sink).phase = .calling (.markSeeded i :: calls) next) :
    ∃ n indexes, next = .seeded (d.sinks sink).consumed indexes ∧ i ∈ indexes ∧
      (d.sinks sink).log[(d.sinks sink).consumed]? = some (.complete n indexes) ∧
        d.OpenFor sink n i := by
  obtain ⟨t, indexes, rfl, hi⟩ := hstaging.marking _ _ i hphase List.mem_cons_self
  obtain ⟨n, hget⟩ := ho.marking _ t indexes hphase
  have hseq := ho.sequential
  rw [hphase] at hseq
  obtain ⟨rfl, -⟩ := hseq.held_eq
  rw [← SinkSide.consumed_eq (s := d.sinks sink) (by simp [hphase])] at hget ⊢
  refine ⟨n, indexes, rfl, hi, hget, .inl ⟨indexes, ?_, hi⟩⟩
  exact List.mem_of_getElem? (i := 0) (by rw [SinkSide.ahead, List.getElem?_drop, Nat.add_zero, hget])

theorem completes_of_markSeeded {calls : List SinkCall} {next : Next}
    (h : (daemon V c).ReachableWith (fun d a => d.undisturbed a = true) d)
    (hphase : (d.sinks sink).phase = .calling (.markSeeded i :: calls) next) :
    ∃ t n g indexes, next = .seeded t indexes ∧ Completes c d sink i t n g := by
  have hr := h.reachable
  obtain ⟨held, hserving⟩ := serving_of_reachable hr
  have hstaging := staging_of_reachable hr sink
  obtain ⟨n, indexes, rfl, hi, hget, hopen⟩ :=
    openFor_of_markSeeded (onLane_of_reachable hr sink) hstaging hphase
  have hsettled : ((d.sinks sink).indexes i).Settled := by
    by_contra hnot
    exact hstaging.unsettled i hnot (hopen.outstanding hserving (single_of_reachable h))
  obtain ⟨g, seeded, hmeta, hphysical⟩ := hsettled
  refine ⟨_, n, g, indexes, rfl, ⟨⟨indexes, hget, hi⟩, ⟨hphysical, by simp [hmeta]⟩, ?_, ?_⟩⟩
  · obtain ⟨run, hrun, -, hdelivered⟩ := (fanned_of_reachable hr).markers sink _ n indexes hget
    exact ⟨run, hrun, fun id hid howed => hdelivered id (hid ▸ hi) howed⟩
  · intro j hj documents hslice hx
    obtain ⟨f, hf, rfl, htarget⟩ := filled_of_reachable h sink n i j documents hslice hx hj hopen
    obtain ⟨e, he, hwrote⟩ := (flushed_of_reachable hr sink).wrote f hf
    exact ⟨f, hf, rfl, by rw [htarget, hphysical], e, he, hwrote⟩

/-- Every completed seed belongs to the generation it filled, while no failure puts back what
a marker answered. -/
theorem sealed (h : (daemon V c).ReachableWith (fun d a => d.undisturbed a = true) d) :
    d.Sealed c where
  marking _ _ _ _ hphase := completes_of_markSeeded h hphase
  staging sink i calls next hphase n hopen := by
    obtain ⟨held, hserving⟩ := serving_of_reachable h.reachable
    have hstaging := staging_of_reachable h.reachable sink
    have hnot := (hstaging.staging _ _ i hphase List.mem_cons_self).2
    exact hnot (hopen.outstanding hserving (single_of_reachable h))

/-- The scan fails halfway and starts over: both snapshots' slices go to the generation the
marker seeds. -/
theorem sealed_after_restart :
    let sink : SinkName := ⟨"sink"⟩
    let slice (n : ℕ) : Entry String := .slice n [.upsert ⟨⟨"users"⟩, [(⟨"id"⟩, "1")]⟩ "a"]
    ∃ d : Deployment String, (d.sinks sink).log = [slice 0, slice 1, .complete 1 [⟨"users"⟩]] ∧
      (d.sinks sink).phase = .calling [.markSeeded ⟨"users"⟩] (.seeded 2 [⟨"users"⟩]) ∧
      d.Sealed (.mirror [sink] (by decide) 2 1) := by
  intro sink slice
  let c : Config := .mirror [sink] (by decide) 2 1
  let document : Document String := .upsert ⟨⟨"users"⟩, [(⟨"id"⟩, "1")]⟩ "a"
  let view : Cdc.View String := fun _ => ⟨[some ⟨"id"⟩], [⟨["1"], "1"⟩]⟩
  let scan : List (Action String) := ([.prepare, .live, .takeRequest, .startSnapshot view,
    .row [] [document], .publish sink, .published] : List (IngestAction String)).map .ingest
  let apply : List (Action String) :=
    [.recv, .commit [⟨[], [document.envelope none], []⟩], .ack].map (.engine sink)
  let run : List (Action String) := List.flatten
    [[.stage, .call, .advance, .request].map (.engine sink),
    [.spawn, .engine sink .start], scan, [.ingest .fail], apply, scan, apply,
    [.ingest (.endSnapshot []), .ingest (.publish sink), .engine sink .recv]]
  obtain ⟨d, hrun, hlog, hphase⟩ := Transition.Machine.exists_of_run (m := daemon String c)
    (s := comeUp String c .missing (fun _ => true) fun _ _ => .absent) (t := run)
    (p := fun d => (d.sinks sink).log = [slice 0, slice 1, .complete 1 [⟨"users"⟩]] ∧
      (d.sinks sink).phase = .calling [.markSeeded ⟨"users"⟩] (.seeded 2 [⟨"users"⟩]))
    (by decide)
  exact ⟨d, hlog, hphase, sealed (reachable_comeUp.run (by decide) hrun)⟩

/-- Ingest fails with the marker out and its request not acknowledged. The second snapshot's
slice fills the first generation, an operator stages the next one, and the second marker
seeds that. -/
theorem not_sealed_request_redelivered :
    let c : Config := .mirror [⟨"sink"⟩] (by decide) 2 1
    ∃ d : Deployment String, (daemon String c).Reachable d ∧ ¬d.Sealed c := by
  intro c
  let sink : SinkName := ⟨"sink"⟩
  let users : IndexName := ⟨"users"⟩
  let document : Document String := .upsert ⟨users, [(⟨"id"⟩, "1")]⟩ "a"
  let view : Cdc.View String := fun _ => ⟨[some ⟨"id"⟩], [⟨["1"], "1"⟩]⟩
  let scan : List (Action String) := ([.prepare, .live, .takeRequest, .startSnapshot view,
    .row [] [document], .publish sink, .published] : List (IngestAction String)).map .ingest
  let mark : List (Action String) :=
    [.ingest (.endSnapshot []), .ingest (.publish sink), .ingest .published]
  let apply : List (Action String) :=
    [.recv, .commit [⟨[], [document.envelope none], []⟩], .ack].map (.engine sink)
  let run : List (Action String) := List.flatten
    [[.stage, .call, .advance, .request].map (.engine sink),
    [.spawn, .engine sink .start], scan, mark, [.ingest .fail], apply,
    [.recv, .call, .advance, .ack].map (.engine sink), scan, apply,
    [.reindex [users], .call, .call, .advance, .request].map (.engine sink), mark,
    [.engine sink .recv]]
  obtain ⟨d, hrun, hphase, hslice, hmarker, hphysical, hflushes⟩ := Transition.Machine.exists_of_run
    (m := daemon String c) (s := comeUp String c .missing (fun _ => true) fun _ _ => .absent)
    (t := run)
    (p := fun d => (d.sinks sink).phase = .calling [.markSeeded users] (.seeded 3 [users]) ∧
      (d.sinks sink).log[2]? = some (.slice 1 [document]) ∧
      (d.sinks sink).log[3]? = some (.complete 1 [users]) ∧
      ((d.sinks sink).indexes users).physical = some 2 ∧
      ∀ f ∈ (d.sinks sink).flushes, f.ticket = 2 → f.target users = some 1)
    (by decide)
  refine ⟨d, .run reachable_comeUp hrun, fun h => ?_⟩
  obtain ⟨t, n, g, indexes, heq, hcompletes⟩ := h.marking sink users [] _ hphase
  obtain ⟨rfl, rfl⟩ : 3 = t ∧ [users] = indexes := by simpa using heq
  obtain ⟨_, hget, -⟩ := hcompletes.marker
  rw [hmarker] at hget
  cases hget
  obtain ⟨f, hf, hticket, htarget, -⟩ := hcompletes.applied 2 (by decide) [document] hslice
    ⟨document, List.mem_singleton.mpr rfl, rfl⟩
  rw [hflushes f hf hticket, ← hcompletes.staged.1, hphysical] at htarget
  cases htarget

end Flusso.Deployment
