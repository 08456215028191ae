import Flusso.Daemon.Steps
import Flusso.Stream.InOrder

/-! # The request lane

Ingest holds the requests it collected, in the order they were delivered, until
the snapshot that serves them is complete; then it acknowledges them one by one.
A failure drops whatever it holds.
-/

namespace Flusso

variable {V : Type*} {c : Config}

/-- The snapshot was started for a run's deliveries. -/
structure Snapshot.Serves (c : Config) (s : Snapshot V) (run : SnapshotRun V) : Prop where
  requested : s.requested = requestedOf c.scopes run.deliveries
  indexes : s.indexes = indexesOf s.requested
  handles : s.handles = run.deliveries.map Prod.fst

namespace Deployment

variable {d d' : Deployment V} {held : List (ℕ × Request)} {a : Action V}

/-- The request deliveries ingest holds: those it is collecting, or those of the snapshot it
is serving that are not acknowledged yet. -/
structure Serving (c : Config) (d : Deployment V) (held : List (ℕ × Request)) : Prop where
  lane : d.requests.InOrder d.requestLog held
  tickets : held.map Prod.fst = d.ingest.heldTickets
  collecting : ∀ deliveries, d.ingest.phase = .collecting deliveries →
    d.ingest.snapshot = none ∧ held = deliveries
  acking : ∀ handles, d.ingest.phase = .acking handles → ∃ s, d.ingest.snapshot = some s
  running : ∀ s, d.ingest.snapshot = some s →
    ∃ run, d.snapshots[s.number]? = some run ∧ s.Serves c run ∧ held <:+ run.deliveries
  asked : ∀ run ∈ d.snapshots, ∀ t r, (t, r) ∈ run.deliveries → d.requestLog[t]? = some r
  sinks : ∀ r ∈ d.requestLog, r.sink ∈ c.sinks

theorem Serving.asked_held (h : d.Serving c held) {t : ℕ} {r : Request} (hmem : (t, r) ∈ held) :
    d.requestLog[t]? = some r :=
  h.lane.getElem?_log (h.lane.present_eq ▸ List.mem_append_left _ hmem)

theorem Serving.held_eq (h : d.Serving c held) {s : Snapshot V} {run : SnapshotRun V}
    (hsnap : d.ingest.snapshot = some s) (hrun : d.snapshots[s.number]? = some run)
    (hphase : ∀ handles, d.ingest.phase ≠ .acking handles) : held = run.deliveries := by
  obtain ⟨run', hrun', hserves, hsuffix⟩ := h.running s hsnap
  obtain rfl : run = run' := Option.some.inj (hrun.symm.trans hrun')
  have htickets := h.tickets
  have hheld : d.ingest.heldTickets = s.handles := by
    unfold Ingest.heldTickets
    split
    · next deliveries hcollecting =>
      have hnone := (h.collecting deliveries hcollecting).1
      rw [hsnap] at hnone
      cases hnone
    · next handles hacking => exact absurd hacking (hphase handles)
    · simp [hsnap]
  rw [hheld, hserves.handles] at htickets
  exact hsuffix.eq_of_length (by simpa using congrArg List.length htickets)

/-- The snapshot being served, if any, keeps what it is for. -/
def SameSnapshot (s s' : Option (Snapshot V)) : Prop :=
  ∀ x', s' = some x' → ∃ x, s = some x ∧ x'.number = x.number ∧
    x'.requested = x.requested ∧ x'.indexes = x.indexes ∧ x'.handles = x.handles

theorem sameSnapshot_refl (s : Option (Snapshot V)) : SameSnapshot s s :=
  fun x' h => ⟨x', h, rfl, rfl, rfl, rfl⟩

theorem sameSnapshot_update {s : Option (Snapshot V)} {x : Snapshot V} (h : s = some x)
    (rows : List (TableName × RowKey V)) (batch : PendingBatch V) :
    SameSnapshot s (some { x with rows, batch }) := by
  rintro x' ⟨⟩
  exact ⟨x, h, rfl, rfl, rfl, rfl⟩

theorem Serving.frame (h : d.Serving c held) (hrequests : d'.requests = d.requests)
    (hlog : d'.requestLog = d.requestLog) (hsnapshots : d'.snapshots = d.snapshots)
    (htickets : d'.ingest.heldTickets = d.ingest.heldTickets)
    (hcollecting : ∀ deliveries, d'.ingest.phase ≠ .collecting deliveries)
    (hacking : ∀ handles, d'.ingest.phase = .acking handles → ∃ s, d'.ingest.snapshot = some s)
    (hsame : SameSnapshot d.ingest.snapshot d'.ingest.snapshot) : d'.Serving c held where
  lane := by
    rw [hrequests, hlog]
    exact h.lane
  tickets := by rw [h.tickets, htickets]
  collecting deliveries hphase := absurd hphase (hcollecting deliveries)
  acking := hacking
  running s' hs' := by
    obtain ⟨s, hs, hnumber, hrequested, hindexes, hhandles⟩ := hsame s' hs'
    obtain ⟨run, hrun, hserves, hsuffix⟩ := h.running s hs
    refine ⟨run, by rw [hsnapshots, hnumber, hrun], ⟨?_, ?_, ?_⟩, hsuffix⟩
    · rw [hrequested, hserves.requested]
    · rw [hindexes, hrequested, hserves.indexes]
    · rw [hhandles, hserves.handles]
  asked := by
    rw [hsnapshots, hlog]
    exact h.asked
  sinks := by
    rw [hlog]
    exact h.sinks

theorem Serving.beside (h : d.Serving c held) (hrequests : d'.requests = d.requests)
    (hlog : d'.requestLog = d.requestLog) (hsnapshots : d'.snapshots = d.snapshots)
    (hingest : d'.ingest = d.ingest) : d'.Serving c held := by
  constructor
  · rw [hrequests, hlog]
    exact h.lane
  · rw [hingest]
    exact h.tickets
  · rw [hingest]
    exact h.collecting
  · rw [hingest]
    exact h.acking
  · rw [hingest, hsnapshots]
    exact h.running
  · rw [hsnapshots, hlog]
    exact h.asked
  · rw [hlog]
    exact h.sinks

theorem heldTickets_eq {i : Ingest V} (hcollecting : ∀ deliveries, i.phase ≠ .collecting deliveries)
    (hacking : ∀ handles, i.phase ≠ .acking handles) :
    i.heldTickets = (i.snapshot.map Snapshot.handles).getD [] := by
  unfold Ingest.heldTickets
  split
  · next deliveries hphase => exact absurd hphase (hcollecting deliveries)
  · next handles hphase => exact absurd hphase (hacking handles)
  · rfl

theorem getElem?_snapshots_new (run : SnapshotRun V) :
    (d.snapshots ++ [run])[d.snapshots.length]? = some run := by simp

/-- Serving goes on through every step. -/
theorem Serving.step [DecidableEq V] [ValueText V] (h : d.Serving c held)
    (hs : d.step c a = some d') : ∃ held', d'.Serving c held' := by
  have hold {phase : IngestPhase V} (hphase : d.ingest.phase = phase)
      (hc : ∀ deliveries, phase ≠ .collecting deliveries) (ha : ∀ handles, phase ≠ .acking handles) :=
    heldTickets_eq (i := d.ingest) (hphase ▸ hc) (hphase ▸ ha)
  cases move_of_step hs with
  | slot => exact ⟨held, h.beside rfl rfl rfl rfl⟩
  | spawn => exact ⟨held, h.beside rfl rfl rfl rfl⟩
  | prepare hphase _ =>
    refine ⟨held, h.frame requests_ensureSlot requestLog_ensureSlot snapshots_ensureSlot ?_
      (by simp) (by simp) (sameSnapshot_refl _)⟩
    rw [hold hphase (by simp) (by simp), heldTickets_eq (by simp) (by simp)]
  | live hphase _ =>
    refine ⟨held, h.frame requests_ensureSlot requestLog_ensureSlot snapshots_ensureSlot ?_
      (by simp) (by simp) (sameSnapshot_refl _)⟩
    rw [hold hphase (by simp) (by simp), heldTickets_eq (by simp) (by simp)]
  | change hpoll _ =>
    refine ⟨held, h.frame rfl rfl rfl ?_ (by simp) (by simp) (sameSnapshot_refl _)⟩
    rcases polling_phase hpoll with hphase | hphase
    · rw [hold hphase (by simp) (by simp), heldTickets_eq (by simp) (by simp)]
    · rw [hold hphase (by simp) (by simp), heldTickets_eq (by simp) (by simp)]
  | idle _ _ => exact ⟨held, h.beside rfl rfl rfl rfl⟩
  | endLive hpoll =>
    refine ⟨held, h.frame rfl rfl rfl rfl ?_ ?_ (sameSnapshot_refl _)⟩
    · rcases polling_phase hpoll with hphase | hphase <;> simp [hphase]
    · rcases polling_phase hpoll with hphase | hphase <;> simp [hphase]
  | commitLive hphase _ =>
    refine ⟨held, h.frame rfl rfl rfl ?_ (by simp) (by simp) (sameSnapshot_refl _)⟩
    rw [hold hphase (by simp) (by simp), heldTickets_eq (by simp) (by simp)]
  | @takeRequest delivery requests hphase hsnap hrecv =>
    have hnil : held = [] := by
      simpa [hold hphase (by simp) (by simp), hsnap] using h.tickets
    obtain ⟨hlane, -, -⟩ := h.lane.recv hrecv
    refine ⟨[delivery], ⟨?_, rfl, ?_, by simp, ?_, h.asked, h.sinks⟩⟩
    · simpa [hnil] using hlane
    · rintro deliveries ⟨⟩
      exact ⟨hsnap, rfl⟩
    · simp [hsnap]
  | @collect deliveries delivery requests hphase hrecv =>
    obtain ⟨hsnap, rfl⟩ := h.collecting deliveries hphase
    obtain ⟨hlane, -, -⟩ := h.lane.recv hrecv
    refine ⟨held ++ [delivery], ⟨hlane, rfl, ?_, by simp, ?_, h.asked, h.sinks⟩⟩
    · rintro deliveries ⟨⟩
      exact ⟨hsnap, rfl⟩
    · simp [hsnap]
  | @startSnapshot view deliveries phase hphase hnext =>
    obtain ⟨hsnap, rfl⟩ := h.collecting deliveries hphase
    have hcollecting : ∀ deliveries, phase ≠ .collecting deliveries := by
      rcases hnext with ⟨rfl, -⟩ | rfl <;> simp
    have hacking : ∀ handles, phase ≠ .acking handles := by
      rcases hnext with ⟨rfl, -⟩ | rfl <;> simp
    refine ⟨held, ⟨h.lane, ?_, fun deliveries hp => absurd hp (hcollecting deliveries),
      fun handles hp => absurd hp (hacking handles), ?_, ?_, h.sinks⟩⟩
    · rw [heldTickets_eq hcollecting hacking]
      rfl
    · rintro s ⟨⟩
      exact ⟨_, getElem?_snapshots_new _, ⟨rfl, rfl, rfl⟩, List.suffix_refl _⟩
    · intro run hrun t r hmem
      rcases List.mem_append.mp hrun with hrun | hrun
      · exact h.asked run hrun t r hmem
      · obtain rfl := List.mem_singleton.mp hrun
        exact h.asked_held hmem
  | row hphase hsnap _ _ =>
    refine ⟨held, h.frame rfl rfl rfl ?_ (by simp [hphase]) (by simp [hphase])
      (sameSnapshot_update hsnap _ _)⟩
    rw [hold hphase (by simp) (by simp), heldTickets_eq (by simp [hphase]) (by simp [hphase])]
    simp [hsnap]
  | rowCommit hphase hsnap _ _ _ =>
    refine ⟨held, h.frame rfl rfl rfl ?_ (by rintro _ ⟨⟩) (by rintro _ ⟨⟩)
      (sameSnapshot_update hsnap _ _)⟩
    rw [hold hphase (by simp) (by simp), heldTickets_eq (by rintro _ ⟨⟩) (by rintro _ ⟨⟩)]
    simp [hsnap, commitSnapshot]
  | endSnapshot hphase _ _ _ =>
    refine ⟨held, h.frame rfl rfl rfl ?_ (by simp) (by simp) (sameSnapshot_refl _)⟩
    rw [hold hphase (by simp) (by simp), heldTickets_eq (by simp) (by simp)]
  | endSnapshotCommit hphase hsnap _ _ =>
    refine ⟨held, h.frame rfl rfl rfl ?_ (by rintro _ ⟨⟩) (by rintro _ ⟨⟩)
      (sameSnapshot_update hsnap _ _)⟩
    rw [hold hphase (by simp) (by simp), heldTickets_eq (by rintro _ ⟨⟩) (by rintro _ ⟨⟩)]
    simp [hsnap, commitSnapshot]
  | publish hphase _ _ =>
    refine ⟨held, h.frame rfl rfl rfl ?_ (by simp) (by simp) (sameSnapshot_refl _)⟩
    rw [hold hphase (by simp) (by simp), heldTickets_eq (by simp) (by simp)]
  | publishedLive hphase =>
    refine ⟨held, h.frame rfl rfl rfl ?_ (by simp) (by simp) (sameSnapshot_refl _)⟩
    rw [hold hphase (by simp) (by simp), heldTickets_eq (by simp) (by simp)]
  | publishedSlice hsnap hphase =>
    refine ⟨held, h.frame rfl rfl rfl ?_ (by simp) (by simp) (sameSnapshot_update hsnap _ _)⟩
    rw [hold hphase (by simp) (by simp), heldTickets_eq (by simp) (by simp)]
    simp [hsnap]
  | publishedLastSlice hsnap hphase =>
    refine ⟨held, h.frame rfl rfl rfl ?_ (by simp) (by simp) (sameSnapshot_update hsnap _ _)⟩
    rw [hold hphase (by simp) (by simp), heldTickets_eq (by simp) (by simp)]
    simp [hsnap]
  | publishedMarkers hsnap hphase =>
    refine ⟨held, h.frame rfl rfl rfl ?_ (by simp) (by simp [hsnap]) (sameSnapshot_refl _)⟩
    rw [hold hphase (by simp) (by simp)]
    simp [Ingest.heldTickets, hsnap]
  | @ackRequest ticket handles hphase =>
    have htickets := h.tickets
    simp only [Ingest.heldTickets, hphase] at htickets
    cases held with
    | nil => cases htickets
    | cons entry held =>
      obtain ⟨t, r⟩ := entry
      obtain ⟨rfl, rfl⟩ := List.cons.inj htickets
      obtain ⟨hlane, -, -⟩ := h.lane.ack
      refine ⟨held, ⟨hlane, rfl, by simp, fun _ _ => h.acking _ hphase, ?_, h.asked, h.sinks⟩⟩
      intro s hsnap
      obtain ⟨run, hrun, hserves, hsuffix⟩ := h.running s hsnap
      exact ⟨run, hrun, hserves, (List.suffix_cons _ _).trans hsuffix⟩
  | finished hphase =>
    have hnil : held = [] := by simpa [Ingest.heldTickets, hphase] using h.tickets
    refine ⟨held, ⟨h.lane, ?_, by simp, by simp, by simp, h.asked, h.sinks⟩⟩
    rw [heldTickets_eq (by simp) (by simp), hnil]
    rfl
  | confirm hcall =>
    refine ⟨held, h.frame rfl rfl rfl rfl ?_ ?_ (sameSnapshot_refl _)⟩
    · rcases (confirmCall_cases hcall).1 with hphase | hphase <;> simp [hphase]
    · rcases (confirmCall_cases hcall).1 with hphase | hphase <;> simp [hphase]
  | stop hphase _ =>
    refine ⟨held, h.frame rfl rfl rfl ?_ (by simp) (by simp) (sameSnapshot_refl _)⟩
    rw [hold hphase (by simp) (by simp), heldTickets_eq (by simp) (by simp)]
  | fail _ _ =>
    obtain ⟨hlane, -⟩ := h.lane.releaseAll
    rw [h.tickets] at hlane
    exact ⟨[], ⟨hlane, rfl, by simp [Ingest.down], by simp [Ingest.down], by simp [Ingest.down],
      h.asked, h.sinks⟩⟩
  | @request sink indexes staging requests hsink _ hp =>
    have hget {t : ℕ} {r : Request} (hr : d.requestLog[t]? = some r) :
        (d.requestLog ++ [⟨sink, indexes⟩])[t]? = some r := by
      rw [List.getElem?_append_left (List.getElem?_eq_some_iff.mp hr).1, hr]
    refine ⟨held, ⟨(h.lane.publish hp).1, h.tickets, h.collecting, h.acking, h.running, ?_, ?_⟩⟩
    · exact fun run hrun t r hmem => hget (h.asked run hrun t r hmem)
    · intro r hr
      rcases List.mem_append.mp hr with hr | hr
      · exact h.sinks r hr
      · rw [List.mem_singleton.mp hr]
        exact hsink
  | engine _ _ _ => exact ⟨held, h.beside rfl rfl rfl rfl⟩

theorem serving_of_reachable [DecidableEq V] [ValueText V] (h : (daemon V c).Reachable d) :
    ∃ held, d.Serving c held := by
  refine Transition.Machine.Reachable.invariant (m := daemon V c)
    (P := fun d => ∃ held, d.Serving c held) (fun d hd => ⟨[], ?_⟩)
    (fun d a d' _ ⟨held, hp⟩ hs => hp.step hs) h
  constructor
  · rw [hd.requests, hd.requestLog]
    exact Stream.Channel.inOrder_new _
  · simp [hd.ingest, Ingest.down, Ingest.heldTickets]
  · simp [hd.ingest, Ingest.down]
  · simp [hd.ingest, Ingest.down]
  · simp [hd.ingest, Ingest.down]
  · simp [hd.snapshots]
  · simp [hd.requestLog]

end Deployment

end Flusso
