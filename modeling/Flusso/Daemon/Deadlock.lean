import Flusso.Daemon.Fanout
import Flusso.Daemon.Staging

/-! # Bounded lanes

Sinks publish requests to ingest through one bounded lane, ingest publishes
batches to sinks through theirs. While every request finds room, no sink waits
on ingest, so whatever lane ingest waits on is emptied by its engine.
-/

namespace Flusso

variable {V : Type*} {c : Config}

namespace Stream.Channel

variable {T : Type*} {ch ch' : Channel T} {x : T} {t : ℕ} {entry : ℕ × T}

/-- No room to publish. -/
def isFull (ch : Channel T) : Bool := ch.capacity ≤ ch.queue.length

theorem exists_publish (h : ch.isFull = false) (x : T) : ∃ ch', ch.publish x = some ch' := by
  have hlt : ch.queue.length < ch.capacity := by simpa [isFull] using h
  exact ⟨_, if_pos hlt⟩

theorem publish_of_isFull (h : ch.isFull = true) : ch.publish x = none := by
  have hle : ch.capacity ≤ ch.queue.length := by simpa [isFull] using h
  exact if_neg (Nat.not_lt.mpr hle)

theorem publish_room (h : ch.publish x = some ch') :
    ch'.capacity = ch.capacity ∧ ch'.queue.length = ch.queue.length + 1 := by
  unfold Channel.publish at h
  split at h
  · cases h
    simp
  · cases h

theorem recv_room (h : ch.recv = some (entry, ch')) :
    ch'.capacity = ch.capacity ∧ ch'.queue.length ≤ ch.queue.length := by
  unfold Channel.recv at h
  split at h
  · cases h
    exact ⟨rfl, Nat.le_refl _⟩
  · split at h
    · cases h
    · next hqueue =>
      cases h
      simp [hqueue]

end Stream.Channel

namespace EnginePhase

def isRequesting : EnginePhase V → Bool
  | .requesting _ _ => true
  | _ => false

end EnginePhase

/-- The steps the daemon takes on its own: no failure, no event of the source, no operator. -/
def Action.isOwn : Action V → Bool
  | .dropSlot => false
  | .invalidateSlot => false
  | .ingest (.change _ _ _ _) => false
  | .ingest (.idle _) => false
  | .ingest .endLive => false
  | .ingest .fail => false
  | .engine _ (.commitFail _) => false
  | .engine _ (.reindex _) => false
  | .engine _ .fail => false
  | _ => true

namespace Deployment

variable {d d' : Deployment V} {a : Action V} {sink : SinkName}

/-- How many sinks are publishing a request. -/
def requesting (c : Config) (d : Deployment V) : ℕ :=
  c.sinks.countP fun sink => (d.sinks sink).phase.isRequesting

/-- A sink waits to publish its request to a full request lane. -/
def RequestBlocked (d : Deployment V) (sink : SinkName) : Prop :=
  (d.sinks sink).phase.isRequesting = true ∧ d.requests.isFull = true

/-- Ingest waits to publish an entry to a sink's full lane. -/
def LaneBlocked (d : Deployment V) (sink : SinkName) : Prop :=
  ∃ todo after entry, d.ingest.phase = .publishing todo after ∧ (sink, entry) ∈ todo ∧
    (d.sinks sink).lane.isFull = true

variable [DecidableEq V] [ValueText V]

/-- Some party waits for room on a lane, and nothing the daemon does on its own is enabled. -/
def Deadlocked (c : Config) (d : Deployment V) : Prop :=
  (∃ sink ∈ c.sinks, d.RequestBlocked sink ∨ d.LaneBlocked sink) ∧
    ∀ a : Action V, a.isOwn = true → d.step c a = none

/-- A sink begins to publish a request only when the request lane has room for it beside the
requests being published. -/
def roomy (c : Config) (d : Deployment V) : Action V → Bool
  | .engine sink .advance =>
    match (d.sinks sink).advance c.engine with
    | some side => !side.phase.isRequesting ||
        decide (d.requests.queue.length + d.requesting c < d.requests.capacity)
    | none => true
  | _ => true

/-- No sink waits on the request lane, and the engine of a lane ingest waits on can step. -/
structure Flowing (c : Config) (d : Deployment V) : Prop where
  requests : ∀ sink ∈ c.sinks, ¬d.RequestBlocked sink
  lanes : ∀ sink, d.LaneBlocked sink →
    ∃ a : EngineAction V, (Action.engine sink a).isOwn = true ∧ (d.step c (.engine sink a)).isSome
  free : ¬d.Deadlocked c

theorem countP_update {α : Type*} {l : List α} {p q : α → Bool} {s : α} (hnodup : l.Nodup)
    (hs : s ∈ l) (h : ∀ x, x ≠ s → p x = q x) :
    l.countP p + (q s).toNat = l.countP q + (p s).toNat := by
  induction l with
  | nil => cases hs
  | cons x l ih =>
    obtain ⟨hx, hnodup⟩ := List.nodup_cons.mp hnodup
    rw [List.countP_cons, List.countP_cons]
    rcases List.mem_cons.mp hs with rfl | hs
    · have hrest : l.countP p = l.countP q := by
        refine List.countP_congr fun y hy => ?_
        rw [h y (fun heq => hx (heq ▸ hy))]
      rw [hrest]
      cases p s <;> cases q s <;> simp
    · rw [h x (fun heq => hx (heq ▸ hs))]
      have := ih hnodup hs
      omega

omit [DecidableEq V] [ValueText V] in
theorem requesting_update {side : SinkSide V} (hsink : sink ∈ c.sinks)
    (hsinks : d'.sinks = Function.update d.sinks sink side) :
    d'.requesting c + (d.sinks sink).phase.isRequesting.toNat =
      d.requesting c + side.phase.isRequesting.toNat := by
  have hcount := countP_update (p := fun s => (d'.sinks s).phase.isRequesting)
    (q := fun s => (d.sinks s).phase.isRequesting) c.nodup hsink
    (fun x hx => by rw [hsinks, Function.update_of_ne hx])
  simpa only [requesting, hsinks, Function.update_self] using hcount

omit [DecidableEq V] [ValueText V] in
theorem requesting_congr (h : ∀ s, (d'.sinks s).phase = (d.sinks s).phase) :
    d'.requesting c = d.requesting c := by
  simp only [requesting, h]

omit [DecidableEq V] [ValueText V] in
theorem phase_ensureSlot (s : SinkName) : (d.ensureSlot.sinks s).phase = (d.sinks s).phase := by
  rcases sinks_ensureSlot (d := d) (s := s) with h | h <;> rw [h]
  rfl

theorem isRequesting_sideStep {s s' : SinkSide V} {a : EngineAction V}
    (hs : sideStep c s a = some s') (h : s'.phase.isRequesting = true) :
    a = .advance ∧ s.phase.isRequesting = false := by
  cases a with
  | stage =>
    obtain ⟨k, -, rfl⟩ := SinkSide.stage_cases hs
    cases h
  | call =>
    obtain ⟨sc, calls, next, side, -, -, rfl⟩ := SinkSide.call_cases hs
    cases h
  | advance =>
    refine ⟨rfl, ?_⟩
    rcases SinkSide.advance_cases hs with ⟨k, hphase, -⟩ | ⟨k, hphase, -⟩ |
      ⟨k, ⟨hphase, -⟩ | hphase, -⟩ | ⟨staged, hphase, -⟩ | ⟨t, indexes, hphase, -⟩
    all_goals rw [hphase]; rfl
  | request => cases hs
  | start =>
    obtain ⟨-, rfl⟩ := SinkSide.start_cases hs
    cases h
  | recv =>
    obtain ⟨t, e, lane, -, -, ⟨n, indexes, -, rfl⟩ | ⟨-, rfl⟩⟩ := SinkSide.recv_cases hs
    · cases h
    · cases h
  | commit requests =>
    obtain ⟨t, e, -, -, -, -, rfl⟩ := SinkSide.commit_cases hs
    cases h
  | commitFail requests =>
    obtain ⟨t, e, -, -, -, rfl⟩ := SinkSide.commitFail_cases hs
    cases h
  | ack =>
    obtain ⟨t, -, rfl⟩ := SinkSide.ack_cases hs
    cases h
  | reindex indexes =>
    obtain ⟨hphase, ⟨-, rfl⟩ | ⟨-, staged, -, rfl⟩⟩ := SinkSide.reindex_cases hs
    · rw [hphase] at h
      cases h
    · cases h
  | fail =>
    obtain ⟨k, -, ⟨-, rfl⟩ | ⟨t, -, rfl⟩⟩ := SinkSide.fail_cases hs
    · cases h
    · cases h

/-- The request lane has room for every request being published. -/
def Room (c : Config) (d : Deployment V) : Prop :=
  d.requests.queue.length + d.requesting c ≤ d.requests.capacity

omit [DecidableEq V] [ValueText V] in
theorem Room.frame (h : d.Room c) (hqueue : d'.requests.queue.length ≤ d.requests.queue.length)
    (hcapacity : d'.requests.capacity = d.requests.capacity)
    (hphase : ∀ s, (d'.sinks s).phase = (d.sinks s).phase) : d'.Room c := by
  have hrequesting := requesting_congr (c := c) hphase
  unfold Room at h ⊢
  omega

theorem Room.step (h : d.Room c) (hok : d.roomy c a = true) (hs : d.step c a = some d') :
    d'.Room c := by
  cases move_of_step hs with
  | prepare _ _ =>
    exact h.frame (by rw [requests_ensureSlot]) (by rw [requests_ensureSlot]) phase_ensureSlot
  | live _ _ =>
    exact h.frame (by rw [requests_ensureSlot]) (by rw [requests_ensureSlot]) phase_ensureSlot
  | takeRequest _ _ hrecv =>
    obtain ⟨hcapacity, hqueue⟩ := Stream.Channel.recv_room hrecv
    exact h.frame hqueue hcapacity fun _ => rfl
  | collect _ hrecv =>
    obtain ⟨hcapacity, hqueue⟩ := Stream.Channel.recv_room hrecv
    exact h.frame hqueue hcapacity fun _ => rfl
  | @publish sink _ _ _ _ _ _ hside =>
    obtain ⟨lane, -, rfl⟩ := SinkSide.publish_cases hside
    refine h.frame (Nat.le_refl _) rfl fun s => ?_
    by_cases hsink : s = sink
    · subst hsink
      simp only [Function.update_self]
    · simp only [Function.update_of_ne hsink]
  | fail _ _ =>
    obtain ⟨k, -, heq⟩ := Stream.Channel.foldl_release d.ingest.heldTickets d.requests
    exact h.frame (by simp only [heq]; exact Nat.le_refl _) (by simp only [heq]) fun _ => rfl
  | @request sink indexes staging requests hsink hphase hp =>
    obtain ⟨hcapacity, hqueue⟩ := Stream.Channel.publish_room hp
    have hsinks : (d.withSide sink ((d.sinks sink).requested indexes staging)).sinks =
        Function.update d.sinks sink ((d.sinks sink).requested indexes staging) := rfl
    have hcount := requesting_update hsink hsinks
    have hold : (d.sinks sink).phase.isRequesting.toNat = 1 := by rw [hphase]; rfl
    have hnew : ((d.sinks sink).requested indexes staging).phase.isRequesting.toNat = 0 := by
      simp only [SinkSide.requested]
      split <;> rfl
    unfold Room at h ⊢
    change requests.queue.length + (d.withSide sink _).requesting c ≤ requests.capacity
    omega
  | @engine sink a side hsink _ hside =>
    have hsinks : (d.withSide sink side).sinks = Function.update d.sinks sink side := rfl
    have hcount := requesting_update hsink hsinks
    unfold Room at h ⊢
    change d.requests.queue.length + (d.withSide sink side).requesting c ≤ d.requests.capacity
    cases hnew : side.phase.isRequesting with
    | false =>
      simp only [hnew, Bool.toNat_false] at hcount
      omega
    | true =>
      obtain ⟨rfl, hold⟩ := isRequesting_sideStep hside hnew
      have hadvance : (d.sinks sink).advance c.engine = some side := hside
      simp only [hold, hnew, Bool.toNat_false, Bool.toNat_true] at hcount
      simp [roomy, hadvance, hnew] at hok
      omega
  | _ => exact h

theorem room_of_reachable (h : (daemon V c).ReachableWith (fun d a => d.roomy c a = true) d) :
    d.Room c := by
  refine h.invariant (P := Room c) (fun d hd => ?_) (fun d a d' _ hp hok hs => hp.step hok hs)
  have hnone : d.requesting c = 0 := by
    refine List.countP_eq_zero.mpr fun s _ => ?_
    simp [hd.phase, EnginePhase.isRequesting]
  rw [Room, hnone, hd.requests]
  exact Nat.zero_le _

section Lanes

theorem capacity_sideStep {s s' : SinkSide V} {a : EngineAction V}
    (hs : sideStep c s a = some s') : s'.lane.capacity = s.lane.capacity := by
  cases a with
  | stage =>
    obtain ⟨k, -, rfl⟩ := SinkSide.stage_cases hs
    rfl
  | call =>
    obtain ⟨sc, calls, next, side, -, happly, rfl⟩ := SinkSide.call_cases hs
    rw [SinkSide.applyCall_frame happly]
  | advance =>
    rcases SinkSide.advance_cases hs with ⟨k, -, -, rfl⟩ | ⟨k, -, -, -, -, rfl⟩ | ⟨k, -, rfl⟩ |
      ⟨staged, -, ⟨-, rfl⟩ | ⟨-, rfl⟩⟩ | ⟨t, indexes, -, rfl⟩
    case inr.inr.inl =>
      rcases SinkSide.requestUnseeded_cases (o := c.engine) (s := s) k with hreq | ⟨-, -, hreq⟩ <;>
        rw [hreq]
    all_goals rfl
  | request => cases hs
  | start =>
    obtain ⟨-, rfl⟩ := SinkSide.start_cases hs
    rfl
  | recv =>
    obtain ⟨t, e, lane, -, hrecv, ⟨n, indexes, -, rfl⟩ | ⟨-, rfl⟩⟩ := SinkSide.recv_cases hs
    · exact (Stream.Channel.recv_room hrecv).1
    · exact (Stream.Channel.recv_room hrecv).1
  | commit requests =>
    obtain ⟨t, e, -, -, -, -, rfl⟩ := SinkSide.commit_cases hs
    rfl
  | commitFail requests =>
    obtain ⟨t, e, -, -, -, rfl⟩ := SinkSide.commitFail_cases hs
    rfl
  | ack =>
    obtain ⟨t, -, rfl⟩ := SinkSide.ack_cases hs
    rfl
  | reindex indexes =>
    obtain ⟨-, ⟨-, rfl⟩ | ⟨-, staged, -, rfl⟩⟩ := SinkSide.reindex_cases hs
    · rfl
    · rfl
  | fail =>
    obtain ⟨k, -, ⟨-, rfl⟩ | ⟨t, -, rfl⟩⟩ := SinkSide.fail_cases hs
    · rfl
    · rfl

theorem capacity_of_reachable (h : (daemon V c).Reachable d) (sink : SinkName) :
    (d.sinks sink).lane.capacity = c.laneCapacity := by
  refine Transition.Machine.Reachable.invariant (m := daemon V c)
    (P := fun d => (d.sinks sink).lane.capacity = c.laneCapacity)
    (fun d hd => by rw [hd.lane]; rfl) (fun d a d' _ hp hs => ?_) h
  have hm := sideMove_of_step hs sink
  generalize d'.sinks sink = side at hm ⊢
  cases hm with
  | same => exact hp
  | slotCreated _ _ _ => exact hp
  | engine _ _ hside => rw [capacity_sideStep hside, hp]
  | requested _ _ _ => exact hp
  | published _ _ hside =>
    obtain ⟨lane, hlane, rfl⟩ := SinkSide.publish_cases hside
    rw [← hp]
    exact (Stream.Channel.publish_room hlane).1

/-- Ingest runs once the engines are spawned, and publishes to the sinks' lanes only. -/
structure Posting (c : Config) (d : Deployment V) : Prop where
  spawned : d.ingest.phase ≠ .down → d.spawned = true
  sinks : ∀ todo after, d.ingest.phase = .publishing todo after →
    ∀ entry ∈ todo, entry.1 ∈ c.sinks
  asked : ∀ r ∈ d.requestLog, ∀ i ∈ r.indexes, i ∈ c.engine.mappings

omit [DecidableEq V] [ValueText V] in
theorem mem_toLanes {todo : List (SinkName × Entry V)} {entry : SinkName × Entry V}
    (h : entry ∈ toLanes c todo) : entry.1 ∈ c.sinks := by
  simpa using (List.mem_filter.mp h).2

omit [DecidableEq V] [ValueText V] in
theorem Posting.running (h : d.Posting c) {phase : IngestPhase V} (hphase : d.ingest.phase = phase)
    (hne : phase ≠ .down) (hspawned : d'.spawned = d.spawned)
    (hlog : d'.requestLog = d.requestLog)
    (htodo : ∀ todo after, d'.ingest.phase = .publishing todo after →
      ∀ entry ∈ todo, entry.1 ∈ c.sinks) : d'.Posting c where
  spawned _ := hspawned ▸ h.spawned (hphase ▸ hne)
  sinks := htodo
  asked := by
    rw [hlog]
    exact h.asked

theorem Posting.step (h : d.Posting c) (hstaging : ∀ s, (d.sinks s).Staging c.engine)
    (hs : d.step c a = some d') : d'.Posting c := by
  cases move_of_step hs with
  | slot => exact ⟨h.spawned, h.sinks, h.asked⟩
  | spawn => exact ⟨fun _ => rfl, h.sinks, h.asked⟩
  | prepare _ hspawned =>
    refine ⟨fun _ => by simp [hspawned], by simp, ?_⟩
    simp only [requestLog_ensureSlot]
    exact h.asked
  | live hphase _ =>
    exact h.running hphase (by simp) spawned_ensureSlot requestLog_ensureSlot (by simp)
  | change hpoll _ =>
    rcases polling_phase hpoll with hphase | hphase
    · exact h.running hphase (by simp) rfl rfl (by simp)
    · exact h.running hphase (by simp) rfl rfl (by simp)
  | idle _ _ => exact ⟨h.spawned, h.sinks, h.asked⟩
  | endLive _ => exact ⟨h.spawned, h.sinks, h.asked⟩
  | commitLive hphase _ =>
    refine h.running hphase (by simp) rfl rfl ?_
    rintro todo after ⟨⟩ entry hentry
    obtain ⟨s, hs, rfl⟩ := List.mem_map.mp hentry
    exact hs
  | takeRequest hphase _ _ => exact h.running hphase (by simp) rfl rfl (by simp)
  | collect hphase _ => exact h.running hphase (by simp) rfl rfl (by simp)
  | startSnapshot hphase hnext =>
    refine h.running hphase (by simp) rfl rfl ?_
    rcases hnext with ⟨rfl, -⟩ | rfl
    · rintro todo after ⟨⟩ entry hentry
      exact mem_toLanes hentry
    · simp
  | row hphase _ _ _ => exact h.running hphase (by simp) rfl rfl (by simp [hphase])
  | rowCommit hphase _ _ _ _ =>
    refine h.running hphase (by simp) rfl rfl ?_
    rintro todo after ⟨⟩ entry hentry
    exact mem_toLanes hentry
  | endSnapshot hphase _ _ _ =>
    refine h.running hphase (by simp) rfl rfl ?_
    rintro todo after ⟨⟩ entry hentry
    exact mem_toLanes hentry
  | endSnapshotCommit hphase _ _ _ =>
    refine h.running hphase (by simp) rfl rfl ?_
    rintro todo after ⟨⟩ entry hentry
    exact mem_toLanes hentry
  | publish hphase _ _ =>
    refine h.running hphase (by simp) rfl rfl ?_
    rintro todo after ⟨⟩ entry hentry
    exact h.sinks _ _ hphase entry (List.mem_of_mem_filter hentry)
  | publishedLive hphase => exact h.running hphase (by simp) rfl rfl (by simp)
  | publishedSlice _ hphase => exact h.running hphase (by simp) rfl rfl (by simp)
  | publishedLastSlice _ hphase =>
    refine h.running hphase (by simp) rfl rfl ?_
    rintro todo after ⟨⟩ entry hentry
    exact mem_toLanes hentry
  | publishedMarkers _ hphase => exact h.running hphase (by simp) rfl rfl (by simp)
  | ackRequest hphase => exact h.running hphase (by simp) rfl rfl (by simp)
  | finished hphase => exact h.running hphase (by simp) rfl rfl (by simp)
  | confirm _ => exact ⟨h.spawned, h.sinks, h.asked⟩
  | stop hphase _ => exact h.running hphase (by simp) rfl rfl (by simp)
  | fail hdown _ => exact h.running rfl hdown rfl rfl (by simp [Ingest.down])
  | @request sink indexes staging requests _ hphase _ =>
    refine ⟨h.spawned, h.sinks, fun r hr i hi => ?_⟩
    rcases List.mem_append.mp hr with hr | hr
    · exact h.asked r hr i hi
    · rw [List.mem_singleton.mp hr] at hi
      exact ((hstaging sink).requesting indexes staging hphase i hi).1
  | engine _ _ _ => exact ⟨h.spawned, h.sinks, h.asked⟩

theorem posting_of_reachable (h : (daemon V c).Reachable d) : d.Posting c := by
  refine Transition.Machine.Reachable.invariant (m := daemon V c) (P := Posting c)
    (fun d hd => ?_) (fun d a d' hr hp hs => hp.step (staging_of_reachable hr) hs) h
  constructor
  · simp [hd.ingest, Ingest.down]
  · simp [hd.ingest, Ingest.down]
  · simp [hd.requestLog]

theorem isSome_engineStep {a : EngineAction V} (hsink : sink ∈ c.sinks)
    (hstart : a = .start → d.spawned = true) (hrequest : a ≠ .request)
    (h : (sideStep c (d.sinks sink) a).isSome = true) :
    (d.step c (.engine sink a)).isSome = true := by
  simp only [Deployment.step, engineStep, if_pos hsink]
  cases a with
  | request => exact absurd rfl hrequest
  | start => simpa [hstart rfl] using h
  | _ => simpa using h

omit [DecidableEq V] [ValueText V] in
theorem isSome_advance {s : SinkSide V} {next : Next} (hphase : s.phase = .calling [] next) :
    (s.advance c.engine).isSome = true := by
  unfold SinkSide.advance
  rw [hphase]
  cases next with
  | ensured k =>
    simp only
    split
    · rfl
    · split <;> rfl
  | rebuilt k => rfl
  | reindexed staged =>
    simp only
    split <;> rfl
  | seeded t indexes => rfl

/-- A marker names only indexes the engine maintains, which are settled when it arrives. -/
theorem isSome_call (h : (daemon V c).Reachable d) {sc : SinkCall} {calls : List SinkCall}
    {next : Next} (hphase : (d.sinks sink).phase = .calling (sc :: calls) next) :
    ((d.sinks sink).call).isSome = true := by
  have hstaging := staging_of_reachable h sink
  simp only [SinkSide.call, hphase, Option.isSome_map]
  cases sc with
  | ensureIndex i => rfl
  | reindex i => rfl
  | markSeeded i =>
    obtain ⟨t, indexes, rfl, hi⟩ := hstaging.marking _ _ i hphase List.mem_cons_self
    obtain ⟨n, hget⟩ := (onLane_of_reachable h sink).marking _ t indexes hphase
    obtain ⟨run, hrun, hrequested, -⟩ := (fanned_of_reachable h).markers sink t n indexes hget
    obtain ⟨held, hserving⟩ := serving_of_reachable h
    obtain ⟨⟨ticket, r⟩, hmem, -, hknown⟩ := asks_requestedOf.mp ⟨indexes, hrequested, hi⟩
    have hasked := hserving.asked run (List.mem_of_getElem? hrun) ticket r hmem
    have hmapped := (posting_of_reachable h).asked r (List.mem_of_getElem? hasked) i
      (mem_known.mp hknown).1
    have hsettled : ((d.sinks sink).indexes i).Settled := by
      rcases hstaging.ensured i hmapped with ⟨k, hk⟩ | ⟨calls', next', hphase', hensure⟩ | hsettled
      · rw [hphase] at hk
        cases hk
      · rw [hphase] at hphase'
        cases hphase'
        obtain ⟨j, -, hj⟩ := hstaging.seeding _ t indexes hphase _ hensure
        cases hj
      · exact hsettled
    obtain ⟨g, -, -, hphysical⟩ := hsettled
    obtain ⟨state, hstate, -⟩ := IndexState.exists_markSeeded hphysical
    simp [SinkSide.applyCall, hstate]

omit [DecidableEq V] [ValueText V] in
theorem isFull_eq_false_of_room (hroom : d.Room c) (hsink : sink ∈ c.sinks)
    (hphase : (d.sinks sink).phase.isRequesting = true) : d.requests.isFull = false := by
  have hpos : 0 < d.requesting c := List.countP_pos_iff.mpr ⟨sink, hsink, hphase⟩
  unfold Room at hroom
  simp only [Stream.Channel.isFull, decide_eq_false_iff_not]
  omega

theorem isSome_request (hroom : d.Room c) (hsink : sink ∈ c.sinks) {indexes : List IndexName}
    {staging : Option Continuity} (hphase : (d.sinks sink).phase = .requesting indexes staging) :
    (d.step c (.engine sink .request)).isSome = true := by
  have hroom := isFull_eq_false_of_room hroom hsink (by rw [hphase]; rfl)
  obtain ⟨requests, hpublish⟩ := Stream.Channel.exists_publish hroom ⟨sink, indexes⟩
  simp [Deployment.step, engineStep, hsink, request, hphase, hpublish]

theorem isSome_recv (h : (daemon V c).Reachable d) (hphase : (d.sinks sink).phase = .running)
    (hfull : (d.sinks sink).lane.isFull = true) : ((d.sinks sink).recv).isSome = true := by
  have hseq := (onLane_of_reachable h sink).sequential
  rw [hphase] at hseq
  have hcap : 0 < (d.sinks sink).lane.capacity := by
    rw [capacity_of_reachable h]
    exact Nat.lt_of_lt_of_le Nat.zero_lt_one (Nat.le_max_right _ _)
  have hdone := hseq.done_lt_of_publish_eq_none hcap
    (Stream.Channel.publish_of_isFull (x := Entry.complete 0 []) hfull)
  obtain ⟨⟨t, e⟩, lane, hrecv⟩ := hseq.exists_recv hdone
  simp only [SinkSide.recv, hphase, hrecv]
  cases e <;> rfl

/-- Wherever the engine of a full lane is, it can step. -/
theorem exists_engineStep (h : (daemon V c).Reachable d) (hroom : d.Room c) (hsink : sink ∈ c.sinks)
    (hspawned : d.spawned = true) (hfull : (d.sinks sink).lane.isFull = true) :
    ∃ a : EngineAction V, (Action.engine sink a).isOwn = true ∧
      (d.step c (.engine sink a)).isSome = true := by
  cases hphase : (d.sinks sink).phase with
  | unstaged k =>
    refine ⟨.stage, rfl, isSome_engineStep hsink (by simp) (by simp) ?_⟩
    simp [sideStep, SinkSide.stage, hphase]
  | calling calls next =>
    cases calls with
    | nil =>
      exact ⟨.advance, rfl, isSome_engineStep hsink (by simp) (by simp) (isSome_advance hphase)⟩
    | cons sc calls =>
      exact ⟨.call, rfl, isSome_engineStep hsink (by simp) (by simp) (isSome_call h hphase)⟩
  | requesting indexes staging => exact ⟨.request, rfl, isSome_request hroom hsink hphase⟩
  | staged =>
    refine ⟨.start, rfl, isSome_engineStep hsink (fun _ => hspawned) (by simp) ?_⟩
    simp [sideStep, SinkSide.start, hphase]
  | running =>
    exact ⟨.recv, rfl, isSome_engineStep hsink (by simp) (by simp) (isSome_recv h hphase hfull)⟩
  | processing t e =>
    refine ⟨.commit [⟨[], e.envelopes, []⟩], rfl, isSome_engineStep hsink (by simp) (by simp) ?_⟩
    simp [sideStep, SinkSide.commit, hphase, BulkRequest.Valid]
  | acking t =>
    refine ⟨.ack, rfl, isSome_engineStep hsink (by simp) (by simp) ?_⟩
    simp [sideStep, SinkSide.ack, hphase]

theorem exists_engineStep_of_laneBlocked (h : (daemon V c).Reachable d) (hroom : d.Room c)
    (hblocked : d.LaneBlocked sink) :
    ∃ a : EngineAction V, (Action.engine sink a).isOwn = true ∧
      (d.step c (.engine sink a)).isSome = true := by
  obtain ⟨todo, after, entry, hphase, hmem, hfull⟩ := hblocked
  have hposting := posting_of_reachable h
  exact exists_engineStep h hroom (hposting.sinks todo after hphase _ hmem)
    (hposting.spawned (by simp [hphase])) hfull

end Lanes

/-- While requests find room, no sink waits on ingest and ingest waits only on engines that
can step. -/
theorem flowing (h : (daemon V c).ReachableWith (fun d a => d.roomy c a = true) d) :
    d.Flowing c := by
  have hroom := room_of_reachable h
  have hrequests : ∀ sink ∈ c.sinks, ¬d.RequestBlocked sink := by
    rintro sink hsink ⟨hphase, hfull⟩
    rw [isFull_eq_false_of_room hroom hsink hphase] at hfull
    cases hfull
  constructor
  · exact hrequests
  · intro sink hblocked
    exact exists_engineStep_of_laneBlocked h.reachable hroom hblocked
  · rintro ⟨⟨sink, hsink, hblocked⟩, hstuck⟩
    rcases hblocked with hblocked | hblocked
    · exact hrequests sink hsink hblocked
    · obtain ⟨a, hown, hstep⟩ := exists_engineStep_of_laneBlocked h.reachable hroom hblocked
      rw [hstuck _ hown] at hstep
      cases hstep

/-- Ingest waits on the full lane of a sink whose engine has an entry to receive. -/
theorem flowing_full_lane :
    let c : Config := .mirror [⟨"sink"⟩] (by decide) 1 1
    ∃ d : Deployment String, d.LaneBlocked ⟨"sink"⟩ ∧ d.Flowing c := by
  intro c
  let sink : SinkName := ⟨"sink"⟩
  let id : DocumentId String := ⟨⟨"users"⟩, [(⟨"id"⟩, "1")]⟩
  let document : Document String := .upsert id "a"
  let change (lsn : ℕ) : List (Action String) :=
    [.ingest (.change ⟨"users"⟩ id.key [] lsn), .ingest (.commitLive [document])]
  let run : List (Action String) := List.flatten
    [[.stage, .call, .advance].map (.engine sink),
    [.spawn, .engine sink .start, .ingest .prepare, .ingest .live], change 10,
    [.ingest (.publish sink), .ingest .published], change 20]
  obtain ⟨d, hrun, hphase, hfull⟩ := Transition.Machine.exists_of_run (m := daemon String c)
    (s := comeUp String c .missing (fun _ => false) fun _ _ => .absent) (t := run)
    (p := fun d => d.ingest.phase = .publishing [(sink, .live 1 (some 1) 1 [document])] .live ∧
      (d.sinks sink).lane.isFull = true)
    (by decide)
  exact ⟨d, ⟨_, _, _, hphase, List.mem_singleton_self _, hfull⟩,
    flowing (reachable_comeUp.run (by decide) hrun)⟩

theorem step_of_staged {a : EngineAction V} (hspawned : d.spawned = false)
    (hphase : (d.sinks sink).phase = .staged) (hown : (Action.engine sink a).isOwn = true) :
    d.step c (.engine sink a) = none := by
  simp only [Deployment.step, engineStep]
  split
  · cases a with
    | start => simp [hspawned]
    | request => simp [request, hphase]
    | reindex indexes => cases hown
    | commitFail requests => cases hown
    | fail => cases hown
    | _ => simp [sideStep, SinkSide.stage, SinkSide.call, SinkSide.advance, SinkSide.recv,
        SinkSide.commit, SinkSide.ack, hphase]
  · rfl

theorem step_of_requesting {a : EngineAction V} {indexes : List IndexName}
    {staging : Option Continuity} (hfull : d.requests.isFull = true)
    (hphase : (d.sinks sink).phase = .requesting indexes staging)
    (hown : (Action.engine sink a).isOwn = true) : d.step c (.engine sink a) = none := by
  have hpublish := Stream.Channel.publish_of_isFull (x := (⟨sink, indexes⟩ : Request)) hfull
  simp only [Deployment.step, engineStep]
  split
  · cases a with
    | request => simp [request, hphase, hpublish]
    | reindex indexes => cases hown
    | commitFail requests => cases hown
    | fail => cases hown
    | _ => simp [sideStep, SinkSide.stage, SinkSide.call, SinkSide.advance, SinkSide.start,
        SinkSide.recv, SinkSide.commit, SinkSide.ack, hphase]
  · rfl

theorem step_of_down {a : IngestAction V} (hdown : d.ingest.phase = .down)
    (hspawned : d.spawned = false) : d.step c (.ingest a) = none := by
  cases a <;> simp [Deployment.step, ingestStep, prepare, live, change, polling, idle, endLive,
    commitLive, takeRequest, collect, startSnapshot, row, endSnapshot, publish, published,
    ackRequest, finished, confirm, confirmCall, stop, ingestFail, hdown, hspawned]

/-- Nothing is spawned while a sink waits to publish a request to the full lane. -/
theorem deadlocked_of_staging {s : SinkName} (hdown : d.ingest.phase = .down)
    (hspawned : d.spawned = false) (hsink : s ∈ c.sinks) (hblocked : d.RequestBlocked s)
    (hsinks : ∀ s ∈ c.sinks, (d.sinks s).phase = .staged ∨
      ∃ indexes staging, (d.sinks s).phase = .requesting indexes staging) :
    d.Deadlocked c := by
  obtain ⟨hrequesting, hfull⟩ := hblocked
  refine ⟨⟨s, hsink, .inl ⟨hrequesting, hfull⟩⟩, fun a hown => ?_⟩
  cases a with
  | dropSlot => cases hown
  | invalidateSlot => cases hown
  | spawn =>
    have hstaging : ¬(d.sinks s).phase = .staged := by
      intro hphase
      rw [hphase] at hrequesting
      cases hrequesting
    simp only [Deployment.step, spawn]
    rw [if_neg]
    simp only [Bool.and_eq_true, List.all_eq_true, decide_eq_true_eq, not_and]
    exact fun _ hall => hstaging (hall s hsink)
  | ingest a => exact step_of_down hdown hspawned
  | engine s a =>
    by_cases hs : s ∈ c.sinks
    · rcases hsinks s hs with hphase | ⟨indexes, staging, hphase⟩
      · exact step_of_staged hspawned hphase hown
      · exact step_of_requesting hfull hphase hown
    · simp [Deployment.step, engineStep, hs]

/-- Two sinks stage over a request lane with room for one request. -/
theorem not_free_two_sinks :
    let c : Config := .mirror [⟨"left"⟩, ⟨"right"⟩] (by decide) 1 1
    ∃ d : Deployment String, (daemon String c).Reachable d ∧ d.Deadlocked c := by
  intro c
  let stage (sink : SinkName) : List (Action String) :=
    [.stage, .call, .advance].map (.engine sink)
  let run : List (Action String) :=
    stage ⟨"left"⟩ ++ [.engine ⟨"left"⟩ .request] ++ stage ⟨"right"⟩
  obtain ⟨d, hrun, hdown, hspawned, hleft, hright, hfull⟩ := Transition.Machine.exists_of_run
    (m := daemon String c) (s := comeUp String c .missing (fun _ => true) fun _ _ => .absent)
    (t := run)
    (p := fun d => d.ingest.phase = .down ∧ d.spawned = false ∧
      (d.sinks ⟨"left"⟩).phase = .staged ∧
      (d.sinks ⟨"right"⟩).phase = .requesting [⟨"users"⟩] (some .fresh) ∧
      d.requests.isFull = true)
    (by decide)
  refine ⟨d, .run reachable_comeUp hrun, deadlocked_of_staging hdown hspawned
    (s := ⟨"right"⟩) (by decide) ⟨by rw [hright]; rfl, hfull⟩ ?_⟩
  simp [c, Config.mirror, hleft, hright]

end Deployment

end Flusso
