import Flusso.Daemon.Steps
import Flusso.Engine.SinkSteps

/-! # One sink's side of a run

Whatever the daemon does, one sink's side is left alone or moves in one of five
ways. Each lane is consumed one delivery at a time, so its channel carries the
log of what was published and the engine holds the first item not acknowledged.
-/

namespace Flusso

variable {V : Type*} [DecidableEq V] [ValueText V] {c : Config}

namespace Deployment

variable {d d' : Deployment V} {a : Action V} {sink : SinkName}

/-- How an action moves one sink's side. -/
inductive SideMove (c : Config) (d : Deployment V) (sink : SinkName) :
    Action V → SinkSide V → Prop where
  | same {a : Action V} : SideMove c d sink a (d.sinks sink)
  | slotCreated {a : IngestAction V} : a = .prepare ∨ a = .live → d.slot = .missing →
      d.spawned = true ∨ d.ingest.phase = .prepared →
      SideMove c d sink (.ingest a) (d.sinks sink).slotCreated
  | engine {a : EngineAction V} {side : SinkSide V} : sink ∈ c.sinks →
      (a = .start → d.spawned = true) → sideStep c (d.sinks sink) a = some side →
      SideMove c d sink (.engine sink a) side
  | requested {indexes : List IndexName} {staging : Option Continuity}
      {requests : Stream.Channel Request} : sink ∈ c.sinks →
      (d.sinks sink).phase = .requesting indexes staging →
      d.requests.publish { sink, indexes } = some requests →
      SideMove c d sink (.engine sink .request) ((d.sinks sink).requested indexes staging)
  | published {todo : List (SinkName × Entry V)} {after : After} {entry : Entry V}
      {side : SinkSide V} : d.ingest.phase = .publishing todo after → (sink, entry) ∈ todo →
      (d.sinks sink).publish entry = some side →
      SideMove c d sink (.ingest (.publish sink)) side

theorem sideMove_ensureSlot {a : IngestAction V} (ha : a = .prepare ∨ a = .live)
    (hup : d.spawned = true ∨ d.ingest.phase = .prepared) :
    SideMove c d sink (.ingest a) (d.ensureSlot.sinks sink) := by
  rcases ensureSlot_cases (d := d) with ⟨h, -⟩ | ⟨hslot, h⟩ <;> rw [h]
  · exact .same
  · exact .slotCreated ha hslot hup

theorem SideMove.update {a : Action V} {s : SinkName} {side : SinkSide V}
    (h : SideMove c d s a side) : SideMove c d sink a (Function.update d.sinks s side sink) := by
  by_cases hs : sink = s
  · subst hs
    rwa [Function.update_self]
  · rw [Function.update_of_ne hs]
    exact .same

theorem sideMove_of_step (h : d.step c a = some d') (sink : SinkName) :
    SideMove c d sink a (d'.sinks sink) := by
  cases move_of_step h with
  | prepare _ hspawned => exact sideMove_ensureSlot (.inl rfl) (.inl hspawned)
  | live hphase _ => exact sideMove_ensureSlot (.inr rfl) (.inr hphase)
  | publish hphase hmem hside => exact (SideMove.published hphase hmem hside).update
  | request hs hphase hp => exact (SideMove.requested hs hphase hp).update
  | engine hs hstart hside => exact (SideMove.engine hs hstart hside).update
  | _ => exact .same

end Deployment

namespace SinkSide

variable {s s' : SinkSide V}

/-- The lane carries the log, and the engine works on the item it holds. -/
structure OnLane (s : SinkSide V) : Prop where
  sequential : s.lane.Sequential s.log s.phase.held
  processing : ∀ t e, s.phase = .processing t e →
    s.log[t]? = some e ∧ ∀ n indexes, e ≠ .complete n indexes
  marking : ∀ calls t indexes, s.phase = .calling calls (.seeded t indexes) →
    ∃ n, s.log[t]? = some (.complete n indexes)

omit [DecidableEq V] [ValueText V] in
theorem OnLane.idle (h : s.OnLane) (hold : s.phase.held = none) (hlane : s'.lane = s.lane)
    (hlog : s'.log = s.log) (hnew : s'.phase.held = none) : s'.OnLane where
  sequential := by
    rw [hlane, hlog, hnew, ← hold]
    exact h.sequential
  processing t e hphase := by simp [hphase, EnginePhase.held] at hnew
  marking calls t indexes hphase := by simp [hphase, EnginePhase.held] at hnew

omit [DecidableEq V] [ValueText V] in
theorem OnLane.frame (h : s.OnLane) (hphase : s'.phase = s.phase) (hlane : s'.lane = s.lane)
    (hlog : s'.log = s.log) : s'.OnLane where
  sequential := by
    rw [hphase, hlane, hlog]
    exact h.sequential
  processing := by
    rw [hphase, hlog]
    exact h.processing
  marking := by
    rw [hphase, hlog]
    exact h.marking

omit [DecidableEq V] [ValueText V] in
theorem OnLane.publish {e : Entry V} (h : s.OnLane) (hp : s.publish e = some s') : s'.OnLane := by
  obtain ⟨lane, hlane, rfl⟩ := publish_cases hp
  have hget {t : ℕ} {x : Entry V} (hx : s.log[t]? = some x) :
      (s.log ++ [e])[t]? = some x := by
    rw [List.getElem?_append_left (List.getElem?_eq_some_iff.mp hx).1, hx]
  refine ⟨(h.sequential.publish hlane).1, fun t x hphase => ?_, fun calls t indexes hphase => ?_⟩
  · exact (h.processing t x hphase).imp_left hget
  · exact (h.marking calls t indexes hphase).imp fun _ => hget

omit [DecidableEq V] [ValueText V] in
theorem OnLane.release {t : ℕ} {continuity : Continuity} (h : s.OnLane)
    (hheld : s.phase.held = some t) (hs' : s' = { s with
      lane := s.lane.release t, log := s.log, phase := .unstaged continuity }) : s'.OnLane := by
  have hseq := h.sequential
  rw [hheld] at hseq
  subst hs'
  exact ⟨hseq.release.1, by simp, by simp⟩

theorem OnLane.sideStep {a : EngineAction V} (h : s.OnLane)
    (hs : Deployment.sideStep c s a = some s') : s'.OnLane := by
  cases a with
  | stage =>
    obtain ⟨k, hphase, rfl⟩ := stage_cases hs
    exact h.idle (by simp [hphase, EnginePhase.held]) rfl rfl rfl
  | call =>
    obtain ⟨call, calls, next, side, hphase, happly, rfl⟩ := call_cases hs
    rw [applyCall_frame happly]
    refine ⟨?_, by simp, fun calls' t indexes hcalling => ?_⟩
    · have := h.sequential
      rw [hphase] at this
      cases next <;> exact this
    · obtain ⟨-, rfl⟩ : calls = calls' ∧ next = .seeded t indexes := by simpa using hcalling
      exact h.marking _ t indexes hphase
  | advance =>
    have hcases := advance_cases hs
    rcases hcases with ⟨k, hphase, -, rfl⟩ | ⟨k, hphase, -, -, -, rfl⟩ | ⟨k, hphase, rfl⟩ |
      ⟨staged, hphase, ⟨-, rfl⟩ | ⟨-, rfl⟩⟩ | ⟨t, indexes, hphase, rfl⟩
    · exact h.idle (by simp [hphase, EnginePhase.held]) rfl rfl rfl
    · exact h.idle (by simp [hphase, EnginePhase.held]) rfl rfl rfl
    · have hold : s.phase.held = none := by
        rcases hphase with ⟨hphase, -⟩ | hphase <;> simp [hphase, EnginePhase.held]
      rcases requestUnseeded_cases (o := c.engine) (s := s) k with hreq | ⟨-, -, hreq⟩ <;> rw [hreq]
      · exact h.idle hold rfl rfl rfl
      · exact h.idle hold rfl rfl rfl
    · exact h.idle (by simp [hphase, EnginePhase.held]) rfl rfl rfl
    · exact h.idle (by simp [hphase, EnginePhase.held]) rfl rfl rfl
    · have := h.sequential
      rw [hphase] at this
      exact ⟨this, by simp, by simp⟩
  | request => cases hs
  | start =>
    obtain ⟨hphase, rfl⟩ := start_cases hs
    exact h.idle (by simp [hphase, EnginePhase.held]) rfl rfl rfl
  | recv =>
    obtain ⟨t, e, lane, hphase, hrecv, hcases⟩ := recv_cases hs
    have hseq := h.sequential
    rw [hphase] at hseq
    obtain ⟨-, hget, hseq, -⟩ := hseq.recv hrecv
    rcases hcases with ⟨n, indexes, rfl, rfl⟩ | ⟨hne, rfl⟩
    · exact ⟨hseq, by simp, fun calls t' indexes' heq => by
        obtain ⟨-, rfl, rfl⟩ : _ ∧ t = t' ∧ indexes = indexes' := by simpa using heq
        exact ⟨n, hget⟩⟩
    · exact ⟨hseq, fun t' e' heq => by
        obtain ⟨rfl, rfl⟩ : t = t' ∧ e = e' := by simpa using heq
        exact ⟨hget, hne⟩, by simp⟩
  | commit requests =>
    obtain ⟨t, e, hphase, -, -, -, rfl⟩ := commit_cases hs
    have := h.sequential
    rw [hphase] at this
    exact ⟨this, by simp, by simp⟩
  | commitFail requests =>
    obtain ⟨t, e, hphase, -, -, rfl⟩ := commitFail_cases hs
    have hseq := h.sequential
    rw [hphase] at hseq
    exact ⟨hseq.release.1, by simp, by simp⟩
  | ack =>
    obtain ⟨t, hphase, rfl⟩ := ack_cases hs
    have hseq := h.sequential
    rw [hphase] at hseq
    exact ⟨hseq.ack.1, by simp, by simp⟩
  | reindex indexes =>
    obtain ⟨hphase, ⟨-, rfl⟩ | ⟨-, staged, -, rfl⟩⟩ := reindex_cases hs
    · exact h
    · exact h.idle (by simp [hphase, EnginePhase.held]) rfl rfl rfl
  | fail =>
    obtain ⟨k, -, ⟨hheld, rfl⟩ | ⟨t, hheld, rfl⟩⟩ := fail_cases hs
    · exact h.idle hheld rfl rfl rfl
    · exact h.release hheld rfl

/-- What a step of the engine does to its lane, by the item due next: nothing, part of a
flush, a flush that returned, a marker seeded, or the acknowledgement. -/
inductive LaneMove (o : EngineOptions) (s : SinkSide V) :
    EngineAction V → SinkSide V → Prop where
  | quiet {a : EngineAction V} {s' : SinkSide V} : s'.log = s.log →
      s'.lane.done = s.lane.done → s'.applied = s.applied → s'.flushes = s.flushes →
      s'.outstanding = s.outstanding → (∀ t, s'.phase ≠ .acking t) →
      (∀ t, s.phase = .acking t → a = .fail) → LaneMove o s a s'
  | retried {requests : List (BulkRequest V)} {e : Entry V} {s' : SinkSide V} :
      s.phase = .processing s.lane.done e → s.log[s.lane.done]? = some e →
      requests.flatMap BulkRequest.actions <+: e.envelopes → (∀ r ∈ requests, r.Valid) →
      s'.log = s.log → s'.lane.done = s.lane.done →
      s'.applied = s.applied ++ requests.flatMap BulkRequest.executed →
      s'.flushes = s.flushes → s'.outstanding = s.outstanding → (∀ t, s'.phase ≠ .acking t) →
      LaneMove o s (.commitFail requests) s'
  | flushed {requests : List (BulkRequest V)} {e : Entry V} :
      s.phase = .processing s.lane.done e → s.log[s.lane.done]? = some e →
      (∀ n indexes, e ≠ .complete n indexes) →
      requests.flatMap BulkRequest.actions = e.envelopes → (∀ r ∈ requests, r.Valid) →
      (∀ r ∈ requests, ∀ w ∈ r.rejected, o.failurePolicy w.index = .skip) →
      LaneMove o s (.commit requests) { s with
        applied := s.applied ++ requests.flatMap BulkRequest.executed
        flushes := s.flushes ++ [{
          ticket := s.lane.done
          target := s.target
          rejected := requests.flatMap BulkRequest.rejected }]
        phase := .acking s.lane.done }
  | marked {n : ℕ} {indexes : List IndexName} :
      s.log[s.lane.done]? = some (.complete n indexes) →
      s.phase = .calling [] (.seeded s.lane.done indexes) →
      LaneMove o s .advance { s with
        outstanding := s.outstanding.filter fun index => index ∉ indexes
        phase := .acking s.lane.done }
  | acked : s.phase = .acking s.lane.done →
      (s.lane.ack s.lane.done).done = s.lane.done + 1 →
      LaneMove o s .ack { s with lane := s.lane.ack s.lane.done, phase := .running }

theorem OnLane.laneMove {a : EngineAction V} (h : s.OnLane)
    (hs : Deployment.sideStep c s a = some s') : LaneMove c.engine s a s' := by
  cases a with
  | stage =>
    obtain ⟨k, hphase, rfl⟩ := stage_cases hs
    exact .quiet rfl rfl rfl rfl rfl (by simp) (by simp [hphase])
  | call =>
    obtain ⟨call, calls, next, side, hphase, happly, rfl⟩ := call_cases hs
    rw [applyCall_frame happly]
    exact .quiet rfl rfl rfl rfl rfl (by simp) (by simp [hphase])
  | advance =>
    rcases advance_cases hs with ⟨k, hphase, -, rfl⟩ | ⟨k, hphase, -, -, -, rfl⟩ |
      ⟨k, hphase, rfl⟩ | ⟨staged, hphase, ⟨-, rfl⟩ | ⟨-, rfl⟩⟩ | ⟨t, indexes, hphase, rfl⟩
    · exact .quiet rfl rfl rfl rfl rfl (by simp) (by simp [hphase])
    · exact .quiet rfl rfl rfl rfl rfl (by simp) (by simp [hphase])
    · have hnot : ∀ t, s.phase ≠ .acking t := by
        rcases hphase with ⟨hphase, -⟩ | hphase <;> simp [hphase]
      rcases requestUnseeded_cases (o := c.engine) (s := s) k with hreq | ⟨-, -, hreq⟩ <;> rw [hreq]
      · exact .quiet rfl rfl rfl rfl rfl (by simp) fun t ht => absurd ht (hnot t)
      · exact .quiet rfl rfl rfl rfl rfl (by simp) fun t ht => absurd ht (hnot t)
    · exact .quiet rfl rfl rfl rfl rfl (by simp) (by simp [hphase])
    · exact .quiet rfl rfl rfl rfl rfl (by simp) (by simp [hphase])
    · have hseq := h.sequential
      rw [hphase] at hseq
      obtain ⟨rfl, -⟩ := hseq.held_eq
      obtain ⟨n, hget⟩ := h.marking [] _ indexes hphase
      exact .marked hget hphase
  | request => cases hs
  | start =>
    obtain ⟨hphase, rfl⟩ := start_cases hs
    exact .quiet rfl rfl rfl rfl rfl (by simp) (by simp [hphase])
  | recv =>
    obtain ⟨t, e, lane, hphase, hrecv, hcases⟩ := recv_cases hs
    have hseq := h.sequential
    rw [hphase] at hseq
    obtain ⟨-, -, -, hdone⟩ := hseq.recv hrecv
    rcases hcases with ⟨n, indexes, -, rfl⟩ | ⟨-, rfl⟩
    · exact .quiet rfl hdone rfl rfl rfl (by simp) (by simp [hphase])
    · exact .quiet rfl hdone rfl rfl rfl (by simp) (by simp [hphase])
  | commit requests =>
    obtain ⟨t, e, hphase, hactions, hvalid, hpolicy, rfl⟩ := commit_cases hs
    have hseq := h.sequential
    rw [hphase] at hseq
    obtain ⟨rfl, -⟩ := hseq.held_eq
    obtain ⟨hget, hne⟩ := h.processing _ e hphase
    exact .flushed hphase hget hne hactions hvalid hpolicy
  | commitFail requests =>
    obtain ⟨t, e, hphase, hsent, hvalid, rfl⟩ := commitFail_cases hs
    have hseq := h.sequential
    rw [hphase] at hseq
    obtain ⟨rfl, -⟩ := hseq.held_eq
    exact .retried hphase (h.processing _ e hphase).1 hsent hvalid rfl hseq.release.2 rfl rfl rfl
      (by simp)
  | ack =>
    obtain ⟨t, hphase, rfl⟩ := ack_cases hs
    have hseq := h.sequential
    rw [hphase] at hseq
    obtain ⟨rfl, -⟩ := hseq.held_eq
    exact .acked hphase hseq.ack.2
  | reindex indexes =>
    obtain ⟨hphase, ⟨-, rfl⟩ | ⟨-, staged, -, rfl⟩⟩ := reindex_cases hs
    · exact .quiet rfl rfl rfl rfl rfl (by simp [hphase]) (by simp [hphase])
    · exact .quiet rfl rfl rfl rfl rfl (by simp) (by simp [hphase])
  | fail =>
    obtain ⟨k, -, ⟨hheld, rfl⟩ | ⟨t, hheld, rfl⟩⟩ := fail_cases hs
    · exact .quiet rfl rfl rfl rfl rfl (by simp) fun _ _ => rfl
    · have hseq := h.sequential
      rw [hheld] at hseq
      exact .quiet rfl hseq.release.2 rfl rfl rfl (by simp) fun _ _ => rfl

end SinkSide

namespace Deployment

variable {d d' : Deployment V} {a : Action V} {sink : SinkName}

theorem SideMove.onLane {side : SinkSide V} (hm : SideMove c d sink a side)
    (h : (d.sinks sink).OnLane) : side.OnLane := by
  cases hm with
  | same => exact h
  | slotCreated => exact h.frame rfl rfl rfl
  | engine _ _ hside => exact h.sideStep hside
  | requested _ hphase _ =>
    refine h.idle (by simp [hphase, EnginePhase.held]) rfl rfl ?_
    simp only [SinkSide.requested]
    split <;> rfl
  | published _ _ hside => exact h.publish hside

omit [DecidableEq V] [ValueText V] in
theorem Initial.onLane (h : d.Initial c) (sink : SinkName) : (d.sinks sink).OnLane := by
  refine ⟨?_, by simp [h.phase], by simp [h.phase]⟩
  rw [h.lane, h.log, h.phase]
  exact Stream.Channel.sequential_new c.laneCapacity

theorem onLane_of_reachable (h : (daemon V c).Reachable d) (sink : SinkName) :
    (d.sinks sink).OnLane := by
  refine Transition.Machine.Reachable.invariant (m := daemon V c)
    (P := fun d => (d.sinks sink).OnLane)
    (fun d hd => hd.onLane sink) (fun d a d' _ hp hs => ?_) h
  exact (sideMove_of_step hs sink).onLane hp

end Deployment

end Flusso
