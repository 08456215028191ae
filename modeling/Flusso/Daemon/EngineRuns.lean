import Flusso.Daemon.Staging
import Flusso.Engine.Seeding

/-! # A daemon's engines are runs of one engine

Each sink's side takes the steps of one engine over its cluster, whatever the
rest of the daemon does. The daemon stages as fresh only until a pass succeeds,
so no engine of it finds an outstanding index seeded then.
-/

namespace Flusso

variable {V : Type*} {c : Config}

namespace SinkSide

/-- What the engine knows of its seeds, with the requests that are not answered yet. -/
def engineRun (s : SinkSide V) (requests : List (List IndexName)) :
    EngineRun (IndexName → IndexState) V where
  phase := s.phase
  outstanding := s.outstanding
  sink := s.indexes
  requests := requests
  lane := s.lane

variable {s s' : SinkSide V} {requests : List (List IndexName)}

theorem engineRun_applyCall {sc : SinkCall} (h : s.applyCall sc = some s') :
    SinkPort.opensearch.call s.indexes sc = some s'.indexes := by
  cases sc with
  | ensureIndex i =>
    cases h
    rfl
  | reindex i =>
    cases h
    rfl
  | markSeeded i =>
    obtain ⟨state, hstate, rfl⟩ := Option.map_eq_some_iff.mp h
    simp [SinkPort.opensearch, hstate]

theorem engineRun_requestUnseeded {o : EngineOptions} {k : Continuity} :
    (s.requestUnseeded o k).engineRun requests =
      (s.engineRun requests).requestUnseeded .opensearch o k := by
  unfold requestUnseeded EngineRun.requestUnseeded
  split
  · next h => rw [if_pos (by exact h)]; rfl
  · next h => rw [if_neg (by exact h)]; rfl

theorem engineRun_advance {o : EngineOptions} (h : s.advance o = some s') :
    (s.engineRun requests).advance .opensearch o s.backfill = some (s'.engineRun requests) := by
  unfold advance at h
  split at h
  · next k hphase =>
    simp only [EngineRun.advance, engineRun, hphase]
    split at h
    · next hback =>
      rw [if_pos hback]
      cases h
      rfl
    · next hback =>
      rw [if_neg hback]
      dsimp only at h
      split at h
      · next hfresh =>
        rw [if_pos (by exact hfresh)]
        cases h
        rfl
      · next hnot =>
        rw [if_neg (by exact hnot)]
        cases h
        have heq := @engineRun_requestUnseeded V s requests o k
        simp only [engineRun, hphase] at heq
        exact congrArg some heq.symm
  · next k hphase =>
    cases h
    rw [engineRun_requestUnseeded]
    simp only [EngineRun.advance, engineRun, hphase]
  · next staged hphase =>
    simp only [EngineRun.advance, engineRun, hphase]
    split at h
    · next hempty =>
      rw [if_pos hempty]
      cases h
      rfl
    · next hempty =>
      rw [if_neg hempty]
      cases h
      rfl
  · next t indexes hphase =>
    cases h
    simp only [EngineRun.advance, engineRun, hphase]
  · cases h

theorem Staging.spares {o : EngineOptions} (h : s.Staging o)
    (b : SeedingAction (IndexName → IndexState) V) :
    (s.engineRun requests).spares .opensearch b := by
  cases b with
  | advance =>
    intro hphase i hi
    have hnil : s.outstanding = [] := h.first (by rw [show s.phase = _ from hphase]; trivial)
    simp only [engineRun, hnil] at hi
    cases hi
  | _ => trivial

variable [DecidableEq V] [ValueText V]

/-- A step of a sink's side is a step of its engine over the cluster. -/
theorem engineRun_sideStep {a : EngineAction V} (hs : Deployment.sideStep c s a = some s') :
    ∃ b, (s.engineRun requests).step .opensearch c.engine s.backfill b =
      some (s'.engineRun requests) := by
  cases a with
  | stage =>
    obtain ⟨k, hphase, rfl⟩ := stage_cases hs
    exact ⟨.stage k, by simp [EngineRun.step, EngineRun.stage, engineRun, hphase]⟩
  | call =>
    obtain ⟨sc, calls, next, side, hphase, happly, rfl⟩ := call_cases hs
    refine ⟨.call, ?_⟩
    have hcall := engineRun_applyCall happly
    rw [applyCall_frame happly]
    simp [EngineRun.step, EngineRun.call, engineRun, hphase, hcall]
  | advance => exact ⟨.advance, engineRun_advance hs⟩
  | request => cases hs
  | start =>
    obtain ⟨hphase, rfl⟩ := start_cases hs
    exact ⟨.start, by simp [EngineRun.step, EngineRun.start, engineRun, hphase]⟩
  | recv =>
    obtain ⟨t, e, lane, hphase, hrecv, hcases⟩ := recv_cases hs
    refine ⟨.recv, ?_⟩
    rcases hcases with ⟨n, indexes, rfl, rfl⟩ | ⟨hne, rfl⟩
    · simp [EngineRun.step, EngineRun.recv, engineRun, hphase, hrecv]
    · cases e with
      | complete n indexes => exact absurd rfl (hne n indexes)
      | _ => simp [EngineRun.step, EngineRun.recv, engineRun, hphase, hrecv]
  | commit batch =>
    obtain ⟨t, e, hphase, -, -, -, rfl⟩ := commit_cases hs
    exact ⟨.commit, by simp [EngineRun.step, EngineRun.commit, engineRun, hphase]⟩
  | commitFail batch =>
    obtain ⟨t, e, hphase, -, -, rfl⟩ := commitFail_cases hs
    refine ⟨.fail, ?_⟩
    simp [EngineRun.step, EngineRun.fail, engineRun, hphase, EnginePhase.restart, EnginePhase.held]
  | ack =>
    obtain ⟨t, hphase, rfl⟩ := ack_cases hs
    exact ⟨.ack, by simp [EngineRun.step, EngineRun.ack, engineRun, hphase]⟩
  | reindex indexes =>
    refine ⟨.reindex indexes, ?_⟩
    unfold Deployment.sideStep reindex at hs
    dsimp only at hs
    split at hs
    · next hphase =>
      simp only [EngineRun.step, EngineRun.reindex, engineRun, hphase]
      split at hs
      · next hback =>
        rw [if_pos hback]
        cases hs
        simp only [hphase]
      · next hback =>
        rw [if_neg hback]
        cases hs
        rfl
    · cases hs
  | fail =>
    refine ⟨.fail, ?_⟩
    obtain ⟨k, hrestart, rfl⟩ := Option.map_eq_some_iff.mp hs
    cases hheld : s.phase.held <;>
      simp [EngineRun.step, EngineRun.fail, engineRun, hrestart, hheld]

end SinkSide

namespace Deployment

variable {d : Deployment V} [DecidableEq V] [ValueText V]

/-- In a daemon, each sink's side is a state of a run of its engine that stages as fresh only
before anything is outstanding. -/
theorem engineRun_of_reachable (h : (daemon V c).Reachable d) (sink : SinkName) :
    ∃ requests, (engineRuns V .opensearch c.engine (d.sinks sink).backfill).ReachableWith
      (EngineRun.spares .opensearch) ((d.sinks sink).engineRun requests) := by
  refine Transition.Machine.Reachable.invariant (m := daemon V c)
    (P := fun d => ∃ requests,
      (engineRuns V .opensearch c.engine (d.sinks sink).backfill).ReachableWith
        (EngineRun.spares .opensearch) ((d.sinks sink).engineRun requests))
    (fun d hd => ⟨[], .init ⟨⟨_, hd.phase sink⟩, hd.outstanding sink, rfl, _, hd.lane sink⟩⟩)
    (fun d a d' hd ⟨requests, hrun⟩ hs => ?_) h
  have hstaging := staging_of_reachable hd sink
  have hmove := sideMove_of_step hs sink
  generalize d'.sinks sink = side at hmove ⊢
  cases hmove with
  | same => exact ⟨requests, hrun⟩
  | slotCreated => exact ⟨requests, hrun⟩
  | engine _ _ hside =>
    obtain ⟨b, hb⟩ : ∃ b, ((d.sinks sink).engineRun requests).step .opensearch c.engine
        (d.sinks sink).backfill b = some (side.engineRun requests) :=
      SinkSide.engineRun_sideStep hside
    rw [(SinkSide.indexes_sideStep hside).1]
    exact ⟨requests, hrun.step (hstaging.spares b) hb⟩
  | @requested indexes staging _ _ hphase _ =>
    refine ⟨requests ++ [indexes], hrun.step (a := .request) trivial ?_⟩
    simp [engineRuns, EngineRun.step, EngineRun.request, SinkSide.engineRun, SinkSide.requested,
      hphase]
  | @published _ _ entry _ _ _ hside =>
    obtain ⟨lane, hlane, rfl⟩ := SinkSide.publish_cases hside
    refine ⟨requests, hrun.step (a := .publish entry) trivial ?_⟩
    simp [engineRuns, EngineRun.step, EngineRun.publish, SinkSide.engineRun, hlane]

end Deployment

end Flusso
