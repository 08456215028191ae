import Flusso.Daemon.Lanes
import Flusso.Daemon.Status

/-! # The daemon under observation

A run of the daemon with the status its events keep current, and a history of
which source changes were captured, published and committed. A source change is
known by a number; the source may deliver it again after a restart.
-/

namespace Flusso

variable {V : Type*}

namespace EnginePhase

/-- The engine has staged: it waits to be started or follows its lane. -/
def following : EnginePhase V → Bool
  | .staged => true
  | .running => true
  | .processing _ _ => true
  | .acking _ => true
  | .requesting _ none => true
  | .calling _ (.reindexed _) => true
  | .calling _ (.seeded _ _) => true
  | _ => false

end EnginePhase

section Events

variable [ValueText V]

/-- What a sink engine reports of a step from `s` to `s'`. -/
def sideEvents (sink : SinkName) (s s' : SinkSide V) : EngineAction V → List ObserverEvent
  | .call =>
    match s.phase with
    | .calling (.markSeeded index :: _) _ => [.indexSeeded sink index]
    | _ => []
  | .advance =>
    match s'.phase with
    | .staged => [.sinkStarted sink]
    | _ => []
  | .request =>
    match s.phase with
    | .requesting indexes (some _) => [.backfillRequested sink indexes, .sinkStarted sink]
    | .requesting indexes none => [.backfillRequested sink indexes]
    | _ => []
  | .commit requests =>
    match s.phase with
    | .processing _ entry =>
      (requests.flatMap BulkRequest.rejected).map (fun _ => .documentQuarantined sink) ++
        [.batchCommitted sink entry.changes entry.envelopes.length]
    | _ => []
  | .commitFail _ => [.engineError (.sink sink)]
  | .fail => if s.phase.following then [.engineError (.sink sink)] else []
  | _ => []

/-- What the engines report of a step from `d` to `d'`. -/
def events (d d' : Deployment V) : Action V → List ObserverEvent
  | .ingest .live => [.liveStarted]
  | .ingest (.change _ _ _ _) => [.changeCaptured]
  | .ingest .stop => [.engineStopped .ingest]
  | .ingest .fail => [.engineError .ingest]
  | .engine sink a => sideEvents sink (d.sinks sink) (d'.sinks sink) a
  | _ => []

end Events

/-- A daemon with its status and history: which sinks started, the source changes captured,
those of the batch being filled, of every entry published to a lane, and of every batch a sink
flushed. -/
structure Observed (V : Type*) where
  daemon : Deployment V
  status : Status
  started : SinkName → Bool
  captured : List ℕ
  batch : List ℕ
  lanes : SinkName → List (List ℕ)
  committed : SinkName → List ℕ

/-- A step of the daemon, with the source change it captures if it captures one; or a change
whose resolution fails, which stops the ingest engine. -/
inductive ObservedAction (V : Type*) where
  | act (a : Action V) (change : ℕ)
  | resolveFails (change : ℕ)

namespace Observed

section History

variable (w : Observed V)

def capturedAfter (change : ℕ) : Action V → List ℕ
  | .ingest (.change _ _ _ _) => w.captured ++ [change]
  | _ => w.captured

def batchAfter (change : ℕ) : Action V → List ℕ
  | .ingest (.change _ _ _ _) => w.batch ++ [change]
  | .ingest .published =>
    match w.daemon.ingest.phase with
    | .publishing [] .live => []
    | _ => w.batch
  | .ingest .fail => []
  | _ => w.batch

/-- The source changes of the entry at hand: only live batches have any. -/
def atHand : List ℕ :=
  match w.daemon.ingest.phase with
  | .publishing _ .live => w.batch
  | _ => []

def lanesAfter : Action V → SinkName → List (List ℕ)
  | .ingest (.publish sink) => Function.update w.lanes sink (w.lanes sink ++ [w.atHand])
  | _ => w.lanes

def committedAfter : Action V → SinkName → List ℕ
  | .engine sink (.commit _) =>
    match (w.daemon.sinks sink).phase with
    | .processing ticket _ => Function.update w.committed sink
        (w.committed sink ++ (w.lanes sink)[ticket]?.getD [])
    | _ => w.committed
  | _ => w.committed

end History

variable [DecidableEq V] [ValueText V]

/-- The daemon steps and its observer hears of it. -/
def act (c : Config) (w : Observed V) (a : Action V) (change : ℕ) : Option (Observed V) :=
  (w.daemon.step c a).map fun d =>
    { daemon := d
      status := (events w.daemon d a).foldl Status.observe w.status
      started := fun sink => w.started sink || decide (.sinkStarted sink ∈ events w.daemon d a)
      captured := w.capturedAfter change a
      batch := w.batchAfter change a
      lanes := w.lanesAfter a
      committed := w.committedAfter a }

/-- A captured change that cannot be resolved: the ingest engine stops. -/
def resolveFails (c : Config) (w : Observed V) (change : ℕ) : Option (Observed V) :=
  if w.daemon.polling then
    (w.daemon.step c (.ingest .fail)).map fun d => { w with
      daemon := d
      status := [.changeCaptured, .engineError .ingest].foldl Status.observe w.status
      captured := w.captured ++ [change]
      batch := [] }
  else none

def step (c : Config) (w : Observed V) : ObservedAction V → Option (Observed V)
  | .act a change => w.act c a change
  | .resolveFails change => w.resolveFails c change

/-- A daemon as it comes up, nothing reported yet. -/
structure Initial (c : Config) (w : Observed V) : Prop where
  daemon : w.daemon.Initial c
  status : w.status = .new c.engine.mappings c.sinks
  started : ∀ sink, w.started sink = false
  captured : w.captured = []
  batch : w.batch = []
  lanes : ∀ sink, w.lanes sink = []
  committed : ∀ sink, w.committed sink = []

/-- The history of a daemon as it comes up. -/
def atStart (c : Config) (d : Deployment V) : Observed V where
  daemon := d
  status := .new c.engine.mappings c.sinks
  started _ := false
  captured := []
  batch := []
  lanes _ := []
  committed _ := []

end Observed

/-- Every run of a daemon with its status. -/
def observed (V : Type*) [DecidableEq V] [ValueText V] (c : Config) :
    Transition.Machine (Observed V) (ObservedAction V) where
  init w := w.Initial c
  step w a := w.step c a

namespace Observed

variable [DecidableEq V] [ValueText V] {c : Config} {w w' : Observed V} {a : Action V} {change : ℕ}

theorem act_cases (h : w.act c a change = some w') : ∃ d, w.daemon.step c a = some d ∧
    w' = { daemon := d
           status := (events w.daemon d a).foldl Status.observe w.status
           started := fun sink => w.started sink || decide (.sinkStarted sink ∈ events w.daemon d a)
           captured := w.capturedAfter change a
           batch := w.batchAfter change a
           lanes := w.lanesAfter a
           committed := w.committedAfter a } := by
  obtain ⟨d, hd, rfl⟩ := Option.map_eq_some_iff.mp h
  exact ⟨d, hd, rfl⟩

theorem resolveFails_cases (h : w.resolveFails c change = some w') :
    ∃ d, w.daemon.polling = true ∧ w.daemon.step c (.ingest .fail) = some d ∧ w' = { w with
      daemon := d
      status := [.changeCaptured, .engineError .ingest].foldl Status.observe w.status
      captured := w.captured ++ [change]
      batch := [] } := by
  unfold resolveFails at h
  split at h
  · next hpoll =>
    obtain ⟨d, hd, rfl⟩ := Option.map_eq_some_iff.mp h
    exact ⟨d, hpoll, hd, rfl⟩
  · cases h

theorem reachable_atStart {slot : Slot} {backfill : SinkName → Bool}
    {indexes : SinkName → IndexName → IndexState} {ok : Observed V → ObservedAction V → Prop} :
    (observed V c).ReachableWith ok (atStart c (.comeUp V c slot backfill indexes)) := by
  apply Transition.Machine.ReachableWith.init
  constructor
  · exact Deployment.initial_comeUp
  all_goals intros; rfl

/-- Under observation the daemon runs as it does alone. -/
theorem daemon_of_reachable {ok : Observed V → ObservedAction V → Prop}
    (h : (observed V c).ReachableWith ok w) : (Flusso.daemon V c).Reachable w.daemon := by
  induction h with
  | init h => exact .init h.daemon
  | @step w w' a _ _ hs ih =>
    cases a with
    | act a change =>
      obtain ⟨d, hd, rfl⟩ := act_cases hs
      exact ih.step (a := a) hd
    | resolveFails change =>
      obtain ⟨d, -, hd, rfl⟩ := resolveFails_cases hs
      exact ih.step (a := .ingest .fail) hd

theorem sinkNames_of_reachable {ok : Observed V → ObservedAction V → Prop}
    (h : (observed V c).ReachableWith ok w) : w.status.sinkNames = c.sinks := by
  induction h with
  | init h =>
    rw [h.status]
    rfl
  | @step w w' a _ _ hs ih =>
    cases a with
    | act a change =>
      obtain ⟨d, -, rfl⟩ := act_cases hs
      rw [Status.sinkNames_foldl, ih]
    | resolveFails change =>
      obtain ⟨d, -, -, rfl⟩ := resolveFails_cases hs
      rw [Status.sinkNames_foldl, ih]

end Observed

end Flusso
