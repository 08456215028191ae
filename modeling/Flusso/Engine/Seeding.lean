import Flusso.Engine.SinkEngine
import Flusso.Foundation.Transition
import Flusso.Stream.InOrder

/-! # Seeding over any sink

What an engine knows of an index is the seed its sink reports and whether the
index is outstanding. Around it everything is free: the continuity of every
staging pass, the reindexes, the markers, and where a call fails and what it
leaves behind. An outstanding index always has its request or its marker on the
way, and once a staging pass ends every index is seeded or outstanding.
-/

namespace Flusso

/-- The seeds of a sink: what it reports, and the calls an engine makes about them. -/
structure SinkPort (σ : Type*) where
  isSeeded : σ → IndexName → Bool
  call : σ → SinkCall → Option σ

namespace SinkCall

/-- The index a call is about. -/
def index : SinkCall → IndexName
  | .ensureIndex i => i
  | .reindex i => i
  | .markSeeded i => i

end SinkCall

namespace SinkPort

/-- The sink that keeps its indexes on a search cluster. -/
def opensearch : SinkPort (IndexName → IndexState) where
  isSeeded indexes i := (indexes i).isSeeded
  call indexes
    | .ensureIndex i => some (Function.update indexes i (indexes i).ensureIndex)
    | .reindex i => some (Function.update indexes i (indexes i).reindex)
    | .markSeeded i => (indexes i).markSeeded.map (Function.update indexes i)

/-- The sink that keeps nothing: it reports no index seeded. -/
def stdout : SinkPort Unit where
  isSeeded _ _ := false
  call s _ := some s

/-- A sink that persists its seeds: an index it marked is reported seeded, and a call touches
only the index it is about. -/
structure Remembers {σ : Type*} (port : SinkPort σ) : Prop where
  markSeeded : ∀ {s s' : σ} {i : IndexName}, port.call s (.markSeeded i) = some s' →
    port.isSeeded s' i = true
  frame : ∀ {s s' : σ} {c : SinkCall} {i : IndexName}, port.call s c = some s' → i ≠ c.index →
    port.isSeeded s' i = port.isSeeded s i

theorem remembers_opensearch : opensearch.Remembers where
  markSeeded {s s' i} h := by
    obtain ⟨state, hstate, rfl⟩ := Option.map_eq_some_iff.mp h
    have hsettled := IndexState.settled_markSeeded hstate
    simp only [opensearch, Function.update_self]
    rw [hsettled.isSeeded_eq, IndexState.recorded_markSeeded hstate]
  frame {s s' c i} h hne := by
    cases c with
    | ensureIndex j =>
      cases h
      simp [opensearch, Function.update_of_ne (show i ≠ j from hne)]
    | reindex j =>
      cases h
      simp [opensearch, Function.update_of_ne (show i ≠ j from hne)]
    | markSeeded j =>
      obtain ⟨state, -, rfl⟩ := Option.map_eq_some_iff.mp h
      simp [opensearch, Function.update_of_ne (show i ≠ j from hne)]

end SinkPort

/-- One sink engine with its sink and its lane, and the indexes of each backfill request it
published that no marker has answered yet. -/
structure EngineRun (σ V : Type*) where
  phase : EnginePhase V
  outstanding : List IndexName
  sink : σ
  requests : List (List IndexName)
  lane : Stream.Channel (Entry V)

/-- A step of the engine, or of what surrounds it. -/
inductive SeedingAction (σ V : Type*) where
  | stage (continuity : Continuity)
  | call
  | advance
  | request
  | start
  | recv
  | commit
  | ack
  | reindex (indexes : List IndexName)
  | fail
  | callFail (left : σ)
  | publish (entry : Entry V)
  | answer (snapshot : ℕ) (answered : List (List IndexName)) (indexes : List IndexName)

namespace EngineRun

variable {σ V : Type*} (port : SinkPort σ) (o : EngineOptions) (backfill : Bool)
  (r : EngineRun σ V)

/-- A staging pass begins, whatever the continuity of the one before. -/
def stage (continuity : Continuity) : Option (EngineRun σ V) :=
  let staging := { r with phase := .calling (o.mappings.map .ensureIndex) (.ensured continuity) }
  match r.phase with
  | .unstaged _ => some staging
  | .staged => some staging
  | _ => none

def call : Option (EngineRun σ V) :=
  match r.phase with
  | .calling (c :: calls) next =>
    (port.call r.sink c).map fun sink => { r with sink, phase := .calling calls next }
  | _ => none

/-- The indexes still to request: unseeded and not requested already. -/
def unseeded : List IndexName :=
  (o.mappings.filter fun i => !port.isSeeded r.sink i).filter fun i => i ∉ r.outstanding

/-- The end of a staging pass: request what is still unseeded. -/
def requestUnseeded (continuity : Continuity) : EngineRun σ V :=
  if o.skipBackfill || (r.unseeded port o).isEmpty then { r with phase := .staged }
  else { r with phase := .requesting (r.unseeded port o) (some continuity) }

/-- Go on once the calls of a phase are made. -/
def advance : Option (EngineRun σ V) :=
  match r.phase with
  | .calling [] (.ensured continuity) =>
    if !backfill then some { r with phase := .staged }
    else
      let stale := o.mappings.filter fun i => port.isSeeded r.sink i
      if continuity = .fresh ∧ stale ≠ [] ∧ !o.skipBackfill then
        some { r with phase := .calling (SinkSide.rebuildCalls stale) (.rebuilt continuity) }
      else some (r.requestUnseeded port o continuity)
  | .calling [] (.rebuilt continuity) => some (r.requestUnseeded port o continuity)
  | .calling [] (.reindexed staged) =>
    if staged.isEmpty then some { r with phase := .running }
    else some { r with phase := .requesting staged none }
  | .calling [] (.seeded ticket indexes) =>
    some { r with
      outstanding := r.outstanding.filter fun i => i ∉ indexes
      phase := .acking ticket }
  | _ => none

/-- The request is published, and then its indexes are outstanding. -/
def request : Option (EngineRun σ V) :=
  match r.phase with
  | .requesting indexes staging => some { r with
      requests := r.requests ++ [indexes]
      outstanding := insertNew r.outstanding indexes
      phase := if staging.isSome then .staged else .running }
  | _ => none

def start : Option (EngineRun σ V) :=
  match r.phase with
  | .staged => some { r with phase := .running }
  | _ => none

/-- A delivery: a batch is committed, a marker's indexes are marked seeded. -/
def recv : Option (EngineRun σ V) :=
  match r.phase, r.lane.recv with
  | .running, some ((ticket, entry), lane) =>
    match entry with
    | .complete _ indexes =>
      some { r with lane, phase := .calling (indexes.map .markSeeded) (.seeded ticket indexes) }
    | entry => some { r with lane, phase := .processing ticket entry }
  | _, _ => none

/-- A batch was applied and flushed: the seeds are what they were. -/
def commit : Option (EngineRun σ V) :=
  match r.phase with
  | .processing ticket _ => some { r with phase := .acking ticket }
  | _ => none

def ack : Option (EngineRun σ V) :=
  match r.phase with
  | .acking ticket => some { r with lane := r.lane.ack ticket, phase := .running }
  | _ => none

/-- An operator's reindex: an index whose snapshot is outstanding is left to it. -/
def reindex (indexes : List IndexName) : Option (EngineRun σ V) :=
  match r.phase with
  | .running =>
    if !backfill then some r
    else
      let staged := (indexes.filter fun i => i ∈ o.mappings).filter fun i => i ∉ r.outstanding
      some { r with phase := .calling (SinkSide.rebuildCalls staged) (.reindexed staged) }
  | _ => none

/-- The engine's run or staging pass fails: a delivery it held is released. -/
def fail : Option (EngineRun σ V) :=
  r.phase.restart.map fun continuity => { r with
    lane := match r.phase.held with
      | some ticket => r.lane.release ticket
      | none => r.lane
    phase := .unstaged continuity }

/-- A call on the sink fails and leaves the sink anyhow. -/
def callFail (left : σ) : Option (EngineRun σ V) :=
  match r.phase with
  | .calling (_ :: _) _ => { r with sink := left }.fail
  | _ => none

def publish (entry : Entry V) : Option (EngineRun σ V) :=
  (r.lane.publish entry).map fun lane => { r with lane }

/-- A marker is published. It answers requests it covers; with none it is one more marker of a
snapshot that was answered before. -/
def answer (snapshot : ℕ) (answered : List (List IndexName)) (indexes : List IndexName) :
    Option (EngineRun σ V) :=
  if ∀ request ∈ answered, ∀ i ∈ request, i ∈ indexes then
    (r.publish (.complete snapshot indexes)).map fun r' =>
      { r' with requests := r.requests.diff answered }
  else none

def step : SeedingAction σ V → Option (EngineRun σ V)
  | .stage continuity => r.stage o continuity
  | .call => r.call port
  | .advance => r.advance port o backfill
  | .request => r.request
  | .start => r.start
  | .recv => r.recv
  | .commit => r.commit
  | .ack => r.ack
  | .reindex indexes => r.reindex o backfill indexes
  | .fail => r.fail
  | .callFail left => r.callFail left
  | .publish entry => r.publish entry
  | .answer snapshot answered indexes => r.answer snapshot answered indexes

/-- A new engine over a sink in any state. -/
structure Initial (r : EngineRun σ V) : Prop where
  phase : ∃ continuity, r.phase = .unstaged continuity
  outstanding : r.outstanding = []
  requests : r.requests = []
  lane : ∃ capacity, r.lane = .new capacity

end EngineRun

/-- The runs of one sink engine in any surroundings. -/
def engineRuns {σ : Type*} (V : Type*) (port : SinkPort σ) (o : EngineOptions) (backfill : Bool) :
    Transition.Machine (EngineRun σ V) (SeedingAction σ V) where
  init := EngineRun.Initial
  step := EngineRun.step port o backfill

namespace EnginePhase

variable {V : Type*}

/-- Staging ended without an error, and nothing failed since. -/
def isUp : EnginePhase V → Bool
  | .unstaged _ => false
  | .calling _ (.ensured _) => false
  | .calling _ (.rebuilt _) => false
  | .requesting _ (some _) => false
  | _ => true

/-- The indexes of the reindex the engine is handling. -/
def rebuilding : EnginePhase V → List IndexName
  | .calling _ (.reindexed indexes) => indexes
  | .requesting indexes none => indexes
  | _ => []

end EnginePhase

namespace EngineRun

variable {σ V : Type*} {port : SinkPort σ} {o : EngineOptions} {r r' : EngineRun σ V}
  {i : IndexName}

/-- A request for the index waits for its marker, or a marker for it is not acknowledged. -/
def InFlight (r : EngineRun σ V) (i : IndexName) : Prop :=
  (∃ request ∈ r.requests, i ∈ request) ∨
    ∃ t n indexes, (t, .complete n indexes) ∈ r.lane.present ∧ i ∈ indexes

/-- The next call on the sink stages a further generation of the index. -/
def Stages (r : EngineRun σ V) (i : IndexName) : Prop :=
  ∃ calls next, r.phase = .calling (.reindex i :: calls) next

/-- Staging as fresh begins its rebuilds with no index both seeded and outstanding. -/
def spares (port : SinkPort σ) (r : EngineRun σ V) : SeedingAction σ V → Prop
  | .advance => r.phase = .calling [] (.ensured .fresh) →
    ∀ i ∈ r.outstanding, port.isSeeded r.sink i = false
  | _ => True

instance [DecidableEq V] (a : SeedingAction σ V) : Decidable (r.spares port a) :=
  match a with
  | .advance => inferInstanceAs (Decidable (_ → _))
  | .stage _ | .call | .request | .start | .recv | .commit | .ack | .reindex _ | .fail
  | .callFail _ | .publish _ | .answer _ _ _ => .isTrue trivial

section Cases

theorem stage_cases {k : Continuity} (h : r.stage o k = some r') :
    ((∃ k', r.phase = .unstaged k') ∨ r.phase = .staged) ∧
      r' = { r with phase := .calling (o.mappings.map .ensureIndex) (.ensured k) } := by
  unfold stage at h
  split at h
  · next k' hphase => exact ⟨.inl ⟨k', hphase⟩, (Option.some.inj h).symm⟩
  · next hphase => exact ⟨.inr hphase, (Option.some.inj h).symm⟩
  · cases h

theorem call_cases (h : r.call port = some r') :
    ∃ c calls next sink, r.phase = .calling (c :: calls) next ∧ port.call r.sink c = some sink ∧
      r' = { r with sink, phase := .calling calls next } := by
  unfold call at h
  split at h
  · next c calls next hphase =>
    obtain ⟨sink, hsink, rfl⟩ := Option.map_eq_some_iff.mp h
    exact ⟨c, calls, next, sink, hphase, hsink, rfl⟩
  · cases h

theorem mem_unseeded :
    i ∈ r.unseeded port o ↔ i ∈ o.mappings ∧ port.isSeeded r.sink i = false ∧ i ∉ r.outstanding := by
  simp only [unseeded, List.mem_filter, Bool.not_eq_true', decide_eq_true_eq, and_assoc]

theorem requestUnseeded_cases (hskip : o.skipBackfill = false) (k : Continuity) :
    r.unseeded port o = [] ∧ r.requestUnseeded port o k = { r with phase := .staged } ∨
      r.requestUnseeded port o k =
        { r with phase := .requesting (r.unseeded port o) (some k) } := by
  unfold requestUnseeded
  split
  · next h =>
    simp only [hskip, Bool.false_or, List.isEmpty_iff] at h
    exact .inl ⟨h, rfl⟩
  · exact .inr rfl

theorem advance_cases (h : r.advance port o true = some r') :
    (r.phase = .calling [] (.ensured .fresh) ∧ r' = { r with
      phase := .calling (SinkSide.rebuildCalls (o.mappings.filter fun i => port.isSeeded r.sink i))
        (.rebuilt .fresh) }) ∨
    (∃ k, (r.phase = .calling [] (.ensured k) ∨ r.phase = .calling [] (.rebuilt k)) ∧
      r' = r.requestUnseeded port o k) ∨
    (∃ staged, r.phase = .calling [] (.reindexed staged) ∧
      (staged = [] ∧ r' = { r with phase := .running } ∨
        r' = { r with phase := .requesting staged none })) ∨
    (∃ t indexes, r.phase = .calling [] (.seeded t indexes) ∧ r' = { r with
      outstanding := r.outstanding.filter fun i => i ∉ indexes
      phase := .acking t }) := by
  unfold advance at h
  split at h
  · next k hphase =>
    simp only [Bool.not_true, Bool.false_eq_true, if_false] at h
    split at h
    · next hfresh =>
      obtain ⟨rfl, -⟩ := hfresh
      exact .inl ⟨hphase, (Option.some.inj h).symm⟩
    · exact .inr (.inl ⟨k, .inl hphase, (Option.some.inj h).symm⟩)
  · next k hphase => exact .inr (.inl ⟨k, .inr hphase, (Option.some.inj h).symm⟩)
  · next staged hphase =>
    refine .inr (.inr (.inl ⟨staged, hphase, ?_⟩))
    split at h
    · next hempty => exact .inl ⟨List.isEmpty_iff.mp hempty, (Option.some.inj h).symm⟩
    · exact .inr (Option.some.inj h).symm
  · next t indexes hphase =>
    exact .inr (.inr (.inr ⟨t, indexes, hphase, (Option.some.inj h).symm⟩))
  · cases h

theorem request_cases (h : r.request = some r') :
    ∃ indexes staging, r.phase = .requesting indexes staging ∧ r' = { r with
      requests := r.requests ++ [indexes]
      outstanding := insertNew r.outstanding indexes
      phase := if staging.isSome then .staged else .running } := by
  unfold request at h
  split at h
  · next indexes staging hphase => exact ⟨indexes, staging, hphase, (Option.some.inj h).symm⟩
  · cases h

theorem start_cases (h : r.start = some r') :
    r.phase = .staged ∧ r' = { r with phase := .running } := by
  unfold start at h
  split at h
  · next hphase => exact ⟨hphase, (Option.some.inj h).symm⟩
  · cases h

theorem recv_cases (h : r.recv = some r') :
    ∃ t entry lane, r.phase = .running ∧ r.lane.recv = some ((t, entry), lane) ∧
      ((∃ n indexes, entry = .complete n indexes ∧ r' = { r with
          lane, phase := .calling (indexes.map .markSeeded) (.seeded t indexes) }) ∨
        (∀ n indexes, entry ≠ .complete n indexes) ∧
          r' = { r with lane, phase := .processing t entry }) := by
  unfold recv at h
  split at h
  · next t entry lane hphase hrecv =>
    refine ⟨t, entry, lane, hphase, hrecv, ?_⟩
    split at h
    · next n indexes => exact .inl ⟨n, indexes, rfl, (Option.some.inj h).symm⟩
    · next hne => exact .inr ⟨hne, (Option.some.inj h).symm⟩
  · cases h

theorem commit_cases (h : r.commit = some r') :
    ∃ t entry, r.phase = .processing t entry ∧ r' = { r with phase := .acking t } := by
  unfold commit at h
  split at h
  · next t entry hphase => exact ⟨t, entry, hphase, (Option.some.inj h).symm⟩
  · cases h

theorem ack_cases (h : r.ack = some r') :
    ∃ t, r.phase = .acking t ∧ r' = { r with lane := r.lane.ack t, phase := .running } := by
  unfold ack at h
  split at h
  · next t hphase => exact ⟨t, hphase, (Option.some.inj h).symm⟩
  · cases h

theorem reindex_cases {indexes : List IndexName} (h : r.reindex o true indexes = some r') :
    ∃ staged, r.phase = .running ∧ (∀ i ∈ staged, i ∉ r.outstanding) ∧
      r' = { r with phase := .calling (SinkSide.rebuildCalls staged) (.reindexed staged) } := by
  unfold reindex at h
  split at h
  · next hphase =>
    simp only [Bool.not_true, Bool.false_eq_true, if_false] at h
    refine ⟨_, hphase, fun i hi => ?_, (Option.some.inj h).symm⟩
    simpa using (List.mem_filter.mp hi).2
  · cases h

theorem fail_cases (h : r.fail = some r') :
    ∃ k, r.phase.restart = some k ∧
      (r.phase.held = none ∧ r' = { r with phase := .unstaged k } ∨
        ∃ t, r.phase.held = some t ∧
          r' = { r with lane := r.lane.release t, phase := .unstaged k }) := by
  obtain ⟨k, hrestart, rfl⟩ := Option.map_eq_some_iff.mp h
  refine ⟨k, hrestart, ?_⟩
  cases hheld : r.phase.held with
  | none => exact .inl ⟨rfl, rfl⟩
  | some t => exact .inr ⟨t, rfl, rfl⟩

theorem callFail_cases {left : σ} (h : r.callFail left = some r') :
    { r with sink := left }.fail = some r' := by
  unfold callFail at h
  split at h
  · exact h
  · cases h

theorem publish_cases {entry : Entry V} (h : r.publish entry = some r') :
    ∃ lane, r.lane.publish entry = some lane ∧ r' = { r with lane } := by
  obtain ⟨lane, hlane, rfl⟩ := Option.map_eq_some_iff.mp h
  exact ⟨lane, hlane, rfl⟩

theorem answer_cases {n : ℕ} {answered : List (List IndexName)} {indexes : List IndexName}
    (h : r.answer n answered indexes = some r') :
    (∀ request ∈ answered, ∀ i ∈ request, i ∈ indexes) ∧
      ∃ lane, r.lane.publish (.complete n indexes) = some lane ∧
        r' = { r with lane, requests := r.requests.diff answered } := by
  unfold answer at h
  split at h
  · next hcovers =>
    obtain ⟨s, hs, rfl⟩ := Option.map_eq_some_iff.mp h
    obtain ⟨lane, hlane, rfl⟩ := publish_cases hs
    exact ⟨hcovers, lane, hlane, rfl⟩
  · cases h

end Cases

section Lane

/-- What the engine has still to consume of its lane. -/
def ahead (r : EngineRun σ V) : List (ℕ × Entry V) :=
  match r.phase with
  | .acking _ => r.lane.due
  | _ => r.lane.present

/-- Marking the index seeded is still to come. -/
def Awaits (r : EngineRun σ V) (i : IndexName) : Prop :=
  (∃ request ∈ r.requests, i ∈ request) ∨
    ∃ t n indexes, (t, .complete n indexes) ∈ r.ahead ∧ i ∈ indexes

theorem ahead_of_held_eq_none (h : r.phase.held = none) : r.ahead = r.lane.present := by
  unfold ahead
  split
  · next t hphase => simp [hphase, EnginePhase.held] at h
  · rfl

/-- The deliveries the engine holds, and what it waits for. -/
structure Carried (r : EngineRun σ V) (held : List (ℕ × Entry V)) : Prop where
  lane : ∃ log, r.lane.InOrder log held
  tickets : held.map Prod.fst = r.phase.held.toList
  processing : ∀ t e, r.phase = .processing t e → ∀ n indexes, (t, .complete n indexes) ∉ held
  marking : ∀ calls t indexes, r.phase = .calling calls (.seeded t indexes) →
    ∃ n, held = [(t, .complete n indexes)]
  outstanding : ∀ i ∈ r.outstanding, r.Awaits i

variable {held : List (ℕ × Entry V)}

theorem Carried.present_eq (h : r.Carried held) : r.lane.present = held ++ r.lane.due := by
  obtain ⟨log, hlane⟩ := h.lane
  exact hlane.present_eq

theorem Awaits.inFlight (h : r.Carried held) (hi : r.Awaits i) : r.InFlight i := by
  refine hi.imp_right ?_
  rintro ⟨t, n, indexes, hmem, hi⟩
  refine ⟨t, n, indexes, ?_, hi⟩
  unfold ahead at hmem
  split at hmem
  · rw [h.present_eq]
    exact List.mem_append_right _ hmem
  · exact hmem

theorem Awaits.of_subset (hi : r.Awaits i) (hrequests : r'.requests = r.requests)
    (hahead : ∀ t n indexes, i ∈ indexes → (t, .complete n indexes) ∈ r.ahead →
      (t, .complete n indexes) ∈ r'.ahead) : r'.Awaits i := by
  rcases hi with ⟨request, hmem, hi⟩ | ⟨t, n, indexes, hmem, hi⟩
  · exact .inl ⟨request, hrequests ▸ hmem, hi⟩
  · exact .inr ⟨t, n, indexes, hahead t n indexes hi hmem, hi⟩

theorem Carried.idle (h : r.Carried held) (hold : r.phase.held = none)
    (hlane : r'.lane = r.lane) (hrequests : r'.requests = r.requests)
    (houtstanding : r'.outstanding = r.outstanding) (hnew : r'.phase.held = none) :
    r'.Carried held where
  lane := by
    rw [hlane]
    exact h.lane
  tickets := by rw [h.tickets, hold, hnew]
  processing t e hphase := by simp [hphase, EnginePhase.held] at hnew
  marking calls t indexes hphase := by simp [hphase, EnginePhase.held] at hnew
  outstanding i hi := by
    rw [houtstanding] at hi
    refine (h.outstanding i hi).of_subset hrequests fun t n indexes _ hmem => ?_
    rw [ahead_of_held_eq_none hold] at hmem
    rw [ahead_of_held_eq_none hnew, hlane]
    exact hmem

theorem Carried.fail (h : r.Carried held) (hs : r.fail = some r') : ∃ held', r'.Carried held' := by
  obtain ⟨k, -, ⟨hold, rfl⟩ | ⟨t, hold, rfl⟩⟩ := fail_cases hs
  · exact ⟨held, h.idle hold rfl rfl rfl rfl⟩
  · obtain ⟨log, hlane⟩ := h.lane
    have htickets := h.tickets
    rw [hold] at htickets
    have hrelease := hlane.releaseAll
    rw [htickets] at hrelease
    obtain ⟨hlane', hpresent⟩ := hrelease
    refine ⟨[], ⟨⟨log, hlane'⟩, rfl, by simp, by simp, fun i hi => ?_⟩⟩
    refine ((h.outstanding i hi).inFlight h).imp_right ?_
    rintro ⟨t, n, indexes, hmem, hi⟩
    refine ⟨t, n, indexes, ?_, hi⟩
    rw [ahead_of_held_eq_none rfl]
    exact hpresent ▸ hmem

theorem Carried.publish {e : Entry V} {lane : Stream.Channel (Entry V)}
    {requests : List (List IndexName)} (h : r.Carried held) (hp : r.lane.publish e = some lane)
    (hrequests : ∀ request ∈ r.requests, request ∈ requests ∨
      ∃ n indexes, e = .complete n indexes ∧ ∀ i ∈ request, i ∈ indexes) :
    ({ r with lane, requests } : EngineRun σ V).Carried held := by
  obtain ⟨log, hlane⟩ := h.lane
  obtain ⟨hlane', hpresent, hdue⟩ := hlane.publish hp
  have hahead : ({ r with lane, requests } : EngineRun σ V).ahead = r.ahead ++ [(log.length, e)] := by
    unfold ahead
    cases r.phase <;> first | exact hdue | exact hpresent
  refine ⟨⟨_, hlane'⟩, h.tickets, h.processing, h.marking, fun i hi => ?_⟩
  rcases h.outstanding i hi with ⟨request, hmem, hi⟩ | ⟨t, n, indexes, hmem, hi⟩
  · rcases hrequests request hmem with hmem | ⟨n, indexes, rfl, hcovers⟩
    · exact .inl ⟨request, hmem, hi⟩
    · refine .inr ⟨log.length, n, indexes, ?_, hcovers i hi⟩
      rw [hahead]
      exact List.mem_append_right _ List.mem_cons_self
  · refine .inr ⟨t, n, indexes, ?_, hi⟩
    rw [hahead]
    exact List.mem_append_left _ hmem

/-- Once a delivery is processed, what the engine waits for is behind it. -/
theorem Carried.processed (h : r.Carried held) {t : ℕ} (hphase : r.phase.held = some t)
    (hahead : r.ahead = r.lane.present) {outstanding : List IndexName}
    (hkept : ∀ i ∈ outstanding, i ∈ r.outstanding ∧ ∀ n indexes, i ∈ indexes →
      (t, .complete n indexes) ∉ held) :
    ({ r with outstanding, phase := .acking t } : EngineRun σ V).Carried held := by
  refine ⟨h.lane, ?_, by simp, by simp, fun i hi => ?_⟩
  · rw [h.tickets, hphase]
    rfl
  · obtain ⟨hi, hnot⟩ := hkept i hi
    refine (h.outstanding i hi).of_subset rfl fun t' n indexes hin hmem => ?_
    rw [hahead, h.present_eq] at hmem
    refine (List.mem_append.mp hmem).resolve_left fun hheld => ?_
    have ht : t' ∈ held.map Prod.fst := List.mem_map_of_mem hheld
    rw [h.tickets, hphase] at ht
    obtain rfl : t' = t := by simpa using ht
    exact hnot n indexes hin hheld

theorem Carried.step (h : r.Carried held) {a : SeedingAction σ V}
    (hs : r.step port o true a = some r') : ∃ held', r'.Carried held' := by
  cases a with
  | stage k =>
    obtain ⟨⟨k', hphase⟩ | hphase, rfl⟩ := stage_cases hs
    · exact ⟨held, h.idle (by simp [hphase, EnginePhase.held]) rfl rfl rfl rfl⟩
    · exact ⟨held, h.idle (by simp [hphase, EnginePhase.held]) rfl rfl rfl rfl⟩
  | call =>
    obtain ⟨c, calls, next, sink, hphase, -, rfl⟩ := call_cases hs
    refine ⟨held, ⟨h.lane, ?_, by simp, ?_, fun i hi => ?_⟩⟩
    · rw [h.tickets, hphase]
      cases next <;> rfl
    · rintro calls' t indexes ⟨⟩
      exact h.marking _ t indexes hphase
    · refine (h.outstanding i hi).of_subset rfl fun t n indexes _ hmem => ?_
      rw [ahead, hphase] at hmem
      exact hmem
  | advance =>
    rcases advance_cases hs with ⟨hphase, rfl⟩ | ⟨k, hphase, rfl⟩ |
      ⟨staged, hphase, ⟨-, rfl⟩ | rfl⟩ | ⟨t, indexes, hphase, rfl⟩
    · exact ⟨held, h.idle (by simp [hphase, EnginePhase.held]) rfl rfl rfl rfl⟩
    · have hold : r.phase.held = none := by
        rcases hphase with hphase | hphase <;> simp [hphase, EnginePhase.held]
      unfold requestUnseeded
      split
      · exact ⟨held, h.idle hold rfl rfl rfl rfl⟩
      · exact ⟨held, h.idle hold rfl rfl rfl rfl⟩
    · exact ⟨held, h.idle (by simp [hphase, EnginePhase.held]) rfl rfl rfl rfl⟩
    · exact ⟨held, h.idle (by simp [hphase, EnginePhase.held]) rfl rfl rfl rfl⟩
    · obtain ⟨n, rfl⟩ := h.marking _ t indexes hphase
      refine ⟨_, h.processed (by simp [hphase, EnginePhase.held]) (by simp [ahead, hphase]) ?_⟩
      intro i hi
      obtain ⟨hi, hnot⟩ := List.mem_filter.mp hi
      refine ⟨hi, fun n' indexes' hin hmem => ?_⟩
      obtain ⟨-, -, rfl⟩ : t = t ∧ n' = n ∧ indexes' = indexes := by simpa using hmem
      simp [hin] at hnot
  | request =>
    obtain ⟨indexes, staging, hphase, rfl⟩ := request_cases hs
    have hnew : (if staging.isSome then .staged else .running : EnginePhase V).held = none := by
      split <;> rfl
    refine ⟨held, ⟨h.lane, ?_, ?_, ?_, fun i hi => ?_⟩⟩
    · rw [h.tickets, hphase, hnew]
      rfl
    · intro t e hp
      cases hnew.symm.trans (congrArg EnginePhase.held hp)
    · intro calls t indexes' hp
      cases hnew.symm.trans (congrArg EnginePhase.held hp)
    · rcases mem_insertNew.mp hi with hi | hi
      · rcases h.outstanding i hi with ⟨request, hmem, hi⟩ | ⟨t, n, indexes', hmem, hi⟩
        · exact .inl ⟨request, List.mem_append_left _ hmem, hi⟩
        · refine .inr ⟨t, n, indexes', ?_, hi⟩
          rw [ahead_of_held_eq_none hnew]
          rwa [ahead, hphase] at hmem
      · exact .inl ⟨indexes, List.mem_append_right _ List.mem_cons_self, hi⟩
  | start =>
    obtain ⟨hphase, rfl⟩ := start_cases hs
    exact ⟨held, h.idle (by simp [hphase, EnginePhase.held]) rfl rfl rfl rfl⟩
  | recv =>
    obtain ⟨t, e, lane, hphase, hrecv, hcases⟩ := recv_cases hs
    have hnil : held = [] := by simpa [hphase, EnginePhase.held] using h.tickets
    subst hnil
    obtain ⟨log, hlane⟩ := h.lane
    obtain ⟨hlane, hpresent, -⟩ := hlane.recv hrecv
    have hawaits : ∀ i ∈ r.outstanding, ∀ phase : EnginePhase V, (∀ t, phase ≠ .acking t) →
        ({ r with lane, phase } : EngineRun σ V).Awaits i := by
      intro i hi phase hne
      refine (h.outstanding i hi).of_subset rfl fun t n indexes _ hmem => ?_
      simp only [ahead, hphase] at hmem
      unfold ahead
      split
      · next hp => exact absurd hp (hne _)
      · rwa [hpresent]
    rcases hcases with ⟨n, indexes, rfl, rfl⟩ | ⟨hne, rfl⟩
    · refine ⟨[(t, .complete n indexes)], ⟨⟨log, hlane⟩, rfl, by simp, ?_,
        fun i hi => hawaits i hi _ (by simp)⟩⟩
      rintro calls t' indexes' ⟨⟩
      exact ⟨n, rfl⟩
    · refine ⟨[(t, e)], ⟨⟨log, hlane⟩, rfl, ?_, by simp, fun i hi => hawaits i hi _ (by simp)⟩⟩
      rintro t' e' ⟨⟩ n indexes hmem
      exact hne n indexes (by simpa using (List.mem_singleton.mp hmem).symm)
  | commit =>
    obtain ⟨t, e, hphase, rfl⟩ := commit_cases hs
    refine ⟨held, h.processed (by simp [hphase, EnginePhase.held]) (by simp [ahead, hphase]) ?_⟩
    exact fun i hi => ⟨hi, fun n indexes _ => h.processing t e hphase n indexes⟩
  | ack =>
    obtain ⟨t, hphase, rfl⟩ := ack_cases hs
    obtain ⟨log, hlane⟩ := h.lane
    have htickets := h.tickets
    rw [hphase] at htickets
    obtain ⟨e, rfl⟩ : ∃ e, held = [(t, e)] := by
      cases held with
      | nil => cases htickets
      | cons entry rest =>
        obtain ⟨rfl, hrest⟩ := List.cons.inj htickets
        exact ⟨entry.2, by rw [List.map_eq_nil_iff.mp hrest]⟩
    obtain ⟨hlane', -, hdue⟩ := hlane.ack
    refine ⟨[], ⟨⟨log, hlane'⟩, rfl, by simp, by simp, fun i hi => ?_⟩⟩
    refine (h.outstanding i hi).of_subset rfl fun t' n indexes _ hmem => ?_
    rw [ahead, hphase] at hmem
    rw [ahead_of_held_eq_none rfl, ← hlane'.due_eq, hdue]
    exact hmem
  | reindex indexes =>
    obtain ⟨staged, hphase, -, rfl⟩ := reindex_cases hs
    exact ⟨held, h.idle (by simp [hphase, EnginePhase.held]) rfl rfl rfl rfl⟩
  | fail => exact h.fail hs
  | callFail left =>
    have hleft : ({ r with sink := left } : EngineRun σ V).Carried held := { h with }
    exact hleft.fail (callFail_cases hs)
  | publish e =>
    obtain ⟨lane, hp, rfl⟩ := publish_cases hs
    exact ⟨held, h.publish hp fun request hmem => .inl hmem⟩
  | answer n answered indexes =>
    obtain ⟨hcovers, lane, hp, rfl⟩ := answer_cases hs
    refine ⟨held, h.publish hp fun request hmem => ?_⟩
    by_cases hanswered : request ∈ answered
    · exact .inr ⟨n, indexes, rfl, hcovers request hanswered⟩
    · exact .inl (List.mem_diff_of_mem hmem hanswered)

theorem Initial.carried (h : r.Initial) : r.Carried [] := by
  obtain ⟨k, hphase⟩ := h.phase
  obtain ⟨capacity, hlane⟩ := h.lane
  refine ⟨⟨[], hlane ▸ Stream.Channel.inOrder_new capacity⟩, ?_, ?_, ?_, ?_⟩
  · simp [hphase, EnginePhase.held]
  · simp
  · simp [hphase]
  · simp [h.outstanding]

theorem carried_of_reachable (h : (engineRuns V port o true).Reachable r) :
    ∃ held, r.Carried held := by
  refine Transition.Machine.Reachable.invariant (m := engineRuns V port o true)
    (P := fun r => ∃ held, r.Carried held) (fun r hr => ⟨[], hr.carried⟩)
    (fun r a r' _ ⟨held, hp⟩ hs => hp.step hs) h

end Lane

section Seeds

/-- The index is seeded, or its snapshot is outstanding. -/
def Covered (port : SinkPort σ) (r : EngineRun σ V) (i : IndexName) : Prop :=
  port.isSeeded r.sink i = true ∨ i ∈ r.outstanding

/-- How far each phase is with covering the indexes. -/
structure Covering (port : SinkPort σ) (o : EngineOptions) (r : EngineRun σ V) : Prop where
  up : r.phase.isUp = true → ∀ i ∈ o.mappings, r.Covered port i ∨ i ∈ r.phase.rebuilding
  requesting : ∀ indexes k, r.phase = .requesting indexes (some k) →
    ∀ i ∈ o.mappings, r.Covered port i ∨ i ∈ indexes
  seeding : ∀ calls t indexes, r.phase = .calling calls (.seeded t indexes) →
    (∀ c ∈ calls, ∃ j, c = .markSeeded j) ∧
      ∀ i ∈ indexes, port.isSeeded r.sink i = true ∨ .markSeeded i ∈ calls
  reindexing : ∀ calls indexes, r.phase = .calling calls (.reindexed indexes) →
    ∀ c ∈ calls, c.index ∈ indexes

theorem covering_of_down (hup : r.phase.isUp = false)
    (hrequesting : ∀ indexes k, r.phase ≠ .requesting indexes (some k)) : r.Covering port o where
  up h := by rw [hup] at h; cases h
  requesting indexes k hphase := absurd hphase (hrequesting indexes k)
  seeding _ _ _ hphase := by rw [hphase] at hup; cases hup
  reindexing _ _ hphase := by rw [hphase] at hup; cases hup

theorem covering_of_covered (hcovered : ∀ i ∈ o.mappings, r.Covered port i)
    (hcalling : ∀ calls next, r.phase ≠ .calling calls next) : r.Covering port o where
  up _ i hi := .inl (hcovered i hi)
  requesting _ _ _ i hi := .inl (hcovered i hi)
  seeding _ _ _ hphase := absurd hphase (hcalling _ _)
  reindexing _ _ hphase := absurd hphase (hcalling _ _)

/-- Handling no reindex, an engine that is up covers every index. -/
theorem Covering.covered (h : r.Covering port o) (hup : r.phase.isUp = true)
    (hnone : r.phase.rebuilding = []) (hi : i ∈ o.mappings) : r.Covered port i := by
  refine (h.up hup i hi).resolve_right fun hmem => ?_
  rw [hnone] at hmem
  cases hmem

theorem Covering.frame (h : r.Covering port o) (hphase : r'.phase = r.phase)
    (hsink : r'.sink = r.sink) (houtstanding : r'.outstanding = r.outstanding) :
    r'.Covering port o where
  up := by
    simpa only [Covered, hphase, hsink, houtstanding] using h.up
  requesting := by
    simpa only [Covered, hphase, hsink, houtstanding] using h.requesting
  seeding := by
    simpa only [hphase, hsink] using h.seeding
  reindexing := by
    simpa only [hphase] using h.reindexing

theorem Covering.marked {j : IndexName} {sink : σ} {calls : List SinkCall} {t : ℕ}
    {indexes : List IndexName} (h : r.Covering port o) (hport : port.Remembers)
    (hphase : r.phase = .calling (.markSeeded j :: calls) (.seeded t indexes))
    (hcall : port.call r.sink (.markSeeded j) = some sink) :
    ({ r with sink, phase := .calling calls (.seeded t indexes) } : EngineRun σ V).Covering
      port o := by
  have hkeep {i : IndexName} (hi : port.isSeeded r.sink i = true) :
      port.isSeeded sink i = true := by
    by_cases hij : i = j
    · rw [hij]
      exact hport.markSeeded hcall
    · rw [hport.frame hcall hij]
      exact hi
  obtain ⟨hcalls, hmarked⟩ := h.seeding _ t indexes hphase
  constructor
  · intro _ i hi
    have hcovered := h.covered (by rw [hphase]; rfl) (by rw [hphase]; rfl) hi
    exact .inl (hcovered.imp_left hkeep)
  · rintro _ _ ⟨⟩
  · rintro _ _ _ ⟨⟩
    refine ⟨fun c hc => hcalls c (List.mem_cons_of_mem _ hc), fun i hi => ?_⟩
    rcases hmarked i hi with hseeded | hmem
    · exact .inl (hkeep hseeded)
    · rcases List.mem_cons.mp hmem with heq | hmem
      · cases heq
        exact .inl (hport.markSeeded hcall)
      · exact .inr hmem
  · rintro _ _ ⟨⟩

theorem Covering.step (h : r.Covering port o) (hport : port.Remembers)
    (hskip : o.skipBackfill = false) {a : SeedingAction σ V}
    (hs : r.step port o true a = some r') : r'.Covering port o := by
  have hfail {s s' : EngineRun σ V} (hs : s.fail = some s') : s'.Covering port o := by
    obtain ⟨k, -, ⟨-, rfl⟩ | ⟨t, -, rfl⟩⟩ := fail_cases hs
    · exact covering_of_down rfl (by simp)
    · exact covering_of_down rfl (by simp)
  cases a with
  | stage k =>
    obtain ⟨-, rfl⟩ := stage_cases hs
    exact covering_of_down rfl (by simp)
  | call =>
    obtain ⟨c, calls, next, sink, hphase, hcall, rfl⟩ := call_cases hs
    cases next with
    | ensured k => exact covering_of_down rfl (by simp)
    | rebuilt k => exact covering_of_down rfl (by simp)
    | seeded t indexes =>
      obtain ⟨j, rfl⟩ := (h.seeding _ t indexes hphase).1 c List.mem_cons_self
      exact h.marked hport hphase hcall
    | reindexed indexes =>
      -- The call is about an index of the reindex, which is still to be requested.
      have hindexes := h.reindexing _ indexes hphase
      have hup := h.up (by rw [hphase]; rfl)
      rw [hphase] at hup
      constructor
      · intro _ i hi
        by_cases hin : i ∈ indexes
        · exact .inr hin
        · refine .inl (((hup i hi).resolve_right hin).imp_left fun hseeded => ?_)
          change port.isSeeded sink i = true
          have hne : i ≠ c.index := by
            rintro rfl
            exact hin (hindexes c List.mem_cons_self)
          rwa [hport.frame hcall hne]
      · rintro _ _ ⟨⟩
      · rintro _ _ _ ⟨⟩
      · rintro _ _ ⟨⟩ c' hc'
        exact hindexes c' (List.mem_cons_of_mem _ hc')
  | advance =>
    rcases advance_cases hs with ⟨hphase, rfl⟩ | ⟨k, hphase, rfl⟩ |
      ⟨staged, hphase, ⟨rfl, rfl⟩ | rfl⟩ | ⟨t, indexes, hphase, rfl⟩
    · exact covering_of_down rfl (by simp)
    · have hcovered (i : IndexName) (hi : i ∈ o.mappings) :
          r.Covered port i ∨ i ∈ r.unseeded port o := by
        by_cases hmem : i ∈ r.unseeded port o
        · exact .inr hmem
        · simp only [mem_unseeded, not_and, not_not] at hmem
          by_cases hseeded : port.isSeeded r.sink i = true
          · exact .inl (.inl hseeded)
          · exact .inl (.inr (hmem hi (Bool.eq_false_iff.mpr hseeded)))
      rcases requestUnseeded_cases hskip k with ⟨hnil, heq⟩ | heq <;> rw [heq]
      · refine covering_of_covered (fun i hi => ?_) (by simp)
        refine (hcovered i hi).resolve_right fun hmem => ?_
        rw [hnil] at hmem
        cases hmem
      · constructor
        · rintro ⟨⟩
        · rintro _ _ ⟨⟩ i hi
          exact hcovered i hi
        · rintro _ _ _ ⟨⟩
        · rintro _ _ ⟨⟩
    · exact covering_of_covered (fun i => h.covered (by rw [hphase]; rfl) (by rw [hphase]; rfl))
        (by simp)
    · have hup := h.up (by rw [hphase]; rfl)
      rw [hphase] at hup
      constructor
      · exact fun _ i hi => hup i hi
      · rintro _ _ ⟨⟩
      · rintro _ _ _ ⟨⟩
      · rintro _ _ ⟨⟩
    · refine covering_of_covered (fun i hi => ?_) (by simp)
      obtain ⟨-, hmarked⟩ := h.seeding _ t indexes hphase
      rcases h.covered (by rw [hphase]; rfl) (by rw [hphase]; rfl) hi with hseeded | hout
      · exact .inl hseeded
      · by_cases hin : i ∈ indexes
        · exact .inl ((hmarked i hin).resolve_right List.not_mem_nil)
        · exact .inr (List.mem_filter.mpr ⟨hout, by simpa using hin⟩)
  | request =>
    obtain ⟨indexes, staging, hphase, rfl⟩ := request_cases hs
    refine covering_of_covered (fun i hi => ?_) (fun calls next => by split <;> simp)
    have hcovered : r.Covered port i ∨ i ∈ indexes := by
      cases staging with
      | some k => exact h.requesting indexes k hphase i hi
      | none =>
        have hup := h.up (by rw [hphase]; rfl) i hi
        rwa [hphase] at hup
    rcases hcovered with (hseeded | hout) | hin
    · exact .inl hseeded
    · exact .inr (mem_insertNew.mpr (.inl hout))
    · exact .inr (mem_insertNew.mpr (.inr hin))
  | start =>
    obtain ⟨hphase, rfl⟩ := start_cases hs
    exact covering_of_covered (fun i => h.covered (by rw [hphase]; rfl) (by rw [hphase]; rfl))
      (by simp)
  | recv =>
    obtain ⟨t, e, lane, hphase, -, hcases⟩ := recv_cases hs
    have hcovered (i : IndexName) (hi : i ∈ o.mappings) : r.Covered port i :=
      h.covered (by rw [hphase]; rfl) (by rw [hphase]; rfl) hi
    rcases hcases with ⟨n, indexes, -, rfl⟩ | ⟨-, rfl⟩
    · constructor
      · exact fun _ i hi => .inl (hcovered i hi)
      · rintro _ _ ⟨⟩
      · rintro _ _ _ ⟨⟩
        refine ⟨fun c hc => ?_, fun i hi => .inr (List.mem_map_of_mem hi)⟩
        obtain ⟨j, -, rfl⟩ := List.mem_map.mp hc
        exact ⟨j, rfl⟩
      · rintro _ _ ⟨⟩
    · exact covering_of_covered hcovered (by simp)
  | commit =>
    obtain ⟨t, e, hphase, rfl⟩ := commit_cases hs
    exact covering_of_covered (fun i => h.covered (by rw [hphase]; rfl) (by rw [hphase]; rfl))
      (by simp)
  | ack =>
    obtain ⟨t, hphase, rfl⟩ := ack_cases hs
    exact covering_of_covered (fun i => h.covered (by rw [hphase]; rfl) (by rw [hphase]; rfl))
      (by simp)
  | reindex indexes =>
    obtain ⟨staged, hphase, -, rfl⟩ := reindex_cases hs
    constructor
    · exact fun _ i hi => .inl (h.covered (by rw [hphase]; rfl) (by rw [hphase]; rfl) hi)
    · rintro _ _ ⟨⟩
    · rintro _ _ _ ⟨⟩
    · rintro _ _ ⟨⟩ c hc
      obtain ⟨i, hi, hc⟩ := List.mem_flatMap.mp hc
      rcases List.mem_pair.mp hc with rfl | rfl
      · exact hi
      · exact hi
  | fail => exact hfail hs
  | callFail left => exact hfail (callFail_cases hs)
  | publish e =>
    obtain ⟨lane, -, rfl⟩ := publish_cases hs
    exact h.frame rfl rfl rfl
  | answer n answered indexes =>
    obtain ⟨-, lane, -, rfl⟩ := answer_cases hs
    exact h.frame rfl rfl rfl

theorem covering_of_reachable (hport : port.Remembers) (hskip : o.skipBackfill = false)
    (h : (engineRuns V port o true).Reachable r) : r.Covering port o := by
  refine Transition.Machine.Reachable.invariant (m := engineRuns V port o true)
    (P := Covering port o) (fun r hr => ?_) (fun r a r' _ hp hs => hp.step hport hskip hs) h
  obtain ⟨k, hphase⟩ := hr.phase
  exact covering_of_down (by rw [hphase]; rfl) (by simp [hphase])

end Seeds

section Staging

/-- An index that is staged while its snapshot is outstanding is rebuilt by a fresh staging pass
that was allowed to. -/
def Guarded (allowed : Prop) (r : EngineRun σ V) : Prop :=
  ∀ calls next i, r.phase = .calling calls next → .reindex i ∈ calls → i ∈ r.outstanding →
    allowed ∧ next = .rebuilt .fresh

theorem guarded_of_not_calling {allowed : Prop} (h : ∀ calls next, r.phase ≠ .calling calls next) :
    r.Guarded allowed := fun calls next _ hphase => absurd hphase (h calls next)

theorem Guarded.step {allowed : Prop} (h : r.Guarded allowed) {a : SeedingAction σ V}
    (hok : allowed ∨ r.spares port a) (hs : r.step port o true a = some r') :
    r'.Guarded allowed := by
  have hfail {s s' : EngineRun σ V} (hs : s.fail = some s') : s'.Guarded allowed := by
    obtain ⟨k, -, ⟨-, rfl⟩ | ⟨t, -, rfl⟩⟩ := fail_cases hs
    · exact guarded_of_not_calling (by simp)
    · exact guarded_of_not_calling (by simp)
  cases a with
  | stage k =>
    obtain ⟨-, rfl⟩ := stage_cases hs
    rintro _ _ i ⟨⟩ hmem
    simp at hmem
  | call =>
    obtain ⟨c, calls, next, sink, hphase, -, rfl⟩ := call_cases hs
    rintro _ _ i ⟨⟩ hmem hout
    exact h _ _ i hphase (List.mem_cons_of_mem _ hmem) hout
  | advance =>
    rcases advance_cases hs with ⟨hphase, rfl⟩ | ⟨k, -, rfl⟩ |
      ⟨staged, -, ⟨-, rfl⟩ | rfl⟩ | ⟨t, indexes, -, rfl⟩
    · rintro _ _ i ⟨⟩ hmem hout
      refine ⟨hok.resolve_right fun hspares => ?_, rfl⟩
      have hseeded : i ∈ o.mappings.filter fun i => port.isSeeded r.sink i := by
        simpa [SinkSide.rebuildCalls] using hmem
      have hnot := hspares hphase i hout
      rw [(List.mem_filter.mp hseeded).2] at hnot
      cases hnot
    · unfold requestUnseeded
      split
      · exact guarded_of_not_calling (by simp)
      · exact guarded_of_not_calling (by simp)
    · exact guarded_of_not_calling (by simp)
    · exact guarded_of_not_calling (by simp)
    · exact guarded_of_not_calling (by simp)
  | request =>
    obtain ⟨indexes, staging, -, rfl⟩ := request_cases hs
    exact guarded_of_not_calling fun calls next => by split <;> simp
  | start =>
    obtain ⟨-, rfl⟩ := start_cases hs
    exact guarded_of_not_calling (by simp)
  | recv =>
    obtain ⟨t, e, lane, -, -, ⟨n, indexes, -, rfl⟩ | ⟨-, rfl⟩⟩ := recv_cases hs
    · rintro _ _ i ⟨⟩ hmem
      simp at hmem
    · exact guarded_of_not_calling (by simp)
  | commit =>
    obtain ⟨t, e, -, rfl⟩ := commit_cases hs
    exact guarded_of_not_calling (by simp)
  | ack =>
    obtain ⟨t, -, rfl⟩ := ack_cases hs
    exact guarded_of_not_calling (by simp)
  | reindex indexes =>
    obtain ⟨staged, -, hstaged, rfl⟩ := reindex_cases hs
    rintro _ _ i ⟨⟩ hmem hout
    have hin : i ∈ staged := by simpa [SinkSide.rebuildCalls] using hmem
    exact absurd hout (hstaged i hin)
  | fail => exact hfail hs
  | callFail left => exact hfail (callFail_cases hs)
  | publish e =>
    obtain ⟨lane, -, rfl⟩ := publish_cases hs
    exact h
  | answer n answered indexes =>
    obtain ⟨-, lane, -, rfl⟩ := answer_cases hs
    exact h

theorem Initial.guarded {allowed : Prop} (h : r.Initial) : r.Guarded allowed := by
  obtain ⟨k, hphase⟩ := h.phase
  exact guarded_of_not_calling (by simp [hphase])

end Staging

/-- Over a sink that persists its seeds, once staging ends every index is seeded or its snapshot
is on the way, but for those a reindex in hand is about to request; and only a fresh staging
pass that finds an outstanding index seeded stages it again. -/
theorem seeding_progresses (hport : port.Remembers) (hskip : o.skipBackfill = false) :
    (∀ r : EngineRun σ V, (engineRuns V port o true).Reachable r →
      (r.phase.isUp = true → ∀ i ∈ o.mappings,
        port.isSeeded r.sink i = true ∨ r.InFlight i ∨ i ∈ r.phase.rebuilding) ∧
      ∀ i, r.Stages i → i ∈ r.outstanding → ∃ calls, r.phase = .calling calls (.rebuilt .fresh)) ∧
    ∀ r : EngineRun σ V, (engineRuns V port o true).ReachableWith (spares port) r →
      ∀ i, r.Stages i → i ∉ r.outstanding := by
  refine ⟨fun r h => ⟨fun hup i hi => ?_, ?_⟩, fun r h => ?_⟩
  · obtain ⟨held, hcarried⟩ := carried_of_reachable h
    rcases (covering_of_reachable hport hskip h).up hup i hi with (hseeded | hout) | hin
    · exact .inl hseeded
    · exact .inr (.inl ((hcarried.outstanding i hout).inFlight hcarried))
    · exact .inr (.inr hin)
  · have hguarded : r.Guarded True :=
      Transition.Machine.Reachable.invariant (m := engineRuns V port o true)
        (P := Guarded True) (fun r hr => hr.guarded)
        (fun r a r' _ hp hs => hp.step (.inl trivial) hs) h
    rintro i ⟨calls, next, hphase⟩ hout
    obtain ⟨-, rfl⟩ := hguarded _ next i hphase List.mem_cons_self hout
    exact ⟨_, hphase⟩
  · have hguarded : r.Guarded False :=
      Transition.Machine.ReachableWith.invariant (m := engineRuns V port o true)
        (P := Guarded False) (fun r hr => hr.guarded)
        (fun r a r' _ hp hok hs => hp.step (.inr hok) hs) h
    rintro i ⟨calls, next, hphase⟩ hout
    exact (hguarded _ next i hphase List.mem_cons_self hout).1

/-- A new engine over a sink that holds nothing yet. -/
def new (V : Type*) (sink : σ) (capacity : ℕ) : EngineRun σ V where
  phase := .unstaged .resumed
  outstanding := []
  sink := sink
  requests := []
  lane := .new capacity

theorem initial_new {sink : σ} {capacity : ℕ} : (new V sink capacity).Initial :=
  ⟨⟨_, rfl⟩, rfl, rfl, ⟨_, rfl⟩⟩

/-- An index that was seeded is about to be staged again for an operator. -/
theorem seeding_progresses_reindex :
    let users : IndexName := ⟨"users"⟩
    let o : EngineOptions := ⟨[users], false, fun _ => .stop⟩
    ∃ r, (engineRuns String .opensearch o true).Reachable r ∧
      (SinkPort.opensearch.isSeeded r.sink users = true ∨ r.InFlight users ∨
        users ∈ r.phase.rebuilding) ∧
      (users ∈ r.outstanding → ∃ calls, r.phase = .calling calls (.rebuilt .fresh)) ∧
      users ∉ r.outstanding := by
  intro users o
  let run : List (SeedingAction (IndexName → IndexState) String) :=
    [.stage .fresh, .call, .advance, .request, .start, .answer 0 [[users]] [users], .recv, .call,
      .advance, .ack, .reindex [users]]
  obtain ⟨r, hrun, hup, hphase⟩ := Transition.Machine.exists_of_run
    (m := engineRuns String .opensearch o true) (s := new String (fun _ => .absent) 2) (t := run)
    (p := fun r => r.phase.isUp = true ∧ r.phase =
      .calling [.reindex users, .ensureIndex users] (.reindexed [users]))
    (by decide)
  have hreach : (engineRuns String .opensearch o true).ReachableWith (spares .opensearch) r :=
    .run (.init initial_new) (by decide) hrun
  have hprogress := seeding_progresses (V := String) SinkPort.remembers_opensearch
    (o := o) rfl
  obtain ⟨hseeded, hstaged⟩ := hprogress.1 r hreach.reachable
  exact ⟨r, hreach.reachable, hseeded hup users List.mem_cons_self, hstaged users ⟨_, _, hphase⟩,
    hprogress.2 r hreach users ⟨_, _, hphase⟩⟩

/-- Over a sink that keeps nothing an index stays unseeded after its marker. Over one that
persists its seeds, marking one of two indexes fails; staging as fresh then stages the other
again while its snapshot is outstanding. -/
theorem not_seeding_progresses :
    let users : IndexName := ⟨"users"⟩
    let orders : IndexName := ⟨"orders"⟩
    let o : EngineOptions := ⟨[users, orders], false, fun _ => .stop⟩
    (∃ r, (engineRuns String .stdout o true).Reachable r ∧ r.phase = .running ∧
      users ∈ o.mappings ∧ SinkPort.stdout.isSeeded r.sink users = false ∧ ¬r.InFlight users) ∧
    ∃ r, (engineRuns String .opensearch o true).Reachable r ∧ r.Stages users ∧
      users ∈ r.outstanding := by
  intro users orders o
  constructor
  · let run : List (SeedingAction Unit String) :=
      [.stage .resumed, .call, .call, .advance, .request, .start,
        .answer 0 [[users, orders]] [users, orders], .recv, .call, .call, .advance, .ack]
    obtain ⟨r, hrun, hphase, hrequests, hlane⟩ := Transition.Machine.exists_of_run
      (m := engineRuns String .stdout o true) (s := new String () 2) (t := run)
      (p := fun r => r.phase = .running ∧ r.requests = [] ∧ r.lane.present = [])
      (by decide)
    refine ⟨r, .run (.init initial_new) hrun, hphase, List.mem_cons_self, rfl, ?_⟩
    rintro (⟨request, hmem, -⟩ | ⟨t, n, indexes, hmem, -⟩)
    · rw [hrequests] at hmem
      cases hmem
    · rw [hlane] at hmem
      cases hmem
  · let run : List (SeedingAction (IndexName → IndexState) String) :=
      [.stage .resumed, .call, .call, .advance, .request, .start,
        .answer 0 [[users, orders]] [users, orders], .recv, .call, .fail, .stage .fresh, .call,
        .call, .advance]
    obtain ⟨r, hrun, hphase, hout⟩ := Transition.Machine.exists_of_run
      (m := engineRuns String .opensearch o true) (s := new String (fun _ => .absent) 2) (t := run)
      (p := fun r => r.phase =
        .calling [.reindex users, .ensureIndex users] (.rebuilt .fresh) ∧ users ∈ r.outstanding)
      (by decide)
    exact ⟨r, .run (.init initial_new) hrun, ⟨_, _, hphase⟩, hout⟩

end EngineRun

end Flusso
