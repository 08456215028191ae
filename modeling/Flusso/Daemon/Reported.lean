import Flusso.Daemon.Observed
import Flusso.Daemon.Staging

/-! # What the status says of a sink

An entry follows its sink's engine from event to event. The one thing no event
tells is an index that was seeded before the engine first staged: only a staging
that requests nothing shows it as seeded.
-/

namespace Flusso

variable {V : Type*} {c : Config}

namespace IndexPhases

variable {m : IndexPhases} {indexes : List IndexName} {index i : IndexName} {phase p : IndexPhase}

theorem mem_foldl_set : (i, p) ∈ indexes.foldl (fun m index => m.set index phase) m ↔
    i ∈ indexes ∧ p = phase ∨ i ∉ indexes ∧ (i, p) ∈ m := by
  induction indexes generalizing m with
  | nil => simp
  | cons index indexes ih =>
    rw [List.foldl_cons, ih, mem_set, List.mem_cons]
    grind

theorem exists_mem_set (h : (i, p) ∈ m) : ∃ q, (i, q) ∈ m.set index phase := by
  by_cases hi : i = index
  · exact ⟨phase, mem_set.mpr (.inl ⟨hi, rfl⟩)⟩
  · exact ⟨p, mem_set.mpr (.inr ⟨hi, h⟩)⟩

theorem exists_mem_foldl_set (h : (i, p) ∈ m) :
    ∃ q, (i, q) ∈ indexes.foldl (fun m index => m.set index phase) m := by
  by_cases hi : i ∈ indexes
  · exact ⟨phase, mem_foldl_set.mpr (.inl ⟨hi, rfl⟩)⟩
  · exact ⟨p, mem_foldl_set.mpr (.inr ⟨hi, h⟩)⟩

end IndexPhases

/-- What an entry says of its sink. -/
structure Reported (o : EngineOptions) (s : SinkSide V) (entry : SinkStatus) (started : Bool) :
    Prop where
  down : s.phase.following = false → entry.phase = .starting ∨ entry.phase = .failed
  fresh : started = false → s.phase.following = false ∧ s.outstanding = []
  listed : ∀ i ∈ o.mappings, ∃ p, (i, p) ∈ entry.indexes
  pending : ∀ i, (i, .pending) ∈ entry.indexes → started = false ∧ i ∈ o.mappings
  backfilling : ∀ i, (i, .backfilling) ∈ entry.indexes → i ∈ s.outstanding
  marking : ∀ calls t indexes, s.phase = .calling calls (.seeded t indexes) → ∀ i ∈ indexes,
    .markSeeded i ∉ calls → (i, .backfilling) ∉ entry.indexes
  requesting : ∀ indexes staging, s.phase = .requesting indexes staging → indexes ≠ []
  live : s.phase.following = true → (∀ x ∈ entry.indexes, x.2 = .seeded) →
    entry.phase = .live

namespace Reported

variable {o : EngineOptions} {s s' : SinkSide V} {entry : SinkStatus} {started : Bool}
  {sink : SinkName}

/-- Once the engine reported the events. -/
def Heard (o : EngineOptions) (sink : SinkName) (s : SinkSide V) (entry : SinkStatus)
    (started : Bool) (events : List ObserverEvent) : Prop :=
  Reported o s (events.foldl (SinkStatus.hear sink) entry)
    (started || decide (.sinkStarted sink ∈ events))

theorem silent (h : Reported o s entry started) : Heard o sink s entry started [] := by
  simpa [Heard] using h

theorem frame (h : Reported o s entry started)
    (hfollowing : s'.phase.following = s.phase.following)
    (houtstanding : s'.outstanding = s.outstanding)
    (hmarking : ∀ calls t indexes, s'.phase = .calling calls (.seeded t indexes) →
      ∀ i ∈ indexes, .markSeeded i ∉ calls → (i, .backfilling) ∉ entry.indexes)
    (hrequesting : ∀ indexes staging, s'.phase = .requesting indexes staging → indexes ≠ []) :
    Reported o s' entry started := by
  constructor
  · rw [hfollowing]
    exact h.down
  · rw [hfollowing, houtstanding]
    exact h.fresh
  · exact h.listed
  · exact h.pending
  · rw [houtstanding]
    exact h.backfilling
  · exact hmarking
  · exact hrequesting
  · rw [hfollowing]
    exact h.live

theorem start (h : Reported o s entry started) (hfollowing : s'.phase.following = true)
    (houtstanding : s'.outstanding = s.outstanding)
    (hcalling : ∀ calls next, s'.phase ≠ .calling calls next)
    (hrequesting : ∀ indexes staging, s'.phase ≠ .requesting indexes staging) :
    Heard o sink s' entry started [.sinkStarted sink] := by
  simp only [Heard, List.foldl_cons, List.foldl_nil, SinkStatus.hear, if_true,
    List.mem_singleton, decide_true, Bool.or_true]
  unfold SinkStatus.started
  have hup {p : Prop} (hdown : s'.phase.following = false) : p := by
    rw [hfollowing] at hdown
    cases hdown
  split
  · next hany =>
    obtain ⟨⟨i, p⟩, hmem, hp⟩ := List.any_eq_true.mp hany
    obtain rfl : p = .backfilling := of_decide_eq_true hp
    have hout := h.backfilling i hmem
    constructor
    · exact hup
    · simp
    · exact h.listed
    · -- something is outstanding, so the engine had started before
      intro j hj
      obtain ⟨hstarted, -⟩ := h.pending j hj
      rw [(h.fresh hstarted).2] at hout
      cases hout
    · rw [houtstanding]
      exact h.backfilling
    · exact fun calls t indexes hphase => absurd hphase (hcalling _ _)
    · exact fun indexes staging hphase => absurd hphase (hrequesting _ _)
    · exact fun _ hall => absurd (hall _ hmem) (by simp)
  · next hnone =>
    have hseeded {i : IndexName} {p : IndexPhase}
        (hmem : (i, p) ∈ entry.indexes.map fun entry => (entry.1, IndexPhase.seeded)) :
        p = .seeded := by
      obtain ⟨_, -, heq⟩ := List.mem_map.mp hmem
      cases heq
      rfl
    constructor
    · exact hup
    · simp
    · intro i hi
      obtain ⟨p, hp⟩ := h.listed i hi
      exact ⟨.seeded, List.mem_map.mpr ⟨_, hp, rfl⟩⟩
    · exact fun i hi => absurd (hseeded hi) (by simp)
    · exact fun i hi => absurd (hseeded hi) (by simp)
    · exact fun calls t indexes hphase => absurd hphase (hcalling _ _)
    · exact fun indexes staging hphase => absurd hphase (hrequesting _ _)
    · exact fun _ _ => rfl

/-- The engine asked for snapshots, all of them if nothing was reported before. -/
theorem requested {indexes : List IndexName} {staging : Option Continuity}
    (h : Reported o s entry started) (hne : indexes ≠ [])
    (hwhole : started = true ∨ ∀ i ∈ o.mappings, i ∈ indexes) :
    Reported o (s.requested indexes staging) (entry.backfilling indexes) true := by
  have hphase : (s.requested indexes staging).phase = .staged ∨
      (s.requested indexes staging).phase = .running := by
    unfold SinkSide.requested
    split
    · exact .inl rfl
    · exact .inr rfl
  constructor
  · intro hdown
    rcases hphase with hphase | hphase <;> simp [hphase, EnginePhase.following] at hdown
  · simp
  · intro i hi
    obtain ⟨p, hp⟩ := h.listed i hi
    exact IndexPhases.exists_mem_foldl_set hp
  · intro i hi
    rcases IndexPhases.mem_foldl_set.mp hi with ⟨-, hp⟩ | ⟨hnot, hmem⟩
    · cases hp
    · obtain ⟨hstarted, hi⟩ := h.pending i hmem
      rcases hwhole with hwhole | hwhole
      · rw [hstarted] at hwhole
        cases hwhole
      · exact absurd (hwhole i hi) hnot
  · intro i hi
    rcases IndexPhases.mem_foldl_set.mp hi with ⟨hi, -⟩ | ⟨-, hmem⟩
    · exact mem_insertNew.mpr (.inr hi)
    · exact mem_insertNew.mpr (.inl (h.backfilling i hmem))
  · intro calls t indexes hcalling
    rcases hphase with hphase | hphase <;> simp [hphase] at hcalling
  · intro indexes staging hrequesting
    rcases hphase with hphase | hphase <;> simp [hphase] at hrequesting
  · intro _ hall
    obtain ⟨i, hi⟩ := List.exists_mem_of_ne_nil indexes hne
    exact absurd (hall (i, .backfilling) (IndexPhases.mem_foldl_set.mpr (.inl ⟨hi, rfl⟩))) (by simp)

theorem started_backfilling {indexes : List IndexName} (hne : indexes ≠ []) :
    (entry.backfilling indexes).started = entry.backfilling indexes := by
  obtain ⟨i, hi⟩ := List.exists_mem_of_ne_nil indexes hne
  unfold SinkStatus.started
  rw [if_pos]
  · rfl
  · exact List.any_eq_true.mpr ⟨(i, .backfilling), IndexPhases.mem_foldl_set.mpr (.inl ⟨hi, rfl⟩),
      decide_eq_true rfl⟩

theorem request [ValueText V] {indexes : List IndexName} {staging : Option Continuity}
    (h : Reported o s entry started) (hphase : s.phase = .requesting indexes staging)
    (hwhole : staging.isSome = true → started = true ∨ ∀ i ∈ o.mappings, i ∈ indexes) :
    Heard o sink (s.requested indexes staging) entry started
      (sideEvents sink s (s.requested indexes staging) .request) := by
  have hne := h.requesting indexes staging hphase
  cases staging with
  | none =>
    have hstarted : started = true := by
      cases started with
      | true => rfl
      | false =>
        have hdown := (h.fresh rfl).1
        rw [hphase] at hdown
        cases hdown
    simpa [Heard, sideEvents, hphase, SinkStatus.hear, hstarted] using
      h.requested hne (.inl hstarted)
  | some k =>
    simpa [Heard, sideEvents, hphase, SinkStatus.hear, started_backfilling hne] using
      h.requested hne (hwhole rfl)

theorem seeded {calls : List SinkCall} {t : ℕ} {indexes : List IndexName} {i : IndexName}
    (h : Reported o s entry started)
    (hphase : s.phase = .calling (.markSeeded i :: calls) (.seeded t indexes))
    (hphase' : s'.phase = .calling calls (.seeded t indexes))
    (houtstanding : s'.outstanding = s.outstanding) :
    Reported o s' (entry.seeded i) started := by
  constructor
  · simp [hphase', EnginePhase.following]
  · intro hstarted
    have hdown := (h.fresh hstarted).1
    rw [hphase] at hdown
    cases hdown
  · intro j hj
    obtain ⟨p, hp⟩ := h.listed j hj
    exact IndexPhases.exists_mem_set hp
  · intro j hj
    rcases IndexPhases.mem_set.mp hj with ⟨-, hp⟩ | ⟨-, hmem⟩
    · cases hp
    · exact h.pending j hmem
  · intro j hj
    rw [houtstanding]
    rcases IndexPhases.mem_set.mp hj with ⟨-, hp⟩ | ⟨-, hmem⟩
    · cases hp
    · exact h.backfilling j hmem
  · intro calls' t' indexes' hcalling j hj hnot hmem
    rw [hphase'] at hcalling
    cases hcalling
    rcases IndexPhases.mem_set.mp hmem with ⟨-, hp⟩ | ⟨hne, hold⟩
    · cases hp
    · apply h.marking _ t indexes hphase j hj _ hold
      simp [hne, hnot]
  · simp [hphase']
  · intro _ hall
    exact if_pos (List.all_eq_true.mpr fun x hx => decide_eq_true (hall x hx))

/-- The run fails; a staging pass that fails reports nothing. -/
theorem failed {k : Continuity} (h : Reported o s entry started) (hphase : s'.phase = .unstaged k)
    (houtstanding : s'.outstanding = s.outstanding) :
    Heard o sink s' entry started
      (if s.phase.following then [.engineError (.sink sink)] else []) := by
  have hdown : s'.phase.following = false := by simp [hphase, EnginePhase.following]
  split
  · next hup =>
    simp only [Heard, List.foldl_cons, List.foldl_nil, SinkStatus.hear, if_true,
      List.mem_singleton, reduceCtorEq, decide_false, Bool.or_false]
    constructor
    · exact fun _ => .inr rfl
    · intro hstarted
      rw [houtstanding]
      exact ⟨hdown, (h.fresh hstarted).2⟩
    · exact h.listed
    · exact h.pending
    · rw [houtstanding]
      exact h.backfilling
    · simp [hphase]
    · simp [hphase]
    · simp [hdown]
  · next hnot =>
    apply silent
    exact h.frame (by rw [hdown, Bool.eq_false_iff.mpr hnot]) houtstanding (by simp [hphase])
      (by simp [hphase])

theorem flushed {V' : Type*} {rejected : List V'} {changes envelopes : ℕ}
    (h : Reported o s entry started) : Heard o sink s entry started
      (rejected.map (fun _ => .documentQuarantined sink) ++
        [.batchCommitted sink changes envelopes]) := by
  induction rejected generalizing entry with
  | nil =>
    have hstarted : (started || decide (.sinkStarted sink ∈
        [ObserverEvent.batchCommitted sink changes envelopes])) = started := by simp
    simp only [Heard, List.map_nil, List.nil_append, hstarted, List.foldl_cons, List.foldl_nil,
      SinkStatus.hear, if_true]
    exact { h with }
  | cons _ rejected ih =>
    have hquarantined : Reported o s entry.quarantined started := { h with }
    simpa [Heard, SinkStatus.hear] using ih hquarantined

variable [DecidableEq V] [ValueText V]

theorem sideStep {a : EngineAction V} (h : Reported c.engine s entry started)
    (hstaging : s.Staging c.engine) (hs : Deployment.sideStep c s a = some s') :
    Heard c.engine sink s' entry started (sideEvents sink s s' a) := by
  cases a with
  | stage =>
    obtain ⟨k, hphase, rfl⟩ := SinkSide.stage_cases hs
    apply silent
    exact h.frame (by simp [hphase, EnginePhase.following]) rfl (by simp) (by simp)
  | call =>
    obtain ⟨call, calls, next, side, hphase, happly, rfl⟩ := SinkSide.call_cases hs
    have houtstanding : side.outstanding = s.outstanding := by rw [SinkSide.applyCall_frame happly]
    cases call with
    | markSeeded i =>
      obtain ⟨t, indexes, rfl, -⟩ := hstaging.marking _ next i hphase List.mem_cons_self
      have hseeded : Reported c.engine { side with phase := .calling calls (.seeded t indexes) }
          (entry.seeded i) started := h.seeded hphase rfl houtstanding
      simpa [Heard, sideEvents, hphase, SinkStatus.hear] using hseeded
    | _ =>
      have hsilent : sideEvents sink s { side with phase := .calling calls next } .call = [] := by
        simp [sideEvents, hphase]
      rw [hsilent]
      apply silent
      refine h.frame (by cases next <;> simp [hphase, EnginePhase.following]) houtstanding ?_
        (by simp)
      rintro calls' t indexes ⟨⟩
      obtain ⟨i, -, hcall⟩ := hstaging.seeding _ t indexes hphase _ List.mem_cons_self
      cases hcall
  | advance =>
    rcases SinkSide.advance_cases hs with ⟨k, hphase, -, rfl⟩ | ⟨k, hphase, -, -, -, rfl⟩ |
      ⟨k, hphase, rfl⟩ | ⟨staged, hphase, ⟨-, rfl⟩ | ⟨hne, rfl⟩⟩ | ⟨t, indexes, hphase, rfl⟩
    · exact h.start rfl rfl (by simp) (by simp)
    · apply silent
      exact h.frame (by simp [hphase, EnginePhase.following]) rfl (by simp) (by simp)
    · have hdown : s.phase.following = false := by
        rcases hphase with ⟨hphase, -⟩ | hphase <;> simp [hphase, EnginePhase.following]
      rcases SinkSide.requestUnseeded_cases (o := c.engine) (s := s) k with hreq | ⟨-, hne, hreq⟩
        <;> rw [hreq]
      · exact h.start rfl rfl (by simp) (by simp)
      · apply silent
        refine h.frame hdown.symm rfl (by simp) ?_
        rintro indexes staging ⟨⟩
        exact hne
    · apply silent
      exact h.frame (by simp [hphase, EnginePhase.following]) rfl (by simp) (by simp)
    · apply silent
      refine h.frame (by simp [hphase, EnginePhase.following]) rfl (by simp) ?_
      rintro indexes staging ⟨⟩
      exact hne
    · -- every index of the marker is seeded by now
      apply silent
      constructor
      · simp [EnginePhase.following]
      · intro hstarted
        have hdown := (h.fresh hstarted).1
        rw [hphase] at hdown
        cases hdown
      · exact h.listed
      · exact h.pending
      · intro i hi
        have hnot : i ∉ indexes := fun hmem =>
          h.marking [] t indexes hphase i hmem List.not_mem_nil hi
        exact List.mem_filter.mpr ⟨h.backfilling i hi, decide_eq_true hnot⟩
      · simp
      · simp
      · exact fun _ hall => h.live (by simp [hphase, EnginePhase.following]) hall
  | request => cases hs
  | start =>
    obtain ⟨hphase, rfl⟩ := SinkSide.start_cases hs
    apply silent
    exact h.frame (by simp [hphase, EnginePhase.following]) rfl (by simp) (by simp)
  | recv =>
    obtain ⟨t, e, lane, hphase, -, hcases⟩ := SinkSide.recv_cases hs
    apply silent
    rcases hcases with ⟨n, indexes, -, rfl⟩ | ⟨-, rfl⟩
    · refine h.frame (by simp [hphase, EnginePhase.following]) rfl ?_ (by simp)
      rintro calls t' indexes' ⟨⟩ i hi hnot
      exact absurd (List.mem_map.mpr ⟨i, hi, rfl⟩) hnot
    · exact h.frame (by simp [hphase, EnginePhase.following]) rfl (by simp) (by simp)
  | commit requests =>
    obtain ⟨t, e, hphase, -, -, -, rfl⟩ := SinkSide.commit_cases hs
    simp only [sideEvents, hphase]
    apply flushed
    exact h.frame (by simp [hphase, EnginePhase.following]) rfl (by simp) (by simp)
  | commitFail requests =>
    obtain ⟨t, e, hphase, -, -, rfl⟩ := SinkSide.commitFail_cases hs
    have hup : s.phase.following = true := by simp [hphase, EnginePhase.following]
    have hevents : sideEvents sink s { s with
        applied := s.applied ++ requests.flatMap BulkRequest.executed
        lane := s.lane.release t
        phase := .unstaged .resumed } (.commitFail requests) =
      if s.phase.following then [.engineError (.sink sink)] else [] := (if_pos hup).symm
    rw [hevents]
    exact h.failed rfl rfl
  | ack =>
    obtain ⟨t, hphase, rfl⟩ := SinkSide.ack_cases hs
    apply silent
    exact h.frame (by simp [hphase, EnginePhase.following]) rfl (by simp) (by simp)
  | reindex indexes =>
    obtain ⟨hphase, ⟨-, rfl⟩ | ⟨-, staged, -, rfl⟩⟩ := SinkSide.reindex_cases hs
    · exact h.silent
    · apply silent
      exact h.frame (by simp [hphase, EnginePhase.following]) rfl (by simp) (by simp)
  | fail =>
    obtain ⟨k, -, ⟨-, rfl⟩ | ⟨t, -, rfl⟩⟩ := SinkSide.fail_cases hs
    · exact h.failed rfl rfl
    · exact h.failed rfl rfl

end Reported

section Others

variable [ValueText V] {sink other : SinkName} {s s' : SinkSide V} {d d' : Deployment V}

theorem hear_sideEvents_of_ne {a : EngineAction V} (hne : other ≠ sink) {e : ObserverEvent}
    (he : e ∈ sideEvents other s s' a) (entry : SinkStatus) :
    entry.hear sink e = entry ∧ e ≠ .sinkStarted sink := by
  unfold sideEvents at he
  repeat' split at he
  all_goals grind [SinkStatus.hear]

theorem hear_events_of_ne {a : Action V} (ha : ∀ b, a ≠ .engine sink b) {e : ObserverEvent}
    (he : e ∈ events d d' a) (entry : SinkStatus) :
    entry.hear sink e = entry ∧ e ≠ .sinkStarted sink := by
  cases a with
  | engine other a =>
    apply hear_sideEvents_of_ne _ he
    rintro rfl
    exact ha a rfl
  | ingest a => cases a <;> simp_all [events, SinkStatus.hear]
  | _ => cases he

theorem foldl_hear {events : List ObserverEvent} {entry : SinkStatus}
    (h : ∀ e ∈ events, ∀ entry, SinkStatus.hear sink entry e = entry) :
    events.foldl (SinkStatus.hear sink) entry = entry := by
  induction events with
  | nil => rfl
  | cons e events ih =>
    rw [List.foldl_cons, h e List.mem_cons_self, ih fun e he => h e (List.mem_cons_of_mem _ he)]

end Others

/-- What a staging pass is about to request. -/
def EnginePhase.asks : EnginePhase V → Option (List IndexName)
  | .requesting indexes (some _) => some indexes
  | _ => none

/-- The sink whose request an action publishes. -/
def ObservedAction.requests : ObservedAction V → Option SinkName
  | .act (.engine sink .request) _ => some sink
  | _ => none

namespace Observed

variable {w w' : Observed V} {sink : SinkName}

/-- An engine's first staging requests nothing or every index. -/
def WholeFirst (c : Config) (w : Observed V) (a : ObservedAction V) : Prop :=
  ∀ sink ∈ a.requests, w.started sink = true ∨
    ∀ indexes ∈ (w.daemon.sinks sink).phase.asks, ∀ i ∈ c.engine.mappings, i ∈ indexes

instance : DecidablePred (w.WholeFirst c) := fun a =>
  inferInstanceAs (Decidable (∀ sink ∈ a.requests, w.started sink = true ∨
    ∀ indexes ∈ (w.daemon.sinks sink).phase.asks, ∀ i ∈ c.engine.mappings, i ∈ indexes))

variable [DecidableEq V] [ValueText V]

theorem reported_act {a : Action V} {change : ℕ} (h : Reported c.engine (w.daemon.sinks sink)
      (w.status.sinks sink) (w.started sink))
    (hstaging : (w.daemon.sinks sink).Staging c.engine)
    (hwhole : w.WholeFirst c (.act a change)) (hsink : sink ∈ w.status.sinkNames)
    (hs : w.act c a change = some w') :
    Reported c.engine (w'.daemon.sinks sink) (w'.status.sinks sink) (w'.started sink) := by
  obtain ⟨d, hd, rfl⟩ := act_cases hs
  simp only [Status.sinks_foldl hsink]
  by_cases ha : ∃ b, a = .engine sink b
  · obtain ⟨b, rfl⟩ := ha
    obtain ⟨-, ⟨rfl, hreq⟩ | ⟨side, hside, -, rfl⟩⟩ := Deployment.engineStep_cases hd
    · obtain ⟨indexes, staging, requests, hphase, -, rfl⟩ := Deployment.request_cases hreq
      simp only [Deployment.withSide, Function.update_self, events]
      apply h.request hphase
      intro hstaging
      obtain ⟨k, rfl⟩ := Option.isSome_iff_exists.mp hstaging
      exact (hwhole sink rfl).imp_right fun hall => hall indexes (by rw [hphase]; rfl)
    · simp only [Deployment.withSide, Function.update_self, events]
      exact h.sideStep hstaging hside
  · have hne : ∀ b, a ≠ .engine sink b := fun b hb => ha ⟨b, hb⟩
    rw [foldl_hear fun e he entry => (hear_events_of_ne hne he entry).1]
    have hstarted : (.sinkStarted sink ∈ events w.daemon d a) = False := by
      apply eq_false
      intro hmem
      exact (hear_events_of_ne hne hmem (w.status.sinks sink)).2 rfl
    simp only [hstarted, decide_false, Bool.or_false]
    have hmove := Deployment.sideMove_of_step hd sink
    generalize d.sinks sink = side at hmove
    cases hmove with
    | same => exact h
    | slotCreated => exact h.frame rfl rfl h.marking h.requesting
    | engine => exact absurd rfl (hne _)
    | requested => exact absurd rfl (hne _)
    | published _ _ hside =>
      obtain ⟨lane, -, rfl⟩ := SinkSide.publish_cases hside
      exact h.frame rfl rfl h.marking h.requesting

theorem reported_of_reachable (h : (observed V c).ReachableWith (WholeFirst c) w)
    (hsink : sink ∈ c.sinks) :
    Reported c.engine (w.daemon.sinks sink) (w.status.sinks sink) (w.started sink) := by
  induction h with
  | init h =>
    rw [h.status, h.started]
    constructor
    · exact fun _ => .inl rfl
    · intro _
      rw [h.daemon.phase, h.daemon.outstanding]
      exact ⟨rfl, rfl⟩
    · exact fun i hi => ⟨.pending, List.mem_map.mpr ⟨i, hi, rfl⟩⟩
    · intro i hi
      obtain ⟨j, hj, heq⟩ := List.mem_map.mp hi
      cases heq
      exact ⟨rfl, hj⟩
    · intro i hi
      obtain ⟨j, -, heq⟩ := List.mem_map.mp hi
      cases heq
    · simp [h.daemon.phase]
    · simp [h.daemon.phase]
    · simp [h.daemon.phase, EnginePhase.following]
  | @step w w' a hr hok hs ih =>
    cases a with
    | act a change =>
      have hstaging := Deployment.staging_of_reachable (daemon_of_reachable hr) sink
      exact reported_act ih hstaging hok ((sinkNames_of_reachable hr).symm ▸ hsink) hs
    | resolveFails change =>
      obtain ⟨d, -, hd, rfl⟩ := resolveFails_cases hs
      obtain ⟨-, -, rfl⟩ := Deployment.ingestFail_cases hd
      rw [Status.sinks_foldl ((sinkNames_of_reachable hr).symm ▸ hsink)]
      exact ih

/-- While every engine's first staging requests nothing or every index, a sink without an
outstanding snapshot is shown live with each index seeded exactly while its engine follows the
lane: before it is shown as starting, after a failure as failed. -/
theorem live_of_reachable (h : (observed V c).ReachableWith (WholeFirst c) w)
    (hsink : sink ∈ c.sinks) (houtstanding : (w.daemon.sinks sink).outstanding = []) :
    (w.daemon.sinks sink).phase.following = true ↔ (w.status.sinks sink).phase = .live ∧
      (∀ i ∈ c.engine.mappings, (i, .seeded) ∈ (w.status.sinks sink).indexes) ∧
      ∀ x ∈ (w.status.sinks sink).indexes, x.2 = .seeded := by
  have hreported := reported_of_reachable h hsink
  constructor
  · intro hup
    have hseeded : ∀ x ∈ (w.status.sinks sink).indexes, x.2 = .seeded := by
      rintro ⟨i, p⟩ hmem
      cases p with
      | seeded => rfl
      | pending =>
        have hdown := (hreported.fresh (hreported.pending i hmem).1).1
        rw [hup] at hdown
        cases hdown
      | backfilling =>
        have hout := hreported.backfilling i hmem
        rw [houtstanding] at hout
        cases hout
    refine ⟨hreported.live hup hseeded, fun i hi => ?_, hseeded⟩
    obtain ⟨p, hp⟩ := hreported.listed i hi
    obtain rfl : p = .seeded := hseeded _ hp
    exact hp
  · rintro ⟨hlive, -, -⟩
    by_contra hdown
    rcases hreported.down (Bool.eq_false_iff.mpr hdown) with hphase | hphase <;>
      rw [hlive] at hphase <;> cases hphase

/-- The only index is requested, its snapshot of one row arrives, and the sink is live. -/
theorem live_of_one_index :
    ∃ w : Observed String, (w.daemon.sinks ⟨"sink"⟩).phase.following = true ∧
      ((w.daemon.sinks ⟨"sink"⟩).phase.following = true ↔
        (w.status.sinks ⟨"sink"⟩).phase = .live ∧
        (∀ i ∈ [(⟨"users"⟩ : IndexName)], (i, .seeded) ∈ (w.status.sinks ⟨"sink"⟩).indexes) ∧
        ∀ x ∈ (w.status.sinks ⟨"sink"⟩).indexes, x.2 = .seeded) := by
  let sink : SinkName := ⟨"sink"⟩
  let c : Config := .mirror [sink] (by decide) 2 1
  let document : Document String := .upsert ⟨⟨"users"⟩, [(⟨"id"⟩, "1")]⟩ "a"
  let view : Cdc.View String := fun _ => ⟨[some ⟨"id"⟩], [⟨["1"], "1"⟩]⟩
  let engine (a : EngineAction String) : ObservedAction String := .act (.engine sink a) 0
  let ingest (a : IngestAction String) : ObservedAction String := .act (.ingest a) 0
  let run : List (ObservedAction String) := List.flatten
    [[.stage, .call, .advance, .request].map engine,
    [.act .spawn 0],
    ([.prepare, .live, .takeRequest, .startSnapshot view, .row [] [document], .publish sink,
      .published, .endSnapshot [], .publish sink] : List (IngestAction String)).map ingest,
    [.start, .recv, .commit [⟨[], [document.envelope none], []⟩], .ack, .recv, .call, .advance].map
      engine]
  let start : Observed String := atStart c
    (.comeUp String c .missing (fun _ => true) fun _ _ => .absent)
  obtain ⟨w, hrun, hup, houtstanding⟩ := Transition.Machine.exists_of_run (m := observed String c)
    (s := start) (t := run) (p := fun w => (w.daemon.sinks sink).phase.following = true ∧
      (w.daemon.sinks sink).outstanding = []) (by decide +kernel)
  have heach : (observed String c).Each (WholeFirst c) start run := by decide +kernel
  exact ⟨w, hup, live_of_reachable (reachable_atStart.run heach hrun) (by decide) houtstanding⟩

/-- Two indexes, the first seeded by an earlier run: only the second is requested, and once its
snapshot arrived the first is still shown as pending, the sink as backfilling. -/
theorem not_live_of_partial_request :
    ¬ ∀ (c : Config) (w : Observed String), (observed String c).Reachable w → ∀ sink ∈ c.sinks,
      (w.daemon.sinks sink).phase.following = true → (w.daemon.sinks sink).outstanding = [] →
      (∀ i ∈ c.engine.mappings, (w.daemon.sinks sink).isSeeded i = true) →
      (w.status.sinks sink).phase = .live ∧
        ∀ i ∈ c.engine.mappings, (i, .seeded) ∈ (w.status.sinks sink).indexes := by
  let sink : SinkName := ⟨"sink"⟩
  let users : IndexName := ⟨"users"⟩
  let posts : IndexName := ⟨"posts"⟩
  let c : Config := { Config.mirror [sink] (by decide) 2 1 with
    engine := { mappings := [users, posts], skipBackfill := false, failurePolicy := fun _ => .stop }
    scopes := [(users, ⟨⟨"public"⟩, ⟨"users"⟩⟩), (posts, ⟨⟨"public"⟩, ⟨"posts"⟩⟩)] }
  let seeded : IndexState :=
    { metaDoc := some (1, true), physical := none, generations := [1], serving := some 1 }
  let view : Cdc.View String := fun _ => ⟨[some ⟨"id"⟩], []⟩
  let engine (a : EngineAction String) : ObservedAction String := .act (.engine sink a) 0
  let ingest (a : IngestAction String) : ObservedAction String := .act (.ingest a) 0
  let run : List (ObservedAction String) := List.flatten
    [[.stage, .call, .call, .advance, .request].map engine, [.act .spawn 0],
    ([.prepare, .live, .takeRequest, .startSnapshot view, .endSnapshot [], .publish sink] :
      List (IngestAction String)).map ingest,
    [.start, .recv, .call, .advance, .ack].map engine]
  obtain ⟨w, hrun, hup, houtstanding, hseeded, hphase⟩ := Transition.Machine.exists_of_run
    (m := observed String c)
    (s := atStart c (.comeUp String c .valid (fun _ => true) fun _ i =>
      if i = users then seeded else .absent)) (t := run)
    (p := fun w => (w.daemon.sinks sink).phase.following = true ∧
      (w.daemon.sinks sink).outstanding = [] ∧
      (∀ i ∈ c.engine.mappings, (w.daemon.sinks sink).isSeeded i = true) ∧
      (w.status.sinks sink).phase = .backfilling) (by decide +kernel)
  intro hall
  have hlive := (hall c w (.run reachable_atStart hrun) sink (by decide) hup houtstanding hseeded).1
  rw [hphase] at hlive
  cases hlive

end Observed

end Flusso
