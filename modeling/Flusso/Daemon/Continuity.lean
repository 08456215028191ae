import Flusso.Daemon.Staging
import Flusso.Daemon.Watermark

/-! # Seeds across a gap in the WAL

Without a slot, every seed a sink recorded is stale. The sinks stage their
rebuilds before anything is spawned, so when ingest creates the slot no index it
may trust is left seeded.
-/

namespace Flusso

variable {V : Type*} {c : Config}

namespace SinkSide

/-- The first staging pass has not rebuilt the index yet. -/
def FirstPass (i : IndexName) : EnginePhase V → Prop
  | .unstaged .fresh => True
  | .calling _ (.ensured .fresh) => True
  | .calling calls (.rebuilt .fresh) => .reindex i ∈ calls
  | _ => False

variable {s s' : SinkSide V} {sc : SinkCall} {i : IndexName}

theorem FirstPass.firstStaging {phase : EnginePhase V} (h : FirstPass i phase) :
    FirstStaging phase := by
  unfold FirstPass at h
  split at h
  · trivial
  · trivial
  · trivial
  · exact h.elim

/-- A call records a seed only by marking the index seeded, and a rebuild retracts it. -/
theorem recorded_applyCall (h : s.applyCall sc = some s')
    (hrecorded : (s'.indexes i).recorded = true) :
    sc = .markSeeded i ∨ (s.indexes i).recorded = true ∧ sc ≠ .reindex i := by
  have hkeep {j : IndexName} {state : IndexState} (hj : i ≠ j)
      (hr : (Function.update s.indexes j state i).recorded = true) :
      (s.indexes i).recorded = true := by
    rwa [Function.update_of_ne hj] at hr
  cases sc with
  | ensureIndex j =>
    cases h
    refine .inr ⟨?_, by simp⟩
    by_cases hj : i = j
    · subst hj
      simp only [Function.update_self] at hrecorded
      exact IndexState.recorded_of_ensureIndex hrecorded
    · exact hkeep hj hrecorded
  | reindex j =>
    cases h
    by_cases hj : i = j
    · subst hj
      simp at hrecorded
    · exact .inr ⟨hkeep hj hrecorded, by simpa using Ne.symm hj⟩
  | markSeeded j =>
    obtain ⟨state, hstate, rfl⟩ := Option.map_eq_some_iff.mp h
    by_cases hj : i = j
    · exact .inl (by rw [hj])
    · exact .inr ⟨hkeep hj hrecorded, by simp⟩

theorem stale_applyCall (h : s.applyCall sc = some s') (hstale : s'.stale i = true) :
    s.stale i = true ∧ ((s.indexes i).recorded = true → (s'.indexes i).recorded = true) := by
  cases sc with
  | ensureIndex j =>
    cases h
    by_cases hj : i = j
    · subst hj
      simp only [Function.update_self, Bool.and_eq_true] at hstale ⊢
      exact ⟨hstale.1, fun _ => hstale.2⟩
    · simp only [Function.update_of_ne hj] at hstale ⊢
      exact ⟨hstale, id⟩
  | reindex j =>
    cases h
    by_cases hj : i = j
    · subst hj
      simp at hstale
    · simp only [Function.update_of_ne hj] at hstale ⊢
      exact ⟨hstale, id⟩
  | markSeeded j =>
    obtain ⟨state, hstate, rfl⟩ := Option.map_eq_some_iff.mp h
    refine ⟨hstale, fun hrecorded => ?_⟩
    by_cases hj : i = j
    · subst hj
      simp only [Function.update_self]
      exact IndexState.recorded_markSeeded hstate
    · simpa only [Function.update_of_ne hj] using hrecorded

variable [DecidableEq V] [ValueText V]

theorem stale_sideStep {a : EngineAction V} (hs : Deployment.sideStep c s a = some s')
    (hstale : s'.stale i = true) :
    s.stale i = true ∧ ((s.indexes i).recorded = true → (s'.indexes i).recorded = true) := by
  rcases (indexes_sideStep hs).2 with ⟨hindexes, hsame⟩ | ⟨sc, calls, next, side, -, happly, rfl⟩
  · exact ⟨hsame ▸ hstale, by rw [hindexes]; exact id⟩
  · have happlied := stale_applyCall (i := i) happly hstale
    exact happlied

theorem firstStaging_sideStep {a : EngineAction V}
    (hs : Deployment.sideStep c s a = some s') (h : FirstStaging s'.phase) :
    FirstStaging s.phase := by
  cases a with
  | stage =>
    obtain ⟨k, hphase, rfl⟩ := stage_cases hs
    rw [hphase]
    cases k with
    | fresh => trivial
    | resumed => exact h.elim
  | call =>
    obtain ⟨sc, calls, next, side, hphase, -, rfl⟩ := call_cases hs
    rw [hphase]
    cases next with
    | ensured k => cases k <;> exact h
    | rebuilt k => cases k <;> exact h
    | _ => exact h
  | advance =>
    rcases advance_cases hs with ⟨k, -, -, rfl⟩ | ⟨k, hphase, -, rfl, -, rfl⟩ | ⟨k, hphase, rfl⟩ |
      ⟨staged, -, ⟨-, rfl⟩ | ⟨-, rfl⟩⟩ | ⟨t, indexes, -, rfl⟩
    · exact h.elim
    · rw [hphase]
      trivial
    · have hfresh : k = .fresh := by
        rcases requestUnseeded_cases (o := c.engine) (s := s) k with hreq | ⟨-, -, hreq⟩ <;>
          rw [hreq] at h
        · exact h.elim
        · cases k with
          | fresh => rfl
          | resumed => exact h.elim
      subst hfresh
      rcases hphase with ⟨hphase, -⟩ | hphase <;> rw [hphase] <;> trivial
    · exact h.elim
    · exact h.elim
    · exact h.elim
  | request => cases hs
  | start =>
    obtain ⟨-, rfl⟩ := start_cases hs
    exact h.elim
  | recv =>
    obtain ⟨t, e, lane, -, -, ⟨n, indexes, -, rfl⟩ | ⟨-, rfl⟩⟩ := recv_cases hs
    · exact h.elim
    · exact h.elim
  | commit requests =>
    obtain ⟨t, e, -, -, -, -, rfl⟩ := commit_cases hs
    exact h.elim
  | commitFail requests =>
    obtain ⟨t, e, -, -, -, rfl⟩ := commitFail_cases hs
    exact h.elim
  | ack =>
    obtain ⟨t, -, rfl⟩ := ack_cases hs
    exact h.elim
  | reindex indexes =>
    obtain ⟨hphase, ⟨-, rfl⟩ | ⟨-, staged, -, rfl⟩⟩ := reindex_cases hs
    · exact h
    · exact h.elim
  | fail =>
    obtain ⟨k, hrestart, ⟨-, rfl⟩ | ⟨t, -, rfl⟩⟩ := fail_cases hs
    · exact firstStaging_of_restart hrestart h
    · exact firstStaging_of_restart hrestart h

/-- Before anything was published, a step leaves a recorded seed only to the first pass. -/
theorem firstPass_sideStep {a : EngineAction V} (ho : s.OnLane) (hstaging : s.Staging c.engine)
    (hs : Deployment.sideStep c s a = some s') (hlog : s.log = []) (hback : s.backfill = true)
    (hskip : c.engine.skipBackfill = false) (hi : i ∈ c.engine.mappings)
    (h : (s.indexes i).recorded = true → FirstPass i s.phase)
    (hrecorded : (s'.indexes i).recorded = true) : FirstPass i s'.phase := by
  have hold (hindexes : s'.indexes = s.indexes) {phase : EnginePhase V} (hphase : s.phase = phase) :
      FirstPass i phase := hphase ▸ h (hindexes ▸ hrecorded)
  cases a with
  | stage =>
    obtain ⟨k, hphase, rfl⟩ := stage_cases hs
    cases k with
    | fresh => trivial
    | resumed => exact (hold rfl hphase).elim
  | call =>
    obtain ⟨sc, calls, next, side, hphase, happly, rfl⟩ := call_cases hs
    rcases recorded_applyCall happly hrecorded with rfl | ⟨hr, hne⟩
    · -- no marker was published yet
      obtain ⟨t, indexes, rfl, -⟩ := hstaging.marking _ _ i hphase List.mem_cons_self
      obtain ⟨n, hget⟩ := ho.marking _ t indexes hphase
      rw [hlog] at hget
      cases hget
    · have hpass := h hr
      rw [hphase] at hpass
      cases next with
      | ensured k => cases k <;> exact hpass
      | rebuilt k =>
        cases k with
        | fresh => exact (List.mem_cons.mp hpass).resolve_left (Ne.symm hne)
        | resumed => exact hpass
      | _ => exact hpass
  | advance =>
    have hsettled {k : Continuity} (hphase : s.phase = .calling [] (.ensured k)) :
        (s.indexes i).Settled :=
      hstaging.settled (by simp [hphase]) (by simp [hphase]) hi
    rcases advance_cases hs with ⟨k, -, hnot, -⟩ | ⟨k, hphase, -, rfl, -, rfl⟩ |
      ⟨k, ⟨hphase, -, hempty⟩ | hphase, rfl⟩ | ⟨staged, hphase, ⟨-, rfl⟩ | ⟨-, rfl⟩⟩ |
      ⟨t, indexes, hphase, rfl⟩
    · rw [hback] at hnot
      cases hnot
    · refine mem_rebuildCalls.mpr (List.mem_filter.mpr ⟨hi, ?_⟩)
      rw [isSeeded, (hsettled hphase).isSeeded_eq]
      exact hrecorded
    · have hindexes : (s.requestUnseeded c.engine k).indexes = s.indexes := by
        rcases requestUnseeded_cases (o := c.engine) (s := s) k with hreq | ⟨-, -, hreq⟩ <;> rw [hreq]
      cases k with
      | resumed => exact (hold hindexes hphase).elim
      | fresh =>
        have hmem : i ∈ s.staleSeeds c.engine := by
          refine List.mem_filter.mpr ⟨hi, ?_⟩
          rw [isSeeded, (hsettled hphase).isSeeded_eq, ← hindexes]
          exact hrecorded
        rw [hempty rfl hskip] at hmem
        cases hmem
    · have hindexes : (s.requestUnseeded c.engine k).indexes = s.indexes := by
        rcases requestUnseeded_cases (o := c.engine) (s := s) k with hreq | ⟨-, -, hreq⟩ <;> rw [hreq]
      have hpass := hold hindexes hphase
      cases k with
      | resumed => exact hpass.elim
      | fresh => cases hpass
    · exact (hold rfl hphase).elim
    · exact (hold rfl hphase).elim
    · exact (hold rfl hphase).elim
  | request => cases hs
  | start =>
    obtain ⟨hphase, rfl⟩ := start_cases hs
    exact (hold rfl hphase).elim
  | recv =>
    obtain ⟨t, e, lane, hphase, -, ⟨n, indexes, -, rfl⟩ | ⟨-, rfl⟩⟩ := recv_cases hs
    · exact (hold rfl hphase).elim
    · exact (hold rfl hphase).elim
  | commit requests =>
    obtain ⟨t, e, hphase, -, -, -, rfl⟩ := commit_cases hs
    exact (hold rfl hphase).elim
  | commitFail requests =>
    obtain ⟨t, e, hphase, -, -, rfl⟩ := commitFail_cases hs
    exact (hold rfl hphase).elim
  | ack =>
    obtain ⟨t, hphase, rfl⟩ := ack_cases hs
    exact (hold rfl hphase).elim
  | reindex indexes =>
    obtain ⟨hphase, ⟨-, rfl⟩ | ⟨-, staged, -, rfl⟩⟩ := reindex_cases hs
    · exact (hold rfl hphase).elim
    · exact (hold rfl hphase).elim
  | fail =>
    have hrestart {k : Continuity} (hk : s.phase.restart = some k) (hpass : FirstPass i s.phase) :
        FirstPass i (.unstaged k : EnginePhase V) := by
      unfold FirstPass at hpass
      split at hpass
      · next hphase => simp [hphase, EnginePhase.restart] at hk
      · next hphase =>
        simp only [hphase, EnginePhase.restart, Option.some.injEq] at hk
        exact hk ▸ trivial
      · next hphase =>
        simp only [hphase, EnginePhase.restart, Option.some.injEq] at hk
        exact hk ▸ trivial
      · exact hpass.elim
    obtain ⟨k, hk, ⟨-, rfl⟩ | ⟨t, -, rfl⟩⟩ := fail_cases hs
    · exact hrestart hk (hold rfl rfl)
    · exact hrestart hk (hold rfl rfl)

end SinkSide

namespace Deployment

variable {d d' : Deployment V} {a : Action V} {sink : SinkName} {i : IndexName}

/-- Ingest has never run: there is no slot, and nothing was published or confirmed. -/
structure Untouched (d : Deployment V) : Prop where
  slot : d.slot = .missing
  down : d.ingest.phase = .down
  logs : ∀ s, (d.sinks s).log = []
  unconfirmed : d.confirmedChange = false
  created : d.created = 0

/-- How far a run that came up without a slot is, and what that leaves of an index's seed. -/
inductive Gap (d : Deployment V) (sink : SinkName) (i : IndexName) : Prop where
  | before : d.Untouched →
      (((d.sinks sink).indexes i).recorded = true → SinkSide.FirstPass i (d.sinks sink).phase) →
      Gap d sink i
  | bridged : d.created = 1 → (d.sinks sink).stale i = false → Gap d sink i
  | later : 2 ≤ d.created → Gap d sink i

/-- The only slot created in this run is the one that was missing when it came up. -/
def SlotKept (d : Deployment V) : Prop :=
  match d.continuity with
  | .fresh => d.created ≤ 1
  | .resumed => d.created = 0

/-- No seed from before a gap is left when a change past the gap is confirmed. -/
def SeedsRebuilt (c : Config) (d : Deployment V) : Prop :=
  d.confirmedChange = true →
    ∀ sink ∈ c.sinks, ∀ i ∈ c.engine.mappings, (d.sinks sink).stale i = false

variable [DecidableEq V] [ValueText V]

theorem created_of_step (hs : d.step c a = some d') :
    d'.continuity = d.continuity ∧ d.created ≤ d'.created ∧
      (d'.created = d.created → ∀ s i, (d'.sinks s).stale i = true → (d.sinks s).stale i = true) := by
  have hslot : d.ensureSlot.continuity = d.continuity ∧ d.created ≤ d.ensureSlot.created ∧
      (d.ensureSlot.created = d.created →
        ∀ s i, (d.ensureSlot.sinks s).stale i = true → (d.sinks s).stale i = true) := by
    rcases ensureSlot_cases (d := d) with ⟨h, -⟩ | ⟨-, h⟩ <;> rw [h]
    · exact ⟨rfl, Nat.le_refl _, fun _ _ _ hstale => hstale⟩
    · exact ⟨rfl, Nat.le_succ _, fun heq => absurd heq (Nat.succ_ne_self _)⟩
  have hupdate {s : SinkName} {side : SinkSide V}
      (hside : ∀ i, side.stale i = true → (d.sinks s).stale i = true) (x : SinkName)
      (i : IndexName) (hstale : (Function.update d.sinks s side x).stale i = true) :
      (d.sinks x).stale i = true := by
    by_cases hx : x = s
    · subst hx
      rw [Function.update_self] at hstale
      exact hside i hstale
    · rwa [Function.update_of_ne hx] at hstale
  cases move_of_step hs with
  | prepare _ _ => exact hslot
  | live _ _ => exact hslot
  | publish _ _ hside =>
    obtain ⟨lane, -, rfl⟩ := SinkSide.publish_cases hside
    exact ⟨rfl, Nat.le_refl _, fun _ => hupdate fun _ hstale => hstale⟩
  | request _ _ _ => exact ⟨rfl, Nat.le_refl _, fun _ => hupdate fun _ hstale => hstale⟩
  | engine _ _ hside =>
    exact ⟨rfl, Nat.le_refl _, fun _ => hupdate fun _ hstale => (SinkSide.stale_sideStep hside hstale).1⟩
  | _ => exact ⟨rfl, Nat.le_refl _, fun _ _ _ hstale => hstale⟩

theorem Untouched.step (h : d.Untouched) (ho : ∀ s, (d.sinks s).OnLane)
    (hs : d.step c a = some d') :
    d'.Untouched ∨ d.spawned = true ∧ d'.created = 1 ∧
      ∀ s, d'.sinks s = (d.sinks s).slotCreated := by
  have hdown := h.down
  cases move_of_step hs with
  | slot slot ha =>
    refine .inl ⟨?_, hdown, h.logs, h.unconfirmed, h.created⟩
    rcases ha with rfl | rfl
    · cases hs
      rfl
    · simp [Deployment.step, h.slot] at hs
  | spawn => exact .inl ⟨h.slot, hdown, h.logs, h.unconfirmed, h.created⟩
  | prepare _ hspawned =>
    rcases ensureSlot_cases (d := d) with ⟨-, hslot⟩ | ⟨-, heq⟩
    · exact absurd h.slot hslot
    · exact .inr ⟨hspawned, by simp [heq, h.created], fun s => by simp [heq]⟩
  | @request sink indexes staging _ _ _ _ =>
    refine .inl ⟨h.slot, hdown, fun s => ?_, h.unconfirmed, h.created⟩
    rw [← h.logs s]
    have hside : ((d.sinks sink).requested indexes staging).log = (d.sinks sink).log := rfl
    exact log_update hside s
  | engine _ _ hside =>
    refine .inl ⟨h.slot, hdown, fun s => ?_, h.unconfirmed, h.created⟩
    rw [← h.logs s]
    exact log_update (log_sideStep (ho _) hside) s
  | _ => simp_all [polling, confirmCall]

theorem SideMove.backfill {side : SinkSide V} (hm : SideMove c d sink a side) :
    side.backfill = (d.sinks sink).backfill := by
  cases hm with
  | engine _ _ hside => exact (SinkSide.indexes_sideStep hside).1
  | published _ _ hside =>
    obtain ⟨lane, -, rfl⟩ := SinkSide.publish_cases hside
    rfl
  | _ => rfl

theorem SideMove.recorded {side : SinkSide V} (hm : SideMove c d sink a side)
    (h : (d.sinks sink).stale i = true → ((d.sinks sink).indexes i).recorded = true)
    (hstale : side.stale i = true) : (side.indexes i).recorded = true := by
  cases hm with
  | same => exact h hstale
  | slotCreated =>
    rcases Bool.or_eq_true_iff.mp hstale with hstale | hseeded
    · exact h hstale
    · exact (Bool.and_eq_true_iff.mp hseeded).2
  | engine _ _ hside =>
    obtain ⟨hold, hkept⟩ := SinkSide.stale_sideStep hside hstale
    exact hkept (h hold)
  | requested _ _ _ => exact h hstale
  | published _ _ hside =>
    obtain ⟨lane, -, rfl⟩ := SinkSide.publish_cases hside
    exact h hstale

theorem recorded_of_stale (h : (daemon V c).Reachable d) (hstale : (d.sinks sink).stale i = true) :
    ((d.sinks sink).indexes i).recorded = true := by
  revert hstale
  refine Transition.Machine.Reachable.invariant (m := daemon V c)
    (P := fun d => (d.sinks sink).stale i = true → ((d.sinks sink).indexes i).recorded = true)
    (fun d hd hstale => ?_) (fun d a d' _ hp hs => (sideMove_of_step hs sink).recorded hp) h
  rw [hd.stale, Bool.and_eq_true_iff] at hstale
  exact hstale.2

theorem spawned_of_step (hs : d.step c a = some d') (hspawned : d'.spawned = true) :
    (∀ sink ∈ c.sinks, (d.sinks sink).phase = .staged) ∧ d'.sinks = d.sinks ∨ d.spawned = true := by
  cases move_of_step hs with
  | spawn _ hstaged => exact .inl ⟨hstaged, rfl⟩
  | prepare _ _ => exact .inr (by simpa using hspawned)
  | live _ _ => exact .inr (by simpa using hspawned)
  | _ => exact .inr hspawned

theorem not_firstStaging_of_spawned (h : (daemon V c).Reachable d) (hsink : sink ∈ c.sinks)
    (hspawned : d.spawned = true) : ¬SinkSide.FirstStaging (d.sinks sink).phase := by
  revert hspawned
  refine Transition.Machine.Reachable.invariant (m := daemon V c)
    (P := fun d => d.spawned = true → ¬SinkSide.FirstStaging (d.sinks sink).phase)
    (fun d hd hspawned => ?_) (fun d a d' hr hp hs hspawned hfirst => ?_) h
  · rw [hd.spawned] at hspawned
    cases hspawned
  · rcases spawned_of_step hs hspawned with ⟨hstaged, hsinks⟩ | hspawned
    · rw [hsinks, hstaged sink hsink] at hfirst
      exact hfirst
    · refine hp hspawned ?_
      have hm := sideMove_of_step hs sink
      generalize d'.sinks sink = side at hm hfirst
      cases hm with
      | same => exact hfirst
      | slotCreated _ _ _ => exact hfirst
      | engine _ _ hside =>
        exact SinkSide.firstStaging_sideStep hside hfirst
      | requested _ _ _ =>
        simp only [SinkSide.requested] at hfirst
        split at hfirst <;> exact hfirst.elim
      | published _ _ hside =>
        obtain ⟨lane, -, rfl⟩ := SinkSide.publish_cases hside
        exact hfirst

/-- One step across or beside the gap. -/
theorem Gap.step (h : d.Gap sink i) (hr : (daemon V c).Reachable d) (hsink : sink ∈ c.sinks)
    (hback : (d.sinks sink).backfill = true) (hskip : c.engine.skipBackfill = false)
    (hi : i ∈ c.engine.mappings) (hs : d.step c a = some d') : d'.Gap sink i := by
  have hcreated := created_of_step hs
  cases h with
  | before huntouched hpass =>
    rcases huntouched.step (onLane_of_reachable hr) hs with huntouched' | ⟨hspawned, hone, hsinks⟩
    · refine .before huntouched' ?_
      have hm := sideMove_of_step hs sink
      generalize d'.sinks sink = side at hm ⊢
      cases hm with
      | same => exact hpass
      | slotCreated _ _ _ => exact hpass
      | engine _ _ hside =>
        exact SinkSide.firstPass_sideStep (onLane_of_reachable hr sink) (staging_of_reachable hr sink)
          hside (huntouched.logs sink) hback hskip hi hpass
      | requested _ hphase _ =>
        intro hrecorded
        have hfirst := hpass hrecorded
        rw [hphase] at hfirst
        exact hfirst.elim
      | published _ _ hside =>
        obtain ⟨lane, -, rfl⟩ := SinkSide.publish_cases hside
        exact hpass
    · refine .bridged hone ?_
      have hnot : ((d.sinks sink).indexes i).recorded = false := by
        by_contra hrecorded
        have hfirst := hpass (by simpa using hrecorded)
        exact not_firstStaging_of_spawned hr hsink hspawned hfirst.firstStaging
      have hstale : (d.sinks sink).stale i = false := by
        by_contra hstale
        have hrecorded := recorded_of_stale hr (by simpa using hstale)
        rw [hnot] at hrecorded
        cases hrecorded
      simp [hsinks, SinkSide.slotCreated, SinkSide.isSeeded, IndexState.isSeeded, hstale, hnot]
  | bridged hone hstale =>
    rcases Nat.eq_or_lt_of_le hcreated.2.1 with heq | hlt
    · refine .bridged (by omega) ?_
      by_contra hnot
      have hold := hcreated.2.2 heq.symm sink i (by simpa using hnot)
      rw [hstale] at hold
      cases hold
    · exact .later (by omega)
  | later htwo => exact .later (Nat.le_trans htwo hcreated.2.1)

/-- What the slots created so far leave of a seed. -/
def Bridged (d : Deployment V) (sink : SinkName) (i : IndexName) : Prop :=
  match d.continuity with
  | .fresh => d.Gap sink i
  | .resumed => d.created = 0 → (d.sinks sink).stale i = false

theorem bridged_of_reachable (h : (daemon V c).Reachable d) (hsink : sink ∈ c.sinks)
    (hback : (d.sinks sink).backfill = true) (hskip : c.engine.skipBackfill = false)
    (hi : i ∈ c.engine.mappings) : d.Bridged sink i := by
  revert hback
  refine Transition.Machine.Reachable.invariant (m := daemon V c)
    (P := fun d => (d.sinks sink).backfill = true → d.Bridged sink i)
    (fun d hd _ => ?_) (fun d a d' hr hp hs hback => ?_) h
  · unfold Bridged
    split
    · next hfresh =>
      have hslot : d.slot = .missing := by
        have hcontinuity := hd.continuity
        rw [hfresh] at hcontinuity
        cases hslot : d.slot with
        | missing => rfl
        | _ => simp [hslot, slotContinuity] at hcontinuity
      refine .before ⟨hslot, by simp [hd.ingest, Ingest.down], hd.log, hd.confirmedChange,
        hd.created⟩ fun _ => ?_
      rw [hd.phase, hfresh]
      trivial
    · next hresumed =>
      intro _
      simp [hd.stale, hresumed]
  · rw [(sideMove_of_step hs sink).backfill] at hback
    have hold := hp hback
    obtain ⟨hcontinuity, hle, hstale⟩ := created_of_step hs
    unfold Bridged at hold ⊢
    rw [hcontinuity]
    split at hold
    · exact hold.step hr hsink hback hskip hi hs
    · intro hzero
      by_contra hnot
      have hwas := hstale (by omega) sink i (by simpa using hnot)
      rw [hold (by omega)] at hwas
      cases hwas

/-- While the only slot created is the one that was missing at the start, every sink that
backfills has staged its old seeds for a rebuild before a change past the gap is confirmed. -/
theorem rebuilt_of_slotKept (h : (daemon V c).Reachable d) (hkept : d.SlotKept)
    (hconfirmed : d.confirmedChange = true) (hskip : c.engine.skipBackfill = false)
    (hsink : sink ∈ c.sinks) (hback : (d.sinks sink).backfill = true)
    (hi : i ∈ c.engine.mappings) : (d.sinks sink).stale i = false := by
  have hbridged := bridged_of_reachable h hsink hback hskip hi
  unfold Bridged at hbridged
  unfold SlotKept at hkept
  split at hbridged
  · next hfresh =>
    simp only [hfresh] at hkept
    cases hbridged with
    | before huntouched _ =>
      rw [huntouched.unconfirmed] at hconfirmed
      cases hconfirmed
    | bridged _ hstale => exact hstale
    | later htwo => omega
  · next hresumed =>
    simp only [hresumed] at hkept
    exact hbridged hkept

/-- A seeded index of a sink that comes up without a slot. -/
theorem rebuilt_of_slotKept_missing :
    let sink : SinkName := ⟨"sink"⟩
    ∃ d : Deployment String, d.continuity = .fresh ∧ d.created = 1 ∧ d.confirmedChange = true ∧
      (d.sinks sink).stale ⟨"users"⟩ = false := by
  intro sink
  let c : Config := .mirror [sink] (by decide) 2 1
  let seeded : IndexState := ⟨some (1, true), none, [1], some 1⟩
  let document : Document String := .upsert ⟨⟨"users"⟩, [(⟨"id"⟩, "1")]⟩ "a"
  let run : List (Action String) := List.flatten
    [[.stage, .call, .advance, .call, .call, .advance, .request].map (.engine sink),
    [.spawn, .engine sink .start],
    ([.prepare, .live, .change ⟨"users"⟩ document.id.key [] 10, .commitLive [document],
      .publish sink, .published] : List (IngestAction String)).map .ingest,
    [.recv, .commit [⟨[], [document.envelope (some 0)], []⟩], .ack].map (.engine sink),
    [.ingest .confirm]]
  obtain ⟨d, hrun, hfresh, hcreated, hconfirmed, hback⟩ := Transition.Machine.exists_of_run
    (m := daemon String c) (s := comeUp String c .missing (fun _ => true) fun _ _ => seeded)
    (t := run) (p := fun d => d.continuity = .fresh ∧ d.created = 1 ∧ d.confirmedChange = true ∧
      (d.sinks sink).backfill = true)
    (by decide)
  refine ⟨d, hfresh, hcreated, hconfirmed, ?_⟩
  exact rebuilt_of_slotKept (.run reachable_comeUp hrun) (by simp [SlotKept, hfresh, hcreated])
    hconfirmed rfl (by decide) hback (by decide)

/-- Seeds from before a gap stay in use under `skip_backfill`, and when the slot is dropped
under a running daemon: the restarted ingest engine creates a new one and no sink stages. -/
theorem not_seedsRebuilt :
    let c : Config := .mirror [⟨"sink"⟩] (by decide) 2 1
    let skipping : Config := { c with engine := { c.engine with skipBackfill := true } }
    (∃ d : Deployment String, (daemon String skipping).Reachable d ∧ ¬d.SeedsRebuilt skipping) ∧
      ∃ d : Deployment String, (daemon String c).Reachable d ∧ ¬d.SeedsRebuilt c := by
  intro c skipping
  let sink : SinkName := ⟨"sink"⟩
  let seeded : IndexState := ⟨some (1, true), none, [1], some 1⟩
  let document : Document String := .upsert ⟨⟨"users"⟩, [(⟨"id"⟩, "1")]⟩ "a"
  let come : List (Action String) := List.flatten
    [[.stage, .call, .advance].map (.engine sink),
    [.spawn, .engine sink .start]]
  let confirm : List (Action String) := List.flatten
    [([.prepare, .live, .change ⟨"users"⟩ document.id.key [] 10, .commitLive [document],
      .publish sink, .published] : List (IngestAction String)).map .ingest,
    [.recv, .commit [⟨[], [document.envelope (some 0)], []⟩], .ack].map (.engine sink),
    [.ingest .confirm]]
  constructor
  · obtain ⟨d, hrun, hconfirmed, hstale⟩ := Transition.Machine.exists_of_run
      (m := daemon String skipping)
      (s := comeUp String skipping .missing (fun _ => true) fun _ _ => seeded)
      (t := come ++ confirm)
      (p := fun d => d.confirmedChange = true ∧ (d.sinks sink).stale ⟨"users"⟩ = true)
      (by decide)
    refine ⟨d, .run reachable_comeUp hrun, fun h => ?_⟩
    rw [h hconfirmed sink (by decide) ⟨"users"⟩ (by decide)] at hstale
    cases hstale
  · obtain ⟨d, hrun, hconfirmed, hstale⟩ := Transition.Machine.exists_of_run
      (m := daemon String c) (s := comeUp String c .valid (fun _ => true) fun _ _ => seeded)
      (t := come ++ [.ingest .prepare, .ingest .live, .dropSlot, .ingest .fail] ++ confirm)
      (p := fun d => d.confirmedChange = true ∧ (d.sinks sink).stale ⟨"users"⟩ = true)
      (by decide)
    refine ⟨d, .run reachable_comeUp hrun, fun h => ?_⟩
    rw [h hconfirmed sink (by decide) ⟨"users"⟩ (by decide)] at hstale
    cases hstale

end Deployment

end Flusso
