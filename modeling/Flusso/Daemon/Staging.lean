import Flusso.Daemon.Lanes

/-! # What staging guarantees of a sink's indexes

An index is unsettled from its reindex until it is ensured again, and the
engine requests its snapshot only after that. An index whose snapshot is
outstanding is never reindexed, so it keeps the generation it is written to.
-/

namespace Flusso

variable {V : Type*} {c : Config}

namespace SinkSide

/-- An index is staged only to be ensured next. -/
def Paired : List SinkCall → Prop
  | [] => True
  | .reindex i :: rest => (∃ rest', rest = .ensureIndex i :: rest') ∧ Paired rest
  | _ :: rest => Paired rest

theorem paired_ensureIndex (indexes : List IndexName) : Paired (indexes.map .ensureIndex) := by
  induction indexes with
  | nil => trivial
  | cons i rest ih => exact ih

theorem paired_markSeeded (indexes : List IndexName) : Paired (indexes.map .markSeeded) := by
  induction indexes with
  | nil => trivial
  | cons i rest ih => exact ih

theorem paired_rebuildCalls (indexes : List IndexName) : Paired (rebuildCalls indexes) := by
  induction indexes with
  | nil => trivial
  | cons i rest ih => exact ⟨⟨_, rfl⟩, ih⟩

theorem Paired.tail {call : SinkCall} {calls : List SinkCall} (h : Paired (call :: calls)) :
    Paired calls := by
  cases call with
  | reindex i => exact h.2
  | _ => exact h

theorem mem_rebuildCalls {indexes : List IndexName} {i : IndexName} :
    .reindex i ∈ rebuildCalls indexes ↔ i ∈ indexes := by
  simp [rebuildCalls]

theorem markSeeded_not_mem_rebuildCalls {indexes : List IndexName} {i : IndexName} :
    .markSeeded i ∉ rebuildCalls indexes := by
  simp [rebuildCalls]

/-- The first staging of a run with no resume point: nothing was requested yet. -/
def FirstStaging : EnginePhase V → Prop
  | .unstaged .fresh => True
  | .calling _ (.ensured .fresh) => True
  | .calling _ (.rebuilt .fresh) => True
  | .requesting _ (some .fresh) => True
  | _ => False

theorem firstStaging_of_restart {phase : EnginePhase V} {k : Continuity}
    (hk : phase.restart = some k) (h : FirstStaging (.unstaged k : EnginePhase V)) :
    FirstStaging phase := by
  cases k with
  | resumed => exact h.elim
  | fresh =>
    unfold EnginePhase.restart at hk
    split at hk
    · cases hk
    · cases hk
    · cases hk
      trivial
    · cases hk
      trivial
    · cases hk
      trivial
    · cases hk

/-- What staging, marking and reindexing keep of a sink. -/
structure Staging (o : EngineOptions) (s : SinkSide V) : Prop where
  ensured : ∀ i ∈ o.mappings, (∃ k, s.phase = .unstaged k) ∨
    (∃ calls next, s.phase = .calling calls next ∧ .ensureIndex i ∈ calls) ∨ (s.indexes i).Settled
  unsettled : ∀ i, ¬(s.indexes i).Settled → i ∉ s.outstanding
  outstanding : ∀ i ∈ s.outstanding, i ∈ o.mappings
  paired : ∀ calls next, s.phase = .calling calls next → Paired calls
  staging : ∀ calls next i, s.phase = .calling calls next → .reindex i ∈ calls →
    i ∈ o.mappings ∧ i ∉ s.outstanding
  marking : ∀ calls next i, s.phase = .calling calls next → .markSeeded i ∈ calls →
    ∃ t indexes, next = .seeded t indexes ∧ i ∈ indexes
  seeding : ∀ calls t indexes, s.phase = .calling calls (.seeded t indexes) → ∀ sc ∈ calls,
    ∃ i ∈ indexes, sc = .markSeeded i
  reindexed : ∀ calls staged, s.phase = .calling calls (.reindexed staged) →
    ∀ i ∈ staged, i ∈ o.mappings ∧ i ∉ s.outstanding
  requesting : ∀ indexes staging, s.phase = .requesting indexes staging →
    ∀ i ∈ indexes, i ∈ o.mappings ∧ i ∉ s.outstanding
  rebuilt : ∀ calls k, s.phase = .calling calls (.rebuilt k) → k = .fresh
  first : FirstStaging s.phase → s.outstanding = []

variable {o : EngineOptions} {s s' : SinkSide V} {sc : SinkCall} {i : IndexName}

/-- A call unsettles only the index it stages, and settles the one it ensures. -/
theorem settled_applyCall (h : s.applyCall sc = some s') (i : IndexName) :
    (s'.indexes i).Settled ∨ sc = .reindex i ∨
      ¬(s.indexes i).Settled ∧ sc ≠ .ensureIndex i := by
  have hkeep {j : IndexName} {state : IndexState} (hj : i ≠ j) :
      (Function.update s.indexes j state i).Settled ∨ ¬(s.indexes i).Settled := by
    rw [Function.update_of_ne hj]
    exact Classical.em _
  cases sc with
  | ensureIndex j =>
    cases h
    by_cases hj : i = j
    · subst hj
      simp only [Function.update_self]
      exact .inl IndexState.settled_ensureIndex
    · exact (hkeep hj).imp_right fun hnot => .inr ⟨hnot, by simpa using Ne.symm hj⟩
  | reindex j =>
    cases h
    by_cases hj : i = j
    · exact .inr (.inl (by rw [hj]))
    · exact (hkeep hj).imp_right fun hnot => .inr ⟨hnot, by simp⟩
  | markSeeded j =>
    obtain ⟨state, hstate, rfl⟩ := Option.map_eq_some_iff.mp h
    by_cases hj : i = j
    · subst hj
      simp only [Function.update_self]
      exact .inl (IndexState.settled_markSeeded hstate)
    · exact (hkeep hj).imp_right fun hnot => .inr ⟨hnot, by simp⟩

/-- No call moves the generation a settled index is written to. -/
theorem physical_applyCall (h : s.applyCall sc = some s') (hsettled : (s.indexes i).Settled) :
    (s'.indexes i).physical = (s.indexes i).physical := by
  have hkeep {j : IndexName} {state : IndexState}
      (hstate : i = j → state.physical = (s.indexes i).physical) :
      (Function.update s.indexes j state i).physical = (s.indexes i).physical := by
    by_cases hj : i = j
    · subst hj
      rw [Function.update_self]
      exact hstate rfl
    · rw [Function.update_of_ne hj]
  cases sc with
  | ensureIndex j =>
    cases h
    refine hkeep fun hj => ?_
    subst hj
    exact hsettled.physical_ensureIndex
  | reindex j =>
    cases h
    refine hkeep fun hj => ?_
    subst hj
    rfl
  | markSeeded j =>
    obtain ⟨state, hstate, rfl⟩ := Option.map_eq_some_iff.mp h
    refine hkeep fun hj => ?_
    subst hj
    exact IndexState.physical_markSeeded hstate

theorem Staging.settle (h : s.Staging o) (hindexes : s'.indexes = s.indexes)
    (houtstanding : ∀ i ∈ s'.outstanding, i ∈ s.outstanding)
    (hensured : ∀ i ∈ o.mappings, (s.indexes i).Settled)
    (hcalls : ∀ calls next, s'.phase ≠ .calling calls next)
    (hrequesting : ∀ indexes staging, s'.phase = .requesting indexes staging →
      ∀ i ∈ indexes, i ∈ o.mappings ∧ i ∉ s'.outstanding)
    (hfirst : FirstStaging s'.phase → FirstStaging s.phase) : s'.Staging o where
  ensured i hi := .inr (.inr (hindexes ▸ hensured i hi))
  unsettled i hi hmem := h.unsettled i (hindexes ▸ hi) (houtstanding i hmem)
  outstanding i hi := h.outstanding i (houtstanding i hi)
  paired calls next hphase := absurd hphase (hcalls calls next)
  staging calls next _ hphase := absurd hphase (hcalls calls next)
  marking calls next _ hphase := absurd hphase (hcalls calls next)
  seeding calls _ _ hphase := absurd hphase (hcalls calls _)
  reindexed calls _ hphase := absurd hphase (hcalls calls _)
  requesting := hrequesting
  rebuilt calls _ hphase := absurd hphase (hcalls calls _)
  first hp := List.eq_nil_iff_forall_not_mem.mpr fun i hi => by
    have hnil := h.first (hfirst hp)
    have hmem := houtstanding i hi
    rw [hnil] at hmem
    cases hmem

theorem Staging.unstage (h : s.Staging o) (hindexes : s'.indexes = s.indexes)
    (houtstanding : s'.outstanding = s.outstanding) {k : Continuity}
    (hphase : s'.phase = .unstaged k) (hfirst : k = .fresh → FirstStaging s.phase) :
    s'.Staging o where
  ensured i _ := .inl ⟨k, hphase⟩
  unsettled := by
    rw [hindexes, houtstanding]
    exact h.unsettled
  outstanding := by
    rw [houtstanding]
    exact h.outstanding
  paired calls next hp := by simp [hphase] at hp
  staging calls next i hp := by simp [hphase] at hp
  marking calls next i hp := by simp [hphase] at hp
  seeding calls t indexes hp := by simp [hphase] at hp
  reindexed calls staged hp := by simp [hphase] at hp
  requesting indexes staging hp := by simp [hphase] at hp
  rebuilt calls k hp := by simp [hphase] at hp
  first hp := by
    rw [houtstanding]
    refine h.first (hfirst ?_)
    rw [hphase] at hp
    cases k with
    | fresh => rfl
    | resumed => exact hp.elim

theorem Staging.begin (h : s.Staging o) (hindexes : s'.indexes = s.indexes)
    (houtstanding : s'.outstanding = s.outstanding) {calls : List SinkCall} {next : Next}
    (hphase : s'.phase = .calling calls next) (hpaired : Paired calls)
    (hensured : ∀ i ∈ o.mappings, (s.indexes i).Settled ∨ .ensureIndex i ∈ calls)
    (hstaging : ∀ i, .reindex i ∈ calls → i ∈ o.mappings ∧ i ∉ s.outstanding)
    (hmarking : ∀ i, .markSeeded i ∈ calls → ∃ t indexes, next = .seeded t indexes ∧ i ∈ indexes)
    (hseeding : ∀ t indexes, next = .seeded t indexes → ∀ sc ∈ calls, ∃ i ∈ indexes,
      sc = .markSeeded i)
    (hreindexed : ∀ staged, next = .reindexed staged →
      ∀ i ∈ staged, i ∈ o.mappings ∧ i ∉ s.outstanding)
    (hrebuilt : ∀ k, next = .rebuilt k → k = .fresh)
    (hfirst : FirstStaging s'.phase → s.outstanding = []) : s'.Staging o where
  ensured i hi := by
    rw [hindexes]
    exact .inr ((hensured i hi).symm.imp_left fun hmem => ⟨calls, next, hphase, hmem⟩)
  unsettled := by
    rw [hindexes, houtstanding]
    exact h.unsettled
  outstanding := by
    rw [houtstanding]
    exact h.outstanding
  paired calls' next' hp := by
    rw [hphase] at hp
    cases hp
    exact hpaired
  staging calls' next' i hp hmem := by
    rw [hphase] at hp
    cases hp
    rw [houtstanding]
    exact hstaging i hmem
  marking calls' next' i hp hmem := by
    rw [hphase] at hp
    cases hp
    exact hmarking i hmem
  seeding calls' t indexes hp := by
    rw [hphase] at hp
    cases hp
    exact hseeding t indexes rfl
  reindexed calls' staged hp := by
    rw [hphase] at hp
    cases hp
    rw [houtstanding]
    exact hreindexed staged rfl
  requesting indexes staging hp := by simp [hphase] at hp
  rebuilt calls' k hp := by
    rw [hphase] at hp
    cases hp
    exact hrebuilt k rfl
  first hp := by
    rw [houtstanding]
    exact hfirst hp

theorem Staging.settled (h : s.Staging o) (hunstaged : ∀ k, s.phase ≠ .unstaged k)
    (hcalls : ∀ calls next, s.phase = .calling calls next → calls = []) (hi : i ∈ o.mappings) :
    (s.indexes i).Settled := by
  rcases h.ensured i hi with ⟨k, hk⟩ | ⟨calls, next, hphase, hmem⟩ | hsettled
  · exact absurd hk (hunstaged k)
  · rw [hcalls calls next hphase] at hmem
    cases hmem
  · exact hsettled

theorem Staging.call (h : s.Staging o) {calls : List SinkCall} {next : Next} {side : SinkSide V}
    (hphase : s.phase = .calling (sc :: calls) next) (happly : s.applyCall sc = some side) :
    ({ side with phase := .calling calls next } : SinkSide V).Staging o := by
  have houtstanding : side.outstanding = s.outstanding := by rw [applyCall_frame happly]
  constructor
  · intro i hi
    rcases settled_applyCall happly i with hsettled | rfl | ⟨hnot, hne⟩
    · exact .inr (.inr hsettled)
    · obtain ⟨⟨rest, rfl⟩, -⟩ := h.paired _ _ hphase
      exact .inr (.inl ⟨_, next, rfl, List.mem_cons_self⟩)
    · rcases h.ensured i hi with ⟨k, hk⟩ | ⟨calls', next', hphase', hmem⟩ | hsettled
      · rw [hphase] at hk
        cases hk
      · rw [hphase] at hphase'
        cases hphase'
        refine .inr (.inl ⟨calls, next, rfl, ?_⟩)
        exact (List.mem_cons.mp hmem).resolve_left (Ne.symm hne)
      · exact absurd hsettled hnot
  · intro i hi
    simp only [houtstanding]
    rcases settled_applyCall happly i with hsettled | rfl | ⟨hnot, -⟩
    · exact absurd hsettled hi
    · exact (h.staging _ _ i hphase List.mem_cons_self).2
    · exact h.unsettled i hnot
  · simp only [houtstanding]
    exact h.outstanding
  · rintro calls' next' ⟨⟩
    exact (h.paired _ _ hphase).tail
  · rintro calls' next' i ⟨⟩ hmem
    simp only [houtstanding]
    exact h.staging _ _ i hphase (List.mem_cons_of_mem _ hmem)
  · rintro calls' next' i ⟨⟩ hmem
    exact h.marking _ _ i hphase (List.mem_cons_of_mem _ hmem)
  · rintro calls' t indexes ⟨⟩ sc' hmem
    exact h.seeding _ t indexes hphase sc' (List.mem_cons_of_mem _ hmem)
  · rintro calls' staged ⟨⟩
    simp only [houtstanding]
    exact h.reindexed _ staged hphase
  · rintro indexes staging ⟨⟩
  · rintro calls' k ⟨⟩
    exact h.rebuilt _ k hphase
  · intro hp
    simp only [houtstanding]
    refine h.first ?_
    rw [hphase]
    cases next with
    | ensured k => cases k <;> exact hp
    | rebuilt k => cases k <;> exact hp
    | _ => exact hp

theorem Staging.requestUnseeded (h : s.Staging o) (k : Continuity)
    (hensured : ∀ i ∈ o.mappings, (s.indexes i).Settled)
    (hfirst : k = .fresh → FirstStaging s.phase) : (s.requestUnseeded o k).Staging o := by
  rcases requestUnseeded_cases (o := o) (s := s) k with hreq | ⟨-, -, hreq⟩ <;> rw [hreq]
  · exact h.settle rfl (fun _ hi => hi) hensured (by simp) (by simp) fun hp => hp.elim
  · refine h.settle rfl (fun _ hi => hi) hensured (by simp) ?_ ?_
    · rintro indexes staging ⟨⟩ i hi
      obtain ⟨hmapped, hout⟩ := List.mem_filter.mp hi
      exact ⟨List.mem_of_mem_filter hmapped, by simpa using hout⟩
    · intro hp
      cases k with
      | fresh => exact hfirst rfl
      | resumed => exact hp.elim

theorem Staging.advance (h : s.Staging o) (hs : s.advance o = some s') : s'.Staging o := by
  have hsettled {next : Next} (hphase : s.phase = .calling [] next) :
      ∀ i ∈ o.mappings, (s.indexes i).Settled := fun i hi =>
    h.settled (by simp [hphase]) (fun calls next' hp => by rw [hphase] at hp; cases hp; rfl) hi
  rcases advance_cases hs with ⟨k, hphase, -, rfl⟩ | ⟨k, hphase, -, rfl, -, rfl⟩ |
    ⟨k, hphase, rfl⟩ | ⟨staged, hphase, ⟨-, rfl⟩ | ⟨-, rfl⟩⟩ | ⟨t, indexes, hphase, rfl⟩
  · exact h.settle rfl (fun _ hi => hi) (hsettled hphase) (by simp) (by simp) fun hp => hp.elim
  · have hnil : s.outstanding = [] := h.first (by rw [hphase]; trivial)
    refine h.begin rfl rfl rfl (paired_rebuildCalls _) (fun i hi => .inl (hsettled hphase i hi))
      (fun i hi => ?_) (fun i hi => absurd hi markSeeded_not_mem_rebuildCalls) (by simp) (by simp)
      (by rintro k ⟨⟩; rfl) fun _ => hnil
    rw [hnil]
    exact ⟨List.mem_of_mem_filter (mem_rebuildCalls.mp hi), List.not_mem_nil⟩
  · rcases hphase with ⟨hphase, -⟩ | hphase
    · refine h.requestUnseeded k (hsettled hphase) ?_
      rintro rfl
      rw [hphase]
      trivial
    · refine h.requestUnseeded k (hsettled hphase) ?_
      rintro rfl
      rw [hphase]
      trivial
  · exact h.settle rfl (fun _ hi => hi) (hsettled hphase) (by simp) (by simp) fun hp => hp.elim
  · refine h.settle rfl (fun _ hi => hi) (hsettled hphase) (by simp) ?_ fun hp => hp.elim
    rintro indexes staging ⟨⟩
    exact h.reindexed [] _ hphase
  · exact h.settle rfl (fun _ hi => List.mem_of_mem_filter hi) (hsettled hphase) (by simp)
      (by simp) fun hp => hp.elim

variable [DecidableEq V] [ValueText V]

theorem Staging.sideStep {a : EngineAction V} (h : s.Staging c.engine)
    (hs : Deployment.sideStep c s a = some s') : s'.Staging c.engine := by
  cases a with
  | stage =>
    obtain ⟨k, hphase, rfl⟩ := stage_cases hs
    refine h.begin rfl rfl rfl (paired_ensureIndex _) (fun i hi => .inr (List.mem_map_of_mem hi))
      (by simp) (by simp) (by simp) (by simp) (by simp) fun hp => h.first ?_
    rw [hphase]
    cases k <;> exact hp
  | call =>
    obtain ⟨call, calls, next, side, hphase, happly, rfl⟩ := call_cases hs
    exact h.call hphase happly
  | advance => exact h.advance hs
  | request => cases hs
  | start =>
    obtain ⟨hphase, rfl⟩ := start_cases hs
    exact h.settle rfl (fun _ hi => hi) (fun i => h.settled (by simp [hphase]) (by simp [hphase]))
      (by simp) (by simp) fun hp => hp.elim
  | recv =>
    obtain ⟨t, e, lane, hphase, -, ⟨n, indexes, -, rfl⟩ | ⟨-, rfl⟩⟩ := recv_cases hs
    · refine h.begin rfl rfl rfl (paired_markSeeded _)
        (fun i hi => .inl (h.settled (by simp [hphase]) (by simp [hphase]) hi)) (by simp)
        (fun i hi => ⟨t, indexes, rfl, by simpa using hi⟩) ?_ (by simp) (by simp)
        fun hp => hp.elim
      rintro t' indexes' ⟨⟩ sc hsc
      obtain ⟨i, hi, rfl⟩ := List.mem_map.mp hsc
      exact ⟨i, hi, rfl⟩
    · exact h.settle rfl (fun _ hi => hi) (fun i => h.settled (by simp [hphase]) (by simp [hphase]))
        (by simp) (by simp) fun hp => hp.elim
  | commit requests =>
    obtain ⟨t, e, hphase, -, -, -, rfl⟩ := commit_cases hs
    exact h.settle rfl (fun _ hi => hi) (fun i => h.settled (by simp [hphase]) (by simp [hphase]))
      (by simp) (by simp) fun hp => hp.elim
  | commitFail requests =>
    obtain ⟨t, e, hphase, -, -, rfl⟩ := commitFail_cases hs
    exact h.unstage rfl rfl rfl (by simp)
  | ack =>
    obtain ⟨t, hphase, rfl⟩ := ack_cases hs
    exact h.settle rfl (fun _ hi => hi) (fun i => h.settled (by simp [hphase]) (by simp [hphase]))
      (by simp) (by simp) fun hp => hp.elim
  | reindex indexes =>
    obtain ⟨hphase, ⟨-, rfl⟩ | ⟨-, staged, hstaged, rfl⟩⟩ := reindex_cases hs
    · exact h
    · refine h.begin rfl rfl rfl (paired_rebuildCalls _)
        (fun i hi => .inl (h.settled (by simp [hphase]) (by simp [hphase]) hi))
        (fun i hi => hstaged i (mem_rebuildCalls.mp hi))
        (fun i hi => absurd hi markSeeded_not_mem_rebuildCalls) (by simp) ?_ (by simp)
        fun hp => hp.elim
      rintro staged' ⟨⟩
      exact hstaged
  | fail =>
    have hfirst {k : Continuity} (hk : s.phase.restart = some k) :
        k = .fresh → FirstStaging s.phase := by
      rintro rfl
      exact firstStaging_of_restart hk trivial
    obtain ⟨k, hrestart, ⟨-, rfl⟩ | ⟨t, -, rfl⟩⟩ := fail_cases hs
    · exact h.unstage rfl rfl rfl (hfirst hrestart)
    · exact h.unstage rfl rfl rfl (hfirst hrestart)

theorem indexes_sideStep {a : EngineAction V} (hs : Deployment.sideStep c s a = some s') :
    s'.backfill = s.backfill ∧ (s'.indexes = s.indexes ∧ s'.stale = s.stale ∨
      ∃ sc calls next side, s.phase = .calling (sc :: calls) next ∧
        s.applyCall sc = some side ∧ s' = { side with phase := .calling calls next }) := by
  cases a with
  | stage =>
    obtain ⟨k, -, rfl⟩ := stage_cases hs
    exact ⟨rfl, .inl ⟨rfl, rfl⟩⟩
  | call =>
    obtain ⟨sc, calls, next, side, hphase, happly, rfl⟩ := call_cases hs
    refine ⟨?_, .inr ⟨sc, calls, next, side, hphase, happly, rfl⟩⟩
    change side.backfill = s.backfill
    rw [applyCall_frame happly]
  | advance =>
    rcases advance_cases hs with ⟨k, -, -, rfl⟩ | ⟨k, -, -, -, -, rfl⟩ | ⟨k, -, rfl⟩ |
      ⟨staged, -, ⟨-, rfl⟩ | ⟨-, rfl⟩⟩ | ⟨t, indexes, -, rfl⟩
    case inr.inr.inl =>
      rcases requestUnseeded_cases (o := c.engine) (s := s) k with hreq | ⟨-, -, hreq⟩ <;> rw [hreq]
      · exact ⟨rfl, .inl ⟨rfl, rfl⟩⟩
      · exact ⟨rfl, .inl ⟨rfl, rfl⟩⟩
    all_goals exact ⟨rfl, .inl ⟨rfl, rfl⟩⟩
  | request => cases hs
  | start =>
    obtain ⟨-, rfl⟩ := start_cases hs
    exact ⟨rfl, .inl ⟨rfl, rfl⟩⟩
  | recv =>
    obtain ⟨t, e, lane, -, -, ⟨n, indexes, -, rfl⟩ | ⟨-, rfl⟩⟩ := recv_cases hs
    · exact ⟨rfl, .inl ⟨rfl, rfl⟩⟩
    · exact ⟨rfl, .inl ⟨rfl, rfl⟩⟩
  | commit requests =>
    obtain ⟨t, e, -, -, -, -, rfl⟩ := commit_cases hs
    exact ⟨rfl, .inl ⟨rfl, rfl⟩⟩
  | commitFail requests =>
    obtain ⟨t, e, -, -, -, rfl⟩ := commitFail_cases hs
    exact ⟨rfl, .inl ⟨rfl, rfl⟩⟩
  | ack =>
    obtain ⟨t, -, rfl⟩ := ack_cases hs
    exact ⟨rfl, .inl ⟨rfl, rfl⟩⟩
  | reindex indexes =>
    obtain ⟨-, ⟨-, rfl⟩ | ⟨-, staged, -, rfl⟩⟩ := reindex_cases hs
    · exact ⟨rfl, .inl ⟨rfl, rfl⟩⟩
    · exact ⟨rfl, .inl ⟨rfl, rfl⟩⟩
  | fail =>
    obtain ⟨k, -, ⟨-, rfl⟩ | ⟨t, -, rfl⟩⟩ := fail_cases hs
    · exact ⟨rfl, .inl ⟨rfl, rfl⟩⟩
    · exact ⟨rfl, .inl ⟨rfl, rfl⟩⟩

/-- A step of the engine keeps the generation a settled index is written to. -/
theorem physical_sideStep {a : EngineAction V} (hs : Deployment.sideStep c s a = some s')
    (hsettled : (s.indexes i).Settled) : (s'.indexes i).physical = (s.indexes i).physical := by
  rcases (indexes_sideStep hs).2 with ⟨hindexes, -⟩ | ⟨sc, calls, next, side, -, happly, rfl⟩
  · rw [hindexes]
  · change (side.indexes i).physical = _
    exact physical_applyCall happly hsettled

end SinkSide

namespace Deployment

variable {d : Deployment V} {a : Action V} {sink : SinkName} [DecidableEq V] [ValueText V]

theorem SideMove.staging {side : SinkSide V} (hm : SideMove c d sink a side)
    (h : (d.sinks sink).Staging c.engine) : side.Staging c.engine := by
  cases hm with
  | same => exact h
  | slotCreated => exact { h with }
  | engine _ _ hside => exact h.sideStep hside
  | @requested indexes staging _ _ hphase _ =>
    have hsettled : ∀ i ∈ c.engine.mappings, ((d.sinks sink).indexes i).Settled := fun i =>
      h.settled (by simp [hphase]) (by simp [hphase])
    have hnew : ∀ i ∈ ((d.sinks sink).requested indexes staging).outstanding,
        i ∈ (d.sinks sink).outstanding ∨ i ∈ c.engine.mappings := fun i hi =>
      (mem_insertNew.mp hi).imp_right fun hi => (h.requesting indexes staging hphase i hi).1
    have hphase' : ((d.sinks sink).requested indexes staging).phase = .staged ∨
        ((d.sinks sink).requested indexes staging).phase = .running := by
      simp only [SinkSide.requested]
      split
      · exact .inl rfl
      · exact .inr rfl
    refine ⟨fun i hi => .inr (.inr (hsettled i hi)), fun i hi hmem => ?_, fun i hi => ?_,
      ?_, ?_, ?_, ?_, ?_, ?_, ?_, ?_⟩
    · rcases hnew i hmem with hold | hmapped
      · exact h.unsettled i hi hold
      · exact hi (hsettled i hmapped)
    · exact (hnew i hi).elim (h.outstanding i) id
    all_goals rcases hphase' with hphase' | hphase' <;> simp [hphase', SinkSide.FirstStaging]
  | published _ _ hside =>
    obtain ⟨lane, -, rfl⟩ := SinkSide.publish_cases hside
    exact { h with }

omit [DecidableEq V] [ValueText V] in
theorem Initial.staging (h : d.Initial c) (sink : SinkName) :
    (d.sinks sink).Staging c.engine := by
  constructor
  · exact fun i _ => .inl ⟨_, h.phase sink⟩
  all_goals simp [h.phase, h.outstanding]

theorem staging_of_reachable (h : (daemon V c).Reachable d) (sink : SinkName) :
    (d.sinks sink).Staging c.engine := by
  refine Transition.Machine.Reachable.invariant (m := daemon V c)
    (P := fun d => (d.sinks sink).Staging c.engine) (fun d hd => hd.staging sink)
    (fun d a d' _ hp hs => ?_) h
  exact (sideMove_of_step hs sink).staging hp

end Deployment

end Flusso
