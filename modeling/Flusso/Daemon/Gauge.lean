import Flusso.Daemon.Observed
import Flusso.Daemon.Watermark
import Mathlib.Algebra.BigOperators.Group.List.Defs
import Mathlib.Algebra.Order.Ring.Nat
import Mathlib.Algebra.Order.Sub.Basic
import Mathlib.Data.List.Dedup
import Mathlib.Data.List.Perm.Subperm

/-! # Changes in flight

The gauge is what was captured less what the slowest sink committed. Every count
is the length of a list in the history, so the gauge bounds what is uncommitted
as long as no source change is captured twice.
-/

namespace Flusso

variable {V : Type*} {c : Config}

section Tallies

/-- How many captures an event reports. -/
def ObserverEvent.captures : ObserverEvent → ℕ
  | .changeCaptured => 1
  | _ => 0

/-- How many changes an event reports as committed by the sink. -/
def ObserverEvent.commits (sink : SinkName) : ObserverEvent → ℕ
  | .batchCommitted sink' changes _ => if sink' = sink then changes else 0
  | _ => 0

theorem SinkStatus.changesCommitted_hear {sink : SinkName} {s : SinkStatus} (e : ObserverEvent) :
    (s.hear sink e).changesCommitted = s.changesCommitted + e.commits sink := by
  have hsame {other : SinkName} {s' : SinkStatus} (h : s'.changesCommitted = s.changesCommitted) :
      (if other = sink then s' else s).changesCommitted = s.changesCommitted := by
    split_ifs
    · exact h
    · rfl
  cases e with
  | batchCommitted other changes envelopes =>
    simp only [hear, ObserverEvent.commits]
    split_ifs <;> rfl
  | sinkStarted other =>
    apply hsame
    unfold started
    split_ifs <;> rfl
  | engineError engine =>
    cases engine with
    | ingest => rfl
    | sink name => exact hsame rfl
  | engineStopped engine =>
    cases engine with
    | ingest => rfl
    | sink name => exact hsame rfl
  | liveStarted => rfl
  | changeCaptured => rfl
  | _ => exact hsame rfl

namespace Status

variable {s : Status} {sink : SinkName}

theorem changesCaptured_observe (e : ObserverEvent) :
    (s.observe e).changesCaptured = s.changesCaptured + e.captures := by
  cases e with
  | engineError engine => cases engine <;>
      simp [observe, recordError, markIngestFailed, markSinkFailed, ObserverEvent.captures]
  | engineStopped engine => cases engine <;>
      simp [observe, markSinkStopped, ObserverEvent.captures]
  | _ => simp [observe, markIngestLive, recordCapture, markBackfilling, markSeeded,
      markSinkStarted, recordCommit, recordQuarantine, ObserverEvent.captures]

theorem changesCaptured_foldl (events : List ObserverEvent) :
    (events.foldl observe s).changesCaptured =
      s.changesCaptured + (events.map ObserverEvent.captures).sum := by
  induction events generalizing s with
  | nil => rfl
  | cons e events ih =>
    rw [List.foldl_cons, ih, changesCaptured_observe, List.map_cons, List.sum_cons, Nat.add_assoc]

theorem changesCommitted_foldl (hsink : sink ∈ s.sinkNames) (events : List ObserverEvent) :
    ((events.foldl observe s).sinks sink).changesCommitted =
      (s.sinks sink).changesCommitted + (events.map (ObserverEvent.commits sink)).sum := by
  rw [sinks_foldl hsink]
  generalize s.sinks sink = entry
  induction events generalizing entry with
  | nil => rfl
  | cons e events ih =>
    rw [List.foldl_cons, ih, SinkStatus.changesCommitted_hear, List.map_cons, List.sum_cons,
      Nat.add_assoc]

end Status

end Tallies

/-- The source change an action captures. -/
def ObservedAction.captures : ObservedAction V → Option ℕ
  | .act (.ingest (.change _ _ _ _)) change => some change
  | .resolveFails change => some change
  | _ => none

namespace Observed

variable {w w' : Observed V}

section Mirror

/-- The history mirrors the daemon: the batch being filled, the entries on the lanes and those
at hand cover as many changes as they say. -/
structure Mirrors (w : Observed V) : Prop where
  batch : w.batch.length = w.daemon.ingest.pending.count
  lanes : ∀ sink, List.Forall₂ (fun entry changes => entry.changes = changes.length)
    (w.daemon.sinks sink).log (w.lanes sink)
  todo : ∀ todo after, w.daemon.ingest.phase = .publishing todo after → ∀ entry ∈ todo,
    entry.2.changes = w.atHand.length

theorem changes_markers {snapshot : Snapshot V} {entry : SinkName × Entry V}
    (h : entry ∈ Deployment.toLanes c snapshot.markers) : entry.2.changes = 0 := by
  obtain ⟨sink, e⟩ := entry
  obtain ⟨indexes, -, rfl⟩ := Snapshot.mem_markers.mp (List.mem_of_mem_filter h)
  rfl

theorem changes_slices {snapshot : Snapshot V} {documents : List (Document V)}
    {entry : SinkName × Entry V} (h : entry ∈ Deployment.toLanes c (snapshot.slices documents)) :
    entry.2.changes = 0 := by
  obtain ⟨sink, e⟩ := entry
  obtain ⟨indexes, -, rfl, -⟩ := Snapshot.mem_slices.mp (List.mem_of_mem_filter h)
  rfl

theorem Mirrors.lane (h : Mirrors w) {sink : SinkName} {t : ℕ} {entry : Entry V}
    (hentry : (w.daemon.sinks sink).log[t]? = some entry) :
    ((w.lanes sink)[t]?.getD []).length = entry.changes := by
  obtain ⟨ht, hget⟩ := List.getElem?_eq_some_iff.mp hentry
  have hlanes := h.lanes sink
  have ht' : t < (w.lanes sink).length := hlanes.length_eq ▸ ht
  have hrelated := hlanes.get ht ht'
  simp only [List.get_eq_getElem] at hrelated
  rw [hget] at hrelated
  rw [List.getElem?_eq_getElem ht', Option.getD_some]
  exact hrelated.symm

theorem Mirrors.frame (h : Mirrors w) (hbatch : w'.batch = w.batch) (hlanes : w'.lanes = w.lanes)
    (hcount : w'.daemon.ingest.pending.count = w.daemon.ingest.pending.count)
    (hlog : ∀ s, (w'.daemon.sinks s).log = (w.daemon.sinks s).log)
    (htodo : ∀ todo after, w'.daemon.ingest.phase = .publishing todo after → ∀ entry ∈ todo,
      entry.2.changes = w'.atHand.length) : Mirrors w' where
  batch := by rw [hbatch, hcount, h.batch]
  lanes s := by
    rw [hlanes, hlog]
    exact h.lanes s
  todo := htodo

theorem Mirrors.snapshot (h : Mirrors w) (hbatch : w'.batch = w.batch)
    (hlanes : w'.lanes = w.lanes)
    (hcount : w'.daemon.ingest.pending.count = w.daemon.ingest.pending.count)
    (hsinks : w'.daemon.sinks = w.daemon.sinks)
    (htodo : ∀ todo after, w'.daemon.ingest.phase = .publishing todo after →
      after ≠ .live ∧ ∀ entry ∈ todo, entry.2.changes = 0) : Mirrors w' := by
  apply h.frame hbatch hlanes hcount (fun s => by rw [hsinks])
  intro todo after hphase entry hentry
  obtain ⟨hafter, hzero⟩ := htodo todo after hphase
  rw [hzero entry hentry]
  unfold atHand
  rw [hphase]
  cases after with
  | live => exact absurd rfl hafter
  | _ => rfl

variable [DecidableEq V] [ValueText V] {a : Action V} {change : ℕ}

theorem Mirrors.act (h : Mirrors w) (ho : ∀ s, (w.daemon.sinks s).OnLane)
    (hs : w.act c a change = some w') : Mirrors w' := by
  obtain ⟨d, hd, rfl⟩ := act_cases hs
  cases Deployment.move_of_step hd with
  | slot slot ha => rcases ha with rfl | rfl <;> exact h.frame rfl rfl rfl (fun _ => rfl) h.todo
  | spawn => exact h.frame rfl rfl rfl (fun _ => rfl) h.todo
  | prepare => exact h.frame rfl rfl rfl Deployment.log_ensureSlot (by simp)
  | live => exact h.frame rfl rfl rfl Deployment.log_ensureSlot (by simp)
  | change => exact ⟨by simp [batchAfter, h.batch], h.lanes, by simp⟩
  | idle => exact h.frame rfl rfl rfl (fun _ => rfl) h.todo
  | endLive => exact h.frame rfl rfl rfl (fun _ => rfl) h.todo
  | commitLive hphase _ =>
    refine h.frame rfl rfl rfl (fun _ => rfl) ?_
    rintro todo after ⟨⟩ entry hentry
    obtain ⟨sink, -, rfl⟩ := List.mem_map.mp hentry
    exact h.batch.symm
  | takeRequest => exact h.snapshot rfl rfl rfl rfl (by simp)
  | collect => exact h.snapshot rfl rfl rfl rfl (by simp)
  | startSnapshot _ hnext =>
    refine h.snapshot rfl rfl rfl rfl ?_
    rcases hnext with ⟨rfl, -⟩ | rfl
    · rintro todo after ⟨⟩
      exact ⟨by simp, fun entry => changes_markers⟩
    · simp
  | row hphase => exact h.snapshot rfl rfl rfl rfl (by simp [hphase])
  | rowCommit =>
    refine h.snapshot rfl rfl rfl rfl ?_
    rintro todo after ⟨⟩
    exact ⟨by simp, fun entry => changes_slices⟩
  | endSnapshot =>
    refine h.snapshot rfl rfl rfl rfl ?_
    rintro todo after ⟨⟩
    exact ⟨by simp, fun entry => changes_markers⟩
  | endSnapshotCommit =>
    refine h.snapshot rfl rfl rfl rfl ?_
    rintro todo after ⟨⟩
    exact ⟨by simp, fun entry => changes_slices⟩
  | @publish sink todo after entry side hphase hmem hside =>
    obtain ⟨lane, -, rfl⟩ := SinkSide.publish_cases hside
    refine ⟨h.batch, fun s => ?_, ?_⟩
    · have hlane := h.lanes s
      simp only [lanesAfter]
      by_cases hsink : s = sink
      · subst hsink
        simp only [Function.update_self]
        exact List.rel_append hlane (.cons (h.todo todo after hphase _ hmem) .nil)
      · simp only [Function.update_of_ne hsink]
        exact hlane
    · rintro todo' after' ⟨⟩ e he
      have hkept := h.todo todo after hphase e (List.mem_of_mem_filter he)
      simp only [atHand, hphase] at hkept
      cases after <;> exact hkept
  | publishedLive hphase => exact ⟨by simp [batchAfter, hphase], h.lanes, by simp⟩
  | publishedSlice _ hphase =>
    exact h.snapshot (by simp [batchAfter, hphase]) rfl rfl rfl (by simp)
  | publishedLastSlice _ hphase =>
    refine h.snapshot (by simp [batchAfter, hphase]) rfl rfl rfl ?_
    rintro todo after ⟨⟩
    exact ⟨by simp, fun entry => changes_markers⟩
  | publishedMarkers _ hphase =>
    exact h.snapshot (by simp [batchAfter, hphase]) rfl rfl rfl (by simp)
  | ackRequest => exact h.snapshot rfl rfl rfl rfl (by simp)
  | finished => exact h.snapshot rfl rfl rfl rfl (by simp)
  | confirm => exact h.frame rfl rfl rfl (fun _ => rfl) h.todo
  | stop => exact h.snapshot rfl rfl rfl rfl (by simp)
  | fail => exact ⟨rfl, h.lanes, by simp [Ingest.down]⟩
  | request => exact h.frame rfl rfl rfl (Deployment.log_update rfl) h.todo
  | @engine sink b side _ _ hside =>
    have hlog := Deployment.log_update (Deployment.log_sideStep (ho sink) hside)
    exact h.frame rfl rfl rfl hlog h.todo

theorem Mirrors.step {b : ObservedAction V} (h : Mirrors w)
    (ho : ∀ s, (w.daemon.sinks s).OnLane) (hs : w.step c b = some w') : Mirrors w' := by
  cases b with
  | act a change => exact h.act ho hs
  | resolveFails change =>
    obtain ⟨d, -, hd, rfl⟩ := resolveFails_cases hs
    obtain ⟨-, -, rfl⟩ := Deployment.ingestFail_cases hd
    exact ⟨rfl, h.lanes, by simp [Ingest.down]⟩

omit [DecidableEq V] [ValueText V] in
theorem Initial.mirrors (h : w.Initial c) : Mirrors w where
  batch := by
    rw [h.batch, h.daemon.ingest]
    rfl
  lanes s := by
    rw [h.lanes, h.daemon.log]
    exact .nil
  todo := by simp [h.daemon.ingest, Ingest.down]

end Mirror

section Tally

/-- The counters are the lengths of the histories. -/
structure Tallied (c : Config) (w : Observed V) : Prop where
  captured : w.status.changesCaptured = w.captured.length
  committed : ∀ sink ∈ c.sinks, (w.status.sinks sink).changesCommitted = (w.committed sink).length

variable [ValueText V] {a : Action V} {change : ℕ} {d : Deployment V}

theorem captures_sideEvents {sink : SinkName} {s s' : SinkSide V} {a : EngineAction V} :
    ((sideEvents sink s s' a).map ObserverEvent.captures).sum = 0 := by
  unfold sideEvents
  repeat' split
  all_goals simp [ObserverEvent.captures]

theorem captures_events :
    w.captured.length + ((events w.daemon d a).map ObserverEvent.captures).sum =
      (w.capturedAfter change a).length := by
  cases a with
  | ingest a => cases a <;> simp [events, capturedAfter, ObserverEvent.captures]
  | engine sink a => exact congrArg _ captures_sideEvents
  | _ => rfl

theorem commits_commit {sink other : SinkName} {s s' : SinkSide V}
    {requests : List (BulkRequest V)} :
    ((sideEvents other s s' (.commit requests)).map (ObserverEvent.commits sink)).sum =
      match s.phase with
      | .processing _ entry => if other = sink then entry.changes else 0
      | _ => 0 := by
  cases hphase : s.phase with
  | processing ticket entry => simp [sideEvents, hphase, ObserverEvent.commits]
  | _ => simp [sideEvents, hphase]

theorem commits_sideEvents {sink other : SinkName} {s s' : SinkSide V} {a : EngineAction V}
    (h : ∀ requests, a ≠ .commit requests) :
    ((sideEvents other s s' a).map (ObserverEvent.commits sink)).sum = 0 := by
  unfold sideEvents
  repeat' split
  all_goals simp [ObserverEvent.commits]
  exact absurd rfl (h _)

theorem commits_events {sink : SinkName} (h : Mirrors w) (ho : ∀ s, (w.daemon.sinks s).OnLane) :
    (w.committed sink).length + ((events w.daemon d a).map (ObserverEvent.commits sink)).sum =
      (w.committedAfter a sink).length := by
  cases a with
  | ingest a => cases a <;> simp [events, committedAfter, ObserverEvent.commits]
  | engine other a =>
    cases a with
    | commit requests =>
      simp only [events, commits_commit, committedAfter]
      cases hphase : (w.daemon.sinks other).phase with
      | processing ticket entry =>
        have hentry := ((ho other).processing ticket entry hphase).1
        by_cases hs : sink = other
        · subst hs
          simp only [if_true, Function.update_self, List.length_append, h.lane hentry]
        · simp only [if_neg (Ne.symm hs), Function.update_of_ne hs, Nat.add_zero]
      | _ => rfl
    | _ =>
      rw [events, commits_sideEvents]
      · rfl
      · simp
  | _ => rfl

variable [DecidableEq V]

theorem Tallied.step {b : ObservedAction V} (h : Tallied c w) (hm : Mirrors w)
    (ho : ∀ s, (w.daemon.sinks s).OnLane) (hnames : w.status.sinkNames = c.sinks)
    (hs : w.step c b = some w') : Tallied c w' := by
  cases b with
  | act a change =>
    obtain ⟨d, hd, rfl⟩ := act_cases hs
    constructor
    · rw [Status.changesCaptured_foldl, h.captured]
      exact captures_events
    · intro sink hsink
      rw [Status.changesCommitted_foldl (hnames ▸ hsink), h.committed sink hsink]
      exact commits_events hm ho
  | resolveFails change =>
    obtain ⟨d, -, -, rfl⟩ := resolveFails_cases hs
    constructor
    · rw [Status.changesCaptured_foldl, h.captured, List.length_append]
      rfl
    · intro sink hsink
      rw [Status.changesCommitted_foldl (hnames ▸ hsink), h.committed sink hsink]
      rfl

theorem tallied_of_reachable {ok : Observed V → ObservedAction V → Prop}
    (h : (observed V c).ReachableWith ok w) : Mirrors w ∧ Tallied c w := by
  refine Transition.Machine.ReachableWith.invariant (m := observed V c)
    (P := fun w => Mirrors w ∧ Tallied c w) (fun w hw => ⟨hw.mirrors, ?_⟩) ?_ h
  · constructor
    · rw [hw.status, hw.captured]
      rfl
    · intro sink _
      rw [hw.status, hw.committed]
      rfl
  · rintro w a w' hr ⟨hm, ht⟩ - hs
    have ho := Deployment.onLane_of_reachable (daemon_of_reachable hr)
    exact ⟨hm.step ho hs, ht.step hm ho (sinkNames_of_reachable hr) hs⟩

end Tally

section Uncommitted

/-- The source has not delivered the change before. -/
def FirstCapture (w : Observed V) (a : ObservedAction V) : Prop :=
  ∀ change ∈ a.captures, change ∉ w.captured

instance (w : Observed V) : DecidablePred w.FirstCapture := fun a =>
  inferInstanceAs (Decidable (∀ change ∈ a.captures, change ∉ w.captured))

/-- The captured changes some sink has not committed. -/
def uncommitted (c : Config) (w : Observed V) : List ℕ :=
  w.captured.dedup.filter fun change => c.sinks.any fun sink => change ∉ w.committed sink

theorem mem_uncommitted {change : ℕ} : change ∈ w.uncommitted c ↔
    change ∈ w.captured ∧ ∃ sink ∈ c.sinks, change ∉ w.committed sink := by
  simp [uncommitted]

variable [DecidableEq V] [ValueText V]

theorem FirstCapture.nodup {b : ObservedAction V} (h : w.captured.Nodup) (hb : w.FirstCapture b)
    (hs : w.step c b = some w') : w'.captured.Nodup := by
  have hcons {change : ℕ} (hnew : change ∉ w.captured) : (w.captured ++ [change]).Nodup := by
    rw [← List.concat_eq_append]
    exact h.concat hnew
  cases b with
  | act a change =>
    obtain ⟨d, -, rfl⟩ := act_cases hs
    simp only [capturedAfter]
    split
    · exact hcons (hb change rfl)
    · exact h
  | resolveFails change =>
    obtain ⟨d, -, -, rfl⟩ := resolveFails_cases hs
    exact hcons (hb change rfl)

theorem nodup_of_reachable (h : (observed V c).ReachableWith FirstCapture w) :
    w.captured.Nodup := by
  refine Transition.Machine.ReachableWith.invariant (m := observed V c)
    (P := fun w => w.captured.Nodup) (fun w hw => ?_) ?_ h
  · rw [hw.captured]
    exact .nil
  · intro w a w' _ hp ha hs
    exact ha.nodup hp hs

omit [DecidableEq V] [ValueText V] in
/-- One sink's flushes and what some sink has not committed cover the captures. -/
theorem length_captured_le (h : w.captured.Nodup) {sink : SinkName} (hsink : sink ∈ c.sinks) :
    w.captured.length ≤ (w.committed sink).length + (w.uncommitted c).length := by
  rw [← List.length_append]
  refine (List.subperm_of_subset h fun change hchange => ?_).length_le
  by_cases hdone : change ∈ w.committed sink
  · exact List.mem_append_left _ hdone
  · exact List.mem_append_right _ (mem_uncommitted.mpr ⟨hchange, sink, hsink, hdone⟩)

omit [DecidableEq V] [ValueText V] in
theorem Tallied.inFlight_le (h : Tallied c w) (hnames : w.status.sinkNames = c.sinks)
    (hnodup : w.captured.Nodup) : w.status.inFlight ≤ (w.uncommitted c).length := by
  unfold Status.inFlight
  rw [hnames, h.captured]
  cases hmin : (c.sinks.map fun sink => (w.status.sinks sink).changesCommitted).min? with
  | none => simp
  | some slowest =>
    obtain ⟨sink, hsink, rfl⟩ := List.mem_map.mp (List.min?_mem hmin)
    have hcovered := length_captured_le hnodup hsink
    rw [Option.getD_some, h.committed sink hsink]
    omega

/-- While no source change is captured twice, the gauge is at most the number of captured
changes some sink has not committed, so zero when every sink committed all of them. -/
theorem inFlight_of_reachable (h : (observed V c).ReachableWith FirstCapture w) :
    ((∀ change ∈ w.captured, ∀ sink ∈ c.sinks, change ∈ w.committed sink) →
      w.status.inFlight = 0) ∧ w.status.inFlight ≤ (w.uncommitted c).length := by
  have hle := (tallied_of_reachable h).2.inFlight_le (sinkNames_of_reachable h)
    (nodup_of_reachable h)
  refine ⟨fun hall => ?_, hle⟩
  have hnone : w.uncommitted c = [] := by
    rw [List.eq_nil_iff_forall_not_mem]
    intro change hmem
    obtain ⟨hcaptured, sink, hsink, hnot⟩ := mem_uncommitted.mp hmem
    exact hnot (hall change hcaptured sink hsink)
  rw [hnone] at hle
  exact Nat.eq_zero_of_le_zero hle

/-- Two sinks get a batch of two changes, and one of them has flushed it. -/
theorem inFlight_of_one_committed :
    ∃ w : Observed String, w.status.inFlight = 2 ∧
      ((∀ change ∈ w.captured, ∀ sink ∈ [(⟨"left"⟩ : SinkName), ⟨"right"⟩],
        change ∈ w.committed sink) → w.status.inFlight = 0) ∧
      w.status.inFlight ≤ (w.uncommitted (.mirror [⟨"left"⟩, ⟨"right"⟩] (by decide) 2 2)).length := by
  let left : SinkName := ⟨"left"⟩
  let right : SinkName := ⟨"right"⟩
  let id : DocumentId String := ⟨⟨"users"⟩, [(⟨"id"⟩, "1")]⟩
  let document : Document String := .upsert id "a"
  let c : Config := .mirror [left, right] (by decide) 2 2
  let change (n : ℕ) : ObservedAction String := .act (.ingest (.change ⟨"users"⟩ id.key [] 10)) n
  let stage (sink : SinkName) : List (ObservedAction String) :=
    [.stage, .call, .advance].map fun a => .act (.engine sink a) 0
  let run : List (ObservedAction String) := List.flatten
    [stage left, stage right, [.act .spawn 0],
    [.prepare, .live].map (fun a => .act (.ingest a) 0), [change 0, change 1],
    [.commitLive [document], .publish left, .publish right, .published].map
      (fun a => .act (.ingest a) 0),
    [.start, .recv, .commit [⟨[], [document.envelope (some 1)], []⟩]].map
      (fun a => .act (.engine left a) 0)]
  let start : Observed String := atStart c
    (.comeUp String c .missing (fun _ => false) fun _ _ => .absent)
  obtain ⟨w, hrun, hinFlight⟩ := Transition.Machine.exists_of_run (m := observed String c)
    (s := start) (t := run) (p := fun w => w.status.inFlight = 2) (by decide +kernel)
  have heach : (observed String c).Each FirstCapture start run := by decide +kernel
  exact ⟨w, hinFlight, inFlight_of_reachable (reachable_atStart.run heach hrun)⟩

/-- A change captured before the ingest engine fails is delivered again: it is counted twice
and committed once, so the gauge stays at one. -/
theorem not_inFlight_of_recapture :
    ¬ ∀ w : Observed String, (observed String (.mirror [⟨"left"⟩] (by decide) 2 2)).Reachable w →
      ((∀ change ∈ w.captured, ∀ sink ∈ [(⟨"left"⟩ : SinkName)], change ∈ w.committed sink) →
        w.status.inFlight = 0) ∧
      w.status.inFlight ≤ (w.uncommitted (.mirror [⟨"left"⟩] (by decide) 2 2)).length := by
  let left : SinkName := ⟨"left"⟩
  let id : DocumentId String := ⟨⟨"users"⟩, [(⟨"id"⟩, "1")]⟩
  let document : Document String := .upsert id "a"
  let c : Config := .mirror [left] (by decide) 2 2
  let change : ObservedAction String := .act (.ingest (.change ⟨"users"⟩ id.key [] 10)) 0
  let up : List (ObservedAction String) := [.prepare, .live].map fun a => .act (.ingest a) 0
  let run : List (ObservedAction String) := List.flatten
    [[.stage, .call, .advance].map (fun a => .act (.engine left a) 0), [.act .spawn 0],
    up, [change, .act (.ingest .fail) 0], up, [change],
    [.commitLive [document], .publish left, .published].map (fun a => .act (.ingest a) 0),
    [.start, .recv, .commit [⟨[], [document.envelope (some 1)], []⟩], .ack].map
      (fun a => .act (.engine left a) 0)]
  obtain ⟨w, hrun, hcommitted, hinFlight⟩ := Transition.Machine.exists_of_run
    (m := observed String c)
    (s := atStart c (.comeUp String c .missing (fun _ => false) fun _ _ => .absent)) (t := run)
    (p := fun w => (∀ change ∈ w.captured, ∀ sink ∈ [(⟨"left"⟩ : SinkName)],
      change ∈ w.committed sink) ∧ w.status.inFlight = 1) (by decide +kernel)
  intro hall
  have hzero := (hall w (.run reachable_atStart hrun)).1 hcommitted
  rw [hinFlight] at hzero
  exact absurd hzero (by decide)

end Uncommitted

end Observed

end Flusso
