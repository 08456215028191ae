import Flusso.Daemon.Lanes
import Flusso.Foundation.LastWrite

/-! # Convergence of a sink

A failed flush may have executed any part of the item it was for, and only of
that item: redelivery starts from it. So a document's last write is the one
published last among the acknowledged items, or one of the item being retried,
which the next flush that returns overrides.
-/

namespace Flusso

open LastWrite

variable {V : Type*} [DecidableEq V] [ValueText V] {c : Config}

/-- The sink document an envelope writes. -/
def Envelope.target (e : Envelope V) : IndexName × String := (e.index, e.id)

section Requests

variable {requests : List (BulkRequest V)} {k : IndexName × String}

omit [ValueText V] in
theorem BulkRequest.Valid.executed_subset {r : BulkRequest V} (h : r.Valid) :
    ∀ e ∈ r.executed, e ∈ r.actions := by
  intro e he
  rcases List.mem_append.mp he with he | he
  · exact h.1 e he
  · exact List.mem_of_mem_filter he

omit [ValueText V] in
theorem executed_subset (h : ∀ r ∈ requests, r.Valid) :
    ∀ e ∈ requests.flatMap BulkRequest.executed, e ∈ requests.flatMap BulkRequest.actions := by
  intro e he
  obtain ⟨r, hr, he⟩ := List.mem_flatMap.mp he
  exact List.mem_flatMap.mpr ⟨r, hr, (h r hr).executed_subset e he⟩

omit [ValueText V] in
/-- With nothing rejected, repeated attempts leave the writes of the requests themselves. -/
theorem last_executed (h : ∀ r ∈ requests, r.Valid) (hclean : ∀ r ∈ requests, r.rejected = []) :
    last Envelope.target k (requests.flatMap BulkRequest.executed) =
      last Envelope.target k (requests.flatMap BulkRequest.actions) := by
  refine last_flatMap_congr fun r hr => ?_
  have hall : r.executed = r.retried ++ r.actions := by
    simp [BulkRequest.executed, hclean r hr]
  rw [hall]
  exact last_append_of_subset (h r hr).1

end Requests

namespace SinkSide

/-- The envelopes of the first items of the lane. -/
def published (s : SinkSide V) (n : ℕ) : List (Envelope V) :=
  (s.log.take n).flatMap Entry.envelopes

/-- A document's last write is the last one acknowledged, or one of the item due next; once
a flush returned, it is the last one up to that item. -/
structure Converging (s : SinkSide V) : Prop where
  due : ∀ k, last Envelope.target k s.applied = last Envelope.target k (s.published s.lane.done) ∨
    ∃ e w, s.log[s.lane.done]? = some e ∧ w ∈ e.envelopes ∧
      last Envelope.target k s.applied = some w
  flushed : ∀ t, s.phase = .acking t → ∀ k,
    last Envelope.target k s.applied = last Envelope.target k (s.published (t + 1))

variable {s s' : SinkSide V}

omit [DecidableEq V] in
theorem published_succ {t : ℕ} {e : Entry V} (h : s.log[t]? = some e) :
    s.published (t + 1) = s.published t ++ e.envelopes := by
  obtain ⟨hlt, rfl⟩ := List.getElem?_eq_some_iff.mp h
  rw [published, published, List.take_succ_eq_append_getElem hlt, List.flatMap_append]
  simp

omit [DecidableEq V] in
theorem Converging.frame (h : s.Converging) (happlied : s'.applied = s.applied)
    (hlog : s'.log = s.log) (hdone : s'.lane.done = s.lane.done)
    (hphase : ∀ t, s'.phase ≠ .acking t) : s'.Converging where
  due k := by
    rw [happlied, hdone, hlog, published, hlog]
    exact h.due k
  flushed t ht := absurd ht (hphase t)

omit [DecidableEq V] in
theorem Converging.publish {e : Entry V} (h : s.Converging) (ho : s.OnLane)
    (hp : s.publish e = some s') : s'.Converging := by
  obtain ⟨lane, hlane, rfl⟩ := publish_cases hp
  have hdone : lane.done = s.lane.done := (ho.sequential.publish hlane).2
  have htake {n : ℕ} (hn : n ≤ s.log.length) : (s.log ++ [e]).take n = s.log.take n :=
    List.take_append_of_le_length hn
  constructor
  · intro k
    simp only [published, hdone, htake ho.sequential.done_le]
    rcases h.due k with heq | ⟨x, w, hx, hw, heq⟩
    · exact .inl heq
    · refine .inr ⟨x, w, ?_, hw, heq⟩
      rw [List.getElem?_append_left (List.getElem?_eq_some_iff.mp hx).1, hx]
  · intro t ht k
    have hseq := ho.sequential
    rw [ht] at hseq
    obtain ⟨-, x, hx⟩ := hseq.held_eq
    simp only [published, htake (List.getElem?_eq_some_iff.mp hx).1]
    exact h.flushed t ht k

/-- A flush that returns writes the whole item due next, after whatever was written of it
before. -/
theorem Converging.flushed_item {requests : List (BulkRequest V)} {e : Entry V}
    (h : s.Converging) (hget : s.log[s.lane.done]? = some e)
    (hactions : requests.flatMap BulkRequest.actions = e.envelopes)
    (hvalid : ∀ r ∈ requests, r.Valid) (hclean : ∀ r ∈ requests, r.rejected = [])
    (k : IndexName × String) :
    last Envelope.target k (s.applied ++ requests.flatMap BulkRequest.executed) =
      last Envelope.target k (s.published (s.lane.done + 1)) := by
  rw [last_append, last_executed hvalid hclean, hactions, published_succ hget, last_append]
  cases hlast : last Envelope.target k e.envelopes with
  | some w => rfl
  | none =>
    simp only [Option.none_or]
    rcases h.due k with heq | ⟨x, w, hx, hw, heq⟩
    · exact heq
    · rw [hget] at hx
      cases hx
      exact absurd (mem_of_last_eq_some heq).2 (last_eq_none.mp hlast w hw)

omit [DecidableEq V] in
/-- A marker writes nothing, so what holds before it holds up to it. -/
theorem Converging.marked_item {n : ℕ} {indexes : List IndexName} (h : s.Converging)
    (hget : s.log[s.lane.done]? = some (.complete n indexes)) (k : IndexName × String) :
    last Envelope.target k s.applied = last Envelope.target k (s.published (s.lane.done + 1)) := by
  have hempty : (Entry.complete n indexes : Entry V).envelopes = [] := rfl
  rw [published_succ hget, hempty, List.append_nil]
  rcases h.due k with heq | ⟨x, w, hx, hw, -⟩
  · exact heq
  · rw [hget] at hx
    cases hx
    simp [hempty] at hw

theorem Converging.laneMove {o : EngineOptions} {a : EngineAction V} (h : s.Converging)
    (hclean : ∀ requests, a = .commit requests → ∀ r ∈ requests, r.rejected = [])
    (hm : LaneMove o s a s') : s'.Converging := by
  cases hm with
  | quiet hlog hdone happlied _ _ hphase _ => exact h.frame happlied hlog hdone hphase
  | @retried requests e _ _ hget hsent hvalid hlog hdone happlied _ _ hphase =>
    refine ⟨fun k => ?_, fun t ht => absurd ht (hphase t)⟩
    rw [happlied, published, hlog, hdone, last_append]
    cases hlast : last Envelope.target k (requests.flatMap BulkRequest.executed) with
    | none => exact h.due k
    | some w =>
      have hmem := executed_subset hvalid w (mem_of_last_eq_some hlast).1
      exact .inr ⟨e, w, hget, hsent.subset hmem, rfl⟩
  | @flushed requests e _ hget _ hactions hvalid _ =>
    have hclean := hclean requests rfl
    constructor
    · intro k
      simp only
      rw [last_append, last_executed hvalid hclean, hactions]
      cases hlast : last Envelope.target k e.envelopes with
      | none => exact h.due k
      | some w => exact .inr ⟨e, w, hget, (mem_of_last_eq_some hlast).1, rfl⟩
    · intro t ht k
      obtain rfl : s.lane.done = t := by simpa using ht
      exact h.flushed_item hget hactions hvalid hclean k
  | marked hget _ =>
    refine ⟨h.due, fun t ht => ?_⟩
    obtain rfl : s.lane.done = t := by simpa using ht
    exact h.marked_item hget
  | acked hphase hdone =>
    refine ⟨fun k => .inl ?_, by simp⟩
    have hflushed := h.flushed _ hphase k
    simpa only [published, hdone] using hflushed

end SinkSide

omit [DecidableEq V] [ValueText V] in
/-- The bulk requests of a flush that returns. -/
def Action.flushed : Action V → List (BulkRequest V)
  | .engine _ (.commit requests) => requests
  | _ => []

namespace Deployment

variable {d d' : Deployment V} {a : Action V} {sink : SinkName}

/-- No flush of the run had a document rejected for good. -/
def NoRejection (_ : Deployment V) (a : Action V) : Prop := ∀ r ∈ a.flushed, r.rejected = []

omit [ValueText V] in
instance (d : Deployment V) (a : Action V) : Decidable (NoRejection d a) :=
  inferInstanceAs (Decidable (∀ r ∈ a.flushed, r.rejected = []))

theorem SideMove.converging {side : SinkSide V} (hm : SideMove c d sink a side)
    (ho : (d.sinks sink).OnLane) (hclean : NoRejection d a) (h : (d.sinks sink).Converging) :
    side.Converging := by
  cases hm with
  | same => exact h
  | slotCreated => exact { h with }
  | engine _ _ hside =>
    refine h.laneMove (fun requests ha => ?_) (ho.laneMove hside)
    subst ha
    exact hclean
  | requested _ hphase _ =>
    refine h.frame rfl rfl rfl fun t => ?_
    simp only [SinkSide.requested]
    split <;> simp
  | published _ _ hside => exact h.publish ho hside

omit [DecidableEq V] in
theorem Initial.converging (h : d.Initial c) (sink : SinkName) : (d.sinks sink).Converging := by
  constructor
  · intro k
    simp [h.applied, h.log, SinkSide.published]
  · simp [h.phase]

theorem converging_of_reachable (h : (daemon V c).ReachableWith NoRejection d) :
    (d.sinks sink).Converging := by
  refine Transition.Machine.ReachableWith.invariant (m := daemon V c)
    (P := fun d => (d.sinks sink).Converging) (fun d hd => hd.converging sink)
    (fun d a d' hr hp hclean hs => ?_) h
  exact (sideMove_of_step hs sink).converging (onLane_of_reachable hr.reachable sink) hclean hp

/-- Once the lane is drained, the last write to each document is the last one published. -/
theorem converges (h : (daemon V c).ReachableWith NoRejection d)
    (hidle : (d.sinks sink).lane.isIdle = true) (index : IndexName) (id : String) :
    last Envelope.target (index, id) (d.sinks sink).applied =
      last Envelope.target (index, id) ((d.sinks sink).log.flatMap Entry.envelopes) := by
  have hseq := (onLane_of_reachable h.reachable sink).sequential
  have hdone := hseq.done_of_isIdle hidle
  have hsink : (d.sinks sink).Converging := converging_of_reachable h
  rcases hsink.due (index, id) with heq | ⟨e, w, he, -⟩
  · rw [heq, SinkSide.published, hdone, List.take_length]
  · rw [hdone, List.getElem?_eq_none (Nat.le_refl _)] at he
    cases he

/-- A flush fails halfway and the redelivered item is written again. -/
theorem converges_after_redelivery :
    let sink : SinkName := ⟨"search"⟩
    let doc (body : String) : Document String := .upsert ⟨⟨"users"⟩, [(⟨"id"⟩, "1")]⟩ body
    let envelope (body : String) : Envelope String := (doc body).envelope (some 0)
    ∃ d : Deployment String, (d.sinks sink).applied = [envelope "a", envelope "a"] ∧
      last Envelope.target (⟨"users"⟩, "1") (d.sinks sink).applied =
        last Envelope.target (⟨"users"⟩, "1")
          ((d.sinks sink).log.flatMap Entry.envelopes) := by
  intro sink doc envelope
  let c : Config := .mirror [sink] (by decide) 2 1
  let request : BulkRequest String := ⟨[], [envelope "a"], []⟩
  let run : List (Action String) := [.engine sink .stage, .engine sink .call,
    .engine sink .advance, .spawn, .ingest .prepare, .ingest .live, .engine sink .start,
    .ingest (.change ⟨"users"⟩ [(⟨"id"⟩, "1")] [] 10), .ingest (.commitLive [doc "a"]),
    .ingest (.publish sink), .engine sink .recv, .engine sink (.commitFail [request]),
    .engine sink .stage, .engine sink .call, .engine sink .advance, .engine sink .start,
    .engine sink .recv, .engine sink (.commit [request]), .engine sink .ack]
  obtain ⟨d, hrun, happlied, hidle⟩ := Transition.Machine.exists_of_run
    (m := daemon String c) (s := comeUp String c .missing (fun _ => false) fun _ _ => .absent)
    (t := run)
    (p := fun d => (d.sinks sink).applied = [envelope "a", envelope "a"] ∧
      (d.sinks sink).lane.isIdle = true) (by decide)
  exact ⟨d, happlied, converges (reachable_comeUp.run (by decide) hrun) hidle ⟨"users"⟩ "1"⟩

end Deployment

end Flusso
