import Flusso.Daemon.Fanout

/-! # Answering requests

A request leaves the request lane only by an acknowledgement, and ingest
acknowledges the requests of a snapshot once the marker of each requesting lane
was published. A request dropped by a failure stays on the lane.
-/

namespace Flusso.Deployment

variable {V : Type*} {c : Config} {d d' : Deployment V} {a : Action V} {sink : SinkName}

/-- A snapshot started for the request completed on its sink's lane. -/
def Answered (c : Config) (d : Deployment V) (ticket : ℕ) (r : Request) : Prop :=
  ∃ (n : ℕ) (run : SnapshotRun V) (indexes : List IndexName), d.snapshots[n]? = some run ∧
    (ticket, r) ∈ run.deliveries ∧ .complete n indexes ∈ (d.sinks r.sink).log ∧
      ∀ index ∈ known c.scopes r.indexes, index ∈ indexes

/-- Each lane a completed snapshot serves has its marker at hand or published. -/
structure Answering (c : Config) (d : Deployment V) : Prop where
  marking : ∀ s todo, d.ingest.snapshot = some s → d.ingest.phase = .publishing todo .markers →
    ∀ sink ∈ c.sinks, ∀ indexes, (sink, indexes) ∈ s.requested →
      sink ∈ todo.map Prod.fst ∨ .complete s.number indexes ∈ (d.sinks sink).log
  acking : ∀ s handles, d.ingest.snapshot = some s → d.ingest.phase = .acking handles →
    ∀ sink ∈ c.sinks, ∀ indexes, (sink, indexes) ∈ s.requested →
      .complete s.number indexes ∈ (d.sinks sink).log
  answered : ∀ (t : ℕ) r, d.requestLog[t]? = some r →
    (t, r) ∈ d.requests.present ∨ d.Answered c t r

theorem Answered.mono {t : ℕ} {r : Request} (h : d.Answered c t r)
    (hlog : ∀ s, (d.sinks s).log ⊆ (d'.sinks s).log)
    (hsnapshots : ∀ (n : ℕ) run, d.snapshots[n]? = some run → d'.snapshots[n]? = some run) :
    d'.Answered c t r := by
  obtain ⟨n, run, indexes, hrun, hmem, hmarker, hknown⟩ := h
  exact ⟨n, run, indexes, hsnapshots n run hrun, hmem, hlog _ hmarker, hknown⟩

theorem Answering.frame (h : d.Answering c) (hlog : ∀ s, (d.sinks s).log ⊆ (d'.sinks s).log)
    (hsnapshots : ∀ (n : ℕ) run, d.snapshots[n]? = some run → d'.snapshots[n]? = some run)
    (hrequestLog : d'.requestLog = d.requestLog)
    (hpresent : d'.requests.present = d.requests.present)
    (hmarking : ∀ s todo, d'.ingest.snapshot = some s →
      d'.ingest.phase = .publishing todo .markers → ∀ sink ∈ c.sinks, ∀ indexes,
        (sink, indexes) ∈ s.requested →
          sink ∈ todo.map Prod.fst ∨ .complete s.number indexes ∈ (d'.sinks sink).log)
    (hacking : ∀ s handles, d'.ingest.snapshot = some s → d'.ingest.phase = .acking handles →
      ∀ sink ∈ c.sinks, ∀ indexes, (sink, indexes) ∈ s.requested →
        .complete s.number indexes ∈ (d'.sinks sink).log) : d'.Answering c where
  marking := hmarking
  acking := hacking
  answered t r hr := by
    rw [hpresent]
    exact (h.answered t r (hrequestLog ▸ hr)).imp_right fun h => h.mono hlog hsnapshots

theorem Answering.quiet (h : d.Answering c) (hlog : ∀ s, (d'.sinks s).log = (d.sinks s).log)
    (hsnapshots : d'.snapshots = d.snapshots) (hrequestLog : d'.requestLog = d.requestLog)
    (hpresent : d'.requests.present = d.requests.present)
    (hmarkers : ∀ todo, d'.ingest.phase ≠ .publishing todo .markers)
    (hacking : ∀ handles, d'.ingest.phase ≠ .acking handles) : d'.Answering c :=
  h.frame (fun s => hlog s ▸ List.Subset.refl _) (fun _ _ hrun => hsnapshots ▸ hrun) hrequestLog
    hpresent (fun _ todo _ hphase => absurd hphase (hmarkers todo))
    fun _ handles _ hphase => absurd hphase (hacking handles)

theorem Answering.beside (h : d.Answering c) (hlog : ∀ s, (d'.sinks s).log = (d.sinks s).log)
    (hsnapshots : d'.snapshots = d.snapshots) (hrequestLog : d'.requestLog = d.requestLog)
    (hpresent : d'.requests.present = d.requests.present) (hingest : d'.ingest = d.ingest) :
    d'.Answering c := by
  refine h.frame (fun s => hlog s ▸ List.Subset.refl _) (fun n run hrun => hsnapshots ▸ hrun)
    hrequestLog hpresent ?_ ?_
  · simp only [hingest, hlog]
    exact h.marking
  · simp only [hingest, hlog]
    exact h.acking

theorem mem_todo_markers {s : Snapshot V} {indexes : List IndexName} (hsink : sink ∈ c.sinks)
    (hmem : (sink, indexes) ∈ s.requested) : sink ∈ (toLanes c s.markers).map Prod.fst := by
  refine List.mem_map.mpr ⟨(sink, .complete s.number indexes), ?_, rfl⟩
  exact List.mem_filter.mpr ⟨Snapshot.mem_markers.mpr ⟨indexes, hmem, rfl⟩, decide_eq_true hsink⟩

/-- A request held by a snapshot whose markers are all published is answered. -/
theorem Answering.answered_held {held : List (ℕ × Request)} (h : d.Answering c)
    (hserving : d.Serving c held) {handles : List ℕ} (hphase : d.ingest.phase = .acking handles)
    {t : ℕ} {r : Request} (hmem : (t, r) ∈ held) : d.Answered c t r := by
  obtain ⟨s, hsnap⟩ := hserving.acking handles hphase
  obtain ⟨run, hrun, hserves, hsuffix⟩ := hserving.running s hsnap
  have hdelivery := hsuffix.subset hmem
  have hsink : r.sink ∈ c.sinks :=
    hserving.sinks r (List.mem_of_getElem? (hserving.asked_held hmem))
  have hkey : r.sink ∈ (requestedOf c.scopes _).map Prod.fst :=
    mem_keys_requestedOf.mpr ⟨_, hdelivery, rfl⟩
  obtain ⟨⟨sink, indexes⟩, hrequested, rfl⟩ := List.mem_map.mp hkey
  refine ⟨s.number, run, indexes, hrun, hdelivery, ?_, fun index hindex => ?_⟩
  · exact h.acking s handles hsnap hphase _ hsink indexes (hserves.requested ▸ hrequested)
  · obtain ⟨indexes', hrequested', hindex'⟩ :=
      asks_requestedOf.mpr ⟨_, hdelivery, rfl, hindex⟩
    have heq := List.inj_on_of_nodup_map nodup_keys_requestedOf hrequested hrequested' rfl
    rw [Prod.mk.injEq] at heq
    exact heq.2 ▸ hindex'

variable [DecidableEq V] [ValueText V]

theorem Answering.step {held : List (ℕ × Request)} (h : d.Answering c) (ht : d.Todo c)
    (hserving : d.Serving c held) (ho : ∀ s, (d.sinks s).OnLane) (hs : d.step c a = some d') :
    d'.Answering c := by
  cases move_of_step hs with
  | slot => exact h.beside (fun _ => rfl) rfl rfl rfl rfl
  | spawn => exact h.beside (fun _ => rfl) rfl rfl rfl rfl
  | prepare _ _ =>
    exact h.quiet log_ensureSlot snapshots_ensureSlot requestLog_ensureSlot
      (by rw [requests_ensureSlot]) (by simp) (by simp)
  | live _ _ =>
    exact h.quiet log_ensureSlot snapshots_ensureSlot requestLog_ensureSlot
      (by rw [requests_ensureSlot]) (by simp) (by simp)
  | change _ _ => exact h.quiet (fun _ => rfl) rfl rfl rfl (by simp) (by simp)
  | idle _ _ => exact h.beside (fun _ => rfl) rfl rfl rfl rfl
  | endLive hpoll =>
    refine h.quiet (fun _ => rfl) rfl rfl rfl ?_ ?_
    · rcases polling_phase hpoll with hphase | hphase <;> simp [hphase]
    · rcases polling_phase hpoll with hphase | hphase <;> simp [hphase]
  | commitLive _ _ => exact h.quiet (fun _ => rfl) rfl rfl rfl (by simp) (by simp)
  | takeRequest _ _ hrecv =>
    exact h.quiet (fun _ => rfl) rfl rfl (hserving.lane.recv hrecv).2.1 (by simp) (by simp)
  | collect _ hrecv =>
    exact h.quiet (fun _ => rfl) rfl rfl (hserving.lane.recv hrecv).2.1 (by simp) (by simp)
  | startSnapshot _ hnext =>
    refine h.frame (fun _ => List.Subset.refl _) (fun n run hrun => ?_) rfl rfl ?_ ?_
    · exact (List.getElem?_append_left (List.getElem?_eq_some_iff.mp hrun).1).trans hrun
    · rintro s todo ⟨⟩ hphase sink hsink indexes hmem
      rcases hnext with ⟨rfl, -⟩ | rfl
      · cases hphase
        exact .inl (mem_todo_markers hsink hmem)
      · cases hphase
    · rintro s handles ⟨⟩ hphase
      rcases hnext with ⟨rfl, -⟩ | rfl <;> cases hphase
  | row hphase _ _ _ =>
    exact h.quiet (fun _ => rfl) rfl rfl rfl (by simp [hphase]) (by simp [hphase])
  | rowCommit _ _ _ _ _ =>
    exact h.quiet (fun _ => rfl) rfl rfl rfl (by rintro _ ⟨⟩) (by rintro _ ⟨⟩)
  | endSnapshot _ hsnap _ _ =>
    refine h.frame (fun _ => List.Subset.refl _) (fun _ _ hrun => hrun) rfl rfl ?_
      (by rintro _ _ _ ⟨⟩)
    rintro s todo hsnap' ⟨⟩ sink hsink indexes hmem
    obtain rfl := Option.some.inj (hsnap.symm.trans hsnap')
    exact .inl (mem_todo_markers hsink hmem)
  | endSnapshotCommit _ _ _ _ =>
    exact h.quiet (fun _ => rfl) rfl rfl rfl (by rintro _ ⟨⟩) (by rintro _ ⟨⟩)
  | @publish s todo after entry side hphase hmem hside =>
    obtain ⟨lane, -, rfl⟩ := SinkSide.publish_cases hside
    let side' : SinkSide V := { d.sinks s with lane, log := (d.sinks s).log ++ [entry] }
    have hside' : side'.log = (d.sinks s).log ++ [entry] := rfl
    have hlog := log_publish hside'
    have hsub (x : SinkName) : (d.sinks x).log ⊆ (Function.update d.sinks s
        { d.sinks s with lane, log := (d.sinks s).log ++ [entry] } x).log := by
      rcases hlog x with hx | ⟨-, hx⟩ <;> rw [hx]
      · exact List.Subset.refl _
      · exact List.subset_append_left _ _
    refine h.frame hsub (fun _ _ hrun => hrun) rfl rfl ?_ (by rintro _ _ _ ⟨⟩)
    rintro x _ hsnap ⟨⟩ sink hsink indexes hrequested
    rcases h.marking x todo hsnap hphase sink hsink indexes hrequested with htodo | hmarker
    · by_cases heq : sink = s
      · subst heq
        obtain ⟨x', hx', hall⟩ := ht.markers todo hphase
        obtain rfl := Option.some.inj (hsnap.symm.trans hx')
        obtain ⟨-, indexes', rfl, hrequested'⟩ := hall _ hmem
        obtain ⟨run, -, hserves, -⟩ := hserving.running x hsnap
        have hnodup : (x.requested.map Prod.fst).Nodup :=
          hserves.requested ▸ nodup_keys_requestedOf
        have hpair := List.inj_on_of_nodup_map hnodup hrequested hrequested' rfl
        obtain rfl : indexes = indexes' := congrArg Prod.snd hpair
        refine .inr ?_
        simp only [Function.update_self]
        exact List.mem_append_right _ (List.mem_singleton.mpr rfl)
      · obtain ⟨entry', he, hfst⟩ := List.mem_map.mp htodo
        refine .inl (List.mem_map.mpr ⟨entry', List.mem_filter.mpr ⟨he, ?_⟩, hfst⟩)
        exact decide_eq_true (hfst ▸ heq)
    · exact .inr (hsub sink hmarker)
  | publishedLive _ => exact h.quiet (fun _ => rfl) rfl rfl rfl (by simp) (by simp)
  | publishedSlice _ _ => exact h.quiet (fun _ => rfl) rfl rfl rfl (by simp) (by simp)
  | publishedLastSlice hsnap _ =>
    refine h.frame (fun _ => List.Subset.refl _) (fun _ _ hrun => hrun) rfl rfl ?_
      (by rintro _ _ _ ⟨⟩)
    rintro s todo ⟨⟩ ⟨⟩ sink hsink indexes hmem
    exact .inl (mem_todo_markers hsink hmem)
  | publishedMarkers hsnap hphase =>
    refine h.frame (fun _ => List.Subset.refl _) (fun _ _ hrun => hrun) rfl rfl
      (by rintro _ _ _ ⟨⟩) ?_
    rintro s handles hsnap' - sink hsink indexes hmem
    refine (h.marking s [] hsnap' hphase sink hsink indexes hmem).resolve_left ?_
    simp
  | @ackRequest ticket handles hphase =>
    refine ⟨by rintro _ _ _ ⟨⟩, fun s _ hsnap _ => h.acking s _ hsnap hphase, fun t r hr => ?_⟩
    have htickets := hserving.tickets
    simp only [Ingest.heldTickets, hphase] at htickets
    cases held with
    | nil => cases htickets
    | cons entry held =>
      obtain ⟨t', r'⟩ := entry
      obtain ⟨rfl, -⟩ := List.cons.inj htickets
      obtain ⟨-, hpresent, -⟩ := hserving.lane.ack
      rcases h.answered t r hr with hmem | hanswered
      · rw [hpresent] at hmem
        rcases List.mem_cons.mp hmem with heq | hmem
        · cases heq
          exact .inr (h.answered_held hserving hphase List.mem_cons_self)
        · exact .inl hmem
      · exact .inr hanswered
  | finished _ => exact h.quiet (fun _ => rfl) rfl rfl rfl (by simp) (by simp)
  | confirm hcall =>
    refine h.quiet (fun _ => rfl) rfl rfl rfl ?_ ?_
    · rcases (confirmCall_cases hcall).1 with hphase | hphase <;> simp [hphase]
    · rcases (confirmCall_cases hcall).1 with hphase | hphase <;> simp [hphase]
  | stop _ _ => exact h.quiet (fun _ => rfl) rfl rfl rfl (by simp) (by simp)
  | fail _ _ =>
    refine h.quiet (fun _ => rfl) rfl rfl ?_ (by simp [Ingest.down]) (by simp [Ingest.down])
    rw [← hserving.tickets]
    exact hserving.lane.releaseAll.2
  | @request sink indexes _ requests _ _ hp =>
    obtain ⟨-, hpresent, -⟩ := hserving.lane.publish hp
    have hside' : ((d.sinks sink).requested indexes ‹Option Continuity›).log =
        (d.sinks sink).log := rfl
    have hlog := log_update hside'
    refine ⟨?_, ?_, fun t r hr => ?_⟩
    · simp only [withSide, hlog]
      exact h.marking
    · simp only [withSide, hlog]
      exact h.acking
    · rw [hpresent]
      rcases Nat.lt_or_ge t d.requestLog.length with ht | ht
      · rw [List.getElem?_append_left ht] at hr
        refine (h.answered t r hr).imp (List.mem_append_left _) fun hanswered => ?_
        refine hanswered.mono (fun s => ?_) fun _ _ hrun => hrun
        simp only [withSide, hlog]
        exact List.Subset.refl _
      · rw [List.getElem?_append_right ht, List.getElem?_singleton] at hr
        split at hr
        · next hzero =>
          cases hr
          obtain rfl : t = d.requestLog.length := by omega
          exact .inl (List.mem_append_right _ (List.mem_singleton.mpr rfl))
        · cases hr
  | engine _ _ hside =>
    exact h.beside (log_update (log_sideStep (ho _) hside)) rfl rfl rfl rfl

theorem answering_of_reachable (h : (daemon V c).Reachable d) : d.Answering c := by
  refine Transition.Machine.Reachable.invariant (m := daemon V c) (P := Answering c)
    (fun d hd => ?_) (fun d a d' hr hp hs => ?_) h
  · constructor
    · simp [hd.ingest, Ingest.down]
    · simp [hd.ingest, Ingest.down]
    · simp [hd.requestLog]
  · obtain ⟨held, hserving⟩ := serving_of_reachable hr
    exact hp.step (todo_of_reachable hr) hserving (onLane_of_reachable hr) hs

/-- The sink asked for the index in one of the requests the snapshot was started for. -/
def AskedFor (d : Deployment V) (run : SnapshotRun V) (sink : SinkName) (index : IndexName) :
    Prop :=
  ∃ (t : ℕ) (r : Request), (t, r) ∈ run.deliveries ∧ d.requestLog[t]? = some r ∧ r.sink = sink ∧
    index ∈ r.indexes

/-- Every lane gets what it asked for, before its marker, and nothing else; a request that
left the request lane has its markers. -/
structure ExactFanout (c : Config) (d : Deployment V) : Prop where
  complete : ∀ sink (k n : ℕ) indexes, (d.sinks sink).log[k]? = some (.complete n indexes) →
    ∃ run, d.snapshots[n]? = some run ∧ ∀ index ∈ indexes, d.AskedFor run sink index ∧
      ∀ root, c.scopes.lookup index = some root → ∀ key, (root.table, key) ∈ run.rows →
        ∃ j < k, ∃ documents, (d.sinks sink).log[j]? = some (.slice n documents) ∧
          ∃ x ∈ documents, x.id = ⟨index, key⟩
  slices : ∀ sink (n : ℕ) documents, .slice n documents ∈ (d.sinks sink).log →
    ∃ run, d.snapshots[n]? = some run ∧ ∀ x ∈ documents, d.AskedFor run sink x.id.index
  acked : ∀ (t : ℕ) r, d.requestLog[t]? = some r →
    (t, r) ∈ d.requests.present ∨ d.Answered c t r

omit [DecidableEq V] [ValueText V] in
theorem Serving.askedFor {held : List (ℕ × Request)} (h : d.Serving c held) {n : ℕ}
    {run : SnapshotRun V} (hrun : d.snapshots[n]? = some run) {index : IndexName}
    (hasks : (requestedOf c.scopes run.deliveries).Asks sink index) :
    d.AskedFor run sink index := by
  obtain ⟨⟨t, r⟩, hmem, hsink, hknown⟩ := asks_requestedOf.mp hasks
  exact ⟨t, r, hmem, h.asked run (List.mem_of_getElem? hrun) t r hmem, hsink,
    (mem_known.mp hknown).1⟩

/-- Coalesced requests are served as each would be alone. -/
theorem exactFanout (h : (daemon V c).Reachable d) : d.ExactFanout c := by
  obtain ⟨held, hserving⟩ := serving_of_reachable h
  have hfanned := fanned_of_reachable h
  constructor
  · intro sink k n indexes hget
    obtain ⟨run, hrun, hrequested, hdelivered⟩ := hfanned.markers sink k n indexes hget
    refine ⟨run, hrun, fun index hindex => ?_⟩
    refine ⟨hserving.askedFor hrun ⟨indexes, hrequested, hindex⟩, fun root hroot key hkey => ?_⟩
    obtain ⟨documents, hmem, hx⟩ := hdelivered ⟨index, key⟩ hindex ⟨root, hroot, hkey⟩
    obtain ⟨j, hj⟩ := List.mem_iff_getElem?.mp hmem
    rw [List.getElem?_take] at hj
    split at hj
    · next hlt => exact ⟨j, hlt, documents, hj, hx⟩
    · cases hj
  · intro sink n documents hmem
    obtain ⟨run, hrun, hasks⟩ := hfanned.slices sink n documents hmem
    exact ⟨run, hrun, fun x hx => hserving.askedFor hrun (hasks x hx)⟩
  · exact (answering_of_reachable h).answered

/-- Two sinks ask for the same index and one scan answers both. -/
theorem exactFanout_two_sinks :
    let left : SinkName := ⟨"left"⟩
    let right : SinkName := ⟨"right"⟩
    let slice : Entry String := .slice 0 [.upsert ⟨⟨"users"⟩, [(⟨"id"⟩, "1")]⟩ "a"]
    ∃ d : Deployment String, (d.sinks left).log = [slice, .complete 0 [⟨"users"⟩]] ∧
      (d.sinks right).log = [slice, .complete 0 [⟨"users"⟩]] ∧ d.requests.present = [] ∧
      d.ExactFanout (.mirror [left, right] (by decide) 2 1) := by
  intro left right slice
  let c : Config := .mirror [left, right] (by decide) 2 1
  let come (sink : SinkName) : List (Action String) := [.engine sink .stage, .engine sink .call,
    .engine sink .advance, .engine sink .request]
  let view : Cdc.View String := fun _ => ⟨[some ⟨"id"⟩], [⟨["1"], "1"⟩]⟩
  let run : List (Action String) := List.flatten
    [come left, come right, [.spawn],
    ([.prepare, .live, .takeRequest, .collect, .startSnapshot view,
      .row [] [.upsert ⟨⟨"users"⟩, [(⟨"id"⟩, "1")]⟩ "a"], .publish right, .publish left, .published,
      .endSnapshot [], .publish left, .publish right, .published, .ackRequest,
      .ackRequest, .finished] : List (IngestAction String)).map .ingest]
  obtain ⟨d, hrun, hleft, hright, hpresent⟩ := Transition.Machine.exists_of_run
    (m := daemon String c) (s := comeUp String c .missing (fun _ => true) fun _ _ => .absent)
    (t := run) (p := fun d => (d.sinks left).log = [slice, .complete 0 [⟨"users"⟩]] ∧
      (d.sinks right).log = [slice, .complete 0 [⟨"users"⟩]] ∧ d.requests.present = [])
    (by decide)
  exact ⟨d, hleft, hright, hpresent, exactFanout (.run reachable_comeUp hrun)⟩

end Flusso.Deployment
