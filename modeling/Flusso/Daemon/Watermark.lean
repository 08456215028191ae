import Flusso.Daemon.Lanes

/-! # The watermark

What ingest confirms is the lowest position every lane acknowledged. A lane
acknowledges in publish order, so whatever a lane published for a change of the
open stream was flushed once a position at or past the change is acknowledged:
until then the lane only carries positions before it.
-/

namespace Flusso

variable {V : Type*} [DecidableEq V] [ValueText V] {c : Config}

namespace SinkSide

omit [DecidableEq V] [ValueText V] in
/-- A flush wrote an envelope, or the failure policy quarantined it. -/
def Wrote (o : EngineOptions) (s : SinkSide V) (f : Flush V) (w : Envelope V) : Prop :=
  w ∈ s.applied ∧ w ∉ f.rejected ∨ w ∈ f.rejected ∧ o.failurePolicy w.index = .skip

/-- Every batch up to the item due next was flushed, and a flush covered its whole item. -/
structure Flushed (o : EngineOptions) (s : SinkSide V) : Prop where
  flushed : ∀ k e, s.log[k]? = some e → (∀ n indexes, e ≠ .complete n indexes) →
    k < s.lane.done ∨ s.phase = .acking k → ∃ f ∈ s.flushes, f.ticket = k
  wrote : ∀ f ∈ s.flushes, ∃ e, s.log[f.ticket]? = some e ∧ ∀ w ∈ e.envelopes, s.Wrote o f w

variable {o : EngineOptions} {s s' : SinkSide V}

omit [ValueText V] in
theorem executed_of_not_rejected {requests : List (BulkRequest V)} {w : Envelope V}
    (hw : w ∈ requests.flatMap BulkRequest.actions)
    (hnot : w ∉ requests.flatMap BulkRequest.rejected) :
    w ∈ requests.flatMap BulkRequest.executed := by
  obtain ⟨r, hr, hw⟩ := List.mem_flatMap.mp hw
  have hkept : w ∉ r.rejected := fun h => hnot (List.mem_flatMap.mpr ⟨r, hr, h⟩)
  refine List.mem_flatMap.mpr ⟨r, hr, List.mem_append_right _ ?_⟩
  exact List.mem_filter.mpr ⟨hw, decide_eq_true hkept⟩

omit [DecidableEq V] in
theorem Flushed.frame (h : s.Flushed o) (hlog : s'.log = s.log) (hdone : s'.lane.done = s.lane.done)
    (happlied : s.applied ⊆ s'.applied) (hflushes : s'.flushes = s.flushes)
    (hphase : ∀ t, s'.phase ≠ .acking t) : s'.Flushed o where
  flushed k e hget hne hk := by
    rw [hlog] at hget
    rw [hdone] at hk
    rw [hflushes]
    exact h.flushed k e hget hne (.inl (hk.resolve_right (hphase k)))
  wrote f hf := by
    rw [hflushes] at hf
    obtain ⟨e, hget, hwrote⟩ := h.wrote f hf
    refine ⟨e, by rw [hlog, hget], fun w hw => ?_⟩
    exact (hwrote w hw).imp_left fun hw => ⟨happlied hw.1, hw.2⟩

theorem Flushed.laneMove {a : EngineAction V} (h : s.Flushed o) (hm : LaneMove o s a s') :
    s'.Flushed o := by
  cases hm with
  | quiet hlog hdone happlied hflushes _ hphase _ =>
    exact h.frame hlog hdone (happlied ▸ List.Subset.refl _) hflushes hphase
  | retried _ _ _ _ hlog hdone happlied hflushes _ hphase =>
    exact h.frame hlog hdone (happlied ▸ List.subset_append_left _ _) hflushes hphase
  | @flushed requests e _ hget _ hactions _ hpolicy =>
    constructor
    · intro k x hx hne hk
      rcases hk with hk | hk
      · obtain ⟨f, hf, hticket⟩ := h.flushed k x hx hne (.inl hk)
        exact ⟨f, List.mem_append_left _ hf, hticket⟩
      · obtain rfl : s.lane.done = k := by simpa using hk
        exact ⟨_, List.mem_append_right _ (List.mem_singleton.mpr rfl), rfl⟩
    · intro f hf
      rcases List.mem_append.mp hf with hf | hf
      · obtain ⟨x, hx, hwrote⟩ := h.wrote f hf
        refine ⟨x, hx, fun w hw => ?_⟩
        exact (hwrote w hw).imp_left fun hw => ⟨List.mem_append_left _ hw.1, hw.2⟩
      · obtain rfl := List.mem_singleton.mp hf
        refine ⟨e, hget, fun w hw => ?_⟩
        rw [← hactions] at hw
        by_cases hrejected : w ∈ requests.flatMap BulkRequest.rejected
        · obtain ⟨r, hr, hwr⟩ := List.mem_flatMap.mp hrejected
          exact .inr ⟨hrejected, hpolicy r hr w hwr⟩
        · exact .inl ⟨List.mem_append_right _ (executed_of_not_rejected hw hrejected), hrejected⟩
  | marked hget _ =>
    refine ⟨fun k e he hne hk => ?_, h.wrote⟩
    rcases hk with hk | hk
    · exact h.flushed k e he hne (.inl hk)
    · obtain rfl : s.lane.done = k := by simpa using hk
      rw [hget] at he
      cases he
      exact absurd rfl (hne _ _)
  | acked hphase hdone =>
    refine ⟨fun k e he hne hk => ?_, h.wrote⟩
    rcases hk with hk | hk
    · rcases Nat.lt_succ_iff_lt_or_eq.mp (hdone ▸ hk) with hk | rfl
      · exact h.flushed k e he hne (.inl hk)
      · exact h.flushed _ e he hne (.inr hphase)
    · simp at hk

omit [DecidableEq V] in
theorem Flushed.publish {e : Entry V} (h : s.Flushed o) (ho : s.OnLane)
    (hp : s.publish e = some s') : s'.Flushed o := by
  obtain ⟨lane, hlane, rfl⟩ := publish_cases hp
  have hseq := ho.sequential
  have hdone : lane.done = s.lane.done := (hseq.publish hlane).2
  constructor
  · intro k x hx hne hk
    have hlt : k < s.log.length := by
      rcases hk with hk | hk
      · exact Nat.lt_of_lt_of_le (hdone ▸ hk) hseq.done_le
      · rw [hk] at hseq
        obtain ⟨-, y, hy⟩ := hseq.held_eq
        exact (List.getElem?_eq_some_iff.mp hy).1
    rw [List.getElem?_append_left hlt] at hx
    exact h.flushed k x hx hne (hdone ▸ hk)
  · intro f hf
    obtain ⟨x, hx, hwrote⟩ := h.wrote f hf
    refine ⟨x, ?_, hwrote⟩
    rw [List.getElem?_append_left (List.getElem?_eq_some_iff.mp hx).1, hx]

end SinkSide

namespace Deployment

variable {d d' : Deployment V} {a : Action V} {sink : SinkName}

theorem SideMove.flushed {side : SinkSide V} (hm : SideMove c d sink a side)
    (ho : (d.sinks sink).OnLane) (h : (d.sinks sink).Flushed c.engine) :
    side.Flushed c.engine := by
  cases hm with
  | same => exact h
  | slotCreated => exact { h with }
  | engine _ _ hside => exact h.laneMove (ho.laneMove hside)
  | requested _ hphase _ =>
    refine h.frame rfl rfl (List.Subset.refl _) rfl fun t => ?_
    simp only [SinkSide.requested]
    split <;> simp
  | published _ _ hside => exact h.publish ho hside

theorem flushed_of_reachable (h : (daemon V c).Reachable d) (sink : SinkName) :
    (d.sinks sink).Flushed c.engine := by
  refine Transition.Machine.Reachable.invariant (m := daemon V c)
    (P := fun d => (d.sinks sink).Flushed c.engine) (fun d hd => ?_)
    (fun d a d' hr hp hs => ?_) h
  · constructor
    · simp [hd.log]
    · simp [hd.flushes]
  · exact (sideMove_of_step hs sink).flushed (onLane_of_reachable hr sink) hp

section Published

omit [DecidableEq V] [ValueText V]

/-- An entry published for a change: at a position, with every document of the change. -/
def Covers (e : Entry V) (change : Change V) : Prop :=
  (∃ q, e.position = some q) ∧ ∀ id ∈ change.ids, e.Carries id

/-- Every position on a lane is before `p`. -/
def Before (log : List (Entry V)) (p : ℕ) : Prop := ∀ e ∈ log, ∀ q, e.position = some q → q < p

/-- The lane carries a change, and nothing but earlier positions before it. -/
def Covered (log : List (Entry V)) (change : Change V) : Prop :=
  ∃ k e, log[k]? = some e ∧ Covers e change ∧ Before (log.take k) change.position

/-- A change that is not on a lane yet will be, unless the engine fails. -/
def OnItsWay (i : Ingest V) (sink : SinkName) (change : Change V) : Prop :=
  match i.phase with
  | .down => True
  | .prepared => True
  | .draining => (∃ q, i.pending.position = some q) ∧ ∀ id ∈ change.ids, id ∈ i.pending.ids
  | .publishing todo .live =>
    (∃ e, (sink, e) ∈ todo) ∧ ∀ e, (sink, e) ∈ todo → Covers e change
  | _ => False

/-- The position was handed out by a live stream. -/
def Issued (d : Deployment V) (q : ℕ) : Prop :=
  ∃ positions, d.positions = some positions ∧ q < positions.nextSeq

/-- Every change of the open stream is on every lane or on its way there. -/
structure Published (c : Config) (d : Deployment V) : Prop where
  logged : ∀ sink, ∀ e ∈ (d.sinks sink).log, ∀ q, e.position = some q → d.Issued q
  pending : ∀ q, d.ingest.pending.position = some q → d.Issued q
  todo : ∀ todo after, d.ingest.phase = .publishing todo after →
    ∀ entry ∈ todo, ∀ q, entry.2.position = some q → d.Issued q
  changes : ∀ change ∈ d.changes, ∀ sink ∈ c.sinks,
    Covered (d.sinks sink).log change ∨
      Before (d.sinks sink).log change.position ∧ OnItsWay d.ingest sink change

theorem Covered.append {log : List (Entry V)} {change : Change V} (h : Covered log change)
    (e : Entry V) : Covered (log ++ [e]) change := by
  obtain ⟨k, x, hget, hcovers, hbefore⟩ := h
  have hlt := (List.getElem?_eq_some_iff.mp hget).1
  refine ⟨k, x, by rw [List.getElem?_append_left hlt, hget], hcovers, ?_⟩
  rwa [List.take_append_of_le_length (Nat.le_of_lt hlt)]

theorem Covered.of_publish {log : List (Entry V)} {change : Change V} {e : Entry V}
    (hbefore : Before log change.position) (he : Covers e change) : Covered (log ++ [e]) change :=
  ⟨log.length, e, by simp, he, by simpa using hbefore⟩

theorem Published.frame (h : d.Published c) (hlog : ∀ s, (d'.sinks s).log = (d.sinks s).log)
    (hissued : ∀ q, d.Issued q → d'.Issued q) (hchanges : d'.changes = d.changes)
    (hpending : ∀ q, d'.ingest.pending.position = some q → d.Issued q)
    (htodo : ∀ todo after, d'.ingest.phase = .publishing todo after →
      ∀ entry ∈ todo, ∀ q, entry.2.position = some q → d.Issued q)
    (hway : ∀ change sink, sink ∈ c.sinks → OnItsWay d.ingest sink change →
      OnItsWay d'.ingest sink change) : d'.Published c where
  logged s e he q hq := hissued q (h.logged s e (hlog s ▸ he) q hq)
  pending q hq := hissued q (hpending q hq)
  todo todo after hphase entry hentry q hq := hissued q (htodo todo after hphase entry hentry q hq)
  changes change hchange s hs := by
    rw [hlog]
    rw [hchanges] at hchange
    exact (h.changes change hchange s hs).imp_right fun hb => ⟨hb.1, hway change s hs hb.2⟩

theorem Published.unpositioned (h : d.Published c) (hsinks : d'.sinks = d.sinks)
    (hpositions : d'.positions = d.positions) (hchanges : d'.changes = d.changes)
    (hpending : d'.ingest.pending = d.ingest.pending)
    (hnone : ∀ change s, ¬ OnItsWay d.ingest s change)
    (htodo : ∀ todo after, d'.ingest.phase = .publishing todo after →
      ∀ entry ∈ todo, entry.2.position = none) : d'.Published c := by
  refine h.frame (fun s => by rw [hsinks]) (fun q hq => ?_) hchanges (hpending ▸ h.pending) ?_
    fun change s _ hway => absurd hway (hnone change s)
  · rwa [Issued, hpositions]
  · intro todo after hphase entry hentry q hq
    rw [htodo todo after hphase entry hentry] at hq
    cases hq

end Published

theorem log_sideStep {s s' : SinkSide V} {a : EngineAction V} (ho : s.OnLane)
    (hs : sideStep c s a = some s') : s'.log = s.log := by
  cases ho.laneMove hs with
  | quiet hlog => exact hlog
  | retried _ _ _ _ hlog => exact hlog
  | flushed => rfl
  | marked => rfl
  | acked => rfl

omit [DecidableEq V] [ValueText V] in
theorem log_ensureSlot (s : SinkName) : (d.ensureSlot.sinks s).log = (d.sinks s).log := by
  rcases sinks_ensureSlot (d := d) (s := s) with h | h <;> rw [h]
  rfl

omit [DecidableEq V] [ValueText V] in
theorem log_update {side : SinkSide V} (hlog : side.log = (d.sinks sink).log) (s : SinkName) :
    (Function.update d.sinks sink side s).log = (d.sinks s).log := by
  by_cases hs : s = sink
  · subst hs
    rw [Function.update_self, hlog]
  · rw [Function.update_of_ne hs]

omit [DecidableEq V] [ValueText V] in
theorem position_markers {snapshot : Snapshot V} {entry : SinkName × Entry V}
    (h : entry ∈ toLanes c snapshot.markers) : entry.2.position = none := by
  obtain ⟨_, -, he⟩ := Snapshot.mem_markers.mp (List.mem_of_mem_filter h)
  rw [he]
  rfl

omit [DecidableEq V] [ValueText V] in
theorem position_slices {snapshot : Snapshot V} {documents : List (Document V)}
    {entry : SinkName × Entry V} (h : entry ∈ toLanes c (snapshot.slices documents)) :
    entry.2.position = none := by
  obtain ⟨_, -, he, -⟩ := Snapshot.mem_slices.mp (List.mem_of_mem_filter h)
  rw [he]
  rfl

/-- One step keeps every change of the open stream on its way or on the lanes. -/
theorem Published.step (h : d.Published c) (ho : ∀ s, (d.sinks s).OnLane)
    (hs : d.step c a = some d') : d'.Published c := by
  cases move_of_step hs with
  | slot => exact ⟨h.logged, h.pending, h.todo, h.changes⟩
  | spawn => exact ⟨h.logged, h.pending, h.todo, h.changes⟩
  | prepare hphase _ =>
    refine h.frame log_ensureSlot (fun q hq => ?_) changes_ensureSlot h.pending (by simp) ?_
    · simpa only [Issued, positions_ensureSlot] using hq
    · exact fun _ _ _ _ => trivial
  | live hphase _ =>
    have hissued : ∀ q, d.Issued q → ∃ positions,
        some (Cdc.Positions.new c.startLsn (d.positions.elim 0 Cdc.Positions.nextSeq)) =
          some positions ∧ q < positions.nextSeq := by
      rintro q ⟨positions, hpos, hlt⟩
      exact ⟨_, rfl, by simpa [Cdc.Positions.new, hpos] using hlt⟩
    constructor
    · exact fun s e he q hq => hissued q (h.logged s e (log_ensureSlot s ▸ he) q hq)
    · exact fun q hq => hissued q (h.pending q hq)
    · simp
    · simp
  | @change table key reverse lsn positions hpoll hpos =>
    have hissued : ∀ q, d.Issued q → q < positions.nextSeq := by
      rintro q ⟨p, hp, hlt⟩
      rw [hpos] at hp
      cases hp
      exact hlt
    constructor
    · exact fun s e he q hq => ⟨_, rfl, Nat.lt_succ_of_lt (hissued q (h.logged s e he q hq))⟩
    · intro q hq
      obtain rfl : positions.nextSeq = q := by simpa using hq
      exact ⟨_, rfl, Nat.lt_succ_self _⟩
    · simp
    · intro change hchange s hsink
      rcases List.mem_append.mp hchange with hold | hnew
      · refine (h.changes change hold s hsink).imp_right fun hb => ⟨hb.1, ⟨_, rfl⟩, ?_⟩
        intro id hid
        have hway := hb.2
        rcases polling_phase hpoll with hphase | hphase
        · simp [OnItsWay, hphase] at hway
        · simp only [OnItsWay, hphase] at hway
          exact PendingBatch.mem_ids_add.mpr (.inl (hway.2 id hid))
      · obtain rfl := List.mem_singleton.mp hnew
        refine .inr ⟨fun e he q hq => hissued q (h.logged s e he q hq), ⟨_, rfl⟩, fun id hid => ?_⟩
        exact PendingBatch.mem_ids_add.mpr (.inr hid)
  | @idle lsn positions hpoll hpos =>
    refine h.frame (fun _ => rfl) ?_ rfl h.pending h.todo fun _ _ _ hway => hway
    rintro q ⟨p, hp, hlt⟩
    rw [hpos] at hp
    cases hp
    exact ⟨_, rfl, Nat.lt_of_lt_of_le hlt positions.nextSeq_le_registerConfirmed⟩
  | endLive hpoll =>
    refine h.frame (fun _ => rfl) (fun _ hq => hq) rfl h.pending h.todo fun change s _ hway => ?_
    exact hway
  | @commitLive documents hphase hperm =>
    have hentry : ∀ q, (d.liveEntry documents).position = some q → d.Issued q := h.pending
    refine h.frame (fun _ => rfl) (fun _ hq => hq) rfl h.pending ?_ ?_
    · intro todo after heq entry hmem q hq
      obtain ⟨rfl, -⟩ : _ = todo ∧ _ := by simpa using heq
      obtain ⟨s, -, rfl⟩ := List.mem_map.mp hmem
      exact hentry q hq
    · intro change s hsink hway
      simp only [OnItsWay, hphase] at hway
      refine ⟨⟨_, List.mem_map.mpr ⟨s, hsink, rfl⟩⟩, fun e he => ?_⟩
      obtain ⟨t, -, heq⟩ := List.mem_map.mp he
      obtain ⟨rfl, rfl⟩ : t = s ∧ d.liveEntry documents = e := by simpa using heq
      refine ⟨hway.1, fun id hid => ?_⟩
      obtain ⟨document, hdoc, hid⟩ := List.mem_map.mp (hperm.mem_iff.mpr (hway.2 id hid))
      exact ⟨document, hdoc, hid⟩
  | takeRequest hphase _ _ =>
    exact h.unpositioned rfl rfl rfl rfl (by simp [OnItsWay, hphase]) (by simp)
  | collect hphase _ =>
    exact h.unpositioned rfl rfl rfl rfl (by simp [OnItsWay, hphase]) (by simp)
  | @startSnapshot view deliveries phase hphase hnext =>
    refine h.unpositioned rfl rfl rfl rfl (by simp [OnItsWay, hphase]) ?_
    rintro todo after heq entry hmem
    rcases hnext with ⟨rfl, -⟩ | rfl
    · cases heq
      exact position_markers hmem
    · cases heq
  | row hphase _ _ _ =>
    exact h.unpositioned rfl rfl rfl rfl (by simp [OnItsWay, hphase]) (by simp [hphase])
  | rowCommit hphase _ _ _ _ =>
    refine h.unpositioned rfl rfl rfl rfl (by simp [OnItsWay, hphase]) ?_
    rintro todo after ⟨⟩ entry hmem
    exact position_slices hmem
  | endSnapshot hphase _ _ _ =>
    refine h.unpositioned rfl rfl rfl rfl (by simp [OnItsWay, hphase]) ?_
    rintro todo after ⟨⟩ entry hmem
    exact position_markers hmem
  | endSnapshotCommit hphase _ _ _ =>
    refine h.unpositioned rfl rfl rfl rfl (by simp [OnItsWay, hphase]) ?_
    rintro todo after ⟨⟩ entry hmem
    exact position_slices hmem
  | @publish s todo after entry side hphase hmem hside =>
    obtain ⟨lane, -, rfl⟩ := SinkSide.publish_cases hside
    constructor
    · intro t e he q hq
      by_cases ht : t = s
      · subst ht
        simp only [Function.update_self] at he
        rcases List.mem_append.mp he with he | he
        · exact h.logged t e he q hq
        · obtain rfl := List.mem_singleton.mp he
          exact h.todo todo after hphase _ hmem q hq
      · simp only [Function.update_of_ne ht] at he
        exact h.logged t e he q hq
    · exact h.pending
    · intro todo' after' heq entry' hmem' q hq
      obtain ⟨rfl, rfl⟩ : _ = todo' ∧ after = after' := by simpa using heq
      exact h.todo todo after hphase entry' (List.mem_of_mem_filter hmem') q hq
    · intro change hchange t hsink
      by_cases ht : t = s
      · subst ht
        simp only [Function.update_self]
        refine .inl ?_
        rcases h.changes change hchange t hsink with hcovered | ⟨hbefore, hway⟩
        · exact hcovered.append entry
        · simp only [OnItsWay, hphase] at hway
          cases after with
          | live => exact .of_publish hbefore (hway.2 entry hmem)
          | _ => exact hway.elim
      · simp only [Function.update_of_ne ht]
        refine (h.changes change hchange t hsink).imp_right fun hb => ⟨hb.1, ?_⟩
        have hway := hb.2
        simp only [OnItsWay, hphase] at hway ⊢
        cases after with
        | live =>
          obtain ⟨⟨e, he⟩, hall⟩ := hway
          refine ⟨⟨e, List.mem_filter.mpr ⟨he, decide_eq_true ht⟩⟩, fun e he => ?_⟩
          exact hall e (List.mem_of_mem_filter he)
        | _ => exact hway
  | publishedLive hphase =>
    refine h.frame (fun _ => rfl) (fun _ hq => hq) rfl (by simp [PendingBatch.clear, PendingBatch.new])
      (by simp) fun _ _ _ hway => ?_
    simp [OnItsWay, hphase] at hway
  | publishedSlice _ hphase =>
    exact h.unpositioned rfl rfl rfl rfl (by simp [OnItsWay, hphase]) (by simp)
  | publishedLastSlice _ hphase =>
    refine h.unpositioned rfl rfl rfl rfl (by simp [OnItsWay, hphase]) ?_
    rintro todo after ⟨⟩ entry hmem
    exact position_markers hmem
  | publishedMarkers _ hphase =>
    exact h.unpositioned rfl rfl rfl rfl (by simp [OnItsWay, hphase]) (by simp)
  | ackRequest hphase =>
    exact h.unpositioned rfl rfl rfl rfl (by simp [OnItsWay, hphase]) (by simp)
  | finished hphase =>
    exact h.unpositioned rfl rfl rfl rfl (by simp [OnItsWay, hphase]) (by simp)
  | @confirm p _ =>
    refine h.frame (fun _ => rfl) ?_ rfl h.pending h.todo fun _ _ _ hway => hway
    rintro q ⟨positions, hpos, hlt⟩
    exact ⟨positions.confirm p, by simp only [hpos, Option.map_some], hlt⟩
  | stop hphase _ =>
    exact h.unpositioned rfl rfl rfl rfl (by simp [OnItsWay, hphase]) (by simp)
  | fail _ _ =>
    exact h.frame (fun _ => rfl) (fun _ hq => hq) rfl
      (by simp [Ingest.down, PendingBatch.new]) (by simp [Ingest.down]) fun _ _ _ _ => trivial
  | request _ _ _ =>
    exact h.frame (log_update rfl) (fun _ hq => hq) rfl h.pending h.todo fun _ _ _ hway => hway
  | engine _ _ hside =>
    exact h.frame (log_update (log_sideStep (ho _) hside)) (fun _ hq => hq) rfl h.pending h.todo
      fun _ _ _ hway => hway

theorem published_of_reachable (h : (daemon V c).Reachable d) : d.Published c := by
  refine Transition.Machine.Reachable.invariant (m := daemon V c) (P := Published c)
    (fun d hd => ?_) (fun d a d' hr hp hs => hp.step (onLane_of_reachable hr) hs) h
  constructor
  · simp [hd.log]
  · simp [hd.ingest, Ingest.down, PendingBatch.new]
  · simp [hd.ingest, Ingest.down]
  · simp [hd.changes]

omit [DecidableEq V] [ValueText V] in
/-- A lane that carries a change has it acknowledged once its watermark is past the change. -/
theorem Covered.done {s : SinkSide V} {change : Change V} {p : ℕ} (h : Covered s.log change)
    (ho : s.OnLane) (hacked : s.lane.acked = some p) (hle : change.position ≤ p) :
    ∃ k e, k < s.lane.done ∧ s.log[k]? = some e ∧ Covers e change := by
  obtain ⟨k, e, hget, hcovers, hbefore⟩ := h
  obtain ⟨j, hj, x, hx, hpos⟩ := ho.sequential.acked p hacked
  refine ⟨k, e, ?_, hget, hcovers⟩
  by_contra hk
  have hmem : x ∈ s.log.take k := by
    refine List.mem_of_getElem? (i := j) ?_
    rw [List.getElem?_take_of_lt (by omega), hx]
  exact absurd (hbefore x hmem p hpos) (Nat.not_lt.mpr hle)

/-- Whatever position is confirmed, every change of the open stream up to it is in a batch
that every sink flushed: each document was written, or quarantined by the failure policy. -/
theorem flushed_of_confirmCall {p : ℕ} (h : (daemon V c).Reachable d)
    (hp : d.confirmCall c = some p) {change : Change V} (hchange : change ∈ d.changes)
    (hle : change.position ≤ p) (hsink : sink ∈ c.sinks) :
    ∃ e f, (d.sinks sink).log[f.ticket]? = some e ∧ f ∈ (d.sinks sink).flushes ∧
      (∀ id ∈ change.ids, e.Carries id) ∧
        ∀ w ∈ e.envelopes, (d.sinks sink).Wrote c.engine f w := by
  obtain ⟨hphase, hwatermark⟩ := confirmCall_cases hp
  have hcovered : Covered (d.sinks sink).log change := by
    refine ((published_of_reachable h).changes change hchange sink hsink).resolve_right ?_
    rintro ⟨-, hway⟩
    rcases hphase with hphase | hphase <;> simp [OnItsWay, hphase] at hway
  obtain ⟨q, hacked, hpq⟩ := (lowest_le hwatermark).2 _ (List.mem_map.mpr ⟨sink, hsink, rfl⟩)
  obtain ⟨k, e, hk, hget, ⟨r, hr⟩, hids⟩ :=
    hcovered.done (onLane_of_reachable h sink) hacked (Nat.le_trans hle hpq)
  have hflushed := flushed_of_reachable h sink
  have hne : ∀ n indexes, e ≠ .complete n indexes := by
    rintro n indexes rfl
    cases hr
  obtain ⟨f, hf, rfl⟩ := hflushed.flushed k e hget hne (.inl hk)
  obtain ⟨x, hx, hwrote⟩ := hflushed.wrote f hf
  obtain rfl : e = x := Option.some.inj (hget.symm.trans hx)
  exact ⟨e, f, hget, hf, hids, hwrote⟩

/-- A batch published on one lane only is resent after a restart, and confirmed once both
sinks flushed it. -/
theorem flushed_of_confirmCall_after_restart :
    let right : SinkName := ⟨"right"⟩
    let id : DocumentId String := ⟨⟨"users"⟩, [(⟨"id"⟩, "1")]⟩
    ∃ d : Deployment String, d.streams = 2 ∧
      ∃ e f, (d.sinks right).log[f.ticket]? = some e ∧ f ∈ (d.sinks right).flushes ∧
        (∀ i ∈ [id], e.Carries i) ∧ ∀ w ∈ e.envelopes, (d.sinks right).Wrote
          ⟨[⟨"users"⟩], false, fun _ => .stop⟩ f w := by
  intro right id
  let left : SinkName := ⟨"left"⟩
  let c : Config := .mirror [left, right] (by decide) 2 1
  let request (p : ℕ) : BulkRequest String :=
    ⟨[], [(Document.upsert id "a").envelope (some p)], []⟩
  let come (sink : SinkName) : List (Action String) :=
    [.engine sink .stage, .engine sink .call, .engine sink .advance]
  let change : List (Action String) := [.ingest .prepare, .ingest .live,
    .ingest (.change ⟨"users"⟩ id.key [] 10), .ingest (.commitLive [.upsert id "a"])]
  let apply (sink : SinkName) (p : ℕ) : List (Action String) :=
    [.engine sink .recv, .engine sink (.commit [request p]), .engine sink .ack]
  let run : List (Action String) := come left ++ come right ++
    [.spawn, .engine left .start, .engine right .start] ++ change ++
    [.ingest (.publish left), .ingest .fail] ++ change ++
    [.ingest (.publish left), .ingest (.publish right), .ingest .published] ++
    apply left 0 ++ apply left 1 ++ apply right 1
  obtain ⟨d, hrun, hstreams, hcall, hchange⟩ := Transition.Machine.exists_of_run
    (m := daemon String c) (s := comeUp String c .missing (fun _ => false) fun _ _ => .absent)
    (t := run)
    (p := fun d => d.streams = 2 ∧ d.confirmCall c = some 1 ∧ (⟨1, [id]⟩ : Change String) ∈ d.changes)
    (by decide)
  exact ⟨d, hstreams, flushed_of_confirmCall (.run reachable_comeUp hrun) hcall hchange
    (Nat.le_refl 1) (by decide)⟩

end Deployment

end Flusso
