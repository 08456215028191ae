import Flusso.Daemon.Watermark
import Mathlib.Data.List.Forall2

/-! # Live batches

The batches of the open live stream cut its changes into consecutive segments.
Every lane carries them in order; while a batch is published some lanes are one
batch ahead of the others.
-/

namespace Flusso

variable {V : Type*}

/-- A batch of live stream `n` over a segment of its changes. -/
def Batches (n : ℕ) (e : Entry V) (segment : List (Change V)) : Prop :=
  ∃ documents, e = .live n (segment.getLast?.map Change.position) segment.length documents ∧
    (documents.map Document.id).Nodup ∧
    ∀ id, id ∈ documents.map Document.id ↔ ∃ change ∈ segment, id ∈ change.ids

/-- A batch of live stream `n`. -/
def Entry.isLive (n : ℕ) : Entry V → Bool
  | .live stream _ _ _ => stream = n
  | _ => false

/-- The batches of live stream `n` in a log. -/
def liveBatches (n : ℕ) (log : List (Entry V)) : List (Entry V) := log.filter (Entry.isLive n)

theorem Batches.isLive {n : ℕ} {e : Entry V} {segment : List (Change V)} (h : Batches n e segment) :
    e.isLive n = true := by
  obtain ⟨documents, rfl, -⟩ := h
  exact decide_eq_true rfl

namespace PendingBatch

/-- The batch in the making holds the changes. -/
structure Holds (b : PendingBatch V) (changes : List (Change V)) : Prop where
  count : b.count = changes.length
  position : b.position = changes.getLast?.map Change.position
  ids : ∀ id, id ∈ b.ids ↔ ∃ change ∈ changes, id ∈ change.ids

theorem holds_new (capacity : ℕ) : (new capacity : PendingBatch V).Holds [] :=
  ⟨rfl, rfl, by simp⟩

theorem Holds.add [DecidableEq V] {b : PendingBatch V} {changes : List (Change V)}
    (h : b.Holds changes) (change : Change V) :
    ({ b.add change.ids with position := some change.position } : PendingBatch V).Holds
      (changes ++ [change]) where
  count := by simp [h.count]
  position := by simp
  ids id := by
    rw [show ({ b.add change.ids with position := some change.position } : PendingBatch V).ids =
      (b.add change.ids).ids from rfl, mem_ids_add, h.ids]
    simp [or_and_right, exists_or]

end PendingBatch

namespace Deployment

variable {c : Config} {d d' : Deployment V} {a : Action V} {sink : SinkName}

/-- The ingest engine follows a live stream, with no batch at hand. -/
def Quiet (phase : IngestPhase V) : Prop :=
  match phase with
  | .down | .prepared | .draining | .publishing _ .live => False
  | _ => True

/-- The segments a lane has the batches of: while a batch is published, the current one too once
the lane has it. -/
def onLane (phase : IngestPhase V) (sink : SinkName) (segments : List (List (Change V)))
    (current : List (Change V)) : List (List (Change V)) :=
  match phase with
  | .publishing todo .live => if sink ∈ todo.map Prod.fst then segments else segments ++ [current]
  | _ => segments

/-- The batch at hand is that of the current segment. -/
def AtHand (n : ℕ) (phase : IngestPhase V) (current : List (Change V)) : Prop :=
  match phase with
  | .draining => current ≠ []
  | .publishing todo .live => current ≠ [] ∧ ∀ entry ∈ todo, Batches n entry.2 current
  | _ => current = []

/-- The changes of the open stream in segments, the last of them current. -/
structure Segmented (c : Config) (d : Deployment V) (segments : List (List (Change V)))
    (current : List (Change V)) : Prop where
  changes : d.changes = segments.flatten ++ current
  closed : ∀ segment ∈ segments, segment ≠ [] ∧ segment.length ≤ c.batchSize
  room : current.length ≤ c.batchSize
  pending : d.ingest.pending.Holds current
  atHand : AtHand d.streams d.ingest.phase current
  lanes : ∀ sink ∈ c.sinks, List.Forall₂ (Batches d.streams)
    (liveBatches d.streams (d.sinks sink).log) (onLane d.ingest.phase sink segments current)

/-- What holds of the batches in every state of the daemon. -/
structure Batching (c : Config) (d : Deployment V) : Prop where
  capacity : d.ingest.pending.capacity = c.batchSize
  streams : ∀ s, ∀ e ∈ (d.sinks s).log, ∀ n, e.isLive n = true → n ≤ d.streams
  todo : ∀ todo after, d.ingest.phase = .publishing todo after → after ≠ .live →
    ∀ entry ∈ todo, ∀ n, entry.2.isLive n = false
  increasing : (d.changes.map Change.position).Pairwise (· < ·)
  issued : ∀ change ∈ d.changes, d.Issued change.position
  fresh : d.ingest.phase = .down ∨ d.ingest.phase = .prepared →
    d.ingest.pending = .new c.batchSize
  segmented : d.ingest.phase ≠ .down → d.ingest.phase ≠ .prepared →
    ∃ segments current, Segmented c d segments current

theorem onLane_quiet {phase : IngestPhase V} (h : Quiet phase) (sink : SinkName)
    (segments : List (List (Change V))) (current : List (Change V)) :
    onLane phase sink segments current = segments := by
  unfold onLane
  split
  · exact h.elim
  · rfl

theorem atHand_quiet {phase : IngestPhase V} (h : Quiet phase) {n : ℕ}
    {current : List (Change V)} : AtHand n phase current ↔ current = [] := by
  unfold AtHand
  split
  · exact h.elim
  · exact h.elim
  · exact Iff.rfl

theorem onLane_cases {phase : IngestPhase V} {n : ℕ} {current : List (Change V)}
    (h : AtHand n phase current) (sink : SinkName) (segments : List (List (Change V))) :
    onLane phase sink segments current = segments ∨
      onLane phase sink segments current = segments ++ [current] ∧ current ≠ [] := by
  by_cases hquiet : Quiet phase
  · exact .inl (onLane_quiet hquiet sink segments current)
  · cases phase with
    | publishing todo after =>
      cases after with
      | live =>
        simp only [onLane]
        split
        · exact .inl rfl
        · exact .inr ⟨rfl, h.1⟩
      | _ => exact absurd trivial hquiet
    | _ => exact .inl rfl

theorem mem_liveBatches {n : ℕ} {log : List (Entry V)} {e : Entry V} :
    e ∈ liveBatches n log ↔ e ∈ log ∧ e.isLive n = true := List.mem_filter

theorem Batching.frame (h : Batching c d) (hstreams : d'.streams = d.streams)
    (hchanges : d'.changes = d.changes) (hpending : d'.ingest.pending = d.ingest.pending)
    (hlog : ∀ s n, liveBatches n (d'.sinks s).log = liveBatches n (d.sinks s).log)
    (hissued : ∀ q, d.Issued q → d'.Issued q)
    (hphase : d'.ingest.phase = d.ingest.phase ∨ Quiet d.ingest.phase ∧ Quiet d'.ingest.phase)
    (htodo : ∀ todo after, d'.ingest.phase = .publishing todo after → after ≠ .live →
      ∀ entry ∈ todo, ∀ n, entry.2.isLive n = false) : Batching c d' where
  capacity := by rw [hpending, h.capacity]
  streams s e he n hn := by
    have hmem := mem_liveBatches.mpr ⟨he, hn⟩
    rw [hlog] at hmem
    rw [hstreams]
    exact h.streams s e (mem_liveBatches.mp hmem).1 n hn
  todo := htodo
  increasing := by rw [hchanges]; exact h.increasing
  issued change hchange := hissued _ (h.issued change (hchanges ▸ hchange))
  fresh hfresh := by
    rcases hphase with hphase | ⟨-, hquiet⟩
    · rw [hpending]
      exact h.fresh (hphase ▸ hfresh)
    · rcases hfresh with hfresh | hfresh <;> · rw [hfresh] at hquiet; exact hquiet.elim
  segmented hdown hprepared := by
    have hrunning : d.ingest.phase ≠ .down ∧ d.ingest.phase ≠ .prepared := by
      rcases hphase with hphase | ⟨hquiet, -⟩
      · exact ⟨hphase ▸ hdown, hphase ▸ hprepared⟩
      · constructor <;> intro heq <;> rw [heq] at hquiet <;> exact hquiet
    obtain ⟨segments, current, hseg⟩ := h.segmented hrunning.1 hrunning.2
    refine ⟨segments, current, by rw [hchanges, hseg.changes], hseg.closed, hseg.room,
      by rw [hpending]; exact hseg.pending, ?_, fun s hs => ?_⟩
    · rw [hstreams]
      rcases hphase with hphase | ⟨hquiet, hquiet'⟩
      · rw [hphase]
        exact hseg.atHand
      · exact (atHand_quiet hquiet').mpr ((atHand_quiet hquiet).mp hseg.atHand)
    · rw [hlog, hstreams]
      rcases hphase with hphase | ⟨hquiet, hquiet'⟩
      · rw [hphase]
        exact hseg.lanes s hs
      · rw [onLane_quiet hquiet', ← onLane_quiet hquiet s segments current]
        exact hseg.lanes s hs

theorem Batching.quiet (h : Batching c d) (hsinks : d'.sinks = d.sinks)
    (hpositions : d'.positions = d.positions) (hstreams : d'.streams = d.streams)
    (hchanges : d'.changes = d.changes) (hpending : d'.ingest.pending = d.ingest.pending)
    (hquiet : Quiet d.ingest.phase) (hquiet' : Quiet d'.ingest.phase)
    (htodo : ∀ todo after, d'.ingest.phase = .publishing todo after → after ≠ .live →
      ∀ entry ∈ todo, ∀ n, entry.2.isLive n = false) : Batching c d' := by
  refine h.frame hstreams hchanges hpending (fun s n => by rw [hsinks]) ?_ (.inr ⟨hquiet, hquiet'⟩)
    htodo
  intro q hq
  rwa [Issued, hpositions]

theorem Batching.live (h : Batching c d) (hphase : d.ingest.phase = .prepared) :
    Batching c { d.ensureSlot with
      positions := some (.new c.startLsn (d.positions.elim 0 Cdc.Positions.nextSeq))
      ingest := { d.ingest with phase := .select }
      streams := d.streams + 1
      changes := [] } := by
  constructor
  · exact h.capacity
  · intro s e he n hn
    rw [log_ensureSlot] at he
    exact Nat.le_succ_of_le (h.streams s e he n hn)
  · simp
  · exact List.Pairwise.nil
  · simp
  · simp
  · intro _ _
    refine ⟨[], [], rfl, by simp, Nat.zero_le _, ?_, rfl, fun s hs => ?_⟩
    · rw [h.fresh (.inr hphase)]
      exact PendingBatch.holds_new _
    · have hnone : liveBatches (d.streams + 1) (d.ensureSlot.sinks s).log = [] := by
        rw [liveBatches, List.filter_eq_nil_iff, log_ensureSlot]
        intro e he hlive
        have hle := h.streams s e he _ hlive
        omega
      rw [hnone]
      exact List.Forall₂.nil

theorem Batching.change [DecidableEq V] (h : Batching c d) {positions : Cdc.Positions} {lsn : ℕ}
    {ids : List (DocumentId V)} (hpoll : d.polling = true) (hpos : d.positions = some positions) :
    Batching c { d with
      positions := some (positions.push lsn)
      ingest := { d.ingest with
        phase := .draining
        pending := { d.ingest.pending.add ids with position := some positions.nextSeq } }
      changes := d.changes ++ [⟨positions.nextSeq, ids⟩] } := by
  have hbelow : ∀ q, d.Issued q → q < positions.nextSeq := by
    rintro q ⟨p, hp, hlt⟩
    rw [hpos] at hp
    cases hp
    exact hlt
  have hrunning : d.ingest.phase ≠ .down ∧ d.ingest.phase ≠ .prepared := by
    rcases polling_phase hpoll with hphase | hphase <;> rw [hphase] <;> exact ⟨nofun, nofun⟩
  constructor
  · exact h.capacity
  · exact h.streams
  · simp
  · rw [List.map_append, List.pairwise_append]
    refine ⟨h.increasing, List.pairwise_singleton _ _, ?_⟩
    intro p hp q hq
    obtain ⟨change, hchange, rfl⟩ := List.mem_map.mp hp
    obtain rfl : q = positions.nextSeq := by simpa using hq
    exact hbelow _ (h.issued change hchange)
  · intro change hchange
    rcases List.mem_append.mp hchange with hold | hnew
    · exact ⟨_, rfl, Nat.lt_succ_of_lt (hbelow _ (h.issued change hold))⟩
    · obtain rfl := List.mem_singleton.mp hnew
      exact ⟨_, rfl, Nat.lt_succ_self _⟩
  · simp
  · intro _ _
    obtain ⟨segments, current, hseg⟩ := h.segmented hrunning.1 hrunning.2
    refine ⟨segments, current ++ [⟨positions.nextSeq, ids⟩], ?_, hseg.closed, ?_,
      hseg.pending.add ⟨positions.nextSeq, ids⟩, by simp [AtHand], fun s hs => ?_⟩
    · simp [hseg.changes]
    · have hroom : current.length < c.batchSize := by
        rcases polling_phase hpoll with hphase | hphase
        · have hnil : current = [] := by simpa [AtHand, hphase] using hseg.atHand
          rw [hnil]
          exact Nat.lt_of_lt_of_le Nat.zero_lt_one (Nat.le_max_right _ _)
        · have hfull : d.ingest.pending.isFull = false := by
            simp only [polling, hphase, Bool.and_eq_true, Bool.not_eq_true'] at hpoll
            exact hpoll.2
          rw [PendingBatch.isFull, decide_eq_false_iff_not, h.capacity, hseg.pending.count] at hfull
          omega
      rw [List.length_append, List.length_singleton]
      omega
    · have hlane := hseg.lanes s hs
      rcases polling_phase hpoll with hphase | hphase <;> rw [hphase] at hlane <;> exact hlane

theorem Batching.commitLive [DecidableEq V] (h : Batching c d) {documents : List (Document V)}
    (hphase : d.ingest.phase = .draining)
    (hperm : (documents.map Document.id).Perm d.ingest.pending.ids) :
    Batching c { d with ingest := { d.ingest with
      phase := .publishing (c.sinks.map fun sink => (sink, d.liveEntry documents)) .live } } := by
  constructor
  · exact h.capacity
  · exact h.streams
  · rintro todo after ⟨⟩ hafter
    exact absurd rfl hafter
  · exact h.increasing
  · exact h.issued
  · simp
  · intro _ _
    obtain ⟨segments, current, hseg⟩ := h.segmented (by simp [hphase]) (by simp [hphase])
    have hcurrent : current ≠ [] := by simpa [AtHand, hphase] using hseg.atHand
    have hbatch : Batches d.streams (d.liveEntry documents) current := by
      refine ⟨documents, ?_, hperm.symm.nodup d.ingest.pending.nodup, fun id => ?_⟩
      · rw [liveEntry, hseg.pending.position, hseg.pending.count]
      · rw [hperm.mem_iff, hseg.pending.ids]
    refine ⟨segments, current, hseg.changes, hseg.closed, hseg.room, hseg.pending,
      ⟨hcurrent, ?_⟩, fun s hs => ?_⟩
    · intro entry hentry
      obtain ⟨s, -, rfl⟩ := List.mem_map.mp hentry
      exact hbatch
    · have hlane := hseg.lanes s hs
      rw [hphase] at hlane
      have htodo : s ∈ (c.sinks.map fun sink => (sink, d.liveEntry documents)).map Prod.fst := by
        rw [List.map_map]
        exact List.mem_map.mpr ⟨s, hs, rfl⟩
      change List.Forall₂ _ _ (if _ then _ else _)
      rw [if_pos htodo]
      exact hlane

theorem Batching.publishedLive (h : Batching c d) (hphase : d.ingest.phase = .publishing [] .live) :
    Batching c { d with ingest := { d.ingest with
      phase := .select, pending := d.ingest.pending.clear } } := by
  constructor
  · exact h.capacity
  · exact h.streams
  · simp
  · exact h.increasing
  · exact h.issued
  · simp
  · intro _ _
    obtain ⟨segments, current, hseg⟩ := h.segmented (by simp [hphase]) (by simp [hphase])
    have hcurrent : current ≠ [] := by
      have hat := hseg.atHand
      rw [hphase] at hat
      exact hat.1
    refine ⟨segments ++ [current], [], ?_, ?_, Nat.zero_le _, PendingBatch.holds_new _, rfl,
      fun s hs => ?_⟩
    · simp [hseg.changes]
    · intro segment hsegment
      rcases List.mem_append.mp hsegment with hold | hnew
      · exact hseg.closed segment hold
      · obtain rfl := List.mem_singleton.mp hnew
        exact ⟨hcurrent, hseg.room⟩
    · have hlane := hseg.lanes s hs
      rw [hphase] at hlane
      exact hlane

theorem Batching.publish (h : Batching c d) {todo : List (SinkName × Entry V)} {after : After}
    {entry : Entry V} {side : SinkSide V} (hphase : d.ingest.phase = .publishing todo after)
    (hmem : (sink, entry) ∈ todo) (hside : (d.sinks sink).publish entry = some side) :
    Batching c { d with
      sinks := Function.update d.sinks sink side
      ingest := { d.ingest with
        phase := .publishing (todo.filter fun entry => entry.1 ≠ sink) after } } := by
  obtain ⟨lane, -, rfl⟩ := SinkSide.publish_cases hside
  by_cases hafter : after = .live
  · subst hafter
    obtain ⟨segments, current, hseg⟩ := h.segmented (by simp [hphase]) (by simp [hphase])
    have hat := hseg.atHand
    rw [hphase] at hat
    have hbatch : Batches d.streams entry current := hat.2 _ hmem
    constructor
    · exact h.capacity
    · intro s e he n hn
      by_cases hs : s = sink
      · subst hs
        simp only [Function.update_self] at he
        rcases List.mem_append.mp he with he | he
        · exact h.streams s e he n hn
        · obtain rfl := List.mem_singleton.mp he
          obtain ⟨documents, rfl, -⟩ := hbatch
          exact Nat.le_of_eq (of_decide_eq_true hn).symm
      · simp only [Function.update_of_ne hs] at he
        exact h.streams s e he n hn
    · rintro todo' after' ⟨⟩ hne
      exact absurd rfl hne
    · exact h.increasing
    · exact h.issued
    · simp
    · intro _ _
      refine ⟨segments, current, hseg.changes, hseg.closed, hseg.room, hseg.pending,
        ⟨hat.1, fun e he => hat.2 e (List.mem_of_mem_filter he)⟩, fun s hs => ?_⟩
      have hlane := hseg.lanes s hs
      rw [hphase] at hlane
      change List.Forall₂ _ _ (if _ then _ else _) at hlane
      change List.Forall₂ _ _ (if _ then _ else _)
      by_cases hsink : s = sink
      · subst hsink
        have hgone : s ∉ (todo.filter fun entry => entry.1 ≠ s).map Prod.fst := by
          intro hin
          obtain ⟨e, he, rfl⟩ := List.mem_map.mp hin
          exact of_decide_eq_true (List.mem_filter.mp he).2 rfl
        rw [if_pos (List.mem_map.mpr ⟨_, hmem, rfl⟩)] at hlane
        rw [if_neg hgone]
        simp only [Function.update_self]
        rw [liveBatches, List.filter_append]
        refine List.rel_append hlane ?_
        rw [List.filter_cons_of_pos hbatch.isLive]
        exact List.Forall₂.cons hbatch List.Forall₂.nil
      · have hkept : s ∈ (todo.filter fun entry => entry.1 ≠ sink).map Prod.fst ↔
            s ∈ todo.map Prod.fst := by
          simp only [List.mem_map, List.mem_filter, decide_eq_true_eq]
          constructor
          · rintro ⟨e, ⟨he, -⟩, rfl⟩
            exact ⟨e, he, rfl⟩
          · rintro ⟨e, he, rfl⟩
            exact ⟨e, ⟨he, hsink⟩, rfl⟩
        simp only [Function.update_of_ne hsink]
        rwa [if_congr hkept rfl rfl]
  · have hnot : ∀ n, entry.isLive n = false := h.todo todo after hphase hafter _ hmem
    have hquiet : ∀ todo : List (SinkName × Entry V), Quiet (.publishing todo after) := by
      cases after <;> first | exact absurd rfl hafter | exact fun _ => trivial
    refine h.frame rfl rfl rfl (fun s n => ?_) (fun q hq => hq)
      (.inr ⟨by rw [hphase]; exact hquiet _, hquiet _⟩) ?_
    · by_cases hs : s = sink
      · subst hs
        simp only [Function.update_self]
        rw [liveBatches, List.filter_append, List.filter_cons_of_neg (by simp [hnot n])]
        exact List.append_nil _
      · simp only [Function.update_of_ne hs]
    · rintro todo' after' ⟨⟩ hne e he
      exact h.todo todo after hphase hafter e (List.mem_of_mem_filter he)

theorem isLive_markers {snapshot : Snapshot V} {entry : SinkName × Entry V}
    (h : entry ∈ toLanes c snapshot.markers) (n : ℕ) : entry.2.isLive n = false := by
  obtain ⟨_, -, he⟩ := Snapshot.mem_markers.mp (List.mem_of_mem_filter h)
  rw [he]
  rfl

theorem isLive_slices {snapshot : Snapshot V} {documents : List (Document V)}
    {entry : SinkName × Entry V} (h : entry ∈ toLanes c (snapshot.slices documents)) (n : ℕ) :
    entry.2.isLive n = false := by
  obtain ⟨_, -, he, -⟩ := Snapshot.mem_slices.mp (List.mem_of_mem_filter h)
  rw [he]
  rfl

variable [DecidableEq V] [ValueText V]

theorem Batching.step (h : Batching c d) (ho : ∀ s, (d.sinks s).OnLane)
    (hs : d.step c a = some d') : Batching c d' := by
  cases move_of_step hs with
  | slot => exact h.frame rfl rfl rfl (fun _ _ => rfl) (fun _ hq => hq) (.inl rfl) h.todo
  | spawn => exact h.frame rfl rfl rfl (fun _ _ => rfl) (fun _ hq => hq) (.inl rfl) h.todo
  | prepare hphase _ =>
    constructor
    · exact h.capacity
    · intro s e he n hn
      rw [streams_ensureSlot]
      exact h.streams s e (log_ensureSlot s ▸ he) n hn
    · simp
    · rw [changes_ensureSlot]
      exact h.increasing
    · intro change hchange
      rw [changes_ensureSlot] at hchange
      simpa only [Issued, positions_ensureSlot] using h.issued change hchange
    · exact fun _ => h.fresh (.inl hphase)
    · exact fun _ hnot => absurd rfl hnot
  | live hphase _ => exact h.live hphase
  | change hpoll hpos => exact h.change hpoll hpos
  | @idle lsn positions hpoll hpos =>
    refine h.frame rfl rfl rfl (fun _ _ => rfl) ?_ (.inl rfl) h.todo
    rintro q ⟨p, hp, hlt⟩
    rw [hpos] at hp
    cases hp
    exact ⟨_, rfl, Nat.lt_of_lt_of_le hlt positions.nextSeq_le_registerConfirmed⟩
  | endLive _ => exact h.frame rfl rfl rfl (fun _ _ => rfl) (fun _ hq => hq) (.inl rfl) h.todo
  | commitLive hphase hperm => exact h.commitLive hphase hperm
  | takeRequest hphase _ _ =>
    exact h.quiet rfl rfl rfl rfl rfl (by rw [hphase]; trivial) trivial (by simp)
  | collect hphase _ =>
    exact h.quiet rfl rfl rfl rfl rfl (by rw [hphase]; trivial) trivial (by simp)
  | startSnapshot hphase hnext =>
    rcases hnext with ⟨rfl, -⟩ | rfl
    · refine h.quiet rfl rfl rfl rfl rfl (by rw [hphase]; trivial) trivial ?_
      rintro todo after ⟨⟩ _ entry hmem
      exact isLive_markers hmem
    · exact h.quiet rfl rfl rfl rfl rfl (by rw [hphase]; trivial) trivial (by simp)
  | row hphase _ _ _ =>
    exact h.quiet rfl rfl rfl rfl rfl (by rw [hphase]; trivial) (by rw [hphase]; trivial)
      (by simp [hphase])
  | rowCommit hphase _ _ _ _ =>
    refine h.quiet rfl rfl rfl rfl rfl (by rw [hphase]; trivial) trivial ?_
    rintro todo after ⟨⟩ _ entry hmem
    exact isLive_slices hmem
  | endSnapshot hphase _ _ _ =>
    refine h.quiet rfl rfl rfl rfl rfl (by rw [hphase]; trivial) trivial ?_
    rintro todo after ⟨⟩ _ entry hmem
    exact isLive_markers hmem
  | endSnapshotCommit hphase _ _ _ =>
    refine h.quiet rfl rfl rfl rfl rfl (by rw [hphase]; trivial) trivial ?_
    rintro todo after ⟨⟩ _ entry hmem
    exact isLive_slices hmem
  | publish hphase hmem hside => exact h.publish hphase hmem hside
  | publishedLive hphase => exact h.publishedLive hphase
  | publishedSlice _ hphase =>
    exact h.quiet rfl rfl rfl rfl rfl (by rw [hphase]; trivial) trivial (by simp)
  | publishedLastSlice _ hphase =>
    refine h.quiet rfl rfl rfl rfl rfl (by rw [hphase]; trivial) trivial ?_
    rintro todo after ⟨⟩ _ entry hmem
    exact isLive_markers hmem
  | publishedMarkers _ hphase =>
    exact h.quiet rfl rfl rfl rfl rfl (by rw [hphase]; trivial) trivial (by simp)
  | ackRequest hphase =>
    exact h.quiet rfl rfl rfl rfl rfl (by rw [hphase]; trivial) trivial (by simp)
  | finished hphase =>
    exact h.quiet rfl rfl rfl rfl rfl (by rw [hphase]; trivial) trivial (by simp)
  | @confirm p _ =>
    refine h.frame rfl rfl rfl (fun _ _ => rfl) ?_ (.inl rfl) h.todo
    rintro q ⟨positions, hpos, hlt⟩
    exact ⟨positions.confirm p, by simp only [hpos, Option.map_some], hlt⟩
  | stop hphase _ =>
    exact h.quiet rfl rfl rfl rfl rfl (by rw [hphase]; trivial) trivial (by simp)
  | fail _ _ =>
    constructor
    · rfl
    · exact h.streams
    · simp [Ingest.down]
    · exact h.increasing
    · exact h.issued
    · exact fun _ => rfl
    · exact fun hnot => absurd rfl hnot
  | @request sink indexes staging requests _ _ _ =>
    have hlog : ∀ s, ((d.withSide sink ((d.sinks sink).requested indexes staging)).sinks s).log =
        (d.sinks s).log := log_update rfl
    exact h.frame rfl rfl rfl (fun s n => congrArg (liveBatches n) (hlog s)) (fun _ hq => hq)
      (.inl rfl) h.todo
  | engine _ _ hside =>
    have hlog := log_update (log_sideStep (ho _) hside)
    exact h.frame rfl rfl rfl (fun s n => congrArg (liveBatches n) (hlog s)) (fun _ hq => hq)
      (.inl rfl) h.todo

theorem batching_of_reachable (h : (daemon V c).Reachable d) : Batching c d := by
  refine Transition.Machine.Reachable.invariant (m := daemon V c) (P := Batching c)
    (fun d hd => ?_) (fun d a d' hr hp hs => hp.step (onLane_of_reachable hr) hs) h
  constructor
  · rw [hd.ingest]
    rfl
  · simp [hd.log]
  · simp [hd.ingest, Ingest.down]
  · simp [hd.changes]
  · simp [hd.changes]
  · intro _
    rw [hd.ingest]
    rfl
  · intro hdown
    exact absurd (by rw [hd.ingest]; rfl) hdown

omit [DecidableEq V] [ValueText V] in
/-- Batches over consecutive segments of increasing changes have increasing positions. -/
theorem pairwise_position {n : ℕ} {entries : List (Entry V)} {segments : List (List (Change V))}
    (h : List.Forall₂ (Batches n) entries segments)
    (hincreasing : (segments.flatten.map Change.position).Pairwise (· < ·)) :
    (entries.filterMap Entry.position).Pairwise (· < ·) ∧
      ∀ p ∈ entries.filterMap Entry.position, p ∈ segments.flatten.map Change.position := by
  induction h with
  | nil => simp
  | @cons e segment entries segments he _ ih =>
    rw [List.flatten_cons, List.map_append, List.pairwise_append] at hincreasing
    obtain ⟨-, hrest, hbetween⟩ := hincreasing
    obtain ⟨hpairwise, hmem⟩ := ih hrest
    obtain ⟨documents, rfl, -⟩ := he
    have hlast : ∀ p, segment.getLast?.map Change.position = some p →
        p ∈ segment.map Change.position := by
      intro p hp
      obtain ⟨change, hchange, rfl⟩ := Option.map_eq_some_iff.mp hp
      exact List.mem_map_of_mem (List.mem_of_getLast? hchange)
    rw [List.filterMap_cons, List.flatten_cons, List.map_append]
    cases hposition : segment.getLast?.map Change.position with
    | none => exact ⟨by simpa [Entry.position, hposition] using hpairwise,
        fun p hp => List.mem_append_right _ (hmem p (by simpa [Entry.position, hposition] using hp))⟩
    | some p =>
      simp only [Entry.position]
      refine ⟨List.pairwise_cons.mpr ⟨fun q hq => ?_, hpairwise⟩, fun q hq => ?_⟩
      · exact hbetween p (hlast p hposition) q (hmem q hq)
      · rcases List.mem_cons.mp hq with rfl | hq
        · exact List.mem_append_left _ (hlast q hposition)
        · exact List.mem_append_right _ (hmem q hq)

/-- While the ingest engine runs, the batches of its live stream on each lane are of consecutive
segments of the stream's changes, all segments on every lane but the one at hand, and between
two batches none is at hand. -/
theorem segments_of_reachable (h : (daemon V c).Reachable d) (hdown : d.ingest.phase ≠ .down)
    (hprepared : d.ingest.phase ≠ .prepared) :
    ∃ segments current, d.changes = segments.flatten ++ current ∧
      (∀ segment ∈ segments, segment ≠ [] ∧ segment.length ≤ c.batchSize) ∧
      current.length ≤ c.batchSize ∧ (Quiet d.ingest.phase → current = []) ∧
      ∀ sink ∈ c.sinks, ∃ published,
        List.Forall₂ (Batches d.streams) (liveBatches d.streams (d.sinks sink).log) published ∧
        (published = segments ∨ published = segments ++ [current] ∧ current ≠ []) ∧
        ((liveBatches d.streams (d.sinks sink).log).filterMap Entry.position).Pairwise (· < ·) := by
  have hbatching := batching_of_reachable h
  obtain ⟨segments, current, hseg⟩ := hbatching.segmented hdown hprepared
  refine ⟨segments, current, hseg.changes, hseg.closed, hseg.room,
    fun hquiet => (atHand_quiet hquiet).mp hseg.atHand, fun sink hsink => ?_⟩
  have hincreasing := hbatching.increasing
  rw [hseg.changes] at hincreasing
  have hlane := hseg.lanes sink hsink
  have hcases := onLane_cases hseg.atHand sink segments
  refine ⟨_, hlane, hcases, (pairwise_position hlane ?_).1⟩
  rcases hcases with heq | ⟨heq, -⟩ <;> rw [heq]
  · rw [List.map_append] at hincreasing
    exact (List.pairwise_append.mp hincreasing).1
  · simpa using hincreasing

/-- Two changes of one row make one batch, a change of a table no index reads the next. -/
theorem segments_of_two_batches :
    ∃ d : Deployment String, d.streams = 1 ∧
      ∃ segments current, d.changes = segments.flatten ++ current ∧
        (∀ segment ∈ segments, segment ≠ [] ∧ segment.length ≤ 2) ∧
        current.length ≤ 2 ∧ (Quiet d.ingest.phase → current = []) ∧
        ∀ sink ∈ [(⟨"left"⟩ : SinkName)], ∃ published,
          List.Forall₂ (Batches d.streams) (liveBatches d.streams (d.sinks sink).log) published ∧
          (published = segments ∨ published = segments ++ [current] ∧ current ≠ []) ∧
          ((liveBatches d.streams (d.sinks sink).log).filterMap
            Entry.position).Pairwise (· < ·) := by
  let left : SinkName := ⟨"left"⟩
  let id : DocumentId String := ⟨⟨"users"⟩, [(⟨"id"⟩, "1")]⟩
  let c : Config := .mirror [left] (by decide) 2 2
  let change (table : String) : Action String := .ingest (.change ⟨table⟩ id.key [] 10)
  let publish : List (Action String) := [.ingest (.publish left), .ingest .published]
  let run : List (Action String) :=
    [.engine left .stage, .engine left .call, .engine left .advance, .spawn, .ingest .prepare,
      .ingest .live, change "users", change "users", .ingest (.commitLive [.upsert id "a"])] ++
    publish ++ [change "logs", .ingest (.commitLive [])] ++ publish
  obtain ⟨d, hrun, hstreams, hdown, hprepared⟩ := Transition.Machine.exists_of_run
    (m := daemon String c) (s := comeUp String c .missing (fun _ => false) fun _ _ => .absent)
    (t := run)
    (p := fun d => d.streams = 1 ∧ d.ingest.phase ≠ .down ∧ d.ingest.phase ≠ .prepared)
    (by decide)
  exact ⟨d, hstreams, segments_of_reachable (.run reachable_comeUp hrun) hdown hprepared⟩

end Deployment

end Flusso
