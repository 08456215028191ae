import Flusso.Daemon.Answers
import Flusso.Daemon.Staging

/-! # What an index still waits for

A request on its way to a snapshot and a marker on its way to the sink each
complete an index once. While no failure puts back what a marker answered, an
index waits for at most one of them, and only while the engine holds it
outstanding.
-/

namespace Flusso

variable {V : Type*} {c : Config}

namespace Entry

def isMarker : Entry V → Bool
  | .complete _ _ => true
  | _ => false

/-- The entry is the completion marker of a snapshot. -/
def ends (n : ℕ) : Entry V → Bool
  | .complete m _ => m = n
  | _ => false

/-- The entry is a completion marker for an index. -/
def completes (i : IndexName) : Entry V → Bool
  | .complete _ indexes => i ∈ indexes
  | _ => false

variable {e : Entry V} {i : IndexName}

theorem completes_eq_false (h : ∀ n indexes, e ≠ .complete n indexes) : e.completes i = false := by
  cases e with
  | complete n indexes => exact absurd rfl (h n indexes)
  | _ => rfl

theorem completes_of_not_isMarker (h : e.isMarker = false) : e.completes i = false := by
  cases e with
  | complete n indexes => cases h
  | _ => rfl

end Entry

namespace SinkSide

variable (s : SinkSide V)

/-- How many items of its lane the engine is done with. -/
def consumed : ℕ :=
  match s.phase with
  | .acking ticket => ticket + 1
  | _ => s.lane.done

/-- The items still to be consumed. -/
def ahead : List (Entry V) := s.log.drop s.consumed

/-- The engine is about to acknowledge a marker. -/
def sealing : Bool :=
  match s.phase with
  | .acking ticket => s.log[ticket]?.any Entry.isMarker
  | _ => false

variable {s} {s' : SinkSide V} {i : IndexName}

theorem consumed_eq (h : ∀ t, s.phase ≠ .acking t) : s.consumed = s.lane.done := by
  unfold consumed
  split
  · next t hphase => exact absurd hphase (h t)
  · rfl

theorem consumed_acking {t : ℕ} (h : s.phase = .acking t) : s.consumed = t + 1 := by
  simp only [consumed, h]

theorem ahead_eq (hlog : s'.log = s.log) (hconsumed : s'.consumed = s.consumed) :
    s'.ahead = s.ahead := by
  rw [ahead, ahead, hlog, hconsumed]

theorem ahead_suffix (hlog : s'.log = s.log) (hconsumed : s.consumed ≤ s'.consumed) :
    s'.ahead <:+ s.ahead := by
  rw [ahead, ahead, hlog]
  exact List.drop_suffix_drop_left _ hconsumed

theorem consumed_congr (hphase : s'.phase = s.phase) (hdone : s'.lane.done = s.lane.done) :
    s'.consumed = s.consumed := by
  rw [consumed, consumed, hphase, hdone]

theorem consumed_requested {indexes : List IndexName} {staging : Option Continuity}
    (hphase : s.phase = .requesting indexes staging) :
    (s.requested indexes staging).consumed = s.consumed := by
  rw [consumed_eq (s := s) (by simp [hphase]), consumed_eq]
  · rfl
  · simp only [requested]
    split <;> simp

theorem ahead_requested {indexes : List IndexName} {staging : Option Continuity}
    (hphase : s.phase = .requesting indexes staging) :
    (s.requested indexes staging).ahead = s.ahead :=
  ahead_eq rfl (consumed_requested hphase)

theorem OnLane.consumed_le (h : s.OnLane) : s.consumed ≤ s.log.length := by
  have hseq := h.sequential
  unfold consumed
  split
  · next t hphase =>
    rw [hphase] at hseq
    obtain ⟨-, e, hget⟩ := hseq.held_eq
    exact (List.getElem?_eq_some_iff.mp hget).1
  · exact hseq.done_le

theorem OnLane.done_le_consumed (h : s.OnLane) : s.lane.done ≤ s.consumed := by
  have hseq := h.sequential
  unfold consumed
  split
  · next t hphase =>
    rw [hphase] at hseq
    obtain ⟨rfl, -⟩ := hseq.held_eq
    exact Nat.le_succ _
  · exact Nat.le_refl _

theorem ahead_publish {e : Entry V} (ho : s.OnLane) (hp : s.publish e = some s') :
    s'.ahead = s.ahead ++ [e] ∧ s'.consumed = s.consumed := by
  obtain ⟨lane, hlane, rfl⟩ := publish_cases hp
  have hconsumed : ({ s with lane, log := s.log ++ [e] } : SinkSide V).consumed = s.consumed :=
    consumed_congr rfl (ho.sequential.publish hlane).2
  refine ⟨?_, hconsumed⟩
  rw [ahead, ahead, hconsumed, List.drop_append_of_le_length ho.consumed_le]

theorem ahead_consume {e : Entry V} (hlog : s'.log = s.log)
    (hconsumed : s'.consumed = s.consumed + 1) (hget : s.log[s.consumed]? = some e) :
    s.ahead = e :: s'.ahead := by
  obtain ⟨hlt, rfl⟩ := List.getElem?_eq_some_iff.mp hget
  rw [ahead, ahead, hlog, hconsumed, List.drop_eq_getElem_cons hlt]

/-- A step drops an index from what is outstanding only by consuming its marker, and puts no
marker back. -/
def Spends (s s' : SinkSide V) : Prop :=
  ∀ i, s'.ahead.countP (Entry.completes i) + (if i ∈ s.outstanding then 1 else 0) ≤
    s.ahead.countP (Entry.completes i) + if i ∈ s'.outstanding then 1 else 0

end SinkSide

namespace Deployment

variable (d : Deployment V) (sink : SinkName)

/-- The sink's marker of the running snapshot is out. -/
def marked : Bool :=
  match d.ingest.phase with
  | .publishing todo .markers => sink ∉ todo.map Prod.fst
  | .acking _ => true
  | _ => false

/-- The requests a snapshot will still answer on the sink's lane. -/
def openRequests : List (ℕ × Request) :=
  if d.marked sink then d.requests.due else d.requests.present

/-- The delivery asks for an index of the sink. -/
def asks (sink : SinkName) (i : IndexName) (delivery : ℕ × Request) : Bool :=
  delivery.2.sink = sink ∧ i ∈ delivery.2.indexes

/-- The requests and markers an index waits for. -/
def awaited (i : IndexName) : ℕ :=
  (d.openRequests sink).countP (asks sink i) + (d.sinks sink).ahead.countP (Entry.completes i)

/-- Ingest holds a request whose sink has its marker on the lane already. -/
def holdsAnswered : Bool :=
  d.ingest.snapshot.any fun s => d.ingest.heldTickets.any fun t =>
    d.requestLog[t]?.any fun r => (d.sinks r.sink).log.any (Entry.ends s.number)

/-- No failure puts back what a marker answered: ingest does not fail holding a request whose
marker is out, nor a sink engine between marking its indexes seeded and the acknowledgement. -/
def undisturbed : Action V → Bool
  | .ingest .fail => !d.holdsAnswered
  | .engine sink .fail => !(d.sinks sink).sealing
  | _ => true

/-- Each index waits for at most one request or marker, and only while it is outstanding. -/
def Single : Prop :=
  ∀ sink i, d.awaited sink i ≤ if i ∈ (d.sinks sink).outstanding then 1 else 0

variable {d} {d' : Deployment V} {a : Action V} {sink : SinkName} {i : IndexName}

theorem asks_iff {t : ℕ} {r : Request} : asks sink i (t, r) = true ↔ r.sink = sink ∧ i ∈ r.indexes := by
  simp [asks]

theorem marked_eq_false (hmarkers : ∀ todo, d.ingest.phase ≠ .publishing todo .markers)
    (hacking : ∀ handles, d.ingest.phase ≠ .acking handles) : d.marked sink = false := by
  unfold marked
  split
  · next todo hphase => exact absurd hphase (hmarkers todo)
  · next handles hphase => exact absurd hphase (hacking handles)
  · rfl

theorem marked_of_polling (h : d.polling = true) : d.marked sink = false := by
  rcases polling_phase h with hphase | hphase <;> simp [marked, hphase]

theorem openRequests_of_unmarked (h : d.marked sink = false) :
    d.openRequests sink = d.requests.present := by
  simp [openRequests, h]

theorem openRequests_sublist : (d.openRequests sink).Sublist d.requests.present := by
  unfold openRequests
  split
  · exact List.drop_sublist _ _
  · exact .refl _

theorem openRequests_eq (hmarked : d'.marked sink = d.marked sink)
    (hrequests : d'.requests = d.requests) : d'.openRequests sink = d.openRequests sink := by
  rw [openRequests, openRequests, hmarked, hrequests]

theorem Single.ingest (h : d.Single) (hahead : ∀ s, (d'.sinks s).ahead = (d.sinks s).ahead)
    (hout : ∀ s, (d'.sinks s).outstanding = (d.sinks s).outstanding)
    (hopen : ∀ s i, (d'.openRequests s).countP (asks s i) ≤ (d.openRequests s).countP (asks s i)) :
    d'.Single := by
  intro s i
  have hbound := h s i
  have hle := hopen s i
  rw [awaited] at hbound ⊢
  rw [hahead, hout]
  omega

theorem Single.unmarked (h : d.Single) (hahead : ∀ s, (d'.sinks s).ahead = (d.sinks s).ahead)
    (hout : ∀ s, (d'.sinks s).outstanding = (d.sinks s).outstanding)
    (hmarked : ∀ s, d.marked s = false) (hpresent : d'.requests.present = d.requests.present) :
    d'.Single := by
  refine h.ingest hahead hout fun s i => ?_
  rw [openRequests_of_unmarked (hmarked s), ← hpresent]
  exact openRequests_sublist.countP_le

theorem Single.beside (h : d.Single) (hahead : ∀ s, (d'.sinks s).ahead = (d.sinks s).ahead)
    (hout : ∀ s, (d'.sinks s).outstanding = (d.sinks s).outstanding)
    (hingest : d'.ingest = d.ingest) (hrequests : d'.requests = d.requests) : d'.Single := by
  refine h.ingest hahead hout fun s i => ?_
  rw [openRequests_eq (by rw [marked, marked, hingest]) hrequests]

theorem ahead_ensureSlot (s : SinkName) : (d.ensureSlot.sinks s).ahead = (d.sinks s).ahead := by
  rcases sinks_ensureSlot (d := d) (s := s) with h | h <;> rw [h]
  rfl

theorem outstanding_ensureSlot (s : SinkName) :
    (d.ensureSlot.sinks s).outstanding = (d.sinks s).outstanding := by
  rcases sinks_ensureSlot (d := d) (s := s) with h | h <;> rw [h]
  rfl

theorem Serving.exists_held {held : List (ℕ × Request)} (h : d.Serving c held) {s : Snapshot V}
    (hsnap : d.ingest.snapshot = some s) (hacking : ∀ handles, d.ingest.phase ≠ .acking handles)
    (hasks : s.requested.Asks sink i) : 0 < held.countP (asks sink i) := by
  obtain ⟨run, hrun, hserves, -⟩ := h.running s hsnap
  rw [h.held_eq hsnap hrun hacking]
  rw [hserves.requested] at hasks
  obtain ⟨delivery, hmem, hsink, hknown⟩ := asks_requestedOf.mp hasks
  refine List.countP_pos_iff.mpr ⟨delivery, hmem, ?_⟩
  exact asks_iff.mpr ⟨hsink, (mem_known.mp hknown).1⟩

/-- The marker that answers a request ingest holds, once it is out. -/
theorem Answering.exists_marker {held : List (ℕ × Request)} {t : ℕ} {r : Request}
    (h : d.Answering c) (ht : d.Todo c) (hserving : d.Serving c held) (hmem : (t, r) ∈ held)
    (hmarked : d.marked r.sink = true) :
    ∃ s indexes, d.ingest.snapshot = some s ∧ .complete s.number indexes ∈ (d.sinks r.sink).log := by
  have hsink := hserving.sinks r (List.mem_of_getElem? (hserving.asked_held hmem))
  have hrequested {s : Snapshot V} (hsnap : d.ingest.snapshot = some s) :
      ∃ indexes, (r.sink, indexes) ∈ s.requested := by
    obtain ⟨run, -, hserves, hsuffix⟩ := hserving.running s hsnap
    have hkey : r.sink ∈ (requestedOf c.scopes _).map Prod.fst :=
      mem_keys_requestedOf.mpr ⟨_, hsuffix.subset hmem, rfl⟩
    obtain ⟨⟨_, indexes⟩, hentry, rfl⟩ := List.mem_map.mp hkey
    exact ⟨indexes, hserves.requested ▸ hentry⟩
  unfold marked at hmarked
  split at hmarked
  · next todo hphase =>
    obtain ⟨s, hsnap, -⟩ := ht.markers todo hphase
    obtain ⟨indexes, hentry⟩ := hrequested hsnap
    refine ⟨s, indexes, hsnap, ?_⟩
    exact (h.marking s todo hsnap hphase _ hsink indexes hentry).resolve_left (by simpa using hmarked)
  · next handles hphase =>
    obtain ⟨s, hsnap⟩ := hserving.acking handles hphase
    obtain ⟨indexes, hentry⟩ := hrequested hsnap
    exact ⟨s, indexes, hsnap, h.acking s handles hsnap hphase _ hsink indexes hentry⟩
  · cases hmarked

/-- Unless ingest holds a request whose marker is out, everything present is open. -/
theorem Answering.countP_openRequests {held : List (ℕ × Request)} (h : d.Answering c)
    (ht : d.Todo c) (hserving : d.Serving c held) (hheld : d.holdsAnswered = false) :
    (d.openRequests sink).countP (asks sink i) = d.requests.present.countP (asks sink i) := by
  unfold openRequests
  split
  · next hmarked =>
    have hnone : held.countP (asks sink i) = 0 := by
      rw [List.countP_eq_zero]
      rintro ⟨t, r⟩ hmem hasks
      obtain ⟨rfl, -⟩ := asks_iff.mp hasks
      obtain ⟨s, indexes, hsnap, hmarker⟩ := h.exists_marker ht hserving hmem hmarked
      have hticket : t ∈ d.ingest.heldTickets :=
        hserving.tickets ▸ List.mem_map.mpr ⟨_, hmem, rfl⟩
      simp only [holdsAnswered, hsnap, Option.any_some, List.any_eq_false] at hheld
      have hends := hheld t hticket
      rw [hserving.asked_held hmem, Option.any_some, List.any_eq_true] at hends
      exact hends ⟨_, hmarker, by simp [Entry.ends]⟩
    rw [hserving.lane.present_eq, List.countP_append, hnone, Nat.zero_add]
  · rfl

theorem Single.request {held : List (ℕ × Request)} {indexes : List IndexName}
    {staging : Option Continuity} {requests : Stream.Channel Request} (h : d.Single)
    (hserving : d.Serving c held) (hstaging : (d.sinks sink).Staging c.engine)
    (hphase : (d.sinks sink).phase = .requesting indexes staging)
    (hp : d.requests.publish { sink, indexes } = some requests)
    (hd' : d' = { d.withSide sink ((d.sinks sink).requested indexes staging) with
      requests
      requestLog := d.requestLog ++ [{ sink, indexes }] }) : d'.Single := by
  obtain ⟨-, hpresent, hdue⟩ := hserving.lane.publish hp
  have hopen (s : SinkName) :
      d'.openRequests s = d.openRequests s ++ [(d.requestLog.length, ⟨sink, indexes⟩)] := by
    have hmarked : d'.marked s = d.marked s := by rw [hd']; rfl
    have hrequests : d'.requests = requests := by rw [hd']
    rw [openRequests, openRequests, hmarked, hrequests, hpresent, hdue]
    split <;> rfl
  intro s i
  have hbound := h s i
  rw [awaited] at hbound ⊢
  rw [hopen, List.countP_append, List.countP_singleton]
  by_cases hs : s = sink
  · subst hs
    have hself : d'.sinks s = (d.sinks s).requested indexes staging := by
      rw [hd']
      exact Function.update_self ..
    have hahead : (d'.sinks s).ahead = (d.sinks s).ahead := by
      rw [hself]
      exact SinkSide.ahead_requested hphase
    have hout : i ∈ (d'.sinks s).outstanding ↔ i ∈ (d.sinks s).outstanding ∨ i ∈ indexes := by
      rw [hself]
      exact mem_insertNew
    rw [hahead]
    by_cases hi : i ∈ indexes
    · have hnot := (hstaging.requesting indexes staging hphase i hi).2
      rw [if_neg hnot] at hbound
      rw [if_pos (hout.mpr (.inr hi))]
      split <;> omega
    · have hasks : asks s i (d.requestLog.length, ⟨s, indexes⟩) = false := by simp [asks, hi]
      have hkept : i ∈ (d'.sinks s).outstanding ↔ i ∈ (d.sinks s).outstanding := by simp [hout, hi]
      rw [if_neg (by simp [hasks]), Nat.add_zero]
      simpa only [hkept] using hbound
  · have hasks : asks s i (d.requestLog.length, ⟨sink, indexes⟩) = false := by
      simp [asks, Ne.symm hs]
    have hother : d'.sinks s = d.sinks s := by
      rw [hd']
      exact Function.update_of_ne hs ..
    rw [if_neg (by simp [hasks]), Nat.add_zero, hother]
    exact hbound

section Publish

variable {todo : List (SinkName × Entry V)} {after : After}

theorem marked_publish (hphase : d.ingest.phase = .publishing todo after)
    (hphase' : d'.ingest.phase = .publishing (todo.filter fun entry => entry.1 ≠ sink) after)
    {s : SinkName} (hs : s ≠ sink) : d'.marked s = d.marked s := by
  have hmem : s ∈ (todo.filter fun entry => entry.1 ≠ sink).map Prod.fst ↔
      s ∈ todo.map Prod.fst := by
    simp only [List.mem_map, List.mem_filter, decide_eq_true_eq]
    constructor
    · rintro ⟨entry, ⟨hentry, -⟩, rfl⟩
      exact ⟨entry, hentry, rfl⟩
    · rintro ⟨entry, hentry, rfl⟩
      exact ⟨entry, ⟨hentry, hs⟩, rfl⟩
  rw [marked, marked, hphase, hphase']
  cases after with
  | markers => simp only [hmem]
  | _ => rfl

theorem marked_todo {e : Entry V} (hphase : d.ingest.phase = .publishing todo after)
    (hmem : (sink, e) ∈ todo) : d.marked sink = false := by
  have hkey : sink ∈ todo.map Prod.fst := List.mem_map.mpr ⟨_, hmem, rfl⟩
  rw [marked, hphase]
  cases after with
  | markers => simpa using hkey
  | _ => rfl

variable {entry : Entry V} {side : SinkSide V} {held : List (ℕ × Request)}

/-- A marker published takes the place of the requests its snapshot holds. -/
theorem Single.publish (h : d.Single) (ht : d.Todo c) (hserving : d.Serving c held)
    (hphase : d.ingest.phase = .publishing todo after) (hmem : (sink, entry) ∈ todo)
    (hahead : side.ahead = (d.sinks sink).ahead ++ [entry])
    (hout : side.outstanding = (d.sinks sink).outstanding)
    (hsinks : d'.sinks = Function.update d.sinks sink side)
    (hphase' : d'.ingest.phase = .publishing (todo.filter fun entry => entry.1 ≠ sink) after)
    (hrequests : d'.requests = d.requests) : d'.Single := by
  intro s i
  have hbound := h s i
  by_cases hs : s = sink
  · subst hs
    have hopen := openRequests_of_unmarked (marked_todo hphase hmem)
    rw [awaited, hopen] at hbound
    rw [awaited, hsinks, Function.update_self, hout, hahead, List.countP_append,
      List.countP_singleton]
    by_cases hcompletes : entry.completes i = true
    · -- the marker's requests are held, and no longer open once it is out
      obtain ⟨n, indexes, rfl⟩ : ∃ n indexes, entry = .complete n indexes := by
        by_contra hnot
        push Not at hnot
        rw [Entry.completes_eq_false hnot] at hcompletes
        cases hcompletes
      obtain ⟨rfl, x, hsnap, rfl, -, hrequested⟩ := ht.of_complete hphase hmem
      have hindex : i ∈ indexes := by simpa [Entry.completes] using hcompletes
      have hpos := hserving.exists_held hsnap (by simp [hphase]) ⟨indexes, hrequested, hindex⟩
      have hmarked : d'.marked s = true := by simp [marked, hphase']
      have hdue : d'.openRequests s = d.requests.due := by
        simp [openRequests, hmarked, hrequests]
      rw [hserving.lane.present_eq, List.countP_append] at hbound
      rw [hdue, if_pos hcompletes]
      omega
    · have hle : (d'.openRequests s).countP (asks s i) ≤ d.requests.present.countP (asks s i) := by
        rw [← hrequests]
        exact openRequests_sublist.countP_le
      rw [if_neg hcompletes]
      omega
  · have hopen := openRequests_eq (marked_publish hphase hphase' hs) hrequests
    rw [awaited, hopen, hsinks, Function.update_of_ne hs]
    exact hbound

end Publish

section Engine

variable [DecidableEq V] [ValueText V]

/-- A step of an engine puts no marker back, unless it fails between marking and acknowledging,
and drops an index from what is outstanding only by consuming its marker. -/
theorem ahead_sideStep {s s' : SinkSide V} {a : EngineAction V} (ho : s.OnLane)
    (hs : sideStep c s a = some s') (hok : a = .fail → s.sealing = false) :
    (s'.ahead <:+ s.ahead ∨ ∃ e, e.isMarker = false ∧ s'.ahead = e :: s.ahead) ∧
      (s'.outstanding = s.outstanding ∨
        ∃ n indexes, s.ahead = .complete n indexes :: s'.ahead ∧
          s'.outstanding = s.outstanding.filter fun index => index ∉ indexes) := by
  cases ho.laneMove hs with
  | quiet hlog hdone _ _ hout hnot hacking =>
    refine ⟨?_, .inl hout⟩
    have hconsumed' := SinkSide.consumed_eq hnot
    by_cases hold : ∃ t, s.phase = .acking t
    · -- dropping an acknowledgement puts its item back, which is no marker
      obtain ⟨t, hphase⟩ := hold
      have hseq := ho.sequential
      rw [hphase] at hseq
      obtain ⟨rfl, e, hget⟩ := hseq.held_eq
      have hsealing := hok (hacking _ hphase)
      simp only [SinkSide.sealing, hphase, hget, Option.any_some] at hsealing
      refine .inr ⟨e, hsealing, SinkSide.ahead_consume hlog.symm ?_ ?_⟩
      · rw [SinkSide.consumed_acking hphase, hconsumed', hdone]
      · rw [hconsumed', hdone, hlog, hget]
    · push Not at hold
      refine .inl (SinkSide.ahead_suffix hlog ?_)
      rw [hconsumed', SinkSide.consumed_eq hold, hdone]
  | retried hphase _ _ _ hlog hdone _ _ hout hnot =>
    refine ⟨.inl (SinkSide.ahead_suffix hlog ?_), .inl hout⟩
    rw [SinkSide.consumed_eq hnot, SinkSide.consumed_eq (by simp [hphase]), hdone]
  | flushed hphase _ _ _ _ _ =>
    refine ⟨.inl (SinkSide.ahead_suffix rfl ?_), .inl rfl⟩
    rw [SinkSide.consumed_eq (s := s) (by simp [hphase])]
    exact Nat.le_succ _
  | @marked n indexes hget hphase =>
    have hold := SinkSide.consumed_eq (s := s) (by simp [hphase])
    refine ⟨.inl (SinkSide.ahead_suffix rfl ?_), .inr ⟨n, indexes, ?_, rfl⟩⟩
    · rw [hold]
      exact Nat.le_succ _
    · refine SinkSide.ahead_consume rfl ?_ (hold ▸ hget)
      rw [hold]
      rfl
  | acked hphase hdone =>
    refine ⟨.inl (SinkSide.ahead_suffix rfl ?_), .inl rfl⟩
    rw [SinkSide.consumed_acking hphase, ← hdone]
    exact Nat.le_refl _

theorem spends_sideStep {s s' : SinkSide V} {a : EngineAction V} (ho : s.OnLane)
    (hs : sideStep c s a = some s') (hok : a = .fail → s.sealing = false) : s.Spends s' := by
  obtain ⟨hahead, hout | ⟨n, indexes, hcons, hout⟩⟩ := ahead_sideStep ho hs hok
  · intro i
    rw [hout]
    refine Nat.add_le_add_right ?_ _
    rcases hahead with hsuffix | ⟨e, hmarker, hcons⟩
    · exact hsuffix.sublist.countP_le
    · rw [hcons, List.countP_cons_of_neg]
      simp [Entry.completes_of_not_isMarker hmarker]
  · intro i
    rw [hcons, hout, List.countP_cons]
    by_cases hi : i ∈ indexes
    · have hcompletes : (Entry.complete n indexes : Entry V).completes i = true := by
        simpa [Entry.completes] using hi
      rw [if_pos hcompletes]
      split <;> omega
    · simp only [List.mem_filter, decide_eq_true_eq, hi, not_false_eq_true, and_true]
      omega

theorem mem_ahead_of_sideStep {s s' : SinkSide V} {a : EngineAction V} {e : Entry V}
    (ho : s.OnLane) (hs : sideStep c s a = some s') (hok : a = .fail → s.sealing = false)
    (hmarker : e.isMarker = true) (hmem : e ∈ s'.ahead) : e ∈ s.ahead := by
  rcases (ahead_sideStep ho hs hok).1 with hsuffix | ⟨x, hx, hcons⟩
  · exact hsuffix.subset hmem
  · rw [hcons] at hmem
    rcases List.mem_cons.mp hmem with rfl | hmem
    · rw [hx] at hmarker
      cases hmarker
    · exact hmem

/-- One step keeps what every index waits for single. -/
theorem Single.step {held : List (ℕ × Request)} (h : d.Single) (ht : d.Todo c)
    (hserving : d.Serving c held) (hanswering : d.Answering c) (ho : ∀ s, (d.sinks s).OnLane)
    (hstaging : ∀ s, (d.sinks s).Staging c.engine) (hok : d.undisturbed a = true)
    (hs : d.step c a = some d') : d'.Single := by
  cases move_of_step hs with
  | slot => exact h.beside (fun _ => rfl) (fun _ => rfl) rfl rfl
  | spawn => exact h.beside (fun _ => rfl) (fun _ => rfl) rfl rfl
  | prepare hphase _ =>
    exact h.unmarked ahead_ensureSlot outstanding_ensureSlot
      (fun _ => marked_eq_false (by simp [hphase]) (by simp [hphase])) (by rw [requests_ensureSlot])
  | live hphase _ =>
    exact h.unmarked ahead_ensureSlot outstanding_ensureSlot
      (fun _ => marked_eq_false (by simp [hphase]) (by simp [hphase])) (by rw [requests_ensureSlot])
  | change hpoll _ => exact h.unmarked (fun _ => rfl) (fun _ => rfl) (fun _ => marked_of_polling hpoll) rfl
  | idle _ _ => exact h.beside (fun _ => rfl) (fun _ => rfl) rfl rfl
  | endLive hpoll => exact h.unmarked (fun _ => rfl) (fun _ => rfl) (fun _ => marked_of_polling hpoll) rfl
  | commitLive hphase _ =>
    exact h.unmarked (fun _ => rfl) (fun _ => rfl)
      (fun _ => marked_eq_false (by simp [hphase]) (by simp [hphase])) rfl
  | takeRequest hphase _ hrecv =>
    exact h.unmarked (fun _ => rfl) (fun _ => rfl)
      (fun _ => marked_eq_false (by simp [hphase]) (by simp [hphase])) (hserving.lane.recv hrecv).2.1
  | collect hphase hrecv =>
    exact h.unmarked (fun _ => rfl) (fun _ => rfl)
      (fun _ => marked_eq_false (by simp [hphase]) (by simp [hphase])) (hserving.lane.recv hrecv).2.1
  | startSnapshot hphase _ =>
    exact h.unmarked (fun _ => rfl) (fun _ => rfl)
      (fun _ => marked_eq_false (by simp [hphase]) (by simp [hphase])) rfl
  | row hphase _ _ _ =>
    exact h.unmarked (fun _ => rfl) (fun _ => rfl)
      (fun _ => marked_eq_false (by simp [hphase]) (by simp [hphase])) rfl
  | rowCommit hphase _ _ _ _ =>
    exact h.unmarked (fun _ => rfl) (fun _ => rfl)
      (fun _ => marked_eq_false (by simp [hphase]) (by simp [hphase])) rfl
  | endSnapshot hphase _ _ _ =>
    exact h.unmarked (fun _ => rfl) (fun _ => rfl)
      (fun _ => marked_eq_false (by simp [hphase]) (by simp [hphase])) rfl
  | endSnapshotCommit hphase _ _ _ =>
    exact h.unmarked (fun _ => rfl) (fun _ => rfl)
      (fun _ => marked_eq_false (by simp [hphase]) (by simp [hphase])) rfl
  | publish hphase hmem hside =>
    obtain ⟨lane, hlane, rfl⟩ := SinkSide.publish_cases hside
    exact h.publish ht hserving hphase hmem (SinkSide.ahead_publish (ho _) hside).1 rfl rfl rfl rfl
  | publishedLive hphase =>
    exact h.unmarked (fun _ => rfl) (fun _ => rfl)
      (fun _ => marked_eq_false (by simp [hphase]) (by simp [hphase])) rfl
  | publishedSlice _ hphase =>
    exact h.unmarked (fun _ => rfl) (fun _ => rfl)
      (fun _ => marked_eq_false (by simp [hphase]) (by simp [hphase])) rfl
  | publishedLastSlice _ hphase =>
    exact h.unmarked (fun _ => rfl) (fun _ => rfl)
      (fun _ => marked_eq_false (by simp [hphase]) (by simp [hphase])) rfl
  | publishedMarkers _ hphase =>
    refine h.ingest (fun _ => rfl) (fun _ => rfl) fun s i => ?_
    simp [openRequests, marked, hphase]
  | @ackRequest ticket handles hphase =>
    have htickets := hserving.tickets
    simp only [Ingest.heldTickets, hphase] at htickets
    cases held with
    | nil => cases htickets
    | cons entry held =>
      obtain ⟨t, r⟩ := entry
      obtain ⟨rfl, -⟩ := List.cons.inj htickets
      obtain ⟨-, -, hdue⟩ := hserving.lane.ack
      refine h.ingest (fun _ => rfl) (fun _ => rfl) fun s i => ?_
      simp [openRequests, marked, hphase, hdue]
  | finished hphase =>
    have hnil : held = [] := by simpa [Ingest.heldTickets, hphase] using hserving.tickets
    subst hnil
    refine h.ingest (fun _ => rfl) (fun _ => rfl) fun s i => ?_
    simp [openRequests, marked, hphase, hserving.lane.due_eq]
  | confirm _ => exact h.ingest (fun _ => rfl) (fun _ => rfl) fun _ _ => Nat.le_refl _
  | stop hphase _ =>
    exact h.unmarked (fun _ => rfl) (fun _ => rfl)
      (fun _ => marked_eq_false (by simp [hphase]) (by simp [hphase])) rfl
  | fail _ _ =>
    have hheld : d.holdsAnswered = false := by simpa [undisturbed] using hok
    have hpresent := hserving.lane.releaseAll.2
    rw [hserving.tickets] at hpresent
    refine h.ingest (fun _ => rfl) (fun _ => rfl) fun s i => ?_
    rw [openRequests_of_unmarked (by simp [marked, Ingest.down])]
    simp only [hpresent]
    rw [hanswering.countP_openRequests ht hserving hheld]
  | @request sink indexes staging requests hsink hphase hp =>
    exact h.request hserving (hstaging sink) hphase hp rfl
  | @engine sink a side hsink hstart hside =>
    intro s i
    have hbound := h s i
    have hopen : (d.withSide sink side).openRequests s = d.openRequests s := openRequests_eq rfl rfl
    rw [awaited] at hbound ⊢
    by_cases hsink : s = sink
    · subst hsink
      have hspends := spends_sideStep (ho s) hside (by rintro rfl; simpa [undisturbed] using hok) i
      have hself : (d.withSide s side).sinks s = side := Function.update_self ..
      rw [hopen, hself]
      omega
    · have hother : (d.withSide sink side).sinks s = d.sinks s := Function.update_of_ne hsink ..
      rw [hopen, hother]
      exact hbound

theorem single_of_reachable
    (h : (daemon V c).ReachableWith (fun d a => d.undisturbed a = true) d) : d.Single := by
  refine h.invariant (P := Single) (fun d hd => ?_) (fun d a d' hr hp hok hs => ?_)
  · intro s i
    simp [awaited, openRequests, SinkSide.ahead, hd.log, hd.requests, Stream.Channel.due,
      Stream.Channel.present, Stream.Channel.new, Stream.Ledger.new]
  · have hr := hr.reachable
    obtain ⟨held, hserving⟩ := serving_of_reachable hr
    exact hp.step (todo_of_reachable hr) hserving (answering_of_reachable hr)
      (onLane_of_reachable hr) (staging_of_reachable hr) hok hs

end Engine

end Deployment

end Flusso
