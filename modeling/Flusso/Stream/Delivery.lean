import Flusso.Stream.Ledger
import Flusso.Foundation.Transition

/-! # One lane under concurrent deliveries

A receive is a redelivery check, a wait on the queue and a take, and other
handles may be acknowledged or dropped between them. Whatever the order, what is
present is exactly what was published and not acknowledged, and the cursor
splits it into what was delivered and what is due.
-/

namespace Flusso.Stream

variable {T : Type*}

/-- Where the lane's single receiver is between its redelivery check and its take. -/
inductive Receiver (T : Type*) where
  | idle
  | waiting
  | holding (item : T)

def Receiver.hand : Receiver T → List T
  | .holding item => [item]
  | _ => []

/-- A lane with its receiver and the ack handles given out, and its history: every item
published, every entry delivered and every ticket acknowledged. -/
structure LaneState (T : Type*) where
  channel : Channel T
  receiver : Receiver T
  handles : List ℕ
  log : List T
  delivered : List (ℕ × T)
  acked : List ℕ

inductive LaneAction (T : Type*) where
  | publish (item : T)
  | recv
  | pull
  | take
  | cancel
  | ack (ticket : ℕ)
  | nack (ticket : ℕ)

namespace LaneState

variable [Positioned T]

def new (capacity : ℕ) : LaneState T where
  channel := .new capacity
  receiver := .idle
  handles := []
  log := []
  delivered := []
  acked := []

def deliver (s : LaneState T) (entry : ℕ × T) (channel : Channel T) : LaneState T :=
  { s with
    channel
    receiver := .idle
    handles := s.handles ++ [entry.1]
    delivered := s.delivered ++ [entry] }

def step (s : LaneState T) : LaneAction T → Option (LaneState T)
  | .publish item => (s.channel.publish item).map fun channel =>
      { s with channel, log := s.log ++ [item] }
  | .recv =>
    match s.receiver, s.channel.ledger.redelivery with
    | .idle, some (entry, ledger) => some (s.deliver entry { s.channel with ledger })
    | .idle, none => some { s with receiver := .waiting }
    | _, _ => none
  | .pull =>
    match s.receiver, s.channel.queue with
    | .waiting, item :: queue =>
      some { s with channel := { s.channel with queue }, receiver := .holding item }
    | _, _ => none
  | .take =>
    match s.receiver with
    | .holding item =>
      let (entry, ledger) := s.channel.ledger.take item
      some (s.deliver entry { s.channel with ledger })
    | _ => none
  | .cancel =>
    match s.receiver with
    | .waiting => some { s with receiver := .idle }
    | _ => none
  | .ack ticket =>
    if ticket ∈ s.handles then
      some { s with
        channel := s.channel.ack ticket
        handles := s.handles.erase ticket
        acked := ticket :: s.acked }
    else none
  -- A handle dropped unacknowledged takes the same path.
  | .nack ticket =>
    if ticket ∈ s.handles then
      some { s with
        channel := s.channel.release ticket
        handles := s.handles.erase ticket }
    else none

omit [Positioned T] in
/-- What the lane still holds, in order: in flight, in the receiver's hand, queued. -/
def entries (s : LaneState T) : List (ℕ × T) :=
  s.channel.ledger.inFlight ++
    ticketed s.channel.ledger.nextTicket (s.receiver.hand ++ s.channel.queue)

omit [Positioned T] in
/-- What the next receives deliver, in order. -/
def due (s : LaneState T) : List (ℕ × T) := s.entries.drop s.channel.ledger.cursor

omit [Positioned T] in
/-- What was published and not acknowledged, under its publish number. -/
def unacked (s : LaneState T) : List (ℕ × T) :=
  (ticketed 0 s.log).filter fun e => e.1 ∉ s.acked

/-- The ledger's invariant. -/
structure Sound (s : LaneState T) : Prop where
  cursor_le : s.channel.ledger.cursor ≤ s.channel.ledger.inFlight.length
  present : s.entries = s.unacked
  log_length : s.log.length =
    s.channel.ledger.nextTicket + (s.receiver.hand ++ s.channel.queue).length
  in_flight_lt : ∀ e ∈ s.channel.ledger.inFlight, e.1 < s.channel.ledger.nextTicket
  acked_lt : ∀ t ∈ s.acked, t < s.channel.ledger.nextTicket
  handles_lt : ∀ t ∈ s.handles, t < s.channel.ledger.nextTicket
  bounded : s.channel.queue.length ≤ s.channel.capacity

/-- The first due entry, never one acknowledged, is delivered and stays present. -/
structure Delivers (s s' : LaneState T) (e : ℕ × T) : Prop where
  not_acked : e.1 ∉ s.acked
  due : s.due = e :: s'.due
  entries : s'.entries = s.entries
  delivered : s'.delivered = s.delivered ++ [e]

/-- What each operation does to what is present and what is due. -/
def Follows (s : LaneState T) : LaneAction T → LaneState T → Prop
  | .publish item, s' => s'.entries = s.entries ++ [(s.log.length, item)] ∧
      s'.due = s.due ++ [(s.log.length, item)] ∧ s'.delivered = s.delivered
  | .recv, s' => (∃ e, s.Delivers s' e) ∨
      s'.entries = s.entries ∧ s'.due = s.due ∧ s'.delivered = s.delivered
  | .take, s' => ∃ e, s.Delivers s' e
  | .pull, s' => s'.entries = s.entries ∧ s'.due = s.due ∧ s'.delivered = s.delivered
  | .cancel, s' => s'.entries = s.entries ∧ s'.due = s.due ∧ s'.delivered = s.delivered
  | .ack ticket, s' => s'.entries = s.entries.filter (fun e => e.1 ≠ ticket) ∧
      s'.due = s.due.filter (fun e => e.1 ≠ ticket) ∧ s'.delivered = s.delivered
  | .nack ticket, s' => s'.entries = s.entries ∧ s.due <:+ s'.due ∧
      (ticket ∈ s.entries.map Prod.fst → ∀ e ∈ s.entries, ticket ≤ e.1 → e ∈ s'.due) ∧
      s'.delivered = s.delivered

omit [Positioned T]

variable {s s' : LaneState T}

theorem sound_new (capacity : ℕ) : (new capacity : LaneState T).Sound := by
  constructor <;> simp [new, Channel.new, Ledger.new, entries, unacked, Receiver.hand]

theorem Sound.increasing (h : s.Sound) : Increasing s.entries := by
  rw [h.present]
  exact ticketed_sorted.filter _

theorem Sound.increasing_inFlight (h : s.Sound) : Increasing s.channel.ledger.inFlight :=
  (List.pairwise_append.mp h.increasing).1

theorem Sound.due_eq (h : s.Sound) :
    s.due = s.channel.ledger.inFlight.drop s.channel.ledger.cursor ++
      ticketed s.channel.ledger.nextTicket (s.receiver.hand ++ s.channel.queue) := by
  rw [due, entries, List.drop_append_of_le_length h.cursor_le]

theorem Sound.not_acked (h : s.Sound) {e : ℕ × T} (he : e ∈ s.entries) : e.1 ∉ s.acked := by
  rw [h.present] at he
  exact of_decide_eq_true (List.mem_filter.mp he).2

/-- Serving the entry at the cursor and moving past it delivers the first due entry. -/
theorem Sound.delivers (h : s.Sound) {e : ℕ × T}
    (hget : s.entries[s.channel.ledger.cursor]? = some e) (hentries : s'.entries = s.entries)
    (hcursor : s'.channel.ledger.cursor = s.channel.ledger.cursor + 1)
    (hdelivered : s'.delivered = s.delivered ++ [e]) : s.Delivers s' e where
  not_acked := h.not_acked (List.mem_of_getElem? hget)
  due := by
    obtain ⟨hlt, rfl⟩ := List.getElem?_eq_some_iff.mp hget
    rw [due, due, hentries, hcursor, List.drop_eq_getElem_cons hlt]
  entries := hentries
  delivered := hdelivered

section Publish

variable {item : T} {channel : Channel T}

theorem publish_eq_some (h : s.channel.publish item = some channel) :
    s.channel.queue.length < s.channel.capacity ∧
      channel = { s.channel with queue := s.channel.queue ++ [item] } := by
  unfold Channel.publish at h
  split at h
  · next hlt => exact ⟨hlt, (Option.some.inj h).symm⟩
  · cases h

theorem Sound.publish (h : s.Sound) (hp : s.channel.publish item = some channel) :
    ({ s with channel, log := s.log ++ [item] } : LaneState T).Sound ∧
      s.Follows (.publish item) { s with channel, log := s.log ++ [item] } := by
  obtain ⟨hlt, rfl⟩ := publish_eq_some hp
  have hentries : ({ s with
      channel := { s.channel with queue := s.channel.queue ++ [item] }
      log := s.log ++ [item] } : LaneState T).entries =
        s.entries ++ [(s.log.length, item)] := by
    simp only [entries, ← List.append_assoc, ticketed_append, h.log_length]
    rfl
  have hfresh : s.log.length ∉ s.acked := by
    intro hmem
    have := h.acked_lt _ hmem
    have := h.log_length
    omega
  refine ⟨{ h with present := ?_, log_length := ?_, bounded := ?_ }, hentries, ?_, rfl⟩
  · rw [hentries, h.present]
    simp [unacked, ticketed_append, hfresh]
  · have := h.log_length
    simp only [List.length_append, List.length_singleton] at this ⊢
    omega
  · simp only [List.length_append, List.length_singleton]
    omega
  · rw [due, hentries, due, List.drop_append_of_le_length]
    have := h.cursor_le
    simp only [entries, List.length_append]
    omega

end Publish

section Receive

variable {item : T} {queue : List T} {entry : ℕ × T} {ledger : Ledger T}

theorem Sound.redeliver (h : s.Sound) (hidle : s.receiver = .idle)
    (hr : s.channel.ledger.redelivery = some (entry, ledger)) :
    (s.deliver entry { s.channel with ledger }).Sound ∧
      s.Delivers (s.deliver entry { s.channel with ledger }) entry := by
  obtain ⟨hget, rfl⟩ := Ledger.redelivery_eq_some hr
  have hlt : s.channel.ledger.cursor < s.channel.ledger.inFlight.length :=
    (List.getElem?_eq_some_iff.mp hget).1
  have hentries : (s.deliver entry { s.channel with
      ledger := { s.channel.ledger with cursor := s.channel.ledger.cursor + 1 } }).entries =
        s.entries := by
    simp [entries, deliver, hidle, Receiver.hand]
  refine ⟨{ h with cursor_le := hlt, present := ?_, log_length := ?_, handles_lt := ?_ }, ?_⟩
  · rw [hentries, h.present]
    rfl
  · simpa [deliver, hidle, Receiver.hand] using h.log_length
  · intro t ht
    rcases List.mem_append.mp ht with ht | ht
    · exact h.handles_lt t ht
    · rw [List.mem_singleton.mp ht]
      exact h.in_flight_lt _ (List.mem_of_getElem? hget)
  · refine h.delivers ?_ hentries rfl rfl
    rw [entries, List.getElem?_append_left hlt, hget]

theorem Sound.pull (h : s.Sound) (hw : s.receiver = .waiting)
    (hq : s.channel.queue = item :: queue) :
    ({ s with
      channel := { s.channel with queue }
      receiver := .holding item } : LaneState T).Sound ∧
      s.Follows .pull { s with
        channel := { s.channel with queue }
        receiver := .holding item } := by
  have hhand : s.receiver.hand ++ s.channel.queue = item :: queue := by simp [hw, hq, Receiver.hand]
  have hentries : ({ s with
      channel := { s.channel with queue }
      receiver := .holding item } : LaneState T).entries = s.entries := by
    rw [entries, entries, hhand]
    rfl
  refine ⟨{ h with present := ?_, log_length := ?_, bounded := ?_ }, hentries, ?_, rfl⟩
  · rw [hentries, h.present]
    rfl
  · rw [h.log_length, hhand]
    rfl
  · have := h.bounded
    simp only [hq, List.length_cons] at this
    simp only
    omega
  · rw [due, hentries, due]

theorem Sound.take (h : s.Sound) (hh : s.receiver = .holding item) :
    (s.deliver (s.channel.ledger.take item).1
      { s.channel with ledger := (s.channel.ledger.take item).2 }).Sound ∧
    s.Delivers (s.deliver (s.channel.ledger.take item).1
      { s.channel with ledger := (s.channel.ledger.take item).2 })
      (s.channel.ledger.take item).1 := by
  obtain ⟨entry, hget, htake⟩ := Ledger.take_eq h.cursor_le item
  rw [htake]
  have hentries : (s.deliver entry { s.channel with
      ledger := { s.channel.ledger with
        inFlight := s.channel.ledger.inFlight ++ [(s.channel.ledger.nextTicket, item)]
        cursor := s.channel.ledger.cursor + 1
        nextTicket := s.channel.ledger.nextTicket + 1 } }).entries = s.entries := by
    simp [entries, deliver, hh, Receiver.hand]
  have hmem : ∀ e ∈ s.channel.ledger.inFlight ++ [(s.channel.ledger.nextTicket, item)],
      e.1 < s.channel.ledger.nextTicket + 1 := by
    intro e he
    rcases List.mem_append.mp he with he | he
    · exact Nat.lt_succ_of_lt (h.in_flight_lt e he)
    · rw [List.mem_singleton.mp he]
      exact Nat.lt_succ_self _
  refine ⟨{ h with
    cursor_le := ?_, present := ?_, log_length := ?_, in_flight_lt := hmem, acked_lt := ?_
    handles_lt := ?_ }, ?_⟩
  · have := h.cursor_le
    simp only [deliver, List.length_append, List.length_singleton]
    omega
  · rw [hentries, h.present]
    rfl
  · have := h.log_length
    simp only [hh, Receiver.hand, List.singleton_append, List.length_cons] at this
    simp only [deliver, Receiver.hand, List.nil_append]
    omega
  · exact fun t ht => Nat.lt_succ_of_lt (h.acked_lt t ht)
  · intro t ht
    rcases List.mem_append.mp ht with ht | ht
    · exact Nat.lt_succ_of_lt (h.handles_lt t ht)
    · rw [List.mem_singleton.mp ht]
      exact hmem _ (List.mem_of_getElem? hget)
  · refine h.delivers ?_ hentries rfl rfl
    have hentries : s.entries = (s.channel.ledger.inFlight ++
        [(s.channel.ledger.nextTicket, item)]) ++
          ticketed (s.channel.ledger.nextTicket + 1) s.channel.queue := by
      simp [entries, hh, Receiver.hand]
    rw [hentries, List.getElem?_append_left (List.getElem?_eq_some_iff.mp hget).1, hget]

end Receive

section Handles

variable {ticket : ℕ}

theorem Sound.nack (h : s.Sound) :
    ({ s with
      channel := s.channel.release ticket
      handles := s.handles.erase ticket } : LaneState T).Sound ∧
    s.Follows (.nack ticket) { s with
      channel := s.channel.release ticket
      handles := s.handles.erase ticket } := by
  have hentries : ({ s with
      channel := s.channel.release ticket
      handles := s.handles.erase ticket } : LaneState T).entries = s.entries := by
    simp [entries, Channel.release]
  have hcursor := Ledger.cursor_release_le (l := s.channel.ledger) (t := ticket)
  have hsound : ({ s with
      channel := s.channel.release ticket
      handles := s.handles.erase ticket } : LaneState T).Sound :=
    { cursor_le := by
        simpa [Channel.release] using Nat.le_trans hcursor h.cursor_le
      present := by
        rw [hentries, h.present]
        rfl
      log_length := by simpa [Channel.release] using h.log_length
      in_flight_lt := by simpa [Channel.release] using h.in_flight_lt
      acked_lt := by simpa [Channel.release] using h.acked_lt
      handles_lt := fun t ht => by
        simpa [Channel.release] using h.handles_lt t (List.mem_of_mem_erase ht)
      bounded := h.bounded }
  refine ⟨hsound, hentries, ?_, ?_, rfl⟩
  · rw [due, due, hentries]
    exact List.drop_suffix_drop_left _ hcursor
  · intro hmem e he hle
    rw [hsound.due_eq]
    rw [entries] at he
    rcases List.mem_append.mp he with he | he
    · refine List.mem_append_left _ ?_
      obtain ⟨⟨t, x⟩, hx, rfl⟩ := List.mem_map.mp hmem
      rcases List.mem_append.mp hx with hx | hx
      · simpa [Channel.release] using
          Ledger.mem_due_release h.increasing_inFlight hx he hle
      · have hlt := h.in_flight_lt e he
        have hge := (ticketed_bounds hx).1
        simp only at hle
        omega
    · refine List.mem_append_right _ ?_
      simpa [Channel.release] using he

variable [Positioned T]

theorem Sound.ack (h : s.Sound) (hticket : ticket ∈ s.handles) :
    ({ s with
      channel := s.channel.ack ticket
      handles := s.handles.erase ticket
      acked := ticket :: s.acked } : LaneState T).Sound ∧
    s.Follows (.ack ticket) { s with
      channel := s.channel.ack ticket
      handles := s.handles.erase ticket
      acked := ticket :: s.acked } := by
  have hlt := h.handles_lt ticket hticket
  have hinc := h.increasing_inFlight
  -- The handle's drop after the ack finds its ticket gone.
  have hledger : (s.channel.ack ticket).ledger = s.channel.ledger.ack ticket :=
    Ledger.release_of_absent (Ledger.absent_of_ack hinc)
  have hqueue : ∀ e ∈ ticketed s.channel.ledger.nextTicket (s.receiver.hand ++ s.channel.queue),
      e.1 ≠ ticket := by
    intro e he
    have := (ticketed_bounds he).1
    omega
  have htail := List.filter_eq_self.mpr fun e he => decide_eq_true (hqueue e he)
  have hentries : ({ s with
      channel := s.channel.ack ticket
      handles := s.handles.erase ticket
      acked := ticket :: s.acked } : LaneState T).entries =
        s.entries.filter fun e => e.1 ≠ ticket := by
    rw [entries, entries, hledger, Ledger.inFlight_ack hinc, Ledger.nextTicket_ack,
      List.filter_append, htail]
    rfl
  have hsound : ({ s with
      channel := s.channel.ack ticket
      handles := s.handles.erase ticket
      acked := ticket :: s.acked } : LaneState T).Sound :=
    { cursor_le := by
        rw [hledger]
        exact Ledger.cursor_ack_le h.cursor_le
      present := by
        rw [hentries, h.present, unacked, unacked, List.filter_filter]
        refine List.filter_congr fun e _ => ?_
        simp [not_or]
      log_length := by
        rw [hledger, Ledger.nextTicket_ack]
        exact h.log_length
      in_flight_lt := by
        rw [hledger, Ledger.inFlight_ack hinc, Ledger.nextTicket_ack]
        exact fun e he => h.in_flight_lt e (List.mem_of_mem_filter he)
      acked_lt := by
        rw [hledger, Ledger.nextTicket_ack]
        intro t ht
        rcases List.mem_cons.mp ht with rfl | ht
        · exact hlt
        · exact h.acked_lt t ht
      handles_lt := by
        rw [hledger, Ledger.nextTicket_ack]
        exact fun t ht => h.handles_lt t (List.mem_of_mem_erase ht)
      bounded := h.bounded }
  refine ⟨hsound, hentries, ?_, rfl⟩
  rw [hsound.due_eq, h.due_eq, hledger, Ledger.due_ack hinc, Ledger.nextTicket_ack,
    List.filter_append, htail]
  rfl

end Handles

section Steps

variable [Positioned T] {a : LaneAction T}

theorem Sound.step (h : s.Sound) (hs : s.step a = some s') : s'.Sound ∧ s.Follows a s' := by
  cases a with
  | publish item =>
    obtain ⟨channel, hp, rfl⟩ := Option.map_eq_some_iff.mp hs
    exact h.publish hp
  | recv =>
    simp only [LaneState.step] at hs
    split at hs
    · next entry ledger hidle hr =>
      cases hs
      exact (h.redeliver hidle hr).imp_right fun hd => .inl ⟨_, hd⟩
    · next hidle _ =>
      cases hs
      have hentries : ({ s with receiver := .waiting } : LaneState T).entries = s.entries := by
        simp [entries, hidle, Receiver.hand]
      refine ⟨{ h with present := hentries.trans h.present, log_length := ?_ },
        .inr ⟨hentries, congrArg (List.drop _) hentries, rfl⟩⟩
      simpa [hidle, Receiver.hand] using h.log_length
    · cases hs
  | pull =>
    simp only [LaneState.step] at hs
    split at hs
    · next hw hq =>
      cases hs
      exact h.pull hw hq
    · cases hs
  | take =>
    simp only [LaneState.step] at hs
    split at hs
    · next hh =>
      cases hs
      exact (h.take hh).imp_right fun hd => ⟨_, hd⟩
    · cases hs
  | cancel =>
    simp only [LaneState.step] at hs
    split at hs
    · next hw =>
      cases hs
      have hentries : ({ s with receiver := .idle } : LaneState T).entries = s.entries := by
        simp [entries, hw, Receiver.hand]
      refine ⟨{ h with present := hentries.trans h.present, log_length := ?_ },
        hentries, congrArg (List.drop _) hentries, rfl⟩
      simpa [hw, Receiver.hand] using h.log_length
    · cases hs
  | ack ticket =>
    simp only [LaneState.step] at hs
    split at hs
    · next ht =>
      cases hs
      exact h.ack ht
    · cases hs
  | nack ticket =>
    simp only [LaneState.step] at hs
    split at hs
    · cases hs
      exact h.nack
    · cases hs

end Steps

end LaneState

/-- One lane under any order of publishes, receives, acknowledgements and drops. -/
def lane (T : Type*) [Positioned T] : Transition.Machine (LaneState T) (LaneAction T) where
  init s := ∃ capacity, s = .new capacity
  step := LaneState.step

section Lane

variable [Positioned T] {s : LaneState T}

theorem sound_of_reachable (h : (lane T).Reachable s) : s.Sound := by
  refine Transition.Machine.Reachable.invariant (fun s hs => ?_)
    (fun s a s' _ hs hstep => (LaneState.Sound.step hs hstep).1) h
  obtain ⟨capacity, rfl⟩ := hs
  exact LaneState.sound_new capacity

/-- In every reachable state the lane holds exactly what was published and not
acknowledged, under increasing tickets, and every operation does to it what it should. -/
theorem ledger_invariant (h : (lane T).Reachable s) :
    s.Sound ∧ Increasing s.entries ∧ ∀ a s', s.step a = some s' → s.Follows a s' := by
  have hs := sound_of_reachable h
  exact ⟨hs, hs.increasing, fun a s' hstep => (hs.step hstep).2⟩

end Lane

instance : Positioned Unit where
  position _ := none

/-- A nack landing while a receive waits: the take serves the redelivery first. -/
theorem ledger_invariant_nack_before_take :
    ∃ s, (lane Unit).run (.new 2) [.publish (), .publish (), .recv, .pull, .take, .recv, .nack 0,
        .pull, .take] = some s ∧ s.delivered = [(0, ()), (0, ())] ∧
      s.Sound ∧ Increasing s.entries ∧ ∀ a s', s.step a = some s' → s.Follows a s' := by
  have hrun : ((lane Unit).run (.new 2) [.publish (), .publish (), .recv, .pull, .take, .recv,
      .nack 0, .pull, .take]).any (fun s => decide (s.delivered = [(0, ()), (0, ())])) = true := by
    decide
  obtain ⟨s, hrun, hdelivered⟩ := Transition.Machine.exists_of_run hrun
  exact ⟨s, hrun, hdelivered, ledger_invariant (.run (.init ⟨2, rfl⟩) hrun)⟩

end Flusso.Stream
