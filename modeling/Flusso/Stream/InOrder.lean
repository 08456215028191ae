import Flusso.Stream.Ledger

/-! # A lane acknowledged in order

The ingest engine holds several requests at once and acknowledges them in the
order they came, or drops them all. Its lane is a log without a prefix, split by
the cursor into what is held and what is due.
-/

namespace Flusso.Stream.Channel

variable {T : Type*}

/-- What the channel still holds, in order, under its tickets. -/
def present (c : Channel T) : List (ℕ × T) :=
  c.ledger.inFlight ++ ticketed c.ledger.nextTicket c.queue

/-- What the next receives deliver, in order. -/
def due (c : Channel T) : List (ℕ × T) := c.present.drop c.ledger.cursor

/-- The channel carries `log` without what was acknowledged, and its consumer holds the
deliveries `held`. -/
structure InOrder (c : Channel T) (log : List T) (held : List (ℕ × T)) : Prop where
  present : ∃ n ≤ log.length, c.present = (ticketed 0 log).drop n
  handed : c.ledger.inFlight.take c.ledger.cursor = held
  cursor_le : c.ledger.cursor ≤ c.ledger.inFlight.length
  next : c.ledger.nextTicket + c.queue.length = log.length

variable {c c' : Channel T} {log : List T} {held : List (ℕ × T)} {t : ℕ} {x : T}
  {entry : ℕ × T}

theorem inOrder_new (capacity : ℕ) : (new capacity : Channel T).InOrder [] [] where
  present := ⟨0, Nat.le_refl 0, rfl⟩
  handed := rfl
  cursor_le := Nat.le_refl 0
  next := rfl

namespace InOrder

theorem increasing (h : c.InOrder log held) : Increasing c.ledger.inFlight := by
  obtain ⟨n, -, hpresent⟩ := h.present
  have hsorted : Increasing c.present := hpresent ▸ ticketed_sorted.drop
  exact (List.pairwise_append.mp hsorted).1

theorem present_eq (h : c.InOrder log held) : c.present = held ++ c.due := by
  rw [due, Channel.present, List.drop_append_of_le_length h.cursor_le, ← List.append_assoc,
    ← h.handed, List.take_append_drop]

theorem getElem?_log (h : c.InOrder log held) (hmem : (t, x) ∈ c.present) : log[t]? = some x := by
  obtain ⟨n, -, hpresent⟩ := h.present
  rw [hpresent] at hmem
  exact mem_ticketed_zero.mp (List.mem_of_mem_drop hmem)

theorem due_eq (h : c.InOrder log []) : c.due = c.present := by
  rw [h.present_eq, List.nil_append]

theorem publish (h : c.InOrder log held) (hp : c.publish x = some c') :
    c'.InOrder (log ++ [x]) held ∧ c'.present = c.present ++ [(log.length, x)] ∧
      c'.due = c.due ++ [(log.length, x)] := by
  unfold Channel.publish at hp
  split at hp
  · cases hp
    have hpresent : ({ c with queue := c.queue ++ [x] } : Channel T).present =
        c.present ++ [(log.length, x)] := by
      simp only [Channel.present, ticketed_append, h.next, List.append_assoc]
      rfl
    refine ⟨⟨?_, h.handed, h.cursor_le, ?_⟩, hpresent, ?_⟩
    · obtain ⟨n, hn, heq⟩ := h.present
      refine ⟨n, by simp; omega, ?_⟩
      have hlen : n ≤ (ticketed 0 log).length := by simpa [length_ticketed] using hn
      rw [hpresent, heq, ticketed_append, List.drop_append_of_le_length hlen, Nat.zero_add]
      rfl
    · have := h.next
      simp only [List.length_append, List.length_singleton]
      omega
    · rw [due, hpresent, due, List.drop_append_of_le_length]
      have := h.cursor_le
      simp only [Channel.present, List.length_append]
      omega
  · cases hp

theorem advance (h : c.InOrder log held) (hpresent : c'.present = c.present)
    (hnext : c'.ledger.nextTicket + c'.queue.length = log.length)
    (hcursor : c'.ledger.cursor = c.ledger.cursor + 1)
    (hget : c'.ledger.inFlight[c.ledger.cursor]? = some entry)
    (htake : c'.ledger.inFlight.take c.ledger.cursor = held) :
    c'.InOrder log (held ++ [entry]) ∧ c'.present = c.present ∧ c.due = entry :: c'.due := by
  have hlt := (List.getElem?_eq_some_iff.mp hget).1
  refine ⟨⟨hpresent ▸ h.present, ?_, hcursor ▸ hlt, hnext⟩, hpresent, ?_⟩
  · rw [hcursor, List.take_add_one, htake, hget, Option.toList_some]
  · have hget' : c'.present[c.ledger.cursor]? = some entry := by
      rw [Channel.present, List.getElem?_append_left hlt, hget]
    obtain ⟨hlt', rfl⟩ := List.getElem?_eq_some_iff.mp hget'
    rw [due, due, hcursor, ← hpresent, List.drop_eq_getElem_cons hlt']

theorem recv (h : c.InOrder log held) (hr : c.recv = some (entry, c')) :
    c'.InOrder log (held ++ [entry]) ∧ c'.present = c.present ∧ c.due = entry :: c'.due := by
  unfold Channel.recv at hr
  split at hr
  · next e ledger hred =>
    obtain ⟨hget, rfl⟩ := Ledger.redelivery_eq_some hred
    cases hr
    exact h.advance rfl h.next rfl hget h.handed
  · split at hr
    · cases hr
    · next item queue hqueue =>
      obtain ⟨e, hget, htake⟩ := Ledger.take_eq h.cursor_le item
      rw [htake] at hr
      cases hr
      refine h.advance ?_ ?_ rfl hget ?_
      · simp [Channel.present, hqueue]
      · have := h.next
        simp only [hqueue, List.length_cons] at this
        simp only
        omega
      · rw [List.take_append_of_le_length h.cursor_le, h.handed]

theorem held_cons (h : c.InOrder log ((t, x) :: held)) :
    ∃ rest k, c.ledger.inFlight = (t, x) :: rest ∧ c.ledger.cursor = k + 1 ∧
      rest.take k = held := by
  have hhanded := h.handed
  cases hin : c.ledger.inFlight with
  | nil => simp [hin] at hhanded
  | cons e rest =>
    cases hcur : c.ledger.cursor with
    | zero => simp [hcur] at hhanded
    | succ k =>
      simp only [hin, hcur, List.take_succ_cons, List.cons.injEq] at hhanded
      exact ⟨rest, k, by rw [hhanded.1], rfl, hhanded.2⟩

theorem cursor_eq_zero (h : c.InOrder log []) : c.ledger.cursor = 0 := by
  have hlen := congrArg List.length h.handed
  have := h.cursor_le
  simp only [List.length_take, List.length_nil] at hlen
  omega

theorem ack [Positioned T] (h : c.InOrder log ((t, x) :: held)) :
    (c.ack t).InOrder log held ∧ c.present = (t, x) :: (c.ack t).present ∧
      (c.ack t).due = c.due := by
  obtain ⟨rest, k, hin, hcur, htake⟩ := h.held_cons
  have hfind : c.ledger.inFlight.findIdx? (fun e => e.1 == t) = some 0 := by
    simp [hin, List.findIdx?_cons]
  have hledger : (c.ack t).ledger = c.ledger.ack t :=
    Ledger.release_of_absent (Ledger.absent_of_ack h.increasing)
  have hrest : (c.ack t).ledger.inFlight = rest := by
    simp only [hledger, Ledger.ack, hfind]
    rw [hin, List.eraseIdx_cons_zero]
  have hcursor : (c.ack t).ledger.cursor = k := by
    simp [hledger, Ledger.ack, hfind, hcur]
  have hnext : (c.ack t).ledger.nextTicket = c.ledger.nextTicket := by
    rw [hledger, Ledger.nextTicket_ack]
  have hpresent : c.present = (t, x) :: (c.ack t).present := by
    rw [Channel.present, Channel.present, hrest, hnext, hin]
    rfl
  refine ⟨⟨?_, ?_, ?_, ?_⟩, hpresent, ?_⟩
  · obtain ⟨n, hn, heq⟩ := h.present
    have hlt : n < (ticketed 0 log).length := by
      by_contra hge
      rw [heq, List.drop_eq_nil_of_le (by omega)] at hpresent
      cases hpresent
    refine ⟨n + 1, length_ticketed ▸ hlt, ?_⟩
    rw [heq, List.drop_eq_getElem_cons hlt] at hpresent
    exact (List.cons.inj hpresent).2.symm
  · rw [hrest, hcursor, htake]
  · have := h.cursor_le
    rw [hin, hcur, List.length_cons] at this
    rw [hrest, hcursor]
    omega
  · rw [hnext]
    exact h.next
  · rw [due, due, hpresent, hcursor, hcur, List.drop_succ_cons]

end InOrder

theorem release_eq (c : Channel T) (t : ℕ) :
    c.release t = { c with ledger := { c.ledger with cursor := (c.release t).ledger.cursor } } := by
  unfold Channel.release Ledger.release
  split <;> rfl

theorem foldl_release (ts : List ℕ) (c : Channel T) :
    ∃ k ≤ c.ledger.cursor,
      ts.foldl Channel.release c = { c with ledger := { c.ledger with cursor := k } } := by
  induction ts generalizing c with
  | nil => exact ⟨c.ledger.cursor, Nat.le_refl _, rfl⟩
  | cons t ts ih =>
    obtain ⟨k, hk, heq⟩ := ih (c.release t)
    refine ⟨k, Nat.le_trans hk Ledger.cursor_release_le, ?_⟩
    rw [List.foldl_cons, heq, release_eq c t]

/-- Dropping everything held makes it all due again. -/
theorem InOrder.releaseAll (h : c.InOrder log held) :
    ((held.map Prod.fst).foldl Channel.release c).InOrder log [] ∧
      ((held.map Prod.fst).foldl Channel.release c).present = c.present := by
  suffices hzero : (held.map Prod.fst).foldl Channel.release c =
      { c with ledger := { c.ledger with cursor := 0 } } by
    rw [hzero]
    exact ⟨⟨h.present, rfl, Nat.zero_le _, h.next⟩, rfl⟩
  cases held with
  | nil => rw [List.map_nil, List.foldl_nil, ← h.cursor_eq_zero]
  | cons e held =>
    obtain ⟨t, x⟩ := e
    obtain ⟨rest, k, hin, -, -⟩ := h.held_cons
    have hfirst : (c.release t).ledger.cursor = 0 := by
      simp [Channel.release, Ledger.release, hin, List.findIdx?_cons]
    obtain ⟨k, hk, heq⟩ := foldl_release (held.map Prod.fst) (c.release t)
    obtain rfl : k = 0 := by omega
    rw [List.map_cons, List.foldl_cons, heq, release_eq c t]

end Flusso.Stream.Channel
