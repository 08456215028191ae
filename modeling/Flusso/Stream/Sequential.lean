import Flusso.Stream.Ledger

/-! # A lane consumed one delivery at a time

A sink engine holds at most one delivery and acknowledges it before it receives
the next. Its lane is then a log with a count of acknowledged items: at most the
first unacknowledged item is in flight, and the queue is what follows.
-/

namespace Flusso.Stream

namespace Channel

variable {T : Type*}

/-- How many items were acknowledged, when they are in order. -/
def done (c : Channel T) : ℕ := c.ledger.nextTicket - c.ledger.inFlight.length

/-- What the ledger of a sequential consumer holds: nothing, an entry due again, or the
delivery the consumer holds. -/
inductive Flight (log : List T) : Ledger T → Option ℕ → Prop where
  | empty {l : Ledger T} : l.inFlight = [] → l.cursor = 0 → Flight log l none
  | due {l : Ledger T} {t : ℕ} {x : T} : log[t]? = some x → l.inFlight = [(t, x)] →
      l.nextTicket = t + 1 → l.cursor = 0 → Flight log l none
  | held {l : Ledger T} {t : ℕ} {x : T} : log[t]? = some x → l.inFlight = [(t, x)] →
      l.nextTicket = t + 1 → l.cursor = 1 → Flight log l (some t)

variable [Positioned T]

/-- The channel carries `log`, and its consumer holds the delivery `held`. -/
structure Sequential (c : Channel T) (log : List T) (held : Option ℕ) : Prop where
  flight : Flight log c.ledger held
  queue : c.queue = log.drop c.ledger.nextTicket
  next_le : c.ledger.nextTicket ≤ log.length
  acked : ∀ p, c.acked = some p →
    ∃ j < c.done, ∃ x, log[j]? = some x ∧ Positioned.position x = some p

variable {c c' : Channel T} {log : List T} {held : Option ℕ} {t : ℕ} {x : T}

theorem sequential_new (capacity : ℕ) : (new capacity : Channel T).Sequential [] none where
  flight := .empty rfl rfl
  queue := rfl
  next_le := Nat.le_refl 0
  acked := by simp [Channel.acked, new, Ledger.new]

omit [Positioned T] in
theorem Flight.append {l : Ledger T} (h : Flight log l held) (x : T) :
    Flight (log ++ [x]) l held := by
  have hget {t : ℕ} {y : T} (hy : log[t]? = some y) : (log ++ [x])[t]? = some y := by
    rw [List.getElem?_append_left (List.getElem?_eq_some_iff.mp hy).1, hy]
  cases h with
  | empty hin hcur => exact .empty hin hcur
  | due hx hin hnext hcur => exact .due (hget hx) hin hnext hcur
  | held hx hin hnext hcur => exact .held (hget hx) hin hnext hcur

theorem Sequential.publish (h : c.Sequential log held) (hp : c.publish x = some c') :
    c'.Sequential (log ++ [x]) held ∧ c'.done = c.done := by
  unfold Channel.publish at hp
  split at hp
  · cases hp
    refine ⟨⟨h.flight.append x, ?_, ?_, ?_⟩, rfl⟩
    · rw [h.queue, List.drop_append_of_le_length h.next_le]
    · exact Nat.le_trans h.next_le (by simp)
    · intro p hp
      obtain ⟨j, hj, y, hy, hpos⟩ := h.acked p hp
      exact ⟨j, hj, y, by
        rw [List.getElem?_append_left (List.getElem?_eq_some_iff.mp hy).1, hy], hpos⟩
  · cases hp

/-- A receive delivers the first unacknowledged item. -/
theorem Sequential.recv (h : c.Sequential log none) (hr : c.recv = some ((t, x), c')) :
    t = c.done ∧ log[t]? = some x ∧ c'.Sequential log (some t) ∧ c'.done = c.done := by
  cases h.flight with
  | empty hin hcur =>
    have hnone : c.ledger.redelivery = none := by simp [Ledger.redelivery, hin]
    unfold Channel.recv at hr
    rw [hnone] at hr
    cases hq : c.queue with
    | nil => simp [hq] at hr
    | cons y queue =>
      have hget : log[c.ledger.nextTicket]? = some y := by
        rw [← List.head?_drop, ← h.queue, hq, List.head?_cons]
      have htake : c.ledger.take y = ((c.ledger.nextTicket, y), { c.ledger with
          inFlight := [(c.ledger.nextTicket, y)]
          cursor := 1
          nextTicket := c.ledger.nextTicket + 1 }) := by
        simp [Ledger.take, hin, hcur]
      simp only [hq, htake, Option.some.injEq, Prod.mk.injEq] at hr
      obtain ⟨⟨rfl, rfl⟩, rfl⟩ := hr
      have hlt := (List.getElem?_eq_some_iff.mp hget).1
      have hdrop := h.queue
      rw [hq, List.drop_eq_getElem_cons hlt] at hdrop
      refine ⟨by simp [done, hin], hget, ⟨.held hget rfl rfl rfl, ?_, hlt, ?_⟩, by simp [done, hin]⟩
      · exact (List.cons.inj hdrop).2
      · simpa [done, hin, Channel.acked] using h.acked
  | due hx hin hnext hcur =>
    rename_i s y
    have hred : c.ledger.redelivery = some ((s, y), { c.ledger with cursor := 1 }) := by
      simp [Ledger.redelivery, hin, hcur]
    simp only [Channel.recv, hred, Option.some.injEq, Prod.mk.injEq] at hr
    obtain ⟨⟨rfl, rfl⟩, rfl⟩ := hr
    exact ⟨by simp [done, hin, hnext], hx, ⟨.held hx hin hnext rfl, h.queue, h.next_le, h.acked⟩,
      rfl⟩

theorem Sequential.exists_recv (h : c.Sequential log none) (hlt : c.done < log.length) :
    ∃ entry c', c.recv = some (entry, c') := by
  cases h.flight with
  | empty hin hcur =>
    have hnone : c.ledger.redelivery = none := by simp [Ledger.redelivery, hin]
    cases hq : c.queue with
    | nil =>
      have hlen := congrArg List.length (h.queue.symm.trans hq)
      simp only [done, hin, List.length_nil, Nat.sub_zero] at hlt
      simp only [List.length_drop, List.length_nil] at hlen
      omega
    | cons y queue =>
      refine ⟨(c.ledger.take y).1, { c with queue, ledger := (c.ledger.take y).2 }, ?_⟩
      simp only [Channel.recv, hnone, hq]
  | due hx hin hnext hcur =>
    rename_i s y
    refine ⟨(s, y), { c with ledger := { c.ledger with cursor := 1 } }, ?_⟩
    simp [Channel.recv, Ledger.redelivery, hin, hcur]

theorem Sequential.held_eq (h : c.Sequential log (some t)) :
    t = c.done ∧ ∃ x, log[t]? = some x := by
  cases h.flight with
  | held hx hin hnext hcur => exact ⟨by simp [done, hin, hnext], _, hx⟩

theorem Sequential.done_le (h : c.Sequential log held) : c.done ≤ log.length :=
  Nat.le_trans (Nat.sub_le _ _) h.next_le

theorem Sequential.ack (h : c.Sequential log (some t)) :
    (c.ack t).Sequential log none ∧ (c.ack t).done = c.done + 1 := by
  cases h.flight with
  | held hx hin hnext hcur =>
    rename_i y
    have hack : c.ack t = { c with ledger := { c.ledger with
        inFlight := []
        cursor := 0
        acked := (Positioned.position y).elim c.ledger.acked fun position =>
          some (c.ledger.acked.elim position fun p => max p position) } } := by
      cases hposition : Positioned.position y <;>
        simp [Channel.ack, Ledger.ack, Ledger.release, hin, hcur, hposition]
    have hdone : c.done = t := by simp [done, hin, hnext]
    rw [hack]
    refine ⟨⟨.empty rfl rfl, h.queue, h.next_le, fun p hp => ?_⟩, by simp [done, hin, hnext]⟩
    have hold : c.ledger.acked = some p →
        ∃ j < t + 1, ∃ x, log[j]? = some x ∧ Positioned.position x = some p := by
      intro hacked
      obtain ⟨j, hj, x, hx, hpos⟩ := h.acked p hacked
      exact ⟨j, by omega, x, hx, hpos⟩
    simp only [Channel.acked] at hp
    simp only [done, hnext, List.length_nil, Nat.sub_zero]
    cases hpos : Positioned.position y with
    | none =>
      rw [hpos] at hp
      exact hold hp
    | some q =>
      simp only [hpos] at hp
      cases hacked : c.ledger.acked with
      | none =>
        simp only [hacked, Option.elim_none] at hp
        exact ⟨t, Nat.lt_succ_self t, y, hx, hp ▸ hpos⟩
      | some r =>
        simp only [hacked, Option.elim_some] at hp
        rcases Nat.le_total r q with hle | hle
        · exact ⟨t, Nat.lt_succ_self t, y, hx, by rw [hpos, ← hp, Nat.max_eq_right hle]⟩
        · exact hold (by rw [hacked, ← hp, Nat.max_eq_left hle])

theorem Sequential.release (h : c.Sequential log (some t)) :
    (c.release t).Sequential log none ∧ (c.release t).done = c.done := by
  cases h.flight with
  | held hx hin hnext hcur =>
    have hrel : c.release t = { c with ledger := { c.ledger with cursor := 0 } } := by
      simp [Channel.release, Ledger.release, hin, hcur]
    rw [hrel]
    exact ⟨⟨.due hx hin hnext rfl, h.queue, h.next_le, h.acked⟩, rfl⟩

theorem Sequential.done_of_isIdle (h : c.Sequential log held) (hidle : c.isIdle = true) :
    c.done = log.length := by
  simp only [isIdle, Bool.and_eq_true, List.isEmpty_iff] at hidle
  have hlen := congrArg List.length (h.queue.symm.trans hidle.2)
  have := h.next_le
  simp only [List.length_drop, List.length_nil] at hlen
  simp only [done, hidle.1, List.length_nil]
  omega

/-- A full lane has an item left to deliver. -/
theorem Sequential.done_lt_of_publish_eq_none (h : c.Sequential log held)
    (hcap : 0 < c.capacity) (hp : c.publish x = none) : c.done < log.length := by
  have hfull : c.capacity ≤ c.queue.length := by
    unfold Channel.publish at hp
    split at hp
    · cases hp
    · omega
  rw [h.queue, List.length_drop] at hfull
  have := Nat.sub_le c.ledger.nextTicket c.ledger.inFlight.length
  simp only [done]
  omega

end Channel

end Flusso.Stream
