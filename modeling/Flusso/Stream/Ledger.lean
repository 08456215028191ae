import Mathlib.Data.List.Basic
import Mathlib.Data.Nat.Basic

/-! # The in-process channel

A bounded queue with its in-flight ledger: what was delivered and not yet
acknowledged, in delivery order under its ticket. Everything from the cursor on
is due for redelivery and is served before anything new is pulled.
-/

namespace Flusso.Stream

/-- What acknowledging an item confirms for its lane's watermark. -/
class Positioned (T : Type*) where
  position : T → Option ℕ

structure Ledger (T : Type*) where
  inFlight : List (ℕ × T)
  cursor : ℕ
  nextTicket : ℕ
  acked : Option ℕ

namespace Ledger

variable {T : Type*}

def new : Ledger T where
  inFlight := []
  cursor := 0
  nextTicket := 0
  acked := none

/-- Mark a ticket for redelivery: the cursor moves back to it. -/
def release (l : Ledger T) (ticket : ℕ) : Ledger T :=
  match l.inFlight.findIdx? (fun entry => entry.1 == ticket) with
  | some index => { l with cursor := min l.cursor index }
  | none => l

def redelivery (l : Ledger T) : Option ((ℕ × T) × Ledger T) :=
  match l.inFlight[l.cursor]? with
  | some entry => some (entry, { l with cursor := l.cursor + 1 })
  | none => none

/-- Enter an item pulled off the queue. A release that landed meanwhile moved the cursor
back: serve that redelivery first and leave the new item in order behind it. -/
def take (l : Ledger T) (item : T) : (ℕ × T) × Ledger T :=
  let inFlight := l.inFlight ++ [(l.nextTicket, item)]
  let l' := { l with nextTicket := l.nextTicket + 1, inFlight }
  if _ : l.cursor + 1 < inFlight.length then
    (inFlight[l.cursor], { l' with cursor := l.cursor + 1 })
  else ((l.nextTicket, item), { l' with cursor := inFlight.length })

/-- Remove a ticket's item and record its position; a ticket already gone is ignored. -/
def ack [Positioned T] (l : Ledger T) (ticket : ℕ) : Ledger T :=
  match l.inFlight.findIdx? (fun entry => entry.1 == ticket) with
  | none => l
  | some index =>
    { l with
      inFlight := l.inFlight.eraseIdx index
      cursor := if index < l.cursor then l.cursor - 1 else l.cursor
      acked :=
        match l.inFlight[index]?.bind fun entry => Positioned.position entry.2 with
        | some position => some (l.acked.elim position fun p => max p position)
        | none => l.acked }

end Ledger

/-- One bounded channel with its in-flight ledger. -/
structure Channel (T : Type*) where
  capacity : ℕ
  queue : List T
  ledger : Ledger T

namespace Channel

variable {T : Type*}

def new (capacity : ℕ) : Channel T where
  capacity := capacity
  queue := []
  ledger := .new

/-- Publishing waits while the queue is full. -/
def publish (c : Channel T) (item : T) : Option (Channel T) :=
  if c.queue.length < c.capacity then some { c with queue := c.queue ++ [item] } else none

/-- Serve a redelivery before pulling anything new; wait when there is neither. -/
def recv (c : Channel T) : Option ((ℕ × T) × Channel T) :=
  match c.ledger.redelivery with
  | some (entry, ledger) => some (entry, { c with ledger })
  | none =>
    match c.queue with
    | [] => none
    | item :: queue =>
      let (entry, ledger) := c.ledger.take item
      some (entry, { c with queue, ledger })

def release (c : Channel T) (ticket : ℕ) : Channel T :=
  { c with ledger := c.ledger.release ticket }

/-- Acknowledge a delivery; dropping its handle afterwards releases nothing. -/
def ack [Positioned T] (c : Channel T) (ticket : ℕ) : Channel T :=
  { c with ledger := (c.ledger.ack ticket).release ticket }

def acked (c : Channel T) : Option ℕ := c.ledger.acked

/-- Nothing queued behind the deliveries already handed out. -/
def isCaughtUp (c : Channel T) : Bool :=
  c.ledger.cursor == c.ledger.inFlight.length && c.queue.isEmpty

/-- Nothing queued and nothing delivered but unacknowledged. -/
def isIdle (c : Channel T) : Bool :=
  c.ledger.inFlight.isEmpty && c.queue.isEmpty

end Channel

section Tickets

variable {T : Type*}

/-- Items under consecutive tickets. -/
def ticketed : ℕ → List T → List (ℕ × T)
  | _, [] => []
  | n, x :: xs => (n, x) :: ticketed (n + 1) xs

variable {n t : ℕ} {x : T} {xs ys : List T} {es : List (ℕ × T)}

@[simp] theorem ticketed_nil : ticketed n ([] : List T) = [] := rfl

@[simp] theorem ticketed_cons : ticketed n (x :: xs) = (n, x) :: ticketed (n + 1) xs := rfl

@[simp] theorem length_ticketed : (ticketed n xs).length = xs.length := by
  induction xs generalizing n with
  | nil => rfl
  | cons x xs ih => simp [ih]

theorem ticketed_append :
    ticketed n (xs ++ ys) = ticketed n xs ++ ticketed (n + xs.length) ys := by
  induction xs generalizing n with
  | nil => rfl
  | cons x xs ih => simp [ih, Nat.add_assoc, Nat.add_comm 1]

theorem ticketed_bounds {e : ℕ × T} (he : e ∈ ticketed n xs) :
    n ≤ e.1 ∧ e.1 < n + xs.length := by
  induction xs generalizing n with
  | nil => cases he
  | cons x xs ih =>
    rcases List.mem_cons.mp he with rfl | he
    · simp
    · have := ih he
      simp only [List.length_cons]
      omega

theorem ticketed_sorted : (ticketed n xs).Pairwise fun e e' => e.1 < e'.1 := by
  induction xs generalizing n with
  | nil => exact .nil
  | cons x xs ih => exact .cons (fun e he => (ticketed_bounds he).1) ih

theorem mem_ticketed_zero : (t, x) ∈ ticketed 0 xs ↔ xs[t]? = some x := by
  suffices h : ∀ n, (n + t, x) ∈ ticketed n xs ↔ xs[t]? = some x by
    simpa using h 0
  intro n
  induction xs generalizing n t with
  | nil => simp
  | cons y ys ih =>
    cases t with
    | zero =>
      have hlater : (n, x) ∉ ticketed (n + 1) ys := fun h =>
        absurd (ticketed_bounds h).1 (Nat.not_succ_le_self n)
      simp [hlater, eq_comm]
    | succ t =>
      have hne : n + (t + 1) ≠ n := by omega
      simpa [hne, Nat.add_assoc, Nat.add_comm 1] using ih (n + 1)

/-- Tickets increase along the list. -/
def Increasing (es : List (ℕ × T)) : Prop := es.Pairwise fun e e' => e.1 < e'.1

theorem findIdx?_eq_some {i : ℕ} (h : es.findIdx? (fun e => e.1 == t) = some i) :
    ∃ x, es[i]? = some (t, x) := by
  obtain ⟨hi, heq, -⟩ := List.findIdx?_eq_some_iff_getElem.mp h
  refine ⟨es[i].2, ?_⟩
  rw [List.getElem?_eq_getElem hi, ← eq_of_beq heq]

theorem findIdx?_eq_none : es.findIdx? (fun e => e.1 == t) = none ↔ ∀ e ∈ es, e.1 ≠ t := by
  simp

theorem Increasing.eraseIdx_eq_filter (h : Increasing es) {i : ℕ} (hi : es[i]? = some (t, x)) :
    es.eraseIdx i = es.filter fun e => e.1 ≠ t := by
  induction es generalizing i with
  | nil => cases hi
  | cons e es ih =>
    rw [Increasing, List.pairwise_cons] at h
    cases i with
    | zero =>
      obtain rfl : e = (t, x) := by simpa using hi
      have hlater : ∀ e ∈ es, e.1 ≠ t := fun e he => Nat.ne_of_gt (h.1 e he)
      simp only [List.eraseIdx_zero, List.tail_cons, ne_eq, not_true_eq_false, decide_false,
        Bool.false_eq_true, not_false_eq_true, List.filter_cons_of_neg]
      exact (List.filter_eq_self.mpr fun e he => decide_eq_true (hlater e he)).symm
    | succ i =>
      have hlt : e.1 < t := h.1 (t, x) (List.mem_of_getElem? hi)
      simp [ih h.2 (by simpa using hi), Nat.ne_of_lt hlt]

theorem drop_eraseIdx_of_lt {i c : ℕ} (h : i < c) :
    (es.eraseIdx i).drop (c - 1) = es.drop c := by
  induction es generalizing i c with
  | nil => simp
  | cons e es ih =>
    obtain ⟨c, rfl⟩ : ∃ d, c = d + 1 := ⟨c - 1, by omega⟩
    cases i with
    | zero => simp
    | succ i =>
      obtain ⟨c, rfl⟩ : ∃ d, c = d + 1 := ⟨c - 1, by omega⟩
      simpa using ih (i := i) (c := c + 1) (by omega)

theorem drop_eraseIdx_of_le {i c : ℕ} (h : c ≤ i) :
    (es.eraseIdx i).drop c = (es.drop c).eraseIdx (i - c) := by
  induction es generalizing i c with
  | nil => simp
  | cons e es ih =>
    cases c with
    | zero => simp
    | succ c =>
      obtain ⟨i, rfl⟩ : ∃ j, i = j + 1 := ⟨i - 1, by omega⟩
      simpa using ih (i := i) (c := c) (by omega)

theorem Increasing.le_of_fst_le (h : Increasing es) {i j : ℕ} {e e' : ℕ × T}
    (hi : es[i]? = some e) (hj : es[j]? = some e') (hle : e.1 ≤ e'.1) : i ≤ j := by
  by_contra hlt
  obtain ⟨hi', rfl⟩ := List.getElem?_eq_some_iff.mp hi
  obtain ⟨hj', rfl⟩ := List.getElem?_eq_some_iff.mp hj
  have := List.pairwise_iff_getElem.mp h j i hj' hi' (by omega)
  omega

end Tickets

namespace Ledger

variable {T : Type*} {l : Ledger T} {t : ℕ}

@[simp] theorem inFlight_release : (l.release t).inFlight = l.inFlight := by
  unfold release; split <;> rfl

@[simp] theorem nextTicket_release : (l.release t).nextTicket = l.nextTicket := by
  unfold release; split <;> rfl

@[simp] theorem acked_release : (l.release t).acked = l.acked := by
  unfold release; split <;> rfl

theorem cursor_release_le : (l.release t).cursor ≤ l.cursor := by
  unfold release
  split
  · exact Nat.min_le_left _ _
  · exact Nat.le_refl _

theorem release_of_absent (h : ∀ e ∈ l.inFlight, e.1 ≠ t) : l.release t = l := by
  unfold release
  rw [findIdx?_eq_none.mpr h]

theorem mem_due_release (hinc : Increasing l.inFlight) {x : T} (hx : (t, x) ∈ l.inFlight)
    {e : ℕ × T} (he : e ∈ l.inFlight) (hle : t ≤ e.1) :
    e ∈ l.inFlight.drop (l.release t).cursor := by
  cases hfind : l.inFlight.findIdx? (fun e => e.1 == t) with
  | none => exact absurd rfl (findIdx?_eq_none.mp hfind _ hx)
  | some i =>
    obtain ⟨y, hi⟩ := findIdx?_eq_some hfind
    obtain ⟨j, hj⟩ := List.mem_iff_getElem?.mp he
    have hij : i ≤ j := hinc.le_of_fst_le hi hj hle
    have hcur : (l.release t).cursor = min l.cursor i := by simp only [release, hfind]
    refine List.mem_of_getElem? (i := j - min l.cursor i) ?_
    rw [hcur, List.getElem?_drop, ← hj]
    congr 1
    omega

section Ack

variable [Positioned T]

theorem ack_of_absent (h : ∀ e ∈ l.inFlight, e.1 ≠ t) : l.ack t = l := by
  unfold ack
  rw [findIdx?_eq_none.mpr h]

@[simp] theorem nextTicket_ack : (l.ack t).nextTicket = l.nextTicket := by
  unfold ack; split <;> rfl

theorem inFlight_ack (hinc : Increasing l.inFlight) :
    (l.ack t).inFlight = l.inFlight.filter fun e => e.1 ≠ t := by
  cases hfind : l.inFlight.findIdx? (fun e => e.1 == t) with
  | none =>
    have habsent := findIdx?_eq_none.mp hfind
    rw [ack_of_absent habsent]
    exact (List.filter_eq_self.mpr fun e he => decide_eq_true (habsent e he)).symm
  | some i =>
    obtain ⟨x, hi⟩ := findIdx?_eq_some hfind
    simp only [ack, hfind]
    exact hinc.eraseIdx_eq_filter hi

theorem absent_of_ack (hinc : Increasing l.inFlight) : ∀ e ∈ (l.ack t).inFlight, e.1 ≠ t := by
  rw [inFlight_ack hinc]
  simp

theorem cursor_ack_le (h : l.cursor ≤ l.inFlight.length) :
    (l.ack t).cursor ≤ (l.ack t).inFlight.length := by
  cases hfind : l.inFlight.findIdx? (fun e => e.1 == t) with
  | none => rwa [ack_of_absent (findIdx?_eq_none.mp hfind)]
  | some i =>
    have hi := (List.findIdx?_eq_some_iff_getElem.mp hfind).1
    simp only [ack, hfind, List.length_eraseIdx_of_lt hi]
    split <;> omega

/-- An acknowledgement removes its ticket from what is due and nothing else. -/
theorem due_ack (hinc : Increasing l.inFlight) :
    (l.ack t).inFlight.drop (l.ack t).cursor =
      (l.inFlight.drop l.cursor).filter fun e => e.1 ≠ t := by
  cases hfind : l.inFlight.findIdx? (fun e => e.1 == t) with
  | none =>
    have habsent := findIdx?_eq_none.mp hfind
    rw [ack_of_absent habsent]
    refine (List.filter_eq_self.mpr fun e he => decide_eq_true ?_).symm
    exact habsent e (List.mem_of_mem_drop he)
  | some i =>
    obtain ⟨x, hi⟩ := findIdx?_eq_some hfind
    simp only [ack, hfind]
    split
    · next hlt =>
      rw [drop_eraseIdx_of_lt hlt]
      refine (List.filter_eq_self.mpr fun e he => ?_).symm
      obtain ⟨j, hj⟩ := List.mem_iff_getElem?.mp he
      rw [List.getElem?_drop] at hj
      have hne : e.1 ≠ t := by
        intro heq
        have := hinc.le_of_fst_le hj hi (Nat.le_of_eq heq)
        omega
      exact decide_eq_true hne
    · next hge =>
      have hle : l.cursor ≤ i := Nat.le_of_not_lt hge
      rw [drop_eraseIdx_of_le hle]
      refine Increasing.eraseIdx_eq_filter (x := x) (List.Pairwise.drop hinc) ?_
      rw [List.getElem?_drop, Nat.add_sub_cancel' hle]
      exact hi

end Ack

theorem redelivery_eq_some {entry : ℕ × T} {l' : Ledger T}
    (h : l.redelivery = some (entry, l')) :
    l.inFlight[l.cursor]? = some entry ∧ l' = { l with cursor := l.cursor + 1 } := by
  unfold redelivery at h
  split at h
  · next hget => cases h; exact ⟨hget, rfl⟩
  · cases h

theorem take_eq (hcur : l.cursor ≤ l.inFlight.length) (item : T) :
    ∃ entry, (l.inFlight ++ [(l.nextTicket, item)])[l.cursor]? = some entry ∧
      l.take item = (entry, { l with
        inFlight := l.inFlight ++ [(l.nextTicket, item)]
        cursor := l.cursor + 1
        nextTicket := l.nextTicket + 1 }) := by
  by_cases hlt : l.cursor + 1 < (l.inFlight ++ [(l.nextTicket, item)]).length
  · refine ⟨_, List.getElem?_eq_getElem (by omega), ?_⟩
    simp only [take, hlt, dite_true]
  · have hcur' : l.cursor = l.inFlight.length := by
      simp only [List.length_append, List.length_singleton] at hlt
      omega
    refine ⟨(l.nextTicket, item), by simp [hcur'], ?_⟩
    simp only [take, hlt, dite_false]
    simp [hcur']

end Ledger

end Flusso.Stream
