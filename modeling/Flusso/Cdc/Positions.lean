import Mathlib.Data.List.Basic
import Mathlib.Order.MinMax
import Mathlib.Order.Nat
import Mathlib.Tactic.Push

/-! # Position bookkeeping of the live stream

Each emitted change is assigned the next position; the map from positions to
LSNs says how far the slot may advance once a position is confirmed. The map is
the list of its entries in key order.
-/

namespace Flusso.Cdc

/-- The seq → LSN map of one live stream, with every key already assigned. -/
structure Positions where
  nextSeq : ℕ
  lsnBySeq : List (ℕ × ℕ)
  confirmedLsn : ℕ
  sorted : lsnBySeq.Pairwise fun e e' => e.1 < e'.1
  keys_lt : ∀ e ∈ lsnBySeq, e.1 < nextSeq

namespace Positions

theorem sorted_snoc {es : List (ℕ × ℕ)} {n : ℕ} (lsn : ℕ)
    (hs : es.Pairwise fun e e' => e.1 < e'.1) (hk : ∀ e ∈ es, e.1 < n) :
    (es ++ [(n, lsn)]).Pairwise fun e e' => e.1 < e'.1 := by
  rw [List.pairwise_append]
  refine ⟨hs, List.pairwise_singleton _ _, fun e he e' he' => ?_⟩
  rw [List.mem_singleton.mp he']
  exact hk e he

theorem keys_snoc {es : List (ℕ × ℕ)} {n : ℕ} (lsn : ℕ) (hk : ∀ e ∈ es, e.1 < n) :
    ∀ e ∈ es ++ [(n, lsn)], e.1 < n + 1 := by
  intro e he
  rcases List.mem_append.mp he with he | he
  · exact Nat.lt_succ_of_lt (hk e he)
  · rw [List.mem_singleton.mp he]
    exact Nat.lt_succ_self n

/-- A map confirmed up to `startLsn`, assigning positions from `firstSeq`. -/
def new (startLsn firstSeq : ℕ) : Positions where
  nextSeq := firstSeq
  lsnBySeq := []
  confirmedLsn := startLsn
  sorted := .nil
  keys_lt := by simp

/-- Insert the next position at `lsn`; the fresh key is the last one. -/
def push (p : Positions) (lsn : ℕ) : Positions where
  nextSeq := p.nextSeq + 1
  lsnBySeq := p.lsnBySeq ++ [(p.nextSeq, lsn)]
  confirmedLsn := p.confirmedLsn
  sorted := sorted_snoc lsn p.sorted p.keys_lt
  keys_lt := keys_snoc lsn p.keys_lt

/-- Assign the next position to a change committed at `lsn`. -/
def register (p : Positions) (lsn : ℕ) : ℕ × Positions :=
  (p.nextSeq, p.push lsn)

/-- A position with nothing to deliver: confirmed in place when no entry is
outstanding, else queued behind them. -/
def registerConfirmed (p : Positions) (lsn : ℕ) : Positions :=
  if p.lsnBySeq.isEmpty then { p with confirmedLsn := max p.confirmedLsn lsn }
  else p.push lsn

theorem nextSeq_le_registerConfirmed (p : Positions) {lsn : ℕ} :
    p.nextSeq ≤ (p.registerConfirmed lsn).nextSeq := by
  unfold registerConfirmed
  split
  · exact Nat.le_refl _
  · exact Nat.le_succ _

/-- The entries at or before `seq`. -/
def covered (p : Positions) (seq : ℕ) : List (ℕ × ℕ) :=
  p.lsnBySeq.filter fun e => e.1 < seq + 1

/-- Every position at or before `seq` is durable downstream. -/
def confirm (p : Positions) (seq : ℕ) : Positions where
  nextSeq := p.nextSeq
  lsnBySeq := p.lsnBySeq.filter fun e => seq + 1 ≤ e.1
  confirmedLsn :=
    match ((p.covered seq).map Prod.snd).max? with
    | some highest => max p.confirmedLsn highest
    | none => p.confirmedLsn
  sorted := p.sorted.filter _
  keys_lt := fun e he => p.keys_lt e (List.mem_of_mem_filter he)

section Lemmas

variable {p : Positions} {lsn seq x : ℕ} {e : ℕ × ℕ}

@[simp] theorem nextSeq_new (s n : ℕ) : (new s n).nextSeq = n := rfl

@[simp] theorem lsnBySeq_new (s n : ℕ) : (new s n).lsnBySeq = [] := rfl

@[simp] theorem confirmedLsn_new (s n : ℕ) : (new s n).confirmedLsn = s := rfl

@[simp] theorem nextSeq_push : (p.push lsn).nextSeq = p.nextSeq + 1 := rfl

@[simp] theorem lsnBySeq_push : (p.push lsn).lsnBySeq = p.lsnBySeq ++ [(p.nextSeq, lsn)] := rfl

@[simp] theorem confirmedLsn_push : (p.push lsn).confirmedLsn = p.confirmedLsn := rfl

@[simp] theorem nextSeq_confirm : (p.confirm seq).nextSeq = p.nextSeq := rfl

theorem registerConfirmed_of_empty (h : p.lsnBySeq = []) :
    p.registerConfirmed lsn = { p with confirmedLsn := max p.confirmedLsn lsn } := by
  simp [registerConfirmed, h]

theorem registerConfirmed_of_ne_nil (h : p.lsnBySeq ≠ []) :
    p.registerConfirmed lsn = p.push lsn := by
  simp [registerConfirmed, h]

theorem confirmedLsn_registerConfirmed_of_ne_nil (h : p.lsnBySeq ≠ []) :
    (p.registerConfirmed lsn).confirmedLsn = p.confirmedLsn := by
  rw [registerConfirmed_of_ne_nil h, confirmedLsn_push]

theorem mem_covered : e ∈ p.covered seq ↔ e ∈ p.lsnBySeq ∧ e.1 ≤ seq := by
  simp only [covered, List.mem_filter, decide_eq_true_eq, Nat.lt_succ_iff]

theorem mem_lsnBySeq_confirm :
    e ∈ (p.confirm seq).lsnBySeq ↔ e ∈ p.lsnBySeq ∧ seq < e.1 := by
  simp only [confirm, List.mem_filter, decide_eq_true_eq, Nat.succ_le_iff]

theorem lsnBySeq_confirm_eq_nil :
    (p.confirm seq).lsnBySeq = [] ↔ ∀ e ∈ p.lsnBySeq, e.1 ≤ seq := by
  simp only [confirm, List.filter_eq_nil_iff, decide_eq_true_eq, Nat.not_le, Nat.lt_succ_iff]

theorem le_confirmedLsn_confirm :
    x ≤ (p.confirm seq).confirmedLsn ↔
      x ≤ p.confirmedLsn ∨ ∃ e ∈ p.lsnBySeq, e.1 ≤ seq ∧ x ≤ e.2 := by
  have hexists : (∃ e ∈ p.lsnBySeq, e.1 ≤ seq ∧ x ≤ e.2) ↔
      ∃ y ∈ (p.covered seq).map Prod.snd, x ≤ y := by
    simp only [List.mem_map, mem_covered]
    constructor
    · rintro ⟨e, he, hseq, hx⟩
      exact ⟨e.2, ⟨e, ⟨he, hseq⟩, rfl⟩, hx⟩
    · rintro ⟨y, ⟨e, ⟨he, hseq⟩, rfl⟩, hx⟩
      exact ⟨e, he, hseq, hx⟩
  rw [hexists]
  simp only [confirm]
  split
  · next highest hmax =>
    obtain ⟨hmem, hle⟩ := List.max?_eq_some_iff.mp hmax
    rw [le_max_iff]
    refine or_congr_right ⟨fun h => ⟨highest, hmem, h⟩, ?_⟩
    rintro ⟨y, hy, hxy⟩
    exact hxy.trans (hle y hy)
  · next hmax =>
    rw [List.max?_eq_none_iff] at hmax
    simp [hmax]

theorem confirmedLsn_confirm_lt :
    (p.confirm seq).confirmedLsn < x ↔
      p.confirmedLsn < x ∧ ∀ e ∈ p.lsnBySeq, e.1 ≤ seq → e.2 < x := by
  rw [← not_le, le_confirmedLsn_confirm]
  push Not
  rfl

end Lemmas

end Positions

end Flusso.Cdc
