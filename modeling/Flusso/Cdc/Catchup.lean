import Flusso.Cdc.Positions
import Flusso.Foundation.Transition

/-! # Catching up when idle

Once every position handed out is confirmed, the map should be empty and the
resume point past every LSN registered. A keepalive queued behind a change has
a position of its own, which the confirm of that change need not name.
-/

namespace Flusso.Cdc

/-- The calls made on a live stream's position map. -/
inductive PositionOp where
  | register (lsn : ℕ)
  | registerConfirmed (lsn : ℕ)
  | confirm (seq : ℕ)
  deriving DecidableEq

/-- A position map with the history of the calls made on it: the positions handed
out by `register` and not covered yet, and every LSN registered. -/
structure Tracked where
  positions : Positions
  outstanding : List ℕ
  seen : List ℕ

namespace Tracked

def start (startLsn firstSeq : ℕ) : Tracked where
  positions := .new startLsn firstSeq
  outstanding := []
  seen := []

def apply (t : Tracked) : PositionOp → Tracked
  | .register lsn =>
    let (seq, positions) := t.positions.register lsn
    { positions, outstanding := t.outstanding ++ [seq], seen := t.seen ++ [lsn] }
  | .registerConfirmed lsn =>
    { t with positions := t.positions.registerConfirmed lsn, seen := t.seen ++ [lsn] }
  | .confirm seq =>
    { t with
      positions := t.positions.confirm seq
      outstanding := t.outstanding.filter fun p => seq < p }

/-- Nothing handed out is unconfirmed only when the map is empty and the resume point
has reached every LSN registered. -/
def CatchesUp (t : Tracked) : Prop :=
  t.outstanding = [] →
    t.positions.lsnBySeq = [] ∧ ∀ lsn ∈ t.seen, lsn ≤ t.positions.confirmedLsn

/-- A confirm of the last positions handed out names a position no earlier than every
keepalive still queued. -/
def ReleasesKeepalives (t : Tracked) : PositionOp → Prop
  | .confirm seq => (∀ p ∈ t.outstanding, p ≤ seq) →
      ∀ e ∈ t.positions.lsnBySeq, e.1 ∉ t.outstanding → e.1 ≤ seq
  | _ => True

/-- Every LSN registered is below the resume point or held back by an entry of the map. -/
def Accounted (t : Tracked) : Prop :=
  ∀ lsn ∈ t.seen, lsn ≤ t.positions.confirmedLsn ∨ ∃ e ∈ t.positions.lsnBySeq, lsn ≤ e.2

variable {t : Tracked} {lsn seq : ℕ}

theorem accounted_start (startLsn firstSeq : ℕ) : (start startLsn firstSeq).Accounted := by
  simp [Accounted, start]

theorem catchesUp_start (startLsn firstSeq : ℕ) : (start startLsn firstSeq).CatchesUp := by
  simp [CatchesUp, start]

theorem Accounted.push (h : t.Accounted) {l : ℕ} (hl : l ∈ t.seen ++ [lsn]) :
    l ≤ (t.positions.push lsn).confirmedLsn ∨ ∃ e ∈ (t.positions.push lsn).lsnBySeq, l ≤ e.2 := by
  rcases List.mem_append.mp hl with hl | hl
  · rcases h l hl with hc | ⟨e, he, hle⟩
    · exact .inl hc
    · exact .inr ⟨e, List.mem_append_left _ he, hle⟩
  · rw [List.mem_singleton.mp hl]
    exact .inr ⟨(t.positions.nextSeq, lsn), List.mem_append_right _ (by simp), le_rfl⟩

theorem Accounted.apply (h : t.Accounted) : ∀ op, (t.apply op).Accounted
  | .register _ => fun _ hl => h.push hl
  | .registerConfirmed lsn => by
    intro l hl
    by_cases hempty : t.positions.lsnBySeq = []
    · refine .inl ?_
      simp only [Tracked.apply, Positions.registerConfirmed_of_empty hempty, le_max_iff]
      rcases List.mem_append.mp hl with hl | hl
      · rcases h l hl with hc | ⟨e, he, -⟩
        · exact .inl hc
        · simp [hempty] at he
      · exact .inr (List.mem_singleton.mp hl).le
    · simp only [Tracked.apply, Positions.registerConfirmed_of_ne_nil hempty]
      exact h.push hl
  | .confirm seq => by
    intro l hl
    simp only [Tracked.apply, Positions.le_confirmedLsn_confirm, Positions.mem_lsnBySeq_confirm]
    rcases h l hl with hc | ⟨e, he, hle⟩
    · exact .inl (.inl hc)
    · rcases Nat.lt_or_ge seq e.1 with hlt | hge
      · exact .inr ⟨e, ⟨he, hlt⟩, hle⟩
      · exact .inl (.inr ⟨e, he, hge, hle⟩)

theorem CatchesUp.registerConfirmed (hb : t.Accounted) (h : t.CatchesUp) :
    (t.apply (.registerConfirmed lsn)).CatchesUp := by
  intro hout
  have hempty := (h hout).1
  have hmap : (t.apply (.registerConfirmed lsn)).positions.lsnBySeq = [] := by
    simp [Tracked.apply, Positions.registerConfirmed_of_empty hempty, hempty]
  refine ⟨hmap, fun l hl => ?_⟩
  rcases hb.apply (.registerConfirmed lsn) l hl with hc | ⟨e, he, -⟩
  · exact hc
  · simp [hmap] at he

theorem catchesUp_confirm_iff (hb : t.Accounted) :
    (t.apply (.confirm seq)).CatchesUp ↔ t.ReleasesKeepalives (.confirm seq) := by
  have hout : (t.apply (.confirm seq)).outstanding = [] ↔ ∀ p ∈ t.outstanding, p ≤ seq := by
    simp [Tracked.apply]
  have hmap : (t.apply (.confirm seq)).positions.lsnBySeq = [] ↔
      ∀ e ∈ t.positions.lsnBySeq, e.1 ≤ seq :=
    Positions.lsnBySeq_confirm_eq_nil
  rw [CatchesUp, hout, hmap, ReleasesKeepalives]
  refine forall_congr' fun hcov => ⟨fun h e he _ => h.1 e he, fun h => ?_⟩
  have hall : ∀ e ∈ t.positions.lsnBySeq, e.1 ≤ seq := by
    intro e he
    by_cases hmem : e.1 ∈ t.outstanding
    · exact hcov _ hmem
    · exact h e he hmem
  refine ⟨hall, fun l hl => ?_⟩
  rcases hb.apply (.confirm seq) l hl with hc | ⟨e, he, -⟩
  · exact hc
  · exact absurd (hmap.mpr hall ▸ he) List.not_mem_nil

theorem catchesUp_apply_iff (hb : t.Accounted) (h : t.CatchesUp) :
    ∀ op, (t.apply op).CatchesUp ↔ t.ReleasesKeepalives op
  | .register _ => ⟨fun _ => trivial, fun _ hout => by simp [Tracked.apply] at hout⟩
  | .registerConfirmed _ => ⟨fun _ => trivial, fun _ => h.registerConfirmed hb⟩
  | .confirm _ => catchesUp_confirm_iff hb

end Tracked

/-- The position map under any sequence of calls. -/
def tracking : Transition.Machine Tracked PositionOp where
  init t := ∃ startLsn firstSeq, t = .start startLsn firstSeq
  step t op := some (t.apply op)

open Tracked

/-- A run keeps catching up exactly when each confirm of the last outstanding positions
releases the keepalives queued behind them. -/
theorem always_catchesUp_iff (startLsn firstSeq : ℕ) (ops : List PositionOp) :
    tracking.Always CatchesUp (.start startLsn firstSeq) ops ↔
      tracking.Each ReleasesKeepalives (.start startLsn firstSeq) ops := by
  refine Transition.Machine.always_iff_each (B := Accounted) ?_ ?_
    (accounted_start startLsn firstSeq) (catchesUp_start startLsn firstSeq)
  · rintro t op _ hb ⟨⟩
    exact hb.apply op
  · rintro t op _ hb hp ⟨⟩
    exact catchesUp_apply_iff hb hp op

/-- A keepalive behind one change stays queued once the change is confirmed. -/
theorem not_catchesUp_keepalive_behind_change :
    ¬ tracking.Always CatchesUp (.start 0 0)
      [.register 10, .registerConfirmed 100, .confirm 0] := by
  intro h
  have hrun : tracking.run (start 0 0) [.register 10, .registerConfirmed 100, .confirm 0] =
      some ((((start 0 0).apply (.register 10)).apply (.registerConfirmed 100)).apply
        (.confirm 0)) := rfl
  exact absurd (h.last hrun (by decide)).1 (by decide)

end Flusso.Cdc
