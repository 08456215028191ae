import Flusso.Cdc.Keys
import Flusso.Cdc.Stream
import Mathlib.Data.List.DropRight

/-! # Whole transactions

The live stream emits the changes of committed transactions, in commit order,
and nothing else. First over decoded events, then over the raw messages, whose
row changes depend on the relations announced before them.
-/

namespace Flusso.Cdc

section Committed

variable {C : Type*}

namespace ReplicationEvent

/-- A transaction begins or ends here. -/
def isBoundary : ReplicationEvent C → Bool
  | .begin => true
  | .commit _ => true
  | _ => false

/-- The row changes an event carries. -/
def rows : ReplicationEvent C → List C
  | .xlogData (some changes) => changes
  | _ => []

/-- What the event commits of the changes before it, under its end LSN. -/
def commits : ReplicationEvent C → List C → List (C × ℕ)
  | .commit endLsn, changes => changes.map fun change => (change, endLsn)
  | _, _ => []

end ReplicationEvent

/-- The row changes since the last transaction boundary, in message order. -/
def openChanges (events : List (ReplicationEvent C)) : List C :=
  (events.rtakeWhile fun event => !event.isBoundary).flatMap ReplicationEvent.rows

/-- The row changes of every committed transaction, each with its transaction's end LSN, in
commit order. -/
def committedChanges (events : List (ReplicationEvent C)) : List (C × ℕ) :=
  (List.range events.length).flatMap fun k =>
    (events[k]?.map fun event => event.commits (openChanges (events.take k))).getD []

variable {events : List (ReplicationEvent C)} {event : ReplicationEvent C}

theorem openChanges_concat : openChanges (events ++ [event]) =
    if event.isBoundary then [] else openChanges events ++ event.rows := by
  rw [openChanges, List.rtakeWhile_concat]
  cases event.isBoundary <;> simp [openChanges]

theorem committedChanges_concat :
    committedChanges (events ++ [event]) =
      committedChanges events ++ event.commits (openChanges events) := by
  simp only [committedChanges, List.length_append, List.length_singleton, List.range_succ,
    List.flatMap_append, List.flatMap_singleton]
  congr 1
  · refine List.flatMap_congr fun k hk => ?_
    have hlt := List.mem_range.mp hk
    rw [List.getElem?_append_left hlt, List.take_append_of_le_length hlt.le]
  · simp

end Committed

namespace Live

variable {C : Type*} {s s' : Live C} {a : LiveAction} {event : ReplicationEvent C}
  {consumed rest : List (ReplicationEvent C)}

/-- What the stream has emitted or queued, each change with its end LSN. -/
def delivered (s : Live C) : List (C × ℕ) :=
  (s.emitted.map fun e => (e.change, e.lsn)) ++ s.decode.pending

/-- The stream holds exactly the changes of the events it consumed. -/
structure Exact (s : Live C) (consumed : List (ReplicationEvent C)) : Prop where
  openTxn : s.decode.openTxn = openChanges consumed
  delivered : s.delivered = committedChanges consumed

theorem exact_start {startLsn firstSeq : ℕ} {events : List (ReplicationEvent C)} :
    (start startLsn firstSeq events).Exact [] where
  openTxn := rfl
  delivered := rfl

theorem Exact.frame (h : s.Exact consumed) (hopen : s'.decode.openTxn = s.decode.openTxn)
    (hdelivered : s'.delivered = s.delivered) : s'.Exact consumed where
  openTxn := hopen.trans h.openTxn
  delivered := hdelivered.trans h.delivered

theorem Exact.skip (h : s.Exact consumed) (hboundary : event.isBoundary = false)
    (hrows : event.rows = []) (hopen : s'.decode.openTxn = s.decode.openTxn)
    (hdelivered : s'.delivered = s.delivered) : s'.Exact (consumed ++ [event]) where
  openTxn := by
    rw [hopen, h.openTxn, openChanges_concat, hboundary, hrows]
    simp
  delivered := by
    rw [hdelivered, h.delivered, committedChanges_concat]
    cases event <;> simp [ReplicationEvent.isBoundary, ReplicationEvent.commits] at hboundary ⊢

theorem Exact.handle (h : s.Exact consumed) :
    Exact { s with decode := s.decode.handle event, incoming := rest } (consumed ++ [event]) := by
  cases event with
  | keepAlive walEnd =>
    refine h.skip rfl rfl ?_ ?_
    · simp only [DecodeState.handle]
      split <;> rfl
    · simp only [Live.delivered, DecodeState.handle]
      split <;> rfl
  | message => exact h.skip rfl rfl rfl rfl
  | begin =>
    constructor
    · rw [openChanges_concat]
      rfl
    · rw [committedChanges_concat, ← h.delivered]
      exact (List.append_nil _).symm
  | commit endLsn =>
    constructor
    · rw [openChanges_concat]
      simp only [DecodeState.handle]
      split
      · next hempty =>
        split <;> exact List.isEmpty_iff.mp hempty
      · rfl
    · rw [committedChanges_concat, ReplicationEvent.commits, ← h.delivered, ← h.openTxn]
      simp only [Live.delivered, DecodeState.handle]
      split
      · next hempty =>
        rw [List.isEmpty_iff.mp hempty]
        split <;> simp
      · simp
  | stoppedAt => exact h.skip rfl rfl rfl rfl
  | xlogData decoded =>
    cases decoded with
    | none => exact h.skip rfl rfl rfl rfl
    | some changes =>
      constructor
      · rw [openChanges_concat, ← h.openTxn]
        rfl
      · rw [committedChanges_concat, ← h.delivered]
        exact (List.append_nil _).symm

theorem Exact.step (h : s.Exact consumed) (hs : s.step a = some s') :
    ∃ read, s.incoming = read ++ s'.incoming ∧ s'.Exact (consumed ++ read) := by
  rcases step_cases hs with ⟨change, lsn, rest, -, hpending, rfl⟩ | ⟨-, hincoming, rfl⟩ |
    ⟨event, rest, -, -, hincoming, rfl⟩ | ⟨seq, -, -, rfl⟩
  · refine ⟨[], rfl, ?_⟩
    rw [List.append_nil]
    refine h.frame rfl ?_
    simp [Live.delivered, afterEmit, hpending]
  · refine ⟨[], rfl, ?_⟩
    rw [List.append_nil]
    exact h.frame rfl rfl
  · exact ⟨[event], hincoming, h.handle⟩
  · refine ⟨[], rfl, ?_⟩
    rw [List.append_nil]
    exact h.frame rfl rfl

end Live

end Flusso.Cdc
