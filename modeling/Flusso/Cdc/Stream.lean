import Flusso.Cdc.Positions
import Flusso.Foundation.Transition

/-! # The live change stream

One replication connection: events are folded into the decode state, a
committed transaction's changes queue under its end LSN, and each is registered
as it is emitted. The rest of the connection's events are part of the state.
-/

namespace Flusso.Cdc

variable {C : Type*}

/-- What the replication client delivers; `xlogData` carries the row changes its message
decodes to, or `none` when decoding fails. -/
inductive ReplicationEvent (C : Type*) where
  | keepAlive (walEnd : ℕ)
  | message
  | begin
  | commit (endLsn : ℕ)
  | stoppedAt
  | xlogData (decoded : Option (List C))

structure DecodeState (C : Type*) where
  openTxn : List C
  pending : List (C × ℕ)
  ack : Positions
  done : Bool

namespace DecodeState

def new (ack : Positions) : DecodeState C where
  openTxn := []
  pending := []
  ack := ack
  done := false

/-- Fold one replication event into the state, possibly queueing changes. -/
def handle (s : DecodeState C) : ReplicationEvent C → DecodeState C
  | .keepAlive walEnd =>
    if s.openTxn.isEmpty && s.pending.isEmpty then
      { s with ack := s.ack.registerConfirmed walEnd }
    else s
  | .message => s
  | .begin => { s with openTxn := [] }
  | .commit endLsn =>
    if s.openTxn.isEmpty then
      if s.pending.isEmpty then { s with ack := s.ack.registerConfirmed endLsn } else s
    else
      { s with
        openTxn := []
        pending := s.pending ++ s.openTxn.map fun change => (change, endLsn) }
  | .stoppedAt => { s with done := true }
  | .xlogData (some changes) => { s with openTxn := s.openTxn ++ changes }
  -- The stream yields the error and ends.
  | .xlogData none => { s with done := true }

end DecodeState

/-- A change the stream has emitted: its position, its transaction's end LSN, itself. -/
structure Emitted (C : Type*) where
  seq : ℕ
  lsn : ℕ
  change : C
  deriving DecidableEq

/-- A live stream over the events still to arrive, with every change emitted so far and
every position confirmed. -/
structure Live (C : Type*) where
  decode : DecodeState C
  incoming : List (ReplicationEvent C)
  emitted : List (Emitted C)
  confirms : List ℕ

inductive LiveAction where
  | recv
  | emit
  | confirm (seq : ℕ)
  deriving DecidableEq

namespace Live

def start (startLsn firstSeq : ℕ) (events : List (ReplicationEvent C)) : Live C where
  decode := .new (.new startLsn firstSeq)
  incoming := events
  emitted := []
  confirms := []

/-- Queued changes are emitted before the next event is read; a confirm names an emitted
position. -/
def step (s : Live C) : LiveAction → Option (Live C)
  | .emit =>
    match s.decode.pending with
    | [] => none
    | (change, lsn) :: rest =>
      let (seq, ack) := s.decode.ack.register lsn
      some { s with
        decode := { s.decode with pending := rest, ack }
        emitted := s.emitted ++ [{ seq, lsn, change }] }
  | .recv =>
    if s.decode.pending.isEmpty && !s.decode.done then
      match s.incoming with
      -- The connection ended.
      | [] => some { s with decode := { s.decode with done := true } }
      | event :: rest => some { s with decode := s.decode.handle event, incoming := rest }
    else none
  | .confirm seq =>
    if seq ∈ s.emitted.map Emitted.seq then
      some { s with
        decode := { s.decode with ack := s.decode.ack.confirm seq }
        confirms := seq :: s.confirms }
    else none

/-- The LSN the slot may be advanced to. -/
def confirmedLsn (s : Live C) : ℕ := s.decode.ack.confirmedLsn

/-- The position has been covered by a confirm. -/
def Covered (s : Live C) (seq : ℕ) : Prop := ∃ q ∈ s.confirms, seq ≤ q

instance (s : Live C) (seq : ℕ) : Decidable (s.Covered seq) :=
  inferInstanceAs (Decidable (∃ q ∈ s.confirms, seq ≤ q))

/-- The state once the oldest queued change is registered and emitted. -/
def afterEmit (s : Live C) (change : C) (lsn : ℕ) (rest : List (C × ℕ)) : Live C :=
  { s with
    decode := { s.decode with pending := rest, ack := s.decode.ack.push lsn }
    emitted := s.emitted ++ [{ seq := s.decode.ack.nextSeq, lsn, change }] }

def afterConfirm (s : Live C) (seq : ℕ) : Live C :=
  { s with
    decode := { s.decode with ack := s.decode.ack.confirm seq }
    confirms := seq :: s.confirms }

variable {s s' : Live C} {a : LiveAction}

/-- What one step of the stream does. -/
theorem step_cases (h : s.step a = some s') :
    (∃ change lsn rest, a = .emit ∧ s.decode.pending = (change, lsn) :: rest ∧
      s' = s.afterEmit change lsn rest) ∨
    (a = .recv ∧ s.incoming = [] ∧ s' = { s with decode := { s.decode with done := true } }) ∨
    (∃ event rest, a = .recv ∧ s.decode.pending = [] ∧ s.incoming = event :: rest ∧
      s' = { s with decode := s.decode.handle event, incoming := rest }) ∨
    (∃ seq, a = .confirm seq ∧ (∃ e ∈ s.emitted, e.seq = seq) ∧ s' = s.afterConfirm seq) := by
  cases a with
  | emit =>
    simp only [step] at h
    split at h
    · cases h
    · next change lsn rest hpend =>
      exact .inl ⟨change, lsn, rest, rfl, hpend, (Option.some.inj h).symm⟩
  | recv =>
    simp only [step] at h
    split at h
    · next hguard =>
      simp only [Bool.and_eq_true, List.isEmpty_iff] at hguard
      split at h
      · next hinc => exact .inr (.inl ⟨rfl, hinc, (Option.some.inj h).symm⟩)
      · next event rest hinc =>
        exact .inr (.inr (.inl ⟨event, rest, rfl, hguard.1, hinc, (Option.some.inj h).symm⟩))
    · cases h
  | confirm seq =>
    simp only [step] at h
    split at h
    · next hmem =>
      exact .inr (.inr (.inr ⟨seq, rfl, List.mem_map.mp hmem, (Option.some.inj h).symm⟩))
    · cases h

end Live

/-- Commits arrive in LSN order, and above the floor set by the start position and every
keepalive before them. -/
def WellFormed : ℕ → List (ReplicationEvent C) → Prop
  | _, [] => True
  | floor, .keepAlive walEnd :: events => WellFormed (max floor walEnd) events
  | floor, .commit endLsn :: events => floor < endLsn ∧ WellFormed endLsn events
  | floor, _ :: events => WellFormed floor events

/-- The end LSN of the transaction the next events belong to. -/
def nextCommit : List (ReplicationEvent C) → Option ℕ
  | [] => none
  | .begin :: _ => none
  | .commit endLsn :: _ => some endLsn
  | _ :: events => nextCommit events

theorem WellFormed.lt_nextCommit {events : List (ReplicationEvent C)} {floor lsn : ℕ}
    (h : WellFormed floor events) (hn : nextCommit events = some lsn) : floor < lsn := by
  induction events generalizing floor with
  | nil => cases hn
  | cons event events ih =>
    cases event with
    | keepAlive walEnd => exact (le_max_left _ _).trans_lt (ih h hn)
    | commit endLsn => exact Option.some.inj hn ▸ h.1
    | begin => cases hn
    | message => exact ih h hn
    | stoppedAt => exact ih h hn
    | xlogData decoded => exact ih h hn

end Flusso.Cdc
