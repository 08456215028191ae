import Flusso.Cdc.Protocol
import Flusso.Cdc.Transactions

/-! # The stream over raw messages

The decode state keeps every relation announced so far, keyed by the catalog
when its message arrives. Reading raw messages through it simulates the stream
over the events they decode to.
-/

namespace Flusso.Cdc

open Pgoutput

/-- The primary-key columns the catalog answers for a table, or a failed lookup. -/
abbrev Catalog := DatabaseSchema → TableName → Option (List String)

/-- An event as the client delivers it: a raw message comes with the catalog as it stands when
the message is handled. -/
inductive RawEvent where
  | keepAlive (walEnd : ℕ)
  | message
  | begin
  | commit (endLsn : ℕ)
  | stoppedAt
  | xlogData (data : List UInt8) (catalog : Catalog)

/-- A relation with its primary key looked up. -/
def Pgoutput.Relation.keyed (catalog : Catalog) (relation : Relation) :
    Except SourceError Relation :=
  match (catalog relation.dbSchema relation.table).bind
      fun names => names.mapM ColumnName.tryNew with
  | some primaryKey => .ok { relation with primaryKey }
  | none => .error (.primaryKey relation.table)

section Faithful

variable {V : Type}

/-- The decode state of one connection. -/
structure StreamState (V : Type) where
  relations : UInt32 → Option Relation
  /-- Relations whose primary key has not been looked up yet. -/
  unkeyed : List UInt32
  decode : DecodeState (ChangeEvent V)

namespace StreamState

def lookupRelation (s : StreamState V) (oid : UInt32) : Except SourceError Relation :=
  match s.relations oid with
  | some relation => .ok relation
  | none => .error (.unknownRelation oid)

def push (s : StreamState V) (changes : List (ChangeEvent V)) : StreamState V :=
  { s with decode := { s.decode with openTxn := s.decode.openTxn ++ changes } }

variable [BEq V] [CellValue V]

def handleXlog (s : StreamState V) (data : List UInt8) : Except SourceError (StreamState V) :=
  match Pgoutput.decode data with
  | .error e => .error (.decode e)
  | .ok (.relation relation) => .ok { s with
      unkeyed := s.unkeyed ++ [relation.oid]
      relations := Function.update s.relations relation.oid (some relation) }
  | .ok (.insert rel new) => do
    let relation ← s.lookupRelation rel
    let changes ← insertChanges relation new
    pure (s.push changes)
  | .ok (.update rel old new) => do
    let relation ← s.lookupRelation rel
    let changes ← updateChanges relation old new
    pure (s.push changes)
  | .ok (.delete rel old) => do
    let relation ← s.lookupRelation rel
    let changes ← deleteChanges relation old
    pure (s.push changes)
  -- A truncate is only warned about.
  | .ok (.truncate _) => .ok s
  | .ok .other => .ok s

omit [BEq V] [CellValue V] in
/-- Look up the primary key of every relation announced since the last event. -/
def keyRelations (catalog : Catalog) (s : StreamState V) : Except SourceError (StreamState V) :=
  s.unkeyed.foldlM (fun s oid =>
    match s.relations oid with
    | none => pure s
    | some relation => do
      let keyed ← relation.keyed catalog
      pure { s with relations := Function.update s.relations oid (some keyed) })
    { s with unkeyed := [] }

omit [BEq V] [CellValue V] in
def fail (s : StreamState V) : StreamState V := { s with decode := { s.decode with done := true } }

/-- One event handled; an error ends the stream. -/
def handle (s : StreamState V) : RawEvent → StreamState V
  | .keepAlive walEnd => { s with decode := s.decode.handle (.keepAlive walEnd) }
  | .message => { s with decode := s.decode.handle .message }
  | .begin => { s with decode := s.decode.handle .begin }
  | .commit endLsn => { s with decode := s.decode.handle (.commit endLsn) }
  | .stoppedAt => { s with decode := s.decode.handle .stoppedAt }
  | .xlogData data catalog =>
    match s.handleXlog data with
    | .error _ => s.fail
    | .ok handled =>
      match handled.keyRelations catalog with
      | .error _ => handled.fail
      | .ok keyed => keyed

end StreamState

/-- The live stream over raw events. -/
structure RawLive (V : Type) where
  state : StreamState V
  incoming : List RawEvent
  emitted : List (Emitted (ChangeEvent V))
  confirms : List ℕ

namespace RawLive

def start (V : Type) (startLsn firstSeq : ℕ) (events : List RawEvent) : RawLive V where
  state := { relations := fun _ => none, unkeyed := [], decode := .new (.new startLsn firstSeq) }
  incoming := events
  emitted := []
  confirms := []

/-- The stream with its incoming events replaced by what they decode to. -/
def toLive (s : RawLive V) (incoming : List (ReplicationEvent (ChangeEvent V))) :
    Live (ChangeEvent V) where
  decode := s.state.decode
  incoming := incoming
  emitted := s.emitted
  confirms := s.confirms

variable [BEq V] [CellValue V]

def step (s : RawLive V) : LiveAction → Option (RawLive V)
  | .emit =>
    match s.state.decode.pending with
    | [] => none
    | (change, lsn) :: rest =>
      let (seq, ack) := s.state.decode.ack.register lsn
      some { s with
        state := { s.state with decode := { s.state.decode with pending := rest, ack } }
        emitted := s.emitted ++ [{ seq, lsn, change }] }
  | .recv =>
    if s.state.decode.pending.isEmpty && !s.state.decode.done then
      match s.incoming with
      | [] => some { s with state := s.state.fail }
      | event :: rest => some { s with state := s.state.handle event, incoming := rest }
    else none
  | .confirm seq =>
    if seq ∈ s.emitted.map Emitted.seq then
      some { s with
        state := { s.state with
          decode := { s.state.decode with ack := s.state.decode.ack.confirm seq } }
        confirms := seq :: s.confirms }
    else none

end RawLive

def rawLive (V : Type) [BEq V] [CellValue V] : Transition.Machine (RawLive V) LiveAction where
  init s := ∃ startLsn firstSeq events, s = .start V startLsn firstSeq events
  step := RawLive.step

end Faithful

section Meaning

variable {V : Type}

/-- The relation a raw event announces, once it is keyed. -/
def RawEvent.announces : RawEvent → Option Relation
  | .xlogData data catalog =>
    match Pgoutput.decode data with
    | .ok (.relation relation) => (relation.keyed catalog).toOption
    | _ => none
  | _ => none

/-- The last relation announced under an OID. -/
def announced (events : List RawEvent) (oid : UInt32) : Option Relation :=
  (events.filterMap RawEvent.announces).reverse.find? fun relation => relation.oid = oid

variable [BEq V] [CellValue V]

/-- The row changes a message stands for, given the relations announced before it; `none` when
it does not decode. -/
def messageChanges (relations : UInt32 → Option Relation) (data : List UInt8) (catalog : Catalog) :
    Option (List (ChangeEvent V)) :=
  match (Pgoutput.decode data).toOption with
  | none => none
  | some (.relation relation) => (relation.keyed catalog).toOption.map fun _ => []
  | some (.insert rel new) =>
    (relations rel).bind fun relation => (insertChanges relation new).toOption
  | some (.update rel old new) =>
    (relations rel).bind fun relation => (updateChanges relation old new).toOption
  | some (.delete rel old) =>
    (relations rel).bind fun relation => (deleteChanges relation old).toOption
  | some (.truncate _) => some []
  | some .other => some []

/-- An event as it reads after the events before it. -/
def decodedEvent (before : List RawEvent) : RawEvent → ReplicationEvent (ChangeEvent V)
  | .keepAlive walEnd => .keepAlive walEnd
  | .message => .message
  | .begin => .begin
  | .commit endLsn => .commit endLsn
  | .stoppedAt => .stoppedAt
  | .xlogData data catalog => .xlogData (messageChanges (announced before) data catalog)

def decodedEvents (before : List RawEvent) : List RawEvent → List (ReplicationEvent (ChangeEvent V))
  | [] => []
  | event :: events => decodedEvent before event :: decodedEvents (before ++ [event]) events

end Meaning

section Simulation

variable {V : Type} {before : List RawEvent} {event : RawEvent} {relation : Relation}
  {data : List UInt8} {catalog : Catalog}

theorem announced_concat_of_none (h : event.announces = none) :
    announced (before ++ [event]) = announced before := by
  ext oid
  simp [announced, h]

theorem announced_concat_of_some (h : event.announces = some relation) :
    announced (before ++ [event]) =
      Function.update (announced before) relation.oid (some relation) := by
  ext1 oid
  by_cases hoid : relation.oid = oid
  · subst hoid
    simp [announced, h]
  · rw [Function.update_of_ne (Ne.symm hoid)]
    simp [announced, h, hoid]

variable [BEq V] [CellValue V]

/-- The relations a stream knows are those announced by the events it read. -/
structure StreamState.Synced (s : StreamState V) (before : List RawEvent) : Prop where
  relations : s.relations = announced before
  unkeyed : s.unkeyed = []

/-- What became of an event: the stream handles it as the event it decodes to. -/
structure StreamState.Handles (s s' : StreamState V) (before : List RawEvent) (event : RawEvent) :
    Prop where
  decode : s'.decode = s.decode.handle (decodedEvent before event)
  synced : s'.decode.done = false → s'.Synced (before ++ [event])

omit [BEq V] [CellValue V] in
variable (catalog) in
theorem StreamState.keyRelations_of_unkeyed {s : StreamState V} (h : s.unkeyed = []) :
    s.keyRelations catalog = .ok s := by
  simp only [keyRelations, h, List.foldlM_nil]
  congr 1
  rw [← h]

theorem StreamState.handles_rows {s : StreamState V} (h : s.Synced before) (rel : UInt32)
    (changes : Relation → Except SourceError (List (ChangeEvent V)))
    (hannounces : (RawEvent.xlogData data catalog).announces = none)
    (hhandle : s.handleXlog data = (do
      let relation ← s.lookupRelation rel
      let changes ← changes relation
      pure (s.push changes)))
    (hmeaning : messageChanges (announced before) data catalog =
      (announced before rel).bind fun relation => (changes relation).toOption) :
    s.Handles (s.handle (.xlogData data catalog)) before (.xlogData data catalog) := by
  simp only [handle, hhandle, lookupRelation, h.relations]
  cases hrel : announced before rel with
  | none =>
    rw [hrel] at hmeaning
    constructor
    · simp only [decodedEvent, hmeaning]
      rfl
    · rintro ⟨⟩
  | some relation =>
    rw [hrel, Option.bind_some] at hmeaning
    cases hchanges : changes relation with
    | error e =>
      rw [hchanges] at hmeaning
      constructor
      · simp only [decodedEvent, hmeaning]
        simp [bind, Except.bind, hchanges]
        rfl
      · simp [bind, Except.bind, hchanges]
        rintro ⟨⟩
    | ok new =>
      rw [hchanges] at hmeaning
      have hpush : (s.push new).unkeyed = [] := h.unkeyed
      simp only [bind, Except.bind, hchanges, pure, Except.pure,
        keyRelations_of_unkeyed catalog hpush]
      constructor
      · simp only [decodedEvent, hmeaning]
        rfl
      · rintro -
        refine ⟨?_, hpush⟩
        rw [announced_concat_of_none hannounces]
        exact h.relations

theorem StreamState.handles_relation {s : StreamState V} (h : s.Synced before)
    (hdecode : Pgoutput.decode data = .ok (.relation relation)) :
    s.Handles (s.handle (.xlogData data catalog)) before (.xlogData data catalog) := by
  have hkeys : keyRelations catalog { s with
      unkeyed := s.unkeyed ++ [relation.oid]
      relations := Function.update s.relations relation.oid (some relation) } = (do
        let keyed ← relation.keyed catalog
        pure { s with
          unkeyed := []
          relations := Function.update s.relations relation.oid (some keyed) }) := by
    simp [keyRelations, h.unkeyed]
  simp only [handle, handleXlog, hdecode, hkeys]
  cases hkeyed : relation.keyed catalog with
  | error e =>
    constructor
    · simp only [decodedEvent, messageChanges, hdecode, Except.toOption, hkeyed]
      rfl
    · rintro ⟨⟩
  | ok keyed =>
    constructor
    · simp only [decodedEvent, messageChanges, hdecode, Except.toOption, hkeyed]
      simp [DecodeState.handle, bind, Except.bind, pure, Except.pure]
    · rintro -
      have hoid : keyed.oid = relation.oid := by
        unfold Relation.keyed at hkeyed
        split at hkeyed
        · cases hkeyed
          rfl
        · cases hkeyed
      refine ⟨?_, rfl⟩
      have hannounces : (RawEvent.xlogData data catalog).announces = some keyed := by
        simp [RawEvent.announces, hdecode, hkeyed, Except.toOption]
      rw [announced_concat_of_some hannounces, hoid, ← h.relations]
      rfl

theorem StreamState.handles_other {s : StreamState V} (h : s.Synced before)
    (hannounces : (RawEvent.xlogData data catalog).announces = none)
    (hhandle : s.handleXlog data = .ok s)
    (hmeaning : messageChanges (announced before) data catalog = some ([] : List (ChangeEvent V))) :
    s.Handles (s.handle (.xlogData data catalog)) before (.xlogData data catalog) := by
  simp only [handle, hhandle, keyRelations_of_unkeyed catalog h.unkeyed]
  constructor
  · simp [decodedEvent, hmeaning, DecodeState.handle]
  · rintro -
    refine ⟨?_, h.unkeyed⟩
    rw [announced_concat_of_none hannounces]
    exact h.relations

theorem StreamState.handles {s : StreamState V} (event : RawEvent) (h : s.Synced before) :
    s.Handles (s.handle event) before event := by
  cases event with
  | xlogData data catalog =>
    cases hdecode : Pgoutput.decode data with
    | error e =>
      constructor
      · simp only [handle, handleXlog, decodedEvent, messageChanges, hdecode, Except.toOption]
        rfl
      · simp only [handle, handleXlog, hdecode]
        rintro ⟨⟩
    | ok decoded =>
      cases decoded with
      | relation relation => exact handles_relation h hdecode
      | insert rel new =>
        refine handles_rows h rel (insertChanges · new) ?_ ?_ ?_
        · simp [RawEvent.announces, hdecode]
        · simp [handleXlog, hdecode]
        · simp [messageChanges, hdecode, Except.toOption]
      | update rel old new =>
        refine handles_rows h rel (updateChanges · old new) ?_ ?_ ?_
        · simp [RawEvent.announces, hdecode]
        · simp [handleXlog, hdecode]
        · simp [messageChanges, hdecode, Except.toOption]
      | delete rel old =>
        refine handles_rows h rel (deleteChanges · old) ?_ ?_ ?_
        · simp [RawEvent.announces, hdecode]
        · simp [handleXlog, hdecode]
        · simp [messageChanges, hdecode, Except.toOption]
      | truncate rels =>
        refine handles_other h ?_ ?_ ?_
        · simp [RawEvent.announces, hdecode]
        · simp [handleXlog, hdecode]
        · simp [messageChanges, hdecode, Except.toOption]
      | other =>
        refine handles_other h ?_ ?_ ?_
        · simp [RawEvent.announces, hdecode]
        · simp [handleXlog, hdecode]
        · simp [messageChanges, hdecode, Except.toOption]
  | _ =>
    refine ⟨rfl, fun _ => ⟨?_, h.unkeyed⟩⟩
    rw [announced_concat_of_none rfl]
    exact h.relations

end Simulation

section Runs

variable {V : Type} [BEq V] [CellValue V] {s s' : RawLive V} {a : LiveAction}
  {before consumed events : List RawEvent}

theorem decodedEvents_append (read rest : List RawEvent) :
    (decodedEvents before (read ++ rest) : List (ReplicationEvent (ChangeEvent V))) =
      decodedEvents before read ++ decodedEvents (before ++ read) rest := by
  induction read generalizing before with
  | nil => simp [decodedEvents]
  | cons event read ih => simp [decodedEvents, ih]

namespace RawLive

/-- Each change emitted, with its end LSN. -/
def changes (s : RawLive V) : List (ChangeEvent V × ℕ) := s.emitted.map fun e => (e.change, e.lsn)

/-- The stream ends at this event: it was stopped, or a message did not decode. -/
def EndsAt (V : Type) [BEq V] [CellValue V] (before : List RawEvent) (event : RawEvent) :
    Prop :=
  event = .stoppedAt ∨ (decodedEvent before event : ReplicationEvent (ChangeEvent V)) = .xlogData none

/-- The stream has read `consumed`, and will read no more once it is done. -/
structure Reading (s : RawLive V) (consumed : List RawEvent) : Prop where
  synced : s.state.decode.done = false → s.state.Synced consumed
  done : s.state.decode.done = true →
    s.incoming = [] ∨ ∃ before event, consumed = before ++ [event] ∧ EndsAt V before event

theorem Reading.frame (h : s.Reading consumed) (hincoming : s'.incoming = s.incoming)
    (hrelations : s'.state.relations = s.state.relations)
    (hunkeyed : s'.state.unkeyed = s.state.unkeyed)
    (hdone : s'.state.decode.done = s.state.decode.done) : s'.Reading consumed where
  synced hlive := by
    obtain ⟨hknown, hkeyed⟩ := h.synced (hdone ▸ hlive)
    exact ⟨hrelations.trans hknown, hunkeyed.trans hkeyed⟩
  done hended := by
    rw [hincoming]
    exact h.done (hdone ▸ hended)

theorem endsAt_of_done {decode : DecodeState (ChangeEvent V)} {event : RawEvent}
    (hlive : decode.done = false)
    (hdone : (decode.handle (decodedEvent before event)).done = true) : EndsAt V before event := by
  cases event with
  | stoppedAt => exact .inl rfl
  | xlogData data catalog =>
    refine .inr ?_
    simp only [decodedEvent] at hdone ⊢
    cases hchanges : (messageChanges (announced before) data catalog :
        Option (List (ChangeEvent V))) with
    | none => rfl
    | some changes => simp [hchanges, DecodeState.handle, hlive] at hdone
  | keepAlive walEnd =>
    simp only [decodedEvent, DecodeState.handle] at hdone
    split at hdone <;> simp [hlive] at hdone
  | commit endLsn =>
    simp only [decodedEvent, DecodeState.handle] at hdone
    split at hdone
    · split at hdone <;> simp [hlive] at hdone
    · simp [hlive] at hdone
  | message => simp [decodedEvent, DecodeState.handle, hlive] at hdone
  | begin => simp [decodedEvent, DecodeState.handle, hlive] at hdone

theorem Reading.recv (h : s.Reading consumed) {event : RawEvent} {rest : List RawEvent}
    (hlive : s.state.decode.done = false) :
    Reading { s with state := s.state.handle event, incoming := rest } (consumed ++ [event]) := by
  obtain ⟨hdecode, hsynced⟩ := StreamState.handles event (h.synced hlive)
  refine ⟨hsynced, fun hdone => .inr ⟨consumed, event, rfl, ?_⟩⟩
  rw [hdecode] at hdone
  exact endsAt_of_done hlive hdone

/-- A step over raw events is the step over the events they decode to. -/
theorem Reading.step (h : s.Reading consumed) (hs : s.step a = some s') :
    ∃ read, s.incoming = read ++ s'.incoming ∧ s'.Reading (consumed ++ read) ∧
      (s.toLive (decodedEvents consumed s.incoming)).step a =
        some (s'.toLive (decodedEvents (consumed ++ read) s'.incoming)) := by
  cases a with
  | emit =>
    simp only [RawLive.step] at hs
    split at hs
    · cases hs
    · next change lsn rest hpending =>
      cases hs
      refine ⟨[], rfl, ?_, ?_⟩
      · rw [List.append_nil]
        exact h.frame rfl rfl rfl rfl
      · simp [Live.step, toLive, hpending]
  | recv =>
    simp only [RawLive.step] at hs
    split at hs
    · next hguard =>
      have hlive : s.state.decode.done = false := by simp at hguard; exact hguard.2
      split at hs
      · next hincoming =>
        cases hs
        refine ⟨[], rfl, ⟨?_, fun _ => .inl hincoming⟩, ?_⟩
        · rintro ⟨⟩
        · simp [Live.step, toLive, hincoming, decodedEvents, hguard]
          rfl
      · next event rest hincoming =>
        cases hs
        refine ⟨[event], hincoming, h.recv hlive, ?_⟩
        have hdecode := (StreamState.handles event (h.synced hlive)).decode
        simp [Live.step, toLive, hincoming, decodedEvents, hguard, hdecode]
    · cases hs
  | confirm seq =>
    simp only [RawLive.step] at hs
    split at hs
    · next hseq =>
      cases hs
      refine ⟨[], rfl, ?_, ?_⟩
      · rw [List.append_nil]
        exact h.frame rfl rfl rfl rfl
      · simp [Live.step, toLive, hseq]
    · cases hs

theorem reading_start (V : Type) [BEq V] [CellValue V] (startLsn firstSeq : ℕ) :
    (start V startLsn firstSeq events).Reading [] where
  synced _ := ⟨rfl, rfl⟩
  done := nofun

/-- A run reads a front of its events and holds exactly their committed changes. -/
theorem exact_of_run {as : List LiveAction} (h : s.Reading consumed)
    (hexact : (s.toLive (decodedEvents consumed s.incoming)).Exact (decodedEvents [] consumed))
    (hrun : (rawLive V).run s as = some s') :
    ∃ read, s.incoming = read ++ s'.incoming ∧ s'.Reading (consumed ++ read) ∧
      (s'.toLive (decodedEvents (consumed ++ read) s'.incoming)).Exact
        (decodedEvents [] (consumed ++ read)) := by
  induction as generalizing s consumed with
  | nil =>
    cases hrun
    exact ⟨[], rfl, by rwa [List.append_nil], by rwa [List.append_nil]⟩
  | cons a as ih =>
    rw [Transition.Machine.run_cons] at hrun
    obtain ⟨t, hs, hrun⟩ := Option.bind_eq_some_iff.mp hrun
    obtain ⟨read, hsplit, hreading, hlive⟩ := h.step hs
    obtain ⟨events, hevents, hexact⟩ := hexact.step hlive
    have hread : events = decodedEvents consumed read := by
      have hboth : decodedEvents consumed read ++ decodedEvents (consumed ++ read) t.incoming =
          events ++ decodedEvents (consumed ++ read) t.incoming := by
        rw [← decodedEvents_append, ← hsplit]
        exact hevents
      exact (List.append_cancel_right hboth).symm
    rw [hread, show decodedEvents consumed read = decodedEvents ([] ++ consumed) read from rfl,
      ← decodedEvents_append] at hexact
    obtain ⟨more, hmore, hend, hfinal⟩ := ih hreading hexact hrun
    refine ⟨read ++ more, ?_, ?_, ?_⟩
    · rw [hsplit, hmore, List.append_assoc]
    · rwa [← List.append_assoc]
    · rwa [← List.append_assoc]

theorem ended_of_stuck (hemit : s.step .emit = none) (hrecv : s.step .recv = none) :
    s.state.decode.pending = [] ∧ s.state.decode.done = true := by
  have hpending : s.state.decode.pending = [] := by
    simp only [RawLive.step] at hemit
    split at hemit
    · assumption
    · cases hemit
  refine ⟨hpending, ?_⟩
  by_contra hlive
  simp only [RawLive.step, hpending] at hrecv
  cases hincoming : s.incoming <;> simp [hlive, hincoming] at hrecv

end RawLive

end Runs

end Flusso.Cdc
