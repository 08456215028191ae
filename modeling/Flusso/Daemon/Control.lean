import Flusso.Foundation.Grouping
import Flusso.Kernel.Model
import Mathlib.Data.List.Forall2
import Mathlib.Data.String.Basic

/-! # Operations handed to the sink engines

An operator's reindex is sent to the engines one after the other, in the order of
their sinks. The first channel that refuses it ends the command with an error, and
the engines before it have it queued.
-/

namespace Flusso

inductive SinkControl where
  | reindex (indexes : List IndexName)
  deriving DecidableEq

def controlCapacity : ℕ := 8

/-- A sink engine's operations: those queued, and whether its receiver is gone. -/
structure ControlChannel where
  queue : List SinkControl
  closed : Bool
  fits : queue.length ≤ controlCapacity

inductive TrySendError where
  | full
  | closed
  deriving DecidableEq

/-- Why an operation was refused. -/
inductive ControlError where
  | unknownSink (sink : SinkName)
  | closed (sink : SinkName)
  | busy (sink : SinkName)
  deriving DecidableEq

def ControlError.text : ControlError → String
  | unknownSink sink => s!"unknown sink `{sink.name}`"
  | closed sink =>
    s!"sink `{sink.name}` is not accepting operations (its engine has stopped for good)"
  | busy sink => s!"too many operations queued for sink `{sink.name}`; retry shortly"

def TrySendError.refusal (sink : SinkName) : TrySendError → ControlError
  | full => .busy sink
  | closed => .closed sink

namespace ControlChannel

def empty : ControlChannel := ⟨[], false, Nat.zero_le _⟩

def accepts (c : ControlChannel) : Bool := !c.closed && c.queue.length < controlCapacity

def trySend (c : ControlChannel) (operation : SinkControl) : Except TrySendError ControlChannel :=
  if c.closed then .error .closed
  else if h : c.queue.length < controlCapacity then
    .ok { c with queue := c.queue ++ [operation], fits := by rw [List.length_append]; exact h }
  else .error .full

variable {c c' : ControlChannel} {operation : SinkControl}

theorem trySend_ok (h : c.trySend operation = .ok c') :
    c.accepts = true ∧ c'.queue = c.queue ++ [operation] := by
  unfold trySend at h
  split at h
  · cases h
  · next hopen =>
    split at h
    · next hroom =>
      cases h
      exact ⟨by simp [accepts, hopen, hroom], rfl⟩
    · cases h

theorem trySend_error {e : TrySendError} (h : c.trySend operation = .error e) :
    c.accepts = false := by
  unfold trySend at h
  split at h
  · next hclosed => simp [accepts, hclosed]
  · split at h
    · cases h
    · next hfull => simp [accepts, hfull]

end ControlChannel

abbrev Senders := List (SinkName × ControlChannel)

/-- The handle of a running deployment: its sinks' channels, ordered by the sinks' names. -/
structure DaemonControl where
  senders : Senders
  sorted : (senders.map fun sender => sender.1.name).Pairwise (· < ·)

/-- The operation goes to the selected sinks in turn, up to the first that refuses it. -/
def sendEach (selected : SinkName → Bool) (operation : SinkControl) :
    Senders → Except ControlError Unit × Senders
  | [] => (.ok (), [])
  | (sink, channel) :: senders =>
    if selected sink then
      match channel.trySend operation with
      | .ok channel' =>
        let (result, senders') := sendEach selected operation senders
        (result, (sink, channel') :: senders')
      | .error e => (.error (e.refusal sink), (sink, channel) :: senders)
    else
      let (result, senders') := sendEach selected operation senders
      (result, (sink, channel) :: senders')

theorem names_sendEach (selected : SinkName → Bool) (operation : SinkControl)
    (senders : Senders) :
    ((sendEach selected operation senders).2.map fun sender => sender.1.name) =
      senders.map fun sender => sender.1.name := by
  induction senders with
  | nil => rfl
  | cons sender senders ih =>
    rw [sendEach]
    split
    · split
      · rw [List.map_cons, List.map_cons, ih]
      · rfl
    · rw [List.map_cons, List.map_cons, ih]

namespace DaemonControl

def sinks (control : DaemonControl) : List SinkName := control.senders.map Prod.fst

/-- The operations queued for a sink. -/
def queue (control : DaemonControl) (sink : SinkName) : List SinkControl :=
  ((control.senders.find? fun sender => sender.1 = sink).map fun sender => sender.2.queue).getD []

def send (control : DaemonControl) (selected : SinkName → Bool) (operation : SinkControl) :
    Except ControlError Unit × DaemonControl :=
  ((sendEach selected operation control.senders).1,
    { senders := (sendEach selected operation control.senders).2
      sorted := by
        rw [names_sendEach]
        exact control.sorted })

/-- Rebuild an index on one sink, or on every sink. -/
def reindex (control : DaemonControl) (index : IndexName) (sink : Option SinkName) :
    Except ControlError Unit × DaemonControl :=
  match sink with
  | some sink =>
    if sink ∈ control.sinks then control.send (· = sink) (.reindex [index])
    else (.error (.unknownSink sink), control)
  | none => control.send (fun _ => true) (.reindex [index])

/-- On an error no sink has the operation, else every sink has it once more. -/
def AllOrNothing (control : DaemonControl) (index : IndexName) : Prop :=
  match control.reindex index none with
  | (.error _, after) => ∀ sink, after.queue sink = control.queue sink
  | (.ok _, after) => ∀ sink ∈ control.sinks,
    after.queue sink = control.queue sink ++ [.reindex [index]]

variable {control : DaemonControl} {index : IndexName} {operation : SinkControl}
  {senders : Senders}

/-- The command's outcome, by the channels before the first that refuses. -/
theorem sendEach_all (senders : Senders) : let sent := sendEach (fun _ => true) operation senders
    (sent.1 = .ok () ∧ (∀ sender ∈ senders, sender.2.accepts = true) ∧
      List.Forall₂ (fun before after => after.1 = before.1 ∧
        after.2.queue = before.2.queue ++ [operation]) senders sent.2) ∨
    ∃ e, sent.1 = .error e ∧ ∃ sender ∈ senders.head?,
      (sender.2.accepts = false ∧ sent.2 = senders) ∨
        (sender.2.accepts = true ∧ (∃ other ∈ senders, other.2.accepts = false) ∧
          ∃ after ∈ sent.2.head?, after.1 = sender.1 ∧
            after.2.queue = sender.2.queue ++ [operation]) := by
  induction senders with
  | nil => exact .inl ⟨rfl, nofun, .nil⟩
  | cons sender senders ih =>
    intro sent
    cases hsend : sender.2.trySend operation with
    | error e =>
      right
      have hsent : sent = (.error (e.refusal sender.1), sender :: senders) := by
        simp [sent, sendEach, hsend]
      rw [hsent]
      exact ⟨_, rfl, sender, rfl, .inl ⟨ControlChannel.trySend_error hsend, rfl⟩⟩
    | ok channel =>
      obtain ⟨haccepts, hqueue⟩ := ControlChannel.trySend_ok hsend
      have hsent : sent = ((sendEach (fun _ => true) operation senders).1,
          (sender.1, channel) :: (sendEach (fun _ => true) operation senders).2) := by
        simp [sent, sendEach, hsend]
      rw [hsent]
      rcases ih with ⟨hok, hall, hqueues⟩ | ⟨e, herror, other, hother, hrest⟩
      · exact .inl ⟨hok, List.forall_mem_cons.mpr ⟨haccepts, hall⟩, .cons ⟨rfl, hqueue⟩ hqueues⟩
      · refine .inr ⟨e, herror, sender, rfl, .inr ⟨haccepts, ?_, (sender.1, channel), rfl, rfl,
          hqueue⟩⟩
        rcases hrest with ⟨hrefused, -⟩ | ⟨-, ⟨refusing, hmem, hrefused⟩, -⟩
        · exact ⟨other, List.mem_cons_of_mem _ (List.mem_of_head? hother), hrefused⟩
        · exact ⟨refusing, List.mem_cons_of_mem _ hmem, hrefused⟩

theorem queue_of_mem {c : DaemonControl} {sender : SinkName × ControlChannel}
    (h : sender ∈ c.senders) : c.queue sender.1 = sender.2.queue := by
  obtain ⟨senders, hsorted⟩ := c
  simp only [queue] at h ⊢
  induction senders with
  | nil => cases h
  | cons other senders ih =>
    rw [List.map_cons, List.pairwise_cons] at hsorted
    rcases List.mem_cons.mp h with rfl | h
    · simp
    · have hne : other.1 ≠ sender.1 := by
        intro heq
        have hlt := hsorted.1 sender.1.name (List.mem_map_of_mem h)
        rw [heq] at hlt
        exact lt_irrefl _ hlt
      rw [List.find?_cons_of_neg (by simpa using hne)]
      exact ih hsorted.2 h

/-- The command is all or nothing exactly where every channel takes it or the first does not. -/
theorem allOrNothing_iff (control : DaemonControl) (index : IndexName) :
    control.AllOrNothing index ↔ (∀ sender ∈ control.senders, sender.2.accepts = true) ∨
      ∃ sender ∈ control.senders.head?, sender.2.accepts = false := by
  have hsent := @sendEach_all (.reindex [index]) control.senders
  simp only at hsent
  rcases hsent with ⟨hok, hall, hqueues⟩ | ⟨e, herror, first, hfirst, hrest⟩
  · refine iff_of_true ?_ (.inl hall)
    have hresult : control.reindex index none = (.ok (), (control.reindex index none).2) :=
      Prod.ext hok rfl
    rw [AllOrNothing, hresult]
    intro sink hsink
    obtain ⟨sender, hsender, rfl⟩ := List.mem_map.mp hsink
    obtain ⟨after, hmem, hname, hqueue⟩ := Grouping.exists_of_forall₂ hqueues.flip hsender
    have hafter := queue_of_mem (c := (control.reindex index none).2) hmem
    rw [queue_of_mem hsender, ← hqueue, ← hname]
    exact hafter
  · have hresult : control.reindex index none = (.error e, (control.reindex index none).2) :=
      Prod.ext herror rfl
    rcases hrest with ⟨hrefused, hsame⟩ | ⟨haccepts, ⟨refusing, hmem, hrefused⟩, after, hafter,
      hname, hqueue⟩
    · refine iff_of_true ?_ (.inr ⟨first, hfirst, hrefused⟩)
      rw [AllOrNothing, hresult]
      intro sink
      have hsenders : (control.reindex index none).2.senders = control.senders := hsame
      simp only [queue, hsenders]
    · refine iff_of_false ?_ ?_
      · intro h
        rw [AllOrNothing, hresult] at h
        have hkept := h first.1
        rw [queue_of_mem (List.mem_of_head? hfirst), ← hname,
          queue_of_mem (c := (control.reindex index none).2) (List.mem_of_head? hafter),
          hqueue] at hkept
        simp at hkept
      · rintro (hall | ⟨sender, hsender, hsenderRefused⟩)
        · rw [hall refusing hmem] at hrefused
          cases hrefused
        · rw [hfirst] at hsender
          cases hsender
          rw [haccepts] at hsenderRefused
          cases hsenderRefused

def fullChannel : ControlChannel :=
  ⟨List.replicate controlCapacity (.reindex [⟨"orders"⟩]), false, by decide⟩

/-- The `audit` sink has room and the `primary` sink has none. -/
def auditAndPrimary : DaemonControl :=
  ⟨[(⟨"audit"⟩, .empty), (⟨"primary"⟩, fullChannel)], by decide⟩

/-- The refused command is queued for the first of the two sinks. -/
theorem not_allOrNothing_auditAndPrimary :
    (auditAndPrimary.reindex ⟨"users"⟩ none).1 = .error (.busy ⟨"primary"⟩) ∧
      (auditAndPrimary.reindex ⟨"users"⟩ none).2.queue ⟨"audit"⟩ = [.reindex [⟨"users"⟩]] ∧
      ¬ auditAndPrimary.AllOrNothing ⟨"users"⟩ := by
  refine ⟨by decide, by decide, fun h => ?_⟩
  exact absurd (h ⟨"audit"⟩) (by decide)

end DaemonControl

end Flusso
