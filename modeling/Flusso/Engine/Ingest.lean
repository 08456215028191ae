import Flusso.Engine.Snapshot

/-! # The ingest engine's local state

Live changes and snapshot rows interleave on one task: between two steps of its
loop it is selecting, draining the live stream into a batch, collecting requests
for a snapshot, publishing entries to lanes, or acknowledging the requests a
finished snapshot served.
-/

namespace Flusso

/-- What follows once the entries at hand are published. -/
inductive After where
  | live
  | slice
  | lastSlice
  | markers
  deriving DecidableEq

inductive IngestPhase (V : Type*) where
  | down
  | prepared
  | select
  | draining
  | collecting (deliveries : List (ℕ × Request))
  | publishing (todo : List (SinkName × Entry V)) (after : After)
  | acking (handles : List ℕ)
  | stopped
  deriving DecidableEq

structure Ingest (V : Type*) where
  phase : IngestPhase V
  pending : PendingBatch V
  snapshot : Option (Snapshot V)
  lastConfirmed : Option ℕ
  liveEnded : Bool

namespace Ingest

variable {V : Type*}

/-- No run: the locals of the last one are gone. -/
def down (maxChanges : ℕ) : Ingest V where
  phase := .down
  pending := .new maxChanges
  snapshot := none
  lastConfirmed := none
  liveEnded := false

/-- The request deliveries the engine holds. -/
def heldTickets (i : Ingest V) : List ℕ :=
  match i.phase with
  | .collecting deliveries => deliveries.map Prod.fst
  | .acking handles => handles
  | _ => (i.snapshot.map Snapshot.handles).getD []

/-- Every lane has asked. -/
def allAsked (sinks : List SinkName) (deliveries : List (ℕ × Request)) : Bool :=
  sinks.all fun sink => deliveries.any fun delivery => delivery.2.sink = sink

end Ingest

/-- The lowest of the lanes' positions, once every lane has one. -/
def lowest : List (Option ℕ) → Option ℕ
  | [] => none
  | [acked] => acked
  | acked :: rest => acked.bind fun p => (lowest rest).map fun q => min p q

theorem lowest_le {acks : List (Option ℕ)} {p : ℕ} (h : lowest acks = some p) :
    acks ≠ [] ∧ ∀ acked ∈ acks, ∃ q, acked = some q ∧ p ≤ q := by
  induction acks generalizing p with
  | nil => cases h
  | cons acked rest ih =>
    refine ⟨List.cons_ne_nil _ _, ?_⟩
    cases rest with
    | nil =>
      intro a ha
      rw [List.mem_singleton.mp ha]
      exact ⟨p, h, Nat.le_refl p⟩
    | cons acked' rest =>
      obtain ⟨q, rfl, hmap⟩ := Option.bind_eq_some_iff.mp h
      obtain ⟨r, hrest, rfl⟩ := Option.map_eq_some_iff.mp hmap
      intro a ha
      rcases List.mem_cons.mp ha with rfl | ha
      · exact ⟨q, rfl, Nat.min_le_left q r⟩
      · obtain ⟨w, hw, hle⟩ := (ih hrest).2 a ha
        exact ⟨w, hw, Nat.le_trans (Nat.min_le_right q r) hle⟩

end Flusso
