import Flusso.Kernel.Model

/-! # Batches in the making and on the lanes

Buffered changes contribute document ids once each. What is published to a lane
is an entry: a lane item together with where it came from and the documents it
was built from.
-/

namespace Flusso

section InsertNew

variable {α : Type*} [DecidableEq α]

/-- Append what is not there yet, in order. -/
def insertNew (xs : List α) : List α → List α
  | [] => xs
  | y :: ys => insertNew (if y ∈ xs then xs else xs ++ [y]) ys

variable {xs ys : List α} {x : α}

theorem mem_insertNew : x ∈ insertNew xs ys ↔ x ∈ xs ∨ x ∈ ys := by
  induction ys generalizing xs with
  | nil => simp [insertNew]
  | cons y ys ih =>
    rw [insertNew, ih, List.mem_cons]
    split
    · next hy => grind
    · grind

theorem nodup_insertNew (h : xs.Nodup) : (insertNew xs ys).Nodup := by
  induction ys generalizing xs with
  | nil => exact h
  | cons y ys ih =>
    rw [insertNew]
    split
    · exact ih h
    · next hy => exact ih (by grind [List.nodup_append])

end InsertNew

/-- A batch in the making: the document ids its changes resolved to, each once, how many
changes were buffered, and the last position. -/
structure PendingBatch (V : Type*) where
  ids : List (DocumentId V)
  nodup : ids.Nodup
  count : ℕ
  position : Option ℕ
  capacity : ℕ

namespace PendingBatch

variable {V : Type*}

def new (capacity : ℕ) : PendingBatch V where
  ids := []
  nodup := .nil
  count := 0
  position := none
  capacity := capacity

/-- Buffer one change's affected documents, deduplicated. -/
def add [DecidableEq V] (b : PendingBatch V) (affected : List (DocumentId V)) : PendingBatch V where
  ids := insertNew b.ids affected
  nodup := nodup_insertNew b.nodup
  count := b.count + 1
  position := b.position
  capacity := b.capacity

def isFull (b : PendingBatch V) : Bool := b.capacity ≤ b.count

def clear (b : PendingBatch V) : PendingBatch V := new b.capacity

@[simp] theorem ids_new (capacity : ℕ) : (new capacity : PendingBatch V).ids = [] := rfl

@[simp] theorem count_new (capacity : ℕ) : (new capacity : PendingBatch V).count = 0 := rfl

@[simp] theorem ids_clear (b : PendingBatch V) : b.clear.ids = [] := rfl

@[simp] theorem count_clear (b : PendingBatch V) : b.clear.count = 0 := rfl

@[simp] theorem count_add [DecidableEq V] (b : PendingBatch V) (affected : List (DocumentId V)) :
    (b.add affected).count = b.count + 1 := rfl

theorem mem_ids_add [DecidableEq V] {b : PendingBatch V} {affected : List (DocumentId V)}
    {id : DocumentId V} : id ∈ (b.add affected).ids ↔ id ∈ b.ids ∨ id ∈ affected :=
  mem_insertNew

end PendingBatch

/-- What is published to a lane: a live batch of the numbered stream, a slice of the
numbered snapshot, or that snapshot's completion marker. -/
inductive Entry (V : Type*) where
  | live (stream : ℕ) (position : Option ℕ) (changes : ℕ) (documents : List (Document V))
  | slice (snapshot : ℕ) (documents : List (Document V))
  | complete (snapshot : ℕ) (indexes : List IndexName)
  deriving DecidableEq

namespace Entry

variable {V : Type*}

def documents : Entry V → List (Document V)
  | .live _ _ _ documents => documents
  | .slice _ documents => documents
  | .complete _ _ => []

def position : Entry V → Option ℕ
  | .live _ position _ _ => position
  | _ => none

def changes : Entry V → ℕ
  | .live _ _ changes _ => changes
  | _ => 0

/-- The envelopes an entry's documents are published as. -/
def envelopes [ValueText V] (e : Entry V) : List (Envelope V) :=
  e.documents.map fun document => document.envelope e.position

/-- The item the lane carries. -/
def item [ValueText V] : Entry V → LaneItem V
  | .complete _ indexes => .snapshotComplete indexes
  | e => .batch { position := e.position, changes := e.changes, envelopes := e.envelopes }

instance : Stream.Positioned (Entry V) where
  position := position

/-- The entry carries the built document of an id. -/
def Carries (e : Entry V) (id : DocumentId V) : Prop := ∃ d ∈ e.documents, d.id = id

end Entry

end Flusso
