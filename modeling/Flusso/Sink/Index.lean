import Flusso.Kernel.Model

/-! # One index of a sink

The data of an index lives in numbered generations behind an alias. The meta
document names the active generation and whether it is seeded; a reindex stages
the next generation and `markSeeded` moves the alias onto it.
-/

namespace Flusso

/-- The cluster's view of one hash alias, and the physical generation this process writes to
once `ensureIndex` has run. -/
structure IndexState where
  metaDoc : Option (ℕ × Bool)
  physical : Option ℕ
  generations : List ℕ
  serving : Option ℕ
  deriving DecidableEq

namespace IndexState

/-- Nothing on the cluster yet. -/
def absent : IndexState where
  metaDoc := none
  physical := none
  generations := []
  serving := none

/-- One past the highest existing generation. -/
def nextGeneration (s : IndexState) : ℕ :=
  match s.generations.max? with
  | some highest => highest + 1
  | none => 1

/-- Make sure the active generation exists, retracting a seed whose generation is gone, and
serve it when it is seeded or nothing else is serving. -/
def ensureIndex (s : IndexState) : IndexState :=
  let (generation, marked) := s.metaDoc.getD (s.nextGeneration, false)
  let present := decide (generation ∈ s.generations)
  let seeded := marked && present
  { metaDoc := if seeded then s.metaDoc else some (generation, false)
    physical := some generation
    generations := if present then s.generations else s.generations ++ [generation]
    serving := if seeded || s.serving.isNone then some generation else s.serving }

/-- Stage a rebuild into the next generation; only the meta document changes. -/
def reindex (s : IndexState) : IndexState :=
  { s with metaDoc := some (s.nextGeneration, false) }

/-- Swap the alias onto the active generation, drop the one it served, then write the seed
marker. Fails when no generation is active. -/
def markSeeded (s : IndexState) : Option IndexState :=
  match s.physical with
  | none => none
  | some generation =>
    some { s with
      serving := some generation
      generations := s.generations.filter fun g => g = generation ∨ s.serving ≠ some g
      metaDoc := some (generation, true) }

/-- The meta document records a seed. -/
def recorded (s : IndexState) : Bool := s.metaDoc.any Prod.snd

def isSeeded (s : IndexState) : Bool :=
  s.physical.isSome && s.recorded

variable {s s' : IndexState}

@[simp] theorem recorded_reindex : s.reindex.recorded = false := rfl

/-- Writes go to the generation the meta document names. -/
def Settled (s : IndexState) : Prop :=
  ∃ g seeded, s.metaDoc = some (g, seeded) ∧ s.physical = some g

theorem settled_ensureIndex : s.ensureIndex.Settled := by
  unfold Settled ensureIndex
  rcases s.metaDoc with _ | ⟨g, seeded⟩
  · exact ⟨s.nextGeneration, false, by simp⟩
  · simp only [Option.getD_some]
    split
    · exact ⟨g, seeded, rfl, rfl⟩
    · exact ⟨g, false, rfl, rfl⟩

/-- Ensuring an index may retract its seed, and records none. -/
theorem recorded_of_ensureIndex (h : s.ensureIndex.recorded = true) : s.recorded = true := by
  unfold recorded ensureIndex at h
  rcases hmeta : s.metaDoc with _ | ⟨g, seeded⟩
  · simp [hmeta] at h
  · rcases seeded with _ | _
    · simp [hmeta] at h
    · simp [recorded, hmeta]

theorem Settled.isSeeded_eq (h : s.Settled) : s.isSeeded = s.recorded := by
  obtain ⟨g, seeded, -, hphysical⟩ := h
  simp [isSeeded, hphysical]

theorem Settled.physical_ensureIndex (h : s.Settled) : s.ensureIndex.physical = s.physical := by
  obtain ⟨g, seeded, hmeta, hphys⟩ := h
  simp [ensureIndex, hmeta, hphys]

theorem physical_markSeeded (h : s.markSeeded = some s') : s'.physical = s.physical := by
  unfold markSeeded at h
  split at h
  · cases h
  · cases h
    rfl

theorem recorded_markSeeded (h : s.markSeeded = some s') : s'.recorded = true := by
  unfold markSeeded at h
  split at h
  · cases h
  · cases h
    rfl

theorem exists_markSeeded {g : ℕ} (h : s.physical = some g) :
    ∃ s', s.markSeeded = some s' ∧ s'.serving = some g := by
  simp [markSeeded, h]

theorem settled_markSeeded (h : s.markSeeded = some s') : s'.Settled := by
  unfold markSeeded at h
  split at h
  · cases h
  · next g hg =>
    cases h
    exact ⟨g, true, rfl, hg⟩

@[simp] theorem physical_reindex : s.reindex.physical = s.physical := rfl

end IndexState

end Flusso
