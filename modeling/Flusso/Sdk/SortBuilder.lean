import Flusso.Foundation.Firsts
import Flusso.Sdk.Sort

/-! # The sort builder

A clause is left out where the builder has one with the same identifier already. The
identifier is the field a clause sorts on, but distances share one for all fields.
-/

namespace Flusso.Sdk

structure SortBuilder where
  sorts : List SearchSort
  fallback : Option SearchSort

namespace SortBuilder

def new : SortBuilder := ⟨[], none⟩

def pushUnique (sort : SearchSort) (b : SortBuilder) : SortBuilder :=
  if b.sorts.any fun existing => existing.dedupId = sort.dedupId then b
  else { b with sorts := b.sorts ++ [sort] }

def sortBy (handle : Sortable) (dir : Option OrderBy) (b : SortBuilder) : SortBuilder :=
  dir.elim b fun order => b.pushUnique (order.intoSort handle)

def near (path : String) (center : Option GeoPoint) (b : SortBuilder) : SortBuilder :=
  center.elim b fun center => b.pushUnique (distanceFrom path center)

def score (b : SortBuilder) : SortBuilder := b.pushUnique .score

def raw (sort : Option SearchSort) (b : SortBuilder) : SortBuilder :=
  { b with sorts := b.sorts ++ sort.toList }

def tiebreak (handle : Sortable) (b : SortBuilder) : SortBuilder := b.pushUnique (handle.sort .asc)

def orDefault (sort : SearchSort) (b : SortBuilder) : SortBuilder :=
  if b.fallback.isNone then { b with fallback := some sort } else b

def build (b : SortBuilder) : List SearchSort :=
  if b.sorts.isEmpty then b.fallback.toList else b.sorts

end SortBuilder

section Targets

/-- What a clause sorts on. -/
inductive SortTarget where
  | score
  | field (path : String)
  | distance (path : String)
  deriving DecidableEq

/-- What the builder tells a target apart by. -/
def SortTarget.id : SortTarget → String
  | score => "_score"
  | field path => path
  | distance _ => "_geo_distance"

/-- One call on the builder, raw sorts and the fallback apart. -/
inductive SortClause where
  | sortBy (handle : Sortable) (dir : Option OrderBy)
  | near (path : String) (center : Option GeoPoint)
  | score
  | tiebreak (handle : Sortable)

/-- The field a handle sorts on; for a map's key, the map. -/
def Sortable.sortedPath : Sortable → String
  | scalar _ path => path
  | text _ path => s!"{path}.keyword_lowercase"
  | enum _ path => s!"{path}.sort"
  | mapKey sort => sort.path

namespace SortClause

def add (b : SortBuilder) : SortClause → SortBuilder
  | sortBy handle dir => b.sortBy handle dir
  | near path center => b.near path center
  | score => b.score
  | tiebreak handle => b.tiebreak handle

/-- The sort a clause asks for, and what it sorts on. -/
def entry : SortClause → Option (SortTarget × SearchSort)
  | sortBy handle dir => dir.map fun order => (.field handle.sortedPath, order.intoSort handle)
  | near path center => center.map fun center => (.distance path, distanceFrom path center)
  | score => some (.score, .score)
  | tiebreak handle => some (.field handle.sortedPath, handle.sort .asc)

end SortClause

variable {clauses : List SortClause} {targets : List SortTarget} {clause : SortClause}
  {entry : SortTarget × SearchSort}

@[simp] theorem Sortable.dedupId_sort (handle : Sortable) (order : SortOrder) :
    (handle.sort order).dedupId = handle.sortedPath := by
  cases handle <;> rfl

@[simp] theorem OrderBy.dedupId_intoSort (order : OrderBy) (handle : Sortable) :
    (order.intoSort handle).dedupId = handle.sortedPath := by
  obtain ⟨order, missing, mode, numericType, unmappedType, format⟩ := order
  simp only [intoSort]
  cases format <;> cases unmappedType <;> cases numericType <;> cases mode <;>
    rcases missing with - | - | - | - <;>
    simp [SearchSort.numericType, SearchSort.unmappedType, SearchSort.format]

theorem SortClause.dedupId_entry (h : clause.entry = some entry) :
    entry.2.dedupId = entry.1.id := by
  cases clause with
  | sortBy handle dir =>
    obtain ⟨order, -, rfl⟩ := Option.map_eq_some_iff.mp h
    exact OrderBy.dedupId_intoSort order handle
  | near path center =>
    obtain ⟨center, -, rfl⟩ := Option.map_eq_some_iff.mp h
    rfl
  | score =>
    cases h
    rfl
  | tiebreak handle =>
    cases h
    exact handle.dedupId_sort .asc

theorem SortClause.add_eq (b : SortBuilder) (clause : SortClause) :
    clause.add b = clause.entry.elim b fun entry => b.pushUnique entry.2 := by
  cases clause with
  | sortBy handle dir => cases dir <;> rfl
  | near path center => cases center <;> rfl
  | score => rfl
  | tiebreak handle => rfl

/-- The sorts of a list of clauses, each with its target. -/
def entries (clauses : List SortClause) : List (SortTarget × SearchSort) :=
  clauses.filterMap SortClause.entry

def SortBuilder.of (clauses : List SortClause) : SortBuilder := clauses.foldl SortClause.add .new

theorem SortBuilder.build_of (clauses : List SortClause) : (of clauses).build =
    (Firsts.firsts (SearchSort.dedupId ∘ Prod.snd) (entries clauses)).map Prod.snd := by
  have hadd : ∀ b : SortBuilder, b.fallback = none → clauses.foldl SortClause.add b =
      ⟨((entries clauses).map Prod.snd).foldl (fun kept sort =>
        if kept.any fun existing => existing.dedupId = sort.dedupId then kept
        else kept ++ [sort]) b.sorts, none⟩ := by
    induction clauses with
    | nil =>
      rintro ⟨sorts, fallback⟩ rfl
      rfl
    | cons clause clauses ih =>
      intro b hb
      rw [List.foldl_cons, SortClause.add_eq, entries, List.filterMap_cons]
      cases clause.entry with
      | none => exact ih b hb
      | some entry =>
        obtain ⟨sorts, fallback⟩ := b
        cases hb
        rw [List.map_cons, List.foldl_cons, Option.elim_some, pushUnique]
        split <;> exact ih _ rfl
  rw [of, hadd _ rfl, Firsts.foldl_push, Firsts.firsts, Firsts.map_firstsFrom]
  unfold build
  split
  · next hempty => exact (List.isEmpty_iff.mp hempty).symm
  · rfl

/-- No two targets share an identifier: all distances are of one field, and no field is called
as a distance or the score is. -/
def SortTarget.Apart (targets : List SortTarget) : Prop :=
  (∀ p q, .distance p ∈ targets → .distance q ∈ targets → p = q) ∧
    (∀ p, .distance p ∈ targets → .field "_geo_distance" ∉ targets) ∧
    (.score ∈ targets → .field "_score" ∉ targets)

theorem SortTarget.apart_iff :
    Apart targets ↔ ∀ a ∈ targets, ∀ b ∈ targets, a.id = b.id → a = b := by
  constructor
  · rintro ⟨hdistance, hfield, hscore⟩ a ha b hb hid
    cases a <;> cases b
    case distance.distance p q => rw [hdistance p q ha hb]
    case distance.field p path =>
      cases hid
      exact absurd hb (hfield p ha)
    case field.distance path p =>
      cases hid
      exact absurd ha (hfield p hb)
    case score.field path =>
      cases hid
      exact absurd hb (hscore ha)
    case field.score path =>
      cases hid
      exact absurd ha (hscore hb)
    all_goals simp_all [SortTarget.id]
  · intro h
    refine ⟨?_, ?_, ?_⟩
    · intro p q hp hq
      exact distance.inj (h _ hp _ hq rfl)
    · intro p hp hfield
      cases h _ hp _ hfield rfl
    · intro hscore hfield
      cases h _ hscore _ hfield rfl

/-- The builder keeps the first clause for each target exactly where the identifiers keep the
targets apart. -/
theorem SortBuilder.build_of_eq_firsts_iff (clauses : List SortClause) :
    (of clauses).build = (Firsts.firsts Prod.fst (entries clauses)).map Prod.snd ↔
      SortTarget.Apart ((entries clauses).map Prod.fst) := by
  have hid : ∀ e ∈ entries clauses, e.2.dedupId = e.1.id := by
    intro e he
    obtain ⟨clause, -, hentry⟩ := List.mem_filterMap.mp he
    exact SortClause.dedupId_entry hentry
  have hmerge : ∀ a ∈ entries clauses, ∀ b ∈ entries clauses, a.1 = b.1 →
      a.2.dedupId = b.2.dedupId := by
    intro a ha b hb htarget
    rw [hid a ha, hid b hb, htarget]
  rw [build_of, Firsts.map_firsts_eq_iff hmerge, SortTarget.apart_iff]
  simp only [List.forall_mem_map]
  constructor
  · intro h a ha b hb heq
    exact h a ha b hb (by rw [hid a ha, hid b hb, heq])
  · intro h a ha b hb heq
    exact h a ha b hb (by rw [← hid a ha, ← hid b hb, heq])

/-- By the distance of two fields. -/
def twoDistances : List SortClause :=
  [.near "pickup" (some ⟨"40.0", "-74.0"⟩), .near "dropoff" (some ⟨"40.0", "-74.0"⟩)]

/-- The second distance is dropped. -/
theorem SortBuilder.build_of_twoDistances :
    (of twoDistances).build.length = 1 ∧
      (of twoDistances).build ≠ (Firsts.firsts Prod.fst (entries twoDistances)).map Prod.snd := by
  refine ⟨by decide, fun h => ?_⟩
  exact absurd (congrArg List.length h) (by decide)

end Targets

end Flusso.Sdk
